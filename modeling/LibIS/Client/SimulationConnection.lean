import LibIS.Client.Assignment
import LibIS.RegionTransfer
import LibIS.Sim.ConnectionManager

set_option autoImplicit false

/-! # The client side of a session (`is_client.cpp`, `SimulationConnection`)

The calls of a client as one of its ranks runs them, over the operations they perform on the world
outside: the socket to the simulation's listener, the collectives of `ownComm`, and the
intercommunicator. No exception is caught on the way, so throwing is an operation that nothing
follows. -/

open ByteCodec Prog

namespace LibIS

/-- What a client rank does to the world outside. A barrier is entered by `arrive` and passed by
    `leave`. -/
inductive ClientOp (Conn : Type) where
  | listen
  | portName (comm : Conn)
  | accept (comm : Conn)
  | close (comm : Conn)
  | remoteSize (comm : Conn)
  | dial
  | sendSocket (data : Bytes)
  | closeSocket
  | arrive
  | leave
  | bcast (buf : Bytes)
  | send (comm : Conn) (kind : Kind) (data : Bytes) (rank : ℕ)
  | recv (comm : Conn) (kind : Kind) (size : ℕ) (rank : ℕ)
  | throw (e : Fault)
  | crash
deriving DecidableEq

/-- The answers. `dial` may fail, `sendSocket` is answered by its return value. -/
abbrev ClientOp.Resp {Conn : Type} : ClientOp Conn → Type
  | .listen => Conn
  | .portName _ => StdString
  | .remoteSize _ => ℕ
  | .dial => Except Fault Unit
  | .sendSocket _ => Int
  | .bcast _ => Bytes
  | .recv _ _ _ _ => Bytes
  | .throw _ => Empty
  | .crash => Empty
  | _ => Unit

/-- A program of a client rank. -/
abbrev ClientProg (Conn α : Type) := Prog (@ClientOp.Resp Conn) α

namespace ClientOp

variable {Conn α : Type}

abbrev listenComm : ClientProg Conn Conn := op ClientOp.listen
abbrev commPortName (comm : Conn) : ClientProg Conn StdString := op (ClientOp.portName comm)
abbrev acceptComm (comm : Conn) : ClientProg Conn Unit := op (ClientOp.accept comm)
abbrev closeComm (comm : Conn) : ClientProg Conn Unit := op (ClientOp.close comm)
abbrev commRemoteSize (comm : Conn) : ClientProg Conn ℕ := op (ClientOp.remoteSize comm)
abbrev dialSim : ClientProg Conn (Except Fault Unit) := op ClientOp.dial
abbrev socketSend (data : Bytes) : ClientProg Conn Int := op (ClientOp.sendSocket data)
abbrev socketClose : ClientProg Conn Unit := op ClientOp.closeSocket
abbrev mpiBcast (buf : Bytes) : ClientProg Conn Bytes := op (ClientOp.bcast buf)

abbrev sendTo (comm : Conn) (kind : Kind) (data : Bytes) (rank : ℕ) : ClientProg Conn Unit :=
  op (ClientOp.send comm kind data rank)

abbrev recvFrom (comm : Conn) (kind : Kind) (size : ℕ) (rank : ℕ) : ClientProg Conn Bytes :=
  op (ClientOp.recv comm kind size rank)

/-- Throw `e`. -/
def raise (e : Fault) : ClientProg Conn α :=
  .vis (.throw e) Empty.elim

/-- Use a null pointer. -/
def useNull : ClientProg Conn α :=
  .vis .crash Empty.elim

/-- `MPI_Barrier`. -/
def mpiBarrier : ClientProg Conn Unit := do
  op ClientOp.arrive
  op ClientOp.leave

end ClientOp

/-- The fields of `SimulationConnection` that change. -/
structure SimulationConnection (Conn : Type) where
  intercomm : Option Conn
  simQuit : Int32
  myPortName : StdString

namespace SimulationConnection

open ClientOp

variable {Conn : Type}

/-- `send` all of `data` on the socket, or throw. -/
def sendOrThrow (data : Bytes) (message : String) : ClientProg Conn Unit := do
  let n ← socketSend data
  if n ≠ data.length then
    raise (.runtimeError message)
  else
    return

/-- The part of `sendCommand` that announces the client to the listener: length of the port name
    with its null-terminator, port name, command. -/
def sendFrame (myPortName : StdString) (cmd : Command) : ClientProg Conn Unit := do
  let result ← dialSim
  match result with
  | .error e => raise e
  | .ok _ => do
      sendOrThrow (intBytes (Int32.ofNat (myPortName.bytes.length + 1)))
        "Failed to send port name length"
      sendOrThrow (myPortName.bytes ++ [0]) "Failed to send port name"
      sendOrThrow (intBytes cmd.toInt32) "Failed to send command"
      socketClose

/-- What rank 0 does in `sendCommand`. Its result is `simQuit`. -/
def issueCommand (cmd : Command) (this : SimulationConnection Conn) : ClientProg Conn Int32 :=
  if cmd = .connect then do
    sendFrame this.myPortName cmd
    return this.simQuit
  else
    match this.intercomm with
    | none => useNull
    | some comm => do
        sendTo comm .command (intBytes cmd.toInt32) 0
        let quit ← recvFrom comm .quit 4 0
        return intOfBytes quit

/-- `MPI_Bcast(&simQuit, ..)` from rank 0. -/
def bcastQuit (this : SimulationConnection Conn) :
    ClientProg Conn (SimulationConnection Conn) := do
  let quit ← mpiBcast (intBytes this.simQuit)
  return { this with simQuit := intOfBytes quit }

/-- `SimulationConnection::sendCommand`. The result is in `simQuit`. -/
def sendCommand (rank : ℕ) (cmd : Command) (this : SimulationConnection Conn) :
    ClientProg Conn (SimulationConnection Conn) :=
  if rank = 0 then do
    let simQuit ← issueCommand cmd this
    mpiBarrier
    bcastQuit { this with simQuit := simQuit }
  else do
    mpiBarrier
    bcastQuit this

/-- `SimulationConnection::connectSim`, called by the constructor. -/
def connectSim (rank : ℕ) : ClientProg Conn (SimulationConnection Conn) := do
  let comm ← listenComm
  let myPortName ← commPortName comm
  let this ← sendCommand rank .connect
    { intercomm := some comm, simQuit := 0, myPortName := myPortName }
  acceptComm comm
  if rank = 0 then do
    let quit ← recvFrom comm .quit 4 0
    bcastQuit { this with simQuit := intOfBytes quit }
  else
    bcastQuit this

/-- A receive of `Buffer::recv` or its like, from rank `regionId`. -/
def recvRegionOp (comm : Conn) (regionId : ℕ) (o : RecvOp Fault) : ClientProg Conn o.Resp :=
  match o with
  | .recv size => recvFrom comm .data size regionId
  | .throw e => raise e

/-- One iteration of the loop of `query`: ping the simulation rank, receive its state. -/
def queryRegion (rank : ℕ) (comm : Conn) (regionId : ℕ) : ClientProg Conn SimState := do
  sendTo comm .ping (intBytes (Int32.ofNat rank)) regionId
  recvRegion.interp (recvRegionOp comm regionId)

/-- The loop of `query` over the rank's regions. -/
def queryRegions (rank : ℕ) (comm : Conn) : List Int → ClientProg Conn (List SimState)
  | [] => return []
  | regionId :: regionIds => do
      let r ← queryRegion rank comm regionId.toNat
      let rs ← queryRegions rank comm regionIds
      return r :: rs

/-- `SimulationConnection::query`. -/
def query (size rank : ℕ) (this : SimulationConnection Conn) :
    ClientProg Conn (List SimState × SimulationConnection Conn) := do
  let this ← sendCommand rank .query this
  if this.simQuit ≠ 0 then
    return ([], this)
  else
    match this.intercomm with
    | none => useNull
    | some comm => do
        let correctedSimSize ← commRemoteSize comm
        let regions ← queryRegions rank comm (queriedRegions correctedSimSize size rank)
        mpiBarrier
        return (regions, this)

/-- Drop the pointer, which destroys the `InterComm`. -/
def release (this : SimulationConnection Conn) : ClientProg Conn Unit :=
  match this.intercomm with
  | some comm => closeComm comm
  | none => return

/-- `SimulationConnection::disconnect`. -/
def disconnect (rank : ℕ) (this : SimulationConnection Conn) :
    ClientProg Conn (SimulationConnection Conn) := do
  let this ← sendCommand rank .disconnect this
  release this
  return { this with intercomm := none }

/-- `SimulationConnection::~SimulationConnection`. Returns the last `simQuit`. -/
def destructor (rank : ℕ) (this : SimulationConnection Conn) : ClientProg Conn Int32 :=
  if this.simQuit = 0 then do
    let this ← disconnect rank this
    release this
    return this.simQuit
  else do
    release this
    return this.simQuit

end SimulationConnection

end LibIS
