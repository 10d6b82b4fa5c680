import LibIS.SimState
import LibIS.Common

set_option autoImplicit false

/-! # The simulation side of a session (`is_sim.cpp`, `ConnectionManager`)

`process()` and the destructor as one rank runs them, over the operations they perform on the world
outside: the mutex, the listener thread, the collectives of `simComm`, and the intercommunicator.
What these do is not fixed here.

All of `process()` runs under the mutex that guards the manager's fields, so the fields are read
when it is taken and written back when it is released. -/

open ByteCodec Prog

namespace LibIS

/-- What a message on the intercommunicator is for. Nothing of it is transmitted. -/
inductive Kind where
  | command
  | quit
  | ping
  | data
deriving DecidableEq, Repr

/-- An `int` in memory. -/
def intBytes (v : Int32) : Bytes :=
  leBytes 4 v.toUInt32.toNat

/-- The `int` that four bytes in memory are. -/
def intOfBytes (bs : Bytes) : Int32 :=
  (UInt32.ofNat (leValue bs)).toInt32

@[simp] theorem intBytes_length (v : Int32) : (intBytes v).length = 4 :=
  leBytes_length _ _

@[simp] theorem intOfBytes_intBytes (v : Int32) : intOfBytes (intBytes v) = v := by
  rw [intOfBytes, intBytes, leValue_leBytes_of_lt _ _ v.toUInt32.toNat_lt, UInt32.ofNat_toNat]
  exact Int32.toInt32_toUInt32 v

/-- The fields of `ConnectionManager` that the mutex guards. `Conn` is what the shared pointer to
    the `InterComm` points to. -/
structure ConnectionManager (Conn : Type) where
  intercomm : Option Conn
  clientPort : StdString
  clientCommand : Int32
  newQuery : Bool
deriving DecidableEq

/-- What a simulation rank does to the world outside. -/
inductive SimOp (Conn : Type) where
  | lock
  | unlock (cm : ConnectionManager Conn)
  | setExitThread
  | joinable
  | join
  | spawn
  | bcast (buf : Bytes)
  | connect (host : StdString)
  | close (comm : Conn)
  | probe (comm : Conn) (rank : ℕ)
  | probeAll (comm : Conn)
  | send (comm : Conn) (kind : Kind) (data : Bytes) (rank : ℕ)
  | recv (comm : Conn) (kind : Kind) (size : ℕ) (rank : ℕ)
  | crash

/-- The answers. `lock` is answered by the guarded fields as they stand, `bcast` by what the root
    sent, `probeAll`, repeated until it is not -1, by a rank. Nothing follows a `crash`. -/
abbrev SimOp.Resp {Conn : Type} : SimOp Conn → Type
  | .lock => ConnectionManager Conn
  | .joinable => Bool
  | .bcast _ => Bytes
  | .connect _ => Except Fault Conn
  | .probe _ _ => Bool
  | .probeAll _ => ℕ
  | .recv _ _ _ _ => Bytes
  | .crash => Empty
  | _ => Unit

/-- A program of a simulation rank. -/
abbrev SimProg (Conn α : Type) := Prog (@SimOp.Resp Conn) α

namespace SimOp

variable {Conn : Type}

abbrev lockMutex : SimProg Conn (ConnectionManager Conn) := op SimOp.lock
abbrev unlockMutex (cm : ConnectionManager Conn) : SimProg Conn Unit := op (SimOp.unlock cm)
abbrev stopThread : SimProg Conn Unit := op SimOp.setExitThread
abbrev threadJoinable : SimProg Conn Bool := op SimOp.joinable
abbrev joinThread : SimProg Conn Unit := op SimOp.join
abbrev spawnThread : SimProg Conn Unit := op SimOp.spawn
abbrev mpiBcast (buf : Bytes) : SimProg Conn Bytes := op (SimOp.bcast buf)
abbrev connectTo (host : StdString) : SimProg Conn (Except Fault Conn) := op (SimOp.connect host)
abbrev closeComm (comm : Conn) : SimProg Conn Unit := op (SimOp.close comm)
abbrev probeRank (comm : Conn) (rank : ℕ) : SimProg Conn Bool := op (SimOp.probe comm rank)
abbrev probeAny (comm : Conn) : SimProg Conn ℕ := op (SimOp.probeAll comm)

abbrev sendTo (comm : Conn) (kind : Kind) (data : Bytes) (rank : ℕ) : SimProg Conn Unit :=
  op (SimOp.send comm kind data rank)

abbrev recvFrom (comm : Conn) (kind : Kind) (size : ℕ) (rank : ℕ) : SimProg Conn Bytes :=
  op (SimOp.recv comm kind size rank)

end SimOp

/-- How a `process()` call ends: by one of its branches, or by an exception. -/
inductive Branch where
  | idle
  | connect
  | query
  | disconnect
  | threw (e : Fault)
deriving DecidableEq

namespace ConnectionManager

open SimOp

variable {Conn : Type}

/-- The fields after `ConnectionManager::ConnectionManager`. -/
def init : ConnectionManager Conn :=
  ⟨none, ⟨[], StdString.empty_lt⟩, Command.invalid.toInt32, false⟩

/-- What the listener thread does with a frame it has read, under the mutex. -/
def publish (portName : StdString) (cmd : Int32) (cm : ConnectionManager Conn) :
    ConnectionManager Conn :=
  { cm with
    clientPort := if cm.intercomm.isNone then portName else cm.clientPort
    clientCommand := cmd
    newQuery := true }

/-- Use a null pointer. -/
def crash {α : Type} : SimProg Conn α :=
  .vis .crash Empty.elim

/-- Send an `int` to the client's rank 0, if there is a client. -/
def sendQuit (comm : Conn) (quit : Int32) : SimProg Conn Unit :=
  sendTo comm .quit (intBytes quit) 0

/-- What `connectClient` throws when there is a client already. -/
def alreadyConnected : Fault :=
  .runtimeError "libIS_sim error: Attempt to connect client while already connected"

/-- What `process` throws for any other command. -/
def unknownCommand : Fault :=
  .runtimeError "Invalid or unknown client command!"

/-- The broadcasts of `connectClient`: rank 0 encodes its port, the others decode it. -/
def bcastPort (simRank : ℕ) (clientPort : StdString) : SimProg Conn (Except Fault StdString) :=
  if simRank = 0 then
    match serialize (writeString clientPort) with
    | .error e => return .error e
    | .ok writebuf => do
        let _ ← mpiBcast (leBytes 8 writebuf.length)
        let _ ← mpiBcast writebuf
        return .ok clientPort
  else do
    let bufsize ← mpiBcast (leBytes 8 0)
    let buf ← mpiBcast (zeros (leValue bufsize))
    return decodeHeader (readString unlimited) buf

/-- `ConnectionManager::connectClient`: the fields it leaves, and the exception if it throws. -/
def connectClient (simRank : ℕ) (cm : ConnectionManager Conn) :
    SimProg Conn (Except Fault Unit × ConnectionManager Conn) :=
  match cm.intercomm with
  | some _ => return (.error alreadyConnected, cm)
  | none => do
      let port ← bcastPort simRank cm.clientPort
      match port with
      | .error e => return (.error e, cm)
      | .ok port => do
          let comm ← connectTo port
          match comm with
          | .error e => return (.error e, { cm with clientPort := port })
          | .ok comm => return (.ok (), { cm with clientPort := port, intercomm := some comm })

/-- Drop the pointer, which destroys the `InterComm`. -/
def release (cm : ConnectionManager Conn) : SimProg Conn Unit :=
  match cm.intercomm with
  | some comm => closeComm comm
  | none => return

/-- Wait for the listener thread to end and start it anew, if there is one. -/
def restartListener : SimProg Conn Unit := do
  let joinable ← threadJoinable
  if joinable then
    joinThread
    spawnThread

/-- `ConnectionManager::disconnectClient`. -/
def disconnectClient (simRank : ℕ) (cm : ConnectionManager Conn) :
    SimProg Conn (ConnectionManager Conn) := do
  release cm
  if simRank = 0 then
    restartListener
  return { cm with intercomm := none }

/-- Send the messages one after the other. -/
def sendAll (comm : Conn) (rank : ℕ) : List Bytes → SimProg Conn Unit
  | [] => return
  | m :: ms => do
      sendTo comm .data m rank
      sendAll comm rank ms

/-- `ConnectionManager::handleQuery`, with the messages `state` gives rise to. -/
def handleQuery (state : Except Fault (List Bytes)) (cm : ConnectionManager Conn) :
    SimProg Conn Unit :=
  match cm.intercomm, state with
  | none, _ => crash
  | some comm, state => do
      let myClient ← probeAny comm
      let _ ← recvFrom comm .ping 4 myClient
      match state with
      | .error _ => crash
      | .ok msgs => sendAll comm myClient msgs

/-- The start of `process`: whether there is a command, and the fields with the command in place. A
    connected client is asked, and told not to quit. -/
def poll (simRank : ℕ) (cm : ConnectionManager Conn) :
    SimProg Conn (Int32 × ConnectionManager Conn) :=
  match cm.newQuery, cm.intercomm with
  | false, some comm =>
      if simRank = 0 then do
        let ready ← probeRank comm 0
        if ready then
          let clientCommand ← recvFrom comm .command 4 0
          sendQuit comm 0
          return (1, { cm with clientCommand := intOfBytes clientCommand })
        else
          return (0, cm)
      else
        return (0, cm)
  | false, none => return (0, cm)
  | true, _ => return (1, cm)

/-- The end of `process`, when nothing has been thrown. -/
def done (cm : ConnectionManager Conn) : ConnectionManager Conn :=
  { cm with clientCommand := -1, newQuery := false }

/-- The `switch` of `process`. -/
def runCommand (simRank : ℕ) (state : Except Fault (List Bytes)) (cm : ConnectionManager Conn) :
    SimProg Conn (Branch × ConnectionManager Conn) :=
  if cm.clientCommand = Command.connect.toInt32 then do
    let (result, cm) ← connectClient simRank cm
    match result, cm.intercomm with
    | .error e, _ => return (.threw e, cm)
    | .ok _, none => crash
    | .ok _, some comm =>
        if simRank = 0 then do
          sendQuit comm 0
          return (.connect, done cm)
        else
          return (.connect, done cm)
  else if cm.clientCommand = Command.query.toInt32 then do
    handleQuery state cm
    return (.query, done cm)
  else if cm.clientCommand = Command.disconnect.toInt32 then do
    let cm ← disconnectClient simRank cm
    return (.disconnect, done cm)
  else
    return (.threw unknownCommand, cm)

/-- `ConnectionManager::process`. The guard releases the mutex on every path out. -/
def process (simRank : ℕ) (state : Except Fault (List Bytes)) : SimProg Conn Branch := do
  let cm ← lockMutex
  let (haveQuery, cm) ← poll simRank cm
  let haveQuery ← mpiBcast (intBytes haveQuery)
  if intOfBytes haveQuery = 0 then do
    unlockMutex cm
    return .idle
  else do
    let clientCommand ← mpiBcast (intBytes cm.clientCommand)
    let (branch, cm) ← runCommand simRank state
      { cm with clientCommand := intOfBytes clientCommand }
    unlockMutex cm
    return branch

/-- The start of the destructor: stop the listener thread. -/
def stopListener : SimProg Conn Unit := do
  let joinable ← threadJoinable
  if joinable then
    stopThread
    joinThread

/-- The wait of the destructor for the command of a connected client. -/
def awaitCommand (simRank : ℕ) (cm : ConnectionManager Conn) :
    SimProg Conn (ConnectionManager Conn) :=
  match cm.newQuery, cm.intercomm with
  | false, some comm =>
      if simRank = 0 then do
        let clientCommand ← recvFrom comm .command 4 0
        return { cm with clientCommand := intOfBytes clientCommand }
      else
        return cm
  | _, _ => return cm

/-- The end of the destructor: tell the client to quit, release the mutex, drop the pointer. -/
def sayGoodbye (simRank : ℕ) (cm : ConnectionManager Conn) : SimProg Conn Unit :=
  match cm.intercomm with
  | none => unlockMutex cm
  | some comm =>
      if simRank = 0 then do
        sendQuit comm 1
        unlockMutex cm
        closeComm comm
      else do
        unlockMutex cm
        closeComm comm

/-- `ConnectionManager::~ConnectionManager`. An exception out of it ends the program. -/
def destructor (simRank : ℕ) : SimProg Conn (Except Fault Unit) := do
  stopListener
  let cm ← lockMutex
  let cm ← awaitCommand simRank cm
  let clientCommand ← mpiBcast (intBytes cm.clientCommand)
  let cm := { cm with clientCommand := intOfBytes clientCommand }
  if cm.clientCommand = Command.connect.toInt32 then do
    let (result, cm) ← connectClient simRank cm
    match result with
    | .error e => return .error e
    | .ok _ => do
        sayGoodbye simRank cm
        return .ok ()
  else do
    sayGoodbye simRank cm
    return .ok ()

end ConnectionManager

end LibIS
