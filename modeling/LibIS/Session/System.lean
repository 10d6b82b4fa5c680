import LibIS.Client.SimulationConnection
import LibIS.Library.Channel
import LibIS.Library.Threads
import LibIS.Sim.Listener

set_option autoImplicit false

/-! # Sessions: the system

Rank 0 of the simulation with its main thread and its listener thread, and any number of clients,
each of which connects, queries as often as it likes and disconnects or is told to quit. The main
thread calls `process()` over and over, and destroys the manager after some number of calls, or
never. The other simulation ranks are part of the world outside: what a client rank gets from them
is left open. -/

open ByteCodec

namespace LibIS

namespace Session

/-- What is fixed in a run. Port names are strings without null characters that fit the listener's
    array. -/
structure Setup where
  simSize : ℕ
  maxPortName : ℕ
  /-- the number of ranks of each client, its port name, and the number of its queries -/
  size : ℕ → ℕ
  port : ℕ → StdString
  queries : ℕ → ℕ
  /-- what rank 0 passes to each call of `libISProcess` -/
  snaps : ℕ → Snapshot 0
  /-- the number of calls before `libISFinalize` -/
  finalize : Option ℕ
  simSize_pos : 1 ≤ simSize
  size_pos : ∀ i, 1 ≤ size i
  port_bytes : ∀ i, 0 ∉ (port i).bytes
  port_length : ∀ i, (port i).bytes.length ≤ maxPortName
  maxPortName_lt : maxPortName + 1 < 2 ^ 31

/-- A message on the intercommunicator. Only `data` is transmitted. -/
structure Message where
  kind : Kind
  data : Bytes
deriving DecidableEq

/-- A command that a client has given: by a frame that the listener has published, or on the
    intercommunicator. -/
structure Issue where
  client : ℕ
  command : Int32
deriving DecidableEq

/-- Who has taken a command: a call of `process()`, or the destructor. -/
inductive Taker where
  | process (call : ℕ)
  | destructor
deriving DecidableEq

/-- The threads of rank 0. -/
inductive Holder where
  | main
  | listener
deriving DecidableEq

/-- All that the threads and the clients share. -/
structure World where
  manager : ConnectionManager ℕ
  /-- who holds the mutex -/
  holder : Option Holder
  exitThread : Bool
  joinable : Bool
  /-- the number of listener threads that have been created, have begun, have published a frame and
      have ended -/
  spawned : ℕ
  started : ℕ
  published : ℕ
  ended : ℕ
  listening : Bool
  /-- the clients in the order they have connected to the listening socket, and the one whose
      connection has been accepted last -/
  dials : Channel ℕ
  reading : ℕ
  frame : ℕ → Channel UInt8
  /-- the ports that are open, and those that the simulation has connected to -/
  opened : ℕ → Bool
  linked : ℕ → Bool
  /-- the channels between rank 0 of the simulation and the ranks of each client -/
  up : ℕ → ℕ → Channel Message
  down : ℕ → ℕ → Channel Message
  /-- the barriers each client rank has entered, what rank 0 of each client has broadcast, and how
      much of it each other rank has got -/
  arrived : ℕ → ℕ → ℕ
  clientCast : ℕ → List Bytes
  clientHeard : ℕ → ℕ → ℕ
  /-- the commands in the order they were given, who has taken them and what the replies were -/
  issued : List Issue
  takes : List Taker
  replied : List Int32
  /-- how often the main thread has released the mutex, and whether the destructor has taken it -/
  calls : ℕ
  destroying : Bool

/-- Who takes a command now. Only the destructor sets `exitThread`. -/
def World.taker (w : World) : Taker :=
  if w.exitThread then .destructor else .process w.calls

section Perform

variable (X : Setup)

/-- An operation of the main thread. As the root it gets back what it broadcasts. Connecting to an
    open port succeeds. -/
def performMain : (o : SimOp ℕ) → World → o.Resp → World → Prop
  | .lock, w, r, w' =>
      w.holder = none ∧ r = w.manager ∧ w' = { w with
        holder := some .main
        destroying := w.exitThread
        takes := if w.manager.newQuery then w.takes ++ [w.taker] else w.takes }
  | .unlock cm, w, _, w' =>
      w' = { w with manager := cm, holder := none, calls := w.calls + 1 }
  | .setExitThread, w, _, w' => w' = { w with exitThread := true }
  | .joinable, w, r, w' => r = w.joinable ∧ w' = w
  | .join, w, _, w' => w.ended = w.spawned ∧ w' = { w with joinable := false }
  | .spawn, w, _, w' => w' = { w with spawned := w.spawned + 1, joinable := true }
  | .bcast buf, w, r, w' => r = buf ∧ w' = w
  | .connect host, w, r, w' =>
      ∃ i, w.opened i ∧ X.port i = host ∧ r = .ok i ∧ w' = { w with
        opened := Function.update w.opened i false
        linked := Function.update w.linked i true }
  | .close _, w, _, w' => w' = w
  | .probe comm rank, w, r, w' => r = (w.up comm rank).next?.isSome ∧ w' = w
  | .probeAll comm, w, r, w' =>
      r < X.size comm ∧ (w.up comm r).next?.isSome ∧
        (∀ c, c < r → (w.up comm c).next? = none) ∧ w' = w
  | .send comm kind data rank, w, _, w' =>
      w' = { w with
        down := updateAt w.down comm rank ((w.down comm rank).push ⟨kind, data⟩)
        replied := if kind = .quit then w.replied ++ [intOfBytes data] else w.replied }
  | .recv comm _ _ rank, w, r, w' =>
      ∃ m, (w.up comm rank).next? = some m ∧ r = m.data ∧ w' = { w with
        up := updateAt w.up comm rank (w.up comm rank).pop
        takes := if m.kind = .command then w.takes ++ [w.taker] else w.takes }
  | .crash, _, _, _ => False

/-- An operation of the listener thread. A receive may fail or come back short, and so may the calls
    that throw; nothing follows a throw. -/
def performListener : (o : ListenerOp ℕ) → World → o.Resp → World → Prop
  | .begin, w, _, w' => w.started < w.spawned ∧ w' = { w with started := w.started + 1 }
  | .openSocket, w, r, w' =>
      (∃ e, r = .error e ∧ w' = w) ∨ (r = .ok () ∧ w' = { w with listening := true })
  | .exitThread, w, r, w' => r = w.exitThread ∧ w' = w
  | .accept, w, r, w' =>
      (∃ e, r = .error e ∧ w' = w) ∨ (r = .ok none ∧ w' = w) ∨
        ∃ i, w.dials.next? = some i ∧ r = .ok (some i) ∧
          w' = { w with dials := w.dials.pop, reading := i }
  | .recv i size, w, r, w' =>
      (r = none ∧ w' = w) ∨
        ∃ bs, r = some bs ∧ bs <+: (w.frame i).pending ∧ (0 ≤ size → bs.length ≤ size) ∧
          w' = { w with frame := Function.update w.frame i ((w.frame i).advance bs.length) }
  | .close _, w, _, w' => w' = w
  | .lock, w, r, w' =>
      w.holder = none ∧ r = w.manager ∧ w' = { w with holder := some .listener }
  | .unlock cm, w, _, w' =>
      w' = { w with
        manager := cm
        holder := none
        published := w.started
        issued := w.issued ++ [⟨w.reading, cm.clientCommand⟩] }
  | .closeSocket, w, _, w' =>
      w' = { w with
        listening := false
        dials := w.dials.flush }
  | .finish, w, _, w' => w' = { w with ended := w.ended + 1 }
  | .throw _, _, _, _ => False
  | .overrun, _, _, _ => False

/-- An operation of rank `c` of client `i`. Its rank 0 opens the port, under a name that no other
    open port has. Connecting to the listening socket may always fail, and a send may come back
    short. -/
def performClient (i c : ℕ) : (o : ClientOp ℕ) → World → o.Resp → World → Prop
  | .listen, w, r, w' =>
      r = i ∧ if c = 0 then
        (∀ j, w.opened j → X.port j ≠ X.port i) ∧
          w' = { w with opened := Function.update w.opened i true }
      else
        w' = w
  | .portName _, w, r, w' => r = X.port i ∧ w' = w
  | .accept _, w, _, w' => w.linked i ∧ w' = w
  | .close _, w, _, w' => w' = w
  | .remoteSize _, w, r, w' => r = X.simSize ∧ w' = w
  | .dial, w, r, w' =>
      (∃ e, r = .error e ∧ w' = w) ∨
        (w.listening ∧ r = .ok () ∧ w' = { w with dials := w.dials.push i })
  | .sendSocket data, w, r, w' =>
      (r = -1 ∧ w' = w) ∨
        ∃ k, k ≤ data.length ∧ r = (k : Int) ∧
          w' = { w with frame := Function.update w.frame i ((w.frame i).pushAll (data.take k)) }
  | .closeSocket, w, _, w' => w' = w
  | .arrive, w, _, w' => w' = { w with arrived := updateAt w.arrived i c (w.arrived i c + 1) }
  | .leave, w, _, w' => (∀ c', c' < X.size i → w.arrived i c ≤ w.arrived i c') ∧ w' = w
  | .bcast buf, w, r, w' =>
      if c = 0 then
        r = buf ∧
          w' = { w with clientCast := Function.update w.clientCast i (w.clientCast i ++ [buf]) }
      else
        (w.clientCast i)[w.clientHeard i c]? = some r ∧
          w' = { w with clientHeard := updateAt w.clientHeard i c (w.clientHeard i c + 1) }
  | .send _ kind data rank, w, _, w' =>
      if rank = 0 then
        w' = { w with
          up := updateAt w.up i c ((w.up i c).push ⟨kind, data⟩)
          issued := if kind = .command then w.issued ++ [⟨i, intOfBytes data⟩] else w.issued }
      else
        w' = w
  | .recv _ _ size rank, w, r, w' =>
      if rank = 0 then
        ∃ m, (w.down i c).next? = some m ∧ r = m.data ∧
          w' = { w with down := updateAt w.down i c (w.down i c).pop }
      else
        r.length = size ∧ w' = w
  | .throw _, _, _, _ => False
  | .crash, _, _, _ => False

end Perform

/-- The main thread between two calls, with how its calls have ended. -/
inductive MainLabel where
  | running (calls : List Branch)
  | finalized (calls : List Branch) (result : Except Fault Unit)
deriving DecidableEq

/-- A client rank between two calls: `quits` is what `simQuit` was after each of its calls. -/
inductive ClientLabel where
  | start
  | connected (this : SimulationConnection ℕ) (quits : List Int32) (queries : ℕ)
  | gone (quits : List Int32)

/-- The end of `connect` and of `query`: a client that is told to quit destroys its connection. -/
def keep (rank : ℕ) (quits : List Int32) (queries : ℕ) (this : SimulationConnection ℕ) :
    ClientProg ℕ ClientLabel :=
  if this.simQuit = 0 then
    return .connected this (quits ++ [this.simQuit]) queries
  else do
    let simQuit ← SimulationConnection.destructor rank this
    return .gone (quits ++ [simQuit])

/-- The calls a client rank makes. -/
def clientCode (X : Setup) (i rank : ℕ) : ClientLabel → ClientProg ℕ ClientLabel
  | .start => do
      let this ← SimulationConnection.connectSim rank
      keep rank [] (X.queries i) this
  | .connected this quits 0 => do
      let simQuit ← SimulationConnection.destructor rank this
      return .gone (quits ++ [simQuit])
  | .connected this quits (queries + 1) => do
      let (_, this) ← SimulationConnection.query (X.size i) rank this
      keep rank quits queries this
  | .gone quits => return .gone quits

/-- The calls the main thread makes. -/
def mainCode (X : Setup) : MainLabel → SimProg ℕ MainLabel
  | .running calls =>
      if X.finalize = some calls.length then do
        let result ← ConnectionManager.destructor 0
        return .finalized calls result
      else do
        let branch ← ConnectionManager.process 0 (X.snaps calls.length).sends
        return .running (calls ++ [branch])
  | .finalized calls result => return .finalized calls result

/-- The threads and client ranks. -/
inductive Party (X : Setup) where
  | main
  | listener
  | client (i : ℕ) (c : Fin (X.size i))
deriving DecidableEq

/-- The threads and client ranks with their programs. -/
@[reducible] def system (X : Setup) : ThreadSystem (Party X) World where
  Op
    | .main => SimOp ℕ
    | .listener => ListenerOp ℕ
    | .client _ _ => ClientOp ℕ
  Resp
    | .main => SimOp.Resp
    | .listener => ListenerOp.Resp
    | .client _ _ => ClientOp.Resp
  Label
    | .main => MainLabel
    | .listener => Listener.Label
    | .client _ _ => ClientLabel
  code
    | .main => mainCode X
    | .listener => Listener.listenForClient X.maxPortName
    | .client i c => clientCode X i c
  perform
    | .main => performMain X
    | .listener => performListener
    | .client i c => performClient X i c

/-- The world after `libISInit`: the first listener has been created. -/
def World.init : World where
  manager := ConnectionManager.init
  holder := none
  exitThread := false
  joinable := true
  spawned := 1
  started := 0
  published := 0
  ended := 0
  listening := false
  dials := .empty
  reading := 0
  frame := fun _ => .empty
  opened := fun _ => false
  linked := fun _ => false
  up := fun _ _ => .empty
  down := fun _ _ => .empty
  arrived := fun _ _ => 0
  clientCast := fun _ => []
  clientHeard := fun _ _ => 0
  issued := []
  takes := []
  replied := []
  calls := 0
  destroying := false

/-- Where each of them starts. -/
def startLabels (X : Setup) : (p : Party X) → (system X).Label p
  | .main => .running []
  | .listener => .waiting
  | .client _ _ => .start

end Session

end LibIS
