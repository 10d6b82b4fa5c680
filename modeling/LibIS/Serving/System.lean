import LibIS.Library.Threads
import LibIS.Sim.FrameArrival

set_option autoImplicit false

/-! # Serving the listening socket: the system

Rank 0 of the simulation with its main thread and its listener thread, against any peers that
connect to the listening socket and send what they like. The main thread calls `process()` over and
over, and destroys the manager after some number of calls, or never. A connected client may answer
anything. -/

open ByteCodec

namespace LibIS

namespace Serving

/-- What is fixed in a run. -/
structure Setup where
  maxPortName : ℕ
  /-- what a query is answered with at each call of `libISProcess` -/
  sends : ℕ → Except Fault (List Bytes)
  /-- the number of calls before `libISFinalize` -/
  finalize : Option ℕ
  maxPortName_lt : maxPortName + 1 < 2 ^ 31

/-- A peer whose connection has been accepted. -/
structure Peer where
  /-- all it sends, whether that has arrived, and how much of it has been received -/
  frame : Bytes
  arrived : Bool
  taken : ℕ
  /-- how often its socket has been closed, and what has been published from it -/
  closes : ℕ
  published : Option (StdString × Int32)
deriving DecidableEq

namespace Peer

/-- What has not been received. -/
def rest (p : Peer) : Bytes :=
  p.frame.drop p.taken

def advance (p : Peer) (n : ℕ) : Peer :=
  { p with taken := p.taken + n }

def close (p : Peer) : Peer :=
  { p with closes := p.closes + 1 }

/-- A client whose CONNECT frame is complete. -/
structure Connects (X : Setup) (port : StdString) (p : Peer) : Prop where
  arrived : p.arrived = true
  frame : p.frame = connectFrame port
  zero : 0 ∉ port.bytes
  length : port.bytes.length ≤ X.maxPortName

end Peer

/-- The threads of rank 0. -/
inductive Party where
  | main
  | listener
deriving DecidableEq

/-- The listener thread: joined, created, running, running with its frame published, or ended. -/
inductive Thread where
  | absent
  | created
  | running
  | published
  | ended
deriving DecidableEq

/-- It will serve the next client. -/
def Thread.Listening (t : Thread) : Prop :=
  t = .created ∨ t = .running

/-- All that the threads share. -/
structure World where
  manager : ConnectionManager ℕ
  /-- who holds the mutex -/
  holder : Option Party
  exitThread : Bool
  thread : Thread
  /-- the peers in the order they have been accepted, and the one that has been accepted last -/
  peers : List Peer
  reading : ℕ
  /-- the peer that has been accepted since `exitThread` was tested -/
  untested : Option ℕ
  /-- whether a frame has been published since the main thread has released the mutex -/
  newer : Bool
  /-- the ports that the simulation has connected to, and the flags it has sent -/
  dialled : List StdString
  flags : List (ℕ × Int32)
  /-- whether the destructor has taken the mutex -/
  destroying : Bool
deriving DecidableEq

/-- Change the peer that is being read. -/
def World.mapPeer (w : World) (i : ℕ) (f : Peer → Peer) : World :=
  { w with peers := w.peers.modify i f }

/-- An operation of the main thread. As the root it gets back what it broadcasts. Connecting back
    may fail. -/
def performMain : (o : SimOp ℕ) → World → o.Resp → World → Prop
  | .lock, w, r, w' =>
      w.holder = none ∧ r = w.manager ∧
        w' = { w with
          holder := some .main
          destroying := w.exitThread }
  | .unlock cm, w, _, w' =>
      w' = { w with
        manager := cm
        holder := none
        newer := false }
  | .setExitThread, w, _, w' => w' = { w with exitThread := true }
  | .joinable, w, r, w' => r = decide (w.thread ≠ .absent) ∧ w' = w
  | .join, w, _, w' => w.thread = .ended ∧ w' = { w with thread := .absent }
  | .spawn, w, _, w' => w' = { w with thread := .created }
  | .bcast buf, w, r, w' => r = buf ∧ w' = w
  | .connect host, w, r, w' =>
      (∃ e, r = .error e ∧ w' = w) ∨
        (r = .ok w.dialled.length ∧ w' = { w with dialled := w.dialled ++ [host] })
  | .send comm kind data _, w, _, w' =>
      w' = { w with
        flags := if kind = .quit then w.flags ++ [(comm, intOfBytes data)] else w.flags }
  | .close _, w, _, w' => w' = w
  | .probe _ _, w, _, w' => w' = w
  | .probeAll _, w, _, w' => w' = w
  | .recv _ _ _ _, w, _, w' => w' = w
  | .crash, _, _, _ => False

/-- An operation of the listener thread. A peer all of whose bytes have arrived is received from
    whole; from others a receive may fail or come back short. Nothing follows a throw, and nothing
    is said about what follows an overrun. -/
def performListener : (o : ListenerOp ℕ) → World → o.Resp → World → Prop
  | .begin, w, _, w' => w.thread = .created ∧ w' = { w with thread := .running }
  | .openSocket, w, _, w' => w' = w
  | .exitThread, w, r, w' => r = w.exitThread ∧ w' = { w with untested := none }
  | .accept, w, r, w' =>
      (∃ e, r = .error e ∧ w' = w) ∨ (r = .ok none ∧ w' = w) ∨
        ∃ frame arrived, r = .ok (some w.peers.length) ∧
          w' = { w with
            peers := w.peers ++ [⟨frame, arrived, 0, 0, none⟩]
            reading := w.peers.length
            untested := some w.peers.length }
  | .recv i size, w, r, w' =>
      ∃ p, w.peers[i]? = some p ∧
        (p.arrived = true → 0 ≤ size → r = some (p.rest.take size.toNat)) ∧
        (∀ bs, r = some bs → bs <+: p.rest ∧ (0 ≤ size → bs.length ≤ size)) ∧
        w' = w.mapPeer i (fun p => p.advance (r.getD []).length)
  | .close i, w, _, w' => w' = w.mapPeer i Peer.close
  | .lock, w, r, w' =>
      w.holder = none ∧ r = w.manager ∧ w' = { w with holder := some .listener }
  | .unlock cm, w, _, w' =>
      w' = { w.mapPeer w.reading
          (fun p => { p with published := some (cm.clientPort, cm.clientCommand) }) with
        manager := cm
        holder := none
        thread := .published
        newer := true }
  | .closeSocket, w, _, w' => w' = w
  | .finish, w, _, w' => w' = { w with thread := .ended }
  | .throw _, _, _, _ => False
  | .overrun, _, _, _ => False

/-- The main thread between two calls, with how its calls have ended. -/
inductive MainLabel where
  | running (calls : List Branch)
  | finalized (calls : List Branch) (result : Except Fault Unit)
deriving DecidableEq

/-- The calls the main thread makes. -/
def mainCode (X : Setup) : MainLabel → SimProg ℕ MainLabel
  | .running calls =>
      if X.finalize = some calls.length then do
        let result ← ConnectionManager.destructor 0
        return .finalized calls result
      else do
        let branch ← ConnectionManager.process 0 (X.sends calls.length)
        return .running (calls ++ [branch])
  | .finalized calls result => return .finalized calls result

/-- The threads with their programs. -/
@[reducible] def system (X : Setup) : ThreadSystem Party World where
  Op
    | .main => SimOp ℕ
    | .listener => ListenerOp ℕ
  Resp
    | .main => SimOp.Resp
    | .listener => ListenerOp.Resp
  Label
    | .main => MainLabel
    | .listener => Listener.Label
  code
    | .main => mainCode X
    | .listener => Listener.listenForClient X.maxPortName
  perform
    | .main => performMain
    | .listener => performListener

/-- The world after `libISInit`: the first listener thread has been created. -/
def World.init : World where
  manager := ConnectionManager.init
  holder := none
  exitThread := false
  thread := .created
  peers := []
  reading := 0
  untested := none
  newer := false
  dialled := []
  flags := []
  destroying := false

/-- Where each of them starts. -/
def startLabels (X : Setup) : (p : Party) → (system X).Label p
  | .main => .running []
  | .listener => .waiting

/-! ## Conditions on the steps of a run -/

/-- The commands that make sense while no client is connected. -/
def Servable (cmd : Int32) : Prop :=
  cmd = Command.connect.toInt32 ∨ cmd = Command.disconnect.toInt32

instance (cmd : Int32) : Decidable (Servable cmd) :=
  inferInstanceAs (Decidable (_ ∨ _))

/-- A frame that a call of `process()` finds published has such a command, and connecting back does
    not fail there. The destructor has set `exitThread`. -/
def Served (X : Setup) : (p : Party) → (o : (system X).Op p) → World → (system X).Resp p o → Prop
  | .main, .lock, w, cm =>
      w.exitThread = false → cm.newQuery = true → Servable cm.clientCommand
  | .main, .connect _, w, r => w.exitThread = false → ∃ comm, r = .ok comm
  | _, _, _, _ => True

/-- The listener does not find `exitThread` set when it has just accepted a connection. -/
def Tested (X : Setup) : (p : Party) → (o : (system X).Op p) → World → (system X).Resp p o → Prop
  | .listener, .exitThread, w, r => r = true → w.untested = none
  | _, _, _, _ => True

end Serving

end LibIS
