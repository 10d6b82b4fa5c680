import LibIS.Client.SimulationConnection
import LibIS.Library.Channel
import LibIS.Library.Threads

set_option autoImplicit false

/-! # Rounds of queries: the system

`M` simulation ranks that call `process()` over and over and `N` ranks of a connected client that
call `query()` over and over, each in its own time. Every pair of ranks has a reliable channel each
way, without tags. A send does not wait for its receive; where MPI makes it wait, there are fewer
runs. -/

open ByteCodec

namespace LibIS

namespace QueryRound

/-- A message on the intercommunicator. Only `data` is transmitted; `kind` and `round` are there to
    say what it was sent for. -/
structure Message where
  kind : Kind
  data : Bytes
  round : ℕ
deriving DecidableEq

/-- All that the ranks share, and the fields of each rank's manager. -/
structure World where
  /-- from client rank to simulation rank -/
  up : ℕ → ℕ → Channel Message
  /-- from simulation rank to client rank -/
  down : ℕ → ℕ → Channel Message
  manager : ℕ → ConnectionManager Unit
  /-- the round of the message a simulation rank has taken last -/
  serving : ℕ → ℕ
  /-- what simulation rank 0 has broadcast, and how much of it each other rank has got -/
  simCast : List Bytes
  simHeard : ℕ → ℕ
  /-- the same for the client -/
  clientCast : List Bytes
  clientHeard : ℕ → ℕ
  /-- how many barriers each client rank has entered -/
  arrived : ℕ → ℕ

/-- The ranks. -/
inductive Party (M N : ℕ) where
  | sim (s : Fin M)
  | client (c : Fin N)
deriving DecidableEq

/-- An operation of simulation rank `s`. What belongs to connecting and finalizing has no outcome
    here. -/
def performSim (N s : ℕ) : (o : SimOp Unit) → World → o.Resp → World → Prop
  | .lock, w, r, w' => r = w.manager s ∧ w' = w
  | .unlock cm, w, _, w' => w' = { w with manager := Function.update w.manager s cm }
  | .bcast buf, w, r, w' =>
      if s = 0 then
        r = buf ∧ w' = { w with simCast := w.simCast ++ [buf] }
      else
        w.simCast[w.simHeard s]? = some r ∧
          w' = { w with simHeard := Function.update w.simHeard s (w.simHeard s + 1) }
  | .probe _ rank, w, r, w' => r = (w.up rank s).next?.isSome ∧ w' = w
  | .probeAll _, w, r, w' =>
      r < N ∧ (w.up r s).next?.isSome ∧ (∀ c, c < r → (w.up c s).next? = none) ∧ w' = w
  | .send _ kind data rank, w, _, w' =>
      w' = { w with
        down := updateAt w.down s rank ((w.down s rank).push ⟨kind, data, w.serving s⟩) }
  | .recv _ _ _ rank, w, r, w' =>
      ∃ m, (w.up rank s).next? = some m ∧ r = m.data ∧
        w' = { w with
          up := updateAt w.up rank s (w.up rank s).pop
          serving := Function.update w.serving s m.round }
  | _, _, _, _ => False

/-- An operation of client rank `c`. A query has two barriers, so the round a client rank is in is
    half the number of barriers it has entered. -/
def performClient (M N c : ℕ) : (o : ClientOp Unit) → World → o.Resp → World → Prop
  | .remoteSize _, w, r, w' => r = M ∧ w' = w
  | .arrive, w, _, w' =>
      w' = { w with arrived := Function.update w.arrived c (w.arrived c + 1) }
  | .leave, w, _, w' => (∀ c', c' < N → w.arrived c ≤ w.arrived c') ∧ w' = w
  | .bcast buf, w, r, w' =>
      if c = 0 then
        r = buf ∧ w' = { w with clientCast := w.clientCast ++ [buf] }
      else
        w.clientCast[w.clientHeard c]? = some r ∧
          w' = { w with clientHeard := Function.update w.clientHeard c (w.clientHeard c + 1) }
  | .send _ kind data rank, w, _, w' =>
      w' = { w with
        up := updateAt w.up c rank ((w.up c rank).push ⟨kind, data, w.arrived c / 2⟩) }
  | .recv _ _ _ rank, w, r, w' =>
      ∃ m, (w.down rank c).next? = some m ∧ r = m.data ∧
        w' = { w with down := updateAt w.down rank c (w.down rank c).pop }
  | _, _, _, _ => False

/-- A client rank between two calls: its fields, and the regions of the rounds so far. -/
structure ClientLabel where
  this : SimulationConnection Unit
  rounds : List (List SimState)

/-- What `handleQuery` sends for the state passed to call number `k` on each simulation rank. -/
abbrev Snapshots := (s : ℕ) → ℕ → Snapshot (Int32.ofNat s)

/-- The ranks and their programs. A simulation rank between two calls is labelled with how its calls
    have ended. -/
@[reducible] def system (M N : ℕ) (snaps : Snapshots) : ThreadSystem (Party M N) World where
  Op
    | .sim _ => SimOp Unit
    | .client _ => ClientOp Unit
  Resp
    | .sim _ => SimOp.Resp
    | .client _ => ClientOp.Resp
  Label
    | .sim _ => List Branch
    | .client _ => ClientLabel
  code
    | .sim s => fun calls => do
        let branch ← ConnectionManager.process s (snaps s calls.length).sends
        return calls ++ [branch]
    | .client c => fun l => do
        let (regions, this) ← SimulationConnection.query N c l.this
        return ⟨this, l.rounds ++ [regions]⟩
  perform
    | .sim s => performSim N s
    | .client c => performClient M N c

/-- Every rank is connected, and nothing has been sent. -/
structure Started (w : World) : Prop where
  up : ∀ c s, w.up c s = .empty
  down : ∀ s c, w.down s c = .empty
  intercomm : ∀ s, (w.manager s).intercomm = some ()
  newQuery : ∀ s, (w.manager s).newQuery = false
  simCast : w.simCast = []
  simHeard : ∀ s, w.simHeard s = 0
  clientCast : w.clientCast = []
  clientHeard : ∀ c, w.clientHeard c = 0
  arrived : ∀ c, w.arrived c = 0

end QueryRound

end LibIS
