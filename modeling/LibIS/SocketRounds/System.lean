import LibIS.QueryRound.System

set_option autoImplicit false

/-! # Rounds of queries over sockets: the system

The ranks of the rounds of queries, connected by sockets: every pair of ranks has a stream of bytes
each way, and sending or receiving a message is a loop of system calls that may each move any part
of what is left (`intercomm.cpp`, `SocketInterComm`). Between two of them the other ranks go on. -/

open ByteCodec Prog

namespace LibIS

/-! ## The transport -/

/-- `SocketInterComm::probeAll`, from the sockets that `poll` has found readable. -/
def SocketInterComm.probeAll (readable : List Bool) : ℤ :=
  if readable.count true = 0 then
    -1
  else
    match readable.findIdx? id with
    | some i => i
    | none => -1

theorem SocketInterComm.probeAll_eq {N r : ℕ} {readable : ℕ → Bool} :
    SocketInterComm.probeAll ((List.range N).map readable) = r ↔
      r < N ∧ readable r = true ∧ ∀ c, c < r → readable c = false := by
  have hfind : ((List.range N).map readable).findIdx? id = some r ↔
      r < N ∧ readable r = true ∧ ∀ c, c < r → readable c = false := by
    rw [List.findIdx?_eq_some_iff_getElem]
    simp [and_left_comm]
  rw [← hfind, SocketInterComm.probeAll]
  constructor
  · intro h
    split at h
    · exact absurd h (by omega)
    · cases hidx : ((List.range N).map readable).findIdx? id with
      | none =>
          rw [hidx] at h
          dsimp only at h
          omega
      | some i =>
          rw [hidx] at h
          exact congrArg some (Int.ofNat_inj.1 h)
  · intro h
    have hcount : ((List.range N).map readable).count true ≠ 0 := by
      obtain ⟨hlt, hr, -⟩ := List.findIdx?_eq_some_iff_getElem.1 h
      rw [ne_eq, List.count_eq_zero, not_not]
      exact hr ▸ List.getElem_mem hlt
    rw [if_neg hcount, h]

namespace SocketRounds

/-- An operation of a rank: one system call of a transfer, or what is no transfer. -/
inductive SocketOp (Op : Type) where
  | call (o : Op)
  | send (rank : ℕ) (data : Bytes)
  | recv (rank size : ℕ)

/-- What a `::send` of `n` bytes may return. -/
abbrev Count (n : ℕ) := { k : ℕ // 0 < k ∧ k ≤ n ∧ k < 2 ^ 31 }

/-- What a `::recv` of `n` bytes may store. -/
abbrev Piece (n : ℕ) := { bs : Bytes // 0 < bs.length ∧ bs.length ≤ n ∧ bs.length < 2 ^ 31 }

/-- The answers. No system call fails. -/
abbrev SocketOp.Resp {Op : Type} (Resp : Op → Type) : SocketOp Op → Type
  | .call o => Resp o
  | .send _ data => Count data.length
  | .recv _ size => Piece size

section Loops

variable {Op : Type} {Resp : Op → Type}

/-- The loop of `SocketInterComm::send`, with the data that is not sent yet. -/
def sendRest (rank : ℕ) (data : Bytes) : Prog (SocketOp.Resp Resp) Unit :=
  if data = [] then
    return
  else do
    let k ← op (SocketOp.send rank data)
    sendRest rank (data.drop k.1)
termination_by data.length
decreasing_by
  rw [List.length_drop]
  exact Nat.sub_lt (Nat.lt_of_lt_of_le k.2.1 k.2.2.1) k.2.1

/-- The loop of `SocketInterComm::recv`, with the number of bytes that are missing and the bytes
    that have been received. -/
def recvRest (rank missing : ℕ) (got : Bytes) : Prog (SocketOp.Resp Resp) Bytes :=
  if missing = 0 then
    return got
  else do
    let bs ← op (SocketOp.recv rank missing)
    recvRest rank (missing - bs.1.length) (got ++ bs.1)
termination_by missing
decreasing_by
  exact Nat.sub_lt (Nat.lt_of_lt_of_le bs.2.1 bs.2.2.1) bs.2.1

theorem sendRest_nil (rank : ℕ) :
    (sendRest rank [] : Prog (SocketOp.Resp Resp) Unit) = ret () := by
  rw [sendRest, if_pos rfl]
  rfl

theorem sendRest_of_ne (rank : ℕ) {data : Bytes} (h : data ≠ []) :
    (sendRest rank data : Prog (SocketOp.Resp Resp) Unit) =
      vis (.send rank data) (fun k : Count data.length => sendRest rank (data.drop k.1)) := by
  rw [sendRest, if_neg h]
  rfl

theorem recvRest_zero (rank : ℕ) (got : Bytes) :
    (recvRest rank 0 got : Prog (SocketOp.Resp Resp) Bytes) = ret got := by
  rw [recvRest, if_pos rfl]
  rfl

theorem recvRest_of_pos (rank : ℕ) {missing : ℕ} (h : 0 < missing) (got : Bytes) :
    (recvRest rank missing got : Prog (SocketOp.Resp Resp) Bytes) =
      vis (.recv rank missing)
        (fun bs : Piece missing => recvRest rank (missing - bs.1.length) (got ++ bs.1)) := by
  rw [recvRest, if_neg h.ne']
  rfl

end Loops

/-- What simulation ranks and client ranks are answered. -/
abbrev SimResp : SocketOp (SimOp Unit) → Type :=
  SocketOp.Resp SimOp.Resp

abbrev ClientResp : SocketOp (ClientOp Unit) → Type :=
  SocketOp.Resp ClientOp.Resp

/-- An operation of a simulation rank over sockets. -/
def simOver : (o : SimOp Unit) → Prog SimResp o.Resp
  | .send _ _ data rank => sendRest rank data
  | .recv _ _ size rank => recvRest rank size []
  | o => op (SocketOp.call o)

/-- An operation of a client rank over sockets. -/
def clientOver : (o : ClientOp Unit) → Prog ClientResp o.Resp
  | .send _ _ data rank => sendRest rank data
  | .recv _ _ size rank => recvRest rank size []
  | o => op (SocketOp.call o)

/-! ## The system -/

/-- All that the ranks share, and the fields of each rank's manager. -/
structure World where
  /-- from client rank to simulation rank -/
  up : ℕ → ℕ → Channel UInt8
  /-- from simulation rank to client rank -/
  down : ℕ → ℕ → Channel UInt8
  manager : ℕ → ConnectionManager Unit
  /-- what simulation rank 0 has broadcast, and how much of it each other rank has got -/
  simCast : List Bytes
  simHeard : ℕ → ℕ
  /-- the same for the client -/
  clientCast : List Bytes
  clientHeard : ℕ → ℕ
  /-- how many barriers each client rank has entered -/
  arrived : ℕ → ℕ

/-- Whether `poll` finds the socket to client rank `c` readable. -/
def World.readable (w : World) (s c : ℕ) : Bool :=
  decide ((w.up c s).pending ≠ [])

/-- An operation of simulation rank `s`. `handleQuery` calls `probeAll` until it finds a rank. -/
def performSim (N s : ℕ) : (o : SocketOp (SimOp Unit)) → World → SimResp o → World → Prop
  | .send rank data, w, k, w' =>
      w' = { w with down := updateAt w.down s rank ((w.down s rank).pushAll (data.take k.1)) }
  | .recv rank _, w, bs, w' =>
      bs.1 <+: (w.up rank s).pending ∧
        w' = { w with up := updateAt w.up rank s ((w.up rank s).advance bs.1.length) }
  | .call .lock, w, r, w' => r = w.manager s ∧ w' = w
  | .call (.unlock cm), w, _, w' => w' = { w with manager := Function.update w.manager s cm }
  | .call (.bcast buf), w, r, w' =>
      if s = 0 then
        r = buf ∧ w' = { w with simCast := w.simCast ++ [buf] }
      else
        w.simCast[w.simHeard s]? = some r ∧
          w' = { w with simHeard := Function.update w.simHeard s (w.simHeard s + 1) }
  | .call (.probe _ rank), w, r, w' => r = w.readable s rank ∧ w' = w
  | .call (.probeAll _), w, r, w' =>
      SocketInterComm.probeAll ((List.range N).map (w.readable s)) = r ∧ w' = w
  | _, _, _, _ => False

/-- An operation of client rank `c`. -/
def performClient (M N c : ℕ) : (o : SocketOp (ClientOp Unit)) → World → ClientResp o → World →
    Prop
  | .send rank data, w, k, w' =>
      w' = { w with up := updateAt w.up c rank ((w.up c rank).pushAll (data.take k.1)) }
  | .recv rank _, w, bs, w' =>
      bs.1 <+: (w.down rank c).pending ∧
        w' = { w with down := updateAt w.down rank c ((w.down rank c).advance bs.1.length) }
  | .call (.remoteSize _), w, r, w' => r = M ∧ w' = w
  | .call .arrive, w, _, w' =>
      w' = { w with arrived := Function.update w.arrived c (w.arrived c + 1) }
  | .call .leave, w, _, w' => (∀ c', c' < N → w.arrived c ≤ w.arrived c') ∧ w' = w
  | .call (.bcast buf), w, r, w' =>
      if c = 0 then
        r = buf ∧ w' = { w with clientCast := w.clientCast ++ [buf] }
      else
        w.clientCast[w.clientHeard c]? = some r ∧
          w' = { w with clientHeard := Function.update w.clientHeard c (w.clientHeard c + 1) }
  | _, _, _, _ => False

open QueryRound (Party Snapshots ClientLabel)

/-- The ranks run the programs of the rounds of queries. -/
@[reducible] def system (M N : ℕ) (snaps : Snapshots) : ThreadSystem (Party M N) World where
  Op
    | .sim _ => SocketOp (SimOp Unit)
    | .client _ => SocketOp (ClientOp Unit)
  Resp
    | .sim _ => SimResp
    | .client _ => ClientResp
  Label
    | .sim _ => List Branch
    | .client _ => ClientLabel
  code
    | .sim s => fun calls => ((QueryRound.system M N snaps).code (.sim s) calls).interp simOver
    | .client c => fun l => ((QueryRound.system M N snaps).code (.client c) l).interp clientOver
  perform
    | .sim s => performSim N s
    | .client c => performClient M N c

/-- Every rank is connected, and nothing has been sent. -/
structure Started (w : World) : Prop where
  up : ∀ c s, w.up c s = .empty
  down : ∀ s c, w.down s c = .empty
  intercomm : ∀ s, (w.manager s).intercomm = some ()
  newQuery : ∀ s, (w.manager s).newQuery = false
  simCast : w.simCast = []
  simHeard : ∀ s, w.simHeard s = 0
  clientCast : w.clientCast = []
  clientHeard : ∀ c, w.clientHeard c = 0
  arrived : ∀ c, w.arrived c = 0

end SocketRounds

end LibIS
