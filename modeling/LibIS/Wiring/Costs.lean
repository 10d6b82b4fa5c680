import LibIS.Wiring.WaitingAcceptors

set_option autoImplicit false

/-! # Wiring two groups of ranks: what the code costs

The code of a label performs at most a number of operations that the ranks and the groups that are
left bound, and each label is worth more than that and the next label together. So the loops of
`connect` and `accept` end. -/

open ByteCodec Prog ThreadSystem

namespace LibIS

/-! ## The connectors -/

namespace Connector

variable {answers : (o : ConnectOp) → o.Resp → Prop} {α : Type} {m : ℕ}

theorem throw_costs {worth : α → ℕ} {e : ConnectFault} :
    (throw e : ConnectProg α).Costs answers worth (m + 1) :=
  Costs.vis (fun r => r.elim)

theorem ofExcept_costs {x : Except ConnectFault α} :
    (ofExcept x).Costs answers (fun _ => m) (m + 1) := by
  cases x with
  | ok a => exact Costs.ret (Nat.le_succ m)
  | error e => exact throw_costs

theorem resolve_costs (host : StdString) : (resolve host).Costs answers (fun _ => m) (m + 3) := by
  unfold resolve
  refine Costs.bind (ofExcept_costs (m := m + 2)) (fun r => ?_)
  refine Costs.bind (Costs.op (n := m + 1) (fun _ => le_refl _)) (fun server => ?_)
  cases server with
  | none => exact throw_costs
  | some server => exact Costs.ret (Nat.le_succ m)

theorem dial_costs (fd : ℤ) (server : Bytes) (port : ℤ) (what : String) :
    (dial fd server port what).Costs answers (fun _ => m) (m + 2) := by
  unfold dial
  refine Costs.bind (Costs.op (n := m + 1) (fun _ => le_refl _)) (fun connected => ?_)
  cases connected with
  | true => exact Costs.ret (Nat.le_succ m)
  | false => exact throw_costs

theorem dialAll_costs (rank : ℕ) (hosts : List StdString) (sockets : List ℤ) :
    (dialAll rank hosts sockets).Costs answers (fun _ => m) (7 * hosts.length + m) := by
  induction hosts generalizing sockets with
  | nil => exact Costs.ret (Nat.le_add_left m _)
  | cons r hosts ih =>
      rw [List.length_cons, show 7 * (hosts.length + 1) + m = 7 * hosts.length + m + 7 by omega]
      unfold dialAll
      refine Costs.bind (Costs.op (n := 7 * hosts.length + m + 6) (fun _ => le_refl _))
        (fun sock => ?_)
      refine Costs.bind (resolve_costs (m := 7 * hosts.length + m + 3) r) (fun resolved => ?_)
      refine Costs.bind (dial_costs (m := 7 * hosts.length + m + 1) _ _ _ _) (fun _ => ?_)
      exact Costs.bind (Costs.op (n := 7 * hosts.length + m) (fun _ => le_refl _))
        (fun _ => ih (sockets ++ [sock]))

theorem dialRoot_costs (rank worldSize : ℕ) (sock : ℤ) (server : Bytes) (port : ℤ) :
    (dialRoot rank worldSize sock server port).Costs answers (fun _ => m) (m + 4) := by
  unfold dialRoot
  refine Costs.bind (dial_costs (m := m + 2) _ _ _ _) (fun _ => ?_)
  refine Costs.bind (Costs.op (n := m + 1) (fun _ => le_refl _)) (fun _ => ?_)
  by_cases hzero : rank = 0
  · rw [if_pos hzero]
    exact Costs.op (fun _ => le_refl _)
  · rw [if_neg hzero]
    exact Nat.le_succ m

theorem recvHosts_costs (alloc : Allocator) (sock : ℤ) :
    ((recvHosts alloc).interp (onSocket sock)).Costs answers (fun _ => m) (m + 3) := by
  unfold recvHosts
  rw [Receive.recv_bind, interp_vis]
  refine Costs.bind (Costs.op (n := m + 2) (fun _ => le_refl _)) (fun size => ?_)
  rw [Receive.recv_bind, interp_vis]
  refine Costs.bind (Costs.op (n := m + 1) (fun _ => le_refl _)) (fun buf => ?_)
  cases decodeHeader (readHosts alloc) buf with
  | error e =>
      rw [Receive.ofExcept_error, Receive.throw, interp_vis]
      exact Costs.vis (fun r => r.elim)
  | ok hosts =>
      rw [Receive.ofExcept_ok]
      exact Costs.ret (Nat.le_succ m)

end Connector

namespace Wiring

variable {answers : (o : ConnectOp) → o.Resp → Prop} {X : Setup}

/-- What the groups of the second loop that are left are worth. -/
def groupsWorth (X : Setup) (is : List ℕ) : ℕ :=
  is.length * (7 * X.N + 4) + 1

/-- What the second loop is worth to a connector that is in the first one. -/
def secondWorth (X : Setup) : ℕ :=
  groupsWorth X (Connector.groups X.M)

theorem groupsWorth_cons (i : ℕ) (is : List ℕ) :
    groupsWorth X (i :: is) = groupsWorth X is + 7 * X.N + 4 := by
  unfold groupsWorth
  rw [List.length_cons, Nat.succ_mul]
  omega

def connectorWorth (X : Setup) : Connector.Label → ℕ
  | .start => secondWorth X + 12 * (Connector.groups X.M).length + 6
  | .rootGroup is _ _ _ _ => secondWorth X + 12 * is.length + 1
  | .asking is _ _ _ => secondWorth X + 12 * is.length + 8
  | .rootBarrier is _ _ _ _ => secondWorth X + 12 * is.length + 3
  | .group is _ _ => groupsWorth X is
  | .barrier is _ _ => groupsWorth X is + 2
  | .connected _ => 0

/-- A label that is not the last one is worth more than its code costs. -/
theorem connect_costs {s : ℕ} {w : World} {l : Connector.Label} (hpost : connectorPost X s l w)
    (hmore : ∀ sockets, l ≠ .connected sockets) :
    ∃ n, n < connectorWorth X l ∧
      (Connector.connect X.alloc s X.M (X.hostPortName 0) l).Costs answers (connectorWorth X)
        n := by
  cases l with
  | start =>
      refine ⟨_, Nat.lt_succ_self _, ?_⟩
      refine Costs.bind (Costs.op (fun _ => le_refl _)) (fun sock => ?_)
      by_cases hsock : sock = -1
      · rw [if_pos hsock]
        exact Connector.throw_costs
      · rw [if_neg hsock]
        exact Costs.bind (Connector.resolve_costs _) (fun _ => le_refl _)
  | rootGroup is sock server port remoteHosts =>
      cases is with
      | nil => exact ⟨_, Nat.lt_succ_self _, le_refl _⟩
      | cons i is =>
          refine ⟨secondWorth X + 12 * is.length + 12, ?_, ?_⟩
          · show _ < secondWorth X + 12 * (is.length + 1) + 1
            omega
          · simp only [Connector.connect]
            by_cases hin : Connector.InGroup s i
            · rw [if_pos hin]
              exact Costs.bind (Connector.dialRoot_costs _ _ _ _ _) (fun _ => le_refl _)
            · rw [if_neg hin]
              refine (Costs.bind (Costs.op (fun _ => le_refl _)) (fun _ => le_refl _)).mono ?_
              show secondWorth X + 12 * is.length + 3 + 1 ≤ _
              omega
  | asking is sock server port =>
      refine ⟨_, Nat.lt_succ_self _, ?_⟩
      refine Costs.bind (Connector.recvHosts_costs _ _) (fun hosts => ?_)
      exact Costs.bind (Costs.op (fun _ => le_refl _)) (fun _ => le_refl _)
  | rootBarrier is sock server port remoteHosts =>
      exact ⟨_, Nat.lt_succ_self _, Costs.bind (Costs.op (fun _ => le_refl _)) (fun _ => le_refl _)⟩
  | group is sockets remoteHosts =>
      obtain ⟨j, his, hat⟩ := hpost
      cases is with
      | nil => exact ⟨0, Nat.succ_pos _, le_refl _⟩
      | cons i is =>
          -- the invariant knows how many hosts there are to dial
          have hhosts : remoteHosts.length = X.N - 1 := by
            rw [hat.remoteHosts, Setup.others, List.length_map, List.length_range']
          have hN := X.one_le_N
          refine ⟨7 * remoteHosts.length + (groupsWorth X is + 3), ?_, ?_⟩
          · show _ < groupsWorth X (i :: is)
            rw [groupsWorth_cons]
            omega
          · have hbarrier : ∀ sockets', (Connector.arrive >>= fun _ => pure
                (Connector.Label.barrier is sockets' remoteHosts)).Costs answers (connectorWorth X)
                  (groupsWorth X is + 3) :=
              fun sockets' => Costs.bind (Costs.op (fun _ => le_refl _)) (fun _ => le_refl _)
            simp only [Connector.connect]
            by_cases hin : Connector.InGroup s i
            · rw [if_pos hin]
              exact Costs.bind (Connector.dialAll_costs _ _ _) hbarrier
            · rw [if_neg hin]
              exact (hbarrier sockets).mono (Nat.le_add_left _ _)
  | barrier is sockets remoteHosts =>
      exact ⟨_, Nat.lt_succ_self _, Costs.bind (Costs.op (fun _ => le_refl _)) (fun _ => le_refl _)⟩
  | connected sockets => exact absurd rfl (hmore sockets)

end Wiring

/-! ## The acceptors -/

namespace Acceptor

variable {answers : (o : AcceptOp) → o.Resp → Prop} {α : Type} {m : ℕ}

theorem ofExcept_costs {x : Except Fault α} : (ofExcept x).Costs answers (fun _ => m) (m + 1) := by
  cases x with
  | ok a => exact Costs.ret (Nat.le_succ m)
  | error e => exact Costs.vis (fun r => r.elim)

theorem recvInt_costs (fd : ℤ) (old : Int32) :
    (recvInt fd old).Costs answers (fun _ => m) (m + 1) := by
  unfold recvInt
  exact Costs.bind (Costs.op (fun _ => le_refl _)) (fun _ => le_refl m)

theorem collectHosts_costs (ranks : List ℕ) :
    (collectHosts ranks).Costs answers (fun _ => m) (3 * ranks.length + m) := by
  induction ranks with
  | nil => exact Costs.ret (Nat.le_add_left m _)
  | cons i ranks ih =>
      rw [List.length_cons, show 3 * (ranks.length + 1) + m = 3 * ranks.length + m + 3 by omega]
      unfold collectHosts
      refine Costs.bind (Costs.op (n := 3 * ranks.length + m + 2) (fun _ => le_refl _))
        (fun size => ?_)
      refine Costs.bind (Costs.op (n := 3 * ranks.length + m + 1) (fun _ => le_refl _))
        (fun buf => ?_)
      refine Costs.bind (ofExcept_costs (m := 3 * ranks.length + m)) (fun host => ?_)
      exact Costs.bind ih (fun _ => le_refl m)

theorem sendEach_costs (fd : ℤ) (ms : List Bytes) :
    (sendEach fd ms).Costs answers (fun _ => m) (m + ms.length) := by
  induction ms with
  | nil => exact le_refl m
  | cons data ms ih => exact Costs.bind (Costs.op (fun _ => le_refl _)) (fun _ => ih)

/-- A connection is counted when its rank has been received. -/
theorem acceptRemote_costs {st : Accepting} (worth : ℤ × Int32 × Accepting → ℕ)
    (h : ∀ accepted rank, worth (accepted, rank, st.connect rank accepted) ≤ m) :
    (acceptRemote st).Costs answers worth (m + 2) := by
  unfold acceptRemote
  refine Costs.bind (Costs.op (fun _ => le_refl _)) (fun accepted => ?_)
  exact Costs.bind (recvInt_costs accepted 0) (fun rank => h accepted rank)

end Acceptor

namespace Wiring

variable {answers : (o : AcceptOp) → o.Resp → Prop} {X : Setup}

def acceptingWorth (X : Setup) (st : Acceptor.Accepting) : ℕ :=
  8 * (X.M - st.nconnected.toNat) + 2

def acceptorWorth (X : Setup) : Acceptor.Label → ℕ
  | .start => 8 * X.M + 3 * X.N + 10
  | .waiting => 8 * X.M + 4
  | .accepting _ st => acceptingWorth X st
  | .accepted _ => 0

theorem acceptingWorth_start (n : Int32) : acceptingWorth X ⟨0, n, []⟩ = 8 * X.M + 2 := rfl

/-- What is left when one more connection has been accepted. -/
def roundWorth (X : Setup) (st : Acceptor.Accepting) : ℕ :=
  8 * (X.M - (st.nconnected + 1).toNat) + 2

theorem rootRound_costs (hosts : List Bytes) (st : Acceptor.Accepting) :
    (Acceptor.rootRound hosts st).Costs answers (acceptingWorth X)
      (roundWorth X st + hosts.length + 4) := by
  unfold Acceptor.rootRound
  refine Costs.bind (Acceptor.acceptRemote_costs (m := roundWorth X st + hosts.length + 2)
    (fun r => acceptingWorth X r.2.2 + hosts.length + 2) (fun _ _ => le_refl _)) (fun r => ?_)
  obtain ⟨accepted, rank, st'⟩ := r
  have hsends : ∀ st'' : Acceptor.Accepting, acceptingWorth X st'' = acceptingWorth X st' →
      (Acceptor.sendEach accepted hosts >>= fun _ => pure st'').Costs answers (acceptingWorth X)
        (acceptingWorth X st' + hosts.length) :=
    fun st'' hworth => Costs.bind (Acceptor.sendEach_costs accepted hosts) (fun _ => hworth.le)
  by_cases hzero : rank = 0
  · simp only [hzero, if_true]
    refine Costs.bind (Acceptor.recvInt_costs accepted st'.nexpected) (fun n => ?_)
    exact Costs.bind (Costs.op (fun _ => le_refl _)) (fun _ => hsends _ rfl)
  · simp only [hzero, if_false]
    exact (hsends st' rfl).mono (Nat.le_add_right _ 2)

theorem otherRound_costs (st : Acceptor.Accepting) :
    (Acceptor.otherRound st).Costs answers (acceptingWorth X) (roundWorth X st + 2) := by
  unfold Acceptor.otherRound
  exact Costs.bind (Acceptor.acceptRemote_costs (fun r => acceptingWorth X r.2.2)
    (fun _ _ => le_refl _)) (fun _ => le_refl _)

theorem accept_costs {c : ℕ} {w : World} {l : Acceptor.Label} (hinv : Inv X w)
    (hpost : acceptorPost X c l w) (hmore : ∀ sockets, l ≠ .accepted sockets) :
    ∃ n, n < acceptorWorth X l ∧
      (Acceptor.accept c X.N (X.hostPortName c) l).Costs answers (acceptorWorth X) n := by
  cases l with
  | start =>
      have hN := X.one_le_N
      refine ⟨8 * X.M + 3 * X.N + 6, ?_, ?_⟩
      · show _ < 8 * X.M + 3 * X.N + 10
        omega
      · simp only [Acceptor.accept]
        by_cases hc : c = 0
        · rw [if_pos hc]
          have hcollect :=
            @Acceptor.collectHosts_costs answers (8 * X.M + 3) (List.range' 1 (X.N - 1))
          rw [List.length_range'] at hcollect
          refine (Costs.bind hcollect (fun hosts => ?_)).mono (by omega)
          generalize sendHosts hosts = sent
          exact Costs.bind Acceptor.ofExcept_costs
            (fun _ => Costs.ret (acceptingWorth_start (-1)).le)
        · rw [if_neg hc]
          have hsends : (Acceptor.mpiSend (leBytes 8 (X.hostPortName c).bytes.length) 0 >>= fun _ =>
              Acceptor.mpiSend (X.hostPortName c).bytes 0 >>= fun _ => pure .waiting).Costs
                answers (acceptorWorth X) (8 * X.M + 6) := by
            refine Costs.bind (Costs.op (fun _ => le_refl _)) (fun _ => ?_)
            exact Costs.bind (Costs.op (fun _ => le_refl _)) (fun _ => le_refl (8 * X.M + 4))
          exact hsends.mono (by omega)
  | waiting =>
      refine ⟨8 * X.M + 3, Nat.lt_succ_self _, ?_⟩
      exact Costs.bind (Costs.op (fun _ => le_refl _)) (fun _ => (acceptingWorth_start _).le)
  | accepting hosts st =>
      obtain ⟨peers, hat⟩ := hpost
      simp only [Acceptor.accept]
      by_cases hdone : st.nconnected = st.nexpected.toInt
      · rw [if_neg (not_not.2 hdone)]
        obtain ⟨sockets, hfill, -⟩ := hat.filled hinv hdone
        rw [hfill]
        exact ⟨0, Nat.succ_pos _, le_refl _⟩
      · rw [if_pos hdone]
        -- there is a connection left that the round counts
        have hlt := hat.taken_lt hinv hdone
        rw [hat.accepted.count] at hlt
        have hround : roundWorth X st + 7 < acceptingWorth X st := by
          have hcount := hat.locals.nconnected
          unfold roundWorth acceptingWorth
          omega
        by_cases hc : c = 0
        · have hhosts : hosts.length = 2 := by rw [hat.locals.hosts hc]; rfl
          refine ⟨roundWorth X st + 6, Nat.lt_of_succ_lt hround, ?_⟩
          rw [if_pos hc]
          have hcosts := @rootRound_costs answers X hosts st
          rw [hhosts] at hcosts
          exact Costs.bind hcosts (fun _ => le_refl _)
        · refine ⟨roundWorth X st + 2, (Nat.add_lt_add_left (by decide) _).trans hround, ?_⟩
          rw [if_neg hc]
          exact Costs.bind (otherRound_costs st) (fun _ => le_refl _)
  | accepted sockets => exact absurd rfl (hmore sockets)

end Wiring

end LibIS
