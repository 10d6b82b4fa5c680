import LibIS.Library.Completion
import LibIS.QueryRound.System

set_option autoImplicit false

/-! # Rounds of queries: what the code costs

A call of `process()` or of `query()` performs a bounded number of operations, whatever it receives:
the number of buffers in a header is at most `2 ^ 64`, and the number of simulation ranks is given. -/

open ByteCodec Prog

namespace LibIS

/-! ## Receiving a region -/

section Receive

-- what a program costs is not to be computed from the bytes it might receive
attribute [local irreducible] Costs

variable {m : ℕ}

/-- Any answer may come. -/
abbrev anyBytes : (o : RecvOp Fault) → o.Resp → Prop :=
  fun _ _ => True

theorem ofExcept_costs {α : Type} {x : Except Fault α} :
    (Receive.ofExcept x : RecvProg Fault α).Costs anyBytes (fun _ => m) (m + 1) := by
  cases x with
  | ok a => exact Costs.ret (Nat.le_succ m)
  | error e => exact Costs.vis (fun r => r.elim)

theorem recv_costs (size : ℕ) :
    (Receive.recv size : RecvProg Fault Bytes).Costs anyBytes (fun _ => m) (m + 1) :=
  Costs.vis (fun _ => Costs.ret (le_refl m))

theorem Buffer.recv_costs : Buffer.recv.Costs anyBytes (fun _ => m) (m + 4) := by
  unfold Buffer.recv
  refine Costs.bind (LibIS.recv_costs (m := m + 3) 8) (fun size => ?_)
  refine Costs.bind (LibIS.recv_costs (m := m + 2) _) (fun buf => ?_)
  refine Costs.bind (ofExcept_costs (m := m + 1)) (fun header => ?_)
  exact Costs.bind (LibIS.recv_costs (m := m) _) (fun _ => Costs.ret (le_refl m))

theorem Particles.recv_costs : Particles.recv.Costs anyBytes (fun _ => m) (m + 3) := by
  unfold Particles.recv
  refine Costs.bind (LibIS.recv_costs (m := m + 2) _) (fun buf => ?_)
  refine Costs.bind (ofExcept_costs (m := m + 1)) (fun header => ?_)
  exact Costs.bind (LibIS.recv_costs (m := m) _) (fun _ => Costs.ret (le_refl m))

theorem recvBuffers_costs (f : ℕ) (r : SimState) :
    (recvBuffers f r).Costs anyBytes (fun _ => m) (4 * f + m) := by
  induction f generalizing r with
  | zero => exact Costs.ret (Nat.le_add_left m _)
  | succ f ih =>
      rw [show 4 * (f + 1) + m = 4 * f + m + 4 by omega]
      exact Costs.bind Buffer.recv_costs (fun buf => ih _)

/-- What a header can count. -/
@[irreducible] def maxBuffers : ℕ :=
  2 ^ 64

theorem SimStateHeader.numBuffers_le (header : SimStateHeader) :
    header.numBuffers.toNat ≤ maxBuffers := by
  rw [maxBuffers]
  exact header.numBuffers.toNat_lt.le

/-- The most receives for a region. -/
def regionCost : ℕ :=
  4 * maxBuffers + 4

theorem recvContents_costs (header : SimStateHeader) :
    (recvContents header).Costs anyBytes (fun _ => m) (4 * maxBuffers + (m + 3)) := by
  have hle := header.numBuffers_le
  unfold recvContents
  refine (Costs.bind (recvBuffers_costs (m := m + 3) _ _) (fun r => ?_)).mono (by omega)
  split
  · exact Costs.bind Particles.recv_costs (fun _ => Costs.ret (le_refl m))
  · exact Costs.ret (Nat.le_add_right m 3)

theorem recvRegion_costs : recvRegion.Costs anyBytes (fun _ => m) (m + regionCost) := by
  have hcost : m + regionCost = 4 * maxBuffers + (m + 3) + 1 := by
    unfold regionCost
    omega
  rw [hcost]
  exact Costs.bind (LibIS.recv_costs _) (fun bytes => recvContents_costs _)

end Receive

/-! ## The client ranks -/

namespace SimulationConnection

variable {M m : ℕ}

/-- The simulation ranks do not change. -/
def answers (M : ℕ) : (o : ClientOp Unit) → o.Resp → Prop
  | .remoteSize _, r => r = M
  | _, _ => True

theorem mpiBarrier_costs :
    (ClientOp.mpiBarrier : ClientProg Unit Unit).Costs (answers M) (fun _ => m) (m + 2) := by
  unfold ClientOp.mpiBarrier
  exact Costs.bind (Costs.op (n := m + 1) (fun _ => le_refl _)) (fun _ => Costs.op (fun _ => le_refl m))

theorem bcastQuit_costs (this : SimulationConnection Unit) :
    (bcastQuit this).Costs (answers M) (fun _ => m) (m + 1) := by
  unfold bcastQuit
  exact Costs.bind (Costs.op (fun _ => le_refl m)) (fun _ => Costs.ret (le_refl m))

theorem issueCommand_costs (this : SimulationConnection Unit) :
    (issueCommand .query this).Costs (answers M) (fun _ => m) (m + 2) := by
  simp only [issueCommand, if_neg (by decide : ¬ Command.query = .connect)]
  cases this.intercomm with
  | none => exact Costs.vis (fun r => r.elim)
  | some comm =>
      refine Costs.bind (Costs.op (n := m + 1) (fun _ => le_refl _)) (fun _ => ?_)
      exact Costs.bind (Costs.op (fun _ => le_refl m)) (fun _ => Costs.ret (le_refl m))

theorem sendCommand_costs (rank : ℕ) (this : SimulationConnection Unit) :
    (sendCommand rank .query this).Costs (answers M) (fun _ => m) (m + 5) := by
  unfold sendCommand
  split
  · refine Costs.bind (issueCommand_costs (m := m + 3) this) (fun quit => ?_)
    exact Costs.bind (mpiBarrier_costs (m := m + 1)) (fun _ => bcastQuit_costs _)
  · refine (Costs.bind (mpiBarrier_costs (m := m + 1)) (fun _ => bcastQuit_costs _)).mono ?_
    omega

theorem queryRegion_costs (rank regionId : ℕ) :
    (queryRegion rank () regionId).Costs (answers M) (fun _ => m) (m + (regionCost + 1)) := by
  unfold queryRegion
  refine Costs.bind (Costs.op (n := m + regionCost) (fun _ => le_refl _)) (fun _ => ?_)
  refine Costs.interp (fun o m => ?_) recvRegion_costs
  cases o with
  | recv size => exact Costs.op (fun _ => le_refl m)
  | throw e => exact Costs.vis (fun r => r.elim)

theorem queryRegions_costs (rank : ℕ) (ids : List Int) :
    (queryRegions rank () ids).Costs (answers M) (fun _ => m)
      (ids.length * (regionCost + 1) + m) := by
  induction ids with
  | nil => exact Costs.ret (Nat.le_add_left m _)
  | cons id ids ih =>
      rw [List.length_cons, Nat.succ_mul, Nat.add_right_comm]
      refine Costs.bind (queryRegion_costs rank _) (fun r => ?_)
      exact Costs.bind ih (fun rs => Costs.ret (le_refl m))

/-- The most operations of a round of `query()`. -/
def queryCost (M size rank : ℕ) : ℕ :=
  (queriedRegions M size rank).length * (regionCost + 1) + 8

theorem query_costs (size rank : ℕ) (this : SimulationConnection Unit) :
    (query size rank this).Costs (answers M) (fun _ => m) (m + queryCost M size rank) := by
  have hcost : m + queryCost M size rank =
      (queriedRegions M size rank).length * (regionCost + 1) + (m + 2) + 1 + 5 := by
    unfold queryCost
    omega
  rw [hcost]
  unfold query
  refine Costs.bind (sendCommand_costs rank this) (fun this' => ?_)
  split
  · exact Costs.ret (by omega)
  · cases this'.intercomm with
    | none => exact Costs.vis (fun r => r.elim)
    | some comm =>
        have hsize : (ClientOp.commRemoteSize comm).Costs (answers M)
            (fun size' : ℕ => (queriedRegions size' size rank).length * (regionCost + 1) + (m + 2))
            ((queriedRegions M size rank).length * (regionCost + 1) + (m + 2) + 1) := by
          refine Costs.op_of (fun size' hM => ?_)
          rw [show size' = M from hM]
        refine Costs.bind hsize (fun size' => ?_)
        refine Costs.bind (queryRegions_costs rank _) (fun regions => ?_)
        exact Costs.bind (mpiBarrier_costs (m := m)) (fun _ => Costs.ret (le_refl m))

end SimulationConnection

/-! ## The simulation ranks -/

namespace ConnectionManager

variable {m : ℕ}

/-- Any answer may come. -/
abbrev anyAnswer : (o : SimOp Unit) → o.Resp → Prop :=
  fun _ _ => True

theorem crash_costs {α : Type} {worth : α → ℕ} :
    (crash : SimProg Unit α).Costs anyAnswer worth (m + 1) :=
  Costs.vis (fun r => r.elim)

theorem sendQuit_costs (quit : Int32) :
    (sendQuit () quit).Costs anyAnswer (fun _ => m) (m + 1) :=
  Costs.op (fun _ => le_refl m)

theorem bcastPort_costs (simRank : ℕ) (clientPort : StdString) :
    (bcastPort simRank clientPort : SimProg Unit (Except Fault StdString)).Costs anyAnswer
      (fun _ => m) (m + 2) := by
  unfold bcastPort
  split
  · split
    · exact Costs.ret (Nat.le_add_right m 2)
    · refine Costs.bind (Costs.op (n := m + 1) (fun _ => le_refl _)) (fun _ => ?_)
      exact Costs.bind (Costs.op (fun _ => le_refl m)) (fun _ => le_refl m)
  · refine Costs.bind (Costs.op (n := m + 1) (fun _ => le_refl _)) (fun _ => ?_)
    exact Costs.bind (Costs.op (fun _ => le_refl m)) (fun _ => le_refl m)

theorem connectClient_costs (simRank : ℕ) (cm : ConnectionManager Unit) :
    (connectClient simRank cm).Costs anyAnswer (fun _ => m) (m + 3) := by
  unfold connectClient
  cases cm.intercomm with
  | some comm => exact Costs.ret (Nat.le_add_right m 3)
  | none =>
      refine Costs.bind (bcastPort_costs (m := m + 1) simRank _) (fun port => ?_)
      cases port with
      | error e => exact Costs.ret (Nat.le_succ m)
      | ok port =>
          refine Costs.bind (Costs.op (fun _ => le_refl m)) (fun comm => ?_)
          cases comm with
          | error e => exact Costs.ret (le_refl m)
          | ok comm => exact Costs.ret (le_refl m)

theorem disconnectClient_costs (simRank : ℕ) (cm : ConnectionManager Unit) :
    (disconnectClient simRank cm).Costs anyAnswer (fun _ => m) (m + 4) := by
  have hlistener : (restartListener : SimProg Unit Unit).Costs anyAnswer (fun _ => m) (m + 3) := by
    unfold restartListener
    refine Costs.bind (Costs.op (n := m + 2) (fun _ => le_refl _)) (fun joinable => ?_)
    cases joinable with
    | false => exact Costs.ret (Nat.le_add_right m 2)
    | true =>
        refine Costs.bind (Costs.op (n := m + 1) (fun _ => le_refl _)) (fun _ => ?_)
        exact Costs.op (fun _ => le_refl m)
  have hrelease : (release cm).Costs anyAnswer (fun _ => m + 3) (m + 4) := by
    unfold release
    cases cm.intercomm with
    | none => exact Costs.ret (Nat.le_succ _)
    | some comm => exact Costs.op (fun _ => le_refl _)
  unfold disconnectClient
  refine Costs.bind hrelease (fun _ => ?_)
  split
  · exact Costs.bind hlistener (fun _ => le_refl m)
  · exact Costs.ret (Nat.le_add_right m 3)

theorem sendAll_costs (rank : ℕ) (ms : List Bytes) :
    (sendAll () rank ms).Costs anyAnswer (fun _ => m) (m + ms.length) := by
  induction ms with
  | nil => exact Costs.ret (le_refl m)
  | cons b ms ih => exact Costs.bind (Costs.op (fun _ => le_refl _)) (fun _ => ih)

theorem handleQuery_costs (msgs : List Bytes) (cm : ConnectionManager Unit) :
    (handleQuery (.ok msgs) cm).Costs anyAnswer (fun _ => m) (m + msgs.length + 2) := by
  unfold handleQuery
  cases cm.intercomm with
  | none => exact crash_costs
  | some comm =>
      refine Costs.bind (Costs.op (n := m + msgs.length + 1) (fun _ => le_refl _)) (fun c => ?_)
      exact Costs.bind (Costs.op (fun _ => le_refl _)) (fun _ => sendAll_costs c msgs)

theorem poll_costs (simRank : ℕ) (cm : ConnectionManager Unit) :
    (poll simRank cm).Costs anyAnswer (fun _ => m) (m + 3) := by
  unfold poll
  split
  · split
    · refine Costs.bind (Costs.op (n := m + 2) (fun _ => le_refl _)) (fun found => ?_)
      cases found with
      | false => exact Costs.ret (Nat.le_add_right m 2)
      | true =>
          refine Costs.bind (Costs.op (n := m + 1) (fun _ => le_refl _)) (fun cmd => ?_)
          exact Costs.bind (sendQuit_costs 0) (fun _ => le_refl m)
    · exact Costs.ret (Nat.le_add_right m 3)
  · exact Costs.ret (Nat.le_add_right m 3)
  · exact Costs.ret (Nat.le_add_right m 3)

theorem runCommand_costs (simRank : ℕ) (msgs : List Bytes) (cm : ConnectionManager Unit) :
    (runCommand simRank (.ok msgs) cm).Costs anyAnswer (fun _ => m) (m + msgs.length + 4) := by
  unfold runCommand
  split
  · refine (Costs.bind (connectClient_costs (m := m + 1) simRank cm) (fun p => ?_)).mono (by omega)
    obtain ⟨result, intercomm, clientPort, clientCommand, newQuery⟩ := p
    cases result with
    | error e => exact Costs.ret (Nat.le_succ m)
    | ok u =>
        cases intercomm with
        | none => exact crash_costs
        | some comm =>
            dsimp only
            split
            · exact Costs.bind (sendQuit_costs 0) (fun _ => le_refl m)
            · exact Costs.ret (Nat.le_succ m)
  · split
    · have hquery := handleQuery_costs (m := m) msgs cm
      refine (Costs.bind hquery (fun _ => ?_)).mono (by omega)
      exact Costs.ret (le_refl m)
    · split
      · have hdisconnect := disconnectClient_costs (m := m) simRank cm
        refine (Costs.bind hdisconnect (fun cm' => ?_)).mono (by omega)
        exact Costs.ret (le_refl m)
      · exact Costs.ret (by omega)

/-- The most operations of a call of `process()`. -/
def processCost (msgs : List Bytes) : ℕ :=
  msgs.length + 11

theorem process_costs (simRank : ℕ) (msgs : List Bytes) :
    (process simRank (.ok msgs) : SimProg Unit Branch).Costs anyAnswer (fun _ => m)
      (m + processCost msgs) := by
  have hcost : m + processCost msgs = m + 1 + msgs.length + 4 + 1 + 1 + 3 + 1 := by
    unfold processCost
    omega
  rw [hcost]
  unfold process
  refine Costs.bind (Costs.op (fun _ => le_refl _)) (fun cm => ?_)
  refine Costs.bind (poll_costs simRank cm) (fun p => ?_)
  obtain ⟨haveQuery, cm'⟩ := p
  refine Costs.bind (Costs.op (fun _ => le_refl _)) (fun flag => ?_)
  show (if intOfBytes flag = 0 then _ else _ : SimProg Unit _).Costs _ _ _
  split
  · have hunlock : (SimOp.unlockMutex cm').Costs anyAnswer (fun _ => m) (m + 1) :=
      Costs.op (fun _ => le_refl m)
    refine (Costs.bind hunlock (fun _ => ?_)).mono (by omega)
    exact Costs.ret (le_refl m)
  · refine Costs.bind (Costs.op (fun _ => le_refl _)) (fun cmd => ?_)
    refine Costs.bind (runCommand_costs simRank msgs _) (fun p => ?_)
    exact Costs.bind (Costs.op (fun _ => le_refl m)) (fun _ => le_refl m)

end ConnectionManager

end LibIS
