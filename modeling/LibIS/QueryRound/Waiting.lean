import LibIS.Library.Completion
import LibIS.QueryRound.Rounds

set_option autoImplicit false

/-! # Rounds of queries: where the client ranks wait

A second proof on top of the outline, about the runs in which the ranks are patient: a rank goes on
only when few of its messages wait to be taken, and rank 0 does not poll for ever. It says of an
operation that is due how far the rank is: a client rank that waits for a message has sent what the
message answers, or has met all other ranks in the barrier before (`Standing`). -/

open ByteCodec Prog ThreadSystem Proof

namespace LibIS

namespace QueryRound

/-! ## Patient ranks -/

/-- The calls in which rank 0 has found no command. -/
def World.vainCalls (w : World) : ℕ :=
  (castCalls w.simCast).count .idle

/-- Rank 0 finds no command in at most `K` calls. -/
def patientPoll (K : ℕ) : (o : SimOp Unit) → World → o.Resp → Prop
  | .probe _ _, w, found => found = true ∨ w.vainCalls < K
  | _, _, _ => True

/-- A rank goes on only when at most `B` of its messages wait on each channel to be taken. With
    `B = 0`, a send waits for its receive. -/
def Patient (M N : ℕ) (snaps : Snapshots) (B K : ℕ) : (i : Party M N) →
    (o : (system M N snaps).Op i) → World → (system M N snaps).Resp i o → Prop
  | .sim s => fun o w r => (∀ c, (w.down s c).pending.length ≤ B) ∧ patientPoll K o w r
  | .client c => fun _ w _ => ∀ s, (w.up c s).pending.length ≤ B

/-! ## What is due -/

section Due

variable (M N : ℕ) (snaps : Snapshots)

/-- What rank 0 has announced follows from what it has found. -/
structure Few (K : ℕ) (w : World) : Prop where
  idle : w.vainCalls ≤ K
  rounds : 2 * w.rounds.length ≤ (w.up 0 0).taken + 1

/-- Simulation rank `s` is in a call, where it answers what it has taken. -/
def Working (s : ℕ) (w : World) : Prop :=
  ∃ calls cast out took, SimAt M N snaps s calls cast out took w ∧
    ∀ m ∈ out, m.round = (queryCalls calls).length ∧ 0 < took

/-- Simulation rank `s` has sent a state for every ping it has taken. -/
def Replied (s : ℕ) (w : World) : Prop :=
  ∃ calls cast out took, SimAt M N snaps s calls cast out took w ∧ took < perRound s

/-- Simulation rank `s` waits for a message: rank 0 for a command, any rank for a ping. -/
def Awaiting (s : ℕ) (w : World) : Prop :=
  ∃ calls, (s = 0 ∧ SimAt M N snaps s calls [] [] 0 w) ∨
    SimAt M N snaps s calls [intBytes 1, intBytes Command.query.toInt32]
      (quits s (queryCalls calls).length) (quits s (queryCalls calls).length).length w

/-- Simulation rank `s` waits for rank 0 to announce something. -/
def Hearing (s : ℕ) (w : World) : Prop :=
  ∃ calls, SimAt M N snaps s calls [] [] 0 w ∨ SimAt M N snaps s calls [intBytes 1] [] 0 w

/-- What an operation of simulation rank `s` finds. -/
def dueSim (s : ℕ) : SimOp Unit → World → Prop
  | .lock, w | .unlock _, w => Replied M N snaps s w
  | .probe _ rank, w => s = 0 ∧ rank = 0 ∧ Awaiting M N snaps s w
  | .probeAll _, w => Awaiting M N snaps s w
  | .recv _ _ size rank, w => 0 < size ∧ InBlock M N rank s ∧ Awaiting M N snaps s w
  | .bcast _, w => Replied M N snaps s w ∧ (s ≠ 0 → Hearing M N snaps s w)
  | _, _ => True

/-- What client rank `c` has done of `T` rounds, where it has heard `n` broadcasts and knows that all
    client ranks have entered `b` barriers. -/
structure Ahead (T c n b : ℕ) (w : World) : Prop where
  heard : c ≠ 0 → w.clientHeard c = n
  cast : c = 0 → w.clientCast.length = n
  passed : ∀ c', c' < N → b ≤ w.arrived c'
  commands : c = 0 → w.arrived 0 ≤ (w.up 0 0).sent.length
  asked : c = 0 → (w.up 0 0).sent.length ≤ 2 * T

/-- A client rank does not wait for a simulation rank in round `r`. -/
def Quiet (r s : ℕ) (p : Progress) : Prop :=
  p = .asking 0 0 ∨ p = .asking (quits s r).length (quits s r).length ∨ p = .done

/-- A client rank waits for a part of the state of a simulation rank in round `r`: for the header,
    which is not empty, or for what follows it. -/
def Reading (r s size : ℕ) (p : Progress) : Prop :=
  (0 < size ∧ p = .asking (perRound s) (quits s r).length) ∨
    ∃ k got, p = .reading k got ∧ got < (snaps s k).messages.length

/-- How far client rank `c` is with the simulation ranks in round `r`, when it has entered `barriers`
    barriers of the round and an operation is due. -/
def Waits (c r barriers n b : ℕ) (progress : ℕ → Progress) : ClientOp Unit → Prop
  | .recv _ .quit size s => 0 < size ∧ c = 0 ∧ s = 0 ∧ progress 0 = .asking 1 0 ∧
      ∀ s', s' ≠ 0 → Quiet r s' (progress s')
  | .recv _ _ size s => b = 2 * r + 1 ∧ InBlock M N c s ∧ Reading snaps r s size (progress s) ∧
      ∀ s', s' ≠ s → Quiet r s' (progress s')
  | .leave => (n + 1 = r + barriers ∧ 1 ≤ barriers ∧ barriers ≤ 2) ∧ ∀ s, Quiet r s (progress s)
  | .bcast _ => (n = r ∧ barriers = 1) ∧ ∀ s, Quiet r s (progress s)
  | _ => ∀ s, Quiet r s (progress s)

/-- What an operation of client rank `c` finds, in one of the first `T` rounds. -/
def dueClient (T c : ℕ) (o : ClientOp Unit) (w : World) : Prop :=
  ∃ r barriers n b progress, r < T ∧ ClientAt M N snaps c r barriers progress w ∧
    Ahead N T c n b w ∧ Waits M N snaps c r barriers n b progress o

/-- What an operation of a rank finds. -/
def due (T K : ℕ) : (i : Party M N) → (system M N snaps).Op i → World → Prop
  | .sim s => fun o w => Working M N snaps s w ∧ ((s : ℕ) = 0 → Few K w) ∧ dueSim M N snaps s o w
  | .client c => dueClient M N snaps T c

/-- What a rank has done between two calls. -/
def settled (T K : ℕ) : (i : Party M N) → (system M N snaps).Label i → World → Prop
  | .sim s => fun calls _ => (s : ℕ) = 0 → calls.count .idle ≤ K
  | .client c => fun l w => l.rounds.length ≤ T ∧
      Ahead N T c l.rounds.length (2 * l.rounds.length) w

/-- The second proof. -/
@[reducible] def waiting (T B K : ℕ) : ((outline M N snaps).known (Patient M N snaps B K)).Proof :=
  (outline M N snaps).more (Patient M N snaps B K) (due M N snaps T K) (settled M N snaps T K)

end Due

variable {M N : ℕ} {snaps : Snapshots} {T B K : ℕ}

/-! ## Moving on -/

section Moves

variable {c n b : ℕ} {w w' : World}

theorem Ahead.stable (h : Ahead N T c n b w) (hrely : ClientRely c w w') : Ahead N T c n b w' where
  heard hc := hrely.clientHeard.trans (h.heard hc)
  cast hc := (congrArg List.length (hrely.rootCast hc)).trans (h.cast hc)
  passed c' hc' := (h.passed c' hc').trans (hrely.allArrived c')
  commands hc := by
    subst hc
    rw [hrely.arrived, hrely.upSent 0]
    exact h.commands rfl
  asked hc := by
    subst hc
    rw [hrely.upSent 0]
    exact h.asked rfl

theorem Ahead.congr (h : Ahead N T c n b w) (hheard : w'.clientHeard = w.clientHeard)
    (hcast : w'.clientCast = w.clientCast) (harrived : w'.arrived = w.arrived) (hup : w'.up = w.up) :
    Ahead N T c n b w' := by
  refine ⟨?_, ?_, ?_, ?_, ?_⟩
  · rw [hheard]
    exact h.heard
  · rw [hcast]
    exact h.cast
  · rw [harrived]
    exact h.passed
  · rw [harrived, hup]
    exact h.commands
  · rw [hup]
    exact h.asked

theorem Ahead.sendUp (h : Ahead N T c n b w) {s : ℕ} (m : Message)
    (hasked : c = 0 → s = 0 → (w.up 0 0).sent.length < 2 * T) :
    Ahead N T c n b { w with up := updateAt w.up c s ((w.up c s).push m) } := by
  refine { h with commands := fun hc => ?_, asked := fun hc => ?_ }
  · exact (h.commands hc).trans (Channel.le_updateAt_push_sent _ _ _ _ _ _)
  · show (updateAt w.up c s ((w.up c s).push m) 0 0).sent.length ≤ 2 * T
    by_cases hs : s = 0
    · subst hc hs
      rw [updateAt_self, Channel.push_sent, List.length_append, List.length_singleton]
      exact hasked rfl rfl
    · rw [updateAt_of_ne_right _ _ (Ne.symm hs)]
      exact h.asked hc

theorem Ahead.arrive (h : Ahead N T c n b w)
    (hcommands : c = 0 → w.arrived 0 < (w.up 0 0).sent.length) :
    Ahead N T c n b { w with arrived := Function.update w.arrived c (w.arrived c + 1) } := by
  refine { h with passed := fun c' hc' => ?_, commands := fun hc => ?_ }
  · by_cases hne : c' = c
    · subst hne
      simp only [Function.update_self]
      exact (h.passed c' hc').trans (Nat.le_succ _)
    · simp only [Function.update_of_ne hne]
      exact h.passed c' hc'
  · subst hc
    simp only [Function.update_self]
    exact hcommands rfl

/-- A barrier is left when all have entered it. -/
theorem Ahead.leave (h : Ahead N T c n b w) (hall : ∀ c', c' < N → w.arrived c ≤ w.arrived c')
    {b' : ℕ} (harrived : w.arrived c = b') : Ahead N T c n b' w :=
  { h with passed := harrived ▸ hall }

theorem Ahead.bcast (h : Ahead N T c n b w) {r : Bytes} {buf : Bytes}
    (hperform : performClient M N c (.bcast buf) w r w') : Ahead N T c (n + 1) b w' := by
  simp only [performClient] at hperform
  by_cases hc : c = 0
  · rw [if_pos hc] at hperform
    obtain ⟨-, rfl⟩ := hperform
    refine { h with heard := fun hne => absurd hc hne, cast := fun _ => ?_ }
    rw [List.length_append, List.length_singleton, h.cast hc]
  · rw [if_neg hc] at hperform
    obtain ⟨-, rfl⟩ := hperform
    refine { h with heard := fun hne => ?_, cast := fun h0 => absurd h0 hc }
    simp only [Function.update_self, h.heard hne]

end Moves

/-! ## Operations -/

section Operations

variable {c : Fin N} {r barriers n b s : ℕ} {progress : ℕ → Progress}

theorem client_waits {o : ClientOp Unit} {Q : o.Resp → World → Prop} {n' b' : ℕ} (hr : r < T)
    (h : (outline M N snaps).Triple (.client c) (ClientAt M N snaps c r barriers progress)
      (Prog.op o) Q)
    (hwaits : Waits M N snaps c r barriers n b progress o)
    (hstep : ∀ w a w', ClientAt M N snaps c r barriers progress w → Ahead N T c n b w →
      performClient M N c o w a w' → Ahead N T c n' b' w') :
    (waiting M N snaps T B K).Triple (.client c)
      (fun w => ClientAt M N snaps c r barriers progress w ∧ Ahead N T c n b w) (Prog.op o)
      (fun a w => Q a w ∧ Ahead N T c n' b' w) := by
  refine Triple.with_known h (Triple.more_op ?_ ?_ ?_)
  · exact fun w w' h hrely _ => ⟨h.1.stable hrely, h.2.stable hrely⟩
  · exact fun w _ h => ⟨r, barriers, n, b, progress, hr, h.1, h.2, hwaits⟩
  · exact fun w a w' _ h hperform _ _ => hstep w a w' h.1 h.2 hperform

theorem client_waits_same {o : ClientOp Unit} {Q : o.Resp → World → Prop} (hr : r < T)
    (h : (outline M N snaps).Triple (.client c) (ClientAt M N snaps c r barriers progress)
      (Prog.op o) Q)
    (hwaits : Waits M N snaps c r barriers n b progress o)
    (hsame : ∀ w a w', performClient M N c o w a w' → w'.clientHeard = w.clientHeard ∧
      w'.clientCast = w.clientCast ∧ w'.arrived = w.arrived ∧ w'.up = w.up) :
    (waiting M N snaps T B K).Triple (.client c)
      (fun w => ClientAt M N snaps c r barriers progress w ∧ Ahead N T c n b w) (Prog.op o)
      (fun a w => Q a w ∧ Ahead N T c n b w) := by
  refine client_waits hr h hwaits (fun w a w' _ hahead hperform => ?_)
  obtain ⟨hheard, hcast, harrived, hup⟩ := hsame w a w' hperform
  exact hahead.congr hheard hcast harrived hup

theorem recv_same {kind : Kind} {size rank : ℕ} (w : World) (a : Bytes) (w' : World)
    (hperform : performClient M N c (.recv () kind size rank) w a w') :
    w'.clientHeard = w.clientHeard ∧ w'.clientCast = w.clientCast ∧ w'.arrived = w.arrived ∧
      w'.up = w.up := by
  obtain ⟨m, -, -, rfl⟩ := hperform
  exact ⟨rfl, rfl, rfl, rfl⟩

theorem send_waits (hr : r < T) (hblock : InBlock M N c s) {sent got : ℕ} {kind : Kind} {data : Bytes}
    (hp : progress s = .asking sent got) (hsent : sent < 2) (hbarriers : barriers < 2)
    (hmsg : upMessage c s (perRound s * r + sent) = ⟨kind, data, r⟩)
    (hquiet : ∀ s, Quiet r s (progress s)) :
    (waiting M N snaps T B K).Triple (.client c)
      (fun w => ClientAt M N snaps c r barriers progress w ∧ Ahead N T c n b w)
      (ClientOp.sendTo () kind data s)
      (fun _ w => ClientAt M N snaps c r barriers
        (Function.update progress s (.asking (sent + 1) got)) w ∧ Ahead N T c n b w) := by
  refine client_waits hr (send_triple hblock hp hbarriers hmsg) hquiet ?_
  intro w a w' hat hahead hperform
  simp only [performClient] at hperform
  subst hperform
  refine hahead.sendUp _ (fun hc hs => ?_)
  have hknows := hat.knows s hblock
  rw [hp] at hknows
  have hlen := hknows.upSent
  rw [hs, hc] at hlen
  rw [hlen, perRound, if_pos rfl]
  omega

/-- A barrier: whoever leaves it knows that all have entered it. -/
theorem barrier_waits (hr : r < T) {progress' : ℕ → Progress} {r' barriers' : ℕ}
    (hbarrier : (outline M N snaps).Triple (.client c) (ClientAt M N snaps c r barriers progress)
      ClientOp.mpiBarrier (fun _ => ClientAt M N snaps c r' barriers' progress'))
    (hn : n = r + barriers) (hbarriers : barriers < 2)
    (hpassed : ∀ w s, Inv M N snaps w → ClientAt M N snaps c r barriers progress w →
      InBlock M N c s → (w.arrived c + 1) / 2 ≤ w.rounds.length ∧
      (replies snaps s (w.rounds.take ((w.arrived c + 1) / 2))).length ≤ (w.down s c).taken ∧
      perRound s * ((w.arrived c + 1) / 2) ≤ (w.up c s).taken)
    (hcommands : ∀ w, (c : ℕ) = 0 → ClientAt M N snaps c r barriers progress w →
      2 * r + barriers < (w.up 0 0).sent.length)
    (hquiet : ∀ s, Quiet r s (progress s)) :
    (waiting M N snaps T B K).Triple (.client c)
      (fun w => ClientAt M N snaps c r barriers progress w ∧ Ahead N T c n b w)
      ClientOp.mpiBarrier
      (fun _ w => ClientAt M N snaps c r' barriers' progress' w ∧
        Ahead N T c n (2 * r + (barriers + 1)) w) := by
  have harrive : (waiting M N snaps T B K).Triple (.client c)
      (fun w => ClientAt M N snaps c r barriers progress w ∧ Ahead N T c n b w)
      (Prog.op ClientOp.arrive)
      (fun _ w => ClientAt M N snaps c r (barriers + 1) progress w ∧ Ahead N T c n b w) := by
    refine client_waits hr (arrive_triple hpassed) hquiet ?_
    intro w a w' hat hahead hperform
    simp only [performClient] at hperform
    subst hperform
    refine hahead.arrive (fun hc => ?_)
    have hlt := hcommands w hc hat
    have harrived := hat.arrived
    rw [hc] at harrived
    omega
  have hleave : (waiting M N snaps T B K).Triple (.client c)
      (fun w => ClientAt M N snaps c r (barriers + 1) progress w ∧ Ahead N T c n b w)
      (Prog.op ClientOp.leave) (fun _ => Ahead N T c n (2 * r + (barriers + 1))) := by
    refine Triple.more_op ?_ ?_ ?_
    · exact fun w w' h hrely _ => ⟨h.1.stable hrely, h.2.stable hrely⟩
    · intro w _ h
      have hcount : n + 1 = r + (barriers + 1) ∧ 1 ≤ barriers + 1 ∧ barriers + 1 ≤ 2 := by omega
      exact ⟨r, barriers + 1, n, b, progress, hr, h.1, h.2, hcount, hquiet⟩
    · rintro w a w' - ⟨hat, hahead⟩ ⟨hall, rfl⟩ - -
      exact hahead.leave hall hat.arrived
  exact Triple.with_known hbarrier (Triple.bind harrive (fun _ => hleave))

theorem bcastQuit_waits (hr : r < T) {this : SimulationConnection Unit}
    (hquiet : ∀ s, Quiet r s (progress s)) :
    (waiting M N snaps T B K).Triple (.client c)
      (fun w => ClientAt M N snaps c r 1 progress w ∧ Ahead N T c r b w)
      (SimulationConnection.bcastQuit this) (fun _ => Ahead N T c (r + 1) b) := by
  have hbcast : (waiting M N snaps T B K).Triple (.client c)
      (fun w => ClientAt M N snaps c r 1 progress w ∧ Ahead N T c r b w)
      (ClientOp.mpiBcast (intBytes this.simQuit)) (fun _ => Ahead N T c (r + 1) b) := by
    refine Triple.more_op ?_ ?_ ?_
    · exact fun w w' h hrely _ => ⟨h.1.stable hrely, h.2.stable hrely⟩
    · exact fun w _ h => ⟨r, 1, r, b, progress, hr, h.1, h.2, ⟨rfl, rfl⟩, hquiet⟩
    · intro w a w' _ h hperform _ _
      have hcast : performClient M N c (.bcast (intBytes this.simQuit)) w a w' := hperform
      exact h.2.bcast hcast
  unfold SimulationConnection.bcastQuit
  exact Triple.bind hbcast (fun _ => Triple.ret (fun _ _ h => h))

end Operations

/-! ## A round -/

theorem sizeof_header_pos : 0 < SimStateHeader.sizeof := by
  decide

section Round

variable {c : Fin N} {r n b s : ℕ}

theorem visiting_quiet (f : ℕ) : Quiet r s (visiting r f s) := by
  unfold visiting
  split
  · exact .inr (.inr rfl)
  · exact .inr (.inl rfl)

/-- What is quiet but for one simulation rank. -/
theorem quiet_update {progress : ℕ → Progress} (hquiet : ∀ s, Quiet r s (progress s)) (p : Progress)
    {s' : ℕ} (hne : s' ≠ s) : Quiet r s' (Function.update progress s p s') := by
  rw [Function.update_of_ne hne]
  exact hquiet s'

/-- Rank 0 sends the command, and the ranks meet. -/
theorem sendCommand_waits (hroot : InBlock M N 0 0) (hr : r < T) {this : SimulationConnection Unit}
    (hthis : this.intercomm = some () ∧ this.simQuit = 0) :
    (waiting M N snaps T B K).Triple (.client c)
      (fun w => ClientAt M N snaps c r 0 (fun _ => .asking 0 0) w ∧ Ahead N T c r b w)
      (SimulationConnection.sendCommand c .query this)
      (fun this' w => ((this'.intercomm = some () ∧ this'.simQuit = 0) ∧
          ClientAt M N snaps c r 1 (visiting r (firstRegion M N c)) w) ∧
        Ahead N T c (r + 1) (2 * r + 1) w) := by
  refine Triple.with_known (sendCommand_triple hroot hthis) ?_
  have hstart : ∀ s, Quiet r s (.asking 0 0) := fun s => .inl rfl
  -- before the barrier, a rank has sent nothing but the command
  have hmeet : ∀ progress : ℕ → Progress, (∀ s, Quiet r s (progress s)) →
      ((c : ℕ) = 0 → progress 0 = .asking 1 1) → ∀ this : SimulationConnection Unit,
      (waiting M N snaps T B K).Triple (.client c)
        (fun w => ClientAt M N snaps c r 0 progress w ∧ Ahead N T c r b w)
        (ClientOp.mpiBarrier >>= fun _ => SimulationConnection.bcastQuit this)
        (fun _ => Ahead N T c (r + 1) (2 * r + 1)) := by
    intro progress hquiet hzero this
    refine Triple.bind (barrier_waits hr barrier_triple rfl Nat.two_pos ?_ ?_ hquiet)
      (fun _ => bcastQuit_waits hr hquiet)
    · intro w s hinv hat hblock
      have hround : (w.arrived c + 1) / 2 = w.arrived c / 2 := by
        have harrived := hat.arrived
        omega
      rw [hround]
      exact hinv.passed c s hblock
    · intro w hc hat
      have hknows := hat.knows 0 (hc ▸ hroot)
      rw [hzero hc] at hknows
      have hlen := hknows.upSent
      rw [hc, perRound, if_pos rfl] at hlen
      omega
  simp only [SimulationConnection.sendCommand]
  by_cases hc : (c : ℕ) = 0
  · have hblock : InBlock M N c 0 := hc ▸ hroot
    rw [if_pos hc]
    have hissue : (waiting M N snaps T B K).Triple (.client c)
        (fun w => ClientAt M N snaps c r 0 (fun _ => .asking 0 0) w ∧ Ahead N T c r b w)
        (SimulationConnection.issueCommand .query this)
        (fun _ w => ClientAt M N snaps c r 0
          (Function.update (Function.update (fun _ => .asking 0 0) 0 (.asking 1 0)) 0
            (.asking 1 1)) w ∧ Ahead N T c r b w) := by
      simp only [SimulationConnection.issueCommand, hthis.1,
        if_neg (by decide : ¬ Command.query = .connect)]
      refine Triple.bind (send_waits hr hblock rfl (by norm_num) (by norm_num) ?_ hstart)
        (fun _ => ?_)
      · rw [Nat.add_zero]
        exact upMessage_command c r
      have hwaits : Waits M N snaps c r 0 r b
          (Function.update (fun _ => .asking 0 0) 0 (.asking 1 0)) (.recv () .quit 4 0) :=
        ⟨Nat.succ_pos 3, hc, rfl, Function.update_self .., fun s' hne => quiet_update hstart _ hne⟩
      refine Triple.bind (client_waits_same hr (recvQuit_triple hblock (Function.update_self ..))
        hwaits recv_same) (fun a => ?_)
      exact Triple.ret (fun w _ h => ⟨h.1.2, h.2⟩)
    refine Triple.bind hissue (fun simQuit => hmeet _ (fun s => ?_) ?_ _)
    · by_cases hs : s = 0
      · subst hs
        rw [Function.update_self]
        exact .inr (.inl rfl)
      · rw [Function.update_of_ne hs, Function.update_of_ne hs]
        exact hstart s
    · exact fun _ => Function.update_self ..
  · rw [if_neg hc]
    exact hmeet _ hstart (fun h0 => absurd h0 hc) _

theorem queryRegion_waits (hr : r < T) (hblock : InBlock M N c s) :
    (waiting M N snaps T B K).Triple (.client c)
      (fun w => ClientAt M N snaps c r 1 (visiting r s) w ∧ Ahead N T c n (2 * r + 1) w)
      (SimulationConnection.queryRegion c () s)
      (fun _ w => ClientAt M N snaps c r 1 (visiting r (s + 1)) w ∧
        Ahead N T c n (2 * r + 1) w) := by
  have hvisiting : visiting r s s = .asking (quits s r).length (quits s r).length :=
    if_neg (lt_irrefl s)
  have hquits : (quits s r).length < 2 := by
    unfold quits
    split
    · exact Nat.one_lt_two
    · exact Nat.zero_lt_two
  have hquiet : ∀ s', Quiet r s' (visiting r s s') := fun s' => visiting_quiet s
  have hread : (waiting M N snaps T B K).Triple (.client c)
      (fun w => ClientAt M N snaps c r 1 (visiting r s) w ∧ Ahead N T c n (2 * r + 1) w)
      (SimulationConnection.queryRegion c () s) (fun _ => Ahead N T c n (2 * r + 1)) := by
    refine Triple.bind (send_waits hr hblock hvisiting hquits (by norm_num) (upMessage_ping c s r)
      hquiet) (fun _ => ?_)
    rw [← perRound_eq, recvRegion, Receive.recv_bind, interp_vis]
    have hheader : Waits M N snaps c r 1 n (2 * r + 1)
        (Function.update (visiting r s) s (.asking (perRound s) (quits s r).length))
        (.recv () .data SimStateHeader.sizeof s) :=
      ⟨rfl, hblock, .inl ⟨sizeof_header_pos, Function.update_self ..⟩,
        fun s' hne => quiet_update hquiet _ hne⟩
    have hfirst : (waiting M N snaps T B K).Triple (.client c)
        (fun w => ClientAt M N snaps c r 1 (Function.update (visiting r s) s
          (.asking (perRound s) (quits s r).length)) w ∧ Ahead N T c n (2 * r + 1) w)
        (ClientOp.recvFrom () .data SimStateHeader.sizeof s)
        (fun header w => ∃ k, (∃ rest, (snaps s k).messages = header :: rest ∧
            Receive.Reads (recvContents (SimStateHeader.ofBytes header)) rest
              (snaps s k).region) ∧
          ClientAt M N snaps c r 1 (Function.update (visiting r s) s (.reading k 1)) w ∧
          Ahead N T c n (2 * r + 1) w) := by
      refine Triple.conseq (client_waits_same hr
        (recvHeader_triple hblock (Function.update_self ..)) hheader recv_same) (fun _ _ h => h) ?_
      rintro header w - ⟨⟨k, hrest, hat⟩, hahead⟩
      rw [Function.update_idem] at hat
      exact ⟨k, hrest, hat, hahead⟩
    refine Triple.bind hfirst (fun header => Triple.exists (fun k => Triple.pure ?_))
    rintro ⟨rest, hmsgs, hreads⟩
    -- the rest of the state, message by message
    have hrecv : ∀ j m, rest[j]? = some m → (waiting M N snaps T B K).Triple (.client c)
        (fun w => ClientAt M N snaps c r 1 (Function.update (visiting r s) s
          (.reading k (j + 1))) w ∧ Ahead N T c n (2 * r + 1) w)
        (SimulationConnection.recvRegionOp () s (.recv m.length))
        (fun a w => a = m ∧ ClientAt M N snaps c r 1 (Function.update (visiting r s) s
          (.reading k (j + 1 + 1))) w ∧ Ahead N T c n (2 * r + 1) w) := by
      intro j m hj
      have hget : (snaps s k).messages[j + 1]? = some m := by
        rw [hmsgs, List.getElem?_cons_succ]
        exact hj
      have hdata : Waits M N snaps c r 1 n (2 * r + 1)
          (Function.update (visiting r s) s (.reading k (j + 1))) (.recv () .data m.length s) := by
        refine ⟨rfl, hblock, .inr ⟨k, j + 1, Function.update_self .., ?_⟩,
          fun s' hne => quiet_update hquiet _ hne⟩
        exact (List.getElem?_eq_some_iff.1 hget).1
      refine Triple.conseq (client_waits_same hr (recvData_triple hblock
        (Function.update_self ..) hget) hdata recv_same) (fun _ _ h => h) ?_
      rintro a w - ⟨⟨ha, hat⟩, hahead⟩
      rw [Function.update_idem] at hat
      exact ⟨ha, hat, hahead⟩
    exact Triple.conseq (Triple.reads hreads _ hrecv) (fun _ _ h => h) (fun _ _ _ h => h.2.2)
  exact Triple.conseq (Triple.with_known (queryRegion_triple hblock) hread) (fun _ _ h => h)
    (fun _ _ _ h => ⟨h.1.2, h.2⟩)

theorem queryRegions_waits (hr : r < T) (f m : ℕ)
    (hblock : ∀ s, f ≤ s → s < f + m → InBlock M N c s) :
    (waiting M N snaps T B K).Triple (.client c)
      (fun w => ClientAt M N snaps c r 1 (visiting r f) w ∧ Ahead N T c n (2 * r + 1) w)
      (SimulationConnection.queryRegions c () ((List.range' f m).map Int.ofNat))
      (fun _ w => ClientAt M N snaps c r 1 (visiting r (f + m)) w ∧
        Ahead N T c n (2 * r + 1) w) := by
  induction m generalizing f with
  | zero => exact Triple.ret (fun _ _ h => h)
  | succ m ih =>
      rw [List.range'_succ, List.map_cons]
      have hrest := ih (f + 1) (fun s hle hlt => hblock s (by omega) (by omega))
      rw [Nat.add_right_comm f 1 m] at hrest
      refine Triple.bind (queryRegion_waits hr (hblock f (le_refl f) (by omega))) (fun a => ?_)
      exact Triple.bind hrest (fun as => Triple.ret (fun _ _ h => h))

theorem query_waits (hroot : InBlock M N 0 0) (hr : r < T) {this : SimulationConnection Unit}
    (hthis : this.intercomm = some () ∧ this.simQuit = 0) :
    (waiting M N snaps T B K).Triple (.client c)
      (fun w => ClientAt M N snaps c r 0 (fun _ => .asking 0 0) w ∧ Ahead N T c r b w)
      (SimulationConnection.query N c this) (fun _ => Ahead N T c (r + 1) (2 * (r + 1))) := by
  simp only [SimulationConnection.query]
  have hcommand : (waiting M N snaps T B K).Triple (.client c)
      (fun w => ClientAt M N snaps c r 0 (fun _ => .asking 0 0) w ∧ Ahead N T c r b w)
      (SimulationConnection.sendCommand c .query this)
      (fun this' w => (this'.intercomm = some () ∧ this'.simQuit = 0) ∧
        ClientAt M N snaps c r 1 (visiting r (firstRegion M N c)) w ∧
          Ahead N T c (r + 1) (2 * r + 1) w) :=
    Triple.conseq (sendCommand_waits hroot hr hthis) (fun _ _ h => h)
      (fun _ _ _ h => ⟨h.1.1, h.1.2, h.2⟩)
  refine Triple.bind hcommand (fun this => Triple.pure (fun hthis => ?_))
  obtain ⟨intercomm, simQuit, myPortName⟩ := this
  obtain ⟨rfl, rfl⟩ : intercomm = some () ∧ simQuit = 0 := hthis
  simp only [ne_eq, not_true_eq_false, if_false]
  -- the number of simulation ranks
  have hsize : (waiting M N snaps T B K).Triple (.client c)
      (fun w => ClientAt M N snaps c r 1 (visiting r (firstRegion M N c)) w ∧
        Ahead N T c (r + 1) (2 * r + 1) w) (ClientOp.commRemoteSize ())
      (fun a w => a = M ∧ ClientAt M N snaps c r 1 (visiting r (firstRegion M N c)) w ∧
        Ahead N T c (r + 1) (2 * r + 1) w) := by
    refine Triple.more_op ?_ ?_ ?_
    · exact fun w w' h hrely _ => ⟨h.1.stable hrely, h.2.stable hrely⟩
    · exact fun w _ h => ⟨r, 1, r + 1, 2 * r + 1, _, hr, h.1, h.2, fun s => visiting_quiet _⟩
    · intro w a w' _ h hperform _ _
      obtain ⟨hsize, hsame⟩ : a = M ∧ w' = w := hperform
      rw [hsame]
      exact ⟨hsize, h⟩
  refine Triple.bind hsize (fun size => Triple.pure (fun hM => ?_))
  have hlist : queriedRegions size N c =
      (List.range' (firstRegion M N c) (numRegions M N c)).map Int.ofNat := by
    rw [hM, queriedRegions_natCast, List.range'_eq_map_range]
  rw [hlist]
  refine Triple.bind (queryRegions_waits hr _ _ (fun s hle hlt => ⟨hle, hlt⟩)) (fun rs => ?_)
  have hclosing : (waiting M N snaps T B K).Triple (.client c)
      (fun w => ClientAt M N snaps c r 1 (fun _ => .done) w ∧ Ahead N T c (r + 1) (2 * r + 1) w)
      ClientOp.mpiBarrier
      (fun _ w => ClientAt M N snaps c (r + 1) 0 (fun _ => .asking 0 0) w ∧
        Ahead N T c (r + 1) (2 * r + (1 + 1)) w) := by
    refine barrier_waits hr (closing_triple hroot) rfl Nat.one_lt_two ?_ ?_ (fun s => .inr (.inr rfl))
    · intro w s hinv hat hblock
      have hround : (w.arrived c + 1) / 2 = r + 1 := by
        have harrived := hat.arrived
        omega
      obtain ⟨hping, hch⟩ := hat.knows s hblock
      rw [hround]
      exact ⟨hch.rounds, hch.downTaken.ge, hping⟩
    · intro w hc hat
      have hlen := (hat.knows 0 (hc ▸ hroot)).2.upSent
      rw [hc, perRound, if_pos rfl] at hlen
      omega
  have hend : (waiting M N snaps T B K).Triple (.client c)
      (fun w => ClientAt M N snaps c r 1
        (visiting r (firstRegion M N c + numRegions M N c)) w ∧
          Ahead N T c (r + 1) (2 * r + 1) w)
      ClientOp.mpiBarrier (fun _ => Ahead N T c (r + 1) (2 * (r + 1))) := by
    refine Triple.conseq hclosing (fun w _ h => ⟨?_, h.2⟩) (fun _ _ _ h => h.2)
    exact h.1.congr (fun s hs => if_pos hs.2)
  exact Triple.bind hend (fun _ => Triple.ret (fun _ _ h => h))

/-- What a client rank has done after a call. -/
theorem client_code_waits (hroot : InBlock M N 0 0) {l : ClientLabel} (hl : l.rounds.length < T) :
    (waiting M N snaps T B K).Triple (.client c)
      (fun w => between M N snaps (.client c) l w ∧ settled M N snaps T K (.client c) l w)
      ((system M N snaps).code (.client c) l) (settled M N snaps T K (.client c)) := by
  have hquery : l.this.intercomm = some () ∧ l.this.simQuit = 0 →
      (waiting M N snaps T B K).Triple (.client c)
        (fun w => ClientAt M N snaps c l.rounds.length 0 (fun _ => .asking 0 0) w ∧
          Ahead N T c l.rounds.length (2 * l.rounds.length) w)
        ((system M N snaps).code (.client c) l) (settled M N snaps T K (.client c)) := by
    intro hthis
    refine Triple.bind (query_waits hroot hl hthis) (fun p => Triple.ret (fun w _ hahead => ?_))
    show (l.rounds ++ [p.1]).length ≤ T ∧ _
    rw [List.length_append, List.length_singleton]
    exact ⟨hl, hahead⟩
  refine Triple.conseq (Triple.pure hquery) ?_ (fun _ _ _ h => h)
  rintro w - ⟨⟨hthis, -, hat⟩, -, hahead⟩
  exact ⟨hthis, hat, hahead⟩

end Round

end QueryRound

end LibIS
