import LibIS.QueryRound.Outline

set_option autoImplicit false

/-! # Rounds of queries: the client ranks

Each operation of `query()` moves `ClientAt` on, one channel at a time; the call as a whole adds its
regions to the results (`query_triple`). What arrives on a channel is found in the replies of the
simulation rank by its position (`Inv.next_quit`, `Inv.next_data`). -/

open ByteCodec Prog ThreadSystem Proof

namespace LibIS

namespace QueryRound

variable {M N : ℕ} {snaps : Snapshots} {R : ℕ}

/-! ## What arrives -/

section Arrives

variable {c s : ℕ} {w : World} (hinv : Inv M N snaps w) (hR : R ≤ w.rounds.length)
include hinv hR

/-- After the replies of the rounds before, rank 0's next message is the quit flag. -/
theorem Inv.next_quit (htaken : (w.down 0 c).taken = (replies snaps 0 (w.rounds.take R)).length)
    {m : Message} (hm : (w.down 0 c).next? = some m) : m = ⟨.quit, intBytes 0, R⟩ := by
  have hbegins := replies_quits_grow snaps 0 (List.take_prefix R w.rounds)
  rw [List.length_take_of_le hR] at hbegins
  have hquit : (replies snaps 0 (w.rounds.take R) ++ quits 0 R)[(w.down 0 c).taken]? =
      some ⟨.quit, intBytes 0, R⟩ := by
    rw [htaken, List.getElem?_append_right (le_refl _), Nat.sub_self]
    rfl
  have hget := (hinv.downReplies 0 c).getElem?_eq_some hm
  rw [hbegins.getElem?_eq_some hquit] at hget
  exact (Option.some.inj hget).symm

/-- After the quit flag, if any, and `got` messages of the state, there is the next message of the
    state, and the call it belongs to has been announced. -/
theorem Inv.next_data {got : ℕ}
    (htaken : (w.down s c).taken =
      (replies snaps s (w.rounds.take R)).length + ((quits s R).length + got))
    (hgot : ∀ k, w.rounds[R]? = some k → got < (snaps s k).messages.length)
    {m : Message} (hm : (w.down s c).next? = some m) :
    ∃ k b, w.rounds[R]? = some k ∧ (snaps s k).messages[got]? = some b ∧
      m = ⟨.data, b, R⟩ := by
  have hget := (hinv.downReplies s c).getElem?_eq_some hm
  rcases hR.lt_or_eq with hlt | heq
  · obtain ⟨k, hk⟩ : ∃ k, w.rounds[R]? = some k := ⟨_, List.getElem?_eq_getElem hlt⟩
    obtain ⟨b, hb⟩ : ∃ b, (snaps s k).messages[got]? = some b :=
      ⟨_, List.getElem?_eq_getElem (hgot k hk)⟩
    refine ⟨k, b, hk, hb, ?_⟩
    have hdata : (replies snaps s (w.rounds.take R) ++ reply snaps s k R)[(w.down s c).taken]? =
        some ⟨.data, b, R⟩ := by
      rw [htaken, List.getElem?_append_right (Nat.le_add_right _ _), Nat.add_sub_cancel_left, reply,
        List.getElem?_append_right (Nat.le_add_right _ _), Nat.add_sub_cancel_left,
        List.getElem?_map, hb]
      rfl
    have hreplies := (replies_split snaps s hk).trans
      (List.prefix_append _ (quits s w.rounds.length))
    rw [hreplies.getElem?_eq_some hdata] at hget
    exact (Option.some.inj hget).symm
  · -- no call of this round has been announced, so nothing can have come but the quit flag
    have hnone : w.rounds.take R = w.rounds := List.take_of_length_le heq.ge
    rw [hnone, heq] at htaken
    obtain ⟨hlt, -⟩ := List.getElem?_eq_some_iff.1 hget
    rw [List.length_append] at hlt
    omega

end Arrives

/-! ## Moving on -/

section Moves

variable {c barriers s : ℕ} {progress : ℕ → Progress} {w : World}
  (h : ClientAt M N snaps c R barriers progress w)
include h

theorem ClientAt.congr {progress' : ℕ → Progress}
    (hp : ∀ s, InBlock M N c s → progress s = progress' s) :
    ClientAt M N snaps c R barriers progress' w :=
  { h with knows := fun s hblock => hp s hblock ▸ h.knows s hblock }

theorem ClientAt.move {p : Progress} {w' : World} (harrived : w'.arrived = w.arrived)
    (hcast : w'.simCast = w.simCast) (hup : ∀ s', s' ≠ s → w'.up c s' = w.up c s')
    (hdown : ∀ s', s' ≠ s → w'.down s' c = w.down s' c)
    (hs : InBlock M N c s → Knows snaps c R s p w') :
    ClientAt M N snaps c R barriers (Function.update progress s p) w' := by
  have hrounds : w'.rounds = w.rounds := by rw [World.rounds, World.rounds, hcast]
  constructor
  · rw [harrived]
    exact h.arrived
  · rw [hrounds]
    exact h.rounds
  · rw [harrived]
    exact h.others
  · intro s' hblock
    by_cases hne : s' = s
    · subst hne
      rw [Function.update_self]
      exact hs hblock
    · rw [Function.update_of_ne hne]
      refine (h.knows s' hblock).transfer (hrounds ▸ List.prefix_refl _) ?_ ?_ ?_
      · rw [hup s' hne]
      · rw [hdown s' hne]
      · rw [hup s' hne]

/-- A broadcast does not touch the channels. -/
theorem ClientAt.clientCast {w' : World} (harrived : w'.arrived = w.arrived)
    (hcast : w'.simCast = w.simCast) (hup : w'.up = w.up) (hdown : w'.down = w.down) :
    ClientAt M N snaps c R barriers progress w' := by
  have hrounds : w'.rounds = w.rounds := by rw [World.rounds, World.rounds, hcast]
  constructor
  · rw [harrived]
    exact h.arrived
  · rw [hrounds]
    exact h.rounds
  · rw [harrived]
    exact h.others
  · intro s hblock
    refine (h.knows s hblock).transfer (hrounds ▸ List.prefix_refl _) ?_ ?_ ?_
    · rw [hup]
    · rw [hdown]
    · rw [hup]

theorem ClientAt.sendUp (hblock : InBlock M N c s) {sent got : ℕ}
    (hp : progress s = .asking sent got) (m : Message) :
    ClientAt M N snaps c R barriers (Function.update progress s (.asking (sent + 1) got))
      { w with up := updateAt w.up c s ((w.up c s).push m) } := by
  have hat : ChannelAt snaps c s R sent got w := by
    have hknows := h.knows s hblock
    rwa [hp] at hknows
  refine h.move rfl rfl (fun s' hne => updateAt_of_ne_right _ _ hne) (fun _ _ => rfl) (fun _ => ?_)
  constructor
  · exact hat.rounds
  · simp only [updateAt_self, Channel.push_sent, List.length_append, List.length_singleton,
      hat.upSent, Nat.add_assoc]
  · exact hat.downTaken

theorem ClientAt.takeDown {p : Progress}
    (hs : InBlock M N c s →
      Knows snaps c R s p { w with down := updateAt w.down s c (w.down s c).pop }) :
    ClientAt M N snaps c R barriers (Function.update progress s p)
      { w with down := updateAt w.down s c (w.down s c).pop } :=
  h.move rfl rfl (fun _ _ => rfl) (fun _ hne => updateAt_of_ne_left _ _ hne) hs

end Moves

theorem ChannelAt.takeDown {c s sent got : ℕ} {w : World}
    (h : ChannelAt snaps c s R sent got w) :
    ChannelAt snaps c s R sent (got + 1)
      { w with down := updateAt w.down s c (w.down s c).pop } where
  rounds := h.rounds
  upSent := h.upSent
  downTaken := by
    simp only [updateAt_self, Channel.pop_taken, h.downTaken]
    exact Nat.add_assoc _ _ _

theorem Knows.done {c s k : ℕ} {w : World}
    (h : Knows snaps c R s (.reading k (snaps s k).messages.length) w) :
    Knows snaps c R s .done w := by
  obtain ⟨hcall, htaken, hat⟩ := h
  obtain ⟨hlt, hget⟩ := List.getElem?_eq_some_iff.1 hcall
  have htake : w.rounds.take (R + 1) = w.rounds.take R ++ [k] := by
    rw [List.take_succ_eq_append_getElem hlt, hget]
  refine ⟨htaken, hlt, ?_, ?_⟩
  · rw [hat.upSent, Nat.mul_succ, Nat.add_zero]
  · rw [hat.downTaken, htake, replies_concat, List.length_take_of_le hlt.le, reply]
    simp

/-! ## The operations of `query()` -/

section Query

variable {c : Fin N} {barriers s : ℕ} {progress : ℕ → Progress}

theorem send_triple (hblock : InBlock M N c s) {sent got : ℕ} {kind : Kind} {data : Bytes}
    (hp : progress s = .asking sent got) (hbarriers : barriers < 2)
    (hmsg : upMessage c s (perRound s * R + sent) = ⟨kind, data, R⟩) :
    (outline M N snaps).Triple (.client c) (ClientAt M N snaps c R barriers progress)
      (ClientOp.sendTo () kind data s)
      (fun _ => ClientAt M N snaps c R barriers
        (Function.update progress s (.asking (sent + 1) got))) := by
  refine client_op (fun _ _ => ClientAt.stable) (fun _ _ _ => trivial) ?_
  intro w r w' hinv hat hperform
  have hsent : (w.up c s).sent.length = perRound s * R + sent := by
    have hknows := hat.knows s hblock
    rw [hp] at hknows
    exact hknows.upSent
  have hround : w.arrived c / 2 = R := by
    have harrived := hat.arrived
    omega
  simp only [performClient, hround] at hperform
  subst hperform
  refine ⟨?_, hat.sendUp hblock hp _⟩
  have hsend := hinv.sendUp hblock
  rwa [hsent, hmsg] at hsend

theorem recvQuit_triple {sent : ℕ} (hblock : InBlock M N c 0)
    (hp : progress 0 = .asking sent 0) :
    (outline M N snaps).Triple (.client c) (ClientAt M N snaps c R barriers progress)
      (ClientOp.recvFrom () .quit 4 0)
      (fun r w => r = intBytes 0 ∧ ClientAt M N snaps c R barriers
        (Function.update progress 0 (.asking sent 1)) w) := by
  have hknows : ∀ w, ClientAt M N snaps c R barriers progress w →
      ChannelAt snaps c 0 R sent 0 w := by
    intro w hat
    have hknows := hat.knows 0 hblock
    rwa [hp] at hknows
  refine client_op (fun _ _ => ClientAt.stable) ?_ ?_
  · intro w hinv hat m hm
    have hch := hknows w hat
    rw [hinv.next_quit hch.rounds hch.downTaken hm]
    exact ⟨rfl, intBytes_length 0⟩
  · rintro w r w' hinv hat ⟨m, hm, rfl, rfl⟩
    have hch := hknows w hat
    rw [hinv.next_quit hch.rounds hch.downTaken hm]
    exact ⟨hinv.takeDown 0 c, rfl, hat.takeDown (fun _ => hch.takeDown)⟩

/-- The first message of a state. Before it arrives the call it belongs to is not known. -/
theorem recvHeader_triple (hblock : InBlock M N c s)
    (hp : progress s = .asking (perRound s) (quits s R).length) :
    (outline M N snaps).Triple (.client c) (ClientAt M N snaps c R barriers progress)
      (ClientOp.recvFrom () .data SimStateHeader.sizeof s)
      (fun r w => ∃ k, (∃ rest, (snaps s k).messages = r :: rest ∧
          Receive.Reads (recvContents (SimStateHeader.ofBytes r)) rest (snaps s k).region) ∧
        ClientAt M N snaps c R barriers (Function.update progress s (.reading k 1)) w) := by
  have hknows : ∀ w, ClientAt M N snaps c R barriers progress w →
      ChannelAt snaps c s R (perRound s) ((quits s R).length + 0) w := by
    intro w hat
    have hknows := hat.knows s hblock
    rwa [hp] at hknows
  have hnext : ∀ w m, Inv M N snaps w → ClientAt M N snaps c R barriers progress w →
      (w.down s c).next? = some m →
      ∃ k b, w.rounds[R]? = some k ∧ m = ⟨.data, b, R⟩ ∧ b.length = SimStateHeader.sizeof ∧
        ∃ rest, (snaps s k).messages = b :: rest ∧
          Receive.Reads (recvContents (SimStateHeader.ofBytes b)) rest (snaps s k).region := by
    intro w m hinv hat hm
    have hch := hknows w hat
    obtain ⟨k, b, hk, hb, rfl⟩ := hinv.next_data hch.rounds hch.downTaken (fun k _ => by
      obtain ⟨b, rest, hmsgs, -⟩ := (snaps s k).messages_header
      rw [hmsgs]
      exact Nat.succ_pos _) hm
    obtain ⟨b', rest, hmsgs, hlen, hreads⟩ := (snaps s k).messages_header
    rw [hmsgs] at hb
    obtain rfl : b' = b := Option.some.inj hb
    exact ⟨k, b', hk, rfl, hlen, rest, hmsgs, hreads⟩
  refine client_op (fun _ _ => ClientAt.stable) ?_ ?_
  · intro w hinv hat m hm
    obtain ⟨k, b, -, rfl, hlen, -⟩ := hnext w m hinv hat hm
    exact ⟨rfl, hlen⟩
  · rintro w r w' hinv hat ⟨m, hm, rfl, rfl⟩
    obtain ⟨k, b, hk, rfl, -, hrest⟩ := hnext w m hinv hat hm
    have hping := hinv.dataAfterPing s c _ (List.mem_of_getElem? hm) rfl
    exact ⟨hinv.takeDown s c, k, hrest,
      hat.takeDown (fun _ => ⟨hk, hping, (hknows w hat).takeDown⟩)⟩

theorem recvData_triple (hblock : InBlock M N c s) {k got : ℕ} {b : Bytes}
    (hp : progress s = .reading k got) (hb : (snaps s k).messages[got]? = some b) :
    (outline M N snaps).Triple (.client c) (ClientAt M N snaps c R barriers progress)
      (ClientOp.recvFrom () .data b.length s)
      (fun r w => r = b ∧ ClientAt M N snaps c R barriers
        (Function.update progress s (.reading k (got + 1))) w) := by
  have hknows : ∀ w, ClientAt M N snaps c R barriers progress w →
      Knows snaps c R s (.reading k got) w := by
    intro w hat
    have hknows := hat.knows s hblock
    rwa [hp] at hknows
  have hnext : ∀ w m, Inv M N snaps w → ClientAt M N snaps c R barriers progress w →
      (w.down s c).next? = some m → m = ⟨.data, b, R⟩ := by
    intro w m hinv hat hm
    obtain ⟨hcall, -, hch⟩ := hknows w hat
    obtain ⟨k', b', hk', hb', rfl⟩ := hinv.next_data hch.rounds hch.downTaken (fun k' hk' => by
      rw [hcall, Option.some.injEq] at hk'
      rw [← hk']
      exact (List.getElem?_eq_some_iff.1 hb).1) hm
    rw [hcall, Option.some.injEq] at hk'
    subst hk'
    rw [hb, Option.some.injEq] at hb'
    rw [hb']
  refine client_op (fun _ _ => ClientAt.stable) ?_ ?_
  · intro w hinv hat m hm
    rw [hnext w m hinv hat hm]
    exact ⟨rfl, rfl⟩
  · rintro w r w' hinv hat ⟨m, hm, rfl, rfl⟩
    obtain ⟨hcall, hping, hch⟩ := hknows w hat
    obtain rfl := hnext w m hinv hat hm
    exact ⟨hinv.takeDown s c, rfl, hat.takeDown (fun _ => ⟨hcall, hping, hch.takeDown⟩)⟩

/-- Entering a barrier, the closing one with all replies of the round. -/
theorem arrive_triple
    (hpassed : ∀ w s, Inv M N snaps w → ClientAt M N snaps c R barriers progress w →
      InBlock M N c s → (w.arrived c + 1) / 2 ≤ w.rounds.length ∧
      (replies snaps s (w.rounds.take ((w.arrived c + 1) / 2))).length ≤ (w.down s c).taken ∧
      perRound s * ((w.arrived c + 1) / 2) ≤ (w.up c s).taken) :
    (outline M N snaps).Triple (.client c) (ClientAt M N snaps c R barriers progress)
      (Prog.op ClientOp.arrive) (fun _ => ClientAt M N snaps c R (barriers + 1) progress) := by
  refine client_op (fun _ _ => ClientAt.stable) (fun _ _ _ => trivial) ?_
  intro w r w' hinv hat hperform
  simp only [performClient] at hperform
  subst hperform
  refine ⟨hinv.arrive (fun s hblock => hpassed w s hinv hat hblock), ?_, hat.rounds, ?_, ?_⟩
  · simp only [Function.update_self, hat.arrived, Nat.add_assoc]
  · intro c' hc'
    have hle := hat.others c' hc'
    by_cases hself : c' = c
    · rw [hself] at hle
      simp only [hself, Function.update_self]
      exact hle.trans (Nat.le_succ _)
    · simp only [Function.update_of_ne hself]
      exact hle
  · exact fun s hblock =>
      (hat.knows s hblock).transfer (List.prefix_refl _) rfl rfl (le_refl _)

theorem barrier_triple :
    (outline M N snaps).Triple (.client c) (ClientAt M N snaps c R 0 progress)
      ClientOp.mpiBarrier (fun _ => ClientAt M N snaps c R 1 progress) := by
  refine Triple.bind (arrive_triple ?_) (fun _ => ?_)
  · intro w s hinv hat hblock
    have hround : (w.arrived c + 1) / 2 = w.arrived c / 2 := by
      have harrived := hat.arrived
      omega
    rw [hround]
    exact hinv.passed c s hblock
  · refine client_op (fun _ _ => ClientAt.stable) (fun _ _ _ => trivial) ?_
    rintro w r w' hinv hat ⟨-, rfl⟩
    exact ⟨hinv, hat⟩

/-- The barrier that closes a round: who passes it knows that every client rank has all of its
    regions. -/
theorem closing_triple (hroot : InBlock M N 0 0) :
    (outline M N snaps).Triple (.client c) (ClientAt M N snaps c R 1 (fun _ => .done))
      ClientOp.mpiBarrier
      (fun _ => ClientAt M N snaps c (R + 1) 0 (fun _ => .asking 0 0)) := by
  refine Triple.bind (arrive_triple ?_) (fun _ => ?_)
  · intro w s hinv hat hblock
    have hround : (w.arrived c + 1) / 2 = R + 1 := by
      have harrived := hat.arrived
      omega
    obtain ⟨hping, hch⟩ := hat.knows s hblock
    rw [hround]
    exact ⟨hch.rounds, hch.downTaken.ge, hping⟩
  · refine client_op (fun _ _ => ClientAt.stable) (fun _ _ _ => trivial) ?_
    rintro w r w' hinv hat ⟨hall, rfl⟩
    have hothers : ∀ c', c' < N → 2 * (R + 1) ≤ w'.arrived c' := by
      intro c' hc'
      have hle := hall c' hc'
      rw [hat.arrived] at hle
      omega
    refine ⟨hinv, by rw [hat.arrived]; omega, ?_, hothers, fun s hblock => (hat.knows s hblock).2⟩
    -- client rank 0 has been through the round, so its call has been announced
    have hzero := hothers 0 (Nat.zero_lt_of_lt c.isLt)
    have hpassed := (hinv.passed 0 0 hroot).1
    omega

theorem bcastQuit_triple {this : SimulationConnection Unit} (hquit : this.simQuit = 0) :
    (outline M N snaps).Triple (.client c) (ClientAt M N snaps c R barriers progress)
      (SimulationConnection.bcastQuit this)
      (fun this' w => this' = this ∧ ClientAt M N snaps c R barriers progress w) := by
  have hbcast : (outline M N snaps).Triple (.client c) (ClientAt M N snaps c R barriers progress)
      (ClientOp.mpiBcast (intBytes 0))
      (fun r w => r = intBytes 0 ∧ ClientAt M N snaps c R barriers progress w) := by
    refine client_op (fun _ _ => ClientAt.stable) (fun _ _ _ => trivial) ?_
    intro w r w' hinv hat hperform
    by_cases hc : (c : ℕ) = 0
    · obtain ⟨rfl, rfl⟩ : r = intBytes 0 ∧
          w' = { w with clientCast := w.clientCast ++ [intBytes 0] } := by
        simpa only [performClient, if_pos hc] using hperform
      exact ⟨hinv.castClient rfl, rfl, hat.clientCast rfl rfl rfl rfl⟩
    · obtain ⟨hr, rfl⟩ : w.clientCast[w.clientHeard c]? = some r ∧ w' = { w with
          clientHeard := Function.update w.clientHeard c (w.clientHeard c + 1) } := by
        simpa only [performClient, if_neg hc] using hperform
      exact ⟨{ hinv with }, hinv.quitCast r (List.mem_of_getElem? hr),
        hat.clientCast rfl rfl rfl rfl⟩
  rw [SimulationConnection.bcastQuit, hquit]
  refine Triple.bind hbcast (fun r => Triple.pure (fun hr => Triple.ret (fun w _ hat => ⟨?_, hat⟩)))
  rw [hr, intOfBytes_intBytes, ← hquit]

/-- Where a client rank is with its simulation ranks in the loop of `query`: those below `f` are
    done. -/
def visiting (R f s : ℕ) : Progress :=
  if s < f then .done else .asking (quits s R).length (quits s R).length

theorem visiting_done (R f : ℕ) : Function.update (visiting R f) f .done = visiting R (f + 1) := by
  funext s
  by_cases hs : s = f
  · rw [hs, Function.update_self, visiting, if_pos (Nat.lt_succ_self f)]
  · have hiff : s < f + 1 ↔ s < f := by omega
    rw [Function.update_of_ne hs, visiting, visiting]
    simp only [hiff]

/-- `sendCommand(QUERY)`: the reply is not to quit. -/
theorem sendCommand_triple (hroot : InBlock M N 0 0) {this : SimulationConnection Unit}
    (hthis : this.intercomm = some () ∧ this.simQuit = 0) :
    (outline M N snaps).Triple (.client c) (ClientAt M N snaps c R 0 (fun _ => .asking 0 0))
      (SimulationConnection.sendCommand c .query this)
      (fun this' w => (this'.intercomm = some () ∧ this'.simQuit = 0) ∧
        ClientAt M N snaps c R 1 (visiting R (firstRegion M N c)) w) := by
  -- on every channel of the rank, nothing has been sent or taken but on (0, 0)
  have hstart : ∀ s (progress : ℕ → Progress), InBlock M N c s →
      (∀ s, s ≠ 0 → progress s = .asking 0 0) →
      (InBlock M N c 0 → progress 0 = .asking 1 1) →
      progress s = visiting R (firstRegion M N c) s := by
    intro s progress hblock hne hzero
    rw [visiting, if_neg (not_lt.2 hblock.1)]
    by_cases hs : s = 0
    · subst hs
      exact hzero hblock
    · rw [hne s hs, quits, if_neg hs]
      rfl
  simp only [SimulationConnection.sendCommand]
  by_cases hc : (c : ℕ) = 0
  · have hblock : InBlock M N c 0 := hc ▸ hroot
    rw [if_pos hc]
    have hissue : (outline M N snaps).Triple (.client c)
        (ClientAt M N snaps c R 0 (fun _ => .asking 0 0))
        (SimulationConnection.issueCommand .query this)
        (fun simQuit w => simQuit = 0 ∧
          ClientAt M N snaps c R 0 (visiting R (firstRegion M N c)) w) := by
      simp only [SimulationConnection.issueCommand, hthis.1,
        if_neg (by decide : ¬ Command.query = .connect)]
      refine Triple.bind (send_triple hblock rfl (by norm_num) ?_) (fun _ => ?_)
      · rw [Nat.add_zero]
        exact upMessage_command c R
      refine Triple.bind (recvQuit_triple hblock (Function.update_self ..)) (fun r => ?_)
      refine Triple.pure (fun hr => Triple.ret (fun w _ hat => ⟨?_, hat.congr (fun s hs => ?_)⟩))
      · rw [hr]
        exact intOfBytes_intBytes 0
      · refine hstart s _ hs (fun s hne => ?_) (fun _ => Function.update_self ..)
        rw [Function.update_of_ne hne, Function.update_of_ne hne]
    refine Triple.bind hissue (fun simQuit => Triple.pure (fun hquit => ?_))
    refine Triple.bind barrier_triple (fun _ => ?_)
    refine Triple.conseq (bcastQuit_triple hquit) (fun _ _ h => h) ?_
    rintro this' w - ⟨rfl, hat⟩
    exact ⟨⟨hthis.1, hquit⟩, hat⟩
  · rw [if_neg hc]
    refine Triple.bind barrier_triple (fun _ => ?_)
    refine Triple.conseq (bcastQuit_triple hthis.2) (fun _ _ h => h) ?_
    rintro this' w - ⟨rfl, hat⟩
    refine ⟨hthis, hat.congr (fun s hs => ?_)⟩
    exact hstart s _ hs (fun _ _ => rfl) (fun hblock => absurd (hblock.unique hroot) hc)

/-- One region: it is the state of the call of this round. -/
theorem queryRegion_triple (hblock : InBlock M N c s) :
    (outline M N snaps).Triple (.client c) (ClientAt M N snaps c R 1 (visiting R s))
      (SimulationConnection.queryRegion c () s)
      (fun r w => (∃ k, w.rounds[R]? = some k ∧ r = (snaps s k).region) ∧
        ClientAt M N snaps c R 1 (visiting R (s + 1)) w) := by
  have hvisiting : visiting R s s = .asking (quits s R).length (quits s R).length :=
    if_neg (lt_irrefl s)
  refine Triple.bind (send_triple hblock hvisiting (by norm_num) (upMessage_ping c s R))
    (fun _ => ?_)
  rw [← perRound_eq, recvRegion, Receive.recv_bind, interp_vis]
  refine Triple.bind (recvHeader_triple hblock (Function.update_self ..)) (fun header => ?_)
  refine Triple.exists (fun k => Triple.pure ?_)
  rintro ⟨rest, hmsgs, hreads⟩
  -- the rest of the state, message by message
  have hrecv : ∀ j m, rest[j]? = some m → (outline M N snaps).Triple (.client c)
      (ClientAt M N snaps c R 1 (Function.update (visiting R s) s (.reading k (j + 1))))
      (SimulationConnection.recvRegionOp () s (.recv m.length))
      (fun r w => r = m ∧
        ClientAt M N snaps c R 1 (Function.update (visiting R s) s (.reading k (j + 1 + 1))) w) := by
    intro j m hj
    have hget : (snaps s k).messages[j + 1]? = some m := by
      rw [hmsgs, List.getElem?_cons_succ]
      exact hj
    refine Triple.conseq (recvData_triple hblock (Function.update_self ..) hget) (fun _ _ h => h) ?_
    intro r w _ h
    rwa [Function.update_idem] at h
  rw [Function.update_idem]
  refine Triple.conseq (Triple.reads hreads _ hrecv) (fun _ _ h => h) ?_
  rintro region w' - ⟨rfl, hat'⟩
  have hknows := hat'.knows s hblock
  have hlen : rest.length + 1 = (snaps s k).messages.length := by
    rw [hmsgs, List.length_cons]
  rw [Function.update_self, hlen] at hknows
  refine ⟨⟨k, hknows.1, rfl⟩, ?_⟩
  have hdone := hat'.move rfl rfl (fun _ _ => rfl) (fun _ _ => rfl) (fun _ => hknows.done)
  rwa [Function.update_idem, visiting_done] at hdone

/-- A client rank does not change what has been announced. -/
theorem performClient_rounds {o : ClientOp Unit} {r : o.Resp} {w w' : World}
    (h : performClient M N c o w r w') : w'.rounds = w.rounds := by
  cases o with
  | remoteSize | leave =>
      obtain ⟨-, rfl⟩ := h
      rfl
  | arrive | send =>
      simp only [performClient] at h
      subst h
      rfl
  | bcast buf =>
      simp only [performClient] at h
      split at h <;> obtain ⟨-, rfl⟩ := h <;> rfl
  | recv comm kind size rank =>
      obtain ⟨m, -, -, rfl⟩ := h
      rfl
  | _ => exact absurd h (by simp [performClient])

theorem Triple.announced {F : List ℕ → Prop} (hF : ∀ ks ks', ks <+: ks' → F ks → F ks') {α : Type}
    {pre : World → Prop} {p : ClientProg Unit α} {Q : α → World → Prop}
    (h : (outline M N snaps).Triple (.client c) pre p Q) :
    (outline M N snaps).Triple (.client c) (fun w => F w.rounds ∧ pre w) p
      (fun a w => F w.rounds ∧ Q a w) := by
  refine Triple.frame (fun w w' hw hrely _ => ?_) (fun o w r w' hw hperform => ?_) h
  · exact hF _ _ (ClientRely.rounds hrely) hw
  · rw [performClient_rounds hperform]
    exact hw

theorem queryRegions_triple (f n : ℕ) (hblock : ∀ s, f ≤ s → s < f + n → InBlock M N c s) :
    (outline M N snaps).Triple (.client c) (ClientAt M N snaps c R 1 (visiting R f))
      (SimulationConnection.queryRegions c () ((List.range' f n).map Int.ofNat))
      (fun rs w => List.Forall₂ (fun s r => ∃ k, w.rounds[R]? = some k ∧ r = (snaps s k).region)
          (List.range' f n) rs ∧
        ClientAt M N snaps c R 1 (visiting R (f + n)) w) := by
  induction n generalizing f with
  | zero => exact Triple.ret (fun w _ hat => ⟨.nil, hat⟩)
  | succ n ih =>
      rw [List.range'_succ, List.map_cons]
      have hrest := ih (f + 1) (fun s hle hlt => hblock s (by omega) (by omega))
      rw [Nat.add_right_comm f 1 n] at hrest
      refine Triple.bind (queryRegion_triple (hblock f (le_refl f) (by omega))) (fun r => ?_)
      have hkeep := Triple.announced (F := fun ks => ∃ k, ks[R]? = some k ∧ r = (snaps f k).region)
        (fun ks ks' hks ⟨k, hk, hr⟩ => ⟨k, hks.getElem?_eq_some hk, hr⟩) hrest
      refine Triple.bind hkeep (fun rs => ?_)
      exact Triple.ret (fun w _ ⟨hr, hrs, hat⟩ => ⟨.cons hr hrs, hat⟩)

/-- A round of `query()` returns the regions of the call that answered it. -/
theorem query_triple (hroot : InBlock M N 0 0) {this : SimulationConnection Unit}
    (hthis : this.intercomm = some () ∧ this.simQuit = 0) :
    (outline M N snaps).Triple (.client c) (ClientAt M N snaps c R 0 (fun _ => .asking 0 0))
      (SimulationConnection.query N c this)
      (fun p w => ((p.2.intercomm = some () ∧ p.2.simQuit = 0) ∧
        ∃ k, w.rounds[R]? = some k ∧ p.1 = roundRegions M N snaps c k) ∧
        ClientAt M N snaps c (R + 1) 0 (fun _ => .asking 0 0) w) := by
  simp only [SimulationConnection.query]
  refine Triple.bind (sendCommand_triple hroot hthis) (fun this => Triple.pure (fun hthis => ?_))
  obtain ⟨intercomm, simQuit, myPortName⟩ := this
  obtain ⟨rfl, rfl⟩ : intercomm = some () ∧ simQuit = 0 := hthis
  simp only [ne_eq, not_true_eq_false, if_false]
  -- the number of simulation ranks
  have hsize : (outline M N snaps).Triple (.client c)
      (ClientAt M N snaps c R 1 (visiting R (firstRegion M N c))) (ClientOp.commRemoteSize ())
      (fun r w => r = M ∧ ClientAt M N snaps c R 1 (visiting R (firstRegion M N c)) w) := by
    refine client_op (fun _ _ => ClientAt.stable) (fun _ _ _ => trivial) ?_
    rintro w r w' hinv hat ⟨rfl, rfl⟩
    exact ⟨hinv, rfl, hat⟩
  refine Triple.bind hsize (fun size => Triple.pure (fun hM => ?_))
  have hlist : queriedRegions size N c =
      (List.range' (firstRegion M N c) (numRegions M N c)).map Int.ofNat := by
    rw [hM, queriedRegions_natCast, List.range'_eq_map_range]
  rw [hlist]
  refine Triple.bind (queryRegions_triple _ _ (fun s hle hlt => ⟨hle, hlt⟩)) (fun rs => ?_)
  have hdone : (outline M N snaps).Triple (.client c)
      (ClientAt M N snaps c R 1 (visiting R (firstRegion M N c + numRegions M N c)))
      ClientOp.mpiBarrier
      (fun _ => ClientAt M N snaps c (R + 1) 0 (fun _ => .asking 0 0)) := by
    refine Triple.conseq (closing_triple hroot) (fun w _ hat => ?_) (fun _ _ _ h => h)
    exact hat.congr (fun s hs => if_pos hs.2)
  have hframe : ∀ ks ks' : List ℕ, ks <+: ks' →
      List.Forall₂ (fun s r => ∃ k, ks[R]? = some k ∧ r = (snaps s k).region)
        (List.range' (firstRegion M N c) (numRegions M N c)) rs →
      List.Forall₂ (fun s r => ∃ k, ks'[R]? = some k ∧ r = (snaps s k).region)
        (List.range' (firstRegion M N c) (numRegions M N c)) rs := by
    intro ks ks' hks hrs
    exact hrs.imp (fun s r ⟨k, hk, hr⟩ => ⟨k, hks.getElem?_eq_some hk, hr⟩)
  refine Triple.bind (Triple.announced hframe hdone) (fun _ => Triple.ret ?_)
  rintro w - ⟨hrs, hat⟩
  -- the closing barrier has been passed, so the call of the round is known
  obtain ⟨k, hk⟩ : ∃ k, w.rounds[R]? = some k := ⟨_, List.getElem?_eq_getElem hat.rounds⟩
  refine ⟨⟨⟨rfl, rfl⟩, k, hk, ?_⟩, hat⟩
  have hmap : List.Forall₂ (fun s r => r = (snaps s k).region)
      (List.range' (firstRegion M N c) (numRegions M N c)) rs := by
    refine hrs.imp (fun s r ⟨k', hk', hr⟩ => ?_)
    rw [hk, Option.some.injEq] at hk'
    rw [hr, hk']
  rw [roundRegions, ← List.range'_eq_map_range]
  rw [← List.forall₂_eq_eq_eq, List.forall₂_map_right_iff]
  exact hmap.flip

end Query

end QueryRound

end LibIS
