import LibIS.QueryRound.WaitingSims

set_option autoImplicit false

/-! # Rounds of queries: what is in flight

Where a client rank does not wait for a simulation rank, nothing is in flight from the one to the
other (`Quiet.nothing_down`), and a simulation rank that answers a query has sent all of its state
(`SimAt.answered`). The number of calls of `process()` is bounded by what rank 0 has found. -/

open ByteCodec Prog ThreadSystem Proof

namespace LibIS

theorem Channel.next_none_iff {α : Type} {c : Channel α} :
    c.next? = none ↔ c.sent.length ≤ c.taken :=
  List.getElem?_eq_none_iff

theorem Channel.pending_of_next_none {α : Type} {c : Channel α} (h : c.next? = none) :
    c.pending = [] :=
  List.drop_eq_nil_of_le (Channel.next_none_iff.1 h)

theorem Channel.next_none_of_pending_le {α : Type} {c : Channel α} (h : c.pending.length ≤ 0) :
    c.next? = none := by
  rw [Channel.pending, List.length_drop] at h
  exact Channel.next_none_iff.2 (Nat.sub_eq_zero_iff_le.1 (Nat.le_zero.1 h))

theorem Channel.mem_pending_of_next {α : Type} {c : Channel α} {a : α} (h : c.next? = some a) :
    a ∈ c.pending := by
  refine List.mem_of_getElem? (i := 0) ?_
  rw [Channel.pending, List.getElem?_drop, Nat.add_zero]
  exact h

namespace QueryRound

variable {M N : ℕ} {snaps : Snapshots} {T B K : ℕ} {w : World}

/-! ## The calls that have been announced -/

/-- What is read back from broadcasts are calls that found no command or a query. -/
theorem polled_castCalls (buf : List Bytes) : Polled (castCalls buf) := by
  induction buf using castCalls.induct with
  | case1 => exact Polled.nil
  | case2 flag hzero =>
      rw [castCalls, if_pos hzero]
      exact Polled.nil.concat (.inl rfl)
  | case3 flag hzero =>
      rw [castCalls, if_neg hzero]
      exact Polled.nil.concat (.inr rfl)
  | case4 flag cmd buf hzero ih =>
      rw [castCalls, if_pos hzero]
      intro b hb
      rcases List.mem_cons.1 hb with rfl | hb
      · exact .inl rfl
      · exact ih b hb
  | case5 flag cmd buf hzero ih =>
      rw [castCalls, if_neg hzero]
      intro b hb
      rcases List.mem_cons.1 hb with rfl | hb
      · exact .inr rfl
      · exact ih b hb

/-- A call has found no command or answers a query. -/
theorem Polled.length_eq {calls : List Branch} (h : Polled calls) :
    calls.length = calls.count .idle + (queryCalls calls).length := by
  induction calls using List.reverseRecOn with
  | nil => rfl
  | append_singleton calls b ih =>
      have hrest := ih (fun b' hb' => h b' (List.mem_append_left _ hb'))
      rw [queryCalls_concat, List.length_append, List.length_append, List.count_append, hrest]
      rcases h b (List.mem_append_right _ (List.mem_singleton_self b)) with rfl | rfl
      · rw [if_neg (by decide)]
        simp
        omega
      · rw [if_pos rfl]
        simp
        omega

theorem castsOf_ne_flag {calls calls' : List Branch} (h : Polled calls) (h' : Polled calls') :
    castsOf calls' ≠ castsOf calls ++ [intBytes 1] := by
  intro heq
  have hcalls : calls' = calls ++ [.query] := by
    rw [← castCalls_castsOf h', heq, castCalls_append h, castCalls_flag]
  have hlen := congrArg List.length heq
  rw [hcalls, castsOf_append, List.length_append, List.length_append] at hlen
  have htwo : (castsOf [.query]).length = 2 := rfl
  rw [htwo, List.length_singleton] at hlen
  omega

/-! ## A simulation rank -/

section Sim

variable {s c : ℕ} {calls : List Branch} {cast : List Bytes} {out : List Message} {took : ℕ}

/-- A message of the replies to some queries is of one of their rounds. -/
theorem round_lt_of_mem_replies {ks : List ℕ} {m : Message} (hm : m ∈ replies snaps s ks) :
    m.round < ks.length := by
  obtain ⟨⟨k, r⟩, hr, hm⟩ := List.mem_flatMap.1 hm
  have hlt : r < ks.length := List.snd_lt_of_mem_zipIdx hr
  rcases List.mem_append.1 hm with hm | hm
  · unfold quits at hm
    split at hm
    · rw [List.mem_singleton.1 hm]
      exact hlt
    · exact absurd hm (List.not_mem_nil)
  · obtain ⟨b, -, rfl⟩ := List.mem_map.1 hm
    exact hlt

/-- What a simulation rank sends in a round, it sends when it has taken a message of the round. -/
theorem Working.taken_of_mem (h : Working M N snaps s w) (hblock : InBlock M N c s) {m : Message}
    (hm : m ∈ (w.down s c).sent) : perRound s * m.round < (w.up c s).taken := by
  obtain ⟨calls, cast, out, took, hat, hout⟩ := h
  rw [hat.up c hblock]
  rw [hat.down c hblock] at hm
  rcases List.mem_append.1 hm with hm | hm
  · have hlt := Nat.mul_lt_mul_of_pos_left (round_lt_of_mem_replies hm) (perRound_pos s)
    omega
  · obtain ⟨hround, hpos⟩ := hout m hm
    rw [hround]
    omega

theorem SimAt.calls_grow (h : SimAt M N snaps s calls cast out took w) :
    calls <+: castCalls w.simCast :=
  le_castCalls h.polled ((List.prefix_append _ _).trans h.simCast)

/-- A simulation rank that has answered more than `r` queries has sent the replies of round `r`. -/
theorem SimAt.answered (h : SimAt M N snaps s calls cast out took w) (hblock : InBlock M N c s)
    {r : ℕ} (hr : r ≤ (queryCalls calls).length) :
    (replies snaps s (w.rounds.take r)).length ≤ (w.down s c).sent.length := by
  have hgrow : queryCalls calls <+: w.rounds := queryCalls_grow h.calls_grow
  have hreplies := (replies_grow snaps s (List.take_prefix r (queryCalls calls))).length_le
  rw [h.down c hblock, hgrow.take_eq hr, List.length_append]
  omega

/-- The reply of a round begins with the quit flag, if any, and goes on with the state. -/
theorem replies_length_succ {k r : ℕ} (hk : w.rounds[r]? = some k) :
    (replies snaps s (w.rounds.take (r + 1))).length =
      (replies snaps s (w.rounds.take r)).length + (quits s r).length +
        (snaps s k).messages.length := by
  obtain ⟨hlt, hget⟩ := List.getElem?_eq_some_iff.1 hk
  rw [List.take_succ_eq_append_getElem hlt, hget, replies_concat, List.length_take_of_le hlt.le,
    reply, List.length_append, List.length_append, List.length_map, Nat.add_assoc]

end Sim

/-! ## A client rank -/

section Client

variable {c s r barriers size : ℕ} {progress : ℕ → Progress}

/-- At the start of a round nothing is in flight to a client rank. -/
theorem ChannelAt.nothing_down (hinv : Inv M N snaps w) (hworking : Working M N snaps s w)
    (hblock : InBlock M N c s) (h : ChannelAt snaps c s r 0 0 w) : (w.down s c).next? = none := by
  by_contra hsome
  obtain ⟨m, hm⟩ := Option.ne_none_iff_exists'.1 hsome
  have hround : r ≤ m.round := by
    refine round_le_of_mem_drop snaps s w.rounds r ?_ h.rounds
    refine Channel.mem_drop_of_mem_pending (hinv.downReplies s c) ?_ (Channel.mem_pending_of_next hm)
    exact h.downTaken.ge
  -- it would be sent in this round, in which the client rank has sent nothing
  have htaken := hworking.taken_of_mem hblock (List.mem_of_getElem? hm)
  have hle := Nat.mul_le_mul_left (perRound s) hround
  have hsent := h.upSent
  have hup := hinv.upTaken c s
  omega

/-- Where a client rank does not wait for a simulation rank, nothing is in flight from there. -/
theorem Quiet.nothing_down (hinv : Inv M N snaps w) (hworking : Working M N snaps s w)
    (hblock : InBlock M N c s) {p : Progress} (hquiet : Quiet r s p)
    (hknows : Knows snaps c r s p w) : (w.down s c).next? = none := by
  rcases hquiet with rfl | rfl | rfl
  · exact ChannelAt.nothing_down hinv hworking hblock hknows
  · by_contra hsome
    obtain ⟨m, hm⟩ := Option.ne_none_iff_exists'.1 hsome
    have hat : ChannelAt snaps c s r (quits s r).length ((quits s r).length + 0) w := hknows
    obtain ⟨k, b, -, -, rfl⟩ := hinv.next_data hat.rounds hat.downTaken (fun k _ => by
      obtain ⟨b, rest, hmsgs, -⟩ := (snaps s k).messages_header
      rw [hmsgs]
      exact Nat.succ_pos _) hm
    -- a state is sent after its ping, which the client rank has not sent
    have hping : perRound s * (r + 1) ≤ (w.up c s).taken :=
      hinv.dataAfterPing s c _ (List.mem_of_getElem? hm) rfl
    have hsent := hat.upSent
    have hup := hinv.upTaken c s
    have hperRound := perRound_eq s r
    rw [Nat.mul_succ] at hping
    omega
  · exact ChannelAt.nothing_down hinv hworking hblock hknows.2

/-- Nor is anything in flight the other way, unless it is on the channel of the commands. -/
theorem Quiet.nothing_up (hinv : Inv M N snaps w) (hblock : InBlock M N c s) (hs : s ≠ 0)
    {p : Progress} (hquiet : Quiet r s p) (hknows : Knows snaps c r s p w)
    (harrived : 2 * r ≤ w.arrived c) : (w.up c s).next? = none := by
  have hquits : (quits s r).length = 0 := by
    rw [quits, if_neg hs]
    rfl
  have hpassed : perRound s * r ≤ (w.up c s).taken := by
    have hle := (hinv.passed c s hblock).2.2
    have hround : r ≤ w.arrived c / 2 := by omega
    exact (Nat.mul_le_mul_left _ hround).trans hle
  rw [Channel.next_none_iff]
  rcases hquiet with rfl | rfl | rfl
  · have hsent := (show ChannelAt snaps c s r 0 0 w from hknows).upSent
    omega
  · have hat : ChannelAt snaps c s r (quits s r).length (quits s r).length w := hknows
    have hsent := hat.upSent
    omega
  · have hsent := hknows.2.upSent
    have htaken := hknows.1
    omega

/-- What a client rank that waits for a part of a state knows of the channel. -/
theorem Reading.channel {p : Progress} (hreading : Reading snaps r s size p)
    (hknows : Knows snaps c r s p w) :
    ∃ got, ChannelAt snaps c s r (perRound s) ((quits s r).length + got) w ∧
      ∀ k, w.rounds[r]? = some k → got < (snaps s k).messages.length := by
  rcases hreading with ⟨-, rfl⟩ | ⟨k, got, rfl, hgot⟩
  · refine ⟨0, hknows, fun k _ => ?_⟩
    obtain ⟨b, rest, hmsgs, -⟩ := (snaps s k).messages_header
    rw [hmsgs]
    exact Nat.succ_pos _
  · refine ⟨got, hknows.2.2, fun k' hk' => ?_⟩
    rw [hknows.1] at hk'
    rw [← Option.some.inj hk']
    exact hgot

/-- What comes then is a part of the state, so the ping has been taken. -/
theorem Reading.taken (hinv : Inv M N snaps w) {p : Progress} (hreading : Reading snaps r s size p)
    (hknows : Knows snaps c r s p w) (hsome : (w.down s c).next? ≠ none) :
    (w.up c s).next? = none := by
  obtain ⟨got, hat, hgot⟩ := hreading.channel hknows
  obtain ⟨m, hm⟩ := Option.ne_none_iff_exists'.1 hsome
  obtain ⟨k, b, -, -, rfl⟩ := hinv.next_data hat.rounds hat.downTaken hgot hm
  have hping : perRound s * (r + 1) ≤ (w.up c s).taken :=
    hinv.dataAfterPing s c _ (List.mem_of_getElem? hm) rfl
  rw [Channel.next_none_iff, hat.upSent]
  rwa [Nat.mul_succ] at hping

theorem Reading.less {p : Progress} (hreading : Reading snaps r s size p)
    (hknows : Knows snaps c r s p w) (hrounds : r < w.rounds.length) :
    (w.down s c).taken < (replies snaps s (w.rounds.take (r + 1))).length := by
  obtain ⟨got, hat, hgot⟩ := hreading.channel hknows
  obtain ⟨k, hk⟩ : ∃ k, w.rounds[r]? = some k := ⟨_, List.getElem?_eq_getElem hrounds⟩
  have hlt := hgot k hk
  rw [hat.downTaken, replies_length_succ hk]
  omega

end Client

end QueryRound

end LibIS
