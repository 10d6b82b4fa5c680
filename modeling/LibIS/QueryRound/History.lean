import LibIS.QueryRound.System

set_option autoImplicit false

/-! # Rounds of queries: histories

What the ranks have sent so far is a function of the history of `process()` calls: rank 0 broadcasts
one flag for each call and a command after each flag that is set, and a simulation rank replies once
in each call that answers a query. The calls are read back from the broadcasts (`castCalls`). -/

open ByteCodec

namespace LibIS

namespace QueryRound

/-! ## The broadcasts of rank 0 -/

/-- What rank 0 broadcasts in a call. -/
def castOf : Branch → List Bytes
  | .query => [intBytes 1, intBytes Command.query.toInt32]
  | _ => [intBytes 0]

/-- What rank 0 broadcasts in the given calls. -/
def castsOf (calls : List Branch) : List Bytes :=
  calls.flatMap castOf

/-- The calls that broadcasts belong to, the last of which may be under way. -/
def castCalls : List Bytes → List Branch
  | [] => []
  | [flag] => if intOfBytes flag = 0 then [.idle] else [.query]
  | flag :: cmd :: buf =>
      if intOfBytes flag = 0 then .idle :: castCalls (cmd :: buf) else .query :: castCalls buf

/-- Calls that found no command or a query. -/
def Polled (calls : List Branch) : Prop :=
  ∀ b ∈ calls, b = .idle ∨ b = .query

/-- The broadcasts of such calls, the last of which may be under way. -/
inductive Casts : List Bytes → Prop
  | nil : Casts []
  | flag : Casts [intBytes 1]
  | idle {buf : List Bytes} : Casts buf → Casts (intBytes 0 :: buf)
  | query {buf : List Bytes} :
      Casts buf → Casts (intBytes 1 :: intBytes Command.query.toInt32 :: buf)

@[simp] theorem castsOf_nil : castsOf [] = [] := rfl

@[simp] theorem castsOf_append (calls calls' : List Branch) :
    castsOf (calls ++ calls') = castsOf calls ++ castsOf calls' :=
  List.flatMap_append

theorem Polled.nil : Polled [] := by
  intro b hb
  exact absurd hb (by simp)

theorem Polled.concat {calls : List Branch} (h : Polled calls) {b : Branch}
    (hb : b = .idle ∨ b = .query) : Polled (calls ++ [b]) := by
  intro b' hb'
  rcases List.mem_append.1 hb' with hb' | hb'
  · exact h b' hb'
  · rw [List.mem_singleton.1 hb']
    exact hb

theorem Casts.append {calls : List Branch} (h : Polled calls) {buf : List Bytes}
    (hbuf : Casts buf) : Casts (castsOf calls ++ buf) := by
  induction calls with
  | nil => exact hbuf
  | cons b calls ih =>
      have hrest := ih (fun b' hb' => h b' (List.mem_cons_of_mem _ hb'))
      rcases h b (List.mem_cons_self ..) with rfl | rfl
      · exact .idle hrest
      · exact .query hrest

theorem Casts.of_append {calls : List Branch} (h : Polled calls) {buf : List Bytes}
    (hcasts : Casts (castsOf calls ++ buf)) : Casts buf := by
  induction calls with
  | nil => exact hcasts
  | cons b calls ih =>
      refine ih (fun b' hb' => h b' (List.mem_cons_of_mem _ hb')) ?_
      rcases h b (List.mem_cons_self ..) with rfl | rfl
      · change Casts (intBytes 0 :: (castsOf calls ++ buf)) at hcasts
        cases hcasts with
        | idle hrest => exact hrest
      · change Casts (intBytes 1 :: intBytes Command.query.toInt32 :: (castsOf calls ++ buf))
          at hcasts
        cases hcasts with
        | query hrest => exact hrest

/-- A broadcast that opens a call is a flag. -/
theorem Casts.head {b : Bytes} {buf : List Bytes} (h : Casts (b :: buf)) :
    b = intBytes 0 ∨ b = intBytes 1 := by
  cases h with
  | flag => exact .inr rfl
  | idle _ => exact .inl rfl
  | query _ => exact .inr rfl

/-- What follows a set flag is the command. -/
theorem Casts.second {b : Bytes} {buf : List Bytes} (h : Casts (intBytes 1 :: b :: buf)) :
    b = intBytes Command.query.toInt32 := by
  cases h with
  | query _ => rfl

theorem castCalls_append {calls : List Branch} (h : Polled calls) (buf : List Bytes) :
    castCalls (castsOf calls ++ buf) = calls ++ castCalls buf := by
  induction calls with
  | nil => rfl
  | cons b calls ih =>
      have hrest := ih (fun b' hb' => h b' (List.mem_cons_of_mem _ hb'))
      rcases h b (List.mem_cons_self ..) with rfl | rfl
      · change castCalls (intBytes 0 :: (castsOf calls ++ buf)) = .idle :: (calls ++ castCalls buf)
        rw [← hrest]
        cases castsOf calls ++ buf <;> rfl
      · change castCalls (intBytes 1 :: intBytes _ :: (castsOf calls ++ buf)) = _
        rw [List.cons_append, ← hrest]
        rfl

theorem castCalls_castsOf {calls : List Branch} (h : Polled calls) :
    castCalls (castsOf calls) = calls := by
  simpa [castCalls] using castCalls_append h []

theorem castCalls_grow {buf buf' : List Bytes} (h : buf <+: buf') :
    castCalls buf <+: castCalls buf' := by
  induction buf using castCalls.induct generalizing buf' with
  | case1 => exact List.nil_prefix
  | case2 flag hzero =>
      obtain ⟨t, rfl⟩ := h
      cases t with
      | nil => exact List.prefix_refl _
      | cons b t => simp [castCalls, hzero]
  | case3 flag hzero =>
      obtain ⟨t, rfl⟩ := h
      cases t with
      | nil => exact List.prefix_refl _
      | cons b t => simp [castCalls, hzero]
  | case4 flag cmd buf hzero ih =>
      obtain ⟨t, rfl⟩ := h
      have hrest := ih (List.prefix_append (cmd :: buf) t)
      simpa [castCalls, hzero] using hrest
  | case5 flag cmd buf hzero ih =>
      obtain ⟨t, rfl⟩ := h
      have hrest := ih (List.prefix_append buf t)
      simpa [castCalls, hzero] using hrest

theorem le_castCalls {calls : List Branch} (h : Polled calls) {buf : List Bytes}
    (hbuf : castsOf calls <+: buf) : calls <+: castCalls buf := by
  rw [← castCalls_castsOf h]
  exact castCalls_grow hbuf

/-! ## The calls that answer a query -/

/-- The numbers of the calls that answer a query. -/
def queryCalls (calls : List Branch) : List ℕ :=
  (List.range calls.length).filter (fun k => calls[k]? = some .query)

@[simp] theorem queryCalls_nil : queryCalls [] = [] := rfl

theorem queryCalls_concat (calls : List Branch) (b : Branch) :
    queryCalls (calls ++ [b]) = queryCalls calls ++ if b = .query then [calls.length] else [] := by
  have hold : (List.range calls.length).filter (fun k => (calls ++ [b])[k]? = some .query) =
      queryCalls calls := by
    refine List.filter_congr (fun k hk => ?_)
    rw [List.getElem?_append_left (List.mem_range.1 hk)]
  rw [queryCalls, List.length_append, List.length_singleton, List.range_succ, List.filter_append,
    hold]
  by_cases hb : b = .query <;> simp [hb]

theorem queryCalls_grow {calls calls' : List Branch} (h : calls <+: calls') :
    queryCalls calls <+: queryCalls calls' := by
  obtain ⟨t, rfl⟩ := h
  induction t using List.reverseRecOn with
  | nil => rw [List.append_nil]
  | append_singleton t b ih =>
      rw [← List.append_assoc, queryCalls_concat]
      exact ih.trans (List.prefix_append _ _)

theorem queryCalls_sorted (calls : List Branch) : (queryCalls calls).Pairwise (· < ·) :=
  List.Pairwise.filter _ List.pairwise_lt_range

/-! ## What the ranks send -/

/-- The quit flag with which rank 0 answers the command of round `r`. -/
def quits (s r : ℕ) : List Message :=
  if s = 0 then [⟨.quit, intBytes 0, r⟩] else []

/-- The number of messages a simulation rank takes in a round: its ping, and on rank 0 the command.
    -/
def perRound (s : ℕ) : ℕ :=
  if s = 0 then 2 else 1

/-- What client rank `c` sends simulation rank `s`: in each round a ping, before it on channel (0,
    0) the command. -/
def upMessage (c s i : ℕ) : Message :=
  if s = 0 ∧ i % 2 = 0 then ⟨.command, intBytes Command.query.toInt32, i / perRound s⟩
  else ⟨.ping, intBytes (Int32.ofNat c), i / perRound s⟩

theorem perRound_eq (s r : ℕ) : perRound s = (quits s r).length + 1 := by
  unfold perRound quits
  split <;> rfl

theorem perRound_pos (s : ℕ) : 0 < perRound s := by
  rw [perRound_eq s 0]
  exact Nat.succ_pos _

theorem upMessage_command (c r : ℕ) :
    upMessage c 0 (perRound 0 * r) = ⟨.command, intBytes Command.query.toInt32, r⟩ := by
  have heven : 2 * r % 2 = 0 := Nat.mul_mod_right 2 r
  have hhalf : 2 * r / 2 = r := Nat.mul_div_cancel_left r (by norm_num)
  simp [upMessage, perRound, heven, hhalf]

theorem upMessage_ping (c s r : ℕ) :
    upMessage c s (perRound s * r + (quits s r).length) =
      ⟨.ping, intBytes (Int32.ofNat c), r⟩ := by
  unfold upMessage perRound quits
  by_cases hs : s = 0
  · have hhalf : (2 * r + 1) / 2 = r := by omega
    simp [hs, hhalf]
  · simp [hs]

theorem upMessage_round (c s i : ℕ) : (upMessage c s i).round = i / perRound s := by
  unfold upMessage
  split <;> rfl

/-- Of the messages of the first rounds, one in each is a ping. -/
theorem pings_rounds (c s n : ℕ) :
    (((List.range (perRound s * n)).map (upMessage c s)).filter (fun m => m.kind = .ping)).map
      Message.round = List.range n := by
  induction n with
  | zero => rfl
  | succ n ih =>
      have hping : upMessage c s (perRound s * n + (quits s n).length) =
          ⟨.ping, intBytes (Int32.ofNat c), n⟩ := upMessage_ping c s n
      have hlast : (((List.range (perRound s)).map (fun i => upMessage c s (perRound s * n + i))).filter
          (fun m => m.kind = .ping)).map Message.round = [n] := by
        by_cases hs : s = 0
        · subst hs
          have hcommand := upMessage_command c n
          simp only [perRound, quits, if_true, List.length_singleton] at hping hcommand ⊢
          simp [List.range_succ, hping, hcommand]
        · simp only [perRound, quits, if_neg hs, List.length_nil, Nat.add_zero, one_mul] at hping ⊢
          simp [List.range_succ, hping]
      rw [Nat.mul_succ, List.range_add, List.map_append, List.filter_append, List.map_append, ih,
        List.range_succ, ← hlast, List.map_map]
      rfl

section Replies

variable (snaps : Snapshots)

/-- The reply of simulation rank `s` in round `r`, in its call number `k`. -/
def reply (s k r : ℕ) : List Message :=
  quits s r ++ (snaps s k).messages.map (fun m => ⟨.data, m, r⟩)

/-- Its replies when its calls `ks` answer queries. -/
def replies (s : ℕ) (ks : List ℕ) : List Message :=
  ks.zipIdx.flatMap (fun p => reply snaps s p.1 p.2)

@[simp] theorem replies_nil (s : ℕ) : replies snaps s [] = [] := rfl

theorem replies_concat (s k : ℕ) (ks : List ℕ) :
    replies snaps s (ks ++ [k]) = replies snaps s ks ++ reply snaps s k ks.length := by
  simp [replies, List.zipIdx_append]

theorem replies_grow (s : ℕ) {ks ks' : List ℕ} (h : ks <+: ks') :
    replies snaps s ks <+: replies snaps s ks' := by
  obtain ⟨t, rfl⟩ := h
  rw [replies, replies, List.zipIdx_append, List.flatMap_append]
  exact List.prefix_append _ _

theorem replies_split (s : ℕ) {ks : List ℕ} {r k : ℕ} (hk : ks[r]? = some k) :
    replies snaps s (ks.take r) ++ reply snaps s k r <+: replies snaps s ks := by
  obtain ⟨hr, hget⟩ := List.getElem?_eq_some_iff.1 hk
  have hlen : (ks.take r).length = r := List.length_take_of_le hr.le
  have htake : ks.take (r + 1) = ks.take r ++ [k] := by
    rw [List.take_succ_eq_append_getElem hr, hget]
  have hconcat := replies_concat snaps s k (ks.take r)
  rw [hlen, ← htake] at hconcat
  rw [← hconcat]
  exact replies_grow snaps s (List.take_prefix _ _)

/-- The reply of a round may start before the call is known: with the quit flag. -/
theorem replies_quits_grow (s : ℕ) {ks ks' : List ℕ} (h : ks <+: ks') :
    replies snaps s ks ++ quits s ks.length <+: replies snaps s ks' ++ quits s ks'.length := by
  obtain ⟨t, rfl⟩ := h
  cases t with
  | nil => rw [List.append_nil]
  | cons k t =>
      have hk : (ks ++ k :: t)[ks.length]? = some k := by simp
      have hsplit := replies_split snaps s hk
      rw [List.take_left, reply, ← List.append_assoc] at hsplit
      exact ((List.prefix_append _ _).trans hsplit).trans (List.prefix_append _ _)

/-- Apart from the quit flags the replies are the states. -/
theorem replies_data (s : ℕ) (ks : List ℕ) :
    (replies snaps s ks).filter (fun m => m.kind = .data) =
      ks.zipIdx.flatMap (fun p => (snaps s p.1).messages.map (fun m => ⟨.data, m, p.2⟩)) := by
  rw [replies, List.filter_flatMap]
  refine List.flatMap_congr (fun p _ => ?_)
  have hquits : (quits s p.2).filter (fun m => m.kind = .data) = [] := by
    unfold quits
    split <;> rfl
  rw [reply, List.filter_append, hquits, List.nil_append, List.filter_eq_self]
  intro m hm
  obtain ⟨b, -, rfl⟩ := List.mem_map.1 hm
  rfl

/-- The replies of the rounds before `n` make up the part of the replies that ends there. -/
theorem round_le_of_mem_drop (s : ℕ) (ks : List ℕ) (n : ℕ) {m : Message}
    (hm : m ∈ (replies snaps s ks ++ quits s ks.length).drop
      (replies snaps s (ks.take n)).length) (hn : n ≤ ks.length) : n ≤ m.round := by
  have hquits : ∀ r, ∀ m ∈ quits s r, m.round = r := by
    intro r m hm
    unfold quits at hm
    split at hm
    · rw [List.mem_singleton.1 hm]
    · exact absurd hm (by simp)
  have hsplit : replies snaps s ks = replies snaps s (ks.take n) ++
      ((ks.drop n).zipIdx (ks.take n).length).flatMap (fun p => reply snaps s p.1 p.2) := by
    conv_lhs => rw [← List.take_append_drop n ks]
    rw [replies, List.zipIdx_append, List.flatMap_append, Nat.zero_add]
    rfl
  rw [hsplit, List.append_assoc, List.drop_left, List.length_take_of_le hn] at hm
  rcases List.mem_append.1 hm with hm | hm
  · obtain ⟨⟨k, r⟩, hr, hm⟩ := List.mem_flatMap.1 hm
    have hle : n ≤ r := List.le_snd_of_mem_zipIdx hr
    rcases List.mem_append.1 hm with hm | hm
    · rw [hquits r m hm]
      exact hle
    · obtain ⟨b, -, rfl⟩ := List.mem_map.1 hm
      exact hle
  · rw [hquits _ m hm]
    exact hn

end Replies

end QueryRound

end LibIS
