import LibIS.QueryRound.Completion

set_option autoImplicit false

/-! # Rounds of queries: messages that need not be waited for

A run of the rounds of queries is a run of patient ranks, as patient as it takes
(`exists_patiently`), so what is known of these holds of any run. If rank 0 does not poll for ever,
it does not go on for ever either, though its messages may pile up (`acc_start`). And it tells which
messages a receiver waits for. Only a part of a state may be empty, and it has been sent when its
client comes to receive it: unless the simulation rank is still sending (`empty_sent`). -/

open ByteCodec Prog ThreadSystem Proof

namespace LibIS

namespace QueryRound

variable {X : Setup}

/-! ## Runs of ranks that are patient enough -/

/-- The same ranks, with other bounds. -/
def Setup.within (X : Setup) (T B K : ℕ) : Setup :=
  { X with
    rounds := T
    capacity := B
    vain := K }

theorem patientPoll_mono {K K' : ℕ} (hK : K ≤ K') {o : SimOp Unit} {w : World} {r : o.Resp}
    (h : patientPoll K o w r) : patientPoll K' o w r := by
  cases o with
  | probe comm rank => exact h.imp_right (fun hlt => Nat.lt_of_lt_of_le hlt hK)
  | _ => trivial

theorem Patient.mono {M N : ℕ} {snaps : Snapshots} {B K B' K' : ℕ} (hB : B ≤ B') (hK : K ≤ K')
    {p : Party M N} {o : (system M N snaps).Op p} {w : World} {r : (system M N snaps).Resp p o}
    (h : Patient M N snaps B K p o w r) : Patient M N snaps B' K' p o w r := by
  cases p with
  | sim s => exact ⟨fun c => (h.1 c).trans hB, patientPoll_mono hK h.2⟩
  | client c => exact fun s => (h s).trans hB

theorem Patiently.mono {T B K T' B' K' : ℕ} (hT : T ≤ T') (hB : B ≤ B') (hK : K ≤ K')
    {cfg : (patient (X.within T B K)).Config} (h : Patiently (X.within T B K) cfg) :
    Patiently (X.within T' B' K') ⟨cfg.shared, cfg.control⟩ := by
  refine ⟨Advances.mono (fun p o w r => Patient.mono hB hK) ?_ h.reached⟩
  rintro (s | c) l hfinal
  · exact hfinal
  · exact hT.trans hfinal

theorem exists_bound {n : ℕ} (f : ℕ → ℕ) (hf : ∀ i, n ≤ i → f i = 0) : ∃ b, ∀ i, f i ≤ b := by
  refine ⟨(Finset.range n).sup f, fun i => ?_⟩
  by_cases hi : i < n
  · exact Finset.le_sup (Finset.mem_range.2 hi)
  · rw [hf i (not_lt.1 hi)]
    exact Nat.zero_le _

theorem Inv.down_bound {M N : ℕ} {snaps : Snapshots} {w : World} (h : Inv M N snaps w)
    (hN : 1 ≤ N) {s : ℕ} (hs : s < M) : ∃ b, ∀ c, (w.down s c).pending.length ≤ b := by
  refine exists_bound (n := N) _ (fun c hc => ?_)
  have hnot : ¬ InBlock M N c s := fun hblock => absurd (block_client_lt hN hs hblock) (not_lt.2 hc)
  rw [Channel.pending, h.downOwner s c hnot, List.drop_nil, List.length_nil]

theorem Inv.up_bound {M N : ℕ} {snaps : Snapshots} {w : World} (h : Inv M N snaps w)
    (hN : 1 ≤ N) {c : ℕ} (hc : c < N) : ∃ b, ∀ s, (w.up c s).pending.length ≤ b := by
  refine exists_bound (n := M) _ (fun s hs => ?_)
  have hnot : ¬ InBlock M N c s := fun hblock => absurd (hblock.lt hN hc) (not_lt.2 hs)
  rw [Channel.pending, h.upOwner c s hnot, List.drop_nil, List.length_nil]

/-! ## Runs in which rank 0 does not poll for ever -/

/-- Rank 0 finds no command in at most `K` calls. -/
def Polls (X : Setup) (K : ℕ) : (p : Party X.M X.N) → (o : (system X.M X.N X.snaps).Op p) → World →
    (system X.M X.N X.snaps).Resp p o → Prop
  | .sim _ => fun o w r => patientPoll K o w r
  | .client _ => fun _ _ _ => True

/-- A client rank is at its end after `T` rounds. -/
def Ends (X : Setup) (T : ℕ) : (p : Party X.M X.N) → (system X.M X.N X.snaps).Label p → Prop
  | .sim _ => fun _ => False
  | .client _ => fun l => T ≤ l.rounds.length

/-- The ranks, where rank 0 does not poll for ever. -/
abbrev polling (X : Setup) (K : ℕ) : ThreadSystem (Party X.M X.N) World :=
  (system X.M X.N X.snaps).guarded (Polls X K)

/-- One of their steps. -/
def Move (X : Setup) (T K : ℕ) (cfg cfg₁ : (system X.M X.N X.snaps).Config) : Prop :=
  (polling X K).Advance (Ends X T) ⟨cfg.shared, cfg.control⟩ ⟨cfg₁.shared, cfg₁.control⟩

section Moves

variable {T B K : ℕ} {cfg cfg₁ : (system X.M X.N X.snaps).Config}

theorem Move.act {p : Party X.M X.N} {o : (system X.M X.N X.snaps).Op p}
    {k : (system X.M X.N X.snaps).Resp p o →
      Prog ((system X.M X.N X.snaps).Resp p) ((system X.M X.N X.snaps).Label p)}
    {r : (system X.M X.N X.snaps).Resp p o} {w' : World} (hctl : cfg.control p = .vis o k)
    (hperform : (system X.M X.N X.snaps).perform p o cfg.shared r w')
    (hpoll : Polls X K p o cfg.shared r) :
    Move X T K cfg ⟨w', Function.update cfg.control p (k r)⟩ :=
  @Advance.act _ _ (polling X K) _ (Ends X T) ⟨cfg.shared, cfg.control⟩ p o k r w' hctl
    ⟨hperform, hpoll⟩

theorem Move.goto {p : Party X.M X.N} {l : (system X.M X.N X.snaps).Label p}
    (hctl : cfg.control p = .ret l) (hgoes : ¬ Ends X T p l) :
    Move X T K cfg ⟨cfg.shared, Function.update cfg.control p
      ((system X.M X.N X.snaps).code p l)⟩ :=
  @Advance.goto _ _ (polling X K) _ (Ends X T) ⟨cfg.shared, cfg.control⟩ p l hctl hgoes

theorem Move.step (h : Move X T K cfg cfg₁) : (system X.M X.N X.snaps).Step cfg cfg₁ :=
  step_unguard (Advance.step h)

/-- Every step is one of theirs, if rank 0 polls often enough. -/
theorem exists_move (T K : ℕ) (h : (system X.M X.N X.snaps).Step cfg cfg₁) :
    ∃ T' K', T ≤ T' ∧ K ≤ K' ∧ Move X T' K' cfg cfg₁ := by
  cases h with
  | @act p o k r w' hctl hperform =>
      refine ⟨T, max K (cfg.shared.vainCalls + 1), le_refl T, le_max_left _ _,
        .act hctl hperform ?_⟩
      cases p with
      | sim s =>
          cases o with
          | probe comm rank => exact .inr (Nat.lt_of_succ_le (le_max_right _ _))
          | _ => trivial
      | client c => trivial
  | @goto p l hctl =>
      cases p with
      | sim s => exact ⟨T, K, le_refl T, le_refl K, .goto hctl id⟩
      | client c =>
          exact ⟨max T (l.rounds.length + 1), K, le_max_left _ _, le_refl K,
            .goto hctl (not_le.2 (Nat.lt_of_succ_le (le_max_right _ _)))⟩

/-- Their steps are steps of patient ranks. -/
theorem Patiently.move (h : Patiently (X.within T B K) ⟨cfg.shared, cfg.control⟩)
    (hmove : Move X T K cfg cfg₁) :
    ∃ B', Patiently (X.within T B' K) ⟨cfg₁.shared, cfg₁.control⟩ := by
  obtain ⟨w₁, control₁⟩ := cfg₁
  cases hmove with
  | @act p o k r w' hctl hperform =>
      obtain ⟨hperform, hpoll⟩ := hperform
      obtain ⟨B', hB, hpatient⟩ : ∃ B', B ≤ B' ∧
          Patient X.M X.N X.snaps B' K p o cfg.shared r := by
        cases p with
        | sim s =>
            obtain ⟨b, hb⟩ := h.inv.down_bound X.one_le_N s.isLt
            exact ⟨max B b, le_max_left _ _, fun c => (hb c).trans (le_max_right _ _), hpoll⟩
        | client c =>
            obtain ⟨b, hb⟩ := h.inv.up_bound X.one_le_N c.isLt
            exact ⟨max B b, le_max_left _ _, fun s => (hb s).trans (le_max_right _ _)⟩
      refine ⟨B', ⟨(h.mono (le_refl T) hB (le_refl K)).reached.step ?_⟩⟩
      exact @Advance.act _ _ (patient (X.within T B' K)) _ (Final (X.within T B' K))
        ⟨cfg.shared, cfg.control⟩ p o k r _ hctl ⟨hperform, hpatient⟩
  | @goto p l hctl hgoes =>
      refine ⟨B, ⟨h.reached.step ?_⟩⟩
      refine @Advance.goto _ _ (patient (X.within T B K)) _ (Final (X.within T B K))
        ⟨cfg.shared, cfg.control⟩ p l hctl ?_
      cases p with
      | sim s => exact hgoes
      | client c => exact hgoes

end Moves

/-- A configuration of a run in which no rank need wait for its messages to be taken. -/
abbrev Reached (X : Setup) : (system X.M X.N X.snaps).Config → Prop :=
  (system X.M X.N X.snaps).Reachable
    ((system X.M X.N X.snaps).start X.world (startLabels X.M X.N X.snaps X.conns))

/-- A run is one of patient ranks. -/
theorem exists_patiently {cfg : (system X.M X.N X.snaps).Config} (h : Reached X cfg) :
    ∃ T B K, Patiently (X.within T B K) ⟨cfg.shared, cfg.control⟩ := by
  induction h with
  | start => exact ⟨0, 0, 0, ⟨.start⟩⟩
  | step _ hstep ih =>
      obtain ⟨T, B, K, hpatiently⟩ := ih
      obtain ⟨T', K', hT, hK, hmove⟩ := exists_move T K hstep
      obtain ⟨B', hpatiently'⟩ := (hpatiently.mono hT (le_refl B) hK).move hmove
      exact ⟨T', B', K', hpatiently'⟩

/-- No run of theirs goes on for ever. -/
theorem acc_start (X : Setup) (T K : ℕ) :
    Acc (fun cfg₁ cfg => Move X T K cfg cfg₁)
      ((system X.M X.N X.snaps).start X.world (startLabels X.M X.N X.snaps X.conns)) := by
  have hfinite : Finite (Party X.M X.N) := finite_party
  have hacc : Acc (fun cfg₁ cfg => (polling X K).Advance (Ends X T) cfg cfg₁)
      ((polling X K).start X.world (startLabels X.M X.N X.snaps X.conns)) := by
    refine acc_of_costs (S := polling X K)
      (fun cfg => ∃ B, Patiently (X.within T B K) ⟨cfg.shared, cfg.control⟩)
      (answers (X.within T 0 K)) (worth (X.within T 0 K)) ?_ ?_ ?_
      (fun p => worth (X.within T 0 K) p (startLabels X.M X.N X.snaps X.conns p))
      ((polling X K).start X.world (startLabels X.M X.N X.snaps X.conns)) ⟨0, ⟨.start⟩⟩
      (fun p => Costs.ret (le_refl _))
    · rintro cfg cfg₁ ⟨B, h⟩ hmove
      have hnext : ∀ cfg cfg₁ : (system X.M X.N X.snaps).Config,
          Patiently (X.within T B K) ⟨cfg.shared, cfg.control⟩ → Move X T K cfg cfg₁ →
            ∃ B', Patiently (X.within T B' K) ⟨cfg₁.shared, cfg₁.control⟩ :=
        fun _ _ h hmove => h.move hmove
      exact hnext (unguard cfg) (unguard cfg₁) h hmove
    · rintro (s | c) o w r w' hperform
      · exact trivial
      · exact performClient_answers hperform.1
    · rintro cfg (s | c) l ⟨B, h⟩ hctl hgoes
      · exact sim_costs (X.within T 0 K) s (h.calls_le hctl)
      · exact client_costs (X.within T 0 K) c (not_le.1 hgoes)
  exact InvImage.accessible (a := (system X.M X.N X.snaps).start X.world
      (startLabels X.M X.N X.snaps X.conns))
    (fun cfg => (⟨cfg.shared, cfg.control⟩ : (polling X K).Config)) hacc

/-! ## The sizes of messages -/

theorem upMessage_length (c s i : ℕ) : (upMessage c s i).data.length = 4 := by
  unfold upMessage
  split <;> rfl

section Sizes

variable {cfg : (system X.M X.N X.snaps).Config}

theorem reached_holds (h : Reached X cfg) : (outline X.M X.N X.snaps).Holds cfg :=
  sound (outline_valid X.root X.started X.connected) h

theorem next_up_length (h : Reached X cfg) {c s : ℕ} {m : Message}
    (hm : (cfg.shared.up c s).next? = some m) : m.data.length = 4 := by
  rw [(reached_holds h).inv.upFollows c s _ m hm]
  exact upMessage_length c s _

theorem send_up_length (h : Reached X cfg) {c : Fin X.N} {comm : Unit} {kind : Kind} {data : Bytes}
    {rank : ℕ} {k : Unit → ClientProg Unit ClientLabel}
    (hctl : cfg.control (.client c) = .vis (.send comm kind data rank) k) : data.length = 4 := by
  have hsent := (reached_holds (h.step (.act cfg (.client c) () _ hctl rfl))).inv.upFollows c rank
    (cfg.shared.up c rank).sent.length ⟨kind, data, cfg.shared.arrived c / 2⟩ (by simp)
  rw [← upMessage_length c rank (cfg.shared.up c rank).sent.length, ← hsent]

/-- What simulation ranks receive is not empty, and comes in the size they expect. -/
theorem sim_recv_size (h : Reached X cfg) {s : Fin X.M} {comm : Unit} {kind : Kind} {size rank : ℕ}
    {k : Bytes → SimProg Unit (List Branch)}
    (hctl : cfg.control (.sim s) = .vis (.recv comm kind size rank) k) :
    0 < size ∧ ∀ m, (cfg.shared.up rank s).next? = some m → m.data.length = size := by
  obtain ⟨T, B, K, hpatiently⟩ := exists_patiently h
  obtain ⟨⟨-, -, hsize, -⟩, hready⟩ := hpatiently.due_at (p := .sim s) hctl
  exact ⟨hsize, fun m hm => (hready m hm).2⟩

theorem client_recv_size (h : Reached X cfg) {c : Fin X.N} {comm : Unit} {kind : Kind}
    {size rank : ℕ} {k : Bytes → ClientProg Unit ClientLabel}
    (hctl : cfg.control (.client c) = .vis (.recv comm kind size rank) k) {m : Message}
    (hm : (cfg.shared.down rank c).next? = some m) : m.data.length = size :=
  ((reached_holds h).ready hctl m hm).2

/-! ## Who has sent what -/

/-- Only one client rank has to do with a simulation rank. -/
theorem block_of_up (h : Reached X cfg) {c s : ℕ} (hsome : (cfg.shared.up c s).next? ≠ none) :
    InBlock X.M X.N c s := by
  by_contra hblock
  refine hsome ?_
  rw [Channel.next?, (reached_holds h).inv.upOwner c s hblock, List.getElem?_nil]

theorem block_of_down (h : Reached X cfg) {c s : ℕ} (hsome : (cfg.shared.down s c).next? ≠ none) :
    InBlock X.M X.N c s := by
  by_contra hblock
  refine hsome ?_
  rw [Channel.next?, (reached_holds h).inv.downOwner s c hblock, List.getElem?_nil]

/-- When a client rank returns, all it has sent has been taken. -/
theorem returned_up (h : Reached X cfg) {c : Fin X.N} {l : ClientLabel}
    (hctl : cfg.control (.client c) = .ret l) (s : ℕ) : (cfg.shared.up c s).next? = none := by
  by_contra hsome
  have hblock := block_of_up h hsome
  have hholds := reached_holds h
  obtain ⟨-, -, hat⟩ := hholds.post hctl
  have harrived := hat.arrived
  obtain ⟨-, hsent, -⟩ : ChannelAt X.snaps c s l.rounds.length 0 0 cfg.shared := hat.knows s hblock
  have hpassed := (hholds.inv.passed c s hblock).2.2
  have hhalf : cfg.shared.arrived c / 2 = l.rounds.length := by omega
  rw [hhalf] at hpassed
  refine hsome (Channel.next_none_iff.2 ?_)
  rw [hsent]
  exact hpassed

/-! ## Empty messages -/

/-- A simulation rank that is not sending has sent a state for every ping it has taken. -/
theorem replied_of_not_sending (h : Reached X cfg) {s : Fin X.M}
    (hsends : ∀ comm kind data rank k, cfg.control (.sim s) ≠ .vis (.send comm kind data rank) k) :
    Replied X.M X.N X.snaps s cfg.shared := by
  obtain ⟨T, B, K, hpatiently⟩ := exists_patiently h
  cases hctl : cfg.control (.sim s) with
  | ret calls =>
      have hat : SimAt X.M X.N X.snaps s calls [] [] 0 cfg.shared := (reached_holds h).post hctl
      exact hat.replied (perRound_pos s)
  | vis o k =>
      obtain ⟨⟨-, -, hdue⟩, hready⟩ := hpatiently.due_at (p := .sim s) hctl
      cases o with
      | lock | unlock cm => exact hdue
      | probe comm rank => exact hdue.2.2.replied
      | probeAll comm => exact Awaiting.replied hdue
      | recv comm kind size rank => exact hdue.2.2.replied
      | bcast buf => exact hdue.1
      | send comm kind data rank => exact absurd hctl (hsends comm kind data rank k)
      | _ => exact absurd hready id

theorem Replied.answered {M N : ℕ} {snaps : Snapshots} {s c r : ℕ} {w : World}
    (h : Replied M N snaps s w) (hblock : InBlock M N c s)
    (htaken : perRound s * (r + 1) ≤ (w.up c s).taken) :
    (replies snaps s (w.rounds.take (r + 1))).length ≤ (w.down s c).sent.length := by
  obtain ⟨calls, cast, out, took, hat, htook⟩ := h
  refine hat.answered hblock (Nat.le_of_lt_succ (Nat.lt_of_mul_lt_mul_left (a := perRound s) ?_))
  have hup := hat.up c hblock
  rw [Nat.succ_eq_add_one, Nat.mul_succ _ (queryCalls calls).length]
  omega

/-- An empty message has been sent when its client comes to receive it, unless the simulation rank
    is still sending. -/
theorem empty_sent (h : Reached X cfg)
    (hsends : ∀ s comm kind data rank k,
      cfg.control (.sim s) ≠ .vis (.send comm kind data rank) k)
    {c : Fin X.N} {comm : Unit} {kind : Kind} {rank : ℕ} {k : Bytes → ClientProg Unit ClientLabel}
    (hctl : cfg.control (.client c) = .vis (.recv comm kind 0 rank) k) :
    (cfg.shared.down rank c).next? ≠ none := by
  obtain ⟨T, B, K, hpatiently⟩ := exists_patiently h
  obtain ⟨⟨r, barriers, n, b, progress, -, hat, -, hwaits⟩, -⟩ :=
    hpatiently.due_at (p := .client c) hctl
  rcases hwaits.cases with ⟨-, hno⟩ | ⟨size, hrecv, hpos, -⟩ |
    ⟨kind', size, s, hrecv, -, hblock, hreading, -⟩
  · exact absurd rfl (hno comm kind 0 rank)
  · cases hrecv
    exact absurd hpos (lt_irrefl 0)
  · cases hrecv
    have hs : rank < X.M := hblock.lt X.one_le_N c.isLt
    have hknows := hat.knows rank hblock
    rcases hreading with ⟨hpos, -⟩ | ⟨k', got, hp, hgot⟩
    · exact absurd hpos (lt_irrefl 0)
    · rw [hp] at hknows
      have hreading : Reading X.snaps r rank 0 (.reading k' got) := .inr ⟨k', got, rfl, hgot⟩
      have hless := hreading.less hknows (List.getElem?_eq_some_iff.1 hknows.1).1
      have hanswered := (replied_of_not_sending h (s := ⟨rank, hs⟩)
        (hsends ⟨rank, hs⟩)).answered hblock hknows.2.1
      rw [ne_eq, Channel.next_none_iff]
      exact not_le.2 (Nat.lt_of_lt_of_le hless hanswered)

end Sizes

end QueryRound

end LibIS
