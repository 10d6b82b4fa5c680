import LibIS.SocketRounds.Rounds

set_option autoImplicit false

/-! # Rounds of queries over sockets: completion

Over sockets, too, every run comes to its end, however few bytes a socket holds. A run that goes on
for ever would be matched by one message by message, and of its system calls only as many in a row
are matched by no step as there are bytes to transfer. And where no rank can go on over sockets,
none that waits for its messages to be taken can go on message by message: a rank that cannot write
has filled a socket, so a message of it is in flight. -/

open ByteCodec Prog ThreadSystem Channel Proof

namespace LibIS

namespace SocketRounds

open QueryRound (Party Setup Snapshots Patiently Stuck ClientLabel next_up_length)

/-- A socket holds at most `C` bytes that have been written and not read. -/
def fits {Op : Type} {Resp : Op → Type} (C : ℕ) (wires : ℕ → Channel UInt8) :
    (o : SocketOp Op) → SocketOp.Resp Resp o → Prop
  | .send rank _, n => (wires rank).pending.length + n.1 ≤ C
  | _, _ => True

/-- What is written fits, and rank 0 finds no command in at most `K` calls. -/
def Bounded (M N : ℕ) (snaps : Snapshots) (C K : ℕ) : (p : Party M N) →
    (o : (system M N snaps).Op p) → World → (system M N snaps).Resp p o → Prop
  | .sim s => fun o w r => fits C (w.down s) o r ∧ patientPoll K o w r
  | .client c => fun o w r => fits C (w.up c) o r

/-- The ranks and their programs, where sockets are bounded and rank 0 does not poll for ever. -/
abbrev bounded (M N : ℕ) (snaps : Snapshots) (C K : ℕ) : ThreadSystem (Party M N) World :=
  (system M N snaps).guarded (Bounded M N snaps C K)

theorem Bounded.polls {M N : ℕ} {snaps : Snapshots} {C K : ℕ} {p : Party M N}
    {o : (system M N snaps).Op p} {w : World} {r : (system M N snaps).Resp p o}
    (h : Bounded M N snaps C K p o w r) : Polls M N snaps K p o w r := by
  cases p with
  | sim s => exact h.2
  | client c => trivial

/-! ## What can be performed over sockets -/

section Perform

variable {u : Underway} {w w₁ : QueryRound.World} {w' : World}

/-- What is no transfer has an answer over sockets when it has one message by message. -/
theorem Links.perform_sim (h : Links u w w') (hbegun : Begun u)
    (hlength : ∀ c s m, (w.up c s).next? = some m → m.data.length = 4) {N s : ℕ}
    (hgot : u.simGot s = fun _ => []) {o : SimOp Unit} {r : o.Resp}
    (hsource : simTransport.source o = none)
    (hsend : ∀ comm kind data rank, o ≠ .send comm kind data rank)
    (hperform : QueryRound.performSim N s o w r w₁) :
    ∃ w₁', performSim N s (.call o) w' r w₁' := by
  have hreadable := fun c => h.readable_eq hbegun hlength hgot c
  cases o with
  | lock => exact ⟨w', hperform.1.trans (congrFun h.manager s).symm, rfl⟩
  | unlock cm => exact ⟨_, rfl⟩
  | bcast buf =>
      simp only [QueryRound.performSim] at hperform
      simp only [performSim]
      by_cases hs : s = 0
      · simp only [if_pos hs] at hperform ⊢
        exact ⟨_, hperform.1, rfl⟩
      · simp only [if_neg hs] at hperform ⊢
        rw [h.simCast, h.simHeard]
        exact ⟨_, hperform.1, rfl⟩
  | probe comm rank => exact ⟨w', hperform.1.trans (hreadable rank).symm, rfl⟩
  | probeAll comm =>
      obtain ⟨hlt, hfound, hfirst, -⟩ := hperform
      have hnone : ∀ c, c < r → w'.readable s c = false := by
        intro c hc
        rw [hreadable c, hfirst c hc]
        rfl
      exact ⟨w', SocketInterComm.probeAll_eq.2 ⟨hlt, (hreadable r).trans hfound, hnone⟩, rfl⟩
  | send comm kind data rank => exact absurd rfl (hsend comm kind data rank)
  | recv comm kind size rank => exact absurd hsource (by simp [simTransport])
  | _ => exact absurd hperform (by simp [QueryRound.performSim])

theorem Links.perform_client (h : Links u w w') {M N c : ℕ} {o : ClientOp Unit} {r : o.Resp}
    (hsource : clientTransport.source o = none)
    (hsend : ∀ comm kind data rank, o ≠ .send comm kind data rank)
    (hperform : QueryRound.performClient M N c o w r w₁) :
    ∃ w₁', performClient M N c (.call o) w' r w₁' := by
  cases o with
  | remoteSize comm => exact ⟨w', hperform.1, rfl⟩
  | arrive => exact ⟨_, rfl⟩
  | leave =>
      refine ⟨w', ?_, rfl⟩
      rw [h.arrived]
      exact hperform.1
  | bcast buf =>
      simp only [QueryRound.performClient] at hperform
      simp only [performClient]
      by_cases hc : c = 0
      · simp only [if_pos hc] at hperform ⊢
        exact ⟨_, hperform.1, rfl⟩
      · simp only [if_neg hc] at hperform ⊢
        rw [h.clientCast, h.clientHeard]
        exact ⟨_, hperform.1, rfl⟩
  | send comm kind data rank => exact absurd rfl (hsend comm kind data rank)
  | recv comm kind size rank => exact absurd hsource (by simp [clientTransport])
  | _ => exact absurd hperform (by simp [QueryRound.performClient])

end Perform

/-- One byte of what is to be written. -/
def Count.one {data : Bytes} (h : data ≠ []) : Count data.length :=
  ⟨1, Nat.one_pos, List.length_pos_of_ne_nil h, by norm_num⟩

theorem exists_piece {wire : Channel UInt8} (hne : wire.pending ≠ []) {n : ℕ} (hpos : 0 < n) :
    ∃ bs : Piece n, bs.1 <+: wire.pending := by
  obtain ⟨b, bs, hpending⟩ := List.exists_cons_of_ne_nil hne
  exact ⟨⟨[b], Nat.one_pos, hpos, by norm_num⟩, bs, hpending.symm⟩

/-! ## Where nobody can go on -/

/-- No rank can go on: between two calls it is at its end, and what is due has no answer. -/
structure Blocked (X : Setup) (T C K : ℕ) (cfg' : (system X.M X.N X.snaps).Config) : Prop where
  ends : ∀ p l, cfg'.control p = .ret l → Ends X.M X.N X.snaps T p l
  waits : ∀ p o k, cfg'.control p = .vis o k → ∀ r w',
    (system X.M X.N X.snaps).perform p o cfg'.shared r w' →
      ¬ Bounded X.M X.N X.snaps C K p o cfg'.shared r

section Blocked

variable {X : Setup} {T C K : ℕ} {u : Underway} {cfg : (QueryRound.system X.M X.N X.snaps).Config}
  {cfg' : (system X.M X.N X.snaps).Config}

/-- A rank that is held up in writing has filled the socket. -/
theorem Blocked.down_filled (h : Blocked X T C K cfg') (hC : 1 ≤ C) {s : Fin X.M} {rank : ℕ}
    {data : Bytes} {k : SimResp (.send rank data) → Prog SimResp (List Branch)}
    (hctl : cfg'.control (.sim s) = vis (.send rank data) k) (hne : data ≠ []) :
    (cfg'.shared.down s rank).pending ≠ [] := by
  intro hnil
  refine h.waits (.sim s) _ _ hctl (Count.one hne) _ rfl ⟨?_, trivial⟩
  show (cfg'.shared.down s rank).pending.length + 1 ≤ C
  rwa [hnil]

theorem Blocked.up_filled (h : Blocked X T C K cfg') (hC : 1 ≤ C) {c : Fin X.N} {rank : ℕ}
    {data : Bytes} {k : ClientResp (.send rank data) → Prog ClientResp ClientLabel}
    (hctl : cfg'.control (.client c) = vis (.send rank data) k) (hne : data ≠ []) :
    (cfg'.shared.up c rank).pending ≠ [] := by
  intro hnil
  refine h.waits (.client c) _ _ hctl (Count.one hne) _ rfl ?_
  show (cfg'.shared.up c rank).pending.length + 1 ≤ C
  rwa [hnil]

namespace Stands

/-- What can be read is of a message in flight. -/
theorem down_sent (h : Stands u cfg cfg') {s c : ℕ} (hne : (cfg'.shared.down s c).pending ≠ []) :
    (cfg.shared.down s c).next? ≠ none :=
  (h.links.down s c).next_ne_none (fun hnil => hne (List.append_eq_nil_iff.1 hnil).2)

theorem up_sent (h : Stands u cfg cfg') {c s : ℕ} (hne : (cfg'.shared.up c s).pending ≠ []) :
    (cfg.shared.up c s).next? ≠ none :=
  (h.links.up c s).next_ne_none (fun hnil => hne (List.append_eq_nil_iff.1 hnil).2)

/-- What a simulation rank owes its client rank, it is writing, and has filled the socket. -/
theorem down_written (h : Stands u cfg cfg') (hblocked : Blocked X T C K cfg') (hC : 1 ≤ C)
    {s : Fin X.M} {c : ℕ} (hblock : InBlock X.M X.N c s) :
    owedTo (u.simOwed s) c = [] ∨ (cfg'.shared.down s c).pending ≠ [] := by
  have hstage := h.stage_sim (h.settled (.sim s))
  generalize hctl : cfg'.control (.sim s) = p at hstage
  cases hstage with
  | writing hne hlength howed =>
      have hfilled := hblocked.down_filled hC hctl hne
      -- it writes to no other client rank
      have hblock' := QueryRound.block_of_down h.reached (h.down_sent hfilled)
      rw [hblock.unique hblock']
      exact .inr hfilled
  | label hnil hq => exact .inl (hnil c)
  | reading hnil hq hlt => exact .inl (hnil c)
  | calling hnil hq hsource hsend => exact .inl (hnil c)

theorem up_written (h : Stands u cfg cfg') (hblocked : Blocked X T C K cfg') (hC : 1 ≤ C)
    (c : Fin X.N) (s : ℕ) :
    owedTo (u.clientOwed c) s = [] ∨ (cfg'.shared.up c s).pending ≠ [] := by
  have hstage := h.stage_client (h.settled (.client c))
  generalize hctl : cfg'.control (.client c) = p at hstage
  cases hstage with
  | @writing rank data more hne hlength howed =>
      by_cases hs : s = rank
      · rw [hs]
        exact .inr (hblocked.up_filled hC hctl hne)
      · exact .inl (h.begun.others hne howed hs)
  | sending hnil hq => exact .inl (hnil s)
  | label hnil hq => exact .inl (hnil s)
  | reading hnil hq hlt => exact .inl (hnil s)
  | calling hnil hq hsource hsend => exact .inl (hnil s)

/-- A simulation rank that cannot go on over sockets cannot go on message by message, where every
    send waits for its receive. -/
theorem sim_blocked (h : Stands u cfg cfg') (hblocked : Blocked X T C K cfg') (hC : 1 ≤ C)
    {s : Fin X.M} {o : SimOp Unit} {k : o.Resp → SimProg Unit (List Branch)} {r : o.Resp}
    {w₁ : QueryRound.World} (hctl : cfg.control (.sim s) = vis o k)
    (hperform : QueryRound.performSim X.N s o cfg.shared r w₁) :
    ¬ QueryRound.Patient X.M X.N X.snaps 0 K (.sim s) o cfg.shared r := by
  rintro ⟨hnothing, hpoll⟩
  have hstage := h.stage_sim (h.settled (.sim s))
  generalize hctl' : cfg'.control (.sim s) = p at hstage
  cases hstage with
  | writing hne hlength howed =>
      -- it is held up by what it has written, which is of a message that is in flight
      exact h.down_sent (hblocked.down_filled hC hctl' hne)
        (Channel.next_none_of_pending_le (hnothing _))
  | label hnil hq =>
      rw [hctl] at hq
      cases hq
  | @reading comm kind size rank k' hnil hq hlt =>
      rw [hctl] at hq
      cases hq
      obtain ⟨m, hm, -, -⟩ := hperform
      have hsize := (QueryRound.sim_recv_size h.reached hctl).2 m hm
      have hblock := QueryRound.block_of_up h.reached (Option.ne_none_iff_exists'.2 ⟨m, hm⟩)
      have hrank : rank < X.N := QueryRound.block_client_lt X.one_le_N s.isLt hblock
      -- the message has been written, or its sender is held up, so there is something to read
      have hne : (cfg'.shared.up rank s).pending ≠ [] := by
        rcases h.up_written hblocked hC ⟨rank, hrank⟩ s with howed | hne
        · refine (h.links.up rank s).pending_ne_nil hm ?_
          rwa [howed, List.length_nil, Nat.add_zero, hsize]
        · exact hne
      obtain ⟨bs, hbs⟩ := exists_piece hne (Nat.sub_pos_of_lt hlt)
      exact hblocked.waits (.sim s) _ _ hctl' bs _ ⟨hbs, rfl⟩ ⟨trivial, trivial⟩
  | calling hnil hq hsource hsend =>
      rw [hctl] at hq
      cases hq
      have hunread : u.simGot s = fun _ => [] := by
        refine (h.sims s).unread (fun o' k' hvis => ?_)
        rw [hctl] at hvis
        cases hvis
        exact hsource
      obtain ⟨w₁', hperform'⟩ := h.links.perform_sim h.begun
        (fun c s m hm => next_up_length h.reached hm) hunread hsource hsend hperform
      exact hblocked.waits (.sim s) _ _ hctl' r w₁' hperform'
        ⟨trivial, h.links.polls_iff.2 hpoll⟩

theorem client_blocked (h : Stands u cfg cfg') (hblocked : Blocked X T C K cfg') (hC : 1 ≤ C)
    {c : Fin X.N} {o : ClientOp Unit} {k : o.Resp → ClientProg Unit ClientLabel} {r : o.Resp}
    {w₁ : QueryRound.World} (hctl : cfg.control (.client c) = vis o k)
    (hperform : QueryRound.performClient X.M X.N c o cfg.shared r w₁) :
    ¬ QueryRound.Patient X.M X.N X.snaps 0 K (.client c) o cfg.shared r := by
  intro hnothing
  have hstage := h.stage_client (h.settled (.client c))
  generalize hctl' : cfg'.control (.client c) = p at hstage
  cases hstage with
  | writing hne hlength howed =>
      exact h.up_sent (hblocked.up_filled hC hctl' hne)
        (Channel.next_none_of_pending_le (hnothing _))
  | @sending comm kind data rank k' hnil hq =>
      have hlength := QueryRound.send_up_length h.reached hq
      have hdata : data ≠ [] := List.ne_nil_of_length_pos (by omega)
      exact h.up_sent (hblocked.up_filled hC hctl' hdata)
        (Channel.next_none_of_pending_le (hnothing _))
  | label hnil hq =>
      rw [hctl] at hq
      cases hq
  | @reading comm kind size rank k' hnil hq hlt =>
      rw [hctl] at hq
      cases hq
      obtain ⟨m, hm, -, -⟩ := hperform
      have hsize := QueryRound.client_recv_size h.reached hctl hm
      have hblock := QueryRound.block_of_down h.reached (Option.ne_none_iff_exists'.2 ⟨m, hm⟩)
      have hrank : rank < X.M := hblock.lt X.one_le_N c.isLt
      have hne : (cfg'.shared.down rank c).pending ≠ [] := by
        rcases h.down_written hblocked hC (s := ⟨rank, hrank⟩) hblock with howed | hne
        · refine (h.links.down rank c).pending_ne_nil hm ?_
          rwa [howed, List.length_nil, Nat.add_zero, hsize]
        · exact hne
      obtain ⟨bs, hbs⟩ := exists_piece hne (Nat.sub_pos_of_lt hlt)
      exact hblocked.waits (.client c) _ _ hctl' bs _ ⟨hbs, rfl⟩ trivial
  | calling hnil hq hsource hsend =>
      rw [hctl] at hq
      cases hq
      obtain ⟨w₁', hperform'⟩ := h.links.perform_client hsource hsend hperform
      exact hblocked.waits (.client c) _ _ hctl' r w₁' hperform' trivial

/-- A simulation rank that is between two calls message by message is still writing. -/
theorem sim_returned (h : Stands u cfg cfg') (hblocked : Blocked X T C K cfg') (hC : 1 ≤ C)
    {s : Fin X.M} {l : List Branch} (hctl : cfg.control (.sim s) = ret l) :
    ∃ c, (cfg.shared.down s c).next? ≠ none := by
  have hstage := h.stage_sim (h.settled (.sim s))
  generalize hctl' : cfg'.control (.sim s) = p at hstage
  cases hstage with
  | writing hne hlength howed => exact ⟨_, h.down_sent (hblocked.down_filled hC hctl' hne)⟩
  | label hnil hq => exact absurd (hblocked.ends (.sim s) _ hctl') id
  | reading hnil hq hlt =>
      rw [hctl] at hq
      cases hq
  | calling hnil hq hsource hsend =>
      rw [hctl] at hq
      cases hq

/-- A client rank that is between two calls message by message is so over sockets. -/
theorem client_returned (h : Stands u cfg cfg') (hblocked : Blocked X T C K cfg') (hC : 1 ≤ C)
    {c : Fin X.N} {l : ClientLabel} (hctl : cfg.control (.client c) = ret l) :
    cfg'.control (.client c) = ret l := by
  have hstage := h.stage_client (h.settled (.client c))
  generalize hctl' : cfg'.control (.client c) = p at hstage
  cases hstage with
  | writing hne hlength howed =>
      -- all it has sent has been taken, and what it has written is of what it has sent
      exact absurd (QueryRound.returned_up h.reached hctl _)
        (h.up_sent (hblocked.up_filled hC hctl' hne))
  | sending hnil hq =>
      rw [hctl] at hq
      cases hq
  | label hnil hq => exact congrArg ret (ret.inj (hq.symm.trans hctl))
  | reading hnil hq hlt =>
      rw [hctl] at hq
      cases hq
  | calling hnil hq hsource hsend =>
      rw [hctl] at hq
      cases hq

/-- Where no rank can go on over sockets, none can message by message, where every send waits for
    its receive. -/
theorem stuck (h : Stands u cfg cfg') (hblocked : Blocked X T C K cfg') (hC : 1 ≤ C) {B : ℕ}
    (hpatiently : Patiently (X.within T B K) ⟨cfg.shared, cfg.control⟩) :
    Stuck (X.within T B K) 0 ⟨cfg.shared, cfg.control⟩ where
  toPatiently := hpatiently
  sims _ _ hctl := h.sim_returned hblocked hC hctl
  clients c l hctl := hblocked.ends (.client c) l (h.client_returned hblocked hC hctl)
  blocked {p o k r w'} hctl hperform := by
    cases p with
    | sim s => exact h.sim_blocked hblocked hC hctl hperform
    | client c => exact h.client_blocked hblocked hC hctl hperform

end Stands

end Blocked

/-! ## Every run -/

/-- All client ranks have got their regions in every round, and nothing is in flight. -/
structure Completed (M N : ℕ) (snaps : Snapshots) (T : ℕ) (qs : List ℕ) (l : Fin N → ClientLabel)
    (cfg' : (system M N snaps).Config) : Prop where
  sorted : qs.Pairwise (· < ·)
  returned : ∀ c, cfg'.control (.client c) = .ret (l c)
  all : ∀ c, (l c).rounds.length = T
  rounds : ∀ c : Fin N, ClientTranscript M N snaps qs cfg'.shared c (l c)
  nothing : ∀ (c : Fin N) (s : Fin M),
    (cfg'.shared.up c s).pending = [] ∧ (cfg'.shared.down s c).pending = []

section Run

variable {X : Setup} {T C K : ℕ} {u : Underway} {cfg : (QueryRound.system X.M X.N X.snaps).Config}
  {cfg' : (system X.M X.N X.snaps).Config}

theorem Stands.completed (h : Stands u cfg cfg') (hblocked : Blocked X T C K cfg') (hC : 1 ≤ C)
    {B : ℕ}
    (hpatiently : Patiently (X.within T B K) ⟨cfg.shared, cfg.control⟩) :
    ∃ qs l, Completed X.M X.N X.snaps T qs l cfg' := by
  obtain ⟨qs, l, hanswered⟩ := (h.stuck hblocked hC hpatiently).answers
  have hreturned : ∀ c : Fin X.N, cfg'.control (.client c) = .ret (l c) :=
    fun c => h.client_returned hblocked hC (hanswered.returned c)
  refine ⟨cfg.shared.rounds, l, QueryRound.queryCalls_sorted _, hreturned, hanswered.all,
    fun c => h.matches.client_transcript h.reached (hreturned c), fun c s => ?_⟩
  obtain ⟨hup, hdown⟩ := hanswered.nothing c s
  exact ⟨(h.links.up c s).pending_of_nil hup, (h.links.down s c).pending_of_nil hdown⟩

theorem ComesOn.patiently {u₁ : Underway} {cfg₁ : (QueryRound.system X.M X.N X.snaps).Config}
    (h : ComesOn X T K u cfg u₁ cfg₁)
    (hpatiently : ∃ B, Patiently (X.within T B K) ⟨cfg.shared, cfg.control⟩) :
    ∃ B, Patiently (X.within T B K) ⟨cfg₁.shared, cfg₁.control⟩ := by
  rcases h with hmoves | ⟨rfl, -⟩
  · induction hmoves with
    | single hmove =>
        obtain ⟨B, hpatiently⟩ := hpatiently
        exact hpatiently.move hmove
    | tail _ hmove ih =>
        obtain ⟨B, hpatiently⟩ := ih
        exact hpatiently.move hmove
  · exact hpatiently

/-- Where rank 0 does not poll for ever, every step comes on. -/
theorem Stands.advance {cfg₁' cfg₂' : (bounded X.M X.N X.snaps C K).Config}
    (h : Stands u cfg (unguard cfg₁'))
    (hstep : (bounded X.M X.N X.snaps C K).Advance (Ends X.M X.N X.snaps T) cfg₁' cfg₂') :
    ∃ u₁ cfg₁, Stands u₁ cfg₁ (unguard cfg₂') ∧ ComesOn X T K u cfg u₁ cfg₁ := by
  cases hstep with
  | act p r w' hctl hperform =>
      obtain ⟨u₁, cfg₁, h₁, hcomes⟩ := h.act hctl hperform.1
      exact ⟨u₁, cfg₁, h₁, hcomes T K hperform.2.polls⟩
  | goto p hctl hgoes =>
      obtain ⟨u₁, cfg₁, h₁, hcomes⟩ := h.goto hctl
      exact ⟨u₁, cfg₁, h₁, hcomes T K hgoes⟩

theorem Stands.inevitably {cfg' : (bounded X.M X.N X.snaps C K).Config} (hC : 1 ≤ C)
    (h : Stands u ((QueryRound.system X.M X.N X.snaps).start X.world
      (QueryRound.startLabels X.M X.N X.snaps X.conns)) (unguard cfg')) :
    (bounded X.M X.N X.snaps C K).Inevitably (Ends X.M X.N X.snaps T)
      (fun cfg' => ∃ qs l, Completed X.M X.N X.snaps T qs l (unguard cfg')) cfg' := by
  have hfinite : Finite (Party X.M X.N) := QueryRound.finite_party
  refine inevitably_of_acc (fun cfg' => ∃ u cfg, Stands u cfg (unguard cfg') ∧
    ∃ B, Patiently (X.within T B K) ⟨cfg.shared, cfg.control⟩) ?_ ?_ ?_ ⟨u, _, h, 0, ⟨.start⟩⟩
  · rintro cfg' cfg'' ⟨u, cfg, h, hpatiently⟩ hstep
    obtain ⟨u₁, cfg₁, h₁, hcomes⟩ := h.advance hstep
    exact ⟨u₁, cfg₁, h₁, hcomes.patiently hpatiently⟩
  · rintro cfg' ⟨u, cfg, h, B, hpatiently⟩ hstuck
    refine h.completed ⟨fun p l hctl => ?_, fun p o k hctl r w' hperform hbounded => ?_⟩ hC
      hpatiently
    · by_contra hgoes
      exact hstuck _ (.goto cfg' p hctl hgoes)
    · exact hstuck _ (.act cfg' p r w' hctl ⟨hperform, hbounded⟩)
  · -- only as many steps in a row are matched by none as there are bytes to transfer
    refine acc_of_matched (fun m cfg cfg' => ∃ u, left u cfg = m ∧ Stands u cfg (unguard cfg')) ?_
      (QueryRound.acc_start X T K) _ cfg' ⟨u, rfl, h⟩
    rintro m cfg cfg' cfg'' ⟨u, rfl, h⟩ hstep
    obtain ⟨u₁, cfg₁, h₁, hcomes⟩ := h.advance hstep
    refine ⟨left u₁ cfg₁, cfg₁, ⟨u₁, rfl, h₁⟩, ?_⟩
    rcases hcomes with hmoves | ⟨rfl, hless⟩
    · exact .inl hmoves
    · exact .inr ⟨rfl, hless⟩

end Run

/-- **Completion over sockets.** When the client ranks call `query()` `T` times each, a socket holds
    at most `C ≥ 1` bytes and rank 0 finds no command in at most `K` calls, every run over sockets
    comes to an end in which all client ranks have returned from all calls, with the regions of one
    and the same call of `process()` in each round, and all that has been written has been read: no
    transfer is left in the middle, no rank waits for ever, and none runs for ever. -/
theorem sockets_complete (M N : ℕ) (hM : 1 ≤ M) (hN : 1 ≤ N) (snaps : Snapshots) (w₀ : World)
    (hstart : Started w₀) (conns : Fin N → SimulationConnection Unit)
    (hconns : ∀ c, (conns c).intercomm = some () ∧ (conns c).simQuit = 0) (T C K : ℕ)
    (hC : 1 ≤ C) :
    (bounded M N snaps C K).Inevitably (Ends M N snaps T)
      (fun cfg' => ∃ qs l, Completed M N snaps T qs l (unguard cfg'))
      ((bounded M N snaps C K).start w₀ (startLabels M N snaps conns)) :=
  Stands.inevitably (X := setup hM hN snaps hstart hconns) hC
    (stands_start hM hN hstart hconns)

/-- Three rounds of five simulation ranks and two client ranks, where a socket holds one byte and
    rank 0 finds no command in at most one call. -/
theorem sockets_complete_three :
    (bounded 5 2 QueryRound.blankStates 1 1).Inevitably (Ends 5 2 QueryRound.blankStates 3)
      (fun cfg' => ∃ qs l, Completed 5 2 QueryRound.blankStates 3 qs l (unguard cfg'))
      ((bounded 5 2 QueryRound.blankStates 1 1).start quiet
        (startLabels 5 2 QueryRound.blankStates
          (fun _ => ⟨some (), 0, ⟨[], StdString.empty_lt⟩⟩))) :=
  sockets_complete 5 2 (by decide) (by decide) QueryRound.blankStates quiet quiet_started _
    (fun _ => ⟨rfl, rfl⟩) 3 1 1 (le_refl 1)

end SocketRounds

end LibIS
