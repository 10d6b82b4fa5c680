import LibIS.Session.Outline

set_option autoImplicit false

/-! # Sessions: the ranks of a client

Rank 0 gives a command, gets the quit flag for it and broadcasts it; the other ranks follow its
broadcasts. -/

open ByteCodec Prog ThreadSystem Proof

namespace LibIS

namespace Session

variable {X : Setup} {i : ℕ} {c : Fin (X.size i)}

/-! ## Barriers and quit flags -/

theorem Entered.perform {n : ℕ} {o : ClientOp ℕ} {w w' : World} {r : o.Resp} (h : Entered X i n w)
    (hperform : performClient X i c o w r w') : Entered X i n w' := by
  have hgrow : ∀ c', w.arrived i c' ≤ w'.arrived i c' := by
    intro c'
    cases o with
    | listen =>
        obtain ⟨-, hperform⟩ := hperform
        split at hperform
        · obtain ⟨-, rfl⟩ := hperform
          exact le_refl _
        · rw [hperform]
    | portName | remoteSize | accept | leave => rw [hperform.2]
    | close | closeSocket => rw [hperform]
    | dial => obtain ⟨e, -, rfl⟩ | ⟨-, -, rfl⟩ := hperform <;> exact le_refl _
    | sendSocket data => obtain ⟨-, rfl⟩ | ⟨k, -, -, rfl⟩ := hperform <;> exact le_refl _
    | arrive =>
        simp only [performClient] at hperform
        rw [hperform]
        exact le_updateAt_succ _ _ _ _ _
    | bcast buf =>
        simp only [performClient] at hperform
        split at hperform <;> obtain ⟨-, rfl⟩ := hperform <;> exact le_refl _
    | send comm kind data rank =>
        simp only [performClient] at hperform
        split at hperform <;> rw [hperform]
    | recv comm kind size rank =>
        simp only [performClient] at hperform
        split at hperform
        · obtain ⟨m, -, -, rfl⟩ := hperform
          exact le_refl _
        · rw [hperform.2]
    | throw | crash => exact hperform.elim
  exact fun c' hc' => (h c' hc').trans (hgrow c')

/-- Whatever a rank does meanwhile, barriers that have been entered stay so. -/
theorem entered_frame {α : Type} {n : ℕ} {pre : World → Prop} {p : ClientProg ℕ α}
    {Q : α → World → Prop} (h : (outline X).Triple (.client i c) pre p Q) :
    (outline X).Triple (.client i c) (fun w => Entered X i n w ∧ pre w) p
      (fun r w => Entered X i n w ∧ Q r w) :=
  Triple.frame (P := outline X) (i := .client i c) (fun _ _ hn hrely _ => hn.stable hrely)
    (fun _ _ _ _ hn hperform => hn.perform hperform) h

/-- A client that knows as many of its commands to have been taken as it has given knows them all.
    -/
theorem Inv.known_all {w : World} (h : Inv X w) {es : List (Int32 × Taker)}
    (hes : es <+: answeredOf i w.issued w.takes)
    (hall : es.map Prod.fst = commandsOf i w.issued) : es = answeredOf i w.issued w.takes := by
  refine hes.eq_of_length_le ?_
  have hfst := congrArg List.length (answeredOf_fst i h.takes_le)
  have hle := (commandsOf_grow i (List.take_prefix w.takes.length w.issued)).length_le
  rw [← hall, List.length_map] at hle
  rw [List.length_map] at hfst
  exact hfst.le.trans hle

/-- What has been sent to a client as quit flags are the first replies to its commands. -/
theorem Inv.flags_prefix {w : World} (h : Inv X w) (i : ℕ) :
    quitFlags (w.down i 0).sent <+:
      (answeredOf i w.issued w.takes).map (fun e => intBytes e.2.reply) := by
  have hsent := quitFlags_grow (h.downRoot i)
  rwa [quitFlags_answers] at hsent

/-- Rank 0 of a client knows all the quit flags when all its commands have been taken. -/
theorem RootAt.told {w : World} (hinv : Inv X w) {es : List (Int32 × Taker)}
    {asked : List Message} {got : ℕ} {cast : List Bytes}
    (hat : RootAt i (es.map Prod.fst) es asked got cast w) (hzero : ∀ e ∈ es, e.2.reply = 0) :
    ∀ quit ∈ quitFlags (w.down i 0).sent, quit = intBytes 0 := by
  intro quit hquit
  have hmem := (hinv.flags_prefix i).subset hquit
  rw [← hinv.known_all hat.answered hat.commands.symm] at hmem
  obtain ⟨e, he, rfl⟩ := List.mem_map.1 hmem
  rw [hzero e he]

/-- Another rank that has heard a quit flag for every command knows them all: the next command is
    given when this rank has entered the barriers that come before it. -/
theorem RankAt.told {w : World} (hinv : Inv X w) {n : ℕ} {heard : List Bytes}
    (hat : RankAt i c n heard w) (hzero : ∀ b ∈ heard, b = intBytes 0)
    (hn : n + 4 ≤ 2 * heard.length) :
    ∀ quit ∈ quitFlags (w.down i 0).sent, quit = intBytes 0 := by
  have hlen : (quitFlags (w.down i 0).sent).length ≤ heard.tail.length := by
    have hgiven := hinv.barriers i c c.isLt
    rw [hat.arrived] at hgiven
    have hle := (commandsOf_grow i (List.take_prefix w.replied.length w.issued)).length_le
    rw [← hinv.quits i] at hle
    rw [List.length_tail]
    omega
  have hheard : heard.tail <+:
      (answeredOf i w.issued w.takes).map (fun e => intBytes e.2.reply) := by
    cases heard with
    | nil => exact List.nil_prefix
    | cons b heard => exact (List.cons_prefix_cons.1 (hat.cast.trans (hinv.clientCast i))).2
  have hflags := List.prefix_of_prefix_length_le (hinv.flags_prefix i) hheard hlen
  exact fun quit hquit => hzero quit (List.mem_of_mem_tail (hflags.subset hquit))

/-! ## Operations that a rank's knowledge does not depend on -/

section Plain

variable {pre : World → Prop} (hstable : (outline X).Stable (.client i c) pre)
include hstable

theorem raiseClient_triple {α : Type} {e : Fault} {Q : α → World → Prop} :
    (outline X).Triple (.client i c) pre (ClientOp.raise e) Q :=
  Triple.vis (R := fun _ _ => True) hstable (fun _ _ _ => trivial) (fun _ r => r.elim)
    (fun r => r.elim)

theorem portName_triple {comm : ℕ} :
    (outline X).Triple (.client i c) pre (ClientOp.commPortName comm)
      (fun r w => r = X.port i ∧ pre w) := by
  refine client_op hstable (fun _ _ _ => trivial) ?_
  rintro w r w' hinv hpre ⟨rfl, rfl⟩
  exact ⟨hinv, rfl, hpre⟩

theorem remoteSize_triple {comm : ℕ} :
    (outline X).Triple (.client i c) pre (ClientOp.commRemoteSize comm)
      (fun r w => r = X.simSize ∧ pre w) := by
  refine client_op hstable (fun _ _ _ => trivial) ?_
  rintro w r w' hinv hpre ⟨rfl, rfl⟩
  exact ⟨hinv, rfl, hpre⟩

theorem closeComm_triple {comm : ℕ} :
    (outline X).Triple (.client i c) pre (ClientOp.closeComm comm) (fun _ => pre) := by
  refine client_op hstable (fun _ _ _ => trivial) ?_
  rintro w r w' hinv hpre rfl
  exact ⟨hinv, hpre⟩

theorem socketClose_triple :
    (outline X).Triple (.client i c) pre ClientOp.socketClose (fun _ => pre) := by
  refine client_op hstable (fun _ _ _ => trivial) ?_
  rintro w r w' hinv hpre rfl
  exact ⟨hinv, hpre⟩

theorem release_triple {this : SimulationConnection ℕ} :
    (outline X).Triple (.client i c) pre (SimulationConnection.release this) (fun _ => pre) := by
  rw [SimulationConnection.release]
  split
  · exact closeComm_triple hstable
  · exact Triple.ret (fun _ _ h => h)

theorem barrier_triple {post : World → Prop} (hpost : (outline X).Stable (.client i c) post)
    (hframe : ∀ w, pre w → post { w with arrived := updateAt w.arrived i c (w.arrived i c + 1) })
    {n : ℕ} :
    (outline X).Triple (.client i c) (fun w => Entered X i n w ∧ pre w) ClientOp.mpiBarrier
      (fun _ w => Entered X i (n + 1) w ∧ post w) := by
  have harrive : (outline X).Triple (.client i c) (fun w => Entered X i n w ∧ pre w)
      (op ClientOp.arrive) (fun _ w => n + 1 ≤ w.arrived i c ∧ post w) := by
    refine client_op ?_ (fun _ _ _ => trivial) ?_
    · exact fun w w' h hrely hinv => ⟨h.1.stable hrely, hstable w w' h.2 hrely hinv⟩
    · rintro w r w' hinv ⟨hentered, hpre⟩ rfl
      refine ⟨hinv.arrive i c, ?_, hframe w hpre⟩
      simpa only [updateAt_self] using Nat.succ_le_succ (hentered c c.isLt)
  have hleave : (outline X).Triple (.client i c) (fun w => n + 1 ≤ w.arrived i c ∧ post w)
      (op ClientOp.leave) (fun _ w => Entered X i (n + 1) w ∧ post w) := by
    refine client_op ?_ (fun _ _ _ => trivial) ?_
    · exact fun w w' h hrely hinv => ⟨hrely.arrived.ge.trans' h.1, hpost w w' h.2 hrely hinv⟩
    · rintro w r w' hinv ⟨harrived, hpre⟩ ⟨hall, rfl⟩
      exact ⟨hinv, fun c' hc' => harrived.trans (hall c' hc'), hpre⟩
  exact Triple.bind harrive (fun _ => hleave)

/-- A region of a simulation rank other than 0: whatever arrives, it is no concern of rank 0. -/
theorem queryRegion_other {rank comm regionId : ℕ}
    (hping : ∀ w, Inv X w → pre w → ∀ quit ∈ quitFlags (w.down i 0).sent, quit = intBytes 0)
    (hregion : regionId ≠ 0) :
    (outline X).Triple (.client i c) pre (SimulationConnection.queryRegion rank comm regionId)
      (fun _ => pre) := by
  have hsend : (outline X).Triple (.client i c) pre
      (ClientOp.sendTo comm .ping (intBytes (Int32.ofNat rank)) regionId) (fun _ => pre) := by
    refine client_op hstable (fun w hinv hpre => ⟨fun _ => hping w hinv hpre, fun h0 =>
      absurd h0 hregion⟩) ?_
    intro w r w' hinv hpre hperform
    simp only [performClient, if_neg hregion] at hperform
    subst hperform
    exact ⟨hinv, hpre⟩
  refine Triple.bind hsend (fun _ => Triple.interp (fun o => ?_) recvRegion)
  cases o with
  | recv size =>
      refine client_op hstable (fun w _ _ h0 => absurd h0 hregion) ?_
      intro w r w' hinv hpre hperform
      simp only [performClient, if_neg hregion] at hperform
      obtain ⟨-, rfl⟩ := hperform
      exact ⟨hinv, hpre⟩
  | throw e => exact raiseClient_triple hstable

theorem queryRegions_other {rank comm : ℕ}
    (hping : ∀ w, Inv X w → pre w → ∀ quit ∈ quitFlags (w.down i 0).sent, quit = intBytes 0)
    (regionIds : List Int)
    (hregions : ∀ r ∈ regionIds, r.toNat ≠ 0) :
    (outline X).Triple (.client i c) pre (SimulationConnection.queryRegions rank comm regionIds)
      (fun _ => pre) := by
  induction regionIds with
  | nil => exact Triple.ret (fun _ _ h => h)
  | cons regionId regionIds ih =>
      refine Triple.bind (queryRegion_other hstable hping (hregions _ (List.mem_cons_self ..)))
        (fun _ => Triple.bind (ih (fun r hr => hregions r (List.mem_cons_of_mem _ hr)))
          (fun _ => Triple.ret (fun _ _ h => h)))

end Plain

/-! ## The ranks other than 0 -/

theorem rank_stable (n : ℕ) (heard : List Bytes) :
    (outline X).Stable (.client i c) (RankAt i c n heard) :=
  fun _ _ h hrely _ => h.stable hrely

/-- Only rank 0 of a client asks rank 0 of the simulation for its region. -/
theorem queriedRegions_follower (X : Setup) (i : ℕ) {c : ℕ} (hc : c ≠ 0) :
    ∀ r ∈ queriedRegions X.simSize (X.size i) c, r.toNat ≠ 0 := by
  intro r hr hzero
  obtain ⟨s, rfl, hblock⟩ := (mem_queriedRegions _ _ _ r).1 hr
  obtain rfl : s = 0 := hzero
  exact hc (hblock.unique (inBlock_zero X.simSize_pos (X.size_pos i)))

section Follower

variable (hc : (c : ℕ) ≠ 0)
include hc

/-- What is broadcast is a quit flag, the first time 0. -/
theorem bcastQuit_follower {n : ℕ} {heard : List Bytes} {this : SimulationConnection ℕ} :
    (outline X).Triple (.client i c) (RankAt i c n heard) (SimulationConnection.bcastQuit this)
      (fun this' w => ∃ q, (this' = { this with simQuit := q } ∧ (heard = [] → q = 0)) ∧
        RankAt i c n (heard ++ [intBytes q]) w) := by
  have hbcast : (outline X).Triple (.client i c) (RankAt i c n heard)
      (ClientOp.mpiBcast (intBytes this.simQuit))
      (fun r w => ∃ q, (r = intBytes q ∧ (heard = [] → q = 0)) ∧
        RankAt i c n (heard ++ [intBytes q]) w) := by
    refine client_op (rank_stable n heard) (fun _ _ _ => trivial) ?_
    intro w r w' hinv hat hperform
    simp only [performClient, if_neg hc] at hperform
    obtain ⟨hr, rfl⟩ := hperform
    rw [hat.clientHeard] at hr
    have hnext : heard ++ [r] <+: w.clientCast i := by
      obtain ⟨t, ht⟩ := hat.cast
      rw [← ht, List.getElem?_append_right (le_refl _), Nat.sub_self] at hr
      obtain ⟨t', rfl⟩ := List.head?_eq_some_iff.1 (by rwa [List.head?_eq_getElem?])
      exact ⟨t', by rw [← ht]; simp⟩
    obtain ⟨q, rfl, hq⟩ : ∃ q, r = intBytes q ∧ (heard = [] → q = 0) := by
      have hflags := hnext.trans (hinv.clientCast i)
      cases heard with
      | nil => exact ⟨0, (List.cons_prefix_cons.1 hflags).1, fun _ => rfl⟩
      | cons b heard =>
          have hmem := (List.cons_prefix_cons.1 hflags).2.subset
            (List.mem_append_right heard (List.mem_singleton_self r))
          obtain ⟨e, -, rfl⟩ := List.mem_map.1 hmem
          exact ⟨_, rfl, by simp⟩
    refine ⟨hinv.hear i c, q, ⟨rfl, hq⟩, hat.arrived, ?_, hnext⟩
    simp only [updateAt_self, hat.clientHeard, List.length_append, List.length_singleton]
  refine Triple.bind hbcast (fun r => Triple.exists (fun q => Triple.pure (fun hr => ?_)))
  refine Triple.ret (fun w _ hat => ⟨q, ⟨?_, hr.2⟩, hat⟩)
  rw [hr.1, intOfBytes_intBytes]

omit hc in
theorem barrier_follower {n : ℕ} {heard : List Bytes} :
    (outline X).Triple (.client i c) (RankAt i c n heard) ClientOp.mpiBarrier
      (fun _ => RankAt i c (n + 1) heard) := by
  have hframe : ∀ w, RankAt i c n heard w →
      RankAt i c (n + 1) heard { w with arrived := updateAt w.arrived i c (w.arrived i c + 1) } :=
    fun w hat => { hat with arrived := by simp only [updateAt_self, hat.arrived] }
  exact Triple.conseq (barrier_triple (rank_stable n heard) (rank_stable (n + 1) heard) hframe)
    (fun w _ hat => ⟨fun c' _ => Nat.zero_le _, hat⟩) (fun _ _ _ h => h.2)

theorem sendCommand_follower {n : ℕ} {heard : List Bytes} {cmd : Command}
    {this : SimulationConnection ℕ} :
    (outline X).Triple (.client i c) (RankAt i c n heard)
      (SimulationConnection.sendCommand c cmd this)
      (fun this' w => ∃ q, (this' = { this with simQuit := q } ∧ (heard = [] → q = 0)) ∧
        RankAt i c (n + 1) (heard ++ [intBytes q]) w) := by
  rw [SimulationConnection.sendCommand, if_neg hc]
  exact Triple.bind barrier_follower (fun _ => bcastQuit_follower hc)

/-- The destructor follows one more broadcast, if the client has not been told to quit. -/
theorem destructor_follower {n : ℕ} {heard : List Bytes} {this : SimulationConnection ℕ} :
    (outline X).Triple (.client i c) (RankAt i c n heard)
      (SimulationConnection.destructor c this)
      (fun q w => (this.simQuit = 0 → RankAt i c (n + 1) (heard ++ [intBytes q]) w) ∧
        (this.simQuit ≠ 0 → q = this.simQuit ∧ RankAt i c n heard w)) := by
  rw [SimulationConnection.destructor]
  split
  · next hzero =>
    simp only [SimulationConnection.disconnect, Prog.bind_assoc, pure_eq, ret_bind]
    refine Triple.bind (sendCommand_follower hc)
      (fun this' => Triple.exists (fun q => Triple.pure (fun hthis => ?_)))
    refine Triple.bind (release_triple (rank_stable _ _)) (fun _ => ?_)
    refine Triple.bind (release_triple (rank_stable _ _))
      (fun _ => Triple.ret (fun w _ hat => ?_))
    rw [hthis.1]
    exact ⟨fun _ => hat, fun hne => absurd hzero hne⟩
  · next hne =>
    exact Triple.bind (release_triple (rank_stable n heard)) (fun _ =>
      Triple.ret (fun w _ hat => ⟨fun hzero => absurd hzero hne, fun _ => ⟨rfl, hat⟩⟩))

/-- The end of a call. A rank that goes on has entered two barriers for each call but the first. -/
theorem keep_follower {n : ℕ} {quits : List Int32} {queries : ℕ} {this : SimulationConnection ℕ}
    (hthis : this.intercomm = some i) (hquits : ∀ quit ∈ quits, quit = 0)
    (hn : this.simQuit = 0 → n = 2 * quits.length + 1) :
    (outline X).Triple (.client i c)
      (RankAt i c n (intBytes 0 :: (quits ++ [this.simQuit]).map intBytes))
      (keep c quits queries this) (clientPost X i c) := by
  rw [keep]
  split
  · next hzero =>
    refine Triple.ret (fun w _ hat => ⟨⟨hthis, hzero, ?_⟩, fun h0 => absurd h0 hc, fun _ =>
      ⟨n, ?_, hat⟩⟩)
    · intro quit hquit
      rcases List.mem_append.1 hquit with hquit | hquit
      · exact hquits quit hquit
      · rw [List.mem_singleton.1 hquit, hzero]
    · rw [hn hzero, List.length_append, List.length_singleton]
      ring
  · next hne =>
    refine Triple.bind (destructor_follower hc) (fun q => Triple.ret (fun w _ h => ?_))
    obtain ⟨rfl, hat⟩ := h.2 hne
    exact ⟨fun h0 => absurd h0 hc, fun _ => ⟨n, hat⟩⟩

theorem connectSim_follower :
    (outline X).Triple (.client i c) (RankAt i c 0 []) (SimulationConnection.connectSim c)
      (fun this w => this.intercomm = some i ∧
        RankAt i c 1 (intBytes 0 :: [this.simQuit].map intBytes) w) := by
  have hlisten : (outline X).Triple (.client i c) (RankAt i c 0 []) ClientOp.listenComm
      (fun r w => r = i ∧ RankAt i c 0 [] w) := by
    refine client_op (rank_stable 0 []) (fun _ _ _ => trivial) ?_
    intro w r w' hinv hat hperform
    simp only [performClient, if_neg hc] at hperform
    obtain ⟨rfl, rfl⟩ := hperform
    exact ⟨hinv, rfl, hat⟩
  have haccept : (outline X).Triple (.client i c) (RankAt i c 1 [intBytes 0])
      (ClientOp.acceptComm i) (fun _ => RankAt i c 1 [intBytes 0]) := by
    refine client_op (rank_stable _ _) (fun _ _ _ => trivial) ?_
    rintro w r w' hinv hat ⟨-, rfl⟩
    exact ⟨hinv, hat⟩
  simp only [SimulationConnection.connectSim, if_neg hc]
  refine Triple.bind hlisten (fun comm => Triple.pure (fun hcomm => ?_))
  rw [hcomm]
  refine Triple.bind (portName_triple (rank_stable 0 [])) (fun name => Triple.pure (fun _ => ?_))
  refine Triple.bind (sendCommand_follower hc)
    (fun this => Triple.exists (fun q => Triple.pure (fun hthis => ?_)))
  obtain ⟨rfl, hq⟩ := hthis
  rw [hq rfl, List.nil_append]
  refine Triple.bind haccept (fun _ => ?_)
  refine Triple.conseq (bcastQuit_follower hc) (fun _ _ h => h) ?_
  rintro this w - ⟨q', ⟨rfl, -⟩, hat⟩
  exact ⟨rfl, hat⟩

/-- A query by another rank: it asks for data when every quit flag it knows is 0, and no other has
    been sent. -/
theorem query_follower {n : ℕ} {heard : List Bytes} {this : SimulationConnection ℕ}
    (hthis : this.intercomm = some i) (hzero : ∀ b ∈ heard, b = intBytes 0)
    (hn : n + 3 ≤ 2 * heard.length) :
    (outline X).Triple (.client i c) (RankAt i c n heard)
      (SimulationConnection.query (X.size i) c this)
      (fun p w => ∃ m, (p.2.intercomm = some i ∧ (p.2.simQuit = 0 → m = n + 2)) ∧
        RankAt i c m (heard ++ [intBytes p.2.simQuit]) w) := by
  rw [SimulationConnection.query]
  refine Triple.bind (sendCommand_follower hc)
    (fun this' => Triple.exists (fun q => Triple.pure (fun hthis' => ?_)))
  obtain ⟨rfl, -⟩ := hthis'
  split
  · next hq => exact Triple.ret (fun w _ hat => ⟨n + 1, ⟨hthis, fun h => absurd h hq⟩, hat⟩)
  · next hq =>
    obtain rfl : q = 0 := not_not.1 hq
    have hping : ∀ w, Inv X w → RankAt i c (n + 1) (heard ++ [intBytes 0]) w →
        ∀ quit ∈ quitFlags (w.down i 0).sent, quit = intBytes 0 := by
      intro w hinv hat
      refine hat.told hinv ?_ ?_
      · intro b hb
        rcases List.mem_append.1 hb with hb | hb
        · exact hzero b hb
        · exact List.mem_singleton.1 hb
      · rw [List.length_append, List.length_singleton]
        omega
    simp only [hthis]
    refine Triple.bind (remoteSize_triple (rank_stable _ _))
      (fun size => Triple.pure (fun hsize => ?_))
    rw [hsize]
    refine Triple.bind (queryRegions_other (rank_stable _ _) hping _
      (queriedRegions_follower X i hc)) (fun regions => ?_)
    exact Triple.bind barrier_follower
      (fun _ => Triple.ret (fun w _ hat => ⟨n + 2, ⟨rfl, fun _ => rfl⟩, hat⟩))

/-- A rank other than 0 between two calls. -/
theorem clientCode_follower (l : ClientLabel) :
    (outline X).Triple (.client i c) (clientPost X i c l) (clientCode X i c l)
      (clientPost X i c) := by
  cases l with
  | start =>
      have hconnect : (outline X).Triple (.client i c) (clientPost X i c .start)
          (SimulationConnection.connectSim c) _ :=
        Triple.conseq (connectSim_follower hc) (fun w _ h => h.2 hc) (fun _ _ _ h => h)
      refine Triple.bind hconnect (fun this => Triple.pure (fun hthis => ?_))
      exact keep_follower hc hthis (fun quit h => absurd h List.not_mem_nil) (fun _ => rfl)
  | connected this quits queries =>
      have hrun : (outline X).Triple (.client i c)
          (fun w => (this.intercomm = some i ∧ this.simQuit = 0 ∧ ∀ quit ∈ quits, quit = 0) ∧
            ∃ n, n + 1 = 2 * quits.length ∧ RankAt i c n (intBytes 0 :: quits.map intBytes) w)
          (clientCode X i c (.connected this quits queries)) (clientPost X i c) := by
        refine Triple.pure (fun hthis => Triple.exists (fun n => Triple.pure (fun hn => ?_)))
        cases queries with
        | zero =>
            refine Triple.bind (destructor_follower hc) (fun q => Triple.ret (fun w _ h => ?_))
            refine ⟨fun h0 => absurd h0 hc, fun _ => ⟨n + 1, ?_⟩⟩
            simpa using h.1 hthis.2.1
        | succ queries =>
            have hzero : ∀ b ∈ intBytes 0 :: quits.map intBytes, b = intBytes 0 := by
              simpa using fun quit hquit => congrArg intBytes (hthis.2.2 quit hquit)
            have hheard : n + 3 ≤ 2 * (intBytes 0 :: quits.map intBytes).length := by
              rw [List.length_cons, List.length_map]
              omega
            refine Triple.bind (query_follower hc hthis.1 hzero hheard)
              (fun p => Triple.exists (fun m => Triple.pure (fun hp => ?_)))
            have hkeep : (outline X).Triple (.client i c) _ (keep c quits queries p.2) _ :=
              keep_follower (n := m) hc hp.1 hthis.2.2 (fun hquit => by rw [hp.2 hquit]; omega)
            simpa using hkeep
      exact Triple.conseq hrun (fun w _ h => ⟨h.1, h.2.2 hc⟩) (fun _ _ _ h => h)
  | gone quits => exact Triple.ret (fun _ _ h => h)

end Follower

/-! ## Rank 0 -/

/-- The regions that rank 0 asks for start with that of rank 0 of the simulation. -/
theorem queriedRegions_root (X : Setup) (i : ℕ) :
    ∃ rest, queriedRegions X.simSize (X.size i) (0 : ℕ) = 0 :: rest ∧ ∀ r ∈ rest, r.toNat ≠ 0 := by
  have hblock := inBlock_zero X.simSize_pos (X.size_pos i)
  have hpos : 0 < numRegions X.simSize (X.size i) 0 := by
    have hlt := hblock.2
    rwa [firstRegion_zero, Nat.zero_add] at hlt
  obtain ⟨n, hn⟩ := Nat.exists_eq_succ_of_ne_zero hpos.ne'
  rw [queriedRegions_natCast, hn, firstRegion_zero, List.range_succ_eq_map]
  refine ⟨_, rfl, ?_⟩
  intro r hr hzero
  simp only [List.mem_map] at hr
  obtain ⟨s, ⟨k, ⟨l, -, rfl⟩, rfl⟩, rfl⟩ := hr
  simp at hzero

/-- What is known of a command that has been taken. -/
theorem next_quit {w : World} (hinv : Inv X w) {es : List (Int32 × Taker)} {cmd : Int32}
    {asked : List Message} {cast : List Bytes}
    (hat : RootAt i (es.map Prod.fst ++ [cmd]) es asked (answers X.snaps es).length cast w)
    {m : Message} (hm : (w.down i 0).next? = some m) :
    ∃ t, m = ⟨.quit, intBytes t.reply⟩ ∧ es ++ [(cmd, t)] <+: answeredOf i w.issued w.takes := by
  rw [Channel.next?, hat.downTaken] at hm
  obtain ⟨⟨cmd', t⟩, hnext, rfl⟩ :=
    answers_next_quit X.snaps hat.answered ((hinv.downRoot i).getElem?_eq_some hm)
  -- the command that has been answered is the one that was given
  have hfst : (es ++ [(cmd', t)]).map Prod.fst <+: es.map Prod.fst ++ [cmd] := by
    refine (hnext.map Prod.fst).trans ?_
    rw [answeredOf_fst i hinv.takes_le, ← hat.commands]
    exact commandsOf_grow i (List.take_prefix _ _)
  rw [List.map_append, List.prefix_append_right_inj] at hfst
  obtain rfl : cmd' = cmd := by simpa using hfst
  exact ⟨t, rfl, hnext⟩

section Root

variable (hc : (c : ℕ) = 0)
include hc

theorem fresh_stable (bs : Bytes) (cast : List Bytes) :
    (outline X).Stable (.client i c) (Fresh i bs cast) :=
  fun _ _ h hrely _ => h.stable hrely hc

theorem root_stable (cmds : List Int32) (known : List (Int32 × Taker)) (asked : List Message)
    (got : ℕ) (cast : List Bytes) :
    (outline X).Stable (.client i c) (RootAt i cmds known asked got cast) :=
  fun _ _ h hrely _ => h.stable hrely hc

theorem entered_root_stable {n : ℕ} {cmds : List Int32} {known : List (Int32 × Taker)}
    {asked : List Message} {got : ℕ} {cast : List Bytes} :
    (outline X).Stable (.client i c)
      (fun w => Entered X i n w ∧ RootAt i cmds known asked got cast w) :=
  fun _ _ h hrely _ => ⟨h.1.stable hrely, h.2.stable hrely hc⟩

/-! ### The frame -/

theorem sendOrThrow_triple {bs data : Bytes} {cast : List Bytes} {message : String}
    (hdata : bs ++ data <+: frameBytes X i) :
    (outline X).Triple (.client i c) (Fresh i bs cast)
      (SimulationConnection.sendOrThrow data message) (fun _ => Fresh i (bs ++ data) cast) := by
  have hsend : (outline X).Triple (.client i c) (Fresh i bs cast) (ClientOp.socketSend data)
      (fun n w => ∃ k : ℕ, (n = -1 ∨ n = (k : Int)) ∧ Fresh i (bs ++ data.take k) cast w) := by
    refine client_op (fresh_stable hc bs cast) (fun _ _ _ => hc) ?_
    rintro w r w' hinv hat (⟨rfl, rfl⟩ | ⟨k, hk, rfl, rfl⟩)
    · exact ⟨hinv, 0, .inl rfl, by simpa using hat⟩
    · refine ⟨hinv.sendFrame ?_, k, .inr rfl, { hat with frame := ?_ }⟩
      · rw [hat.frame]
        exact ((List.prefix_append_right_inj bs).2 (List.take_prefix k data)).trans hdata
      · simp only [Function.update_self, Channel.pushAll_sent, hat.frame]
  refine Triple.bind hsend (fun n => Triple.exists (fun k => Triple.pure (fun hn => ?_)))
  split
  · exact raiseClient_triple (fresh_stable hc _ cast)
  · next hlen =>
    have hk : k = data.length := by
      rw [not_not] at hlen
      omega
    rw [hk, List.take_length]
    exact Triple.ret (fun _ _ h => h)

theorem dial_triple {cast : List Bytes} :
    (outline X).Triple (.client i c)
      (fun w => Fresh i [] cast w ∧ i ∉ w.dials.sent ∧ (w.opened i = true ∨ w.linked i = true))
      ClientOp.dialSim (fun _ => Fresh i [] cast) := by
  refine client_op ?_ (fun _ _ _ => hc) ?_
  · rintro w w' ⟨hat, hnew, hport⟩ hrely -
    exact ⟨hat.stable hrely hc, hrely.rootDial hc hnew, hrely.port hport⟩
  · rintro w r w' hinv ⟨hat, hnew, hport⟩ (⟨e, -, rfl⟩ | ⟨-, -, rfl⟩)
    · exact ⟨hinv, hat⟩
    · exact ⟨hinv.dial hnew hport, { hat with }⟩

theorem sendFrame_triple {cast : List Bytes} :
    (outline X).Triple (.client i c)
      (fun w => Fresh i [] cast w ∧ i ∉ w.dials.sent ∧ (w.opened i = true ∨ w.linked i = true))
      (SimulationConnection.sendFrame (X.port i) .connect)
      (fun _ => Fresh i (frameBytes X i) cast) := by
  have hframe : frameBytes X i = ([] ++ intBytes (Int32.ofNat ((X.port i).bytes.length + 1))) ++
      ((X.port i).bytes ++ [0]) ++ intBytes Command.connect.toInt32 := by
    rw [List.nil_append]
    rfl
  refine Triple.bind (dial_triple hc) (fun r => ?_)
  cases r with
  | error e => exact raiseClient_triple (fresh_stable hc [] cast)
  | ok _ =>
      refine Triple.bind (sendOrThrow_triple hc ?_) (fun _ => ?_)
      · rw [hframe, List.append_assoc]
        exact List.prefix_append _ _
      refine Triple.bind (sendOrThrow_triple hc ?_) (fun _ => ?_)
      · rw [hframe]
        exact List.prefix_append _ _
      refine Triple.bind (sendOrThrow_triple hc ?_) (fun _ => ?_)
      · rw [hframe]
      rw [← hframe]
      exact socketClose_triple (fresh_stable hc _ cast)

/-! ### Commands -/

theorem recvQuit_triple {n : ℕ} {es : List (Int32 × Taker)} {cmd : Int32} {asked : List Message}
    {cast : List Bytes} :
    (outline X).Triple (.client i c)
      (fun w => Entered X i n w ∧
        RootAt i (es.map Prod.fst ++ [cmd]) es asked (answers X.snaps es).length cast w)
      (ClientOp.recvFrom i .quit 4 0)
      (fun r w => ∃ t : Taker, r = intBytes t.reply ∧ Entered X i n w ∧
        RootAt i ((es ++ [(cmd, t)]).map Prod.fst) (es ++ [(cmd, t)]) asked
          ((answers X.snaps es).length + 1) cast w) := by
  refine client_op (entered_root_stable hc) ?_ ?_
  · rintro w hinv ⟨-, hat⟩ _
    refine ⟨hc, fun m hm => ?_⟩
    obtain ⟨t, rfl, -⟩ := next_quit hinv hat hm
    exact ⟨rfl, intBytes_length _⟩
  · rintro w r w' hinv ⟨hentered, hat⟩ hperform
    simp only [performClient, if_true, hc] at hperform
    obtain ⟨m, hm, rfl, rfl⟩ := hperform
    obtain ⟨t, rfl, hnext⟩ := next_quit hinv hat hm
    refine ⟨hinv.takeDown hm, t, rfl, hentered, ?_⟩
    have hcmds : (es ++ [(cmd, t)]).map Prod.fst = es.map Prod.fst ++ [cmd] := by simp
    rw [hcmds]
    exact { hat with
      answered := hnext
      downTaken := by simp only [updateAt_self, Channel.pop_taken, hat.downTaken] }

theorem barrier_root {n : ℕ} {cmds : List Int32} {known : List (Int32 × Taker)}
    {asked : List Message} {got : ℕ} {cast : List Bytes} :
    (outline X).Triple (.client i c)
      (fun w => Entered X i n w ∧ RootAt i cmds known asked got cast w) ClientOp.mpiBarrier
      (fun _ w => Entered X i (n + 1) w ∧ RootAt i cmds known asked got cast w) :=
  barrier_triple (root_stable hc _ _ _ _ _) (root_stable hc _ _ _ _ _) (fun _ h => { h with })

theorem sendCommand_op_triple {es : List (Int32 × Taker)} {cmd : Int32}
    (hcmd : cmd = queryCmd ∨ cmd = disconnectCmd) (hzero : ∀ e ∈ es, e.2.reply = 0)
    (hlast : ∃ cmds cmd', es.map Prod.fst = cmds ++ [cmd'] ∧ cmd' ≠ disconnectCmd) :
    (outline X).Triple (.client i c) (fun w => Entered X i (2 * es.length - 1) w ∧ Idle X i es w)
      (ClientOp.sendTo i .command (intBytes cmd) 0)
      (fun _ w => Entered X i (2 * es.length - 1) w ∧ RootAt i (es.map Prod.fst ++ [cmd]) es
        (asks (es.map Prod.fst) ++ [⟨.command, intBytes cmd⟩]) (answers X.snaps es).length
        (intBytes 0 :: es.map (fun e => intBytes e.2.reply)) w) := by
  obtain ⟨cmds, cmd', hcmds, hcmd'⟩ := hlast
  have hturn : ∀ w, Inv X w → Idle X i es w → openClient w.issued = some i ∧
      w.issued.length = w.replied.length ∧ .destructor ∉ w.takes := by
    intro w hinv hat
    exact hinv.turn hat.answered hat.downTaken.ge hat.commands.symm hzero
      (hat.commands.trans hcmds) hcmd'
  refine client_op ?_ ?_ ?_
  · exact fun _ _ h hrely _ => ⟨h.1.stable hrely, RootAt.stable h.2 hrely hc⟩
  · rintro w hinv ⟨-, hat⟩
    obtain ⟨hopen, -, hproc⟩ := hturn w hinv hat
    exact ⟨fun h => absurd h (by simp), fun _ => ⟨hc, fun _ => ⟨hopen, hproc⟩⟩⟩
  · rintro w r w' hinv ⟨hentered, hat⟩ hperform
    obtain ⟨hopen, hreplied, -⟩ := hturn w hinv hat
    simp only [performClient, if_true, hc, intOfBytes_intBytes] at hperform
    subst hperform
    refine ⟨hinv.issue hcmd hopen hreplied ?_ ?_, hentered, ?_⟩
    · rw [hat.upSent, hat.commands]
    · rwa [hat.commands, List.length_map]
    · exact {
        commands := by rw [commandsOf_concat, if_pos rfl, hat.commands]
        given := by simp
        answered := by
          rw [answeredOf_issued i (List.prefix_append _ _) hinv.takes_le]
          exact hat.answered
        upSent := by simp only [updateAt_self, Channel.push_sent, hat.upSent]
        downTaken := hat.downTaken
        cast := hat.cast }

/-- Rank 0 broadcasts the quit flag it has got last. -/
theorem bcastQuit_root {cmds : List Int32} {es : List (Int32 × Taker)} {e : Int32 × Taker}
    {asked : List Message} {got : ℕ} {this : SimulationConnection ℕ}
    (hthis : this.simQuit = e.2.reply) :
    (outline X).Triple (.client i c)
      (RootAt i cmds (es ++ [e]) asked got (intBytes 0 :: es.map (fun e => intBytes e.2.reply)))
      (SimulationConnection.bcastQuit this)
      (fun this' w => this' = this ∧ RootAt i cmds (es ++ [e]) asked got
        (intBytes 0 :: (es ++ [e]).map (fun e => intBytes e.2.reply)) w) := by
  have hbcast : (outline X).Triple (.client i c)
      (RootAt i cmds (es ++ [e]) asked got (intBytes 0 :: es.map (fun e => intBytes e.2.reply)))
      (ClientOp.mpiBcast (intBytes this.simQuit))
      (fun r w => r = intBytes this.simQuit ∧ RootAt i cmds (es ++ [e]) asked got
        (intBytes 0 :: (es ++ [e]).map (fun e => intBytes e.2.reply)) w) := by
    refine client_op (root_stable hc _ _ _ _ _) (fun _ _ _ => trivial) ?_
    intro w r w' hinv hat hperform
    simp only [performClient, if_pos hc] at hperform
    obtain ⟨hr, rfl⟩ := hperform
    have hcast : w.clientCast i ++ [intBytes this.simQuit] =
        intBytes 0 :: (es ++ [e]).map (fun e => intBytes e.2.reply) := by
      rw [hat.cast, hthis]
      simp
    refine ⟨hinv.cast ?_, hr, { hat with cast := ?_ }⟩
    · rw [hcast]
      exact List.cons_prefix_cons.2 ⟨rfl, hat.answered.map _⟩
    · simp only [Function.update_self]
      exact hcast
  refine Triple.bind hbcast (fun r => Triple.pure (fun hr => Triple.ret (fun w _ hat => ⟨?_, hat⟩)))
  rw [hr, intOfBytes_intBytes]

/-- A command, its reply, and what rank 0 of the simulation has been asked since. -/
theorem sendCommand_root {es : List (Int32 × Taker)} {cmd : Command}
    (hcmd : cmd = .query ∨ cmd = .disconnect) (hzero : ∀ e ∈ es, e.2.reply = 0)
    (hlast : ∃ cmds cmd', es.map Prod.fst = cmds ++ [cmd'] ∧ cmd' ≠ disconnectCmd)
    {this : SimulationConnection ℕ} (hthis : this.intercomm = some i) :
    (outline X).Triple (.client i c) (fun w => Entered X i (2 * es.length - 1) w ∧ Idle X i es w)
      (SimulationConnection.sendCommand c cmd this)
      (fun this' w => ∃ t : Taker, this' = { this with simQuit := t.reply } ∧
        Entered X i (2 * es.length) w ∧
        RootAt i ((es ++ [(cmd.toInt32, t)]).map Prod.fst) (es ++ [(cmd.toInt32, t)])
          (asks (es.map Prod.fst) ++ [⟨.command, intBytes cmd.toInt32⟩])
          ((answers X.snaps es).length + 1)
          (intBytes 0 :: (es ++ [(cmd.toInt32, t)]).map (fun e => intBytes e.2.reply)) w) := by
  have hconnect : cmd ≠ .connect := by
    rcases hcmd with rfl | rfl <;> decide
  have hcmd' : cmd.toInt32 = queryCmd ∨ cmd.toInt32 = disconnectCmd := by
    rcases hcmd with rfl | rfl
    · exact .inl rfl
    · exact .inr rfl
  simp only [SimulationConnection.sendCommand, SimulationConnection.issueCommand, if_pos hc,
    if_neg hconnect, hthis, Prog.bind_assoc, pure_eq, ret_bind]
  refine Triple.bind (sendCommand_op_triple hc hcmd' hzero hlast) (fun _ => ?_)
  refine Triple.bind (recvQuit_triple hc)
    (fun r => Triple.exists (fun t => Triple.pure (fun hr => ?_)))
  rw [hr, intOfBytes_intBytes]
  have hpos : 0 < es.length := by
    obtain ⟨cmds, cmd', hcmds, -⟩ := hlast
    have hlen := congrArg List.length hcmds
    rw [List.length_map, List.length_append, List.length_singleton] at hlen
    omega
  have hcount : 2 * es.length - 1 + 1 = 2 * es.length := by omega
  refine Triple.bind (barrier_root hc) (fun _ => ?_)
  rw [hcount]
  refine Triple.conseq (entered_frame (bcastQuit_root hc rfl)) (fun _ _ h => h) ?_
  rintro this' w - ⟨hentered, rfl, hat⟩
  exact ⟨t, rfl, hentered, hat⟩

/-! ### The state -/

omit hc in
theorem zero_process {es : List (Int32 × Taker)} {cmd : Int32} {k : ℕ}
    (hzero : ∀ e ∈ es, e.2.reply = 0) :
    ∀ e ∈ es ++ [(cmd, Taker.process k)], e.2.reply = 0 := by
  intro e he
  rcases List.mem_append.1 he with he | he
  · exact hzero e he
  · rw [List.mem_singleton.1 he]
    rfl

theorem sendPing_triple {es : List (Int32 × Taker)} {k got : ℕ} {cast : List Bytes}
    (hzero : ∀ e ∈ es, e.2.reply = 0) :
    (outline X).Triple (.client i c)
      (RootAt i ((es ++ [(queryCmd, Taker.process k)]).map Prod.fst)
        (es ++ [(queryCmd, Taker.process k)])
        (asks (es.map Prod.fst) ++ [⟨.command, intBytes queryCmd⟩]) got cast)
      (ClientOp.sendTo i .ping (intBytes (Int32.ofNat c)) 0)
      (fun _ => RootAt i ((es ++ [(queryCmd, Taker.process k)]).map Prod.fst)
        (es ++ [(queryCmd, Taker.process k)])
        (asks ((es ++ [(queryCmd, Taker.process k)]).map Prod.fst)) got cast) := by
  have hasks : asks (es.map Prod.fst) ++ [⟨.command, intBytes queryCmd⟩] ++
      [⟨.ping, intBytes 0⟩] = asks ((es ++ [(queryCmd, Taker.process k)]).map Prod.fst) := by
    rw [List.map_append, asks_append, List.append_assoc]
    rfl
  refine client_op (root_stable hc _ _ _ _ _) ?_ ?_
  · intro w hinv hat
    exact ⟨fun _ => hat.told hinv (zero_process hzero), fun _ => ⟨hc, fun h => absurd h (by simp)⟩⟩
  · intro w r w' hinv hat hperform
    have hrank : Int32.ofNat c = 0 := by
      rw [hc]
      rfl
    simp only [performClient, if_true, hc, reduceCtorEq, if_false] at hperform
    subst hperform
    refine ⟨hinv.ping ?_, { hat with upSent := ?_ }⟩
    · rw [hat.upSent, hat.commands]
      exact hasks ▸ List.prefix_refl _
    · simp only [updateAt_self, Channel.push_sent, hat.upSent]
      exact hasks

theorem recvData_triple {es : List (Int32 × Taker)} {k j : ℕ} {cmds : List Int32}
    {asked : List Message} {cast : List Bytes} {m : Bytes}
    (hm : (X.snaps k).messages[j]? = some m) :
    (outline X).Triple (.client i c)
      (RootAt i cmds (es ++ [(queryCmd, Taker.process k)]) asked ((answers X.snaps es).length + 1 + j)
        cast)
      (SimulationConnection.recvRegionOp i 0 (.recv m.length))
      (fun r w => r = m ∧ RootAt i cmds (es ++ [(queryCmd, Taker.process k)]) asked
        ((answers X.snaps es).length + 1 + (j + 1)) cast w) := by
  have hnext : ∀ w, Inv X w → RootAt i cmds (es ++ [(queryCmd, Taker.process k)]) asked
      ((answers X.snaps es).length + 1 + j) cast w → ∀ m', (w.down i 0).next? = some m' →
      m' = ⟨.data, m⟩ := by
    intro w hinv hat m' hm'
    rw [Channel.next?, hat.downTaken] at hm'
    have hget := (hinv.downRoot i).getElem?_eq_some hm'
    rw [answers_next_data X.snaps hat.answered hm] at hget
    exact (Option.some.inj hget).symm
  refine client_op (root_stable hc _ _ _ _ _) ?_ ?_
  · intro w hinv hat _
    refine ⟨hc, fun m' hm' => ?_⟩
    rw [hnext w hinv hat m' hm']
    exact ⟨rfl, rfl⟩
  · intro w r w' hinv hat hperform
    simp only [performClient, if_true, hc] at hperform
    obtain ⟨m', hm', rfl, rfl⟩ := hperform
    rw [hnext w hinv hat m' hm']
    refine ⟨hinv.takeDown hm', rfl, { hat with downTaken := ?_ }⟩
    simp only [updateAt_self, Channel.pop_taken, hat.downTaken]
    omega

theorem queryRegion_root {es : List (Int32 × Taker)} {k : ℕ} {cast : List Bytes}
    (hzero : ∀ e ∈ es, e.2.reply = 0) :
    (outline X).Triple (.client i c)
      (RootAt i ((es ++ [(queryCmd, Taker.process k)]).map Prod.fst)
        (es ++ [(queryCmd, Taker.process k)])
        (asks (es.map Prod.fst) ++ [⟨.command, intBytes queryCmd⟩])
        ((answers X.snaps es).length + 1) cast)
      (SimulationConnection.queryRegion c i 0)
      (fun _ => RootAt i ((es ++ [(queryCmd, Taker.process k)]).map Prod.fst)
        (es ++ [(queryCmd, Taker.process k)])
        (asks ((es ++ [(queryCmd, Taker.process k)]).map Prod.fst))
        (answers X.snaps (es ++ [(queryCmd, Taker.process k)])).length cast) := by
  have hlen : (answers X.snaps (es ++ [(queryCmd, Taker.process k)])).length =
      (answers X.snaps es).length + 1 + (X.snaps k).messages.length := by
    rw [answers_append, answers_singleton, List.length_append]
    simp [answer]
    omega
  refine Triple.bind (sendPing_triple hc hzero) (fun _ => ?_)
  rw [hlen]
  refine Triple.conseq (Triple.reads (X.snaps k).reads_messages (fun j =>
    RootAt i ((es ++ [(queryCmd, Taker.process k)]).map Prod.fst)
      (es ++ [(queryCmd, Taker.process k)])
      (asks ((es ++ [(queryCmd, Taker.process k)]).map Prod.fst))
      ((answers X.snaps es).length + 1 + j) cast) (fun j m hj => recvData_triple hc hj))
    (fun _ _ h => h) (fun _ _ _ h => h.2)

/-! ### The calls -/

/-- What rank 0 knows when its last command has been taken: after a quit flag of 0 all that belongs
    to it has been exchanged, and every rank has entered the call's barriers. -/
def Replied (X : Setup) (i : ℕ) (es : List (Int32 × Taker)) (simQuit : Int32) (w : World) : Prop :=
  ∃ asked, (simQuit = 0 → asked = asks (es.map Prod.fst) ∧ Entered X i (2 * es.length - 1) w) ∧
    RootAt i (es.map Prod.fst) es asked (answers X.snaps es).length
      (intBytes 0 :: es.map (fun e => intBytes e.2.reply)) w

/-- A query by rank 0 of the client: the command, its quit flag, and the state unless the flag is
    set. -/
theorem query_root {es : List (Int32 × Taker)} (hzero : ∀ e ∈ es, e.2.reply = 0)
    (hlast : ∃ cmds cmd, es.map Prod.fst = cmds ++ [cmd] ∧ cmd ≠ disconnectCmd)
    {this : SimulationConnection ℕ} (hthis : this.intercomm = some i) :
    (outline X).Triple (.client i c) (fun w => Entered X i (2 * es.length - 1) w ∧ Idle X i es w)
      (SimulationConnection.query (X.size i) c this)
      (fun p w => ∃ t : Taker, (p.2.intercomm = some i ∧ p.2.simQuit = t.reply) ∧
        Replied X i (es ++ [(queryCmd, t)]) t.reply w) := by
  rw [SimulationConnection.query]
  refine Triple.bind (sendCommand_root hc (.inl rfl) hzero hlast hthis)
    (fun this' => Triple.exists (fun t => Triple.pure (fun hthis' => ?_)))
  obtain rfl := hthis'
  cases t with
  | destructor =>
      have hone : (Taker.destructor).reply ≠ 0 := by decide
      have hlen : (answers X.snaps (es ++ [(queryCmd, .destructor)])).length =
          (answers X.snaps es).length + 1 := by
        rw [answers_append, answers_singleton, answer_of_ne X.snaps (.inr rfl)]
        simp
      rw [if_pos hone]
      refine Triple.ret (fun w _ h => ⟨.destructor, ⟨hthis, rfl⟩, ?_⟩)
      obtain ⟨-, hat⟩ := h
      rw [← hlen] at hat
      exact ⟨_, fun h => absurd h hone, hat⟩
  | process k =>
      have hzero' : ¬ (Taker.process k).reply ≠ 0 := by simp [Taker.reply]
      rw [if_neg hzero']
      simp only [hthis]
      obtain ⟨rest, hregions, hrest⟩ := queriedRegions_root X i
      refine Triple.bind (remoteSize_triple (entered_root_stable hc))
        (fun size => Triple.pure (fun hsize => ?_))
      have hlist : queriedRegions X.simSize (X.size i) (c : ℕ) = 0 :: rest := by
        rw [hc]
        exact hregions
      rw [hsize, hlist]
      simp only [SimulationConnection.queryRegions, Prog.bind_assoc, pure_eq, ret_bind]
      refine Triple.bind (entered_frame (queryRegion_root hc hzero)) (fun r => ?_)
      refine Triple.bind (queryRegions_other (entered_root_stable hc)
        (fun w hinv h => h.2.told hinv (zero_process hzero)) rest hrest) (fun rs => ?_)
      refine Triple.bind (barrier_root hc) (fun _ => Triple.ret (fun w _ h => ?_))
      obtain ⟨hentered, hat⟩ := h
      refine ⟨.process k, ⟨rfl, rfl⟩, _, fun _ => ⟨rfl, ?_⟩, hat⟩
      rwa [List.length_append, List.length_singleton]

/-- The destructor disconnects, if the client has not been told to quit. -/
theorem destructor_root {es : List (Int32 × Taker)} (hzero : ∀ e ∈ es, e.2.reply = 0)
    (hlast : ∃ cmds cmd, es.map Prod.fst = cmds ++ [cmd] ∧ cmd ≠ disconnectCmd)
    {this : SimulationConnection ℕ} (hthis : this.intercomm = some i) (hquit : this.simQuit = 0) :
    (outline X).Triple (.client i c) (fun w => Entered X i (2 * es.length - 1) w ∧ Idle X i es w)
      (SimulationConnection.destructor c this)
      (fun q w => ∃ t : Taker, q = t.reply ∧ ∃ asked,
        RootAt i ((es ++ [(disconnectCmd, t)]).map Prod.fst) (es ++ [(disconnectCmd, t)]) asked
          (answers X.snaps (es ++ [(disconnectCmd, t)])).length
          (intBytes 0 :: (es ++ [(disconnectCmd, t)]).map (fun e => intBytes e.2.reply)) w) := by
  rw [SimulationConnection.destructor, if_pos hquit]
  simp only [SimulationConnection.disconnect, Prog.bind_assoc, pure_eq, ret_bind]
  refine Triple.bind (sendCommand_root hc (.inr rfl) hzero hlast hthis)
    (fun this' => Triple.exists (fun t => Triple.pure (fun hthis' => ?_)))
  obtain rfl := hthis'
  refine Triple.bind (release_triple (entered_root_stable hc)) (fun _ => ?_)
  refine Triple.bind (release_triple (entered_root_stable hc)) (fun _ => ?_)
  have hquery : disconnectCmd ≠ queryCmd := by decide
  have hlen : (answers X.snaps (es ++ [(disconnectCmd, t)])).length =
      (answers X.snaps es).length + 1 := by
    rw [answers_append, answers_singleton, answer_of_ne X.snaps (.inl hquery)]
    simp
  refine Triple.ret (fun w _ h => ⟨t, rfl, ?_⟩)
  obtain ⟨-, hat⟩ := h
  rw [← hlen] at hat
  exact ⟨_, hat⟩

/-- The end of `connect` and of `query`. -/
theorem keep_root {es : List (Int32 × Taker)} {cmd : Int32} {t : Taker} {quits : List Int32}
    {queries : ℕ} {this : SimulationConnection ℕ} (hcmd : cmd ≠ disconnectCmd)
    (hquits : quits = es.map (fun e => e.2.reply)) (hzero : ∀ quit ∈ quits, quit = 0)
    (hthis : this.intercomm = some i ∧ this.simQuit = t.reply) :
    (outline X).Triple (.client i c) (Replied X i (es ++ [(cmd, t)]) t.reply)
      (keep c quits queries this) (clientPost X i c) := by
  have hmap : quits ++ [this.simQuit] = (es ++ [(cmd, t)]).map (fun e => e.2.reply) := by
    rw [hquits, hthis.2, List.map_append]
    rfl
  rw [keep]
  split
  · next hquit =>
    refine Triple.ret (fun w _ h => ?_)
    obtain ⟨asked, hasked, hat⟩ := h
    obtain ⟨rfl, hentered⟩ := hasked (hthis.2 ▸ hquit)
    refine ⟨⟨hthis.1, hquit, ?_⟩, fun _ =>
      ⟨_, hmap, ⟨hentered, hat⟩, es.map Prod.fst, cmd, by simp, hcmd⟩, fun hne => absurd hc hne⟩
    intro quit hmem
    rcases List.mem_append.1 hmem with hmem | hmem
    · exact hzero quit hmem
    · rw [List.mem_singleton.1 hmem, hquit]
  · next hquit =>
    rw [SimulationConnection.destructor, if_neg hquit, Prog.bind_assoc]
    have hstable : (outline X).Stable (.client i c) (Replied X i (es ++ [(cmd, t)]) t.reply) :=
      fun _ _ ⟨asked, hasked, hat⟩ hrely _ =>
        ⟨asked, fun h => ⟨(hasked h).1, (hasked h).2.stable hrely⟩, hat.stable hrely hc⟩
    refine Triple.bind (release_triple hstable) (fun _ => Triple.ret (fun w _ h => ?_))
    obtain ⟨asked, -, hat⟩ := h
    exact ⟨fun _ => ⟨_, asked, hmap, hat⟩, fun hne => absurd hc hne⟩

/-- The first broadcast is that of `simQuit` before any reply. -/
theorem bcastQuit_first {n : ℕ} {bs : Bytes} {this : SimulationConnection ℕ}
    (hthis : this.simQuit = 0) :
    (outline X).Triple (.client i c) (fun w => Entered X i n w ∧ Fresh i bs [] w)
      (SimulationConnection.bcastQuit this)
      (fun this' w => this' = this ∧ Entered X i n w ∧ Fresh i bs [intBytes 0] w) := by
  have hbcast : (outline X).Triple (.client i c) (fun w => Entered X i n w ∧ Fresh i bs [] w)
      (ClientOp.mpiBcast (intBytes this.simQuit))
      (fun r w => r = intBytes this.simQuit ∧ Entered X i n w ∧ Fresh i bs [intBytes 0] w) := by
    refine client_op ?_ (fun _ _ _ => trivial) ?_
    · exact fun _ _ h hrely _ => ⟨h.1.stable hrely, h.2.stable hrely hc⟩
    · rintro w r w' hinv ⟨hentered, hat⟩ hperform
      simp only [performClient, if_pos hc] at hperform
      obtain ⟨hr, rfl⟩ := hperform
      rw [hthis]
      refine ⟨hinv.cast ?_, hthis ▸ hr, hentered, { hat with cast := ?_ }⟩
      · rw [hat.cast]
        exact List.cons_prefix_cons.2 ⟨rfl, List.nil_prefix⟩
      · simp only [Function.update_self, hat.cast, List.nil_append]
  refine Triple.bind hbcast (fun r => Triple.pure (fun hr => Triple.ret (fun w _ h => ⟨?_, h⟩)))
  rw [hr, intOfBytes_intBytes]

theorem connectSim_root :
    (outline X).Triple (.client i c) (fun w => Fresh i [] [] w ∧ i ∉ w.dials.sent)
      (SimulationConnection.connectSim c)
      (fun this w => ∃ t : Taker, (this.intercomm = some i ∧ this.simQuit = t.reply) ∧
        Replied X i ([] ++ [(connectCmd, t)]) t.reply w) := by
  have hlisten : (outline X).Triple (.client i c) (fun w => Fresh i [] [] w ∧ i ∉ w.dials.sent)
      ClientOp.listenComm (fun r w => r = i ∧ Fresh i [] [] w ∧ i ∉ w.dials.sent ∧
        (w.opened i = true ∨ w.linked i = true)) := by
    refine client_op ?_ (fun _ _ _ => trivial) ?_
    · exact fun _ _ h hrely _ => ⟨h.1.stable hrely hc, hrely.rootDial hc h.2⟩
    · intro w r w' hinv ⟨hat, hnew⟩ hperform
      simp only [performClient, if_pos hc] at hperform
      obtain ⟨hr, hport, rfl⟩ := hperform
      exact ⟨hinv.listen hport, hr, { hat with }, hnew, .inl (by simp)⟩
  have hstable : (outline X).Stable (.client i c) (fun w => Fresh i [] [] w ∧ i ∉ w.dials.sent ∧
      (w.opened i = true ∨ w.linked i = true)) :=
    fun _ _ h hrely _ => ⟨h.1.stable hrely hc, hrely.rootDial hc h.2.1, hrely.port h.2.2⟩
  -- the simulation connects only when it has taken the command
  have haccept : (outline X).Triple (.client i c) (Fresh i (frameBytes X i) [intBytes 0])
      (ClientOp.acceptComm i)
      (fun _ => RootAt i (([] : List (Int32 × Taker)).map Prod.fst ++ [connectCmd]) [] []
        (answers X.snaps []).length [intBytes 0]) := by
    refine client_op (fresh_stable hc _ _) (fun _ _ _ => trivial) ?_
    rintro w r w' hinv hat ⟨hlinked, rfl⟩
    have hgiven : commandsOf i w'.issued ≠ [] := by
      intro hnone
      have hbegins := commandsOf_grow i (List.take_prefix w'.takes.length w'.issued)
      rw [hnone] at hbegins
      exact hinv.linked i hlinked (List.prefix_nil.1 hbegins)
    exact ⟨hinv, {
      commands := hat.commands.resolve_left hgiven
      given := by simp
      answered := List.nil_prefix
      upSent := hat.upSent
      downTaken := hat.downTaken
      cast := hat.cast }⟩
  simp only [SimulationConnection.connectSim, SimulationConnection.sendCommand,
    SimulationConnection.issueCommand, if_pos hc, if_true, Prog.bind_assoc, pure_eq, ret_bind]
  refine Triple.bind hlisten (fun comm => Triple.pure (fun hcomm => ?_))
  rw [hcomm]
  refine Triple.bind (portName_triple hstable) (fun name => Triple.pure (fun hname => ?_))
  rw [hname]
  refine Triple.bind (sendFrame_triple hc) (fun _ => ?_)
  have hbarrier : (outline X).Triple (.client i c) (Fresh i (frameBytes X i) [])
      ClientOp.mpiBarrier (fun _ w => Entered X i 1 w ∧ Fresh i (frameBytes X i) [] w) :=
    Triple.conseq (barrier_triple (fresh_stable hc _ _) (fresh_stable hc _ _)
      (fun _ h => { h with })) (fun w _ h => ⟨fun c' _ => Nat.zero_le _, h⟩) (fun _ _ _ h => h)
  refine Triple.bind hbarrier (fun _ => ?_)
  refine Triple.bind (bcastQuit_first hc rfl) (fun this => Triple.pure (fun hthis => ?_))
  rw [hthis]
  refine Triple.bind (entered_frame haccept) (fun _ => ?_)
  refine Triple.bind (recvQuit_triple hc)
    (fun q => Triple.exists (fun t => Triple.pure (fun hq => ?_)))
  rw [hq, intOfBytes_intBytes]
  have hquery : connectCmd ≠ queryCmd := by decide
  have hlen : (answers X.snaps ([] ++ [(connectCmd, t)])).length =
      (answers X.snaps []).length + 1 := by
    rw [answers_append, answers_singleton, answer_of_ne X.snaps (.inl hquery)]
    rfl
  rw [← hlen]
  refine Triple.conseq (entered_frame (bcastQuit_root hc rfl)) (fun _ _ h => h) ?_
  rintro this' w - ⟨hentered, rfl, hat⟩
  exact ⟨t, ⟨rfl, rfl⟩, _, fun _ => ⟨rfl, hentered⟩, hat⟩

theorem clientCode_root (l : ClientLabel) :
    (outline X).Triple (.client i c) (clientPost X i c l) (clientCode X i c l)
      (clientPost X i c) := by
  have hconnect : connectCmd ≠ disconnectCmd := by decide
  have hquery : queryCmd ≠ disconnectCmd := by decide
  cases l with
  | start =>
      have hrun : (outline X).Triple (.client i c) (clientPost X i c .start)
          (SimulationConnection.connectSim c) _ :=
        Triple.conseq (connectSim_root hc) (fun w _ h => h.1 hc) (fun _ _ _ h => h)
      refine Triple.bind hrun (fun this => Triple.exists (fun t => Triple.pure (fun hthis => ?_)))
      exact keep_root hc hconnect rfl (fun quit h => absurd h List.not_mem_nil) hthis
  | connected this quits queries =>
      have hrun : (outline X).Triple (.client i c)
          (fun w => (this.intercomm = some i ∧ this.simQuit = 0 ∧ ∀ quit ∈ quits, quit = 0) ∧
            ∃ es, (quits = es.map (fun e => e.2.reply) ∧
              ∃ cmds cmd, es.map Prod.fst = cmds ++ [cmd] ∧ cmd ≠ disconnectCmd) ∧
                Entered X i (2 * es.length - 1) w ∧ Idle X i es w)
          (clientCode X i c (.connected this quits queries)) (clientPost X i c) := by
        refine Triple.pure (fun hthis => Triple.exists (fun es => Triple.pure (fun hes => ?_)))
        have hzero : ∀ e ∈ es, e.2.reply = 0 := by
          intro e he
          refine hthis.2.2 _ ?_
          rw [hes.1]
          exact List.mem_map_of_mem he
        cases queries with
        | zero =>
            refine Triple.bind (destructor_root hc hzero hes.2 hthis.1 hthis.2.1)
              (fun q => Triple.ret (fun w _ h => ?_))
            obtain ⟨t, rfl, asked, hat⟩ := h
            refine ⟨fun _ => ⟨_, asked, ?_, hat⟩, fun hne => absurd hc hne⟩
            rw [hes.1, List.map_append]
            rfl
        | succ queries =>
            refine Triple.bind (query_root hc hzero hes.2 hthis.1)
              (fun p => Triple.exists (fun t => Triple.pure (fun hp => ?_)))
            exact keep_root hc hquery hes.1 hthis.2.2 hp
      refine Triple.conseq hrun (fun w _ h => ?_) (fun _ _ _ h => h)
      obtain ⟨es, hquits, hat, hlast⟩ := h.2.1 hc
      exact ⟨h.1, es, ⟨hquits, hlast⟩, hat⟩
  | gone quits => exact Triple.ret (fun _ _ h => h)

end Root

theorem clientCode_triple (l : ClientLabel) :
    (outline X).Triple (.client i c) (clientPost X i c l) (clientCode X i c l)
      (clientPost X i c) := by
  by_cases hc : (c : ℕ) = 0
  · exact clientCode_root hc l
  · exact clientCode_follower hc l

end Session

end LibIS
