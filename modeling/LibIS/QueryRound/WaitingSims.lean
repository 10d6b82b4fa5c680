import LibIS.QueryRound.Waiting

set_option autoImplicit false

/-! # Rounds of queries: where the simulation ranks wait

The second proof for the simulation ranks. Whatever a rank does, it knows how far it is in its call
(`Working`), and rank 0 that it has announced no more than it may (`Few`). It waits for a message of
its client or for rank 0 only between the parts of a call. -/

open ByteCodec Prog ThreadSystem Proof

namespace LibIS

namespace QueryRound

variable {M N : ℕ} {snaps : Snapshots} {T B K : ℕ} {calls : List Branch}

theorem quits_lt (s r : ℕ) : (quits s r).length < perRound s := by
  rw [perRound_eq s r]
  exact Nat.lt_succ_self _

/-! ## What a rank knows in a call -/

section Known

variable {s : ℕ} {cast : List Bytes} {out : List Message} {took : ℕ} {w : World}

theorem castCalls_idle : castCalls [intBytes 0] = [.idle] := by
  rw [castCalls, if_pos (intOfBytes_intBytes 0)]

theorem castCalls_flag : castCalls [intBytes 1] = [.query] := by
  rw [castCalls, intOfBytes_intBytes]
  rfl

theorem castCalls_query : castCalls [intBytes 1, intBytes Command.query.toInt32] = [.query] := by
  rw [castCalls, intOfBytes_intBytes]
  rfl

/-- What rank 0 has announced, from what it knows in a call. -/
theorem SimAt.few (h : SimAt M N snaps s calls cast out took w) (hroot : InBlock M N 0 0)
    (hs : s = 0) (hidle : (calls ++ castCalls cast).count .idle ≤ K)
    (htook : queryCalls (calls ++ castCalls cast) = queryCalls calls ∨
      castCalls cast = [.query] ∧ 0 < took) : Few K w := by
  have hcalls : castCalls w.simCast = calls ++ castCalls cast := by
    rw [h.rootCast hs, castCalls_append h.polled]
  have htaken : (w.up 0 0).taken = 2 * (queryCalls calls).length + took := by
    subst hs
    exact h.up 0 hroot
  constructor
  · rw [World.vainCalls, hcalls]
    exact hidle
  · rw [World.rounds, hcalls, htaken]
    rcases htook with hsame | ⟨hquery, hpos⟩
    · rw [hsame]
      omega
    · rw [hquery, queryCalls_concat, if_pos rfl, List.length_append, List.length_singleton]
      omega

/-- The replies that a rank has sent in a call are of its round. -/
def InRound (calls : List Branch) (out : List Message) (took : ℕ) : Prop :=
  ∀ m ∈ out, m.round = (queryCalls calls).length ∧ 0 < took

theorem InRound.nil : InRound calls [] took :=
  fun _ hm => absurd hm (List.not_mem_nil)

theorem InRound.quits (hpos : s = 0 → 0 < took) :
    InRound calls (quits s (queryCalls calls).length) took := by
  intro m hm
  unfold QueryRound.quits at hm
  split at hm
  · next hs =>
      rw [List.mem_singleton.1 hm]
      exact ⟨rfl, hpos hs⟩
  · exact absurd hm (List.not_mem_nil)

theorem InRound.data (sent : List Bytes) :
    InRound calls (QueryRound.quits s (queryCalls calls).length ++
      sent.map (fun m => ⟨.data, m, (queryCalls calls).length⟩)) (perRound s) := by
  intro m hm
  rcases List.mem_append.1 hm with hm | hm
  · exact InRound.quits (fun _ => perRound_pos s) m hm
  · obtain ⟨b, -, rfl⟩ := List.mem_map.1 hm
    exact ⟨rfl, perRound_pos s⟩

/-- A rank that has not taken the ping need not have sent the state. -/
theorem SimAt.replied (h : SimAt M N snaps s calls cast out took w) (hlt : took < perRound s) :
    Replied M N snaps s w :=
  ⟨calls, cast, out, took, h, hlt⟩

theorem Awaiting.replied (h : Awaiting M N snaps s w) : Replied M N snaps s w := by
  obtain ⟨calls, ⟨-, hat⟩ | hat⟩ := h
  · exact hat.replied (perRound_pos s)
  · exact hat.replied (quits_lt s _)

end Known

/-! ## The operations of `process()` -/

section Process

variable {s : Fin M}

theorem sim_waits {o : SimOp Unit} {pre : World → Prop} {Q : o.Resp → World → Prop}
    (h : (outline M N snaps).Triple (.sim s) pre (Prog.op o) Q)
    (hstable : ∀ w w', pre w → SimRely s w w' → pre w')
    (hdue : ∀ w, pre w → Working M N snaps s w ∧ ((s : ℕ) = 0 → Few K w) ∧
      dueSim M N snaps s o w) :
    (waiting M N snaps T B K).Triple (.sim s) pre (Prog.op o) Q := by
  have hmore : (waiting M N snaps T B K).Triple (.sim s) pre (Prog.op o) (fun _ _ => True) := by
    refine Triple.more_op ?_ ?_ ?_
    · exact fun w w' h hrely _ => hstable w w' h hrely
    · exact fun w _ h => hdue w h
    · exact fun _ _ _ _ _ _ _ _ => trivial
  exact Triple.conseq (Triple.and_known h hmore) (fun _ _ h => ⟨h, h⟩) (fun _ _ _ h => h.1)

/-- Before it has announced anything, a rank knows enough. -/
theorem SimAt.opening {out : List Message} {took : ℕ} {w : World}
    (h : SimAt M N snaps s calls [] out took w) (hroot : InBlock M N 0 0)
    (hidle : (s : ℕ) = 0 → calls.count .idle ≤ K) (hout : InRound calls out took) :
    Working M N snaps s w ∧ ((s : ℕ) = 0 → Few K w) := by
  refine ⟨⟨calls, [], out, took, h, hout⟩, fun hs => h.few hroot hs ?_ (.inl ?_)⟩
  · rw [castCalls, List.append_nil]
    exact hidle hs
  · rw [castCalls, List.append_nil]

/-- So does it when it has announced a query. -/
theorem SimAt.answering {cast : List Bytes} {out : List Message} {took : ℕ} {w : World}
    (h : SimAt M N snaps s calls cast out took w) (hroot : InBlock M N 0 0)
    (hidle : (s : ℕ) = 0 → calls.count .idle ≤ K) (hout : InRound calls out took)
    (hcast : castCalls cast = [.query]) (hpos : (s : ℕ) = 0 → 0 < took) :
    Working M N snaps s w ∧ ((s : ℕ) = 0 → Few K w) := by
  refine ⟨⟨calls, cast, out, took, h, hout⟩, fun hs => h.few hroot hs ?_ (.inr ⟨hcast, hpos hs⟩)⟩
  rw [hcast, List.count_append]
  exact hidle hs

theorem quits_pos (s : ℕ) (r : ℕ) (hs : s = 0) : 0 < (quits s r).length := by
  rw [quits, if_pos hs]
  exact Nat.one_pos

/-- `poll`: rank 0 finds no command only as often as it may. -/
theorem poll_waits (hroot : InBlock M N 0 0) (hidle : (s : ℕ) = 0 → calls.count .idle ≤ K)
    {cm : ConnectionManager Unit} (hcm : Connected cm) :
    (waiting M N snaps T B K).Triple (.sim s) (SimAt M N snaps s calls [] [] 0)
      (ConnectionManager.poll s cm)
      (fun p w => (p.1 = 0 → (s : ℕ) = 0 → calls.count .idle < K) ∧
        Polling M N snaps s calls p w) := by
  refine Triple.conseq (Triple.and_known (poll_triple hroot hcm) ?_) (fun _ _ h => ⟨h, h⟩)
    (fun _ _ _ h => ⟨h.2, h.1⟩)
  obtain ⟨intercomm, clientPort, clientCommand, newQuery⟩ := cm
  obtain ⟨rfl, rfl⟩ : intercomm = some () ∧ newQuery = false := hcm
  have hawaiting : ∀ w, (s : ℕ) = 0 → SimAt M N snaps s calls [] [] 0 w →
      Awaiting M N snaps s w := fun w hs hat => ⟨calls, .inl ⟨hs, hat⟩⟩
  simp only [ConnectionManager.poll]
  by_cases hs : (s : ℕ) = 0
  · rw [if_pos hs]
    have hprobe : (waiting M N snaps T B K).Triple (.sim s) (SimAt M N snaps s calls [] [] 0)
        (SimOp.probeRank () 0) (fun found w => (found = false → calls.count .idle < K) ∧
          SimAt M N snaps s calls [] [] 0 w) := by
      refine Triple.more_op ?_ ?_ ?_
      · exact fun w w' hat hrely _ => hat.stable hrely
      · intro w _ hat
        obtain ⟨hworking, hfew⟩ := hat.opening hroot hidle InRound.nil
        exact ⟨hworking, hfew, hs, rfl, hawaiting w hs hat⟩
      · intro w found w' _ hat hperform hpatient _
        obtain ⟨-, hsame⟩ : found = (w.up 0 s).next?.isSome ∧ w' = w := hperform
        have hpoll : found = true ∨ w.vainCalls < K := hpatient.2
        rw [hsame]
        refine ⟨fun hfalse => ?_, hat⟩
        -- rank 0 polls in vain only while it may, and its idle calls are those so far
        have hvain := hpoll.resolve_left (by rw [hfalse]; exact Bool.false_ne_true)
        rwa [World.vainCalls, hat.rootCast hs, List.append_nil, castCalls_castsOf hat.polled] at hvain
    refine Triple.bind hprobe (fun found => Triple.pure (fun hfound => ?_))
    cases found with
    | false => exact Triple.ret (fun _ _ _ _ _ => hfound rfl)
    | true =>
        have hnext : upMessage 0 s (perRound s * (queryCalls calls).length + 0) =
            ⟨.command, intBytes Command.query.toInt32, (queryCalls calls).length⟩ := by
          rw [hs, Nat.add_zero]
          exact upMessage_command 0 _
        have hblock : InBlock M N 0 s := hs ▸ hroot
        refine Triple.bind (sim_waits (recv_triple hnext) (fun _ _ => SimAt.stable) ?_) (fun a => ?_)
        · intro w hat
          obtain ⟨hworking, hfew⟩ := hat.opening hroot hidle InRound.nil
          exact ⟨hworking, hfew, Nat.succ_pos 3, hblock, hawaiting w hs hat⟩
        refine Triple.pure (fun _ => Triple.bind
          (sim_waits (sendQuit_triple hroot hs) (fun _ _ => SimAt.stable) ?_) (fun _ => ?_))
        · intro w hat
          obtain ⟨hworking, hfew⟩ := hat.opening hroot hidle InRound.nil
          exact ⟨hworking, hfew, trivial⟩
        · have hone : (1 : Int32) ≠ 0 := by decide
          exact Triple.ret (fun _ _ _ hp => absurd hp hone)
  · rw [if_neg hs]
    exact Triple.ret (fun _ _ _ _ h0 => absurd h0 hs)

theorem bcastFlag_waits (hroot : InBlock M N 0 0) (hidle : (s : ℕ) = 0 → calls.count .idle ≤ K)
    {p : Int32 × ConnectionManager Unit}
    (hvain : p.1 = 0 → (s : ℕ) = 0 → calls.count .idle < K) :
    (waiting M N snaps T B K).Triple (.sim s) (Polling M N snaps s calls p)
      (SimOp.mpiBcast (intBytes p.1))
      (fun r w => Connected p.2 ∧
        ((r = intBytes 0 ∧ ((s : ℕ) = 0 → calls.count .idle < K) ∧
            SimAt M N snaps s calls [intBytes 0] [] 0 w) ∨
          (r = intBytes 1 ∧ ((s : ℕ) = 0 → p.2.clientCommand = Command.query.toInt32) ∧
            SimAt M N snaps s calls [intBytes 1] (quits s (queryCalls calls).length)
              (quits s (queryCalls calls).length).length w))) := by
  have hflag : (waiting M N snaps T B K).Triple (.sim s) (Polling M N snaps s calls p)
      (SimOp.mpiBcast (intBytes p.1)) (fun r _ => (s : ℕ) = 0 → r = intBytes p.1) := by
    refine Triple.more_op ?_ ?_ ?_
    · exact fun w w' hpoll hrely _ => hpoll.stable hrely
    · rintro w - ⟨-, ⟨-, hat⟩ | ⟨hs, -, -, hat⟩⟩
      · obtain ⟨hworking, hfew⟩ := hat.opening hroot hidle InRound.nil
        exact ⟨hworking, hfew, hat.replied (perRound_pos s), fun _ => ⟨calls, .inl hat⟩⟩
      · obtain ⟨hworking, hfew⟩ := hat.opening hroot hidle (InRound.quits (fun _ => Nat.one_pos))
        have hlt := quits_lt s (queryCalls calls).length
        rw [quits, if_pos hs, List.length_singleton] at hlt
        exact ⟨hworking, hfew, hat.replied hlt, fun hne => absurd hs hne⟩
    · intro w r w' _ _ hperform _ _ hs
      have hcast : performSim N s (.bcast (intBytes p.1)) w r w' := hperform
      rw [performSim, if_pos hs] at hcast
      exact hcast.1
  refine Triple.conseq (Triple.and_known (bcastFlag_triple p) hflag) (fun _ _ h => ⟨h, h⟩) ?_
  rintro r w - ⟨⟨hcm, ⟨rfl, hat⟩ | hset⟩, hsame⟩
  · refine ⟨hcm, .inl ⟨rfl, fun hs => hvain ?_ hs, hat⟩⟩
    rw [← intOfBytes_intBytes p.1, ← hsame hs, intOfBytes_intBytes]
  · exact ⟨hcm, .inr hset⟩

theorem sendAll_waits (hroot : InBlock M N 0 0) (hidle : (s : ℕ) = 0 → calls.count .idle ≤ K)
    {c : ℕ} (hblock : InBlock M N c s) (rest sent : List Bytes)
    (hm : (snaps s calls.length).messages = sent ++ rest) :
    (waiting M N snaps T B K).Triple (.sim s)
      (SimAt M N snaps s calls [intBytes 1, intBytes Command.query.toInt32]
        (quits s (queryCalls calls).length ++
          sent.map (fun m => ⟨.data, m, (queryCalls calls).length⟩)) (perRound s))
      (ConnectionManager.sendAll () c rest)
      (fun _ => SimAt M N snaps s calls [intBytes 1, intBytes Command.query.toInt32]
        (reply snaps s calls.length (queryCalls calls).length) (perRound s)) := by
  induction rest generalizing sent with
  | nil =>
      refine Triple.ret (fun w _ hat => ?_)
      rw [reply, hm, List.append_nil]
      exact hat
  | cons m rest ih =>
      refine Triple.bind (sim_waits (sendData_triple hblock hm) (fun _ _ => SimAt.stable) ?_)
        (fun _ => ih (sent ++ [m]) ?_)
      · intro w hat
        obtain ⟨hworking, hfew⟩ := hat.answering hroot hidle (InRound.data sent) castCalls_query
          (fun _ => perRound_pos s)
        exact ⟨hworking, hfew, trivial⟩
      · rw [hm, List.append_assoc, List.singleton_append]

theorem handleQuery_waits (hroot : InBlock M N 0 0) (hidle : (s : ℕ) = 0 → calls.count .idle ≤ K)
    {cm : ConnectionManager Unit} (hcm : Connected cm) :
    (waiting M N snaps T B K).Triple (.sim s)
      (SimAt M N snaps s calls [intBytes 1, intBytes Command.query.toInt32]
        (quits s (queryCalls calls).length) (quits s (queryCalls calls).length).length)
      (ConnectionManager.handleQuery (snaps s calls.length).sends cm)
      (fun _ => SimAt M N snaps s calls [intBytes 1, intBytes Command.query.toInt32]
        (reply snaps s calls.length (queryCalls calls).length) (perRound s)) := by
  obtain ⟨intercomm, clientPort, clientCommand, newQuery⟩ := cm
  obtain ⟨rfl, rfl⟩ : intercomm = some () ∧ newQuery = false := hcm
  have hpinged : ∀ w, SimAt M N snaps s calls [intBytes 1, intBytes Command.query.toInt32]
      (quits s (queryCalls calls).length) (quits s (queryCalls calls).length).length w →
      (Working M N snaps s w ∧ ((s : ℕ) = 0 → Few K w)) ∧ Awaiting M N snaps s w := by
    intro w hat
    exact ⟨hat.answering hroot hidle (InRound.quits (quits_pos s _)) castCalls_query (quits_pos s _),
      calls, .inr hat⟩
  rw [Snapshot.sends_eq]
  simp only [ConnectionManager.handleQuery]
  refine Triple.bind (sim_waits probeAny_triple (fun _ _ => SimAt.stable) ?_)
    (fun c => Triple.pure (fun hblock => ?_))
  · intro w hat
    obtain ⟨⟨hworking, hfew⟩, hawaiting⟩ := hpinged w hat
    exact ⟨hworking, hfew, hawaiting⟩
  refine Triple.bind (sim_waits (recv_triple (upMessage_ping c s _)) (fun _ _ => SimAt.stable) ?_)
    (fun _ => Triple.pure (fun _ => ?_))
  · intro w hat
    obtain ⟨⟨hworking, hfew⟩, hawaiting⟩ := hpinged w hat
    exact ⟨hworking, hfew, Nat.succ_pos 3, hblock, hawaiting⟩
  rw [← perRound_eq]
  have hsend := sendAll_waits (T := T) (B := B) hroot hidle hblock
    (snaps s calls.length).messages [] rfl
  rw [List.map_nil, List.append_nil] at hsend
  exact hsend

theorem process_waits (hroot : InBlock M N 0 0) (hidle : (s : ℕ) = 0 → calls.count .idle ≤ K) :
    (waiting M N snaps T B K).Triple (.sim s) (SimAt M N snaps s calls [] [] 0)
      (ConnectionManager.process s (snaps s calls.length).sends)
      (fun branch _ => (s : ℕ) = 0 → (calls ++ [branch]).count .idle ≤ K) := by
  have hzero : intOfBytes (intBytes 0) = 0 := intOfBytes_intBytes 0
  have hone : intOfBytes (intBytes 1) ≠ 0 := by
    rw [intOfBytes_intBytes]
    decide
  have hquery : Command.query.toInt32 ≠ Command.connect.toInt32 := by decide
  simp only [ConnectionManager.process]
  refine Triple.bind (sim_waits lock_triple (fun _ _ => SimAt.stable) ?_)
    (fun cm => Triple.pure (fun hcm => ?_))
  · intro w hat
    obtain ⟨hworking, hfew⟩ := hat.opening hroot hidle InRound.nil
    exact ⟨hworking, hfew, hat.replied (perRound_pos s)⟩
  refine Triple.bind (poll_waits hroot hidle hcm) (fun p => Triple.pure (fun hvain => ?_))
  refine Triple.bind (bcastFlag_waits hroot hidle hvain) (fun r => Triple.pure (fun hcm => ?_))
  refine Triple.or (Triple.pure (fun hr => Triple.pure (fun hless => ?_)))
    (Triple.pure (fun hr => Triple.pure (fun hcmd => ?_)))
  · rw [hr, if_pos hzero]
    refine Triple.bind (sim_waits (unlock_triple hcm) (fun _ _ => SimAt.stable) ?_)
      (fun _ => Triple.ret (fun w _ _ hs => ?_))
    · intro w hat
      have hcount : (s : ℕ) = 0 → (calls ++ castCalls [intBytes 0]).count .idle ≤ K := by
        intro hs
        rw [castCalls_idle, List.count_append]
        exact hless hs
      refine ⟨⟨calls, _, _, _, hat, InRound.nil⟩, fun hs => hat.few hroot hs (hcount hs) (.inl ?_),
        hat.replied (perRound_pos s)⟩
      rw [castCalls_idle, queryCalls_concat, if_neg (by decide), List.append_nil]
    · rw [List.count_append]
      exact hless hs
  · rw [hr, if_neg hone]
    refine Triple.bind (sim_waits (bcastCommand_triple hcmd) (fun _ _ => SimAt.stable) ?_)
      (fun r' => Triple.pure (fun hr' => ?_))
    · intro w hat
      obtain ⟨hworking, hfew⟩ := hat.answering hroot hidle (InRound.quits (quits_pos s _))
        castCalls_flag (quits_pos s _)
      refine ⟨hworking, hfew, hat.replied (quits_lt s _), fun hs => ⟨calls, .inr ?_⟩⟩
      rwa [quits, if_neg hs] at hat
    rw [hr', intOfBytes_intBytes]
    simp only [ConnectionManager.runCommand, if_neg hquery, if_true, bind_assoc, pure_eq, ret_bind]
    refine Triple.bind (handleQuery_waits hroot hidle ⟨hcm.1, hcm.2⟩) (fun _ => ?_)
    refine Triple.bind (sim_waits (unlock_triple ⟨hcm.1, rfl⟩) (fun _ _ => SimAt.stable) ?_)
      (fun _ => Triple.ret (fun w _ _ hs => ?_))
    · intro w hat
      obtain ⟨hworking, hfew⟩ := hat.answering hroot hidle (InRound.data _) castCalls_query
        (fun _ => perRound_pos s)
      exact ⟨hworking, hfew, hat.query.replied (perRound_pos s)⟩
    · rw [List.count_append]
      exact hidle hs

/-- What a simulation rank has done after a call. -/
theorem sim_code_waits (hroot : InBlock M N 0 0) (calls : List Branch) :
    (waiting M N snaps T B K).Triple (.sim s)
      (fun w => between M N snaps (.sim s) calls w ∧ settled M N snaps T K (.sim s) calls w)
      ((system M N snaps).code (.sim s) calls) (settled M N snaps T K (.sim s)) := by
  have hprocess : ((s : ℕ) = 0 → calls.count .idle ≤ K) →
      (waiting M N snaps T B K).Triple (.sim s) (SimAt M N snaps s calls [] [] 0)
        ((system M N snaps).code (.sim s) calls) (settled M N snaps T K (.sim s)) := by
    intro hidle
    exact Triple.bind (process_waits hroot hidle) (fun _ => Triple.ret (fun _ _ h => h))
  refine Triple.conseq (Triple.pure hprocess) ?_ (fun _ _ _ h => h)
  rintro w - ⟨hat, hidle⟩
  exact ⟨hidle, hat⟩

end Process

end QueryRound

end LibIS
