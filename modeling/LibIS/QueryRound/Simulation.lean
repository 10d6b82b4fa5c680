import LibIS.QueryRound.Outline

set_option autoImplicit false

/-! # Rounds of queries: the simulation ranks

Each operation of `process()` moves `SimAt` on; the call as a whole takes the history of calls to
the next (`process_triple`). -/

open ByteCodec Prog ThreadSystem Proof

namespace LibIS

namespace QueryRound

variable {M N : ℕ} {snaps : Snapshots} {calls : List Branch}

/-! ## Moving on -/

section Moves

variable {s : ℕ} {cast : List Bytes} {out : List Message} {took : ℕ} {w : World}
  (h : SimAt M N snaps s calls cast out took w)
include h

theorem SimAt.announce (hs : s = 0) (buf : Bytes) :
    SimAt M N snaps s calls (cast ++ [buf]) out took
      { w with simCast := w.simCast ++ [buf] } := by
  have hcast : w.simCast ++ [buf] = castsOf calls ++ (cast ++ [buf]) := by
    rw [h.rootCast hs, List.append_assoc]
  exact { h with
    simCast := hcast ▸ List.prefix_refl _
    rootCast := fun _ => hcast
    simHeard := fun hne => absurd hs hne }

/-- What rank `s` hears next stands in the log after what it has heard. -/
theorem SimAt.heard (hs : s ≠ 0) {buf : Bytes} (hbuf : w.simCast[w.simHeard s]? = some buf) :
    castsOf calls ++ (cast ++ [buf]) <+: w.simCast := by
  obtain ⟨t, ht⟩ := h.simCast
  rw [h.simHeard hs, ← ht, List.getElem?_append_right (le_refl _), Nat.sub_self] at hbuf
  obtain ⟨t', rfl⟩ := List.head?_eq_some_iff.1 (by rwa [List.head?_eq_getElem?])
  exact ⟨t', by rw [← ht]; simp⟩

theorem SimAt.hear (hs : s ≠ 0) {buf : Bytes} (hbuf : w.simCast[w.simHeard s]? = some buf) :
    SimAt M N snaps s calls (cast ++ [buf]) out took
      { w with simHeard := Function.update w.simHeard s (w.simHeard s + 1) } := by
  exact { h with
    simCast := h.heard hs hbuf
    rootCast := fun h0 => absurd h0 hs
    simHeard := fun _ => by
      simp only [Function.update_self, h.simHeard hs, List.length_append, List.length_singleton]
      omega }

theorem SimAt.take {c : ℕ} (hblock : InBlock M N c s) {m : Message}
    (hm : m.round = (queryCalls calls).length) :
    SimAt M N snaps s calls cast out (took + 1)
      { w with
        up := updateAt w.up c s (w.up c s).pop
        serving := Function.update w.serving s m.round } := by
  refine { h with up := fun c' hblock' => ?_, serving := fun _ => ?_ }
  · obtain rfl := hblock'.unique hblock
    simp only [updateAt_self, Channel.pop_taken, h.up c' hblock']
    omega
  · simp only [Function.update_self, hm]

theorem SimAt.send {c : ℕ} (hblock : InBlock M N c s) (m : Message) :
    SimAt M N snaps s calls cast (out ++ [m]) took
      { w with down := updateAt w.down s c ((w.down s c).push m) } := by
  refine { h with down := fun c' hblock' => ?_ }
  obtain rfl := hblock'.unique hblock
  simp only [updateAt_self, Channel.push_sent, h.down c' hblock', List.append_assoc]

/-- What stands next on the channel from the rank's client. -/
theorem SimAt.next {c : ℕ} (hinv : Inv M N snaps w) {m : Message}
    (hm : (w.up c s).next? = some m) :
    InBlock M N c s ∧ m = upMessage c s (perRound s * (queryCalls calls).length + took) := by
  have hblock : InBlock M N c s := by
    by_contra hnot
    rw [Channel.next?, hinv.upOwner c s hnot] at hm
    exact absurd hm (by simp)
  rw [Channel.next?, h.up c hblock] at hm
  exact ⟨hblock, hinv.upFollows c s _ m hm⟩

end Moves

/-! ## The operations of `process()` -/

section Process

variable {s : Fin M}

/-- The manager of a connected rank. -/
def Connected (cm : ConnectionManager Unit) : Prop :=
  cm.intercomm = some () ∧ cm.newQuery = false

theorem lock_triple :
    (outline M N snaps).Triple (.sim s) (SimAt M N snaps s calls [] [] 0) SimOp.lockMutex
      (fun cm w => Connected cm ∧ SimAt M N snaps s calls [] [] 0 w) := by
  refine sim_op (fun _ _ => SimAt.stable) (fun _ _ _ => trivial) ?_
  rintro w r w' hinv hat ⟨rfl, rfl⟩
  exact ⟨hinv, ⟨hat.intercomm, hat.newQuery⟩, hat⟩

theorem unlock_triple {cast : List Bytes} {out : List Message} {took : ℕ}
    {cm : ConnectionManager Unit} (hcm : Connected cm) :
    (outline M N snaps).Triple (.sim s) (SimAt M N snaps s calls cast out took)
      (SimOp.unlockMutex cm) (fun _ => SimAt M N snaps s calls cast out took) := by
  refine sim_op (fun _ _ => SimAt.stable) (fun _ _ _ => trivial) ?_
  intro w r w' hinv hat hperform
  simp only [performSim] at hperform
  subst hperform
  refine ⟨{ hinv with }, { hat with intercomm := ?_, newQuery := ?_ }⟩
  · simp only [Function.update_self, hcm.1]
  · simp only [Function.update_self, hcm.2]

theorem recv_triple {cast : List Bytes} {out : List Message} {took c : ℕ} {kind : Kind}
    {data : Bytes}
    (hnext : upMessage c s (perRound s * (queryCalls calls).length + took) =
      ⟨kind, data, (queryCalls calls).length⟩) :
    (outline M N snaps).Triple (.sim s) (SimAt M N snaps s calls cast out took)
      (SimOp.recvFrom () kind data.length c)
      (fun r w => r = data ∧ SimAt M N snaps s calls cast out (took + 1) w) := by
  refine sim_op (fun _ _ => SimAt.stable) ?_ ?_
  · intro w hinv hat m hm
    obtain ⟨-, rfl⟩ := hat.next hinv hm
    rw [hnext]
    exact ⟨rfl, rfl⟩
  · rintro w r w' hinv hat ⟨m, hm, rfl, rfl⟩
    obtain ⟨hblock, rfl⟩ := hat.next hinv hm
    rw [hnext]
    exact ⟨hinv.takeUp hm _, rfl, hat.take hblock rfl⟩

/-- What `poll` leaves: no command, or on rank 0 the query of the round, told not to quit. -/
def Polling (M N : ℕ) (snaps : Snapshots) (s : ℕ) (calls : List Branch)
    (p : Int32 × ConnectionManager Unit) (w : World) : Prop :=
  Connected p.2 ∧
    ((p.1 = 0 ∧ SimAt M N snaps s calls [] [] 0 w) ∨
      (s = 0 ∧ p.1 = 1 ∧ p.2.clientCommand = Command.query.toInt32 ∧
        SimAt M N snaps s calls [] (quits s (queryCalls calls).length) 1 w))

theorem Polling.stable {p : Int32 × ConnectionManager Unit} {w w' : World}
    (h : Polling M N snaps s calls p w) (hrely : SimRely s w w') :
    Polling M N snaps s calls p w' := by
  rcases h with ⟨hcm, ⟨hp, hat⟩ | ⟨hs, hp, hcmd, hat⟩⟩
  · exact ⟨hcm, .inl ⟨hp, hat.stable hrely⟩⟩
  · exact ⟨hcm, .inr ⟨hs, hp, hcmd, hat.stable hrely⟩⟩

theorem sendQuit_triple (hroot : InBlock M N 0 0) (hs : (s : ℕ) = 0) :
    (outline M N snaps).Triple (.sim s) (SimAt M N snaps s calls [] [] 1)
      (ConnectionManager.sendQuit () 0)
      (fun _ => SimAt M N snaps s calls [] (quits s (queryCalls calls).length) 1) := by
  have hblock : InBlock M N 0 s := hs ▸ hroot
  have hquits : quits s (queryCalls calls).length =
      [⟨.quit, intBytes 0, (queryCalls calls).length⟩] := if_pos hs
  refine sim_op (fun _ _ => SimAt.stable) (fun _ _ _ => trivial) ?_
  intro w r w' hinv hat hperform
  simp only [performSim] at hperform
  rw [hat.serving (by norm_num)] at hperform
  subst hperform
  -- rank 0 has announced just the calls it has made
  have hrounds : w.rounds = queryCalls calls := by
    rw [World.rounds, hat.rootCast hs, List.append_nil, castCalls_castsOf hat.polled]
  refine ⟨hinv.sendDown hblock ?_ (fun hdata => absurd hdata (by simp)), ?_⟩
  · rw [hat.down 0 hblock, List.append_nil, hrounds, hquits]
  · rw [hquits]
    exact hat.send hblock _

theorem poll_triple (hroot : InBlock M N 0 0) {cm : ConnectionManager Unit} (hcm : Connected cm) :
    (outline M N snaps).Triple (.sim s) (SimAt M N snaps s calls [] [] 0)
      (ConnectionManager.poll s cm) (Polling M N snaps s calls) := by
  obtain ⟨intercomm, clientPort, clientCommand, newQuery⟩ := cm
  obtain ⟨rfl, rfl⟩ : intercomm = some () ∧ newQuery = false := hcm
  simp only [ConnectionManager.poll]
  by_cases hs : (s : ℕ) = 0
  · rw [if_pos hs]
    have hprobe : (outline M N snaps).Triple (.sim s) (SimAt M N snaps s calls [] [] 0)
        (SimOp.probeRank () 0) (fun _ => SimAt M N snaps s calls [] [] 0) := by
      refine sim_op (fun _ _ => SimAt.stable) (fun _ _ _ => trivial) ?_
      rintro w r w' hinv hat ⟨-, rfl⟩
      exact ⟨hinv, hat⟩
    refine Triple.bind hprobe (fun ready => ?_)
    cases ready with
    | false => exact Triple.ret (fun w _ hat => ⟨⟨rfl, rfl⟩, .inl ⟨rfl, hat⟩⟩)
    | true =>
        have hnext : upMessage 0 s (perRound s * (queryCalls calls).length + 0) =
            ⟨.command, intBytes Command.query.toInt32, (queryCalls calls).length⟩ := by
          rw [hs, Nat.add_zero]
          exact upMessage_command 0 _
        refine Triple.bind (recv_triple hnext) (fun r => Triple.pure ?_)
        intro hr
        refine Triple.bind (sendQuit_triple hroot hs) (fun _ => Triple.ret (fun w _ hat => ?_))
        exact ⟨⟨rfl, rfl⟩, .inr ⟨hs, rfl, by rw [hr]; exact intOfBytes_intBytes _, hat⟩⟩
  · rw [if_neg hs]
    exact Triple.ret (fun w _ hat => ⟨⟨rfl, rfl⟩, .inl ⟨rfl, hat⟩⟩)

theorem bcastFlag_triple (p : Int32 × ConnectionManager Unit) :
    (outline M N snaps).Triple (.sim s) (Polling M N snaps s calls p)
      (SimOp.mpiBcast (intBytes p.1))
      (fun r w => Connected p.2 ∧
        ((r = intBytes 0 ∧ SimAt M N snaps s calls [intBytes 0] [] 0 w) ∨
          (r = intBytes 1 ∧ ((s : ℕ) = 0 → p.2.clientCommand = Command.query.toInt32) ∧
            SimAt M N snaps s calls [intBytes 1] (quits s (queryCalls calls).length)
              (quits s (queryCalls calls).length).length w))) := by
  refine sim_op (fun _ _ => Polling.stable) (fun _ _ _ => trivial) ?_
  rintro w r w' hinv ⟨hcm, hpoll⟩ hperform
  by_cases hs : (s : ℕ) = 0
  · obtain ⟨rfl, rfl⟩ : r = intBytes p.1 ∧ w' = { w with simCast := w.simCast ++ [intBytes p.1] } := by
      simpa only [performSim, if_pos hs] using hperform
    rcases hpoll with ⟨hp, hat⟩ | ⟨-, hp, hcmd, hat⟩
    · rw [hp]
      refine ⟨hinv.castSim ?_, hcm, .inl ⟨rfl, hat.announce hs _⟩⟩
      rw [hat.rootCast hs, List.append_nil]
      exact Casts.append hat.polled (.idle .nil)
    · have hquits : (quits s (queryCalls calls).length).length = 1 := by
        rw [quits, if_pos hs, List.length_singleton]
      rw [hp, hquits]
      refine ⟨hinv.castSim ?_, hcm, .inr ⟨rfl, fun _ => hcmd, hat.announce hs _⟩⟩
      rw [hat.rootCast hs, List.append_nil]
      exact Casts.append hat.polled .flag
  · obtain ⟨hr, rfl⟩ : w.simCast[w.simHeard s]? = some r ∧
        w' = { w with simHeard := Function.update w.simHeard s (w.simHeard s + 1) } := by
      simpa only [performSim, if_neg hs] using hperform
    rcases hpoll with ⟨-, hat⟩ | ⟨h0, -⟩
    · obtain ⟨t, ht⟩ := hat.heard hs hr
      have hcasts : Casts (r :: t) := by
        refine Casts.of_append hat.polled ?_
        have hlog := hinv.casts
        rw [← ht, List.append_assoc] at hlog
        exact hlog
      refine ⟨{ hinv with }, hcm, ?_⟩
      have hhear := hat.hear hs hr
      have hquits : quits s (queryCalls calls).length = [] := if_neg hs
      rcases hcasts.head with rfl | rfl
      · exact .inl ⟨rfl, hhear⟩
      · rw [hquits]
        exact .inr ⟨rfl, fun h0 => absurd h0 hs, hhear⟩
    · exact absurd h0 hs

theorem bcastCommand_triple {clientCommand : Int32} {out : List Message} {took : ℕ}
    (hcmd : (s : ℕ) = 0 → clientCommand = Command.query.toInt32) :
    (outline M N snaps).Triple (.sim s) (SimAt M N snaps s calls [intBytes 1] out took)
      (SimOp.mpiBcast (intBytes clientCommand))
      (fun r w => r = intBytes Command.query.toInt32 ∧
        SimAt M N snaps s calls [intBytes 1, intBytes Command.query.toInt32] out took w) := by
  refine sim_op (fun _ _ => SimAt.stable) (fun _ _ _ => trivial) ?_
  rintro w r w' hinv hat hperform
  by_cases hs : (s : ℕ) = 0
  · obtain ⟨rfl, rfl⟩ : r = intBytes clientCommand ∧
        w' = { w with simCast := w.simCast ++ [intBytes clientCommand] } := by
      simpa only [performSim, if_pos hs] using hperform
    rw [hcmd hs]
    refine ⟨hinv.castSim ?_, rfl, hat.announce hs _⟩
    rw [hat.rootCast hs, List.append_assoc]
    exact Casts.append hat.polled (.query .nil)
  · obtain ⟨hr, rfl⟩ : w.simCast[w.simHeard s]? = some r ∧
        w' = { w with simHeard := Function.update w.simHeard s (w.simHeard s + 1) } := by
      simpa only [performSim, if_neg hs] using hperform
    obtain ⟨t, ht⟩ := hat.heard hs hr
    have hcasts : Casts (intBytes 1 :: r :: t) := by
      refine Casts.of_append hat.polled ?_
      have hlog := hinv.casts
      rw [← ht, List.append_assoc] at hlog
      exact hlog
    obtain rfl := hcasts.second
    exact ⟨{ hinv with }, rfl, hat.hear hs hr⟩

theorem sendData_triple {c : ℕ} (hblock : InBlock M N c s) {m : Bytes} {sent rest : List Bytes}
    (hm : (snaps s calls.length).messages = sent ++ m :: rest) :
    (outline M N snaps).Triple (.sim s)
      (SimAt M N snaps s calls [intBytes 1, intBytes Command.query.toInt32]
        (quits s (queryCalls calls).length ++
          sent.map (fun m => ⟨.data, m, (queryCalls calls).length⟩)) (perRound s))
      (SimOp.sendTo () .data m c)
      (fun _ => SimAt M N snaps s calls [intBytes 1, intBytes Command.query.toInt32]
        (quits s (queryCalls calls).length ++
          (sent ++ [m]).map (fun m => ⟨.data, m, (queryCalls calls).length⟩)) (perRound s)) := by
  refine sim_op (fun _ _ => SimAt.stable) (fun _ _ _ => trivial) ?_
  intro w r w' hinv hat hperform
  simp only [performSim] at hperform
  rw [hat.serving (perRound_pos s)] at hperform
  subst hperform
  refine ⟨hinv.sendDown hblock ?_ (fun _ => ?_), ?_⟩
  · -- the reply sent so far is the start of the reply of this call
    refine List.IsPrefix.trans ?_ ((replies_grow snaps s hat.rounds_grow).trans
      (List.prefix_append _ _))
    rw [hat.down c hblock, replies_concat, reply, hm]
    exact ⟨rest.map (fun m => ⟨.data, m, (queryCalls calls).length⟩), by simp⟩
  · rw [hat.up c hblock]
    exact le_of_eq (Nat.mul_succ _ _)
  · rw [List.map_append, ← List.append_assoc]
    exact hat.send hblock _

theorem sendAll_triple {c : ℕ} (hblock : InBlock M N c s) (rest sent : List Bytes)
    (hm : (snaps s calls.length).messages = sent ++ rest) :
    (outline M N snaps).Triple (.sim s)
      (SimAt M N snaps s calls [intBytes 1, intBytes Command.query.toInt32]
        (quits s (queryCalls calls).length ++
          sent.map (fun m => ⟨.data, m, (queryCalls calls).length⟩)) (perRound s))
      (ConnectionManager.sendAll () c rest)
      (fun _ => SimAt M N snaps s calls [intBytes 1, intBytes Command.query.toInt32]
        (reply snaps s calls.length (queryCalls calls).length) (perRound s)) := by
  induction rest generalizing sent with
  | nil =>
      refine Triple.ret (fun w _ hat => ?_)
      rw [reply, hm, List.append_nil]
      exact hat
  | cons m rest ih =>
      refine Triple.bind (sendData_triple hblock hm) (fun _ => ih (sent ++ [m]) ?_)
      rw [hm, List.append_assoc, List.singleton_append]

theorem probeAny_triple {cast : List Bytes} {out : List Message} {took : ℕ} :
    (outline M N snaps).Triple (.sim s) (SimAt M N snaps s calls cast out took)
      (SimOp.probeAny ())
      (fun c w => InBlock M N c s ∧ SimAt M N snaps s calls cast out took w) := by
  refine sim_op (fun _ _ => SimAt.stable) (fun _ _ _ => trivial) ?_
  rintro w r w' hinv hat ⟨-, hsome, -, rfl⟩
  obtain ⟨m, hm⟩ := Option.isSome_iff_exists.1 hsome
  exact ⟨hinv, (hat.next hinv hm).1, hat⟩

/-- `handleQuery`: whoever pings is the rank's client, and gets the state. -/
theorem handleQuery_triple {cm : ConnectionManager Unit} (hcm : Connected cm) :
    (outline M N snaps).Triple (.sim s)
      (SimAt M N snaps s calls [intBytes 1, intBytes Command.query.toInt32]
        (quits s (queryCalls calls).length) (quits s (queryCalls calls).length).length)
      (ConnectionManager.handleQuery (snaps s calls.length).sends cm)
      (fun _ => SimAt M N snaps s calls [intBytes 1, intBytes Command.query.toInt32]
        (reply snaps s calls.length (queryCalls calls).length) (perRound s)) := by
  obtain ⟨intercomm, clientPort, clientCommand, newQuery⟩ := cm
  obtain ⟨rfl, rfl⟩ : intercomm = some () ∧ newQuery = false := hcm
  rw [Snapshot.sends_eq]
  simp only [ConnectionManager.handleQuery]
  refine Triple.bind probeAny_triple (fun c => Triple.pure (fun hblock => ?_))
  refine Triple.bind (recv_triple (upMessage_ping c s _)) (fun _ => Triple.pure (fun _ => ?_))
  rw [← perRound_eq]
  have hsend := sendAll_triple hblock (snaps s calls.length).messages [] rfl
  rw [List.map_nil, List.append_nil] at hsend
  exact hsend

/-- A call of `process()` adds itself to the history. -/
theorem process_triple (hroot : InBlock M N 0 0) :
    (outline M N snaps).Triple (.sim s) (SimAt M N snaps s calls [] [] 0)
      (ConnectionManager.process s (snaps s calls.length).sends)
      (fun branch => SimAt M N snaps s (calls ++ [branch]) [] [] 0) := by
  have hzero : intOfBytes (intBytes 0) = 0 := intOfBytes_intBytes 0
  have hone : intOfBytes (intBytes 1) ≠ 0 := by
    rw [intOfBytes_intBytes]
    decide
  have hquery : Command.query.toInt32 ≠ Command.connect.toInt32 := by decide
  simp only [ConnectionManager.process]
  refine Triple.bind lock_triple (fun cm => Triple.pure (fun hcm => ?_))
  refine Triple.bind (poll_triple hroot hcm) (fun p => ?_)
  refine Triple.bind (bcastFlag_triple p) (fun r => Triple.pure (fun hcm => ?_))
  refine Triple.or (Triple.pure (fun hr => ?_)) (Triple.pure (fun hr => Triple.pure (fun hcmd => ?_)))
  · rw [hr, if_pos hzero]
    exact Triple.bind (unlock_triple hcm) (fun _ => Triple.ret (fun w _ hat => hat.idle))
  · rw [hr, if_neg hone]
    refine Triple.bind (bcastCommand_triple hcmd) (fun r' => Triple.pure (fun hr' => ?_))
    rw [hr', intOfBytes_intBytes]
    simp only [ConnectionManager.runCommand, if_neg hquery, if_true, bind_assoc, pure_eq, ret_bind]
    refine Triple.bind (handleQuery_triple ⟨hcm.1, hcm.2⟩) (fun _ => ?_)
    exact Triple.bind (unlock_triple ⟨hcm.1, rfl⟩) (fun _ => Triple.ret (fun w _ hat => hat.query))

end Process

end QueryRound

end LibIS
