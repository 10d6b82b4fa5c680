import LibIS.Session.Invariant

set_option autoImplicit false

/-! # Sessions: steps keep the invariant

One lemma for each way the world changes, with what must be known for it. -/

open ByteCodec

namespace LibIS

namespace Session

variable {X : Setup} {w : World}

/-! ## Consequences of the invariant -/

section Consequences

variable (h : Inv X w)
include h

theorem Inv.replied_le : w.replied.length ≤ w.takes.length := by
  simpa using h.replied.length_le

/-- Who has the open session has connected. -/
theorem Inv.mem_dials {i : ℕ} (hi : commandsOf i w.issued ≠ []) :
    i ∈ w.dials.sent.take w.dials.taken :=
  (h.untouched i).resolve_right (fun hnone => hi hnone.2)

/-- A listener that has not published its frame is the only one. -/
theorem Inv.started_eq (halive : w.started = w.ended + 1) : w.started = w.spawned :=
  le_antisymm h.started_le (halive ▸ h.spawned_le)

/-- While a listener is about to publish a frame there is no client. -/
theorem Inv.closed_of_lt (halive : w.started = w.ended + 1) (hlt : w.published < w.started)
    (hholder : w.holder ≠ some .main) :
    w.destroying = false ∧ w.manager.intercomm = none ∧ w.manager.newQuery = false ∧
      w.issued.length = w.replied.length ∧ openClient w.issued = none := by
  have hspawned := h.started_eq halive
  have hdestroying : w.destroying = false := by
    by_contra hne
    have hended := (h.finalizing (by simpa using hne)).2
    omega
  cases h.quiet hdestroying hholder with
  | closed hcomm hquery _ hreplied hopen _ => exact ⟨hdestroying, hcomm, hquery, hreplied, hopen⟩
  | offered _ _ _ _ _ _ _ _ hlistener => omega
  | connected _ _ _ _ _ hlistener => omega

/-- A client whose commands have all been answered, none of them with 1, and whose last one was not
    to disconnect: it has the open session, there is no command of another, and the destructor has
    not taken any. -/
theorem Inv.turn {i : ℕ} {es : List (Int32 × Taker)} (hes : es <+: answeredOf i w.issued w.takes)
    (htaken : (answers X.snaps es).length ≤ (w.down i 0).taken)
    (hall : es.map Prod.fst = commandsOf i w.issued) (hzero : ∀ e ∈ es, e.2.reply = 0)
    {cmds : List Int32} {cmd : Int32} (hcmds : commandsOf i w.issued = cmds ++ [cmd])
    (hcmd : cmd ≠ disconnectCmd) :
    openClient w.issued = some i ∧ w.issued.length = w.replied.length ∧ .destructor ∉ w.takes := by
  have hopen := h.sessions.openClient_of_last hcmds hcmd
  obtain ⟨l, last, hl, -⟩ := openClient_eq_some hopen
  have hlen : (commandsOf i w.issued).length = es.length := by
    rw [← hall, List.length_map]
  have hlast : (commandsOf i l).length < es.length := by
    rw [← hlen, hl, commandsOf_concat, if_pos rfl, List.length_append]
    exact Nat.lt_succ_self _
  -- as many quit flags have been sent as the client has had commands
  have hsent : answers X.snaps es <+: (w.down i 0).sent :=
    List.prefix_of_prefix_length_le (answers_grow X.snaps hes) (h.downRoot i)
      (htaken.trans (h.downTaken i))
  have hflags : es.length ≤ (quitFlags (w.down i 0).sent).length := by
    have hle := (quitFlags_grow hsent).length_le
    rwa [quitFlags_answers, List.length_map] at hle
  rw [h.quits i] at hflags
  -- so the last command of all, which is the client's, has been replied to
  have hreplied : w.issued.length = w.replied.length := by
    refine le_antisymm ?_ (h.replied_le.trans h.takes_le)
    by_contra hlt
    rw [hl, List.length_append, List.length_singleton] at hlt
    have htake : w.issued.take w.replied.length <+: l := by
      rw [hl, List.take_append_of_le_length (by omega)]
      exact List.take_prefix _ _
    have hshort := (commandsOf_grow i htake).length_le
    omega
  refine ⟨hopen, hreplied, fun hmem => ?_⟩
  have htakes : w.takes.length = w.issued.length :=
    le_antisymm h.takes_le (hreplied.le.trans h.replied_le)
  -- a command that the destructor has taken is the last, and the client's
  rcases List.eq_nil_or_concat' w.takes with hnil | ⟨ts, t, hts⟩
  · rw [hnil] at hmem
    exact absurd hmem (by simp)
  · have hproc := h.processes
    rw [hts, List.dropLast_concat] at hproc
    rw [hts] at hmem
    obtain rfl : t = .destructor := by
      rcases List.mem_append.1 hmem with hmem | hmem
      · exact absurd hmem hproc
      · exact (List.mem_singleton.1 hmem).symm
    have hget : w.issued[ts.length]? = some ⟨i, last⟩ := by
      have hlens : ts.length = l.length := by
        rw [hts, hl, List.length_append, List.length_append] at htakes
        exact Nat.add_right_cancel htakes
      rw [hl, hlens]
      simp
    have hanswered : answeredOf i w.issued w.takes =
        answeredOf i w.issued ts ++ [(last, .destructor)] := by
      rw [hts, answeredOf_concat i _ hget, if_pos rfl]
    have hsame : es = answeredOf i w.issued w.takes := by
      refine hes.eq_of_length ?_
      have hfst := congrArg List.length (answeredOf_fst i h.takes_le)
      rw [List.length_map, htakes, List.take_length] at hfst
      rw [hfst, hlen]
    have hone := hzero (last, .destructor) (by rw [hsame, hanswered]; simp)
    exact absurd hone (by simp [Taker.reply])

/-- After the questions of the first `b` commands, when client `i` has the open session, comes the
    next command of all. -/
theorem Inv.next_command {b i : ℕ} (hopen : openClient (w.issued.take b) = some i)
    (htaken : (w.up i 0).taken = (asks (commandsOf i (w.issued.take b))).length) {m : Message}
    (hm : (w.up i 0).next? = some m) :
    ∃ cmd, (cmd = queryCmd ∨ cmd = disconnectCmd) ∧ w.issued[b]? = some ⟨i, cmd⟩ ∧
      m = ⟨.command, intBytes cmd⟩ := by
  have hbegins : commandsOf i (w.issued.take b) <+: commandsOf i w.issued :=
    commandsOf_grow i (List.take_prefix _ _)
  have hnonempty : 0 < (commandsOf i (w.issued.take b)).length := by
    obtain ⟨l, last, hl, -⟩ := openClient_eq_some hopen
    rw [hl, commandsOf_concat, if_pos rfl, List.length_append]
    exact Nat.succ_pos _
  -- only the first command of the client is to connect
  have hlater : ∀ cmd ∈ (commandsOf i w.issued).drop (commandsOf i (w.issued.take b)).length,
      cmd = queryCmd ∨ cmd = disconnectCmd := by
    intro cmd hcmd
    rcases h.sessions.commands i with hnil | ⟨cmds, hcmds, hall⟩
    · rw [hnil, List.drop_nil] at hcmd
      exact absurd hcmd (by simp)
    · rw [hcmds] at hcmd
      obtain ⟨n, hn⟩ := Nat.exists_eq_succ_of_ne_zero hnonempty.ne'
      rw [hn, List.drop_succ_cons] at hcmd
      exact hall cmd (List.mem_of_mem_drop hcmd)
  have hne : ∀ cmd ∈ (commandsOf i w.issued).drop (commandsOf i (w.issued.take b)).length,
      cmd ≠ connectCmd := by
    intro cmd hcmd
    rcases hlater cmd hcmd with rfl | rfl <;> decide
  rw [Channel.next?, htaken] at hm
  obtain ⟨cmd, hcmd, rfl⟩ := asks_next_command hbegins hne ((h.upRoot i).getElem?_eq_some hm)
  have hlt : b < w.issued.length := by
    by_contra hle
    rw [List.take_of_length_le (by omega)] at hcmd
    exact absurd hcmd.length_le (by simp)
  -- it is the next of all, since nobody else has the session
  have hnext : w.issued.take (b + 1) = w.issued.take b ++ [w.issued[b]] :=
    List.take_succ_eq_append_getElem hlt
  have hclient : w.issued[b].client = i := by
    have hsessions := h.sessions.of_prefix (List.take_prefix (b + 1) w.issued)
    rw [hnext] at hsessions
    rcases hsessions.last.2 with ⟨hnone, -⟩ | ⟨hsome, -⟩
    · rw [hopen] at hnone
      exact absurd hnone (by simp)
    · rw [hopen] at hsome
      exact (Option.some.inj hsome).symm
  have hcommand : w.issued[b].command = cmd := by
    have hgrow := commandsOf_grow i (List.take_prefix (b + 1) w.issued)
    rw [hnext, commandsOf_concat, if_pos hclient] at hgrow
    have hsame := (List.prefix_of_prefix_length_le hgrow hcmd (by simp)).eq_of_length (by simp)
    simpa using hsame
  refine ⟨cmd, hlater cmd ?_, ?_, rfl⟩
  · obtain ⟨t, ht⟩ := hcmd
    rw [← ht, List.append_assoc, List.drop_left]
    simp
  · rw [List.getElem?_eq_getElem hlt, ← hclient, ← hcommand]

end Consequences

/-! ## The main thread -/

section Main

variable (h : Inv X w)
include h

theorem Inv.hold (hdestroying : w.destroying = false)
    (hexit : w.exitThread = true → w.ended = w.spawned) :
    Inv X { w with holder := some .main, destroying := w.exitThread } := by
  exact { h with
    processing := fun _ => h.processing hdestroying
    finalizing := fun hexit' => ⟨hexit', hexit hexit'⟩
    quiet := fun _ hne => absurd rfl hne }

theorem Inv.take {t : Taker} (hlt : w.takes.length < w.issued.length)
    (hproc : .destructor ∉ w.takes) (ht : w.destroying = false → t ≠ .destructor)
    (hholder : w.holder = some .main) : Inv X { w with takes := w.takes ++ [t] } := by
  have hlen : (w.takes ++ [t]).length ≤ w.issued.length := by
    rw [List.length_append, List.length_singleton]
    exact hlt
  have hgrow : ∀ i, answeredOf i w.issued w.takes <+: answeredOf i w.issued (w.takes ++ [t]) :=
    fun i => answeredOf_grow i (List.prefix_refl _) (List.prefix_append _ _)
  refine { h with
    takes_le := hlen
    replied := ?_
    processes := ?_
    processing := ?_
    downRoot := fun i => (h.downRoot i).trans (answers_grow _ (hgrow i))
    linked := ?_
    clientCast := ?_
    quiet := fun _ hne => absurd hholder hne }
  · rw [List.map_append]
    exact h.replied.trans (List.prefix_append _ _)
  · simpa using hproc
  · intro hdestroying hmem
    rcases List.mem_append.1 hmem with hmem | hmem
    · exact hproc hmem
    · exact ht hdestroying (List.mem_singleton.1 hmem).symm
  · intro i hi hnone
    have hbegins : w.issued.take w.takes.length <+: w.issued.take (w.takes ++ [t]).length :=
      List.take_prefix_take_left (by simp)
    have hgrow := commandsOf_grow i hbegins
    rw [hnone] at hgrow
    exact h.linked i hi (List.prefix_nil.1 hgrow)
  · intro i
    refine (h.clientCast i).trans ?_
    obtain ⟨l, hl⟩ := hgrow i
    rw [← hl, List.map_append]
    exact ⟨l.map (fun e => intBytes e.2.reply), by simp⟩

theorem Inv.letGo (cm : ConnectionManager ℕ)
    (hquiet : w.destroying = false →
      Quiet X { w with manager := cm, holder := none, calls := w.calls + 1 }) :
    Inv X { w with manager := cm, holder := none, calls := w.calls + 1 } := by
  exact { h with quiet := fun hdestroying _ => hquiet hdestroying }

theorem Inv.stop : Inv X { w with exitThread := true } := by
  refine { h with ended_published := ?_, finalizing := ?_, quiet := ?_ }
  · intro hexit
    exact absurd hexit (by simp)
  · exact fun hdestroying => ⟨rfl, (h.finalizing hdestroying).2⟩
  · exact fun hdestroying hholder =>
      (h.quiet hdestroying hholder).congr rfl rfl rfl rfl rfl rfl rfl

theorem Inv.spawnThread (hended : w.ended = w.spawned) (hdestroying : w.destroying = false)
    (hholder : w.holder = some .main) :
    Inv X { w with spawned := w.spawned + 1, joinable := true } := by
  refine { h with started_le := ?_, spawned_le := ?_, finalizing := ?_, quiet := ?_ }
  · exact h.started_le.trans (Nat.le_succ _)
  · exact Nat.succ_le_succ hended.ge
  · exact fun hne => absurd hne (by simp [hdestroying])
  · exact fun _ hne => absurd hholder hne

/-- The port of the client that has asked to connect. -/
theorem Inv.connect {i : ℕ} (htaken : commandsOf i (w.issued.take w.takes.length) ≠ [])
    (hholder : w.holder = some .main) :
    Inv X { w with
      opened := Function.update w.opened i false
      linked := Function.update w.linked i true } := by
  have hopened : ∀ j, Function.update w.opened i false j = true → w.opened j = true ∧ j ≠ i := by
    intro j hj
    by_cases hji : j = i
    · simp [hji] at hj
    · rw [Function.update_of_ne hji] at hj
      exact ⟨hj, hji⟩
  refine { h with dialling := ?_, ports := ?_, linked := ?_, quiet := ?_ }
  · intro j hj
    by_cases hji : j = i
    · simp [hji]
    · simpa only [Function.update_of_ne hji] using h.dialling j hj
  · exact fun j k hj hk => h.ports j k (hopened j hj).1 (hopened k hk).1
  · intro j hj
    by_cases hji : j = i
    · rw [hji]
      exact htaken
    · simp only [Function.update_of_ne hji] at hj
      exact h.linked j hj
  · exact fun _ hne => absurd hholder hne

/-- The reply to the oldest command that has none. -/
theorem Inv.reply {i : ℕ} {cmd : Int32} {t : Taker}
    (hissue : w.issued[w.replied.length]? = some ⟨i, cmd⟩)
    (htake : w.takes[w.replied.length]? = some t)
    (hsent : (w.down i 0).sent =
      answers X.snaps (answeredOf i w.issued (w.takes.take w.replied.length)))
    (hholder : w.holder = some .main) :
    Inv X { w with
      down := updateAt w.down i 0 ((w.down i 0).push ⟨.quit, intBytes t.reply⟩)
      replied := w.replied ++ [t.reply] } := by
  obtain ⟨hlt, hget⟩ := List.getElem?_eq_some_iff.1 htake
  obtain ⟨hlt', hget'⟩ := List.getElem?_eq_some_iff.1 hissue
  have hlen : (w.takes.take w.replied.length).length = w.replied.length :=
    List.length_take_of_le hlt.le
  have htakes : w.takes.take (w.replied.length + 1) = w.takes.take w.replied.length ++ [t] := by
    rw [List.take_succ_eq_append_getElem hlt, hget]
  -- with this reply one more command of the client is answered
  have hanswered : answeredOf i w.issued (w.takes.take w.replied.length) ++ [(cmd, t)] <+:
      answeredOf i w.issued w.takes := by
    have hnext : answeredOf i w.issued (w.takes.take w.replied.length ++ [t]) = _ :=
      answeredOf_concat i t (hlen.symm ▸ hissue)
    rw [if_pos rfl, ← htakes] at hnext
    rw [← hnext]
    exact answeredOf_grow i (List.prefix_refl _) (List.take_prefix _ _)
  have hcommands : ∀ j, (commandsOf j (w.issued.take (w.replied ++ [t.reply]).length)).length =
      (commandsOf j (w.issued.take w.replied.length)).length + if j = i then 1 else 0 := by
    intro j
    rw [List.length_append, List.length_singleton, List.take_succ_eq_append_getElem hlt', hget',
      commandsOf_concat, List.length_append]
    by_cases hj : j = i
    · rw [if_pos hj, if_pos hj.symm]
      rfl
    · rw [if_neg hj, if_neg (fun hi => hj hi.symm)]
      rfl
  refine { h with issued_le := ?_, replied := ?_, downRoot := ?_, quits := ?_, downTaken := ?_,
                  quiet := ?_ }
  · rw [List.length_append, List.length_singleton]
    exact h.issued_le.trans (Nat.le_succ _)
  · have hreplied : w.replied = (w.takes.take w.replied.length).map Taker.reply := by
      rw [List.map_take]
      exact List.prefix_iff_eq_take.1 h.replied
    refine ⟨(w.takes.drop (w.replied.length + 1)).map Taker.reply, ?_⟩
    have hmap : w.replied ++ [t.reply] = (w.takes.take (w.replied.length + 1)).map Taker.reply := by
      rw [htakes, List.map_append, ← hreplied]
      rfl
    rw [hmap, ← List.map_append, List.take_append_drop]
  · intro j
    by_cases hj : j = i
    · subst hj
      simp only [updateAt_self, Channel.push_sent, hsent]
      refine List.IsPrefix.trans ?_ (answers_grow X.snaps hanswered)
      rw [answers_append, answers_singleton]
      exact (List.prefix_append_right_inj _).2 ⟨_, rfl⟩
    · simp only [updateAt_of_ne_left _ _ hj]
      exact h.downRoot j
  · intro j
    rw [hcommands j]
    by_cases hj : j = i
    · subst hj
      simp only [updateAt_self, Channel.push_sent, quitFlags_append, List.length_append, h.quits,
        if_true]
      rfl
    · simp only [updateAt_of_ne_left _ _ hj, if_neg hj, h.quits, Nat.add_zero]
  · intro j
    simp only [Channel.updateAt_push_taken]
    exact (h.downTaken j).trans (Channel.le_updateAt_push_sent _ _ _ _ _ _)
  · exact fun _ hne => absurd hholder hne

/-- The next message of the state that a query is answered with. -/
theorem Inv.sendData {i : ℕ} {m : Bytes} (hholder : w.holder = some .main)
    (hsent : (w.down i 0).sent ++ [⟨.data, m⟩] <+:
      answers X.snaps (answeredOf i w.issued w.takes)) :
    Inv X { w with down := updateAt w.down i 0 ((w.down i 0).push ⟨.data, m⟩) } := by
  refine { h with downRoot := ?_, quits := ?_, downTaken := ?_, quiet := ?_ }
  · intro j
    by_cases hj : j = i
    · subst hj
      simpa only [updateAt_self, Channel.push_sent] using hsent
    · simp only [updateAt_of_ne_left _ _ hj]
      exact h.downRoot j
  · intro j
    rw [← h.quits j]
    by_cases hj : j = i
    · subst hj
      simp only [updateAt_self, Channel.push_sent, quitFlags_append, List.length_append]
      rfl
    · simp only [updateAt_of_ne_left _ _ hj]
  · intro j
    simp only [Channel.updateAt_push_taken]
    exact (h.downTaken j).trans (Channel.le_updateAt_push_sent _ _ _ _ _ _)
  · exact fun _ hne => absurd hholder hne

theorem Inv.takeUp (i : ℕ) (hholder : w.holder = some .main) :
    Inv X { w with up := updateAt w.up i 0 (w.up i 0).pop } := by
  exact { h with
    upRoot := fun j => by simpa using h.upRoot j
    upOther := fun j c hc => by simpa using h.upOther j c hc
    quiet := fun _ hne => absurd hholder hne }

end Main

/-! ## The listener thread -/

section ListenerThread

variable (h : Inv X w)
include h

theorem Inv.begin (hlt : w.started < w.spawned) : Inv X { w with started := w.started + 1 } := by
  refine { h with ended_le := ?_, started_le := hlt, published_le := ?_, quiet := ?_ }
  · exact h.ended_le.trans (Nat.le_succ _)
  · exact h.published_le.trans (Nat.le_succ _)
  · exact fun hdestroying hholder =>
      (h.quiet hdestroying hholder).congr rfl rfl rfl rfl rfl rfl rfl

theorem Inv.openSocket : Inv X { w with listening := true } := by
  exact { h with
    quiet := fun hdestroying hholder =>
      (h.quiet hdestroying hholder).congr rfl rfl rfl rfl rfl rfl rfl }

theorem Inv.accept {i : ℕ} (hi : w.dials.next? = some i) :
    Inv X { w with dials := w.dials.pop, reading := i } := by
  refine { h with dialsTaken := ?_, untouched := ?_, quiet := ?_ }
  · exact Channel.pop_taken_le hi
  · intro j
    refine (h.untouched j).imp_left (fun hj => ?_)
    exact (List.take_prefix_take_left (Nat.le_succ _)).subset hj
  · exact fun hdestroying hholder =>
      (h.quiet hdestroying hholder).congr rfl rfl rfl rfl rfl rfl rfl

/-- Bytes of the frame are read from an accepted connection. -/
theorem Inv.readFrame {i : ℕ} (n : ℕ) (hi : i ∈ w.dials.sent.take w.dials.taken) :
    Inv X { w with frame := Function.update w.frame i ((w.frame i).advance n) } := by
  refine { h with untouched := ?_, frames := ?_, quiet := ?_ }
  · intro j
    by_cases hj : j = i
    · exact .inl (hj ▸ hi)
    · simpa only [Function.update_of_ne hj] using h.untouched j
  · intro j
    by_cases hj : j = i
    · subst hj
      simpa only [Function.update_self, Channel.advance_sent] using h.frames j
    · simpa only [Function.update_of_ne hj] using h.frames j
  · exact fun hdestroying hholder =>
      (h.quiet hdestroying hholder).congr rfl rfl rfl rfl rfl rfl rfl

theorem Inv.holdListener (hholder : w.holder = none) :
    Inv X { w with holder := some .listener } := by
  refine { h with quiet := fun hdestroying _ => ?_ }
  exact (h.quiet hdestroying (by simp [hholder])).congr rfl rfl rfl rfl rfl rfl rfl

/-- The listener publishes the frame of a new client. -/
theorem Inv.publish (halive : w.started = w.ended + 1) (hlt : w.published < w.started)
    (hholder : w.holder ≠ some .main) (hnew : commandsOf w.reading w.issued = [])
    (hread : w.reading ∈ w.dials.sent.take w.dials.taken) :
    Inv X { w with
      manager := w.manager.publish (X.port w.reading) connectCmd
      holder := none
      published := w.started
      issued := w.issued ++ [⟨w.reading, connectCmd⟩] } := by
  obtain ⟨hdestroying, hcomm, hquery, hreplied, hopen⟩ := h.closed_of_lt halive hlt hholder
  have hspawned := h.started_eq halive
  have hgrow : ∀ i, commandsOf i w.issued <+: commandsOf i (w.issued ++ [⟨w.reading, connectCmd⟩]) :=
    fun i => commandsOf_grow i (List.prefix_append _ _)
  have hanswered : ∀ i, answeredOf i (w.issued ++ [⟨w.reading, connectCmd⟩]) w.takes =
      answeredOf i w.issued w.takes :=
    fun i => answeredOf_issued i (List.prefix_append _ _) h.takes_le
  have hreplied_le : w.replied.length ≤ w.issued.length := h.replied_le.trans h.takes_le
  refine { h with
    sessions := .connect h.sessions hopen hnew
    takes_le := ?_
    issued_le := ?_
    upRoot := fun i => (h.upRoot i).trans (asks_grow (hgrow i))
    downRoot := fun i => by simpa only [hanswered] using h.downRoot i
    quits := ?_
    untouched := ?_
    linked := ?_
    published_le := le_refl _
    ended_published := fun _ => h.ended_le
    clientCast := fun i => by simpa only [hanswered] using h.clientCast i
    barriers := ?_
    quiet := fun _ _ => ?_ }
  · rw [List.length_append]
    exact h.takes_le.trans (Nat.le_add_right _ _)
  · rw [List.length_append, List.length_singleton, hreplied]
  · intro i
    rw [List.take_append_of_le_length hreplied_le]
    exact h.quits i
  · intro i
    by_cases hi : w.reading = i
    · exact .inl (hi ▸ hread)
    · simpa only [commandsOf_concat, if_neg hi, List.append_nil] using h.untouched i
  · intro i hi
    rw [List.take_append_of_le_length h.takes_le]
    exact h.linked i hi
  · intro i c hc
    rw [commandsOf_concat]
    by_cases hi : w.reading = i
    · rw [hi] at hnew
      simp [hnew, hi]
    · simpa only [if_neg hi, List.append_nil] using h.barriers i c hc
  · -- the manager is left at rest, with a client to connect to
    refine .offered w.reading ?_ rfl rfl ?_ ?_ ?_ ?_ hspawned
    · exact hcomm
    · simp [ConnectionManager.publish, hcomm]
    · -- a client is linked only when its command has been taken
      by_contra hlinked
      refine h.linked w.reading (by simpa using hlinked) ?_
      exact List.prefix_nil.1 (hnew ▸ commandsOf_grow w.reading (List.take_prefix _ _))
    · exact le_antisymm (h.takes_le.trans hreplied.le) h.replied_le
    · rw [← hreplied]
      simp

theorem Inv.closeSocket : Inv X { w with listening := false, dials := w.dials.flush } := by
  refine { h with dialsTaken := le_refl _, untouched := ?_, quiet := ?_ }
  · intro i
    refine (h.untouched i).imp_left (fun hi => ?_)
    simp only [Channel.flush_sent, Channel.flush_taken, List.take_length]
    exact List.mem_of_mem_take hi
  · exact fun hdestroying hholder =>
      (h.quiet hdestroying hholder).congr rfl rfl rfl rfl rfl rfl rfl

theorem Inv.finish (halive : w.started = w.ended + 1)
    (hpublished : w.exitThread = false → w.published = w.started) :
    Inv X { w with ended := w.ended + 1 } := by
  have hspawned := h.started_eq halive
  refine { h with
    ended_le := halive.ge
    spawned_le := h.spawned_le.trans (Nat.le_succ _)
    ended_published := fun hexit => ((hpublished hexit).trans halive).ge
    finalizing := fun hdestroying => ?_
    quiet := ?_ }
  · -- the destructor has waited for this listener
    have hended := (h.finalizing hdestroying).2
    omega
  · exact fun hdestroying hholder =>
      (h.quiet hdestroying hholder).congr rfl rfl rfl rfl rfl rfl rfl

end ListenerThread

/-! ## The clients -/

section Clients

variable (h : Inv X w)
include h

theorem Inv.listen {i : ℕ} (hport : ∀ j, w.opened j = true → X.port j ≠ X.port i) :
    Inv X { w with opened := Function.update w.opened i true } := by
  refine { h with dialling := ?_, ports := ?_, quiet := ?_ }
  · intro j hj
    by_cases hji : j = i
    · simp [hji]
    · simpa only [Function.update_of_ne hji] using h.dialling j hj
  · intro j k hj hk hports
    by_cases hji : j = i <;> by_cases hki : k = i
    · rw [hji, hki]
    · simp only [Function.update_of_ne hki] at hk
      exact absurd (hji ▸ hports.symm) (hport k hk)
    · simp only [Function.update_of_ne hji] at hj
      exact absurd (hki ▸ hports) (hport j hj)
    · simp only [Function.update_of_ne hji] at hj
      simp only [Function.update_of_ne hki] at hk
      exact h.ports j k hj hk hports
  · exact fun hdestroying hholder =>
      (h.quiet hdestroying hholder).congr rfl rfl rfl rfl rfl rfl rfl

theorem Inv.dial {i : ℕ} (hnew : i ∉ w.dials.sent)
    (hport : w.opened i = true ∨ w.linked i = true) :
    Inv X { w with dials := w.dials.push i } := by
  refine { h with dialsOnce := ?_, dialsTaken := ?_, untouched := ?_, dialling := ?_, quiet := ?_ }
  · rw [Channel.push_sent, List.nodup_append]
    exact ⟨h.dialsOnce, List.nodup_singleton i, fun a ha b hb hab =>
      hnew (List.mem_singleton.1 hb ▸ hab ▸ ha)⟩
  · rw [Channel.push_sent, List.length_append]
    exact h.dialsTaken.trans (Nat.le_add_right _ _)
  · intro j
    simp only [Channel.push_sent, Channel.push_taken, List.take_append_of_le_length h.dialsTaken]
    exact h.untouched j
  · intro j hj
    rcases List.mem_append.1 hj with hj | hj
    · exact h.dialling j hj
    · rw [List.mem_singleton.1 hj]
      exact hport
  · exact fun hdestroying hholder =>
      (h.quiet hdestroying hholder).congr rfl rfl rfl rfl rfl rfl rfl

/-- A client sends bytes of its frame. -/
theorem Inv.sendFrame {i : ℕ} {data : Bytes} (hsent : (w.frame i).sent ++ data <+: frameBytes X i) :
    Inv X { w with frame := Function.update w.frame i ((w.frame i).pushAll data) } := by
  refine { h with untouched := ?_, frames := ?_, quiet := ?_ }
  · intro j
    by_cases hj : j = i
    · subst hj
      simpa only [Function.update_self, Channel.pushAll_taken] using h.untouched j
    · simpa only [Function.update_of_ne hj] using h.untouched j
  · intro j
    by_cases hj : j = i
    · subst hj
      simpa only [Function.update_self, Channel.pushAll_sent] using hsent
    · simpa only [Function.update_of_ne hj] using h.frames j
  · exact fun hdestroying hholder =>
      (h.quiet hdestroying hholder).congr rfl rfl rfl rfl rfl rfl rfl

theorem Inv.arrive (i c : ℕ) :
    Inv X { w with arrived := updateAt w.arrived i c (w.arrived i c + 1) } := by
  exact { h with
    barriers := fun i' c' hc' =>
      (h.barriers i' c' hc').trans (Nat.add_le_add_right (le_updateAt_succ _ _ _ _ _) 3)
    quiet := fun hdestroying hholder =>
      (h.quiet hdestroying hholder).congr rfl rfl rfl rfl rfl rfl rfl }

theorem Inv.cast {i : ℕ} {buf : Bytes}
    (hcast : w.clientCast i ++ [buf] <+:
      intBytes 0 :: (answeredOf i w.issued w.takes).map (fun e => intBytes e.2.reply)) :
    Inv X { w with clientCast := Function.update w.clientCast i (w.clientCast i ++ [buf]) } := by
  refine { h with clientCast := fun j => ?_, quiet := ?_ }
  · by_cases hj : j = i
    · subst hj
      simpa only [Function.update_self] using hcast
    · simpa only [Function.update_of_ne hj] using h.clientCast j
  · exact fun hdestroying hholder =>
      (h.quiet hdestroying hholder).congr rfl rfl rfl rfl rfl rfl rfl

theorem Inv.hear (i c : ℕ) :
    Inv X { w with clientHeard := updateAt w.clientHeard i c (w.clientHeard i c + 1) } := by
  exact { h with
    quiet := fun hdestroying hholder =>
      (h.quiet hdestroying hholder).congr rfl rfl rfl rfl rfl rfl rfl }

theorem Inv.ping {i : ℕ} {m : Message}
    (hsent : (w.up i 0).sent ++ [m] <+: asks (commandsOf i w.issued)) :
    Inv X { w with up := updateAt w.up i 0 ((w.up i 0).push m) } := by
  refine { h with upRoot := fun j => ?_, upOther := fun j c hc => ?_, quiet := ?_ }
  · by_cases hj : j = i
    · subst hj
      simpa only [updateAt_self, Channel.push_sent] using hsent
    · simpa only [updateAt_of_ne_left _ _ hj] using h.upRoot j
  · simpa only [updateAt_of_ne_right _ _ hc] using h.upOther j c hc
  · exact fun hdestroying hholder =>
      (h.quiet hdestroying hholder).congr rfl rfl rfl rfl rfl rfl rfl

theorem Inv.takeDown {i : ℕ} {m : Message} (hm : (w.down i 0).next? = some m) :
    Inv X { w with down := updateAt w.down i 0 (w.down i 0).pop } := by
  refine { h with downRoot := ?_, quits := ?_, downTaken := ?_, quiet := ?_ }
  · exact fun j => by simpa using h.downRoot j
  · exact fun j => by simpa using h.quits j
  · intro j
    by_cases hj : j = i
    · subst hj
      simpa only [updateAt_self] using Channel.pop_taken_le hm
    · simpa only [updateAt_of_ne_left _ _ hj] using h.downTaken j
  · exact fun hdestroying hholder =>
      (h.quiet hdestroying hholder).congr rfl rfl rfl rfl rfl rfl rfl

/-- The client of the open session gives its next command. -/
theorem Inv.issue {i : ℕ} {cmd : Int32} (hcmd : cmd = queryCmd ∨ cmd = disconnectCmd)
    (hopen : openClient w.issued = some i) (hreplied : w.issued.length = w.replied.length)
    (hsent : (w.up i 0).sent = asks (commandsOf i w.issued))
    (hentered : Entered X i (2 * (commandsOf i w.issued).length - 1) w) :
    Inv X { w with
      up := updateAt w.up i 0 ((w.up i 0).push ⟨.command, intBytes cmd⟩)
      issued := w.issued ++ [⟨i, cmd⟩] } := by
  have hgrow : ∀ j, commandsOf j w.issued <+: commandsOf j (w.issued ++ [⟨i, cmd⟩]) :=
    fun j => commandsOf_grow j (List.prefix_append _ _)
  have hanswered : ∀ j, answeredOf j (w.issued ++ [⟨i, cmd⟩]) w.takes =
      answeredOf j w.issued w.takes :=
    fun j => answeredOf_issued j (List.prefix_append _ _) h.takes_le
  have htake : ∀ n, n ≤ w.issued.length →
      (w.issued ++ [(⟨i, cmd⟩ : Issue)]).take n = w.issued.take n :=
    fun n hn => List.take_append_of_le_length hn
  have hreplied_le : w.replied.length ≤ w.issued.length := hreplied.ge
  -- the client of the open session has asked to connect before
  have hcommands : commandsOf i w.issued ≠ [] := by
    obtain ⟨l, last, hl, -⟩ := openClient_eq_some hopen
    rw [hl, commandsOf_concat, if_pos rfl]
    simp
  refine { h with
    sessions := ?_
    takes_le := ?_
    issued_le := ?_
    upRoot := ?_
    upOther := fun j c hc => by simpa only [updateAt_of_ne_right _ _ hc] using h.upOther j c hc
    downRoot := fun j => by simpa only [hanswered] using h.downRoot j
    quits := fun j => by simpa only [htake _ hreplied_le] using h.quits j
    untouched := ?_
    linked := fun j hj => by simpa only [htake _ h.takes_le] using h.linked j hj
    clientCast := fun j => by simpa only [hanswered] using h.clientCast j
    barriers := ?_
    quiet := ?_ }
  · rcases hcmd with rfl | rfl
    · exact .query h.sessions hopen
    · exact .disconnect h.sessions hopen
  · rw [List.length_append]
    exact h.takes_le.trans (Nat.le_add_right _ _)
  · rw [List.length_append, List.length_singleton, hreplied]
  · intro j
    by_cases hj : j = i
    · subst hj
      have hask : ask cmd = ⟨.command, intBytes cmd⟩ :: (ask cmd).tail := by
        rcases hcmd with rfl | rfl <;> rfl
      simp only [updateAt_self, Channel.push_sent, hsent, commandsOf_concat, if_true, asks_append,
        asks_singleton]
      exact (List.prefix_append_right_inj _).2 ⟨_, hask.symm⟩
    · simp only [updateAt_of_ne_left _ _ hj]
      exact (h.upRoot j).trans (asks_grow (hgrow j))
  · intro j
    by_cases hj : i = j
    · exact .inl (h.mem_dials (hj ▸ hcommands))
    · simpa only [commandsOf_concat, if_neg hj, List.append_nil] using h.untouched j
  · intro j c hc
    rw [commandsOf_concat]
    by_cases hj : i = j
    · subst hj
      have hle := hentered c hc
      have hpos := List.length_pos_iff.2 hcommands
      simp only [if_true, List.length_append, List.length_singleton]
      omega
    · simpa only [if_neg hj, List.append_nil] using h.barriers j c hc
  · -- of the states at rest only that of a connected client fits
    intro hdestroying hholder
    cases h.quiet hdestroying hholder with
    | closed _ _ _ _ hnone _ =>
        rw [hopen] at hnone
        exact absurd hnone (by simp)
    | offered j _ _ _ _ _ _ hlast _ =>
        rw [← hreplied, List.getElem?_eq_none (le_refl _)] at hlast
        exact absurd hlast (by simp)
    | connected j hcomm hquery htakes hconnected hlistener =>
        exact .connected j hcomm hquery htakes (by rwa [htake _ hreplied_le]) hlistener

end Clients

end Session

end LibIS
