import LibIS.Session.System

set_option autoImplicit false

/-! # Sessions: histories

The commands of a run are sessions, one after the other: a client connects, queries and disconnects
before the next one connects (`Sessions`). From the commands and from who has taken each of them it
follows what there is on the channels: `asks` is what a client sends for its commands, `answers`
what it is sent for them. -/

open ByteCodec

namespace LibIS

namespace Session

abbrev connectCmd : Int32 := Command.connect.toInt32
abbrev queryCmd : Int32 := Command.query.toInt32
abbrev disconnectCmd : Int32 := Command.disconnect.toInt32

/-! ## Sessions -/

/-- The client whose session is open after the given commands. -/
def openClient (l : List Issue) : Option ℕ :=
  match l.getLast? with
  | none => none
  | some e => if e.command = disconnectCmd then none else some e.client

/-- The commands of client `i`. -/
def commandsOf (i : ℕ) (l : List Issue) : List Int32 :=
  (l.filter (fun e => e.client = i)).map Issue.command

/-- Session after session, each by a client that has had none before. -/
inductive Sessions : List Issue → Prop
  | nil : Sessions []
  | connect {l : List Issue} {i : ℕ} (h : Sessions l) (hopen : openClient l = none)
      (hnew : commandsOf i l = []) : Sessions (l ++ [⟨i, connectCmd⟩])
  | query {l : List Issue} {i : ℕ} (h : Sessions l) (hopen : openClient l = some i) :
      Sessions (l ++ [⟨i, queryCmd⟩])
  | disconnect {l : List Issue} {i : ℕ} (h : Sessions l) (hopen : openClient l = some i) :
      Sessions (l ++ [⟨i, disconnectCmd⟩])

@[simp] theorem openClient_nil : openClient [] = none := rfl

@[simp] theorem openClient_concat (l : List Issue) (e : Issue) :
    openClient (l ++ [e]) = if e.command = disconnectCmd then none else some e.client := by
  rw [openClient, List.getLast?_concat]

@[simp] theorem commandsOf_nil (i : ℕ) : commandsOf i [] = [] := rfl

theorem commandsOf_concat (i : ℕ) (l : List Issue) (e : Issue) :
    commandsOf i (l ++ [e]) = commandsOf i l ++ if e.client = i then [e.command] else [] := by
  rw [commandsOf, List.filter_append, List.map_append]
  by_cases h : e.client = i <;> simp [commandsOf, h]

theorem commandsOf_grow (i : ℕ) {l l' : List Issue} (h : l <+: l') :
    commandsOf i l <+: commandsOf i l' :=
  (h.filter _).map _

theorem Sessions.last {l : List Issue} {e : Issue} (h : Sessions (l ++ [e])) :
    Sessions l ∧ ((openClient l = none ∧ e.command = connectCmd ∧ commandsOf e.client l = []) ∨
      (openClient l = some e.client ∧ (e.command = queryCmd ∨ e.command = disconnectCmd))) := by
  generalize hl : l ++ [e] = l' at h
  cases h with
  | nil => exact absurd hl (by simp)
  | connect h hopen hnew =>
      obtain ⟨rfl, he⟩ := List.append_inj' hl rfl
      obtain rfl : e = _ := by simpa using he
      exact ⟨h, .inl ⟨hopen, rfl, hnew⟩⟩
  | query h hopen =>
      obtain ⟨rfl, he⟩ := List.append_inj' hl rfl
      obtain rfl : e = _ := by simpa using he
      exact ⟨h, .inr ⟨hopen, .inl rfl⟩⟩
  | disconnect h hopen =>
      obtain ⟨rfl, he⟩ := List.append_inj' hl rfl
      obtain rfl : e = _ := by simpa using he
      exact ⟨h, .inr ⟨hopen, .inr rfl⟩⟩

theorem Sessions.of_prefix {l l' : List Issue} (h : Sessions l') (hl : l <+: l') : Sessions l := by
  obtain ⟨t, rfl⟩ := hl
  induction t using List.reverseRecOn with
  | nil => rwa [List.append_nil] at h
  | append_singleton t e ih =>
      rw [← List.append_assoc] at h
      exact ih h.last.1

/-- A client whose last command is not to disconnect has the open session. -/
theorem Sessions.openClient_of_last {l : List Issue} (h : Sessions l) {i : ℕ} {cmds : List Int32}
    {cmd : Int32} (hcmds : commandsOf i l = cmds ++ [cmd]) (hcmd : cmd ≠ disconnectCmd) :
    openClient l = some i := by
  induction l using List.reverseRecOn generalizing cmds cmd with
  | nil => exact absurd hcmds (by simp)
  | append_singleton l e ih =>
      obtain ⟨hl, hlast⟩ := h.last
      rw [commandsOf_concat] at hcmds
      by_cases hclient : e.client = i
      · rw [if_pos hclient] at hcmds
        have hcommand : e.command = cmd := by
          simpa using (List.append_inj' hcmds rfl).2
        rw [openClient_concat, hcommand, if_neg hcmd, hclient]
      · rw [if_neg hclient, List.append_nil] at hcmds
        have hopen := ih hl hcmds hcmd
        -- another client's command while this one's session is open
        rcases hlast with ⟨hnone, -⟩ | ⟨hsome, -⟩
        · rw [hopen] at hnone
          exact absurd hnone (by simp)
        · rw [hopen, Option.some.injEq] at hsome
          exact absurd hsome.symm hclient

/-- The last command of all, when a session is open, is one of its client. -/
theorem openClient_eq_some {l : List Issue} {i : ℕ} (h : openClient l = some i) :
    ∃ l' cmd, l = l' ++ [⟨i, cmd⟩] ∧ cmd ≠ disconnectCmd := by
  rcases List.eq_nil_or_concat' l with rfl | ⟨l', e, rfl⟩
  · exact absurd h (by simp)
  · rw [openClient_concat] at h
    split at h
    · exact absurd h (by simp)
    · next hcmd =>
        rw [Option.some.injEq] at h
        exact ⟨l', e.command, by rw [← h], hcmd⟩

/-- The first command of a client is to connect, the others are not. -/
theorem Sessions.commands {l : List Issue} (h : Sessions l) (i : ℕ) :
    commandsOf i l = [] ∨ ∃ cmds, commandsOf i l = connectCmd :: cmds ∧
      ∀ cmd ∈ cmds, cmd = queryCmd ∨ cmd = disconnectCmd := by
  induction l using List.reverseRecOn with
  | nil => exact .inl rfl
  | append_singleton l e ih =>
      obtain ⟨hl, hlast⟩ := h.last
      rw [commandsOf_concat]
      by_cases hclient : e.client = i
      · rw [if_pos hclient]
        rcases hlast with ⟨-, hcmd, hnew⟩ | ⟨hopen, hcmd⟩
        · rw [hclient] at hnew
          exact .inr ⟨[], by rw [hnew, hcmd]; rfl, by simp⟩
        · obtain ⟨l', cmd, rfl, -⟩ := openClient_eq_some hopen
          rcases ih hl with hnil | ⟨cmds, hcmds, hall⟩
          · rw [commandsOf_concat, if_pos hclient] at hnil
            exact absurd hnil (by simp)
          · refine .inr ⟨cmds ++ [e.command], by rw [hcmds, List.cons_append], ?_⟩
            intro c hc
            rcases List.mem_append.1 hc with hc | hc
            · exact hall c hc
            · rw [List.mem_singleton.1 hc]
              exact hcmd
      · rw [if_neg hclient, List.append_nil]
        exact ih hl

/-! ## Takers -/

/-- The quit flag that a command is answered with. -/
def Taker.reply : Taker → Int32
  | .process _ => 0
  | .destructor => 1

/-- The commands of client `i` that have been taken, with their takers. -/
def answeredOf (i : ℕ) (l : List Issue) (ts : List Taker) : List (Int32 × Taker) :=
  ((l.zip ts).filter (fun e => e.1.client = i)).map (fun e => (e.1.command, e.2))

@[simp] theorem answeredOf_nil (i : ℕ) (l : List Issue) : answeredOf i l [] = [] := by
  rw [answeredOf, List.zip_nil_right]
  rfl

theorem zip_append_of_le {α β : Type} {l l' : List α} {ts : List β} (h : l <+: l')
    (hle : ts.length ≤ l.length) : l'.zip ts = l.zip ts := by
  obtain ⟨t, rfl⟩ := h
  induction l generalizing ts with
  | nil =>
      obtain rfl := List.length_eq_zero_iff.1 (Nat.le_zero.1 hle)
      rw [List.zip_nil_right, List.zip_nil_right]
  | cons a l ih =>
      cases ts with
      | nil => rfl
      | cons b ts =>
          rw [List.cons_append, List.zip_cons_cons, List.zip_cons_cons,
            ih (Nat.le_of_succ_le_succ hle)]

theorem zip_concat {α β : Type} {l : List α} {ts : List β} {e : α} (t : β)
    (h : l[ts.length]? = some e) : l.zip (ts ++ [t]) = l.zip ts ++ [(e, t)] := by
  obtain ⟨hlt, hget⟩ := List.getElem?_eq_some_iff.1 h
  have hlen : (l.take ts.length).length = ts.length := List.length_take_of_le hlt.le
  have hsplit : l.take (ts.length + 1) = l.take ts.length ++ [e] := by
    rw [List.take_succ_eq_append_getElem hlt, hget]
  have hlong : (l.take ts.length ++ [e]).zip (ts ++ [t]) = l.zip (ts ++ [t]) := by
    rw [← hsplit]
    exact (zip_append_of_le (List.take_prefix _ _) (by simp; omega)).symm
  rw [← hlong, List.zip_append hlen, zip_append_of_le (List.take_prefix ts.length l) hlen.ge]
  rfl

theorem answeredOf_issued (i : ℕ) {l l' : List Issue} {ts : List Taker} (h : l <+: l')
    (hle : ts.length ≤ l.length) : answeredOf i l' ts = answeredOf i l ts := by
  rw [answeredOf, zip_append_of_le h hle, answeredOf]

theorem answeredOf_concat (i : ℕ) {l : List Issue} {ts : List Taker} {e : Issue} (t : Taker)
    (h : l[ts.length]? = some e) :
    answeredOf i l (ts ++ [t]) =
      answeredOf i l ts ++ if e.client = i then [(e.command, t)] else [] := by
  rw [answeredOf, zip_concat t h, List.filter_append, List.map_append, answeredOf]
  by_cases hclient : e.client = i <;> simp [hclient]

theorem zip_grow {α β : Type} {l l' : List α} {ts ts' : List β} (h : l <+: l') (h' : ts <+: ts') :
    l.zip ts <+: l'.zip ts' := by
  obtain ⟨t, rfl⟩ := h
  obtain ⟨t', rfl⟩ := h'
  induction l generalizing ts with
  | nil => exact List.nil_prefix
  | cons a l ih =>
      cases ts with
      | nil => exact List.nil_prefix
      | cons b ts => exact List.cons_prefix_cons.2 ⟨rfl, ih⟩

theorem answeredOf_grow (i : ℕ) {l l' : List Issue} {ts ts' : List Taker} (h : l <+: l')
    (h' : ts <+: ts') : answeredOf i l ts <+: answeredOf i l' ts' :=
  ((zip_grow h h').filter _).map _

theorem answeredOf_fst (i : ℕ) {l : List Issue} {ts : List Taker} (hle : ts.length ≤ l.length) :
    (answeredOf i l ts).map Prod.fst = commandsOf i (l.take ts.length) := by
  induction ts using List.reverseRecOn with
  | nil => simp
  | append_singleton ts t ih =>
      have hlt : ts.length < l.length := by
        rw [List.length_append, List.length_singleton] at hle
        omega
      rw [answeredOf_concat i t (List.getElem?_eq_getElem hlt), List.map_append, ih hlt.le,
        List.length_append, List.length_singleton, List.take_succ_eq_append_getElem hlt,
        commandsOf_concat]
      split <;> rfl

/-! ## What is sent -/

/-- What a client's rank 0 sends for a command: nothing to connect, the command, after a query its
    ping. -/
def ask (cmd : Int32) : List Message :=
  if cmd = connectCmd then []
  else if cmd = queryCmd then [⟨.command, intBytes cmd⟩, ⟨.ping, intBytes 0⟩]
  else [⟨.command, intBytes cmd⟩]

/-- What a client's rank 0 sends for its commands. -/
def asks (cmds : List Int32) : List Message :=
  cmds.flatMap ask

@[simp] theorem asks_nil : asks [] = [] := rfl

@[simp] theorem asks_append (cmds cmds' : List Int32) :
    asks (cmds ++ cmds') = asks cmds ++ asks cmds' :=
  List.flatMap_append

@[simp] theorem asks_singleton (cmd : Int32) : asks [cmd] = ask cmd := by
  simp [asks]

theorem asks_grow {cmds cmds' : List Int32} (h : cmds <+: cmds') : asks cmds <+: asks cmds' := by
  obtain ⟨t, rfl⟩ := h
  rw [asks_append]
  exact List.prefix_append _ _

section Answers

variable (snaps : ℕ → Snapshot 0)

/-- What a client's rank 0 is sent for a command: the quit flag, and after a query the state of the
    call that has taken it. -/
def answer (e : Int32 × Taker) : List Message :=
  ⟨.quit, intBytes e.2.reply⟩ ::
    match e.2 with
    | .process k => if e.1 = queryCmd then (snaps k).messages.map (fun m => ⟨.data, m⟩) else []
    | .destructor => []

/-- Without a query, or from the destructor, the quit flag is all. -/
theorem answer_of_ne {cmd : Int32} {t : Taker} (h : cmd ≠ queryCmd ∨ t = .destructor) :
    answer snaps (cmd, t) = [⟨.quit, intBytes t.reply⟩] := by
  cases t with
  | destructor => rfl
  | process k =>
      have hcmd : cmd ≠ queryCmd := h.resolve_right (by simp)
      simp [answer, hcmd]

/-- What a client's rank 0 is sent for its commands. -/
def answers (es : List (Int32 × Taker)) : List Message :=
  es.flatMap (answer snaps)

@[simp] theorem answers_nil : answers snaps [] = [] := rfl

@[simp] theorem answers_append (es es' : List (Int32 × Taker)) :
    answers snaps (es ++ es') = answers snaps es ++ answers snaps es' :=
  List.flatMap_append

@[simp] theorem answers_singleton (e : Int32 × Taker) : answers snaps [e] = answer snaps e := by
  simp [answers]

theorem answers_grow {es es' : List (Int32 × Taker)} (h : es <+: es') :
    answers snaps es <+: answers snaps es' := by
  obtain ⟨t, rfl⟩ := h
  rw [answers_append]
  exact List.prefix_append _ _

/-- The quit flags among the messages. -/
def quitFlags (l : List Message) : List Bytes :=
  (l.filter (fun m => m.kind = .quit)).map Message.data

theorem quitFlags_append (l l' : List Message) :
    quitFlags (l ++ l') = quitFlags l ++ quitFlags l' := by
  simp [quitFlags]

theorem quitFlags_answer (e : Int32 × Taker) :
    quitFlags (answer snaps e) = [intBytes e.2.reply] := by
  have hdata : ∀ msgs : List Bytes, quitFlags (msgs.map (fun m => ⟨.data, m⟩)) = [] := by
    intro msgs
    rw [quitFlags, List.map_eq_nil_iff, List.filter_eq_nil_iff]
    intro m hm
    obtain ⟨b, -, rfl⟩ := List.mem_map.1 hm
    simp
  obtain ⟨cmd, t⟩ := e
  cases t with
  | destructor => rfl
  | process k =>
      have hcons : answer snaps (cmd, .process k) = [⟨.quit, intBytes 0⟩] ++
          if cmd = queryCmd then (snaps k).messages.map (fun m => ⟨.data, m⟩) else [] := rfl
      rw [hcons, quitFlags_append]
      split
      · rw [hdata]
        rfl
      · rfl

/-- One quit flag for each answered command, in order. -/
theorem quitFlags_answers (es : List (Int32 × Taker)) :
    quitFlags (answers snaps es) = es.map (fun e => intBytes e.2.reply) := by
  induction es with
  | nil => rfl
  | cons e es ih =>
      have hcons : answers snaps (e :: es) = answer snaps e ++ answers snaps es := rfl
      rw [hcons, quitFlags_append, quitFlags_answer, ih]
      rfl

theorem quitFlags_grow {l l' : List Message} (h : l <+: l') : quitFlags l <+: quitFlags l' :=
  (h.filter _).map _

/-- After the answers to the first commands comes the quit flag of the next. -/
theorem answers_next_quit {es es' : List (Int32 × Taker)} (h : es <+: es') {m : Message}
    (hm : (answers snaps es')[(answers snaps es).length]? = some m) :
    ∃ e, es ++ [e] <+: es' ∧ m = ⟨.quit, intBytes e.2.reply⟩ := by
  obtain ⟨t, rfl⟩ := h
  cases t with
  | nil => exact absurd hm (by simp)
  | cons e t =>
      refine ⟨e, ⟨t, by simp⟩, ?_⟩
      have hcons : answers snaps (es ++ e :: t) =
          answers snaps es ++ (answer snaps e ++ answers snaps t) := by
        rw [answers_append]
        rfl
      rw [hcons, List.getElem?_append_right (le_refl _), Nat.sub_self] at hm
      exact (Option.some.inj hm).symm

/-- After the answers to the first commands and the quit flag of a query come the messages of the
    state. -/
theorem answers_next_data {es es' : List (Int32 × Taker)} {k : ℕ}
    (h : es ++ [(queryCmd, .process k)] <+: es') {got : ℕ} {b : Bytes}
    (hb : (snaps k).messages[got]? = some b) :
    (answers snaps es')[(answers snaps es).length + 1 + got]? = some ⟨.data, b⟩ := by
  refine (answers_grow snaps h).getElem?_eq_some ?_
  rw [answers_append, answers_singleton, Nat.add_assoc,
    List.getElem?_append_right (Nat.le_add_right _ _), Nat.add_sub_cancel_left, Nat.add_comm 1 got]
  have hanswer : answer snaps (queryCmd, .process k) =
      ⟨.quit, intBytes 0⟩ :: (snaps k).messages.map (fun m => ⟨.data, m⟩) := by
    simp [answer, Taker.reply]
  rw [hanswer, List.getElem?_cons_succ, List.getElem?_map, hb]
  rfl

end Answers

/-- Between the questions of the first commands and those of all stands the next command. -/
theorem asks_next_command {cmds cmds' : List Int32} (h : cmds <+: cmds')
    (hcmds : ∀ cmd ∈ cmds'.drop cmds.length, cmd ≠ connectCmd) {m : Message}
    (hm : (asks cmds')[(asks cmds).length]? = some m) :
    ∃ cmd, cmds ++ [cmd] <+: cmds' ∧ m = ⟨.command, intBytes cmd⟩ := by
  obtain ⟨t, rfl⟩ := h
  rw [List.drop_left] at hcmds
  cases t with
  | nil => exact absurd hm (by simp)
  | cons cmd t =>
      refine ⟨cmd, ⟨t, by simp⟩, ?_⟩
      have hcmd := hcmds cmd (List.mem_cons_self ..)
      have hcons : asks (cmds ++ cmd :: t) = asks cmds ++ (ask cmd ++ asks t) := by
        rw [asks_append]
        rfl
      rw [hcons, List.getElem?_append_right (le_refl _), Nat.sub_self, ask, if_neg hcmd] at hm
      split at hm <;> exact (Option.some.inj hm).symm

/-- After the command of a query stands its ping. -/
theorem asks_next_ping {cmds cmds' : List Int32} (h : cmds ++ [queryCmd] <+: cmds') :
    (asks cmds')[(asks cmds).length + 1]? = some ⟨.ping, intBytes 0⟩ := by
  refine (asks_grow h).getElem?_eq_some ?_
  rw [asks_append, asks_singleton, List.getElem?_append_right (Nat.le_add_right _ _),
    Nat.add_sub_cancel_left]
  rfl

/-! ## What the calls have done -/

/-- The command a call of `process()` has executed. -/
def executedBy : Branch → Option Int32
  | .connect => some connectCmd
  | .query => some queryCmd
  | .disconnect => some disconnectCmd
  | _ => none

/-- The commands the calls have executed, each with its call. -/
def executed (calls : List Branch) : List (Taker × Int32) :=
  calls.zipIdx.filterMap (fun p => (executedBy p.1).map (fun cmd => (.process p.2, cmd)))

@[simp] theorem executed_nil : executed [] = [] := rfl

/-- Only calls have executed commands. -/
theorem destructor_notMem_executed (calls : List Branch) :
    .destructor ∉ (executed calls).map Prod.fst := by
  intro hmem
  obtain ⟨e, he, htaker⟩ := List.mem_map.1 hmem
  obtain ⟨p, -, hp⟩ := List.mem_filterMap.1 he
  obtain ⟨cmd, -, rfl⟩ := Option.map_eq_some_iff.1 hp
  exact absurd htaker (by simp)

theorem executed_concat (calls : List Branch) (b : Branch) :
    executed (calls ++ [b]) =
      executed calls ++ (executedBy b).toList.map (fun cmd => (.process calls.length, cmd)) := by
  rw [executed, List.zipIdx_append, List.filterMap_append, executed]
  cases h : executedBy b <;> simp [h]

end Session

end LibIS
