import LibIS.Session.Steps

set_option autoImplicit false

/-! # Sessions: what a party knows

The assertions of the proof outline: how far the main thread, the listener thread and a client rank
are. None of the others can change what a party knows (the `stable` lemmas). -/

open ByteCodec Prog ThreadSystem Proof

namespace LibIS

namespace Session

/-! ## The main thread -/

/-- The flags and counters of the main thread after `calls`. -/
structure Flags (exit destroying joinable : Bool) (calls : List Branch) (w : World) : Prop where
  exitThread : w.exitThread = exit
  destroying : w.destroying = destroying
  joinable : w.joinable = joinable
  calls : w.calls = calls.length

/-- The first `b` commands, which the calls have executed, have been answered. For the next one, of
    client `i`, `a` messages have been taken and `out` has been sent. -/
structure Answered (X : Setup) (calls : List Branch) (b i a : ℕ) (out : List Message) (w : World) :
    Prop where
  le_takes : b ≤ w.takes.length
  le_issued : b ≤ w.issued.length
  served : (w.issued.zip (w.takes.take b)).map (fun e => (e.2, e.1.command)) = executed calls
  up : ∀ j, (w.up j 0).taken =
    (asks (commandsOf j (w.issued.take b))).length + if j = i then a else 0
  down : ∀ j, (w.down j 0).sent =
    answers X.snaps (answeredOf j w.issued (w.takes.take b)) ++ if j = i then out else []

/-- All commands so far have been answered. -/
structure Settled (X : Setup) (calls : List Branch) (b : ℕ) (w : World) : Prop where
  answered : Answered X calls b 0 0 [] w
  takes : w.takes.length = b
  replied : w.replied.length = b

/-- The main thread has the mutex, and there is no client. -/
structure Closed (X : Setup) (calls : List Branch) (b : ℕ) (w : World) : Prop where
  holder : w.holder = some .main
  settled : Settled X calls b w
  issued : w.issued.length = b
  closed : openClient w.issued = none

/-- The main thread has the mutex, and client `i` is connected. -/
structure Connected (X : Setup) (calls : List Branch) (b i : ℕ) (w : World) : Prop where
  holder : w.holder = some .main
  settled : Settled X calls b w
  client : openClient (w.issued.take b) = some i
  listener : w.published = w.spawned

/-- The main thread has the mutex and a command of client `i`, for which it has taken `a` messages
    and sent `out`. The command's taker is `t`. -/
structure Serving (X : Setup) (calls : List Branch) (b i : ℕ) (cmd : Int32) (t : Taker) (a : ℕ)
    (out : List Message) (w : World) : Prop where
  holder : w.holder = some .main
  answered : Answered X calls b i a out w
  issue : w.issued[b]? = some ⟨i, cmd⟩
  takes : w.takes.length = b + 1
  taker : w.takes[b]? = some t
  finalizing : t = .destructor → w.destroying = true
  replied : w.replied.length = if out = [] then b else b + 1
  /-- nobody else gives a command before the next listener thread -/
  last : cmd = disconnectCmd ∨ t = .destructor → w.issued.length = b + 1
  listener : w.published = w.spawned

/-- The destructor has done its work: every command has been answered, and none can be given. -/
structure Finalized (calls : List Branch) (w : World) : Prop where
  destroying : w.destroying = true
  noMore : openClient w.issued = none ∨ .destructor ∈ w.takes
  replied : w.issued.length = w.replied.length
  served : ∃ last, (w.issued.zip w.takes).map (fun e => (e.2, e.1.command)) =
    executed calls ++ last ∧ ∀ e ∈ last, e.1 = .destructor

section Stable

variable {X : Setup} {calls : List Branch} {w w' : World}

theorem Flags.stable {exit destroying joinable : Bool} (h : Flags exit destroying joinable calls w)
    (hrely : MainRely w w') : Flags exit destroying joinable calls w' where
  exitThread := hrely.exitThread.trans h.exitThread
  destroying := hrely.destroying.trans h.destroying
  joinable := hrely.joinable.trans h.joinable
  calls := hrely.calls.trans h.calls

theorem Answered.stable {b i a : ℕ} {out : List Message} (h : Answered X calls b i a out w)
    (hrely : MainRely w w') : Answered X calls b i a out w' := by
  have hlen : (w.takes.take b).length ≤ w.issued.length :=
    (List.length_take_le _ _).trans h.le_issued
  constructor
  · rw [hrely.takes]
    exact h.le_takes
  · exact h.le_issued.trans hrely.issued.length_le
  · rw [hrely.takes, zip_append_of_le hrely.issued hlen]
    exact h.served
  · intro j
    rw [hrely.upTaken, hrely.issued.take_eq h.le_issued]
    exact h.up j
  · intro j
    rw [hrely.downSent, hrely.takes, answeredOf_issued j hrely.issued hlen]
    exact h.down j

/-- As long as nothing has been taken or sent for the next command, its client does not matter. -/
theorem Answered.any {b i : ℕ} (h : Answered X calls b i 0 [] w) (j : ℕ) :
    Answered X calls b j 0 [] w :=
  { h with
    up := fun k => by simpa using h.up k
    down := fun k => by simpa using h.down k }

theorem Settled.stable {b : ℕ} (h : Settled X calls b w) (hrely : MainRely w w') :
    Settled X calls b w' where
  answered := h.answered.stable hrely
  takes := (congrArg List.length hrely.takes).trans h.takes
  replied := (congrArg List.length hrely.replied).trans h.replied

theorem Closed.stable {b : ℕ} (h : Closed X calls b w) (hrely : MainRely w w') :
    Closed X calls b w' := by
  have hissued : w'.issued = w.issued := hrely.closed h.holder h.closed
  constructor
  · exact hrely.holder.2 h.holder
  · exact h.settled.stable hrely
  · rw [hissued]
    exact h.issued
  · rw [hissued]
    exact h.closed

theorem Connected.stable {b i : ℕ} (h : Connected X calls b i w) (hrely : MainRely w w') :
    Connected X calls b i w' := by
  constructor
  · exact hrely.holder.2 h.holder
  · exact h.settled.stable hrely
  · rw [hrely.issued.take_eq h.settled.answered.le_issued]
    exact h.client
  · rw [hrely.published h.holder, hrely.spawned]
    exact h.listener

/-- After a command to disconnect there is no session. -/
theorem openClient_disconnect {l : List Issue} {b i : ℕ} (h : l[b]? = some ⟨i, disconnectCmd⟩)
    (hlast : l.length = b + 1) : openClient l = none := by
  obtain ⟨hlt, hget⟩ := List.getElem?_eq_some_iff.1 h
  have hl : l = l.take b ++ [⟨i, disconnectCmd⟩] := by
    rw [← hget, ← List.take_succ_eq_append_getElem hlt, ← hlast, List.take_length]
  rw [hl, openClient_concat, if_pos rfl]

theorem Serving.stable {b i a : ℕ} {cmd : Int32} {t : Taker} {out : List Message}
    (h : Serving X calls b i cmd t a out w) (hrely : MainRely w w') :
    Serving X calls b i cmd t a out w' := by
  constructor
  · exact hrely.holder.2 h.holder
  · exact h.answered.stable hrely
  · exact hrely.issued.getElem?_eq_some h.issue
  · rw [hrely.takes]
    exact h.takes
  · rw [hrely.takes]
    exact h.taker
  · exact fun ht => hrely.destroying.trans (h.finalizing ht)
  · rw [hrely.replied]
    exact h.replied
  · intro hlast
    have hlen := h.last hlast
    rcases hlast with rfl | rfl
    · rw [hrely.closed h.holder (openClient_disconnect h.issue hlen)]
      exact hlen
    · rw [hrely.finalized (h.finalizing rfl) (.inr (List.mem_of_getElem? h.taker))]
      exact hlen
  · rw [hrely.published h.holder, hrely.spawned]
    exact h.listener

theorem Finalized.stable (h : Finalized calls w) (hrely : MainRely w w') : Finalized calls w' := by
  have hissued : w'.issued = w.issued := hrely.finalized h.destroying h.noMore
  constructor
  · exact hrely.destroying.trans h.destroying
  · rw [hissued, hrely.takes]
    exact h.noMore
  · rw [hissued, hrely.replied]
    exact h.replied
  · rw [hissued, hrely.takes]
    exact h.served

theorem Answered.next {calls' : List Branch} {b i : ℕ} {cmd : Int32} {t : Taker}
    (h : Answered X calls b i (ask cmd).length (answer X.snaps (cmd, t)) w)
    (hissue : w.issued[b]? = some ⟨i, cmd⟩) (htaker : w.takes[b]? = some t)
    (hexecuted : executed calls' = executed calls ++ [(t, cmd)]) :
    Answered X calls' (b + 1) 0 0 [] w := by
  obtain ⟨hlt, hget⟩ := List.getElem?_eq_some_iff.1 hissue
  obtain ⟨hlt', hget'⟩ := List.getElem?_eq_some_iff.1 htaker
  have hlen : (w.takes.take b).length = b := List.length_take_of_le hlt'.le
  have htakes : w.takes.take (b + 1) = w.takes.take b ++ [t] := by
    rw [List.take_succ_eq_append_getElem hlt', hget']
  have hissued : w.issued.take (b + 1) = w.issued.take b ++ [⟨i, cmd⟩] := by
    rw [List.take_succ_eq_append_getElem hlt, hget]
  constructor
  · exact hlt'
  · exact hlt
  · rw [htakes, zip_concat t (hlen.symm ▸ hissue), List.map_append, h.served, hexecuted]
    rfl
  · intro j
    rw [h.up j, hissued, commandsOf_concat, asks_append, List.length_append, ite_self, Nat.add_zero]
    by_cases hj : j = i
    · rw [if_pos hj, if_pos hj.symm, asks_singleton]
    · rw [if_neg hj, if_neg (fun hi => hj hi.symm)]
      rfl
  · intro j
    rw [h.down j, htakes, answeredOf_concat j t (hlen.symm ▸ hissue), answers_append, ite_self,
      List.append_nil]
    by_cases hj : j = i
    · rw [if_pos hj, if_pos hj.symm, answers_singleton]
    · rw [if_neg hj, if_neg (fun hi => hj hi.symm)]
      rfl

end Stable

/-! ## The listener thread -/

/-- The listener thread has not published a frame yet. -/
structure Alive (w : World) : Prop where
  started : w.started = w.ended + 1
  published : w.published < w.started
  holder : w.holder ≠ some .listener

/-- The listener thread has accepted the connection of client `i` and has read `n` bytes from it. -/
structure Reading (i n : ℕ) (w : World) : Prop where
  reading : w.reading = i
  accepted : i ∈ w.dials.sent.take w.dials.taken
  taken : (w.frame i).taken = n
  new : commandsOf i w.issued = []

/-- The listener thread is about to end. -/
structure Leaving (w : World) : Prop where
  started : w.started = w.ended + 1
  published : w.exitThread = true ∨ w.published = w.started
  holder : w.holder ≠ some .listener

section Stable

variable {w w' : World}

theorem Alive.stable (h : Alive w) (hrely : ListenerRely w w') : Alive w' where
  started := by
    rw [hrely.started, hrely.ended]
    exact h.started
  published := by
    rw [hrely.published, hrely.started]
    exact h.published
  holder hw := h.holder (hrely.holder.1 hw)

theorem Reading.stable {i n : ℕ} (h : Reading i n w) (hrely : ListenerRely w w') :
    Reading i n w' where
  reading := hrely.reading.trans h.reading
  accepted := by
    rw [hrely.dialsTaken]
    exact (hrely.dialsSent.take _).subset h.accepted
  taken := (hrely.frameTaken i).trans h.taken
  new := hrely.commands i h.new

theorem Leaving.stable (h : Leaving w) (hrely : ListenerRely w w') : Leaving w' where
  started := by
    rw [hrely.started, hrely.ended]
    exact h.started
  published := by
    rw [hrely.published, hrely.started]
    exact h.published.imp_left hrely.exitThread
  holder hw := h.holder (hrely.holder.1 hw)

end Stable

/-! ## A client -/

/-- Rank 0 of client `i` has not been connected yet. It has sent the bytes `bs` to the listening
    socket and has broadcast `cast`. -/
structure Fresh (i : ℕ) (bs : Bytes) (cast : List Bytes) (w : World) : Prop where
  commands : commandsOf i w.issued = [] ∨ commandsOf i w.issued = [connectCmd]
  upSent : (w.up i 0).sent = []
  downTaken : (w.down i 0).taken = 0
  frame : (w.frame i).sent = bs
  cast : w.clientCast i = cast

/-- Rank 0 of client `i` has given the commands `cmds`, of which it knows `known` to have been
    taken. It has sent `asked` and taken `got` messages, and has broadcast `cast`. -/
structure RootAt (i : ℕ) (cmds : List Int32) (known : List (Int32 × Taker)) (asked : List Message)
    (got : ℕ) (cast : List Bytes) (w : World) : Prop where
  commands : commandsOf i w.issued = cmds
  given : cmds ≠ []
  answered : known <+: answeredOf i w.issued w.takes
  upSent : (w.up i 0).sent = asked
  downTaken : (w.down i 0).taken = got
  cast : w.clientCast i = cast

/-- Rank `c` of client `i` has entered `n` barriers and been broadcast `heard`. -/
structure RankAt (i c n : ℕ) (heard : List Bytes) (w : World) : Prop where
  arrived : w.arrived i c = n
  clientHeard : w.clientHeard i c = heard.length
  cast : heard <+: w.clientCast i

/-- Rank 0 of client `i` between two calls, when its commands have been taken as in `es`. -/
def Idle (X : Setup) (i : ℕ) (es : List (Int32 × Taker)) : World → Prop :=
  RootAt i (es.map Prod.fst) es (asks (es.map Prod.fst)) (answers X.snaps es).length
    (intBytes 0 :: es.map (fun e => intBytes e.2.reply))

section Stable

variable {i c : ℕ} {w w' : World}

theorem Fresh.stable {bs : Bytes} {cast : List Bytes} (h : Fresh i bs cast w)
    (hrely : ClientRely i c w w') (hc : c = 0) : Fresh i bs cast w' := by
  subst hc
  constructor
  · rcases hrely.rootCommands rfl with hsame | ⟨-, hfirst⟩
    · rw [hsame]
      exact h.commands
    · exact .inr hfirst
  · exact hrely.upSent.trans h.upSent
  · exact hrely.downTaken.trans h.downTaken
  · exact (hrely.rootFrame rfl).trans h.frame
  · exact (hrely.rootCast rfl).trans h.cast

theorem RootAt.stable {cmds : List Int32} {known : List (Int32 × Taker)} {asked : List Message}
    {got : ℕ} {cast : List Bytes} (h : RootAt i cmds known asked got cast w)
    (hrely : ClientRely i c w w') (hc : c = 0) : RootAt i cmds known asked got cast w' := by
  subst hc
  constructor
  · rcases hrely.rootCommands rfl with hsame | ⟨hnone, -⟩
    · exact hsame.trans h.commands
    · exact absurd (h.commands.symm.trans hnone) h.given
  · exact h.given
  · exact h.answered.trans (answeredOf_grow i hrely.issued hrely.takes)
  · exact hrely.upSent.trans h.upSent
  · exact hrely.downTaken.trans h.downTaken
  · exact (hrely.rootCast rfl).trans h.cast

theorem Entered.stable {X : Setup} {n : ℕ} (h : Entered X i n w) (hrely : ClientRely i c w w') :
    Entered X i n w' :=
  fun c' hc' => (h c' hc').trans (hrely.arrivals c')

theorem RankAt.stable {n : ℕ} {heard : List Bytes} (h : RankAt i c n heard w)
    (hrely : ClientRely i c w w') : RankAt i c n heard w' where
  arrived := hrely.arrived.trans h.arrived
  clientHeard := hrely.clientHeard.trans h.clientHeard
  cast := h.cast.trans hrely.clientCast

end Stable

/-! ## The proof outline -/

section Outline

variable (X : Setup)

/-- What must hold when an operation of a party is due. -/
def ready : (p : Party X) → (system X).Op p → World → Prop
  | .main => readyMain
  | .listener => readyListener
  | .client i c => readyClient i c

/-- No call has thrown. -/
def NoThrow (calls : List Branch) : Prop :=
  ∀ b ∈ calls, ∀ e, b ≠ .threw e

/-- What the main thread knows between two calls. -/
def mainPost : MainLabel → World → Prop
  | .running calls, w =>
      NoThrow calls ∧ w.holder ≠ some .main ∧ Flags false false true calls w ∧
        ∃ b, Settled X calls b w
  | .finalized calls result, w =>
      (NoThrow calls ∧ result = .ok ()) ∧ w.holder ≠ some .main ∧ Finalized calls w

/-- What the listener thread knows between two rounds of its loops. -/
def listenerPost : Listener.Label → World → Prop
  | .waiting, w => w.started = w.ended ∧ w.holder ≠ some .listener
  | .listening, w => Alive w
  | .accepting, w => Alive w
  | .leaving, w => Leaving w

/-- What rank `c` of client `i` knows between two calls. -/
def clientPost (i c : ℕ) : ClientLabel → World → Prop
  | .start, w =>
      (c = 0 → Fresh i [] [] w ∧ i ∉ w.dials.sent) ∧ (c ≠ 0 → RankAt i c 0 [] w)
  | .connected this quits _, w =>
      (this.intercomm = some i ∧ this.simQuit = 0 ∧ ∀ quit ∈ quits, quit = 0) ∧
        (c = 0 → ∃ es, quits = es.map (fun e => e.2.reply) ∧
          (Entered X i (2 * es.length - 1) w ∧ Idle X i es w) ∧
          ∃ cmds cmd, es.map Prod.fst = cmds ++ [cmd] ∧ cmd ≠ disconnectCmd) ∧
        (c ≠ 0 → ∃ n, n + 1 = 2 * quits.length ∧
          RankAt i c n (intBytes 0 :: quits.map intBytes) w)
  | .gone quits, w =>
      (c = 0 → ∃ es asked, quits = es.map (fun e => e.2.reply) ∧
        RootAt i (es.map Prod.fst) es asked (answers X.snaps es).length
          (intBytes 0 :: es.map (fun e => intBytes e.2.reply)) w) ∧
        (c ≠ 0 → ∃ n, RankAt i c n (intBytes 0 :: quits.map intBytes) w)

/-- What a party knows between two calls. -/
def between : (p : Party X) → (system X).Label p → World → Prop
  | .main => mainPost X
  | .listener => listenerPost
  | .client i c => clientPost X i c

/-- The proof outline. -/
@[reducible] def outline : (system X).Proof where
  inv := Inv X
  rely := Rely X
  ready := ready X
  post := between X
  rely_refl := Rely.refl
  rely_trans
    | .main => fun _ _ _ => MainRely.trans
    | .listener => fun _ _ _ => ListenerRely.trans
    | .client _ _ => fun _ _ _ => ClientRely.trans

variable {X}

theorem main_op {o : SimOp ℕ} {pre : World → Prop} {Q : o.Resp → World → Prop}
    (hstable : (outline X).Stable .main pre)
    (hready : ∀ w, Inv X w → pre w → readyMain o w)
    (hstep : ∀ w r w', Inv X w → pre w → performMain X o w r w' → Inv X w' ∧ Q r w') :
    (outline X).Triple .main pre (Prog.op o) Q := by
  refine Triple.op hstable hready ?_
  intro w r w' hinv hpre hperform
  obtain ⟨hinv', hQ⟩ := hstep w r w' hinv hpre hperform
  exact ⟨⟨hinv', fun j hj => performMain_rely (hready w hinv hpre) hperform j hj⟩, hQ⟩

theorem listener_op {o : ListenerOp ℕ} {pre : World → Prop} {Q : o.Resp → World → Prop}
    (hstable : (outline X).Stable .listener pre)
    (hready : ∀ w, Inv X w → pre w → readyListener o w)
    (hstep : ∀ w r w', Inv X w → pre w → performListener o w r w' → Inv X w' ∧ Q r w') :
    (outline X).Triple .listener pre (Prog.op o) Q := by
  refine Triple.op hstable hready ?_
  intro w r w' hinv hpre hperform
  obtain ⟨hinv', hQ⟩ := hstep w r w' hinv hpre hperform
  exact ⟨⟨hinv', fun j hj => performListener_rely (hready w hinv hpre) hperform j hj⟩, hQ⟩

theorem client_op {i : ℕ} {c : Fin (X.size i)} {o : ClientOp ℕ} {pre : World → Prop}
    {Q : o.Resp → World → Prop} (hstable : (outline X).Stable (.client i c) pre)
    (hready : ∀ w, Inv X w → pre w → readyClient i c o w)
    (hstep : ∀ w r w', Inv X w → pre w → performClient X i c o w r w' → Inv X w' ∧ Q r w') :
    (outline X).Triple (.client i c) pre (Prog.op o) Q := by
  refine Triple.op hstable hready ?_
  intro w r w' hinv hpre hperform
  obtain ⟨hinv', hQ⟩ := hstep w r w' hinv hpre hperform
  exact ⟨⟨hinv', fun j hj => performClient_rely (hready w hinv hpre) hperform j hj⟩, hQ⟩

end Outline

end Session

end LibIS
