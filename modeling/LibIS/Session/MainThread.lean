import LibIS.Session.Outline
import LibIS.Sim.Agreement

set_option autoImplicit false

/-! # Sessions: the main thread

`process()` and the destructor take one command at most, and answer it before they release the mutex
(`process_triple`, `destructor_triple`). -/

open ByteCodec Prog ThreadSystem Proof

namespace LibIS

namespace Session

variable {X : Setup} {calls : List Branch} {b i : ℕ}

/-! ## A command is taken -/

/-- Who takes a command now. -/
def takerNow (exit : Bool) (calls : List Branch) : Taker :=
  if exit then .destructor else .process calls.length

theorem Flags.taker {exit destroying joinable : Bool} {w : World}
    (h : Flags exit destroying joinable calls w) : w.taker = takerNow exit calls := by
  rw [World.taker, takerNow, h.exitThread, h.calls]

/-- What has been answered stays so when a command is taken. -/
theorem Answered.take {a : ℕ} {out : List Message} {w : World} (h : Answered X calls b i a out w)
    (t : Taker) : Answered X calls b i a out { w with takes := w.takes ++ [t] } := by
  have htake : (w.takes ++ [t]).take b = w.takes.take b :=
    List.take_append_of_le_length h.le_takes
  exact { h with
    le_takes := by
      rw [List.length_append]
      exact h.le_takes.trans (Nat.le_add_right _ _)
    served := by rw [htake]; exact h.served
    down := fun j => by rw [htake]; exact h.down j }

/-- What the main thread finds when it gets the mutex: no client, or one that has asked to connect,
    or one that is connected. -/
def Found (X : Setup) (calls : List Branch) (b : ℕ) (t : Taker) (cm : ConnectionManager ℕ)
    (w : World) : Prop :=
  ((cm.intercomm = none ∧ cm.newQuery = false ∧ cm.clientCommand ≠ connectCmd) ∧
      Closed X calls b w ∧ w.published < w.spawned) ∨
    (∃ i, (cm.intercomm = none ∧ cm.newQuery = true ∧ cm.clientCommand = connectCmd ∧
      cm.clientPort = X.port i) ∧ Serving X calls b i connectCmd t 0 [] w ∧ w.linked i = false) ∨
    ∃ i, (cm.intercomm = some i ∧ cm.newQuery = false) ∧ Connected X calls b i w

theorem lock_triple {exit joinable : Bool} :
    (outline X).Triple .main
      (fun w => Flags exit false joinable calls w ∧ w.holder ≠ some .main ∧
        (exit = true → w.ended = w.spawned) ∧ Settled X calls b w)
      SimOp.lockMutex
      (fun cm w => Flags exit exit joinable calls w ∧
        Found X calls b (takerNow exit calls) cm w) := by
  refine main_op ?_ (fun _ _ _ => trivial) ?_
  · rintro w w' ⟨hflags, hholder, hended, hsettled⟩ hrely hinv'
    refine ⟨hflags.stable hrely, fun hw => hholder (hrely.holder.1 hw), fun hexit => ?_,
      hsettled.stable hrely⟩
    refine le_antisymm (hinv'.ended_le.trans hinv'.started_le) ?_
    rw [hrely.spawned, ← hended hexit]
    exact hrely.ended
  · rintro w r w' hinv ⟨hflags, hholder, hended, hsettled⟩ ⟨-, rfl, rfl⟩
    have hhold := hinv.hold hflags.destroying (fun hexit => hended (hflags.exitThread ▸ hexit))
    have hflags' : Flags exit exit joinable calls
        { w with holder := some .main, destroying := w.exitThread } :=
      { hflags with destroying := hflags.exitThread }
    -- the mutex was free, so the manager is found at rest
    cases hinv.quiet hflags.destroying hholder with
    | closed hcomm hquery hcommand hreplied hopen hlistener =>
        simp only [hquery]
        refine ⟨hhold, { hflags' with }, .inl ⟨⟨hcomm, hquery, hcommand⟩, ?_, hlistener⟩⟩
        exact {
          holder := rfl
          settled := { hsettled with answered := { hsettled.answered with } }
          issued := hreplied.trans hsettled.replied
          closed := hopen }
    | offered i hcomm hquery hcommand hport hlinked htakes hlast hlistener =>
        obtain ⟨hlt, -⟩ := List.getElem?_eq_some_iff.1 hlast
        have hproc := hinv.processing hflags.destroying
        simp only [hquery, if_true]
        rw [hflags.taker]
        have hfinalizing : takerNow exit calls = .destructor → w.exitThread = true := by
          intro ht
          rw [hflags.exitThread]
          cases exit with
          | true => rfl
          | false => exact absurd ht (by simp [takerNow])
        have hdestructor : w.exitThread = false → takerNow exit calls ≠ .destructor := by
          intro hexit ht
          rw [hfinalizing ht] at hexit
          exact absurd hexit (by simp)
        -- the command of a frame counts as taken when a call finds it
        refine ⟨hhold.take (htakes ▸ hlt) hproc hdestructor rfl, { hflags' with },
          .inr (.inl ⟨i, ⟨hcomm, hquery, hcommand, hport⟩, ?_, hlinked⟩)⟩
        have hbase := hsettled.replied
        exact {
          holder := rfl
          answered := { (hsettled.answered.any i).take (takerNow exit calls) with }
          issue := hbase ▸ hlast
          takes := by simp [hsettled.takes]
          taker := by simp [← hsettled.takes]
          finalizing := hfinalizing
          replied := hbase
          last := fun _ => le_antisymm (hbase ▸ hinv.issued_le) (hbase ▸ hlt)
          listener := hlistener }
    | connected i hcomm hquery htakes hopen hlistener =>
        simp only [hquery]
        refine ⟨hhold, { hflags' with }, .inr (.inr ⟨i, ⟨hcomm, hquery⟩, ?_⟩)⟩
        exact {
          holder := rfl
          settled := { hsettled with answered := { hsettled.answered with } }
          client := hsettled.replied ▸ hopen
          listener := hlistener }

/-! ## The command that has been taken -/

section Command

variable {cmd : Int32} {t : Taker} {a : ℕ} {out : List Message} {w : World}

theorem Serving.commands (h : Serving X calls b i cmd t a out w) :
    commandsOf i (w.issued.take b) ++ [cmd] <+: commandsOf i w.issued := by
  obtain ⟨hlt, hget⟩ := List.getElem?_eq_some_iff.1 h.issue
  have hgrow := commandsOf_grow i (List.take_prefix (b + 1) w.issued)
  rwa [List.take_succ_eq_append_getElem hlt, hget, commandsOf_concat, if_pos rfl] at hgrow

theorem Serving.taken (h : Serving X calls b i cmd t a out w) :
    commandsOf i (w.issued.take w.takes.length) ≠ [] := by
  obtain ⟨hlt, hget⟩ := List.getElem?_eq_some_iff.1 h.issue
  rw [h.takes, List.take_succ_eq_append_getElem hlt, hget, commandsOf_concat, if_pos rfl]
  simp

/-- What is sent for the commands so far ends with the answer to this one. -/
theorem Serving.answers_eq (h : Serving X calls b i cmd t a out w) :
    answers X.snaps (answeredOf i w.issued w.takes) =
      answers X.snaps (answeredOf i w.issued (w.takes.take b)) ++ answer X.snaps (cmd, t) := by
  obtain ⟨hlt, hget⟩ := List.getElem?_eq_some_iff.1 h.taker
  have hlen : (w.takes.take b).length = b := List.length_take_of_le hlt.le
  have htakes : w.takes = w.takes.take b ++ [t] := by
    rw [← hget, ← List.take_succ_eq_append_getElem hlt, ← h.takes, List.take_length]
  conv_lhs => rw [htakes]
  rw [answeredOf_concat i t (hlen.symm ▸ h.issue), if_pos rfl, answers_append, answers_singleton]

theorem Serving.settled {calls' : List Branch}
    (h : Serving X calls b i cmd t (ask cmd).length (answer X.snaps (cmd, t)) w)
    (hexecuted : executed calls' = executed calls ++ [(t, cmd)]) : Settled X calls' (b + 1) w where
  answered := h.answered.next h.issue h.taker hexecuted
  takes := h.takes
  replied := h.replied

end Command

theorem executed_branch (calls : List Branch) {branch : Branch} {cmd : Int32}
    (h : executedBy branch = some cmd) :
    executed (calls ++ [branch]) = executed calls ++ [(.process calls.length, cmd)] := by
  rw [executed_concat, h]
  rfl

theorem Settled.idle {w : World} (h : Settled X calls b w) : Settled X (calls ++ [.idle]) b w := by
  have hexecuted : executed (calls ++ [.idle]) = executed calls := by
    rw [executed_concat]
    exact List.append_nil _
  exact { h with answered := { h.answered with served := hexecuted ▸ h.answered.served } }

/-- Only calls have taken commands. -/
theorem Settled.processes {w : World} (hinv : Inv X w) (h : Settled X calls b w) :
    .destructor ∉ w.takes := by
  have htake : w.takes.take b = w.takes := List.take_of_length_le h.takes.le
  have hserved : ((w.issued.zip w.takes).map (fun e => (e.2, e.1.command))).map Prod.fst =
      (executed calls).map Prod.fst := by
    rw [← h.answered.served, htake]
  have hsnd : ((w.issued.zip w.takes).map (fun e => (e.2, e.1.command))).map Prod.fst = w.takes := by
    rw [List.map_map]
    exact List.map_snd_zip hinv.takes_le
  rw [← hsnd, hserved]
  exact destructor_notMem_executed calls

/-! ## Operations -/

section Operations

variable {exit destroying joinable : Bool} {t : Taker} {cmd : Int32} {a : ℕ} {out : List Message}

theorem closed_stable {calls' : List Branch} :
    (outline X).Stable .main (fun w => Flags exit destroying joinable calls w ∧
      Closed X calls' b w ∧ w.published < w.spawned) := by
  rintro w w' ⟨hflags, hclosed, hlt⟩ hrely -
  refine ⟨hflags.stable hrely, hclosed.stable hrely, ?_⟩
  rw [hrely.published hclosed.holder, hrely.spawned]
  exact hlt

theorem connected_stable {calls' : List Branch} :
    (outline X).Stable .main (fun w => Flags exit destroying joinable calls w ∧
      Connected X calls' b i w) :=
  fun _ _ h hrely _ => ⟨h.1.stable hrely, h.2.stable hrely⟩

theorem serving_stable :
    (outline X).Stable .main (fun w => Flags exit destroying joinable calls w ∧
      Serving X calls b i cmd t a out w) :=
  fun _ _ h hrely _ => ⟨h.1.stable hrely, h.2.stable hrely⟩

theorem bcast_triple {buf : Bytes} {pre : World → Prop} (hstable : (outline X).Stable .main pre) :
    (outline X).Triple .main pre (SimOp.mpiBcast buf) (fun r w => r = buf ∧ pre w) := by
  refine main_op hstable (fun _ _ _ => trivial) ?_
  rintro w r w' hinv hpre ⟨hr, rfl⟩
  exact ⟨hinv, hr, hpre⟩

theorem close_triple {comm : ℕ} {pre : World → Prop} (hstable : (outline X).Stable .main pre) :
    (outline X).Triple .main pre (SimOp.closeComm comm) (fun _ => pre) := by
  refine main_op hstable (fun _ _ _ => trivial) ?_
  rintro w r w' hinv hpre rfl
  exact ⟨hinv, hpre⟩

theorem sendQuit_triple :
    (outline X).Triple .main (fun w => Flags exit destroying joinable calls w ∧
        Serving X calls b i cmd t a [] w)
      (ConnectionManager.sendQuit i t.reply)
      (fun _ w => Flags exit destroying joinable calls w ∧
        Serving X calls b i cmd t a [⟨.quit, intBytes t.reply⟩] w) := by
  refine main_op serving_stable (fun w _ _ => ⟨rfl, fun h => absurd h (by simp)⟩) ?_
  rintro w r w' hinv ⟨hflags, hat⟩ hperform
  have hreplied : w.replied.length = b := by simpa using hat.replied
  have hdown := hat.answered.down i
  simp only [if_true, List.append_nil] at hdown
  simp only [performMain, if_true, intOfBytes_intBytes] at hperform
  subst hperform
  refine ⟨?_, { hflags with }, ?_⟩
  · have hissue : w.issued[w.replied.length]? = some ⟨i, cmd⟩ := hreplied.symm ▸ hat.issue
    exact hinv.reply hissue (hreplied.symm ▸ hat.taker) (hreplied.symm ▸ hdown) hat.holder
  · refine { hat with answered := { hat.answered with down := fun j => ?_ }, replied := ?_ }
    · by_cases hj : j = i
      · subst hj
        simp only [updateAt_self, Channel.push_sent, hdown, if_true]
      · simpa only [updateAt_of_ne_left _ _ hj, if_neg hj] using hat.answered.down j
    · simp [hreplied]

/-- The next message of the client, if it is the one that the command goes on with. -/
theorem recv_triple {kind : Kind} {data : Bytes} {size : ℕ} (hsize : data.length = size)
    (hnext : ∀ w, Inv X w → Serving X calls b i cmd t a out w → ∀ m,
      (w.up i 0).next? = some m → m = ⟨kind, data⟩) (hkind : kind ≠ .command) :
    (outline X).Triple .main (fun w => Flags exit destroying joinable calls w ∧
        Serving X calls b i cmd t a out w)
      (SimOp.recvFrom i kind size 0)
      (fun r w => r = data ∧ Flags exit destroying joinable calls w ∧
        Serving X calls b i cmd t (a + 1) out w) := by
  refine main_op serving_stable ?_ ?_
  · rintro w hinv ⟨-, hat⟩ m hm
    rw [hnext w hinv hat m hm]
    exact ⟨rfl, hsize⟩
  · rintro w r w' hinv ⟨hflags, hat⟩ ⟨m, hm, rfl, rfl⟩
    obtain rfl := hnext w hinv hat m hm
    simp only [if_neg hkind]
    refine ⟨hinv.takeUp i hat.holder, trivial, { hflags with }, ?_⟩
    refine { hat with answered := { hat.answered with up := fun j => ?_ } }
    have hup := hat.answered.up j
    by_cases hj : j = i
    · subst hj
      simp only [updateAt_self, Channel.pop_taken, if_true] at hup ⊢
      omega
    · simpa only [updateAt_of_ne_left _ _ hj, if_neg hj] using hup

theorem takeCommand_triple :
    (outline X).Triple .main (fun w => Flags exit exit joinable calls w ∧
        Connected X calls b i w)
      (SimOp.recvFrom i .command 4 0)
      (fun r w => ∃ cmd, (r = intBytes cmd ∧ (cmd = queryCmd ∨ cmd = disconnectCmd)) ∧
        Flags exit exit joinable calls w ∧
        Serving X calls b i cmd (takerNow exit calls) 1 [] w) := by
  have hnext : ∀ w, Inv X w → Connected X calls b i w → ∀ m, (w.up i 0).next? = some m →
      ∃ cmd, (cmd = queryCmd ∨ cmd = disconnectCmd) ∧ w.issued[b]? = some ⟨i, cmd⟩ ∧
        m = ⟨.command, intBytes cmd⟩ := by
    intro w hinv hat m hm
    refine hinv.next_command hat.client ?_ hm
    simpa using hat.settled.answered.up i
  refine main_op connected_stable ?_ ?_
  · rintro w hinv ⟨-, hat⟩ m hm
    obtain ⟨cmd, -, -, rfl⟩ := hnext w hinv hat m hm
    exact ⟨rfl, intBytes_length cmd⟩
  · rintro w r w' hinv ⟨hflags, hat⟩ ⟨m, hm, rfl, rfl⟩
    obtain ⟨cmd, hcmd, hissue, rfl⟩ := hnext w hinv hat m hm
    obtain ⟨hlt, -⟩ := List.getElem?_eq_some_iff.1 hissue
    simp only [if_true]
    rw [hflags.taker]
    have htakes := hat.settled.takes
    have hreplied := hat.settled.replied
    have hfinalizing : takerNow exit calls = .destructor → w.destroying = true := by
      intro ht
      rw [hflags.destroying]
      cases exit with
      | true => rfl
      | false => exact absurd ht (by simp [takerNow])
    have hprocess : w.destroying = false → takerNow exit calls ≠ .destructor := by
      intro hdestroying ht
      rw [hfinalizing ht] at hdestroying
      exact absurd hdestroying (by simp)
    have hproc := hat.settled.processes hinv
    refine ⟨(hinv.takeUp i hat.holder).take (htakes ▸ hlt) hproc hprocess hat.holder, cmd,
      ⟨rfl, hcmd⟩, { hflags with }, ?_⟩
    have hanswered := (hat.settled.answered.any i).take (takerNow exit calls)
    exact {
      holder := hat.holder
      answered := { hanswered with
        up := fun j => by
          have hup := hanswered.up j
          by_cases hj : j = i
          · subst hj
            simp only [updateAt_self, Channel.pop_taken, if_true, Nat.add_zero] at hup ⊢
            omega
          · simpa only [updateAt_of_ne_left _ _ hj, if_neg hj] using hup }
      issue := hissue
      takes := by simp [htakes]
      taker := by simp [← htakes]
      finalizing := hfinalizing
      replied := hreplied
      last := fun _ => le_antisymm (hreplied ▸ hinv.issued_le) hlt
      listener := hat.listener }

/-- The connection to the client that has asked for it. -/
theorem connectTo_triple :
    (outline X).Triple .main (fun w => (Flags exit destroying joinable calls w ∧
        Serving X calls b i cmd t a out w) ∧ w.linked i = false)
      (SimOp.connectTo (X.port i))
      (fun r w => r = .ok i ∧ Flags exit destroying joinable calls w ∧
        Serving X calls b i cmd t a out w) := by
  refine main_op ?_ (fun _ _ _ => trivial) ?_
  · rintro w w' ⟨hat, hlinked⟩ hrely hinv'
    refine ⟨serving_stable w w' hat hrely hinv', ?_⟩
    rw [hrely.linked]
    exact hlinked
  · rintro w r w' hinv ⟨⟨hflags, hat⟩, hlinked⟩ ⟨k, hopened, hport, rfl, rfl⟩
    have hdialled : i ∈ w.dials.sent := by
      refine List.mem_of_mem_take (hinv.mem_dials (fun hnone => ?_))
      exact absurd (hnone ▸ hat.commands) (by simp)
    have hopen : w.opened i = true := (hinv.dialling i hdialled).resolve_right (by simp [hlinked])
    obtain rfl := hinv.ports k i hopened hopen hport
    exact ⟨hinv.connect hat.taken hat.holder, rfl, { hflags with },
      { hat with answered := { hat.answered with } }⟩

theorem connectClient_triple {clientCommand : Int32} {newQuery : Bool} :
    (outline X).Triple .main (fun w => (Flags exit destroying joinable calls w ∧
        Serving X calls b i cmd t a out w) ∧ w.linked i = false)
      (ConnectionManager.connectClient 0 ⟨none, X.port i, clientCommand, newQuery⟩)
      (fun p w => p = (.ok (), ⟨some i, X.port i, clientCommand, newQuery⟩) ∧
        Flags exit destroying joinable calls w ∧ Serving X calls b i cmd t a out w) := by
  have hstable : (outline X).Stable .main (fun w => (Flags exit destroying joinable calls w ∧
      Serving X calls b i cmd t a out w) ∧ w.linked i = false) := by
    rintro w w' ⟨hat, hlinked⟩ hrely hinv'
    refine ⟨serving_stable w w' hat hrely hinv', ?_⟩
    rw [hrely.linked]
    exact hlinked
  simp only [ConnectionManager.connectClient, ConnectionManager.bcastPort,
    ConnectionManager.serialize_port, if_true, Prog.bind_assoc, pure_eq, ret_bind]
  refine Triple.bind (bcast_triple hstable) (fun _ => Triple.pure (fun _ => ?_))
  refine Triple.bind (bcast_triple hstable) (fun _ => Triple.pure (fun _ => ?_))
  refine Triple.bind connectTo_triple (fun r => Triple.pure (fun hr => ?_))
  rw [hr]
  exact Triple.ret (fun w _ h => ⟨rfl, h⟩)

/-- Whoever pings is rank 0 of the client. -/
theorem probeAny_triple :
    (outline X).Triple .main (fun w => Flags exit destroying joinable calls w ∧
        Serving X calls b i cmd t a out w)
      (SimOp.probeAny i)
      (fun r w => r = 0 ∧ Flags exit destroying joinable calls w ∧
        Serving X calls b i cmd t a out w) := by
  refine main_op serving_stable (fun _ _ _ => trivial) ?_
  rintro w r w' hinv hat ⟨-, hsome, -, rfl⟩
  refine ⟨hinv, ?_, hat⟩
  by_contra hr
  rw [Channel.next?, hinv.upOther i r hr] at hsome
  exact absurd hsome (by simp)

end Operations

/-! ## A query -/

section Query

variable {joinable : Bool} {k : ℕ}

theorem recvPing_triple {out : List Message} {exit destroying : Bool} {t : Taker} :
    (outline X).Triple .main (fun w => Flags exit destroying joinable calls w ∧
        Serving X calls b i queryCmd t 1 out w)
      (SimOp.recvFrom i .ping 4 0)
      (fun r w => r = intBytes 0 ∧ Flags exit destroying joinable calls w ∧
        Serving X calls b i queryCmd t 2 out w) := by
  refine recv_triple (intBytes_length 0) ?_ (by decide)
  intro w hinv hat m hm
  have hup := hat.answered.up i
  rw [if_pos rfl] at hup
  have hping := (hinv.upRoot i).getElem?_eq_some hm
  rw [hup, asks_next_ping hat.commands] at hping
  exact (Option.some.inj hping).symm

theorem sendData_triple {m : Bytes} {sent rest : List Bytes}
    (hm : (X.snaps k).messages = sent ++ m :: rest) :
    (outline X).Triple .main (fun w => Flags false false joinable calls w ∧
        Serving X calls b i queryCmd (.process k) 2
          (⟨.quit, intBytes 0⟩ :: sent.map (fun m => ⟨.data, m⟩)) w)
      (SimOp.sendTo i .data m 0)
      (fun _ w => Flags false false joinable calls w ∧
        Serving X calls b i queryCmd (.process k) 2
          (⟨.quit, intBytes 0⟩ :: (sent ++ [m]).map (fun m => ⟨.data, m⟩)) w) := by
  refine main_op serving_stable (fun w _ h => ⟨rfl, fun _ => h.1.destroying⟩) ?_
  rintro w r w' hinv ⟨hflags, hat⟩ hperform
  have hdown := hat.answered.down i
  rw [if_pos rfl] at hdown
  simp only [performMain] at hperform
  subst hperform
  refine ⟨hinv.sendData hat.holder ?_, { hflags with }, ?_⟩
  · -- what has been sent so far is the start of the answer
    rw [hdown, hat.answers_eq, List.append_assoc]
    refine (List.prefix_append_right_inj _).2 ⟨rest.map (fun m => ⟨.data, m⟩), ?_⟩
    simp [answer, Taker.reply, hm]
  · refine { hat with answered := { hat.answered with down := fun j => ?_ }, replied := ?_ }
    · by_cases hj : j = i
      · subst hj
        simp only [updateAt_self, Channel.push_sent, hdown, if_true, List.map_append,
          List.map_singleton, List.append_assoc, List.cons_append]
      · simpa only [updateAt_of_ne_left _ _ hj, if_neg hj] using hat.answered.down j
    · simpa using hat.replied

theorem sendAll_triple (rest sent : List Bytes) (hm : (X.snaps k).messages = sent ++ rest) :
    (outline X).Triple .main (fun w => Flags false false joinable calls w ∧
        Serving X calls b i queryCmd (.process k) 2
          (⟨.quit, intBytes 0⟩ :: sent.map (fun m => ⟨.data, m⟩)) w)
      (ConnectionManager.sendAll i 0 rest)
      (fun _ w => Flags false false joinable calls w ∧
        Serving X calls b i queryCmd (.process k) (ask queryCmd).length
          (answer X.snaps (queryCmd, .process k)) w) := by
  induction rest generalizing sent with
  | nil =>
      refine Triple.ret (fun w _ h => ?_)
      have hanswer : answer X.snaps (queryCmd, .process k) =
          ⟨.quit, intBytes 0⟩ :: sent.map (fun m => ⟨.data, m⟩) := by
        simp [answer, Taker.reply, hm]
      rw [hanswer]
      exact h
  | cons m rest ih =>
      refine Triple.bind (sendData_triple hm) (fun _ => ih (sent ++ [m]) ?_)
      rw [hm, List.append_assoc, List.singleton_append]

theorem handleQuery_triple {cm : ConnectionManager ℕ} (hcm : cm.intercomm = some i) :
    (outline X).Triple .main (fun w => Flags false false joinable calls w ∧
        Serving X calls b i queryCmd (.process k) 1 [⟨.quit, intBytes 0⟩] w)
      (ConnectionManager.handleQuery (X.snaps k).sends cm)
      (fun _ w => Flags false false joinable calls w ∧
        Serving X calls b i queryCmd (.process k) (ask queryCmd).length
          (answer X.snaps (queryCmd, .process k)) w) := by
  obtain ⟨intercomm, clientPort, clientCommand, newQuery⟩ := cm
  obtain rfl : intercomm = some i := hcm
  rw [Snapshot.sends_eq]
  simp only [ConnectionManager.handleQuery]
  refine Triple.bind probeAny_triple (fun c => Triple.pure (fun hc => ?_))
  rw [hc]
  refine Triple.bind recvPing_triple (fun _ => Triple.pure (fun _ => ?_))
  exact sendAll_triple (X.snaps k).messages [] rfl

end Query

/-! ## The end of a session -/

/-- The listener thread has ended, or is about to, and is started anew. -/
theorem restartListener_triple {calls' : List Branch} :
    (outline X).Triple .main (fun w => Flags false false true calls w ∧
        Closed X calls' b w ∧ w.published = w.spawned)
      ConnectionManager.restartListener
      (fun _ w => Flags false false true calls w ∧ Closed X calls' b w ∧
        w.published < w.spawned) := by
  have hstable : ∀ joinable, (outline X).Stable .main (fun w => Flags false false joinable calls w ∧
      Closed X calls' b w ∧ w.published = w.spawned) := by
    rintro joinable w w' ⟨hflags, hclosed, heq⟩ hrely -
    refine ⟨hflags.stable hrely, hclosed.stable hrely, ?_⟩
    rw [hrely.published hclosed.holder, hrely.spawned]
    exact heq
  have hjoinable : (outline X).Triple .main (fun w => Flags false false true calls w ∧
        Closed X calls' b w ∧ w.published = w.spawned) SimOp.threadJoinable
      (fun r w => r = true ∧ Flags false false true calls w ∧ Closed X calls' b w ∧
        w.published = w.spawned) := by
    refine main_op (hstable true) (fun _ _ _ => trivial) ?_
    rintro w r w' hinv hat ⟨rfl, rfl⟩
    exact ⟨hinv, hat.1.joinable, hat⟩
  have hjoin : (outline X).Triple .main (fun w => Flags false false true calls w ∧
        Closed X calls' b w ∧ w.published = w.spawned) SimOp.joinThread
      (fun _ w => (Flags false false false calls w ∧ Closed X calls' b w ∧
        w.published = w.spawned) ∧ w.ended = w.spawned) := by
    refine main_op (hstable true) (fun w _ h => .inr h.2.2) ?_
    rintro w r w' hinv ⟨hflags, hclosed, heq⟩ ⟨hended, rfl⟩
    refine ⟨{ hinv with quiet := fun _ hne => absurd hclosed.holder hne },
      ⟨{ hflags with joinable := rfl }, ?_, heq⟩, hended⟩
    exact { hclosed with
      settled := { hclosed.settled with answered := { hclosed.settled.answered with } } }
  have hspawn : (outline X).Triple .main (fun w => (Flags false false false calls w ∧
        Closed X calls' b w ∧ w.published = w.spawned) ∧ w.ended = w.spawned) SimOp.spawnThread
      (fun _ w => Flags false false true calls w ∧ Closed X calls' b w ∧
        w.published < w.spawned) := by
    refine main_op ?_ (fun w _ h => h.1.1.joinable) ?_
    · rintro w w' ⟨hat, hended⟩ hrely hinv'
      refine ⟨hstable false w w' hat hrely hinv', ?_⟩
      refine le_antisymm (hinv'.ended_le.trans hinv'.started_le) ?_
      rw [hrely.spawned, ← hended]
      exact hrely.ended
    · rintro w r w' hinv ⟨⟨hflags, hclosed, heq⟩, hended⟩ rfl
      refine ⟨hinv.spawnThread hended hflags.destroying hclosed.holder,
        { hflags with joinable := rfl }, ?_, Nat.lt_succ_of_le heq.le⟩
      exact { hclosed with
        settled := { hclosed.settled with answered := { hclosed.settled.answered with } } }
  refine Triple.bind hjoinable (fun r => Triple.pure (fun hr => ?_))
  rw [hr, if_pos rfl]
  exact Triple.bind hjoin (fun _ => hspawn)

/-- A client that has disconnected. -/
theorem Serving.closed {w : World}
    (h : Serving X calls b i disconnectCmd (.process calls.length) 1 [⟨.quit, intBytes 0⟩] w) :
    Closed X (calls ++ [.disconnect]) (b + 1) w where
  holder := h.holder
  settled := by
    have hanswer : answer X.snaps (disconnectCmd, .process calls.length) =
        [⟨.quit, intBytes 0⟩] := answer_of_ne _ (.inl (by decide))
    rw [← hanswer] at h
    exact Serving.settled h (executed_branch calls rfl)
  issued := h.last (.inl rfl)
  closed := openClient_disconnect h.issue (h.last (.inl rfl))

theorem disconnectClient_triple {clientPort : StdString} {clientCommand : Int32} {newQuery : Bool} :
    (outline X).Triple .main (fun w => Flags false false true calls w ∧
        Serving X calls b i disconnectCmd (.process calls.length) 1 [⟨.quit, intBytes 0⟩] w)
      (ConnectionManager.disconnectClient 0 ⟨some i, clientPort, clientCommand, newQuery⟩)
      (fun cm w => cm = ⟨none, clientPort, clientCommand, newQuery⟩ ∧
        Flags false false true calls w ∧ Closed X (calls ++ [.disconnect]) (b + 1) w ∧
        w.published < w.spawned) := by
  simp only [ConnectionManager.disconnectClient, ConnectionManager.release, if_true]
  refine Triple.bind (close_triple serving_stable) (fun _ => ?_)
  refine Triple.bind (Triple.conseq restartListener_triple
    (fun w _ h => ⟨h.1, h.2.closed, h.2.listener⟩) (fun _ _ _ h => h)) (fun _ => ?_)
  exact Triple.ret (fun w _ h => ⟨rfl, h⟩)

/-! ## `process()` -/

/-- The end of a call: the mutex is released, and every command that was taken has been answered. -/
def Ended (X : Setup) (calls : List Branch) (w : World) : Prop :=
  w.holder ≠ some .main ∧ Flags false false true calls w ∧ ∃ b, Settled X calls b w

theorem unlock_closed {cm : ConnectionManager ℕ} {branch : Branch}
    (hcm : cm.intercomm = none ∧ cm.newQuery = false ∧ cm.clientCommand ≠ connectCmd) :
    (outline X).Triple .main (fun w => Flags false false true calls w ∧
        Closed X (calls ++ [branch]) b w ∧ w.published < w.spawned)
      (SimOp.unlockMutex cm) (fun _ => Ended X (calls ++ [branch])) := by
  refine main_op closed_stable
    (fun w _ h => ⟨h.2.1.holder, h.2.1.settled.takes.trans h.2.1.settled.replied.symm⟩) ?_
  rintro w r w' hinv ⟨hflags, hclosed, hlt⟩ rfl
  refine ⟨hinv.letGo cm (fun _ => ?_), by simp, ?_, b, ?_⟩
  · exact .closed hcm.1 hcm.2.1 hcm.2.2 (hclosed.issued.trans hclosed.settled.replied.symm)
      hclosed.closed hlt
  · exact { hflags with calls := by simp [hflags.calls] }
  · exact { hclosed.settled with answered := { hclosed.settled.answered with } }

theorem unlock_connected {cm : ConnectionManager ℕ} {branch : Branch}
    (hcm : cm.intercomm = some i ∧ cm.newQuery = false) :
    (outline X).Triple .main (fun w => Flags false false true calls w ∧
        Connected X (calls ++ [branch]) b i w)
      (SimOp.unlockMutex cm) (fun _ => Ended X (calls ++ [branch])) := by
  refine main_op connected_stable
    (fun w _ h => ⟨h.2.holder, h.2.settled.takes.trans h.2.settled.replied.symm⟩) ?_
  rintro w r w' hinv ⟨hflags, hat⟩ rfl
  refine ⟨hinv.letGo cm (fun _ => ?_), by simp, ?_, b, ?_⟩
  · exact .connected i hcm.1 hcm.2 (hat.settled.takes.trans hat.settled.replied.symm)
      (hat.settled.replied.symm ▸ hat.client) hat.listener
  · exact { hflags with calls := by simp [hflags.calls] }
  · exact { hat.settled with answered := { hat.settled.answered with } }

/-- A client whose command has been answered stays connected, unless it has disconnected. -/
theorem Serving.connected {branch : Branch} {cmd : Int32} {w : World}
    (h : Serving X calls b i cmd (.process calls.length) (ask cmd).length
      (answer X.snaps (cmd, .process calls.length)) w)
    (hbranch : executedBy branch = some cmd) (hcmd : cmd ≠ disconnectCmd) :
    Connected X (calls ++ [branch]) (b + 1) i w where
  holder := h.holder
  settled := h.settled (executed_branch calls hbranch)
  client := by
    obtain ⟨hlt, hget⟩ := List.getElem?_eq_some_iff.1 h.issue
    rw [List.take_succ_eq_append_getElem hlt, hget, openClient_concat, if_neg hcmd]
  listener := h.listener

/-- What is left of a call when the mutex has been taken. -/
def processLocked (state : Except Fault (List Bytes)) (cm : ConnectionManager ℕ) :
    SimProg ℕ Branch :=
  ConnectionManager.poll 0 cm >>= fun p =>
    SimOp.mpiBcast (intBytes p.1) >>= fun haveQuery =>
      if intOfBytes haveQuery = 0 then
        SimOp.unlockMutex p.2 >>= fun _ => pure .idle
      else
        SimOp.mpiBcast (intBytes p.2.clientCommand) >>= fun clientCommand =>
          ConnectionManager.runCommand 0 state
            { p.2 with clientCommand := intOfBytes clientCommand } >>= fun q =>
              SimOp.unlockMutex q.2 >>= fun _ => pure q.1
theorem process_eq (state : Except Fault (List Bytes)) :
    ConnectionManager.process 0 state = SimOp.lockMutex >>= processLocked state := rfl

/-- A call that finds no client. -/
theorem process_closed {cm : ConnectionManager ℕ}
    (hcm : cm.intercomm = none ∧ cm.newQuery = false ∧ cm.clientCommand ≠ connectCmd) :
    (outline X).Triple .main (fun w => Flags false false true calls w ∧ Closed X calls b w ∧
        w.published < w.spawned)
      (processLocked (X.snaps calls.length).sends cm)
      (fun branch w => (∀ e, branch ≠ .threw e) ∧ Ended X (calls ++ [branch]) w) := by
  have hpoll : ConnectionManager.poll 0 cm = pure (0, cm) := by
    simp only [ConnectionManager.poll, hcm.1, hcm.2.1]
  rw [processLocked, hpoll]
  simp only [pure_eq, ret_bind]
  refine Triple.bind (bcast_triple closed_stable) (fun r => Triple.pure (fun hr => ?_))
  rw [hr, intOfBytes_intBytes, if_pos rfl]
  have hunlock : (outline X).Triple .main (fun w => Flags false false true calls w ∧
      Closed X calls b w ∧ w.published < w.spawned) (SimOp.unlockMutex cm)
      (fun _ => Ended X (calls ++ [.idle])) := by
    refine Triple.conseq (unlock_closed (b := b) hcm) (fun w _ h => ?_) (fun _ _ _ h => h)
    exact ⟨h.1, { h.2.1 with settled := h.2.1.settled.idle }, h.2.2⟩
  exact Triple.bind hunlock (fun _ => Triple.ret (fun w _ h => ⟨by simp, h⟩))

/-- A call that finds a client that has asked to connect. -/
theorem process_offered {cm : ConnectionManager ℕ}
    (hcm : cm.intercomm = none ∧ cm.newQuery = true ∧ cm.clientCommand = connectCmd ∧
      cm.clientPort = X.port i) :
    (outline X).Triple .main (fun w => (Flags false false true calls w ∧
        Serving X calls b i connectCmd (.process calls.length) 0 [] w) ∧ w.linked i = false)
      (processLocked (X.snaps calls.length).sends cm)
      (fun branch w => (∀ e, branch ≠ .threw e) ∧ Ended X (calls ++ [branch]) w) := by
  obtain ⟨intercomm, clientPort, clientCommand, newQuery⟩ := cm
  obtain ⟨rfl, rfl, rfl, rfl⟩ := hcm
  have hstable : (outline X).Stable .main (fun w => (Flags false false true calls w ∧
      Serving X calls b i connectCmd (.process calls.length) 0 [] w) ∧ w.linked i = false) := by
    rintro w w' ⟨hat, hlinked⟩ hrely hinv'
    refine ⟨serving_stable w w' hat hrely hinv', ?_⟩
    rw [hrely.linked]
    exact hlinked
  have hone : ¬ intOfBytes (intBytes 1) = 0 := by
    rw [intOfBytes_intBytes]
    decide
  have hanswer : answer X.snaps (connectCmd, .process calls.length) = [⟨.quit, intBytes 0⟩] :=
    answer_of_ne _ (.inl (by decide))
  simp only [processLocked, ConnectionManager.poll, pure_eq, ret_bind]
  refine Triple.bind (bcast_triple hstable) (fun r => Triple.pure (fun hr => ?_))
  rw [hr, if_neg hone]
  refine Triple.bind (bcast_triple hstable) (fun r' => Triple.pure (fun hr' => ?_))
  rw [hr', intOfBytes_intBytes]
  simp only [ConnectionManager.runCommand, if_true, Prog.bind_assoc]
  refine Triple.bind connectClient_triple (fun p => Triple.pure (fun hp => ?_))
  rw [hp]
  simp only [Prog.bind_assoc, pure_eq, ret_bind]
  refine Triple.bind sendQuit_triple (fun _ => ?_)
  have hunlock : (outline X).Triple .main (fun w => Flags false false true calls w ∧
      Serving X calls b i connectCmd (.process calls.length) 0 [⟨.quit, intBytes 0⟩] w)
      (SimOp.unlockMutex (ConnectionManager.done ⟨some i, X.port i, connectCmd, true⟩))
      (fun _ => Ended X (calls ++ [.connect])) := by
    refine Triple.conseq (unlock_connected (b := b + 1) ⟨rfl, rfl⟩) (fun w _ h => ⟨h.1, ?_⟩)
      (fun _ _ _ h => h)
    refine Serving.connected ?_ rfl (by decide)
    rw [hanswer]
    exact h.2
  exact Triple.bind hunlock (fun _ => Triple.ret (fun w _ h => ⟨by simp, h⟩))

/-- A call that finds a connected client. -/
theorem process_connected {cm : ConnectionManager ℕ}
    (hcm : cm.intercomm = some i ∧ cm.newQuery = false) :
    (outline X).Triple .main (fun w => Flags false false true calls w ∧ Connected X calls b i w)
      (processLocked (X.snaps calls.length).sends cm)
      (fun branch w => (∀ e, branch ≠ .threw e) ∧ Ended X (calls ++ [branch]) w) := by
  obtain ⟨intercomm, clientPort, clientCommand, newQuery⟩ := cm
  obtain ⟨rfl, rfl⟩ := hcm
  have hone : ¬ intOfBytes (intBytes 1) = 0 := by
    rw [intOfBytes_intBytes]
    decide
  have hprobe : (outline X).Triple .main (fun w => Flags false false true calls w ∧
      Connected X calls b i w) (SimOp.probeRank i 0)
      (fun _ w => Flags false false true calls w ∧ Connected X calls b i w) := by
    refine main_op connected_stable (fun _ _ _ => trivial) ?_
    rintro w r w' hinv hat ⟨-, rfl⟩
    exact ⟨hinv, hat⟩
  simp only [processLocked, ConnectionManager.poll, if_true, Prog.bind_assoc]
  refine Triple.bind hprobe (fun ready => ?_)
  cases ready with
  | false =>
      simp only [Bool.false_eq_true, if_false, pure_eq, ret_bind]
      refine Triple.bind (bcast_triple connected_stable) (fun r => Triple.pure (fun hr => ?_))
      rw [hr, intOfBytes_intBytes, if_pos rfl]
      have hunlock : (outline X).Triple .main (fun w => Flags false false true calls w ∧
          Connected X calls b i w)
          (SimOp.unlockMutex ⟨some i, clientPort, clientCommand, false⟩)
          (fun _ => Ended X (calls ++ [.idle])) := by
        refine Triple.conseq (unlock_connected (b := b) ⟨rfl, rfl⟩) (fun w _ h => ⟨h.1, ?_⟩)
          (fun _ _ _ h => h)
        exact { h.2 with settled := h.2.settled.idle }
      exact Triple.bind hunlock (fun _ => Triple.ret (fun w _ h => ⟨by simp, h⟩))
  | true =>
      simp only [if_true, Prog.bind_assoc, pure_eq, ret_bind]
      refine Triple.bind takeCommand_triple (fun r => Triple.exists (fun cmd => Triple.pure ?_))
      rintro ⟨hr, hcmd⟩
      refine Triple.bind sendQuit_triple (fun _ => ?_)
      refine Triple.bind (bcast_triple serving_stable) (fun r' => Triple.pure (fun hr' => ?_))
      rw [hr', if_neg hone, hr, intOfBytes_intBytes]
      refine Triple.bind (bcast_triple serving_stable) (fun r'' => Triple.pure (fun hr'' => ?_))
      rw [hr'', intOfBytes_intBytes]
      -- a client that is connected does not ask to connect
      have hconnect : cmd ≠ Command.connect.toInt32 := by
        rcases hcmd with rfl | rfl <;> decide
      simp only [ConnectionManager.runCommand, if_neg hconnect]
      rcases hcmd with rfl | rfl
      · simp only [if_true, Prog.bind_assoc, pure_eq, ret_bind]
        refine Triple.bind (handleQuery_triple rfl) (fun _ => ?_)
        have hunlock : (outline X).Triple .main (fun w => Flags false false true calls w ∧
            Serving X calls b i queryCmd (.process calls.length) (ask queryCmd).length
              (answer X.snaps (queryCmd, .process calls.length)) w)
            (SimOp.unlockMutex (ConnectionManager.done ⟨some i, clientPort, queryCmd, false⟩))
            (fun _ => Ended X (calls ++ [.query])) :=
          Triple.conseq (unlock_connected ⟨rfl, rfl⟩)
            (fun w _ h => ⟨h.1, h.2.connected rfl (by decide)⟩) (fun _ _ _ h => h)
        exact Triple.bind hunlock (fun _ => Triple.ret (fun w _ h => ⟨by simp, h⟩))
      · have hquery : disconnectCmd ≠ Command.query.toInt32 := by decide
        simp only [if_neg hquery, if_true, Prog.bind_assoc, pure_eq, ret_bind]
        refine Triple.bind disconnectClient_triple (fun cm => Triple.pure (fun hcm => ?_))
        rw [hcm]
        have hcommand : (-1 : Int32) ≠ connectCmd := by decide
        exact Triple.bind (unlock_closed ⟨rfl, rfl, hcommand⟩)
          (fun _ => Triple.ret (fun w _ h => ⟨by simp, h⟩))

/-- A call of `process()` does not throw, and adds itself to the history. -/
theorem process_triple :
    (outline X).Triple .main (fun w => w.holder ≠ some .main ∧ Flags false false true calls w ∧
        Settled X calls b w)
      (ConnectionManager.process 0 (X.snaps calls.length).sends)
      (fun branch w => (∀ e, branch ≠ .threw e) ∧ Ended X (calls ++ [branch]) w) := by
  rw [process_eq]
  have hlock : (outline X).Triple .main (fun w => w.holder ≠ some .main ∧
      Flags false false true calls w ∧ Settled X calls b w) SimOp.lockMutex _ :=
    Triple.conseq lock_triple
      (fun w _ h => ⟨h.2.1, h.1, fun hexit => absurd hexit (by simp), h.2.2⟩) (fun _ _ _ h => h)
  refine Triple.bind hlock (fun cm => ?_)
  refine Triple.conseq
    (Triple.or (Triple.pure (process_closed (b := b)))
      (Triple.or (Triple.exists (fun i => Triple.pure (process_offered (b := b) (i := i))))
        (Triple.exists (fun i => Triple.pure (process_connected (b := b) (i := i))))))
    (fun w _ h => ?_) (fun _ _ _ h => h)
  rcases h with ⟨hflags, ⟨hcm, hclosed⟩ | ⟨i, hcm, hat, hlinked⟩ | ⟨i, hcm, hat⟩⟩
  · exact .inl ⟨hcm, hflags, hclosed⟩
  · exact .inr (.inl ⟨i, hcm, ⟨hflags, hat⟩, hlinked⟩)
  · exact .inr (.inr ⟨i, hcm, hflags, hat⟩)

/-! ## The destructor -/

theorem Closed.finalized {w : World} (h : Closed X calls b w) (hdestroying : w.destroying = true) :
    Finalized calls w where
  destroying := hdestroying
  noMore := .inl h.closed
  replied := h.issued.trans h.settled.replied.symm
  served := by
    have hserved := h.settled.answered.served
    rw [List.take_of_length_le h.settled.takes.le] at hserved
    exact ⟨[], by rw [hserved, List.append_nil], by simp⟩

theorem Serving.finalized {cmd : Int32} {a : ℕ} {w : World}
    (h : Serving X calls b i cmd .destructor a [⟨.quit, intBytes 1⟩] w) : Finalized calls w where
  destroying := h.finalizing rfl
  noMore := .inr (List.mem_of_getElem? h.taker)
  replied := by
    rw [h.last (.inr rfl), h.replied]
    rfl
  served := by
    obtain ⟨hlt, hget⟩ := List.getElem?_eq_some_iff.1 h.taker
    have hlen : (w.takes.take b).length = b := List.length_take_of_le hlt.le
    have htakes : w.takes = w.takes.take b ++ [.destructor] := by
      rw [← hget, ← List.take_succ_eq_append_getElem hlt, ← h.takes, List.take_length]
    have hissue : w.issued[(w.takes.take b).length]? = some ⟨i, cmd⟩ := hlen.symm ▸ h.issue
    refine ⟨[(.destructor, cmd)], ?_, by simp⟩
    rw [htakes, zip_concat _ hissue, List.map_append, h.answered.served]
    rfl

/-- The main thread has released the mutex for the last time. -/
theorem finalized_stable :
    (outline X).Stable .main (fun w => w.holder ≠ some .main ∧ Finalized calls w) :=
  fun _ _ h hrely _ => ⟨fun hw => h.1 (hrely.holder.1 hw), h.2.stable hrely⟩

theorem unlock_finalized {cm : ConnectionManager ℕ} {pre : World → Prop}
    (hstable : (outline X).Stable .main pre)
    (hpre : ∀ w, pre w → w.holder = some .main ∧ w.takes.length = w.replied.length ∧
      Finalized calls w) :
    (outline X).Triple .main pre (SimOp.unlockMutex cm)
      (fun _ w => w.holder ≠ some .main ∧ Finalized calls w) := by
  refine main_op hstable (fun w _ h => ⟨(hpre w h).1, (hpre w h).2.1⟩) ?_
  rintro w r w' hinv h rfl
  obtain ⟨-, -, hfinal⟩ := hpre w h
  refine ⟨hinv.letGo cm (fun hdestroying => ?_), by simp, { hfinal with }⟩
  rw [hfinal.destroying] at hdestroying
  exact absurd hdestroying (by simp)

theorem sayGoodbye_triple {joinable : Bool} {cmd : Int32} {a : ℕ} {cm : ConnectionManager ℕ}
    (hcm : cm.intercomm = some i) :
    (outline X).Triple .main (fun w => Flags true true joinable calls w ∧
        Serving X calls b i cmd .destructor a [] w)
      (ConnectionManager.sayGoodbye 0 cm)
      (fun _ w => w.holder ≠ some .main ∧ Finalized calls w) := by
  simp only [ConnectionManager.sayGoodbye, hcm, if_true]
  refine Triple.bind sendQuit_triple (fun _ => ?_)
  refine Triple.bind (unlock_finalized serving_stable (fun w h => ?_))
    (fun _ => close_triple finalized_stable)
  exact ⟨h.2.holder, h.2.takes.trans h.2.replied.symm, h.2.finalized⟩

/-- What is left of the destructor when the mutex has been taken. -/
def destructorLocked (cm : ConnectionManager ℕ) : SimProg ℕ (Except Fault Unit) :=
  ConnectionManager.awaitCommand 0 cm >>= fun cm =>
    SimOp.mpiBcast (intBytes cm.clientCommand) >>= fun clientCommand =>
      if intOfBytes clientCommand = Command.connect.toInt32 then
        ConnectionManager.connectClient 0 { cm with clientCommand := intOfBytes clientCommand } >>=
          fun p =>
            match p.1 with
            | .error e => pure (.error e)
            | .ok _ => ConnectionManager.sayGoodbye 0 p.2 >>= fun _ => pure (.ok ())
      else
        ConnectionManager.sayGoodbye 0 { cm with clientCommand := intOfBytes clientCommand } >>=
          fun _ => pure (.ok ())

theorem destructor_eq :
    ConnectionManager.destructor 0 =
      ConnectionManager.stopListener >>= fun _ => SimOp.lockMutex >>= destructorLocked := rfl

theorem destructor_closed {cm : ConnectionManager ℕ}
    (hcm : cm.intercomm = none ∧ cm.newQuery = false ∧ cm.clientCommand ≠ connectCmd) :
    (outline X).Triple .main (fun w => Flags true true false calls w ∧ Closed X calls b w ∧
        w.published < w.spawned)
      (destructorLocked cm)
      (fun r w => r = .ok () ∧ w.holder ≠ some .main ∧ Finalized calls w) := by
  obtain ⟨intercomm, clientPort, clientCommand, newQuery⟩ := cm
  obtain ⟨rfl, rfl, hcommand⟩ := hcm
  simp only [destructorLocked, ConnectionManager.awaitCommand, pure_eq, ret_bind]
  refine Triple.bind (bcast_triple closed_stable) (fun r => Triple.pure (fun hr => ?_))
  rw [hr, intOfBytes_intBytes, if_neg hcommand]
  simp only [ConnectionManager.sayGoodbye]
  refine Triple.bind (unlock_finalized closed_stable (fun w h => ?_))
    (fun _ => Triple.ret (fun _ _ h => ⟨rfl, h⟩))
  obtain ⟨hflags, hclosed, -⟩ := h
  exact ⟨hclosed.holder, hclosed.settled.takes.trans hclosed.settled.replied.symm,
    hclosed.finalized hflags.destroying⟩

theorem destructor_offered {cm : ConnectionManager ℕ}
    (hcm : cm.intercomm = none ∧ cm.newQuery = true ∧ cm.clientCommand = connectCmd ∧
      cm.clientPort = X.port i) :
    (outline X).Triple .main (fun w => (Flags true true false calls w ∧
        Serving X calls b i connectCmd .destructor 0 [] w) ∧ w.linked i = false)
      (destructorLocked cm)
      (fun r w => r = .ok () ∧ w.holder ≠ some .main ∧ Finalized calls w) := by
  obtain ⟨intercomm, clientPort, clientCommand, newQuery⟩ := cm
  obtain ⟨rfl, rfl, rfl, rfl⟩ := hcm
  have hstable : (outline X).Stable .main (fun w => (Flags true true false calls w ∧
      Serving X calls b i connectCmd .destructor 0 [] w) ∧ w.linked i = false) := by
    rintro w w' ⟨hat, hlinked⟩ hrely hinv'
    refine ⟨serving_stable w w' hat hrely hinv', ?_⟩
    rw [hrely.linked]
    exact hlinked
  simp only [destructorLocked, ConnectionManager.awaitCommand, pure_eq, ret_bind]
  refine Triple.bind (bcast_triple hstable) (fun r => Triple.pure (fun hr => ?_))
  rw [hr, intOfBytes_intBytes, if_pos rfl]
  refine Triple.bind connectClient_triple (fun p => Triple.pure (fun hp => ?_))
  rw [hp]
  exact Triple.bind (sayGoodbye_triple rfl) (fun _ => Triple.ret (fun _ _ h => ⟨rfl, h⟩))

theorem destructor_connected {cm : ConnectionManager ℕ}
    (hcm : cm.intercomm = some i ∧ cm.newQuery = false) :
    (outline X).Triple .main (fun w => Flags true true false calls w ∧ Connected X calls b i w)
      (destructorLocked cm)
      (fun r w => r = .ok () ∧ w.holder ≠ some .main ∧ Finalized calls w) := by
  obtain ⟨intercomm, clientPort, clientCommand, newQuery⟩ := cm
  obtain ⟨rfl, rfl⟩ := hcm
  simp only [destructorLocked, ConnectionManager.awaitCommand, if_true, Prog.bind_assoc, pure_eq,
    ret_bind]
  refine Triple.bind takeCommand_triple (fun r => Triple.exists (fun cmd => Triple.pure ?_))
  rintro ⟨hr, hcmd⟩
  refine Triple.bind (bcast_triple serving_stable) (fun r' => Triple.pure (fun hr' => ?_))
  have hconnect : cmd ≠ Command.connect.toInt32 := by
    rcases hcmd with rfl | rfl <;> decide
  rw [hr', hr, intOfBytes_intBytes, intOfBytes_intBytes, if_neg hconnect]
  exact Triple.bind (sayGoodbye_triple rfl) (fun _ => Triple.ret (fun _ _ h => ⟨rfl, h⟩))

theorem stopListener_triple :
    (outline X).Triple .main (fun w => w.holder ≠ some .main ∧ Flags false false true calls w ∧
        Settled X calls b w)
      ConnectionManager.stopListener
      (fun _ w => Flags true false false calls w ∧ w.holder ≠ some .main ∧
        (true = true → w.ended = w.spawned) ∧ Settled X calls b w) := by
  have hstable : ∀ exit joinable, (outline X).Stable .main (fun w => w.holder ≠ some .main ∧
      Flags exit false joinable calls w ∧ Settled X calls b w) :=
    fun _ _ _ _ h hrely _ => ⟨fun hw => h.1 (hrely.holder.1 hw), h.2.1.stable hrely,
      h.2.2.stable hrely⟩
  have hjoinable : (outline X).Triple .main (fun w => w.holder ≠ some .main ∧
        Flags false false true calls w ∧ Settled X calls b w) SimOp.threadJoinable
      (fun r w => r = true ∧ w.holder ≠ some .main ∧ Flags false false true calls w ∧
        Settled X calls b w) := by
    refine main_op (hstable false true) (fun _ _ _ => trivial) ?_
    rintro w r w' hinv hat ⟨rfl, rfl⟩
    exact ⟨hinv, hat.2.1.joinable, hat⟩
  have hstop : (outline X).Triple .main (fun w => w.holder ≠ some .main ∧
        Flags false false true calls w ∧ Settled X calls b w) SimOp.stopThread
      (fun _ w => w.holder ≠ some .main ∧ Flags true false true calls w ∧ Settled X calls b w) := by
    refine main_op (hstable false true) (fun _ _ _ => trivial) ?_
    rintro w r w' hinv ⟨hholder, hflags, hsettled⟩ rfl
    exact ⟨hinv.stop, hholder, { hflags with exitThread := rfl },
      { hsettled with answered := { hsettled.answered with } }⟩
  have hjoin : (outline X).Triple .main (fun w => w.holder ≠ some .main ∧
        Flags true false true calls w ∧ Settled X calls b w) SimOp.joinThread
      (fun _ w => Flags true false false calls w ∧ w.holder ≠ some .main ∧
        (true = true → w.ended = w.spawned) ∧ Settled X calls b w) := by
    refine main_op (hstable true true) (fun w _ h => .inl h.2.1.exitThread) ?_
    rintro w r w' hinv ⟨hholder, hflags, hsettled⟩ ⟨hended, rfl⟩
    refine ⟨{ hinv with quiet := fun hdestroying hne => ?_ }, { hflags with joinable := rfl },
      hholder, fun _ => hended, { hsettled with answered := { hsettled.answered with } }⟩
    exact (hinv.quiet hdestroying hne).congr rfl rfl rfl rfl rfl rfl rfl
  refine Triple.bind hjoinable (fun r => Triple.pure (fun hr => ?_))
  rw [hr, if_pos rfl]
  exact Triple.bind hstop (fun _ => hjoin)

/-- The destructor leaves no command that has not been answered. -/
theorem destructor_triple :
    (outline X).Triple .main (fun w => w.holder ≠ some .main ∧ Flags false false true calls w ∧
        Settled X calls b w)
      (ConnectionManager.destructor 0)
      (fun r w => r = .ok () ∧ w.holder ≠ some .main ∧ Finalized calls w) := by
  rw [destructor_eq]
  refine Triple.bind stopListener_triple (fun _ => Triple.bind lock_triple (fun cm => ?_))
  refine Triple.conseq
    (Triple.or (Triple.pure (destructor_closed (b := b)))
      (Triple.or (Triple.exists (fun i => Triple.pure (destructor_offered (b := b) (i := i))))
        (Triple.exists (fun i => Triple.pure (destructor_connected (b := b) (i := i))))))
    (fun w _ h => ?_) (fun _ _ _ h => h)
  rcases h with ⟨hflags, ⟨hcm, hclosed⟩ | ⟨i, hcm, hat, hlinked⟩ | ⟨i, hcm, hat⟩⟩
  · exact .inl ⟨hcm, hflags, hclosed⟩
  · exact .inr (.inl ⟨i, hcm, ⟨hflags, hat⟩, hlinked⟩)
  · exact .inr (.inr ⟨i, hcm, hflags, hat⟩)

theorem mainCode_triple (l : MainLabel) :
    (outline X).Triple .main (mainPost X l) (mainCode X l) (mainPost X) := by
  cases l with
  | running calls =>
      have hrun : (outline X).Triple .main (fun w => NoThrow calls ∧ ∃ b, w.holder ≠ some .main ∧
          Flags false false true calls w ∧ Settled X calls b w) (mainCode X (.running calls))
          (mainPost X) := by
        refine Triple.pure (fun hcalls => Triple.exists (fun b => ?_))
        simp only [mainCode]
        split
        · exact Triple.bind destructor_triple
            (fun _ => Triple.ret (fun w _ h => ⟨⟨hcalls, h.1⟩, h.2⟩))
        · refine Triple.bind process_triple (fun branch => Triple.ret (fun w _ h => ⟨?_, h.2⟩))
          intro b' hb' e
          rcases List.mem_append.1 hb' with hb' | hb'
          · exact hcalls b' hb' e
          · rw [List.mem_singleton.1 hb']
            exact h.1 e
      refine Triple.conseq hrun (fun w _ h => ?_) (fun _ _ _ h => h)
      obtain ⟨hcalls, hholder, hflags, b, hsettled⟩ := h
      exact ⟨hcalls, b, hholder, hflags, hsettled⟩
  | finalized calls result => exact Triple.ret (fun _ _ h => h)

end Session

end LibIS
