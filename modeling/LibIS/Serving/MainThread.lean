import LibIS.Serving.Outline
import LibIS.Sim.Agreement

set_option autoImplicit false

/-! # Serving the listening socket: the main thread

A call of `process()` leaves a manager that is consistent with the listener thread, whether it
returns or throws (`process_triple`), and answers what it takes. The destructor answers what has
been published (`destructor_triple`). -/

open ByteCodec Prog ThreadSystem Proof

namespace LibIS

namespace Serving

variable {X : Setup} {q t : Prop} {w w' : World} {cm cm' : ConnectionManager ℕ}

/-! ## What the main thread holds -/

/-- A call of `process()` has the mutex, and has found `cm`. -/
structure Holding (cm : ConnectionManager ℕ) (w : World) : Prop where
  holder : w.holder = some .main
  manager : w.manager = cm
  exitThread : w.exitThread = false
  destroying : w.destroying = false

/-- What it has found is consistent. -/
def Found (q : Prop) (cm : ConnectionManager ℕ) (w : World) : Prop :=
  Holding cm w ∧ Consistent q w

/-- It may leave `cm'`: that is consistent with the listener thread, no command is left over under
    `q`, and a CONNECT that it has found has been answered or is still there. -/
structure Leaves (q : Prop) (cm cm' : ConnectionManager ℕ) (w : World) : Prop where
  listening : w.thread.Listening → cm'.intercomm = none ∧ cm'.newQuery = false
  pending : cm'.newQuery = true → cm'.intercomm = none
  serving : cm'.intercomm = none → cm'.newQuery = false → w.thread.Listening
  taken : q → cm'.newQuery = false
  joinable : w.thread ≠ .absent
  answered : ∀ port, Pending cm port → Answered w port ∨ Pending cm' port

section Stable

theorem Answered.stable {port : StdString} (h : Answered w port) (hrely : MainRely w w') :
    Answered w' port := by
  obtain ⟨comm, quit, hdialled, hflags⟩ := h
  exact ⟨comm, quit, hrely.dialled ▸ hdialled, hrely.flags ▸ hflags⟩

theorem Holding.stable (h : Holding cm w) (hrely : MainRely w w') : Holding cm w' where
  holder := hrely.holder.2 h.holder
  manager := (hrely.manager h.holder).trans h.manager
  exitThread := hrely.exitThread.trans h.exitThread
  destroying := hrely.destroying.trans h.destroying

theorem Found.stable (h : Found q cm w) (hrely : MainRely w w') : Found q cm w' := by
  obtain ⟨hholding, hc⟩ := h
  have hmanager := hrely.manager hholding.holder
  have hlistening := hrely.listening hholding.holder hholding.exitThread
  refine ⟨hholding.stable hrely, ?_⟩
  constructor
  · rw [hlistening, hmanager]
    exact hc.listening
  · rw [hmanager]
    exact hc.pending
  · rw [hlistening, hmanager, hrely.exitThread]
    exact hc.serving
  · rw [hmanager, hrely.newer hholding.holder]
    exact hc.newer
  · rw [hrely.exitThread, Ne, hrely.absent]
    exact hc.joinable

theorem Leaves.stable (h : Leaves q cm cm' w) (hholding : Holding cm w) (hrely : MainRely w w') :
    Leaves q cm cm' w' := by
  have hlistening := hrely.listening hholding.holder hholding.exitThread
  constructor
  · rw [hlistening]
    exact h.listening
  · exact h.pending
  · rw [hlistening]
    exact h.serving
  · exact h.taken
  · rw [Ne, hrely.absent]
    exact h.joinable
  · intro port hpending
    exact (h.answered port hpending).imp (fun hanswered => hanswered.stable hrely) id

theorem found_stable : (outline X q t).Stable .main (Found q cm) :=
  fun _ _ h hrely _ => h.stable hrely

theorem leaves_stable :
    (outline X q t).Stable .main (fun w => Holding cm w ∧ Leaves q cm cm' w) :=
  fun _ _ h hrely _ => ⟨h.1.stable hrely, h.2.stable h.1 hrely⟩

theorem between_stable : (outline X q t).Stable .main Between :=
  fun _ _ h hrely _ => ⟨fun hw => h.1 (hrely.holder.1 hw), hrely.exitThread.trans h.2.1,
    hrely.destroying.trans h.2.2⟩

end Stable

/-- A call may leave what it has found, apart from the command of a client that is connected. -/
theorem Found.leaves (h : Found q cm w) (hcomm : cm'.intercomm = cm.intercomm)
    (hquery : cm'.newQuery = cm.newQuery) (htaken : q → cm.newQuery = false)
    (hkept : cm.newQuery = true → cm' = cm) : Leaves q cm cm' w := by
  obtain ⟨hholding, hc⟩ := h
  obtain rfl := hholding.manager
  constructor
  · rw [hcomm, hquery]
    exact hc.listening
  · rw [hcomm, hquery]
    exact hc.pending
  · intro hnone hfalse
    exact hc.serving (hcomm ▸ hnone) (hquery ▸ hfalse) hholding.exitThread
  · rw [hquery]
    exact htaken
  · exact hc.joinable hholding.exitThread
  · intro port hpending
    rw [hkept hpending.1]
    exact .inr hpending

/-! ## Operations -/

/-- An operation that leaves the world as it is. -/
theorem still_triple {o : SimOp ℕ} {pre : World → Prop} (hstable : (outline X q t).Stable .main pre)
    (hready : ∀ w, readyMain q o w)
    (hstill : ∀ w r w', performMain o w r w' → w' = w) :
    (outline X q t).Triple .main pre (Prog.op o) (fun _ => pre) := by
  refine main_op hstable (fun w _ _ => hready w) ?_
  rintro w r w' hinv hpre hperform -
  rw [hstill w r w' hperform]
  exact ⟨hinv, hpre⟩

theorem bcast_triple {pre : World → Prop} {buf : Bytes}
    (hstable : (outline X q t).Stable .main pre) :
    (outline X q t).Triple .main pre (SimOp.mpiBcast buf) (fun r w => r = buf ∧ pre w) := by
  refine main_op hstable (fun _ _ _ => trivial) ?_
  rintro w r w' hinv hpre ⟨hr, rfl⟩ -
  exact ⟨hinv, hr, hpre⟩

theorem send_triple {comm rank : ℕ} {kind : Kind} {data : Bytes} {pre Q : World → Prop}
    (hstable : (outline X q t).Stable .main pre)
    (hsend : ∀ w, pre w → Q { w with
      flags := if kind = .quit then w.flags ++ [(comm, intOfBytes data)] else w.flags }) :
    (outline X q t).Triple .main pre (SimOp.sendTo comm kind data rank) (fun _ => Q) := by
  refine main_op hstable (fun _ _ _ => trivial) ?_
  rintro w r w' hinv hpre rfl -
  refine ⟨{ hinv with
    consistent := fun hholder hdestroying => { hinv.consistent hholder hdestroying with }
    answered := fun p hp port hport => (hinv.answered p hp port hport).imp_left ?_ }, hsend w hpre⟩
  rintro ⟨comm', quit, hdialled, hflag⟩
  refine ⟨comm', quit, hdialled, ?_⟩
  show (comm', quit) ∈ if kind = .quit then w.flags ++ [(comm, intOfBytes data)] else w.flags
  split
  · exact List.mem_append_left _ hflag
  · exact hflag

theorem Found.send (h : Found q cm w) (flags : List (ℕ × Int32)) :
    Found q cm { w with flags := flags } :=
  ⟨{ h.1 with }, { h.2 with }⟩

theorem unlock_triple :
    (outline X q t).Triple .main (fun w => Holding cm w ∧ Leaves q cm cm' w)
      (SimOp.unlockMutex cm') (fun _ => Between) := by
  refine main_op leaves_stable (fun w _ h => h.1.holder) ?_
  rintro w r w' hinv ⟨hholding, hleaves⟩ rfl -
  refine ⟨?_, by simp, hholding.exitThread, hholding.destroying⟩
  exact { hinv with
    consistent := fun _ _ => {
      listening := hleaves.listening
      pending := hleaves.pending
      serving := fun hcomm hquery _ => hleaves.serving hcomm hquery
      newer := fun hq hquery => absurd ((hleaves.taken hq).symm.trans hquery) (by simp)
      joinable := fun _ => hleaves.joinable }
    answered := fun p hp port hport => by
      rcases hinv.answered p hp port hport with hanswered | hpending
      · exact .inl hanswered
      · rw [hholding.manager] at hpending
        exact hleaves.answered port hpending }

/-- A call takes the mutex. Under `q` the frame that it finds can be served. -/
theorem lock_triple :
    (outline X q t).Triple .main Between SimOp.lockMutex
      (fun cm w => (q → cm.newQuery = true → Servable cm.clientCommand) ∧ Found q cm w) := by
  refine main_op between_stable (fun _ _ _ => trivial) ?_
  rintro w r w' hinv ⟨hholder, hexit, hdestroying⟩ ⟨-, rfl, rfl⟩ hcond
  have hc := hinv.consistent hholder hdestroying
  refine ⟨?_, fun hq => hcond hq hexit, ⟨rfl, rfl, hexit, hexit⟩, { hc with }⟩
  exact { hinv with
    consistent := fun hne => absurd rfl hne
    destroying := fun h => absurd (hexit.symm.trans h) (by simp) }

/-! ## A call of `process()` -/

/-- The command that a call takes: the published one, or one of the client that is connected. -/
structure Takes (cm cm' : ConnectionManager ℕ) : Prop where
  intercomm : cm'.intercomm = cm.intercomm
  newQuery : cm'.newQuery = cm.newQuery
  published : cm.newQuery = true → cm' = cm
  connected : cm.newQuery = false → cm.intercomm ≠ none

theorem poll_triple :
    (outline X q t).Triple .main (Found q cm) (ConnectionManager.poll 0 cm)
      (fun x w => ((x = (0, cm) ∧ cm.newQuery = false) ∨ (x.1 = 1 ∧ Takes cm x.2)) ∧
        Found q cm w) := by
  obtain ⟨intercomm, clientPort, clientCommand, newQuery⟩ := cm
  cases newQuery with
  | true =>
      cases intercomm with
      | none =>
          exact Triple.ret (fun w _ h => ⟨.inr ⟨rfl, rfl, rfl, fun _ => rfl, by simp⟩, h⟩)
      | some comm =>
          exact Triple.ret (fun w _ h => ⟨.inr ⟨rfl, rfl, rfl, fun _ => rfl, by simp⟩, h⟩)
  | false =>
      cases intercomm with
      | none => exact Triple.ret (fun w _ h => ⟨.inl ⟨rfl, rfl⟩, h⟩)
      | some comm =>
          simp only [ConnectionManager.poll, if_true]
          have hprobe : (outline X q t).Triple .main
              (Found q ⟨some comm, clientPort, clientCommand, false⟩) (SimOp.probeRank comm 0)
              (fun _ => Found q ⟨some comm, clientPort, clientCommand, false⟩) :=
            still_triple found_stable (fun _ => trivial) (fun _ _ _ h => h)
          refine Triple.bind hprobe (fun ready => ?_)
          cases ready with
          | false => exact Triple.ret (fun w _ h => ⟨.inl ⟨rfl, trivial⟩, h⟩)
          | true =>
              simp only [if_true]
              have hrecv : (outline X q t).Triple .main
                  (Found q ⟨some comm, clientPort, clientCommand, false⟩)
                  (SimOp.recvFrom comm .command 4 0)
                  (fun _ => Found q ⟨some comm, clientPort, clientCommand, false⟩) :=
                still_triple found_stable (fun _ => trivial) (fun _ _ _ h => h)
              have hsend : (outline X q t).Triple .main
                  (Found q ⟨some comm, clientPort, clientCommand, false⟩)
                  (ConnectionManager.sendQuit comm 0)
                  (fun _ => Found q ⟨some comm, clientPort, clientCommand, false⟩) :=
                send_triple found_stable (fun w h => h.send _)
              refine Triple.bind hrecv (fun r => Triple.bind hsend (fun _ => ?_))
              exact Triple.ret (fun w _ h => ⟨.inr ⟨rfl, rfl, rfl, by simp, by simp⟩, h⟩)

/-- The port is connected to unless that fails, which under `q` it does only in the destructor. -/
theorem connectTo_triple {port : StdString} {pre : World → Prop}
    (hstable : (outline X q t).Stable .main pre)
    (hdial : ∀ w, pre w → pre { w with dialled := w.dialled ++ [port] }) :
    (outline X q t).Triple .main pre (SimOp.connectTo port)
      (fun r w => pre w ∧ (∀ e, r = .error e → q → w.exitThread = true) ∧
        ∀ comm, r = .ok comm → w.dialled[comm]? = some port) := by
  refine main_op hstable (fun _ _ _ => trivial) ?_
  rintro w r w' hinv hpre (⟨e, rfl, rfl⟩ | ⟨rfl, rfl⟩) hcond
  · refine ⟨hinv, hpre, fun e' _ hq => ?_, by simp⟩
    by_contra hexit
    obtain ⟨comm, hcomm⟩ := hcond hq (by simpa using hexit)
    exact absurd hcomm (by simp)
  · refine ⟨?_, hdial w hpre, by simp, ?_⟩
    · exact { hinv with
        consistent := fun hholder hdestroying => { hinv.consistent hholder hdestroying with }
        answered := fun p hp port' hport => (hinv.answered p hp port' hport).imp_left (by
          rintro ⟨comm, quit, hdialled, hflag⟩
          obtain ⟨hlt, -⟩ := List.getElem?_eq_some_iff.1 hdialled
          exact ⟨comm, quit, (List.getElem?_append_left hlt).trans hdialled, hflag⟩) }
    · rintro comm hcomm
      rw [← Except.ok.inj hcomm]
      exact List.getElem?_concat_length

/-- `connectClient` without a client: the port is taken from the manager. -/
theorem connectClient_triple {pre : World → Prop} (hstable : (outline X q t).Stable .main pre)
    (hdial : ∀ w, pre w → pre { w with dialled := w.dialled ++ [cm.clientPort] })
    (hnone : cm.intercomm = none) :
    (outline X q t).Triple .main pre (ConnectionManager.connectClient 0 cm)
      (fun x w => pre w ∧ ((∃ e, x = (.error e, cm) ∧ (q → w.exitThread = true)) ∨
        ∃ comm, x = (.ok (), { cm with intercomm := some comm }) ∧
          w.dialled[comm]? = some cm.clientPort)) := by
  obtain ⟨intercomm, clientPort, clientCommand, newQuery⟩ := cm
  obtain rfl : intercomm = none := hnone
  simp only [ConnectionManager.connectClient, ConnectionManager.bcastPort, if_true,
    ConnectionManager.serialize_port, Prog.bind_assoc]
  refine Triple.bind (bcast_triple hstable) (fun _ => Triple.pure (fun _ => ?_))
  refine Triple.bind (bcast_triple hstable) (fun _ => Triple.pure (fun _ => ?_))
  simp only [pure_eq, ret_bind]
  refine Triple.bind (connectTo_triple hstable hdial) (fun r => ?_)
  cases r with
  | error e => exact Triple.ret (fun w _ h => ⟨h.1, .inl ⟨e, rfl, h.2.1 e rfl⟩⟩)
  | ok comm => exact Triple.ret (fun w _ h => ⟨h.1, .inr ⟨comm, rfl, h.2.2 comm rfl⟩⟩)

theorem Found.dial (h : Found q cm w) (ports : List StdString) :
    Found q cm { w with dialled := ports } :=
  ⟨{ h.1 with }, { h.2 with }⟩

/-- A port that has been connected to is answered by the flag. -/
theorem sendQuit_triple {comm : ℕ} {port : StdString} {quit : Int32} {pre : World → Prop}
    (hstable : (outline X q t).Stable .main pre)
    (hsend : ∀ w flags, pre w → pre { w with flags := flags }) :
    (outline X q t).Triple .main (fun w => pre w ∧ w.dialled[comm]? = some port)
      (ConnectionManager.sendQuit comm quit) (fun _ w => pre w ∧ Answered w port) := by
  refine send_triple ?_ ?_
  · rintro w w' ⟨hpre, hdialled⟩ hrely hinv
    refine ⟨hstable w w' hpre hrely hinv, ?_⟩
    rw [hrely.dialled]
    exact hdialled
  · rintro w ⟨hpre, hdialled⟩
    exact ⟨hsend w _ hpre, comm, intOfBytes (intBytes quit), hdialled, by simp⟩

theorem sendAll_triple {comm rank : ℕ} (msgs : List Bytes) :
    (outline X q t).Triple .main (Found q cm) (ConnectionManager.sendAll comm rank msgs)
      (fun _ => Found q cm) := by
  induction msgs with
  | nil => exact Triple.ret (fun _ _ h => h)
  | cons m ms ih =>
      exact Triple.bind (send_triple found_stable (fun w h => h.send _)) (fun _ => ih)

theorem crash_triple {α : Type} {pre : World → Prop} {Q : α → World → Prop}
    (hstable : (outline X q t).Stable .main pre)
    (hready : ∀ w, pre w → q → w.manager.intercomm ≠ none) :
    (outline X q t).Triple .main pre ConnectionManager.crash Q :=
  Triple.vis (R := fun _ _ => True) hstable (fun w _ h => hready w h) (fun _ r => r.elim)
    (fun r => r.elim)

/-- A query: under `q` there is a client to answer. -/
theorem handleQuery_triple {state : Except Fault (List Bytes)}
    (hservable : q → cm.newQuery = true → Servable cm.clientCommand) (htakes : Takes cm cm')
    (hcmd : cm'.clientCommand = Command.query.toInt32) :
    (outline X q t).Triple .main (Found q cm) (ConnectionManager.handleQuery state cm')
      (fun _ w => Found q cm w ∧ cm.intercomm ≠ none) := by
  have hmanager : ∀ w, Found q cm w → w.manager = cm := fun w h => h.1.manager
  unfold ConnectionManager.handleQuery
  cases hcomm : cm'.intercomm with
  | none =>
      refine crash_triple found_stable (fun w h hq => ?_)
      -- no client is connected, so the command has been published
      have hquery : cm.newQuery = true := by
        by_contra hne
        exact htakes.connected (by simpa using hne) (htakes.intercomm.symm.trans hcomm)
      have hcommand := hservable hq hquery
      rw [← htakes.published hquery, hcmd] at hcommand
      exact absurd hcommand (by decide)
  | some comm =>
      have hsome : cm.intercomm ≠ none := by
        rw [← htakes.intercomm, hcomm]
        simp
      have hprobe : (outline X q t).Triple .main (Found q cm) (SimOp.probeAny comm)
          (fun _ => Found q cm) :=
        still_triple found_stable (fun _ => trivial) (fun _ _ _ h => h)
      have hrecv : ∀ rank, (outline X q t).Triple .main (Found q cm)
          (SimOp.recvFrom comm .ping 4 rank) (fun _ => Found q cm) :=
        fun rank => still_triple found_stable (fun _ => trivial) (fun _ _ _ h => h)
      refine Triple.bind hprobe (fun myClient => Triple.bind (hrecv myClient) (fun _ => ?_))
      cases state with
      | error e =>
          refine crash_triple found_stable (fun w h _ => ?_)
          rw [hmanager w h]
          exact hsome
      | ok msgs =>
          exact Triple.conseq (sendAll_triple msgs) (fun _ _ h => h) (fun _ w _ h => ⟨h, hsome⟩)

theorem disconnectClient_triple :
    (outline X q t).Triple .main (Found q cm) (ConnectionManager.disconnectClient 0 cm')
      (fun cm'' w => cm'' = { cm' with intercomm := none } ∧ Holding cm w ∧
        w.thread.Listening) := by
  have hrelease : (outline X q t).Triple .main (Found q cm) (ConnectionManager.release cm')
      (fun _ => Found q cm) := by
    unfold ConnectionManager.release
    cases cm'.intercomm with
    | none => exact Triple.ret (fun _ _ h => h)
    | some comm => exact still_triple found_stable (fun _ => trivial) (fun _ _ _ h => h)
  have hjoinable : (outline X q t).Triple .main (Found q cm) SimOp.threadJoinable
      (fun r w => r = true ∧ Found q cm w) := by
    refine main_op found_stable (fun _ _ _ => trivial) ?_
    rintro w r w' hinv hfound ⟨hr, rfl⟩ -
    exact ⟨hinv, by rw [hr]; exact decide_eq_true (hfound.2.joinable hfound.1.exitThread), hfound⟩
  have hjoin : (outline X q t).Triple .main (Found q cm) SimOp.joinThread
      (fun _ w => Holding cm w ∧ w.thread = .absent) := by
    refine main_op found_stable (fun _ _ _ => trivial) ?_
    rintro w r w' hinv ⟨hholding, -⟩ ⟨hended, rfl⟩ -
    refine ⟨?_, { hholding with }, rfl⟩
    exact { hinv with
      settled := fun ht _ => hinv.settled ht (by simp [hended])
      consistent := fun hne => absurd hholding.holder hne
      destroying := fun h => absurd (hholding.destroying.symm.trans h) (by simp) }
  have hspawn : (outline X q t).Triple .main (fun w => Holding cm w ∧ w.thread = .absent)
      SimOp.spawnThread (fun _ w => Holding cm w ∧ w.thread.Listening) := by
    refine main_op ?_ (fun w _ h => h.2) ?_
    · exact fun _ _ h hrely _ => ⟨h.1.stable hrely, hrely.absent.2 h.2⟩
    · rintro w r w' hinv ⟨hholding, habsent⟩ rfl -
      refine ⟨?_, { hholding with }, .inl rfl⟩
      exact { hinv with
        settled := fun ht _ => hinv.settled ht (by simp [habsent])
        consistent := fun hne => absurd hholding.holder hne
        destroying := fun h => absurd (hholding.destroying.symm.trans h) (by simp) }
  simp only [ConnectionManager.disconnectClient, if_true]
  refine Triple.bind hrelease (fun _ => Triple.bind (R := fun _ w => Holding cm w ∧
    w.thread.Listening) ?_ (fun _ => Triple.ret (fun _ _ h => ⟨rfl, h⟩)))
  refine Triple.bind hjoinable (fun r => Triple.pure (fun hr => ?_))
  rw [hr, if_pos rfl]
  exact Triple.bind hjoin (fun _ => hspawn)

/-- What is left of `runCommand` when `connectClient` has returned or thrown. -/
def afterConnect (x : Except Fault Unit × ConnectionManager ℕ) :
    SimProg ℕ (Branch × ConnectionManager ℕ) :=
  match x.1, x.2.intercomm with
  | .error e, _ => pure (.threw e, x.2)
  | .ok _, none => ConnectionManager.crash
  | .ok _, some comm =>
      ConnectionManager.sendQuit comm 0 >>= fun _ => pure (.connect, ConnectionManager.done x.2)

theorem runCommand_connect (state : Except Fault (List Bytes))
    (h : cm.clientCommand = Command.connect.toInt32) :
    ConnectionManager.runCommand 0 state cm =
      ConnectionManager.connectClient 0 cm >>= afterConnect := by
  unfold ConnectionManager.runCommand
  rw [if_pos h]
  refine congrArg (fun k => ConnectionManager.connectClient 0 cm >>= k) (funext fun x => ?_)
  rcases x with ⟨e | u, ⟨comm | comm, clientPort, clientCommand, newQuery⟩⟩ <;> rfl

/-- Connecting back has failed: the command stays. -/
theorem connect_failed (e : Fault) {x : Except Fault Unit × ConnectionManager ℕ}
    (hx : x = (.error e, cm) ∧ ¬ q) :
    (outline X q t).Triple .main (Found q cm) (afterConnect x)
      (fun y w => Holding cm w ∧ Leaves q cm y.2 w) := by
  obtain ⟨rfl, hq⟩ := hx
  exact Triple.ret (fun w _ h => ⟨h.1, h.leaves rfl rfl (fun h => absurd h hq) (fun _ => rfl)⟩)

/-- The client is told not to quit. -/
theorem connect_answered (hquery : cm.newQuery = true) (comm : ℕ)
    {x : Except Fault Unit × ConnectionManager ℕ}
    (hx : x = (.ok (), { cm with intercomm := some comm })) :
    (outline X q t).Triple .main
      (fun w => Found q cm w ∧ w.dialled[comm]? = some cm.clientPort) (afterConnect x)
      (fun y w => Holding cm w ∧ Leaves q cm y.2 w) := by
  obtain rfl := hx
  refine Triple.bind (sendQuit_triple found_stable (fun w _ h => h.send _))
    (fun _ => Triple.ret (fun w _ h => ⟨h.1.1, ?_⟩))
  obtain ⟨⟨hholding, hc⟩, hanswered⟩ := h
  exact {
    listening := fun hlistening => by
      have hfalse := (hc.listening hlistening).2
      rw [hholding.manager, hquery] at hfalse
      exact absurd hfalse (by simp)
    pending := by simp [ConnectionManager.done]
    serving := by simp [ConnectionManager.done]
    taken := fun _ => rfl
    joinable := hc.joinable hholding.exitThread
    answered := fun port hpending => .inl (hpending.2.1 ▸ hanswered) }

/-- Whatever command is taken, the manager it leaves may be left. -/
theorem runCommand_triple {state : Except Fault (List Bytes)}
    (hservable : q → cm.newQuery = true → Servable cm.clientCommand) (htakes : Takes cm cm') :
    (outline X q t).Triple .main (Found q cm) (ConnectionManager.runCommand 0 state cm')
      (fun x w => Holding cm w ∧ Leaves q cm x.2 w) := by
  -- a command that is not served is left where it was
  have hkeep : ∀ w, Found q cm w → (q → cm.newQuery = false) → Leaves q cm cm' w :=
    fun w h hnot => h.leaves htakes.intercomm htakes.newQuery hnot htakes.published
  -- after any other one no command is left
  have hdone : ∀ w, Found q cm w → cm.intercomm ≠ none →
      cm'.clientCommand ≠ Command.connect.toInt32 → Leaves q cm (ConnectionManager.done cm') w := by
    intro w h hsome hcmd
    have hlistening : ¬ w.thread.Listening := by
      intro hlistening
      have hnone := (h.2.listening hlistening).1
      rw [h.1.manager] at hnone
      exact hsome hnone
    exact {
      listening := fun h => absurd h hlistening
      pending := by simp [ConnectionManager.done]
      serving := fun hnone _ => absurd (htakes.intercomm.symm.trans hnone) hsome
      taken := fun _ => rfl
      joinable := h.2.joinable h.1.exitThread
      answered := fun port hpending =>
        absurd ((congrArg _ (htakes.published hpending.1)).trans hpending.2.2) hcmd }
  by_cases hconnect : cm'.clientCommand = Command.connect.toInt32
  · rw [runCommand_connect state hconnect]
    cases hcomm : cm'.intercomm with
    | some comm =>
        -- the command of a client that is connected already
        have hfalse : cm.newQuery = false → (outline X q t).Triple .main (Found q cm)
            (pure (.threw ConnectionManager.alreadyConnected, cm'))
            (fun (x : Branch × ConnectionManager ℕ) w => Holding cm w ∧ Leaves q cm x.2 w) :=
          fun hfalse => Triple.ret (fun w _ h => ⟨h.1, hkeep w h (fun _ => hfalse)⟩)
        simp only [ConnectionManager.connectClient, hcomm, pure_eq, ret_bind]
        refine Triple.conseq (Triple.pure hfalse) (fun w _ h => ⟨?_, h⟩) (fun _ _ _ h => h)
        by_contra hne
        have hpending := h.2.pending (by rw [h.1.manager]; simpa using hne)
        rw [h.1.manager, ← htakes.intercomm, hcomm] at hpending
        exact absurd hpending (by simp)
    | none =>
        have hquery : cm.newQuery = true := by
          by_contra hne
          exact htakes.connected (by simpa using hne) (htakes.intercomm.symm.trans hcomm)
        obtain rfl := htakes.published hquery
        refine Triple.bind (connectClient_triple found_stable (fun w h => h.dial _) hcomm)
          (fun x => ?_)
        refine Triple.conseq (Triple.or (Triple.exists (fun e => Triple.pure (connect_failed e)))
          (Triple.exists (fun comm => Triple.pure (connect_answered hquery comm))))
          (fun w _ h => ?_) (fun _ _ _ h => h)
        rcases h with ⟨hfound, ⟨e, hx, hexit⟩ | ⟨comm, hx, hdialled⟩⟩
        · refine .inl ⟨e, ⟨hx, fun hq => ?_⟩, hfound⟩
          exact absurd (hfound.1.exitThread.symm.trans (hexit hq)) (by simp)
        · exact .inr ⟨comm, hx, hfound, hdialled⟩
  · unfold ConnectionManager.runCommand
    rw [if_neg hconnect]
    by_cases hquery : cm'.clientCommand = Command.query.toInt32
    · rw [if_pos hquery]
      refine Triple.bind (handleQuery_triple hservable htakes hquery)
        (fun _ => Triple.ret (fun w _ h => ?_))
      exact ⟨h.1.1, hdone w h.1 h.2 hconnect⟩
    · rw [if_neg hquery]
      by_cases hdisconnect : cm'.clientCommand = Command.disconnect.toInt32
      · rw [if_pos hdisconnect]
        refine Triple.bind disconnectClient_triple (fun cm'' => Triple.pure (fun hcm => ?_))
        rw [hcm]
        refine Triple.ret (fun w _ h => ⟨h.1, ?_⟩)
        exact {
          listening := fun _ => ⟨rfl, rfl⟩
          pending := fun _ => rfl
          serving := fun _ _ => h.2
          taken := fun _ => rfl
          joinable := fun habsent => by simp [Thread.Listening, habsent] at h
          answered := fun port hpending =>
            absurd ((congrArg _ (htakes.published hpending.1)).trans hpending.2.2) hconnect }
      · rw [if_neg hdisconnect]
        refine Triple.ret (fun w _ h => ⟨h.1, hkeep w h (fun hq => ?_)⟩)
        by_contra hne
        have htrue : cm.newQuery = true := by simpa using hne
        have hcommand := hservable hq htrue
        rw [← htakes.published htrue] at hcommand
        exact hcommand.elim hconnect hdisconnect

/-- **A call of `process()`.** Whether it returns or throws, the main thread is between two calls
    again. -/
theorem process_triple {state : Except Fault (List Bytes)} :
    (outline X q t).Triple .main Between (ConnectionManager.process 0 state)
      (fun _ => Between) := by
  simp only [ConnectionManager.process]
  refine Triple.bind lock_triple (fun cm => Triple.pure (fun hservable =>
    Triple.bind poll_triple (fun x => Triple.pure ?_)))
  rintro (⟨rfl, hfalse⟩ | ⟨hpolled, htakes⟩)
  · refine Triple.bind (bcast_triple found_stable) (fun r => Triple.pure (fun hr => ?_))
    rw [hr, intOfBytes_intBytes, if_pos rfl]
    refine Triple.bind (Triple.conseq unlock_triple (fun w _ h => ⟨h.1, ?_⟩) (fun _ _ _ h => h))
      (fun _ => Triple.ret (fun _ _ h => h))
    exact h.leaves rfl rfl (fun _ => hfalse) (fun _ => rfl)
  · obtain ⟨haveQuery, cm'⟩ := x
    obtain rfl : haveQuery = 1 := hpolled
    refine Triple.bind (bcast_triple found_stable) (fun r => Triple.pure (fun hr => ?_))
    have hone : ¬ (1 : Int32) = 0 := by decide
    rw [hr, intOfBytes_intBytes, if_neg hone]
    refine Triple.bind (bcast_triple found_stable) (fun r => Triple.pure (fun hr => ?_))
    rw [hr, intOfBytes_intBytes]
    exact Triple.bind (runCommand_triple hservable htakes)
      (fun x => Triple.bind unlock_triple (fun _ => Triple.ret (fun _ _ h => h)))

/-! ## The destructor -/

/-- The destructor has the mutex, and has found `cm`; the listener thread has ended. -/
structure Destroying (cm : ConnectionManager ℕ) (w : World) : Prop where
  holder : w.holder = some .main
  manager : w.manager = cm
  destroying : w.destroying = true
  thread : w.thread = .absent

/-- A CONNECT that it has found has been answered. -/
def Quits (cm : ConnectionManager ℕ) (w : World) : Prop :=
  Destroying cm w ∧ ∀ port, Pending cm port → Answered w port

theorem Destroying.stable (h : Destroying cm w) (hrely : MainRely w w') : Destroying cm w' where
  holder := hrely.holder.2 h.holder
  manager := (hrely.manager h.holder).trans h.manager
  destroying := hrely.destroying.trans h.destroying
  thread := hrely.absent.2 h.thread

theorem destroying_stable : (outline X q t).Stable .main (Destroying cm) :=
  fun _ _ h hrely _ => h.stable hrely

theorem finalized_stable : (outline X q t).Stable .main Finalized := by
  rintro w w' ⟨habsent, hanswered⟩ hrely -
  refine ⟨hrely.absent.2 habsent, ?_⟩
  rw [hrely.peers habsent]
  exact fun p hp port hport => (hanswered p hp port hport).stable hrely

theorem stopListener_triple :
    (outline X q t).Triple .main Between ConnectionManager.stopListener
      (fun _ w => w.holder ≠ some .main ∧ w.exitThread = true ∧ w.destroying = false ∧
        w.thread = .absent) := by
  have hjoinable : (outline X q t).Triple .main Between SimOp.threadJoinable
      (fun r w => r = true ∧ Between w) := by
    refine main_op between_stable (fun _ _ _ => trivial) ?_
    rintro w r w' hinv ⟨hholder, hexit, hdestroying⟩ ⟨hr, rfl⟩ -
    have hne := (hinv.consistent hholder hdestroying).joinable hexit
    exact ⟨hinv, by rw [hr]; exact decide_eq_true hne, hholder, hexit, hdestroying⟩
  have hstop : (outline X q t).Triple .main Between SimOp.stopThread
      (fun _ w => w.holder ≠ some .main ∧ w.exitThread = true ∧ w.destroying = false) := by
    refine main_op between_stable (fun _ _ _ => trivial) ?_
    rintro w r w' hinv ⟨hholder, hexit, hdestroying⟩ rfl -
    refine ⟨?_, hholder, rfl, hdestroying⟩
    exact { hinv with
      consistent := fun hne hd => { hinv.consistent hne hd with
        serving := fun _ _ h => absurd h (by simp)
        joinable := fun h => absurd h (by simp) }
      destroying := fun h => absurd (hdestroying.symm.trans h) (by simp) }
  have hjoin : (outline X q t).Triple .main
      (fun w => w.holder ≠ some .main ∧ w.exitThread = true ∧ w.destroying = false)
      SimOp.joinThread (fun _ w => w.holder ≠ some .main ∧ w.exitThread = true ∧
        w.destroying = false ∧ w.thread = .absent) := by
    refine main_op ?_ (fun _ _ _ => trivial) ?_
    · exact fun _ _ h hrely _ => ⟨fun hw => h.1 (hrely.holder.1 hw),
        hrely.exitThread.trans h.2.1, hrely.destroying.trans h.2.2⟩
    · rintro w r w' hinv ⟨hholder, hexit, hdestroying⟩ ⟨hended, rfl⟩ -
      refine ⟨?_, hholder, hexit, hdestroying, rfl⟩
      exact { hinv with
        settled := fun ht _ => hinv.settled ht (by simp [hended])
        consistent := fun hne hd => { hinv.consistent hne hd with
          listening := fun h => by simp [Thread.Listening] at h
          serving := fun _ _ h => absurd (hexit.symm.trans h) (by simp)
          joinable := fun h => absurd (hexit.symm.trans h) (by simp) }
        destroying := fun h => absurd (hdestroying.symm.trans h) (by simp) }
  refine Triple.bind hjoinable (fun r => Triple.pure (fun hr => ?_))
  rw [hr, if_pos rfl]
  exact Triple.bind hstop (fun _ => hjoin)

theorem lastLock_triple :
    (outline X q t).Triple .main (fun w => w.holder ≠ some .main ∧ w.exitThread = true ∧
        w.destroying = false ∧ w.thread = .absent)
      SimOp.lockMutex (fun cm => Destroying cm) := by
  refine main_op ?_ (fun _ _ _ => trivial) ?_
  · exact fun _ _ h hrely _ => ⟨fun hw => h.1 (hrely.holder.1 hw),
      hrely.exitThread.trans h.2.1, hrely.destroying.trans h.2.2.1, hrely.absent.2 h.2.2.2⟩
  · rintro w r w' hinv ⟨-, hexit, -, habsent⟩ ⟨-, rfl, rfl⟩ -
    refine ⟨?_, rfl, rfl, hexit, habsent⟩
    exact { hinv with
      consistent := fun hne => absurd rfl hne
      destroying := fun _ => ⟨habsent, hexit⟩ }

theorem lastUnlock_triple :
    (outline X q t).Triple .main (Quits cm) (SimOp.unlockMutex cm') (fun _ => Finalized) := by
  refine main_op ?_ (fun w _ h => h.1.holder) ?_
  · exact fun _ _ h hrely _ => ⟨h.1.stable hrely, fun port hport => (h.2 port hport).stable hrely⟩
  · rintro w r w' hinv ⟨hat, hanswered⟩ rfl -
    have hall : ∀ p ∈ w.peers, ∀ port,
        p.published = some (port, Command.connect.toInt32) → Answered w port := by
      intro p hp port hport
      refine (hinv.answered p hp port hport).elim id (fun hpending => hanswered port ?_)
      rwa [hat.manager] at hpending
    refine ⟨?_, hat.thread, hall⟩
    exact { hinv with
      consistent := fun _ hd => absurd (hat.destroying.symm.trans hd) (by simp)
      answered := fun p hp port hport => .inl (hall p hp port hport) }

/-- The destructor tells the client to quit, if that answers what it has found. -/
theorem sayGoodbye_triple {comm : ℕ} {pre : World → Prop} (hcomm : cm'.intercomm = some comm)
    (hsend : (outline X q t).Triple .main pre (ConnectionManager.sendQuit comm 1)
      (fun _ => Quits cm)) :
    (outline X q t).Triple .main pre (ConnectionManager.sayGoodbye 0 cm') (fun _ => Finalized) := by
  simp only [ConnectionManager.sayGoodbye, hcomm, if_true]
  refine Triple.bind hsend (fun _ => Triple.bind lastUnlock_triple (fun _ => ?_))
  exact still_triple finalized_stable (fun _ => trivial) (fun _ _ _ h => h)

theorem Destroying.send (h : Destroying cm w) (flags : List (ℕ × Int32)) :
    Destroying cm { w with flags := flags } :=
  { h with }

/-- The end of the destructor when the command is no CONNECT: none has been published. -/
theorem goodbye_other (hkept : cm.newQuery = true → cm' = cm)
    (hcmd : cm'.clientCommand ≠ Command.connect.toInt32) :
    (outline X q t).Triple .main (Destroying cm) (ConnectionManager.sayGoodbye 0 cm')
      (fun _ => Finalized) := by
  have hnone : ∀ port, ¬ Pending cm port := by
    intro port hpending
    rw [hkept hpending.1] at hcmd
    exact hcmd hpending.2.2
  cases hcomm : cm'.intercomm with
  | none =>
      simp only [ConnectionManager.sayGoodbye, hcomm]
      exact Triple.conseq lastUnlock_triple (fun w _ h => ⟨h, fun port hp => absurd hp (hnone port)⟩)
        (fun _ _ _ h => h)
  | some comm =>
      have hsend : (outline X q t).Triple .main (Destroying cm)
          (ConnectionManager.sendQuit comm 1) (fun _ => Quits cm) :=
        send_triple destroying_stable
          (fun w h => ⟨h.send _, fun port hp => absurd hp (hnone port)⟩)
      exact sayGoodbye_triple hcomm hsend

/-- What is left of the destructor when `connectClient` has returned or thrown. -/
def afterLastConnect (x : Except Fault Unit × ConnectionManager ℕ) :
    SimProg ℕ (Except Fault Unit) :=
  match x.1 with
  | .error e => pure (.error e)
  | .ok _ => ConnectionManager.sayGoodbye 0 x.2 >>= fun _ => pure (.ok ())

/-- The end of the destructor when the command is a CONNECT. -/
theorem goodbye_connect (hkept : cm.newQuery = true → cm' = cm) :
    (outline X q t).Triple .main (Destroying cm)
      (ConnectionManager.connectClient 0 cm' >>= afterLastConnect)
      (fun r w => r = .ok () → Finalized w) := by
  cases hcomm : cm'.intercomm with
  | some comm =>
      simp only [ConnectionManager.connectClient, hcomm, pure_eq]
      exact Triple.ret (fun w _ _ => by simp)
  | none =>
      refine Triple.bind (connectClient_triple destroying_stable (fun w h => { h with }) hcomm)
        (fun x => ?_)
      obtain ⟨result, cm''⟩ := x
      cases result with
      | error e => exact Triple.ret (fun w _ _ => by simp)
      | ok u =>
          have hquit : ∀ comm, (outline X q t).Triple .main
              (fun w => Destroying cm w ∧ w.dialled[comm]? = some cm'.clientPort)
              (ConnectionManager.sendQuit comm 1) (fun _ => Quits cm) := by
            intro comm
            refine Triple.conseq (sendQuit_triple destroying_stable (fun w _ h => h.send _))
              (fun _ _ h => h) (fun _ w _ h => ⟨h.1, fun port hpending => ?_⟩)
            rw [← hpending.2.1, ← hkept hpending.1]
            exact h.2
          have hgoodbye : (outline X q t).Triple .main
              (fun w => ∃ comm, cm'' = { cm' with intercomm := some comm } ∧ Destroying cm w ∧
                w.dialled[comm]? = some cm'.clientPort)
              (ConnectionManager.sayGoodbye 0 cm'') (fun _ => Finalized) := by
            refine Triple.exists (fun comm => Triple.pure (fun hcm => ?_))
            exact sayGoodbye_triple (congrArg ConnectionManager.intercomm hcm) (hquit comm)
          refine Triple.conseq (Triple.bind hgoodbye (fun _ => Triple.ret (fun w _ h _ => h)))
            (fun w _ h => ?_) (fun _ _ _ h => h)
          rcases h with ⟨hat, ⟨e, hx, -⟩ | ⟨comm, hx, hdialled⟩⟩
          · exact absurd (congrArg Prod.fst hx) (by simp)
          · exact ⟨comm, congrArg Prod.snd hx, hat, hdialled⟩

/-- **The destructor.** It answers what has been published, unless connecting back fails. -/
theorem destructor_triple :
    (outline X q t).Triple .main Between (ConnectionManager.destructor 0)
      (fun r w => r = .ok () → Finalized w) := by
  have hawait : ∀ cm : ConnectionManager ℕ, (outline X q t).Triple .main (Destroying cm)
      (ConnectionManager.awaitCommand 0 cm)
      (fun cm' w => (cm.newQuery = true → cm' = cm) ∧ Destroying cm w) := by
    rintro ⟨intercomm, clientPort, clientCommand, newQuery⟩
    cases newQuery with
    | true =>
        cases intercomm <;> exact Triple.ret (fun w _ h => ⟨fun _ => rfl, h⟩)
    | false =>
        cases intercomm with
        | none => exact Triple.ret (fun w _ h => ⟨fun _ => rfl, h⟩)
        | some comm =>
            simp only [ConnectionManager.awaitCommand, if_true]
            have hrecv : (outline X q t).Triple .main
                (Destroying ⟨some comm, clientPort, clientCommand, false⟩)
                (SimOp.recvFrom comm .command 4 0)
                (fun _ => Destroying ⟨some comm, clientPort, clientCommand, false⟩) :=
              still_triple destroying_stable (fun _ => trivial) (fun _ _ _ h => h)
            exact Triple.bind hrecv
              (fun r => Triple.ret (fun w _ h => ⟨fun h => absurd h (by simp), h⟩))
  simp only [ConnectionManager.destructor]
  refine Triple.bind stopListener_triple (fun _ => Triple.bind lastLock_triple (fun cm =>
    Triple.bind (hawait cm) (fun cm' => Triple.pure (fun hkept => ?_))))
  refine Triple.bind (bcast_triple destroying_stable) (fun r => Triple.pure (fun hr => ?_))
  rw [hr, intOfBytes_intBytes]
  by_cases hcmd : cm'.clientCommand = Command.connect.toInt32
  · rw [if_pos hcmd]
    exact goodbye_connect hkept
  · rw [if_neg hcmd]
    exact Triple.bind (goodbye_other hkept hcmd) (fun _ => Triple.ret (fun w _ h _ => h))

theorem mainCode_triple (l : MainLabel) :
    (outline X q t).Triple .main (mainPost l) (mainCode X l) mainPost := by
  cases l with
  | running calls =>
      simp only [mainCode]
      split
      · exact Triple.bind destructor_triple (fun _ => Triple.ret (fun _ _ h => h))
      · exact Triple.bind process_triple (fun _ => Triple.ret (fun _ _ h => h))
  | finalized calls result => exact Triple.ret (fun _ _ h => h)

end Serving

end LibIS
