import LibIS.Serving.ListenerThread
import LibIS.Serving.MainThread

set_option autoImplicit false

/-! # Serving the listening socket: commands of strangers

The listener publishes whatever command a frame carries and ends. `process()` is back to where a
client can be served if that command makes sense without a client and connecting back does not fail
(`commands_served`). -/

open ByteCodec ThreadSystem Proof

namespace LibIS

namespace Serving

variable {X : Setup} {q t : Prop}

theorem outline_valid : (outline X q t).Valid World.init (startLabels X) where
  inv_start := {
    settled := by simp [World.init]
    consistent := fun _ _ => {
      listening := fun _ => ⟨rfl, rfl⟩
      pending := fun _ => rfl
      serving := fun _ _ _ => .inl rfl
      newer := fun _ h => absurd h (by simp [World.init, ConnectionManager.init])
      joinable := fun _ => by simp [World.init] }
    answered := by simp [World.init]
    destroying := fun h => absurd h (by simp [World.init]) }
  post_start p := by
    cases p with
    | main => exact ⟨by simp [World.init], rfl, rfl⟩
    | listener => exact ⟨by simp [World.init], by simp [World.init], rfl⟩
  post_stable p l := by
    cases p with
    | main =>
        cases l with
        | running calls => exact between_stable
        | finalized calls result =>
            exact fun w w' h hrely hinv hr => finalized_stable w w' (h hr) hrely hinv
    | listener =>
        cases l with
        | waiting =>
            rintro w w' ⟨⟨hrunning, hpublished⟩, hholder, huntested⟩ hrely -
            exact ⟨⟨fun h => hrunning (hrely.running.1 h), fun h => hpublished (hrely.published.1 h)⟩,
              fun h => hholder (hrely.holder.1 h), hrely.untested.trans huntested⟩
        | listening => exact clean_stable
        | accepting => exact clean_stable
        | leaving => exact fun w w' h hrely hinv =>
            ⟨leaving_stable w w' h.1 hrely hinv, hrely.untested.trans h.2⟩
  code_safe p l := by
    cases p with
    | main => exact mainCode_triple l
    | listener => exact listenForClient_triple l

/-- What holds in every state of a run that meets the conditions. -/
theorem holds_of_reachable {c : ((system X).guarded (Cond X q t)).Config}
    (hc : ((system X).guarded (Cond X q t)).Reachable (start _ World.init (startLabels X)) c) :
    (outline X q t).Holds c :=
  sound outline_valid hc

theorem cond_served : Cond X True False = Served X := by
  funext p o w r
  simp [Cond]

/-- **Commands of strangers.** In every run in which each frame that a call of `process()` takes
    says CONNECT or DISCONNECT and connecting back does not fail in one: `process()` never uses a
    null pointer where a client should be, and when no client is connected after a call and no newer
    frame has been published, no command is left over and a listener thread will serve the next
    client. -/
theorem commands_served (X : Setup) (c : ((system X).guarded (Served X)).Config)
    (hc : ((system X).guarded (Served X)).Reachable (start _ World.init (startLabels X)) c) :
    (∀ k, c.control .main = .vis .crash k → c.shared.manager.intercomm ≠ none) ∧
      (∀ calls, c.control .main = .ret (.running calls) → c.shared.manager.intercomm = none →
        c.shared.newer = false →
        c.shared.manager.newQuery = false ∧ c.shared.thread.Listening) := by
  revert c
  rw [← cond_served]
  intro c hc
  have hholds := holds_of_reachable hc
  refine ⟨fun k hctl => hholds.ready hctl trivial, fun calls hctl hcomm hnewer => ?_⟩
  obtain ⟨hholder, hexit, hdestroying⟩ := hholds.post hctl
  have hconsistent := hholds.inv.consistent hholder hdestroying
  have hquery : c.shared.manager.newQuery = false := by
    by_contra hne
    have hpublished := hconsistent.newer trivial (by simpa using hne)
    exact absurd (hnewer.symm.trans hpublished) (by simp)
  exact ⟨hquery, hconsistent.serving hcomm hquery hexit⟩

/-! ## Runs -/

/-- A main thread that takes the mutex when no command but one of `commands` waits. Its clients can
    always be connected to, and say DISCONNECT in the next call. -/
def answerMain (commands : List Int32) : (o : SimOp ℕ) → World → Option (o.Resp × World)
  | .lock, w =>
      if w.holder = none ∧ (w.manager.newQuery = true → w.manager.clientCommand ∈ commands) then
        some (w.manager, { w with
          holder := some .main
          destroying := w.exitThread })
      else
        none
  | .unlock cm, w => some ((), { w with
      manager := cm
      holder := none
      newer := false })
  | .setExitThread, w => some ((), { w with exitThread := true })
  | .joinable, w => some (decide (w.thread ≠ .absent), w)
  | .join, w => if w.thread = .ended then some ((), { w with thread := .absent }) else none
  | .spawn, w => some ((), { w with thread := .created })
  | .bcast buf, w => some (buf, w)
  | .probe _ _, w => some (true, w)
  | .recv _ _ _ _, w => some (intBytes Command.disconnect.toInt32, w)
  | .connect host, w => some (.ok w.dialled.length, { w with dialled := w.dialled ++ [host] })
  | .send comm kind data _, w => some ((), { w with
      flags := if kind = .quit then w.flags ++ [(comm, intOfBytes data)] else w.flags })
  | .close _, w => some ((), w)
  | _, _ => none

theorem answerMain_perform (commands : List Int32) (o : SimOp ℕ) (w : World) (r : o.Resp)
    (w' : World) (h : answerMain commands o w = some (r, w')) :
    performMain o w r w' ∧ ((∀ cmd ∈ commands, Servable cmd) → Served X .main o w r) := by
  cases o with
  | lock =>
      simp only [answerMain] at h
      split at h
      · next hfree =>
          obtain ⟨rfl, rfl⟩ := Prod.mk.inj (Option.some.inj h)
          exact ⟨⟨hfree.1, rfl, rfl⟩, fun hall _ hquery => hall _ (hfree.2 hquery)⟩
      · exact absurd h (by simp)
  | join =>
      simp only [answerMain] at h
      split at h
      · next hended =>
          obtain ⟨-, rfl⟩ := Prod.mk.inj (Option.some.inj h)
          exact ⟨⟨hended, rfl⟩, fun _ => trivial⟩
      · exact absurd h (by simp)
  | connect host =>
      obtain ⟨rfl, rfl⟩ := Prod.mk.inj (Option.some.inj h)
      exact ⟨.inr ⟨rfl, rfl⟩, fun _ _ => ⟨w.dialled.length, rfl⟩⟩
  | joinable | bcast =>
      obtain ⟨rfl, rfl⟩ := Prod.mk.inj (Option.some.inj h)
      exact ⟨⟨rfl, rfl⟩, fun _ => trivial⟩
  | unlock | setExitThread | send | close | spawn | probe | recv =>
      obtain ⟨-, rfl⟩ := Prod.mk.inj (Option.some.inj h)
      exact ⟨rfl, fun _ => trivial⟩
  | probeAll | crash => exact absurd h (by simp [answerMain])

/-- A listener thread with one peer after the other, each of which sends `frame`. -/
def answerListener (frame : Bytes) : (o : ListenerOp ℕ) → World → Option (o.Resp × World)
  | .begin, w => if w.thread = .created then some ((), { w with thread := .running }) else none
  | .openSocket, w => some (.ok (), w)
  | .exitThread, w =>
      if w.exitThread = true then none else some (w.exitThread, { w with untested := none })
  | .accept, w => some (.ok (some w.peers.length), { w with
      peers := w.peers ++ [⟨frame, true, 0, 0, none⟩]
      reading := w.peers.length
      untested := some w.peers.length })
  | .recv i size, w =>
      match w.peers[i]? with
      | none => none
      | some p =>
          if 0 ≤ size then
            some (some (p.rest.take size.toNat),
              w.mapPeer i (fun p' => p'.advance (p.rest.take size.toNat).length))
          else
            none
  | .close i, w => some ((), w.mapPeer i Peer.close)
  | .lock, w =>
      if w.holder = none then some (w.manager, { w with holder := some .listener }) else none
  | .unlock cm, w => some ((), { w.mapPeer w.reading
      (fun p => { p with published := some (cm.clientPort, cm.clientCommand) }) with
        manager := cm
        holder := none
        thread := .published
        newer := true })
  | .closeSocket, w => some ((), w)
  | .finish, w => some ((), { w with thread := .ended })
  | _, _ => none

theorem answerListener_perform (frame : Bytes) (o : ListenerOp ℕ) (w : World) (r : o.Resp)
    (w' : World) (h : answerListener frame o w = some (r, w')) :
    performListener o w r w' ∧ Tested X .listener o w r := by
  cases o with
  | begin =>
      simp only [answerListener] at h
      split at h
      · next hcreated =>
          obtain ⟨-, rfl⟩ := Prod.mk.inj (Option.some.inj h)
          exact ⟨⟨hcreated, rfl⟩, trivial⟩
      · exact absurd h (by simp)
  | exitThread =>
      simp only [answerListener] at h
      split at h
      · exact absurd h (by simp)
      · next hexit =>
          obtain ⟨rfl, rfl⟩ := Prod.mk.inj (Option.some.inj h)
          exact ⟨⟨rfl, rfl⟩, fun hr => absurd hr hexit⟩
  | accept =>
      obtain ⟨rfl, rfl⟩ := Prod.mk.inj (Option.some.inj h)
      exact ⟨.inr (.inr ⟨frame, true, rfl, rfl⟩), trivial⟩
  | recv i size =>
      simp only [answerListener] at h
      split at h
      · exact absurd h (by simp)
      · next p hget =>
          split at h
          · next hsize =>
              obtain ⟨rfl, rfl⟩ := Prod.mk.inj (Option.some.inj h)
              refine ⟨⟨p, hget, fun _ _ => rfl, ?_, rfl⟩, trivial⟩
              rintro bs hbs
              obtain rfl := Option.some.inj hbs
              refine ⟨List.take_prefix _ _, fun _ => ?_⟩
              rw [List.length_take]
              omega
          · exact absurd h (by simp)
  | lock =>
      simp only [answerListener] at h
      split at h
      · next hholder =>
          obtain ⟨rfl, rfl⟩ := Prod.mk.inj (Option.some.inj h)
          exact ⟨⟨hholder, rfl, rfl⟩, trivial⟩
      · exact absurd h (by simp)
  | openSocket | close | unlock | closeSocket | finish =>
      obtain ⟨-, rfl⟩ := Prod.mk.inj (Option.some.inj h)
      exact ⟨rfl, trivial⟩
  | throw | overrun => exact absurd h (by simp [answerListener])

theorem oneCharacter_lt : 1 + 1 < 2 ^ 31 := by decide

/-- Port names of one character, and no end. -/
def strangerSetup : Setup where
  maxPortName := 1
  sends := fun _ => .ok []
  finalize := none
  maxPortName_lt := oneCharacter_lt

/-- The listener thread runs; it has published a client's frame and ended. -/
def openWorld : World :=
  { World.init with thread := .running }

def servedWorld : World :=
  { openWorld with
    manager := ConnectionManager.init.publish portA Command.connect.toInt32
    thread := .ended
    peers := [⟨connectFrame portA, true, 10, 1, some (portA, Command.connect.toInt32)⟩]
    newer := true }

/-- The rounds of the listener thread that lead there. -/
theorem listener_serves (hX : X.maxPortName = 1)
    {G : (p : Party) → (o : (system X).Op p) → World → (system X).Resp p o → Prop}
    (hlistener : ∀ o w r w', answerListener (connectFrame portA) o w = some (r, w') →
      ((system X).guarded G).perform .listener o w r w') :
    ∃ c, ((system X).guarded G).Reachable (start _ World.init (startLabels X)) c ∧
      c.shared = servedWorld ∧ c.control .main = .ret (.running []) := by
  obtain ⟨maxPortName, sends, finalize, hmax⟩ := X
  obtain rfl : maxPortName = 1 := hX
  have hstart : ((system ⟨1, sends, finalize, hmax⟩).guarded G).Reachable
      (start _ World.init (startLabels ⟨1, sends, finalize, hmax⟩)) _ := .start
  have hopen := (hstart.round .listener hlistener (l := .waiting) rfl
    (show _ = (openWorld, some .listening) from rfl)).round .listener hlistener (l := .listening) rfl
    (show _ = (openWorld, some .accepting) from rfl)
  have hserved := (hopen.round .listener hlistener (l := .accepting) rfl
    (show _ = ({ servedWorld with thread := .published }, some .leaving) from rfl)).round .listener
    hlistener (l := .leaving) rfl (show _ = (servedWorld, some .waiting) from rfl)
  exact ⟨_, hserved, rfl, rfl⟩

/-- The client is connected to; it has disconnected, and the next listener thread is created. -/
def connectedWorld : World :=
  { servedWorld with
    manager := ⟨some 0, portA, -1, false⟩
    newer := false
    dialled := [portA]
    flags := [(0, 0)] }

def disconnectedWorld : World :=
  { connectedWorld with
    manager := ⟨none, portA, -1, false⟩
    thread := .created
    flags := [(0, 0), (0, 0)] }

/-- A client connects, and disconnects in the next call: a listener thread has been created to serve
    the next one. -/
theorem commands_served_connect :
    ∃ c, ((system strangerSetup).guarded (Served strangerSetup)).Reachable
        (start _ World.init (startLabels strangerSetup)) c ∧
      c.control .main = .ret (.running [.connect, .disconnect]) ∧
      c.shared.dialled = [portA] ∧ c.shared.manager.newQuery = false ∧
      c.shared.thread.Listening := by
  have hservable : ∀ cmd ∈ [Command.connect.toInt32, Command.disconnect.toInt32],
      Servable cmd := by
    intro cmd hcmd
    rcases List.mem_pair.1 hcmd with rfl | rfl
    · decide
    · decide
  have hmain : ∀ o w r w',
      answerMain [Command.connect.toInt32, Command.disconnect.toInt32] o w = some (r, w') →
      ((system strangerSetup).guarded (Served strangerSetup)).perform .main o w r w' :=
    fun o w r w' h => (answerMain_perform _ o w r w' h).imp_right (fun hserved =>
      hserved hservable)
  obtain ⟨⟨w, control⟩, hserved, rfl, hctl⟩ := listener_serves (X := strangerSetup)
    (G := Served strangerSetup) rfl (fun o w r w' h =>
      ⟨(answerListener_perform (X := strangerSetup) _ o w r w' h).1, by cases o <;> trivial⟩)
  have hconnect : (mainCode strangerSetup (.running [])).run
      (answerMain [Command.connect.toInt32, Command.disconnect.toInt32]) servedWorld =
        (connectedWorld, some (.running [.connect])) := by decide +kernel
  have hdisconnect : (mainCode strangerSetup (.running [.connect])).run
      (answerMain [Command.connect.toInt32, Command.disconnect.toInt32]) connectedWorld =
        (disconnectedWorld, some (.running [.connect, .disconnect])) := by decide +kernel
  have hreach := (hserved.round .main hmain hctl hconnect).round .main hmain
    (l := .running [.connect]) rfl hdisconnect
  obtain ⟨hquery, hlistening⟩ :=
    (commands_served strangerSetup _ hreach).2 [.connect, .disconnect] rfl rfl rfl
  exact ⟨_, hreach, rfl, rfl, hquery, hlistening⟩

/-- A frame with the port name `a` and a command that there is not. -/
def strangeFrame : Bytes :=
  intBytes 2 ++ ([97, 0] ++ intBytes 7)

/-- A stranger's command makes `process()` throw, for ever: it is left over, and no listener thread
    runs. -/
theorem strange_command_stays :
    ∃ c, (system strangerSetup).Reachable (start _ World.init (startLabels strangerSetup)) c ∧
      c.control .main = .ret (.running [.threw ConnectionManager.unknownCommand]) ∧
      c.shared.manager.intercomm = none ∧ c.shared.newer = false ∧
      ¬ (c.shared.manager.newQuery = false ∧ c.shared.thread.Listening) := by
  have hlistener : ∀ o w r w', answerListener strangeFrame o w = some (r, w') →
      (system strangerSetup).perform .listener o w r w' :=
    fun o w r w' h => (answerListener_perform (X := strangerSetup) strangeFrame o w r w' h).1
  have hmain : ∀ o w r w', answerMain [7] o w = some (r, w') →
      (system strangerSetup).perform .main o w r w' :=
    fun o w r w' h => (answerMain_perform (X := strangerSetup) [7] o w r w' h).1
  have hstart : (system strangerSetup).Reachable
      (start _ World.init (startLabels strangerSetup)) _ := .start
  have hopen := (hstart.round .listener hlistener (l := .waiting) rfl rfl).round .listener hlistener
    (l := .listening) rfl rfl
  have hpublished := (hopen.round .listener hlistener (l := .accepting) rfl rfl).round .listener
    hlistener (l := .leaving) rfl rfl
  have hreach := hpublished.round .main hmain (l := .running []) rfl rfl
  refine ⟨_, hreach, rfl, rfl, rfl, fun h => ?_⟩
  have hquery := h.1
  exact absurd hquery (by decide)

end Serving

end LibIS
