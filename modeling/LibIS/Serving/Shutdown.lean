import LibIS.Serving.Commands

set_option autoImplicit false

/-! # Serving the listening socket: shutdown

A client whose connection the listener thread has accepted is served before the thread ends, unless
the destructor sets `exitThread` between `accept` and the test that follows it
(`accepted_served`). -/

open ByteCodec ThreadSystem Proof

namespace LibIS

namespace Serving

theorem cond_tested (X : Setup) : Cond X False True = Tested X := by
  funext p o w r
  simp [Cond]

/-- **Shutdown.** In every run in which `exitThread` is never found set with a connection just
    accepted: whenever no listener thread runs, every socket it has accepted has been closed once,
    and the frame of every client whose frame is complete has been published; and when the
    destructor has returned, the simulation has connected back to each of these clients and sent it
    the flag. -/
theorem accepted_served (X : Setup) (c : ((system X).guarded (Tested X)).Config)
    (hc : ((system X).guarded (Tested X)).Reachable (start _ World.init (startLabels X)) c) :
    (c.shared.thread ≠ .running → ∀ p ∈ c.shared.peers, p.closes = 1 ∧
      ∀ port, p.Connects X port → p.published = some (port, Command.connect.toInt32)) ∧
    (∀ calls, c.control .main = .ret (.finalized calls (.ok ())) → ∀ p ∈ c.shared.peers, ∀ port,
      p.Connects X port → ∃ comm quit,
        c.shared.dialled[comm]? = some port ∧ (comm, quit) ∈ c.shared.flags) := by
  revert c
  rw [← cond_tested]
  intro c hc
  have hholds := holds_of_reachable hc
  refine ⟨fun hthread p hp => ?_, fun calls hctl p hp port hport => ?_⟩
  · have hsettled := hholds.inv.settled trivial hthread p hp
    exact ⟨hsettled.closes, hsettled.published⟩
  · obtain ⟨habsent, hanswered⟩ := hholds.post hctl rfl
    have hsettled := hholds.inv.settled trivial (by simp [habsent]) p hp
    exact hanswered p hp port (hsettled.published port hport)

/-- Port names of one character, and an end before the first call. -/
def shutdownSetup : Setup where
  maxPortName := 1
  sends := fun _ => .ok []
  finalize := some 0
  maxPortName_lt := strangerSetup.maxPortName_lt

/-- The listener thread has just accepted a client with a complete frame. -/
def acceptedWorld : World :=
  { openWorld with
    peers := [⟨connectFrame portA, true, 0, 0, none⟩]
    untested := some 0 }

/-- A client is served by the time the listener thread has ended. -/
theorem accepted_served_one :
    ∃ c, ((system shutdownSetup).guarded (Tested shutdownSetup)).Reachable
        (start _ World.init (startLabels shutdownSetup)) c ∧ c.shared = servedWorld ∧
      ∀ p ∈ servedWorld.peers, p.closes = 1 ∧
        p.published = some (portA, Command.connect.toInt32) := by
  obtain ⟨⟨w, control⟩, hserved, rfl, -⟩ := listener_serves (X := shutdownSetup)
    (G := Tested shutdownSetup) rfl (answerListener_perform (connectFrame portA))
  refine ⟨_, hserved, rfl, fun p hp => ?_⟩
  obtain ⟨hcloses, hpublished⟩ :=
    (accepted_served shutdownSetup _ hserved).1 (by simp [servedWorld]) p hp
  refine ⟨hcloses, hpublished portA ?_⟩
  rw [List.mem_singleton.1 hp]
  exact ⟨rfl, rfl, by decide, by decide⟩

/-- The destructor sets `exitThread` when the client has just been accepted: its socket stays open
    and its frame is not read. -/
theorem accepted_dropped :
    ∃ c, (system shutdownSetup).Reachable (start _ World.init (startLabels shutdownSetup)) c ∧
      c.shared.thread = .ended ∧
      ∃ p ∈ c.shared.peers, p.Connects shutdownSetup portA ∧ p.closes = 0 ∧ p.published = none := by
  have hlistener : ∀ o w r w', answerListener (connectFrame portA) o w = some (r, w') →
      (system shutdownSetup).perform .listener o w r w' :=
    fun o w r w' h => (answerListener_perform (X := shutdownSetup) (connectFrame portA) o w r w' h).1
  have hstart : (system shutdownSetup).Reachable
      (start _ World.init (startLabels shutdownSetup)) _ := .start
  have hopen := (hstart.round .listener hlistener (l := .waiting) rfl
    (show _ = (openWorld, some .listening) from rfl)).round .listener hlistener (l := .listening) rfl
    (show _ = (openWorld, some .accepting) from rfl)
  -- the listener accepts, the destructor sets `exitThread`, the listener tests it
  have hload : performListener .exitThread openWorld false openWorld := ⟨rfl, rfl⟩
  have haccept : performListener .accept openWorld (.ok (some 0)) acceptedWorld :=
    .inr (.inr ⟨connectFrame portA, true, rfl, rfl⟩)
  have hjoinable : performMain .joinable acceptedWorld true acceptedWorld := ⟨rfl, rfl⟩
  have hstop : performMain .setExitThread acceptedWorld ()
      { acceptedWorld with exitThread := true } := rfl
  have htest : performListener .exitThread { acceptedWorld with exitThread := true } true
      { acceptedWorld with
        exitThread := true
        untested := none } := ⟨rfl, rfl⟩
  have haccepted := ((hopen.step (.goto _ .listener rfl)).step
    (.act _ .listener false _ rfl hload)).step (.act _ .listener _ _ rfl haccept)
  have hstopped := ((haccepted.step (.goto _ .main rfl)).step (.act _ .main true _ rfl hjoinable)).step
    (.act _ .main () _ rfl hstop)
  have hleaving := (hstopped.step (.act _ .listener true _ rfl htest)).round .listener hlistener
    (l := .leaving) rfl rfl
  exact ⟨_, hleaving, rfl, _, .head _, ⟨rfl, rfl, by decide, by decide⟩, rfl, rfl⟩

end Serving

end LibIS
