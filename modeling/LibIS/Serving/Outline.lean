import LibIS.Serving.System

set_option autoImplicit false

/-! # Serving the listening socket: the proof outline

The invariant of the system, what each thread relies on, and what it knows between two rounds of its
code. `q` stands for the condition that every frame taken makes sense (`Served`), `t` for the
one that `exitThread` is not found set with a connection just accepted (`Tested`). -/

open ByteCodec ThreadSystem

namespace LibIS

namespace Serving

/-- The condition of a run under `q` and `t`. -/
def Cond (X : Setup) (q t : Prop) (p : Party) (o : (system X).Op p) (w : World)
    (r : (system X).Resp p o) : Prop :=
  (q → Served X p o w r) ∧ (t → Tested X p o w r)

/-! ## The invariant -/

/-- A peer that the listener is done with: its socket has been closed once, and the frame of a
    client has been published. -/
structure Settled (X : Setup) (p : Peer) : Prop where
  closes : p.closes = 1
  published : ∀ port, p.Connects X port → p.published = some (port, Command.connect.toInt32)

/-- The simulation has connected to `port` and sent a flag that says whether to quit. -/
def Answered (w : World) (port : StdString) : Prop :=
  ∃ comm quit, w.dialled[comm]? = some port ∧ (comm, quit) ∈ w.flags

/-- A CONNECT from `port` waits to be taken. -/
def Pending (cm : ConnectionManager ℕ) (port : StdString) : Prop :=
  cm.newQuery = true ∧ cm.clientPort = port ∧ cm.clientCommand = Command.connect.toInt32

/-- The fields of the manager and the listener thread when the mutex is free. -/
structure Consistent (q : Prop) (w : World) : Prop where
  listening : w.thread.Listening → w.manager.intercomm = none ∧ w.manager.newQuery = false
  pending : w.manager.newQuery = true → w.manager.intercomm = none
  serving : w.manager.intercomm = none → w.manager.newQuery = false → w.exitThread = false →
    w.thread.Listening
  newer : q → w.manager.newQuery = true → w.newer = true
  joinable : w.exitThread = false → w.thread ≠ .absent

/-- The invariant of the system. -/
structure Inv (X : Setup) (q t : Prop) (w : World) : Prop where
  settled : t → w.thread ≠ .running → ∀ p ∈ w.peers, Settled X p
  consistent : w.holder ≠ some .main → w.destroying = false → Consistent q w
  answered : ∀ p ∈ w.peers, ∀ port, p.published = some (port, Command.connect.toInt32) →
    Answered w port ∨ Pending w.manager port
  destroying : w.destroying = true → w.thread = .absent ∧ w.exitThread = true

/-! ## What the threads rely on -/

/-- What the listener thread does to the main thread's view. -/
structure MainRely (w w' : World) : Prop where
  holder : w'.holder = some .main ↔ w.holder = some .main
  manager : w.holder = some .main → w'.manager = w.manager
  newer : w.holder = some .main → w'.newer = w.newer
  exitThread : w'.exitThread = w.exitThread
  destroying : w'.destroying = w.destroying
  dialled : w'.dialled = w.dialled
  flags : w'.flags = w.flags
  listening : w.holder = some .main → w.exitThread = false →
    (w'.thread.Listening ↔ w.thread.Listening)
  absent : w'.thread = .absent ↔ w.thread = .absent
  peers : w.thread = .absent → w'.peers = w.peers

/-- What the main thread does to the listener thread's view. -/
structure ListenerRely (w w' : World) : Prop where
  holder : w'.holder = some .listener ↔ w.holder = some .listener
  manager : w.holder = some .listener → w'.manager = w.manager
  running : w'.thread = .running ↔ w.thread = .running
  published : w'.thread = .published ↔ w.thread = .published
  exitThread : w.exitThread = true → w'.exitThread = true
  peers : w'.peers = w.peers
  reading : w'.reading = w.reading
  untested : w'.untested = w.untested

theorem MainRely.refl (w : World) : MainRely w w :=
  ⟨Iff.rfl, fun _ => rfl, fun _ => rfl, rfl, rfl, rfl, rfl, fun _ _ => Iff.rfl, Iff.rfl,
    fun _ => rfl⟩

theorem MainRely.trans {w₁ w₂ w₃ : World} (h : MainRely w₁ w₂) (h' : MainRely w₂ w₃) :
    MainRely w₁ w₃ where
  holder := h'.holder.trans h.holder
  manager hholder := (h'.manager (h.holder.2 hholder)).trans (h.manager hholder)
  newer hholder := (h'.newer (h.holder.2 hholder)).trans (h.newer hholder)
  exitThread := h'.exitThread.trans h.exitThread
  destroying := h'.destroying.trans h.destroying
  dialled := h'.dialled.trans h.dialled
  flags := h'.flags.trans h.flags
  listening hholder hexit :=
    (h'.listening (h.holder.2 hholder) (h.exitThread.trans hexit)).trans (h.listening hholder hexit)
  absent := h'.absent.trans h.absent
  peers habsent := (h'.peers (h.absent.2 habsent)).trans (h.peers habsent)

theorem ListenerRely.refl (w : World) : ListenerRely w w :=
  ⟨Iff.rfl, fun _ => rfl, Iff.rfl, Iff.rfl, id, rfl, rfl, rfl⟩

theorem ListenerRely.trans {w₁ w₂ w₃ : World} (h : ListenerRely w₁ w₂)
    (h' : ListenerRely w₂ w₃) : ListenerRely w₁ w₃ where
  holder := h'.holder.trans h.holder
  manager hholder := (h'.manager (h.holder.2 hholder)).trans (h.manager hholder)
  running := h'.running.trans h.running
  published := h'.published.trans h.published
  exitThread := h'.exitThread ∘ h.exitThread
  peers := h'.peers.trans h.peers
  reading := h'.reading.trans h.reading
  untested := h'.untested.trans h.untested

/-- What a thread relies on. -/
def Rely : Party → World → World → Prop
  | .main => MainRely
  | .listener => ListenerRely

/-! ## When an operation is due -/

/-- An operation of the main thread. Under `q` a null pointer is not used without a client. -/
def readyMain (q : Prop) : SimOp ℕ → World → Prop
  | .unlock _, w => w.holder = some .main
  | .spawn, w => w.thread = .absent
  | .crash, w => q → w.manager.intercomm ≠ none
  | _, _ => True

/-- An operation of the listener thread. -/
def readyListener : ListenerOp ℕ → World → Prop
  | .accept, w => w.thread = .running
  | .recv _ _, w => w.thread = .running
  | .close _, w => w.thread = .running
  | .unlock _, w => w.thread = .running ∧ w.holder = some .listener
  | .finish, w => w.thread = .published ∨ (w.thread = .running ∧ w.exitThread = true)
  | _, _ => True

/-- An operation of a thread. -/
def ready (X : Setup) (q : Prop) : (p : Party) → (system X).Op p → World → Prop
  | .main => readyMain q
  | .listener => readyListener

/-! ## What the threads know -/

/-- The listener thread runs and has not published a frame. -/
def Running (w : World) : Prop :=
  w.thread = .running ∧ w.holder ≠ some .listener

/-- It is done with all connections it has accepted. -/
def Clean (X : Setup) (t : Prop) (w : World) : Prop :=
  Running w ∧ w.untested = none ∧ (t → ∀ p ∈ w.peers, Settled X p)

/-- It is about to end. -/
def Leaving (X : Setup) (t : Prop) (w : World) : Prop :=
  (w.thread = .published ∨ (w.thread = .running ∧ w.exitThread = true)) ∧
    w.holder ≠ some .listener ∧ (t → ∀ p ∈ w.peers, Settled X p)

/-- What the listener thread knows between two rounds of its loops. -/
def listenerPost (X : Setup) (t : Prop) : Listener.Label → World → Prop
  | .waiting, w => (w.thread ≠ .running ∧ w.thread ≠ .published) ∧ w.holder ≠ some .listener ∧
      w.untested = none
  | .listening, w => Clean X t w
  | .accepting, w => Clean X t w
  | .leaving, w => Leaving X t w ∧ w.untested = none

/-- The main thread is between two calls of `process()`. -/
def Between (w : World) : Prop :=
  w.holder ≠ some .main ∧ w.exitThread = false ∧ w.destroying = false

/-- The destructor has answered all clients, and no listener thread is left. -/
def Finalized (w : World) : Prop :=
  w.thread = .absent ∧ ∀ p ∈ w.peers, ∀ port,
    p.published = some (port, Command.connect.toInt32) → Answered w port

/-- What the main thread knows between two calls. -/
def mainPost : MainLabel → World → Prop
  | .running _, w => Between w
  | .finalized _ result, w => result = .ok () → Finalized w

/-- What a thread knows between two rounds of its code. -/
def between (X : Setup) (t : Prop) : (p : Party) → (system X).Label p → World → Prop
  | .main => mainPost
  | .listener => listenerPost X t

/-! ## The operations keep what the other thread relies on -/

theorem performMain_rely {q : Prop} {o : SimOp ℕ} {w w' : World} {r : o.Resp}
    (hready : readyMain q o w) (h : performMain o w r w') : ListenerRely w w' := by
  cases o with
  | lock =>
      obtain ⟨hholder, -, rfl⟩ := h
      exact { ListenerRely.refl w with
        holder := ⟨fun h => absurd h (by simp), fun h => absurd (hholder.symm.trans h) (by simp)⟩
        manager := fun _ => rfl }
  | unlock cm =>
      obtain rfl := h
      have hholder : w.holder = some .main := hready
      exact { ListenerRely.refl w with
        holder := ⟨fun h => absurd h (by simp), fun h => absurd (hholder.symm.trans h) (by simp)⟩
        manager := fun h => absurd (hholder.symm.trans h) (by simp) }
  | setExitThread =>
      obtain rfl := h
      exact { ListenerRely.refl w with exitThread := fun _ => rfl }
  | joinable =>
      obtain ⟨-, rfl⟩ := h
      exact .refl w'
  | join =>
      obtain ⟨hended, rfl⟩ := h
      exact { ListenerRely.refl w with
        running := by simp [hended]
        published := by simp [hended] }
  | spawn =>
      obtain rfl := h
      have habsent : w.thread = .absent := hready
      exact { ListenerRely.refl w with
        running := by simp [habsent]
        published := by simp [habsent] }
  | bcast buf =>
      obtain ⟨-, rfl⟩ := h
      exact .refl w'
  | connect host =>
      rcases h with ⟨e, -, rfl⟩ | ⟨-, rfl⟩
      · exact .refl w'
      · exact { ListenerRely.refl w with }
  | send comm kind data rank =>
      obtain rfl := h
      exact { ListenerRely.refl w with }
  | close comm | probe comm rank | probeAll comm | recv comm kind size rank =>
      obtain rfl := h
      exact .refl w'
  | crash => exact absurd h id

theorem performListener_rely {o : ListenerOp ℕ} {w w' : World} {r : o.Resp}
    (hready : readyListener o w) (h : performListener o w r w') : MainRely w w' := by
  cases o with
  | begin =>
      obtain ⟨hcreated, rfl⟩ := h
      exact { MainRely.refl w with
        listening := fun _ _ => by simp [Thread.Listening, hcreated]
        absent := by simp [hcreated]
        peers := fun _ => rfl }
  | openSocket | closeSocket =>
      obtain rfl := h
      exact .refl w'
  | exitThread =>
      obtain ⟨-, rfl⟩ := h
      exact { MainRely.refl w with }
  | accept =>
      have hrunning : w.thread = .running := hready
      rcases h with ⟨e, -, rfl⟩ | ⟨-, rfl⟩ | ⟨frame, arrived, -, rfl⟩
      · exact .refl w'
      · exact .refl w'
      · exact { MainRely.refl w with
          peers := fun habsent => absurd (hrunning.symm.trans habsent) (by simp) }
  | recv i size =>
      have hrunning : w.thread = .running := hready
      obtain ⟨p, -, -, -, rfl⟩ := h
      exact { MainRely.refl w with
        peers := fun habsent => absurd (hrunning.symm.trans habsent) (by simp) }
  | close i =>
      have hrunning : w.thread = .running := hready
      obtain rfl := h
      exact { MainRely.refl w with
        peers := fun habsent => absurd (hrunning.symm.trans habsent) (by simp) }
  | lock =>
      obtain ⟨hholder, -, rfl⟩ := h
      exact { MainRely.refl w with
        holder := ⟨fun h => absurd h (by simp), fun h => absurd (hholder.symm.trans h) (by simp)⟩ }
  | unlock cm =>
      obtain ⟨hrunning, hholder⟩ := hready
      obtain rfl := h
      have hne : w.holder ≠ some .main := by simp [hholder]
      exact {
        holder := ⟨fun h => absurd h (by simp), fun h => absurd h hne⟩
        manager := fun h => absurd h hne
        newer := fun h => absurd h hne
        exitThread := rfl
        destroying := rfl
        dialled := rfl
        flags := rfl
        listening := fun h => absurd h hne
        absent := by simp [hrunning]
        peers := fun habsent => absurd (hrunning.symm.trans habsent) (by simp) }
  | finish =>
      obtain rfl := h
      have hne : w.thread ≠ .absent := by
        rcases hready with h | ⟨h, -⟩ <;> simp [h]
      exact { MainRely.refl w with
        listening := fun _ hexit => by
          rcases hready with h | ⟨-, h⟩
          · simp [Thread.Listening, h]
          · rw [hexit] at h
            exact absurd h (by simp)
        absent := by simp [hne]
        peers := fun habsent => absurd habsent hne }
  | throw e => exact absurd h id
  | overrun => exact absurd h id

/-- The proof outline. -/
@[reducible] def outline (X : Setup) (q t : Prop) : ((system X).guarded (Cond X q t)).Proof where
  inv := Inv X q t
  rely := Rely
  ready := ready X q
  post := between X t
  rely_refl
    | .main => MainRely.refl
    | .listener => ListenerRely.refl
  rely_trans
    | .main => fun _ _ _ => MainRely.trans
    | .listener => fun _ _ _ => ListenerRely.trans

variable {X : Setup} {q t : Prop}

theorem main_op {o : SimOp ℕ} {pre : World → Prop} {Q : o.Resp → World → Prop}
    (hstable : (outline X q t).Stable .main pre)
    (hready : ∀ w, Inv X q t w → pre w → readyMain q o w)
    (hstep : ∀ w r w', Inv X q t w → pre w → performMain o w r w' → (q → Served X .main o w r) →
      Inv X q t w' ∧ Q r w') :
    (outline X q t).Triple .main pre (Prog.op o) Q := by
  refine Proof.Triple.op hstable hready ?_
  rintro w r w' hinv hpre ⟨hperform, hcond⟩
  obtain ⟨hinv', hQ⟩ := hstep w r w' hinv hpre hperform hcond.1
  refine ⟨⟨hinv', fun j hj => ?_⟩, hQ⟩
  cases j with
  | main => exact absurd rfl hj
  | listener => exact performMain_rely (hready w hinv hpre) hperform

theorem listener_op {o : ListenerOp ℕ} {pre : World → Prop} {Q : o.Resp → World → Prop}
    (hstable : (outline X q t).Stable .listener pre)
    (hready : ∀ w, Inv X q t w → pre w → readyListener o w)
    (hstep : ∀ w r w', Inv X q t w → pre w → performListener o w r w' →
      (q → Served X .listener o w r) ∧ (t → Tested X .listener o w r) →
      Inv X q t w' ∧ Q r w') :
    (outline X q t).Triple .listener pre (Prog.op o) Q := by
  refine Proof.Triple.op hstable hready ?_
  rintro w r w' hinv hpre ⟨hperform, hcond⟩
  obtain ⟨hinv', hQ⟩ := hstep w r w' hinv hpre hperform hcond
  refine ⟨⟨hinv', fun j hj => ?_⟩, hQ⟩
  cases j with
  | main => exact performListener_rely (hready w hinv hpre) hperform
  | listener => exact absurd rfl hj

end Serving

end LibIS
