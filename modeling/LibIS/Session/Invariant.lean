import LibIS.Session.History

set_option autoImplicit false

/-! # Sessions: the invariant

`Inv` says what holds at any time, `Quiet` what holds of the fields that the mutex guards while the
main thread does not hold it. `MainRely`, `ListenerRely` and `ClientRely` say what each party may
rely on while the others go on; what a party does keeps to it, if the party finds its operation
ready. -/

open ByteCodec

namespace LibIS

namespace Session

/-- What a client sends to the listening socket. -/
def frameBytes (X : Setup) (i : ℕ) : Bytes :=
  intBytes (Int32.ofNat ((X.port i).bytes.length + 1)) ++ ((X.port i).bytes ++ [0]) ++
    intBytes connectCmd

/-- What holds before finalization while the main thread does not hold the mutex. -/
inductive Quiet (X : Setup) (w : World) : Prop
  /-- no client, and a listener that has not published a frame yet -/
  | closed (hcomm : w.manager.intercomm = none) (hquery : w.manager.newQuery = false)
      (hcommand : w.manager.clientCommand ≠ connectCmd)
      (hreplied : w.issued.length = w.replied.length) (hopen : openClient w.issued = none)
      (hlistener : w.published < w.spawned)
  /-- a client has asked to connect -/
  | offered (i : ℕ) (hcomm : w.manager.intercomm = none) (hquery : w.manager.newQuery = true)
      (hcommand : w.manager.clientCommand = connectCmd) (hport : w.manager.clientPort = X.port i)
      (hlinked : w.linked i = false) (htakes : w.takes.length = w.replied.length)
      (hlast : w.issued[w.replied.length]? = some ⟨i, connectCmd⟩)
      (hlistener : w.published = w.spawned)
  /-- a client is connected -/
  | connected (i : ℕ) (hcomm : w.manager.intercomm = some i) (hquery : w.manager.newQuery = false)
      (htakes : w.takes.length = w.replied.length)
      (hopen : openClient (w.issued.take w.replied.length) = some i)
      (hlistener : w.published = w.spawned)

/-- What else happens to the world does not matter. -/
theorem Quiet.congr {X : Setup} {w w' : World} (h : Quiet X w) (hmanager : w'.manager = w.manager)
    (hlinked : w'.linked = w.linked) (hissued : w'.issued = w.issued) (htakes : w'.takes = w.takes)
    (hreplied : w'.replied = w.replied) (hpublished : w'.published = w.published)
    (hspawned : w'.spawned = w.spawned) : Quiet X w' := by
  cases h with
  | closed =>
      apply Quiet.closed <;>
        simp only [hmanager, hissued, hreplied, hpublished, hspawned] <;> assumption
  | offered i =>
      apply Quiet.offered i <;>
        simp only [hmanager, hlinked, hissued, htakes, hreplied, hpublished, hspawned] <;>
        assumption
  | connected i =>
      apply Quiet.connected i <;>
        simp only [hmanager, hissued, htakes, hreplied, hpublished, hspawned] <;> assumption

/-- Every rank of client `i` has entered `n` barriers. -/
def Entered (X : Setup) (i n : ℕ) (w : World) : Prop :=
  ∀ c, c < X.size i → n ≤ w.arrived i c

/-- What holds at any time. -/
structure Inv (X : Setup) (w : World) : Prop where
  sessions : Sessions w.issued
  takes_le : w.takes.length ≤ w.issued.length
  issued_le : w.issued.length ≤ w.replied.length + 1
  replied : w.replied <+: w.takes.map Taker.reply
  /-- only the destructor's command is the last of all -/
  processes : .destructor ∉ w.takes.dropLast
  processing : w.destroying = false → .destructor ∉ w.takes
  upRoot : ∀ i, (w.up i 0).sent <+: asks (commandsOf i w.issued)
  upOther : ∀ i c, c ≠ 0 → (w.up i c).sent = []
  downRoot : ∀ i, (w.down i 0).sent <+: answers X.snaps (answeredOf i w.issued w.takes)
  quits : ∀ i, (quitFlags (w.down i 0).sent).length =
    (commandsOf i (w.issued.take w.replied.length)).length
  downTaken : ∀ i, (w.down i 0).taken ≤ (w.down i 0).sent.length
  dialsOnce : w.dials.sent.Nodup
  dialsTaken : w.dials.taken ≤ w.dials.sent.length
  /-- a client whose connection has not been accepted yet -/
  untouched : ∀ i, i ∈ w.dials.sent.take w.dials.taken ∨
    (w.frame i).taken = 0 ∧ commandsOf i w.issued = []
  frames : ∀ i, (w.frame i).sent <+: frameBytes X i
  dialling : ∀ i, i ∈ w.dials.sent → w.opened i = true ∨ w.linked i = true
  ports : ∀ i j, w.opened i = true → w.opened j = true → X.port i = X.port j → i = j
  linked : ∀ i, w.linked i = true → commandsOf i (w.issued.take w.takes.length) ≠ []
  ended_le : w.ended ≤ w.started
  started_le : w.started ≤ w.spawned
  spawned_le : w.spawned ≤ w.ended + 1
  published_le : w.published ≤ w.started
  /-- a listener ends by publishing a frame -/
  ended_published : w.exitThread = false → w.ended ≤ w.published
  finalizing : w.destroying = true → w.exitThread = true ∧ w.ended = w.spawned
  clientCast : ∀ i, w.clientCast i <+:
    intBytes 0 :: (answeredOf i w.issued w.takes).map (fun e => intBytes e.2.reply)
  /-- a client gives its next command when all its ranks are done with the last one -/
  barriers : ∀ i c, c < X.size i → 2 * (commandsOf i w.issued).length ≤ w.arrived i c + 3
  quiet : w.destroying = false → w.holder ≠ some .main → Quiet X w

/-! ## What the parties rely on -/

/-- What the main thread relies on. -/
structure MainRely (w w' : World) : Prop where
  joinable : w'.joinable = w.joinable
  exitThread : w'.exitThread = w.exitThread
  destroying : w'.destroying = w.destroying
  calls : w'.calls = w.calls
  spawned : w'.spawned = w.spawned
  takes : w'.takes = w.takes
  replied : w'.replied = w.replied
  linked : w'.linked = w.linked
  upTaken : ∀ i c, (w'.up i c).taken = (w.up i c).taken
  downSent : ∀ i c, (w'.down i c).sent = (w.down i c).sent
  holder : w'.holder = some .main ↔ w.holder = some .main
  published : w.holder = some .main → w'.published = w.published
  issued : w.issued <+: w'.issued
  closed : w.holder = some .main → openClient w.issued = none → w'.issued = w.issued
  finalized : w.destroying = true → openClient w.issued = none ∨ .destructor ∈ w.takes →
    w'.issued = w.issued
  ended : w.ended ≤ w'.ended

/-- What the listener thread relies on. -/
structure ListenerRely (w w' : World) : Prop where
  started : w'.started = w.started
  ended : w'.ended = w.ended
  published : w'.published = w.published
  reading : w'.reading = w.reading
  dialsTaken : w'.dials.taken = w.dials.taken
  dialsSent : w.dials.sent <+: w'.dials.sent
  frameTaken : ∀ i, (w'.frame i).taken = (w.frame i).taken
  holder : w'.holder = some .listener ↔ w.holder = some .listener
  manager : w.holder = some .listener → w'.manager = w.manager
  exitThread : w.exitThread = true → w'.exitThread = true
  commands : ∀ i, commandsOf i w.issued = [] → commandsOf i w'.issued = []

/-- What rank `c` of client `i` relies on. -/
structure ClientRely (i c : ℕ) (w w' : World) : Prop where
  upSent : (w'.up i c).sent = (w.up i c).sent
  downTaken : (w'.down i c).taken = (w.down i c).taken
  clientHeard : w'.clientHeard i c = w.clientHeard i c
  arrived : w'.arrived i c = w.arrived i c
  arrivals : ∀ c', w.arrived i c' ≤ w'.arrived i c'
  clientCast : w.clientCast i <+: w'.clientCast i
  rootCast : c = 0 → w'.clientCast i = w.clientCast i
  rootFrame : c = 0 → (w'.frame i).sent = (w.frame i).sent
  rootDial : c = 0 → i ∉ w.dials.sent → i ∉ w'.dials.sent
  rootCommands : c = 0 → commandsOf i w'.issued = commandsOf i w.issued ∨
    commandsOf i w.issued = [] ∧ commandsOf i w'.issued = [connectCmd]
  issued : w.issued <+: w'.issued
  takes : w.takes <+: w'.takes
  port : w.opened i = true ∨ w.linked i = true → w'.opened i = true ∨ w'.linked i = true

/-- What a party relies on. -/
def Rely (X : Setup) : Party X → World → World → Prop
  | .main => MainRely
  | .listener => ListenerRely
  | .client i c => ClientRely i c

theorem MainRely.refl (w : World) : MainRely w w where
  joinable := rfl
  exitThread := rfl
  destroying := rfl
  calls := rfl
  spawned := rfl
  takes := rfl
  replied := rfl
  linked := rfl
  upTaken _ _ := rfl
  downSent _ _ := rfl
  holder := Iff.rfl
  published _ := rfl
  issued := List.prefix_refl _
  closed _ _ := rfl
  finalized _ _ := rfl
  ended := le_refl _

theorem MainRely.trans {w₁ w₂ w₃ : World} (h : MainRely w₁ w₂) (h' : MainRely w₂ w₃) :
    MainRely w₁ w₃ where
  joinable := h'.joinable.trans h.joinable
  exitThread := h'.exitThread.trans h.exitThread
  destroying := h'.destroying.trans h.destroying
  calls := h'.calls.trans h.calls
  spawned := h'.spawned.trans h.spawned
  takes := h'.takes.trans h.takes
  replied := h'.replied.trans h.replied
  linked := h'.linked.trans h.linked
  upTaken i c := (h'.upTaken i c).trans (h.upTaken i c)
  downSent i c := (h'.downSent i c).trans (h.downSent i c)
  holder := h'.holder.trans h.holder
  published hw := (h'.published (h.holder.2 hw)).trans (h.published hw)
  issued := h.issued.trans h'.issued
  closed hw hopen := by
    have hfirst := h.closed hw hopen
    exact (h'.closed (h.holder.2 hw) (hfirst ▸ hopen)).trans hfirst
  finalized hw hlast := by
    have hfirst := h.finalized hw hlast
    refine (h'.finalized (h.destroying.trans hw) ?_).trans hfirst
    rwa [hfirst, h.takes]
  ended := h.ended.trans h'.ended

theorem ListenerRely.refl (w : World) : ListenerRely w w where
  started := rfl
  ended := rfl
  published := rfl
  reading := rfl
  dialsTaken := rfl
  dialsSent := List.prefix_refl _
  frameTaken _ := rfl
  holder := Iff.rfl
  manager _ := rfl
  exitThread := id
  commands _ := id

theorem ListenerRely.trans {w₁ w₂ w₃ : World} (h : ListenerRely w₁ w₂)
    (h' : ListenerRely w₂ w₃) : ListenerRely w₁ w₃ where
  started := h'.started.trans h.started
  ended := h'.ended.trans h.ended
  published := h'.published.trans h.published
  reading := h'.reading.trans h.reading
  dialsTaken := h'.dialsTaken.trans h.dialsTaken
  dialsSent := h.dialsSent.trans h'.dialsSent
  frameTaken i := (h'.frameTaken i).trans (h.frameTaken i)
  holder := h'.holder.trans h.holder
  manager hw := (h'.manager (h.holder.2 hw)).trans (h.manager hw)
  exitThread hw := h'.exitThread (h.exitThread hw)
  commands i hi := h'.commands i (h.commands i hi)

theorem ClientRely.refl (i c : ℕ) (w : World) : ClientRely i c w w where
  upSent := rfl
  downTaken := rfl
  clientHeard := rfl
  arrived := rfl
  arrivals _ := le_refl _
  clientCast := List.prefix_refl _
  rootCast _ := rfl
  rootFrame _ := rfl
  rootDial _ := id
  rootCommands _ := .inl rfl
  issued := List.prefix_refl _
  takes := List.prefix_refl _
  port := id

theorem ClientRely.trans {i c : ℕ} {w₁ w₂ w₃ : World} (h : ClientRely i c w₁ w₂)
    (h' : ClientRely i c w₂ w₃) : ClientRely i c w₁ w₃ where
  upSent := h'.upSent.trans h.upSent
  downTaken := h'.downTaken.trans h.downTaken
  clientHeard := h'.clientHeard.trans h.clientHeard
  arrived := h'.arrived.trans h.arrived
  arrivals c' := (h.arrivals c').trans (h'.arrivals c')
  clientCast := h.clientCast.trans h'.clientCast
  rootCast hc := (h'.rootCast hc).trans (h.rootCast hc)
  rootFrame hc := (h'.rootFrame hc).trans (h.rootFrame hc)
  rootDial hc hi := h'.rootDial hc (h.rootDial hc hi)
  rootCommands hc := by
    rcases h.rootCommands hc with hsame | ⟨hnone, hfirst⟩
    · rw [← hsame]
      exact h'.rootCommands hc
    · rcases h'.rootCommands hc with hsame | ⟨hnone', -⟩
      · exact .inr ⟨hnone, hsame.trans hfirst⟩
      · rw [hfirst] at hnone'
        exact absurd hnone' (by simp)
  issued := h.issued.trans h'.issued
  takes := h.takes.trans h'.takes
  port hw := h'.port (h.port hw)

theorem Rely.refl {X : Setup} (j : Party X) (w : World) : Rely X j w w := by
  cases j with
  | main => exact MainRely.refl w
  | listener => exact ListenerRely.refl w
  | client i c => exact ClientRely.refl i c w

theorem prefix_if_concat {α : Type} (p : Prop) [Decidable p] (l l' : List α) :
    l <+: if p then l ++ l' else l := by
  split
  · exact List.prefix_append l l'
  · exact List.prefix_refl l

/-! ## When an operation is ready -/

/-- What must hold when an operation of the main thread is due. The mutex is released when every
    command that has been taken has been replied to. A listener thread is waited for only when it
    has published a frame, unless the manager is destroyed. -/
def readyMain : SimOp ℕ → World → Prop
  | .unlock _, w => w.holder = some .main ∧ w.takes.length = w.replied.length
  | .join, w => w.exitThread = true ∨ w.published = w.spawned
  | .spawn, w => w.joinable = false
  | .send _ kind _ rank, w => rank = 0 ∧ (kind = .data → w.destroying = false)
  | .recv comm kind size rank, w =>
      ∀ m, (w.up comm rank).next? = some m → m.kind = kind ∧ m.data.length = size
  | .crash, _ => False
  | _, _ => True

/-- What must hold when an operation of the listener thread is due. A frame is published when there
    is neither a client nor a command that has not been taken. -/
def readyListener : ListenerOp ℕ → World → Prop
  | .unlock cm, w =>
      (w.holder = some .listener ∧ w.destroying = false) ∧
        (commandsOf w.reading w.issued = [] ∧ cm.clientCommand = connectCmd) ∧
        w.manager.intercomm = none ∧ w.manager.newQuery = false
  | .overrun, _ => False
  | _, _ => True

/-- What must hold when an operation of rank `c` of client `i` is due. No rank asks for data after
    the client has been told to quit. Only rank 0 turns to rank 0 of the simulation, with a command
    only when it is its turn. -/
def readyClient (i c : ℕ) : ClientOp ℕ → World → Prop
  | .dial, _ => c = 0
  | .sendSocket _, _ => c = 0
  | .send _ kind _ rank, w =>
      (kind = .ping → ∀ quit ∈ quitFlags (w.down i 0).sent, quit = intBytes 0) ∧
        (rank = 0 → c = 0 ∧
          (kind = .command → openClient w.issued = some i ∧ .destructor ∉ w.takes))
  | .recv _ kind size rank, w =>
      rank = 0 → c = 0 ∧
        ∀ m, (w.down i 0).next? = some m → m.kind = kind ∧ m.data.length = size
  | .crash, _ => False
  | _, _ => True

/-! ## What a party does to the others -/

section Perform

variable {X : Setup} {w w' : World}

/-- The main thread does nothing that the others do not rely on. -/
theorem performMain_rely {o : SimOp ℕ} {r : o.Resp} (hready : readyMain o w)
    (h : performMain X o w r w') (j : Party X) (hj : j ≠ .main) : Rely X j w w' := by
  cases o with
  | lock =>
      obtain ⟨hholder, -, rfl⟩ := h
      cases j with
      | main => exact absurd rfl hj
      | listener => exact { ListenerRely.refl w with holder := by simp [hholder] }
      | client i c => exact { ClientRely.refl i c w with takes := prefix_if_concat _ _ _ }
  | unlock cm =>
      simp only [performMain] at h
      simp only [readyMain] at hready
      subst h
      cases j with
      | main => exact absurd rfl hj
      | listener =>
          exact { ListenerRely.refl w with
            holder := by simp [hready.1]
            manager := by simp [hready.1] }
      | client i c => exact { ClientRely.refl i c w with }
  | setExitThread =>
      simp only [performMain] at h
      subst h
      cases j with
      | main => exact absurd rfl hj
      | listener => exact { ListenerRely.refl w with exitThread := fun _ => rfl }
      | client i c => exact { ClientRely.refl i c w with }
  | spawn =>
      simp only [performMain] at h
      subst h
      cases j with
      | main => exact absurd rfl hj
      | listener => exact { ListenerRely.refl w with }
      | client i c => exact { ClientRely.refl i c w with }
  | join =>
      obtain ⟨-, rfl⟩ := h
      cases j with
      | main => exact absurd rfl hj
      | listener => exact { ListenerRely.refl w with }
      | client i c => exact { ClientRely.refl i c w with }
  | joinable | bcast | probe =>
      obtain ⟨-, rfl⟩ := h
      exact Rely.refl j _
  | close =>
      simp only [performMain] at h
      subst h
      exact Rely.refl j _
  | probeAll =>
      obtain ⟨-, -, -, rfl⟩ := h
      exact Rely.refl j _
  | connect host =>
      obtain ⟨k, -, -, -, rfl⟩ := h
      cases j with
      | main => exact absurd rfl hj
      | listener => exact { ListenerRely.refl w with }
      | client i c =>
          refine { ClientRely.refl i c w with port := fun hport => ?_ }
          by_cases hi : i = k
          · simp [hi]
          · simpa only [Function.update_of_ne hi] using hport
  | send comm kind data rank =>
      simp only [performMain] at h
      subst h
      cases j with
      | main => exact absurd rfl hj
      | listener => exact { ListenerRely.refl w with }
      | client i c =>
          exact { ClientRely.refl i c w with
            downTaken := Channel.updateAt_push_taken _ _ _ _ _ _ }
  | recv comm kind size rank =>
      obtain ⟨m, -, -, rfl⟩ := h
      cases j with
      | main => exact absurd rfl hj
      | listener => exact { ListenerRely.refl w with }
      | client i c =>
          exact { ClientRely.refl i c w with
            upSent := Channel.updateAt_pop_sent _ _ _ _ _
            takes := prefix_if_concat _ _ _ }
  | crash => exact hready.elim

theorem performListener_rely {o : ListenerOp ℕ} {r : o.Resp} (hready : readyListener o w)
    (h : performListener o w r w') (j : Party X) (hj : j ≠ .listener) : Rely X j w w' := by
  have hsame : Rely X j w w := Rely.refl j w
  cases o with
  | begin =>
      obtain ⟨-, rfl⟩ := h
      cases j with
      | main => exact { MainRely.refl w with }
      | listener => exact absurd rfl hj
      | client i c => exact { ClientRely.refl i c w with }
  | openSocket =>
      rcases h with ⟨e, -, rfl⟩ | ⟨-, rfl⟩
      · exact hsame
      · cases j with
        | main => exact { MainRely.refl w with }
        | listener => exact absurd rfl hj
        | client i c => exact { ClientRely.refl i c w with }
  | exitThread =>
      obtain ⟨-, rfl⟩ := h
      exact hsame
  | accept =>
      rcases h with ⟨e, -, rfl⟩ | ⟨-, rfl⟩ | ⟨k, -, -, rfl⟩
      · exact hsame
      · exact hsame
      · cases j with
        | main => exact { MainRely.refl w with }
        | listener => exact absurd rfl hj
        | client i c => exact { ClientRely.refl i c w with }
  | recv k size =>
      rcases h with ⟨-, rfl⟩ | ⟨bs, -, -, -, rfl⟩
      · exact hsame
      · cases j with
        | main => exact { MainRely.refl w with }
        | listener => exact absurd rfl hj
        | client i c =>
            refine { ClientRely.refl i c w with rootFrame := fun _ => ?_ }
            by_cases hi : i = k
            · subst hi
              simp only [Function.update_self, Channel.advance_sent]
            · simp only [Function.update_of_ne hi]
  | close =>
      simp only [performListener] at h
      subst h
      exact hsame
  | lock =>
      obtain ⟨hholder, -, rfl⟩ := h
      cases j with
      | main => exact { MainRely.refl w with holder := by simp [hholder] }
      | listener => exact absurd rfl hj
      | client i c => exact { ClientRely.refl i c w with }
  | unlock cm =>
      simp only [performListener] at h
      obtain ⟨⟨hholder, hdestroying⟩, ⟨hnew, hcommand⟩, -⟩ := hready
      subst h
      cases j with
      | main =>
          exact { MainRely.refl w with
            holder := by simp [hholder]
            published := by simp [hholder]
            issued := List.prefix_append _ _
            closed := by simp [hholder]
            finalized := by simp [hdestroying] }
      | listener => exact absurd rfl hj
      | client i c =>
          refine { ClientRely.refl i c w with
            rootCommands := fun _ => ?_
            issued := List.prefix_append _ _ }
          simp only [commandsOf_concat, hcommand]
          by_cases hi : w.reading = i
          · rw [hi] at hnew
            exact .inr ⟨hnew, by rw [hnew, if_pos hi, List.nil_append]⟩
          · exact .inl (by rw [if_neg hi, List.append_nil])
  | closeSocket =>
      simp only [performListener] at h
      subst h
      cases j with
      | main => exact { MainRely.refl w with }
      | listener => exact absurd rfl hj
      | client i c => exact { ClientRely.refl i c w with }
  | finish =>
      simp only [performListener] at h
      subst h
      cases j with
      | main => exact { MainRely.refl w with ended := Nat.le_succ _ }
      | listener => exact absurd rfl hj
      | client i c => exact { ClientRely.refl i c w with }
  | throw e => exact h.elim
  | overrun => exact hready.elim

theorem performClient_rely {i : ℕ} {c : Fin (X.size i)} {o : ClientOp ℕ} {r : o.Resp}
    (hready : readyClient i c o w) (h : performClient X i c o w r w') (j : Party X)
    (hj : j ≠ .client i c) : Rely X j w w' := by
  have hsame : Rely X j w w := Rely.refl j w
  have hne : ∀ {i'} {c' : Fin (X.size i')}, Party.client i' c' ≠ Party.client i c →
      ¬ (i' = i ∧ (c' : ℕ) = c) := by
    rintro i' c' hne ⟨rfl, hc⟩
    exact hne (congrArg _ (Fin.ext hc))
  -- the roots are of different clients
  have hroots : ∀ {i'} {c' : Fin (X.size i')}, Party.client i' c' ≠ Party.client i c →
      (c' : ℕ) = 0 → (c : ℕ) = 0 → i' ≠ i :=
    fun hj hc' hc hi => hne hj ⟨hi, hc'.trans hc.symm⟩
  cases o with
  | listen =>
      obtain ⟨-, h⟩ := h
      split at h
      · obtain ⟨-, rfl⟩ := h
        cases j with
        | main => exact { MainRely.refl w with }
        | listener => exact { ListenerRely.refl w with }
        | client i' c' =>
            refine { ClientRely.refl i' c' w with port := fun hport => ?_ }
            by_cases hi : i' = i
            · simp [hi]
            · simpa only [Function.update_of_ne hi] using hport
      · subst h
        exact hsame
  | portName | remoteSize | leave =>
      obtain ⟨-, rfl⟩ := h
      exact hsame
  | accept =>
      obtain ⟨-, rfl⟩ := h
      exact hsame
  | close | closeSocket =>
      simp only [performClient] at h
      subst h
      exact hsame
  | dial =>
      rcases h with ⟨e, -, rfl⟩ | ⟨-, -, rfl⟩
      · exact hsame
      · cases j with
        | main => exact { MainRely.refl w with }
        | listener => exact { ListenerRely.refl w with dialsSent := List.prefix_append _ _ }
        | client i' c' =>
            refine { ClientRely.refl i' c' w with rootDial := fun hc hi => ?_ }
            have hother : i' ≠ i := hroots hj hc hready
            simpa using ⟨hi, hother⟩
  | sendSocket data =>
      rcases h with ⟨-, rfl⟩ | ⟨k, -, -, rfl⟩
      · exact hsame
      · cases j with
        | main => exact { MainRely.refl w with }
        | listener =>
            refine { ListenerRely.refl w with frameTaken := fun i' => ?_ }
            by_cases hi : i' = i
            · subst hi
              simp only [Function.update_self, Channel.pushAll_taken]
            · simp only [Function.update_of_ne hi]
        | client i' c' =>
            refine { ClientRely.refl i' c' w with rootFrame := fun hc => ?_ }
            have hother : i' ≠ i := hroots hj hc hready
            simp only [Function.update_of_ne hother]
  | arrive =>
      simp only [performClient] at h
      subst h
      cases j with
      | main => exact { MainRely.refl w with }
      | listener => exact { ListenerRely.refl w with }
      | client i' c' =>
          refine { ClientRely.refl i' c' w with
            arrived := ?_
            arrivals := fun _ => le_updateAt_succ _ _ _ _ _ }
          simp only [updateAt_apply, if_neg (hne hj)]
  | bcast buf =>
      simp only [performClient] at h
      split at h
      · next hroot =>
        obtain ⟨-, rfl⟩ := h
        cases j with
        | main => exact { MainRely.refl w with }
        | listener => exact { ListenerRely.refl w with }
        | client i' c' =>
            refine { ClientRely.refl i' c' w with clientCast := ?_, rootCast := fun hc => ?_ }
            · by_cases hi : i' = i
              · subst hi
                simp only [Function.update_self]
                exact List.prefix_append _ _
              · simp only [Function.update_of_ne hi]
                exact List.prefix_refl _
            · have hother : i' ≠ i := hroots hj hc hroot
              simp only [Function.update_of_ne hother]
      · obtain ⟨-, rfl⟩ := h
        cases j with
        | main => exact { MainRely.refl w with }
        | listener => exact { ListenerRely.refl w with }
        | client i' c' =>
            refine { ClientRely.refl i' c' w with clientHeard := ?_ }
            simp only [updateAt_apply, if_neg (hne hj)]
  | send comm kind data rank =>
      simp only [performClient] at h
      split at h
      · next hrank =>
        -- only rank 0 turns to rank 0 of the simulation, and commands only in turn
        obtain ⟨hroot, hcommand⟩ := hready.2 hrank
        subst h
        cases j with
        | main =>
            refine { MainRely.refl w with
              upTaken := fun _ _ => Channel.updateAt_push_taken _ _ _ _ _ _
              issued := prefix_if_concat _ _ _
              closed := ?_
              finalized := ?_ }
            · -- a session is open, so nothing is claimed of the time between two
              intro _ hopen
              have hkind : kind ≠ .command := by
                intro hkind
                rw [(hcommand hkind).1] at hopen
                exact absurd hopen (by simp)
              simp only [if_neg hkind]
            · intro _ hlast
              have hkind : kind ≠ .command := by
                intro hkind
                rw [(hcommand hkind).1] at hlast
                exact hlast.elim (by simp) (hcommand hkind).2
              simp only [if_neg hkind]
        | listener =>
            refine { ListenerRely.refl w with commands := fun i' hnone => ?_ }
            dsimp only
            split
            · next hkind =>
              rw [commandsOf_concat, hnone]
              -- the client of the open session has given a command before
              obtain ⟨l, cmd, hl, -⟩ := openClient_eq_some (hcommand hkind).1
              split
              · next hi =>
                dsimp only at hi
                subst hi
                rw [hl, commandsOf_concat] at hnone
                exact absurd hnone (by simp)
              · rfl
            · exact hnone
        | client i' c' =>
            refine { ClientRely.refl i' c' w with
              upSent := ?_
              rootCommands := ?_
              issued := prefix_if_concat _ _ _ }
            · simp only [updateAt_apply, if_neg (hne hj)]
            · intro hc
              have hother : i ≠ i' := (hroots hj hc hroot).symm
              refine .inl ?_
              dsimp only
              split
              · rw [commandsOf_concat, if_neg hother, List.append_nil]
              · rfl
      · subst h
        exact hsame
  | recv comm kind size rank =>
      simp only [performClient] at h
      split at h
      · obtain ⟨m, -, -, rfl⟩ := h
        cases j with
        | main =>
            exact { MainRely.refl w with
              downSent := fun _ _ => Channel.updateAt_pop_sent _ _ _ _ _ }
        | listener => exact { ListenerRely.refl w with }
        | client i' c' =>
            refine { ClientRely.refl i' c' w with downTaken := ?_ }
            simp only [updateAt_apply, if_neg (hne hj)]
      · obtain ⟨-, rfl⟩ := h
        exact hsame
  | throw e => exact h.elim
  | crash => exact hready.elim

end Perform

end Session

end LibIS
