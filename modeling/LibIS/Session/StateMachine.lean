import LibIS.Session.ClientRanks
import LibIS.Session.MainThread
import LibIS.Session.ListenerThread
import LibIS.Session.Schedule

set_option autoImplicit false

/-! # Sessions: the state machine

The proof outline is valid, so it holds along every run. Seen from outside, while the mutex is free,
a session is in one of three states: a listener waits for a client, or a client has asked to
connect, or a client is connected. -/

open ByteCodec Prog ThreadSystem Proof

namespace LibIS

namespace Session

/-! ## The outline is valid -/

section Valid

variable (X : Setup)

theorem init_inv : Inv X World.init := by
  constructor
  case sessions => exact .nil
  case quiet =>
    intro _ _
    exact .closed rfl rfl (by decide) rfl rfl (by decide)
  case finalizing => exact fun h => absurd h (by decide)
  case untouched => exact fun i => .inr ⟨rfl, rfl⟩
  case clientCast => exact fun i => List.nil_prefix
  case downRoot => exact fun i => List.nil_prefix
  case upRoot => exact fun i => List.nil_prefix
  case frames => exact fun i => List.nil_prefix
  case replied => exact List.nil_prefix
  case dialsOnce => exact List.nodup_nil
  all_goals simp [World.init, Channel.empty, quitFlags]

theorem outline_valid : (outline X).Valid World.init (startLabels X) where
  inv_start := init_inv X
  post_start p := by
    cases p with
    | main =>
        refine ⟨by simp [NoThrow], by simp [World.init], ⟨rfl, rfl, rfl, rfl⟩, 0, ?_, rfl, rfl⟩
        exact ⟨le_refl 0, le_refl 0, rfl, fun j => by simp [World.init, Channel.empty],
          fun j => by simp [World.init, Channel.empty]⟩
    | listener => exact ⟨rfl, by simp [World.init]⟩
    | client i c =>
        refine ⟨fun _ => ⟨⟨.inl rfl, rfl, rfl, rfl, rfl⟩, by simp [World.init, Channel.empty]⟩,
          fun _ => ⟨rfl, rfl, List.nil_prefix⟩⟩
  post_stable p l := by
    cases p with
    | main =>
        cases l with
        | running calls =>
            rintro w w' ⟨hcalls, hholder, hflags, b, hsettled⟩ hrely -
            exact ⟨hcalls, fun hw => hholder (hrely.holder.1 hw), hflags.stable hrely, b,
              hsettled.stable hrely⟩
        | finalized calls result =>
            rintro w w' ⟨hcalls, hholder, hfinal⟩ hrely -
            exact ⟨hcalls, fun hw => hholder (hrely.holder.1 hw), hfinal.stable hrely⟩
    | listener =>
        cases l with
        | waiting =>
            rintro w w' ⟨hended, hholder⟩ hrely -
            refine ⟨?_, fun hw => hholder (hrely.holder.1 hw)⟩
            rw [hrely.started, hrely.ended]
            exact hended
        | listening => exact alive_stable
        | accepting => exact alive_stable
        | leaving => exact fun _ _ h hrely _ => Leaving.stable h hrely
    | client i c =>
        cases l with
        | start =>
            rintro w w' ⟨hroot, hother⟩ hrely -
            exact ⟨fun hc => ⟨(hroot hc).1.stable hrely hc, hrely.rootDial hc (hroot hc).2⟩,
              fun hc => (hother hc).stable hrely⟩
        | connected this quits queries =>
            rintro w w' ⟨hthis, hroot, hother⟩ hrely -
            refine ⟨hthis, fun hc => ?_, fun hc => ?_⟩
            · obtain ⟨es, hquits, ⟨hentered, hat⟩, hlast⟩ := hroot hc
              exact ⟨es, hquits, ⟨hentered.stable hrely, RootAt.stable hat hrely hc⟩, hlast⟩
            · obtain ⟨n, hn, hat⟩ := hother hc
              exact ⟨n, hn, hat.stable hrely⟩
        | gone quits =>
            rintro w w' ⟨hroot, hother⟩ hrely -
            refine ⟨fun hc => ?_, fun hc => ?_⟩
            · obtain ⟨es, asked, hquits, hat⟩ := hroot hc
              exact ⟨es, asked, hquits, hat.stable hrely hc⟩
            · obtain ⟨n, hat⟩ := hother hc
              exact ⟨n, hat.stable hrely⟩
  code_safe p l := by
    cases p with
    | main => exact mainCode_triple l
    | listener => exact listenForClient_triple l
    | client i c => exact clientCode_triple l

end Valid

/-! ## The states of a session -/

/-- A listener thread has been created that has not published a frame yet, nor ended. -/
def World.listenerRunning (w : World) : Prop :=
  w.published < w.spawned ∧ w.ended < w.spawned

/-- The listener thread that has been created last has published a frame. -/
def World.listenerFinished (w : World) : Prop :=
  w.published = w.spawned

/-- What the fields of the manager say about the session. -/
structure SessionState (w : World) : Prop where
  newQuery : w.manager.newQuery = true →
    w.manager.intercomm = none ∧ w.listenerFinished ∧ w.manager.clientCommand = connectCmd
  intercomm : w.manager.intercomm ≠ none → w.manager.newQuery = false ∧ ¬ w.listenerRunning
  listening : w.listenerRunning → w.manager.intercomm = none ∧ w.manager.newQuery = false
  idle : w.manager.intercomm = none → w.manager.newQuery = false → w.listenerRunning

/-- Before finalization a session that is at rest is in one of its states. -/
theorem Quiet.sessionState {X : Setup} {w : World} (hinv : Inv X w) (h : Quiet X w)
    (hexit : w.exitThread = false) : SessionState w := by
  have hended := hinv.ended_published hexit
  cases h with
  | closed hcomm hquery _ _ _ hlistener =>
      exact {
        newQuery := fun hnew => absurd (hnew.symm.trans hquery) (by simp)
        intercomm := fun hne => absurd hcomm hne
        listening := fun _ => ⟨hcomm, hquery⟩
        idle := fun _ _ => ⟨hlistener, hended.trans_lt hlistener⟩ }
  | offered i hcomm hquery hcommand _ _ _ _ hlistener =>
      exact {
        newQuery := fun _ => ⟨hcomm, hlistener, hcommand⟩
        intercomm := fun hne => absurd hcomm hne
        listening := fun hrun => absurd hlistener hrun.1.ne
        idle := fun _ hold => absurd (hquery.symm.trans hold) (by simp) }
  | connected i hcomm hquery _ _ hlistener =>
      exact {
        newQuery := fun hnew => absurd (hnew.symm.trans hquery) (by simp)
        intercomm := fun _ => ⟨hquery, fun hrun => hrun.1.ne hlistener⟩
        listening := fun hrun => absurd hlistener hrun.1.ne
        idle := fun hnone => absurd (hcomm.symm.trans hnone) (by simp) }

/-- **The session state machine.** Along every run, before finalization and whenever the mutex is
    free, the fields of the manager are those of a session state. Hence no call of `process()`
    throws and the destructor does not, a null pointer is never used, and before finalization a
    listener thread is waited for only when it has published its frame. -/
theorem session_states (X : Setup) (cfg : (system X).Config)
    (hcfg : (system X).Reachable ((system X).start World.init (startLabels X)) cfg) :
    (cfg.shared.exitThread = false → cfg.shared.holder = none → SessionState cfg.shared) ∧
      (∀ calls, cfg.control .main = .ret (.running calls) → ∀ b ∈ calls, ∀ e, b ≠ .threw e) ∧
      (∀ calls result, cfg.control .main = .ret (.finalized calls result) →
        (∀ b ∈ calls, ∀ e, b ≠ .threw e) ∧ result = .ok ()) ∧
      (∀ k, cfg.control .main ≠ .vis .crash k) ∧
      (∀ k, cfg.control .main = .vis .join k → cfg.shared.exitThread = false →
        cfg.shared.listenerFinished) := by
  have hholds := sound (outline_valid X) hcfg
  refine ⟨?_, ?_, ?_, ?_, ?_⟩
  · intro hexit hholder
    have hdestroying : cfg.shared.destroying = false := by
      by_contra hne
      have hstopped := (hholds.inv.finalizing (by simpa using hne)).1
      rw [hexit] at hstopped
      exact absurd hstopped (by simp)
    have hquiet := hholds.inv.quiet hdestroying (by simp [hholder])
    exact hquiet.sessionState hholds.inv hexit
  · intro calls hctl
    exact (hholds.post hctl).1
  · intro calls result hctl
    exact (hholds.post hctl).1
  · intro k hctl
    exact hholds.ready hctl
  · intro k hctl hexit
    exact (hholds.ready hctl).resolve_left (by simp [hexit])

/-- A session from its start to its end: a client has asked to connect; it is connected; it has
    queried and disconnected, and the next listener runs. -/
theorem session_states_session :
    ((after asking).shared.manager.newQuery = true ∧ SessionState (after asking).shared) ∧
      ((after connecting).shared.manager.intercomm = some 0 ∧
        SessionState (after connecting).shared) ∧
      (after leaving).control .main = .ret (.running [.connect, .query, .disconnect]) ∧
      (after leaving).shared.listenerRunning ∧ SessionState (after leaving).shared := by
  have hasking := (session_states pairSetup _ (after_reachable asking)).1
  have hconnecting := (session_states pairSetup _ (after_reachable connecting)).1
  have hleaving := (session_states pairSetup _ (after_reachable leaving)).1
  have hmain : ((after leaving).control .main).result? =
      some (.running [.connect, .query, .disconnect]) := by decide +kernel
  exact ⟨⟨by decide +kernel, hasking (by decide +kernel) (by decide +kernel)⟩,
    ⟨by decide +kernel, hconnecting (by decide +kernel) (by decide +kernel)⟩,
    result?_eq_some hmain, ⟨by decide +kernel, by decide +kernel⟩,
    hleaving (by decide +kernel) (by decide +kernel)⟩

end Session

end LibIS
