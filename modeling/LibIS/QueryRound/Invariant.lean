import LibIS.QueryRound.History

set_option autoImplicit false

/-! # Rounds of queries: the invariant

`Inv` says what the channels hold at any time, `SimRely` and `ClientRely` what a rank may rely on
while the others go on. A rank only changes fields of its own, whatever it does
(`performSim_rely`, `performClient_rely`), so what is left to prove for a step is the invariant:
one lemma for each way the world changes. -/

open ByteCodec

namespace LibIS

namespace QueryRound

variable (M N : ℕ) (snaps : Snapshots)

/-- The calls of rank 0 that answer a query, as far as it has announced them. -/
def World.rounds (w : World) : List ℕ :=
  queryCalls (castCalls w.simCast)

/-- What holds at any time. -/
structure Inv (w : World) : Prop where
  casts : Casts w.simCast
  quitCast : ∀ m ∈ w.clientCast, m = intBytes 0
  upOwner : ∀ c s, ¬ InBlock M N c s → (w.up c s).sent = []
  upFollows : ∀ c s, Follows (upMessage c s) (w.up c s).sent
  upTaken : ∀ c s, (w.up c s).taken ≤ (w.up c s).sent.length
  downOwner : ∀ s c, ¬ InBlock M N c s → (w.down s c).sent = []
  downReplies : ∀ s c,
    (w.down s c).sent <+: replies snaps s w.rounds ++ quits s w.rounds.length
  /-- a state is sent after its ping has been taken -/
  dataAfterPing : ∀ s c m, m ∈ (w.down s c).sent → m.kind = .data →
    perRound s * (m.round + 1) ≤ (w.up c s).taken
  /-- who has entered the closing barrier of a round has had all replies of the round -/
  passed : ∀ c s, InBlock M N c s → w.arrived c / 2 ≤ w.rounds.length ∧
    (replies snaps s (w.rounds.take (w.arrived c / 2))).length ≤ (w.down s c).taken ∧
    perRound s * (w.arrived c / 2) ≤ (w.up c s).taken

/-- What simulation rank `s` relies on. -/
structure SimRely (s : ℕ) (w w' : World) : Prop where
  manager : w'.manager s = w.manager s
  serving : w'.serving s = w.serving s
  simHeard : w'.simHeard s = w.simHeard s
  downSent : ∀ c, (w'.down s c).sent = (w.down s c).sent
  upTaken : ∀ c, (w'.up c s).taken = (w.up c s).taken
  simCast : w.simCast <+: w'.simCast
  rootCast : s = 0 → w'.simCast = w.simCast

/-- What client rank `c` relies on. -/
structure ClientRely (c : ℕ) (w w' : World) : Prop where
  arrived : w'.arrived c = w.arrived c
  clientHeard : w'.clientHeard c = w.clientHeard c
  upSent : ∀ s, (w'.up c s).sent = (w.up c s).sent
  downTaken : ∀ s, (w'.down s c).taken = (w.down s c).taken
  rootCast : c = 0 → w'.clientCast = w.clientCast
  simCast : w.simCast <+: w'.simCast
  upTaken : ∀ s, (w.up c s).taken ≤ (w'.up c s).taken
  allArrived : ∀ c', w.arrived c' ≤ w'.arrived c'

/-- What any rank relies on. -/
def Rely : Party M N → World → World → Prop
  | .sim s => SimRely s
  | .client c => ClientRely c

theorem SimRely.refl (s : ℕ) (w : World) : SimRely s w w :=
  ⟨rfl, rfl, rfl, fun _ => rfl, fun _ => rfl, List.prefix_refl _, fun _ => rfl⟩

theorem ClientRely.refl (c : ℕ) (w : World) : ClientRely c w w :=
  ⟨rfl, rfl, fun _ => rfl, fun _ => rfl, fun _ => rfl, List.prefix_refl _, fun _ => le_refl _,
    fun _ => le_refl _⟩

theorem SimRely.trans {s : ℕ} {w₁ w₂ w₃ : World} (h : SimRely s w₁ w₂) (h' : SimRely s w₂ w₃) :
    SimRely s w₁ w₃ where
  manager := h'.manager.trans h.manager
  serving := h'.serving.trans h.serving
  simHeard := h'.simHeard.trans h.simHeard
  downSent c := (h'.downSent c).trans (h.downSent c)
  upTaken c := (h'.upTaken c).trans (h.upTaken c)
  simCast := h.simCast.trans h'.simCast
  rootCast hs := (h'.rootCast hs).trans (h.rootCast hs)

theorem ClientRely.trans {c : ℕ} {w₁ w₂ w₃ : World} (h : ClientRely c w₁ w₂)
    (h' : ClientRely c w₂ w₃) : ClientRely c w₁ w₃ where
  arrived := h'.arrived.trans h.arrived
  clientHeard := h'.clientHeard.trans h.clientHeard
  upSent s := (h'.upSent s).trans (h.upSent s)
  downTaken s := (h'.downTaken s).trans (h.downTaken s)
  rootCast hc := (h'.rootCast hc).trans (h.rootCast hc)
  simCast := h.simCast.trans h'.simCast
  upTaken s := (h.upTaken s).trans (h'.upTaken s)
  allArrived c' := (h.allArrived c').trans (h'.allArrived c')

theorem Rely.refl {M N : ℕ} (j : Party M N) (w : World) : Rely M N j w w := by
  cases j with
  | sim s => exact SimRely.refl s w
  | client c => exact ClientRely.refl c w

/-- A simulation rank changes nothing that another rank relies on. -/
theorem performSim_rely {s : Fin M} {o : SimOp Unit} {r : o.Resp} {w w' : World}
    (h : performSim N s o w r w') (j : Party M N) (hj : j ≠ .sim s) : Rely M N j w w' := by
  have hne : ∀ s' : Fin M, Party.sim s' ≠ (Party.sim s : Party M N) → (s' : ℕ) ≠ s :=
    fun s' h heq => h (congrArg Party.sim (Fin.ext heq))
  cases o with
  | lock | probe =>
      obtain ⟨-, rfl⟩ := h
      exact Rely.refl j _
  | probeAll =>
      obtain ⟨-, -, -, rfl⟩ := h
      exact Rely.refl j _
  | unlock cm =>
      simp only [performSim] at h
      subst h
      cases j with
      | sim s' => exact { SimRely.refl s' w with manager := Function.update_of_ne (hne s' hj) .. }
      | client c => exact { ClientRely.refl c w with }
  | bcast buf =>
      simp only [performSim] at h
      split at h
      · next hs =>
        obtain ⟨-, rfl⟩ := h
        cases j with
        | sim s' =>
            exact { SimRely.refl s' w with
              simCast := List.prefix_append _ _
              rootCast := fun h0 => absurd (h0.trans hs.symm) (hne s' hj) }
        | client c => exact { ClientRely.refl c w with simCast := List.prefix_append _ _ }
      · obtain ⟨-, rfl⟩ := h
        cases j with
        | sim s' =>
            exact { SimRely.refl s' w with simHeard := Function.update_of_ne (hne s' hj) .. }
        | client c => exact { ClientRely.refl c w with }
  | send comm kind data rank =>
      simp only [performSim] at h
      subst h
      cases j with
      | sim s' =>
          exact { SimRely.refl s' w with
            downSent := fun c => by simp only [updateAt_of_ne_left _ _ (hne s' hj)] }
      | client c =>
          exact { ClientRely.refl c w with
            downTaken := fun s' => Channel.updateAt_push_taken _ _ _ _ _ _ }
  | recv comm kind size rank =>
      obtain ⟨m, -, -, rfl⟩ := h
      cases j with
      | sim s' =>
          exact { SimRely.refl s' w with
            serving := Function.update_of_ne (hne s' hj) ..
            upTaken := fun c => by simp only [updateAt_of_ne_right _ _ (hne s' hj)] }
      | client c =>
          exact { ClientRely.refl c w with
            upSent := fun s' => Channel.updateAt_pop_sent _ _ _ _ _
            upTaken := fun s' => Channel.le_updateAt_pop_taken _ _ _ _ _ }
  | _ => exact absurd h (by simp [performSim])

theorem performClient_rely {c : Fin N} {o : ClientOp Unit} {r : o.Resp} {w w' : World}
    (h : performClient M N c o w r w') (j : Party M N) (hj : j ≠ .client c) :
    Rely M N j w w' := by
  have hne : ∀ c' : Fin N, Party.client c' ≠ (Party.client c : Party M N) → (c' : ℕ) ≠ c :=
    fun c' h heq => h (congrArg Party.client (Fin.ext heq))
  cases o with
  | remoteSize | leave =>
      obtain ⟨-, rfl⟩ := h
      exact Rely.refl j _
  | arrive =>
      simp only [performClient] at h
      subst h
      cases j with
      | sim s => exact { SimRely.refl s w with }
      | client c' =>
          refine { ClientRely.refl c' w with
            arrived := Function.update_of_ne (hne c' hj) ..
            allArrived := fun a => ?_ }
          by_cases ha : a = c
          · simp only [ha, Function.update_self]
            exact Nat.le_succ _
          · simp only [Function.update_of_ne ha, le_refl]
  | bcast buf =>
      simp only [performClient] at h
      split at h
      · next hc =>
        obtain ⟨-, rfl⟩ := h
        cases j with
        | sim s => exact { SimRely.refl s w with }
        | client c' =>
            exact { ClientRely.refl c' w with
              rootCast := fun h0 => absurd (h0.trans hc.symm) (hne c' hj) }
      · obtain ⟨-, rfl⟩ := h
        cases j with
        | sim s => exact { SimRely.refl s w with }
        | client c' =>
            exact { ClientRely.refl c' w with
              clientHeard := Function.update_of_ne (hne c' hj) .. }
  | send comm kind data rank =>
      simp only [performClient] at h
      subst h
      cases j with
      | sim s =>
          exact { SimRely.refl s w with
            upTaken := fun c' => Channel.updateAt_push_taken _ _ _ _ _ _ }
      | client c' =>
          exact { ClientRely.refl c' w with
            upSent := fun s => by simp only [updateAt_of_ne_left _ _ (hne c' hj)]
            upTaken := fun s => by simp only [updateAt_of_ne_left _ _ (hne c' hj), le_refl] }
  | recv comm kind size rank =>
      obtain ⟨m, -, -, rfl⟩ := h
      cases j with
      | sim s =>
          exact { SimRely.refl s w with
            downSent := fun c' => Channel.updateAt_pop_sent _ _ _ _ _ }
      | client c' =>
          exact { ClientRely.refl c' w with
            downTaken := fun s => by simp only [updateAt_of_ne_right _ _ (hne c' hj)] }
  | _ => exact absurd h (by simp [performClient])

/-! ## Steps keep the invariant -/

section Steps

variable {M N : ℕ} {snaps : Snapshots} {w : World} (h : Inv M N snaps w)
include h

/-- A rank that has reached the closing barrier has done so in every longer history. -/
theorem Inv.passed_grow {ks : List ℕ} (hks : w.rounds <+: ks) (c s : ℕ) (hblock : InBlock M N c s) :
    w.arrived c / 2 ≤ ks.length ∧
      (replies snaps s (ks.take (w.arrived c / 2))).length ≤ (w.down s c).taken ∧
      perRound s * (w.arrived c / 2) ≤ (w.up c s).taken := by
  obtain ⟨hle, htaken, hup⟩ := h.passed c s hblock
  refine ⟨hle.trans hks.length_le, ?_, hup⟩
  rw [hks.take_eq hle]
  exact htaken

theorem Inv.castSim {buf : Bytes} (hcasts : Casts (w.simCast ++ [buf])) :
    Inv M N snaps { w with simCast := w.simCast ++ [buf] } := by
  have hks : w.rounds <+: queryCalls (castCalls (w.simCast ++ [buf])) :=
    queryCalls_grow (castCalls_grow (List.prefix_append _ _))
  exact { h with
    casts := hcasts
    downReplies := fun s c => (h.downReplies s c).trans (replies_quits_grow snaps s hks)
    passed := h.passed_grow hks }

theorem Inv.takeUp {c s : ℕ} {m : Message} (hm : (w.up c s).next? = some m)
    (serving : ℕ → ℕ) :
    Inv M N snaps
      { w with up := updateAt w.up c s (w.up c s).pop, serving := serving } := by
  exact { h with
    upOwner := fun c' s' => by simpa using h.upOwner c' s'
    upFollows := fun c' s' => by simpa using h.upFollows c' s'
    upTaken := fun c' s' => by
      simp only [updateAt_apply]
      split
      · exact Channel.pop_taken_le hm
      · exact h.upTaken c' s'
    dataAfterPing := fun s' c' m hm hk =>
      (h.dataAfterPing s' c' m hm hk).trans (Channel.le_updateAt_pop_taken _ _ _ _ _)
    passed := fun c' s' hblock =>
      have hp := h.passed c' s' hblock
      ⟨hp.1, hp.2.1, hp.2.2.trans (Channel.le_updateAt_pop_taken _ _ _ _ _)⟩ }

theorem Inv.sendDown {s c : ℕ} {m : Message} (hblock : InBlock M N c s)
    (hreplies : (w.down s c).sent ++ [m] <+:
      replies snaps s w.rounds ++ quits s w.rounds.length)
    (hping : m.kind = .data → perRound s * (m.round + 1) ≤ (w.up c s).taken) :
    Inv M N snaps { w with down := updateAt w.down s c ((w.down s c).push m) } := by
  refine { h with downOwner := ?_, downReplies := ?_, dataAfterPing := ?_, passed := ?_ }
  · exact Channel.updateAt_push_sent (p := fun s c l => ¬ InBlock M N c s → l = [])
      h.downOwner (fun hnot => absurd hblock hnot)
  · exact Channel.updateAt_push_sent
      (p := fun s _ l => l <+: replies snaps s w.rounds ++ quits s w.rounds.length)
      h.downReplies hreplies
  · refine Channel.updateAt_push_sent
      (p := fun s c l => ∀ m : Message, m ∈ l → m.kind = .data →
        perRound s * (m.round + 1) ≤ (w.up c s).taken)
      h.dataAfterPing (fun m' hm' => ?_)
    rcases List.mem_append.1 hm' with hm' | hm'
    · exact h.dataAfterPing s c m' hm'
    · rw [List.mem_singleton.1 hm']
      exact hping
  · intro c' s' hblock'
    have hp := h.passed c' s' hblock'
    exact ⟨hp.1, hp.2.1.trans (Channel.updateAt_push_taken ..).ge, hp.2.2⟩

theorem Inv.sendUp {c s : ℕ} (hblock : InBlock M N c s) :
    Inv M N snaps { w with
      up := updateAt w.up c s ((w.up c s).push (upMessage c s (w.up c s).sent.length)) } := by
  refine { h with upOwner := ?_, upFollows := ?_, upTaken := ?_, dataAfterPing := ?_, passed := ?_ }
  · exact Channel.updateAt_push_sent (p := fun c s l => ¬ InBlock M N c s → l = [])
      h.upOwner (fun hnot => absurd hblock hnot)
  · exact Channel.updateAt_push_sent (p := fun c s l => Follows (upMessage c s) l)
      h.upFollows (h.upFollows c s).concat
  · intro c' s'
    rw [Channel.updateAt_push_taken]
    exact (h.upTaken c' s').trans (Channel.le_updateAt_push_sent _ _ _ _ _ _)
  · intro s' c' m hm hk
    simpa using h.dataAfterPing s' c' m hm hk
  · intro c' s' hblock'
    have hp := h.passed c' s' hblock'
    exact ⟨hp.1, hp.2.1, hp.2.2.trans (Channel.updateAt_push_taken ..).ge⟩

theorem Inv.takeDown (s c : ℕ) :
    Inv M N snaps { w with down := updateAt w.down s c (w.down s c).pop } := by
  refine { h with downOwner := ?_, downReplies := ?_, dataAfterPing := ?_, passed := ?_ }
  · exact fun s' c' => by simpa using h.downOwner s' c'
  · intro s' c'
    have hbegins := h.downReplies s' c'
    rwa [← Channel.updateAt_pop_sent w.down s c] at hbegins
  · intro s' c' m hm
    rw [Channel.updateAt_pop_sent] at hm
    exact h.dataAfterPing s' c' m hm
  · intro c' s' hblock
    have hp := h.passed c' s' hblock
    exact ⟨hp.1, hp.2.1.trans (Channel.le_updateAt_pop_taken _ _ _ _ _), hp.2.2⟩

theorem Inv.castClient {buf : Bytes} (hbuf : buf = intBytes 0) :
    Inv M N snaps { w with clientCast := w.clientCast ++ [buf] } := by
  refine { h with quitCast := fun m hm => ?_ }
  rcases List.mem_append.1 hm with hm | hm
  · exact h.quitCast m hm
  · rw [List.mem_singleton.1 hm, hbuf]

/-- A client rank may enter a barrier: the closing barrier of round `r` when it has had all replies
    of the round. -/
theorem Inv.arrive {c : ℕ}
    (hpassed : ∀ s, InBlock M N c s → (w.arrived c + 1) / 2 ≤ w.rounds.length ∧
      (replies snaps s (w.rounds.take ((w.arrived c + 1) / 2))).length ≤ (w.down s c).taken ∧
      perRound s * ((w.arrived c + 1) / 2) ≤ (w.up c s).taken) :
    Inv M N snaps { w with arrived := Function.update w.arrived c (w.arrived c + 1) } := by
  refine { h with passed := fun c' s hblock => ?_ }
  by_cases hc : c' = c
  · subst hc
    simp only [Function.update_self]
    exact hpassed s hblock
  · simp only [Function.update_of_ne hc]
    exact h.passed c' s hblock

end Steps

end QueryRound

end LibIS
