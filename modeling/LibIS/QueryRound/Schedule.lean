import LibIS.QueryRound.System

set_option autoImplicit false

/-! # Rounds of queries: runs by a schedule

Of the operations that a rank may be due to perform, every one that can go on has one answer, so a
schedule determines a run. -/

open Prog ThreadSystem

namespace LibIS

namespace QueryRound

/-- The answer to an operation of simulation rank `s`. -/
def answerSim (N s : ℕ) : (o : SimOp Unit) → World → Option (o.Resp × World)
  | .lock, w => some (w.manager s, w)
  | .unlock cm, w => some ((), { w with manager := Function.update w.manager s cm })
  | .bcast buf, w =>
      if s = 0 then
        some (buf, { w with simCast := w.simCast ++ [buf] })
      else
        w.simCast[w.simHeard s]?.map (fun r => (r, { w with
          simHeard := Function.update w.simHeard s (w.simHeard s + 1) }))
  | .probe _ rank, w => some ((w.up rank s).next?.isSome, w)
  | .probeAll _, w =>
      ((List.range N).find? (fun c => (w.up c s).next?.isSome)).map (fun c => (c, w))
  | .send _ kind data rank, w => some ((), { w with
      down := updateAt w.down s rank ((w.down s rank).push ⟨kind, data, w.serving s⟩) })
  | .recv _ _ _ rank, w =>
      (w.up rank s).next?.map (fun m => (m.data, { w with
        up := updateAt w.up rank s (w.up rank s).pop
        serving := Function.update w.serving s m.round }))
  | .setExitThread, _ | .joinable, _ | .join, _ | .spawn, _ | .connect _, _ | .close _, _
  | .crash, _ => none

/-- The answer to an operation of client rank `c`. -/
def answerClient (M N c : ℕ) : (o : ClientOp Unit) → World → Option (o.Resp × World)
  | .remoteSize _, w => some (M, w)
  | .arrive, w =>
      some ((), { w with arrived := Function.update w.arrived c (w.arrived c + 1) })
  | .leave, w => if ∀ c' < N, w.arrived c ≤ w.arrived c' then some ((), w) else none
  | .bcast buf, w =>
      if c = 0 then
        some (buf, { w with clientCast := w.clientCast ++ [buf] })
      else
        w.clientCast[w.clientHeard c]?.map (fun r => (r, { w with
          clientHeard := Function.update w.clientHeard c (w.clientHeard c + 1) }))
  | .send _ kind data rank, w => some ((), { w with
      up := updateAt w.up c rank ((w.up c rank).push ⟨kind, data, w.arrived c / 2⟩) })
  | .recv _ _ _ rank, w =>
      (w.down rank c).next?.map (fun m => (m.data, { w with
        down := updateAt w.down rank c (w.down rank c).pop }))
  | .listen, _ | .portName _, _ | .accept _, _ | .close _, _ | .dial, _ | .sendSocket _, _
  | .closeSocket, _ | .throw _, _ | .crash, _ => none

theorem answerSim_perform (N s : ℕ) (o : SimOp Unit) (w : World) (r : o.Resp) (w' : World)
    (h : answerSim N s o w = some (r, w')) : performSim N s o w r w' := by
  cases o with
  | bcast buf => exact answer_cast h
  | probeAll comm =>
      obtain ⟨c, hfind, h⟩ := Option.map_eq_some_iff.1 h
      obtain ⟨rfl, rfl⟩ := Prod.mk.inj h
      obtain ⟨hsome, hmem, hfirst⟩ := List.find?_range_eq_some.1 hfind
      exact ⟨List.mem_range.1 hmem, hsome, fun c' hc' => by simpa using hfirst c' hc', rfl⟩
  | recv comm kind size rank =>
      obtain ⟨m, hm, h⟩ := Option.map_eq_some_iff.1 h
      obtain ⟨rfl, rfl⟩ := Prod.mk.inj h
      exact ⟨m, hm, rfl, rfl⟩
  | lock | probe =>
      obtain ⟨rfl, rfl⟩ := Prod.mk.inj (Option.some.inj h)
      exact ⟨rfl, rfl⟩
  | unlock | send =>
      obtain ⟨-, rfl⟩ := Prod.mk.inj (Option.some.inj h)
      rfl
  | setExitThread | joinable | join | spawn | connect | close | crash =>
      exact absurd h (by simp [answerSim])

theorem answerClient_perform (M N c : ℕ) (o : ClientOp Unit) (w : World) (r : o.Resp) (w' : World)
    (h : answerClient M N c o w = some (r, w')) : performClient M N c o w r w' := by
  cases o with
  | leave =>
      obtain ⟨hall, h⟩ := Option.ite_none_right_eq_some.1 h
      obtain ⟨-, rfl⟩ := Prod.mk.inj (Option.some.inj h)
      exact ⟨hall, rfl⟩
  | bcast buf => exact answer_cast h
  | recv comm kind size rank =>
      obtain ⟨m, hm, h⟩ := Option.map_eq_some_iff.1 h
      obtain ⟨rfl, rfl⟩ := Prod.mk.inj h
      exact ⟨m, hm, rfl, rfl⟩
  | remoteSize =>
      obtain ⟨rfl, rfl⟩ := Prod.mk.inj (Option.some.inj h)
      exact ⟨rfl, rfl⟩
  | arrive | send =>
      obtain ⟨-, rfl⟩ := Prod.mk.inj (Option.some.inj h)
      rfl
  | listen | portName | accept | close | dial | sendSocket | closeSocket | throw | crash =>
      exact absurd h (by simp [answerClient])

section Answers

variable (M N : ℕ) (snaps : Snapshots)

/-- The answers of all ranks. -/
def answerParty : (p : Party M N) → (o : (system M N snaps).Op p) → World →
    Option ((system M N snaps).Resp p o × World)
  | .sim s => answerSim N s
  | .client c => answerClient M N c

variable {M N snaps}

theorem answerParty_perform (p : Party M N) (o : (system M N snaps).Op p) (w : World)
    (r : (system M N snaps).Resp p o) (w' : World)
    (h : answerParty M N snaps p o w = some (r, w')) : (system M N snaps).perform p o w r w' := by
  cases p with
  | sim s => exact answerSim_perform N s o w r w' h
  | client c => exact answerClient_perform M N c o w r w' h

end Answers

end QueryRound

end LibIS
