import LibIS.Session.System

set_option autoImplicit false

/-! # Sessions: runs by a schedule

Every operation that can go on has one answer here: nothing fails, sends are not cut short, and a
receive from another simulation rank gets zeros. So a schedule determines a run of the system. -/

open Prog ThreadSystem

namespace LibIS

namespace Session

variable (X : Setup)

/-- An answer to an operation of the main thread. It connects only to the client that the listener
    has accepted last. -/
def answerMain : (o : SimOp ℕ) → World → Option (o.Resp × World)
  | .lock, w =>
      if w.holder = none then
        some (w.manager, { w with
          holder := some .main
          destroying := w.exitThread
          takes := if w.manager.newQuery then w.takes ++ [w.taker] else w.takes })
      else
        none
  | .unlock cm, w => some ((), { w with manager := cm, holder := none, calls := w.calls + 1 })
  | .setExitThread, w => some ((), { w with exitThread := true })
  | .joinable, w => some (w.joinable, w)
  | .join, w => if w.ended = w.spawned then some ((), { w with joinable := false }) else none
  | .spawn, w => some ((), { w with spawned := w.spawned + 1, joinable := true })
  | .bcast buf, w => some (buf, w)
  | .connect host, w =>
      if w.opened w.reading = true ∧ X.port w.reading = host then
        some (.ok w.reading, { w with
          opened := Function.update w.opened w.reading false
          linked := Function.update w.linked w.reading true })
      else
        none
  | .close _, w => some ((), w)
  | .probe comm rank, w => some ((w.up comm rank).next?.isSome, w)
  | .probeAll comm, w =>
      ((List.range (X.size comm)).find? (fun c => (w.up comm c).next?.isSome)).map (fun c => (c, w))
  | .send comm kind data rank, w => some ((), { w with
      down := updateAt w.down comm rank ((w.down comm rank).push ⟨kind, data⟩)
      replied := if kind = .quit then w.replied ++ [intOfBytes data] else w.replied })
  | .recv comm _ _ rank, w =>
      (w.up comm rank).next?.map (fun m => (m.data, { w with
        up := updateAt w.up comm rank (w.up comm rank).pop
        takes := if m.kind = .command then w.takes ++ [w.taker] else w.takes }))
  | .crash, _ => none

/-- An answer to an operation of the listener thread, which waits for a connection. -/
def answerListener : (o : ListenerOp ℕ) → World → Option (o.Resp × World)
  | .begin, w =>
      if w.started < w.spawned then some ((), { w with started := w.started + 1 }) else none
  | .openSocket, w => some (.ok (), { w with listening := true })
  | .exitThread, w => some (w.exitThread, w)
  | .accept, w =>
      w.dials.next?.map (fun i => (.ok (some i), { w with dials := w.dials.pop, reading := i }))
  | .recv i size, w =>
      some (some ((w.frame i).pending.take size.toNat), { w with
        frame := Function.update w.frame i
          ((w.frame i).advance ((w.frame i).pending.take size.toNat).length) })
  | .close _, w => some ((), w)
  | .lock, w =>
      if w.holder = none then some (w.manager, { w with holder := some .listener }) else none
  | .unlock cm, w => some ((), { w with
      manager := cm
      holder := none
      published := w.started
      issued := w.issued ++ [⟨w.reading, cm.clientCommand⟩] })
  | .closeSocket, w => some ((), { w with listening := false, dials := w.dials.flush })
  | .finish, w => some ((), { w with ended := w.ended + 1 })
  | .throw _, _ => none
  | .overrun, _ => none

/-- An answer to an operation of rank `c` of client `i`. Whether rank 0 can open its port depends on
    all the others, so that is left out. -/
def answerClient (i c : ℕ) : (o : ClientOp ℕ) → World → Option (o.Resp × World)
  | .listen, w => if c = 0 then none else some (i, w)
  | .portName _, w => some (X.port i, w)
  | .accept _, w => if w.linked i = true then some ((), w) else none
  | .close _, w => some ((), w)
  | .remoteSize _, w => some (X.simSize, w)
  | .dial, w =>
      if w.listening = true then some (.ok (), { w with dials := w.dials.push i }) else none
  | .sendSocket data, w => some ((data.length : Int), { w with
      frame := Function.update w.frame i ((w.frame i).pushAll (data.take data.length)) })
  | .closeSocket, w => some ((), w)
  | .arrive, w => some ((), { w with arrived := updateAt w.arrived i c (w.arrived i c + 1) })
  | .leave, w =>
      if ∀ c' < X.size i, w.arrived i c ≤ w.arrived i c' then some ((), w) else none
  | .bcast buf, w =>
      if c = 0 then
        some (buf, { w with
          clientCast := Function.update w.clientCast i (w.clientCast i ++ [buf]) })
      else
        (w.clientCast i)[w.clientHeard i c]?.map (fun r => (r, { w with
          clientHeard := updateAt w.clientHeard i c (w.clientHeard i c + 1) }))
  | .send _ kind data rank, w => some ((), if rank = 0 then
      { w with
        up := updateAt w.up i c ((w.up i c).push ⟨kind, data⟩)
        issued := if kind = .command then w.issued ++ [⟨i, intOfBytes data⟩] else w.issued }
      else w)
  | .recv _ _ size rank, w =>
      if rank = 0 then
        (w.down i c).next?.map (fun m => (m.data, { w with
          down := updateAt w.down i c (w.down i c).pop }))
      else
        some (List.replicate size 0, w)
  | .throw _, _ => none
  | .crash, _ => none

variable {X}

theorem answerMain_perform (o : SimOp ℕ) (w : World) (r : o.Resp) (w' : World)
    (h : answerMain X o w = some (r, w')) : performMain X o w r w' := by
  cases o with
  | lock =>
      obtain ⟨hfree, h⟩ := Option.ite_none_right_eq_some.1 h
      obtain ⟨rfl, rfl⟩ := Prod.mk.inj (Option.some.inj h)
      exact ⟨hfree, rfl, rfl⟩
  | join =>
      obtain ⟨hended, h⟩ := Option.ite_none_right_eq_some.1 h
      obtain ⟨-, rfl⟩ := Prod.mk.inj (Option.some.inj h)
      exact ⟨hended, rfl⟩
  | connect host =>
      obtain ⟨⟨hopened, hport⟩, h⟩ := Option.ite_none_right_eq_some.1 h
      obtain ⟨rfl, rfl⟩ := Prod.mk.inj (Option.some.inj h)
      exact ⟨w.reading, hopened, hport, rfl, rfl⟩
  | probeAll comm =>
      obtain ⟨c, hfind, h⟩ := Option.map_eq_some_iff.1 h
      obtain ⟨rfl, rfl⟩ := Prod.mk.inj h
      obtain ⟨hsome, hmem, hfirst⟩ := List.find?_range_eq_some.1 hfind
      exact ⟨List.mem_range.1 hmem, hsome, fun c' hc' => by simpa using hfirst c' hc', rfl⟩
  | recv comm kind size rank =>
      obtain ⟨m, hm, h⟩ := Option.map_eq_some_iff.1 h
      obtain ⟨rfl, rfl⟩ := Prod.mk.inj h
      exact ⟨m, hm, rfl, rfl⟩
  | joinable | bcast | probe =>
      obtain ⟨rfl, rfl⟩ := Prod.mk.inj (Option.some.inj h)
      exact ⟨rfl, rfl⟩
  | unlock | setExitThread | spawn | close | send =>
      obtain ⟨-, rfl⟩ := Prod.mk.inj (Option.some.inj h)
      rfl
  | crash => exact absurd h (by simp [answerMain])

theorem answerListener_perform (o : ListenerOp ℕ) (w : World) (r : o.Resp) (w' : World)
    (h : answerListener o w = some (r, w')) : performListener o w r w' := by
  cases o with
  | begin =>
      obtain ⟨hstarted, h⟩ := Option.ite_none_right_eq_some.1 h
      obtain ⟨-, rfl⟩ := Prod.mk.inj (Option.some.inj h)
      exact ⟨hstarted, rfl⟩
  | accept =>
      obtain ⟨i, hi, h⟩ := Option.map_eq_some_iff.1 h
      obtain ⟨rfl, rfl⟩ := Prod.mk.inj h
      exact .inr (.inr ⟨i, hi, rfl, rfl⟩)
  | recv i size =>
      obtain ⟨rfl, rfl⟩ := Prod.mk.inj (Option.some.inj h)
      refine .inr ⟨_, rfl, List.take_prefix _ _, fun hsize => ?_, rfl⟩
      rw [List.length_take]
      omega
  | lock =>
      obtain ⟨hfree, h⟩ := Option.ite_none_right_eq_some.1 h
      obtain ⟨rfl, rfl⟩ := Prod.mk.inj (Option.some.inj h)
      exact ⟨hfree, rfl, rfl⟩
  | openSocket =>
      obtain ⟨rfl, rfl⟩ := Prod.mk.inj (Option.some.inj h)
      exact .inr ⟨rfl, rfl⟩
  | exitThread =>
      obtain ⟨rfl, rfl⟩ := Prod.mk.inj (Option.some.inj h)
      exact ⟨rfl, rfl⟩
  | close | unlock | closeSocket | finish =>
      obtain ⟨-, rfl⟩ := Prod.mk.inj (Option.some.inj h)
      rfl
  | throw | overrun => exact absurd h (by simp [answerListener])

theorem answerClient_perform (i c : ℕ) (o : ClientOp ℕ) (w : World) (r : o.Resp) (w' : World)
    (h : answerClient X i c o w = some (r, w')) : performClient X i c o w r w' := by
  cases o with
  | listen =>
      obtain ⟨hc, h⟩ := Option.ite_none_left_eq_some.1 h
      obtain ⟨rfl, rfl⟩ := Prod.mk.inj (Option.some.inj h)
      exact ⟨rfl, by rw [if_neg hc]⟩
  | accept comm =>
      obtain ⟨hlinked, h⟩ := Option.ite_none_right_eq_some.1 h
      obtain ⟨-, rfl⟩ := Prod.mk.inj (Option.some.inj h)
      exact ⟨hlinked, rfl⟩
  | dial =>
      obtain ⟨hlistening, h⟩ := Option.ite_none_right_eq_some.1 h
      obtain ⟨rfl, rfl⟩ := Prod.mk.inj (Option.some.inj h)
      exact .inr ⟨hlistening, rfl, rfl⟩
  | sendSocket data =>
      obtain ⟨rfl, rfl⟩ := Prod.mk.inj (Option.some.inj h)
      exact .inr ⟨data.length, le_refl _, rfl, rfl⟩
  | leave =>
      obtain ⟨hall, h⟩ := Option.ite_none_right_eq_some.1 h
      obtain ⟨-, rfl⟩ := Prod.mk.inj (Option.some.inj h)
      exact ⟨hall, rfl⟩
  | bcast buf => exact answer_cast h
  | send comm kind data rank =>
      obtain ⟨-, rfl⟩ := Prod.mk.inj (Option.some.inj h)
      simp only [performClient]
      split <;> rfl
  | recv comm kind size rank =>
      simp only [performClient]
      simp only [answerClient] at h
      split at h
      · next hrank =>
          obtain ⟨m, hm, h⟩ := Option.map_eq_some_iff.1 h
          obtain ⟨rfl, rfl⟩ := Prod.mk.inj h
          rw [if_pos hrank]
          exact ⟨m, hm, rfl, rfl⟩
      · next hrank =>
          obtain ⟨rfl, rfl⟩ := Prod.mk.inj (Option.some.inj h)
          rw [if_neg hrank]
          exact ⟨List.length_replicate, rfl⟩
  | portName | remoteSize =>
      obtain ⟨rfl, rfl⟩ := Prod.mk.inj (Option.some.inj h)
      exact ⟨rfl, rfl⟩
  | close | closeSocket | arrive =>
      obtain ⟨-, rfl⟩ := Prod.mk.inj (Option.some.inj h)
      rfl
  | throw | crash => exact absurd h (by simp [answerClient])

variable (X)

/-- The answers of all. -/
def answerParty : (p : Party X) → (o : (system X).Op p) → World → Option ((system X).Resp p o × World)
  | .main => answerMain X
  | .listener => answerListener
  | .client i c => answerClient X i c

variable {X}

theorem answerParty_perform (p : Party X) (o : (system X).Op p) (w : World) (r : (system X).Resp p o)
    (w' : World) (h : answerParty X p o w = some (r, w')) : (system X).perform p o w r w' := by
  cases p with
  | main => exact answerMain_perform o w r w' h
  | listener => exact answerListener_perform o w r w' h
  | client i c => exact answerClient_perform i c o w r w' h

/-! ## A session

Two simulation ranks, and clients of two ranks that connect, query once and disconnect. -/

def pairSetup : Setup where
  simSize := 2
  maxPortName := 1
  size := fun _ => 2
  port := fun _ => ⟨[97], by decide⟩
  queries := fun _ => 1
  snaps := fun _ =>
    { calls := [], mem := fun _ => 0, order := [], iterates := Snapshot.noBuffers_iterates,
      size_lt := Snapshot.noBuffers_lt }
  finalize := none
  simSize_pos := by decide
  size_pos := fun _ => by decide
  port_bytes := fun _ => by decide
  port_length := fun _ => by decide
  maxPortName_lt := by decide

abbrev pairStart : (system pairSetup).Config :=
  (system pairSetup).start World.init (startLabels pairSetup)

/-- Rank 0 of the first client. -/
abbrev clientRoot : Party pairSetup :=
  .client 0 ⟨0, Nat.zero_lt_two⟩

/-- Its other rank. -/
abbrev clientOther : Party pairSetup :=
  .client 0 ⟨1, Nat.one_lt_two⟩

/-- The first client's rank 0 has opened its port. -/
def portOpened : (system pairSetup).Config :=
  ⟨{ World.init with opened := Function.update World.init.opened 0 true },
    Function.update pairStart.control clientRoot (match clientCode pairSetup 0 0 .start with
      | .vis .listen k => k 0
      | p => p)⟩

theorem portOpened_reachable : (system pairSetup).Reachable pairStart portOpened := by
  have hstart : (system pairSetup).Reachable pairStart _ := .start
  have hlisten : (system pairSetup).perform clientRoot ClientOp.listen World.init (0 : ℕ)
      { World.init with opened := Function.update World.init.opened 0 true } :=
    ⟨rfl, by simp [World.init]⟩
  have hreach := (hstart.step (.goto _ clientRoot rfl)).step
    (.act _ clientRoot (o := ClientOp.listen) (0 : ℕ) _ rfl hlisten)
  rwa [Function.update_idem] at hreach

/-- The configuration after a schedule. -/
def after (schedule : List (Party pairSetup × ℕ)) : (system pairSetup).Config :=
  schedule.foldl ((system pairSetup).turn (answerParty pairSetup)) portOpened

theorem after_reachable (schedule : List (Party pairSetup × ℕ)) :
    (system pairSetup).Reachable pairStart (after schedule) :=
  portOpened_reachable.turns answerParty_perform schedule

/-- The client asks to connect. -/
def asking : List (Party pairSetup × ℕ) :=
  [(.listener, 20), (.listener, 20), (clientRoot, 20), (.listener, 20), (.listener, 20)]

/-- It is connected, and its rank 0 gives the command to query. -/
def connecting : List (Party pairSetup × ℕ) :=
  asking ++ [(.main, 20), (clientOther, 20), (clientRoot, 20), (clientOther, 20), (clientRoot, 20)]

/-- It has got the reply, and its rank 1 is about to ask rank 1 of the simulation. -/
def pinging : List (Party pairSetup × ℕ) :=
  connecting ++ [(.main, 20), (clientRoot, 20), (clientOther, 1), (clientRoot, 20), (clientOther, 3)]

/-- The query is over, and the client has disconnected. -/
def leaving : List (Party pairSetup × ℕ) :=
  pinging ++ [(clientOther, 20), (.main, 20), (clientRoot, 20), (clientOther, 20), (clientRoot, 20),
    (.main, 20), (clientRoot, 20), (clientOther, 20), (clientRoot, 20), (clientOther, 20)]

end Session

end LibIS
