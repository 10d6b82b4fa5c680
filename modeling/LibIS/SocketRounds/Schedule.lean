import LibIS.SocketRounds.System

set_option autoImplicit false

/-! # Rounds of queries over sockets: runs by a schedule

A system call moves up to three bytes, and every other operation that can go on has one answer. -/

open ByteCodec Prog ThreadSystem

namespace LibIS

namespace SocketRounds

/-- The number of bytes that a `::send` of `data` takes. -/
def someOf (data : Bytes) : Option (Count data.length) :=
  if h : 0 < data.length then some ⟨min data.length 3, by omega⟩ else none

/-- The bytes that a `::recv` of `size` bytes gets. -/
def pieceOf (size : ℕ) (pending : Bytes) : Option { bs : Piece size // bs.1 <+: pending } :=
  if h : 0 < (pending.take (min size 3)).length then
    some ⟨⟨pending.take (min size 3), h, by rw [List.length_take]; omega,
      by rw [List.length_take]; omega⟩, List.take_prefix _ _⟩
  else
    none

/-- An answer to an operation of simulation rank `s`. -/
def answerSim (N s : ℕ) : (o : SocketOp (SimOp Unit)) → World → Option (SimResp o × World)
  | .send rank data, w => (someOf data).map (fun k => (k, { w with
      down := updateAt w.down s rank ((w.down s rank).pushAll (data.take k.1)) }))
  | .recv rank size, w => (pieceOf size (w.up rank s).pending).map (fun bs => (bs.1, { w with
      up := updateAt w.up rank s ((w.up rank s).advance bs.1.1.length) }))
  | .call .lock, w => some (w.manager s, w)
  | .call (.unlock cm), w => some ((), { w with manager := Function.update w.manager s cm })
  | .call (.bcast buf), w =>
      if s = 0 then
        some (buf, { w with simCast := w.simCast ++ [buf] })
      else
        w.simCast[w.simHeard s]?.map (fun r => (r, { w with
          simHeard := Function.update w.simHeard s (w.simHeard s + 1) }))
  | .call (.probe _ rank), w => some (w.readable s rank, w)
  | .call (.probeAll _), w =>
      match SocketInterComm.probeAll ((List.range N).map (w.readable s)) with
      | .ofNat c => some (c, w)
      | .negSucc _ => none
  | .call .setExitThread, _ | .call .joinable, _ | .call .join, _ | .call .spawn, _
  | .call (.connect _), _ | .call (.close _), _ | .call (.send ..), _ | .call (.recv ..), _
  | .call .crash, _ => none

/-- An answer to an operation of client rank `c`. -/
def answerClient (M N c : ℕ) :
    (o : SocketOp (ClientOp Unit)) → World → Option (ClientResp o × World)
  | .send rank data, w => (someOf data).map (fun k => (k, { w with
      up := updateAt w.up c rank ((w.up c rank).pushAll (data.take k.1)) }))
  | .recv rank size, w => (pieceOf size (w.down rank c).pending).map (fun bs => (bs.1, { w with
      down := updateAt w.down rank c ((w.down rank c).advance bs.1.1.length) }))
  | .call (.remoteSize _), w => some (M, w)
  | .call .arrive, w =>
      some ((), { w with arrived := Function.update w.arrived c (w.arrived c + 1) })
  | .call .leave, w => if ∀ c' < N, w.arrived c ≤ w.arrived c' then some ((), w) else none
  | .call (.bcast buf), w =>
      if c = 0 then
        some (buf, { w with clientCast := w.clientCast ++ [buf] })
      else
        w.clientCast[w.clientHeard c]?.map (fun r => (r, { w with
          clientHeard := Function.update w.clientHeard c (w.clientHeard c + 1) }))
  | .call .listen, _ | .call (.portName _), _ | .call (.accept _), _ | .call (.close _), _
  | .call .dial, _ | .call (.sendSocket _), _ | .call .closeSocket, _ | .call (.throw _), _
  | .call (.send ..), _ | .call (.recv ..), _ | .call .crash, _ => none

theorem answerSim_perform (N s : ℕ) (o : SocketOp (SimOp Unit)) (w : World) (r : SimResp o)
    (w' : World) (h : answerSim N s o w = some (r, w')) : performSim N s o w r w' := by
  cases o with
  | send rank data =>
      obtain ⟨k, -, h⟩ := Option.map_eq_some_iff.1 h
      obtain ⟨rfl, rfl⟩ := Prod.mk.inj h
      rfl
  | recv rank size =>
      obtain ⟨bs, -, h⟩ := Option.map_eq_some_iff.1 h
      obtain ⟨rfl, rfl⟩ := Prod.mk.inj h
      exact ⟨bs.2, rfl⟩
  | call o =>
      cases o with
      | bcast buf => exact answer_cast h
      | probeAll comm =>
          simp only [answerSim] at h
          split at h
          · next c hfind =>
              obtain ⟨rfl, rfl⟩ := Prod.mk.inj (Option.some.inj h)
              exact ⟨hfind, rfl⟩
          · exact absurd h (by simp)
      | lock | probe =>
          obtain ⟨rfl, rfl⟩ := Prod.mk.inj (Option.some.inj h)
          exact ⟨rfl, rfl⟩
      | unlock =>
          obtain ⟨-, rfl⟩ := Prod.mk.inj (Option.some.inj h)
          rfl
      | setExitThread | joinable | join | spawn | connect | close | send | recv | crash =>
          exact absurd h (by simp [answerSim])

theorem answerClient_perform (M N c : ℕ) (o : SocketOp (ClientOp Unit)) (w : World)
    (r : ClientResp o) (w' : World) (h : answerClient M N c o w = some (r, w')) :
    performClient M N c o w r w' := by
  cases o with
  | send rank data =>
      obtain ⟨k, -, h⟩ := Option.map_eq_some_iff.1 h
      obtain ⟨rfl, rfl⟩ := Prod.mk.inj h
      rfl
  | recv rank size =>
      obtain ⟨bs, -, h⟩ := Option.map_eq_some_iff.1 h
      obtain ⟨rfl, rfl⟩ := Prod.mk.inj h
      exact ⟨bs.2, rfl⟩
  | call o =>
      cases o with
      | leave =>
          obtain ⟨hall, h⟩ := Option.ite_none_right_eq_some.1 h
          obtain ⟨-, rfl⟩ := Prod.mk.inj (Option.some.inj h)
          exact ⟨hall, rfl⟩
      | bcast buf => exact answer_cast h
      | remoteSize =>
          obtain ⟨rfl, rfl⟩ := Prod.mk.inj (Option.some.inj h)
          exact ⟨rfl, rfl⟩
      | arrive =>
          obtain ⟨-, rfl⟩ := Prod.mk.inj (Option.some.inj h)
          rfl
      | listen | portName | accept | close | dial | sendSocket | closeSocket | throw | send | recv
      | crash => exact absurd h (by simp [answerClient])

section Answers

open QueryRound (Party Snapshots)

variable (M N : ℕ) (snaps : Snapshots)

/-- The answers of all ranks. -/
def answerParty : (p : Party M N) → (o : (system M N snaps).Op p) → World →
    Option ((system M N snaps).Resp p o × World)
  | .sim s => answerSim N s
  | .client c => answerClient M N c

variable {M N snaps}

theorem answerParty_perform (p : Party M N) (o : (system M N snaps).Op p) (w : World)
    (r : (system M N snaps).Resp p o) (w' : World)
    (h : answerParty M N snaps p o w = some (r, w')) : (system M N snaps).perform p o w r w' := by
  cases p with
  | sim s => exact answerSim_perform N s o w r w' h
  | client c => exact answerClient_perform M N c o w r w' h

end Answers

end SocketRounds

end LibIS
