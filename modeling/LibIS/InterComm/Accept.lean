import LibIS.InterComm.HostExchange
import LibIS.InterComm.HostName
import LibIS.Sim.ConnectionManager

set_option autoImplicit false

/-! # Accepting the connectors (`intercomm.cpp`, `SocketInterComm::accept`)

What an acceptor runs, over the operations it performs on the world outside. Its loop is given as a
label with the code of one round. A connection announces its rank, which is the key under which it
is kept (`fillSockets_eq_some`). -/

open ByteCodec Prog

namespace LibIS

/-- What an acceptor does to the world outside. -/
inductive AcceptOp where
  | mpiRecv (size : ℕ) (source : ℕ)
  | mpiSend (data : Bytes) (dest : ℕ)
  | bcast (buf : Bytes)
  | accept
  | recv (fd : ℤ) (size : ℕ)
  | send (fd : ℤ) (data : Bytes)
  | throw (e : Fault)
  | overrun

/-- The answers. `accept` may be answered by -1, and `recv` is answered by the bytes it moves. -/
abbrev AcceptOp.Resp : AcceptOp → Type
  | .mpiRecv _ _ => Bytes
  | .bcast _ => Bytes
  | .accept => ℤ
  | .recv _ _ => Bytes
  | .throw _ => Empty
  | .overrun => Empty
  | _ => Unit

/-- A program of an acceptor. -/
abbrev AcceptProg (α : Type) := Prog AcceptOp.Resp α

namespace Acceptor

variable {α : Type}

abbrev mpiRecv (size source : ℕ) : AcceptProg Bytes := op (AcceptOp.mpiRecv size source)
abbrev mpiSend (data : Bytes) (dest : ℕ) : AcceptProg Unit := op (AcceptOp.mpiSend data dest)
abbrev mpiBcast (buf : Bytes) : AcceptProg Bytes := op (AcceptOp.bcast buf)
abbrev acceptSocket : AcceptProg ℤ := op AcceptOp.accept
abbrev recvSocket (fd : ℤ) (size : ℕ) : AcceptProg Bytes := op (AcceptOp.recv fd size)
abbrev sendSocket (fd : ℤ) (data : Bytes) : AcceptProg Unit := op (AcceptOp.send fd data)

/-- Go on with a result, or throw. -/
def ofExcept : Except Fault α → AcceptProg α
  | .ok a => return a
  | .error e => .vis (.throw e) Empty.elim

/-- Write past the end of a vector. -/
def overrun : AcceptProg α :=
  .vis .overrun Empty.elim

/-- `::recv` into an `int`, whose old bytes stay where none are moved. -/
def recvInt (fd : ℤ) (old : Int32) : AcceptProg Int32 := do
  let moved ← recvSocket fd 4
  return intOfBytes (moved ++ (intBytes old).drop moved.length)

/-- The hosts of the other acceptors, up to their first null character. -/
def collectHosts : List ℕ → AcceptProg (List StdString)
  | [] => return []
  | i :: ranks => do
      let size ← mpiRecv 8 i
      let buf ← mpiRecv (leValue size) i
      let host ← ofExcept (StdString.ofBytes (buf.takeWhile (· ≠ 0)))
      let hosts ← collectHosts ranks
      return host :: hosts

/-- The locals of the loops: `remotes` maps a rank to its socket. -/
structure Accepting where
  nconnected : ℤ
  nexpected : Int32
  remotes : List (Int32 × ℤ)

/-- `++nconnected` and `remotes[remoteRank] = accepted`. -/
def Accepting.connect (st : Accepting) (remoteRank : Int32) (accepted : ℤ) : Accepting :=
  { st with
    nconnected := st.nconnected + 1
    remotes := (remoteRank, accepted) :: st.remotes.filter (fun e => e.1 ≠ remoteRank) }

/-- The start of a round of either loop: a connection and the rank it announces. -/
def acceptRemote (st : Accepting) : AcceptProg (ℤ × Int32 × Accepting) := do
  let accepted ← acceptSocket
  let remoteRank ← recvInt accepted 0
  return (accepted, remoteRank, st.connect remoteRank accepted)

/-- Send the messages one after the other. -/
def sendEach (fd : ℤ) : List Bytes → AcceptProg Unit
  | [] => return
  | m :: ms => do
      sendSocket fd m
      sendEach fd ms

/-- A round on rank 0: remote rank 0 tells how many connections to expect, and every remote gets the
    list of hosts. -/
def rootRound (hosts : List Bytes) (st : Accepting) : AcceptProg Accepting := do
  let (accepted, remoteRank, st) ← acceptRemote st
  if remoteRank = 0 then do
    let nexpected ← recvInt accepted st.nexpected
    let _ ← mpiBcast (intBytes nexpected)
    sendEach accepted hosts
    return { st with nexpected := nexpected }
  else do
    sendEach accepted hosts
    return st

/-- A round on another rank. -/
def otherRound (st : Accepting) : AcceptProg Accepting := do
  let (_, _, st) ← acceptRemote st
  return st

/-- `sockets[r.first] = r.second`, within the bounds of the vector. -/
def setSocket (sockets : List ℤ) (r : Int32 × ℤ) : Option (List ℤ) :=
  if 0 ≤ r.1.toInt ∧ r.1.toInt < sockets.length then
    some (sockets.set r.1.toInt.toNat r.2)
  else
    none

/-- The end of `accept`: the vector of the sockets. -/
def fillSockets (remotes : List (Int32 × ℤ)) : Option (List ℤ) :=
  remotes.foldlM setSocket (List.replicate remotes.length 0)

/-- Where an acceptor is between two rounds: it has not started, it waits to be told how many
    connectors there are, it accepts, or it has accepted all. -/
inductive Label where
  | start
  | waiting
  | accepting (hosts : List Bytes) (st : Accepting)
  | accepted (sockets : List ℤ)

/-- `SocketInterComm::accept`, from each label to the next. -/
def accept (rank worldSize : ℕ) (hostPortName : StdString) : Label → AcceptProg Label
  | .start =>
      if rank = 0 then do
        let hosts ← collectHosts (List.range' 1 (worldSize - 1))
        let hosts ← ofExcept (sendHosts hosts)
        return .accepting hosts ⟨0, -1, []⟩
      else do
        mpiSend (leBytes 8 hostPortName.bytes.length) 0
        mpiSend hostPortName.bytes 0
        return .waiting
  | .waiting => do
      let nexpected ← mpiBcast (intBytes 0)
      return .accepting [] ⟨0, intOfBytes nexpected, []⟩
  | .accepting hosts st =>
      if st.nconnected ≠ st.nexpected.toInt then
        if rank = 0 then do
          let st ← rootRound hosts st
          return .accepting hosts st
        else do
          let st ← otherRound st
          return .accepting hosts st
      else
        match fillSockets st.remotes with
        | none => overrun
        | some sockets => return .accepted sockets
  | .accepted sockets => return .accepted sockets

/-! ## The vector of the sockets -/

/-- The connections that have been accepted: rank and socket, the last one first. -/
def remotesOf (peers : List (ℕ × ℤ)) : List (Int32 × ℤ) :=
  peers.map (fun p => (Int32.ofNat p.1, p.2))

theorem toInt_rank {r : ℕ} (hr : r < 2 ^ 31) : (Int32.ofNat r).toInt = r :=
  Int32.toInt_ofNat_of_lt hr

theorem connect_remotes {st : Accepting} {peers : List (ℕ × ℤ)} (h : st.remotes = remotesOf peers)
    {r : ℕ} {fd : ℤ} (hr : r < 2 ^ 31) (hpeers : ∀ p ∈ peers, p.1 < 2 ^ 31)
    (hnew : r ∉ peers.map Prod.fst) :
    (st.connect (Int32.ofNat r) fd).remotes = remotesOf ((r, fd) :: peers) := by
  have hkeep : st.remotes.filter (fun e => e.1 ≠ Int32.ofNat r) = st.remotes := by
    rw [List.filter_eq_self, h]
    intro e he
    obtain ⟨p, hp, rfl⟩ := List.mem_map.1 he
    have hne : Int32.ofNat p.1 ≠ Int32.ofNat r := by
      intro hsame
      have hvalue := congrArg Int32.toInt hsame
      rw [toInt_rank (hpeers p hp), toInt_rank hr] at hvalue
      exact hnew (List.mem_map.2 ⟨p, hp, Int.ofNat.inj hvalue⟩)
    simpa using hne
  show (Int32.ofNat r, fd) :: _ = _
  rw [hkeep, h]
  rfl

/-- Entries with different ranks within the bounds all get their places. -/
theorem setSockets_eq_some {peers : List (ℕ × ℤ)} (sockets : List ℤ)
    (hlt : ∀ p ∈ peers, p.1 < sockets.length) (hmax : sockets.length < 2 ^ 31)
    (hnodup : (peers.map Prod.fst).Nodup) :
    ∃ sockets', (remotesOf peers).foldlM setSocket sockets = some sockets' ∧
      sockets'.length = sockets.length ∧ (∀ p ∈ peers, sockets'[p.1]? = some p.2) ∧
      ∀ i, i ∉ peers.map Prod.fst → sockets'[i]? = sockets[i]? := by
  induction peers generalizing sockets with
  | nil => exact ⟨sockets, rfl, rfl, by simp, fun _ _ => rfl⟩
  | cons p peers ih =>
      obtain ⟨r, fd⟩ := p
      obtain ⟨hnew, hrest⟩ := List.nodup_cons.1 hnodup
      have hr : r < sockets.length := hlt (r, fd) (.head _)
      have hset : setSocket sockets (Int32.ofNat r, fd) = some (sockets.set r fd) := by
        have hvalue := toInt_rank (hr.trans hmax)
        rw [setSocket, if_pos (by rw [hvalue]; omega), hvalue, Int.toNat_natCast]
      obtain ⟨sockets', hfold, hlen, hget, hother⟩ := ih (sockets.set r fd)
        (fun p hp => by rw [List.length_set]; exact hlt p (.tail _ hp))
        (by rw [List.length_set]; exact hmax) hrest
      refine ⟨sockets', ?_, hlen.trans List.length_set, ?_, ?_⟩
      · show (setSocket sockets (Int32.ofNat r, fd)).bind _ = _
        rw [hset]
        exact hfold
      · intro p hp
        rcases List.mem_cons.1 hp with rfl | hp
        · rw [hother r hnew, List.getElem?_set_self hr]
        · exact hget p hp
      · intro i hi
        rw [List.map_cons, List.mem_cons, not_or] at hi
        rw [hother i hi.2, List.getElem?_set_ne (Ne.symm hi.1)]

/-- **The vector of the sockets.** With as many connections as ranks, each rank once, every index is
    within the bounds and every socket stands at the rank that it announced. -/
theorem fillSockets_eq_some {peers : List (ℕ × ℤ)} (hlt : ∀ p ∈ peers, p.1 < peers.length)
    (hmax : peers.length < 2 ^ 31) (hnodup : (peers.map Prod.fst).Nodup) :
    ∃ sockets, fillSockets (remotesOf peers) = some sockets ∧ sockets.length = peers.length ∧
      ∀ p ∈ peers, sockets[p.1]? = some p.2 := by
  have hlen : (remotesOf peers).length = peers.length := List.length_map _
  obtain ⟨sockets, hfold, hsame, hget, -⟩ := setSockets_eq_some
    (List.replicate (remotesOf peers).length 0) (by simpa [hlen] using hlt) (by simpa [hlen] using hmax)
    hnodup
  exact ⟨sockets, hfold, by rw [hsame, List.length_replicate, hlen], hget⟩

end Acceptor

end LibIS
