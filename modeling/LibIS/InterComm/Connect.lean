import LibIS.InterComm.HostExchange
import LibIS.InterComm.HostName
import LibIS.Sim.ConnectionManager

set_option autoImplicit false

/-! # Connecting to the acceptors (`intercomm.cpp`, `SocketInterComm::connect`)

What a connector runs, over the operations it performs on the world outside. All connectors dial
acceptor 0, which answers with the hosts of the others, and then dial these. Both loops go through
the connectors in groups, with a barrier behind each group. Labels stand where a connector may wait.
-/

open ByteCodec Prog

namespace LibIS

/-- The number of connections that a listening socket is told to queue, and the size of a group. -/
def socketMaxSimultaneousConnections : ℕ := 32

/-- What a connector does to the world outside. A barrier is entered and left. -/
inductive ConnectOp where
  | socket
  | lookup (servername : Bytes)
  | connect (fd : ℤ) (server : Bytes) (port : ℕ)
  | send (fd : ℤ) (data : Bytes)
  | recv (fd : ℤ) (size : ℕ)
  | arrive
  | leave
  | throw (e : ConnectFault)

/-- The answers. `socket` may be answered by -1 and a lookup by nothing; a connect is answered by
    whether the connection stands. -/
abbrev ConnectOp.Resp : ConnectOp → Type
  | .socket => ℤ
  | .lookup _ => Option Bytes
  | .connect _ _ _ => Bool
  | .recv _ _ => Bytes
  | .throw _ => Empty
  | _ => Unit

/-- A program of a connector. -/
abbrev ConnectProg (α : Type) := Prog ConnectOp.Resp α

namespace Connector

variable {α : Type}

abbrev socket : ConnectProg ℤ := op ConnectOp.socket
abbrev lookup (servername : Bytes) : ConnectProg (Option Bytes) := op (ConnectOp.lookup servername)
abbrev connectSocket (fd : ℤ) (server : Bytes) (port : ℕ) : ConnectProg Bool :=
  op (ConnectOp.connect fd server port)
abbrev sendSocket (fd : ℤ) (data : Bytes) : ConnectProg Unit := op (ConnectOp.send fd data)
abbrev recvSocket (fd : ℤ) (size : ℕ) : ConnectProg Bytes := op (ConnectOp.recv fd size)
abbrev arrive : ConnectProg Unit := op ConnectOp.arrive
abbrev leave : ConnectProg Unit := op ConnectOp.leave

def throw (e : ConnectFault) : ConnectProg α :=
  .vis (.throw e) Empty.elim

def throwMessage (what : String) : ConnectProg α :=
  throw (.fault (.runtimeError what))

/-- Go on with a result, or throw. -/
def ofExcept : Except ConnectFault α → ConnectProg α
  | .ok a => return a
  | .error e => throw e

/-- `htons`, of a port that was read as an `int`. -/
def htons (port : ℤ) : ℕ :=
  (port % 65536).toNat

/-- `parseHost` and `gethostbyname`. -/
def resolve (host : StdString) : ConnectProg (Bytes × ℤ) := do
  let (servername, port) ← ofExcept (parseHost host)
  match ← lookup servername with
  | none => throwMessage ("Lookup failed for remote " ++ host.text)
  | some server => return (server, port)

/-- `::connect`, or throw. -/
def dial (fd : ℤ) (server : Bytes) (port : ℤ) (what : String) : ConnectProg Unit := do
  let connected ← connectSocket fd server (htons port)
  if connected then
    return ()
  else
    throwMessage what

/-- The number of groups. -/
def numGroups (worldSize : ℕ) : ℕ :=
  (worldSize + (socketMaxSimultaneousConnections - 1)) / socketMaxSimultaneousConnections

/-- The values of `i` in `for (int i = 0; i < worldSize; i += SOCKET_MAX_SIMULTANEOUS_CONNECTIONS)`.
    -/
def groups (worldSize : ℕ) : List ℕ :=
  List.range' 0 (numGroups worldSize) socketMaxSimultaneousConnections

/-- The connectors of the group at `i`. -/
def InGroup (rank i : ℕ) : Prop :=
  i ≤ rank ∧ rank < i + socketMaxSimultaneousConnections

instance (rank i : ℕ) : Decidable (InGroup rank i) :=
  inferInstanceAs (Decidable (_ ∧ _))

/-- Dial rank 0 of the remote, and announce the rank, and from rank 0 the number of connectors. -/
def dialRoot (rank worldSize : ℕ) (sock : ℤ) (server : Bytes) (port : ℤ) : ConnectProg Unit := do
  dial sock server port "Failed to connect to remote rank 0"
  sendSocket sock (intBytes (Int32.ofNat rank))
  if rank = 0 then
    sendSocket sock (intBytes (Int32.ofNat worldSize))
  else
    return ()

/-- The list of the other hosts is received on the socket. -/
def onSocket (sock : ℤ) : (o : RecvOp Fault) → ConnectProg o.Resp
  | .recv size => recvSocket sock size
  | .throw e => throw (.fault e)

/-- Dial the other hosts one after the other, and announce the rank to each. The result of `socket`
    is not looked at. -/
def dialAll (rank : ℕ) : List StdString → List ℤ → ConnectProg (List ℤ)
  | [], sockets => return sockets
  | r :: hosts, sockets => do
      let sock ← socket
      let (server, port) ← resolve r
      dial sock server port ("Failed to connect to remote host " ++ r.text)
      sendSocket sock (intBytes (Int32.ofNat rank))
      dialAll rank hosts (sockets ++ [sock])

/-- Where a connector is: it has not started; before a group of the first loop, with the values of
    `i` that are left; waiting for the hosts; in the barrier behind the group; the same for the
    second loop; or at the end. -/
inductive Label where
  | start
  | rootGroup (is : List ℕ) (sock : ℤ) (server : Bytes) (port : ℤ) (remoteHosts : List StdString)
  | asking (is : List ℕ) (sock : ℤ) (server : Bytes) (port : ℤ)
  | rootBarrier (is : List ℕ) (sock : ℤ) (server : Bytes) (port : ℤ) (remoteHosts : List StdString)
  | group (is : List ℕ) (sockets : List ℤ) (remoteHosts : List StdString)
  | barrier (is : List ℕ) (sockets : List ℤ) (remoteHosts : List StdString)
  | connected (sockets : List ℤ)

/-- `SocketInterComm::connect`, from each label to the next. -/
def connect (alloc : Allocator) (rank worldSize : ℕ) (host : StdString) : Label → ConnectProg Label
  | .start => do
      let sock ← socket
      if sock = -1 then
        throwMessage "failed to make socket"
      else do
        let (server, port) ← resolve host
        return .rootGroup (groups worldSize) sock server port []
  | .rootGroup [] sock _ _ remoteHosts => return .group (groups worldSize) [sock] remoteHosts
  | .rootGroup (i :: is) sock server port remoteHosts =>
      if InGroup rank i then do
        dialRoot rank worldSize sock server port
        return .asking is sock server port
      else do
        arrive
        return .rootBarrier is sock server port remoteHosts
  | .asking is sock server port => do
      let remoteHosts ← (recvHosts alloc).interp (onSocket sock)
      arrive
      return .rootBarrier is sock server port remoteHosts
  | .rootBarrier is sock server port remoteHosts => do
      leave
      return .rootGroup is sock server port remoteHosts
  | .group [] sockets _ => return .connected sockets
  | .group (i :: is) sockets remoteHosts => do
      let sockets ← if InGroup rank i then dialAll rank remoteHosts sockets else pure sockets
      arrive
      return .barrier is sockets remoteHosts
  | .barrier is sockets remoteHosts => do
      leave
      return .group is sockets remoteHosts
  | .connected sockets => return .connected sockets

/-! ## The groups -/

section Groups

variable {worldSize rank j : ℕ}

/-- The values of `i` from group `j` on. -/
def groupsFrom (worldSize j : ℕ) : List ℕ :=
  List.range' (socketMaxSimultaneousConnections * j) (numGroups worldSize - j)
    socketMaxSimultaneousConnections

theorem groupsFrom_of_lt (h : j < numGroups worldSize) :
    groupsFrom worldSize j =
      socketMaxSimultaneousConnections * j :: groupsFrom worldSize (j + 1) := by
  obtain ⟨n, hn⟩ := Nat.exists_eq_add_of_lt h
  have hleft : numGroups worldSize - j = n + 1 := by omega
  have hnext : numGroups worldSize - (j + 1) = n := by omega
  rw [groupsFrom, groupsFrom, hleft, hnext, List.range'_succ]
  rfl

theorem groupsFrom_of_le (h : numGroups worldSize ≤ j) : groupsFrom worldSize j = [] := by
  rw [groupsFrom, Nat.sub_eq_zero_of_le h]
  rfl

theorem inGroup_iff :
    InGroup rank (socketMaxSimultaneousConnections * j) ↔
      rank / socketMaxSimultaneousConnections = j := by
  unfold InGroup socketMaxSimultaneousConnections
  omega

theorem div_lt_numGroups (h : rank < worldSize) :
    rank / socketMaxSimultaneousConnections < numGroups worldSize := by
  unfold numGroups socketMaxSimultaneousConnections
  omega

theorem mem_groups {i : ℕ} :
    i ∈ groups worldSize ↔ ∃ j, j < numGroups worldSize ∧ i = socketMaxSimultaneousConnections * j := by
  rw [groups, List.mem_range']
  simp only [Nat.zero_add]

/-- Every connector is in exactly one group. -/
theorem filter_inGroup (h : rank < worldSize) :
    (groups worldSize).filter (fun i => InGroup rank i) =
      [socketMaxSimultaneousConnections * (rank / socketMaxSimultaneousConnections)] := by
  have hnodup : ((groups worldSize).filter (fun i => InGroup rank i)).Nodup :=
    List.Nodup.filter _ (List.nodup_range' _ (by decide))
  refine List.perm_singleton.1 ?_
  refine (List.perm_ext_iff_of_nodup hnodup (List.nodup_singleton _)).2 (fun i => ?_)
  rw [List.mem_filter, mem_groups, List.mem_singleton, decide_eq_true_eq]
  constructor
  · rintro ⟨⟨j, -, rfl⟩, hin⟩
    rw [inGroup_iff.1 hin]
  · rintro rfl
    exact ⟨⟨_, div_lt_numGroups h, rfl⟩, inGroup_iff.2 rfl⟩

end Groups

end Connector

end LibIS
