import LibIS.Sim.ConnectionManager

set_option autoImplicit false

/-! # The listener thread (`is_sim.cpp`, `ConnectionManager::listenForClient`)

The thread accepts connections on the listening socket until it has read one whole frame, which it
publishes under the mutex. Its two loops are given as labels with the code that runs from each to
the next. -/

open ByteCodec Prog

namespace LibIS

/-- What the listener thread does to the world outside. `begin` and `finish` are the start and the
    end of the thread. -/
inductive ListenerOp (Conn : Type) where
  | begin
  | openSocket
  | exitThread
  | accept
  | recv (accepted : ℕ) (size : Int)
  | close (accepted : ℕ)
  | lock
  | unlock (cm : ConnectionManager Conn)
  | closeSocket
  | finish
  | throw (e : Fault)
  | overrun

/-- The answers. `accept` does not block: it may find no connection. `recv` may fail, and moves at
    most the bytes asked for. -/
abbrev ListenerOp.Resp {Conn : Type} : ListenerOp Conn → Type
  | .openSocket => Except Fault Unit
  | .exitThread => Bool
  | .accept => Except Fault (Option ℕ)
  | .recv _ _ => Option Bytes
  | .lock => ConnectionManager Conn
  | .throw _ => Empty
  | .overrun => Empty
  | _ => Unit

/-- A program of the listener thread. -/
abbrev ListenerProg (Conn α : Type) := Prog (@ListenerOp.Resp Conn) α

namespace Listener

variable {Conn α : Type}

abbrev beginThread : ListenerProg Conn Unit := op ListenerOp.begin
abbrev openListenSocket : ListenerProg Conn (Except Fault Unit) := op ListenerOp.openSocket
abbrev loadExitThread : ListenerProg Conn Bool := op ListenerOp.exitThread
abbrev acceptSocket : ListenerProg Conn (Except Fault (Option ℕ)) := op ListenerOp.accept
abbrev closeSocket (accepted : ℕ) : ListenerProg Conn Unit := op (ListenerOp.close accepted)
abbrev lockMutex : ListenerProg Conn (ConnectionManager Conn) := op ListenerOp.lock
abbrev unlockMutex (cm : ConnectionManager Conn) : ListenerProg Conn Unit :=
  op (ListenerOp.unlock cm)
abbrev closeListenSocket : ListenerProg Conn Unit := op ListenerOp.closeSocket
abbrev finishThread : ListenerProg Conn Unit := op ListenerOp.finish

abbrev recvSocket (accepted : ℕ) (size : Int) : ListenerProg Conn (Option Bytes) :=
  op (ListenerOp.recv accepted size)

/-- Throw `e`. -/
def raise (e : Fault) : ListenerProg Conn α :=
  .vis (.throw e) Empty.elim

/-- Write or read past the end of a buffer. -/
def overrun : ListenerProg Conn α :=
  .vis .overrun Empty.elim

/-- The return value of `recv`. -/
def moved (received : Option Bytes) : Int :=
  match received with
  | none => -1
  | some bs => bs.length

/-- `portName`, an array of `MPI_MAX_PORT_NAME + 1` characters that was filled with zeros, with the
    bytes received stored in front. -/
def portNameArray (maxPortName : ℕ) (received : Bytes) : Bytes :=
  received ++ zeros (maxPortName + 1 - received.length)

/-- The string at the start of a character array, `none` when no null character ends it within the
    array. No array is longer than a string may be. -/
def cString (array : Bytes) : Option StdString :=
  if 0 ∈ array then
    some ⟨(array.takeWhile (· ≠ 0)).take (2 ^ 62 - 1), by
      rw [List.length_take]
      omega⟩
  else
    none

/-- Print the port name and receive the command, the last part of a frame. -/
def recvCommand (accepted : ℕ) (portName : Bytes) : ListenerProg Conn (Option (Bytes × Int32)) :=
  match cString portName with
  | none => overrun
  | some _ => do
      let cmd ← recvSocket accepted 4
      if moved cmd ≠ 4 then do
        closeSocket accepted
        return none
      else do
        closeSocket accepted
        return some (portName, intOfBytes (cmd.getD []))

/-- The three receives of a frame: length of the port name, port name, command. A connection that
    delivers less is closed and dropped. Nothing keeps the port name within its array. -/
def recvFrame (maxPortName accepted : ℕ) : ListenerProg Conn (Option (Bytes × Int32)) := do
  let portNameLen ← recvSocket accepted 4
  if moved portNameLen ≠ 4 then do
    closeSocket accepted
    return none
  else do
    let portNameLen := (intOfBytes (portNameLen.getD [])).toInt
    let portName ← recvSocket accepted portNameLen
    if moved portName > maxPortName + 1 then
      overrun
    else if moved portName ≠ portNameLen then do
      closeSocket accepted
      return none
    else
      recvCommand accepted (portNameArray maxPortName (portName.getD []))

/-- What the thread does with a whole frame, under the mutex. The port name is printed again,
    whether or not it is the one to connect to. -/
def publishFrame (portName : Bytes) (cmd : Int32) : ListenerProg Conn Unit := do
  let cm ← lockMutex
  match cString portName with
  | none => overrun
  | some clientPort => unlockMutex (cm.publish clientPort cmd)

/-- Where the thread is between two rounds of its loops: `waiting` before it is started, `listening`
    at the head of the outer loop, `accepting` at the head of the inner loop, `leaving` behind both.
    -/
inductive Label where
  | waiting
  | listening
  | accepting
  | leaving
deriving DecidableEq

/-- The part of the outer loop behind the inner one. Without a connection the first receive fails.
    -/
def afterAccept (maxPortName : ℕ) (accepted : Option ℕ) : ListenerProg Conn Label := do
  let exitThread ← loadExitThread
  if exitThread then
    return .leaving
  else
    match accepted with
    | none => return .listening
    | some accepted => do
        let frame ← recvFrame maxPortName accepted
        match frame with
        | none => return .listening
        | some (portName, cmd) => do
            publishFrame portName cmd
            return .leaving

/-- `ConnectionManager::listenForClient`, from each label to the next. -/
def listenForClient (maxPortName : ℕ) : Label → ListenerProg Conn Label
  | .waiting => do
      beginThread
      let result ← openListenSocket
      match result with
      | .error e => raise e
      | .ok _ => return .listening
  | .listening => do
      let exitThread ← loadExitThread
      if exitThread then
        return .leaving
      else
        return .accepting
  | .accepting => do
      let exitThread ← loadExitThread
      if exitThread then
        afterAccept maxPortName none
      else do
        let accepted ← acceptSocket
        match accepted with
        | .error e => raise e
        | .ok none => return .accepting
        | .ok (some accepted) => afterAccept maxPortName (some accepted)
  | .leaving => do
      closeListenSocket
      finishThread
      return .waiting

/-! ## The port name -/

theorem takeWhile_ne_zero_append_zeros (received : Bytes) (n : ℕ) :
    (received ++ zeros n).takeWhile (· ≠ 0) = received.takeWhile (· ≠ 0) := by
  induction received with
  | nil =>
      cases n with
      | zero => rfl
      | succ n => simp [zeros, List.replicate_succ]
  | cons b bs ih =>
      rw [List.cons_append, List.takeWhile_cons, List.takeWhile_cons, ih]

/-- The string in the array is what has been received up to its first null character. -/
theorem cString_eq_some (maxPortName : ℕ) {received : Bytes} (hlen : received.length < 2 ^ 62)
    (h : 0 ∈ received ∨ received.length ≤ maxPortName) :
    ∃ s, cString (portNameArray maxPortName received) = some s ∧
      s.bytes = received.takeWhile (· ≠ 0) := by
  have hmem : (0 : UInt8) ∈ portNameArray maxPortName received := by
    rcases h with h | h
    · exact List.mem_append_left _ h
    · refine List.mem_append_right _ ?_
      rw [zeros, List.mem_replicate]
      exact ⟨by omega, rfl⟩
  refine ⟨_, if_pos hmem, ?_⟩
  show ((portNameArray maxPortName received).takeWhile (· ≠ 0)).take (2 ^ 62 - 1) = _
  rw [portNameArray, takeWhile_ne_zero_append_zeros, List.take_of_length_le]
  have hle := (List.takeWhile_prefix (· ≠ 0) (l := received)).length_le
  omega

/-- A string and its terminator are read back as the string. -/
theorem cString_terminated (maxPortName : ℕ) {s : StdString} (h : 0 ∉ s.bytes)
    (hlen : s.bytes.length + 1 < 2 ^ 62) :
    cString (portNameArray maxPortName (s.bytes ++ [0])) = some s := by
  have hwhile : (s.bytes ++ [0]).takeWhile (· ≠ 0) = s.bytes := by
    rw [List.takeWhile_append_of_pos]
    · simp
    · intro b hb
      have hne : b ≠ 0 := fun hzero => h (hzero ▸ hb)
      simpa using hne
  have hterminated : (s.bytes ++ [0]).length < 2 ^ 62 := by simpa using hlen
  obtain ⟨s', hs', hbytes⟩ := cString_eq_some maxPortName hterminated (.inl (by simp))
  rw [hs', StdString.ext (hbytes.trans hwhile)]

end Listener

end LibIS
