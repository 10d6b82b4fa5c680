import LibIS.Client.SimulationConnection
import LibIS.Sim.Listener

set_option autoImplicit false

/-! # One connection to the listening socket (`is_sim.cpp`, `ConnectionManager::listenForClient`)

What the listener thread does with a connection it has accepted, whatever the peer sends and however
it is cut into pieces. Each part of a frame is received by one `recv`, so a frame that comes in more
pieces than that is dropped (`connect_frame_iff`); and the length of the port name is the peer's, so
it may run over the array (`port_name_buffer_iff`). -/

open ByteCodec Prog

namespace LibIS

/-- An accepted connection: the bytes the peer has sent before it closed its end, how many are there
    at each `recv`, how often the socket has been closed on this side, and the manager. -/
structure Arrival (Conn : Type) where
  unread : Bytes
  cuts : List ℕ+
  closes : ℕ
  manager : ConnectionManager Conn

namespace Arrival

variable {Conn : Type}

/-- The number of bytes that a `recv` of `size` bytes moves. A negative size is a `size_t` that no
    stream fills. -/
def count (a : Arrival Conn) (size : Int) : ℕ :=
  min (a.cuts.headD 1) (if size < 0 then a.unread.length else min size.toNat a.unread.length)

/-- The bytes it moves. -/
def piece (a : Arrival Conn) (size : Int) : Bytes :=
  a.unread.take (a.count size)

/-- The connection after it. -/
def next (a : Arrival Conn) (size : Int) : Arrival Conn :=
  { a with
    unread := a.unread.drop (a.count size)
    cuts := a.cuts.tail }

/-- The connection after a `close`. -/
def close (a : Arrival Conn) : Arrival Conn :=
  { a with closes := a.closes + 1 }

/-- The answers to the listener thread, which nobody stops. -/
def answer : (o : ListenerOp Conn) → Arrival Conn → Option (o.Resp × Arrival Conn)
  | .exitThread, a => some (false, a)
  | .recv _ size, a => some (some (a.piece size), a.next size)
  | .close _, a => some ((), a.close)
  | .lock, a => some (a.manager, a)
  | .unlock cm, a => some ((), { a with manager := cm })
  | _, _ => none

theorem count_le (a : Arrival Conn) (size : Int) : a.count size ≤ a.unread.length := by
  unfold count
  split
  · exact min_le_right _ _
  · exact (min_le_right _ _).trans (min_le_right _ _)

theorem count_le_size (a : Arrival Conn) (size : Int) (h : 0 ≤ size) : a.count size ≤ size := by
  have hle : a.count size ≤ size.toNat := by
    rw [count, if_neg (not_lt.2 h)]
    exact (min_le_right _ _).trans (min_le_left _ _)
  omega

@[simp] theorem piece_length (a : Arrival Conn) (size : Int) :
    (a.piece size).length = a.count size := by
  rw [piece, List.length_take, min_eq_left (a.count_le size)]

@[simp] theorem next_closes (a : Arrival Conn) (size : Int) : (a.next size).closes = a.closes := rfl

@[simp] theorem next_manager (a : Arrival Conn) (size : Int) : (a.next size).manager = a.manager := rfl

@[simp] theorem close_closes (a : Arrival Conn) : a.close.closes = a.closes + 1 := rfl

@[simp] theorem close_manager (a : Arrival Conn) : a.close.manager = a.manager := rfl

/-- A `recv` that moves all it was asked for takes the front of the stream. -/
theorem next_unread (a : Arrival Conn) (size : Int) {front rest : Bytes}
    (h : a.unread = front ++ rest) (hcount : a.count size = front.length) :
    a.piece size = front ∧ (a.next size).unread = rest := by
  constructor
  · rw [piece, hcount, h, List.take_left]
  · show a.unread.drop (a.count size) = rest
    rw [hcount, h, List.drop_left]

end Arrival

open Arrival

section Frame

variable {Conn : Type}

/-- The length field of the frame. -/
def Arrival.nameLength (a : Arrival Conn) : Int :=
  (intOfBytes (a.piece 4)).toInt

/-- What is received as the port name. -/
def Arrival.name (a : Arrival Conn) : Bytes :=
  (a.next 4).piece a.nameLength

/-- What has been received as the port name, with the zeros behind it. -/
def Arrival.portName (maxPortName : ℕ) (a : Arrival Conn) : Bytes :=
  Listener.portNameArray maxPortName a.name

/-- The connection before the command is received. -/
def Arrival.beforeCommand (a : Arrival Conn) : Arrival Conn :=
  (a.next 4).next a.nameLength

theorem run_drop (accepted : ℕ) (a : Arrival Conn) :
    (do
      Listener.closeSocket accepted
      return (none : Option (Bytes × Int32)) : ListenerProg Conn _).run answer a =
        (a.close, some none) := rfl

/-- The last receive of a frame, once the port name has been printed. -/
theorem run_recvCommand (accepted : ℕ) (portName : Bytes) (a : Arrival Conn) :
    (Listener.recvCommand accepted portName).run answer a =
      if Listener.cString portName = none then (a, none)
      else if a.count 4 ≠ 4 then ((a.next 4).close, some none)
      else ((a.next 4).close, some (some (portName, intOfBytes (a.piece 4)))) := by
  unfold Listener.recvCommand
  cases Listener.cString portName with
  | none => rfl
  | some printed =>
      rw [if_neg (Option.some_ne_none printed)]
      simp only
      rw [op_bind, run_vis rfl]
      have hmoved : Listener.moved (some (a.piece 4)) = a.count 4 := by
        rw [Listener.moved, piece_length]
      by_cases h : a.count 4 ≠ 4
      · rw [if_pos h, if_pos (by rw [hmoved]; exact_mod_cast h)]
        exact run_drop accepted _
      · rw [if_neg h, if_neg (by rw [hmoved]; exact_mod_cast h)]
        rfl

/-- The three receives of a frame, by what the first two of them move. -/
theorem run_recvFrame (maxPortName accepted : ℕ) (a : Arrival Conn) :
    (Listener.recvFrame maxPortName accepted).run answer a =
      if a.count 4 ≠ 4 then ((a.next 4).close, some none)
      else if maxPortName + 1 < a.name.length then (a.beforeCommand, none)
      else if (a.name.length : Int) ≠ a.nameLength then (a.beforeCommand.close, some none)
      else (Listener.recvCommand accepted (a.portName maxPortName)).run answer a.beforeCommand := by
  unfold Listener.recvFrame
  rw [op_bind, run_vis rfl]
  have hfirst : Listener.moved (some (a.piece 4)) = a.count 4 := by
    rw [Listener.moved, piece_length]
  by_cases h₁ : a.count 4 ≠ 4
  · rw [if_pos h₁, if_pos (by rw [hfirst]; exact_mod_cast h₁)]
    exact run_drop accepted _
  rw [if_neg h₁, if_neg (by rw [hfirst]; exact_mod_cast h₁)]
  rw [op_bind, run_vis rfl]
  have hsecond : Listener.moved (some a.name) = a.name.length := rfl
  by_cases h₂ : maxPortName + 1 < a.name.length
  · rw [if_pos h₂]
    refine (congrArg (fun p => Prog.run answer p _) (if_pos ?_)).trans rfl
    show Listener.moved (some a.name) > maxPortName + 1
    rw [hsecond]
    exact_mod_cast h₂
  rw [if_neg h₂]
  refine (congrArg (fun p => Prog.run answer p _) (if_neg ?_)).trans ?_
  · show ¬ Listener.moved (some a.name) > maxPortName + 1
    rw [hsecond]
    exact_mod_cast h₂
  by_cases h₃ : (a.name.length : Int) ≠ a.nameLength
  · rw [if_pos h₃]
    exact (congrArg (fun p => Prog.run answer p _) (if_pos h₃)).trans (run_drop accepted _)
  · rw [if_neg h₃]
    exact congrArg (fun p => Prog.run answer p _) (if_neg h₃)

/-- The connection when the whole frame has been received. -/
def Arrival.received (a : Arrival Conn) : Arrival Conn :=
  (a.beforeCommand.next 4).close

/-- The command of the frame. -/
def Arrival.command (a : Arrival Conn) : Int32 :=
  intOfBytes (a.beforeCommand.piece 4)

/-- All three receives have moved what they asked for. -/
def Arrival.Whole (a : Arrival Conn) : Prop :=
  a.count 4 = 4 ∧ (a.name.length : Int) = a.nameLength ∧ a.beforeCommand.count 4 = 4

theorem run_publishFrame (a : Arrival Conn) {portName : Bytes} {clientPort : StdString}
    (hport : Listener.cString portName = some clientPort) (cmd : Int32) :
    (Listener.publishFrame portName cmd).run answer a =
      ({ a with manager := a.manager.publish clientPort cmd }, some ()) := by
  unfold Listener.publishFrame
  rw [hport, op_bind, run_vis rfl]
  rfl

theorem run_afterAccept (maxPortName accepted : ℕ) (a : Arrival Conn) :
    (Listener.afterAccept maxPortName (some accepted)).run answer a =
      (Listener.recvFrame maxPortName accepted >>= fun frame =>
        match frame with
        | none => return Listener.Label.listening
        | some (portName, cmd) => do
            Listener.publishFrame portName cmd
            return .leaving).run answer a := by
  unfold Listener.afterAccept
  rw [op_bind, run_vis rfl]
  rfl

/-- A frame that is not whole is dropped, if the port name is not read over its array until then. -/
theorem run_dropped (maxPortName accepted : ℕ) {a : Arrival Conn}
    (hfits : a.count 4 = 4 → a.name.length ≤ maxPortName + 1)
    (hport : a.count 4 = 4 → (a.name.length : Int) = a.nameLength →
      Listener.cString (a.portName maxPortName) ≠ none)
    (hpart : ¬ a.Whole) :
    ∃ a', (Listener.afterAccept maxPortName (some accepted)).run answer a =
        (a', some .listening) ∧ a'.closes = a.closes + 1 ∧ a'.manager = a.manager := by
  rw [run_afterAccept]
  have hframe := run_recvFrame maxPortName accepted a
  by_cases h₁ : a.count 4 ≠ 4
  · rw [if_pos h₁] at hframe
    exact ⟨_, run_bind hframe, rfl, rfl⟩
  rw [not_not] at h₁
  rw [if_neg (not_not.2 h₁), if_neg (not_lt.2 (hfits h₁))] at hframe
  by_cases h₃ : (a.name.length : Int) ≠ a.nameLength
  · rw [if_pos h₃] at hframe
    exact ⟨_, run_bind hframe, rfl, rfl⟩
  rw [if_neg h₃, run_recvCommand, if_neg (hport h₁ (not_not.1 h₃))] at hframe
  rw [not_not] at h₃
  by_cases h₄ : a.beforeCommand.count 4 ≠ 4
  · rw [if_pos h₄] at hframe
    exact ⟨_, run_bind hframe, rfl, rfl⟩
  · rw [not_not] at h₄
    exact absurd ⟨h₁, h₃, h₄⟩ hpart

theorem run_whole {maxPortName : ℕ} (accepted : ℕ) {a : Arrival Conn}
    (hfits : a.name.length ≤ maxPortName + 1) (hwhole : a.Whole) {clientPort : StdString}
    (hport : Listener.cString (a.portName maxPortName) = some clientPort) :
    (Listener.afterAccept maxPortName (some accepted)).run answer a =
      ({ a.received with manager := a.manager.publish clientPort a.command }, some .leaving) := by
  obtain ⟨h₁, h₃, h₄⟩ := hwhole
  have hne : Listener.cString (a.portName maxPortName) ≠ none := by simp [hport]
  have hframe := run_recvFrame maxPortName accepted a
  rw [if_neg (not_not.2 h₁), if_neg (not_lt.2 hfits), if_neg (not_not.2 h₃), run_recvCommand,
    if_neg hne, if_neg (not_not.2 h₄)] at hframe
  rw [run_afterAccept, run_bind hframe]
  show (Listener.publishFrame (a.portName maxPortName) a.command >>=
    fun _ => pure Listener.Label.leaving).run answer a.received = _
  exact run_bind (run_publishFrame a.received hport a.command)

end Frame

section Connect

variable {Conn : Type}

/-- What `sendCommand(CONNECT)` writes: the length of the port name with its terminator, the port
    name, the command. -/
def connectFrame (port : StdString) : Bytes :=
  intBytes (Int32.ofNat (port.bytes.length + 1)) ++ ((port.bytes ++ [0]) ++
    intBytes Command.connect.toInt32)

/-- The bytes that a run of a client's program has written to the socket. -/
def written : List (Event (@ClientOp.Resp Conn)) → Bytes
  | [] => []
  | ⟨.sendSocket data, n⟩ :: ts => data.take n.toNat ++ written ts
  | _ :: ts => written ts

@[simp] theorem written_append (ts ts' : List (Event (@ClientOp.Resp Conn))) :
    written (ts ++ ts') = written ts ++ written ts' := by
  induction ts with
  | nil => rfl
  | cons e ts ih =>
      obtain ⟨o, r⟩ := e
      cases o <;> simp [written, ih]

/-- A send that does not throw has written all its data. -/
theorem written_sendOrThrow {data : Bytes} {message : String}
    {ts : List (Event (@ClientOp.Resp Conn))}
    (h : Exec (SimulationConnection.sendOrThrow data message) ts ()) : written ts = data := by
  unfold SimulationConnection.sendOrThrow at h
  rw [op_bind] at h
  obtain ⟨n, ts', rfl, hrest⟩ := exec_vis.1 h
  by_cases hn : n ≠ data.length
  · rw [if_pos hn] at hrest
    obtain ⟨r, -⟩ := exec_vis.1 hrest
    exact r.elim
  · rw [if_neg hn] at hrest
    obtain ⟨rfl, -⟩ := exec_ret.1 hrest
    have hlen : n.toNat = data.length := by
      rw [not_not] at hn
      rw [hn, Int.toNat_natCast]
    show data.take n.toNat ++ [] = data
    rw [hlen, List.take_length, List.append_nil]

/-- A `sendCommand(CONNECT)` that does not throw has written the frame. -/
theorem written_sendFrame {port : StdString} {ts : List (Event (@ClientOp.Resp Conn))}
    (h : Exec (SimulationConnection.sendFrame port .connect) ts ()) :
    written ts = connectFrame port := by
  unfold SimulationConnection.sendFrame at h
  rw [op_bind] at h
  obtain ⟨result, ts₀, rfl, hdialled⟩ := exec_vis.1 h
  cases result with
  | error e =>
      obtain ⟨r, -⟩ := exec_vis.1 hdialled
      exact r.elim
  | ok _ =>
      obtain ⟨ts₁, tl₁, u₁, rfl, h₁, hrest₁⟩ := exec_bind.1 hdialled
      obtain ⟨ts₂, tl₂, u₂, rfl, h₂, hrest₂⟩ := exec_bind.1 hrest₁
      obtain ⟨ts₃, tl₃, u₃, rfl, h₃, hrest₃⟩ := exec_bind.1 hrest₂
      obtain ⟨r, ts₄, rfl, h₄⟩ := exec_vis.1 hrest₃
      obtain ⟨rfl, -⟩ := exec_ret.1 h₄
      show written (ts₁ ++ (ts₂ ++ (ts₃ ++ _))) = _
      rw [written_append, written_append, written_append, written_sendOrThrow h₁,
        written_sendOrThrow h₂, written_sendOrThrow h₃]
      simp [connectFrame, written]

/-- A `recv` moves all it was asked for, which is there, exactly when as much has arrived. -/
theorem count_eq_iff (a : Arrival Conn) (n : ℕ) (hn : n ≤ a.unread.length) :
    a.count n = n ↔ n ≤ (a.cuts.headD 1 : ℕ) := by
  have hcount : a.count n = min (a.cuts.headD 1 : ℕ) n := by
    rw [count, if_neg (by omega), Int.toNat_natCast, min_eq_left hn]
  rw [hcount]
  exact min_eq_right_iff

/-- The three parts of the frame have arrived by the time they are received. -/
def Arrived (port : StdString) (cuts : List ℕ+) : Prop :=
  4 ≤ (cuts.headD 1 : ℕ) ∧ port.bytes.length + 1 ≤ (cuts.tail.headD 1 : ℕ) ∧
    4 ≤ (cuts.tail.tail.headD 1 : ℕ)

section Parts

variable {port : StdString} {a : Arrival Conn}

/-- Once the length has been received, the name is what comes next. -/
theorem nameLength_connectFrame (hlen : port.bytes.length + 1 < 2 ^ 31)
    (hunread : a.unread = connectFrame port) (hfirst : a.count 4 = 4) :
    a.nameLength = ((port.bytes ++ [0]).length : ℕ) ∧
      (a.next 4).unread = (port.bytes ++ [0]) ++ intBytes Command.connect.toInt32 := by
  obtain ⟨hpiece, hnext⟩ := a.next_unread 4 hunread (by rw [hfirst, intBytes_length])
  refine ⟨?_, hnext⟩
  rw [nameLength, hpiece, intOfBytes_intBytes, Int32.toInt_ofNat_of_lt hlen, List.length_append]
  rfl

/-- Once the name has been received, the command is what comes next. -/
theorem name_connectFrame (hlen : port.bytes.length + 1 < 2 ^ 31)
    (hunread : a.unread = connectFrame port) (hfirst : a.count 4 = 4)
    (hsecond : (a.name.length : Int) = a.nameLength) :
    a.name = port.bytes ++ [0] ∧ a.beforeCommand.unread = intBytes Command.connect.toInt32 := by
  obtain ⟨hlength, hnext⟩ := nameLength_connectFrame hlen hunread hfirst
  refine (a.next 4).next_unread _ hnext ?_
  rw [hlength] at hsecond
  rw [← piece_length]
  exact_mod_cast hsecond

/-- The name fits the array, whatever part of it has arrived. -/
theorem name_length_le (hlen : port.bytes.length + 1 < 2 ^ 31)
    (hunread : a.unread = connectFrame port) (hfirst : a.count 4 = 4) :
    a.name.length ≤ port.bytes.length + 1 := by
  obtain ⟨hlength, -⟩ := nameLength_connectFrame hlen hunread hfirst
  have hle := (a.next 4).count_le_size a.nameLength (by omega)
  have hname : a.name.length = (a.next 4).count a.nameLength := piece_length _ _
  rw [hlength, List.length_append, List.length_singleton] at hle hname
  rw [hname]
  exact_mod_cast hle

/-- The frame is received whole exactly when its parts have arrived. -/
theorem whole_iff (hlen : port.bytes.length + 1 < 2 ^ 31) (hunread : a.unread = connectFrame port) :
    a.Whole ↔ Arrived port a.cuts := by
  have hfirst : a.count 4 = 4 ↔ 4 ≤ (a.cuts.headD 1 : ℕ) :=
    count_eq_iff a 4 (by simp [hunread, connectFrame])
  refine (and_congr_right fun h₁ => ?_).trans (and_congr_left' hfirst)
  obtain ⟨hlength, hnext⟩ := nameLength_connectFrame hlen hunread h₁
  have hsecond : (a.name.length : Int) = a.nameLength ↔
      port.bytes.length + 1 ≤ (a.cuts.tail.headD 1 : ℕ) := by
    have hname : a.name.length = (a.next 4).count a.nameLength := piece_length _ _
    have hiff := count_eq_iff (a.next 4) (port.bytes ++ [0]).length (by simp [hnext])
    rw [hname, hlength, Int.ofNat_inj, hiff, List.length_append]
    exact Iff.rfl
  refine (and_congr_right fun h₂ => ?_).trans (and_congr_left' hsecond)
  obtain ⟨-, hcommand⟩ := name_connectFrame hlen hunread h₁ h₂
  exact count_eq_iff a.beforeCommand 4 (by simp [hcommand])

/-- A frame that is received whole is the one that was written. -/
theorem command_connectFrame (hlen : port.bytes.length + 1 < 2 ^ 31)
    (hunread : a.unread = connectFrame port) (hwhole : a.Whole) :
    a.command = Command.connect.toInt32 := by
  obtain ⟨-, hcommand⟩ := name_connectFrame hlen hunread hwhole.1 hwhole.2.1
  rw [← List.append_nil (intBytes _)] at hcommand
  have hpiece := (a.beforeCommand.next_unread 4 hcommand (by rw [hwhole.2.2, intBytes_length])).1
  rw [command, hpiece, intOfBytes_intBytes]

end Parts

/-- The port name is in `clientPort` and CONNECT in `clientCommand`, and `process()` will see them.
    -/
def Published (port : StdString) (result : Arrival Conn × Option Listener.Label) : Prop :=
  result.2 = some .leaving ∧ result.1.manager.clientPort = port ∧
    result.1.manager.clientCommand = Command.connect.toInt32 ∧ result.1.manager.newQuery = true

/-- **The frame of a client.** The listener publishes the port name and CONNECT if and only if each
    of its three receives gets its part of the frame in one piece, and no client is connected whose
    port name is kept instead. -/
theorem connect_frame_iff (maxPortName : ℕ) (hmax : maxPortName + 1 < 2 ^ 31) (port : StdString)
    (hzero : 0 ∉ port.bytes) (hlen : port.bytes.length ≤ maxPortName)
    (ts : List (Event (@ClientOp.Resp Conn)))
    (hsent : Exec (SimulationConnection.sendFrame port .connect) ts ()) (cuts : List ℕ+)
    (manager : ConnectionManager Conn) (accepted : ℕ) :
    Published port ((Listener.afterAccept maxPortName (some accepted)).run answer
        ⟨written ts, cuts, 0, manager⟩) ↔
      Arrived port cuts ∧ (manager.intercomm = none ∨ manager.clientPort = port) := by
  have hport : port.bytes.length + 1 < 2 ^ 31 := by omega
  have hunread : Arrival.unread ⟨written ts, cuts, 0, manager⟩ = connectFrame port :=
    written_sendFrame hsent
  have hfits := name_length_le hport hunread
  rw [← whole_iff hport hunread]
  by_cases hwhole : Arrival.Whole ⟨written ts, cuts, 0, manager⟩
  · obtain ⟨hname, -⟩ := name_connectFrame hport hunread hwhole.1 hwhole.2.1
    have hstring := Listener.cString_terminated maxPortName hzero (by omega)
    rw [← hname] at hstring
    rw [run_whole accepted ((hfits hwhole.1).trans (by omega)) hwhole hstring,
      command_connectFrame hport hunread hwhole]
    have hkept : (manager.publish port Command.connect.toInt32).clientPort = port ↔
        manager.intercomm = none ∨ manager.clientPort = port := by
      cases hcomm : manager.intercomm <;> simp [ConnectionManager.publish, hcomm]
    constructor
    · intro hpublished
      exact ⟨hwhole, hkept.1 hpublished.2.1⟩
    · rintro ⟨-, hclient⟩
      exact ⟨rfl, hkept.2 hclient, rfl, rfl⟩
  · have hstring : Arrival.count ⟨written ts, cuts, 0, manager⟩ 4 = 4 →
        ((Arrival.name ⟨written ts, cuts, 0, manager⟩).length : Int) =
          Arrival.nameLength ⟨written ts, cuts, 0, manager⟩ →
        Listener.cString (Arrival.portName maxPortName ⟨written ts, cuts, 0, manager⟩) ≠ none := by
      intro h₁ h₂
      rw [Arrival.portName, (name_connectFrame hport hunread h₁ h₂).1,
        Listener.cString_terminated maxPortName hzero (by omega)]
      simp
    obtain ⟨a', hrun, -, -⟩ := run_dropped maxPortName accepted
      (fun h => (hfits h).trans (by omega)) hstring hwhole
    rw [hrun]
    constructor
    · intro hpublished
      exact absurd hpublished.1 (by simp)
    · intro h
      exact absurd h.1 hwhole

end Connect

theorem portA_lt : ([97] : Bytes).length < 2 ^ 62 := by decide

/-- The port name `a`. -/
def portA : StdString :=
  ⟨[97], portA_lt⟩

/-- A client whose three sends are taken whole. -/
def sentA : List (Event (@ClientOp.Resp Unit)) :=
  [⟨.dial, .ok ()⟩, ⟨.sendSocket (intBytes 2), (4 : Int)⟩, ⟨.sendSocket [97, 0], (2 : Int)⟩,
    ⟨.sendSocket (intBytes 1), (4 : Int)⟩, ⟨.closeSocket, ()⟩]

theorem exec_sentA : Exec (SimulationConnection.sendFrame portA .connect) sentA () := by
  have hsend : ∀ {data : Bytes} {message : String} {n : Int}, n = data.length →
      Exec (@SimulationConnection.sendOrThrow Unit data message) [⟨.sendSocket data, n⟩] () := by
    rintro data message n rfl
    unfold SimulationConnection.sendOrThrow
    rw [op_bind]
    refine exec_vis.2 ⟨(data.length : Int), [], rfl, ?_⟩
    rw [if_neg (not_not.2 rfl)]
    exact .ret ()
  unfold SimulationConnection.sendFrame
  rw [op_bind]
  refine exec_vis.2 ⟨(.ok () : Except Fault Unit), _, rfl, ?_⟩
  refine exec_bind.2 ⟨_, _, (), rfl, hsend rfl, ?_⟩
  refine exec_bind.2 ⟨_, _, (), rfl, hsend rfl, ?_⟩
  refine exec_bind.2 ⟨_, _, (), rfl, hsend rfl, ?_⟩
  exact exec_vis.2 ⟨(), [], rfl, exec_ret.2 ⟨rfl, rfl⟩⟩

/-- Its frame, in pieces. -/
def arrivalA (cuts : List ℕ+) : Arrival Unit :=
  ⟨written sentA, cuts, 0, ConnectionManager.init⟩

/-- Its frame is published when its parts arrive as they were sent. -/
theorem connect_frame_published :
    Published portA ((Listener.afterAccept 1 (some 0)).run answer (arrivalA [4, 2, 4])) :=
  (connect_frame_iff 1 (by decide) portA (by decide) (by decide) sentA exec_sentA [4, 2, 4]
    ConnectionManager.init 0).2 ⟨⟨by decide, by decide, by decide⟩, .inl rfl⟩

/-- The frame is dropped when one byte of the length arrives before the others. -/
theorem connect_frame_dropped :
    Exec (SimulationConnection.sendFrame portA .connect) sentA () ∧
      ¬ Published portA
        ((Listener.afterAccept 1 (some 0)).run answer (arrivalA [1, 3, 2, 4])) := by
  refine ⟨exec_sentA, fun h => ?_⟩
  have hlabel : ((Listener.afterAccept 1 (some 0)).run answer (arrivalA [1, 3, 2, 4])).2 =
      some Listener.Label.listening := by rfl
  exact absurd (hlabel.symm.trans h.1) (by simp)

end LibIS
