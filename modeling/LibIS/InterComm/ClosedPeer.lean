import LibIS.InterComm.Socket
import LibIS.Sim.ConnectionManager
import Mathlib.Logic.Function.Basic

set_option autoImplicit false

/-! # A closed peer (`intercomm.cpp`, `SocketInterComm::recv` / `send`)

At the end of the stream `::recv` returns 0, which `recv` adds to its counter and tries again. So
the loop ends exactly when the peer has sent all that was asked for before it closed its end.
`::send` still takes bytes until the peer's reset has come, and then kills the program by SIGPIPE.
`process()` enters the loops as soon as `probe` finds the socket readable, which it is at the end
of the stream. -/

open ByteCodec Prog

namespace LibIS

/-! ## The rounds of a transfer -/

namespace Transfer

variable {t : Transfer}

/-- The bytes that a call still asks for. -/
def missing (t : Transfer) : ℕ :=
  t.size.toNat - t.counter.toNat

/-- A round that moves `k` bytes takes them off what is missing. -/
theorem round_missing (hcounter : t.counter ≤ t.size) {req : Request} (hreq : t.request = some req)
    {k : ℕ} (hle : k ≤ req.length.toNat) (hint : k < 2 ^ 31) :
    (t.round (Int64.ofNat k)).counter ≤ (t.round (Int64.ofNat k)).size ∧ 0 < t.missing ∧
      (t.round (Int64.ofNat k)).missing + k = t.missing := by
  obtain ⟨-, hround, hfits⟩ := t.round_ofNat hcounter hreq hle hint
  obtain ⟨hne, -⟩ := request_eq_some.1 hreq
  rw [ne_eq, ← UInt64.toNat_inj] at hne
  rw [UInt64.le_iff_toNat_le] at hcounter
  refine ⟨?_, ?_, ?_⟩
  · rw [UInt64.le_iff_toNat_le, round_size, hround]
    exact hfits
  · simp only [missing]
    omega
  · simp only [missing, round_size, hround]
    omega

theorem exists_request (hcounter : t.counter ≤ t.size) (h : 0 < t.missing) :
    ∃ req, t.request = some req ∧ 1 ≤ req.length.toNat := by
  have hne : t.counter ≠ t.size := by
    intro heq
    rw [missing, heq] at h
    omega
  have hreq := request_eq_some.2 ⟨hne, rfl⟩
  exact ⟨_, hreq, one_le_request hcounter hreq⟩

theorem request_of_missing (hcounter : t.counter ≤ t.size) (h : t.missing = 0) :
    t.request = none := by
  rw [request_eq_none, ← UInt64.toNat_inj]
  rw [UInt64.le_iff_toNat_le] at hcounter
  rw [missing] at h
  omega

end Transfer

/-! ## Receiving -/

/-- A call of `recv`, and what the peer has sent before it closed its end and is still unread. -/
structure Draining where
  transfer : Transfer
  unread : Bytes

namespace Draining

/-- One round: `::recv` moves at least one byte while there are any, and then returns 0. -/
inductive Step : Draining → Draining → Prop
  | recv {t : Transfer} {unread : Bytes} {req : Request} (k : ℕ) (hreq : t.request = some req)
      (hle : k ≤ req.length.toNat) (havail : k ≤ unread.length) (hint : k < 2 ^ 31)
      (hend : k = 0 ↔ unread = []) :
      Step ⟨t, unread⟩ ⟨t.round (Int64.ofNat k), unread.drop k⟩

/-- The loop is left after finitely many rounds, however many bytes each of them moves. -/
def Ends (d : Draining) : Prop :=
  ¬ ∃ run : ℕ → Draining, run 0 = d ∧ ∀ n, Step (run n) (run (n + 1))

/-- The bytes that the call still asks for. -/
def missing (d : Draining) : ℕ :=
  d.transfer.missing

/-- The counter of a call does not run past its size. -/
def WF (d : Draining) : Prop :=
  d.transfer.counter ≤ d.transfer.size

variable {d d' : Draining}

/-- A round takes `k` bytes off the stream and off what is missing. -/
theorem Step.spec (hd : d.WF) (h : Step d d') : d'.WF ∧ 0 < d.missing ∧
    ∃ k, k ≤ d.unread.length ∧ d'.unread = d.unread.drop k ∧ d'.missing + k = d.missing ∧
      (k = 0 ↔ d.unread = []) := by
  cases h with
  | recv k hreq hle havail hint hend =>
      obtain ⟨hcounter, hpos, hmissing⟩ := Transfer.round_missing hd hreq hle hint
      exact ⟨hcounter, hpos, k, havail, rfl, hmissing, hend⟩

theorem exists_step (hd : d.WF) (h : 0 < d.missing) : ∃ d', Step d d' := by
  obtain ⟨t, unread⟩ := d
  obtain ⟨req, hreq, hone⟩ := Transfer.exists_request hd h
  cases unread with
  | nil => exact ⟨_, .recv 0 hreq (Nat.zero_le _) (le_refl 0) (by decide) (by simp)⟩
  | cons b bs => exact ⟨_, .recv 1 hreq hone (by simp) (by decide) (by simp)⟩

/-- When all that is missing has been sent, each round brings the end nearer. -/
theorem ends_of_le (hd : d.WF) (h : d.missing ≤ d.unread.length) : d.Ends := by
  rintro ⟨run, hzero, hrun⟩
  have hinv : ∀ n, (run n).WF ∧ (run n).missing + n ≤ d.missing ∧
      (run n).missing ≤ (run n).unread.length := by
    intro n
    induction n with
    | zero =>
        rw [hzero]
        exact ⟨hd, le_refl _, h⟩
    | succ n ih =>
        obtain ⟨hwf, hdown, henough⟩ := ih
        obtain ⟨hwf', hpos, k, -, hunread, hmissing, hend⟩ := (hrun n).spec hwf
        have hk : k ≠ 0 := by
          intro hzero'
          rw [hend.1 hzero', List.length_nil] at henough
          omega
        refine ⟨hwf', by omega, ?_⟩
        rw [hunread, List.length_drop]
        omega
  have hlate := (hinv (d.missing + 1)).2.1
  omega

/-- When the peer has sent less, some byte stays missing for ever. -/
theorem not_ends_of_lt (hd : d.WF) (h : d.unread.length < d.missing) : ¬ d.Ends := by
  classical
  -- the calls that are short of bytes, each with a next one
  let Short : Type := { e : Draining // e.WF ∧ e.unread.length < e.missing }
  have hnext : ∀ e : Short, ∃ e' : Short, Step e.1 e'.1 := by
    rintro ⟨e, hwf, hshort⟩
    obtain ⟨e', hstep⟩ := exists_step hwf (by omega)
    obtain ⟨hwf', -, k, havail, hunread, hmissing, hend⟩ := hstep.spec hwf
    refine ⟨⟨e', hwf', ?_⟩, hstep⟩
    rw [hunread, List.length_drop]
    by_cases hk : k = 0
    · omega
    · have hne : e.unread.length ≠ 0 := by
        rw [ne_eq, List.length_eq_zero_iff, ← hend]
        exact hk
      omega
  choose next hstep using hnext
  have hrun : ∀ n, Step ((next^[n]) ⟨d, hd, h⟩).1 ((next^[n + 1]) ⟨d, hd, h⟩).1 := by
    intro n
    rw [Function.iterate_succ_apply']
    exact hstep _
  exact fun hends => hends ⟨fun n => ((next^[n]) ⟨d, hd, h⟩).1, rfl, hrun⟩

/-- The loop ends exactly when the peer has sent what is missing. -/
theorem ends_iff (hd : d.WF) : d.Ends ↔ d.missing ≤ d.unread.length := by
  constructor
  · intro hends
    by_contra hlt
    exact not_ends_of_lt hd (by omega) hends
  · exact ends_of_le hd

end Draining

/-! ## Sending -/

/-- A call of `send`, and how many more bytes the kernel takes before it knows that the peer is
    gone. From then on `::send`, which is called without flags, kills the program by SIGPIPE. -/
structure Sending where
  transfer : Transfer
  room : ℕ

namespace Sending

/-- One round: `::send` moves at least one byte. -/
inductive Step : Sending → Sending → Prop
  | send {t : Transfer} {room : ℕ} {req : Request} (k : ℕ) (hreq : t.request = some req)
      (hpos : 0 < k) (hle : k ≤ req.length.toNat) (hroom : k ≤ room) (hint : k < 2 ^ 31) :
      Step ⟨t, room⟩ ⟨t.round (Int64.ofNat k), room - k⟩

/-- The loop is left after finitely many rounds, and the program is not killed before. -/
inductive Ends : Sending → Prop
  | done {d : Sending} (h : d.transfer.request = none) : Ends d
  | later {d : Sending} (hmove : ∃ d', Step d d') (hall : ∀ d', Step d d' → Ends d') : Ends d

variable {d d' : Sending}

/-- A round takes `k` bytes off what is missing and off the room. -/
theorem Step.spec (hd : d.transfer.counter ≤ d.transfer.size) (h : Step d d') :
    d'.transfer.counter ≤ d'.transfer.size ∧ 0 < d.transfer.missing ∧
      ∃ k, 0 < k ∧ k ≤ d.room ∧ d'.room = d.room - k ∧
        d'.transfer.missing + k = d.transfer.missing := by
  cases h with
  | send k hreq hpos hle hroom hint =>
      obtain ⟨hcounter, hmore, hmissing⟩ := Transfer.round_missing hd hreq hle hint
      exact ⟨hcounter, hmore, k, hpos, hroom, rfl, hmissing⟩

/-- The loop ends exactly when all that is missing is still taken. -/
theorem ends_iff (hd : d.transfer.counter ≤ d.transfer.size) :
    d.Ends ↔ d.transfer.missing ≤ d.room := by
  constructor
  · intro hends
    induction hends with
    | @done d h =>
        rw [Transfer.request_eq_none] at h
        rw [Transfer.missing, h]
        omega
    | later hmove _ ih =>
        obtain ⟨d', hstep⟩ := hmove
        obtain ⟨hd', -, k, -, hroom, hroom', hmissing⟩ := hstep.spec hd
        have hrest := ih d' hstep hd'
        omega
  · intro hroom
    -- each round leaves less missing
    induction hn : d.transfer.missing using Nat.strong_induction_on generalizing d with
    | _ n ih =>
        by_cases hzero : d.transfer.missing = 0
        · exact .done (Transfer.request_of_missing hd hzero)
        · obtain ⟨req, hreq, hone⟩ := Transfer.exists_request hd (by omega)
          refine .later ⟨_, .send 1 hreq Nat.one_pos hone (by omega) (by decide)⟩ ?_
          intro d' hstep
          obtain ⟨hd', -, k, hpos, -, hroom', hmissing⟩ := hstep.spec hd
          exact ih d'.transfer.missing (by omega) hd' (by omega) rfl

end Sending

/-! ## `process()` -/

section Process

variable {Conn α β : Type}

/-- What a simulation rank finds when the client has closed all its sockets: by client rank what is
    unread and how many bytes are still taken, and what rank 0 of the simulation broadcasts in the
    call. -/
structure Abandoned where
  unread : ℕ → Bytes
  room : ℕ → ℕ
  casts : List Bytes

/-- The size of the data as a `size_t`. -/
def byteCount (data : Bytes) : ℕ :=
  (UInt64.ofNat data.length).toNat

/-- The operation returns: it waits for no more than has been sent, and sends no more than is
    taken. A null pointer that is used does not. -/
def SimOp.Returns : SimOp Conn → Abandoned → Prop
  | .recv _ _ size rank, w =>
      Draining.Ends ⟨SocketInterComm.recv (UInt64.ofNat size), w.unread rank⟩
  | .send _ _ data rank, w =>
      Sending.Ends ⟨SocketInterComm.send (UInt64.ofNat data.length), w.room rank⟩
  | .crash, _ => False
  | _, _ => True

/-- The operations of a rank with the manager `cm`. The end of a stream is readable, so a probe
    always finds rank 0. -/
def performAbandoned (simRank : ℕ) (cm : ConnectionManager Conn) :
    (o : SimOp Conn) → Abandoned → o.Resp → Abandoned → Prop
  | .lock, w, r, w' => r = cm ∧ w' = w
  | .bcast buf, w, r, w' =>
      if simRank = 0 then r = buf ∧ w' = w
      else w.casts.head? = some r ∧ w' = { w with casts := w.casts.tail }
  | .probe _ _, w, r, w' => r = true ∧ w' = w
  | .probeAll _, w, r, w' => r = 0 ∧ w' = w
  | .recv _ _ size rank, w, r, w' =>
      r = (w.unread rank).take size ∧
        w' = { w with unread := Function.update w.unread rank ((w.unread rank).drop size) }
  | .send _ _ data rank, w, _, w' =>
      w' = { w with room := Function.update w.room rank (w.room rank - byteCount data) }
  | _, w, _, w' => w' = w

/-- The program ends in `Q`, since each of its operations returns. -/
def EndsIn (simRank : ℕ) (cm : ConnectionManager Conn) :
    SimProg Conn α → (α → Abandoned → Prop) → Abandoned → Prop
  | .ret a, Q, w => Q a w
  | .vis o k, Q, w =>
      o.Returns w ∧ ∀ r w', performAbandoned simRank cm o w r w' → EndsIn simRank cm (k r) Q w'

variable {simRank : ℕ} {cm : ConnectionManager Conn}

@[simp] theorem endsIn_ret {a : α} {Q : α → Abandoned → Prop} {w : Abandoned} :
    EndsIn simRank cm (.ret a) Q w ↔ Q a w := Iff.rfl

@[simp] theorem endsIn_vis {o : SimOp Conn} {k : o.Resp → SimProg Conn α}
    {Q : α → Abandoned → Prop} {w : Abandoned} :
    EndsIn simRank cm (.vis o k) Q w ↔
      o.Returns w ∧ ∀ r w', performAbandoned simRank cm o w r w' → EndsIn simRank cm (k r) Q w' :=
  Iff.rfl

theorem endsIn_bind {p : SimProg Conn α} {f : α → SimProg Conn β} {Q : β → Abandoned → Prop}
    {w : Abandoned} :
    EndsIn simRank cm (p >>= f) Q w ↔
      EndsIn simRank cm p (fun a => EndsIn simRank cm (f a) Q) w := by
  induction p generalizing w with
  | ret a => rfl
  | vis o k ih =>
      rw [vis_bind, endsIn_vis, endsIn_vis]
      simp only [ih]

theorem endsIn_answer {o : SimOp Conn} {k : o.Resp → SimProg Conn α} {Q : α → Abandoned → Prop}
    {w w₀ : Abandoned} {r₀ : o.Resp} (hreturns : o.Returns w)
    (hanswer : ∀ r w', performAbandoned simRank cm o w r w' ↔ r = r₀ ∧ w' = w₀) :
    EndsIn simRank cm (.vis o k) Q w ↔ EndsIn simRank cm (k r₀) Q w₀ := by
  rw [endsIn_vis]
  constructor
  · intro h
    exact h.2 r₀ w₀ ((hanswer r₀ w₀).2 ⟨rfl, rfl⟩)
  · intro h
    refine ⟨hreturns, fun r w' hperform => ?_⟩
    obtain ⟨rfl, rfl⟩ := (hanswer r w').1 hperform
    exact h

theorem endsIn_lock {k : ConnectionManager Conn → SimProg Conn α} {Q : α → Abandoned → Prop}
    {w : Abandoned} : EndsIn simRank cm (.vis .lock k) Q w ↔ EndsIn simRank cm (k cm) Q w :=
  endsIn_answer trivial (fun _ _ => Iff.rfl)

theorem endsIn_probe {comm : Conn} {rank : ℕ} {k : Bool → SimProg Conn α}
    {Q : α → Abandoned → Prop} {w : Abandoned} :
    EndsIn simRank cm (.vis (.probe comm rank) k) Q w ↔ EndsIn simRank cm (k true) Q w :=
  endsIn_answer trivial (fun _ _ => Iff.rfl)

theorem endsIn_probeAll {comm : Conn} {k : ℕ → SimProg Conn α} {Q : α → Abandoned → Prop}
    {w : Abandoned} :
    EndsIn simRank cm (.vis (.probeAll comm) k) Q w ↔ EndsIn simRank cm (k 0) Q w :=
  endsIn_answer trivial (fun _ _ => Iff.rfl)

theorem endsIn_bcast_root {k : Bytes → SimProg Conn α} {buf : Bytes} {Q : α → Abandoned → Prop}
    {w : Abandoned} :
    EndsIn 0 cm (.vis (.bcast buf) k) Q w ↔ EndsIn 0 cm (k buf) Q w :=
  endsIn_answer trivial (fun r w' => by simp [performAbandoned])

theorem endsIn_bcast_other (hrank : simRank ≠ 0) {k : Bytes → SimProg Conn α} {buf r : Bytes}
    {Q : α → Abandoned → Prop} {unread : ℕ → Bytes} {room : ℕ → ℕ} {casts : List Bytes} :
    EndsIn simRank cm (.vis (.bcast buf) k) Q ⟨unread, room, r :: casts⟩ ↔
      EndsIn simRank cm (k r) Q ⟨unread, room, casts⟩ :=
  endsIn_answer trivial (fun r' w' => by simp [performAbandoned, hrank, eq_comm])

theorem missing_zero (call : SysCall) (size : UInt64) :
    (0 : UInt64) ≤ size ∧ Transfer.missing ⟨call, size, 0⟩ = size.toNat := by
  refine ⟨?_, Nat.sub_zero _⟩
  rw [UInt64.le_iff_toNat_le]
  exact Nat.zero_le _

/-- A receive returns exactly when the peer has sent all of it. -/
theorem returns_recv {comm : Conn} {kind : Kind} {size rank : ℕ} (hsize : size < 2 ^ 64)
    {w : Abandoned} :
    (SimOp.recv comm kind size rank).Returns w ↔ size ≤ (w.unread rank).length := by
  obtain ⟨hwf, hmissing⟩ := missing_zero .recv (UInt64.ofNat size)
  rw [UInt64.toNat_ofNat', Nat.mod_eq_of_lt hsize] at hmissing
  refine (Draining.ends_iff (d := ⟨SocketInterComm.recv (UInt64.ofNat size), _⟩) hwf).trans ?_
  rw [Draining.missing, SocketInterComm.recv, hmissing]

/-- A send returns exactly when all of it is taken. -/
theorem returns_send {comm : Conn} {kind : Kind} {data : Bytes} {rank : ℕ} {w : Abandoned} :
    (SimOp.send comm kind data rank).Returns w ↔ byteCount data ≤ w.room rank := by
  obtain ⟨hwf, hmissing⟩ := missing_zero .send (UInt64.ofNat data.length)
  refine (Sending.ends_iff (d := ⟨SocketInterComm.send (UInt64.ofNat data.length), _⟩) hwf).trans ?_
  rw [SocketInterComm.send, hmissing, byteCount]

/-! ### The parts of `process` -/

theorem endsIn_recvFrom {comm : Conn} {kind : Kind} {size rank : ℕ} (hsize : size < 2 ^ 64)
    {Q : Bytes → Abandoned → Prop} {w : Abandoned} :
    EndsIn simRank cm (SimOp.recvFrom comm kind size rank) Q w ↔
      size ≤ (w.unread rank).length ∧ Q ((w.unread rank).take size)
        { w with unread := Function.update w.unread rank ((w.unread rank).drop size) } := by
  rw [SimOp.recvFrom, Prog.op, endsIn_vis, returns_recv hsize]
  simp [performAbandoned]

theorem endsIn_sendTo {comm : Conn} {kind : Kind} {data : Bytes} {rank : ℕ}
    {Q : Unit → Abandoned → Prop} {w : Abandoned} :
    EndsIn simRank cm (SimOp.sendTo comm kind data rank) Q w ↔
      byteCount data ≤ w.room rank ∧
        Q () { w with room := Function.update w.room rank (w.room rank - byteCount data) } := by
  rw [SimOp.sendTo, Prog.op, endsIn_vis, returns_send]
  refine and_congr_right (fun _ => ?_)
  constructor
  · intro h
    exact h () _ rfl
  · rintro h r w' rfl
    exact h

theorem endsIn_sendAll {comm : Conn} {rank : ℕ} (ms : List Bytes) {Q : Unit → Abandoned → Prop}
    (hQ : ∀ a w, Q a w) {w : Abandoned} :
    EndsIn simRank cm (ConnectionManager.sendAll comm rank ms) Q w ↔
      (ms.map byteCount).sum ≤ w.room rank := by
  induction ms generalizing w with
  | nil => simp [ConnectionManager.sendAll, hQ]
  | cons m ms ih =>
      rw [ConnectionManager.sendAll, endsIn_bind, endsIn_sendTo, ih, List.map_cons, List.sum_cons]
      simp only [Function.update_self]
      omega

/-- The state can be sent, and all its messages are taken. -/
def Fits (state : Except Fault (List Bytes)) (room : ℕ) : Prop :=
  ∃ msgs, state = .ok msgs ∧ (msgs.map byteCount).sum ≤ room

/-- `handleQuery` takes one ping off the first socket, and sends its messages there. -/
theorem endsIn_handleQuery {state : Except Fault (List Bytes)} {cm' : ConnectionManager Conn}
    {comm : Conn} (hcomm : cm'.intercomm = some comm) {Q : Unit → Abandoned → Prop}
    (hQ : ∀ a w, Q a w) {w : Abandoned} :
    EndsIn simRank cm (ConnectionManager.handleQuery state cm') Q w ↔
      4 ≤ (w.unread 0).length ∧ Fits state (w.room 0) := by
  unfold ConnectionManager.handleQuery
  rw [hcomm]
  refine endsIn_probeAll.trans ?_
  show EndsIn simRank cm (SimOp.recvFrom comm .ping 4 0 >>= _) Q w ↔ _
  rw [endsIn_bind, endsIn_recvFrom (by decide)]
  refine and_congr_right (fun _ => ?_)
  cases state with
  | error e => exact ⟨fun h => h.1.elim, fun ⟨msgs, hmsgs, _⟩ => absurd hmsgs (by simp)⟩
  | ok msgs =>
      refine (endsIn_sendAll msgs hQ).trans ⟨fun h => ⟨msgs, rfl, h⟩, ?_⟩
      rintro ⟨msgs', hmsgs, hsum⟩
      rw [Except.ok.inj hmsgs]
      exact hsum

/-- What a command needs of the socket: only a query uses it. -/
def Suffices (state : Except Fault (List Bytes)) (command : Int32) (pings room : ℕ) : Prop :=
  command = Command.query.toInt32 → 4 ≤ pings ∧ Fits state room

/-- The commands of a rank that has a client. -/
theorem endsIn_runCommand {state : Except Fault (List Bytes)} (cm' : ConnectionManager Conn)
    {comm : Conn} (hcomm : cm'.intercomm = some comm)
    {Q : Branch × ConnectionManager Conn → Abandoned → Prop} (hQ : ∀ a w, Q a w)
    {w : Abandoned} :
    EndsIn simRank cm (ConnectionManager.runCommand simRank state cm') Q w ↔
      Suffices state cm'.clientCommand (w.unread 0).length (w.room 0) := by
  unfold ConnectionManager.runCommand Suffices
  by_cases hconnect : cm'.clientCommand = Command.connect.toInt32
  · have hne : cm'.clientCommand ≠ Command.query.toInt32 := by
      rw [hconnect]
      decide
    rw [if_pos hconnect, ConnectionManager.connectClient, hcomm]
    simp only [pure_eq, ret_bind, endsIn_ret]
    exact ⟨fun _ h => absurd h hne, fun _ => hQ _ _⟩
  rw [if_neg hconnect]
  by_cases hquery : cm'.clientCommand = Command.query.toInt32
  · rw [if_pos hquery, endsIn_bind]
    refine (endsIn_handleQuery hcomm (fun _ _ => hQ _ _)).trans ?_
    exact ⟨fun h _ => h, fun h => h hquery⟩
  rw [if_neg hquery]
  refine ⟨fun _ h => absurd h hquery, fun _ => ?_⟩
  by_cases hdisconnect : cm'.clientCommand = Command.disconnect.toInt32
  · rw [if_pos hdisconnect]
    unfold ConnectionManager.disconnectClient ConnectionManager.release
      ConnectionManager.restartListener
    rw [hcomm]
    by_cases hrank : simRank = 0
    · simp only [hrank, if_true, op_bind, vis_bind, endsIn_vis, SimOp.Returns, true_and]
      rintro - w' - joinable w'' -
      cases joinable <;> simp [Prog.op, SimOp.Returns, hQ]
    · simp [hrank, Prog.op, SimOp.Returns, hQ]
  · rw [if_neg hdisconnect]
    exact hQ _ _

/-- The end of `process`, once rank 0 has broadcast whether there is a command and which. -/
theorem endsIn_switch {state : Except Fault (List Bytes)} (cm' : ConnectionManager Conn) {comm : Conn}
    (hcomm : cm'.intercomm = some comm) (clientCommand : Bytes) {w : Abandoned} :
    EndsIn simRank cm (ConnectionManager.runCommand simRank state
        { cm' with clientCommand := intOfBytes clientCommand } >>= fun x => do
          SimOp.unlockMutex x.2
          return x.1) (fun _ _ => True) w ↔
      Suffices state (intOfBytes clientCommand) (w.unread 0).length (w.room 0) := by
  rw [endsIn_bind]
  refine endsIn_runCommand { cm' with clientCommand := intOfBytes clientCommand } hcomm
    (fun x w' => ?_)
  exact ⟨trivial, fun _ _ _ => trivial⟩

/-- On rank 0 a call of `process` takes the command and answers with a flag. -/
theorem endsIn_process_root {state : Except Fault (List Bytes)} {comm : Conn}
    (hcomm : cm.intercomm = some comm) (hquery : cm.newQuery = false) (w : Abandoned) :
    EndsIn 0 cm (ConnectionManager.process 0 state) (fun _ _ => True) w ↔
      4 ≤ (w.unread 0).length ∧ 4 ≤ w.room 0 ∧
        Suffices state (intOfBytes ((w.unread 0).take 4)) ((w.unread 0).length - 4)
          (w.room 0 - 4) := by
  have hflag : byteCount (intBytes 0) = 4 := by decide
  have hpoll : ∀ Q : Int32 × ConnectionManager Conn → Abandoned → Prop,
      EndsIn 0 cm (ConnectionManager.poll 0 cm) Q w ↔ 4 ≤ (w.unread 0).length ∧ 4 ≤ w.room 0 ∧
        Q (1, { cm with clientCommand := intOfBytes ((w.unread 0).take 4) })
          { w with
            unread := Function.update w.unread 0 ((w.unread 0).drop 4)
            room := Function.update w.room 0 (w.room 0 - 4) } := by
    intro Q
    have hasked : EndsIn 0 cm (SimOp.recvFrom comm .command 4 0 >>= fun clientCommand => do
        ConnectionManager.sendQuit comm 0
        return (1, { cm with clientCommand := intOfBytes clientCommand })) Q w ↔
          4 ≤ (w.unread 0).length ∧ 4 ≤ w.room 0 ∧
        Q (1, { cm with clientCommand := intOfBytes ((w.unread 0).take 4) })
          { w with
            unread := Function.update w.unread 0 ((w.unread 0).drop 4)
            room := Function.update w.room 0 (w.room 0 - 4) } := by
      rw [endsIn_bind, endsIn_recvFrom (by decide), endsIn_bind, ConnectionManager.sendQuit,
        endsIn_sendTo, hflag]
      rfl
    unfold ConnectionManager.poll
    rw [hquery, hcomm] at hasked ⊢
    exact endsIn_probe.trans hasked
  unfold ConnectionManager.process
  rw [op_bind, endsIn_lock, endsIn_bind, hpoll]
  refine and_congr_right (fun _ => and_congr_right (fun _ => ?_))
  simp only [op_bind]
  rw [endsIn_bcast_root, intOfBytes_intBytes, if_neg (by decide), endsIn_bcast_root]
  refine (endsIn_switch { cm with clientCommand := intOfBytes ((w.unread 0).take 4) }
    hcomm _).trans ?_
  rw [intOfBytes_intBytes]
  simp only [Function.update_self, List.length_drop]

/-- On another rank it takes a ping and answers when rank 0 has broadcast a query. -/
theorem endsIn_process_other {state : Except Fault (List Bytes)} {comm : Conn}
    (hcomm : cm.intercomm = some comm) (hrank : simRank ≠ 0) (haveQuery command : Int32)
    (unread : ℕ → Bytes) (room : ℕ → ℕ) :
    EndsIn simRank cm (ConnectionManager.process simRank state) (fun _ _ => True)
        ⟨unread, room, [intBytes haveQuery, intBytes command]⟩ ↔
      (haveQuery ≠ 0 → Suffices state command (unread 0).length (room 0)) := by
  have hpoll : ConnectionManager.poll simRank cm = .ret (0, cm) ∨
      ConnectionManager.poll simRank cm = .ret (1, cm) := by
    unfold ConnectionManager.poll
    cases cm.newQuery with
    | false =>
        rw [hcomm]
        exact .inl (if_neg hrank)
    | true => exact .inr rfl
  have hrest : ∀ n, EndsIn simRank cm (Prog.ret (n, cm) >>= fun x => do
      let haveQuery ← SimOp.mpiBcast (intBytes x.1)
      if intOfBytes haveQuery = 0 then do
        SimOp.unlockMutex x.2
        return Branch.idle
      else do
        let clientCommand ← SimOp.mpiBcast (intBytes x.2.clientCommand)
        let y ← ConnectionManager.runCommand simRank state
          { x.2 with clientCommand := intOfBytes clientCommand }
        SimOp.unlockMutex y.2
        return y.1) (fun _ _ => True) ⟨unread, room, [intBytes haveQuery, intBytes command]⟩ ↔
      (haveQuery ≠ 0 → Suffices state command (unread 0).length (room 0)) := by
    intro n
    rw [ret_bind, op_bind, endsIn_bcast_other hrank, intOfBytes_intBytes]
    by_cases hflag : haveQuery = 0
    · rw [if_pos hflag]
      refine ⟨fun _ h => absurd hflag h, fun _ => ⟨trivial, fun _ _ _ => trivial⟩⟩
    · rw [if_neg hflag, op_bind, endsIn_bcast_other hrank]
      refine (endsIn_switch _ hcomm _).trans ?_
      rw [intOfBytes_intBytes]
      exact ⟨fun h _ => h, fun h => h hflag⟩
  unfold ConnectionManager.process
  rw [op_bind, endsIn_lock]
  rcases hpoll with hpoll | hpoll
  · rw [hpoll]
    exact hrest 0
  · rw [hpoll]
    exact hrest 1

end Process

/-- **Receiving from a closed peer.** The loop of `recv` ends exactly when the peer has sent all
    that is missing before it closed its end. A call of `process()` with a client that has closed
    its sockets ends exactly when the client had sent its command and the flag is still taken, and,
    for a query, when it had sent the ping that `handleQuery` takes off the first socket it finds
    readable and all messages of the state are still taken. -/
theorem closed_peer_iff (size nrecv : UInt64) (left : Bytes) (hle : nrecv ≤ size) {Conn : Type}
    (cm : ConnectionManager Conn) (comm : Conn) (state : Except Fault (List Bytes))
    (unread : ℕ → Bytes) (room : ℕ → ℕ) (hcomm : cm.intercomm = some comm)
    (hquery : cm.newQuery = false) :
    (Draining.Ends ⟨⟨.recv, size, nrecv⟩, left⟩ ↔ size.toNat - nrecv.toNat ≤ left.length) ∧
    (EndsIn 0 cm (ConnectionManager.process 0 state) (fun _ _ => True) ⟨unread, room, []⟩ ↔
      4 ≤ (unread 0).length ∧ 4 ≤ room 0 ∧
        (intOfBytes ((unread 0).take 4) = Command.query.toInt32 →
          4 ≤ (unread 0).length - 4 ∧ Fits state (room 0 - 4))) ∧
    ∀ (simRank : ℕ) (haveQuery command : Int32), simRank ≠ 0 →
      (EndsIn simRank cm (ConnectionManager.process simRank state) (fun _ _ => True)
          ⟨unread, room, [intBytes haveQuery, intBytes command]⟩ ↔
        (haveQuery ≠ 0 → command = Command.query.toInt32 →
          4 ≤ (unread 0).length ∧ Fits state (room 0))) :=
  ⟨Draining.ends_iff hle, endsIn_process_root hcomm hquery ⟨unread, room, []⟩,
    fun _ haveQuery command hrank =>
      endsIn_process_other hcomm hrank haveQuery command unread room⟩

/-- A client's manager; a QUERY and its ping. -/
def connectedManager : ConnectionManager Unit :=
  ⟨some (), ⟨[], by decide⟩, -1, false⟩

def queryAndPing : Bytes :=
  intBytes Command.query.toInt32 ++ intBytes 0

/-- The client has sent its query and its ping, and all that is sent to it is still taken. -/
theorem closed_peer_drained :
    Draining.Ends ⟨⟨.recv, 4, 1⟩, [0, 0, 0]⟩ ∧
      EndsIn 0 connectedManager (ConnectionManager.process 0 (.ok [[1, 2], [3]]))
        (fun _ _ => True) ⟨fun _ => queryAndPing, fun _ => 7, []⟩ := by
  obtain ⟨hloop, hprocess, -⟩ := closed_peer_iff 4 1 [0, 0, 0] (by decide) connectedManager ()
    (.ok [[1, 2], [3]]) (fun _ => queryAndPing) (fun _ => 7) rfl rfl
  refine ⟨hloop.2 (by decide), hprocess.2 ⟨by decide, by decide, fun _ => ⟨by decide, ?_⟩⟩⟩
  exact ⟨_, rfl, by decide⟩

/-- The peer closes before the first byte of a command: neither the loop nor `process()` ends. Nor
    does `process()` when the query and the ping are there, but only the flag is still taken. -/
theorem closed_peer_hangs :
    ¬ Draining.Ends ⟨SocketInterComm.recv 4, []⟩ ∧
      ¬ EndsIn 0 connectedManager (ConnectionManager.process 0 (.ok [])) (fun _ _ => True)
        ⟨fun _ => [], fun _ => 4, []⟩ ∧
      ¬ EndsIn 0 connectedManager (ConnectionManager.process 0 (.ok [[1]])) (fun _ _ => True)
        ⟨fun _ => queryAndPing, fun _ => 4, []⟩ := by
  refine ⟨?_, fun h => ?_, fun h => ?_⟩
  · have hwf : Draining.WF ⟨SocketInterComm.recv 4, []⟩ := (missing_zero .recv 4).1
    exact Draining.not_ends_of_lt hwf (by decide)
  · obtain ⟨hcommand, -⟩ := (endsIn_process_root rfl rfl _).1 h
    exact absurd hcommand (by decide)
  · obtain ⟨-, -, hquery⟩ := (endsIn_process_root rfl rfl _).1 h
    obtain ⟨-, msgs, hmsgs, hsum⟩ := hquery (by decide)
    rw [← Except.ok.inj hmsgs] at hsum
    exact absurd hsum (by decide)

end LibIS
