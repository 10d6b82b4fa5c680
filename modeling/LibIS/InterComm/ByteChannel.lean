import LibIS.InterComm.Socket
import LibIS.Library.Channel
import Mathlib.Algebra.Order.BigOperators.Group.List
import Mathlib.Logic.Relation

set_option autoImplicit false

/-! # A connected pair of sockets as a byte channel (`intercomm.cpp`, `SocketInterComm`)

One end of a connection calls `send` over and over, the other `recv`; the system moves some of the
bytes asked for in each system call, in any order of the two ends. Under the loops the connection is
the ideal channel of `Channel`: what has been received is what has been sent up to some point
(`Refines`). The calls all end, and `recv` finds the bytes wherever `send` has cut them. -/

open ByteCodec

namespace LibIS

/-- The memory `[data, data + size)` of a call; its size is a `size_t`. -/
structure Span where
  bytes : Bytes
  size_lt : bytes.length < 2 ^ 64

namespace Span

def size (m : Span) : UInt64 :=
  UInt64.ofNat m.bytes.length

/-- The bytes that a `::send` of `k` bytes from `data + offset` on takes. -/
def load (m : Span) (offset k : ℕ) : Bytes :=
  (m.bytes.drop offset).take k

/-- The memory after a `::recv` that has stored `bs` at `data + offset`. -/
def store (m : Span) (offset : ℕ) (bs : Bytes) : Span where
  bytes := m.bytes.take offset ++ bs.take (m.bytes.length - offset) ++
    m.bytes.drop (offset + bs.length)
  size_lt := by
    have h := m.size_lt
    simp only [List.length_append, List.length_take, List.length_drop]
    omega

@[simp] theorem size_toNat (m : Span) : m.size.toNat = m.bytes.length := by
  rw [size, UInt64.toNat_ofNat', Nat.mod_eq_of_lt m.size_lt]

@[simp] theorem store_length (m : Span) (offset : ℕ) (bs : Bytes) :
    (m.store offset bs).bytes.length = m.bytes.length := by
  simp only [store, List.length_append, List.length_take, List.length_drop]
  omega

theorem store_size (m : Span) (offset : ℕ) (bs : Bytes) : (m.store offset bs).size = m.size := by
  rw [size, size, store_length]

/-- What has been stored so far lies in front of what is stored next. -/
theorem store_take (m : Span) {offset : ℕ} {bs : Bytes}
    (h : offset + bs.length ≤ m.bytes.length) :
    (m.store offset bs).bytes.take (offset + bs.length) = m.bytes.take offset ++ bs := by
  have hfits : bs.take (m.bytes.length - offset) = bs := List.take_of_length_le (by omega)
  have hlen : (m.bytes.take offset ++ bs).length = offset + bs.length := by
    rw [List.length_append, List.length_take, min_eq_left (by omega)]
  show (m.bytes.take offset ++ bs.take (m.bytes.length - offset) ++
    m.bytes.drop (offset + bs.length)).take (offset + bs.length) = _
  rw [hfits, ← hlen, List.take_left]

end Span

/-! ## The system -/

/-- One end of a connection: the calls to come, the call under way, and the calls that have ended,
    each with its memory. -/
structure Side where
  todo : List Span
  current : Option (Span × Transfer)
  ended : List (Span × Transfer)

/-- An end starts its next call, or its call ends. -/
inductive Side.Turn (call : UInt64 → Transfer) : Side → Side → Prop
  | start {m : Span} {todo : List Span} {ended : List (Span × Transfer)} :
      Turn call ⟨m :: todo, none, ended⟩ ⟨todo, some (m, call m.size), ended⟩
  | finish {todo : List Span} {m : Span} {t : Transfer} {ended : List (Span × Transfer)}
      (hreq : t.request = none) :
      Turn call ⟨todo, some (m, t), ended⟩ ⟨todo, none, ended ++ [(m, t)]⟩

/-- A connection: the end that sends, the bytes under way, and the end that receives. -/
structure Connection where
  sender : Side
  queue : Bytes
  receiver : Side

namespace Connection

/-- No call has been made yet. -/
def start (sends recvs : List Span) : Connection :=
  ⟨⟨sends, none, []⟩, [], ⟨recvs, none, []⟩⟩

/-- One step of either end. A system call moves at least one byte, at most the number requested, and
    no more than an `int` can count; `::recv` waits for a byte. -/
inductive Step : Connection → Connection → Prop
  | sender {s s' : Side} {q : Bytes} {r : Side} (h : Side.Turn SocketInterComm.send s s') :
      Step ⟨s, q, r⟩ ⟨s', q, r⟩
  | receiver {s : Side} {q : Bytes} {r r' : Side} (h : Side.Turn SocketInterComm.recv r r') :
      Step ⟨s, q, r⟩ ⟨s, q, r'⟩
  | send {todo : List Span} {m : Span} {t : Transfer} {ended : List (Span × Transfer)} {q : Bytes}
      {r : Side} {req : Request} (k : ℕ) (hreq : t.request = some req) (hpos : 0 < k)
      (hle : k ≤ req.length.toNat) (hint : k < 2 ^ 31) :
      Step ⟨⟨todo, some (m, t), ended⟩, q, r⟩
        ⟨⟨todo, some (m, t.round (Int64.ofNat k)), ended⟩, q ++ m.load req.offset.toNat k, r⟩
  | recv {s : Side} {q : Bytes} {todo : List Span} {m : Span} {t : Transfer}
      {ended : List (Span × Transfer)} {req : Request} (k : ℕ) (hreq : t.request = some req)
      (hpos : 0 < k) (hle : k ≤ req.length.toNat) (hint : k < 2 ^ 31) (havail : k ≤ q.length) :
      Step ⟨s, q, ⟨todo, some (m, t), ended⟩⟩
        ⟨s, q.drop k, ⟨todo, some (m.store req.offset.toNat (q.take k), t.round (Int64.ofNat k)),
          ended⟩⟩

/-- The connections that runs from `c` reach. -/
abbrev Reaches : Connection → Connection → Prop :=
  Relation.ReflTransGen Step

end Connection

/-! ## One end -/

/-- The bytes that the calls of an end have moved so far. -/
def Side.moved (s : Side) : Bytes :=
  (s.ended.map (fun e => e.1.bytes)).flatten ++
    match s.current with
    | none => []
    | some (m, t) => m.bytes.take t.counter.toNat

/-- The calls that have ended have moved all of their memory, and the call under way has moved no
    more than its memory. -/
structure Side.Sound (s : Side) : Prop where
  ended : ∀ e ∈ s.ended, e.2.size = e.1.size ∧ e.2.counter = e.1.size
  current : ∀ m t, s.current = some (m, t) → t.size = m.size ∧ t.counter ≤ t.size

/-- The sizes of the calls of an end, in order. -/
def Side.sizes (s : Side) : List ℕ :=
  s.ended.map (fun e => e.1.bytes.length) ++
    (s.current.toList.map (fun e => e.1.bytes.length) ++ s.todo.map (fun m => m.bytes.length))

/-- The number of steps that an end still has to make is at most this. -/
def Side.work (s : Side) : ℕ :=
  (s.todo.map (fun m => m.bytes.length + 2)).sum +
    match s.current with
    | none => 0
    | some (_, t) => t.size.toNat - t.counter.toNat + 1

/-- What `send` and `recv` have in common: at the start nothing has been moved. -/
structure Fresh (call : UInt64 → Transfer) : Prop where
  size : ∀ size, (call size).size = size
  counter : ∀ size, (call size).counter = 0

theorem fresh_send : Fresh SocketInterComm.send :=
  ⟨fun _ => rfl, fun _ => rfl⟩

theorem fresh_recv : Fresh SocketInterComm.recv :=
  ⟨fun _ => rfl, fun _ => rfl⟩

namespace Side

section Turn

variable {call : UInt64 → Transfer} (hcall : Fresh call) {s s' : Side} (h : Turn call s s')
include hcall h

theorem Turn.moved (hs : s.Sound) : s'.moved = s.moved := by
  cases h with
  | @start m todo ended =>
      simp [Side.moved, hcall.counter]
  | @finish todo m t ended hreq =>
      obtain ⟨hsize, -⟩ := hs.current m t rfl
      have hall : t.counter.toNat = m.bytes.length := by
        rw [Transfer.request_eq_none.1 hreq, hsize, Span.size_toNat]
      simp [Side.moved, hall]

theorem Turn.sound (hs : s.Sound) : s'.Sound := by
  cases h with
  | @start m todo ended =>
      refine ⟨hs.ended, fun m' t' hcur => ?_⟩
      obtain ⟨rfl, rfl⟩ := Prod.mk.inj (Option.some.inj hcur)
      rw [hcall.size, hcall.counter, UInt64.le_iff_toNat_le]
      exact ⟨rfl, Nat.zero_le _⟩
  | @finish todo m t ended hreq =>
      obtain ⟨hsize, -⟩ := hs.current m t rfl
      refine ⟨fun e he => ?_, fun m' t' hcur => absurd hcur (by simp)⟩
      rcases List.mem_append.1 he with he | he
      · exact hs.ended e he
      · rw [List.mem_singleton.1 he]
        exact ⟨hsize, (Transfer.request_eq_none.1 hreq).trans hsize⟩

theorem Turn.work_lt : s'.work < s.work := by
  cases h with
  | @start m todo ended =>
      simp only [Side.work, List.map_cons, List.sum_cons, hcall.size, Span.size_toNat]
      omega
  | @finish todo m t ended hreq =>
      simp only [Side.work]
      omega

omit hcall in
theorem Turn.sizes : s'.sizes = s.sizes := by
  cases h <;> simp [Side.sizes]

end Turn

/-! ### A system call -/

section Call

variable {todo : List Span} {m : Span} {t : Transfer} {ended : List (Span × Transfer)}
  (hs : Side.Sound ⟨todo, some (m, t), ended⟩) {req : Request} (hreq : t.request = some req) {k : ℕ}
  (hle : k ≤ req.length.toNat) (hint : k < 2 ^ 31)
include hs hreq hle hint

theorem Sound.call {m' : Span} (hm : m'.size = m.size) :
    Side.Sound ⟨todo, some (m', t.round (Int64.ofNat k)), ended⟩ := by
  obtain ⟨hsize, hcounter⟩ := hs.current m t rfl
  obtain ⟨-, hround, hfits⟩ := t.round_ofNat hcounter hreq hle hint
  refine ⟨hs.ended, fun m'' t' hcur => ?_⟩
  obtain ⟨rfl, rfl⟩ := Prod.mk.inj (Option.some.inj hcur)
  rw [Transfer.round_size, hsize, hm]
  refine ⟨rfl, ?_⟩
  rw [UInt64.le_iff_toNat_le, hround, ← hsize]
  exact hfits

theorem moved_load :
    Side.moved ⟨todo, some (m, t.round (Int64.ofNat k)), ended⟩ =
      Side.moved ⟨todo, some (m, t), ended⟩ ++ m.load req.offset.toNat k := by
  obtain ⟨-, hcounter⟩ := hs.current m t rfl
  obtain ⟨hoffset, hround, -⟩ := t.round_ofNat hcounter hreq hle hint
  simp only [Side.moved, hround, hoffset, Span.load, List.take_add, List.append_assoc]

theorem moved_store {bs : Bytes} (hbs : bs.length = k) :
    Side.moved ⟨todo, some (m.store req.offset.toNat bs, t.round (Int64.ofNat k)), ended⟩ =
      Side.moved ⟨todo, some (m, t), ended⟩ ++ bs := by
  obtain ⟨hsize, hcounter⟩ := hs.current m t rfl
  obtain ⟨hoffset, hround, hfits⟩ := t.round_ofNat hcounter hreq hle hint
  rw [hsize, Span.size_toNat] at hfits
  subst hbs
  simp only [Side.moved, hround, hoffset, List.append_assoc]
  rw [m.store_take hfits]

theorem work_call (hpos : 0 < k) {m' : Span} :
    Side.work ⟨todo, some (m', t.round (Int64.ofNat k)), ended⟩ <
      Side.work ⟨todo, some (m, t), ended⟩ := by
  obtain ⟨-, hcounter⟩ := hs.current m t rfl
  obtain ⟨-, hround, hfits⟩ := t.round_ofNat hcounter hreq hle hint
  simp only [Side.work, Transfer.round_size, hround]
  omega

end Call

theorem moved_length {s : Side} (htodo : s.todo = []) (hcur : s.current = none) :
    s.moved.length = s.sizes.sum := by
  obtain ⟨todo, current, ended⟩ := s
  simp only at htodo hcur
  subst htodo hcur
  simp [moved, sizes, List.length_flatten, Function.comp_def]

theorem Sound.moved_lt {s : Side} (hs : s.Sound) {m : Span} {t : Transfer}
    (hcur : s.current = some (m, t)) (hlt : t.counter.toNat < t.size.toNat) :
    s.moved.length < s.sizes.sum := by
  obtain ⟨hsize, -⟩ := hs.current m t hcur
  rw [hsize, Span.size_toNat] at hlt
  obtain ⟨todo, current, ended⟩ := s
  simp only at hcur
  subst hcur
  simp only [moved, sizes, Option.toList_some, List.map_cons, List.map_nil, List.length_append,
    List.length_flatten, List.map_map, List.sum_append, List.length_take, List.sum_cons,
    List.sum_nil, Function.comp_def]
  have hmin : min t.counter.toNat m.bytes.length = t.counter.toNat := min_eq_left hlt.le
  omega

end Side

/-! ## The connection refines an ideal channel -/

/-- What the calls at the two ends have moved so far, and what is under way, is what an ideal
    channel has taken in and handed out. -/
structure Connection.Refines (c : Connection) (ch : Channel UInt8) : Prop where
  sender : c.sender.Sound
  receiver : c.receiver.Sound
  sent : c.sender.moved = ch.sent
  taken : c.receiver.moved = ch.sent.take ch.taken
  pending : c.queue = ch.pending
  taken_le : ch.taken ≤ ch.sent.length

namespace Connection

theorem refines_start (sends recvs : List Span) : (start sends recvs).Refines .empty where
  sender := ⟨fun _ h => absurd h (by simp [Connection.start]),
    fun _ _ h => absurd h (by simp [Connection.start])⟩
  receiver := ⟨fun _ h => absurd h (by simp [Connection.start]),
    fun _ _ h => absurd h (by simp [Connection.start])⟩
  sent := rfl
  taken := rfl
  pending := rfl
  taken_le := le_refl 0

/-- **Simulation.** Each step of either end is one of the ideal channel. -/
theorem Refines.step {c c' : Connection} {ch : Channel UInt8} (h : c.Refines ch)
    (hstep : Step c c') : ∃ ch', ch.Moves ch' ∧ c'.Refines ch' := by
  cases hstep with
  | sender hturn =>
      exact ⟨ch, .stay ch, { h with
        sender := hturn.sound fresh_send h.sender
        sent := (hturn.moved fresh_send h.sender).trans h.sent }⟩
  | receiver hturn =>
      exact ⟨ch, .stay ch, { h with
        receiver := hturn.sound fresh_recv h.receiver
        taken := (hturn.moved fresh_recv h.receiver).trans h.taken }⟩
  | @send todo m t ended q r req k hreq hpos hle hint =>
      -- what the system call takes from the memory is sent
      refine ⟨ch.pushAll (m.load req.offset.toNat k), .push ch _, ?_⟩
      have hsent := Side.moved_load h.sender hreq hle hint
      constructor
      · exact h.sender.call hreq hle hint rfl
      · exact h.receiver
      · rw [hsent, h.sent]
        rfl
      · rw [Channel.pushAll_sent, Channel.pushAll_taken, List.take_append_of_le_length h.taken_le]
        exact h.taken
      · have hpending : q = ch.pending := h.pending
        rw [Channel.pending, Channel.pushAll_sent, Channel.pushAll_taken,
          List.drop_append_of_le_length h.taken_le, hpending]
        rfl
      · rw [Channel.pushAll_sent, Channel.pushAll_taken, List.length_append]
        exact h.taken_le.trans (Nat.le_add_right _ _)
  | @recv s q todo m t ended req k hreq hpos hle hint havail =>
      have hpending : q = ch.pending := h.pending
      have hlen : ch.pending.length = ch.sent.length - ch.taken := by simp [Channel.pending]
      -- what it stores is the front of what is pending
      refine ⟨ch.advance k, .take ch (hpending ▸ havail), ?_⟩
      have hbs : (q.take k).length = k := by rw [List.length_take, min_eq_left havail]
      have hreceived := Side.moved_store h.receiver hreq hle hint hbs
      constructor
      · exact h.sender
      · exact h.receiver.call hreq hle hint (Span.store_size ..)
      · exact h.sent
      · rw [hreceived, h.taken, Channel.advance_taken, Channel.advance_sent, List.take_add,
          hpending]
        rfl
      · show q.drop k = (ch.advance k).pending
        rw [hpending, Channel.pending, Channel.pending, Channel.advance_sent,
          Channel.advance_taken, List.drop_drop]
      · rw [Channel.advance_taken, Channel.advance_sent]
        rw [hpending] at havail
        have htaken := h.taken_le
        omega

theorem Refines.of_reaches {sends recvs : List Span} {c : Connection}
    (h : Reaches (start sends recvs) c) : ∃ ch, c.Refines ch := by
  induction h with
  | refl => exact ⟨_, refines_start sends recvs⟩
  | tail _ hstep ih =>
      obtain ⟨ch, hrefines⟩ := ih
      obtain ⟨ch', -, hrefines'⟩ := hrefines.step hstep
      exact ⟨ch', hrefines'⟩

end Connection

/-! ## The calls -/

/-- The memory of the calls of an end, in order. -/
def Side.spans (s : Side) : List Span :=
  s.ended.map Prod.fst ++ (s.current.toList.map Prod.fst ++ s.todo)

theorem Side.moved_spans (s : Side) : s.moved <+: (s.spans.map Span.bytes).flatten := by
  obtain ⟨todo, current, ended⟩ := s
  have hended : ended.map (fun e => e.1.bytes) = (ended.map Prod.fst).map Span.bytes := by
    rw [List.map_map]
    rfl
  simp only [moved, spans, List.map_append, List.flatten_append, hended]
  rw [List.prefix_append_right_inj]
  cases current with
  | none => exact List.nil_prefix
  | some e =>
      rw [Option.toList_some, List.map_cons, List.map_nil, List.map_cons, List.map_nil,
        List.flatten_cons, List.flatten_nil, List.append_nil]
      exact (List.take_prefix _ _).trans (List.prefix_append _ _)

theorem Side.ended_moved (s : Side) :
    (s.ended.map (fun e => e.1.bytes)).flatten <+: s.moved :=
  List.prefix_append _ _

namespace Connection

/-- The calls stay those that the ends set out to make, and what is sent stays as it is. -/
theorem Step.calls {c c' : Connection} (h : Step c c') :
    c'.sender.spans = c.sender.spans ∧ c'.sender.sizes = c.sender.sizes ∧
      c'.receiver.sizes = c.receiver.sizes := by
  cases h with
  | sender hturn => exact ⟨by cases hturn <;> simp [Side.spans], hturn.sizes, rfl⟩
  | receiver hturn => exact ⟨rfl, rfl, hturn.sizes⟩
  | send => exact ⟨rfl, rfl, rfl⟩
  | recv => exact ⟨rfl, rfl, by simp [Side.sizes]⟩

theorem reaches_calls {c c' : Connection} (h : Reaches c c') :
    c'.sender.spans = c.sender.spans ∧ c'.sender.sizes = c.sender.sizes ∧
      c'.receiver.sizes = c.receiver.sizes := by
  induction h with
  | refl => exact ⟨rfl, rfl, rfl⟩
  | tail _ hstep ih =>
      obtain ⟨hspans, hsent, hreceived⟩ := hstep.calls
      exact ⟨hspans.trans ih.1, hsent.trans ih.2.1, hreceived.trans ih.2.2⟩

/-! ## The end of a run -/

theorem Step.work_lt {c c' : Connection} {ch : Channel UInt8} (hrefines : c.Refines ch)
    (h : Step c c') :
    c'.sender.work + c'.receiver.work < c.sender.work + c.receiver.work := by
  cases h with
  | sender hturn => exact Nat.add_lt_add_right (hturn.work_lt fresh_send) _
  | receiver hturn => exact Nat.add_lt_add_left (hturn.work_lt fresh_recv) _
  | send k hreq hpos hle hint =>
      exact Nat.add_lt_add_right (Side.work_call hrefines.sender hreq hle hint hpos) _
  | recv k hreq hpos hle hint havail =>
      exact Nat.add_lt_add_left (Side.work_call hrefines.receiver hreq hle hint hpos) _

/-- A sender that cannot step has made all its calls. -/
theorem Refines.sender_done {c : Connection} {ch : Channel UInt8} (h : c.Refines ch)
    (hstuck : ∀ c', ¬ Step c c') : c.sender.todo = [] ∧ c.sender.current = none := by
  obtain ⟨⟨todo, current, ended⟩, q, r⟩ := c
  cases current with
  | none =>
      cases todo with
      | nil => exact ⟨rfl, rfl⟩
      | cons m todo => exact absurd (.sender .start) (hstuck _)
  | some e =>
      obtain ⟨m, t⟩ := e
      cases hreq : t.request with
      | none => exact absurd (.sender (.finish hreq)) (hstuck _)
      | some req =>
          have hone := Transfer.one_le_request (h.sender.current m t rfl).2 hreq
          exact absurd (.send 1 hreq (by decide) hone (by decide)) (hstuck _)

/-- A receiver that cannot step has made all its calls, or it waits for a byte. -/
theorem Refines.receiver_done {c : Connection} {ch : Channel UInt8} (h : c.Refines ch)
    (hstuck : ∀ c', ¬ Step c c') :
    (c.receiver.todo = [] ∧ c.receiver.current = none) ∨
      (c.queue = [] ∧ ∃ m t, c.receiver.current = some (m, t) ∧ t.counter.toNat < t.size.toNat) := by
  obtain ⟨s, q, ⟨todo, current, ended⟩⟩ := c
  cases current with
  | none =>
      cases todo with
      | nil => exact .inl ⟨rfl, rfl⟩
      | cons m todo => exact absurd (.receiver .start) (hstuck _)
  | some e =>
      obtain ⟨m, t⟩ := e
      obtain ⟨-, hcounter⟩ := h.receiver.current m t rfl
      cases hreq : t.request with
      | none => exact absurd (.receiver (.finish hreq)) (hstuck _)
      | some req =>
          have hone := Transfer.one_le_request hcounter hreq
          refine .inr ⟨?_, m, t, rfl, ?_⟩
          · by_contra hne
            have hpos : 1 ≤ q.length := List.length_pos_iff.2 hne
            exact absurd (.recv 1 hreq (by decide) hone (by decide) hpos) (hstuck _)
          · obtain ⟨hne, -⟩ := Transfer.request_eq_some.1 hreq
            rw [ne_eq, ← UInt64.toNat_inj] at hne
            rw [UInt64.le_iff_toNat_le] at hcounter
            omega

end Connection

open Connection

/-- **A reliable byte channel.** Whatever is sent and received on a connection, in whatever pieces:
    every call that has ended has moved exactly its size; the calls end in their order; what has
    been received is a prefix of what is sent; no run is infinite; and where no step is left, all
    calls have ended, if no more is received than sent. -/
theorem socket_byte_channel (sends recvs : List Span)
    (hsum : (recvs.map (fun m => m.bytes.length)).sum ≤ (sends.map (fun m => m.bytes.length)).sum) :
    (∀ c, Reaches (start sends recvs) c →
      (∀ e ∈ c.sender.ended ++ c.receiver.ended, e.2.size = e.1.size ∧ e.2.counter = e.1.size) ∧
      c.sender.ended.map Prod.fst <+: sends ∧
      c.receiver.ended.map (fun e => e.1.bytes.length) <+: recvs.map (fun m => m.bytes.length) ∧
      (c.receiver.ended.map (fun e => e.1.bytes)).flatten <+: (sends.map Span.bytes).flatten ∧
      ((∀ c', ¬ Step c c') →
        c.sender.ended.length = sends.length ∧ c.receiver.ended.length = recvs.length)) ∧
    ¬ ∃ run : ℕ → Connection, run 0 = start sends recvs ∧ ∀ n, Step (run n) (run (n + 1)) := by
  constructor
  · intro c hc
    obtain ⟨ch, hrefines⟩ := Refines.of_reaches hc
    obtain ⟨hspans, hsent, hreceived⟩ := reaches_calls hc
    have hspans' : c.sender.spans = sends := hspans
    have hsent' : c.sender.sizes = sends.map (fun m => m.bytes.length) := hsent
    have hreceived' : c.receiver.sizes = recvs.map (fun m => m.bytes.length) := hreceived
    refine ⟨fun e he => ?_, ?_, ?_, ?_, fun hstuck => ?_⟩
    · rcases List.mem_append.1 he with he | he
      · exact hrefines.sender.ended e he
      · exact hrefines.receiver.ended e he
    · rw [← hspans']
      exact List.prefix_append _ _
    · rw [← hreceived']
      exact List.prefix_append _ _
    · rw [← hspans']
      refine c.receiver.ended_moved.trans (.trans ?_ c.sender.moved_spans)
      rw [hrefines.taken, hrefines.sent]
      exact List.take_prefix _ _
    · obtain ⟨htodo, hcur⟩ := hrefines.sender_done hstuck
      have hsender : c.sender.ended.length = sends.length := by
        rw [← hspans', Side.spans, htodo, hcur]
        simp
      refine ⟨hsender, ?_⟩
      rcases hrefines.receiver_done hstuck with ⟨htodo', hcur'⟩ | ⟨hempty, m, t, hcur', hlt⟩
      · have hlen := congrArg List.length hreceived'
        rw [Side.sizes, htodo', hcur'] at hlen
        simpa using hlen
      · -- the receiver waits, so it has had less than it asks for, and all of that has been sent
        have hall : c.receiver.moved = c.sender.moved := by
          have hpending := hrefines.pending
          rw [hempty, Channel.pending, eq_comm, List.drop_eq_nil_iff] at hpending
          rw [hrefines.taken, hrefines.sent, List.take_of_length_le hpending]
        have hlt' := hrefines.receiver.moved_lt hcur' hlt
        rw [hall, Side.moved_length htodo hcur, hsent', hreceived'] at hlt'
        omega
  · rintro ⟨run, hzero, hrun⟩
    have hreach : ∀ n, Reaches (start sends recvs) (run n) := by
      intro n
      induction n with
      | zero => rw [hzero]
      | succ n ih => exact ih.tail (hrun n)
    -- every step leaves less to do, so a run has no more steps than there is to do
    have hwork : ∀ n, n + ((run n).sender.work + (run n).receiver.work) ≤
        (run 0).sender.work + (run 0).receiver.work := by
      intro n
      induction n with
      | zero => rw [Nat.zero_add]
      | succ n ih =>
          obtain ⟨ch, hrefines⟩ := Refines.of_reaches (hreach n)
          have hlt := (hrun n).work_lt hrefines
          omega
    have hend := hwork ((run 0).sender.work + (run 0).receiver.work + 1)
    omega

/-- Three bytes sent in one call and received in two. -/
theorem socket_byte_channel_three :
    ¬ ∃ run : ℕ → Connection,
      run 0 = start [⟨[1, 2, 3], by decide⟩] [⟨[0], by decide⟩, ⟨[0, 0], by decide⟩] ∧
      ∀ n, Step (run n) (run (n + 1)) :=
  (socket_byte_channel [⟨[1, 2, 3], by decide⟩] [⟨[0], by decide⟩, ⟨[0, 0], by decide⟩]
    (by decide)).2

end LibIS
