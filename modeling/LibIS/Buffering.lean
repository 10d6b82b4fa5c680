import LibIS.Library.Bytes
import Mathlib.Tactic.Common

set_option autoImplicit false

/-! # Serialization buffers (`is_buffering.h`, `is_buffering.cpp`)

`ReadBuffer` and `WriteBuffer` with their cursors in `size_t` arithmetic, and the `operator>>` /
`operator<<` overloads as programs over them: a reader threads a `ReadBuffer`, a writer a
`WriteBuffer`, and both may fault.

`Parses r bs a` and `Emits w bs` say what a reader takes off the front of a buffer and what a writer
appends to one, whatever else the buffer holds. Both compose along `>>=`, so the layout of a record
is read off its fields; no later proof looks at a cursor. -/

open ByteCodec

namespace LibIS

/-- Ways a call leaves its normal path: the exceptions of the source, and the accesses C++ leaves
    undefined. -/
inductive Fault where
  | runtimeError (what : String)
  | lengthError
  | outOfBounds
  | nullPointer
deriving DecidableEq, Repr

/-- A `std::string`. Its size is bounded: no machine addresses a string of 2^62 bytes. -/
structure StdString where
  bytes : Bytes
  size_lt : bytes.length < 2 ^ 62
deriving DecidableEq

theorem StdString.ext {s t : StdString} (h : s.bytes = t.bytes) : s = t := by
  cases s; cases t; simp_all

theorem StdString.empty_lt : ([] : Bytes).length < 2 ^ 62 := by decide

instance : Inhabited StdString := ⟨⟨[], StdString.empty_lt⟩⟩

/-- A string of the given bytes; one of 2^62 bytes or more cannot be made. -/
def StdString.ofBytes (bs : Bytes) : Except Fault StdString :=
  if h : bs.length < 2 ^ 62 then .ok ⟨bs, h⟩ else .error .lengthError

@[simp] theorem StdString.ofBytes_bytes (s : StdString) : StdString.ofBytes s.bytes = .ok s := by
  rw [StdString.ofBytes, dif_pos s.size_lt]

/-! ## `ReadBuffer` -/

/-- `is::ReadBuffer`: the buffer and the position of the next byte. -/
structure ReadBuffer where
  begin : UInt64
  buffer : Bytes

/-- `ReadBuffer::ReadBuffer`. -/
def ReadBuffer.make (buffer : Bytes) : ReadBuffer :=
  ⟨0, buffer⟩

/-- A decoder: takes its bytes off a `ReadBuffer`. -/
abbrev ReaderM := StateT ReadBuffer (Except Fault)

/-- `ReadBuffer::read`. The bound is checked on the `size_t` sum, which wraps; a `memcpy` that then
    leaves the buffer is undefined. -/
def ReadBuffer.read (nbytes : UInt64) : ReaderM Bytes := fun b =>
  if UInt64.ofNat b.buffer.length < b.begin + nbytes then
    .error (.runtimeError "Buffer out of bytes for read")
  else if b.buffer.length < b.begin.toNat + nbytes.toNat then
    .error .outOfBounds
  else
    .ok ((b.buffer.drop b.begin.toNat).take nbytes.toNat, { b with begin := b.begin + nbytes })

/-- Whether making a `std::string` or `std::vector` of so many elements succeeds, with the buffer
    being decoded as it stands. -/
abbrev Allocator := ReadBuffer → UInt64 → Bool

/-- Memory never runs out. -/
def unlimited : Allocator := fun _ _ => true

/-- Make room for `size` elements, or throw. -/
def allocate (alloc : Allocator) (size : UInt64) : ReaderM Unit := fun b =>
  if alloc b size then .ok ((), b) else .error .lengthError

/-- `operator>>` for `uint64_t` (the raw overload at `T = uint64_t`). -/
def readUInt64 : ReaderM UInt64 := do
  let bs ← ReadBuffer.read 8
  return UInt64.ofNat (leValue bs)

/-- `operator>>` for `uint32_t`. -/
def readUInt32 : ReaderM UInt32 := do
  let bs ← ReadBuffer.read 4
  return UInt32.ofNat (leValue bs)

/-- `operator>>` for `std::string`. -/
def readString (alloc : Allocator) : ReaderM StdString := do
  let size ← readUInt64
  allocate alloc size
  let bs ← ReadBuffer.read size
  StdString.ofBytes bs

/-- Read `n` elements in order: the loops of the container overloads. -/
def readElems {α : Type} (readElem : ReaderM α) : ℕ → ReaderM (List α)
  | 0 => return []
  | n + 1 => do
      let e ← readElem
      let es ← readElems readElem n
      return e :: es

/-- `operator>>` for `std::vector<T>`. -/
def readVector {α : Type} (alloc : Allocator) (readElem : ReaderM α) : ReaderM (List α) := do
  let size ← readUInt64
  allocate alloc size
  readElems readElem size.toNat

/-- The bytes a reader has not taken yet. -/
def ReadBuffer.unread (b : ReadBuffer) : Bytes :=
  b.buffer.drop b.begin.toNat

/-- The cursor is inside the buffer, and the buffer's size is a `size_t`. -/
structure ReadBuffer.WF (b : ReadBuffer) : Prop where
  begin_le : b.begin.toNat ≤ b.buffer.length
  size_lt : b.buffer.length < 2 ^ 64

theorem ReadBuffer.make_wf (buffer : Bytes) (h : buffer.length < 2 ^ 64) :
    (ReadBuffer.make buffer).WF :=
  ⟨by simp [ReadBuffer.make], h⟩

@[simp] theorem ReadBuffer.make_unread (buffer : Bytes) :
    (ReadBuffer.make buffer).unread = buffer := by
  simp [ReadBuffer.make, ReadBuffer.unread]

theorem ReadBuffer.unread_length (b : ReadBuffer) :
    b.unread.length = b.buffer.length - b.begin.toNat := by
  simp [ReadBuffer.unread]

theorem ReadBuffer.WF.toNat_size {b : ReadBuffer} (hb : b.WF) :
    (UInt64.ofNat b.buffer.length).toNat = b.buffer.length := by
  rw [UInt64.toNat_ofNat', Nat.mod_eq_of_lt hb.size_lt]

/-- What one `read` does while the bytes are there: it takes the next ones and moves the cursor. -/
theorem ReadBuffer.read_ok {b : ReadBuffer} (hb : b.WF) {nbytes : UInt64}
    (h : nbytes.toNat ≤ b.unread.length) :
    ReadBuffer.read nbytes b =
        .ok (b.unread.take nbytes.toNat, { b with begin := b.begin + nbytes })
      ∧ { b with begin := b.begin + nbytes : ReadBuffer }.WF
      ∧ { b with begin := b.begin + nbytes : ReadBuffer }.unread
          = b.unread.drop nbytes.toNat := by
  have hbegin := hb.begin_le
  have hsize := hb.size_lt
  rw [ReadBuffer.unread_length] at h
  have hsum : (b.begin + nbytes).toNat = b.begin.toNat + nbytes.toNat := by
    rw [UInt64.toNat_add, Nat.mod_eq_of_lt (by omega)]
  refine ⟨?_, ⟨?_, hsize⟩, ?_⟩
  · have h1 : ¬ UInt64.ofNat b.buffer.length < b.begin + nbytes := by
      rw [UInt64.lt_iff_toNat_lt, hb.toNat_size, hsum]; omega
    have h2 : ¬ b.buffer.length < b.begin.toNat + nbytes.toNat := by omega
    simp only [ReadBuffer.read, if_neg h1, if_neg h2, ReadBuffer.unread]
  · simp only [hsum]; omega
  · simp only [ReadBuffer.unread, hsum, List.drop_drop]

/-- What one `read` does where the bytes are not there: it throws, unless the sum in the check
    wraps; then it is below the cursor, passes the check, and the `memcpy` leaves the buffer. -/
theorem ReadBuffer.read_short {b : ReadBuffer} (hb : b.WF) {nbytes : UInt64}
    (h : b.unread.length < nbytes.toNat) :
    ReadBuffer.read nbytes b = .error
      (if b.begin.toNat + nbytes.toNat < 2 ^ 64 then .runtimeError "Buffer out of bytes for read"
        else .outOfBounds) := by
  have hbegin := hb.begin_le
  have hnbytes := nbytes.toNat_lt
  rw [ReadBuffer.unread_length] at h
  have hsum : (b.begin + nbytes).toNat = (b.begin.toNat + nbytes.toNat) % 2 ^ 64 :=
    UInt64.toNat_add _ _
  by_cases hwrap : b.begin.toNat + nbytes.toNat < 2 ^ 64
  · have hcheck : UInt64.ofNat b.buffer.length < b.begin + nbytes := by
      rw [UInt64.lt_iff_toNat_lt, hb.toNat_size, hsum, Nat.mod_eq_of_lt hwrap]
      omega
    rw [ReadBuffer.read, if_pos hcheck, if_pos hwrap]
  · have hsize := hb.size_lt
    have hcheck : ¬ UInt64.ofNat b.buffer.length < b.begin + nbytes := by
      rw [UInt64.lt_iff_toNat_lt, hb.toNat_size, hsum]
      omega
    have houtside : b.buffer.length < b.begin.toNat + nbytes.toNat := by omega
    rw [ReadBuffer.read, if_neg hcheck, if_pos houtside, if_neg hwrap]

/-! ### What a reader takes off a buffer -/

/-- With `bs` next in the buffer, the reader takes exactly `bs` and yields `a`. -/
def Parses {α : Type} (r : ReaderM α) (bs : Bytes) (a : α) : Prop :=
  ∀ (b : ReadBuffer) (tail : Bytes), b.WF → b.unread = bs ++ tail →
    ∃ b', r b = .ok (a, b') ∧ b'.WF ∧ b'.unread = tail

section Parses

variable {α β : Type}

theorem Parses.pure (a : α) : Parses (pure a) [] a :=
  fun b _ hb h => ⟨b, rfl, hb, by simpa using h⟩

theorem Parses.bind {r : ReaderM α} {f : α → ReaderM β} {bs bs' : Bytes} {a : α} {c : β}
    (hr : Parses r bs a) (hf : Parses (f a) bs' c) : Parses (r >>= f) (bs ++ bs') c := by
  intro b tail hb h
  rw [List.append_assoc] at h
  obtain ⟨b₁, hr₁, hb₁, h₁⟩ := hr b (bs' ++ tail) hb h
  obtain ⟨b₂, hf₂, hb₂, h₂⟩ := hf b₁ tail hb₁ h₁
  refine ⟨b₂, ?_, hb₂, h₂⟩
  show (r b >>= fun s => f s.1 s.2) = _
  rw [hr₁]
  exact hf₂

theorem Parses.map {r : ReaderM α} {bs : Bytes} {a : α} (f : α → β) (hr : Parses r bs a) :
    Parses (do let x ← r; return f x) bs (f a) := by
  have h := hr.bind (f := fun x => Pure.pure (f x)) (Parses.pure (f a))
  rwa [List.append_nil] at h

theorem parses_read (bs : Bytes) (n : UInt64) (hn : n.toNat = bs.length) :
    Parses (ReadBuffer.read n) bs bs := by
  intro b tail hb h
  have hle : n.toNat ≤ b.unread.length := by rw [h, List.length_append]; omega
  obtain ⟨hread, hwf, hunread⟩ := ReadBuffer.read_ok hb hle
  refine ⟨_, ?_, hwf, ?_⟩
  · rw [hread, h, hn, List.take_left]
  · rw [hunread, h, hn, List.drop_left]

theorem parses_allocate {alloc : Allocator} {size : UInt64} (h : ∀ b, alloc b size = true) :
    Parses (allocate alloc size) [] () :=
  fun b _ hb htail => ⟨b, by simp [allocate, h b], hb, by simpa using htail⟩

theorem parses_readUInt64 (v : UInt64) : Parses readUInt64 (leBytes 8 v.toNat) v := by
  have hv : UInt64.ofNat (leValue (leBytes 8 v.toNat)) = v := by
    rw [leValue_leBytes_of_lt _ _ v.toNat_lt, UInt64.ofNat_toNat]
  have h := (parses_read (leBytes 8 v.toNat) 8 (by simp)).map (fun bs => UInt64.ofNat (leValue bs))
  rwa [hv] at h

theorem parses_readUInt32 (v : UInt32) : Parses readUInt32 (leBytes 4 v.toNat) v := by
  have hv : UInt32.ofNat (leValue (leBytes 4 v.toNat)) = v := by
    rw [leValue_leBytes_of_lt _ _ v.toNat_lt, UInt32.ofNat_toNat]
  have h := (parses_read (leBytes 4 v.toNat) 4 (by simp)).map (fun bs => UInt32.ofNat (leValue bs))
  rwa [hv] at h

/-- The bytes of a string on the wire: its size as a `uint64_t`, then its characters. -/
def stringBytes (s : StdString) : Bytes :=
  leBytes 8 s.bytes.length ++ s.bytes

@[simp] theorem stringBytes_length (s : StdString) :
    (stringBytes s).length = 8 + s.bytes.length := by
  simp [stringBytes]

theorem StdString.toNat_size (s : StdString) :
    (UInt64.ofNat s.bytes.length).toNat = s.bytes.length := by
  rw [UInt64.toNat_ofNat', Nat.mod_eq_of_lt (lt_trans s.size_lt (by norm_num))]

theorem parses_readString {alloc : Allocator} (s : StdString)
    (halloc : ∀ b, alloc b (UInt64.ofNat s.bytes.length) = true) :
    Parses (readString alloc) (stringBytes s) s := by
  have hsize := parses_readUInt64 (UInt64.ofNat s.bytes.length)
  rw [s.toNat_size] at hsize
  have hbytes := parses_read s.bytes (UInt64.ofNat s.bytes.length) s.toNat_size
  have hstr : Parses (α := StdString) (StdString.ofBytes s.bytes) [] s := by
    rw [StdString.ofBytes_bytes]
    exact Parses.pure s
  have h := (parses_allocate halloc).bind (f := fun _ => do
    let bs ← ReadBuffer.read (UInt64.ofNat s.bytes.length)
    (StdString.ofBytes bs : ReaderM StdString)) (hbytes.bind hstr)
  rw [List.nil_append, List.append_nil] at h
  exact hsize.bind h

theorem parses_readElems {readElem : ReaderM α} {enc : α → Bytes} (xs : List α)
    (h : ∀ x ∈ xs, Parses readElem (enc x) x) :
    Parses (readElems readElem xs.length) (xs.flatMap enc) xs := by
  induction xs with
  | nil => exact Parses.pure []
  | cons x xs ih =>
      have hx := h x (List.mem_cons_self ..)
      have hxs := ih (fun y hy => h y (List.mem_cons_of_mem _ hy))
      exact hx.bind (hxs.map (fun es => x :: es))

/-- The bytes of a vector on the wire: its size, then its elements. -/
def vectorBytes (enc : α → Bytes) (xs : List α) : Bytes :=
  leBytes 8 xs.length ++ xs.flatMap enc

theorem parses_readVector {alloc : Allocator} {readElem : ReaderM α} {enc : α → Bytes}
    (xs : List α) (hlen : xs.length < 2 ^ 64)
    (halloc : ∀ b, alloc b (UInt64.ofNat xs.length) = true)
    (h : ∀ x ∈ xs, Parses readElem (enc x) x) :
    Parses (readVector alloc readElem) (vectorBytes enc xs) xs := by
  have hsize : (UInt64.ofNat xs.length).toNat = xs.length := by
    rw [UInt64.toNat_ofNat', Nat.mod_eq_of_lt hlen]
  have h₁ := parses_readUInt64 (UInt64.ofNat xs.length)
  rw [hsize] at h₁
  have h₂ := parses_readElems xs h
  refine h₁.bind ?_
  have h₃ := (parses_allocate halloc).bind
    (f := fun _ => readElems readElem (UInt64.ofNat xs.length).toNat) (by rw [hsize]; exact h₂)
  rwa [List.nil_append] at h₃

end Parses

/-! ### Whole messages -/

/-- Decode a received message with a `ReadBuffer` of its own. -/
def decodeHeader {α : Type} (readHeader : ReaderM α) (headerBuf : Bytes) : Except Fault α := do
  let (h, _) ← readHeader (ReadBuffer.make headerBuf)
  return h

/-- A decoder that finds its bytes at the front of a message leaves the rest of it unread. -/
theorem decodeHeader_of_parses_append {α : Type} {readHeader : ReaderM α} {bs : Bytes} {h : α}
    (hparse : Parses readHeader bs h) (tail : Bytes) (hlen : (bs ++ tail).length < 2 ^ 64) :
    decodeHeader readHeader (bs ++ tail) = .ok h := by
  obtain ⟨b, hrun, -, -⟩ :=
    hparse (ReadBuffer.make (bs ++ tail)) tail (ReadBuffer.make_wf _ hlen) (by simp)
  rw [decodeHeader, hrun]
  rfl

theorem decodeHeader_of_parses {α : Type} {readHeader : ReaderM α} {bs : Bytes} {h : α}
    (hparse : Parses readHeader bs h) (hlen : bs.length < 2 ^ 64) :
    decodeHeader readHeader bs = .ok h := by
  have happend := decodeHeader_of_parses_append hparse [] (by simpa using hlen)
  rwa [List.append_nil] at happend

/-! ### Running out of memory -/

/-- Whatever `r` yields, `r'` yields too. -/
def Yields {α : Type} (r r' : ReaderM α) : Prop :=
  ∀ b x, r b = .ok x → r' b = .ok x

section Yields

variable {α β : Type}

theorem Yields.rfl {r : ReaderM α} : Yields r r :=
  fun _ _ h => h

theorem Yields.bind {r r' : ReaderM α} {f f' : α → ReaderM β} (hr : Yields r r')
    (hf : ∀ a, Yields (f a) (f' a)) : Yields (r >>= f) (r' >>= f') := by
  intro b x h
  have hbind : (r b >>= fun s => f s.1 s.2) = .ok x := h
  show (r' b >>= fun s => f' s.1 s.2) = .ok x
  cases hrun : r b with
  | error e =>
      rw [hrun] at hbind
      exact absurd hbind (by simp [Bind.bind, Except.bind])
  | ok s =>
      rw [hrun] at hbind
      rw [hr b s hrun]
      exact hf s.1 s.2 x hbind

/-- A bounded memory makes a reader fail, never yield something else. -/
theorem yields_allocate (alloc : Allocator) (size : UInt64) :
    Yields (allocate alloc size) (allocate unlimited size) := by
  intro b x h
  unfold allocate at h ⊢
  by_cases halloc : alloc b size = true
  · rw [if_pos halloc] at h
    exact h
  · rw [if_neg halloc] at h
    exact absurd h (by simp)

theorem yields_readString (alloc : Allocator) :
    Yields (readString alloc) (readString unlimited) :=
  Yields.rfl.bind (fun size => (yields_allocate alloc size).bind (fun _ => Yields.rfl))

theorem yields_readElems {readElem readElem' : ReaderM α} (h : Yields readElem readElem') (n : ℕ) :
    Yields (readElems readElem n) (readElems readElem' n) := by
  induction n with
  | zero => exact Yields.rfl
  | succ n ih => exact h.bind (fun _ => ih.bind (fun _ => Yields.rfl))

theorem yields_readVector (alloc : Allocator) {readElem readElem' : ReaderM α}
    (h : Yields readElem readElem') :
    Yields (readVector alloc readElem) (readVector unlimited readElem') :=
  Yields.rfl.bind (fun size => (yields_allocate alloc size).bind
    (fun _ => yields_readElems h size.toNat))

end Yields

/-! ## `WriteBuffer` -/

/-- `is::WriteBuffer`: the position after the last byte written (`end`), and the storage, which is
    usually larger. -/
structure WriteBuffer where
  endPos : UInt64
  buffer : Bytes

/-- `WriteBuffer::WriteBuffer`. -/
def WriteBuffer.make (initialCapacity : ℕ) : WriteBuffer :=
  ⟨0, zeros initialCapacity⟩

/-- The default argument of `WriteBuffer::WriteBuffer`. -/
def WriteBuffer.defaultCapacity : ℕ :=
  4 * 1024

/-- An encoder: appends its bytes to a `WriteBuffer`. -/
abbrev WriterM := StateT WriteBuffer (Except Fault)

/-- `std::vector<char>::resize`. -/
def resize (bs : Bytes) (n : ℕ) : Bytes :=
  bs.take n ++ zeros (n - bs.length)

/-- `size_t(std::ceil(n * 1.5))`, before the rounding of `double` sets in past 2^52. -/
def ceil15 (n : UInt64) : UInt64 :=
  UInt64.ofNat ((3 * n.toNat + 1) / 2)

/-- `WriteBuffer::write`, with the growth factor as a function `grow`. -/
def WriteBuffer.writeWith (grow : UInt64 → UInt64) (data : Bytes) : WriterM Unit := fun b =>
  let nbytes := UInt64.ofNat data.length
  let size := UInt64.ofNat b.buffer.length
  let buffer :=
    if size < b.endPos + nbytes then resize b.buffer (max (grow size) (size + nbytes)).toNat
    else b.buffer
  if buffer.length < b.endPos.toNat + data.length then
    .error .outOfBounds
  else
    .ok ((), ⟨b.endPos + nbytes,
      buffer.take b.endPos.toNat ++ data ++ buffer.drop (b.endPos.toNat + data.length)⟩)

/-- `WriteBuffer::write`. -/
def WriteBuffer.write (data : Bytes) : WriterM Unit :=
  WriteBuffer.writeWith ceil15 data

/-- `WriteBuffer::size` bytes of `WriteBuffer::data`: what has been written so far. -/
def WriteBuffer.contents (b : WriteBuffer) : Bytes :=
  b.buffer.take b.endPos.toNat

/-- `operator<<` for `uint64_t`. -/
def writeUInt64 (v : UInt64) : WriterM Unit :=
  WriteBuffer.write (leBytes 8 v.toNat)

/-- `operator<<` for `uint32_t`. -/
def writeUInt32 (v : UInt32) : WriterM Unit :=
  WriteBuffer.write (leBytes 4 v.toNat)

/-- `operator<<` for `std::string`. -/
def writeString (s : StdString) : WriterM Unit := do
  writeUInt64 (UInt64.ofNat s.bytes.length)
  WriteBuffer.write s.bytes

/-- `operator<<` for `std::vector<T>`. -/
def writeVector {α : Type} (writeElem : α → WriterM Unit) (xs : List α) : WriterM Unit := do
  writeUInt64 (UInt64.ofNat xs.length)
  xs.forM writeElem

/-- Write into a fresh `WriteBuffer` and hand over its `size()` bytes of `data()`. -/
def serialize (w : WriterM Unit) : Except Fault Bytes := do
  let (_, b) ← w (WriteBuffer.make WriteBuffer.defaultCapacity)
  return b.contents

/-- What has been written lies inside the storage, and the storage's size is a `size_t`. -/
structure WriteBuffer.WF (b : WriteBuffer) : Prop where
  end_le : b.endPos.toNat ≤ b.buffer.length
  size_lt : b.buffer.length < 2 ^ 64

theorem WriteBuffer.make_wf {capacity : ℕ} (h : capacity < 2 ^ 64) :
    (WriteBuffer.make capacity).WF :=
  ⟨by simp [WriteBuffer.make], by simpa [WriteBuffer.make] using h⟩

@[simp] theorem WriteBuffer.make_contents (capacity : ℕ) :
    (WriteBuffer.make capacity).contents = [] := by
  simp [WriteBuffer.make, WriteBuffer.contents]

theorem WriteBuffer.contents_length {b : WriteBuffer} (hb : b.WF) :
    b.contents.length = b.endPos.toNat := by
  simp [WriteBuffer.contents, hb.end_le]

theorem resize_take (bs : Bytes) (n k : ℕ) (hk : k ≤ n) (hb : k ≤ bs.length) :
    (resize bs n).take k = bs.take k := by
  rw [resize, List.take_append_of_le_length (by simp [hk, hb]), List.take_take, min_eq_left hk]

theorem resize_length (bs : Bytes) (n : ℕ) : (resize bs n).length = n := by
  simp [resize]; omega

theorem toNat_le_max (a b : UInt64) : b.toNat ≤ (max a b).toNat := by
  show b.toNat ≤ (if a ≤ b then b else a).toNat
  split
  · exact le_refl _
  · next h =>
      rw [UInt64.le_iff_toNat_le] at h
      omega

section Write

variable {b : WriteBuffer} {n : ℕ} {data : Bytes}

theorem WriteBuffer.toNat_end_add (h : b.endPos.toNat + n < 2 ^ 63) :
    (b.endPos + UInt64.ofNat n).toNat = b.endPos.toNat + n := by
  rw [UInt64.toNat_add, UInt64.toNat_ofNat', Nat.mod_eq_of_lt (a := n) (by omega),
    Nat.mod_eq_of_lt (by omega)]

theorem WriteBuffer.grows_iff (hb : b.WF) (h : b.endPos.toNat + n < 2 ^ 63) :
    UInt64.ofNat b.buffer.length < b.endPos + UInt64.ofNat n ↔
      b.buffer.length < b.endPos.toNat + n := by
  rw [UInt64.lt_iff_toNat_lt, UInt64.toNat_ofNat', Nat.mod_eq_of_lt hb.size_lt,
    WriteBuffer.toNat_end_add h]

/-- Growth makes room for the pending write, whatever the rounding of the growth factor: the other
    operand of the maximum is the old size plus the write. -/
theorem WriteBuffer.grow_room (grow : UInt64 → UInt64) (hb : b.WF)
    (h : b.endPos.toNat + n < 2 ^ 63) (hsmall : b.buffer.length < b.endPos.toNat + n) :
    b.buffer.length ≤
        (max (grow (UInt64.ofNat b.buffer.length))
          (UInt64.ofNat b.buffer.length + UInt64.ofNat n)).toNat
      ∧ b.endPos.toNat + n ≤
        (max (grow (UInt64.ofNat b.buffer.length))
          (UInt64.ofNat b.buffer.length + UInt64.ofNat n)).toNat := by
  have hend := hb.end_le
  have hsize := hb.size_lt
  -- the storage is smaller than the content will be, so the sum does not wrap
  have hsum : (UInt64.ofNat b.buffer.length + UInt64.ofNat n).toNat = b.buffer.length + n := by
    rw [UInt64.toNat_add, UInt64.toNat_ofNat', UInt64.toNat_ofNat', Nat.mod_eq_of_lt hsize,
      Nat.mod_eq_of_lt (a := n) (by omega), Nat.mod_eq_of_lt (by omega)]
  have hmax := toNat_le_max (grow (UInt64.ofNat b.buffer.length))
    (UInt64.ofNat b.buffer.length + UInt64.ofNat n)
  omega

theorem WriteBuffer.grown (hb : b.WF) {size : UInt64} (hsize : b.buffer.length ≤ size.toNat) :
    ({ b with buffer := resize b.buffer size.toNat } : WriteBuffer).WF ∧
      ({ b with buffer := resize b.buffer size.toNat } : WriteBuffer).contents = b.contents := by
  have hend := hb.end_le
  refine ⟨⟨?_, ?_⟩, resize_take _ _ _ (hend.trans hsize) hend⟩
  · rw [resize_length]
    exact hend.trans hsize
  · rw [resize_length]
    exact size.toNat_lt

/-- Into storage with room, the data goes behind the content. -/
theorem WriteBuffer.copied (hb : b.WF) (h : b.endPos.toNat + data.length < 2 ^ 63)
    (hroom : b.endPos.toNat + data.length ≤ b.buffer.length) :
    (⟨b.endPos + UInt64.ofNat data.length, b.buffer.take b.endPos.toNat ++ data ++
        b.buffer.drop (b.endPos.toNat + data.length)⟩ : WriteBuffer).WF ∧
      (⟨b.endPos + UInt64.ofNat data.length, b.buffer.take b.endPos.toNat ++ data ++
        b.buffer.drop (b.endPos.toNat + data.length)⟩ : WriteBuffer).contents =
          b.contents ++ data := by
  have hend := hb.end_le
  have hsize := hb.size_lt
  have hsum := WriteBuffer.toNat_end_add h
  refine ⟨⟨?_, ?_⟩, ?_⟩
  · simp only [hsum, List.length_append, List.length_take, List.length_drop]
    omega
  · simp only [List.length_append, List.length_take, List.length_drop]
    omega
  · have hlen : (b.buffer.take b.endPos.toNat ++ data).length = b.endPos.toNat + data.length := by
      rw [List.length_append, List.length_take, min_eq_left hend]
    simp only [WriteBuffer.contents, hsum]
    rw [← hlen, List.take_left]

/-- What one `write` does while the total stays below 2^63: it appends. -/
theorem WriteBuffer.writeWith_ok (grow : UInt64 → UInt64) (hb : b.WF) (data : Bytes)
    (h : b.endPos.toNat + data.length < 2 ^ 63) :
    ∃ b', WriteBuffer.writeWith grow data b = .ok ((), b') ∧ b'.WF
      ∧ b'.contents = b.contents ++ data := by
  unfold WriteBuffer.writeWith
  by_cases hsmall : b.buffer.length < b.endPos.toNat + data.length
  · obtain ⟨hkeeps, hroom⟩ := WriteBuffer.grow_room grow hb h hsmall
    obtain ⟨hwf, hcontents⟩ := WriteBuffer.grown hb hkeeps
    obtain ⟨hwf', hcontents'⟩ := WriteBuffer.copied hwf h (by rw [resize_length]; exact hroom)
    dsimp only
    rw [if_pos ((WriteBuffer.grows_iff hb h).2 hsmall),
      if_neg (by rw [resize_length]; exact Nat.not_lt.2 hroom)]
    exact ⟨_, rfl, hwf', by rw [hcontents', hcontents]⟩
  · dsimp only
    rw [if_neg (fun hgrows => hsmall ((WriteBuffer.grows_iff hb h).1 hgrows)), if_neg hsmall]
    exact ⟨_, rfl, WriteBuffer.copied hb h (Nat.not_lt.1 hsmall)⟩

end Write

/-! ### What a writer appends to a buffer -/

/-- The writer appends exactly `bs`, whatever has been written before. -/
def Emits (w : WriterM Unit) (bs : Bytes) : Prop :=
  ∀ b : WriteBuffer, b.WF → b.contents.length + bs.length < 2 ^ 63 →
    ∃ b', w b = .ok ((), b') ∧ b'.WF ∧ b'.contents = b.contents ++ bs

theorem Emits.nil : Emits (pure ()) [] :=
  fun b hb _ => ⟨b, rfl, hb, by simp⟩

theorem Emits.seq {w w' : WriterM Unit} {bs bs' : Bytes} (hw : Emits w bs) (hw' : Emits w' bs') :
    Emits (do w; w') (bs ++ bs') := by
  intro b hb h
  rw [List.length_append] at h
  obtain ⟨b₁, hr₁, hb₁, h₁⟩ := hw b hb (by omega)
  obtain ⟨b₂, hr₂, hb₂, h₂⟩ := hw' b₁ hb₁ (by rw [h₁, List.length_append]; omega)
  refine ⟨b₂, ?_, hb₂, by rw [h₂, h₁, List.append_assoc]⟩
  show (w b >>= fun s => w' s.2) = _
  rw [hr₁]
  exact hr₂

theorem emits_write (data : Bytes) : Emits (WriteBuffer.write data) data := by
  intro b hb h
  rw [WriteBuffer.contents_length hb] at h
  exact WriteBuffer.writeWith_ok ceil15 hb data h

theorem emits_writeUInt64 (v : UInt64) : Emits (writeUInt64 v) (leBytes 8 v.toNat) :=
  emits_write _

theorem emits_writeUInt32 (v : UInt32) : Emits (writeUInt32 v) (leBytes 4 v.toNat) :=
  emits_write _

theorem emits_writeString (s : StdString) : Emits (writeString s) (stringBytes s) := by
  have hsize := emits_writeUInt64 (UInt64.ofNat s.bytes.length)
  rw [s.toNat_size] at hsize
  exact hsize.seq (emits_write s.bytes)

theorem emits_forM {α : Type} {writeElem : α → WriterM Unit} {enc : α → Bytes} (xs : List α)
    (h : ∀ x ∈ xs, Emits (writeElem x) (enc x)) : Emits (xs.forM writeElem) (xs.flatMap enc) := by
  induction xs with
  | nil => exact Emits.nil
  | cons x xs ih =>
      have hx := h x (List.mem_cons_self ..)
      exact hx.seq (ih (fun y hy => h y (List.mem_cons_of_mem _ hy)))

theorem emits_writeVector {α : Type} {writeElem : α → WriterM Unit} {enc : α → Bytes}
    (xs : List α) (hlen : xs.length < 2 ^ 64) (h : ∀ x ∈ xs, Emits (writeElem x) (enc x)) :
    Emits (writeVector writeElem xs) (vectorBytes enc xs) := by
  have hsize := emits_writeUInt64 (UInt64.ofNat xs.length)
  rw [UInt64.toNat_ofNat', Nat.mod_eq_of_lt hlen] at hsize
  exact hsize.seq (emits_forM xs h)

theorem serialize_of_emits {w : WriterM Unit} {bs : Bytes} (hw : Emits w bs)
    (h : bs.length < 2 ^ 63) : serialize w = .ok bs := by
  obtain ⟨b, hrun, -, hcontents⟩ := hw (WriteBuffer.make WriteBuffer.defaultCapacity)
    (WriteBuffer.make_wf (by decide)) (by simpa using h)
  rw [WriteBuffer.make_contents, List.nil_append] at hcontents
  rw [serialize, hrun, ← hcontents]
  rfl

end LibIS
