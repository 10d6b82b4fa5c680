import LibIS.Buffering
import LibIS.Library.Objects

set_option autoImplicit false

/-! # The bounds of a `ReadBuffer` (`ReadBuffer::read`)

A `ReadBuffer` against what it is for: a position in a byte string that never leaves it
(`boundedReader`). The code's check is made on `begin + nbytes`, which is a `size_t` and wraps, so
the two agree as long as that sum stays below 2^64; a sum that wraps is below `begin`, passes the
check and makes `memcpy` leave the buffer. -/

namespace LibIS

/-! ## A call of `read` -/

/-- The exception of `ReadBuffer::read`. -/
def outOfBytes : Fault :=
  .runtimeError "Buffer out of bytes for read"

/-- `ReadBuffer::read`, with the buffer it leaves when it throws too. (After a `memcpy` that leaves
    the buffer there is no next state; the old one stands in for it.) -/
def ReadBuffer.call (nbytes : UInt64) (b : ReadBuffer) : Except Fault Bytes × ReadBuffer :=
  if UInt64.ofNat b.buffer.length < b.begin + nbytes then
    (.error outOfBytes, b)
  else if b.buffer.length < b.begin.toNat + nbytes.toNat then
    (.error .outOfBounds, b)
  else
    (.ok ((b.buffer.drop b.begin.toNat).take nbytes.toNat), { b with begin := b.begin + nbytes })

/-- A decoder sees of a call its bytes and the next buffer, or the exception. -/
theorem ReadBuffer.read_eq_call (nbytes : UInt64) (b : ReadBuffer) :
    ReadBuffer.read nbytes b =
      (ReadBuffer.call nbytes b).1.map (fun bs => (bs, (ReadBuffer.call nbytes b).2)) := by
  unfold ReadBuffer.read ReadBuffer.call
  split
  · rfl
  · split <;> rfl

theorem ReadBuffer.call_of_ok {nbytes : UInt64} {b b' : ReadBuffer} {bs : Bytes}
    (h : ReadBuffer.read nbytes b = .ok (bs, b')) : ReadBuffer.call nbytes b = (.ok bs, b') := by
  rw [ReadBuffer.read_eq_call] at h
  generalize ReadBuffer.call nbytes b = called at h
  obtain ⟨outcome, after⟩ := called
  cases outcome with
  | error e => cases h
  | ok bs' =>
      obtain ⟨rfl, rfl⟩ := Prod.mk.inj (Except.ok.inj h)
      rfl

theorem ReadBuffer.call_of_error {nbytes : UInt64} {b : ReadBuffer} {e : Fault}
    (h : ReadBuffer.read nbytes b = .error e) : ReadBuffer.call nbytes b = (.error e, b) := by
  unfold ReadBuffer.read at h
  unfold ReadBuffer.call
  split at h
  · next hcheck =>
      rw [if_pos hcheck, ← Except.error.inj h]
      rfl
  · split at h
    · next hcheck houtside => rw [if_neg hcheck, if_pos houtside, ← Except.error.inj h]
    · cases h

/-- A `ReadBuffer` as an object. -/
def readBuffer : CallObject UInt64 (Except Fault Bytes) where
  State := ReadBuffer
  call := ReadBuffer.call

/-! ## What it is for -/

/-- A position in `buffer`. -/
abbrev Position (buffer : Bytes) : Type :=
  { p : ℕ // p ≤ buffer.length }

/-- The start of the buffer. -/
def Position.start (buffer : Bytes) : Position buffer :=
  ⟨0, Nat.zero_le _⟩

/-- Take the next bytes if there are so many, and throw otherwise. -/
@[reducible] def boundedReader (buffer : Bytes) : CallObject UInt64 (Except Fault Bytes) where
  State := Position buffer
  call nbytes p :=
    if h : nbytes.toNat ≤ buffer.length - p.1 then
      (.ok ((buffer.drop p.1).take nbytes.toNat), ⟨p.1 + nbytes.toNat, by have hp := p.2; omega⟩)
    else
      (.error outOfBytes, p)

/-- The sum in the check does not wrap. -/
def NoWrap {buffer : Bytes} (nbytes : UInt64) (p : Position buffer) : Prop :=
  p.1 + nbytes.toNat < 2 ^ 64

instance {buffer : Bytes} (nbytes : UInt64) (p : Position buffer) : Decidable (NoWrap nbytes p) :=
  inferInstanceAs (Decidable (_ < _))

/-- One read as it should be: it throws, and the cursor stays, exactly when there are too few bytes
    left; otherwise it returns the next bytes and moves the cursor behind them. -/
structure BoundedRead (buffer : Bytes) (nbytes : UInt64) (b : ReadBuffer) : Prop where
  begin_le : b.begin.toNat ≤ buffer.length
  throws_iff : ReadBuffer.call nbytes b = (.error outOfBytes, b) ↔
    buffer.length - b.begin.toNat < nbytes.toNat
  returns : nbytes.toNat ≤ buffer.length - b.begin.toNat → ∃ b' : ReadBuffer,
    ReadBuffer.call nbytes b = (.ok ((buffer.drop b.begin.toNat).take nbytes.toNat), b') ∧
      b'.buffer = buffer ∧ b'.begin.toNat = b.begin.toNat + nbytes.toNat

/-- The bytes of the reads that returned. -/
def bytesRead (outcomes : List (Except Fault Bytes)) : Bytes :=
  outcomes.flatMap (fun o => o.toOption.getD [])

/-- Reads of the given sizes, one after the other, as they should be. -/
structure ReadsInBounds (buffer : Bytes) (sizes : List UInt64) : Prop where
  each : readBuffer.Meets (BoundedRead buffer) sizes (ReadBuffer.make buffer)
  begin_le : (readBuffer.run sizes (ReadBuffer.make buffer)).2.begin.toNat ≤ buffer.length
  bytes_eq : bytesRead (readBuffer.run sizes (ReadBuffer.make buffer)).1 =
    buffer.take (readBuffer.run sizes (ReadBuffer.make buffer)).2.begin.toNat
  inside : Except.error Fault.outOfBounds ∉ (readBuffer.run sizes (ReadBuffer.make buffer)).1

/-! ## The cursor and the position -/

section Refinement

variable {buffer : Bytes}

/-- The cursor of a `ReadBuffer` is at a position. -/
structure ReadBuffer.At (b : ReadBuffer) (p : Position buffer) : Prop where
  buffer_eq : b.buffer = buffer
  begin_eq : b.begin.toNat = p.1

theorem boundedReader_returns {nbytes : UInt64} {p : Position buffer}
    (h : nbytes.toNat ≤ buffer.length - p.1) :
    ((boundedReader buffer).call nbytes p).1 = .ok ((buffer.drop p.1).take nbytes.toNat) ∧
      ((boundedReader buffer).call nbytes p).2.1 = p.1 + nbytes.toNat := by
  simp only [boundedReader, dif_pos h, and_self]

theorem boundedReader_throws {nbytes : UInt64} {p : Position buffer}
    (h : buffer.length - p.1 < nbytes.toNat) :
    (boundedReader buffer).call nbytes p = (.error outOfBytes, p) := by
  simp only [boundedReader, dif_neg (Nat.not_le.2 h)]

variable {b : ReadBuffer} {p : Position buffer} {nbytes : UInt64}

theorem ReadBuffer.At.wf (h : b.At p) (hsize : buffer.length < 2 ^ 64) : b.WF :=
  ⟨by rw [h.begin_eq, h.buffer_eq]; exact p.2, by rwa [h.buffer_eq]⟩

theorem ReadBuffer.At.unread_eq (h : b.At p) : b.unread = buffer.drop p.1 := by
  rw [ReadBuffer.unread, h.buffer_eq, h.begin_eq]

/-- With enough bytes left, nothing wraps and the bytes are returned. -/
theorem ReadBuffer.At.returns (h : b.At p) (hsize : buffer.length < 2 ^ 64)
    (hn : nbytes.toNat ≤ buffer.length - p.1) :
    ReadBuffer.call nbytes b = (.ok ((buffer.drop p.1).take nbytes.toNat),
        { b with begin := b.begin + nbytes }) ∧
      (b.begin + nbytes).toNat = p.1 + nbytes.toNat := by
  have hp := p.2
  have hleft : nbytes.toNat ≤ b.unread.length := by rwa [h.unread_eq, List.length_drop]
  obtain ⟨hread, -, -⟩ := ReadBuffer.read_ok (h.wf hsize) hleft
  rw [h.unread_eq] at hread
  refine ⟨ReadBuffer.call_of_ok hread, ?_⟩
  rw [UInt64.toNat_add, h.begin_eq, Nat.mod_eq_of_lt (by omega)]

/-- With too few bytes left the call throws, unless the sum wraps: then it leaves the buffer. -/
theorem ReadBuffer.At.throws (h : b.At p) (hsize : buffer.length < 2 ^ 64)
    (hn : buffer.length - p.1 < nbytes.toNat) :
    ReadBuffer.call nbytes b =
      (.error (if p.1 + nbytes.toNat < 2 ^ 64 then outOfBytes else .outOfBounds), b) := by
  have hleft : b.unread.length < nbytes.toNat := by rwa [h.unread_eq, List.length_drop]
  have hread := ReadBuffer.read_short (h.wf hsize) hleft
  rw [h.begin_eq] at hread
  exact ReadBuffer.call_of_error hread

/-- As long as no sum wraps, the code is the bounded reader. -/
def readBuffer_refines (hsize : buffer.length < 2 ^ 64) :
    CallObject.Refines readBuffer (boundedReader buffer) NoWrap where
  rel := ReadBuffer.At
  step := by
    intro nbytes b p h hwrap
    by_cases hn : nbytes.toNat ≤ buffer.length - p.1
    · obtain ⟨hcall, hsum⟩ := h.returns hsize hn
      obtain ⟨hout, hpos⟩ := boundedReader_returns hn
      refine ⟨(congrArg Prod.fst hcall).trans hout.symm, ?_⟩
      show (ReadBuffer.call nbytes b).2.At _
      rw [hcall]
      exact ⟨h.buffer_eq, hsum.trans hpos.symm⟩
    · have hwrap' : p.1 + nbytes.toNat < 2 ^ 64 := hwrap
      have hcall := h.throws hsize (Nat.not_le.1 hn)
      rw [if_pos hwrap'] at hcall
      rw [boundedReader_throws (Nat.not_le.1 hn)]
      exact ⟨congrArg Prod.fst hcall, (congrArg Prod.snd hcall).symm ▸ h⟩

theorem ReadBuffer.at_make (buffer : Bytes) :
    (ReadBuffer.make buffer).At (Position.start buffer) :=
  ⟨rfl, rfl⟩

/-- A read is as it should be exactly when its sum does not wrap. -/
theorem boundedRead_iff (h : b.At p) (hsize : buffer.length < 2 ^ 64) :
    BoundedRead buffer nbytes b ↔ NoWrap nbytes p := by
  have hbegin := h.begin_eq
  have hp := p.2
  constructor
  · intro hread
    by_contra hwrap
    have hwrap' : ¬ p.1 + nbytes.toNat < 2 ^ 64 := hwrap
    have hn : buffer.length - p.1 < nbytes.toNat := by omega
    have hthrows := hread.throws_iff.2 (by rwa [hbegin])
    rw [h.throws hsize hn, if_neg hwrap'] at hthrows
    exact absurd hthrows (by simp [outOfBytes])
  · intro hwrap
    have hwrap' : p.1 + nbytes.toNat < 2 ^ 64 := hwrap
    refine ⟨by rw [hbegin]; exact hp, ?_, ?_⟩
    · rw [hbegin]
      constructor
      · intro hthrows
        by_contra hn
        rw [(h.returns hsize (Nat.not_lt.1 hn)).1] at hthrows
        exact absurd hthrows (by simp)
      · intro hn
        rw [h.throws hsize hn, if_pos hwrap']
    · intro hn
      rw [hbegin] at hn ⊢
      obtain ⟨hcall, hsum⟩ := h.returns hsize hn
      exact ⟨_, hcall, h.buffer_eq, hsum⟩

/-- The bytes that a bounded reader returns are those it has moved over. -/
theorem boundedReader_bytes (sizes : List UInt64) (p : Position buffer) :
    buffer.take p.1 ++ bytesRead ((boundedReader buffer).run sizes p).1 =
        buffer.take ((boundedReader buffer).run sizes p).2.1 ∧
      Except.error Fault.outOfBounds ∉ ((boundedReader buffer).run sizes p).1 := by
  induction sizes generalizing p with
  | nil => exact ⟨List.append_nil _, List.not_mem_nil⟩
  | cons nbytes sizes ih =>
      rw [(boundedReader buffer).run_cons nbytes sizes p, bytesRead, List.flatMap_cons]
      obtain ⟨hbytes, hinside⟩ := ih ((boundedReader buffer).call nbytes p).2
      rw [← hbytes, bytesRead]
      by_cases hn : nbytes.toNat ≤ buffer.length - p.1
      · obtain ⟨hout, hpos⟩ := boundedReader_returns hn
        rw [hout, hpos, List.take_add, List.append_assoc]
        exact ⟨rfl, by simpa using hinside⟩
      · have hcall := boundedReader_throws (Nat.not_le.1 hn)
        rw [hcall] at hinside ⊢
        exact ⟨rfl, by simpa [outOfBytes] using hinside⟩

end Refinement

/-- **Reads in bounds.** Reads of any sizes are as they should be, all of them, if and only if none
    of them asks for so many bytes that the position reached plus the size is 2^64 or more. -/
theorem read_buffer_bounds_iff (buffer : Bytes) (hsize : buffer.length < 2 ^ 64)
    (sizes : List UInt64) :
    ReadsInBounds buffer sizes ↔
      (boundedReader buffer).Meets NoWrap sizes (Position.start buffer) := by
  have hmeets := (readBuffer_refines hsize).meets_iff (P := BoundedRead buffer)
    (fun h => boundedRead_iff h hsize) (ReadBuffer.at_make buffer) sizes
  constructor
  · intro h
    exact hmeets.1 h.each
  · intro h
    obtain ⟨houts, hat⟩ := (readBuffer_refines hsize).run (ReadBuffer.at_make buffer) h
    have hbegin : (readBuffer.run sizes (ReadBuffer.make buffer)).2.begin.toNat =
        ((boundedReader buffer).run sizes (Position.start buffer)).2.1 := hat.begin_eq
    obtain ⟨hbytes, hinside⟩ := boundedReader_bytes sizes (Position.start buffer)
    refine ⟨hmeets.2 h, ?_, ?_, ?_⟩
    · rw [hbegin]
      exact ((boundedReader buffer).run sizes (Position.start buffer)).2.2
    · rw [hbegin, houts, ← hbytes]
      rfl
    · rw [houts]
      exact hinside

/-- Three bytes are read, more than there are refused, and the rest read. -/
theorem read_buffer_bounds_five : ReadsInBounds [1, 2, 3, 4, 5] [3, 7, 2] :=
  (read_buffer_bounds_iff [1, 2, 3, 4, 5] (by decide) [3, 7, 2]).2 (by decide)

/-- Behind the first byte, a read of 2^64 - 1 bytes passes the check. -/
theorem wrapped_read_leaves : ¬ ReadsInBounds [7] [1, 18446744073709551615] := by
  intro h
  have hrun : (readBuffer.run [1, 18446744073709551615] (ReadBuffer.make [7])).1 =
      [.ok [7], .error .outOfBounds] := by rfl
  exact h.inside (by rw [hrun]; simp)

end LibIS
