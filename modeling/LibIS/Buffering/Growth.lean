import LibIS.Buffering.AppendOnly

set_option autoImplicit false

/-! # What growing a `WriteBuffer` costs (`WriteBuffer::write`)

Storage that is too small is given one and a half times its size, or more where the write needs it.
A resize moves at most what the storage held, and what all of them move is paid for by what has been
written (`potential`): the smaller of three times the content and twice the storage. -/

open ByteCodec

namespace LibIS

/-! ## One write -/

/-- The bytes that a call of `write` may have to move into new storage. -/
def WriteBuffer.relocated (w : Write) (b : WriteBuffer) : ℕ :=
  if UInt64.ofNat b.buffer.length < b.endPos + UInt64.ofNat w.data.length ∧ w.memory then
    b.buffer.length
  else 0

/-- What pays for the growth of storage. -/
def WriteBuffer.potential (b : WriteBuffer) : ℕ :=
  min (3 * b.endPos.toNat) (2 * b.buffer.length)

/-- `size_t(std::ceil(size * 1.5))` up to the size from which a `double` rounds it. -/
def GrowsByHalf (grow : UInt64 → UInt64) : Prop :=
  ∀ size : UInt64, size.toNat ≤ 2 ^ 51 → (grow size).toNat = (3 * size.toNat + 1) / 2

/-- What is to be written still fits, and the storage is what it was made with, or at most twice the
    content. -/
structure WriteBuffer.Fitted (capacity : ℕ) (writes : List Write) (b : WriteBuffer) : Prop where
  wf : b.WF
  fits : b.endPos.toNat + (writes.flatMap Write.data).length ≤ 2 ^ 50
  capacity_le : capacity ≤ b.buffer.length
  storage_le : b.buffer.length ≤ max capacity (2 * b.endPos.toNat)

section Step

variable {grow : UInt64 → UInt64} {b : WriteBuffer} {data : Bytes} {w : Write}

theorem toNat_max (a b : UInt64) : (max a b).toNat = max a.toNat b.toNat := by
  show (if a ≤ b then b else a).toNat = _
  by_cases hle : a ≤ b
  · rw [if_pos hle, max_eq_right (UInt64.le_iff_toNat_le.1 hle)]
  · have hlt : b.toNat < a.toNat := Nat.lt_of_not_le (fun h => hle (UInt64.le_iff_toNat_le.2 h))
    rw [if_neg hle, max_eq_left hlt.le]

theorem WriteBuffer.toNat_grownSize (hgrow : GrowsByHalf grow) (hstorage : b.buffer.length ≤ 2 ^ 51)
    (hdata : data.length ≤ 2 ^ 51) :
    (b.grownSize grow data).toNat =
      max ((3 * b.buffer.length + 1) / 2) (b.buffer.length + data.length) := by
  have hsize : (UInt64.ofNat b.buffer.length).toNat = b.buffer.length := by
    rw [UInt64.toNat_ofNat', Nat.mod_eq_of_lt (by omega)]
  have hnbytes : (UInt64.ofNat data.length).toNat = data.length := by
    rw [UInt64.toNat_ofNat', Nat.mod_eq_of_lt (by omega)]
  rw [WriteBuffer.grownSize, toNat_max, hgrow _ (by omega), UInt64.toNat_add, hsize, hnbytes,
    Nat.mod_eq_of_lt (by omega)]

theorem WriteBuffer.copy_storage (data : Bytes) (h : b.endPos.toNat + data.length < 2 ^ 63)
    (hroom : b.endPos.toNat + data.length ≤ b.buffer.length) :
    (WriteBuffer.copy data b).2.endPos.toNat = b.endPos.toNat + data.length ∧
      (WriteBuffer.copy data b).2.buffer.length = b.buffer.length := by
  rw [WriteBuffer.copy, if_neg (Nat.not_lt.2 hroom)]
  refine ⟨WriteBuffer.toNat_end_add h, ?_⟩
  simp only [List.length_append, List.length_take, List.length_drop]
  omega

/-- A write moves nothing and keeps the storage, or moves all of it into storage that is at least
    half as large again and at most twice the new content, or finds no memory. -/
theorem WriteBuffer.call_storage (hgrow : GrowsByHalf grow) (hb : b.WF)
    (hstorage : b.buffer.length ≤ 2 ^ 51) (hfits : b.endPos.toNat + w.data.length ≤ 2 ^ 50) :
    ((WriteBuffer.call grow w b).2.endPos.toNat = b.endPos.toNat + w.data.length ∧
        (WriteBuffer.call grow w b).2.buffer.length = b.buffer.length ∧
        WriteBuffer.relocated w b = 0) ∨
      ((WriteBuffer.call grow w b).2.endPos.toNat = b.endPos.toNat + w.data.length ∧
        3 * b.buffer.length ≤ 2 * (WriteBuffer.call grow w b).2.buffer.length ∧
        (WriteBuffer.call grow w b).2.buffer.length ≤ 2 * (b.endPos.toNat + w.data.length) ∧
        b.buffer.length < b.endPos.toNat + w.data.length ∧
        WriteBuffer.relocated w b = b.buffer.length) ∨
      ((WriteBuffer.call grow w b).2 = b ∧ WriteBuffer.relocated w b = 0) := by
  have hlt : b.endPos.toNat + w.data.length < 2 ^ 63 := by omega
  unfold WriteBuffer.call WriteBuffer.relocated
  by_cases hsmall : b.buffer.length < b.endPos.toNat + w.data.length
  · obtain ⟨-, hroom⟩ := WriteBuffer.makes_room grow hb hlt hsmall
    have hdata : w.data.length ≤ 2 ^ 51 := by omega
    have hsize := WriteBuffer.toNat_grownSize hgrow hstorage hdata
    rw [if_pos ((WriteBuffer.grows_iff hb hlt).2 hsmall)]
    cases hmemory : w.memory with
    | true =>
        obtain ⟨hend, hlength⟩ := @WriteBuffer.copy_storage
          { b with buffer := resize b.buffer (b.grownSize grow w.data).toNat } w.data hlt
          (by rw [resize_length]; exact hroom)
        rw [resize_length] at hlength
        rw [if_pos rfl, hend, hlength, if_pos ⟨(WriteBuffer.grows_iff hb hlt).2 hsmall, rfl⟩]
        exact .inr (.inl ⟨rfl, by omega, by omega, hsmall, rfl⟩)
    | false =>
        rw [if_neg Bool.false_ne_true, if_neg (fun h => Bool.false_ne_true h.2)]
        exact .inr (.inr ⟨rfl, rfl⟩)
  · have hkeeps : ¬ UInt64.ofNat b.buffer.length < b.endPos + UInt64.ofNat w.data.length :=
      fun hgrows => hsmall ((WriteBuffer.grows_iff hb hlt).1 hgrows)
    obtain ⟨hend, hlength⟩ := WriteBuffer.copy_storage w.data hlt (Nat.not_lt.1 hsmall)
    rw [if_neg hkeeps, hend, hlength, if_neg (fun h => hkeeps h.1)]
    exact .inl ⟨rfl, rfl, rfl⟩

/-- A write pays for its growth, and leaves storage that fits. -/
theorem WriteBuffer.call_pays (hgrow : GrowsByHalf grow) {capacity : ℕ}
    (hcapacity : capacity ≤ 2 ^ 51) (w : Write) (writes : List Write)
    (hb : b.Fitted capacity (w :: writes)) :
    WriteBuffer.relocated w b + b.potential ≤ (WriteBuffer.call grow w b).2.potential ∧
      (WriteBuffer.call grow w b).2.Fitted capacity writes := by
  have hfits := hb.fits
  have hstorage := hb.storage_le
  have hcap := hb.capacity_le
  rw [List.flatMap_cons, List.length_append] at hfits
  have hlt : b.endPos.toNat + w.data.length < 2 ^ 63 := by omega
  have hle : b.endPos.toNat + w.data.length ≤ 2 ^ 50 := by omega
  have hwf : (WriteBuffer.call grow w b).2.WF := by
    rcases WriteBuffer.call_cases grow hb.wf hlt with ⟨-, hwf, -⟩ | ⟨hfull, -⟩
    · exact hwf
    · rw [hfull]
      exact hb.wf
  unfold WriteBuffer.potential
  rcases WriteBuffer.call_storage hgrow hb.wf (by omega) hle with
    ⟨hend, hlength, hmoved⟩ | ⟨hend, hgrown, htwice, hsmall, hmoved⟩ | ⟨hsame, hmoved⟩
  · rw [hmoved, hend, hlength]
    exact ⟨by omega, hwf, by omega, by omega, by omega⟩
  · rw [hmoved, hend]
    exact ⟨by omega, hwf, by omega, by omega, by omega⟩
  · rw [hmoved, hsame]
    exact ⟨by omega, hb.wf, by omega, hcap, hstorage⟩

end Step

/-! ## Runs -/

theorem ceil15_growsByHalf : GrowsByHalf ceil15 := by
  intro size hsize
  rw [ceil15, UInt64.toNat_ofNat', Nat.mod_eq_of_lt (by omega)]

/-- **Growth.** Writes of at most 2^50 bytes in all, into a buffer of any initial capacity up to
    2^51, move at most three bytes by resizing for each byte they append, and at most twice the
    storage they end with. The storage is as large as it was made or at most twice as large as the
    content. -/
theorem write_buffer_growth (grow : UInt64 → UInt64) (hgrow : GrowsByHalf grow) (capacity : UInt64)
    (hcapacity : capacity.toNat ≤ 2 ^ 51) (writes : List Write)
    (htotal : (writes.flatMap Write.data).length ≤ 2 ^ 50) :
    ∃ outcomes b, (writeBuffer grow).run writes (WriteBuffer.make capacity.toNat) =
        (outcomes, b) ∧
      (writeBuffer grow).total WriteBuffer.relocated writes (WriteBuffer.make capacity.toNat) ≤
        min (3 * (appended writes outcomes).length) (2 * b.buffer.length) ∧
      capacity.toNat ≤ b.buffer.length ∧
      b.buffer.length ≤ max capacity.toNat (2 * (appended writes outcomes).length) := by
  have hmake := WriteBuffer.make_holds capacity
  have hstart : (WriteBuffer.make capacity.toNat).Fitted capacity.toNat writes := by
    refine ⟨hmake.wf, ?_, ?_, ?_⟩
    · rw [hmake.end_eq, List.length_nil, Nat.zero_add]
      exact htotal
    · exact (zeros_length _).ge
    · exact (zeros_length _).le.trans (le_max_left _ _)
  obtain ⟨hpaid, hfitted⟩ := (writeBuffer grow).meets_of_kept
    (fun writes b => WriteBuffer.Fitted capacity.toNat writes b)
    (fun w writes b hb => WriteBuffer.call_pays hgrow hcapacity w writes hb) hstart
  have hcost := (writeBuffer grow).total_le hpaid
  obtain ⟨hholds, -, -⟩ := writeBuffer_run grow writes hmake (by rw [List.length_nil]; omega)
  have hend := hholds.end_eq
  rw [List.nil_append] at hend
  refine ⟨_, _, rfl, ?_, hfitted.capacity_le, ?_⟩
  · rw [← hend]
    exact (Nat.le_add_right _ _).trans hcost
  · rw [← hend]
    exact hfitted.storage_le

/-- A write that finds no memory is made again. -/
def threeWrites : List Write :=
  [⟨[1], true⟩, ⟨[2, 3], false⟩, ⟨[2, 3], true⟩, ⟨[4, 5, 6], true⟩]

theorem write_buffer_growth_three :
    ∃ outcomes b, (writeBuffer ceil15).run threeWrites (WriteBuffer.make (0 : UInt64).toNat) =
        (outcomes, b) ∧
      (writeBuffer ceil15).total WriteBuffer.relocated threeWrites
          (WriteBuffer.make (0 : UInt64).toNat) ≤
        min (3 * (appended threeWrites outcomes).length) (2 * b.buffer.length) ∧
      (0 : UInt64).toNat ≤ b.buffer.length ∧
      b.buffer.length ≤ max (0 : UInt64).toNat (2 * (appended threeWrites outcomes).length) :=
  write_buffer_growth ceil15 ceil15_growsByHalf 0 (by decide) threeWrites (by decide)

end LibIS
