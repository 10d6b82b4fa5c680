import LibIS.Buffering
import LibIS.Library.Objects

set_option autoImplicit false

/-! # A `WriteBuffer` is an append-only byte string (`WriteBuffer::write`)

A `WriteBuffer` against what it is for: a byte string that grows at its end (`appendOnly`). The
storage is larger than the content and grows by the larger of two sizes that are measured from the
storage; whatever the first of them is (`grow`), the second makes room for the write. Growing may
also throw, for want of memory, and then nothing has changed. -/

open ByteCodec

namespace LibIS

/-! ## A call of `write` -/

/-- What is written in a call, and whether there is memory for larger storage; `resize` throws where
    there is none. -/
structure Write where
  data : Bytes
  memory : Bool

/-- The size that storage which is too small is given. -/
def WriteBuffer.grownSize (grow : UInt64 → UInt64) (data : Bytes) (b : WriteBuffer) : UInt64 :=
  max (grow (UInt64.ofNat b.buffer.length))
    (UInt64.ofNat b.buffer.length + UInt64.ofNat data.length)

/-- The end of `WriteBuffer::write`: the `memcpy` behind the content. -/
def WriteBuffer.copy (data : Bytes) (b : WriteBuffer) : Except Fault Unit × WriteBuffer :=
  if b.buffer.length < b.endPos.toNat + data.length then
    (.error .outOfBounds, b)
  else
    (.ok (), ⟨b.endPos + UInt64.ofNat data.length, b.buffer.take b.endPos.toNat ++ data ++
      b.buffer.drop (b.endPos.toNat + data.length)⟩)

/-- `WriteBuffer::write`, with the buffer it leaves when it throws too. -/
def WriteBuffer.call (grow : UInt64 → UInt64) (w : Write) (b : WriteBuffer) :
    Except Fault Unit × WriteBuffer :=
  if UInt64.ofNat b.buffer.length < b.endPos + UInt64.ofNat w.data.length then
    if w.memory then
      WriteBuffer.copy w.data { b with buffer := resize b.buffer (b.grownSize grow w.data).toNat }
    else
      (.error .lengthError, b)
  else
    WriteBuffer.copy w.data b

theorem WriteBuffer.copy_map (data : Bytes) (b : WriteBuffer) :
    (WriteBuffer.copy data b).1.map (fun u => (u, (WriteBuffer.copy data b).2)) =
      if b.buffer.length < b.endPos.toNat + data.length then .error .outOfBounds
      else .ok ((), ⟨b.endPos + UInt64.ofNat data.length, b.buffer.take b.endPos.toNat ++ data ++
        b.buffer.drop (b.endPos.toNat + data.length)⟩) := by
  unfold WriteBuffer.copy
  split <;> rfl

/-- While memory does not run out, an encoder sees of a call the next buffer. -/
theorem WriteBuffer.writeWith_eq_call (grow : UInt64 → UInt64) (data : Bytes) (b : WriteBuffer) :
    WriteBuffer.writeWith grow data b =
      (WriteBuffer.call grow ⟨data, true⟩ b).1.map
        (fun u => (u, (WriteBuffer.call grow ⟨data, true⟩ b).2)) := by
  unfold WriteBuffer.writeWith WriteBuffer.call
  dsimp only
  by_cases hgrows : UInt64.ofNat b.buffer.length < b.endPos + UInt64.ofNat data.length
  · rw [if_pos hgrows, if_pos hgrows, if_pos rfl, WriteBuffer.copy_map]
    rfl
  · rw [if_neg hgrows, if_neg hgrows, WriteBuffer.copy_map]

/-- A `WriteBuffer` as an object. -/
@[reducible] def writeBuffer (grow : UInt64 → UInt64) : CallObject Write (Except Fault Unit) where
  State := WriteBuffer
  call := WriteBuffer.call grow

/-! ## What it is for -/

/-- A byte string that grows at its end. -/
@[reducible] def appendOnly : CallObject Write (Except Fault Unit) where
  State := Bytes
  call w written := (.ok (), written ++ w.data)

theorem appendOnly_run (writes : List Write) (written : Bytes) :
    appendOnly.run writes written =
      (writes.map (fun _ => .ok ()), written ++ writes.flatMap Write.data) := by
  induction writes generalizing written with
  | nil => rw [List.flatMap_nil, List.append_nil, CallObject.run_nil, List.map_nil]
  | cons w writes ih =>
      rw [CallObject.run_cons, ih, List.flatMap_cons, List.append_assoc]
      rfl

/-- What the writes that returned have written. -/
def appended (writes : List Write) (outcomes : List (Except Fault Unit)) : Bytes :=
  (writes.zip outcomes).flatMap (fun x => if x.2.isOk then x.1.data else [])

/-- Growth keeps what there is and makes room for the write. -/
def MakesRoom (grow : UInt64 → UInt64) (w : Write) (b : WriteBuffer) : Prop :=
  b.buffer.length < b.endPos.toNat + w.data.length →
    b.buffer.length ≤ (b.grownSize grow w.data).toNat ∧
      b.endPos.toNat + w.data.length ≤ (b.grownSize grow w.data).toNat

/-! ## One write -/

section Step

variable {grow : UInt64 → UInt64} {b : WriteBuffer} {data : Bytes} {w : Write}

theorem WriteBuffer.makes_room (grow : UInt64 → UInt64) (hb : b.WF)
    (h : b.endPos.toNat + w.data.length < 2 ^ 63) : MakesRoom grow w b :=
  WriteBuffer.grow_room grow hb h

theorem WriteBuffer.copy_ok (hb : b.WF) (h : b.endPos.toNat + data.length < 2 ^ 63)
    (hroom : b.endPos.toNat + data.length ≤ b.buffer.length) :
    (WriteBuffer.copy data b).1 = .ok () ∧ (WriteBuffer.copy data b).2.WF ∧
      (WriteBuffer.copy data b).2.contents = b.contents ++ data := by
  rw [WriteBuffer.copy, if_neg (Nat.not_lt.2 hroom)]
  exact ⟨rfl, WriteBuffer.copied hb h hroom⟩

/-- A write appends its data, or there is no memory and it changes nothing. -/
theorem WriteBuffer.call_cases (grow : UInt64 → UInt64) (hb : b.WF)
    (h : b.endPos.toNat + w.data.length < 2 ^ 63) :
    ((WriteBuffer.call grow w b).1 = .ok () ∧ (WriteBuffer.call grow w b).2.WF ∧
        (WriteBuffer.call grow w b).2.contents = b.contents ++ w.data) ∨
      (WriteBuffer.call grow w b = (.error .lengthError, b) ∧ w.memory = false) := by
  unfold WriteBuffer.call
  by_cases hsmall : b.buffer.length < b.endPos.toNat + w.data.length
  · obtain ⟨hkeeps, hroom⟩ := WriteBuffer.makes_room grow hb h hsmall
    rw [if_pos ((WriteBuffer.grows_iff hb h).2 hsmall)]
    cases hmemory : w.memory with
    | true =>
        obtain ⟨hwf, hcontents⟩ := WriteBuffer.grown hb hkeeps
        rw [if_pos rfl, ← hcontents]
        exact .inl (WriteBuffer.copy_ok hwf h (by rw [resize_length]; exact hroom))
    | false =>
        rw [if_neg Bool.false_ne_true]
        exact .inr ⟨rfl, rfl⟩
  · rw [if_neg (fun hgrows => hsmall ((WriteBuffer.grows_iff hb h).1 hgrows))]
    exact .inl (WriteBuffer.copy_ok hb h (Nat.not_lt.1 hsmall))

end Step

/-! ## Runs -/

section Run

variable {grow : UInt64 → UInt64}

/-- The content of a `WriteBuffer` is a byte string that fits it. -/
structure WriteBuffer.Holds (b : WriteBuffer) (written : Bytes) : Prop where
  wf : b.WF
  contents_eq : b.contents = written

theorem WriteBuffer.Holds.end_eq {b : WriteBuffer} {written : Bytes} (h : b.Holds written) :
    b.endPos.toNat = written.length := by
  rw [← WriteBuffer.contents_length h.wf, h.contents_eq]

/-- While memory does not run out, a `WriteBuffer` is the append-only byte string. -/
def writeBuffer_refines (grow : UInt64 → UInt64) :
    CallObject.Refines (writeBuffer grow) appendOnly
      (fun w written => w.memory = true ∧ written.length + w.data.length < 2 ^ 63) where
  rel := WriteBuffer.Holds
  step := by
    rintro w b written hb ⟨hmemory, hlt⟩
    rw [← hb.end_eq] at hlt
    rcases WriteBuffer.call_cases grow hb.wf hlt with ⟨hout, hwf, hcontents⟩ | ⟨-, hfull⟩
    · exact ⟨hout, hwf, by rw [hcontents, hb.contents_eq]⟩
    · exact absurd (hmemory.symm.trans hfull) (by decide)

/-- The writes that return have been appended, and no write leaves the storage. -/
theorem writeBuffer_run (grow : UInt64 → UInt64) (writes : List Write) {b : WriteBuffer}
    {written : Bytes} (hb : b.Holds written)
    (hlt : written.length + (writes.flatMap Write.data).length < 2 ^ 63) :
    ((writeBuffer grow).run writes b).2.Holds
        (written ++ appended writes ((writeBuffer grow).run writes b).1) ∧
      (writeBuffer grow).Meets (MakesRoom grow) writes b ∧
      Except.error Fault.outOfBounds ∉ ((writeBuffer grow).run writes b).1 := by
  induction writes generalizing b written with
  | nil =>
      rw [CallObject.run_nil]
      exact ⟨by rw [appended, List.zip_nil_left, List.flatMap_nil, List.append_nil]; exact hb,
        trivial, List.not_mem_nil⟩
  | cons w writes ih =>
      rw [List.flatMap_cons, List.length_append] at hlt
      have hfits : b.endPos.toNat + w.data.length < 2 ^ 63 := by
        rw [hb.end_eq]
        omega
      have hmakes : MakesRoom grow w b := WriteBuffer.makes_room grow hb.wf hfits
      rw [CallObject.run_cons, appended, List.zip_cons_cons, List.flatMap_cons]
      rcases WriteBuffer.call_cases grow hb.wf hfits with
        ⟨hout, hwf, hcontents⟩ | ⟨hcall, -⟩
      · have hnext : (WriteBuffer.call grow w b).2.Holds (written ++ w.data) :=
          ⟨hwf, by rw [hcontents, hb.contents_eq]⟩
        obtain ⟨hrun, hmeets, hinside⟩ := ih hnext (by rw [List.length_append]; omega)
        have hout' : ((writeBuffer grow).call w b).1 = .ok () := hout
        rw [hout']
        refine ⟨?_, ⟨hmakes, hmeets⟩, by simpa using hinside⟩
        rw [List.append_assoc] at hrun
        exact hrun
      · have hcall' : (writeBuffer grow).call w b = (.error .lengthError, b) := hcall
        obtain ⟨hrun, hmeets, hinside⟩ := ih hb (by omega)
        rw [CallObject.Meets, hcall']
        exact ⟨hrun, ⟨hmakes, hmeets⟩, by simpa using hinside⟩

theorem WriteBuffer.make_holds (capacity : UInt64) :
    (WriteBuffer.make capacity.toNat).Holds [] :=
  ⟨WriteBuffer.make_wf capacity.toNat_lt, WriteBuffer.make_contents _⟩

end Run

/-- **Appending.** Writes of fewer than 2^63 bytes in all, into a buffer of any initial capacity and
    with any rounding of the growth factor: growth always makes room, no write leaves the storage,
    and after each write the first `size()` bytes are what the writes so far have written, those
    apart for which there was no memory. With memory for all of them, these are all bytes, whatever
    the initial capacity was. -/
theorem write_buffer_appends (grow : UInt64 → UInt64) (capacity : UInt64) (writes : List Write)
    (htotal : (writes.flatMap Write.data).length < 2 ^ 63) :
    (writeBuffer grow).Meets (MakesRoom grow) writes (WriteBuffer.make capacity.toNat) ∧
      (∀ before after, writes = before ++ after →
        ∃ outcomes b, (writeBuffer grow).run before (WriteBuffer.make capacity.toNat) =
            (outcomes, b) ∧
          b.endPos.toNat ≤ b.buffer.length ∧
          b.endPos.toNat = (appended before outcomes).length ∧
          b.contents = appended before outcomes ∧
          Except.error Fault.outOfBounds ∉ outcomes) ∧
      ((∀ w ∈ writes, w.memory = true) →
        ((writeBuffer grow).run writes (WriteBuffer.make capacity.toNat)).1 =
            writes.map (fun _ => .ok ()) ∧
          ((writeBuffer grow).run writes (WriteBuffer.make capacity.toNat)).2.contents =
            writes.flatMap Write.data) := by
  have hmake := WriteBuffer.make_holds capacity
  refine ⟨?_, ?_, ?_⟩
  · exact (writeBuffer_run grow writes hmake (by simpa using htotal)).2.1
  · intro before after hsplit
    have hlt : ([] : Bytes).length + (before.flatMap Write.data).length < 2 ^ 63 := by
      rw [hsplit, List.flatMap_append, List.length_append] at htotal
      rw [List.length_nil]
      omega
    obtain ⟨hholds, -, hinside⟩ := writeBuffer_run grow before hmake hlt
    rw [List.nil_append] at hholds
    exact ⟨_, _, rfl, hholds.wf.end_le, hholds.end_eq, hholds.contents_eq, hinside⟩
  · intro hmemory
    have hmeets : appendOnly.Meets (fun w written =>
        w.memory = true ∧ written.length + w.data.length < 2 ^ 63) writes [] := by
      rw [CallObject.meets_iff]
      intro before w after hsplit
      refine ⟨hmemory w (by rw [hsplit]; simp), ?_⟩
      rw [hsplit, List.flatMap_append, List.flatMap_cons] at htotal
      simp only [List.length_append] at htotal
      rw [appendOnly_run, List.nil_append]
      show (before.flatMap Write.data).length + w.data.length < 2 ^ 63
      omega
    obtain ⟨houts, hholds⟩ := (writeBuffer_refines grow).run hmake hmeets
    rw [appendOnly_run] at houts hholds
    exact ⟨houts, hholds.contents_eq⟩

/-- Three writes into a buffer without capacity. -/
theorem write_buffer_appends_three :
    ((writeBuffer ceil15).run [⟨[1], true⟩, ⟨[2, 3], true⟩, ⟨[4, 5, 6], true⟩]
      (WriteBuffer.make (0 : UInt64).toNat)).2.contents = [1, 2, 3, 4, 5, 6] :=
  ((write_buffer_appends ceil15 0 [⟨[1], true⟩, ⟨[2, 3], true⟩, ⟨[4, 5, 6], true⟩]
    (by decide)).2.2 (by decide)).2

end LibIS
