import LibIS.SimState
import Mathlib.Data.BitVec

set_option autoImplicit false

/-! # Serialization of nested types (`is_buffering.h`)

The overloads of `operator<<` and `operator>>` on types built from fixed-width integers, strings,
arrays and vectors. Which overload is taken depends on where the operator stands: there is no
`operator<<` for `std::array`, so arrays are written by the raw overload; `operator>>` for
`std::array` is declared behind the one for `std::vector`, so it is not found inside of that, and
the elements of a vector are read by the raw overload too. The two disagree only on arrays of no
elements, which are objects of at least one byte (`serialization_round_trip_iff`). -/

open ByteCodec

namespace LibIS

/-! ## Types and values -/

/-- The widths of the fixed-width integer types. -/
inductive Width where
  | w8
  | w16
  | w32
  | w64
deriving DecidableEq, Repr

/-- `sizeof` of an integer type. -/
def Width.bytes : Width → ℕ
  | .w8 => 1
  | .w16 => 2
  | .w32 => 4
  | .w64 => 8

/-- `intN_t` and `uintN_t`. -/
structure IntType where
  width : Width
  signed : Bool
deriving DecidableEq, Repr

/-- The values of an integer type, by their bits. -/
abbrev IntType.Val (t : IntType) : Type :=
  BitVec (8 * t.width.bytes)

/-- The types that are serialized. -/
inductive CType where
  | int (t : IntType)
  | string
  | array (t : IntType) (n : ℕ)
  | vector (t : CType)
deriving DecidableEq, Repr

/-- The values of a type. -/
@[reducible] def CType.Val : CType → Type
  | .int t => t.Val
  | .string => StdString
  | .array t n => List.Vector t.Val n
  | .vector t => List t.Val

/-- A value with its type. -/
abbrev Value : Type :=
  Sigma CType.Val

/-! ## Object memory -/

/-- The memory of an array without elements. Its size is at least one byte, like that of every
    object; what the byte holds is not specified. -/
structure ObjectLayout where
  emptyArray : IntType → Bytes
  emptyArray_ne : ∀ t, emptyArray t ≠ []

/-- The memory of an integer. -/
def IntType.image (t : IntType) (v : t.Val) : Bytes :=
  leBytes t.width.bytes v.toNat

/-- The integer that bytes in memory are. -/
def IntType.ofImage (t : IntType) (bs : Bytes) : t.Val :=
  BitVec.ofNat _ (leValue bs)

/-- The memory of the elements of an array. -/
def elemsImage (t : IntType) {n : ℕ} (v : List.Vector t.Val n) : Bytes :=
  v.toList.flatMap t.image

/-- The memory of an array. -/
def arrayImage (L : ObjectLayout) (t : IntType) {n : ℕ} (v : List.Vector t.Val n) : Bytes :=
  if n = 0 then L.emptyArray t else elemsImage t v

/-- `sizeof(std::array<T, N>)`. -/
def arraySize (L : ObjectLayout) (t : IntType) (n : ℕ) : ℕ :=
  if n = 0 then (L.emptyArray t).length else t.width.bytes * n

/-- The elements of an array in memory. -/
def arrayOfImage (t : IntType) : (n : ℕ) → Bytes → List.Vector t.Val n
  | 0, _ => List.Vector.nil
  | n + 1, bs => t.ofImage (bs.take t.width.bytes) ::ᵥ arrayOfImage t n (bs.drop t.width.bytes)

/-! ## The overloads -/

/-- Where an operator is used: by a caller, who sees all overloads, or in the body of the template
    for `std::vector`, which does not see the one for `std::array` behind it. -/
inductive Scope where
  | caller
  | vectorBody
deriving DecidableEq, Repr

/-- The raw `operator>>` at an integer type. -/
def readInt (t : IntType) : ReaderM t.Val := do
  let bs ← ReadBuffer.read (UInt64.ofNat t.width.bytes)
  return t.ofImage bs

/-- The raw `operator>>` at `std::array<T, N>`. -/
def readRawArray (L : ObjectLayout) (t : IntType) (n : ℕ) : ReaderM (List.Vector t.Val n) := do
  let bs ← ReadBuffer.read (UInt64.ofNat (arraySize L t n))
  return arrayOfImage t n bs

/-- `operator>>`. -/
def CType.read (L : ObjectLayout) (alloc : Allocator) : Scope → (t : CType) → ReaderM t.Val
  | _, .int t => readInt t
  | _, .string => readString alloc
  | .caller, .array t n => readArray (readInt t) n
  | .vectorBody, .array t n => readRawArray L t n
  | _, .vector t => readVector alloc (CType.read L alloc .vectorBody t)

/-- `operator<<`. -/
def CType.write (L : ObjectLayout) : (t : CType) → t.Val → WriterM Unit
  | .int t, v => WriteBuffer.write (t.image v)
  | .string, v => writeString v
  | .array t _, v => WriteBuffer.write (arrayImage L t v)
  | .vector t, v => writeVector (CType.write L t) v

/-- Write values one after the other. -/
def writeValues (L : ObjectLayout) (vs : List Value) : WriterM Unit :=
  vs.forM (fun v => v.1.write L v.2)

/-- Read values of the given types one after the other. -/
def readValues (L : ObjectLayout) (alloc : Allocator) : List CType → ReaderM (List Value)
  | [] => return []
  | t :: ts => do
      let v ← t.read L alloc .caller
      let vs ← readValues L alloc ts
      return ⟨t, v⟩ :: vs

/-! ## What is written and what is read -/

/-- The bytes that `operator<<` writes. -/
def CType.encoding (L : ObjectLayout) : (t : CType) → t.Val → Bytes
  | .int t, v => t.image v
  | .string, v => stringBytes v
  | .array t _, v => arrayImage L t v
  | .vector t, v => vectorBytes (CType.encoding L t) v

/-- The bytes that `operator>>` reads. -/
def CType.reading (L : ObjectLayout) : Scope → (t : CType) → t.Val → Bytes
  | .caller, .array t _, v => elemsImage t v
  | _, t, v => t.encoding L v

/-- The bytes that values are written as. -/
def encodings (L : ObjectLayout) (vs : List Value) : Bytes :=
  vs.flatMap (fun v => v.1.encoding L v.2)

/-- The bytes that values are read off. -/
def readings (L : ObjectLayout) (vs : List Value) : Bytes :=
  vs.flatMap (fun v => v.1.reading L .caller v.2)

section Images

variable {t : IntType} {n : ℕ}

theorem Width.bytes_pos (w : Width) : 0 < w.bytes := by
  cases w <;> decide

theorem Width.bytes_le (w : Width) : w.bytes ≤ 8 := by
  cases w <;> decide

theorem image_lt (v : t.Val) : v.toNat < 256 ^ t.width.bytes := by
  have h := v.isLt
  rwa [pow_mul] at h

@[simp] theorem image_length (v : t.Val) : (t.image v).length = t.width.bytes :=
  leBytes_length _ _

@[simp] theorem ofImage_image (v : t.Val) : t.ofImage (t.image v) = v := by
  rw [IntType.ofImage, IntType.image, leValue_leBytes_of_lt _ _ (image_lt v), BitVec.ofNat_toNat,
    BitVec.setWidth_eq]

theorem image_ofImage {bs : Bytes} (h : bs.length = t.width.bytes) :
    t.image (t.ofImage bs) = bs := by
  have hlt := leValue_lt bs
  have hpow : (256 : ℕ) ^ bs.length = 2 ^ (8 * t.width.bytes) := by rw [h, pow_mul]; norm_num
  rw [IntType.image, IntType.ofImage, BitVec.toNat_ofNat, Nat.mod_eq_of_lt (hpow ▸ hlt), ← h,
    leBytes_leValue]

@[simp] theorem elemsImage_cons (x : t.Val) (v : List.Vector t.Val n) :
    elemsImage t (x ::ᵥ v) = t.image x ++ elemsImage t v := rfl

theorem elemsImage_length (v : List.Vector t.Val n) :
    (elemsImage t v).length = t.width.bytes * n := by
  induction n with
  | zero =>
      rw [List.Vector.eq_nil v]
      rfl
  | succ n ih =>
      obtain ⟨x, w, rfl⟩ := v.exists_eq_cons
      rw [elemsImage_cons, List.length_append, image_length, ih w, Nat.mul_succ, Nat.add_comm]

theorem arrayImage_length (L : ObjectLayout) (v : List.Vector t.Val n) :
    (arrayImage L t v).length = arraySize L t n := by
  unfold arrayImage arraySize
  split
  · rfl
  · exact elemsImage_length v

theorem arraySize_pos (L : ObjectLayout) (t : IntType) (n : ℕ) : 0 < arraySize L t n := by
  unfold arraySize
  split
  · exact List.length_pos_iff.2 (L.emptyArray_ne t)
  · next hn => exact Nat.mul_pos t.width.bytes_pos (Nat.pos_of_ne_zero hn)

theorem arrayOfImage_elemsImage (v : List.Vector t.Val n) :
    arrayOfImage t n (elemsImage t v) = v := by
  induction n with
  | zero => rw [List.Vector.eq_nil v]; rfl
  | succ n ih =>
      obtain ⟨x, w, rfl⟩ := v.exists_eq_cons
      have hlen : (t.image x).length = t.width.bytes := image_length x
      rw [elemsImage_cons, arrayOfImage, List.take_left' hlen, List.drop_left' hlen, ofImage_image,
        ih w]

theorem arrayOfImage_arrayImage (L : ObjectLayout) (v : List.Vector t.Val n) :
    arrayOfImage t n (arrayImage L t v) = v := by
  unfold arrayImage
  split
  · next hn =>
      subst hn
      rw [List.Vector.eq_nil v]
      rfl
  · exact arrayOfImage_elemsImage v

end Images

/-! ## Writing -/

section Writing

variable (L : ObjectLayout)

theorem encoding_pos (t : CType) (v : t.Val) : 0 < (t.encoding L v).length := by
  cases t with
  | int t =>
      rw [CType.encoding, image_length]
      exact t.width.bytes_pos
  | string =>
      rw [CType.encoding, stringBytes_length]
      exact Nat.add_pos_left (by decide) _
  | array t n =>
      rw [CType.encoding, arrayImage_length]
      exact arraySize_pos L t n
  | vector t =>
      rw [CType.encoding, vectorBytes, List.length_append, leBytes_length]
      exact Nat.add_pos_left (by decide) _

theorem length_le_vectorBytes {α : Type} {enc : α → Bytes} (h : ∀ x, 0 < (enc x).length)
    (xs : List α) : xs.length ≤ (vectorBytes enc xs).length := by
  rw [vectorBytes, List.length_append]
  have hflat : xs.length ≤ (xs.flatMap enc).length := by
    induction xs with
    | nil => exact Nat.zero_le _
    | cons x xs ih =>
        have hx := h x
        rw [List.flatMap_cons, List.length_append, List.length_cons]
        omega
  omega

theorem emits_writeValue (t : CType) (v : t.Val) : Emits (t.write L v) (t.encoding L v) := by
  induction t with
  | int t => exact emits_write _
  | string => exact emits_writeString v
  | array t n => exact emits_write _
  | vector t ih =>
      intro b hb h
      have hlen := length_le_vectorBytes (encoding_pos L t) v
      have hv : CType.encoding L (.vector t) v = vectorBytes (t.encoding L) v := rfl
      rw [hv] at h
      exact emits_writeVector v (by omega) (fun x _ => ih x) b hb h

theorem emits_writeValues (vs : List Value) : Emits (writeValues L vs) (encodings L vs) :=
  emits_forM vs (fun v _ => emits_writeValue L v.1 v.2)

end Writing

/-! ## Reading what has been written -/

section Reading

variable (L : ObjectLayout)

theorem parses_readInt {t : IntType} (v : t.Val) : Parses (readInt t) (t.image v) v := by
  have hsize : (UInt64.ofNat t.width.bytes).toNat = (t.image v).length := by
    have hle := t.width.bytes_le
    rw [image_length, UInt64.toNat_ofNat', Nat.mod_eq_of_lt (by omega)]
  have h := (parses_read (t.image v) _ hsize).map t.ofImage
  rwa [ofImage_image] at h

theorem parses_readRawArray {t : IntType} {n : ℕ} (v : List.Vector t.Val n) :
    Parses (readRawArray L t n) (arrayImage L t v) v := by
  intro b tail hb h
  have hfits : (arrayImage L t v).length < 2 ^ 64 := by
    have hlen := congrArg List.length h
    rw [List.length_append, ReadBuffer.unread_length] at hlen
    have hsize := hb.size_lt
    omega
  have hsize : (UInt64.ofNat (arraySize L t n)).toNat = (arrayImage L t v).length := by
    rw [UInt64.toNat_ofNat', ← arrayImage_length L v, Nat.mod_eq_of_lt hfits]
  have hparse := (parses_read (arrayImage L t v) _ hsize).map (arrayOfImage t n)
  rw [arrayOfImage_arrayImage] at hparse
  exact hparse b tail hb h

/-- Whatever is read off a vector's elements, the vector is read in full. -/
theorem parses_vector {t : CType} {r : ReaderM t.Val} {enc : t.Val → Bytes}
    (hpos : ∀ x, 0 < (enc x).length) (hr : ∀ x, Parses r (enc x) x) (xs : List t.Val) :
    Parses (readVector unlimited r) (vectorBytes enc xs) xs := by
  intro b tail hb h
  have hlen : xs.length < 2 ^ 64 := by
    have hle := length_le_vectorBytes hpos xs
    have htotal := congrArg List.length h
    rw [List.length_append, ReadBuffer.unread_length] at htotal
    have hsize := hb.size_lt
    omega
  exact parses_readVector xs hlen (fun _ => rfl) (fun x _ => hr x) b tail hb h

/-- In the body of the template for vectors, values are read as they have been written. -/
theorem parses_vectorBody (t : CType) (v : t.Val) :
    Parses (t.read L unlimited .vectorBody) (t.encoding L v) v := by
  induction t with
  | int t => exact parses_readInt v
  | string => exact parses_readString v (fun _ => rfl)
  | array t n => exact parses_readRawArray L v
  | vector t ih => exact parses_vector (encoding_pos L t) ih v

/-- A caller reads arrays element by element. -/
theorem parses_caller (t : CType) (v : t.Val) :
    Parses (t.read L unlimited .caller) (t.reading L .caller v) v := by
  cases t with
  | int t => exact parses_readInt v
  | string => exact parses_readString v (fun _ => rfl)
  | array t n => exact parses_readArray v parses_readInt
  | vector t => exact parses_vector (encoding_pos L t) (parses_vectorBody L t) v

theorem parses_readValues (vs : List Value) :
    Parses (readValues L unlimited (vs.map Sigma.fst)) (readings L vs) vs := by
  induction vs with
  | nil => exact Parses.pure []
  | cons v vs ih => exact (parses_caller L v.1 v.2).bind (ih.map (fun vs => v :: vs))

end Reading

/-! ## Reading anything -/

/-- Where the reader yields a value, the bytes it has taken off the buffer are as `R` says. -/
def Takes {α : Type} (r : ReaderM α) (R : α → Bytes → Prop) : Prop :=
  ∀ (b : ReadBuffer) (a : α) (b' : ReadBuffer), b.WF → r b = .ok (a, b') →
    b'.WF ∧ ∃ bs, b.unread = bs ++ b'.unread ∧ R a bs

section Takes

variable {α β : Type}

theorem Takes.pure {R : α → Bytes → Prop} {a : α} (h : R a []) : Takes (pure a) R := by
  intro b a' b' hb hrun
  obtain ⟨rfl, rfl⟩ := Prod.mk.inj (Except.ok.inj hrun)
  exact ⟨hb, [], rfl, h⟩

theorem Takes.bind {r : ReaderM α} {f : α → ReaderM β} {R : α → Bytes → Prop}
    {S : β → Bytes → Prop} (hr : Takes r R)
    (hf : ∀ a bs, R a bs → Takes (f a) (fun c cs => S c (bs ++ cs))) : Takes (r >>= f) S := by
  intro b c b' hb hrun
  have hrun' : (r b >>= fun s => f s.1 s.2) = .ok (c, b') := hrun
  cases hfirst : r b with
  | error e =>
      rw [hfirst] at hrun'
      exact absurd hrun' (by simp [Bind.bind, Except.bind])
  | ok s =>
      rw [hfirst] at hrun'
      obtain ⟨hwf, bs, hbs, hR⟩ := hr b s.1 s.2 hb hfirst
      obtain ⟨hwf', cs, hcs, hS⟩ := hf s.1 bs hR s.2 c b' hwf hrun'
      exact ⟨hwf', bs ++ cs, by rw [hbs, hcs, List.append_assoc], hS⟩

theorem takes_read (n : UInt64) :
    Takes (ReadBuffer.read n) (fun a bs => a = bs ∧ bs.length = n.toNat) := by
  intro b a b' hb hrun
  by_cases hn : n.toNat ≤ b.unread.length
  · obtain ⟨hread, hwf, hunread⟩ := ReadBuffer.read_ok hb hn
    rw [hread] at hrun
    obtain ⟨rfl, rfl⟩ := Prod.mk.inj (Except.ok.inj hrun)
    exact ⟨hwf, _, by rw [hunread, List.take_append_drop], rfl, List.length_take_of_le hn⟩
  · rw [ReadBuffer.read_short hb (Nat.not_le.1 hn)] at hrun
    cases hrun

theorem takes_allocate (alloc : Allocator) (size : UInt64) :
    Takes (allocate alloc size) (fun _ bs => bs = []) := by
  intro b a b' hb hrun
  unfold allocate at hrun
  by_cases halloc : alloc b size = true
  · rw [if_pos halloc] at hrun
    obtain ⟨-, rfl⟩ := Prod.mk.inj (Except.ok.inj hrun)
    exact ⟨hb, [], rfl, rfl⟩
  · rw [if_neg halloc] at hrun
    exact absurd hrun (by simp)

theorem Takes.mono {r : ReaderM α} {R S : α → Bytes → Prop} (hr : Takes r R)
    (h : ∀ a bs, R a bs → S a bs) : Takes r S := by
  intro b a b' hb hrun
  obtain ⟨hwf, bs, hbs, hR⟩ := hr b a b' hb hrun
  exact ⟨hwf, bs, hbs, h a bs hR⟩

theorem takes_readUInt64 : Takes readUInt64 (fun v bs => bs = leBytes 8 v.toNat) := by
  refine (takes_read 8).bind (fun bs bs' hread => Takes.pure ?_)
  obtain ⟨rfl, hlen⟩ := hread
  have hlt := leValue_lt bs
  have himage := leBytes_leValue bs
  have hlen' : bs.length = 8 := hlen
  rw [hlen'] at hlt himage
  rw [List.append_nil, UInt64.toNat_ofNat', Nat.mod_eq_of_lt (by omega), himage]

theorem takes_readString (alloc : Allocator) :
    Takes (readString alloc) (fun s bs => bs = stringBytes s) := by
  refine takes_readUInt64.bind (fun size bs₁ h₁ => ?_)
  refine (takes_allocate alloc size).bind (fun _ bs₂ h₂ => ?_)
  refine (takes_read size).bind (fun bs bs₃ h₃ => ?_)
  obtain ⟨rfl, hlen⟩ := h₃
  subst h₁ h₂
  intro b s b' hb hrun
  unfold StdString.ofBytes at hrun
  by_cases hsize : bs.length < 2 ^ 62
  · rw [dif_pos hsize] at hrun
    obtain ⟨rfl, rfl⟩ := Prod.mk.inj (Except.ok.inj hrun)
    refine ⟨hb, [], rfl, ?_⟩
    show leBytes 8 size.toNat ++ ([] ++ (bs ++ [])) = stringBytes ⟨bs, hsize⟩
    rw [List.append_nil, List.nil_append, stringBytes, hlen]
  · rw [dif_neg hsize] at hrun
    cases hrun

/-- The elements of a container take their bytes one after the other. -/
def InTurn (R : α → Bytes → Prop) (xs : List α) (bs : Bytes) : Prop :=
  ∃ parts : List Bytes, bs = parts.flatten ∧ List.Forall₂ R xs parts

theorem InTurn.nil (R : α → Bytes → Prop) : InTurn R [] [] :=
  ⟨[], rfl, .nil⟩

theorem InTurn.cons {R : α → Bytes → Prop} {x : α} {xs : List α} {bs bs' : Bytes} (hx : R x bs)
    (hxs : InTurn R xs bs') : InTurn R (x :: xs) (bs ++ bs') := by
  obtain ⟨parts, rfl, hparts⟩ := hxs
  exact ⟨bs :: parts, rfl, .cons hx hparts⟩

/-- Elements that take as many bytes as their encodings have take as many as all of these have. The
    encodings are shorter than the bound `N`. -/
theorem InTurn.length {enc : α → Bytes} {N : ℕ} {xs : List α} {bs : Bytes}
    (h : InTurn (fun x bs => (enc x).length < N → bs.length = (enc x).length) xs bs)
    (hN : (xs.flatMap enc).length < N) : bs.length = (xs.flatMap enc).length := by
  obtain ⟨parts, rfl, hparts⟩ := h
  induction hparts with
  | nil => rfl
  | cons hx _ ih =>
      rw [List.flatMap_cons, List.length_append] at hN
      rw [List.flatten_cons, List.flatMap_cons, List.length_append, List.length_append,
        hx (by omega), ih (by omega)]

theorem takes_readElems {r : ReaderM α} {R : α → Bytes → Prop} (hr : Takes r R) (n : ℕ) :
    Takes (readElems r n) (fun xs bs => xs.length = n ∧ InTurn R xs bs) := by
  induction n with
  | zero => exact Takes.pure ⟨rfl, .nil R⟩
  | succ n ih =>
      refine hr.bind (fun x bs hx => ih.bind (fun xs bs' hxs => Takes.pure ?_))
      rw [List.append_nil]
      exact ⟨congrArg Nat.succ hxs.1, hxs.2.cons hx⟩

theorem takes_readVector (alloc : Allocator) {r : ReaderM α} {R : α → Bytes → Prop}
    (hr : Takes r R) :
    Takes (readVector alloc r)
      (fun xs bs => ∃ cs, bs = leBytes 8 xs.length ++ cs ∧ InTurn R xs cs) := by
  refine takes_readUInt64.bind (fun size bs₁ h₁ => ?_)
  refine (takes_allocate alloc size).bind (fun _ bs₂ h₂ => ?_)
  subst h₁ h₂
  refine (takes_readElems hr size.toNat).mono (fun xs cs hxs => ?_)
  exact ⟨cs, by rw [hxs.1]; rfl, hxs.2⟩

theorem takes_readArray {r : ReaderM α} {R : α → Bytes → Prop} (hr : Takes r R) (n : ℕ) :
    Takes (readArray r n) (fun v bs => InTurn R v.toList bs) := by
  induction n with
  | zero => exact Takes.pure (.nil R)
  | succ n ih =>
      refine hr.bind (fun x bs hx => ih.bind (fun v bs' hv => Takes.pure ?_))
      rw [List.append_nil, List.Vector.toList_cons]
      exact hv.cons hx

end Takes

section Lengths

variable (L : ObjectLayout) (alloc : Allocator)

theorem takes_readInt (t : IntType) : Takes (readInt t) (fun v bs => bs = t.image v) := by
  have hsize : (UInt64.ofNat t.width.bytes).toNat = t.width.bytes := by
    have hle := t.width.bytes_le
    rw [UInt64.toNat_ofNat', Nat.mod_eq_of_lt (by omega)]
  refine (takes_read _).bind (fun bs bs' hread => Takes.pure ?_)
  obtain ⟨rfl, hlen⟩ := hread
  rw [List.append_nil, image_ofImage (hlen.trans hsize)]

theorem takes_vector_length {t : CType} {r : ReaderM t.Val} {enc : t.Val → Bytes}
    (hr : Takes r (fun v bs => (enc v).length < 2 ^ 64 → bs.length = (enc v).length)) :
    Takes (readVector alloc r) (fun v bs => (vectorBytes enc v).length < 2 ^ 64 →
      bs.length = (vectorBytes enc v).length) := by
  refine (takes_readVector alloc hr).mono (fun v bs hv hlt => ?_)
  obtain ⟨cs, rfl, hcs⟩ := hv
  rw [vectorBytes, List.length_append] at hlt ⊢
  rw [List.length_append, hcs.length (by omega)]

/-- What is read inside of a vector takes as many bytes as it is written as. -/
theorem takes_vectorBody_length (t : CType) :
    Takes (t.read L alloc .vectorBody) (fun v bs => (t.encoding L v).length < 2 ^ 64 →
      bs.length = (t.encoding L v).length) := by
  induction t with
  | int t => exact (takes_readInt t).mono (fun v bs h _ => congrArg List.length h)
  | string => exact (takes_readString alloc).mono (fun v bs h _ => congrArg List.length h)
  | array t n =>
      refine (takes_read _).bind (fun bs bs' hread => Takes.pure (fun hlt => ?_))
      have hlen : (arrayImage L t (arrayOfImage t n bs)).length = arraySize L t n :=
        arrayImage_length L _
      obtain ⟨rfl, hread⟩ := hread
      show (bs ++ []).length = (arrayImage L t (arrayOfImage t n bs)).length
      have hlt' : (arrayImage L t (arrayOfImage t n bs)).length < 2 ^ 64 := hlt
      rw [hlen] at hlt' ⊢
      rw [List.append_nil, hread, UInt64.toNat_ofNat', Nat.mod_eq_of_lt hlt']
  | vector t ih => exact takes_vector_length alloc ih

/-- What a caller reads takes as many bytes as the overload for its type reads. -/
theorem takes_caller_length (t : CType) :
    Takes (t.read L alloc .caller) (fun v bs => (t.reading L .caller v).length < 2 ^ 64 →
      bs.length = (t.reading L .caller v).length) := by
  cases t with
  | int t => exact (takes_readInt t).mono (fun v bs h _ => congrArg List.length h)
  | string => exact (takes_readString alloc).mono (fun v bs h _ => congrArg List.length h)
  | array t n =>
      refine (takes_readArray (takes_readInt t) n).mono (fun v bs h hlt => ?_)
      obtain ⟨parts, rfl, hparts⟩ := h
      refine InTurn.length (N := 2 ^ 64) ⟨parts, rfl, ?_⟩ hlt
      refine List.Forall₂.imp ?_ hparts
      intro x bs h _
      exact congrArg List.length h
  | vector t => exact takes_vector_length alloc (takes_vectorBody_length L alloc t)

theorem takes_readValues_length (ts : List CType) :
    Takes (readValues L alloc ts) (fun vs bs => (readings L vs).length < 2 ^ 64 →
      bs.length = (readings L vs).length) := by
  induction ts with
  | nil => exact Takes.pure (fun _ => rfl)
  | cons t ts ih =>
      refine (takes_caller_length L alloc t).bind (fun v bs hv => ih.bind
        (fun vs bs' hvs => Takes.pure (fun hlt => ?_)))
      have hcons : readings L (⟨t, v⟩ :: vs) = t.reading L .caller v ++ readings L vs := rfl
      rw [hcons, List.length_append] at hlt ⊢
      rw [List.append_nil, List.length_append, hv (by omega), hvs (by omega)]

/-! ## The round trip -/

/-- Arrays without elements, which a caller writes as an object and reads as nothing. -/
def Value.isEmptyArray : Value → Bool
  | ⟨.array _ n, _⟩ => n = 0
  | _ => false

variable {alloc}

/-- A caller reads what has been written, but for the bytes of empty arrays. -/
theorem reading_length (v : Value) :
    (v.1.reading L .caller v.2).length ≤ (v.1.encoding L v.2).length ∧
      (v.isEmptyArray = true →
        (v.1.reading L .caller v.2).length < (v.1.encoding L v.2).length) ∧
      (v.isEmptyArray = false → v.1.reading L .caller v.2 = v.1.encoding L v.2) := by
  obtain ⟨t, v⟩ := v
  cases t with
  | array t n =>
      have helems : (elemsImage t v).length = t.width.bytes * n := elemsImage_length v
      have harray : (arrayImage L t v).length = arraySize L t n := arrayImage_length L v
      show (elemsImage t v).length ≤ (arrayImage L t v).length ∧
        (_ → (elemsImage t v).length < (arrayImage L t v).length) ∧
        (_ → elemsImage t v = arrayImage L t v)
      by_cases hn : n = 0
      · have hpos := arraySize_pos L t n
        subst hn
        rw [helems, harray, Nat.mul_zero]
        exact ⟨Nat.zero_le _, fun _ => hpos, fun h => absurd h (by simp [Value.isEmptyArray])⟩
      · have hsame : arrayImage L t v = elemsImage t v := if_neg hn
        rw [hsame]
        exact ⟨le_refl _, fun h => absurd h (by simp [Value.isEmptyArray, hn]), fun _ => rfl⟩
  | int t => exact ⟨le_refl _, fun h => absurd h (by simp [Value.isEmptyArray]), fun _ => rfl⟩
  | string => exact ⟨le_refl _, fun h => absurd h (by simp [Value.isEmptyArray]), fun _ => rfl⟩
  | vector t => exact ⟨le_refl _, fun h => absurd h (by simp [Value.isEmptyArray]), fun _ => rfl⟩

theorem readings_length (vs : List Value) :
    (readings L vs).length ≤ (encodings L vs).length ∧
      ((readings L vs).length = (encodings L vs).length → ∀ v ∈ vs, v.isEmptyArray = false) := by
  induction vs with
  | nil => exact ⟨le_refl _, fun _ v hv => absurd hv (by simp)⟩
  | cons v vs ih =>
      obtain ⟨hle, hlt, -⟩ := reading_length L v
      simp only [readings, encodings, List.flatMap_cons, List.length_append] at ih ⊢
      refine ⟨by omega, fun heq v' hv' => ?_⟩
      rcases List.mem_cons.1 hv' with rfl | hv'
      · by_contra hempty
        have hlt' := hlt (by simpa using hempty)
        omega
      · exact ih.2 (by omega) v' hv'

theorem readings_eq {vs : List Value} (h : ∀ v ∈ vs, v.isEmptyArray = false) :
    readings L vs = encodings L vs := by
  induction vs with
  | nil => rfl
  | cons v vs ih =>
      have hv := (reading_length L v).2.2 (h v (List.mem_cons_self ..))
      have hvs := ih (fun v' hv' => h v' (List.mem_cons_of_mem _ hv'))
      simp only [readings, encodings, List.flatMap_cons] at hvs ⊢
      rw [hv, hvs]

/-- **Round trip.** Values that are written into a `WriteBuffer` of any initial capacity are the
    values read back from what it holds, with no byte left, if and only if none of them is an array
    without elements. -/
theorem serialization_round_trip_iff (capacity : UInt64) (vs : List Value)
    (hlen : (encodings L vs).length < 2 ^ 63) :
    ∃ b, writeValues L vs (WriteBuffer.make capacity.toNat) = .ok ((), b) ∧
      ((∃ r, readValues L unlimited (vs.map Sigma.fst) (ReadBuffer.make b.contents) = .ok (vs, r) ∧
          r.unread = []) ↔
        ∀ v ∈ vs, v.isEmptyArray = false) := by
  obtain ⟨b, hwrite, -, hcontents⟩ := emits_writeValues L vs (WriteBuffer.make capacity.toNat)
    (WriteBuffer.make_wf capacity.toNat_lt) (by simpa using hlen)
  rw [WriteBuffer.make_contents, List.nil_append] at hcontents
  have hwf : (ReadBuffer.make (encodings L vs)).WF := ReadBuffer.make_wf _ (by omega)
  refine ⟨b, hwrite, ?_⟩
  rw [hcontents]
  constructor
  · rintro ⟨r, hread, hrest⟩
    -- all bytes have been taken, as many as the values that were read have in what is read
    obtain ⟨-, bs, hbs, htaken⟩ := takes_readValues_length L unlimited _ _ _ _ hwf hread
    rw [ReadBuffer.make_unread, hrest, List.append_nil] at hbs
    obtain ⟨hle, hall⟩ := readings_length L vs
    exact hall (by rw [← htaken (by omega), hbs])
  · intro h
    have hsame := readings_eq L h
    obtain ⟨r, hread, -, hrest⟩ := parses_readValues L vs (ReadBuffer.make (encodings L vs)) [] hwf
      (by rw [ReadBuffer.make_unread, hsame, List.append_nil])
    exact ⟨r, hread, hrest⟩

end Lengths

/-- Empty arrays are one byte of memory. -/
def oneByteLayout : ObjectLayout :=
  ⟨fun _ => [0], fun _ => by decide⟩

/-- Two pairs of bytes in a vector, then a string, from a buffer without capacity. -/
theorem serialization_round_trip_pairs :
    ∃ b, writeValues oneByteLayout
        [⟨.vector (.array ⟨.w8, false⟩ 2), [⟨[1, 2], rfl⟩, ⟨[3, 4], rfl⟩]⟩,
          ⟨.string, ⟨[97], by decide⟩⟩] (WriteBuffer.make 0) = .ok ((), b) ∧
      ∃ r, readValues oneByteLayout unlimited [.vector (.array ⟨.w8, false⟩ 2), .string]
          (ReadBuffer.make b.contents) = .ok
            ([⟨.vector (.array ⟨.w8, false⟩ 2), [⟨[1, 2], rfl⟩, ⟨[3, 4], rfl⟩]⟩,
              ⟨.string, ⟨[97], by decide⟩⟩], r) ∧ r.unread = [] := by
  obtain ⟨b, hwrite, hread⟩ := serialization_round_trip_iff oneByteLayout 0
    [⟨.vector (.array ⟨.w8, false⟩ 2), [⟨[1, 2], rfl⟩, ⟨[3, 4], rfl⟩]⟩,
      ⟨.string, ⟨[97], by decide⟩⟩] (by decide)
  exact ⟨b, hwrite, hread.2 (by decide)⟩

/-- An array without elements is written as its one byte, which is left when it has been read. -/
theorem empty_array_leaves_byte :
    ∃ b, writeValues oneByteLayout [⟨.array ⟨.w8, false⟩ 0, .nil⟩] (WriteBuffer.make 0) =
        .ok ((), b) ∧ b.contents = [0] ∧
      readValues oneByteLayout unlimited [.array ⟨.w8, false⟩ 0] (ReadBuffer.make b.contents) =
        .ok ([⟨.array ⟨.w8, false⟩ 0, .nil⟩], ReadBuffer.make [0]) ∧
      (ReadBuffer.make [0]).unread ≠ [] := by
  refine ⟨⟨1, [0]⟩, by rfl, by rfl, by rfl, by decide⟩

end LibIS
