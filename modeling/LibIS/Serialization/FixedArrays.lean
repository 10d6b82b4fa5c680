import LibIS.Serialization
import Mathlib.Data.PNat.Defs

set_option autoImplicit false

/-! # Arrays of any element (`is_buffering.h`)

The overloads at all types that have an encoder and a decoder. What is meant as the `operator<<` for
`std::array` is declared as an `operator>>` of a `Writer`, so an array is written as the memory of
the object, also where that is no encoding of its elements: a string in it is written as its
pointers and sizes. What is written is what is read if and only if the array has elements and these
are plain data (`array_round_trip_iff`). -/

open ByteCodec

namespace LibIS

/-! ## Types and values -/

/-- The types that both operators take. A `plain` type is any trivially copyable one without
    padding, such as `float` or `libISVec3f`; `isGlobal` says that it is declared outside of all
    namespaces, as the latter is. -/
inductive ElemType where
  | int (t : IntType)
  | plain (size : ℕ+) (isGlobal : Bool)
  | string
  | array (t : ElemType) (n : ℕ)
  | vector (t : ElemType)
deriving DecidableEq

/-- The values of a type. -/
@[reducible] def ElemType.Val : ElemType → Type
  | .int t => t.Val
  | .plain size _ => List.Vector UInt8 size
  | .string => StdString
  | .array t n => List.Vector t.Val n
  | .vector t => List t.Val

/-- Whether the types in a type are global, so that their operators are found wherever they are
    used: argument-dependent lookup then searches the global namespace too. -/
def ElemType.isGlobal : ElemType → Bool
  | .int _ => false
  | .plain _ isGlobal => isGlobal
  | .string => false
  | .array t _ => t.isGlobal
  | .vector t => t.isGlobal

/-! ## Object memory -/

/-- How the compiler lays out objects and what is in the memory of those that are not plain data, by
    their addresses. What the program finds in a string or a vector whose memory has been
    overwritten is undefined, and is anything here. -/
structure ObjectMemory where
  stringSize : ℕ
  vectorSize : ElemType → ℕ
  emptyArraySize : ElemType → ℕ
  string : ℕ → StdString → Bytes
  vector : ℕ → (t : ElemType) → List t.Val → Bytes
  emptyArray : ℕ → ElemType → Bytes
  elements : ℕ → ℕ
  overwrittenString : Bytes → StdString
  overwrittenVector : (t : ElemType) → Bytes → List t.Val
  stringSize_pos : 0 < stringSize
  /-- A vector knows where its elements are and how many. -/
  vectorSize_gt : ∀ t, 8 < vectorSize t
  emptyArraySize_pos : ∀ t, 0 < emptyArraySize t
  string_length : ∀ a s, (string a s).length = stringSize
  vector_length : ∀ a t xs, (vector a t xs).length = vectorSize t
  emptyArray_length : ∀ a t, (emptyArray a t).length = emptyArraySize t

/-- `sizeof`. -/
def ElemType.sizeof (M : ObjectMemory) : ElemType → ℕ
  | .int t => t.width.bytes
  | .plain size _ => size
  | .string => M.stringSize
  | .array t n => if n = 0 then M.emptyArraySize t else t.sizeof M * n
  | .vector t => M.vectorSize t

/-- The bytes of objects that stand one after the other, the first one at `address`. -/
def elementBytes {α : Type} (bytes : ℕ → α → Bytes) (size : ℕ) : (address : ℕ) → List α → Bytes
  | _, [] => []
  | address, x :: xs => bytes address x ++ elementBytes bytes size (address + size) xs

/-- The objects of a size that stand one after the other in the bytes. -/
def elementsOf {α : Type} (ofBytes : Bytes → α) (size : ℕ) : (n : ℕ) → Bytes → List.Vector α n
  | 0, _ => List.Vector.nil
  | n + 1, bs => ofBytes (bs.take size) ::ᵥ elementsOf ofBytes size n (bs.drop size)

/-- The memory of an object at an address. -/
def ElemType.memory (M : ObjectMemory) : (t : ElemType) → (address : ℕ) → t.Val → Bytes
  | .int t, _, v => t.image v
  | .plain _ _, _, v => v.toList
  | .string, address, v => M.string address v
  | .array t n, address, v =>
      if n = 0 then M.emptyArray address t
      else elementBytes (ElemType.memory M t) (t.sizeof M) address v.toList
  | .vector t, address, v => M.vector address t v

/-- The object that bytes in memory are. -/
def ElemType.ofMemory (M : ObjectMemory) : (t : ElemType) → Bytes → t.Val
  | .int t, bs => t.ofImage bs
  | .plain _ _, bs => List.Vector.ofFn (fun i => bs.getD i 0)
  | .string, bs => M.overwrittenString bs
  | .array t n, bs => elementsOf (ElemType.ofMemory M t) (t.sizeof M) n bs
  | .vector t, bs => M.overwrittenVector t bs

/-! ## The overloads -/

/-- The raw `operator>>`. -/
def ElemType.readRaw (M : ObjectMemory) (t : ElemType) : ReaderM t.Val := do
  let bs ← ReadBuffer.read (UInt64.ofNat (t.sizeof M))
  return t.ofMemory M bs

/-- `operator>>`. The overload for `std::array` stands behind the others, so in its body all of them
    are found; in the body of the one for `std::vector` it is found for global types only. -/
def ElemType.read (M : ObjectMemory) (alloc : Allocator) : Scope → (t : ElemType) → ReaderM t.Val
  | _, .int t => ElemType.readRaw M (.int t)
  | _, .plain size isGlobal => ElemType.readRaw M (.plain size isGlobal)
  | _, .string => readString alloc
  | scope, .array t n =>
      if scope = .caller ∨ t.isGlobal then readArray (ElemType.read M alloc .caller t) n
      else ElemType.readRaw M (.array t n)
  | _, .vector t => readVector alloc (ElemType.read M alloc .vectorBody t)

/-- Write objects that stand one after the other. -/
def writeElements {α : Type} (writeElem : ℕ → α → WriterM Unit) (size : ℕ) :
    (address : ℕ) → List α → WriterM Unit
  | _, [] => pure ()
  | address, x :: xs => do
      writeElem address x
      writeElements writeElem size (address + size) xs

/-- `operator<<`. There is none for `std::array`, so the raw one takes it. -/
def ElemType.write (M : ObjectMemory) : (t : ElemType) → (address : ℕ) → t.Val → WriterM Unit
  | .int t, address, v => WriteBuffer.write (ElemType.memory M (.int t) address v)
  | .plain size isGlobal, address, v =>
      WriteBuffer.write (ElemType.memory M (.plain size isGlobal) address v)
  | .string, _, v => writeString v
  | .array t n, address, v => WriteBuffer.write (ElemType.memory M (.array t n) address v)
  | .vector t, address, v => do
      writeUInt64 (UInt64.ofNat v.length)
      writeElements (ElemType.write M t) (t.sizeof M) (M.elements address) v

/-- The bytes that `operator<<` writes. -/
def ElemType.encoding (M : ObjectMemory) : (t : ElemType) → (address : ℕ) → t.Val → Bytes
  | .int t, address, v => ElemType.memory M (.int t) address v
  | .plain size isGlobal, address, v => ElemType.memory M (.plain size isGlobal) address v
  | .string, _, v => stringBytes v
  | .array t n, address, v => ElemType.memory M (.array t n) address v
  | .vector t, address, v =>
      leBytes 8 v.length ++
        elementBytes (ElemType.encoding M t) (t.sizeof M) (M.elements address) v

/-- Numbers and arrays of numbers, with elements: what is all in its memory. -/
def ElemType.isPlain : ElemType → Bool
  | .int _ => true
  | .plain _ _ => true
  | .string => false
  | .array t n => n ≠ 0 && t.isPlain
  | .vector _ => false

section Memory

variable {M : ObjectMemory}

theorem sizeof_pos (t : ElemType) : 0 < t.sizeof M := by
  induction t with
  | int t => exact t.width.bytes_pos
  | plain size isGlobal => exact size.pos
  | string => exact M.stringSize_pos
  | array t n ih =>
      rw [ElemType.sizeof]
      split
      · exact M.emptyArraySize_pos t
      · next hn => exact Nat.mul_pos ih (Nat.pos_of_ne_zero hn)
  | vector t _ => exact lt_trans (by norm_num) (M.vectorSize_gt t)

theorem elementBytes_length {α : Type} {bytes : ℕ → α → Bytes} {size c : ℕ}
    (h : ∀ address x, (bytes address x).length = c) (address : ℕ) (xs : List α) :
    (elementBytes bytes size address xs).length = c * xs.length := by
  induction xs generalizing address with
  | nil => rfl
  | cons x xs ih =>
      rw [elementBytes, List.length_append, h, ih, List.length_cons, Nat.mul_succ, Nat.add_comm]

theorem memory_length (t : ElemType) (address : ℕ) (v : t.Val) :
    (t.memory M address v).length = t.sizeof M := by
  induction t generalizing address with
  | int t => exact image_length v
  | plain size isGlobal => exact v.toList_length
  | string => exact M.string_length address v
  | array t n ih =>
      have hv : v.toList.length = n := v.toList_length
      rw [ElemType.memory, ElemType.sizeof]
      split
      · exact M.emptyArray_length address t
      · rw [elementBytes_length (fun address x => ih address x), hv]
  | vector t _ => exact M.vector_length address t v

end Memory

/-! ## Writing -/

section Writing

variable (M : ObjectMemory)

theorem elem_encoding_pos (t : ElemType) (address : ℕ) (v : t.Val) :
    0 < (t.encoding M address v).length := by
  have hmemory : 0 < (t.memory M address v).length := by
    rw [memory_length]
    exact sizeof_pos t
  cases t with
  | int t => exact hmemory
  | plain size isGlobal => exact hmemory
  | string =>
      rw [ElemType.encoding, stringBytes_length]
      exact Nat.add_pos_left (by decide) _
  | array t n => exact hmemory
  | vector t =>
      rw [ElemType.encoding, List.length_append, leBytes_length]
      exact Nat.add_pos_left (by decide) _

theorem length_le_elementBytes {α : Type} {bytes : ℕ → α → Bytes}
    (h : ∀ address x, 0 < (bytes address x).length) (size address : ℕ) (xs : List α) :
    xs.length ≤ (elementBytes bytes size address xs).length := by
  induction xs generalizing address with
  | nil => exact Nat.zero_le _
  | cons x xs ih =>
      have hx := h address x
      have hxs := ih (address + size)
      rw [elementBytes, List.length_append, List.length_cons]
      omega

theorem emits_writeElements {α : Type} {writeElem : ℕ → α → WriterM Unit} {enc : ℕ → α → Bytes}
    {size : ℕ} (h : ∀ address x, Emits (writeElem address x) (enc address x)) (address : ℕ)
    (xs : List α) :
    Emits (writeElements writeElem size address xs) (elementBytes enc size address xs) := by
  induction xs generalizing address with
  | nil => exact Emits.nil
  | cons x xs ih => exact (h address x).seq (ih (address + size))

theorem emits_writeElem (t : ElemType) (address : ℕ) (v : t.Val) :
    Emits (t.write M address v) (t.encoding M address v) := by
  induction t generalizing address with
  | int t => exact emits_write _
  | plain size isGlobal => exact emits_write _
  | string => exact emits_writeString v
  | array t n _ => exact emits_write _
  | vector t ih =>
      intro b hb h
      have hv : ElemType.encoding M (.vector t) address v = leBytes 8 v.length ++
        elementBytes (t.encoding M) (t.sizeof M) (M.elements address) v := rfl
      have hle := length_le_elementBytes (elem_encoding_pos M t) (t.sizeof M)
        (M.elements address) v
      have hlen : v.length < 2 ^ 64 := by
        rw [hv, List.length_append] at h
        omega
      have hsize := emits_writeUInt64 (UInt64.ofNat v.length)
      rw [UInt64.toNat_ofNat', Nat.mod_eq_of_lt hlen] at hsize
      exact (hsize.seq (emits_writeElements (fun address x => ih address x) _ v)) b hb h

/-- Except for strings and vectors, a value is written as its memory. -/
theorem encoding_eq_memory {t : ElemType} (ht : t.isPlain = true) (address : ℕ) (v : t.Val) :
    t.encoding M address v = t.memory M address v := by
  cases t with
  | string => cases ht
  | vector t => cases ht
  | _ => rfl

end Writing

/-! ## Reading -/

section Reading

variable (M : ObjectMemory) (alloc : Allocator)

theorem parses_readRaw {t : ElemType} {address : ℕ} {v : t.Val}
    (hv : t.ofMemory M (t.memory M address v) = v) :
    Parses (t.readRaw M) (t.memory M address v) v := by
  intro b tail hb h
  have hfits : t.sizeof M < 2 ^ 64 := by
    have hlen := congrArg List.length h
    rw [List.length_append, ReadBuffer.unread_length, memory_length] at hlen
    have hsize := hb.size_lt
    omega
  have hsize : (UInt64.ofNat (t.sizeof M)).toNat = (t.memory M address v).length := by
    rw [UInt64.toNat_ofNat', memory_length, Nat.mod_eq_of_lt hfits]
  have hparse := (parses_read (t.memory M address v) _ hsize).map (t.ofMemory M)
  rw [hv] at hparse
  exact hparse b tail hb h

theorem parses_readElements {α : Type} {readElem : ReaderM α} {enc : ℕ → α → Bytes} {size n : ℕ}
    (h : ∀ address x, Parses readElem (enc address x) x) (address : ℕ) (v : List.Vector α n) :
    Parses (readArray readElem n) (elementBytes enc size address v.toList) v := by
  induction n generalizing address with
  | zero =>
      rw [List.Vector.eq_nil v]
      exact Parses.pure _
  | succ n ih =>
      obtain ⟨x, w, rfl⟩ := v.exists_eq_cons
      rw [List.Vector.toList_cons, elementBytes]
      exact (h address x).bind ((ih (address + size) w).map (fun es => x ::ᵥ es))

theorem parses_plain {t : ElemType} (ht : t.isPlain = true) (address : ℕ) (v : t.Val) :
    Parses (t.read M alloc .caller) (t.memory M address v) v := by
  induction t generalizing address with
  | int t => exact parses_readRaw M (ofImage_image v)
  | plain size isGlobal =>
      refine parses_readRaw M (List.Vector.ext (fun i => ?_))
      show (List.Vector.ofFn (fun i => v.toList.getD i 0)).get i = v.get i
      rw [List.Vector.get_ofFn, List.Vector.get_eq_get_toList, List.getD_eq_getElem?_getD,
        List.getElem?_eq_getElem (by rw [v.toList_length]; exact i.isLt)]
      rfl
  | string => cases ht
  | array t n ih =>
      obtain ⟨hn, ht'⟩ : n ≠ 0 ∧ t.isPlain = true := by simpa [ElemType.isPlain] using ht
      have hread : ElemType.read M alloc .caller (.array t n) =
          readArray (t.read M alloc .caller) n := if_pos (.inl rfl)
      have hmemory : ElemType.memory M (.array t n) address v =
          elementBytes (t.memory M) (t.sizeof M) address v.toList := if_neg hn
      rw [hread, hmemory]
      exact parses_readElements (fun address x => ih ht' address x) address v
  | vector t _ => cases ht

/-- Whatever is read is taken off the front. -/
theorem takes_readElem (scope : Scope) (t : ElemType) :
    Takes (t.read M alloc scope) (fun _ _ => True) := by
  have hraw : ∀ t : ElemType, Takes (t.readRaw M) (fun _ _ => True) :=
    fun t => (takes_read _).bind (fun _ _ _ => Takes.pure trivial)
  induction t generalizing scope with
  | int t => exact hraw _
  | plain size isGlobal => exact hraw _
  | string => exact (takes_readString alloc).mono (fun _ _ _ => trivial)
  | array t n ih =>
      rw [ElemType.read]
      split
      · exact (takes_readArray (ih .caller) n).mono (fun _ _ _ => trivial)
      · exact hraw _
  | vector t ih => exact (takes_readVector alloc (ih .vectorBody)).mono (fun _ _ _ => trivial)

theorem length_of_inTurn_replicate {α : Type} {x : α} {c n : ℕ} {bs : Bytes}
    (h : InTurn (fun v bs => v = x → bs.length = c) (List.replicate n x) bs) :
    bs.length = c * n := by
  obtain ⟨parts, rfl, hparts⟩ := h
  induction n generalizing parts with
  | zero =>
      rw [List.replicate_zero, List.forall₂_nil_left_iff] at hparts
      rw [hparts]
      rfl
  | succ n ih =>
      rw [List.replicate_succ, List.forall₂_cons_left_iff] at hparts
      obtain ⟨bs, parts', hx, hparts', rfl⟩ := hparts
      rw [List.flatten_cons, List.length_append, hx rfl, ih parts' hparts', Nat.mul_succ,
        Nat.add_comm]

/-- What is not plain data has a value that is not read off as many bytes as its object has. -/
theorem exists_wrong_length {t : ElemType} (ht : t.isPlain = false) :
    ∃ (x : t.Val) (c : ℕ), c ≠ t.sizeof M ∧
      Takes (t.read M alloc .caller) (fun v bs => v = x → bs.length = c) := by
  induction t with
  | int t => cases ht
  | plain size isGlobal => cases ht
  | string =>
      have hlength : ∀ x : StdString, Takes (readString alloc)
          (fun v bs => v = x → bs.length = 8 + x.bytes.length) := by
        intro x
        refine (takes_readString alloc).mono (fun v bs hbs hv => ?_)
        rw [hbs, hv, stringBytes_length]
      -- strings of different lengths have objects of one size
      by_cases hsize : M.stringSize = 8
      · exact ⟨⟨[97], by decide⟩, 9, by rw [ElemType.sizeof, hsize]; decide, hlength _⟩
      · exact ⟨⟨[], by decide⟩, 8, Ne.symm hsize, hlength _⟩
  | array t n ih =>
      have hread : ElemType.read M alloc .caller (.array t n) =
          readArray (t.read M alloc .caller) n := if_pos (.inl rfl)
      rw [hread]
      by_cases hn : n = 0
      · subst hn
        refine ⟨.nil, 0, (M.emptyArraySize_pos t).ne, ?_⟩
        exact Takes.pure (fun _ => rfl)
      · have ht' : t.isPlain = false := by simpa [ElemType.isPlain, hn] using ht
        obtain ⟨x, c, hc, htakes⟩ := ih ht'
        refine ⟨List.Vector.replicate n x, c * n, ?_, ?_⟩
        · rw [ElemType.sizeof, if_neg hn]
          exact fun h => hc (Nat.eq_of_mul_eq_mul_right (Nat.pos_of_ne_zero hn) h)
        · refine (takes_readArray htakes n).mono (fun v bs hbs hv => ?_)
          rw [hv] at hbs
          exact length_of_inTurn_replicate hbs
  | vector t _ =>
      refine ⟨[], 8, (M.vectorSize_gt t).ne, ?_⟩
      refine (takes_readVector alloc (takes_readElem M alloc .vectorBody t)).mono
        (fun v bs hbs hv => ?_)
      obtain ⟨cs, rfl, parts, rfl, hparts⟩ := hbs
      subst hv
      rw [List.forall₂_nil_left_iff] at hparts
      rw [hparts]
      rfl

end Reading

/-! ## Arrays of integers -/

section Integers

/-- The types whose arrays are of integers are among these. -/
def CType.elem : CType → ElemType
  | .int t => .int t
  | .string => .string
  | .array t n => .array (.int t) n
  | .vector t => .vector t.elem

def CType.lift : (t : CType) → t.Val → t.elem.Val
  | .int _, v => v
  | .string, v => v
  | .array _ _, v => v
  | .vector t, v => v.map (CType.lift t)

/-- The memory of arrays of no integers, as an `ObjectLayout`. -/
def ObjectMemory.layout (M : ObjectMemory) : ObjectLayout where
  emptyArray t := M.emptyArray 0 (.int t)
  emptyArray_ne t h := by
    have hlen := M.emptyArray_length 0 (.int t)
    rw [h] at hlen
    exact (M.emptyArraySize_pos (.int t)).ne hlen

variable {M : ObjectMemory}

theorem elementBytes_map {α β : Type} {bytes : ℕ → β → Bytes} {enc : α → Bytes} {f : α → β}
    {size : ℕ} (h : ∀ address x, bytes address (f x) = enc x) (address : ℕ) (xs : List α) :
    elementBytes bytes size address (xs.map f) = xs.flatMap enc := by
  induction xs generalizing address with
  | nil => rfl
  | cons x xs ih => rw [List.map_cons, elementBytes, h, ih, List.flatMap_cons]

theorem memory_intArray (hM : ∀ address t, M.emptyArray address (.int t) = M.emptyArray 0 (.int t))
    (t : IntType) {n : ℕ} (address : ℕ) (v : List.Vector t.Val n) :
    (ElemType.array (.int t) n).memory M address v = arrayImage M.layout t v := by
  rw [ElemType.memory, arrayImage]
  split
  · exact hM address t
  · have h : elementBytes (ElemType.memory M (.int t)) (ElemType.sizeof M (.int t)) address
        (v.toList.map id) = elemsImage t v := elementBytes_map (fun _ _ => rfl) address v.toList
    rwa [List.map_id] at h

theorem sizeof_intArray (t : IntType) (n : ℕ) :
    (ElemType.array (.int t) n).sizeof M = arraySize M.layout t n := by
  rw [ElemType.sizeof, arraySize]
  split
  · exact (M.emptyArray_length 0 (.int t)).symm
  · rfl

theorem ofMemory_intArray (t : IntType) (n : ℕ) (bs : Bytes) :
    (ElemType.array (.int t) n).ofMemory M bs = arrayOfImage t n bs := by
  show elementsOf (ElemType.ofMemory M (.int t)) (ElemType.sizeof M (.int t)) n bs = _
  induction n generalizing bs with
  | zero => rfl
  | succ n ih =>
      rw [elementsOf, arrayOfImage, ih]
      rfl

/-- At these types, `operator<<` is the one that was defined for them. -/
theorem write_elem (hM : ∀ address t, M.emptyArray address (.int t) = M.emptyArray 0 (.int t))
    (t : CType) (address : ℕ) (v : t.Val) :
    t.elem.write M address (t.lift v) = t.write M.layout v := by
  induction t generalizing address with
  | int t => rfl
  | string => rfl
  | array t n => exact congrArg WriteBuffer.write (memory_intArray hM t address v)
  | vector t ih =>
      have hloop : ∀ (address : ℕ) (xs : List t.Val),
          writeElements (t.elem.write M) (t.elem.sizeof M) address (xs.map t.lift) =
            xs.forM (t.write M.layout) := by
        intro address xs
        induction xs generalizing address with
        | nil => rfl
        | cons x xs ihxs =>
            rw [List.map_cons, writeElements, ih, ihxs]
            rfl
      show (do writeUInt64 (UInt64.ofNat (List.map t.lift v).length)
               writeElements (t.elem.write M) (t.elem.sizeof M) (M.elements address)
                 (List.map t.lift v)) = writeVector (t.write M.layout) v
      rw [List.length_map, hloop]
      rfl

theorem readElems_map {α β : Type} (f : α → β) (r : ReaderM α) (n : ℕ) :
    readElems (f <$> r) n = List.map f <$> readElems r n := by
  induction n with
  | zero => rfl
  | succ n ih => simp [readElems, ih]

theorem read_elem (alloc : Allocator) (scope : Scope) (t : CType) :
    t.elem.read M alloc scope = t.lift <$> t.read M.layout alloc scope := by
  induction t generalizing scope with
  | int t => cases scope <;> exact (id_map (readInt t)).symm
  | string => cases scope <;> exact (id_map (readString alloc)).symm
  | array t n =>
      have hraw : ElemType.readRaw M (.array (.int t) n) = readRawArray M.layout t n := by
        rw [ElemType.readRaw, readRawArray, sizeof_intArray]
        simp only [ofMemory_intArray]
      cases scope with
      | caller => exact (id_map (readArray (readInt t) n)).symm
      | vectorBody => exact hraw.trans (id_map (readRawArray M.layout t n)).symm
  | vector t ih =>
      have hvector : readVector alloc (t.elem.read M alloc .vectorBody) =
          List.map t.lift <$> readVector alloc (t.read M.layout alloc .vectorBody) := by
        rw [ih, readVector, readVector]
        simp only [readElems_map, map_bind]
      cases scope <;> exact hvector

end Integers

/-! ## The round trip -/

/-- What `writer << v` emits for an array `v` is what its elements are written as, one after the
    other, and `reader >>` takes just that off whatever else follows and gives `v` back. -/
def ElemType.ArrayRoundTrips (M : ObjectMemory) (alloc : Allocator) (t : ElemType) (n : ℕ) : Prop :=
  ∀ (address : ℕ) (v : List.Vector t.Val n) (tail : Bytes), tail.length < 2 ^ 63 →
    serialize ((ElemType.array t n).write M address v) =
        .ok (elementBytes (t.encoding M) (t.sizeof M) address v.toList) ∧
      ∃ r, (ElemType.array t n).read M alloc .caller
          (ReadBuffer.make (elementBytes (t.encoding M) (t.sizeof M) address v.toList ++ tail)) =
            .ok (v, r) ∧ r.unread = tail

section RoundTrip

variable {M : ObjectMemory} {alloc : Allocator} {t : ElemType} {n : ℕ}

theorem serialize_array (hsize : (ElemType.array t n).sizeof M < 2 ^ 63) (address : ℕ)
    (v : List.Vector t.Val n) :
    serialize ((ElemType.array t n).write M address v) =
      .ok ((ElemType.array t n).memory M address v) := by
  refine serialize_of_emits (emits_writeElem M (.array t n) address v) ?_
  have hlen := memory_length (M := M) (.array t n) address v
  show ((ElemType.array t n).memory M address v).length < 2 ^ 63
  omega

theorem arrayRoundTrips (hsize : (ElemType.array t n).sizeof M < 2 ^ 63)
    (ht : (ElemType.array t n).isPlain = true) : t.ArrayRoundTrips M alloc n := by
  obtain ⟨hn, ht'⟩ : n ≠ 0 ∧ t.isPlain = true := by simpa [ElemType.isPlain] using ht
  intro address v tail htail
  have hmemory : (ElemType.array t n).memory M address v =
      elementBytes (t.encoding M) (t.sizeof M) address v.toList := by
    have hsame : t.encoding M = t.memory M :=
      funext fun address => funext fun x => encoding_eq_memory M ht' address x
    rw [hsame, ElemType.memory, if_neg hn]
  have hlen := memory_length (M := M) (.array t n) address v
  rw [← hmemory]
  refine ⟨serialize_array hsize address v, ?_⟩
  obtain ⟨r, hread, -, hrest⟩ := parses_plain M alloc ht address v (ReadBuffer.make _) tail
    (ReadBuffer.make_wf _ (by rw [List.length_append]; omega)) (ReadBuffer.make_unread _)
  exact ⟨r, hread, hrest⟩

theorem not_arrayRoundTrips (hsize : (ElemType.array t n).sizeof M < 2 ^ 63)
    (ht : (ElemType.array t n).isPlain = false) : ¬ t.ArrayRoundTrips M alloc n := by
  intro h
  obtain ⟨x, c, hc, htakes⟩ := exists_wrong_length M alloc ht
  obtain ⟨hwrite, r, hread, hrest⟩ := h 0 x [] (by norm_num)
  rw [serialize_array hsize 0 x, Except.ok.injEq] at hwrite
  have hlen := memory_length (M := M) (.array t n) 0 x
  rw [← hwrite, List.append_nil] at hread
  -- all bytes of the object would have to be taken
  obtain ⟨-, bs, hbs, htaken⟩ := htakes _ _ _ (ReadBuffer.make_wf _ (by omega)) hread
  rw [ReadBuffer.make_unread, hrest, List.append_nil] at hbs
  exact hc (by rw [← htaken rfl, ← hbs, hlen])

variable (M alloc t n)

/-- **Arrays of any element.** What is written for an array is what its elements are written as, and
    is read as the array again, if and only if the array has elements and these are plain data. -/
theorem array_round_trip_iff (hsize : (ElemType.array t n).sizeof M < 2 ^ 63) :
    (∀ address v, (t.encoding M address v).length < 2 ^ 63 →
        serialize (t.write M address v) = .ok (t.encoding M address v)) ∧
      (t.ArrayRoundTrips M alloc n ↔ n ≠ 0 ∧ t.isPlain = true) := by
  have hplain : (ElemType.array t n).isPlain = true ↔ n ≠ 0 ∧ t.isPlain = true := by
    simp [ElemType.isPlain]
  refine ⟨fun address v hlen => serialize_of_emits (emits_writeElem M t address v) hlen,
    fun h => ?_, fun ht => arrayRoundTrips hsize (hplain.2 ht)⟩
  rw [← hplain]
  by_contra hne
  exact not_arrayRoundTrips hsize (by simpa using hne) h

end RoundTrip

/-- A common 64-bit layout: short strings are stored in the object, and its first word points there.
    The pointers of vectors, and of longer strings, are left out. -/
def commonMemory : ObjectMemory where
  stringSize := 32
  vectorSize _ := 24
  emptyArraySize _ := 1
  string address s :=
    if s.bytes.length < 16 then
      leBytes 8 (address + 16) ++ leBytes 8 s.bytes.length ++
        (s.bytes ++ zeros (16 - s.bytes.length))
    else zeros 8 ++ leBytes 8 s.bytes.length ++ (leBytes 8 s.bytes.length ++ zeros 8)
  vector _ _ _ := zeros 24
  emptyArray _ _ := [0]
  elements _ := 0
  overwrittenString _ := default
  overwrittenVector _ _ := []
  stringSize_pos := by decide
  vectorSize_gt _ := by decide
  emptyArraySize_pos _ := by decide
  string_length address s := by
    split <;> simp only [List.length_append, leBytes_length, zeros_length]
    omega
  vector_length _ _ _ := by simp
  emptyArray_length _ _ := rfl

/-- Two pairs of numbers, and another byte behind them. -/
theorem array_round_trip_pairs :
    serialize ((ElemType.array (.array (.int ⟨.w16, false⟩) 2) 2).write commonMemory 0
        ⟨[⟨[1, 2], rfl⟩, ⟨[3, 4], rfl⟩], rfl⟩) = .ok [1, 0, 2, 0, 3, 0, 4, 0] ∧
      ∃ r, (ElemType.array (.array (.int ⟨.w16, false⟩) 2) 2).read commonMemory unlimited .caller
          (ReadBuffer.make [1, 0, 2, 0, 3, 0, 4, 0, 9]) =
            .ok (⟨[⟨[1, 2], rfl⟩, ⟨[3, 4], rfl⟩], rfl⟩, r) ∧ r.unread = [9] := by
  obtain ⟨-, hiff⟩ := array_round_trip_iff commonMemory unlimited (.array (.int ⟨.w16, false⟩) 2) 2
    (by decide)
  exact hiff.2 (by decide) 0 ⟨[⟨[1, 2], rfl⟩, ⟨[3, 4], rfl⟩], rfl⟩ [9] (by decide)

/-- An array of the string "a" is written as a pointer, a size and a buffer of 16 characters; the
    string itself is written as its size and its character. -/
theorem string_array_as_object :
    serialize ((ElemType.array .string 1).write commonMemory 0x7FFC00000000
        ⟨[⟨[97], by decide⟩], rfl⟩) =
        .ok [16, 0, 0, 0, 252, 127, 0, 0, 1, 0, 0, 0, 0, 0, 0, 0,
          97, 0, 0, 0, 0, 0, 0, 0, 0, 0, 0, 0, 0, 0, 0, 0] ∧
      ElemType.encoding commonMemory .string 0x7FFC00000000 ⟨[97], by decide⟩ =
        [1, 0, 0, 0, 0, 0, 0, 0, 97] ∧
      ¬ ElemType.string.ArrayRoundTrips commonMemory unlimited 1 := by
  have hobject := serialize_array (M := commonMemory) (t := .string) (n := 1) (by decide)
    0x7FFC00000000 ⟨[⟨[97], by decide⟩], rfl⟩
  refine ⟨hobject, rfl, fun h => ?_⟩
  obtain ⟨hwrite, -⟩ := h 0x7FFC00000000 ⟨[⟨[97], by decide⟩], rfl⟩ [] (by decide)
  exact absurd (Except.ok.inj (hobject.symm.trans hwrite)) (by decide)

end LibIS
