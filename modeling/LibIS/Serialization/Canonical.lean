import LibIS.Serialization

set_option autoImplicit false

/-! # Decoding arbitrary bytes (`is_buffering.h`, `is_buffering.cpp`)

A reader is exact for a relation between values and bytes if, in front of any bytes at all, it
yields the one value whose bytes are next and takes these, or throws where no value's bytes are
(`Exact`). Exact readers compose along `>>=`, so `operator>>` is exact for the encodings that
`operator<<` writes, by induction on the type. The exception are again arrays without elements,
whose memory is read as it is found (`decoding_canonical_iff`). -/

open ByteCodec

namespace LibIS

/-- A fault that the program sees as an exception. Leaving a buffer is none. -/
inductive Fault.Thrown : Fault → Prop where
  | runtimeError (what : String) : Fault.Thrown (.runtimeError what)
  | lengthError : Fault.Thrown .lengthError

/-! ## Exact readers -/

section Exact

variable {α β : Type} {N : ℕ}

/-- On every buffer shorter than 2^62, of which fewer than `N` bytes are left, the reader yields the
    only value that stands next and takes its bytes, or throws where no value stands. -/
def Exact (N : ℕ) (r : ReaderM α) (R : α → Bytes → Prop) : Prop :=
  ∀ b : ReadBuffer, b.WF → b.buffer.length < 2 ^ 62 → b.unread.length < N →
    (∃ a bs b', r b = .ok (a, b') ∧ b'.WF ∧ b'.buffer = b.buffer ∧ b.unread = bs ++ b'.unread ∧
      R a bs ∧ ∀ a' bs', R a' bs' → bs' <+: b.unread → a' = a ∧ bs' = bs) ∨
    ∃ e, r b = .error e ∧ e.Thrown ∧ ∀ a bs, R a bs → ¬ bs <+: b.unread

/-- One value's bytes and then another's. -/
def Followed (R : α → Bytes → Prop) (S : α → β → Bytes → Prop) (c : β) (cs : Bytes) : Prop :=
  ∃ a bs bs', R a bs ∧ S a c bs' ∧ cs = bs ++ bs'

theorem ReadBuffer.length_lt_of_prefix {b : ReadBuffer} {bs : Bytes} {N : ℕ}
    (hlen : b.buffer.length < N) (hpre : bs <+: b.unread) : bs.length < N := by
  have hle := hpre.length_le
  rw [ReadBuffer.unread_length] at hle
  omega

theorem Exact.mono {M : ℕ} {r : ReaderM α} {R : α → Bytes → Prop} (hr : Exact N r R)
    (h : M ≤ N) : Exact M r R :=
  fun b hb hlen hleft => hr b hb hlen (by omega)

theorem Exact.congr {r : ReaderM α} {R S : α → Bytes → Prop} (hr : Exact N r R)
    (h : ∀ a bs, bs.length < 2 ^ 62 → bs.length < N → (R a bs ↔ S a bs)) : Exact N r S := by
  intro b hb hlen hleft
  have hiff : ∀ a bs, bs <+: b.unread → (R a bs ↔ S a bs) := fun a bs hpre =>
    h a bs (ReadBuffer.length_lt_of_prefix hlen hpre) (lt_of_le_of_lt hpre.length_le hleft)
  rcases hr b hb hlen hleft with
    ⟨a, bs, b', hok, hb', hbuf, hunread, hR, huniq⟩ | ⟨e, herr, he, hnone⟩
  · have hS := (hiff a bs (hunread ▸ List.prefix_append bs _)).1 hR
    refine .inl ⟨a, bs, b', hok, hb', hbuf, hunread, hS, fun a' bs' hS' hpre => ?_⟩
    exact huniq a' bs' ((hiff a' bs' hpre).2 hS') hpre
  · refine .inr ⟨e, herr, he, fun a bs hS hpre => ?_⟩
    exact hnone a bs ((hiff a bs hpre).2 hS) hpre

theorem Exact.pure (a : α) : Exact N (pure a) (fun a' bs => a' = a ∧ bs = []) := by
  intro b hb _ _
  refine .inl ⟨a, [], b, rfl, hb, rfl, rfl, ⟨rfl, rfl⟩, ?_⟩
  rintro a' bs' ⟨rfl, rfl⟩ -
  exact ⟨rfl, rfl⟩

/-- What follows is decided by the first value, of which there is only one. -/
theorem Exact.bind {r : ReaderM α} {f : α → ReaderM β} {R : α → Bytes → Prop}
    {S : α → β → Bytes → Prop} (hr : Exact N r R)
    (hf : ∀ a bs, R a bs → bs.length < 2 ^ 62 → Exact (N - bs.length) (f a) (S a)) :
    Exact N (r >>= f) (Followed R S) := by
  intro b hb hlen hleft
  have hrun : (r >>= f) b = (r b >>= fun s => f s.1 s.2) := rfl
  rcases hr b hb hlen hleft with
    ⟨a, bs, b₁, hok, hb₁, hbuf₁, hunread, hR, huniq⟩ | ⟨e, herr, he, hnone⟩
  · have hbs := ReadBuffer.length_lt_of_prefix hlen (hunread ▸ List.prefix_append bs _)
    -- whatever stands in the buffer begins with the bytes that were taken
    have hrest : ∀ c cs, Followed R S c cs → cs <+: b.unread →
        ∃ bs', S a c bs' ∧ cs = bs ++ bs' ∧ bs' <+: b₁.unread := by
      rintro c cs ⟨a', bs₁, bs', hR', hS, rfl⟩ hpre
      obtain ⟨rfl, rfl⟩ := huniq a' bs₁ hR' ((List.prefix_append _ _).trans hpre)
      rw [hunread, List.prefix_append_right_inj] at hpre
      exact ⟨bs', hS, rfl, hpre⟩
    have hrun₁ : (r >>= f) b = f a b₁ := by rw [hrun, hok]; rfl
    have hleft₁ : b₁.unread.length < N - bs.length := by
      rw [hunread, List.length_append] at hleft
      omega
    rcases hf a bs hR hbs b₁ hb₁ (hbuf₁ ▸ hlen) hleft₁ with
      ⟨c, cs, b₂, hok₂, hb₂, hbuf₂, hunread₂, hS, huniq₂⟩ | ⟨e, herr, he, hnone⟩
    · refine .inl ⟨c, bs ++ cs, b₂, hrun₁.trans hok₂, hb₂, hbuf₂.trans hbuf₁, ?_,
        ⟨a, bs, cs, hR, hS, rfl⟩, ?_⟩
      · rw [hunread, hunread₂, List.append_assoc]
      · intro c' cs' hFol hpre
        obtain ⟨bs', hS', rfl, hpre'⟩ := hrest c' cs' hFol hpre
        obtain ⟨rfl, rfl⟩ := huniq₂ c' bs' hS' hpre'
        exact ⟨rfl, rfl⟩
    · refine .inr ⟨e, hrun₁.trans herr, he, ?_⟩
      intro c cs hFol hpre
      obtain ⟨bs', hS', -, hpre'⟩ := hrest c cs hFol hpre
      exact hnone c bs' hS' hpre'
  · refine .inr ⟨e, by rw [hrun, herr]; rfl, he, ?_⟩
    rintro c cs ⟨a, bs, bs', hR, -, rfl⟩ hpre
    exact hnone a bs hR ((List.prefix_append _ _).trans hpre)

theorem Exact.map {r : ReaderM α} {R : α → Bytes → Prop} {S : β → Bytes → Prop} (hr : Exact N r R)
    (f : α → β) (h : ∀ c bs, S c bs ↔ ∃ a, R a bs ∧ c = f a) :
    Exact N (do let a ← r; return f a) S := by
  refine (hr.bind (fun a bs _ _ => Exact.pure (f a))).congr (fun c bs _ _ => ?_)
  rw [h]
  constructor
  · rintro ⟨a, bs, bs', hR, ⟨rfl, rfl⟩, rfl⟩
    exact ⟨a, by rwa [List.append_nil], rfl⟩
  · rintro ⟨a, hR, rfl⟩
    exact ⟨a, bs, [], hR, ⟨rfl, rfl⟩, (List.append_nil bs).symm⟩

/-- The size is checked against the sum with the position, which does not wrap in a buffer and with
    sizes like these. -/
theorem exact_read {n : UInt64} (hn : n.toNat < 2 ^ 63) :
    Exact N (ReadBuffer.read n) (fun a bs => a = bs ∧ bs.length = n.toNat) := by
  intro b hb hlen _
  by_cases hfits : n.toNat ≤ b.unread.length
  · obtain ⟨hok, hwf, hunread⟩ := ReadBuffer.read_ok hb hfits
    refine .inl ⟨_, b.unread.take n.toNat, _, hok, hwf, rfl, ?_,
      ⟨rfl, List.length_take_of_le hfits⟩, ?_⟩
    · rw [hunread, List.take_append_drop]
    · rintro a' bs' ⟨rfl, hlen'⟩ hpre
      rw [List.prefix_iff_eq_take, hlen'] at hpre
      exact ⟨hpre, hpre⟩
  · have hbegin := hb.begin_le
    have hread := ReadBuffer.read_short hb (Nat.not_le.1 hfits)
    rw [if_pos (by omega)] at hread
    refine .inr ⟨_, hread, .runtimeError _, ?_⟩
    rintro a bs ⟨-, hbs⟩ hpre
    exact hfits (hbs ▸ hpre.length_le)

/-- Making room throws only where what is to be read does not stand in the buffer. -/
theorem exact_allocate {alloc : Allocator} {size : UInt64} {r : ReaderM α}
    {R : α → Bytes → Prop} (hr : size.toNat < 2 ^ 63 → Exact N r R)
    (hthrows : ∀ b, alloc b size = true → size.toNat < 2 ^ 63)
    (hheld : ∀ b : ReadBuffer, b.WF → b.buffer.length < 2 ^ 62 →
      ∀ a bs, R a bs → bs <+: b.unread → alloc b size = true) :
    Exact N (do allocate alloc size; r) R := by
  intro b hb hlen hleft
  by_cases halloc : alloc b size = true
  · have hrun : (do allocate alloc size; r : ReaderM α) b = r b := by
      show (allocate alloc size b >>= fun s => r s.2) = r b
      rw [allocate, if_pos halloc]
      rfl
    rw [hrun]
    exact hr (hthrows b halloc) b hb hlen hleft
  · refine .inr ⟨.lengthError, ?_, .lengthError, fun a bs hR hpre =>
      halloc (hheld b hb hlen a bs hR hpre)⟩
    show (allocate alloc size b >>= fun s => r s.2) = _
    rw [allocate, if_neg halloc]
    rfl

theorem exact_readUInt64 : Exact N readUInt64 (fun v bs => bs = leBytes 8 v.toNat) := by
  refine (exact_read (by decide)).map (fun bs => UInt64.ofNat (leValue bs)) (fun v bs => ?_)
  constructor
  · rintro rfl
    refine ⟨_, ⟨rfl, leBytes_length _ _⟩, ?_⟩
    rw [leValue_leBytes_of_lt _ _ v.toNat_lt, UInt64.ofNat_toNat]
  · rintro ⟨bs, ⟨rfl, hlen⟩, rfl⟩
    have hlen' : bs.length = 8 := hlen
    have hlt := leValue_lt bs
    have himage := leBytes_leValue bs
    rw [hlen'] at hlt himage
    rw [UInt64.toNat_ofNat', Nat.mod_eq_of_lt (by omega), himage]

/-- The size in front of a container's elements: the one it has been written with. -/
theorem size_eq {n : ℕ} (hn : n < 2 ^ 64) (size : UInt64) :
    n = size.toNat ↔ size = UInt64.ofNat n := by
  constructor
  · rintro rfl
    rw [UInt64.ofNat_toNat]
  · rintro rfl
    rw [UInt64.toNat_ofNat', Nat.mod_eq_of_lt hn]

/-- A string of characters that stand in the buffer can be made. -/
structure HoldsChars (alloc : Allocator) : Prop where
  throws : ∀ b size, alloc b size = true → size.toNat < 2 ^ 63
  held : ∀ b : ReadBuffer, b.WF → b.buffer.length < 2 ^ 62 → ∀ size : UInt64,
    size.toNat ≤ b.unread.length → alloc b size = true

theorem exact_readString {alloc : Allocator} (halloc : HoldsChars alloc) :
    Exact N (readString alloc) (fun s bs => bs = stringBytes s) := by
  have hchars : ∀ (M : ℕ) (size : UInt64), size.toNat < 2 ^ 63 →
      Exact M (do let bs ← ReadBuffer.read size; (StdString.ofBytes bs : ReaderM StdString))
        (fun s bs => bs = s.bytes ∧ s.bytes.length = size.toNat) := by
    intro M size hsize
    refine ((exact_read hsize).bind (S := fun bs s bs' => s.bytes = bs ∧ bs' = [])
      (fun a bs hbs hlt => ?_)).congr (fun s bs _ _ => ?_)
    · obtain ⟨rfl, -⟩ := hbs
      rw [StdString.ofBytes, dif_pos hlt]
      refine (Exact.pure (⟨a, hlt⟩ : StdString)).congr (fun s bs' _ _ => ?_)
      refine and_congr_left (fun _ => ⟨fun h => by rw [h], fun h => StdString.ext h⟩)
    · constructor
      · rintro ⟨_, bs, _, ⟨rfl, hlen⟩, ⟨rfl, rfl⟩, rfl⟩
        exact ⟨List.append_nil _, hlen⟩
      · rintro ⟨rfl, hlen⟩
        exact ⟨_, _, [], ⟨rfl, hlen⟩, ⟨rfl, rfl⟩, (List.append_nil _).symm⟩
  refine (exact_readUInt64.bind (S := fun size s bs => bs = s.bytes ∧ s.bytes.length = size.toNat)
    (fun size bs _ _ => exact_allocate (hchars _ size) (fun b => halloc.throws b size) ?_)).congr
    (fun s bs _ _ => ?_)
  · rintro b hb hlen s bs ⟨rfl, hsize⟩ hpre
    exact halloc.held b hb hlen size (hsize ▸ hpre.length_le)
  · have hsize := size_eq (lt_trans s.size_lt (by norm_num)) (UInt64.ofNat s.bytes.length)
    constructor
    · rintro ⟨size, _, _, rfl, ⟨rfl, hlen⟩, rfl⟩
      rw [stringBytes, hlen]
    · rintro rfl
      exact ⟨UInt64.ofNat s.bytes.length, _, _, rfl, ⟨rfl, hsize.2 rfl⟩, by
        rw [← hsize.2 rfl, stringBytes]⟩

theorem exact_readElems {r : ReaderM α} {enc : α → Bytes} (hr : Exact N r (fun x bs => bs = enc x))
    (n : ℕ) :
    Exact N (readElems r n) (fun xs bs => xs.length = n ∧ bs = xs.flatMap enc) := by
  induction n with
  | zero =>
      refine (Exact.pure []).congr (fun xs bs _ _ => ?_)
      rw [List.length_eq_zero_iff]
      exact and_congr_right (fun h => by rw [h]; rfl)
  | succ n ih =>
      refine (hr.bind (fun x bs _ _ => (ih.mono (Nat.sub_le _ _)).map
        (S := fun xs bs => ∃ ys, ys.length = n ∧ bs = ys.flatMap enc ∧ xs = x :: ys)
        (fun es => x :: es) (fun xs bs => ?_))).congr (fun xs bs _ _ => ?_)
      · simp only [and_assoc]
      · constructor
        · rintro ⟨x, _, _, rfl, ⟨ys, hlen, rfl, rfl⟩, rfl⟩
          exact ⟨congrArg Nat.succ hlen, List.flatMap_cons.symm⟩
        · rintro ⟨hlen, rfl⟩
          cases xs with
          | nil => cases hlen
          | cons x ys =>
              exact ⟨x, _, _, rfl, ⟨ys, Nat.succ.inj hlen, rfl, rfl⟩, List.flatMap_cons⟩

/-- A vector of elements that stand in the buffer can be made. -/
structure HoldsElems (alloc : Allocator) (enc : α → Bytes) : Prop where
  throws : ∀ b size, alloc b size = true → size.toNat < 2 ^ 63
  held : ∀ b : ReadBuffer, b.WF → b.buffer.length < 2 ^ 62 → ∀ size : UInt64,
    (∃ xs : List α, xs.length = size.toNat ∧ xs.flatMap enc <+: b.unread) → alloc b size = true

theorem exact_readVector {alloc : Allocator} {r : ReaderM α} {enc : α → Bytes}
    (halloc : HoldsElems alloc enc) (hr : Exact (N - 8) r (fun x bs => bs = enc x))
    (hpos : ∀ x, 0 < (enc x).length) :
    Exact N (readVector alloc r) (fun xs bs => bs = vectorBytes enc xs) := by
  refine (exact_readUInt64.bind
    (S := fun size xs bs => xs.length = size.toNat ∧ bs = xs.flatMap enc)
    (fun size bs hbs _ => exact_allocate (fun _ => ?_) (fun b => halloc.throws b size) ?_)).congr
    (fun xs bs hlen _ => ?_)
  · rw [hbs, leBytes_length]
    exact exact_readElems hr size.toNat
  · rintro b hb hlen xs bs ⟨hsize, rfl⟩ hpre
    exact halloc.held b hb hlen size ⟨xs, hsize, hpre⟩
  · constructor
    · rintro ⟨size, _, _, rfl, ⟨hsize, rfl⟩, rfl⟩
      rw [vectorBytes, hsize]
    · rintro rfl
      have hle := length_le_vectorBytes hpos xs
      have hsize := (size_eq (by omega) (UInt64.ofNat xs.length)).2 rfl
      exact ⟨UInt64.ofNat xs.length, _, _, rfl, ⟨hsize, rfl⟩, by rw [← hsize, vectorBytes]⟩

theorem exact_readArray {r : ReaderM α} {enc : α → Bytes} (hr : Exact N r (fun x bs => bs = enc x))
    (n : ℕ) : Exact N (readArray r n) (fun v bs => bs = v.toList.flatMap enc) := by
  induction n with
  | zero =>
      refine (Exact.pure List.Vector.nil).congr (fun v bs _ _ => ?_)
      rw [List.Vector.eq_nil v]
      exact and_iff_right rfl
  | succ n ih =>
      refine (hr.bind (fun x bs _ _ => (ih.mono (Nat.sub_le _ _)).map
        (S := fun v bs => ∃ w : List.Vector α n, bs = w.toList.flatMap enc ∧ v = x ::ᵥ w)
        (fun es => x ::ᵥ es) (fun v bs => Iff.rfl))).congr (fun v bs _ _ => ?_)
      constructor
      · rintro ⟨x, _, _, rfl, ⟨w, rfl, rfl⟩, rfl⟩
        rw [List.Vector.toList_cons, List.flatMap_cons]
      · rintro rfl
        obtain ⟨x, w, rfl⟩ := v.exists_eq_cons
        exact ⟨x, _, _, rfl, ⟨w, rfl, rfl⟩, by rw [List.Vector.toList_cons, List.flatMap_cons]⟩

end Exact

/-! ## `operator>>` -/

section Decode

variable (L : ObjectLayout)

/-- `operator>>`, where memory may run out differently for each container. -/
def CType.decode (alloc : CType → Allocator) : Scope → (t : CType) → ReaderM t.Val
  | _, .int t => readInt t
  | _, .string => readString (alloc .string)
  | .caller, .array t n => readArray (readInt t) n
  | .vectorBody, .array t n => readRawArray L t n
  | _, .vector t => readVector (alloc (.vector t)) (CType.decode alloc .vectorBody t)

theorem decode_const (alloc : Allocator) (scope : Scope) (t : CType) :
    t.decode L (fun _ => alloc) scope = t.read L alloc scope := by
  induction t generalizing scope with
  | int t => cases scope <;> rfl
  | string => cases scope <;> rfl
  | array t n => cases scope <;> rfl
  | vector t ih => cases scope <;> simp only [CType.decode, CType.read, ih]

/-- Whether a type has arrays without elements in it. -/
def CType.hasEmptyArray : CType → Bool
  | .array _ n => n = 0
  | .vector t => t.hasEmptyArray
  | _ => false

/-- The bytes of the message that has one element in every vector and no characters. -/
def CType.extent : CType → ℕ
  | .int t => t.width.bytes
  | .string => 8
  | .array t n => arraySize L t n
  | .vector t => 8 + t.extent

/-- The arrays in the type are objects, of which none has 2^63 bytes or more. -/
def CType.Sized : CType → Prop
  | .array t n => arraySize L t n < 2 ^ 63
  | .vector t => t.Sized
  | _ => True

/-- Whether a message shorter than 2^62 reaches an array without elements. -/
def CType.reachesEmptyArray : CType → Bool
  | .array _ n => n = 0
  | .vector t => t.hasEmptyArray && 8 + t.extent L < 2 ^ 62
  | _ => false

/-- What is assumed of making strings and vectors: of 2^63 elements or more it throws, and of
    elements that stand in the buffer it does not. -/
structure MakesContainers (alloc : CType → Allocator) : Prop where
  chars : HoldsChars (alloc .string)
  elems : ∀ t : CType, HoldsElems (alloc (.vector t)) (t.encoding L)

variable {L}

theorem exact_readInt {N : ℕ} (t : IntType) : Exact N (readInt t) (fun v bs => bs = t.image v) := by
  have hle := t.width.bytes_le
  have hsize : (UInt64.ofNat t.width.bytes).toNat = t.width.bytes := by
    rw [UInt64.toNat_ofNat', Nat.mod_eq_of_lt (by omega)]
  refine (exact_read (by omega)).map t.ofImage (fun v bs => ?_)
  constructor
  · rintro rfl
    exact ⟨_, ⟨rfl, (image_length v).trans hsize.symm⟩, (ofImage_image v).symm⟩
  · rintro ⟨bs, ⟨rfl, hlen⟩, rfl⟩
    exact (image_ofImage (hlen.trans hsize)).symm

theorem elemsImage_arrayOfImage {t : IntType} {n : ℕ} {bs : Bytes}
    (h : bs.length = t.width.bytes * n) : elemsImage t (arrayOfImage t n bs) = bs := by
  induction n generalizing bs with
  | zero =>
      rw [List.length_eq_zero_iff.1 (h.trans (Nat.mul_zero _))]
      rfl
  | succ n ih =>
      rw [Nat.mul_succ] at h
      rw [arrayOfImage, elemsImage_cons, image_ofImage (List.length_take_of_le (by omega)),
        ih (by rw [List.length_drop]; omega), List.take_append_drop]

/-- The memory of an array is read as it is written, but for arrays without elements; the memory of
    those may be too long to be read. -/
theorem exact_readRawArray {N : ℕ} {t : IntType} {n : ℕ} (hn : n = 0 → N ≤ arraySize L t n)
    (hsize : arraySize L t n < 2 ^ 63) :
    Exact N (readRawArray L t n) (fun v bs => bs = arrayImage L t v) := by
  have hnat : (UInt64.ofNat (arraySize L t n)).toNat = arraySize L t n := by
    rw [UInt64.toNat_ofNat', Nat.mod_eq_of_lt (by omega)]
  refine ((exact_read (by omega)).map (arrayOfImage t n) (fun v bs => Iff.rfl)).congr
    (fun v bs _ hlt => ?_)
  constructor
  · rintro ⟨bs, ⟨rfl, hlen⟩, rfl⟩
    rw [hnat] at hlen
    have hn' : n ≠ 0 := fun h => by have hle := hn h; omega
    rw [arrayImage, if_neg hn', elemsImage_arrayOfImage (by rw [hlen, arraySize, if_neg hn'])]
  · rintro rfl
    exact ⟨_, ⟨rfl, by rw [arrayImage_length, hnat]⟩, (arrayOfImage_arrayImage L v).symm⟩

variable {alloc : CType → Allocator}

theorem exact_vectorBody {N : ℕ} (halloc : MakesContainers L alloc) {t : CType} (hsize : t.Sized L)
    (ht : t.hasEmptyArray = true → N ≤ t.extent L) :
    Exact N (t.decode L alloc .vectorBody) (fun v bs => bs = t.encoding L v) := by
  induction t generalizing N with
  | int t => exact exact_readInt t
  | string => exact exact_readString halloc.chars
  | array t n =>
      exact exact_readRawArray (fun hn => ht (by simpa [CType.hasEmptyArray] using hn)) hsize
  | vector t ih =>
      refine exact_readVector (halloc.elems t) (ih hsize (fun hempty => ?_)) (encoding_pos L t)
      have hle : N ≤ 8 + t.extent L := ht hempty
      omega

theorem exact_caller (halloc : MakesContainers L alloc) {t : CType} (hsize : t.Sized L)
    (ht : t.reachesEmptyArray L = false) :
    Exact (2 ^ 62) (t.decode L alloc .caller) (fun v bs => bs = t.encoding L v) := by
  cases t with
  | int t => exact exact_readInt t
  | string => exact exact_readString halloc.chars
  | array t n =>
      have hn : n ≠ 0 := by simpa [CType.reachesEmptyArray] using ht
      have harray : ∀ v : List.Vector t.Val n, arrayImage L t v = v.toList.flatMap t.image :=
        fun v => if_neg hn
      refine (exact_readArray (exact_readInt t) n).congr (fun v bs _ _ => ?_)
      show bs = _ ↔ bs = arrayImage L t v
      rw [harray v]
  | vector t =>
      refine exact_readVector (halloc.elems t) (exact_vectorBody halloc hsize (fun hempty => ?_))
        (encoding_pos L t)
      have hlong : ¬ 8 + t.extent L < 2 ^ 62 := by
        simpa [CType.reachesEmptyArray, hempty] using ht
      omega

end Decode

/-! ## Decoding arbitrary bytes -/

section Canonical

variable (L : ObjectLayout)

/-- From every byte sequence shorter than 2^62, `operator>>` yields a value and has taken `k` bytes
    if and only if the first `k` bytes are what that value is written as; otherwise it throws. So it
    throws from every strict prefix of an encoding. -/
def CType.DecodesExactly (t : CType) : Prop :=
  ∀ alloc, MakesContainers L alloc → ∀ bytes : Bytes, bytes.length < 2 ^ 62 →
    (∀ v k, (∃ b, t.decode L alloc .caller (ReadBuffer.make bytes) = .ok (v, b) ∧
        b.begin.toNat = k) ↔ k ≤ bytes.length ∧ bytes.take k = t.encoding L v) ∧
    (∀ e, t.decode L alloc .caller (ReadBuffer.make bytes) = .error e → e.Thrown) ∧
    ∀ v, (t.encoding L v).length < 2 ^ 63 → bytes <+: t.encoding L v → bytes ≠ t.encoding L v →
      ∃ e, t.decode L alloc .caller (ReadBuffer.make bytes) = .error e ∧ e.Thrown

variable {L}

/-- No encoding stands at the front of another one: from there, both values would be read. -/
theorem eq_of_encoding_prefix {t : CType} (ht : t.reachesEmptyArray L = false) {v w : t.Val}
    (hlen : (t.encoding L w).length < 2 ^ 64) (hpre : t.encoding L v <+: t.encoding L w) :
    v = w := by
  have hread : ∀ u : t.Val, t.reading L .caller u = t.encoding L u := by
    intro u
    refine (reading_length L ⟨t, u⟩).2.2 ?_
    cases t with
    | array t n => exact ht
    | _ => rfl
  obtain ⟨tail, htail⟩ := hpre
  have hwf := ReadBuffer.make_wf (t.encoding L w) hlen
  obtain ⟨b, hv, -, -⟩ := parses_caller L t v (ReadBuffer.make (t.encoding L w)) tail hwf
    (by rw [ReadBuffer.make_unread, hread, htail])
  obtain ⟨b', hw, -, -⟩ := parses_caller L t w (ReadBuffer.make (t.encoding L w)) [] hwf
    (by rw [ReadBuffer.make_unread, hread, List.append_nil])
  rw [hv] at hw
  exact (Prod.mk.inj (Except.ok.inj hw)).1

theorem decodesExactly_of_exact {t : CType} (ht : t.reachesEmptyArray L = false)
    (h : ∀ alloc, MakesContainers L alloc →
      Exact (2 ^ 62) (t.decode L alloc .caller) (fun v bs => bs = t.encoding L v)) :
    t.DecodesExactly L := by
  intro alloc halloc bytes hlen
  have hwf : (ReadBuffer.make bytes).WF := ReadBuffer.make_wf bytes (by omega)
  have hrun := h alloc halloc (ReadBuffer.make bytes) hwf hlen
    (by rwa [ReadBuffer.make_unread])
  rw [ReadBuffer.make_unread] at hrun
  rcases hrun with ⟨a, _, b', hok, hb', hbuf, hunread, rfl, huniq⟩ | ⟨e, herr, he, hnone⟩
  · -- where the position stands after the value
    have hbegin : b'.begin.toNat = (t.encoding L a).length := by
      have htotal := congrArg List.length hunread
      have hle := hb'.begin_le
      have hsame : b'.buffer.length = bytes.length := congrArg List.length hbuf
      rw [List.length_append, ReadBuffer.unread_length] at htotal
      omega
    refine ⟨fun v k => ⟨?_, ?_⟩, fun e herr => ?_, fun v hlen' hpre hne => ?_⟩
    · rintro ⟨b, hok', rfl⟩
      rw [hok] at hok'
      obtain ⟨rfl, rfl⟩ := Prod.mk.inj (Except.ok.inj hok')
      rw [hbegin, hunread, List.take_left]
      exact ⟨by rw [List.length_append]; omega, rfl⟩
    · rintro ⟨hk, htake⟩
      obtain ⟨rfl, -⟩ := huniq v _ rfl (htake ▸ List.take_prefix k bytes)
      refine ⟨b', hok, ?_⟩
      rw [hbegin, ← htake, List.length_take_of_le hk]
    · rw [hok] at herr
      cases herr
    · -- what has been read from a strict prefix of an encoding would be the encoded value itself
      have hpre' : t.encoding L a <+: bytes := hunread ▸ List.prefix_append _ _
      obtain rfl := eq_of_encoding_prefix ht (by omega) (hpre'.trans hpre)
      exact absurd (hpre.eq_of_length_le hpre'.length_le) hne
  · refine ⟨fun v k => ⟨?_, ?_⟩, fun e' herr' => ?_, fun v _ _ _ => ⟨e, herr, he⟩⟩
    · rintro ⟨b, hok, -⟩
      rw [herr] at hok
      cases hok
    · rintro ⟨-, htake⟩
      exact absurd (htake ▸ List.take_prefix k bytes) (hnone v _ rfl)
    · rw [herr] at herr'
      cases herr'
      exact he

/-- A memory in which every container of fewer than 2^63 elements can be made. -/
def roomy : CType → Allocator :=
  fun _ _ size => size.toNat < 2 ^ 63

theorem roomy_makesContainers : MakesContainers L roomy where
  chars := by
    refine ⟨fun b size h => by simpa [roomy] using h, fun b hb hlen size hsize => ?_⟩
    rw [ReadBuffer.unread_length] at hsize
    simp only [roomy, decide_eq_true_eq]
    omega
  elems := by
    intro t
    refine ⟨fun b size h => by simpa [roomy] using h, fun b hb hlen size hheld => ?_⟩
    obtain ⟨xs, hsize, hpre⟩ := hheld
    have hlt := ReadBuffer.length_lt_of_prefix hlen hpre
    have hle := length_le_vectorBytes (encoding_pos L t) xs
    rw [vectorBytes, List.length_append, leBytes_length] at hle
    simp only [roomy, decide_eq_true_eq]
    omega

/-- The memory of an array without elements is read in the body of the template for vectors whatever
    it holds, so other bytes than the encoding are taken for the value. -/
theorem exists_misread {t : CType} (ht : t.hasEmptyArray = true) (hext : t.extent L < 2 ^ 62) :
    ∃ (v : t.Val) (bs : Bytes), bs.length = (t.encoding L v).length ∧
      bs.length = t.extent L ∧ bs ≠ t.encoding L v ∧
      Parses (t.decode L roomy .vectorBody) bs v := by
  induction t with
  | int t => cases ht
  | string => cases ht
  | array t n =>
      have hn : n = 0 := by simpa [CType.hasEmptyArray] using ht
      subst hn
      have hsize : (L.emptyArray t).length < 2 ^ 62 := hext
      refine ⟨.nil, (L.emptyArray t).map (· + 1), List.length_map _, List.length_map _, ?_, ?_⟩
      · intro heq
        obtain ⟨x, xs, hx⟩ := List.exists_cons_of_ne_nil (L.emptyArray_ne t)
        have henc : (L.emptyArray t).map (· + 1) = L.emptyArray t := heq
        rw [hx, List.map_cons, List.cons.injEq] at henc
        have hself : x + 1 = x := henc.1
        simp at hself
      · have hread := parses_read ((L.emptyArray t).map (· + 1))
          (UInt64.ofNat (arraySize L t 0)) (by
            rw [List.length_map, UInt64.toNat_ofNat', Nat.mod_eq_of_lt (by
              rw [arraySize, if_pos rfl]; omega), arraySize, if_pos rfl])
        exact hread.map (arrayOfImage t 0)
  | vector t ih =>
      have hext' : 8 + t.extent L < 2 ^ 62 := hext
      obtain ⟨v, bs, hlen, hbs, hne, hparse⟩ := ih ht (by omega)
      have henc : CType.encoding L (.vector t) [v] = leBytes 8 1 ++ t.encoding L v := by
        show leBytes 8 1 ++ (t.encoding L v ++ []) = _
        rw [List.append_nil]
      have hvector : Parses (CType.decode L roomy .vectorBody (.vector t))
          (vectorBytes (fun _ => bs) [v]) [v] := parses_readVector [v]
        (by rw [List.length_singleton]; norm_num) (fun _ => by simp [roomy])
        (fun x hx => by rw [List.mem_singleton.1 hx]; exact hparse)
      refine ⟨[v], leBytes 8 1 ++ bs, ?_, ?_, ?_, ?_⟩
      · rw [henc, List.length_append, List.length_append, hlen]
      · rw [List.length_append, leBytes_length, hbs]
        rfl
      · rw [henc]
        exact fun h => hne (List.append_cancel_left h)
      · have hbytes : vectorBytes (fun _ => bs) [v] = leBytes 8 1 ++ bs := by
          show leBytes 8 1 ++ (bs ++ []) = _
          rw [List.append_nil]
        rwa [hbytes] at hvector

/-- A caller does not decode exactly a type with an array without elements within reach. -/
theorem not_decodesExactly {t : CType} (ht : t.reachesEmptyArray L = true) :
    ¬ t.DecodesExactly L := by
  intro h
  cases t with
  | int t => cases ht
  | string => cases ht
  | array t n =>
      have hn : n = 0 := by simpa [CType.reachesEmptyArray] using ht
      subst hn
      obtain ⟨hdecodes, -⟩ := h roomy roomy_makesContainers [] (by norm_num)
      obtain ⟨-, henc⟩ := (hdecodes .nil 0).1 ⟨_, rfl, rfl⟩
      exact L.emptyArray_ne t henc.symm
  | vector t =>
      -- a vector is read by a caller as it is inside of one
      obtain ⟨hempty, hext⟩ : t.hasEmptyArray = true ∧ 8 + t.extent L < 2 ^ 62 := by
        simpa [CType.reachesEmptyArray] using ht
      obtain ⟨v, bs, hlen, hbs, hne, hparse⟩ := exists_misread (t := .vector t) hempty hext
      have hshort : bs.length < 2 ^ 62 := lt_of_eq_of_lt hbs hext
      obtain ⟨b, hok, -, -⟩ := hparse (ReadBuffer.make bs) [] (ReadBuffer.make_wf bs (by omega))
        (by rw [ReadBuffer.make_unread, List.append_nil])
      obtain ⟨hdecodes, -⟩ := h roomy roomy_makesContainers bs hshort
      obtain ⟨hk, htake⟩ := (hdecodes v b.begin.toNat).1 ⟨b, hok, rfl⟩
      have hall := congrArg List.length htake
      rw [List.length_take_of_le hk, ← hlen] at hall
      rw [hall, List.take_length] at htake
      exact hne htake

variable (L)

/-- **Decoding arbitrary bytes.** `operator>>` decodes exactly what `operator<<` writes if and only
    if no message shorter than 2^62 reaches an array without elements. -/
theorem decoding_canonical_iff (t : CType) (hsize : t.Sized L) :
    (∀ v, (t.encoding L v).length < 2 ^ 63 → serialize (t.write L v) = .ok (t.encoding L v)) ∧
      (t.DecodesExactly L ↔ t.reachesEmptyArray L = false) := by
  refine ⟨fun v hlen => serialize_of_emits (emits_writeValue L t v) hlen, fun h => ?_, fun ht => ?_⟩
  · by_contra hempty
    exact not_decodesExactly (by simpa using hempty) h
  · exact decodesExactly_of_exact ht (fun alloc halloc => exact_caller halloc hsize ht)

end Canonical

/-- One pair of bytes in a vector, whose second byte is cut off: an exception. -/
theorem decoding_canonical_pairs :
    ∃ e, (CType.vector (.array ⟨.w8, false⟩ 2)).decode oneByteLayout roomy .caller
      (ReadBuffer.make [1, 0, 0, 0, 0, 0, 0, 0, 5]) = .error e ∧ e.Thrown := by
  have hsize : arraySize oneByteLayout ⟨.w8, false⟩ 2 < 2 ^ 63 := by decide
  obtain ⟨-, hiff⟩ := decoding_canonical_iff oneByteLayout (.vector (.array ⟨.w8, false⟩ 2)) hsize
  obtain ⟨-, -, hcut⟩ := hiff.2 rfl roomy roomy_makesContainers [1, 0, 0, 0, 0, 0, 0, 0, 5]
    (by decide)
  exact hcut [⟨[5, 6], rfl⟩] (by decide) (by decide) (by decide)

/-- An array without elements is read from nothing, but is written as a byte. -/
theorem empty_array_from_nothing :
    (CType.array ⟨.w32, true⟩ 0).decode oneByteLayout roomy .caller (ReadBuffer.make []) =
        .ok (.nil, ReadBuffer.make []) ∧
      (CType.array ⟨.w32, true⟩ 0).encoding oneByteLayout .nil = [0] ∧
      ¬ (CType.array ⟨.w32, true⟩ 0).DecodesExactly oneByteLayout := by
  refine ⟨rfl, rfl, fun h => ?_⟩
  obtain ⟨-, henc⟩ := ((h roomy roomy_makesContainers [] (by decide)).1 .nil 0).1 ⟨_, rfl, rfl⟩
  exact absurd henc (by decide)

end LibIS
