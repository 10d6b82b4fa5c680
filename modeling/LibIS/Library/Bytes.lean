import Mathlib.Data.Nat.Digits.Lemmas
import Mathlib.Tactic.Ring

set_option autoImplicit false

/-! # Little-endian byte strings

The memory image of an unsigned machine integer of a given width, and the value a byte string of any
length denotes. A short read of an integer leaves a prefix of its image in a zero-filled variable,
so besides the round trip the two facts needed are what a prefix of an image is (`leBytes_take`) and
that trailing zeros do not change the value (`leValue_append_zeros`). -/

/-- A run of bytes in memory or on a channel. -/
abbrev Bytes := List UInt8

namespace ByteCodec

/-- The `w` bytes of `v`, least significant first; what does not fit in `w` bytes is dropped. -/
def leBytes : ℕ → ℕ → Bytes
  | 0, _ => []
  | w + 1, v => UInt8.ofNat v :: leBytes w (v / 256)

/-- The number a byte string denotes, least significant byte first. -/
def leValue (bs : Bytes) : ℕ :=
  Nat.ofDigits 256 (bs.map UInt8.toNat)

/-- `n` zero bytes, the content of a freshly made `std::vector<char>(n, 0)`. -/
def zeros (n : ℕ) : Bytes :=
  List.replicate n 0

@[simp] theorem zeros_length (n : ℕ) : (zeros n).length = n := by simp [zeros]

@[simp] theorem zeros_zero : zeros 0 = [] := rfl

/-! ## The image of an integer -/

@[simp] theorem leBytes_length (w v : ℕ) : (leBytes w v).length = w := by
  induction w generalizing v with
  | zero => rfl
  | succ w ih => simp [leBytes, ih]

/-- A prefix of an image is the image at the smaller width: the low bytes come first. -/
theorem leBytes_take (k w v : ℕ) (h : k ≤ w) : (leBytes w v).take k = leBytes k v := by
  induction k generalizing w v with
  | zero => simp [leBytes]
  | succ k ih =>
      obtain ⟨w, rfl⟩ : ∃ w', w = w' + 1 := ⟨w - 1, by omega⟩
      simp only [leBytes, List.take_succ_cons]
      rw [ih w (v / 256) (by omega)]

/-! ## The value of a byte string -/

@[simp] theorem leValue_nil : leValue [] = 0 := rfl

@[simp] theorem leValue_cons (b : UInt8) (bs : Bytes) :
    leValue (b :: bs) = b.toNat + 256 * leValue bs := by
  simp [leValue, Nat.ofDigits_cons]

theorem leValue_append (as bs : Bytes) :
    leValue (as ++ bs) = leValue as + 256 ^ as.length * leValue bs := by
  simp [leValue, Nat.ofDigits_append]

theorem leValue_lt (bs : Bytes) : leValue bs < 256 ^ bs.length := by
  have h := Nat.ofDigits_lt_base_pow_length (b := 256) (l := bs.map UInt8.toNat) (by omega) (by
    intro x hx
    obtain ⟨b, -, rfl⟩ := List.mem_map.1 hx
    exact b.toNat_lt)
  simpa [leValue] using h

@[simp] theorem leValue_zeros (n : ℕ) : leValue (zeros n) = 0 := by
  simp [leValue, zeros]

/-- Zero bytes past the received part do not change the value. -/
theorem leValue_append_zeros (bs : Bytes) (n : ℕ) : leValue (bs ++ zeros n) = leValue bs := by
  rw [leValue_append, leValue_zeros, Nat.mul_zero, Nat.add_zero]

/-- **Round trip.** The image of `v` at width `w` denotes `v` modulo `256 ^ w`. -/
theorem leValue_leBytes (w v : ℕ) : leValue (leBytes w v) = v % 256 ^ w := by
  induction w generalizing v with
  | zero => simp [leBytes, Nat.mod_one]
  | succ w ih =>
      have hb : (UInt8.ofNat v).toNat = v % 256 := by simp
      rw [leBytes, leValue_cons, ih, hb, pow_succ, Nat.mul_comm (256 ^ w) 256, Nat.mod_mul]

theorem leValue_leBytes_of_lt (w v : ℕ) (h : v < 256 ^ w) : leValue (leBytes w v) = v := by
  rw [leValue_leBytes, Nat.mod_eq_of_lt h]

theorem leBytes_leValue (bs : Bytes) : leBytes bs.length (leValue bs) = bs := by
  induction bs with
  | nil => rfl
  | cons b bs ih =>
      have hdiv : (b.toNat + 256 * leValue bs) / 256 = leValue bs := by
        have hb := b.toNat_lt
        omega
      rw [List.length_cons, leBytes, leValue_cons, hdiv, ih]
      congr 1
      rw [← UInt8.toNat_inj]
      simp

theorem leBytes_zero (w : ℕ) : leBytes w 0 = zeros w := by
  induction w with
  | zero => rfl
  | succ w ih => simp [leBytes, ih, zeros, List.replicate_succ]

/-- A prefix of an image, filled up with zeros, denotes at most what the image did. -/
theorem leValue_take_le (w v k n : ℕ) (h : v < 256 ^ w) :
    leValue ((leBytes w v).take k ++ zeros n) ≤ v := by
  rw [leValue_append_zeros]
  by_cases hk : k ≤ w
  · rw [leBytes_take k w v hk, leValue_leBytes]
    exact Nat.mod_le _ _
  · rw [List.take_of_length_le (by simp; omega), leValue_leBytes_of_lt w v h]

/-! ## Packed structs -/

/-- The memory image of a packed struct of unsigned fields, given as (width, value) pairs. -/
def packedImage (fields : List (ℕ × ℕ)) : Bytes :=
  fields.flatMap (fun f => leBytes f.1 f.2)

/-- The field values of a packed struct with the given field widths. -/
def packedValues : List ℕ → Bytes → List ℕ
  | [], _ => []
  | w :: ws, bs => leValue (bs.take w) :: packedValues ws (bs.drop w)

theorem packedImage_length (fields : List (ℕ × ℕ)) :
    (packedImage fields).length = (fields.map Prod.fst).sum := by
  induction fields with
  | nil => rfl
  | cons f fs ih => simp_all [packedImage]

/-- A struct whose fields fit their widths is read back from its image. -/
theorem packedValues_packedImage (fields : List (ℕ × ℕ)) (h : ∀ f ∈ fields, f.2 < 256 ^ f.1) :
    packedValues (fields.map Prod.fst) (packedImage fields) = fields.map Prod.snd := by
  induction fields with
  | nil => rfl
  | cons f fs ih =>
      have hf := h f (List.mem_cons_self ..)
      have hfs := ih (fun g hg => h g (List.mem_cons_of_mem _ hg))
      have hlen : (leBytes f.1 f.2).length = f.1 := leBytes_length _ _
      have htake : (leBytes f.1 f.2 ++ packedImage fs).take f.1 = leBytes f.1 f.2 := by
        rw [List.take_left' hlen]
      have hdrop : (leBytes f.1 f.2 ++ packedImage fs).drop f.1 = packedImage fs := by
        rw [List.drop_left' hlen]
      simp only [packedImage, List.flatMap_cons, List.map_cons, packedValues] at htake hdrop hfs ⊢
      rw [htake, hdrop, hfs, leValue_leBytes_of_lt _ _ hf]

end ByteCodec
