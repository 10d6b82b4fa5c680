import Mathlib.Data.Finset.Lattice.Fold
import Mathlib.Tactic.Common

set_option autoImplicit false

/-! # Numbers and NaN

A linear order with one more value, which is neither smaller nor larger than any. `std::min` and
`std::max` return their first argument where nothing can be compared, so folding them from a number
passes over the NaNs: the result is the infimum or supremum of the numbers in the list, whatever
their order and however often they occur (`foldl_stdMin`, `foldl_stdMax`). -/

/-- A value of the order `V`, or not a number. -/
inductive OrNaN (V : Type) where
  | nan
  | num (v : V)
deriving DecidableEq, Repr

namespace OrNaN

variable {V F : Type}

/-- `std::min`, over the comparison `lt`. -/
def stdMin (lt : F → F → Bool) (a b : F) : F :=
  if lt b a then b else a

/-- `std::max`, over the comparison `lt`. -/
def stdMax (lt : F → F → Bool) (a b : F) : F :=
  if lt a b then b else a

/-- The number that a value is. -/
def num? : OrNaN V → Option V
  | nan => none
  | num v => some v

@[simp] theorem num?_eq_some {a : OrNaN V} {v : V} : a.num? = some v ↔ a = num v := by
  cases a <;> simp [num?]

variable [LinearOrder V]

/-- The comparison of numbers; with a NaN it is false. -/
def lt : OrNaN V → OrNaN V → Bool
  | num a, num b => a < b
  | _, _ => false

@[simp] theorem lt_nan (a : OrNaN V) : lt a nan = false := by
  cases a <;> rfl

@[simp] theorem nan_lt (a : OrNaN V) : lt nan a = false := rfl

@[simp] theorem stdMin_nan (a : OrNaN V) : stdMin lt a nan = a := by
  simp [stdMin]

@[simp] theorem stdMax_nan (a : OrNaN V) : stdMax lt a nan = a := by
  simp [stdMax]

@[simp] theorem stdMin_num (a b : V) : stdMin lt (num a) (num b) = num (a ⊓ b) := by
  rcases lt_or_ge b a with h | h
  · simp [stdMin, lt, h, inf_eq_right.2 h.le]
  · simp [stdMin, lt, not_lt.2 h, inf_eq_left.2 h]

@[simp] theorem stdMax_num (a b : V) : stdMax lt (num a) (num b) = num (a ⊔ b) := by
  rcases lt_or_ge a b with h | h
  · simp [stdMax, lt, h, sup_eq_right.2 h.le]
  · simp [stdMax, lt, not_lt.2 h, sup_eq_left.2 h]

/-- The numbers of a list. -/
def numbers (l : List (OrNaN V)) : Finset V :=
  (l.filterMap num?).toFinset

@[simp] theorem mem_numbers {l : List (OrNaN V)} {v : V} : v ∈ numbers l ↔ num v ∈ l := by
  simp [numbers]

@[simp] theorem numbers_nil : numbers ([] : List (OrNaN V)) = ∅ := rfl

@[simp] theorem numbers_nan_cons (l : List (OrNaN V)) : numbers (nan :: l) = numbers l := rfl

@[simp] theorem numbers_num_cons (v : V) (l : List (OrNaN V)) :
    numbers (num v :: l) = insert v (numbers l) := by
  simp [numbers, num?]

theorem numbers_append (l l' : List (OrNaN V)) : numbers (l ++ l') = numbers l ∪ numbers l' := by
  simp [numbers]

theorem numbers_congr {l l' : List (OrNaN V)} (h : ∀ a, a ∈ l ↔ a ∈ l') :
    numbers l = numbers l' := by
  ext v
  rw [mem_numbers, mem_numbers, h]

theorem foldl_stdMin [OrderTop V] (l : List (OrNaN V)) (m : V) :
    l.foldl (stdMin lt) (num m) = num (m ⊓ (numbers l).inf id) := by
  induction l generalizing m with
  | nil => simp
  | cons a l ih =>
      cases a with
      | nan => rw [List.foldl_cons, stdMin_nan, ih, numbers_nan_cons]
      | num v =>
          rw [List.foldl_cons, stdMin_num, ih, numbers_num_cons, Finset.inf_insert, inf_assoc]
          rfl

theorem foldl_stdMax [OrderBot V] (l : List (OrNaN V)) (m : V) :
    l.foldl (stdMax lt) (num m) = num (m ⊔ (numbers l).sup id) := by
  induction l generalizing m with
  | nil => simp
  | cons a l ih =>
      cases a with
      | nan => rw [List.foldl_cons, stdMax_nan, ih, numbers_nan_cons]
      | num v =>
          rw [List.foldl_cons, stdMax_num, ih, numbers_num_cons, Finset.sup_insert, sup_assoc]
          rfl

/-- An extremum over a nonempty finite set is attained. -/
theorem inf_mem [BoundedOrder V] {s : Finset V} (hs : s.Nonempty) : s.inf id ∈ s := by
  obtain ⟨v, hv, heq⟩ := s.exists_mem_eq_inf hs id
  rw [heq]
  exact hv

theorem sup_mem [BoundedOrder V] {s : Finset V} (hs : s.Nonempty) : s.sup id ∈ s := by
  obtain ⟨v, hv, heq⟩ := s.exists_mem_eq_sup hs id
  rw [heq]
  exact hv

end OrNaN
