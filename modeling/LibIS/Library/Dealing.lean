import Mathlib.Algebra.BigOperators.Group.Finset.Piecewise

set_option autoImplicit false

/-! # Dealing a list out in turn

The elements of a list are dealt to `k` receivers in turn, starting with receiver `i`; the share of
a receiver is the product of what it gets. What is dealt is in some share and in one only
(`prod_share`). -/

namespace Dealing

variable {M : Type} [CommMonoid M]

/-- The share of receiver `r`: the product of the elements at the positions that are `r` modulo
    `k`, where the first element has position `i`. -/
def share (k r i : ℕ) (l : List M) : M :=
  (((l.zipIdx i).filter (fun p => p.2 % k = r)).map Prod.fst).prod

@[simp] theorem share_nil (k r i : ℕ) : share k r i ([] : List M) = 1 := rfl

theorem share_cons (k r i : ℕ) (a : M) (l : List M) :
    share k r i (a :: l) = (if i % k = r then a else 1) * share k r (i + 1) l := by
  rw [share, List.zipIdx_cons, List.filter_cons]
  by_cases h : i % k = r
  · rw [if_pos (by simpa using h), if_pos h, List.map_cons, List.prod_cons]
    rfl
  · rw [if_neg (by simpa using h), if_neg h, one_mul]
    rfl

/-- Only the first receiver matters, not how often all have had their turn. -/
theorem share_mod (k r i : ℕ) (l : List M) : share k r (i % k) l = share k r i l := by
  induction l generalizing i with
  | nil => rfl
  | cons a l ih =>
      rw [share_cons, share_cons, Nat.mod_mod, ← ih (i % k + 1), ← ih (i + 1), Nat.mod_add_mod]

theorem prod_share {k : ℕ} (hk : 0 < k) (i : ℕ) (l : List M) :
    ∏ r ∈ Finset.range k, share k r i l = l.prod := by
  induction l generalizing i with
  | nil => simp
  | cons a l ih =>
      have hmem : i % k ∈ Finset.range k := Finset.mem_range.2 (Nat.mod_lt i hk)
      simp only [share_cons, Finset.prod_mul_distrib, ih, List.prod_cons]
      rw [Finset.prod_ite_eq, if_pos hmem]

end Dealing
