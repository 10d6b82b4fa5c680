import Mathlib.Tactic.Common

set_option autoImplicit false

/-! # Objects and their calls

An object is a state with a call that takes an argument and gives an outcome; a call that throws is
an outcome like any other. `run` makes the calls of a list one after the other, and `Meets` says
that each of them meets a condition in the state it is made in.

`Refines C A guard` is a simulation of `C` by `A`: as long as the calls meet the guard, the two give
the same outcomes (`Refines.run`). Where a property of the calls of `C` is exactly the guard, it
holds along a run of `C` if and only if the guard is met along the run of `A`
(`Refines.meets_iff`).

`total` is what the calls of a run cost together; a potential that grows by at least the cost of each
call has grown by it at the end (`total_le`). -/

/-- An object with one call. -/
structure CallObject (ι ο : Type) where
  State : Type
  call : ι → State → ο × State

namespace CallObject

variable {ι ο : Type}

/-- The outcomes of calls made one after the other, and the state they leave. -/
def run (O : CallObject ι ο) : List ι → O.State → List ο × O.State
  | [], s => ([], s)
  | i :: is, s =>
      let r := O.call i s
      let rest := O.run is r.2
      (r.1 :: rest.1, rest.2)

/-- Every call meets a condition in the state it is made in. -/
def Meets (O : CallObject ι ο) (P : ι → O.State → Prop) : List ι → O.State → Prop
  | [], _ => True
  | i :: is, s => P i s ∧ O.Meets P is (O.call i s).2

instance decidableMeets (O : CallObject ι ο) (P : ι → O.State → Prop)
    [∀ i s, Decidable (P i s)] : (is : List ι) → (s : O.State) → Decidable (O.Meets P is s)
  | [], _ => .isTrue trivial
  | i :: is, s =>
      have := decidableMeets O P is (O.call i s).2
      inferInstanceAs (Decidable (P i s ∧ O.Meets P is (O.call i s).2))

section Run

variable (O : CallObject ι ο)

@[simp] theorem run_nil (s : O.State) : O.run [] s = ([], s) := rfl

theorem run_cons (i : ι) (is : List ι) (s : O.State) :
    O.run (i :: is) s =
      ((O.call i s).1 :: (O.run is (O.call i s).2).1, (O.run is (O.call i s).2).2) := rfl

/-- A condition is met along a run when it is met after every first part of it. -/
theorem meets_iff (P : ι → O.State → Prop) (is : List ι) (s : O.State) :
    O.Meets P is s ↔ ∀ before i after, is = before ++ i :: after → P i (O.run before s).2 := by
  induction is generalizing s with
  | nil =>
      constructor
      · intro _ before i after h
        exact absurd h (by simp)
      · intro _
        exact trivial
  | cons i is ih =>
      rw [Meets, ih]
      constructor
      · rintro ⟨hi, his⟩ before j after h
        cases before with
        | nil =>
            obtain ⟨rfl, -⟩ := List.cons.inj h
            exact hi
        | cons i' before =>
            obtain ⟨rfl, hrest⟩ := List.cons.inj h
            exact his before j after hrest
      · intro h
        refine ⟨h [] i is rfl, fun before j after hsplit => ?_⟩
        exact h (i :: before) j after (by rw [hsplit, List.cons_append])

end Run

/-! ## Costs -/

/-- What calls cost together, each in the state it is made in. -/
def total (O : CallObject ι ο) (cost : ι → O.State → ℕ) : List ι → O.State → ℕ
  | [], _ => 0
  | i :: is, s => cost i s + O.total cost is (O.call i s).2

section Costs

variable (O : CallObject ι ο)

/-- A potential that grows with each call by what it costs. -/
theorem total_le {cost : ι → O.State → ℕ} {potential : O.State → ℕ} {is : List ι} {s : O.State}
    (h : O.Meets (fun i s => cost i s + potential s ≤ potential (O.call i s).2) is s) :
    O.total cost is s + potential s ≤ potential (O.run is s).2 := by
  induction is generalizing s with
  | nil => exact Nat.le_of_eq (Nat.zero_add _)
  | cons i is ih =>
      obtain ⟨hi, his⟩ := h
      have hrest := ih his
      show cost i s + O.total cost is (O.call i s).2 + potential s ≤
        potential (O.run is (O.call i s).2).2
      omega

/-- What is kept by every call that meets a condition holds along a run. -/
theorem meets_of_kept {P : ι → O.State → Prop} (inv : List ι → O.State → Prop)
    (hP : ∀ i is s, inv (i :: is) s → P i s ∧ inv is (O.call i s).2) {is : List ι} {s : O.State}
    (h : inv is s) : O.Meets P is s ∧ inv [] (O.run is s).2 := by
  induction is generalizing s with
  | nil => exact ⟨trivial, h⟩
  | cons i is ih =>
      obtain ⟨hi, hnext⟩ := hP i is s h
      obtain ⟨his, hend⟩ := ih hnext
      exact ⟨⟨hi, his⟩, hend⟩

end Costs

/-! ## Refinement -/

/-- As long as its calls meet the guard, `C` does what `A` does. -/
structure Refines (C A : CallObject ι ο) (guard : ι → A.State → Prop) where
  rel : C.State → A.State → Prop
  step : ∀ {i : ι} {c : C.State} {a : A.State}, rel c a → guard i a →
    (C.call i c).1 = (A.call i a).1 ∧ rel (C.call i c).2 (A.call i a).2

namespace Refines

variable {C A : CallObject ι ο} {guard : ι → A.State → Prop}

theorem run (R : Refines C A guard) {c : C.State} {a : A.State} (h : R.rel c a) {is : List ι}
    (hguard : A.Meets guard is a) :
    (C.run is c).1 = (A.run is a).1 ∧ R.rel (C.run is c).2 (A.run is a).2 := by
  induction is generalizing c a with
  | nil => exact ⟨rfl, h⟩
  | cons i is ih =>
      obtain ⟨hout, hrel⟩ := R.step h hguard.1
      obtain ⟨houts, hrels⟩ := ih hrel hguard.2
      refine ⟨?_, hrels⟩
      rw [run_cons, run_cons, hout, houts]

theorem meets_iff (R : Refines C A guard) {P : ι → C.State → Prop}
    (hP : ∀ {i c a}, R.rel c a → (P i c ↔ guard i a)) {c : C.State} {a : A.State}
    (h : R.rel c a) (is : List ι) : C.Meets P is c ↔ A.Meets guard is a := by
  induction is generalizing c a with
  | nil => exact Iff.rfl
  | cons i is ih =>
      rw [Meets, Meets, hP h]
      constructor
      · rintro ⟨hi, his⟩
        exact ⟨hi, (ih (R.step h hi).2).1 his⟩
      · rintro ⟨hi, his⟩
        exact ⟨hi, (ih (R.step h hi).2).2 his⟩

end Refines

end CallObject
