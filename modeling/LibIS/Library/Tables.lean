import LibIS.Library.Bytes
import Mathlib.Tactic.Common

set_option autoImplicit false

/-! # Tables

A list that is made of entries of one length, one behind the other. An array of several dimensions
that is stored row by row is a table of tables: `cell` is where such an array of three dimensions
has an element. -/

namespace Tables

variable {α : Type}

/-- The entries `f 0`, …, `f (n - 1)`, one behind the other. -/
def table (n : ℕ) (f : ℕ → List α) : List α :=
  (List.range n).flatMap f

section Table

variable {n w i j : ℕ} {f : ℕ → List α}

@[simp] theorem table_zero (f : ℕ → List α) : table 0 f = [] := rfl

theorem table_succ (n : ℕ) (f : ℕ → List α) : table (n + 1) f = table n f ++ f n := by
  rw [table, List.range_succ, List.flatMap_append, List.flatMap_singleton]
  rfl

theorem table_add (m n : ℕ) (f : ℕ → List α) :
    table (m + n) f = table m f ++ table n (fun i => f (m + i)) := by
  induction n with
  | zero => rw [Nat.add_zero, table_zero, List.append_nil]
  | succ n ih => rw [← Nat.add_assoc, table_succ, ih, table_succ, List.append_assoc]

theorem table_length (h : ∀ i, i < n → (f i).length = w) : (table n f).length = n * w := by
  induction n with
  | zero => rw [table_zero, List.length_nil, Nat.zero_mul]
  | succ n ih =>
      rw [table_succ, List.length_append, ih (fun i hi => h i (hi.trans (Nat.lt_succ_self n))),
        h n (Nat.lt_succ_self n), Nat.succ_mul]

/-- An entry is found behind the entries before it. -/
theorem table_entry (h : ∀ i, i < n → (f i).length = w) (hi : i < n) :
    ((table n f).drop (i * w)).take w = f i := by
  obtain ⟨m, rfl⟩ : ∃ m, n = i + (1 + m) := ⟨n - i - 1, by omega⟩
  have hfront : (table i f).length = i * w := table_length (fun k hk => h k (hk.trans hi))
  have hlen : (f i).length = w := h i hi
  have hone : table 1 (fun k => f (i + k)) = f i := by
    rw [table_succ, table_zero, List.nil_append, Nat.add_zero]
  rw [table_add, List.drop_left' hfront, table_add, hone, List.take_left' hlen]

theorem table_getElem? (h : ∀ i, i < n → (f i).length = w) (hi : i < n) (hj : j < w) :
    (table n f)[i * w + j]? = (f i)[j]? := by
  rw [← table_entry h hi, List.getElem?_take_of_lt hj, List.getElem?_drop]

end Table

/-! ## Arrays of three dimensions -/

/-- Where an array with rows of `dx` elements and layers of `dy` rows has an element. -/
def cell (dx dy x y z : ℕ) : ℕ :=
  (z * dy + y) * dx + x

section Cell

variable {dx dy dz x y z : ℕ}

theorem cell_lt (hx : x < dx) (hy : y < dy) (hz : z < dz) : cell dx dy x y z < dz * dy * dx := by
  have hrow : z * dy + y + 1 ≤ dz * dy := by
    calc z * dy + y + 1 ≤ (z + 1) * dy := by rw [Nat.succ_mul]; omega
      _ ≤ dz * dy := Nat.mul_le_mul_right dy hz
  calc cell dx dy x y z < (z * dy + y + 1) * dx := by rw [cell, Nat.succ_mul]; omega
    _ ≤ dz * dy * dx := Nat.mul_le_mul_right dx hrow

end Cell

/-- An array of three dimensions, stored row by row. -/
def array (dx dy dz : ℕ) (f : ℕ → ℕ → ℕ → α) : List α :=
  table dz (fun z => table dy (fun y => table dx (fun x => [f x y z])))

section Array

variable {dx dy dz x y z : ℕ} {f : ℕ → ℕ → ℕ → α}

theorem row_length (z y : ℕ) : (table dx (fun x => [f x y z])).length = dx := by
  rw [table_length (w := 1) (fun _ _ => rfl), Nat.mul_one]

theorem layer_length (z : ℕ) :
    (table dy (fun y => table dx (fun x => [f x y z]))).length = dy * dx :=
  table_length (fun y _ => row_length z y)

theorem array_length : (array dx dy dz f).length = dz * (dy * dx) :=
  table_length (fun z _ => layer_length z)

theorem array_getElem? (hx : x < dx) (hy : y < dy) (hz : z < dz) :
    (array dx dy dz f)[cell dx dy x y z]? = some (f x y z) := by
  have hrow : y * dx + x < dy * dx :=
    calc y * dx + x < (y + 1) * dx := by rw [Nat.succ_mul]; omega
      _ ≤ dy * dx := Nat.mul_le_mul_right dx hy
  have hplace : cell dx dy x y z = z * (dy * dx) + (y * dx + x) := by
    rw [cell, Nat.add_mul, Nat.mul_assoc, Nat.add_assoc]
  have hlast : (table dx (fun x => [f x y z]))[x * 1 + 0]? = ([f x y z] : List α)[0]? :=
    table_getElem? (fun _ _ => rfl) hx Nat.one_pos
  rw [hplace, array, table_getElem? (fun z _ => layer_length z) hz hrow,
    table_getElem? (fun y _ => row_length z y) hy hx]
  simpa using hlast

/-- The layers from `m` on are an array of their own. -/
theorem array_layers (m n : ℕ) :
    array dx dy (m + n) f = array dx dy m f ++ array dx dy n (fun x y z => f x y (m + z)) :=
  table_add m n _

end Array

/-! ## Records -/

/-- A list of records of `w` elements each holds the elements of a record together. -/
theorem flatMap_entry {β : Type} {w i : ℕ} {l : List α} {e : α → List β} {a : α}
    (h : ∀ a ∈ l, (e a).length = w) (hi : l[i]? = some a) :
    ((l.flatMap e).drop (i * w)).take w = e a := by
  induction l generalizing i with
  | nil => exact absurd hi (by simp)
  | cons b l ih =>
      have hb : (e b).length = w := h b (List.mem_cons_self ..)
      rw [List.flatMap_cons]
      cases i with
      | zero =>
          obtain rfl : b = a := by simpa using hi
          rw [Nat.zero_mul, List.drop_zero, List.take_left' hb]
      | succ i =>
          have hdrop : (e b ++ l.flatMap e).drop ((i + 1) * w) = (l.flatMap e).drop (i * w) := by
            rw [Nat.succ_mul, Nat.add_comm, ← List.drop_drop, List.drop_left' hb]
          rw [hdrop]
          exact ih (fun a ha => h a (List.mem_cons_of_mem _ ha)) (by simpa using hi)

theorem flatMap_length {β : Type} {w : ℕ} {l : List α} {e : α → List β}
    (h : ∀ a ∈ l, (e a).length = w) : (l.flatMap e).length = l.length * w := by
  induction l with
  | nil => simp
  | cons b l ih =>
      rw [List.flatMap_cons, List.length_append, h b (List.mem_cons_self ..),
        ih (fun a ha => h a (List.mem_cons_of_mem _ ha)), List.length_cons, Nat.succ_mul,
        Nat.add_comm]

end Tables
