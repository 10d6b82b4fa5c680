import LibIS.Library.OrNaN
import LibIS.Sim.Setters
import Mathlib.Order.WithBot

set_option autoImplicit false

/-! # Bounding boxes (`is_common.cpp`)

`libISBoxExtend` keeps the old bound wherever a coordinate is not a number, because the bound is the
first argument of `std::min` and `std::max`. So the bounds of a box that was made empty and extended
by points are the infimum and the supremum of the coordinates that are numbers (`boxOf_min`,
`boxOf_max`), and everything else follows from that (`bounding_box`). -/

open OrNaN

namespace LibIS.Bounds

/-- A floating-point type, by the values it compares by. Different floats may have one value: the
    two zeros do. -/
class FloatType (F : Type) (V : outParam Type) [LinearOrder V] [BoundedOrder V] where
  value : F → OrNaN V
  infinity : F
  negInfinity : F
  value_infinity : value infinity = num ⊤
  value_negInfinity : value negInfinity = num ⊥
  ends_lt : (⊥ : V) < ⊤

open FloatType

variable {F V : Type} [LinearOrder V] [BoundedOrder V] [FloatType F V]

/-- `<` on floats. -/
def less (a b : F) : Bool :=
  lt (value a) (value b)

/-- `libISMakeBox3f`. -/
def libISMakeBox3f : Box3 F :=
  ⟨⟨infinity, infinity, infinity⟩, ⟨negInfinity, negInfinity, negInfinity⟩⟩

/-- `libISBoxExtend`. -/
def libISBoxExtend (box : Box3 F) (v : Vec3 F) : Box3 F where
  min := ⟨stdMin less box.min.x v.x, stdMin less box.min.y v.y, stdMin less box.min.z v.z⟩
  max := ⟨stdMax less box.max.x v.x, stdMax less box.max.y v.y, stdMax less box.max.z v.z⟩

/-- The box of a list of points: an empty box extended by each of them. -/
def boxOf (points : List (Vec3 F)) : Box3 F :=
  points.foldl libISBoxExtend libISMakeBox3f

/-! ## The types of coordinates -/

/-- Values in a linear order with two ends, or NaN. -/
instance [Nontrivial V] : FloatType (OrNaN V) V where
  value := id
  infinity := num ⊤
  negInfinity := num ⊥
  value_infinity := rfl
  value_negInfinity := rfl
  ends_lt := bot_lt_top

/-- The value of a `float`, from its bits: NaN or an infinity where the exponent is all ones, and
    else the other bits as a number, negative if the sign bit is set. -/
def floatValue (bits : FloatBits) : OrNaN (WithBot (WithTop ℤ)) :=
  let sign : ℕ := bits.toNat / 2 ^ 31
  let magnitude : ℕ := bits.toNat % 2 ^ 31
  if 0x7F800000 < magnitude then nan
  else if magnitude = 0x7F800000 then num (if sign = 0 then ⊤ else ⊥)
  else num (if sign = 0 then ((magnitude : ℤ) : WithTop ℤ)
    else ((-(magnitude : ℤ) : ℤ) : WithTop ℤ))

instance : FloatType FloatBits (WithBot (WithTop ℤ)) where
  value := floatValue
  infinity := 0x7F800000
  negInfinity := 0xFF800000
  value_infinity := rfl
  value_negInfinity := rfl
  ends_lt := bot_lt_top

/-- The empty box that a new `libISSimState` has. -/
theorem make_floatBits : (libISMakeBox3f : Box3 FloatBits) = LibIS.libISMakeBox3f := rfl

/-! ## What a box means -/

inductive Axis where
  | x
  | y
  | z
deriving DecidableEq, Repr

/-- The coordinate of a point on an axis. -/
def coord {α : Type} (v : Vec3 α) : Axis → α
  | .x => v.x
  | .y => v.y
  | .z => v.z

/-- No bound is NaN. -/
def NoNaN (box : Box3 F) : Prop :=
  ∀ a, (∃ lo, value (coord box.min a) = num lo) ∧ ∃ hi, value (coord box.max a) = num hi

/-- The numbers that a box contains on an axis: none, if a bound is NaN. -/
def range (box : Box3 F) (a : Axis) : Set V :=
  {c | ∃ lo hi, value (coord box.min a) = num lo ∧ value (coord box.max a) = num hi ∧
    lo ≤ c ∧ c ≤ hi}

/-- The box contains every coordinate of the points that is a number. -/
def Contains (box : Box3 F) (points : List (Vec3 F)) : Prop :=
  ∀ p ∈ points, ∀ a c, value (coord p a) = num c → c ∈ range box a

/-- A box is contained in another: so are the numbers in it, and its bounds lie between the bounds
    of the other where these are numbers. -/
def Within (box box' : Box3 F) : Prop :=
  ∀ a, range box a ⊆ range box' a ∧
    ∀ lo' hi', value (coord box'.min a) = num lo' → value (coord box'.max a) = num hi' →
      ∃ lo hi, value (coord box.min a) = num lo ∧ value (coord box.max a) = num hi ∧
        lo' ≤ lo ∧ hi ≤ hi'

/-- The values of a point. -/
def pointValues (v : Vec3 F) : Vec3 (OrNaN V) :=
  ⟨value v.x, value v.y, value v.z⟩

/-- The values of a box. Boxes with the same values are the same but for the signs of zeros. -/
def boxValues (box : Box3 F) : Box3 (OrNaN V) :=
  ⟨pointValues box.min, pointValues box.max⟩

/-- The coordinates of the points on an axis that are numbers. -/
def coords (points : List (Vec3 F)) (a : Axis) : Finset V :=
  numbers (points.map (fun p => value (coord p a)))

/-! ## Extending a box -/

section Extend

theorem value_stdMin (a b : F) : value (stdMin less a b) = stdMin lt (value a) (value b) := by
  unfold stdMin less
  split <;> rfl

theorem value_stdMax (a b : F) : value (stdMax less a b) = stdMax lt (value a) (value b) := by
  unfold stdMax less
  split <;> rfl

theorem extend_min (box : Box3 F) (v : Vec3 F) (a : Axis) :
    value (coord (libISBoxExtend box v).min a) =
      stdMin lt (value (coord box.min a)) (value (coord v a)) := by
  cases a <;> exact value_stdMin _ _

theorem extend_max (box : Box3 F) (v : Vec3 F) (a : Axis) :
    value (coord (libISBoxExtend box v).max a) =
      stdMax lt (value (coord box.max a)) (value (coord v a)) := by
  cases a <;> exact value_stdMax _ _

theorem foldl_extend_min (points : List (Vec3 F)) (box : Box3 F) (a : Axis) :
    value (coord (points.foldl libISBoxExtend box).min a) =
      (points.map (fun p => value (coord p a))).foldl (stdMin lt) (value (coord box.min a)) := by
  induction points generalizing box with
  | nil => rfl
  | cons p points ih => rw [List.foldl_cons, ih, extend_min, List.map_cons, List.foldl_cons]

theorem foldl_extend_max (points : List (Vec3 F)) (box : Box3 F) (a : Axis) :
    value (coord (points.foldl libISBoxExtend box).max a) =
      (points.map (fun p => value (coord p a))).foldl (stdMax lt) (value (coord box.max a)) := by
  induction points generalizing box with
  | nil => rfl
  | cons p points ih => rw [List.foldl_cons, ih, extend_max, List.map_cons, List.foldl_cons]

theorem make_min (a : Axis) : value (coord (libISMakeBox3f (F := F)).min a) = num ⊤ := by
  cases a <;> exact value_infinity

theorem make_max (a : Axis) : value (coord (libISMakeBox3f (F := F)).max a) = num ⊥ := by
  cases a <;> exact value_negInfinity

theorem boxOf_min (points : List (Vec3 F)) (a : Axis) :
    value (coord (boxOf points).min a) = num ((coords points a).inf id) := by
  rw [boxOf, foldl_extend_min, make_min, foldl_stdMin, top_inf_eq]
  rfl

theorem boxOf_max (points : List (Vec3 F)) (a : Axis) :
    value (coord (boxOf points).max a) = num ((coords points a).sup id) := by
  rw [boxOf, foldl_extend_max, make_max, foldl_stdMax, bot_sup_eq]
  rfl

end Extend

/-! ## The box of a list of points -/

section BoxOf

variable {points points' : List (Vec3 F)} {a : Axis} {c : V}

theorem mem_coords : c ∈ coords points a ↔ ∃ p ∈ points, value (coord p a) = num c := by
  rw [coords, mem_numbers, List.mem_map]

theorem mem_range_boxOf :
    c ∈ range (boxOf points) a ↔ (coords points a).inf id ≤ c ∧ c ≤ (coords points a).sup id := by
  simp only [range, boxOf_min, boxOf_max, Set.mem_ofPred_eq, num.injEq]
  constructor
  · rintro ⟨lo, hi, rfl, rfl, hc⟩
    exact hc
  · exact fun hc => ⟨_, _, rfl, rfl, hc⟩

theorem boxOf_noNaN : NoNaN (boxOf points) :=
  fun a => ⟨⟨_, boxOf_min points a⟩, ⟨_, boxOf_max points a⟩⟩

theorem boxOf_contains : Contains (boxOf points) points := by
  intro p hp a c hc
  have hmem : c ∈ coords points a := mem_coords.2 ⟨p, hp, hc⟩
  exact mem_range_boxOf.2 ⟨Finset.inf_le hmem, Finset.le_sup (f := id) hmem⟩

theorem coords_subset_range {box : Box3 F} (h : Contains box points) (hc : c ∈ coords points a) :
    c ∈ range box a := by
  obtain ⟨p, hp, hval⟩ := mem_coords.1 hc
  exact h p hp a c hval

/-- The box is contained in every box that contains the points: its bounds on an axis are
    coordinates of points, unless no coordinate there is a number and the box is empty. -/
theorem boxOf_within {box : Box3 F} (h : Contains box points) : Within (boxOf points) box := by
  intro a
  refine ⟨fun c hc => ?_, fun lo' hi' hlo' hhi' => ?_⟩
  · rw [mem_range_boxOf] at hc
    rcases (coords points a).eq_empty_or_nonempty with hempty | hne
    · rw [hempty, Finset.inf_empty, Finset.sup_empty] at hc
      exact absurd (hc.1.trans hc.2) (not_le.2 (ends_lt F))
    · obtain ⟨lo, hi, hlo, hhi, hle, -⟩ := coords_subset_range h (inf_mem hne)
      obtain ⟨lo₁, hi₁, hlo₁, hhi₁, -, hge⟩ := coords_subset_range h (sup_mem hne)
      rw [hhi, num.injEq] at hhi₁
      subst hhi₁
      exact ⟨lo, hi, hlo, hhi, hle.trans hc.1, hc.2.trans hge⟩
  · refine ⟨_, _, boxOf_min points a, boxOf_max points a, ?_, ?_⟩
    · refine Finset.le_inf (fun c hc => ?_)
      obtain ⟨lo, hi, hlo, -, hle, -⟩ := coords_subset_range h hc
      rw [hlo', num.injEq] at hlo
      exact hlo ▸ hle
    · refine Finset.sup_le (fun c hc => ?_)
      obtain ⟨lo, hi, -, hhi, -, hge⟩ := coords_subset_range h hc
      rw [hhi', num.injEq] at hhi
      exact hhi ▸ hge

theorem boxValues_ext {box box' : Box3 F}
    (hmin : ∀ a, value (coord box.min a) = value (coord box'.min a))
    (hmax : ∀ a, value (coord box.max a) = value (coord box'.max a)) :
    boxValues box = boxValues box' := by
  simp only [boxValues, pointValues, Box3.mk.injEq, Vec3.mk.injEq]
  exact ⟨⟨hmin .x, hmin .y, hmin .z⟩, ⟨hmax .x, hmax .y, hmax .z⟩⟩

/-- Neither the order of the points counts nor how often they occur. -/
theorem boxOf_congr (h : ∀ p, p ∈ points ↔ p ∈ points') :
    boxValues (boxOf points) = boxValues (boxOf points') := by
  have hcoords : ∀ a, coords points a = coords points' a := by
    intro a
    refine numbers_congr (fun v => ?_)
    simp only [List.mem_map, h]
  refine boxValues_ext (fun a => ?_) (fun a => ?_)
  · rw [boxOf_min, boxOf_min, hcoords]
  · rw [boxOf_max, boxOf_max, hcoords]

theorem coords_append : coords (points ++ points') a = coords points a ∪ coords points' a := by
  rw [coords, List.map_append, numbers_append]
  rfl

/-- Extending by the corners of a box whose lower bounds are below its upper ones. -/
theorem boxOf_append (h : ∀ a, ∃ p ∈ points', ∃ c, value (coord p a) = num c) :
    boxValues (libISBoxExtend (libISBoxExtend (boxOf points) (boxOf points').min)
      (boxOf points').max) = boxValues (boxOf (points ++ points')) := by
  have hle : ∀ a, (coords points' a).inf id ≤ (coords points' a).sup id := by
    intro a
    obtain ⟨p, hp, c, hc⟩ := h a
    have hmem : c ∈ coords points' a := mem_coords.2 ⟨p, hp, hc⟩
    exact (Finset.inf_le hmem).trans (Finset.le_sup (f := id) hmem)
  refine boxValues_ext (fun a => ?_) (fun a => ?_)
  · rw [extend_min, extend_min, boxOf_min, boxOf_min, boxOf_max, boxOf_min, stdMin_num, stdMin_num,
      coords_append, Finset.inf_union, inf_assoc, inf_eq_left.2 (hle a)]
  · rw [extend_max, extend_max, boxOf_max, boxOf_max, boxOf_min, boxOf_max, stdMax_num, stdMax_num,
      coords_append, Finset.sup_union, sup_assoc, sup_eq_right.2 (hle a)]

end BoxOf

/-- **Bounding boxes do not depend on order.** The box of a list of points has no NaN bound,
    contains every coordinate that is a number and is contained in every box that does. So it is the
    same for every list of the same points, in whatever order and however often each occurs; and a
    box is extended by another one's points by extending it by that one's two corners. -/
theorem bounding_box (points : List (Vec3 F)) :
    NoNaN (boxOf points) ∧ Contains (boxOf points) points ∧
      (∀ box, Contains box points → Within (boxOf points) box) ∧
      (∀ points', (∀ p, p ∈ points ↔ p ∈ points') →
        boxValues (boxOf points) = boxValues (boxOf points')) ∧
      ∀ points', (∀ a, ∃ p ∈ points', ∃ c, value (coord p a) = num c) →
        boxValues (libISBoxExtend (libISBoxExtend (boxOf points) (boxOf points').min)
          (boxOf points').max) = boxValues (boxOf (points ++ points')) :=
  ⟨boxOf_noNaN, boxOf_contains, fun _ => boxOf_within, fun _ => boxOf_congr,
    fun _ => boxOf_append⟩

/-- The points (1, NaN, -inf) and (-2, 0.5, 0). -/
def firstPoints : List (Vec3 FloatBits) :=
  [⟨0x3F800000, 0x7FC00000, 0xFF800000⟩, ⟨0xC0000000, 0x3F000000, 0⟩]

/-- The points (NaN, 1, inf) and (-inf, -2, 1). -/
def secondPoints : List (Vec3 FloatBits) :=
  [⟨0x7FC00000, 0x3F800000, 0x7F800000⟩, ⟨0xFF800000, 0xC0000000, 0x3F800000⟩]

/-- The box of both lists from the corners of the second one's, and the box of the first list from
    its reverse with every point twice. -/
theorem bounding_box_floats :
    boxValues (libISBoxExtend (libISBoxExtend (boxOf firstPoints) (boxOf secondPoints).min)
        (boxOf secondPoints).max) =
      boxValues (F := FloatBits)
        ⟨⟨0xFF800000, 0xC0000000, 0xFF800000⟩, ⟨0x3F800000, 0x3F800000, 0x7F800000⟩⟩ ∧
    boxValues (boxOf firstPoints) = boxValues (boxOf (firstPoints ++ firstPoints).reverse) := by
  obtain ⟨-, -, -, hsame, happend⟩ := bounding_box firstPoints
  constructor
  · have hnumbers : ∀ a, ∃ p ∈ secondPoints, ∃ c, value (coord p a) = num c := by
      intro a
      cases a
      · exact ⟨⟨0xFF800000, 0xC0000000, 0x3F800000⟩, by decide, ⊥, rfl⟩
      · exact ⟨⟨0x7FC00000, 0x3F800000, 0x7F800000⟩, by decide, _, rfl⟩
      · exact ⟨⟨0x7FC00000, 0x3F800000, 0x7F800000⟩, by decide, ⊤, rfl⟩
    rw [happend secondPoints hnumbers]
    decide
  · refine hsame _ (fun p => ?_)
    rw [List.mem_reverse, List.mem_append, or_self]

end LibIS.Bounds
