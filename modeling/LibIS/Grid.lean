import LibIS.Common
import LibIS.Library.Dealing
import Mathlib.Data.Int.ConditionallyCompleteOrder
import Mathlib.Data.Nat.Factors
import Mathlib.Data.Nat.Sqrt
import Mathlib.Data.Set.Function
import Mathlib.Tactic.Linarith
import Mathlib.Tactic.Positivity
import Mathlib.Tactic.Ring

set_option autoImplicit false

/-! # Grids of ranks (`vec.h`, `grid_util.cpp`, `example_sim.cpp`)

`compute_grid` factors a number of ranks by trial division and deals the factors to the three axes
in turn; a simulation then takes the position of its rank in the grid. What the loop keeps is
`dealt`: the grid so far with the factors that are still to be dealt out. -/

open Dealing

namespace LibIS

/-! ## `int` arithmetic -/

/-- What goes wrong in a computation with `int`s, and the exception of `vec3::operator[]`. -/
inductive GridFault where
  | overflow
  | divisionByZero
  | invalidIndex
deriving DecidableEq, Repr

/-- The result of an `int` operation, which has to be an `int`. -/
def checkInt (v : ℤ) : Except GridFault ℤ :=
  if -2 ^ 31 ≤ v ∧ v < 2 ^ 31 then .ok v else .error .overflow

/-- `a / b`. -/
def intDiv (a b : ℤ) : Except GridFault ℤ :=
  if b = 0 then .error .divisionByZero else checkInt (a.tdiv b)

/-- `a % b`, which is undefined where `a / b` is. -/
def intRem (a b : ℤ) : Except GridFault ℤ := do
  let _ ← intDiv a b
  return a.tmod b

/-! ## As the code computes it -/

/-- The loop of `compute_divisor` over `i`, `n` times at most. -/
def divisorLoop (x divisor : ℤ) : ℕ → ℤ → Except GridFault (Bool × ℤ)
  | 0, _ => return (false, divisor)
  | n + 1, i => do
      let r ← intRem x i
      if r = 0 then
        return (true, i)
      else do
        let i ← checkInt (i + 1)
        divisorLoop x divisor n i

/-- `compute_divisor`: whether there is a divisor, and the variable for it. The loop goes from 2 to
    the truncated square root. -/
def computeDivisor (x divisor : ℤ) : Except GridFault (Bool × ℤ) :=
  let upperBound := Nat.sqrt x.toNat
  divisorLoop x divisor (upperBound - 1) 2

/-- An assignment to `v[i]`. -/
def Vec3.modify {α : Type} (v : Vec3 α) (i : ℤ) (f : α → Except GridFault α) :
    Except GridFault (Vec3 α) :=
  if i = 0 then do
    let x ← f v.x
    return { v with x := x }
  else if i = 1 then do
    let y ← f v.y
    return { v with y := y }
  else if i = 2 then do
    let z ← f v.z
    return { v with z := z }
  else
    .error .invalidIndex

/-- The variables of `compute_grid`. -/
structure GridState where
  grid : Vec3 ℤ
  axis : ℤ
  divisor : ℤ
  num : ℤ
deriving DecidableEq, Repr

/-- A turn of the loop of `compute_grid`: whether its condition held, and the variables then. -/
def gridStep (s : GridState) : Except GridFault (Bool × GridState) := do
  let (found, divisor) ← computeDivisor s.num s.divisor
  if found then do
    let grid ← s.grid.modify s.axis (fun v => checkInt (v * divisor))
    let num ← intDiv s.num divisor
    let axis ← checkInt (s.axis + 1)
    let axis ← intRem axis 3
    return (true, ⟨grid, axis, divisor, num⟩)
  else
    return (false, { s with divisor := divisor })

/-- The loop of `compute_grid`, for `fuel` turns at most: `none` when it has not ended. -/
def gridLoop : ℕ → GridState → Option (Except GridFault GridState)
  | 0, _ => none
  | fuel + 1, s =>
      match gridStep s with
      | .error e => some (.error e)
      | .ok (true, s') => gridLoop fuel s'
      | .ok (false, s') => some (.ok s')

/-- What `compute_grid` does after its loop: the factor that is left is dealt out too. -/
def finishGrid (s : GridState) : Except GridFault (Vec3 ℤ) :=
  if s.num ≠ 1 then s.grid.modify s.axis (fun v => checkInt (v * s.num)) else return s.grid

/-- `compute_grid`. -/
def computeGrid (fuel : ℕ) (num : ℤ) : Option (Except GridFault (Vec3 ℤ)) :=
  (gridLoop fuel ⟨⟨1, 1, 1⟩, 0, 0, num⟩).map (fun s => s >>= finishGrid)

/-- The `brick_id` of a rank. -/
def brickId (grid : Vec3 ℤ) (rank : ℤ) : Except GridFault (Vec3 ℤ) := do
  let x ← intRem rank grid.x
  let row ← intDiv rank grid.x
  let y ← intRem row grid.y
  let layer ← checkInt (grid.x * grid.y)
  let z ← intDiv rank layer
  return ⟨x, y, z⟩

/-! ## The arithmetic in range -/

section Arithmetic

theorem ok_bind {α β : Type} (a : α) (f : α → Except GridFault β) :
    (Except.ok a >>= f) = f a := rfl

theorem checkInt_natCast {n : ℕ} (h : n < 2 ^ 31) : checkInt n = .ok (n : ℤ) := by
  rw [checkInt, if_pos (by omega)]

theorem intDiv_natCast {a b : ℕ} (ha : a < 2 ^ 31) (hb : b ≠ 0) :
    intDiv a b = .ok ((a / b : ℕ) : ℤ) := by
  have hle := Nat.div_le_self a b
  rw [intDiv, if_neg (by omega), ← Int.ofNat_tdiv]
  exact checkInt_natCast (by omega)

theorem intRem_natCast {a b : ℕ} (ha : a < 2 ^ 31) (hb : b ≠ 0) :
    intRem a b = .ok ((a % b : ℕ) : ℤ) := by
  rw [intRem, intDiv_natCast ha hb, Int.ofNat_tmod]
  rfl

end Arithmetic

/-! ## The smallest divisor -/

/-- While nothing below `i` divides `n`, the loop looks for the smallest divisor. -/
theorem divisorLoop_eq {n : ℕ} (hn : n < 2 ^ 31) (divisor : ℤ) (k i : ℕ)
    (hi : 2 ≤ i) (hle : i ≤ n.minFac) (hk : i + k < 2 ^ 31) :
    divisorLoop n divisor k i =
      .ok (if n.minFac < i + k then (true, (n.minFac : ℤ)) else (false, divisor)) := by
  induction k generalizing i with
  | zero =>
      rw [divisorLoop, if_neg (by omega)]
      rfl
  | succ k ih =>
      rw [divisorLoop, intRem_natCast hn (by omega)]
      show (if ((n % i : ℕ) : ℤ) = 0 then _ else _) = _
      by_cases hdvd : n % i = 0
      · have hfac : n.minFac = i :=
          le_antisymm (Nat.minFac_le_of_dvd hi (Nat.dvd_of_mod_eq_zero hdvd)) hle
        rw [if_pos (by omega), hfac, if_pos (by omega)]
        rfl
      · have hne : i ≠ n.minFac := by
          rintro rfl
          exact hdvd (Nat.mod_eq_zero_of_dvd n.minFac_dvd)
        have hcheck : checkInt ((i : ℤ) + 1) = .ok ((i + 1 : ℕ) : ℤ) := by
          rw [← Nat.cast_succ]
          exact checkInt_natCast (by omega)
        rw [if_neg (by omega), hcheck]
        show divisorLoop n divisor k ((i + 1 : ℕ) : ℤ) = _
        rw [ih (i + 1) (by omega) (by omega) (by omega), Nat.add_right_comm i 1 k, Nat.add_assoc]

/-- Of a composite number the smallest prime factor is found. -/
theorem computeDivisor_composite {n : ℕ} (hn : n < 2 ^ 31) (hone : 1 < n) (hprime : ¬ n.Prime)
    (divisor : ℤ) : computeDivisor n divisor = .ok (true, (n.minFac : ℤ)) := by
  have htwo : 2 ≤ n.minFac := (Nat.minFac_prime (by omega)).two_le
  have hsqrt : n.minFac ≤ n.sqrt := by
    rw [Nat.le_sqrt']
    exact Nat.minFac_sq_le_self (by omega) hprime
  have hlt : n.sqrt < n := Nat.sqrt_lt_self hone
  have hloop := divisorLoop_eq hn divisor (n.sqrt - 1) 2 (le_refl 2) htwo (by omega)
  rw [if_pos (by omega)] at hloop
  rw [computeDivisor, Int.toNat_natCast]
  exact hloop

/-- A prime has none up to its root, and neither has 1. -/
theorem computeDivisor_done {n : ℕ} (hn : n < 2 ^ 31) (hdone : n = 1 ∨ n.Prime) (divisor : ℤ) :
    computeDivisor n divisor = .ok (false, divisor) := by
  rw [computeDivisor, Int.toNat_natCast]
  rcases hdone with rfl | hprime
  · rfl
  · have htwo := hprime.two_le
    have hfac := hprime.minFac_eq
    have hlt : n.sqrt < n := Nat.sqrt_lt_self (by omega)
    have hloop := divisorLoop_eq hn divisor (n.sqrt - 1) 2 (le_refl 2) (by omega)
      (by omega)
    rw [if_neg (by omega)] at hloop
    exact hloop

/-! ## Dealing out the factors -/

section Dealt

/-- A grid of natural numbers as one of `int`s. -/
def Vec3.ints (g : Vec3 ℕ) : Vec3 ℤ :=
  ⟨g.x, g.y, g.z⟩

/-- The number of cells of a grid. -/
def Vec3.volume (g : Vec3 ℕ) : ℕ :=
  g.x * g.y * g.z

/-- Every axis has a cell. -/
structure Vec3.Positive (g : Vec3 ℕ) : Prop where
  x : 1 ≤ g.x
  y : 1 ≤ g.y
  z : 1 ≤ g.z

/-- A grid with one axis multiplied. -/
def Vec3.times (g : Vec3 ℕ) (axis p : ℕ) : Vec3 ℕ where
  x := (if axis = 0 then p else 1) * g.x
  y := (if axis = 1 then p else 1) * g.y
  z := (if axis = 2 then p else 1) * g.z

/-- A grid with the prime factors of `n`, in non-decreasing order, dealt to its axes in turn. -/
def Vec3.dealt (g : Vec3 ℕ) (axis n : ℕ) : Vec3 ℕ where
  x := g.x * share 3 0 axis n.primeFactorsList
  y := g.y * share 3 1 axis n.primeFactorsList
  z := g.z * share 3 2 axis n.primeFactorsList

variable {g : Vec3 ℕ} {axis p n : ℕ}

theorem axis_cases (haxis : axis < 3) : axis = 0 ∨ axis = 1 ∨ axis = 2 := by
  omega

theorem Vec3.volume_times (haxis : axis < 3) : (g.times axis p).volume = g.volume * p := by
  rcases axis_cases haxis with rfl | rfl | rfl <;> simp [Vec3.volume, Vec3.times] <;> ring

theorem Vec3.Positive.times (hg : g.Positive) (hp : 1 ≤ p) : (g.times axis p).Positive := by
  obtain ⟨hx, hy, hz⟩ := hg
  constructor <;> simp only [Vec3.times] <;> split <;> nlinarith

theorem Vec3.Positive.le_volume (hg : g.Positive) :
    g.x ≤ g.volume ∧ g.y ≤ g.volume ∧ g.z ≤ g.volume := by
  obtain ⟨hx, hy, hz⟩ := hg
  have hxy : 1 ≤ g.x * g.y := Nat.mul_pos hx hy
  refine ⟨?_, ?_, ?_⟩
  · exact (Nat.le_mul_of_pos_right _ hy).trans (Nat.le_mul_of_pos_right _ hz)
  · exact (Nat.le_mul_of_pos_left _ hx).trans (Nat.le_mul_of_pos_right _ hz)
  · exact Nat.le_mul_of_pos_left _ hxy

/-- The smallest factor goes to the axis whose turn it is. -/
theorem Vec3.dealt_minFac (haxis : axis < 3) (hn : 1 < n) :
    g.dealt axis n = (g.times axis n.minFac).dealt ((axis + 1) % 3) (n / n.minFac) := by
  have hlist : n.primeFactorsList = n.minFac :: (n / n.minFac).primeFactorsList := by
    obtain ⟨m, rfl⟩ : ∃ m, n = m + 2 := ⟨n - 2, by omega⟩
    exact Nat.primeFactorsList_add_two m
  simp only [Vec3.dealt, Vec3.times, hlist, share_cons, share_mod, Nat.mod_eq_of_lt haxis,
    Vec3.mk.injEq]
  refine ⟨?_, ?_, ?_⟩ <;> ring

theorem Vec3.dealt_one : g.dealt axis 1 = g := by
  simp [Vec3.dealt]

theorem Vec3.dealt_prime (haxis : axis < 3) (hn : n.Prime) : g.dealt axis n = g.times axis n := by
  simp only [Vec3.dealt, Vec3.times, Nat.primeFactorsList_prime hn, share_cons, share_nil,
    Nat.mod_eq_of_lt haxis, Vec3.mk.injEq]
  refine ⟨?_, ?_, ?_⟩ <;> ring

theorem Vec3.volume_dealt (hn : n ≠ 0) : (g.dealt axis n).volume = g.volume * n := by
  have hprod := prod_share (k := 3) (by decide) axis n.primeFactorsList
  rw [Finset.prod_range_succ, Finset.prod_range_succ, Finset.prod_range_one,
    Nat.prod_primeFactorsList hn] at hprod
  calc (g.dealt axis n).volume
      = g.volume * (share 3 0 axis n.primeFactorsList * share 3 1 axis n.primeFactorsList *
          share 3 2 axis n.primeFactorsList) := by
        simp only [Vec3.dealt, Vec3.volume]
        ring
    _ = g.volume * n := by rw [hprod]

theorem Vec3.modify_ints (haxis : axis < 3) (hg : g.Positive) (hlt : g.volume * p < 2 ^ 31) :
    g.ints.modify axis (fun v => checkInt (v * p)) = .ok (g.times axis p).ints := by
  have hcheck : ∀ v, v ≤ g.volume → checkInt ((v : ℤ) * p) = .ok ((p * v : ℕ) : ℤ) := by
    intro v hv
    have hle : v * p ≤ g.volume * p := Nat.mul_le_mul_right p hv
    rw [← Nat.cast_mul, checkInt_natCast (by omega), Nat.mul_comm]
  obtain ⟨hx, hy, hz⟩ := hg.le_volume
  rcases axis_cases haxis with rfl | rfl | rfl
  · simp [Vec3.modify, Vec3.ints, Vec3.times, hcheck g.x hx]
  · simp [Vec3.modify, Vec3.ints, Vec3.times, hcheck g.y hy]
  · simp [Vec3.modify, Vec3.ints, Vec3.times, hcheck g.z hz]

end Dealt

/-! ## The loop -/

section Loop

variable {g : Vec3 ℕ} {axis n : ℕ}

/-- The variables of `compute_grid` while `n` is left to be factored. -/
structure GridState.At (s : GridState) (g : Vec3 ℕ) (axis n : ℕ) : Prop where
  grid_eq : s.grid = g.ints
  axis_eq : s.axis = axis
  num_eq : s.num = n
  axis_lt : axis < 3
  positive : g.Positive
  n_pos : 1 ≤ n
  volume_lt : g.volume * n < 2 ^ 31

variable {s : GridState}

theorem GridState.At.n_lt (h : s.At g axis n) : n < 2 ^ 31 := by
  have hone : 1 ≤ g.volume := Nat.mul_pos (Nat.mul_pos h.positive.x h.positive.y) h.positive.z
  have hle : n ≤ g.volume * n := Nat.le_mul_of_pos_left n hone
  exact lt_of_le_of_lt hle h.volume_lt

/-- A turn of the loop deals out the smallest prime factor of a composite number. -/
theorem GridState.At.step_composite (h : s.At g axis n) (hone : 1 < n) (hprime : ¬ n.Prime) :
    ∃ s', gridStep s = .ok (true, s') ∧
      s'.At (g.times axis n.minFac) ((axis + 1) % 3) (n / n.minFac) := by
  obtain ⟨grid, axis', divisor, num⟩ := s
  have hn := h.n_lt
  obtain ⟨rfl, rfl, rfl, haxis, hg, -, hlt⟩ := h
  have htwo : 2 ≤ n.minFac := (Nat.minFac_prime (by omega)).two_le
  have hdvd : n.minFac * (n / n.minFac) = n := Nat.mul_div_cancel' n.minFac_dvd
  have hle : n.minFac ≤ n := Nat.minFac_le (by omega)
  have hfits : g.volume * n.minFac < 2 ^ 31 :=
    lt_of_le_of_lt (Nat.mul_le_mul_left _ hle) hlt
  have hturn : checkInt ((axis : ℤ) + 1) = .ok ((axis + 1 : ℕ) : ℤ) := by
    rw [← Nat.cast_succ]
    exact checkInt_natCast (by omega)
  have hrem : intRem ((axis + 1 : ℕ) : ℤ) 3 = .ok (((axis + 1) % 3 : ℕ) : ℤ) := by
    have h := intRem_natCast (a := axis + 1) (b := 3) (by omega) (by decide)
    rwa [Nat.cast_ofNat] at h
  refine ⟨⟨(g.times axis n.minFac).ints, ((axis + 1) % 3 : ℕ), n.minFac, (n / n.minFac : ℕ)⟩,
    ?_, ?_⟩
  · have hmodify := Vec3.modify_ints haxis hg hfits
    have hdiv := intDiv_natCast (b := n.minFac) hn (by omega)
    unfold gridStep
    dsimp only
    rw [computeDivisor_composite hn hone hprime, ok_bind]
    dsimp only
    rw [if_pos rfl, hmodify, ok_bind, hdiv, ok_bind, hturn, ok_bind, hrem, ok_bind]
    rfl
  · refine ⟨rfl, rfl, rfl, Nat.mod_lt _ (by decide), hg.times (by omega),
      Nat.div_pos hle (by omega), ?_⟩
    rw [Vec3.volume_times haxis, Nat.mul_assoc, hdvd]
    exact hlt

/-- The loop ends at a prime and at 1, and leaves the variables as they are. -/
theorem GridState.At.step_done (h : s.At g axis n) (hdone : n = 1 ∨ n.Prime) :
    gridStep s = .ok (false, s) := by
  rw [gridStep, h.num_eq, computeDivisor_done h.n_lt hdone, ← h.num_eq]
  rfl

/-- What the loop keeps: the grid with the factors that are left dealt out. It ends after fewer than
    `n` turns. -/
theorem GridState.At.loop (h : s.At g axis n) {fuel : ℕ} (hfuel : n ≤ fuel) :
    ∃ s' g' axis' n', gridLoop fuel s = some (.ok s') ∧ s'.At g' axis' n' ∧
      (n' = 1 ∨ n'.Prime) ∧ g'.dealt axis' n' = g.dealt axis n := by
  induction fuel generalizing s g axis n with
  | zero => exact absurd h.n_pos (by omega)
  | succ fuel ih =>
      by_cases hdone : n = 1 ∨ n.Prime
      · refine ⟨s, g, axis, n, ?_, h, hdone, rfl⟩
        rw [gridLoop, h.step_done hdone]
      · obtain ⟨hne, hprime⟩ := not_or.1 hdone
        have hone : 1 < n := lt_of_le_of_ne h.n_pos (Ne.symm hne)
        have htwo : 2 ≤ n.minFac := (Nat.minFac_prime hne).two_le
        have hless : n / n.minFac < n := Nat.div_lt_self (by omega) htwo
        obtain ⟨s', hstep, hat⟩ := h.step_composite hone hprime
        obtain ⟨s'', g'', axis'', n'', hloop, hat'', hdone'', hdealt⟩ := ih hat (by omega)
        refine ⟨s'', g'', axis'', n'', ?_, hat'', hdone'', ?_⟩
        · rw [gridLoop, hstep]
          exact hloop
        · rw [hdealt, ← Vec3.dealt_minFac h.axis_lt hone]

/-- After the loop, the factor that is left is dealt out. -/
theorem GridState.At.finish (h : s.At g axis n) (hdone : n = 1 ∨ n.Prime) :
    finishGrid s = .ok (g.dealt axis n).ints := by
  rw [finishGrid, h.num_eq, h.grid_eq, h.axis_eq]
  rcases hdone with rfl | hprime
  · rw [if_neg (by simp), Vec3.dealt_one]
    rfl
  · have htwo := hprime.two_le
    rw [if_pos (by omega), Vec3.modify_ints h.axis_lt h.positive h.volume_lt,
      Vec3.dealt_prime h.axis_lt hprime]

/-- `compute_grid` returns: the factors are dealt to three axes of one cell, the first axis first.
    -/
theorem computeGrid_eq {num : ℕ} (hpos : 1 ≤ num) (hlt : num < 2 ^ 31) {fuel : ℕ}
    (hfuel : num ≤ fuel) :
    computeGrid fuel num = some (.ok ((⟨1, 1, 1⟩ : Vec3 ℕ).dealt 0 num).ints) := by
  have hstart : (⟨⟨1, 1, 1⟩, 0, 0, num⟩ : GridState).At ⟨1, 1, 1⟩ 0 num :=
    ⟨rfl, rfl, rfl, by decide, ⟨le_refl 1, le_refl 1, le_refl 1⟩, hpos, by
      simpa [Vec3.volume] using hlt⟩
  obtain ⟨s, g, axis, n, hloop, hat, hdone, hdealt⟩ := hstart.loop hfuel
  rw [computeGrid, hloop, Option.map_some, ← hdealt]
  exact congrArg some (hat.finish hdone)

end Loop

/-! ## The cells -/

section Cells

/-- The cell of a rank, by the formula that simulations use. -/
def cellOf (grid : Vec3 ℤ) (rank : ℤ) : Vec3 ℤ :=
  ⟨rank % grid.x, rank / grid.x % grid.y, rank / (grid.x * grid.y)⟩

/-- The cells of a grid. -/
def cells (grid : Vec3 ℤ) : Set (Vec3 ℤ) :=
  { c | (0 ≤ c.x ∧ c.x < grid.x) ∧ (0 ≤ c.y ∧ c.y < grid.y) ∧ (0 ≤ c.z ∧ c.z < grid.z) }

variable {grid : Vec3 ℤ}

theorem rank_of_cell (hx : 0 < grid.x) (rank : ℤ) :
    (cellOf grid rank).x + grid.x * ((cellOf grid rank).y + grid.y * (cellOf grid rank).z) =
      rank := by
  have hcolumn := Int.emod_add_mul_ediv rank grid.x
  have hrow := Int.emod_add_mul_ediv (rank / grid.x) grid.y
  rw [Int.ediv_ediv_of_nonneg hx.le] at hrow
  simp only [cellOf]
  rw [hrow, hcolumn]

/-- Different ranks have different cells, and every cell has its rank. -/
theorem cellOf_bijOn (grid : Vec3 ℤ) (hx : 0 < grid.x) (hy : 0 < grid.y) :
    Set.BijOn (cellOf grid) (Set.Ico 0 (grid.x * grid.y * grid.z)) (cells grid) := by
  have hxy : 0 < grid.x * grid.y := mul_pos hx hy
  refine ⟨?_, ?_, ?_⟩
  · rintro rank ⟨hrank, hlt⟩
    exact ⟨⟨Int.emod_nonneg _ hx.ne', Int.emod_lt_of_pos _ hx⟩,
      ⟨Int.emod_nonneg _ hy.ne', Int.emod_lt_of_pos _ hy⟩,
      ⟨Int.ediv_nonneg hrank hxy.le, Int.ediv_lt_of_lt_mul hxy (by rwa [mul_comm])⟩⟩
  · intro rank _ rank' _ hcell
    rw [← rank_of_cell hx rank, hcell, rank_of_cell hx rank']
  · rintro ⟨cx, cy, cz⟩ ⟨⟨hcx, hcx'⟩, ⟨hcy, hcy'⟩, ⟨hcz, hcz'⟩⟩
    simp only at hcx hcx' hcy hcy' hcz hcz'
    have hcolumn : (cx + grid.x * (cy + grid.y * cz)) / grid.x = cy + grid.y * cz := by
      rw [Int.add_mul_ediv_left _ _ hx.ne', Int.ediv_eq_zero_of_lt hcx hcx', zero_add]
    have hlayer : (cy + grid.y * cz) / grid.y = cz := by
      rw [Int.add_mul_ediv_left _ _ hy.ne', Int.ediv_eq_zero_of_lt hcy hcy', zero_add]
    refine ⟨cx + grid.x * (cy + grid.y * cz), ⟨by positivity, ?_⟩, ?_⟩
    · nlinarith [mul_nonneg hx.le (mul_nonneg hy.le (by omega : 0 ≤ grid.z - 1 - cz)),
        mul_nonneg hx.le (by omega : 0 ≤ grid.y - 1 - cy)]
    · rw [cellOf, hcolumn, ← Int.ediv_ediv_of_nonneg hx.le, hcolumn, hlayer,
        Int.add_mul_emod_self_left, Int.add_mul_emod_self_left, Int.emod_eq_of_lt hcx hcx',
        Int.emod_eq_of_lt hcy hcy']

/-- The `int` computation of the cell of a rank. -/
theorem brickId_eq {g : Vec3 ℕ} (hg : g.Positive) (hlt : g.volume < 2 ^ 31) {rank : ℕ}
    (hrank : rank < 2 ^ 31) : brickId g.ints rank = .ok (cellOf g.ints rank) := by
  obtain ⟨hx, hy, hz⟩ := hg
  have hlayer : g.x * g.y < 2 ^ 31 :=
    lt_of_le_of_lt (Nat.le_mul_of_pos_right _ hz) hlt
  have hrow : rank / g.x < 2 ^ 31 := lt_of_le_of_lt (Nat.div_le_self _ _) hrank
  have hcheck : checkInt ((g.x : ℤ) * g.y) = .ok ((g.x * g.y : ℕ) : ℤ) := by
    rw [← Nat.cast_mul]
    exact checkInt_natCast hlayer
  have hxy : g.x * g.y ≠ 0 := (Nat.mul_pos hx hy).ne'
  simp only [brickId, Vec3.ints, intRem_natCast hrank (by omega : g.x ≠ 0),
    intDiv_natCast hrank (by omega : g.x ≠ 0), intRem_natCast hrow (by omega : g.y ≠ 0), hcheck,
    intDiv_natCast hrank hxy, ok_bind, cellOf]
  rfl

end Cells

/-- **Grid decomposition.** For every number of ranks `compute_grid` returns, without leaving the
    range of `int`: the axes are the products of the prime factors, in non-decreasing order, dealt
    out in turn; there is a cell for each rank, and the formula for the cell of a rank, which stays
    in the range of `int` too, is a bijection from the ranks to the cells. -/
theorem grid_decomposition (num : ℤ) (hpos : 1 ≤ num) (hlt : num < 2 ^ 31) :
    ∃ grid : Vec3 ℤ, (∃ turns, ∀ fuel, turns ≤ fuel → computeGrid fuel num = some (.ok grid)) ∧
      grid = ⟨(share 3 0 0 num.toNat.primeFactorsList : ℕ),
        (share 3 1 0 num.toNat.primeFactorsList : ℕ),
        (share 3 2 0 num.toNat.primeFactorsList : ℕ)⟩ ∧
      (1 ≤ grid.x ∧ 1 ≤ grid.y ∧ 1 ≤ grid.z) ∧
      grid.x * grid.y * grid.z = num ∧
      (∀ rank, 0 ≤ rank → rank < num → brickId grid rank = .ok (cellOf grid rank)) ∧
      Set.BijOn (cellOf grid) (Set.Ico 0 num) (cells grid) := by
  obtain ⟨n, rfl⟩ := Int.eq_ofNat_of_zero_le (by omega : 0 ≤ num)
  have hpos' : 1 ≤ n := by omega
  have hlt' : n < 2 ^ 31 := by omega
  have hvolume : ((⟨1, 1, 1⟩ : Vec3 ℕ).dealt 0 n).volume = n := by
    rw [Vec3.volume_dealt (by omega)]
    simp [Vec3.volume]
  have hg : ((⟨1, 1, 1⟩ : Vec3 ℕ).dealt 0 n).Positive := by
    have hne : ((⟨1, 1, 1⟩ : Vec3 ℕ).dealt 0 n).volume ≠ 0 := by omega
    unfold Vec3.volume at hne
    exact ⟨Nat.one_le_iff_ne_zero.2 (fun h => hne (by rw [h]; simp)),
      Nat.one_le_iff_ne_zero.2 (fun h => hne (by rw [h]; simp)),
      Nat.one_le_iff_ne_zero.2 (fun h => hne (by rw [h]; simp))⟩
  refine ⟨((⟨1, 1, 1⟩ : Vec3 ℕ).dealt 0 n).ints, ⟨n, fun fuel => computeGrid_eq hpos' hlt'⟩, ?_, ?_,
    ?_, ?_, ?_⟩
  · simp [Vec3.dealt, Vec3.ints]
  · obtain ⟨hx, hy, hz⟩ := hg
    simp only [Vec3.ints]
    omega
  · simp only [Vec3.ints, ← Nat.cast_mul]
    exact congrArg Nat.cast hvolume
  · intro rank hrank hless
    obtain ⟨r, rfl⟩ := Int.eq_ofNat_of_zero_le hrank
    exact brickId_eq hg (by omega) (by omega)
  · have hcells := cellOf_bijOn ((⟨1, 1, 1⟩ : Vec3 ℕ).dealt 0 n).ints
      (Int.natCast_pos.2 hg.x) (Int.natCast_pos.2 hg.y)
    have hnum : ((⟨1, 1, 1⟩ : Vec3 ℕ).dealt 0 n).ints.x * ((⟨1, 1, 1⟩ : Vec3 ℕ).dealt 0 n).ints.y *
        ((⟨1, 1, 1⟩ : Vec3 ℕ).dealt 0 n).ints.z = n := by
      simp only [Vec3.ints, ← Nat.cast_mul]
      exact congrArg Nat.cast hvolume
    rwa [hnum] at hcells

/-- Twelve ranks: 2, 2 and 3 go to an axis each. -/
theorem grid_decomposition_twelve : ∃ grid : Vec3 ℤ,
    (∃ turns, ∀ fuel, turns ≤ fuel → computeGrid fuel 12 = some (.ok grid)) ∧
      grid.x * grid.y * grid.z = 12 := by
  obtain ⟨grid, hreturns, -, -, hvolume, -, -⟩ :=
    grid_decomposition 12 (by decide) (by decide)
  exact ⟨grid, hreturns, hvolume⟩

end LibIS
