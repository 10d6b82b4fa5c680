import Mathlib.Data.List.Range
import Mathlib.Data.Set.Disjoint
import Mathlib.Tactic.Common
import Mathlib.Tactic.Positivity
import Mathlib.Tactic.Ring

set_option autoImplicit false

/-! # Assignment of simulation ranks to clients (`is_client.cpp`, `query`)

Every client computes its own interval of simulation ranks from the two sizes and its rank. The
intervals are the consecutive blocks `firstRegion`, `firstRegion + numRegions` of a balanced
division, so they tile `0 .. M - 1`. -/

namespace LibIS

/-! ## As the code computes it -/

/-- The `int`s that `SimulationConnection::query` computes before its loop. -/
structure Assignment where
  simsPerClient : Int
  mySims : Int
  extraOffset : Int
deriving DecidableEq, Repr

/-- The computation, with the truncating division of `int`. -/
def assignment (correctedSimSize size rank : Int) : Assignment :=
  let simsPerClient := correctedSimSize.tdiv size
  if correctedSimSize.tmod size ≠ 0 then
    { simsPerClient := simsPerClient
      mySims := if correctedSimSize.tmod size - rank > 0 then simsPerClient + 1 else simsPerClient
      extraOffset := min rank (correctedSimSize.tmod size) }
  else
    { simsPerClient := simsPerClient, mySims := simsPerClient, extraOffset := 0 }

/-- `regionId` in iteration `i` of the loop on the given rank. -/
def Assignment.regionId (a : Assignment) (rank : Int) (i : ℕ) : Int :=
  i + a.simsPerClient * rank + a.extraOffset

/-- The simulation ranks that client `rank` visits, in order. -/
def queriedRegions (correctedSimSize size rank : Int) : List Int :=
  let a := assignment correctedSimSize size rank
  (List.range a.mySims.toNat).map (a.regionId rank)

/-! ## The blocks of a balanced division -/

/-- The first element of block `c` when `m` elements are divided over `n` blocks. -/
def firstRegion (m n c : ℕ) : ℕ :=
  m / n * c + min c (m % n)

/-- The size of block `c`. -/
def numRegions (m n c : ℕ) : ℕ :=
  m / n + if c < m % n then 1 else 0

@[simp] theorem firstRegion_zero (m n : ℕ) : firstRegion m n 0 = 0 := by
  simp [firstRegion]

theorem firstRegion_succ (m n c : ℕ) :
    firstRegion m n (c + 1) = firstRegion m n c + numRegions m n c := by
  unfold firstRegion numRegions
  rw [Nat.mul_succ]
  split <;> omega

theorem firstRegion_last {m n : ℕ} (hn : 1 ≤ n) : firstRegion m n n = m := by
  have hmod : m % n < n := Nat.mod_lt m hn
  have hdiv : m / n * n + m % n = m := Nat.div_add_mod' m n
  rw [firstRegion, min_eq_right hmod.le, hdiv]

theorem firstRegion_mono (m n : ℕ) : Monotone (firstRegion m n) := by
  refine monotone_nat_of_le_succ (fun c => ?_)
  rw [firstRegion_succ]
  exact Nat.le_add_right _ _

/-- Element `s` lies in block `c`. -/
def InBlock (m n c s : ℕ) : Prop :=
  firstRegion m n c ≤ s ∧ s < firstRegion m n c + numRegions m n c

theorem InBlock.unique {m n c c' s : ℕ} (h : InBlock m n c s) (h' : InBlock m n c' s) :
    c = c' := by
  have hlt : ∀ a b, InBlock m n a s → InBlock m n b s → ¬ a < b := by
    intro a b ha hb hab
    have hmono := firstRegion_mono m n (Nat.succ_le_of_lt hab)
    rw [Nat.succ_eq_add_one, firstRegion_succ] at hmono
    have h1 := ha.2
    have h2 := hb.1
    omega
  exact le_antisymm (not_lt.1 (hlt c' c h' h)) (not_lt.1 (hlt c c' h h'))

/-- Every element below the end of the first `k` blocks lies in one of them. -/
theorem exists_block_of_lt (m n k s : ℕ) (h : s < firstRegion m n k) :
    ∃ c, c < k ∧ InBlock m n c s := by
  induction k with
  | zero =>
      rw [firstRegion_zero] at h
      omega
  | succ k ih =>
      by_cases hk : s < firstRegion m n k
      · obtain ⟨c, hc, hblock⟩ := ih hk
        exact ⟨c, by omega, hblock⟩
      · rw [firstRegion_succ] at h
        exact ⟨k, by omega, by omega, h⟩

theorem exists_block {m n s : ℕ} (hn : 1 ≤ n) (h : s < m) : ∃ c, c < n ∧ InBlock m n c s :=
  exists_block_of_lt m n n s (by rwa [firstRegion_last hn])

theorem InBlock.lt {m n c s : ℕ} (h : InBlock m n c s) (hn : 1 ≤ n) (hc : c < n) : s < m := by
  have hmono := firstRegion_mono m n (Nat.succ_le_of_lt hc)
  rw [Nat.succ_eq_add_one, firstRegion_succ, firstRegion_last hn] at hmono
  have hlt := h.2
  omega

theorem inBlock_zero {m n : ℕ} (hm : 1 ≤ m) (hn : 1 ≤ n) : InBlock m n 0 0 := by
  obtain ⟨c, -, hle, hlt⟩ := exists_block hn hm
  -- block 0 starts at 0, so if it were empty no later block could hold more
  have hnum : numRegions m n c ≤ numRegions m n 0 := by
    unfold numRegions
    split <;> split <;> omega
  constructor
  · rw [firstRegion_zero]
  · rw [firstRegion_zero]
    omega

/-- Listed one after the other, the first `k` blocks count upwards from zero. -/
theorem flatMap_blocks (m n k : ℕ) :
    (List.range k).flatMap
        (fun c => (List.range (numRegions m n c)).map (firstRegion m n c + ·)) =
      List.range (firstRegion m n k) := by
  induction k with
  | zero => simp
  | succ k ih =>
      rw [List.range_succ, List.flatMap_append, ih, List.flatMap_singleton, firstRegion_succ,
        List.range_add]

/-! ## The code computes the blocks -/

theorem assignment_natCast (m n c : ℕ) :
    assignment m n c =
      ⟨(m / n : ℕ), (numRegions m n c : ℕ), (min c (m % n) : ℕ)⟩ := by
  have hdiv : (m : Int).tdiv n = (m / n : ℕ) := (Int.ofNat_tdiv m n).symm
  have hmod : (m : Int).tmod n = (m % n : ℕ) := (Int.ofNat_tmod m n).symm
  unfold assignment numRegions
  rw [hdiv, hmod]
  by_cases hzero : m % n = 0
  · -- an even division takes the branch without an offset
    simp [hzero]
  · have hne : ((m % n : ℕ) : Int) ≠ 0 := by exact_mod_cast hzero
    rw [if_pos hne]
    by_cases hc : c < m % n
    · have hpos : ((m % n : ℕ) : Int) - c > 0 := by omega
      rw [if_pos hpos, if_pos hc]
      push_cast
      rfl
    · have hpos : ¬ ((m % n : ℕ) : Int) - c > 0 := by omega
      rw [if_neg hpos, if_neg hc]
      push_cast
      rfl

theorem regionId_natCast (m n c i : ℕ) :
    (assignment m n c).regionId c i = (firstRegion m n c + i : ℕ) := by
  rw [assignment_natCast, Assignment.regionId, firstRegion]
  push_cast
  ring

theorem queriedRegions_natCast (m n c : ℕ) :
    queriedRegions m n c =
      ((List.range (numRegions m n c)).map (firstRegion m n c + ·)).map Int.ofNat := by
  have hnum : (assignment m n c).mySims.toNat = numRegions m n c := by
    rw [assignment_natCast]
    exact Int.toNat_natCast _
  rw [queriedRegions]
  simp only [hnum, List.map_map]
  refine List.map_congr_left (fun i _ => ?_)
  rw [regionId_natCast]
  rfl

theorem mem_queriedRegions (m n c : ℕ) (r : Int) :
    r ∈ queriedRegions m n c ↔ ∃ s : ℕ, r = s ∧ InBlock m n c s := by
  rw [queriedRegions_natCast]
  simp only [List.mem_map, List.mem_range]
  constructor
  · rintro ⟨s, ⟨i, hi, rfl⟩, rfl⟩
    exact ⟨firstRegion m n c + i, rfl, by constructor <;> omega⟩
  · rintro ⟨s, rfl, hle, hlt⟩
    exact ⟨s, ⟨s - firstRegion m n c, by omega, by omega⟩, rfl⟩

/-- The `int`s of the computation stay between zero and the number of simulation ranks. -/
theorem assignment_fits {m n c : ℕ} (hn : 1 ≤ n) (hc : c < n) :
    (assignment m n c).simsPerClient * c ≤ m ∧ (assignment m n c).mySims ≤ m ∧
      (assignment m n c).extraOffset ≤ m := by
  have hmono := firstRegion_mono m n (Nat.succ_le_of_lt hc)
  rw [Nat.succ_eq_add_one, firstRegion_succ, firstRegion_last hn, firstRegion] at hmono
  rw [assignment_natCast]
  simp only
  refine ⟨?_, ?_, ?_⟩
  · have h : m / n * c ≤ m := by omega
    exact_mod_cast h
  · have h : numRegions m n c ≤ m := by omega
    exact_mod_cast h
  · have h : min c (m % n) ≤ m := by omega
    exact_mod_cast h

/-- **Balanced partition.** For any number of simulation ranks and of clients, the intervals the
    clients compute are pairwise disjoint and tile `0 .. M - 1` in rank order; their sizes differ by
    at most one, larger ones first; and simulation rank 0 is client 0's. -/
theorem assignment_partition (M N : ℕ) (hN : 1 ≤ N) :
    (∀ c c' : ℕ, c < N → c' < N → c ≠ c' →
      ∀ r, r ∈ queriedRegions M N c → r ∉ queriedRegions M N c') ∧
    (List.range N).flatMap (fun c : ℕ => queriedRegions M N c) =
      (List.range M).map Int.ofNat ∧
    (∀ c c' : ℕ, c < N → c' < N →
      (assignment M N c).mySims ≤ (assignment M N c').mySims + 1) ∧
    (∀ c c' : ℕ, c ≤ c' → c' < N →
      (assignment M N c').mySims ≤ (assignment M N c).mySims) ∧
    (1 ≤ M → 0 ∈ queriedRegions M N 0) ∧
    (∀ c : ℕ, c < N → ∀ i : ℕ, i < (assignment M N c).mySims →
      0 ≤ (assignment M N c).simsPerClient * c ∧ (assignment M N c).simsPerClient * c ≤ M ∧
      (assignment M N c).regionId c i ∈ queriedRegions M N c ∧
      (assignment M N c).regionId c i < M) := by
  refine ⟨?_, ?_, ?_, ?_, ?_, ?_⟩
  · intro c c' _ _ hne r hr hr'
    obtain ⟨s, rfl, hs⟩ := (mem_queriedRegions M N c r).1 hr
    obtain ⟨s', hs', hblock⟩ := (mem_queriedRegions M N c' _).1 hr'
    have heq : s = s' := by exact_mod_cast hs'
    subst heq
    exact hne (hs.unique hblock)
  · have hblocks := flatMap_blocks M N N
    rw [firstRegion_last hN] at hblocks
    rw [← hblocks, List.map_flatMap]
    exact List.flatMap_congr (fun c _ => queriedRegions_natCast M N c)
  · intro c c' _ _
    rw [assignment_natCast, assignment_natCast]
    unfold numRegions
    split <;> split <;> push_cast <;> omega
  · intro c c' hle _
    rw [assignment_natCast, assignment_natCast]
    unfold numRegions
    split <;> split <;> push_cast <;> omega
  · intro hM
    exact (mem_queriedRegions M N 0 0).2 ⟨0, rfl, inBlock_zero hM hN⟩
  · intro c hc i hi
    have hfits := assignment_fits (m := M) hN hc
    have hnum : i < numRegions M N c := by
      rw [assignment_natCast] at hi
      simp only at hi
      exact_mod_cast hi
    have hblock : InBlock M N c (firstRegion M N c + i) := ⟨by omega, by omega⟩
    refine ⟨?_, hfits.1, ?_, ?_⟩
    · rw [assignment_natCast]
      positivity
    · exact (mem_queriedRegions M N c _).2 ⟨_, regionId_natCast M N c i, hblock⟩
    · rw [regionId_natCast]
      exact_mod_cast hblock.lt hN hc

/-- Three simulation ranks and two clients. -/
theorem assignment_partition_three_two :
    1 ≤ 2 ∧ (List.range 2).flatMap (fun c : ℕ => queriedRegions 3 2 c) =
      (List.range 3).map Int.ofNat :=
  ⟨by decide, (assignment_partition 3 2 (by decide)).2.1⟩

end LibIS
