import LibIS.Library.Bytes
import Mathlib.Algebra.BigOperators.Group.List.Basic
import Mathlib.Tactic.Common

set_option autoImplicit false

/-! # The transfer loops (`intercomm.cpp`, `SocketInterComm::send` / `recv`)

Both loops repeat one system call until as many bytes have been moved as were asked for. The result
of the call goes through an `int` and is added to the counter as it is, so a call that fails takes
one byte back: at the start of a transfer that leaves the memory, later the byte is moved again. -/

namespace LibIS

/-- The system call of a loop. -/
inductive SysCall where
  | send
  | recv
deriving DecidableEq, Repr

/-- A system call on `length` bytes of memory from `data + offset` on. -/
structure Request where
  call : SysCall
  offset : UInt64
  length : UInt64
deriving DecidableEq, Repr

/-- A call of `send` or `recv` at the head of its loop. The counter is `nsent` or `nrecv`. -/
structure Transfer where
  call : SysCall
  size : UInt64
  counter : UInt64
deriving DecidableEq, Repr

/-- `SocketInterComm::send`, up to its loop. -/
def SocketInterComm.send (size : UInt64) : Transfer :=
  ⟨.send, size, 0⟩

/-- `SocketInterComm::recv`, up to its loop. -/
def SocketInterComm.recv (size : UInt64) : Transfer :=
  ⟨.recv, size, 0⟩

namespace Transfer

/-- The system call of the next round, `none` when the loop has ended. -/
def request (t : Transfer) : Option Request :=
  if t.counter ≠ t.size then some ⟨t.call, t.counter, t.size - t.counter⟩ else none

/-- The rest of a round: the result is stored in an `int`, which is added to a `size_t`. -/
def round (t : Transfer) (ret : Int64) : Transfer :=
  { t with counter := t.counter + ret.toInt32.toInt64.toUInt64 }

@[simp] theorem round_call (t : Transfer) (ret : Int64) : (t.round ret).call = t.call := rfl

@[simp] theorem round_size (t : Transfer) (ret : Int64) : (t.round ret).size = t.size := rfl

theorem request_eq_none {t : Transfer} : t.request = none ↔ t.counter = t.size := by
  unfold request
  split <;> simp_all

theorem request_eq_some {t : Transfer} {r : Request} :
    t.request = some r ↔ t.counter ≠ t.size ∧ r = ⟨t.call, t.counter, t.size - t.counter⟩ := by
  unfold request
  split <;> simp_all [eq_comm]

/-! ## The counter -/

/-- A result as the loop sees it. -/
def narrow (ret : Int64) : Int :=
  ret.toInt32.toInt

theorem narrow_eq (ret : Int64) : narrow ret = ret.toInt.bmod (2 ^ 32) :=
  Int64.toInt_toInt32 ret

theorem narrow_of_lt {ret : Int64} (hlow : -2 ^ 31 ≤ ret.toInt) (hhigh : ret.toInt < 2 ^ 31) :
    narrow ret = ret.toInt := by
  rw [narrow_eq, Int.bmod_def]
  norm_num at hlow hhigh ⊢
  split <;> omega

theorem narrow_lt (ret : Int64) : narrow ret < 2 ^ 31 :=
  Int32.toInt_lt _

theorem le_narrow (ret : Int64) : -2 ^ 31 ≤ narrow ret :=
  Int32.le_toInt _

/-- No result gains by the way through the `int`. -/
theorem narrow_le {ret : Int64} (h : 0 < ret.toInt) : narrow ret ≤ ret.toInt := by
  by_cases hhigh : ret.toInt < 2 ^ 31
  · rw [narrow_of_lt (by omega) hhigh]
  · have hlt := narrow_lt ret
    omega

theorem narrow_neg_one : narrow (-1) = -1 := by decide

theorem round_counter (t : Transfer) (ret : Int64) :
    ((t.round ret).counter.toNat : Int) = (t.counter.toNat + narrow ret) % 2 ^ 64 := by
  have hwide : (ret.toInt32.toInt64.toUInt64.toNat : Int) = narrow ret % 2 ^ 64 := by
    have hint : narrow ret = ret.toInt32.toInt64.toUInt64.toBitVec.toInt :=
      (Int32.toInt_toInt64 _).symm
    have hnat : ret.toInt32.toInt64.toUInt64.toNat =
        ret.toInt32.toInt64.toUInt64.toBitVec.toNat := rfl
    have hlt := ret.toInt32.toInt64.toUInt64.toBitVec.isLt
    rw [hint, hnat, BitVec.toInt_eq_toNat_cond]
    split <;> omega
  have hsum : (t.round ret).counter.toNat =
      (t.counter.toNat + ret.toInt32.toInt64.toUInt64.toNat) % 2 ^ 64 :=
    UInt64.toNat_add _ _
  omega

/-- A round that moves `n` bytes, as the loop counts them. -/
theorem round_counter_of_le {t : Transfer} {ret : Int64} {n : ℕ}
    (hlow : 0 ≤ (t.counter.toNat : Int) + narrow ret)
    (hn : (t.counter.toNat : Int) + narrow ret = n) (hle : n ≤ t.size.toNat) :
    (t.round ret).counter.toNat = n := by
  have hround := t.round_counter ret
  have hsize := t.size.toNat_lt
  omega

/-! ## A whole transfer -/

/-- The results `rets` are results of the calls the loop makes: each is -1, or a positive count of
    at most the bytes requested. -/
def Answered : Transfer → List Int64 → Prop
  | _, [] => True
  | t, ret :: rets =>
      (∃ r, t.request = some r ∧
        (ret = -1 ∨ (0 < ret.toInt ∧ ret.toInt ≤ r.length.toNat))) ∧
      (t.round ret).Answered rets

/-- The loop after the results `rets`. -/
def after : Transfer → List Int64 → Transfer
  | t, [] => t
  | t, ret :: rets => (t.round ret).after rets

/-- The loop at each of its rounds. -/
def heads : Transfer → List Int64 → List Transfer
  | t, [] => [t]
  | t, ret :: rets => t :: (t.round ret).heads rets

/-- The bytes that the system calls move, as offsets from `data`, in order. -/
def moves : Transfer → List Int64 → List ℕ
  | _, [] => []
  | t, ret :: rets =>
      List.range' t.counter.toNat ret.toInt.toNat ++ (t.round ret).moves rets

/-- What a transfer owes its caller: the counter stays within the size, every system call stays
    within `[data, data + size)`, and if the loop ends each byte has been moved once and in order.
    -/
structure Survives (t : Transfer) (rets : List Int64) : Prop where
  counter : ∀ h ∈ t.heads rets, h.counter ≤ h.size
  inside : ∀ h ∈ t.heads rets, ∀ r, h.request = some r →
    r.offset.toNat + r.length.toNat ≤ t.size.toNat
  moved : (t.after rets).request = none → t.moves rets = List.range t.size.toNat

/-! ### The counter during a transfer -/

/-- What the loop has counted after the results `rets`, as an integer. -/
def total (rets : List Int64) : Int :=
  (rets.map narrow).sum

@[simp] theorem total_nil : total [] = 0 := rfl

@[simp] theorem total_cons (ret : Int64) (rets : List Int64) :
    total (ret :: rets) = narrow ret + total rets := rfl

theorem heads_size {t h : Transfer} {rets : List Int64} (hmem : h ∈ t.heads rets) :
    h.size = t.size := by
  induction rets generalizing t with
  | nil =>
      rw [List.mem_singleton.1 hmem]
  | cons ret rets ih =>
      rcases List.mem_cons.1 hmem with rfl | hmem
      · rfl
      · exact ih (t := t.round ret) hmem

theorem after_size (t : Transfer) (rets : List Int64) : (t.after rets).size = t.size := by
  induction rets generalizing t with
  | nil => rfl
  | cons ret rets ih => exact ih (t.round ret)

/-- A counter within the size keeps the system call within the memory. -/
theorem request_inside {t : Transfer} (hcounter : t.counter ≤ t.size) {r : Request}
    (hr : t.request = some r) : r.offset.toNat + r.length.toNat = t.size.toNat := by
  obtain ⟨-, rfl⟩ := request_eq_some.1 hr
  have hle := UInt64.le_iff_toNat_le.1 hcounter
  have hsub := UInt64.toNat_sub_of_le _ _ hcounter
  simp only
  omega

theorem one_le_request {t : Transfer} (hcounter : t.counter ≤ t.size) {req : Request}
    (hreq : t.request = some req) : 1 ≤ req.length.toNat := by
  have hinside := request_inside hcounter hreq
  obtain ⟨hne, rfl⟩ := request_eq_some.1 hreq
  rw [UInt64.le_iff_toNat_le] at hcounter
  rw [ne_eq, ← UInt64.toNat_inj] at hne
  simp only at hinside ⊢
  omega

theorem round_ofNat {t : Transfer} (hcounter : t.counter ≤ t.size) {req : Request}
    (hreq : t.request = some req) {k : ℕ} (hle : k ≤ req.length.toNat) (hint : k < 2 ^ 31) :
    req.offset = t.counter ∧ (t.round (Int64.ofNat k)).counter.toNat = t.counter.toNat + k ∧
      t.counter.toNat + k ≤ t.size.toNat := by
  have hinside := request_inside hcounter hreq
  obtain ⟨-, rfl⟩ := request_eq_some.1 hreq
  simp only at hinside hle
  have hret : (Int64.ofNat k).toInt = k := Int64.toInt_ofNat_of_lt (by omega)
  have hnarrow : narrow (Int64.ofNat k) = k := by
    rw [narrow_of_lt (by omega) (by omega), hret]
  refine ⟨rfl, ?_, by omega⟩
  exact round_counter_of_le (by omega) (by omega) (by omega)

/-- A result of a round whose counter is within the size does not carry it past the size. -/
theorem narrow_le_rest {t : Transfer} (hcounter : t.counter ≤ t.size) {ret : Int64}
    (hret : ∃ r, t.request = some r ∧
      (ret = -1 ∨ (0 < ret.toInt ∧ ret.toInt ≤ r.length.toNat))) :
    (t.counter.toNat : Int) + narrow ret ≤ t.size.toNat := by
  obtain ⟨r, hr, hfail | ⟨hpos, hle⟩⟩ := hret
  · rw [hfail, narrow_neg_one]
    have hle := UInt64.le_iff_toNat_le.1 hcounter
    omega
  · have hinside := request_inside hcounter hr
    obtain ⟨-, rfl⟩ := request_eq_some.1 hr
    have hnarrow := narrow_le hpos
    simp only at hinside hle
    omega

/-- While the total does not fall below zero, it is the counter. -/
theorem after_counter {t : Transfer} {rets : List Int64} (hcounter : t.counter ≤ t.size)
    (hans : t.Answered rets)
    (htotal : ∀ k, k ≤ rets.length → 0 ≤ (t.counter.toNat : Int) + total (rets.take k)) :
    (∀ h ∈ t.heads rets, h.counter ≤ h.size) ∧
      ((t.after rets).counter.toNat : Int) = t.counter.toNat + total rets := by
  induction rets generalizing t with
  | nil =>
      refine ⟨fun h hmem => ?_, by simp [after]⟩
      rw [List.mem_singleton.1 hmem]
      exact hcounter
  | cons ret rets ih =>
      obtain ⟨hret, hrets⟩ := hans
      have hone : 0 ≤ (t.counter.toNat : Int) + narrow ret := by
        have h := htotal 1 (by simp)
        simpa using h
      have hround : ((t.round ret).counter.toNat : Int) = t.counter.toNat + narrow ret := by
        have hrest := narrow_le_rest hcounter hret
        have hmod := t.round_counter ret
        have hsize := t.size.toNat_lt
        omega
      have hcounter' : (t.round ret).counter ≤ (t.round ret).size := by
        have hrest := narrow_le_rest hcounter hret
        rw [UInt64.le_iff_toNat_le, round_size]
        omega
      obtain ⟨hheads, hafter⟩ := ih hcounter' hrets (fun k hk => by
        have h := htotal (k + 1) (by simpa using hk)
        rw [List.take_succ_cons, total_cons] at h
        omega)
      refine ⟨fun h hmem => ?_, ?_⟩
      · rcases List.mem_cons.1 hmem with rfl | hmem
        · exact hcounter
        · exact hheads h hmem
      · rw [total_cons, after]
        omega

/-- A total below zero shows as a counter past the size. -/
theorem total_of_heads {t : Transfer} {rets : List Int64} (hsize : t.size.toNat + 2 ^ 31 < 2 ^ 64)
    (hheads : ∀ h ∈ t.heads rets, h.counter ≤ h.size) (k : ℕ) (hk : k ≤ rets.length) :
    0 ≤ (t.counter.toNat : Int) + total (rets.take k) := by
  induction rets generalizing t k with
  | nil =>
      rw [List.take_nil, total_nil]
      omega
  | cons ret rets ih =>
      have hhead : (t.round ret) ∈ (t.round ret).heads rets := by
        cases rets <;> simp [heads]
      have hcounter := hheads _ (List.mem_cons_of_mem _ hhead)
      have hround : ((t.round ret).counter.toNat : Int) = t.counter.toNat + narrow ret := by
        have hmod := t.round_counter ret
        have hlow := le_narrow ret
        have hhigh := narrow_lt ret
        have hmine := hheads t (by simp [heads])
        rw [UInt64.le_iff_toNat_le] at hcounter hmine
        rw [round_size] at hcounter
        omega
      cases k with
      | zero =>
          rw [List.take_zero, total_nil]
          omega
      | succ k =>
          have h := ih (t := t.round ret) hsize
            (fun h hmem => hheads h (List.mem_cons_of_mem _ hmem)) k (by simpa using hk)
          rw [List.take_succ_cons, total_cons]
          omega

/-! ### What a transfer moves -/

/-- A result that counts what it moved: the call has not failed, and the `int` holds its result. -/
def Whole (ret : Int64) : Prop :=
  0 < ret.toInt ∧ ret.toInt < 2 ^ 31

theorem narrow_whole {ret : Int64} (h : Whole ret) : narrow ret = ret.toInt := by
  obtain ⟨hpos, hlt⟩ := h
  exact narrow_of_lt (by omega) hlt

theorem narrow_le_moved {t : Transfer} {ret : Int64}
    (hret : ∃ r, t.request = some r ∧
      (ret = -1 ∨ (0 < ret.toInt ∧ ret.toInt ≤ r.length.toNat))) :
    narrow ret ≤ ret.toInt.toNat ∧ (narrow ret = ret.toInt.toNat → Whole ret) := by
  obtain ⟨r, -, rfl | ⟨hpos, -⟩⟩ := hret
  · rw [narrow_neg_one]
    refine ⟨by decide, fun h => absurd h (by decide)⟩
  · have hnat : (ret.toInt.toNat : Int) = ret.toInt := Int.toNat_of_nonneg hpos.le
    have hlt := narrow_lt ret
    rw [hnat]
    refine ⟨narrow_le hpos, fun h => ⟨hpos, ?_⟩⟩
    omega

/-- The loop never counts more than it moves, and counts as much only if every result is whole. -/
theorem total_le_moves {t : Transfer} {rets : List Int64} (hans : t.Answered rets) :
    total rets ≤ (t.moves rets).length ∧
      (total rets = (t.moves rets).length → ∀ ret ∈ rets, Whole ret) := by
  induction rets generalizing t with
  | nil =>
      refine ⟨by simp [moves], fun _ ret hmem => absurd hmem (by simp)⟩
  | cons ret rets ih =>
      obtain ⟨hret, hrets⟩ := hans
      obtain ⟨hle, hwhole⟩ := narrow_le_moved hret
      obtain ⟨hles, hwholes⟩ := ih hrets
      have hlen : ((t.moves (ret :: rets)).length : Int) =
          ret.toInt.toNat + ((t.round ret).moves rets).length := by
        simp [moves]
      rw [total_cons, hlen]
      refine ⟨by omega, fun h ret' hmem => ?_⟩
      rcases List.mem_cons.1 hmem with rfl | hmem
      · exact hwhole (by omega)
      · exact hwholes (by omega) ret' hmem

/-- With whole results a transfer moves its bytes once and in order. -/
theorem moves_of_whole {t : Transfer} {rets : List Int64} (hcounter : t.counter ≤ t.size)
    (hans : t.Answered rets) (hwhole : ∀ ret ∈ rets, Whole ret) :
    t.counter ≤ (t.after rets).counter ∧ t.moves rets =
      List.range' t.counter.toNat ((t.after rets).counter.toNat - t.counter.toNat) := by
  induction rets generalizing t with
  | nil => exact ⟨UInt64.le_refl _, by simp [moves, after]⟩
  | cons ret rets ih =>
      obtain ⟨hret, hrets⟩ := hans
      have hone := hwhole ret (List.mem_cons_self ..)
      have hround : (t.round ret).counter.toNat = t.counter.toNat + ret.toInt.toNat := by
        have hrest := narrow_le_rest hcounter hret
        have hmod := t.round_counter ret
        have hsize := t.size.toNat_lt
        have hpos := hone.1
        rw [narrow_whole hone] at hrest hmod
        omega
      have hcounter' : (t.round ret).counter ≤ (t.round ret).size := by
        have hrest := narrow_le_rest hcounter hret
        have hpos := hone.1
        rw [narrow_whole hone] at hrest
        rw [UInt64.le_iff_toNat_le, round_size]
        omega
      obtain ⟨hle, hmoves⟩ := ih hcounter' hrets
        (fun ret' hmem => hwhole ret' (List.mem_cons_of_mem _ hmem))
      rw [UInt64.le_iff_toNat_le] at hle ⊢
      refine ⟨by rw [after]; omega, ?_⟩
      rw [moves, hmoves, after, hround, List.range'_append_1]
      congr 1
      omega

/-- The condition on the results for a transfer to be sound: their total, as the loop sees them,
    never falls below zero; and where it reaches the size, none of the calls has failed or has moved
    2^31 bytes or more. -/
structure Counted (size : ℕ) (rets : List Int64) : Prop where
  nonneg : ∀ k, k ≤ rets.length → 0 ≤ total (rets.take k)
  whole : total rets = size → ∀ ret ∈ rets, Whole ret

variable {t : Transfer} {rets : List Int64}

theorem counter_le_size_of_start (hstart : t.counter = 0) :
    t.counter.toNat = 0 ∧ t.counter ≤ t.size := by
  have hzero : t.counter.toNat = 0 := by rw [hstart]; rfl
  refine ⟨hzero, ?_⟩
  rw [UInt64.le_iff_toNat_le, hzero]
  exact Nat.zero_le _

theorem Counted.survives (h : Counted t.size.toNat rets) (hstart : t.counter = 0)
    (hans : t.Answered rets) : Survives t rets := by
  obtain ⟨hzero, hcounter⟩ := counter_le_size_of_start hstart
  obtain ⟨hheads, hafter⟩ := after_counter hcounter hans (fun k hk => by
    rw [hzero]
    simpa using h.nonneg k hk)
  refine ⟨hheads, fun h hmem r hr => ?_, fun hend => ?_⟩
  · rw [request_inside (hheads h hmem) hr, heads_size hmem]
  · have hended := request_eq_none.1 hend
    rw [after_size] at hended
    rw [hended, hzero] at hafter
    obtain ⟨-, hmoves⟩ := moves_of_whole hcounter hans (h.whole (by simpa using hafter.symm))
    rw [hmoves, hended, hzero, Nat.sub_zero, List.range_eq_range']

/-- A counter below zero is past the size, unless that is one of the last 2^31. -/
theorem Survives.counted (h : Survives t rets) (hstart : t.counter = 0)
    (hsize : t.size.toNat + 2 ^ 31 < 2 ^ 64) (hans : t.Answered rets) :
    Counted t.size.toNat rets := by
  obtain ⟨hzero, hcounter⟩ := counter_le_size_of_start hstart
  have htotal := total_of_heads hsize h.counter
  obtain ⟨-, hafter⟩ := after_counter hcounter hans htotal
  rw [hzero] at htotal hafter
  refine ⟨fun k hk => by simpa using htotal k hk, fun hend => ?_⟩
  have hmoved := h.moved (request_eq_none.2 (by
    rw [← UInt64.toNat_inj, after_size]
    omega))
  refine (total_le_moves hans).2 ?_
  rw [hmoved, List.length_range]
  exact hend

end Transfer

open Transfer

/-- **Failed system calls.** Whatever the results of its system calls, either loop is sound if they
    are counted, and at every size below 2^64 - 2^31 only if they are. (At the sizes above, which no
    object in memory has, a counter that has run below zero may still be within the size.) -/
theorem transfer_loops_survive_iff (size : UInt64) (t : Transfer)
    (ht : t = SocketInterComm.send size ∨ t = SocketInterComm.recv size)
    (rets : List Int64) (hans : t.Answered rets) :
    (Counted size.toNat rets → Survives t rets) ∧
      (size.toNat + 2 ^ 31 < 2 ^ 64 → (Survives t rets ↔ Counted size.toNat rets)) := by
  have hstart : t.size = size ∧ t.counter = 0 := by
    rcases ht with rfl | rfl <;> exact ⟨rfl, rfl⟩
  obtain ⟨rfl, hzero⟩ := hstart
  have hsound : Counted t.size.toNat rets → Survives t rets := fun h => h.survives hzero hans
  exact ⟨hsound, fun hsize => ⟨fun h => h.counted hzero hsize hans, hsound⟩⟩

/-- Four bytes in two pieces. -/
theorem transfer_loops_survive_pieces : Survives (SocketInterComm.send 4) [3, 1] := by
  have hans : (SocketInterComm.send 4).Answered [3, 1] :=
    ⟨⟨_, rfl, .inr ⟨by decide, by decide⟩⟩, ⟨_, rfl, .inr ⟨by decide, by decide⟩⟩, trivial⟩
  refine ((transfer_loops_survive_iff 4 _ (.inl rfl) [3, 1] hans).2 (by decide)).2 ⟨?_, ?_⟩
  · decide
  · intro _ ret hmem
    simp only [List.mem_cons, List.not_mem_nil, or_false] at hmem
    rcases hmem with rfl | rfl
    · exact ⟨by decide, by decide⟩
    · exact ⟨by decide, by decide⟩

/-- A first call that fails takes the counter below zero: the next one is for five bytes, from the
    one before `data` on. -/
theorem first_call_fails :
    ((SocketInterComm.send 4).Answered [-1] ∧
      ((SocketInterComm.send 4).after [-1]).request = some ⟨.send, -1, 5⟩ ∧
      ¬ Survives (SocketInterComm.send 4) [-1]) ∧
    ((SocketInterComm.recv 4).Answered [-1] ∧
      ((SocketInterComm.recv 4).after [-1]).request = some ⟨.recv, -1, 5⟩ ∧
      ¬ Survives (SocketInterComm.recv 4) [-1]) := by
  refine ⟨⟨⟨⟨_, rfl, .inl rfl⟩, trivial⟩, rfl, fun h => ?_⟩,
    ⟨⟨⟨_, rfl, .inl rfl⟩, trivial⟩, rfl, fun h => ?_⟩⟩
  · have hcounter := h.counter ((SocketInterComm.send 4).round (-1)) (by simp [heads])
    exact absurd hcounter (by decide)
  · have hcounter := h.counter ((SocketInterComm.recv 4).round (-1)) (by simp [heads])
    exact absurd hcounter (by decide)

end LibIS
