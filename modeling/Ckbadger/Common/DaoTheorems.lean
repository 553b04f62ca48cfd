/-
Ckbadger.Common.DaoTheorems — what a deposit earns and how an epoch shares its issuance.

The products are exact: `u128` holds a capacity times a rate. The product of the miner's part is
an `i128`, which is one bit short of two words.
-/
import Ckbadger.Common.Dao
import Mathlib.Algebra.BigOperators.Ring.Finset

namespace Ckbadger.Common

open Lib

/-! ## Compensation -/

/-- What a free capacity earns between two rates. -/
def exactCompensation (free : Int) (arDeposit arWithdraw : Nat) : Int :=
  free * arWithdraw / arDeposit - free

section Compensation

variable {capacity occupiedCapacity v : Int} {arDeposit arWithdraw : Nat}
variable (hcapacity : capacity < 2 ^ 63) (hoccupied : 0 ≤ occupiedCapacity)
  (hle : occupiedCapacity ≤ capacity) (hdeposit : 0 < arDeposit) (hrates : arDeposit ≤ arWithdraw)
  (hwithdraw : arWithdraw < 2 ^ 64)

include hcapacity hoccupied hle hdeposit hrates hwithdraw

/-- The product does not overflow and the difference does not underflow, so that only the last check
can fail. -/
theorem calculateDaoCompensationFromAr_eq_ok :
    (capacity - occupiedCapacity) * arWithdraw < 2 ^ 128 ∧
      0 ≤ exactCompensation (capacity - occupiedCapacity) arDeposit arWithdraw ∧
      (calculateDaoCompensationFromAr capacity occupiedCapacity arDeposit arWithdraw = .ok v ↔
        v = exactCompensation (capacity - occupiedCapacity) arDeposit arWithdraw ∧ v < 2 ^ 63) := by
  obtain ⟨free, hfree⟩ := Int.eq_ofNat_of_zero_le (Int.sub_nonneg.mpr hle)
  have hproduct : free * arWithdraw < 2 ^ 128 := by
    calc free * arWithdraw ≤ free * 2 ^ 64 := Nat.mul_le_mul_left _ hwithdraw.le
      _ < 2 ^ 128 := by omega
  have hgross : free ≤ free * arWithdraw / arDeposit :=
    (Nat.le_div_iff_mul_le hdeposit).mpr (Nat.mul_le_mul_left _ hrates)
  have hexact : exactCompensation free arDeposit arWithdraw
      = (free * arWithdraw / arDeposit - free : Nat) := by
    push_cast [exactCompensation, hgross]
    rfl
  simp only [calculateDaoCompensationFromAr, bind_eq_ok, ensure_eq_ok, checked_eq_ok, hfree,
    Int.toNat_natCast, hexact, fitsSignedBits, decide_eq_true_eq, exists_const]
  refine ⟨by exact_mod_cast hproduct, Int.natCast_nonneg _, ?_⟩
  omega

/-- **DAO compensation is exact and monotone.** No step overflows, the exact value is not negative
and is returned exactly when it fits an `i64`, and a higher withdraw rate or a lower deposit rate
does not lower it. -/
theorem daoCompensation_exact :
    (capacity - occupiedCapacity) * arWithdraw < 2 ^ 128 ∧
      0 ≤ exactCompensation (capacity - occupiedCapacity) arDeposit arWithdraw ∧
      (∀ v, calculateDaoCompensationFromAr capacity occupiedCapacity arDeposit arWithdraw = .ok v ↔
        v = exactCompensation (capacity - occupiedCapacity) arDeposit arWithdraw ∧ v < 2 ^ 63) ∧
      ∀ arDeposit' arWithdraw' v v', 0 < arDeposit' → arDeposit' ≤ arDeposit →
        arWithdraw ≤ arWithdraw' → arWithdraw' < 2 ^ 64 →
        calculateDaoCompensationFromAr capacity occupiedCapacity arDeposit arWithdraw = .ok v →
        calculateDaoCompensationFromAr capacity occupiedCapacity arDeposit' arWithdraw' = .ok v' →
        v ≤ v' := by
  have hok : ∀ v, _ := fun v =>
    calculateDaoCompensationFromAr_eq_ok (v := v) hcapacity hoccupied hle hdeposit hrates hwithdraw
  refine ⟨(hok 0).1, (hok 0).2.1, fun v => (hok v).2.2, ?_⟩
  intro arDeposit' arWithdraw' v v' hdeposit' hdeposits hwithdraws hwithdraw' hv hv'
  obtain ⟨-, -, hok'⟩ := calculateDaoCompensationFromAr_eq_ok (v := v') hcapacity hoccupied hle
    hdeposit' (hdeposits.trans (hrates.trans hwithdraws)) hwithdraw'
  obtain ⟨free, hfree⟩ := Int.eq_ofNat_of_zero_le (Int.sub_nonneg.mpr hle)
  rw [((hok v).2.2.mp hv).1, (hok'.mp hv').1, hfree]
  refine Int.sub_le_sub_right ?_ _
  exact_mod_cast Nat.div_le_div (Nat.mul_le_mul_left free hwithdraws) hdeposits hdeposit'.ne'

end Compensation

theorem daoCompensation_exact_ten_percent : exactCompensation (200 - 100) 10 11 = 10 ∧
    calculateDaoCompensationFromAr 200 100 10 11 = .ok 10 :=
  ⟨by decide, ((daoCompensation_exact (by decide) (by decide) (by decide) (by decide) (by decide)
    (by decide)).2.2.1 10).mpr (by decide)⟩

/-! ## Secondary issuance -/

/-- The share of the `i`-th of `length` blocks. -/
def blockShare (length reward i : Nat) : Nat :=
  reward / length + if i < reward % length then 1 else 0

theorem secondaryBlockIssuance_eq {length reward i : Nat} (hreward : reward < 2 ^ 64)
    (hi : i < length) :
    secondaryBlockIssuance i length reward = .ok (blockShare length reward i) := by
  have hposition : 0 < (length : Int) ∧ 0 ≤ (i : Int) ∧ (i : Int) < length := by omega
  simp only [secondaryBlockIssuance, ensure, if_pos hposition, Int.toNat_natCast, blockShare]
  split
  · rename_i hlt
    -- a remainder needs two blocks, so that the share cannot be the largest word
    have hlength : 2 ≤ length := by
      have := Nat.mod_lt reward (show 0 < length by omega)
      rcases Nat.lt_or_ge 1 length with h | h
      · exact h
      · obtain rfl : length = 1 := by omega
        omega
    have hhalf : reward / length ≤ reward / 2 := Nat.div_le_div_left hlength (by omega)
    rw [Nat.mod_eq_of_lt (by omega)]
    rfl
  · rfl

theorem sum_blockShare (base remainder n : Nat) :
    ((List.range n).map fun i => base + if i < remainder then 1 else 0).sum
      = n * base + min n remainder := by
  induction n with
  | zero => simp
  | succ n ih =>
    rw [List.range_succ, List.map_append, List.sum_append, Nat.succ_mul, List.map_singleton,
      List.sum_singleton]
    split <;> omega

theorem calculateMinerSecondaryIssuance_eq_ok {s : Nat} {c u m : Int} :
    calculateMinerSecondaryIssuance s c u = .ok m ↔
      (0 ≤ u ∧ u < c ∧ s * u < 2 ^ 127) ∧ m = s * u / c := by
  simp only [calculateMinerSecondaryIssuance, bind_eq_ok, ensure_eq_ok, checked_eq_ok, fitsSignedBits,
    decide_eq_true_eq, exists_const, return_eq_ok]
  constructor
  · rintro ⟨hu, _, ⟨hfits, rfl⟩, rfl⟩
    exact ⟨⟨hu.2.1, hu.2.2, hfits.2⟩, Int.tdiv_eq_ediv_of_nonneg (Int.mul_nonneg (by omega) hu.2.1)⟩
  · rintro ⟨⟨hu, huc, hlt⟩, rfl⟩
    have hproduct : 0 ≤ s * u := Int.mul_nonneg (by omega) hu
    exact ⟨⟨by omega, hu, huc⟩, _, ⟨⟨by omega, hlt⟩, rfl⟩, Int.tdiv_eq_ediv_of_nonneg hproduct⟩

theorem minerPart_le {c u : Int} (hu : 0 ≤ u) (huc : u < c) (s : Nat) : s * u / c ≤ s := by
  refine Int.ediv_le_of_le_mul (by omega) ?_
  exact Int.mul_le_mul_of_nonneg_left huc.le (by omega)

/-- **Secondary issuance is distributed exactly.** The blocks of an epoch share its reward, in parts
that differ by at most one. The miner's part of a block is the rounded quotient, monotone, and
between zero and the block's part; it is an error exactly where the product exceeds an `i128`.
The miner's parts of an epoch do not exceed its reward. -/
theorem secondaryIssuance_exact {length reward : Nat} (hlength : 0 < length)
    (hreward : reward < 2 ^ 64) :
    (∃ share : Nat → Nat,
      (∀ i < length, secondaryBlockIssuance i length reward = .ok (share i)) ∧
      ((List.range length).map share).sum = reward ∧ (∀ i j, share i ≤ share j + 1) ∧
      ∀ c u m : Nat → Int,
        (∀ i < length, calculateMinerSecondaryIssuance (share i) (c i) (u i) = .ok (m i)) →
        ((List.range length).map m).sum ≤ reward) ∧
    ∀ (s : Nat) (c u : Int), 0 ≤ u → u < c →
      (∀ m, calculateMinerSecondaryIssuance s c u = .ok m ↔ s * u < 2 ^ 127 ∧ m = s * u / c) ∧
      0 ≤ s * u / c ∧ s * u / c ≤ s ∧
      ∀ (s' : Nat) (u' : Int), s ≤ s' → u ≤ u' → s * u / c ≤ s' * u' / c := by
  have hsum : ((List.range length).map (blockShare length reward)).sum = reward := by
    have hmod := Nat.mod_lt reward hlength
    show ((List.range length).map fun i => _ + if i < _ then 1 else 0).sum = _
    rw [sum_blockShare, min_eq_right hmod.le, Nat.div_add_mod]
  constructor
  · refine ⟨blockShare length reward, fun i => secondaryBlockIssuance_eq hreward, hsum, ?_, ?_⟩
    · intro i j
      unfold blockShare
      split <;> split <;> omega
    · intro c u m hm
      have hle : ∀ i ∈ List.range length, m i ≤ (blockShare length reward i : Int) := by
        intro i hi
        obtain ⟨⟨hu, huc, -⟩, heq⟩ :=
          calculateMinerSecondaryIssuance_eq_ok.mp (hm i (List.mem_range.mp hi))
        rw [heq]
        exact minerPart_le hu huc _
      have hcast := congrArg (Nat.cast : Nat → Int) hsum
      rw [Nat.cast_list_sum, List.map_map] at hcast
      exact (List.sum_le_sum hle).trans_eq hcast
  · intro s c u hu huc
    refine ⟨fun m => ?_, Int.ediv_nonneg (Int.mul_nonneg (by omega) hu) (by omega),
      minerPart_le hu huc s, ?_⟩
    · rw [calculateMinerSecondaryIssuance_eq_ok]
      simp [hu, huc]
    · intro s' u' hs' hu'
      refine Int.ediv_le_ediv (by omega) ?_
      exact Int.mul_le_mul (by omega) hu' hu (by omega)

theorem secondaryIssuance_exact_three_blocks : ∃ share : Nat → Nat,
    (∀ i : Nat, i < 3 → secondaryBlockIssuance i 3 10 = .ok (share i)) ∧
      ((List.range 3).map share).sum = 10 := by
  obtain ⟨⟨share, hshare, hsum, -⟩, -⟩ := @secondaryIssuance_exact 3 10 (by decide) (by decide)
  exact ⟨share, hshare, hsum⟩

/-- The largest block issuance against the largest header pair. -/
theorem calculateMinerSecondaryIssuance_overflow :
    calculateMinerSecondaryIssuance (2 ^ 64 - 1) (2 ^ 64 - 1) (2 ^ 64 - 2)
      = .error "secondary issuance miner multiplication overflow" := by
  decide +kernel

end Ckbadger.Common
