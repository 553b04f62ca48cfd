/-
Ckbadger.Store.DaoLifecycle — what a whole lifecycle contributes.

A lifecycle has the fields its status asks for. It contributes nothing before its deposit,
what it earns while it is active, and from its request on one frozen amount, which the
completion moves from the unclaimed to the claimed part (`contribution_parts`).
-/
import Ckbadger.Store.DaoOpsTheorems

namespace Ckbadger.Store

open Lib Common

/-! ## Lifecycles -/

/-- The lifecycle of a deposit: the fields its status asks for, with the deposit not after
the request and the request before the completion. -/
structure DaoLifecycle (entry : DaoDepositCacheEntry) : Prop where
  depositBlock : 0 ≤ entry.depositBlockNumber
  capacity : 0 ≤ entry.capacity ∧ 0 ≤ entry.occupiedCapacity ∧
    entry.occupiedCapacity ≤ entry.capacity
  depositAr : 0 ≤ entry.depositAr
  check : checkDaoLifecycle entry = .ok ()

/-- The three shapes of a lifecycle. -/
inductive LifecycleShape (entry : DaoDepositCacheEntry) : Prop where
  | deposited (hstatus : entry.status = 0) (hrequest : entry.withdrawRequestBlock = none)
      (hwithdraw : entry.withdrawBlock = none)
  | requested (hstatus : entry.status = 1) (requestBlock : Int) (requestAr : Int)
      (hrequest : entry.withdrawRequestBlock = some requestBlock)
      (hafter : entry.depositBlockNumber ≤ requestBlock)
      (har : entry.withdrawRequestAr = some requestAr) (hwithdraw : entry.withdrawBlock = none)
      (hcompensation : entry.compensation = none)
  | completed (hstatus : entry.status = 2) (requestBlock requestAr withdrawBlock compensation : Int)
      (hrequest : entry.withdrawRequestBlock = some requestBlock)
      (hafter : entry.depositBlockNumber ≤ requestBlock)
      (har : entry.withdrawRequestAr = some requestAr)
      (hwithdraw : entry.withdrawBlock = some withdrawBlock) (hlater : requestBlock < withdrawBlock)
      (hcompensation : entry.compensation = some compensation)

namespace DaoLifecycle

variable {entry : DaoDepositCacheEntry} (h : DaoLifecycle entry)

include h

theorem shape : LifecycleShape entry := by
  have hcheck := h.check
  unfold checkDaoLifecycle at hcheck
  split at hcheck
  · rename_i hstatus
    obtain ⟨-, -, hrequest, -, hwithdraw, -, -⟩ := ensure_eq_ok.mp hcheck
    exact .deposited hstatus hrequest hwithdraw
  · split at hcheck
    · rename_i hactive
      simp only [bind_eq_ok, ensure_eq_ok, required_eq_ok] at hcheck
      obtain ⟨requestBlock, hrequest, -, ⟨hafter, -, -, har⟩, -, hone, htwo⟩ := hcheck
      obtain ⟨requestAr, har⟩ := Option.isSome_iff_exists.mp har
      rcases hactive with hstatus | hstatus
      · obtain ⟨hwithdraw, -, hcompensation⟩ := hone hstatus
        exact .requested hstatus requestBlock requestAr hrequest hafter har hwithdraw hcompensation
      · rw [if_pos hstatus] at htwo
        simp only [bind_eq_ok, ensure_eq_ok, required_eq_ok] at htwo
        obtain ⟨withdrawBlock, hwithdraw, hlater, -, hcompensation⟩ := htwo
        obtain ⟨compensation, hcompensation⟩ := Option.isSome_iff_exists.mp hcompensation
        exact .completed hstatus requestBlock requestAr withdrawBlock compensation hrequest hafter har
          hwithdraw hlater hcompensation
    · cases hcheck

theorem not_withdrawn {endBlock : Int}
    (hrequest : entry.withdrawRequestBlock.any (· ≤ endBlock) = false) :
    entry.withdrawBlock.any (· ≤ endBlock) = false := by
  obtain ⟨-, -, hnone⟩ | ⟨-, _, _, -, -, -, hnone, -⟩ |
    ⟨-, requestBlock, _, withdrawBlock, _, hrow, -, -, hwithdraw, hlater, -⟩ := h.shape
  · simp [hnone]
  · simp [hnone]
  · have hopen : endBlock < requestBlock := by simpa [hrow] using hrequest
    simp only [hwithdraw, Option.any_some, decide_eq_false_iff_not]
    omega

/-- A lifecycle that is read passes the guards of the reader. -/
theorem compensation_eq (endBlock : Int) (endAr : Nat) :
    daoCompensationForEntryAt entry endBlock endAr
      = daoCompensationFrom entry entry.depositAr.toNat endBlock endAr := by
  simp only [daoCompensationForEntryAt, ensure, if_pos h.capacity, h.check, rateOf,
    if_pos h.depositAr]
  rfl

end DaoLifecycle

/-! ## Frozen amounts -/

/-- What the request of a lifecycle freezes. -/
def frozenValue (entry : DaoDepositCacheEntry) : Int :=
  (daoFrozenRequestCompensation entry).toOption.getD 0

/-- The request of a lifecycle freezes an amount, the stored one if there is one. -/
def Freezes (entry : DaoDepositCacheEntry) : Prop :=
  daoFrozenRequestCompensation entry = .ok (frozenValue entry) ∧
    ∀ stored ∈ entry.compensation, stored = frozenValue entry

theorem frozenValue_eq {entry : DaoDepositCacheEntry} {c : Int}
    (h : daoFrozenRequestCompensation entry = .ok c) : frozenValue entry = c := by
  simp [frozenValue, h, Except.toOption]

theorem frozenValue_bounds (entry : DaoDepositCacheEntry) :
    0 ≤ frozenValue entry ∧ frozenValue entry < 2 ^ 63 := by
  unfold frozenValue
  cases h : daoFrozenRequestCompensation entry with
  | error e => simp [Except.toOption]
  | ok c =>
    refine ⟨daoFrozenRequestCompensation_nonneg h, ?_⟩
    simp only [daoFrozenRequestCompensation, calculateDaoCompensationFromAr, bind_eq_ok,
      checked_eq_ok] at h
    obtain ⟨_, -, _, -, _, -, _, -, -, -, -, -, -, -, -, -, -, -, hfits, rfl⟩ := h
    simp only [fitsSignedBits, decide_eq_true_eq] at hfits
    exact hfits.2

section Readable

variable {entry : DaoDepositCacheEntry} {endBlock : Int} {endAr : Nat}

theorem readableAt_iff :
    ReadableAt entry endBlock endAr ↔ ∃ c, daoCompensationForEntryAt entry endBlock endAr = .ok c := by
  constructor
  · intro h
    exact ⟨_, h⟩
  · rintro ⟨c, hc⟩
    exact (daoCompensationForEntryAt_eq_ok.mp hc).1

variable (h : DaoLifecycle entry)

include h

theorem readableAt_of_lt (hbefore : endBlock < entry.depositBlockNumber) :
    ReadableAt entry endBlock endAr ∧ contribution entry endBlock endAr = 0 := by
  have heq := h.compensation_eq endBlock endAr
  rw [daoCompensationFrom, if_pos hbefore] at heq
  obtain ⟨hread, hvalue⟩ := daoCompensationForEntryAt_eq_ok.mp heq
  exact ⟨hread, hvalue.symm⟩

/-- From its request on, a lifecycle is read exactly when the request freezes an amount;
a completion claims that amount. -/
theorem compensation_requested (hrequest : entry.withdrawRequestBlock.any (· ≤ endBlock) = true)
    {c : DaoCompensationBreakdown} :
    daoCompensationForEntryAt entry endBlock endAr = .ok c ↔
      Freezes entry ∧ c = if entry.withdrawBlock.any (· ≤ endBlock) then
        { claimed := frozenValue entry } else { unclaimed := frozenValue entry } := by
  have hdeposit : ¬endBlock < entry.depositBlockNumber := by
    obtain ⟨-, hnone, -⟩ | ⟨-, requestBlock, -, hrow, hafter, -⟩ |
      ⟨-, requestBlock, -, -, -, hrow, hafter, -⟩ := h.shape
    · simp [hnone] at hrequest
    · have hreached : requestBlock ≤ endBlock := by simpa [hrow] using hrequest
      omega
    · have hreached : requestBlock ≤ endBlock := by simpa [hrow] using hrequest
      omega
  rw [h.compensation_eq, daoCompensationFrom, if_neg hdeposit]
  split
  · rename_i hwithdrawn
    have hstored : entry.compensation.isSome = true := by
      obtain ⟨-, -, hnone⟩ | ⟨-, _, _, -, -, -, hnone, -⟩ |
        ⟨-, _, _, _, _, -, -, -, -, -, hcompensation⟩ := h.shape
      · simp [hnone] at hwithdrawn
      · simp [hnone] at hwithdrawn
      · simp [hcompensation]
    obtain ⟨compensation, hcompensation⟩ := Option.isSome_iff_exists.mp hstored
    simp only [bind_eq_ok, required_eq_ok, ensure_eq_ok, return_eq_ok, Freezes, hcompensation,
      Option.mem_some_iff, forall_eq', Option.some.injEq, exists_eq_left', exists_const]
    constructor
    · rintro ⟨-, expected, hexpected, rfl, rfl⟩
      rw [frozenValue_eq hexpected]
      exact ⟨⟨hexpected, rfl⟩, rfl⟩
    · rintro ⟨⟨hfrozen, rfl⟩, rfl⟩
      exact ⟨(frozenValue_bounds entry).1, _, hfrozen, rfl, rfl⟩
  · simp only [bind_eq_ok, ensure_eq_ok, return_eq_ok, Freezes, exists_const]
    constructor
    · rintro ⟨expected, hexpected, -, hstored, rfl⟩
      rw [frozenValue_eq hexpected]
      exact ⟨⟨hexpected, hstored⟩, rfl⟩
    · rintro ⟨⟨hfrozen, hstored⟩, rfl⟩
      refine ⟨_, hfrozen, fun stored hmem => ?_, hstored, rfl⟩
      rw [hstored stored hmem]
      exact (frozenValue_bounds entry).1

theorem contribution_active (hread : ReadableAt entry endBlock endAr)
    (hdeposit : entry.depositBlockNumber ≤ endBlock)
    (hrequest : entry.withdrawRequestBlock.any (· ≤ endBlock) = false) :
    (contribution entry endBlock endAr).claimed = 0 ∧
      (contribution entry endBlock endAr).unclaimed
        = (contribution entry endBlock endAr).activeUnmade ∧
      (contribution entry endBlock endAr).activeUnmade < 2 ^ 63 := by
  have hwithdraw := h.not_withdrawn hrequest
  have hvalue := hread
  unfold ReadableAt at hvalue
  generalize contribution entry endBlock endAr = value at hvalue ⊢
  rw [h.compensation_eq, daoCompensationFrom, if_neg (not_lt.mpr hdeposit), if_neg (by simp [hwithdraw]),
    if_neg (by simp [hrequest])] at hvalue
  simp only [calculateDaoCompensationFromAr, bind_eq_ok, checked_eq_ok, return_eq_ok] at hvalue
  obtain ⟨_, ⟨-, -, -, -, -, -, -, -, -, -, hfits, rfl⟩, rfl⟩ := hvalue
  simp only [fitsSignedBits, decide_eq_true_eq] at hfits
  exact ⟨rfl, rfl, hfits.2⟩

/-- What a readable lifecycle contributes: its frozen amount from the request on, moved
from the unclaimed to the claimed part by the completion, and what it earns while active. -/
theorem contribution_parts (hread : ReadableAt entry endBlock endAr) :
    (contribution entry endBlock endAr).claimed
        = (if entry.withdrawBlock.any (· ≤ endBlock) then frozenValue entry else 0) ∧
      (contribution entry endBlock endAr).unclaimed
        = (if entry.withdrawRequestBlock.any (· ≤ endBlock) then frozenValue entry else 0)
          - (if entry.withdrawBlock.any (· ≤ endBlock) then frozenValue entry else 0)
          + (contribution entry endBlock endAr).activeUnmade ∧
      (activeAt entry endBlock = false → (contribution entry endBlock endAr).activeUnmade = 0) := by
  cases hrequest : entry.withdrawRequestBlock.any (· ≤ endBlock) with
  | true =>
    obtain ⟨-, heq⟩ := (compensation_requested h hrequest).mp hread
    rw [heq]
    split <;> simp
  | false =>
    have hwithdraw := h.not_withdrawn hrequest
    rcases lt_or_ge endBlock entry.depositBlockNumber with hbefore | hdeposit
    · obtain ⟨-, hzero⟩ := @readableAt_of_lt entry endBlock endAr h hbefore
      simp [hzero, hwithdraw]
    · obtain ⟨hclaimed, hunclaimed, -⟩ := contribution_active h hread hdeposit hrequest
      simp [hclaimed, hunclaimed, hwithdraw, activeAt, hdeposit, hrequest]

theorem contribution_bounds (hread : ReadableAt entry endBlock endAr) :
    (contribution entry endBlock endAr).claimed ≤ 2 ^ 63 - 1 ∧
      (contribution entry endBlock endAr).unclaimed ≤ 2 ^ 63 - 1 ∧
      (contribution entry endBlock endAr).activeUnmade ≤ 2 ^ 63 - 1 := by
  have hbounds := frozenValue_bounds entry
  cases hrequest : entry.withdrawRequestBlock.any (· ≤ endBlock) with
  | true =>
    obtain ⟨-, heq⟩ := (compensation_requested h hrequest).mp hread
    rw [heq]
    split <;> simp only <;> omega
  | false =>
    rcases lt_or_ge endBlock entry.depositBlockNumber with hbefore | hdeposit
    · obtain ⟨-, hzero⟩ := @readableAt_of_lt entry endBlock endAr h hbefore
      simp [hzero]
    · obtain ⟨hclaimed, hunclaimed, hlt⟩ := contribution_active h hread hdeposit hrequest
      omega

end Readable

end Ckbadger.Store
