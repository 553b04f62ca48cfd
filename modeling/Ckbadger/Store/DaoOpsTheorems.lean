/-
Ckbadger.Store.DaoOpsTheorems — observations are sums.

No row contributes a negative amount, so a scan that adds up rows overflows exactly when
the whole sum does: it succeeds when every row can be read and the sums fit
(`foldlM_accumulateDao_eq_ok`), and neither depends on the order of the rows
(`foldlM_accumulateDao_perm`).
-/
import Ckbadger.Lib.Staging
import Ckbadger.Store.DaoOps
import Mathlib.Data.List.Dedup

namespace Ckbadger.Store

open Lib Common DaoObservation List
open Std (ExtTreeSet ExtTreeMap)

variable {entry : DaoDepositCacheEntry} {endBlock : Int} {endAr : Nat}
variable {c : DaoCompensationBreakdown} {deposits stagedEntries committed : DaoDeposits}
  {stagedCompletions : ExtTreeMap DaoOutPoint (Int × Hash32)}

/-! ## Breakdowns -/

namespace DaoCompensationBreakdown

instance : Zero DaoCompensationBreakdown := ⟨{}⟩

instance : Add DaoCompensationBreakdown :=
  ⟨fun a b => ⟨a.claimed + b.claimed, a.unclaimed + b.unclaimed, a.activeUnmade + b.activeUnmade⟩⟩

@[simp] theorem zero_claimed : (0 : DaoCompensationBreakdown).claimed = 0 := rfl
@[simp] theorem zero_unclaimed : (0 : DaoCompensationBreakdown).unclaimed = 0 := rfl
@[simp] theorem zero_activeUnmade : (0 : DaoCompensationBreakdown).activeUnmade = 0 := rfl

variable (a b : DaoCompensationBreakdown)

@[simp] theorem add_claimed : (a + b).claimed = a.claimed + b.claimed := rfl
@[simp] theorem add_unclaimed : (a + b).unclaimed = a.unclaimed + b.unclaimed := rfl
@[simp] theorem add_activeUnmade : (a + b).activeUnmade = a.activeUnmade + b.activeUnmade := rfl

instance : AddCommMonoid DaoCompensationBreakdown where
  add_assoc a b c := by ext <;> simp [add_assoc]
  zero_add a := by ext <;> simp
  add_zero a := by ext <;> simp
  add_comm a b := by ext <;> simp [add_comm]
  nsmul := nsmulRec

/-- No part is negative. -/
structure Nonneg (a : DaoCompensationBreakdown) : Prop where
  claimed : 0 ≤ a.claimed
  unclaimed : 0 ≤ a.unclaimed
  activeUnmade : 0 ≤ a.activeUnmade

/-- Every part is a machine integer. -/
structure Fits (a : DaoCompensationBreakdown) : Prop where
  claimed : fitsSignedBits 128 a.claimed
  unclaimed : fitsSignedBits 128 a.unclaimed
  activeUnmade : fitsSignedBits 128 a.activeUnmade

variable {a b}

theorem nonneg_zero : Nonneg 0 := by constructor <;> simp

theorem fits_zero : Fits 0 := by constructor <;> decide

theorem Nonneg.add (ha : a.Nonneg) (hb : b.Nonneg) : (a + b).Nonneg :=
  ⟨add_nonneg ha.1 hb.1, add_nonneg ha.2 hb.2, add_nonneg ha.3 hb.3⟩

end DaoCompensationBreakdown

theorem fits_of_add {x y : Int} (hx : 0 ≤ x) (hy : 0 ≤ y) (h : fitsSignedBits 128 (x + y) = true) :
    fitsSignedBits 128 x = true := by
  simp only [fitsSignedBits, decide_eq_true_eq] at h ⊢
  omega

theorem DaoCompensationBreakdown.Fits.of_add {a b : DaoCompensationBreakdown} (ha : a.Nonneg)
    (hb : b.Nonneg) (h : (a + b).Fits) : a.Fits :=
  ⟨fits_of_add ha.1 hb.1 h.1, fits_of_add ha.2 hb.2 h.2, fits_of_add ha.3 hb.3 h.3⟩

theorem addDaoCompensation_eq_ok {a b : DaoCompensationBreakdown} :
    addDaoCompensation a b = .ok c ↔ c = a + b ∧ c.Fits := by
  simp only [addDaoCompensation, bind_eq_ok, checked_eq_ok, return_eq_ok]
  constructor
  · rintro ⟨_, ⟨h1, rfl⟩, _, ⟨h2, rfl⟩, _, ⟨h3, rfl⟩, rfl⟩
    exact ⟨rfl, h1, h2, h3⟩
  · rintro ⟨rfl, h1, h2, h3⟩
    exact ⟨_, ⟨h1, rfl⟩, _, ⟨h2, rfl⟩, _, ⟨h3, rfl⟩, rfl⟩

/-! ## One row -/

/-- What a row that can be read contributes. -/
def contribution (entry : DaoDepositCacheEntry) (endBlock : Int) (endAr : Nat) :
    DaoCompensationBreakdown :=
  match daoCompensationForEntryAt entry endBlock endAr with
  | .ok c => c
  | .error _ => 0

/-- A row can be read at a block. -/
def ReadableAt (entry : DaoDepositCacheEntry) (endBlock : Int) (endAr : Nat) : Prop :=
  daoCompensationForEntryAt entry endBlock endAr = .ok (contribution entry endBlock endAr)

theorem daoCompensationForEntryAt_eq_ok :
    daoCompensationForEntryAt entry endBlock endAr = .ok c ↔
      ReadableAt entry endBlock endAr ∧ c = contribution entry endBlock endAr := by
  unfold ReadableAt contribution
  cases daoCompensationForEntryAt entry endBlock endAr with
  | error e => simp
  | ok d => simp [eq_comm]

theorem daoFrozenRequestCompensation_nonneg {c : Int}
    (h : daoFrozenRequestCompensation entry = .ok c) : 0 ≤ c := by
  simp only [daoFrozenRequestCompensation, bind_eq_ok] at h
  obtain ⟨_, -, _, -, _, -, _, -, h⟩ := h
  exact calculateDaoCompensationFromAr_nonneg h

/-- The guards every readable row has passed, and the four values it can have. -/
theorem ReadableAt.cases (h : ReadableAt entry endBlock endAr) :
    0 ≤ entry.capacity ∧ checkDaoLifecycle entry = .ok () ∧
      (endBlock < entry.depositBlockNumber ∧ contribution entry endBlock endAr = 0 ∨
        entry.depositBlockNumber ≤ endBlock ∧
          (entry.withdrawBlock.any (· ≤ endBlock) = true ∧
              (∃ c, daoFrozenRequestCompensation entry = .ok c ∧ entry.compensation = some c ∧
                contribution entry endBlock endAr = { claimed := c }) ∨
            entry.withdrawBlock.any (· ≤ endBlock) = false ∧
              (entry.withdrawRequestBlock.any (· ≤ endBlock) = true ∧
                  (∃ c, daoFrozenRequestCompensation entry = .ok c ∧
                    contribution entry endBlock endAr = { unclaimed := c }) ∨
                entry.withdrawRequestBlock.any (· ≤ endBlock) = false ∧
                  ∃ depositAr c, rateOf "negative DAO deposit AR" entry.depositAr = .ok depositAr ∧
                    calculateDaoCompensationFromAr entry.capacity entry.occupiedCapacity depositAr
                      endAr = .ok c ∧
                    contribution entry endBlock endAr = { unclaimed := c, activeUnmade := c }))) := by
  unfold ReadableAt at h
  generalize contribution entry endBlock endAr = value at h ⊢
  simp only [daoCompensationForEntryAt, daoCompensationFrom, bind_eq_ok, ensure_eq_ok] at h
  obtain ⟨-, ⟨hcapacity, -⟩, _, hcheck, depositAr, hrate, h⟩ := h
  refine ⟨hcapacity, hcheck, ?_⟩
  split at h
  · rename_i hbefore
    exact .inl ⟨hbefore, (return_eq_ok.mp h).symm⟩
  · rename_i hbefore
    refine .inr ⟨not_lt.mp hbefore, ?_⟩
    split at h
    · rename_i hwithdrawn
      simp only [bind_eq_ok, ensure_eq_ok, required_eq_ok, return_eq_ok] at h
      obtain ⟨c, hc, -, -, expected, hexpected, -, rfl, rfl⟩ := h
      exact .inl ⟨hwithdrawn, c, hexpected, hc, rfl⟩
    · rename_i hwithdrawn
      refine .inr ⟨by simpa using hwithdrawn, ?_⟩
      split at h
      · rename_i hrequested
        simp only [bind_eq_ok, return_eq_ok] at h
        obtain ⟨c, hc, -, -, -, -, rfl⟩ := h
        exact .inl ⟨hrequested, c, hc, rfl⟩
      · rename_i hrequested
        simp only [bind_eq_ok, return_eq_ok] at h
        obtain ⟨c, hc, rfl⟩ := h
        exact .inr ⟨by simpa using hrequested, depositAr, c, hrate, hc, rfl⟩

theorem ReadableAt.nonneg (h : ReadableAt entry endBlock endAr) :
    (contribution entry endBlock endAr).Nonneg := by
  obtain ⟨-, -, ⟨-, heq⟩ | ⟨-, ⟨-, c, hc, -, heq⟩ | ⟨-, ⟨-, c, hc, heq⟩ | ⟨-, _, c, -, hc, heq⟩⟩⟩⟩ :=
    h.cases
  · rw [heq]
    exact DaoCompensationBreakdown.nonneg_zero
  · rw [heq]
    exact ⟨daoFrozenRequestCompensation_nonneg hc, le_rfl, le_rfl⟩
  · rw [heq]
    exact ⟨le_rfl, daoFrozenRequestCompensation_nonneg hc, le_rfl⟩
  · rw [heq]
    have hnonneg := calculateDaoCompensationFromAr_nonneg hc
    exact ⟨le_rfl, hnonneg, hnonneg⟩

/-! ## A scan -/

/-- What a row adds to the view of one block. -/
def DaoHistoricalState.add (state : DaoHistoricalState) (entry : DaoDepositCacheEntry)
    (block : Int) (ar : Nat) : DaoHistoricalState :=
  { state with
    totalDeposited := state.totalDeposited + if activeAt entry block then entry.capacity else 0
    compensation := state.compensation + contribution entry block ar }

section Scan

variable (endBlock : Int) (endAr : Nat) (historical : Option (Int × Nat))

/-- What a row adds to an observation. -/
def DaoObservation.add (obs : DaoObservation) (entry : DaoDepositCacheEntry) : DaoObservation where
  total := obs.total + contribution entry endBlock endAr
  historical := historical.elim obs.historical fun h => obs.historical.add entry h.1 h.2
  depositors :=
    if historical.any (activeAt entry ·.1) then obs.depositors.insert entry.lockScriptHash
    else obs.depositors

/-- A row can be read at both blocks of an observation. -/
def Readable (entry : DaoDepositCacheEntry) : Prop :=
  ReadableAt entry endBlock endAr ∧ ∀ h ∈ historical, ReadableAt entry h.1 h.2

/-- No part of an observation is negative. -/
structure DaoObservation.Nonneg (obs : DaoObservation) : Prop where
  total : obs.total.Nonneg
  deposited : 0 ≤ obs.historical.totalDeposited
  compensation : obs.historical.compensation.Nonneg

/-- Every part of an observation is a machine integer. -/
structure DaoObservation.Fits (obs : DaoObservation) : Prop where
  total : obs.total.Fits
  deposited : fitsSignedBits 128 obs.historical.totalDeposited
  compensation : obs.historical.compensation.Fits

theorem DaoObservation.nonneg_empty : DaoObservation.Nonneg {} :=
  ⟨DaoCompensationBreakdown.nonneg_zero, le_rfl, DaoCompensationBreakdown.nonneg_zero⟩

theorem DaoObservation.fits_empty : DaoObservation.Fits {} :=
  ⟨DaoCompensationBreakdown.fits_zero, by decide, DaoCompensationBreakdown.fits_zero⟩

variable {endBlock endAr historical} {obs obs' : DaoObservation}
variable {entries : List DaoDepositCacheEntry}

theorem DaoObservation.Nonneg.add (hobs : obs.Nonneg) (h : Readable endBlock endAr historical entry) :
    (obs.add endBlock endAr historical entry).Nonneg := by
  refine ⟨hobs.total.add h.1.nonneg, ?_, ?_⟩
  · cases historical with
    | none => exact hobs.deposited
    | some at_ =>
      have hcapacity := h.1.cases.1
      have hdeposited := hobs.deposited
      simp only [add, DaoHistoricalState.add, Option.elim_some]
      split <;> omega
  · cases historical with
    | none => exact hobs.compensation
    | some at_ => exact hobs.compensation.add (h.2 at_ rfl).nonneg

/-- An overflow is not undone by adding further rows. -/
theorem DaoObservation.Fits.of_add (hobs : obs.Nonneg) (h : Readable endBlock endAr historical entry)
    (hfits : (obs.add endBlock endAr historical entry).Fits) : obs.Fits := by
  refine ⟨hfits.total.of_add hobs.total h.1.nonneg, ?_, ?_⟩
  · cases historical with
    | none => exact hfits.deposited
    | some at_ =>
      refine fits_of_add hobs.deposited ?_ hfits.deposited
      split
      · exact h.1.cases.1
      · exact le_rfl
  · cases historical with
    | none => exact hfits.compensation
    | some at_ => exact hfits.compensation.of_add hobs.compensation (h.2 at_ rfl).nonneg

theorem DaoObservation.Fits.of_foldl (hobs : obs.Nonneg)
    (h : ∀ entry ∈ entries, Readable endBlock endAr historical entry)
    (hfits : (entries.foldl (add endBlock endAr historical) obs).Fits) :
    obs.Fits := by
  induction entries generalizing obs with
  | nil => exact hfits
  | cons entry entries ih =>
    obtain ⟨hread, hreads⟩ := forall_mem_cons.mp h
    exact .of_add hobs hread (ih (hobs.add hread) hreads hfits)

theorem accumulateHistorical_eq_ok {at_ : Int × Nat} (hobs : obs.Fits)
    (hread : ReadableAt entry endBlock endAr) :
    accumulateHistorical endBlock endAr obs entry (contribution entry endBlock endAr) at_ = .ok obs' ↔
      ReadableAt entry at_.1 at_.2 ∧
        obs' = { obs with
          historical := obs.historical.add entry at_.1 at_.2
          depositors := if activeAt entry at_.1 then obs.depositors.insert entry.lockScriptHash
            else obs.depositors } ∧ obs'.Fits := by
  obtain ⟨block, ar⟩ := at_
  have hcontribution : (if block = endBlock ∧ ar = endAr then
      .ok (contribution entry endBlock endAr) else daoCompensationForEntryAt entry block ar)
        = daoCompensationForEntryAt entry block ar := by
    split
    · rename_i heq
      rw [heq.1, heq.2]
      exact hread.symm
    · rfl
  simp only [accumulateHistorical, hcontribution, bind_eq_ok, daoCompensationForEntryAt_eq_ok,
    addDaoCompensation_eq_ok, return_eq_ok]
  constructor
  · rintro ⟨deposited, hdeposited, _, ⟨hat, rfl⟩, _, ⟨rfl, hfits⟩, rfl⟩
    have hvalue : deposited = obs.historical.totalDeposited +
          (if activeAt entry block then entry.capacity else 0) ∧
        fitsSignedBits 128 deposited = true := by
      split at hdeposited
      · rename_i hactive
        obtain ⟨hfits, rfl⟩ := checked_eq_ok.mp hdeposited
        exact ⟨by rw [if_pos hactive], hfits⟩
      · rename_i hactive
        cases hdeposited
        exact ⟨by rw [if_neg hactive, add_zero], hobs.deposited⟩
    exact ⟨hat, by simp [DaoHistoricalState.add, hvalue.1], hobs.total, hvalue.2, hfits⟩
  · rintro ⟨hat, rfl, hfits⟩
    refine ⟨_, ?_, _, ⟨hat, rfl⟩, _, ⟨rfl, hfits.compensation⟩, rfl⟩
    split
    · rename_i hactive
      refine checked_eq_ok.mpr ?_
      have hdeposited := hfits.deposited
      simp only [DaoHistoricalState.add, if_pos hactive] at hdeposited ⊢
      exact ⟨hdeposited, trivial⟩
    · simp

theorem accumulateDao_eq_ok (hobs : obs.Fits) :
    accumulateDao endBlock endAr historical obs entry = .ok obs' ↔
      Readable endBlock endAr historical entry ∧ obs' = obs.add endBlock endAr historical entry ∧
        obs'.Fits := by
  simp only [accumulateDao, bind_eq_ok, daoCompensationForEntryAt_eq_ok, addDaoCompensation_eq_ok]
  cases historical with
  | none =>
    simp only [return_eq_ok]
    constructor
    · rintro ⟨_, ⟨hread, rfl⟩, _, ⟨rfl, hfits⟩, rfl⟩
      exact ⟨⟨hread, by simp⟩, rfl, hfits, hobs.deposited, hobs.compensation⟩
    · rintro ⟨hread, rfl, hfits⟩
      exact ⟨_, ⟨hread.1, rfl⟩, _, ⟨rfl, hfits.total⟩, rfl⟩
  | some at_ =>
    constructor
    · rintro ⟨_, ⟨hread, rfl⟩, _, ⟨rfl, hfits⟩, h⟩
      have hobs' : DaoObservation.Fits
          { obs with total := obs.total + contribution entry endBlock endAr } :=
        ⟨hfits, hobs.deposited, hobs.compensation⟩
      obtain ⟨hat, heq, hfits'⟩ := (accumulateHistorical_eq_ok hobs' hread).mp h
      exact ⟨⟨hread, by simpa using hat⟩, heq, hfits'⟩
    · rintro ⟨hread, heq, hfits⟩
      have htotal : (obs.total + contribution entry endBlock endAr).Fits := by
        have htotal := hfits.total
        rwa [heq] at htotal
      have hobs' : DaoObservation.Fits
          { obs with total := obs.total + contribution entry endBlock endAr } :=
        ⟨htotal, hobs.deposited, hobs.compensation⟩
      refine ⟨_, ⟨hread.1, rfl⟩, _, ⟨rfl, htotal⟩, ?_⟩
      exact (accumulateHistorical_eq_ok hobs' hread.1).mpr ⟨hread.2 at_ rfl, heq, hfits⟩

/-- A scan succeeds exactly when every row can be read and the sums of all rows fit. -/
theorem foldlM_accumulateDao_eq_ok (hobs : obs.Fits) (hnonneg : obs.Nonneg) :
    entries.foldlM (accumulateDao endBlock endAr historical) obs = .ok obs' ↔
      (∀ entry ∈ entries, Readable endBlock endAr historical entry) ∧
        obs' = entries.foldl (add endBlock endAr historical) obs ∧ obs'.Fits := by
  induction entries generalizing obs with
  | nil =>
    simp only [foldlM_nil, return_eq_ok, not_mem_nil, false_implies, implies_true, true_and]
    constructor
    · rintro rfl
      exact ⟨rfl, hobs⟩
    · rintro ⟨rfl, -⟩
      rfl
  | cons entry entries ih =>
    rw [foldlM_cons_eq_ok]
    simp only [forall_mem_cons]
    constructor
    · rintro ⟨mid, hstep, hrest⟩
      obtain ⟨hread, rfl, hfits⟩ := (accumulateDao_eq_ok hobs).mp hstep
      obtain ⟨hreads, heq, hfits'⟩ := (ih hfits (hnonneg.add hread)).mp hrest
      exact ⟨⟨hread, hreads⟩, heq, hfits'⟩
    · rintro ⟨⟨hread, hreads⟩, heq, hfits'⟩
      have hfits : (obs.add endBlock endAr historical entry).Fits :=
        .of_foldl (hnonneg.add hread) hreads (heq ▸ hfits')
      exact ⟨_, (accumulateDao_eq_ok hobs).mpr ⟨hread, rfl, hfits⟩,
        (ih hfits (hnonneg.add hread)).mpr ⟨hreads, heq, hfits'⟩⟩

instance : RightCommutative (add endBlock endAr historical) where
  right_comm obs a b := by
    cases historical with
    | none => simp [add, add_right_comm]
    | some at_ =>
      simp only [add, DaoHistoricalState.add, Option.elim_some, Option.any_some,
        mk.injEq, add_right_comm, true_and]
      refine ExtTreeSet.ext_mem fun lock => ?_
      split <;> split <;> simp [ExtTreeSet.mem_insert, or_left_comm]

theorem foldlM_accumulateDao_perm {entries' : List DaoDepositCacheEntry} (hobs : obs.Fits)
    (hnonneg : obs.Nonneg) (hperm : entries.Perm entries') :
    entries.foldlM (accumulateDao endBlock endAr historical) obs = .ok obs' ↔
      entries'.foldlM (accumulateDao endBlock endAr historical) obs = .ok obs' := by
  rw [foldlM_accumulateDao_eq_ok hobs hnonneg, foldlM_accumulateDao_eq_ok hobs hnonneg,
    hperm.foldl_eq]
  simp [hperm.mem_iff]

end Scan

/-! ## Observations through staged rows -/

/-- The rows that staged rows and staged completions stand for, the output a withdrawal is
paid to apart. -/
structure Overlay (deposits stagedEntries : DaoDeposits)
    (stagedCompletions : ExtTreeMap DaoOutPoint (Int × Hash32))
    (committed : DaoDeposits) : Prop where
  staged : ∀ (key : DaoOutPoint) (entry : DaoDepositCacheEntry),
    stagedEntries[key]? = some entry → committed[key]? = some entry
  completed : ∀ (key : DaoOutPoint) (block : Int) (tx : Hash32),
    stagedCompletions[key]? = some (block, tx) → stagedEntries[key]? = none ∧
      ∃ entry completed output, deposits[key]? = some entry ∧
        daoEntryWithStagedCompletion entry block tx = .ok completed ∧
        committed[key]? = some { completed with withdrawToOutputIndex := output }
  untouched : ∀ key : DaoOutPoint, stagedEntries[key]? = none → stagedCompletions[key]? = none →
    committed[key]? = deposits[key]?

namespace Overlay

variable {historical : Option (Int × Nat)}

/-- The committed rows without the staged ones. -/
def unstaged (stagedEntries committed : DaoDeposits)
    (key : DaoOutPoint) : Option DaoDepositCacheEntry :=
  if stagedEntries.contains key then none else committed[key]?

section

variable (h : Overlay deposits stagedEntries stagedCompletions committed)

include h

/-- The scan of the deposits adds up the committed rows that are not staged, and counts
the staged completions. -/
theorem foldlM_scan_eq_ok {rows : List (DaoOutPoint × DaoDepositCacheEntry)}
    (hrows : ∀ row ∈ rows, deposits[row.1]? = some row.2) {obs obs' : DaoObservation} {n n' : Nat} :
    rows.foldlM (scanDaoDeposit endBlock endAr historical stagedEntries stagedCompletions) (obs, n)
        = .ok (obs', n') ↔
      ((rows.map Prod.fst).filterMap (unstaged stagedEntries committed)).foldlM
          (accumulateDao endBlock endAr historical) obs = .ok obs' ∧
        n' = n + (rows.map Prod.fst).countP stagedCompletions.contains := by
  induction rows generalizing obs n with
  | nil => simp [eq_comm]
  | cons row rows ih =>
    obtain ⟨key, entry⟩ := row
    obtain ⟨hrow, hrows⟩ := forall_mem_cons.mp hrows
    rw [foldlM_cons_eq_ok]
    simp only [scanDaoDeposit, map_cons, filterMap_cons, countP_cons]
    cases hstaged : stagedEntries[key]? with
    | some staged =>
      have hcontains : stagedEntries.contains key = true := by
        simp [ExtTreeMap.contains_eq_isSome_getElem?, hstaged]
      have hnone : stagedCompletions.contains key = false := by
        cases hcompletion : stagedCompletions[key]? with
        | none => simp [ExtTreeMap.contains_eq_isSome_getElem?, hcompletion]
        | some c => simp [(h.completed key c.1 c.2 hcompletion).1] at hstaged
      simp [unstaged, hcontains, hnone, ih hrows]
    | none =>
      have hcontains : stagedEntries.contains key = false := by
        simp [ExtTreeMap.contains_eq_isSome_getElem?, hstaged]
      cases hcompletion : stagedCompletions[key]? with
      | none =>
        have hnone : stagedCompletions.contains key = false := by
          simp [ExtTreeMap.contains_eq_isSome_getElem?, hcompletion]
        have hcommitted := (h.untouched key hstaged hcompletion).trans hrow
        simp only [unstaged, hcontains, hnone, hcommitted, Bool.false_eq_true, if_false, bind_eq_ok,
          return_eq_ok, foldlM_cons_eq_ok]
        constructor
        · rintro ⟨_, ⟨mid, hmid, rfl⟩, hrest⟩
          obtain ⟨hrest, hn⟩ := (ih hrows).mp hrest
          exact ⟨⟨mid, hmid, hrest⟩, hn⟩
        · rintro ⟨⟨mid, hmid, hrest⟩, hn⟩
          exact ⟨_, ⟨mid, hmid, rfl⟩, (ih hrows).mpr ⟨hrest, hn⟩⟩
      | some c =>
        obtain ⟨block, tx⟩ := c
        obtain ⟨-, entry', completed, output, hentry', hcompleted, hcommitted⟩ :=
          h.completed key block tx hcompletion
        obtain rfl : entry = entry' := Option.mem_unique hrow hentry'
        have hsome : stagedCompletions.contains key = true := by
          simp [ExtTreeMap.contains_eq_isSome_getElem?, hcompletion]
        simp only [unstaged, hcontains, hsome, hcommitted, Bool.false_eq_true, if_false,
          if_true, bind_eq_ok, return_eq_ok, foldlM_cons_eq_ok, hcompleted, Except.ok.injEq,
          exists_eq_left']
        constructor
        · rintro ⟨_, ⟨mid, hmid, rfl⟩, hrest⟩
          obtain ⟨hrest, hn⟩ := (ih hrows).mp hrest
          exact ⟨⟨mid, hmid, hrest⟩, by omega⟩
        · rintro ⟨⟨mid, hmid, hrest⟩, hn⟩
          exact ⟨_, ⟨mid, hmid, rfl⟩, (ih hrows).mpr ⟨hrest, by omega⟩⟩

theorem countP_completions :
    deposits.keys.countP stagedCompletions.contains = stagedCompletions.size := by
  rw [countP_eq_length_filter, ← ExtTreeMap.length_keys]
  refine List.Perm.length_eq ?_
  rw [perm_ext_iff_of_nodup (ExtTreeMap.nodup_keys.filter _) ExtTreeMap.nodup_keys]
  intro key
  rw [mem_filter, ExtTreeMap.mem_keys, ExtTreeMap.mem_keys]
  refine and_iff_right_of_imp fun hkey => ?_
  have hcompletion := ExtTreeMap.getElem?_eq_some_getElem hkey
  obtain ⟨-, _, _, _, hentry, -⟩ := h.completed key _ _ hcompletion
  exact ExtTreeMap.mem_iff_isSome_getElem?.mpr (by simp [hentry])

/-- Unstaged and staged rows together are the committed ones. -/
theorem perm_rows :
    (deposits.keys.filterMap (unstaged stagedEntries committed)
        ++ stagedEntries.toList.map Prod.snd).Perm (committed.toList.map Prod.snd) := by
  have hunstaged : deposits.keys.filterMap (unstaged stagedEntries committed)
      = (deposits.keys.filter fun key => !stagedEntries.contains key).filterMap (committed[·]?) := by
    rw [filterMap_filter]
    refine filterMap_congr fun key _ => ?_
    cases hkey : stagedEntries.contains key <;> simp [unstaged, hkey]
  have hstaged : stagedEntries.toList.map Prod.snd
      = stagedEntries.keys.filterMap (committed[·]?) := by
    rw [map_snd_toList]
    refine filterMap_congr fun key hkey => ?_
    have hentry := ExtTreeMap.getElem?_eq_some_getElem (ExtTreeMap.mem_keys.mp hkey)
    rw [hentry, h.staged key _ hentry]
  rw [hunstaged, hstaged, ← filterMap_append, map_snd_toList]
  refine List.Perm.filterMap _ ?_
  have hdisjoint : (deposits.keys.filter fun key => !stagedEntries.contains key).Disjoint
      stagedEntries.keys := by
    intro key hkey hkey'
    rw [ExtTreeMap.mem_keys, ExtTreeMap.mem_iff_contains] at hkey'
    simp [hkey'] at hkey
  have hnodup := List.Nodup.append (ExtTreeMap.nodup_keys.filter _) ExtTreeMap.nodup_keys hdisjoint
  rw [perm_ext_iff_of_nodup hnodup ExtTreeMap.nodup_keys]
  intro key
  simp only [mem_append, mem_filter, ExtTreeMap.mem_keys,
    ExtTreeMap.mem_iff_isSome_getElem?, ExtTreeMap.contains_eq_isSome_getElem?]
  cases hstaged : stagedEntries[key]? with
  | some entry => simp [h.staged key entry hstaged]
  | none =>
    cases hcompletion : stagedCompletions[key]? with
    | none => simp [h.untouched key hstaged hcompletion]
    | some c =>
      obtain ⟨-, _, _, _, hentry, -, hcommitted⟩ := h.completed key c.1 c.2 hcompletion
      simp [hentry, hcommitted]

omit h in
theorem nothing_staged (committed : DaoDeposits) :
    Overlay committed ∅ ∅ committed where
  staged := by simp
  completed := by simp
  untouched := by simp

/-- An observation adds up the committed rows. -/
theorem observations_eq_ok {result : DaoCompensationBreakdown × Option DaoHistoricalState} :
    computeDaoObservationsAtWithStaged endBlock endAr historical deposits stagedEntries
        stagedCompletions = .ok result ↔
      ∃ obs : DaoObservation,
        (committed.toList.map Prod.snd).foldlM (accumulateDao endBlock endAr historical) {} = .ok obs ∧
        result = (obs.total, historical.map fun _ =>
          { obs.historical with depositorsCount := obs.depositors.size }) := by
  have hdisjoint : ∀ key ∈ stagedCompletions.keys, stagedEntries.contains key = false := by
    intro key hkey
    have hcompletion := ExtTreeMap.getElem?_eq_some_getElem (ExtTreeMap.mem_keys.mp hkey)
    simp [ExtTreeMap.contains_eq_isSome_getElem?, (h.completed key _ _ hcompletion).1]
  have hrows : ∀ row ∈ deposits.toList, deposits[row.1]? = some row.2 := fun row hrow =>
    ExtTreeMap.mem_toList_iff_getElem?_eq_some.mp hrow
  have hcount := h.countP_completions
  have hperm : ∀ obs, _ ↔ _ := fun obs => @foldlM_accumulateDao_perm endBlock endAr historical {} obs _ _
    fits_empty nonneg_empty h.perm_rows
  simp only [foldlM_append, foldlM_map] at hperm
  simp only [computeDaoObservationsAtWithStaged, bind_eq_ok, ensure_eq_ok, return_eq_ok,
    exists_const, Prod.exists, h.foldlM_scan_eq_ok hrows,
    ExtTreeMap.map_fst_toList_eq_keys, hcount, zero_add, foldlM_map, ← hperm]
  constructor
  · rintro ⟨-, obs, n, ⟨hscan, -⟩, -, obs', hstaged, rfl⟩
    exact ⟨obs', ⟨obs, hscan, hstaged⟩, rfl⟩
  · rintro ⟨obs', ⟨obs, hscan, hstaged⟩, rfl⟩
    exact ⟨hdisjoint, obs, _, ⟨hscan, rfl⟩, rfl, obs', hstaged, rfl⟩

end

end Overlay

/-! ## The compensation of a store -/

theorem sum_claimed (l : List DaoCompensationBreakdown) : l.sum.claimed = (l.map (·.claimed)).sum := by
  induction l with
  | nil => rfl
  | cons c l ih => simp [ih]

theorem sum_unclaimed (l : List DaoCompensationBreakdown) :
    l.sum.unclaimed = (l.map (·.unclaimed)).sum := by
  induction l with
  | nil => rfl
  | cons c l ih => simp [ih]

theorem sum_activeUnmade (l : List DaoCompensationBreakdown) :
    l.sum.activeUnmade = (l.map (·.activeUnmade)).sum := by
  induction l with
  | nil => rfl
  | cons c l ih => simp [ih]

section Sums

variable (endBlock : Int) (endAr : Nat) (historical : Option (Int × Nat))
  (entries : List DaoDepositCacheEntry)

/-- What rows add up to, each counted once: their contributions, and at the block of a historical
view the capacity and the locks of those that are active there. -/
def observationOf : DaoCompensationBreakdown × Option DaoHistoricalState :=
  ((entries.map (contribution · endBlock endAr)).sum, historical.map fun h =>
    let active := entries.filter (activeAt · h.1)
    { totalDeposited := (active.map (·.capacity)).sum
      depositorsCount := (active.map (·.lockScriptHash)).dedup.length
      compensation := (entries.map (contribution · h.1 h.2)).sum })

theorem foldl_add_eq (obs : DaoObservation) :
    entries.foldl (add endBlock endAr historical) obs = historical.elim
      { obs with total := obs.total + (entries.map (contribution · endBlock endAr)).sum }
      fun h =>
        let active := entries.filter (activeAt · h.1)
        { total := obs.total + (entries.map (contribution · endBlock endAr)).sum
          historical := { obs.historical with
            totalDeposited := obs.historical.totalDeposited + (active.map (·.capacity)).sum
            compensation := obs.historical.compensation + (entries.map (contribution · h.1 h.2)).sum }
          depositors := (active.map (·.lockScriptHash)).foldl .insert obs.depositors } := by
  induction entries generalizing obs with
  | nil => cases historical <;> simp
  | cons entry entries ih =>
    cases historical with
    | none => simp [ih, add, add_assoc]
    | some h =>
      cases hactive : activeAt entry h.1 <;>
        simp [ih, add, DaoHistoricalState.add, hactive, add_assoc]

theorem size_foldl_insert (locks : List Bytes) :
    (locks.foldl .insert (∅ : ExtTreeSet Bytes)).size = locks.dedup.length := by
  have hmem : ∀ (set : ExtTreeSet Bytes) (lock : Bytes),
      lock ∈ locks.foldl .insert set ↔ lock ∈ locks ∨ lock ∈ set := by
    induction locks with
    | nil => simp
    | cons l locks ih =>
      intro set lock
      rw [foldl_cons, ih, ExtTreeSet.mem_insert, mem_cons, Std.LawfulEqCmp.compare_eq_iff_eq]
      tauto
  have hnodup : (locks.foldl .insert (∅ : ExtTreeSet Bytes)).toList.Nodup :=
    ExtTreeSet.distinct_toList.imp fun hne heq => hne (Std.LawfulEqCmp.compare_eq_iff_eq.mpr heq)
  rw [← ExtTreeSet.length_toList]
  refine List.Perm.length_eq ((perm_ext_iff_of_nodup hnodup (nodup_dedup _)).mpr fun lock => ?_)
  simp [hmem]

variable {endBlock endAr historical}

/-- **A successful observation counts each committed row once.** -/
theorem Overlay.eq_observationOf (h : Overlay deposits stagedEntries stagedCompletions committed)
    {result : DaoCompensationBreakdown × Option DaoHistoricalState}
    (hresult : computeDaoObservationsAtWithStaged endBlock endAr historical deposits stagedEntries
      stagedCompletions = .ok result) :
    (∀ row ∈ committed.toList, Readable endBlock endAr historical row.2) ∧
      result = observationOf endBlock endAr historical (committed.toList.map Prod.snd) := by
  obtain ⟨_, hscan, rfl⟩ := h.observations_eq_ok.mp hresult
  obtain ⟨hread, rfl, -⟩ := (foldlM_accumulateDao_eq_ok fits_empty nonneg_empty).mp hscan
  refine ⟨forall_mem_map.mp hread, ?_⟩
  have hzero : ({} : DaoCompensationBreakdown) = 0 := rfl
  cases historical with
  | none => simp [foldl_add_eq, observationOf, hzero]
  | some h => simp [foldl_add_eq, observationOf, hzero, size_foldl_insert]

end Sums

/-- The compensation of a store is the sum of its rows, when each can be read and the sums
fit. -/
theorem computeDaoCompensationBreakdownAt_eq_ok
    {deposits : DaoDeposits} :
    computeDaoCompensationBreakdownAt endBlock endAr deposits = .ok c ↔
      (∀ row ∈ deposits.toList, ReadableAt row.2 endBlock endAr) ∧
        c = (deposits.toList.map fun row => contribution row.2 endBlock endAr).sum ∧ c.Fits := by
  simp only [computeDaoCompensationBreakdownAt, bind_eq_ok, return_eq_ok,
    (Overlay.nothing_staged deposits).observations_eq_ok,
    foldlM_accumulateDao_eq_ok fits_empty nonneg_empty,
    foldl_add_eq, Option.elim_none, forall_mem_map]
  constructor
  · rintro ⟨_, ⟨_, ⟨hread, rfl, hfits⟩, rfl⟩, rfl⟩
    have htotal := hfits.total
    simp only [map_map] at htotal ⊢
    exact ⟨fun row hrow => (hread row hrow).1, zero_add _, htotal⟩
  · rintro ⟨hread, rfl, hfits⟩
    refine ⟨_, ⟨_, ⟨fun row hrow => ⟨hread row hrow, by simp⟩, rfl, ?_⟩, rfl⟩, ?_⟩
    · refine ⟨?_, fits_empty.deposited, fits_empty.compensation⟩
      simp only [map_map]
      exact (zero_add (_ : DaoCompensationBreakdown)).symm ▸ hfits
    · simp only [map_map]
      exact zero_add _

end Ckbadger.Store
