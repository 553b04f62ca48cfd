/-
Ckbadger.Store.DaoOps — DAO deposits and what they have earned at a block.

A deposit's row follows its life: deposited (status 0), withdraw requested (status 1),
withdrawn (status 2). At an observation block a deposit has earned nothing yet, is still
earning, has its compensation frozen at the rate of its request, or has been paid. The
observation of a store adds these up over all rows; an observation before a commit reads
the rows the batch has staged instead of the committed ones.
-/
import Ckbadger.Common.Dao
import Ckbadger.Lib.FixedHash

namespace Ckbadger.Store

open Lib Common Std

/-! ## Rows -/

/-- The key of a cell, in the order of its bytes. -/
structure DaoOutPoint where
  txHash : Hash32
  index : Nat
  deriving DecidableEq

namespace DaoOutPoint

instance : Ord DaoOutPoint := ⟨compareLex (compareOn txHash) (compareOn index)⟩

instance : TransOrd DaoOutPoint :=
  inferInstanceAs (TransCmp (compareLex (compareOn txHash) (compareOn index)))

instance : LawfulEqOrd DaoOutPoint := lawfulEqCmp_compareLex (by rintro ⟨⟩ ⟨⟩ rfl rfl; rfl)

end DaoOutPoint

structure DaoDepositCacheEntry where
  capacity : Int
  occupiedCapacity : Int
  depositBlockNumber : Int
  depositTimestamp : Int
  lockScriptHash : Bytes
  depositAr : Int
  status : Int
  withdrawRequestTx : Option Hash32 := none
  withdrawRequestOutputIndex : Option Nat := none
  withdrawRequestBlock : Option Int := none
  withdrawRequestAr : Option Int := none
  withdrawRequestOccupiedCapacity : Option Int := none
  withdrawBlock : Option Int := none
  withdrawTx : Option Hash32 := none
  withdrawToOutputIndex : Option Nat := none
  compensation : Option Int := none
  depositChainTimeMs : Int
  deriving DecidableEq

abbrev DaoDeposits := ExtTreeMap DaoOutPoint DaoDepositCacheEntry

/-! ## The compensation of one deposit -/

@[ext] structure DaoCompensationBreakdown where
  claimed : Int := 0
  unclaimed : Int := 0
  activeUnmade : Int := 0
  deriving DecidableEq

/-- A rate of a row, which must not be negative. -/
def rateOf (error : String) (ar : Int) : Except String Nat :=
  if 0 ≤ ar then .ok ar.toNat else .error error

theorem rateOf_eq_ok {error : String} {ar : Int} {n : Nat} :
    rateOf error ar = .ok n ↔ 0 ≤ ar ∧ ar.toNat = n := by
  unfold rateOf
  split <;> simp [*]

/-- The compensation frozen at the rate of the withdraw request, on the free capacity of
the request's own cell. -/
def daoFrozenRequestCompensation (entry : DaoDepositCacheEntry) : Except String Int := do
  let depositAr ← rateOf "negative DAO deposit AR" entry.depositAr
  let requestAr ← required "DAO deposit missing withdraw request AR" entry.withdrawRequestAr
  let requestAr ← rateOf "negative DAO withdraw request AR" requestAr
  let requestOccupiedCapacity ←
    required "DAO deposit missing withdraw request occupied capacity"
      entry.withdrawRequestOccupiedCapacity
  calculateDaoCompensationFromAr entry.capacity requestOccupiedCapacity depositAr requestAr

/-- A committed request, completed as a batch that is not committed yet completes it. -/
def daoEntryWithStagedCompletion (entry : DaoDepositCacheEntry) (withdrawBlock : Int)
    (withdrawTx : Hash32) : Except String DaoDepositCacheEntry := do
  ensure (entry.status = 1) "staged DAO completion applied to a non phase-1 deposit"
  let requestBlock ←
    required "staged DAO completion on a deposit without a withdraw request block"
      entry.withdrawRequestBlock
  ensure (requestBlock < withdrawBlock)
    "staged DAO completion block is not after the withdraw request"
  let compensation ← daoFrozenRequestCompensation entry
  return { entry with
    status := 2
    withdrawBlock := some withdrawBlock
    withdrawTx := some withdrawTx
    compensation := some compensation }

/-- The fields of a row fit its status. -/
def checkDaoLifecycle (entry : DaoDepositCacheEntry) : Except String Unit :=
  if entry.status = 0 then
    ensure (entry.withdrawRequestTx = none ∧ entry.withdrawRequestOutputIndex = none ∧
        entry.withdrawRequestBlock = none ∧ entry.withdrawRequestAr = none ∧
        entry.withdrawBlock = none ∧ entry.withdrawTx = none ∧ entry.compensation = none)
      "status-0 DAO deposit has lifecycle fields"
  else if entry.status = 1 ∨ entry.status = 2 then do
    let requestBlock ← required "DAO deposit missing withdraw request block"
      entry.withdrawRequestBlock
    ensure (entry.depositBlockNumber ≤ requestBlock ∧ entry.withdrawRequestTx.isSome ∧
        entry.withdrawRequestOutputIndex.isSome ∧ entry.withdrawRequestAr.isSome)
      "invalid DAO request lifecycle"
    ensure (entry.status = 1 →
        entry.withdrawBlock = none ∧ entry.withdrawTx = none ∧ entry.compensation = none)
      "status-1 DAO deposit has completion fields"
    if entry.status = 2 then
      let withdrawBlock ← required "completed DAO deposit missing withdraw block"
        entry.withdrawBlock
      ensure (requestBlock < withdrawBlock ∧ entry.withdrawTx.isSome ∧ entry.compensation.isSome)
        "invalid completed DAO lifecycle"
  else .error "unknown DAO deposit status in compensation lifecycle"

/-- What a deposit that passes the checks has earned at an observation block. -/
def daoCompensationFrom (entry : DaoDepositCacheEntry) (depositAr : Nat) (endBlock : Int)
    (endAr : Nat) : Except String DaoCompensationBreakdown :=
  if endBlock < entry.depositBlockNumber then
    return {}
  else if entry.withdrawBlock.any (· ≤ endBlock) then do
    let claimed ← required "completed DAO deposit missing compensation" entry.compensation
    ensure (0 ≤ claimed) "completed DAO deposit has negative compensation"
    let expected ← daoFrozenRequestCompensation entry
    ensure (claimed = expected) "stored DAO compensation differs from exact request-AR calculation"
    return { claimed := claimed }
  else if entry.withdrawRequestBlock.any (· ≤ endBlock) then do
    let expected ← daoFrozenRequestCompensation entry
    ensure (∀ stored ∈ entry.compensation, 0 ≤ stored)
      "phase-1 DAO deposit has negative stored compensation"
    ensure (∀ stored ∈ entry.compensation, stored = expected)
      "stored DAO compensation differs from exact request-AR calculation"
    return { unclaimed := expected }
  else do
    let compensation ←
      calculateDaoCompensationFromAr entry.capacity entry.occupiedCapacity depositAr endAr
    return { unclaimed := compensation, activeUnmade := compensation }

/-- What a deposit has earned at an observation block, at the rate of that block. -/
def daoCompensationForEntryAt (entry : DaoDepositCacheEntry) (endBlock : Int) (endAr : Nat) :
    Except String DaoCompensationBreakdown := do
  ensure (0 ≤ entry.capacity ∧ 0 ≤ entry.occupiedCapacity ∧
      entry.occupiedCapacity ≤ entry.capacity)
    "invalid DAO deposit capacity in compensation lifecycle"
  checkDaoLifecycle entry
  let depositAr ← rateOf "negative DAO deposit AR" entry.depositAr
  daoCompensationFrom entry depositAr endBlock endAr

/-! ## Observations of a store -/

def addDaoCompensation (total contribution : DaoCompensationBreakdown) :
    Except String DaoCompensationBreakdown := do
  let claimed ← checked 128 (total.claimed + contribution.claimed)
    "claimed DAO compensation overflow"
  let unclaimed ← checked 128 (total.unclaimed + contribution.unclaimed)
    "unclaimed DAO compensation overflow"
  let activeUnmade ← checked 128 (total.activeUnmade + contribution.activeUnmade)
    "active_unmade DAO compensation overflow"
  return { claimed, unclaimed, activeUnmade }

structure DaoHistoricalState where
  totalDeposited : Int := 0
  depositorsCount : Nat := 0
  compensation : DaoCompensationBreakdown := {}
  deriving DecidableEq

/-- What a scan has added up: the current view, and where it was asked for the historical
one with the depositors it counts. -/
structure DaoObservation where
  total : DaoCompensationBreakdown := {}
  historical : DaoHistoricalState := {}
  depositors : ExtTreeSet Bytes := ∅

section Observations

variable (endBlock : Int) (endAr : Nat) (historical : Option (Int × Nat))

/-- Whether a deposit is one of those the historical view counts. -/
def activeAt (entry : DaoDepositCacheEntry) (block : Int) : Bool :=
  decide (entry.depositBlockNumber ≤ block) && !entry.withdrawRequestBlock.any (· ≤ block)

/-- Adds a row to the historical view. -/
def accumulateHistorical (obs : DaoObservation) (entry : DaoDepositCacheEntry)
    (contribution : DaoCompensationBreakdown) : Int × Nat → Except String DaoObservation
  | (block, ar) => do
    let totalDeposited ←
      (if activeAt entry block then
        checked 128 (obs.historical.totalDeposited + entry.capacity)
          "historical DAO deposited capacity overflow"
      else .ok obs.historical.totalDeposited)
    let historicalContribution ←
      (if block = endBlock ∧ ar = endAr then .ok contribution
      else daoCompensationForEntryAt entry block ar)
    let compensation ← addDaoCompensation obs.historical.compensation historicalContribution
    return { obs with
      historical := { obs.historical with totalDeposited, compensation }
      depositors :=
        if activeAt entry block then obs.depositors.insert entry.lockScriptHash
        else obs.depositors }

/-- Adds a row to the observation. -/
def accumulateDao (obs : DaoObservation) (entry : DaoDepositCacheEntry) :
    Except String DaoObservation := do
  let contribution ← daoCompensationForEntryAt entry endBlock endAr
  let total ← addDaoCompensation obs.total contribution
  match historical with
  | none => return { obs with total }
  | some at_ => accumulateHistorical endBlock endAr { obs with total } entry contribution at_

variable (deposits : DaoDeposits)
  (stagedEntries : DaoDeposits)
  (stagedCompletions : ExtTreeMap DaoOutPoint (Int × Hash32))

/-- One committed row, with the number of staged completions seen so far. -/
def scanDaoDeposit (acc : DaoObservation × Nat) (row : DaoOutPoint × DaoDepositCacheEntry) :
    Except String (DaoObservation × Nat) :=
  if stagedEntries.contains row.1 then return acc
  else
    match stagedCompletions[row.1]? with
    | some (withdrawBlock, withdrawTx) => do
      let completed ← daoEntryWithStagedCompletion row.2 withdrawBlock withdrawTx
      let obs ← accumulateDao endBlock endAr historical acc.1 completed
      return (obs, acc.2 + 1)
    | none => do
      let obs ← accumulateDao endBlock endAr historical acc.1 row.2
      return (obs, acc.2)

/-- The observation of a store, through the rows a batch has staged. -/
def computeDaoObservationsAtWithStaged :
    Except String (DaoCompensationBreakdown × Option DaoHistoricalState) := do
  ensure (∀ key ∈ stagedCompletions.keys, stagedEntries.contains key = false)
    "DAO deposit staged as both entry and completion in one batch"
  let (obs, completionsObserved) ← deposits.toList.foldlM
    (scanDaoDeposit endBlock endAr historical stagedEntries stagedCompletions) ({}, 0)
  ensure (completionsObserved = stagedCompletions.size)
    "staged DAO completion refers to an uncommitted deposit"
  let obs ← stagedEntries.toList.foldlM
    (fun obs row => accumulateDao endBlock endAr historical obs row.2) obs
  return (obs.total, historical.map fun _ =>
    { obs.historical with depositorsCount := obs.depositors.size })

/-- The observation of a committed store. -/
def computeDaoCompensationBreakdownAt : Except String DaoCompensationBreakdown := do
  let (total, _) ← computeDaoObservationsAtWithStaged endBlock endAr none deposits ∅ ∅
  return total

end Observations

end Ckbadger.Store
