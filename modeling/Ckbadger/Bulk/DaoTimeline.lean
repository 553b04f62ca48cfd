/-
Ckbadger.Bulk.DaoTimeline — the bulk build's running DAO compensation.

The timeline walks the deposits, withdraw requests and completions of all lifecycles in
block order, once, and answers observations at non-decreasing blocks on the way: it keeps
which deposits are active, what each open request has frozen, and the sums of what is
frozen and of what has been claimed. Only active deposits are read again at an observation.
-/
import Ckbadger.Store.DaoOps
import Mathlib.Data.List.Sort

namespace Ckbadger.Bulk

open Lib Store Std

/-- Something that happens to a deposit in a block. -/
abbrev DaoEvent := Int × DaoOutPoint

/-- The order of events: by block, then by outpoint. -/
def eventLe (a b : DaoEvent) : Prop := ((compare a.1 b.1).then (compare a.2 b.2)).isLE = true

instance : DecidableRel eventLe := fun _ _ => inferInstanceAs (Decidable (_ = true))

def sortEvents (events : List DaoEvent) : List DaoEvent := events.insertionSort eventLe

/-- The timeline, with the events that are still to come. -/
structure DaoCompensationTimeline where
  deposits : DaoDeposits
  depositEvents : List DaoEvent
  requestEvents : List DaoEvent
  withdrawalEvents : List DaoEvent
  active : ExtTreeSet DaoOutPoint := ∅
  frozen : ExtTreeMap DaoOutPoint Int := ∅
  frozenTotal : Int := 0
  claimed : Int := 0
  lastObservationBlock : Option Int := none

/-- The events of all lifecycles, as they are collected. -/
structure DaoEvents where
  deposits : List DaoEvent := []
  requests : List DaoEvent := []
  withdrawals : List DaoEvent := []

namespace DaoCompensationTimeline

def validateRequestBlock (entry : DaoDepositCacheEntry) (requestBlock : Int) : Except String Unit :=
  ensure (entry.depositBlockNumber ≤ requestBlock)
    "DAO request block precedes deposit in bulk compensation timeline"

/-- The events of one lifecycle. -/
def collectEvents (events : DaoEvents) (row : DaoOutPoint × DaoDepositCacheEntry) :
    Except String DaoEvents := do
  let (outpoint, entry) := row
  ensure (0 ≤ entry.depositBlockNumber) "negative DAO deposit block in bulk compensation timeline"
  let deposits := events.deposits ++ [(entry.depositBlockNumber, outpoint)]
  match entry.withdrawRequestBlock, entry.withdrawBlock with
  | none, none => do
    ensure (entry.status = 0) "inconsistent DAO lifecycle in bulk compensation timeline"
    return { events with deposits }
  | some requestBlock, none => do
    ensure (entry.status = 1) "inconsistent DAO lifecycle in bulk compensation timeline"
    validateRequestBlock entry requestBlock
    return { events with deposits, requests := events.requests ++ [(requestBlock, outpoint)] }
  | some requestBlock, some withdrawBlock => do
    ensure (entry.status = 2) "inconsistent DAO lifecycle in bulk compensation timeline"
    validateRequestBlock entry requestBlock
    ensure (requestBlock < withdrawBlock)
      "DAO completion block must follow request block in bulk compensation timeline"
    ensure (entry.compensation.isSome = true)
      "completed DAO deposit missing compensation in bulk compensation timeline"
    return {
      deposits
      requests := events.requests ++ [(requestBlock, outpoint)]
      withdrawals := events.withdrawals ++ [(withdrawBlock, outpoint)] }
  | none, some _ => .error "inconsistent DAO lifecycle in bulk compensation timeline"

def new (deposits : DaoDeposits) :
    Except String DaoCompensationTimeline := do
  let events ← deposits.toList.foldlM collectEvents {}
  return {
    deposits
    depositEvents := sortEvents events.deposits
    requestEvents := sortEvents events.requests
    withdrawalEvents := sortEvents events.withdrawals }

variable (t : DaoCompensationTimeline)

def entry (outpoint : DaoOutPoint) : Except String DaoDepositCacheEntry :=
  required "missing DAO entry in bulk compensation timeline" t.deposits[outpoint]?

/-- What a withdraw request has frozen: the compensation at the block of the request. -/
def frozenCompensation (outpoint : DaoOutPoint) : Except String Int := do
  let entry ← t.entry outpoint
  let requestBlock ← required "DAO deposit missing request block in bulk compensation timeline"
    entry.withdrawRequestBlock
  let requestAr ← required "phase-1 DAO deposit missing request AR in bulk compensation timeline"
    entry.withdrawRequestAr
  let requestAr ← rateOf "negative DAO request AR in bulk compensation timeline" requestAr
  let contribution ← daoCompensationForEntryAt entry requestBlock requestAr
  ensure (contribution.claimed = 0 ∧ contribution.activeUnmade = 0)
    "DAO request produced non-frozen compensation in bulk timeline"
  return contribution.unclaimed

/-- A deposit becomes active. -/
def activate (t : DaoCompensationTimeline) (event : DaoEvent) :
    Except String DaoCompensationTimeline := do
  ensure (t.active.contains event.2 = false)
    "duplicate active DAO deposit event in bulk compensation timeline"
  return { t with active := t.active.insert event.2 }

/-- An active deposit's compensation freezes. -/
def freeze (t : DaoCompensationTimeline) (event : DaoEvent) :
    Except String DaoCompensationTimeline := do
  ensure (t.active.contains event.2 = true)
    "DAO request event has no active deposit in bulk compensation timeline"
  let compensation ← t.frozenCompensation event.2
  ensure (t.frozen.contains event.2 = false)
    "duplicate frozen DAO request in bulk compensation timeline"
  let frozenTotal ← checked 128 (t.frozenTotal + compensation) "frozen DAO compensation overflow"
  return { t with
    active := t.active.erase event.2
    frozen := t.frozen.insert event.2 compensation
    frozenTotal }

/-- What an open request has frozen is claimed. -/
def claim (t : DaoCompensationTimeline) (event : DaoEvent) :
    Except String DaoCompensationTimeline := do
  let compensation ←
    required "DAO completion event has no frozen request in bulk compensation timeline"
      t.frozen[event.2]?
  let frozenTotal ← checked 128 (t.frozenTotal - compensation) "frozen DAO compensation underflow"
  ensure (0 ≤ frozenTotal) "negative frozen DAO compensation after completion"
  let claimed ← checked 128 (t.claimed + compensation) "claimed DAO compensation overflow"
  return { t with frozen := t.frozen.erase event.2, frozenTotal, claimed }

/-- Adds what an active deposit has earned so far. -/
def addActive (observationBlock : Int) (observationAr : Nat) (activeUnmade : Int)
    (outpoint : DaoOutPoint) : Except String Int := do
  let entry ← t.entry outpoint
  let contribution ← daoCompensationForEntryAt entry observationBlock observationAr
  ensure (contribution.claimed = 0 ∧ contribution.unclaimed = contribution.activeUnmade)
    "active DAO entry produced non-active compensation in bulk timeline"
  checked 128 (activeUnmade + contribution.activeUnmade) "active DAO compensation overflow"

/-- The events of a list that an observation reaches. -/
def reached (observationBlock : Int) (events : List DaoEvent) : List DaoEvent :=
  events.takeWhile (·.1 ≤ observationBlock)

/-- The events of a list that an observation leaves for later. -/
def unreached (observationBlock : Int) (events : List DaoEvent) : List DaoEvent :=
  events.dropWhile (·.1 ≤ observationBlock)

/-- Processes the events up to a block and observes the compensation there. -/
def advanceTo (observationBlock : Int) (observationAr : Nat) :
    Except String (DaoCompensationBreakdown × DaoCompensationTimeline) := do
  ensure (∀ previous ∈ t.lastObservationBlock, previous ≤ observationBlock)
    "DAO compensation timeline observation moved backwards"
  let t ← (reached observationBlock t.depositEvents).foldlM activate
    { t with depositEvents := unreached observationBlock t.depositEvents }
  let t ← (reached observationBlock t.requestEvents).foldlM freeze
    { t with requestEvents := unreached observationBlock t.requestEvents }
  let t ← (reached observationBlock t.withdrawalEvents).foldlM claim
    { t with withdrawalEvents := unreached observationBlock t.withdrawalEvents }
  let activeUnmade ← t.active.toList.foldlM (t.addActive observationBlock observationAr) 0
  let unclaimed ← checked 128 (t.frozenTotal + activeUnmade) "unclaimed DAO compensation overflow"
  return ({ claimed := t.claimed, unclaimed, activeUnmade },
    { t with lastObservationBlock := some observationBlock })

end DaoCompensationTimeline

/-- Observations one after another. -/
def advanceAll : DaoCompensationTimeline → List (Int × Nat) →
    Except String (List DaoCompensationBreakdown)
  | _, [] => return []
  | t, (block, ar) :: observations => do
    let (result, t) ← t.advanceTo block ar
    let results ← advanceAll t observations
    return result :: results

/-- The observations of all lifecycles by one timeline. -/
def timelineObservations (deposits : DaoDeposits)
    (observations : List (Int × Nat)) : Except String (List DaoCompensationBreakdown) := do
  let t ← DaoCompensationTimeline.new deposits
  advanceAll t observations

end Ckbadger.Bulk
