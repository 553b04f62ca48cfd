/-
Ckbadger.Sync.LiveCellSummary — the exact reducer behind the published live-cell
summary: three exclusive classes and the data-bearing cells, one transition per cell.
-/
import Ckbadger.Lib.Fallible
import Ckbadger.Store.DomainStore

namespace Ckbadger.Sync

open Lib Store

inductive LiveCellSummaryClass where
  | dao | typedNonDao | plain
  deriving DecidableEq

structure LiveCellSummaryProjection where
  cls : LiveCellSummaryClass
  dataBearing : Bool
  deriving DecidableEq

/-- What an error about one transition names. -/
structure CellSummaryContext where
  transition : String
  blockNumber : Int
  txHash : Bytes
  outputIndex : Int

def CellSummaryContext.render (c : CellSummaryContext) : String :=
  "transition=" ++ c.transition ++ " block=" ++ toString c.blockNumber ++ " outpoint=0x" ++
    bytesToHex c.txHash ++ ":" ++ toString c.outputIndex

/-- `LiveCellSummaryProjection::from_parts`. -/
def projectionFromParts (hasTypeScript hasTypeCodeHash isDao : Bool) (dataSize : Int)
    (context : CellSummaryContext) : Except String LiveCellSummaryProjection :=
  if hasTypeScript ≠ hasTypeCodeHash then
    .error ("live-cell summary type-script projection mismatch: " ++ context.render ++
      " has_type_script=" ++ toString hasTypeScript ++ " has_type_code_hash=" ++
      toString hasTypeCodeHash)
  else if isDao && !hasTypeScript then
    .error ("live-cell summary DAO classification without a type script: " ++ context.render)
  else if dataSize < 0 then
    .error ("live-cell summary saw negative cell data size: " ++ context.render ++ " data_size=" ++
      toString dataSize)
  else
    .ok ⟨if isDao then .dao else if hasTypeScript then .typedNonDao else .plain, 0 < dataSize⟩

theorem projectionFromParts_eq_ok {hasTypeScript hasTypeCodeHash isDao : Bool} {dataSize : Int}
    {context : CellSummaryContext} {projection : LiveCellSummaryProjection} :
    projectionFromParts hasTypeScript hasTypeCodeHash isDao dataSize context = .ok projection ↔
      hasTypeScript = hasTypeCodeHash ∧ (isDao → hasTypeScript) ∧ 0 ≤ dataSize ∧
        ⟨if isDao then .dao else if hasTypeScript then .typedNonDao else .plain, 0 < dataSize⟩
          = projection := by
  simp only [projectionFromParts, ite_error_eq_ok]
  simp

structure LiveCellSummaryCounter where
  dao : Nat := 0
  typedNonDao : Nat := 0
  plain : Nat := 0
  dataBearing : Nat := 0
  deriving DecidableEq

/-- One `u64` counter, one up or one down. -/
def updateCounter (current : Nat) (isBirth : Bool) (counter : String)
    (context : CellSummaryContext) : Except String Nat :=
  if isBirth then
    if current + 1 < 2 ^ 64 then .ok (current + 1)
    else .error ("live-cell summary counter overflow: counter=" ++ counter ++ " current=" ++
      toString current ++ " " ++ context.render)
  else
    match current with
    | 0 =>
      .error ("live-cell summary counter underflow: counter=" ++ counter ++ " current=0 " ++
        context.render)
    | current + 1 => .ok current

namespace LiveCellSummaryCounter

/-- The counter of a class. -/
def get (c : LiveCellSummaryCounter) : LiveCellSummaryClass → Nat
  | .dao => c.dao
  | .typedNonDao => c.typedNonDao
  | .plain => c.plain

def set (c : LiveCellSummaryCounter) (cls : LiveCellSummaryClass) (n : Nat) :
    LiveCellSummaryCounter :=
  match cls with
  | .dao => { c with dao := n }
  | .typedNonDao => { c with typedNonDao := n }
  | .plain => { c with plain := n }

def afterTransition (c : LiveCellSummaryCounter) (projection : LiveCellSummaryProjection)
    (context : CellSummaryContext) (isBirth : Bool) : Except String LiveCellSummaryCounter := do
  let n ← updateCounter (c.get projection.cls) isBirth "class" context
  let c := c.set projection.cls n
  if projection.dataBearing then
    let dataBearing ← updateCounter c.dataBearing isBirth "data_bearing" context
    return { c with dataBearing }
  else return c

def afterBirth (c : LiveCellSummaryCounter) (projection : LiveCellSummaryProjection)
    (context : CellSummaryContext) : Except String LiveCellSummaryCounter :=
  c.afterTransition projection context true

def afterSpend (c : LiveCellSummaryCounter) (projection : LiveCellSummaryProjection)
    (context : CellSummaryContext) : Except String LiveCellSummaryCounter :=
  c.afterTransition projection context false

end LiveCellSummaryCounter

/-- The published classification at the end of a block. -/
structure LiveCellSummary where
  tipBlockNumber : Int
  tipBlockHash : Bytes
  dao : Nat
  typedNonDao : Nat
  plain : Nat
  dataBearing : Nat
  deriving DecidableEq

/-- The checked sum of the three classes. -/
def LiveCellSummary.liveCells (s : LiveCellSummary) : Except String Nat :=
  if s.dao + s.typedNonDao + s.plain < 2 ^ 64 then .ok (s.dao + s.typedNonDao + s.plain)
  else .error ("live-cell summary class total overflow: block=" ++ toString s.tipBlockNumber ++
    " dao=" ++ toString s.dao ++ " typed_non_dao=" ++ toString s.typedNonDao ++ " plain=" ++
    toString s.plain)

def LiveCellSummary.validate (s : LiveCellSummary) : Except String Unit :=
  if s.tipBlockNumber < 0 then
    .error ("live-cell summary has negative tip block: block=" ++ toString s.tipBlockNumber)
  else
    match s.liveCells with
    | .error e => .error e
    | .ok liveCells =>
      if liveCells < s.dataBearing then
        .error ("live-cell summary data-bearing count exceeds live cells: block=" ++
          toString s.tipBlockNumber ++ " data_bearing=" ++ toString s.dataBearing ++
          " live_cells=" ++ toString liveCells)
      else .ok ()

/-- The summary a counter publishes at the end of a block. -/
def LiveCellSummaryCounter.snapshot (c : LiveCellSummaryCounter) (blockNumber : Int)
    (blockHash : Bytes) : Except String LiveCellSummary :=
  if blockHash.length ≠ 32 then
    .error ("live-cell summary block hash must be exactly 32 bytes: block=" ++
      toString blockNumber ++ " actual_bytes=" ++ toString blockHash.length)
  else
    let summary : LiveCellSummary :=
      ⟨blockNumber, blockHash, c.dao, c.typedNonDao, c.plain, c.dataBearing⟩
    match summary.validate with
    | .error e => .error e
    | .ok () => .ok summary

/-- `LIVE_CELL_SUMMARY_HISTORY_BLOCKS`: one more than the deepest shallow reorg. -/
def liveCellSummaryHistoryBlocks : Nat := 37

/-! ## What a transition does to the counters -/

section

variable {context : CellSummaryContext} {c c' : LiveCellSummaryCounter}

theorem updateCounter_birth {n n' : Nat} {counter : String} :
    updateCounter n true counter context = .ok n' ↔ n' = n + 1 ∧ n + 1 < 2 ^ 64 := by
  unfold updateCounter
  simp only [if_true]
  split
  · rename_i h
    constructor
    · intro hn; cases hn; exact ⟨rfl, h⟩
    · rintro ⟨rfl, -⟩; rfl
  · rename_i h
    constructor
    · intro hn; cases hn
    · rintro ⟨-, hlt⟩; exact absurd hlt h

theorem updateCounter_spend {n n' : Nat} {counter : String} :
    updateCounter n false counter context = .ok n' ↔ n = n' + 1 := by
  unfold updateCounter
  cases n with
  | zero => simp
  | succ n => simp

@[simp] theorem get_set (c : LiveCellSummaryCounter) (cls cls' : LiveCellSummaryClass) (n : Nat) :
    (c.set cls n).get cls' = if cls = cls' then n else c.get cls' := by
  cases cls <;> cases cls' <;> rfl

@[simp] theorem dataBearing_set (c : LiveCellSummaryCounter) (cls : LiveCellSummaryClass)
    (n : Nat) : (c.set cls n).dataBearing = c.dataBearing := by
  cases cls <;> rfl

@[simp] theorem get_dataBearing (c : LiveCellSummaryCounter) (cls : LiveCellSummaryClass)
    (n : Nat) : ({ c with dataBearing := n } : LiveCellSummaryCounter).get cls = c.get cls := by
  cases cls <;> rfl

/-- A birth adds one to the class, and to the cells with data if it has some. -/
theorem afterBirth_ok {projection : LiveCellSummaryProjection}
    (h : c.afterBirth projection context = .ok c') :
    (∀ cls, c'.get cls = (if projection.cls = cls then 1 else 0) + c.get cls) ∧
      c'.dataBearing = (if projection.dataBearing then 1 else 0) + c.dataBearing := by
  obtain ⟨n, hn, h⟩ := bind_eq_ok.mp h
  obtain ⟨rfl, -⟩ := updateCounter_birth.mp hn
  split at h
  · rename_i hdata
    obtain ⟨d, hd, h⟩ := bind_eq_ok.mp h
    obtain ⟨rfl, -⟩ := updateCounter_birth.mp hd
    cases h
    refine ⟨fun cls => ?_, ?_⟩
    · simp only [get_dataBearing, get_set]
      split
      · rename_i hcls
        rw [hcls, Nat.add_comm]
      · rw [Nat.zero_add]
    · simp [hdata, Nat.add_comm]
  · rename_i hdata
    cases h
    refine ⟨fun cls => ?_, ?_⟩
    · simp only [get_set]
      split
      · rename_i hcls
        rw [hcls, Nat.add_comm]
      · rw [Nat.zero_add]
    · simp [hdata]

theorem afterBirth_isOk (projection : LiveCellSummaryProjection) (context : CellSummaryContext)
    (hcls : c.get projection.cls + 1 < 2 ^ 64) (hdata : c.dataBearing + 1 < 2 ^ 64) :
    (c.afterBirth projection context).isOk = true := by
  unfold LiveCellSummaryCounter.afterBirth LiveCellSummaryCounter.afterTransition
  rw [updateCounter_birth.mpr ⟨rfl, hcls⟩]
  simp only [ok_bind]
  split
  · rw [dataBearing_set, updateCounter_birth.mpr ⟨rfl, hdata⟩]
    rfl
  · rfl

/-- A spend of a counted cell takes it out of the counts. -/
theorem afterSpend_eq (projection : LiveCellSummaryProjection) (context : CellSummaryContext)
    (hcls : 0 < c.get projection.cls) (hdata : projection.dataBearing → 0 < c.dataBearing) :
    ∃ c', c.afterSpend projection context = .ok c' ∧
      (∀ cls, c.get cls = (if projection.cls = cls then 1 else 0) + c'.get cls) ∧
      c.dataBearing = (if projection.dataBearing then 1 else 0) + c'.dataBearing := by
  obtain ⟨n, hn⟩ := Nat.exists_eq_succ_of_ne_zero (Nat.pos_iff_ne_zero.mp hcls)
  have hget : ∀ cls, c.get cls
      = (if projection.cls = cls then 1 else 0) + (c.set projection.cls n).get cls := by
    intro cls
    rw [get_set]
    split
    · rename_i h
      rw [← h, hn, Nat.add_comm]
    · rw [Nat.zero_add]
  unfold LiveCellSummaryCounter.afterSpend LiveCellSummaryCounter.afterTransition
  rw [updateCounter_spend.mpr hn]
  simp only [ok_bind]
  by_cases hbearing : projection.dataBearing
  · obtain ⟨d, hd⟩ := Nat.exists_eq_succ_of_ne_zero (Nat.pos_iff_ne_zero.mp (hdata hbearing))
    rw [if_pos hbearing, dataBearing_set, updateCounter_spend.mpr hd]
    refine ⟨_, rfl, fun cls => ?_, ?_⟩
    · exact hget cls
    · rw [if_pos hbearing, hd, Nat.add_comm]
  · rw [if_neg hbearing]
    refine ⟨_, rfl, hget, ?_⟩
    rw [if_neg hbearing, dataBearing_set, Nat.zero_add]

end

end Ckbadger.Sync
