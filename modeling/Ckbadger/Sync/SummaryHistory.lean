/-
Ckbadger.Sync.SummaryHistory — the published live-cell summary and its block-end history
under live batches, rollbacks and restarts.

A live batch continues the counters of the current summary and keeps the summary of each
of its blocks in a bounded history. A rollback takes the current summary back in one
batch and puts the one of its target, from the history, in another; a process that died
in between restores the summary of the tip when it starts again.
-/
import Ckbadger.Parser.Dao
import Ckbadger.Sync.CellChain
import Ckbadger.Sync.LiveCellSummary

namespace Ckbadger.Sync

open Lib Writer Std

/-! ## Rows -/

/-- The fields of the sync status that the summary is checked against. -/
structure SyncTotals where
  tipBlockNumber : Int := 0
  tipBlockHash : Bytes := []
  totalCellsCreated : Int := 0
  totalCellsConsumed : Int := 0
  deriving DecidableEq

/-- The counts of a transaction's index row. -/
structure TxCounts where
  isCellbase : Bool
  inputsCount : Int
  outputsCount : Int
  deriving DecidableEq

/-- The rows of the domain store that the summary reads and writes. -/
structure SummaryRows where
  initialized : Bool
  current : Option LiveCellSummary
  history : ExtTreeMap Int LiveCellSummary
  rollbackCleanupInProgress : Bool
  status : SyncTotals
  /-- The block hashes of the headers. -/
  headers : ExtTreeMap Int Bytes
  txIndex : ExtTreeMap Int (List TxCounts)

def SummaryRows.empty : SummaryRows := ⟨false, none, ∅, false, {}, ∅, ∅⟩

/-- The checked comparison of a summary with the totals of the sync status. -/
def LiveCellSummary.validateAgainstSyncTotals (s : LiveCellSummary) (created consumed : Int) :
    Except String Unit := do
  s.validate
  ensure (0 ≤ created ∧ 0 ≤ consumed)
    "live-cell summary cannot validate against negative sync totals"
  ensure (0 ≤ created - consumed) "live-cell summary sync totals imply a negative live-cell count"
  let actual ← s.liveCells
  ensure ((actual : Int) = created - consumed) "live-cell summary disagrees with sync totals"

def SummaryRows.getLiveCellSummary (rows : SummaryRows) : Except String (Option LiveCellSummary) :=
  match rows.current with
  | none => return none
  | some summary => do
      summary.validate
      ensure (rows.initialized = true) "current live-cell summary exists without initialized marker"
      return some summary

def SummaryRows.getLiveCellSummaryAt (rows : SummaryRows) (blockNumber : Int) :
    Except String (Option LiveCellSummary) := do
  ensure (0 ≤ blockNumber) "cannot read live-cell summary history at negative block"
  match rows.history[blockNumber]? with
  | none => return none
  | some summary => do
      summary.validate
      ensure (summary.tipBlockNumber = blockNumber)
        "live-cell summary history key/value block mismatch"
      return some summary

/-- One summary of a sequence joins the history; the one that leaves the window goes. -/
def putHistory (history : ExtTreeMap Int LiveCellSummary) (summary : LiveCellSummary) :
    ExtTreeMap Int LiveCellSummary :=
  let history := history.insert summary.tipBlockNumber summary
  let expired := summary.tipBlockNumber - liveCellSummaryHistoryBlocks
  if 0 ≤ expired then history.erase expired else history

/-- The check that a sequence of summaries is valid and has consecutive blocks. -/
def validateSequence : Option Int → List LiveCellSummary → Except String Unit
  | _, [] => .ok ()
  | previous, s :: ss => do
      s.validate
      ensure (∀ p ∈ previous, s.tipBlockNumber = p + 1) "non-consecutive live-cell summary sequence"
      validateSequence (some s.tipBlockNumber) ss

/-- Stages block-end summaries and publishes the last. -/
def SummaryRows.putLiveCellSummarySnapshots (rows : SummaryRows)
    (summaries : List LiveCellSummary) : Except String SummaryRows := do
  let last ← required "cannot publish an empty live-cell summary snapshot sequence"
    summaries.getLast?
  validateSequence none summaries
  return { rows with
    initialized := true
    current := some last
    history := summaries.foldl putHistory rows.history }

/-! ## A live batch -/

def cellSummaryProjection (typeScriptHash typeCodeHash : Option Bytes) (dataSize : Int)
    (context : CellSummaryContext) : Except String LiveCellSummaryProjection :=
  projectionFromParts typeScriptHash.isSome typeCodeHash.isSome
    (typeCodeHash.any Parser.isDaoCodeHash) dataSize context

def parsedCellSummaryProjection (cell : Parser.ParsedCell) (context : CellSummaryContext) :
    Except String LiveCellSummaryProjection :=
  cellSummaryProjection cell.typeScriptHash cell.typeCodeHash cell.dataSize context

def positionedCellSummaryProjection (cell : PositionedCellInfo) (context : CellSummaryContext) :
    Except String LiveCellSummaryProjection :=
  cellSummaryProjection cell.cell.typeScriptHash cell.cell.typeCodeHash cell.cell.dataSize context

/-- The counters in the middle of a batch, with the numbers of cells it has created and spent. -/
structure SummaryLoop where
  counter : LiveCellSummaryCounter
  createdDelta : Int
  consumedDelta : Int
  deriving DecidableEq

section

variable (inputCellInfo batchCellInfos : ExtTreeMap OutPoint PositionedCellInfo)

/-- One input leaves the counters. -/
def SummaryLoop.spend (number : Int) (loop : SummaryLoop) (input : ParsedInput) :
    Except String SummaryLoop := do
  let index ← parsedInputOutpointIndex input.previousOutputIndex "live_cell_summary"
  let place : OutPoint := ⟨input.previousTxHash, index⟩
  let cell ← required "unresolved input while updating live-cell summary"
    (inputCellInfo[place]?.or batchCellInfos[place]?)
  let context : CellSummaryContext := ⟨"spend", number, input.previousTxHash, index⟩
  let projection ← positionedCellSummaryProjection cell context
  let counter ← loop.counter.afterSpend projection context
  let consumedDelta ← checked 64 (loop.consumedDelta + 1)
    "live-cell summary consumed delta overflow"
  return { loop with counter, consumedDelta }

/-- One output joins the counters. -/
def SummaryLoop.birth (number : Int) (txHash : Bytes) (loop : SummaryLoop)
    (output : Parser.ParsedCell × Nat) : Except String SummaryLoop := do
  let context : CellSummaryContext := ⟨"birth", number, txHash, output.2⟩
  let projection ← parsedCellSummaryProjection output.1 context
  let counter ← loop.counter.afterBirth projection context
  let createdDelta ← checked 64 (loop.createdDelta + 1) "live-cell summary created delta overflow"
  return { loop with counter, createdDelta }

/-- A transaction spends its inputs before its outputs are born. -/
def SummaryLoop.tx (number : Int) (loop : SummaryLoop) (t : CellTx) :
    Except String SummaryLoop := do
  ensure (t.blockNumber = number) "live-cell summary tx/block mismatch"
  let loop ← (if t.isCellbase then [] else t.inputs).foldlM
    (SummaryLoop.spend inputCellInfo batchCellInfos number) loop
  t.cells.zipIdx.foldlM (SummaryLoop.birth number t.hash) loop

/-- The blocks of a batch, each with a summary at its end. -/
def SummaryLoop.blocks : Option CellBlock → SummaryLoop → List CellBlock →
    Except String (SummaryLoop × List LiveCellSummary)
  | _, loop, [] => return (loop, [])
  | previous, loop, b :: bs => do
      ensure (∀ p ∈ previous, b.number = p.number + 1 ∧ b.parentHash = p.hash)
        "non-canonical live-cell summary block sequence"
      let loop ← b.txs.foldlM (SummaryLoop.tx inputCellInfo batchCellInfos b.number) loop
      let summary ← loop.counter.snapshot b.number b.hash
      let (loop, rest) ← SummaryLoop.blocks (some b) loop bs
      return (loop, summary :: rest)

/-- The counters a batch starts from. -/
def SummaryRows.startCounter (rows : SummaryRows) (first : CellBlock) :
    Except String LiveCellSummaryCounter := do
  let current ← rows.getLiveCellSummary
  if first.number = 0 then do
    ensure (current = none ∧ rows.status.tipBlockHash = [])
      "cannot initialize live-cell summary at genesis over existing canonical state"
    return {}
  else do
    let current ← required "missing current live-cell summary before live batch" current
    current.validateAgainstSyncTotals rows.status.totalCellsCreated rows.status.totalCellsConsumed
    ensure (current.tipBlockNumber = first.number - 1 ∧
        rows.status.tipBlockNumber = first.number - 1)
      "live-cell summary tip does not precede live batch"
    ensure (current.tipBlockHash = first.parentHash ∧
        rows.status.tipBlockHash = current.tipBlockHash)
      "live-cell summary canonical hash mismatch before live batch"
    let history ← rows.getLiveCellSummaryAt (first.number - 1)
    let history ← required "missing live-cell summary history at current tip" history
    ensure (history = current) "current/history live-cell summary mismatch"
    current.validate
    return ⟨current.dao, current.typedNonDao, current.plain, current.dataBearing⟩

/-- The summaries at the ends of a batch's blocks. -/
def SummaryRows.prepareLiveCellSummarySnapshots (rows : SummaryRows) (blocks : List CellBlock) :
    Except String (List LiveCellSummary) := do
  let first ← required "cannot prepare live-cell summaries for an empty block batch" blocks.head?
  let counter ← rows.startCounter first
  let (loop, snapshots) ←
    SummaryLoop.blocks inputCellInfo batchCellInfos none ⟨counter, 0, 0⟩ blocks
  let created ← checked 64 (rows.status.totalCellsCreated + loop.createdDelta)
    "live-cell summary total created overflow"
  let consumed ← checked 64 (rows.status.totalCellsConsumed + loop.consumedDelta)
    "live-cell summary total consumed overflow"
  let last ← required "non-empty parsed blocks checked above" snapshots.getLast?
  last.validateAgainstSyncTotals created consumed
  return snapshots

/-- The index row of a transaction. -/
def txCounts (t : CellTx) : TxCounts := ⟨t.isCellbase, t.inputs.length, t.cells.length⟩

/-- The cells a transaction spends, as the totals count them. -/
def TxCounts.consumed (c : TxCounts) : Int := if c.isCellbase then 0 else c.inputsCount

/-- The cells created and spent in blocks, as the totals count them. -/
def createdTotal (blocks : List (List TxCounts)) : Int :=
  (blocks.map fun txs => (txs.map TxCounts.outputsCount).sum).sum

def consumedTotal (blocks : List (List TxCounts)) : Int :=
  (blocks.map fun txs => (txs.map TxCounts.consumed).sum).sum

/-- A live batch: its summaries, the new tip and totals, its headers and its index rows, in one
write. -/
def SummaryRows.writeParsedBatch (rows : SummaryRows) (blocks : List CellBlock) :
    Except String SummaryRows := do
  let snapshots ← rows.prepareLiveCellSummarySnapshots inputCellInfo batchCellInfos blocks
  let last ← required "missing last block" blocks.getLast?
  let counts := blocks.map fun b => b.txs.map txCounts
  let created ← checked 64 (rows.status.totalCellsCreated + createdTotal counts)
    "sync total_cells_created overflow"
  let consumed ← checked 64 (rows.status.totalCellsConsumed + consumedTotal counts)
    "sync total_cells_consumed overflow"
  let summary ← required "missing live-cell summary snapshot for non-empty batch" snapshots.getLast?
  ensure (summary.tipBlockNumber = last.number ∧ summary.tipBlockHash = last.hash)
    "live-cell summary/status tip mismatch before commit"
  summary.validateAgainstSyncTotals created consumed
  let rows ← rows.putLiveCellSummarySnapshots snapshots
  return { rows with
    status := ⟨last.number, last.hash, created, consumed⟩
    headers := blocks.foldl (fun headers b => headers.insert b.number b.hash) rows.headers
    txIndex := blocks.foldl (fun index b => index.insert b.number (b.txs.map txCounts))
      rows.txIndex }

end

/-! ## A rollback -/

/-- `MAX_SHALLOW_REORG_DEPTH`. -/
def maxShallowReorgDepth : Int := 36

structure LiveCellSummaryRollbackPlan where
  oldTip : Int
  firstRetainedBlock : Int
  target : Option LiveCellSummary
  deriving DecidableEq

/-- The summary of the rollback's target, from the history. -/
def SummaryRows.rollbackTarget (rows : SummaryRows) (rollbackTo : Int) :
    Except String (Option LiveCellSummary) :=
  if 0 ≤ rollbackTo then do
    let target ← rows.getLiveCellSummaryAt rollbackTo
    let target ← required "missing retained live-cell summary at rollback target" target
    let hash ← required "missing canonical header for live-cell summary rollback target"
      rows.headers[rollbackTo]?
    ensure (target.tipBlockNumber = rollbackTo ∧ target.tipBlockHash = hash)
      "live-cell summary rollback target/header mismatch"
    return some target
  else return none

/-- The plan of a rollback, made before anything is written. A summary that an earlier, interrupted
rollback has withdrawn is no obstacle. -/
def SummaryRows.prepareLiveCellSummaryRollback (rows : SummaryRows) (rollbackTo : Int) :
    Except String (Option LiveCellSummaryRollbackPlan) := do
  let current ← rows.getLiveCellSummary
  let tipHistory ← (if rows.status.tipBlockHash = [] then return none
    else rows.getLiveCellSummaryAt rows.status.tipBlockNumber)
  if rows.initialized = false then do
    ensure (current = none ∧ tipHistory = none)
      "live-cell summary records exist without initialized marker before rollback"
    return none
  else if rows.status.tipBlockHash = [] then do
    ensure (current = none ∧ tipHistory = none)
      "live-cell summary exists while sync status has no canonical tip"
    return none
  else do
    let tipHistory ← required "missing live-cell summary history at rollback source tip" tipHistory
    tipHistory.validateAgainstSyncTotals rows.status.totalCellsCreated
      rows.status.totalCellsConsumed
    ensure (tipHistory.tipBlockNumber = rows.status.tipBlockNumber ∧
        tipHistory.tipBlockHash = rows.status.tipBlockHash)
      "live-cell summary rollback source/status mismatch"
    ensure (∀ c ∈ current, c = tipHistory)
      "current/history live-cell summary mismatch before rollback"
    ensure (current.isSome ∨ rows.rollbackCleanupInProgress = true)
      "current live-cell summary is missing before rollback without an existing cleanup marker"
    ensure (rollbackTo ≤ rows.status.tipBlockNumber)
      "live-cell summary rollback target is above source tip"
    ensure (rows.status.tipBlockNumber - rollbackTo ≤ maxShallowReorgDepth)
      "live-cell summary rollback exceeds retained history"
    let target ← rows.rollbackTarget rollbackTo
    return some ⟨rows.status.tipBlockNumber,
      max 0 (rows.status.tipBlockNumber - (liveCellSummaryHistoryBlocks - 1)), target⟩

/-- The first batch of a rollback: the marker is set and the summary withdrawn. -/
def SummaryRows.withdraw (rows : SummaryRows) (plan : Option LiveCellSummaryRollbackPlan) :
    SummaryRows :=
  { rows with
    rollbackCleanupInProgress := true
    current := if plan.isSome then none else rows.current }

/-- A total of the sync status after what a rollback removes. -/
def checkedRollbackTotal (current removed : Int) : Except String Int := do
  ensure (0 ≤ current) "invalid negative sync_status total before rollback"
  ensure (0 ≤ removed) "invalid negative rollback delta for sync_status"
  ensure (removed ≤ current) "rollback would underflow sync_status total"
  return current - removed

/-- The history without the blocks from one to another. -/
def deleteHistory (history : ExtTreeMap Int LiveCellSummary) (first last : Int) :
    ExtTreeMap Int LiveCellSummary :=
  history.filter fun number _ => !(first ≤ number && number ≤ last)

/-- The last batch of a rollback. Only blocks up to the old tip count in the totals. -/
def SummaryRows.finishRollback (rows : SummaryRows) (plan : Option LiveCellSummaryRollbackPlan)
    (rollbackTo : Int) : Except String SummaryRows := do
  let accountedTip :=
    if rows.status.tipBlockNumber = 0 ∧ rows.status.tipBlockHash = [] then -1
    else rows.status.tipBlockNumber
  let removed := (rows.txIndex.filter fun number _ =>
    rollbackTo < number && number ≤ accountedTip).toList.map Prod.snd
  let tipHash ← (if 0 ≤ rollbackTo then
      required "missing rollback target block header while updating sync status tip"
        rows.headers[rollbackTo]?
    else return [])
  let tipNumber := if rollbackTo < 0 then 0 else rollbackTo
  let created ← checkedRollbackTotal rows.status.totalCellsCreated (createdTotal removed)
  let consumed ← checkedRollbackTotal rows.status.totalCellsConsumed (consumedTotal removed)
  let rows := { rows with
    rollbackCleanupInProgress := false
    status := ⟨tipNumber, tipHash, created, consumed⟩
    headers := rows.headers.filter fun number _ => number ≤ rollbackTo
    txIndex := rows.txIndex.filter fun number _ => number ≤ rollbackTo }
  match plan with
  | none => return rows
  | some plan => do
      let current ← (match plan.target with
        | none => return none
        | some target => do
            target.validateAgainstSyncTotals created consumed
            ensure (target.tipBlockNumber = tipNumber ∧ target.tipBlockHash = tipHash)
              "live-cell summary/status mismatch after rollback"
            return some target)
      let firstToDelete :=
        if rollbackTo < plan.firstRetainedBlock then plan.firstRetainedBlock else rollbackTo + 1
      return { rows with
        current
        history := deleteHistory rows.history firstToDelete plan.oldTip }

/-! ## A restart -/

/-- The restart of a process that died between the two batches of a rollback. -/
def SummaryRows.restoreVisibility (rows : SummaryRows) : Except String SummaryRows := do
  ensure (rows.rollbackCleanupInProgress = true)
    "cannot restore live-cell summary visibility without a rollback cleanup marker"
  let current ← rows.getLiveCellSummary
  let history ← (if rows.status.tipBlockHash = [] then return none
    else rows.getLiveCellSummaryAt rows.status.tipBlockNumber)
  ensure (rows.initialized = true ∨ current = none ∧ history = none)
    "live-cell summary records exist without initialized marker during interrupted rollback recovery"
  let rows ← (match history with
    | none => do
        ensure (current = none)
          "current live-cell summary exists without tip history during interrupted rollback recovery"
        ensure (rows.initialized = false ∨ rows.status.tipBlockHash = [])
          "initialized live-cell summary lost both current and tip history during interrupted rollback recovery"
        return rows
    | some summary => do
        summary.validateAgainstSyncTotals rows.status.totalCellsCreated
          rows.status.totalCellsConsumed
        ensure (summary.tipBlockNumber = rows.status.tipBlockNumber ∧
            summary.tipBlockHash = rows.status.tipBlockHash)
          "live-cell summary history/status mismatch during interrupted rollback recovery"
        ensure (∀ c ∈ current, c = summary)
          "current/history live-cell summary mismatch during interrupted rollback recovery"
        let hash ← required
          "missing canonical tip header during interrupted rollback summary recovery"
          rows.headers[rows.status.tipBlockNumber]?
        ensure (hash = summary.tipBlockHash)
          "live-cell summary history/header mismatch during interrupted rollback recovery"
        rows.putLiveCellSummarySnapshots [summary])
  return { rows with rollbackCleanupInProgress := false }

end Ckbadger.Sync
