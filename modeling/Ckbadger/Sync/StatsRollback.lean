/-
Ckbadger.Sync.StatsRollback — what a rollback does to the chain statistics.

The rollback walks the headers above the fork point and adds up what the orphaned
blocks had contributed, by day, hour, miner, epoch and bucket; it derives the capacity
and data flows from the cells that are live or consumed. Rows of later days and hours
are deleted. When the fork point and the first orphaned block share a day, the rows of
the cutoff day and hour are repaired by subtraction instead. Counters are integers, over
the chains that `Writer.Statistics` names.
-/
import Ckbadger.Sync.BatchStats
import Ckbadger.Sync.CellLedger

namespace Ckbadger.Sync

open Lib Lib.KeyedFold Common Store Writer Std StoredBlock

/-- What the undo log keeps of a transaction. -/
structure UndoTxContext where
  txHash : Bytes
  outputsCount : Int
  inputs : List OutPoint
  deriving DecidableEq

/-- The context a live batch writes for a transaction. A cellbase's input is the sentinel, which
is left out. -/
def TxData.undoContext (t : TxData) : UndoTxContext := ⟨t.hash, t.cells.length, t.spends⟩

/-- The stored blocks above the fork point. -/
def StatsStore.orphans (s : StatsStore) (rollbackTo : Int) : List StoredBlock :=
  s.blocks.filter fun b => rollbackTo < b.number

/-! ## The header loop -/

structure HeaderDeltas where
  dateUncles : ExtTreeMap Int Int := ∅
  dateDifficulty : ExtTreeMap Int Nat := ∅
  /-- The sum and the number of the inter-block times of a day. -/
  dateBlockTime : ExtTreeMap Int (Int × Int) := ∅
  removedBlockTime : ExtTreeMap Int Int := ∅
  removedEpochTime : ExtTreeMap Int Int := ∅
  miner : ExtTreeMap MinerKey Int := ∅
  epochTxRemoved : ExtTreeMap Int Int := ∅

structure HeaderLoop where
  deltas : HeaderDeltas := {}
  previousEpochStart : Option (Int × Int) := none
  /-- The number and the chain time of the block before. -/
  prevHeader : Option (Int × Int)

def addOrphanWork (date : Int) (total : Option Nat) (work : Nat) : Except String Nat :=
  if u128Max < total.getD 0 + work then
    .error ("rollback difficulty sum overflow: date=" ++ toString date)
  else .ok (total.getD 0 + work)

def addOrphanUncles (_date : Int) (total : Option Int) (unclesCount : Int) : Except String Int :=
  checked 32 (total.getD 0 + unclesCount) "uncles_count overflow during rollback delta accumulation"

def addOrphanMinerBlock (_key : MinerKey) (total : Option Int) (_block : Unit) :
    Except String Int :=
  .ok (total.getD 0 + 1)

def addRemovedSample (kind : String) (bucket : Int) (removed : Option Int) (_sample : Unit) :
    Except String Int :=
  checked 32 (removed.getD 0 + 1) (kind ++ " histogram delta overflow during rollback: bucket=" ++
    toString bucket)

def addOrphanInterval (_date : Int) (entry : Option (Int × Int)) (deltaMs : Int) :
    Except String (Int × Int) := do
  let sum ← checked 64 ((entry.getD (0, 0)).1 + deltaMs)
    "block_time_sum_ms overflow during rollback delta accumulation"
  let count ← checked 32 ((entry.getD (0, 0)).2 + 1) "block-time count overflow during rollback"
  return (sum, count)

def addOrphanTxs (_epoch : Int) (total : Option Int) (transactionsCount : Int) :
    Except String Int :=
  checked 64 (total.getD 0 + transactionsCount)
    "epoch transactions_count overflow during rollback delta accumulation"

/-- Walks the headers down to the last one that begins an epoch. -/
def findEpochStart (s : StatsStore) (rollbackBlock : Int) :
    Nat → Except String (Option (Int × Int))
  | 0 => .ok none
  | n + 1 =>
    match s.getBlockHeader n with
    | none => .error ("missing canonical header while locating prior epoch start: block=" ++
        toString n ++ " rollback_block=" ++ toString rollbackBlock)
    | some previous =>
      if previous.epochIndex = 0 then .ok (some (previous.epochNumber, previous.chainTimeMs))
      else findEpochStart s rollbackBlock n

/-- The epoch start before an orphaned one, looked up once. -/
def priorEpochStart (s : StatsStore) (previousEpochStart : Option (Int × Int)) (blockNum : Int) :
    Except String (Option (Int × Int)) :=
  match previousEpochStart with
  | some start => .ok (some start)
  | none => if 0 < blockNum then findEpochStart s blockNum blockNum.toNat else .ok none

/-- Takes back the sample of the epoch that an orphaned block had closed. -/
def removeEpochSample (removed : ExtTreeMap Int Int) (previousEpochStart : Option (Int × Int))
    (blockNum : Int) (header : CachedBlockHeader) : Except String (ExtTreeMap Int Int) :=
  if 0 < header.epochNumber then
    match previousEpochStart with
    | none => .error ("missing prior epoch start while rolling back epoch boundary: block=" ++
        toString blockNum ++ " epoch=" ++ toString header.epochNumber)
    | some (previousNumber, previousTimeMs) =>
      if previousNumber = header.epochNumber - 1 then do
        let bucket ← epochTimeBucket " during rollback" "previous_ms" blockNum header.epochNumber
          previousTimeMs header.chainTimeMs
        upsert (addRemovedSample "epoch") removed bucket ()
      else .ok removed
  else .ok removed

/-- The epoch part of the loop: the removed samples and the epoch start to go on with. -/
def rollbackEpochStart (s : StatsStore) (st : HeaderLoop) (blockNum : Int)
    (header : CachedBlockHeader) :
    Except String (ExtTreeMap Int Int × Option (Int × Int)) :=
  if header.epochIndex = 0 then do
    let previous ← priorEpochStart s st.previousEpochStart blockNum
    let removed ← removeEpochSample st.deltas.removedEpochTime previous blockNum header
    return (removed, some (header.epochNumber, header.chainTimeMs))
  else .ok (st.deltas.removedEpochTime, st.previousEpochStart)

/-- The interval part of the loop, on the day's block times and the removed samples. -/
def rollbackInterval (rollbackTo : Int) (st : HeaderLoop) (blockNum chainTimeMs date : Int) :
    Except String (ExtTreeMap Int (Int × Int) × ExtTreeMap Int Int) :=
  match st.prevHeader with
  | none => .ok (st.deltas.dateBlockTime, st.deltas.removedBlockTime)
  | some (prevNum, prevTs) =>
    if prevNum + 1 = blockNum then
      let deltaMs := chainTimeMs - prevTs
      if deltaMs < 0 then
        .error ("chain time regressed during rollback: block=" ++ toString blockNum ++
          " previous_ms=" ++ toString prevTs ++ " current_ms=" ++ toString chainTimeMs)
      else do
        let dateBlockTime ← upsert addOrphanInterval st.deltas.dateBlockTime date deltaMs
        let bucket ← blockTimeToBucket (deltaMs / 1000)
        let removed ← upsert (addRemovedSample "block-time") st.deltas.removedBlockTime bucket ()
        return (dateBlockTime, removed)
    else
      .error ("block header gap inside the rollback range: expected block " ++
        toString (prevNum + 1) ++ ", found " ++ toString blockNum ++ " (rollback_to=" ++
        toString rollbackTo ++ "); the inter-block time delta cannot be derived")

def rollbackMiner (miner : ExtTreeMap MinerKey Int) (header : CachedBlockHeader) (date : Int) :
    Except String (ExtTreeMap MinerKey Int) :=
  match header.minerLockHash with
  | some hash => upsert addOrphanMinerBlock miner ⟨date, hash⟩ ()
  | none => .ok miner

/-- One turn of the header loop. -/
def rollbackHeader (difficulty : Nat → Nat) (s : StatsStore) (rollbackTo : Int) (st : HeaderLoop)
    (block : StoredBlock) : Except String HeaderLoop := do
  let header := block.header
  let date ← statsDay header.chainTimeMs
  let work ← withContext ("rollback block " ++ toString block.number ++ ", date " ++ toString date)
    (compactDifficulty difficulty header.compactTarget)
  let dateDifficulty ← upsert addOrphanWork st.deltas.dateDifficulty date work
  let _hour ← statsHour header.chainTimeMs
  let epoch ← rollbackEpochStart s st block.number header
  let dateUncles ← upsert addOrphanUncles st.deltas.dateUncles date header.unclesCount
  let miner ← rollbackMiner st.deltas.miner header date
  let interval ← rollbackInterval rollbackTo st block.number header.chainTimeMs date
  let _hourUtc8 ← statsHourUtc8Key header.chainTimeMs
  let epochTxRemoved ← upsert addOrphanTxs st.deltas.epochTxRemoved header.epochNumber
    header.transactionsCount
  return {
    deltas := {
      dateUncles := dateUncles
      dateDifficulty := dateDifficulty
      dateBlockTime := interval.1
      removedBlockTime := interval.2
      removedEpochTime := epoch.1
      miner := miner
      epochTxRemoved := epochTxRemoved }
    previousEpochStart := epoch.2
    prevHeader := some (block.number, header.chainTimeMs) }

/-! ## Transactions and cells -/

/-- Removed blocks, transactions, created and consumed cells of a day or an hour. -/
abbrev FlowDelta := Int × Int × Int × Int

def StoredBlock.day (b : StoredBlock) : Int := dayOf b.header.chainTimeMs

def StoredBlock.hour (b : StoredBlock) : Int := hourOf b.header.chainTimeMs

def TxIndexEntry.flow (t : TxIndexEntry) : FlowDelta :=
  (0, 1, t.outputsCount, if t.isCellbase then 0 else t.inputsCount)

/-- The blocks of a bucket are counted first, and then the transactions. -/
def flowShares (bucket : StoredBlock → Int) (orphans : List StoredBlock) : List (Int × FlowDelta) :=
  (orphans.map fun b => (bucket b, (1, 0, 0, 0))) ++
    orphans.flatMap fun b => b.txIndex.map fun t => (bucket b, t.flow)

def addFlow (_bucket : Int) (total : Option FlowDelta) (delta : FlowDelta) :
    Except String FlowDelta :=
  .ok (total.getD 0 + delta)

/-- Rejects transaction rows with negative counts. -/
def checkTxIndex (orphans : List StoredBlock) : Except String Unit :=
  if orphans.all fun b => b.txIndex.all fun t => 0 ≤ t.outputsCount ∧ 0 ≤ t.inputsCount then .ok ()
  else .error "invalid negative tx_index counts during rollback cleanup"

/-- The bucket of an orphaned block, by its number. -/
def orphanBucket (bucket : StoredBlock → Int) (orphans : List StoredBlock) (number : Int) :
    Option Int :=
  (orphans.find? fun b => b.number = number).map bucket

/-- The hashes of the orphaned transactions at index 0. -/
def cellbaseTxHashes (orphans : List StoredBlock) : List Bytes :=
  orphans.filterMap fun b => b.txIndex.head?.map TxIndexEntry.txHash

/-- Capacity transferred, occupied capacity created and consumed, data created and consumed. -/
abbrev CapacityDelta := Int × Int × Int × Int × Int

/-- The creation side of a cell on a day. -/
def createdOnDate (orphans : List StoredBlock) (date : Int) (c : PositionedCell) : CapacityDelta :=
  if orphanBucket day orphans c.createdAtBlock = some date then
    (if (cellbaseTxHashes orphans).contains c.outpoint.txHash then 0 else c.capacity, c.occupiedCapacity, 0,
      c.dataSize, 0)
  else 0

/-- The consumption side of a cell on a day. -/
def consumedOnDate (orphans : List StoredBlock) (date : Int) (c : ConsumedCell) : CapacityDelta :=
  if orphanBucket day orphans c.consumedAtBlock = some date then
    (0, 0, c.cell.occupiedCapacity, 0, c.cell.dataSize)
  else 0

/-- The capacity a cell's creation transferred in an hour. -/
def createdInHour (orphans : List StoredBlock) (hour : Int) (c : PositionedCell) : Int :=
  if orphanBucket StoredBlock.hour orphans c.createdAtBlock = some hour then
    if (cellbaseTxHashes orphans).contains c.outpoint.txHash then 0 else c.capacity
  else 0

section Flows

variable {M : Type} [AddCommMonoid M]

/-- The flows of the cells a rollback touches, found by scanning the live and consumed cells. -/
def scanFlow (s : StatsStore) (rollbackTo : Int) (created : PositionedCell → M)
    (consumed : ConsumedCell → M) : M :=
  FinMap.weight (fun _ c => if rollbackTo < c.createdAtBlock then created c else 0) s.liveCells +
    FinMap.weight (fun _ c =>
      if rollbackTo < c.consumedAtBlock then created c.cell + consumed c else 0) s.consumedCells

/-- The flow of an input that a transaction context names. -/
def inputFlow (s : StatsStore) (rollbackTo : Int) (created : PositionedCell → M)
    (consumed : ConsumedCell → M) (txHash : Bytes) (total : M) (input : OutPoint) :
    Except String M :=
  match s.consumedCells.lookup input with
  | some c =>
    if c.consumedAtBlock ≤ rollbackTo then
      .error ("invalid tx-context consumed block during rollback: consumed_at_block=" ++
        toString c.consumedAtBlock ++ ", rollback_to=" ++ toString rollbackTo)
    else if c.consumedByTx ≠ txHash then
      .error "tx-context consumed_by_tx mismatch during rollback"
    else .ok (total + (created c.cell + consumed c))
  | none =>
    if (s.liveCells.lookup input).isNone then
      .error "missing consumed/live input during tx-context rollback"
    else .ok total

/-- The flow of the outputs of a transaction that are still live. -/
def outputsFlow (s : StatsStore) (created : PositionedCell → M) (context : UndoTxContext) : M :=
  ((List.range context.outputsCount.toNat).map fun i =>
    (s.liveCells.lookup ⟨context.txHash, i⟩).elim 0 created).sum

/-- The flows of the cells a rollback touches, found through the transaction contexts. -/
def contextFlow (s : StatsStore) (rollbackTo : Int) (created : PositionedCell → M)
    (consumed : ConsumedCell → M) (contexts : List UndoTxContext) : Except String M :=
  contexts.foldlM (fun total context =>
    context.inputs.foldlM (inputFlow s rollbackTo created consumed context.txHash)
      (total + outputsFlow s created context)) 0

/-- Transaction contexts are used when there is one for every removed transaction. -/
def cellFlow (s : StatsStore) (rollbackTo : Int) (contexts : List UndoTxContext)
    (created : PositionedCell → M) (consumed : ConsumedCell → M) : Except String M :=
  if 0 < contexts.length ∧
      contexts.length = ((s.orphans rollbackTo).flatMap txIndex).length then
    contextFlow s rollbackTo created consumed contexts
  else .ok (scanFlow s rollbackTo created consumed)

end Flows

/-! ## Repairing the cutoff rows -/

structure RollbackStatsDeltas where
  date : ExtTreeMap Int FlowDelta
  hour : ExtTreeMap Int FlowDelta
  headers : HeaderDeltas
  /-- The flows on the cutoff day; only days with an orphaned block have any. -/
  dateCapacity : CapacityDelta
  /-- The capacity transferred in the cutoff hour. -/
  hourCapacity : Int

/-- Subtracts from a counter that is not negative. -/
def checkedStatsSub (current delta : Int) (field bucketKind : String) (bucket : Int) :
    Except String Int :=
  if 0 ≤ current - delta then .ok (current - delta)
  else .error ("stats rollback underflow: " ++ bucketKind ++ "=" ++ toString bucket ++ ", field=" ++
    field ++ ", stored=" ++ toString current ++ ", rolled_back=" ++ toString delta ++
    " (delta collection out of sync with persisted state)")

/-- The row of the cutoff day without its orphaned part; `none` deletes a row. -/
def repairDaily (rows : ExtTreeMap Int DailyStats) (deltas : RollbackStatsDeltas) (cutoff : Int)
    (date : Int) (s : DailyStats) : Except String (Option DailyStats) :=
  if date ≠ cutoff then .ok none
  else
    match deltas.date[date]? with
    | none => .ok none
    | some (rbBlocks, rbTxs, rbCreated, rbConsumed) => do
        let (rbCap, rbUsedCreated, rbUsedConsumed, rbDataCreated, rbDataConsumed) :=
          deltas.dateCapacity
        let (rbBlockTimeSumMs, rbBlockTimeCount) :=
          deltas.headers.dateBlockTime[date]?.getD (0, 0)
        let blockTimeSumMs ← checkedStatsSub s.blockTimeSumMs rbBlockTimeSumMs "block_time_sum_ms"
          "date" date
        let blockTimeCount ← checkedStatsSub s.blockTimeCount rbBlockTimeCount "block_time_count"
          "date" date
        let cellsCreated := s.cellsCreated - rbCreated
        let cellsConsumed := s.cellsConsumed - rbConsumed
        -- the running totals start from the row of the calendar day before, or from zero
        let (prevLive, prevDead, prevAll, _) :=
          (rows[date - 1]?.map DailyStats.totals).getD (0, 0, 0, 0)
        return some { s with
          blockTimeSumMs := blockTimeSumMs
          blockTimeCount := blockTimeCount
          blocksCount := s.blocksCount - rbBlocks
          transactionsCount := s.transactionsCount - rbTxs
          cellsCreated := cellsCreated
          cellsConsumed := cellsConsumed
          capacityTransferred := s.capacityTransferred - rbCap
          usedCapacityCreated := s.usedCapacityCreated - rbUsedCreated
          usedCapacityConsumed := s.usedCapacityConsumed - rbUsedConsumed
          totalLiveCells := prevLive + (cellsCreated - cellsConsumed)
          totalDeadCells := prevDead + cellsConsumed
          totalAllCells := prevAll + cellsCreated
          totalDataSize := s.totalDataSize - (rbDataCreated - rbDataConsumed) }

def repairHourly (deltas : RollbackStatsDeltas) (cutoffHour : Int) (hour : Int) (s : HourlyStats) :
    Except String (Option HourlyStats) :=
  if hour ≠ cutoffHour then .ok none
  else
    match deltas.hour[hour]? with
    | none => .ok none
    | some (rbBlocks, rbTxs, rbCreated, rbConsumed) => do
        let blocksCount ← checkedStatsSub s.blocksCount rbBlocks "blocks_count" "hour" hour
        let transactionsCount ← checkedStatsSub s.transactionsCount rbTxs "transactions_count"
          "hour" hour
        let cellsCreated ← checkedStatsSub s.cellsCreated rbCreated "cells_created" "hour" hour
        let cellsConsumed ← checkedStatsSub s.cellsConsumed rbConsumed "cells_consumed" "hour" hour
        let capacityTransferred ← checkedStatsSub s.capacityTransferred deltas.hourCapacity
          "capacity_transferred" "hour" hour
        return some { s with
          blocksCount := blocksCount
          transactionsCount := transactionsCount
          cellsCreated := cellsCreated
          cellsConsumed := cellsConsumed
          capacityTransferred := capacityTransferred }

def repairDailyBlock (deltas : RollbackStatsDeltas) (cutoff : Int) (date : Int)
    (s : DailyBlockStats) : Except String (Option DailyBlockStats) :=
  if date ≠ cutoff then .ok none
  else
    let rbBlocks := (deltas.date[date]?.map Prod.fst).getD 0
    let rbUncles := deltas.headers.dateUncles[date]?.getD 0
    if rbBlocks = 0 ∧ rbUncles = 0 then .ok none
    else if s.blockCount - rbBlocks < 0 then
      .error ("daily block count went negative on rollback: date=" ++ toString date ++ ", result=" ++
        toString (s.blockCount - rbBlocks))
    else if s.blockCount - rbBlocks = 0 then .ok none
    else if s.totalUncles - rbUncles < 0 then
      .error ("daily_block total_uncles went negative on rollback repair: date=" ++ toString date ++
        ", result=" ++ toString (s.totalUncles - rbUncles))
    else
      match deltas.headers.dateDifficulty[date]? with
      | none => .error ("missing rollback difficulty delta: date=" ++ toString date ++ ", blocks=" ++
          toString rbBlocks)
      | some rbWork =>
        if s.difficultySum < rbWork then
          .error ("daily difficulty underflow on rollback: date=" ++ toString date ++ ", stored=" ++
            toString s.difficultySum ++ ", removed=" ++ toString rbWork)
        else .ok (some ⟨s.difficultySum - rbWork, s.blockCount - rbBlocks, s.totalUncles - rbUncles⟩)

/-- A miner with no orphaned block on the cutoff day keeps the row as it is. -/
def repairMiner (deltas : RollbackStatsDeltas) (cutoff : Int) (key : MinerKey) (s : MinerStats) :
    Except String (Option MinerStats) :=
  if key.date ≠ cutoff then .ok none
  else
    let rbBlocks := deltas.headers.miner[key]?.getD 0
    if rbBlocks = 0 then .ok (some s)
    else if s.blocksCount - rbBlocks ≤ 0 then .ok none
    else .ok (some { s with blocksCount := s.blocksCount - rbBlocks })

/-! ## The sweep -/

/-- Repairs or deletes the selected rows. -/
def sweep {K V : Type} [Ord K] [TransOrd K] (selected : K → Bool)
    (repair : K → V → Except String (Option V)) (rows : ExtTreeMap K V) :
    Except String (ExtTreeMap K V) :=
  merge (fun k _ v => if selected k then repair k v else .ok (some v)) rows rows

/-- Rows are repaired only when the rollback cuts through a day. -/
def repairIf {K V : Type} (isPartialDay : Bool) (repair : K → V → Except String (Option V)) (k : K)
    (v : V) : Except String (Option V) :=
  if isPartialDay then repair k v else .ok none

/-- Takes removed samples out of a histogram. -/
def subtractBucket (bucket : Int) (stored : Option Int) (delta : Int) :
    Except String (Option Int) :=
  match stored with
  | none => .error ("missing chain histogram bucket during rollback: bucket=" ++ toString bucket ++
      " removed=" ++ toString delta)
  | some count =>
    if count - delta < 0 then
      .error ("chain histogram underflow during rollback: bucket=" ++ toString bucket ++ " count=" ++
        toString count ++ " removed=" ++ toString delta)
    else if count - delta = 0 then .ok none
    else .ok (some (count - delta))

def subtractChainHistogram (rows removed : ExtTreeMap Int Int) :
    Except String (ExtTreeMap Int Int) :=
  merge subtractBucket rows removed

/-- Truncates the row of the epoch that the fork point lies in. -/
def truncateBoundaryEpoch (rollbackTo : Int) (removedTxs : Int) (row : EpochStats) :
    Except String EpochStats :=
  if rollbackTo < row.startBlock then
    .error ("boundary epoch stats start_block after fork point: epoch=" ++
      toString row.epochNumber ++ ", start_block=" ++ toString row.startBlock ++ ", rollback_to=" ++
      toString rollbackTo ++ " (corrupt epoch row; re-sync required)")
  else do
    let removedTxs ← checked 32 removedTxs ("rolled-back epoch tx count exceeds i32 range: epoch=" ++
      toString row.epochNumber ++ ", removed=" ++ toString removedTxs)
    if row.transactionsCount - removedTxs < 0 then
      .error ("boundary epoch tx count underflow during rollback: epoch=" ++
        toString row.epochNumber ++ ", had=" ++ toString row.transactionsCount ++ ", removing=" ++
        toString removedTxs ++ " (corrupt epoch row; re-sync required)")
    else
      let blocksCount ← checked 32 (rollbackTo - row.startBlock + 1)
        ("boundary epoch blocks_count exceeds i32 range: epoch=" ++ toString row.epochNumber ++
          ", start_block=" ++ toString row.startBlock ++ ", rollback_to=" ++ toString rollbackTo)
      return { row with
        transactionsCount := row.transactionsCount - removedTxs
        endBlock := some rollbackTo
        blocksCount := blocksCount
        -- the epoch continues into the replayed range, so it cannot be complete here
        endTimestamp := none }

/-- The epoch rows: those that begin above the fork point go, the boundary row is truncated. -/
def rollbackEpochs (rows : ExtTreeMap Int EpochStats) (epochTxRemoved : ExtTreeMap Int Int)
    (rollbackTo : Int) (start : CachedBlockHeader) : Except String (ExtTreeMap Int EpochStats) := do
  let deleteCutoffEpoch := decide (start.epochIndex = 0)
  let swept ← sweep (fun epoch => start.epochNumber < epoch ||
    (epoch = start.epochNumber && deleteCutoffEpoch)) (fun _ _ => .ok none) rows
  if deleteCutoffEpoch then return swept
  else
    match rows[start.epochNumber]? with
    | none => .error ("boundary epoch stats row missing during rollback: epoch=" ++
        toString start.epochNumber ++ ", rollback_to=" ++ toString rollbackTo)
    | some row => do
        let truncated ← truncateBoundaryEpoch rollbackTo
          (epochTxRemoved[start.epochNumber]?.getD 0) row
        return swept.insert start.epochNumber truncated

/-! ## The rollback -/

/-- The day of a header that may be missing. -/
def headerDay (header : Option CachedBlockHeader) : Except String (Option Int) :=
  match header with
  | none => .ok none
  | some h => do
      let day ← statsDay h.chainTimeMs
      return some day

/-- The deltas of the orphaned blocks, for the cutoff day and hour. -/
def rollbackDeltas (s : StatsStore) (rollbackTo : Int) (contexts : List UndoTxContext)
    (headers : HeaderDeltas) (cutoff cutoffHour : Int) : Except String RollbackStatsDeltas := do
  let orphans := s.orphans rollbackTo
  checkTxIndex orphans
  let date ← collect (keep addFlow) ∅ (flowShares day orphans)
  let hour ← collect (keep addFlow) ∅ (flowShares hour orphans)
  let dateCapacity ← cellFlow s rollbackTo contexts (createdOnDate orphans cutoff)
    (consumedOnDate orphans cutoff)
  let hourCapacity ← cellFlow s rollbackTo contexts (createdInHour orphans cutoffHour) fun _ => 0
  return ⟨date, hour, headers, dateCapacity, hourCapacity⟩

/-- The rows after the sweep. -/
def sweepRows (rows : ChainStatsRows) (rollbackTo : Int) (deltas : RollbackStatsDeltas)
    (isPartialDay : Bool) (cutoff cutoffHour : Int) (start : CachedBlockHeader) :
    Except String ChainStatsRows := do
  let daily ← sweep (fun date => cutoff ≤ date)
    (repairIf isPartialDay (repairDaily rows.daily deltas cutoff)) rows.daily
  let dailyBlock ← sweep (fun date => cutoff ≤ date)
    (repairIf isPartialDay (repairDailyBlock deltas cutoff)) rows.dailyBlock
  let hourly ← sweep (fun hour => cutoffHour ≤ hour)
    (repairIf isPartialDay (repairHourly deltas cutoffHour)) rows.hourly
  let miner ← sweep (fun key => cutoff ≤ key.date)
    (repairIf isPartialDay (repairMiner deltas cutoff)) rows.miner
  let blockTimeDist ← subtractChainHistogram rows.blockTimeDist deltas.headers.removedBlockTime
  let epochTimeDist ← subtractChainHistogram rows.epochTimeDist deltas.headers.removedEpochTime
  let epoch ← rollbackEpochs rows.epoch deltas.headers.epochTxRemoved rollbackTo start
  return ⟨daily, hourly, dailyBlock, miner, epoch, blockTimeDist, epochTimeDist⟩

/-- The statistics rows after a rollback, with the transaction contexts the undo log has. -/
def rollbackChainStats (difficulty : Nat → Nat) (s : StatsStore) (contexts : List UndoTxContext)
    (rollbackTo : Int) : Except String ChainStatsRows :=
  if rollbackTo < -1 then
    .error ("invalid rollback target: rollback_to=" ++ toString rollbackTo ++ " (expected >= -1)")
  else
    let forkPoint := if 0 ≤ rollbackTo then s.getBlockHeader rollbackTo else none
    do
      let forkPointDate ← headerDay forkPoint
      let loop ← (s.orphans rollbackTo).foldlM (rollbackHeader difficulty s rollbackTo)
        { prevHeader := forkPoint.map fun h => (rollbackTo, h.chainTimeMs) }
      match s.getBlockHeader (rollbackTo + 1) with
      | none => return s.rows
      | some start => do
          let cutoff ← statsDay start.chainTimeMs
          let cutoffHour ← statsHour start.chainTimeMs
          let deltas ← rollbackDeltas s rollbackTo contexts loop.deltas cutoff cutoffHour
          sweepRows s.rows rollbackTo deltas (decide (forkPointDate = some cutoff)) cutoff
            cutoffHour start

end Ckbadger.Sync
