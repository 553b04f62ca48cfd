/-
Ckbadger.Writer.Statistics — the chain-statistics rows and how the live writer updates
them.

One function for each row family takes the committed row, if there is one, and the
batch's entry for its key, and returns the row to store. Days and hours are numbers and
instants are milliseconds, as in `Common.StatsBucket`.

Counters are integers. Where the source adds without a check, they are `i32` for the
counts of one day, hour, miner or epoch and `i64` for running totals and sums of
milliseconds. The two agree on chains of fewer than 2^31 blocks, transactions and cells
with less than 2^63 bytes of data and milliseconds of chain time; for the counts of a
day this is `Sync.LiveState.daily_counts_fit`. Checked additions keep their check.
-/
import Ckbadger.Common.StatsBucket
import Ckbadger.Lib.Bytes

namespace Ckbadger.Writer

open Lib Common Std

/-! ## Rows -/

structure DailyStats where
  blocksCount : Int
  transactionsCount : Int
  cellsCreated : Int
  cellsConsumed : Int
  capacityTransferred : Int
  usedCapacityCreated : Int
  usedCapacityConsumed : Int
  totalLiveCells : Int
  totalDeadCells : Int
  totalAllCells : Int
  totalDataSize : Int
  knowledgeSize : Option Int
  blockTimeSumMs : Int
  blockTimeCount : Int
  deriving DecidableEq

structure HourlyStats where
  hour : Int
  blocksCount : Int
  transactionsCount : Int
  cellsCreated : Int
  cellsConsumed : Int
  capacityTransferred : Int
  deriving DecidableEq

structure DailyBlockStats where
  difficultySum : Nat
  blockCount : Int
  totalUncles : Int
  deriving DecidableEq

structure MinerStats where
  minerLockHash : Bytes
  blocksCount : Int
  lastBlockNumber : Int
  deriving DecidableEq

structure EpochStats where
  epochNumber : Int
  startBlock : Int
  endBlock : Option Int
  blocksCount : Int
  length : Int
  startTimestamp : Int
  endTimestamp : Option Int
  transactionsCount : Int
  deriving DecidableEq

/-! ## Batch entries -/

/-- What a batch adds to a day. -/
@[ext] structure DailyEntry where
  blocks : Int
  txs : Int
  cellsCreated : Int
  cellsConsumed : Int
  capacityTransferred : Int
  usedCapacityCreated : Int
  usedCapacityConsumed : Int
  dataSizeAdded : Int
  dataSizeConsumed : Int
  deriving DecidableEq

instance : Zero DailyEntry := ⟨⟨0, 0, 0, 0, 0, 0, 0, 0, 0⟩⟩

instance : Add DailyEntry := ⟨fun a b =>
  ⟨a.blocks + b.blocks, a.txs + b.txs, a.cellsCreated + b.cellsCreated,
    a.cellsConsumed + b.cellsConsumed, a.capacityTransferred + b.capacityTransferred,
    a.usedCapacityCreated + b.usedCapacityCreated, a.usedCapacityConsumed + b.usedCapacityConsumed,
    a.dataSizeAdded + b.dataSizeAdded, a.dataSizeConsumed + b.dataSizeConsumed⟩⟩

instance : AddCommMonoid DailyEntry where
  add_assoc a b c := DailyEntry.ext (add_assoc _ _ _) (add_assoc _ _ _) (add_assoc _ _ _)
    (add_assoc _ _ _) (add_assoc _ _ _) (add_assoc _ _ _) (add_assoc _ _ _) (add_assoc _ _ _)
    (add_assoc _ _ _)
  zero_add a := DailyEntry.ext (zero_add _) (zero_add _) (zero_add _) (zero_add _) (zero_add _)
    (zero_add _) (zero_add _) (zero_add _) (zero_add _)
  add_zero a := DailyEntry.ext (add_zero _) (add_zero _) (add_zero _) (add_zero _) (add_zero _)
    (add_zero _) (add_zero _) (add_zero _) (add_zero _)
  add_comm a b := DailyEntry.ext (add_comm _ _) (add_comm _ _) (add_comm _ _) (add_comm _ _)
    (add_comm _ _) (add_comm _ _) (add_comm _ _) (add_comm _ _) (add_comm _ _)
  nsmul := nsmulRec

/-- What a batch adds to an hour: blocks, transactions, created and consumed cells, and the
capacity transferred. -/
abbrev HourlyEntry := Int × Int × Int × Int × Int

/-- What a batch adds to a day's blocks: work, blocks and uncles. -/
abbrev DailyBlockEntry := Nat × Int × Int

/-- What a batch knows of an epoch. -/
structure EpochAccum where
  startBlock : Int
  endBlock : Int
  length : Int
  startTs : Int
  endTs : Int
  txCount : Int
  isNew : Bool
  deriving DecidableEq

/-! ## Updates -/

def checkedAddI128 (current delta : Int) (metric : String) : Except String Int :=
  checked 128 (current + delta) ("daily/hourly statistics overflow while updating " ++ metric ++
    ": current=" ++ toString current ++ ", delta=" ++ toString delta)

/-- The knowledge size of a DAO field: its occupied capacity without the genesis burn. -/
def calculateKnowledgeSize (daoField : Bytes) (virtualOccupied : Int) : Option Int :=
  if 32 ≤ daoField.length then
    some (leNat ((daoField.drop 24).take 8) - virtualOccupied)
  else none

/-- The genesis baseline, which is derived before any block is written. -/
def genesisVirtualOccupied (baseline : Option Int) : Except String Int :=
  match baseline with
  | some virtualOccupied => .ok virtualOccupied
  | none => .error "genesis baseline not derived; cannot compute knowledge_size"

/-- The knowledge size a batch's DAO field gives a day. -/
def dayKnowledgeSize (baseline : Option Int) (daoField : Option Bytes) :
    Except String (Option Int) :=
  match daoField with
  | none => .ok none
  | some dao => do
      let virtualOccupied ← genesisVirtualOccupied baseline
      return calculateKnowledgeSize dao virtualOccupied

/-- The running totals of a day: live, dead and all cells, and the data size. -/
abbrev DayTotals := Int × Int × Int × Int

def DailyStats.totals (s : DailyStats) : DayTotals :=
  (s.totalLiveCells, s.totalDeadCells, s.totalAllCells, s.totalDataSize)

/-- The totals a new day starts from: those of the day before in the batch, or of the calendar
day before in the store. A stored day further back means that a day is missing. -/
def carriedTotals (rows : ExtTreeMap Int DailyStats) (date : Int)
    (prevDayStats : Option DailyStats) : Except String DayTotals :=
  match prevDayStats with
  | some p => .ok p.totals
  | none =>
    match rows[date - 1]? with
    | some p => .ok p.totals
    | none =>
      match (rows.toList.filter fun row => row.1 ≤ date).getLast? with
      | some found =>
        .error ("missing previous day stats while carrying daily totals: date=" ++
          toString date ++ ", expected_prev_date=" ++ toString (date - 1) ++
          ", found_latest_prior_date=" ++ toString found.1)
      | none => .ok (0, 0, 0, 0)

/-- The row of a day with no stored row. -/
def newDailyStats (entry : DailyEntry) (knowledgeSize : Option Int) (blockTime : Int × Int)
    (prev : DayTotals) : DailyStats where
  blocksCount := entry.blocks
  transactionsCount := entry.txs
  cellsCreated := entry.cellsCreated
  cellsConsumed := entry.cellsConsumed
  capacityTransferred := entry.capacityTransferred
  usedCapacityCreated := entry.usedCapacityCreated
  usedCapacityConsumed := entry.usedCapacityConsumed
  totalLiveCells := prev.1 + (entry.cellsCreated - entry.cellsConsumed)
  totalDeadCells := prev.2.1 + entry.cellsConsumed
  totalAllCells := prev.2.2.1 + entry.cellsCreated
  totalDataSize := prev.2.2.2 + entry.dataSizeAdded - entry.dataSizeConsumed
  knowledgeSize := knowledgeSize
  blockTimeSumMs := blockTime.1
  blockTimeCount := blockTime.2

def updateDailyStatistics (baseline : Option Int) (rows : ExtTreeMap Int DailyStats) (date : Int)
    (entry : DailyEntry) (daoField : Option Bytes) (blockTime : Option (Int × Int))
    (prevDayStats : Option DailyStats) : Except String DailyStats :=
  let (newBlockTimeSumMs, newBlockTimeCount) := blockTime.getD (0, 0)
  match rows[date]? with
  | some s => do
      let capacityTransferred ← checkedAddI128 s.capacityTransferred entry.capacityTransferred
        "daily.capacity_transferred"
      let usedCapacityCreated ← checkedAddI128 s.usedCapacityCreated entry.usedCapacityCreated
        "daily.used_capacity_created"
      let usedCapacityConsumed ← checkedAddI128 s.usedCapacityConsumed entry.usedCapacityConsumed
        "daily.used_capacity_consumed"
      let knowledgeSize ← dayKnowledgeSize baseline daoField
      return {
        blocksCount := s.blocksCount + entry.blocks
        transactionsCount := s.transactionsCount + entry.txs
        cellsCreated := s.cellsCreated + entry.cellsCreated
        cellsConsumed := s.cellsConsumed + entry.cellsConsumed
        capacityTransferred := capacityTransferred
        usedCapacityCreated := usedCapacityCreated
        usedCapacityConsumed := usedCapacityConsumed
        totalLiveCells := s.totalLiveCells + (entry.cellsCreated - entry.cellsConsumed)
        totalDeadCells := s.totalDeadCells + entry.cellsConsumed
        totalAllCells := s.totalAllCells + entry.cellsCreated
        totalDataSize := s.totalDataSize + (entry.dataSizeAdded - entry.dataSizeConsumed)
        -- a DAO field that yields nothing leaves the stored value
        knowledgeSize := knowledgeSize.or s.knowledgeSize
        blockTimeSumMs := s.blockTimeSumMs + newBlockTimeSumMs
        blockTimeCount := s.blockTimeCount + newBlockTimeCount }
  | none => do
      let knowledgeSize ← dayKnowledgeSize baseline daoField
      let prev ← carriedTotals rows date prevDayStats
      return newDailyStats entry knowledgeSize (newBlockTimeSumMs, newBlockTimeCount) prev

def updateHourlyStatistics (hour : Int) (existing : Option HourlyStats) (entry : HourlyEntry) :
    Except String HourlyStats :=
  let (blocksCount, transactionsCount, cellsCreated, cellsConsumed, capacityTransferred) := entry
  match existing with
  | some s => do
      let total ← checkedAddI128 s.capacityTransferred capacityTransferred
        "hourly.capacity_transferred"
      return { s with
        blocksCount := s.blocksCount + blocksCount
        transactionsCount := s.transactionsCount + transactionsCount
        cellsCreated := s.cellsCreated + cellsCreated
        cellsConsumed := s.cellsConsumed + cellsConsumed
        capacityTransferred := total }
  | none =>
    -- the hour's start, in epoch seconds
    .ok ⟨hour * 3600, blocksCount, transactionsCount, cellsCreated, cellsConsumed,
      capacityTransferred⟩

def updateDailyBlockStats (date : Int) (existing : Option DailyBlockStats)
    (entry : DailyBlockEntry) : Except String DailyBlockStats :=
  let (difficultySum, blockCount, totalUncles) := entry
  match existing with
  | some s => do
      let blocks ← checked 32 (s.blockCount + blockCount)
        ("daily block count overflow: date=" ++ toString date)
      if u128Max < s.difficultySum + difficultySum then
        .error ("daily difficulty overflow: date=" ++ toString date)
      else
        let uncles ← checked 32 (s.totalUncles + totalUncles)
          ("daily uncle count overflow: date=" ++ toString date)
        return ⟨s.difficultySum + difficultySum, blocks, uncles⟩
  | none => .ok ⟨difficultySum, blockCount, totalUncles⟩

def updateMinerStatistics (lockScriptHash : Bytes) (existing : Option MinerStats)
    (entry : Int × Int) : MinerStats :=
  let (blocksCount, lastBlockNumber) := entry
  match existing with
  | some s => { s with
      blocksCount := s.blocksCount + blocksCount
      lastBlockNumber := max s.lastBlockNumber lastBlockNumber }
  | none => ⟨lockScriptHash, blocksCount, lastBlockNumber⟩

def upsertEpochStatistics (epochNumber : Int) (existing : Option EpochStats) (accum : EpochAccum) :
    Except String EpochStats :=
  if accum.isNew then
    let blocksCount := accum.endBlock - accum.startBlock + 1
    .ok {
      epochNumber := epochNumber
      startBlock := accum.startBlock
      endBlock := some accum.endBlock
      blocksCount := blocksCount
      length := accum.length
      startTimestamp := accum.startTs
      endTimestamp := if accum.length ≤ blocksCount then some accum.endTs else none
      transactionsCount := accum.txCount }
  else
    match existing with
    | some s =>
      let endBlock := max (s.endBlock.getD accum.endBlock) accum.endBlock
      let blocksCount := endBlock - s.startBlock + 1
      .ok { s with
        endBlock := some endBlock
        blocksCount := blocksCount
        endTimestamp := if s.length ≤ blocksCount then some accum.endTs else none
        transactionsCount := s.transactionsCount + accum.txCount }
    | none =>
      .error ("epoch stats row missing for mid-epoch batch: epoch=" ++ toString epochNumber ++
        ", blocks=" ++ toString accum.startBlock ++ "..=" ++ toString accum.endBlock ++
        " (epoch row must exist before non-initial blocks; re-sync required if store predates " ++
        "epoch rows)")

def updateChainTimeHistogram (kind : String) (bucket : Int) (existing : Option Int) (count : Int) :
    Except String Int :=
  if bucket < 0 ∨ count ≤ 0 then
    .error ("invalid " ++ kind ++ " histogram delta: bucket=" ++ toString bucket ++ " count=" ++
      toString count)
  else
    let previous := existing.getD 0
    if previous < 0 then
      .error ("negative " ++ kind ++ " histogram count: bucket=" ++ toString bucket ++
        " previous=" ++ toString previous)
    else
      checked 32 (previous + count) (kind ++ " histogram count overflow: bucket=" ++
        toString bucket ++ " previous=" ++ toString previous ++ " added=" ++ toString count)

def updateBlockTimeDistribution (bucketSeconds : Int) (existing : Option Int) (count : Int) :
    Except String Int :=
  updateChainTimeHistogram "block time" bucketSeconds existing count

def updateEpochTimeDistribution (bucketMinutes : Int) (existing : Option Int) (count : Int) :
    Except String Int :=
  updateChainTimeHistogram "epoch time" bucketMinutes existing count

/-- The later of the best row so far and another row, as start block, number and start. -/
def laterEpoch (beforeBlock : Int) (best : Option (Int × Int × Int)) (epoch : EpochStats) :
    Option (Int × Int × Int) :=
  if beforeBlock ≤ epoch.startBlock then best
  else
    match best with
    | some (bestStartBlock, bestEpochNumber, _) =>
      if epoch.startBlock < bestStartBlock ∨
          (epoch.startBlock = bestStartBlock ∧ epoch.epochNumber ≤ bestEpochNumber) then best
      else some (epoch.startBlock, epoch.epochNumber, epoch.startTimestamp)
    | none => some (epoch.startBlock, epoch.epochNumber, epoch.startTimestamp)

/-- The number and start of the stored epoch that begins last before a block. -/
def getLastEpochStart (rows : ExtTreeMap Int EpochStats) (beforeBlock : Int) : Option (Int × Int) :=
  if beforeBlock ≤ 0 then none
  else
    let best := rows.toList.foldl (fun best row => laterEpoch beforeBlock best row.2) none
    best.map fun b => (b.2.1, b.2.2)

end Ckbadger.Writer
