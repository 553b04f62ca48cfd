/-
Ckbadger.Sync.BatchStats — the statistics of a live batch.

A batch is accumulated block by block into maps keyed by day, hour, miner, epoch and
histogram bucket, and the maps are then written over the committed rows. The store
also holds what a rollback reads: the header and transaction rows of every block, and
the live and consumed cells, each a marker with its payload.
-/
import Ckbadger.Lib.KeyedFold
import Ckbadger.Store.BlockHeaders
import Ckbadger.Sync.ParsedChain
import Ckbadger.Writer.Statistics

namespace Ckbadger.Sync

open Lib Lib.KeyedFold Common Store Writer Std

/-! ## The store -/

/-- The key of a miner's day. -/
structure MinerKey where
  date : Int
  miner : Bytes
  deriving DecidableEq

instance : Ord MinerKey :=
  ⟨compareLex (compareOn MinerKey.date) (compareOn MinerKey.miner)⟩

instance : TransOrd MinerKey :=
  inferInstanceAs (TransCmp (compareLex (compareOn MinerKey.date) (compareOn MinerKey.miner)))

instance : LawfulEqOrd MinerKey := lawfulEqCmp_compareLex (by rintro ⟨⟩ ⟨⟩ rfl rfl; rfl)

/-- The rows of the chain statistics: seven families. The DAO snapshots, the activity and the
address rows, which the same batch writes, are not among them. -/
structure ChainStatsRows where
  daily : ExtTreeMap Int DailyStats := ∅
  hourly : ExtTreeMap Int HourlyStats := ∅
  dailyBlock : ExtTreeMap Int DailyBlockStats := ∅
  miner : ExtTreeMap MinerKey MinerStats := ∅
  epoch : ExtTreeMap Int EpochStats := ∅
  blockTimeDist : ExtTreeMap Int Int := ∅
  epochTimeDist : ExtTreeMap Int Int := ∅

structure TxIndexEntry where
  txHash : Bytes
  isCellbase : Bool
  inputsCount : Int
  outputsCount : Int
  deriving DecidableEq

/-- The header row and the transaction rows of a block. -/
structure StoredBlock where
  number : Int
  header : CachedBlockHeader
  txIndex : List TxIndexEntry
  deriving DecidableEq

structure StatsStore where
  /-- The virtual occupied capacity of the genesis baseline. -/
  baseline : Option Int
  /-- The stored blocks, by number. -/
  blocks : List StoredBlock := []
  liveCells : UnspentCells := ∅
  consumedCells : FinMap OutPoint ConsumedCell := ∅
  rows : ChainStatsRows := {}

def StatsStore.getBlockHeader (s : StatsStore) (number : Int) : Option CachedBlockHeader :=
  (s.blocks.find? fun b => b.number = number).map StoredBlock.header

/-- An input's cell in the store: a live one, or else a consumed one. -/
def StatsStore.fullCellInfo (s : StatsStore) (o : OutPoint) : Option PositionedCell :=
  (s.liveCells.lookup o).or ((s.consumedCells.lookup o).map ConsumedCell.cell)

/-! ## What a block adds -/

def ParsedBlock.cellsCreated (b : ParsedBlock) : Int :=
  (b.txs.map fun t => (t.cells.length : Int)).sum

def ParsedBlock.cellsConsumed (b : ParsedBlock) : Int :=
  ((b.txs.filter fun t => !t.isCellbase).map fun t => (t.inputs.length : Int)).sum

def ParsedBlock.capacityTransferred (b : ParsedBlock) : Int :=
  ((b.txs.filter fun t => !t.isCellbase).map TxData.totalOutputCapacity).sum

def ParsedBlock.dataSizeAdded (b : ParsedBlock) : Int :=
  ((b.txs.flatMap TxData.cells).map ParsedCell.dataSize).sum

def ParsedBlock.usedCapacityCreated (b : ParsedBlock) : Int :=
  ((b.txs.flatMap TxData.cells).map ParsedCell.occupiedCapacity).sum

/-- The day's entry of one block. -/
def ParsedBlock.dailyEntry (b : ParsedBlock) (dataSizeConsumed usedCapacityConsumed : Int) :
    DailyEntry where
  blocks := 1
  txs := b.transactionsCount
  cellsCreated := b.cellsCreated
  cellsConsumed := b.cellsConsumed
  capacityTransferred := b.capacityTransferred
  usedCapacityCreated := b.usedCapacityCreated
  usedCapacityConsumed := usedCapacityConsumed
  dataSizeAdded := b.dataSizeAdded
  dataSizeConsumed := dataSizeConsumed

/-- The hour's entry of one block. -/
def ParsedBlock.hourlyEntry (b : ParsedBlock) : HourlyEntry :=
  (1, b.transactionsCount, b.cellsCreated, b.cellsConsumed, b.capacityTransferred)

/-- The cell an input spends, found through `find`. -/
def resolveInput (find : OutPoint → Option PositionedCell) (blockNumber : Int) (input : ParsedInput) :
    Except String PositionedCell := do
  let index ← parsedInputOutpointIndex input.previousOutputIndex "stats"
  match find ⟨input.previousTxHash, index⟩ with
  | some info => return info
  | none => .error ("unresolved input cell info for stats accumulation: block=" ++
      toString blockNumber ++ ", idx=" ++ toString index)

/-- Adds the data size and the occupied capacity of an input's cell. -/
def addConsumed (find : OutPoint → Option PositionedCell) (blockNumber : Int) (sums : Int × Int)
    (input : ParsedInput) : Except String (Int × Int) := do
  let info ← resolveInput find blockNumber input
  return (sums.1 + info.dataSize, sums.2 + info.occupiedCapacity)

/-- The data size and the occupied capacity that the transactions of a block consume. -/
def resolveConsumedStats (find : OutPoint → Option PositionedCell) (txs : List TxData)
    (blockNumber : Int) : Except String (Int × Int) :=
  ((txs.filter fun t => !t.isCellbase).flatMap TxData.inputs).foldlM (addConsumed find blockNumber)
    (0, 0)

/-! ## Accumulating a batch -/

structure BatchStats where
  hourlyStats : ExtTreeMap Int HourlyEntry := ∅
  dailyStats : ExtTreeMap Int DailyEntry := ∅
  dailyBlockStats : ExtTreeMap Int DailyBlockEntry := ∅
  minerStats : ExtTreeMap MinerKey (Int × Int) := ∅
  epochStats : ExtTreeMap Int EpochAccum := ∅
  blockTimeDist : ExtTreeMap Int Int := ∅
  epochTimeDist : ExtTreeMap Int Int := ∅
  /-- The sum and the number of the inter-block times of a day. -/
  dailyBlockTimes : ExtTreeMap Int (Int × Int) := ∅
  dailyDaoFields : ExtTreeMap Int Bytes := ∅

def addDailyEntry (date : Int) (entry : Option DailyEntry) (delta : DailyEntry) :
    Except String DailyEntry := do
  let total := entry.getD 0 + delta
  let _ ← checked 128 total.capacityTransferred
    ("daily capacity_transferred overflow: date=" ++ toString date)
  let _ ← checked 128 total.usedCapacityCreated
    ("daily used_capacity_created overflow: date=" ++ toString date)
  let _ ← checked 128 total.usedCapacityConsumed
    ("daily used_capacity_consumed overflow: date=" ++ toString date)
  return total

def addHourlyEntry (hour : Int) (entry : Option HourlyEntry) (delta : HourlyEntry) :
    Except String HourlyEntry := do
  let total := entry.getD 0 + delta
  let _ ← checked 128 total.2.2.2.2 ("hourly capacity_transferred overflow: hour=" ++ toString hour)
  return total

def addDailyBlockEntry (date : Int) (entry : Option DailyBlockEntry) (delta : DailyBlockEntry) :
    Except String DailyBlockEntry :=
  let total := entry.getD 0 + delta
  if u128Max < total.1 then .error ("daily difficulty overflow: date=" ++ toString date)
  else do
    let _ ← checked 32 total.2.1 ("daily block count overflow: date=" ++ toString date)
    let _ ← checked 32 total.2.2 ("daily uncle count overflow: date=" ++ toString date)
    return total

/-- Counts a block of a miner; the last one is remembered. -/
def addMinerBlock (_key : MinerKey) (entry : Option (Int × Int)) (number : Int) :
    Except String (Int × Int) :=
  .ok ((entry.getD (0, 0)).1 + 1, number)

/-- Opens an epoch's entry at its first block in the batch, and extends it to each block. -/
def addEpochBlock (_epoch : Int) (entry : Option EpochAccum) (block : ParsedBlock × Int) :
    Except String EpochAccum :=
  let (parsed, chainTimeMs) := block
  let opened := entry.getD
    ⟨parsed.number, parsed.number, parsed.epochLength, chainTimeMs, chainTimeMs, 0,
      parsed.epochIndex = 0⟩
  .ok { opened with
    endBlock := parsed.number
    endTs := chainTimeMs
    txCount := opened.txCount + parsed.transactionsCount }

/-- Counts one sample of a histogram. -/
def addSample (_bucket : Int) (entry : Option Int) (_sample : Unit) : Except String Int :=
  .ok (entry.getD 0 + 1)

def addBlockTime (date : Int) (entry : Option (Int × Int)) (deltaMs : Int) :
    Except String (Int × Int) := do
  let sum ← checked 64 ((entry.getD (0, 0)).1 + deltaMs)
    ("daily block-time sum overflow: date=" ++ toString date)
  let count ← checked 32 ((entry.getD (0, 0)).2 + 1)
    ("daily block-time count overflow: date=" ++ toString date)
  return (sum, count)

/-- The last DAO field of a day. -/
def setDaoField (_date : Int) (_entry : Option Bytes) (dao : Bytes) : Except String Bytes := .ok dao

/-- The bucket of the interval between two blocks. -/
def blockTimeBucket (prevTs currTs : Int) (date : Int) : Except String Int :=
  let deltaMs := currTs - prevTs
  if deltaMs < 0 then
    .error ("chain time regressed while accumulating block interval: previous_ms=" ++
      toString prevTs ++ " current_ms=" ++ toString currTs ++ " date=" ++ toString date)
  else blockTimeToBucket (deltaMs / 1000)

def accumulateBlockTime (stats : BatchStats) (prevTimestamp : Option Int) (chainTimeMs : Int)
    (blockDate : Int) : Except String BatchStats :=
  match prevTimestamp with
  | none => .ok stats
  | some prevTs => do
      let bucket ← blockTimeBucket prevTs chainTimeMs blockDate
      let blockTimeDist ← upsert addSample stats.blockTimeDist bucket ()
      let dailyBlockTimes ← upsert addBlockTime stats.dailyBlockTimes blockDate
        (chainTimeMs - prevTs)
      return { stats with blockTimeDist := blockTimeDist, dailyBlockTimes := dailyBlockTimes }

/-- The bucket of an epoch's duration, in rounded minutes. The writer and the rollback differ in
the texts of their failures: `phase` and `previous` are the parts that differ. -/
def epochTimeBucket (phase previous : String) (blockNumber epochNumber startMs endMs : Int) :
    Except String Int :=
  let durationMs := endMs - startMs
  if durationMs < 0 then
    .error ("negative epoch duration" ++ phase ++ ": block=" ++ toString blockNumber ++ " epoch=" ++
      toString epochNumber ++ " " ++ previous ++ "=" ++ toString startMs ++ " current_ms=" ++
      toString endMs)
  else do
    let minutes ← withContext ("epoch minute rounding failed" ++ phase ++ ": block=" ++
      toString blockNumber) (roundedRatio durationMs.toNat 60000)
    checked 32 minutes ("epoch minute bucket exceeds i32" ++ phase ++ ": block=" ++
      toString blockNumber ++ " duration_ms=" ++ toString durationMs)

/-- An epoch's first block closes the epoch before it. -/
def closedEpochBucket (prevEpoch : Option (Int × Int)) (parsed : ParsedBlock) (chainTimeMs : Int) :
    Except String (Option Int) :=
  if parsed.epochIndex = 0 ∧ 0 < parsed.epochNumber then
    match prevEpoch with
    | some (prevEpochNum, prevStartTs) =>
      if prevEpochNum = parsed.epochNumber - 1 then do
        let bucket ← epochTimeBucket "" "previous_start_ms" parsed.number parsed.epochNumber
          prevStartTs chainTimeMs
        return some bucket
      else .ok none
    | none => .ok none
  else .ok none

def accumulateEpochTime (epochTimeDist : ExtTreeMap Int Int) (prevEpoch : Option (Int × Int))
    (parsed : ParsedBlock) (chainTimeMs : Int) : Except String (ExtTreeMap Int Int) := do
  match ← closedEpochBucket prevEpoch parsed chainTimeMs with
  | some bucket => upsert addSample epochTimeDist bucket ()
  | none => return epochTimeDist

def accumulateMiner (minerStats : ExtTreeMap MinerKey (Int × Int)) (parsed : ParsedBlock)
    (blockDate : Int) : Except String (ExtTreeMap MinerKey (Int × Int)) :=
  match parsed.minerLockHash with
  | some miner => upsert addMinerBlock minerStats ⟨blockDate, miner⟩ parsed.number
  | none => .ok minerStats

/-- What the loop over the blocks carries. -/
structure StatsLoop where
  stats : BatchStats := {}
  prevTimestamp : Option Int
  /-- The number and the start of the epoch that began last. -/
  prevEpoch : Option (Int × Int)

/-- Rejects a chain time that is no instant of the calendar. -/
def chainInstant (blockNumber chainTimeMs : Int) : Except String Unit :=
  if representable chainTimeMs then .ok ()
  else .error ("invalid chain time: block=" ++ toString blockNumber ++ " chain_time_ms=" ++
    toString chainTimeMs)

/-- One turn of the loop: a block with its chain time. -/
def accumulateBlock (difficulty : Nat → Nat) (find : OutPoint → Option PositionedCell)
    (st : StatsLoop) (block : ParsedBlock × Int) : Except String StatsLoop := do
  let (parsed, chainTimeMs) := block
  chainInstant parsed.number chainTimeMs
  let blockDate ← statsDay chainTimeMs
  let consumed ← resolveConsumedStats find parsed.txs parsed.number
  let dailyStats ← upsert addDailyEntry st.stats.dailyStats blockDate
    (parsed.dailyEntry consumed.1 consumed.2)
  let dailyDaoFields ← upsert setDaoField st.stats.dailyDaoFields blockDate parsed.dao
  let blockHour ← statsHour chainTimeMs
  let hourlyStats ← upsert addHourlyEntry st.stats.hourlyStats blockHour parsed.hourlyEntry
  let work ← compactDifficulty difficulty parsed.compactTarget
  let dailyBlockStats ← upsert addDailyBlockEntry st.stats.dailyBlockStats blockDate
    (work, 1, parsed.unclesCount)
  let minerStats ← accumulateMiner st.stats.minerStats parsed blockDate
  let epochStats ← upsert addEpochBlock st.stats.epochStats parsed.epochNumber block
  let stats ← accumulateBlockTime { st.stats with
    dailyStats := dailyStats
    dailyDaoFields := dailyDaoFields
    hourlyStats := hourlyStats
    dailyBlockStats := dailyBlockStats
    minerStats := minerStats
    epochStats := epochStats } st.prevTimestamp chainTimeMs blockDate
  let epochTimeDist ← accumulateEpochTime stats.epochTimeDist st.prevEpoch parsed chainTimeMs
  return {
    stats := { stats with epochTimeDist := epochTimeDist }
    prevTimestamp := some chainTimeMs
    prevEpoch :=
      if parsed.epochIndex = 0 then some (parsed.epochNumber, chainTimeMs) else st.prevEpoch }

/-! ## Writing a batch -/

/-- One turn of the loop over a batch's days, which hands each row to the next day. -/
def writeDay (baseline : Option Int) (rows : ExtTreeMap Int DailyStats) (stats : BatchStats)
    (st : ExtTreeMap Int DailyStats × Option DailyStats) (day : Int × DailyEntry) :
    Except String (ExtTreeMap Int DailyStats × Option DailyStats) := do
  let row ← updateDailyStatistics baseline rows day.1 day.2 stats.dailyDaoFields[day.1]?
    stats.dailyBlockTimes[day.1]? st.2
  return (st.1.insert day.1 row, some row)

/-- Writes the days of a batch in order, each carrying the totals of the one before. -/
def writeDailyStats (baseline : Option Int) (rows : ExtTreeMap Int DailyStats)
    (stats : BatchStats) : Except String (ExtTreeMap Int DailyStats) := do
  let written ← stats.dailyStats.toList.foldlM (writeDay baseline rows stats) (rows, none)
  return written.1

def writeBatchStats (baseline : Option Int) (rows : ChainStatsRows) (stats : BatchStats) :
    Except String ChainStatsRows := do
  let epoch ← merge (keep upsertEpochStatistics) rows.epoch stats.epochStats
  let daily ← writeDailyStats baseline rows.daily stats
  let dailyBlock ← merge (keep updateDailyBlockStats) rows.dailyBlock stats.dailyBlockStats
  let hourly ← merge (keep updateHourlyStatistics) rows.hourly stats.hourlyStats
  let miner ← merge (keep fun key existing entry =>
    .ok (updateMinerStatistics key.miner existing entry)) rows.miner stats.minerStats
  let blockTimeDist ← merge (keep updateBlockTimeDistribution) rows.blockTimeDist
    stats.blockTimeDist
  let epochTimeDist ← merge (keep updateEpochTimeDistribution) rows.epochTimeDist
    stats.epochTimeDist
  return ⟨daily, hourly, dailyBlock, miner, epoch, blockTimeDist, epochTimeDist⟩

/-! ## A batch -/

/-- The chain times of a batch whose parent block has chain time `previous`. -/
def batchChainTimes (previous : Option Int) : List ParsedBlock → Except String (List Int)
  | [] => .ok []
  | parsed :: rest =>
    if parsed.timestamp < 0 then
      .error ("negative header timestamp: block=" ++ toString parsed.number ++
        " timestamp_ms=" ++ toString parsed.timestamp)
    else do
      let chainTime := nextChainTime previous parsed.timestamp
      let chainTimes ← batchChainTimes (some chainTime) rest
      return chainTime :: chainTimes

/-- Rejects a batch that has a block number twice. -/
def distinctNumbers (batch : List ParsedBlock) : Except String Unit :=
  if (batch.map ParsedBlock.number).Nodup then .ok ()
  else .error "duplicate block number in live batch"

/-- The chain time of the block before a batch. -/
def parentChainTime (s : StatsStore) (firstBlock : Int) : Except String (Option Int) :=
  if 0 < firstBlock then
    match s.getBlockHeader (firstBlock - 1) with
    | some header => .ok (some header.chainTimeMs)
    | none => .error ("missing parent header for live batch: first_block=" ++ toString firstBlock ++
        ", parent=" ++ toString (firstBlock - 1))
  else .ok none

def ParsedBlock.header (parsed : ParsedBlock) (chainTimeMs : Int) : CachedBlockHeader where
  hash := parsed.hash
  parentHash := parsed.parentHash
  timestamp := parsed.timestamp
  epochNumber := parsed.epochNumber
  epochIndex := parsed.epochIndex
  epochLength := parsed.epochLength
  dao := parsed.dao
  transactionsCount := parsed.transactionsCount
  unclesCount := parsed.unclesCount
  proposalsCount := parsed.proposalsCount
  compactTarget := parsed.compactTarget
  minerLockHash := parsed.minerLockHash
  cycles := none
  chainTimeMs := chainTimeMs

def TxData.indexEntry (t : TxData) : TxIndexEntry :=
  ⟨t.hash, t.isCellbase, t.inputs.length, t.cells.length⟩

/-- The rows of a block. -/
def ParsedBlock.stored (parsed : ParsedBlock) (chainTimeMs : Int) : StoredBlock :=
  ⟨parsed.number, parsed.header chainTimeMs, parsed.txs.map TxData.indexEntry⟩

/-- A cell that a transaction of a batch consumes. -/
def consumption (find : OutPoint → Option PositionedCell) (number : Int) (t : TxData)
    (o : OutPoint) : Except String ConsumedCell :=
  match find o with
  | some info => .ok ⟨info, number, t.hash⟩
  | none => .error "missing preloaded cell info during consumption"

/-- The cells a batch consumes, in order. -/
def batchConsumptions (find : OutPoint → Option PositionedCell) (txs : List (Int × TxData)) :
    Except String (List ConsumedCell) :=
  (txs.flatMap fun e => e.2.spends.map fun o => (e, o)).mapM fun c =>
    consumption find c.1.1 c.1.2 c.2

/-- Indexes a batch of blocks, `difficulty` being the work of a compact target. -/
def liveBatch (difficulty : Nat → Nat) (s : StatsStore) (batch : List ParsedBlock) :
    Except String StatsStore :=
  match batch with
  | [] => .ok s
  | first :: _ => do
      let parent ← parentChainTime s first.number
      let chainTimes ← batchChainTimes parent batch
      distinctNumbers batch
      let txs := chainTxs batch
      let find := fun o => (s.fullCellInfo o).or ((batchCells txs).lookup o)
      let consumed ← batchConsumptions find txs
      let loop ← (batch.zip chainTimes).foldlM (accumulateBlock difficulty find)
        { prevTimestamp := parent, prevEpoch := getLastEpochStart s.rows.epoch first.number }
      let rows ← writeBatchStats s.baseline s.rows loop.stats
      return { s with
        blocks := s.blocks ++ (batch.zip chainTimes).map fun b => b.1.stored b.2
        liveCells := FinMap.eraseAll
          (FinMap.insertAll PositionedCell.outpoint s.liveCells (txFlow.created txs))
          (consumed.map fun c => c.cell.outpoint)
        consumedCells := FinMap.insertAll (fun c => c.cell.outpoint) s.consumedCells consumed
        rows := rows }

/-- Indexes batches one after another. -/
def liveRun (difficulty : Nat → Nat) (s : StatsStore) (batches : List (List ParsedBlock)) :
    Except String StatsStore :=
  batches.foldlM (liveBatch difficulty) s

end Ckbadger.Sync
