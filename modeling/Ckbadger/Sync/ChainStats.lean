/-
Ckbadger.Sync.ChainStats — the seven families of chain statistics as functions of the chain.

Each settled block has a share in the rows of its day, hour, miner and epoch, each
interval between blocks a share in a histogram bucket and in a day, and each closed
epoch a share in a bucket. A row is a function of the shares of its key alone, apart
from the running totals of a day, which sum the shares of the days before.
-/
import Ckbadger.Sync.BatchStats
import Ckbadger.Sync.CellLedger

namespace Ckbadger.Sync

open Lib Lib.KeyedFold Common Writer Std List

/-! ## Shares -/

def SettledBlock.day (b : SettledBlock) : Int := dayOf b.chainTimeMs

def SettledBlock.hour (b : SettledBlock) : Int := hourOf b.chainTimeMs

/-- The cells a block consumes. -/
def SettledBlock.spent (b : SettledBlock) : List PositionedCell := b.txs.flatMap SettledTx.spent

def SettledBlock.dailyEntry (b : SettledBlock) : DailyEntry :=
  b.block.dailyEntry (b.spent.map PositionedCell.dataSize).sum
    (b.spent.map PositionedCell.occupiedCapacity).sum

def dayShares (bs : List SettledBlock) : List (Int × DailyEntry) :=
  bs.map fun b => (b.day, b.dailyEntry)

def daoShares (bs : List SettledBlock) : List (Int × Bytes) := bs.map fun b => (b.day, b.block.dao)

def hourShares (bs : List SettledBlock) : List (Int × HourlyEntry) :=
  bs.map fun b => (b.hour, b.block.hourlyEntry)

def dayBlockShares (difficulty : Nat → Nat) (bs : List SettledBlock) :
    List (Int × DailyBlockEntry) :=
  bs.map fun b => (b.day, (difficulty b.block.compactTarget, 1, b.block.unclesCount))

/-- A block's share in the row of its miner, if it names one. -/
def SettledBlock.minerShare (b : SettledBlock) : List (MinerKey × Int) :=
  b.block.minerLockHash.toList.map fun miner => (⟨b.day, miner⟩, b.block.number)

def minerShares (bs : List SettledBlock) : List (MinerKey × Int) :=
  bs.flatMap SettledBlock.minerShare

def epochShares (bs : List SettledBlock) : List (Int × (ParsedBlock × Int)) :=
  bs.map fun b => (b.block.epochNumber, (b.block, b.chainTimeMs))

/-- The interval from a chain time to a block's. -/
def SettledBlock.interval (previous : Option Int) (b : SettledBlock) : List (SettledBlock × Int) :=
  previous.toList.map fun prior => (b, b.chainTimeMs - prior)

/-- The intervals that end at each block, after a block of chain time `previous`. -/
def intervals (previous : Option Int) : List SettledBlock → List (SettledBlock × Int)
  | [] => []
  | b :: bs => b.interval previous ++ intervals (some b.chainTimeMs) bs

def intervalShares (previous : Option Int) (bs : List SettledBlock) : List (Int × Int) :=
  (intervals previous bs).map fun i => (i.1.day, i.2)

/-- The bucket of an interval of so many milliseconds. -/
def intervalBucket (deltaMs : Int) : Int := min (deltaMs / 1000) 30

def blockTimeShares (previous : Option Int) (bs : List SettledBlock) : List (Int × Unit) :=
  (intervals previous bs).map fun i => (intervalBucket i.2, ())

/-- The number and the start of the epoch that began last. -/
def nextEpochStart (start : Option (Int × Int)) (b : SettledBlock) : Option (Int × Int) :=
  if b.block.epochIndex = 0 then some (b.block.epochNumber, b.chainTimeMs) else start

def lastEpochStart (start : Option (Int × Int)) (bs : List SettledBlock) : Option (Int × Int) :=
  bs.foldl nextEpochStart start

/-- A duration in minutes, ties rounded up. -/
def roundedMinutes (durationMs : Int) : Int :=
  durationMs / 60000 + if 30000 ≤ durationMs % 60000 then 1 else 0

/-- The share of the epoch that a block closes. -/
def SettledBlock.epochTimeShare (start : Option (Int × Int)) (b : SettledBlock) :
    List (Int × Unit) :=
  if b.block.epochIndex = 0 ∧ 0 < b.block.epochNumber then
    (start.toList.filter fun s => s.1 = b.block.epochNumber - 1).map fun s =>
      (roundedMinutes (b.chainTimeMs - s.2), ())
  else []

def epochTimeShares (start : Option (Int × Int)) : List SettledBlock → List (Int × Unit)
  | [] => []
  | b :: bs => b.epochTimeShare start ++ epochTimeShares (nextEpochStart start b) bs

/-! ## Rows -/

def hourlyRow (hour : Int) (shares : List HourlyEntry) : HourlyStats :=
  let (blocksCount, transactionsCount, cellsCreated, cellsConsumed, capacityTransferred) :=
    shares.sum
  ⟨hour * 3600, blocksCount, transactionsCount, cellsCreated, cellsConsumed, capacityTransferred⟩

def dailyBlockRow (_date : Int) (shares : List DailyBlockEntry) : DailyBlockStats :=
  let (difficultySum, blockCount, totalUncles) := shares.sum
  ⟨difficultySum, blockCount, totalUncles⟩

/-- The number of a miner's blocks and the last of them. -/
def minerEntry (numbers : List Int) : Int × Int := (numbers.length, numbers.getLast?.getD 0)

def minerRow (key : MinerKey) (numbers : List Int) : MinerStats :=
  ⟨key.miner, (minerEntry numbers).1, (minerEntry numbers).2⟩

/-- What the blocks of an epoch say of it. -/
def epochAccum : List (ParsedBlock × Int) → EpochAccum
  | [] => ⟨0, 0, 0, 0, 0, 0, false⟩
  | first :: rest =>
    let last := (first :: rest).getLast (cons_ne_nil first rest)
    ⟨first.1.number, last.1.number, first.1.epochLength, first.2, last.2,
      ((first :: rest).map fun b => b.1.transactionsCount).sum, first.1.epochIndex = 0⟩

/-- The row of an epoch that an accumulation spans whole. -/
def accumRow (epochNumber : Int) (accum : EpochAccum) : EpochStats where
  epochNumber := epochNumber
  startBlock := accum.startBlock
  endBlock := some accum.endBlock
  blocksCount := accum.endBlock - accum.startBlock + 1
  length := accum.length
  startTimestamp := accum.startTs
  endTimestamp :=
    if accum.length ≤ accum.endBlock - accum.startBlock + 1 then some accum.endTs else none
  transactionsCount := accum.txCount

def epochRow (epochNumber : Int) (blocks : List (ParsedBlock × Int)) : EpochStats :=
  accumRow epochNumber (epochAccum blocks)

/-- The count of a histogram bucket. -/
def bucketRow (_bucket : Int) (samples : List Unit) : Int := samples.length

/-! ## Days -/

/-- What a sum of shares adds to the running totals. -/
def totalsOf (e : DailyEntry) : DayTotals :=
  (e.cellsCreated - e.cellsConsumed, e.cellsConsumed, e.cellsCreated,
    e.dataSizeAdded - e.dataSizeConsumed)

/-- The shares of the days before a day. -/
def sharesBefore (shares : List (Int × DailyEntry)) (date : Int) : DailyEntry :=
  ((shares.filter fun e => e.1 < date).map Prod.snd).sum

def dayBlockTime (previous : Option Int) (bs : List SettledBlock) (date : Int) : Int × Int :=
  ((group (intervalShares previous bs) date).sum, (group (intervalShares previous bs) date).length)

/-- The DAO field a day ends with. -/
def dayDao (bs : List SettledBlock) (date : Int) : Bytes :=
  (group (daoShares bs) date).getLast?.getD []

def dailyRow (virtualOccupied : Int) (bs : List SettledBlock) (date : Int) : DailyStats :=
  newDailyStats (group (dayShares bs) date).sum
    (calculateKnowledgeSize (dayDao bs date) virtualOccupied) (dayBlockTime none bs date)
    (totalsOf (sharesBefore (dayShares bs) date))

/-- Rows that have, at each day with a block, the day's row. -/
def DailyTable (virtualOccupied : Int) (bs : List SettledBlock) (rows : ExtTreeMap Int DailyStats) :
    Prop :=
  ∀ date, rows[date]? =
    if group (dayShares bs) date = [] then none else some (dailyRow virtualOccupied bs date)

/-! ## Concatenation -/

section Append

variable (xs ys : List SettledBlock)

theorem dayShares_append : dayShares (xs ++ ys) = dayShares xs ++ dayShares ys :=
  map_append

theorem daoShares_append : daoShares (xs ++ ys) = daoShares xs ++ daoShares ys :=
  map_append

theorem hourShares_append : hourShares (xs ++ ys) = hourShares xs ++ hourShares ys :=
  map_append

theorem dayBlockShares_append (difficulty : Nat → Nat) :
    dayBlockShares difficulty (xs ++ ys)
      = dayBlockShares difficulty xs ++ dayBlockShares difficulty ys :=
  map_append

theorem minerShares_append : minerShares (xs ++ ys) = minerShares xs ++ minerShares ys :=
  flatMap_append

theorem epochShares_append : epochShares (xs ++ ys) = epochShares xs ++ epochShares ys :=
  map_append

theorem lastChainTime_cons (previous : Option Int) (b : SettledBlock) :
    lastChainTime previous (b :: xs) = lastChainTime (some b.chainTimeMs) xs := by
  cases xs with
  | nil => rfl
  | cons c xs =>
    rfl

theorem intervals_append (previous : Option Int) :
    intervals previous (xs ++ ys)
      = intervals previous xs ++ intervals (lastChainTime previous xs) ys := by
  induction xs generalizing previous with
  | nil => rfl
  | cons b xs ih =>
    rw [cons_append, intervals, ih, intervals, lastChainTime_cons, append_assoc]

theorem intervalShares_append (previous : Option Int) :
    intervalShares previous (xs ++ ys)
      = intervalShares previous xs ++ intervalShares (lastChainTime previous xs) ys := by
  unfold intervalShares
  rw [intervals_append, map_append]

theorem blockTimeShares_append (previous : Option Int) :
    blockTimeShares previous (xs ++ ys)
      = blockTimeShares previous xs ++ blockTimeShares (lastChainTime previous xs) ys := by
  unfold blockTimeShares
  rw [intervals_append, map_append]

theorem epochTimeShares_append (start : Option (Int × Int)) :
    epochTimeShares start (xs ++ ys)
      = epochTimeShares start xs ++ epochTimeShares (lastEpochStart start xs) ys := by
  induction xs generalizing start with
  | nil => rfl
  | cons b xs ih =>
    rw [cons_append, epochTimeShares, ih, epochTimeShares, append_assoc]
    rfl

theorem lastEpochStart_append (start : Option (Int × Int)) :
    lastEpochStart start (xs ++ ys) = lastEpochStart (lastEpochStart start xs) ys :=
  foldl_append

theorem lastChainTime_append (previous : Option Int) :
    lastChainTime previous (xs ++ ys) = lastChainTime (lastChainTime previous xs) ys := by
  unfold lastChainTime
  rw [getLast?_append]
  cases ys.getLast? with
  | none => rfl
  | some b => rfl

end Append

end Ckbadger.Sync
