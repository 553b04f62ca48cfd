/-
Ckbadger.Writer.Dao — the live writer's DAO lifecycle.

A batch resolves every DAO input of its transactions once, in chain order, against the
committed rows shadowed by what the batch has done so far: a deposit becomes a withdraw
request, a withdraw request is completed. What it resolved is staged as deposit rows and
as rows from requests to deposits.
-/
import Ckbadger.Parser.Dao
import Ckbadger.Store.DaoOps

namespace Ckbadger.Writer

open Lib Ckbadger.Parser Store Std

/-! ## Transactions -/

/-- An input with the cell it resolves to. -/
structure DaoInput where
  outpoint : DaoOutPoint
  cell : DaoCell
  deriving DecidableEq

/-- A transaction with what its block gives it. -/
structure DaoTx where
  hash : Hash32
  blockNumber : Int
  timestamp : Int
  chainTimeMs : Int
  blockDaoAr : Nat
  isCellbase : Bool := false
  inputs : List DaoInput
  outputs : List DaoCell
  deriving DecidableEq

/-- A withdraw request a transaction creates. -/
structure NewDaoOutput where
  outpoint : DaoOutPoint
  capacity : Int
  occupiedCapacity : Int
  depositBlock : Nat
  deriving DecidableEq

/-- The outputs of a transaction as the DAO lifecycle sees them. -/
structure DaoTxOutputs where
  requests : List (Option NewDaoOutput) := []
  withdrawToCandidates : List (Nat × Bytes) := []

/-- One output: a candidate to withdraw to, a withdraw request, or neither. -/
def DaoTxOutputs.add (txHash : Hash32) (s : DaoTxOutputs) (output : DaoCell × Nat) :
    Except String DaoTxOutputs := do
  let (cell, idx) := output
  ensure (idx < 2 ^ 15) "DAO output index exceeds i16 range"
  if !cell.isDao || cell.dataSize != 8 then
    return { requests := s.requests ++ [none]
             withdrawToCandidates := s.withdrawToCandidates ++ [(idx, cell.lockScriptHash)] }
  else
    match parseDepositBlockNumber cell.data with
    | none => return { s with requests := s.requests ++ [none] }
    | some depositBlock =>
      let occupiedCapacity ← cell.occupiedCapacity
      return { s with
        requests := s.requests ++
          [some ⟨⟨txHash, idx⟩, cell.capacity, occupiedCapacity, depositBlock⟩] }

def daoTxOutputs (tx : DaoTx) : Except String DaoTxOutputs :=
  tx.outputs.zipIdx.foldlM (DaoTxOutputs.add tx.hash) {}

/-- The output a withdrawal is paid to: the only one under the deposit's lock, or the only
candidate. -/
def inferWithdrawToOutputIndexFromOutputs (candidates : List (Nat × Bytes))
    (lockScriptHash : Bytes) : Option Nat :=
  match candidates.filterMap fun c => if c.2 = lockScriptHash then some c.1 else none with
  | [first] => some first
  | _ :: _ :: _ => none
  | [] =>
    match candidates with
    | [only] => some only.1
    | _ => none

/-! ## The batch -/

/-- The committed DAO rows. -/
@[ext] structure DaoRows where
  deposits : DaoDeposits := ∅
  byWithdrawTx : ExtTreeMap DaoOutPoint DaoOutPoint := ∅

/-- A consumed DAO cell: its deposit, and the status it was spent in. -/
structure DaoConsumedRow where
  deposit : DaoOutPoint
  capacity : Int
  depositBlock : Int
  status : Int
  lockScriptHash : Bytes
  deriving DecidableEq

structure LiveDaoBatch where
  consumed : ExtTreeMap DaoOutPoint DaoConsumedRow := ∅
  entries : DaoDeposits := ∅
  lifecycleInBatch : ExtTreeSet DaoOutPoint := ∅
  requestRows : List (DaoOutPoint × DaoOutPoint) := []
  openRequests : ExtTreeMap DaoOutPoint DaoOutPoint := ∅
  spentRequests : ExtTreeSet DaoOutPoint := ∅

def daoCacheEntryToRow (deposit : DaoOutPoint) (entry : DaoDepositCacheEntry) : DaoConsumedRow :=
  ⟨deposit, entry.capacity, entry.depositBlockNumber, entry.status, entry.lockScriptHash⟩

def buildDaoCacheEntry (deposit : ParsedDaoDeposit)
    (blockNumber depositAr depositTimestamp depositChainTimeMs : Int) :
    Except String DaoDepositCacheEntry := do
  ensure (0 ≤ depositTimestamp ∧ depositTimestamp ≤ depositChainTimeMs)
    "invalid DAO deposit chain time"
  return {
    capacity := deposit.capacity
    occupiedCapacity := deposit.occupiedCapacity
    depositBlockNumber := blockNumber
    depositTimestamp := depositTimestamp
    depositChainTimeMs := depositChainTimeMs
    lockScriptHash := deposit.lockScriptHash
    depositAr := depositAr
    status := 0 }

namespace LiveDaoBatch

variable (store : DaoRows) (batch : LiveDaoBatch)

/-- A deposit's current row: the batch's own, or the committed one. -/
def lookupDeposit (key : DaoOutPoint) : Option DaoDepositCacheEntry :=
  match batch.entries[key]? with
  | some entry => some entry
  | none => store.deposits[key]?

/-- The deposit a withdraw request belongs to. -/
def lookupRequest (key : DaoOutPoint) : Except String (Option DaoOutPoint) := do
  ensure (batch.spentRequests.contains key = false) "DAO withdraw request consumed twice in one batch"
  match batch.openRequests[key]? with
  | some deposit => return some deposit
  | none => return store.byWithdrawTx[key]?

/-- Phase 1: the deposit spent as an input becomes the withdraw request at the output of
the same index. -/
def applyWithdrawRequest (tx : DaoTx) (blockAr : Int) (inputIndex : Nat) (depositKey : DaoOutPoint)
    (entry : DaoDepositCacheEntry) (outputs : DaoTxOutputs) : Except String LiveDaoBatch := do
  ensure (entry.status = 0) "DAO deposit consumed while not an active deposit"
  let request ← required "DAO deposit has no withdraw request at its output"
    ((outputs.requests[inputIndex]?).bind id)
  ensure (request.capacity = entry.capacity ∧ request.depositBlock < 2 ^ 63 ∧
      (request.depositBlock : Int) = entry.depositBlockNumber)
    "withdraw request is not the request of the deposit at its input"
  ensure (batch.openRequests.contains request.outpoint = false)
    "DAO withdraw-request output claimed twice"
  return { batch with
    consumed := batch.consumed.insert depositKey (daoCacheEntryToRow depositKey entry)
    entries := batch.entries.insert depositKey { entry with
      status := 1
      withdrawRequestBlock := some tx.blockNumber
      withdrawRequestTx := some request.outpoint.txHash
      withdrawRequestOutputIndex := some request.outpoint.index
      withdrawRequestAr := some blockAr
      withdrawRequestOccupiedCapacity := some request.occupiedCapacity }
    lifecycleInBatch := batch.lifecycleInBatch.insert depositKey
    requestRows := batch.requestRows ++ [(request.outpoint, depositKey)]
    openRequests := batch.openRequests.insert request.outpoint depositKey }

/-- Phase 2: a withdraw request is consumed. -/
def applyWithdrawCompletion (tx : DaoTx) (requestKey depositKey : DaoOutPoint)
    (outputs : DaoTxOutputs) : Except String LiveDaoBatch := do
  let entry ← required "withdraw request points at a missing DAO deposit"
    (batch.lookupDeposit store depositKey)
  ensure (entry.status = 1)
    "DAO withdraw request consumed while its deposit is not pending withdrawal"
  let requestBlock ←
    required "DAO withdraw request block missing or not before its completion"
      entry.withdrawRequestBlock
  ensure (requestBlock < tx.blockNumber)
    "DAO withdraw request block missing or not before its completion"
  ensure (entry.withdrawRequestTx = some requestKey.txHash ∧
      entry.withdrawRequestOutputIndex = some requestKey.index)
    "withdraw-request index disagrees with the deposit's recorded request"
  let compensation ← withContext "DAO withdrawal completion" (daoFrozenRequestCompensation entry)
  return { batch with
    consumed := batch.consumed.insert requestKey (daoCacheEntryToRow depositKey entry)
    entries := batch.entries.insert depositKey { entry with
      status := 2
      withdrawBlock := some tx.blockNumber
      withdrawTx := some tx.hash
      withdrawToOutputIndex := inferWithdrawToOutputIndexFromOutputs outputs.withdrawToCandidates
        entry.lockScriptHash
      compensation := some compensation }
    openRequests := batch.openRequests.erase requestKey
    spentRequests := batch.spentRequests.insert requestKey }

/-- One input. -/
def applyInput (tx : DaoTx) (blockAr : Int) (outputs : DaoTxOutputs) (batch : LiveDaoBatch)
    (input : DaoInput × Nat) : Except String LiveDaoBatch := do
  ensure (input.1.outpoint.index < 2 ^ 15) "DAO input index exceeds i16 range"
  if !input.1.cell.isDao then return batch
  else
    let key := input.1.outpoint
    let asRequest ← batch.lookupRequest store key
    match batch.lookupDeposit store key, asRequest with
    | some entry, none => applyWithdrawRequest batch tx blockAr input.2 key entry outputs
    | none, some depositKey => applyWithdrawCompletion store batch tx key depositKey outputs
    | none, none => .error "DAO-typed input resolves to no lifecycle entry"
    | some _, some _ => .error "DAO input recorded both as a deposit and as a withdraw request"

/-- One new deposit. -/
def applyDeposit (tx : DaoTx) (blockAr : Int) (batch : LiveDaoBatch) (deposit : ParsedDaoDeposit) :
    Except String LiveDaoBatch := do
  ensure (deposit.outputIndex < 2 ^ 15) "DAO deposit output_index exceeds i16 range"
  let key : DaoOutPoint := ⟨tx.hash, deposit.outputIndex⟩
  ensure (batch.lookupDeposit store key = none) "duplicate DAO deposit outpoint"
  let entry ← buildDaoCacheEntry deposit tx.blockNumber blockAr tx.timestamp tx.chainTimeMs
  return { batch with
    entries := batch.entries.insert key entry
    lifecycleInBatch := batch.lifecycleInBatch.insert key }

/-- One transaction: its inputs, then the deposits it creates. -/
def applyTx (batch : LiveDaoBatch) (tx : DaoTx) : Except String LiveDaoBatch := do
  ensure (tx.blockDaoAr < 2 ^ 63) "DAO AR exceeds i64"
  let blockAr : Int := tx.blockDaoAr
  let outputs ← daoTxOutputs tx
  let batch ← tx.inputs.zipIdx.foldlM (applyInput store tx blockAr outputs) batch
  let deposits ← parseDepositsFromCells tx.outputs
  deposits.foldlM (applyDeposit store tx blockAr) batch

/-- The transitions of a batch, cellbases apart. -/
def resolve (txs : List DaoTx) : Except String LiveDaoBatch :=
  (txs.filter (!·.isCellbase)).foldlM (applyTx store) {}

/-- The rows after the batch is staged and committed. -/
def commit : DaoRows where
  deposits := store.deposits ∪ batch.entries
  byWithdrawTx := batch.requestRows.foldl (fun rows r => rows.insert r.1 r.2) store.byWithdrawTx

/-- The rows of the deposits the batch created or moved to phase 1. -/
def stagedEntries : DaoDeposits :=
  batch.entries.filter fun key _ => batch.lifecycleInBatch.contains key

/-- A touched deposit that the batch neither created nor moved to phase 1 is completed. -/
def stagedCompletion (staged : ExtTreeMap DaoOutPoint (Int × Hash32))
    (row : DaoOutPoint × DaoDepositCacheEntry) :
    Except String (ExtTreeMap DaoOutPoint (Int × Hash32)) :=
  match row.2.withdrawBlock, row.2.withdrawTx with
  | some block, some tx =>
    if row.2.status = 2 then return staged.insert row.1 (block, tx)
    else .error "DAO deposit touched by the batch without being created, requested or completed by it"
  | _, _ =>
    .error "DAO deposit touched by the batch without being created, requested or completed by it"

/-- The completions of requests that an earlier batch committed. -/
def stagedCompletions : Except String (ExtTreeMap DaoOutPoint (Int × Hash32)) :=
  ((batch.entries.filter fun key _ => !batch.lifecycleInBatch.contains key).toList).foldlM
    stagedCompletion ∅

end LiveDaoBatch

/-- One batch, resolved and committed. -/
def liveDaoBatch (store : DaoRows) (txs : List DaoTx) : Except String DaoRows := do
  let batch ← LiveDaoBatch.resolve store txs
  return batch.commit store

/-- The live pass over the batches of a chain. -/
def liveDaoRun (batches : List (List DaoTx)) : Except String DaoRows :=
  batches.foldlM liveDaoBatch {}

end Ckbadger.Writer
