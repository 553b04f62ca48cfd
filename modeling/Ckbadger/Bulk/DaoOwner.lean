/-
Ckbadger.Bulk.DaoOwner — the bulk reducer of the DAO.

The reducer keeps every deposit in memory, with a map from open withdraw requests to
their deposits. A transaction's inputs move deposits on, then its outputs create new ones;
both add to the changes of the transaction's stats day. At the end every deposit gives its
row, and the row of its request when it has one.
-/
import Ckbadger.Bulk.Facts
import Ckbadger.Common.StatsBucket
import Ckbadger.Sync.DaoDeltas
import Ckbadger.Writer.Dao

namespace Ckbadger.Bulk

open Lib Common Ckbadger.Parser Store Sync Writer Std

/-! ## Cells -/

/-- The state of a DAO cell in the bulk facts. -/
def parseBulkDaoCellState (cell : DaoCell) : Except String DaoCellState := do
  let state ← required "invalid DAO cell data in bulk facts" (parseDaoState cell.data)
  match state with
  | .deposit => return .deposit
  | .withdrawRequest =>
    let depositBlockNumber ← required "missing DAO deposit block number in withdraw request"
      (parseDepositBlockNumber cell.data)
    ensure (depositBlockNumber < 2 ^ 63) "DAO deposit block number exceeds i64 range in bulk facts"
    return .withdrawRequest depositBlockNumber

structure DaoCellView where
  outpoint : DaoOutPoint
  lockHash : Bytes
  capacity : Int
  occupiedCapacity : Int
  state : DaoCellState
  deriving DecidableEq

/-- The view of a DAO cell; other cells have none. -/
def DaoCellView.fromParts (outpoint : DaoOutPoint) (cell : DaoCell) :
    Except String (Option DaoCellView) :=
  if cell.isDao then do
    let occupiedCapacity ← cell.occupiedCapacity
    let state ← parseBulkDaoCellState cell
    return some ⟨outpoint, cell.lockScriptHash, cell.capacity, occupiedCapacity, state⟩
  else return none

/-! ## The reducer -/

structure DaoOwner where
  deposits : DaoDeposits := ∅
  requestOutpoints : ExtTreeMap DaoOutPoint DaoOutPoint := ∅
  daily : DaoDailyDeltas := {}
  currentBlockProtocolDelta : Int := 0
  activeDepositCountsByLock : ExtTreeMap Bytes Int := ∅
  everDeposited : ExtTreeSet Bytes := ∅

def bumpDailyI128 (target : ExtTreeMap Int Int) (date delta : Int) :
    Except String (ExtTreeMap Int Int) :=
  if delta = 0 then .ok target
  else do
    let next ← checked 128 (tally target date + delta) "dao daily delta overflow"
    return target.insert date next

def bumpDailyI64 (target : ExtTreeMap Int Int) (date delta : Int) :
    Except String (ExtTreeMap Int Int) :=
  if delta = 0 then .ok target
  else do
    let next ← checked 64 (tally target date + delta) "dao daily delta overflow"
    ensure (0 ≤ next) "dao daily delta underflow"
    return target.insert date next

namespace DaoOwner

variable (owner : DaoOwner)

/-- Phase 1: the deposit spent as an input becomes the withdraw request at the output of
the same index. -/
def applyWithdrawRequest (tx : DaoTx) (date : Int) (outputs : List (Option DaoCellView))
    (inputIndex : Nat) (origin : DaoOutPoint) (entry : DaoDepositCacheEntry) (input : DaoCellView) :
    Except String DaoOwner := do
  ensure (input.state = .deposit) "DAO deposit consumed with non-deposit state"
  let request ← required "DAO deposit spent as input has no DAO output at its index in bulk reducer"
    ((outputs[inputIndex]?).bind id)
  ensure (request.state = .withdrawRequest entry.depositBlockNumber ∧
      request.capacity = entry.capacity)
    "DAO output is not the withdraw request of the deposit at its input in bulk reducer"
  ensure (tx.blockDaoAr < 2 ^ 63) "DAO withdraw request AR exceeds i64 range in bulk reducer"
  ensure (request.outpoint.index < 2 ^ 15)
    "DAO withdraw request output index exceeds i16 range in bulk reducer"
  ensure (owner.requestOutpoints.contains request.outpoint = false)
    "duplicate DAO withdraw-request mapping"
  let active ← bumpDailyI128 owner.daily.active date (-entry.capacity)
  let (counts, unique) ← bumpActiveDepositorCount owner.activeDepositCountsByLock
    owner.daily.uniqueDepositors date entry.lockScriptHash (-1)
  return { owner with
    deposits := owner.deposits.insert origin { entry with
      status := 1
      withdrawRequestBlock := some tx.blockNumber
      withdrawRequestTx := some tx.hash
      withdrawRequestAr := some tx.blockDaoAr
      withdrawRequestOutputIndex := some request.outpoint.index
      withdrawRequestOccupiedCapacity := some request.occupiedCapacity }
    requestOutpoints := owner.requestOutpoints.insert request.outpoint origin
    daily := { owner.daily with active := active, uniqueDepositors := unique }
    activeDepositCountsByLock := counts }

/-- Phase 2: a withdraw request is consumed. -/
def applyWithdrawCompletion (tx : DaoTx) (date : Int) (candidates : List (Nat × Bytes))
    (origin : DaoOutPoint) (entry : DaoDepositCacheEntry) (input : DaoCellView) :
    Except String DaoOwner := do
  ensure (input.state ≠ .deposit) "DAO withdraw request consumed with non-request state"
  let _requestBlock ← required "withdraw_request_block missing for DAO status=1 entry"
    entry.withdrawRequestBlock
  let _requestTx ← required "withdraw_request_tx missing for DAO status=1 entry"
    entry.withdrawRequestTx
  let requestOutputIndex ←
    required "DAO withdraw request output index missing from persisted phase-1 entry"
      entry.withdrawRequestOutputIndex
  let depositAr ← rateOf "negative DAO deposit AR in bulk reducer" entry.depositAr
  let requestAr ← required "withdraw_request_ar missing for DAO status=1 entry"
    entry.withdrawRequestAr
  let requestAr ← rateOf "negative DAO withdraw request AR in bulk reducer" requestAr
  let requestOccupiedCapacity ←
    required "withdraw_request_occupied_capacity missing for DAO status=1 entry"
      entry.withdrawRequestOccupiedCapacity
  let compensation ←
    calculateDaoCompensationFromAr entry.capacity requestOccupiedCapacity depositAr requestAr
  let withdrawals ← bumpDailyI64 owner.daily.withdrawals date 1
  let protocol ← bumpDailyI128 owner.daily.protocol date (-entry.capacity)
  let blockDelta ← checked 128 (owner.currentBlockProtocolDelta - entry.capacity)
    "DAO block protocol capacity delta underflow"
  return { owner with
    deposits := owner.deposits.insert origin { entry with
      status := 2
      withdrawBlock := some tx.blockNumber
      withdrawTx := some tx.hash
      withdrawRequestOutputIndex := some requestOutputIndex
      withdrawToOutputIndex := inferWithdrawToOutputIndexFromOutputs candidates entry.lockScriptHash
      compensation := some compensation }
    requestOutpoints := owner.requestOutpoints.erase input.outpoint
    daily := { owner.daily with withdrawals := withdrawals, protocol := protocol }
    currentBlockProtocolDelta := blockDelta }

/-- The deposit an input belongs to: the cell itself, or the one its request was made for. -/
def originOf (outpoint : DaoOutPoint) : Except String DaoOutPoint :=
  match owner.deposits[outpoint]? with
  | some entry => do
    ensure (entry.status ≠ 1 ∧ entry.status ≠ 2)
      "DAO status/input mismatch: consumed original deposit outpoint directly"
    return outpoint
  | none =>
    required "DAO input missing tracked deposit/request mapping" owner.requestOutpoints[outpoint]?

/-- One input. -/
def applyInput (tx : DaoTx) (date : Int) (outputs : List (Option DaoCellView))
    (candidates : List (Nat × Bytes)) (owner : DaoOwner) (input : DaoInput × Nat) :
    Except String DaoOwner := do
  let view ← DaoCellView.fromParts input.1.outpoint input.1.cell
  match view with
  | none => return owner
  | some view =>
    let origin ← owner.originOf view.outpoint
    let entry ← required "DAO tracked deposit missing while consuming input" owner.deposits[origin]?
    if entry.status = 0 then
      owner.applyWithdrawRequest tx date outputs input.2 origin entry view
    else if entry.status = 1 then
      owner.applyWithdrawCompletion tx date candidates origin entry view
    else .error "unsupported DAO status while consuming input in bulk reducer"

/-- One new deposit. -/
def applyDeposit (tx : DaoTx) (date : Int) (owner : DaoOwner) (output : DaoCellView) :
    Except String DaoOwner := do
  ensure (tx.blockDaoAr < 2 ^ 63) "DAO deposit AR exceeds i64 range in bulk reducer"
  ensure (owner.deposits.contains output.outpoint = false)
    "duplicate DAO deposit outpoint in bulk reducer"
  let active ← bumpDailyI128 owner.daily.active date output.capacity
  let protocol ← bumpDailyI128 owner.daily.protocol date output.capacity
  let blockDelta ← checked 128 (owner.currentBlockProtocolDelta + output.capacity)
    "DAO block protocol capacity delta overflow"
  let grossDeposit ← bumpDailyI128 owner.daily.grossDeposit date output.capacity
  let newDeposits ← bumpDailyI64 owner.daily.newDeposits date 1
  let (counts, unique) ← bumpActiveDepositorCount owner.activeDepositCountsByLock
    owner.daily.uniqueDepositors date output.lockHash 1
  return { owner with
    deposits := owner.deposits.insert output.outpoint {
      capacity := output.capacity
      occupiedCapacity := output.occupiedCapacity
      depositBlockNumber := tx.blockNumber
      depositTimestamp := tx.timestamp
      depositChainTimeMs := tx.chainTimeMs
      lockScriptHash := output.lockHash
      depositAr := tx.blockDaoAr
      status := 0 }
    daily := {
      active := active
      protocol := protocol
      grossDeposit := grossDeposit
      newDeposits := newDeposits
      withdrawals := owner.daily.withdrawals
      uniqueDepositors := unique
      cumulativeDepositors :=
        if owner.everDeposited.contains output.lockHash then owner.daily.cumulativeDepositors
        else addDaily owner.daily.cumulativeDepositors date 1
      depositingAddresses := addDepositingAddress owner.daily.depositingAddresses date
        output.lockHash }
    currentBlockProtocolDelta := blockDelta
    activeDepositCountsByLock := counts
    everDeposited := owner.everDeposited.insert output.lockHash }

/-- The output a withdrawal may be paid to. -/
def withdrawToCandidate (output : DaoCell × Nat) : Except String (Nat × Bytes) := do
  ensure (output.2 < 2 ^ 15) "withdraw-to output index exceeds i16 range in bulk reducer"
  return (output.2, output.1.lockScriptHash)

/-- One transaction: its inputs, then the deposits it creates. -/
def applyTx (owner : DaoOwner) (tx : DaoTx) : Except String DaoOwner := do
  let date ← statsDay tx.chainTimeMs
  let outputs ← tx.outputs.zipIdx.mapM fun output =>
    DaoCellView.fromParts ⟨tx.hash, output.2⟩ output.1
  let candidates ← (tx.outputs.zipIdx.filter (!·.1.isDao)).mapM withdrawToCandidate
  let owner ← tx.inputs.zipIdx.foldlM (applyInput tx date outputs candidates) owner
  ((outputs.filterMap id).filter (·.state = .deposit)).foldlM (applyDeposit tx date) owner

/-- The rows of one deposit. -/
def emitDeposit (rows : DaoRows) (row : DaoOutPoint × DaoDepositCacheEntry) :
    Except String DaoRows := do
  ensure (row.1.index < 2 ^ 15) "DAO outpoint index exceeds i16 during materialization"
  let deposits := rows.deposits.insert row.1 row.2
  if 1 ≤ row.2.status then
    let requestTx ← required "DAO status missing withdraw_request_tx during materialization"
      row.2.withdrawRequestTx
    let requestOutputIndex ←
      required "DAO status missing withdraw_request_output_index during materialization"
        row.2.withdrawRequestOutputIndex
    return { deposits := deposits
             byWithdrawTx := rows.byWithdrawTx.insert ⟨requestTx, requestOutputIndex⟩ row.1 }
  else return { rows with deposits := deposits }

/-- The rows the reducer seals. -/
def emitSnapshotRows : Except String DaoRows := owner.deposits.toList.foldlM emitDeposit {}

end DaoOwner

/-- The bulk pass over a chain. -/
def bulkDaoRun (txs : List DaoTx) : Except String DaoRows := do
  let owner ← txs.foldlM DaoOwner.applyTx {}
  owner.emitSnapshotRows

end Ckbadger.Bulk
