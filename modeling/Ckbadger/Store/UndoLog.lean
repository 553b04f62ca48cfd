/-
Ckbadger.Store.UndoLog — the unified reorg undo log of the domain store.

The log is the column family `reorg_undo_log_by_block`. Each row holds, under
its `(block, seq)` key, either the pre-image of a key a block wrote or the
context of a transaction of that block. A rollback replays the entries above
its target newest first and deletes each one in the batch that restores it;
it commits a batch every 50,000 entries, so it can be cut between batches.

`replayUndo` is the body of that loop. It returns the batches it hands to the
store rather than only the final store, because a crash keeps a prefix of them.
-/
import Ckbadger.Store.DomainStore
import Ckbadger.Store.Keys
import Ckbadger.Lib.Codec

namespace Ckbadger.Store

open Lib

/-! ## Entries -/

/-- Which store a recorded mutation belongs to. -/
inductive UndoLogStoreTarget where
  | domain | appendOnly
  deriving DecidableEq

structure UndoInputOutPoint where
  txHash : Bytes
  outputIndex : Int
  deriving DecidableEq

/-- What a rollback needs to derive a transaction's cell changes. -/
structure UndoTxContext where
  txHash : Bytes
  outputsCount : Int
  inputs : List UndoInputOutPoint
  deriving DecidableEq

inductive UndoLogEntry where
  /-- The previous value before the forward write; `none` means the key did not exist. -/
  | keyMutation (targetStore : UndoLogStoreTarget) (cfName : String) (key : Bytes)
      (previousValue : Option Bytes)
  | txContext (ctx : UndoTxContext)
  deriving DecidableEq

/-! ## Errors -/

/-- The scan of the log during which a malformed row was met. -/
inductive UndoScan where
  | rollback | prune | dropDerived
  deriving DecidableEq

inductive UndoError where
  | invalidTarget (rollbackTo : Int)
  | keyLength (scan : UndoScan) (got : Nat)
  | undecodable (scan : UndoScan) (key : Bytes) (reason : String)
  | derivedTxContext (key : Bytes)
  | store (error : StoreError)
  deriving DecidableEq

/-- The text each failure carries. -/
def UndoError.message : UndoError → String
  | .invalidTarget r =>
    "invalid undo rollback target: rollback_to=" ++ toString r ++ " (expected >= -1)"
  | .keyLength scan got =>
    let during := match scan with
      | .rollback => " during rollback"
      | .prune => " while pruning"
      | .dropDerived => ""
    "invalid reorg_undo_log_by_block key length" ++ during ++ ": expected=" ++
      toString reorgUndoLogKeySize ++ ", got=" ++ toString got
  | .undecodable .dropDerived key reason =>
    "failed to decode derived undo entry: key=0x" ++ bytesToHex key ++ ", error=" ++ reason
  | .undecodable _ key reason =>
    "failed to decode undo log entry during rollback: key=0x" ++ bytesToHex key ++
      ", error=" ++ reason
  | .derivedTxContext key =>
    "a Derived-scope undo entry is a tx context: key=0x" ++ bytesToHex key
  | .store error => error.message

/-! ## Rollback -/

variable [Codec UndoLogEntry]

/-- The entries of a scan that lie above the target, in key order. -/
def collectPending (rollbackTo : Int) :
    List (Bytes × Bytes) → Except UndoError (List (Bytes × UndoLogEntry))
  | [] => .ok []
  | (key, value) :: rest =>
    if key.length ≠ reorgUndoLogKeySize then
      .error (.keyLength .rollback key.length)
    else if (decodeReorgUndoLogKey key).1 ≤ rollbackTo then
      collectPending rollbackTo rest
    else
      match Codec.deserialize (α := UndoLogEntry) value with
      | .error reason => .error (.undecodable .rollback key reason)
      | .ok entry => do
          let pending ← collectPending rollbackTo rest
          return (key, entry) :: pending

/-- The entries a rollback to `rollbackTo` replays, oldest first. -/
def pendingUndo (s : DomainStore) (rollbackTo : Int) :
    Except UndoError (List (Bytes × UndoLogEntry)) :=
  collectPending rollbackTo
    ((s.table .reorgUndoLogByBlock).scanFrom (encodeBlockNum (rollbackTo + 1)))

/-- `UNDO_ROLLBACK_FLUSH_EVERY`. -/
def undoRollbackFlushEvery : Nat := 50000

structure UndoRollbackResult where
  undoEntriesApplied : Nat := 0
  domainOpsApplied : Nat := 0
  appendOpsSkipped : Nat := 0
  txContexts : List UndoTxContext := []
  deriving DecidableEq

/-- Stages the restore of one entry. An append-only mutation is skipped, since that store is
immutable; a transaction context is handed on to the caller. -/
def stageRestore (batch : DomainBatch) (result : UndoRollbackResult) :
    UndoLogEntry → Except StoreError (DomainBatch × UndoRollbackResult)
  | .keyMutation .domain cfName key previousValue => do
      let batch ← applyBatchOpByCfName batch cfName key previousValue
      return (batch, { result with domainOpsApplied := result.domainOpsApplied + 1 })
  | .keyMutation .appendOnly _ _ _ =>
    .ok (batch, { result with appendOpsSkipped := result.appendOpsSkipped + 1 })
  | .txContext ctx => .ok (batch, { result with txContexts := result.txContexts ++ [ctx] })

/-- What a rollback does to the store: the batches it commits, oldest first, and how it ends. -/
structure RollbackRun where
  flushes : List DomainBatch
  outcome : Except UndoError UndoRollbackResult

/-- `flush_undo_batches`: commits the batch unless it is empty. -/
def flushUndoBatches (batch : DomainBatch) : List DomainBatch :=
  if batch.isEmpty then [] else [batch]

/-- The restore loop over the entries still to replay, newest first. -/
def replayUndo : List (Bytes × UndoLogEntry) → DomainBatch → UndoRollbackResult → RollbackRun
  | [], batch, result => ⟨flushUndoBatches batch, .ok result⟩
  | (undoKey, entry) :: rest, batch, result =>
    match stageRestore batch result entry with
    | .error e => ⟨[], .error (.store e)⟩
    | .ok (batch, result) =>
      let batch := batch ++ [.delete .reorgUndoLogByBlock undoKey]
      let result :=
        { result with undoEntriesApplied := result.undoEntriesApplied + 1 }
      if result.undoEntriesApplied % undoRollbackFlushEvery = 0 then
        let run := replayUndo rest [] result
        ⟨flushUndoBatches batch ++ run.flushes, run.outcome⟩
      else
        replayUndo rest batch result

/-- The batches and the outcome of `rollback_via_undo_log`. -/
def rollbackRun (s : DomainStore) (rollbackTo : Int) : RollbackRun :=
  if rollbackTo < -1 then
    ⟨[], .error (.invalidTarget rollbackTo)⟩
  else
    match pendingUndo s rollbackTo with
    | .error e => ⟨[], .error e⟩
    | .ok pending =>
      if pending.isEmpty then ⟨[], .ok {}⟩ else replayUndo pending.reverse [] {}

/-- Rolls the store back: the store after every committed batch, and the outcome. -/
def rollbackViaUndoLog (s : DomainStore) (rollbackTo : Int) :
    DomainStore × Except UndoError UndoRollbackResult :=
  let run := rollbackRun s rollbackTo
  (run.flushes.foldl OrderedStore.write s, run.outcome)

/-! ## Pruning -/

omit [Codec UndoLogEntry] in
/-- The keys a prune deletes from a scan of the log, up to the first block past `toBlock`. -/
def pruneKeys (toBlock : Int) : List (Bytes × Bytes) → Except UndoError (List Bytes)
  | [] => .ok []
  | (key, _) :: rest =>
    if key.length ≠ reorgUndoLogKeySize then
      .error (.keyLength .prune key.length)
    else
      let (block, seq) := decodeReorgUndoLogKey key
      if block > toBlock then
        .ok []
      else do
        let keys ← pruneKeys toBlock rest
        -- other scopes have their own lifetimes and leave the log by replay only
        if UndoSeqScope.entityStats.owns seq || UndoSeqScope.derived.owns seq then
          return key :: keys
        else
          return keys

/-- Stages the deletion of the `EntityStats` and `Derived` entries of `(fromBlock, toBlock]`. -/
def pruneEntityStatsUndoBelow (s : DomainStore) (batch : DomainBatch) (fromBlock toBlock : Int) :
    Except UndoError (DomainBatch × Nat) :=
  if toBlock ≤ fromBlock then
    .ok (batch, 0)
  else do
    let start := encodeReorgUndoLogKey (fromBlock + 1) 0
    let keys ← pruneKeys toBlock ((s.table .reorgUndoLogByBlock).scanFrom start)
    return (batch ++ keys.map (.delete .reorgUndoLogByBlock), keys.length)

/-- An entry that restores a row of one of the column families. -/
def restoresIn (cfNames : List String) : UndoLogEntry → Bool
  | .keyMutation _ cfName _ _ => cfNames.contains cfName
  | .txContext _ => false

/-- The `Derived` keys above `rollbackTo` whose pre-image belongs to one of `cfNames`. -/
def derivedKeysAbove (cfNames : List String) (rollbackTo : Int) :
    List (Bytes × Bytes) → Except UndoError (List Bytes)
  | [] => .ok []
  | (key, value) :: rest =>
    if key.length ≠ reorgUndoLogKeySize then
      .error (.keyLength .dropDerived key.length)
    else
      let (block, seq) := decodeReorgUndoLogKey key
      if block ≤ rollbackTo || !UndoSeqScope.derived.owns seq then
        derivedKeysAbove cfNames rollbackTo rest
      else
        match Codec.deserialize (α := UndoLogEntry) value with
        | .error reason => .error (.undecodable .dropDerived key reason)
        | .ok (.txContext _) => .error (.derivedTxContext key)
        | .ok (.keyMutation _ cfName _ _) => do
            let keys ← derivedKeysAbove cfNames rollbackTo rest
            return if cfNames.contains cfName then key :: keys else keys

/-- Stages the deletion of every `Derived` entry above `rollbackTo` that would restore a row of
one of `cfNames`. -/
def stageDeleteDerivedUndoAbove (s : DomainStore) (batch : DomainBatch) (cfNames : List String)
    (rollbackTo : Int) : Except UndoError (DomainBatch × Nat) :=
  if cfNames.isEmpty then
    .ok (batch, 0)
  else do
    let start := encodeBlockNum (rollbackTo + 1)
    let keys ← derivedKeysAbove cfNames rollbackTo ((s.table .reorgUndoLogByBlock).scanFrom start)
    return (batch ++ keys.map (.delete .reorgUndoLogByBlock), keys.length)

end Ckbadger.Store
