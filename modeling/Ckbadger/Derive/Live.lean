/-
Ckbadger.Derive.Live — live maintenance of derived aggregates.

One call per live batch: the batch's signed deltas are added to the rows of every
aggregate whose derivation is running or complete, with the value each touched
key held before each block recorded in the undo log, all staged into the batch's
own write. A failure marks the aggregate before the batch is given up.
-/
import Ckbadger.Derive.Aggregate
import Ckbadger.Sync.UndoSeq

namespace Ckbadger.Derive

open Lib Store Sync

/-- The rows and undo pre-images one aggregate's live deltas produce. -/
structure StagedAggregate where
  /-- Block, key and value at the end of the previous block, in block order. -/
  undo : List (Int × Bytes × Option Bytes) := []
  /-- Final value per touched key; nothing for a row that is removed. -/
  rows : Std.ExtTreeMap Bytes (Option (List Int)) := ∅

/-- The deltas of a batch in the order they are applied: by block, then by key. -/
def BlockDeltas.entries (deltas : BlockDeltas) : List (Int × Bytes × List Int) :=
  deltas.toList.flatMap fun keyed => keyed.2.toList.map fun c => (keyed.1, c.1, c.2)

/-- The value the batch sees at a key: its own staged row, or the store's. -/
def StagedAggregate.current (st : StagedAggregate) (s : DomainStore) (cf : Cf) (key : Bytes) :
    Except String (Option (List Int)) :=
  match st.rows[key]? with
  | some value => .ok value
  | none => getDerivedValue s cf key

/-- Applies one block's delta of one key. A block has one delta per key, so this is the block's
first touch of the key. -/
def stageDelta (s : DomainStore) (id : DerivedAggregateId) (st : StagedAggregate)
    (d : Int × Bytes × List Int) : Except String StagedAggregate := do
  let (block, key, delta) := d
  let current ← st.current s id.cf key
  match sumWith current delta with
  | .error e =>
    .error (id.name ++ " live delta at block " ++ toString block ++ ", key=0x" ++
      bytesToHex key ++ ": " ++ e)
  | .ok next =>
    return { undo := st.undo ++ [(block, key, current.map encodeDerivedValue)]
             rows := st.rows.insert key next }

section Stage

variable {Γ : Type}

/-- The block range of a batch, as its messages print it. -/
def LiveDeriveCtx.range (ctx : LiveDeriveCtx Γ) : String :=
  toString (ctx.blocks.head?.getD (-1)) ++ "..=" ++ toString (ctx.blocks.getLast?.getD (-1))

/-- Checks one touched row of an exact aggregate. -/
def checkStaged (aggregate : DerivedAggregate Γ) (ctx : LiveDeriveCtx Γ)
    (row : Bytes × Option (List Int)) : Except String Unit :=
  match row.2 with
  | none => .ok ()
  | some value =>
    withContext (aggregate.id.name ++ " row 0x" ++ bytesToHex row.1 ++ " after live batch " ++
      ctx.range) (aggregate.checkRow row.1 value)

def stageOne (s : DomainStore) (aggregate : DerivedAggregate Γ) (m : DeriveMeta)
    (ctx : LiveDeriveCtx Γ) : Except String StagedAggregate := do
  let deltas ← aggregate.liveDeltas ctx
  let st ← deltas.entries.foldlM (stageDelta s aggregate.id) {}
  if m.checksRows then st.rows.toList.forM (checkStaged aggregate ctx)
  return st

end Stage

section Into

variable [Codec UndoLogEntry]

/-- Records one pre-image under the `Derived` scope. -/
def recordDerived (cf : Cf) (acc : DomainBatch × UndoSeqMap) (u : Int × Bytes × Option Bytes) :
    Except String (DomainBatch × UndoSeqMap) :=
  let (block, key, previousValue) := u
  match nextUndoSeq acc.2 block .derived with
  | .error e =>
    .error ("undo seq local counter overflow: block_num=" ++ toString e.block ++
      ", scope=Derived, local_seq=" ++ toString e.localSeq)
  | .ok (seq, undoSeq) =>
    .ok (acc.1 ++ [UndoRow.op ⟨block, seq, .keyMutation .domain cf.name key previousValue⟩],
      undoSeq)

/-- Stages the pre-images, then the rows. -/
def stageInto (staged : StagedAggregate) (cf : Cf) (batch : DomainBatch) (undoSeq : UndoSeqMap) :
    Except String (DomainBatch × UndoSeqMap) := do
  let (batch, undoSeq) ← staged.undo.foldlM (recordDerived cf) (batch, undoSeq)
  let batch ← staged.rows.toList.foldlM (fun batch row => putDerivedValue batch cf row.1 row.2)
    batch
  return (batch, undoSeq)

variable {Γ : Type} [Codec DeriveMeta]

def failedMeta (previous : DeriveMeta) (error : String) (nowMs : Int) : DeriveMeta :=
  { previous with state := .failed error, finishedAtMs := some nowMs }

/-- Persists the failure: what a stopping indexer leaves behind. -/
def recordFailureBeforeStop (s : DomainStore) (name : String) (m : DeriveMeta) (error : String)
    (nowMs : Int) : DomainStore :=
  s.write (putDeriveMeta [] name (failedMeta m error nowMs))

/-- A batch that was given up: the store it leaves and the error that stops the indexer. -/
structure LiveFailure where
  store : DomainStore
  error : String

/-- Adds a batch's deltas to one aggregate, if live sync maintains it. -/
def applyLiveOne (s : DomainStore) (ctx : LiveDeriveCtx Γ) (nowMs : Int)
    (acc : DomainBatch × UndoSeqMap) (aggregate : DerivedAggregate Γ) :
    Except LiveFailure (DomainBatch × UndoSeqMap) :=
  let id := aggregate.id
  match getDeriveMeta s id.name with
  | .error e => .error ⟨s, e⟩
  | .ok none => .ok acc
  | .ok (some m) =>
    if !m.isMaintained id then .ok acc
    else
      match stageOne s aggregate m ctx with
      | .ok staged =>
        match stageInto staged id.cf acc.1 acc.2 with
        | .ok acc => .ok acc
        | .error e => .error ⟨s, e⟩
      | .error e =>
        let e := "derived aggregate " ++ id.name ++ " live maintenance for blocks " ++
          ctx.range ++ ": " ++ e
        .error ⟨recordFailureBeforeStop s id.name m e nowMs, e⟩

/-- Adds a batch's deltas to every aggregate live sync maintains. -/
def applyLiveBatch (s : DomainStore) (aggregates : List (DerivedAggregate Γ))
    (ctx : LiveDeriveCtx Γ) (batch : DomainBatch) (undoSeq : UndoSeqMap) (nowMs : Int) :
    Except LiveFailure (DomainBatch × UndoSeqMap) :=
  aggregates.foldlM (applyLiveOne s ctx nowMs) (batch, undoSeq)

end Into

end Ckbadger.Derive
