/-
Ckbadger.Derive.Aggregate — derived aggregates as signed sums over source rows,
and what a rollback does to them before it replays the undo log.

An error is modelled by its full rendering, contexts included: that text is what
a failed derivation stores.
-/
import Ckbadger.Store.BlockHeaders
import Ckbadger.Store.DeriveMeta
import Ckbadger.Store.UndoLog

namespace Ckbadger.Derive

open Lib Store

/-- Derived key to signed contribution, one map per chunk or per block. -/
abbrev DeltaMap := Std.ExtTreeMap Bytes (List Int)

/-- Live contributions by block. -/
abbrev BlockDeltas := Std.ExtTreeMap Int DeltaMap

/-- One component: a checked addition of two `i128`. -/
def addComponent (component change : Int) : Except String Int :=
  if FitsSigned 16 (component + change) then .ok (component + change)
  else .error ("derived value overflow: " ++ toString component ++ " + " ++ toString change)

/-- `value + delta`, component by component, checked, with equal arity. -/
def addComponents (value delta : List Int) : Except String (List Int) :=
  if value.length ≠ delta.length then
    .error ("derived value arity " ++ toString value.length ++ " differs from delta arity " ++
      toString delta.length)
  else (value.zip delta).mapM fun c => addComponent c.1 c.2

/-- Adds a contribution to a key's pending one. -/
def addDelta (map : DeltaMap) (key : Bytes) (delta : List Int) : Except String DeltaMap :=
  match map[key]? with
  | some existing =>
    match addComponents existing delta with
    | .ok value => .ok (map.insert key value)
    | .error e => .error ("derived delta for key=0x" ++ bytesToHex key ++ ": " ++ e)
  | none => .ok (map.insert key delta)

/-- `current + delta`, or nothing when the sum is all zeros. -/
def sumWith (current : Option (List Int)) (delta : List Int) : Except String (Option (List Int)) := do
  let value ← addComponents (current.getD (List.replicate delta.length 0)) delta
  return if value.all (· == 0) then none else some value

/-- How much one chunk may do. `elapsed` is the clock: whether the time allowed is over once the
given number of rows is counted. -/
structure ChunkBudget where
  maxRows : Nat
  maxKeys : Option Nat := none
  elapsed : Nat → Bool
  rows : Nat := 0

/-- Counts one source row, with `keys` output keys pending; `true` once the chunk must stop. -/
def ChunkBudget.tick (b : ChunkBudget) (keys : Nat) : Bool × ChunkBudget :=
  let rows := b.rows + 1
  (b.maxRows ≤ rows || b.maxKeys.any (· ≤ keys) || (rows % 64 == 0 && b.elapsed rows),
    { b with rows })

/-- The first source key strictly after `cursor`. -/
def resumeKey : Option Bytes → Bytes
  | some last => last ++ [0]
  | none => []

/-! ## Aggregates -/

/-- What a live batch changed: the store it builds on, its blocks in ascending order, and the
changes the live writers report. -/
structure LiveDeriveCtx (Γ : Type) where
  store : DomainStore
  blocks : List Int
  changes : Γ

/-- What a chunk returns: the last key it folded (none when the source is exhausted), its budget
and the contributions it folded. -/
structure ChunkResult where
  next : Option Bytes
  budget : ChunkBudget
  out : DeltaMap

/-- One derived aggregate. -/
structure DerivedAggregate (Γ : Type) where
  id : DerivedAggregateId
  rebuildChunk : DomainStore → Option Bytes → ChunkBudget → Except String ChunkResult
  liveDeltas : LiveDeriveCtx Γ → Except String BlockDeltas
  /-- The invariant every row satisfies once the derivation is complete. -/
  checkRow : Bytes → List Int → Except String Unit

/-- What a source row means to a rebuild: contributions to fold, or the end of the source. -/
inductive RowFold where
  | contributes (contributions : List (Bytes × List Int))
  | exhausted
  deriving DecidableEq

/-- The loop every `rebuild_chunk` runs over the rows it iterates. -/
def foldSource (row : Bytes → Bytes → Except String RowFold) :
    List (Bytes × Bytes) → ChunkBudget → DeltaMap → Except String ChunkResult
  | [], budget, out => .ok ⟨none, budget, out⟩
  | (key, value) :: rest, budget, out => do
      match ← row key value with
      | .exhausted => return ⟨none, budget, out⟩
      | .contributes contributions =>
        let out ← contributions.foldlM (fun out c => addDelta out c.1 c.2) out
        let (stop, budget) := budget.tick out.size
        if stop then return ⟨some key, budget, out⟩
        else foldSource row rest budget out

/-- A chunk over the rows of `cf` after the cursor. -/
def rebuildOver (cf : Cf) (row : DomainStore → Bytes → Bytes → Except String RowFold)
    (snapshot : DomainStore) (cursor : Option Bytes) (budget : ChunkBudget) :
    Except String ChunkResult :=
  foldSource (row snapshot) ((snapshot.table cf).scanFrom (resumeKey cursor)) budget ∅

/-! ## Reset and rollback -/

section Reset

variable {Γ : Type} [Codec DeriveMeta]

/-- Resets one aggregate: no rows, and a state that keeps the run counter. -/
def stageReset (batch : DomainBatch) (id : DerivedAggregateId) (previous : Option DeriveMeta) :
    Except String DomainBatch := do
  let batch ← clearDerivedCf batch id.cf
  return putDeriveMeta batch id.name (.notStarted id.version ((previous.map DeriveMeta.run).getD 0))

/-- Whether a rollback corrupts an aggregate in this state, and whether undo replay owns its
rollback. -/
def rollbackEffect (tip rollbackTo : Int) : Option DeriveState → Bool × Bool
  | some (.running ..) => (rollbackTo < tip, false)
  | some (.complete _ completedAtTip _) =>
    (rollbackTo < completedAtTip, rollbackTo ≥ completedAtTip)
  | some .notStarted | some (.failed _) | none => (false, false)

/-- What the loop over the aggregates has staged. -/
structure InvalidateState where
  batch : DomainBatch := []
  reset : List String := []
  notReplayed : List Cf := []

def invalidateOne (s : DomainStore) (tip rollbackTo : Int) (st : InvalidateState)
    (aggregate : DerivedAggregate Γ) : Except String InvalidateState := do
  let id := aggregate.id
  let m ← getDeriveMeta s id.name
  let current := m.filter fun m => m.version == id.version
  let (corrupted, replayOwns) := rollbackEffect tip rollbackTo (current.map DeriveMeta.state)
  let st ← if corrupted then do
      let batch ← stageReset st.batch id m
      pure { st with batch, reset := st.reset ++ [id.name] }
    else pure st
  return if replayOwns then st else { st with notReplayed := st.notReplayed ++ [id.cf] }

variable [Codec UndoLogEntry] [Codec CachedBlockHeader]

/-- Resets every derivation a rollback to `rollbackTo` would corrupt, and drops the `Derived`
entries above it that undo replay does not own, in one write. -/
def invalidateRegisteredForRollback (s : DomainStore) (aggregates : List (DerivedAggregate Γ))
    (rollbackTo : Int) : Except String DomainStore := do
  let tip ← committedTip s
  let st ← aggregates.foldlM (invalidateOne s tip rollbackTo) {}
  match stageDeleteDerivedUndoAbove s st.batch (st.notReplayed.map Cf.name) rollbackTo with
  | .error e => .error e.message
  | .ok (batch, dropped) =>
    return if st.reset.isEmpty && dropped == 0 then s else s.write batch

end Reset

end Ckbadger.Derive
