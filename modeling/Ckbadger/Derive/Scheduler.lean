/-
Ckbadger.Derive.Scheduler — the derivation scheduler: one bounded unit of rebuild
work per call, between live batches.

A rebuild clears the aggregate's rows, pins a snapshot at the committed tip, folds
the snapshot's source rows into the rows chunk by chunk, then checks every row and
declares the aggregate complete. The snapshot and the cursor live in the process
and are lost when it stops.
-/
import Ckbadger.Derive.Live

namespace Ckbadger.Derive

open Lib Store

/-- What one step did. -/
inductive StepOutcome where
  | idle | started | chunk | completed
  deriving DecidableEq

/-- The rebuild in flight: its snapshot, and where it stands. -/
structure ActiveRebuild where
  index : Nat
  run : Nat
  phase : RebuildPhase
  snapshot : DomainStore
  derivedFromTip : Int
  cursor : Option Bytes
  rowsDone : Nat

/-- The store and the process's rebuild in flight. -/
structure SchedulerState where
  store : DomainStore
  active : Option ActiveRebuild

/-- The bounds of one step and the clock it reads. -/
structure StepLimits where
  chunkRows : Nat
  chunkKeys : Nat
  elapsed : Nat → Bool
  nowMs : Int

section Scheduler

variable {Γ : Type} [Codec DeriveMeta] [Codec CachedBlockHeader]

/-! ## Startup -/

/-- Whether startup keeps an aggregate's rows. -/
def keepsOnStartup (id : DerivedAggregateId) (tip : Int) (m : Option DeriveMeta) :
    Except String Bool :=
  match m with
  | some m =>
    if m.version == id.version then
      match m.state with
      | .complete _ completedAtTip _ =>
        if completedAtTip > tip then
          .error ("derived aggregate " ++ id.name ++ " completed at block " ++
            toString completedAtTip ++ ", above the sync tip " ++ toString tip ++
            ": a rollback below its completion did not reset it")
        else .ok true
      | .notStarted | .running .. | .failed _ => .ok false
    else .ok false
  | none => .ok false

def normalizeOne (s : DomainStore) (tip : Int) (batch : DomainBatch)
    (aggregate : DerivedAggregate Γ) : Except String DomainBatch := do
  let id := aggregate.id
  let m ← getDeriveMeta s id.name
  if ← keepsOnStartup id tip m then return batch else stageReset batch id m

/-- The startup rule: anything but a complete derivation is reset and derived again. -/
def normalizeOnStartup (st : SchedulerState) (aggregates : List (DerivedAggregate Γ)) :
    SchedulerState × Except String Unit :=
  match (do
    let tip ← committedTip st.store
    aggregates.foldlM (normalizeOne st.store tip) [] : Except String DomainBatch) with
  | .error e => (st, .error e)
  | .ok batch => (⟨st.store.write batch, none⟩, .ok ())

/-! ## One step -/

/-- The first aggregate, in registry order, that still needs rebuild work. -/
def nextPending (s : DomainStore) :
    Nat → List (DerivedAggregate Γ) →
      Except String (Option (Nat × DerivedAggregate Γ × Option DeriveMeta))
  | _, [] => .ok none
  | index, aggregate :: rest => do
      let m ← getDeriveMeta s aggregate.id.name
      if m.any (·.isComplete aggregate.id) then nextPending s (index + 1) rest
      else return some (index, aggregate, m)

/-- Starts a derivation: rows cleared, state running, snapshot taken. -/
def start (st : SchedulerState) (limits : StepLimits) (index : Nat)
    (aggregate : DerivedAggregate Γ) (previous : Option DeriveMeta) :
    SchedulerState × Except String StepOutcome :=
  let id := aggregate.id
  match committedTip st.store, clearDerivedCf [] id.cf with
  | .error e, _ => (⟨st.store, none⟩, .error e)
  | .ok _, .error e => (⟨st.store, none⟩, .error e)
  | .ok tip, .ok batch =>
    let run := (previous.map DeriveMeta.run).getD 0 + 1
    let store := st.store.write (putDeriveMeta batch id.name
      ⟨id.version, .running tip .folding none 0, run, some limits.nowMs, none⟩)
    match committedTip store with
    | .error e => (⟨store, none⟩, .error e)
    | .ok snapshotTip =>
      if snapshotTip ≠ tip then
        (⟨store, none⟩, .error ("derived aggregate " ++ id.name ++ ": snapshot tip " ++
          toString snapshotTip ++ " differs from the sync tip " ++ toString tip ++
          " it was started at; a live batch committed concurrently with the scheduler"))
      else
        (⟨store, some ⟨index, run, .folding, store, tip, none, 0⟩⟩, .ok .started)

/-- Marks the aggregate failed and stops the indexer with the error. -/
def fail (st : SchedulerState) (limits : StepLimits) (aggregate : DerivedAggregate Γ)
    (error : String) : SchedulerState × Except String StepOutcome :=
  let id := aggregate.id
  match getDeriveMeta st.store id.name with
  | .error e => (⟨st.store, none⟩, .error e)
  | .ok none =>
    (⟨st.store, none⟩, .error ("derive meta for " ++ id.name ++ " vanished while it was running"))
  | .ok (some previous) =>
    (⟨recordFailureBeforeStop st.store id.name previous error limits.nowMs, none⟩,
      .error ("background derivation of " ++ id.name ++ " stopped the indexer: " ++ error))

/-- The state row of a rebuild in flight. -/
def runningMeta (id : DerivedAggregateId) (active : ActiveRebuild) (previous : Option DeriveMeta) :
    DeriveMeta :=
  ⟨id.version, .running active.derivedFromTip active.phase active.cursor active.rowsDone,
    active.run, previous.bind DeriveMeta.startedAtMs, none⟩

/-- Adds one folded contribution to the row the store holds. -/
def stageFolded (s : DomainStore) (cf : Cf) (batch : DomainBatch) (c : Bytes × List Int) :
    Except String DomainBatch := do
  let current ← getDerivedValue s cf c.1
  let value ← sumWith current c.2
  putDerivedValue batch cf c.1 value

/-- Folds one chunk of the snapshot into the rows. -/
def foldChunk (st : SchedulerState) (limits : StepLimits) (aggregate : DerivedAggregate Γ)
    (active : ActiveRebuild) : SchedulerState × Except String StepOutcome :=
  let id := aggregate.id
  let budget : ChunkBudget :=
    { maxRows := limits.chunkRows, maxKeys := some limits.chunkKeys, elapsed := limits.elapsed }
  match aggregate.rebuildChunk active.snapshot active.cursor budget with
  | .error e => fail st limits aggregate (id.name ++ " rebuild chunk: " ++ e)
  | .ok chunk =>
    match chunk.out.toList.foldlM (stageFolded st.store id.cf) [] with
    | .error e => (st, .error e)
    | .ok batch =>
      let active := { active with
        rowsDone := active.rowsDone + chunk.budget.rows
        phase := if chunk.next.isSome then .folding else .validating
        cursor := chunk.next }
      match getDeriveMeta st.store id.name with
      | .error e => (⟨st.store, some active⟩, .error e)
      | .ok previous =>
        (⟨st.store.write (putDeriveMeta batch id.name (runningMeta id active previous)),
          some active⟩, .ok .chunk)

/-- What a validating scan found: the last row checked if it stopped early. -/
def checkRows (aggregate : DerivedAggregate Γ) :
    List (Bytes × Bytes) → ChunkBudget → Except String (Option Bytes)
  | [], _ => .ok none
  | (key, value) :: rest, budget =>
    match decodeDerivedValue value with
    | .error e => .error (aggregate.id.cf.name ++ " key=0x" ++ bytesToHex key ++ ": " ++ e)
    | .ok components => do
        withContext (aggregate.id.name ++ " row 0x" ++ bytesToHex key ++ " at completion")
          (aggregate.checkRow key components)
        let (stop, budget) := budget.tick 0
        if stop then return some key else checkRows aggregate rest budget

/-- Checks up to one chunk of rows; after the last one the derivation is complete. -/
def validateChunk (st : SchedulerState) (limits : StepLimits) (aggregate : DerivedAggregate Γ)
    (active : ActiveRebuild) : SchedulerState × Except String StepOutcome :=
  let id := aggregate.id
  let budget : ChunkBudget := { maxRows := limits.chunkRows, elapsed := limits.elapsed }
  match (do
    ensureDerivedCf id.cf
    checkRows aggregate ((st.store.table id.cf).scanFrom (resumeKey active.cursor)) budget) with
  | .error e => fail st limits aggregate e
  | .ok (some last) =>
    let active := { active with cursor := some last }
    match getDeriveMeta st.store id.name with
    | .error e => (⟨st.store, some active⟩, .error e)
    | .ok previous =>
      (⟨st.store.write (putDeriveMeta [] id.name
        (runningMeta id { active with phase := .validating } previous)), some active⟩,
        .ok .chunk)
  | .ok none =>
    match getDeriveMeta st.store id.name, committedTip st.store with
    | .error e, _ => (⟨st.store, none⟩, .error e)
    | .ok _, .error e => (⟨st.store, none⟩, .error e)
    | .ok previous, .ok completedAtTip =>
      (⟨st.store.write (putDeriveMeta [] id.name
        ⟨id.version, .complete active.derivedFromTip completedAtTip active.rowsDone,
          active.run, previous.bind DeriveMeta.startedAtMs, some limits.nowMs⟩), none⟩,
        .ok .completed)

/-- Whether the rebuild in flight is the one the state row of the pending aggregate names. -/
def continues (active : Option ActiveRebuild) (index : Nat) (m : Option DeriveMeta) :
    Option ActiveRebuild :=
  match active, m with
  | some active, some ⟨_, .running .., run, _, _⟩ =>
    if active.index = index ∧ active.run = run then some active else none
  | _, _ => none

/-- One bounded unit of rebuild work: start the next derivation, or do one chunk of the one in
flight. -/
def step (st : SchedulerState) (limits : StepLimits) (aggregates : List (DerivedAggregate Γ)) :
    SchedulerState × Except String StepOutcome :=
  match nextPending st.store 0 aggregates with
  | .error e => (st, .error e)
  | .ok none => (⟨st.store, none⟩, .ok .idle)
  | .ok (some (index, aggregate, m)) =>
    match continues st.active index m with
    | none => start st limits index aggregate m
    | some active =>
      match active.phase with
      | .validating => validateChunk st limits aggregate active
      | .folding => foldChunk st limits aggregate active

end Scheduler

end Ckbadger.Derive
