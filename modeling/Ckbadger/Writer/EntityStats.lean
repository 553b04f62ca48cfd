/-
Ckbadger.Writer.EntityStats — the batch overlay of the entity daily and hourly
statistics.

For every key a batch touches the overlay keeps the value as of the last block
that wrote it, records a pre-image the first time a block mutates a key, and
writes each key once at the end of the batch. Hash maps are modelled by ordered
maps, the two hash sets by lists without repetition; the final writes go to
distinct keys, so the order in which a set is walked does not matter.
-/
import Ckbadger.Sync.UndoSeq

namespace Ckbadger.Writer

open Lib Store Sync Std

/-! ## Errors -/

inductive OverlayError where
  | blockOrder (key : Bytes) (lastBlock block : Int)
  | emptyKey (block : Int)
  | dirtyWithoutValue (key : Bytes)
  | hourlyLength (ctx : String) (len : Nat)
  | hourlyOverflow (ctx : String) (current delta : Int)
  | dailyLength (ctx : String) (len width : Nat)
  | dailyOverflow (field ctx : String) (current delta : Int)
  | store (error : StoreError)
  /-- A failed assertion: the process stops. -/
  | undoSeq (overflow : UndoSeqOverflow)
  deriving DecidableEq

/-! ## The overlay -/

structure EntityStatsOverlay where
  /-- Full key to current encoded value; `none` means the row does not exist. -/
  values : ExtTreeMap Bytes (Option Bytes) := ∅
  /-- The `(block, key)` pairs whose pre-image this batch has recorded. -/
  touched : List (Int × Bytes) := []
  /-- The keys the final stage writes. -/
  dirty : List Bytes := []
  /-- The highest block that has mutated each key. -/
  lastBlockByKey : ExtTreeMap Bytes Int := ∅

/-- What a writer of a live batch mutates: the overlay, the batch, the shared counter. -/
structure BatchState where
  overlay : EntityStatsOverlay := {}
  batch : DomainBatch := []
  undoSeq : UndoSeqMap := ∅

/-- A store read whose failure the overlay passes on. -/
def liftStore {α : Type} : Except StoreError α → Except OverlayError α
  | .ok a => .ok a
  | .error e => .error (.store e)

namespace EntityStatsOverlay

/-- The current value of a key: the overlay's if the batch has seen the key, otherwise one read
from the store, cached. -/
def current (o : EntityStatsOverlay) (store : DomainStore) (key : Bytes) :
    Except OverlayError (Option Bytes × EntityStatsOverlay) :=
  match o.values[key]? with
  | some cached => .ok (cached, o)
  | none => do
      let loaded ← liftStore (getStatsKey store key)
      return (loaded, { o with values := o.values.insert key loaded })

/-- Warms the overlay with the keys it does not hold yet. -/
def prefetch (o : EntityStatsOverlay) (store : DomainStore) (keys : List Bytes) :
    Except OverlayError EntityStatsOverlay := do
  let missing := keys.filter fun key => !o.values.contains key
  let load (values : ExtTreeMap Bytes (Option Bytes)) (key : Bytes) :
      Except OverlayError (ExtTreeMap Bytes (Option Bytes)) := do
    let loaded ← liftStore (getStatsKey store key)
    return values.insert key loaded
  let values ← missing.foldlM load o.values
  return { o with values }

/-- A key's blocks must not go back within a batch. -/
def checkBlockOrder (o : EntityStatsOverlay) (block : Int) (key : Bytes) :
    Except OverlayError Unit :=
  match o.lastBlockByKey[key]? with
  | some lastBlock => if block < lastBlock then .error (.blockOrder key lastBlock block) else .ok ()
  | none => .ok ()

end EntityStatsOverlay

/-! ## Mutations -/

section Mutate

variable [Codec UndoLogEntry]

/-- Records the pre-image of `key` for `block`, unless this batch already has or the store is in
bulk mode. -/
def recordPreImage (bulkSyncMode : Bool) (st : BatchState) (block : Int) (key : Bytes)
    (previousValue : Option Bytes) : Except OverlayError BatchState :=
  if (block, key) ∈ st.overlay.touched then
    .ok st
  else
    let st := { st with overlay.touched := (block, key) :: st.overlay.touched }
    if bulkSyncMode then
      .ok st
    else
      match key with
      | [] => .error (.emptyKey block)
      | byte :: _ => do
          let cfName ← liftStore (statsCfNameByPrefix byte)
          match nextUndoSeq st.undoSeq block .entityStats with
          | .error overflow => .error (.undoSeq overflow)
          | .ok (seq, undoSeq) =>
            let row : UndoRow := ⟨block, seq, .keyMutation .domain cfName key previousValue⟩
            return { st with batch := st.batch ++ [row.op], undoSeq := undoSeq }

/-- Sets `key` to `next` as part of `block`. -/
def mutate (store : DomainStore) (bulkSyncMode : Bool) (st : BatchState) (block : Int)
    (key : Bytes) (next : Option Bytes) : Except OverlayError BatchState := do
  st.overlay.checkBlockOrder block key
  let (previousValue, overlay) ← st.overlay.current store key
  let st ← recordPreImage bulkSyncMode { st with overlay } block key previousValue
  return { st with
    overlay.values := st.overlay.values.insert key next
    overlay.dirty := st.overlay.dirty.insert key
    overlay.lastBlockByKey := st.overlay.lastBlockByKey.insert key block }

/-- The read-apply-mutate sequence of the daily and hourly writers. -/
def update (store : DomainStore) (bulkSyncMode : Bool) (st : BatchState) (block : Int)
    (key : Bytes) (f : Option Bytes → Except OverlayError (Option Bytes)) :
    Except OverlayError BatchState := do
  let (previousValue, overlay) ← st.overlay.current store key
  let next ← f previousValue
  mutate store bulkSyncMode { st with overlay } block key next

/-- Stages the final write of one dirty key. -/
def stageKey (o : EntityStatsOverlay) (batch : DomainBatch) (key : Bytes) :
    Except OverlayError DomainBatch :=
  match o.values[key]? with
  | none => .error (.dirtyWithoutValue key)
  | some value => do
      let cf ← liftStore (cfForStatsKey key)
      return batch ++ [.set cf key value]

/-- Writes the final value of every mutated key, once each. -/
def stageFinal (o : EntityStatsOverlay) (batch : DomainBatch) : Except OverlayError DomainBatch :=
  o.dirty.foldlM (stageKey o) batch

end Mutate

/-! ## The writers' mutation functions -/

/-- Applies an increment to an hourly counter (an 8-byte little-endian i64). A zero result still
writes a row. -/
def applyHourlyIncrement (prev : Option Bytes) (by_ : Int) (ctx : String) :
    Except OverlayError (Option Bytes) := do
  let current ← match prev with
    | some bytes =>
      if bytes.length ≠ 8 then .error (.hourlyLength ctx bytes.length) else .ok (intOfLe bytes)
    | none => .ok 0
  let next := current + by_
  if FitsSigned 8 next then .ok (some (intToLe 8 next))
  else .error (.hourlyOverflow ctx current by_)

/-- `DAILY_PAIR_LEN`: the encoded width of two i128. -/
def dailyPairLen : Nat := 32

/-- One checked addition to a field of a daily row. -/
def addDailyI128 (current delta : Int) (field ctx : String) : Except OverlayError Int :=
  if FitsSigned 16 (current + delta) then .ok (current + delta)
  else .error (.dailyOverflow field ctx current delta)

/-- Applies a `(capacity, knowledge)` delta to a daily row; both fields zero remove the row. -/
def applyDailyPair (prev : Option Bytes) (capacityDelta knowledgeDelta : Int) (ctx : String) :
    Except OverlayError (Option Bytes) := do
  let (capacity, knowledge) ← match prev with
    | some bytes =>
      if bytes.length ≠ dailyPairLen then .error (.dailyLength ctx bytes.length dailyPairLen)
      else .ok (intOfLe (bytes.take 16), intOfLe (bytes.drop 16))
    | none => .ok (0, 0)
  let capacity ← addDailyI128 capacity capacityDelta "capacity" ctx
  let knowledge ← addDailyI128 knowledge knowledgeDelta "knowledge" ctx
  if capacity = 0 ∧ knowledge = 0 then return none
  else return some (intToLe 16 capacity ++ intToLe 16 knowledge)

/-! ## Calls of a live batch -/

/-- One call a writer of a live batch makes on the overlay. -/
inductive OverlayCall where
  | prefetch (keys : List Bytes)
  | mutate (block : Int) (key : Bytes) (next : Option Bytes)
  | mutateHourly (block : Int) (key : Bytes) (by_ : Int) (ctx : String)
  | update (block : Int) (key : Bytes) (f : Option Bytes → Except OverlayError (Option Bytes))

section Calls

variable [Codec UndoLogEntry]

/-- Makes one call; live batches are never in bulk mode. -/
def OverlayCall.run (store : DomainStore) (st : BatchState) :
    OverlayCall → Except OverlayError BatchState
  | .prefetch keys => do
      let overlay ← st.overlay.prefetch store keys
      return { st with overlay }
  | .mutate block key next => Writer.mutate store false st block key next
  | .mutateHourly block key by_ ctx =>
    Writer.update store false st block key fun prev => applyHourlyIncrement prev by_ ctx
  | .update block key f => Writer.update store false st block key f

/-- The overlay calls of a batch and its one final stage, as operations of a write batch. -/
def stageOverlay (store : DomainStore) (calls : List OverlayCall) :
    Except OverlayError DomainBatch := do
  let st ← calls.foldlM (OverlayCall.run store) {}
  stageFinal st.overlay st.batch

end Calls

end Ckbadger.Writer
