/-
Ckbadger.Bulk.Interner — the identity interner of the bulk build, with the
reclamation of identities no live cell refers to.

A panic under the storage lock poisons it, so no later call sees the state it
leaves: `intern_bytes` returns no state when it panics. A `Result` error leaves the
state the call had reached.
-/
import Ckbadger.Store.DomainStore

namespace Ckbadger.Bulk

open Lib Store

/-- `InternId`, an index below `2 ^ 32`. -/
abbrev InternId := Nat

/-! ## The interner -/

structure InternerStorage where
  values : List (Option Bytes) := []
  /-- The stack of free slots, top first. -/
  freeIds : List InternId := []
  payloadBytes : Nat := 0
  lockScriptWritten : List Bool := []
  lockScriptWrittenCount : Nat := 0

structure IdentityInterner where
  byValue : Std.ExtTreeMap Bytes InternId := ∅
  storage : InternerStorage := {}
  /-- Frozen views alive: the other owners of the value table. -/
  views : Nat := 0
  internCallCount : Nat := 0
  internSlowPathCount : Nat := 0

/-- A checked addition on `u64`. -/
def checkedAddU64 (a b : Nat) (error : String) : Except String Nat :=
  if a + b < 2 ^ 64 then .ok (a + b) else .error error

/-- The panic of a new identity beside a frozen view. -/
def frozenViewAlive (activeIdentities slots : Nat) : String :=
  "cannot intern identity while a frozen identity view is alive: active_identities=" ++
    toString activeIdentities ++ " slots=" ++ toString slots

/-- Writes a new identity to the value table: to the slot `reusedId`, whose marker must be clear,
or to a new one. -/
def placeValue (storage : InternerStorage) (views activeIdentities : Nat)
    (reusedId : Option InternId) (bytes : Bytes) : Except String (InternId × InternerStorage) :=
  let slots := storage.values.length
  match reusedId with
  | some id =>
    match storage.lockScriptWritten[id]? with
    | none =>
      .error ("free intern id is outside lock-script marker table: id=" ++ toString id ++
        " marker_slots=" ++ toString storage.lockScriptWritten.length)
    | some true =>
      .error ("free intern id still has a lock-script write marker: id=" ++ toString id)
    | some false =>
      if views ≠ 0 then .error (frozenViewAlive activeIdentities slots)
      else
        match storage.values[id]? with
        | none =>
          .error ("free intern id is outside the value table: id=" ++ toString id ++
            " slots=" ++ toString slots)
        | some (some _) => .error ("free intern id still has a value: id=" ++ toString id)
        | some none => .ok (id, { storage with values := storage.values.set id (some bytes) })
  | none =>
    if views ≠ 0 then .error (frozenViewAlive activeIdentities slots)
    else if 2 ^ 32 ≤ slots then
      .error ("intern id overflow: index " ++ toString slots ++ " exceeds u32::MAX")
    else
      .ok (slots, { storage with
        values := storage.values ++ [some bytes]
        lockScriptWritten := storage.lockScriptWritten ++ [false] })

/-- The slow path of `intern_bytes`, for bytes the lookup map does not hold. -/
def internNew (s : IdentityInterner) (bytes : Bytes) :
    Except String (InternId × IdentityInterner) := do
  let payloadBytes ← checkedAddU64 s.storage.payloadBytes bytes.length
    ("intern identity payload accounting overflow: current_bytes=" ++
      toString s.storage.payloadBytes ++ " added_bytes=" ++ toString bytes.length)
  let (id, storage) ← placeValue
    { s.storage with freeIds := s.storage.freeIds.tail, payloadBytes } s.views s.byValue.size
    s.storage.freeIds.head? bytes
  if storage.lockScriptWritten.length ≠ storage.values.length then
    .error "intern value and lock-script marker tables diverged after insert"
  else return (id, { s with byValue := s.byValue.insert bytes id, storage })

/-- Interns a byte sequence. -/
def internBytes (s : IdentityInterner) (bytes : Bytes) :
    Except String (InternId × IdentityInterner) :=
  let s := { s with internCallCount := (s.internCallCount + 1) % 2 ^ 64 }
  match s.byValue[bytes]? with
  | some id => .ok (id, s)
  | none =>
    internNew { s with internSlowPathCount := (s.internSlowPathCount + 1) % 2 ^ 64 } bytes

/-- The bytes an id stands for. -/
def IdentityInterner.resolve (s : IdentityInterner) (id : InternId) : Option Bytes :=
  (s.storage.values[id]?).join

/-- Marks the lock script of an identity as written; `false` if it was already. -/
def markLockScriptWritten (s : IdentityInterner) (id : InternId) :
    IdentityInterner × Except String Bool :=
  let storage := s.storage
  match (storage.values[id]?).join with
  | none =>
    (s, .error ("cannot mark an inactive intern id as a written lock script: id=" ++
      toString id ++ " slots=" ++ toString storage.values.length))
  | some _ =>
    match storage.lockScriptWritten[id]? with
    | none =>
      (s, .error ("lock-script marker table is missing an active intern id: id=" ++
        toString id ++ " marker_slots=" ++ toString storage.lockScriptWritten.length ++
        " value_slots=" ++ toString storage.values.length))
    | some true => (s, .ok false)
    | some false =>
      let storage := { storage with lockScriptWritten := storage.lockScriptWritten.set id true }
      match checkedAddU64 storage.lockScriptWrittenCount 1
          ("written lock-script identity count overflow: id=" ++ toString id) with
      | .error e => ({ s with storage }, .error e)
      | .ok lockScriptWrittenCount =>
        ({ s with storage := { storage with lockScriptWrittenCount } }, .ok true)

/-! ## Reclamation -/

structure ReclaimStats where
  identities : Nat := 0
  payloadBytes : Nat := 0
  invalidatedLockScriptMarkers : Nat := 0
  deriving DecidableEq

/-- The counts of one reclaimed identity. -/
def ReclaimStats.count (stats : ReclaimStats) (id : InternId) (payloadLen : Nat) (marker : Bool) :
    Except String ReclaimStats := do
  let invalidated ← checkedAddU64 stats.invalidatedLockScriptMarkers (if marker then 1 else 0)
    ("invalidated lock-script marker count overflow: id=" ++ toString id)
  let identities ← checkedAddU64 stats.identities 1
    ("reclaimed identity count overflow: id=" ++ toString id)
  let payloadBytes ← checkedAddU64 stats.payloadBytes payloadLen
    ("reclaimed identity byte count overflow: id=" ++ toString id ++ " payload_bytes=" ++
      toString payloadLen)
  return ⟨identities, payloadBytes, invalidated⟩

/-- Clears the marker of a slot that is free now, with the count of markers. -/
def clearMarker (storage : InternerStorage) (id : InternId) :
    InternerStorage × Except String Bool :=
  match storage.lockScriptWritten[id]? with
  | none =>
    (storage, .error ("lock-script marker table is missing a reclaimed intern id: id=" ++
      toString id ++ " marker_slots=" ++ toString storage.lockScriptWritten.length))
  | some false => (storage, .ok false)
  | some true =>
    let storage := { storage with lockScriptWritten := storage.lockScriptWritten.set id false }
    match storage.lockScriptWrittenCount with
    | 0 =>
      (storage, .error ("written lock-script identity count underflow during reclaim: id=" ++
        toString id))
    | count + 1 => ({ storage with lockScriptWrittenCount := count }, .ok true)

/-- Reclaims one identity. -/
def reclaimOne (s : IdentityInterner) (stats : ReclaimStats) (id : InternId) :
    IdentityInterner × Except String ReclaimStats :=
  match s.storage.values[id]? with
  | none =>
    (s, .error ("reclaim candidate is outside intern value table: id=" ++ toString id ++
      " slots=" ++ toString s.storage.values.length))
  | some none => (s, .error ("reclaim candidate is already free: id=" ++ toString id))
  | some (some shared) =>
    let s := { s with storage := { s.storage with values := s.storage.values.set id none } }
    match s.byValue[shared]? with
    | none =>
      (s, .error ("reclaim candidate is missing from identity lookup map: id=" ++ toString id ++
        " payload=0x" ++ bytesToHex shared))
    | some removed =>
      let s := { s with byValue := s.byValue.erase shared }
      if removed ≠ id then
        (s, .error ("identity lookup map returned the wrong id during reclaim: expected_id=" ++
          toString id ++ " actual_id=" ++ toString removed ++ " payload=0x" ++
          bytesToHex shared))
      else if s.storage.payloadBytes < shared.length then
        (s, .error ("identity payload accounting underflow during reclaim: id=" ++
          toString id ++ " current_bytes=" ++ toString s.storage.payloadBytes ++
          " removed_bytes=" ++ toString shared.length))
      else
        let (storage, cleared) := clearMarker { s.storage with
          payloadBytes := s.storage.payloadBytes - shared.length
          freeIds := id :: s.storage.freeIds } id
        ({ s with storage }, cleared.bind fun marker => stats.count id shared.length marker)

/-- Reclaims the candidates in order; the first error ends the loop. -/
def reclaimEach (s : IdentityInterner) (stats : ReclaimStats) :
    List InternId → IdentityInterner × Except String ReclaimStats
  | [] => (s, .ok stats)
  | id :: rest =>
    match reclaimOne s stats id with
    | (s, .error e) => (s, .error e)
    | (s, .ok stats) => reclaimEach s stats rest

def reclaimZeroRefIdentities (s : IdentityInterner) (candidates : List InternId) :
    IdentityInterner × Except String ReclaimStats :=
  if candidates.isEmpty then (s, .ok {})
  else if s.views ≠ 0 then
    (s, .error ("cannot reclaim interned identities while frozen views are alive: strong_count=" ++
      toString (s.views + 1) ++ " candidates=" ++ toString candidates.length ++
      " active_identities=" ++ toString s.byValue.size ++ " slots=" ++
      toString s.storage.values.length))
  else reclaimEach s {} candidates

/-! ## Liveness -/

/-- The reference count of an id and whether it is queued: the two tables are resized together. -/
structure LivenessSlot where
  liveRefs : Nat := 0
  queuedForReclaim : Bool := false
  deriving DecidableEq

structure IdentityLiveness where
  slots : List LivenessSlot := []
  zeroCandidates : List InternId := []

/-- The number of live references to an id. -/
def IdentityLiveness.liveRefs (l : IdentityLiveness) (id : InternId) : Nat :=
  ((l.slots[id]?).map LivenessSlot.liveRefs).getD 0

def ensureSlots (l : IdentityLiveness) (slotLen : Nat) : IdentityLiveness :=
  { l with slots := l.slots ++ List.replicate (slotLen - l.slots.length) {} }

def retain (l : IdentityLiveness) (id : InternId) : Except String IdentityLiveness :=
  match l.slots[id]? with
  | none =>
    .error ("cannot retain unknown intern id: id=" ++ toString id ++ " liveness_slots=" ++
      toString l.slots.length)
  | some slot =>
    if slot.liveRefs + 1 < 2 ^ 32 then
      .ok { l with slots := l.slots.set id { slot with liveRefs := slot.liveRefs + 1 } }
    else
      .error ("live identity reference count overflow: id=" ++ toString id ++ " current_refs=" ++
        toString slot.liveRefs)

def release (l : IdentityLiveness) (id : InternId) : Except String IdentityLiveness :=
  match l.slots[id]? with
  | none =>
    .error ("cannot release unknown intern id: id=" ++ toString id ++ " liveness_slots=" ++
      toString l.slots.length)
  | some ⟨0, _⟩ =>
    .error ("live identity reference count underflow: id=" ++ toString id ++ " current_refs=0")
  | some ⟨1, false⟩ =>
    .ok ⟨l.slots.set id ⟨0, true⟩, l.zeroCandidates ++ [id]⟩
  | some ⟨refs + 1, queued⟩ => .ok { l with slots := l.slots.set id ⟨refs, queued⟩ }

/-- Empties the queue; an id that was retained again is not reclaimable. -/
def drainZeroCandidates (l : IdentityLiveness) : List InternId × IdentityLiveness :=
  (l.zeroCandidates.filter fun id => l.liveRefs id == 0,
    ⟨l.zeroCandidates.foldl
      (fun slots id => slots.modify id fun slot => { slot with queuedForReclaim := false }) l.slots,
      []⟩)

/-! ## Runs -/

structure Identities where
  interner : IdentityInterner := {}
  liveness : IdentityLiveness := {}

/-- One call of the API. `reclaim` is a drain followed by the reclamation of what it returned. -/
inductive Step : Identities → Identities → Prop where
  | internBytes {st : Identities} {bytes : Bytes} {id : InternId} {interner : IdentityInterner}
      (h : internBytes st.interner bytes = .ok (id, interner)) : Step st { st with interner }
  | ensureSlots {st : Identities} (slotLen : Nat) :
      Step st { st with liveness := ensureSlots st.liveness slotLen }
  | retain {st : Identities} {id : InternId} {liveness : IdentityLiveness}
      (h : retain st.liveness id = .ok liveness) : Step st { st with liveness }
  | release {st : Identities} {id : InternId} {liveness : IdentityLiveness}
      (h : release st.liveness id = .ok liveness) : Step st { st with liveness }
  | reclaim {st : Identities} :
      Step st ⟨(reclaimZeroRefIdentities st.interner (drainZeroCandidates st.liveness).1).1,
        (drainZeroCandidates st.liveness).2⟩
  | markLockScriptWritten {st : Identities} (id : InternId) :
      Step st { st with interner := (markLockScriptWritten st.interner id).1 }
  | snapshot {st : Identities} :
      Step st { st with interner := { st.interner with views := st.interner.views + 1 } }
  | dropView {st : Identities} {views : Nat} (h : st.interner.views = views + 1) :
      Step st { st with interner := { st.interner with views } }

end Ckbadger.Bulk
