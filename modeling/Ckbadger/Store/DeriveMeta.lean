/-
Ckbadger.Store.DeriveMeta — the rows and the persisted state of derived
aggregates.

A derived row is a vector of signed components, 16 bytes little-endian each. The
state of a derivation is the `sync_meta` row `derive:<name>`.
-/
import Ckbadger.Store.SyncMeta

namespace Ckbadger.Store

open Lib List

variable {cf : Cf} {key : Bytes}

/-- Identity of one derived aggregate: its name, the column family it owns and the version of its
row definition. -/
structure DerivedAggregateId where
  name : String
  cf : Cf
  version : Nat
  deriving DecidableEq

/-- `OBJECT_COLLECTION_ACTIVITY_COUNT`. -/
def objectCollectionActivityCountId : DerivedAggregateId :=
  ⟨"object_collection_activity_count", .objectCollectionActivityCount, 1⟩

/-- `DERIVED_CFS`. -/
def derivedCfs : List Cf := [.daoLiveAgg, .objectCollectionActivityCount, .bitCellByAccount]

/-- `DERIVED_CLEAR_END`: past every derived key, which are all shorter. -/
def derivedClearEnd : Bytes := List.replicate 128 0xFF

/-- The two halves of a running rebuild. -/
inductive RebuildPhase where
  | folding | validating
  deriving DecidableEq

/-- Where one aggregate's derivation stands. -/
inductive DeriveState where
  | notStarted
  | running (derivedFromTip : Int) (phase : RebuildPhase) (cursor : Option Bytes) (rowsDone : Nat)
  | complete (derivedFromTip completedAtTip : Int) (rowsDone : Nat)
  | failed (error : String)
  deriving DecidableEq

/-- The persisted derivation state of one aggregate. -/
structure DeriveMeta where
  version : Nat
  state : DeriveState
  /-- Increments on every start. -/
  run : Nat
  startedAtMs : Option Int
  finishedAtMs : Option Int
  deriving DecidableEq

namespace DeriveMeta

def notStarted (version run : Nat) : DeriveMeta := ⟨version, .notStarted, run, none, none⟩

/-- Whether live sync maintains the aggregate's rows. -/
def isMaintained (m : DeriveMeta) (id : DerivedAggregateId) : Bool :=
  m.version == id.version &&
    match m.state with
    | .running .. | .complete .. => true
    | _ => false

/-- Whether live writes must keep every touched row within its invariant. -/
def checksRows (m : DeriveMeta) : Bool :=
  match m.state with
  | .complete .. | .running _ .validating _ _ => true
  | _ => false

/-- Whether the rows may be served. -/
def isComplete (m : DeriveMeta) (id : DerivedAggregateId) : Bool :=
  m.version == id.version &&
    match m.state with
    | .complete .. => true
    | _ => false

variable {m : DeriveMeta} {id : DerivedAggregateId}

theorem isComplete_iff : m.isComplete id = true ↔ m.version = id.version ∧
    ∃ derivedFrom tip rows, m.state = .complete derivedFrom tip rows := by
  cases hs : m.state <;> simp [isComplete, hs]

theorem isMaintained_iff : m.isMaintained id = true ↔ m.version = id.version ∧
    ((∃ tip phase cursor rows, m.state = .running tip phase cursor rows) ∨
      ∃ derivedFrom tip rows, m.state = .complete derivedFrom tip rows) := by
  cases hs : m.state <;> simp [isMaintained, hs]

theorem isMaintained_of_isComplete (h : m.isComplete id = true) : m.isMaintained id = true := by
  obtain ⟨hv, hs⟩ := isComplete_iff.mp h
  exact isMaintained_iff.mpr ⟨hv, .inr hs⟩

end DeriveMeta

/-! ## Values -/

def encodeDerivedValue (components : List Int) : Bytes := components.flatMap (intToLe 16)

/-- The 16-byte components of a byte string. -/
def derivedComponents (bytes : Bytes) : List Int :=
  (List.range (bytes.length / 16)).map fun i => intOfLe ((bytes.drop (16 * i)).take 16)

def decodeDerivedValue (bytes : Bytes) : Except String (List Int) :=
  if bytes.isEmpty || bytes.length % 16 != 0 then
    .error ("derived row value is not a vector of 16-byte components: len=" ++
      toString bytes.length)
  else
    .ok (derivedComponents bytes)

/-! ## Access -/

def ensureDerivedCf (cf : Cf) : Except String Unit :=
  if derivedCfs.contains cf then .ok ()
  else .error ("'" ++ cf.name ++ "' is not a derived aggregate column family")

/-- The `sync_meta` key of an aggregate's state. -/
def encodeDeriveMetaKey (name : String) : Bytes := asciiBytes "derive:" ++ asciiBytes name

/-- One derived row, decoded. -/
def getDerivedValue (s : DomainStore) (cf : Cf) (key : Bytes) :
    Except String (Option (List Int)) := do
  ensureDerivedCf cf
  match s.get cf key with
  | none => return none
  | some value =>
    match decodeDerivedValue value with
    | .ok components => return some components
    | .error e => .error (cf.name ++ " key=0x" ++ bytesToHex key ++ ": " ++ e)

/-- Sets one derived row, or removes it when the sum is zero. -/
def putDerivedValue (batch : DomainBatch) (cf : Cf) (key : Bytes) (value : Option (List Int)) :
    Except String DomainBatch := do
  ensureDerivedCf cf
  return batch ++ [.set cf key (value.map encodeDerivedValue)]

/-- Removes every row of one derived column family. -/
def clearDerivedCf (batch : DomainBatch) (cf : Cf) : Except String DomainBatch := do
  ensureDerivedCf cf
  return batch ++ [.deleteRange cf [] derivedClearEnd]

section Meta

variable [Codec DeriveMeta]

def getDeriveMeta (s : DomainStore) (name : String) : Except String (Option DeriveMeta) :=
  match s.get .syncMeta (encodeDeriveMetaKey name) with
  | none => .ok none
  | some value =>
    match Codec.deserialize (α := DeriveMeta) value with
    | .ok m => .ok (some m)
    | .error e =>
      .error ("failed to decode derive meta for aggregate '" ++ name ++ "': " ++ e)

def putDeriveMeta (batch : DomainBatch) (name : String) (m : DeriveMeta) : DomainBatch :=
  batch ++ [.put .syncMeta (encodeDeriveMetaKey name) (Codec.serialize m)]

end Meta

/-! ## Reading back -/

theorem length_encodeDerivedValue (v : List Int) :
    (encodeDerivedValue v).length = 16 * v.length := by
  simp [encodeDerivedValue, Nat.mul_comm]

/-- A vector whose components fit 16 bytes is read back component by component. -/
theorem derivedComponents_encodeDerivedValue {v : List Int} (h : ∀ c ∈ v, FitsSigned 16 c) :
    derivedComponents (encodeDerivedValue v) = v := by
  induction v with
  | nil => rfl
  | cons c v ih =>
    have hc := h c mem_cons_self
    have hrest := ih (forall_mem_cons.mp h).2
    have hsplit : encodeDerivedValue (c :: v) = intToLe 16 c ++ encodeDerivedValue v := by
      simp [encodeDerivedValue]
    have hdrop : ∀ i, (intToLe 16 c ++ encodeDerivedValue v).drop (16 * (i + 1))
        = (encodeDerivedValue v).drop (16 * i) := by
      intro i
      have hlen : 16 * (i + 1) = (intToLe 16 c).length + 16 * i := by simp; omega
      rw [hlen, drop_append]
      simp
    rw [derivedComponents, length_encodeDerivedValue, Nat.mul_div_cancel_left _ (by omega)]
      at hrest ⊢
    rw [length_cons, range_succ_eq_map, map_cons, map_map, hsplit]
    refine cons_eq_cons.mpr ⟨?_, Eq.trans ?_ hrest⟩
    · rw [drop_zero, take_left' (by simp), intOfLe_intToLe hc]
    · refine map_congr_left fun i _ => ?_
      rw [Function.comp_apply, hdrop]

theorem decodeDerivedValue_encodeDerivedValue {v : List Int} (hne : v ≠ [])
    (h : ∀ c ∈ v, FitsSigned 16 c) : decodeDerivedValue (encodeDerivedValue v) = .ok v := by
  have hnil : encodeDerivedValue v ≠ [] := by
    intro heq
    have hlen := length_encodeDerivedValue v
    rw [heq] at hlen
    exact hne (eq_nil_of_length_eq_zero (by simpa using hlen.symm))
  rw [decodeDerivedValue, derivedComponents_encodeDerivedValue h]
  simp [hnil, length_encodeDerivedValue]

/-! ## What a staged state or clear leaves -/

theorem clearDerivedCf_ok {batch : DomainBatch} (h : cf ∈ derivedCfs) :
    clearDerivedCf batch cf = .ok (batch ++ [.deleteRange cf [] derivedClearEnd]) := by
  simp only [clearDerivedCf, ensureDerivedCf, contains_eq_mem, h]
  rfl

theorem putDerivedValue_ok {batch : DomainBatch} {value : Option (List Int)} (h : cf ∈ derivedCfs) :
    putDerivedValue batch cf key value
      = .ok (batch ++ [.set cf key (value.map encodeDerivedValue)]) := by
  simp only [putDerivedValue, ensureDerivedCf, contains_eq_mem, h]
  rfl

theorem rowAfter_clear {v : Option Bytes} (h : v ≠ none → compare key derivedClearEnd = .lt) :
    rowAfter cf key v [.deleteRange cf [] derivedClearEnd] = none := by
  cases v with
  | none =>
    rw [rowAfter_cons, WriteOp.effect]
    split <;> rfl
  | some v =>
    have hrange : inRange [] derivedClearEnd key = true := by
      rw [inRange, h (by simp)]
      cases key <;> rfl
    simp [WriteOp.effect, hrange]

theorem rowAfter_clear_of_ne {cf' : Cf} (h : cf ≠ cf') (v : Option Bytes) :
    rowAfter cf key v [.deleteRange cf' [] derivedClearEnd] = v := by
  simp [WriteOp.effect, Ne.symm h]

section MetaRows

variable [Codec DeriveMeta] {s t : DomainStore} {batch : DomainBatch} {name : String}
  {m : DeriveMeta}

theorem getDeriveMeta_congr (h : t.get .syncMeta (encodeDeriveMetaKey name)
    = s.get .syncMeta (encodeDeriveMetaKey name)) : getDeriveMeta t name = getDeriveMeta s name := by
  simp [getDeriveMeta, h]

@[simp] theorem getDeriveMeta_write_putDeriveMeta :
    getDeriveMeta (s.write (putDeriveMeta batch name m)) name = .ok (some m) := by
  simp [getDeriveMeta, putDeriveMeta, OrderedStore.get_write, WriteOp.effect]

theorem get_write_putDeriveMeta (h : ¬ (cf = .syncMeta ∧ key = encodeDeriveMetaKey name)) :
    (s.write (putDeriveMeta batch name m)).get cf key = rowAfter cf key (s.get cf key) batch := by
  rw [OrderedStore.get_write, putDeriveMeta, rowAfter_append, rowAfter_cons, rowAfter_nil,
    WriteOp.effect, if_neg, Option.getD_none]
  rintro ⟨rfl, rfl⟩
  exact h ⟨rfl, rfl⟩

omit [Codec DeriveMeta] in
theorem encodeDeriveMetaKey_ne_contract : encodeDeriveMetaKey name ≠ entityStatsUndoContractKey := by
  intro h
  have hhead : (100 : UInt8) = entityStatsUndoContractKey.headD 0 :=
    congrArg (fun key : Bytes => key.headD 0) h
  exact absurd hhead (by decide)

end MetaRows

end Ckbadger.Store
