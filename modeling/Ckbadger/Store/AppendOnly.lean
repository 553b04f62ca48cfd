/-
Ckbadger.Store.AppendOnly — committing a batch to the append-only store.

The append-only store holds one column family, the cell payloads. A batch that stages a
key twice, deletes a key, or puts another value under a key that exists is refused as a
whole. A put of the value that is already there is dropped, so a batch can be replayed.
-/
import Ckbadger.Lib.Fallible
import Ckbadger.Lib.MapSum

namespace Ckbadger.Store

open Lib Std

/-- One staged write; no value is a delete. -/
structure AppendBatchOp (K V : Type) where
  key : K
  value : Option V
  deriving DecidableEq

variable {K V : Type} [Ord K] [TransOrd K]

/-- The check for a key staged twice: `seen` has the index of each key's operation. -/
def checkDuplicates (seen : ExtTreeMap K Nat) (idx : Nat) :
    List (AppendBatchOp K V) → Except String Unit
  | [] => .ok ()
  | op :: ops => do
      ensure (seen[op.key]? = none)
        ("append-only batch duplicate key blocked: cf=cells, first_op_index=" ++
          toString (seen[op.key]?.getD 0) ++ ", second_op_index=" ++ toString idx)
      checkDuplicates (seen.insert op.key idx) (idx + 1) ops

variable [DecidableEq V]

/-- The puts that are left of a batch. Bulk sync starts from an empty store and skips the probe
for existing values. -/
def filterBatch (skipExistingProbe : Bool) (rows : ExtTreeMap K V) :
    List (AppendBatchOp K V) → Except String (List (K × V))
  | [] => .ok []
  | op :: ops => do
      let value ← required "append-only delete blocked: cf=cells" op.value
      match (if skipExistingProbe then none else rows[op.key]?) with
      | some existing => do
          ensure (existing = value) "append-only overwrite blocked: cf=cells"
          filterBatch skipExistingProbe rows ops
      | none => do
          let rest ← filterBatch skipExistingProbe rows ops
          return (op.key, value) :: rest

/-- The batch that `commit_inner` writes to the append-only store. -/
def commitInner (bulkSyncMode : Bool) (rows : ExtTreeMap K V)
    (ops : List (AppendBatchOp K V)) : Except String (List (K × V)) := do
  checkDuplicates ∅ 0 ops
  filterBatch bulkSyncMode rows ops

/-- Writes the puts of a batch. -/
def putAll (rows : ExtTreeMap K V) (puts : List (K × V)) : ExtTreeMap K V :=
  puts.foldl (fun rows put => rows.insert put.1 put.2) rows

/-! ## What a commit does -/

variable [LawfulEqOrd K] [DecidableEq K]
variable {ops : List (AppendBatchOp K V)} {rows : ExtTreeMap K V} {puts : List (K × V)}

omit [DecidableEq V] in
/-- The first check passes exactly when no key is staged twice. -/
theorem checkDuplicates_eq_ok {seen : ExtTreeMap K Nat} {idx : Nat} {u : Unit} :
    checkDuplicates seen idx ops = .ok u ↔
      (ops.map AppendBatchOp.key).Nodup ∧ ∀ op ∈ ops, seen[op.key]? = none := by
  induction ops generalizing seen idx with
  | nil => simp [checkDuplicates]
  | cons op ops ih =>
    simp only [checkDuplicates, bind_eq_ok, ensure_eq_ok, ih, getElem?_insert_ite,
      List.map_cons, List.nodup_cons, List.mem_map, List.mem_cons, forall_eq_or_imp,
      reduceCtorEq, ite_eq_iff, and_false, false_or]
    constructor
    · rintro ⟨-, hfresh, hnodup, hrest⟩
      refine ⟨⟨?_, hnodup⟩, hfresh, fun op' hop' => (hrest op' hop').2⟩
      rintro ⟨op', hop', hkey⟩
      exact (hrest op' hop').1 hkey.symm
    · rintro ⟨⟨hhead, hnodup⟩, hfresh, hrest⟩
      refine ⟨(), hfresh, hnodup, fun op' hop' => ⟨?_, hrest op' hop'⟩⟩
      exact fun hkey => hhead ⟨op', hop', hkey.symm⟩

/-- The value an operation puts, if the store takes it: no other value is under its key. -/
def Admits (rows : ExtTreeMap K V) (op : AppendBatchOp K V) : Prop :=
  ∃ v, op.value = some v ∧ ∀ w, rows[op.key]? = some w → w = v

/-- The put that is left of an operation: one under a new key. -/
def newPut? (rows : ExtTreeMap K V) (op : AppendBatchOp K V) : Option (K × V) :=
  match rows[op.key]? with
  | some _ => none
  | none => op.value.map (op.key, ·)

omit [LawfulEqOrd K] [DecidableEq K] in
/-- The probe passes exactly when the store takes every operation. -/
theorem filterBatch_eq_ok : filterBatch false rows ops = .ok puts ↔
    (∀ op ∈ ops, Admits rows op) ∧ ops.filterMap (newPut? rows) = puts := by
  refine scan_eq_ok (f := filterBatch false rows) rfl ?_
  rintro ⟨key, value⟩ ops puts
  cases value with
  | none => simp [filterBatch, Admits, bind_eq_ok]
  | some v =>
    cases hrow : rows[key]? with
    | none => simp [filterBatch, Admits, newPut?, hrow, bind_eq_ok]
    | some w => simp [filterBatch, Admits, newPut?, hrow, bind_eq_ok]

omit [LawfulEqOrd K] [DecidableEq K] [DecidableEq V] in
theorem newPut?_eq_some {op : AppendBatchOp K V} {put : K × V} :
    newPut? rows op = some put ↔ op = ⟨put.1, some put.2⟩ ∧ rows[put.1]? = none := by
  obtain ⟨key, value⟩ := op
  cases hrow : rows[key]? with
  | some w =>
    simp only [newPut?, hrow, reduceCtorEq, false_iff, AppendBatchOp.mk.injEq]
    rintro ⟨⟨rfl, -⟩, hnone⟩
    cases hrow.symm.trans hnone
  | none =>
    simp only [newPut?, hrow, Option.map_eq_some_iff, AppendBatchOp.mk.injEq]
    constructor
    · rintro ⟨v, rfl, rfl⟩
      exact ⟨⟨rfl, rfl⟩, hrow⟩
    · rintro ⟨⟨rfl, rfl⟩, -⟩
      exact ⟨put.2, rfl, rfl⟩

/-- **A batch is committed exactly when it stages no key twice and the store takes each of its
operations.** -/
theorem commitInner_isOk :
    (∃ puts, commitInner false rows ops = .ok puts) ↔
      (ops.map AppendBatchOp.key).Nodup ∧ ∀ op ∈ ops, Admits rows op := by
  simp only [commitInner, bind_eq_ok, checkDuplicates_eq_ok, filterBatch_eq_ok]
  simp

/-- **After a commit a key has the value it had or the value the batch puts.** -/
theorem getElem?_commitInner (h : commitInner false rows ops = .ok puts) (k : K) (v : V) :
    (putAll rows puts)[k]? = some v ↔ rows[k]? = some v ∨ ⟨k, some v⟩ ∈ ops := by
  simp only [commitInner, bind_eq_ok, checkDuplicates_eq_ok] at h
  obtain ⟨-, ⟨hnodup, -⟩, hfilter⟩ := h
  obtain ⟨hadmits, rfl⟩ := filterBatch_eq_ok.mp hfilter
  have hkeys : ((ops.filterMap (newPut? rows)).map Prod.fst).Nodup := by
    refine List.pairwise_map.mpr (List.pairwise_filterMap.mpr ?_)
    refine (List.pairwise_map.mp hnodup).imp fun hne put hput put' hput' => ?_
    rwa [(newPut?_eq_some.mp hput).1, (newPut?_eq_some.mp hput').1] at hne
  have hmem : ∀ put, put ∈ ops.filterMap (newPut? rows) ↔
      ⟨put.1, some put.2⟩ ∈ ops ∧ rows[put.1]? = none := by
    simp [List.mem_filterMap, newPut?_eq_some]
  rw [putAll, getElem?_foldl_insert hkeys, hmem]
  constructor
  · rintro (⟨hput, -⟩ | ⟨-, hrow⟩)
    · exact .inr hput
    · exact .inl hrow
  · intro h
    cases hrow : rows[k]? with
    | none => exact .inl ⟨h.resolve_left (by simp [hrow]), rfl⟩
    | some w =>
      refine .inr ⟨?_, ?_⟩
      · rintro hk
        obtain ⟨put, hput, rfl⟩ := List.mem_map.mp hk
        rw [((hmem put).mp hput).2] at hrow
        cases hrow
      · rcases h with hold | hput
        · exact hrow ▸ hold
        · obtain ⟨u, hu, hadmitted⟩ := hadmits _ hput
          cases hu
          rw [hadmitted w hrow]

end Ckbadger.Store
