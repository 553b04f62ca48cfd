/-
Ckbadger.Lib.OrderedStore — a key-value store with ordered column families and
atomic write batches.

The abstraction a RocksDB-backed program relies on: each column family is a
finite map from byte strings to byte strings, iterated in byte order; a write
batch is a list of puts, deletes and range deletes that takes effect at once
and in order. Column families are indexed by any type with decidable equality.
-/
import Ckbadger.Lib.Bytes

namespace Ckbadger.Lib

open List hiding getElem?_insert
open Std ExtTreeMap

/-- One column family: byte-ordered keys with their values. -/
abbrev Table := ExtTreeMap Bytes Bytes

/-- A store with one table per column family. -/
@[ext] structure OrderedStore (C : Type) where
  table : C → Table

/-- One operation of a write batch. -/
inductive WriteOp (C : Type) where
  | put (cf : C) (key value : Bytes)
  | delete (cf : C) (key : Bytes)
  /-- Deletes the keys of `[from, to)`. -/
  | deleteRange (cf : C) (lo hi : Bytes)
  deriving DecidableEq

/-- The operations of one atomic write, oldest first. -/
abbrev WriteBatch (C : Type) := List (WriteOp C)

/-- Whether `key` lies in the half-open range `[lo, hi)`. -/
def inRange (lo hi key : Bytes) : Bool :=
  (compare lo key).isLE && (compare key hi).isLT

/-- The entries with key at or after `start`, in key order. -/
def Table.scanFrom (t : Table) (start : Bytes) : List (Bytes × Bytes) :=
  t.toList.filter fun kv => (compare start kv.1).isLE

namespace OrderedStore

variable {C : Type}

/-- The store with no row in any column family. -/
def empty : OrderedStore C := ⟨fun _ => ∅⟩

/-- Point read. -/
def get (s : OrderedStore C) (cf : C) (key : Bytes) : Option Bytes := (s.table cf)[key]?

variable [DecidableEq C]

/-- Replaces one column family. -/
def update (s : OrderedStore C) (cf : C) (t : Table) : OrderedStore C :=
  ⟨Function.update s.table cf t⟩

/-- The effect of one operation. -/
def applyOp (s : OrderedStore C) : WriteOp C → OrderedStore C
  | .put cf key value => s.update cf ((s.table cf).insert key value)
  | .delete cf key => s.update cf ((s.table cf).erase key)
  | .deleteRange cf lo hi => s.update cf ((s.table cf).filter fun key _ => !inRange lo hi key)

/-- Commits a batch: all of its operations, in order, as one step. -/
def write (s : OrderedStore C) (batch : WriteBatch C) : OrderedStore C :=
  batch.foldl applyOp s

end OrderedStore

/-! ## What one key sees of a batch -/

/-- What an operation leaves at `(cf, key)`: `none` if it does not touch that row, otherwise
the row's new content. -/
def WriteOp.effect {C : Type} [DecidableEq C] (cf : C) (key : Bytes) :
    WriteOp C → Option (Option Bytes)
  | .put c k v => if c = cf ∧ k = key then some (some v) else none
  | .delete c k => if c = cf ∧ k = key then some none else none
  | .deleteRange c lo hi => if c = cf ∧ inRange lo hi key then some none else none

/-- The operation that gives a row a content: a put, or a delete when it has none. -/
def WriteOp.set {C : Type} (cf : C) (key : Bytes) : Option Bytes → WriteOp C
  | some v => .put cf key v
  | none => .delete cf key

/-- The content a batch leaves at a row whose content was `v`. -/
def rowAfter {C : Type} [DecidableEq C] (cf : C) (key : Bytes) (v : Option Bytes)
    (batch : WriteBatch C) : Option Bytes :=
  batch.foldl (fun acc op => (op.effect cf key).getD acc) v

namespace OrderedStore

variable {C : Type}

@[simp] theorem get_empty (cf : C) (key : Bytes) : (empty : OrderedStore C).get cf key = none := by
  simp [empty, get]

theorem ext_get {s t : OrderedStore C} (h : ∀ cf key, s.get cf key = t.get cf key) : s = t := by
  ext1
  funext cf
  exact ext_getElem? fun key => h cf key

variable [DecidableEq C]

attribute [local simp] applyOp get update WriteOp.effect

theorem get_applyOp (s : OrderedStore C) (op : WriteOp C) (cf : C) (key : Bytes) :
    (s.applyOp op).get cf key = (op.effect cf key).getD (s.get cf key) := by
  cases op with
  | put c k v =>
    by_cases hc : c = cf
    · subst hc
      by_cases hk : k = key <;>
        simp [getElem?_insert, hk]
    · simp [hc, Function.update_of_ne (Ne.symm hc)]
  | delete c k =>
    by_cases hc : c = cf
    · subst hc
      by_cases hk : k = key <;>
        simp [getElem?_erase, hk]
    · simp [hc, Function.update_of_ne (Ne.symm hc)]
  | deleteRange c lo hi =>
    by_cases hc : c = cf
    · subst hc
      cases hr : inRange lo hi key <;> cases hg : (s.table c)[key]? <;>
        simp [hr, hg]
    · simp [hc, Function.update_of_ne (Ne.symm hc)]

theorem get_write (s : OrderedStore C) (batch : WriteBatch C) (cf : C) (key : Bytes) :
    (s.write batch).get cf key = rowAfter cf key (s.get cf key) batch := by
  induction batch generalizing s with
  | nil => rfl
  | cons op batch ih =>
    rw [write, foldl_cons, ← write, ih, get_applyOp, rowAfter, rowAfter, foldl_cons]

@[simp] theorem write_nil (s : OrderedStore C) : s.write [] = s := rfl

theorem write_append (s : OrderedStore C) (a b : WriteBatch C) :
    s.write (a ++ b) = (s.write a).write b := by
  simp [write]

/-- Committing batches one after another is committing their concatenation. -/
theorem foldl_write (s : OrderedStore C) (batches : List (WriteBatch C)) :
    batches.foldl write s = s.write batches.flatten := by
  induction batches generalizing s with
  | nil => rfl
  | cons b bs ih => rw [foldl_cons, ih, flatten_cons, write_append]

end OrderedStore

/-! ## Reading a batch row by row -/

section Row

variable {C : Type} [DecidableEq C] {cf : C} {key : Bytes}
variable {v : Option Bytes} {rows : List (Bytes × Option Bytes)}

@[simp] theorem WriteOp.effect_set (cf' : C) (key' : Bytes) (v : Option Bytes) :
    (WriteOp.set cf' key' v).effect cf key = if cf' = cf ∧ key' = key then some v else none := by
  cases v <;> rfl

@[simp] theorem rowAfter_nil (v : Option Bytes) : rowAfter cf key v [] = v := rfl

@[simp] theorem rowAfter_cons (v : Option Bytes) (op : WriteOp C) (ops : WriteBatch C) :
    rowAfter cf key v (op :: ops) = rowAfter cf key ((op.effect cf key).getD v) ops := rfl

@[simp] theorem rowAfter_append (v : Option Bytes) (a b : WriteBatch C) :
    rowAfter cf key v (a ++ b) = rowAfter cf key (rowAfter cf key v a) b := by
  simp [rowAfter]

/-- Frame rule: operations that do not touch a row leave it as it was. -/
theorem rowAfter_of_effect_none {ops : WriteBatch C}
    (h : ∀ op ∈ ops, op.effect cf key = none) : rowAfter cf key v ops = v := by
  induction ops with
  | nil => rfl
  | cons op ops ih =>
    rw [rowAfter_cons, h op mem_cons_self]
    exact ih (forall_mem_cons.mp h).2

/-- A row after a batch was there before, or the batch puts it. -/
theorem rowAfter_eq_some {ops : WriteBatch C} {value : Bytes}
    (h : rowAfter cf key v ops = some value) : v = some value ∨ .put cf key value ∈ ops := by
  induction ops generalizing v with
  | nil => exact .inl h
  | cons op ops ih =>
    rcases ih h with hv | hmem
    · cases op with
      | put c k value' =>
        simp only [WriteOp.effect] at hv
        split at hv
        · rename_i hck
          obtain ⟨rfl, rfl⟩ := hck
          cases hv
          exact .inr mem_cons_self
        · exact .inl hv
      | delete | deleteRange =>
        simp only [WriteOp.effect] at hv
        split at hv
        · cases hv
        · exact .inl hv
    · exact .inr (mem_cons_of_mem _ hmem)

theorem rowAfter_isSome {ops : WriteBatch C}
    (h : (rowAfter cf key v ops).isSome) : v.isSome ∨ ∃ value, .put cf key value ∈ ops := by
  obtain ⟨value, hvalue⟩ := Option.isSome_iff_exists.mp h
  exact (rowAfter_eq_some hvalue).imp (fun hv => by simp [hv]) fun hmem => ⟨value, hmem⟩

theorem rowAfter_puts_isSome {α : Type} {rows : List α} {f g : α → Bytes}
    (h : v.isSome ∨ key ∈ rows.map f) :
    (rowAfter cf key v (rows.map fun row => .put cf (f row) (g row))).isSome := by
  induction rows generalizing v with
  | nil => exact h.resolve_right not_mem_nil
  | cons row rows ih =>
    refine ih ?_
    rw [map_cons, mem_cons, ← or_assoc] at h
    refine h.imp_left fun h => ?_
    rcases h with h | rfl
    · simp only [WriteOp.effect]
      split <;> simp [h]
    · simp [WriteOp.effect]

/-- Setting rows of one column family leaves a key none of them names as it was. -/
theorem rowAfter_sets_of_not_mem (h : key ∉ rows.map Prod.fst) :
    rowAfter cf key v (rows.map fun row => WriteOp.set cf row.1 row.2) = v := by
  refine rowAfter_of_effect_none fun op hop => ?_
  obtain ⟨row, hrow, rfl⟩ := mem_map.mp hop
  rw [WriteOp.effect_set, if_neg]
  rintro ⟨-, rfl⟩
  exact h (mem_map_of_mem hrow)

/-- Setting rows with distinct keys gives each key the content set for it. -/
theorem rowAfter_sets_of_mem
    (hnodup : (rows.map Prod.fst).Nodup) {value : Option Bytes} (h : (key, value) ∈ rows)
    (v : Option Bytes) :
    rowAfter cf key v (rows.map fun row => WriteOp.set cf row.1 row.2) = value := by
  obtain ⟨before, after, rfl⟩ := append_of_mem h
  rw [map_append, nodup_append] at hnodup
  have hafter : key ∉ after.map Prod.fst := (nodup_cons.mp hnodup.2.1).1
  rw [map_append, map_cons, rowAfter_append, rowAfter_cons, rowAfter_sets_of_not_mem hafter]
  simp

theorem rowAfter_sets_of_ne {cf' : C} (h : cf' ≠ cf) (v : Option Bytes) :
    rowAfter cf key v (rows.map fun row => WriteOp.set cf' row.1 row.2) = v := by
  refine rowAfter_of_effect_none fun op hop => ?_
  obtain ⟨row, -, rfl⟩ := mem_map.mp hop
  simp [h]

end Row

/-! ## Scans -/

section Scan

variable {t : Table} {start : Bytes}

theorem mem_scanFrom {kv : Bytes × Bytes} :
    kv ∈ t.scanFrom start ↔ t[kv.1]? = some kv.2 ∧ (compare start kv.1).isLE := by
  rw [Table.scanFrom, mem_filter, mem_toList_iff_getElem?_eq_some]

/-- A scan runs in key order, each key once. -/
theorem scanFrom_sorted : (t.scanFrom start).Pairwise fun a b => compare a.1 b.1 = .lt :=
  ordered_keys_toList.filter _

/-- Scanning a table that lost the keys outside `p` is scanning the old one and skipping them. -/
theorem scanFrom_filter {t' : Table} {p : Bytes → Bool}
    (h : ∀ key, t'[key]? = if p key then t[key]? else none) :
    t'.scanFrom start = (t.scanFrom start).filter fun kv => p kv.1 := by
  have ht' : t' = t.filter fun key _ => p key := by
    refine ext_getElem? fun key => ?_
    cases hp : p key <;> cases hv : t[key]? <;>
      simp [h, hv, Option.filter]
  rw [ht', Table.scanFrom, Table.scanFrom, toList_filter, filter_filter, filter_filter]
  congr 1
  funext kv
  exact Bool.and_comm _ _

/-- Resuming a scan after one of its keys continues with the rows that followed it. -/
theorem scanFrom_resume {key v : Bytes} {pre post : List (Bytes × Bytes)}
    (h : t.scanFrom start = pre ++ (key, v) :: post) : t.scanFrom (key ++ [0]) = post := by
  have hkey := (mem_scanFrom.mp (h ▸ mem_append_right pre mem_cons_self :
    (key, v) ∈ t.scanFrom start)).2
  have hpast : t.scanFrom (key ++ [0])
      = (t.scanFrom start).filter fun kv => (compare key kv.1) == .lt := by
    rw [Table.scanFrom, Table.scanFrom, filter_filter]
    refine filter_congr fun kv _ => ?_
    rw [Bool.eq_iff_iff, isLE_compare_snoc_zero]
    simp only [beq_iff_eq, Bool.and_eq_true]
    exact ⟨fun hlt => ⟨hlt, TransCmp.isLE_trans hkey (by rw [hlt]; rfl)⟩, fun hlt => hlt.1⟩
  have hsorted : (t.scanFrom start).Pairwise fun a b => compare a.1 b.1 = .lt := scanFrom_sorted
  rw [h] at hsorted hpast
  obtain ⟨-, hafter, hbefore⟩ := pairwise_append.mp hsorted
  obtain ⟨hpost, -⟩ := pairwise_cons.mp hafter
  have hpre : pre.filter (fun kv => (compare key kv.1) == .lt) = [] := by
    rw [filter_eq_nil_iff]
    intro kv hkv
    have hgt : compare key kv.1 = .gt :=
      OrientedCmp.gt_of_lt (hbefore kv hkv _ mem_cons_self)
    simp [hgt]
  have hkeep : post.filter (fun kv => (compare key kv.1) == .lt) = post := by
    rw [filter_eq_self]
    intro kv hkv
    simp [hpost kv hkv]
  rw [hpast, filter_append, hpre, nil_append, filter_cons_of_neg (by simp), hkeep]

end Scan

end Ckbadger.Lib
