/-
Ckbadger.Lib.Staging — reads through writes that are staged but not yet committed.

A batch keeps, for every key it wrote, the value it last put there, or that it deleted
the key. A read looks there first and falls back to the committed rows. Staging a write
keeps such reads equal to reads of the rows with the write applied.
-/
import Ckbadger.Lib.Journal
import Std.Data.ExtTreeMap
import Mathlib.Data.List.Basic

namespace Ckbadger.Lib

open Std ExtTreeMap

variable {K V : Type} [Ord K] [TransOrd K]

/-- A read through the staged writes. -/
def readThrough (pending : ExtTreeMap K (Option V)) (rows : ExtTreeMap K V) (k : K) : Option V :=
  match pending[k]? with
  | some staged => staged
  | none => rows[k]?

@[simp] theorem readThrough_empty (rows : ExtTreeMap K V) (k : K) :
    readThrough (∅ : ExtTreeMap K (Option V)) rows k = rows[k]? := by
  simp [readThrough]

theorem nodup_map_fst_toList (rows : ExtTreeMap K V) : (rows.toList.map Prod.fst).Nodup := by
  rw [map_fst_toList_eq_keys]
  exact nodup_keys

variable [LawfulEqOrd K] [DecidableEq K]

theorem getElem?_insert_ite (rows : ExtTreeMap K V) (k x : K) (v : V) :
    (rows.insert k v)[x]? = if k = x then some v else rows[x]? := by
  simp [getElem?_insert]

theorem getElem?_insert_of_ne {rows : ExtTreeMap K V} {k x : K} {v : V} (h : k ≠ x) :
    (rows.insert k v)[x]? = rows[x]? := by
  rw [getElem?_insert_ite, if_neg h]

/-- A row read after an insert is the inserted one, or another key's old one. -/
theorem getElem?_insert_eq_some {rows : ExtTreeMap K V} {k x : K} {v w : V} :
    (rows.insert k v)[x]? = some w ↔ k = x ∧ v = w ∨ k ≠ x ∧ rows[x]? = some w := by
  rw [getElem?_insert_ite]
  split <;> simp [*]

/-- What holds at every key of a map holds after an insert at such a key. -/
theorem forall_key_insert {rows : ExtTreeMap K V} {P : K → Prop} (h : ∀ x, rows[x]? ≠ none → P x)
    {k : K} (hk : P k) (v : V) : ∀ x, (rows.insert k v)[x]? ≠ none → P x := by
  intro x hx
  rw [getElem?_insert_ite] at hx
  split at hx
  · rename_i heq
    exact heq ▸ hk
  · exact h x hx

theorem getElem?_erase_ite (rows : ExtTreeMap K V) (k x : K) :
    (rows.erase k)[x]? = if k = x then none else rows[x]? := by
  simp [getElem?_erase]

/-- Restores one pre-image; `none` deletes the row. -/
def restoreRow (r : Journal.Record K V) (rows : ExtTreeMap K V) : ExtTreeMap K V :=
  match r.pre with
  | some row => rows.insert r.key row
  | none => rows.erase r.key

/-- Undo replay of a table's rows is that of the journal. -/
theorem getElem?_foldr_restoreRow (rows : ExtTreeMap K V) (records : List (Journal.Record K V))
    (k : K) : (records.foldr restoreRow rows)[k]? = Journal.undo (fun k => rows[k]?) records k := by
  induction records with
  | nil => rfl
  | cons r records ih =>
    rcases hpre : r.pre with _ | row
    · simp [restoreRow, hpre, getElem?_erase_ite, Function.update_apply, eq_comm, ih]
    · simp [restoreRow, hpre, getElem?_insert_ite, Function.update_apply, eq_comm, ih]

omit [DecidableEq K] in
theorem getElem?_filter_ite (rows : ExtTreeMap K V) (p : K → Bool) (x : K) :
    (rows.filter fun k _ => p k)[x]? = if p x then rows[x]? else none := by
  simp only [getElem?_filter, getKey_eq]
  cases hp : p x with
  | false => simp
  | true => cases rows[x]? <;> simp

/-- A staged write shadows the key it is for and no other. -/
theorem readThrough_insert (pending : ExtTreeMap K (Option V)) (rows : ExtTreeMap K V)
    (k x : K) (staged : Option V) :
    readThrough (pending.insert k staged) rows x
      = if k = x then staged else readThrough pending rows x := by
  by_cases hkey : k = x
  · simp [readThrough, hkey]
  · simp [readThrough, getElem?_insert_ite, hkey]

variable {pending : ExtTreeMap K (Option V)} {rows committed : ExtTreeMap K V}

theorem readThrough_put (h : ∀ x, readThrough pending rows x = committed[x]?) (k : K) (v : V) :
    ∀ x, readThrough (pending.insert k (some v)) rows x = (committed.insert k v)[x]? := by
  intro x
  rw [readThrough_insert, getElem?_insert_ite, h x]

theorem readThrough_delete (h : ∀ x, readThrough pending rows x = committed[x]?) (k : K) :
    ∀ x, readThrough (pending.insert k none) rows x = (committed.erase k)[x]? := by
  intro x
  rw [readThrough_insert, getElem?_erase_ite, h x]

/-! ## The rows of a map as a list -/

omit [DecidableEq K] in
theorem map_snd_toList (rows : ExtTreeMap K V) :
    rows.toList.map Prod.snd = rows.keys.filterMap (rows[·]?) := by
  rw [← map_fst_toList_eq_keys, List.filterMap_map, ← List.filterMap_eq_map]
  refine List.filterMap_congr fun row hrow => ?_
  exact (mem_toList_iff_getElem?_eq_some.mp hrow).symm

end Ckbadger.Lib
