/-
Ckbadger.Lib.MapSum — sums over the entries of a map.

The sum of a weight over all entries of a map, and how it changes when one entry is
inserted or replaced. A map of numbers that counts a missing key as zero is read by
`tally`.
-/
import Ckbadger.Lib.Staging
import Mathlib.Algebra.Order.BigOperators.Group.List
import Mathlib.Algebra.Order.Ring.Int
import Mathlib.Data.List.Nodup

namespace Ckbadger.Lib

open Std ExtTreeMap

variable {K V M : Type} [Ord K] [TransOrd K]

/-- The sum of a weight over the entries of a map. -/
def mapSum [Zero M] [Add M] (weight : K → V → M) (rows : ExtTreeMap K V) : M :=
  (rows.toList.map fun row => weight row.1 row.2).sum

@[simp] theorem mapSum_empty [Zero M] [Add M] (weight : K → V → M) :
    mapSum weight (∅ : ExtTreeMap K V) = 0 := by
  rfl

theorem nodup_toList (rows : ExtTreeMap K V) : rows.toList.Nodup :=
  (nodup_map_fst_toList rows).of_map _

section

variable [LawfulEqOrd K] [DecidableEq K]
variable {rows : ExtTreeMap K V} {k : K}

/-- An entry of a map, and the others. -/
theorem toList_perm_erase {v : V} (h : rows[k]? = some v) :
    rows.toList.Perm ((k, v) :: (rows.erase k).toList) := by
  have hnot : (k, v) ∉ (rows.erase k).toList := by
    simp
  refine (List.perm_ext_iff_of_nodup (nodup_toList rows)
    (List.nodup_cons.mpr ⟨hnot, nodup_toList _⟩)).mpr fun row => ?_
  obtain ⟨k', v'⟩ := row
  rw [List.mem_cons, mem_toList_iff_getElem?_eq_some,
    mem_toList_iff_getElem?_eq_some, getElem?_erase_ite]
  by_cases hkey : k = k'
  · subst hkey
    simp [h, eq_comm]
  · simp [hkey, Ne.symm hkey]

theorem erase_eq_self (h : rows[k]? = none) : rows.erase k = rows := by
  refine ext_getElem? fun x => ?_
  rw [getElem?_erase_ite]
  split
  · rename_i hkey
    rw [← hkey, h]
  · rfl

theorem erase_insert_self (rows : ExtTreeMap K V) (k : K) (v : V) :
    (rows.insert k v).erase k = rows.erase k := by
  refine ext_getElem? fun x => ?_
  rw [getElem?_erase_ite, getElem?_erase_ite, getElem?_insert_ite]
  split <;> rfl

variable [AddCommMonoid M]

theorem mapSum_eq_add_erase (weight : K → V → M) {v : V}
    (h : rows[k]? = some v) : mapSum weight rows = weight k v + mapSum weight (rows.erase k) := by
  simp only [mapSum]
  rw [((toList_perm_erase h).map fun row => weight row.1 row.2).sum_eq]
  simp

theorem mapSum_insert_new (weight : K → V → M) (h : rows[k]? = none) (v : V) :
    mapSum weight (rows.insert k v) = weight k v + mapSum weight rows := by
  have hnew : (rows.insert k v)[k]? = some v := by simp
  rw [mapSum_eq_add_erase weight hnew, erase_insert_self, erase_eq_self h]

theorem mapSum_insert_replace (weight : K → V → M) {old : V} (h : rows[k]? = some old) (v : V) :
    mapSum weight (rows.insert k v) + weight k old = weight k v + mapSum weight rows := by
  have hnew : (rows.insert k v)[k]? = some v := by simp
  rw [mapSum_eq_add_erase weight hnew, erase_insert_self, mapSum_eq_add_erase weight h]
  ac_rfl

end

theorem mapSum_nonneg {weight : K → V → Int} (h : ∀ k v, 0 ≤ weight k v)
    (rows : ExtTreeMap K V) : 0 ≤ mapSum weight rows := by
  refine List.sum_nonneg fun c hc => ?_
  obtain ⟨row, -, rfl⟩ := List.mem_map.mp hc
  exact h row.1 row.2

/-- The entries of a list, written one after another. -/
theorem getElem?_foldl_insert [LawfulEqOrd K] [DecidableEq K] {entries : List (K × V)}
    (hnodup : (entries.map Prod.fst).Nodup) (rows : ExtTreeMap K V) (k : K) (v : V) :
    (entries.foldl (fun rows e => rows.insert e.1 e.2) rows)[k]? = some v ↔
      (k, v) ∈ entries ∨ k ∉ entries.map Prod.fst ∧ rows[k]? = some v := by
  induction entries generalizing rows with
  | nil => simp
  | cons e entries ih =>
    rw [List.map_cons, List.nodup_cons] at hnodup
    rw [List.foldl_cons, ih hnodup.2, getElem?_insert_ite]
    by_cases hkey : e.1 = k
    · have hmem : (k, v) ∉ entries := fun hmem =>
        hnodup.1 (hkey ▸ List.mem_map_of_mem hmem)
      have hfresh : k ∉ entries.map Prod.fst := hkey ▸ hnodup.1
      obtain ⟨k', v'⟩ := e
      obtain rfl : k' = k := hkey
      simp [hmem, hfresh, eq_comm]
    · have hne : ∀ w, (k, w) ≠ e := fun w heq => hkey (heq ▸ rfl)
      simp [hkey, hne v, Ne.symm hkey]

/-- A key is found after writes exactly when it was there or is one of theirs. -/
theorem isSome_foldl_insert [LawfulEqOrd K] [DecidableEq K] {α : Type} {key : α → K} {val : α → V}
    {as : List α} {rows : ExtTreeMap K V} {k : K} :
    (as.foldl (fun rows a => rows.insert (key a) (val a)) rows)[k]?.isSome ↔
      k ∈ as.map key ∨ rows[k]?.isSome := by
  induction as generalizing rows with
  | nil => simp
  | cons a as ih =>
    rw [List.foldl_cons, ih, getElem?_insert_ite]
    by_cases hk : key a = k
    · simp [hk]
    · simp [hk, Ne.symm hk]

/-! ## Maps of numbers -/

/-- The number under a key, zero when there is none. -/
def tally (rows : ExtTreeMap K Int) (k : K) : Int := rows.getD k 0

@[simp] theorem tally_empty (k : K) : tally (∅ : ExtTreeMap K Int) k = 0 := by
  simp [tally]

theorem tally_insert [LawfulEqOrd K] [DecidableEq K] (rows : ExtTreeMap K Int) (k x : K)
    (v : Int) : tally (rows.insert k v) x = if k = x then v else tally rows x := by
  simp [tally, getD_insert]

end Ckbadger.Lib
