/-
Ckbadger.Lib.FiniteMap — finite maps and sums over their entries.

A hash map whose iteration order is not observed is a `Finmap`. `weight` sums a
value over the entries; an insertion of a new key adds the entry's value, an erasure
takes it away.
-/
import Mathlib.Data.Finmap
import Mathlib.Algebra.Order.BigOperators.Group.Multiset
import Mathlib.Algebra.Order.Ring.Nat

namespace Ckbadger.Lib

open Finmap List

/-- A map with finitely many keys. -/
abbrev FinMap (K V : Type) := Finmap fun _ : K => V

namespace FinMap

variable {K V M : Type} [AddCommMonoid M]

/-- The sum of a value over the entries. -/
def weight (w : K → V → M) (m : FinMap K V) : M := (m.entries.map fun e => w e.1 e.2).sum

variable {w : K → V → M} {m : FinMap K V} {k : K} {v : V}

@[simp] theorem weight_empty : weight w (∅ : FinMap K V) = 0 := rfl

theorem weight_add (w w' : K → V → M) (m : FinMap K V) :
    weight (fun x v => w x v + w' x v) m = weight w m + weight w' m :=
  Multiset.sum_map_add

theorem weight_le {w w' : K → V → Nat} (h : ∀ x v, w x v ≤ w' x v) : weight w m ≤ weight w' m :=
  Multiset.sum_map_le_sum_map _ _ fun e _ => h e.1 e.2

variable [DecidableEq K]
variable {key : V → K} {vs : List V}

theorem weight_insert (h : m.lookup k = none) (v : V) :
    weight w (m.insert k v) = w k v + weight w m := by
  rw [weight, entries_insert_of_notMem (lookup_eq_none.mp h), Multiset.map_cons, Multiset.sum_cons]
  rfl

theorem insert_erase (h : m.lookup k = some v) : (m.erase k).insert k v = m := by
  refine ext_lookup fun x => ?_
  by_cases hx : x = k
  · subst hx
    rw [lookup_insert, h]
  · rw [lookup_insert_of_ne _ hx, lookup_erase_ne hx]

theorem weight_erase (h : m.lookup k = some v) : weight w m = w k v + weight w (m.erase k) := by
  conv_lhs => rw [← insert_erase h]
  exact weight_insert (lookup_erase k m) v

theorem lookup_insert_apply (m : FinMap K V) (k x : K) (v : V) :
    (m.insert k v).lookup x = if x = k then some v else m.lookup x := by
  split
  · rename_i hx
    subst hx
    exact lookup_insert m
  · rename_i hx
    exact lookup_insert_of_ne m hx

theorem lookup_erase_apply (m : FinMap K V) (k x : K) :
    (m.erase k).lookup x = if x = k then none else m.lookup x := by
  split
  · rename_i hx
    subst hx
    exact lookup_erase x m
  · rename_i hx
    exact lookup_erase_ne hx

theorem weight_eq_zero (h : ∀ x v, m.lookup x = some v → w x v = 0) : weight w m = 0 := by
  refine Multiset.sum_eq_zero fun n hn => ?_
  obtain ⟨e, he, rfl⟩ := Multiset.mem_map.mp hn
  exact h e.1 e.2 (mem_lookup_iff.mpr he)

theorem weight_key (m : FinMap K V) (k : K) :
    weight (fun x _ => if x = k then 1 else 0) m = if (m.lookup k).isSome then 1 else 0 := by
  have hother : ∀ m' : FinMap K V, m'.lookup k = none →
      weight (fun x _ => if x = k then 1 else 0) m' = 0 := by
    intro m' hm
    refine weight_eq_zero fun x v hx => if_neg ?_
    intro hxk
    rw [hxk, hm] at hx
    cases hx
  cases hk : m.lookup k with
  | none => exact hother m hk
  | some v => rw [weight_erase hk, hother _ (lookup_erase k m)]; simp

/-! ## Many keys at once -/

def eraseAll (m : FinMap K V) (ks : List K) : FinMap K V := ks.foldl (fun m k => m.erase k) m

/-- Inserts values at their own keys. -/
def insertAll (key : V → K) (m : FinMap K V) (vs : List V) : FinMap K V :=
  vs.foldl (fun m v => m.insert (key v) v) m

@[simp] theorem eraseAll_nil : eraseAll m [] = m := rfl

@[simp] theorem eraseAll_cons (ks : List K) : eraseAll m (k :: ks) = eraseAll (m.erase k) ks := rfl

@[simp] theorem insertAll_nil (key : V → K) : insertAll key m [] = m := rfl

@[simp] theorem insertAll_cons (key : V → K) (vs : List V) :
    insertAll key m (v :: vs) = insertAll key (m.insert (key v) v) vs := rfl

theorem lookup_eraseAll (m : FinMap K V) (ks : List K) (x : K) :
    (eraseAll m ks).lookup x = if x ∈ ks then none else m.lookup x := by
  induction ks generalizing m with
  | nil => simp
  | cons k ks ih =>
    rw [eraseAll_cons, ih, lookup_erase_apply]
    by_cases hx : x = k
    · simp [hx]
    · simp [hx]

theorem lookup_of_eraseAll {m : FinMap K V} {ks : List K} {x : K} {v : V}
    (h : (eraseAll m ks).lookup x = some v) : m.lookup x = some v := by
  rw [lookup_eraseAll] at h
  split at h
  · cases h
  · exact h

theorem lookup_insertAll {x : K}
    (h : (insertAll key m vs).lookup x = some v) : (v ∈ vs ∧ key v = x) ∨ m.lookup x = some v := by
  induction vs generalizing m with
  | nil => exact .inr h
  | cons v' vs ih =>
    rcases ih h with ⟨hmem, hkey⟩ | hfound
    · exact .inl ⟨mem_cons_of_mem _ hmem, hkey⟩
    · rw [lookup_insert_apply] at hfound
      split at hfound
      · rename_i hx
        cases hfound
        exact .inl ⟨mem_cons_self, hx.symm⟩
      · exact .inr hfound

/-- Keys that are there and distinct leave with their values. -/
theorem weight_eraseAll {u : K → M} {ks : List K} (hnodup : ks.Nodup)
    (hlive : ∀ x ∈ ks, (m.lookup x).isSome) :
    weight (fun x _ => u x) m = (ks.map u).sum + weight (fun x _ => u x) (eraseAll m ks) := by
  induction ks generalizing m with
  | nil => simp
  | cons k ks ih =>
    obtain ⟨hk, hnodup⟩ := nodup_cons.mp hnodup
    obtain ⟨v, hv⟩ := Option.isSome_iff_exists.mp (hlive k mem_cons_self)
    have hrest : ∀ x ∈ ks, ((m.erase k).lookup x).isSome := by
      intro x hx
      rw [lookup_erase_apply, if_neg (fun hxk : x = k => hk (hxk ▸ hx))]
      exact hlive x (mem_cons_of_mem _ hx)
    rw [weight_erase hv, ih hnodup hrest, eraseAll_cons, map_cons, sum_cons, add_assoc]

/-- Values that are at their own keys, and distinct, leave together. -/
theorem weight_eraseAll_values (hnodup : (vs.map key).Nodup)
    (hlive : ∀ v ∈ vs, m.lookup (key v) = some v) :
    weight w m = (vs.map fun v => w (key v) v).sum + weight w (eraseAll m (vs.map key)) := by
  induction vs generalizing m with
  | nil => simp
  | cons v vs ih =>
    obtain ⟨hv, hnodup⟩ := nodup_cons.mp hnodup
    have hrest : ∀ v' ∈ vs, (m.erase (key v)).lookup (key v') = some v' := by
      intro v' hv'
      rw [lookup_erase_apply, if_neg]
      · exact hlive v' (mem_cons_of_mem _ hv')
      · intro hkey
        exact hv (hkey ▸ mem_map_of_mem hv')
    rw [weight_erase (hlive v mem_cons_self), ih hnodup hrest]
    simp [add_assoc]

theorem lookup_insertAll_of_notMem {x : K} (h : x ∉ vs.map key) :
    (insertAll key m vs).lookup x = m.lookup x := by
  induction vs generalizing m with
  | nil => rfl
  | cons v vs ih =>
    rw [map_cons, mem_cons, not_or] at h
    rw [insertAll_cons, ih h.2, lookup_insert_apply, if_neg h.1]

theorem lookup_insertAll_of_mem (hnodup : (vs.map key).Nodup)
    (hv : v ∈ vs) : (insertAll key m vs).lookup (key v) = some v := by
  induction vs generalizing m with
  | nil => cases hv
  | cons v' vs ih =>
    obtain ⟨hhead, hnodup⟩ := nodup_cons.mp hnodup
    rw [insertAll_cons]
    rcases mem_cons.mp hv with rfl | hv
    · rw [lookup_insertAll_of_notMem hhead, lookup_insert_apply, if_pos rfl]
    · exact ih hnodup hv

theorem insertAll_append (key : V → K) (vs vs' : List V) :
    insertAll key m (vs ++ vs') = insertAll key (insertAll key m vs) vs' := by
  simp [insertAll]

theorem eraseAll_append (ks ks' : List K) :
    eraseAll m (ks ++ ks') = eraseAll (eraseAll m ks) ks' := by
  simp [eraseAll]

/-- New keys that are distinct add their values. -/
theorem weight_insertAll (hnodup : (vs.map key).Nodup)
    (hfresh : ∀ v ∈ vs, m.lookup (key v) = none) :
    weight w (insertAll key m vs) = weight w m + (vs.map fun v => w (key v) v).sum := by
  induction vs generalizing m with
  | nil => simp
  | cons v vs ih =>
    obtain ⟨hv, hnodup⟩ := nodup_cons.mp hnodup
    have hrest : ∀ v' ∈ vs, (m.insert (key v) v).lookup (key v') = none := by
      intro v' hv'
      rw [lookup_insert_apply, if_neg]
      · exact hfresh v' (mem_cons_of_mem _ hv')
      · intro hkey
        exact hv (hkey ▸ mem_map_of_mem hv')
    rw [insertAll_cons, ih hnodup hrest, weight_insert (hfresh v mem_cons_self),
      map_cons, sum_cons, add_comm (w (key v) v), add_assoc]

end FinMap

end Ckbadger.Lib
