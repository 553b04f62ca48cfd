/-
Ckbadger.Lib.SlotTable — a table of reusable slots with a lookup map and a free
list.

`Inverse` says that a lookup function and a table of optional values are inverse to
each other, `FreeList` that a list holds exactly the empty slots. The three ways a
table changes are a value placed in an empty slot, a value pushed to a new slot and
a slot cleared.
-/
import Mathlib.Algebra.Ring.Nat
import Mathlib.Data.List.Nodup

namespace Ckbadger.Lib

open List

variable {α : Type}

/-- The lookup function finds exactly the values of the table, each in its slot. -/
def Inverse (find : α → Option Nat) (slots : List (Option α)) : Prop :=
  ∀ a i, find a = some i ↔ slots[i]? = some (some a)

/-- The list holds exactly the empty slots, each once. -/
def FreeList (free : List Nat) (slots : List (Option α)) : Prop :=
  free.Nodup ∧ ∀ i, i ∈ free ↔ slots[i]? = some none

variable {find : α → Option Nat} {slots : List (Option α)} {free : List Nat} {a : α} {i : Nat}

theorem getElem?_set_of_some {β : Type} {l : List β} {old : β} (h : l[i]? = some old) (new : β)
    (j : Nat) : (l.set i new)[j]? = if i = j then some new else l[j]? := by
  have hlt : i < l.length := (List.getElem?_eq_some_iff.mp h).1
  rw [List.getElem?_set]
  by_cases hij : i = j
  · subst hij
    rw [if_pos hlt, if_pos rfl]
  · rw [if_neg hij, if_neg hij]

namespace Inverse

variable [DecidableEq α]

theorem place (h : Inverse find slots) (habsent : find a = none) (hempty : slots[i]? = some none) :
    Inverse (Function.update find a (some i)) (slots.set i (some a)) := by
  intro b j
  rw [getElem?_set_of_some hempty, Function.update_apply]
  by_cases hb : b = a
  · subst hb
    have hother : slots[j]? ≠ some (some b) := by
      intro hj
      rw [(h b j).mpr hj] at habsent
      cases habsent
    split <;> simp_all
  · rw [if_neg hb, h b j]
    split
    · rename_i hij
      subst hij
      simp [hempty, Ne.symm hb]
    · rfl

theorem push (h : Inverse find slots) (habsent : find a = none) :
    Inverse (Function.update find a (some slots.length)) (slots ++ [some a]) := by
  intro b j
  rw [Function.update_apply]
  by_cases hb : b = a
  · subst hb
    have hother : slots[j]? ≠ some (some b) := by
      intro hj
      rw [(h b j).mpr hj] at habsent
      cases habsent
    rw [if_pos rfl, getElem?_append]
    split
    · simp only [hother, iff_false]
      intro heq
      cases heq
      omega
    · rw [getElem?_singleton]
      split <;> simp <;> omega
  · rw [if_neg hb, h b j, getElem?_append]
    split
    · rfl
    · rename_i hj
      rw [getElem?_eq_none (Nat.le_of_not_lt hj), getElem?_singleton]
      split <;> simp [Ne.symm hb]

theorem clear (h : Inverse find slots) (hvalue : slots[i]? = some (some a)) :
    Inverse (Function.update find a none) (slots.set i none) := by
  intro b j
  rw [getElem?_set_of_some hvalue, Function.update_apply]
  by_cases hb : b = a
  · subst hb
    rw [if_pos rfl]
    split
    · simp
    · rename_i hij
      simp only [reduceCtorEq, false_iff]
      intro hj
      have hi := (h b i).mpr hvalue
      rw [(h b j).mpr hj] at hi
      cases hi
      exact hij rfl
  · rw [if_neg hb, h b j]
    split
    · rename_i hij
      subst hij
      simp [hvalue, Ne.symm hb]
    · rfl

end Inverse

namespace FreeList

theorem place {rest : List Nat} (h : FreeList (i :: rest) slots) (a : α) :
    FreeList rest (slots.set i (some a)) := by
  obtain ⟨hnodup, hmem⟩ := h
  obtain ⟨hnot, hnodup⟩ := nodup_cons.mp hnodup
  have hempty := (hmem i).mp mem_cons_self
  refine ⟨hnodup, fun j => ?_⟩
  rw [getElem?_set_of_some hempty]
  split
  · rename_i hij
    subst hij
    simp [hnot]
  · rename_i hij
    rw [← hmem j, mem_cons, or_iff_right (Ne.symm hij)]

theorem push (h : FreeList free slots) (a : α) : FreeList free (slots ++ [some a]) := by
  refine ⟨h.1, fun j => ?_⟩
  rw [h.2 j, getElem?_append]
  split
  · rfl
  · rename_i hj
    rw [getElem?_eq_none (Nat.le_of_not_lt hj), getElem?_singleton]
    split <;> simp

theorem clear (h : FreeList free slots) (hvalue : slots[i]? = some (some a)) :
    FreeList (i :: free) (slots.set i none) := by
  have hnot : i ∉ free := by
    rw [h.2 i, hvalue]
    simp
  refine ⟨nodup_cons.mpr ⟨hnot, h.1⟩, fun j => ?_⟩
  rw [getElem?_set_of_some hvalue, mem_cons, h.2 j]
  split
  · rename_i hij
    subst hij
    simp
  · rename_i hij
    rw [or_iff_right (Ne.symm hij)]

end FreeList

theorem sum_map_set {β : Type} {l : List β} {old : β} (w : β → Nat) (h : l[i]? = some old)
    (new : β) : ((l.set i new).map w).sum + w old = (l.map w).sum + w new := by
  induction l generalizing i with
  | nil => simp at h
  | cons b l ih =>
    cases i with
    | zero =>
      simp only [getElem?_cons_zero, Option.some.injEq] at h
      subst h
      simp only [set_cons_zero, map_cons, sum_cons]
      omega
    | succ i =>
      have := ih (getElem?_cons_succ ▸ h)
      simp only [set_cons_succ, map_cons, sum_cons]
      omega

end Ckbadger.Lib
