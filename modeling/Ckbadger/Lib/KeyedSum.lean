/-
Ckbadger.Lib.KeyedSum — signed component vectors and their sums by key.

A contribution is a key with a vector of integers. The value of a key is the
component-wise sum of its contributions, read as a function of the component's
index that is zero past the end of the vector: such functions form a group, so
the order and the grouping of contributions do not matter.
-/
import Mathlib.Algebra.BigOperators.Group.List.Basic
import Mathlib.Algebra.Group.Pi.Basic
import Mathlib.Algebra.Ring.Int.Defs

namespace Ckbadger.Lib.KeyedSum

open List

variable {v : List Int}

/-- The components of a vector, zero past its end. -/
def comps (v : List Int) : Nat → Int := fun i => v.getD i 0

@[simp] theorem comps_nil : comps [] = 0 := by
  funext i
  simp [comps]

theorem comps_apply_of_length_le {i : Nat} (h : v.length ≤ i) : comps v i = 0 := by
  simp [comps, getElem?_eq_none h]

@[simp] theorem comps_replicate_zero (n : Nat) : comps (List.replicate n 0) = 0 := by
  funext i
  by_cases h : i < n
  · simp [comps, h]
  · simp [comps, h]

theorem comps_zipWith_add {a b : List Int} (h : a.length = b.length) :
    comps (List.zipWith (· + ·) a b) = comps a + comps b := by
  funext i
  by_cases hi : i < a.length
  · have hb : i < b.length := h ▸ hi
    simp only [comps, Pi.add_apply, getD_eq_getElem?_getD, getElem?_zipWith, getElem?_eq_getElem hi,
      getElem?_eq_getElem hb, Option.getD_some]
  · have ha : a.length ≤ i := not_lt.mp hi
    simp only [comps, Pi.add_apply, getD_eq_getElem?_getD, getElem?_zipWith, getElem?_eq_none ha,
      getElem?_eq_none (h ▸ ha), Option.getD_none, add_zero]

/-- A vector whose components are all zero is zero as a function, and conversely. -/
theorem comps_eq_zero_iff : comps v = 0 ↔ ∀ c ∈ v, c = 0 := by
  constructor
  · intro h c hc
    obtain ⟨i, hi, rfl⟩ := mem_iff_getElem.mp hc
    have := congrFun h i
    simpa [comps, hi] using this
  · intro h
    funext i
    by_cases hi : i < v.length
    · simpa [comps, hi] using h _ (getElem_mem hi)
    · simp [comps, hi]

variable {K : Type} [DecidableEq K] {cs : List (K × List Int)} {k : K}

/-- The value of a key: the sum of its contributions. -/
def total (cs : List (K × List Int)) (k : K) : Nat → Int :=
  (cs.map fun c => if c.1 = k then comps c.2 else 0).sum

@[simp] theorem total_nil (k : K) : total [] k = 0 := rfl

theorem total_cons (c : K × List Int) (cs : List (K × List Int)) (k : K) :
    total (c :: cs) k = (if c.1 = k then comps c.2 else 0) + total cs k := by
  simp [total]

@[simp] theorem total_append (cs ds : List (K × List Int)) (k : K) :
    total (cs ++ ds) k = total cs k + total ds k := by
  simp [total]

theorem total_of_not_mem (h : ∀ c ∈ cs, c.1 ≠ k) : total cs k = 0 := by
  induction cs with
  | nil => rfl
  | cons c cs ih =>
    rw [total_cons, if_neg (h c mem_cons_self), zero_add]
    exact ih (forall_mem_cons.mp h).2

theorem total_of_mem_nodup (hnodup : (cs.map Prod.fst).Nodup)
    (h : (k, v) ∈ cs) : total cs k = comps v := by
  obtain ⟨before, after, rfl⟩ := append_of_mem h
  rw [map_append, map_cons, nodup_append, nodup_cons] at hnodup
  obtain ⟨-, ⟨hafter, -⟩, hbefore⟩ := hnodup
  have hb : total before k = 0 := total_of_not_mem fun c hc heq =>
    hbefore c.1 (mem_map_of_mem hc) k mem_cons_self heq
  have ha : total after k = 0 := total_of_not_mem fun c hc heq =>
    hafter (mem_map.mpr ⟨c, hc, heq⟩)
  rw [total_append, total_cons, if_pos rfl, hb, ha, zero_add, add_zero]

/-- Splitting a selection in two splits its value. -/
theorem total_filter_or {α : Type} (es : List α) (g : α → K × List Int) (p q : α → Bool)
    (hdisjoint : ∀ e ∈ es, p e = true → q e = false) (k : K) :
    total ((es.filter fun e => p e || q e).map g) k
      = total ((es.filter p).map g) k + total ((es.filter q).map g) k := by
  induction es with
  | nil => simp
  | cons e es ih =>
    have hrest := ih (forall_mem_cons.mp hdisjoint).2
    cases hp : p e with
    | true =>
      have hq := hdisjoint e mem_cons_self hp
      simp [hp, hq, total_cons, hrest, add_assoc]
    | false =>
      cases hq : q e with
      | true =>
        simp [hp, hq, total_cons, hrest, add_left_comm]
      | false =>
        simp [hp, hq, hrest]

/-- A component past the end of every contribution of a key is zero. -/
theorem total_apply_of_length_le {i : Nat}
    (h : ∀ c ∈ cs, c.1 = k → c.2.length ≤ i) : total cs k i = 0 := by
  induction cs with
  | nil => rfl
  | cons c cs ih =>
    rw [total_cons, Pi.add_apply, ih (forall_mem_cons.mp h).2, add_zero]
    split
    · exact comps_apply_of_length_le (h c mem_cons_self (by assumption))
    · rfl

end Ckbadger.Lib.KeyedSum
