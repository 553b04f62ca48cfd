/-
Ckbadger.Lib.Journal — rolling a keyed state back through a journal of
pre-images.

A journal lists, oldest first, records `(time, key, pre)`: at that time the key
was about to be written and held `pre`. Undoing applies the records newest
first, so the oldest record of a key decides its final content. The main lemma
says when that content is the key's state at an earlier time: every record
holds the state just before its time, and every time the key changed has a
record.
-/
import Mathlib.Order.Interval.Set.Basic
import Mathlib.Data.Int.Init

namespace Ckbadger.Lib.Journal

open List

variable {K V : Type}

/-- A pre-image: what `key` held when it was first written at `time`. -/
structure Record (K V : Type) where
  time : Int
  key : K
  pre : Option V

variable [DecidableEq K]
variable {m : K → Option V} {journal : List (Record K V)} {k : K}

/-- Restores the pre-images of a journal, newest record first. -/
def undo (m : K → Option V) (journal : List (Record K V)) : K → Option V :=
  journal.foldr (fun r acc => Function.update acc r.key r.pre) m

@[simp] theorem undo_cons (m : K → Option V) (r : Record K V) (journal : List (Record K V)) :
    undo m (r :: journal) = Function.update (undo m journal) r.key r.pre := rfl

/-- A key no record names keeps its content. -/
theorem undo_of_not_mem (h : ∀ r ∈ journal, r.key ≠ k) : undo m journal k = m k := by
  induction journal with
  | nil => rfl
  | cons r journal ih =>
    rw [undo_cons, Function.update_of_ne (h r mem_cons_self).symm]
    exact ih (forall_mem_cons.mp h).2

/-- The oldest record of a key decides its content after the undo. -/
theorem undo_of_first {before after : List (Record K V)} {r : Record K V}
    (h : ∀ r' ∈ before, r'.key ≠ r.key) : undo m (before ++ r :: after) r.key = r.pre := by
  induction before with
  | nil => simp
  | cons r' before ih =>
    rw [cons_append, undo_cons, Function.update_of_ne (h r' mem_cons_self).symm]
    exact ih fun r'' hr'' => h r'' (mem_cons_of_mem _ hr'')

/-- Only the records of a key matter to it. -/
theorem undo_filter_key (m : K → Option V) (journal : List (Record K V)) (k : K) :
    undo m (journal.filter fun r => r.key = k) k = undo m journal k := by
  induction journal with
  | nil => rfl
  | cons r journal ih =>
    rw [undo_cons, filter_cons]
    by_cases hkey : r.key = k
    · rw [if_pos (decide_eq_true hkey), undo_cons, ← hkey, Function.update_self,
        Function.update_self]
    · rw [if_neg (by simpa using hkey), Function.update_of_ne (Ne.symm hkey), ih]

omit [DecidableEq K] in
/-- A quantity that no step between two times changes is the same at both. -/
theorem eq_of_no_change {version : Int → V} {a b : Int} (hab : a ≤ b)
    (h : ∀ t, a < t → t ≤ b → version t = version (t - 1)) : version b = version a := by
  induction b, hab using Int.leInduction with
  | base => rfl
  | succ n hn ih =>
    have hstep := h (n + 1) (by omega) le_rfl
    rw [hstep, show n + 1 - 1 = n by omega]
    exact ih fun t hlt hle => h t hlt (by omega)

section Version

variable {version : Int → Option V} {target tip : Int} (htip : target ≤ tip)
  (hm : m k = version tip) (hsorted : journal.Pairwise fun a b => a.time ≤ b.time)
  (hpre : ∀ r ∈ journal, r.key = k → target < r.time ∧ r.pre = version (r.time - 1))

include htip hm hsorted hpre

/-- Undoing a journal that records only the changes of a part `f` of the state: each of its records
on `k` is later than `target` and holds the whole state just before its time, and every time
after `target` at which the part changed has a record. The key ends in a state it had since,
whose part is that of the target. -/
theorem undo_eq_version_map {W : Type} (f : V → W)
    (hcover : ∀ t, target < t → (version t).map f ≠ (version (t - 1)).map f →
      ∃ r ∈ journal, r.key = k ∧ r.time = t) :
    ∃ t, target ≤ t ∧ undo m journal k = version t ∧
      (version t).map f = (version target).map f := by
  rcases hfind : journal.find? (fun r => r.key = k) with _ | r
  · -- no record of `k`: its part never changed since the target
    have hnone : ∀ r ∈ journal, r.key ≠ k := by
      simpa using find?_eq_none.mp hfind
    refine ⟨tip, htip, by rw [undo_of_not_mem hnone, hm], ?_⟩
    refine @eq_of_no_change (Option W) (fun t => (version t).map f) _ _ htip fun t hlt _ => ?_
    by_contra hne
    obtain ⟨r, hr, hk, -⟩ := hcover t hlt hne
    exact hnone r hr hk
  · obtain ⟨hrk, before, after, rfl, hbefore⟩ := find?_eq_some_iff_append.mp hfind
    have hrk : r.key = k := by simpa using hrk
    have hbefore : ∀ r' ∈ before, r'.key ≠ k := by simpa using hbefore
    subst hrk
    obtain ⟨hlate, hval⟩ := hpre r (by simp) rfl
    refine ⟨r.time - 1, by omega, by rw [undo_of_first hbefore, hval], ?_⟩
    -- the part did not change strictly between the target and the first record of `k`
    refine @eq_of_no_change (Option W) (fun t => (version t).map f) _ _ (by omega)
      fun t hlt hle => ?_
    by_contra hne
    obtain ⟨r', hr', hk', htime⟩ := hcover t hlt hne
    rcases mem_append.mp hr' with hb | hb
    · exact hbefore r' hb hk'
    · rcases mem_cons.mp hb with rfl | hb
      · omega
      · have hafter := (pairwise_append.mp hsorted).2.1
        have := (pairwise_cons.mp hafter).1 r' hb
        omega

/-- **Undoing a journal restores a key's earlier state.** The journal is in time order, each of
its records on `k` is later than `target` and holds the state just before its time, and every
time after `target` at which `k` changed has a record. -/
theorem undo_eq_version
    (hcover : ∀ t, target < t → version t ≠ version (t - 1) → ∃ r ∈ journal, r.key = k ∧ r.time = t) :
    undo m journal k = version target := by
  obtain ⟨t, -, hundo, hversion⟩ := undo_eq_version_map htip hm hsorted hpre id
    (by simpa only [Option.map_id_fun, id_eq] using hcover)
  rw [hundo]
  simpa only [Option.map_id_fun, id_eq] using hversion

end Version

end Ckbadger.Lib.Journal
