/-
Ckbadger.Lib.PrefixScan — scans of the keys under a prefix.

The keys that start with a prefix are contiguous in byte order, so a scan that stops
at the first key outside it has seen them all.
-/
import Ckbadger.Lib.OrderedStore

namespace Ckbadger.Lib

open Std List

/-! ## Byte order under a prefix -/

/-- Strings that begin with equally long parts compare by these parts first. -/
theorem compare_append_of_length_eq {α : Type} [Ord α] {a b : List α} (h : a.length = b.length)
    (xs ys : List α) :
    compare (a ++ xs) (b ++ ys) = (compare a b).then (compare xs ys) := by
  induction a generalizing b with
  | nil =>
    obtain rfl := List.length_eq_zero_iff.mp h.symm
    simp
  | cons x a ih =>
    cases b with
    | nil => cases h
    | cons y b =>
      simp only [List.cons_append, List.compare_cons_cons, ih (Nat.succ.inj h), Ordering.then_assoc]

theorem isLE_compare_append (p xs : Bytes) : (compare p (p ++ xs)).isLE := by
  have h := compare_append_of_length_eq (rfl : p.length = p.length) [] xs
  rw [append_nil, Std.compare_self] at h
  rw [h]
  cases xs <;> rfl

/-- What lies between a prefix and a string that starts with it starts with it too. -/
theorem isPrefix_of_between {p a b : Bytes} (hp : (compare p a).isLE) (hab : compare a b = .lt)
    (hb : p <+: b) : p <+: a := by
  induction p generalizing a b with
  | nil => exact List.nil_prefix
  | cons x p ih =>
    obtain ⟨s, rfl⟩ := hb
    cases a with
    | nil => simp at hp
    | cons y a =>
      rw [List.compare_cons_cons] at hp
      rw [List.cons_append, List.compare_cons_cons] at hab
      -- the first byte of `a` is at least that of `p` and at most that of `b`: the same byte
      cases hxy : compare x y with
      | lt => simp [OrientedCmp.gt_of_lt hxy] at hab
      | gt => simp [hxy] at hp
      | eq =>
        obtain rfl := LawfulEqCmp.eq_of_compare hxy
        simp only [Std.compare_self] at hp hab
        exact (List.prefix_cons_inj x).mpr (ih hp hab ⟨s, rfl⟩)

/-! ## Scans under a prefix -/

/-- The rows from `start` on, up to the first key that does not begin with `pre`. -/
def Table.scanPrefix (t : Table) (pre start : Bytes) : List (Bytes × Bytes) :=
  (t.scanFrom start).takeWhile fun kv => pre.isPrefixOf kv.1

section

variable {α : Type} {q : α → Bool}

/-- Where `q` never holds again after it failed, the first run of `q` is all of `q`. -/
theorem takeWhile_eq_filter {l : List α} (h : l.Pairwise fun a b => q b → q a) :
    l.takeWhile q = l.filter q := by
  induction l with
  | nil => rfl
  | cons a l ih =>
    obtain ⟨hhead, htail⟩ := pairwise_cons.mp h
    by_cases ha : q a
    · rw [takeWhile_cons_of_pos ha, filter_cons_of_pos ha, ih htail]
    · rw [takeWhile_cons_of_neg ha, filter_cons_of_neg ha]
      exact (filter_eq_nil_iff.mpr fun b hb hq => ha (hhead b hb hq)).symm

end

variable {t : Table} {pre start : Bytes}

/-- A prefix scan that starts no earlier than its prefix misses no key under it. -/
theorem scanPrefix_eq_filter (h : (compare pre start).isLE) :
    t.scanPrefix pre start = (t.scanFrom start).filter fun kv => pre.isPrefixOf kv.1 := by
  refine takeWhile_eq_filter (scanFrom_sorted.imp_of_mem fun ha _ hlt hpre => ?_)
  have hle := TransCmp.isLE_trans h (mem_scanFrom.mp ha).2
  exact List.isPrefixOf_iff_prefix.mpr
    (isPrefix_of_between hle hlt (List.isPrefixOf_iff_prefix.mp hpre))

theorem mem_scanPrefix (h : (compare pre start).isLE) {kv : Bytes × Bytes} :
    kv ∈ t.scanPrefix pre start
      ↔ t[kv.1]? = some kv.2 ∧ (compare start kv.1).isLE ∧ pre <+: kv.1 := by
  rw [scanPrefix_eq_filter h, mem_filter, mem_scanFrom, List.isPrefixOf_iff_prefix, and_assoc]

theorem scanPrefix_sorted : (t.scanPrefix pre start).Pairwise fun a b => compare a.1 b.1 = .lt :=
  scanFrom_sorted.sublist (takeWhile_sublist _)

end Ckbadger.Lib
