/-
Ckbadger.Lib.Ledger — transactions that take entries out of a map and put values in.

Every value is created once, at a key of its own, and spent at most once. So the map
holds the created values without the spent ones, and any sum over it is the sum over
the created values less that over the spent ones.
-/
import Ckbadger.Lib.FiniteMap
import Ckbadger.Lib.Runs

namespace Ckbadger.Lib

open FinMap List

/-- What transactions do to a map: the keys each takes out, and the values it puts in. -/
structure Flow (T K V : Type) where
  key : V → K
  spends : T → List K
  creates : T → List V

namespace Flow

variable {T K V : Type} [DecidableEq K] (F : Flow T K V) (m : FinMap K V)

/-- One transaction on the map. -/
def apply (t : T) : FinMap K V := insertAll F.key (eraseAll m (F.spends t)) (F.creates t)

def run (ts : List T) : FinMap K V := ts.foldl F.apply m

/-- The values a transaction takes out. -/
def spent (t : T) : List V := (F.spends t).filterMap m.lookup

/-- A transaction takes out what is there, each key once. -/
def Spendable (t : T) : Prop := (F.spends t).Nodup ∧ ∀ k ∈ F.spends t, (m.lookup k).isSome

instance (t : T) : Decidable (F.Spendable m t) := inferInstanceAs (Decidable (_ ∧ _))

/-- The values a sequence of transactions takes out. -/
def consumed (m : FinMap K V) : List T → List V
  | [] => []
  | t :: ts => F.spent m t ++ consumed (F.apply m t) ts

omit [DecidableEq K] in
/-- The values a sequence of transactions puts in. -/
def created (ts : List T) : List V := ts.flatMap F.creates

theorem run_append (xs ys : List T) : F.run m (xs ++ ys) = F.run (F.run m xs) ys := foldl_append

omit [DecidableEq K] in
theorem created_append (xs ys : List T) : F.created (xs ++ ys) = F.created xs ++ F.created ys :=
  flatMap_append

variable {F m} {t : T} {ts xs ys : List T} {k : K} {v : V}

/-- What is there was there before or has been created since. -/
theorem lookup_run (h : (F.run m ts).lookup k = some v) :
    m.lookup k = some v ∨ (v ∈ F.created ts ∧ F.key v = k) := by
  induction ts generalizing m with
  | nil => exact .inl h
  | cons t ts ih =>
    rcases ih h with hbefore | ⟨hmem, hkey⟩
    · rcases lookup_insertAll hbefore with ⟨hmem, hkey⟩ | hkept
      · exact .inr ⟨mem_append_left _ hmem, hkey⟩
      · exact .inl (lookup_of_eraseAll hkept)
    · exact .inr ⟨mem_append_right _ hmem, hkey⟩

theorem lookup_apply_of_notMem (h : k ∉ (F.creates t).map F.key) :
    (F.apply m t).lookup k = if k ∈ F.spends t then none else m.lookup k := by
  rw [apply, lookup_insertAll_of_notMem h, lookup_eraseAll]

variable (F m) in
/-- Transactions that may be applied: the values are at their own keys, and the transactions are
valid at their turn and create new keys, each once. -/
structure Ledger (ts : List T) : Prop where
  placed : ∀ k v, m.lookup k = some v → F.key v = k
  distinct : ((F.created ts).map F.key).Nodup
  fresh : ∀ v ∈ F.created ts, m.lookup (F.key v) = none
  valid : ValidRun F.apply F.Spendable m ts

/-- A key that is spent is not created again. -/
theorem Ledger.notMem_created (h : F.Ledger m (t :: ts)) (hk : k ∈ F.spends t) :
    k ∉ (F.created (t :: ts)).map F.key := by
  intro hmem
  obtain ⟨v, hv, rfl⟩ := mem_map.mp hmem
  have hlive := h.valid.1.2 _ hk
  rw [h.fresh v hv] at hlive
  cases hlive

/-- The rest of a ledger, after its first transaction. -/
theorem Ledger.tail (h : F.Ledger m (t :: ts)) : F.Ledger (F.apply m t) ts := by
  have hdistinct : ((F.creates t ++ F.created ts).map F.key).Nodup := h.distinct
  rw [map_append, nodup_append] at hdistinct
  obtain ⟨-, hrest, happart⟩ := hdistinct
  refine ⟨?_, hrest, ?_, h.valid.2⟩
  · intro k v hv
    rcases lookup_insertAll hv with ⟨-, hkey⟩ | hkept
    · exact hkey
    · exact h.placed k v (lookup_of_eraseAll hkept)
  · intro v hv
    have hnew : F.key v ∉ (F.creates t).map F.key := by
      intro hmem
      exact happart _ hmem _ (mem_map_of_mem hv) rfl
    rw [lookup_apply_of_notMem hnew, h.fresh v (mem_append_right _ hv), ite_self]

theorem Ledger.drop (h : F.Ledger m (xs ++ ys)) : F.Ledger (F.run m xs) ys := by
  induction xs generalizing m with
  | nil => exact h
  | cons t xs ih => exact ih h.tail

theorem Ledger.take (h : F.Ledger m (xs ++ ys)) : F.Ledger m xs := by
  have hdistinct := h.distinct
  rw [created_append, map_append, nodup_append] at hdistinct
  refine ⟨h.placed, hdistinct.1, ?_, (validRun_append.mp h.valid).1⟩
  intro v hv
  refine h.fresh v ?_
  rw [created_append]
  exact mem_append_left _ hv

/-- A transaction takes out a value at each key it spends. -/
theorem Ledger.map_key_spent (h : F.Ledger m (t :: ts)) : (F.spent m t).map F.key = F.spends t := by
  have hlive := h.valid.1.2
  unfold spent
  generalize F.spends t = ks at hlive
  induction ks with
  | nil => rfl
  | cons k ks ih =>
    obtain ⟨v, hv⟩ := Option.isSome_iff_exists.mp (hlive k mem_cons_self)
    have hrest := ih (forall_mem_cons.mp hlive).2
    rw [filterMap_cons, hv]
    show F.key v :: _ = k :: ks
    rw [h.placed k v hv, hrest]

theorem Ledger.map_key_consumed (h : F.Ledger m ts) :
    (F.consumed m ts).map F.key = ts.flatMap F.spends := by
  induction ts generalizing m with
  | nil => rfl
  | cons t ts ih => rw [consumed, map_append, h.map_key_spent, ih h.tail, flatMap_cons]

/-- A consumed value was there before, or was created since. -/
theorem Ledger.mem_consumed (h : F.Ledger m ts) (hv : v ∈ F.consumed m ts) :
    m.lookup (F.key v) = some v ∨ v ∈ F.created ts := by
  induction ts generalizing m with
  | nil => cases hv
  | cons t ts ih =>
    rcases mem_append.mp hv with hfirst | hrest
    · obtain ⟨k, -, hk⟩ := mem_filterMap.mp hfirst
      rw [h.placed k v hk]
      exact .inl hk
    · rcases ih h.tail hrest with hlive | hcreated
      · rcases lookup_insertAll hlive with ⟨hmem, -⟩ | hkept
        · exact .inr (mem_append_left _ hmem)
        · exact .inl (lookup_of_eraseAll hkept)
      · exact .inr (mem_append_right _ hcreated)

theorem Ledger.nodup_spends (h : F.Ledger m ts) : (ts.flatMap F.spends).Nodup := by
  induction ts generalizing m with
  | nil => exact nodup_nil
  | cons t ts ih =>
    rw [flatMap_cons, nodup_append]
    refine ⟨h.valid.1.1, ih h.tail, ?_⟩
    intro k hk k' hk' heq
    subst heq
    rw [← h.tail.map_key_consumed] at hk'
    obtain ⟨v, hv, rfl⟩ := mem_map.mp hk'
    have hnew := h.notMem_created hk
    -- a key that was spent is neither there afterwards nor created again
    rcases h.tail.mem_consumed hv with hlive | hcreated
    · rw [lookup_apply_of_notMem, if_pos hk] at hlive
      · cases hlive
      · intro hmem
        refine hnew ?_
        rw [created, flatMap_cons, map_append]
        exact mem_append_left _ hmem
    · exact hnew (mem_map_of_mem (mem_append_right _ hcreated))

/-- The map holds the created values without the spent ones. -/
theorem Ledger.run_eq (h : F.Ledger m ts) :
    F.run m ts = eraseAll (insertAll F.key m (F.created ts)) (ts.flatMap F.spends) := by
  induction ts generalizing m with
  | nil => rfl
  | cons t ts ih =>
    have hcreated : F.created (t :: ts) = F.creates t ++ F.created ts := rfl
    have hdistinct := h.distinct
    rw [hcreated, map_append, nodup_append] at hdistinct
    show F.run (F.apply m t) ts = _
    rw [ih h.tail, flatMap_cons, hcreated, insertAll_append, eraseAll_append]
    congr 1
    -- the two orders of erasing and inserting agree, as spent keys are not created again
    refine Finmap.ext_lookup fun k => ?_
    rw [lookup_eraseAll]
    by_cases hk : k ∈ F.spends t
    · have hnew := h.notMem_created hk
      rw [hcreated, map_append, mem_append, not_or] at hnew
      rw [if_pos hk, lookup_insertAll_of_notMem hnew.2, lookup_apply_of_notMem hnew.1, if_pos hk]
    · rw [if_neg hk]
      by_cases hlater : k ∈ (F.created ts).map F.key
      · obtain ⟨v, hv, rfl⟩ := mem_map.mp hlater
        rw [lookup_insertAll_of_mem hdistinct.2.1 hv, lookup_insertAll_of_mem hdistinct.2.1 hv]
      · rw [lookup_insertAll_of_notMem hlater, lookup_insertAll_of_notMem hlater]
        by_cases hnow : k ∈ (F.creates t).map F.key
        · obtain ⟨v, hv, rfl⟩ := mem_map.mp hnow
          rw [apply, lookup_insertAll_of_mem hdistinct.1 hv, lookup_insertAll_of_mem hdistinct.1 hv]
        · rw [lookup_apply_of_notMem hnow, if_neg hk, lookup_insertAll_of_notMem hnow]

/-- A sum over the map changes by the created and the consumed values. -/
theorem Ledger.weight_run {M : Type} [AddCommMonoid M] (w : V → M) (h : F.Ledger m ts) :
    weight (fun _ v => w v) (F.run m ts) + ((F.consumed m ts).map w).sum
      = weight (fun _ v => w v) m + ((F.created ts).map w).sum := by
  have hconsumed : ((F.consumed m ts).map F.key).Nodup := by
    rw [h.map_key_consumed]
    exact h.nodup_spends
  have hlive : ∀ v ∈ F.consumed m ts,
      (insertAll F.key m (F.created ts)).lookup (F.key v) = some v := by
    intro v hv
    rcases h.mem_consumed hv with hbefore | hcreated
    · rw [lookup_insertAll_of_notMem]
      · exact hbefore
      · intro hmem
        obtain ⟨v', hv', hkey⟩ := mem_map.mp hmem
        have hnone := h.fresh v' hv'
        rw [hkey, hbefore] at hnone
        cases hnone
    · exact lookup_insertAll_of_mem h.distinct hcreated
  have hinsert := weight_insertAll (w := fun _ v => w v) h.distinct h.fresh
  have herase := weight_eraseAll_values (w := fun _ v => w v) hconsumed hlive
  rw [← hinsert, herase, add_comm, h.run_eq, h.map_key_consumed]

end Flow

end Ckbadger.Lib
