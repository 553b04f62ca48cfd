/-
Ckbadger.Derive.SumAggregate — derived aggregates whose value per key is the sum
of what their source rows contribute.

`SumAggregate` collects what a registered aggregate promises the scheduler and
live maintenance: its rebuild folds one source column family row by row, the
contribution of a row depends on source rows only, and all contributions of a key
have the key's arity. `value` is the from-scratch sum over a store, `remaining`
the part of it a rebuild has not folded yet.
-/
import Ckbadger.Derive.AggregateTheorems
import Ckbadger.Derive.Live

namespace Ckbadger.Derive

open Lib Store

/-! ## Source rows -/

theorem ne_of_mem_derivedCfs {cf : Cf} (h : cf ∈ derivedCfs) :
    cf ≠ .syncMeta ∧ cf ≠ .reorgUndoLogByBlock := by
  constructor <;> rintro rfl <;> simp [derivedCfs] at h

/-- A column family of source rows: neither derived nor bookkeeping. -/
def IsSource (cf : Cf) : Prop :=
  cf ∉ derivedCfs ∧ cf ≠ .syncMeta ∧ cf ≠ .reorgUndoLogByBlock

/-- Two stores hold the same source rows. -/
def SameSource (s t : DomainStore) : Prop :=
  ∀ cf, IsSource cf → s.table cf = t.table cf

namespace SameSource

variable {s t u : DomainStore}

theorem refl (s : DomainStore) : SameSource s s := fun _ _ => rfl

theorem symm (h : SameSource s t) : SameSource t s := fun cf hcf => (h cf hcf).symm

theorem trans (h : SameSource s t) (h' : SameSource t u) : SameSource s u :=
  fun cf hcf => (h cf hcf).trans (h' cf hcf)

theorem of_get (h : ∀ cf, IsSource cf → ∀ key, s.get cf key = t.get cf key) : SameSource s t :=
  fun cf hcf => Std.ExtTreeMap.ext_getElem? fun key => h cf hcf key

theorem committedTip [Codec CachedBlockHeader] (h : SameSource s t) :
    committedTip s = committedTip t := by
  have hheaders := h .blockHeaders (by simp [IsSource, derivedCfs])
  simp [Store.committedTip, getSyncTipBlock, lastHeaderRow, hheaders]

end SameSource

/-! ## Aggregates -/

/-- A derived aggregate that sums contributions of source rows. -/
structure SumAggregate (Γ : Type) extends DerivedAggregate Γ where
  sourceCf : Cf
  /-- What one source row contributes, given the store it is read from. -/
  row : DomainStore → Bytes → Bytes → Except String RowFold
  /-- The number of components of a key's value. -/
  arity : Bytes → Nat
  derived : id.cf ∈ derivedCfs
  source : IsSource sourceCf
  row_congr : ∀ {s t : DomainStore}, SameSource s t → row s = row t
  row_wf : ∀ {s : DomainStore} {k v : Bytes} {cs : List (Bytes × List Int)},
    row s k v = .ok (.contributes cs) → ∀ c ∈ cs, WellFormedContribution arity c
  rebuild : ∀ {snapshot : DomainStore} {cursor : Option Bytes} {budget : ChunkBudget}
    {r : ChunkResult}, rebuildChunk snapshot cursor budget = .ok r →
      rebuildOver sourceCf row snapshot cursor budget = .ok r
  live_wf : ∀ {ctx : LiveDeriveCtx Γ} {deltas : BlockDeltas}, liveDeltas ctx = .ok deltas →
    ∀ e ∈ deltas.entries, WellFormedContribution arity e.2

namespace SumAggregate

variable {Γ : Type} (A : SumAggregate Γ)

/-- What the source rows after a cursor contribute to a key. -/
def remaining (s : DomainStore) (cursor : Option Bytes) (key : Bytes) : Nat → Int :=
  KeyedSum.total (contributionsOf (A.row s) ((s.table A.sourceCf).scanFrom (resumeKey cursor))) key

/-- The from-scratch value of a key: the sum over every source row. -/
def value (s : DomainStore) (key : Bytes) : Nat → Int := A.remaining s none key

variable {A}

theorem value_congr {s t : DomainStore} (h : SameSource s t) : A.value s = A.value t := by
  funext key
  simp [value, remaining, A.row_congr h, h _ A.source]

theorem value_support (s : DomainStore) (key : Bytes) (i : Nat) (hi : A.arity key ≤ i) :
    A.value s key i = 0 := by
  refine KeyedSum.total_apply_of_length_le fun c hc heq => ?_
  have hwf := wellFormed_contributionsOf (fun k v cs h => A.row_wf h) c hc
  rw [hwf.1, heq]
  exact hi

theorem clearable_of_value {s : DomainStore} {key : Bytes} (h : A.value s key ≠ 0) :
    compare key derivedClearEnd = .lt := by
  by_contra hnot
  refine h (KeyedSum.total_of_not_mem fun c hc heq => hnot ?_)
  rw [← heq]
  exact (wellFormed_contributionsOf (fun k v cs h => A.row_wf h) c hc).2

/-- A chunk folds what lies between its cursor and the cursor it returns. -/
theorem rebuildChunk_ok {snapshot : DomainStore} {cursor : Option Bytes} {budget : ChunkBudget}
    {r : ChunkResult} (h : A.rebuildChunk snapshot cursor budget = .ok r) :
    WellFormed A.arity r.out ∧ ∀ key,
      deltaOf r.out key + r.next.elim 0 (fun last => A.remaining snapshot (some last) key)
        = A.remaining snapshot cursor key := by
  have hfold := A.rebuild h
  obtain ⟨hwf, hcases⟩ := foldSource_ok (fun k v cs hcs => A.row_wf hcs) hfold
    (fun k v hv => by simp at hv)
  refine ⟨hwf, fun key => ?_⟩
  rcases hcases with ⟨hnext, hsum⟩ | ⟨pre, last, v, post, hnext, hscan, hsum⟩
  · rw [hnext, Option.elim_none, add_zero, hsum, deltaOf_empty, zero_add, remaining]
  · rw [hnext, Option.elim_some, remaining, resumeKey, scanFrom_resume hscan, hsum, deltaOf_empty,
      zero_add, remaining]

end SumAggregate

/-! ## The registry -/

/-- The registered aggregates: each owns a column family and a state row. -/
structure Registry (Γ : Type) where
  aggregates : List (SumAggregate Γ)
  distinct : aggregates.Pairwise fun A B => A.id.cf ≠ B.id.cf ∧
    encodeDeriveMetaKey A.id.name ≠ encodeDeriveMetaKey B.id.name

namespace Registry

variable {Γ : Type}

/-- The aggregates as the scheduler and live maintenance see them. -/
def registered (R : Registry Γ) : List (DerivedAggregate Γ) :=
  R.aggregates.map (·.toDerivedAggregate)

/-- Two positions hold the same aggregate or two that share nothing. -/
theorem same_or_distinct (R : Registry Γ) {i j : Nat} {A B : SumAggregate Γ}
    (hA : R.aggregates[i]? = some A) (hB : R.aggregates[j]? = some B) :
    (i = j ∧ A = B) ∨ (A.id.cf ≠ B.id.cf ∧
      encodeDeriveMetaKey A.id.name ≠ encodeDeriveMetaKey B.id.name) := by
  obtain ⟨hi, rfl⟩ := List.getElem?_eq_some_iff.mp hA
  obtain ⟨hj, rfl⟩ := List.getElem?_eq_some_iff.mp hB
  have hpair := List.pairwise_iff_getElem.mp R.distinct
  rcases Nat.lt_trichotomy i j with hlt | rfl | hgt
  · exact .inr (hpair i j hi hj hlt)
  · exact .inl ⟨rfl, rfl⟩
  · obtain ⟨hcf, hkey⟩ := hpair j i hj hi hgt
    exact .inr ⟨hcf.symm, hkey.symm⟩

end Registry

end Ckbadger.Derive
