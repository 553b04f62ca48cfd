/-
Ckbadger.Derive.AggregateTheorems — what the vector arithmetic of a derived
aggregate computes, and what a column family of such vectors represents.

`Represents` reads the rows of a derived column family as one integer function of
the key and the component: a row is stored exactly when some component is not
zero. Adding a delta to a row through `sumWith` adds it to that function.
-/
import Ckbadger.Derive.Aggregate
import Ckbadger.Lib.KeyedSum
import Ckbadger.Lib.Fallible
import Ckbadger.Lib.Staging

namespace Ckbadger.Derive

open Lib Lib.KeyedSum Store Std.ExtTreeMap
open List hiding getElem?_insert

variable {delta : List Int} {arity : Bytes → Nat} {map map' : DeltaMap}

/-! ## Vectors -/

theorem addComponent_ok {component change x : Int} (h : addComponent component change = .ok x) :
    x = component + change ∧ FitsSigned 16 x := by
  unfold addComponent at h
  split at h
  · cases h
    exact ⟨rfl, by assumption⟩
  · cases h

theorem addComponents_ok {value sum : List Int} (h : addComponents value delta = .ok sum) :
    value.length = delta.length ∧ sum = List.zipWith (· + ·) value delta ∧
      ∀ c ∈ sum, FitsSigned 16 c := by
  unfold addComponents at h
  split at h
  · cases h
  rename_i hlen
  refine ⟨not_not.mp hlen, ?_⟩
  clear hlen
  induction value generalizing delta sum with
  | nil =>
    cases h
    simp
  | cons c value ih =>
    cases delta with
    | nil =>
      cases h
      simp
    | cons d delta =>
      rw [zip_cons_cons, mapM_cons] at h
      obtain ⟨x, hx, h⟩ := bind_eq_ok.mp h
      obtain ⟨rest, hrest, h⟩ := bind_eq_ok.mp h
      cases h
      obtain ⟨rfl, hfits⟩ := addComponent_ok hx
      obtain ⟨rfl, hall⟩ := ih hrest
      exact ⟨rfl, forall_mem_cons.mpr ⟨hfits, hall⟩⟩

theorem sumWith_ok {current next : Option (List Int)} (h : sumWith current delta = .ok next) :
    comps (next.getD []) = comps (current.getD []) + comps delta ∧
      ∀ v, next = some v → v.length = delta.length ∧ (∀ c ∈ v, FitsSigned 16 c) ∧ comps v ≠ 0 := by
  obtain ⟨value, hadd, h⟩ := bind_eq_ok.mp h
  obtain ⟨hlen, rfl, hfits⟩ := addComponents_ok hadd
  have hcurrent : comps (current.getD (List.replicate delta.length 0))
      = comps (current.getD []) := by
    cases current <;> simp
  have hsum := comps_zipWith_add hlen
  rw [hcurrent] at hsum
  cases h
  split
  · rename_i hzero
    refine ⟨?_, fun v hv => by cases hv⟩
    rw [← hsum, Option.getD_none, comps_nil, eq_comm, comps_eq_zero_iff]
    simpa using hzero
  · rename_i hne
    refine ⟨hsum, fun v hv => ?_⟩
    cases hv
    refine ⟨by simp [hlen], hfits, fun hz => hne ?_⟩
    simpa using comps_eq_zero_iff.mp hz

/-! ## Rows -/

/-- The first `n` values of a function, as a vector. -/
def vec (n : Nat) (f : Nat → Int) : List Int := (List.range n).map f

/-- The row of a key whose components are `f`: none when they are all zero. -/
def encodeRow (n : Nat) (f : Nat → Int) : Option Bytes :=
  if (vec n f).all (· == 0) then none else some (encodeDerivedValue (vec n f))

theorem comps_vec {n : Nat} {f : Nat → Int} (h : ∀ i, n ≤ i → f i = 0) : comps (vec n f) = f := by
  funext i
  by_cases hi : i < n
  · simp [comps, vec, hi]
  · simp [comps, vec, hi, h i (not_lt.mp hi)]

theorem vec_comps {v : List Int} : vec v.length (comps v) = v := by
  refine ext_getElem (by simp [vec]) fun i h₁ h₂ => ?_
  simp [vec, comps, h₂]

theorem encodeRow_comps {v : List Int} (h : comps v ≠ 0) :
    encodeRow v.length (comps v) = some (encodeDerivedValue v) := by
  rw [encodeRow, vec_comps, if_neg]
  intro hall
  exact h (comps_eq_zero_iff.mpr (by simpa using hall))

@[simp] theorem encodeRow_zero (n : Nat) : encodeRow n 0 = none := by
  rw [encodeRow]
  simp [vec]

theorem encodeRow_of_ne_zero {n : Nat} {f : Nat → Int} (hsupport : ∀ i, n ≤ i → f i = 0)
    (h : f ≠ 0) : encodeRow n f = some (encodeDerivedValue (vec n f)) := by
  rw [encodeRow, if_neg]
  intro hall
  refine h ?_
  rw [← comps_vec hsupport, comps_eq_zero_iff]
  simpa using hall

/-- The rows of a derived column family hold the function `f` of key and component. -/
structure Represents (s : DomainStore) (cf : Cf) (arity : Bytes → Nat) (f : Bytes → Nat → Int) :
    Prop where
  row : ∀ key, s.get cf key = encodeRow (arity key) (f key)
  fits : ∀ key i, FitsSigned 16 (f key i)
  support : ∀ key i, arity key ≤ i → f key i = 0

section Rows

variable {s : DomainStore} {cf : Cf} {arity : Bytes → Nat} {f : Bytes → Nat → Int} {key : Bytes}

theorem Represents.getDerivedValue (h : Represents s cf arity f) (hcf : cf ∈ derivedCfs)
    (key : Bytes) :
    ∃ current, getDerivedValue s cf key = .ok current ∧ comps (current.getD []) = f key ∧
      current.map encodeDerivedValue = encodeRow (arity key) (f key) ∧
      ∀ v, current = some v → v.length = arity key := by
  have hens : ensureDerivedCf cf = .ok () := by
    simp [ensureDerivedCf, hcf]
  have hcomps := comps_vec (h.support key)
  rw [Store.getDerivedValue, hens, h.row key, encodeRow]
  by_cases hz : (vec (arity key) (f key)).all (· == 0)
  · rw [if_pos hz]
    refine ⟨none, rfl, ?_, rfl, fun v hv => by cases hv⟩
    rw [← hcomps, Option.getD_none, comps_nil, eq_comm, comps_eq_zero_iff]
    simpa using hz
  · rw [if_neg hz]
    have hne : vec (arity key) (f key) ≠ [] := by
      intro hnil
      rw [hnil] at hz
      exact hz rfl
    have hfits : ∀ c ∈ vec (arity key) (f key), FitsSigned 16 c := by
      intro c hc
      obtain ⟨i, -, rfl⟩ := mem_map.mp hc
      exact h.fits key i
    refine ⟨some (vec (arity key) (f key)), ?_, hcomps, rfl, fun v hv => ?_⟩
    · simp only [decodeDerivedValue_encodeDerivedValue hne hfits]
      rfl
    · cases hv
      simp [vec]

theorem encodeRow_of_sumWith {current next : Option (List Int)} {g : Nat → Int}
    (hcurrent : comps (current.getD []) = g) (h : sumWith current delta = .ok next) :
    next.map encodeDerivedValue = encodeRow delta.length (g + comps delta) ∧
      comps (next.getD []) = g + comps delta ∧ ∀ i, FitsSigned 16 ((g + comps delta) i) := by
  obtain ⟨hsum, hsome⟩ := sumWith_ok h
  rw [hcurrent] at hsum
  cases next with
  | none =>
    rw [← hsum]
    exact ⟨by simp, by simp, fun i => fitsSigned_zero 16⟩
  | some v =>
    obtain ⟨hlen, hfits, hne⟩ := hsome v rfl
    rw [Option.getD_some] at hsum
    rw [← hsum, ← hlen, encodeRow_comps hne]
    refine ⟨rfl, rfl, fun i => ?_⟩
    by_cases hi : i < v.length
    · have : comps v i = v[i] := by simp [comps, hi]
      rw [this]
      exact hfits _ (getElem_mem hi)
    · rw [comps_apply_of_length_le (not_lt.mp hi)]
      exact fitsSigned_zero 16

/-- Adding a contribution to each of some rows, with distinct keys, adds them to the function. -/
theorem Represents.add {s' : DomainStore} {cs : List (Bytes × List Int)}
    (h : Represents s cf arity f) (hnodup : (cs.map Prod.fst).Nodup)
    (harity : ∀ c ∈ cs, c.2.length = arity c.1)
    (hfits : ∀ c ∈ cs, ∀ i, FitsSigned 16 ((f c.1 + comps c.2) i))
    (hrows : ∀ key, s'.get cf key = rowAfter cf key (s.get cf key)
      ((cs.map fun c => (c.1, encodeRow (arity c.1) (f c.1 + comps c.2))).map
        fun row => WriteOp.set cf row.1 row.2)) :
    Represents s' cf arity fun k => f k + total cs k := by
  have hkeys : (cs.map fun c => (c.1, encodeRow (arity c.1) (f c.1 + comps c.2))).map Prod.fst
      = cs.map Prod.fst := by
    simp
  -- a key is either one of the contributions' or keeps its row and its value
  have hcase : ∀ key, (∃ v, (key, v) ∈ cs) ∨ key ∉ cs.map Prod.fst := by
    intro key
    by_cases hk : key ∈ cs.map Prod.fst
    · obtain ⟨⟨k, v⟩, hmem, rfl⟩ := mem_map.mp hk
      exact .inl ⟨v, hmem⟩
    · exact .inr hk
  have hzero : ∀ key, key ∉ cs.map Prod.fst → total cs key = 0 := by
    intro key hk
    exact total_of_not_mem fun c hc heq => hk (mem_map.mpr ⟨c, hc, heq⟩)
  refine ⟨fun key => ?_, fun key i => ?_, fun key i hi => ?_⟩
  · rw [hrows]
    rcases hcase key with ⟨v, hmem⟩ | hk
    · rw [rowAfter_sets_of_mem (hkeys ▸ hnodup) (mem_map.mpr ⟨(key, v), hmem, rfl⟩),
        total_of_mem_nodup hnodup hmem]
    · rw [rowAfter_sets_of_not_mem (hkeys ▸ hk), hzero key hk, add_zero, h.row]
  · rcases hcase key with ⟨v, hmem⟩ | hk
    · rw [total_of_mem_nodup hnodup hmem]
      exact hfits _ hmem i
    · rw [hzero key hk, add_zero]
      exact h.fits key i
  · rw [Pi.add_apply, h.support key i hi, zero_add]
    exact total_apply_of_length_le fun c hc heq => by rw [harity c hc, heq]; exact hi

end Rows

/-! ## Folding source rows -/

/-- The pending contribution of a key, as components. -/
def deltaOf (map : DeltaMap) (key : Bytes) : Nat → Int := comps (map[key]?.getD [])

@[simp] theorem deltaOf_empty (key : Bytes) : deltaOf ∅ key = 0 := by
  simp [deltaOf]

theorem addDelta_ok {key : Bytes} (h : addDelta map key delta = .ok map') :
    ∃ value, map' = map.insert key value ∧ comps value = deltaOf map key + comps delta ∧
      value.length = delta.length := by
  unfold addDelta at h
  split at h
  · rename_i existing hex
    split at h
    · rename_i value hadd
      cases h
      obtain ⟨hlen, rfl, -⟩ := addComponents_ok hadd
      exact ⟨_, rfl, by simp [deltaOf, hex, comps_zipWith_add hlen], by simp [hlen]⟩
    · cases h
  · rename_i hnone
    cases h
    exact ⟨delta, rfl, by simp [deltaOf, hnone], rfl⟩

theorem deltaOf_insert (map : DeltaMap) (key : Bytes) (value : List Int) (k : Bytes) :
    deltaOf (map.insert key value) k = if key = k then comps value else deltaOf map k := by
  by_cases hk : key = k
  · subst hk
    simp [deltaOf]
  · simp [deltaOf, getElem?_insert, hk]

theorem total_toList (map : DeltaMap) (key : Bytes) : total map.toList key = deltaOf map key := by
  cases hv : map[key]? with
  | some v =>
    rw [total_of_mem_nodup (nodup_map_fst_toList map)
      (mem_toList_iff_getElem?_eq_some.mpr hv), deltaOf, hv, Option.getD_some]
  | none =>
    rw [deltaOf, hv, Option.getD_none]
    refine total_of_not_mem fun c hc heq => ?_
    have := mem_toList_iff_getElem?_eq_some.mp hc
    rw [heq, hv] at this
    cases this

/-- Every pending contribution is a vector of its key's arity, under a key the clear range
covers. -/
def WellFormed (arity : Bytes → Nat) (map : DeltaMap) : Prop :=
  ∀ k v, map[k]? = some v → v.length = arity k ∧ compare k derivedClearEnd = .lt

/-- A contribution of its key's arity, under a key the clear range covers. -/
def WellFormedContribution (arity : Bytes → Nat) (c : Bytes × List Int) : Prop :=
  c.2.length = arity c.1 ∧ compare c.1 derivedClearEnd = .lt

/-- Adding a well-formed contribution keeps the pending ones well formed. -/
theorem addDelta_wf {key : Bytes}
    (h : addDelta map key delta = .ok map') (hc : WellFormedContribution arity (key, delta))
    (hmap : WellFormed arity map) : WellFormed arity map' := by
  obtain ⟨value, rfl, -, hlen⟩ := addDelta_ok h
  intro k v hv
  rw [getElem?_insert] at hv
  split at hv
  · rename_i hk
    cases hv
    rw [← Std.LawfulEqOrd.eq_of_compare hk]
    exact ⟨hlen.trans hc.1, hc.2⟩
  · exact hmap k v hv

theorem foldlM_addDelta_ok {cs : List (Bytes × List Int)}
    (h : cs.foldlM (fun out c => addDelta out c.1 c.2) map = .ok map')
    (hcs : ∀ c ∈ cs, WellFormedContribution arity c) (hmap : WellFormed arity map) :
    (∀ k, deltaOf map' k = deltaOf map k + total cs k) ∧ WellFormed arity map' := by
  induction cs generalizing map with
  | nil =>
    cases h
    exact ⟨fun k => by simp, hmap⟩
  | cons c cs ih =>
    obtain ⟨mid, hmid, hrest⟩ := foldlM_cons_eq_ok.mp h
    have hwf := addDelta_wf hmid (hcs c mem_cons_self) hmap
    obtain ⟨value, rfl, hvalue, -⟩ := addDelta_ok hmid
    obtain ⟨hsum, hwf'⟩ := ih hrest (forall_mem_cons.mp hcs).2 hwf
    refine ⟨fun k => ?_, hwf'⟩
    rw [hsum, deltaOf_insert, total_cons]
    by_cases hk : c.1 = k
    · subst hk
      rw [if_pos rfl, if_pos rfl, hvalue, add_assoc]
    · rw [if_neg hk, if_neg hk, zero_add]

/-- The contributions of a list of source rows, up to the end of the source. -/
def contributionsOf (row : Bytes → Bytes → Except String RowFold) :
    List (Bytes × Bytes) → List (Bytes × List Int)
  | [] => []
  | (key, value) :: rest =>
    match row key value with
    | .ok (.contributes cs) => cs ++ contributionsOf row rest
    | .ok .exhausted => []
    | .error _ => contributionsOf row rest

section Fold

variable {row : Bytes → Bytes → Except String RowFold} {scan : List (Bytes × Bytes)}
  (hrow : ∀ k v cs, row k v = .ok (.contributes cs) → ∀ c ∈ cs, WellFormedContribution arity c)

include hrow

theorem wellFormed_contributionsOf :
    ∀ c ∈ contributionsOf row scan, WellFormedContribution arity c := by
  induction scan with
  | nil =>
    intro c hc
    cases hc
  | cons kv rest ih =>
    obtain ⟨key, value⟩ := kv
    intro c hc
    rw [contributionsOf] at hc
    split at hc
    · rename_i cs hcs
      rcases mem_append.mp hc with hc | hc
      · exact hrow key value cs hcs c hc
      · exact ih c hc
    · cases hc
    · exact ih c hc

/-- A chunk folds the rows it passes, and says where the rest of the source begins. -/
theorem foldSource_ok {budget : ChunkBudget} {out : DeltaMap} {r : ChunkResult}
    (h : foldSource row scan budget out = .ok r) (hout : WellFormed arity out) :
    WellFormed arity r.out ∧
      ((r.next = none ∧
          ∀ k, deltaOf r.out k = deltaOf out k + total (contributionsOf row scan) k) ∨
        ∃ pre key value post, r.next = some key ∧ scan = pre ++ (key, value) :: post ∧
          ∀ k, deltaOf r.out k + total (contributionsOf row post) k
            = deltaOf out k + total (contributionsOf row scan) k) := by
  induction scan generalizing budget out with
  | nil =>
    cases h
    exact ⟨hout, .inl ⟨rfl, fun k => by simp [contributionsOf]⟩⟩
  | cons kv rest ih =>
    obtain ⟨key, value⟩ := kv
    obtain ⟨fold, hfold, h⟩ := bind_eq_ok.mp h
    cases fold with
    | exhausted =>
      cases h
      exact ⟨hout, .inl ⟨rfl, fun k => by simp [contributionsOf, hfold]⟩⟩
    | contributes cs =>
      obtain ⟨mid, hmid, h⟩ := bind_eq_ok.mp h
      obtain ⟨hsum, hwf⟩ := foldlM_addDelta_ok hmid (hrow key value cs hfold) hout
      have hcontrib : contributionsOf row ((key, value) :: rest)
          = cs ++ contributionsOf row rest := by
        simp [contributionsOf, hfold]
      generalize budget.tick mid.size = ticked at h
      obtain ⟨stop, budget'⟩ := ticked
      cases stop with
      | true =>
        cases h
        refine ⟨hwf, .inr ⟨[], key, value, rest, rfl, rfl, fun k => ?_⟩⟩
        rw [hcontrib, total_append, hsum, add_assoc]
      | false =>
        obtain ⟨hwf', hcases⟩ := ih h hwf
        refine ⟨hwf', hcases.imp ?_ ?_⟩
        · rintro ⟨hnext, hdelta⟩
          refine ⟨hnext, fun k => ?_⟩
          rw [hdelta, hsum, hcontrib, total_append, add_assoc]
        · rintro ⟨pre, key', value', post, hnext, rfl, hdelta⟩
          refine ⟨(key, value) :: pre, key', value', post, hnext, rfl, fun k => ?_⟩
          rw [hdelta, hsum, hcontrib, total_append, add_assoc]

end Fold

end Ckbadger.Derive
