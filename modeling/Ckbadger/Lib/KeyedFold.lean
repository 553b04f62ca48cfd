/-
Ckbadger.Lib.KeyedFold — folding elements into the entries of an ordered map.

A loop that folds each element into the entry of its key acts on every key apart:
the entry of a key is what folding the key's own elements, in order, leaves. Writing
a batch map back over stored rows is such a loop too, with one element for each key
of the batch. A map *tabulates* a list when its entry at each key is a given function
of the key's elements; batches written one after another tabulate their concatenation.
-/
import Ckbadger.Lib.Fallible
import Mathlib.Data.List.Induction
import Std.Data.ExtTreeMap

namespace Ckbadger.Lib.KeyedFold

open Std ExtTreeMap

variable {K A C : Type}
variable {k : K} {l : List (K × C)} {c : C}

/-- The elements of a key, in order. -/
def group [DecidableEq K] (l : List (K × C)) (k : K) : List C :=
  (l.filter fun e => e.1 = k).map Prod.snd

/-- Folds the elements of one key into its entry, which a step may also drop. -/
def foldEntry (step : Option A → C → Except String (Option A)) (o : Option A) (cs : List C) :
    Except String (Option A) :=
  cs.foldlM step o

/-- A step that always leaves an entry. -/
def keep (step : K → Option A → C → Except String A) (k : K) (o : Option A) (c : C) :
    Except String (Option A) := do
  let entry ← step k o c
  return some entry

section Maps

variable [Ord K] [TransOrd K]

/-- Gives a key an entry, or none. -/
def setEntry (m : ExtTreeMap K A) (k : K) : Option A → ExtTreeMap K A
  | some entry => m.insert k entry
  | none => m.erase k

/-- Folds an element into the entry of its key. -/
def update (step : K → Option A → C → Except String (Option A)) (m : ExtTreeMap K A) (k : K)
    (c : C) : Except String (ExtTreeMap K A) := do
  let entry ← step k m[k]? c
  return setEntry m k entry

/-- Folds an element into the entry of its key, which stays. -/
def upsert (step : K → Option A → C → Except String A) (m : ExtTreeMap K A) (k : K) (c : C) :
    Except String (ExtTreeMap K A) :=
  update (keep step) m k c

/-- Folds each element into the entry of its key. -/
def collect (step : K → Option A → C → Except String (Option A)) (m : ExtTreeMap K A)
    (l : List (K × C)) : Except String (ExtTreeMap K A) :=
  l.foldlM (fun m e => update step m e.1 e.2) m

/-- Folds the entries of a batch map into stored rows. -/
def merge (step : K → Option A → C → Except String (Option A)) (rows : ExtTreeMap K A)
    (batch : ExtTreeMap K C) : Except String (ExtTreeMap K A) :=
  collect step rows batch.toList

end Maps

/-! ## Groups -/

section Groups

variable [DecidableEq K]

@[simp] theorem group_nil (k : K) : group ([] : List (K × C)) k = [] := rfl

theorem group_cons (e : K × C) (l : List (K × C)) (k : K) :
    group (e :: l) k = if e.1 = k then e.2 :: group l k else group l k := by
  by_cases h : e.1 = k
  · simp [group, h]
  · simp [group, h]

@[simp] theorem group_append (l l' : List (K × C)) (k : K) :
    group (l ++ l') k = group l k ++ group l' k := by
  simp [group]

theorem mem_group : c ∈ group l k ↔ (k, c) ∈ l := by
  simp only [group, List.mem_map, List.mem_filter, decide_eq_true_eq]
  constructor
  · intro h
    obtain ⟨⟨k', c'⟩, ⟨hmem, rfl⟩, rfl⟩ := h
    exact hmem
  · intro h
    exact ⟨(k, c), ⟨h, rfl⟩, rfl⟩

theorem group_eq_nil (h : ∀ e ∈ l, e.1 ≠ k) : group l k = [] := by
  simp only [group, List.map_eq_nil_iff, List.filter_eq_nil_iff, decide_eq_true_eq]
  exact h

theorem group_ne_nil {e : K × C} (h : e ∈ l) : group l e.1 ≠ [] :=
  List.ne_nil_of_mem (mem_group.mpr h)

theorem group_map_ne_nil {B : Type} {key : B → K} {f : B → C} {l : List B} {b : B} (h : b ∈ l) :
    group (l.map fun b => (key b, f b)) (key b) ≠ [] :=
  group_ne_nil (List.mem_map_of_mem h)

/-- The group of a mapped list whose keys come from the elements. -/
theorem group_map {B : Type} (key : B → K) (f : B → C) (l : List B) (k : K) :
    group (l.map fun b => (key b, f b)) k = (l.filter fun b => key b = k).map f := by
  simp [group, List.filter_map, Function.comp_def]

theorem group_map_eq_nil {B : Type} {key : B → K} {f : B → C} {l : List B} :
    group (l.map fun b => (key b, f b)) k = [] ↔ ∀ b ∈ l, key b ≠ k := by
  simp [group_map]

end Groups

/-! ## One entry -/

section Entries

variable {step : Option A → C → Except String (Option A)}
variable {o : Option A}

theorem foldEntry_cons (o : Option A) (c : C) (cs : List C) :
    foldEntry step o (c :: cs) = (step o c).bind fun o' => foldEntry step o' cs := by
  rfl

@[simp] theorem foldEntry_singleton (o : Option A) (c : C) : foldEntry step o [c] = step o c := by
  rw [foldEntry_cons]
  cases step o c <;> rfl

theorem keep_eq_ok {step : K → Option A → C → Except String A} {o' : Option A} :
    keep step k o c = .ok o' ↔ ∃ a, step k o c = .ok a ∧ o' = some a := by
  unfold keep
  rw [bind_eq_ok]
  constructor
  · intro h
    obtain ⟨a, ha, ho⟩ := h
    exact ⟨a, ha, (Except.ok.inj ho).symm⟩
  · intro h
    obtain ⟨a, ha, rfl⟩ := h
    exact ⟨a, ha, rfl⟩

/-- The entry of a fold whose steps return what a function of the elements says. -/
theorem foldEntry_keep_eq {step : K → Option A → C → Except String A}
    {value : List C → A} {cs : List C} (hfirst : ∀ c a, step k none c = .ok a → a = value [c])
    (hnext : ∀ cs c a, cs ≠ [] → step k (some (value cs)) c = .ok a → a = value (cs ++ [c]))
    (h : foldEntry (keep step k) none cs = .ok o) :
    o = if cs = [] then none else some (value cs) := by
  induction cs using List.reverseRecOn generalizing o with
  | nil => cases h; rfl
  | append_singleton cs c ih =>
    obtain ⟨u, hu, hlast⟩ := foldlM_concat_eq_ok.mp h
    obtain ⟨a, ha, rfl⟩ := keep_eq_ok.mp hlast
    have hu' := ih hu
    rw [if_neg (by simp)]
    by_cases hcs : cs = []
    · subst hcs
      subst hu'
      exact congrArg some (hfirst c a ha)
    · rw [if_neg hcs] at hu'
      subst hu'
      exact congrArg some (hnext cs c a hcs ha)

end Entries

/-! ## Every key apart -/

section Maps

variable [Ord K] [TransOrd K] [LawfulEqOrd K] [DecidableEq K]
variable {step : K → Option A → C → Except String (Option A)}
variable {m m' rows rows' : ExtTreeMap K A} {batch : ExtTreeMap K C}

theorem getElem?_setEntry (m : ExtTreeMap K A) (k x : K) (o : Option A) :
    (setEntry m k o)[x]? = if k = x then o else m[x]? := by
  cases o with
  | some entry => simp [setEntry, getElem?_insert]
  | none => simp [setEntry, getElem?_erase]

omit [LawfulEqOrd K] [DecidableEq K] in
theorem update_eq_ok :
    update step m k c = .ok m' ↔ ∃ o, step k m[k]? c = .ok o ∧ m' = setEntry m k o := by
  unfold update
  rw [bind_eq_ok]
  constructor
  · intro h
    obtain ⟨o, ho, hm⟩ := h
    exact ⟨o, ho, (Except.ok.inj hm).symm⟩
  · intro h
    obtain ⟨o, ho, rfl⟩ := h
    exact ⟨o, ho, rfl⟩

omit [LawfulEqOrd K] [DecidableEq K] in
@[simp] theorem collect_nil (m : ExtTreeMap K A) :
    collect step m ([] : List (K × C)) = .ok m := rfl

omit [LawfulEqOrd K] [DecidableEq K] in
theorem collect_append_eq_ok {l' : List (K × C)} :
    collect step m (l ++ l') = .ok m'
      ↔ ∃ u, collect step m l = .ok u ∧ collect step u l' = .ok m' := by
  unfold collect
  rw [List.foldlM_append, bind_eq_ok]

omit [LawfulEqOrd K] [DecidableEq K] in
theorem collect_concat {u : ExtTreeMap K A} (h : collect step m l = .ok u)
    (hstep : update step u k c = .ok m') :
    collect step m (l ++ [(k, c)]) = .ok m' := by
  refine collect_append_eq_ok.mpr ⟨u, h, ?_⟩
  unfold collect
  rw [List.foldlM_cons, hstep]
  rfl

/-- The entry of a key is the fold of its own elements. -/
theorem foldEntry_of_collect (h : collect step m l = .ok m') (k : K) :
    foldEntry (step k) m[k]? (group l k) = .ok m'[k]? := by
  induction l generalizing m with
  | nil => cases h; rfl
  | cons e l ih =>
    obtain ⟨u, hu, hrest⟩ := foldlM_cons_eq_ok.mp h
    obtain ⟨o, ho, rfl⟩ := update_eq_ok.mp hu
    have hentry := ih hrest
    rw [getElem?_setEntry] at hentry
    rw [group_cons]
    by_cases hk : e.1 = k
    · subst hk
      rw [if_pos rfl] at hentry
      rw [if_pos rfl, foldEntry_cons, ho]
      exact hentry
    · rw [if_neg hk] at hentry
      rw [if_neg hk]
      exact hentry

/-! ## Batch maps over rows -/

theorem group_toList (m : ExtTreeMap K C) (k : K) : group m.toList k = m[k]?.toList := by
  have hnodup : (group m.toList k).length ≤ 1 := by
    have hdistinct : m.toList.Pairwise fun a b => a.1 ≠ b.1 :=
      m.distinct_keys_toList.imp fun h heq => h (by simp [heq])
    generalize m.toList = l at hdistinct
    induction l with
    | nil => simp
    | cons e l ih =>
      obtain ⟨hhead, htail⟩ := List.pairwise_cons.mp hdistinct
      rw [group_cons]
      by_cases hk : e.1 = k
      · rw [if_pos hk, group_eq_nil fun e' he' heq => hhead e' he' (hk.trans heq.symm)]
        simp
      · rw [if_neg hk]
        exact ih htail
  have hmem : ∀ c, c ∈ group m.toList k ↔ m[k]? = some c := by
    intro c
    rw [mem_group, mem_toList_iff_getElem?_eq_some]
  match hg : group m.toList k with
  | [] =>
    cases hget : m[k]? with
    | none => rfl
    | some c =>
      have := (hmem c).mpr hget
      rw [hg] at this
      cases this
  | [c] =>
    have := (hmem c).mp (by rw [hg]; exact List.mem_cons_self)
    rw [this]
    rfl
  | c :: d :: rest =>
    rw [hg] at hnodup
    simp at hnodup

section

variable (h : merge step rows batch = .ok rows')

include h

/-- What a merge leaves at a key: the stored row, unless the batch has an entry for it. -/
theorem foldEntry_of_merge (k : K) :
    foldEntry (step k) rows[k]? batch[k]?.toList = .ok rows'[k]? := by
  rw [← group_toList]
  exact foldEntry_of_collect h k

theorem merge_of_none (hk : batch[k]? = none) :
    rows'[k]? = rows[k]? := by
  have hentry := foldEntry_of_merge h k
  rw [hk] at hentry
  exact (Except.ok.inj hentry).symm

theorem merge_of_some (hk : batch[k]? = some c) :
    step k rows[k]? c = .ok rows'[k]? := by
  have hentry := foldEntry_of_merge h k
  rw [hk] at hentry
  rwa [Option.toList_some, foldEntry_singleton] at hentry

end

/-! ## Tables -/

/-- The row of a key that has elements. -/
def tabulated (row : K → List C → A) (l : List (K × C)) (k : K) : Option A :=
  if group l k = [] then none else some (row k (group l k))

/-- A map that has, at each key with elements, the row these make. -/
def Tabulates (row : K → List C → A) (l : List (K × C)) (m : ExtTreeMap K A) : Prop :=
  ∀ k, m[k]? = tabulated row l k

section Tables

variable {row : K → List C → A} {l l' : List (K × C)} {m m' : ExtTreeMap K A}

omit [Ord K] [TransOrd K] [LawfulEqOrd K] in
theorem tabulated_of_nil (h : group l k = []) : tabulated row l k = none := if_pos h

omit [Ord K] [TransOrd K] [LawfulEqOrd K] in
theorem tabulated_of_ne (h : group l k ≠ []) :
    tabulated row l k = some (row k (group l k)) := if_neg h

omit [Ord K] [TransOrd K] [LawfulEqOrd K] in
/-- Elements of other keys do not change a row. -/
theorem tabulated_append_left (h : group l' k = []) :
    tabulated row (l ++ l') k = tabulated row l k := by
  unfold tabulated
  rw [group_append, h, List.append_nil]

omit [LawfulEqOrd K] in
theorem tabulates_nil : Tabulates row [] (∅ : ExtTreeMap K A) := by
  intro k
  exact getElem?_empty

theorem Tabulates.unique (h : Tabulates row l m) (h' : Tabulates row l m') : m = m' := by
  refine ext_getElem? fun k => ?_
  rw [h k, h' k]

/-- A loop whose steps return the rows of the elements so far. -/
theorem Tabulates.eq_iff (h' : Tabulates row l m') : m = m' ↔ Tabulates row l m :=
  ⟨fun heq => heq ▸ h', fun h => h.unique h'⟩

theorem Tabulates.of_collect {step : K → Option A → C → Except String A}
    (hfirst : ∀ k c a, step k none c = .ok a → a = row k [c])
    (hnext : ∀ k cs c a, cs ≠ [] → step k (some (row k cs)) c = .ok a → a = row k (cs ++ [c]))
    (h : collect (keep step) ∅ l = .ok m) : Tabulates row l m := by
  intro k
  have hentry := foldEntry_of_collect h k
  exact foldEntry_keep_eq (hfirst k) (hnext k) hentry

/-- Writing a batch's table over the rows of what came before. -/
theorem Tabulates.merge {D : Type} {entry : K → List C → D} {batch : ExtTreeMap K D}
    {step : K → Option A → D → Except String A} (hrows : Tabulates row l m)
    (hbatch : Tabulates entry l' batch)
    (hfirst : ∀ k a, group l k = [] → group l' k ≠ [] →
      step k none (entry k (group l' k)) = .ok a → a = row k (group l' k))
    (hnext : ∀ k a, group l k ≠ [] → group l' k ≠ [] →
      step k (some (row k (group l k))) (entry k (group l' k)) = .ok a →
        a = row k (group l k ++ group l' k))
    (h : KeyedFold.merge (keep step) m batch = .ok m') : Tabulates row (l ++ l') m' := by
  intro k
  by_cases hk : group l' k = []
  · have hnone : batch[k]? = none := by rw [hbatch k, tabulated_of_nil hk]
    rw [merge_of_none h hnone, hrows k]
    unfold tabulated
    rw [group_append, hk, List.append_nil]
  · have hsome : batch[k]? = some (entry k (group l' k)) := by rw [hbatch k, tabulated_of_ne hk]
    obtain ⟨a, ha, hrow⟩ := keep_eq_ok.mp (merge_of_some h hsome)
    rw [hrow, tabulated_of_ne (by simp [hk]), group_append]
    by_cases hl : group l k = []
    · rw [hrows k, tabulated_of_nil hl] at ha
      rw [hl, List.nil_append, hfirst k a hl hk ha]
    · rw [hrows k, tabulated_of_ne hl] at ha
      rw [hnext k a hl hk ha]

end Tables

end Maps

end Ckbadger.Lib.KeyedFold
