/-
Ckbadger.Derive.LiveTheorems — what live maintenance stages for an aggregate.

The deltas of a batch are applied in block order, one per block and key, on top of
rows that may themselves be staged. After any number of them a touched key holds
the stored value plus the deltas so far, and every recorded pre-image is the value
just before its delta (`StagedInv`). When the deltas of each block are the change
of the value over that block, pre-images are the values at the end of the block
before (`preImage_exact`).
-/
import Ckbadger.Derive.SchedulerTheorems

namespace Ckbadger.Derive

open List hiding getElem?_insert
open Lib Lib.KeyedSum Store Sync Std ExtTreeMap

variable {staged : StagedAggregate} {acc acc' : DomainBatch × UndoSeqMap} {nowMs : Int}
variable {undoSeq : UndoSeqMap} {s : DomainStore} {es : List (Int × Bytes × List Int)} {tip tip' : Int}
  {rows : List UndoRow} {Γ : Type} {ctx : LiveDeriveCtx Γ} {A : SumAggregate Γ}

/-! ## One aggregate's deltas -/

/-- The sum of the deltas of some entries. -/
def deltaSum (es : List (Int × Bytes × List Int)) (key : Bytes) : Nat → Int :=
  total (es.map Prod.snd) key

@[simp] theorem deltaSum_nil (key : Bytes) : deltaSum [] key = 0 := rfl

theorem deltaSum_snoc (es : List (Int × Bytes × List Int)) (e : Int × Bytes × List Int)
    (key : Bytes) :
    deltaSum (es ++ [e]) key = deltaSum es key + if e.2.1 = key then comps e.2.2 else 0 := by
  simp [deltaSum, total_cons]

theorem deltaSum_of_not_mem {es : List (Int × Bytes × List Int)} {key : Bytes}
    (h : ∀ e ∈ es, e.2.1 ≠ key) : deltaSum es key = 0 := by
  refine total_of_not_mem fun c hc => ?_
  obtain ⟨e, he, rfl⟩ := mem_map.mp hc
  exact h e he

section Staged

variable {id : DerivedAggregateId} {arity : Bytes → Nat} {f : Bytes → Nat → Int}

/-- What the rows and pre-images staged so far hold, given the deltas applied so far. -/
structure StagedInv (arity : Bytes → Nat) (f : Bytes → Nat → Int)
    (done : List (Int × Bytes × List Int)) (st : StagedAggregate) : Prop where
  untouched : ∀ key, st.rows[key]? = none → ∀ e ∈ done, e.2.1 ≠ key
  touched : ∀ key next, st.rows[key]? = some next →
    comps (next.getD []) = f key + deltaSum done key ∧
      next.map encodeDerivedValue = encodeRow (arity key) (f key + deltaSum done key)
  fits : ∀ before after, done = before ++ after → ∀ key i,
    FitsSigned 16 ((f key + deltaSum before key) i)
  undo : ∀ u ∈ st.undo, ∃ before e after, done = before ++ e :: after ∧
    u = (e.1, e.2.1, encodeRow (arity e.2.1) (f e.2.1 + deltaSum before e.2.1))
  covers : ∀ e ∈ done, ∃ u ∈ st.undo, u.1 = e.1 ∧ u.2.1 = e.2.1

theorem StagedInv.nil (h : Represents s id.cf arity f) : StagedInv arity f [] {} where
  untouched key _ e he := by cases he
  touched key next hnext := by simp at hnext
  fits before after h' key i := by
    obtain ⟨rfl, -⟩ := append_eq_nil_iff.mp h'.symm
    simpa using h.fits key i
  undo u hu := by cases hu
  covers e he := by cases he

theorem StagedInv.current {done : List (Int × Bytes × List Int)} {st : StagedAggregate}
    (hst : StagedInv arity f done st) (hrep : Represents s id.cf arity f)
    (hcf : id.cf ∈ derivedCfs) {key : Bytes} {current : Option (List Int)}
    (h : st.current s id.cf key = .ok current) :
    comps (current.getD []) = f key + deltaSum done key ∧
      current.map encodeDerivedValue = encodeRow (arity key) (f key + deltaSum done key) := by
  rw [StagedAggregate.current] at h
  split at h
  · rename_i value hvalue
    cases h
    exact hst.touched key _ hvalue
  · rename_i hnone
    have hzero : deltaSum done key = 0 := deltaSum_of_not_mem (hst.untouched key hnone)
    obtain ⟨current', hget, hcomps, hrow, -⟩ := hrep.getDerivedValue hcf key
    rw [hget] at h
    cases h
    rw [hzero, add_zero]
    exact ⟨hcomps, hrow⟩

theorem StagedInv.snoc {done : List (Int × Bytes × List Int)} {st st' : StagedAggregate}
    {e : Int × Bytes × List Int} (hst : StagedInv arity f done st)
    (hrep : Represents s id.cf arity f) (hcf : id.cf ∈ derivedCfs)
    (harity : e.2.2.length = arity e.2.1) (h : stageDelta s id st e = .ok st') :
    StagedInv arity f (done ++ [e]) st' := by
  obtain ⟨block, k, delta⟩ := e
  obtain ⟨current, hcur, h⟩ := bind_eq_ok.mp h
  obtain ⟨hcomps, hpre⟩ := hst.current hrep hcf hcur
  split at h
  · cases h
  rename_i next hsum
  cases h
  obtain ⟨hrow, hcomps', hfits⟩ := encodeRow_of_sumWith hcomps hsum
  rw [harity] at hrow
  have hself : deltaSum (done ++ [(block, k, delta)]) k = deltaSum done k + comps delta := by
    simp [deltaSum_snoc]
  have hother : ∀ key, k ≠ key → deltaSum (done ++ [(block, k, delta)]) key = deltaSum done key := by
    intro key hk
    simp [deltaSum_snoc, hk]
  constructor
  · intro key hnone
    by_cases hk : k = key
    · simp [hk] at hnone
    · simp only [getElem?_insert, Std.compare_eq_iff_eq, hk] at hnone
      exact forall_mem_append.mpr ⟨hst.untouched key hnone, forall_mem_singleton.mpr hk⟩
  · intro key value hvalue
    by_cases hk : k = key
    · subst hk
      simp only [getElem?_insert_self, Option.some.injEq] at hvalue
      subst hvalue
      rw [hself, ← add_assoc]
      exact ⟨hcomps', hrow⟩
    · simp only [getElem?_insert, Std.compare_eq_iff_eq, hk] at hvalue
      rw [hother key hk]
      exact hst.touched key value hvalue
  · -- a proper prefix was reached before; the whole list holds the new value of `k`
    intro before after hsplit key i
    rcases eq_nil_or_concat after with rfl | ⟨rest, last, rfl⟩
    · rw [append_nil] at hsplit
      subst hsplit
      by_cases hk : k = key
      · subst hk
        rw [hself, ← add_assoc]
        exact hfits i
      · rw [hother key hk]
        exact hst.fits done [] (by simp) key i
    · rw [concat_eq_append, ← append_assoc] at hsplit
      obtain ⟨hdone, -⟩ := append_inj' hsplit rfl
      exact hst.fits before rest hdone key i
  · refine forall_mem_append.mpr ⟨fun u hu => ?_, forall_mem_singleton.mpr
      ⟨done, (block, k, delta), [], rfl, by rw [hpre]⟩⟩
    obtain ⟨before, e, after, rfl, rfl⟩ := hst.undo u hu
    exact ⟨before, e, after ++ [(block, k, delta)], by simp, rfl⟩
  · refine forall_mem_append.mpr ⟨fun e he => ?_, forall_mem_singleton.mpr
      ⟨_, mem_append_right _ mem_cons_self, rfl, rfl⟩⟩
    obtain ⟨u, hu, heq⟩ := hst.covers e he
    exact ⟨u, mem_append_left _ hu, heq⟩

theorem foldlM_stageDelta_ok (hrep : Represents s id.cf arity f) (hcf : id.cf ∈ derivedCfs)
    (harity : ∀ e ∈ es, e.2.2.length = arity e.2.1)
    (h : es.foldlM (stageDelta s id) {} = .ok staged) : StagedInv arity f es staged := by
  suffices hrun : ∀ (done rest : List (Int × Bytes × List Int)) (st : StagedAggregate),
      StagedInv arity f done st → (∀ e ∈ rest, e.2.2.length = arity e.2.1) →
      rest.foldlM (stageDelta s id) st = .ok staged → StagedInv arity f (done ++ rest) staged by
    simpa using hrun [] es {} (.nil hrep) harity h
  intro done rest
  induction rest generalizing done with
  | nil =>
    intro st hst _ h
    cases h
    simpa using hst
  | cons e rest ih =>
    intro st hst harity h
    obtain ⟨mid, hmid, hrest⟩ := foldlM_cons_eq_ok.mp h
    have hmid' := hst.snoc hrep hcf (harity e mem_cons_self) hmid
    simpa using ih (done ++ [e]) mid hmid' (forall_mem_cons.mp harity).2 hrest

/-- A store that holds the staged rows represents the value with the deltas added. -/
theorem StagedInv.represents {s' : DomainStore} (hst : StagedInv arity f es staged)
    (hrep : Represents s id.cf arity f) (harity : ∀ e ∈ es, e.2.2.length = arity e.2.1)
    (hrows : ∀ key, s'.get id.cf key
      = staged.rows[key]?.elim (s.get id.cf key) (Option.map encodeDerivedValue)) :
    Represents s' id.cf arity fun key => f key + deltaSum es key := by
  refine ⟨fun key => ?_, hst.fits es [] (by simp), fun key i hi => ?_⟩
  · rw [hrows]
    cases hrow : staged.rows[key]? with
    | some next => exact (hst.touched key next hrow).2
    | none =>
      rw [Option.elim_none, hrep.row, deltaSum_of_not_mem (hst.untouched key hrow), add_zero]
  · rw [Pi.add_apply, hrep.support key i hi, zero_add]
    refine total_apply_of_length_le fun c hc heq => ?_
    obtain ⟨e, he, rfl⟩ := mem_map.mp hc
    rw [harity e he, heq]
    exact hi

/-- Rows and pre-images are staged for keys, and at blocks, that have a delta. -/
theorem foldlM_stageDelta_touches (h : es.foldlM (stageDelta s id) {} = .ok staged) :
    (∀ key, staged.rows[key]? ≠ none → ∃ e ∈ es, e.2.1 = key) ∧
      ∀ u ∈ staged.undo, ∃ e ∈ es, e.1 = u.1 ∧ e.2.1 = u.2.1 := by
  refine foldlM_invariant (fun st : StagedAggregate =>
    (∀ key, st.rows[key]? ≠ none → ∃ e ∈ es, e.2.1 = key) ∧
      ∀ u ∈ st.undo, ∃ e ∈ es, e.1 = u.1 ∧ e.2.1 = u.2.1) ?_
    ⟨fun key hkey => absurd (by simp) hkey, fun u hu => by cases hu⟩ h
  rintro st ⟨block, k, delta⟩ st' he ⟨hrows, hundo⟩ hst
  obtain ⟨current, -, hst⟩ := bind_eq_ok.mp hst
  split at hst
  · cases hst
  · cases hst
    refine ⟨fun key hkey => ?_, fun u hu => ?_⟩
    · by_cases hk : k = key
      · exact ⟨_, he, hk⟩
      · simp only [getElem?_insert, Std.compare_eq_iff_eq, hk]
          at hkey
        exact hrows key hkey
    · rcases mem_append.mp hu with hu | hu
      · exact hundo u hu
      · rw [mem_singleton] at hu
        subst hu
        exact ⟨_, he, rfl, rfl⟩

end Staged

/-! ## Blocks -/

/-- Entries come in block order, each key once per block. -/
theorem BlockDeltas.entries_sorted (deltas : BlockDeltas) :
    deltas.entries.Pairwise fun a b => a.1 ≤ b.1 ∧ (a.1 = b.1 → a.2.1 ≠ b.2.1) := by
  rw [BlockDeltas.entries, pairwise_flatMap]
  constructor
  · intro keyed _
    rw [pairwise_map]
    refine ordered_keys_toList.imp fun {a b} hlt => ⟨le_rfl, fun _ heq => ?_⟩
    have heq : a.1 = b.1 := heq
    simp [heq] at hlt
  · refine ordered_keys_toList.imp fun {a b} hlt x hx y hy => ?_
    obtain ⟨c, -, rfl⟩ := mem_map.mp hx
    obtain ⟨d, -, rfl⟩ := mem_map.mp hy
    have hlt' : a.1 < b.1 := compare_lt_iff_lt.mp hlt
    exact ⟨hlt'.le, fun heq => absurd heq hlt'.ne⟩

section Blocks

variable {V : Int → Bytes → Nat → Int}

/-- The deltas of the blocks of a batch are the changes of a value over them. -/
structure ExactDeltas (es : List (Int × Bytes × List Int)) (tip tip' : Int)
    (V : Int → Bytes → Nat → Int) : Prop where
  blocks : ∀ e ∈ es, tip < e.1 ∧ e.1 ≤ tip'
  change : ∀ b, tip < b → b ≤ tip' → ∀ key,
    deltaSum (es.filter fun e => e.1 = b) key = V b key - V (b - 1) key

section

variable (h : ExactDeltas es tip tip' V)

include h

theorem ExactDeltas.upTo {b : Int} (hlo : tip ≤ b) (hhi : b ≤ tip')
    (key : Bytes) : deltaSum (es.filter fun e => e.1 ≤ b) key = V b key - V tip key := by
  induction b, hlo using Int.leInduction with
  | base =>
    have hnone : (es.filter fun e => e.1 ≤ tip) = [] := by
      rw [filter_eq_nil_iff]
      intro e he
      have := (h.blocks e he).1
      simp [this]
    rw [hnone, deltaSum_nil, sub_self]
  | succ n hn ih =>
    have hsplit : (es.filter fun e => e.1 ≤ n + 1)
        = es.filter fun e => decide (e.1 ≤ n) || decide (e.1 = n + 1) := by
      refine filter_congr fun e _ => ?_
      rw [← Bool.decide_or, decide_eq_decide]
      omega
    have hdisjoint : ∀ e ∈ es, decide (e.1 ≤ n) = true → decide (e.1 = n + 1) = false := by
      intro e _ hle
      simp only [decide_eq_true_eq] at hle
      exact decide_eq_false (by omega)
    have hchange := h.change (n + 1) (by omega) hhi key
    have hupto := ih (by omega)
    unfold deltaSum at hupto hchange ⊢
    rw [hsplit, total_filter_or es Prod.snd _ _ hdisjoint, hupto, hchange]
    abel_nf

theorem ExactDeltas.sum (hle : tip ≤ tip') (key : Bytes) :
    deltaSum es key = V tip' key - V tip key := by
  rw [← h.upTo hle le_rfl, filter_eq_self.mpr fun e he => by simpa using (h.blocks e he).2]

section

variable (hsorted : es.Pairwise fun a b => a.1 ≤ b.1 ∧ (a.1 = b.1 → a.2.1 ≠ b.2.1))

include hsorted

/-- **A recorded pre-image is the value at the end of the block before.** -/
theorem ExactDeltas.preImage {before after : List (Int × Bytes × List Int)} {e : Int × Bytes × List Int}
    (hsplit : es = before ++ e :: after) :
    V tip e.2.1 + deltaSum before e.2.1 = V (e.1 - 1) e.2.1 := by
  have he := h.blocks e (by simp [hsplit])
  have hupto := h.upTo (show tip ≤ e.1 - 1 by omega) (by omega) e.2.1
  -- of the entries before `e`, those of its own block are about other keys
  subst hsplit
  obtain ⟨-, hcons, hbefore⟩ := pairwise_append.mp hsorted
  have hafter := (pairwise_cons.mp hcons).1
  have hnone : (e :: after).filter (fun e' => decide (e'.1 ≤ e.1 - 1)) = [] := by
    rw [filter_eq_nil_iff]
    intro e' he'
    rcases mem_cons.mp he' with rfl | he'
    · simp
    · have := (hafter e' he').1
      simp only [decide_eq_true_eq]
      omega
  have hkeep : deltaSum (before.filter fun e' => decide (e'.1 ≤ e.1 - 1)) e.2.1
      = deltaSum before e.2.1 := by
    have hsum := total_filter_or before Prod.snd (fun e' => decide (e'.1 ≤ e.1 - 1))
      (fun e' => !decide (e'.1 ≤ e.1 - 1)) (fun e' _ hp => by rw [hp]; rfl) e.2.1
    have hrest : deltaSum (before.filter fun e' => !decide (e'.1 ≤ e.1 - 1)) e.2.1 = 0 := by
      refine deltaSum_of_not_mem fun e' he' => ?_
      obtain ⟨he', hlate⟩ := mem_filter.mp he'
      obtain ⟨hle, hne⟩ := hbefore e' he' e mem_cons_self
      simp only [Bool.not_eq_true', decide_eq_false_iff_not] at hlate
      exact hne (by omega)
    unfold deltaSum at hrest ⊢
    rw [hrest, add_zero] at hsum
    rw [← hsum, filter_eq_self.mpr fun e' _ => by simp]
  rw [filter_append, hnone, append_nil, hkeep] at hupto
  rw [hupto]
  abel

/-- The value at the end of each block is a value the batch went through. -/
theorem ExactDeltas.reached {b : Int}
    (hlo : tip ≤ b) (hhi : b ≤ tip') (key : Bytes) :
    ∃ before after, es = before ++ after ∧ V tip key + deltaSum before key = V b key := by
  refine ⟨es.filter fun e => e.1 ≤ b, es.filter fun e => !decide (e.1 ≤ b), ?_, ?_⟩
  · have hmono : es.Pairwise fun a b => a.1 ≤ b.1 := hsorted.imp fun h => h.1
    clear h hsorted
    induction es with
    | nil => rfl
    | cons e es ih =>
      obtain ⟨hhead, htail⟩ := pairwise_cons.mp hmono
      by_cases hle : e.1 ≤ b
      · simp only [filter_cons, hle, decide_true, if_true, cons_append, List.cons.injEq,
          true_and]
        exact ih htail
      · have hall : ∀ e' ∈ e :: es, decide (e'.1 ≤ b) = false := by
          intro e' he'
          rcases mem_cons.mp he' with rfl | he'
          · simpa using hle
          · have := hhead e' he'
            exact decide_eq_false (by omega)
        rw [filter_eq_nil_iff.mpr fun e' he' => by simp [hall e' he'],
          filter_eq_self.mpr fun e' he' => by simp [hall e' he'], nil_append]
  · rw [h.upTo hlo hhi]
    abel

end

end

end Blocks

/-! ## Staging into the batch -/

theorem ofName?_name_of_derived {cf : Cf} (h : cf ∈ derivedCfs) : Cf.ofName? cf.name = some cf := by
  revert cf
  decide

theorem name_ne_of_derived {cf cf' : Cf} (h : cf ∈ derivedCfs) (h' : cf' ∈ derivedCfs)
    (hne : cf ≠ cf') : cf.name ≠ cf'.name := by
  intro heq
  have hname := ofName?_name_of_derived h
  rw [heq, ofName?_name_of_derived h'] at hname
  exact hne (Option.some.inj hname).symm

section Into

variable [Codec UndoLogEntry] {cf : Cf}

/-- Recording pre-images appends one row of the `Derived` scope for each. -/
theorem foldlM_recordDerived_ok {us : List (Int × Bytes × Option Bytes)} (hdrawn : Drawn acc.2 rows)
    (h : us.foldlM (recordDerived cf) acc = .ok acc') :
    ∃ drows : List UndoRow, acc'.1 = acc.1 ++ drows.map UndoRow.op ∧ Drawn acc'.2 (rows ++ drows) ∧
      drows.map (fun row => (row.block, row.entry))
        = us.map (fun u => (u.1, UndoLogEntry.keyMutation .domain cf.name u.2.1 u.2.2)) ∧
      ∀ row ∈ drows, UndoSeqScope.derived.owns row.seq = true := by
  induction us generalizing acc rows with
  | nil =>
    cases h
    exact ⟨[], by simp, by simpa using hdrawn, rfl, fun row hrow => by cases hrow⟩
  | cons u us ih =>
    obtain ⟨block, key, pre⟩ := u
    obtain ⟨mid, hmid, hrest⟩ := foldlM_cons_eq_ok.mp h
    simp only [recordDerived] at hmid
    split at hmid
    · cases hmid
    rename_i seq undoSeq hnext
    cases hmid
    obtain ⟨drows, hbatch, hdrawn', hrows, howns⟩ := ih (hdrawn.snoc hnext _) hrest
    refine ⟨⟨block, seq, _⟩ :: drows, by simpa using hbatch, by simpa using hdrawn', ?_, ?_⟩
    · rw [map_cons, hrows, map_cons]
    · refine forall_mem_cons.mpr ⟨?_, howns⟩
      rw [nextUndoSeq_owns hnext]
      rfl

omit [Codec UndoLogEntry] in
theorem foldlM_putDerivedValue_ok (hcf : cf ∈ derivedCfs)
    (staged : List (Bytes × Option (List Int))) (batch : DomainBatch) :
    staged.foldlM (fun batch row => putDerivedValue batch cf row.1 row.2) batch
      = .ok (batch ++ (staged.map fun row => (row.1, row.2.map encodeDerivedValue)).map
          fun row => WriteOp.set cf row.1 row.2) := by
  induction staged generalizing batch with
  | nil => simp
  | cons row staged ih =>
    rw [foldlM_cons, putDerivedValue_ok hcf]
    exact (ih _).trans (by simp)

/-- What `stageInto` appends: the pre-images, then the rows. -/
theorem stageInto_ok {batch batch' : DomainBatch}
    {undoSeq' : UndoSeqMap} (hcf : cf ∈ derivedCfs) (hdrawn : Drawn undoSeq rows)
    (h : stageInto staged cf batch undoSeq = .ok (batch', undoSeq')) :
    ∃ drows : List UndoRow, batch' = batch ++ (drows.map UndoRow.op ++
        (staged.rows.toList.map fun row => (row.1, row.2.map encodeDerivedValue)).map
          fun row => WriteOp.set cf row.1 row.2) ∧
      Drawn undoSeq' (rows ++ drows) ∧
      drows.map (fun row => (row.block, row.entry))
        = staged.undo.map (fun u => (u.1, UndoLogEntry.keyMutation .domain cf.name u.2.1 u.2.2)) ∧
      ∀ row ∈ drows, UndoSeqScope.derived.owns row.seq = true := by
  obtain ⟨⟨batch₁, undoSeq₁⟩, hrecord, h⟩ := bind_eq_ok.mp h
  obtain ⟨batch₂, hput, h⟩ := bind_eq_ok.mp h
  cases h
  rw [foldlM_putDerivedValue_ok hcf] at hput
  cases hput
  obtain ⟨drows, hbatch, hrest⟩ := foldlM_recordDerived_ok hdrawn hrecord
  simp only at hbatch
  exact ⟨drows, by rw [hbatch, append_assoc], hrest⟩

end Into

/-! ## All aggregates -/

section Batch

variable [Codec UndoLogEntry] [Codec DeriveMeta] {aggregates : List (SumAggregate Γ)}

/-- What a batch's extension `ext`, with its pre-images `drows`, does for one aggregate. -/
inductive LiveEffect (s : DomainStore) (ctx : LiveDeriveCtx Γ) (A : SumAggregate Γ)
    (ext : DomainBatch) (drows : List UndoRow) : Prop where
  | skipped {m : Option DeriveMeta} (hm : getDeriveMeta s A.id.name = .ok m)
      (hnot : m.any (·.isMaintained A.id) = false)
      (hrows : ∀ key v, rowAfter A.id.cf key v ext = v)
      (hundo : ∀ row ∈ drows, ∀ key pre, row.entry ≠ .keyMutation .domain A.id.cf.name key pre)
  | applied {m : DeriveMeta} {deltas : BlockDeltas} {staged : StagedAggregate}
      (hm : getDeriveMeta s A.id.name = .ok (some m)) (hmaintained : m.isMaintained A.id = true)
      (hdeltas : A.liveDeltas ctx = .ok deltas)
      (hstaged : deltas.entries.foldlM (stageDelta s A.id) {} = .ok staged)
      (hrows : ∀ key v, rowAfter A.id.cf key v ext
        = staged.rows[key]?.elim v (Option.map encodeDerivedValue))
      (hundo : ∀ block key pre, (∃ row ∈ drows, row.block = block ∧
        row.entry = .keyMutation .domain A.id.cf.name key pre) ↔ (block, key, pre) ∈ staged.undo)

omit [Codec UndoLogEntry] in
/-- The effect on one aggregate reads its own column family and its own pre-images. -/
theorem LiveEffect.congr {ext ext' : DomainBatch} {drows drows' : List UndoRow}
    (h : LiveEffect s ctx A ext drows)
    (hext : ∀ key v, rowAfter A.id.cf key v ext' = rowAfter A.id.cf key v ext)
    (hdrows : ∀ row key pre, row.entry = .keyMutation .domain A.id.cf.name key pre →
      (row ∈ drows' ↔ row ∈ drows)) : LiveEffect s ctx A ext' drows' := by
  cases h with
  | skipped hm hnot hrows hundo =>
    refine .skipped hm hnot (fun key v => by rw [hext, hrows]) fun row hrow key pre hentry => ?_
    exact hundo row ((hdrows row key pre hentry).mp hrow) key pre hentry
  | applied hm hmaintained hdeltas hstaged hrows hundo =>
    refine .applied hm hmaintained hdeltas hstaged (fun key v => by rw [hext, hrows])
      fun block key pre => ?_
    rw [← hundo]
    refine exists_congr fun row => and_congr_left fun hrow => ?_
    exact hdrows row key pre hrow.2

/-- What live maintenance appends to a batch. -/
structure LiveStaged (s : DomainStore) (ctx : LiveDeriveCtx Γ) (aggregates : List (SumAggregate Γ))
    (ext : DomainBatch) (drows : List UndoRow) : Prop where
  log : ∀ key v, rowAfter .reorgUndoLogByBlock key v ext
    = rowAfter .reorgUndoLogByBlock key v (drows.map UndoRow.op)
  frame : ∀ cf key v, cf ≠ .reorgUndoLogByBlock → (∀ A ∈ aggregates, A.id.cf ≠ cf) →
    rowAfter cf key v ext = v
  rows : ∀ row ∈ drows, UndoSeqScope.derived.owns row.seq = true ∧ ∃ A ∈ aggregates, ∃ key pre,
    row.entry = .keyMutation .domain A.id.cf.name key pre
  each : ∀ A ∈ aggregates, LiveEffect s ctx A ext drows

theorem LiveStaged.nil : LiveStaged s ctx [] [] [] where
  log _ _ := rfl
  frame _ _ _ _ _ := rfl
  rows row hrow := by cases hrow
  each A hA := by cases hA

/-- One aggregate, then others that share nothing with it. -/
theorem LiveStaged.cons {rest : List (SumAggregate Γ)}
    {ext₁ ext₂ : DomainBatch} {drows₁ drows₂ : List UndoRow}
    (hdistinct : ∀ B ∈ rest, A.id.cf ≠ B.id.cf) (h₁ : LiveStaged s ctx [A] ext₁ drows₁)
    (h₂ : LiveStaged s ctx rest ext₂ drows₂) :
    LiveStaged s ctx (A :: rest) (ext₁ ++ ext₂) (drows₁ ++ drows₂) := by
  have hlog : A.id.cf ≠ .reorgUndoLogByBlock := (ne_of_mem_derivedCfs A.derived).2
  have hkeepA : ∀ key v, rowAfter A.id.cf key v ext₂ = v := fun key v =>
    h₂.frame _ key v hlog fun B hB => (hdistinct B hB).symm
  have hkeepB : ∀ B ∈ rest, ∀ key v, rowAfter B.id.cf key v ext₁ = v := by
    intro B hB key v
    exact h₁.frame _ key v (ne_of_mem_derivedCfs B.derived).2
      (forall_mem_singleton.mpr (hdistinct B hB))
  -- pre-images of one aggregate are no pre-images of another
  have hotherA : ∀ row ∈ drows₂, ∀ key pre,
      row.entry ≠ .keyMutation .domain A.id.cf.name key pre := by
    intro row hrow key pre heq
    obtain ⟨-, B, hB, key', pre', hentry⟩ := h₂.rows row hrow
    rw [heq] at hentry
    injection hentry with _ hname
    exact name_ne_of_derived A.derived B.derived (hdistinct B hB) hname
  have hotherB : ∀ B ∈ rest, ∀ row ∈ drows₁, ∀ key pre,
      row.entry ≠ .keyMutation .domain B.id.cf.name key pre := by
    intro B hB row hrow key pre heq
    obtain ⟨-, A', hA', key', pre', hentry⟩ := h₁.rows row hrow
    rw [mem_singleton.mp hA', heq] at hentry
    injection hentry with _ hname
    exact name_ne_of_derived B.derived A.derived (hdistinct B hB).symm hname
  refine ⟨fun key v => ?_, fun cf key v hcf hne => ?_, fun row hrow => ?_, fun B hB => ?_⟩
  · rw [rowAfter_append, h₁.log, h₂.log, map_append, rowAfter_append]
  · obtain ⟨hA, hrest⟩ := forall_mem_cons.mp hne
    rw [rowAfter_append, h₁.frame cf key v hcf (forall_mem_singleton.mpr hA),
      h₂.frame cf key v hcf hrest]
  · rcases mem_append.mp hrow with hrow | hrow
    · obtain ⟨howns, A', hA', hentry⟩ := h₁.rows row hrow
      rw [mem_singleton.mp hA'] at hentry
      exact ⟨howns, A, mem_cons_self, hentry⟩
    · obtain ⟨howns, B, hB, hentry⟩ := h₂.rows row hrow
      exact ⟨howns, B, mem_cons_of_mem _ hB, hentry⟩
  · rcases mem_cons.mp hB with rfl | hB
    · refine (h₁.each B mem_cons_self).congr (fun key v => by rw [rowAfter_append, hkeepA]) ?_
      intro row key pre hentry
      rw [mem_append]
      exact or_iff_left fun hrow => hotherA row hrow key pre hentry
    · refine (h₂.each B hB).congr (fun key v => by rw [rowAfter_append, hkeepB B hB]) ?_
      intro row key pre hentry
      rw [mem_append]
      exact or_iff_right fun hrow => hotherB B hB row hrow key pre hentry

/-- The rows and pre-images staged for one aggregate, appended to the batch. -/
theorem stageInto_effect {m : DeriveMeta} (hm : getDeriveMeta s A.id.name = .ok (some m))
    (hmaintained : m.isMaintained A.id = true)
    (hdrawn : Drawn acc.2 rows) (hstage : stageOne s A.toDerivedAggregate m ctx = .ok staged)
    (hinto : stageInto staged A.id.cf acc.1 acc.2 = .ok acc') :
    ∃ ext drows, acc'.1 = acc.1 ++ ext ∧ Drawn acc'.2 (rows ++ drows) ∧
      LiveStaged s ctx [A] ext drows := by
  obtain ⟨deltas, hdeltas, hstage⟩ := bind_eq_ok.mp hstage
  obtain ⟨staged', hstaged, hstage⟩ := bind_eq_ok.mp hstage
  have hsame : staged' = staged := by
    split at hstage
    · obtain ⟨_, -, hstage⟩ := bind_eq_ok.mp hstage
      exact Except.ok.inj hstage
    · exact Except.ok.inj hstage
  subst hsame
  obtain ⟨hsync, hlog⟩ := ne_of_mem_derivedCfs A.derived
  obtain ⟨drows, hbatch, hdrawn', hundo, howns⟩ := stageInto_ok A.derived hdrawn hinto
  have hnodup : ((staged'.rows.toList.map fun row => (row.1, row.2.map encodeDerivedValue)).map
      Prod.fst).Nodup := by
    rw [List.map_map, List.nodup_iff_pairwise_ne, List.pairwise_map]
    refine ordered_keys_toList.imp fun {a b} hlt heq => ?_
    have heq : a.1 = b.1 := heq
    simp [heq] at hlt
  -- the recorded rows are those of the pre-images
  have hpre : ∀ block entry, (∃ row ∈ drows, row.block = block ∧ row.entry = entry) ↔
      ∃ u ∈ staged'.undo, u.1 = block ∧ .keyMutation .domain A.id.cf.name u.2.1 u.2.2 = entry := by
    intro block entry
    have hmem := congrArg ((block, entry) ∈ ·) hundo
    simpa only [List.mem_map, Prod.mk.injEq, eq_iff_iff] using hmem
  refine ⟨_, drows, hbatch, hdrawn', fun key v => ?_, fun cf key v hcf hne => ?_,
    fun row hrow => ?_, fun B hB => ?_⟩
  · rw [rowAfter_append, rowAfter_sets_of_ne hlog]
  · rw [rowAfter_append, rowAfter_sets_of_ne (hne A List.mem_cons_self),
      rowAfter_rows_of_ne _ fun hc => absurd hc hcf]
  · obtain ⟨u, -, -, hentry⟩ := (hpre _ _).mp ⟨row, hrow, rfl, rfl⟩
    exact ⟨howns row hrow, A, List.mem_cons_self, _, _, hentry.symm⟩
  · rw [List.mem_singleton.mp hB]
    refine .applied hm hmaintained hdeltas hstaged (fun key v => ?_) fun block key pre => ?_
    · rw [rowAfter_append, rowAfter_rows_of_ne _ fun hc => absurd hc hlog]
      cases hrow : staged'.rows[key]? with
      | none =>
        refine rowAfter_sets_of_not_mem fun hmem => ?_
        rw [List.map_map] at hmem
        obtain ⟨row, hrow', rfl⟩ := List.mem_map.mp hmem
        have := mem_toList_iff_getElem?_eq_some.mp hrow'
        rw [Function.comp_apply, this] at hrow
        cases hrow
      | some value =>
        exact rowAfter_sets_of_mem hnodup (List.mem_map.mpr ⟨(key, value),
          mem_toList_iff_getElem?_eq_some.mpr hrow, rfl⟩) v
    · rw [hpre]
      constructor
      · rintro ⟨u, hu, rfl, hentry⟩
        cases hentry
        exact hu
      · intro hu
        exact ⟨_, hu, rfl, rfl⟩

theorem applyLiveOne_ok (hdrawn : Drawn acc.2 rows)
    (h : applyLiveOne s ctx nowMs acc A.toDerivedAggregate = .ok acc') :
    ∃ ext drows, acc'.1 = acc.1 ++ ext ∧ Drawn acc'.2 (rows ++ drows) ∧
      LiveStaged s ctx [A] ext drows := by
  have hskip : ∀ m, getDeriveMeta s A.id.name = .ok m → m.any (·.isMaintained A.id) = false →
      ∃ ext drows, acc.1 = acc.1 ++ ext ∧ Drawn acc.2 (rows ++ drows) ∧
        LiveStaged s ctx [A] ext drows := by
    intro m hm hnot
    refine ⟨[], [], by simp, by simpa using hdrawn, fun _ _ => rfl, fun _ _ _ _ _ => rfl,
      fun row hrow => (by cases hrow), fun B hB => ?_⟩
    rw [mem_singleton.mp hB]
    exact .skipped hm hnot (fun _ _ => rfl) fun row hrow => by cases hrow
  simp only [applyLiveOne] at h
  cases hm : getDeriveMeta s A.id.name with
  | error e =>
    rw [hm] at h
    cases h
  | ok m =>
    rw [hm] at h
    cases m with
    | none =>
      cases h
      exact hskip none hm rfl
    | some m =>
      cases hmaintained : m.isMaintained A.id with
      | false =>
        simp only [hmaintained] at h
        cases h
        exact hskip (some m) hm (by simpa using hmaintained)
      | true =>
        simp only [hmaintained, Bool.not_true, Bool.false_eq_true, if_false] at h
        split at h
        · rename_i staged hstage
          split at h
          · rename_i acc'' hinto
            cases h
            exact stageInto_effect hm hmaintained hdrawn hstage hinto
          · cases h
        · cases h

/-- **What live maintenance appends to a batch.** -/
theorem foldlM_applyLiveOne_ok (hdistinct : aggregates.Pairwise fun A B => A.id.cf ≠ B.id.cf)
    (hdrawn : Drawn acc.2 rows)
    (h : (aggregates.map (·.toDerivedAggregate)).foldlM (applyLiveOne s ctx nowMs) acc = .ok acc') :
    ∃ ext drows, acc'.1 = acc.1 ++ ext ∧ Drawn acc'.2 (rows ++ drows) ∧
      LiveStaged s ctx aggregates ext drows := by
  induction aggregates generalizing acc rows with
  | nil =>
    cases h
    exact ⟨[], [], by simp, by simpa using hdrawn, .nil⟩
  | cons A rest ih =>
    obtain ⟨hA, hrest⟩ := pairwise_cons.mp hdistinct
    obtain ⟨mid, hmid, h⟩ := foldlM_cons_eq_ok.mp h
    obtain ⟨ext₁, drows₁, hbatch₁, hdrawn₁, hstaged₁⟩ := applyLiveOne_ok hdrawn hmid
    obtain ⟨ext₂, drows₂, hbatch₂, hdrawn₂, hstaged₂⟩ := ih hrest hdrawn₁ h
    refine ⟨ext₁ ++ ext₂, drows₁ ++ drows₂, ?_, ?_, .cons hA hstaged₁ hstaged₂⟩
    · rw [hbatch₂, hbatch₁, append_assoc]
    · rw [← append_assoc]
      exact hdrawn₂

/-- The pre-images a batch records are at blocks that have deltas. -/
theorem LiveStaged.blocks {ext : DomainBatch} {drows : List UndoRow} {tip tip' : Int}
    (h : LiveStaged s ctx aggregates ext drows) {V : SumAggregate Γ → Int → Bytes → Nat → Int}
    (hexact : ∀ A ∈ aggregates, ∀ deltas, A.liveDeltas ctx = .ok deltas →
      ExactDeltas deltas.entries tip tip' (V A)) :
    ∀ row ∈ drows, tip < row.block ∧ row.block ≤ tip' := by
  intro row hrow
  obtain ⟨-, A, hA, key, pre, hentry⟩ := h.rows row hrow
  cases h.each A hA with
  | skipped _ _ _ hundo => exact absurd hentry (hundo row hrow key pre)
  | applied _ _ hdeltas hstaged _ hundo =>
    have hu := (hundo row.block key pre).mp ⟨row, hrow, rfl, hentry⟩
    obtain ⟨e, he, hblock, -⟩ := (foldlM_stageDelta_touches hstaged).2 _ hu
    have := (hexact A hA _ hdeltas).blocks e he
    omega

end Batch

/-! ## The invariant of one aggregate -/

section Invariant

variable [Codec DeriveMeta] {i : Nat} {sched : SchedulerState} {s' : DomainStore}
  {ext : DomainBatch} {drows : List UndoRow}

/-- The deltas of a batch change the rows of an aggregate as its blocks change its value. -/
theorem AggregateInv.live (h : AggregateInv A i sched)
    (heffect : LiveEffect sched.store ctx A ext drows)
    (hrows : ∀ key, s'.get A.id.cf key = rowAfter A.id.cf key (sched.store.get A.id.cf key) ext)
    (hstate : getDeriveMeta s' A.id.name = getDeriveMeta sched.store A.id.name)
    (htip : tip ≤ tip') {V : Int → Bytes → Nat → Int}
    (hexact : ∀ deltas, A.liveDeltas ctx = .ok deltas → ExactDeltas deltas.entries tip tip' V)
    (hbefore : V tip = A.value sched.store) (hafter : V tip' = A.value s') :
    AggregateInv A i ⟨s', sched.active⟩ := by
  cases heffect with
  | skipped hm hnot hkeep _ =>
    exact h.unmaintained (fun key => by rw [hrows, hkeep]) hstate (fun _ _ ha => ha) hm hnot
  | @applied m deltas staged hm hmaintained hdeltas hstaged hstagedRows _ =>
    have hwf := A.live_wf hdeltas
    have harity : ∀ e ∈ deltas.entries, e.2.2.length = A.arity e.2.1 := fun e he => (hwf e he).1
    have hget : ∀ key, s'.get A.id.cf key
        = staged.rows[key]?.elim (sched.store.get A.id.cf key) (Option.map encodeDerivedValue) :=
      fun key => by rw [hrows, hstagedRows]
    -- whatever the rows stood for, they now stand for it with the change of the value added
    have hadd : ∀ f, Represents sched.store A.id.cf A.arity f → Represents s' A.id.cf A.arity
        fun key => f key + (A.value s' key - A.value sched.store key) := by
      intro f hrep
      have hinv := foldlM_stageDelta_ok hrep A.derived harity hstaged
      have hrep' := hinv.represents hrep harity hget
      have hsum := fun key => (hexact deltas hdeltas).sum htip key
      rw [hbefore, hafter] at hsum
      simpa only [hsum] using hrep'
    refine .of_state (fun key hkey => ?_) (hstate.trans hm) (fun hs => ?_) (fun hc => ?_)
      fun a ha => ⟨hmaintained, ?_⟩
    · rw [hget] at hkey
      cases hrow : staged.rows[key]? with
      | none =>
        rw [hrow] at hkey
        exact h.keys key hkey
      | some value =>
        obtain ⟨e, he, rfl⟩ := (foldlM_stageDelta_touches hstaged).1 key (by simp [hrow])
        exact (hwf e he).2
    · rcases (DeriveMeta.isMaintained_iff.mp hmaintained).2 with ⟨_, _, _, _, hrun⟩ | ⟨_, _, _, hrun⟩
      · rw [hrun] at hs
        cases hs
      · rw [hrun] at hs
        cases hs
    · have hrep := hadd _ (h.complete m hm hc)
      simpa only [add_sub_cancel] using hrep
    · have hrep := hadd _ (h.running (some m) a hm ha).2
      convert hrep using 2 with key
      abel

variable [Codec UndoLogEntry] [Codec CachedBlockHeader]

/-- A batch that is given up marks one aggregate at most. -/
theorem applyLiveBatch_failed {R : Registry Γ} {ops : DomainBatch} {failure : LiveFailure}
    (h : ∀ i A, R.aggregates[i]? = some A → AggregateInv A i sched)
    (hlive : applyLiveBatch sched.store R.registered ctx ops undoSeq nowMs = .error failure) :
    StepEffect R.aggregates sched ⟨failure.store, none⟩ := by
  have hone : ∀ A ∈ R.aggregates, ∀ acc,
      applyLiveOne sched.store ctx nowMs acc A.toDerivedAggregate = .error failure →
      StepEffect R.aggregates sched ⟨failure.store, none⟩ := by
    intro A hA acc herr
    obtain ⟨i, hi⟩ := mem_iff_getElem?.mp hA
    simp only [applyLiveOne] at herr
    split at herr
    · cases herr
      exact .unchanged rfl (.inl rfl)
    · cases herr
    split at herr
    · cases herr
    split at herr
    · split at herr
      · cases herr
      · cases herr
        exact .unchanged rfl (.inl rfl)
    · rename_i m hm _ _ e _
      cases herr
      exact recordFailureBeforeStop_effect (h i A hi) hi m _ nowMs
  suffices hrun : ∀ (aggregates : List (SumAggregate Γ)) (acc : DomainBatch × UndoSeqMap),
      (∀ A ∈ aggregates, A ∈ R.aggregates) →
      (aggregates.map (·.toDerivedAggregate)).foldlM (applyLiveOne sched.store ctx nowMs) acc
        = .error failure → StepEffect R.aggregates sched ⟨failure.store, none⟩ from
    hrun R.aggregates _ (fun A hA => hA) hlive
  intro aggregates
  induction aggregates with
  | nil =>
    intro acc _ herr
    cases herr
  | cons A rest ih =>
    intro acc hsub herr
    rw [map_cons, foldlM_cons] at herr
    cases hA : applyLiveOne sched.store ctx nowMs acc A.toDerivedAggregate with
    | error e =>
      rw [hA] at herr
      cases herr
      exact hone A (hsub A mem_cons_self) acc hA
    | ok acc' =>
      rw [hA] at herr
      exact ih acc' (forall_mem_cons.mp hsub).2 herr

end Invariant

end Ckbadger.Derive
