/-
Ckbadger.Derive.ResetTheorems — what startup and the preparation of a rollback do
to the registered aggregates.

Both stage a list of resets: the rows of an aggregate cleared and its state put
back to not started. `resetOps` is that list as operations; the lemmas below say
what it leaves of an aggregate that is reset, and of one that is not.
-/
import Ckbadger.Derive.SchedulerTheorems
import Ckbadger.Store.UndoLogTheorems

namespace Ckbadger.Derive

open Lib Store DeriveMeta List

variable {resets : List (DerivedAggregateId × Nat)} {Γ : Type} {R : Registry Γ} {s s' : DomainStore}
  {A : SumAggregate Γ}

section Ops

variable [Codec DeriveMeta]

/-- The operations that reset aggregates, each with the run counter it keeps. -/
def resetOps (resets : List (DerivedAggregateId × Nat)) : DomainBatch :=
  resets.flatMap fun r => [.deleteRange r.1.cf [] derivedClearEnd,
    .put .syncMeta (encodeDeriveMetaKey r.1.name) (Codec.serialize (notStarted r.1.version r.2))]

variable {v : Option Bytes}

theorem stageReset_ok {batch : DomainBatch} {id : DerivedAggregateId}
    {previous : Option DeriveMeta} (h : id.cf ∈ derivedCfs) :
    stageReset batch id previous = .ok (batch ++ resetOps [(id, (previous.map run).getD 0)]) := by
  simp only [stageReset, clearDerivedCf_ok h, resetOps, putDeriveMeta]
  simp

theorem resetOps_append (a b : List (DerivedAggregateId × Nat)) :
    resetOps (a ++ b) = resetOps a ++ resetOps b := by
  simp [resetOps]

theorem resetOps_cons (r : DerivedAggregateId × Nat) (rest : List (DerivedAggregateId × Nat)) :
    resetOps (r :: rest) = resetOps [r] ++ resetOps rest :=
  resetOps_append [r] rest

theorem rowAfter_resetOps_of_ne {cf : Cf} {key : Bytes} (hcf : ∀ r ∈ resets, r.1.cf ≠ cf)
    (hkey : cf = .syncMeta → ∀ r ∈ resets, encodeDeriveMetaKey r.1.name ≠ key) :
    rowAfter cf key v (resetOps resets) = v := by
  refine rowAfter_of_effect_none fun op hop => ?_
  obtain ⟨r, hr, hop⟩ := mem_flatMap.mp hop
  simp only [mem_cons, not_mem_nil, or_false] at hop
  rcases hop with rfl | rfl
  · simp [WriteOp.effect, hcf r hr]
  · rw [WriteOp.effect, if_neg]
    rintro ⟨rfl, heq⟩
    exact hkey rfl r hr heq

theorem rowAfter_resetOps_rows {id : DerivedAggregateId} (hcf : id.cf ∈ derivedCfs) {key : Bytes}
    (hid : id ∈ resets.map Prod.fst ∨ v = none)
    (hkey : v ≠ none → compare key derivedClearEnd = .lt) :
    rowAfter id.cf key v (resetOps resets) = none := by
  obtain ⟨hsync, -⟩ := ne_of_mem_derivedCfs hcf
  induction resets generalizing v with
  | nil =>
    rcases hid with hid | rfl
    · cases hid
    · rfl
  | cons r rest ih =>
    rw [resetOps_cons, rowAfter_append]
    have hput : ∀ w, rowAfter id.cf key w (resetOps [r])
        = rowAfter id.cf key w [.deleteRange r.1.cf [] derivedClearEnd] := by
      intro w
      simp [resetOps, WriteOp.effect, hsync.symm]
    rw [hput]
    by_cases hown : r.1.cf = id.cf
    · rw [hown, rowAfter_clear hkey]
      exact ih (.inr rfl) fun h => absurd rfl h
    · rw [rowAfter_clear_of_ne (Ne.symm hown)]
      refine ih (hid.imp_left fun hmem => (mem_cons.mp hmem).resolve_left ?_) hkey
      rintro rfl
      exact hown rfl

theorem rowAfter_resetOps_state {id : DerivedAggregateId}
    (hid : id ∈ resets.map Prod.fst ∨
      ∃ run, v = some (Codec.serialize (notStarted id.version run)))
    (hown : ∀ r ∈ resets, r.1.cf ∈ derivedCfs ∧
      (encodeDeriveMetaKey r.1.name = encodeDeriveMetaKey id.name → r.1 = id)) :
    ∃ run, rowAfter .syncMeta (encodeDeriveMetaKey id.name) v (resetOps resets)
      = some (Codec.serialize (notStarted id.version run)) := by
  induction resets generalizing v with
  | nil =>
    rcases hid with hid | hv
    · cases hid
    · exact hv
  | cons r rest ih =>
    obtain ⟨hcf, hsame⟩ := hown r mem_cons_self
    have hrest := (forall_mem_cons.mp hown).2
    rw [resetOps_cons, rowAfter_append]
    have hone : ∀ w, rowAfter .syncMeta (encodeDeriveMetaKey id.name) w (resetOps [r])
        = if encodeDeriveMetaKey r.1.name = encodeDeriveMetaKey id.name then
            some (Codec.serialize (notStarted r.1.version r.2)) else w := by
      intro w
      simp only [resetOps, flatMap_singleton, rowAfter_cons, WriteOp.effect,
        (ne_of_mem_derivedCfs hcf).1, true_and]
      split <;> rfl
    rw [hone]
    by_cases hkey : encodeDeriveMetaKey r.1.name = encodeDeriveMetaKey id.name
    · rw [if_pos hkey, hsame hkey]
      exact ih (.inr ⟨r.2, rfl⟩) hrest
    · rw [if_neg hkey]
      refine ih (hid.imp_left fun hmem => (mem_cons.mp hmem).resolve_left ?_) hrest
      rintro rfl
      exact hkey rfl

end Ops

/-! ## Registered aggregates -/

section Registered

variable [Codec DeriveMeta]

/-- `s'` is `s` with some registered aggregates reset; the undo log may differ as well. -/
structure ResetEffect (R : Registry Γ) (resets : List (DerivedAggregateId × Nat))
    (s s' : DomainStore) : Prop where
  registered : ∀ r ∈ resets, ∃ (i : Nat) (A : SumAggregate Γ), R.aggregates[i]? = some A ∧ A.id = r.1
  rows : ∀ cf key, cf ≠ .reorgUndoLogByBlock →
    s'.get cf key = rowAfter cf key (s.get cf key) (resetOps resets)

namespace ResetEffect

theorem sameSource (h : ResetEffect R resets s s') : SameSource s s' := by
  refine SameSource.of_get fun cf hcf key => ?_
  rw [h.rows cf key hcf.2.2, rowAfter_resetOps_of_ne]
  · intro r hr heq
    obtain ⟨i, A, -, hA⟩ := h.registered r hr
    exact hcf.1 (heq ▸ hA ▸ A.derived)
  · intro hc
    exact absurd hc hcf.2.1

/-- The undo contract is not a derivation's state. -/
theorem contract (h : ResetEffect R resets s s') :
    s'.get .syncMeta entityStatsUndoContractKey = s.get .syncMeta entityStatsUndoContractKey := by
  rw [h.rows _ _ (by decide), rowAfter_resetOps_of_ne]
  · intro r hr heq
    obtain ⟨i, A, -, hA⟩ := h.registered r hr
    exact (ne_of_mem_derivedCfs A.derived).1 (hA ▸ heq)
  · intro _ r _
    exact encodeDeriveMetaKey_ne_contract

variable {i : Nat}

theorem kept (h : ResetEffect R resets s s') (hA : R.aggregates[i]? = some A)
    (hnot : A.id ∉ resets.map Prod.fst) :
    (∀ key, s'.get A.id.cf key = s.get A.id.cf key) ∧
      getDeriveMeta s' A.id.name = getDeriveMeta s A.id.name := by
  have hdistinct : ∀ r ∈ resets, r.1.cf ≠ A.id.cf ∧
      encodeDeriveMetaKey r.1.name ≠ encodeDeriveMetaKey A.id.name := by
    intro r hr
    obtain ⟨j, B, hB, hid⟩ := h.registered r hr
    rcases R.same_or_distinct hB hA with ⟨-, rfl⟩ | hne
    · exact absurd (mem_map.mpr ⟨r, hr, hid.symm⟩) hnot
    · rw [← hid]
      exact hne
  obtain ⟨hsync, hlog⟩ := ne_of_mem_derivedCfs A.derived
  refine ⟨fun key => ?_, getDeriveMeta_congr ?_⟩
  · rw [h.rows _ _ hlog, rowAfter_resetOps_of_ne (fun r hr => (hdistinct r hr).1)
      fun hc => absurd hc hsync]
  · rw [h.rows _ _ (by decide), rowAfter_resetOps_of_ne _ fun _ r hr => (hdistinct r hr).2]
    intro r hr heq
    obtain ⟨j, B, -, hB⟩ := h.registered r hr
    exact (ne_of_mem_derivedCfs B.derived).1 (hB ▸ heq)

theorem reset (h : ResetEffect R resets s s') (hA : R.aggregates[i]? = some A)
    (hmem : A.id ∈ resets.map Prod.fst)
    (hkeys : ∀ key, s.get A.id.cf key ≠ none → compare key derivedClearEnd = .lt) :
    (∀ key, s'.get A.id.cf key = none) ∧
      ∃ run, getDeriveMeta s' A.id.name = .ok (some (.notStarted A.id.version run)) := by
  refine ⟨fun key => ?_, ?_⟩
  · rw [h.rows _ _ (ne_of_mem_derivedCfs A.derived).2]
    exact rowAfter_resetOps_rows A.derived (.inl hmem) (hkeys key)
  · have hown : ∀ r ∈ resets, r.1.cf ∈ derivedCfs ∧
        (encodeDeriveMetaKey r.1.name = encodeDeriveMetaKey A.id.name → r.1 = A.id) := by
      intro r hr
      obtain ⟨j, B, hB, hid⟩ := h.registered r hr
      rw [← hid]
      refine ⟨B.derived, fun heq => ?_⟩
      rcases R.same_or_distinct hB hA with ⟨-, rfl⟩ | hne
      · rfl
      · exact absurd heq hne.2
    obtain ⟨run, hrun⟩ := rowAfter_resetOps_state (.inl hmem) hown
    refine ⟨run, ?_⟩
    rw [getDeriveMeta, h.rows _ _ (by decide), hrun]
    simp

end ResetEffect

end Registered

/-! ## Startup -/

section Startup

variable [Codec DeriveMeta] [Codec CachedBlockHeader]

omit [Codec CachedBlockHeader] in
theorem foldlM_normalizeOne_ok {tip : Int} {batch batch' : DomainBatch}
    {aggregates : List (SumAggregate Γ)} (hsub : ∀ A ∈ aggregates, A ∈ R.aggregates)
    (h : (aggregates.map (·.toDerivedAggregate)).foldlM (normalizeOne s tip) batch = .ok batch') :
    ∃ resets, batch' = batch ++ resetOps resets ∧
      ∀ r ∈ resets, ∃ (i : Nat) (A : SumAggregate Γ), R.aggregates[i]? = some A ∧ A.id = r.1 := by
  induction aggregates generalizing batch with
  | nil =>
    cases h
    exact ⟨[], by simp [resetOps], fun r hr => by cases hr⟩
  | cons A rest ih =>
    obtain ⟨mid, hmid, h⟩ := foldlM_cons_eq_ok.mp h
    obtain ⟨resets, rfl, hresets⟩ := ih (forall_mem_cons.mp hsub).2 h
    obtain ⟨m, -, hmid⟩ := bind_eq_ok.mp hmid
    obtain ⟨keep, -, hmid⟩ := bind_eq_ok.mp hmid
    split at hmid
    · cases hmid
      exact ⟨resets, rfl, hresets⟩
    · rw [stageReset_ok A.derived] at hmid
      cases hmid
      obtain ⟨i, hi⟩ := mem_iff_getElem?.mp (hsub A mem_cons_self)
      exact ⟨_ :: resets, by rw [append_assoc, ← resetOps_cons],
        forall_mem_cons.mpr ⟨⟨i, A, hi, rfl⟩, hresets⟩⟩

/-- What startup leaves: no rebuild in flight, and some aggregates reset. -/
theorem normalizeOnStartup_effect :
    ∃ resets, ResetEffect R resets s (normalizeOnStartup ⟨s, none⟩ R.registered).1.store ∧
      (normalizeOnStartup ⟨s, none⟩ R.registered).1.active = none ∧
      ∀ key, (normalizeOnStartup ⟨s, none⟩ R.registered).1.store.get .reorgUndoLogByBlock key
        = s.get .reorgUndoLogByBlock key := by
  unfold normalizeOnStartup
  split
  · exact ⟨[], ⟨fun r hr => (by cases hr), fun cf key _ => rfl⟩, rfl, fun key => rfl⟩
  · rename_i batch hbatch
    obtain ⟨tip, -, hfold⟩ := bind_eq_ok.mp hbatch
    obtain ⟨resets, rfl, hresets⟩ := foldlM_normalizeOne_ok (fun A hA => hA) hfold
    refine ⟨resets, ⟨hresets, fun cf key _ => ?_⟩, rfl, fun key => ?_⟩
    · rw [nil_append, OrderedStore.get_write]
    · rw [nil_append, OrderedStore.get_write, rowAfter_resetOps_of_ne _ fun hc =>
        absurd hc (by decide)]
      intro r hr heq
      obtain ⟨i, A, -, hA⟩ := hresets r hr
      exact (ne_of_mem_derivedCfs A.derived).2 (hA ▸ heq)

end Startup

/-! ## Before a rollback -/

section Rollback

variable [Codec DeriveMeta] {tip rollbackTo : Int}

/-- Whether a rollback resets an aggregate, and whether undo replay owns its rollback. -/
def rollbackOf (s : DomainStore) (tip rollbackTo : Int) (A : SumAggregate Γ) : Bool × Bool :=
  match getDeriveMeta s A.id.name with
  | .ok m => rollbackEffect tip rollbackTo ((m.filter fun m => m.version == A.id.version).map state)
  | .error _ => (false, false)

theorem rollbackOf_reset (h : (rollbackOf s tip rollbackTo A).1 = true) :
    (rollbackOf s tip rollbackTo A).2 = false := by
  unfold rollbackOf at h ⊢
  split
  · rename_i m hm
    rw [hm] at h
    simp only at h
    revert h
    unfold rollbackEffect
    split <;> simp
  · rfl

/-- The column families whose pre-images above the target are dropped. -/
def notReplayedCfs (s : DomainStore) (tip rollbackTo : Int) (aggregates : List (SumAggregate Γ)) :
    List Cf :=
  (aggregates.filter fun A => !(rollbackOf s tip rollbackTo A).2).map (·.id.cf)

theorem invalidateOne_ok {m : Option DeriveMeta} (st : InvalidateState)
    (hm : getDeriveMeta s A.id.name = .ok m) :
    ∃ resets, invalidateOne s tip rollbackTo st A.toDerivedAggregate
        = .ok ⟨st.batch ++ resetOps resets, st.reset ++ resets.map (·.1.name),
            st.notReplayed ++ notReplayedCfs s tip rollbackTo [A]⟩ ∧
      resets.map Prod.fst = ([A].filter fun A => (rollbackOf s tip rollbackTo A).1).map (·.id) := by
  simp only [invalidateOne, stageReset_ok A.derived, notReplayedCfs, rollbackOf]
  generalize heffect : rollbackEffect tip rollbackTo
    ((m.filter fun m => m.version == A.id.version).map state) = effect
  obtain ⟨corrupted, owns⟩ := effect
  cases corrupted with
  | false =>
    refine ⟨[], ?_, by simp [hm, heffect]⟩
    cases owns <;> simp [resetOps, hm, heffect]
  | true =>
    refine ⟨[(A.id, (m.map run).getD 0)], ?_, by simp [hm, heffect]⟩
    cases owns <;> simp [hm, heffect]

/-- The loop over the aggregates stages the resets the rollback calls for. -/
theorem foldlM_invalidateOne_ok (tip rollbackTo : Int) {aggregates : List (SumAggregate Γ)}
    (st : InvalidateState) (hdecodes : ∀ A ∈ aggregates, ∃ m, getDeriveMeta s A.id.name = .ok m) :
    ∃ resets, (aggregates.map (·.toDerivedAggregate)).foldlM (invalidateOne s tip rollbackTo) st
        = .ok ⟨st.batch ++ resetOps resets, st.reset ++ resets.map (·.1.name),
            st.notReplayed ++ notReplayedCfs s tip rollbackTo aggregates⟩ ∧
      resets.map Prod.fst
        = (aggregates.filter fun A => (rollbackOf s tip rollbackTo A).1).map (·.id) := by
  induction aggregates generalizing st with
  | nil => exact ⟨[], by simp [resetOps, notReplayedCfs], rfl⟩
  | cons A rest ih =>
    obtain ⟨m, hm⟩ := hdecodes A mem_cons_self
    obtain ⟨first, hfirst, hfirstIds⟩ := invalidateOne_ok st hm
    obtain ⟨others, hothers, hotherIds⟩ := ih ⟨st.batch ++ resetOps first,
      st.reset ++ first.map (·.1.name), st.notReplayed ++ notReplayedCfs s tip rollbackTo [A]⟩
      (forall_mem_cons.mp hdecodes).2
    refine ⟨first ++ others, ?_, ?_⟩
    · rw [map_cons, foldlM_cons_eq_ok]
      refine ⟨_, hfirst, hothers.trans ?_⟩
      have hcfs : notReplayedCfs s tip rollbackTo (A :: rest)
          = notReplayedCfs s tip rollbackTo [A] ++ notReplayedCfs s tip rollbackTo rest := by
        simp [notReplayedCfs, ← map_append, ← filter_append]
      rw [hcfs, resetOps_append]
      simp
    · rw [map_append, hfirstIds, hotherIds, ← map_append, ← filter_append, singleton_append]

omit [Codec DeriveMeta] in
/-- A registered aggregate is among the selected ones exactly when it is selected: what names an
aggregate tells its column family. -/
theorem mem_map_filter_iff {β : Type} {f : SumAggregate Γ → β} {p : SumAggregate Γ → Bool}
    (hf : ∀ B, f B = f A → B.id.cf = A.id.cf) {i : Nat} (hA : R.aggregates[i]? = some A) :
    f A ∈ (R.aggregates.filter p).map f ↔ p A = true := by
  constructor
  · intro hmem
    obtain ⟨B, hB, heq⟩ := mem_map.mp hmem
    obtain ⟨hB, hp⟩ := mem_filter.mp hB
    obtain ⟨j, hj⟩ := mem_iff_getElem?.mp hB
    rcases R.same_or_distinct hj hA with ⟨-, rfl⟩ | ⟨hne, -⟩
    · exact hp
    · exact absurd (hf B heq) hne
  · intro hp
    exact mem_map.mpr ⟨A, mem_filter.mpr ⟨mem_of_getElem? hA, hp⟩, rfl⟩

theorem mem_resets_iff {resets : List (DerivedAggregateId × Nat)}
    (h : resets.map Prod.fst
      = (R.aggregates.filter fun A => (rollbackOf s tip rollbackTo A).1).map (·.id))
    {i : Nat} (hA : R.aggregates[i]? = some A) :
    A.id ∈ resets.map Prod.fst ↔ (rollbackOf s tip rollbackTo A).1 = true := by
  rw [h]
  exact mem_map_filter_iff (fun _ => congrArg DerivedAggregateId.cf) hA

/-- Exactly the aggregates undo replay does not own have their pre-images dropped. -/
theorem mem_notReplayedCfs_iff {i : Nat} (hA : R.aggregates[i]? = some A) :
    A.id.cf ∈ notReplayedCfs s tip rollbackTo R.aggregates ↔
      (rollbackOf s tip rollbackTo A).2 = false := by
  rw [notReplayedCfs, mem_map_filter_iff (fun _ => id) hA, Bool.not_eq_true']

variable [Codec UndoLogEntry] [Codec CachedBlockHeader]

/-- What the preparation of a rollback commits: the resets, and the pre-images it drops. -/
theorem invalidateRegisteredForRollback_ok (htip : committedTip s = .ok tip)
    (hdecodes : ∀ A ∈ R.aggregates, ∃ m, getDeriveMeta s A.id.name = .ok m)
    (hread : ∀ key v, s.get .reorgUndoLogByBlock key = some v →
      DerivedReadable rollbackTo (key, v)) :
    ∃ resets batch dropped,
      resets.map Prod.fst
        = (R.aggregates.filter fun A => (rollbackOf s tip rollbackTo A).1).map (·.id) ∧
      stageDeleteDerivedUndoAbove s (resetOps resets)
        ((notReplayedCfs s tip rollbackTo R.aggregates).map Cf.name) rollbackTo
        = .ok (batch, dropped) ∧
      invalidateRegisteredForRollback s R.registered rollbackTo = .ok (s.write batch) := by
  obtain ⟨resets, hfold, hids⟩ := foldlM_invalidateOne_ok tip rollbackTo {} hdecodes
  have hstage : ∃ batch dropped, stageDeleteDerivedUndoAbove s (resetOps resets)
      ((notReplayedCfs s tip rollbackTo R.aggregates).map Cf.name) rollbackTo
      = .ok (batch, dropped) := by
    unfold stageDeleteDerivedUndoAbove
    split
    · exact ⟨_, _, rfl⟩
    · refine ⟨_, _, bind_eq_ok.mpr ⟨_, derivedKeysAbove_eq_ok.mpr ⟨fun kv hkv => ?_, rfl⟩, rfl⟩⟩
      exact hread kv.1 kv.2 (mem_scanFrom.mp hkv).1
  obtain ⟨batch, dropped, hstage⟩ := hstage
  refine ⟨resets, batch, dropped, hids, hstage, ?_⟩
  refine bind_eq_ok.mpr ⟨tip, htip, bind_eq_ok.mpr ⟨_, hfold, ?_⟩⟩
  simp only [List.nil_append, hstage]
  -- a batch that resets and drops nothing is empty
  split
  · rename_i hnothing
    simp only [Bool.and_eq_true, List.isEmpty_iff, List.map_eq_nil_iff, beq_iff_eq] at hnothing
    obtain ⟨keys, rfl, hcount, -⟩ := stageDeleteDerivedUndoAbove_ok hstage
    have hkeys : keys = [] := List.eq_nil_of_length_eq_zero (hcount.trans hnothing.2)
    simp [hnothing.1, hkeys, resetOps]
  · rfl

end Rollback

end Ckbadger.Derive
