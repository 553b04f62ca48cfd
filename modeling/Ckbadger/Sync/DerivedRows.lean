/-
Ckbadger.Sync.DerivedRows — derived rows are exact whenever an aggregate is
complete, and a rollback leaves every aggregate trustworthy.
-/
import Ckbadger.Sync.DeriveRunTheorems

namespace Ckbadger.Sync

open Lib Store Derive OrderedStore

/-! ## Exact rows -/

section Results

variable {Γ : Type} [Codec UndoLogEntry] [Codec EntityStatsUndoContract] [Codec DeriveMeta]
  [Codec CachedBlockHeader] {R : Registry Γ} {A : SumAggregate Γ} {st : IndexerState}

/-- **Background derivation plus live maintenance is exact.** After any run of scheduler steps,
live batches, given-up batches, restarts and rollbacks, the rows of an aggregate that is
complete are the sums over the source rows at the committed tip: a key whose sum is zero has no
row, and every other key has the row of its sum. -/
theorem derivedRows_exact {st₀ : IndexerState} (hlive : StartsLive st₀.sched.store st₀.tip)
    (hstart : StartsDeriving R st₀) (hrun : Relation.ReflTransGen (IndexerStep R) st₀ st)
    (hA : A ∈ R.aggregates) {m : DeriveMeta}
    (hm : getDeriveMeta st.sched.store A.id.name = .ok (some m))
    (hcomplete : m.isComplete A.id = true) :
    committedTip st.sched.store = .ok st.tip ∧ SameSource (st.history st.tip) st.sched.store ∧
      ∀ key, (A.value st.sched.store key = 0 → st.sched.store.get A.id.cf key = none) ∧
        (A.value st.sched.store key ≠ 0 → st.sched.store.get A.id.cf key
          = some (encodeDerivedValue (vec (A.arity key) (A.value st.sched.store key)))) := by
  obtain ⟨ledger, h⟩ := (IndexerInv.init hlive hstart).run hrun
  obtain ⟨i, hi⟩ := List.mem_iff_getElem?.mp hA
  have hrep := (h.each i A hi).complete m hm hcomplete
  refine ⟨h.committed, h.source, fun key => ⟨fun hzero => ?_, fun hne => ?_⟩⟩
  · rw [hrep.row, hzero, encodeRow_zero]
  · rw [hrep.row, encodeRow_of_ne_zero (hrep.support key) hne]

end Results

/-- A budget that never runs out on the runs below. -/
def ampleLimits : StepLimits := ⟨10, 10, fun _ => false, 0⟩

/-- One unit of work on the count of activity rows. -/
def activityStep (st : SchedulerState) : SchedulerState :=
  (step st ampleLimits collectionActivityRegistry.registered).1

/-- A block with one activity row of a collection. -/
def activityOps (block : Nat) : DomainBatch :=
  [.put .blockHeaders (encodeBlockNum block)
      (Codec.serialize (⟨[], [], 0, 0, 0, 0, [], 0, 0, 0, 0, none, none, 0⟩ : CachedBlockHeader)),
    .put .objectCollectionActivities (List.replicate 107 7 ++ [.ofNat block]) []]

def activityCtx (store : DomainStore) (block : Nat) : LiveDeriveCtx (List (Bytes × Int)) :=
  ⟨store, [(block : Int)], [(List.replicate 32 7, (block : Int))]⟩

/-- What the block's batch commits. -/
def activityCommit (store : DomainStore) (block : Nat) : Option DomainBatch :=
  match applyLiveBatch store collectionActivityRegistry.registered (activityCtx store block)
      (activityOps block) ∅ 0 with
  | .error _ => none
  | .ok (staged, _) =>
    (stageEntityStatsUndoRetention store staged ((block : Int) - 1)).toOption.map Prod.fst

def afterActivity (store : DomainStore) (block : Nat) : DomainStore :=
  store.write ((activityCommit store block).getD [])

/-- The store after the first block, which has no derived rows. -/
def firstActivityStore : DomainStore := afterActivity empty 0

/-- The count derived on this store: started, folded and checked. -/
def firstDerived : SchedulerState :=
  activityStep (activityStep (activityStep ⟨firstActivityStore, none⟩))

def secondActivityStore : DomainStore := afterActivity firstDerived.store 1

/-- The first block, the derivation and the second block. -/
def secondActivityState : IndexerState :=
  ⟨⟨secondActivityStore, firstDerived.active⟩, 1, fun b =>
    if b ≤ 0 then (if b ≤ -1 then empty else firstActivityStore) else secondActivityStore⟩

theorem startsDeriving_empty :
    StartsDeriving collectionActivityRegistry ⟨⟨empty, none⟩, -1, fun _ => empty⟩ where
  active := rfl
  committed := by decide +kernel
  source := .refl _
  underived A _ := by simp [getDeriveMeta]

theorem activityOps_writer (block : Nat) :
    WriterBatch collectionActivityRegistry (activityOps block) [] where
  log key v := rfl
  contract v := rfl
  derived A hA key v := by
    cases List.mem_singleton.mp hA
    rfl
  states A hA v := by
    cases List.mem_singleton.mp hA
    rfl
  entries row hrow := by cases hrow

/-- What the activity rows of a store contribute to the count. -/
def activityContributions (s : DomainStore) : List (Bytes × List Int) :=
  contributionsOf (collectionActivitySum.row s)
    ((s.table .objectCollectionActivities).scanFrom (resumeKey none))

theorem activity_batch {sched : SchedulerState} {history : Int → DomainStore} {block : Nat}
    (hcommit : (activityCommit sched.store block).isSome) (hmax : block < 2 ^ 62)
    (htip : committedTip (afterActivity sched.store block) = .ok (block : Int))
    (hdeltas : (collectionActivitySum.liveDeltas (activityCtx sched.store block)).map
      BlockDeltas.entries = .ok [((block : Int), List.replicate 32 7, [1])])
    (hrows : activityContributions (afterActivity sched.store block)
      = activityContributions (history (block - 1)) ++ [(List.replicate 32 7, [1])]) :
    IndexerStep collectionActivityRegistry ⟨sched, block - 1, history⟩
      ⟨⟨afterActivity sched.store block, sched.active⟩, block, fun b =>
        if b ≤ block - 1 then history b else afterActivity sched.store block⟩ := by
  obtain ⟨committed, hcommitted⟩ := Option.isSome_iff_exists.mp hcommit
  have hstore : afterActivity sched.store block = sched.store.write committed := by
    rw [afterActivity, hcommitted, Option.getD_some]
  rw [activityCommit] at hcommitted
  split at hcommitted
  · cases hcommitted
  rename_i staged undoSeq hlive
  obtain ⟨⟨committed', pruned⟩, hretain, rfl⟩ := Option.map_eq_some_iff.mp hcommitted
  rw [toOption_eq_some] at hretain
  have hnow : ¬ (block : Int) ≤ block - 1 := by omega
  rw [hstore] at htip hrows ⊢
  refine .batch (.mk (activityCtx sched.store block) 0 (by simp) (by simp; omega)
    (activityOps_writer block) .nil (by simp) hlive hretain htip (fun b hb => if_pos hb) ?_ ?_)
  · simp only [if_neg hnow]
    exact .refl _
  · intro A hA deltas h
    cases List.mem_singleton.mp hA
    rw [h] at hdeltas
    rw [Except.ok.inj hdeltas]
    refine ⟨by simp, fun b hlo hhi key => ?_⟩
    change (block : Int) - 1 < b at hlo
    obtain rfl : b = block := by omega
    simp only [if_neg hnow, if_pos le_rfl]
    change deltaSum _ key = KeyedSum.total (activityContributions _) key
      - KeyedSum.total (activityContributions _) key
    rw [hrows, KeyedSum.total_append, add_sub_cancel_left, List.filter_cons_of_pos (by simp)]
    rfl

theorem secondActivityState_store : secondActivityState.sched.store = secondActivityStore := by
  rw [secondActivityState]

theorem secondActivity_run :
    Relation.ReflTransGen (IndexerStep collectionActivityRegistry)
      ⟨⟨empty, none⟩, -1, fun _ => empty⟩ secondActivityState := by
  have hfirst := @activity_batch ⟨empty, none⟩ (fun _ => empty) 0 (by decide +kernel) (by decide)
    (by decide +kernel) (by decide +kernel) (by decide +kernel)
  refine .head hfirst (.head (.scheduler ampleLimits) (.head (.scheduler ampleLimits)
    (.head (.scheduler ampleLimits) (.single ?_))))
  exact @activity_batch firstDerived (fun b => if b ≤ -1 then empty else firstActivityStore) 1
    (by decide +kernel) (by decide) (by decide +kernel) (by decide +kernel) (by decide +kernel)

/-- The count is complete, from the first block on. -/
theorem secondActivity_meta :
    ∃ m, getDeriveMeta secondActivityStore collectionActivitySum.id.name = .ok (some m) ∧
      m.state = .complete 0 0 1 ∧ m.isComplete collectionActivitySum.id = true := by
  have hmeta : (getDeriveMeta secondActivityStore collectionActivitySum.id.name).toOption.any
      (Option.any fun m => m.state == .complete 0 0 1 && m.isComplete collectionActivitySum.id)
        = true := by decide +kernel
  cases hread : getDeriveMeta secondActivityStore collectionActivitySum.id.name with
  | error e => simp [hread, Except.toOption] at hmeta
  | ok stored =>
    cases stored with
    | none => simp [hread, Except.toOption] at hmeta
    | some m => exact ⟨m, rfl, by simpa [hread, Except.toOption] using hmeta⟩

/-- The rebuild folds the first row and the second block adds one. -/
theorem firstActivity_counted :
    secondActivityStore.get .objectCollectionActivityCount (List.replicate 32 7)
      = some (encodeDerivedValue [2]) ∧
    ∀ key, collectionActivitySum.value secondActivityStore key = 0 →
      secondActivityStore.get .objectCollectionActivityCount key = none := by
  obtain ⟨m, hm, -, hcomplete⟩ := secondActivity_meta
  obtain ⟨-, -, hexact⟩ := derivedRows_exact startsLive_empty startsDeriving_empty secondActivity_run
    (List.mem_singleton.mpr rfl) (secondActivityState_store ▸ hm) hcomplete
  rw [secondActivityState_store] at hexact
  have hcount : secondActivityStore.get .objectCollectionActivityCount (List.replicate 32 7)
      = some (encodeDerivedValue [2]) := by decide +kernel
  exact ⟨hcount, fun key => (hexact key).1⟩

/-! ## Rollback -/

section Results

variable {Γ : Type} [Codec UndoLogEntry] [Codec EntityStatsUndoContract] [Codec DeriveMeta]
  [Codec CachedBlockHeader] {R : Registry Γ} {st : IndexerState}

/-- **A rollback leaves every derived aggregate trustworthy.** From any state of a run, a rollback
at or above the coverage floor is prepared and replayed to the end, and no undo entry above the
target is left. Every aggregate that was not started, running or complete is then not started,
without rows, or still complete, with the sums over the source rows at the target as its rows.
A rebuild goes on, with its rows untouched, only if the target is not below the tip. -/
theorem rollback_trustworthy {st₀ : IndexerState} (hlive : StartsLive st₀.sched.store st₀.tip)
    (hstart : StartsDeriving R st₀) (hrun : Relation.ReflTransGen (IndexerStep R) st₀ st)
    {rollbackTo : Int} (hfloor : coverageFloor st.sched.store ≤ rollbackTo) :
    ∃ prepared s',
      invalidateRegisteredForRollback st.sched.store R.registered rollbackTo = .ok prepared ∧
      s' = (rollbackViaUndoLog prepared rollbackTo).1 ∧
      (rollbackViaUndoLog prepared rollbackTo).2.isOk ∧
      (∀ key v, s'.get .reorgUndoLogByBlock key = some v →
        (decodeReorgUndoLogKey key).1 ≤ rollbackTo) ∧
      ∀ A ∈ R.aggregates, ∀ m, getDeriveMeta st.sched.store A.id.name = .ok (some m) →
        m.version = A.id.version → (∀ error, m.state ≠ .failed error) →
        ∃ m', getDeriveMeta s' A.id.name = .ok (some m') ∧ m'.version = A.id.version ∧
          ((m'.state = .notStarted ∧ ∀ key, s'.get A.id.cf key = none) ∨
            (m' = m ∧ m.isComplete A.id = true ∧ ∀ key, s'.get A.id.cf key
              = encodeRow (A.arity key) (A.value (st.history (min st.tip rollbackTo)) key)) ∨
            (m' = m ∧ st.tip ≤ rollbackTo ∧ (∃ tip phase cursor n, m.state = .running tip phase
              cursor n) ∧ ∀ key, s'.get A.id.cf key = st.sched.store.get A.id.cf key)) := by
  obtain ⟨ledger, h⟩ := (IndexerInv.init hlive hstart).run hrun
  obtain ⟨prepared, hprepare, hok, hundo, houtcome⟩ := h.rollbackOutcome hfloor
  refine ⟨prepared, _, hprepare, rfl, hok, fun key v hget => ?_, fun A hA m hm hv hnot => ?_⟩
  · have hstart₀ := h.undo.floor.trans hfloor
    rcases hundo.log key v hget with ⟨block, seq, rfl, hb, hseq, hle⟩ | ⟨row, hrow, rfl, -⟩
    · rw [decode_encodeReorgUndoLogKey hb.fitsSigned hseq]
      exact hle.trans hstart₀
    · rw [hundo.decode_key hrow]
      exact ((hundo.rows row hrow).2.2.1).trans (min_le_right _ _)
  · obtain ⟨i, hi⟩ := List.mem_iff_getElem?.mp hA
    have hinv := h.each i A hi
    cases houtcome i A hi with
    | reset hnone hstarted => exact ⟨_, hstarted, rfl, .inl ⟨rfl, hnone⟩⟩
    | replayed hc _ hsame hrows =>
      have hm₁ := hc.read
      rw [hm] at hm₁
      cases hm₁
      exact ⟨m, hsame, hv, .inr (.inl ⟨rfl, hc.isComplete, hrows⟩)⟩
    | kept hm₁ hsame hrows hcase =>
      rw [hm] at hm₁
      cases hm₁
      refine ⟨m, hsame, hv, ?_⟩
      cases hs : m.state with
      | notStarted =>
        exact .inl ⟨rfl, fun key => (hrows key).trans (hinv.notStarted m hm hv hs key)⟩
      | failed error => exact absurd hs (hnot error)
      | running tip phase cursor n =>
        have hmaintained : m.isMaintained A.id = true :=
          DeriveMeta.isMaintained_iff.mpr ⟨hv, .inl ⟨_, _, _, _, hs⟩⟩
        refine .inr (.inr ⟨rfl, hcase.resolve_left ?_, ⟨_, _, _, _, rfl⟩, hrows⟩)
        rw [Option.any_some, hmaintained]
        decide
      | complete derivedFrom completedAt n =>
        have hc : m.isComplete A.id = true := DeriveMeta.isComplete_iff.mpr ⟨hv, _, _, _, hs⟩
        have htip : st.tip ≤ rollbackTo := by
          refine hcase.resolve_left ?_
          rw [Option.any_some, DeriveMeta.isMaintained_of_isComplete hc]
          decide
        refine .inr (.inl ⟨rfl, hc, fun key => ?_⟩)
        rw [hrows, (hinv.complete m hm hc).row, min_eq_left htip, SumAggregate.value_congr h.source]

end Results

/-- Rolled back to the first block, the count is that of its row. -/
theorem firstActivity_rolledBack :
    ∃ prepared,
      invalidateRegisteredForRollback secondActivityStore collectionActivityRegistry.registered 0
        = .ok prepared ∧
      (rollbackViaUndoLog prepared 0).2.isOk ∧
      (rollbackViaUndoLog prepared 0).1.get .objectCollectionActivityCount (List.replicate 32 7)
        = some (encodeDerivedValue [1]) := by
  obtain ⟨prepared, s', hprepare, rfl, hok, -, heach⟩ := rollback_trustworthy startsLive_empty
    startsDeriving_empty secondActivity_run
    (by decide +kernel : coverageFloor secondActivityState.sched.store ≤ 0)
  rw [secondActivityState_store] at hprepare heach
  refine ⟨prepared, hprepare, hok, ?_⟩
  obtain ⟨m, hm, hs, hcomplete⟩ := secondActivity_meta
  have hv := (DeriveMeta.isComplete_iff.mp hcomplete).1
  obtain ⟨m', hm', -, ⟨hstate, -⟩ | ⟨-, -, hrows⟩ | ⟨-, -, ⟨_, _, _, _, hrunning⟩, -⟩⟩ :=
    heach collectionActivitySum (List.mem_singleton.mpr rfl) m hm hv (by simp [hs])
  · -- The rollback has not reset the count.
    have hkept : (invalidateRegisteredForRollback secondActivityStore
        collectionActivityRegistry.registered 0).toOption.all (fun p =>
          (getDeriveMeta (rollbackViaUndoLog p 0).1 collectionActivitySum.id.name).toOption.all
            (Option.all (·.state != .notStarted))) = true := by decide +kernel
    simp [hprepare, hm', hstate, Except.toOption] at hkept
  · exact (hrows _).trans (by decide +kernel)
  · cases hs.symm.trans hrunning

/-- A rebuild in flight on a store without blocks. -/
def startedRebuild : SchedulerState := activityStep ⟨empty, none⟩

/-- A rollback that removes no block leaves a rebuild in flight, neither reset nor complete. -/
theorem startedRebuild_kept :
    Relation.ReflTransGen (IndexerStep collectionActivityRegistry)
      ⟨⟨empty, none⟩, -1, fun _ => empty⟩
      ⟨startedRebuild, -1, fun _ => empty⟩ ∧
    coverageFloor startedRebuild.store ≤ -1 ∧
    ∃ prepared, invalidateRegisteredForRollback startedRebuild.store
        collectionActivityRegistry.registered (-1) = .ok prepared ∧
      (rollbackViaUndoLog prepared (-1)).2.isOk ∧
      ∃ m, getDeriveMeta (rollbackViaUndoLog prepared (-1)).1 collectionActivitySum.id.name
        = .ok (some m) ∧ m.state = .running (-1) .folding none 0 := by
  refine ⟨.single (.scheduler ampleLimits), by decide +kernel, startedRebuild.store, by rfl,
    by decide +kernel, _, by rfl, by rfl⟩

end Ckbadger.Sync
