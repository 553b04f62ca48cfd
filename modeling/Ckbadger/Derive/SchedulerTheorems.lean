/-
Ckbadger.Derive.SchedulerTheorems — what one scheduler step does to the rows of an
aggregate.

`AggregateInv` is the invariant of one aggregate. While a rebuild is in flight its
rows are the value over the current source less what the snapshot still holds
unfolded; once complete they are the value. Every step touches one aggregate at
most and keeps the invariant of that one (`step_effect`).
-/
import Ckbadger.Derive.Scheduler
import Ckbadger.Derive.SumAggregate
import Mathlib.Tactic.Abel

namespace Ckbadger.Derive

open Lib Lib.KeyedSum Store DeriveMeta SumAggregate

variable {m : DeriveMeta} {a : ActiveRebuild} {batch : DomainBatch}

/-! ## Frames -/

/-- A store that differs in one aggregate's rows and state only. -/
def TouchesOnly (id : DerivedAggregateId) (s t : DomainStore) : Prop :=
  ∀ cf key, cf ≠ id.cf → ¬ (cf = .syncMeta ∧ key = encodeDeriveMetaKey id.name) →
    t.get cf key = s.get cf key

namespace TouchesOnly

variable {id : DerivedAggregateId} {s t : DomainStore}

theorem sameSource (h : TouchesOnly id s t) (hid : id.cf ∈ derivedCfs) : SameSource s t := by
  refine SameSource.of_get fun cf hcf key => (h cf key ?_ ?_).symm
  · rintro rfl
    exact hcf.1 hid
  · rintro ⟨rfl, -⟩
    exact hcf.2.1 rfl

theorem getDeriveMeta [Codec DeriveMeta] (h : TouchesOnly id s t) (hid : id.cf ∈ derivedCfs)
    {name : String} (hname : encodeDeriveMetaKey name ≠ encodeDeriveMetaKey id.name) :
    getDeriveMeta t name = getDeriveMeta s name :=
  getDeriveMeta_congr (h _ _ (ne_of_mem_derivedCfs hid).1.symm fun heq => hname heq.2)

theorem write [Codec DeriveMeta] (h : ∀ cf key v, cf ≠ id.cf → rowAfter cf key v batch = v) :
    TouchesOnly id s (s.write (putDeriveMeta batch id.name m)) := by
  intro cf key hcf hkey
  rw [get_write_putDeriveMeta hkey, h cf key _ hcf]

end TouchesOnly

/-! ## The invariant of one aggregate -/

/-- What the snapshot of a rebuild in flight still holds unfolded. -/
def ActiveRebuild.unfolded {Γ : Type} (a : ActiveRebuild) (A : SumAggregate Γ) (key : Bytes) :
    Nat → Int :=
  match a.phase with
  | .folding => A.remaining a.snapshot a.cursor key
  | .validating => 0

section Invariant

variable {Γ : Type} [Codec DeriveMeta]

/-- What holds of the aggregate at position `i` of the registry between two steps. -/
structure AggregateInv (A : SumAggregate Γ) (i : Nat) (st : SchedulerState) : Prop where
  /-- The clear range covers every key. -/
  keys : ∀ key, st.store.get A.id.cf key ≠ none → compare key derivedClearEnd = .lt
  decodes : ∃ m, getDeriveMeta st.store A.id.name = .ok m
  notStarted : ∀ m, getDeriveMeta st.store A.id.name = .ok (some m) → m.version = A.id.version →
    m.state = .notStarted → ∀ key, st.store.get A.id.cf key = none
  complete : ∀ m, getDeriveMeta st.store A.id.name = .ok (some m) → m.isComplete A.id = true →
    Represents st.store A.id.cf A.arity (A.value st.store)
  running : ∀ m a, getDeriveMeta st.store A.id.name = .ok m → continues st.active i m = some a →
    m.any (·.isMaintained A.id) = true ∧ Represents st.store A.id.cf A.arity fun key =>
      A.value st.store key - a.unfolded A key

variable {A : SumAggregate Γ} {i : Nat} {st st' : SchedulerState} {active : Option ActiveRebuild}
  {store : DomainStore}

omit [Codec DeriveMeta] in
/-- The rebuild a step continues is the process's own, and the state row names its run. -/
theorem continues_eq_some {m : Option DeriveMeta} (h : continues active i m = some a) :
    active = some a ∧ a.index = i ∧ ∃ m', m = some m' ∧ m'.run = a.run ∧
      ∃ tip phase cursor rows, m'.state = .running tip phase cursor rows := by
  unfold continues at h
  split at h
  · split at h
    · rename_i hrun
      cases h
      exact ⟨rfl, hrun.1, _, rfl, hrun.2.symm, _, _, _, _, rfl⟩
    · cases h
  · cases h

section Same

variable (h : AggregateInv A i st)
  (hrows : ∀ key, st'.store.get A.id.cf key = st.store.get A.id.cf key)
  (hstate : getDeriveMeta st'.store A.id.name = getDeriveMeta st.store A.id.name)
  (hactive : ∀ m a, continues st'.active i m = some a → continues st.active i m = some a)

include h hrows hstate hactive

/-- The invariant reads the aggregate's rows, its state, the source and the rebuild in flight. -/
theorem AggregateInv.congr (hsource : SameSource st.store st'.store) : AggregateInv A i st' := by
  have hvalue : A.value st'.store = A.value st.store := (value_congr hsource).symm
  refine ⟨fun key hkey => h.keys key (hrows key ▸ hkey), hstate ▸ h.decodes,
    fun m hm hv hs key => ?_, fun m hm hc => ?_, fun m a hm ha => ?_⟩
  · rw [hrows]
    exact h.notStarted m (hstate ▸ hm) hv hs key
  · have hrep := h.complete m (hstate ▸ hm) hc
    exact ⟨fun key => by rw [hrows, hrep.row, hvalue], hvalue ▸ hrep.fits, hvalue ▸ hrep.support⟩
  · obtain ⟨hv, hrep⟩ := h.running m a (hstate ▸ hm) (hactive m a ha)
    refine ⟨hv, fun key => by rw [hrows, hrep.row, hvalue], ?_, ?_⟩
    · rw [hvalue]
      exact hrep.fits
    · rw [hvalue]
      exact hrep.support

/-- The source does not matter to an aggregate that live sync does not maintain. -/
theorem AggregateInv.unmaintained {m : Option DeriveMeta}
    (hm : getDeriveMeta st.store A.id.name = .ok m) (hnot : m.any (·.isMaintained A.id) = false) :
    AggregateInv A i st' := by
  have hread : ∀ m', getDeriveMeta st.store A.id.name = .ok m' → m' = m := by
    intro m' hm'
    rw [hm] at hm'
    exact (Except.ok.inj hm').symm
  refine ⟨fun key hkey => h.keys key (hrows key ▸ hkey), hstate ▸ h.decodes,
    fun m' hm' hv hs key => ?_, fun m' hm' hc => ?_, fun m' a hm' ha => ?_⟩
  · rw [hrows]
    exact h.notStarted m' (hstate ▸ hm') hv hs key
  · have heq := hread _ (hstate ▸ hm')
    rw [← heq, Option.any_some, isMaintained_of_isComplete hc] at hnot
    cases hnot
  · have heq := hread _ (hstate ▸ hm')
    have := (h.running m' a (hstate ▸ hm') (hactive m' a ha)).1
    rw [heq, hnot] at this
    cases this

end Same

variable (hkeys : ∀ key, store.get A.id.cf key ≠ none → compare key derivedClearEnd = .lt)
  (hstate : getDeriveMeta store A.id.name = .ok (some m))

include hkeys hstate

theorem AggregateInv.of_state
    (hidle : m.state = .notStarted → ∀ key, store.get A.id.cf key = none)
    (hcomplete : m.isComplete A.id = true → Represents store A.id.cf A.arity (A.value store))
    (hrunning : ∀ a, continues active i (some m) = some a → m.isMaintained A.id = true ∧
      Represents store A.id.cf A.arity fun key => A.value store key - a.unfolded A key) :
    AggregateInv A i ⟨store, active⟩ := by
  have hread : ∀ m', getDeriveMeta store A.id.name = .ok m' → m' = some m := by
    intro m' hm'
    rw [hstate] at hm'
    exact (Except.ok.inj hm').symm
  refine ⟨hkeys, ⟨_, hstate⟩, fun m' hm' _ => ?_, fun m' hm' => ?_, fun m' a hm' ha => ?_⟩
  · cases hread _ hm'
    exact hidle
  · cases hread _ hm'
    exact hcomplete
  · cases hread _ hm'
    exact hrunning a ha

/-- Live sync maintains no aggregate that is neither running nor complete, and nothing is promised
about its rows unless it is not started. -/
theorem AggregateInv.of_not_maintained
    (hidle : m.state = .notStarted → ∀ key, store.get A.id.cf key = none)
    (hm : ∀ tip phase cursor rows, m.state ≠ .running tip phase cursor rows)
    (hm' : ∀ derivedFrom tip rows, m.state ≠ .complete derivedFrom tip rows) :
    AggregateInv A i ⟨store, active⟩ := by
  refine .of_state hkeys hstate hidle (fun hc => ?_) fun a ha => ?_
  · obtain ⟨_, _, _, hs⟩ := isComplete_iff.mp hc |>.2
    exact absurd hs (hm' _ _ _)
  · obtain ⟨-, -, m', heq, -, tip, phase, cursor, rows, hrun⟩ := continues_eq_some ha
    cases heq
    exact absurd hrun (hm tip phase cursor rows)

/-- A rebuild in flight whose rows are what it has folded so far. -/
theorem AggregateInv.of_running (hv : m.version = A.id.version) {tip : Int} {phase : RebuildPhase}
    {cursor : Option Bytes} {rows : Nat} (hm : m.state = .running tip phase cursor rows)
    (hrep : ∀ a, active = some a → Represents store A.id.cf A.arity fun key =>
      A.value store key - a.unfolded A key) :
    AggregateInv A i ⟨store, active⟩ := by
  refine .of_state hkeys hstate (fun hs => ?_) (fun hc => ?_) fun a ha => ⟨?_, ?_⟩
  · rw [hm] at hs
    cases hs
  · simp [isComplete, hm] at hc
  · simp [isMaintained, hm, hv]
  · exact hrep a (continues_eq_some ha).1

end Invariant

/-! ## One step -/

section Step

variable {Γ : Type} [Codec DeriveMeta] [Codec CachedBlockHeader]

/-- What a step did: nothing to the store, or work on one aggregate that keeps its invariant. An
aggregate it declares complete was completed at the committed tip. -/
inductive StepEffect (aggregates : List (SumAggregate Γ)) (st st' : SchedulerState) : Prop where
  | unchanged (hstore : st'.store = st.store) (hactive : st'.active = none ∨ st'.active = st.active)
  | touched {i : Nat} {A : SumAggregate Γ} (hA : aggregates[i]? = some A)
      (htouch : TouchesOnly A.id st.store st'.store)
      (hactive : ∀ a, st'.active = some a → a.index = i) (hinv : AggregateInv A i st')
      (hcomplete : ∀ m, getDeriveMeta st'.store A.id.name = .ok (some m) →
        m.isComplete A.id = true → ∃ derivedFrom tip rows,
          m.state = .complete derivedFrom tip rows ∧ committedTip st.store = .ok tip)

variable {aggregates : List (SumAggregate Γ)} {A : SumAggregate Γ} {i : Nat} {st : SchedulerState}
  {limits : StepLimits}

/-- Work on one aggregate that leaves it in a known state short of complete. -/
theorem StepEffect.of_put {st' : SchedulerState} (hA : aggregates[i]? = some A)
    (hstore : st'.store = st.store.write (putDeriveMeta batch A.id.name m))
    (hbatch : ∀ cf key v, cf ≠ A.id.cf → rowAfter cf key v batch = v)
    (hactive : ∀ a, st'.active = some a → a.index = i) (hinv : AggregateInv A i st')
    (hm : m.isComplete A.id = false) : StepEffect aggregates st st' := by
  refine .touched hA ?_ hactive hinv fun m' hm' hc => ?_
  · rw [hstore]
    exact TouchesOnly.write hbatch
  · rw [hstore, getDeriveMeta_write_putDeriveMeta] at hm'
    cases hm'
    rw [hm] at hc
    cases hc

/-- Starting clears the rows and pins a snapshot that holds the whole value unfolded. -/
theorem start_effect (h : AggregateInv A i st) (hA : aggregates[i]? = some A)
    (previous : Option DeriveMeta) :
    StepEffect aggregates st (start st limits i A.toDerivedAggregate previous).1 := by
  simp only [start, clearDerivedCf_ok A.derived, List.nil_append]
  cases htip : committedTip st.store with
  | error e => exact .unchanged rfl (.inl rfl)
  | ok tip =>
    simp only
    generalize hrun : (previous.map run).getD 0 + 1 = run
    generalize hm : (⟨A.id.version, .running tip .folding none 0, run, some limits.nowMs, none⟩ :
      DeriveMeta) = m
    generalize hstore : st.store.write (putDeriveMeta
      [.deleteRange A.id.cf [] derivedClearEnd] A.id.name m) = store
    have hrows : ∀ key, store.get A.id.cf key = none := by
      intro key
      rw [← hstore, get_write_putDeriveMeta fun heq => (ne_of_mem_derivedCfs A.derived).1 heq.1,
        rowAfter_clear (h.keys key)]
    have hstate : getDeriveMeta store A.id.name = .ok (some m) := by
      rw [← hstore, getDeriveMeta_write_putDeriveMeta]
    have hbatch : ∀ cf key v, cf ≠ A.id.cf →
        rowAfter cf key v [.deleteRange A.id.cf [] derivedClearEnd] = v :=
      fun cf key v hcf => rowAfter_clear_of_ne hcf v
    have hnot : m.isComplete A.id = false := by
      simp [← hm, isComplete]
    have hinv : ∀ active : Option ActiveRebuild,
        (∀ a, active = some a → ∀ key, a.unfolded A key = A.value store key) →
        AggregateInv A i ⟨store, active⟩ := by
      intro active hfolded
      refine .of_running (fun key hkey => absurd (hrows key) hkey) hstate (by rw [← hm])
        (by rw [← hm]) fun a ha => ⟨fun key => ?_, fun key j => ?_, fun key j _ => ?_⟩
      · simp [hrows, hfolded a ha]
      · simp [hfolded a ha, fitsSigned_zero]
      · simp [hfolded a ha]
    cases htip' : committedTip store with
    | error e =>
      exact .of_put hA hstore.symm hbatch (fun a ha => by cases ha)
        (hinv none fun a ha => by cases ha) hnot
    | ok snapshotTip =>
      simp only
      split
      · exact .of_put hA hstore.symm hbatch (fun a ha => by cases ha)
          (hinv none fun a ha => by cases ha) hnot
      · refine .of_put hA hstore.symm hbatch (fun a ha => ?_) (hinv _ fun a ha key => ?_) hnot
        · cases ha
          rfl
        · cases ha
          rfl

/-- Marking an aggregate failed leaves its rows. -/
theorem recordFailureBeforeStop_effect (h : AggregateInv A i st) (hA : aggregates[i]? = some A)
    (m : DeriveMeta) (error : String) (nowMs : Int) :
    StepEffect aggregates st ⟨recordFailureBeforeStop st.store A.id.name m error nowMs, none⟩ := by
  have hkeep : ∀ key, (recordFailureBeforeStop st.store A.id.name m error nowMs).get A.id.cf key
      = st.store.get A.id.cf key := by
    intro key
    rw [recordFailureBeforeStop, get_write_putDeriveMeta fun heq =>
      (ne_of_mem_derivedCfs A.derived).1 heq.1, rowAfter_nil]
  refine .of_put hA rfl (fun _ _ _ _ => rowAfter_nil _) (fun a ha => by cases ha) ?_ ?_
  · exact .of_not_maintained (fun key hkey => h.keys key (hkeep key ▸ hkey))
      getDeriveMeta_write_putDeriveMeta (fun hs => by cases hs) (fun _ _ _ _ hs => by cases hs)
      (fun _ _ _ hs => by cases hs)
  · simp [isComplete, failedMeta]

/-- A failure leaves the rows and marks the aggregate, or could not even do that. -/
theorem fail_effect (h : AggregateInv A i st) (hA : aggregates[i]? = some A) (error : String) :
    StepEffect aggregates st (fail st limits A.toDerivedAggregate error).1 := by
  simp only [fail]
  cases hm : getDeriveMeta st.store A.id.name with
  | error e => exact .unchanged rfl (.inl rfl)
  | ok previous =>
    cases previous with
    | none => exact .unchanged rfl (.inl rfl)
    | some previous => exact recordFailureBeforeStop_effect h hA previous error limits.nowMs

omit [Codec DeriveMeta] [Codec CachedBlockHeader] in
/-- The rows a chunk stages are its contributions added to the rows the store holds. -/
theorem foldlM_stageFolded_ok {s : DomainStore} {cf : Cf} {arity : Bytes → Nat}
    {f : Bytes → Nat → Int} {cs : List (Bytes × List Int)} {batch' : DomainBatch}
    (hrep : Represents s cf arity f) (hcf : cf ∈ derivedCfs)
    (harity : ∀ c ∈ cs, c.2.length = arity c.1)
    (h : cs.foldlM (stageFolded s cf) batch = .ok batch') :
    batch' = batch ++ (cs.map fun c => (c.1, encodeRow (arity c.1) (f c.1 + comps c.2))).map
        (fun row => WriteOp.set cf row.1 row.2) ∧
      ∀ c ∈ cs, ∀ i, FitsSigned 16 ((f c.1 + comps c.2) i) := by
  induction cs generalizing batch with
  | nil =>
    cases h
    exact ⟨by simp, fun c hc => by cases hc⟩
  | cons c cs ih =>
    obtain ⟨mid, hmid, hrest⟩ := foldlM_cons_eq_ok.mp h
    obtain ⟨current, hget, hcomps, -, -⟩ := hrep.getDerivedValue hcf c.1
    obtain ⟨current', hget', hmid⟩ := bind_eq_ok.mp hmid
    rw [hget] at hget'
    cases hget'
    obtain ⟨value, hsum, hput⟩ := bind_eq_ok.mp hmid
    rw [putDerivedValue_ok hcf] at hput
    cases hput
    obtain ⟨hrow, -, hfits⟩ := encodeRow_of_sumWith hcomps hsum
    obtain ⟨rfl, hfits'⟩ := ih (List.forall_mem_cons.mp harity).2 hrest
    rw [harity c List.mem_cons_self] at hrow
    exact ⟨by simp [hrow], List.forall_mem_cons.mpr ⟨hfits, hfits'⟩⟩

section Chunk

variable (h : AggregateInv A i st) (hA : aggregates[i]? = some A) {m : Option DeriveMeta}
  (hm : getDeriveMeta st.store A.id.name = .ok m) (ha : continues st.active i m = some a)

include h hA hm ha

/-- Folding a chunk moves it from the unfolded part of the snapshot to the rows. -/
theorem foldChunk_effect (hphase : a.phase = .folding) :
    StepEffect aggregates st (foldChunk st limits A.toDerivedAggregate a).1 := by
  simp only [foldChunk]
  cases hchunk : A.rebuildChunk a.snapshot a.cursor
      { maxRows := limits.chunkRows, maxKeys := some limits.chunkKeys,
        elapsed := limits.elapsed } with
  | error e => exact fail_effect h hA _
  | ok chunk =>
    simp only
    obtain ⟨hwf, hpart⟩ := rebuildChunk_ok hchunk
    have hmem : ∀ c ∈ chunk.out.toList, WellFormedContribution A.arity c := fun c hc =>
      hwf c.1 c.2 (Std.ExtTreeMap.mem_toList_iff_getElem?_eq_some.mp hc)
    cases hstage : chunk.out.toList.foldlM (stageFolded st.store A.id.cf) [] with
    | error e => exact .unchanged rfl (.inr rfl)
    | ok batch =>
      simp only [hm]
      obtain ⟨-, hrep⟩ := h.running m a hm ha
      obtain ⟨hactive, hindex, -⟩ := continues_eq_some ha
      obtain ⟨hbatch, hfits⟩ := foldlM_stageFolded_ok hrep A.derived
        (fun c hc => (hmem c hc).1) hstage
      rw [List.nil_append] at hbatch
      generalize hrows : (chunk.out.toList.map fun c => (c.1, encodeRow (A.arity c.1)
        ((fun key => A.value st.store key - a.unfolded A key) c.1 + comps c.2))) = rows
        at hbatch
      have hother : ∀ cf key v, cf ≠ A.id.cf → rowAfter cf key v batch = v := by
        intro cf key v hcf
        rw [hbatch, rowAfter_sets_of_ne (Ne.symm hcf)]
      refine .of_put hA rfl hother (fun a' ha' => ?_) ?_ ?_
      · cases ha'
        exact hindex
      · -- the chunk left the snapshot's rest and entered the rows
        generalize hstore : st.store.write (putDeriveMeta batch A.id.name _) = store
        have hget : ∀ key, store.get A.id.cf key
            = rowAfter A.id.cf key (st.store.get A.id.cf key) batch := by
          intro key
          rw [← hstore, get_write_putDeriveMeta fun heq =>
            (ne_of_mem_derivedCfs A.derived).1 heq.1]
        have hsame : SameSource st.store store := by
          rw [← hstore]
          exact (TouchesOnly.write hother).sameSource A.derived
        have hrep' := hrep.add (nodup_map_fst_toList chunk.out) (fun c hc => (hmem c hc).1) hfits
          (fun key => by rw [hget, hbatch, hrows])
        refine .of_running (fun key hkey => ?_)
          (by rw [← hstore]; exact getDeriveMeta_write_putDeriveMeta) rfl rfl fun a' ha' => ?_
        · rw [hget, hbatch] at hkey
          by_cases hk : key ∈ rows.map Prod.fst
          · obtain ⟨row, hrow, rfl⟩ := List.mem_map.mp hk
            rw [← hrows] at hrow
            obtain ⟨c, hc, rfl⟩ := List.mem_map.mp hrow
            exact (hmem c hc).2
          · rw [rowAfter_sets_of_not_mem hk] at hkey
            exact h.keys key hkey
        · cases ha'
          convert hrep' using 2 with key
          rw [← value_congr hsame, total_toList]
          simp only [ActiveRebuild.unfolded, hphase, ← hpart key]
          cases chunk.next with
          | none =>
            abel
          | some last =>
            abel
      · simp [isComplete, runningMeta]

/-- Validating leaves the rows alone; after the last row they are declared complete. -/
theorem validateChunk_effect (hphase : a.phase = .validating) :
    StepEffect aggregates st (validateChunk st limits A.toDerivedAggregate a).1 := by
  obtain ⟨-, hrep⟩ := h.running m a hm ha
  obtain ⟨hactive, hindex, -⟩ := continues_eq_some ha
  simp only [ActiveRebuild.unfolded, hphase, sub_zero] at hrep
  have hnone : ∀ cf key v, cf ≠ A.id.cf → rowAfter cf key v ([] : DomainBatch) = v :=
    fun _ _ _ _ => rfl
  have hkeep : ∀ m' key, (st.store.write (putDeriveMeta [] A.id.name m')).get A.id.cf key
      = st.store.get A.id.cf key := by
    intro m' key
    rw [get_write_putDeriveMeta fun heq => (ne_of_mem_derivedCfs A.derived).1 heq.1, rowAfter_nil]
  have hrep' : ∀ m', Represents (st.store.write (putDeriveMeta [] A.id.name m')) A.id.cf A.arity
      (A.value (st.store.write (putDeriveMeta [] A.id.name m'))) := by
    intro m'
    rw [← value_congr ((TouchesOnly.write hnone).sameSource A.derived)]
    exact ⟨fun key => by rw [hkeep, hrep.row], hrep.fits, hrep.support⟩
  simp only [validateChunk]
  split
  · exact fail_effect h hA _
  · simp only [hm]
    refine .of_put hA rfl hnone (fun a' ha' => ?_) ?_ ?_
    · cases ha'
      exact hindex
    · refine .of_running (fun key hkey => h.keys key (hkeep _ key ▸ hkey))
        getDeriveMeta_write_putDeriveMeta rfl rfl fun a' ha' => ?_
      cases ha'
      simpa only [ActiveRebuild.unfolded, hphase, sub_zero] using hrep' _
    · simp [isComplete, runningMeta]
  · simp only [hm]
    cases htip : committedTip st.store with
    | error e => exact .unchanged rfl (.inl rfl)
    | ok tip =>
      refine .touched hA (TouchesOnly.write hnone) (fun a' ha' => by cases ha') ?_ fun m' hm' _ => ?_
      · refine .of_state (fun key hkey => h.keys key (hkeep _ key ▸ hkey))
          getDeriveMeta_write_putDeriveMeta (fun hs => by cases hs) (fun _ => hrep' _)
          fun a' ha' => ?_
        obtain ⟨hnone', -⟩ := continues_eq_some ha'
        cases hnone'
      · simp only [getDeriveMeta_write_putDeriveMeta] at hm'
        cases hm'
        exact ⟨_, _, _, rfl, htip⟩

end Chunk

omit [Codec CachedBlockHeader] in
/-- The pending aggregate is a registered one, with its own state and position. -/
theorem nextPending_ok {s : DomainStore} {n index : Nat} {aggregate : DerivedAggregate Γ}
    {m : Option DeriveMeta}
    (h : nextPending s n (aggregates.map (·.toDerivedAggregate)) = .ok (some (index, aggregate, m))) :
    ∃ i A, index = n + i ∧ aggregates[i]? = some A ∧ aggregate = A.toDerivedAggregate ∧
      getDeriveMeta s A.id.name = .ok m := by
  induction aggregates generalizing n with
  | nil => cases h
  | cons B rest ih =>
    obtain ⟨m', hm', h⟩ := bind_eq_ok.mp h
    split at h
    · obtain ⟨i, A, rfl, hA, hrest⟩ := ih h
      exact ⟨i + 1, A, by omega, hA, hrest⟩
    · cases h
      exact ⟨0, B, rfl, rfl, rfl, hm'⟩

/-- **One step works on one aggregate and keeps its invariant.** -/
theorem step_effect (h : ∀ i A, aggregates[i]? = some A → AggregateInv A i st) :
    StepEffect aggregates st (step st limits (aggregates.map (·.toDerivedAggregate))).1 := by
  simp only [step]
  split
  · exact .unchanged rfl (.inr rfl)
  · exact .unchanged rfl (.inl rfl)
  · rename_i index aggregate m hnext
    obtain ⟨i, A, rfl, hA, rfl, hm⟩ := nextPending_ok hnext
    rw [Nat.zero_add]
    cases hcont : continues st.active i m with
    | none => exact start_effect (h i A hA) hA m
    | some a =>
      simp only
      split
      · rename_i hphase
        exact validateChunk_effect (h i A hA) hA hm hcont hphase
      · rename_i hphase
        exact foldChunk_effect (h i A hA) hA hm hcont hphase

end Step

end Ckbadger.Derive
