/-
Ckbadger.Sync.DeriveRunTheorems — the invariant of the derived aggregates over
runs of live batches, scheduler steps, restarts and rollbacks.

The invariant of a run (`IndexerInv`) holds the invariant of the undo log, the
invariant of each aggregate's rows, and, for an aggregate that is complete, what
the log says about it: since its completion every change of a value has its
pre-image, and the pre-image is the value before (`CompleteLog`).
-/
import Ckbadger.Sync.DeriveRun
import Ckbadger.Sync.UndoCoverageTheorems
import Ckbadger.Derive.ResetTheorems

namespace Ckbadger.Sync

open Lib Lib.KeyedSum Store Derive DeriveMeta SumAggregate OrderedStore List

section Run

variable {Γ : Type} [Codec DeriveMeta] {A : SumAggregate Γ} {s : DomainStore}
  {ctx : LiveDeriveCtx Γ} {ext : DomainBatch} {drows : List UndoRow} {tip tip' : Int}
variable {completedAt : Int} {history : Int → DomainStore}

/-! ## Live batches -/

/-- The stored state of an aggregate that has been complete since `completedAt`. -/
structure CompletedAt (s : DomainStore) (id : DerivedAggregateId) (m : DeriveMeta)
    (completedAt : Int) : Prop where
  read : getDeriveMeta s id.name = .ok (some m)
  version : m.version = id.version
  state : ∃ derivedFrom rows, m.state = .complete derivedFrom completedAt rows

theorem CompletedAt.isComplete {m : DeriveMeta} (h : CompletedAt s A.id m completedAt) :
    m.isComplete A.id = true := by
  obtain ⟨_, _, hs⟩ := h.state
  exact isComplete_iff.mpr ⟨h.version, _, _, _, hs⟩

/-- What the log says about an aggregate that has been complete since `completedAt`. -/
structure CompleteLog (A : SumAggregate Γ) (completedAt tip : Int) (history : Int → DomainStore)
    (ledger : List UndoRow) : Prop where
  le : completedAt ≤ tip
  fits : ∀ b, completedAt ≤ b → b ≤ tip → ∀ key i, FitsSigned 16 (A.value (history b) key i)
  /-- A pre-image is the value at the end of the block before. -/
  preImage : ∀ row ∈ ledger, completedAt < row.block → ∀ key pre,
    row.entry = .keyMutation .domain A.id.cf.name key pre →
    pre = encodeRow (A.arity key) (A.value (history (row.block - 1)) key)
  /-- Every change of a value has its pre-image. -/
  covers : ∀ b, completedAt < b → b ≤ tip → ∀ key,
    A.value (history b) key ≠ A.value (history (b - 1)) key →
    ∃ row ∈ ledger, row.block = b ∧ ∃ pre, row.entry = .keyMutation .domain A.id.cf.name key pre

/-- A batch on a complete aggregate records the pre-images of its changes. -/
theorem CompleteLog.live {history' : Int → DomainStore}
    {ledger rows : List UndoRow} {m : DeriveMeta} (h : CompleteLog A completedAt tip history ledger)
    (hc : CompletedAt s A.id m completedAt) (hrep : Represents s A.id.cf A.arity (A.value s))
    (heffect : LiveEffect s ctx A ext drows) (htip : tip ≤ tip')
    (hexact : ∀ deltas, A.liveDeltas ctx = .ok deltas →
      ExactDeltas deltas.entries tip tip' fun b => A.value (history' b))
    (hpast : ∀ b ≤ tip, history' b = history b) (hnow : SameSource (history tip) s)
    (hledger : ∀ row ∈ ledger, row.block ≤ tip)
    (hrows : ∀ row ∈ rows, ∀ key pre, row.entry ≠ .keyMutation .domain A.id.cf.name key pre) :
    CompleteLog A completedAt tip' history' (ledger ++ (rows ++ drows)) := by
  cases heffect with
  | skipped hm' hnot _ _ =>
    rw [hc.read] at hm'
    cases hm'
    rw [Option.any_some, isMaintained_of_isComplete hc.isComplete] at hnot
    cases hnot
  | @applied m' deltas staged hm' _ hdeltas hstaged _ hundo =>
    have harity : ∀ e ∈ deltas.entries, e.2.2.length = A.arity e.2.1 :=
      fun e he => (A.live_wf hdeltas e he).1
    have hinv := foldlM_stageDelta_ok hrep A.derived harity hstaged
    have hdelta := hexact deltas hdeltas
    have hsorted := deltas.entries_sorted
    have hvalue : A.value (history' tip) = A.value s := by
      rw [hpast tip le_rfl]
      exact value_congr hnow
    have hle := h.le
    refine ⟨hle.trans htip, fun b hlo hhi key j => ?_, fun row hrow hlt key pre hentry => ?_,
      fun b hlo hhi key hne => ?_⟩
    · by_cases hb : b ≤ tip
      · rw [hpast b hb]
        exact h.fits b hlo hb key j
      · obtain ⟨before, after, hsplit, hsum⟩ := hdelta.reached hsorted (by omega) hhi key
        rw [← hsum, hvalue]
        exact hinv.fits before after hsplit key j
    · rcases mem_append.mp hrow with hold | hnew
      · have hblock := hledger row hold
        rw [hpast _ (by omega)]
        exact h.preImage row hold hlt key pre hentry
      rcases mem_append.mp hnew with hwriter | hderived
      · exact absurd hentry (hrows row hwriter key pre)
      · obtain ⟨before, e, after, hsplit, hu⟩ :=
          hinv.undo _ ((hundo row.block key pre).mp ⟨row, hderived, rfl, hentry⟩)
        obtain ⟨hblock, hkey, hpre⟩ : row.block = e.1 ∧ key = e.2.1 ∧ _ := by
          simpa only [Prod.mk.injEq] using hu
        rw [hpre, hblock, hkey, ← hdelta.preImage hsorted hsplit, hvalue]
    · by_cases hb : b ≤ tip
      · rw [hpast b hb, hpast (b - 1) (by omega)] at hne
        obtain ⟨row, hrow, hrest⟩ := h.covers b hlo hb key hne
        exact ⟨row, mem_append_left _ hrow, hrest⟩
      · -- a block that changes a value has a delta for it
        have hchange := hdelta.change b (by omega) hhi key
        have hex : ∃ e ∈ deltas.entries, e.1 = b ∧ e.2.1 = key := by
          by_contra hnone
          refine hne (sub_eq_zero.mp (hchange.symm.trans ?_))
          refine total_of_not_mem fun c hc heq => hnone ?_
          obtain ⟨e, he, rfl⟩ := mem_map.mp hc
          obtain ⟨he, hblock⟩ := mem_filter.mp he
          exact ⟨e, he, by simpa using hblock, heq⟩
        obtain ⟨e, he, hblock, hkey⟩ := hex
        obtain ⟨⟨ub, uk, pre⟩, hu, hub, huk⟩ := hinv.covers e he
        subst hub huk
        obtain ⟨row, hrow, hrowBlock, hentry⟩ := (hundo _ _ _).mpr hu
        refine ⟨row, mem_append_right _ (mem_append_right _ hrow), ?_, pre, ?_⟩
        · rw [hrowBlock, hblock]
        · rw [hentry, hkey]

/-! ## The invariant -/

variable [Codec UndoLogEntry] [Codec EntityStatsUndoContract] [Codec CachedBlockHeader]
  {R : Registry Γ} {tip₀ : Int} {st st' : IndexerState} {ledger : List UndoRow}

structure IndexerInv (R : Registry Γ) (tip₀ : Int) (st : IndexerState) (ledger : List UndoRow) :
    Prop where
  undo : UndoInv tip₀ ⟨st.sched.store, st.tip, ledger⟩
  committed : committedTip st.sched.store = .ok st.tip
  source : SameSource (st.history st.tip) st.sched.store
  each : ∀ (i : Nat) (A : SumAggregate Γ), R.aggregates[i]? = some A → AggregateInv A i st.sched
  complete : ∀ (i : Nat) (A : SumAggregate Γ), R.aggregates[i]? = some A → ∀ m completedAt,
    CompletedAt st.sched.store A.id m completedAt → CompleteLog A completedAt st.tip st.history ledger
  /-- The `Derived` entries are the pre-images of derived rows. -/
  derived : ∀ row ∈ ledger, UndoSeqScope.derived.owns row.seq = true ↔
    ∃ cf ∈ derivedCfs, ∃ key pre, row.entry = .keyMutation .domain cf.name key pre

theorem IndexerInv.init (hlive : StartsLive st.sched.store st.tip) (h : StartsDeriving R st) :
    IndexerInv R st.tip st [] where
  undo := .init hlive
  committed := h.committed
  source := h.source
  each i A hA := by
    obtain ⟨⟨m, hm, hstale⟩, hkeys⟩ := h.underived A (mem_of_getElem? hA)
    have hread : ∀ m', getDeriveMeta st.sched.store A.id.name = .ok m' → m' = m := by
      intro m' hm'
      rw [hm] at hm'
      exact (Except.ok.inj hm').symm
    refine ⟨hkeys, ⟨m, hm⟩, fun m' hm' hv _ => ?_, fun m' hm' hc => ?_, fun m' a _ ha => ?_⟩
    · exact absurd hv (hstale m' (hread _ hm').symm)
    · exact absurd (isComplete_iff.mp hc).1 (hstale m' (hread _ hm').symm)
    · obtain ⟨hactive, -⟩ := continues_eq_some ha
      rw [h.active] at hactive
      cases hactive
  complete i A hA m _ hc := by
    obtain ⟨⟨m', hm', hstale⟩, -⟩ := h.underived A (mem_of_getElem? hA)
    rw [hc.read] at hm'
    exact absurd hc.version (hstale m (Except.ok.inj hm').symm)
  derived row hrow := by cases hrow

/-- Work on the aggregates that leaves the log and the source alone. -/
theorem IndexerInv.work {sched' : SchedulerState} (h : IndexerInv R tip₀ st ledger)
    (hlog : ∀ key, sched'.store.get .reorgUndoLogByBlock key
      = st.sched.store.get .reorgUndoLogByBlock key)
    (hcontract : sched'.store.get .syncMeta entityStatsUndoContractKey
      = st.sched.store.get .syncMeta entityStatsUndoContractKey)
    (hsource : SameSource st.sched.store sched'.store)
    (heach : ∀ i A, R.aggregates[i]? = some A → AggregateInv A i sched')
    (hcomplete : ∀ (i : Nat) (A : SumAggregate Γ) m, R.aggregates[i]? = some A →
      getDeriveMeta sched'.store A.id.name = .ok (some m) → m.isComplete A.id = true →
      getDeriveMeta st.sched.store A.id.name = .ok (some m) ∨
        ∃ derivedFrom rows, m.state = .complete derivedFrom st.tip rows) :
    IndexerInv R tip₀ ⟨sched', st.tip, st.history⟩ ledger where
  undo := h.undo.congr hlog (coverageFloor_congr hcontract)
  committed := hsource.committedTip.symm.trans h.committed
  source := h.source.trans hsource
  each := heach
  complete i A hA m completedAt hc := by
    rcases hcomplete i A m hA hc.read hc.isComplete with hold | ⟨_, _, hnew⟩
    · exact h.complete i A hA m completedAt ⟨hold, hc.version, hc.state⟩
    · -- completed at the tip: no block has followed yet
      obtain ⟨_, _, hs⟩ := hc.state
      rw [hs] at hnew
      cases hnew
      have hrep := (heach i A hA).complete m hc.read hc.isComplete
      have hvalue := value_congr (A := A) (h.source.trans hsource)
      refine ⟨le_rfl, fun b hlo hhi => ?_, fun row hrow hlt => ?_, fun b hlo hhi => ?_⟩
      · rw [le_antisymm hhi hlo, hvalue]
        exact hrep.fits
      · exact absurd (h.undo.rows row hrow).2.2.1 (not_le.mpr hlt)
      · exact absurd hhi (not_le.mpr hlo)
  derived := h.derived

/-- A scheduler step, or a batch that was given up. -/
theorem IndexerInv.effect {sched' : SchedulerState} (h : IndexerInv R tip₀ st ledger)
    (heffect : StepEffect R.aggregates st.sched sched') :
    IndexerInv R tip₀ ⟨sched', st.tip, st.history⟩ ledger := by
  cases heffect with
  | unchanged hstore hactive =>
    refine h.work (fun key => by rw [hstore]) (by rw [hstore]) (hstore ▸ .refl _)
      (fun i A hA => ?_) (fun i A m _ hm _ => .inl (hstore ▸ hm))
    refine (h.each i A hA).congr (fun key => by rw [hstore]) (by rw [hstore]) (fun m a ha => ?_)
      (hstore ▸ .refl _)
    rcases hactive with hnone | hsame
    · rw [hnone] at ha
      cases (continues_eq_some ha).1
    · rwa [hsame] at ha
  | @touched j B hB htouch hactive hinv hcompleted =>
    have hlog : ∀ key, sched'.store.get .reorgUndoLogByBlock key
        = st.sched.store.get .reorgUndoLogByBlock key := fun key =>
      htouch _ key (ne_of_mem_derivedCfs B.derived).2.symm fun heq => absurd heq.1 (by decide)
    have hcontract := htouch .syncMeta entityStatsUndoContractKey
      (ne_of_mem_derivedCfs B.derived).1.symm fun heq => encodeDeriveMetaKey_ne_contract heq.2.symm
    have hsource := htouch.sameSource B.derived
    refine h.work hlog hcontract hsource (fun i A hA => ?_) fun i A m hA hm hc => ?_
    · rcases R.same_or_distinct hA hB with ⟨rfl, rfl⟩ | ⟨hcf, hkey⟩
      · exact hinv
      · refine (h.each i A hA).congr
          (fun key => htouch A.id.cf key hcf fun heq => (ne_of_mem_derivedCfs A.derived).1 heq.1)
          (htouch.getDeriveMeta B.derived hkey) (fun m a ha => ?_) hsource
        obtain ⟨ha', hindex, -⟩ := continues_eq_some ha
        have hij : i = j := hindex.symm.trans (hactive a ha')
        subst hij
        rw [hA] at hB
        cases hB
        exact absurd rfl hcf
    · rcases R.same_or_distinct hA hB with ⟨rfl, rfl⟩ | ⟨-, hkey⟩
      · obtain ⟨derivedFrom, tip, rows, hs, htip⟩ := hcompleted m hm hc
        rw [h.committed] at htip
        cases htip
        exact .inr ⟨derivedFrom, rows, hs⟩
      · exact .inl ((htouch.getDeriveMeta B.derived hkey).symm.trans hm)

theorem IndexerInv.restart (h : IndexerInv R tip₀ st ledger) :
    IndexerInv R tip₀ ⟨(normalizeOnStartup ⟨st.sched.store, none⟩ R.registered).1, st.tip,
      st.history⟩ ledger := by
  obtain ⟨resets, hreset, hactive, hlog⟩ := normalizeOnStartup_effect (R := R) (s := st.sched.store)
  refine h.work hlog hreset.contract hreset.sameSource (fun i A hA => ?_) fun i A m hA hm hc => ?_
  · by_cases hmem : A.id ∈ resets.map Prod.fst
    · obtain ⟨hrows, run, hstate⟩ := hreset.reset hA hmem (h.each i A hA).keys
      exact .of_not_maintained (fun key hkey => absurd (hrows key) hkey) hstate (fun _ => hrows)
        (fun _ _ _ _ hs => by cases hs) (fun _ _ _ hs => by cases hs)
    · obtain ⟨hrows, hstate⟩ := hreset.kept hA hmem
      refine (h.each i A hA).congr hrows hstate (fun m a ha => ?_) hreset.sameSource
      rw [hactive] at ha
      cases (continues_eq_some ha).1
  · by_cases hmem : A.id ∈ resets.map Prod.fst
    · obtain ⟨-, run, hstate⟩ := hreset.reset hA hmem (h.each i A hA).keys
      rw [hstate] at hm
      cases hm
      simp [isComplete, notStarted] at hc
    · exact .inl ((hreset.kept hA hmem).2.symm.trans hm)

theorem IndexerInv.batch (h : IndexerInv R tip₀ st ledger)
    (hbatch : BatchStep R st st') : ∃ ledger', IndexerInv R tip₀ st' ledger' := by
  obtain @⟨tip', history', ops, rows, _, _, _, _, _, _, _, htip, hmax, hwriter, hdrawn, hblocks, hlive,
    hretain, hcommitted, hpast, hnow, hexact⟩ := hbatch
  obtain ⟨ext, drows, hbatch, hdrawn', hstaged⟩ := foldlM_applyLiveOne_ok
    (R.distinct.imp fun hne => hne.1) hdrawn hlive
  subst hbatch
  obtain ⟨rops, rfl, hret⟩ := stageEntityStatsUndoRetention_ok hretain
  have hsync : ∀ key v, rowAfter .syncMeta key v ext = v := fun key v =>
    hstaged.frame _ key v (by decide) fun A _ => (ne_of_mem_derivedCfs A.derived).1
  have hrecords : Records (ops ++ ext) (rows ++ drows) :=
    ⟨fun key v => by rw [rowAfter_append, hwriter.log, hstaged.log, map_append, rowAfter_append],
      fun v => by rw [rowAfter_append, hwriter.contract, hsync]⟩
  have hdblocks := hstaged.blocks (V := fun A b => A.value (history' b)) hexact
  have hdentry : ∀ row ∈ drows, DataEntry row.entry := by
    intro row hrow
    obtain ⟨-, A, -, key, pre, hentry⟩ := hstaged.rows row hrow
    rw [hentry]
    exact ⟨A.id.cf, ofName?_name_of_derived A.derived, (ne_of_mem_derivedCfs A.derived).2,
      (ne_of_mem_derivedCfs A.derived).1⟩
  obtain ⟨hundo, -⟩ := h.undo.batch htip hmax hrecords hdrawn'
    (fun row hrow => (mem_append.mp hrow).elim (hblocks row) (hdblocks row))
    (fun row hrow => (mem_append.mp hrow).elim (fun hr => (hwriter.entries row hr).1)
      (hdentry row)) hret
  -- an aggregate's rows see the deltas only, and its state sees nothing
  have hrows : ∀ A ∈ R.aggregates, ∀ key,
      (st.sched.store.write (ops ++ ext ++ rops)).get A.id.cf key
        = rowAfter A.id.cf key (st.sched.store.get A.id.cf key) ext := by
    intro A hA key
    obtain ⟨hsync', hlog⟩ := ne_of_mem_derivedCfs A.derived
    rw [get_write, rowAfter_append, rowAfter_append, hwriter.derived A hA,
      rowAfter_of_effect_none fun op hop => hret.frame op hop _ _ hlog fun heq => hsync' heq.1]
  have hstate : ∀ A ∈ R.aggregates,
      getDeriveMeta (st.sched.store.write (ops ++ ext ++ rops)) A.id.name
        = getDeriveMeta st.sched.store A.id.name := by
    intro A hA
    refine getDeriveMeta_congr ?_
    rw [get_write, rowAfter_append, rowAfter_append, hwriter.states A hA, hsync,
      rowAfter_of_effect_none fun op hop => hret.frame op hop _ _ (by decide) fun heq =>
        encodeDeriveMetaKey_ne_contract heq.2]
  refine ⟨ledger ++ (rows ++ drows), hundo, hcommitted, hnow, fun i A hA => ?_,
    fun i A hA m completedAt hc => ?_, fun row hrow => ?_⟩
  · have hmem := mem_of_getElem? hA
    refine (h.each i A hA).live (hstaged.each A hmem) (hrows A hmem) (hstate A hmem) htip.le
      (hexact A hmem) ?_ (value_congr hnow)
    simp only [hpast st.tip le_rfl]
    exact value_congr h.source
  · have hmem := mem_of_getElem? hA
    have hc' : CompletedAt st.sched.store A.id m completedAt :=
      ⟨(hstate A hmem).symm.trans hc.read, hc.version, hc.state⟩
    exact (h.complete i A hA m completedAt hc').live hc'
      ((h.each i A hA).complete m hc'.read hc'.isComplete) (hstaged.each A hmem) htip.le (hexact A hmem) hpast
      h.source (fun row hrow => (h.undo.rows row hrow).2.2.1)
      fun row hrow => (hwriter.entries row hrow).2.2 A.id.cf A.derived
  · rcases mem_append.mp hrow with hold | hnew
    · exact h.derived row hold
    rcases mem_append.mp hnew with hw | hd
    · obtain ⟨-, howns, hne⟩ := hwriter.entries row hw
      rw [howns]
      refine ⟨fun hfalse => (by cases hfalse), ?_⟩
      rintro ⟨cf, hcf, key, pre, hentry⟩
      exact absurd hentry (hne cf hcf key pre)
    · obtain ⟨howns, A, -, key, pre, hentry⟩ := hstaged.rows row hd
      exact ⟨fun _ => ⟨A.id.cf, A.derived, key, pre, hentry⟩, fun _ => howns⟩

/-! ## Rollback -/

variable {rollbackTo : Int}

/-- What a rollback of a state does to an aggregate. -/
abbrev IndexerState.rollbackOf (st : IndexerState) (rollbackTo : Int) (A : SumAggregate Γ) :
    Bool × Bool := Derive.rollbackOf st.sched.store st.tip rollbackTo A

/-- What the preparation of a rollback and the replay leave of one aggregate. -/
inductive RollbackOutcome (A : SumAggregate Γ) (st : IndexerState) (rollbackTo : Int)
    (s' : DomainStore) : Prop where
  | reset (hrows : ∀ key, s'.get A.id.cf key = none) {run : Nat}
      (hstate : getDeriveMeta s' A.id.name = .ok (some (.notStarted A.id.version run)))
  | replayed {m : DeriveMeta} {completedAt : Int}
      (hc : CompletedAt st.sched.store A.id m completedAt) (hle : completedAt ≤ rollbackTo)
      (hstate : getDeriveMeta s' A.id.name = .ok (some m))
      (hrows : ∀ key, s'.get A.id.cf key
        = encodeRow (A.arity key) (A.value (st.history (min st.tip rollbackTo)) key))
  | kept {m : Option DeriveMeta} (hm : getDeriveMeta st.sched.store A.id.name = .ok m)
      (hstate : getDeriveMeta s' A.id.name = .ok m)
      (hrows : ∀ key, s'.get A.id.cf key = st.sched.store.get A.id.cf key)
      (hcase : m.any (·.isMaintained A.id) = false ∨ st.tip ≤ rollbackTo)

omit [Codec UndoLogEntry] [Codec EntityStatsUndoContract] [Codec CachedBlockHeader] in
theorem sparesLog_resetOps {resets : List (DerivedAggregateId × Nat)}
    (h : ∀ r ∈ resets, r.1.cf ∈ derivedCfs) : SparesLog (resetOps resets) := by
  intro op hop
  obtain ⟨r, hr, hop⟩ := mem_flatMap.mp hop
  obtain ⟨hsync, hlog⟩ := ne_of_mem_derivedCfs (h r hr)
  simp only [mem_cons, not_mem_nil, or_false] at hop
  rcases hop with rfl | rfl
  · simp [WriteOp.effect, hsync, hlog]
  · simp [WriteOp.effect, encodeDeriveMetaKey_ne_contract]

omit [Codec DeriveMeta] [Codec CachedBlockHeader] in
/-- The entries of a log about an aggregate that undo replay owns are the pre-images of its
changes, so replaying them gives its value at the target. -/
theorem CompleteLog.replay (h : CompleteLog A completedAt tip history ledger)
    (hundo : UndoInv tip₀ ⟨s, tip, ledger⟩) (hfloor : coverageFloor s ≤ rollbackTo)
    (hle : completedAt ≤ rollbackTo)
    (hrows : ∀ key, s.get A.id.cf key = encodeRow (A.arity key) (A.value (history tip) key))
    (key : Bytes) :
    (rollbackViaUndoLog s rollbackTo).1.get A.id.cf key
      = encodeRow (A.arity key) (A.value (history (min tip rollbackTo)) key) := by
  -- nothing changes after the tip
  refine hundo.get_rollback (fun b => encodeRow (A.arity key) (A.value (history (min tip b)) key))
    hfloor (ofName?_name_of_derived A.derived) (ne_of_mem_derivedCfs A.derived).2
    (le_max_right tip rollbackTo) ?_
    (fun row hrow hlt pre hentry => ?_) fun t ht hne => ?_
  · rw [hrows, min_eq_left (le_max_left _ _)]
  · have hblock : row.block ≤ tip := (hundo.rows row hrow).2.2.1
    rw [min_eq_right (show row.block - 1 ≤ tip by omega)]
    exact h.preImage row hrow (hle.trans_lt hlt) key pre hentry
  · by_cases htip : t ≤ tip
    · refine h.covers t (by omega) htip key fun heq => hne ?_
      rw [min_eq_right htip, min_eq_right (show t - 1 ≤ tip by omega), heq]
    · refine absurd ?_ hne
      rw [min_eq_left (show tip ≤ t by omega), min_eq_left (show tip ≤ t - 1 by omega)]

section

variable (h : IndexerInv R tip₀ st ledger)

include h

/-- The preparation of a rollback at or above the floor succeeds. -/
theorem IndexerInv.prepare (hfloor : coverageFloor st.sched.store ≤ rollbackTo) :
    ∃ prepared resets,
      invalidateRegisteredForRollback st.sched.store R.registered rollbackTo = .ok prepared ∧
      ResetEffect R resets st.sched.store prepared ∧
      resets.map Prod.fst
        = (R.aggregates.filter fun A => (st.rollbackOf rollbackTo A).1).map (·.id) ∧
      coverageFloor prepared = coverageFloor st.sched.store ∧
      UndoInv tip₀ ⟨prepared, st.tip, ledger.filter fun row => !droppedBy
        ((notReplayedCfs st.sched.store st.tip rollbackTo R.aggregates).map Cf.name)
        rollbackTo row⟩ := by
  have hR₀ : tip₀ ≤ rollbackTo := h.undo.floor.trans hfloor
  -- a `Derived` entry above the target is a pre-image the run recorded
  have hread : ∀ key v, st.sched.store.get .reorgUndoLogByBlock key = some v →
      DerivedReadable rollbackTo (key, v) := by
    intro key v hget
    rcases h.undo.log key v hget with ⟨block, seq, rfl, hb, hseq, hle⟩ | ⟨row, hrow, rfl, rfl⟩
    · refine ⟨length_encodeReorgUndoLogKey block seq, fun hlt => ?_⟩
      rw [decode_encodeReorgUndoLogKey hb.fitsSigned hseq] at hlt
      omega
    · refine ⟨length_encodeReorgUndoLogKey _ _, fun _ howns => ?_⟩
      rw [h.undo.decode_key hrow] at howns
      obtain ⟨cf, -, k, pre, hentry⟩ := (h.derived row hrow).mp howns
      rw [hentry]
      exact ⟨_, _, _, _, Codec.deserialize_serialize _⟩
  have hdecodes : ∀ A ∈ R.aggregates, ∃ m, getDeriveMeta st.sched.store A.id.name = .ok m := by
    intro A hA
    obtain ⟨i, hi⟩ := mem_iff_getElem?.mp hA
    exact (h.each i A hi).decodes
  obtain ⟨resets, batch, dropped, hids, hstage, hprepare⟩ :=
    invalidateRegisteredForRollback_ok h.committed hdecodes hread
  have hregistered : ∀ r ∈ resets,
      ∃ (i : Nat) (A : SumAggregate Γ), R.aggregates[i]? = some A ∧ A.id = r.1 := by
    intro r hr
    have hmem : r.1 ∈ resets.map Prod.fst := mem_map_of_mem hr
    rw [hids] at hmem
    obtain ⟨A, hA, hid⟩ := mem_map.mp hmem
    obtain ⟨i, hi⟩ := mem_iff_getElem?.mp (mem_filter.mp hA).1
    exact ⟨i, A, hi, hid⟩
  have hspares : SparesLog (resetOps resets) := by
    refine sparesLog_resetOps fun r hr => ?_
    obtain ⟨i, A, -, hid⟩ := hregistered r hr
    exact hid ▸ A.derived
  obtain ⟨hundo, hsame⟩ := h.undo.reset (h.undo.start.trans hR₀) hspares hstage
  refine ⟨_, resets, hprepare, ⟨hregistered, fun cf key hcf => ?_⟩, hids, hsame, hundo⟩
  obtain ⟨keys, rfl, -, -⟩ := stageDeleteDerivedUndoAbove_ok hstage
  rw [get_write, rowAfter_append]
  refine rowAfter_of_effect_none fun op hop => ?_
  obtain ⟨k, -, rfl⟩ := mem_map.mp hop
  simp [WriteOp.effect, hcf.symm]

omit h in
omit [Codec UndoLogEntry] [Codec EntityStatsUndoContract] [Codec CachedBlockHeader] in
theorem RollbackOutcome.of_state {m : Option DeriveMeta} {s' : DomainStore}
    (hm : getDeriveMeta st.sched.store A.id.name = .ok m)
    (hreset : (st.rollbackOf rollbackTo A).1 = true →
      (∀ key, s'.get A.id.cf key = none) ∧
        ∃ run, getDeriveMeta s' A.id.name = .ok (some (.notStarted A.id.version run)))
    (hstate : (st.rollbackOf rollbackTo A).1 = false → getDeriveMeta s' A.id.name = .ok m)
    (hrows : st.rollbackOf rollbackTo A = (false, false) →
      ∀ key, s'.get A.id.cf key = st.sched.store.get A.id.cf key)
    (hreplay : ∀ m' completedAt, CompletedAt st.sched.store A.id m' completedAt →
      completedAt ≤ rollbackTo → ∀ key, s'.get A.id.cf key
        = encodeRow (A.arity key) (A.value (st.history (min st.tip rollbackTo)) key)) :
    RollbackOutcome A st rollbackTo s' := by
  have hof : st.rollbackOf rollbackTo A = rollbackEffect st.tip rollbackTo
      ((m.filter fun m => m.version == A.id.version).map state) := by
    rw [IndexerState.rollbackOf, rollbackOf, hm]
  have hkept : st.rollbackOf rollbackTo A = (false, false) →
      m.any (·.isMaintained A.id) = false ∨ st.tip ≤ rollbackTo →
      RollbackOutcome A st rollbackTo s' := fun hno hcase =>
    .kept hm (hstate (by rw [hno])) (hrows hno) hcase
  cases m with
  | none => exact hkept hof (.inl rfl)
  | some m =>
    by_cases hv : m.version = A.id.version
    · have hfilter : (some m).filter (fun m => m.version == A.id.version) = some m := by
        simp [hv]
      rw [hfilter, Option.map_some] at hof
      cases hs : m.state with
      | notStarted | failed =>
        rw [hs] at hof
        exact hkept hof (.inl (by simp [isMaintained, hs]))
      | running derivedFrom phase cursor n =>
        rw [hs, rollbackEffect] at hof
        by_cases hlt : rollbackTo < st.tip
        · obtain ⟨hnone, run, hstarted⟩ := hreset (by simp [hof, hlt])
          exact .reset hnone hstarted
        · exact hkept (by simp [hof, hlt]) (.inr (not_lt.mp hlt))
      | complete derivedFrom completedAt n =>
        rw [hs, rollbackEffect] at hof
        by_cases hlt : rollbackTo < completedAt
        · obtain ⟨hnone, run, hstarted⟩ := hreset (by simp [hof, hlt])
          exact .reset hnone hstarted
        · have hc : CompletedAt st.sched.store A.id m completedAt := ⟨hm, hv, _, _, hs⟩
          exact .replayed hc (not_lt.mp hlt) (hstate (by simp [hof, hlt]))
            (hreplay m completedAt hc (not_lt.mp hlt))
    · have hfilter : (some m).filter (fun m => m.version == A.id.version) = none := by
        simp [hv]
      rw [hfilter] at hof
      exact hkept hof (.inl (by simp [isMaintained, hv]))

/-- **What a rollback leaves of each aggregate.** -/
theorem IndexerInv.rollbackOutcome (hfloor : coverageFloor st.sched.store ≤ rollbackTo) :
    ∃ prepared,
      invalidateRegisteredForRollback st.sched.store R.registered rollbackTo = .ok prepared ∧
      (rollbackViaUndoLog prepared rollbackTo).2.isOk ∧
      UndoInv tip₀ ⟨(rollbackViaUndoLog prepared rollbackTo).1, min st.tip rollbackTo,
        ledger.filter fun row => row.block ≤ rollbackTo⟩ ∧
      ∀ (i : Nat) (A : SumAggregate Γ), R.aggregates[i]? = some A →
        RollbackOutcome A st rollbackTo (rollbackViaUndoLog prepared rollbackTo).1 := by
  obtain ⟨prepared, resets, hprepare, hreset, hids, hsame, hundo⟩ := h.prepare hfloor
  have hR₀ : tip₀ ≤ rollbackTo := h.undo.floor.trans hfloor
  generalize hcfs : (notReplayedCfs st.sched.store st.tip rollbackTo R.aggregates).map Cf.name
    = cfNames at hundo
  generalize hledger : (ledger.filter fun row => !droppedBy cfNames rollbackTo row) = kept at hundo
  have hmemKept : ∀ row, row ∈ kept ↔ row ∈ ledger ∧ droppedBy cfNames rollbackTo row = false := by
    intro row
    rw [← hledger, mem_filter, Bool.not_eq_true']
  obtain ⟨hok, hundo', hmeta⟩ := hundo.rollback hR₀
  refine ⟨prepared, hprepare, hok, ?_, fun i A hA => ?_⟩
  · have hfilter : kept.filter (fun row => row.block ≤ rollbackTo)
        = ledger.filter fun row => row.block ≤ rollbackTo := by
      rw [← hledger, filter_filter]
      refine filter_congr fun row _ => ?_
      by_cases hle : row.block ≤ rollbackTo
      · simp [droppedBy, hle]
      · simp [hle]
    exact hfilter ▸ hundo'
  · have hstate : getDeriveMeta (rollbackViaUndoLog prepared rollbackTo).1 A.id.name
        = getDeriveMeta prepared A.id.name := getDeriveMeta_congr (hmeta _)
    -- whether an entry about this aggregate was dropped depends on who owns its rollback
    have hdropped : ∀ row ∈ ledger, rollbackTo < row.block → ∀ key pre,
        row.entry = .keyMutation .domain A.id.cf.name key pre →
        (droppedBy cfNames rollbackTo row = false ↔ (st.rollbackOf rollbackTo A).2 = true) := by
      intro row hrow hlt key pre hentry
      have howns := (h.derived row hrow).mpr ⟨A.id.cf, A.derived, key, pre, hentry⟩
      have hname : cfNames.contains A.id.cf.name = true ↔ (st.rollbackOf rollbackTo A).2 = false := by
        rw [← mem_notReplayedCfs_iff hA, contains_iff_mem, ← hcfs]
        constructor
        · intro hmem'
          obtain ⟨cf, hcf, heq⟩ := mem_map.mp hmem'
          obtain ⟨B, hB, rfl⟩ := mem_map.mp hcf
          by_contra hnot
          refine name_ne_of_derived B.derived A.derived (fun hcfeq => hnot ?_) heq
          rw [← hcfeq]
          exact hcf
        · intro hcf
          exact mem_map_of_mem hcf
      have hdrop : droppedBy cfNames rollbackTo row = cfNames.contains A.id.cf.name := by
        simp [droppedBy, restoresIn, hlt, howns, hentry]
      rw [hdrop, ← Bool.not_eq_true, hname, Bool.not_eq_false]
    obtain ⟨m, hm⟩ := (h.each i A hA).decodes
    have hnotReplayed : (st.rollbackOf rollbackTo A).2 = false →
        ∀ key, (rollbackViaUndoLog prepared rollbackTo).1.get A.id.cf key
          = prepared.get A.id.cf key := by
      intro hnot key
      refine hundo.get_rollback (fun _ => _) (hsame ▸ hfloor) (ofName?_name_of_derived A.derived)
        (ne_of_mem_derivedCfs A.derived).2 le_rfl rfl (fun row hrow hlt pre hentry => ?_)
        fun _ _ hne => absurd rfl hne
      obtain ⟨hrow, hkept⟩ := (hmemKept row).mp hrow
      rw [(hdropped row hrow hlt key pre hentry).mp hkept] at hnot
      cases hnot
    have hnotReset : (st.rollbackOf rollbackTo A).1 = false → A.id ∉ resets.map Prod.fst := by
      intro hno
      rw [mem_resets_iff hids hA, hno]
      exact Bool.false_ne_true
    refine .of_state hm (fun hyes => ?_) (fun hno => ?_) (fun hno key => ?_) ?_
    · obtain ⟨hnone, run, hstarted⟩ := hreset.reset hA ((mem_resets_iff hids hA).mpr hyes)
        (h.each i A hA).keys
      exact ⟨fun key => by rw [hnotReplayed (rollbackOf_reset hyes), hnone], run,
        hstate.trans hstarted⟩
    · exact hstate.trans ((hreset.kept hA (hnotReset hno)).2.trans hm)
    · rw [hnotReplayed (by rw [hno]), (hreset.kept hA (hnotReset (by rw [hno]))).1]
    · intro m' completedAt hc hle key
      have hof : st.rollbackOf rollbackTo A = (false, true) := by
        obtain ⟨_, _, hs⟩ := hc.state
        simp [IndexerState.rollbackOf, rollbackOf, hc.read, Option.filter, hc.version, hs,
          rollbackEffect, hle]
      have hlogged := h.complete i A hA m' completedAt hc
      -- no entry about this aggregate was dropped
      have hlogged' : CompleteLog A completedAt st.tip st.history kept := by
        refine ⟨hlogged.le, hlogged.fits, fun row hrow => hlogged.preImage row ((hmemKept row).mp hrow).1,
          fun b hlo hhi k hne => ?_⟩
        obtain ⟨row, hrow, hblock, pre, hentry⟩ := hlogged.covers b hlo hhi k hne
        refine ⟨row, (hmemKept row).mpr ⟨hrow, ?_⟩, hblock, pre, hentry⟩
        by_cases hlt : rollbackTo < row.block
        · exact (hdropped row hrow hlt k pre hentry).mpr (by rw [hof])
        · simp [droppedBy, hlt]
      refine hlogged'.replay hundo (hsame ▸ hfloor) hle (fun k => ?_) key
      rw [(hreset.kept hA (hnotReset (by rw [hof]))).1,
        ((h.each i A hA).complete m' hc.read hc.isComplete).row, value_congr h.source]

omit h in
omit [Codec DeriveMeta] [Codec UndoLogEntry] [Codec EntityStatsUndoContract]
  [Codec CachedBlockHeader] in
/-- A log cut at a block after the completion. -/
theorem CompleteLog.cut (h : CompleteLog A completedAt tip history ledger)
    (hle : completedAt ≤ rollbackTo) :
    CompleteLog A completedAt (min tip rollbackTo) history
      (ledger.filter fun row => row.block ≤ rollbackTo) where
  le := le_min h.le hle
  fits b hlo hhi := h.fits b hlo (hhi.trans (min_le_left _ _))
  preImage row hrow := h.preImage row (mem_filter.mp hrow).1
  covers b hlo hhi key hne := by
    obtain ⟨row, hrow, hblock, hentry⟩ := h.covers b hlo (hhi.trans (min_le_left _ _)) key hne
    refine ⟨row, mem_filter.mpr ⟨hrow, ?_⟩, hblock, hentry⟩
    rw [decide_eq_true_eq, hblock]
    exact hhi.trans (min_le_right _ _)

/-- A rollback, with the canonical stages that follow it. -/
theorem IndexerInv.rollback (hrollback : RollbackStep R st rollbackTo st') :
    IndexerInv R tip₀ st' (ledger.filter fun row => row.block ≤ rollbackTo) := by
  obtain @⟨_, _, prepared, canonical, hcover, hprepare, hdone, hwriter, hcommitted,
    hsource⟩ := hrollback
  have hfloor := coverageFloor_le_of_covered (le_of_rollback_isOk hdone) hcover
  obtain ⟨prepared', hprepare', -, hundo, houtcome⟩ := h.rollbackOutcome hfloor
  rw [hprepare] at hprepare'
  cases hprepare'
  generalize hs₂ : (rollbackViaUndoLog prepared rollbackTo).1 = s₂ at *
  have hrows : ∀ A ∈ R.aggregates, ∀ key,
      (s₂.write canonical).get A.id.cf key = s₂.get A.id.cf key := by
    intro A hA key
    rw [get_write, hwriter.derived A hA]
  have hstate : ∀ A ∈ R.aggregates,
      getDeriveMeta (s₂.write canonical) A.id.name = getDeriveMeta s₂ A.id.name := by
    intro A hA
    refine getDeriveMeta_congr ?_
    rw [get_write, hwriter.states A hA]
  have hvalue : ∀ A : SumAggregate Γ, A.value (s₂.write canonical)
      = A.value (st.history (min st.tip rollbackTo)) :=
    fun A => (value_congr hsource).symm
  refine ⟨hundo.congr (fun key => ?_) (coverageFloor_congr ?_), hcommitted, hsource,
    fun i A hA => ?_, fun i A hA m completedAt hc => ?_, fun row hrow => ?_⟩
  · rw [get_write, hwriter.log]
    rfl
  · rw [get_write, hwriter.contract]
  · have hmem := mem_of_getElem? hA
    cases houtcome i A hA with
    | reset hnone hstarted =>
      have hnone' := fun key => (hrows A hmem key).trans (hnone key)
      exact .of_not_maintained (fun key hkey => absurd (hnone' key) hkey)
        ((hstate A hmem).trans hstarted) (fun _ => hnone') (fun _ _ _ _ hs => by cases hs)
        (fun _ _ _ hs => by cases hs)
    | @replayed m completedAt hc hle hsame hvalues =>
      have hlogged := (h.complete i A hA m completedAt hc).cut hle
      obtain ⟨_, _, hs⟩ := hc.state
      have hrep : Represents (s₂.write canonical) A.id.cf A.arity (A.value (s₂.write canonical)) := by
        rw [hvalue]
        refine ⟨fun key => by rw [hrows A hmem, hvalues], ?_, value_support _⟩
        exact hlogged.fits _ hlogged.le le_rfl
      refine .of_state (fun key hkey => ?_) ((hstate A hmem).trans hsame) (fun hs' => ?_)
        (fun _ => hrep) fun a ha => ?_
      · have hvalued : A.value (s₂.write canonical) key ≠ 0 := by
          intro hzero
          rw [hrep.row, hzero, encodeRow_zero] at hkey
          exact hkey rfl
        exact clearable_of_value hvalued
      · rw [hs] at hs'
        cases hs'
      · obtain ⟨-, -, m', heq, -, _, _, _, _, hrun⟩ := continues_eq_some ha
        cases heq
        rw [hs] at hrun
        cases hrun
    | kept hm hsame hkeep hcase =>
      have hrows' := fun key => (hrows A hmem key).trans (hkeep key)
      have hstate' := (hstate A hmem).trans (hsame.trans hm.symm)
      rcases hcase with hnot | htip
      · exact (h.each i A hA).unmaintained hrows' hstate' (fun _ _ ha => ha) hm hnot
      · refine (h.each i A hA).congr hrows' hstate' (fun _ _ ha => ha) (h.source.symm.trans ?_)
        rw [min_eq_left htip] at hsource
        exact hsource
  · have hmem := mem_of_getElem? hA
    have hm' := (hstate A hmem).symm.trans hc.read
    obtain ⟨_, _, hs⟩ := hc.state
    cases houtcome i A hA with
    | reset _ hstarted =>
      rw [hstarted] at hm'
      cases hm'
      cases hs
    | replayed hc₁ hle hsame _ =>
      rw [hsame] at hm'
      cases hm'
      obtain ⟨_, _, hs₁⟩ := hc₁.state
      rw [hs] at hs₁
      cases hs₁
      exact (h.complete i A hA m _ hc₁).cut hle
    | kept hm₁ hsame _ hcase =>
      rw [hsame] at hm'
      cases hm'
      have hlogged := h.complete i A hA m _ ⟨hm₁, hc.version, hc.state⟩
      rcases hcase with hnot | htip
      · rw [Option.any_some, isMaintained_of_isComplete hc.isComplete] at hnot
        cases hnot
      · exact hlogged.cut (hlogged.le.trans htip)
  · exact h.derived row (mem_filter.mp hrow).1

/-! ## Runs -/

theorem IndexerInv.step (hstep : IndexerStep R st st') :
    ∃ ledger', IndexerInv R tip₀ st' ledger' := by
  cases hstep with
  | batch hbatch => exact h.batch hbatch
  | batchFailed ctx nowMs hlive => exact ⟨ledger, h.effect (applyLiveBatch_failed h.each hlive)⟩
  | scheduler limits => exact ⟨ledger, h.effect (step_effect h.each)⟩
  | restart => exact ⟨ledger, h.restart⟩
  | rollback hrollback => exact ⟨_, h.rollback hrollback⟩

theorem IndexerInv.run (hrun : Relation.ReflTransGen (IndexerStep R) st st') :
    ∃ ledger', IndexerInv R tip₀ st' ledger' := by
  induction hrun with
  | refl => exact ⟨ledger, h⟩
  | tail _ hstep ih =>
    obtain ⟨ledger', h'⟩ := ih
    exact h'.step hstep

end

end Run

end Ckbadger.Sync
