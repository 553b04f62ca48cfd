/-
Ckbadger.Sync.LiveRollbackTheorems — rolling entity statistics back through
the undo log is exact.

A run of live batches is described by the mutations it committed. Its invariant
(`LiveInv`) adds to that of the undo log what the log is about: every statistics row
is the value after all mutations, every row the run recorded holds the value at the
end of the block before its own, and every mutation has such a row.
-/
import Ckbadger.Sync.UndoCoverageTheorems
import Ckbadger.Writer.EntityStatsTheorems

namespace Ckbadger.Sync

open Lib Store Writer OrderedStore UndoRow List

/-! ## A committed batch -/

section Batch

inductive LiveBatchError where
  | overlay (error : OverlayError)
  | retention (error : RetentionError)
  deriving DecidableEq

variable [Codec UndoLogEntry] [Codec EntityStatsUndoContract]

/-- Commits the overlay calls of a batch that builds on `committedTip`. Retention is bounded by
that tip and not by the batch's own last block, which is not durable yet. -/
def commitLiveBatch (s : DomainStore) (committedTip : Int) (calls : List OverlayCall) :
    Except LiveBatchError DomainStore :=
  match stageOverlay s calls with
  | .error e => .error (.overlay e)
  | .ok batch =>
    match stageEntityStatsUndoRetention s batch committedTip with
    | .error e => .error (.retention e)
    | .ok (batch, _) => .ok (s.write batch)

end Batch

/-! ## Runs -/

section Runs

variable [Codec UndoLogEntry] [Codec EntityStatsUndoContract]
variable {s₀ s : DomainStore} {tip tip₀ : Int} {history : List Mutation} {key : Bytes}

/-- Live batches committed from `s₀` at `tip₀`, with the mutations they made: each batch starts
at the block after the tip and may span any number of blocks. -/
inductive LiveRun (s₀ : DomainStore) (tip₀ : Int) : List Mutation → DomainStore → Int → Prop where
  | start : LiveRun s₀ tip₀ [] s₀ tip₀
  | batch {history : List Mutation} {s s' : DomainStore} {tip tip' : Int}
      (calls : List OverlayCall) (hrun : LiveRun s₀ tip₀ history s tip) (htip : tip < tip')
      (hmax : tip' < 2 ^ 63)
      (hblocks : ∀ m ∈ mutationsOf calls, tip < m.block ∧ m.block ≤ tip')
      (hcommit : commitLiveBatch s tip calls = .ok s') :
      LiveRun s₀ tip₀ (history ++ mutationsOf calls) s' tip'

/-! ## The invariant -/

/-- The entry for a mutation of the run: its key's value at the end of the block before. -/
def preImageEntry (s₀ : DomainStore) (history : List Mutation) (m : Mutation) (p : StatsPrefix) :
    UndoLogEntry :=
  .keyMutation .domain p.cf.name m.key (valueAtEnd m.key (statsRow s₀ m.key) history (m.block - 1))

/-- A row of the ledger is the pre-image of a mutation of the run. -/
def IsLogged (s₀ : DomainStore) (history : List Mutation) (m : Mutation) (row : UndoRow) : Prop :=
  m.block = row.block ∧ ∃ p, HasPrefix m.key p ∧ row.entry = preImageEntry s₀ history m p

structure LiveInv (s₀ : DomainStore) (tip₀ : Int) (history : List Mutation) (s : DomainStore)
    (tip : Int) (ledger : List UndoRow) : Prop where
  undo : UndoInv tip₀ ⟨s, tip, ledger⟩
  rows : ∀ key, statsRow s key = valueAfter key (statsRow s₀ key) history
  blocks : ∀ m ∈ history, m.block ≤ tip
  logged : ∀ row ∈ ledger, ∃ m ∈ history, IsLogged s₀ history m row
  covered : ∀ m ∈ history, ∃ row ∈ ledger, IsLogged s₀ history m row

theorem LiveInv.start (h : StartsLive s₀ tip₀) : LiveInv s₀ tip₀ [] s₀ tip₀ [] where
  undo := .init h
  rows key := rfl
  blocks m hm := by cases hm
  logged row hrow := by cases hrow
  covered m hm := by cases hm

/-- What a committed batch wrote: pre-image rows, final values, and the retention of the log. -/
theorem commitLiveBatch_ok {s' : DomainStore} {calls : List OverlayCall}
    (h : commitLiveBatch s tip calls = .ok s') :
    ∃ rows finals ops, Staged s (mutationsOf calls) rows finals ∧ Retention s tip ops ∧
      s' = s.write (rows.map op ++ finals ++ ops) := by
  simp only [commitLiveBatch] at h
  split at h
  · cases h
  rename_i batch hstage
  split at h
  · cases h
  rename_i batch' n hretain
  cases h
  obtain ⟨rows, finals, rfl, hst⟩ := stageOverlay_ok hstage
  obtain ⟨ops, rfl, hret⟩ := stageEntityStatsUndoRetention_ok hretain
  exact ⟨rows, finals, ops, hst, hret, rfl⟩

variable {ms : List Mutation} {rows : List UndoRow} {finals : DomainBatch}

omit [Codec EntityStatsUndoContract] in
/-- What a batch stages records its pre-image rows. -/
theorem records_of_staged (hst : Staged s ms rows finals) : Records (rows.map op ++ finals) rows where
  log key v := hst.rowAfter_undoLog key v
  contract v := by
    rw [rowAfter_append, rowAfter_rows_of_ne _ fun hc => absurd hc (by decide), hst.final_of_other]
    rintro m - - hcf
    obtain ⟨p, -, hp⟩ := hasPrefix_of_cfForStatsKey hcf
    exact p.cf_ne_syncMeta hp

omit [Codec UndoLogEntry] [Codec EntityStatsUndoContract] in
/-- The pre-image of an earlier mutation does not change as the run goes on. -/
theorem IsLogged.append {m : Mutation} {row : UndoRow} (h : IsLogged s₀ history m row)
    (hlater : ∀ m' ∈ ms, m.block < m'.block) : IsLogged s₀ (history ++ ms) m row := by
  obtain ⟨hb, p, hp, hentry⟩ := h
  refine ⟨hb, p, hp, ?_⟩
  rw [hentry, preImageEntry, preImageEntry, valueAtEnd_append]
  intro m' hm' _
  have := hlater m' hm'
  omega

omit [Codec UndoLogEntry] [Codec EntityStatsUndoContract] in
/-- The pre-image a batch takes of a mutation is that of the run. -/
theorem preImageEntry_append {m : Mutation}
    (hrows : ∀ key, statsRow s key = valueAfter key (statsRow s₀ key) history)
    (holder : ∀ m' ∈ history, m'.block < m.block) (p : StatsPrefix) :
    preImageEntry s₀ (history ++ ms) m p = preImageEntry s ms m p := by
  rw [preImageEntry, preImageEntry, hrows, valueAtEnd_append_of_le]
  intro m' hm' _
  have := holder m' hm'
  omega

theorem LiveInv.batch {s' : DomainStore} {tip' : Int} {calls : List OverlayCall}
    {ledger : List UndoRow} (h : LiveInv s₀ tip₀ history s tip ledger) (htip : tip < tip')
    (hmax : tip' < 2 ^ 63) (hblocks : ∀ m ∈ mutationsOf calls, tip < m.block ∧ m.block ≤ tip')
    (hcommit : commitLiveBatch s tip calls = .ok s') :
    ∃ ledger', LiveInv s₀ tip₀ (history ++ mutationsOf calls) s' tip' ledger' := by
  obtain ⟨rows, finals, ops, hst, hret, rfl⟩ := commitLiveBatch_ok hcommit
  generalize mutationsOf calls = ms at *
  have hlater : ∀ m ∈ history, ∀ m' ∈ ms, m.block < m'.block := fun m hm m' hm' =>
    (h.blocks m hm).trans_lt (hblocks m' hm').1
  have hlogged : ∀ row ∈ rows, ∃ m ∈ ms, IsLogged s₀ (history ++ ms) m row := by
    intro row hrow
    obtain ⟨i, key, p, hi, hp, -, hentry⟩ := (hst.rows_iff row).mp hrow
    obtain ⟨m, hm, hb, rfl⟩ := mem_touchedKeys.mp (mem_of_getElem? hi)
    refine ⟨m, hm, hb, p, hp, ?_⟩
    rw [preImageEntry_append h.rows fun m' hm' => hlater m' hm' m hm, hentry, preImageEntry, hb]
  obtain ⟨undoSeq, hdrawn⟩ := hst.drawn
  obtain ⟨hundo, -⟩ := h.undo.batch htip hmax (records_of_staged hst) hdrawn
    (fun row hrow => by
      obtain ⟨m, hm, hb, -⟩ := hlogged row hrow
      exact hb ▸ hblocks m hm)
    (fun row hrow => by
      obtain ⟨m, -, -, p, -, hentry⟩ := hlogged row hrow
      rw [hentry]
      exact ⟨p.cf, p.ofName?_cf_name, p.cf_ne_undoLog, p.cf_ne_syncMeta⟩) hret
  refine ⟨ledger ++ rows, hundo, fun key => ?_, fun m hm => ?_, fun row hrow => ?_, fun m hm => ?_⟩
  · rw [hst.statsRow_write ops (fun op hop p k => ?_), h.rows, valueAfter_append]
    exact hret.frame op hop p.cf k p.cf_ne_undoLog fun h => p.cf_ne_syncMeta h.1
  · exact (mem_append.mp hm).elim (fun hm => (h.blocks m hm).trans htip.le)
      fun hm => (hblocks m hm).2
  · rcases mem_append.mp hrow with hrow | hrow
    · obtain ⟨m, hm, hlog⟩ := h.logged row hrow
      exact ⟨m, mem_append_left _ hm, hlog.append (hlater m hm)⟩
    · obtain ⟨m, hm, hlog⟩ := hlogged row hrow
      exact ⟨m, mem_append_right _ hm, hlog⟩
  · rcases mem_append.mp hm with hm | hm
    · obtain ⟨row, hrow, hlog⟩ := h.covered m hm
      exact ⟨row, mem_append_left _ hrow, hlog.append (hlater m hm)⟩
    · obtain ⟨p, hp⟩ := hst.prefixed m hm
      obtain ⟨i, hi⟩ := getElem?_of_mem (mem_touchedKeys.mpr ⟨m, hm, rfl, rfl⟩)
      refine ⟨_, mem_append_right _ ((hst.rows_iff (preImageRow m.block
        (UndoSeqScope.entityStats.seqBase ||| i) m.key p (valueAtEnd m.key (statsRow s m.key) ms
          (m.block - 1)))).mpr ⟨i, m.key, p, hi, hp, rfl, rfl⟩), rfl, p, hp, ?_⟩
      exact (preImageEntry_append h.rows (fun m' hm' => hlater m' hm' m hm) p).symm

theorem LiveRun.inv (hstart : StartsLive s₀ tip₀) (h : LiveRun s₀ tip₀ history s tip) :
    ∃ ledger, LiveInv s₀ tip₀ history s tip ledger := by
  induction h with
  | start => exact ⟨[], .start hstart⟩
  | batch calls _ htip hmax hblocks hcommit ih =>
    obtain ⟨ledger, hinv⟩ := ih
    exact hinv.batch htip hmax hblocks hcommit

/-! ## Rolling the run back -/

/-- **Entity-stats rollback is exact.** After any run of live batches, a rollback to any block at
or above the coverage floor completes, leaves every statistics key with the bytes it held at
the end of that block (absent if it was absent then), and leaves no undo entry above it. -/
theorem entityStats_rollback_exact {rollbackTo : Int} (hstart : StartsLive s₀ tip₀)
    (hrun : LiveRun s₀ tip₀ history s tip) (hfloor : coverageFloor s ≤ rollbackTo) :
    (rollbackViaUndoLog s rollbackTo).2.isOk ∧
      (∀ key, statsRow (rollbackViaUndoLog s rollbackTo).1 key
        = valueAtEnd key (statsRow s₀ key) history rollbackTo) ∧
      ∀ key v, (rollbackViaUndoLog s rollbackTo).1.get .reorgUndoLogByBlock key = some v →
        (decodeReorgUndoLogKey key).1 ≤ rollbackTo := by
  obtain ⟨ledger, hinv⟩ := hrun.inv hstart
  have hR : tip₀ ≤ rollbackTo := hinv.undo.floor.trans hfloor
  obtain ⟨hok, hundo, -⟩ := hinv.undo.rollback hR
  refine ⟨hok, fun key => ?_, fun key v hget => ?_⟩
  · cases hcf : cfForStatsKey key with
    | error e =>
      -- no mutation names a key that the statistics tables do not route
      have hnone : ∀ t : DomainStore, statsRow t key = none := fun t => by
        rw [statsRow, hcf]
      rw [hnone, hnone, valueAtEnd, valueAfter_of_not_mem]
      rintro m hm rfl
      obtain ⟨-, -, -, p, hp, -⟩ := hinv.covered m (mem_of_mem_filter hm)
      rw [hp.cfForStatsKey] at hcf
      cases hcf
    | ok cf =>
      obtain ⟨p, hp, rfl⟩ := hasPrefix_of_cfForStatsKey hcf
      rw [hp.statsRow]
      refine hinv.undo.get_rollback _ hfloor p.ofName?_cf_name p.cf_ne_undoLog
        (le_max_left rollbackTo tip) ?_ (fun row hrow _ pre hentry => ?_) fun t _ hne => ?_
      · rw [← hp.statsRow, hinv.rows, valueAtEnd_of_le]
        exact fun m hm _ => (hinv.blocks m hm).trans (le_max_right _ _)
      · obtain ⟨m, -, hb, q, -, hlogged⟩ := hinv.logged row hrow
        rw [hlogged] at hentry
        injection hentry with _ _ hkey hpre
        rw [← hpre, hkey, hb]
      · obtain ⟨m, hm, rfl, rfl⟩ := exists_mutation_of_valueAtEnd_ne hne
        obtain ⟨row, hrow, hb, q, hq, hlogged⟩ := hinv.covered m hm
        exact ⟨row, hrow, hb.symm, _, by rw [hlogged, hp.unique hq]; rfl⟩
  · rcases hundo.log key v hget with ⟨block, seq, rfl, hb, hseq, hle⟩ | ⟨row, hrow, rfl, -⟩
    · rw [decode_encodeReorgUndoLogKey hb.fitsSigned hseq]
      exact hle.trans hR
    · rw [hundo.decode_key hrow]
      exact (hundo.rows row hrow).2.2.1.trans (min_le_right _ _)

end Runs

/-- A batch of two blocks on a fresh store: a token is counted in both, and a script's daily pair
appears in the first and returns to zero in the second. -/
def twoBlockCalls : List OverlayCall :=
  [.prefetch [[0x0A, 9]], .mutateHourly 0 [0x0A, 9] 1 "token",
    .update 0 [0x0F, 1] fun prev => applyDailyPair prev 5 0 "script",
    .mutateHourly 1 [0x0A, 9] 1 "token",
    .update 1 [0x0F, 1] fun prev => applyDailyPair prev (-5) 0 "script"]

/-- Rolled back to the first block, the pair is there again and the token is counted once. -/
theorem twoBlockCalls_rollback_exact :
    ∃ s, commitLiveBatch empty (-1) twoBlockCalls = .ok s ∧
      statsRow s [0x0F, 1] = none ∧ statsRow s [0x0A, 9] = some (intToLe 8 2) ∧
      statsRow (rollbackViaUndoLog s 0).1 [0x0F, 1] = some (intToLe 16 5 ++ intToLe 16 0) ∧
      statsRow (rollbackViaUndoLog s 0).1 [0x0A, 9] = some (intToLe 8 1) := by
  obtain ⟨s, hs⟩ := exists_of_isOk
    (by decide +kernel : (commitLiveBatch empty (-1) twoBlockCalls).isOk = true)
  have hstate : (commitLiveBatch empty (-1) twoBlockCalls).map
      (fun s => (statsRow s [0x0F, 1], statsRow s [0x0A, 9], coverageFloor s))
      = .ok (none, some (intToLe 8 2), -1) := by decide +kernel
  rw [hs] at hstate
  obtain ⟨hpair, htoken, hfloor⟩ : statsRow s [0x0F, 1] = none ∧
      statsRow s [0x0A, 9] = some (intToLe 8 2) ∧ coverageFloor s = -1 := by
    simpa [Except.map] using hstate
  have hrun := LiveRun.batch twoBlockCalls .start (by decide : (-1 : Int) < 1)
    (by decide) (by decide +kernel) hs
  obtain ⟨-, hrows, -⟩ := entityStats_rollback_exact startsLive_empty hrun
    (by rw [hfloor]; decide : coverageFloor s ≤ 0)
  refine ⟨s, hs, hpair, htoken, ?_, ?_⟩
  · rw [hrows]
    decide +kernel
  · rw [hrows]
    decide +kernel

end Ckbadger.Sync
