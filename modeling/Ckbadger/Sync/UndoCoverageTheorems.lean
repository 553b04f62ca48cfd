/-
Ckbadger.Sync.UndoCoverageTheorems — the coverage floor says exactly how far back
the undo log reaches.

The invariant of a run (`UndoInv`) relates the log to the ledger: every row of the
log above the starting tip is a ledger row, and every ledger row above the floor,
or of a scope that is never pruned, is in the log. Each kind of step keeps it.
-/
import Ckbadger.Sync.UndoRun
import Ckbadger.Sync.UndoOrder
import Ckbadger.Derive.CollectionActivity

namespace Ckbadger.Sync

open Lib Store OrderedStore UndoRow WriteOp UndoSeqScope List

section Entries

variable {e : UndoLogEntry}

theorem DataEntry.replayable (h : DataEntry e) : Replayable e ∧ SparesUndoLog e := by
  cases e with
  | txContext ctx => exact ⟨trivial, trivial⟩
  | keyMutation target cfName key pre =>
    cases target with
    | appendOnly => exact ⟨trivial, trivial⟩
    | domain =>
      obtain ⟨cf, hcf, hlog, -⟩ := h
      simp [Replayable, SparesUndoLog, hcf, hlog]

/-- Replaying a data entry leaves `sync_meta` alone. -/
theorem DataEntry.rowAfter_undoOps {undoKey : Bytes} (h : DataEntry e) (key : Bytes)
    (v : Option Bytes) : rowAfter .syncMeta key v (undoOps (undoKey, e)) = v := by
  refine rowAfter_of_effect_none fun op hop => ?_
  rcases mem_append.mp hop with hop | hop
  · cases e with
    | txContext ctx => cases hop
    | keyMutation target cfName k pre =>
      cases target with
      | appendOnly => cases hop
      | domain =>
        obtain ⟨cf, hcf, -, hmeta⟩ := h
        simp only [restoreOps, hcf, mem_singleton] at hop
        subst hop
        simp [hmeta]
  · rw [mem_singleton] at hop
    subst hop
    simp [effect]

theorem get_syncMeta_write_undoOps {rows : List (Bytes × UndoLogEntry)}
    (h : ∀ row ∈ rows, DataEntry row.2) (s : DomainStore) (key : Bytes) :
    (s.write (rows.flatMap undoOps)).get .syncMeta key = s.get .syncMeta key := by
  rw [get_write]
  generalize s.get .syncMeta key = v
  induction rows generalizing v with
  | nil => rfl
  | cons row rest ih =>
    rw [flatMap_cons, rowAfter_append, (h row mem_cons_self).rowAfter_undoOps]
    exact ih (forall_mem_cons.mp h).2 v

/-- A flush of rows that spare the log deletes exactly their keys of it. -/
theorem replayedKeys_undoOps {flushes : List DomainBatch} {rows : List (Bytes × UndoLogEntry)}
    (hflat : flushes.flatten = rows.flatMap undoOps) (h : ∀ row ∈ rows, DataEntry row.2) :
    replayedKeys flushes = rows.map Prod.fst := by
  rw [replayedKeys, hflat]
  clear hflat
  induction rows with
  | nil => rfl
  | cons row rest ih =>
    have hrest := ih (forall_mem_cons.mp h).2
    rw [flatMap_cons, filterMap_append, hrest]
    obtain ⟨undoKey, entry⟩ := row
    have hentry := h _ mem_cons_self
    cases entry with
    | txContext ctx => rfl
    | keyMutation target cfName k pre =>
      cases target with
      | appendOnly => rfl
      | domain =>
        obtain ⟨cf, hcf, hlog, -⟩ := hentry
        cases pre <;> simp [undoOps, restoreOps, hcf, WriteOp.set, hlog]

end Entries

/-! ## The invariant -/

section Run

variable [Codec UndoLogEntry] [Codec EntityStatsUndoContract]
variable {ops : DomainBatch} {σ : UndoState}

omit [Codec UndoLogEntry] in
theorem SparesLog.coverageFloor_write (h : SparesLog ops) (s : DomainStore) :
    coverageFloor (s.write ops) = coverageFloor s := by
  refine coverageFloor_congr ?_
  rw [get_write, rowAfter_of_effect_none fun op hop => (h op hop).2]

omit [Codec UndoLogEntry] [Codec EntityStatsUndoContract] in
theorem SparesLog.rowAfter_undoLog (h : SparesLog ops) (key : Bytes)
    (v : Option Bytes) : rowAfter .reorgUndoLogByBlock key v ops = v :=
  rowAfter_of_effect_none fun op hop => (h op hop).1 key

omit [Codec EntityStatsUndoContract] in
/-- Operations that record `rows` in the log and leave the contract alone. -/
structure Records (ops : DomainBatch) (rows : List UndoRow) : Prop where
  log : ∀ key v, rowAfter .reorgUndoLogByBlock key v ops
    = rowAfter .reorgUndoLogByBlock key v (rows.map op)
  contract : ∀ v, rowAfter .syncMeta entityStatsUndoContractKey v ops = v

omit [Codec EntityStatsUndoContract] in
theorem SparesLog.records (h : SparesLog ops) (rows : List UndoRow) :
    Records (ops ++ rows.map op) rows where
  log key v := by rw [rowAfter_append, h.rowAfter_undoLog]
  contract v := by
    rw [rowAfter_append, rowAfter_of_effect_none fun op hop => (h op hop).2,
      rowAfter_rows_of_ne _ fun hc => absurd hc (by decide)]

structure UndoInv (tip₀ : Int) (σ : UndoState) : Prop where
  start : -1 ≤ tip₀
  tip : tip₀ ≤ σ.tip
  floor : tip₀ ≤ coverageFloor σ.store
  rows : ∀ row ∈ σ.ledger, IsBlock row.block ∧ tip₀ < row.block ∧ row.block ≤ σ.tip ∧
    row.seq < 2 ^ 64 ∧ DataEntry row.entry
  /-- Every row of the log predates the run or is in the ledger. -/
  log : ∀ key v, σ.store.get .reorgUndoLogByBlock key = some v →
    (∃ block seq, key = encodeReorgUndoLogKey block seq ∧ IsBlock block ∧ seq < 2 ^ 64 ∧
      block ≤ tip₀) ∨ ∃ row ∈ σ.ledger, row.key = key ∧ v = Codec.serialize row.entry
  /-- Every ledger row above the floor or of a scope that is not pruned is in the log. -/
  stored : ∀ row ∈ σ.ledger, coverageFloor σ.store < row.block ∨ prunedScope row.seq = false →
    Stored σ.store row

theorem UndoInv.init {s₀ : DomainStore} {tip₀ : Int} (h : StartsLive s₀ tip₀) :
    UndoInv tip₀ ⟨s₀, tip₀, []⟩ where
  start := h.tip_ge
  tip := le_rfl
  floor := h.floor
  rows row hrow := by cases hrow
  log key v hget := .inl (h.log key v hget)
  stored row hrow := by cases hrow

variable {tip₀ rollbackTo : Int} {s : DomainStore} {tip : Int} {ledger : List UndoRow}

theorem UndoInv.decode_key (h : UndoInv tip₀ σ) {row : UndoRow}
    (hrow : row ∈ σ.ledger) : decodeReorgUndoLogKey row.key = (row.block, row.seq) := by
  obtain ⟨hb, -, -, hseq, -⟩ := h.rows row hrow
  exact decode_encodeReorgUndoLogKey hb.fitsSigned hseq

section Inv

variable (h : UndoInv tip₀ ⟨s, tip, ledger⟩)

include h

theorem UndoInv.congr {s' : DomainStore}
    (hlog : ∀ key, s'.get .reorgUndoLogByBlock key = s.get .reorgUndoLogByBlock key)
    (hfloor : coverageFloor s' = coverageFloor s) : UndoInv tip₀ ⟨s', tip, ledger⟩ := by
  refine ⟨h.start, h.tip, hfloor ▸ h.floor, h.rows, fun key v hget => ?_, fun row hrow hcase => ?_⟩
  · rw [hlog] at hget
    exact h.log key v hget
  · rw [hfloor] at hcase
    rw [Stored, hlog]
    exact h.stored row hrow hcase

/-- A step that neither records nor removes rows and keeps the floor. -/
theorem UndoInv.other (hops : SparesLog ops) : UndoInv tip₀ ⟨s.write ops, tip, ledger⟩ := by
  refine h.congr (fun key => ?_) (hops.coverageFloor_write s)
  rw [get_write, hops.rowAfter_undoLog]

theorem UndoInv.batch {tip' : Int} {rops : DomainBatch} {rows : List UndoRow}
    {undoSeq : UndoSeqMap} (htip : tip < tip') (hmax : tip' < 2 ^ 63) (hops : Records ops rows)
    (hdrawn : Drawn undoSeq rows) (hblocks : ∀ row ∈ rows, tip < row.block ∧ row.block ≤ tip')
    (hentries : ∀ row ∈ rows, DataEntry row.entry) (hret : Retention s tip rops) :
    UndoInv tip₀ ⟨s.write (ops ++ rops), tip', ledger ++ rows⟩ ∧
      coverageFloor (s.write (ops ++ rops)) = floorAfter s tip := by
  have htip₀ : tip₀ ≤ tip := h.tip
  have hstart := h.start
  have hisBlock : ∀ row ∈ rows, IsBlock row.block := by
    intro row hrow
    obtain ⟨hlo, hhi⟩ := hblocks row hrow
    exact ⟨by omega, by omega⟩
  have hdistinct := hdrawn.keys_pairwise fun row hrow => (hisBlock row hrow).fitsSigned
  have hfloor : coverageFloor (s.write (ops ++ rops)) = floorAfter s tip := by
    refine hret.floor _ ?_
    rw [get_write, rowAfter_append, hops.contract]
  have hget : ∀ key, (s.write (ops ++ rops)).get .reorgUndoLogByBlock key
      = rowAfter .reorgUndoLogByBlock key (rowAfter .reorgUndoLogByBlock key
          (s.get .reorgUndoLogByBlock key) (rows.map op)) rops := by
    intro key
    rw [get_write, rowAfter_append, hops.log]
  have hmono : coverageFloor s ≤ floorAfter s tip := le_max_right _ _
  refine ⟨⟨h.start, by simp only; omega, by rw [hfloor]; exact h.floor.trans hmono,
    fun row hrow => ?_, fun key v hrow => ?_, fun row hrow hcase => ?_⟩, hfloor⟩
  · rcases mem_append.mp hrow with hrow | hrow
    · obtain ⟨hb, hlo, hle, hrest⟩ := h.rows row hrow
      simp only at hle
      exact ⟨hb, hlo, by simp only; omega, hrest⟩
    · obtain ⟨hlo, hhi⟩ := hblocks row hrow
      exact ⟨hisBlock row hrow, by omega, hhi, (hdrawn.below row hrow).1, hentries row hrow⟩
  · -- a row of the log was there before or was recorded by the batch
    rw [hget] at hrow
    rcases hret.log key (rowAfter .reorgUndoLogByBlock key (s.get .reorgUndoLogByBlock key)
      (rows.map op)) with hsame | ⟨hnone, -⟩
    · rw [hsame] at hrow
      rcases rowAfter_rows_cases hrow with hold | ⟨row, hmem, hkey, hv⟩
      · rcases h.log key v hold with hpre | ⟨row, hmem, hrest⟩
        · exact .inl hpre
        · exact .inr ⟨row, mem_append_left _ hmem, hrest⟩
      · exact .inr ⟨row, mem_append_right _ hmem, hkey, hv⟩
    · rw [hnone] at hrow
      cases hrow
  · rw [hfloor] at hcase
    rw [Stored, hget]
    have hkeep : rowAfter .reorgUndoLogByBlock row.key (rowAfter .reorgUndoLogByBlock row.key
        (s.get .reorgUndoLogByBlock row.key) (rows.map op)) rops
        = rowAfter .reorgUndoLogByBlock row.key (s.get .reorgUndoLogByBlock row.key)
            (rows.map op) := by
      have hdec : decodeReorgUndoLogKey row.key = (row.block, row.seq) := by
        rcases mem_append.mp hrow with hrow | hrow
        · exact h.decode_key hrow
        · exact decode_encodeReorgUndoLogKey (hisBlock row hrow).fitsSigned
            (hdrawn.below row hrow).1
      rcases hret.log row.key (rowAfter .reorgUndoLogByBlock row.key
        (s.get .reorgUndoLogByBlock row.key) (rows.map op)) with hsame | ⟨-, hle, hscope, -⟩
      · exact hsame
      · -- retention deletes neither above the floor nor outside its scopes
        rw [hdec] at hle hscope
        rcases hcase with hgt | hscope'
        · exact absurd hgt (not_lt.mpr hle)
        · rw [prunedScope, Bool.or_eq_false_iff] at hscope'
          simp [hscope'.1, hscope'.2] at hscope
    rw [hkeep]
    rcases mem_append.mp hrow with hrow | hrow
    · rw [rowAfter_rows_of_ne]
      · exact h.stored row hrow (hcase.imp_left fun hgt => lt_of_le_of_lt hmono hgt)
      · rintro - row' hrow' hkey
        obtain ⟨hb, -, hle, -⟩ := h.rows row hrow
        obtain ⟨hlo, -⟩ := hblocks row' hrow'
        have := encodeReorgUndoLogKey_block (hisBlock row' hrow').fitsSigned hb.fitsSigned hkey
        simp only at hle
        omega
    · exact rowAfter_rows_of_mem hdistinct hrow _

/-- Removing some keys from the log and their rows from the ledger. -/
theorem UndoInv.remove {s' : DomainStore} {tip' : Int} {gone : UndoRow → Bool} {keys : List Bytes}
    (hfloor : coverageFloor s' = coverageFloor s) (htip : tip₀ ≤ tip')
    (hrows : ∀ row ∈ ledger, gone row = false → row.block ≤ tip')
    (hget : ∀ key, s'.get .reorgUndoLogByBlock key
      = if key ∈ keys then none else s.get .reorgUndoLogByBlock key)
    (hgone : ∀ row ∈ ledger, Stored s row → (gone row ↔ row.key ∈ keys)) :
    UndoInv tip₀ ⟨s', tip', ledger.filter fun row => !gone row⟩ := by
  refine ⟨h.start, htip, hfloor ▸ h.floor, fun row hrow => ?_, fun key v hrow => ?_,
    fun row hrow hcase => ?_⟩
  · obtain ⟨hrow, hstays⟩ := mem_filter.mp hrow
    obtain ⟨hb, hlo, -, hrest⟩ := h.rows row hrow
    exact ⟨hb, hlo, hrows row hrow (by simpa using hstays), hrest⟩
  · rw [hget] at hrow
    split at hrow
    · cases hrow
    rename_i hnot
    rcases h.log key v hrow with hpre | ⟨row, hmem, rfl, rfl⟩
    · exact .inl hpre
    · refine .inr ⟨row, mem_filter.mpr ⟨hmem, ?_⟩, rfl, rfl⟩
      rw [← hgone row hmem hrow] at hnot
      simpa using hnot
  · obtain ⟨hrow, hstays⟩ := mem_filter.mp hrow
    rw [hfloor] at hcase
    have hstored := h.stored row hrow hcase
    rw [Stored, hget, if_neg]
    · exact hstored
    · rw [← hgone row hrow hstored]
      simpa using hstays

theorem UndoInv.reset {batch : DomainBatch} {cfNames : List String} {dropped : Nat}
    (hR : -1 ≤ rollbackTo) (hops : SparesLog ops)
    (hdrop : stageDeleteDerivedUndoAbove s ops cfNames rollbackTo = .ok (batch, dropped)) :
    UndoInv tip₀ ⟨s.write batch, tip,
      ledger.filter fun row => !droppedBy cfNames rollbackTo row⟩ ∧
      coverageFloor (s.write batch) = coverageFloor s := by
  obtain ⟨keys, rfl, -, hkeys⟩ := stageDeleteDerivedUndoAbove_ok hdrop
  have hget : ∀ key, (s.write (ops ++ keys.map (delete .reorgUndoLogByBlock))).get
      .reorgUndoLogByBlock key = if key ∈ keys then none else s.get .reorgUndoLogByBlock key := by
    intro key
    rw [get_write, rowAfter_append, hops.rowAfter_undoLog, rowAfter_deletes]
  have hfloor : coverageFloor (s.write (ops ++ keys.map (delete .reorgUndoLogByBlock)))
      = coverageFloor s := by
    refine coverageFloor_congr ?_
    rw [get_write, rowAfter_append, rowAfter_of_effect_none (fun op hop => (hops op hop).2)]
    refine rowAfter_of_effect_none fun op hop => ?_
    obtain ⟨key, -, rfl⟩ := mem_map.mp hop
    simp [effect]
  -- a stored ledger row is selected exactly when the reset drops it
  have hdropped : ∀ row ∈ ledger, Stored s row →
      (droppedBy cfNames rollbackTo row ↔ row.key ∈ keys) := by
    intro row hrow hstored
    obtain ⟨hb, -, -, hseq, -⟩ := h.rows row hrow
    rw [hkeys, h.decode_key hrow]
    simp only [droppedBy, Bool.and_eq_true, decide_eq_true_eq]
    constructor
    · rintro ⟨⟨hlt, howns⟩, hcf⟩
      exact ⟨_, hstored, encodeBlockNum_le_key hR hb hlt, hlt, howns, row.entry,
        Codec.deserialize_serialize _, hcf⟩
    · rintro ⟨v, hget', -, hlt, howns, e, hdec, hcf⟩
      rw [Stored, hget'] at hstored
      cases hstored
      rw [Codec.deserialize_serialize] at hdec
      cases hdec
      exact ⟨⟨hlt, howns⟩, hcf⟩
  exact ⟨h.remove hfloor h.tip (fun row hrow _ => (h.rows row hrow).2.2.1) hget hdropped, hfloor⟩

end Inv

/-- The entries a rollback within the coverage replays are the stored ledger rows above its
target. -/
theorem UndoInv.pending (h : UndoInv tip₀ σ) (hR : tip₀ ≤ rollbackTo) :
    ∃ pending, pendingUndo σ.store rollbackTo = .ok pending ∧
      (pending.filterMap undoRecord?).Pairwise (fun a b => a.time ≤ b.time) ∧
      (∀ row ∈ pending, DataEntry row.2) ∧ ∀ key e, (key, e) ∈ pending ↔
        ∃ row ∈ σ.ledger, row.key = key ∧ row.entry = e ∧ rollbackTo < row.block ∧
          Stored σ.store row := by
  obtain ⟨pending, hpend, hsorted, hmem⟩ := pendingUndo_of_ledger (h.start.trans hR)
    (fun row hrow => ⟨(h.rows row hrow).1, (h.rows row hrow).2.2.2.1⟩) fun key v hget =>
      (h.log key v hget).imp_left fun ⟨block, seq, hkey, hb, hseq, hle⟩ =>
        ⟨block, seq, hkey, hb, hseq, hle.trans hR⟩
  refine ⟨pending, hpend, hsorted, ?_, hmem⟩
  rintro ⟨key, e⟩ hp
  obtain ⟨row, hrow, -, rfl, -⟩ := (hmem key e).mp hp
  exact (h.rows row hrow).2.2.2.2

omit [Codec UndoLogEntry] in
/-- A rollback the coverage check lets through stays at or above the floor. -/
theorem coverageFloor_le_of_covered {requirement : ContractRequirement} {context : String}
    (hR : -1 ≤ rollbackTo)
    (h : ensureRollbackWithinEntityStatsCoverage s rollbackTo requirement context = .ok ()) :
    coverageFloor s ≤ rollbackTo := by
  simp only [ensureRollbackWithinEntityStatsCoverage] at h
  rw [coverageFloor]
  split at h
  · cases h
  · rename_i hnone
    rw [hnone]
    exact hR
  · cases h
  · rename_i contract hsome
    rw [hsome]
    split at h
    · cases h
    · rename_i hnot
      exact not_lt.mp hnot

/-- A rollback that replays a part of its pending rows, newest first, and then stops. -/
theorem UndoInv.replay {done : List (Bytes × UndoLogEntry)} (gone : UndoRow → Bool) (tip' : Int)
    (h : UndoInv tip₀ ⟨s, tip, ledger⟩) (hentries : ∀ row ∈ done, DataEntry row.2)
    (htip : tip₀ ≤ tip') (hrows : ∀ row ∈ ledger, gone row = false → row.block ≤ tip')
    (hgone : ∀ row ∈ ledger, Stored s row → (gone row ↔ row.key ∈ done.map Prod.fst)) :
    UndoInv tip₀ ⟨s.write (done.flatMap undoOps), tip', ledger.filter fun row => !gone row⟩ ∧
      coverageFloor (s.write (done.flatMap undoOps)) = coverageFloor s := by
  have hget := fun key => get_write_flatMap_undoOps
    (fun row hrow => (hentries row hrow).replayable.2) s key
  have hfloor := coverageFloor_congr (get_syncMeta_write_undoOps hentries s _)
  exact ⟨h.remove hfloor htip hrows hget hgone, hfloor⟩

omit [Codec EntityStatsUndoContract] in
theorem le_of_rollback_isOk (h : (rollbackViaUndoLog s rollbackTo).2.isOk) : -1 ≤ rollbackTo := by
  by_contra hlt
  simp [rollbackViaUndoLog, rollbackRun, not_le.mp hlt, Except.toBool] at h

/-- A rollback to a block of the run completes; the rows above its target are replayed. -/
theorem UndoInv.rollback (h : UndoInv tip₀ ⟨s, tip, ledger⟩) (hR₀ : tip₀ ≤ rollbackTo) :
    (rollbackViaUndoLog s rollbackTo).2.isOk ∧
      UndoInv tip₀ ⟨(rollbackViaUndoLog s rollbackTo).1, min tip rollbackTo,
        ledger.filter fun row => row.block ≤ rollbackTo⟩ ∧
      ∀ key, (rollbackViaUndoLog s rollbackTo).1.get .syncMeta key = s.get .syncMeta key := by
  have hR : -1 ≤ rollbackTo := h.start.trans hR₀
  obtain ⟨pending, hpend, -, hentries, hmem⟩ := h.pending hR₀
  obtain ⟨hok, hs'⟩ := rollbackViaUndoLog_of_pending hR hpend
    fun row hrow => (hentries row hrow).replayable.1
  obtain ⟨hinv, -⟩ := UndoInv.replay (fun row => rollbackTo < row.block)
    (min tip rollbackTo) h (fun row hrow => hentries row (mem_reverse.mp hrow))
    (le_min h.tip hR₀)
    (fun row hrow hstays => le_min (h.rows row hrow).2.2.1 (by simpa using hstays))
    (fun row hrow hstored => by
      rw [map_reverse, mem_reverse, decide_eq_true_eq]
      constructor
      · intro hlt
        exact mem_map.mpr ⟨(row.key, row.entry),
          (hmem _ _).mpr ⟨row, hrow, rfl, rfl, hlt, hstored⟩, rfl⟩
      · intro hkey
        obtain ⟨⟨key, e⟩, hp, hkey⟩ := mem_map.mp hkey
        obtain ⟨row', hrow', hkey', -, hlt, -⟩ := (hmem key e).mp hp
        have hdec := congrArg decodeReorgUndoLogKey (hkey'.trans hkey)
        rw [h.decode_key hrow, h.decode_key hrow'] at hdec
        exact (Prod.mk.inj hdec).1 ▸ hlt)
  rw [hs']
  refine ⟨hok, ?_, get_syncMeta_write_undoOps
    (fun row hrow => hentries row (mem_reverse.mp hrow)) s⟩
  simpa only [← decide_not, not_lt] using hinv

/-- After a rollback within the coverage, a row whose pre-images since the target are in the ledger
holds its value at the target. -/
theorem UndoInv.get_rollback {cf : Cf} {key : Bytes} {last : Int}
    (h : UndoInv tip₀ ⟨s, tip, ledger⟩) (version : Int → Option Bytes) (hfloor : coverageFloor s ≤ rollbackTo)
    (hname : Cf.ofName? cf.name = some cf) (hlog : cf ≠ .reorgUndoLogByBlock)
    (hlast : rollbackTo ≤ last) (hnow : s.get cf key = version last)
    (hpre : ∀ row ∈ ledger, rollbackTo < row.block → ∀ pre,
      row.entry = .keyMutation .domain cf.name key pre → pre = version (row.block - 1))
    (hcover : ∀ t, rollbackTo < t → version t ≠ version (t - 1) →
      ∃ row ∈ ledger, row.block = t ∧ ∃ pre, row.entry = .keyMutation .domain cf.name key pre) :
    (rollbackViaUndoLog s rollbackTo).1.get cf key = version rollbackTo := by
  have hR₀ : tip₀ ≤ rollbackTo := h.floor.trans hfloor
  obtain ⟨pending, hpend, hsorted, hentries, hmem⟩ := h.pending hR₀
  obtain ⟨-, -, hrows⟩ := rollbackViaUndoLog_completed (h.start.trans hR₀) hpend
    (fun row hrow => (hentries row hrow).replayable.1)
    (fun row hrow => (hentries row hrow).replayable.2)
  rw [hrows cf key hlog]
  refine Journal.undo_eq_version hlast hnow hsorted (fun r hr hk => ?_) fun t ht hne => ?_
  · obtain ⟨⟨k, e⟩, hp, hr⟩ := mem_filterMap.mp hr
    obtain ⟨row, hrow, rfl, rfl, hlt, -⟩ := (hmem k e).mp hp
    obtain ⟨hentry, htime⟩ := undoRecord?_eq_some hr
    rw [hk] at hentry
    rw [htime, h.decode_key hrow]
    exact ⟨hlt, hpre row hrow hlt r.pre hentry⟩
  · obtain ⟨row, hrow, rfl, pre, hentry⟩ := hcover t ht hne
    have hstored := h.stored row hrow (.inl (hfloor.trans_lt ht))
    refine ⟨⟨row.block, (cf, key), pre⟩, mem_filterMap.mpr ⟨(row.key, row.entry),
      (hmem _ _).mpr ⟨row, hrow, rfl, rfl, ht, hstored⟩, ?_⟩, rfl, rfl⟩
    simp [undoRecord?, hentry, hname, h.decode_key hrow]

/-- Every step keeps the invariant and never lowers the floor. -/
theorem UndoInv.step {σ' : UndoState} (h : UndoInv tip₀ σ) (hstep : UndoStep σ σ') :
    UndoInv tip₀ σ' ∧ coverageFloor σ.store ≤ coverageFloor σ'.store := by
  cases hstep with
  | batch ops rows htip hmax hops hdrawn hblocks hentries hretain =>
    obtain ⟨rops, rfl, hret⟩ := stageEntityStatsUndoRetention_ok hretain
    obtain ⟨hinv, hfloor⟩ := h.batch htip hmax (hops.records rows) hdrawn hblocks hentries hret
    refine ⟨hinv, ?_⟩
    simp only [hfloor]
    exact le_max_right _ _
  | other ops hops => exact ⟨h.other hops, (hops.coverageFloor_write _).ge⟩
  | reset ops cfNames hR hops hdrop =>
    obtain ⟨hinv, hfloor⟩ := h.reset hR hops hdrop
    exact ⟨hinv, hfloor.ge⟩
  | @rollback s tip ledger rollbackTo requirement context hcover hdone =>
    have hR : -1 ≤ rollbackTo := le_of_rollback_isOk hdone
    have hle := coverageFloor_le_of_covered hR hcover
    obtain ⟨-, hinv, hmeta⟩ := h.rollback (h.floor.trans hle)
    exact ⟨hinv, (coverageFloor_congr (hmeta _)).ge⟩
  | @interrupted s tip ledger rollbackTo n requirement context hcover =>
    by_cases hR : -1 ≤ rollbackTo
    · have hle := coverageFloor_le_of_covered hR hcover
      have hR₀ : tip₀ ≤ rollbackTo := h.floor.trans hle
      obtain ⟨pending, hpend, -, hentries, -⟩ := h.pending hR₀
      obtain ⟨done, todo, hsplit, hflat⟩ := replayUndo_take pending.reverse n
      rw [← (rollbackRun_of_pending hR hpend).1] at hflat
      have hdone : ∀ row ∈ done, DataEntry row.2 := by
        intro row hrow
        refine hentries row (mem_reverse.mp ?_)
        rw [hsplit]
        exact mem_append_left _ hrow
      have hkeys := replayedKeys_undoOps hflat hdone
      obtain ⟨hinv, hfloor⟩ := UndoInv.replay (fun row => row.key ∈ done.map Prod.fst) tip h
        hdone h.tip (fun row hrow _ => (h.rows row hrow).2.2.1) (fun row hrow _ => by simp)
      simp only [foldl_write, hflat, hkeys]
      refine ⟨?_, hfloor.ge⟩
      simpa only [← decide_not] using hinv
    · -- such a target is refused before anything is written
      have hnil : (rollbackRun s rollbackTo).flushes = [] := by
        simp [rollbackRun, not_le.mp hR]
      have hkeys : replayedKeys [] = [] := rfl
      simp only [hnil, take_nil, hkeys, not_mem_nil, not_false_eq_true, decide_true, filter_true]
      exact ⟨h, le_rfl⟩

/-- A run keeps the invariant and never lowers the floor. -/
theorem UndoInv.run {σ' : UndoState} (h : UndoInv tip₀ σ)
    (hrun : Relation.ReflTransGen UndoStep σ σ') :
    UndoInv tip₀ σ' ∧ coverageFloor σ.store ≤ coverageFloor σ'.store := by
  induction hrun with
  | refl => exact ⟨h, le_rfl⟩
  | tail _ hstep ih =>
    obtain ⟨hinv, hmono⟩ := ih.1.step hstep
    exact ⟨hinv, ih.2.trans hmono⟩

/-- **The coverage floor is sound.** Over every run of live batches, resets, rollbacks, killed
rollbacks and restarts the floor never decreases. Every `EntityStats` or `Derived` entry above
it that no rollback has replayed or dropped is in the log, every such entry of another scope is
there whatever its block, and a rollback to any block at or above the floor finds all of them
above its target. -/
theorem undoCoverage_sound {s₀ : DomainStore} {σ σ' : UndoState} (hstart : StartsLive s₀ tip₀)
    (hbefore : Relation.ReflTransGen UndoStep ⟨s₀, tip₀, []⟩ σ)
    (hafter : Relation.ReflTransGen UndoStep σ σ') :
    coverageFloor σ.store ≤ coverageFloor σ'.store ∧
      (∀ row ∈ σ'.ledger, prunedScope row.seq → coverageFloor σ'.store < row.block →
        Stored σ'.store row) ∧
      (∀ row ∈ σ'.ledger, prunedScope row.seq = false → Stored σ'.store row) ∧
      ∀ rollbackTo, coverageFloor σ'.store ≤ rollbackTo →
        ∃ pending, pendingUndo σ'.store rollbackTo = .ok pending ∧
          ∀ row ∈ σ'.ledger, rollbackTo < row.block → (row.key, row.entry) ∈ pending := by
  obtain ⟨hinv, -⟩ := (UndoInv.init hstart).run hbefore
  obtain ⟨hinv', hmono⟩ := hinv.run hafter
  refine ⟨hmono, fun row hrow _ hlt => hinv'.stored row hrow (.inl hlt),
    fun row hrow hscope => hinv'.stored row hrow (.inr hscope), fun rollbackTo hR => ?_⟩
  obtain ⟨pending, hpend, -, -, hmem⟩ := hinv'.pending (hinv'.floor.trans hR)
  refine ⟨pending, hpend, fun row hrow hlt => (hmem _ _).mpr ⟨row, hrow, rfl, rfl, hlt, ?_⟩⟩
  exact hinv'.stored row hrow (.inl (lt_of_le_of_lt hR hlt))

end Run

theorem startsLive_empty : StartsLive empty (-1) where
  tip_ge := le_rfl
  floor := le_rfl
  log key v h := by simp at h

/-- The rows a first block records: a statistics pre-image and a transaction context. -/
def firstBlockRows : List UndoRow :=
  [⟨0, entityStats.seqBase ||| 0, .keyMutation .domain "stats_chain" [1] none⟩,
    ⟨0, txContext.seqBase ||| 1, .txContext ⟨[7], 1, []⟩⟩]

theorem firstBlockRows_covered :
    ∃ s, (∀ row ∈ firstBlockRows, Stored s row) ∧ ∃ pending, pendingUndo s (-1) = .ok pending ∧
      ∀ row ∈ firstBlockRows, (row.key, row.entry) ∈ pending := by
  obtain ⟨⟨batch, pruned⟩, hbatch⟩ := exists_of_isOk
    (by decide +kernel : (stageEntityStatsUndoRetention empty
      ([] ++ firstBlockRows.map op) (-1)).isOk = true)
  have hfloor : (stageEntityStatsUndoRetention empty
      ([] ++ firstBlockRows.map op) (-1)).map
      (fun staged => coverageFloor (empty.write staged.1)) = .ok (-1) := by
    decide +kernel
  rw [hbatch] at hfloor
  have hfloor : coverageFloor (empty.write batch) = -1 := Except.ok.inj hfloor
  have hdrawn : Drawn ((∅ : UndoSeqMap).insert 0 1 |>.insert 0 2) firstBlockRows :=
    (Drawn.nil.snoc (by rfl) _).snoc (by rfl) _
  have hentries : ∀ row ∈ firstBlockRows, DataEntry row.entry := by
    simp only [firstBlockRows, mem_cons, not_mem_nil, or_false, forall_eq_or_imp, forall_eq]
    exact ⟨⟨.statsChain, by decide⟩, trivial⟩
  have hrun : Relation.ReflTransGen UndoStep ⟨empty, -1, []⟩
      ⟨empty.write batch, 0, firstBlockRows⟩ :=
    .single (.batch [] firstBlockRows (by decide) (by decide) (fun op hop => by cases hop) hdrawn
      (by decide) hentries hbatch)
  obtain ⟨-, hpruned, hother, hfound⟩ := undoCoverage_sound startsLive_empty .refl hrun
  refine ⟨empty.write batch, fun row hrow => ?_, ?_⟩
  · have hblock : ∀ row ∈ firstBlockRows, (-1 : Int) < row.block := by decide
    cases hscope : prunedScope row.seq with
    | true => exact hpruned row hrow hscope (hfloor ▸ hblock row hrow)
    | false => exact hother row hrow hscope
  · obtain ⟨pending, hpend, hmem⟩ := hfound (-1) hfloor.le
    exact ⟨pending, hpend, fun row hrow => hmem row hrow (by revert row; decide)⟩

/-- A block that a running count was maintained through: its header, the count of one collection,
and the pre-image recorded for it. -/
def countedBlockOps : DomainBatch :=
  let header : CachedBlockHeader :=
    ⟨[1], [0], 0, 0, 0, 1, [], 1, 0, 0, 0, none, none, 0⟩
  [.put .blockHeaders (encodeBlockNum 0) (Codec.serialize header),
    .put .objectCollectionActivityCount (List.replicate 32 7) (encodeDerivedValue [1])]

def countedRow : UndoRow :=
  ⟨0, derived.seqBase ||| 0,
    .keyMutation .domain "object_collection_activity_count" (List.replicate 32 7) none⟩

/-- A fresh store on which the count has started. -/
def startedCount : DomainStore :=
  let running : DeriveMeta := ⟨1, .running (-1) .folding none 0, 1, some 0, none⟩
  empty.write (putDeriveMeta [] objectCollectionActivityCountId.name running)

/-- The store after that block is committed. -/
def countedStore : DomainStore :=
  match stageEntityStatsUndoRetention startedCount (countedBlockOps ++ [countedRow.op]) (-1) with
  | .ok (batch, _) => startedCount.write batch
  | .error _ => startedCount

theorem countedStore_step : UndoStep ⟨startedCount, -1, []⟩ ⟨countedStore, 0, [countedRow]⟩ := by
  obtain ⟨⟨batch, pruned⟩, hbatch⟩ := exists_of_isOk
    (by decide +kernel : (stageEntityStatsUndoRetention startedCount
      (countedBlockOps ++ [countedRow.op]) (-1)).isOk = true)
  have hstore : countedStore = startedCount.write batch := by
    rw [countedStore, hbatch]
  have hdrawn : Drawn ((∅ : UndoSeqMap).insert 0 1) [countedRow] := Drawn.nil.snoc (by rfl) _
  rw [hstore]
  refine .batch countedBlockOps [countedRow] (by decide) (by decide) ?_ hdrawn (by decide) ?_ hbatch
  · intro op hop
    simp only [countedBlockOps, mem_cons, not_mem_nil, or_false] at hop
    rcases hop with rfl | rfl <;> simp [effect]
  · intro row hrow
    rw [mem_singleton] at hrow
    subst hrow
    exact ⟨.objectCollectionActivityCount, by decide⟩

/-- A rollback to the coverage floor drops the entry of a count that is still running: it is above
the floor and was never replayed, and it is no longer in the log. -/
theorem countedRow_dropped_unreplayed :
    ∃ reset after result, UndoStep ⟨startedCount, -1, []⟩ ⟨countedStore, 0, [countedRow]⟩ ∧
      derived.owns countedRow.seq ∧ Stored countedStore countedRow ∧
      ensureRollbackWithinEntityStatsCoverage countedStore (-1) .required "fork point" = .ok () ∧
      Derive.invalidateRegisteredForRollback countedStore [Derive.objectCollectionActivityCount]
        (-1) = .ok reset ∧
      rollbackViaUndoLog reset (-1) = (after, .ok result) ∧ result.undoEntriesApplied = 0 ∧
      coverageFloor after < countedRow.block ∧ ¬ Stored after countedRow := by
  obtain ⟨reset, hreset⟩ := exists_of_isOk
    (by decide +kernel : (Derive.invalidateRegisteredForRollback countedStore
      [Derive.objectCollectionActivityCount] (-1)).isOk = true)
  have hafter : (Derive.invalidateRegisteredForRollback countedStore
      [Derive.objectCollectionActivityCount] (-1)).map (fun reset =>
        ((rollbackViaUndoLog reset (-1)).2, coverageFloor (rollbackViaUndoLog reset (-1)).1,
          (rollbackViaUndoLog reset (-1)).1.get .reorgUndoLogByBlock countedRow.key))
      = .ok (.ok {}, -1, none) := by decide +kernel
  rw [hreset] at hafter
  obtain ⟨hok, hfloor, hgone⟩ : (rollbackViaUndoLog reset (-1)).2 = .ok {} ∧
      coverageFloor (rollbackViaUndoLog reset (-1)).1 = -1 ∧
      (rollbackViaUndoLog reset (-1)).1.get .reorgUndoLogByBlock countedRow.key = none := by
    simpa [Except.map] using hafter
  refine ⟨reset, _, {}, countedStore_step, by decide +kernel, by unfold Stored; decide +kernel,
    by decide +kernel, hreset, Prod.ext rfl hok, rfl, by rw [hfloor]; decide, ?_⟩
  rw [Stored, hgone]
  exact fun h => by cases h

end Ckbadger.Sync
