/-
Ckbadger.Store.UndoLogTheorems — what a rollback through the undo log does to
the store, and why it can be cut and run again.

`undoOps` is the batch content of one entry: the restore of its pre-image and
the deletion of its row of the log. A completed rollback commits the
`undoOps` of every pending entry, newest first, whatever the flush boundaries
were (`replayUndo_flatten`). After the first flush, the entries still in the
log are exactly the ones the loop has not reached (`rollbackRun_flush`), so a
rerun continues where the interrupted run stopped.
-/
import Ckbadger.Store.RowCodecs
import Ckbadger.Lib.Journal
import Ckbadger.Lib.Fallible
import Mathlib.Data.List.Nodup

namespace Ckbadger.Store

open Lib OrderedStore Codec WriteOp List

variable {s : DomainStore} {scan : List (Bytes × Bytes)} {batch : DomainBatch}
variable {rows : List (Bytes × UndoLogEntry)} {row : Bytes × UndoLogEntry}

/-! ## One entry -/

/-- The operations replaying one entry stages before its deletion. -/
def restoreOps : UndoLogEntry → DomainBatch
  | .keyMutation .domain cfName key previousValue =>
    match Cf.ofName? cfName with
    | some cf => [.set cf key previousValue]
    | none => []
  | _ => []

/-- The operations replaying one row of the log stages. -/
def undoOps (row : Bytes × UndoLogEntry) : DomainBatch :=
  restoreOps row.2 ++ [.delete .reorgUndoLogByBlock row.1]

/-- An entry the replay accepts: a domain mutation must name a column family of the store. -/
def Replayable : UndoLogEntry → Prop
  | .keyMutation .domain cfName _ _ => (Cf.ofName? cfName).isSome
  | _ => True

/-- An entry that leaves the log alone when it is replayed. -/
def SparesUndoLog : UndoLogEntry → Prop
  | .keyMutation .domain cfName _ _ => Cf.ofName? cfName ≠ some .reorgUndoLogByBlock
  | _ => True

/-- Staging an accepted entry appends its restore and does not count it yet. -/
theorem stageRestore_of_replayable {e : UndoLogEntry} (h : Replayable e) (batch : DomainBatch)
    (result : UndoRollbackResult) :
    ∃ result', stageRestore batch result e = .ok (batch ++ restoreOps e, result') ∧
      result'.undoEntriesApplied = result.undoEntriesApplied := by
  match e with
  | .keyMutation .domain cfName key previousValue =>
    obtain ⟨cf, hcf⟩ := Option.isSome_iff_exists.mp h
    refine ⟨{ result with domainOpsApplied := result.domainOpsApplied + 1 }, ?_, rfl⟩
    cases previousValue <;>
      simp [stageRestore, applyBatchOpByCfName, hcf, restoreOps, WriteOp.set]
  | .keyMutation .appendOnly _ _ _ =>
    refine ⟨{ result with appendOpsSkipped := result.appendOpsSkipped + 1 }, ?_, rfl⟩
    simp [stageRestore, restoreOps]
  | .txContext ctx =>
    refine ⟨{ result with txContexts := result.txContexts ++ [ctx] }, ?_, rfl⟩
    simp [stageRestore, restoreOps]

/-- Staging a refused entry fails, whatever was staged before it. -/
theorem stageRestore_of_not_replayable {e : UndoLogEntry} (h : ¬ Replayable e) :
    ∃ err, ∀ batch result, stageRestore batch result e = .error err := by
  match e, h with
  | .keyMutation .domain cfName _ _, h =>
    have hnone : Cf.ofName? cfName = none := by simpa [Replayable] using h
    exact ⟨.cfNotAllowed cfName, fun batch result => by
      simp only [stageRestore, applyBatchOpByCfName, hnone]; rfl⟩
  | .keyMutation .appendOnly _ _ _, h => exact absurd trivial h
  | .txContext _, h => exact absurd trivial h

/-! ## The restore loop -/

theorem flushUndoBatches_of_ne_nil (h : batch ≠ []) : flushUndoBatches batch = [batch] := by
  cases batch with
  | nil => exact absurd rfl h
  | cons op ops => rfl

theorem replayUndo_cons {entry : UndoLogEntry} (h : Replayable entry) (undoKey : Bytes)
    (rest : List (Bytes × UndoLogEntry)) (batch : DomainBatch) (result : UndoRollbackResult) :
    ∃ result' : UndoRollbackResult,
      result'.undoEntriesApplied = result.undoEntriesApplied + 1 ∧
      replayUndo ((undoKey, entry) :: rest) batch result =
        if result'.undoEntriesApplied % undoRollbackFlushEvery = 0 then
          ⟨(batch ++ undoOps (undoKey, entry)) :: (replayUndo rest [] result').flushes,
            (replayUndo rest [] result').outcome⟩
        else
          replayUndo rest (batch ++ undoOps (undoKey, entry)) result' := by
  obtain ⟨r, hstage, hcount⟩ := stageRestore_of_replayable h batch result
  refine ⟨{ r with undoEntriesApplied := r.undoEntriesApplied + 1 }, by simp [hcount], ?_⟩
  have hne : batch ++ restoreOps entry ++ [delete .reorgUndoLogByBlock undoKey] ≠ [] := by
    simp
  simp [replayUndo, hstage, flushUndoBatches_of_ne_nil hne, undoOps, ← append_assoc]

/-- A refused entry stops the loop with what was flushed before it. -/
theorem replayUndo_cons_error {entry : UndoLogEntry} (h : ¬ Replayable entry) (undoKey : Bytes) :
    ∃ err, ∀ rest batch result,
      replayUndo ((undoKey, entry) :: rest) batch result = ⟨[], .error err⟩ := by
  obtain ⟨err, hstage⟩ := stageRestore_of_not_replayable h
  exact ⟨.store err, fun rest batch result => by simp [replayUndo, hstage]⟩

/-- Whether a run ended without an error. -/
def RollbackRun.completed (run : RollbackRun) : Bool := run.outcome.isOk

/-- The loop's flushes and its completion depend on the running count only through the position
in the flush cycle. -/
theorem replayUndo_congr (rows : List (Bytes × UndoLogEntry)) (batch : DomainBatch)
    {r₁ r₂ : UndoRollbackResult}
    (h : r₁.undoEntriesApplied % undoRollbackFlushEvery
      = r₂.undoEntriesApplied % undoRollbackFlushEvery) :
    (replayUndo rows batch r₁).flushes = (replayUndo rows batch r₂).flushes ∧
      (replayUndo rows batch r₁).completed = (replayUndo rows batch r₂).completed := by
  induction rows generalizing batch r₁ r₂ with
  | nil => exact ⟨rfl, rfl⟩
  | cons row rest ih =>
    obtain ⟨undoKey, entry⟩ := row
    by_cases hr : Replayable entry
    · obtain ⟨r₁', hc₁, heq₁⟩ := replayUndo_cons hr undoKey rest batch r₁
      obtain ⟨r₂', hc₂, heq₂⟩ := replayUndo_cons hr undoKey rest batch r₂
      have hmod : r₁'.undoEntriesApplied % undoRollbackFlushEvery
          = r₂'.undoEntriesApplied % undoRollbackFlushEvery := by
        rw [hc₁, hc₂, Nat.add_mod, h, ← Nat.add_mod]
      rw [heq₁, heq₂, hmod]
      split
      · have hrest := ih [] hmod
        exact ⟨by rw [hrest.1], hrest.2⟩
      · exact ih _ hmod
    · obtain ⟨err, herr⟩ := replayUndo_cons_error hr undoKey
      rw [herr, herr]
      exact ⟨rfl, rfl⟩

/-- The first flush holds a prefix of the rows to replay, of one flush cycle at most, and the loop
goes on with the others as a fresh run over them would. -/
theorem replayUndo_first_flush {f : DomainBatch}
    {result : UndoRollbackResult} {fs : List DomainBatch}
    (h : (replayUndo rows batch result).flushes = f :: fs) :
    ∃ done todo, rows = done ++ todo ∧ f = batch ++ done.flatMap undoOps ∧
      fs = (replayUndo todo [] {}).flushes ∧
      (replayUndo rows batch result).completed = (replayUndo todo [] {}).completed ∧
      done.length + result.undoEntriesApplied % undoRollbackFlushEvery ≤ undoRollbackFlushEvery := by
  have hcount : result.undoEntriesApplied % undoRollbackFlushEvery < undoRollbackFlushEvery :=
    Nat.mod_lt _ (by decide)
  induction rows generalizing batch result with
  | nil =>
    simp only [replayUndo, flushUndoBatches] at h
    split at h
    · cases h
    · obtain ⟨rfl, rfl⟩ := h
      exact ⟨[], [], rfl, by simp, rfl, rfl, by simpa using hcount.le⟩
  | cons row rest ih =>
    obtain ⟨undoKey, entry⟩ := row
    by_cases hr : Replayable entry
    · obtain ⟨r, hc, heq⟩ := replayUndo_cons hr undoKey rest batch result
      have hnext : r.undoEntriesApplied % undoRollbackFlushEvery < undoRollbackFlushEvery :=
        Nat.mod_lt _ (by decide)
      rw [heq] at h ⊢
      by_cases hfull : r.undoEntriesApplied % undoRollbackFlushEvery = 0
      · rw [if_pos hfull] at h ⊢
        obtain ⟨rfl, rfl⟩ := h
        have hcycle : r.undoEntriesApplied % undoRollbackFlushEvery
            = ({} : UndoRollbackResult).undoEntriesApplied % undoRollbackFlushEvery := hfull
        have hfresh := replayUndo_congr rest [] hcycle
        exact ⟨[(undoKey, entry)], rest, rfl, by simp, hfresh.1, hfresh.2, by simp; omega⟩
      · rw [if_neg hfull] at h ⊢
        obtain ⟨done, todo, rfl, rfl, hfs, hok, hlength⟩ := ih h hnext
        refine ⟨(undoKey, entry) :: done, todo, rfl, by simp, hfs, hok, ?_⟩
        rw [length_cons]
        rw [hc, undoRollbackFlushEvery] at *
        omega
    · obtain ⟨err, herr⟩ := replayUndo_cons_error hr undoKey
      rw [herr] at h
      cases h

/-- When every row is accepted the loop completes, and its flushes hold every row's operations
in replay order, wherever the flush boundaries fall. -/
theorem replayUndo_flatten
    (h : ∀ row ∈ rows, Replayable row.2) (batch : DomainBatch) (result : UndoRollbackResult) :
    (replayUndo rows batch result).completed ∧
      (replayUndo rows batch result).flushes.flatten = batch ++ rows.flatMap undoOps := by
  induction rows generalizing batch result with
  | nil =>
    refine ⟨rfl, ?_⟩
    cases batch <;> simp [replayUndo, flushUndoBatches]
  | cons row rest ih =>
    obtain ⟨undoKey, entry⟩ := row
    obtain ⟨r, -, heq⟩ :=
      replayUndo_cons (h _ mem_cons_self) undoKey rest batch result
    have hrest := (forall_mem_cons.mp h).2
    rw [heq]
    split
    · obtain ⟨hok, hflat⟩ := ih hrest [] r
      exact ⟨hok, by simp [hflat]⟩
    · obtain ⟨hok, hflat⟩ := ih hrest (batch ++ undoOps (undoKey, entry)) r
      exact ⟨hok, by simp [hflat]⟩

theorem replayUndo_flushes_ne_nil (h : ∀ row ∈ rows, Replayable row.2) (hne : rows ≠ []) :
    (replayUndo rows [] {}).flushes ≠ [] := by
  intro hnil
  have hflat := (replayUndo_flatten h [] {}).2
  obtain ⟨row, rest, rfl⟩ := exists_cons_of_ne_nil hne
  simp [hnil, undoOps] at hflat

/-- Any number of flushes from the start hold the operations of a prefix of the rows. -/
theorem replayUndo_take (rows : List (Bytes × UndoLogEntry)) (n : Nat) :
    ∃ done todo, rows = done ++ todo ∧
      ((replayUndo rows [] {}).flushes.take n).flatten = done.flatMap undoOps := by
  induction n generalizing rows with
  | zero => exact ⟨[], rows, rfl, rfl⟩
  | succ n ih =>
    cases hflush : (replayUndo rows [] {}).flushes with
    | nil => exact ⟨[], rows, rfl, rfl⟩
    | cons f fs =>
      obtain ⟨done, todo, rfl, rfl, rfl, -⟩ := replayUndo_first_flush hflush
      obtain ⟨done', todo', rfl, htake⟩ := ih todo
      exact ⟨done ++ done', todo', by simp, by simp [htake]⟩

/-! ## What replayed rows leave in the log -/

/-- Replaying an entry that spares the log only deletes its own row there. -/
theorem rowAfter_undoOps_undoLog (h : SparesUndoLog row.2) (key : Bytes) (v : Option Bytes) :
    rowAfter .reorgUndoLogByBlock key v (undoOps row) = if row.1 = key then none else v := by
  obtain ⟨undoKey, entry⟩ := row
  have hspare : ∀ op ∈ restoreOps entry, op.effect .reorgUndoLogByBlock key = none := by
    match entry, h with
    | .keyMutation .domain cfName k previousValue, h =>
      intro op hop
      simp only [restoreOps] at hop
      split at hop
      · rename_i cf hcf
        have hne : cf ≠ .reorgUndoLogByBlock := fun hc => h (hc ▸ hcf)
        rw [mem_singleton] at hop
        subst hop
        simp [hne]
      · cases hop
    | .keyMutation .appendOnly _ _ _, _ => simp [restoreOps]
    | .txContext _, _ => simp [restoreOps]
  rw [undoOps, rowAfter_append, rowAfter_of_effect_none hspare]
  by_cases hk : undoKey = key <;> simp [effect, hk]

/-- Replaying rows that spare the log deletes exactly those rows from it. -/
theorem get_write_flatMap_undoOps
    (h : ∀ row ∈ rows, SparesUndoLog row.2) (s : DomainStore) (key : Bytes) :
    (s.write (rows.flatMap undoOps)).get .reorgUndoLogByBlock key
      = if key ∈ rows.map Prod.fst then none else s.get .reorgUndoLogByBlock key := by
  rw [get_write]
  generalize s.get .reorgUndoLogByBlock key = v
  induction rows generalizing v with
  | nil => simp
  | cons row rest ih =>
    have hrest := ih (forall_mem_cons.mp h).2
    rw [flatMap_cons, rowAfter_append, hrest, rowAfter_undoOps_undoLog (h row mem_cons_self)]
    by_cases hk : row.1 = key
    · simp [hk]
    · simp only [hk, map_cons, mem_cons, Ne.symm hk, if_false, false_or]

/-! ## Dropped entries -/

section Dropped

variable [Codec UndoLogEntry] {cfNames : List String} {rollbackTo : Int}

/-- A row of the log that the selection of a reset gets past. -/
def DerivedReadable (rollbackTo : Int) (kv : Bytes × Bytes) : Prop :=
  kv.1.length = reorgUndoLogKeySize ∧ (rollbackTo < (decodeReorgUndoLogKey kv.1).1 →
    UndoSeqScope.derived.owns (decodeReorgUndoLogKey kv.1).2 → ∃ target cfName key pre,
      deserialize kv.2 = .ok (UndoLogEntry.keyMutation target cfName key pre))

/-- The key a reset selects at a row of the log. -/
def derivedKey? (cfNames : List String) (rollbackTo : Int) (kv : Bytes × Bytes) : Option Bytes :=
  let (block, seq) := decodeReorgUndoLogKey kv.1
  if block ≤ rollbackTo || !UndoSeqScope.derived.owns seq then none
  else (deserialize kv.2).toOption.bind fun e => if restoresIn cfNames e then some kv.1 else none

/-- The selection succeeds on readable rows whose `Derived` entries are key mutations. -/
theorem derivedKeysAbove_eq_ok {keys : List Bytes} :
    derivedKeysAbove cfNames rollbackTo scan = .ok keys ↔
      (∀ kv ∈ scan, DerivedReadable rollbackTo kv) ∧
        scan.filterMap (derivedKey? cfNames rollbackTo) = keys := by
  refine scan_eq_ok (f := derivedKeysAbove cfNames rollbackTo) rfl ?_
  rintro ⟨key, value⟩ rest keys
  simp only [derivedKeysAbove, ite_error_eq_ok, not_not, DerivedReadable, derivedKey?, and_assoc]
  refine and_congr_right fun _ => ?_
  by_cases hle : (decodeReorgUndoLogKey key).1 ≤ rollbackTo
  · simp [hle]
  cases howns : UndoSeqScope.derived.owns (decodeReorgUndoLogKey key).2 with
  | false => simp
  | true =>
    rcases hdec : deserialize (α := UndoLogEntry) value with e | ⟨_, cfName, _, _⟩ | ctx
    · simp [hle]
    · by_cases hcf : cfName ∈ cfNames <;>
        simp [hle, bind_eq_ok, Except.toOption, restoresIn, hcf]
    · simp [hle]

theorem derivedKey?_eq_some {kv : Bytes × Bytes} {key : Bytes} :
    derivedKey? cfNames rollbackTo kv = some key ↔ kv.1 = key ∧
      rollbackTo < (decodeReorgUndoLogKey key).1 ∧
      UndoSeqScope.derived.owns (decodeReorgUndoLogKey key).2 ∧
      ∃ e, deserialize kv.2 = .ok e ∧ restoresIn cfNames e := by
  simp only [derivedKey?, Option.ite_none_left_eq_some, Option.bind_eq_some_iff, Bool.or_eq_true,
    decide_eq_true_eq, Bool.not_eq_true', not_or, not_le, Bool.not_eq_false,
    Option.ite_none_right_eq_some, Option.some.injEq, toOption_eq_some]
  constructor
  · rintro ⟨⟨hlt, howns⟩, e, hdec, hcf, rfl⟩
    exact ⟨rfl, hlt, howns, e, hdec, hcf⟩
  · rintro ⟨rfl, hlt, howns, e, hdec, hcf⟩
    exact ⟨⟨hlt, howns⟩, e, hdec, hcf, rfl⟩

/-- What the reset stages for the log. -/
theorem stageDeleteDerivedUndoAbove_ok {ops : DomainBatch} {dropped : Nat}
    (h : stageDeleteDerivedUndoAbove s ops cfNames rollbackTo = .ok (batch, dropped)) :
    ∃ keys : List Bytes, batch = ops ++ keys.map (delete .reorgUndoLogByBlock) ∧
      keys.length = dropped ∧ ∀ key, key ∈ keys ↔ ∃ v, s.get .reorgUndoLogByBlock key = some v ∧
        (compare (encodeBlockNum (rollbackTo + 1)) key).isLE ∧
        rollbackTo < (decodeReorgUndoLogKey key).1 ∧
        UndoSeqScope.derived.owns (decodeReorgUndoLogKey key).2 ∧
        ∃ e, deserialize v = .ok e ∧ restoresIn cfNames e := by
  simp only [stageDeleteDerivedUndoAbove] at h
  split at h
  · rename_i hempty
    cases h
    refine ⟨[], by simp, rfl, fun key => ⟨fun hk => (by cases hk), ?_⟩⟩
    rintro ⟨v, -, -, -, -, e, -, hcf⟩
    rw [List.isEmpty_iff.mp hempty] at hcf
    cases e <;> cases hcf
  · obtain ⟨keys, hkeys, hret⟩ := bind_eq_ok.mp h
    cases hret
    refine ⟨keys, rfl, rfl, fun key => ?_⟩
    rw [← (derivedKeysAbove_eq_ok.mp hkeys).2, mem_filterMap]
    constructor
    · rintro ⟨⟨_, v⟩, hv, hkey⟩
      obtain ⟨rfl, hrest⟩ := derivedKey?_eq_some.mp hkey
      obtain ⟨hget, hle⟩ := mem_scanFrom.mp hv
      exact ⟨v, hget, hle, hrest⟩
    · rintro ⟨v, hget, hle, hrest⟩
      exact ⟨(key, v), mem_scanFrom.mpr ⟨hget, hle⟩, derivedKey?_eq_some.mpr ⟨rfl, hrest⟩⟩

end Dropped

/-! ## Collecting the pending entries -/

section Pending

variable [Codec UndoLogEntry]
variable {rollbackTo : Int} {pending : List (Bytes × UndoLogEntry)}

/-- A row of the log that a rollback to `rollbackTo` can read. -/
def PendingReadable (rollbackTo : Int) (kv : Bytes × Bytes) : Prop :=
  kv.1.length = reorgUndoLogKeySize ∧ (rollbackTo < (decodeReorgUndoLogKey kv.1).1 →
    ∃ e : UndoLogEntry, deserialize kv.2 = .ok e)

/-- The entry a row of the log adds to the pending ones. -/
def pendingRow? (rollbackTo : Int) (kv : Bytes × Bytes) : Option (Bytes × UndoLogEntry) :=
  if (decodeReorgUndoLogKey kv.1).1 ≤ rollbackTo then none
  else (deserialize kv.2).toOption.map (kv.1, ·)

/-- A scan of readable rows collects exactly the entries above the target. -/
theorem collectPending_eq_ok : collectPending rollbackTo scan = .ok pending ↔
    (∀ kv ∈ scan, PendingReadable rollbackTo kv) ∧
      scan.filterMap (pendingRow? rollbackTo) = pending := by
  refine scan_eq_ok (f := collectPending rollbackTo) rfl ?_
  rintro ⟨key, value⟩ rest keys
  simp only [collectPending, ite_error_eq_ok, not_not, PendingReadable, pendingRow?, and_assoc]
  refine and_congr_right fun _ => ?_
  by_cases hle : (decodeReorgUndoLogKey key).1 ≤ rollbackTo
  · simp [hle]
  rcases hdec : deserialize (α := UndoLogEntry) value with e | entry
  · simp [hle]
  · simp [hle, bind_eq_ok, Except.toOption]

theorem pendingRow?_eq_some {kv : Bytes × Bytes} : pendingRow? rollbackTo kv = some row ↔
    kv.1 = row.1 ∧ rollbackTo < (decodeReorgUndoLogKey kv.1).1 ∧ deserialize kv.2 = .ok row.2 := by
  simp only [pendingRow?, Option.ite_none_left_eq_some, not_le, Option.map_eq_some_iff,
    toOption_eq_some]
  constructor
  · rintro ⟨hlt, e, hdec, rfl⟩
    exact ⟨rfl, hlt, hdec⟩
  · rintro ⟨hkey, hlt, hdec⟩
    exact ⟨hlt, row.2, hdec, by rw [hkey]⟩

/-- Dropping rows from the scan drops them from the collected entries. -/
theorem collectPending_filter (p : Bytes → Bool)
    (h : collectPending rollbackTo scan = .ok pending) :
    collectPending rollbackTo (scan.filter fun kv => p kv.1)
      = .ok (pending.filter fun row => p row.1) := by
  obtain ⟨hread, rfl⟩ := collectPending_eq_ok.mp h
  refine collectPending_eq_ok.mpr ⟨fun kv hkv => hread kv (mem_of_mem_filter hkv), ?_⟩
  rw [filterMap_filter, filter_filterMap]
  congr 1
  funext kv
  cases hrow : pendingRow? rollbackTo kv with
  | none => simp
  | some row => simp [(pendingRow?_eq_some.mp hrow).1, Option.filter]

theorem pendingUndo_sorted (h : pendingUndo s rollbackTo = .ok pending) :
    pending.Pairwise fun a b => compare a.1 b.1 = .lt := by
  obtain ⟨-, rfl⟩ := collectPending_eq_ok.mp h
  refine pairwise_filterMap.mpr (scanFrom_sorted.imp fun hlt row hrow row' hrow' => ?_)
  rwa [← (pendingRow?_eq_some.mp hrow).1, ← (pendingRow?_eq_some.mp hrow').1]

theorem pendingUndo_nodup (h : pendingUndo s rollbackTo = .ok pending) :
    (pending.map Prod.fst).Nodup := by
  rw [nodup_iff_pairwise_ne, pairwise_map]
  exact (pendingUndo_sorted h).imp fun hlt heq => by simp [heq] at hlt

/-- On a readable log, the pending entries are the rows above the target. -/
theorem pendingUndo_ok (h : ∀ key v, s.get .reorgUndoLogByBlock key = some v →
      PendingReadable rollbackTo (key, v)) :
    ∃ pending, pendingUndo s rollbackTo = .ok pending ∧ ∀ key e, (key, e) ∈ pending ↔
      ∃ v, s.get .reorgUndoLogByBlock key = some v ∧
        (compare (encodeBlockNum (rollbackTo + 1)) key).isLE ∧
        rollbackTo < (decodeReorgUndoLogKey key).1 ∧ deserialize v = .ok e := by
  refine ⟨_, collectPending_eq_ok.mpr ⟨fun kv hkv => h _ _ (mem_scanFrom.mp hkv).1, rfl⟩,
    fun key e => ?_⟩
  rw [mem_filterMap]
  constructor
  · rintro ⟨⟨_, v⟩, hv, hrow⟩
    obtain ⟨rfl, hrest⟩ := pendingRow?_eq_some.mp hrow
    obtain ⟨hget, hle⟩ := mem_scanFrom.mp hv
    exact ⟨v, hget, hle, hrest⟩
  · rintro ⟨v, hget, hle, hrest⟩
    exact ⟨(key, v), mem_scanFrom.mpr ⟨hget, hle⟩, pendingRow?_eq_some.mpr ⟨rfl, hrest⟩⟩

/-! ## A completed rollback -/

/-- A run over a known list of pending entries. -/
theorem rollbackRun_of_pending (hR : -1 ≤ rollbackTo) (h : pendingUndo s rollbackTo = .ok pending) :
    (rollbackRun s rollbackTo).flushes = (replayUndo pending.reverse [] {}).flushes ∧
      (rollbackRun s rollbackTo).completed = (replayUndo pending.reverse [] {}).completed := by
  have hR' : ¬ rollbackTo < -1 := by omega
  by_cases hnil : pending.isEmpty
  · have : pending = [] := by simpa using hnil
    subst this
    simp [rollbackRun, hR', h, replayUndo, flushUndoBatches]
  · simp [rollbackRun, hR', h, hnil]

/-- The pre-image a pending row restores: its block, the row it belongs to and its content. -/
def undoRecord? (row : Bytes × UndoLogEntry) : Option (Journal.Record (Cf × Bytes) Bytes) :=
  match row.2 with
  | .keyMutation .domain cfName key previousValue =>
    (Cf.ofName? cfName).map fun cf =>
      ⟨(decodeReorgUndoLogKey row.1).1, (cf, key), previousValue⟩
  | _ => none

omit [Codec UndoLogEntry] in
/-- A record comes from a domain mutation and carries the block of its row's key. -/
theorem undoRecord?_eq_some {r : Journal.Record (Cf × Bytes) Bytes} (h : undoRecord? row = some r) :
    row.2 = .keyMutation .domain r.key.1.name r.key.2 r.pre ∧
      r.time = (decodeReorgUndoLogKey row.1).1 := by
  obtain ⟨undoKey, entry⟩ := row
  cases entry with
  | txContext ctx => cases h
  | keyMutation target cfName key pre =>
    cases target with
    | appendOnly => cases h
    | domain =>
      simp only [undoRecord?, Option.map_eq_some_iff] at h
      obtain ⟨cf, hcf, rfl⟩ := h
      exact ⟨by rw [Cf.name_of_ofName? hcf], rfl⟩

theorem pendingUndo_records_sorted (h : pendingUndo s rollbackTo = .ok pending)
    (hkeys : ∀ row ∈ pending, ∃ block seq, row.1 = encodeReorgUndoLogKey block seq ∧
      IsBlock block ∧ seq < 2 ^ 64) :
    (pending.filterMap undoRecord?).Pairwise fun a b => a.time ≤ b.time := by
  rw [pairwise_filterMap]
  refine (pendingUndo_sorted h).imp_of_mem ?_
  intro row row' hrow hrow' hcmp r hr r' hr'
  obtain ⟨block, seq, hkey, hb, hseq⟩ := hkeys row hrow
  obtain ⟨block', seq', hkey', hb', hseq'⟩ := hkeys row' hrow'
  rw [(undoRecord?_eq_some hr).2, (undoRecord?_eq_some hr').2, hkey, hkey',
    decode_encodeReorgUndoLogKey hb.fitsSigned hseq,
    decode_encodeReorgUndoLogKey hb'.fitsSigned hseq']
  rw [hkey, hkey', compare_encodeReorgUndoLogKey hb hb' hseq hseq', Ordering.then_eq_lt] at hcmp
  rcases hcmp with hlt | ⟨heq, -⟩
  · exact (compare_lt_iff_lt.mp hlt).le
  · exact (compare_eq_iff_eq.mp heq).le

/-- A log whose rows above the target are recorded entries: these are the pending ones, and their
journal is in block order. -/
theorem pendingUndo_of_log (hR : -1 ≤ rollbackTo)
    (hlog : ∀ key v, s.get .reorgUndoLogByBlock key = some v → ∃ block seq,
      key = encodeReorgUndoLogKey block seq ∧ IsBlock block ∧ seq < 2 ^ 64 ∧
        (rollbackTo < block → ∃ e : UndoLogEntry, v = serialize e)) :
    ∃ pending, pendingUndo s rollbackTo = .ok pending ∧
      (pending.filterMap undoRecord?).Pairwise (fun a b => a.time ≤ b.time) ∧
      ∀ key e, (key, e) ∈ pending ↔ s.get .reorgUndoLogByBlock key = some (serialize e) ∧
        rollbackTo < (decodeReorgUndoLogKey key).1 := by
  have hentry : ∀ key v, s.get .reorgUndoLogByBlock key = some v →
      rollbackTo < (decodeReorgUndoLogKey key).1 → ∃ e : UndoLogEntry, v = serialize e := by
    intro key v hget hlt
    obtain ⟨block, seq, rfl, hb, hseq, hentry⟩ := hlog key v hget
    rw [decode_encodeReorgUndoLogKey hb.fitsSigned hseq] at hlt
    exact hentry hlt
  have hreadable : ∀ key v, s.get .reorgUndoLogByBlock key = some v →
      PendingReadable rollbackTo (key, v) := by
    intro key v hget
    refine ⟨?_, fun hlt => ?_⟩
    · obtain ⟨block, seq, rfl, -⟩ := hlog key v hget
      exact length_encodeReorgUndoLogKey block seq
    · obtain ⟨e, rfl⟩ := hentry key v hget hlt
      exact ⟨e, deserialize_serialize e⟩
  obtain ⟨pending, hpend, hmem⟩ := pendingUndo_ok hreadable
  refine ⟨pending, hpend, pendingUndo_records_sorted hpend ?_, fun key e => ?_⟩
  · rintro ⟨key, e⟩ hrow
    obtain ⟨v, hget, -⟩ := (hmem key e).mp hrow
    obtain ⟨block, seq, hkey, hb, hseq, -⟩ := hlog key v hget
    exact ⟨block, seq, hkey, hb, hseq⟩
  rw [hmem]
  constructor
  · rintro ⟨v, hget, -, hlt, hdec⟩
    obtain ⟨e', rfl⟩ := hentry key v hget hlt
    rw [deserialize_serialize] at hdec
    cases hdec
    exact ⟨hget, hlt⟩
  · rintro ⟨hget, hlt⟩
    obtain ⟨block, seq, rfl, hb, hseq, -⟩ := hlog key _ hget
    refine ⟨_, hget, encodeBlockNum_le_key hR hb ?_, hlt, deserialize_serialize e⟩
    rwa [decode_encodeReorgUndoLogKey hb.fitsSigned hseq] at hlt

omit [Codec UndoLogEntry] in
/-- Replaying a row restores its pre-image and touches no other row outside the log. -/
theorem rowAfter_undoOps {cf : Cf} (hcf : cf ≠ .reorgUndoLogByBlock)
    (key : Bytes) (v : Option Bytes) :
    rowAfter cf key v (undoOps row)
      = (undoRecord? row).elim v fun r => if r.key = (cf, key) then r.pre else v := by
  obtain ⟨undoKey, entry⟩ := row
  have hdelete : ∀ w, rowAfter cf key w [delete .reorgUndoLogByBlock undoKey] = w := by
    intro w
    simp [effect, Ne.symm hcf]
  rw [undoOps, rowAfter_append, hdelete]
  cases entry with
  | txContext ctx => rfl
  | keyMutation target cfName k previousValue =>
    cases target with
    | appendOnly => rfl
    | domain =>
      cases hname : Cf.ofName? cfName with
      | none => simp [undoRecord?, restoreOps, hname]
      | some c =>
        simp only [undoRecord?, restoreOps, hname, Option.map_some, Option.elim_some, rowAfter_cons,
          effect_set, Prod.mk.injEq]
        split <;> rfl

omit [Codec UndoLogEntry] in
/-- Replaying rows newest first is undoing their journal. -/
theorem get_write_undoOps_reverse (s : DomainStore) (rows : List (Bytes × UndoLogEntry)) {cf : Cf}
    (hcf : cf ≠ .reorgUndoLogByBlock) (key : Bytes) :
    (s.write (rows.reverse.flatMap undoOps)).get cf key
      = Journal.undo (fun ck => s.get ck.1 ck.2) (rows.filterMap undoRecord?) (cf, key) := by
  rw [get_write]
  induction rows with
  | nil => rfl
  | cons row rest ih =>
    rw [reverse_cons, flatMap_append, rowAfter_append, ih, flatMap_singleton,
      rowAfter_undoOps hcf, filterMap_cons]
    cases undoRecord? row with
    | none => rfl
    | some r =>
      simp only [Journal.undo_cons, Option.elim_some]
      by_cases hr : r.key = (cf, key)
      · rw [if_pos hr, hr, Function.update_self]
      · rw [if_neg hr, Function.update_of_ne (Ne.symm hr)]

/-- A rollback of accepted entries replays all of them, newest first. -/
theorem rollbackViaUndoLog_of_pending (hR : -1 ≤ rollbackTo)
    (hpend : pendingUndo s rollbackTo = .ok pending)
    (hreplay : ∀ row ∈ pending, Replayable row.2) :
    (rollbackViaUndoLog s rollbackTo).2.isOk ∧
      (rollbackViaUndoLog s rollbackTo).1 = s.write (pending.reverse.flatMap undoOps) := by
  obtain ⟨hflush, hcomp⟩ := rollbackRun_of_pending hR hpend
  obtain ⟨hok, hflat⟩ := replayUndo_flatten
    (fun row hrow => hreplay row (mem_reverse.mp hrow)) [] {}
  refine ⟨hcomp.trans hok, ?_⟩
  rw [rollbackViaUndoLog, foldl_write, hflush, hflat, nil_append]

/-- **What a completed rollback leaves.** Every replayable log whose entries spare the log itself
is replayed to the end: the log loses the entries above the target, and every other row is
the undo of their journal. -/
theorem rollbackViaUndoLog_completed (hR : -1 ≤ rollbackTo)
    (hpend : pendingUndo s rollbackTo = .ok pending)
    (hreplay : ∀ row ∈ pending, Replayable row.2) (hspare : ∀ row ∈ pending, SparesUndoLog row.2) :
    (rollbackViaUndoLog s rollbackTo).2.isOk ∧
      (∀ key, (rollbackViaUndoLog s rollbackTo).1.get .reorgUndoLogByBlock key
        = if key ∈ pending.map Prod.fst then none else s.get .reorgUndoLogByBlock key) ∧
      (∀ cf key, cf ≠ .reorgUndoLogByBlock → (rollbackViaUndoLog s rollbackTo).1.get cf key
        = Journal.undo (fun ck => s.get ck.1 ck.2) (pending.filterMap undoRecord?) (cf, key)) := by
  obtain ⟨hok, hstore⟩ := rollbackViaUndoLog_of_pending hR hpend hreplay
  refine ⟨hok, fun key => ?_, fun cf key hcf => ?_⟩
  · rw [hstore, get_write_flatMap_undoOps fun row hrow => hspare row (mem_reverse.mp hrow)]
    simp only [map_reverse, mem_reverse]
  · rw [hstore, get_write_undoOps_reverse s pending hcf]

/-! ## Interrupted rollbacks -/

/-- No entry a rollback replays is a mutation of the undo log itself. -/
def PendingSparesUndoLog (s : DomainStore) (rollbackTo : Int) : Prop :=
  ∀ pending, pendingUndo s rollbackTo = .ok pending → ∀ row ∈ pending, SparesUndoLog row.2

/-- A rollback that was killed after some of its flushes: what it leaves in the store. -/
def InterruptedRollback (rollbackTo : Int) (s t : DomainStore) : Prop :=
  ∃ n, t = ((rollbackRun s rollbackTo).flushes.take n).foldl write s

/-- A run that commits anything has pending entries and replays them newest first. -/
theorem rollbackRun_of_flushes_ne_nil (h : (rollbackRun s rollbackTo).flushes ≠ []) :
    -1 ≤ rollbackTo ∧ ∃ pending, pendingUndo s rollbackTo = .ok pending ∧
      rollbackRun s rollbackTo = replayUndo pending.reverse [] {} := by
  by_cases hR : rollbackTo < -1
  · simp [rollbackRun, hR] at h
  rcases hpend : pendingUndo s rollbackTo with err | pending
  · simp [rollbackRun, hR, hpend] at h
  by_cases hnil : pending.isEmpty
  · simp [rollbackRun, hR, hpend, hnil] at h
  · exact ⟨by omega, pending, rfl, by simp [rollbackRun, hR, hpend, hnil]⟩

/-- **After its first flush, a rollback still has to do what a rerun would do.** The flush removed
the entries it restored from the log and no others. -/
theorem rollbackRun_flush {f : DomainBatch}
    {fs : List DomainBatch} (hspare : PendingSparesUndoLog s rollbackTo)
    (h : (rollbackRun s rollbackTo).flushes = f :: fs) :
    (rollbackRun (s.write f) rollbackTo).flushes = fs ∧
      (rollbackRun (s.write f) rollbackTo).completed = (rollbackRun s rollbackTo).completed ∧
      PendingSparesUndoLog (s.write f) rollbackTo := by
  obtain ⟨hR, pending, hpend, hrun⟩ := rollbackRun_of_flushes_ne_nil (by rw [h]; simp)
  rw [hrun] at h ⊢
  obtain ⟨done, todo, hrows, rfl, rfl, hok, -⟩ := replayUndo_first_flush h
  rw [nil_append]
  have hpending : pending = todo.reverse ++ done.reverse := by
    rw [← reverse_append, ← hrows, reverse_reverse]
  have hdone : ∀ row ∈ done, SparesUndoLog row.2 := fun row hrow =>
    hspare pending hpend row (by rw [hpending]; simp [hrow])
  -- the flush deleted the rows of `done` from the log
  have hlog : ∀ key, (s.write (done.flatMap undoOps)).get .reorgUndoLogByBlock key
      = if decide (key ∉ done.map Prod.fst) then s.get .reorgUndoLogByBlock key else none := by
    intro key
    rw [get_write_flatMap_undoOps hdone]
    by_cases hk : key ∈ done.map Prod.fst <;> simp only [hk] <;> simp
  have hleft : pending.filter (fun row => decide (row.1 ∉ done.map Prod.fst)) = todo.reverse := by
    have hnodup := pendingUndo_nodup hpend
    rw [hpending, map_append, nodup_append] at hnodup
    rw [hpending, filter_append, filter_eq_self.mpr, filter_eq_nil_iff.mpr, append_nil]
    · intro row hrow
      have : row.1 ∈ done.map Prod.fst := mem_map_of_mem (mem_reverse.mp hrow)
      simpa using this
    · intro row hrow
      rw [decide_eq_true_iff]
      intro hmem
      refine hnodup.2.2 row.1 (mem_map_of_mem hrow) row.1 ?_ rfl
      rwa [map_reverse, mem_reverse]
  have hpend' : pendingUndo (s.write (done.flatMap undoOps)) rollbackTo = .ok todo.reverse := by
    rw [pendingUndo, scanFrom_filter hlog, ← hleft]
    exact collectPending_filter (fun key => decide (key ∉ done.map Prod.fst)) hpend
  obtain ⟨hflush, hcomp⟩ := rollbackRun_of_pending hR hpend'
  rw [reverse_reverse] at hflush hcomp
  refine ⟨hflush, by rw [hcomp, hok], fun pending' hp row hrow => ?_⟩
  rw [hpend'] at hp
  cases hp
  exact hspare pending hpend row (by rw [hpending]; exact mem_append_left _ hrow)

/-- A kill after any number of flushes leaves a store from which a rerun completes exactly when
the uninterrupted run would, with the same final store. -/
theorem interruptedRollback_step {t : DomainStore}
    (hspare : PendingSparesUndoLog s rollbackTo) (h : InterruptedRollback rollbackTo s t) :
    (rollbackViaUndoLog t rollbackTo).1 = (rollbackViaUndoLog s rollbackTo).1 ∧
      (rollbackRun t rollbackTo).completed = (rollbackRun s rollbackTo).completed ∧
      PendingSparesUndoLog t rollbackTo := by
  obtain ⟨n, rfl⟩ := h
  -- induction on the flushes that survived
  induction n generalizing s with
  | zero => exact ⟨rfl, rfl, hspare⟩
  | succ n ih =>
    rcases hfl : (rollbackRun s rollbackTo).flushes with _ | ⟨f, fs⟩
    · simpa using hspare
    · obtain ⟨hfs, hcomp, hspare'⟩ := rollbackRun_flush hspare hfl
      have hrest := ih hspare'
      rw [hfs] at hrest
      have hfinal : (rollbackViaUndoLog (s.write f) rollbackTo).1
          = (rollbackViaUndoLog s rollbackTo).1 := by
        simp [rollbackViaUndoLog, hfs, hfl]
      exact ⟨hrest.1.trans hfinal, hrest.2.1.trans hcomp, hrest.2.2⟩

/-- **Undo replay is crash-resumable.** Kill the rollback after any prefix of its flushes, any
number of times; the next run then completes exactly when the uninterrupted run would, and
leaves the same store. No replayed entry may be a mutation of the log itself. -/
theorem rollbackViaUndoLog_resumable {s t : DomainStore} {rollbackTo : Int}
    (hspare : PendingSparesUndoLog s rollbackTo)
    (hkills : Relation.ReflTransGen (InterruptedRollback rollbackTo) s t) :
    ((rollbackViaUndoLog t rollbackTo).2.isOk ↔ (rollbackViaUndoLog s rollbackTo).2.isOk) ∧
      (rollbackViaUndoLog t rollbackTo).1 = (rollbackViaUndoLog s rollbackTo).1 := by
  have hinv : (rollbackViaUndoLog t rollbackTo).1 = (rollbackViaUndoLog s rollbackTo).1 ∧
      (rollbackRun t rollbackTo).completed = (rollbackRun s rollbackTo).completed ∧
      PendingSparesUndoLog t rollbackTo := by
    induction hkills with
    | refl => exact ⟨rfl, rfl, hspare⟩
    | tail _ hkill ih =>
      obtain ⟨hstore, hcomp, hspare'⟩ := interruptedRollback_step ih.2.2 hkill
      exact ⟨hstore.trans ih.1, hcomp.trans ih.2.1, hspare'⟩
  exact ⟨by rw [← Bool.eq_iff_iff]; exact hinv.2.1, hinv.1⟩

end Pending

/-- The row that a number of blocks have written, the first of which created it. -/
def rewrittenEntry (block : Nat) : UndoLogEntry :=
  .keyMutation .domain "stats_chain" [1] (if block = 0 then none else some [7])

def rewrittenLog (blocks : Nat) : DomainStore :=
  empty.write ((range blocks).map fun (block : Nat) =>
    .put .reorgUndoLogByBlock (encodeReorgUndoLogKey ((block : Int) + 1) 0)
      (serialize (rewrittenEntry block)))

theorem get_rewrittenLog {blocks : Nat} {key v : Bytes}
    (h : (rewrittenLog blocks).get .reorgUndoLogByBlock key = some v) :
    ∃ block : Nat, block < blocks ∧ key = encodeReorgUndoLogKey ((block : Int) + 1) 0 ∧
      v = serialize (rewrittenEntry block) := by
  rw [rewrittenLog, get_write] at h
  obtain ⟨block, hblock, hput⟩ := mem_map.mp ((rowAfter_eq_some h).resolve_left (by simp))
  cases hput
  exact ⟨block, mem_range.mp hblock, rfl, rfl⟩

theorem rewrittenLog_pending {blocks : Nat} (hblocks : blocks < 2 ^ 62) :
    ∃ pending, pendingUndo (rewrittenLog blocks) 0 = .ok pending ∧ blocks ≤ pending.length ∧
      ∀ row ∈ pending, ∃ block, row.2 = rewrittenEntry block := by
  have hblock : ∀ block : Nat, block < blocks → IsBlock ((block : Int) + 1) := by
    intro block hlt
    constructor <;> omega
  obtain ⟨pending, hpend, -, hmem⟩ := @pendingUndo_of_log (rewrittenLog blocks) _ 0 (by decide) (by
    intro key v hget
    obtain ⟨block, hlt, rfl, rfl⟩ := get_rewrittenLog hget
    exact ⟨block + 1, 0, rfl, hblock block hlt, by decide, fun _ => ⟨_, rfl⟩⟩)
  let keys := (range blocks).map fun (block : Nat) => encodeReorgUndoLogKey ((block : Int) + 1) 0
  have hkeys : keys ⊆ pending.map Prod.fst := by
    intro key hkey
    have hsome : ((rewrittenLog blocks).get .reorgUndoLogByBlock key).isSome := by
      rw [rewrittenLog, get_write]
      exact rowAfter_puts_isSome (.inr hkey)
    obtain ⟨v, hget⟩ := Option.isSome_iff_exists.mp hsome
    obtain ⟨block, hlt, rfl, rfl⟩ := get_rewrittenLog hget
    refine mem_map.mpr ⟨_, (hmem _ _).mpr ⟨hget, ?_⟩, rfl⟩
    rw [decode_encodeReorgUndoLogKey (hblock block hlt).fitsSigned (by decide)]
    omega
  have hnodup : keys.Nodup := by
    refine nodup_range.map_on fun a ha b hb heq => ?_
    have hsame := encodeReorgUndoLogKey_block (hblock a (mem_range.mp ha)).fitsSigned
      (hblock b (mem_range.mp hb)).fitsSigned heq
    omega
  refine ⟨pending, hpend, by simpa [keys] using (subperm_of_subset hnodup hkeys).length_le, ?_⟩
  rintro ⟨key, e⟩ hrow
  obtain ⟨block, -, -, hentry⟩ := get_rewrittenLog ((hmem key e).mp hrow).1
  exact ⟨block, serialize_injective hentry⟩

/-- The replay of a log of 50001 entries is killed after its first flush, with more to come. -/
theorem rewrittenLog_resumable :
    ∃ f fs, (rollbackRun (rewrittenLog 50001) 0).flushes = f :: fs ∧ fs ≠ [] ∧
      (rollbackViaUndoLog ((rewrittenLog 50001).write f) 0).1
        = (rollbackViaUndoLog (rewrittenLog 50001) 0).1 := by
  obtain ⟨pending, hpend, hlength, hentries⟩ := @rewrittenLog_pending 50001 (by decide)
  have hname : Cf.ofName? "stats_chain" = some .statsChain := by decide +kernel
  have hreplay : ∀ row ∈ pending.reverse, Replayable row.2 := by
    intro row hrow
    obtain ⟨block, hentry⟩ := hentries row (mem_reverse.mp hrow)
    simp [hentry, rewrittenEntry, Replayable, hname]
  have hspare : PendingSparesUndoLog (rewrittenLog 50001) 0 := by
    intro pending' hpend' row hrow
    cases hpend.symm.trans hpend'
    obtain ⟨block, hentry⟩ := hentries row hrow
    simp [hentry, rewrittenEntry, SparesUndoLog, hname]
  have hrun := (rollbackRun_of_pending (by decide) hpend).1
  obtain ⟨f, fs, hflushes⟩ := exists_cons_of_ne_nil
    (replayUndo_flushes_ne_nil hreplay (by rw [← length_pos_iff, length_reverse]; omega))
  obtain ⟨done, todo, hrows, -, rfl, -, hdone⟩ := replayUndo_first_flush hflushes
  have htodo : todo ≠ [] := by
    rintro rfl
    have hall := congrArg length hrows
    simp only [length_reverse, append_nil, undoRollbackFlushEvery] at hall hdone
    omega
  refine ⟨f, _, hrun.trans hflushes, replayUndo_flushes_ne_nil ?_ htodo,
    (rollbackViaUndoLog_resumable hspare (.single ⟨1, by rw [hrun, hflushes]; rfl⟩)).2⟩
  exact fun row hrow => hreplay row (by rw [hrows]; exact mem_append_right _ hrow)

/-! ## A log that rewrites itself -/

/-- An entry whose pre-image is a row of the undo log: another entry, of the same block. -/
def selfTargetingLog : DomainStore :=
  let inner : UndoLogEntry := .keyMutation .domain "stats_chain" [1] (some [7])
  let outer : UndoLogEntry := .keyMutation .domain "reorg_undo_log_by_block"
    (encodeReorgUndoLogKey 1 5) (some (serialize inner))
  empty.write [.put .reorgUndoLogByBlock (encodeReorgUndoLogKey 1 0) (serialize outer)]

/-- Restoring that entry adds a row to the log that the same run never reads. A run killed after
its flush leaves it behind, and the rerun replays it. -/
theorem selfTargetingLog_not_resumable :
    ∃ t, Relation.ReflTransGen (InterruptedRollback 0) selfTargetingLog t ∧
      (rollbackViaUndoLog t 0).2.isOk ∧ (rollbackViaUndoLog selfTargetingLog 0).2.isOk ∧
      (rollbackViaUndoLog t 0).1 ≠ (rollbackViaUndoLog selfTargetingLog 0).1 := by
  refine ⟨((rollbackRun selfTargetingLog 0).flushes.take 1).foldl write
    selfTargetingLog, .single ⟨1, rfl⟩, by decide +kernel, by decide +kernel, fun heq => ?_⟩
  have hrow := congrArg (fun s => s.get .statsChain [1]) heq
  exact absurd hrow (by decide +kernel)

end Ckbadger.Store
