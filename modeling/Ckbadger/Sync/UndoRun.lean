/-
Ckbadger.Sync.UndoRun — the coverage floor and the life of the undo log.

Every live batch records pre-images, advances the floor to the committed tip it builds on,
less the retained window, and prunes the `EntityStats` and `Derived` entries the floor
passes. A rollback below the floor is refused, others replay; the reset before a rollback
drops. Beside the store, a state keeps the tip and a ledger: the rows recorded so far that
no rollback has replayed or dropped.
-/
import Ckbadger.Store.SyncMeta
import Ckbadger.Sync.UndoSeq

namespace Ckbadger.Sync

open Lib Store UndoSeqScope WriteOp

/-! ## Retention -/

/-- `ENTITY_STATS_UNDO_RETAIN_BLOCKS`. -/
def entityStatsUndoRetainBlocks : Int := 1000

inductive RetentionError where
  | syncMeta (error : SyncMetaError)
  | undo (error : UndoError)
  deriving DecidableEq

section Retention

variable [Codec EntityStatsUndoContract]

/-- Stages the floor advance and the matching undo deletions. The floor never moves back: a
shorter chain after a rollback does not bring back entries already deleted. -/
def stageEntityStatsUndoRetention (s : DomainStore) (batch : DomainBatch) (committedTip : Int) :
    Except RetentionError (DomainBatch × Nat) :=
  match getEntityStatsUndoContract s with
  | .error e => .error (.syncMeta e)
  | .ok existing =>
    let currentFloor := (existing.map (·.coverageFloorBlock)).getD (-1)
    let targetFloor := committedTip - entityStatsUndoRetainBlocks
    if existing.isSome ∧ targetFloor ≤ currentFloor then
      .ok (batch, 0)
    else
      let effectiveFloor := max targetFloor currentFloor
      match pruneEntityStatsUndoBelow s batch currentFloor effectiveFloor with
      | .error e => .error (.undo e)
      | .ok (batch, pruned) =>
        .ok (putEntityStatsUndoContract batch
          ⟨entityStatsUndoContractVersion, effectiveFloor, committedTip⟩, pruned)

/-- Whether a rollback entry point may proceed on a store without a contract. -/
inductive ContractRequirement where
  | required | optionalOnFreshStore
  deriving DecidableEq

inductive CoverageError where
  | syncMeta (error : SyncMetaError)
  | noContract (context : String) (rollbackTarget : Int)
  | belowFloor (context : String) (rollbackTarget : Int) (contract : EntityStatsUndoContract)
  deriving DecidableEq

/-- Refuses any rollback that reaches below the coverage floor. -/
def ensureRollbackWithinEntityStatsCoverage (s : DomainStore) (rollbackTarget : Int)
    (requirement : ContractRequirement) (context : String) : Except CoverageError Unit :=
  match getEntityStatsUndoContract s, requirement with
  | .error e, _ => .error (.syncMeta e)
  | .ok none, .optionalOnFreshStore => .ok ()
  | .ok none, .required => .error (.noContract context rollbackTarget)
  | .ok (some contract), _ =>
    if rollbackTarget < contract.coverageFloorBlock then
      .error (.belowFloor context rollbackTarget contract)
    else .ok ()

end Retention

/-! ## What retention stages -/

/-- A key a prune may select: at or below the bound and of a pruned scope. -/
def Prunable (toBlock : Int) (key : Bytes) : Prop :=
  (decodeReorgUndoLogKey key).1 ≤ toBlock ∧
    (entityStats.owns (decodeReorgUndoLogKey key).2 ∨
      derived.owns (decodeReorgUndoLogKey key).2)

theorem pruneKeys_mem {toBlock : Int} {scan : List (Bytes × Bytes)} {keys : List Bytes}
    (h : pruneKeys toBlock scan = .ok keys) {key : Bytes} (hkey : key ∈ keys) :
    (∃ value, (key, value) ∈ scan) ∧ Prunable toBlock key := by
  induction scan generalizing keys with
  | nil => cases h; cases hkey
  | cons kv rest ih =>
    obtain ⟨k, value⟩ := kv
    simp only [pruneKeys] at h
    split at h
    · cases h
    split at h
    · cases h; cases hkey
    obtain ⟨tail, htail, hret⟩ := bind_eq_ok.mp h
    have hstep : key ∈ tail →
        (∃ value', (key, value') ∈ (k, value) :: rest) ∧ Prunable toBlock key := by
      intro hk
      obtain ⟨⟨v, hv⟩, hrest⟩ := ih htail hk
      exact ⟨⟨v, List.mem_cons_of_mem _ hv⟩, hrest⟩
    split at hret
    · rename_i howns
      cases hret
      rcases List.mem_cons.mp hkey with rfl | hk
      · exact ⟨⟨value, List.mem_cons_self⟩, by omega, by simpa using howns⟩
      · exact hstep hk
    · cases hret
      exact hstep hkey

section Theorems

variable [Codec EntityStatsUndoContract]

/-- The floor a batch that builds on `committedTip` leaves. -/
def floorAfter (s : DomainStore) (committedTip : Int) : Int :=
  max (committedTip - entityStatsUndoRetainBlocks) (coverageFloor s)

/-- What retention stages: the new floor, and deletions of pruned rows of the log. -/
structure Retention (s : DomainStore) (committedTip : Int) (ops : DomainBatch) : Prop where
  floor : ∀ t : DomainStore,
    t.get .syncMeta entityStatsUndoContractKey
      = rowAfter .syncMeta entityStatsUndoContractKey
          (s.get .syncMeta entityStatsUndoContractKey) ops →
    coverageFloor t = floorAfter s committedTip
  /-- A row of the log is left alone, or it is at or below the new floor, of a pruned scope. -/
  log : ∀ key v, rowAfter .reorgUndoLogByBlock key v ops = v ∨
    (rowAfter .reorgUndoLogByBlock key v ops = none ∧
      (decodeReorgUndoLogKey key).1 ≤ floorAfter s committedTip ∧
      (entityStats.owns (decodeReorgUndoLogKey key).2 ∨
        derived.owns (decodeReorgUndoLogKey key).2) ∧
      s.get .reorgUndoLogByBlock key ≠ none)
  frame : ∀ op ∈ ops, ∀ cf key, cf ≠ .reorgUndoLogByBlock →
    ¬ (cf = .syncMeta ∧ key = entityStatsUndoContractKey) → op.effect cf key = none

omit [Codec EntityStatsUndoContract] in
theorem rowAfter_deletes (keys : List Bytes) (key : Bytes) (v : Option Bytes) :
    rowAfter Cf.reorgUndoLogByBlock key v (keys.map (delete .reorgUndoLogByBlock))
      = if key ∈ keys then none else v := by
  induction keys generalizing v with
  | nil => simp
  | cons k keys ih =>
    rw [List.map_cons, rowAfter_cons, ih]
    by_cases hk : k = key
    · simp [hk, effect]
    · simp [effect, hk, Ne.symm hk]

omit [Codec EntityStatsUndoContract] in
/-- What a prune stages: deletions of rows at or below its bound. -/
theorem pruneEntityStatsUndoBelow_ok {s : DomainStore} {batch batch' : DomainBatch}
    {fromBlock toBlock : Int} {pruned : Nat}
    (h : pruneEntityStatsUndoBelow s batch fromBlock toBlock = .ok (batch', pruned)) :
    ∃ keys : List Bytes, batch' = batch ++ keys.map (delete .reorgUndoLogByBlock) ∧
      ∀ key ∈ keys, s.get .reorgUndoLogByBlock key ≠ none ∧ Prunable toBlock key := by
  simp only [pruneEntityStatsUndoBelow] at h
  split at h
  · cases h
    exact ⟨[], by simp, fun _ hk => by cases hk⟩
  · obtain ⟨keys, hkeys, hret⟩ := bind_eq_ok.mp h
    cases hret
    refine ⟨keys, rfl, fun key hkey => ?_⟩
    obtain ⟨⟨value, hmem⟩, hrest⟩ := pruneKeys_mem hkeys hkey
    have hget : s.get .reorgUndoLogByBlock key = some value := (mem_scanFrom.mp hmem).1
    exact ⟨by simp [hget], hrest⟩

theorem stageEntityStatsUndoRetention_ok {s : DomainStore} {batch batch' : DomainBatch}
    {committedTip : Int} {pruned : Nat}
    (h : stageEntityStatsUndoRetention s batch committedTip = .ok (batch', pruned)) :
    ∃ ops, batch' = batch ++ ops ∧ Retention s committedTip ops := by
  rcases hex : getEntityStatsUndoContract s with e | existing
  · simp only [stageEntityStatsUndoRetention, hex] at h
    cases h
  simp only [stageEntityStatsUndoRetention, hex] at h
  have hfloor : coverageFloor s = (existing.map (·.coverageFloorBlock)).getD (-1) := by
    rw [coverageFloor, hex]
  rw [← hfloor] at h
  split at h
  · -- the floor is already there: nothing is staged
    rename_i hsame
    cases h
    refine ⟨[], by simp, fun t ht => ?_, fun key v => .inl rfl, fun op hop => by cases hop⟩
    have hread : getEntityStatsUndoContract t = getEntityStatsUndoContract s :=
      getSyncMeta_congr ht
    rw [coverageFloor, hread, ← coverageFloor, floorAfter, max_eq_right hsame.2]
  · split at h
    · cases h
    rename_i batch₁ n hprune
    cases h
    obtain ⟨keys, rfl, hkeys⟩ := pruneEntityStatsUndoBelow_ok hprune
    refine ⟨keys.map (delete .reorgUndoLogByBlock) ++
      [.put .syncMeta entityStatsUndoContractKey (Codec.serialize
        (⟨entityStatsUndoContractVersion, floorAfter s committedTip, committedTip⟩ :
          EntityStatsUndoContract))],
      by simp [putEntityStatsUndoContract, floorAfter], fun t ht => ?_, fun key v => ?_,
      fun op hop cf key hlog hmeta => ?_⟩
    · rw [rowAfter_append, rowAfter_cons] at ht
      simp only [effect] at ht
      simp [coverageFloor, getEntityStatsUndoContract, getSyncMeta, ht]
    · rw [rowAfter_append, rowAfter_cons, rowAfter_deletes]
      by_cases hk : key ∈ keys
      · obtain ⟨hget, hle, howns⟩ := hkeys key hk
        exact .inr ⟨if_pos hk, hle, howns, hget⟩
      · exact .inl (if_neg hk)
    · rcases List.mem_append.mp hop with hop | hop
      · obtain ⟨k, -, rfl⟩ := List.mem_map.mp hop
        simp [effect, Ne.symm hlog]
      · rw [List.mem_singleton] at hop
        subst hop
        rw [effect, if_neg]
        rintro ⟨rfl, rfl⟩
        exact hmeta ⟨rfl, rfl⟩

end Theorems

/-! ## The life of the log -/

/-- Operations that touch neither the undo log nor the coverage contract. -/
def SparesLog (ops : DomainBatch) : Prop :=
  ∀ op ∈ ops, (∀ key, op.effect .reorgUndoLogByBlock key = none) ∧
    op.effect .syncMeta entityStatsUndoContractKey = none

/-- What writers record: pre-images of data rows, never of the undo log or of `sync_meta`. -/
def DataEntry : UndoLogEntry → Prop
  | .keyMutation .domain cfName _ _ =>
    ∃ cf, Cf.ofName? cfName = some cf ∧ cf ≠ .reorgUndoLogByBlock ∧ cf ≠ .syncMeta
  | _ => True

/-- Whether retention prunes the entries of a sequence number's scope. -/
def prunedScope (seq : Nat) : Bool :=
  entityStats.owns seq || derived.owns seq

/-- Whether the reset of the aggregates of `cfNames` before a rollback drops a row. -/
def droppedBy (cfNames : List String) (rollbackTo : Int) (row : UndoRow) : Bool :=
  rollbackTo < row.block && derived.owns row.seq && restoresIn cfNames row.entry

/-- The rows of the log that committed flushes replayed: a flush deletes each entry it restores. -/
def replayedKeys (flushes : List DomainBatch) : List Bytes :=
  flushes.flatten.filterMap fun
    | .delete cf key => if cf = .reorgUndoLogByBlock then some key else none
    | _ => none

/-- A store on which live sync starts at `tip`: a fresh store at `-1`, or a store bulk sync handed
over at its tip. No rollback below the tip is promised, and the log says nothing above it. -/
structure StartsLive [Codec EntityStatsUndoContract] (s : DomainStore) (tip : Int) : Prop where
  tip_ge : -1 ≤ tip
  floor : tip ≤ coverageFloor s
  log : ∀ key v, s.get .reorgUndoLogByBlock key = some v →
    ∃ block seq, key = encodeReorgUndoLogKey block seq ∧ IsBlock block ∧ seq < 2 ^ 64 ∧
      block ≤ tip

structure UndoState where
  store : DomainStore
  tip : Int
  ledger : List UndoRow

variable [Codec UndoLogEntry] [Codec EntityStatsUndoContract]

inductive UndoStep : UndoState → UndoState → Prop where
  /-- A live batch of any number of blocks above the tip, committed with its retention. -/
  | batch {s : DomainStore} {tip tip' : Int} {ledger : List UndoRow} (ops : DomainBatch)
      (rows : List UndoRow) {undoSeq : UndoSeqMap} {batch : DomainBatch} {pruned : Nat}
      (htip : tip < tip') (hmax : tip' < 2 ^ 63) (hops : SparesLog ops)
      (hdrawn : Drawn undoSeq rows) (hblocks : ∀ row ∈ rows, tip < row.block ∧ row.block ≤ tip')
      (hentries : ∀ row ∈ rows, DataEntry row.entry)
      (hretain : stageEntityStatsUndoRetention s (ops ++ rows.map UndoRow.op) tip
        = .ok (batch, pruned)) :
      UndoStep ⟨s, tip, ledger⟩ ⟨s.write batch, tip', ledger ++ rows⟩
  /-- A restart, background work, or the canonical stages of a rollback. -/
  | other {s : DomainStore} {tip : Int} {ledger : List UndoRow} (ops : DomainBatch)
      (hops : SparesLog ops) : UndoStep ⟨s, tip, ledger⟩ ⟨s.write ops, tip, ledger⟩
  /-- The reset of derived aggregates before a rollback, with the entries it drops. -/
  | reset {s : DomainStore} {tip rollbackTo : Int} {ledger : List UndoRow} (ops : DomainBatch)
      (cfNames : List String) {batch : DomainBatch} {dropped : Nat} (hR : -1 ≤ rollbackTo)
      (hops : SparesLog ops)
      (hdrop : stageDeleteDerivedUndoAbove s ops cfNames rollbackTo = .ok (batch, dropped)) :
      UndoStep ⟨s, tip, ledger⟩
        ⟨s.write batch, tip, ledger.filter fun row => !droppedBy cfNames rollbackTo row⟩
  /-- A completed rollback within the coverage. -/
  | rollback {s : DomainStore} {tip : Int} {ledger : List UndoRow} (rollbackTo : Int)
      (requirement : ContractRequirement) (context : String)
      (hcover : ensureRollbackWithinEntityStatsCoverage s rollbackTo requirement context = .ok ())
      (hdone : (rollbackViaUndoLog s rollbackTo).2.isOk) :
      UndoStep ⟨s, tip, ledger⟩ ⟨(rollbackViaUndoLog s rollbackTo).1, min tip rollbackTo,
        ledger.filter fun row => row.block ≤ rollbackTo⟩
  /-- A rollback that was killed after some of its flushes. -/
  | interrupted {s : DomainStore} {tip : Int} {ledger : List UndoRow} (rollbackTo : Int) (n : Nat)
      (requirement : ContractRequirement) (context : String)
      (hcover : ensureRollbackWithinEntityStatsCoverage s rollbackTo requirement context = .ok ()) :
      UndoStep ⟨s, tip, ledger⟩
        ⟨((rollbackRun s rollbackTo).flushes.take n).foldl OrderedStore.write s, tip,
          ledger.filter fun row =>
            row.key ∉ replayedKeys ((rollbackRun s rollbackTo).flushes.take n)⟩

end Ckbadger.Sync
