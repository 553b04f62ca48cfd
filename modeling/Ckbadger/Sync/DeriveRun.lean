/-
Ckbadger.Sync.DeriveRun — the life of the derived aggregates: live batches,
scheduler steps, restarts and rollbacks, in any order.

Beside the store and the rebuild in flight, a state keeps the tip and, for each
block, a store with the source rows at the end of that block. The steps are the
calls of the derivation code; of the other writers a step only says which rows
they leave alone.
-/
import Ckbadger.Derive.LiveTheorems
import Ckbadger.Sync.UndoRun

namespace Ckbadger.Sync

open Lib Store Derive

structure IndexerState where
  sched : SchedulerState
  tip : Int
  /-- A store with the source rows at the end of each block. -/
  history : Int → DomainStore

section Run

variable {Γ : Type} [Codec UndoLogEntry]

/-- What the other writers of a batch stage: any source rows, and the undo rows `rows`, none of
them about a derived row. -/
structure WriterBatch (R : Registry Γ) (ops : DomainBatch) (rows : List UndoRow) : Prop where
  log : ∀ key v, rowAfter .reorgUndoLogByBlock key v ops
    = rowAfter .reorgUndoLogByBlock key v (rows.map UndoRow.op)
  contract : ∀ v, rowAfter .syncMeta entityStatsUndoContractKey v ops = v
  derived : ∀ A ∈ R.aggregates, ∀ key v, rowAfter A.id.cf key v ops = v
  states : ∀ A ∈ R.aggregates, ∀ v, rowAfter .syncMeta (encodeDeriveMetaKey A.id.name) v ops = v
  entries : ∀ row ∈ rows, DataEntry row.entry ∧ UndoSeqScope.derived.owns row.seq = false ∧
    ∀ cf ∈ derivedCfs, ∀ key pre, row.entry ≠ .keyMutation .domain cf.name key pre

variable [Codec EntityStatsUndoContract] [Codec DeriveMeta] [Codec CachedBlockHeader]

/-- A committed live batch of any number of blocks, whose reported deltas are the changes of each
aggregate's value over its blocks. -/
inductive BatchStep (R : Registry Γ) : IndexerState → IndexerState → Prop where
  | mk {st : IndexerState} {tip' : Int} {history' : Int → DomainStore} {ops : DomainBatch}
      {rows : List UndoRow} {undoSeq undoSeq' : UndoSeqMap} (ctx : LiveDeriveCtx Γ) (nowMs : Int)
      {staged committed : DomainBatch} {pruned : Nat} (htip : st.tip < tip')
      (hmax : tip' < 2 ^ 63) (hwriter : WriterBatch R ops rows) (hdrawn : Drawn undoSeq rows)
      (hblocks : ∀ row ∈ rows, st.tip < row.block ∧ row.block ≤ tip')
      (hlive : applyLiveBatch st.sched.store R.registered ctx ops undoSeq nowMs
        = .ok (staged, undoSeq'))
      (hretain : stageEntityStatsUndoRetention st.sched.store staged st.tip
        = .ok (committed, pruned))
      (hcommitted : committedTip (st.sched.store.write committed) = .ok tip')
      (hpast : ∀ b ≤ st.tip, history' b = st.history b)
      (hnow : SameSource (history' tip') (st.sched.store.write committed))
      (hexact : ∀ A ∈ R.aggregates, ∀ deltas, A.liveDeltas ctx = .ok deltas →
        ExactDeltas deltas.entries st.tip tip' fun b => A.value (history' b)) :
      BatchStep R st ⟨⟨st.sched.store.write committed, st.sched.active⟩, tip', history'⟩

/-- A rollback within the coverage: the aggregates are prepared, the undo log is replayed, and the
canonical stages put the source rows back. -/
inductive RollbackStep (R : Registry Γ) : IndexerState → Int → IndexerState → Prop where
  | mk {st : IndexerState} (rollbackTo : Int) (requirement : ContractRequirement)
      (context : String) {prepared : DomainStore} {canonical : DomainBatch}
      (hcover : ensureRollbackWithinEntityStatsCoverage st.sched.store rollbackTo requirement
        context = .ok ())
      (hprepare : invalidateRegisteredForRollback st.sched.store R.registered rollbackTo
        = .ok prepared)
      (hdone : (rollbackViaUndoLog prepared rollbackTo).2.isOk)
      (hwriter : WriterBatch R canonical [])
      (hcommitted : committedTip ((rollbackViaUndoLog prepared rollbackTo).1.write canonical)
        = .ok (min st.tip rollbackTo))
      (hsource : SameSource (st.history (min st.tip rollbackTo))
        ((rollbackViaUndoLog prepared rollbackTo).1.write canonical)) :
      RollbackStep R st rollbackTo ⟨⟨(rollbackViaUndoLog prepared rollbackTo).1.write canonical,
        st.sched.active⟩, min st.tip rollbackTo, st.history⟩

inductive IndexerStep (R : Registry Γ) : IndexerState → IndexerState → Prop where
  | batch {st st' : IndexerState} (h : BatchStep R st st') : IndexerStep R st st'
  /-- A batch that live maintenance gave up: the process stops with what that left. -/
  | batchFailed {st : IndexerState} (ctx : LiveDeriveCtx Γ) (nowMs : Int) {ops : DomainBatch}
      {undoSeq : UndoSeqMap} {failure : LiveFailure}
      (hlive : applyLiveBatch st.sched.store R.registered ctx ops undoSeq nowMs = .error failure) :
      IndexerStep R st ⟨⟨failure.store, none⟩, st.tip, st.history⟩
  /-- One bounded unit of rebuild work, with any budget. -/
  | scheduler {st : IndexerState} (limits : StepLimits) :
      IndexerStep R st ⟨(step st.sched limits R.registered).1, st.tip, st.history⟩
  /-- A restart of the process. -/
  | restart {st : IndexerState} :
      IndexerStep R st
        ⟨(normalizeOnStartup ⟨st.sched.store, none⟩ R.registered).1, st.tip, st.history⟩
  | rollback {st st' : IndexerState} {rollbackTo : Int} (h : RollbackStep R st rollbackTo st') :
      IndexerStep R st st'

/-- A state derivation starts from: nothing is in flight, and no aggregate has rows of its current
version. -/
structure StartsDeriving (R : Registry Γ) (st : IndexerState) : Prop where
  active : st.sched.active = none
  committed : committedTip st.sched.store = .ok st.tip
  source : SameSource (st.history st.tip) st.sched.store
  underived : ∀ A ∈ R.aggregates,
    (∃ m, getDeriveMeta st.sched.store A.id.name = .ok m ∧
      ∀ m', m = some m' → m'.version ≠ A.id.version) ∧
    ∀ key, st.sched.store.get A.id.cf key ≠ none → compare key derivedClearEnd = .lt

end Run

end Ckbadger.Sync
