/-
Ckbadger.Sync.CellPayloads — the cell rows and the cell payloads across crashes.

The domain store and the append-only store are two databases with a log each. A live
batch first writes its payloads, makes them durable and only then commits its rows; a
rollback writes rows and never touches a payload. A host crash leaves a prefix of either
log, the append-only one with its durable part. Every row of every state the domain
store can be found in has its payload in the durable part of the append-only store.

A payload holds the token amount, and whether an output of an unregistered script has one
is read from the token's row. The label import rewrites that row at each start, so an
output that is indexed again may be read differently, and its batch is then refused.
-/
import Ckbadger.Lib.DurableLog
import Ckbadger.Writer.Cells

namespace Ckbadger.Sync

open Lib Store Writer DurableLog List

/-! ## Rolling the cell rows back -/

/-- What the undo log keeps of a transaction for rolling back its cells. -/
structure TxContext where
  txHash : Bytes
  outputsCount : Int
  inputs : List ParsedInput
  deriving DecidableEq

/-- The scan of the live markers: a cell created after the rollback point goes. -/
def dropLiveCell (payloads : CellPayloads) (rollbackTo : Int) (marker : OutPoint × Int) :
    Except String (List CellOp) := do
  let _ ← required "missing canonical cell for live outpoint during rollback fallback"
    payloads[marker.1]?
  return if marker.2 > rollbackTo then [.deleteCell marker.1] else []

/-- The scan of the spent cells: one spent after the rollback point is live again if it is older
than that point, and ceases to exist otherwise. -/
def restoreConsumedCell (payloads : CellPayloads) (rollbackTo : Int)
    (entry : OutPoint × ConsumedCellMeta) : Except String (List CellOp) :=
  if entry.2.consumedAtBlock ≤ rollbackTo then return []
  else do
    let _ ← required "missing canonical cell for consumed outpoint during rollback fallback"
      payloads[entry.1]?
    return .deleteConsumedCell entry.1 ::
      (if entry.2.createdAtBlock ≤ rollbackTo then
        [.putLiveCellMarker entry.1 entry.2.createdAtBlock] else [])

/-- The rollback of the cell rows by full scans. -/
def rollbackCellsByScan (payloads : CellPayloads) (rows : CellRows) (rollbackTo : Int) :
    Except String (List CellOp) := do
  let dropped ← rows.live.toList.mapM (dropLiveCell payloads rollbackTo)
  let restored ← rows.consumed.toList.mapM (restoreConsumedCell payloads rollbackTo)
  return dropped.flatten ++ restored.flatten

/-- One output of a rolled-back transaction. -/
def rollbackOutput (payloads : CellPayloads) (rows : CellRows) (place : OutPoint) :
    Except String (List CellOp) :=
  if rows.live.contains place then do
    let _ ← required "missing canonical cell for live tx output during rollback" payloads[place]?
    return [.deleteCell place, .deleteConsumedCell place]
  else return [.deleteConsumedCell place]

/-- One input of a rolled-back transaction. -/
def rollbackInput (payloads : CellPayloads) (rows : CellRows) (rollbackTo : Int) (txHash : Bytes)
    (input : ParsedInput) : Except String (List CellOp) :=
  let place : OutPoint := ⟨input.previousTxHash, input.previousOutputIndex⟩
  if input.previousOutputIndex < 0 then do
    -- the input of a cellbase names no cell
    ensure (input.previousOutputIndex = -1 ∧ input.previousTxHash.all (· = 0))
      "invalid negative tx-context input output_index during rollback"
    return []
  else
    match rows.consumed[place]? with
    | some row => do
        let _ ← required "missing canonical cell for consumed outpoint" payloads[place]?
        ensure (rollbackTo < row.consumedAtBlock)
          "invalid tx-context consumed block during rollback"
        ensure (∀ tx ∈ row.consumedByTx, tx = txHash)
          "tx-context consumed_by_tx mismatch during rollback"
        return .deleteConsumedCell place ::
          (if row.createdAtBlock ≤ rollbackTo then
            [.putLiveCellMarker place row.createdAtBlock] else [])
    | none => do
        ensure (rows.live.contains place = true)
          "missing consumed/live input during tx-context rollback"
        return []

/-- The cells of one rolled-back transaction. -/
def rollbackTxContext (payloads : CellPayloads) (rows : CellRows) (rollbackTo : Int)
    (ctx : TxContext) : Except String (List CellOp) := do
  ensure (ctx.txHash.length = 32) "invalid tx-context hash length during rollback"
  ensure (0 ≤ ctx.outputsCount) "invalid tx-context outputs_count during rollback"
  ensure (ctx.outputsCount ≤ 2 ^ 15) "tx-context output index exceeds i16 during rollback"
  ensure (∀ input ∈ ctx.inputs, input.previousTxHash.length = 32)
    "invalid tx-context input hash length during rollback"
  let outputs ← (List.range ctx.outputsCount.toNat).mapM fun index : Nat =>
    rollbackOutput payloads rows ⟨ctx.txHash, index⟩
  let inputs ← ctx.inputs.mapM (rollbackInput payloads rows rollbackTo ctx.txHash)
  return outputs.flatten ++ inputs.flatten

/-- The rollback of the cell rows by the undo log's transactions, newest first. -/
def rollbackCellsFromTxContext (payloads : CellPayloads) (rows : CellRows) (rollbackTo : Int)
    (ctxs : List TxContext) : Except String (List CellOp) := do
  let ops ← ctxs.mapM (rollbackTxContext payloads rows rollbackTo)
  return ops.flatten

/-! ## The two databases -/

/-- How far the process is. -/
inductive CommitPhase where
  /-- The labels are imported; nothing is parsed yet. -/
  | starting
  | idle
  /-- The payloads are written, the fsync has not returned; the rows wait. -/
  | payloadsWritten (rows : List CellOp)
  /-- The payloads are durable, or there are none; the rows wait. -/
  | payloadsSynced (rows : List CellOp)

structure CellStores where
  domain : DurableLog (List CellOp)
  appendOnly : DurableLog (List (OutPoint × LiveCellInfo))
  phase : CommitPhase
  /-- The length of the domain log when the labels were imported. -/
  started : Nat

/-- The cell rows after a domain log. -/
def rowsAfter (batches : List (List CellOp)) : CellRows := batches.foldl CellRows.write .empty

/-- The payloads after an append-only log. -/
def payloadsAfter (batches : List (List (OutPoint × LiveCellInfo))) : CellPayloads :=
  batches.foldl putAll ∅

namespace CellStores

def empty : CellStores := ⟨.empty, .empty, .starting, 0⟩

def rows (s : CellStores) : CellRows := rowsAfter s.domain.batches

def payloads (s : CellStores) : CellPayloads := payloadsAfter s.appendOnly.batches

/-- What the parser may have read of the token rows for a batch. It runs ahead of the writer and
looks up one type after another, so each standard is that of some state since the start. -/
def MayRead (s : CellStores) (hints : UdtHints) : Prop :=
  ∀ typeHash, ∃ p, p <+: s.domain.batches ∧ s.started ≤ p.length ∧
    hints.standardOf typeHash = (rowsAfter p).standards[typeHash]?

end CellStores

/-- A token write of a live batch: a stored row keeps its standard, a new one has that of the
transfer that creates it. -/
def WritesToken (rows : CellRows) (op : CellOp) : Prop :=
  ∃ typeHash standard, op = .putToken typeHash standard ∧
    (rows.standards[typeHash]? = some standard ∨
      rows.standards[typeHash]? = none ∧ ∃ udt : Parser.UdtStandard, standard = udt.asStr)

/-- A token write of an undo replay: the row goes, or is again what it once was. -/
def RestoresToken (batches : List (List CellOp)) (op : CellOp) : Prop :=
  ∃ typeHash, op = .deleteToken typeHash ∨ ∃ standard p, op = .putToken typeHash standard ∧
    p <+: batches ∧ (rowsAfter p).standards[typeHash]? = some standard

/-- What is indexed: the network's token scripts, the standards that the batches of the run read
for a type, and the outputs that each transaction hash stands for. -/
structure IndexedChain where
  scripts : Parser.UdtScripts
  labels : Bytes → Option String → Prop
  outputsOf : Bytes → List Parser.ParsedCell

/-- The transactions of a batch of a valid chain, as far as their outputs go: told apart by their
hashes, each with the outputs its hash stands for, at most `2^15` of them. -/
structure HashedTxs (chain : IndexedChain) (txs : List CellTx) : Prop where
  hashes : (txs.map CellTx.hash).Nodup
  outputs : ∀ t ∈ txs, t.cells = chain.outputsOf t.hash
  small : ∀ t ∈ txs, t.cells.length ≤ 2 ^ 15

/-- The hints of a batch: the network's token scripts, and for each type one of the standards that
the batches of the run read. -/
structure Reads (chain : IndexedChain) (hints : UdtHints) : Prop where
  scripts_eq : hints.scripts = chain.scripts
  standard : ∀ typeHash, chain.labels typeHash (hints.standardOf typeHash)

section Step

variable (chain : IndexedChain)

/-- What the indexer, the disk and a crash can do to the two databases. -/
inductive CellStores.Step : CellStores → CellStores → Prop
  /-- The label import of a start writes one token row. -/
  | importLabel {s : CellStores} {typeHash : Bytes} {standard : String}
      (hstarting : s.phase = .starting) :
      Step s { s with domain := s.domain.write [.putToken typeHash standard] }
  /-- The parser and the writer start. -/
  | startIndexer {s : CellStores} (hstarting : s.phase = .starting) :
      Step s { s with phase := .idle, started := s.domain.batches.length }
  /-- A live batch writes its payloads. -/
  | writePayloads {s : CellStores} {hints : UdtHints} {txs : List CellTx}
      {ops : List (AppendBatchOp OutPoint LiveCellInfo)} {rows : List CellOp}
      {puts : List (OutPoint × LiveCellInfo)} (hidle : s.phase = .idle)
      (hread : s.MayRead hints) (hhints : Reads chain hints)
      (htxs : HashedTxs chain txs)
      (hstage : stageCells hints s.payloads s.rows txs = .ok (ops, rows)) (hops : ops ≠ [])
      (hcommit : commitInner false s.payloads ops = .ok puts) :
      Step s { s with appendOnly := s.appendOnly.write puts, phase := .payloadsWritten rows }
  /-- A live batch without outputs has no payloads to write. -/
  | skipPayloads {s : CellStores} {hints : UdtHints} {txs : List CellTx} {rows : List CellOp}
      (hidle : s.phase = .idle) (htxs : HashedTxs chain txs)
      (hstage : stageCells hints s.payloads s.rows txs = .ok ([], rows)) :
      Step s { s with phase := .payloadsSynced rows }
  /-- The fsync of the payloads returns. -/
  | syncPayloads {s : CellStores} {rows : List CellOp} (hphase : s.phase = .payloadsWritten rows) :
      Step s { s with appendOnly := s.appendOnly.sync, phase := .payloadsSynced rows }
  /-- The batch's rows are committed, without an fsync. -/
  | commitRows {s : CellStores} {rows tokens : List CellOp}
      (hphase : s.phase = .payloadsSynced rows) (htokens : ∀ op ∈ tokens, WritesToken s.rows op) :
      Step s { s with domain := s.domain.write (rows ++ tokens), phase := .idle }
  /-- The final batch of a rollback that scans the cell rows. -/
  | rollbackByScan {s : CellStores} {rollbackTo : Int} {ops : List CellOp}
      (hidle : s.phase = .idle)
      (hrollback : rollbackCellsByScan s.payloads s.rows rollbackTo = .ok ops) :
      Step s { s with domain := s.domain.write ops }
  /-- The final batch of a rollback that has the undo log's transactions. -/
  | rollbackFromTxContext {s : CellStores} {rollbackTo : Int} {ctxs : List TxContext}
      {ops : List CellOp} (hidle : s.phase = .idle)
      (hrollback : rollbackCellsFromTxContext s.payloads s.rows rollbackTo ctxs = .ok ops) :
      Step s { s with domain := s.domain.write ops }
  /-- A flush of the undo replay of a rollback. -/
  | replayUndo {s : CellStores} {tokens : List CellOp} (hidle : s.phase = .idle)
      (htokens : ∀ op ∈ tokens, RestoresToken s.domain.batches op) :
      Step s { s with domain := s.domain.write tokens }
  /-- A domain batch without cell or token rows: a marker, a rollup. -/
  | writeOther {s : CellStores} : Step s { s with domain := s.domain.write [] }
  /-- The disk catches up with either log on its own. -/
  | flushDomain {s : CellStores} : Step s { s with domain := s.domain.sync }
  | flushAppendOnly {s : CellStores} : Step s { s with appendOnly := s.appendOnly.sync }
  /-- The host goes down and the process starts again on what the disks have. -/
  | crash {s : CellStores} {domain : DurableLog (List CellOp)}
      {appendOnly : DurableLog (List (OutPoint × LiveCellInfo))}
      (hdomain : s.domain.Recovers domain) (happend : s.appendOnly.Recovers appendOnly) :
      Step s ⟨domain, appendOnly, .starting, s.started⟩

/-- The states the two databases can be in, running or recovered. -/
def CellStores.Reachable : CellStores → Prop :=
  Relation.ReflTransGen (CellStores.Step chain) .empty

/-- Whatever standards the batches read for a type, they read one amount of each output. -/
def SameAmounts : Prop :=
  ∀ hints hints', Reads chain hints → Reads chain hints' →
    ∀ hash, ∀ cell ∈ chain.outputsOf hash,
      (buildLiveCellInfo hints cell).udtAmount = (buildLiveCellInfo hints' cell).udtAmount

end Step

/-! ## A rollback puts no row under a new place -/

section

variable {payloads : CellPayloads} {rows : CellRows} {rollbackTo : Int} {ops : List CellOp}

theorem puts_rollbackCellsByScan (h : rollbackCellsByScan payloads rows rollbackTo = .ok ops) :
    PutsOnly rows.Has ops := by
  simp only [rollbackCellsByScan, bind_eq_ok, return_eq_ok] at h
  obtain ⟨dropped, hdropped, restored, hrestored, rfl⟩ := h
  refine putsOnly_append.mpr ⟨putsOnly_mapM hdropped ?_, putsOnly_mapM hrestored ?_⟩
  · -- the scan of the live markers only deletes
    intro marker _ ops h
    simp only [dropLiveCell, bind_eq_ok, return_eq_ok] at h
    obtain ⟨-, -, rfl⟩ := h
    split <;> simp [CellOp.puts]
  · intro entry hentry ops h
    have hhas : rows.Has entry.1 :=
      .inr (by rw [Std.ExtTreeMap.mem_toList_iff_getElem?_eq_some.mp hentry]; rfl)
    unfold restoreConsumedCell at h
    split at h
    · cases h
      exact putsOnly_nil
    · simp only [bind_eq_ok, return_eq_ok] at h
      obtain ⟨-, -, rfl⟩ := h
      split <;> simp [CellOp.puts, hhas]

theorem puts_rollbackOutput {place : OutPoint} (h : rollbackOutput payloads rows place = .ok ops) :
    PutsOnly rows.Has ops := by
  unfold rollbackOutput at h
  split at h
  · simp only [bind_eq_ok, return_eq_ok] at h
    obtain ⟨-, -, rfl⟩ := h
    simp [CellOp.puts]
  · cases h
    simp [CellOp.puts]

theorem puts_rollbackInput {txHash : Bytes} {input : ParsedInput}
    (h : rollbackInput payloads rows rollbackTo txHash input = .ok ops) :
    PutsOnly rows.Has ops := by
  simp only [rollbackInput] at h
  split at h
  · simp only [bind_eq_ok, return_eq_ok] at h
    obtain ⟨-, -, rfl⟩ := h
    exact putsOnly_nil
  split at h
  · rename_i row hrow
    have hhas : rows.Has ⟨input.previousTxHash, input.previousOutputIndex⟩ :=
      .inr (by rw [hrow]; rfl)
    simp only [bind_eq_ok, return_eq_ok] at h
    obtain ⟨-, -, -, -, -, -, rfl⟩ := h
    split <;> simp [CellOp.puts, hhas]
  · simp only [bind_eq_ok, return_eq_ok] at h
    obtain ⟨-, -, rfl⟩ := h
    exact putsOnly_nil

theorem puts_rollbackCellsFromTxContext {ctxs : List TxContext}
    (h : rollbackCellsFromTxContext payloads rows rollbackTo ctxs = .ok ops) :
    PutsOnly rows.Has ops := by
  simp only [rollbackCellsFromTxContext, bind_eq_ok, return_eq_ok] at h
  obtain ⟨written, hwritten, rfl⟩ := h
  refine putsOnly_mapM hwritten fun ctx _ ops hctx => ?_
  simp only [rollbackTxContext, bind_eq_ok, return_eq_ok] at hctx
  obtain ⟨-, -, -, -, -, -, -, -, outputs, houtputs, inputs, hinputs, rfl⟩ := hctx
  exact putsOnly_append.mpr ⟨putsOnly_mapM houtputs fun _ _ _ => puts_rollbackOutput,
    putsOnly_mapM hinputs fun _ _ _ => puts_rollbackInput⟩

end

/-! ## Payloads only grow -/

theorem payloadsAfter_concat (batches : List (List (OutPoint × LiveCellInfo)))
    (puts : List (OutPoint × LiveCellInfo)) :
    payloadsAfter (batches ++ [puts]) = putAll (payloadsAfter batches) puts := by
  simp [payloadsAfter]

theorem isSome_putAll {payloads : CellPayloads} {puts : List (OutPoint × LiveCellInfo)}
    {place : OutPoint} (h : (payloads[place]?).isSome) :
    ((putAll payloads puts)[place]?).isSome := by
  rw [putAll, isSome_foldl_insert]
  exact .inr h

/-- Whether a place has a payload in a log. -/
def HasPayload (batches : List (List (OutPoint × LiveCellInfo))) (place : OutPoint) : Prop :=
  (payloadsAfter batches)[place]?.isSome

theorem HasPayload.mono {before after : List (List (OutPoint × LiveCellInfo))} {place : OutPoint}
    (h : HasPayload before place) (hle : before <+: after) : HasPayload after place := by
  obtain ⟨rest, rfl⟩ := hle
  induction rest using List.reverseRecOn with
  | nil => simpa using h
  | append_singleton rest puts ih =>
    rw [← append_assoc, HasPayload, payloadsAfter_concat]
    exact isSome_putAll ih

/-! ## The invariant -/

/-- A place is one of the outputs its transaction's hash stands for. -/
def IsOutput (chain : IndexedChain) (place : OutPoint) (cell : Parser.ParsedCell) : Prop :=
  ∃ index : Nat, place.index = index ∧ (chain.outputsOf place.txHash)[index]? = some cell

/-- Every payload is one built from its output. -/
def PayloadsBuilt (chain : IndexedChain) (payloads : CellPayloads) : Prop :=
  ∀ place v, payloads[place]? = some v → ∃ cell hints, IsOutput chain place cell ∧
    Reads chain hints ∧ v = buildLiveCellInfo hints cell

/-- The rows a writer has yet to commit put nothing under a place without a payload. -/
def CommitPhase.Covered (appendOnly : DurableLog (List (OutPoint × LiveCellInfo))) :
    CommitPhase → Prop
  | .starting => True
  | .idle => True
  | .payloadsWritten rows => PutsOnly (HasPayload appendOnly.batches) rows
  | .payloadsSynced rows => PutsOnly (HasPayload appendOnly.durable) rows

structure CellStores.Invariant (chain : IndexedChain) (s : CellStores) : Prop where
  /-- Every payload of every state the append-only store can be found in is built from its
      output. -/
  built : s.appendOnly.AtEveryPrefix fun p =>
    PayloadsBuilt chain (payloadsAfter p)
  /-- Every row of every state the domain store can be found in has a durable payload. -/
  covered : s.domain.AtEveryPrefix fun p => ∀ place, (rowsAfter p).Has place →
    HasPayload s.appendOnly.durable place
  pending : s.phase.Covered s.appendOnly

section

variable {chain : IndexedChain} {hints : UdtHints} {s t : CellStores} {place : OutPoint}
  {cell : Parser.ParsedCell}

/-- The outputs of a batch are those its hashes stand for. -/
theorem HashedTxs.isOutput {txs : List CellTx} (htxs : HashedTxs chain txs) {c : CreatedCell}
    (hc : c ∈ txs.flatMap CellTx.outputs) : IsOutput chain c.place c.cell := by
  obtain ⟨t, ht, hc⟩ := mem_flatMap.mp hc
  obtain ⟨index, hindex, rfl⟩ := mem_mapIdx.mp hc
  refine ⟨index, rfl, ?_⟩
  rw [← htxs.outputs t ht]
  exact getElem?_eq_getElem hindex

theorem IsOutput.unique {cell' : Parser.ParsedCell} (h : IsOutput chain place cell)
    (h' : IsOutput chain place cell') : cell = cell' := by
  obtain ⟨index, hindex, hcell⟩ := h
  obtain ⟨index', hindex', hcell'⟩ := h'
  obtain rfl : index = index' := Int.ofNat_inj.mp (hindex.symm.trans hindex')
  exact Option.some.inj (hcell.symm.trans hcell')

theorem IsOutput.mem (h : IsOutput chain place cell) : cell ∈ chain.outputsOf place.txHash := by
  obtain ⟨index, -, hcell⟩ := h
  exact mem_of_getElem? hcell

section Built

variable {payloads : CellPayloads} {txs : List CellTx}
  {ops : List (AppendBatchOp OutPoint LiveCellInfo)}
  (hbuilt : PayloadsBuilt chain payloads) (htxs : HashedTxs chain txs)
  (hops : ∀ op ∈ ops, ∃ c ∈ txs.flatMap CellTx.outputs,
    op = ⟨c.place, some (buildLiveCellInfo hints c.cell)⟩)

include hbuilt htxs hops

/-- **When a batch of distinct transactions is refused**: an output of it has a payload already,
with another amount. -/
theorem commitInner_isOk_of_built
    (hkeys : ops.map AppendBatchOp.key = (txs.flatMap CellTx.outputs).map CreatedCell.place) :
    (∃ puts, commitInner false payloads ops = .ok puts) ↔
      ∀ c ∈ txs.flatMap CellTx.outputs, ∀ info, payloads[c.place]? = some info →
        info.udtAmount = (buildLiveCellInfo hints c.cell).udtAmount := by
  rw [commitInner_isOk, hkeys, and_iff_right (nodup_places htxs.hashes)]
  constructor
  · intro hadmits c hc info hinfo
    have hkey : c.place ∈ ops.map AppendBatchOp.key := by
      rw [hkeys]
      exact mem_map_of_mem hc
    obtain ⟨op, hop, hplace⟩ := mem_map.mp hkey
    obtain ⟨v, hv, hsame⟩ := hadmits op hop
    obtain ⟨c', hc', rfl⟩ := hops op hop
    cases hv
    change c'.place = c.place at hplace
    rw [hsame info (by rw [← hinfo, ← hplace]),
      (htxs.isOutput hc').unique (hplace ▸ htxs.isOutput hc)]
  · intro hsame op hop
    obtain ⟨c, hc, rfl⟩ := hops op hop
    refine ⟨_, rfl, fun info hinfo => ?_⟩
    have hamount := hsame c hc info hinfo
    obtain ⟨cell, hints', hcell, -, rfl⟩ := hbuilt _ info hinfo
    obtain rfl := hcell.unique (htxs.isOutput hc)
    exact buildLiveCellInfo_congr hamount

/-- A committed batch of payloads keeps every payload built from its output. -/
theorem PayloadsBuilt.commit {puts : List (OutPoint × LiveCellInfo)}
    (hhints : Reads chain hints) (hcommit : commitInner false payloads ops = .ok puts) :
    PayloadsBuilt chain (putAll payloads puts) := by
  intro place v hv
  rcases (getElem?_commitInner hcommit place v).mp hv with hbefore | hmem
  · exact hbuilt place v hbefore
  · obtain ⟨c, hc, heq⟩ := hops _ hmem
    cases heq
    exact ⟨c.cell, hints, htxs.isOutput hc, hhints, rfl⟩

end Built

/-- A domain write that puts rows only under places with a durable payload. -/
theorem CellStores.Invariant.writeRows (h : s.Invariant chain)
    {ops : List CellOp} {phase : CommitPhase} (hphase : phase.Covered s.appendOnly)
    (hops : PutsOnly (fun place => s.rows.Has place ∨ HasPayload s.appendOnly.durable place) ops) :
    CellStores.Invariant chain { s with domain := s.domain.write ops, phase := phase } where
  built := h.built
  covered := by
    refine h.covered.write fun place hhas => ?_
    rw [rowsAfter, foldl_concat] at hhas
    rcases CellRows.has_write hops hhas with hhas | hhas | hpayload
    · exact h.covered.now place hhas
    · exact h.covered.now place hhas
    · exact hpayload
  pending := hphase

theorem CellStores.Invariant.syncAppendOnly (h : s.Invariant chain) {phase : CommitPhase}
    (hphase : phase.Covered s.appendOnly.sync) :
    CellStores.Invariant chain { s with appendOnly := s.appendOnly.sync, phase := phase } where
  built := h.built
  covered := by
    refine h.covered.imp fun p hp place hhas => ?_
    rw [durable_sync]
    exact (hp place hhas).mono s.appendOnly.durable_isPrefix
  pending := hphase

/-- **Every step keeps the invariant.** -/
theorem CellStores.Invariant.step (h : s.Invariant chain) (hstep : CellStores.Step chain s t) :
    t.Invariant chain := by
  have hpending := h.pending
  cases hstep with
  | importLabel hstarting => exact h.writeRows h.pending (by simp [CellOp.puts])
  | startIndexer hstarting => exact ⟨h.built, h.covered, trivial⟩
  | writePayloads hidle hread hhints htxs hstage hops hcommit =>
    obtain ⟨⟨-, hpayloads⟩, hputs⟩ := stageCells_eq_ok hstage
    refine ⟨h.built.write ?_, ?_, hputs.imp fun place hplace => ?_⟩
    · rw [payloadsAfter_concat]
      exact h.built.now.commit htxs hpayloads hhints hcommit
    · simpa using h.covered
    · rw [batches_write, HasPayload, payloadsAfter_concat]
      rcases hplace with hhas | ⟨v, hv⟩
      · exact isSome_putAll ((h.covered.now place hhas).mono s.appendOnly.durable_isPrefix)
      · exact Option.isSome_iff_exists.mpr ⟨v, (getElem?_commitInner hcommit place v).mpr (.inr hv)⟩
  | skipPayloads hidle htxs hstage =>
    refine ⟨h.built, h.covered, (stageCells_eq_ok hstage).2.imp fun place hplace => ?_⟩
    rcases hplace with hhas | ⟨v, hv⟩
    · exact h.covered.now place hhas
    · cases hv
  | syncPayloads hphase =>
    rw [hphase] at hpending
    refine h.syncAppendOnly (hpending.imp fun place hplace => ?_)
    rwa [durable_sync]
  | commitRows hphase htokens =>
    rw [hphase] at hpending
    refine h.writeRows trivial (putsOnly_append.mpr ⟨hpending.imp fun _ => .inr, ?_⟩)
    intro op hop place hplace
    obtain ⟨typeHash, standard, rfl, -⟩ := htokens op hop
    cases hplace
  | rollbackByScan hidle hrollback =>
    exact h.writeRows h.pending ((puts_rollbackCellsByScan hrollback).imp fun _ => .inl)
  | rollbackFromTxContext hidle hrollback =>
    exact h.writeRows h.pending ((puts_rollbackCellsFromTxContext hrollback).imp fun _ => .inl)
  | replayUndo hidle htokens =>
    refine h.writeRows h.pending fun op hop place hplace => ?_
    obtain ⟨typeHash, rfl | ⟨standard, p, rfl, -⟩⟩ := htokens op hop
    · cases hplace
    · cases hplace
  | writeOther => exact h.writeRows h.pending putsOnly_nil
  | flushDomain => exact ⟨h.built, h.covered, h.pending⟩
  | flushAppendOnly =>
    -- what was written is now durable
    refine h.syncAppendOnly ?_
    cases hphase : s.phase with
    | starting | idle => trivial
    | payloadsWritten rows =>
      rw [hphase] at hpending
      exact hpending
    | payloadsSynced rows =>
      rw [hphase] at hpending
      refine hpending.imp fun place hplace => ?_
      rw [durable_sync]
      exact hplace.mono s.appendOnly.durable_isPrefix
  | crash hdomain happend =>
    refine ⟨h.built.recovers happend, ?_, trivial⟩
    rw [happend.durable_eq]
    exact h.covered.recovers hdomain

theorem CellStores.Reachable.invariant (h : s.Reachable chain) : s.Invariant chain := by
  induction h with
  | refl =>
    refine ⟨.empty ?_, .empty ?_, trivial⟩
    · intro place v hv
      simp [payloadsAfter] at hv
    · intro place hhas
      exact absurd hhas (CellRows.not_has_empty place)
  | tail _ hstep ih => exact ih.step hstep

/-- **A committed cell always has its payload.** In every state the two databases can be in,
running or recovered, a place with a live or consumed row has a payload that was built from its
output. The payloads of a batch of distinct transactions are accepted exactly when the outputs
that earlier branches and lost batches have left a payload of are read with the same amount
again; so none is ever refused where the standards of a type all read one amount. -/
theorem committed_cells_have_payloads (h : s.Reachable chain) :
    (∀ place, s.rows.Has place → ∃ cell hints, IsOutput chain place cell ∧
      Reads chain hints ∧ s.payloads[place]? = some (buildLiveCellInfo hints cell)) ∧
    ∀ hints txs, HashedTxs chain txs → ∃ cells inserted, allCells txs = .ok cells ∧
      insertCellsBatch (buildBatchCellInfos hints cells) cells = .ok inserted ∧
      ((∃ puts, commitInner false s.payloads (inserted.map Prod.fst) = .ok puts) ↔
        ∀ c ∈ cells, ∀ info, s.payloads[c.place]? = some info →
          info.udtAmount = (buildLiveCellInfo hints c.cell).udtAmount) ∧
      (SameAmounts chain → Reads chain hints →
        ∃ puts, commitInner false s.payloads (inserted.map Prod.fst) = .ok puts) := by
  have hinv := h.invariant
  constructor
  · intro place hhas
    obtain ⟨v, hv⟩ := Option.isSome_iff_exists.mp
      ((hinv.covered.now place hhas).mono s.appendOnly.durable_isPrefix)
    obtain ⟨cell, hints, hcell, hhints, rfl⟩ := hinv.built.now place v hv
    exact ⟨cell, hints, hcell, hhints, hv⟩
  · intro hints txs htxs
    obtain ⟨inserted, hinserted⟩ := exists_insertCellsBatch (txs.flatMap CellTx.outputs) hints
    have haccepted := commitInner_isOk_of_built hinv.built.now htxs (fun op hop => by
        obtain ⟨staged, hstaged, rfl⟩ := mem_map.mp hop
        obtain ⟨c, hc, hpayload, -⟩ := mem_insertCellsBatch hinserted hstaged
        exact ⟨c, hc, hpayload⟩) (keys_insertCellsBatch hinserted)
    refine ⟨_, inserted, allCells_eq_ok.mpr ⟨htxs.small, rfl⟩, hinserted, haccepted, ?_⟩
    intro hsame hhints
    refine haccepted.mpr fun c hc info hinfo => ?_
    obtain ⟨cell, hints', hcell, hhints', rfl⟩ := hinv.built.now _ info hinfo
    obtain rfl := hcell.unique (htxs.isOutput hc)
    exact hsame hints' hints hhints' hhints _ c.cell hcell.mem

/-! A batch whose rows a crash has lost, and the same transaction indexed again in another
block, by a start without labels and by one that labels the output's type. -/

/-- An output of a script that is not registered, with data as long as an amount. -/
def typedCell : Parser.ParsedCell where
  capacity := 20000000000
  lockScriptHash := replicate 32 7
  lockCodeHash := replicate 32 8
  lockHashType := 1
  lockArgs := replicate 20 0
  typeScriptHash := some (replicate 32 5)
  typeCodeHash := some (replicate 32 6)
  typeHashType := some 1
  typeArgs := some []
  dataSize := 16
  data := 3 :: replicate 15 0
  dataHash := replicate 32 9

def typedTx (number : Int) : CellTx := ⟨number, replicate 32 1, true, [], [typedCell]⟩

def typedPlace : OutPoint := ⟨replicate 32 1, 0⟩

/-- Without token scripts; the batches read the given standards. -/
def typedChain (labels : Bytes → Option String → Prop) : IndexedChain :=
  ⟨⟨[], [], []⟩, labels, fun _ => [typedCell]⟩

/-- What a start with given token rows reads of them. -/
def hintsOf (standards : Std.ExtTreeMap Bytes String) : UdtHints :=
  ⟨⟨[], [], []⟩, (standards[·]?)⟩

def typedInfo (standards : Std.ExtTreeMap Bytes String) : LiveCellInfo :=
  buildLiveCellInfo (hintsOf standards) typedCell

/-- No batch of the run finds a token row. -/
def unlabelled : IndexedChain := typedChain fun _ standard => standard = none

/-- The stores after the crash: the payload is left over, its row is lost. -/
def orphanPayload : CellStores :=
  ⟨.empty, (empty.write [(typedPlace, typedInfo ∅)]).sync, .starting, 0⟩

/-- The stores after the transaction is indexed again, at block 2. -/
def indexedAgain : CellStores where
  domain := orphanPayload.domain.write [.putLiveCellMarker typedPlace 2]
  appendOnly := (orphanPayload.appendOnly.write []).sync
  phase := .idle
  started := 0

/-- The stores after a start that labels the output's type. -/
def relabelled : CellStores where
  domain := orphanPayload.domain.write [.putToken (replicate 32 5) "xudt_compatible"]
  appendOnly := orphanPayload.appendOnly
  phase := .idle
  started := 1

theorem hashedTxs_typedTx (labels : Bytes → Option String → Prop) (number : Int) :
    HashedTxs (typedChain labels) [typedTx number] where
  hashes := by simp
  outputs := by simp [typedTx, typedChain]
  small := by simp [typedTx]

/-- A batch reads the token rows as they are. -/
theorem mayRead_now (hstarted : s.started ≤ s.domain.batches.length) :
    s.MayRead (hintsOf s.rows.standards) :=
  fun _ => ⟨_, prefix_rfl, hstarted, rfl⟩

section

variable {labels : Bytes → Option String → Prop} (hnone : ∀ typeHash, labels typeHash none)

include hnone

theorem reads_unlabelled : Reads (typedChain labels) (hintsOf ∅) where
  scripts_eq := rfl
  standard typeHash := by simpa [hintsOf, typedChain] using hnone typeHash

theorem orphanPayload_reachable : orphanPayload.Reachable (typedChain labels) := by
  have hstage : stageCells (hintsOf ∅) ∅ .empty [typedTx 1]
      = .ok ([⟨typedPlace, some (typedInfo ∅)⟩], [.putLiveCellMarker typedPlace 1]) := by
    decide +kernel
  have hcommit : commitInner false ∅ [⟨typedPlace, some (typedInfo ∅)⟩]
      = .ok [(typedPlace, typedInfo ∅)] := by decide +kernel
  refine (((Relation.ReflTransGen.single (.startIndexer rfl)).tail (.writePayloads rfl
    (mayRead_now le_rfl) (reads_unlabelled hnone) (hashedTxs_typedTx _ 1) hstage (cons_ne_nil _ _)
    hcommit)).tail (.syncPayloads rfl)).tail ?_
  exact .crash ⟨prefix_rfl, rfl⟩ ⟨prefix_rfl, rfl⟩

end

theorem committed_cells_have_payloads_again :
    indexedAgain.Reachable unlabelled ∧
    (∃ cell hints, IsOutput unlabelled typedPlace cell ∧
      Reads unlabelled hints ∧
      indexedAgain.payloads[typedPlace]? = some (buildLiveCellInfo hints cell)) ∧
    ∃ cells inserted, allCells [typedTx 3] = .ok cells ∧
      insertCellsBatch (buildBatchCellInfos (hintsOf ∅) cells) cells = .ok inserted ∧
      ∃ puts, commitInner false indexedAgain.payloads (inserted.map Prod.fst) = .ok puts := by
  have hreads := @reads_unlabelled (fun _ standard => standard = none) fun _ => rfl
  have hreachable : indexedAgain.Reachable unlabelled := by
    have hstage : stageCells (hintsOf ∅) orphanPayload.payloads .empty [typedTx 2]
        = .ok ([⟨typedPlace, some (typedInfo ∅)⟩], [.putLiveCellMarker typedPlace 2]) := by
      decide +kernel
    have hcommit : commitInner false orphanPayload.payloads [⟨typedPlace, some (typedInfo ∅)⟩]
        = .ok [] := by decide +kernel
    have hleft := @orphanPayload_reachable (fun _ standard => standard = none) fun _ => rfl
    refine (((hleft.tail (.startIndexer rfl)).tail (.writePayloads rfl (mayRead_now le_rfl) hreads
      (hashedTxs_typedTx _ 2) hstage (cons_ne_nil _ _) hcommit)).tail (.syncPayloads rfl)).tail ?_
    exact @CellStores.Step.commitRows _ _ [.putLiveCellMarker typedPlace 2] [] rfl (by simp)
  have hsame : SameAmounts unlabelled := by
    intro hints hints' hhints hhints' hash cell hcell
    rw [mem_singleton.mp hcell]
    have hnone : hints.standardOf (replicate 32 5) = none := hhints.standard _
    have hnone' : hints'.standardOf (replicate 32 5) = none := hhints'.standard _
    simp only [buildLiveCellInfo, hhints.scripts_eq, hhints'.scripts_eq, typedCell,
      Option.bind_some, hnone, hnone']
  obtain ⟨hpayloads, haccepted⟩ := committed_cells_have_payloads hreachable
  obtain ⟨cells, inserted, hcells, hinserted, -, hstable⟩ :=
    haccepted (hintsOf ∅) _ (hashedTxs_typedTx _ 3)
  exact ⟨hreachable, hpayloads typedPlace (.inl (by decide +kernel)), cells, inserted, hcells,
    hinserted, hstable hsame hreads⟩

/-- A start that labels the type of a left-over payload refuses the batch that indexes its output
again. -/
theorem relabelled_output_refused :
    relabelled.Reachable (typedChain fun _ _ => True) ∧
      relabelled.MayRead (hintsOf relabelled.rows.standards) ∧
      HashedTxs (typedChain fun _ _ => True) [typedTx 2] ∧
      stageCells (hintsOf relabelled.rows.standards) relabelled.payloads relabelled.rows [typedTx 2]
        = .ok ([⟨typedPlace, some (typedInfo relabelled.rows.standards)⟩],
          [.putLiveCellMarker typedPlace 2]) ∧
      commitInner false relabelled.payloads
          [⟨typedPlace, some (typedInfo relabelled.rows.standards)⟩]
        = .error "append-only overwrite blocked: cf=cells" ∧
      (typedInfo ∅).udtAmount = none ∧ (typedInfo relabelled.rows.standards).udtAmount = some 3 := by
  refine ⟨?_, mayRead_now le_rfl, hashedTxs_typedTx _ 2, by decide +kernel, by decide +kernel,
    by decide +kernel, by decide +kernel⟩
  exact ((orphanPayload_reachable fun _ => trivial).tail (.importLabel rfl)).tail (.startIndexer rfl)

end

end Ckbadger.Sync
