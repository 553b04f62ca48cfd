/-
Ckbadger.Bulk.LiveSet — what the live-cell tables are for: the set of unspent cells
of a chain, each with the facts of the output that created it.

A transaction takes its inputs out of the set and puts its outputs in. Nothing here
depends on arenas: a chain is a list of blocks, however it is cut.
-/
import Ckbadger.Bulk.Sequencer
import Ckbadger.Lib.Runs

namespace Ckbadger.Bulk

open Lib Sync FinMap

/-! ## Chains -/

/-- A transaction with its outputs. -/
structure ChainTx where
  tx : TxFacts
  outputs : List CellFacts
  deriving DecidableEq

structure ChainBlock where
  number : Int
  hash : Bytes
  txs : List ChainTx
  deriving DecidableEq

/-- The outpoints a transaction spends: a cellbase spends none. -/
def ChainTx.inputs (t : ChainTx) : List OutPointKey :=
  if t.tx.isCellbase then [] else t.tx.inputOutpoints

/-- A transaction of an arena with the outputs its range covers. -/
def FactsArena.chainTx (arena : FactsArena) (tx : TxFacts) : ChainTx :=
  ⟨tx, (tx.outputRange.get? arena.cells).getD []⟩

/-- A block of an arena with the transactions its range covers. -/
def FactsArena.chainBlock (arena : FactsArena) (block : BlockFacts) : ChainBlock :=
  ⟨block.number, block.hash, ((block.txRange.get? arena.txs).getD []).map arena.chainTx⟩

/-- The blocks of an arena. -/
def FactsArena.chain (arena : FactsArena) : List ChainBlock := arena.blocks.map arena.chainBlock

/-- The outpoints a chain creates, in order. -/
def createdOutpoints (chain : List ChainBlock) : List OutPointKey :=
  (chain.flatMap ChainBlock.txs).flatMap fun t => t.outputs.map CellFacts.outpoint

/-- The outpoints a chain spends, in order. -/
def consumedOutpoints (chain : List ChainBlock) : List OutPointKey :=
  (chain.flatMap ChainBlock.txs).flatMap ChainTx.inputs

/-! ## The live set -/

/-- A live cell: the facts of its output, and the compensation values of a withdraw request. -/
structure LiveCell where
  cell : CellFacts
  ars : Option DaoCompensationArs
  deriving DecidableEq

abbrev LiveSet := FinMap OutPointKey LiveCell

/-- The protocol facts a live cell carries: its own, but none for the extension args of an xUDT. -/
def LiveCell.protocolFacts (c : LiveCell) : Option CellProtocolFacts :=
  c.cell.protocolFacts.filter fun facts => !(facts matches .xudtExtensions _)

/-- What the transaction that spends a cell sees of it. -/
def LiveCell.resolved (c : LiveCell) : ResolvedInputFacts where
  outpoint := c.cell.outpoint
  createdAtBlock := c.cell.createdAtBlock
  createdByBlockDaoAr := c.cell.createdByBlockDaoAr
  capacity := c.cell.capacity
  occupiedCapacity := c.cell.occupiedCapacity
  udtAmount := c.cell.udtAmount
  lockScriptHashId := c.cell.lockScriptHashId
  lockCodeHashId := c.cell.lockCodeHashId
  lockHashType := c.cell.lockHashType
  lockArgsId := c.cell.lockArgsId
  typeScriptHashId := c.cell.typeScriptHashId
  typeCodeHashId := c.cell.typeCodeHashId
  typeHashType := c.cell.typeHashType
  typeArgsId := c.cell.typeArgsId
  dataSize := c.cell.dataSize
  dataHash := c.cell.dataHash
  semanticTag := c.cell.semanticTag
  daoState := c.cell.daoState
  daoCompensationArs := c.ars
  protocolFacts := c.protocolFacts

/-- The compensation values of an output: those of a withdraw request that has a deposit at its
own position among the inputs. -/
def ChainTx.compensation (m : LiveSet) (t : ChainTx) (position : Nat) (output : CellFacts) :
    Option DaoCompensationArs :=
  match (t.inputs[position]?).bind m.lookup with
  | none => none
  | some spent =>
    if isWithdrawRequest output ∧ spent.cell.daoState = some .deposit then
      some ⟨spent.cell.createdByBlockDaoAr, t.tx.blockDaoAr⟩
    else none

/-- The cells a transaction creates. -/
def ChainTx.created (m : LiveSet) (t : ChainTx) : List LiveCell :=
  t.outputs.mapIdx fun position output => ⟨output, t.compensation m position output⟩

/-- One transaction on the live set. -/
def applyTx (m : LiveSet) (t : ChainTx) : LiveSet :=
  insertAll (fun c => c.cell.outpoint) (eraseAll m t.inputs) (t.created m)

def applyBlock (m : LiveSet) (b : ChainBlock) : LiveSet := b.txs.foldl applyTx m

/-- The live set at the end of a chain. -/
def liveSet (chain : List ChainBlock) : LiveSet := chain.foldl applyBlock ∅

/-- A resolved transaction: its inputs carry, position by position, the facts of the live cells
they spend. -/
def TxResolved (m : LiveSet) (t : ChainTx) (r : ResolvedTxFacts) : Prop :=
  (r.txHash = t.tx.hash ∧ r.blockNumber = t.tx.blockNumber ∧ r.blockHash = t.tx.blockHash ∧
    r.timestampMs = t.tx.timestampMs ∧ r.chainTimeMs = t.tx.chainTimeMs ∧
    r.blockDaoAr = t.tx.blockDaoAr ∧ r.txIndex = t.tx.txIndex ∧
    r.dotbitAction = t.tx.dotbitAction ∧ r.cells = t.outputs) ∧
  ∃ spent : List LiveCell, t.inputs.map m.lookup = spent.map some ∧
    r.resolvedInputs = spent.map LiveCell.resolved

/-- The resolved transactions of a sequence that starts at a live set. -/
def TxsResolved : LiveSet → List ChainTx → List ResolvedTxFacts → Prop
  | _, [], rs => rs = []
  | m, t :: ts, rs => ∃ r rest, rs = r :: rest ∧ TxResolved m t r ∧ TxsResolved (applyTx m t) ts rest

/-! ## Counts -/

/-- The class of a cell. -/
def LiveCell.cls (c : LiveCell) : LiveCellSummaryClass :=
  if c.cell.semanticTag = .dao then .dao
  else if c.cell.typeScriptHashId.isSome then .typedNonDao else .plain

/-- The identities a cell refers to. -/
def CellFacts.references (cell : CellFacts) : List InternId :=
  [cell.lockScriptHashId, cell.lockCodeHashId, cell.lockArgsId] ++ cell.typeScriptHashId.toList ++
    cell.typeCodeHashId.toList ++ cell.typeArgsId.toList

/-- The number of live cells of a class. -/
def classCount (cls : LiveCellSummaryClass) (m : LiveSet) : Nat :=
  weight (fun _ c => if c.cls = cls then 1 else 0) m

/-- The number of live cells with data. -/
def dataBearingCount (m : LiveSet) : Nat :=
  weight (fun _ c => if 0 < c.cell.dataSize then 1 else 0) m

/-- The number of references to an identity from live cells. -/
def referenceCount (id : InternId) (m : LiveSet) : Nat :=
  weight (fun _ c => c.cell.references.count id) m

/-- The heap bytes of the protocol facts of live cells. -/
def liveHeapBytes (capacity : Nat → Nat) (m : LiveSet) : Nat :=
  weight (fun _ c => factsHeapBytes capacity (keptWhileLive c.cell.protocolFacts)) m

/-- The summary of a live set at the end of a block. -/
def summaryOf (m : LiveSet) (b : ChainBlock) : LiveCellSummary :=
  ⟨b.number, b.hash, classCount .dao m, classCount .typedNonDao m, classCount .plain m,
    dataBearingCount m⟩

/-- The summaries at the ends of the blocks of a chain that starts at a live set. -/
def blockSummaries : LiveSet → List ChainBlock → List LiveCellSummary
  | _, [] => []
  | m, b :: bs => summaryOf (applyBlock m b) b :: blockSummaries (applyBlock m b) bs

/-- The last summaries, as many as the window holds. -/
def summaryWindow (summaries : List LiveCellSummary) : List LiveCellSummary :=
  summaries.drop (summaries.length - liveCellSummaryHistoryBlocks)

/-! ## Validity -/

/-- The facts of an output are complete. -/
structure CellWellFormed (cell : CellFacts) : Prop where
  dataHash : cell.dataHash.isSome
  typeScript : cell.typeScriptHashId.isSome = cell.typeCodeHashId.isSome
  dao : cell.semanticTag = .dao → cell.typeScriptHashId.isSome
  dataSize : 0 ≤ cell.dataSize

/-- A transaction that a live set admits. -/
structure TxValid (m : LiveSet) (t : ChainTx) : Prop where
  inputs_nodup : t.inputs.Nodup
  inputs_live : ∀ o ∈ t.inputs, (m.lookup o).isSome
  inputs_length : t.inputs.length ≤ 2 ^ 31
  outputs_nodup : (t.outputs.map CellFacts.outpoint).Nodup
  outputs_fresh : ∀ cell ∈ t.outputs, (eraseAll m t.inputs).lookup cell.outpoint = none
  outputs_wellFormed : ∀ cell ∈ t.outputs, CellWellFormed cell
  /-- Beside a withdraw request, every deposit has its request at its own position. -/
  requests : t.outputs.any isWithdrawRequest → ∀ (i : Nat) (o : OutPointKey) (spent : LiveCell),
    t.inputs[i]? = some o → m.lookup o = some spent → spent.cell.daoState = some .deposit →
    ∃ output, t.outputs[i]? = some output ∧
      output.daoState = some (.withdrawRequest spent.cell.createdAtBlock)

/-- No machine counter over a live set overflows. -/
structure Fits (capacity : Nat → Nat) (m : LiveSet) : Prop where
  cells : weight (fun _ _ => 1) m < 2 ^ 64
  references : ∀ id, referenceCount id m < 2 ^ 32
  heapBytes : liveHeapBytes capacity m < 2 ^ 64

/-- A sequence of transactions that a live set admits, over `slots` identity slots. -/
abbrev TxsValid (capacity : Nat → Nat) (slots : Nat) : LiveSet → List ChainTx → Prop :=
  ValidRun applyTx fun m t => TxValid m t ∧ Fits capacity (applyTx m t) ∧
    ∀ cell ∈ t.outputs, ∀ id ∈ cell.references, id < slots

end Ckbadger.Bulk
