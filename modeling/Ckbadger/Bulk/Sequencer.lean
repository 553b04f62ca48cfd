/-
Ckbadger.Bulk.Sequencer — the sequential stage of the bulk build.

An arena's transactions are taken in order: inputs are consumed from the live set
and outputs enter it, with the references to interned identities released and
retained beside them; at the end of each block a summary of the live set joins a
window of fixed length. An error ends the build, so the state it leaves is not
modelled.
-/
import Ckbadger.Bulk.LiveCells

namespace Ckbadger.Bulk

open Lib Store Sync

structure BulkSequencer where
  liveCells : LiveCellOwner := {}
  /-- The window of summaries, oldest first. -/
  liveCellSummaries : List LiveCellSummary := []

/-! ## The partition of an arena -/

/-- The checks on the ranges, counts and numbers of the blocks from one on. -/
def validateBlocks (txs : Nat) (expectedTxStart : Nat) (previousNumber : Option Int) :
    List BlockFacts → Except String Unit
  | [] =>
    if expectedTxStart ≠ txs then
      .error ("bulk sequencer block ranges do not cover all transactions: covered_txs=" ++
        toString expectedTxStart ++ " arena_txs=" ++ toString txs)
    else .ok ()
  | block :: blocks =>
    let range := block.txRange
    if range.start ≠ expectedTxStart ∨ range.stop ≤ range.start ∨ txs < range.stop then
      .error ("invalid bulk block transaction partition: block=" ++ toString block.number ++
        " range=" ++ toString range.start ++ ".." ++ toString range.stop ++ " expected_start=" ++
        toString expectedTxStart ++ " arena_txs=" ++ toString txs)
    else if block.transactionsCount < 0 then
      .error ("negative bulk block transaction count: block=" ++ toString block.number ++
        " transactions_count=" ++ toString block.transactionsCount)
    else if block.transactionsCount.toNat ≠ range.stop - range.start then
      .error ("bulk block transaction count/range mismatch: block=" ++ toString block.number ++
        " transactions_count=" ++ toString block.transactionsCount.toNat ++ " range_count=" ++
        toString (range.stop - range.start))
    else
      match previousNumber with
      | none => validateBlocks txs range.stop (some block.number) blocks
      | some previous =>
        if 2 ^ 63 ≤ previous + 1 then
          .error ("bulk live-cell summary block number overflow after block " ++ toString previous)
        else if block.number ≠ previous + 1 then
          .error ("non-contiguous bulk live-cell summary block sequence: previous_block=" ++
            toString previous ++ " expected_block=" ++ toString (previous + 1) ++
            " actual_block=" ++ toString block.number)
        else validateBlocks txs range.stop (some block.number) blocks

def validateBlockPartition (arena : FactsArena) (previousSummary : Option LiveCellSummary) :
    Except String Unit :=
  if arena.blocks.isEmpty then
    if arena.txs.isEmpty then .ok ()
    else .error ("bulk sequencer has transactions without blocks: txs=" ++
      toString arena.txs.length)
  else
    validateBlocks arena.txs.length 0 (previousSummary.map LiveCellSummary.tipBlockNumber)
      arena.blocks

/-! ## References to identities -/

/-- Retains an optional identity. -/
def retainSome (l : IdentityLiveness) : Option InternId → Except String IdentityLiveness
  | none => .ok l
  | some id => retain l id

/-- Releases an optional identity. -/
def releaseSome (l : IdentityLiveness) : Option InternId → Except String IdentityLiveness
  | none => .ok l
  | some id => release l id

def retainCellIdentities (l : IdentityLiveness) (cell : CellFacts) :
    Except String IdentityLiveness := do
  let l ← retain l cell.lockScriptHashId
  let l ← retain l cell.lockCodeHashId
  let l ← retain l cell.lockArgsId
  let l ← retainSome l cell.typeScriptHashId
  let l ← retainSome l cell.typeCodeHashId
  retainSome l cell.typeArgsId

def releaseInputIdentities (l : IdentityLiveness) (input : ResolvedInputFacts) :
    Except String IdentityLiveness := do
  let l ← release l input.lockScriptHashId
  let l ← release l input.lockCodeHashId
  let l ← release l input.lockArgsId
  let l ← releaseSome l input.typeScriptHashId
  let l ← releaseSome l input.typeCodeHashId
  releaseSome l input.typeArgsId

/-! ## Compensation of withdraw requests -/

/-- Rendering of a state that is no withdraw request, as the debug formatter writes it. -/
def debugDaoState : Option DaoCellState → String
  | none => "None"
  | some .deposit => "Some(Deposit)"
  | some (.withdrawRequest n) =>
    "Some(WithdrawRequest \x7b deposit_block_number: " ++ toString n ++ " \x7d)"

def isWithdrawRequest (cell : CellFacts) : Bool :=
  match cell.daoState with
  | some (.withdrawRequest _) => true
  | _ => false

/-- Where a transaction stands, in an error. -/
def TxFacts.place (tx : TxFacts) : String :=
  "block=" ++ toString tx.blockNumber ++ " tx=0x" ++ bytesToHex tx.hash ++ " tx_index=" ++
    toString tx.txIndex

/-- Matches deposits with the outputs at their positions, from one input on. -/
def matchDeposits (tx : TxFacts) (outputs : List CellFacts)
    (matched : List (Option DaoCompensationArs)) (inputIndex : Nat) :
    List ResolvedInputFacts → Except String (List (Option DaoCompensationArs))
  | [] => .ok matched
  | input :: inputs =>
    if input.daoState ≠ some .deposit then
      matchDeposits tx outputs matched (inputIndex + 1) inputs
    else
      match outputs[inputIndex]? with
      | none =>
        .error ("DAO deposit at input index " ++ toString inputIndex ++
          " has no corresponding output: " ++ tx.place)
      | some output =>
        match output.daoState with
        | some (.withdrawRequest depositBlockNumber) =>
          if depositBlockNumber ≠ input.createdAtBlock then
            .error ("DAO withdraw-request at output " ++ toString inputIndex ++
              " deposit_block mismatch: expected=" ++ toString input.createdAtBlock ++
              " actual=" ++ toString depositBlockNumber ++ " " ++ tx.place)
          else
            matchDeposits tx outputs
              (matched.set inputIndex (some ⟨input.createdByBlockDaoAr, tx.blockDaoAr⟩))
              (inputIndex + 1) inputs
        | state =>
          .error ("DAO deposit at input " ++ toString inputIndex ++
            " expected withdraw-request at same output position, found " ++
            debugDaoState state ++ ": " ++ tx.place)

/-- The compensation values of withdraw-request outputs. A deposit at an input position needs a
request at the same output position; the lock may change between the two. -/
def resolveRequestOutputArs (tx : TxFacts) (outputs : List CellFacts)
    (resolvedInputs : List ResolvedInputFacts) :
    Except String (List (Option DaoCompensationArs)) :=
  if !outputs.any isWithdrawRequest then .ok (List.replicate outputs.length none)
  else matchDeposits tx outputs (List.replicate outputs.length none) 0 resolvedInputs

/-! ## One transaction -/

/-- The live cells with the references to interned identities, if those are tracked. -/
structure LiveState where
  owner : LiveCellOwner := {}
  liveness : Option IdentityLiveness := none

section Resolve

variable (capacity : Nat → Nat)

/-- Consumes one input. -/
def consumeInput (tx : TxFacts) (st : LiveState) (inputPosition : Nat) (outpoint : OutPointKey) :
    Except String (ResolvedInputFacts × LiveState) :=
  if 2 ^ 31 ≤ inputPosition then
    .error ("input index exceeds i32: tx=0x" ++ bytesToHex tx.hash ++ " tx_index=" ++
      toString tx.txIndex ++ " input_index=" ++ toString inputPosition)
  else do
    let (resolved, owner) ← consume capacity st.owner outpoint
      ⟨tx.blockNumber, tx.hash, tx.txIndex, inputPosition⟩
    match st.liveness with
    | none => return (resolved, { st with owner })
    | some l =>
      let l ← withContext ("failed to release consumed live-cell identities: " ++ tx.place ++
        " input_index=" ++ toString inputPosition ++ " outpoint=" ++ formatOutpoint outpoint)
        (releaseInputIdentities l resolved)
      return (resolved, ⟨owner, some l⟩)

/-- Consumes the inputs from a position on. -/
def consumeInputs (tx : TxFacts) (st : LiveState) (inputPosition : Nat) :
    List OutPointKey → Except String (List ResolvedInputFacts × LiveState)
  | [] => .ok ([], st)
  | outpoint :: outpoints => do
      let (resolved, st) ← consumeInput capacity tx st inputPosition outpoint
      let (rest, st) ← consumeInputs tx st (inputPosition + 1) outpoints
      return (resolved :: rest, st)

/-- Retains the identities of an output, where they are tracked. -/
def retainOutput (tx : TxFacts) (cell : CellFacts) :
    Option IdentityLiveness → Except String (Option IdentityLiveness)
  | none => .ok none
  | some l =>
    (withContext ("failed to retain created live-cell identities: " ++ tx.place ++ " outpoint=" ++
      formatOutpoint cell.outpoint) (retainCellIdentities l cell)).map some

/-- Enters one output. -/
def createOutput (tx : TxFacts) (st : LiveState) :
    CellFacts × Option DaoCompensationArs → Except String LiveState
  | (cell, ars) => do
      let liveness ← retainOutput tx cell st.liveness
      let slot ← slotFromCellFacts cell
      let owner ← insertCreated capacity st.owner cell.outpoint slot (extrasFromCellFacts cell ars)
        (keptWhileLive cell.protocolFacts)
      return ⟨owner, liveness⟩

/-- One transaction: its inputs leave the live set, then its outputs enter it. -/
def resolveTx (arena : FactsArena) (block : BlockFacts) (st : LiveState) (tx : TxFacts) :
    Except String (ResolvedTxFacts × LiveState) :=
  if tx.blockNumber ≠ block.number ∨ tx.blockHash ≠ block.hash then
    .error ("bulk live-cell summary tx/block mismatch: block=" ++ toString block.number ++
      " block_hash=0x" ++ bytesToHex block.hash ++ " tx_block=" ++ toString tx.blockNumber ++
      " tx_block_hash=0x" ++ bytesToHex tx.blockHash ++ " tx=0x" ++ bytesToHex tx.hash ++
      " tx_index=" ++ toString tx.txIndex)
  else do
    let (resolvedInputs, st) ← consumeInputs capacity tx st 0
      (if tx.isCellbase then [] else tx.inputOutpoints)
    match tx.outputRange.get? arena.cells with
    | none =>
      .error ("tx output range out of bounds: " ++ tx.place ++ " output_start=" ++
        toString tx.outputRange.start ++ " output_end=" ++ toString tx.outputRange.stop ++
        " arena_cells=" ++ toString arena.cells.length)
    | some outputs =>
      let requestOutputArs ← resolveRequestOutputArs tx outputs resolvedInputs
      let st ← (outputs.zip requestOutputArs).foldlM (createOutput capacity tx) st
      return ({
        txHash := tx.hash
        blockNumber := tx.blockNumber
        blockHash := tx.blockHash
        timestampMs := tx.timestampMs
        chainTimeMs := tx.chainTimeMs
        blockDaoAr := tx.blockDaoAr
        txIndex := tx.txIndex
        dotbitAction := tx.dotbitAction
        resolvedInputs
        cells := outputs }, st)

/-! ## An arena -/

structure ResolveState where
  live : LiveState
  summaries : List LiveCellSummary
  nextBlockIndex : Nat := 0

/-- The end of a block: its summary joins the window, from which the oldest falls out when it is
full. -/
def finishBlock (block : BlockFacts) (st : ResolveState) : Except String ResolveState := do
  let summary ← st.live.owner.summary.snapshot block.number block.hash
  if liveCellSummaryHistoryBlocks < st.summaries.length then
    .error ("bulk live-cell summary window exceeded its fixed bound: len=" ++
      toString st.summaries.length ++ " bound=" ++ toString liveCellSummaryHistoryBlocks)
  else
    let window :=
      if st.summaries.length = liveCellSummaryHistoryBlocks then st.summaries.tail
      else st.summaries
    return { st with summaries := window ++ [summary], nextBlockIndex := st.nextBlockIndex + 1 }

/-- The transactions from a position on. -/
def resolveEach (arena : FactsArena) (st : ResolveState) (txPosition : Nat) :
    List TxFacts → Except String (List ResolvedTxFacts × ResolveState)
  | [] => .ok ([], st)
  | tx :: txs =>
    match arena.blocks[st.nextBlockIndex]? with
    | none =>
      .error ("bulk sequencer transaction is not covered by a block: tx_position=" ++
        toString txPosition ++ " blocks=" ++ toString arena.blocks.length)
    | some block => do
        let (resolved, live) ← resolveTx capacity arena block st.live tx
        let st := { st with live }
        let st ← if txPosition + 1 = block.txRange.stop then finishBlock block st else .ok st
        let (rest, st) ← resolveEach arena st (txPosition + 1) txs
        return (resolved :: rest, st)

/-- `resolve_inner`: the resolved transactions of an arena. `resolve` passes no liveness,
`resolve_with_liveness` its own. -/
def resolveInner (sequencer : BulkSequencer) (liveness : Option IdentityLiveness)
    (arena : FactsArena) :
    Except String (List ResolvedTxFacts × BulkSequencer × Option IdentityLiveness) := do
  validateBlockPartition arena sequencer.liveCellSummaries.getLast?
  let (resolved, st) ← resolveEach capacity arena
    ⟨⟨sequencer.liveCells, liveness⟩, sequencer.liveCellSummaries, 0⟩ 0 arena.txs
  if st.nextBlockIndex ≠ arena.blocks.length then
    .error ("bulk sequencer did not finalize every block summary: finalized_blocks=" ++
      toString st.nextBlockIndex ++ " arena_blocks=" ++ toString arena.blocks.length ++ " txs=" ++
      toString arena.txs.length)
  else return (resolved, ⟨st.live.owner, st.summaries⟩, st.live.liveness)

end Resolve

end Ckbadger.Bulk
