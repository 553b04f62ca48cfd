/-
Ckbadger.Bulk.LiveCells — the live-cell owner of the bulk build.

The table of live slots, the sparse extras, the protocol facts, their accounted
heap bytes and the summary counter move together. What lives in the tables is a
clone, whose buffers the allocator sizes by their length: `capacity`.
-/
import Ckbadger.Bulk.Facts
import Ckbadger.Lib.FiniteMap
import Ckbadger.Sync.LiveCellSummary

namespace Ckbadger.Bulk

open Lib Store Sync

/-! ## Slots -/

structure LiveCellSlot where
  createdAtBlock : Int
  createdByBlockDaoAr : Nat
  capacity : Int
  occupiedCapacity : Int
  dataSize : Int
  dataHash : Bytes
  lockScriptHashId : InternId
  lockCodeHashId : InternId
  lockHashType : Int
  lockArgsId : InternId
  typeScriptHashId : Option InternId
  typeCodeHashId : Option InternId
  typeHashType : Option Int
  typeArgsId : Option InternId
  semanticTag : CellSemanticTag
  deriving DecidableEq

structure LiveCellExtras where
  udtAmount : Option Nat := none
  daoState : Option DaoCellState := none
  daoCompensationArs : Option DaoCompensationArs := none
  deriving DecidableEq

/-- `LiveCellExtras::from_cell_facts`: nothing when every extra is absent. -/
def extrasFromCellFacts (cell : CellFacts) (ars : Option DaoCompensationArs) :
    Option LiveCellExtras :=
  if cell.udtAmount.isSome || cell.daoState.isSome || ars.isSome then
    some ⟨cell.udtAmount, cell.daoState, ars⟩
  else none

/-- `LiveCellSlot::from_cell_facts`. -/
def slotFromCellFacts (cell : CellFacts) : Except String LiveCellSlot :=
  match cell.dataHash with
  | none =>
    .error ("live cell is missing its canonical data hash: outpoint=" ++
      formatOutpoint cell.outpoint)
  | some dataHash =>
    .ok ⟨cell.createdAtBlock, cell.createdByBlockDaoAr, cell.capacity, cell.occupiedCapacity,
      cell.dataSize, dataHash, cell.lockScriptHashId, cell.lockCodeHashId, cell.lockHashType,
      cell.lockArgsId, cell.typeScriptHashId, cell.typeCodeHashId, cell.typeHashType,
      cell.typeArgsId, cell.semanticTag⟩

def LiveCellSlot.intoResolvedInputFacts (slot : LiveCellSlot) (outpoint : OutPointKey)
    (extras : LiveCellExtras) (protocolFacts : Option CellProtocolFacts) :
    ResolvedInputFacts where
  outpoint := outpoint
  createdAtBlock := slot.createdAtBlock
  createdByBlockDaoAr := slot.createdByBlockDaoAr
  capacity := slot.capacity
  occupiedCapacity := slot.occupiedCapacity
  udtAmount := extras.udtAmount
  lockScriptHashId := slot.lockScriptHashId
  lockCodeHashId := slot.lockCodeHashId
  lockHashType := slot.lockHashType
  lockArgsId := slot.lockArgsId
  typeScriptHashId := slot.typeScriptHashId
  typeCodeHashId := slot.typeCodeHashId
  typeHashType := slot.typeHashType
  typeArgsId := slot.typeArgsId
  dataSize := slot.dataSize
  dataHash := some slot.dataHash
  semanticTag := slot.semanticTag
  daoState := extras.daoState
  daoCompensationArs := extras.daoCompensationArs
  protocolFacts := protocolFacts

def liveCellSummaryProjection (slot : LiveCellSlot) (context : CellSummaryContext) :
    Except String LiveCellSummaryProjection :=
  projectionFromParts slot.typeScriptHashId.isSome slot.typeCodeHashId.isSome
    (slot.semanticTag = .dao) slot.dataSize context

/-! ## The owner -/

structure LiveCellOwner where
  live : FinMap OutPointKey LiveCellSlot := ∅
  extras : FinMap OutPointKey LiveCellExtras := ∅
  protocolFacts : FinMap OutPointKey CellProtocolFacts := ∅
  protocolHeapBytes : Nat := 0
  summary : LiveCellSummaryCounter := {}

structure ConsumeContext where
  blockNumber : Int
  txHash : Bytes
  txIndex : Int
  inputIndex : Int

section Owner

variable (capacity : Nat → Nat)

def stringBytes (value : Option String) : Nat :=
  (value.map fun value => capacity value.utf8ByteSize).getD 0

def vecBytes (value : Option Bytes) : Nat := (value.map fun value => capacity value.length).getD 0

/-- The heap bytes of a cell's protocol facts. -/
def protocolFactsHeapBytes : CellProtocolFacts → Nat
  | .spore _ contentType content _ => capacity contentType.utf8ByteSize + capacity content.length
  | .didCkb didId => capacity didId.length
  | .cluster _ name description => stringBytes capacity name + stringBytes capacity description
  | .mnftIssuer _ name info _ _ => stringBytes capacity name + vecBytes capacity info
  | .mnftClass classId _ name description renderer _ _ _ =>
    capacity classId.length + stringBytes capacity name + stringBytes capacity description +
      stringBytes capacity renderer
  | .mnftToken tokenId classId _ characteristic _ _ =>
    capacity tokenId.length + capacity classId.length + capacity characteristic.length
  | .dotbit _ account _ _ _ _ => stringBytes capacity account
  | .bitCell _ _ account _ => capacity account.utf8ByteSize
  | .dotCell name _ records =>
    capacity name.label.utf8ByteSize + (records.map fun record =>
      capacity record.key.utf8ByteSize + capacity record.label.utf8ByteSize +
        capacity record.value.length).sum
  | .xudtExtensions args => (args.map fun arg => capacity arg.length).sum

/-- The heap bytes of optional facts. -/
def factsHeapBytes (facts : Option CellProtocolFacts) : Nat :=
  (facts.map (protocolFactsHeapBytes capacity)).getD 0

/-- Inserts a value if there is one. -/
def insertSome {V : Type} (m : FinMap OutPointKey V) (outpoint : OutPointKey) :
    Option V → FinMap OutPointKey V
  | none => m
  | some v => m.insert outpoint v

/-- The text of a failed heap accounting: `overflow` with the bytes `added`, or `underflow` with
those `removed`. -/
def heapAccountingError (owner : LiveCellOwner) (outpoint : OutPointKey) (failure change : String)
    (bytes : Nat) : String :=
  "live protocol-facts heap accounting " ++ failure ++ ": outpoint=" ++ formatOutpoint outpoint ++
    " current_bytes=" ++ toString owner.protocolHeapBytes ++ " " ++ change ++ "_bytes=" ++
    toString bytes

/-- The text of a spend that finds no cell. -/
def missingLiveInput (outpoint : OutPointKey) (ctx : ConsumeContext) : String :=
  "missing live input: block=" ++ toString ctx.blockNumber ++ " tx=0x" ++ bytesToHex ctx.txHash ++
    " tx_index=" ++ toString ctx.txIndex ++ " input_index=" ++ toString ctx.inputIndex ++
    " outpoint=" ++ formatOutpoint outpoint

def insertCreated (owner : LiveCellOwner) (outpoint : OutPointKey) (slot : LiveCellSlot)
    (extras : Option LiveCellExtras) (protocolFacts : Option CellProtocolFacts) :
    Except String LiveCellOwner :=
  if (owner.live.lookup outpoint).isSome || (owner.extras.lookup outpoint).isSome ||
      (owner.protocolFacts.lookup outpoint).isSome then
    .error ("duplicate live output insertion: outpoint=" ++ formatOutpoint outpoint)
  else do
    let context : CellSummaryContext :=
      ⟨"birth", slot.createdAtBlock, outpoint.txHash, outpoint.index⟩
    let projection ← liveCellSummaryProjection slot context
    let summary ← owner.summary.afterBirth projection context
    let added := factsHeapBytes capacity protocolFacts
    let protocolHeapBytes ← checkedAddU64 owner.protocolHeapBytes added
      (heapAccountingError owner outpoint "overflow" "added" added)
    return {
      live := owner.live.insert outpoint slot
      extras := insertSome owner.extras outpoint extras
      protocolFacts := insertSome owner.protocolFacts outpoint protocolFacts
      protocolHeapBytes, summary }

def consume (owner : LiveCellOwner) (outpoint : OutPointKey) (ctx : ConsumeContext) :
    Except String (ResolvedInputFacts × LiveCellOwner) :=
  match owner.live.lookup outpoint with
  | none => .error (missingLiveInput outpoint ctx)
  | some slot => do
      let context : CellSummaryContext :=
        ⟨"spend", ctx.blockNumber, outpoint.txHash, outpoint.index⟩
      let projection ← liveCellSummaryProjection slot context
      let summary ← owner.summary.afterSpend projection context
      let facts := owner.protocolFacts.lookup outpoint
      let removed := factsHeapBytes capacity facts
      if owner.protocolHeapBytes < removed then
        .error (heapAccountingError owner outpoint "underflow" "removed" removed)
      else
        let extras := (owner.extras.lookup outpoint).getD {}
        return (slot.intoResolvedInputFacts outpoint extras facts, {
          live := owner.live.erase outpoint
          extras := owner.extras.erase outpoint
          protocolFacts := owner.protocolFacts.erase outpoint
          protocolHeapBytes := owner.protocolHeapBytes - removed
          summary })

/-! ## Calls -/

/-- A call on `&mut self`: what it has assigned stays, also when it fails. -/
abbrev OwnerM := EStateM String LiveCellOwner

/-- `insert_created`, assignment by assignment. -/
def insertCreatedM (outpoint : OutPointKey) (slot : LiveCellSlot) (extras : Option LiveCellExtras)
    (protocolFacts : Option CellProtocolFacts) : OwnerM Unit := do
  let owner ← get
  if (owner.live.lookup outpoint).isSome || (owner.extras.lookup outpoint).isSome ||
      (owner.protocolFacts.lookup outpoint).isSome then
    throw ("duplicate live output insertion: outpoint=" ++ formatOutpoint outpoint)
  let context : CellSummaryContext :=
    ⟨"birth", slot.createdAtBlock, outpoint.txHash, outpoint.index⟩
  let projection ← MonadExcept.ofExcept (liveCellSummaryProjection slot context)
  let summary ← MonadExcept.ofExcept (owner.summary.afterBirth projection context)
  let added := factsHeapBytes capacity protocolFacts
  let protocolHeapBytes ← MonadExcept.ofExcept (checkedAddU64 owner.protocolHeapBytes added
    (heapAccountingError owner outpoint "overflow" "added" added))
  modify fun owner => { owner with live := owner.live.insert outpoint slot }
  modify fun owner => { owner with extras := insertSome owner.extras outpoint extras }
  modify fun owner =>
    { owner with protocolFacts := insertSome owner.protocolFacts outpoint protocolFacts }
  modify fun owner => { owner with protocolHeapBytes }
  modify fun owner => { owner with summary }

/-- `consume`, assignment by assignment. -/
def consumeM (outpoint : OutPointKey) (ctx : ConsumeContext) : OwnerM ResolvedInputFacts := do
  let owner ← get
  let some slot := owner.live.lookup outpoint
    | throw (missingLiveInput outpoint ctx)
  let context : CellSummaryContext :=
    ⟨"spend", ctx.blockNumber, outpoint.txHash, outpoint.index⟩
  let projection ← MonadExcept.ofExcept (liveCellSummaryProjection slot context)
  let summary ← MonadExcept.ofExcept (owner.summary.afterSpend projection context)
  let facts := owner.protocolFacts.lookup outpoint
  let removed := factsHeapBytes capacity facts
  if owner.protocolHeapBytes < removed then
    throw (heapAccountingError owner outpoint "underflow" "removed" removed)
  modify fun owner => { owner with live := owner.live.erase outpoint }
  let extras := (owner.extras.lookup outpoint).getD {}
  modify fun owner => { owner with extras := owner.extras.erase outpoint }
  modify fun owner => { owner with protocolFacts := owner.protocolFacts.erase outpoint }
  modify fun owner => { owner with protocolHeapBytes := owner.protocolHeapBytes - removed }
  modify fun owner => { owner with summary }
  return slot.intoResolvedInputFacts outpoint extras facts

end Owner

end Ckbadger.Bulk
