/-
Ckbadger.Writer.FiberDetector — the channel event of a transaction.

The detector scans a transaction's cells for Fiber locks, keeps the first funding and
the first commitment cell of each side, and names at most one lifecycle event, whose
data it writes into the action's metadata as text. The action builder runs it once for
every owner of the transaction and drops the copies.

Metadata is an object whose values are texts, numbers and arrays of texts. The `event`
entry repeats the action's name and is read by nothing here, so it is left out, as are
the hashes of the Fiber locks the summary collects.
-/
import Ckbadger.Lib.FixedHash
import Ckbadger.Lib.Fallible
import Ckbadger.Parser.Fiber

namespace Ckbadger.Writer

open Lib Ckbadger.Parser

/-! ## Cells and transactions -/

structure FiberOutPoint where
  txHash : Hash32
  index : UInt32
  deriving DecidableEq

inductive FiberLockType where
  | fundingLock
  | commitmentLock
  | other
  deriving DecidableEq

def classifyLock (codeHash : Bytes) : FiberLockType :=
  if isFundingLock codeHash then .fundingLock
  else if isCommitmentLock codeHash then .commitmentLock
  else .other

/-- A cell. Its capacity is an `i64`. -/
structure FiberCell where
  capacity : Int
  lockScriptHash : Hash32
  lockCodeHash : Bytes
  lockArgs : Bytes
  typeCodeHash : Option Bytes := none
  typeScriptHash : Option Bytes := none
  data : Bytes := []
  capacity_lt : capacity < 2 ^ 63 := by decide
  deriving DecidableEq

def FiberCell.lockType (c : FiberCell) : FiberLockType := classifyLock c.lockCodeHash

/-- A consumed cell and the place it was created at. -/
structure FiberInput where
  outpoint : FiberOutPoint
  cell : FiberCell
  deriving DecidableEq

/-- A transaction with its inputs resolved. Its outputs can be counted by a `u32`. -/
structure FiberTx where
  hash : Hash32
  blockNumber : Int
  timestamp : Int
  isCellbase : Bool := false
  inputs : List FiberInput
  outputs : List FiberCell
  outputs_length_le : outputs.length ≤ 2 ^ 32 := by decide
  deriving DecidableEq

/-! ## The summary of a transaction's cells -/

structure FundingUdt where
  typeScriptHash : Bytes
  amount : Nat
  deriving DecidableEq

structure FiberCellSummary where
  hasFundingInput : Bool := false
  hasFundingOutput : Bool := false
  hasCommitmentInput : Bool := false
  hasCommitmentOutput : Bool := false
  fundingOutputArgs : Option Bytes := none
  fundingOutputCapacity : Option Int := none
  fundingOutputIndex : Option Nat := none
  fundingOutputUdt : Option FundingUdt := none
  fundingInputArgs : Option Bytes := none
  fundingInputCapacity : Option Int := none
  fundingInputOutpoint : Option FiberOutPoint := none
  commitmentInputArgs : Option Bytes := none
  commitmentInputCapacity : Option Int := none
  commitmentOutputArgs : Option Bytes := none
  commitmentOutputIndex : Option UInt32 := none
  /-- The owners of the cells under other locks. -/
  participants : Std.ExtTreeSet Hash32 := ∅

def parseFundingUdt (cell : FiberCell) : Except String (Option FundingUdt) :=
  match cell.typeCodeHash with
  | none => .ok none
  | some _ =>
    match cell.typeScriptHash with
    | none => .error "fiber funding output carries a type script with no type_script_hash"
    | some typeScriptHash =>
      match parseFundingUdtAmount cell.data with
      | none => .error "fiber funding output carries a type script but its data cannot hold a 16-byte little-endian UDT amount"
      | some amount => .ok (some { typeScriptHash := typeScriptHash, amount := amount })

/-- An output's position as a `u32`. -/
def outputIndex (idx : Nat) (error : String) : Except String UInt32 :=
  if idx < 2 ^ 32 then .ok (UInt32.ofNat idx) else .error error

def FiberCellSummary.addInput (s : FiberCellSummary) (input : FiberInput) : FiberCellSummary :=
  match input.cell.lockType with
  | .fundingLock =>
    if s.fundingInputArgs.isNone then
      { s with
        hasFundingInput := true
        fundingInputArgs := some input.cell.lockArgs
        fundingInputCapacity := some input.cell.capacity
        fundingInputOutpoint := some input.outpoint }
    else { s with hasFundingInput := true }
  | .commitmentLock =>
    if s.commitmentInputArgs.isNone then
      { s with
        hasCommitmentInput := true
        commitmentInputArgs := some input.cell.lockArgs
        commitmentInputCapacity := some input.cell.capacity }
    else { s with hasCommitmentInput := true }
  | .other => { s with participants := s.participants.insert input.cell.lockScriptHash }

def FiberCellSummary.addOutput (s : FiberCellSummary) (output : FiberCell × Nat) :
    Except String FiberCellSummary :=
  match output.1.lockType with
  | .fundingLock =>
    if s.fundingOutputArgs.isNone then do
      let _ ← outputIndex output.2 "Fiber funding output_index exceeds u32 range"
      let udt ← parseFundingUdt output.1
      return { s with
        hasFundingOutput := true
        fundingOutputUdt := udt
        fundingOutputArgs := some output.1.lockArgs
        fundingOutputCapacity := some output.1.capacity
        fundingOutputIndex := some output.2 }
    else return { s with hasFundingOutput := true }
  | .commitmentLock =>
    if s.commitmentOutputArgs.isNone then do
      let index ← outputIndex output.2 "Fiber commitment output_index exceeds u32 range"
      return { s with
        hasCommitmentOutput := true
        commitmentOutputArgs := some output.1.lockArgs
        commitmentOutputIndex := some index }
    else return { s with hasCommitmentOutput := true }
  | .other => return { s with participants := s.participants.insert output.1.lockScriptHash }

def summarizeCells (tx : FiberTx) : Except String FiberCellSummary :=
  tx.outputs.zipIdx.foldlM FiberCellSummary.addOutput (tx.inputs.foldl FiberCellSummary.addInput {})

/-! ## The event -/

inductive FiberEvent where
  | channelOpen
  | channelClose
  | forceClose
  | settlement
  | commitmentRevocation
  deriving DecidableEq

/-- The event of a transaction with these kinds of cells. -/
def classifyCells (fundingInput fundingOutput commitmentInput commitmentOutput : Bool) :
    Option FiberEvent :=
  if fundingOutput && !fundingInput then some .channelOpen
  else if fundingInput && !commitmentOutput then some .channelClose
  else if fundingInput && commitmentOutput then some .forceClose
  else if commitmentInput && commitmentOutput then some .commitmentRevocation
  else if commitmentInput then some .settlement
  else none

def FiberCellSummary.classifyEvent (s : FiberCellSummary) : Option FiberEvent :=
  classifyCells s.hasFundingInput s.hasFundingOutput s.hasCommitmentInput s.hasCommitmentOutput

/-! ## Metadata -/

inductive Json where
  | str (text : Text)
  | num (n : Nat)
  | arr (elems : List Text)
  deriving DecidableEq

def Json.asStr? : Json → Option Text
  | .str text => some text
  | _ => none

def Json.asU64? : Json → Option Nat
  | .num n => some n
  | _ => none

def Json.asArray? : Json → Option (List Text)
  | .arr elems => some elems
  | _ => none

inductive MetadataKey where
  | channelOutpoint
  | capacity
  | fundingLockArgs
  | udtTypeHash
  | udtAmount
  | participants
  | commitmentLockArgs
  | commitmentOutputIndex
  | oldCommitmentLockArgs
  | newCommitmentLockArgs
  | newCommitmentOutputIndex
  deriving DecidableEq

abbrev Metadata := List (MetadataKey × Json)

/-- The name of a Fiber action: an event's, or one the writer does not know. -/
inductive ActionName where
  | event (e : FiberEvent)
  | unknown
  deriving DecidableEq

inductive Protocol where
  | fiber
  | other
  deriving DecidableEq

structure ProtocolAction where
  protocol : Protocol
  action : ActionName
  metadata : Metadata
  deriving DecidableEq

/-- A text with the `0x` that marks it as hexadecimal. -/
def hexText (bs : Bytes) : Json := .str ('0' :: 'x' :: hexEncode bs)

def fiberOutpointSize : Nat := 36

def encodeFiberOutpoint (o : FiberOutPoint) : Bytes := o.txHash.bytes ++ leBytes 4 o.index.toNat

def encodeChannelOutpoint (o : FiberOutPoint) : Json := hexText (encodeFiberOutpoint o)

/-- The parts of a close's metadata that describe the funding input. -/
def fundingInputMetadata (s : FiberCellSummary) : Metadata :=
  (match s.fundingInputOutpoint with
    | some outpoint => [(.channelOutpoint, encodeChannelOutpoint outpoint)]
    | none => [])
  ++ match s.fundingInputArgs, s.fundingInputCapacity with
    | some args, some capacity =>
      (.capacity, .str (decimal capacity)) ::
        match parseFundingLockArgs args with
        | some parsed => [(.fundingLockArgs, hexText parsed.pubkeyHash)]
        | none => []
    | _, _ => []

/-- An entry for a value that may be missing. -/
def optionalEntry {α : Type} (key : MetadataKey) (value : α → Json) (a : Option α) : Metadata :=
  match a with
  | some a => [(key, value a)]
  | none => []

def udtMetadata (udt : Option FundingUdt) : Metadata :=
  match udt with
  | some udt =>
    [(.udtTypeHash, hexText udt.typeScriptHash), (.udtAmount, .str (decimal udt.amount))]
  | none => []

def openMetadata (s : FiberCellSummary) (txHash : Hash32) : Except String Metadata :=
  match s.fundingOutputArgs, s.fundingOutputCapacity, s.fundingOutputIndex with
  | some args, some capacity, some idx => do
    let index ← outputIndex idx "Fiber funding output_index exceeds u32 range"
    let parsed ← (parseFundingLockArgs args).elim (.error "fiber funding output args invalid") .ok
    return [(.channelOutpoint, encodeChannelOutpoint ⟨txHash, index⟩),
        (.capacity, .str (decimal capacity)),
        (.fundingLockArgs, hexText parsed.pubkeyHash)]
      ++ udtMetadata s.fundingOutputUdt
      ++ [(.participants, .arr (s.participants.toList.map fun p => '0' :: 'x' :: hexEncode p.bytes))]
  | _, _, _ => return []

def buildMetadata (event : FiberEvent) (s : FiberCellSummary) (txHash : Hash32) :
    Except String Metadata :=
  match event with
  | .channelOpen => openMetadata s txHash
  | .channelClose => return fundingInputMetadata s
  | .forceClose =>
    return fundingInputMetadata s
      ++ optionalEntry .commitmentLockArgs hexText s.commitmentOutputArgs
      ++ optionalEntry .commitmentOutputIndex (fun i : UInt32 => .num i.toNat)
          s.commitmentOutputIndex
  | .settlement =>
    return match s.commitmentInputArgs, s.commitmentInputCapacity with
      | some args, some capacity =>
        [(.capacity, .str (decimal capacity)), (.commitmentLockArgs, hexText args)]
      | _, _ => []
  | .commitmentRevocation =>
    return optionalEntry .oldCommitmentLockArgs hexText s.commitmentInputArgs
      ++ optionalEntry .newCommitmentLockArgs hexText s.commitmentOutputArgs
      ++ optionalEntry .newCommitmentOutputIndex (fun i : UInt32 => .num i.toNat)
          s.commitmentOutputIndex

def detect (tx : FiberTx) : Except String (List ProtocolAction) := do
  let summary ← summarizeCells tx
  match summary.classifyEvent with
  | none => return []
  | some event =>
    let metadata ← buildMetadata event summary tx.hash
    return [{ protocol := .fiber, action := .event event, metadata := metadata }]

/-! ## The actions of a transaction -/

def mightApply (tx : FiberTx) : Bool :=
  tx.inputs.any (fun input => input.cell.lockType != .other)
    || tx.outputs.any (fun output => output.lockType != .other)

/-- The owners of a transaction's cells. -/
def owners (tx : FiberTx) : List Hash32 :=
  (tx.inputs.map (·.cell.lockScriptHash) ++ tx.outputs.map (·.lockScriptHash)).eraseDups

/-- The Fiber actions of a transaction: the detector's for every owner, without copies. -/
def buildTxActions (tx : FiberTx) : Except String (List ProtocolAction) :=
  if mightApply tx then do
    let actions ← (owners tx).mapM fun _ => detect tx
    return actions.flatten.eraseDups
  else return []

end Ckbadger.Writer
