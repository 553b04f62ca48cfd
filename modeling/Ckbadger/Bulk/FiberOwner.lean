/-
Ckbadger.Bulk.FiberOwner — the bulk build's Fiber reducer.

The reducer keeps the channels and the commitment index in memory, takes the cells of
every transaction directly, and writes all rows at the end. Its summary checks the
arguments of the cells it records as it goes, whatever event the transaction turns out
to be. A transaction's cells resolve to the same bytes here as in the live pass.
-/
import Ckbadger.Writer.Fiber

namespace Ckbadger.Bulk

open Lib Ckbadger.Parser Writer Std

structure FiberOwner where
  channels : ExtTreeMap Hash32 FiberChannel := ∅
  channelByCommitment : ExtTreeMap Hash32 Hash32 := ∅

/-! ## The summary -/

structure FiberTxSummary where
  hasFundingInput : Bool := false
  hasFundingOutput : Bool := false
  hasCommitmentInput : Bool := false
  hasCommitmentOutput : Bool := false
  fundingInputOutpoint : Option FiberOutPoint := none
  fundingOutputPubkeyHash : Option Bytes := none
  fundingOutputCapacity : Option Nat := none
  fundingOutputIndex : Option UInt32 := none
  commitmentInputArgs : Option Bytes := none
  commitmentOutputArgs : Option Bytes := none
  commitmentOutputIndex : Option UInt32 := none
  commitmentOutputParsedArgs : Option CommitmentLockArgs := none
  fundingOutputUdt : Option (Bytes × Nat) := none
  participants : ExtTreeSet Hash32 := ∅

def FiberTxSummary.classifyEvent (s : FiberTxSummary) : Option FiberEvent :=
  classifyCells s.hasFundingInput s.hasFundingOutput s.hasCommitmentInput s.hasCommitmentOutput

def FiberTxSummary.recordInput (s : FiberTxSummary) (input : FiberInput) :
    Except String FiberTxSummary :=
  if isFundingLock input.cell.lockCodeHash then
    if s.fundingInputOutpoint.isNone then
      return { s with hasFundingInput := true, fundingInputOutpoint := some input.outpoint }
    else return { s with hasFundingInput := true }
  else if isCommitmentLock input.cell.lockCodeHash then
    if s.commitmentInputArgs.isNone then do
      let _ ← required "fiber commitment input args invalid in bulk reducer"
        (parseCommitmentLockArgs input.cell.lockArgs)
      return { s with hasCommitmentInput := true, commitmentInputArgs := some input.cell.lockArgs }
    else return { s with hasCommitmentInput := true }
  else return { s with participants := s.participants.insert input.cell.lockScriptHash }

/-- The token identity of a funding output. -/
def fundingUdt (cell : FiberCell) : Except String (Option (Bytes × Nat)) :=
  match cell.typeCodeHash with
  | none => return none
  | some _ => do
    let typeScriptHash ←
      required "fiber funding output carries a type script with no type_script_hash in bulk reducer"
        cell.typeScriptHash
    let amount ←
      required "fiber funding output carries a type script but its data cannot hold a 16-byte little-endian UDT amount in bulk reducer"
        (parseFundingUdtAmount cell.data)
    return some (typeScriptHash, amount)

def FiberTxSummary.recordOutput (s : FiberTxSummary) (output : FiberCell × Nat) :
    Except String FiberTxSummary :=
  -- the index of a cell's outpoint is the position of the output it came from
  let index := UInt32.ofNat output.2
  if isFundingLock output.1.lockCodeHash then
    if s.fundingOutputPubkeyHash.isNone then do
      let parsed ← required "fiber funding output args invalid in bulk reducer"
        (parseFundingLockArgs output.1.lockArgs)
      ensure (0 ≤ output.1.capacity) "fiber funding output capacity is negative in bulk reducer"
      let udt ← fundingUdt output.1
      return { s with
        hasFundingOutput := true
        fundingOutputUdt := udt
        fundingOutputPubkeyHash := some parsed.pubkeyHash
        fundingOutputCapacity := some output.1.capacity.toNat
        fundingOutputIndex := some index }
    else return { s with hasFundingOutput := true }
  else if isCommitmentLock output.1.lockCodeHash then
    if s.commitmentOutputArgs.isNone then do
      let parsed ← required "fiber commitment output args invalid in bulk reducer"
        (parseCommitmentLockArgs output.1.lockArgs)
      return { s with
        hasCommitmentOutput := true
        commitmentOutputArgs := some output.1.lockArgs
        commitmentOutputIndex := some index
        commitmentOutputParsedArgs := some parsed }
    else return { s with hasCommitmentOutput := true }
  else return { s with participants := s.participants.insert output.1.lockScriptHash }

def FiberTxSummary.fromTx (tx : FiberTx) : Except String FiberTxSummary := do
  let s ← tx.inputs.foldlM FiberTxSummary.recordInput {}
  tx.outputs.zipIdx.foldlM FiberTxSummary.recordOutput s

/-! ## Handlers -/

namespace FiberOwner

variable (blake2b : Bytes → Hash32) (owner : FiberOwner) (tx : FiberTx) (s : FiberTxSummary)

/-- A channel in the state an event expects. -/
def channelInState (owner : FiberOwner) (channelId : Hash32)
    (state : FiberChannelState) : Except String FiberChannel := do
  let channel ← required "fiber event missing channel state in bulk reducer"
    owner.channels[channelId]?
  ensure (channel.state = state) "fiber event expected a channel in another state in bulk reducer"
  return channel

def handleChannelOpen : Except String FiberOwner := do
  let fundingLockArgs ← required "fiber channel_open missing parsed funding lock args in bulk reducer"
    s.fundingOutputPubkeyHash
  let index ← required "fiber channel_open missing funding output index in bulk reducer"
    s.fundingOutputIndex
  let capacity ← required "fiber channel_open missing funding output capacity in bulk reducer"
    s.fundingOutputCapacity
  ensure (s.participants.toList ≠ [])
    "fiber channel_open has no non-fiber participants in bulk reducer"
  let channelId := encodeFiberChannelId blake2b ⟨tx.hash, index⟩
  ensure (owner.channels[channelId]? = none) "duplicate fiber channel open in bulk reducer"
  return { owner with
    channels := owner.channels.insert channelId {
      fundingTxHash := tx.hash
      fundingOutputIndex := index
      state := .open
      capacity := capacity
      udtTypeHash := s.fundingOutputUdt.map (·.1)
      udtAmount := s.fundingOutputUdt.map (·.2)
      openBlock := tx.blockNumber
      openTimestamp := tx.timestamp
      participants := s.participants.toList
      fundingLockArgs := fundingLockArgs } }

def handleChannelClose : Except String FiberOwner := do
  let outpoint ← required "fiber channel_close missing funding input outpoint in bulk reducer"
    s.fundingInputOutpoint
  let channelId := encodeFiberChannelId blake2b outpoint
  let channel ← owner.channelInState channelId .open
  return { owner with
    channels := owner.channels.insert channelId { channel with
      state := .cooperativelyClosed
      closeTxHash := some tx.hash
      closeBlock := some tx.blockNumber
      closeTimestamp := some tx.timestamp } }

def handleForceClose : Except String FiberOwner := do
  let outpoint ← required "fiber force_close missing funding input outpoint in bulk reducer"
    s.fundingInputOutpoint
  let args ← required "fiber force_close missing commitment output args in bulk reducer"
    s.commitmentOutputArgs
  let parsed ← required "fiber force_close missing parsed commitment output args in bulk reducer"
    s.commitmentOutputParsedArgs
  let index ← required "fiber force_close missing commitment output index in bulk reducer"
    s.commitmentOutputIndex
  let channelId := encodeFiberChannelId blake2b outpoint
  let commitmentHash := blake2b args
  ensure (∀ existing ∈ owner.channelByCommitment[commitmentHash]?, existing = channelId)
    "fiber force_close duplicate commitment mapping in bulk reducer"
  let channel ← owner.channelInState channelId .open
  let closed := { channel with
    state := .forceClosed
    closeTxHash := some tx.hash
    closeBlock := some tx.blockNumber
    closeTimestamp := some tx.timestamp }
  return {
    channels := owner.channels.insert channelId
      (applyCommitmentEnrichment closed tx.hash parsed index)
    channelByCommitment := owner.channelByCommitment.insert commitmentHash channelId }

def handleSettlement : Except String FiberOwner := do
  let args ← required "fiber settlement missing commitment input args in bulk reducer"
    s.commitmentInputArgs
  let channelId ← required "fiber settlement missing channel by commitment in bulk reducer"
    owner.channelByCommitment[blake2b args]?
  let channel ← owner.channelInState channelId .forceClosed
  return { owner with
    channels := owner.channels.insert channelId { channel with
      state := .settled
      settlementTxHash := some tx.hash
      settlementBlock := some tx.blockNumber
      settlementTimestamp := some tx.timestamp } }

/-- The new hash takes the index entry whatever channel had it before. -/
def handleCommitmentRevocation : Except String FiberOwner := do
  let oldArgs ← required "fiber commitment_revocation missing commitment input args in bulk reducer"
    s.commitmentInputArgs
  let newArgs ← required "fiber commitment_revocation missing commitment output args in bulk reducer"
    s.commitmentOutputArgs
  let oldHash := blake2b oldArgs
  let newHash := blake2b newArgs
  let channelId ← required "fiber commitment_revocation missing channel by commitment in bulk reducer"
    owner.channelByCommitment[oldHash]?
  let channel ← owner.channelInState channelId .forceClosed
  let parsed ←
    required "fiber commitment_revocation missing parsed commitment output args in bulk reducer"
      s.commitmentOutputParsedArgs
  let index ← required "fiber commitment_revocation missing commitment output index in bulk reducer"
    s.commitmentOutputIndex
  return {
    channels := owner.channels.insert channelId
      (applyCommitmentEnrichment channel tx.hash parsed index)
    channelByCommitment := (owner.channelByCommitment.erase oldHash).insert newHash channelId }

/-- Applies a transaction. -/
def applyTx : Except String FiberOwner := do
  let summary ← FiberTxSummary.fromTx tx
  match summary.classifyEvent with
  | none => return owner
  | some .channelOpen => handleChannelOpen blake2b owner tx summary
  | some .channelClose => handleChannelClose blake2b owner tx summary
  | some .forceClose => handleForceClose blake2b owner tx summary
  | some .settlement => handleSettlement blake2b owner tx summary
  | some .commitmentRevocation => handleCommitmentRevocation blake2b owner tx summary

end FiberOwner

/-- The reducer over a chain. -/
def bulkRun (blake2b : Bytes → Hash32) (txs : List FiberTx) : Except FiberFailure FiberOwner :=
  txs.foldlM (fun owner tx => failAt tx.hash (owner.applyTx blake2b tx)) {}

/-- The rows the reducer writes at the end. -/
def FiberOwner.snapshotRows (owner : FiberOwner) : FiberRows where
  channels := owner.channels
  addrChannels := owner.channels.toList.foldl
    (fun rows entry => entry.2.participants.foldl
      (fun rows p => rows.insert (encodeAddrFiberChannelKey p entry.1) ()) rows) ∅
  byCommitment := owner.channelByCommitment

end Ckbadger.Bulk
