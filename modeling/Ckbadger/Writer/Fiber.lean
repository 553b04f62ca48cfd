/-
Ckbadger.Writer.Fiber — channel rows and the live Fiber writer.

Three column families hold the state: the channels by identifier, the channels of every
participant, and the channel each commitment hash belongs to. The writer takes a
transaction's actions one at a time, reads the data back out of their metadata, checks
the channel's state and stages the rows to write. Every handler makes all of its reads
before its first write, so it is a function from what it reads to the writes it stages.

The same handlers run over committed rows and over a batch, whose reads see its own
staged writes first. Hashes of arguments and outpoints come from a hash function that
everything here is parametric in.
-/
import Ckbadger.Lib.Staging
import Ckbadger.Writer.FiberDetector

namespace Ckbadger.Writer

open Lib Ckbadger.Parser Std

/-! ## Rows -/

inductive FiberChannelState where
  | open
  | cooperativelyClosed
  | forceClosed
  | settled
  deriving DecidableEq

structure FiberChannel where
  fundingTxHash : Hash32
  fundingOutputIndex : UInt32
  state : FiberChannelState
  capacity : Nat
  udtTypeHash : Option Bytes
  udtAmount : Option Nat
  openBlock : Int
  openTimestamp : Int
  closeTxHash : Option Hash32 := none
  closeBlock : Option Int := none
  closeTimestamp : Option Int := none
  commitmentTxHash : Option Hash32 := none
  commitmentOutputIndex : Option UInt32 := none
  delayEpoch : Option Nat := none
  settlementTxHash : Option Hash32 := none
  settlementBlock : Option Int := none
  settlementTimestamp : Option Int := none
  participants : List Hash32
  fundingLockArgs : Bytes
  deriving DecidableEq

/-- The key of a participant's channel. -/
def encodeAddrFiberChannelKey (lockHash channelId : Hash32) : Bytes :=
  lockHash.bytes ++ channelId.bytes

@[ext] structure FiberRows where
  channels : ExtTreeMap Hash32 FiberChannel := ∅
  addrChannels : ExtTreeMap Bytes Unit := ∅
  byCommitment : ExtTreeMap Hash32 Hash32 := ∅

inductive FiberWrite where
  | putChannel (id : Hash32) (channel : FiberChannel)
  | putAddrChannel (lockHash id : Hash32)
  | putByCommitment (commitment id : Hash32)
  | deleteByCommitment (commitment : Hash32)

def FiberRows.write (rows : FiberRows) : FiberWrite → FiberRows
  | .putChannel id channel => { rows with channels := rows.channels.insert id channel }
  | .putAddrChannel lockHash id =>
    { rows with addrChannels := rows.addrChannels.insert (encodeAddrFiberChannelKey lockHash id) () }
  | .putByCommitment commitment id =>
    { rows with byCommitment := rows.byCommitment.insert commitment id }
  | .deleteByCommitment commitment =>
    { rows with byCommitment := rows.byCommitment.erase commitment }

/-- What the handlers need of the rows they run over. -/
class FiberView (σ : Type) where
  getFiberChannel : σ → Hash32 → Option FiberChannel
  getFiberChannelIdByCommitment : σ → Hash32 → Option Hash32
  stage : σ → FiberWrite → σ

export FiberView (getFiberChannel getFiberChannelIdByCommitment stage)

instance : FiberView FiberRows where
  getFiberChannel rows id := rows.channels[id]?
  getFiberChannelIdByCommitment rows commitment := rows.byCommitment[commitment]?
  stage := FiberRows.write

/-- The actions of a transaction, as the action builder hands them to the writer. -/
structure FiberTxActions where
  txHash : Hash32
  blockNumber : Int
  timestamp : Int
  isCellbase : Bool
  protocolActions : List ProtocolAction
  deriving DecidableEq

/-! ## Reading metadata -/

def Metadata.getStr? (metadata : Metadata) (key : MetadataKey) : Option Text :=
  (metadata.lookup key).bind Json.asStr?

/-- Hexadecimal text, with or without its mark. -/
def decodeHexWithPrefix (text : Text) : Option Bytes :=
  match text with
  | '0' :: 'x' :: rest => hexDecode? rest
  | text => hexDecode? text

def decodeFiberOutpoint (bs : Bytes) : Option FiberOutPoint :=
  (Hash32.ofBytes? (bs.take 32)).map fun txHash => ⟨txHash, UInt32.ofNat (leNat (bs.drop 32))⟩

def parseChannelOutpoint (metadata : Metadata) : Except String FiberOutPoint := do
  let text ← required "fiber event missing channelOutpoint metadata"
    (metadata.getStr? .channelOutpoint)
  let outpoint ← required "fiber event has invalid channelOutpoint hex" (decodeHexWithPrefix text)
  ensure (outpoint.length = fiberOutpointSize) "fiber event channelOutpoint must be 36 bytes"
  required "decode_fiber_outpoint: expected 36 bytes" (decodeFiberOutpoint outpoint)

def parseCommitmentArgs (metadata : Metadata) (key : MetadataKey) :
    Except String (Bytes × CommitmentLockArgs) := do
  let text ← required "fiber event missing commitment lock args metadata" (metadata.getStr? key)
  let args ← required "fiber event: failed to decode commitment lock args hex"
    (decodeHexWithPrefix text)
  let parsed ← required "fiber event: not valid commitment lock args" (parseCommitmentLockArgs args)
  return (args, parsed)

def parseCommitmentOutputIndex (metadata : Metadata) (key : MetadataKey) :
    Except String UInt32 := do
  let value ← required "fiber event missing commitment output index metadata"
    ((metadata.lookup key).bind Json.asU64?)
  outputIndex value "fiber event commitment output index exceeds u32 range"

/-- A participant's lock hash. The row key it goes into asserts its width. -/
def parseParticipant (text : Text) : Except String Hash32 := do
  let bs ← required "fiber channel_open participant is not valid hex" (decodeHexWithPrefix text)
  required "encode_addr_fiber_channel_key: lock_hash must be 32 bytes" (Hash32.ofBytes? bs)

def parseParticipants (metadata : Metadata) : Except String (List Hash32) := do
  let entries ← required "fiber channel_open missing participants metadata"
    ((metadata.lookup .participants).bind Json.asArray?)
  ensure (entries ≠ []) "fiber channel_open has no non-fiber participants"
  entries.mapM parseParticipant

def parseUdtFields (metadata : Metadata) : Except String (Option Bytes × Option Nat) :=
  match metadata.getStr? .udtTypeHash, metadata.getStr? .udtAmount with
  | none, none => return (none, none)
  | some typeHash, some amount => do
    let typeHash ← required "fiber channel_open: failed to decode udtTypeHash hex"
      (decodeHexWithPrefix typeHash)
    let amount ← required "fiber channel_open: failed to parse udtAmount" (parseUnsigned? 128 amount)
    return (some typeHash, some amount)
  | _, _ => throw "fiber channel_open has udtTypeHash/udtAmount partially set"

/-! ## Handlers -/

/-- Records the commitment cell a channel's funds moved to. -/
def applyCommitmentEnrichment (channel : FiberChannel) (commitmentTxHash : Hash32)
    (args : CommitmentLockArgs) (index : UInt32) : FiberChannel :=
  { channel with
    commitmentTxHash := some commitmentTxHash
    commitmentOutputIndex := some index
    delayEpoch := some args.delayEpoch }

section Handlers

variable (blake2b : Bytes → Hash32)

def encodeFiberChannelId (o : FiberOutPoint) : Hash32 := blake2b (encodeFiberOutpoint o)

variable {σ : Type} [FiberView σ] (batch : σ) (tx : FiberTxActions) (metadata : Metadata)

def handleChannelOpen : Except String (List FiberWrite) := do
  let outpoint ← parseChannelOutpoint metadata
  let capacityText ← required "fiber channel_open missing capacity metadata"
    (metadata.getStr? .capacity)
  let capacity ← required "fiber channel_open: failed to parse capacity"
    (parseUnsigned? 64 capacityText)
  let channelId := encodeFiberChannelId blake2b outpoint
  ensure (getFiberChannel batch channelId = none) "duplicate fiber channel_open"
  let argsText ← required "fiber channel_open missing fundingLockArgs metadata"
    (metadata.getStr? .fundingLockArgs)
  let fundingLockArgs ← required "fiber channel_open: failed to decode fundingLockArgs hex"
    (decodeHexWithPrefix argsText)
  let participants ← parseParticipants metadata
  let udt ← parseUdtFields metadata
  return .putChannel channelId {
      fundingTxHash := outpoint.txHash
      fundingOutputIndex := outpoint.index
      state := .open
      capacity := capacity
      udtTypeHash := udt.1
      udtAmount := udt.2
      openBlock := tx.blockNumber
      openTimestamp := tx.timestamp
      participants := participants
      fundingLockArgs := fundingLockArgs }
    :: participants.map (.putAddrChannel · channelId)

/-- The channel at an identifier, in the state an event expects. -/
def channelInState (channelId : Hash32) (state : FiberChannelState) : Except String FiberChannel := do
  let channel ← required "fiber event references a channel with no indexed open"
    (getFiberChannel batch channelId)
  ensure (channel.state = state) "fiber event expected a channel in another state"
  return channel

def handleChannelClose : Except String (List FiberWrite) := do
  let outpoint ← parseChannelOutpoint metadata
  let channelId := encodeFiberChannelId blake2b outpoint
  let channel ← channelInState batch channelId .open
  return [.putChannel channelId { channel with
    state := .cooperativelyClosed
    closeTxHash := some tx.txHash
    closeBlock := some tx.blockNumber
    closeTimestamp := some tx.timestamp }]

/-- Refuses a commitment hash that belongs to another channel. -/
def checkCommitmentMapping (commitment channelId : Hash32) : Except String Unit :=
  match getFiberChannelIdByCommitment batch commitment with
  | some existing => ensure (existing = channelId) "fiber event duplicate commitment mapping"
  | none => return ()

def handleForceClose : Except String (List FiberWrite) := do
  let outpoint ← parseChannelOutpoint metadata
  let channelId := encodeFiberChannelId blake2b outpoint
  let channel ← channelInState batch channelId .open
  let commitment ← parseCommitmentArgs metadata .commitmentLockArgs
  let index ← parseCommitmentOutputIndex metadata .commitmentOutputIndex
  let commitmentHash := blake2b commitment.1
  checkCommitmentMapping batch commitmentHash channelId
  let closed := { channel with
    state := .forceClosed
    closeTxHash := some tx.txHash
    closeBlock := some tx.blockNumber
    closeTimestamp := some tx.timestamp }
  return [.putByCommitment commitmentHash channelId,
    .putChannel channelId (applyCommitmentEnrichment closed tx.txHash commitment.2 index)]

def handleSettlement : Except String (List FiberWrite) := do
  let text ← required "fiber settlement missing commitmentLockArgs metadata"
    (metadata.getStr? .commitmentLockArgs)
  let args ← required "fiber settlement: failed to decode commitmentLockArgs hex"
    (decodeHexWithPrefix text)
  let channelId ← required "fiber settlement references a channel with no indexed open"
    (getFiberChannelIdByCommitment batch (blake2b args))
  let channel ← channelInState batch channelId .forceClosed
  return [.putChannel channelId { channel with
    state := .settled
    settlementTxHash := some tx.txHash
    settlementBlock := some tx.blockNumber
    settlementTimestamp := some tx.timestamp }]

def handleCommitmentRevocation : Except String (List FiberWrite) := do
  let text ← required "fiber commitment_revocation missing oldCommitmentLockArgs metadata"
    (metadata.getStr? .oldCommitmentLockArgs)
  let oldArgs ← required "fiber commitment_revocation: failed to decode oldCommitmentLockArgs hex"
    (decodeHexWithPrefix text)
  let commitment ← parseCommitmentArgs metadata .newCommitmentLockArgs
  let oldHash := blake2b oldArgs
  let newHash := blake2b commitment.1
  let channelId ← required "fiber commitment_revocation references a channel with no indexed open"
    (getFiberChannelIdByCommitment batch oldHash)
  let channel ← channelInState batch channelId .forceClosed
  checkCommitmentMapping batch newHash channelId
  let index ← parseCommitmentOutputIndex metadata .newCommitmentOutputIndex
  return [.deleteByCommitment oldHash, .putByCommitment newHash channelId,
    .putChannel channelId (applyCommitmentEnrichment channel tx.txHash commitment.2 index)]

def handleEvent (event : FiberEvent) : Except String (List FiberWrite) :=
  match event with
  | .channelOpen => handleChannelOpen blake2b batch tx metadata
  | .channelClose => handleChannelClose blake2b batch tx metadata
  | .forceClose => handleForceClose blake2b batch tx metadata
  | .settlement => handleSettlement blake2b batch tx metadata
  | .commitmentRevocation => handleCommitmentRevocation blake2b batch tx metadata

/-- One turn of the loop over a transaction's actions. -/
def applyFiberAction (action : ProtocolAction) : Except String σ :=
  match action.protocol, action.action with
  | .fiber, .event event => do
    let writes ← handleEvent blake2b batch tx action.metadata event
    return writes.foldl stage batch
  | _, _ => return batch

/-- Applies the Fiber events of a transaction. -/
def applyFiberChannelEvents : Except String σ :=
  tx.protocolActions.foldlM (fun batch action => applyFiberAction blake2b batch tx action) batch

end Handlers

/-! ## Batches -/

/-- Staged writes over committed rows. The pending maps hold what the staged writes left
at every key they touched. -/
structure FiberBatch where
  store : FiberRows
  writes : List FiberWrite := []
  pendingChannels : ExtTreeMap Hash32 (Option FiberChannel) := ∅
  pendingByCommitment : ExtTreeMap Hash32 (Option Hash32) := ∅

/-- The rows after the batch is written. -/
def FiberBatch.commit (b : FiberBatch) : FiberRows := b.writes.foldl FiberRows.write b.store

def FiberBatch.stage (b : FiberBatch) (w : FiberWrite) : FiberBatch :=
  { store := b.store
    writes := b.writes ++ [w]
    pendingChannels :=
      match w with
      | .putChannel id channel => b.pendingChannels.insert id (some channel)
      | _ => b.pendingChannels
    pendingByCommitment :=
      match w with
      | .putByCommitment commitment id => b.pendingByCommitment.insert commitment (some id)
      | .deleteByCommitment commitment => b.pendingByCommitment.insert commitment none
      | _ => b.pendingByCommitment }

instance : FiberView FiberBatch where
  getFiberChannel b id := readThrough b.pendingChannels b.store.channels id
  getFiberChannelIdByCommitment b commitment :=
    readThrough b.pendingByCommitment b.store.byCommitment commitment
  stage := FiberBatch.stage

/-! ## The live pass over a batch of blocks -/

/-- A failure and the transaction it names. -/
structure FiberFailure where
  txHash : Hash32
  message : String
  deriving DecidableEq

/-- Names the transaction a failure is about. -/
def failAt {α : Type} (txHash : Hash32) : Except String α → Except FiberFailure α
  | .ok a => .ok a
  | .error message => .error ⟨txHash, message⟩

def liveTxActions (tx : FiberTx) : Except FiberFailure FiberTxActions :=
  (failAt tx.hash (buildTxActions tx)).map fun actions =>
    { txHash := tx.hash, blockNumber := tx.blockNumber, timestamp := tx.timestamp,
      isCellbase := tx.isCellbase, protocolActions := actions }

section Live

variable (blake2b : Bytes → Hash32) {σ : Type} [FiberView σ]

/-- A cellbase has actions but its Fiber events are not applied. -/
def liveTx (batch : σ) (tx : FiberTxActions) : Except FiberFailure σ :=
  if tx.isCellbase then return batch
  else failAt tx.txHash (applyFiberChannelEvents blake2b batch tx)

/-- A block: the actions of all of its transactions are built before any is applied. -/
def liveBlock (batch : σ) (block : List FiberTx) : Except FiberFailure σ := do
  let actions ← block.mapM liveTxActions
  actions.foldlM (liveTx blake2b) batch

/-- A batch of blocks, committed when all of it was accepted. -/
def liveBatch (rows : FiberRows) (blocks : List (List FiberTx)) : Except FiberFailure FiberRows := do
  let batch ← blocks.foldlM (liveBlock blake2b) ({ store := rows } : FiberBatch)
  return batch.commit

def liveRun (batches : List (List (List FiberTx))) : Except FiberFailure FiberRows :=
  batches.foldlM (liveBatch blake2b) {}

end Live

end Ckbadger.Writer
