/-
Ckbadger.Writer.TokenRow — one token's stored row through one live batch.

The writer applies a batch's metadata observations at once, but a shallow rollback can
land on any block inside the batch. `rowThrough` is the one rule for the row as of the end
of a block. The batch stores the row through its last block, and every block that changes
the row's metadata, or creates it, records the row through the block before as its undo
pre-image. A block that changes only the transfer count records nothing.
-/
import Ckbadger.Lib.Fallible
import Ckbadger.Lib.Journal
import Ckbadger.Parser.Udt
import Ckbadger.Store.TokenMetadata
import Mathlib.Data.List.Sort

namespace Ckbadger.Writer

open Lib Ckbadger.Parser Store

/-! ## Observations -/

/-- What a Unique Cell says of its token. -/
structure UniqueTokenInfo where
  decimal : UInt8
  name : String
  symbol : String
  totalSupply : Option Nat
  deriving DecidableEq

/-- An observed Unique Cell, with how it was bound to a token. -/
structure OnchainTokenInfo where
  info : UniqueTokenInfo
  binding : OnchainInfoBinding
  deriving DecidableEq

/-- What an observation asserts, as stored. -/
def OnchainTokenInfo.chainMetadata (bound : OnchainTokenInfo) : ChainTokenMetadata where
  name := (some bound.info.name).filter (· ≠ "")
  symbol := (some bound.info.symbol).filter (· ≠ "")
  decimals := bound.info.decimal
  binding := bound.binding

/-- A token's binding across one batch: each assignment of the batch's choice with the block of
the transaction that made it, in transaction order. -/
structure OnchainTokenInfoTimeline where
  assignments : List (Int × OnchainTokenInfo)
  nonempty : assignments ≠ []

/-- The binding a batch that ends at a block would have settled on. -/
def OnchainTokenInfoTimeline.winnerThrough (timeline : OnchainTokenInfoTimeline)
    (blockNumber : Int) : Option OnchainTokenInfo :=
  (timeline.assignments.reverse.find? fun e => e.1 ≤ blockNumber).map Prod.snd

/-- The blocks whose transactions assigned a binding. -/
def OnchainTokenInfoTimeline.blocks (timeline : OnchainTokenInfoTimeline) : List Int :=
  timeline.assignments.map Prod.fst

/-- The first max-supply claim of a batch for a token, with its block. -/
structure MaxSupplyObservation where
  maxSupply : Nat
  blockNumber : Int
  deriving DecidableEq

/-- The first observed max supply fills an unknown one; a conflicting claim keeps the stored
value. -/
def applyObservedMaxSupply (info : TokenInfo) (observed : Nat) : TokenInfo :=
  match info.maxSupply with
  | some existing => if existing ≠ observed then info else { info with maxSupply := some observed }
  | none => { info with maxSupply := some observed }

/-! ## The row through a batch -/

/-- Where a token's row starts from in a batch. -/
inductive TokenRowBase where
  /-- The row the store held before the batch. -/
  | stored (row : TokenInfo)
  /-- No row yet: the token's first transfer in the batch creates it, at that transfer's block. -/
  | createdBy (transfer : ParsedUdtTransfer) (blockNumber : Int)

/-- The transfer counter before a batch and the batch's transfers per block. -/
structure TokenTransfersThroughBatch where
  before : Int
  byBlock : Std.ExtTreeMap Int Int

/-- The transfers per block up to a block, in block order. -/
def TokenTransfersThroughBatch.upTo (transfers : TokenTransfersThroughBatch) (blockNumber : Int) :
    List (Int × Int) :=
  transfers.byBlock.toList.filter fun e => e.1 ≤ blockNumber

def TokenTransfersThroughBatch.through (transfers : TokenTransfersThroughBatch)
    (blockNumber : Int) : Except String Int :=
  (transfers.upTo blockNumber).foldlM
    (fun total e => checked 64 (total + e.2) "token total transfer count overflow")
    transfers.before

/-- The row that a transfer creates. -/
def createdRow (transfer : ParsedUdtTransfer) (createdAt : Int) : TokenInfo where
  typeCodeHash := transfer.typeCodeHash
  hashType := .ofInt transfer.typeHashType
  typeArgs := transfer.typeArgs
  standard := transfer.standard.asStr
  firstSeenBlock := createdAt

/-- The key of a transfer row. The index counts the token's transfers of one block. -/
structure TokenTransferKey where
  typeHash : Bytes
  blockNumber : Int
  index : Nat
  deriving DecidableEq

/-- One token's row through one live batch. -/
structure TokenRowThroughBatch where
  typeHash : Bytes
  base : TokenRowBase
  /-- `none` for a row this batch does not count transfers into. -/
  transfers : Option TokenTransfersThroughBatch
  maxSupply : Option MaxSupplyObservation
  onchain : Option OnchainTokenInfoTimeline

/-- A row's metadata and existence: everything but the transfer count. -/
def withoutTransferCount (row : TokenInfo) : TokenInfo := { row with transfersCount := 0 }

/-- `i64::MAX`, a block after every block. -/
def lastBlock : Int := 2 ^ 63 - 1

namespace TokenRowThroughBatch

variable (t : TokenRowThroughBatch)

/-- The row as it starts, if it exists at a block. -/
def baseThrough (blockNumber : Int) : Option TokenInfo :=
  match t.base with
  | .stored row => some row
  | .createdBy transfer createdAt =>
    if blockNumber < createdAt then none else some (createdRow transfer createdAt)

/-- The max-supply claim and the binding of the blocks up to one. -/
def observeThrough (blockNumber : Int) (row : TokenInfo) : TokenInfo :=
  let row := match t.maxSupply.filter (·.blockNumber ≤ blockNumber) with
    | some observed => applyObservedMaxSupply row observed.maxSupply
    | none => row
  match t.onchain.bind (·.winnerThrough blockNumber) with
  | some bound => row.mergeChainMetadata bound.chainMetadata
  | none => row

/-- The row as of the end of a block; `none` while it does not exist. -/
def rowThrough (blockNumber : Int) : Except String (Option TokenInfo) :=
  match t.baseThrough blockNumber with
  | none => return none
  | some base => do
      let row := t.observeThrough blockNumber base
      match t.transfers with
      | none => return some row
      | some transfers => do
          let transfersCount ← transfers.through blockNumber
          return some { row with transfersCount }

/-- The blocks that may change the row's metadata, in block order without repetition. -/
def changeBlocks : List Int :=
  let created := match t.base with
    | .stored _ => []
    | .createdBy _ blockNumber => [blockNumber]
  let observed := t.maxSupply.toList.map MaxSupplyObservation.blockNumber
  let bound := (t.onchain.map OnchainTokenInfoTimeline.blocks).getD []
  ((created ++ observed ++ bound).insertionSort (· ≤ ·)).dedup

/-- The undo record of a block, if the block changes the row's metadata or creates it. -/
def recordAt (blockNumber : Int) : Except String (Option (Journal.Record Bytes TokenInfo)) := do
  let before ← t.rowThrough (blockNumber - 1)
  let after ← t.rowThrough blockNumber
  if before.map withoutTransferCount = after.map withoutTransferCount then return none
  else return some ⟨blockNumber, t.typeHash, before⟩

/-- The undo records of the batch, in block order, and the row after it. -/
def stage : Except String (List (Journal.Record Bytes TokenInfo) × TokenInfo) := do
  let records ← t.changeBlocks.mapM t.recordAt
  let last ← t.rowThrough lastBlock
  let row ← required "token row missing after the batch that writes it" last
  return (records.reduceOption, row)

end TokenRowThroughBatch

end Ckbadger.Writer
