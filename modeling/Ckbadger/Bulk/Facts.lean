/-
Ckbadger.Bulk.Facts — the facts of a bulk arena: blocks, transactions and cells.

Fields no modelled stage reads are left out. A fixed-width array of the source is a
list of bytes.
-/
import Ckbadger.Bulk.Interner

namespace Ckbadger.Bulk

open Lib Store

/-! ## Cells -/

structure OutPointKey where
  txHash : Bytes
  index : Nat
  deriving DecidableEq

def formatOutpoint (o : OutPointKey) : String :=
  "0x" ++ bytesToHex o.txHash ++ ":" ++ toString o.index

inductive CellSemanticTag where
  | plain | dao | sudt | xudt | dotbit | bitCell | didCkb | mnft | spore | cluster | dotCell
  deriving DecidableEq

inductive DaoCellState where
  | deposit
  | withdrawRequest (depositBlockNumber : Int)
  deriving DecidableEq

structure DaoCompensationArs where
  depositAr : Nat
  withdrawRequestAr : Nat
  deriving DecidableEq

structure DotCellRecord where
  key : String
  label : String
  value : Bytes
  ttl : Nat
  deriving DecidableEq

structure DotCellNameData where
  layoutVersion : Nat
  recordsHash : Bytes
  nextId : Bytes
  expiredAt : Nat
  ownerHash20 : Bytes
  managerHash20 : Bytes
  label : String
  id : Bytes
  deriving DecidableEq

inductive CellProtocolFacts where
  | spore (sporeId : Bytes) (contentType : String) (content : Bytes) (clusterId : Option Bytes)
  | didCkb (didId : Bytes)
  | cluster (clusterId : Bytes) (name description : Option String)
  | mnftIssuer (issuerId : Bytes) (name : Option String) (info : Option Bytes)
      (classCount setCount : Nat)
  | mnftClass (classId issuerId : Bytes) (name description renderer : Option String)
      (total issued configure : Nat)
  | mnftToken (tokenId classId : Bytes) (tokenIndex : Nat) (characteristic : Bytes)
      (configure state : Nat)
  | dotbit (accountId : Bytes) (account : Option String) (nextAccountId : Option Bytes)
      (expiredAt registeredAt status : Option Nat)
  | bitCell (identityId accountId : Bytes) (account : String) (expiredAt : Nat)
  | dotCell (name : DotCellNameData) (namespaceArgs : Bytes) (records : List DotCellRecord)
  | xudtExtensions (args : List Bytes)
  deriving DecidableEq

/-- What a created cell's facts leave in the live set: only the output's own transaction reads the
extension args of an xUDT. -/
def keptWhileLive : Option CellProtocolFacts → Option CellProtocolFacts
  | some (.xudtExtensions _) | none => none
  | some other => some other

theorem keptWhileLive_eq_some {facts : Option CellProtocolFacts} {kept : CellProtocolFacts} :
    keptWhileLive facts = some kept ↔ facts = some kept ∧ ∀ args, kept ≠ .xudtExtensions args := by
  rcases facts with _ | facts
  · simp [keptWhileLive]
  · cases facts <;> simp [keptWhileLive] <;> grind

structure CellFacts where
  outpoint : OutPointKey
  createdAtBlock : Int
  createdByBlockDaoAr : Nat
  capacity : Int
  lockScriptHashId : InternId
  lockCodeHashId : InternId
  lockHashType : Int
  lockArgsId : InternId
  typeScriptHashId : Option InternId
  typeCodeHashId : Option InternId
  typeHashType : Option Int
  typeArgsId : Option InternId
  occupiedCapacity : Int
  dataSize : Int
  data : Bytes
  dataHash : Option Bytes
  udtAmount : Option Nat
  semanticTag : CellSemanticTag
  daoState : Option DaoCellState
  protocolFacts : Option CellProtocolFacts
  deriving DecidableEq

structure ResolvedInputFacts where
  outpoint : OutPointKey
  createdAtBlock : Int
  createdByBlockDaoAr : Nat
  capacity : Int
  occupiedCapacity : Int
  udtAmount : Option Nat
  lockScriptHashId : InternId
  lockCodeHashId : InternId
  lockHashType : Int
  lockArgsId : InternId
  typeScriptHashId : Option InternId
  typeCodeHashId : Option InternId
  typeHashType : Option Int
  typeArgsId : Option InternId
  dataSize : Int
  dataHash : Option Bytes
  semanticTag : CellSemanticTag
  daoState : Option DaoCellState
  daoCompensationArs : Option DaoCompensationArs
  protocolFacts : Option CellProtocolFacts
  deriving DecidableEq

/-! ## Transactions and blocks -/

/-- A half-open range of indices. -/
structure IndexRange where
  start : Nat
  stop : Nat
  deriving DecidableEq

/-- The elements of a range; nothing if it is not a range of the list. -/
def IndexRange.get? {α : Type} (range : IndexRange) (l : List α) : Option (List α) :=
  if range.start ≤ range.stop ∧ range.stop ≤ l.length then
    some ((l.drop range.start).take (range.stop - range.start))
  else none

structure TxFacts where
  hash : Bytes
  blockNumber : Int
  blockHash : Bytes
  timestampMs : Int
  chainTimeMs : Int
  blockDaoAr : Nat
  txIndex : Int
  isCellbase : Bool
  dotbitAction : Option String
  inputOutpoints : List OutPointKey
  outputRange : IndexRange
  deriving DecidableEq

structure BlockFacts where
  number : Int
  hash : Bytes
  transactionsCount : Int
  txRange : IndexRange
  deriving DecidableEq

structure FactsArena where
  blocks : List BlockFacts := []
  txs : List TxFacts := []
  cells : List CellFacts := []
  deriving DecidableEq

structure ResolvedTxFacts where
  txHash : Bytes
  blockNumber : Int
  blockHash : Bytes
  timestampMs : Int
  chainTimeMs : Int
  blockDaoAr : Nat
  txIndex : Int
  dotbitAction : Option String
  resolvedInputs : List ResolvedInputFacts
  cells : List CellFacts
  deriving DecidableEq

end Ckbadger.Bulk
