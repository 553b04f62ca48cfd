/-
Ckbadger.Sync.ParsedChain — parsed blocks, the cells they create and spend, and the
chain clock.

A chain is a list of parsed blocks. Its unspent cells are a finite map from outpoints:
a transaction takes its inputs out and puts its outputs in. Settling a chain gives every
block its chain time, the running maximum of the header timestamps, and every
transaction the cells it spends. Nothing here depends on how a chain is cut into
batches.

A parsed batch carries its transactions in one vector, sliced by each block's
transaction count; here each block has its own.
-/
import Ckbadger.Lib.Bytes
import Ckbadger.Lib.Fallible
import Ckbadger.Lib.Ledger

namespace Ckbadger.Sync

open Lib List

/-! ## Parsed data -/

/-- A cell's place: the transaction that created it and the output's index (an `i16`). -/
structure OutPoint where
  txHash : Bytes
  index : Int
  deriving DecidableEq

structure ParsedInput where
  previousTxHash : Bytes
  previousOutputIndex : Int
  deriving DecidableEq

structure ParsedCell where
  capacity : Int
  lockScriptHash : Bytes
  lockArgs : Bytes
  typeArgs : Option Bytes
  dataSize : Int
  deriving DecidableEq

structure TxData where
  hash : Bytes
  isCellbase : Bool
  inputs : List ParsedInput
  cells : List ParsedCell
  deriving DecidableEq

structure ParsedBlock where
  number : Int
  hash : Bytes
  parentHash : Bytes
  /-- The header timestamp, in milliseconds. -/
  timestamp : Int
  compactTarget : Nat
  proposalsCount : Int
  unclesCount : Int
  epochNumber : Int
  epochIndex : Int
  epochLength : Int
  /-- The header's 32-byte DAO field. -/
  dao : Bytes
  minerLockHash : Option Bytes
  txs : List TxData
  deriving DecidableEq

def ParsedBlock.transactionsCount (b : ParsedBlock) : Int := b.txs.length

/-- The capacity a cell occupies, in shannons. -/
def occupiedCapacityShannons (lockArgsLen : Nat) (typeArgsLen : Option Nat) (dataSize : Int) :
    Int :=
  (8 + (33 + lockArgsLen) + (typeArgsLen.elim 0 fun len => 33 + len) + dataSize) * 100000000

def ParsedCell.occupiedCapacity (c : ParsedCell) : Int :=
  occupiedCapacityShannons c.lockArgs.length (c.typeArgs.map List.length) c.dataSize

/-- A cell with the place and the block of its creation. -/
structure PositionedCell where
  outpoint : OutPoint
  capacity : Int
  lockScriptHash : Bytes
  dataSize : Int
  occupiedCapacity : Int
  createdAtBlock : Int
  deriving DecidableEq

structure ConsumedCell where
  cell : PositionedCell
  consumedAtBlock : Int
  consumedByTx : Bytes
  deriving DecidableEq

/-- An input's index as the `i16` of an outpoint. -/
def parsedInputOutpointIndex (previousOutputIndex : Int) (context : String) : Except String Int :=
  if previousOutputIndex < 0 then
    .error ("negative input previous_output_index while indexing outpoint: context=" ++ context ++
      ", previous_output_index=" ++ toString previousOutputIndex)
  else if previousOutputIndex < 2 ^ 15 then .ok previousOutputIndex
  else
    .error ("input previous_output_index exceeds i16 range while indexing outpoint: context=" ++
      context ++ ", previous_output_index=" ++ toString previousOutputIndex)

theorem parsedInputOutpointIndex_eq_ok {index : Int} {context : String} (h : 0 ≤ index)
    (hlt : index < 2 ^ 15) : parsedInputOutpointIndex index context = .ok index := by
  rw [parsedInputOutpointIndex, if_neg (not_lt.mpr h), if_pos hlt]

/-! ## Creating and spending -/

/-- The place an input names. -/
def ParsedInput.outpoint (i : ParsedInput) : OutPoint := ⟨i.previousTxHash, i.previousOutputIndex⟩

/-- The places a transaction spends: a cellbase spends none. -/
def TxData.spends (t : TxData) : List OutPoint :=
  if t.isCellbase then [] else t.inputs.map ParsedInput.outpoint

/-- The cells a transaction of a block creates. -/
def TxData.created (number : Int) (t : TxData) : List PositionedCell :=
  t.cells.mapIdx fun index c =>
    ⟨⟨t.hash, index⟩, c.capacity, c.lockScriptHash, c.dataSize, c.occupiedCapacity, number⟩

/-- The capacity of a transaction's outputs. -/
def TxData.totalOutputCapacity (t : TxData) : Int := (t.cells.map ParsedCell.capacity).sum

abbrev UnspentCells := FinMap OutPoint PositionedCell

/-- The cells a transaction takes out of the unspent ones. -/
def TxData.spent (m : UnspentCells) (t : TxData) : List PositionedCell := t.spends.filterMap m.lookup

/-- A transaction takes its inputs out and puts its outputs in. -/
def txFlow : Flow (Int × TxData) OutPoint PositionedCell where
  key := PositionedCell.outpoint
  spends e := e.2.spends
  creates e := e.2.created e.1

/-- The transactions of a chain, each with its block's number. -/
def chainTxs (chain : List ParsedBlock) : List (Int × TxData) :=
  chain.flatMap fun b => b.txs.map fun t => (b.number, t)

/-- The unspent cells at the end of a chain. -/
def unspent (chain : List ParsedBlock) : UnspentCells := txFlow.run ∅ (chainTxs chain)

/-- A chain that may be indexed: numbered from the genesis block on, each block's first
transaction its only cellbase, transactions told apart by their hashes, with at most `2^15`
outputs each and valid at their turn. A DAO field has 32 bytes, and amounts and counts are
not negative. -/
@[mk_iff]
structure ChainValid (chain : List ParsedBlock) : Prop where
  numbered : ∀ i (h : i < chain.length), chain[i].number = i
  cellbase : ∀ b ∈ chain, ∀ i (h : i < b.txs.length), b.txs[i].isCellbase = decide (i = 0)
  outputs : ∀ b ∈ chain, ∀ t ∈ b.txs, t.cells.length ≤ 2 ^ 15
  hashes : ((chainTxs chain).map fun e => e.2.hash).Nodup
  valid : ValidRun txFlow.apply txFlow.Spendable ∅ (chainTxs chain)
  dao : ∀ b ∈ chain, b.dao.length = 32
  amounts : ∀ b ∈ chain, ∀ t ∈ b.txs, ∀ c ∈ t.cells, 0 ≤ c.capacity ∧ 0 ≤ c.dataSize
  uncles : ∀ b ∈ chain, 0 ≤ b.unclesCount

instance : DecidablePred ChainValid := fun chain =>
  decidable_of_iff' _ (chainValid_iff chain)

/-! ## Settled blocks -/

/-- A transaction with the cells it spends. -/
structure SettledTx where
  tx : TxData
  spent : List PositionedCell
  deriving DecidableEq

/-- A block with its chain time and its settled transactions. -/
structure SettledBlock where
  block : ParsedBlock
  chainTimeMs : Int
  txs : List SettledTx
  deriving DecidableEq

/-- Gives each transaction of a block the cells it spends. -/
def settleTxs (m : UnspentCells) (number : Int) : List TxData → List SettledTx
  | [] => []
  | t :: ts => ⟨t, t.spent m⟩ :: settleTxs (txFlow.apply m (number, t)) number ts

/-- The chain time of a block after a block of chain time `previous`. -/
def nextChainTime (previous : Option Int) (timestamp : Int) : Int :=
  previous.elim timestamp fun prior => max prior timestamp

/-- Settles blocks from given unspent cells and a given chain time. -/
def settleFrom (m : UnspentCells) (previous : Option Int) : List ParsedBlock → List SettledBlock
  | [] => []
  | b :: bs =>
    let chainTimeMs := nextChainTime previous b.timestamp
    ⟨b, chainTimeMs, settleTxs m b.number b.txs⟩ ::
      settleFrom (txFlow.run m (b.txs.map fun t => (b.number, t))) (some chainTimeMs) bs

/-- The settled blocks of a chain. -/
def settle (chain : List ParsedBlock) : List SettledBlock := settleFrom ∅ none chain

/-! ## The clock -/

/-- The chain time at the end of settled blocks. -/
def lastChainTime (previous : Option Int) (bs : List SettledBlock) : Option Int :=
  (bs.getLast?.map SettledBlock.chainTimeMs).or previous

theorem settleFrom_append (m : UnspentCells) (previous : Option Int) (xs ys : List ParsedBlock) :
    settleFrom m previous (xs ++ ys)
      = settleFrom m previous xs ++
        settleFrom (txFlow.run m (chainTxs xs))
          (lastChainTime previous (settleFrom m previous xs)) ys := by
  induction xs generalizing m previous with
  | nil => rfl
  | cons b xs ih =>
    have hunspent : txFlow.run m (chainTxs (b :: xs))
        = txFlow.run (txFlow.run m (b.txs.map fun t => (b.number, t))) (chainTxs xs) := by
      simp [Flow.run, chainTxs]
    have hlast : ∀ (s : SettledBlock) (rest : List SettledBlock),
        lastChainTime previous (s :: rest) = lastChainTime (some s.chainTimeMs) rest := by
      intro s rest
      cases rest with
      | nil => rfl
      | cons r rest =>
        rfl
    rw [cons_append, settleFrom, ih, settleFrom, hunspent, hlast, cons_append]

theorem length_settleFrom (m : UnspentCells) (previous : Option Int) (bs : List ParsedBlock) :
    (settleFrom m previous bs).length = bs.length := by
  induction bs generalizing m previous with
  | nil => rfl
  | cons b bs ih => rw [settleFrom, length_cons, ih, length_cons]

theorem map_block_settleFrom (m : UnspentCells) (previous : Option Int) (bs : List ParsedBlock) :
    (settleFrom m previous bs).map SettledBlock.block = bs := by
  induction bs generalizing m previous with
  | nil => rfl
  | cons b bs ih => rw [settleFrom, map_cons, ih]

theorem pairwise_chainTime (m : UnspentCells) (previous : Option Int) (bs : List ParsedBlock) :
    (settleFrom m previous bs).Pairwise (fun a b => a.chainTimeMs ≤ b.chainTimeMs) ∧
      ∀ b ∈ settleFrom m previous bs, ∀ prior ∈ previous, prior ≤ b.chainTimeMs := by
  induction bs generalizing m previous with
  | nil =>
    constructor
    · exact List.Pairwise.nil
    · intro b hb
      cases hb
  | cons b bs ih =>
    obtain ⟨hpairs, hafter⟩ := ih (txFlow.run m (b.txs.map fun t => (b.number, t)))
      (some (nextChainTime previous b.timestamp))
    have hprior : ∀ prior ∈ previous, prior ≤ nextChainTime previous b.timestamp := by
      intro prior hprior
      cases hprior
      exact le_max_left _ _
    constructor
    · refine pairwise_cons.mpr ⟨?_, hpairs⟩
      intro b' hb'
      exact hafter b' hb' _ rfl
    · intro b' hb' prior hmem
      rcases mem_cons.mp hb' with rfl | hb'
      · exact hprior prior hmem
      · exact (hprior prior hmem).trans (hafter b' hb' _ rfl)

/-- Transactions that are told apart by their hashes have outputs at places of their own. -/
theorem nodup_outpoints {T : Type} {hash : T → Bytes} (count : T → Nat) {txs : List T}
    (h : (txs.map hash).Nodup) : (txs.flatMap fun t =>
      (range (count t)).map fun i : Nat => (⟨hash t, i⟩ : OutPoint)).Nodup := by
  rw [nodup_flatMap]
  constructor
  · intro t _
    refine List.Nodup.map (fun i j hij => ?_) nodup_range
    exact Int.ofNat_inj.mp (congrArg OutPoint.index hij)
  · refine (pairwise_map.mp h).imp fun {t t'} hne o ho ho' => ?_
    obtain ⟨i, -, rfl⟩ := mem_map.mp ho
    obtain ⟨j, -, hsame⟩ := mem_map.mp ho'
    exact hne (congrArg OutPoint.txHash hsame).symm

/-! ## Finding spent cells in a batch -/

theorem chainTxs_append (xs ys : List ParsedBlock) :
    chainTxs (xs ++ ys) = chainTxs xs ++ chainTxs ys := by
  simp [chainTxs]

/-- The cells a batch creates, by place. -/
def batchCells (txs : List (Int × TxData)) : UnspentCells :=
  FinMap.insertAll PositionedCell.outpoint ∅ (txFlow.created txs)

end Ckbadger.Sync
