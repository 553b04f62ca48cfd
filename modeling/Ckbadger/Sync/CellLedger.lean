/-
Ckbadger.Sync.CellLedger — what a sequence of valid transactions does to the cells.

Every cell is created once, at a place of its own, and consumed at most once. So the
unspent cells are the created ones without the consumed ones, and any sum over the
unspent cells is the sum over the created cells less that over the consumed ones.
-/
import Ckbadger.Sync.ParsedChain

namespace Ckbadger.Sync

open Lib PositionedCell FinMap List

variable {c : PositionedCell} {m : UnspentCells} {txs : List (Int × TxData)}

/-! ## Created cells -/

theorem mem_created {number : Int} {t : TxData} (h : c ∈ t.created number) :
    c.outpoint.txHash = t.hash ∧ c.createdAtBlock = number ∧ 0 ≤ c.outpoint.index ∧
      c.outpoint.index < t.cells.length := by
  obtain ⟨i, hi, rfl⟩ := mem_mapIdx.mp h
  refine ⟨rfl, rfl, ?_, ?_⟩
  · exact Int.natCast_nonneg i
  · exact Int.ofNat_lt.mpr hi

/-- The places of a transaction's outputs are its hash with the indexes from 0 on. -/
theorem map_outpoint_created (number : Int) (t : TxData) :
    (t.created number).map outpoint
      = (List.range t.cells.length).map fun i => ⟨t.hash, (i : Int)⟩ := by
  refine ext_getElem (by simp [TxData.created]) fun i h h' => ?_
  simp [TxData.created]

/-- Transactions with different hashes create different places. -/
theorem nodup_createdCells (h : (txs.map fun e => e.2.hash).Nodup) :
    ((txFlow.created txs).map outpoint).Nodup := by
  rw [Flow.created, map_flatMap, flatMap_congr fun e _ => map_outpoint_created e.1 e.2]
  exact nodup_outpoints _ h

/-! ## Ledgers -/

theorem ChainValid.ledger {chain : List ParsedBlock} (h : ChainValid chain) :
    txFlow.Ledger ∅ (chainTxs chain) where
  placed := by
    intro o c hc
    cases hc
  distinct := nodup_createdCells h.hashes
  fresh := fun c _ => Finmap.lookup_empty c.outpoint
  valid := h.valid

theorem ChainValid.take {xs ys : List ParsedBlock} (h : ChainValid (xs ++ ys)) : ChainValid xs where
  numbered := by
    intro i hi
    have hnumber := h.numbered i (by rw [length_append]; omega)
    rwa [getElem_append_left hi] at hnumber
  cellbase := (forall_mem_append.mp h.cellbase).1
  outputs := (forall_mem_append.mp h.outputs).1
  hashes := by
    have hhashes := h.hashes
    rw [chainTxs_append, map_append] at hhashes
    exact (nodup_append.mp hhashes).1
  valid := by
    have hvalid := h.valid
    rw [chainTxs_append] at hvalid
    exact (validRun_append.mp hvalid).1
  dao := (forall_mem_append.mp h.dao).1
  amounts := (forall_mem_append.mp h.amounts).1
  uncles := (forall_mem_append.mp h.uncles).1

/-- The cells a sequence of transactions consumes. -/
def consumptionsFrom (m : UnspentCells) : List (Int × TxData) → List ConsumedCell
  | [] => []
  | e :: txs =>
    ((e.2.spent m).map fun c => ⟨c, e.1, e.2.hash⟩) ++ consumptionsFrom (txFlow.apply m e) txs

/-- The place of a consumed cell. -/
def ConsumedCell.outpoint (c : ConsumedCell) : OutPoint := c.cell.outpoint

theorem consumptionsFrom_append (m : UnspentCells) (xs ys : List (Int × TxData)) :
    consumptionsFrom m (xs ++ ys)
      = consumptionsFrom m xs ++ consumptionsFrom (txFlow.run m xs) ys := by
  induction xs generalizing m with
  | nil => rfl
  | cons e xs ih =>
    rw [cons_append, consumptionsFrom, consumptionsFrom, ih, append_assoc]
    rfl

theorem map_cell_consumptionsFrom (m : UnspentCells) (txs : List (Int × TxData)) :
    (consumptionsFrom m txs).map ConsumedCell.cell = txFlow.consumed m txs := by
  induction txs generalizing m with
  | nil => rfl
  | cons e txs ih =>
    rw [consumptionsFrom, map_append, ih, map_map]
    exact congrArg (· ++ _) (map_id _)

theorem consumed_of_ledger (h : txFlow.Ledger m txs) {c : ConsumedCell}
    (hc : c ∈ consumptionsFrom m txs) :
    m.lookup c.outpoint = some c.cell ∨ c.cell ∈ txFlow.created txs := by
  refine h.mem_consumed ?_
  rw [← map_cell_consumptionsFrom]
  exact mem_map_of_mem hc

theorem map_outpoint_consumptions (h : txFlow.Ledger m txs) :
    (consumptionsFrom m txs).map ConsumedCell.outpoint = txs.flatMap fun e => e.2.spends := by
  refine Eq.trans ?_ h.map_key_consumed
  rw [← map_cell_consumptionsFrom, map_map]
  rfl

theorem nodup_consumptions (h : txFlow.Ledger m txs) :
    ((consumptionsFrom m txs).map ConsumedCell.outpoint).Nodup := by
  rw [map_outpoint_consumptions h]
  exact h.nodup_spends

/-! ## Settled blocks and their consumptions -/

/-- The cells a settled block consumes. -/
def SettledBlock.consumptions (b : SettledBlock) : List ConsumedCell :=
  b.txs.flatMap fun t => t.spent.map fun c => ⟨c, b.block.number, t.tx.hash⟩

theorem flatMap_settleTxs (m : UnspentCells) (number : Int) (ts : List TxData) :
    ((settleTxs m number ts).flatMap fun t => t.spent.map fun c => ⟨c, number, t.tx.hash⟩)
      = consumptionsFrom m (ts.map fun t => (number, t)) := by
  induction ts generalizing m with
  | nil => rfl
  | cons t ts ih =>
    rw [settleTxs, flatMap_cons, ih]
    rfl

theorem flatMap_consumptions (m : UnspentCells) (previous : Option Int) (bs : List ParsedBlock) :
    (settleFrom m previous bs).flatMap SettledBlock.consumptions
      = consumptionsFrom m (chainTxs bs) := by
  induction bs generalizing m previous with
  | nil => rfl
  | cons b bs ih =>
    have htxs : chainTxs (b :: bs) = (b.txs.map fun t => (b.number, t)) ++ chainTxs bs := by
      simp [chainTxs]
    rw [settleFrom, flatMap_cons, ih, htxs, consumptionsFrom_append]
    congr 1
    exact flatMap_settleTxs m b.number b.txs

theorem map_outpoint_settleTxs {number : Int} {ts : List TxData}
    {rest : List (Int × TxData)} (h : txFlow.Ledger m ((ts.map fun t => (number, t)) ++ rest)) :
    ((settleTxs m number ts).flatMap SettledTx.spent).map outpoint = ts.flatMap TxData.spends := by
  induction ts generalizing m with
  | nil => rfl
  | cons t ts ih =>
    have hfirst : (t.spent m).map outpoint = t.spends :=
      Flow.Ledger.map_key_spent (t := (number, t)) h
    rw [settleTxs, flatMap_cons, flatMap_cons, map_append, hfirst,
      ih (Flow.Ledger.tail (t := (number, t)) h)]

theorem map_outpoint_settleFrom {previous : Option Int} {bs : List ParsedBlock}
    (h : txFlow.Ledger m (chainTxs bs)) {b : SettledBlock} (hb : b ∈ settleFrom m previous bs) :
    (b.txs.flatMap SettledTx.spent).map outpoint = b.block.txs.flatMap TxData.spends := by
  induction bs generalizing m previous with
  | nil => cases hb
  | cons b' bs ih =>
    rcases mem_cons.mp hb with rfl | hb
    · exact map_outpoint_settleTxs h
    · exact ih h.drop hb

theorem mem_consumptions_of_settled {previous : Option Int}
    {bs : List ParsedBlock} {b : SettledBlock} (hb : b ∈ settleFrom m previous bs)
    (hc : c ∈ b.txs.flatMap SettledTx.spent) :
    ∃ d ∈ consumptionsFrom m (chainTxs bs), d.cell = c := by
  obtain ⟨t, ht, hc⟩ := mem_flatMap.mp hc
  refine ⟨⟨c, b.block.number, t.tx.hash⟩, ?_, rfl⟩
  rw [← flatMap_consumptions m previous bs, mem_flatMap]
  refine ⟨b, hb, ?_⟩
  exact mem_flatMap.mpr ⟨t, ht, mem_map_of_mem hc⟩

end Ckbadger.Sync
