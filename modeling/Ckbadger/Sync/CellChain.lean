/-
Ckbadger.Sync.CellChain — chains of blocks with full cells, and their live cells.

A transaction takes the cells it spends out of the live ones and puts its outputs in. A
batch finds each spent cell either among the cells that were live when it began or among
its own outputs; transactions are told apart by their hashes, so the two never mix.
-/
import Ckbadger.Writer.Cells

namespace Ckbadger.Sync

open Lib Writer CellTx FinMap List

variable {m : LiveCells} {txs xs ys : List CellTx} {c : CreatedCell} {t : CellTx}
variable {chain : List CellBlock} {o : OutPoint}

/-! ## Chains -/

/-- A parsed block with its transactions. -/
structure CellBlock where
  number : Int
  hash : Bytes
  parentHash : Bytes
  txs : List CellTx
  deriving DecidableEq

/-- The transactions of a chain. -/
def cellTxs (chain : List CellBlock) : List CellTx := chain.flatMap CellBlock.txs

abbrev LiveCells := FinMap OutPoint CreatedCell

/-- A transaction takes the cells it spends out and puts its outputs in. -/
def cellTxFlow : Flow CellTx OutPoint CreatedCell := ⟨CreatedCell.place, spends, outputs⟩

/-- The live cells at the end of a chain. -/
def liveCells (chain : List CellBlock) : LiveCells := cellTxFlow.run ∅ (cellTxs chain)

/-- The number of live cells. -/
def liveCount (m : LiveCells) : Nat := weight (fun _ _ => 1) m

/-- A type script comes with its code hash, and no data has a negative size. -/
def WellFormedCell (c : Parser.ParsedCell) : Prop :=
  c.typeScriptHash.isSome = c.typeCodeHash.isSome ∧ 0 ≤ c.dataSize

instance : DecidablePred WellFormedCell := fun _ => inferInstanceAs (Decidable (_ ∧ _))

/-- A transaction that live cells admit: it spends live cells, each once, and its inputs and
outputs can be counted. -/
@[mk_iff]
structure CellTxValid (m : LiveCells) (t : CellTx) : Prop where
  indices : ∀ o ∈ t.spends, 0 ≤ o.index ∧ o.index < 2 ^ 15
  nodup : t.spends.Nodup
  live : ∀ o ∈ t.spends, (m.lookup o).isSome
  inputs : t.inputs.length ≤ 2 ^ 15
  outputs : t.cells.length ≤ 2 ^ 15
  wellFormed : ∀ c ∈ t.cells, WellFormedCell c

instance (m : LiveCells) (t : CellTx) : Decidable (CellTxValid m t) :=
  decidable_of_iff' _ (cellTxValid_iff m t)

/-- Transactions that are valid at their turn. -/
abbrev CellTxsValid (m : LiveCells) (txs : List CellTx) : Prop :=
  ValidRun cellTxFlow.apply CellTxValid m txs

/-- A chain of full blocks: numbered from the genesis block on, linked by hashes of 32 bytes, with
transactions that are told apart by their hashes and valid at their turn, and fewer cells than
an `i64` counts. -/
@[mk_iff]
structure CellChainValid (chain : List CellBlock) : Prop where
  numbered : ∀ i (h : i < chain.length), chain[i].number = i
  linked : chain.IsChain fun a b => b.parentHash = a.hash
  hash32 : ∀ b ∈ chain, b.hash.length = 32
  positions : ∀ b ∈ chain, ∀ t ∈ b.txs, t.blockNumber = b.number
  hashes : ((cellTxs chain).map hash).Nodup
  valid : CellTxsValid ∅ (cellTxs chain)
  countable : (cellTxFlow.created (cellTxs chain)).length < 2 ^ 63

instance : DecidablePred CellChainValid := fun chain =>
  decidable_of_iff' _ (cellChainValid_iff chain)

/-! ## Cutting a chain -/

theorem cellTxs_cons (b : CellBlock) (bs : List CellBlock) : cellTxs (b :: bs) = b.txs ++ cellTxs bs :=
  flatMap_cons

theorem cellTxs_append (xs ys : List CellBlock) : cellTxs (xs ++ ys) = cellTxs xs ++ cellTxs ys := by
  simp [cellTxs]

theorem CellChainValid.of_append {xs ys : List CellBlock} (h : CellChainValid (xs ++ ys)) :
    CellChainValid xs where
  numbered i hi := by
    have hnumber := h.numbered i (by rw [length_append]; omega)
    rwa [getElem_append_left hi] at hnumber
  linked := (isChain_append.mp h.linked).1
  hash32 b hb := h.hash32 b (mem_append_left _ hb)
  positions b hb := h.positions b (mem_append_left _ hb)
  hashes := by
    have hnodup := h.hashes
    rw [cellTxs_append, map_append] at hnodup
    exact (nodup_append.mp hnodup).1
  valid := by
    have hvalid := h.valid
    rw [cellTxs_append] at hvalid
    exact (validRun_append.mp hvalid).1
  countable := by
    have hcount := h.countable
    rw [cellTxs_append, Flow.created_append, length_append] at hcount
    omega

theorem CellChainValid.take (h : CellChainValid chain) (n : Nat) :
    CellChainValid (chain.take n) := by
  rw [← take_append_drop n chain] at h
  exact h.of_append

theorem CellTxsValid.ledger (hvalid : CellTxsValid ∅ txs) (hhashes : (txs.map hash).Nodup) :
    cellTxFlow.Ledger ∅ txs where
  placed := by simp
  distinct := nodup_places hhashes
  fresh := by simp
  valid := hvalid.imp fun _ _ h => ⟨h.nodup, h.live⟩

theorem CellChainValid.ledger (h : CellChainValid chain) : cellTxFlow.Ledger ∅ (cellTxs chain) :=
  h.valid.ledger h.hashes

/-- What transactions create, less what they spend, is what the live cells grow by. -/
theorem liveCount_run (h : cellTxFlow.Ledger m txs) :
    liveCount (cellTxFlow.run m txs) + (txs.flatMap spends).length
      = liveCount m + (cellTxFlow.created txs).length := by
  have hspent : (cellTxFlow.consumed m txs).length = (txs.flatMap spends).length := by
    have hkeys := congrArg length h.map_key_consumed
    rwa [length_map] at hkeys
  have hweight := h.weight_run fun _ => 1
  simpa [liveCount, hspent] using hweight

/-- Live cells with complete data. -/
def AllWellFormed (m : LiveCells) : Prop := ∀ o c, m.lookup o = some c → WellFormedCell c.cell

theorem AllWellFormed.applyTxs (h : AllWellFormed m)
    (hvalid : CellTxsValid m txs) : AllWellFormed (cellTxFlow.run m txs) := by
  refine hvalid.invariant (fun m t h ht o c hlookup => ?_) h
  rcases lookup_insertAll hlookup with ⟨hcreated, -⟩ | hbefore
  · obtain ⟨index, hindex, rfl⟩ := mem_mapIdx.mp hcreated
    exact ht.wellFormed _ (getElem_mem hindex)
  · exact h o c (lookup_of_eraseAll hbefore)

theorem CellChainValid.allWellFormed (h : CellChainValid chain) :
    AllWellFormed (liveCells chain) := by
  refine AllWellFormed.applyTxs (fun o c hlookup => ?_) h.valid
  simp at hlookup

/-! ## Finding spent cells in a batch -/

/-- What the parser reads from the stores: the spent cells that were live before the batch. -/
def inputCellInfos (hints : UdtHints) (m : LiveCells) (txs : List CellTx) :
    Std.ExtTreeMap OutPoint PositionedCellInfo :=
  (txs.flatMap spends).foldl (fun infos o =>
    (m.lookup o).elim infos fun c => infos.insert o (c.info hints)) ∅

/-- What a batch knows of a spent cell. -/
def spentCellInfo (hints : UdtHints) (m : LiveCells) (txs : List CellTx) (o : OutPoint) :
    Option PositionedCellInfo :=
  (inputCellInfos hints m txs)[o]?.or (buildBatchCellInfos hints (cellTxFlow.created txs))[o]?

theorem getElem?_inputCellInfos (hints : UdtHints) (m : LiveCells) (txs : List CellTx)
    (o : OutPoint) :
    (inputCellInfos hints m txs)[o]? =
      if o ∈ txs.flatMap spends then (m.lookup o).map (·.info hints) else none := by
  have hfold : ∀ (os : List OutPoint) (infos : Std.ExtTreeMap OutPoint PositionedCellInfo),
      (os.foldl (fun infos o => (m.lookup o).elim infos fun c =>
        infos.insert o (c.info hints)) infos)[o]?
        = if o ∈ os then ((m.lookup o).map (·.info hints)).or infos[o]?
          else infos[o]? := by
    intro os
    induction os with
    | nil => intro infos; simp
    | cons o' os ih =>
      intro infos
      rw [foldl_cons, ih]
      by_cases ho : o' = o
      · subst ho
        cases hlookup : m.lookup o' with
        | none => simp
        | some c => simp
      · have hother : ((m.lookup o').elim infos fun c =>
            infos.insert o' (c.info hints))[o]? = infos[o]? := by
          cases m.lookup o' with
          | none => rfl
          | some c => simp [getElem?_insert_ite, ho]
        simp [hother, Ne.symm ho]
  rw [inputCellInfos, hfold]
  simp

theorem getElem?_buildBatchCellInfos (hints : UdtHints)
    (hhashes : (txs.map hash).Nodup) (hc : c ∈ cellTxFlow.created txs) :
    (buildBatchCellInfos hints (cellTxFlow.created txs))[c.place]? = some (c.info hints) := by
  obtain ⟨info, hinfo⟩ :=
    Option.isSome_iff_exists.mp (@isSome_buildBatchCellInfos _ hints c hc)
  obtain ⟨c', hc', hplace, rfl⟩ := exists_of_buildBatchCellInfos hinfo
  rw [hinfo, inj_on_of_nodup_map (nodup_places hhashes) hc' hc hplace]

/-- **A batch knows each cell it spends**, as it is at the spending transaction's turn. -/
theorem spentCellInfo_eq {hints : UdtHints} (hhashes : ((xs ++ t :: ys).map hash).Nodup)
    (hledger : cellTxFlow.Ledger m (xs ++ t :: ys)) (ho : o ∈ t.spends)
    (hc : (cellTxFlow.run m xs).lookup o = some c) :
    spentCellInfo hints m (xs ++ t :: ys) o = some (c.info hints) := by
  have hspent : o ∈ (xs ++ t :: ys).flatMap spends :=
    mem_flatMap.mpr ⟨t, by simp, ho⟩
  rw [spentCellInfo, getElem?_inputCellInfos, if_pos hspent]
  rcases Flow.lookup_run hc with hbefore | ⟨hcreated, rfl⟩
  · rw [hbefore]
    rfl
  · have hmem : c ∈ cellTxFlow.created (xs ++ t :: ys) := by
      rw [Flow.created_append]
      exact mem_append_left _ hcreated
    have hnew : m.lookup (cellTxFlow.key c) = none := hledger.fresh c hmem
    rw [hnew]
    exact getElem?_buildBatchCellInfos hints hhashes hmem

end Ckbadger.Sync
