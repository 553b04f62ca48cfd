/-
Ckbadger.Sync.SummaryRuns — the live-cell summary over whole runs of live batches,
rollbacks and restarts.

The rows follow a chain: the history holds the block-end summaries of its last blocks
without a gap, the status its tip and totals. A live batch, the two batches of a rollback
and the recovery after a kill each keep that, and outside an interrupted rollback the
current summary is the one of the live cells at the tip.
-/
import Ckbadger.Sync.SummaryCounts

namespace Ckbadger.Sync

open Lib Writer Std SummaryRows CellBlock List

/-! ## The summaries of a chain -/

/-- The summaries at the ends of a chain's blocks. -/
def chainSummaries (chain : List CellBlock) : List LiveCellSummary := blockEndSummaries ∅ chain

theorem length_blockEndSummaries (m : LiveCells) (bs : List CellBlock) :
    (blockEndSummaries m bs).length = bs.length := by
  induction bs generalizing m with
  | nil => rfl
  | cons b bs ih => simp [blockEndSummaries, ih]

theorem blockEndSummaries_append (m : LiveCells) (xs ys : List CellBlock) :
    blockEndSummaries m (xs ++ ys)
      = blockEndSummaries m xs ++ blockEndSummaries (cellTxFlow.run m (cellTxs xs)) ys := by
  induction xs generalizing m with
  | nil => rfl
  | cons b xs ih =>
    rw [cons_append, blockEndSummaries, ih, blockEndSummaries, cons_append, cellTxs_cons,
      Flow.run_append]

theorem chainSummaries_append (xs ys : List CellBlock) :
    chainSummaries (xs ++ ys) = chainSummaries xs ++ blockEndSummaries (liveCells xs) ys :=
  blockEndSummaries_append ∅ xs ys

theorem liveCells_concat (chain : List CellBlock) (b : CellBlock) :
    cellTxFlow.run (liveCells chain) b.txs = liveCells (chain ++ [b]) := by
  rw [liveCells, liveCells, cellTxs_append, Flow.run_append]
  simp [cellTxs]

@[simp] theorem length_chainSummaries (chain : List CellBlock) :
    (chainSummaries chain).length = chain.length := length_blockEndSummaries ∅ chain

theorem take_chainSummaries (chain : List CellBlock) (n : Nat) :
    (chainSummaries chain).take n = chainSummaries (chain.take n) := by
  conv_lhs => rw [← take_append_drop n chain, chainSummaries_append]
  rw [take_append, length_chainSummaries, length_take]
  rcases le_total n chain.length with hle | hle
  · rw [min_eq_left hle, Nat.sub_self, take_zero, append_nil, take_of_length_le (by simp)]
  · rw [drop_of_length_le hle]
    simp [blockEndSummaries]

/-- The summary of a block is that of the live cells at its end. -/
theorem getElem?_chainSummaries (chain : List CellBlock) (i : Nat) :
    (chainSummaries chain)[i]?
      = (chain[i]?).map (liveSummary (liveCells (chain.take (i + 1)))) := by
  have hgeneral : ∀ (bs : List CellBlock) (m : LiveCells) (i : Nat), (blockEndSummaries m bs)[i]?
      = (bs[i]?).map (liveSummary (cellTxFlow.run m (cellTxs (bs.take (i + 1))))) := by
    intro bs
    induction bs with
    | nil => intro m i; simp [blockEndSummaries]
    | cons b bs ih =>
      intro m i
      cases i with
      | zero => simp [blockEndSummaries, cellTxs]
      | succ i =>
        rw [blockEndSummaries, getElem?_cons_succ, ih, getElem?_cons_succ,
          take_succ_cons, cellTxs_cons, Flow.run_append]
  exact hgeneral chain ∅ i

section

variable {chain bs : List CellBlock}

theorem CellChainValid.liveCount_add (h : CellChainValid chain) :
    liveCount (liveCells chain) + spentCount (cellTxs chain) = createdCount (cellTxs chain) := by
  have hcount := liveCount_run h.ledger
  have hempty : liveCount (∅ : LiveCells) = 0 := rfl
  unfold liveCells spentCount createdCount
  omega

theorem CellChainValid.batchValid (h : CellChainValid (chain ++ bs)) :
    BatchValid (liveCells chain) (cellTxs bs) where
  hashes := by
    have hhashes := h.hashes
    rw [cellTxs_append, map_append] at hhashes
    exact (nodup_append.mp hhashes).2.1
  ledger := by
    have hledger := h.ledger
    rw [cellTxs_append] at hledger
    exact hledger.drop
  wellFormed := h.of_append.allWellFormed
  valid := by
    have hvalid := h.valid
    rw [cellTxs_append] at hvalid
    exact (validRun_append.mp hvalid).2
  countable := by
    have hcount := h.countable
    have hlive := h.of_append.liveCount_add
    rw [cellTxs_append, Flow.created_append, length_append] at hcount
    unfold createdCount at hlive ⊢
    omega

/-- What a valid chain's summary at a block is, and that it is valid. -/
theorem CellChainValid.exists_summary (h : CellChainValid chain) {i : Nat} (hi : i < chain.length) :
    ∃ s, (chainSummaries chain)[i]? = some s ∧ s.tipBlockNumber = i ∧
      s.tipBlockHash = chain[i].hash ∧ s.validate = .ok () ∧
      ∀ created consumed : Int, created = createdCount (cellTxs (chain.take (i + 1))) →
        consumed = spentCount (cellTxs (chain.take (i + 1))) →
        s.validateAgainstSyncTotals created consumed = .ok () := by
  have htake := h.take (i + 1)
  have hlive := htake.liveCount_add
  have hcount := htake.countable
  have hnumber := h.numbered i hi
  unfold createdCount at hlive
  refine ⟨liveSummary (liveCells (chain.take (i + 1))) chain[i], ?_, hnumber, rfl, ?_, ?_⟩
  · rw [getElem?_chainSummaries, getElem?_eq_getElem hi]
    rfl
  · exact liveSummary_validate (by omega) (by omega)
  · intro created consumed hcreated hconsumed
    refine liveSummary_validateAgainstSyncTotals (by omega) (by omega) (by omega) (by omega) ?_
    unfold createdCount at hcreated
    omega

/-- Blocks that extend a valid chain follow it in number and hash. -/
theorem CellChainValid.isChain (h : CellChainValid chain) :
    chain.IsChain fun a b => b.number = a.number + 1 ∧ b.parentHash = a.hash := by
  refine isChain_iff_getElem.mpr fun i hi => ?_
  have hlink := isChain_iff_getElem.mp h.linked i hi
  rw [h.numbered _ hi, h.numbered i (by omega)]
  exact ⟨by push_cast; rfl, hlink⟩

end

/-! ## Rows that follow a chain -/

/-- A history that holds the summaries of a chain's last `w` blocks and no other. -/
def HistoryFollows (chain : List CellBlock) (w : Nat)
    (history : ExtTreeMap Int LiveCellSummary) : Prop :=
  ∀ n : Int, history[n]? =
    if (chain.length : Int) - w ≤ n ∧ n < chain.length then (chainSummaries chain)[n.toNat]?
    else none

/-- A table with a row for each block, at its number. -/
def RowsOf {V : Type} (f : CellBlock → V) (chain : List CellBlock) (table : ExtTreeMap Int V) :
    Prop :=
  ∀ n : Int, table[n]? = if 0 ≤ n then (chain[n.toNat]?).map f else none

/-- Rows that follow a chain of at least one block, with `w` blocks of history. -/
structure SummaryRows.Follows (chain : List CellBlock) (w : Nat) (rows : SummaryRows) : Prop where
  valid : CellChainValid chain
  window : 1 ≤ w ∧ w ≤ liveCellSummaryHistoryBlocks ∧ w ≤ chain.length
  initialized : rows.initialized = true
  /-- The current summary is the tip's, unless a rollback has withdrawn it. -/
  current : rows.current =
    if rows.rollbackCleanupInProgress then none else (chainSummaries chain).getLast?
  history : HistoryFollows chain w rows.history
  status : rows.status = ⟨chain.length - 1, (chain.getLast?.map hash).getD [],
    createdCount (cellTxs chain), spentCount (cellTxs chain)⟩
  headers : RowsOf hash chain rows.headers
  txIndex : RowsOf (fun b => b.txs.map txCounts) chain rows.txIndex

/-- Rows of an empty store, or rows that follow a chain. -/
def SummaryRows.Represents (chain : List CellBlock) (w : Nat) (rows : SummaryRows) : Prop :=
  (chain = [] ∧ w = 0 ∧ rows = .empty) ∨ rows.Follows chain w

section

variable {chain bs : List CellBlock} {w : Nat} {rows : SummaryRows}
  {history : ExtTreeMap Int LiveCellSummary}

theorem getElem?_putHistory (history : ExtTreeMap Int LiveCellSummary) (s : LiveCellSummary)
    (n : Int) :
    (putHistory history s)[n]? =
      if s.tipBlockNumber - liveCellSummaryHistoryBlocks = n ∧ 0 ≤ n then none
      else if s.tipBlockNumber = n then some s else history[n]? := by
  simp only [putHistory]
  split
  · rename_i hexpired
    rw [getElem?_erase_ite, getElem?_insert_ite]
    by_cases hn : s.tipBlockNumber - liveCellSummaryHistoryBlocks = n
    · simp [hn ▸ hexpired]
    · simp [hn]
  · rename_i hexpired
    have hkept : ¬ (s.tipBlockNumber - liveCellSummaryHistoryBlocks = n ∧ 0 ≤ n) := by
      rintro ⟨rfl, hpos⟩
      exact hexpired hpos
    rw [getElem?_insert_ite, if_neg hkept]

/-- A block's summary joins the history, and the oldest leaves a full window. -/
theorem HistoryFollows.put (h : HistoryFollows chain w history)
    (hwindow : w ≤ liveCellSummaryHistoryBlocks ∧ w ≤ chain.length) {b : CellBlock}
    (hnumber : b.number = chain.length) :
    HistoryFollows (chain ++ [b]) (min liveCellSummaryHistoryBlocks (w + 1))
      (putHistory history (liveSummary (liveCells (chain ++ [b])) b)) := by
  intro n
  have hlast : (chainSummaries (chain ++ [b]))[chain.length]?
      = some (liveSummary (liveCells (chain ++ [b])) b) := by
    rw [getElem?_chainSummaries, take_of_length_le (by simp)]
    simp
  have hold : ∀ i < chain.length, (chainSummaries (chain ++ [b]))[i]? = (chainSummaries chain)[i]? := by
    intro i hi
    rw [chainSummaries_append, getElem?_append_left (by simpa using hi)]
  have htip : (liveSummary (liveCells (chain ++ [b])) b).tipBlockNumber = chain.length := hnumber
  rw [getElem?_putHistory, htip, h n]
  unfold liveCellSummaryHistoryBlocks at *
  rw [length_append, length_singleton]
  by_cases hn : (chain.length : Int) = n
  · have htoNat : n.toNat = chain.length := by omega
    rw [if_neg (by omega), if_pos hn, if_pos (by push_cast; omega), htoNat, hlast]
  · rw [if_neg hn]
    by_cases hin : (chain.length : Int) - w ≤ n ∧ n < chain.length
    · split
      · rw [if_neg (by push_cast; omega)]
      · rw [if_pos (by push_cast; omega), hold _ (by omega)]
    · rw [if_neg hin, ite_self, if_neg (by push_cast; omega)]

/-- The blocks of a batch join the history one after another. -/
theorem HistoryFollows.putAll (h : HistoryFollows chain w history)
    (hwindow : w ≤ liveCellSummaryHistoryBlocks ∧ w ≤ chain.length)
    (hnumbered : ∀ i (hi : i < bs.length), bs[i].number = ((chain.length + i : Nat) : Int)) :
    HistoryFollows (chain ++ bs) (min liveCellSummaryHistoryBlocks (w + bs.length))
      ((blockEndSummaries (liveCells chain) bs).foldl putHistory history) := by
  induction bs generalizing chain w history with
  | nil =>
    rw [append_nil, length_nil, Nat.add_zero, min_eq_right hwindow.1]
    exact h
  | cons b bs ih =>
    have hnumber : b.number = chain.length := hnumbered 0 (Nat.succ_pos _)
    have hrest := @ih (chain ++ [b]) (min liveCellSummaryHistoryBlocks (w + 1))
      (putHistory history (liveSummary (liveCells (chain ++ [b])) b)) (h.put hwindow hnumber)
      ⟨min_le_left _ _, by rw [length_append, length_singleton]; omega⟩
      (fun i hi => by
        have hi' := hnumbered (i + 1) (by simpa using hi)
        rw [getElem_cons_succ] at hi'
        rw [hi', length_append, length_singleton]
        congr 1
        omega)
    rw [blockEndSummaries, liveCells_concat]
    have hlength : min liveCellSummaryHistoryBlocks (w + (b :: bs).length)
        = min liveCellSummaryHistoryBlocks
          (min liveCellSummaryHistoryBlocks (w + 1) + bs.length) := by
      rw [length_cons]
      omega
    rw [hlength, show chain ++ b :: bs = chain ++ [b] ++ bs by simp]
    exact hrest

/-! ## Reading the rows -/

namespace SummaryRows.Follows

variable (h : rows.Follows chain w)

include h

theorem ne_nil : chain ≠ [] := by
  intro hnil
  have hwindow := h.window
  rw [hnil, length_nil] at hwindow
  omega

theorem length_pos : 0 < chain.length := length_pos_iff.mpr h.ne_nil

theorem tip : ∃ b, chain.getLast? = some b ∧ chain[chain.length - 1]? = some b ∧
    b.hash ≠ [] ∧ b.hash.length = 32 ∧
    rows.status = ⟨chain.length - 1, b.hash, createdCount (cellTxs chain),
      spentCount (cellTxs chain)⟩ := by
  have hlast := getLast?_eq_some_getLast h.ne_nil
  have hhash := h.valid.hash32 _ (getLast_mem h.ne_nil)
  refine ⟨chain.getLast h.ne_nil, hlast, ?_, ?_, hhash, ?_⟩
  · rw [← getLast?_eq_getElem?, hlast]
  · intro hnil
    rw [hnil] at hhash
    cases hhash
  · rw [h.status, hlast]
    rfl

theorem tipNumber : rows.status.tipBlockNumber = (chain.length : Int) - 1 := by rw [h.status]

theorem tipHash_ne_nil : rows.status.tipBlockHash ≠ [] := by
  obtain ⟨b, -, -, hhash, -, hstatus⟩ := h.tip
  rw [hstatus]
  exact hhash

theorem header {k : Nat} (hk : k < chain.length) :
    rows.headers[(k : Int)]? = some chain[k].hash := by
  rw [h.headers, Int.toNat_natCast, getElem?_eq_getElem hk]
  rfl

theorem tipSummary : ∃ s, (chainSummaries chain).getLast? = some s ∧
    (chainSummaries chain)[chain.length - 1]? = some s ∧
    s.tipBlockNumber = rows.status.tipBlockNumber ∧ s.tipBlockHash = rows.status.tipBlockHash ∧
    s.validate = .ok () ∧ s.validateAgainstSyncTotals rows.status.totalCellsCreated
      rows.status.totalCellsConsumed = .ok () := by
  have hpos := h.length_pos
  obtain ⟨b, -, hb, -, -, hstatus⟩ := h.tip
  obtain ⟨s, hs, hnumber, hhash, hvalidate, htotals⟩ :=
    h.valid.exists_summary (show chain.length - 1 < chain.length by omega)
  have htake : chain.take (chain.length - 1 + 1) = chain :=
    take_of_length_le (by omega)
  have hb' : chain[chain.length - 1] = b := by
    rw [getElem?_eq_getElem (by omega)] at hb
    exact Option.some.inj hb
  rw [htake] at htotals
  refine ⟨s, ?_, hs, ?_, ?_, hvalidate, ?_⟩
  · rw [getLast?_eq_getElem?, length_chainSummaries, hs]
  · rw [h.tipNumber]
    omega
  · rw [hhash, hb', hstatus]
  · exact htotals _ _ (by rw [hstatus]) (by rw [hstatus])

theorem getLiveCellSummary_eq_ok : rows.getLiveCellSummary = .ok rows.current := by
  obtain ⟨s, hs, -, -, -, hvalidate, -⟩ := h.tipSummary
  have hcurrent := h.current
  unfold getLiveCellSummary
  cases hmarker : rows.rollbackCleanupInProgress with
  | true =>
    rw [hmarker] at hcurrent
    rw [hcurrent]
    rfl
  | false =>
    rw [hmarker, if_neg Bool.false_ne_true, hs] at hcurrent
    rw [hcurrent]
    simp only [bind_eq_ok, ensure_eq_ok, return_eq_ok, and_true]
    exact ⟨(), hvalidate, (), h.initialized⟩

theorem getLiveCellSummaryAt_eq_ok {n : Int} (hlow : (chain.length : Int) - w ≤ n)
    (hhigh : n < chain.length) :
    rows.getLiveCellSummaryAt n = .ok (chainSummaries chain)[n.toNat]? := by
  have hwindow := h.window
  have hn : 0 ≤ n := by omega
  obtain ⟨s, hs, hnumber, -, hvalidate, -⟩ :=
    h.valid.exists_summary (show n.toNat < chain.length by omega)
  have hrow : rows.history[n]? = some s := by
    rw [h.history n, if_pos ⟨hlow, hhigh⟩, hs]
  simp only [getLiveCellSummaryAt, bind_eq_ok, ensure_eq_ok, hrow, return_eq_ok]
  refine ⟨(), hn, (), hvalidate, (), ?_, hs.symm⟩
  omega

theorem getLiveCellSummaryAt_tip :
    rows.getLiveCellSummaryAt rows.status.tipBlockNumber
      = .ok (chainSummaries chain)[chain.length - 1]? := by
  have hwindow := h.window
  rw [h.tipNumber, h.getLiveCellSummaryAt_eq_ok (by omega) (by omega)]
  congr 2
  omega

end SummaryRows.Follows

/-! ## A live batch -/

/-- The index rows of blocks together are those of their transactions. -/
theorem sum_txCounts (f : TxCounts → Int) (bs : List CellBlock) :
    ((bs.map fun b => b.txs.map txCounts).map fun txs => (txs.map f).sum).sum
      = ((cellTxs bs).map fun t => f (txCounts t)).sum := by
  induction bs with
  | nil => rfl
  | cons b bs ih =>
    rw [map_cons, map_cons, sum_cons, ih, cellTxs_cons, map_append, sum_append, map_map]
    rfl

theorem createdTotal_txCounts (bs : List CellBlock) :
    createdTotal (bs.map fun b => b.txs.map txCounts) = createdCount (cellTxs bs) := by
  rw [createdTotal, sum_txCounts]
  induction cellTxs bs with
  | nil => rfl
  | cons t txs ih =>
    rw [map_cons, sum_cons, ih, createdCount_cons]
    rfl

theorem consumedTotal_txCounts (bs : List CellBlock) :
    consumedTotal (bs.map fun b => b.txs.map txCounts) = spentCount (cellTxs bs) := by
  have hone : ∀ t : CellTx, (txCounts t).consumed = t.spends.length := by
    intro t
    unfold TxCounts.consumed txCounts CellTx.spends
    split
    · rfl
    · rw [length_map]
  rw [consumedTotal, sum_txCounts]
  induction cellTxs bs with
  | nil => rfl
  | cons t txs ih => rw [map_cons, sum_cons, ih, hone, spentCount_cons, Nat.cast_add]

/-- The summaries of blocks that extend the chain pass the check on staging. -/
theorem CellChainValid.validateSequence_eq_ok {previous : Option Int}
    (h : CellChainValid (chain ++ bs)) (hprevious : ∀ p ∈ previous, (chain.length : Int) = p + 1) :
    validateSequence previous (blockEndSummaries (liveCells chain) bs) = .ok () := by
  induction bs generalizing chain previous with
  | nil => rfl
  | cons b bs ih =>
    obtain ⟨s, hs, hnumber, -, hok, -⟩ :=
      h.exists_summary (show chain.length < (chain ++ b :: bs).length by simp)
    rw [chainSummaries_append, getElem?_append_right (by simp), length_chainSummaries,
      Nat.sub_self, blockEndSummaries, liveCells_concat] at hs
    obtain rfl := Option.some.inj hs
    simp only [blockEndSummaries, validateSequence, bind_eq_ok, ensure_eq_ok, liveCells_concat]
    refine ⟨(), hok, (), fun p hp => hnumber.trans (hprevious p hp), ih (by simpa using h) ?_⟩
    rintro p ⟨⟩
    rw [hnumber, length_append]
    rfl

section

variable (h : rows.Represents chain w)

include h

/-- A batch starts with counters that count the live cells of the chain. -/
theorem SummaryRows.Represents.startCounter_eq_ok (hmarker : rows.rollbackCleanupInProgress = false)
    {first : CellBlock}
    (hvalid : CellChainValid (chain ++ first :: bs)) :
    ∃ counter, rows.startCounter first = .ok counter ∧ Counts counter (liveCells chain) := by
  rcases h with ⟨rfl, rfl, rfl⟩ | h
  · refine ⟨{}, ?_, ?_, rfl⟩
    · have hnumber : first.number = 0 := hvalid.numbered 0 (by simp)
      simp only [startCounter, bind_eq_ok, hnumber, if_true]
      exact ⟨none, rfl, (), rfl, rfl⟩
    · intro cls
      cases cls <;> rfl
  · have hwindow := h.window
    obtain ⟨b, hlast, hb, -, -, hstatus⟩ := h.tip
    obtain ⟨s, hs, hs', hnumber, hhash, hvalidate, htotals⟩ := h.tipSummary
    have hcurrent : rows.current = some s := by
      rw [h.current, hmarker, if_neg Bool.false_ne_true, hs]
    have hfirst : first.number = chain.length := by
      have hat := hvalid.numbered chain.length (by simp)
      simpa using hat
    have hparent : first.parentHash = b.hash := by
      have hlink := isChain_append.mp hvalid.linked
      exact hlink.2.2 b (by rw [hlast]; rfl) first rfl
    have hcounts : Counts ⟨s.dao, s.typedNonDao, s.plain, s.dataBearing⟩ (liveCells chain) := by
      rw [getElem?_chainSummaries, hb, take_of_length_le (by omega)] at hs'
      cases hs'
      refine ⟨fun cls => ?_, rfl⟩
      cases cls <;> rfl
    refine ⟨⟨s.dao, s.typedNonDao, s.plain, s.dataBearing⟩, ?_, hcounts⟩
    simp only [startCounter, bind_eq_ok, hfirst]
    refine ⟨rows.current, h.getLiveCellSummary_eq_ok, ?_⟩
    rw [if_neg (by omega)]
    simp only [bind_eq_ok, required_eq_ok, ensure_eq_ok]
    refine ⟨s, hcurrent, (), htotals, (), ⟨hnumber.trans h.tipNumber, h.tipNumber⟩, (),
      ⟨?_, hhash.symm⟩, _, ?_, s, hs', (), rfl, (), hvalidate, rfl⟩
    · rw [hhash, hstatus, hparent]
    · rw [← h.tipNumber]
      exact h.getLiveCellSummaryAt_tip

theorem SummaryRows.Represents.totals :
    rows.status.totalCellsCreated = createdCount (cellTxs chain) ∧
      rows.status.totalCellsConsumed = spentCount (cellTxs chain) := by
  rcases h with ⟨rfl, -, rfl⟩ | h
  · exact ⟨rfl, rfl⟩
  · obtain ⟨b, -, -, -, -, hstatus⟩ := h.tip
    exact ⟨by rw [hstatus], by rw [hstatus]⟩

theorem SummaryRows.Represents.historyFollows :
    HistoryFollows chain w rows.history ∧ w ≤ liveCellSummaryHistoryBlocks ∧ w ≤ chain.length := by
  rcases h with ⟨rfl, rfl, rfl⟩ | h
  · refine ⟨fun n => ?_, Nat.zero_le _, le_rfl⟩
    rw [if_neg (by simp only [length_nil]; omega)]
    rfl
  · exact ⟨h.history, h.window.2.1, h.window.2.2⟩

theorem SummaryRows.Represents.tables :
    RowsOf hash chain rows.headers ∧
      RowsOf (fun b => b.txs.map txCounts) chain rows.txIndex := by
  rcases h with ⟨rfl, -, rfl⟩ | h
  · simp [RowsOf, empty]
  · exact ⟨h.headers, h.txIndex⟩

end

theorem CellChainValid.counts_append (h : CellChainValid (chain ++ bs)) :
    createdCount (cellTxs chain) + createdCount (cellTxs bs) < 2 ^ 63 ∧
      spentCount (cellTxs chain) + spentCount (cellTxs bs)
        ≤ createdCount (cellTxs chain) + createdCount (cellTxs bs) := by
  have hroom : createdCount (cellTxs (chain ++ bs)) < 2 ^ 63 := h.countable
  have hbalance := h.liveCount_add
  rw [cellTxs_append, createdCount_append] at hroom
  rw [cellTxs_append, createdCount_append, spentCount_append] at hbalance
  omega

section

variable {V : Type} {f : CellBlock → V} {table : ExtTreeMap Int V} (htable : RowsOf f chain table)

include htable

theorem RowsOf.foldl_insert
    (hnumbered : ∀ i (hi : i < (chain ++ bs).length), (chain ++ bs)[i].number = i) :
    RowsOf f (chain ++ bs) (bs.foldl (fun table b => table.insert b.number (f b)) table) := by
  induction bs generalizing chain table with
  | nil =>
    rw [append_nil]
    exact htable
  | cons b bs ih =>
    have hb : b.number = chain.length := by
      have hat := hnumbered chain.length (by simp)
      simpa using hat
    rw [show chain ++ b :: bs = chain ++ [b] ++ bs by simp]
    refine ih (fun n => ?_) (by simpa using hnumbered)
    rw [getElem?_insert_ite, htable, hb]
    by_cases hn : (chain.length : Int) = n
    · rw [if_pos hn, if_pos (by omega), show n.toNat = chain.length by omega]
      simp
    · rw [if_neg hn]
      split
      · by_cases hlt : n.toNat < chain.length
        · rw [getElem?_append_left hlt]
        · rw [getElem?_eq_none (by omega),
            getElem?_eq_none (by rw [length_append, length_singleton]; omega)]
      · rfl

theorem RowsOf.filter {k : Nat} (hk : k < chain.length) :
    RowsOf f (chain.take (k + 1)) (table.filter fun number _ => number ≤ (k : Int)) := by
  intro n
  rw [getElem?_filter_ite, htable n]
  by_cases hn : n ≤ k
  · rw [if_pos (decide_eq_true hn)]
    split
    · rw [getElem?_take_of_lt (by omega)]
    · rfl
  · rw [if_neg (by simpa using hn)]
    split
    · rw [getElem?_eq_none (by rw [length_take]; omega)]
      rfl
    · rfl

end

theorem CellChainValid.lastOfBatch (hvalid : CellChainValid (chain ++ bs)) (hbs : bs ≠ []) :
    ∃ last s, bs.getLast? = some last ∧ (chain ++ bs).getLast? = some last ∧
      last.number = ((chain ++ bs).length : Int) - 1 ∧
      (blockEndSummaries (liveCells chain) bs).getLast? = some s ∧
      (chainSummaries (chain ++ bs)).getLast? = some s ∧
      s.tipBlockNumber = last.number ∧ s.tipBlockHash = last.hash ∧
      s.validateAgainstSyncTotals
        ((createdCount (cellTxs chain) : Int) + createdCount (cellTxs bs))
        ((spentCount (cellTxs chain) : Int) + spentCount (cellTxs bs)) = .ok () := by
  have hpos := length_pos_iff.mpr hbs
  have hindex : (chain ++ bs).length - 1 < (chain ++ bs).length := by
    rw [length_append]
    omega
  obtain ⟨s, hs, hnumber, hhash, -, htotals⟩ := hvalid.exists_summary hindex
  rw [take_of_length_le (by omega), cellTxs_append, createdCount_append,
    spentCount_append] at htotals
  have hlast : (chain ++ bs).getLast? = some (chain ++ bs)[(chain ++ bs).length - 1] := by
    rw [getLast?_eq_getElem?, getElem?_eq_getElem hindex]
  have hsummary : (chainSummaries (chain ++ bs)).getLast? = some s := by
    rw [getLast?_eq_getElem?, length_chainSummaries, hs]
  have hne : blockEndSummaries (liveCells chain) bs ≠ [] := by
    intro hnil
    have hlength := congrArg List.length hnil
    rw [length_blockEndSummaries, length_nil] at hlength
    omega
  have hat := hvalid.numbered _ hindex
  refine ⟨_, s, ?_, hlast, by omega, ?_, hsummary, hnumber.trans hat.symm, hhash,
    htotals _ _ (by push_cast; rfl) (by push_cast; rfl)⟩
  · rw [← hlast, getLast?_append_of_ne_nil _ hbs]
  · rw [← hsummary, chainSummaries_append, getLast?_append_of_ne_nil _ hne]

/-- The summaries of a batch that extends the chain. -/
theorem SummaryRows.Represents.prepare_eq_ok (hints : UdtHints) (h : rows.Represents chain w)
    (hmarker : rows.rollbackCleanupInProgress = false) (hbs : bs ≠ [])
    (hvalid : CellChainValid (chain ++ bs)) :
    rows.prepareLiveCellSummarySnapshots (inputCellInfos hints (liveCells chain) (cellTxs bs))
        (buildBatchCellInfos hints (cellTxFlow.created (cellTxs bs))) bs
      = .ok (blockEndSummaries (liveCells chain) bs) := by
  obtain ⟨first, rest, hcons⟩ := exists_cons_of_ne_nil hbs
  obtain ⟨hcreated, hconsumed⟩ := h.totals
  obtain ⟨hroom, hbalance⟩ := hvalid.counts_append
  obtain ⟨counter, hstart, hcounts⟩ := h.startCounter_eq_ok hmarker (hcons ▸ hvalid)
  have hposition : ∀ b ∈ bs, 0 ≤ b.number ∧ b.hash.length = 32 ∧
      ∀ t ∈ b.txs, t.blockNumber = b.number := by
    intro b hb
    have hmem := mem_append_right chain hb
    obtain ⟨i, hi, hget⟩ := mem_iff_getElem.mp hmem
    have hnumber := hvalid.numbered i hi
    rw [hget] at hnumber
    exact ⟨by omega, hvalid.hash32 b hmem, hvalid.positions b hmem⟩
  obtain ⟨loop, hblocks, hloop⟩ := @SummaryLoop.blocks_eq_ok (liveCells chain) hints (cellTxs bs) []
    ⟨counter, 0, 0⟩ bs none hvalid.batchValid rfl hposition
    (isChain_append.mp hvalid.isChain).2.1 ⟨hcounts, rfl, rfl⟩
  obtain ⟨last, s, -, -, -, hsnapshot, -, -, -, htotals⟩ := hvalid.lastOfBatch hbs
  simp only [prepareLiveCellSummarySnapshots, bind_eq_ok, required_eq_ok, checked_eq_ok,
    fitsSignedBits, decide_eq_true_eq, hcreated, hconsumed]
  refine ⟨first, by rw [hcons]; rfl, counter, hstart, _, hblocks, _, ⟨?_, rfl⟩, _, ⟨?_, rfl⟩, s,
    hsnapshot, (), ?_, rfl⟩
  · rw [hloop.created]
    omega
  · rw [hloop.consumed]
    omega
  · rw [hloop.created, hloop.consumed]
    exact htotals

/-- **A live batch of a valid chain goes through**, and the rows follow the longer chain. -/
theorem SummaryRows.Represents.writeParsedBatch (hints : UdtHints) (h : rows.Represents chain w)
    (hmarker : rows.rollbackCleanupInProgress = false) (hbs : bs ≠ [])
    (hvalid : CellChainValid (chain ++ bs)) :
    ∃ rows', rows.writeParsedBatch (inputCellInfos hints (liveCells chain) (cellTxs bs))
        (buildBatchCellInfos hints (cellTxFlow.created (cellTxs bs))) bs = .ok rows' ∧
      rows'.Follows (chain ++ bs) (min liveCellSummaryHistoryBlocks (w + bs.length)) ∧
      rows'.rollbackCleanupInProgress = false := by
  obtain ⟨hcreated, hconsumed⟩ := h.totals
  obtain ⟨hhistory, hwindow⟩ := h.historyFollows
  obtain ⟨last, s, hlast, hlastAll, hlastNumber, hsnapshot, hsummary, hnumber, hhash, htotals⟩ :=
    hvalid.lastOfBatch hbs
  obtain ⟨hroom, hbalance⟩ := hvalid.counts_append
  obtain ⟨hheaders, hindex⟩ := h.tables
  have hpos := length_pos_iff.mpr hbs
  apply Exists.intro
  refine ⟨?_, ?_, ?_⟩
  · simp only [SummaryRows.writeParsedBatch, SummaryRows.putLiveCellSummarySnapshots, bind_eq_ok,
      required_eq_ok, ensure_eq_ok, checked_eq_ok, fitsSignedBits, decide_eq_true_eq,
      createdTotal_txCounts, consumedTotal_txCounts, hcreated, hconsumed]
    exact ⟨_, h.prepare_eq_ok hints hmarker hbs hvalid, last, hlast, _, ⟨by omega, rfl⟩, _,
      ⟨by omega, rfl⟩, s, hsnapshot, (), ⟨hnumber, hhash⟩, (), htotals, _,
      ⟨s, hsnapshot, (), hvalid.validateSequence_eq_ok (by simp), rfl⟩, rfl⟩
  · refine ⟨hvalid, ?_, rfl, ?_, hhistory.putAll hwindow ?_, ?_,
      hheaders.foldl_insert hvalid.numbered, hindex.foldl_insert hvalid.numbered⟩
    · unfold liveCellSummaryHistoryBlocks
      rw [length_append]
      omega
    · simp [hmarker, hsummary]
    · intro i hi
      have hat := hvalid.numbered (chain.length + i) (by rw [length_append]; omega)
      rwa [getElem_append_right (by omega), show bs[chain.length + i - chain.length]
        = bs[i] by congr 1; omega] at hat
    · rw [hlastAll, hlastNumber, cellTxs_append, createdCount_append, spentCount_append]
      simp
  · exact hmarker

/-! ## A rollback -/

namespace SummaryRows.Follows

/-- The index rows a rollback removes, up to their order. -/
theorem removed_perm (h : rows.Follows chain w) {k : Nat} :
    ((rows.txIndex.filter fun number _ => (k : Int) < number && number ≤ (chain.length : Int) - 1)
        ).toList.Perm
      ((chain.drop (k + 1)).map fun b => (b.number, b.txs.map txCounts)) := by
  have hnumbers : (chain.map number).Nodup := by
    refine List.nodup_iff_injective_get.mpr fun i j hij => ?_
    simp only [List.get_eq_getElem, List.getElem_map] at hij
    rw [h.valid.numbered i (by simpa using i.2), h.valid.numbered j (by simpa using j.2)] at hij
    exact Fin.ext (by exact_mod_cast hij)
  have hnodup : ((chain.drop (k + 1)).map fun b => (b.number, b.txs.map txCounts)).Nodup := by
    refine List.Nodup.of_map Prod.fst ?_
    rw [List.map_map]
    have hdrop : ((chain.drop (k + 1)).map number).Nodup := by
      rw [List.map_drop]
      exact hnumbers.sublist (List.drop_sublist _ _)
    exact hdrop
  refine (List.perm_ext_iff_of_nodup (nodup_toList _) hnodup).mpr fun row => ?_
  obtain ⟨n, v⟩ := row
  rw [ExtTreeMap.mem_toList_iff_getElem?_eq_some, getElem?_filter_ite, h.txIndex, List.mem_map]
  constructor
  · intro hrow
    split at hrow
    · rename_i hrange
      simp only [Bool.and_eq_true, decide_eq_true_eq] at hrange
      rw [if_pos (by omega)] at hrow
      obtain ⟨b, hb, rfl⟩ := Option.map_eq_some_iff.mp hrow
      obtain ⟨hlt, hget⟩ := List.getElem?_eq_some_iff.mp hb
      refine ⟨b, ?_, ?_⟩
      · rw [List.mem_drop_iff_getElem]
        refine ⟨n.toNat - (k + 1), by omega, ?_⟩
        rw [← hget]
        congr 1
        omega
      · have hnumber := h.valid.numbered n.toNat hlt
        rw [hget] at hnumber
        congr 1
        omega
    · cases hrow
  · rintro ⟨b, hb, heq⟩
    cases heq
    obtain ⟨i, hi, rfl⟩ := List.mem_drop_iff_getElem.mp hb
    have hnumber := h.valid.numbered (k + 1 + i) (by omega)
    rw [hnumber, if_pos (by simp only [Bool.and_eq_true, decide_eq_true_eq]; omega),
      List.getElem?_eq_getElem (by omega)]
    rfl

section Target

variable (h : rows.Follows chain w) {k : Nat} (hk : k < chain.length)
  (hdepth : chain.length - w ≤ k) {target : LiveCellSummary}
  (htarget : (chainSummaries chain)[k]? = some target)

include h hk hdepth htarget

/-- The plan of a rollback to a block of the window. -/
theorem prepareRollback_eq_ok :
    rows.prepareLiveCellSummaryRollback k
      = .ok (some ⟨chain.length - 1, max 0 ((chain.length : Int) - 1 - 36), some target⟩) := by
  have hwindow := h.window
  unfold liveCellSummaryHistoryBlocks at hwindow
  obtain ⟨s, hs, hs', hnumber, hhash', -, htotals⟩ := h.tipSummary
  obtain ⟨target', htarget', htnumber, hthash, -, -⟩ := h.valid.exists_summary hk
  rw [htarget] at htarget'
  cases htarget'
  have hcurrent : ∀ c ∈ rows.current, c = s := by
    intro c hc
    rw [h.current] at hc
    split at hc
    · cases hc
    · rw [hs] at hc
      exact (Option.some.inj hc).symm
  have hvisible : rows.current.isSome ∨ rows.rollbackCleanupInProgress = true := by
    cases hmarker : rows.rollbackCleanupInProgress with
    | true => exact .inr rfl
    | false =>
      left
      rw [h.current, hmarker, hs]
      rfl
  have hread : rows.rollbackTarget k = .ok (some target) := by
    simp only [rollbackTarget, if_pos (Int.natCast_nonneg k), bind_eq_ok,
      required_eq_ok, ensure_eq_ok]
    refine ⟨_, h.getLiveCellSummaryAt_eq_ok (by omega) (by omega), target, htarget,
      chain[k].hash, h.header hk, (), ⟨htnumber, hthash⟩, rfl⟩
  simp only [prepareLiveCellSummaryRollback, bind_eq_ok, if_neg h.tipHash_ne_nil,
    h.initialized, Bool.true_eq_false, if_false]
  refine ⟨rows.current, h.getLiveCellSummary_eq_ok, _, h.getLiveCellSummaryAt_tip, ?_⟩
  simp only [required_eq_ok, ensure_eq_ok]
  refine ⟨s, hs', (), htotals, (), ⟨hnumber, hhash'⟩, (), hcurrent, (), hvisible, (), ?_, (), ?_,
    _, hread, ?_⟩
  · rw [h.tipNumber]
    omega
  · rw [h.tipNumber]
    unfold maxShallowReorgDepth
    omega
  · rw [h.tipNumber]
    rfl

/-- **The final batch of a rollback** leaves rows that follow the chain up to the target. -/
theorem finishRollback :
    ∃ rows', rows.finishRollback
        (some ⟨chain.length - 1, max 0 ((chain.length : Int) - 1 - 36), some target⟩) k
        = .ok rows' ∧
      rows'.Follows (chain.take (k + 1)) (w - (chain.length - 1 - k)) ∧
      rows'.rollbackCleanupInProgress = false ∧ rows'.current = some target := by
  have hwindow := h.window
  unfold liveCellSummaryHistoryBlocks at hwindow
  obtain ⟨b, -, -, hhash, -, hstatus⟩ := h.tip
  obtain ⟨target', htarget', htnumber, hthash, -, htotals⟩ := h.valid.exists_summary hk
  rw [htarget] at htarget'
  cases htarget'
  have hcut : cellTxs chain = cellTxs (chain.take (k + 1)) ++ cellTxs (chain.drop (k + 1)) := by
    rw [← cellTxs_append, take_append_drop]
  have hcreatedCut := createdCount_append (cellTxs (chain.take (k + 1))) (cellTxs (chain.drop (k + 1)))
  have hspentCut := spentCount_append (cellTxs (chain.take (k + 1))) (cellTxs (chain.drop (k + 1)))
  rw [← hcut] at hcreatedCut hspentCut
  have hremoved := (@removed_perm chain w rows h k).map Prod.snd
  rw [map_map] at hremoved
  have hcreated : createdTotal _ = _ :=
    (hremoved.map _).sum_eq.trans (createdTotal_txCounts (chain.drop (k + 1)))
  have hconsumed : consumedTotal _ = _ :=
    (hremoved.map _).sum_eq.trans (consumedTotal_txCounts (chain.drop (k + 1)))
  have hlength : (chain.take (k + 1)).length = k + 1 := by
    rw [length_take]
    omega
  have hlast : (chain.take (k + 1)).getLast? = some chain[k] := by
    rw [getLast?_eq_getElem?, hlength, Nat.add_sub_cancel, getElem?_take_of_succ,
      getElem?_eq_getElem hk]
  apply Exists.intro
  refine ⟨?_, ?_, ?_, ?_⟩
  · have haccounted : (if rows.status.tipBlockNumber = 0 ∧ rows.status.tipBlockHash = [] then -1
        else rows.status.tipBlockNumber) = (chain.length : Int) - 1 := by
      rw [if_neg (fun hempty => hhash (by rw [hstatus] at hempty; exact hempty.2)), hstatus]
    simp only [SummaryRows.finishRollback, haccounted, if_pos (Int.natCast_nonneg k), bind_eq_ok,
      required_eq_ok, hcreated, hconsumed]
    refine ⟨chain[k].hash, h.header hk, createdCount (cellTxs (chain.take (k + 1))), ?_,
      spentCount (cellTxs (chain.take (k + 1))), ?_, some target, ?_, ?_⟩
    · simp only [checkedRollbackTotal, bind_eq_ok, ensure_eq_ok, return_eq_ok, hstatus]
      exact ⟨(), by omega, (), by omega, (), by omega, by omega⟩
    · simp only [checkedRollbackTotal, bind_eq_ok, ensure_eq_ok, return_eq_ok, hstatus]
      exact ⟨(), by omega, (), by omega, (), by omega, by omega⟩
    · simp only [ensure_eq_ok, return_eq_ok, and_true]
      exact ⟨(), htotals _ _ rfl rfl, (), htnumber, hthash⟩
    · rw [if_neg (by omega)]
      rfl
  · refine ⟨h.valid.take (k + 1), ?_, h.initialized, ?_, ?_, ?_, ?_, ?_⟩
    · unfold liveCellSummaryHistoryBlocks
      omega
    · rw [if_neg Bool.false_ne_true, ← take_chainSummaries, getLast?_eq_getElem?,
        length_take, length_chainSummaries, min_eq_left (by omega), Nat.add_sub_cancel,
        getElem?_take_of_succ, htarget]
    · intro n
      simp only [deleteHistory]
      rw [getElem?_filter_ite, h.history n, hlength, ← take_chainSummaries]
      by_cases hn : n ≤ k
      · rw [if_pos (by simp only [Bool.not_eq_true', Bool.and_eq_false_iff, decide_eq_false_iff_not]; omega)]
        by_cases hin : (chain.length : Int) - w ≤ n
        · rw [if_pos (by omega), if_pos (by push_cast; omega), getElem?_take_of_lt (by omega)]
        · rw [if_neg (by omega), if_neg (by push_cast; omega)]
      · split
        · rename_i hkeep
          simp only [Bool.not_eq_true', Bool.and_eq_false_iff, decide_eq_false_iff_not] at hkeep
          rw [if_neg (show ¬ ((chain.length : Int) - w ≤ n ∧ n < chain.length) by omega),
            if_neg (by push_cast; omega)]
        · rw [if_neg (by push_cast; omega)]
    · rw [hlast, hlength]
      simp
    · exact h.headers.filter hk
    · exact h.txIndex.filter hk
  · rfl
  · rfl

end Target

/-- The first batch of a rollback takes back the current summary and nothing else. -/
theorem withdraw (h : rows.Follows chain w)
    (plan : LiveCellSummaryRollbackPlan) : (rows.withdraw (some plan)).Follows chain w :=
  ⟨h.valid, h.window, h.initialized, rfl, h.history, h.status, h.headers, h.txIndex⟩

/-! ## A restart -/

/-- **A restart after an interrupted rollback** restores the summary of the tip. -/
theorem restoreVisibility (h : rows.Follows chain w)
    (hmarker : rows.rollbackCleanupInProgress = true) :
    ∃ rows', rows.restoreVisibility = .ok rows' ∧ rows'.Follows chain w ∧
      rows'.rollbackCleanupInProgress = false := by
  have hwindow := h.window
  unfold liveCellSummaryHistoryBlocks at hwindow
  obtain ⟨b, -, hb, hhash, -, hstatus⟩ := h.tip
  obtain ⟨s, hs, hs', hnumber, hhash', hvalidate, htotals⟩ := h.tipSummary
  have hcurrent : rows.current = none := by rw [h.current, if_pos hmarker]
  let restored : SummaryRows := { rows with
    initialized := true
    current := some s
    history := putHistory rows.history s }
  have hput : rows.putLiveCellSummarySnapshots [s] = .ok restored := by
    simp only [SummaryRows.putLiveCellSummarySnapshots, bind_eq_ok]
    refine ⟨s, rfl, (), ?_, rfl⟩
    simp only [validateSequence, bind_eq_ok, ensure_eq_ok]
    exact ⟨(), hvalidate, (), fun p hp => (by cases hp), trivial⟩
  have hheader : rows.headers[rows.status.tipBlockNumber]? = some b.hash := by
    rw [h.headers, h.tipNumber, if_pos (by omega), show ((chain.length : Int) - 1).toNat
      = chain.length - 1 by omega, hb]
    rfl
  refine ⟨{ restored with rollbackCleanupInProgress := false }, ?_, ?_, rfl⟩
  · simp only [SummaryRows.restoreVisibility, bind_eq_ok, ensure_eq_ok, if_neg h.tipHash_ne_nil]
    refine ⟨(), hmarker, rows.current, h.getLiveCellSummary_eq_ok, _, h.getLiveCellSummaryAt_tip,
      (), .inl h.initialized, restored, ?_, rfl⟩
    rw [hs']
    simp only [bind_eq_ok, ensure_eq_ok, required_eq_ok]
    refine ⟨(), htotals, (), ⟨hnumber, hhash'⟩, (), ?_, b.hash, hheader, (), ?_, hput⟩
    · intro c hc
      rw [hcurrent] at hc
      cases hc
    · rw [hhash', hstatus]
  · refine ⟨h.valid, h.window, rfl, ?_, ?_, h.status, h.headers, h.txIndex⟩
    · rw [if_neg Bool.false_ne_true, hs]
    · intro n
      rw [getElem?_putHistory, h.history n, hnumber, h.tipNumber]
      unfold liveCellSummaryHistoryBlocks
      split
      · rw [if_neg (by omega)]
      · split
        · rw [if_pos (by omega), ← hs']
          congr 1
          omega
        · rfl

end SummaryRows.Follows

end

/-! ## Runs -/

/-- What the indexer is doing. -/
inductive SummaryPhase where
  | running
  /-- Between the two batches of a rollback. -/
  | rollingBack (plan : Option LiveCellSummaryRollbackPlan) (rollbackTo : Int)
  /-- Killed, not yet restarted. -/
  | stopped

/-- The chain that is committed, the rows, and what the indexer is doing. -/
structure SummaryState where
  chain : List CellBlock
  rows : SummaryRows
  phase : SummaryPhase

def SummaryState.initial : SummaryState := ⟨[], .empty, .running⟩

inductive SummaryState.Step : SummaryState → SummaryState → Prop
  /-- A batch under the labels and registered scripts of the moment. -/
  | batch {hints : UdtHints} {chain bs : List CellBlock} {rows rows' : SummaryRows} (hbs : bs ≠ [])
      (hvalid : CellChainValid (chain ++ bs))
      (hwrite : rows.writeParsedBatch (inputCellInfos hints (liveCells chain) (cellTxs bs))
        (buildBatchCellInfos hints (cellTxFlow.created (cellTxs bs))) bs = .ok rows') :
      Step ⟨chain, rows, .running⟩ ⟨chain ++ bs, rows', .running⟩
  /-- A rollback to a block whose summary is retained begins. -/
  | beginRollback {chain : List CellBlock} {rows : SummaryRows} {rollbackTo : Int}
      {plan : Option LiveCellSummaryRollbackPlan}
      (hretained : (rows.history[rollbackTo]?).isSome)
      (hplan : rows.prepareLiveCellSummaryRollback rollbackTo = .ok plan) :
      Step ⟨chain, rows, .running⟩ ⟨chain, rows.withdraw plan, .rollingBack plan rollbackTo⟩
  | finishRollback {chain : List CellBlock} {rows rows' : SummaryRows} {rollbackTo : Int}
      {plan : Option LiveCellSummaryRollbackPlan}
      (hfinish : rows.finishRollback plan rollbackTo = .ok rows') :
      Step ⟨chain, rows, .rollingBack plan rollbackTo⟩
        ⟨chain.take (rollbackTo + 1).toNat, rows', .running⟩
  | kill {chain : List CellBlock} {rows : SummaryRows} {phase : SummaryPhase} :
      Step ⟨chain, rows, phase⟩ ⟨chain, rows, .stopped⟩
  /-- A start on a store without the cleanup marker. -/
  | start {chain : List CellBlock} {rows : SummaryRows}
      (hmarker : rows.rollbackCleanupInProgress = false) :
      Step ⟨chain, rows, .stopped⟩ ⟨chain, rows, .running⟩
  /-- A start that finds the marker and no data past the tip. -/
  | restore {chain : List CellBlock} {rows rows' : SummaryRows}
      (hrestore : rows.restoreVisibility = .ok rows') :
      Step ⟨chain, rows, .stopped⟩ ⟨chain, rows', .running⟩
  /-- A start that finds data past the tip rolls back to the tip. -/
  | cleanup {chain : List CellBlock} {rows : SummaryRows}
      {plan : Option LiveCellSummaryRollbackPlan} (htip : rows.status.tipBlockHash ≠ [])
      (hplan : rows.prepareLiveCellSummaryRollback rows.status.tipBlockNumber = .ok plan) :
      Step ⟨chain, rows, .stopped⟩
        ⟨chain, rows.withdraw plan, .rollingBack plan rows.status.tipBlockNumber⟩

def SummaryState.Reachable : SummaryState → Prop :=
  Relation.ReflTransGen SummaryState.Step .initial

/-- A rollback under way is to a block of the window, with the plan for it. -/
def SummaryPhase.Follows (chain : List CellBlock) (w : Nat) (rows : SummaryRows) :
    SummaryPhase → Prop
  | .running => rows.rollbackCleanupInProgress = false
  | .rollingBack plan rollbackTo => rows.Follows chain w ∧ ∃ (k : Nat) (target : LiveCellSummary),
      rollbackTo = k ∧ k < chain.length ∧ chain.length - w ≤ k ∧
      (chainSummaries chain)[k]? = some target ∧
      plan = some ⟨chain.length - 1, max 0 ((chain.length : Int) - 1 - 36), some target⟩
  | .stopped => True

theorem SummaryRows.Represents.exists_target {chain : List CellBlock} {w : Nat}
    {rows : SummaryRows} (h : rows.Represents chain w) {rollbackTo : Int}
    (hretained : (rows.history[rollbackTo]?).isSome) :
    rows.Follows chain w ∧ ∃ (k : Nat) (target : LiveCellSummary), rollbackTo = k ∧
      k < chain.length ∧ chain.length - w ≤ k ∧ (chainSummaries chain)[k]? = some target := by
  rcases h with ⟨-, -, rfl⟩ | h
  · simp [empty] at hretained
  · have hwindow := h.window
    rw [h.history rollbackTo] at hretained
    split at hretained
    · obtain ⟨target, htarget⟩ := Option.isSome_iff_exists.mp hretained
      exact ⟨h, rollbackTo.toNat, target, by omega, by omega, by omega, htarget⟩
    · cases hretained

theorem SummaryRows.Represents.tip_retained {chain : List CellBlock} {w : Nat}
    {rows : SummaryRows} (h : rows.Represents chain w) (htip : rows.status.tipBlockHash ≠ []) :
    (rows.history[rows.status.tipBlockNumber]?).isSome := by
  rcases h with ⟨-, -, rfl⟩ | hfollows
  · exact absurd rfl htip
  · have hwindow := hfollows.window
    obtain ⟨b, -, -, -, -, hstatus⟩ := hfollows.tip
    obtain ⟨target, -, htarget, -⟩ := hfollows.tipSummary
    rw [hstatus, hfollows.history, if_pos (by simp only; omega)]
    rw [show ((chain.length : Int) - 1).toNat = chain.length - 1 by omega, htarget]
    rfl

theorem SummaryState.Step.represents {s t : SummaryState}
    (hstep : SummaryState.Step s t) {w : Nat} (h : s.rows.Represents s.chain w)
    (hphase : s.phase.Follows s.chain w s.rows) :
    ∃ w', t.rows.Represents t.chain w' ∧ t.phase.Follows t.chain w' t.rows := by
  have hbegin : ∀ {chain : List CellBlock} {rows : SummaryRows} {rollbackTo : Int}
      {plan : Option LiveCellSummaryRollbackPlan}, rows.Represents chain w →
      (rows.history[rollbackTo]?).isSome →
      rows.prepareLiveCellSummaryRollback rollbackTo = .ok plan →
      ∃ w', (rows.withdraw plan).Represents chain w' ∧
        (SummaryPhase.rollingBack plan rollbackTo).Follows chain w' (rows.withdraw plan) := by
    intro chain rows rollbackTo plan h hretained hplan
    obtain ⟨hfollows, k, target, rfl, hk, hdepth, htarget⟩ := h.exists_target hretained
    rw [hfollows.prepareRollback_eq_ok hk hdepth htarget] at hplan
    cases hplan
    exact ⟨w, .inr (hfollows.withdraw _), hfollows.withdraw _, k, target, rfl, hk, hdepth, htarget,
      rfl⟩
  cases hstep with
  | batch hbs hvalid hwrite =>
    obtain ⟨rows', hok, hfollows, hmarker⟩ := h.writeParsedBatch _ hphase hbs hvalid
    rw [hok] at hwrite
    cases hwrite
    exact ⟨_, .inr hfollows, hmarker⟩
  | beginRollback hretained hplan => exact hbegin h hretained hplan
  | @finishRollback chain rows rows' rollbackTo plan hfinish =>
    obtain ⟨hfollows, k, target, rfl, hk, hdepth, htarget, hplan⟩ := hphase
    rw [hplan] at hfinish
    obtain ⟨rows', hok, hfollows', hmarker, -⟩ := hfollows.finishRollback hk hdepth htarget
    rw [hok] at hfinish
    cases hfinish
    refine ⟨w - (chain.length - 1 - k), .inr ?_, hmarker⟩
    rwa [show ((k : Int) + 1).toNat = k + 1 by omega]
  | kill => exact ⟨w, h, trivial⟩
  | start hmarker => exact ⟨w, h, hmarker⟩
  | restore hrestore =>
    rcases h with ⟨-, -, hempty⟩ | hfollows
    · -- an empty store has no marker
      simp only at hempty
      rw [hempty] at hrestore
      cases hrestore
    · have hmarker := hrestore
      simp only [restoreVisibility, bind_eq_ok, ensure_eq_ok] at hmarker
      obtain ⟨-, hmarker, -⟩ := hmarker
      obtain ⟨rows', hok, hfollows', hmarker'⟩ := hfollows.restoreVisibility hmarker
      rw [hok] at hrestore
      cases hrestore
      exact ⟨w, .inr hfollows', hmarker'⟩
  | cleanup htip hplan => exact hbegin h (h.tip_retained htip) hplan

theorem SummaryState.Reachable.represents {s : SummaryState} (h : s.Reachable) :
    ∃ w, s.rows.Represents s.chain w ∧ s.phase.Follows s.chain w s.rows := by
  induction h with
  | refl => exact ⟨0, .inl ⟨rfl, rfl, rfl⟩, rfl⟩
  | tail _ hstep ih =>
    obtain ⟨w, hrows, hphase⟩ := ih
    exact hstep.represents hrows hphase

theorem getLast?_chainSummaries (chain : List CellBlock) :
    (chainSummaries chain).getLast? = chain.getLast?.map (liveSummary (liveCells chain)) := by
  rw [getLast?_eq_getElem?, getLast?_eq_getElem?, length_chainSummaries, getElem?_chainSummaries]
  rcases eq_nil_or_concat chain with rfl | ⟨front, last, rfl⟩
  · rfl
  · rw [take_of_length_le (by simp)]

/-- **The live-cell summary over runs.** Whatever batches, rollbacks, kills and restarts came
before: the history is the block-end summaries of the last blocks without a gap; unless an
interrupted rollback has withdrawn it, the current summary is that of the live cells at the
tip, and a restart puts a withdrawn one back; a rollback to a block of the history goes through
and restores the summary of the live cells at that block's end; and the next blocks of the
chain go through. -/
theorem live_cell_summary_follows_live_cells {s : SummaryState} (hreach : s.Reachable) :
    (s.phase = .running → s.rows.rollbackCleanupInProgress = false) ∧
    (s.rows.rollbackCleanupInProgress = false →
      s.rows.current = s.chain.getLast?.map (liveSummary (liveCells s.chain))) ∧
    (s.rows.rollbackCleanupInProgress = true → ∃ rows', s.rows.restoreVisibility = .ok rows' ∧
      rows'.current = s.chain.getLast?.map (liveSummary (liveCells s.chain)) ∧
      ∀ n : Int, rows'.history[n]? = s.rows.history[n]?) ∧
    (∃ w : Nat, w ≤ liveCellSummaryHistoryBlocks ∧ w ≤ s.chain.length ∧
      (s.chain ≠ [] → 1 ≤ w) ∧
      (∀ n : Int, s.rows.history[n]? =
        if (s.chain.length : Int) - w ≤ n ∧ n < s.chain.length then
          (s.chain[n.toNat]?).map (liveSummary (liveCells (s.chain.take (n.toNat + 1))))
        else none) ∧
      ∀ k : Nat, s.chain.length - w ≤ k → k < s.chain.length →
        ∃ plan rows', s.rows.prepareLiveCellSummaryRollback k = .ok plan ∧
          (s.rows.withdraw plan).finishRollback plan k = .ok rows' ∧
          rows'.rollbackCleanupInProgress = false ∧
          rows'.current = (s.chain[k]?).map (liveSummary (liveCells (s.chain.take (k + 1))))) ∧
    (s.phase = .running → ∀ (hints : UdtHints) (bs : List CellBlock), bs ≠ [] →
      CellChainValid (s.chain ++ bs) →
      ∃ rows', s.rows.writeParsedBatch (inputCellInfos hints (liveCells s.chain) (cellTxs bs))
        (buildBatchCellInfos hints (cellTxFlow.created (cellTxs bs))) bs = .ok rows') := by
  obtain ⟨w, hrows, hphase⟩ := hreach.represents
  have hrunning : s.phase = .running → s.rows.rollbackCleanupInProgress = false := by
    intro hrun
    rwa [hrun] at hphase
  obtain ⟨hhistory, hwindow⟩ := hrows.historyFollows
  refine ⟨hrunning, ?_, ?_, ⟨w, hwindow.1, hwindow.2, ?_, ?_, ?_⟩, ?_⟩
  · intro hmarker
    rw [← getLast?_chainSummaries]
    rcases hrows with ⟨hchain, -, hempty⟩ | hfollows
    · rw [hempty, hchain]
      rfl
    · rw [hfollows.current, hmarker, if_neg Bool.false_ne_true]
  · intro hmarker
    rcases hrows with ⟨-, -, hempty⟩ | hfollows
    · rw [hempty] at hmarker
      cases hmarker
    · obtain ⟨rows', hok, hfollows', hmarker'⟩ := hfollows.restoreVisibility hmarker
      refine ⟨rows', hok, ?_, fun n => ?_⟩
      · rw [hfollows'.current, hmarker', if_neg Bool.false_ne_true, getLast?_chainSummaries]
      · rw [hfollows'.history n, hfollows.history n]
  · intro hchain
    rcases hrows with ⟨hnil, -, -⟩ | hfollows
    · exact absurd hnil hchain
    · exact hfollows.window.1
  · intro n
    rw [hhistory n, getElem?_chainSummaries]
  · intro k hlow hk
    rcases hrows with ⟨hnil, -, -⟩ | hfollows
    · rw [hnil] at hk
      cases hk
    · obtain ⟨target, htarget, -⟩ := hfollows.valid.exists_summary hk
      obtain ⟨rows', hok, -, hmarker, hcurrent⟩ :=
        (hfollows.withdraw _).finishRollback hk hlow htarget
      refine ⟨_, rows', hfollows.prepareRollback_eq_ok hk hlow htarget, hok, hmarker, ?_⟩
      rw [hcurrent, ← htarget, getElem?_chainSummaries]
  · intro hrun hints bs hbs hvalid
    obtain ⟨rows', hok, -⟩ := hrows.writeParsedBatch hints (hrunning hrun) hbs hvalid
    exact ⟨rows', hok⟩

/-! Two blocks, the second of which spends the cell of the first, and a process killed in the
middle of a rollback to the first. -/

def summaryCell : Parser.ParsedCell :=
  ⟨6100000000, [7], [8], 1, [], none, none, none, none, 0, [], [9]⟩

def summaryHints : UdtHints := ⟨⟨[], [], []⟩, fun _ => none⟩

def summaryChain : List CellBlock :=
  [⟨0, List.replicate 32 1, [], [⟨0, [1], true, [], [summaryCell]⟩]⟩,
    ⟨1, List.replicate 32 2, List.replicate 32 1, [⟨1, [2], true, [], [summaryCell]⟩,
      ⟨1, [3], false, [⟨[1], 0⟩], [summaryCell]⟩]⟩]

theorem interrupted_rollback_reachable : ∃ s : SummaryState, s.Reachable ∧
    s.chain = summaryChain ∧ s.rows.rollbackCleanupInProgress = true := by
  have hvalid : CellChainValid ([] ++ summaryChain) := by decide +kernel
  have hempty : empty.Represents [] 0 := .inl ⟨rfl, rfl, rfl⟩
  have hbs : summaryChain ≠ [] := cons_ne_nil _ _
  obtain ⟨rows, hwrite, hfollows, -⟩ := hempty.writeParsedBatch summaryHints rfl hbs hvalid
  obtain ⟨target, htarget, -⟩ := hvalid.exists_summary (i := 0) (by decide)
  obtain ⟨plan, hplan⟩ : ∃ plan, rows.prepareLiveCellSummaryRollback 0 = .ok plan :=
    ⟨_, hfollows.prepareRollback_eq_ok (k := 0) (by decide) (by decide) htarget⟩
  have hretained : (rows.history[(0 : Int)]?).isSome := by
    rw [hfollows.history]
    exact Option.isSome_iff_exists.mpr ⟨target, htarget⟩
  refine ⟨⟨summaryChain, rows.withdraw plan, .stopped⟩, ?_, rfl, rfl⟩
  exact ((Relation.ReflTransGen.single (.batch hbs hvalid hwrite)).tail
    (.beginRollback hretained hplan)).tail .kill

theorem live_cell_summary_follows_live_cells_interrupted :
    ∃ s : SummaryState, s.Reachable ∧ s.chain = summaryChain ∧
      s.rows.rollbackCleanupInProgress = true ∧
      ∃ rows', s.rows.restoreVisibility = .ok rows' ∧
        rows'.current = summaryChain.getLast?.map (liveSummary (liveCells summaryChain)) := by
  obtain ⟨s, hreach, hchain, hmarker⟩ := interrupted_rollback_reachable
  obtain ⟨-, -, hrestore, -⟩ := live_cell_summary_follows_live_cells hreach
  obtain ⟨rows', hok, hcurrent, -⟩ := hrestore hmarker
  rw [hchain] at hcurrent
  exact ⟨s, hreach, hchain, hmarker, rows', hok, hcurrent⟩

end Ckbadger.Sync
