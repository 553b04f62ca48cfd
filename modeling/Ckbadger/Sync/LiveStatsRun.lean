/-
Ckbadger.Sync.LiveStatsRun — the store after a run of live batches.

Whatever the cuts, a run over a valid chain leaves the blocks, the live and consumed
cells and the statistics rows of the chain.
-/
import Ckbadger.Sync.EpochPositions

namespace Ckbadger.Sync

open Lib Lib.KeyedFold Common Writer PositionedCell SettledBlock List

variable {find : OutPoint → Option PositionedCell} {chain batch : List ParsedBlock}
  {difficulty : Nat → Nat} {baseline : Option Int} {s s' : StatsStore}

/-! ## Resolving a batch -/

theorem addConsumed_eq {input : ParsedInput}
    {c : PositionedCell} (number : Int) (sums : Int × Int) (hplace : input.outpoint = c.outpoint)
    (hfind : find c.outpoint = some c) (hindex : 0 ≤ c.outpoint.index ∧ c.outpoint.index < 2 ^ 15) :
    addConsumed find number sums input
      = .ok (sums.1 + c.dataSize, sums.2 + c.occupiedCapacity) := by
  have hresolve : resolveInput find number input = .ok c := by
    have hidx : input.previousOutputIndex = c.outpoint.index := congrArg OutPoint.index hplace
    have hmk : (⟨input.previousTxHash, input.previousOutputIndex⟩ : OutPoint) = c.outpoint := hplace
    refine bind_eq_ok.mpr ⟨input.previousOutputIndex,
      parsedInputOutpointIndex_eq_ok (by omega) (by omega), ?_⟩
    simp only [hmk, hfind]
    rfl
  unfold addConsumed
  rw [hresolve]
  rfl

theorem foldlM_addConsumed {inputs : List ParsedInput}
    {cs : List PositionedCell} (number : Int) (sums : Int × Int)
    (hplaces : inputs.map ParsedInput.outpoint = cs.map outpoint)
    (hfind : ∀ c ∈ cs, find c.outpoint = some c)
    (hindex : ∀ c ∈ cs, 0 ≤ c.outpoint.index ∧ c.outpoint.index < 2 ^ 15) :
    inputs.foldlM (addConsumed find number) sums
      = .ok (sums.1 + (cs.map dataSize).sum, sums.2 + (cs.map occupiedCapacity).sum) := by
  induction inputs generalizing cs sums with
  | nil =>
    obtain rfl : cs = [] := by simpa using hplaces
    simp
  | cons input inputs ih =>
    cases cs with
    | nil => simp at hplaces
    | cons c cs =>
      simp only [map_cons, List.cons.injEq] at hplaces
      obtain ⟨hplace, hrest⟩ := hplaces
      have htail := ih (sums.1 + c.dataSize, sums.2 + c.occupiedCapacity) hrest
        (forall_mem_cons.mp hfind).2
        (forall_mem_cons.mp hindex).2
      rw [foldlM_cons, addConsumed_eq number sums hplace (hfind c mem_cons_self)
        (hindex c mem_cons_self)]
      simp only [map_cons, sum_cons, ← add_assoc]
      exact htail

/-- The places a block spends are its inputs, a cellbase's apart. -/
theorem flatMap_spends (txs : List TxData) :
    ((txs.filter fun t => !t.isCellbase).flatMap TxData.inputs).map ParsedInput.outpoint
      = txs.flatMap TxData.spends := by
  induction txs with
  | nil => rfl
  | cons t txs ih =>
    rw [flatMap_cons, ← ih, TxData.spends]
    cases ht : t.isCellbase with
    | true => simp [ht]
    | false => simp [ht]

/-- The consumptions of a batch whose spent places are found. -/
theorem batchConsumptions_eq {m : UnspentCells} {txs : List (Int × TxData)}
    (hledger : txFlow.Ledger m txs) (hfind : ∀ c ∈ consumptionsFrom m txs, find c.outpoint = some c.cell) :
    batchConsumptions find txs = .ok (consumptionsFrom m txs) := by
  induction txs generalizing m with
  | nil => rfl
  | cons e txs ih =>
    have hfirst : (e.2.spends.map fun o => (e, o)).mapM (fun c =>
        consumption find c.1.1 c.1.2 c.2)
          = .ok ((e.2.spent m).map fun c => (⟨c, e.1, e.2.hash⟩ : ConsumedCell)) := by
      have hcells : ∀ c ∈ e.2.spent m, find c.outpoint = some c := by
        intro c hc
        exact hfind ⟨c, e.1, e.2.hash⟩ (mem_append_left _ (mem_map_of_mem hc))
      have hplaces : (e.2.spent m).map outpoint = e.2.spends := hledger.map_key_spent
      rw [← hplaces, map_map]
      generalize e.2.spent m = cs at hcells
      induction cs with
      | nil => rfl
      | cons c cs ihc =>
        have hc : consumption find e.1 e.2 c.outpoint = .ok ⟨c, e.1, e.2.hash⟩ := by
          unfold consumption
          rw [hcells c mem_cons_self]
        rw [map_cons, mapM_cons]
        simp only [Function.comp_apply, hc]
        rw [ihc (forall_mem_cons.mp hcells).2]
        rfl
    have hrest := ih hledger.tail (forall_mem_append.mp hfind).2
    unfold batchConsumptions at hrest ⊢
    rw [flatMap_cons, mapM_append, hfirst, hrest]
    rfl

/-! ## Stored blocks -/

theorem find?_numbered {α : Type} (number : α → Int) {l : List α}
    (h : ∀ i (hi : i < l.length), number l[i] = i) (n : Nat) :
    l.find? (fun a => number a = (n : Int)) = l[n]? := by
  rw [find?_eq_getElem?_findIdx]
  by_cases hn : n < l.length
  · congr 1
    refine (findIdx_eq hn).mpr ⟨?_, ?_⟩
    · simp [h n hn]
    · intro j hj
      simp only [decide_eq_false_iff_not, h j (by omega)]
      omega
  · rw [findIdx_eq_length_of_false]
    · rw [getElem?_eq_none (by omega), getElem?_eq_none (by omega)]
    · intro a ha
      obtain ⟨i, hi, rfl⟩ := mem_iff_getElem.mp ha
      simp only [decide_eq_false_iff_not, h i hi]
      omega

/-- The chain times of a batch are those of its settled blocks. -/
theorem batchChainTimes_eq_ok {previous : Option Int}
    {times : List Int} (m : UnspentCells) (h : batchChainTimes previous batch = .ok times) :
    batch.zip times = (settleFrom m previous batch).map fun b => (b.block, b.chainTimeMs) := by
  induction batch generalizing previous times m with
  | nil => rfl
  | cons parsed rest ih =>
    unfold batchChainTimes at h
    split at h
    · cases h
    · obtain ⟨times', htimes, h⟩ := bind_eq_ok.mp h
      obtain rfl := Except.ok.inj h
      rw [zip_cons_cons, ih _ htimes]
      rfl

/-! ## Settled chains -/

/-- The blocks of a batch, settled after the chain before it. -/
def settleAfter (chain batch : List ParsedBlock) : List SettledBlock :=
  settleFrom (unspent chain) (lastChainTime none (settle chain)) batch

theorem settle_append (chain batch : List ParsedBlock) :
    settle (chain ++ batch) = settle chain ++ settleAfter chain batch :=
  settleFrom_append ∅ none chain batch

theorem map_block_settleAfter (chain batch : List ParsedBlock) :
    (settleAfter chain batch).map block = batch :=
  map_block_settleFrom _ _ _

theorem map_block_settle (chain : List ParsedBlock) : (settle chain).map block = chain :=
  map_block_settleFrom _ _ _

theorem mem_of_settleAfter {b : SettledBlock}
    (hb : b ∈ settleAfter chain batch) : b.block ∈ batch := by
  have hmem := mem_map_of_mem (f := block) hb
  rwa [map_block_settleAfter] at hmem

theorem ChainValid.number_settle (h : ChainValid chain) (i : Nat)
    (hi : i < (settle chain).length) : (settle chain)[i].block.number = i := by
  have hlength : (settle chain).length = chain.length := length_settleFrom _ _ _
  have hget : ((settle chain).map block)[i]? = chain[i]? := by
    rw [map_block_settle]
  rw [getElem?_map, getElem?_eq_getElem hi, getElem?_eq_getElem (by omega)] at hget
  rw [show (settle chain)[i].block = chain[i] from Option.some.inj hget]
  exact h.numbered i (by omega)

theorem ChainValid.ordered_settle (h : ChainValid chain) :
    (settle chain).Pairwise fun a b => a.block.number < b.block.number := by
  rw [pairwise_iff_getElem]
  intro i j hi hj hij
  rw [h.number_settle i hi, h.number_settle j hj]
  omega

/-- Blocks of a batch are on no earlier days than the chain's. -/
theorem daysFollow_settle (chain batch : List ParsedBlock) :
    DaysFollow (settle chain) (settleAfter chain batch) := by
  intro a ha b hb
  have hpairs := (pairwise_chainTime ∅ none (chain ++ batch)).1
  rw [show settleFrom ∅ none (chain ++ batch) = settle chain ++ settleAfter chain batch from
    settle_append chain batch] at hpairs
  exact dayOf_le ((pairwise_append.mp hpairs).2.2 a ha b hb)

/-! ## The store of a chain -/

/-- The blocks and the cells of a store that has indexed a chain. -/
structure LiveCore (baseline : Option Int) (chain : List ParsedBlock) (s : StatsStore) : Prop where
  genesis : s.baseline = baseline
  blocks : s.blocks = (settle chain).map fun b => b.block.stored b.chainTimeMs
  liveCells : s.liveCells = unspent chain
  consumedCells : s.consumedCells
    = FinMap.insertAll ConsumedCell.outpoint ∅ (consumptionsFrom ∅ (chainTxs chain))

section Core

variable (h : LiveCore baseline chain s)

include h

theorem LiveCore.getBlockHeader (hvalid : ChainValid chain) (n : Nat) :
    s.getBlockHeader n = (settle chain)[n]?.map fun b => b.block.header b.chainTimeMs := by
  unfold StatsStore.getBlockHeader
  rw [h.blocks, find?_numbered StoredBlock.number]
  · rw [getElem?_map, Option.map_map]
    rfl
  · intro i hi
    rw [getElem_map]
    exact hvalid.number_settle i (by simpa using hi)

theorem LiveCore.parentChainTime (hvalid : ChainValid chain) :
    Sync.parentChainTime s chain.length = .ok (lastChainTime none (settle chain)) := by
  have hlength : (settle chain).length = chain.length := length_settleFrom _ _ _
  unfold Sync.parentChainTime lastChainTime
  by_cases hpos : 0 < chain.length
  · have hlast : ((chain.length : Int) - 1) = ((chain.length - 1 : Nat) : Int) := by omega
    rw [if_pos (by omega), hlast, h.getBlockHeader hvalid, getLast?_eq_getElem?, hlength,
      getElem?_eq_getElem (by omega)]
    rfl
  · have hnil : settle chain = [] := length_eq_zero_iff.mp (by omega)
    rw [if_neg (by omega), hnil]
    rfl

/-- A cell consumed in a batch is found in the store or in the batch. -/
theorem LiveCore.find_consumed (hvalid : ChainValid (chain ++ batch))
    {c : ConsumedCell} (hc : c ∈ consumptionsFrom (unspent chain) (chainTxs batch)) :
    (s.fullCellInfo c.outpoint).or ((batchCells (chainTxs batch)).lookup c.outpoint)
      = some c.cell := by
  have hledger := hvalid.ledger
  rw [chainTxs_append] at hledger
  unfold StatsStore.fullCellInfo
  rw [h.liveCells, h.consumedCells]
  rcases consumed_of_ledger hledger.drop hc with hlive | hcreated
  · rw [show (unspent chain).lookup c.outpoint = some c.cell from hlive]
    rfl
  · have hfresh : (unspent chain).lookup c.outpoint = none := hledger.drop.fresh c.cell hcreated
    have hunconsumed : (FinMap.insertAll ConsumedCell.outpoint ∅
        (consumptionsFrom ∅ (chainTxs chain))).lookup c.outpoint = none := by
      cases hfound : (FinMap.insertAll ConsumedCell.outpoint ∅
          (consumptionsFrom ∅ (chainTxs chain))).lookup c.outpoint with
      | none => rfl
      | some d =>
        rcases FinMap.lookup_insertAll hfound with ⟨hd, hplace⟩ | hempty
        · rcases consumed_of_ledger hledger.take hd with hempty | hcreated₀
          · cases hempty
          · have hdistinct := hledger.distinct
            rw [txFlow.created_append, map_append, nodup_append] at hdistinct
            exact absurd hplace (hdistinct.2.2 _ (mem_map_of_mem hcreated₀) _
              (mem_map_of_mem hcreated))
        · cases hempty
    rw [hfresh, hunconsumed]
    exact FinMap.lookup_insertAll_of_mem hledger.drop.distinct hcreated

theorem LiveCore.resolveConsumedStats (hvalid : ChainValid (chain ++ batch)) {b : SettledBlock}
    (hb : b ∈ settleAfter chain batch) :
    Sync.resolveConsumedStats (fun o => (s.fullCellInfo o).or
        ((batchCells (chainTxs batch)).lookup o)) b.block.txs b.block.number
      = .ok ((b.spent.map dataSize).sum, (b.spent.map occupiedCapacity).sum) := by
  have hledger := hvalid.ledger
  rw [chainTxs_append] at hledger
  have hplaces := map_outpoint_settleFrom hledger.drop hb
  rw [← flatMap_spends] at hplaces
  rw [Sync.resolveConsumedStats, foldlM_addConsumed b.block.number (0, 0) hplaces.symm]
  · simp [spent]
  · intro c hc
    obtain ⟨d, hd, rfl⟩ := mem_consumptions_of_settled hb hc
    exact h.find_consumed hvalid hd
  · intro c hc
    obtain ⟨d, hd, rfl⟩ := mem_consumptions_of_settled hb hc
    have hcreated : d.cell ∈ txFlow.created (chainTxs (chain ++ batch)) := by
      rw [chainTxs_append, txFlow.created_append, mem_append]
      rcases consumed_of_ledger hledger.drop hd with hlive | hcreated
      · rcases Flow.lookup_run hlive with hempty | ⟨hmem, -⟩
        · cases hempty
        · exact .inl hmem
      · exact .inr hcreated
    obtain ⟨e, he, hcell⟩ := mem_flatMap.mp hcreated
    obtain ⟨b', hb', hmem⟩ := mem_flatMap.mp he
    obtain ⟨t, ht, rfl⟩ := mem_map.mp hmem
    obtain ⟨-, -, hnonneg, hlt⟩ := mem_created hcell
    have houtputs := hvalid.outputs b' hb' t ht
    have hbound : (t.cells.length : Int) ≤ 2 ^ 15 := by exact_mod_cast houtputs
    exact ⟨hnonneg, lt_of_lt_of_le hlt hbound⟩

end Core

/-- What a batch that succeeded has done. -/
structure BatchWritten (difficulty : Nat → Nat) (baseline : Option Int)
    (chain batch : List ParsedBlock) (s s' : StatsStore) (st : StatsLoop) : Prop where
  core : LiveCore baseline (chain ++ batch) s'
  loop : BatchAccumulated difficulty (lastChainTime none (settle chain))
    (getLastEpochStart s.rows.epoch chain.length) (settleAfter chain batch) st
  rows : writeBatchStats s.baseline s.rows st.stats = .ok s'.rows

theorem LiveCore.step (h : LiveCore baseline chain s) (hvalid : ChainValid (chain ++ batch))
    (hne : batch ≠ []) (hs : liveBatch difficulty s batch = .ok s') :
    ∃ st, BatchWritten difficulty baseline chain batch s s' st := by
  have hledger := hvalid.ledger
  rw [chainTxs_append] at hledger
  obtain ⟨first, rest, rfl⟩ := exists_cons_of_ne_nil hne
  have hnumber : first.number = chain.length := by
    have := hvalid.numbered chain.length (by simp)
    simpa using this
  obtain ⟨parent, hparent, hs⟩ := bind_eq_ok.mp hs
  rw [hnumber, h.parentChainTime hvalid.take] at hparent
  obtain rfl := Except.ok.inj hparent
  obtain ⟨times, htimes, hs⟩ := bind_eq_ok.mp hs
  obtain ⟨-, -, hs⟩ := bind_eq_ok.mp hs
  obtain ⟨consumed, hconsumed, hs⟩ := bind_eq_ok.mp hs
  rw [batchConsumptions_eq hledger.drop fun c hc => h.find_consumed hvalid hc] at hconsumed
  obtain rfl := Except.ok.inj hconsumed
  obtain ⟨st, hloop, hs⟩ := bind_eq_ok.mp hs
  obtain ⟨rows, hrows, hs⟩ := bind_eq_ok.mp hs
  obtain rfl := Except.ok.inj hs
  have hzip : (first :: rest).zip times
      = (settleAfter chain (first :: rest)).map fun b => (b.block, b.chainTimeMs) :=
    batchChainTimes_eq_ok (unspent chain) htimes
  rw [hzip, hnumber] at hloop
  refine ⟨st, ⟨h.genesis, ?_, ?_, ?_⟩, ?_, hrows⟩
  · rw [settle_append, map_append, ← h.blocks, hzip, map_map]
    rfl
  · rw [h.liveCells]
    show _ = txFlow.run ∅ (chainTxs (chain ++ first :: rest))
    rw [chainTxs_append, txFlow.run_append, hledger.drop.run_eq]
    exact congrArg (FinMap.eraseAll _) (map_outpoint_consumptions hledger.drop)
  · rw [h.consumedCells, chainTxs_append, consumptionsFrom_append, FinMap.insertAll_append]
    rfl
  · exact accumulate_eq_ok (fun b hb => h.resolveConsumedStats hvalid hb) hloop

/-! ## The rows of a chain -/

/-- The store and the rows after a chain, whatever the cuts. -/
structure LiveState (difficulty : Nat → Nat) (baseline : Option Int) (chain : List ParsedBlock)
    (s : StatsStore) : Prop extends LiveCore baseline chain s where
  daily : DailyTable (baseline.getD 0) (settle chain) s.rows.daily
  hourly : Tabulates hourlyRow (hourShares (settle chain)) s.rows.hourly
  dailyBlock : Tabulates dailyBlockRow (dayBlockShares difficulty (settle chain)) s.rows.dailyBlock
  miner : Tabulates minerRow (minerShares (settle chain)) s.rows.miner
  blockTimeDist : Tabulates bucketRow (blockTimeShares none (settle chain)) s.rows.blockTimeDist

/-- The rows of the epochs. -/
structure EpochState (chain : List ParsedBlock) (s : StatsStore) : Prop where
  epoch : Tabulates epochRow (epochShares (settle chain)) s.rows.epoch
  epochTimeDist : Tabulates bucketRow (epochTimeShares none (settle chain)) s.rows.epochTimeDist

section Rows

variable {batches : List (List ParsedBlock)}

/-- The writer writes each family on its own. -/
structure RowsWritten (baseline : Option Int) (rows rows' : ChainStatsRows) (stats : BatchStats) :
    Prop where
  epoch : merge (keep upsertEpochStatistics) rows.epoch stats.epochStats = .ok rows'.epoch
  daily : writeDailyStats baseline rows.daily stats = .ok rows'.daily
  dailyBlock : merge (keep updateDailyBlockStats) rows.dailyBlock stats.dailyBlockStats
    = .ok rows'.dailyBlock
  hourly : merge (keep updateHourlyStatistics) rows.hourly stats.hourlyStats = .ok rows'.hourly
  miner : merge (keep fun (key : MinerKey) existing entry =>
    .ok (updateMinerStatistics key.miner existing entry)) rows.miner stats.minerStats
      = .ok rows'.miner
  blockTimeDist : merge (keep updateBlockTimeDistribution) rows.blockTimeDist stats.blockTimeDist
    = .ok rows'.blockTimeDist
  epochTimeDist : merge (keep updateEpochTimeDistribution) rows.epochTimeDist stats.epochTimeDist
    = .ok rows'.epochTimeDist

theorem writeBatchStats_eq_ok {rows rows' : ChainStatsRows} {stats : BatchStats}
    (h : writeBatchStats baseline rows stats = .ok rows') :
    RowsWritten baseline rows rows' stats := by
  simp only [writeBatchStats, bind_eq_ok, return_eq_ok] at h
  obtain ⟨epoch, hepoch, daily, hdaily, dailyBlock, hdailyBlock, hourly, hhourly, miner, hminer,
    blockTime, hblockTime, epochTime, hepochTime, rfl⟩ := h
  exact ⟨hepoch, hdaily, hdailyBlock, hhourly, hminer, hblockTime, hepochTime⟩

theorem minerShares_later (hvalid : ChainValid (chain ++ batch)) :
    ∀ e ∈ minerShares (settle chain), ∀ e' ∈ minerShares (settleAfter chain batch), e.2 ≤ e'.2 := by
  have hnumber : ∀ {bs : List SettledBlock} {e : MinerKey × Int}, e ∈ minerShares bs →
      ∃ b ∈ bs, e.2 = b.block.number := by
    intro bs e he
    obtain ⟨b, hb, hshare⟩ := mem_flatMap.mp he
    obtain ⟨miner, -, rfl⟩ := mem_map.mp hshare
    exact ⟨b, hb, rfl⟩
  have hordered := hvalid.ordered_settle
  rw [settle_append] at hordered
  intro e he e' he'
  obtain ⟨b, hb, heq⟩ := hnumber he
  obtain ⟨b', hb', heq'⟩ := hnumber he'
  rw [heq, heq']
  exact ((pairwise_append.mp hordered).2.2 b hb b' hb').le

theorem LiveState.step (h : LiveState difficulty baseline chain s)
    (hvalid : ChainValid (chain ++ batch)) (hs : liveBatch difficulty s batch = .ok s') :
    LiveState difficulty baseline (chain ++ batch) s' := by
  by_cases hne : batch = []
  · subst hne
    obtain rfl := Except.ok.inj hs
    rwa [append_nil]
  obtain ⟨st, hcore, hloop, hwrite⟩ := h.toLiveCore.step hvalid hne hs
  have hrows := writeBatchStats_eq_ok hwrite
  have hdao : ∀ b ∈ settleAfter chain batch, b.block.dao.length = 32 := fun b hb =>
    hvalid.dao b.block (mem_append_right _ (mem_of_settleAfter hb))
  have hmaps : DayMaps (settleAfter chain batch) (lastChainTime none (settle chain)) st.stats :=
    ⟨tabulates_sum (fun _ _ _ _ => addDailyEntry_eq_ok) hloop.daily, tabulates_dao hloop.dao,
      tabulates_intervals (fun _ _ _ _ => checkedInterval_eq_ok) hloop.interval⟩
  refine ⟨hcore, ?_, ?_, ?_, ?_, ?_⟩
  · rw [settle_append]
    refine h.daily.write hmaps (daysFollow_settle chain batch) hdao ?_
    rw [← h.genesis]
    exact hrows.daily
  · rw [settle_append, hourShares_append]
    refine h.hourly.merge (tabulates_sum (fun _ _ _ _ => addHourlyEntry_eq_ok) hloop.hourly)
      ?_ ?_ hrows.hourly
    · intro k a _ _ ha
      exact (Except.ok.inj ha).symm
    · intro k a _ _ ha
      exact updateHourlyStatistics_some ha
  · rw [settle_append, dayBlockShares_append]
    refine h.dailyBlock.merge
      (tabulates_sum (fun _ _ _ _ => addDailyBlockEntry_eq_ok) hloop.dailyBlock) ?_ ?_
      hrows.dailyBlock
    · intro k a _ _ ha
      exact (Except.ok.inj ha).symm
    · intro k a _ _ ha
      exact updateDailyBlockStats_some ha
  · rw [settle_append, minerShares_append]
    exact tabulates_minerRow h.miner (tabulates_miner hloop.miner) (minerShares_later hvalid)
      hrows.miner
  · rw [settle_append, blockTimeShares_append]
    exact tabulates_histogram h.blockTimeDist (tabulates_samples hloop.blockTime)
      hrows.blockTimeDist

theorem ChainValid.epochBlocks (hvalid : ChainValid chain) (hepochs : EpochsContiguous chain) :
    EpochBlocks (settle chain) := by
  refine ⟨?_, hvalid.ordered_settle⟩
  rw [map_block_settle]
  exact hepochs

theorem EpochState.step (h : EpochState chain s) (hcore : LiveCore baseline chain s)
    (hvalid : ChainValid (chain ++ batch)) (hepochs : EpochsContiguous (chain ++ batch))
    (hs : liveBatch difficulty s batch = .ok s') : EpochState (chain ++ batch) s' := by
  by_cases hne : batch = []
  · subst hne
    obtain rfl := Except.ok.inj hs
    rwa [append_nil]
  obtain ⟨st, -, hloop, hwrite⟩ := hcore.step hvalid hne hs
  have hrows := writeBatchStats_eq_ok hwrite
  have hblocks : EpochBlocks (settle chain ++ settleAfter chain batch) := by
    rw [← settle_append]
    exact hvalid.epochBlocks hepochs
  have hnumber : ∀ b ∈ settle chain, 0 ≤ b.block.number ∧ b.block.number < chain.length := by
    intro b hb
    obtain ⟨i, hi, rfl⟩ := mem_iff_getElem.mp hb
    have hlength : (settle chain).length = chain.length := length_settleFrom _ _ _
    rw [hvalid.take.number_settle i hi]
    omega
  have hstart : getLastEpochStart s.rows.epoch chain.length
      = lastEpochStart none (settle chain) := by
    refine hblocks.take.getLastEpochStart h.epoch (fun b hb => (hnumber b hb).2) ?_
      fun b hb => (hnumber b hb).1
    intro hnil
    have hlength : (settle chain).length = chain.length := length_settleFrom _ _ _
    rw [hnil] at hlength
    simp at hlength
    omega
  constructor
  · rw [settle_append]
    exact tabulates_epochRow hblocks h.epoch (tabulates_epoch hloop.epoch) hrows.epoch
  · rw [settle_append, epochTimeShares_append, ← hstart]
    exact tabulates_histogram h.epochTimeDist (tabulates_samples hloop.epochTime)
      hrows.epochTimeDist

/-! ## Runs -/

theorem LiveState.initial (difficulty : Nat → Nat) (baseline : Option Int) :
    LiveState difficulty baseline [] { baseline := baseline } where
  genesis := rfl
  blocks := rfl
  liveCells := rfl
  consumedCells := rfl
  daily := fun _ => Std.ExtTreeMap.getElem?_empty
  hourly := tabulates_nil
  dailyBlock := tabulates_nil
  miner := tabulates_nil
  blockTimeDist := tabulates_nil

/-- A run keeps the state, and the epochs where they are contiguous. -/
theorem LiveState.run (h : LiveState difficulty baseline chain s)
    (hvalid : ChainValid (chain ++ batches.flatten)) (hs : liveRun difficulty s batches = .ok s') :
    LiveState difficulty baseline (chain ++ batches.flatten) s' ∧
      (EpochState chain s → EpochsContiguous (chain ++ batches.flatten) →
        EpochState (chain ++ batches.flatten) s') := by
  induction batches generalizing chain s with
  | nil =>
    obtain rfl := Except.ok.inj hs
    exact ⟨by simpa using h, fun hepoch _ => by simpa using hepoch⟩
  | cons batch batches ih =>
    obtain ⟨u, hu, hrest⟩ := foldlM_cons_eq_ok.mp hs
    rw [flatten_cons, ← append_assoc] at hvalid ⊢
    obtain ⟨hlive, hepochs⟩ := ih (h.step hvalid.take hu) hvalid hrest
    exact ⟨hlive, fun hepoch hcontiguous =>
      hepochs (hepoch.step h.toLiveCore hvalid.take hcontiguous.take hu) hcontiguous⟩

/-- A run of live batches over a valid chain leaves the store of the chain. -/
theorem liveRun_state (hvalid : ChainValid batches.flatten)
    (hs : liveRun difficulty { baseline := baseline } batches = .ok s) :
    LiveState difficulty baseline batches.flatten s :=
  ((LiveState.initial difficulty baseline).run hvalid hs).1

theorem liveRun_epochState
    (hvalid : ChainValid batches.flatten) (hepochs : EpochsContiguous batches.flatten)
    (hs : liveRun difficulty { baseline := baseline } batches = .ok s) :
    EpochState batches.flatten s :=
  ((LiveState.initial difficulty baseline).run hvalid hs).2 ⟨tabulates_nil, tabulates_nil⟩ hepochs

/-! ## Ranges -/

/-- A count over the blocks of one key fits an `i32` where the chain's does. -/
theorem fits_count {C : Type} [AddMonoid C] (count : C →+ Int) {key : SettledBlock → Int}
    {share : SettledBlock → C} {f : ParsedBlock → Int} (hf : ∀ b, 0 ≤ f b)
    (hcount : ∀ b, count (share b) = f b.block) (hlt : (chain.map f).sum < 2 ^ 31) (k : Int) :
    FitsSigned 4 (count (group ((settle chain).map fun b => (key b, share b)) k).sum) := by
  have hall : ∀ n ∈ chain.map f, 0 ≤ n := forall_mem_map.mpr fun b _ => hf b
  have hsub : (((settle chain).filter fun b => key b = k).map share).map count <+ chain.map f := by
    have hblocks := (filter_sublist (p := fun b => key b = k) (l := settle chain)).map block
    rw [map_block_settle] at hblocks
    rw [map_map, show count ∘ share = f ∘ block from funext hcount, ← map_map]
    exact hblocks.map f
  rw [group_map, map_list_sum]
  have hnonneg := sum_nonneg fun n hn => hall n (hsub.subset hn)
  have hle := hsub.sum_le_sum hall
  unfold FitsSigned
  omega

/-- The counts of a day fit the `i32` of the source where those of the chain do. -/
theorem LiveState.daily_counts_fit (h : LiveState difficulty baseline chain s)
    (hblocks : (chain.map fun _ => (1 : Int)).sum < 2 ^ 31)
    (htxs : (chain.map ParsedBlock.transactionsCount).sum < 2 ^ 31)
    (hcreated : (chain.map ParsedBlock.cellsCreated).sum < 2 ^ 31)
    (hconsumed : (chain.map ParsedBlock.cellsConsumed).sum < 2 ^ 31) {date : Int}
    {row : DailyStats} (hrow : s.rows.daily[date]? = some row) :
    FitsSigned 4 row.blocksCount ∧ FitsSigned 4 row.transactionsCount ∧
      FitsSigned 4 row.cellsCreated ∧ FitsSigned 4 row.cellsConsumed := by
  rw [h.daily] at hrow
  obtain ⟨-, heq⟩ := Option.ite_none_left_eq_some.mp hrow
  obtain rfl := Option.some.inj heq
  have hnonneg : ∀ {α : Type} (l : List α) (f : α → Nat), 0 ≤ (l.map fun a => (f a : Int)).sum :=
    fun l f => sum_nonneg (forall_mem_map.mpr fun a _ => Int.natCast_nonneg _)
  refine ⟨fits_count ⟨⟨DailyEntry.blocks, rfl⟩, fun _ _ => rfl⟩ ?_ (fun _ => rfl) hblocks date,
    fits_count ⟨⟨DailyEntry.txs, rfl⟩, fun _ _ => rfl⟩ ?_ (fun _ => rfl) htxs date,
    fits_count ⟨⟨DailyEntry.cellsCreated, rfl⟩, fun _ _ => rfl⟩ ?_ (fun _ => rfl) hcreated date,
    fits_count ⟨⟨DailyEntry.cellsConsumed, rfl⟩, fun _ _ => rfl⟩ ?_ (fun _ => rfl) hconsumed date⟩
  · simp
  · exact fun b => Int.natCast_nonneg _
  · exact fun b => hnonneg _ _
  · exact fun b => hnonneg _ _

end Rows

end Ckbadger.Sync
