/-
Ckbadger.Sync.SummaryCounts — the counters of a live batch count the live cells.

The counters take a spent cell out and put a created cell in, so at the end of each block
they hold the counts of the live cells there, and the totals of the sync status differ by
the number of live cells.
-/
import Ckbadger.Sync.SummaryHistory

namespace Ckbadger.Sync

open Lib Writer FinMap SummaryLoop List

variable {m : LiveCells} {c : CreatedCell}

/-! ## The summary of live cells -/

def cellClass (c : CreatedCell) : LiveCellSummaryClass :=
  if c.cell.typeCodeHash.any Parser.isDaoCodeHash then .dao
  else if c.cell.typeScriptHash.isSome then .typedNonDao else .plain

/-- The number of live cells of a class. -/
def liveClassCount (cls : LiveCellSummaryClass) (m : LiveCells) : Nat :=
  weight (fun _ c => if cellClass c = cls then 1 else 0) m

/-- The number of live cells with data. -/
def liveDataCount (m : LiveCells) : Nat :=
  weight (fun _ c => if 0 < c.cell.dataSize then 1 else 0) m

/-- The summary of live cells at the end of a block. -/
def liveSummary (m : LiveCells) (b : CellBlock) : LiveCellSummary :=
  ⟨b.number, b.hash, liveClassCount .dao m, liveClassCount .typedNonDao m, liveClassCount .plain m,
    liveDataCount m⟩

/-- The summaries at the ends of blocks. -/
def blockEndSummaries : LiveCells → List CellBlock → List LiveCellSummary
  | _, [] => []
  | m, b :: bs =>
    liveSummary (cellTxFlow.run m b.txs) b :: blockEndSummaries (cellTxFlow.run m b.txs) bs

/-- The number of cells that transactions spend. -/
def spentCount (txs : List CellTx) : Nat := (txs.flatMap CellTx.spends).length

def createdCount (txs : List CellTx) : Nat := (cellTxFlow.created txs).length

theorem liveClassCount_sum (m : LiveCells) :
    liveClassCount .dao m + liveClassCount .typedNonDao m + liveClassCount .plain m
      = liveCount m := by
  unfold liveClassCount liveCount
  rw [← weight_add, ← weight_add]
  congr 1
  funext _ c
  cases cellClass c <;> rfl

theorem liveClassCount_le (cls : LiveCellSummaryClass) (m : LiveCells) :
    liveClassCount cls m ≤ liveCount m :=
  weight_le fun _ c => by split <;> omega

theorem liveDataCount_le (m : LiveCells) : liveDataCount m ≤ liveCount m :=
  weight_le fun _ c => by split <;> omega

theorem liveSummary_liveCells (hcount : liveCount m < 2 ^ 64) (b : CellBlock) :
    (liveSummary m b).liveCells = .ok (liveCount m) := by
  have hsum : (liveSummary m b).dao + (liveSummary m b).typedNonDao + (liveSummary m b).plain
      = liveCount m := liveClassCount_sum m
  rw [LiveCellSummary.liveCells, hsum, if_pos hcount]

theorem liveSummary_validate (hcount : liveCount m < 2 ^ 64) {b : CellBlock}
    (hnumber : 0 ≤ b.number) : (liveSummary m b).validate = .ok () := by
  have htip : ¬ (liveSummary m b).tipBlockNumber < 0 := not_lt.mpr hnumber
  have hle : ¬ liveCount m < (liveSummary m b).dataBearing := not_lt.mpr (liveDataCount_le m)
  unfold LiveCellSummary.validate
  rw [if_neg htip, liveSummary_liveCells hcount]
  exact if_neg hle

/-- A summary agrees with totals that differ by the number of live cells. -/
theorem liveSummary_validateAgainstSyncTotals (hcount : liveCount m < 2 ^ 64)
    {b : CellBlock} (hnumber : 0 ≤ b.number) {created consumed : Int} (hcreated : 0 ≤ created)
    (hconsumed : 0 ≤ consumed) (hbalance : created - consumed = liveCount m) :
    (liveSummary m b).validateAgainstSyncTotals created consumed = .ok () := by
  simp only [LiveCellSummary.validateAgainstSyncTotals, bind_eq_ok, ensure_eq_ok,
    liveSummary_validate hcount hnumber, liveSummary_liveCells hcount]
  refine ⟨(), trivial, (), ⟨hcreated, hconsumed⟩, (), ?_, liveCount m, rfl, hbalance.symm⟩
  rw [hbalance]
  exact Int.natCast_nonneg _

/-! ## One cell -/

/-- Counters that count live cells. -/
structure Counts (counter : LiveCellSummaryCounter) (m : LiveCells) : Prop where
  classes : ∀ cls, counter.get cls = liveClassCount cls m
  data : counter.dataBearing = liveDataCount m

theorem cellSummaryProjection_eq_ok (h : WellFormedCell c.cell)
    (context : CellSummaryContext) :
    cellSummaryProjection c.cell.typeScriptHash c.cell.typeCodeHash c.cell.dataSize context
      = .ok ⟨cellClass c, decide (0 < c.cell.dataSize)⟩ := by
  obtain ⟨htype, hsize⟩ := h
  have hdao : c.cell.typeCodeHash.any Parser.isDaoCodeHash = true →
      c.cell.typeScriptHash.isSome = true := by
    rw [htype]
    cases c.cell.typeCodeHash <;> simp
  exact projectionFromParts_eq_ok.mpr ⟨by rw [htype], hdao, hsize, rfl⟩

theorem Counts.spend {counter : LiveCellSummaryCounter} (h : Counts counter m)
    {o : OutPoint} (hlive : m.lookup o = some c) (context : CellSummaryContext) :
    ∃ counter', counter.afterSpend ⟨cellClass c, decide (0 < c.cell.dataSize)⟩ context
      = .ok counter' ∧ Counts counter' (m.erase o) := by
  have hclass : ∀ cls, liveClassCount cls m
      = (if cellClass c = cls then 1 else 0) + liveClassCount cls (m.erase o) :=
    fun cls => weight_erase hlive
  have hdata : liveDataCount m
      = (if 0 < c.cell.dataSize then 1 else 0) + liveDataCount (m.erase o) :=
    weight_erase hlive
  obtain ⟨counter', hok, hclasses, hbearing⟩ :=
    afterSpend_eq (c := counter) ⟨cellClass c, decide (0 < c.cell.dataSize)⟩ context
      (by rw [h.classes, hclass, if_pos rfl]; omega)
      (by
        intro hsize
        rw [h.data, hdata, if_pos (of_decide_eq_true hsize)]
        omega)
  refine ⟨counter', hok, fun cls => ?_, ?_⟩
  · have hget := hclasses cls
    rw [h.classes, hclass] at hget
    exact (Nat.add_left_cancel hget).symm
  · rw [h.data, hdata] at hbearing
    simp only [decide_eq_true_eq] at hbearing
    exact (Nat.add_left_cancel hbearing).symm

theorem Counts.birth {counter : LiveCellSummaryCounter} (h : Counts counter m)
    (hnew : m.lookup c.place = none) (hroom : liveCount m < 2 ^ 63)
    (context : CellSummaryContext) :
    ∃ counter', counter.afterBirth ⟨cellClass c, decide (0 < c.cell.dataSize)⟩ context
      = .ok counter' ∧ Counts counter' (m.insert c.place c) := by
  have hclass := liveClassCount_le (cellClass c) m
  have hdata := liveDataCount_le m
  obtain ⟨counter', hok⟩ := exists_of_isOk
    (afterBirth_isOk (c := counter) ⟨cellClass c, decide (0 < c.cell.dataSize)⟩ context
      (by
        have hget := h.classes (cellClass c)
        simp only
        omega)
      (by rw [h.data]; omega))
  obtain ⟨hclasses, hbearing⟩ := afterBirth_ok hok
  have hclass' : ∀ cls, liveClassCount cls (m.insert c.place c)
      = (if cellClass c = cls then 1 else 0) + liveClassCount cls m :=
    fun cls => weight_insert hnew c
  have hdata' : liveDataCount (m.insert c.place c)
      = (if 0 < c.cell.dataSize then 1 else 0) + liveDataCount m := weight_insert hnew c
  refine ⟨counter', hok, fun cls => ?_, ?_⟩
  · rw [hclasses, h.classes, hclass']
  · rw [hbearing, h.data, hdata']
    simp

/-! ## One transaction -/

section

variable {inputInfo batchInfo : Std.ExtTreeMap OutPoint PositionedCellInfo} {hints : UdtHints}
  {number : Int} {loop : SummaryLoop} {created consumed : Nat}

/-- The loop counts some live cells, after so many births and spends. -/
structure SummaryLoop.At (loop : SummaryLoop) (m : LiveCells) (created consumed : Nat) : Prop where
  counts : Counts loop.counter m
  created : loop.createdDelta = created
  consumed : loop.consumedDelta = consumed

/-- The inputs of a transaction leave the counters. -/
theorem foldlM_spend_eq_ok {inputs : List ParsedInput} (h : loop.At m created consumed)
    (hnodup : (inputs.map ParsedInput.outpoint).Nodup)
    (hindex : ∀ i ∈ inputs, 0 ≤ i.previousOutputIndex ∧ i.previousOutputIndex < 2 ^ 15)
    (hlive : ∀ i ∈ inputs, ∃ c, m.lookup i.outpoint = some c ∧ WellFormedCell c.cell ∧
      inputInfo[i.outpoint]?.or batchInfo[i.outpoint]? = some (c.info hints))
    (hroom : consumed + inputs.length < 2 ^ 63) :
    ∃ loop', inputs.foldlM (spend inputInfo batchInfo number) loop = .ok loop' ∧
      loop'.At (eraseAll m (inputs.map ParsedInput.outpoint)) created
        (consumed + inputs.length) := by
  induction inputs generalizing loop m consumed with
  | nil => exact ⟨loop, rfl, h⟩
  | cons i inputs ih =>
    rw [map_cons, nodup_cons] at hnodup
    rw [length_cons, Nat.add_comm inputs.length, ← Nat.add_assoc] at hroom ⊢
    obtain ⟨⟨c, hlookup, hwf, hfound⟩, hlive⟩ := forall_mem_cons.mp hlive
    obtain ⟨⟨hpos, hlt⟩, hindex⟩ := forall_mem_cons.mp hindex
    obtain ⟨counter, hspend, hcounts⟩ := h.counts.spend hlookup
      ⟨"spend", number, i.previousTxHash, i.previousOutputIndex⟩
    have hstep : loop.spend inputInfo batchInfo number i
        = .ok ⟨counter, loop.createdDelta, loop.consumedDelta + 1⟩ := by
      simp only [spend, bind_eq_ok, required_eq_ok, checked_eq_ok, fitsSignedBits,
        decide_eq_true_eq]
      refine ⟨_, parsedInputOutpointIndex_eq_ok hpos hlt, _, hfound, _,
        cellSummaryProjection_eq_ok hwf _, counter, hspend, _, ⟨?_, rfl⟩, rfl⟩
      rw [h.consumed]
      omega
    have hlive' : ∀ i' ∈ inputs, ∃ c, (m.erase i.outpoint).lookup i'.outpoint = some c ∧
        WellFormedCell c.cell ∧
        inputInfo[i'.outpoint]?.or batchInfo[i'.outpoint]? = some (c.info hints) := by
      intro i' hi'
      obtain ⟨c', hlookup', hrest⟩ := hlive i' hi'
      refine ⟨c', ?_, hrest⟩
      rw [lookup_erase_apply, if_neg, hlookup']
      intro heq
      exact hnodup.1 (heq ▸ mem_map_of_mem hi')
    have hnext : SummaryLoop.At ⟨counter, loop.createdDelta, loop.consumedDelta + 1⟩
        (m.erase i.outpoint) created (consumed + 1) := ⟨hcounts, h.created, by simp [h.consumed]⟩
    obtain ⟨loop', hrest, hloop'⟩ := ih hnext hnodup.2 hindex hlive' hroom
    exact ⟨loop', foldlM_cons_eq_ok.mpr ⟨_, hstep, hrest⟩, hloop'⟩

/-- The outputs of a transaction join the counters. -/
theorem foldlM_birth_eq_ok {txHash : Bytes} {outputs : List (Parser.ParsedCell × Nat)}
    (h : loop.At m created consumed) (hnodup : (outputs.map Prod.snd).Nodup)
    (hnew : ∀ out ∈ outputs, m.lookup ⟨txHash, out.2⟩ = none)
    (hwf : ∀ out ∈ outputs, WellFormedCell out.1) (hroom : liveCount m + outputs.length < 2 ^ 63)
    (hcreated : created + outputs.length < 2 ^ 63) :
    ∃ loop', outputs.foldlM (birth number txHash) loop = .ok loop' ∧
      loop'.At (insertAll CreatedCell.place m
        (outputs.map fun out => ⟨⟨txHash, out.2⟩, out.1, number⟩)) (created + outputs.length)
        consumed := by
  induction outputs generalizing loop m created with
  | nil => exact ⟨loop, rfl, h⟩
  | cons out outputs ih =>
    rw [map_cons, nodup_cons] at hnodup
    rw [length_cons] at hroom
    rw [length_cons, Nat.add_comm outputs.length, ← Nat.add_assoc] at hcreated ⊢
    obtain ⟨hfirst, hwf⟩ := forall_mem_cons.mp hwf
    let c : CreatedCell := ⟨⟨txHash, out.2⟩, out.1, number⟩
    have hfresh : m.lookup c.place = none := hnew out mem_cons_self
    obtain ⟨counter, hbirth, hcounts⟩ := h.counts.birth hfresh (by omega)
      ⟨"birth", number, txHash, out.2⟩
    have hstep : loop.birth number txHash out
        = .ok ⟨counter, loop.createdDelta + 1, loop.consumedDelta⟩ := by
      simp only [birth, bind_eq_ok, checked_eq_ok, fitsSignedBits, decide_eq_true_eq]
      refine ⟨_, cellSummaryProjection_eq_ok (c := c) hfirst _, counter, hbirth, _, ⟨?_, rfl⟩, rfl⟩
      rw [h.created]
      omega
    have hcount : liveCount (m.insert c.place c) = 1 + liveCount m := weight_insert hfresh c
    have hnew' : ∀ out' ∈ outputs, (m.insert c.place c).lookup ⟨txHash, out'.2⟩ = none := by
      intro out' hout'
      rw [lookup_insert_apply, if_neg]
      · exact hnew out' (mem_cons_of_mem _ hout')
      · intro heq
        have hsame : out'.2 = out.2 := Int.ofNat_inj.mp (congrArg OutPoint.index heq)
        exact hnodup.1 (hsame ▸ mem_map_of_mem hout')
    have hnext : SummaryLoop.At ⟨counter, loop.createdDelta + 1, loop.consumedDelta⟩
        (m.insert c.place c) (created + 1) consumed := ⟨hcounts, by simp [h.created], h.consumed⟩
    obtain ⟨loop', hrest, hloop'⟩ := ih hnext hnodup.2 hnew' hwf (by omega) hcreated
    exact ⟨loop', foldlM_cons_eq_ok.mpr ⟨_, hstep, hrest⟩, hloop'⟩

/-- A transaction moves the counters from the live cells before it to those after it. -/
theorem SummaryLoop.tx_eq_ok {t : CellTx} {txs : List CellTx} (h : loop.At m created consumed)
    (hvalid : CellTxValid m t) (hledger : cellTxFlow.Ledger m (t :: txs)) (hnumber : t.blockNumber = number)
    (hfound : ∀ o ∈ t.spends, ∃ c, m.lookup o = some c ∧ WellFormedCell c.cell ∧
      inputInfo[o]?.or batchInfo[o]? = some (c.info hints))
    (hroom : liveCount m + t.cells.length < 2 ^ 63) (hcreated : created + t.cells.length < 2 ^ 63)
    (hconsumed : liveCount m + consumed < 2 ^ 63) :
    ∃ loop', loop.tx inputInfo batchInfo number t = .ok loop' ∧
      loop'.At (cellTxFlow.apply m t) (created + t.cells.length) (consumed + t.spends.length) := by
  have hspends : t.spends = (if t.isCellbase then [] else t.inputs).map ParsedInput.outpoint := by
    unfold CellTx.spends
    split <;> rfl
  have hlength : (if t.isCellbase then [] else t.inputs).length = t.spends.length := by
    rw [hspends, length_map]
  have hspent : liveCount m = (t.spends.map fun _ => 1).sum
      + liveCount (eraseAll m t.spends) := weight_eraseAll hvalid.nodup hvalid.live
  rw [map_const', sum_replicate_nat] at hspent
  obtain ⟨mid, hspend, hmid⟩ := @foldlM_spend_eq_ok m inputInfo batchInfo hints number loop created
    consumed (if t.isCellbase then [] else t.inputs) h (hspends ▸ hvalid.nodup)
    (fun i hi => hvalid.indices i.outpoint (hspends ▸ mem_map_of_mem hi))
    (fun i hi => hfound i.outpoint (hspends ▸ mem_map_of_mem hi)) (by omega)
  rw [← hspends, hlength] at hmid
  have houtputs : t.outputs = t.cells.zipIdx.map fun out => ⟨⟨t.hash, out.2⟩, out.1, number⟩ := by
    rw [CellTx.outputs, mapIdx_eq_zipIdx_map, hnumber]
  have hnew : ∀ out ∈ t.cells.zipIdx, (eraseAll m t.spends).lookup ⟨t.hash, out.2⟩ = none := by
    intro out hout
    have hmem : (⟨⟨t.hash, out.2⟩, out.1, number⟩ : CreatedCell) ∈ t.outputs := by
      rw [houtputs]
      exact mem_map_of_mem hout
    have hnone : m.lookup ⟨t.hash, out.2⟩ = none := hledger.fresh _ (mem_append_left _ hmem)
    rw [lookup_eraseAll, hnone, ite_self]
  obtain ⟨loop', hbirth, hloop'⟩ := @foldlM_birth_eq_ok _ number _ _ _ _ _ hmid
    (by
      rw [zipIdx_map_snd]
      exact nodup_range')
    hnew (fun out hout => hvalid.wellFormed _ (fst_mem_of_mem_zipIdx hout))
    (by rw [length_zipIdx]; omega) (by rw [length_zipIdx]; exact hcreated)
  refine ⟨loop', ?_, ?_⟩
  · simp only [tx, bind_eq_ok, ensure_eq_ok]
    exact ⟨(), hnumber, mid, hspend, hbirth⟩
  · rw [Flow.apply, show cellTxFlow.creates t = _ from houtputs]
    rwa [length_zipIdx] at hloop'

end

/-! ## The blocks of a batch -/

section

variable {hints : UdtHints} {batch xs ts ys : List CellTx} {loop : SummaryLoop}

theorem createdCount_append (xs ys : List CellTx) :
    createdCount (xs ++ ys) = createdCount xs + createdCount ys := by
  simp [createdCount, Flow.created_append]

theorem spentCount_append (xs ys : List CellTx) :
    spentCount (xs ++ ys) = spentCount xs + spentCount ys := by
  simp [spentCount]

theorem createdCount_cons (t : CellTx) (txs : List CellTx) :
    createdCount (t :: txs) = t.cells.length + createdCount txs := by
  simp [createdCount, Flow.created, cellTxFlow, CellTx.outputs]

theorem spentCount_cons (t : CellTx) (txs : List CellTx) :
    spentCount (t :: txs) = t.spends.length + spentCount txs := by
  simp [spentCount]

/-- A batch that live cells admit. -/
structure BatchValid (m : LiveCells) (batch : List CellTx) : Prop where
  hashes : (batch.map CellTx.hash).Nodup
  ledger : cellTxFlow.Ledger m batch
  wellFormed : AllWellFormed m
  valid : CellTxsValid m batch
  countable : liveCount m + createdCount batch < 2 ^ 63

theorem BatchValid.liveCount_add (h : BatchValid m (xs ++ ys)) :
    liveCount (cellTxFlow.run m xs) + spentCount xs = liveCount m + createdCount xs :=
  liveCount_run h.ledger.take

/-- The loop after the first transactions of a batch. -/
def SummaryLoop.After (m : LiveCells) (xs : List CellTx) (loop : SummaryLoop) : Prop :=
  loop.At (cellTxFlow.run m xs) (createdCount xs) (spentCount xs)

theorem foldlM_tx_eq_ok (hbatch : BatchValid m batch) (hcut : batch = xs ++ ts ++ ys)
    {number : Int} (hnumber : ∀ t ∈ ts, t.blockNumber = number) (h : loop.After m xs) :
    ∃ loop', ts.foldlM (tx (inputCellInfos hints m batch)
        (buildBatchCellInfos hints (cellTxFlow.created batch)) number) loop = .ok loop' ∧
      loop'.After m (xs ++ ts) := by
  induction ts generalizing xs loop with
  | nil => exact ⟨loop, rfl, by rwa [append_nil]⟩
  | cons t ts ih =>
    obtain ⟨hfirst, hnumber⟩ := forall_mem_cons.mp hnumber
    have hcut' : batch = xs ++ t :: (ts ++ ys) := by rw [hcut]; simp
    have hvalid := validRun_append.mp (hcut' ▸ hbatch.valid)
    have hledger : cellTxFlow.Ledger m (xs ++ t :: (ts ++ ys)) := hcut' ▸ hbatch.ledger
    have hwf := hbatch.wellFormed.applyTxs hvalid.1
    have hcount := BatchValid.liveCount_add (hcut' ▸ hbatch)
    have hroom := hbatch.countable
    rw [hcut', createdCount_append, createdCount_cons] at hroom
    have hfound : ∀ o ∈ t.spends, ∃ c, (cellTxFlow.run m xs).lookup o = some c ∧
        WellFormedCell c.cell ∧ (inputCellInfos hints m batch)[o]?.or
          (buildBatchCellInfos hints (cellTxFlow.created batch))[o]? = some (c.info hints) := by
      intro o ho
      obtain ⟨c, hc⟩ := Option.isSome_iff_exists.mp (hvalid.2.1.live o ho)
      refine ⟨c, hc, hwf o c hc, ?_⟩
      have hfound := @spentCellInfo_eq m xs (ts ++ ys) _ t _ hints (hcut' ▸ hbatch.hashes)
        hledger ho hc
      rwa [← hcut'] at hfound
    obtain ⟨mid, htx, hmid⟩ := tx_eq_ok h hvalid.2.1 hledger.drop hfirst hfound (by omega)
      (by omega) (by omega)
    have hafter : mid.After m (xs ++ [t]) := by
      rw [SummaryLoop.After, Flow.run_append, createdCount_append, spentCount_append,
        createdCount_cons, spentCount_cons]
      exact hmid
    obtain ⟨loop', hrest, hloop'⟩ := ih (by rw [hcut]; simp) hnumber hafter
    refine ⟨loop', foldlM_cons_eq_ok.mpr ⟨mid, htx, hrest⟩, ?_⟩
    rwa [append_assoc] at hloop'

/-- **The summaries of a batch are those of the live cells at the ends of its blocks.** -/
theorem SummaryLoop.blocks_eq_ok {blocks : List CellBlock} {previous : Option CellBlock}
    (hbatch : BatchValid m batch) (hcut : batch = xs ++ cellTxs blocks)
    (hpositions : ∀ b ∈ blocks, 0 ≤ b.number ∧ b.hash.length = 32 ∧
      ∀ t ∈ b.txs, t.blockNumber = b.number)
    (hlinked : (previous.toList ++ blocks).IsChain fun a b =>
      b.number = a.number + 1 ∧ b.parentHash = a.hash) (h : loop.After m xs) :
    ∃ loop', SummaryLoop.blocks (inputCellInfos hints m batch)
        (buildBatchCellInfos hints (cellTxFlow.created batch)) previous loop blocks
        = .ok (loop', blockEndSummaries (cellTxFlow.run m xs) blocks) ∧ loop'.After m batch := by
  induction blocks generalizing xs loop previous with
  | nil =>
    refine ⟨loop, rfl, ?_⟩
    rw [hcut]
    exact (append_nil xs).symm ▸ h
  | cons b blocks ih =>
    obtain ⟨⟨hnumber, hhash, htxnumber⟩, hpositions⟩ := forall_mem_cons.mp hpositions
    have hcut' : batch = xs ++ b.txs ++ cellTxs blocks := by
      rw [hcut, cellTxs_cons, append_assoc]
    obtain ⟨mid, hfold, hmid⟩ := foldlM_tx_eq_ok hbatch hcut' htxnumber h
    have hlive : liveCount (cellTxFlow.run m (xs ++ b.txs)) < 2 ^ 63 := by
      have hcount := BatchValid.liveCount_add (hcut' ▸ hbatch)
      have hroom := hbatch.countable
      rw [hcut', createdCount_append] at hroom
      omega
    have hsnapshot : mid.counter.snapshot b.number b.hash
        = .ok (liveSummary (cellTxFlow.run m (xs ++ b.txs)) b) := by
      have hsummary : (⟨b.number, b.hash, mid.counter.dao, mid.counter.typedNonDao,
          mid.counter.plain, mid.counter.dataBearing⟩ : LiveCellSummary)
          = liveSummary (cellTxFlow.run m (xs ++ b.txs)) b := by
        rw [liveSummary, ← hmid.counts.classes, ← hmid.counts.classes, ← hmid.counts.classes,
          ← hmid.counts.data]
        rfl
      unfold LiveCellSummaryCounter.snapshot
      rw [if_neg (by simp [hhash])]
      simp only [hsummary]
      rw [liveSummary_validate (by omega) hnumber]
    have hlinked' : (b :: blocks).IsChain fun a b =>
        b.number = a.number + 1 ∧ b.parentHash = a.hash := by
      cases previous with
      | none => exact hlinked
      | some p => exact (isChain_cons_cons.mp hlinked).2
    obtain ⟨loop', hrest, hloop'⟩ := @ih _ _ (some b) hcut' hpositions hlinked' hmid
    refine ⟨loop', ?_, hloop'⟩
    simp only [SummaryLoop.blocks, bind_eq_ok, ensure_eq_ok, return_eq_ok]
    refine ⟨(), ?_, mid, hfold, _, hsnapshot, _, hrest, ?_⟩
    · intro p hp
      cases hp
      exact (isChain_cons_cons.mp hlinked).1
    · rw [blockEndSummaries, ← Flow.run_append]

end

end Ckbadger.Sync
