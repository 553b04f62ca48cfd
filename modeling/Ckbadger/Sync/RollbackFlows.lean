/-
Ckbadger.Sync.RollbackFlows — the flows a rollback derives from the cells.

Scanning the live and consumed cells and following the transaction contexts give the same
sums: the creation sides of the cells that the orphaned transactions created and the
consumption sides of those that they consumed. On a day, or in an hour, these are the
capacity fields of the orphaned blocks' shares.
-/
import Ckbadger.Sync.StatsRollbackTheorems

namespace Ckbadger.Sync

open Lib Lib.KeyedFold Writer SettledBlock FinMap PositionedCell List

open Std (ExtTreeMap)

variable {b : SettledBlock} {m : UnspentCells} {baseline : Option Int} {pre post : List ParsedBlock}
  {s : StatsStore}

/-! ## Orphaned blocks -/

/-- The last block before the fork. -/
def forkPoint (pre : List ParsedBlock) : Int := pre.length - 1

section

variable (hvalid : ChainValid (pre ++ post))

include hvalid

theorem ChainValid.number_pre (hb : b ∈ settle pre) :
    0 ≤ b.block.number ∧ b.block.number ≤ forkPoint pre := by
  obtain ⟨i, hi, rfl⟩ := mem_iff_getElem.mp hb
  have hlength : (settle pre).length = pre.length := length_settleFrom _ _ _
  rw [hvalid.take.number_settle i hi]
  unfold forkPoint
  omega

theorem ChainValid.number_post (hb : b ∈ settleAfter pre post) :
    forkPoint pre < b.block.number := by
  have hlength : (settle pre).length = pre.length := length_settleFrom _ _ _
  obtain ⟨i, hi, rfl⟩ := mem_iff_getElem.mp hb
  have hnumber := hvalid.number_settle (pre.length + i)
    (by rw [settle_append, length_append]; omega)
  simp only [settle_append] at hnumber
  rw [getElem_append_right (by omega)] at hnumber
  simp only [hlength, Nat.add_sub_cancel_left] at hnumber
  unfold forkPoint
  omega

theorem LiveCore.orphans (h : LiveCore baseline (pre ++ post) s) :
    s.orphans (forkPoint pre) = (settleAfter pre post).map stored := by
  unfold StatsStore.orphans
  rw [h.blocks, settle_append, map_append, filter_append]
  have hpre : ((settle pre).map fun b => b.block.stored b.chainTimeMs).filter
      (fun b => forkPoint pre < b.number) = [] := by
    rw [filter_eq_nil_iff]
    intro b hb
    obtain ⟨b', hb', rfl⟩ := mem_map.mp hb
    have := (hvalid.number_pre hb').2
    simp only [decide_eq_true_eq]
    show ¬ forkPoint pre < b'.block.number
    omega
  have hpost : ((settleAfter pre post).map fun b => b.block.stored b.chainTimeMs).filter
      (fun b => forkPoint pre < b.number)
        = (settleAfter pre post).map fun b => b.block.stored b.chainTimeMs := by
    rw [filter_eq_self]
    intro b hb
    obtain ⟨b', hb', rfl⟩ := mem_map.mp hb
    simp only [decide_eq_true_eq]
    exact hvalid.number_post hb'
  rw [hpre, hpost]
  rfl

end

/-! ## Counts -/

/-- The counts of a block: itself, its transactions, and the cells it creates and consumes. -/
def blockFlow (b : ParsedBlock) : FlowDelta :=
  (1, b.transactionsCount, b.cellsCreated, b.cellsConsumed)

theorem sum_txFlow (b : ParsedBlock) :
    ((b.txs.map TxData.indexEntry).map TxIndexEntry.flow).sum
      = (0, b.transactionsCount, b.cellsCreated, b.cellsConsumed) := by
  unfold ParsedBlock.transactionsCount ParsedBlock.cellsCreated ParsedBlock.cellsConsumed
  induction b.txs with
  | nil => rfl
  | cons t ts ih =>
    rw [map_cons, map_cons, sum_cons, ih]
    unfold TxIndexEntry.flow TxData.indexEntry
    cases ht : t.isCellbase with
    | true => simp [ht, add_comm]
    | false => simp [ht, add_comm]

/-- A bucket's counts are those of its blocks. -/
theorem sum_flowShares (bucket : StoredBlock → Int) (bs : List SettledBlock) (k : Int) :
    (group (flowShares bucket (bs.map stored)) k).sum
      = ((bs.filter fun b => bucket b.stored = k).map fun b => blockFlow b.block).sum := by
  unfold flowShares
  rw [group_append, sum_append]
  induction bs with
  | nil => rfl
  | cons b bs ih =>
    have htxs : (group (b.stored.txIndex.map fun t => (bucket b.stored, t.flow)) k).sum
        = if bucket b.stored = k then
            (0, b.block.transactionsCount, b.block.cellsCreated, b.block.cellsConsumed) else 0 := by
      rw [group_map]
      split
      · rename_i hk
        simp only [hk, decide_true, filter_true]
        exact sum_txFlow b.block
      · rename_i hk
        simp [hk]
    rw [map_cons, map_cons, flatMap_cons, group_append, group_cons, sum_append, htxs]
    by_cases hk : bucket b.stored = k
    · rw [if_pos hk, if_pos hk, filter_cons_of_pos (by simpa using hk), map_cons,
        sum_cons, sum_cons, ← ih]
      have hblock : blockFlow b.block = ((1, 0, 0, 0) : FlowDelta)
          + (0, b.block.transactionsCount, b.block.cellsCreated, b.block.cellsConsumed) := by
        simp [blockFlow]
      rw [hblock]
      exact add_add_add_comm _ _ _ _
    · rw [if_neg hk, if_neg hk, filter_cons_of_neg (by simpa using hk), zero_add, ← ih]

/-! ## Both ways of finding the cells -/

section Flows

variable {M : Type} [AddCommMonoid M] {created : PositionedCell → M} {consumed : ConsumedCell → M}
variable {r : M} {c : ConsumedCell} {rollbackTo : Int} {contexts : List UndoTxContext}

/-- The creation sides of the cells that transactions create, and the consumption sides of those
that they consume. -/
def txsFlow (created : PositionedCell → M) (consumed : ConsumedCell → M) (m : UnspentCells)
    (txs : List (Int × TxData)) : M :=
  ((txFlow.created txs).map created).sum + ((consumptionsFrom m txs).map consumed).sum

section

variable (hvalid : ChainValid (pre ++ post))

include hvalid

theorem ChainValid.number_le {e : Int × TxData}
    (he : e ∈ chainTxs pre) : e.1 ≤ forkPoint pre := by
  obtain ⟨b, hb, hmem⟩ := mem_flatMap.mp he
  obtain ⟨t, -, rfl⟩ := mem_map.mp hmem
  obtain ⟨i, hi, rfl⟩ := mem_iff_getElem.mp hb
  rw [hvalid.take.numbered i hi]
  unfold forkPoint
  omega

theorem createdAt_le {c : PositionedCell}
    (hc : c ∈ txFlow.created (chainTxs pre)) : c.createdAtBlock ≤ forkPoint pre := by
  obtain ⟨e, he, hcell⟩ := mem_flatMap.mp hc
  rw [(mem_created hcell).2.1]
  exact hvalid.number_le he

omit hvalid in
theorem sum_map_eq_zero {α : Type} {l : List α} {f : α → M} (h : ∀ a ∈ l, f a = 0) :
    (l.map f).sum = 0 :=
  sum_eq_zero (forall_mem_map.mpr h)

theorem ChainValid.mem_consumed_pre (hc : c ∈ consumptionsFrom ∅ (chainTxs pre)) :
    c.cell ∈ txFlow.created (chainTxs pre) := by
  rcases consumed_of_ledger hvalid.take.ledger hc with hempty | hcreated
  · cases hempty
  · exact hcreated

theorem ChainValid.nodup_consumptions :
    ((consumptionsFrom ∅ (chainTxs pre) ++ consumptionsFrom (unspent pre) (chainTxs post)).map
      ConsumedCell.outpoint).Nodup := by
  have hnodup := Sync.nodup_consumptions hvalid.ledger
  rwa [chainTxs_append, consumptionsFrom_append] at hnodup

omit hvalid in
theorem LiveCore.consumedCells_eq (h : LiveCore baseline (pre ++ post) s) :
    s.consumedCells = insertAll ConsumedCell.outpoint ∅
      (consumptionsFrom ∅ (chainTxs pre) ++ consumptionsFrom (unspent pre) (chainTxs post)) := by
  rw [h.consumedCells, chainTxs_append, consumptionsFrom_append]
  rfl

omit hvalid in
theorem consumedAt_mem {txs : List (Int × TxData)}
    (hc : c ∈ consumptionsFrom m txs) : ∃ e ∈ txs, c.consumedAtBlock = e.1 := by
  induction txs generalizing m with
  | nil => cases hc
  | cons e txs ih =>
    rcases mem_append.mp hc with hfirst | hrest
    · obtain ⟨cell, -, rfl⟩ := mem_map.mp hfirst
      exact ⟨e, mem_cons_self, rfl⟩
    · obtain ⟨e', he', heq⟩ := ih hrest
      exact ⟨e', mem_cons_of_mem _ he', heq⟩

theorem ChainValid.consumedAt_pre (hc : c ∈ consumptionsFrom ∅ (chainTxs pre)) :
    c.consumedAtBlock ≤ forkPoint pre := by
  obtain ⟨e, he, heq⟩ := consumedAt_mem hc
  rw [heq]
  exact hvalid.number_le he

theorem ChainValid.consumedAt_post (hc : c ∈ consumptionsFrom (unspent pre) (chainTxs post)) :
    forkPoint pre < c.consumedAtBlock := by
  obtain ⟨e, he, heq⟩ := consumedAt_mem hc
  obtain ⟨b, hb, hmem⟩ := mem_flatMap.mp he
  obtain ⟨t, -, rfl⟩ := mem_map.mp hmem
  rw [heq]
  rw [← map_block_settleAfter pre post] at hb
  obtain ⟨b', hb', rfl⟩ := mem_map.mp hb
  exact hvalid.number_post hb'

end

/-- What a transaction context adds. -/
def contextValue (s : StatsStore) (created : PositionedCell → M) (consumed : ConsumedCell → M)
    (context : UndoTxContext) : M :=
  outputsFlow s created context +
    (context.inputs.map fun o =>
      (s.consumedCells.lookup o).elim 0 fun c => created c.cell + consumed c).sum

theorem inputFlow_eq_ok {txHash : Bytes} {total : M} {input : OutPoint}
    (h : inputFlow s rollbackTo created consumed txHash total input = .ok r) :
    r = total + (s.consumedCells.lookup input).elim 0 fun c => created c.cell + consumed c := by
  unfold inputFlow at h
  split at h
  · rename_i c hc
    split at h
    · cases h
    · split at h
      · cases h
      · rw [hc]
        exact (Except.ok.inj h).symm
  · rename_i hnone
    split at h
    · cases h
    · rw [hnone, ← Except.ok.inj h]
      exact (add_zero total).symm

theorem foldlM_inputFlow_eq_ok {txHash : Bytes} {total : M} {inputs : List OutPoint}
    (h : inputs.foldlM (inputFlow s rollbackTo created consumed txHash) total = .ok r) :
    r = total + (inputs.map fun o =>
      (s.consumedCells.lookup o).elim 0 fun c => created c.cell + consumed c).sum := by
  induction inputs generalizing total with
  | nil =>
    obtain rfl := Except.ok.inj h
    simp
  | cons input inputs ih =>
    obtain ⟨u, hu, hrest⟩ := foldlM_cons_eq_ok.mp h
    rw [ih hrest, inputFlow_eq_ok hu, map_cons, sum_cons, add_assoc]

theorem contextFlow_eq_ok (h : contextFlow s rollbackTo created consumed contexts = .ok r) :
    r = (contexts.map (contextValue s created consumed)).sum := by
  have hsum : ∀ (total r : M), contexts.foldlM (fun total context =>
      context.inputs.foldlM (inputFlow s rollbackTo created consumed context.txHash)
        (total + outputsFlow s created context)) total = .ok r →
      r = total + (contexts.map (contextValue s created consumed)).sum := by
    clear h
    induction contexts with
    | nil =>
      intro total r h
      obtain rfl := Except.ok.inj h
      simp
    | cons context contexts ih =>
      intro total r h
      obtain ⟨u, hu, hrest⟩ := foldlM_cons_eq_ok.mp h
      rw [ih u r hrest, foldlM_inputFlow_eq_ok hu, map_cons, sum_cons, contextValue,
        add_assoc, add_assoc, add_assoc]
  rw [hsum 0 r h, zero_add]

/-- The sum over a map's entries, by the places that may count. -/
theorem weight_eq_sum_places {places : List OutPoint} (hnodup : places.Nodup)
    (hother : ∀ o c, m.lookup o = some c → o ∉ places → created c = 0) :
    weight (fun _ c => created c) m = (places.map fun o => (m.lookup o).elim 0 created).sum := by
  induction places generalizing m with
  | nil =>
    refine weight_eq_zero ?_
    intro o c hc
    exact hother o c hc (by simp)
  | cons o places ih =>
    obtain ⟨ho, hnodup⟩ := nodup_cons.mp hnodup
    have hrest : weight (fun _ c => created c) (m.erase o)
        = (places.map fun o' => (m.lookup o').elim 0 created).sum := by
      rw [ih hnodup]
      · congr 1
        refine map_congr_left ?_
        intro o' ho'
        rw [lookup_erase_apply, if_neg (fun heq : o' = o => ho (heq ▸ ho'))]
      · intro o' c hc hnot
        rw [lookup_erase_apply] at hc
        split at hc
        · cases hc
        · rename_i hne
          refine hother o' c hc ?_
          rw [mem_cons, not_or]
          exact ⟨hne, hnot⟩
    rw [map_cons]
    cases hc : m.lookup o with
    | some c => rw [weight_erase hc, hrest]; rfl
    | none =>
      have herase : m.erase o = m := by
        refine Finmap.ext_lookup fun x => ?_
        rw [lookup_erase_apply]
        split
        · rename_i hx
          rw [hx, hc]
        · rfl
      rw [herase] at hrest
      rw [hrest]
      exact (zero_add _).symm

theorem sum_outputsFlow (txs : List (Int × TxData)) :
    (txs.map fun e => outputsFlow s created e.2.undoContext).sum
      = (((txFlow.created txs).map outpoint).map fun o =>
          (s.liveCells.lookup o).elim 0 created).sum := by
  induction txs with
  | nil => rfl
  | cons e txs ih =>
    have hfirst : outputsFlow s created e.2.undoContext
        = (((e.2.created e.1).map outpoint).map fun o =>
            (s.liveCells.lookup o).elim 0 created).sum := by
      rw [map_outpoint_created, map_map]
      rfl
    rw [map_cons, sum_cons, ih, hfirst]
    show _ = (((e.2.created e.1 ++ txFlow.created txs).map outpoint).map _).sum
    rw [map_append, map_append, sum_append]

section Rollback

variable (h : LiveCore baseline (pre ++ post) s) (hvalid : ChainValid (pre ++ post))
  (hf : ∀ c : PositionedCell, c.createdAtBlock ≤ forkPoint pre → created c = 0)

include h hvalid hf

/-- A cell's creation side is counted with the cells created since the fork, live or consumed. -/
theorem LiveCore.weight_live :
    weight (fun _ c => created c) s.liveCells
        + ((consumptionsFrom (unspent pre) (chainTxs post)).map fun c => created c.cell).sum
      = ((txFlow.created (chainTxs post)).map created).sum := by
  have hbalance := hvalid.ledger.weight_run created
  rw [← map_cell_consumptionsFrom, map_map, Function.comp_def] at hbalance
  have hlive : s.liveCells = txFlow.run ∅ (chainTxs (pre ++ post)) := h.liveCells
  rw [← hlive, weight_empty, zero_add, chainTxs_append, consumptionsFrom_append,
    txFlow.created_append, map_append, map_append, sum_append, sum_append,
    sum_map_eq_zero fun c hc => hf c.cell (createdAt_le hvalid (hvalid.mem_consumed_pre hc)),
    sum_map_eq_zero fun c hc => hf c (createdAt_le hvalid hc), zero_add, zero_add] at hbalance
  exact hbalance

theorem LiveCore.scanFlow :
    Sync.scanFlow s (forkPoint pre) created consumed
      = txsFlow created consumed (unspent pre) (chainTxs post) := by
  have hlive : weight (fun _ c =>
      if forkPoint pre < c.createdAtBlock then created c else 0) s.liveCells
        = weight (fun _ c => created c) s.liveCells := by
    congr 1
    funext o c
    split
    · rfl
    · exact (hf c (by omega)).symm
  have hfresh : ∀ c ∈ consumptionsFrom ∅ (chainTxs pre)
        ++ consumptionsFrom (unspent pre) (chainTxs post),
      (∅ : FinMap OutPoint ConsumedCell).lookup c.outpoint = none :=
    fun c _ => Finmap.lookup_empty c.outpoint
  unfold Sync.scanFlow txsFlow
  rw [hlive, h.consumedCells_eq, weight_insertAll hvalid.nodup_consumptions hfresh,
    weight_empty, zero_add, map_append, sum_append,
    sum_map_eq_zero fun c hc => if_neg (not_lt.mpr (hvalid.consumedAt_pre hc)), zero_add,
    map_congr_left fun c hc => if_pos (hvalid.consumedAt_post hc), sum_map_add, ← add_assoc,
    h.weight_live hvalid hf]

theorem LiveCore.contextFlow (hcontexts : contexts.Perm ((chainTxs post).map fun e => e.2.undoContext))
    (hr : Sync.contextFlow s (forkPoint pre) created consumed contexts = .ok r) :
    r = txsFlow created consumed (unspent pre) (chainTxs post) := by
  have hledger := hvalid.ledger
  rw [chainTxs_append] at hledger
  have hinputs : ((chainTxs post).map fun e => (e.2.undoContext.inputs.map fun o =>
      (s.consumedCells.lookup o).elim 0 fun c => created c.cell + consumed c).sum).sum
        = ((consumptionsFrom (unspent pre) (chainTxs post)).map fun c =>
            created c.cell + consumed c).sum := by
    have hflat : ∀ (w : OutPoint → M) (txs : List (Int × TxData)),
        (txs.map fun e => (e.2.spends.map w).sum).sum
          = ((txs.flatMap fun e => e.2.spends).map w).sum := by
      intro w txs
      rw [map_flatMap, flatMap_def, sum_flatten, map_map]
      rfl
    rw [show (fun e : Int × TxData => (e.2.undoContext.inputs.map fun o =>
        (s.consumedCells.lookup o).elim 0 fun c => created c.cell + consumed c).sum)
      = fun e => (e.2.spends.map fun o =>
        (s.consumedCells.lookup o).elim 0 fun c => created c.cell + consumed c).sum from rfl,
      hflat, ← map_outpoint_consumptions hledger.drop, map_map]
    congr 1
    refine map_congr_left ?_
    intro c hc
    have hlookup : s.consumedCells.lookup c.outpoint = some c := by
      rw [h.consumedCells_eq]
      exact lookup_insertAll_of_mem hvalid.nodup_consumptions (mem_append_right _ hc)
    rw [Function.comp_apply, hlookup]
    rfl
  have hlive : (((txFlow.created (chainTxs post)).map outpoint).map fun o =>
      (s.liveCells.lookup o).elim 0 created).sum = weight (fun _ c => created c) s.liveCells := by
    refine (weight_eq_sum_places hledger.drop.distinct ?_).symm
    intro o c hc hnot
    rw [h.liveCells] at hc
    rcases Flow.lookup_run hc with hempty | ⟨hmem, hplace⟩
    · cases hempty
    · rw [chainTxs_append, txFlow.created_append, mem_append] at hmem
      rcases hmem with hmem | hmem
      · exact hf c (createdAt_le hvalid hmem)
      · exact absurd (mem_map.mpr ⟨c, hmem, hplace⟩) hnot
  rw [contextFlow_eq_ok hr, (hcontexts.map _).sum_eq, map_map]
  show ((chainTxs post).map fun e => outputsFlow s created e.2.undoContext + _).sum = _
  rw [sum_map_add, sum_outputsFlow, hlive, hinputs, sum_map_add, ← add_assoc,
    h.weight_live hvalid hf]
  rfl

/-- The flows of a rollback, whichever way the cells are found. -/
theorem LiveCore.cellFlow (hcontexts : contexts.Subperm ((chainTxs post).map fun e => e.2.undoContext))
    (hr : Sync.cellFlow s (forkPoint pre) contexts created consumed = .ok r) :
    r = txsFlow created consumed (unspent pre) (chainTxs post) := by
  unfold Sync.cellFlow at hr
  split at hr
  · rename_i hcount
    refine h.contextFlow hvalid hf (hcontexts.perm_of_length_le ?_) hr
    have htxs : ((s.orphans (forkPoint pre)).flatMap StoredBlock.txIndex).length
        = (chainTxs post).length := by
      have hindex : ∀ bs : List SettledBlock,
          ((bs.map stored).flatMap StoredBlock.txIndex).length
            = (chainTxs (bs.map block)).length := by
        intro bs
        induction bs with
        | nil => rfl
        | cons b bs ih =>
          rw [map_cons, flatMap_cons, length_append, ih]
          simp [chainTxs, stored, ParsedBlock.stored]
      rw [h.orphans hvalid, hindex, map_block_settleAfter]
    rw [length_map, hcount.2, htxs]
  · obtain rfl := Except.ok.inj hr
    exact h.scanFlow hvalid hf

end Rollback

end Flows

/-! ## The flows of a day and of an hour -/

/-- The capacity fields of a day's shares. -/
def entryCapacity (e : DailyEntry) : CapacityDelta :=
  (e.capacityTransferred, e.usedCapacityCreated, e.usedCapacityConsumed, e.dataSizeAdded,
    e.dataSizeConsumed)

theorem find?_stored {bs : List SettledBlock}
    (hordered : bs.Pairwise fun a b => a.block.number < b.block.number) (hb : b ∈ bs) :
    (bs.map stored).find? (fun a => a.number = b.block.number) = some b.stored := by
  induction bs with
  | nil => cases hb
  | cons a bs ih =>
    obtain ⟨hhead, htail⟩ := pairwise_cons.mp hordered
    have hnumber : ∀ c : SettledBlock, c.stored.number = c.block.number := fun _ => rfl
    rw [map_cons]
    rcases mem_cons.mp hb with rfl | hb
    · rw [find?_cons_of_pos (by simp [hnumber])]
    · have hlt := hhead b hb
      rw [find?_cons_of_neg (by simp [hnumber]; omega)]
      exact ih htail hb

section

variable (hvalid : ChainValid (pre ++ post)) (bucket : StoredBlock → Int)

include hvalid

theorem ChainValid.orphanBucket_post (hb : b ∈ settleAfter pre post) :
    orphanBucket bucket ((settleAfter pre post).map stored) b.block.number
      = some (bucket b.stored) := by
  have hordered := hvalid.ordered_settle
  rw [settle_append] at hordered
  unfold orphanBucket
  rw [find?_stored (pairwise_append.mp hordered).2.1 hb]
  rfl

theorem ChainValid.orphanBucket_pre {number : Int} (hnumber : number ≤ forkPoint pre) :
    orphanBucket bucket ((settleAfter pre post).map stored) number = none := by
  unfold orphanBucket
  rw [Option.map_eq_none_iff, find?_eq_none]
  intro a ha
  obtain ⟨b, hb, rfl⟩ := mem_map.mp ha
  have hlt := hvalid.number_post hb
  simp only [decide_eq_true_eq]
  show ¬ b.block.number = number
  omega

/-- The orphaned transactions at index 0 are the cellbases. -/
theorem ChainValid.mem_cellbaseTxHashes (hb : b ∈ settleAfter pre post) {t : TxData}
    (ht : t ∈ b.block.txs) :
    t.hash ∈ cellbaseTxHashes ((settleAfter pre post).map stored) ↔ t.isCellbase = true := by
  have hmem : ∀ {b : SettledBlock}, b ∈ settleAfter pre post → b.block ∈ pre ++ post := fun hb =>
    mem_append_right _ (mem_of_settleAfter hb)
  have htx : ∀ {b : SettledBlock} {t : TxData}, b ∈ settleAfter pre post → t ∈ b.block.txs →
      (b.block.number, t) ∈ chainTxs (pre ++ post) := fun hb ht =>
    mem_flatMap.mpr ⟨_, hmem hb, mem_map_of_mem ht⟩
  unfold cellbaseTxHashes
  rw [mem_filterMap]
  constructor
  · intro hfound
    obtain ⟨a, ha, hhead⟩ := hfound
    obtain ⟨b', hb', rfl⟩ := mem_map.mp ha
    have hindex : b'.stored.txIndex = b'.block.txs.map TxData.indexEntry := rfl
    rw [hindex] at hhead
    cases htxs : b'.block.txs with
    | nil =>
      rw [htxs] at hhead
      cases hhead
    | cons t' ts =>
      rw [htxs] at hhead
      have hhash : t'.hash = t.hash := Option.some.inj hhead
      have ht' : t' ∈ b'.block.txs := by
        rw [htxs]
        exact mem_cons_self
      have heq := inj_on_of_nodup_map hvalid.hashes (htx hb' ht') (htx hb ht) hhash
      have hfirst := hvalid.cellbase b'.block (hmem hb') 0 (by simp [htxs])
      simp only [htxs] at hfirst
      rw [← show t' = t from congrArg Prod.snd heq]
      exact hfirst
  · intro hcellbase
    obtain ⟨i, hi, rfl⟩ := mem_iff_getElem.mp ht
    have hzero := hvalid.cellbase b.block (hmem hb) i hi
    rw [hcellbase] at hzero
    have hi0 : i = 0 := by simpa using hzero.symm
    subst hi0
    refine ⟨b.stored, mem_map_of_mem hb, ?_⟩
    have hindex : b.stored.txIndex = b.block.txs.map TxData.indexEntry := rfl
    rw [hindex, head?_map, head?_eq_getElem?, getElem?_eq_getElem hi]
    rfl

end

theorem map_created {M : Type} (g : Int → Int → Int → M) (number : Int) (t : TxData) :
    (t.created number).map (fun c => g c.capacity c.occupiedCapacity c.dataSize)
      = t.cells.map fun c => g c.capacity c.occupiedCapacity c.dataSize := by
  refine ext_getElem (by simp [TxData.created]) fun i h h' => ?_
  simp [TxData.created]

/-- The creation sides of a block's cells. -/
def blockCreated (b : ParsedBlock) : CapacityDelta :=
  (b.capacityTransferred, b.usedCapacityCreated, 0, b.dataSizeAdded, 0)

theorem sum_txCreated (number : Int) (ts : List TxData) :
    (ts.map fun t => ((t.created number).map fun c => (if t.isCellbase then 0 else c.capacity,
        c.occupiedCapacity, (0 : Int), c.dataSize, (0 : Int))).sum).sum
      = (((ts.filter fun t => !t.isCellbase).map TxData.totalOutputCapacity).sum,
          ((ts.flatMap TxData.cells).map ParsedCell.occupiedCapacity).sum, 0,
          ((ts.flatMap TxData.cells).map ParsedCell.dataSize).sum, 0) := by
  induction ts with
  | nil => rfl
  | cons t ts ih =>
    have hcells : ((t.created number).map fun c => (if t.isCellbase then 0 else c.capacity,
        c.occupiedCapacity, (0 : Int), c.dataSize, (0 : Int))).sum
          = (if t.isCellbase then 0 else t.totalOutputCapacity,
              (t.cells.map ParsedCell.occupiedCapacity).sum, 0,
              (t.cells.map ParsedCell.dataSize).sum, 0) := by
      rw [map_created fun capacity occupied size =>
        (if t.isCellbase then 0 else capacity, occupied, 0, size, 0)]
      unfold TxData.totalOutputCapacity
      induction t.cells with
      | nil =>
        simp only [map_nil, sum_nil, ite_self]
        rfl
      | cons c cs ihc =>
        rw [map_cons, sum_cons, ihc]
        cases t.isCellbase with
        | true => simp
        | false => simp
    rw [map_cons, sum_cons, ih, hcells, flatMap_cons, map_append, map_append]
    cases ht : t.isCellbase with
    | true => simp [ht]
    | false => simp [ht]

theorem sum_txTransferred (number : Int) (ts : List TxData) :
    (ts.map fun t => ((t.created number).map fun c =>
        if t.isCellbase then 0 else c.capacity).sum).sum
      = ((ts.filter fun t => !t.isCellbase).map TxData.totalOutputCapacity).sum := by
  induction ts with
  | nil => rfl
  | cons t ts ih =>
    rw [map_cons, sum_cons, ih,
      map_created (fun capacity _ _ => if t.isCellbase then 0 else capacity)]
    cases ht : t.isCellbase with
    | true => simp [ht]
    | false => simp [ht, TxData.totalOutputCapacity]

/-- A sum over the cells that blocks create, bucket by bucket. -/
theorem sum_created_of_blocks {M : Type} [AddCommMonoid M] {bs : List SettledBlock}
    {created : PositionedCell → M} {value : SettledBlock → M}
    (h : ∀ b ∈ bs, (b.block.txs.map fun t =>
      ((t.created b.block.number).map created).sum).sum = value b) :
    ((txFlow.created (chainTxs (bs.map block))).map created).sum = (bs.map value).sum := by
  induction bs with
  | nil => rfl
  | cons b bs ih =>
    have htxs : chainTxs ((b :: bs).map block)
        = (b.block.txs.map fun t => (b.block.number, t)) ++ chainTxs (bs.map block) := by
      simp [chainTxs]
    have hfirst : ∀ ts : List TxData,
        ((txFlow.created (ts.map fun t => (b.block.number, t))).map created).sum
          = (ts.map fun t => ((t.created b.block.number).map created).sum).sum := by
      intro ts
      induction ts with
      | nil => rfl
      | cons t ts iht =>
        rw [map_cons, map_cons, sum_cons, ← iht]
        show ((t.created b.block.number
          ++ txFlow.created (ts.map fun t => (b.block.number, t))).map created).sum = _
        rw [map_append, sum_append]
    rw [htxs, txFlow.created_append, map_append, sum_append, hfirst,
      h b mem_cons_self, ih (forall_mem_cons.mp h).2, map_cons,
      sum_cons]

/-- The creation sides that fall in one bucket, block by block. -/
theorem ChainValid.sum_createdIn {M : Type} [AddCommMonoid M] (hvalid : ChainValid (pre ++ post))
    (bucket : StoredBlock → Int) {key : Int} {created : PositionedCell → M}
    {value : SettledBlock → M} (side : Bool → PositionedCell → M)
    (hcreated : ∀ c, created c = if orphanBucket bucket
        ((settleAfter pre post).map stored) c.createdAtBlock = some key then
      side ((cellbaseTxHashes ((settleAfter pre post).map stored)).contains
        c.outpoint.txHash) c else 0)
    (hvalue : ∀ b : SettledBlock, (b.block.txs.map fun t =>
      ((t.created b.block.number).map (side t.isCellbase)).sum).sum = value b) :
    ((txFlow.created (chainTxs post)).map created).sum
      = ((settleAfter pre post).map fun b => if bucket b.stored = key then value b else 0).sum := by
  rw [← sum_created_of_blocks, map_block_settleAfter]
  intro b hb
  have hcell : ∀ t ∈ b.block.txs, ∀ c ∈ t.created b.block.number,
      created c = if bucket b.stored = key then side t.isCellbase c else 0 := by
    intro t ht c hc
    obtain ⟨hhash, hblock, -⟩ := mem_created hc
    have hcellbase := hvalid.mem_cellbaseTxHashes hb ht
    rw [← contains_iff_mem, ← Bool.eq_iff_iff] at hcellbase
    rw [hcreated, hblock, hvalid.orphanBucket_post _ hb, hhash, hcellbase]
    simp only [Option.some.injEq]
  rw [map_congr_left fun t ht => congrArg List.sum (map_congr_left (hcell t ht))]
  split
  · exact hvalue b
  · simp

theorem sum_consumed_of_blocks {M : Type} [AddCommMonoid M]
    {previous : Option Int} {bs : List ParsedBlock} {consumed : ConsumedCell → M}
    {value : SettledBlock → M}
    (h : ∀ b ∈ settleFrom m previous bs, (b.consumptions.map consumed).sum = value b) :
    ((consumptionsFrom m (chainTxs bs)).map consumed).sum
      = ((settleFrom m previous bs).map value).sum := by
  rw [← flatMap_consumptions m previous bs, map_flatMap, flatMap_def, sum_flatten, map_map]
  exact congrArg List.sum (map_congr_left h)

theorem map_cell_consumptions (b : SettledBlock) :
    b.consumptions.map ConsumedCell.cell = b.spent := by
  unfold consumptions spent
  rw [map_flatMap]
  simp [Function.comp_def]

theorem ChainValid.txsFlow_date (hvalid : ChainValid (pre ++ post)) (date : Int) :
    txsFlow (createdOnDate ((settleAfter pre post).map stored) date)
        (consumedOnDate ((settleAfter pre post).map stored) date) (unspent pre)
        (chainTxs post)
      = entryCapacity (group (dayShares (settleAfter pre post)) date).sum := by
  have hconsumed : ∀ b ∈ settleAfter pre post, (b.consumptions.map
      (consumedOnDate ((settleAfter pre post).map stored) date)).sum
        = if b.day = date then (0, 0, (b.spent.map occupiedCapacity).sum, 0,
            (b.spent.map dataSize).sum) else 0 := by
    intro b hb
    have hcell : ∀ c ∈ b.consumptions,
        consumedOnDate ((settleAfter pre post).map stored) date c
          = if b.day = date then (0, 0, c.cell.occupiedCapacity, 0, c.cell.dataSize) else 0 := by
      intro c hc
      obtain ⟨t, -, hcell⟩ := mem_flatMap.mp hc
      obtain ⟨cell, -, rfl⟩ := mem_map.mp hcell
      unfold consumedOnDate
      rw [hvalid.orphanBucket_post _ hb]
      simp only [Option.some.injEq]
      rfl
    rw [map_congr_left hcell, ← map_cell_consumptions]
    split
    · induction b.consumptions with
      | nil => rfl
      | cons c cs ih =>
        rw [map_cons, sum_cons, ih]
        simp
    · simp
  unfold txsFlow
  have hblocks : ((txFlow.created (chainTxs post)).map
      (createdOnDate ((settleAfter pre post).map stored) date)).sum
        = ((settleAfter pre post).map fun b =>
            if b.day = date then blockCreated b.block else 0).sum :=
    hvalid.sum_createdIn StoredBlock.day (fun cellbase c => (if cellbase then 0 else c.capacity,
      c.occupiedCapacity, 0, c.dataSize, 0)) (fun _ => rfl) fun b => sum_txCreated b.block.number _
  rw [hblocks, sum_consumed_of_blocks hconsumed]
  show _ + ((settleAfter pre post).map _).sum = _
  rw [dayShares, group_map]
  generalize settleAfter pre post = bs
  induction bs with
  | nil => rfl
  | cons b bs ih =>
    rw [map_cons, map_cons, sum_cons, sum_cons, add_add_add_comm, ih]
    by_cases hday : b.day = date
    · rw [if_pos hday, if_pos hday, filter_cons_of_pos (by simpa using hday), map_cons]
      simp only [blockCreated, Prod.mk_add_mk, add_zero, zero_add]
      rfl
    · rw [if_neg hday, if_neg hday, filter_cons_of_neg (by simpa using hday), zero_add, zero_add]

theorem ChainValid.txsFlow_hour (hvalid : ChainValid (pre ++ post)) (hour : Int) :
    txsFlow (createdInHour ((settleAfter pre post).map stored) hour) (fun _ => 0)
        (unspent pre) (chainTxs post)
      = (group (hourShares (settleAfter pre post)) hour).sum.2.2.2.2 := by
  unfold txsFlow
  have hblocks : ((txFlow.created (chainTxs post)).map
      (createdInHour ((settleAfter pre post).map stored) hour)).sum
        = ((settleAfter pre post).map fun b =>
            if b.hour = hour then b.block.capacityTransferred else 0).sum :=
    hvalid.sum_createdIn StoredBlock.hour (fun cellbase c => if cellbase then 0 else c.capacity)
      (fun _ => rfl) fun b => sum_txTransferred b.block.number _
  rw [hblocks, hourShares, group_map, sum_map_eq_zero fun _ _ => rfl, add_zero]
  generalize settleAfter pre post = bs
  induction bs with
  | nil => rfl
  | cons b bs ih =>
    rw [map_cons, sum_cons, ih]
    by_cases hhour : b.hour = hour
    · rw [if_pos hhour, filter_cons_of_pos (by simpa using hhour), map_cons]
      rfl
    · rw [if_neg hhour, filter_cons_of_neg (by simpa using hhour), zero_add]

end Ckbadger.Sync
