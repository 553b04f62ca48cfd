/-
Ckbadger.Sync.RollbackEpochs — the histograms and the epoch rows after a rollback,
against those of the chain that stops at the fork point.

A sample belongs to the later of its two blocks, so the samples of the orphaned blocks
are exactly those to take back. The row of the epoch that the fork cuts is reopened,
also when the writer would have found it complete.
-/
import Ckbadger.Sync.RollbackDays

namespace Ckbadger.Sync

open Lib Lib.KeyedFold Writer EpochStats List

open Std (ExtTreeMap)

section Rollback

variable {difficulty : Nat → Nat} {baseline : Option Int} {pre post : List ParsedBlock}
variable {s : StatsStore} {rows : ChainStatsRows}
variable (r : RolledBack difficulty pre post s rows)

/-! ## Histograms -/

/-- Every removed bucket is stored and holds at least what is taken out of it. -/
def Covers (stored removed : ExtTreeMap Int Int) : Prop :=
  ∀ bucket delta : Int, removed[bucket]? = some delta →
    ∃ count, stored[bucket]? = some count ∧ delta ≤ count

theorem covers_of_tabulates {l l' : List (Int × Unit)} {stored removed : ExtTreeMap Int Int}
    (hstored : Tabulates bucketRow (l ++ l') stored) (hremoved : Tabulates bucketRow l' removed) :
    Covers stored removed := by
  intro bucket delta h
  have hrow := hremoved bucket
  rw [h] at hrow
  by_cases hne : group l' bucket = []
  · rw [tabulated_of_nil hne] at hrow
    cases hrow
  · rw [tabulated_of_ne hne] at hrow
    refine ⟨_, (hstored bucket).trans (tabulated_of_ne (by simp [hne])), ?_⟩
    rw [Option.some.inj hrow, group_append]
    unfold bucketRow
    rw [length_append]
    omega

/-- Taking a histogram's later samples out leaves the earlier ones. -/
theorem subtractChainHistogram_eq_ok {l l' : List (Int × Unit)}
    {stored removed stored' : ExtTreeMap Int Int}
    (hstored : Tabulates bucketRow (l ++ l') stored) (hremoved : Tabulates bucketRow l' removed)
    (h : subtractChainHistogram stored removed = .ok stored') : Tabulates bucketRow l stored' := by
  intro bucket
  have hrow := hremoved bucket
  by_cases hne : group l' bucket = []
  · rw [tabulated_of_nil hne] at hrow
    rw [merge_of_none h hrow, hstored bucket, tabulated_append_left hne]
  · rw [tabulated_of_ne hne] at hrow
    have hstep := merge_of_some h hrow
    rw [hstored bucket, tabulated_of_ne (by simp [hne]), group_append] at hstep
    unfold subtractBucket bucketRow at hstep
    simp only [length_append, Nat.cast_add, add_sub_cancel_right] at hstep
    rw [if_neg (by omega)] at hstep
    by_cases hl : group l bucket = []
    · rw [if_pos (by simp [hl])] at hstep
      rw [tabulated_of_nil hl]
      exact (Except.ok.inj hstep).symm
    · rw [if_neg (by simpa using hl)] at hstep
      rw [tabulated_of_ne hl]
      exact (Except.ok.inj hstep).symm

/-! ## Epochs -/

theorem truncateBoundaryEpoch_eq_ok {rollbackTo removed : Int} {row row' : EpochStats}
    (h : truncateBoundaryEpoch rollbackTo removed row = .ok row') :
    row' = { row with
      transactionsCount := row.transactionsCount - removed
      endBlock := some rollbackTo
      blocksCount := rollbackTo - row.startBlock + 1
      endTimestamp := none } := by
  unfold truncateBoundaryEpoch at h
  split at h
  · cases h
  · obtain ⟨txs, htxs, hrest⟩ := bind_eq_ok.mp h
    rw [(checked_eq_ok.mp htxs).2] at hrest
    split at hrest
    · cases hrest
    · obtain ⟨count, hcount, hrow⟩ := bind_eq_ok.mp hrest
      rw [← Except.ok.inj hrow, (checked_eq_ok.mp hcount).2]

/-- The epoch of the first orphaned block: what is before it and after it. -/
structure BoundaryEpoch (xs ys : List SettledBlock) (last first : SettledBlock) : Prop where
  above : ∀ b ∈ ys, first.block.epochNumber ≤ b.block.epochNumber
  below : ∀ a ∈ xs, a.block.epochNumber ≤ first.block.epochNumber
  opens : first.block.epochIndex = 0 → ∀ a ∈ xs, a.block.epochNumber < first.block.epochNumber
  continues : first.block.epochIndex ≠ 0 → last.block.epochNumber = first.block.epochNumber

theorem BoundaryEpoch.group_ne_nil {xs ys : List SettledBlock} {last first : SettledBlock}
    (h : BoundaryEpoch xs ys last first) (hlast : last ∈ xs) (hne : first.block.epochIndex ≠ 0) :
    group (epochShares xs) first.block.epochNumber ≠ [] :=
  h.continues hne ▸ group_map_ne_nil hlast

theorem RolledBack.boundaryEpoch (hblocks : EpochBlocks (settle pre ++ settleAfter pre post)) :
    BoundaryEpoch (settle pre) (settleAfter pre post) r.last r.first := by
  obtain ⟨rest, hrest⟩ := head?_eq_some_iff.mp r.first_mem
  have hposition : LastPosition ((settle pre).map SettledBlock.block) r.first.block := by
    rw [hrest, show settle pre ++ r.first :: rest = (settle pre ++ [r.first]) ++ rest by simp]
      at hblocks
    exact hblocks.take.last
  constructor
  · intro b hb
    have hmonotone := (pairwise_append.mp hblocks.monotone).2.1
    rw [hrest] at hb hmonotone
    rcases mem_cons.mp hb with rfl | hmem
    · exact le_refl _
    · exact rel_of_pairwise_cons hmonotone hmem
  · intro a ha
    exact hposition.below a.block (mem_map_of_mem ha)
  · intro hzero a ha
    exact hposition.opens hzero a.block (mem_map_of_mem ha)
  · intro hne
    obtain ⟨p, hp, hsame⟩ := hposition.continues hne
    rw [getLast?_map, r.last_mem] at hp
    rw [← hsame, ← Option.some.inj hp]

theorem group_epochShares_eq_nil {bs : List SettledBlock} {epoch : Int}
    (h : ∀ b ∈ bs, b.block.epochNumber ≠ epoch) : group (epochShares bs) epoch = [] :=
  group_map_eq_nil.mpr h

/-- The last block of the epoch before the fork point is the fork point. -/
theorem RolledBack.endBlock_boundary (hvalid : ChainValid (pre ++ post)) :
    (epochAccum (group (epochShares (settle pre)) r.last.block.epochNumber)).endBlock
      = forkPoint pre := by
  obtain ⟨init, hinit⟩ := getLast?_eq_some_iff.mp r.last_mem
  have hlength : (settle pre).length = pre.length := length_settleFrom _ _ _
  have hnumber : r.last.block.number = forkPoint pre := by
    have hget := hvalid.take.number_settle init.length (by rw [hinit]; simp)
    simp only [hinit, getElem_concat_length] at hget
    rw [hinit] at hlength
    unfold forkPoint
    simp at hlength
    omega
  have hgroup : group (epochShares (settle pre)) r.last.block.epochNumber
      = group (epochShares init) r.last.block.epochNumber
        ++ [(r.last.block, r.last.chainTimeMs)] := by
    rw [hinit, epochShares_append]
    simp [epochShares, group_cons]
  rw [hgroup]
  by_cases hnone : group (epochShares init) r.last.block.epochNumber = []
  · rw [hnone]
    exact hnumber
  · rw [epochAccum_concat hnone]
    exact hnumber

theorem sum_epochTxShares (bs : List SettledBlock) (epoch : Int) :
    (group (epochTxShares bs) epoch).sum = (epochAccum (group (epochShares bs) epoch)).txCount := by
  have hshares : ∀ blocks : List (ParsedBlock × Int),
      (epochAccum blocks).txCount = (blocks.map fun b => b.1.transactionsCount).sum := by
    intro blocks
    cases blocks with
    | nil => rfl
    | cons first rest => rfl
  rw [hshares, group_epochShares, epochTxShares, group_map, map_map]
  rfl

/-- Epoch rows after a rollback: an epoch that goes on after the fork point is never complete. -/
theorem RolledBack.getElem?_epoch
    (hvalid : ChainValid (pre ++ post)) (hepochs : EpochsContiguous (pre ++ post))
    (hrows : Tabulates epochRow (epochShares (settle (pre ++ post))) s.rows.epoch) (epoch : Int) :
    rows.epoch[epoch]? =
      if epoch = r.first.block.epochNumber ∧ r.first.block.epochIndex ≠ 0 then
        some { epochRow epoch (group (epochShares (settle pre)) epoch) with endTimestamp := none }
      else tabulated epochRow (epochShares (settle pre)) epoch := by
  have hblocks := hvalid.epochBlocks hepochs
  rw [settle_append] at hblocks hrows
  have hboundary := r.boundaryEpoch hblocks
  have hlower : ∀ {epoch}, epoch < r.first.block.epochNumber →
      s.rows.epoch[epoch]? = tabulated epochRow (epochShares (settle pre)) epoch := by
    intro epoch hlt
    rw [hrows epoch, epochShares_append]
    refine tabulated_append_left (group_epochShares_eq_nil ?_)
    intro b hb
    have := hboundary.above b hb
    omega
  have hsweep := r.epoch
  obtain ⟨swept, hswept, hresult⟩ := bind_eq_ok.mp hsweep
  have hget := sweep_delete hswept
  have hheader : (r.first.block.header r.first.chainTimeMs).epochIndex = r.first.block.epochIndex ∧
      (r.first.block.header r.first.chainTimeMs).epochNumber = r.first.block.epochNumber :=
    ⟨rfl, rfl⟩
  rw [hheader.1, hheader.2] at hresult
  by_cases hzero : r.first.block.epochIndex = 0
  · rw [if_neg (fun h => h.2 hzero)]
    rw [if_pos (by simp [hzero])] at hresult
    rw [← Except.ok.inj hresult, hget epoch]
    by_cases hlt : epoch < r.first.block.epochNumber
    · rw [if_neg (by simp; omega), hlower hlt]
    · rw [if_pos (by simp; omega), tabulated_of_nil (group_epochShares_eq_nil ?_)]
      intro a ha
      have := hboundary.opens hzero a ha
      omega
  · rw [if_neg (by simp [hzero])] at hresult
    split at hresult
    · cases hresult
    · rename_i row hrow
      obtain ⟨truncated, htruncated, hresult⟩ := bind_eq_ok.mp hresult
      rw [← Except.ok.inj hresult, Std.ExtTreeMap.getElem?_insert]
      rcases lt_trichotomy epoch r.first.block.epochNumber with hlt | rfl | hgt
      · rw [if_neg (by simp; omega), hget epoch,
          if_neg (by simp; omega), if_neg (fun h => by omega), hlower hlt]
      · rw [if_pos (by simp), if_pos ⟨rfl, hzero⟩]
        -- the boundary row, cut back to the surviving blocks
        have hlast := hboundary.continues hzero
        have hpre : group (epochShares (settle pre)) r.first.block.epochNumber ≠ [] :=
          hboundary.group_ne_nil r.last_mem_settle hzero
        have hpost : group (epochShares (settleAfter pre post)) r.first.block.epochNumber ≠ [] :=
          group_map_ne_nil r.first_mem_settleAfter
        have hend := r.endBlock_boundary hvalid
        rw [hlast] at hend
        have hstored : row = epochRow r.first.block.epochNumber
            (group (epochShares (settle pre)) r.first.block.epochNumber
              ++ group (epochShares (settleAfter pre post)) r.first.block.epochNumber) := by
          have hrow' := hrows r.first.block.epochNumber
          rw [hrow, epochShares_append, tabulated_of_ne (by simp [hpre]), group_append] at hrow'
          exact Option.some.inj hrow'
        have hremoved : r.deltas.headers.epochTxRemoved[r.first.block.epochNumber]?.getD 0
            = (epochAccum (group (epochShares (settleAfter pre post))
                r.first.block.epochNumber)).txCount := by
          rw [r.orphaned.epochTxs, tabulated_of_ne, Option.getD_some, sum_epochTxShares]
          exact group_map_ne_nil r.first_mem_settleAfter
        rw [truncateBoundaryEpoch_eq_ok htruncated, hstored, hremoved]
        unfold epochRow
        rw [epochAccum_append hpre hpost]
        unfold accumRow
        simp [hend]
      · rw [if_neg (by simp; omega), hget epoch, if_pos (by simp; omega),
          if_neg (fun h => by omega), tabulated_of_nil (group_epochShares_eq_nil ?_)]
        intro a ha
        have := hboundary.below a ha
        omega

/-- The first block of an epoch is the one with index 0. -/
theorem EpochBlocks.group_eq_cons {bs : List SettledBlock} (h : EpochBlocks bs) {a : SettledBlock}
    (ha : a ∈ bs) (hzero : a.block.epochIndex = 0) :
    ∃ rest, group (epochShares bs) a.block.epochNumber = (a.block, a.chainTimeMs) :: rest := by
  obtain ⟨us, ws, rfl⟩ := append_of_mem ha
  have hlast : LastPosition (us.map SettledBlock.block) a.block := by
    rw [show us ++ a :: ws = (us ++ [a]) ++ ws by simp] at h
    exact h.take.last
  have hbefore : group (epochShares us) a.block.epochNumber = [] := by
    refine group_epochShares_eq_nil ?_
    intro b hb
    exact (hlast.opens hzero b.block (mem_map_of_mem hb)).ne
  refine ⟨group (epochShares ws) a.block.epochNumber, ?_⟩
  rw [epochShares_append, group_append, hbefore]
  simp [epochShares, group_cons]

/-- The epochs roll back exactly when the epoch that goes on after the fork point had fewer blocks
than its first block announced. -/
theorem RolledBack.epoch_tabulates_iff
    (hvalid : ChainValid (pre ++ post)) (hepochs : EpochsContiguous (pre ++ post))
    (hrows : Tabulates epochRow (epochShares (settle (pre ++ post))) s.rows.epoch) :
    Tabulates epochRow (epochShares (settle pre)) rows.epoch ↔
      (r.first.block.epochIndex ≠ 0 → ∀ a ∈ settle pre,
        a.block.epochNumber = r.first.block.epochNumber → a.block.epochIndex = 0 →
          forkPoint pre - a.block.number + 1 < a.block.epochLength) := by
  have hblocks := hvalid.epochBlocks hepochs
  rw [settle_append] at hblocks
  have hboundary := r.boundaryEpoch hblocks
  have hend := r.endBlock_boundary hvalid
  -- the row of the boundary epoch, by its first block
  have hcomplete : ∀ {a : SettledBlock}, a ∈ settle pre → a.block.epochIndex = 0 →
      r.first.block.epochIndex ≠ 0 → a.block.epochNumber = r.first.block.epochNumber →
      ((epochRow r.first.block.epochNumber (group (epochShares (settle pre))
        r.first.block.epochNumber)).endTimestamp = none ↔
          forkPoint pre - a.block.number + 1 < a.block.epochLength) := by
    intro a ha hzero hne heq
    obtain ⟨rest, hgroup⟩ := hblocks.take.group_eq_cons ha hzero
    rw [hboundary.continues hne, ← heq] at hend
    unfold epochRow accumRow
    rw [← heq, hend, hgroup]
    show (if a.block.epochLength ≤ forkPoint pre - a.block.number + 1 then some _ else none) = none
      ↔ _
    split
    · simp only [reduceCtorEq, false_iff]
      omega
    · simp only [true_iff]
      omega
  have hmem := hboundary.group_ne_nil r.last_mem_settle
  constructor
  · intro htable hne a ha heq hzero
    rw [← hcomplete ha hzero hne heq]
    have hrow := htable r.first.block.epochNumber
    rw [r.getElem?_epoch hvalid hepochs hrows, if_pos ⟨rfl, hne⟩, tabulated_of_ne (hmem hne)]
      at hrow
    exact (congrArg endTimestamp (Option.some.inj hrow)).symm
  · intro hshort epoch
    rw [r.getElem?_epoch hvalid hepochs hrows]
    split
    · rename_i h
      obtain ⟨rfl, hne⟩ := h
      obtain ⟨first, rest, hgroup⟩ := exists_cons_of_ne_nil (hmem hne)
      obtain ⟨a, ha, heq⟩ := mem_map.mp (mem_group.mp (hgroup ▸ mem_cons_self))
      have hepoch : a.block.epochNumber = r.first.block.epochNumber := congrArg Prod.fst heq
      have hblock : a.block = first.1 := congrArg (fun e => e.2.1) heq
      have hzero : a.block.epochIndex = 0 := by
        have hstart : EpochBlocks ([] ++ settle pre) := hblocks.take
        rw [hblock]
        exact (hstart.first_index hgroup).mpr rfl
      have hnone := (hcomplete ha hzero hne hepoch).mpr (hshort hne a ha hepoch hzero)
      rw [tabulated_of_ne (hmem hne), ← hnone]
    · rfl

/-! ## Against a store of the surviving blocks -/

/-- Rolled back to the end of `pre`, the epoch rows and the histograms are those of a store that has
only indexed `pre`, whatever the batches, and no bucket goes below zero on the way, exactly when
an epoch that goes on after the fork point has fewer surviving blocks than its first block
announced. -/
theorem rollback_epochs_iff {s' : StatsStore} (h : Reorg difficulty baseline pre post s s' rows)
    (hepochs : EpochsContiguous (pre ++ post)) :
    (rows.epoch = s'.rows.epoch ∧ rows.blockTimeDist = s'.rows.blockTimeDist ∧
        rows.epochTimeDist = s'.rows.epochTimeDist ∧
        ∃ loop, (s.orphans (forkPoint pre)).foldlM (rollbackHeader difficulty s (forkPoint pre))
            { prevHeader := (settle pre).getLast?.map fun b => (forkPoint pre, b.chainTimeMs) }
              = .ok loop ∧
          Covers s.rows.blockTimeDist loop.deltas.removedBlockTime ∧
          Covers s.rows.epochTimeDist loop.deltas.removedEpochTime) ↔
      ∀ b ∈ post.head?, b.epochIndex ≠ 0 → ∀ a ∈ pre, a.epochNumber = b.epochNumber →
        a.epochIndex = 0 → forkPoint pre - a.number + 1 < a.epochLength := by
  obtain ⟨hstate, hstate', ⟨r⟩⟩ := h.states
  obtain ⟨full, hfull, hs⟩ := h.indexed
  obtain ⟨part, hpart, hs'⟩ := h.survived
  have hepoch := liveRun_epochState (hfull ▸ h.valid) (hfull ▸ hepochs) hs
  have hepoch' := liveRun_epochState (hpart ▸ h.valid.take) (hpart ▸ hepochs.take) hs'
  rw [hfull] at hepoch
  rw [hpart] at hepoch'
  have hblocks := hstate.blockTimeDist
  have hsamples := hepoch.epochTimeDist
  rw [settle_append, blockTimeShares_append] at hblocks
  rw [settle_append, epochTimeShares_append] at hsamples
  have hblockTime := (subtractChainHistogram_eq_ok hblocks r.orphaned.blockTimeDist
    r.blockTimeDist).unique hstate'.blockTimeDist
  have hepochTime := (subtractChainHistogram_eq_ok hsamples r.orphaned.epochTimeDist
    r.epochTimeDist).unique hepoch'.epochTimeDist
  have hcovers := covers_of_tabulates hblocks r.orphaned.blockTimeDist
  have hcovers' := covers_of_tabulates hsamples r.orphaned.epochTimeDist
  rw [r.loop_deltas] at hcovers hcovers'
  have hfirst : post.head? = some r.first.block := by
    have hhead := congrArg List.head? (map_block_settleAfter pre post)
    rw [head?_map, r.first_mem] at hhead
    exact hhead.symm
  have hmem : ∀ p : ParsedBlock → Prop, (∀ a ∈ settle pre, p a.block) ↔ ∀ a ∈ pre, p a := by
    intro p
    rw [← forall_mem_map, map_block_settle]
  rw [r.last_mem, hfirst, and_iff_left]
  swap
  · exact ⟨hblockTime, hepochTime, r.loop, r.headers, hcovers, hcovers'⟩
  simp only [Option.mem_some_iff, forall_eq']
  rw [← hmem fun a => a.epochNumber = r.first.block.epochNumber → a.epochIndex = 0 →
    forkPoint pre - a.number + 1 < a.epochLength,
    ← r.epoch_tabulates_iff h.valid hepochs hepoch.epoch]
  exact hepoch'.epoch.eq_iff

/-- A block that announces an epoch of `epochLength` blocks. -/
def epochBlock (number : Nat) (epochLength : Int) : ParsedBlock :=
  minedBlock number (1000 * number) 3 7 epochLength

/-- The genesis block announces an empty epoch, which the writer finds complete; a rollback inside
it does not. -/
theorem rollback_reopens_genesis_epoch :
    ∃ (s s' : StatsStore) (rows : ChainStatsRows),
      ChainValid ([epochBlock 0 0, epochBlock 1 9] ++ [epochBlock 2 9]) ∧
      EpochsContiguous ([epochBlock 0 0, epochBlock 1 9] ++ [epochBlock 2 9]) ∧
      liveRun (fun _ => 1) { baseline := some 0 }
        [[epochBlock 0 0, epochBlock 1 9, epochBlock 2 9]] = .ok s ∧
      liveRun (fun _ => 1) { baseline := some 0 } [[epochBlock 0 0, epochBlock 1 9]] = .ok s' ∧
      rollbackChainStats (fun _ => 1) s [] (forkPoint [epochBlock 0 0, epochBlock 1 9]) = .ok rows ∧
      rows.epoch[(0 : Int)]?.map endTimestamp = some none ∧
      s'.rows.epoch[(0 : Int)]?.map endTimestamp = some (some 1000) ∧
      rows.epoch ≠ s'.rows.epoch := by
  obtain ⟨s, s', rows, hs, hs', hrows, hview⟩ := @exists_rollback _
    [[epochBlock 0 0, epochBlock 1 9, epochBlock 2 9]] [[epochBlock 0 0, epochBlock 1 9]]
    (forkPoint [epochBlock 0 0, epochBlock 1 9])
    (fun rows s' => (rows.epoch[(0 : Int)]?.map endTimestamp,
      s'.rows.epoch[(0 : Int)]?.map endTimestamp))
    (some none, some (some 1000)) (by decide +kernel)
  obtain ⟨hrow, hrow'⟩ := Prod.mk.inj hview
  refine ⟨s, s', rows, by decide +kernel, by decide +kernel, hs, hs', hrows, hrow, hrow', ?_⟩
  intro heq
  rw [heq, hrow'] at hrow
  exact absurd hrow (by decide)

/-- An epoch of nine blocks, cut after the first, comes back. -/
theorem rollback_epochs_iff_mid_epoch :
    ∃ (s s' : StatsStore) (rows : ChainStatsRows),
      liveRun (fun _ => 1) { baseline := some 0 } [[epochBlock 0 9, epochBlock 1 9]] = .ok s ∧
      liveRun (fun _ => 1) { baseline := some 0 } [[epochBlock 0 9]] = .ok s' ∧
      rollbackChainStats (fun _ => 1) s [] (forkPoint [epochBlock 0 9]) = .ok rows ∧
      rows.epoch = s'.rows.epoch ∧ rows.blockTimeDist = s'.rows.blockTimeDist ∧
      rows.epochTimeDist = s'.rows.epochTimeDist := by
  obtain ⟨s, s', rows, hs, hs', hrows, -⟩ := @exists_rollback _
    [[epochBlock 0 9, epochBlock 1 9]] [[epochBlock 0 9]] (forkPoint [epochBlock 0 9])
    (fun _ s' => s'.blocks.length) 1 (by decide +kernel)
  have h : Reorg _ _ [epochBlock 0 9] [epochBlock 1 9] s s' rows :=
    ⟨by decide +kernel, by decide, by decide, ⟨_, by decide, hs⟩, ⟨_, by decide, hs'⟩, [],
      nil_subperm, hrows⟩
  obtain ⟨hepoch, hblockTime, hepochTime, -⟩ :=
    (rollback_epochs_iff h (by decide +kernel)).mpr (by decide +kernel)
  exact ⟨s, s', rows, hs, hs', hrows, hepoch, hblockTime, hepochTime⟩

/-! ## Cuts -/

/-- **The chain statistics do not depend on the batches.** Two runs over one valid chain, however it
is cut in each, end with the same blocks, live and consumed cells and rows of the seven families
of `ChainStatsRows`: days, hours, blocks of days, miners, epochs and the two distributions. -/
theorem liveRun_cut_independent {batches batches' : List (List ParsedBlock)} {s' : StatsStore}
    (hvalid : ChainValid batches.flatten) (hepochs : EpochsContiguous batches.flatten)
    (hcut : batches.flatten = batches'.flatten)
    (hs : liveRun difficulty { baseline := baseline } batches = .ok s)
    (hs' : liveRun difficulty { baseline := baseline } batches' = .ok s') : s = s' := by
  have h := liveRun_state hvalid hs
  have hepoch := liveRun_epochState hvalid hepochs hs
  rw [hcut] at hvalid hepochs h hepoch
  have h' := liveRun_state hvalid hs'
  have hepoch' := liveRun_epochState hvalid hepochs hs'
  have hrows : s.rows = s'.rows := by
    rw [ChainStatsRows.mk.injEq]
    exact ⟨h'.daily.eq_iff.mpr h.daily, h.hourly.unique h'.hourly,
      h.dailyBlock.unique h'.dailyBlock, h.miner.unique h'.miner,
      hepoch.epoch.unique hepoch'.epoch, h.blockTimeDist.unique h'.blockTimeDist,
      hepoch.epochTimeDist.unique hepoch'.epochTimeDist⟩
  rw [StatsStore.mk.injEq]
  exact ⟨h.genesis.trans h'.genesis.symm, h.blocks.trans h'.blocks.symm,
    h.liveCells.trans h'.liveCells.symm, h.consumedCells.trans h'.consumedCells.symm, hrows⟩

theorem liveRun_cut_independent_two :
    ∃ s, liveRun (fun _ => 1) { baseline := some 0 } [[epochBlock 0 9, epochBlock 1 9]] = .ok s ∧
      liveRun (fun _ => 1) { baseline := some 0 } [[epochBlock 0 9], [epochBlock 1 9]] = .ok s := by
  obtain ⟨s, s', -, hs, hs', -⟩ := @exists_rollback _ [[epochBlock 0 9, epochBlock 1 9]]
    [[epochBlock 0 9], [epochBlock 1 9]] 0 (fun _ s' => s'.blocks.length) 2 (by decide +kernel)
  obtain rfl := liveRun_cut_independent (by decide +kernel) (by decide +kernel) rfl hs hs'
  exact ⟨s, hs, hs'⟩

end Rollback

end Ckbadger.Sync
