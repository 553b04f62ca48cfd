/-
Ckbadger.Sync.RollbackMiners — the block rows and the miner rows of the days after a
rollback, against those of the chain that stops at the fork point.

Sums are repaired by subtraction. A miner's last block is no sum: its repair is left out,
so a miner with blocks on both sides of the fork point keeps an orphaned number.
-/
import Ckbadger.Sync.RollbackDays

namespace Ckbadger.Sync

open Lib Lib.KeyedFold Common Writer Std List

section Rollback

variable {difficulty : Nat → Nat} {baseline : Option Int} {pre post : List ParsedBlock}
variable {s : StatsStore} {rows : ChainStatsRows}
variable {key : MinerKey} {bs : List SettledBlock}

/-! ## Blocks of a day -/

theorem blocks_sum (difficulty : Nat → Nat) (bs : List SettledBlock) (date : Int) :
    (group (dayShares bs) date).sum.blocks = (group (dayBlockShares difficulty bs) date).length := by
  unfold dayShares dayBlockShares
  rw [group_map, group_map, length_map]
  generalize bs.filter (fun b => b.day = date) = cs
  induction cs with
  | nil => rfl
  | cons b cs ih =>
    rw [map_cons, length_cons]
    show 1 + (cs.map SettledBlock.dailyEntry).sum.blocks = _
    omega

theorem blockCount_sum (difficulty : Nat → Nat) (bs : List SettledBlock) (date : Int) :
    (group (dayBlockShares difficulty bs) date).sum.2.1
      = (group (dayBlockShares difficulty bs) date).length := by
  unfold dayBlockShares
  rw [group_map, workUncles_sum, length_map]

theorem repairDailyBlock_eq_ok {xs ys : List SettledBlock} {date hour : Int}
    {deltas : RollbackStatsDeltas} (hdeltas : OrphanDeltas difficulty xs ys date hour deltas)
    (hday : group (dayBlockShares difficulty ys) date ≠ []) {o : Option DailyBlockStats}
    (h : repairDailyBlock deltas date date
      (dailyBlockRow date (group (dayBlockShares difficulty (xs ++ ys)) date)) = .ok o) :
    o = tabulated dailyBlockRow (dayBlockShares difficulty xs) date := by
  have hsum : (group (dayBlockShares difficulty (xs ++ ys)) date).sum
      = (group (dayBlockShares difficulty xs) date).sum
        + (group (dayBlockShares difficulty ys) date).sum := by
    rw [dayBlockShares_append, group_append, sum_append]
  have hpos : 0 < (group (dayBlockShares difficulty ys) date).length := length_pos_iff.mpr hday
  have hys := blockCount_sum difficulty ys date
  have hxs := blockCount_sum difficulty xs date
  unfold repairDailyBlock at h
  rw [if_neg (by simp), hdeltas.date, hdeltas.uncles, hdeltas.work] at h
  simp only [Option.map_some, Option.getD_some, entryFlow, blocks_sum difficulty, dailyBlockRow,
    hsum, Prod.fst_add, Prod.snd_add, hys] at h
  rw [if_neg (by omega), if_neg (by omega)] at h
  by_cases hnone : group (dayBlockShares difficulty xs) date = []
  · rw [if_pos (by simp [hnone])] at h
    rw [tabulated_of_nil hnone]
    exact (Except.ok.inj h).symm
  · have hxpos : 0 < (group (dayBlockShares difficulty xs) date).length :=
      length_pos_iff.mpr hnone
    rw [if_neg (by omega)] at h
    split at h
    · cases h
    · rw [if_neg (by omega)] at h
      rw [tabulated_of_ne hnone, ← Except.ok.inj h]
      unfold dailyBlockRow
      simp [hxs]

/-- The blocks of the days roll back exactly. -/
theorem RolledBack.dailyBlock_tabulates (r : RolledBack difficulty pre post s rows)
    (hrows : Tabulates dailyBlockRow (dayBlockShares difficulty (settle (pre ++ post)))
      s.rows.dailyBlock) :
    Tabulates dailyBlockRow (dayBlockShares difficulty (settle pre)) rows.dailyBlock := by
  intro date
  have hrow := hrows date
  rw [settle_append] at hrow
  by_cases hcut : date = r.first.day ∧ r.last.day = r.first.day
  · obtain ⟨rfl, hday⟩ := hcut
    have hfirst : group (dayBlockShares difficulty (settleAfter pre post)) r.first.day ≠ [] :=
      group_map_ne_nil r.first_mem_settleAfter
    rw [tabulated_of_ne (by rw [dayBlockShares_append]; simp [hfirst])] at hrow
    exact repairDailyBlock_eq_ok r.orphaned hfirst (r.repaired r.dailyBlock hrow rfl hday)
  · refine r.getElem?_swept r.dailyBlock dayOf_le (fun hsame => hsame) (fun hne _ => if_pos hne)
      (fun hnone => ?_) (fun hnone => tabulated_of_nil (group_map_eq_nil.mpr hnone)) hcut
    rw [hrow, dayBlockShares_append]
    exact tabulated_append_left (group_map_eq_nil.mpr hnone)

/-! ## Miners -/

theorem mem_minerShares {number : Int} :
    (key, number) ∈ minerShares bs ↔
      ∃ b ∈ bs, key.date = b.day ∧ b.block.minerLockHash = some key.miner ∧
        b.block.number = number := by
  unfold minerShares SettledBlock.minerShare
  rw [mem_flatMap]
  refine exists_congr fun b => and_congr_right fun _ => ?_
  rw [mem_map]
  constructor
  · intro h
    obtain ⟨miner, hminer, heq⟩ := h
    obtain ⟨rfl, rfl⟩ := Prod.mk.inj heq
    exact ⟨rfl, Option.mem_toList.mp hminer, rfl⟩
  · intro h
    obtain ⟨hdate, hminer, rfl⟩ := h
    refine ⟨key.miner, Option.mem_toList.mpr hminer, ?_⟩
    rw [← hdate]

theorem group_minerShares_eq_nil (h : ∀ b ∈ bs, b.day ≠ key.date) :
    group (minerShares bs) key = [] := by
  rw [eq_nil_iff_forall_not_mem]
  intro number hmem
  obtain ⟨b, hb, hdate, -⟩ := mem_minerShares.mp (mem_group.mp hmem)
  exact h b hb hdate.symm

/-- The last block stays as it was when a miner's blocks are subtracted. -/
theorem repairMiner_eq_ok {xs ys : List SettledBlock} {hour : Int}
    {deltas : RollbackStatsDeltas} (hdeltas : OrphanDeltas difficulty xs ys key.date hour deltas)
    (hne : group (minerShares (xs ++ ys)) key ≠ []) {o : Option MinerStats}
    (h : repairMiner deltas key.date key (minerRow key (group (minerShares (xs ++ ys)) key))
      = .ok o) :
    o = if group (minerShares xs) key = [] ∨ group (minerShares ys) key = [] then
        tabulated minerRow (minerShares xs) key
      else some { minerRow key (group (minerShares xs) key) with
        lastBlockNumber := (group (minerShares ys) key).getLast?.getD 0 } := by
  have hgroup : group (minerShares (xs ++ ys)) key
      = group (minerShares xs) key ++ group (minerShares ys) key := by
    rw [minerShares_append, group_append]
  rw [hgroup] at h hne
  unfold repairMiner at h
  rw [if_neg (by simp)] at h
  simp only [hdeltas.miner key] at h
  by_cases hys : group (minerShares ys) key = []
  · rw [hys, append_nil] at h hne
    rw [if_pos (Or.inr hys), tabulated_of_ne hne]
    exact (Except.ok.inj h).symm
  · have hpos : 0 < (group (minerShares ys) key).length := length_pos_iff.mpr hys
    rw [if_neg (by omega)] at h
    by_cases hxs : group (minerShares xs) key = []
    · rw [if_pos (by simp [hxs, minerRow, minerEntry])] at h
      rw [if_pos (Or.inl hxs), tabulated_of_nil hxs]
      exact (Except.ok.inj h).symm
    · rw [if_neg (by simp [minerRow, minerEntry]; omega)] at h
      rw [if_neg (by simp [hxs, hys]), ← Except.ok.inj h]
      unfold minerRow minerEntry
      simp [getLast?_append_of_ne_nil _ hys]

/-- Miner rows after a rollback: a miner with blocks on both sides of the fork point, on the cut
day, keeps the number of an orphaned block. -/
theorem RolledBack.getElem?_miner (r : RolledBack difficulty pre post s rows)
    (hrows : Tabulates minerRow (minerShares (settle (pre ++ post))) s.rows.miner)
    (key : MinerKey) :
    rows.miner[key]? =
      if key.date = r.first.day ∧ r.last.day = r.first.day ∧
          group (minerShares (settle pre)) key ≠ [] ∧
          group (minerShares (settleAfter pre post)) key ≠ [] then
        some { minerRow key (group (minerShares (settle pre)) key) with
          lastBlockNumber := (group (minerShares (settleAfter pre post)) key).getLast?.getD 0 }
      else tabulated minerRow (minerShares (settle pre)) key := by
  have hrow := hrows key
  rw [settle_append] at hrow
  by_cases hcut : key.date = r.first.day ∧ r.last.day = r.first.day
  · obtain ⟨hdate, hday⟩ := hcut
    by_cases hne : group (minerShares (settle pre ++ settleAfter pre post)) key = []
    · rw [tabulated_of_nil hne] at hrow
      rw [minerShares_append, group_append, append_eq_nil_iff] at hne
      rw [sweep_none r.miner hrow, if_neg (by simp [hne.1]), tabulated_of_nil hne.1]
    · rw [tabulated_of_ne hne] at hrow
      have hstep := r.repaired r.miner hrow hdate hday
      have horphaned := r.orphaned
      rw [← hdate] at hstep horphaned
      rw [repairMiner_eq_ok horphaned hne hstep]
      by_cases hboth : group (minerShares (settle pre)) key = [] ∨
          group (minerShares (settleAfter pre post)) key = []
      · rw [if_pos hboth, if_neg (by tauto)]
      · rw [if_neg hboth, if_pos (by tauto)]
  · rw [if_neg fun h => hcut ⟨h.1, h.2.1⟩]
    refine r.getElem?_swept r.miner dayOf_le (fun hsame => hsame) (fun hne _ => if_pos hne)
      (fun hnone => ?_) (fun hnone => tabulated_of_nil (group_minerShares_eq_nil hnone)) hcut
    rw [hrow, minerShares_append]
    exact tabulated_append_left (group_minerShares_eq_nil hnone)

theorem group_minerShares_ne_nil {b : SettledBlock} {miner : Bytes}
    (hb : b ∈ bs) (hminer : b.block.minerLockHash = some miner) :
    group (minerShares bs) ⟨b.day, miner⟩ ≠ [] :=
  group_ne_nil (e := (⟨b.day, miner⟩, b.block.number))
    (mem_minerShares.mpr ⟨b, hb, rfl, hminer, rfl⟩)

/-- The last blocks of a miner before and after the fork point differ. -/
theorem getLast_minerShares_ne (hvalid : ChainValid (pre ++ post))
    (hpre : group (minerShares (settle pre)) key ≠ [])
    (hpost : group (minerShares (settleAfter pre post)) key ≠ []) :
    (group (minerShares (settleAfter pre post)) key).getLast?.getD 0
      ≠ (group (minerShares (settle pre)) key).getLast?.getD 0 := by
  rw [getLast?_eq_some_getLast hpre, getLast?_eq_some_getLast hpost]
  obtain ⟨a, ha, -, -, hnumber⟩ := mem_minerShares.mp (mem_group.mp (getLast_mem hpre))
  obtain ⟨b, hb, -, -, hnumber'⟩ := mem_minerShares.mp (mem_group.mp (getLast_mem hpost))
  have hale := (hvalid.number_pre ha).2
  have hblt := hvalid.number_post hb
  simp only [Option.getD_some]
  omega

/-- The miners roll back exactly when no miner has blocks on both sides of the fork point on one
day. -/
theorem RolledBack.miner_tabulates_iff (r : RolledBack difficulty pre post s rows)
    (hvalid : ChainValid (pre ++ post))
    (hrows : Tabulates minerRow (minerShares (settle (pre ++ post))) s.rows.miner) :
    Tabulates minerRow (minerShares (settle pre)) rows.miner ↔
      ∀ a ∈ settle pre, ∀ b ∈ settleAfter pre post, a.day = b.day →
        a.block.minerLockHash = b.block.minerLockHash → a.block.minerLockHash = none := by
  constructor
  · intro htable a ha b hb hday hminer
    cases hsome : a.block.minerLockHash with
    | none => rfl
    | some miner =>
      exfalso
      have hpre := group_minerShares_ne_nil ha hsome
      have hpost := group_minerShares_ne_nil hb (hminer.symm.trans hsome)
      rw [← hday] at hpost
      -- both blocks are on the cut day
      have hlast : a.day ≤ r.last.day := dayOf_le (r.chainTime_pre ha)
      have hcut : r.last.day ≤ r.first.day :=
        dayOf_le (chainTime_cut r.last_mem_settle r.first_mem_settleAfter)
      have hfirst : r.first.day ≤ b.day := dayOf_le (r.chainTime_post hb)
      have hrow := htable ⟨a.day, miner⟩
      rw [r.getElem?_miner hrows,
        if_pos ⟨by show a.day = r.first.day; omega, by omega, hpre, hpost⟩,
        tabulated_of_ne hpre] at hrow
      exact getLast_minerShares_ne hvalid hpre hpost
        (congrArg MinerStats.lastBlockNumber (Option.some.inj hrow))
  · intro hnone key
    rw [r.getElem?_miner hrows]
    split
    · rename_i h
      obtain ⟨-, -, hpre, hpost⟩ := h
      obtain ⟨a, ha, hadate, haminer, -⟩ :=
        mem_minerShares.mp (mem_group.mp (getLast_mem hpre))
      obtain ⟨b, hb, hbdate, hbminer, -⟩ :=
        mem_minerShares.mp (mem_group.mp (getLast_mem hpost))
      have hno := hnone a ha b hb (hadate.symm.trans hbdate) (haminer.trans hbminer.symm)
      rw [haminer] at hno
      cases hno
    · rfl

/-! ## Against a store of the surviving blocks -/

/-- Rolled back to the end of `pre`, the block rows and the miner rows are those of a store that has
only indexed `pre`, whatever the batches, exactly when no miner has blocks on both sides of the
fork point on one day. -/
theorem rollback_miners_iff {s' : StatsStore} (h : Reorg difficulty baseline pre post s s' rows) :
    (rows.dailyBlock = s'.rows.dailyBlock ∧ rows.miner = s'.rows.miner) ↔
      ∀ a ∈ settle pre, ∀ b ∈ settleAfter pre post, a.day = b.day →
        a.block.minerLockHash = b.block.minerLockHash → a.block.minerLockHash = none := by
  obtain ⟨hstate, hstate', ⟨r⟩⟩ := h.states
  have hblocks : rows.dailyBlock = s'.rows.dailyBlock :=
    (r.dailyBlock_tabulates hstate.dailyBlock).unique hstate'.dailyBlock
  rw [and_iff_right hblocks, ← r.miner_tabulates_iff h.valid hstate.miner]
  exact hstate'.miner.eq_iff

/-- A block mined by `miner`. -/
def blockOf (number : Nat) (timestamp : Int) (miner : UInt8) : ParsedBlock :=
  minedBlock number timestamp 3 miner 9

/-- The key of a miner's blocks on day 0. -/
def minerDay (miner : UInt8) : MinerKey := ⟨0, List.replicate 32 miner⟩

/-- A rollback keeps an orphaned block as the last one of a miner. -/
theorem rollback_keeps_lastBlockNumber :
    ∃ (s s' : StatsStore) (rows : ChainStatsRows),
      ChainValid ([blockOf 0 0 7, blockOf 1 1000 7] ++ [blockOf 2 2000 7]) ∧
      liveRun (fun _ => 1) { baseline := some 0 }
        [[blockOf 0 0 7, blockOf 1 1000 7, blockOf 2 2000 7]] = .ok s ∧
      liveRun (fun _ => 1) { baseline := some 0 } [[blockOf 0 0 7, blockOf 1 1000 7]] = .ok s' ∧
      rollbackChainStats (fun _ => 1) s [] (forkPoint [blockOf 0 0 7, blockOf 1 1000 7]) = .ok rows ∧
      rows.miner[minerDay 7]? = some ⟨List.replicate 32 7, 1, 2⟩ ∧
      s'.rows.miner[minerDay 7]? = some ⟨List.replicate 32 7, 1, 1⟩ ∧
      rows.miner ≠ s'.rows.miner := by
  obtain ⟨s, s', rows, hs, hs', hrows, hview⟩ := @exists_rollback _
    [[blockOf 0 0 7, blockOf 1 1000 7, blockOf 2 2000 7]] [[blockOf 0 0 7, blockOf 1 1000 7]]
    (forkPoint [blockOf 0 0 7, blockOf 1 1000 7])
    (fun rows s' => (rows.miner[minerDay 7]?, s'.rows.miner[minerDay 7]?))
    (some ⟨List.replicate 32 7, 1, 2⟩, some ⟨List.replicate 32 7, 1, 1⟩) (by decide +kernel)
  obtain ⟨hrow, hrow'⟩ := Prod.mk.inj hview
  refine ⟨s, s', rows, by decide +kernel, hs, hs', hrows, hrow, hrow', ?_⟩
  intro heq
  rw [heq, hrow'] at hrow
  exact absurd hrow (by decide)

/-- Where each miner's blocks of the cut day are on one side, the rows come back. -/
theorem rollback_miners_iff_two_miners :
    ∃ (s s' : StatsStore) (rows : ChainStatsRows),
      liveRun (fun _ => 1) { baseline := some 0 }
        [[blockOf 0 0 7, blockOf 1 1000 7, blockOf 2 2000 8]] = .ok s ∧
      liveRun (fun _ => 1) { baseline := some 0 } [[blockOf 0 0 7, blockOf 1 1000 7]] = .ok s' ∧
      rollbackChainStats (fun _ => 1) s [] (forkPoint [blockOf 0 0 7, blockOf 1 1000 7]) = .ok rows ∧
      s'.rows.miner[minerDay 7]? = some ⟨List.replicate 32 7, 1, 1⟩ ∧
      rows.dailyBlock = s'.rows.dailyBlock ∧ rows.miner = s'.rows.miner := by
  obtain ⟨s, s', rows, hs, hs', hrows, hview⟩ := @exists_rollback _
    [[blockOf 0 0 7, blockOf 1 1000 7, blockOf 2 2000 8]] [[blockOf 0 0 7, blockOf 1 1000 7]]
    (forkPoint [blockOf 0 0 7, blockOf 1 1000 7]) (fun _ s' => s'.rows.miner[minerDay 7]?)
    (some ⟨List.replicate 32 7, 1, 1⟩) (by decide +kernel)
  refine ⟨s, s', rows, hs, hs', hrows, hview, ?_⟩
  have h : Reorg _ _ [blockOf 0 0 7, blockOf 1 1000 7] [blockOf 2 2000 8] s s' rows :=
    ⟨by decide +kernel, by decide, by decide, ⟨_, by decide +kernel, hs⟩,
      ⟨_, by decide +kernel, hs'⟩, [], nil_subperm, hrows⟩
  exact (rollback_miners_iff h).mpr (by decide +kernel)

end Rollback

end Ckbadger.Sync
