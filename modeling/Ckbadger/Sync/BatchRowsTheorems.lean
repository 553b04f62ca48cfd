/-
Ckbadger.Sync.BatchRowsTheorems — what writing a live batch leaves in the rows.

When the rows before a batch are those of the chain so far, the rows after it are those
of the chain with the batch's blocks.
-/
import Ckbadger.Sync.BatchStatsTheorems

namespace Ckbadger.Sync

open Lib Lib.KeyedFold Writer List

open Std (ExtTreeMap ExtTreeMap)

variable {date : Int} {dao : Bytes} {p : Option DailyStats} {bs : List SettledBlock}
variable {baseline : Option Int} {r : DailyStats}

/-! ## Hours, work and histograms -/

theorem checkedAddI128_eq_ok {current delta r : Int} {metric : String}
    (h : checkedAddI128 current delta metric = .ok r) : r = current + delta :=
  (checked_eq_ok.mp h).2

theorem updateHourlyStatistics_some {hour : Int} {es fs : List HourlyEntry} {r : HourlyStats}
    (h : updateHourlyStatistics hour (some (hourlyRow hour es)) fs.sum = .ok r) :
    r = hourlyRow hour (es ++ fs) := by
  obtain ⟨total, htotal, h⟩ := bind_eq_ok.mp h
  rw [← Except.ok.inj h, checkedAddI128_eq_ok htotal]
  unfold hourlyRow
  rw [sum_append]
  rfl

theorem updateDailyBlockStats_some {es fs : List DailyBlockEntry} {r : DailyBlockStats}
    (h : updateDailyBlockStats date (some (dailyBlockRow date es)) fs.sum = .ok r) :
    r = dailyBlockRow date (es ++ fs) := by
  obtain ⟨blocks, hblocks, h⟩ := bind_eq_ok.mp h
  split at h
  · cases h
  · obtain ⟨uncles, huncles, h⟩ := bind_eq_ok.mp h
    rw [← Except.ok.inj h, (checked_eq_ok.mp hblocks).2, (checked_eq_ok.mp huncles).2]
    unfold dailyBlockRow
    rw [sum_append]
    rfl

theorem updateChainTimeHistogram_eq_ok {kind : String} {bucket : Int} {o : Option Int}
    {count r : Int} (h : updateChainTimeHistogram kind bucket o count = .ok r) :
    r = o.getD 0 + count := by
  unfold updateChainTimeHistogram at h
  split at h
  · cases h
  · simp only at h
    split at h
    · cases h
    · exact (checked_eq_ok.mp h).2

theorem tabulates_histogram {kind : String} {l l' : List (Int × Unit)}
    {rows rows' batch : ExtTreeMap Int Int} (hrows : Tabulates bucketRow l rows)
    (hbatch : Tabulates bucketRow l' batch)
    (h : KeyedFold.merge (keep (updateChainTimeHistogram kind)) rows batch = .ok rows') :
    Tabulates bucketRow (l ++ l') rows' := by
  refine hrows.merge hbatch ?_ ?_ h
  · intro k a _ _ ha
    rw [updateChainTimeHistogram_eq_ok ha]
    simp
  · intro k a _ _ ha
    rw [updateChainTimeHistogram_eq_ok ha]
    simp [bucketRow]

/-! ## Miners -/

/-- Miners' rows after a batch whose blocks are later ones. -/
theorem tabulates_minerRow {l l' : List (MinerKey × Int)} {rows rows' : ExtTreeMap MinerKey MinerStats}
    {batch : ExtTreeMap MinerKey (Int × Int)} (hrows : Tabulates minerRow l rows)
    (hbatch : Tabulates (fun _ numbers => minerEntry numbers) l' batch)
    (hlater : ∀ e ∈ l, ∀ e' ∈ l', e.2 ≤ e'.2)
    (h : KeyedFold.merge (keep fun (key : MinerKey) existing entry =>
      .ok (updateMinerStatistics key.miner existing entry)) rows batch = .ok rows') :
    Tabulates minerRow (l ++ l') rows' := by
  refine hrows.merge hbatch ?_ ?_ h
  · intro k a _ _ ha
    exact (Except.ok.inj ha).symm
  · intro k a hpre hpost ha
    rw [← Except.ok.inj ha]
    have hlast : ((group l k).getLast?).getD 0 ≤ ((group l' k).getLast?).getD 0 := by
      rw [getLast?_eq_some_getLast hpre, getLast?_eq_some_getLast hpost]
      exact hlater _ (mem_group.mp (getLast_mem hpre)) _ (mem_group.mp (getLast_mem hpost))
    unfold updateMinerStatistics minerRow minerEntry
    simp only [getLast?_append_of_ne_nil _ hpost]
    rw [max_eq_right hlast]
    simp

/-! ## Days -/

theorem dayKnowledgeSize_eq_ok {ks : Option Int}
    (h : dayKnowledgeSize baseline (some dao) = .ok ks) :
    ks = calculateKnowledgeSize dao (baseline.getD 0) := by
  cases baseline with
  | none => cases h
  | some v => exact (Except.ok.inj h).symm

/-- A day's totals are those of the days before with its own. -/
theorem totals_newDailyStats (before entry : DailyEntry) (ks : Option Int) (blockTime : Int × Int) :
    (newDailyStats entry ks blockTime (totalsOf before)).totals = totalsOf (before + entry) := by
  show (_, _, _, _) = (_, _, _, _)
  simp only [Prod.mk.injEq]
  show before.cellsCreated - before.cellsConsumed + (entry.cellsCreated - entry.cellsConsumed)
      = before.cellsCreated + entry.cellsCreated - (before.cellsConsumed + entry.cellsConsumed) ∧
    before.cellsConsumed + entry.cellsConsumed = before.cellsConsumed + entry.cellsConsumed ∧
    before.cellsCreated + entry.cellsCreated = before.cellsCreated + entry.cellsCreated ∧
    before.dataSizeAdded - before.dataSizeConsumed + entry.dataSizeAdded - entry.dataSizeConsumed
      = before.dataSizeAdded + entry.dataSizeAdded
        - (before.dataSizeConsumed + entry.dataSizeConsumed)
  omega

/-- What a batch adds to a stored day. -/
theorem updateDailyStatistics_some {rows : ExtTreeMap Int DailyStats}
    {first entry : DailyEntry} {ks : Option Int} {prev : DayTotals}
    {time : Int × Int} {blockTime : Option (Int × Int)}
    (hrow : rows[date]? = some (newDailyStats first ks time prev)) (hdao : dao.length = 32)
    (h : updateDailyStatistics baseline rows date entry (some dao) blockTime p = .ok r) :
    r = newDailyStats (first + entry) (calculateKnowledgeSize dao (baseline.getD 0))
      (time + blockTime.getD (0, 0)) prev := by
  simp only [updateDailyStatistics] at h
  rw [hrow] at h
  simp only [bind_eq_ok] at h
  obtain ⟨transferred, htransferred, created, hcreated, consumed, hconsumed, ks', hks, h⟩ := h
  rw [← Except.ok.inj h, checkedAddI128_eq_ok htransferred, checkedAddI128_eq_ok hcreated,
    checkedAddI128_eq_ok hconsumed, dayKnowledgeSize_eq_ok hks]
  rw [calculateKnowledgeSize, if_pos hdao.ge]
  simp only [newDailyStats, Option.some_or, DailyStats.mk.injEq]
  refine ⟨rfl, rfl, rfl, rfl, rfl, rfl, rfl, ?_, ?_, ?_, ?_, trivial, rfl, rfl⟩
  · show prev.1 + (first.cellsCreated - first.cellsConsumed)
        + (entry.cellsCreated - entry.cellsConsumed)
      = prev.1 + (first.cellsCreated + entry.cellsCreated
        - (first.cellsConsumed + entry.cellsConsumed))
    omega
  · exact add_assoc _ _ _
  · exact add_assoc _ _ _
  · show prev.2.2.2 + first.dataSizeAdded - first.dataSizeConsumed
        + (entry.dataSizeAdded - entry.dataSizeConsumed)
      = prev.2.2.2 + (first.dataSizeAdded + entry.dataSizeAdded)
        - (first.dataSizeConsumed + entry.dataSizeConsumed)
    omega

/-- What a batch makes of a day with no row. -/
theorem updateDailyStatistics_none {rows : ExtTreeMap Int DailyStats}
    {entry : DailyEntry} {blockTime : Option (Int × Int)} (hrow : rows[date]? = none)
    (h : updateDailyStatistics baseline rows date entry (some dao) blockTime p = .ok r) :
    ∃ prev, carriedTotals rows date p = .ok prev ∧
      r = newDailyStats entry (calculateKnowledgeSize dao (baseline.getD 0))
        (blockTime.getD (0, 0)) prev := by
  simp only [updateDailyStatistics] at h
  rw [hrow] at h
  obtain ⟨ks', hks, h⟩ := bind_eq_ok.mp h
  obtain ⟨prev, hprev, h⟩ := bind_eq_ok.mp h
  rw [dayKnowledgeSize_eq_ok hks] at h
  exact ⟨prev, hprev, (Except.ok.inj h).symm⟩

/-! ## Shares by day -/

theorem sharesBefore_append (l l' : List (Int × DailyEntry)) (date : Int) :
    sharesBefore (l ++ l') date = sharesBefore l date + sharesBefore l' date := by
  unfold sharesBefore
  rw [filter_append, map_append, sum_append]

theorem sharesBefore_eq_zero {l : List (Int × DailyEntry)}
    (h : ∀ e ∈ l, date ≤ e.1) : sharesBefore l date = 0 := by
  unfold sharesBefore
  rw [filter_eq_nil_iff.mpr]
  · rfl
  · intro e he
    have := h e he
    simp only [decide_eq_true_eq]
    omega

/-- From one day to the next day that has shares. -/
theorem sharesBefore_next {l : List (Int × DailyEntry)} {next : Int} (hlt : date < next)
    (h : ∀ e ∈ l, e.1 < next → e.1 ≤ date) :
    sharesBefore l next = sharesBefore l date + (group l date).sum := by
  induction l with
  | nil => rfl
  | cons e l ih =>
    have hrest := ih (forall_mem_cons.mp h).2
    have hhead := h e mem_cons_self
    rw [show e :: l = [e] ++ l from rfl, sharesBefore_append, sharesBefore_append, hrest,
      group_append, sum_append]
    have hone : sharesBefore [e] next = sharesBefore [e] date + (group [e] date).sum := by
      unfold sharesBefore
      rw [group_cons]
      rcases lt_trichotomy e.1 date with hcmp | hcmp | hcmp
      · simp [hcmp, (hcmp.trans hlt), hcmp.ne]
      · simp [hcmp, hlt]
      · have hge : ¬ e.1 < next := by
          intro hlt'
          exact absurd (hhead hlt') (by omega)
        have hge' : ¬ e.1 < date := by omega
        simp [hge, hge', hcmp.ne']
    rw [hone, add_add_add_comm]

theorem group_intervalShares_eq_nil {previous : Option Int} (h : group (dayShares bs) date = []) :
    group (intervalShares previous bs) date = [] := by
  refine group_eq_nil ?_
  intro e he hdate
  obtain ⟨i, hi, rfl⟩ := mem_map.mp he
  have hmem : i.1 ∈ bs := by
    clear he hdate h
    induction bs generalizing previous with
    | nil => cases hi
    | cons b bs ih =>
      rcases mem_append.mp hi with hfirst | hrest
      · obtain ⟨prior, -, rfl⟩ := mem_map.mp hfirst
        exact mem_cons_self
      · exact mem_cons_of_mem _ (ih hrest)
  have hshare : (i.1.day, i.1.dailyEntry) ∈ dayShares bs := mem_map_of_mem hmem
  have hne := group_ne_nil hshare
  rw [show i.1.day = date from hdate] at hne
  exact hne h

theorem group_dayShares_eq_nil : group (dayShares bs) date = [] ↔ ∀ b ∈ bs, b.day ≠ date :=
  group_map_eq_nil

theorem exists_block_of_day (h : group (dayShares bs) date ≠ []) : ∃ b ∈ bs, b.day = date := by
  by_contra hnone
  refine h (group_dayShares_eq_nil.mpr ?_)
  intro b hb hday
  exact hnone ⟨b, hb, hday⟩

/-- The DAO fields of a day are those of its blocks. -/
theorem group_daoShares_eq_nil :
    group (daoShares bs) date = [] ↔ group (dayShares bs) date = [] := by
  unfold daoShares dayShares
  rw [group_map, group_map]
  simp

/-! ## Writing the days of a batch -/

section Days

variable {baseline : Option Int} {xs ys : List SettledBlock} {rows : ExtTreeMap Int DailyStats}
variable {st : StatsLoop}

/-- The blocks of a batch are not on earlier days than those before it. -/
def DaysFollow (xs ys : List SettledBlock) : Prop := ∀ a ∈ xs, ∀ b ∈ ys, a.day ≤ b.day

theorem DaysFollow.sharesBefore_left (h : DaysFollow xs ys) {a : SettledBlock}
    (ha : a ∈ xs) (hday : a.day = date) : sharesBefore (dayShares ys) date = 0 := by
  refine sharesBefore_eq_zero ?_
  intro e he
  obtain ⟨b, hb, rfl⟩ := mem_map.mp he
  exact hday ▸ h a ha b hb

/-- The interval shares of a day, over a chain cut in two. -/
theorem dayBlockTime_append (date : Int) :
    dayBlockTime none (xs ++ ys) date
      = dayBlockTime none xs date + dayBlockTime (lastChainTime none xs) ys date := by
  unfold dayBlockTime
  rw [intervalShares_append, group_append]
  simp

theorem dayBlockTime_eq_zero {previous : Option Int}
    (h : group (dayShares ys) date = []) : dayBlockTime previous ys date = (0, 0) := by
  unfold dayBlockTime
  rw [group_intervalShares_eq_nil h]
  rfl

/-- The DAO field of a day that a batch reaches. -/
theorem dayDao_append (h : group (dayShares ys) date ≠ []) :
    dayDao (xs ++ ys) date = dayDao ys date := by
  unfold dayDao
  rw [daoShares_append, group_append, getLast?_append_of_ne_nil]
  rw [Ne, group_daoShares_eq_nil]
  exact h

/-- A day the batch does not reach keeps its row. -/
theorem dailyRow_append_left {v : Int} (hfollow : DaysFollow xs ys)
    (hpre : group (dayShares xs) date ≠ []) (hpost : group (dayShares ys) date = []) :
    dailyRow v (xs ++ ys) date = dailyRow v xs date := by
  obtain ⟨a, ha, hday⟩ := exists_block_of_day hpre
  unfold dailyRow
  rw [dayBlockTime_append, dayBlockTime_eq_zero hpost, dayShares_append, group_append, hpost,
    append_nil, sharesBefore_append, hfollow.sharesBefore_left ha hday, add_zero]
  unfold dayDao
  rw [daoShares_append, group_append, group_daoShares_eq_nil.mpr hpost, append_nil]
  congr 1
  exact add_zero (dayBlockTime none xs date)

/-- The batch's maps, as they are read when a day is written. -/
structure DayMaps (ys : List SettledBlock) (previous : Option Int) (stats : BatchStats) : Prop where
  daily : Tabulates (fun _ es => es.sum) (dayShares ys) stats.dailyStats
  dao : Tabulates (fun _ daos => daos.getLast?.getD []) (daoShares ys) stats.dailyDaoFields
  blockTime : Tabulates (fun _ deltas => (deltas.sum, (deltas.length : Int)))
    (intervalShares previous ys) stats.dailyBlockTimes

variable {stats : BatchStats}

theorem DayMaps.getD_blockTime (h : DayMaps ys (lastChainTime none xs) stats) (date : Int) :
    stats.dailyBlockTimes[date]?.getD (0, 0) = dayBlockTime (lastChainTime none xs) ys date := by
  rw [h.blockTime date]
  unfold tabulated dayBlockTime
  split
  · rename_i hnil
    rw [hnil]
    rfl
  · rfl

/-- The totals a new day starts from are the shares of the days before it. -/
theorem carriedTotals_eq_ok {v : Int} {prev : DayTotals}
    (htable : DailyTable v xs rows) (hrow : rows[date]? = none) (hpre : ∀ a ∈ xs, a.day ≤ date)
    (hp : ∀ row ∈ p, row.totals = totalsOf (sharesBefore (dayShares (xs ++ ys)) date))
    (hfirst : p = none → ∀ b ∈ ys, date ≤ b.day) (h : carriedTotals rows date p = .ok prev) :
    prev = totalsOf (sharesBefore (dayShares (xs ++ ys)) date) := by
  have hbefore : ∀ e ∈ dayShares xs, e.1 < date := by
    intro e he
    obtain ⟨a, ha, rfl⟩ := mem_map.mp he
    have hne : group (dayShares xs) date = [] := by
      have hdate := htable date
      rw [hrow] at hdate
      by_contra hne
      rw [if_neg hne] at hdate
      cases hdate
    exact lt_of_le_of_ne (hpre a ha) (group_dayShares_eq_nil.mp hne a ha)
  unfold carriedTotals at h
  cases p with
  | some row =>
    rw [← Except.ok.inj h]
    exact hp row rfl
  | none =>
    have hpost : sharesBefore (dayShares ys) date = 0 := by
      refine sharesBefore_eq_zero ?_
      intro e he
      obtain ⟨b, hb, rfl⟩ := mem_map.mp he
      exact hfirst rfl b hb
    rw [dayShares_append, sharesBefore_append, hpost, add_zero]
    cases hprev : rows[date - 1]? with
    | some row =>
      rw [hprev] at h
      rw [← Except.ok.inj h]
      have hyesterday := htable (date - 1)
      rw [hprev] at hyesterday
      split at hyesterday
      · cases hyesterday
      · rw [Option.some.inj hyesterday, sharesBefore_next (by omega : date - 1 < date)]
        · exact totals_newDailyStats _ _ _ _
        · intro e _ hlt
          omega
    | none =>
      rw [hprev] at h
      cases hlast : (rows.toList.filter fun row => row.1 ≤ date).getLast? with
      | some found => rw [hlast] at h; cases h
      | none =>
        rw [hlast] at h
        rw [← Except.ok.inj h]
        -- no row up to the day means no block before it
        have hempty : dayShares xs = [] := by
          rw [eq_nil_iff_forall_not_mem]
          intro e he
          have hne := group_ne_nil he
          have hrow' := htable e.1
          rw [if_neg hne] at hrow'
          have hmem : (e.1, dailyRow v xs e.1) ∈ rows.toList.filter fun row => row.1 ≤ date := by
            rw [mem_filter, ExtTreeMap.mem_toList_iff_getElem?_eq_some]
            refine ⟨hrow', ?_⟩
            simp only [decide_eq_true_eq]
            exact (hbefore e he).le
          rw [getLast?_eq_none_iff.mp hlast] at hmem
          cases hmem
        rw [hempty]
        rfl

theorem le_getLast_of_sorted {days : List (Int × DailyEntry)} {last : Int × DailyEntry}
    (hsorted : days.Pairwise fun d d' => d.1 < d'.1) (hlast : days.getLast? = some last)
    {d : Int × DailyEntry} (hd : d ∈ days) : d.1 ≤ last.1 := by
  obtain ⟨init, rfl⟩ := getLast?_eq_some_iff.mp hlast
  rcases mem_append.mp hd with hinit | hone
  · exact ((pairwise_append.mp hsorted).2.2 d hinit last mem_cons_self).le
  · rw [mem_singleton.mp hone]

section Days

variable (htable : DailyTable (baseline.getD 0) xs rows)
  (hmaps : DayMaps ys (lastChainTime none xs) stats) (hfollow : DaysFollow xs ys)
  (hdao : ∀ b ∈ ys, b.block.dao.length = 32)

include htable hmaps hfollow hdao

theorem updateDailyStatistics_eq_ok (hday : group (dayShares ys) date ≠ [])
    (hp : ∀ row ∈ p, row.totals = totalsOf (sharesBefore (dayShares (xs ++ ys)) date))
    (hfirst : p = none → ∀ b ∈ ys, date ≤ b.day)
    (h : updateDailyStatistics baseline rows date (group (dayShares ys) date).sum
      stats.dailyDaoFields[date]? stats.dailyBlockTimes[date]? p = .ok r) :
    r = dailyRow (baseline.getD 0) (xs ++ ys) date := by
  obtain ⟨b, hb, hbday⟩ := exists_block_of_day hday
  have hpre : ∀ a ∈ xs, a.day ≤ date := fun a ha => hbday ▸ hfollow a ha b hb
  rw [hmaps.dao date, tabulated_of_ne (by rwa [Ne, group_daoShares_eq_nil])] at h
  have hgroup : group (dayShares (xs ++ ys)) date
      = group (dayShares xs) date ++ group (dayShares ys) date := by
    rw [dayShares_append, group_append]
  unfold dailyRow
  rw [hgroup, sum_append, dayDao_append hday, dayBlockTime_append, ← hmaps.getD_blockTime]
  by_cases hstored : group (dayShares xs) date = []
  · have hrow : rows[date]? = none := by rw [htable date, if_pos hstored]
    obtain ⟨prev, hprev, rfl⟩ := updateDailyStatistics_none hrow h
    rw [carriedTotals_eq_ok htable hrow hpre hp hfirst hprev, hstored, sum_nil, zero_add,
      dayBlockTime_eq_zero hstored]
    congr 1
    exact (zero_add _).symm
  · have hrow : rows[date]? = some (dailyRow (baseline.getD 0) xs date) := by
      rw [htable date, if_neg hstored]
    have hdaylength : (dayDao ys date).length = 32 := by
      have hne : group (daoShares ys) date ≠ [] := by rwa [Ne, group_daoShares_eq_nil]
      unfold dayDao
      rw [getLast?_eq_some_getLast hne]
      obtain ⟨b', hb', heq⟩ := mem_map.mp (mem_group.mp (getLast_mem hne))
      have hfield : b'.block.dao = (group (daoShares ys) date).getLast hne :=
        congrArg Prod.snd heq
      rw [← hfield]
      exact hdao b' hb'
    obtain ⟨a, ha, haday⟩ := exists_block_of_day hstored
    rw [updateDailyStatistics_some hrow hdaylength h, dayShares_append, sharesBefore_append,
      hfollow.sharesBefore_left ha haday, add_zero]

/-- The days written so far have their rows and the others keep theirs; the last row written is
that of the last day. -/
theorem writeDays_eq_ok {days : List (Int × DailyEntry)}
    {st : ExtTreeMap Int DailyStats × Option DailyStats}
    (hsorted : days.Pairwise fun d d' => d.1 < d'.1)
    (hdays : ∀ d ∈ days, group (dayShares ys) d.1 ≠ [] ∧ d.2 = (group (dayShares ys) d.1).sum)
    (hinitial : ∀ b ∈ ys, ∀ d ∈ days, b.day < d.1 → b.day ∈ days.map Prod.fst)
    (h : days.foldlM (writeDay baseline rows stats) (rows, none) = .ok st) :
    (∀ date, st.1[date]? =
      if date ∈ days.map Prod.fst then some (dailyRow (baseline.getD 0) (xs ++ ys) date)
      else rows[date]?) ∧
    st.2 = days.getLast?.map fun d => dailyRow (baseline.getD 0) (xs ++ ys) d.1 := by
  induction days using List.reverseRecOn generalizing st with
  | nil =>
    cases h
    exact ⟨fun date => by simp, rfl⟩
  | append_singleton days d ih =>
    obtain ⟨u, hu, hu'⟩ := foldlM_concat_eq_ok.mp h
    obtain ⟨row, hrow, hst⟩ := bind_eq_ok.mp hu'
    obtain rfl := Except.ok.inj hst
    rw [pairwise_append] at hsorted
    obtain ⟨hsorted, -, hbelow⟩ := hsorted
    have hlater : ∀ d' ∈ days, d'.1 < d.1 := fun d' hd' => hbelow d' hd' d mem_cons_self
    obtain ⟨hday, hentry⟩ := hdays d (by simp)
    obtain ⟨hrows, hprev⟩ := ih hsorted (forall_mem_append.mp hdays).1
      (by
        intro b hb d' hd' hlt
        have hmem := hinitial b hb d' (mem_append_left _ hd') hlt
        rw [map_append, mem_append] at hmem
        rcases hmem with hmem | hmem
        · exact hmem
        · have heq : b.day = d.1 := by simpa using hmem
          have := hlater d' hd'
          omega) hu
    -- the shares before this day are those up to the last day written
    have hcarry : ∀ row' ∈ u.2, row'.totals
        = totalsOf (sharesBefore (dayShares (xs ++ ys)) d.1) := by
      intro row' hrow'
      rw [hprev] at hrow'
      obtain ⟨d', hd', rfl⟩ := Option.map_eq_some_iff.mp hrow'
      have hmem' : d' ∈ days := mem_of_getLast? hd'
      rw [sharesBefore_next (hlater d' hmem')]
      · exact totals_newDailyStats _ _ _ _
      · intro e he hlt
        obtain ⟨b, hb, rfl⟩ := mem_map.mp he
        rcases mem_append.mp hb with hb | hb
        · have hd'day := (hdays d' (mem_append_left _ hmem')).1
          obtain ⟨b', hb', hday'⟩ := exists_block_of_day hd'day
          exact hday' ▸ hfollow b hb b' hb'
        · have hmem := hinitial b hb d (by simp) hlt
          rw [map_append, mem_append] at hmem
          rcases hmem with hmem | hmem
          · obtain ⟨d'', hd'', heq⟩ := mem_map.mp hmem
            have hle := le_getLast_of_sorted hsorted hd' hd''
            exact heq ▸ hle
          · have heq : b.day = d.1 := by simpa using hmem
            exact absurd hlt (by simp [heq])
    have hfirst : u.2 = none → ∀ b ∈ ys, d.1 ≤ b.day := by
      intro hnone b hb
      rw [hprev, Option.map_eq_none_iff, getLast?_eq_none_iff] at hnone
      subst hnone
      by_contra hlt
      have hmem := hinitial b hb d (by simp) (by omega)
      have heq : b.day = d.1 := by simpa using hmem
      omega
    rw [hentry] at hrow
    obtain rfl := updateDailyStatistics_eq_ok htable hmaps hfollow hdao hday hcarry hfirst hrow
    constructor
    · intro date
      rw [ExtTreeMap.getElem?_insert, hrows date]
      by_cases hdate : d.1 = date
      · subst hdate
        simp
      · have hmem : date ∈ (days ++ [d]).map Prod.fst ↔ date ∈ days.map Prod.fst := by
          simp [Ne.symm hdate]
        simp only [hmem, compare_eq_iff_eq, hdate, if_false]
    · rw [getLast?_concat]
      rfl

theorem DailyTable.write {rows' : ExtTreeMap Int DailyStats}
    (h : writeDailyStats baseline rows stats = .ok rows') :
    DailyTable (baseline.getD 0) (xs ++ ys) rows' := by
  obtain ⟨st, hst, hrows'⟩ := bind_eq_ok.mp h
  obtain rfl := Except.ok.inj hrows'
  have hkeys : ∀ date, date ∈ stats.dailyStats.toList.map Prod.fst
      ↔ group (dayShares ys) date ≠ [] := by
    intro date
    have hget := hmaps.daily date
    constructor
    · intro hmem hnil
      obtain ⟨d, hd, rfl⟩ := mem_map.mp hmem
      rw [ExtTreeMap.mem_toList_iff_getElem?_eq_some, hget, tabulated_of_nil hnil] at hd
      cases hd
    · intro hne
      rw [tabulated_of_ne hne] at hget
      exact mem_map.mpr ⟨_, ExtTreeMap.mem_toList_iff_getElem?_eq_some.mpr hget, rfl⟩
  have hsorted : stats.dailyStats.toList.Pairwise fun d d' => d.1 < d'.1 :=
    stats.dailyStats.ordered_keys_toList.imp fun hlt => compare_lt_iff_lt.mp hlt
  obtain ⟨hrows, -⟩ := writeDays_eq_ok htable hmaps hfollow hdao hsorted
    (by
      intro d hd
      have hne := (hkeys d.1).mp (mem_map_of_mem hd)
      refine ⟨hne, ?_⟩
      rw [ExtTreeMap.mem_toList_iff_getElem?_eq_some, hmaps.daily d.1, tabulated_of_ne hne] at hd
      exact (Option.some.inj hd).symm)
    (by
      intro b hb d _ _
      rw [hkeys]
      exact group_ne_nil (e := (b.day, b.dailyEntry)) (mem_map_of_mem hb)) hst
  intro date
  rw [hrows date]
  by_cases hpost : group (dayShares ys) date = []
  · rw [if_neg (fun hmem => (hkeys date).mp hmem hpost), htable date, dayShares_append,
      group_append, hpost, append_nil]
    by_cases hpre : group (dayShares xs) date = []
    · rw [if_pos hpre, if_pos hpre]
    · rw [if_neg hpre, if_neg hpre, dailyRow_append_left hfollow hpre hpost]
  · rw [if_pos ((hkeys date).mpr hpost)]
    rw [dayShares_append]
    simp [hpost]

end Days

end Days

end Ckbadger.Sync
