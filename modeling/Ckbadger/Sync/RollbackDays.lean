/-
Ckbadger.Sync.RollbackDays — the hourly and the daily rows after a rollback, against
those of the chain that stops at the fork point.

The hours come out exact, up to a row without counts. The repair of a day that the fork
cuts leaves its knowledge size as it was, and takes its running totals from the calendar
day before, which need not have a row.
-/
import Ckbadger.Sync.RollbackRows

namespace Ckbadger.Sync

open Lib Lib.KeyedFold Common Writer Std DailyStats

section Rollback

variable {difficulty : Nat → Nat} {baseline : Option Int} {pre post : List ParsedBlock}
variable {s : StatsStore} {rows : ChainStatsRows}
variable (r : RolledBack difficulty pre post s rows)
variable {v : Int}

/-! ## Hours -/

theorem repairHourly_eq_ok {xs ys : List SettledBlock} {cutoff hour : Int}
    {deltas : RollbackStatsDeltas} (hdeltas : OrphanDeltas difficulty xs ys cutoff hour deltas)
    {o : Option HourlyStats}
    (h : repairHourly deltas hour hour (hourlyRow hour (group (hourShares (xs ++ ys)) hour))
      = .ok o) :
    o = some (hourlyRow hour (group (hourShares xs) hour)) := by
  unfold repairHourly at h
  rw [if_neg (by simp), hdeltas.hour] at h
  obtain ⟨blocks, hblocks, h⟩ := bind_eq_ok.mp h
  obtain ⟨txs, htxs, h⟩ := bind_eq_ok.mp h
  obtain ⟨created, hcreated, h⟩ := bind_eq_ok.mp h
  obtain ⟨consumed, hconsumed, h⟩ := bind_eq_ok.mp h
  obtain ⟨capacity, hcapacity, h⟩ := bind_eq_ok.mp h
  obtain rfl := Except.ok.inj h
  rw [checkedStatsSub_eq_ok hblocks, checkedStatsSub_eq_ok htxs, checkedStatsSub_eq_ok hcreated,
    checkedStatsSub_eq_ok hconsumed, checkedStatsSub_eq_ok hcapacity, hdeltas.hourCapacity,
    hourShares_append]
  unfold hourlyRow
  simp

/-- Hourly rows after a rollback: where the cutoff hour has no surviving block but the day is cut,
a row without counts is left. -/
theorem RolledBack.getElem?_hourly
    (hrows : Tabulates hourlyRow (hourShares (settle (pre ++ post))) s.rows.hourly) (hour : Int) :
    rows.hourly[hour]? =
      if hour = r.first.hour ∧ r.last.day = r.first.day then
        some (hourlyRow hour (group (hourShares (settle pre)) hour))
      else tabulated hourlyRow (hourShares (settle pre)) hour := by
  rw [settle_append, hourShares_append] at hrows
  by_cases hcut : hour = r.first.hour ∧ r.last.day = r.first.day
  · rw [if_pos hcut]
    obtain ⟨rfl, hday⟩ := hcut
    have hfirst : group (hourShares (settleAfter pre post)) r.first.hour ≠ [] :=
      group_map_ne_nil r.first_mem_settleAfter
    have hrow := hrows r.first.hour
    rw [tabulated_of_ne (by simp [hfirst]), ← hourShares_append] at hrow
    exact repairHourly_eq_ok r.orphaned (r.repaired r.hourly hrow rfl hday)
  · rw [if_neg hcut]
    refine r.getElem?_swept r.hourly hourOf_le dayOf_eq_of_hourOf_eq (fun hne _ => if_pos hne)
      (fun hnone => ?_) (fun hnone => tabulated_of_nil (group_map_eq_nil.mpr hnone)) hcut
    rw [hrows hour]
    exact tabulated_append_left (group_map_eq_nil.mpr hnone)

/-- A row whose counters are all zero is read as no row. -/
def readHourly (row : Option HourlyStats) : Option HourlyStats :=
  row.filter fun s => ¬ (s.blocksCount = 0 ∧ s.transactionsCount = 0 ∧ s.cellsCreated = 0 ∧
    s.cellsConsumed = 0 ∧ s.capacityTransferred = 0)

/-- The hours roll back exactly. -/
theorem RolledBack.readHourly_eq (r : RolledBack difficulty pre post s rows)
    (hrows : Tabulates hourlyRow (hourShares (settle (pre ++ post))) s.rows.hourly) (hour : Int) :
    readHourly rows.hourly[hour]?
      = readHourly (tabulated hourlyRow (hourShares (settle pre)) hour) := by
  rw [r.getElem?_hourly hrows]
  split
  · by_cases hnone : group (hourShares (settle pre)) hour = []
    · rw [tabulated_of_nil hnone, hnone]
      rfl
    · rw [tabulated_of_ne hnone]
  · rfl

/-! ## Days -/

/-- The totals that the repair of a day starts from: those of the calendar day before, or none. -/
def repairTotals (rows : ExtTreeMap Int DailyStats) (date : Int) : DayTotals :=
  (rows[date - 1]?.map totals).getD (0, 0, 0, 0)

/-- The row of a cut day after its repair: its counters are those of the surviving blocks, its
knowledge size is still that of the last orphaned block. -/
def repairedDay (v : Int) (rows : ExtTreeMap Int DailyStats) (xs ys : List SettledBlock)
    (date : Int) : DailyStats :=
  newDailyStats (group (dayShares xs) date).sum (calculateKnowledgeSize (dayDao ys date) v)
    (dayBlockTime none xs date)
    ((repairTotals rows date).1, (repairTotals rows date).2.1, (repairTotals rows date).2.2.1,
      (totalsOf (sharesBefore (dayShares xs) date)).2.2.2)

theorem repairDaily_eq_ok {xs ys : List SettledBlock} {date hour : Int}
    {deltas : RollbackStatsDeltas} {rows : ExtTreeMap Int DailyStats}
    (hdeltas : OrphanDeltas difficulty xs ys date hour deltas)
    (hday : group (dayShares ys) date ≠ []) (hbefore : sharesBefore (dayShares ys) date = 0)
    {o : Option DailyStats}
    (h : repairDaily rows deltas date date (dailyRow v (xs ++ ys) date) = .ok o) :
    o = some (repairedDay v rows xs ys date) := by
  unfold repairDaily at h
  rw [if_neg (by simp), hdeltas.date, hdeltas.dateCapacity, hdeltas.blockTime] at h
  obtain ⟨sum, hsum, h⟩ := bind_eq_ok.mp h
  obtain ⟨count, hcount, h⟩ := bind_eq_ok.mp h
  obtain rfl := Except.ok.inj h
  rw [checkedStatsSub_eq_ok hsum, checkedStatsSub_eq_ok hcount]
  have hrow : dailyRow v (xs ++ ys) date
      = newDailyStats ((group (dayShares xs) date).sum + (group (dayShares ys) date).sum)
          (calculateKnowledgeSize (dayDao ys date) v)
          (dayBlockTime none xs date + dayBlockTime (lastChainTime none xs) ys date)
          (totalsOf (sharesBefore (dayShares xs) date)) := by
    unfold dailyRow
    rw [dayShares_append, group_append, List.sum_append, dayDao_append hday, dayBlockTime_append,
      sharesBefore_append, hbefore, add_zero]
  rw [hrow]
  unfold repairedDay repairTotals
  generalize (group (dayShares xs) date).sum = a
  generalize (group (dayShares ys) date).sum = b
  generalize totalsOf (sharesBefore (dayShares xs) date) = p
  have hadd : ∀ f : DailyEntry → Int, f (a + b) = f a + f b → f (a + b) - f b = f a := by
    intro f hf
    rw [hf]
    exact add_sub_cancel_right _ _
  unfold newDailyStats
  simp only [Option.some.injEq, mk.injEq, hadd DailyEntry.blocks rfl,
    hadd DailyEntry.txs rfl, hadd DailyEntry.cellsCreated rfl, hadd DailyEntry.cellsConsumed rfl,
    hadd DailyEntry.capacityTransferred rfl, hadd DailyEntry.usedCapacityCreated rfl,
    hadd DailyEntry.usedCapacityConsumed rfl, true_and]
  refine ⟨rfl, rfl, rfl, ?_, add_sub_cancel_right _ _, add_sub_cancel_right _ _⟩
  show p.2.2.2 + (a.dataSizeAdded + b.dataSizeAdded) - (a.dataSizeConsumed + b.dataSizeConsumed)
    - (b.dataSizeAdded - b.dataSizeConsumed) = _
  omega

theorem RolledBack.group_dayShares_later {date : Int}
    (hlt : date < r.first.day) : group (dayShares (settleAfter pre post)) date = [] := by
  refine group_dayShares_eq_nil.mpr ?_
  intro b hb
  have hle : r.first.day ≤ b.day := dayOf_le (r.chainTime_post hb)
  omega

theorem RolledBack.sharesBefore_post :
    sharesBefore (dayShares (settleAfter pre post)) r.first.day = 0 := by
  refine sharesBefore_eq_zero ?_
  intro e he
  obtain ⟨b, hb, rfl⟩ := List.mem_map.mp he
  exact dayOf_le (r.chainTime_post hb)

/-- Daily rows after a rollback: only that of a cut day is repaired. -/
theorem RolledBack.getElem?_daily
    (hrows : DailyTable v (settle (pre ++ post)) s.rows.daily) (date : Int) :
    rows.daily[date]? =
      if date = r.first.day ∧ r.last.day = r.first.day then
        some (repairedDay v s.rows.daily (settle pre) (settleAfter pre post) date)
      else if group (dayShares (settle pre)) date = [] then none
      else some (dailyRow v (settle pre) date) := by
  have hrow := hrows date
  rw [settle_append] at hrow
  by_cases hcut : date = r.first.day ∧ r.last.day = r.first.day
  · rw [if_pos hcut]
    obtain ⟨rfl, hday⟩ := hcut
    have hfirst : group (dayShares (settleAfter pre post)) r.first.day ≠ [] :=
      group_map_ne_nil r.first_mem_settleAfter
    rw [if_neg (by rw [dayShares_append]; simp [hfirst])] at hrow
    exact repairDaily_eq_ok r.orphaned hfirst r.sharesBefore_post (r.repaired r.daily hrow rfl hday)
  · rw [if_neg hcut]
    refine r.getElem?_swept r.daily dayOf_le (fun hsame => hsame) (fun hne _ => if_pos hne)
      (fun hnone => ?_) (fun hnone => if_pos (group_dayShares_eq_nil.mpr hnone)) hcut
    have hpost := group_dayShares_eq_nil.mpr hnone
    rw [hrow, dayShares_append, group_append, hpost, List.append_nil]
    split
    · rfl
    · rename_i hpre
      rw [dailyRow_append_left (daysFollow_settle pre post) hpre hpost]

/-- The repair of a cut day finds the true totals when the calendar day before has a block. -/
theorem RolledBack.repairTotals_eq (hrows : DailyTable v (settle (pre ++ post)) s.rows.daily) :
    repairTotals s.rows.daily r.first.day =
      if group (dayShares (settle pre)) (r.first.day - 1) = [] then (0, 0, 0, 0)
      else totalsOf (sharesBefore (dayShares (settle pre)) r.first.day) := by
  have hrow := hrows (r.first.day - 1)
  have hpost := r.group_dayShares_later (show r.first.day - 1 < r.first.day by omega)
  rw [settle_append, dayShares_append, group_append, hpost, List.append_nil] at hrow
  unfold repairTotals
  rw [hrow]
  by_cases hpre : group (dayShares (settle pre)) (r.first.day - 1) = []
  · rw [if_pos hpre, if_pos hpre]
    rfl
  · rw [if_neg hpre, if_neg hpre, dailyRow_append_left (daysFollow_settle pre post) hpre hpost,
      sharesBefore_next (show r.first.day - 1 < r.first.day by omega) (by intros; omega)]
    exact totals_newDailyStats _ _ _ _

theorem newDailyStats_inj {e : DailyEntry} {k k' : Option Int} {t : Int × Int} {p p' : DayTotals} :
    newDailyStats e k t p = newDailyStats e k' t p' ↔ k = k' ∧ p = p' := by
  obtain ⟨live, dead, all, data⟩ := p
  obtain ⟨live', dead', all', data'⟩ := p'
  unfold newDailyStats
  simp only [mk.injEq, Prod.mk.injEq, true_and, and_true]
  constructor
  · intro h
    obtain ⟨hlive, hdead, hall, hdata, hk⟩ := h
    exact ⟨hk, by omega, by omega, by omega, by omega⟩
  · intro h
    obtain ⟨rfl, rfl, rfl, rfl, rfl⟩ := h
    exact ⟨rfl, rfl, rfl, rfl, rfl⟩

/-- The running totals of a day can be found again from the row of the calendar day before: it has
a block, or there was nothing to carry. -/
def totalsCarried (xs : List SettledBlock) (date : Int) : Prop :=
  (∃ b ∈ xs, b.day = date - 1) ∨
    ((sharesBefore (dayShares xs) date).cellsCreated = 0 ∧
      (sharesBefore (dayShares xs) date).cellsConsumed = 0)

instance (xs : List SettledBlock) (date : Int) : Decidable (totalsCarried xs date) :=
  inferInstanceAs (Decidable (_ ∨ _))

theorem RolledBack.repairedDay_eq_iff (hrows : DailyTable v (settle (pre ++ post)) s.rows.daily) :
    repairedDay v s.rows.daily (settle pre) (settleAfter pre post) r.first.day
        = dailyRow v (settle pre) r.first.day ↔
      calculateKnowledgeSize (dayDao (settleAfter pre post) r.first.day) v
          = calculateKnowledgeSize (dayDao (settle pre) r.first.day) v ∧
        totalsCarried (settle pre) r.first.day := by
  unfold repairedDay dailyRow
  rw [newDailyStats_inj, r.repairTotals_eq hrows]
  refine and_congr_right fun _ => ?_
  unfold totalsCarried
  by_cases hday : group (dayShares (settle pre)) (r.first.day - 1) = []
  · have hnone : ¬ ∃ b ∈ settle pre, b.day = r.first.day - 1 := by
      intro hsome
      obtain ⟨b, hb, hbday⟩ := hsome
      exact group_dayShares_eq_nil.mp hday b hb hbday
    rw [if_pos hday, or_iff_right hnone]
    unfold totalsOf
    simp only [Prod.mk.injEq, and_true]
    constructor
    · intro h
      omega
    · intro h
      omega
  · rw [if_neg hday]
    simp [exists_block_of_day hday]

/-- The days roll back exactly when the repair of a cut day, if there is one, finds its knowledge
size and its totals. -/
theorem RolledBack.dailyTable_iff (hrows : DailyTable v (settle (pre ++ post)) s.rows.daily) :
    DailyTable v (settle pre) rows.daily ↔
      (r.last.day = r.first.day →
        calculateKnowledgeSize (dayDao (settleAfter pre post) r.first.day) v
            = calculateKnowledgeSize (dayDao (settle pre) r.first.day) v ∧
          totalsCarried (settle pre) r.first.day) := by
  rw [← r.repairedDay_eq_iff hrows]
  have hlast : r.last.day = r.first.day → group (dayShares (settle pre)) r.first.day ≠ [] := by
    intro hcut
    rw [← hcut]
    exact group_map_ne_nil r.last_mem_settle
  constructor
  · intro htable hcut
    have hrow := htable r.first.day
    rw [r.getElem?_daily hrows, if_pos ⟨rfl, hcut⟩, if_neg (hlast hcut)] at hrow
    exact Option.some.inj hrow
  · intro hrepaired date
    rw [r.getElem?_daily hrows]
    split
    · rename_i h
      obtain ⟨rfl, hcut⟩ := h
      rw [if_neg (hlast hcut), hrepaired hcut]
    · rfl

/-! ## Against a store of the surviving blocks -/

theorem DailyTable.eq_iff {bs : List SettledBlock} {m m' : ExtTreeMap Int DailyStats}
    (h' : DailyTable v bs m') : m = m' ↔ DailyTable v bs m := by
  refine ⟨fun heq => heq ▸ h', fun h => ExtTreeMap.ext_getElem? fun date => ?_⟩
  rw [h date, h' date]

/-- Rolled back to the end of `pre`, the daily and hourly rows are those of a store that has only
indexed `pre`, whatever the batches, exactly when the cut day, if there is one, keeps its
knowledge size and has totals to carry. -/
theorem rollback_days_iff {s' : StatsStore} (h : Reorg difficulty baseline pre post s s' rows) :
    (rows.daily = s'.rows.daily ∧
        ∀ hour : Int, readHourly rows.hourly[hour]? = readHourly s'.rows.hourly[hour]?) ↔
      ∀ a ∈ (settle pre).getLast?, ∀ b ∈ (settleAfter pre post).head?, a.day = b.day →
        calculateKnowledgeSize (dayDao (settleAfter pre post) b.day) (baseline.getD 0)
            = calculateKnowledgeSize (dayDao (settle pre) b.day) (baseline.getD 0) ∧
          totalsCarried (settle pre) b.day := by
  obtain ⟨hstate, hstate', ⟨r⟩⟩ := h.states
  have hhours : ∀ hour : Int, readHourly rows.hourly[hour]? = readHourly s'.rows.hourly[hour]? := by
    intro hour
    rw [r.readHourly_eq hstate.hourly, hstate'.hourly hour]
  rw [and_iff_left hhours, r.last_mem, r.first_mem]
  simp only [Option.mem_some_iff, forall_eq']
  rw [← r.dailyTable_iff hstate.daily]
  exact hstate'.daily.eq_iff

/-- A block of epoch 0 that has only a cellbase, with one output. Its DAO field has a rate and says
that `occupied` shannons are occupied; the genesis block has no miner. -/
def minedBlock (number : Nat) (timestamp : Int) (occupied miner : UInt8) (epochLength : Int) :
    ParsedBlock where
  number := number
  hash := List.replicate 32 (.ofNat (number + 1))
  parentHash := List.replicate 32 (.ofNat number)
  timestamp := timestamp
  compactTarget := 1
  proposalsCount := 0
  unclesCount := 0
  epochNumber := 0
  epochIndex := number
  epochLength := epochLength
  dao := List.replicate 8 0 ++ 1 :: List.replicate 15 0 ++ occupied :: List.replicate 7 0
  minerLockHash := if number = 0 then none else some (List.replicate 32 miner)
  txs := [⟨List.replicate 32 (.ofNat number), true, [], [⟨20000000000, [1], [], none, 0⟩]⟩]

def occupiedBlock (number : Nat) (timestamp : Int) (occupied : UInt8) : ParsedBlock :=
  minedBlock number timestamp occupied 7 9

/-- What is seen of a store, of one that has only indexed a part, and of a rollback to the part. -/
theorem exists_rollback {α : Type} {full part : List (List ParsedBlock)} {rollbackTo : Int}
    {view : ChainStatsRows → StatsStore → α} {a : α}
    (h : (do
      let s ← liveRun (fun _ => 1) { baseline := some 0 } full
      let s' ← liveRun (fun _ => 1) { baseline := some 0 } part
      let rows ← rollbackChainStats (fun _ => 1) s [] rollbackTo
      return view rows s') = Except.ok a) :
    ∃ s s' rows, liveRun (fun _ => 1) { baseline := some 0 } full = .ok s ∧
      liveRun (fun _ => 1) { baseline := some 0 } part = .ok s' ∧
      rollbackChainStats (fun _ => 1) s [] rollbackTo = .ok rows ∧ view rows s' = a := by
  obtain ⟨s, hs, h⟩ := bind_eq_ok.mp h
  obtain ⟨s', hs', h⟩ := bind_eq_ok.mp h
  obtain ⟨rows, hrows, h⟩ := bind_eq_ok.mp h
  exact ⟨s, s', rows, hs, hs', hrows, Except.ok.inj h⟩

/-- A rollback inside a day keeps the knowledge size of an orphaned block. -/
theorem rollback_keeps_knowledgeSize :
    ∃ (s s' : StatsStore) (rows : ChainStatsRows),
      ChainValid ([occupiedBlock 0 0 3] ++ [occupiedBlock 1 1000 5]) ∧
      liveRun (fun _ => 1) { baseline := some 0 } [[occupiedBlock 0 0 3, occupiedBlock 1 1000 5]]
        = .ok s ∧
      liveRun (fun _ => 1) { baseline := some 0 } [[occupiedBlock 0 0 3]] = .ok s' ∧
      rollbackChainStats (fun _ => 1) s [] (forkPoint [occupiedBlock 0 0 3]) = .ok rows ∧
      rows.daily[(0 : Int)]?.map knowledgeSize = some (some 5) ∧
      s'.rows.daily[(0 : Int)]?.map knowledgeSize = some (some 3) ∧
      rows.daily ≠ s'.rows.daily := by
  obtain ⟨s, s', rows, hs, hs', hrows, hview⟩ := @exists_rollback _
    [[occupiedBlock 0 0 3, occupiedBlock 1 1000 5]] [[occupiedBlock 0 0 3]]
    (forkPoint [occupiedBlock 0 0 3])
    (fun rows s' => (rows.daily[(0 : Int)]?.map knowledgeSize,
      s'.rows.daily[(0 : Int)]?.map knowledgeSize))
    (some (some 5), some (some 3)) (by decide +kernel)
  obtain ⟨hsize, hsize'⟩ := Prod.mk.inj hview
  refine ⟨s, s', rows, by decide +kernel, hs, hs', hrows, hsize, hsize', ?_⟩
  intro heq
  rw [heq, hsize'] at hsize
  exact absurd hsize (by decide)

/-- Where the DAO field does not change and nothing is to be carried, the cut day comes back. -/
theorem rollback_days_iff_same_dao :
    ∃ (s s' : StatsStore) (rows : ChainStatsRows),
      liveRun (fun _ => 1) { baseline := some 0 } [[occupiedBlock 0 0 3, occupiedBlock 1 1000 3]]
        = .ok s ∧
      liveRun (fun _ => 1) { baseline := some 0 } [[occupiedBlock 0 0 3]] = .ok s' ∧
      rollbackChainStats (fun _ => 1) s [] (forkPoint [occupiedBlock 0 0 3]) = .ok rows ∧
      rows.daily = s'.rows.daily ∧
      ∀ hour : Int, readHourly rows.hourly[hour]? = readHourly s'.rows.hourly[hour]? := by
  obtain ⟨s, s', rows, hs, hs', hrows, -⟩ := @exists_rollback _
    [[occupiedBlock 0 0 3, occupiedBlock 1 1000 3]] [[occupiedBlock 0 0 3]]
    (forkPoint [occupiedBlock 0 0 3]) (fun _ s' => s'.blocks.length) 1 (by decide +kernel)
  refine ⟨s, s', rows, hs, hs', hrows, ?_⟩
  have h : Reorg _ _ [occupiedBlock 0 0 3] [occupiedBlock 1 1000 3] s s' rows :=
    ⟨by decide +kernel, by decide, by decide, ⟨_, by decide, hs⟩, ⟨_, by decide, hs'⟩, [],
      List.nil_subperm, hrows⟩
  exact (rollback_days_iff h).mpr (by decide +kernel)

end Rollback

end Ckbadger.Sync
