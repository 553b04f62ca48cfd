/-
Ckbadger.Sync.BatchStatsTheorems — what the live statistics loop accumulates, and what a
run of live batches leaves in the rows.
-/
import Ckbadger.Sync.ChainStats

namespace Ckbadger.Sync

open Lib Lib.KeyedFold Common Writer Std Tabulates PositionedCell

variable {b : SettledBlock} {date : Int} {difficulty : Nat → Nat} {st : StatsLoop}

/-! ## Buckets -/

theorem blockTimeBucket_eq_ok {prevTs currTs bucket : Int}
    (h : blockTimeBucket prevTs currTs date = .ok bucket) :
    0 ≤ currTs - prevTs ∧ bucket = intervalBucket (currTs - prevTs) := by
  simp only [blockTimeBucket] at h
  split at h
  · cases h
  · unfold blockTimeToBucket at h
    rw [if_neg (by omega)] at h
    unfold intervalBucket
    split at h
    · cases h
      omega
    · cases h
      omega

theorem roundedRatio_eq_ok {n q : Nat} (h : roundedRatio n 60000 = .ok q) :
    q = n / 60000 + if 30000 ≤ n % 60000 then 1 else 0 := by
  simp only [roundedRatio] at h
  rw [if_neg (by decide)] at h
  split at h
  · rw [if_pos (by omega)]
    split at h
    · exact (Except.ok.inj h).symm
    · cases h
  · rw [if_neg (by omega)]
    exact (Except.ok.inj h).symm

theorem epochTimeBucket_eq_ok {phase previous : String}
    {blockNumber epochNumber startMs endMs bucket : Int}
    (h : epochTimeBucket phase previous blockNumber epochNumber startMs endMs = .ok bucket) :
    bucket = roundedMinutes (endMs - startMs) := by
  simp only [epochTimeBucket] at h
  split at h
  · cases h
  · obtain ⟨minutes, hminutes, hchecked⟩ := bind_eq_ok.mp h
    rw [(checked_eq_ok.mp hchecked).2, roundedRatio_eq_ok (withContext_eq_ok.mp hminutes)]
    unfold roundedMinutes
    split
    · omega
    · omega

theorem closedEpochBucket_eq_ok {prevEpoch : Option (Int × Int)} {o : Option Int}
    (h : closedEpochBucket prevEpoch b.block b.chainTimeMs = .ok o) :
    b.epochTimeShare prevEpoch = o.toList.map fun bucket => (bucket, ()) := by
  unfold closedEpochBucket at h
  unfold SettledBlock.epochTimeShare
  split at h
  · rename_i hstart
    rw [if_pos hstart]
    cases prevEpoch with
    | none =>
      cases h
      rfl
    | some start =>
      simp only at h
      split at h
      · rename_i hnext
        obtain ⟨bucket, hbucket, ho⟩ := bind_eq_ok.mp h
        rw [← Except.ok.inj ho, epochTimeBucket_eq_ok hbucket]
        simp [hnext]
      · rename_i hnext
        cases h
        simp [hnext]
  · rename_i hstart
    rw [if_neg hstart]
    cases h
    rfl

theorem compactDifficulty_eq_ok {target work : Nat}
    (h : compactDifficulty difficulty target = .ok work) : work = difficulty target := by
  simp only [compactDifficulty] at h
  split at h
  · cases h
  · split at h
    · cases h
    · exact (Except.ok.inj h).symm

/-! ## One block -/

/-- The maps after a block are the maps before it with the block's shares folded in. -/
structure BlockAccumulated (difficulty : Nat → Nat) (st st' : StatsLoop) (b : SettledBlock) :
    Prop where
  daily : collect (keep addDailyEntry) st.stats.dailyStats (dayShares [b])
    = .ok st'.stats.dailyStats
  dao : collect (keep setDaoField) st.stats.dailyDaoFields (daoShares [b])
    = .ok st'.stats.dailyDaoFields
  hourly : collect (keep addHourlyEntry) st.stats.hourlyStats (hourShares [b])
    = .ok st'.stats.hourlyStats
  dailyBlock : collect (keep addDailyBlockEntry) st.stats.dailyBlockStats
    (dayBlockShares difficulty [b]) = .ok st'.stats.dailyBlockStats
  miner : collect (keep addMinerBlock) st.stats.minerStats (minerShares [b])
    = .ok st'.stats.minerStats
  epoch : collect (keep addEpochBlock) st.stats.epochStats (epochShares [b])
    = .ok st'.stats.epochStats
  blockTime : collect (keep addSample) st.stats.blockTimeDist
    (blockTimeShares st.prevTimestamp [b]) = .ok st'.stats.blockTimeDist
  interval : collect (keep addBlockTime) st.stats.dailyBlockTimes
    (intervalShares st.prevTimestamp [b]) = .ok st'.stats.dailyBlockTimes
  epochTime : collect (keep addSample) st.stats.epochTimeDist (epochTimeShares st.prevEpoch [b])
    = .ok st'.stats.epochTimeDist
  prevTimestamp : st'.prevTimestamp = some b.chainTimeMs
  prevEpoch : st'.prevEpoch = nextEpochStart st.prevEpoch b

theorem collect_singleton_of_upsert {K A C : Type} [Ord K] [TransOrd K]
    {step : K → Option A → C → Except String A} {m m' : ExtTreeMap K A} {k : K} {c : C}
    (h : upsert step m k c = .ok m') : collect (keep step) m [(k, c)] = .ok m' :=
  collect_concat (collect_nil m) h

theorem accumulateMiner_eq_ok {m m' : ExtTreeMap MinerKey (Int × Int)}
    (h : accumulateMiner m b.block b.day = .ok m') :
    collect (keep addMinerBlock) m (minerShares [b]) = .ok m' := by
  unfold accumulateMiner at h
  rw [minerShares, List.flatMap_cons, List.flatMap_nil, SettledBlock.minerShare]
  cases hminer : b.block.minerLockHash with
  | none =>
    rw [hminer] at h
    cases h
    rfl
  | some miner =>
    rw [hminer] at h
    exact collect_singleton_of_upsert h

theorem accumulateEpochTime_eq_ok {m m' : ExtTreeMap Int Int} {prevEpoch : Option (Int × Int)}
    (h : accumulateEpochTime m prevEpoch b.block b.chainTimeMs = .ok m') :
    collect (keep addSample) m (epochTimeShares prevEpoch [b]) = .ok m' := by
  obtain ⟨o, ho, hrest⟩ := bind_eq_ok.mp h
  rw [epochTimeShares, epochTimeShares, closedEpochBucket_eq_ok ho]
  cases o with
  | none =>
    cases hrest
    rfl
  | some bucket => exact collect_singleton_of_upsert hrest

/-- A block's interval touches the two maps of block times only. -/
theorem accumulateBlockTime_eq_ok {stats stats' : BatchStats} {prevTimestamp : Option Int}
    (h : accumulateBlockTime stats prevTimestamp b.chainTimeMs b.day = .ok stats') :
    collect (keep addSample) stats.blockTimeDist (blockTimeShares prevTimestamp [b])
        = .ok stats'.blockTimeDist ∧
      collect (keep addBlockTime) stats.dailyBlockTimes (intervalShares prevTimestamp [b])
        = .ok stats'.dailyBlockTimes ∧
      stats' = { stats with
        blockTimeDist := stats'.blockTimeDist
        dailyBlockTimes := stats'.dailyBlockTimes } := by
  cases prevTimestamp with
  | none =>
    cases h
    exact ⟨rfl, rfl, rfl⟩
  | some prevTs =>
    obtain ⟨bucket, hbucket, h⟩ := bind_eq_ok.mp h
    obtain ⟨dist, hdist, h⟩ := bind_eq_ok.mp h
    obtain ⟨times, htimes, h⟩ := bind_eq_ok.mp h
    have hstats := Except.ok.inj h
    subst hstats
    rw [(blockTimeBucket_eq_ok hbucket).2] at hdist
    exact ⟨collect_singleton_of_upsert hdist, collect_singleton_of_upsert htimes, rfl⟩

theorem accumulateBlock_eq_ok {find : OutPoint → Option PositionedCell} {st' : StatsLoop}
    (hconsumed : resolveConsumedStats find b.block.txs b.block.number
      = .ok ((b.spent.map dataSize).sum, (b.spent.map occupiedCapacity).sum))
    (h : accumulateBlock difficulty find st (b.block, b.chainTimeMs) = .ok st') :
    BlockAccumulated difficulty st st' b := by
  obtain ⟨-, -, h⟩ := bind_eq_ok.mp h
  obtain ⟨day, hday, h⟩ := bind_eq_ok.mp h
  obtain rfl := statsDay_eq_ok hday
  obtain ⟨consumed, hconsumed', h⟩ := bind_eq_ok.mp h
  obtain rfl := Except.ok.inj (hconsumed.symm.trans hconsumed')
  obtain ⟨daily, hdaily, h⟩ := bind_eq_ok.mp h
  obtain ⟨dao, hdao, h⟩ := bind_eq_ok.mp h
  obtain ⟨hour, hhour, h⟩ := bind_eq_ok.mp h
  obtain rfl := statsHour_eq_ok hhour
  obtain ⟨hourly, hhourly, h⟩ := bind_eq_ok.mp h
  obtain ⟨work, hwork, h⟩ := bind_eq_ok.mp h
  obtain rfl := compactDifficulty_eq_ok hwork
  simp only [bind_eq_ok, return_eq_ok] at h
  obtain ⟨dailyBlock, hdailyBlock, miner, hminer, epoch, hepoch, stats, hstats, epochTime,
    hepochTime, rfl⟩ := h
  obtain ⟨hblockTime, hinterval, hrest⟩ := accumulateBlockTime_eq_ok hstats
  rw [hrest] at hepochTime ⊢
  exact {
    daily := collect_singleton_of_upsert hdaily
    dao := collect_singleton_of_upsert hdao
    hourly := collect_singleton_of_upsert hhourly
    dailyBlock := collect_singleton_of_upsert hdailyBlock
    miner := accumulateMiner_eq_ok hminer
    epoch := collect_singleton_of_upsert hepoch
    blockTime := hblockTime
    interval := hinterval
    epochTime := accumulateEpochTime_eq_ok hepochTime
    prevTimestamp := rfl
    prevEpoch := rfl }

/-! ## A batch -/

/-- The maps of a batch are the shares of its blocks, folded in from nothing. -/
structure BatchAccumulated (difficulty : Nat → Nat) (previous : Option Int)
    (start : Option (Int × Int)) (bs : List SettledBlock) (st : StatsLoop) : Prop where
  daily : collect (keep addDailyEntry) ∅ (dayShares bs) = .ok st.stats.dailyStats
  dao : collect (keep setDaoField) ∅ (daoShares bs) = .ok st.stats.dailyDaoFields
  hourly : collect (keep addHourlyEntry) ∅ (hourShares bs) = .ok st.stats.hourlyStats
  dailyBlock : collect (keep addDailyBlockEntry) ∅ (dayBlockShares difficulty bs)
    = .ok st.stats.dailyBlockStats
  miner : collect (keep addMinerBlock) ∅ (minerShares bs) = .ok st.stats.minerStats
  epoch : collect (keep addEpochBlock) ∅ (epochShares bs) = .ok st.stats.epochStats
  blockTime : collect (keep addSample) ∅ (blockTimeShares previous bs) = .ok st.stats.blockTimeDist
  interval : collect (keep addBlockTime) ∅ (intervalShares previous bs)
    = .ok st.stats.dailyBlockTimes
  epochTime : collect (keep addSample) ∅ (epochTimeShares start bs) = .ok st.stats.epochTimeDist
  prevTimestamp : st.prevTimestamp = lastChainTime previous bs
  prevEpoch : st.prevEpoch = lastEpochStart start bs

theorem BatchAccumulated.concat {previous : Option Int}
    {start : Option (Int × Int)} {bs : List SettledBlock} {st' : StatsLoop}
    (h : BatchAccumulated difficulty previous start bs st)
    (hb : BlockAccumulated difficulty st st' b) :
    BatchAccumulated difficulty previous start (bs ++ [b]) st' where
  daily := by
    rw [dayShares_append]
    exact collect_append_eq_ok.mpr ⟨_, h.daily, hb.daily⟩
  dao := by
    rw [daoShares_append]
    exact collect_append_eq_ok.mpr ⟨_, h.dao, hb.dao⟩
  hourly := by
    rw [hourShares_append]
    exact collect_append_eq_ok.mpr ⟨_, h.hourly, hb.hourly⟩
  dailyBlock := by
    rw [dayBlockShares_append]
    exact collect_append_eq_ok.mpr ⟨_, h.dailyBlock, hb.dailyBlock⟩
  miner := by
    rw [minerShares_append]
    exact collect_append_eq_ok.mpr ⟨_, h.miner, hb.miner⟩
  epoch := by
    rw [epochShares_append]
    exact collect_append_eq_ok.mpr ⟨_, h.epoch, hb.epoch⟩
  blockTime := by
    rw [blockTimeShares_append, ← h.prevTimestamp]
    exact collect_append_eq_ok.mpr ⟨_, h.blockTime, hb.blockTime⟩
  interval := by
    rw [intervalShares_append, ← h.prevTimestamp]
    exact collect_append_eq_ok.mpr ⟨_, h.interval, hb.interval⟩
  epochTime := by
    rw [epochTimeShares_append, ← h.prevEpoch]
    exact collect_append_eq_ok.mpr ⟨_, h.epochTime, hb.epochTime⟩
  prevTimestamp := by
    rw [lastChainTime_append, hb.prevTimestamp]
    rfl
  prevEpoch := by
    rw [lastEpochStart_append, ← h.prevEpoch, hb.prevEpoch]
    rfl

/-- What the loop returns, when the inputs of every block resolve to the cells it spends. -/
theorem accumulate_eq_ok {find : OutPoint → Option PositionedCell}
    {previous : Option Int} {start : Option (Int × Int)} {bs : List SettledBlock}
    (hconsumed : ∀ b ∈ bs, resolveConsumedStats find b.block.txs b.block.number
      = .ok ((b.spent.map dataSize).sum, (b.spent.map occupiedCapacity).sum))
    (h : (bs.map fun b => (b.block, b.chainTimeMs)).foldlM (accumulateBlock difficulty find)
      { prevTimestamp := previous, prevEpoch := start } = .ok st) :
    BatchAccumulated difficulty previous start bs st := by
  induction bs using List.reverseRecOn generalizing st with
  | nil =>
    cases h
    exact ⟨rfl, rfl, rfl, rfl, rfl, rfl, rfl, rfl, rfl, rfl, rfl⟩
  | append_singleton bs b ih =>
    rw [List.map_append] at h
    obtain ⟨u, hu, hu'⟩ := foldlM_concat_eq_ok.mp h
    have hbefore := ih (List.forall_mem_append.mp hconsumed).1 hu
    exact hbefore.concat (accumulateBlock_eq_ok (hconsumed b (by simp)) hu')

/-! ## The maps as tables -/

theorem addDailyEntry_eq_ok {o : Option DailyEntry} {e r : DailyEntry}
    (h : addDailyEntry date o e = .ok r) : r = o.getD 0 + e := by
  obtain ⟨-, -, h⟩ := bind_eq_ok.mp h
  obtain ⟨-, -, h⟩ := bind_eq_ok.mp h
  obtain ⟨-, -, h⟩ := bind_eq_ok.mp h
  exact (Except.ok.inj h).symm

theorem addHourlyEntry_eq_ok {hour : Int} {o : Option HourlyEntry} {e r : HourlyEntry}
    (h : addHourlyEntry hour o e = .ok r) : r = o.getD 0 + e := by
  obtain ⟨-, -, h⟩ := bind_eq_ok.mp h
  exact (Except.ok.inj h).symm

theorem addDailyBlockEntry_eq_ok {o : Option DailyBlockEntry} {e r : DailyBlockEntry}
    (h : addDailyBlockEntry date o e = .ok r) : r = o.getD 0 + e := by
  simp only [addDailyBlockEntry] at h
  split at h
  · cases h
  · obtain ⟨-, -, h⟩ := bind_eq_ok.mp h
    obtain ⟨-, -, h⟩ := bind_eq_ok.mp h
    exact (Except.ok.inj h).symm

theorem checkedInterval_eq_ok {o : Option (Int × Int)} {deltaMs : Int} {r : Int × Int} {e e' : String}
    (h : (do
      let sum ← checked 64 ((o.getD (0, 0)).1 + deltaMs) e
      let count ← checked 32 ((o.getD (0, 0)).2 + 1) e'
      return (sum, count)) = .ok r) : r = ((o.getD (0, 0)).1 + deltaMs, (o.getD (0, 0)).2 + 1) := by
  obtain ⟨sum, hsum, h⟩ := bind_eq_ok.mp h
  obtain ⟨count, hcount, h⟩ := bind_eq_ok.mp h
  rw [← Except.ok.inj h, (checked_eq_ok.mp hsum).2, (checked_eq_ok.mp hcount).2]

/-- A loop that adds up the shares of each key. -/
theorem tabulates_sum {K M : Type} [Ord K] [TransOrd K] [LawfulEqOrd K] [DecidableEq K]
    [AddCommMonoid M] {step : K → Option M → M → Except String M}
    (hstep : ∀ k o e r, step k o e = .ok r → r = o.getD 0 + e) {l : List (K × M)}
    {m : ExtTreeMap K M} (h : collect (keep step) ∅ l = .ok m) :
    Tabulates (fun _ es => es.sum) l m := by
  refine of_collect ?_ ?_ h
  · intro k c a hc
    rw [hstep k none c a hc]
    simp
  · intro k cs c a _ hc
    rw [hstep k _ c a hc]
    simp

theorem tabulates_dao {l : List (Int × Bytes)} {m : ExtTreeMap Int Bytes}
    (h : collect (keep setDaoField) ∅ l = .ok m) :
    Tabulates (fun _ daos => daos.getLast?.getD []) l m := by
  refine of_collect ?_ ?_ h
  · intro k c a hc
    rw [← Except.ok.inj hc]
    rfl
  · intro k cs c a _ hc
    rw [← Except.ok.inj hc, List.getLast?_concat]
    rfl

theorem tabulates_miner {l : List (MinerKey × Int)} {m : ExtTreeMap MinerKey (Int × Int)}
    (h : collect (keep addMinerBlock) ∅ l = .ok m) :
    Tabulates (fun _ numbers => minerEntry numbers) l m := by
  refine of_collect ?_ ?_ h
  · intro k c a hc
    rw [← Except.ok.inj hc]
    rfl
  · intro k cs c a _ hc
    rw [← Except.ok.inj hc]
    unfold minerEntry
    simp

theorem epochAccum_concat {bs : List (ParsedBlock × Int)} (h : bs ≠ []) (b : ParsedBlock × Int) :
    epochAccum (bs ++ [b]) = { epochAccum bs with
      endBlock := b.1.number
      endTs := b.2
      txCount := (epochAccum bs).txCount + b.1.transactionsCount } := by
  cases bs with
  | nil => exact absurd rfl h
  | cons first rest =>
    rw [List.cons_append, epochAccum, epochAccum]
    simp [← add_assoc]

theorem tabulates_epoch {l : List (Int × (ParsedBlock × Int))} {m : ExtTreeMap Int EpochAccum}
    (h : collect (keep addEpochBlock) ∅ l = .ok m) :
    Tabulates (fun _ blocks => epochAccum blocks) l m := by
  refine of_collect ?_ ?_ h
  · intro k c a hc
    rw [← Except.ok.inj hc]
    simp [epochAccum]
  · intro k cs c a hcs hc
    rw [← Except.ok.inj hc, epochAccum_concat hcs]
    rfl

/-- A loop that counts the elements of each key. -/
theorem tabulates_count {K C : Type} [Ord K] [TransOrd K] [LawfulEqOrd K] [DecidableEq K]
    {step : K → Option Int → C → Except String Int}
    (hstep : ∀ k o c r, step k o c = .ok r → r = o.getD 0 + 1) {l : List (K × C)}
    {m : ExtTreeMap K Int} (h : collect (keep step) ∅ l = .ok m) :
    Tabulates (fun _ cs => (cs.length : Int)) l m := by
  refine of_collect ?_ ?_ h
  · intro k c a hc
    rw [hstep k none c a hc]
    rfl
  · intro k cs c a _ hc
    rw [hstep k _ c a hc]
    simp

theorem tabulates_samples {l : List (Int × Unit)} {m : ExtTreeMap Int Int}
    (h : collect (keep addSample) ∅ l = .ok m) : Tabulates bucketRow l m :=
  tabulates_count (fun _ _ _ _ hc => (Except.ok.inj hc).symm) h

/-- A loop that sums and counts the intervals of each key. -/
theorem tabulates_intervals {step : Int → Option (Int × Int) → Int → Except String (Int × Int)}
    (hstep : ∀ k o c r, step k o c = .ok r → r = ((o.getD (0, 0)).1 + c, (o.getD (0, 0)).2 + 1))
    {l : List (Int × Int)} {m : ExtTreeMap Int (Int × Int)} (h : collect (keep step) ∅ l = .ok m) :
    Tabulates (fun _ deltas => (deltas.sum, (deltas.length : Int))) l m := by
  refine of_collect ?_ ?_ h
  · intro k c a hc
    rw [hstep k none c a hc]
    simp
  · intro k cs c a _ hc
    rw [hstep k _ c a hc]
    simp

end Ckbadger.Sync
