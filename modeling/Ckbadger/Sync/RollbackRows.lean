/-
Ckbadger.Sync.RollbackRows — what a rollback of the chain statistics has done.

The deltas of a rollback are the shares of the orphaned blocks, so a subtraction leaves
the shares of the surviving ones. A successful rollback is inverted once, into the sweep
of each row family and the position of the fork point among the days.
-/
import Ckbadger.Sync.RollbackFlows

namespace Ckbadger.Sync

open Lib Lib.KeyedFold Common Store Writer SettledBlock List

open Std (ExtTreeMap)

variable {b : SettledBlock} {difficulty : Nat → Nat} {baseline : Option Int}
  {pre post : List ParsedBlock} {s : StatsStore} {contexts : List UndoTxContext}

/-! ## The deltas of a rollback -/

/-- The counts of a day's shares. -/
def entryFlow (e : DailyEntry) : FlowDelta := (e.blocks, e.txs, e.cellsCreated, e.cellsConsumed)

/-- The counts of an hour's shares. -/
def hourFlow (e : HourlyEntry) : FlowDelta := (e.1, e.2.1, e.2.2.1, e.2.2.2.1)

/-- The deltas, for the cutoff day and hour, are the shares of the orphaned blocks. -/
structure OrphanDeltas (difficulty : Nat → Nat) (xs ys : List SettledBlock)
    (cutoff cutoffHour : Int) (deltas : RollbackStatsDeltas) : Prop where
  date : deltas.date[cutoff]? = some (entryFlow (group (dayShares ys) cutoff).sum)
  hour : deltas.hour[cutoffHour]? = some (hourFlow (group (hourShares ys) cutoffHour).sum)
  dateCapacity : deltas.dateCapacity = entryCapacity (group (dayShares ys) cutoff).sum
  hourCapacity : deltas.hourCapacity = (group (hourShares ys) cutoffHour).sum.2.2.2.2
  uncles : deltas.headers.dateUncles[cutoff]?
    = some (group (dayBlockShares difficulty ys) cutoff).sum.2.2
  work : deltas.headers.dateDifficulty[cutoff]?
    = some (group (dayBlockShares difficulty ys) cutoff).sum.1
  blockTime : deltas.headers.dateBlockTime[cutoff]?.getD (0, 0)
    = dayBlockTime (lastChainTime none xs) ys cutoff
  miner : ∀ key, deltas.headers.miner[key]?.getD 0 = (group (minerShares ys) key).length
  blockTimeDist : Tabulates bucketRow (blockTimeShares (lastChainTime none xs) ys)
    deltas.headers.removedBlockTime
  epochTimeDist : Tabulates bucketRow (epochTimeShares (lastEpochStart none xs) ys)
    deltas.headers.removedEpochTime
  epochTxs : Tabulates (fun _ counts => counts.sum) (epochTxShares ys) deltas.headers.epochTxRemoved

theorem entryFlow_sum (bs : List SettledBlock) :
    (bs.map fun b => blockFlow b.block).sum = entryFlow (bs.map dailyEntry).sum := by
  induction bs with
  | nil => rfl
  | cons b bs ih =>
    rw [map_cons, sum_cons, ih, map_cons]
    rfl

theorem hourFlow_sum (bs : List SettledBlock) :
    (bs.map fun b => blockFlow b.block).sum
      = hourFlow (bs.map fun b => b.block.hourlyEntry).sum := by
  induction bs with
  | nil => rfl
  | cons b bs ih =>
    rw [map_cons, sum_cons, ih, map_cons]
    rfl

theorem workUncles_sum (difficulty : Nat → Nat) (bs : List SettledBlock) :
    (bs.map fun b => (difficulty b.block.compactTarget, (1 : Int), b.block.unclesCount)).sum
      = ((bs.map fun b => difficulty b.block.compactTarget).sum, (bs.length : Int),
          (bs.map fun b => b.block.unclesCount).sum) := by
  induction bs with
  | nil => rfl
  | cons b bs ih =>
    rw [map_cons, sum_cons, ih]
    simp [add_comm]

theorem addOrphanWork_eq_ok {date : Int} {o : Option Nat} {work r : Nat}
    (h : addOrphanWork date o work = .ok r) : r = o.getD 0 + work := by
  unfold addOrphanWork at h
  split at h
  · cases h
  · exact (Except.ok.inj h).symm

/-- The flow table of a bucket that an orphaned block is in. -/
theorem getElem?_flow {bucket : StoredBlock → Int} {bs : List SettledBlock}
    {m : ExtTreeMap Int FlowDelta} (hb : b ∈ bs)
    (h : collect (keep addFlow) ∅ (flowShares bucket (bs.map stored)) = .ok m) :
    m[bucket b.stored]? = some ((bs.filter fun a => bucket a.stored = bucket b.stored).map
      fun a => blockFlow a.block).sum := by
  have htable := tabulates_sum (fun _ _ _ _ hc => (Except.ok.inj hc).symm) h
  have hne : group (flowShares bucket (bs.map stored)) (bucket b.stored) ≠ [] := by
    refine group_ne_nil (e := (bucket b.stored, (1, 0, 0, 0))) ?_
    exact mem_append_left _ (mem_map.mpr ⟨b.stored, mem_map_of_mem hb, rfl⟩)
  rw [htable, tabulated_of_ne hne, sum_flowShares]

theorem LiveCore.rollbackDeltas (hcore : LiveCore baseline (pre ++ post) s)
    (hvalid : ChainValid (pre ++ post))
    (hcontexts : contexts.Subperm ((chainTxs post).map fun e => e.2.undoContext))
    {prev : Option (Int × Int)} {loop : HeaderLoop}
    (hprev : prev.map Prod.snd = lastChainTime none (settle pre))
    (hloop : (s.orphans (forkPoint pre)).foldlM (rollbackHeader difficulty s (forkPoint pre))
      { prevHeader := prev } = .ok loop)
    {b : SettledBlock} (hb : b ∈ settleAfter pre post) {deltas : RollbackStatsDeltas}
    (h : Sync.rollbackDeltas s (forkPoint pre) contexts loop.deltas b.day b.hour = .ok deltas) :
    OrphanDeltas difficulty (settle pre) (settleAfter pre post) b.day b.hour deltas ∧
      deltas.headers = loop.deltas := by
  unfold Sync.rollbackDeltas at h
  rw [hcore.orphans hvalid] at h hloop
  simp only [bind_eq_ok, return_eq_ok] at h
  obtain ⟨-, -, date, hdate, hour, hhour, dateCapacity, hdateCapacity, hourCapacity, hhourCapacity,
    rfl⟩ := h
  have hheaders := rollbackHeaders_eq_ok hloop
  rw [hprev] at hheaders
  have hepochTime := hcore.removedEpochTime hvalid (append_nil _).symm hloop
  -- cells from before the fork point have no side in an orphaned bucket
  have holdDate : ∀ c : PositionedCell, c.createdAtBlock ≤ forkPoint pre →
      createdOnDate ((settleAfter pre post).map stored) b.day c = 0 := by
    intro c hc
    unfold createdOnDate
    rw [hvalid.orphanBucket_pre _ hc]
    exact if_neg (by simp)
  have holdHour : ∀ c : PositionedCell, c.createdAtBlock ≤ forkPoint pre →
      createdInHour ((settleAfter pre post).map stored) b.hour c = 0 := by
    intro c hc
    unfold createdInHour
    rw [hvalid.orphanBucket_pre _ hc]
    exact if_neg (by simp)
  refine ⟨?_, rfl⟩
  have huncles : group (uncleShares (settleAfter pre post)) b.day ≠ [] :=
    group_map_ne_nil hb
  have hwork : group (workShares difficulty (settleAfter pre post)) b.day ≠ [] :=
    group_map_ne_nil hb
  refine {
    date := ?_
    hour := ?_
    dateCapacity := ?_
    hourCapacity := ?_
    uncles := ?_
    work := ?_
    blockTime := ?_
    miner := ?_
    blockTimeDist := tabulates_count (fun _ _ _ _ hc => (checked_eq_ok.mp hc).2) hheaders.blockTime
    epochTimeDist := tabulates_count (fun _ _ _ _ hc => (checked_eq_ok.mp hc).2) hepochTime
    epochTxs := tabulates_sum (fun _ _ _ _ hc => (checked_eq_ok.mp hc).2) hheaders.epochTxs }
  · rw [dayShares, group_map, ← entryFlow_sum]
    exact getElem?_flow hb hdate
  · rw [hourShares, group_map, ← hourFlow_sum]
    exact getElem?_flow hb hhour
  · rw [← hvalid.txsFlow_date]
    exact hcore.cellFlow hvalid holdDate hcontexts hdateCapacity
  · rw [← hvalid.txsFlow_hour]
    exact hcore.cellFlow hvalid holdHour hcontexts hhourCapacity
  · have htable := tabulates_sum (fun _ _ _ _ hc => (checked_eq_ok.mp hc).2) hheaders.uncles
    rw [htable, tabulated_of_ne huncles, uncleShares, dayBlockShares, group_map, group_map,
      workUncles_sum]
  · have htable := tabulates_sum (fun _ _ _ _ hc => addOrphanWork_eq_ok hc) hheaders.work
    rw [htable, tabulated_of_ne hwork, workShares, dayBlockShares, group_map, group_map,
      workUncles_sum]
  · have htable := tabulates_intervals (fun _ _ _ _ => checkedInterval_eq_ok)
      hheaders.interval
    rw [htable b.day]
    unfold tabulated dayBlockTime
    split
    · rename_i hnil
      rw [hnil]
      rfl
    · rfl
  · intro key
    have htable := tabulates_count (fun _ _ _ _ hc => (Except.ok.inj hc).symm) hheaders.miner
    have hgroup : (group (minerBlockShares (settleAfter pre post)) key).length
        = (group (minerShares (settleAfter pre post)) key).length := by
      unfold minerBlockShares
      rw [group_map, length_map]
      unfold group
      rw [length_map]
    rw [htable key]
    unfold tabulated
    split
    · rename_i hnil
      rw [← hgroup, hnil]
      rfl
    · exact congrArg Nat.cast hgroup

/-! ## Sweeping -/

section Sweep

variable {K V : Type} [Ord K] [Std.TransOrd K] [Std.LawfulEqOrd K] [DecidableEq K]
variable {selected : K → Bool} {repair : K → V → Except String (Option V)}
variable {rows rows' : ExtTreeMap K V}
variable {k : K}

section

variable (h : sweep selected repair rows = .ok rows')

include h

theorem sweep_none (hk : rows[k]? = none) :
    rows'[k]? = none := by
  rw [merge_of_none h hk, hk]

theorem sweep_kept (hk : selected k = false) :
    rows'[k]? = rows[k]? := by
  cases hrow : rows[k]? with
  | none => exact sweep_none h hrow
  | some v =>
    have hstep := merge_of_some h hrow
    rw [if_neg (by simp [hk])] at hstep
    exact (Except.ok.inj hstep).symm

theorem sweep_repaired {v : V}
    (hk : rows[k]? = some v) (hselected : selected k = true) : repair k v = .ok rows'[k]? := by
  have hstep := merge_of_some h hk
  rwa [if_pos hselected] at hstep

end

theorem sweep_later {isPartialDay : Bool}
    (h : sweep selected (repairIf isPartialDay repair) rows = .ok rows')
    (hselected : selected k = true)
    (hrepair : isPartialDay = true → ∀ v, repair k v = .ok none) : rows'[k]? = none := by
  cases hrow : rows[k]? with
  | none => exact sweep_none h hrow
  | some v =>
    have hstep := sweep_repaired h hrow hselected
    unfold repairIf at hstep
    split at hstep
    · rename_i hpartial
      rw [hrepair hpartial v] at hstep
      exact (Except.ok.inj hstep).symm
    · exact (Except.ok.inj hstep).symm

theorem sweep_delete (h : sweep selected (fun _ _ => .ok none) rows = .ok rows') (k : K) :
    rows'[k]? = if selected k then none else rows[k]? := by
  split
  · rename_i hselected
    cases hrow : rows[k]? with
    | none => exact sweep_none h hrow
    | some v => exact (Except.ok.inj (sweep_repaired h hrow hselected)).symm
  · rename_i hselected
    exact sweep_kept h (by simpa using hselected)

end Sweep

theorem checkedStatsSub_eq_ok {current delta v bucket : Int} {field kind : String}
    (h : checkedStatsSub current delta field kind bucket = .ok v) : v = current - delta := by
  unfold checkedStatsSub at h
  split at h
  · exact (Except.ok.inj h).symm
  · cases h

/-! ## A rollback -/

/-- What a rollback past `pre` has done: the last block before the fork point and the first one
after it tell whether a day is cut. -/
structure RolledBack (difficulty : Nat → Nat) (pre post : List ParsedBlock) (s : StatsStore)
    (rows : ChainStatsRows) where
  last : SettledBlock
  first : SettledBlock
  loop : HeaderLoop
  deltas : RollbackStatsDeltas
  last_mem : (settle pre).getLast? = some last
  first_mem : (settleAfter pre post).head? = some first
  headers : (s.orphans (forkPoint pre)).foldlM (rollbackHeader difficulty s (forkPoint pre))
    { prevHeader := some (forkPoint pre, last.chainTimeMs) } = .ok loop
  loop_deltas : deltas.headers = loop.deltas
  orphaned : OrphanDeltas difficulty (settle pre) (settleAfter pre post) first.day first.hour deltas
  daily : sweep (fun date => decide (first.day ≤ date)) (repairIf (decide (last.day = first.day))
    (repairDaily s.rows.daily deltas first.day)) s.rows.daily = .ok rows.daily
  dailyBlock : sweep (fun date => decide (first.day ≤ date))
    (repairIf (decide (last.day = first.day)) (repairDailyBlock deltas first.day)) s.rows.dailyBlock
      = .ok rows.dailyBlock
  hourly : sweep (fun hour => decide (first.hour ≤ hour))
    (repairIf (decide (last.day = first.day)) (repairHourly deltas first.hour)) s.rows.hourly
      = .ok rows.hourly
  miner : sweep (fun key => decide (first.day ≤ key.date))
    (repairIf (decide (last.day = first.day)) (repairMiner deltas first.day)) s.rows.miner
      = .ok rows.miner
  blockTimeDist : subtractChainHistogram s.rows.blockTimeDist deltas.headers.removedBlockTime
    = .ok rows.blockTimeDist
  epochTimeDist : subtractChainHistogram s.rows.epochTimeDist deltas.headers.removedEpochTime
    = .ok rows.epochTimeDist
  epoch : rollbackEpochs s.rows.epoch deltas.headers.epochTxRemoved (forkPoint pre)
    (first.block.header first.chainTimeMs) = .ok rows.epoch

section Rollback

variable {rows : ChainStatsRows} (r : RolledBack difficulty pre post s rows) {a : SettledBlock}

theorem rollbackChainStats_eq_ok (hcore : LiveCore baseline (pre ++ post) s)
    (hvalid : ChainValid (pre ++ post)) (hpre : pre ≠ []) (hpost : post ≠ [])
    (hcontexts : contexts.Subperm ((chainTxs post).map fun e => e.2.undoContext))
    (h : rollbackChainStats difficulty s contexts (forkPoint pre) = .ok rows) :
    Nonempty (RolledBack difficulty pre post s rows) := by
  have hlength : (settle pre).length = pre.length := length_settleFrom _ _ _
  have hpos : 0 < pre.length := length_pos_iff.mpr hpre
  have hfork : forkPoint pre = ((pre.length - 1 : Nat) : Int) := by
    unfold forkPoint
    omega
  have hstart : forkPoint pre + 1 = (pre.length : Int) := by
    omega
  obtain ⟨last, hlast⟩ : ∃ last, (settle pre).getLast? = some last := by
    refine ⟨_, getLast?_eq_some_getLast ?_⟩
    exact length_pos_iff.mp (by omega)
  obtain ⟨first, rest, hsplit⟩ : ∃ first rest, settleAfter pre post = first :: rest := by
    refine exists_cons_of_ne_nil ?_
    intro hnil
    have hblocks := map_block_settleAfter pre post
    rw [hnil] at hblocks
    exact hpost hblocks.symm
  have hforkHeader : s.getBlockHeader (forkPoint pre)
      = some (last.block.header last.chainTimeMs) := by
    rw [hfork, hcore.getBlockHeader hvalid, settle_append, getElem?_append_left (by omega),
      ← hlength, ← getLast?_eq_getElem?, hlast]
    rfl
  have hstartHeader : s.getBlockHeader (forkPoint pre + 1)
      = some (first.block.header first.chainTimeMs) := by
    rw [hstart, hcore.getBlockHeader hvalid, settle_append, getElem?_append_right (by omega),
      hsplit, hlength, Nat.sub_self]
    rfl
  have hfirst : first ∈ settleAfter pre post := by
    rw [hsplit]
    exact mem_cons_self
  unfold rollbackChainStats at h
  rw [if_neg (by omega)] at h
  simp only [if_pos (show 0 ≤ forkPoint pre by omega), hforkHeader, hstartHeader, bind_eq_ok] at h
  obtain ⟨forkDate, hforkDate, loop, hloop, cutoff, hcutoff, cutoffHour, hcutoffHour, deltas,
    hdeltas, h⟩ := h
  obtain rfl : cutoff = first.day := statsDay_eq_ok hcutoff
  obtain rfl : cutoffHour = first.hour := statsHour_eq_ok hcutoffHour
  obtain ⟨horphaned, hheaders⟩ := hcore.rollbackDeltas hvalid hcontexts
    (by rw [lastChainTime, hlast]; rfl) hloop hfirst hdeltas
  obtain ⟨day, hday, hforkDate⟩ := bind_eq_ok.mp hforkDate
  rw [← Except.ok.inj hforkDate, statsDay_eq_ok hday] at h
  simp only [Option.some.injEq] at h
  obtain ⟨daily, hdaily, h⟩ := bind_eq_ok.mp h
  simp only [bind_eq_ok, return_eq_ok] at h
  obtain ⟨dailyBlock, hdailyBlock, hourly, hhourly, miner, hminer, blockTimeDist,
    hblockTimeDist, epochTimeDist, hepochTimeDist, epoch, hepoch, rfl⟩ := h
  exact ⟨{
    last := last
    first := first
    loop := loop
    deltas := deltas
    last_mem := hlast
    first_mem := by rw [hsplit]; rfl
    headers := hloop
    loop_deltas := hheaders
    orphaned := horphaned
    daily := hdaily
    dailyBlock := hdailyBlock
    hourly := hhourly
    miner := hminer
    blockTimeDist := hblockTimeDist
    epochTimeDist := hepochTimeDist
    epoch := hepoch }⟩

/-! ## Positions -/

theorem RolledBack.last_mem_settle : r.last ∈ settle pre :=
  mem_of_getLast? r.last_mem

theorem RolledBack.first_mem_settleAfter : r.first ∈ settleAfter pre post :=
  mem_of_head? r.first_mem

theorem chainTime_settle (chain : List ParsedBlock) :
    (settle chain).Pairwise fun a b => a.chainTimeMs ≤ b.chainTimeMs :=
  (pairwise_chainTime ∅ none chain).1

theorem RolledBack.chainTime_pre (ha : a ∈ settle pre) : a.chainTimeMs ≤ r.last.chainTimeMs := by
  obtain ⟨init, hinit⟩ := getLast?_eq_some_iff.mp r.last_mem
  have hpairs := chainTime_settle pre
  rw [hinit] at ha hpairs
  rcases mem_append.mp ha with hmem | hmem
  · exact (pairwise_append.mp hpairs).2.2 a hmem r.last mem_cons_self
  · rw [mem_singleton.mp hmem]

theorem chainTime_cut (ha : a ∈ settle pre) (hb : b ∈ settleAfter pre post) :
    a.chainTimeMs ≤ b.chainTimeMs := by
  have hpairs := chainTime_settle (pre ++ post)
  rw [settle_append] at hpairs
  exact (pairwise_append.mp hpairs).2.2 a ha b hb

theorem RolledBack.chainTime_post
    (hb : b ∈ settleAfter pre post) : r.first.chainTimeMs ≤ b.chainTimeMs := by
  obtain ⟨rest, hrest⟩ := head?_eq_some_iff.mp r.first_mem
  have hpairs := chainTime_settle (pre ++ post)
  rw [settle_append, hrest] at hpairs
  rw [hrest] at hb
  rcases mem_cons.mp hb with rfl | hmem
  · exact le_refl _
  · exact rel_of_pairwise_cons (pairwise_append.mp hpairs).2.1 hmem

/-- A day that the fork does not cut has all its blocks on one side. -/
theorem RolledBack.day_ne (hcut : r.last.day ≠ r.first.day) (ha : a ∈ settle pre) :
    a.day < r.first.day := by
  have hle : a.day ≤ r.last.day := dayOf_le (r.chainTime_pre ha)
  have hlast : r.last.day ≤ r.first.day :=
    dayOf_le (chainTime_cut r.last_mem_settle r.first_mem_settleAfter)
  omega

/-! ## Swept rows -/

section Swept

variable {K V : Type} [Ord K] [Std.TransOrd K] [Std.LawfulEqOrd K] [DecidableEq K] {k : K}
variable {time : SettledBlock → Int} {bucket : K → Int} {repair : K → V → Except String (Option V)}
variable {stored swept : ExtTreeMap K V}
variable (h : sweep (fun k => decide (time r.first ≤ bucket k))
  (repairIf (decide (r.last.day = r.first.day)) repair) stored = .ok swept)

include h

theorem RolledBack.repaired {v : V} (hk : stored[k]? = some v) (hbucket : bucket k = time r.first)
    (hcut : r.last.day = r.first.day) : repair k v = .ok swept[k]? := by
  have hstep := sweep_repaired h hk (by simp [hbucket])
  rwa [repairIf, if_pos (by simpa using hcut)] at hstep

/-- In every other bucket a row is left if it has a surviving block: it then has no orphaned one. -/
theorem RolledBack.getElem?_swept {part : Option V}
    (htime : ∀ {a b : SettledBlock}, a.chainTimeMs ≤ b.chainTimeMs → time a ≤ time b)
    (hday : ∀ {a : SettledBlock}, time a = time r.first → a.day = r.first.day)
    (hrepair : bucket k ≠ time r.first → ∀ v, repair k v = .ok none)
    (hkept : (∀ b ∈ settleAfter pre post, time b ≠ bucket k) → stored[k]? = part)
    (hdropped : (∀ a ∈ settle pre, time a ≠ bucket k) → part = none)
    (hcut : ¬ (bucket k = time r.first ∧ r.last.day = r.first.day)) : swept[k]? = part := by
  rcases lt_or_ge (bucket k) (time r.first) with hlt | hge
  · rw [sweep_kept h (by simpa using hlt)]
    refine hkept fun b hb => ?_
    have := htime (r.chainTime_post hb)
    omega
  · rw [sweep_later h (by simpa using hge) fun hpartial =>
      hrepair fun heq => hcut ⟨heq, by simpa using hpartial⟩, hdropped]
    intro a ha heq
    have hle := htime (chainTime_cut ha r.first_mem_settleAfter)
    have hsame := hday (show time a = time r.first by omega)
    have hlt := r.day_ne (fun hlast => hcut ⟨by omega, hlast⟩) ha
    omega

end Swept

/-- A store that has indexed `pre ++ post` and is rolled back to the end of `pre`, beside a store that
has only indexed `pre`, each in whatever batches. -/
structure Reorg (difficulty : Nat → Nat) (baseline : Option Int) (pre post : List ParsedBlock)
    (s s' : StatsStore) (rows : ChainStatsRows) : Prop where
  valid : ChainValid (pre ++ post)
  survivors : pre ≠ []
  orphans : post ≠ []
  indexed : ∃ batches : List (List ParsedBlock), batches.flatten = pre ++ post ∧
    liveRun difficulty { baseline := baseline } batches = .ok s
  survived : ∃ batches : List (List ParsedBlock), batches.flatten = pre ∧
    liveRun difficulty { baseline := baseline } batches = .ok s'
  rollback : ∃ contexts, contexts.Subperm ((chainTxs post).map fun e => e.2.undoContext) ∧
    rollbackChainStats difficulty s contexts (forkPoint pre) = .ok rows

/-- The rows of the two stores, and what the rollback does. -/
theorem Reorg.states {s' : StatsStore} (h : Reorg difficulty baseline pre post s s' rows) :
    LiveState difficulty baseline (pre ++ post) s ∧ LiveState difficulty baseline pre s' ∧
      Nonempty (RolledBack difficulty pre post s rows) := by
  obtain ⟨full, hfull, hs⟩ := h.indexed
  obtain ⟨part, hpart, hs'⟩ := h.survived
  obtain ⟨contexts, hcontexts, hrows⟩ := h.rollback
  have hstate := liveRun_state (hfull ▸ h.valid) hs
  have hstate' := liveRun_state (hpart ▸ h.valid.take) hs'
  rw [hfull] at hstate
  rw [hpart] at hstate'
  exact ⟨hstate, hstate', rollbackChainStats_eq_ok hstate.toLiveCore h.valid h.survivors h.orphans
    hcontexts hrows⟩

end Rollback

end Ckbadger.Sync
