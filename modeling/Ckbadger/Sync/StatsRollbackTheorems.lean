/-
Ckbadger.Sync.StatsRollbackTheorems — the deltas a rollback collects.

The header loop takes back exactly the shares that the writer had folded in for the
orphaned blocks.
-/
import Ckbadger.Sync.LiveStatsRun
import Ckbadger.Sync.StatsRollback

namespace Ckbadger.Sync

open Lib Lib.KeyedFold Common Std SettledBlock List

variable {b : SettledBlock} {st : HeaderLoop} {s : StatsStore} {rollbackTo : Int}
variable {difficulty : Nat → Nat} {bs : List SettledBlock}

/-! ## Shares of orphaned blocks -/

def uncleShares (bs : List SettledBlock) : List (Int × Int) :=
  bs.map fun b => (b.day, b.block.unclesCount)

def workShares (difficulty : Nat → Nat) (bs : List SettledBlock) : List (Int × Nat) :=
  bs.map fun b => (b.day, difficulty b.block.compactTarget)

def minerBlockShares (bs : List SettledBlock) : List (MinerKey × Unit) :=
  (minerShares bs).map fun e => (e.1, ())

def epochTxShares (bs : List SettledBlock) : List (Int × Int) :=
  bs.map fun b => (b.block.epochNumber, b.block.transactionsCount)

/-- The row of a settled block. -/
def SettledBlock.stored (b : SettledBlock) : StoredBlock := b.block.stored b.chainTimeMs

/-! ## One header -/

/-- The deltas after a header are those before it with the block's shares folded in. -/
structure HeaderStep (difficulty : Nat → Nat) (s : StatsStore) (st st' : HeaderLoop)
    (b : SettledBlock) : Prop where
  uncles : collect (keep addOrphanUncles) st.deltas.dateUncles (uncleShares [b])
    = .ok st'.deltas.dateUncles
  work : collect (keep addOrphanWork) st.deltas.dateDifficulty (workShares difficulty [b])
    = .ok st'.deltas.dateDifficulty
  miner : collect (keep addOrphanMinerBlock) st.deltas.miner (minerBlockShares [b])
    = .ok st'.deltas.miner
  interval : collect (keep addOrphanInterval) st.deltas.dateBlockTime
    (intervalShares (st.prevHeader.map Prod.snd) [b]) = .ok st'.deltas.dateBlockTime
  blockTime : collect (keep (addRemovedSample "block-time")) st.deltas.removedBlockTime
    (blockTimeShares (st.prevHeader.map Prod.snd) [b]) = .ok st'.deltas.removedBlockTime
  epochTxs : collect (keep addOrphanTxs) st.deltas.epochTxRemoved (epochTxShares [b])
    = .ok st'.deltas.epochTxRemoved
  epochTime : ∀ start, (b.block.epochIndex = 0 →
      priorEpochStart s st.previousEpochStart b.block.number = .ok start) →
    collect (keep (addRemovedSample "epoch")) st.deltas.removedEpochTime (b.epochTimeShare start)
      = .ok st'.deltas.removedEpochTime
  previousEpochStart : st'.previousEpochStart = nextEpochStart st.previousEpochStart b
  prevHeader : st'.prevHeader = some (b.block.number, b.chainTimeMs)

theorem rollbackMiner_eq_ok {m m' : ExtTreeMap MinerKey Int}
    (h : rollbackMiner m b.stored.header b.day = .ok m') :
    collect (keep addOrphanMinerBlock) m (minerBlockShares [b]) = .ok m' := by
  have hheader : b.stored.header.minerLockHash = b.block.minerLockHash := rfl
  unfold rollbackMiner at h
  rw [hheader] at h
  rw [minerBlockShares, minerShares, flatMap_cons, flatMap_nil, minerShare]
  cases hminer : b.block.minerLockHash with
  | none =>
    rw [hminer] at h
    cases h
    rfl
  | some miner =>
    rw [hminer] at h
    exact collect_singleton_of_upsert h

theorem blockTimeToBucket_eq_ok {deltaMs bucket : Int} (hnonneg : 0 ≤ deltaMs)
    (h : blockTimeToBucket (deltaMs / 1000) = .ok bucket) : bucket = intervalBucket deltaMs := by
  unfold blockTimeToBucket at h
  rw [if_neg (by omega)] at h
  unfold intervalBucket
  split at h
  · cases h
    omega
  · cases h
    omega

theorem rollbackInterval_eq_ok {r : ExtTreeMap Int (Int × Int) × ExtTreeMap Int Int}
    (h : rollbackInterval rollbackTo st b.block.number b.chainTimeMs b.day = .ok r) :
    collect (keep addOrphanInterval) st.deltas.dateBlockTime
        (intervalShares (st.prevHeader.map Prod.snd) [b]) = .ok r.1 ∧
      collect (keep (addRemovedSample "block-time")) st.deltas.removedBlockTime
        (blockTimeShares (st.prevHeader.map Prod.snd) [b]) = .ok r.2 := by
  unfold rollbackInterval at h
  cases hprev : st.prevHeader with
  | none =>
    rw [hprev] at h
    cases h
    exact ⟨rfl, rfl⟩
  | some prev =>
    rw [hprev] at h
    simp only at h
    split at h
    · split at h
      · cases h
      · obtain ⟨times, htimes, h⟩ := bind_eq_ok.mp h
        obtain ⟨bucket, hbucket, h⟩ := bind_eq_ok.mp h
        obtain ⟨removed, hremoved, h⟩ := bind_eq_ok.mp h
        obtain rfl := Except.ok.inj h
        rw [blockTimeToBucket_eq_ok (by omega) hbucket] at hremoved
        exact ⟨collect_singleton_of_upsert htimes, collect_singleton_of_upsert hremoved⟩
    · cases h

theorem removeEpochSample_eq_ok {removed removed' : ExtTreeMap Int Int}
    {start : Option (Int × Int)} (hzero : b.block.epochIndex = 0)
    (h : removeEpochSample removed start b.block.number b.stored.header = .ok removed') :
    collect (keep (addRemovedSample "epoch")) removed (b.epochTimeShare start) = .ok removed' := by
  have hnumber : b.stored.header.epochNumber = b.block.epochNumber := rfl
  have htime : b.stored.header.chainTimeMs = b.chainTimeMs := rfl
  unfold removeEpochSample at h
  rw [hnumber, htime] at h
  unfold epochTimeShare
  split at h
  · rename_i hpos
    rw [if_pos ⟨hzero, hpos⟩]
    cases start with
    | none => cases h
    | some start =>
      simp only at h
      split at h
      · rename_i hnext
        obtain ⟨bucket, hbucket, h⟩ := bind_eq_ok.mp h
        rw [epochTimeBucket_eq_ok hbucket] at h
        simpa [hnext] using collect_singleton_of_upsert h
      · rename_i hnext
        cases h
        simp [hnext]
  · rename_i hpos
    rw [if_neg (fun hboth => hpos hboth.2)]
    cases h
    rfl

/-- The epoch part: an epoch start takes back the sample of the epoch it had closed. -/
theorem rollbackEpochStart_eq_ok {r : ExtTreeMap Int Int × Option (Int × Int)}
    (h : rollbackEpochStart s st b.block.number b.stored.header = .ok r) :
    (∀ start, (b.block.epochIndex = 0 →
        priorEpochStart s st.previousEpochStart b.block.number = .ok start) →
      collect (keep (addRemovedSample "epoch")) st.deltas.removedEpochTime (b.epochTimeShare start)
        = .ok r.1) ∧
      r.2 = nextEpochStart st.previousEpochStart b := by
  have hindex : b.stored.header.epochIndex = b.block.epochIndex := rfl
  unfold rollbackEpochStart at h
  rw [hindex] at h
  unfold nextEpochStart
  split at h
  · rename_i hzero
    obtain ⟨prior, hprior, h⟩ := bind_eq_ok.mp h
    obtain ⟨removed, hremoved, h⟩ := bind_eq_ok.mp h
    obtain rfl := Except.ok.inj h
    constructor
    · intro start hstart
      obtain rfl := Except.ok.inj (hprior.symm.trans (hstart hzero))
      exact removeEpochSample_eq_ok hzero hremoved
    · rw [if_pos hzero]
      rfl
  · rename_i hne
    obtain rfl := Except.ok.inj h
    constructor
    · intro start _
      unfold epochTimeShare
      rw [if_neg fun hboth => hne hboth.1]
      rfl
    · rw [if_neg hne]

theorem rollbackHeader_eq_ok {st' : HeaderLoop}
    (h : rollbackHeader difficulty s rollbackTo st b.stored = .ok st') :
    HeaderStep difficulty s st st' b := by
  obtain ⟨date, hdate, h⟩ := bind_eq_ok.mp h
  obtain rfl : date = b.day := statsDay_eq_ok hdate
  obtain ⟨work, hwork, h⟩ := bind_eq_ok.mp h
  obtain rfl : work = difficulty b.block.compactTarget :=
    compactDifficulty_eq_ok (withContext_eq_ok.mp hwork)
  simp only [bind_eq_ok, return_eq_ok] at h
  obtain ⟨works, hworks, -, -, epoch, hepoch, uncles, huncles, miner, hminer, interval, hinterval,
    -, -, txs, htxs, rfl⟩ := h
  obtain ⟨hepochTime, hstart⟩ := rollbackEpochStart_eq_ok hepoch
  obtain ⟨hgaps, hsamples⟩ := rollbackInterval_eq_ok hinterval
  exact {
    uncles := collect_singleton_of_upsert huncles
    work := collect_singleton_of_upsert hworks
    miner := rollbackMiner_eq_ok hminer
    interval := hgaps
    blockTime := hsamples
    epochTxs := collect_singleton_of_upsert htxs
    epochTime := hepochTime
    previousEpochStart := hstart
    prevHeader := rfl }

/-! ## The loop -/

/-- The deltas after some orphaned blocks are their shares, folded in from nothing. -/
structure HeadersRolledBack (difficulty : Nat → Nat) (previous : Option Int)
    (bs : List SettledBlock) (st : HeaderLoop) : Prop where
  uncles : collect (keep addOrphanUncles) ∅ (uncleShares bs) = .ok st.deltas.dateUncles
  work : collect (keep addOrphanWork) ∅ (workShares difficulty bs) = .ok st.deltas.dateDifficulty
  miner : collect (keep addOrphanMinerBlock) ∅ (minerBlockShares bs) = .ok st.deltas.miner
  interval : collect (keep addOrphanInterval) ∅ (intervalShares previous bs)
    = .ok st.deltas.dateBlockTime
  blockTime : collect (keep (addRemovedSample "block-time")) ∅ (blockTimeShares previous bs)
    = .ok st.deltas.removedBlockTime
  epochTxs : collect (keep addOrphanTxs) ∅ (epochTxShares bs) = .ok st.deltas.epochTxRemoved
  previousEpochStart : st.previousEpochStart = lastEpochStart none bs
  prevHeader : st.prevHeader.map Prod.snd = lastChainTime previous bs

theorem HeadersRolledBack.concat {previous : Option Int} {st' : HeaderLoop}
    (h : HeadersRolledBack difficulty previous bs st) (hb : HeaderStep difficulty s st st' b) :
    HeadersRolledBack difficulty previous (bs ++ [b]) st' where
  uncles := by
    rw [uncleShares, map_append]
    exact collect_append_eq_ok.mpr ⟨_, h.uncles, hb.uncles⟩
  work := by
    rw [workShares, map_append]
    exact collect_append_eq_ok.mpr ⟨_, h.work, hb.work⟩
  miner := by
    rw [minerBlockShares, minerShares_append, map_append]
    exact collect_append_eq_ok.mpr ⟨_, h.miner, hb.miner⟩
  interval := by
    rw [intervalShares_append, ← h.prevHeader]
    exact collect_append_eq_ok.mpr ⟨_, h.interval, hb.interval⟩
  blockTime := by
    rw [blockTimeShares_append, ← h.prevHeader]
    exact collect_append_eq_ok.mpr ⟨_, h.blockTime, hb.blockTime⟩
  epochTxs := by
    rw [epochTxShares, map_append]
    exact collect_append_eq_ok.mpr ⟨_, h.epochTxs, hb.epochTxs⟩
  previousEpochStart := by
    rw [lastEpochStart_append, ← h.previousEpochStart, hb.previousEpochStart]
    rfl
  prevHeader := by
    rw [lastChainTime_append, hb.prevHeader]
    rfl

theorem rollbackHeaders_eq_ok {prev : Option (Int × Int)}
    (h : (bs.map stored).foldlM (rollbackHeader difficulty s rollbackTo)
      { prevHeader := prev } = .ok st) :
    HeadersRolledBack difficulty (prev.map Prod.snd) bs st := by
  induction bs using List.reverseRecOn generalizing st with
  | nil =>
    cases h
    exact ⟨rfl, rfl, rfl, rfl, rfl, rfl, rfl, by cases prev <;> rfl⟩
  | append_singleton bs b ih =>
    rw [map_append] at h
    obtain ⟨u, hu, hu'⟩ := foldlM_concat_eq_ok.mp h
    exact (ih hu).concat (rollbackHeader_eq_ok hu')

/-! ## Epoch starts before the fork point -/

theorem lastEpochStart_or (start : Option (Int × Int)) (bs : List SettledBlock) :
    lastEpochStart start bs = (lastEpochStart none bs).or start := by
  induction bs using List.reverseRecOn with
  | nil => cases start <;> rfl
  | append_singleton bs b ih =>
    rw [lastEpochStart_append, lastEpochStart_append]
    show nextEpochStart _ b = (nextEpochStart _ b).or start
    unfold nextEpochStart
    split
    · rfl
    · exact ih

/-- Walking the headers down finds the epoch that began last. -/
theorem LiveCore.findEpochStart {baseline : Option Int} {chain : List ParsedBlock}
    (h : LiveCore baseline chain s) (hvalid : ChainValid chain) (rollbackBlock : Int) (n : Nat)
    (hn : n ≤ (settle chain).length) :
    Sync.findEpochStart s rollbackBlock n = .ok (lastEpochStart none ((settle chain).take n)) := by
  induction n with
  | zero => rfl
  | succ n ih =>
    have hget := getElem?_eq_getElem (l := settle chain) (i := n) (by omega)
    unfold Sync.findEpochStart
    rw [h.getBlockHeader hvalid]
    rw [take_add_one, hget, lastEpochStart_append]
    show (if (settle chain)[n].block.epochIndex = 0 then _ else _)
      = Except.ok (nextEpochStart _ (settle chain)[n])
    unfold nextEpochStart
    split
    · rfl
    · exact ih (by omega)

section EpochTime

variable {baseline : Option Int} {pre post : List ParsedBlock}

/-- The epoch samples taken back are those the orphaned blocks had added. -/
theorem LiveCore.removedEpochTime (hcore : LiveCore baseline (pre ++ post) s)
    (hvalid : ChainValid (pre ++ post)) {prev : Option (Int × Int)}
    {rest : List SettledBlock} (hsplit : settleAfter pre post = bs ++ rest)
    (h : (bs.map stored).foldlM (rollbackHeader difficulty s rollbackTo)
      { prevHeader := prev } = .ok st) :
    collect (keep (addRemovedSample "epoch")) ∅
      (epochTimeShares (lastEpochStart none (settle pre)) bs) = .ok st.deltas.removedEpochTime := by
  induction bs using List.reverseRecOn generalizing st rest with
  | nil =>
    cases h
    rfl
  | append_singleton bs b ih =>
    rw [map_append] at h
    obtain ⟨u, hu, hu'⟩ := foldlM_concat_eq_ok.mp h
    rw [append_assoc] at hsplit
    have hbefore := ih hsplit hu
    have hstep := rollbackHeader_eq_ok hu'
    have hstart := (rollbackHeaders_eq_ok hu).previousEpochStart
    rw [epochTimeShares_append]
    refine collect_append_eq_ok.mpr ⟨_, hbefore, ?_⟩
    rw [epochTimeShares, epochTimeShares, append_nil]
    refine hstep.epochTime _ ?_
    intro hzero
    -- the block stands after the chain before the fork point and the orphaned ones seen so far
    have hsettle : settle (pre ++ post) = (settle pre ++ bs) ++ b :: rest := by
      rw [settle_append, hsplit]
      simp
    have hnumber : b.block.number = ((settle pre ++ bs).length : Nat) := by
      have hget := hvalid.number_settle (settle pre ++ bs).length (by rw [hsettle]; simp)
      simpa [hsettle] using hget
    rw [hstart, lastEpochStart_or (lastEpochStart none (settle pre)) bs]
    unfold priorEpochStart
    cases hlast : lastEpochStart none bs with
    | some start => rfl
    | none =>
      simp only [Option.none_or]
      by_cases hpos : 0 < b.block.number
      · rw [if_pos hpos, hnumber, Int.toNat_natCast,
          hcore.findEpochStart hvalid _ _ (by rw [hsettle]; simp), hsettle, take_left,
          lastEpochStart_append, lastEpochStart_or (lastEpochStart none (settle pre)) bs, hlast]
        rfl
      · rw [if_neg hpos]
        have hnil : settle pre = [] := by
          rw [hnumber, length_append] at hpos
          exact length_eq_zero_iff.mp (by omega)
        rw [hnil]
        rfl

end EpochTime

end Ckbadger.Sync
