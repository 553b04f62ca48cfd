/-
Ckbadger.Bulk.DaoOwnerTheorems — the bulk reducer follows the steps of a chain.

The reducer's deposits are the rows, its open requests are the rows of the request index
whose deposit is still waiting, and its count for a lock is the number of active deposits
under it (`DaoOwner.Follows`). So no transaction of a valid chain is refused, and what the
reducer seals at the end are the rows the live writer commits, in whatever batches.
Exactly the deposits of the chain have a row, which moves on by the steps of its life.
-/
import Ckbadger.Bulk.DaoOwner
import Ckbadger.Writer.DaoLive

namespace Ckbadger.Bulk

open Lib Ckbadger.Parser Store Sync Writer Std ExtTreeMap DaoCellView List

/-! ## Cells -/

/-- The state of a well-formed DAO cell. -/
def stateOf (cell : DaoCell) : DaoCellState :=
  (parseDepositBlockNumber cell.data).elim .deposit fun n => .withdrawRequest n

/-- The view of a well-formed cell. -/
def viewOf (outpoint : DaoOutPoint) (cell : DaoCell) : Option DaoCellView :=
  if cell.isDao then
    some ⟨outpoint, cell.lockScriptHash, cell.capacity, cell.occupied, stateOf cell⟩
  else none

theorem DaoCellView.fromParts_eq_ok {outpoint : DaoOutPoint} {cell : DaoCell}
    (hwf : cell.isDao = true → WellFormedDaoCell cell ∧
      ∀ n ∈ parseDepositBlockNumber cell.data, n < 2 ^ 63) :
    fromParts outpoint cell = .ok (viewOf outpoint cell) := by
  unfold fromParts viewOf
  cases hdao : cell.isDao with
  | false => rfl
  | true =>
    obtain ⟨hwf, hsmall⟩ := hwf hdao
    simp only [if_true, bind_eq_ok, parseBulkDaoCellState, hwf.parseDaoState_eq,
      hwf.occupiedCapacity_eq.1, Except.ok.injEq, exists_eq_left', return_eq_ok]
    refine ⟨stateOf cell, ?_, rfl⟩
    cases hdata : parseDepositBlockNumber cell.data with
    | none => simp [stateOf, hdata]
    | some n =>
      have hn : n < 2 ^ 63 := hsmall n hdata
      simp only [Option.isNone_some, Bool.false_eq_true, if_false, exists_eq_left', bind_eq_ok,
        required_eq_ok, Option.some.injEq, ensure_eq_ok, return_eq_ok]
      exact ⟨(), hn, by simp [stateOf, hdata]⟩

/-! ## Bumps -/

theorem abs_le_of_capacity {c : Int} (h : 0 ≤ c ∧ c < 2 ^ 63) : |c| ≤ 2 ^ 63 := by
  rw [abs_of_nonneg h.1]
  exact h.2.le

/-- One more number of the size of a capacity. -/
theorem abs_add_le_succ {a c : Int} {n : Nat} (h : |a| ≤ n * 2 ^ 63) (hc : |c| ≤ 2 ^ 63) :
    |a + c| ≤ (n + 1 : Nat) * 2 ^ 63 := by
  calc |a + c| ≤ |a| + |c| := abs_add_le _ _
    _ ≤ n * 2 ^ 63 + 2 ^ 63 := Int.add_le_add h hc
    _ = (n + 1 : Nat) * 2 ^ 63 := by push_cast; ring

theorem fits_of_abs_le {a : Int} {n : Nat} (h : |a| ≤ n * 2 ^ 63) (hn : n < 2 ^ 63) :
    -2 ^ 127 ≤ a ∧ a < 2 ^ 127 := by
  have hlt : |a| < 2 ^ 127 := by
    refine h.trans_lt ?_
    calc (n : Int) * 2 ^ 63 < 2 ^ 63 * 2 ^ 63 := by
          refine (Int.mul_lt_mul_right (by decide)).mpr ?_
          exact_mod_cast hn
      _ ≤ 2 ^ 127 := by decide
  rw [abs_lt] at hlt
  exact ⟨hlt.1.le, hlt.2⟩

section Bumps

variable {target : ExtTreeMap Int Int} {delta : Int} {n : Nat} (date : Int)

theorem bumpDailyI128_eq_ok (h : ∀ day, |tally target day| ≤ n * 2 ^ 63) (hdelta : |delta| ≤ 2 ^ 63)
    (hn : n + 1 < 2 ^ 63) :
    ∃ target', bumpDailyI128 target date delta = .ok target' ∧
      ∀ day, |tally target' day| ≤ (n + 1 : Nat) * 2 ^ 63 := by
  have hnext := fun day => abs_add_le_succ (h day) hdelta
  have hsame : ∀ day, |tally target day| ≤ (n + 1 : Nat) * 2 ^ 63 := fun day => by
    simpa using abs_add_le_succ (h day) (show |(0 : Int)| ≤ 2 ^ 63 by decide)
  unfold bumpDailyI128
  split
  · exact ⟨target, rfl, hsame⟩
  · refine ⟨addDaily target date delta, ?_, fun day => ?_⟩
    · simp only [bind_eq_ok, checked_eq_ok, fitsSignedBits, decide_eq_true_eq]
      exact ⟨_, ⟨fits_of_abs_le (hnext date) hn, rfl⟩, rfl⟩
    · rw [tally_addDaily]
      split
      · exact hnext day
      · simpa using hsame day

theorem bumpDailyI64_one (h : ∀ day, 0 ≤ tally target day ∧ tally target day ≤ n)
    (hn : n + 1 < 2 ^ 63) :
    ∃ target', bumpDailyI64 target date 1 = .ok target' ∧
      ∀ day, 0 ≤ tally target' day ∧ tally target' day ≤ (n + 1 : Nat) := by
  refine ⟨addDaily target date 1, ?_, fun day => ?_⟩
  · have hdate := h date
    simp only [bumpDailyI64, one_ne_zero, if_false, bind_eq_ok, checked_eq_ok, ensure_eq_ok,
      fitsSignedBits, decide_eq_true_eq]
    exact ⟨_, ⟨⟨by omega, by omega⟩, rfl⟩, (), by omega, rfl⟩
  · have hday := h day
    rw [tally_addDaily]
    split <;> push_cast <;> omega

theorem bumpActiveDepositorCount_eq_ok {counts : ExtTreeMap Bytes Int} {lockHash : Bytes}
    (h : 0 ≤ tally counts lockHash + delta) (hle : ∀ lock, tally counts lock ≤ n) (hdelta : delta ≤ 1)
    (hn : n + 1 < 2 ^ 63) :
    ∃ counts' unique', bumpActiveDepositorCount counts target date lockHash delta
        = .ok (counts', unique') ∧
      (∀ lock, tally counts' lock = tally counts lock + if lockHash = lock then delta else 0) ∧
      ∀ lock, tally counts' lock ≤ (n + 1 : Nat) := by
  have hbound : ∀ lock, (tally counts lock + if lockHash = lock then delta else 0) ≤ (n + 1 : Nat) := by
    intro lock
    have hlock := hle lock
    split <;> push_cast <;> omega
  unfold bumpActiveDepositorCount
  split
  · rename_i hzero
    refine ⟨counts, target, rfl, fun lock => by simp [hzero], fun lock => ?_⟩
    simpa [hzero] using hbound lock
  · have hlock := hle lockHash
    simp only [bind_eq_ok, checked_eq_ok, ensure_eq_ok, return_eq_ok, fitsSignedBits,
      decide_eq_true_eq, Prod.mk.injEq]
    have htally : ∀ lock, tally (counts.insert lockHash (tally counts lockHash + delta)) lock
        = tally counts lock + if lockHash = lock then delta else 0 := by
      intro lock
      rw [tally_insert]
      split
      · rename_i heq
        rw [heq]
      · simp
    exact ⟨_, _, ⟨_, ⟨⟨by omega, by omega⟩, rfl⟩, (), h, rfl, rfl⟩, htally,
      fun lock => (htally lock).trans_le (hbound lock)⟩

end Bumps

/-! ## The reducer and the rows -/

/-- Whether a row is an active deposit under a lock. -/
def activeWeight (lock : Bytes) (_ : DaoOutPoint) (entry : DaoDepositCacheEntry) : Int :=
  if entry.status = 0 ∧ entry.lockScriptHash = lock then 1 else 0

theorem activeWeight_nonneg (lock : Bytes) (o : DaoOutPoint) (entry : DaoDepositCacheEntry) :
    0 ≤ activeWeight lock o entry := by
  unfold activeWeight
  split <;> simp

/-- The number of active deposits under a lock. -/
def activeCount (rows : DaoRows) (lock : Bytes) : Int := mapSum (activeWeight lock) rows.deposits

namespace DaoOwner

/-- After n cells the counters of the reducer are this small. -/
structure Bounded (n : Nat) (owner : DaoOwner) : Prop where
  active : ∀ day, |tally owner.daily.active day| ≤ n * 2 ^ 63
  protocol : ∀ day, |tally owner.daily.protocol day| ≤ n * 2 ^ 63
  grossDeposit : ∀ day, |tally owner.daily.grossDeposit day| ≤ n * 2 ^ 63
  newDeposits : ∀ day, 0 ≤ tally owner.daily.newDeposits day ∧
    tally owner.daily.newDeposits day ≤ n
  withdrawals : ∀ day, 0 ≤ tally owner.daily.withdrawals day ∧
    tally owner.daily.withdrawals day ≤ n
  counts : ∀ lock, tally owner.activeDepositCountsByLock lock ≤ n
  block : |owner.currentBlockProtocolDelta| ≤ n * 2 ^ 63

/-- The reducer stands for the rows. -/
structure Follows (n : Nat) (rows : DaoRows) (owner : DaoOwner) : Prop where
  deposits : owner.deposits = rows.deposits
  keys : ∀ o : DaoOutPoint, rows.deposits[o]? ≠ none → o.index < 2 ^ 15
  requests : ∀ k d : DaoOutPoint, owner.requestOutpoints[k]? = some d ↔
    rows.byWithdrawTx[k]? = some d ∧ ∃ entry, rows.deposits[d]? = some entry ∧ entry.status = 1
  counts : ∀ lock, tally owner.activeDepositCountsByLock lock = activeCount rows lock
  bounded : owner.Bounded n

/-! ### Frames of the reducer's bounds -/

theorem Bounded.mono {n m : Nat} {owner : DaoOwner} (h : owner.Bounded n) (hnm : n ≤ m) :
    owner.Bounded m := by
  have hcast : (n : Int) ≤ m := by exact_mod_cast hnm
  have hscaled : (n : Int) * 2 ^ 63 ≤ m * 2 ^ 63 := by omega
  refine ⟨fun day => (h.active day).trans hscaled, fun day => (h.protocol day).trans hscaled,
    fun day => (h.grossDeposit day).trans hscaled, fun day => ?_, fun day => ?_,
    fun lock => (h.counts lock).trans hcast, h.block.trans hscaled⟩
  · exact ⟨(h.newDeposits day).1, (h.newDeposits day).2.trans hcast⟩
  · exact ⟨(h.withdrawals day).1, (h.withdrawals day).2.trans hcast⟩

theorem Follows.mono {n m : Nat} {rows : DaoRows} {owner : DaoOwner} (h : owner.Follows n rows)
    (hnm : n ≤ m) : owner.Follows m rows :=
  ⟨h.deposits, h.keys, h.requests, h.counts, h.bounded.mono hnm⟩

theorem follows_empty : ({} : DaoOwner).Follows 0 {} where
  deposits := rfl
  keys := by simp
  requests := by simp
  counts := by simp [activeCount]
  bounded := ⟨by simp, by simp, by simp, by simp, by simp, by simp, by simp⟩

/-! ## Inputs -/

variable {arOf : Int → Nat} {seen : Hash32 → Prop} {live cells : LiveDaoCells} {tx : DaoTx}
  {rows rows' : DaoRows} {owner : DaoOwner} {n : Nat} {date : Int}

section Entry

variable (h : owner.Follows n rows) {entry : DaoDepositCacheEntry}

include h

theorem Follows.count_pos {o : DaoOutPoint} (hrow : rows.deposits[o]? = some entry)
    (hstatus : entry.status = 0) :
    1 ≤ tally owner.activeDepositCountsByLock entry.lockScriptHash := by
  rw [h.counts, activeCount, mapSum_eq_add_erase _ hrow]
  have hrest := mapSum_nonneg (activeWeight_nonneg entry.lockScriptHash) (rows.deposits.erase o)
  simp only [activeWeight, hstatus, and_self, if_true]
  omega

/-- Phase 1 in the reducer. -/
theorem Follows.applyWithdrawRequest_eq_ok (hn : n + 1 < 2 ^ 63)
    (htracked : DaoTracked arOf cells rows) (hrate : tx.blockDaoAr < 2 ^ 63)
    {outputs : List (Option DaoCellView)} {o : DaoOutPoint} {request : NewDaoOutput}
    {lock : Bytes} {view : DaoCellView} {i : Nat} (hrow : rows.deposits[o]? = some entry)
    (hstatus : entry.status = 0) (hcapacity : 0 ≤ entry.capacity ∧ entry.capacity < 2 ^ 63)
    (hview : view.state = .deposit) (houtpoint : request.outpoint = ⟨tx.hash, i⟩)
    (hi : i < 2 ^ 15)
    (hoffered : outputs[i]? = some (some ⟨request.outpoint, lock, request.capacity,
      request.occupiedCapacity, .withdrawRequest request.depositBlock⟩))
    (hsame : request.capacity = entry.capacity)
    (hblock : (request.depositBlock : Int) = entry.depositBlockNumber)
    (hnew : rows.byWithdrawTx[request.outpoint]? = none) :
    ∃ owner', owner.applyWithdrawRequest tx date outputs i o entry view = .ok owner' ∧
      owner'.Follows (n + 1)
        { deposits := rows.deposits.insert o (requestedEntry tx request entry)
          byWithdrawTx := rows.byWithdrawTx.insert request.outpoint o } := by
  have hfree : owner.requestOutpoints.contains request.outpoint = false := by
    rw [contains_eq_isSome_getElem?, Option.isSome_eq_false_iff, Option.isNone_iff_eq_none]
    by_contra hsome
    obtain ⟨d, hd⟩ := Option.ne_none_iff_exists'.mp hsome
    simp [((h.requests _ d).mp hd).1] at hnew
  have hpos := h.count_pos hrow hstatus
  obtain ⟨active, hactive, hactiveLe⟩ := bumpDailyI128_eq_ok date h.bounded.active
    ((abs_neg _).trans_le (abs_le_of_capacity hcapacity)) hn
  obtain ⟨counts, unique, hcounts, hcount, hcountLe⟩ := @bumpActiveDepositorCount_eq_ok
    owner.daily.uniqueDepositors (-1) n date owner.activeDepositCountsByLock entry.lockScriptHash
    (by omega) h.bounded.counts (by decide) hn
  refine ⟨{ owner with
    deposits := owner.deposits.insert o (requestedEntry tx request entry)
    requestOutpoints := owner.requestOutpoints.insert request.outpoint o
    daily := { owner.daily with active := active, uniqueDepositors := unique }
    activeDepositCountsByLock := counts }, ?_, ?_⟩
  · simp only [DaoOwner.applyWithdrawRequest, bind_eq_ok, ensure_eq_ok, required_eq_ok, return_eq_ok]
    refine ⟨(), hview, _, by simp only [hoffered, id_eq]; rfl, (),
      ⟨by rw [← hblock], hsame⟩, (), hrate, (), by rw [houtpoint]; exact hi, (), hfree, active, hactive,
      (counts, unique), hcounts, ?_⟩
    simp [requestedEntry, houtpoint]
  · refine ⟨by rw [h.deposits], forall_key_insert h.keys (h.keys o (by simp [hrow])) _, ?_, ?_,
      { h.bounded.mono (Nat.le_succ n) with active := hactiveLe, counts := hcountLe }⟩
    · intro k d
      rw [getElem?_insert_ite, getElem?_insert_ite, getElem?_insert_ite]
      by_cases hk : request.outpoint = k
      · rw [if_pos hk, if_pos hk]
        constructor
        · intro hd
          obtain rfl := Option.some.inj hd
          exact ⟨rfl, _, by rw [if_pos rfl], rfl⟩
        · exact And.left
      · rw [if_neg hk, if_neg hk, h.requests k d]
        exact and_congr_right fun hkd => by rw [if_neg (htracked.ne_of_active hrow hstatus hkd)]
    · intro lock'
      have hreplace := mapSum_insert_replace (activeWeight lock') hrow (requestedEntry tx request entry)
      have hsum := h.counts lock'
      rw [hcount lock', hsum]
      simp only [activeCount] at hreplace ⊢
      by_cases hlock : entry.lockScriptHash = lock'
      · simp only [activeWeight, requestedEntry, hstatus, hlock, and_self, if_true, one_ne_zero,
          false_and, if_false] at hreplace ⊢
        omega
      · simp only [activeWeight, requestedEntry, hlock, and_false, if_false] at hreplace ⊢
        omega

/-- Phase 2 in the reducer. -/
theorem Follows.applyWithdrawCompletion_eq_ok (hn : n + 1 < 2 ^ 63)
    (htracked : DaoTracked arOf cells rows) {outputs : DaoTxOutputs} {o d : DaoOutPoint}
    {requestBlock compensation : Int} {view : DaoCellView} (hrow : rows.deposits[d]? = some entry)
    (hstatus : entry.status = 1) (hcapacity : 0 ≤ entry.capacity ∧ entry.capacity < 2 ^ 63)
    (hview : view.state ≠ .deposit) (houtpoint : view.outpoint = o)
    (hd : rows.byWithdrawTx[o]? = some d)
    (hblock : entry.withdrawRequestBlock = some requestBlock)
    (hcompensation : daoFrozenRequestCompensation entry = .ok compensation) :
    ∃ owner', owner.applyWithdrawCompletion tx date outputs.withdrawToCandidates d entry view
        = .ok owner' ∧
      owner'.Follows (n + 1) { rows with
        deposits := rows.deposits.insert d (completedEntry tx outputs compensation entry) } := by
  obtain ⟨indexed, hindexed, -, htx, hidx⟩ := htracked.indexed o d hd
  obtain rfl := Option.mem_unique hrow hindexed
  have hsize : |(-entry.capacity)| ≤ 2 ^ 63 := (abs_neg _).trans_le (abs_le_of_capacity hcapacity)
  obtain ⟨withdrawals, hwithdrawals, hwithdrawalsLe⟩ := bumpDailyI64_one date h.bounded.withdrawals hn
  obtain ⟨protocol, hprotocol, hprotocolLe⟩ := bumpDailyI128_eq_ok date h.bounded.protocol hsize hn
  have hblockLe : |owner.currentBlockProtocolDelta - entry.capacity| ≤ (n + 1 : Nat) * 2 ^ 63 :=
    abs_add_le_succ h.bounded.block hsize
  refine ⟨{ owner with
    deposits := owner.deposits.insert d (completedEntry tx outputs compensation entry)
    requestOutpoints := owner.requestOutpoints.erase view.outpoint
    daily := { owner.daily with withdrawals := withdrawals, protocol := protocol }
    currentBlockProtocolDelta := owner.currentBlockProtocolDelta - entry.capacity }, ?_, ?_⟩
  · simp only [daoFrozenRequestCompensation, bind_eq_ok, required_eq_ok] at hcompensation
    obtain ⟨depositAr, hdepositAr, requestAr, hrequestAr, rate, hrate, occupied, hoccupied, hcalc⟩ :=
      hcompensation
    simp only [DaoOwner.applyWithdrawCompletion, bind_eq_ok, ensure_eq_ok, required_eq_ok,
      checked_eq_ok, fitsSignedBits, decide_eq_true_eq]
    refine ⟨(), hview, requestBlock, hblock, o.txHash, htx, o.index, hidx, depositAr,
      rateOf_eq_ok.mpr (rateOf_eq_ok.mp hdepositAr), requestAr, hrequestAr, rate,
      rateOf_eq_ok.mpr (rateOf_eq_ok.mp hrate), occupied, hoccupied, compensation, hcalc, withdrawals,
      hwithdrawals, protocol, hprotocol, _, ⟨fits_of_abs_le hblockLe hn, rfl⟩, ?_⟩
    simp [completedEntry, hidx]
  · refine ⟨by rw [h.deposits], forall_key_insert h.keys (h.keys d (by simp [hrow])) _, ?_, ?_,
      { h.bounded.mono (Nat.le_succ n) with
        protocol := hprotocolLe, withdrawals := hwithdrawalsLe, block := hblockLe }⟩
    · intro k d'
      rw [houtpoint, getElem?_erase_ite, getElem?_insert_ite]
      by_cases hk : o = k
      · subst hk
        rw [if_pos rfl]
        constructor
        · intro hnone
          cases hnone
        · rintro ⟨hkd, entry', hentry', hone⟩
          obtain rfl := Option.mem_unique hd hkd
          rw [if_pos rfl] at hentry'
          obtain rfl := Option.some.inj hentry'
          simp [completedEntry] at hone
      · rw [if_neg hk, h.requests k d']
        have hne : rows.byWithdrawTx[k]? = some d' → d ≠ d' := by
          rintro hkd rfl
          exact hk (htracked.request_injective hd hkd)
        exact and_congr_right fun hkd => by rw [if_neg (hne hkd)]
    · intro lock'
      have hreplace := mapSum_insert_replace (activeWeight lock') hrow
        (completedEntry tx outputs compensation entry)
      rw [h.counts lock']
      simp only [activeCount] at hreplace ⊢
      simp only [activeWeight, completedEntry] at hreplace ⊢
      omega

end Entry

/-- The views of the outputs of a transaction. -/
def viewsOf (tx : DaoTx) : List (Option DaoCellView) :=
  tx.outputs.zipIdx.map fun output => viewOf ⟨tx.hash, output.2⟩ output.1

theorem Follows.applyInput_eq_ok {live : LiveDaoCells} {input : DaoInput × Nat} {l : LiveDaoCell}
    (hvalid : ValidDaoTx arOf live tx) (h : owner.Follows n rows) (hn : n + 1 < 2 ^ 63)
    (hmid : Mid arOf seen live tx input.2 0 rows) (hspends : Spends arOf seen live tx input l)
    (hstep : SpendStep tx (outputsOf tx) rows input rows') :
    ∃ owner', applyInput tx date (viewsOf tx) (outputsOf tx).withdrawToCandidates owner input
        = .ok owner' ∧ owner'.Follows (n + 1) rows' := by
  have hcell := hspends.cell (n := 0) hmid.new
  have hview : fromParts input.1.outpoint input.1.cell
      = .ok (viewOf input.1.outpoint input.1.cell) := by
    refine fromParts_eq_ok fun hdao => ?_
    have hdated := hmid.tracked.dated _ l hcell (by rw [hspends.same, hdao])
    refine ⟨hspends.same ▸ hdated.wellFormed, fun m hm => ?_⟩
    have hlt := hdated.block.2
    have hle := (hdated.deposit m (by rw [hspends.same]; exact hm)).1
    omega
  simp only [applyInput, hview]
  cases hstep with
  | skipped hnot =>
    simp only [viewOf, hnot]
    exact ⟨owner, rfl, h.mono (Nat.le_succ n)⟩
  | requested entry request hisDao hrow hoffered hstatus hcapacity hblock =>
    have hdao : l.cell.isDao = true := by rw [hspends.same, hisDao]
    have hwf := (hmid.tracked.dated _ l hcell hdao).wellFormed
    obtain ⟨hdata, -, hentryCapacity, -⟩ := hmid.tracked.deposit_of_row hcell hdao hrow
    rw [hspends.same] at hdata
    obtain ⟨out, hout, houtDao, m, houtData, rfl⟩ := outputsOf_requests_eq_some.mp hoffered
    obtain ⟨hidx, -⟩ := List.getElem?_eq_some_iff.mp hout
    have hviews : (viewsOf tx)[input.2]? = some (some ⟨⟨tx.hash, input.2⟩, out.lockScriptHash,
        out.capacity, out.occupied, .withdrawRequest m⟩) := by
      simp [viewsOf, hout, viewOf, houtDao, stateOf, houtData]
    obtain ⟨owner', howner', hfollows⟩ := @applyWithdrawRequest_eq_ok arOf _ tx rows owner n date h entry
      hn hmid.tracked hvalid.rate.2.2 (viewsOf tx) input.1.outpoint
      ⟨⟨tx.hash, input.2⟩, out.capacity, out.occupied, m⟩ out.lockScriptHash
      ⟨input.1.outpoint, input.1.cell.lockScriptHash, input.1.cell.capacity, input.1.cell.occupied,
        stateOf input.1.cell⟩ input.2 hrow hstatus (hentryCapacity ▸ hwf.capacity_bounds)
      (by simp [stateOf, hdata]) rfl (hidx.trans_le hvalid.outputs) hviews hcapacity hblock
      hmid.request_free
    refine ⟨owner', ?_, hfollows⟩
    have horigin : owner.originOf input.1.outpoint = .ok input.1.outpoint := by
      simp [originOf, h.deposits, hrow, ensure, hstatus]
    simp only [viewOf, hisDao, if_true, horigin, ok_bind, h.deposits, hrow, required,
      Option.elim_some, hstatus]
    exact howner'
  | completed deposit entry requestBlock compensation hisDao hnone hdeposit hrow hstatus hblock hlater
      hcompensation =>
      have hdao : l.cell.isDao = true := by rw [hspends.same, hisDao]
      have hwf := (hmid.tracked.dated _ l hcell hdao).wellFormed
      obtain ⟨m, hdata⟩ : ∃ m, parseDepositBlockNumber input.1.cell.data = some m := by
        cases hdata : parseDepositBlockNumber input.1.cell.data with
        | none =>
          obtain ⟨-, entry', hentry', -⟩ :=
            hmid.tracked.deposit _ l hcell hdao (by rw [hspends.same, hdata])
          simp [hnone] at hentry'
        | some m => exact ⟨m, rfl⟩
      obtain ⟨-, d', entry', hd', hentry', -, -, -, -, -, -, hentryCapacity, -⟩ :=
        hmid.tracked.request _ l m hcell hdao (by rw [hspends.same, hdata])
      obtain rfl := Option.mem_unique hdeposit hd'
      obtain rfl := Option.mem_unique hrow hentry'
      obtain ⟨owner', howner', hfollows⟩ := @applyWithdrawCompletion_eq_ok arOf _ tx rows owner n date
        h entry hn hmid.tracked (outputsOf tx) input.1.outpoint deposit requestBlock compensation
        ⟨input.1.outpoint, input.1.cell.lockScriptHash, input.1.cell.capacity, input.1.cell.occupied,
          stateOf input.1.cell⟩ hrow hstatus (hentryCapacity ▸ hwf.capacity_bounds)
        (by simp [stateOf, hdata]) rfl hdeposit hblock hcompensation
      refine ⟨owner', ?_, hfollows⟩
      have horigin := (h.requests _ _).mpr ⟨hdeposit, entry, hrow, hstatus⟩
      simp only [viewOf, hisDao, if_true, originOf, h.deposits, hnone, horigin, ok_bind, hrow,
        required, Option.elim_some, hstatus]
      exact howner'

variable (date) in
theorem Follows.foldlM_applyInput_eq_ok {live : LiveDaoCells} {inputs : List DaoInput} {k : Nat}
    (hvalid : ValidDaoTx arOf live tx) (h : owner.Follows n rows) (hn : n + inputs.length < 2 ^ 63)
    (htrace : SpendTrace arOf seen live tx k rows inputs rows') :
    ∃ owner', (inputs.zipIdx k).foldlM (applyInput tx date (viewsOf tx)
        (outputsOf tx).withdrawToCandidates) owner = .ok owner' ∧
      owner'.Follows (n + inputs.length) rows' := by
  induction htrace generalizing owner n with
  | nil k rows => exact ⟨owner, rfl, h⟩
  | cons hmid hspends hstep _ ih =>
    rw [length_cons] at hn ⊢
    obtain ⟨mid, hfirst, hmidFollows⟩ := h.applyInput_eq_ok hvalid (by omega) hmid hspends hstep
    obtain ⟨owner', hrest, hfollows⟩ := ih hmidFollows (by omega)
    refine ⟨owner', foldlM_cons_eq_ok.mpr ⟨mid, hfirst, hrest⟩, ?_⟩
    rwa [Nat.add_right_comm, Nat.add_assoc] at hfollows

/-! ## New deposits -/

theorem Follows.applyDeposit_eq_ok (h : owner.Follows n rows) (hn : n + 1 < 2 ^ 63)
    (hrate : tx.blockDaoAr < 2 ^ 63) {deposit : ParsedDaoDeposit} {view : DaoCellView}
    (hview : view = ⟨⟨tx.hash, deposit.outputIndex⟩, deposit.lockScriptHash, deposit.capacity,
      deposit.occupiedCapacity, .deposit⟩)
    (hidx : deposit.outputIndex < 2 ^ 15) (hcapacity : 0 ≤ deposit.capacity ∧ deposit.capacity < 2 ^ 63)
    (hnew : rows.deposits[(⟨tx.hash, deposit.outputIndex⟩ : DaoOutPoint)]? = none)
    (hindexed : ∀ k : DaoOutPoint,
      rows.byWithdrawTx[k]? ≠ some (⟨tx.hash, deposit.outputIndex⟩ : DaoOutPoint)) :
    ∃ owner', applyDeposit tx date owner view = .ok owner' ∧
      owner'.Follows (n + 1) { rows with
        deposits := rows.deposits.insert ⟨tx.hash, deposit.outputIndex⟩ (depositEntry tx deposit) } := by
  subst hview
  have hsize := abs_le_of_capacity hcapacity
  have hcountNonneg : 0 ≤ tally owner.activeDepositCountsByLock deposit.lockScriptHash := by
    rw [h.counts]
    exact mapSum_nonneg (activeWeight_nonneg _) _
  obtain ⟨active, hactive, hactiveLe⟩ := bumpDailyI128_eq_ok date h.bounded.active hsize hn
  obtain ⟨protocol, hprotocol, hprotocolLe⟩ := bumpDailyI128_eq_ok date h.bounded.protocol hsize hn
  obtain ⟨gross, hgross, hgrossLe⟩ := bumpDailyI128_eq_ok date h.bounded.grossDeposit hsize hn
  obtain ⟨newDeposits, hnewDeposits, hnewLe⟩ := bumpDailyI64_one date h.bounded.newDeposits hn
  obtain ⟨counts, unique, hcounts, hcount, hcountLe⟩ := @bumpActiveDepositorCount_eq_ok
    owner.daily.uniqueDepositors 1 n date owner.activeDepositCountsByLock deposit.lockScriptHash
    (by omega) h.bounded.counts le_rfl hn
  have hblockLe := abs_add_le_succ h.bounded.block hsize
  have hfresh : owner.deposits.contains ⟨tx.hash, deposit.outputIndex⟩ = false := by
    rw [contains_eq_isSome_getElem?, h.deposits, hnew]
    rfl
  apply Exists.intro
  constructor
  · simp only [applyDeposit, bind_eq_ok, ensure_eq_ok, checked_eq_ok, fitsSignedBits,
      decide_eq_true_eq]
    exact ⟨(), hrate, (), hfresh, active, hactive, protocol, hprotocol, _,
      ⟨fits_of_abs_le hblockLe hn, rfl⟩, gross, hgross, newDeposits, hnewDeposits,
      (counts, unique), hcounts, rfl⟩
  · refine ⟨congrArg (insert · _ _) h.deposits, forall_key_insert h.keys hidx _, ?_, ?_,
      { h.bounded.mono (Nat.le_succ n) with
        active := hactiveLe, protocol := hprotocolLe, grossDeposit := hgrossLe
        newDeposits := hnewLe, counts := hcountLe, block := hblockLe }⟩
    · intro k d
      rw [h.requests k d, getElem?_insert_ite]
      refine and_congr_right fun hk => ?_
      rw [if_neg]
      rintro rfl
      exact hindexed k hk
    · intro lock
      rw [hcount lock, h.counts lock, activeCount, activeCount,
        mapSum_insert_new (activeWeight lock) hnew]
      simp only [activeWeight, depositEntry, true_and]
      omega

/-- The deposits among the views of some outputs. -/
def depositViews (txHash : Hash32) (outputs : List (DaoCell × Nat)) : List DaoCellView :=
  ((outputs.map fun output => viewOf ⟨txHash, output.2⟩ output.1).filterMap id).filter
    (·.state = .deposit)

theorem depositViews_cons (txHash : Hash32) (output : DaoCell × Nat) (outputs : List (DaoCell × Nat)) :
    depositViews txHash (output :: outputs)
      = ((depositOf output).map fun deposit => (⟨⟨txHash, deposit.outputIndex⟩, deposit.lockScriptHash,
          deposit.capacity, deposit.occupiedCapacity, .deposit⟩ : DaoCellView)).toList
        ++ depositViews txHash outputs := by
  cases hdao : output.1.isDao with
  | false => simp [viewOf, depositOf, DaoCell.holdsDeposit, hdao, depositViews]
  | true =>
    cases hdata : parseDepositBlockNumber output.1.data with
    | none | some m =>
      simp [viewOf, depositOf, DaoCell.holdsDeposit, hdao, hdata, stateOf, depositViews]

variable (date) in
theorem Follows.foldlM_applyDeposit_eq_ok {outputs : List (DaoCell × Nat)}
    (hvalid : ValidDaoTx arOf live tx) (hmem : ∀ output ∈ outputs, output ∈ tx.outputs.zipIdx)
    (h : owner.Follows n rows) (hn : n + outputs.length < 2 ^ 63)
    (hindexed : ∀ (k d : DaoOutPoint), rows.byWithdrawTx[k]? = some d → d.txHash ≠ tx.hash)
    (hsteps : DepositSteps tx rows (outputs.filterMap depositOf) rows') :
    ∃ owner', (depositViews tx.hash outputs).foldlM (applyDeposit tx date) owner = .ok owner' ∧
      owner'.Follows (n + outputs.length) rows' := by
  induction outputs generalizing owner n rows with
  | nil =>
    cases hsteps
    exact ⟨owner, rfl, h⟩
  | cons output outputs ih =>
    obtain ⟨houtput, hmem⟩ := forall_mem_cons.mp hmem
    rw [length_cons] at hn ⊢
    rw [depositViews_cons]
    cases hdeposit : depositOf output with
    | none =>
      rw [filterMap_cons, hdeposit] at hsteps
      obtain ⟨owner', hrest, hfollows⟩ := ih hmem h (by omega) hindexed hsteps
      exact ⟨owner', by simpa using hrest, hfollows.mono (by omega)⟩
    | some deposit =>
      obtain ⟨hdao, -, hshape⟩ := depositOf_eq_some hdeposit
      obtain ⟨-, hout, hidx⟩ := hvalid.mem_outputs houtput
      have hwf := hvalid.wellFormed _ hout hdao
      have hcapacity : 0 ≤ deposit.capacity ∧ deposit.capacity < 2 ^ 63 := by
        rw [hshape]
        exact hwf.capacity_bounds
      rw [filterMap_cons, hdeposit] at hsteps
      cases hsteps with
      | cons hnew hrest =>
        obtain ⟨mid, hfirst, hmid⟩ := @applyDeposit_eq_ok tx rows owner n date h (by omega)
          hvalid.rate.2.2 deposit _ rfl (by rw [hshape]; exact hidx) hcapacity hnew
          (fun k hk => hindexed k _ hk rfl)
        obtain ⟨owner', hrest, hfollows⟩ := ih hmem hmid (by omega) hindexed hrest
        refine ⟨owner', foldlM_cons_eq_ok.mpr ⟨mid, hfirst, hrest⟩, ?_⟩
        rwa [Nat.add_right_comm, Nat.add_assoc] at hfollows

/-! ## Whole transactions and chains -/

theorem mapM_withdrawToCandidate_eq_ok (hlen : tx.outputs.length ≤ 2 ^ 15) :
    (tx.outputs.zipIdx.filter (!·.1.isDao)).mapM withdrawToCandidate
      = .ok (outputsOf tx).withdrawToCandidates := by
  refine mapM_eq_ok_map fun output houtput => ?_
  obtain ⟨hidx, -⟩ := List.getElem?_eq_some_iff.mp
    (List.mem_zipIdx_iff_getElem?.mp (List.mem_of_mem_filter houtput))
  simp only [withdrawToCandidate, ensure, if_pos (hidx.trans_le hlen)]
  rfl

/-- The withdraw requests of a valid transaction name blocks that are machine integers. -/
theorem request_block_lt (hvalid : ValidDaoTx arOf live tx) (hknown : DaoKnown arOf seen live rows) :
    ∀ cell ∈ tx.outputs, cell.isDao = true → WellFormedDaoCell cell ∧
      ∀ n ∈ parseDepositBlockNumber cell.data, n < 2 ^ 63 := by
  intro cell hcell hdao
  refine ⟨hvalid.wellFormed cell hcell hdao, fun n hn => ?_⟩
  obtain ⟨i, hi⟩ := getElem?_of_mem hcell
  obtain ⟨input, hinput, hdeposit⟩ :=
    hvalid.paired_input hi (by simp [DaoCell.holdsRequest, hdao, Option.mem_def.mp hn])
  obtain ⟨l, hspends⟩ := @ValidDaoTx.spends _ _ _ _ (input, i) hvalid hknown.cellKeys hinput
  obtain ⟨out, m, hout, -, -, hm, hblock⟩ := hspends.requests hdeposit
  obtain rfl := Option.mem_unique hi hout
  obtain rfl := Option.some.inj ((Option.mem_def.mp hn).symm.trans hm)
  have hinputDao : l.cell.isDao = true := by
    simp only [DaoCell.holdsDeposit, Bool.and_eq_true] at hdeposit
    rw [hspends.same, hdeposit.1]
  have hlt := (hknown.tracked.dated _ l hspends.found hinputDao).block.2
  omega

theorem Follows.applyTx_eq_ok (h : owner.Follows n rows) (hknown : DaoKnown arOf seen live rows)
    (hn : n + (tx.inputs.length + tx.outputs.length) < 2 ^ 63)
    (htrace : TxTrace arOf seen live tx rows rows') :
    ∃ owner', applyTx owner tx = .ok owner' ∧
      owner'.Follows (n + (tx.inputs.length + tx.outputs.length)) rows' := by
  have hvalid := htrace.valid
  obtain ⟨mid, hspends, hmid, hdeposits⟩ := htrace.trace
  obtain ⟨date, hdate⟩ := exists_of_isOk hvalid.time.2.2
  have hlen' : tx.outputs.zipIdx.length = tx.outputs.length := by simp
  obtain ⟨midOwner, hinputs, hmidFollows⟩ := h.foldlM_applyInput_eq_ok date hvalid (by omega) hspends
  have hindexed : ∀ (k d : DaoOutPoint), mid.byWithdrawTx[k]? = some d → d.txHash ≠ tx.hash := by
    intro k d hk heq
    obtain ⟨entry, hentry, -⟩ := hmid.tracked.indexed k d hk
    have hfree := hmid.deposit_free (Nat.zero_le d.index)
    rw [← heq, hentry] at hfree
    cases hfree
  obtain ⟨owner', houtputs, hfollows⟩ := hmidFollows.foldlM_applyDeposit_eq_ok date hvalid
    (fun _ houtput => houtput) (by rw [hlen']; omega) hindexed hdeposits
  rw [hlen', Nat.add_assoc] at hfollows
  refine ⟨owner', ?_, hfollows⟩
  have hviews : (tx.outputs.zipIdx.mapM fun output =>
      fromParts ⟨tx.hash, output.2⟩ output.1) = .ok (viewsOf tx) :=
    mapM_eq_ok_map fun output houtput => fromParts_eq_ok
      (request_block_lt hvalid hknown _ (fst_mem_of_mem_zipIdx houtput))
  simp only [applyTx, bind_eq_ok]
  exact ⟨date, hdate, viewsOf tx, hviews, _, mapM_withdrawToCandidate_eq_ok hvalid.outputs, midOwner,
    hinputs, houtputs⟩

theorem Follows.foldlM_applyTx_eq_ok {txs : List DaoTx} (h : owner.Follows n rows)
    (hn : n + (txs.map fun tx => tx.inputs.length + tx.outputs.length).sum < 2 ^ 63)
    (htraces : DaoTraces arOf seen live rows txs rows') :
    ∃ owner' m, txs.foldlM applyTx owner = .ok owner' ∧ owner'.Follows m rows' := by
  induction htraces generalizing owner n with
  | nil _ => exact ⟨owner, n, rfl, h⟩
  | cons hknown htrace _ ih =>
    rw [map_cons, sum_cons] at hn
    obtain ⟨mid, hfirst, hmid⟩ := h.applyTx_eq_ok hknown (by omega) htrace
    obtain ⟨owner', m, hrest, hfollows⟩ := ih hmid (by omega)
    exact ⟨owner', m, foldlM_cons_eq_ok.mpr ⟨mid, hfirst, hrest⟩, hfollows⟩

/-! ## The sealed rows -/

/-- The row of the request index that a deposit gives. -/
def requestRowOf (row : DaoOutPoint × DaoDepositCacheEntry) : Option (DaoOutPoint × DaoOutPoint) :=
  if 1 ≤ row.2.status then
    row.2.withdrawRequestTx.bind fun requestTx =>
      row.2.withdrawRequestOutputIndex.map fun index => (⟨requestTx, index⟩, row.1)
  else none

theorem requestRowOf_snd {row : DaoOutPoint × DaoDepositCacheEntry} {r : DaoOutPoint × DaoOutPoint}
    (h : requestRowOf row = some r) : r.2 = row.1 := by
  simp only [requestRowOf, Option.ite_none_right_eq_some, Option.bind_eq_some_iff,
    Option.map_eq_some_iff] at h
  obtain ⟨-, requestTx, -, index, -, rfl⟩ := h
  rfl

theorem foldlM_emitDeposit_eq_ok {entries : List (DaoOutPoint × DaoDepositCacheEntry)}
    (hindex : ∀ row ∈ entries, row.1.index < 2 ^ 15)
    (hrequest : ∀ row ∈ entries, 1 ≤ row.2.status →
      row.2.withdrawRequestTx.isSome ∧ row.2.withdrawRequestOutputIndex.isSome) (rows : DaoRows) :
    entries.foldlM emitDeposit rows = .ok {
      deposits := entries.foldl (fun rows e => rows.insert e.1 e.2) rows.deposits
      byWithdrawTx := (entries.filterMap requestRowOf).foldl (fun rows e => rows.insert e.1 e.2)
        rows.byWithdrawTx } := by
  induction entries generalizing rows with
  | nil => rfl
  | cons row entries ih =>
    obtain ⟨hidx, hindex⟩ := forall_mem_cons.mp hindex
    obtain ⟨hfirst, hrequest⟩ := forall_mem_cons.mp hrequest
    refine foldlM_cons_eq_ok.mpr ?_
    by_cases hstatus : 1 ≤ row.2.status
    · obtain ⟨htx, hoidx⟩ := hfirst hstatus
      obtain ⟨requestTx, htx⟩ := Option.isSome_iff_exists.mp htx
      obtain ⟨index, hoidx⟩ := Option.isSome_iff_exists.mp hoidx
      refine ⟨{ deposits := rows.deposits.insert row.1 row.2
                byWithdrawTx := rows.byWithdrawTx.insert ⟨requestTx, index⟩ row.1 }, ?_, ?_⟩
      · simp only [emitDeposit, ensure, if_pos hidx, if_pos hstatus, htx, hoidx, required,
          Option.elim_some, ok_bind, pure_eq_ok]
      · rw [ih hindex hrequest]
        simp [requestRowOf, hstatus, htx, hoidx]
    · refine ⟨{ rows with deposits := rows.deposits.insert row.1 row.2 }, ?_, ?_⟩
      · simp only [emitDeposit, ensure, if_pos hidx, if_neg hstatus, ok_bind, pure_eq_ok]
      · rw [ih hindex hrequest]
        simp [requestRowOf, hstatus]

theorem Follows.emitSnapshotRows_eq_ok (h : owner.Follows n rows)
    (htracked : DaoTracked arOf live rows) : owner.emitSnapshotRows = .ok rows := by
  have hmem : ∀ row ∈ rows.deposits.toList, rows.deposits[row.1]? = some row.2 := fun row hrow =>
    mem_toList_iff_getElem?_eq_some.mp hrow
  have hrequest : ∀ row ∈ rows.deposits.toList, 1 ≤ row.2.status →
      ∃ k : DaoOutPoint, row.2.withdrawRequestTx = some k.txHash ∧
        row.2.withdrawRequestOutputIndex = some k.index ∧ rows.byWithdrawTx[k]? = some row.1 := by
    intro row hrow hstatus
    rcases htracked.requested row.1 row.2 (hmem row hrow) with hzero | ⟨-, hk⟩
    · omega
    · exact hk
  rw [emitSnapshotRows, h.deposits, foldlM_emitDeposit_eq_ok]
  · refine congrArg Except.ok (DaoRows.ext ?_ ?_)
    · refine ext_getElem? fun o => Option.ext fun entry => ?_
      rw [getElem?_foldl_insert (nodup_map_fst_toList _)]
      simp
    · -- the index row of a deposit is found under its request, and only there
      have hiff : ∀ k d, (k, d) ∈ rows.deposits.toList.filterMap requestRowOf ↔
          rows.byWithdrawTx[k]? = some d := by
        intro k d
        constructor
        · intro hkd
          obtain ⟨row, hrow, hgives⟩ := mem_filterMap.mp hkd
          simp only [requestRowOf, Option.ite_none_right_eq_some, Option.bind_eq_some_iff,
            Option.map_eq_some_iff] at hgives
          obtain ⟨hstatus, requestTx, htx, index, hidx, rfl, rfl⟩ := hgives
          obtain ⟨k', htx', hidx', hk'⟩ := hrequest row hrow hstatus
          rw [htx] at htx'
          rw [hidx] at hidx'
          obtain rfl := Option.some.inj htx'
          obtain rfl := Option.some.inj hidx'
          exact hk'
        · intro hkd
          obtain ⟨entry, hentry, hstatus, htx, hidx⟩ := htracked.indexed k d hkd
          refine mem_filterMap.mpr ⟨(d, entry), mem_toList_iff_getElem?_eq_some.mpr hentry, ?_⟩
          have hone : 1 ≤ entry.status := by omega
          simp [requestRowOf, hone, htx, hidx]
      have hnodup : ((rows.deposits.toList.filterMap requestRowOf).map Prod.fst).Nodup := by
        have hkeys := nodup_map_fst_toList rows.deposits
        rw [List.Nodup, pairwise_map] at hkeys ⊢
        rw [pairwise_filterMap]
        refine hkeys.imp_of_mem ?_
        intro row row' hrow hrow' hne r hr r' hr' heq
        have hk := (hiff r.1 r.2).mp (mem_filterMap.mpr ⟨row, hrow, hr⟩)
        have hk' := (hiff r'.1 r'.2).mp (mem_filterMap.mpr ⟨row', hrow', hr'⟩)
        rw [heq, hk'] at hk
        exact hne (by rw [← requestRowOf_snd hr, ← requestRowOf_snd hr', Option.some.inj hk])
      refine ext_getElem? fun k => Option.ext fun d => ?_
      rw [getElem?_foldl_insert hnodup, hiff]
      simp
  · exact fun row hrow => h.keys row.1 (by simp [hmem row hrow])
  · intro row hrow hstatus
    obtain ⟨k, htx, hidx, -⟩ := hrequest row hrow hstatus
    simp [htx, hidx]

end DaoOwner

/-! ## Live and bulk -/

theorem bulkDaoRun_eq_ok {arOf : Int → Nat} {txs : List DaoTx} {rows : DaoRows}
    (htraces : DaoTraces arOf (fun _ => False) (fun _ => none) {} txs rows)
    (hsize : (txs.map fun tx => tx.inputs.length + tx.outputs.length).sum < 2 ^ 63) :
    bulkDaoRun txs = .ok rows := by
  obtain ⟨live, htracked⟩ := htraces.tracked
  obtain ⟨owner, n, howner, hfollows⟩ := DaoOwner.follows_empty.foldlM_applyTx_eq_ok
    (by rwa [Nat.zero_add]) htraces
  simp only [bulkDaoRun, bind_eq_ok]
  exact ⟨owner, howner, hfollows.emitSnapshotRows_eq_ok htracked⟩

/-- The life of a deposit does not depend on who indexes it. -/
theorem dao_lifecycle_live_eq_bulk {arOf : Int → Nat} {batches : List (List DaoTx)}
    (h : ValidDaoChain arOf batches.flatten) :
    ∃ rows, liveDaoRun batches = .ok rows ∧ bulkDaoRun batches.flatten = .ok rows ∧
      (∀ o : DaoOutPoint, rows.deposits[o]? ≠ none ↔ ∃ tx ∈ batches.flatten, tx.Deposits o) ∧
      RowsBegan (· ∈ batches.flatten) rows ∧
      ∀ done later, batches = done ++ later → ∃ before, liveDaoRun done = .ok before ∧
        RowsEvolve (· ∈ later.flatten) before rows := by
  obtain ⟨rows, htraces⟩ := h.traces
  refine ⟨rows, htraces.foldlM_liveDaoBatch_eq_ok, bulkDaoRun_eq_ok htraces h.size, fun o => ?_,
    (htraces.steps.evolve fun tx htx => htx).2 rowsBegan_empty, ?_⟩
  · rw [htraces.keys o]
    simp
  · rintro done later rfl
    rw [flatten_append] at htraces
    obtain ⟨seen', live', before, hdone, hlater⟩ := htraces.of_append
    exact ⟨before, hdone.foldlM_liveDaoBatch_eq_ok, (hlater.steps.evolve fun tx htx => htx).1⟩

/-- The cellbase that pays for the deposit. -/
def daoFunding : DaoTx :=
  { hash := .ofNat 101, blockNumber := 0, timestamp := 0, chainTimeMs := 0, blockDaoAr := 90
    isCellbase := true, inputs := [], outputs := [walletDaoCell] }

theorem daoLife_valid : ValidDaoChain (fun n => 90 + 10 * n.toNat) (daoFunding :: daoLife) := by
  refine ⟨fun m n hmn => ?_, ?_, ?_, ?_, ?_⟩
  · have hle : m.toNat ≤ n.toNat := Int.toNat_le_toNat hmn
    omega
  · decide +kernel
  · decide +kernel
  · decide +kernel
  · decide +kernel

/-- A deposit, its request and its completion, with the first two in one batch. -/
theorem dao_lifecycle_live_eq_bulk_three :
    ∃ rows, liveDaoRun [daoFunding :: daoLife.take 2, daoLife.drop 2] = .ok rows ∧
      bulkDaoRun (daoFunding :: daoLife) = .ok rows := by
  obtain ⟨rows, hlive, hbulk, -⟩ := @dao_lifecycle_live_eq_bulk _
    [daoFunding :: daoLife.take 2, daoLife.drop 2] daoLife_valid
  exact ⟨rows, hlive, hbulk⟩

/-- **The request index is exact.** After any valid chain, however it is cut into live batches, a
request outpoint leads to a deposit exactly when the deposit's row names it as its request. -/
theorem dao_request_index_exact {arOf : Int → Nat} {batches : List (List DaoTx)}
    (h : ValidDaoChain arOf batches.flatten) :
    ∃ rows, liveDaoRun batches = .ok rows ∧ ∀ k d : DaoOutPoint, rows.byWithdrawTx[k]? = some d ↔
      ∃ entry, rows.deposits[d]? = some entry ∧ entry.status ≠ 0 ∧
        entry.withdrawRequestTx = some k.txHash ∧
        entry.withdrawRequestOutputIndex = some k.index := by
  obtain ⟨rows, htraces⟩ := h.traces
  obtain ⟨live, htracked⟩ := htraces.tracked
  refine ⟨rows, htraces.foldlM_liveDaoBatch_eq_ok, fun k d => ⟨fun hk => ?_, ?_⟩⟩
  · obtain ⟨entry, hentry, hstatus, hrequest⟩ := htracked.indexed k d hk
    exact ⟨entry, hentry, by omega, hrequest⟩
  · rintro ⟨entry, hentry, hstatus, htx, hindex⟩
    obtain hactive | ⟨-, k', htx', hindex', hk'⟩ := htracked.requested d entry hentry
    · exact absurd hactive hstatus
    · obtain rfl : k = k' := by
        cases k
        simp_all
      exact hk'

/-- After the request, in the next batch, and the completion the index leads from the request
cell to the deposit, and from nothing else. -/
theorem dao_request_index_exact_life :
    ∃ rows, liveDaoRun [daoFunding :: daoLife.take 1, daoLife.drop 1] = .ok rows ∧
      ∀ k d : DaoOutPoint, rows.byWithdrawTx[k]? = some d ↔
        k = ⟨.ofNat 2, 0⟩ ∧ d = ⟨.ofNat 1, 0⟩ := by
  obtain ⟨rows, hrows, hindex⟩ := @dao_request_index_exact _
    [daoFunding :: daoLife.take 1, daoLife.drop 1] daoLife_valid
  refine ⟨rows, hrows, fun k d => ?_⟩
  have heval : (liveDaoRun [daoFunding :: daoLife.take 1, daoLife.drop 1]).map
      (fun rows => rows.deposits.toList.map fun row =>
        (row.1, row.2.status, row.2.withdrawRequestTx, row.2.withdrawRequestOutputIndex))
      = .ok [(⟨.ofNat 1, 0⟩, 2, some (.ofNat 2), some 0)] := by decide +kernel
  rw [hrows] at heval
  obtain ⟨⟨o, entry⟩, hlist, hrow⟩ := map_eq_singleton_iff.mp (Except.ok.inj heval)
  simp only [Prod.mk.injEq] at hrow
  obtain ⟨rfl, hstatus, htx, hidx⟩ := hrow
  simp only [hindex, ← mem_toList_iff_getElem?_eq_some, hlist, mem_singleton, Prod.mk.injEq]
  constructor
  · rintro ⟨e, ⟨rfl, rfl⟩, -, hk, hk'⟩
    cases k
    simp_all
  · rintro ⟨rfl, rfl⟩
    exact ⟨entry, ⟨rfl, rfl⟩, by simp [hstatus], htx, hidx⟩

end Ckbadger.Bulk
