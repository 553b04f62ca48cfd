/-
Ckbadger.Writer.DaoLive — the live pass follows the steps of a chain.

Where the steps of a valid chain lead, the live writer arrives, without an error, however
the chain is cut into batches (`liveDaoRun_eq_ok`). Within a batch this needs what the
batch remembers beside the rows it stands for: a request it consumed is no longer a cell,
and a request it opened is in the index (`LiveDaoBatch.Follows`).
-/
import Ckbadger.Writer.DaoTrace

namespace Ckbadger.Writer

open Lib Ckbadger.Parser Store LiveDaoCells

namespace LiveDaoBatch

/-- A batch leads to the rows, and what it remembers of the requests fits the cells. -/
structure Follows (store : DaoRows) (seen : Hash32 → Prop) (cells : LiveDaoCells)
    (rows : DaoRows) (batch : LiveDaoBatch) : Prop where
  coherent : batch.Coherent store
  commit_eq : batch.commit store = rows
  spent : ∀ key, batch.spentRequests.contains key = true → cells key = none ∧ seen key.txHash
  opened : ∀ key : DaoOutPoint, batch.openRequests[key]? ≠ none →
    rows.byWithdrawTx[key]? ≠ none

variable {arOf : Int → Nat} {store : DaoRows} {seen : Hash32 → Prop} {live cells : LiveDaoCells}
  {batch : LiveDaoBatch} {tx : DaoTx} {rows rows' : DaoRows}

theorem follows_empty (store : DaoRows) (seen : Hash32 → Prop) (cells : LiveDaoCells) :
    Follows store seen cells store {} := by
  refine ⟨coherent_empty store, commit_empty store, ?_, ?_⟩
  · simp
  · simp

theorem Follows.lookupRequest_eq_ok (h : Follows store seen cells rows batch) {key : DaoOutPoint}
    (hcell : cells key ≠ none) : batch.lookupRequest store key = .ok rows.byWithdrawTx[key]? := by
  have hspent : batch.spentRequests.contains key = false := by
    by_contra htrue
    exact hcell (h.spent key (by simpa using htrue)).1
  rw [← h.commit_eq, h.coherent key hspent, lookupRequest, ensure, if_pos hspent]
  cases batch.openRequests[key]? <;> rfl

theorem applyInput_eq_ok {input : DaoInput × Nat} {l : LiveDaoCell}
    (h : Follows store seen (live.upTo tx input.2 0) rows batch)
    (hmid : Mid arOf seen live tx input.2 0 rows) (hspends : Spends arOf seen live tx input l)
    (hstep : SpendStep tx (outputsOf tx) rows input rows') :
    ∃ batch', applyInput store tx tx.blockDaoAr (outputsOf tx) batch input = .ok batch' ∧
      Follows store seen (live.upTo tx (input.2 + 1) 0) rows' batch' := by
  obtain rfl := h.commit_eq
  have hcell := hspends.cell (n := 0) hmid.new
  -- it is enough that the input is accepted: what it then does is the step
  suffices hok : ∃ batch', applyInput store tx tx.blockDaoAr (outputsOf tx) batch input = .ok batch' ∧
      (∀ key, batch'.spentRequests.contains key = true →
        key = input.1.outpoint ∨ batch.spentRequests.contains key = true) ∧
      ∀ key : DaoOutPoint, batch'.openRequests[key]? ≠ none →
        rows'.byWithdrawTx[key]? ≠ none by
    obtain ⟨batch', hbatch', hspent, hopened⟩ := hok
    obtain ⟨hstep', hcoherent⟩ := applyInput_spec h.coherent hbatch'
    refine ⟨batch', hbatch', hcoherent, hstep'.unique hstep, ?_, hopened⟩
    -- a consumed request is gone, and no new cell takes its place
    intro key hkey
    have hkey' : seen key.txHash ∧ (key = input.1.outpoint ∨ live.upTo tx input.2 0 key = none) := by
      rcases hspent key hkey with rfl | hold
      · exact ⟨hspends.key.2, .inl rfl⟩
      · exact ⟨(h.spent key hold).2, .inr (h.spent key hold).1⟩
    obtain ⟨hseen, hgone⟩ := hkey'
    refine ⟨Option.eq_none_iff_forall_ne_some.mpr fun l' hl' => ?_, hseen⟩
    rcases hspends.upTo_succ hmid.new hl' with ⟨rfl, -⟩ | ⟨-, hne, hl'⟩
    · exact hmid.new hseen
    · exact hgone.elim hne fun hnone => by simp [hnone] at hl'
  have hrequest := h.lookupRequest_eq_ok (hcell ▸ Option.some_ne_none l)
  simp only [applyInput, ensure, if_pos hspends.key.1, lookupDeposit_eq, hrequest]
  cases hstep with
  | skipped hnot =>
    refine ⟨batch, by simp [hnot], fun key hkey => .inr hkey, h.opened⟩
  | requested entry request hisDao hrow hoffered hstatus hcapacity hblock =>
    have hdao : l.cell.isDao = true := by rw [hspends.same, hisDao]
    obtain ⟨-, hnone, -, hdeposit⟩ := hmid.tracked.deposit_of_row hcell hdao hrow
    have hsmall : request.depositBlock < 2 ^ 63 := by
      have hlt := (hmid.tracked.dated _ l hcell hdao).block.2
      omega
    have hfree : batch.openRequests.contains request.outpoint = false := by
      obtain ⟨out, -, -, n, -, rfl⟩ := outputsOf_requests_eq_some.mp hoffered
      rw [Std.ExtTreeMap.contains_eq_isSome_getElem?, Option.isSome_eq_false_iff,
        Option.isNone_iff_eq_none]
      by_contra hopen
      exact h.opened _ hopen hmid.request_free
    simp only [hisDao, hrow, hnone, applyWithdrawRequest, ensure, required, if_pos hstatus, hoffered,
      Option.bind_some, Option.elim_some, id_eq, hcapacity, hsmall, hblock, hfree, ok_bind]
    refine ⟨_, rfl, fun key hkey => .inr hkey, ?_⟩
    intro key hkey
    rw [getElem?_insert_ite] at hkey ⊢
    split
    · simp
    · rename_i hne
      rw [if_neg hne] at hkey
      exact h.opened key hkey
  | completed deposit entry requestBlock compensation hisDao hnone hdeposit hrow hstatus hblock hlater
      hcompensation =>
      obtain ⟨indexed, hindexed, -, htx, hidx⟩ := hmid.tracked.indexed _ deposit hdeposit
      obtain rfl := Option.mem_unique hrow hindexed
      simp only [hisDao, hnone, hdeposit, applyWithdrawCompletion, lookupDeposit_eq, hrow, ensure,
        required, Option.elim_some, if_pos hstatus, hblock, if_pos hlater, htx, hidx, hcompensation,
        ok_bind]
      refine ⟨_, rfl, ?_, ?_⟩
      · intro key hkey
        rw [Std.ExtTreeSet.contains_insert, Bool.or_eq_true] at hkey
        rcases hkey with hkey | hkey
        · have heq : input.1.outpoint = key := by simpa using hkey
          exact .inl heq.symm
        · exact .inr hkey
      · intro key hkey
        rw [getElem?_erase_ite] at hkey
        split at hkey
        · cases hkey rfl
        · exact h.opened key hkey

theorem foldlM_applyInput_eq_ok {inputs : List DaoInput} {k : Nat}
    (h : Follows store seen (live.upTo tx k 0) rows batch)
    (htrace : SpendTrace arOf seen live tx k rows inputs rows') :
    ∃ batch', (inputs.zipIdx k).foldlM (applyInput store tx tx.blockDaoAr (outputsOf tx)) batch
        = .ok batch' ∧ Follows store seen (live.upTo tx (k + inputs.length) 0) rows' batch' := by
  induction htrace generalizing batch with
  | nil k rows => exact ⟨batch, rfl, h⟩
  | cons hmid hspends hstep _ ih =>
    obtain ⟨mid, hfirst, hmidFollows⟩ := applyInput_eq_ok h hmid hspends hstep
    obtain ⟨batch', hrest, hfollows⟩ := ih hmidFollows
    rw [Nat.add_right_comm] at hfollows
    exact ⟨batch', foldlM_cons_eq_ok.mpr ⟨mid, hfirst, hrest⟩, hfollows⟩

theorem foldlM_applyDeposit_eq_ok {deposits : List ParsedDaoDeposit}
    (h : Follows store seen cells rows batch)
    (hindex : ∀ deposit ∈ deposits, deposit.outputIndex < 2 ^ 15)
    (htime : 0 ≤ tx.timestamp ∧ tx.timestamp ≤ tx.chainTimeMs)
    (hsteps : DepositSteps tx rows deposits rows') :
    ∃ batch', deposits.foldlM (applyDeposit store tx tx.blockDaoAr) batch = .ok batch' ∧
      Follows store seen cells rows' batch' := by
  induction hsteps generalizing batch with
  | nil rows => exact ⟨batch, rfl, h⟩
  | @cons rows _ deposit deposits hnew _ ih =>
    obtain rfl := h.commit_eq
    obtain ⟨hidx, hindex⟩ := List.forall_mem_cons.mp hindex
    obtain ⟨mid, hfirst, hmid⟩ : ∃ mid,
        applyDeposit store tx tx.blockDaoAr batch deposit = .ok mid ∧
        Follows store seen cells { batch.commit store with
          deposits := (batch.commit store).deposits.insert ⟨tx.hash, deposit.outputIndex⟩
            (depositEntry tx deposit) } mid := by
      simp only [applyDeposit, buildDaoCacheEntry, ensure, if_pos hidx, lookupDeposit_eq, hnew,
        if_pos htime]
      exact ⟨_, rfl, h.coherent, DaoRows.ext (commit_insert_entry store batch.entries _ _) rfl,
        h.spent, h.opened⟩
    obtain ⟨batch', hrest, hfollows⟩ := ih hmid hindex
    exact ⟨batch', foldlM_cons_eq_ok.mpr ⟨mid, hfirst, hrest⟩, hfollows⟩

theorem applyTx_eq_ok (h : Follows store seen live rows batch)
    (htrace : TxTrace arOf seen live tx rows rows') :
    ∃ batch', applyTx store batch tx = .ok batch' ∧
      Follows store (fun hash => seen hash ∨ hash = tx.hash) (live.apply tx) rows' batch' := by
  obtain ⟨mid, hspends, hmid, hdeposits⟩ := htrace.trace
  have hvalid := htrace.valid
  have hold : ∀ {key : DaoOutPoint}, seen key.txHash → key.txHash ≠ tx.hash :=
    fun hseen heq => hmid.new (heq ▸ hseen)
  have hstart : Follows store seen (live.upTo tx 0 0) rows batch := by
    refine ⟨h.coherent, h.commit_eq, fun key hkey => ?_, h.opened⟩
    obtain ⟨hnone, hseen⟩ := h.spent key hkey
    exact ⟨by simp [upTo, hold hseen, hnone], hseen⟩
  obtain ⟨midBatch, hinputs, hmidFollows⟩ := foldlM_applyInput_eq_ok hstart hspends
  have hindex : ∀ deposit ∈ tx.outputs.zipIdx.filterMap depositOf, deposit.outputIndex < 2 ^ 15 := by
    intro deposit hdeposit
    obtain ⟨output, houtput, hdeposit⟩ := List.mem_filterMap.mp hdeposit
    obtain ⟨-, -, rfl⟩ := depositOf_eq_some hdeposit
    exact (hvalid.mem_outputs houtput).2.2
  obtain ⟨batch', hoks, hfollows⟩ := foldlM_applyDeposit_eq_ok hmidFollows hindex
    ⟨hvalid.time.1, hvalid.time.2.1⟩ hdeposits
  refine ⟨batch', ?_, hfollows.coherent, hfollows.commit_eq, ?_, hfollows.opened⟩
  · simp only [applyTx, bind_eq_ok, ensure_eq_ok]
    exact ⟨(), hvalid.rate.2.2, outputsOf tx, hvalid.daoTxOutputs_eq_ok, midBatch, hinputs, _,
      parseDepositsFromCells_eq_ok hvalid.wellFormed hvalid.outputs, hoks⟩
  · intro key hkey
    obtain ⟨hnone, hseen⟩ := hfollows.spent key hkey
    refine ⟨?_, .inl hseen⟩
    rw [upTo, if_neg (hold hseen), Nat.zero_add, List.take_length] at hnone
    rwa [apply, if_neg (hold hseen)]

/-- A batch takes the steps of its transactions, and the cellbases among them take none. -/
theorem foldlM_applyTx_eq_ok {txs later : List DaoTx} (h : Follows store seen live rows batch)
    (htrace : DaoTraces arOf seen live rows (txs ++ later) rows') :
    ∃ batch' seen' live', (daoTxs txs).foldlM (applyTx store) batch = .ok batch' ∧
      DaoTraces arOf seen' live' (batch'.commit store) later rows' := by
  induction txs generalizing batch seen live rows with
  | nil => exact ⟨batch, seen, live, rfl, h.commit_eq ▸ htrace⟩
  | cons tx txs ih =>
    cases htrace with
    | cons _ htx hrest =>
      cases hcellbase : tx.isCellbase with
      | true =>
        rw [htx.eq_of_isCellbase hcellbase] at hrest
        obtain ⟨hinputs, -⟩ := htx.valid.cellbase hcellbase
        obtain ⟨mid, -, hmid, -⟩ := htx.trace
        have hfollows : Follows store (fun hash => seen hash ∨ hash = tx.hash) (live.apply tx) rows
            batch := by
          refine ⟨h.coherent, h.commit_eq, fun key hkey => ?_, h.opened⟩
          obtain ⟨hnone, hseen⟩ := h.spent key hkey
          have hold : key.txHash ≠ tx.hash := fun heq => hmid.new (heq ▸ hseen)
          refine ⟨?_, .inl hseen⟩
          rw [apply, if_neg hold, hinputs]
          simpa using hnone
        obtain ⟨batch', seen', live', hbatch', htrace'⟩ := ih hfollows hrest
        refine ⟨batch', seen', live', ?_, htrace'⟩
        simpa [daoTxs, hcellbase] using hbatch'
      | false =>
        obtain ⟨mid, hfirst, hmidFollows⟩ := applyTx_eq_ok h htx
        obtain ⟨batch', seen', live', hbatch', htrace'⟩ := ih hmidFollows hrest
        refine ⟨batch', seen', live', ?_, htrace'⟩
        rw [daoTxs, List.filter_cons_of_pos (by simp [hcellbase])]
        exact foldlM_cons_eq_ok.mpr ⟨mid, hfirst, hbatch'⟩

end LiveDaoBatch

/-- The live pass arrives where the steps of the chain lead. -/
theorem DaoTraces.foldlM_liveDaoBatch_eq_ok {arOf : Int → Nat} {seen : Hash32 → Prop}
    {live : LiveDaoCells} {rows rows' : DaoRows} {batches : List (List DaoTx)}
    (h : DaoTraces arOf seen live rows batches.flatten rows') :
    batches.foldlM liveDaoBatch rows = .ok rows' := by
  induction batches generalizing seen live rows with
  | nil =>
    cases h
    rfl
  | cons txs batches ih =>
    obtain ⟨batch, seen', live', hbatch, hrest⟩ := LiveDaoBatch.foldlM_applyTx_eq_ok
      (LiveDaoBatch.follows_empty rows seen live) h
    refine foldlM_cons_eq_ok.mpr ⟨batch.commit rows, ?_, ih hrest⟩
    simp only [liveDaoBatch, bind_eq_ok]
    exact ⟨batch, hbatch, rfl⟩

end Ckbadger.Writer
