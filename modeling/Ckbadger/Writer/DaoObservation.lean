/-
Ckbadger.Writer.DaoObservation — an observation before a commit equals the one after it.

A batch stages the rows of the deposits it created or moved to phase 1, and completions of
requests that were committed before it. Every other row it touched is such a completion of
a committed request (`LiveDaoBatch.Settled`), so what it stages stands for the rows it
commits (`LiveDaoBatch.overlay`), each counted once.
-/
import Ckbadger.Store.DaoOpsTheorems
import Ckbadger.Writer.DaoLife

namespace Ckbadger.Writer

open Lib Ckbadger.Parser Store Std LiveDaoBatch ExtTreeMap

namespace LiveDaoBatch

variable {key : DaoOutPoint} {blockAr : Int} {outputs : DaoTxOutputs}

/-! ## Completions of committed requests -/

/-- A row that completes a committed request. -/
def CompletesRequest (store : DaoRows) (key : DaoOutPoint) (entry : DaoDepositCacheEntry) : Prop :=
  ∃ (request : DaoDepositCacheEntry) (requestBlock : Int) (tx : DaoTx) (outputs : DaoTxOutputs)
    (compensation : Int), store.deposits[key]? = some request ∧ request.status = 1 ∧
      request.withdrawRequestBlock = some requestBlock ∧ requestBlock < tx.blockNumber ∧
      daoFrozenRequestCompensation request = .ok compensation ∧
      entry = completedEntry tx outputs compensation request

theorem CompletesRequest.status {store : DaoRows} {entry : DaoDepositCacheEntry}
    (h : CompletesRequest store key entry) : entry.status = 2 := by
  obtain ⟨_, _, _, _, _, -, -, -, -, -, rfl⟩ := h
  rfl

/-- A touched deposit that the batch neither created nor moved to phase 1 is the completion
of a committed request. -/
def Settled (store : DaoRows) (batch : LiveDaoBatch) : Prop :=
  ∀ (key : DaoOutPoint) (entry : DaoDepositCacheEntry), batch.entries[key]? = some entry →
    batch.lifecycleInBatch.contains key = false → CompletesRequest store key entry

variable {store : DaoRows} {batch batch' : LiveDaoBatch} {tx : DaoTx}

theorem settled_empty (store : DaoRows) : Settled store {} := by
  intro key entry hentry
  simp at hentry

section

variable (h : Settled store batch)

include h

/-- A row of the batch's own lifecycle leaves the other rows settled. -/
theorem Settled.insert_lifecycle (key : DaoOutPoint)
    (entry : DaoDepositCacheEntry) (hentries : batch'.entries = batch.entries.insert key entry)
    (hlifecycle : batch'.lifecycleInBatch = batch.lifecycleInBatch.insert key) :
    Settled store batch' := by
  intro key' entry' hentry' hnew
  rw [hlifecycle, ExtTreeSet.contains_insert] at hnew
  simp only [Bool.or_eq_false_iff] at hnew
  have hne : key ≠ key' := by
    rintro rfl
    simp at hnew
  rw [hentries, getElem?_insert_of_ne hne] at hentry'
  exact h key' entry' hentry' hnew.2

theorem applyWithdrawCompletion_settled {requestKey : DaoOutPoint}
    (hstep : batch.applyWithdrawCompletion store tx requestKey key outputs = .ok batch') :
    Settled store batch' := by
  simp only [applyWithdrawCompletion, bind_eq_ok, ensure_eq_ok, required_eq_ok, return_eq_ok,
    withContext_eq_ok] at hstep
  obtain ⟨entry, hentry, -, hstatus, requestBlock, hblock, -, hlater, -, -, compensation, hcomp,
    rfl⟩ := hstep
  intro key' entry' hentry' hnew
  obtain ⟨rfl, rfl⟩ | ⟨hkey, hentry'⟩ := getElem?_insert_eq_some.mp hentry'
  · -- the batch's own row would be of its lifecycle, or completed already
    have hstored : store.deposits[key]? = some entry := by
      unfold lookupDeposit at hentry
      split at hentry
      · rename_i own hown
        cases hentry
        rw [(h key entry hown hnew).status] at hstatus
        cases hstatus
      · exact hentry
    exact ⟨entry, requestBlock, tx, outputs, compensation, hstored, hstatus, hblock, hlater, hcomp,
      rfl⟩
  · exact h key' entry' hentry' hnew

theorem applyInput_settled {input : DaoInput × Nat}
    (hstep : applyInput store tx blockAr outputs batch input = .ok batch') :
    Settled store batch' := by
  simp only [applyInput, bind_eq_ok] at hstep
  obtain ⟨-, -, hstep⟩ := hstep
  split at hstep
  · rwa [← return_eq_ok.mp hstep]
  · obtain ⟨asRequest, -, hstep⟩ := bind_eq_ok.mp hstep
    split at hstep
    · simp only [applyWithdrawRequest, bind_eq_ok, return_eq_ok] at hstep
      obtain ⟨-, -, request, -, -, -, -, -, rfl⟩ := hstep
      exact h.insert_lifecycle _ _ rfl rfl
    · exact applyWithdrawCompletion_settled h hstep
    · cases hstep
    · cases hstep

theorem applyDeposit_settled {deposit : ParsedDaoDeposit}
    (hstep : applyDeposit store tx blockAr batch deposit = .ok batch') : Settled store batch' := by
  simp only [applyDeposit, bind_eq_ok, return_eq_ok] at hstep
  obtain ⟨-, -, -, -, entry, -, rfl⟩ := hstep
  exact h.insert_lifecycle _ entry rfl rfl

theorem applyTx_settled (hstep : applyTx store batch tx = .ok batch') :
    Settled store batch' := by
  simp only [applyTx, bind_eq_ok] at hstep
  obtain ⟨-, -, outputs, -, mid, hmid, deposits, -, hstep⟩ := hstep
  have hinputs : Settled store mid :=
    foldlM_invariant (Settled store) (fun _ _ _ _ hu hv => applyInput_settled hu hv) h hmid
  exact foldlM_invariant (Settled store) (fun _ _ _ _ hu hv => applyDeposit_settled hu hv) hinputs
    hstep

end

theorem resolve_settled {txs : List DaoTx} (h : resolve store txs = .ok batch) :
    Settled store batch :=
  foldlM_invariant (Settled store) (fun _ _ _ _ hu hv => applyTx_settled hu hv)
    (settled_empty store) h

/-! ## What a batch stages -/

theorem foldlM_stagedCompletion {rows : List (DaoOutPoint × DaoDepositCacheEntry)}
    (hrows : ∀ row ∈ rows, CompletesRequest store row.1 row.2)
    (staged : ExtTreeMap DaoOutPoint (Int × Hash32)) :
    ∃ completions, rows.foldlM stagedCompletion staged = .ok completions ∧
      (∀ key c, completions[key]? = some c → staged[key]? = some c ∨
        ∃ entry, (key, entry) ∈ rows ∧ entry.withdrawBlock = some c.1 ∧
          entry.withdrawTx = some c.2) ∧
      ∀ key, completions[key]? = none → staged[key]? = none ∧ ∀ entry, (key, entry) ∉ rows := by
  induction rows generalizing staged with
  | nil => exact ⟨staged, rfl, fun key c hc => .inl hc, fun key hkey => ⟨hkey, by simp⟩⟩
  | cons row rows ih =>
    obtain ⟨key₀, entry₀⟩ := row
    obtain ⟨hrow, hrows⟩ := List.forall_mem_cons.mp hrows
    obtain ⟨request, _, tx, outputs, compensation, -, -, -, -, -, hentry⟩ := hrow
    obtain ⟨completions, hrest, hsome, hnone⟩ :=
      ih hrows (staged.insert key₀ (tx.blockNumber, tx.hash))
    refine ⟨completions, ?_, ?_, ?_⟩
    · rw [foldlM_cons_eq_ok]
      refine ⟨_, ?_, hrest⟩
      subst hentry
      rfl
    · intro key c hc
      rcases hsome key c hc with hstaged | ⟨entry, hmem, hblock, htx⟩
      · rw [getElem?_insert_ite] at hstaged
        split at hstaged
        · rename_i hkey
          cases hstaged
          dsimp only at hkey hentry
          subst hkey
          exact .inr ⟨entry₀, List.mem_cons_self, by rw [hentry]; rfl, by rw [hentry]; rfl⟩
        · exact .inl hstaged
      · exact .inr ⟨entry, List.mem_cons_of_mem _ hmem, hblock, htx⟩
    · intro key hkey
      obtain ⟨hstaged, hrest⟩ := hnone key hkey
      rw [getElem?_insert_ite] at hstaged
      split at hstaged
      · cases hstaged
      · rename_i hne
        refine ⟨hstaged, fun entry hmem => ?_⟩
        rcases List.mem_cons.mp hmem with heq | hmem
        · cases heq
          exact hne rfl
        · exact hrest entry hmem

theorem getElem?_filter_lifecycle (entries : DaoDeposits)
    (p : DaoOutPoint → Bool) (key : DaoOutPoint) (entry : DaoDepositCacheEntry) :
    (entries.filter fun key _ => p key)[key]? = some entry ↔
      entries[key]? = some entry ∧ p key = true := by
  simp

/-- What a settled batch stages stands for the rows it commits. -/
theorem overlay (h : Settled store batch) :
    ∃ completions, batch.stagedCompletions = .ok completions ∧
      Overlay store.deposits batch.stagedEntries completions (batch.commit store).deposits := by
  have hrows : ∀ row ∈ (batch.entries.filter fun key _ => !batch.lifecycleInBatch.contains key).toList,
      batch.entries[row.1]? = some row.2 ∧ CompletesRequest store row.1 row.2 := by
    intro row hrow
    obtain ⟨hentry, hnew⟩ := (getElem?_filter_lifecycle _ _ _ _).mp
      (mem_toList_iff_getElem?_eq_some.mp hrow)
    exact ⟨hentry, h row.1 row.2 hentry (by simpa using hnew)⟩
  obtain ⟨completions, hcompletions, hsome, hnone⟩ :=
    foldlM_stagedCompletion (fun row hrow => (hrows row hrow).2) ∅
  refine ⟨completions, hcompletions, ?_, ?_, ?_⟩
  · intro key entry hstaged
    obtain ⟨hentry, -⟩ := (getElem?_filter_lifecycle _ _ _ _).mp hstaged
    simp [commit, getElem?_union, hentry]
  · intro key block tx hcompletion
    rcases hsome key _ hcompletion with hempty | ⟨entry, hmem, hblock, htx⟩
    · simp at hempty
    · obtain ⟨hentry, request, requestBlock, tx', outputs, compensation, hrequest, hstatus,
        hrequestBlock, hlater, hcomp, heq⟩ := hrows _ hmem
      subst heq
      obtain ⟨-, hnew⟩ := (getElem?_filter_lifecycle _ _ _ _).mp
        (mem_toList_iff_getElem?_eq_some.mp hmem)
      obtain rfl : tx'.blockNumber = block := Option.some_inj.mp hblock
      obtain rfl : tx'.hash = tx := Option.some_inj.mp htx
      refine ⟨?_, request,
        { request with
          status := 2
          withdrawBlock := some tx'.blockNumber
          withdrawTx := some tx'.hash
          compensation := some compensation },
        inferWithdrawToOutputIndexFromOutputs outputs.withdrawToCandidates request.lockScriptHash,
        hrequest, ?_, ?_⟩
      · cases hstaged : batch.stagedEntries[key]? with
        | none => rfl
        | some entry =>
          obtain ⟨-, hlifecycle⟩ := (getElem?_filter_lifecycle _ _ _ _).mp hstaged
          simp [hlifecycle] at hnew
      · simp only [daoEntryWithStagedCompletion, bind_eq_ok, ensure_eq_ok, required_eq_ok]
        exact ⟨(), hstatus, requestBlock, hrequestBlock, (), hlater, compensation, hcomp, rfl⟩
      · simp only [commit, getElem?_union, hentry]
        rfl
  · intro key hstaged hcompletion
    cases hentry : batch.entries[key]? with
    | none => simp [commit, getElem?_union, hentry]
    | some entry =>
      cases hlifecycle : batch.lifecycleInBatch.contains key with
      | true =>
        have := (getElem?_filter_lifecycle _ _ _ _).mpr ⟨hentry, hlifecycle⟩
        simp [stagedEntries, this] at hstaged
      | false =>
        refine absurd ?_ ((hnone key hcompletion).2 entry)
        simp [hentry, hlifecycle]

end LiveDaoBatch

/-- Whatever the store and the batch, a batch that resolves can be observed before it is
committed, and the observation at any block succeeds with a result exactly when the
observation of the committed rows does. That result counts each committed row once. -/
theorem dao_observation_before_commit (store : DaoRows) (txs : List DaoTx) (batch : LiveDaoBatch)
    (hbatch : resolve store txs = .ok batch) :
    ∃ completions, batch.stagedCompletions = .ok completions ∧
      ∀ (endBlock : Int) (endAr : Nat) (historical : Option (Int × Nat)),
        (computeDaoObservationsAtWithStaged endBlock endAr historical store.deposits
            batch.stagedEntries completions).toOption
          = (computeDaoObservationsAtWithStaged endBlock endAr historical
              (batch.commit store).deposits ∅ ∅).toOption ∧
        ∀ result, computeDaoObservationsAtWithStaged endBlock endAr historical store.deposits
            batch.stagedEntries completions = .ok result →
          (∀ row ∈ (batch.commit store).deposits.toList, Readable endBlock endAr historical row.2) ∧
          result = observationOf endBlock endAr historical
            ((batch.commit store).deposits.toList.map Prod.snd) := by
  obtain ⟨completions, hcompletions, hoverlay⟩ :=
    overlay (resolve_settled hbatch)
  refine ⟨completions, hcompletions, fun endBlock endAr historical => ?_⟩
  have hagree : ∀ result, _ ↔ _ := fun result =>
    (@hoverlay.observations_eq_ok endBlock endAr _ _ _ _ historical result).trans
      (@(Overlay.nothing_staged (batch.commit store).deposits).observations_eq_ok endBlock endAr
        _ _ _ _ historical result).symm
  exact ⟨toOption_congr hagree, fun result => hoverlay.eq_observationOf⟩

/-- A batch that completes a request of an earlier one is observed alike before and after
its commit: one claimed compensation, and at block 1 one deposit of one depositor. -/
theorem dao_observation_before_commit_completion :
    ∃ store batch completions,
      liveDaoRun [daoLife.take 2] = .ok store ∧
      resolve store (daoLife.drop 2) = .ok batch ∧
      batch.stagedCompletions = .ok completions ∧
      computeDaoObservationsAtWithStaged 3 120 (some (1, 100)) store.deposits batch.stagedEntries
        completions = .ok (⟨980000000, 0, 0⟩, some ⟨20000000000, 1, 0⟩) ∧
      computeDaoObservationsAtWithStaged 3 120 (some (1, 100)) (batch.commit store).deposits ∅ ∅
        = .ok (⟨980000000, 0, 0⟩, some ⟨20000000000, 1, 0⟩) ∧
      observationOf 3 120 (some (1, 100)) ((batch.commit store).deposits.toList.map Prod.snd)
        = (⟨980000000, 0, 0⟩, some ⟨20000000000, 1, 0⟩) := by
  have heval : (do
      let store ← liveDaoRun [daoLife.take 2]
      let batch ← resolve store (daoLife.drop 2)
      computeDaoObservationsAtWithStaged 3 120 (some (1, 100)) (batch.commit store).deposits ∅ ∅)
        = Except.ok (⟨980000000, 0, 0⟩, some ⟨20000000000, 1, 0⟩) := by decide +kernel
  simp only [bind_eq_ok] at heval
  obtain ⟨store, hstore, batch, hbatch, hafter⟩ := heval
  obtain ⟨completions, hcompletions, hobserved⟩ :=
    dao_observation_before_commit store _ batch hbatch
  obtain ⟨hagree, hsum⟩ := hobserved 3 120 (some (1, 100))
  rw [hafter] at hagree
  have hbefore := toOption_eq_some.mp hagree
  exact ⟨store, batch, completions, hstore, hbatch, hcompletions, hbefore, hafter,
    (hsum _ hbefore).2.symm⟩

end Ckbadger.Writer
