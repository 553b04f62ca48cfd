/-
Ckbadger.Writer.DaoLife — what a transaction does to the DAO rows.

A batch over a store stands for the rows it will commit (`LiveDaoBatch.commit`), and what
it resolves is what these rows say: each input leaves the rows alone, moves a deposit to
its withdraw request, or completes a request (`SpendStep`), and then the new deposits get
their rows (`TxStep`). Rows take at most one such step for a transaction, so the rows a
live run leaves do not depend on how the chain is cut into batches
(`liveDaoRun_steps`, `TxSteps.unique`).
-/
import Ckbadger.Lib.Staging
import Ckbadger.Writer.Dao

namespace Ckbadger.Writer

open Lib Ckbadger.Parser Store Std ExtTreeMap

variable {rows rows' rows'' : DaoRows} {input : DaoInput × Nat} {txs : List DaoTx}
variable {entry entry' : DaoDepositCacheEntry} {tx : DaoTx} {P : DaoTx → Prop}
variable {inputs : List (DaoInput × Nat)} {deposits : List ParsedDaoDeposit} {key : DaoOutPoint}

/-! ## The life of a row -/

/-- The row of a deposit whose withdraw request a transaction creates. -/
def requestedEntry (tx : DaoTx) (request : NewDaoOutput) (entry : DaoDepositCacheEntry) :
    DaoDepositCacheEntry :=
  { entry with
    status := 1
    withdrawRequestBlock := some tx.blockNumber
    withdrawRequestTx := some request.outpoint.txHash
    withdrawRequestOutputIndex := some request.outpoint.index
    withdrawRequestAr := some tx.blockDaoAr
    withdrawRequestOccupiedCapacity := some request.occupiedCapacity }

/-- The row of a deposit whose withdraw request a transaction consumes. -/
def completedEntry (tx : DaoTx) (outputs : DaoTxOutputs) (compensation : Int)
    (entry : DaoDepositCacheEntry) : DaoDepositCacheEntry :=
  { entry with
    status := 2
    withdrawBlock := some tx.blockNumber
    withdrawTx := some tx.hash
    withdrawToOutputIndex := inferWithdrawToOutputIndexFromOutputs outputs.withdrawToCandidates
      entry.lockScriptHash
    compensation := some compensation }

/-- The row of a new deposit. -/
def depositEntry (tx : DaoTx) (deposit : ParsedDaoDeposit) : DaoDepositCacheEntry where
  capacity := deposit.capacity
  occupiedCapacity := deposit.occupiedCapacity
  depositBlockNumber := tx.blockNumber
  depositTimestamp := tx.timestamp
  depositChainTimeMs := tx.chainTimeMs
  lockScriptHash := deposit.lockScriptHash
  depositAr := tx.blockDaoAr
  status := 0

/-- What an input does to the rows. -/
inductive SpendStep (tx : DaoTx) (outputs : DaoTxOutputs) (rows : DaoRows)
    (input : DaoInput × Nat) : DaoRows → Prop where
  | skipped (hcell : input.1.cell.isDao = false) : SpendStep tx outputs rows input rows
  | requested (entry : DaoDepositCacheEntry) (request : NewDaoOutput)
      (hcell : input.1.cell.isDao = true)
      (hrow : rows.deposits[input.1.outpoint]? = some entry)
      (hrequest : outputs.requests[input.2]? = some (some request))
      (hstatus : entry.status = 0) (hcapacity : request.capacity = entry.capacity)
      (hblock : (request.depositBlock : Int) = entry.depositBlockNumber) :
      SpendStep tx outputs rows input
        { deposits := rows.deposits.insert input.1.outpoint (requestedEntry tx request entry)
          byWithdrawTx := rows.byWithdrawTx.insert request.outpoint input.1.outpoint }
  | completed (deposit : DaoOutPoint) (entry : DaoDepositCacheEntry)
      (requestBlock compensation : Int) (hcell : input.1.cell.isDao = true)
      (hnone : rows.deposits[input.1.outpoint]? = none)
      (hdeposit : rows.byWithdrawTx[input.1.outpoint]? = some deposit)
      (hrow : rows.deposits[deposit]? = some entry) (hstatus : entry.status = 1)
      (hblock : entry.withdrawRequestBlock = some requestBlock)
      (hlater : requestBlock < tx.blockNumber)
      (hcompensation : daoFrozenRequestCompensation entry = .ok compensation) :
      SpendStep tx outputs rows input
        { rows with
          deposits := rows.deposits.insert deposit (completedEntry tx outputs compensation entry) }

theorem SpendStep.unique {outputs : DaoTxOutputs} (h : SpendStep tx outputs rows input rows')
    (h' : SpendStep tx outputs rows input rows'') : rows' = rows'' := by
  cases h with
  | skipped hcell =>
    cases h' with
    | skipped _ => rfl
    | requested _ _ hcell' | completed _ _ _ _ hcell' => simp [hcell] at hcell'
  | requested entry request hcell hrow hrequest _ _ _ =>
    cases h' with
    | skipped hcell' => simp [hcell] at hcell'
    | requested entry' request' _ hrow' hrequest' _ _ _ =>
      obtain rfl := Option.mem_unique hrow hrow'
      obtain rfl := Option.some.inj (Option.some.inj (hrequest.symm.trans hrequest'))
      rfl
    | completed _ _ _ _ _ hnone => simp [hrow] at hnone
  | completed deposit entry requestBlock compensation hcell hnone hdeposit hrow _ _ _ hcomp =>
    cases h' with
    | skipped hcell' => simp [hcell] at hcell'
    | requested _ _ _ hrow' => simp [hnone] at hrow'
    | completed deposit' entry' _ compensation' _ _ hdeposit' hrow' _ _ _ hcomp' =>
      obtain rfl := Option.mem_unique hdeposit hdeposit'
      obtain rfl := Option.mem_unique hrow hrow'
      obtain rfl := Except.ok.inj (hcomp.symm.trans hcomp')
      rfl

/-- The rows after some inputs. -/
inductive SpendSteps (tx : DaoTx) (outputs : DaoTxOutputs) :
    DaoRows → List (DaoInput × Nat) → DaoRows → Prop where
  | nil (rows : DaoRows) : SpendSteps tx outputs rows [] rows
  | cons {rows mid rows' : DaoRows} {input : DaoInput × Nat} {inputs : List (DaoInput × Nat)}
      (hstep : SpendStep tx outputs rows input mid) (hrest : SpendSteps tx outputs mid inputs rows') :
      SpendSteps tx outputs rows (input :: inputs) rows'

theorem SpendSteps.unique {outputs : DaoTxOutputs} (h : SpendSteps tx outputs rows inputs rows')
    (h' : SpendSteps tx outputs rows inputs rows'') : rows' = rows'' := by
  induction h with
  | nil rows =>
    cases h'
    rfl
  | cons hstep hrest ih =>
    cases h' with
    | cons hstep' hrest' =>
      obtain rfl := hstep.unique hstep'
      exact ih hrest'

/-- The rows after some new deposits, which are new indeed. -/
inductive DepositSteps (tx : DaoTx) : DaoRows → List ParsedDaoDeposit → DaoRows → Prop where
  | nil (rows : DaoRows) : DepositSteps tx rows [] rows
  | cons {rows rows' : DaoRows} {deposit : ParsedDaoDeposit} {deposits : List ParsedDaoDeposit}
      (hnew : rows.deposits[(⟨tx.hash, deposit.outputIndex⟩ : DaoOutPoint)]? = none)
      (hrest : DepositSteps tx
        { rows with
          deposits := rows.deposits.insert ⟨tx.hash, deposit.outputIndex⟩
            (depositEntry tx deposit) } deposits rows') :
      DepositSteps tx rows (deposit :: deposits) rows'

theorem DepositSteps.unique (h : DepositSteps tx rows deposits rows')
    (h' : DepositSteps tx rows deposits rows'') : rows' = rows'' := by
  induction h with
  | nil rows =>
    cases h'
    rfl
  | cons _ _ ih =>
    cases h' with
    | cons _ hrest' => exact ih hrest'

/-- What a transaction does to the rows. -/
structure TxStep (tx : DaoTx) (rows rows' : DaoRows) : Prop where
  step : ∃ outputs deposits mid, daoTxOutputs tx = .ok outputs ∧
    SpendSteps tx outputs rows tx.inputs.zipIdx mid ∧
    parseDepositsFromCells tx.outputs = .ok deposits ∧ DepositSteps tx mid deposits rows'

theorem TxStep.unique (h : TxStep tx rows rows') (h' : TxStep tx rows rows'') : rows' = rows'' := by
  obtain ⟨outputs, deposits, mid, houtputs, hspends, hdeposits, hnew⟩ := h.step
  obtain ⟨outputs', deposits', mid', houtputs', hspends', hdeposits', hnew'⟩ := h'.step
  obtain rfl := Except.ok.inj (houtputs.symm.trans houtputs')
  obtain rfl := Except.ok.inj (hdeposits.symm.trans hdeposits')
  obtain rfl := hspends.unique hspends'
  exact hnew.unique hnew'

/-- The rows after some transactions. -/
inductive TxSteps : DaoRows → List DaoTx → DaoRows → Prop where
  | nil (rows : DaoRows) : TxSteps rows [] rows
  | cons {rows mid rows' : DaoRows} {tx : DaoTx} {txs : List DaoTx} (hstep : TxStep tx rows mid)
      (hrest : TxSteps mid txs rows') : TxSteps rows (tx :: txs) rows'

namespace TxSteps

theorem unique (h : TxSteps rows txs rows') (h' : TxSteps rows txs rows'') : rows' = rows'' := by
  induction h with
  | nil rows =>
    cases h'
    rfl
  | cons hstep hrest ih =>
    cases h' with
    | cons hstep' hrest' =>
      obtain rfl := hstep.unique hstep'
      exact ih hrest'

theorem append {mid : DaoRows} {txs' : List DaoTx} (h : TxSteps rows txs mid)
    (h' : TxSteps mid txs' rows') : TxSteps rows (txs ++ txs') rows' := by
  induction h with
  | nil rows => exact h'
  | cons hstep hrest ih => exact .cons hstep (ih h')

theorem of_append {txs' : List DaoTx} (h : TxSteps rows (txs ++ txs') rows') :
    ∃ mid, TxSteps rows txs mid ∧ TxSteps mid txs' rows' := by
  induction txs generalizing rows with
  | nil => exact ⟨rows, .nil rows, h⟩
  | cons tx txs ih =>
    cases h with
    | cons hstep hrest =>
      obtain ⟨mid, hfirst, hlast⟩ := ih hrest
      exact ⟨mid, .cons hstep hfirst, hlast⟩

end TxSteps

/-! ## The batch stands for the rows it commits -/

namespace LiveDaoBatch

variable {store : DaoRows} {batch batch' : LiveDaoBatch} {outputs : DaoTxOutputs}

theorem lookupDeposit_eq (batch : LiveDaoBatch) (store : DaoRows) (key : DaoOutPoint) :
    batch.lookupDeposit store key = (batch.commit store).deposits[key]? := by
  simp only [commit, lookupDeposit, getElem?_union]
  cases batch.entries[key]? <;> rfl

/-- A request the batch has not consumed is open, or in the committed rows. -/
def Coherent (store : DaoRows) (batch : LiveDaoBatch) : Prop :=
  ∀ key, batch.spentRequests.contains key = false →
    (batch.commit store).byWithdrawTx[key]? = batch.openRequests[key]?.or store.byWithdrawTx[key]?

theorem coherent_empty (store : DaoRows) : Coherent store {} := by
  intro key _
  simp [commit]

theorem lookupRequest_eq (h : batch.Coherent store) {r : Option DaoOutPoint}
    (hr : batch.lookupRequest store key = .ok r) : r = (batch.commit store).byWithdrawTx[key]? := by
  simp only [lookupRequest, bind_eq_ok, ensure_eq_ok] at hr
  obtain ⟨-, hspent, hr⟩ := hr
  rw [h key hspent]
  split at hr <;> rename_i hopen <;> rw [hopen, ← return_eq_ok.mp hr] <;> rfl

theorem commit_insert_entry (store : DaoRows) (entries : DaoDeposits)
    (key : DaoOutPoint) (entry : DaoDepositCacheEntry) :
    store.deposits ∪ entries.insert key entry = (store.deposits ∪ entries).insert key entry := by
  refine ext_getElem? fun k => ?_
  rw [getElem?_union, getElem?_insert_ite, getElem?_insert_ite, getElem?_union]
  split <;> rfl

section Coherent

variable (hcoh : batch.Coherent store)

include hcoh

theorem applyWithdrawRequest_spec (hcell : input.1.cell.isDao = true)
    (hrow : (batch.commit store).deposits[input.1.outpoint]? = some entry)
    (h : batch.applyWithdrawRequest tx tx.blockDaoAr input.2 input.1.outpoint entry outputs
      = .ok batch') :
    SpendStep tx outputs (batch.commit store) input (batch'.commit store) ∧
      batch'.Coherent store := by
  simp only [applyWithdrawRequest, bind_eq_ok, ensure_eq_ok, required_eq_ok, return_eq_ok] at h
  obtain ⟨-, hstatus, request, hrequest, -, ⟨hcapacity, -, hblock⟩, -, hopen, rfl⟩ := h
  have hrequest : outputs.requests[input.2]? = some (some request) := by
    obtain ⟨r, hr, rfl⟩ := Option.bind_eq_some_iff.mp hrequest
    exact hr
  constructor
  · have hstep := @SpendStep.requested tx outputs _ input entry request hcell hrow hrequest hstatus
      hcapacity hblock
    convert hstep using 1
    refine DaoRows.ext ?_ ?_
    · exact commit_insert_entry store batch.entries _ _
    · simp [commit]
  · intro key hspent
    have hold := hcoh key hspent
    simp only [commit, List.foldl_append, List.foldl_cons, List.foldl_nil] at hold ⊢
    rw [getElem?_insert_ite, getElem?_insert_ite, hold]
    split <;> rfl

theorem applyWithdrawCompletion_spec {deposit : DaoOutPoint} (hcell : input.1.cell.isDao = true)
    (hnone : (batch.commit store).deposits[input.1.outpoint]? = none)
    (hdeposit : (batch.commit store).byWithdrawTx[input.1.outpoint]? = some deposit)
    (h : batch.applyWithdrawCompletion store tx input.1.outpoint deposit outputs = .ok batch') :
    SpendStep tx outputs (batch.commit store) input (batch'.commit store) ∧
      batch'.Coherent store := by
  simp only [applyWithdrawCompletion, bind_eq_ok, ensure_eq_ok, required_eq_ok, return_eq_ok,
    withContext_eq_ok, lookupDeposit_eq] at h
  obtain ⟨entry, hrow, -, hstatus, requestBlock, hblock, -, hlater, -, -, compensation, hcomp, rfl⟩ :=
    h
  constructor
  · have hstep := @SpendStep.completed tx outputs _ input deposit entry requestBlock compensation
      hcell hnone hdeposit hrow hstatus hblock hlater hcomp
    convert hstep using 1
    exact DaoRows.ext (commit_insert_entry store batch.entries _ _) rfl
  · intro key hspent
    rw [ExtTreeSet.contains_insert] at hspent
    simp only [Bool.or_eq_false_iff] at hspent
    have hne : input.1.outpoint ≠ key := by
      rintro rfl
      simp at hspent
    rw [getElem?_erase_ite, if_neg hne]
    exact hcoh key hspent.2

theorem applyInput_spec (h : applyInput store tx tx.blockDaoAr outputs batch input = .ok batch') :
    SpendStep tx outputs (batch.commit store) input (batch'.commit store) ∧
      batch'.Coherent store := by
  simp only [applyInput, bind_eq_ok] at h
  obtain ⟨-, -, h⟩ := h
  split at h
  · rename_i hcell
    rw [← return_eq_ok.mp h]
    exact ⟨.skipped (by simpa using hcell), hcoh⟩
  · rename_i hcell
    have hcell : input.1.cell.isDao = true := by simpa using hcell
    obtain ⟨asRequest, hrequest, h⟩ := bind_eq_ok.mp h
    obtain rfl := lookupRequest_eq hcoh hrequest
    simp only [lookupDeposit_eq] at h
    split at h
    · rename_i entry hentry hnone
      exact applyWithdrawRequest_spec hcoh hcell hentry h
    · rename_i deposit hnone hdeposit
      exact applyWithdrawCompletion_spec hcoh hcell hnone hdeposit h
    · cases h
    · cases h

theorem foldlM_applyInput_spec
    (h : inputs.foldlM (applyInput store tx tx.blockDaoAr outputs) batch = .ok batch') :
    SpendSteps tx outputs (batch.commit store) inputs (batch'.commit store) ∧
      batch'.Coherent store := by
  induction inputs generalizing batch with
  | nil =>
    rw [← return_eq_ok.mp h]
    exact ⟨.nil _, hcoh⟩
  | cons input inputs ih =>
    obtain ⟨mid, hmid, hrest⟩ := foldlM_cons_eq_ok.mp h
    obtain ⟨hstep, hcoh⟩ := applyInput_spec hcoh hmid
    obtain ⟨hsteps, hcoh⟩ := ih hcoh hrest
    exact ⟨.cons hstep hsteps, hcoh⟩

theorem foldlM_applyDeposit_spec
    (h : deposits.foldlM (applyDeposit store tx tx.blockDaoAr) batch = .ok batch') :
    DepositSteps tx (batch.commit store) deposits (batch'.commit store) ∧
      batch'.Coherent store := by
  induction deposits generalizing batch with
  | nil =>
    rw [← return_eq_ok.mp h]
    exact ⟨.nil _, hcoh⟩
  | cons deposit deposits ih =>
    obtain ⟨mid, hmid, hrest⟩ := foldlM_cons_eq_ok.mp h
    simp only [applyDeposit, buildDaoCacheEntry, bind_eq_ok, ensure_eq_ok, return_eq_ok,
      lookupDeposit_eq] at hmid
    obtain ⟨-, -, -, hnew, entry, ⟨-, -, rfl⟩, rfl⟩ := hmid
    obtain ⟨hsteps, hcoh⟩ := ih (by exact hcoh) hrest
    refine ⟨.cons hnew ?_, hcoh⟩
    convert hsteps using 1
    exact DaoRows.ext (commit_insert_entry store batch.entries _ _).symm rfl

theorem applyTx_spec (h : applyTx store batch tx = .ok batch') :
    TxStep tx (batch.commit store) (batch'.commit store) ∧ batch'.Coherent store := by
  simp only [applyTx, bind_eq_ok] at h
  obtain ⟨-, -, outputs, houtputs, mid, hmid, deposits, hdeposits, h⟩ := h
  obtain ⟨hspends, hcoh⟩ := foldlM_applyInput_spec hcoh hmid
  obtain ⟨hnew, hcoh⟩ := foldlM_applyDeposit_spec hcoh h
  exact ⟨⟨outputs, deposits, mid.commit store, houtputs, hspends, hdeposits, hnew⟩, hcoh⟩

theorem foldlM_applyTx_spec (h : txs.foldlM (applyTx store) batch = .ok batch') :
    TxSteps (batch.commit store) txs (batch'.commit store) ∧ batch'.Coherent store := by
  induction txs generalizing batch with
  | nil =>
    rw [← return_eq_ok.mp h]
    exact ⟨.nil _, hcoh⟩
  | cons tx txs ih =>
    obtain ⟨mid, hmid, hrest⟩ := foldlM_cons_eq_ok.mp h
    obtain ⟨hstep, hcoh⟩ := applyTx_spec hcoh hmid
    obtain ⟨hsteps, hcoh⟩ := ih hcoh hrest
    exact ⟨.cons hstep hsteps, hcoh⟩

end Coherent

theorem commit_empty (store : DaoRows) : ({} : LiveDaoBatch).commit store = store := by
  refine DaoRows.ext (ext_getElem? fun key => ?_) rfl
  simp [commit, getElem?_union]

end LiveDaoBatch

/-- The transactions the lifecycle is about. -/
def daoTxs (txs : List DaoTx) : List DaoTx := txs.filter (!·.isCellbase)

theorem liveDaoBatch_steps {store : DaoRows}
    (h : liveDaoBatch store txs = .ok rows) : TxSteps store (daoTxs txs) rows := by
  simp only [liveDaoBatch, bind_eq_ok, return_eq_ok] at h
  obtain ⟨batch, hbatch, rfl⟩ := h
  obtain ⟨hsteps, -⟩ := LiveDaoBatch.foldlM_applyTx_spec (LiveDaoBatch.coherent_empty store) hbatch
  rwa [LiveDaoBatch.commit_empty] at hsteps

/-- A live run takes the steps of the transactions of its batches. -/
theorem liveDaoRun_steps {batches : List (List DaoTx)}
    (h : liveDaoRun batches = .ok rows) : TxSteps {} (daoTxs batches.flatten) rows := by
  suffices hall : ∀ store, batches.foldlM liveDaoBatch store = .ok rows →
      TxSteps store (daoTxs batches.flatten) rows from hall {} h
  clear h
  induction batches with
  | nil =>
    intro store h
    rw [← return_eq_ok.mp h]
    exact .nil _
  | cons txs batches ih =>
    intro store h
    obtain ⟨mid, hmid, hrest⟩ := foldlM_cons_eq_ok.mp h
    rw [List.flatten_cons, daoTxs, List.filter_append]
    exact (liveDaoBatch_steps hmid).append (ih mid hrest)

/-! ## The life of one row -/

/-- One step of a row: from deposited to requested, or from requested to withdrawn. -/
inductive EntryStep (tx : DaoTx) (entry : DaoDepositCacheEntry) : DaoDepositCacheEntry → Prop where
  | requested (outputs : DaoTxOutputs) (request : NewDaoOutput) (hstatus : entry.status = 0)
      (houtputs : daoTxOutputs tx = .ok outputs) (hrequest : some request ∈ outputs.requests) :
      EntryStep tx entry (requestedEntry tx request entry)
  | completed (outputs : DaoTxOutputs) (requestBlock compensation : Int) (hstatus : entry.status = 1)
      (houtputs : daoTxOutputs tx = .ok outputs)
      (hblock : entry.withdrawRequestBlock = some requestBlock)
      (hlater : requestBlock < tx.blockNumber)
      (hcompensation : daoFrozenRequestCompensation entry = .ok compensation) :
      EntryStep tx entry (completedEntry tx outputs compensation entry)

/-- The steps of a row under transactions of a kind. -/
inductive EntrySteps (P : DaoTx → Prop) : DaoDepositCacheEntry → DaoDepositCacheEntry → Prop where
  | refl (entry : DaoDepositCacheEntry) : EntrySteps P entry entry
  | step {entry mid entry' : DaoDepositCacheEntry} (tx : DaoTx) (htx : P tx)
      (hsteps : EntrySteps P entry mid) (hstep : EntryStep tx mid entry') :
      EntrySteps P entry entry'

theorem EntrySteps.trans {a b c : DaoDepositCacheEntry} (h : EntrySteps P a b)
    (h' : EntrySteps P b c) : EntrySteps P a c := by
  induction h' with
  | refl => exact h
  | step tx htx _ hstep ih => exact .step tx htx ih hstep

/-- Every row under a key of one set of rows goes on in another. -/
def RowsEvolve (P : DaoTx → Prop) (rows rows' : DaoRows) : Prop :=
  ∀ (key : DaoOutPoint) (entry : DaoDepositCacheEntry), rows.deposits[key]? = some entry →
    ∃ entry', rows'.deposits[key]? = some entry' ∧ EntrySteps P entry entry'

/-- An outpoint at which a transaction deposits, and a row its deposit can become. -/
def BeganAt (P : DaoTx → Prop) (key : DaoOutPoint) (entry : DaoDepositCacheEntry) : Prop :=
  ∃ tx deposits deposit, P tx ∧ parseDepositsFromCells tx.outputs = .ok deposits ∧
    deposit ∈ deposits ∧ key = ⟨tx.hash, deposit.outputIndex⟩ ∧
    EntrySteps P (depositEntry tx deposit) entry

/-- Every row began as a deposit. -/
def RowsBegan (P : DaoTx → Prop) (rows : DaoRows) : Prop :=
  ∀ (key : DaoOutPoint) (entry : DaoDepositCacheEntry), rows.deposits[key]? = some entry →
    BeganAt P key entry

section Evolve

variable {outputs : DaoTxOutputs} {mid : DaoRows}

theorem RowsEvolve.refl (rows : DaoRows) : RowsEvolve P rows rows :=
  fun _ entry hentry => ⟨entry, hentry, .refl entry⟩

theorem RowsEvolve.trans (h : RowsEvolve P rows mid) (h' : RowsEvolve P mid rows') :
    RowsEvolve P rows rows' := by
  intro key entry hentry
  obtain ⟨entry', hentry', hsteps⟩ := h key entry hentry
  obtain ⟨entry'', hentry'', hsteps'⟩ := h' key entry' hentry'
  exact ⟨entry'', hentry'', hsteps.trans hsteps'⟩

theorem RowsEvolve.insert (htx : P tx) (hrow : rows.deposits[key]? = some entry)
    (hstep : EntryStep tx entry entry') (byWithdrawTx : ExtTreeMap DaoOutPoint DaoOutPoint) :
    RowsEvolve P rows ⟨rows.deposits.insert key entry', byWithdrawTx⟩ := by
  intro k e he
  by_cases hkey : key = k
  · subst hkey
    obtain rfl := Option.mem_unique hrow he
    exact ⟨entry', by simp, .step tx htx (.refl _) hstep⟩
  · exact ⟨e, by simp [getElem?_insert_ite, hkey, he], .refl _⟩

theorem RowsBegan.insert (h : RowsBegan P rows)
    {byWithdrawTx : ExtTreeMap DaoOutPoint DaoOutPoint}
    (hkey : BeganAt P key entry') :
    RowsBegan P ⟨rows.deposits.insert key entry', byWithdrawTx⟩ := by
  intro k e he
  obtain ⟨rfl, rfl⟩ | ⟨-, he⟩ := getElem?_insert_eq_some.mp he
  · exact hkey
  · exact h k e he

theorem SpendStep.evolve (htx : P tx) (houtputs : daoTxOutputs tx = .ok outputs)
    (h : SpendStep tx outputs rows input rows') :
    RowsEvolve P rows rows' ∧ (RowsBegan P rows → RowsBegan P rows') := by
  -- a row's next step keeps the deposit it began with
  have hnext : ∀ {key : DaoOutPoint} {entry entry' : DaoDepositCacheEntry}
      {byWithdrawTx : ExtTreeMap DaoOutPoint DaoOutPoint},
      rows.deposits[key]? = some entry → EntryStep tx entry entry' →
      RowsEvolve P rows ⟨rows.deposits.insert key entry', byWithdrawTx⟩ ∧
        (RowsBegan P rows → RowsBegan P ⟨rows.deposits.insert key entry', byWithdrawTx⟩) := by
    intro key entry entry' byWithdrawTx hrow hstep
    refine ⟨.insert htx hrow hstep _, fun hbegan => hbegan.insert ?_⟩
    obtain ⟨tx', deposits, deposit, htx', hparse, hmem, hkey, hsteps⟩ := hbegan key entry hrow
    exact ⟨tx', deposits, deposit, htx', hparse, hmem, hkey, .step tx htx hsteps hstep⟩
  cases h with
  | skipped _ => exact ⟨.refl _, id⟩
  | requested entry request _ hrow hrequest hstatus _ _ =>
    exact hnext hrow (.requested outputs request hstatus houtputs (List.mem_of_getElem? hrequest))
  | completed deposit entry requestBlock compensation _ _ _ hrow hstatus hblock hlater hcomp =>
    exact hnext hrow (.completed outputs requestBlock compensation hstatus houtputs hblock hlater
      hcomp)

theorem SpendSteps.evolve (htx : P tx) (houtputs : daoTxOutputs tx = .ok outputs)
    (h : SpendSteps tx outputs rows inputs rows') :
    RowsEvolve P rows rows' ∧ (RowsBegan P rows → RowsBegan P rows') := by
  induction h with
  | nil rows => exact ⟨.refl _, id⟩
  | cons hstep _ ih =>
    obtain ⟨hevolve, hbegan⟩ := hstep.evolve htx houtputs
    exact ⟨hevolve.trans ih.1, ih.2 ∘ hbegan⟩

theorem DepositSteps.evolve (htx : P tx) {all : List ParsedDaoDeposit}
    (hparse : parseDepositsFromCells tx.outputs = .ok all) (hsub : deposits ⊆ all)
    (h : DepositSteps tx rows deposits rows') :
    RowsEvolve P rows rows' ∧ (RowsBegan P rows → RowsBegan P rows') := by
  induction h with
  | nil rows => exact ⟨.refl _, id⟩
  | @cons rows _ deposit deposits hnew _ ih =>
    obtain ⟨hmem, hsub⟩ := List.cons_subset.mp hsub
    refine ⟨RowsEvolve.trans ?_ (ih hsub).1, fun hbegan => (ih hsub).2 ?_⟩
    · intro key entry hentry
      refine ⟨entry, ?_, .refl _⟩
      rw [getElem?_insert_of_ne, hentry]
      rintro rfl
      simp [hnew] at hentry
    · exact hbegan.insert ⟨tx, all, deposit, htx, hparse, hmem, rfl, .refl _⟩

theorem TxStep.evolve (htx : P tx) (h : TxStep tx rows rows') :
    RowsEvolve P rows rows' ∧ (RowsBegan P rows → RowsBegan P rows') := by
  obtain ⟨outputs, deposits, mid, houtputs, hspends, hparse, hnew⟩ := h.step
  obtain ⟨hevolve, hbegan⟩ := hspends.evolve htx houtputs
  obtain ⟨hevolve', hbegan'⟩ := hnew.evolve htx hparse (List.Subset.refl _)
  exact ⟨hevolve.trans hevolve', hbegan' ∘ hbegan⟩

/-- Along a run rows only take the steps of their life, and every row began as a
deposit. -/
theorem TxSteps.evolve (htxs : ∀ tx ∈ txs, P tx) (h : TxSteps rows txs rows') :
    RowsEvolve P rows rows' ∧ (RowsBegan P rows → RowsBegan P rows') := by
  induction h with
  | nil rows => exact ⟨.refl _, id⟩
  | cons hstep _ ih =>
    obtain ⟨hevolve, hbegan⟩ := hstep.evolve (htxs _ List.mem_cons_self)
    obtain ⟨hevolve', hbegan'⟩ := ih (List.forall_mem_cons.mp htxs).2
    exact ⟨hevolve.trans hevolve', hbegan' ∘ hbegan⟩

theorem rowsBegan_empty : RowsBegan P {} := by
  intro key entry hentry
  simp at hentry

end Evolve

/-! ## Rows by where they are in their life -/

/-- A row as a deposit leaves it. -/
structure Deposited (entry : DaoDepositCacheEntry) : Prop where
  status : entry.status = 0
  request : entry.withdrawRequestTx = none ∧ entry.withdrawRequestOutputIndex = none ∧
    entry.withdrawRequestBlock = none ∧ entry.withdrawRequestAr = none ∧
    entry.withdrawRequestOccupiedCapacity = none
  completion : entry.withdrawBlock = none ∧ entry.withdrawTx = none ∧
    entry.withdrawToOutputIndex = none ∧ entry.compensation = none

/-- The three stages of a row, with the transactions that brought it there. -/
inductive Stage (P : DaoTx → Prop) : DaoDepositCacheEntry → Prop where
  | deposited {entry : DaoDepositCacheEntry} (h : Deposited entry) : Stage P entry
  | requested {entry : DaoDepositCacheEntry} (h : Deposited entry) (tx : DaoTx) (htx : P tx)
      (request : NewDaoOutput) : Stage P (requestedEntry tx request entry)
  | completed {entry : DaoDepositCacheEntry} (h : Deposited entry) (tx tx' : DaoTx) (htx : P tx)
      (htx' : P tx') (request : NewDaoOutput) (outputs : DaoTxOutputs) (compensation : Int) :
      Stage P (completedEntry tx' outputs compensation (requestedEntry tx request entry))

theorem Stage.of_steps (h : Deposited entry) (hsteps : EntrySteps P entry entry') :
    Stage P entry' := by
  induction hsteps with
  | refl => exact .deposited h
  | step tx htx _ hstep ih =>
    cases ih with
    | deposited hmid =>
      cases hstep with
      | requested _ request _ _ _ => exact .requested hmid tx htx request
      | completed _ _ _ hstatus => simp [hmid.status] at hstatus
    | requested hmid tx' htx' request' =>
      cases hstep with
      | requested _ _ hstatus => simp [requestedEntry] at hstatus
      | completed outputs requestBlock compensation _ _ _ _ _ =>
        exact .completed hmid tx' tx htx' htx request' outputs compensation
    | completed hmid tx' tx'' _ _ request' outputs' compensation' =>
      cases hstep with
      | requested _ _ hstatus | completed _ _ _ hstatus => simp [completedEntry] at hstatus

theorem EntrySteps.of_requested (hsteps : EntrySteps P entry entry') (hstatus : entry.status = 1) :
    entry' = entry ∨ ∃ tx outputs compensation, P tx ∧
      entry' = completedEntry tx outputs compensation entry := by
  induction hsteps with
  | refl => exact .inl rfl
  | step tx htx _ hstep ih =>
    obtain rfl | ⟨tx', outputs', compensation', -, rfl⟩ := ih
    · cases hstep with
      | requested _ _ hzero => simp [hstatus] at hzero
      | completed outputs _ compensation => exact .inr ⟨tx, outputs, compensation, htx, rfl⟩
    · cases hstep with
      | requested _ _ hend | completed _ _ _ hend => simp [completedEntry] at hend

theorem EntrySteps.of_completed (hsteps : EntrySteps P entry entry') (hstatus : entry.status = 2) :
    entry' = entry := by
  induction hsteps with
  | refl => rfl
  | step tx htx _ hstep ih =>
    subst ih
    cases hstep with
    | requested _ _ hend | completed _ _ _ hend => simp [hstatus] at hend

/-! ## A deposit, its request and its completion -/

def walletDaoCell : DaoCell :=
  { capacity := 30000000000, lockScriptHash := [1], lockArgsLen := 20, typeCodeHash := none
    typeHashType := none, typeArgsLen := none, dataSize := 0, data := [] }

def depositCell : DaoCell :=
  { capacity := 20000000000, lockScriptHash := [1], lockArgsLen := 20
    typeCodeHash := some daoCodeHash, typeHashType := some 1, typeArgsLen := some 0, dataSize := 8
    data := List.replicate 8 0 }

/-- The withdraw request of a deposit made in the given block. -/
def requestCell (depositBlock : Nat) : DaoCell :=
  { depositCell with data := leBytes 8 depositBlock }

/-- A transaction of block `n` that spends one cell and creates one. -/
def daoExchange (n ar : Nat) (spent : Nat) (input output : DaoCell) : DaoTx :=
  { hash := .ofNat n, blockNumber := n, timestamp := 1000 * n, chainTimeMs := 1000 * n
    blockDaoAr := ar, inputs := [⟨⟨.ofNat spent, 0⟩, input⟩], outputs := [output] }

/-- A deposit in block 1, requested in block 2 and completed in block 3. -/
def daoLife : List DaoTx :=
  [ daoExchange 1 100 101 walletDaoCell depositCell,
    daoExchange 2 110 1 depositCell (requestCell 1),
    daoExchange 3 120 2 (requestCell 1) walletDaoCell ]

end Ckbadger.Writer
