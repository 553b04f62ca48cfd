/-
Ckbadger.Sync.DaoRollback — a DAO row taken back to an earlier block.

The rollback keeps one row per deposit and clears the fields of what happened after the
fork: those of the completion, and those of the withdraw request. It does not clear the
occupied capacity of the request's cell, so a deposit whose request is rolled back keeps
that field; every other row comes back as it was (`normalize_dao_entry_iff`).
-/
import Ckbadger.Writer.DaoLife

namespace Ckbadger.Sync

open Lib Store Writer

def clearDaoWithdrawRequestFields (entry : DaoDepositCacheEntry) : DaoDepositCacheEntry :=
  { entry with
    withdrawRequestTx := none
    withdrawRequestOutputIndex := none
    withdrawRequestBlock := none
    withdrawRequestAr := none }

def clearDaoWithdrawCompletionFields (entry : DaoDepositCacheEntry) : DaoDepositCacheEntry :=
  { entry with
    withdrawBlock := none
    withdrawTx := none
    withdrawToOutputIndex := none
    compensation := none }

def hasRequestField (entry : DaoDepositCacheEntry) : Bool :=
  entry.withdrawRequestTx.isSome || entry.withdrawRequestOutputIndex.isSome ||
    entry.withdrawRequestBlock.isSome || entry.withdrawRequestAr.isSome

def lacksRequestField (entry : DaoDepositCacheEntry) : Bool :=
  entry.withdrawRequestTx.isNone || entry.withdrawRequestOutputIndex.isNone ||
    entry.withdrawRequestBlock.isNone || entry.withdrawRequestAr.isNone

def hasCompletionField (entry : DaoDepositCacheEntry) : Bool :=
  entry.withdrawBlock.isSome || entry.withdrawTx.isSome || entry.compensation.isSome

def lacksCompletionField (entry : DaoDepositCacheEntry) : Bool :=
  entry.withdrawBlock.isNone || entry.withdrawTx.isNone || entry.compensation.isNone

/-- A row that is being normalised, and whether that has changed it. -/
abbrev Normalizing := DaoDepositCacheEntry × Bool

def resetStatus (status : Int) (s : Normalizing) : Normalizing :=
  if s.1.status ≠ status then ({ s.1 with status := status }, true) else s

def clearRequest (s : Normalizing) : Normalizing :=
  if hasRequestField s.1 then (clearDaoWithdrawRequestFields s.1, true) else s

def clearCompletion (s : Normalizing) : Normalizing :=
  if hasCompletionField s.1 then (clearDaoWithdrawCompletionFields s.1, true) else s

/-- Takes back a request made after the fork. -/
def undoRequest (rollbackTo : Int) (s : Normalizing) : Normalizing :=
  if s.1.withdrawRequestBlock.any (rollbackTo < ·) then
    clearCompletion (clearRequest (resetStatus 0 s))
  else s

/-- Takes back a completion made after the fork. -/
def undoCompletion (rollbackTo : Int) (s : Normalizing) : Normalizing :=
  if s.1.withdrawBlock.any (rollbackTo < ·) then clearCompletion (resetStatus 1 s) else s

/-- The row at the fork, and whether it differs. -/
def normalizeDaoEntryForRollback (entry : DaoDepositCacheEntry) (rollbackTo : Int) :
    Except String Normalizing :=
  let s := undoCompletion rollbackTo (undoRequest rollbackTo (entry, false))
  if s.1.status = 0 then return clearCompletion (clearRequest s)
  else if s.1.status = 1 then do
    ensure (lacksRequestField s.1 = false)
      "inconsistent DAO entry after rollback normalization: status=1 missing request fields or AR"
    return clearCompletion s
  else if s.1.status = 2 then do
    ensure (lacksRequestField s.1 = false)
      "inconsistent DAO entry after rollback normalization: status=2 missing request fields or AR"
    ensure (lacksCompletionField s.1 = false)
      "inconsistent DAO entry after rollback normalization: status=2 missing completion fields"
    return s
  else .error "invalid DAO status in rollback normalization"

/-! ## What normalising does -/

section Normalize

variable {P : DaoTx → Prop} {entry : DaoDepositCacheEntry} {rollbackTo : Int}

section Unfolded

attribute [local simp] normalizeDaoEntryForRollback undoRequest undoCompletion resetStatus
  clearRequest clearCompletion clearDaoWithdrawRequestFields clearDaoWithdrawCompletionFields
  hasRequestField lacksRequestField hasCompletionField lacksCompletionField requestedEntry
  completedEntry ensure

/-- A row all of whose steps are at or before the fork stays as it is. -/
theorem normalize_of_stage (h : Stage (fun tx => tx.blockNumber ≤ rollbackTo) entry) :
    normalizeDaoEntryForRollback entry rollbackTo = .ok (entry, false) := by
  cases h with
  | deposited h =>
    obtain ⟨hstatus, ⟨h1, h2, h3, h4, -⟩, h5, h6, -, h7⟩ := h
    simp [*]
  | requested h tx htx request =>
    obtain ⟨-, -, h5, h6, -, h7⟩ := h
    have hblock : ¬rollbackTo < tx.blockNumber := not_lt.mpr htx
    simp [*]
  | completed h tx tx' htx htx' request outputs compensation =>
    have hblock : ¬rollbackTo < tx.blockNumber := not_lt.mpr htx
    have hblock' : ¬rollbackTo < tx'.blockNumber := not_lt.mpr htx'
    simp [*]

/-- A completion after the fork is taken back without a trace. -/
theorem normalize_completed (h : Deposited entry) {tx tx' : DaoTx}
    (htx : tx.blockNumber ≤ rollbackTo) (htx' : rollbackTo < tx'.blockNumber)
    (request : NewDaoOutput) (outputs : DaoTxOutputs) (compensation : Int) :
    normalizeDaoEntryForRollback
        (completedEntry tx' outputs compensation (requestedEntry tx request entry)) rollbackTo
      = .ok (requestedEntry tx request entry, true) := by
  obtain ⟨-, -, h5, h6, h7, h8⟩ := h
  have hblock : ¬rollbackTo < tx.blockNumber := not_lt.mpr htx
  simp [*]

/-- A request after the fork is taken back except for the occupied capacity of its cell, with
its completion if there is one. -/
theorem normalize_requested (h : Deposited entry) {tx : DaoTx} (htx : rollbackTo < tx.blockNumber)
    {request : NewDaoOutput} {entry' : DaoDepositCacheEntry}
    (hentry : entry' = requestedEntry tx request entry ∨ ∃ tx' outputs compensation,
      entry' = completedEntry tx' outputs compensation (requestedEntry tx request entry)) :
    normalizeDaoEntryForRollback entry' rollbackTo = .ok
      ({ entry with withdrawRequestOccupiedCapacity := some request.occupiedCapacity }, true) := by
  obtain ⟨h0, ⟨h1, h2, h3, h4, -⟩, h5, h6, h7, h8⟩ := h
  obtain rfl | ⟨tx', outputs, compensation, rfl⟩ := hentry
  · simp [*]
  · simp [*]

end Unfolded

/-- A row that has gone on after the fork comes back exactly when its request is not
after the fork. -/
theorem normalize_eq_iff {entry' : DaoDepositCacheEntry}
    (h : Stage (fun tx => tx.blockNumber ≤ rollbackTo) entry)
    (hsteps : EntrySteps (fun tx => rollbackTo < tx.blockNumber) entry entry') :
    (∃ changed, normalizeDaoEntryForRollback entry' rollbackTo = .ok (entry, changed)) ↔
      ∀ block ∈ entry'.withdrawRequestBlock, block ≤ rollbackTo := by
  have hreturn : ∀ {e : DaoDepositCacheEntry} {changed : Bool},
      normalizeDaoEntryForRollback entry' rollbackTo = .ok (e, changed) →
      ((∃ c, normalizeDaoEntryForRollback entry' rollbackTo = .ok (entry, c)) ↔ e = entry) := by
    intro e changed heq
    simp [heq]
  cases h with
  | deposited h =>
    cases Stage.of_steps h hsteps with
    | deposited h' =>
      -- a deposit has not gone on at all
      have hsame : entry' = entry := by
        cases hsteps with
        | refl => rfl
        | step tx htx _ hstep =>
          cases hstep with
          | requested _ _ | completed _ _ _ _ _ _ _ =>
            simpa [requestedEntry, completedEntry] using h'.status
      subst hsame
      rw [hreturn (normalize_of_stage (.deposited h))]
      simp [h.request]
    | requested h' tx htx request =>
      rw [hreturn (normalize_requested h' htx (.inl rfl))]
      simp only [requestedEntry, Option.mem_some_iff, forall_eq', not_le.mpr htx, iff_false]
      rintro rfl
      simpa using h.request.2.2.2.2
    | completed h' tx tx' htx htx' request outputs compensation =>
      rw [hreturn (normalize_requested h' htx (.inr ⟨tx', outputs, compensation, rfl⟩))]
      simp only [completedEntry, requestedEntry, Option.mem_some_iff, forall_eq',
        not_le.mpr htx, iff_false]
      rintro rfl
      simpa using h.request.2.2.2.2
  | @requested entry h tx htx request =>
    obtain rfl | ⟨tx', outputs, compensation, htx', rfl⟩ := hsteps.of_requested rfl
    · rw [hreturn (normalize_of_stage (.requested h tx htx request))]
      simpa [requestedEntry] using htx
    · rw [hreturn (normalize_completed h htx htx' request outputs compensation)]
      simpa [completedEntry, requestedEntry] using htx
  | completed h tx tx' htx htx' request outputs compensation =>
    obtain rfl := hsteps.of_completed rfl
    rw [hreturn (normalize_of_stage (.completed h tx tx' htx htx' request outputs compensation))]
    simpa [completedEntry, requestedEntry] using htx

end Normalize

/-- For every chain the live writer has indexed, in whatever batches, and every fork: a
deposit that a run up to the fork has a row for still has one, and normalising that row
gives back the earlier one in every field exactly when its withdraw request is not after
the fork. -/
theorem normalize_dao_entry_iff {before after : List DaoTx} {batches batchesAtFork : List (List DaoTx)}
    {rows rowsAtFork : DaoRows} {rollbackTo : Int} (hcut : batches.flatten = before ++ after)
    (hcutAtFork : batchesAtFork.flatten = before)
    (hbefore : ∀ tx ∈ before, tx.blockNumber ≤ rollbackTo)
    (hafter : ∀ tx ∈ after, rollbackTo < tx.blockNumber) (hrun : liveDaoRun batches = .ok rows)
    (hrunAtFork : liveDaoRun batchesAtFork = .ok rowsAtFork) {key : DaoOutPoint}
    {entryAtFork : DaoDepositCacheEntry} (hrow : rowsAtFork.deposits[key]? = some entryAtFork) :
    ∃ entry, rows.deposits[key]? = some entry ∧
      ((∃ changed, normalizeDaoEntryForRollback entry rollbackTo = .ok (entryAtFork, changed)) ↔
        ∀ block ∈ entry.withdrawRequestBlock, block ≤ rollbackTo) := by
  have hsteps := liveDaoRun_steps hrun
  have hstepsAtFork := liveDaoRun_steps hrunAtFork
  rw [hcut, daoTxs, List.filter_append] at hsteps
  rw [hcutAtFork] at hstepsAtFork
  obtain ⟨mid, hfirst, hlast⟩ := hsteps.of_append
  obtain rfl := hstepsAtFork.unique hfirst
  obtain ⟨-, hbegan⟩ := hstepsAtFork.evolve (fun tx htx => hbefore tx (List.mem_of_mem_filter htx))
  obtain ⟨hevolve, -⟩ := hlast.evolve (fun tx htx => hafter tx (List.mem_of_mem_filter htx))
  obtain ⟨tx, -, deposit, -, -, -, -, hlife⟩ := hbegan rowsBegan_empty key entryAtFork hrow
  obtain ⟨entry, hentry, hsteps⟩ := hevolve key entryAtFork hrow
  have hdeposited : Deposited (depositEntry tx deposit) := by
    constructor <;> simp [depositEntry]
  exact ⟨entry, hentry, normalize_eq_iff (Stage.of_steps hdeposited hlife) hsteps⟩

/-- Rolled back to block 1, the row of the deposit keeps the occupied capacity of the
request's cell, which the row of block 1 does not have. -/
theorem rollback_keeps_request_occupied :
    ∃ rows rowsAtFork entry entryAtFork normalized,
      liveDaoRun [daoLife.take 2] = .ok rows ∧ liveDaoRun [daoLife.take 1] = .ok rowsAtFork ∧
      rows.deposits[(⟨.ofNat 1, 0⟩ : DaoOutPoint)]? = some entry ∧
      rowsAtFork.deposits[(⟨.ofNat 1, 0⟩ : DaoOutPoint)]? = some entryAtFork ∧
      normalizeDaoEntryForRollback entry 1 = .ok (normalized, true) ∧
      normalized.withdrawRequestOccupiedCapacity = some 10200000000 ∧
      entryAtFork.withdrawRequestOccupiedCapacity = none := by
  have heval : (do
      let rows ← liveDaoRun [daoLife.take 2]
      let entry ← required "" rows.deposits[(⟨.ofNat 1, 0⟩ : DaoOutPoint)]?
      let normalized ← normalizeDaoEntryForRollback entry 1
      return (normalized.1.withdrawRequestOccupiedCapacity, normalized.2))
      = Except.ok (some 10200000000, true) := by decide +kernel
  have hevalAtFork : (do
      let rows ← liveDaoRun [daoLife.take 1]
      let entry ← required "" rows.deposits[(⟨.ofNat 1, 0⟩ : DaoOutPoint)]?
      return entry.withdrawRequestOccupiedCapacity) = Except.ok none := by decide +kernel
  simp only [bind_eq_ok, required_eq_ok, return_eq_ok] at heval hevalAtFork
  obtain ⟨rows, hrun, entry, hentry, ⟨normalized, changed⟩, hnormalize, hvalues⟩ := heval
  obtain ⟨rowsAtFork, hrunAtFork, entryAtFork, hentryAtFork, hnone⟩ := hevalAtFork
  obtain ⟨hoccupied, rfl⟩ := Prod.mk.inj hvalues
  exact ⟨rows, rowsAtFork, entry, entryAtFork, normalized, hrun, hrunAtFork, hentry, hentryAtFork,
    hnormalize, hoccupied, hnone⟩

/-- Rolled back to block 2, the row is that of block 2. -/
theorem normalize_dao_entry_iff_completion :
    ∃ rows rowsAtFork entry entryAtFork changed,
      liveDaoRun [daoLife] = .ok rows ∧ liveDaoRun [daoLife.take 2] = .ok rowsAtFork ∧
      rows.deposits[(⟨.ofNat 1, 0⟩ : DaoOutPoint)]? = some entry ∧
      rowsAtFork.deposits[(⟨.ofNat 1, 0⟩ : DaoOutPoint)]? = some entryAtFork ∧
      normalizeDaoEntryForRollback entry 2 = .ok (entryAtFork, changed) := by
  have heval : (do
      let rows ← liveDaoRun [daoLife]
      let entry ← required "" rows.deposits[(⟨.ofNat 1, 0⟩ : DaoOutPoint)]?
      return entry.withdrawRequestBlock) = Except.ok (some 2) := by decide +kernel
  have hevalAtFork : (do
      let rows ← liveDaoRun [daoLife.take 2]
      let entry ← required "" rows.deposits[(⟨.ofNat 1, 0⟩ : DaoOutPoint)]?
      return entry.status) = Except.ok 1 := by decide +kernel
  simp only [bind_eq_ok, required_eq_ok, return_eq_ok] at heval hevalAtFork
  obtain ⟨rows, hrun, entry, hentry, hblock⟩ := heval
  obtain ⟨rowsAtFork, hrunAtFork, entryAtFork, hentryAtFork, -⟩ := hevalAtFork
  obtain ⟨entry', hentry', hiff⟩ := @normalize_dao_entry_iff (daoLife.take 2) (daoLife.drop 2) _ _ _ _ 2
    rfl rfl (by decide +kernel) (by decide +kernel) hrun hrunAtFork _ _ hentryAtFork
  obtain rfl := Option.mem_unique hentry hentry'
  obtain ⟨changed, hnormalize⟩ := hiff.mpr (by simp [hblock])
  exact ⟨rows, rowsAtFork, entry, entryAtFork, changed, hrun, hrunAtFork, hentry, hentryAtFork,
    hnormalize⟩

end Ckbadger.Sync
