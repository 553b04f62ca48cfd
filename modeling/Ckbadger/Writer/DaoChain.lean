/-
Ckbadger.Writer.DaoChain — chains that follow the DAO rules, and what the rows know of them.

On such a chain every input spends a live cell, a deposit spent as input i comes back as
the withdraw request at output i, nothing else creates a request, and a request is spent in
a later block. Along it every live deposit has its row, and every live request leads to the
row of its deposit (`DaoTracked`), so every transaction has its step.
-/
import Ckbadger.Common.StatsBucket
import Ckbadger.Lib.Runs
import Ckbadger.Writer.DaoLife

namespace Ckbadger.Writer

open Lib Common Ckbadger.Parser Store DaoTxOutputs

/-! ## Chains -/

/-- A live cell and the block that created it. -/
structure LiveDaoCell where
  cell : DaoCell
  block : Int
  deriving DecidableEq

/-- The live cells, by outpoint. -/
abbrev LiveDaoCells := DaoOutPoint → Option LiveDaoCell

/-- The live cells after a transaction. -/
def LiveDaoCells.apply (live : LiveDaoCells) (tx : DaoTx) : LiveDaoCells := fun o =>
  if o.txHash = tx.hash then (tx.outputs[o.index]?).map (⟨·, tx.blockNumber⟩)
  else if o ∈ tx.inputs.map (·.outpoint) then none
  else live o

/-- A transaction that follows the DAO rules. -/
@[mk_iff]
structure ValidDaoTx (arOf : Int → Nat) (live : LiveDaoCells) (tx : DaoTx) : Prop where
  nodup : (tx.inputs.map (·.outpoint)).Nodup
  inputs : ∀ input ∈ tx.inputs, (live input.outpoint).map (·.cell) = some input.cell
  outputs : tx.outputs.length ≤ 2 ^ 15
  block : 0 ≤ tx.blockNumber ∧ tx.blockNumber < 2 ^ 63
  rate : tx.blockDaoAr = arOf tx.blockNumber ∧ 0 < tx.blockDaoAr ∧ tx.blockDaoAr < 2 ^ 63
  time : 0 ≤ tx.timestamp ∧ tx.timestamp ≤ tx.chainTimeMs ∧ (statsDay tx.chainTimeMs).isOk = true
  cellbase : tx.isCellbase = true → tx.inputs = [] ∧ ∀ cell ∈ tx.outputs, cell.isDao = false
  wellFormed : ∀ cell ∈ tx.outputs, cell.isDao = true → WellFormedDaoCell cell
  /-- The deposit at input i becomes the request at output i. -/
  requests : ∀ input ∈ tx.inputs.zipIdx, input.1.cell.holdsDeposit = true →
    (tx.outputs[input.2]?).any (fun cell => cell.isDao && cell.capacity == input.1.cell.capacity &&
      (parseDepositBlockNumber cell.data).map Int.ofNat == (live input.1.outpoint).map (·.block))
      = true
  /-- Nothing else creates a request. -/
  paired : ∀ output ∈ tx.outputs.zipIdx, output.1.holdsRequest = true →
    (tx.inputs[output.2]?).any (·.cell.holdsDeposit) = true
  /-- A request is spent in a later block, and what it pays is a machine integer. -/
  completions : ∀ input ∈ tx.inputs, input.cell.isDao = true →
    ∀ depositBlock ∈ parseDepositBlockNumber input.cell.data, ∀ l ∈ live input.outpoint,
      l.block < tx.blockNumber ∧
        (input.cell.capacity - input.cell.occupied).toNat * arOf l.block / arOf depositBlock
          - (input.cell.capacity - input.cell.occupied).toNat < 2 ^ 63

instance (arOf : Int → Nat) (live : LiveDaoCells) (tx : DaoTx) : Decidable (ValidDaoTx arOf live tx) :=
  decidable_of_iff' _ (validDaoTx_iff arOf live tx)

abbrev ValidDaoFrom (arOf : Int → Nat) : LiveDaoCells → List DaoTx → Prop :=
  ValidRun LiveDaoCells.apply (ValidDaoTx arOf)

/-- A chain of transactions that follow the DAO rules, with the accumulated rate of every
block; it has fewer cells than a machine integer counts. -/
structure ValidDaoChain (arOf : Int → Nat) (txs : List DaoTx) : Prop where
  rates : ∀ m n, m ≤ n → arOf m ≤ arOf n
  hashes : (txs.map (·.hash)).Nodup
  blocks : txs.Pairwise (·.blockNumber ≤ ·.blockNumber)
  valid : ValidDaoFrom arOf (fun _ => none) txs
  size : (txs.map fun tx => tx.inputs.length + tx.outputs.length).sum < 2 ^ 63

/-! ## The outputs of a transaction -/

/-- The withdraw request at an output. -/
def requestOf (txHash : Hash32) (output : DaoCell × Nat) : Option NewDaoOutput :=
  if output.1.isDao then
    (parseDepositBlockNumber output.1.data).map fun depositBlock =>
      ⟨⟨txHash, output.2⟩, output.1.capacity, output.1.occupied, depositBlock⟩
  else none

/-- The outputs of a transaction as the lifecycle sees them. -/
def outputsOf (tx : DaoTx) : DaoTxOutputs where
  requests := tx.outputs.zipIdx.map (requestOf tx.hash)
  withdrawToCandidates :=
    (tx.outputs.zipIdx.filter (!·.1.isDao)).map fun output => (output.2, output.1.lockScriptHash)

theorem foldlM_add_eq_ok {outputs : List (DaoCell × Nat)}
    (hwf : ∀ output ∈ outputs, output.1.isDao = true → WellFormedDaoCell output.1)
    (hindex : ∀ output ∈ outputs, output.2 < 2 ^ 15) (txHash : Hash32) (s : DaoTxOutputs) :
    outputs.foldlM (add txHash) s = .ok {
      requests := s.requests ++ outputs.map (requestOf txHash)
      withdrawToCandidates := s.withdrawToCandidates ++
        (outputs.filter (!·.1.isDao)).map fun output => (output.2, output.1.lockScriptHash) } := by
  induction outputs generalizing s with
  | nil => simp
  | cons output outputs ih =>
    obtain ⟨cell, idx⟩ := output
    obtain ⟨hcell, hwf⟩ := List.forall_mem_cons.mp hwf
    obtain ⟨hidx, hindex⟩ := List.forall_mem_cons.mp hindex
    have hidx : idx < 32768 := hidx
    have hfirst : add txHash s (cell, idx) = .ok {
        requests := s.requests ++ [requestOf txHash (cell, idx)]
        withdrawToCandidates := s.withdrawToCandidates ++
          if cell.isDao then [] else [(idx, cell.lockScriptHash)] } := by
      cases hdao : cell.isDao with
      | false =>
        simp [add, requestOf, ensure, hidx, hdao]
      | true =>
        have hwf : WellFormedDaoCell cell := hcell hdao
        cases hdata : parseDepositBlockNumber cell.data with
        | none =>
          simp [add, requestOf, ensure, hidx, hdao, hwf.dataSize, hdata]
        | some depositBlock =>
          simp [add, requestOf, ensure, hidx, hdao, hwf.dataSize, hdata, hwf.occupiedCapacity_eq.1]
    refine foldlM_cons_eq_ok.mpr ⟨_, hfirst, ?_⟩
    rw [ih hwf hindex]
    cases hdao : cell.isDao <;> simp [hdao]

section Valid

variable {arOf : Int → Nat} {live : LiveDaoCells} {tx : DaoTx}

theorem ValidDaoTx.mem_outputs (h : ValidDaoTx arOf live tx) {output : DaoCell × Nat}
    (houtput : output ∈ tx.outputs.zipIdx) :
    tx.outputs[output.2]? = some output.1 ∧ output.1 ∈ tx.outputs ∧ output.2 < 2 ^ 15 := by
  have hget : tx.outputs[output.2]? = some output.1 := by
    simpa using List.mem_zipIdx_iff_getElem?.mp houtput
  obtain ⟨hlt, -⟩ := List.getElem?_eq_some_iff.mp hget
  exact ⟨hget, List.mem_of_getElem? hget, hlt.trans_le h.outputs⟩

/-- A request takes the place of the deposit at the input of its index. -/
theorem ValidDaoTx.paired_input (h : ValidDaoTx arOf live tx) {out : DaoCell} {i : Nat}
    (hout : tx.outputs[i]? = some out) (hrequest : out.holdsRequest = true) :
    ∃ input, tx.inputs[i]? = some input ∧ input.cell.holdsDeposit = true :=
  (Option.any_eq_true _ _).mp (h.paired (out, i) (List.mem_zipIdx_iff_getElem?.mpr hout) hrequest)

theorem ValidDaoTx.daoTxOutputs_eq_ok (h : ValidDaoTx arOf live tx) :
    daoTxOutputs tx = .ok (outputsOf tx) := by
  rw [daoTxOutputs, foldlM_add_eq_ok
    (fun output houtput => h.wellFormed _ (h.mem_outputs houtput).2.1)
    (fun output houtput => (h.mem_outputs houtput).2.2)]
  simp [outputsOf]

theorem outputsOf_requests (tx : DaoTx) (i : Nat) :
    (outputsOf tx).requests[i]? = (tx.outputs[i]?).map fun cell => requestOf tx.hash (cell, i) := by
  simp [outputsOf, Function.comp_def]

theorem outputsOf_requests_eq_some {i : Nat} {request : NewDaoOutput} :
    (outputsOf tx).requests[i]? = some (some request) ↔
      ∃ out, tx.outputs[i]? = some out ∧ out.isDao = true ∧
        ∃ n, parseDepositBlockNumber out.data = some n ∧
          ⟨⟨tx.hash, i⟩, out.capacity, out.occupied, n⟩ = request := by
  simp only [outputsOf_requests, Option.map_eq_some_iff, requestOf, Option.ite_none_right_eq_some]

end Valid

/-! ## What the rows know of the live cells -/

/-- The row of a live deposit. -/
def HoldsDeposit (arOf : Int → Nat) (rows : DaoRows) (o : DaoOutPoint) (l : LiveDaoCell) : Prop :=
  rows.byWithdrawTx[o]? = none ∧ ∃ entry, rows.deposits[o]? = some entry ∧ entry.status = 0 ∧
    entry.capacity = l.cell.capacity ∧ entry.depositBlockNumber = l.block ∧
    entry.depositAr = arOf l.block

/-- The row a live withdraw request leads to. -/
def HoldsRequest (arOf : Int → Nat) (rows : DaoRows) (o : DaoOutPoint) (l : LiveDaoCell)
    (depositBlock : Nat) : Prop :=
  rows.deposits[o]? = none ∧ ∃ deposit entry, rows.byWithdrawTx[o]? = some deposit ∧
    rows.deposits[deposit]? = some entry ∧ entry.status = 1 ∧
    entry.withdrawRequestTx = some o.txHash ∧ entry.withdrawRequestOutputIndex = some o.index ∧
    entry.withdrawRequestBlock = some l.block ∧ entry.withdrawRequestAr = some (arOf l.block : Int) ∧
    entry.withdrawRequestOccupiedCapacity = some l.cell.occupied ∧
    entry.capacity = l.cell.capacity ∧ entry.depositAr = arOf depositBlock

/-- A live DAO cell was created in a block with a rate, and so was the deposit of a request,
not later. -/
structure DatedDaoCell (arOf : Int → Nat) (o : DaoOutPoint) (l : LiveDaoCell) : Prop where
  wellFormed : WellFormedDaoCell l.cell
  index : o.index < 2 ^ 15
  block : 0 ≤ l.block ∧ l.block < 2 ^ 63
  rate : 0 < arOf l.block ∧ arOf l.block < 2 ^ 63
  deposit : ∀ n ∈ parseDepositBlockNumber l.cell.data, (n : Int) ≤ l.block ∧ 0 < arOf n

structure DaoTracked (arOf : Int → Nat) (cells : LiveDaoCells) (rows : DaoRows) : Prop where
  dated : ∀ o l, cells o = some l → l.cell.isDao = true → DatedDaoCell arOf o l
  deposit : ∀ o l, cells o = some l → l.cell.isDao = true →
    parseDepositBlockNumber l.cell.data = none → HoldsDeposit arOf rows o l
  request : ∀ o l n, cells o = some l → l.cell.isDao = true →
    parseDepositBlockNumber l.cell.data = some n → HoldsRequest arOf rows o l n
  /-- A row of the request index is that of a requested deposit. -/
  indexed : ∀ (k d : DaoOutPoint), rows.byWithdrawTx[k]? = some d →
    ∃ entry, rows.deposits[d]? = some entry ∧ (entry.status = 1 ∨ entry.status = 2) ∧
      entry.withdrawRequestTx = some k.txHash ∧ entry.withdrawRequestOutputIndex = some k.index
  /-- A deposit is active, or the request index leads to it. -/
  requested : ∀ (d : DaoOutPoint) (entry : DaoDepositCacheEntry), rows.deposits[d]? = some entry →
    entry.status = 0 ∨ (entry.status = 1 ∨ entry.status = 2) ∧ ∃ k : DaoOutPoint,
      entry.withdrawRequestTx = some k.txHash ∧ entry.withdrawRequestOutputIndex = some k.index ∧
      rows.byWithdrawTx[k]? = some d

namespace DaoTracked

variable {arOf : Int → Nat} {cells cells' : LiveDaoCells} {rows : DaoRows} {tx : DaoTx}
  {o k d : DaoOutPoint} {entry : DaoDepositCacheEntry}

theorem empty (arOf : Int → Nat) : DaoTracked arOf (fun _ => none) {} where
  dated := by simp
  deposit := by simp
  request := by simp
  indexed := by simp
  requested := by simp

section

variable (h : DaoTracked arOf cells rows)

include h

/-- Cells that are not DAO cells do not matter. -/
theorem mono (hcells : ∀ o l, cells' o = some l → l.cell.isDao = true → cells o = some l) :
    DaoTracked arOf cells' rows where
  dated o l ho hdao := h.dated o l (hcells o l ho hdao) hdao
  deposit o l ho hdao := h.deposit o l (hcells o l ho hdao) hdao
  request o l n ho hdao := h.request o l n (hcells o l ho hdao) hdao
  indexed := h.indexed
  requested := h.requested

theorem request_injective {k' : DaoOutPoint}
    (hk : rows.byWithdrawTx[k]? = some d) (hk' : rows.byWithdrawTx[k']? = some d) : k = k' := by
  obtain ⟨entry, hentry, -, htx, hindex⟩ := h.indexed k d hk
  obtain ⟨entry', hentry', -, htx', hindex'⟩ := h.indexed k' d hk'
  cases k
  cases k'
  simp_all

/-- A live cell whose outpoint has a deposit's row is that deposit. -/
theorem deposit_of_row {l : LiveDaoCell} (hcell : cells o = some l) (hdao : l.cell.isDao = true)
    (hrow : rows.deposits[o]? = some entry) :
    parseDepositBlockNumber l.cell.data = none ∧ rows.byWithdrawTx[o]? = none ∧
      entry.capacity = l.cell.capacity ∧ entry.depositBlockNumber = l.block := by
  cases hdata : parseDepositBlockNumber l.cell.data with
  | none =>
    obtain ⟨hnone, entry', hentry', -, hcapacity, hblock, -⟩ := h.deposit o l hcell hdao hdata
    obtain rfl := Option.mem_unique hrow hentry'
    exact ⟨rfl, hnone, hcapacity, hblock⟩
  | some n =>
    have hnone := (h.request o l n hcell hdao hdata).1
    simp [hrow] at hnone

/-- A deposit a request already leads to is not one that is active. -/
theorem ne_of_active (hentry : rows.deposits[o]? = some entry)
    (hstatus : entry.status = 0) (hk : rows.byWithdrawTx[k]? = some d) : o ≠ d := by
  rintro rfl
  obtain ⟨entry', hentry', hstatus', -⟩ := h.indexed k o hk
  obtain rfl := Option.mem_unique hentry hentry'
  omega

end

section NewCell

variable {out : DaoCell} (h : DaoTracked arOf cells rows)
  (hdated : DatedDaoCell arOf k ⟨out, tx.blockNumber⟩) (hrate : tx.blockDaoAr = arOf tx.blockNumber)
  (hnew : rows.byWithdrawTx[k]? = none) (hnew' : rows.deposits[k]? = none)

include h hdated hrate hnew hnew'

/-- A deposit at an outpoint is requested: the request gets its index row, and the row of
the deposit moves on. -/
theorem requestStep {n : Nat} {request : NewDaoOutput}
    (hentry : rows.deposits[o]? = some entry) (hstatus : entry.status = 0)
    (hrequest : request = ⟨k, out.capacity, out.occupied, n⟩)
    (hcapacity : out.capacity = entry.capacity) (hdata : parseDepositBlockNumber out.data = some n)
    (hdepositAr : entry.depositAr = arOf n)
    (hcells : ∀ x l, cells' x = some l → l.cell.isDao = true →
      x = k ∧ l = ⟨out, tx.blockNumber⟩ ∨ x ≠ k ∧ x ≠ o ∧ cells x = some l) :
    DaoTracked arOf cells' {
      deposits := rows.deposits.insert o (requestedEntry tx request entry)
      byWithdrawTx := rows.byWithdrawTx.insert k o } := by
  subst hrequest
  have hne : o ≠ k := by
    rintro rfl
    simp [hentry] at hnew'
  refine ⟨?_, ?_, ?_, ?_, ?_⟩
  · intro x l hx hdao
    rcases hcells x l hx hdao with ⟨rfl, rfl⟩ | ⟨-, -, hx⟩
    · exact hdated
    · exact h.dated x l hx hdao
  · intro x l hx hdao hnone
    rcases hcells x l hx hdao with ⟨rfl, rfl⟩ | ⟨hxk, hxo, hx⟩
    · simp [hdata] at hnone
    · obtain ⟨hindex', entry', hentry', hrest⟩ := h.deposit x l hx hdao hnone
      refine ⟨?_, entry', ?_, hrest⟩
      · rw [getElem?_insert_of_ne (Ne.symm hxk), hindex']
      · rw [getElem?_insert_of_ne (Ne.symm hxo), hentry']
  · intro x l m hx hdao hm
    rcases hcells x l hx hdao with ⟨rfl, rfl⟩ | ⟨hxk, hxo, hx⟩
    · obtain rfl := Option.mem_unique hdata hm
      refine ⟨?_, o, requestedEntry tx ⟨x, out.capacity, out.occupied, n⟩ entry, ?_, ?_, rfl,
        rfl, rfl, rfl, ?_, rfl, hcapacity.symm, hdepositAr⟩
      · rw [getElem?_insert_of_ne hne, hnew']
      · rw [getElem?_insert_ite, if_pos rfl]
      · rw [getElem?_insert_ite, if_pos rfl]
      · rw [← hrate]
        rfl
    · obtain ⟨hnone, d, entry', hd, hentry', hrest⟩ := h.request x l m hx hdao hm
      refine ⟨?_, d, entry', ?_, ?_, hrest⟩
      · rw [getElem?_insert_of_ne (Ne.symm hxo), hnone]
      · rw [getElem?_insert_of_ne (Ne.symm hxk), hd]
      · rw [getElem?_insert_of_ne (h.ne_of_active hentry hstatus hd), hentry']
  · intro k' d hk'
    obtain ⟨rfl, rfl⟩ | ⟨-, hk'⟩ := getElem?_insert_eq_some.mp hk'
    · exact ⟨_, by rw [getElem?_insert_ite, if_pos rfl], .inl rfl, rfl, rfl⟩
    · obtain ⟨entry', hentry', hrest⟩ := h.indexed k' d hk'
      refine ⟨entry', ?_, hrest⟩
      rw [getElem?_insert_of_ne (h.ne_of_active hentry hstatus hk'), hentry']
  · intro d entry' hentry'
    obtain ⟨rfl, rfl⟩ | ⟨-, hentry'⟩ := getElem?_insert_eq_some.mp hentry'
    · exact .inr ⟨.inl rfl, k, rfl, rfl, by rw [getElem?_insert_ite, if_pos rfl]⟩
    · rcases h.requested d entry' hentry' with hzero | ⟨hstatus', k', htx, hidx, hk'⟩
      · exact .inl hzero
      · have hkk : k ≠ k' := by
          rintro rfl
          simp [hk'] at hnew
        exact .inr ⟨hstatus', k', htx, hidx, by rw [getElem?_insert_of_ne hkk, hk']⟩

/-- A new deposit gets its row. -/
theorem depositStep {deposit : ParsedDaoDeposit} (hcapacity : deposit.capacity = out.capacity)
    (hdata : parseDepositBlockNumber out.data = none)
    (hcells : ∀ x l, cells' x = some l → l.cell.isDao = true →
      x = k ∧ l = ⟨out, tx.blockNumber⟩ ∨ x ≠ k ∧ cells x = some l) :
    DaoTracked arOf cells' {
      rows with deposits := rows.deposits.insert k (depositEntry tx deposit) } := by
  have hother : ∀ (k' d : DaoOutPoint), rows.byWithdrawTx[k']? = some d → k ≠ d := by
    rintro k' d hk' rfl
    obtain ⟨entry', hentry', -⟩ := h.indexed k' k hk'
    simp [hentry'] at hnew'
  refine ⟨?_, ?_, ?_, ?_, ?_⟩
  · intro x l hx hdao
    rcases hcells x l hx hdao with ⟨rfl, rfl⟩ | ⟨-, hx⟩
    · exact hdated
    · exact h.dated x l hx hdao
  · intro x l hx hdao hnone
    rcases hcells x l hx hdao with ⟨rfl, rfl⟩ | ⟨hxk, hx⟩
    · refine ⟨hnew, depositEntry tx deposit, ?_, rfl, hcapacity, rfl, ?_⟩
      · rw [getElem?_insert_ite, if_pos rfl]
      · rw [← hrate]
        rfl
    · obtain ⟨hindex', entry', hentry', hrest⟩ := h.deposit x l hx hdao hnone
      exact ⟨hindex', entry', by rw [getElem?_insert_of_ne (Ne.symm hxk), hentry'], hrest⟩
  · intro x l m hx hdao hm
    rcases hcells x l hx hdao with ⟨rfl, rfl⟩ | ⟨hxk, hx⟩
    · simp [hdata] at hm
    · obtain ⟨hnone, d, entry', hd, hentry', hrest⟩ := h.request x l m hx hdao hm
      refine ⟨?_, d, entry', hd, ?_, hrest⟩
      · rw [getElem?_insert_of_ne (Ne.symm hxk), hnone]
      · rw [getElem?_insert_of_ne (hother x d hd), hentry']
  · intro k' d hk'
    obtain ⟨entry', hentry', hrest⟩ := h.indexed k' d hk'
    exact ⟨entry', by rw [getElem?_insert_of_ne (hother k' d hk'), hentry'], hrest⟩
  · intro d entry' hentry'
    obtain ⟨-, rfl⟩ | ⟨-, hentry'⟩ := getElem?_insert_eq_some.mp hentry'
    · exact .inl rfl
    · exact h.requested d entry' hentry'

end NewCell

/-- A request at an outpoint is completed. -/
theorem completeStep (h : DaoTracked arOf cells rows) {outputs : DaoTxOutputs} {compensation : Int}
    (hd : rows.byWithdrawTx[o]? = some d) (hentry : rows.deposits[d]? = some entry)
    (hstatus : entry.status = 1)
    (hcells : ∀ x l, cells' x = some l → l.cell.isDao = true → x ≠ o ∧ cells x = some l) :
    DaoTracked arOf cells' {
      rows with deposits := rows.deposits.insert d (completedEntry tx outputs compensation entry) } := by
  obtain ⟨indexedEntry, hindexed, -, htx, hindex⟩ := h.indexed o d hd
  obtain rfl := Option.mem_unique hentry hindexed
  refine ⟨?_, ?_, ?_, ?_, ?_⟩
  · intro x l hx hdao
    exact h.dated x l (hcells x l hx hdao).2 hdao
  · intro x l hx hdao hnone
    obtain ⟨-, hx⟩ := hcells x l hx hdao
    obtain ⟨hx', entry', hentry', hzero, hrest⟩ := h.deposit x l hx hdao hnone
    have hne : d ≠ x := by
      rintro rfl
      obtain rfl := Option.mem_unique hentry hentry'
      omega
    exact ⟨hx', entry', by rw [getElem?_insert_of_ne hne, hentry'], hzero, hrest⟩
  · intro x l m hx hdao hm
    obtain ⟨hxo, hx⟩ := hcells x l hx hdao
    obtain ⟨hnone, d', entry', hd', hentry', hrest⟩ := h.request x l m hx hdao hm
    have hne : d ≠ d' := by
      rintro rfl
      exact hxo (h.request_injective hd' hd)
    have hdx : d ≠ x := by
      rintro rfl
      simp [hentry] at hnone
    refine ⟨?_, d', entry', hd', ?_, hrest⟩
    · rw [getElem?_insert_of_ne hdx, hnone]
    · rw [getElem?_insert_of_ne hne, hentry']
  · intro k' d' hk'
    obtain ⟨entry', hentry', hstatus', hrest⟩ := h.indexed k' d' hk'
    by_cases hdd : d = d'
    · subst hdd
      obtain rfl := Option.mem_unique hentry hentry'
      refine ⟨completedEntry tx outputs compensation entry, ?_, .inr rfl, hrest⟩
      rw [getElem?_insert_ite, if_pos rfl]
    · exact ⟨entry', by rw [getElem?_insert_of_ne hdd, hentry'], hstatus', hrest⟩
  · intro d' entry' hentry'
    obtain ⟨rfl, rfl⟩ | ⟨-, hentry'⟩ := getElem?_insert_eq_some.mp hentry'
    · exact .inr ⟨.inr rfl, o, htx, hindex, hd⟩
    · exact h.requested d' entry' hentry'

end DaoTracked

end Ckbadger.Writer
