/-
Ckbadger.Writer.DaoTrace — the steps of a valid transaction.

A transaction's inputs are taken one after another. Between them the cells are those not
spent yet and the requests created so far, and the rows know of them (`Mid`). Each input
then has its step, and so have the new deposits after the inputs (`TxTrace`): a valid chain
never gets stuck (`DaoState.step`).
-/
import Ckbadger.Writer.DaoChain

namespace Ckbadger.Writer

open Lib Common Ckbadger.Parser Store LiveDaoCells DaoCell List

variable {rows' rows : DaoRows} {arOf : Int → Nat} {seen : Hash32 → Prop} {live : LiveDaoCells}
variable {txs : List DaoTx} {inputs : List (DaoInput × Nat)} {tx : DaoTx}

/-! ## Between the inputs of a transaction -/

/-- The cells after the first `k` inputs and the deposits among the first `n` outputs: the spent
cells are gone, and the requests among the first `k` outputs are there. -/
def LiveDaoCells.upTo (live : LiveDaoCells) (tx : DaoTx) (k n : Nat) : LiveDaoCells := fun o =>
  if o.txHash = tx.hash then
    ((tx.outputs[o.index]?).filter fun cell => o.index < if cell.holdsRequest then k else n).map
      (⟨·, tx.blockNumber⟩)
  else if o ∈ (tx.inputs.take k).map (·.outpoint) then none
  else live o

/-- The rows between the inputs and outputs of a transaction. -/
structure Mid (arOf : Int → Nat) (seen : Hash32 → Prop) (live : LiveDaoCells) (tx : DaoTx) (k n : Nat)
    (rows : DaoRows) : Prop where
  tracked : DaoTracked arOf (live.upTo tx k n) rows
  new : ¬seen tx.hash
  cellKeys : ∀ o l, live o = some l → o.index < 2 ^ 15 ∧ seen o.txHash
  blocks : ∀ o l, live o = some l → l.block ≤ tx.blockNumber
  depositKeys : ∀ o : DaoOutPoint, rows.deposits[o]? ≠ none →
    seen o.txHash ∨ o.txHash = tx.hash ∧ o.index < n
  requestKeys : ∀ o : DaoOutPoint, rows.byWithdrawTx[o]? ≠ none → seen o.txHash ∨
    o.txHash = tx.hash ∧ o.index < k ∧ ∃ out, tx.outputs[o.index]? = some out ∧ out.holdsRequest = true

section Inputs

variable {input : DaoInput × Nat} {k n : Nat} {o : DaoOutPoint} {l : LiveDaoCell}

theorem LiveDaoCells.upTo_eq_some : live.upTo tx k n o = some l ↔
    (o.txHash = tx.hash ∧ ∃ out, tx.outputs[o.index]? = some out ∧
      (o.index < if out.holdsRequest then k else n) ∧ l = ⟨out, tx.blockNumber⟩) ∨
    o.txHash ≠ tx.hash ∧ o ∉ (tx.inputs.take k).map (·.outpoint) ∧ live o = some l := by
  unfold upTo
  split
  · rename_i htx
    simp [htx, and_assoc, @eq_comm _ _ l]
  · rename_i htx
    simp only [Option.ite_none_left_eq_some, htx, false_and, false_or, ne_eq, not_false_eq_true, true_and]

/-- What an input of a valid transaction finds. -/
structure Spends (arOf : Int → Nat) (seen : Hash32 → Prop) (live : LiveDaoCells) (tx : DaoTx)
    (input : DaoInput × Nat) (l : LiveDaoCell) : Prop where
  placed : tx.inputs[input.2]? = some input.1
  unspent : input.1.outpoint ∉ (tx.inputs.take input.2).map (·.outpoint)
  found : live input.1.outpoint = some l
  same : l.cell = input.1.cell
  key : input.1.outpoint.index < 2 ^ 15 ∧ seen input.1.outpoint.txHash
  requests : input.1.cell.holdsDeposit = true → ∃ out n, tx.outputs[input.2]? = some out ∧
    out.isDao = true ∧ out.capacity = input.1.cell.capacity ∧
    parseDepositBlockNumber out.data = some n ∧ (n : Int) = l.block
  completes : input.1.cell.isDao = true →
    ∀ n ∈ parseDepositBlockNumber input.1.cell.data, l.block < tx.blockNumber ∧
      (input.1.cell.capacity - input.1.cell.occupied).toNat * arOf l.block / arOf n
        - (input.1.cell.capacity - input.1.cell.occupied).toNat < 2 ^ 63

theorem ValidDaoTx.spends (h : ValidDaoTx arOf live tx)
    (hlive : ∀ o l, live o = some l → o.index < 2 ^ 15 ∧ seen o.txHash)
    (hinput : tx.inputs[input.2]? = some input.1) : ∃ l, Spends arOf seen live tx input l := by
  have hmem : input.1 ∈ tx.inputs := mem_of_getElem? hinput
  obtain ⟨l, hl, hsame⟩ := Option.map_eq_some_iff.mp (h.inputs input.1 hmem)
  refine ⟨l, hinput, ?_, hl, hsame, hlive _ l hl, ?_, ?_⟩
  · intro hspent
    have hnodup := h.nodup
    rw [← take_append_drop input.2 tx.inputs, map_append, nodup_append] at hnodup
    have hrest : input.1 ∈ tx.inputs.drop input.2 :=
      @mem_of_getElem? _ _ 0 _ (by rw [getElem?_drop, Nat.add_zero, hinput])
    exact hnodup.2.2 _ hspent _ (mem_map_of_mem hrest) rfl
  · intro hdeposit
    obtain ⟨out, hout, hrequest⟩ :=
      (Option.any_eq_true _ _).mp (h.requests input (mem_zipIdx_iff_getElem?.mpr hinput) hdeposit)
    simp only [hl, Bool.and_eq_true, beq_iff_eq] at hrequest
    obtain ⟨⟨hdao, hcapacity⟩, hblock⟩ := hrequest
    obtain ⟨n, hn, hblock⟩ := Option.map_eq_some_iff.mp hblock
    exact ⟨out, n, hout, hdao, hcapacity, hn, hblock⟩
  · intro hdao n hn
    exact h.completions input.1 hmem hdao n hn l hl

/-- The cell is still there when its input comes. -/
theorem Spends.cell (h : Spends arOf seen live tx input l) (hnew : ¬seen tx.hash) :
    live.upTo tx input.2 n input.1.outpoint = some l :=
  upTo_eq_some.mpr (.inr ⟨fun heq => hnew (heq ▸ h.key.2), h.unspent, h.found⟩)

/-- After an input its cell is gone, and the request at the output of its index is there. -/
theorem Spends.upTo_succ (h : Spends arOf seen live tx input l) (hnew : ¬seen tx.hash)
    {l' : LiveDaoCell} (ho : live.upTo tx (input.2 + 1) 0 o = some l') :
    (o = ⟨tx.hash, input.2⟩ ∧ ∃ out, tx.outputs[input.2]? = some out ∧ out.holdsRequest = true ∧
      l' = ⟨out, tx.blockNumber⟩) ∨
    o ≠ ⟨tx.hash, input.2⟩ ∧ o ≠ input.1.outpoint ∧ live.upTo tx input.2 0 o = some l' := by
  have hold : input.1.outpoint.txHash ≠ tx.hash := fun heq => hnew (heq ▸ h.key.2)
  rcases upTo_eq_some.mp ho with ⟨htx, out, hout, hlt, rfl⟩ | ⟨htx, hunspent, hlive⟩
  · cases hrequest : out.holdsRequest with
    | false => simp [hrequest] at hlt
    | true =>
      rw [hrequest, if_pos rfl] at hlt
      rcases Nat.lt_succ_iff_lt_or_eq.mp hlt with hlt | heq
      · refine .inr ⟨fun heq => ?_, fun heq => hold (heq ▸ htx),
          upTo_eq_some.mpr (.inl ⟨htx, out, hout, ?_, rfl⟩)⟩
        · rw [heq] at hlt
          exact lt_irrefl _ hlt
        · rwa [hrequest]
      · exact .inl ⟨by rw [← htx, ← heq], out, heq ▸ hout, hrequest, rfl⟩
  · rw [take_add_one, h.placed, map_append, mem_append, not_or] at hunspent
    refine .inr ⟨fun heq => htx (heq ▸ rfl), ?_, upTo_eq_some.mpr (.inr ⟨htx, hunspent.1, hlive⟩)⟩
    simpa using hunspent.2

theorem compensation_eq_ok {entry : DaoDepositCacheEntry} {cell : DaoCell} {requestAr depositAr : Nat}
    (hwf : WellFormedDaoCell cell) (hcapacity : entry.capacity = cell.capacity)
    (hoccupied : entry.withdrawRequestOccupiedCapacity = some cell.occupied)
    (hrequestAr : entry.withdrawRequestAr = some (requestAr : Int))
    (hdepositAr : entry.depositAr = depositAr) (hpos : 0 < depositAr) (hle : depositAr ≤ requestAr)
    (hlt : requestAr < 2 ^ 63)
    (hfits : (cell.capacity - cell.occupied).toNat * requestAr / depositAr
      - (cell.capacity - cell.occupied).toNat < 2 ^ 63) :
    ∃ compensation, daoFrozenRequestCompensation entry = .ok compensation := by
  obtain ⟨-, hnonneg, hcovers⟩ := hwf.occupiedCapacity_eq
  have hcapacity' := hwf.capacity
  generalize hfree : (cell.capacity - cell.occupied).toNat = free at hfits
  have hfreelt : free < 2 ^ 63 := by omega
  have hproduct : free * requestAr < 2 ^ 128 := by
    calc free * requestAr ≤ 2 ^ 63 * 2 ^ 63 := Nat.mul_le_mul hfreelt.le hlt.le
      _ < 2 ^ 128 := by decide
  have hgross : free ≤ free * requestAr / depositAr :=
    (Nat.le_div_iff_mul_le hpos).mpr (Nat.mul_le_mul_left free hle)
  refine ⟨((free * requestAr / depositAr - free : Nat) : Int), ?_⟩
  simp only [daoFrozenRequestCompensation, calculateDaoCompensationFromAr, bind_eq_ok, required_eq_ok,
    ensure_eq_ok, checked_eq_ok, hcapacity, hoccupied, hrequestAr, hdepositAr, rateOf,
    Int.natCast_nonneg, if_true, Except.ok.injEq, Int.toNat_natCast, Option.some.injEq,
    exists_eq_left', hfree]
  refine ⟨(), ⟨by omega, hnonneg⟩, (), hcovers, (), by omega, (), hproduct, (), hgross, ?_, trivial⟩
  simp only [fitsSignedBits, decide_eq_true_eq]
  omega

theorem Mid.request_free (h : Mid arOf seen live tx k n rows) :
    rows.byWithdrawTx[(⟨tx.hash, k⟩ : DaoOutPoint)]? = none := by
  by_contra hsome
  rcases h.requestKeys _ hsome with hseen | ⟨-, hlt, -⟩
  · exact h.new hseen
  · exact lt_irrefl _ hlt

theorem Mid.deposit_free (h : Mid arOf seen live tx k n rows) {i : Nat} (hi : n ≤ i) :
    rows.deposits[(⟨tx.hash, i⟩ : DaoOutPoint)]? = none := by
  by_contra hsome
  rcases h.depositKeys _ hsome with hseen | ⟨-, hlt⟩
  · exact h.new hseen
  · exact hi.not_gt hlt

theorem ValidDaoTx.dated (h : ValidDaoTx arOf live tx) {out : DaoCell} {i : Nat}
    (hout : tx.outputs[i]? = some out) (hdao : out.isDao = true)
    (hdeposit : ∀ n ∈ parseDepositBlockNumber out.data, (n : Int) ≤ tx.blockNumber ∧ 0 < arOf n) :
    DatedDaoCell arOf ⟨tx.hash, i⟩ ⟨out, tx.blockNumber⟩ := by
  obtain ⟨hrate, hpos, hlt⟩ := h.rate
  obtain ⟨hidx, -⟩ := List.getElem?_eq_some_iff.mp hout
  exact ⟨h.wellFormed out (mem_of_getElem? hout) hdao, hidx.trans_le h.outputs, h.block,
    ⟨hrate ▸ hpos, hrate ▸ hlt⟩, hdeposit⟩

/-- Every input of a valid transaction has its step. -/
theorem Mid.step (hmono : ∀ m n, m ≤ n → arOf m ≤ arOf n) (hvalid : ValidDaoTx arOf live tx)
    (h : Mid arOf seen live tx input.2 0 rows) (hspends : Spends arOf seen live tx input l) :
    ∃ rows', SpendStep tx (outputsOf tx) rows input rows' ∧
      Mid arOf seen live tx (input.2 + 1) 0 rows' := by
  have hcell := hspends.cell (n := 0) h.new
  have hrequestKeys : ∀ o : DaoOutPoint, rows.byWithdrawTx[o]? ≠ none → seen o.txHash ∨
      o.txHash = tx.hash ∧ o.index < input.2 + 1 ∧
        ∃ out, tx.outputs[o.index]? = some out ∧ out.holdsRequest = true := by
    intro o ho
    rcases h.requestKeys o ho with hseen | ⟨htx, hlt, hrequest⟩
    · exact .inl hseen
    · exact .inr ⟨htx, hlt.trans (Nat.lt_succ_self _), hrequest⟩
  -- only a deposit leaves a request
  have hkept : input.1.cell.holdsDeposit = false → ∀ x l',
      live.upTo tx (input.2 + 1) 0 x = some l' →
        x ≠ input.1.outpoint ∧ live.upTo tx input.2 0 x = some l' := by
    intro hdeposit x l' hx
    rcases hspends.upTo_succ h.new hx with ⟨-, out, hout, hrequest, -⟩ | ⟨-, hne, hx⟩
    · obtain ⟨input', hinput', hdeposit'⟩ := hvalid.paired_input hout hrequest
      obtain rfl := Option.mem_unique hspends.placed hinput'
      simp [hdeposit] at hdeposit'
    · exact ⟨hne, hx⟩
  cases hdao : input.1.cell.isDao with
  | false =>
    have hdeposit : input.1.cell.holdsDeposit = false := by simp [holdsDeposit, hdao]
    exact ⟨rows, .skipped hdao, { h with
      tracked := h.tracked.mono fun x l' hx _ => (hkept hdeposit x l' hx).2
      requestKeys := hrequestKeys }⟩
  | true =>
    have hdao' : l.cell.isDao = true := by rw [hspends.same, hdao]
    have hdated := h.tracked.dated _ l hcell hdao'
    rcases holdsDeposit_or_holdsRequest hdao with ⟨hdeposit, hdata⟩ | ⟨-, n, hdata⟩
    · -- a deposit becomes the request at the output of its index
      obtain ⟨-, entry, hentry, hstatus, hcapacity, hblock, har⟩ :=
        h.tracked.deposit _ l hcell hdao' (by rw [hspends.same, hdata])
      obtain ⟨out, n, hout, houtDao, houtCapacity, houtData, hn⟩ := hspends.requests hdeposit
      have hnow := h.blocks _ l hspends.found
      have hrow : (outputsOf tx).requests[input.2]?
          = some (some ⟨⟨tx.hash, input.2⟩, out.capacity, out.occupied, n⟩) := by
        simp [outputsOf_requests, hout, requestOf, houtDao, houtData]
      have hcapacity' : out.capacity = entry.capacity := by rw [houtCapacity, hcapacity, hspends.same]
      have houtDated : DatedDaoCell arOf ⟨tx.hash, input.2⟩ ⟨out, tx.blockNumber⟩ := by
        refine hvalid.dated hout houtDao fun m hm => ?_
        obtain rfl := Option.mem_unique houtData hm
        exact ⟨by omega, hn ▸ hdated.rate.1⟩
      refine ⟨_, .requested entry _ hdao hentry hrow hstatus hcapacity' (hn.trans hblock.symm), { h with
        tracked := ?_
        depositKeys := forall_key_insert h.depositKeys (.inl hspends.key.2) _
        requestKeys := forall_key_insert hrequestKeys (.inr ⟨rfl, Nat.lt_succ_self _, out, hout, ?_⟩) _ }⟩
      · refine h.tracked.requestStep houtDated hvalid.rate.1 h.request_free (h.deposit_free (Nat.zero_le _))
          hentry hstatus rfl hcapacity' houtData (by rw [har, hn]) ?_
        intro x l' hx _
        rcases hspends.upTo_succ h.new hx with ⟨rfl, out', hout', -, rfl⟩ | hold
        · obtain rfl := Option.mem_unique hout hout'
          exact .inl ⟨rfl, rfl⟩
        · exact .inr hold
      · simp [holdsRequest, houtDao, houtData]
    · -- a request is completed
      obtain ⟨hnone, d, entry, hd, hentry, hstatus, htx, hidx, hblock, har, hoccupied, hcapacity,
        hdepositAr⟩ := h.tracked.request _ l n hcell hdao' (by rw [hspends.same, hdata])
      obtain ⟨hlater, hfits⟩ := hspends.completes hdao n hdata
      obtain ⟨hle, hpos⟩ := hdated.deposit n (by rw [hspends.same]; exact hdata)
      obtain ⟨compensation, hcompensation⟩ := compensation_eq_ok hdated.wellFormed hcapacity hoccupied har
        hdepositAr hpos (hmono _ _ hle) hdated.rate.2 (by rw [hspends.same]; exact hfits)
      have hdeposit : input.1.cell.holdsDeposit = false := by simp [holdsDeposit, hdata]
      exact ⟨_, .completed d entry l.block compensation hdao hnone hd hentry hstatus hblock hlater
        hcompensation, { h with
          tracked := h.tracked.completeStep hd hentry hstatus fun x l' hx _ => hkept hdeposit x l' hx
          depositKeys := forall_key_insert h.depositKeys (h.depositKeys d (by simp [hentry])) _
          requestKeys := hrequestKeys }⟩

/-- The steps of the inputs from the `k`-th on, with what each of them finds. -/
inductive SpendTrace (arOf : Int → Nat) (seen : Hash32 → Prop) (live : LiveDaoCells) (tx : DaoTx) :
    Nat → DaoRows → List DaoInput → DaoRows → Prop where
  | nil (k : Nat) (rows : DaoRows) : SpendTrace arOf seen live tx k rows [] rows
  | cons {k : Nat} {rows mid rows' : DaoRows} {input : DaoInput} {inputs : List DaoInput}
      {l : LiveDaoCell} (hmid : Mid arOf seen live tx k 0 rows)
      (hspends : Spends arOf seen live tx (input, k) l)
      (hstep : SpendStep tx (outputsOf tx) rows (input, k) mid)
      (hrest : SpendTrace arOf seen live tx (k + 1) mid inputs rows') :
      SpendTrace arOf seen live tx k rows (input :: inputs) rows'

theorem ValidDaoTx.spendTrace (hmono : ∀ m n, m ≤ n → arOf m ≤ arOf n)
    (hvalid : ValidDaoTx arOf live tx)
    {done todo : List DaoInput} (hinputs : tx.inputs = done ++ todo)
    (h : Mid arOf seen live tx done.length 0 rows) :
    ∃ rows', SpendTrace arOf seen live tx done.length rows todo rows' ∧
      Mid arOf seen live tx tx.inputs.length 0 rows' := by
  induction todo generalizing done rows with
  | nil =>
    refine ⟨rows, .nil _ _, ?_⟩
    rwa [hinputs, append_nil]
  | cons input todo ih =>
    obtain ⟨l, hspends⟩ := @ValidDaoTx.spends _ _ _ _ (input, done.length) hvalid h.cellKeys
      (by simp [hinputs])
    obtain ⟨mid, hstep, hmid⟩ := h.step hmono hvalid hspends
    obtain ⟨rows', hrest, hend⟩ := @ih _ (done ++ [input]) (by simpa using hinputs) (by simpa using hmid)
    refine ⟨rows', .cons h hspends hstep ?_, hend⟩
    simpa using hrest

theorem SpendTrace.steps {inputs : List DaoInput}
    (h : SpendTrace arOf seen live tx k rows inputs rows') :
    SpendSteps tx (outputsOf tx) rows (inputs.zipIdx k) rows' := by
  induction h with
  | nil k rows => exact .nil rows
  | cons _ _ hstep _ ih => exact .cons hstep ih

end Inputs

/-! ## The new deposits -/

section Deposits

variable {k n : Nat}

theorem depositOf_eq_some {output : DaoCell × Nat} {deposit : ParsedDaoDeposit}
    (h : depositOf output = some deposit) :
    output.1.isDao = true ∧ parseDepositBlockNumber output.1.data = none ∧
      deposit = ⟨output.2, output.1.lockScriptHash, output.1.capacity, output.1.occupied⟩ := by
  simp only [depositOf, holdsDeposit, Bool.and_eq_true, Option.isNone_iff_eq_none,
    Option.ite_none_right_eq_some, Option.some.injEq] at h
  exact ⟨h.1.1, h.1.2, h.2.symm⟩

/-- After an output, the cell at its index is there unless it is a request. -/
theorem LiveDaoCells.upTo_output {o : DaoOutPoint} {l : LiveDaoCell}
    (h : live.upTo tx k (n + 1) o = some l) :
    (o = ⟨tx.hash, n⟩ ∧ l.cell.holdsRequest = false ∧ tx.outputs[n]? = some l.cell ∧
      l.block = tx.blockNumber) ∨ live.upTo tx k n o = some l := by
  rcases upTo_eq_some.mp h with ⟨htx, out, hout, hlt, rfl⟩ | hold
  · cases hrequest : out.holdsRequest with
    | true =>
      rw [hrequest] at hlt
      exact .inr (upTo_eq_some.mpr (.inl ⟨htx, out, hout, by rwa [hrequest], rfl⟩))
    | false =>
      rw [hrequest, if_neg Bool.false_ne_true] at hlt
      rcases Nat.lt_succ_iff_lt_or_eq.mp hlt with hlt | heq
      · exact .inr (upTo_eq_some.mpr (.inl ⟨htx, out, hout, by rwa [hrequest], rfl⟩))
      · exact .inl ⟨by rw [← htx, ← heq], rfl, heq ▸ hout, rfl⟩
  · exact .inr (upTo_eq_some.mpr (.inr hold))

/-- Every deposit among the outputs gets its row. -/
theorem ValidDaoTx.depositSteps (hvalid : ValidDaoTx arOf live tx) {done todo : List DaoCell}
    (houtputs : tx.outputs = done ++ todo) (h : Mid arOf seen live tx k done.length rows) :
    ∃ rows', DepositSteps tx rows ((todo.zipIdx done.length).filterMap depositOf) rows' ∧
      Mid arOf seen live tx k tx.outputs.length rows' := by
  induction todo generalizing done rows with
  | nil =>
    refine ⟨rows, .nil rows, ?_⟩
    rwa [houtputs, append_nil]
  | cons out todo ih =>
    have hout : tx.outputs[done.length]? = some out := by simp [houtputs]
    have hdepositKeys : ∀ o : DaoOutPoint, rows.deposits[o]? ≠ none →
        seen o.txHash ∨ o.txHash = tx.hash ∧ o.index < done.length + 1 := by
      intro o ho
      rcases h.depositKeys o ho with hseen | ⟨htx, hlt⟩
      · exact .inl hseen
      · exact .inr ⟨htx, hlt.trans (Nat.lt_succ_self _)⟩
    cases hdeposit : depositOf (out, done.length) with
    | none =>
      have hmid : Mid arOf seen live tx k (done ++ [out]).length rows := by
        rw [length_append, length_singleton]
        refine { h with tracked := h.tracked.mono fun o l ho hdao => ?_, depositKeys := hdepositKeys }
        refine (upTo_output ho).resolve_left ?_
        rintro ⟨-, hrequest, hget, -⟩
        obtain rfl := Option.mem_unique hout hget
        rcases holdsDeposit_or_holdsRequest hdao with ⟨hdep, -⟩ | ⟨hreq, -⟩
        · simp [depositOf, hdep] at hdeposit
        · simp [hreq] at hrequest
      obtain ⟨rows', hrest, hend⟩ := ih (by simpa using houtputs) hmid
      exact ⟨rows', by simpa [hdeposit] using hrest, hend⟩
    | some deposit =>
      obtain ⟨hdao, hdata, rfl⟩ := depositOf_eq_some hdeposit
      have hrequest : out.holdsRequest = false := by simp [holdsRequest, hdata]
      have hindex : rows.byWithdrawTx[(⟨tx.hash, done.length⟩ : DaoOutPoint)]? = none := by
        by_contra hsome
        rcases h.requestKeys _ hsome with hseen | ⟨-, -, out', hout', hrequest'⟩
        · exact h.new hseen
        · obtain rfl := Option.mem_unique hout hout'
          simp [hrequest] at hrequest'
      have hmid : Mid arOf seen live tx k (done ++ [out]).length { rows with
          deposits := rows.deposits.insert ⟨tx.hash, done.length⟩ (depositEntry tx
            ⟨done.length, out.lockScriptHash, out.capacity, out.occupied⟩) } := by
        rw [length_append, length_singleton]
        refine { h with
          tracked := h.tracked.depositStep (hvalid.dated hout hdao (by simp [hdata])) hvalid.rate.1 hindex
            (h.deposit_free le_rfl) rfl hdata fun x l hx _ => ?_
          depositKeys := forall_key_insert hdepositKeys (.inr ⟨rfl, Nat.lt_succ_self _⟩) _ }
        rcases upTo_output hx with ⟨rfl, -, hget, hblock⟩ | hx
        · obtain ⟨cell, block⟩ := l
          obtain rfl := Option.mem_unique hout hget
          exact .inl ⟨rfl, by rw [← hblock]⟩
        · refine .inr ⟨?_, hx⟩
          rintro rfl
          rcases upTo_eq_some.mp hx with ⟨-, out', hout', hlt, -⟩ | ⟨hne, -⟩
          · obtain rfl := Option.mem_unique hout hout'
            simp [hrequest] at hlt
          · exact hne rfl
      obtain ⟨rows', hrest, hend⟩ := ih (by simpa using houtputs) hmid
      refine ⟨rows', ?_, hend⟩
      rw [zipIdx_cons, filterMap_cons, hdeposit]
      exact .cons (h.deposit_free le_rfl) (by simpa using hrest)

end Deposits

/-! ## Whole transactions and chains -/

/-- What is known of the rows between two transactions. -/
structure DaoKnown (arOf : Int → Nat) (seen : Hash32 → Prop) (live : LiveDaoCells) (rows : DaoRows) :
    Prop where
  tracked : DaoTracked arOf live rows
  cellKeys : ∀ o l, live o = some l → o.index < 2 ^ 15 ∧ seen o.txHash
  depositKeys : ∀ o : DaoOutPoint, rows.deposits[o]? ≠ none → seen o.txHash
  requestKeys : ∀ o : DaoOutPoint, rows.byWithdrawTx[o]? ≠ none → seen o.txHash

/-- The steps of a transaction. -/
structure TxTrace (arOf : Int → Nat) (seen : Hash32 → Prop) (live : LiveDaoCells) (tx : DaoTx)
    (rows rows' : DaoRows) : Prop where
  valid : ValidDaoTx arOf live tx
  trace : ∃ mid, SpendTrace arOf seen live tx 0 rows tx.inputs mid ∧
    Mid arOf seen live tx tx.inputs.length 0 mid ∧
    DepositSteps tx mid (tx.outputs.zipIdx.filterMap depositOf) rows'

theorem TxTrace.step (h : TxTrace arOf seen live tx rows rows') : TxStep tx rows rows' := by
  obtain ⟨mid, hspends, -, hdeposits⟩ := h.trace
  exact ⟨outputsOf tx, _, mid, h.valid.daoTxOutputs_eq_ok, hspends.steps,
    parseDepositsFromCells_eq_ok h.valid.wellFormed h.valid.outputs, hdeposits⟩

theorem TxTrace.eq_of_isCellbase (h : TxTrace arOf seen live tx rows rows')
    (hcellbase : tx.isCellbase = true) : rows' = rows := by
  obtain ⟨hinputs, houtputs⟩ := h.valid.cellbase hcellbase
  obtain ⟨mid, hspends, -, hdeposits⟩ := h.trace
  have hnone : tx.outputs.zipIdx.filterMap depositOf = [] := by
    rw [filterMap_eq_nil_iff]
    intro output houtput
    obtain ⟨-, hout, -⟩ := h.valid.mem_outputs houtput
    simp [depositOf, holdsDeposit, houtputs _ hout]
  rw [hinputs] at hspends
  rw [hnone] at hdeposits
  cases hspends
  cases hdeposits
  rfl

/-- A valid transaction never gets stuck. -/
theorem DaoKnown.step (hmono : ∀ m n, m ≤ n → arOf m ≤ arOf n) (h : DaoKnown arOf seen live rows)
    (hnew : ¬seen tx.hash) (hblocks : ∀ o l, live o = some l → l.block ≤ tx.blockNumber)
    (hvalid : ValidDaoTx arOf live tx) :
    ∃ rows', TxTrace arOf seen live tx rows rows' ∧
      DaoKnown arOf (fun hash => seen hash ∨ hash = tx.hash) (live.apply tx) rows' := by
  have hstart : Mid arOf seen live tx 0 0 rows := by
    refine ⟨h.tracked.mono fun o l ho _ => ?_, hnew, h.cellKeys, hblocks,
      fun o ho => .inl (h.depositKeys o ho), fun o ho => .inl (h.requestKeys o ho)⟩
    rcases upTo_eq_some.mp ho with ⟨-, _, -, hlt, -⟩ | ⟨-, -, hlive⟩
    · simp at hlt
    · exact hlive
  obtain ⟨mid, hspends, hmid⟩ := @ValidDaoTx.spendTrace rows arOf seen live tx hmono hvalid [] tx.inputs
    rfl hstart
  obtain ⟨rows', hdeposits, hend⟩ := @ValidDaoTx.depositSteps mid arOf seen live tx tx.inputs.length hvalid
    [] tx.outputs rfl hmid
  refine ⟨rows', ⟨hvalid, mid, hspends, hmid, hdeposits⟩, hend.tracked.mono ?_, ?_, ?_, ?_⟩
  · intro o l ho _
    unfold apply at ho
    split at ho
    · rename_i htx
      obtain ⟨out, hout, rfl⟩ := Option.map_eq_some_iff.mp ho
      refine upTo_eq_some.mpr (.inl ⟨htx, out, hout, ?_, rfl⟩)
      split
      · rename_i hrequest
        obtain ⟨input, hinput, -⟩ := hvalid.paired_input hout hrequest
        exact (List.getElem?_eq_some_iff.mp hinput).1
      · exact (List.getElem?_eq_some_iff.mp hout).1
    · rename_i htx
      split at ho
      · cases ho
      · rename_i hunspent
        exact upTo_eq_some.mpr (.inr ⟨htx, by rwa [take_length], ho⟩)
  · intro o l ho
    unfold apply at ho
    split at ho
    · rename_i htx
      obtain ⟨out, hout, -⟩ := Option.map_eq_some_iff.mp ho
      obtain ⟨hlt, -⟩ := List.getElem?_eq_some_iff.mp hout
      exact ⟨hlt.trans_le hvalid.outputs, .inr htx⟩
    · split at ho
      · cases ho
      · obtain ⟨hidx, hseen⟩ := h.cellKeys o l ho
        exact ⟨hidx, .inl hseen⟩
  · exact fun o ho => (hend.depositKeys o ho).imp_right (·.1)
  · exact fun o ho => (hend.requestKeys o ho).imp_right (·.1)

/-- The steps of a chain. -/
inductive DaoTraces (arOf : Int → Nat) :
    (Hash32 → Prop) → LiveDaoCells → DaoRows → List DaoTx → DaoRows → Prop where
  | nil {seen : Hash32 → Prop} {live : LiveDaoCells} {rows : DaoRows}
      (hknown : DaoKnown arOf seen live rows) : DaoTraces arOf seen live rows [] rows
  | cons {seen : Hash32 → Prop} {live : LiveDaoCells} {rows mid rows' : DaoRows} {tx : DaoTx}
      {txs : List DaoTx} (hknown : DaoKnown arOf seen live rows)
      (htrace : TxTrace arOf seen live tx rows mid)
      (hrest : DaoTraces arOf (fun hash => seen hash ∨ hash = tx.hash) (live.apply tx) mid txs rows') :
      DaoTraces arOf seen live rows (tx :: txs) rows'

theorem DaoKnown.traces (hmono : ∀ m n, m ≤ n → arOf m ≤ arOf n) (h : DaoKnown arOf seen live rows)
    (hnew : ∀ tx ∈ txs, ¬seen tx.hash) (hhashes : (txs.map (·.hash)).Nodup)
    (hold : ∀ tx ∈ txs, ∀ o l, live o = some l → l.block ≤ tx.blockNumber)
    (hblocks : txs.Pairwise (·.blockNumber ≤ ·.blockNumber)) (hvalid : ValidDaoFrom arOf live txs) :
    ∃ rows', DaoTraces arOf seen live rows txs rows' := by
  induction txs generalizing seen live rows with
  | nil => exact ⟨rows, .nil h⟩
  | cons tx txs ih =>
    obtain ⟨hnewTx, hnew⟩ := forall_mem_cons.mp hnew
    obtain ⟨holdTx, hold⟩ := forall_mem_cons.mp hold
    rw [map_cons, nodup_cons] at hhashes
    rw [pairwise_cons] at hblocks
    obtain ⟨mid, htrace, hmid⟩ := h.step hmono hnewTx holdTx hvalid.1
    have hnew' : ∀ tx' ∈ txs, ¬(seen tx'.hash ∨ tx'.hash = tx.hash) := by
      rintro tx' htx' (hseen | heq)
      · exact hnew tx' htx' hseen
      · exact hhashes.1 (heq ▸ mem_map_of_mem htx')
    have hold' : ∀ tx' ∈ txs, ∀ o l, live.apply tx o = some l → l.block ≤ tx'.blockNumber := by
      intro tx' htx' o l ho
      unfold apply at ho
      split at ho
      · obtain ⟨out, -, rfl⟩ := Option.map_eq_some_iff.mp ho
        exact hblocks.1 tx' htx'
      · split at ho
        · cases ho
        · exact hold tx' htx' o l ho
    obtain ⟨rows', hrest⟩ := ih hmid hnew' hhashes.2 hold' hblocks.2 hvalid.2
    exact ⟨rows', .cons h htrace hrest⟩

/-- Where the steps of a chain lead, the rows know of the cells. -/
theorem DaoTraces.tracked (h : DaoTraces arOf seen live rows txs rows') :
    ∃ live', DaoTracked arOf live' rows' := by
  induction h with
  | nil hknown => exact ⟨_, hknown.tracked⟩
  | cons _ _ _ ih => exact ih

theorem DaoTraces.steps (h : DaoTraces arOf seen live rows txs rows') : TxSteps rows txs rows' := by
  induction h with
  | nil _ => exact .nil _
  | cons _ htrace _ ih => exact .cons htrace.step ih

theorem DaoTraces.of_append {later : List DaoTx}
    (h : DaoTraces arOf seen live rows (txs ++ later) rows') :
    ∃ seen' live' mid, DaoTraces arOf seen live rows txs mid ∧
      DaoTraces arOf seen' live' mid later rows' := by
  induction txs generalizing seen live rows with
  | nil =>
    have hknown : DaoKnown arOf seen live rows := by
      cases h with
      | nil hknown => exact hknown
      | cons hknown _ _ => exact hknown
    exact ⟨seen, live, rows, .nil hknown, h⟩
  | cons tx txs ih =>
    cases h with
    | cons hknown htrace hrest =>
      obtain ⟨seen', live', mid, hfirst, hlater⟩ := ih hrest
      exact ⟨seen', live', mid, .cons hknown htrace hfirst, hlater⟩

/-! ## Which rows there are -/

/-- The outpoint of a deposit of a transaction. -/
def DaoTx.Deposits (tx : DaoTx) (o : DaoOutPoint) : Prop :=
  ∃ output ∈ tx.outputs.zipIdx, output.1.holdsDeposit = true ∧ o = ⟨tx.hash, output.2⟩

theorem SpendSteps.keys {outputs : DaoTxOutputs}
    (h : SpendSteps tx outputs rows inputs rows') (o : DaoOutPoint) :
    rows'.deposits[o]? = none ↔ rows.deposits[o]? = none := by
  induction h with
  | nil rows => rfl
  | cons hstep _ ih =>
    rw [ih]
    cases hstep with
    | skipped _ => rfl
    | requested entry request _ hrow | completed deposit entry _ _ _ _ _ hrow =>
      rw [getElem?_insert_ite]
      split
      · rename_i heq
        simp [← heq, hrow]
      · rfl

theorem DepositSteps.keys {deposits : List ParsedDaoDeposit}
    (h : DepositSteps tx rows deposits rows') (o : DaoOutPoint) :
    rows'.deposits[o]? ≠ none ↔ rows.deposits[o]? ≠ none ∨
      ∃ deposit ∈ deposits, o = ⟨tx.hash, deposit.outputIndex⟩ := by
  induction h with
  | nil rows => simp
  | cons hnew _ ih =>
    rw [ih, getElem?_insert_ite]
    split
    · rename_i heq
      simp [heq]
    · rename_i hne
      simp [Ne.symm hne]

theorem TxTrace.keys (h : TxTrace arOf seen live tx rows rows') (o : DaoOutPoint) :
    rows'.deposits[o]? ≠ none ↔ rows.deposits[o]? ≠ none ∨ tx.Deposits o := by
  obtain ⟨mid, hspends, -, hdeposits⟩ := h.trace
  rw [hdeposits.keys o, ne_eq, hspends.steps.keys o]
  refine or_congr Iff.rfl ?_
  constructor
  · rintro ⟨deposit, hdeposit, rfl⟩
    obtain ⟨output, houtput, hdeposit⟩ := mem_filterMap.mp hdeposit
    obtain ⟨hdao, hdata, rfl⟩ := depositOf_eq_some hdeposit
    exact ⟨output, houtput, by simp [holdsDeposit, hdao, hdata], rfl⟩
  · rintro ⟨output, houtput, hdeposit, rfl⟩
    refine ⟨⟨output.2, output.1.lockScriptHash, output.1.capacity, output.1.occupied⟩,
      mem_filterMap.mpr ⟨output, houtput, ?_⟩, rfl⟩
    simp [depositOf, hdeposit]

/-- Exactly the deposits of the chain have a row. -/
theorem DaoTraces.keys (h : DaoTraces arOf seen live rows txs rows') (o : DaoOutPoint) :
    rows'.deposits[o]? ≠ none ↔ rows.deposits[o]? ≠ none ∨ ∃ tx ∈ txs, tx.Deposits o := by
  induction h with
  | nil _ => simp
  | cons _ htrace _ ih =>
    rw [ih, htrace.keys o, or_assoc]
    simp

/-- A chain that follows the DAO rules never gets stuck. -/
theorem ValidDaoChain.traces (h : ValidDaoChain arOf txs) :
    ∃ rows, DaoTraces arOf (fun _ => False) (fun _ => none) {} txs rows := by
  refine DaoKnown.traces h.rates ⟨.empty arOf, ?_, ?_, ?_⟩ ?_ h.hashes ?_ h.blocks h.valid
  · simp
  · simp
  · simp
  · simp
  · simp

end Ckbadger.Writer
