/-
Ckbadger.Bulk.FiberRuns — the live pass and the bulk build over a whole chain.

The live pass over batches of blocks is the pass over the rows one transaction at a time
(`liveRun_eq`), so the cut into batches and the pending maps do not matter. Transaction
by transaction the two indexers take the same step, and fail together, as long as a
chain's Fiber cells are well formed, no cellbase opens a channel, and no revocation takes
over another channel's commitment (`fiber_runs_agree`). A revocation that does is refused
live and accepted in bulk, which leaves the other channel without its commitment row.
-/
import Ckbadger.Bulk.FiberOwnerTheorems

namespace Ckbadger.Bulk

open Lib Ckbadger.Parser Writer Std List

variable {blake2b : Bytes → Hash32}
variable {tx : FiberTx} {b : FiberBatch} {rows : FiberRows} {txs : List FiberTx}

/-! ## The live pass without batches -/

theorem failAt_eq_ok {α : Type} {txHash : Hash32} {x : Except String α} {a : α} :
    failAt txHash x = .ok a ↔ x = .ok a := by
  cases x <;> simp [failAt]

theorem liveTx_commit (h : b.Coherent) (tx : FiberTxActions) :
    (liveTx blake2b b tx).map FiberBatch.commit = liveTx blake2b b.commit tx := by
  unfold liveTx
  split
  · rfl
  · rw [← FiberBatch.applyFiberChannelEvents_commit h]
    cases applyFiberChannelEvents blake2b b tx <;> rfl

theorem liveTx_coherent {b' : FiberBatch} (h : b.Coherent) {tx : FiberTxActions}
    (hb : liveTx blake2b b tx = .ok b') : b'.Coherent := by
  unfold liveTx at hb
  split at hb
  · exact return_eq_ok.mp hb ▸ h
  · exact h.applyFiberChannelEvents (failAt_eq_ok.mp hb)

theorem liveBlock_commit (h : b.Coherent) (block : List FiberTx) :
    (liveBlock blake2b b block).map FiberBatch.commit = liveBlock blake2b b.commit block := by
  unfold liveBlock
  cases block.mapM liveTxActions with
  | error e => rfl
  | ok actions =>
    exact foldlM_map_eq FiberBatch.Coherent (fun u tx hu => liveTx_commit hu tx)
      (fun u tx v hu hv => liveTx_coherent hu hv) actions h

theorem liveBlock_coherent {b' : FiberBatch} (h : b.Coherent) {block : List FiberTx}
    (hb : liveBlock blake2b b block = .ok b') : b'.Coherent := by
  obtain ⟨actions, -, hrun⟩ := bind_eq_ok.mp hb
  exact foldlM_invariant FiberBatch.Coherent (fun u tx v _ hu hv => liveTx_coherent hu hv) h hrun

theorem liveBatch_eq (rows : FiberRows) (blocks : List (List FiberTx)) :
    liveBatch blake2b rows blocks = blocks.foldlM (liveBlock blake2b) rows := by
  have hmap := foldlM_map_eq FiberBatch.Coherent
    (fun b block hb => @liveBlock_commit blake2b b hb block)
    (fun b block b' hb hb' => liveBlock_coherent hb hb') blocks (FiberBatch.Coherent.new rows)
  rw [show ({ store := rows : FiberBatch }).commit = rows from rfl] at hmap
  rw [← hmap, liveBatch]
  cases blocks.foldlM (liveBlock blake2b) ({ store := rows } : FiberBatch) <;> rfl

theorem liveRun_eq (batches : List (List (List FiberTx))) :
    liveRun blake2b batches = batches.flatten.foldlM (liveBlock blake2b) {} := by
  have hall : ∀ rows : FiberRows, batches.foldlM (liveBatch blake2b) rows
      = batches.flatten.foldlM (liveBlock blake2b) rows := by
    induction batches with
    | nil => exact fun rows => rfl
    | cons blocks batches ih =>
      intro rows
      rw [foldlM_cons, flatten_cons, foldlM_append, liveBatch_eq]
      exact bind_congr fun mid => ih mid
  exact hall {}

/-- One transaction, its actions built and applied. -/
def liveStep (blake2b : Bytes → Hash32) (rows : FiberRows) (tx : FiberTx) :
    Except FiberFailure FiberRows := do
  let actions ← liveTxActions tx
  liveTx blake2b rows actions

/-- Building all of a block's actions first makes no difference when none of them fails. -/
theorem liveBlock_eq {block : List FiberTx} (hwell : ∀ tx ∈ block, tx.WellFormed)
    (rows : FiberRows) : liveBlock blake2b rows block = block.foldlM (liveStep blake2b) rows := by
  have hall : ∃ actions, block.mapM liveTxActions = .ok actions ∧
      ∀ rows : FiberRows, actions.foldlM (liveTx blake2b) rows
        = block.foldlM (liveStep blake2b) rows := by
    induction block with
    | nil => exact ⟨[], rfl, fun rows => rfl⟩
    | cons tx block ih =>
      obtain ⟨rest, hrest, hfold⟩ := ih (forall_mem_cons.mp hwell).2
      obtain ⟨actions, hactions, -⟩ := @liveTxActions_eq blake2b tx (hwell tx mem_cons_self)
      refine ⟨actions :: rest, by rw [mapM_cons, hactions, hrest]; rfl, fun rows => ?_⟩
      rw [foldlM_cons, foldlM_cons, liveStep, hactions]
      exact bind_congr fun mid => hfold mid
  obtain ⟨actions, hactions, hfold⟩ := hall
  rw [liveBlock, hactions]
  exact hfold rows

theorem foldlM_liveBlock_eq {blocks : List (List FiberTx)}
    (hwell : ∀ tx ∈ blocks.flatten, tx.WellFormed) (rows : FiberRows) :
    blocks.foldlM (liveBlock blake2b) rows = blocks.flatten.foldlM (liveStep blake2b) rows := by
  induction blocks generalizing rows with
  | nil => rfl
  | cons block blocks ih =>
    rw [foldlM_cons, flatten_cons, foldlM_append,
      liveBlock_eq fun tx htx => hwell tx (by simp [htx])]
    exact bind_congr fun mid => ih (fun tx htx => hwell tx (by
      rw [flatten_cons]; exact mem_append_right _ htx)) mid

/-! ## Transaction by transaction -/

/-- A cellbase, whose events the live pass does not apply, has none. -/
def CellbaseQuiet (blake2b : Bytes → Hash32) (tx : FiberTx) : Prop :=
  tx.isCellbase = true → tx.event? blake2b = none

theorem liveStep_eq (h : tx.WellFormed) (hquiet : CellbaseQuiet blake2b tx) (rows : FiberRows) :
    (∀ rows', rows.stepTx blake2b tx = some rows' → liveStep blake2b rows tx = .ok rows') ∧
      (rows.stepTx blake2b tx = none →
        ∃ e, liveStep blake2b rows tx = .error e ∧ e.txHash = tx.hash) := by
  obtain ⟨actions, hactions, hhash, hcellbase, happly⟩ := @liveTxActions_eq blake2b tx h
  have hstep : liveStep blake2b rows tx = liveTx blake2b rows actions := by
    rw [liveStep, hactions]
    rfl
  rw [hstep, liveTx, hcellbase]
  cases hbase : tx.isCellbase with
  | true =>
    have hnone : rows.stepTx blake2b tx = some rows := by rw [FiberRows.stepTx, hquiet hbase]
    rw [hnone]
    refine ⟨fun rows' heq => ?_, fun hfail => ?_⟩
    · rw [← Option.some.inj heq]
      rfl
    · cases hfail
  | false =>
    constructor
    · intro rows' heq
      exact failAt_eq_ok.mpr ((happly rows rows').mpr heq)
    · intro hnone
      cases hrun : applyFiberChannelEvents blake2b rows actions with
      | error message => exact ⟨⟨actions.txHash, message⟩, rfl, hhash⟩
      | ok rows' =>
        rw [(happly rows rows').mp hrun] at hnone
        cases hnone

theorem bulkStep_eq (h : tx.WellFormed) (hfree : ¬TakesOver blake2b rows tx) :
    (∀ rows', rows.stepTx blake2b tx = some rows' →
        failAt tx.hash ((held rows).applyTx blake2b tx) = .ok (held rows')) ∧
      (rows.stepTx blake2b tx = none →
        ∃ e, failAt tx.hash ((held rows).applyTx blake2b tx) = .error e ∧ e.txHash = tx.hash) := by
  constructor
  · intro rows' heq
    exact failAt_eq_ok.mpr ((applyTx_eq_ok h hfree).mpr ⟨rows', heq, rfl⟩)
  · intro hnone
    cases hrun : (held rows).applyTx blake2b tx with
    | error message => exact ⟨⟨tx.hash, message⟩, rfl, rfl⟩
    | ok owner =>
      obtain ⟨rows', heq, -⟩ := (applyTx_eq_ok h hfree).mp hrun
      rw [hnone] at heq
      cases heq

/-! ## The rows of a whole run -/

/-- A commitment cell of the chain that a channel row names. -/
def NamesCommitment (txs : List FiberTx) (channel : FiberChannel) (args : Bytes) : Prop :=
  ∃ tx ∈ txs, channel.commitmentTxHash = some tx.hash ∧
    ∃ output ∈ tx.outputs.zipIdx, output.1.lockType = .commitmentLock ∧
      channel.commitmentOutputIndex = some (UInt32.ofNat output.2) ∧ output.1.lockArgs = args

theorem NamesCommitment.mono {txs' : List FiberTx} {channel : FiberChannel} {args : Bytes}
    (h : NamesCommitment txs channel args) (hsub : txs ⊆ txs') :
    NamesCommitment txs' channel args := by
  obtain ⟨tx, htx, hrest⟩ := h
  exact ⟨tx, hsub htx, hrest⟩

/-- What holds of the rows after some transactions of a chain. -/
structure Indexed (blake2b : Bytes → Hash32) (txs : List FiberTx) (rows : FiberRows) : Prop where
  wellFormed : rows.WellFormed
  /-- A force-closed channel's row is at the hash of the arguments of its commitment. -/
  current : ∀ (id : Hash32) (channel : FiberChannel), rows.channels[id]? = some channel →
    channel.state = .forceClosed → ∃ args, NamesCommitment txs channel args ∧
      rows.byCommitment[blake2b args]? = some id

theorem mem_of_commitmentOutput? {output : FiberCell × Nat}
    (h : tx.commitmentOutput? = some output) :
    output ∈ tx.outputs.zipIdx ∧ output.1.lockType = .commitmentLock :=
  ⟨mem_of_find?_eq_some h, by simpa using find?_some h⟩

theorem mem_of_fundingOutput? {output : FiberCell × Nat} (h : tx.fundingOutput? = some output) :
    output ∈ tx.outputs.zipIdx ∧ output.1.lockType = .fundingLock :=
  ⟨mem_of_find?_eq_some h, by simpa using find?_some h⟩

/-- The commitment an event gives is that of an output of the transaction. -/
theorem event?_commitment {event : ChannelEvent} {commitment : Commitment}
    (hevent : tx.event? blake2b = some event) (hgiven : event.given? = some commitment) :
    ∃ output, tx.commitmentOutput? = some output ∧
      commitment = outputCommitment blake2b output := by
  cases event?_eq_some hevent with
  | channelOpen | channelClose | settlement => cases hgiven
  | forceClose _ output _ hco | commitmentRevocation _ output _ _ _ hco =>
    exact ⟨output, hco, (Option.some.inj hgiven).symm⟩

theorem Indexed.stepTx {rows' : FiberRows}
    (h : Indexed blake2b txs rows) (hstep : rows.stepTx blake2b tx = some rows') :
    Indexed blake2b (txs ++ [tx]) rows' := by
  have hsub : txs ⊆ txs ++ [tx] := subset_append_left _ _
  unfold FiberRows.stepTx at hstep
  split at hstep
  · obtain rfl := Option.some.inj hstep
    refine ⟨h.wellFormed, fun id channel hchannel hclosed => ?_⟩
    obtain ⟨args, hnames, hrow⟩ := h.current id channel hchannel hclosed
    exact ⟨args, hnames.mono hsub, hrow⟩
  · rename_i event hevent
    have hfiber := FiberRows.step_eq_some hstep
    refine ⟨h.wellFormed.step hfiber, fun id channel hchannel hclosed => ?_⟩
    obtain ⟨hold, hrows⟩ | ⟨commitment, hgiven, hhash, hindex, hrow⟩ :=
      hfiber.forceClosed_cases hchannel hclosed
    · obtain ⟨args, hnames, hrow⟩ := h.current id channel hold hclosed
      exact ⟨args, hnames.mono hsub, hrows _ hrow⟩
    · obtain ⟨output, houtput, rfl⟩ := event?_commitment hevent hgiven
      obtain ⟨hmem, htype⟩ := mem_of_commitmentOutput? houtput
      exact ⟨output.1.lockArgs, ⟨tx, by simp, hhash, output, hmem, htype, hindex, rfl⟩, hrow⟩

theorem snapshotRows_held (h : rows.WellFormed) : (held rows).snapshotRows = rows := by
  have hfold : ∀ (entries : List (Hash32 × FiberChannel)) (addr : ExtTreeMap Bytes Unit)
      (key : Bytes), ((entries.foldl (fun addr entry => addParticipants addr entry.1
        entry.2.participants) addr)[key]?).isSome ↔
        (addr[key]?).isSome ∨ ∃ entry ∈ entries, ∃ p ∈ entry.2.participants,
          key = encodeAddrFiberChannelKey p entry.1 := by
    intro entries
    induction entries with
    | nil => simp
    | cons entry entries ih =>
      intro addr key
      rw [foldl_cons, ih, isSome_addParticipants]
      simp [or_assoc]
  have hunit : ∀ x : Option Unit, x = some () ↔ x.isSome := by
    intro x
    cases x <;> simp
  refine FiberRows.ext rfl (ExtTreeMap.ext_getElem? fun key => Option.ext fun _ => ?_) rfl
  rw [hunit, hunit, h.participants]
  refine (hfold rows.channels.toList ∅ key).trans ?_
  simp

/-- Two results are the same: the same rows, or a failure at the same transaction. -/
def Agree : Except FiberFailure FiberRows → Except FiberFailure FiberOwner → Prop
  | .ok rows, .ok owner => rows = owner.snapshotRows
  | .error e, .error e' => e.txHash = e'.txHash
  | _, _ => False

/-- The rows that the channel events of some transactions leave. -/
def rowsAfter (blake2b : Bytes → Hash32) (txs : List FiberTx) : Option FiberRows :=
  txs.foldlM (FiberRows.stepTx blake2b) {}

/-- No transaction of the chain takes over a commitment in the rows before it. -/
def NoTakeover (blake2b : Bytes → Hash32) (txs : List FiberTx) : Prop :=
  ∀ pre tx post rows, txs = pre ++ tx :: post → rowsAfter blake2b pre = some rows →
    ¬TakesOver blake2b rows tx

theorem rowsAfter_snoc (h : rowsAfter blake2b txs = some rows) :
    rowsAfter blake2b (txs ++ [tx]) = rows.stepTx blake2b tx := by
  rw [rowsAfter, foldlM_append, show txs.foldlM _ _ = rowsAfter blake2b txs from rfl, h]
  simp

/-- A chain whose events are all accepted takes nothing over. -/
theorem noTakeover_of_accepted (h : (rowsAfter blake2b txs).isSome) : NoTakeover blake2b txs := by
  rintro pre tx post rows rfl hpre
  obtain ⟨last, hlast⟩ := Option.isSome_iff_exists.mp h
  rw [append_cons, rowsAfter, foldlM_append] at hlast
  obtain ⟨rows', hstep, -⟩ := Option.bind_eq_some_iff.mp hlast
  exact not_takesOver ((rowsAfter_snoc hpre).symm.trans hstep)

theorem bulkRun_snoc {owner : FiberOwner} (h : bulkRun blake2b txs = .ok owner) :
    bulkRun blake2b (txs ++ [tx]) = failAt tx.hash (owner.applyTx blake2b tx) := by
  rw [bulkRun, foldlM_append, show txs.foldlM _ _ = bulkRun blake2b txs from rfl, h]
  simp

/-- From rows that both have reached, the two runs go on together. -/
theorem runs_from {pre : List FiberTx}
    (hindexed : Indexed blake2b pre rows) (hrows : rowsAfter blake2b pre = some rows)
    (hbulk : bulkRun blake2b pre = .ok (held rows))
    (hwell : ∀ tx ∈ txs, tx.WellFormed) (hquiet : ∀ tx ∈ txs, CellbaseQuiet blake2b tx)
    (hfree : NoTakeover blake2b (pre ++ txs)) :
    (∃ rows', txs.foldlM (liveStep blake2b) rows = .ok rows' ∧
        bulkRun blake2b (pre ++ txs) = .ok (held rows') ∧ Indexed blake2b (pre ++ txs) rows') ∨
      ∃ e e', txs.foldlM (liveStep blake2b) rows = .error e ∧
        bulkRun blake2b (pre ++ txs) = .error e' ∧ e.txHash = e'.txHash := by
  induction txs generalizing pre rows with
  | nil => exact .inl ⟨rows, rfl, by simpa using hbulk, by simpa using hindexed⟩
  | cons tx txs ih =>
    have hlive := liveStep_eq (hwell tx mem_cons_self) (hquiet tx mem_cons_self) rows
    have hstep := bulkStep_eq (hwell tx mem_cons_self) (hfree pre tx txs rows rfl hrows)
    rw [← bulkRun_snoc hbulk] at hstep
    rw [foldlM_cons]
    cases htx : rows.stepTx blake2b tx with
    | some rows' =>
      rw [hlive.1 rows' htx]
      rw [append_cons] at hfree ⊢
      exact ih (hindexed.stepTx htx) ((rowsAfter_snoc hrows).trans htx) (hstep.1 rows' htx)
        (forall_mem_cons.mp hwell).2
        (forall_mem_cons.mp hquiet).2 hfree
    | none =>
      obtain ⟨e, he, hhash⟩ := hlive.2 htx
      obtain ⟨e', he', hhash'⟩ := hstep.2 htx
      refine .inr ⟨e, e', by rw [he]; rfl, ?_, hhash.trans hhash'.symm⟩
      rw [append_cons, bulkRun, foldlM_append]
      rw [show (pre ++ [tx]).foldlM _ _ = bulkRun blake2b (pre ++ [tx]) from rfl, he']
      rfl

/-- The live pass, however the chain is cut into batches, and the bulk build fail at the
same transaction or write the same rows, and every force-closed channel has exactly one
commitment row, at the hash of the arguments of the commitment cell it names. This holds
for chains whose Fiber cells are well formed, whose cellbases bring no channel event, and
in which no revocation takes over another channel's commitment. -/
theorem fiber_runs_agree (blake2b : Bytes → Hash32) (batches : List (List (List FiberTx)))
    (hwell : ∀ tx ∈ batches.flatten.flatten, tx.WellFormed)
    (hquiet : ∀ tx ∈ batches.flatten.flatten, CellbaseQuiet blake2b tx)
    (hfree : NoTakeover blake2b batches.flatten.flatten) :
    Agree (liveRun blake2b batches) (bulkRun blake2b batches.flatten.flatten) ∧
      ∀ rows, liveRun blake2b batches = .ok rows →
        ∀ (id : Hash32) (channel : FiberChannel), rows.channels[id]? = some channel →
          channel.state = .forceClosed →
            ∃ args, NamesCommitment batches.flatten.flatten channel args ∧
              ∀ c : Hash32, rows.byCommitment[c]? = some id ↔ c = blake2b args := by
  have hempty : Indexed blake2b [] {} := ⟨.empty, by simp⟩
  rw [liveRun_eq, foldlM_liveBlock_eq hwell]
  obtain ⟨rows, hlive, hbulk, hindexed⟩ | ⟨e, e', hlive, hbulk, hhash⟩ :=
    runs_from hempty rfl rfl hwell hquiet hfree
  · rw [nil_append] at hbulk hindexed
    rw [hlive, hbulk]
    refine ⟨(snapshotRows_held hindexed.wellFormed).symm, fun rows' heq => ?_⟩
    obtain rfl := Except.ok.inj heq
    intro id channel hchannel hclosed
    obtain ⟨args, hnames, hrow⟩ := hindexed.current id channel hchannel hclosed
    refine ⟨args, hnames, fun c => ⟨fun hc => ?_, fun hc => hc ▸ hrow⟩⟩
    exact hindexed.wellFormed.unique id channel hchannel hclosed c _ hc hrow
  · rw [nil_append] at hbulk
    rw [hlive, hbulk]
    exact ⟨hhash, nofun⟩

/-! ### Two channels and a revocation between them -/

/-- A cell under an ordinary lock. -/
def walletCell (owner : Nat) : FiberCell :=
  { capacity := 1000, lockScriptHash := .ofNat owner, lockCodeHash := [1], lockArgs := [] }

def fundingCell : FiberCell :=
  { capacity := 500, lockScriptHash := .ofNat 20, lockCodeHash := fundingLockCodeHashMainnet
    lockArgs := List.replicate 20 9 }

/-- A commitment cell whose arguments begin with a number. -/
def commitmentCell (n : Nat) : FiberCell :=
  { capacity := 490, lockScriptHash := .ofNat 30, lockCodeHash := commitmentLockCodeHashMainnet
    lockArgs := (Hash32.ofNat n).bytes ++ [0, 0, 0, 0] }

/-- A transaction that spends one cell and creates one. -/
def exchange (n : Nat) (spent : Nat) (input output : FiberCell) : FiberTx :=
  { hash := .ofNat n, blockNumber := n, timestamp := 1000 * n
    inputs := [{ outpoint := ⟨.ofNat spent, 0⟩, cell := input }], outputs := [output]
    outputs_length_le := by simp }

/-- Two channels are opened and force-closed, then the first one's commitment is revoked
onto the arguments of the second one's. -/
def takeoverChain : List FiberTx :=
  [ exchange 1 101 (walletCell 5) fundingCell,
    exchange 2 102 (walletCell 6) fundingCell,
    exchange 3 1 fundingCell (commitmentCell 71),
    exchange 4 2 fundingCell (commitmentCell 72),
    exchange 5 3 (commitmentCell 71) (commitmentCell 72) ]

/-- The live pass refuses the revocation; the bulk build accepts it, and no commitment row
leads to the second channel any more, which is force-closed and not settled. -/
theorem bulk_revocation_takes_over :
    (∀ tx ∈ takeoverChain, tx.WellFormed ∧ tx.isCellbase = false) ∧
      ∃ e owner, liveRun Hash32.leading [[takeoverChain]] = .error e ∧
        bulkRun Hash32.leading takeoverChain = .ok owner ∧
        (owner.channels[Hash32.ofNat 2]?).map (·.state) = some .forceClosed ∧
        ∀ c : Hash32, owner.channelByCommitment[c]? ≠ some (.ofNat 2) := by
  have hwell : ∀ tx ∈ takeoverChain, tx.WellFormed ∧ tx.isCellbase = false := by decide +kernel
  have hlive : (liveRun Hash32.leading [[takeoverChain]]).isOk = false := by decide +kernel
  have heval : (do
      let owner ← bulkRun Hash32.leading takeoverChain
      return ((owner.channels[Hash32.ofNat 2]?).map (·.state),
        owner.channelByCommitment.toList.map (·.2)))
      = Except.ok (some FiberChannelState.forceClosed, [Hash32.ofNat 1]) := by decide +kernel
  obtain ⟨owner, hbulk, heval⟩ := bind_eq_ok.mp heval
  obtain ⟨hstate, hrows⟩ := Prod.mk.inj (return_eq_ok.mp heval)
  refine ⟨hwell, ?_⟩
  cases hrun : liveRun Hash32.leading [[takeoverChain]] with
  | ok rows => simp [hrun, Except.toBool] at hlive
  | error e =>
    refine ⟨e, owner, rfl, hbulk, hstate, fun c hc => ?_⟩
    have hmem : Hash32.ofNat 2 ∈ owner.channelByCommitment.toList.map (·.2) :=
      mem_map.mpr ⟨(c, _), ExtTreeMap.mem_toList_iff_getElem?_eq_some.mpr hc, rfl⟩
    rw [hrows] at hmem
    revert hmem
    decide +kernel

/-- Two channels are opened and force-closed, the first one's commitment is revoked onto
arguments of its own, and the second one is settled. -/
def settledChain : List FiberTx :=
  takeoverChain.take 4 ++
    [exchange 5 3 (commitmentCell 71) (commitmentCell 73),
      exchange 6 4 (commitmentCell 72) (walletCell 6)]

/-- The six transactions in two batches, cut between the force closes. -/
theorem fiber_runs_agree_two_channels :
    (liveRun Hash32.leading [[settledChain.take 3], [settledChain.drop 3]]).isOk = true ∧
      Agree (liveRun Hash32.leading [[settledChain.take 3], [settledChain.drop 3]])
        (bulkRun Hash32.leading settledChain) := by
  refine ⟨by decide +kernel, (fiber_runs_agree Hash32.leading
    [[settledChain.take 3], [settledChain.drop 3]] (by decide +kernel) ?_
    (noTakeover_of_accepted (by decide +kernel))).1⟩
  intro tx htx hcellbase
  have hnone : ∀ tx ∈ settledChain, tx.isCellbase = false := by decide +kernel
  rw [hnone tx htx] at hcellbase
  cases hcellbase

end Ckbadger.Bulk
