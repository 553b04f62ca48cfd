/-
Ckbadger.Bulk.FiberOwnerTheorems — the bulk reducer against the live writer.

On a transaction whose Fiber cells are well formed the reducer's summary holds the same
cells as the detector's, and its handlers take the same step the live writer takes, with
one exception: a revocation onto a commitment hash of another channel, which the live
writer refuses and the reducer lets through (`TakesOver`).
-/
import Ckbadger.Bulk.FiberOwner
import Ckbadger.Writer.FiberTxEvents
import Ckbadger.Writer.FiberLife

namespace Ckbadger.Bulk

open Lib Ckbadger.Parser Writer FiberTx ChannelEvent

/-! ## The summary -/

theorem isFundingLock_eq (c : FiberCell) :
    isFundingLock c.lockCodeHash = decide (c.lockType = .fundingLock) := by
  unfold FiberCell.lockType classifyLock
  cases isFundingLock c.lockCodeHash with
  | true => simp
  | false => cases isCommitmentLock c.lockCodeHash <;> simp

theorem isCommitmentLock_eq (c : FiberCell) :
    isCommitmentLock c.lockCodeHash = decide (c.lockType = .commitmentLock) := by
  unfold FiberCell.lockType classifyLock
  cases hfunding : isFundingLock c.lockCodeHash with
  | true => simp [isCommitmentLock_of_isFundingLock hfunding]
  | false => cases isCommitmentLock c.lockCodeHash <;> simp

/-- The summary of a transaction. -/
def txSummary (tx : FiberTx) : FiberTxSummary where
  hasFundingInput := tx.fundingInput?.isSome
  hasFundingOutput := tx.fundingOutput?.isSome
  hasCommitmentInput := tx.commitmentInput?.isSome
  hasCommitmentOutput := tx.commitmentOutput?.isSome
  fundingInputOutpoint := tx.fundingInput?.map (·.outpoint)
  fundingOutputPubkeyHash := tx.fundingOutput?.map (·.1.lockArgs.take 20)
  fundingOutputCapacity := tx.fundingOutput?.map (·.1.capacity.toNat)
  fundingOutputIndex := tx.fundingOutput?.map (UInt32.ofNat ·.2)
  commitmentInputArgs := tx.commitmentInput?.map (·.cell.lockArgs)
  commitmentOutputArgs := tx.commitmentOutput?.map (·.1.lockArgs)
  commitmentOutputIndex := tx.commitmentOutput?.map (UInt32.ofNat ·.2)
  commitmentOutputParsedArgs := tx.commitmentOutput?.bind (parseCommitmentLockArgs ·.1.lockArgs)
  fundingOutputUdt := tx.fundingOutput?.bind (·.1.udt?.map fun u => (u.typeScriptHash, u.amount))
  participants := tx.participants

section Scan

attribute [local simp] FiberTxSummary.recordInput FiberTxSummary.recordOutput isFundingLock_eq
  isCommitmentLock_eq addParticipant required

theorem foldlM_recordInput {tx : FiberTx}
    (h : ∀ i ∈ tx.commitmentInput?, i.cell.CommitmentWellFormed) :
    tx.inputs.foldlM FiberTxSummary.recordInput {} = .ok (txSummary tx.inputsOnly) := by
  obtain ⟨hash, blockNumber, timestamp, isCellbase, inputs, outputs, hle⟩ := tx
  simp only [inputsOnly]
  induction inputs using List.reverseRecOn with
  | nil => rfl
  | append_singleton inputs input ih =>
    have ih := ih fun i hi => h i (by
      simp only [commitmentInput?, List.find?_append] at hi ⊢
      rw [Option.mem_def.mp hi]
      rfl)
    rw [List.foldlM_append, ih]
    simp only [txSummary, fundingInput?, fundingOutput?, commitmentInput?,
      commitmentOutput?, participants, List.find?_append] at h ⊢
    cases htype : input.cell.lockType with
    | fundingLock =>
      cases inputs.find? (·.cell.lockType = .fundingLock) <;>
        simp [htype]
    | commitmentLock =>
      cases hc : inputs.find? (·.cell.lockType = .commitmentLock) with
      | some i =>
        simp [htype]
      | none =>
        have hinput : input.cell.CommitmentWellFormed := h input (by simp [hc, htype])
        obtain ⟨parsed, hparsed⟩ := Option.isSome_iff_exists.mp hinput
        simp [htype, hparsed]
    | other =>
      simp [htype]

theorem fundingUdt_eq_ok {cell : FiberCell} (h : cell.FundingWellFormed) :
    fundingUdt cell = .ok (cell.udt?.map fun u => (u.typeScriptHash, u.amount)) := by
  obtain ⟨-, -, htyped⟩ := h
  unfold fundingUdt FiberCell.udt?
  cases htype : cell.typeCodeHash with
  | none => rfl
  | some code =>
    obtain ⟨hhash, hamount⟩ := htyped (by simp [htype])
    obtain ⟨hash, hhash⟩ := Option.isSome_iff_exists.mp hhash
    obtain ⟨amount, hamount⟩ := Option.isSome_iff_exists.mp hamount
    simp [hhash, hamount]

theorem foldlM_recordOutput {tx : FiberTx}
    (hfunding : ∀ o ∈ tx.fundingOutput?, o.1.FundingWellFormed)
    (hcommitment : ∀ o ∈ tx.commitmentOutput?, o.1.CommitmentWellFormed) :
    tx.outputs.zipIdx.foldlM FiberTxSummary.recordOutput (txSummary tx.inputsOnly)
      = .ok (txSummary tx) := by
  obtain ⟨hash, blockNumber, timestamp, isCellbase, inputs, outputs, hle⟩ := tx
  simp only [inputsOnly]
  induction outputs using List.reverseRecOn with
  | nil => rfl
  | append_singleton outputs output ih =>
    simp only [txSummary, fundingInput?, fundingOutput?, commitmentInput?,
      commitmentOutput?, participants, List.zipIdx_append, List.find?_append]
      at hfunding hcommitment ih ⊢
    rw [List.length_append] at hle
    rw [List.foldlM_append, ih (Nat.le_of_succ_le hle)
      (fun o ho => hfunding o (by rw [Option.mem_def.mp ho]; rfl))
      (fun o ho => hcommitment o (by rw [Option.mem_def.mp ho]; rfl))]
    cases htype : output.lockType with
    | fundingLock =>
      cases hf : outputs.zipIdx.find? (·.1.lockType = .fundingLock) with
      | some o => simp [htype]
      | none =>
        have hwell : output.FundingWellFormed :=
          hfunding (output, outputs.length) (by simp [hf, htype])
        simp [htype, parseFundingLockArgs_eq hwell.1, hwell.2.1, ensure, fundingUdt_eq_ok hwell]
    | commitmentLock =>
      cases hc : outputs.zipIdx.find? (·.1.lockType = .commitmentLock) with
      | some o =>
        simp [htype]
      | none =>
        have hwell : output.CommitmentWellFormed :=
          hcommitment (output, outputs.length) (by simp [hc, htype])
        obtain ⟨parsed, hparsed⟩ := Option.isSome_iff_exists.mp hwell
        simp [htype, hparsed]
    | other =>
      simp [htype]

end Scan

theorem fromTx_eq {tx : FiberTx} (h : tx.WellFormed) :
    FiberTxSummary.fromTx tx = .ok (txSummary tx) := by
  rw [FiberTxSummary.fromTx, foldlM_recordInput h.commitmentInput]
  exact foldlM_recordOutput h.fundingOutput h.commitmentOutput

/-! ## One transaction -/

/-- The reducer that holds the channels and the commitment index of the rows. -/
def held (rows : FiberRows) : FiberOwner := ⟨rows.channels, rows.byCommitment⟩

variable {blake2b : Bytes → Hash32} {owner : FiberOwner} {rows : FiberRows} {tx : FiberTx}
variable {input : FiberInput} {output : FiberCell × Nat}

/-- A revocation onto a commitment hash that belongs to another channel. -/
def TakesOver (blake2b : Bytes → Hash32) (rows : FiberRows) (tx : FiberTx) : Prop :=
  ∃ old new id other, tx.event? blake2b = some (.commitmentRevocation old new) ∧
    rows.byCommitment[old]? = some id ∧ rows.byCommitment[new.hash]? = some other ∧ other ≠ id

/-- Rows accept no transaction that takes a commitment over. -/
theorem not_takesOver {rows' : FiberRows} (hstep : rows.stepTx blake2b tx = some rows') :
    ¬TakesOver blake2b rows tx := by
  rintro ⟨old, new, id, other, hevent, hold, hnew, hne⟩
  simp only [FiberRows.stepTx, hevent] at hstep
  cases FiberRows.step_eq_some hstep with
  | revoked i _ _ channel hid hchannel hclosed hfree =>
    obtain rfl := Option.mem_unique hold hid
    exact hne (hfree other hnew)

/-- The reducer after an event of a transaction. -/
def Applies (owner : FiberOwner) (rows : FiberRows) (tx : FiberTx) (event : ChannelEvent) : Prop :=
  ∃ writes, event.writes rows tx.eventTx = some writes ∧
    held (writes.foldl FiberRows.write rows) = owner

theorem channelInState_eq_ok {id : Hash32} {state : FiberChannelState} {channel : FiberChannel} :
    (held rows).channelInState id state = .ok channel ↔
      channelIn? rows id state = some channel := by
  simp only [FiberOwner.channelInState, bind_eq_ok, required_eq_ok, ensure_eq_ok, return_eq_ok,
    channelIn?_eq_some]
  constructor
  · rintro ⟨c, hget, u, hstate, rfl⟩
    exact ⟨hget, hstate⟩
  · rintro ⟨hget, hstate⟩
    exact ⟨channel, hget, (), hstate, rfl⟩

theorem handleChannelOpen_eq_ok (houtput : tx.fundingOutput? = some output) :
    (held rows).handleChannelOpen blake2b tx (txSummary tx) = .ok owner ↔
      Applies owner rows tx
        (.channelOpen (encodeFiberChannelId blake2b ⟨tx.hash, UInt32.ofNat output.2⟩)
          (openTerms tx output)) := by
  have hudt : ∀ udt : Option FundingUdt,
      (udt.map fun u => (u.typeScriptHash, u.amount)).map (·.1) = udt.map (·.typeScriptHash) ∧
        (udt.map fun u => (u.typeScriptHash, u.amount)).map (·.2) = udt.map (·.amount) := by
    intro udt
    cases udt <;> simp
  simp only [FiberOwner.handleChannelOpen, txSummary, houtput, Option.map_some, Option.bind_some,
    bind_eq_ok, required_eq_ok, ensure_eq_ok, return_eq_ok, Option.some.injEq, (hudt _).1, (hudt _).2]
  constructor
  · rintro ⟨_, rfl, _, rfl, _, rfl, _, hne, _, hnew, rfl⟩
    refine ⟨_, writes_eq_some.mpr ⟨⟨hnew, hne⟩, rfl⟩, ?_⟩
    rw [List.foldl_cons, foldl_putAddrChannel]
    rfl
  · rintro ⟨writes, hwrites, rfl⟩
    obtain ⟨⟨hnew, hne⟩, rfl⟩ := writes_eq_some.mp hwrites
    refine ⟨_, rfl, _, rfl, _, rfl, (), hne, (), hnew, ?_⟩
    rw [List.foldl_cons, foldl_putAddrChannel]
    rfl

theorem handleChannelClose_eq_ok (hinput : tx.fundingInput? = some input) :
    (held rows).handleChannelClose blake2b tx (txSummary tx) = .ok owner ↔
      Applies owner rows tx (.channelClose (encodeFiberChannelId blake2b input.outpoint)) := by
  simp only [FiberOwner.handleChannelClose, txSummary, hinput, Option.map_some, bind_eq_ok,
    required_eq_ok, return_eq_ok, Option.some.injEq, channelInState_eq_ok]
  constructor
  · rintro ⟨_, rfl, channel, hchannel, rfl⟩
    exact ⟨_, writes_eq_some.mpr ⟨channel, hchannel, rfl⟩, rfl⟩
  · rintro ⟨writes, hwrites, rfl⟩
    obtain ⟨channel, hchannel, rfl⟩ := writes_eq_some.mp hwrites
    exact ⟨_, rfl, channel, hchannel, rfl⟩

theorem handleForceClose_eq_ok (hinput : tx.fundingInput? = some input)
    (houtput : tx.commitmentOutput? = some output) (h : tx.WellFormed) :
    (held rows).handleForceClose blake2b tx (txSummary tx) = .ok owner ↔
      Applies owner rows tx (.forceClose (encodeFiberChannelId blake2b input.outpoint)
        (outputCommitment blake2b output)) := by
  obtain ⟨parsed, hparsed, hdelay⟩ :=
    parseCommitmentLockArgs_delayEpoch (h.commitmentOutput output houtput)
  simp only [FiberOwner.handleForceClose, txSummary, hinput, houtput, Option.map_some,
    Option.bind_some, hparsed, bind_eq_ok, required_eq_ok, ensure_eq_ok, return_eq_ok,
    Option.some.injEq, channelInState_eq_ok]
  constructor
  · rintro ⟨_, rfl, _, rfl, _, rfl, _, rfl, _, hfree, channel, hchannel, rfl⟩
    refine ⟨_, writes_eq_some.mpr ⟨channel, hchannel, hfree, rfl⟩, ?_⟩
    simp only [applyCommitmentEnrichment, hdelay]
    rfl
  · rintro ⟨writes, hwrites, rfl⟩
    obtain ⟨channel, hchannel, hfree, rfl⟩ := writes_eq_some.mp hwrites
    refine ⟨_, rfl, _, rfl, _, rfl, _, rfl, (), hfree, channel, hchannel, ?_⟩
    simp only [applyCommitmentEnrichment, hdelay]
    rfl

theorem handleSettlement_eq_ok (hinput : tx.commitmentInput? = some input) :
    (held rows).handleSettlement blake2b tx (txSummary tx) = .ok owner ↔
      Applies owner rows tx (.settlement (blake2b input.cell.lockArgs)) := by
  simp only [FiberOwner.handleSettlement, txSummary, hinput, Option.map_some, bind_eq_ok,
    required_eq_ok, return_eq_ok, Option.some.injEq, channelInState_eq_ok]
  constructor
  · rintro ⟨_, rfl, id, hid, channel, hchannel, rfl⟩
    exact ⟨_, writes_eq_some.mpr ⟨id, hid, channel, hchannel, rfl⟩, rfl⟩
  · rintro ⟨writes, hwrites, rfl⟩
    obtain ⟨id, hid, channel, hchannel, rfl⟩ := writes_eq_some.mp hwrites
    exact ⟨_, rfl, id, hid, channel, hchannel, rfl⟩

theorem handleCommitmentRevocation_eq_ok (hinput : tx.commitmentInput? = some input)
    (houtput : tx.commitmentOutput? = some output) (h : tx.WellFormed)
    (hfree : ∀ id, rows.byCommitment[blake2b input.cell.lockArgs]? = some id →
      CommitmentFree rows (blake2b output.1.lockArgs) id) :
    (held rows).handleCommitmentRevocation blake2b tx (txSummary tx) = .ok owner ↔
      Applies owner rows tx (.commitmentRevocation (blake2b input.cell.lockArgs)
        (outputCommitment blake2b output)) := by
  obtain ⟨parsed, hparsed, hdelay⟩ :=
    parseCommitmentLockArgs_delayEpoch (h.commitmentOutput output houtput)
  simp only [FiberOwner.handleCommitmentRevocation, txSummary, hinput, houtput, Option.map_some,
    Option.bind_some, hparsed, bind_eq_ok, required_eq_ok, return_eq_ok, Option.some.injEq,
    channelInState_eq_ok]
  constructor
  · rintro ⟨_, rfl, _, rfl, id, hid, channel, hchannel, _, rfl, _, rfl, rfl⟩
    refine ⟨_, writes_eq_some.mpr ⟨id, hid, channel, hchannel, hfree id hid, rfl⟩, ?_⟩
    simp only [applyCommitmentEnrichment, hdelay]
    rfl
  · rintro ⟨writes, hwrites, rfl⟩
    obtain ⟨id, hid, channel, hchannel, -, rfl⟩ := writes_eq_some.mp hwrites
    refine ⟨_, rfl, _, rfl, id, hid, channel, hchannel, _, rfl, _, rfl, ?_⟩
    simp only [applyCommitmentEnrichment, hdelay]
    rfl

/-- Where the live writer's check would not refuse it, the reducer takes the step of the
rows it holds. -/
theorem applyTx_eq_ok (h : tx.WellFormed) (hfree : ¬TakesOver blake2b rows tx) :
    (held rows).applyTx blake2b tx = .ok owner ↔
      ∃ rows', rows.stepTx blake2b tx = some rows' ∧ held rows' = owner := by
  have happlies : ∀ event, tx.event? blake2b = some event →
      (Applies owner rows tx event ↔
        ∃ rows', rows.stepTx blake2b tx = some rows' ∧ held rows' = owner) := by
    intro event hevent
    simp [Applies, FiberRows.stepTx, hevent, FiberRows.step]
  have hclass : (txSummary tx).classifyEvent = classifyCells tx.fundingInput?.isSome
      tx.fundingOutput?.isSome tx.commitmentInput?.isSome tx.commitmentOutput?.isSome := rfl
  rw [FiberOwner.applyTx, fromTx_eq h]
  simp only [hclass, ok_bind]
  cases hfi : tx.fundingInput? with
  | none =>
    cases hfo : tx.fundingOutput? with
    | some output =>
      rw [← happlies _ (event?_of (.channelOpen _ hfi hfo))]
      exact handleChannelOpen_eq_ok hfo
    | none =>
      cases hci : tx.commitmentInput? with
      | none =>
        have hevent : tx.event? blake2b = none := event?_none hfi hfo hci
        simp [classifyCells, FiberRows.stepTx, hevent]
      | some input =>
        cases hco : tx.commitmentOutput? with
        | none =>
          rw [← happlies _ (event?_of (.settlement _ hfi hfo hci hco))]
          exact handleSettlement_eq_ok hci
        | some output =>
          have hevent := @event?_of blake2b tx _ (.commitmentRevocation _ _ hfi hfo hci hco)
          rw [← happlies _ hevent]
          refine handleCommitmentRevocation_eq_ok hci hco h fun id hid other hother => ?_
          by_contra hne
          exact hfree ⟨_, _, id, other, hevent, hid, hother, hne⟩
  | some input =>
    cases hco : tx.commitmentOutput? with
    | none =>
      rw [← happlies _ (event?_of (.channelClose _ hfi hco))]
      simp only [classifyCells, Option.isSome_some, Bool.not_true, Bool.and_false]
      exact handleChannelClose_eq_ok hfi
    | some output =>
      rw [← happlies _ (event?_of (.forceClose _ _ hfi hco))]
      simp only [classifyCells, Option.isSome_some, Bool.not_true, Bool.and_false]
      exact handleForceClose_eq_ok hfi hco h

end Ckbadger.Bulk
