/-
Ckbadger.Writer.FiberTxEvents — the event a transaction stands for, and that the live
pass finds and applies it.

The first funding and commitment cell of each side decide a transaction's event
(`FiberTx.event?`). The detector's scan finds exactly these cells, and the text it
writes is read back by the writer as this event: on a transaction whose Fiber cells are
well formed the live pass takes the rows one step by it (`applyFiberChannelEvents_tx`).
-/
import Ckbadger.Writer.FiberEvents
import Mathlib.Data.List.Induction

namespace Ckbadger.Writer

open Lib Ckbadger.Parser Std FiberTx List

variable {output : FiberCell × Nat} {input : FiberInput} {args : Bytes}

/-! ## The cells that decide the event -/

namespace FiberTx

variable (tx : FiberTx)

def fundingInput? : Option FiberInput := tx.inputs.find? (·.cell.lockType = .fundingLock)

def commitmentInput? : Option FiberInput := tx.inputs.find? (·.cell.lockType = .commitmentLock)

def fundingOutput? : Option (FiberCell × Nat) :=
  tx.outputs.zipIdx.find? (·.1.lockType = .fundingLock)

def commitmentOutput? : Option (FiberCell × Nat) :=
  tx.outputs.zipIdx.find? (·.1.lockType = .commitmentLock)

end FiberTx

/-- Adds the owner of a cell under another lock. -/
def addParticipant (s : ExtTreeSet Hash32) (cell : FiberCell) : ExtTreeSet Hash32 :=
  if cell.lockType = .other then s.insert cell.lockScriptHash else s

def FiberTx.participants (tx : FiberTx) : ExtTreeSet Hash32 :=
  (tx.inputs.map (·.cell) ++ tx.outputs).foldl addParticipant ∅

/-- The token a funding output holds. -/
def FiberCell.udt? (cell : FiberCell) : Option FundingUdt :=
  match cell.typeCodeHash, cell.typeScriptHash, parseFundingUdtAmount cell.data with
  | some _, some typeScriptHash, some amount => some ⟨typeScriptHash, amount⟩
  | _, _, _ => none

/-- A funding cell whose arguments, capacity and token can be read. -/
def FiberCell.FundingWellFormed (cell : FiberCell) : Prop :=
  (parseFundingLockArgs cell.lockArgs).isSome ∧ 0 ≤ cell.capacity ∧
    (cell.typeCodeHash.isSome → cell.typeScriptHash.isSome ∧ (parseFundingUdtAmount cell.data).isSome)

/-- A commitment cell whose arguments can be read. -/
def FiberCell.CommitmentWellFormed (cell : FiberCell) : Prop :=
  (parseCommitmentLockArgs cell.lockArgs).isSome

/-- The Fiber cells a transaction is indexed by are well formed. -/
@[mk_iff]
structure FiberTx.WellFormed (tx : FiberTx) : Prop where
  fundingOutput : ∀ o ∈ tx.fundingOutput?, o.1.FundingWellFormed
  commitmentInput : ∀ i ∈ tx.commitmentInput?, i.cell.CommitmentWellFormed
  commitmentOutput : ∀ o ∈ tx.commitmentOutput?, o.1.CommitmentWellFormed

instance (cell : FiberCell) : Decidable cell.FundingWellFormed :=
  inferInstanceAs (Decidable (_ ∧ _ ∧ _))

instance (cell : FiberCell) : Decidable cell.CommitmentWellFormed :=
  inferInstanceAs (Decidable (_ = true))

instance (tx : FiberTx) : Decidable tx.WellFormed :=
  decidable_of_iff' _ (wellFormed_iff tx)

def FiberTx.eventTx (tx : FiberTx) : EventTx := ⟨tx.hash, tx.blockNumber, tx.timestamp⟩

section Event

variable (blake2b : Bytes → Hash32)

/-- The terms of the channel a funding output opens. -/
def openTerms (tx : FiberTx) (output : FiberCell × Nat) : ChannelTerms where
  outpoint := ⟨tx.hash, UInt32.ofNat output.2⟩
  capacity := output.1.capacity.toNat
  udtTypeHash := output.1.udt?.map (·.typeScriptHash)
  udtAmount := output.1.udt?.map (·.amount)
  participants := tx.participants.toList
  fundingLockArgs := output.1.lockArgs.take 20

/-- The commitment a commitment output stands for. -/
def outputCommitment (output : FiberCell × Nat) : Commitment where
  hash := blake2b output.1.lockArgs
  index := UInt32.ofNat output.2
  delayEpoch := leNat (slice output.1.lockArgs 20 28)

/-- The event of a transaction, if any. -/
def FiberTx.event? (tx : FiberTx) : Option ChannelEvent :=
  match tx.fundingInput?, tx.fundingOutput?, tx.commitmentInput?, tx.commitmentOutput? with
  | none, some output, _, _ =>
    some (.channelOpen (encodeFiberChannelId blake2b ⟨tx.hash, UInt32.ofNat output.2⟩)
      (openTerms tx output))
  | some input, _, _, none => some (.channelClose (encodeFiberChannelId blake2b input.outpoint))
  | some input, _, _, some output =>
    some (.forceClose (encodeFiberChannelId blake2b input.outpoint) (outputCommitment blake2b output))
  | none, none, some input, none => some (.settlement (blake2b input.cell.lockArgs))
  | none, none, some input, some output =>
    some (.commitmentRevocation (blake2b input.cell.lockArgs) (outputCommitment blake2b output))
  | none, none, none, _ => none

variable {blake2b} {tx : FiberTx}

theorem event?_none (hfi : tx.fundingInput? = none) (hfo : tx.fundingOutput? = none)
    (hci : tx.commitmentInput? = none) : tx.event? blake2b = none := by
  simp [event?, hfi, hfo, hci]

/-- The five shapes of a transaction with an event. -/
inductive FiberTx.HasEvent (blake2b : Bytes → Hash32) (tx : FiberTx) : ChannelEvent → Prop where
  | channelOpen (output : FiberCell × Nat) (hfi : tx.fundingInput? = none)
      (hfo : tx.fundingOutput? = some output) :
      HasEvent blake2b tx (.channelOpen
        (encodeFiberChannelId blake2b ⟨tx.hash, UInt32.ofNat output.2⟩) (openTerms tx output))
  | channelClose (input : FiberInput) (hfi : tx.fundingInput? = some input)
      (hco : tx.commitmentOutput? = none) :
      HasEvent blake2b tx (.channelClose (encodeFiberChannelId blake2b input.outpoint))
  | forceClose (input : FiberInput) (output : FiberCell × Nat) (hfi : tx.fundingInput? = some input)
      (hco : tx.commitmentOutput? = some output) :
      HasEvent blake2b tx (.forceClose (encodeFiberChannelId blake2b input.outpoint)
        (outputCommitment blake2b output))
  | settlement (input : FiberInput) (hfi : tx.fundingInput? = none)
      (hfo : tx.fundingOutput? = none) (hci : tx.commitmentInput? = some input)
      (hco : tx.commitmentOutput? = none) :
      HasEvent blake2b tx (.settlement (blake2b input.cell.lockArgs))
  | commitmentRevocation (input : FiberInput) (output : FiberCell × Nat)
      (hfi : tx.fundingInput? = none) (hfo : tx.fundingOutput? = none)
      (hci : tx.commitmentInput? = some input) (hco : tx.commitmentOutput? = some output) :
      HasEvent blake2b tx (.commitmentRevocation (blake2b input.cell.lockArgs)
        (outputCommitment blake2b output))

theorem event?_eq_some {event : ChannelEvent} (h : tx.event? blake2b = some event) :
    tx.HasEvent blake2b event := by
  unfold event? at h
  split at h
  · rename_i hfi hfo
    exact Option.some.inj h ▸ .channelOpen _ hfi hfo
  · rename_i hfi hco
    exact Option.some.inj h ▸ .channelClose _ hfi hco
  · rename_i hfi hco
    exact Option.some.inj h ▸ .forceClose _ _ hfi hco
  · rename_i hfi hfo hci hco
    exact Option.some.inj h ▸ .settlement _ hfi hfo hci hco
  · rename_i hfi hfo hci hco
    exact Option.some.inj h ▸ .commitmentRevocation _ _ hfi hfo hci hco
  · cases h

theorem event?_of {event : ChannelEvent} (h : tx.HasEvent blake2b event) :
    tx.event? blake2b = some event := by
  cases h with
  | channelOpen output hfi hfo => simp [event?, hfi, hfo]
  | channelClose input hfi hco | forceClose input output hfi hco => simp [event?, hfi, hco]
  | settlement input hfi hfo hci hco | commitmentRevocation input output hfi hfo hci hco =>
    simp [event?, hfi, hfo, hci, hco]

variable (blake2b)

/-- The rows after a transaction they accept. -/
def FiberRows.stepTx (rows : FiberRows) (tx : FiberTx) : Option FiberRows :=
  match tx.event? blake2b with
  | none => some rows
  | some event => rows.step tx.eventTx event

end Event

/-! ## The scan -/

theorem parseFundingUdt_eq_ok {cell : FiberCell} (h : cell.FundingWellFormed) :
    parseFundingUdt cell = .ok cell.udt? := by
  obtain ⟨-, -, htyped⟩ := h
  unfold parseFundingUdt FiberCell.udt?
  cases htype : cell.typeCodeHash with
  | none => rfl
  | some code =>
    obtain ⟨hhash, hamount⟩ := htyped (by simp [htype])
    obtain ⟨hash, hhash⟩ := Option.isSome_iff_exists.mp hhash
    obtain ⟨amount, hamount⟩ := Option.isSome_iff_exists.mp hamount
    simp [hhash, hamount]

/-- The summary of a transaction. -/
def FiberTx.summary (tx : FiberTx) : FiberCellSummary where
  hasFundingInput := tx.fundingInput?.isSome
  hasFundingOutput := tx.fundingOutput?.isSome
  hasCommitmentInput := tx.commitmentInput?.isSome
  hasCommitmentOutput := tx.commitmentOutput?.isSome
  fundingOutputArgs := tx.fundingOutput?.map (·.1.lockArgs)
  fundingOutputCapacity := tx.fundingOutput?.map (·.1.capacity)
  fundingOutputIndex := tx.fundingOutput?.map (·.2)
  fundingOutputUdt := tx.fundingOutput?.bind (·.1.udt?)
  fundingInputArgs := tx.fundingInput?.map (·.cell.lockArgs)
  fundingInputCapacity := tx.fundingInput?.map (·.cell.capacity)
  fundingInputOutpoint := tx.fundingInput?.map (·.outpoint)
  commitmentInputArgs := tx.commitmentInput?.map (·.cell.lockArgs)
  commitmentInputCapacity := tx.commitmentInput?.map (·.cell.capacity)
  commitmentOutputArgs := tx.commitmentOutput?.map (·.1.lockArgs)
  commitmentOutputIndex := tx.commitmentOutput?.map (UInt32.ofNat ·.2)
  participants := tx.participants

/-- The transaction with its inputs alone. -/
def FiberTx.inputsOnly (tx : FiberTx) : FiberTx :=
  { tx with outputs := [], outputs_length_le := Nat.zero_le _ }

/-- What the scan of the inputs has collected. -/
theorem foldl_addInput (tx : FiberTx) :
    tx.inputs.foldl FiberCellSummary.addInput {} = tx.inputsOnly.summary := by
  obtain ⟨hash, blockNumber, timestamp, isCellbase, inputs, outputs, hle⟩ := tx
  simp only [inputsOnly]
  induction inputs using List.reverseRecOn with
  | nil => rfl
  | append_singleton inputs input ih =>
    rw [foldl_append, ih]
    cases htype : input.cell.lockType <;>
      cases hf : inputs.find? (·.cell.lockType = .fundingLock) <;>
      cases hc : inputs.find? (·.cell.lockType = .commitmentLock) <;>
      simp [FiberCellSummary.addInput, addParticipant, summary, fundingInput?,
        fundingOutput?, commitmentInput?, commitmentOutput?,
        participants, htype, hf, hc]

theorem outputIndex_eq_ok {idx : Nat} {error : String} (h : idx < 2 ^ 32) :
    outputIndex idx error = .ok (UInt32.ofNat idx) := if_pos h

/-- What the scan of the outputs adds. -/
theorem foldlM_addOutput {tx : FiberTx} (h : ∀ o ∈ tx.fundingOutput?, o.1.FundingWellFormed) :
    tx.outputs.zipIdx.foldlM FiberCellSummary.addOutput tx.inputsOnly.summary = .ok tx.summary := by
  obtain ⟨hash, blockNumber, timestamp, isCellbase, inputs, outputs, hle⟩ := tx
  simp only [inputsOnly]
  induction outputs using List.reverseRecOn with
  | nil => rfl
  | append_singleton outputs output ih =>
    have hindex : outputs.length < 2 ^ 32 := by
      rw [length_append] at hle
      exact hle
    have ih := ih hindex.le fun o ho => h o (by
      simp only [fundingOutput?, zipIdx_append, find?_append] at ho ⊢
      rw [Option.mem_def.mp ho]
      rfl)
    rw [zipIdx_append, foldlM_append, ih]
    simp only [summary, fundingInput?, fundingOutput?,
      commitmentInput?, commitmentOutput?, participants,
      zipIdx_append, find?_append] at h ⊢
    cases htype : output.lockType with
    | fundingLock =>
      cases hf : outputs.zipIdx.find? (·.1.lockType = .fundingLock) with
      | some f => simp [FiberCellSummary.addOutput, addParticipant, htype]
      | none =>
        have hwell : output.FundingWellFormed := h (output, outputs.length) (by simp [hf, htype])
        simp [FiberCellSummary.addOutput, addParticipant, htype, outputIndex_eq_ok hindex,
          parseFundingUdt_eq_ok hwell]
    | commitmentLock =>
      cases outputs.zipIdx.find? (·.1.lockType = .commitmentLock) <;>
        simp [FiberCellSummary.addOutput, addParticipant, htype, outputIndex_eq_ok hindex]
    | other => simp [FiberCellSummary.addOutput, addParticipant, htype]

theorem FiberTx.index_lt (tx : FiberTx) {o : FiberCell × Nat} (h : o ∈ tx.outputs.zipIdx) :
    o.2 < 2 ^ 32 := by
  have hlt := (mem_zipIdx h).2.1
  have hle := tx.outputs_length_le
  omega

theorem summarizeCells_eq {tx : FiberTx} (h : tx.WellFormed) :
    summarizeCells tx = .ok tx.summary := by
  rw [summarizeCells, foldl_addInput, foldlM_addOutput h.fundingOutput]

/-! ## The text is read back -/

@[simp] theorem decodeHexWithPrefix_hexEncode (bs : Bytes) :
    decodeHexWithPrefix ('0' :: 'x' :: hexEncode bs) = some bs :=
  hexDecode?_hexEncode bs

@[simp] theorem decodeFiberOutpoint_encode (o : FiberOutPoint) :
    decodeFiberOutpoint (encodeFiberOutpoint o) = some o := by
  have htake : (encodeFiberOutpoint o).take 32 = o.txHash.bytes := by
    rw [encodeFiberOutpoint, take_left' o.txHash.length_eq]
  have hdrop : (encodeFiberOutpoint o).drop 32 = leBytes 4 o.index.toNat := by
    rw [encodeFiberOutpoint, drop_left' o.txHash.length_eq]
  simp [decodeFiberOutpoint, htake, hdrop, leNat_leBytes]

@[simp] theorem length_encodeFiberOutpoint (o : FiberOutPoint) :
    (encodeFiberOutpoint o).length = fiberOutpointSize := by
  simp [encodeFiberOutpoint, o.txHash.length_eq, fiberOutpointSize]

theorem parseChannelOutpoint_eq {metadata : Metadata} {o : FiberOutPoint}
    (h : metadata.lookup .channelOutpoint = some (encodeChannelOutpoint o)) :
    parseChannelOutpoint metadata = .ok o := by
  simp [parseChannelOutpoint, Metadata.getStr?, h, encodeChannelOutpoint, hexText, Json.asStr?,
    required, ensure]

theorem mapM_parseParticipant (ps : List Hash32) :
    (ps.map fun p => '0' :: 'x' :: hexEncode p.bytes).mapM parseParticipant = .ok ps := by
  induction ps with
  | nil => rfl
  | cons p ps ih =>
    simp [ih, parseParticipant, required]

theorem parseCommitmentLockArgs_delayEpoch (h : (parseCommitmentLockArgs args).isSome) :
    ∃ parsed, parseCommitmentLockArgs args = some parsed ∧
      parsed.delayEpoch = leNat (slice args 20 28) := by
  obtain ⟨parsed, hparsed⟩ := Option.isSome_iff_exists.mp h
  refine ⟨parsed, hparsed, ?_⟩
  unfold parseCommitmentLockArgs at hparsed
  split at hparsed
  · cases hparsed
  · rw [← Option.some.inj hparsed]

theorem parseFundingLockArgs_eq (h : (parseFundingLockArgs args).isSome) :
    parseFundingLockArgs args = some ⟨args.take 20⟩ := by
  obtain ⟨parsed, hparsed⟩ := Option.isSome_iff_exists.mp h
  rw [hparsed]
  unfold parseFundingLockArgs at hparsed
  split at hparsed
  · cases hparsed
  · exact hparsed.symm

section ReadBack

variable {blake2b : Bytes → Hash32} {tx : FiberTx} {metadata : Metadata}
variable {key : MetadataKey}

theorem getStr?_hexText {bs : Bytes} (h : metadata.lookup key = some (hexText bs)) :
    metadata.getStr? key = some ('0' :: 'x' :: hexEncode bs) := by
  simp [Metadata.getStr?, h, hexText, Json.asStr?]

theorem parseCommitmentOutputIndex_eq {index : UInt32}
    (h : metadata.lookup key = some (.num index.toNat)) :
    parseCommitmentOutputIndex metadata key = .ok index := by
  rw [parseCommitmentOutputIndex, bind_eq_ok]
  refine ⟨index.toNat, by simp [h, Json.asU64?], ?_⟩
  rw [outputIndex_eq_ok index.toNat_lt, UInt32.ofNat_toNat]

theorem readCommitment_eq {argsKey indexKey : MetadataKey} (hwell : output.1.CommitmentWellFormed)
    (hargs : metadata.lookup argsKey = some (hexText output.1.lockArgs))
    (hindex : metadata.lookup indexKey = some (.num (UInt32.ofNat output.2).toNat)) :
    readCommitment blake2b metadata argsKey indexKey = .ok (outputCommitment blake2b output) := by
  obtain ⟨parsed, hparsed, hdelay⟩ := parseCommitmentLockArgs_delayEpoch hwell
  have hread : parseCommitmentArgs metadata argsKey = .ok (output.1.lockArgs, parsed) := by
    simp only [parseCommitmentArgs, bind_eq_ok, required_eq_ok]
    exact ⟨_, getStr?_hexText hargs, _, decodeHexWithPrefix_hexEncode _, _, hparsed, rfl⟩
  simp only [readCommitment, bind_eq_ok]
  exact ⟨_, hread, _, parseCommitmentOutputIndex_eq hindex, by rw [hdelay]; rfl⟩

theorem readArgsHash_eq (hargs : metadata.lookup key = some (hexText args)) :
    readArgsHash blake2b metadata key = .ok (blake2b args) := by
  simp only [readArgsHash, bind_eq_ok, required_eq_ok]
  exact ⟨_, getStr?_hexText hargs, _, decodeHexWithPrefix_hexEncode _, rfl⟩

theorem FiberCell.udt?_amount_lt {cell : FiberCell} {udt : FundingUdt} (h : cell.udt? = some udt) :
    udt.amount < 2 ^ 128 := by
  unfold FiberCell.udt? at h
  split at h
  · rename_i amount _ _ hamount
    rw [← Option.some.inj h]
    exact parseFundingUdtAmount_lt hamount
  · cases h

theorem parseUdtFields_eq {udt : Option FundingUdt} (hudt : ∀ u ∈ udt, u.amount < 2 ^ 128)
    (htype : metadata.lookup .udtTypeHash = udt.map fun u => hexText u.typeScriptHash)
    (hamount : metadata.lookup .udtAmount = udt.map fun u => .str (decimal u.amount)) :
    parseUdtFields metadata = .ok (udt.map (·.typeScriptHash), udt.map (·.amount)) := by
  cases udt with
  | none => simp [parseUdtFields, Metadata.getStr?, htype, hamount]
  | some u =>
    have hread : parseUnsigned? 128 (decimal u.amount) = some u.amount := by
      rw [parseUnsigned?_decimal (Int.natCast_nonneg _), Int.toNat_natCast, if_pos (hudt u rfl)]
    simp [parseUdtFields, Metadata.getStr?, htype, hamount, hexText, Json.asStr?, required, hread]

/-- The metadata of a channel open. -/
def openEntries (tx : FiberTx) (output : FiberCell × Nat) : Metadata :=
  [(.channelOutpoint, encodeChannelOutpoint ⟨tx.hash, UInt32.ofNat output.2⟩),
    (.capacity, .str (decimal output.1.capacity)),
    (.fundingLockArgs, hexText (output.1.lockArgs.take 20))]
  ++ udtMetadata output.1.udt?
  ++ [(.participants, .arr (tx.participants.toList.map fun p => '0' :: 'x' :: hexEncode p.bytes))]

theorem openMetadata_eq (houtput : tx.fundingOutput? = some output)
    (h : tx.WellFormed) : openMetadata tx.summary tx.hash = .ok (openEntries tx output) := by
  have hindex := tx.index_lt (mem_of_find?_eq_some houtput)
  have hargs := parseFundingLockArgs_eq (h.fundingOutput output houtput).1
  simp [openMetadata, openEntries, summary, houtput, outputIndex_eq_ok hindex, hargs]

theorem lookup_openEntries (tx : FiberTx) (output : FiberCell × Nat) :
    (openEntries tx output).lookup .channelOutpoint
        = some (encodeChannelOutpoint ⟨tx.hash, UInt32.ofNat output.2⟩) ∧
      (openEntries tx output).lookup .capacity = some (.str (decimal output.1.capacity)) ∧
      (openEntries tx output).lookup .fundingLockArgs = some (hexText (output.1.lockArgs.take 20)) ∧
      (openEntries tx output).lookup .udtTypeHash
        = output.1.udt?.map (fun u => hexText u.typeScriptHash) ∧
      (openEntries tx output).lookup .udtAmount
        = output.1.udt?.map (fun u => .str (decimal u.amount)) ∧
      (openEntries tx output).lookup .participants
        = some (.arr (tx.participants.toList.map fun p => '0' :: 'x' :: hexEncode p.bytes)) := by
  rw [openEntries]
  cases output.1.udt? with
  | none => exact ⟨rfl, rfl, rfl, rfl, rfl, rfl⟩
  | some udt => exact ⟨rfl, rfl, rfl, rfl, rfl, rfl⟩

/-- The writer reads an open's entries back as its terms. -/
theorem readTerms_open (houtput : tx.fundingOutput? = some output)
    (h : tx.WellFormed) (hne : tx.participants.toList ≠ []) :
    readTerms (openEntries tx output) = .ok (openTerms tx output) := by
  obtain ⟨hout, hcap, hargs, htype, hamount, hpart⟩ := lookup_openEntries tx output
  have hcapacity : parseUnsigned? 64 (decimal output.1.capacity)
      = some output.1.capacity.toNat := by
    have hnonneg := (h.fundingOutput output houtput).2.1
    have hlt := output.1.capacity_lt
    rw [parseUnsigned?_decimal hnonneg, if_pos (by omega)]
  have hparticipants : parseParticipants (openEntries tx output) = .ok tx.participants.toList := by
    simp only [parseParticipants, bind_eq_ok]
    exact ⟨_, by rw [hpart]; rfl, (), by simpa using hne, mapM_parseParticipant _⟩
  simp only [readTerms, bind_eq_ok, required_eq_ok]
  exact ⟨_, parseChannelOutpoint_eq hout, _, by rw [Metadata.getStr?]; rfl, _, hcapacity, _,
    getStr?_hexText hargs, _, decodeHexWithPrefix_hexEncode _, _, hparticipants, _,
    parseUdtFields_eq (fun u hu => FiberCell.udt?_amount_lt hu) htype hamount, rfl⟩

/-- It refuses an open that names no participant. -/
theorem readTerms_ne_ok (output : FiberCell × Nat) (hnil : tx.participants.toList = [])
    (terms : ChannelTerms) : readTerms (openEntries tx output) ≠ .ok terms := by
  obtain ⟨-, -, -, -, -, hpart⟩ := lookup_openEntries tx output
  intro hread
  simp only [readTerms, parseParticipants, bind_eq_ok, required_eq_ok, ensure_eq_ok] at hread
  obtain ⟨_, _, _, _, _, _, _, _, _, _, participants, ⟨entries, hentries, _, hne, _⟩, _⟩ := hread
  rw [hpart, hnil] at hentries
  exact hne (Option.some.inj hentries).symm

/-! ## One transaction of the live pass -/

/-- Metadata stands for an event when rows accept the one as they accept the other. -/
def StandsFor (blake2b : Bytes → Hash32) (tx : FiberTx) (action : ProtocolAction)
    (event : ChannelEvent) : Prop :=
  ∃ kind, action.protocol = .fiber ∧ action.action = .event kind ∧
    ∀ (rows : FiberRows) (actions : FiberTxActions) (writes : List FiberWrite),
      actions.eventTx = tx.eventTx →
        (handleEvent blake2b rows actions action.metadata kind = .ok writes ↔
          event.writes rows tx.eventTx = some writes)

theorem standsFor_of_read {action : ProtocolAction} {kind : FiberEvent} {event : ChannelEvent}
    (hprotocol : action.protocol = .fiber) (hkind : action.action = .event kind)
    (hread : readEvent blake2b action.metadata kind = .ok event) :
    StandsFor blake2b tx action event := by
  refine ⟨kind, hprotocol, hkind, fun rows actions writes htx => ?_⟩
  rw [handleEvent_eq_ok, htx, hread]
  constructor
  · rintro ⟨event', heq, hwrites⟩
    obtain rfl := Except.ok.inj heq
    exact hwrites
  · exact fun hwrites => ⟨event, rfl, hwrites⟩

/-- An open that names no participant is refused as its event is. -/
theorem standsFor_open (houtput : tx.fundingOutput? = some output) (h : tx.WellFormed) :
    StandsFor blake2b tx ⟨.fiber, .event .channelOpen, openEntries tx output⟩
      (.channelOpen (encodeFiberChannelId blake2b ⟨tx.hash, UInt32.ofNat output.2⟩)
        (openTerms tx output)) := by
  by_cases hne : tx.participants.toList = []
  · refine ⟨.channelOpen, rfl, rfl, fun rows actions writes _ => ?_⟩
    rw [handleEvent_eq_ok]
    constructor
    · rintro ⟨event, hread, -⟩
      obtain ⟨terms, hterms, -⟩ := bind_eq_ok.mp hread
      exact absurd hterms (readTerms_ne_ok output hne terms)
    · intro hwrites
      simp [ChannelEvent.writes, openTerms, hne] at hwrites
  · refine standsFor_of_read rfl rfl ?_
    rw [readEvent, readTerms_open houtput h hne]
    rfl

theorem detect_of_event (h : tx.WellFormed) {kind : FiberEvent} {metadata : Metadata}
    (hkind : classifyCells tx.fundingInput?.isSome tx.fundingOutput?.isSome
      tx.commitmentInput?.isSome tx.commitmentOutput?.isSome = some kind)
    (hmetadata : buildMetadata kind tx.summary tx.hash = .ok metadata) :
    detect tx = .ok [⟨.fiber, .event kind, metadata⟩] := by
  have hclassify : tx.summary.classifyEvent = some kind := hkind
  simp [detect, summarizeCells_eq h, hclassify, hmetadata]

/-- The entries of a close and a force close that name the channel. -/
theorem lookup_fundingInputMetadata (hinput : tx.fundingInput? = some input) :
    (fundingInputMetadata tx.summary).lookup .channelOutpoint
        = some (encodeChannelOutpoint input.outpoint) ∧
      (fundingInputMetadata tx.summary).lookup .commitmentLockArgs = none ∧
      (fundingInputMetadata tx.summary).lookup .commitmentOutputIndex = none := by
  simp only [fundingInputMetadata, summary, hinput, Option.map_some]
  cases parseFundingLockArgs input.cell.lockArgs with
  | none => exact ⟨rfl, rfl, rfl⟩
  | some parsed => exact ⟨rfl, rfl, rfl⟩

theorem standsFor_close (hinput : tx.fundingInput? = some input) :
    StandsFor blake2b tx ⟨.fiber, .event .channelClose, fundingInputMetadata tx.summary⟩
      (.channelClose (encodeFiberChannelId blake2b input.outpoint)) := by
  refine standsFor_of_read rfl rfl ?_
  rw [readEvent, parseChannelOutpoint_eq (lookup_fundingInputMetadata hinput).1]
  rfl

/-- The metadata of a force close. -/
def forceCloseEntries (tx : FiberTx) (output : FiberCell × Nat) : Metadata :=
  fundingInputMetadata tx.summary
    ++ [(.commitmentLockArgs, hexText output.1.lockArgs)]
    ++ [(.commitmentOutputIndex, .num (UInt32.ofNat output.2).toNat)]

theorem standsFor_forceClose (hinput : tx.fundingInput? = some input)
    (houtput : tx.commitmentOutput? = some output) (h : tx.WellFormed) :
    StandsFor blake2b tx ⟨.fiber, .event .forceClose, forceCloseEntries tx output⟩
      (.forceClose (encodeFiberChannelId blake2b input.outpoint)
        (outputCommitment blake2b output)) := by
  obtain ⟨hchannel, hargs, hindex⟩ := lookup_fundingInputMetadata hinput
  have hchannel' : (forceCloseEntries tx output).lookup .channelOutpoint
      = some (encodeChannelOutpoint input.outpoint) := by
    simp [forceCloseEntries, lookup_append, hchannel]
  have hargs' : (forceCloseEntries tx output).lookup .commitmentLockArgs
      = some (hexText output.1.lockArgs) := by
    simp [forceCloseEntries, lookup_append, hargs]
  have hindex' : (forceCloseEntries tx output).lookup .commitmentOutputIndex
      = some (.num (UInt32.ofNat output.2).toNat) := by
    rw [forceCloseEntries, lookup_append, lookup_append, hindex]
    rfl
  refine standsFor_of_read rfl rfl ?_
  exact bind_eq_ok.mpr ⟨_, parseChannelOutpoint_eq hchannel', bind_eq_ok.mpr
    ⟨_, readCommitment_eq (h.commitmentOutput output houtput) hargs' hindex', rfl⟩⟩

theorem standsFor_settlement (input : FiberInput) :
    StandsFor blake2b tx ⟨.fiber, .event .settlement,
        [(.capacity, .str (decimal input.cell.capacity)),
          (.commitmentLockArgs, hexText input.cell.lockArgs)]⟩
      (.settlement (blake2b input.cell.lockArgs)) :=
  standsFor_of_read rfl rfl (bind_eq_ok.mpr ⟨_, readArgsHash_eq rfl, rfl⟩)

theorem standsFor_revocation (input : FiberInput)
    (houtput : tx.commitmentOutput? = some output) (h : tx.WellFormed) :
    StandsFor blake2b tx ⟨.fiber, .event .commitmentRevocation,
        [(.oldCommitmentLockArgs, hexText input.cell.lockArgs),
          (.newCommitmentLockArgs, hexText output.1.lockArgs),
          (.newCommitmentOutputIndex, .num (UInt32.ofNat output.2).toNat)]⟩
      (.commitmentRevocation (blake2b input.cell.lockArgs) (outputCommitment blake2b output)) :=
  standsFor_of_read rfl rfl (bind_eq_ok.mpr ⟨_, readArgsHash_eq rfl, bind_eq_ok.mpr
    ⟨_, readCommitment_eq (h.commitmentOutput output houtput) rfl rfl, rfl⟩⟩)

/-- The detector names the transaction's event. -/
theorem detect_eq (h : tx.WellFormed) :
    (tx.event? blake2b = none → detect tx = .ok []) ∧
      ∀ event, tx.event? blake2b = some event →
        ∃ action, detect tx = .ok [action] ∧ StandsFor blake2b tx action event := by
  have hof := @detect_of_event tx h
  have hone : ∀ {event : ChannelEvent} {action : ProtocolAction}, tx.event? blake2b = some event →
      detect tx = .ok [action] → StandsFor blake2b tx action event →
        (tx.event? blake2b = none → detect tx = .ok []) ∧
          ∀ event, tx.event? blake2b = some event →
            ∃ action, detect tx = .ok [action] ∧ StandsFor blake2b tx action event := by
    intro event action hevent hdetect hstands
    rw [hevent]
    refine ⟨nofun, fun event' heq => ?_⟩
    obtain rfl := Option.some.inj heq
    exact ⟨action, hdetect, hstands⟩
  cases hfi : tx.fundingInput? with
  | none =>
    cases hfo : tx.fundingOutput? with
    | some output =>
      exact hone (event?_of (.channelOpen _ hfi hfo))
        (@hof .channelOpen _ (by simp [hfi, hfo, classifyCells]) (openMetadata_eq hfo h))
        (standsFor_open hfo h)
    | none =>
      cases hci : tx.commitmentInput? with
      | none =>
        rw [event?_none hfi hfo hci]
        refine ⟨fun _ => ?_, nofun⟩
        have hclassify : tx.summary.classifyEvent = none := by
          simp [FiberCellSummary.classifyEvent, summary, classifyCells, hfi, hfo, hci]
        simp [detect, summarizeCells_eq h, hclassify]
      | some input =>
        cases hco : tx.commitmentOutput? with
        | none =>
          refine hone (event?_of (.settlement _ hfi hfo hci hco))
            (hof (by simp [hfi, hfo, hci, hco, classifyCells]) ?_)
            (standsFor_settlement input)
          simp [buildMetadata, summary, hci]
        | some output =>
          refine hone (event?_of (.commitmentRevocation _ _ hfi hfo hci hco))
            (hof (by simp [hfi, hfo, hci, hco, classifyCells]) ?_)
            (standsFor_revocation input hco h)
          simp [buildMetadata, optionalEntry, summary, hci, hco]
  | some input =>
    cases hco : tx.commitmentOutput? with
    | none =>
      exact hone (event?_of (.channelClose _ hfi hco)) (hof (by simp [hfi, hco, classifyCells]) rfl)
        (standsFor_close hfi)
    | some output =>
      refine hone (event?_of (.forceClose _ _ hfi hco)) (hof (by simp [hfi, hco, classifyCells]) ?_)
        (standsFor_forceClose hfi hco h)
      simp [buildMetadata, forceCloseEntries, optionalEntry, summary, hco]

theorem eraseDups_replicate (action : ProtocolAction) {n : Nat} (hn : n ≠ 0) :
    (List.replicate n action).eraseDups = [action] := by
  cases n with
  | zero => exact absurd rfl hn
  | succ n => simp [replicate_succ, eraseDups_cons]

theorem length_owners_ne_zero (hmight : mightApply tx = true) : (owners tx).length ≠ 0 := by
  intro hlen
  rw [owners] at hlen
  cases hcells : tx.inputs.map (·.cell.lockScriptHash) ++ tx.outputs.map (·.lockScriptHash) with
  | nil => simp_all [mightApply]
  | cons hash hashes => simp [hcells, eraseDups_cons] at hlen

theorem mapM_const {α β : Type} (x : β) (as : List α) :
    as.mapM (fun _ => (.ok x : Except String β)) = .ok (List.replicate as.length x) := by
  induction as with
  | nil => rfl
  | cons a as ih => rw [mapM_cons, ih]; rfl

/-- The actions built for a transaction are the detector's. -/
theorem buildTxActions_eq {actions : List ProtocolAction} (hdetect : detect tx = .ok actions)
    (hone : actions = [] ∨ ∃ action, actions = [action]) (hnone : mightApply tx = false → actions = []) :
    buildTxActions tx = .ok actions := by
  unfold buildTxActions
  split
  · rename_i hmight
    rw [hdetect, mapM_const]
    obtain rfl | ⟨action, rfl⟩ := hone
    · simp
    · simp [eraseDups_replicate action (length_owners_ne_zero hmight)]
  · rename_i hmight
    rw [hnone (by simpa using hmight)]
    rfl

/-- A transaction without Fiber cells has no event. -/
theorem event?_of_not_mightApply (h : mightApply tx = false) : tx.event? blake2b = none := by
  simp only [mightApply, Bool.or_eq_false_iff, any_eq_false, bne_iff_ne, not_not] at h
  have hin : ∀ kind, kind ≠ .other → tx.inputs.find? (·.cell.lockType = kind) = none := by
    intro kind hkind
    rw [find?_eq_none]
    intro input hinput
    simp [h.1 input hinput, Ne.symm hkind]
  have hout : ∀ kind, kind ≠ .other → tx.outputs.zipIdx.find? (·.1.lockType = kind) = none := by
    intro kind hkind
    rw [find?_eq_none]
    intro output houtput
    simp [h.2 output.1 (fst_mem_of_mem_zipIdx houtput), Ne.symm hkind]
  exact event?_none (hin .fundingLock (by simp)) (hout .fundingLock (by simp))
    (hin .commitmentLock (by simp))

/-- The live pass takes the rows one step by the transaction's event. -/
theorem liveTxActions_eq (h : tx.WellFormed) :
    ∃ actions, liveTxActions tx = .ok actions ∧ actions.txHash = tx.hash ∧
      actions.isCellbase = tx.isCellbase ∧
      ∀ rows rows' : FiberRows, applyFiberChannelEvents blake2b rows actions = .ok rows' ↔
        rows.stepTx blake2b tx = some rows' := by
  obtain ⟨hnone, hsome⟩ := @detect_eq blake2b tx h
  cases hevent : tx.event? blake2b with
  | none =>
    have hbuild := buildTxActions_eq (hnone hevent) (.inl rfl) (fun _ => rfl)
    refine ⟨_, by rw [liveTxActions, hbuild]; rfl, rfl, rfl, fun rows rows' => ?_⟩
    simp [applyFiberChannelEvents, FiberRows.stepTx, hevent]
  | some event =>
    obtain ⟨action, hdetect, kind, hprotocol, haction, hstands⟩ := hsome event hevent
    have hbuild := buildTxActions_eq hdetect (.inr ⟨action, rfl⟩) (fun hmight => by
      rw [event?_of_not_mightApply hmight] at hevent
      cases hevent)
    refine ⟨_, by rw [liveTxActions, hbuild]; rfl, rfl, rfl, fun rows rows' => ?_⟩
    have hwrites := fun writes => hstands rows ⟨tx.hash, tx.blockNumber, tx.timestamp,
      tx.isCellbase, [action]⟩ writes rfl
    simp only [applyFiberChannelEvents, foldlM_cons, foldlM_nil, applyFiberAction,
      hprotocol, haction, bind_eq_ok, return_eq_ok, hwrites, FiberRows.stepTx, hevent,
      FiberRows.step, Option.map_eq_some_iff]
    constructor
    · rintro ⟨_, ⟨writes, haccept, rfl⟩, rfl⟩
      exact ⟨writes, haccept, rfl⟩
    · rintro ⟨writes, haccept, rfl⟩
      exact ⟨_, ⟨writes, haccept, rfl⟩, rfl⟩

end ReadBack

end Ckbadger.Writer
