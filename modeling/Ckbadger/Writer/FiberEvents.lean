/-
Ckbadger.Writer.FiberEvents — the life of a channel, and the writer as its reader.

A channel event is what a transaction does to a channel, free of the text it travelled
in. `ChannelEvent.writes` says when rows accept an event and what it writes. The live
handlers are exactly this: the metadata read back as an event, then the event's writes
(`handleEvent_eq_ok`). A batch accepts the events its committed rows accept, with the
same result (`applyFiberChannelEvents_commit`), so nothing depends on how a chain is cut
into batches.
-/
import Ckbadger.Writer.Fiber

namespace Ckbadger.Writer

open Lib

/-! ## Events -/

/-- The transaction an event is read from. -/
structure EventTx where
  hash : Hash32
  blockNumber : Int
  timestamp : Int
  deriving DecidableEq

/-- What a new channel is opened with. -/
structure ChannelTerms where
  outpoint : FiberOutPoint
  capacity : Nat
  udtTypeHash : Option Bytes
  udtAmount : Option Nat
  participants : List Hash32
  fundingLockArgs : Bytes
  deriving DecidableEq

/-- A commitment cell, as the channel row records it. -/
structure Commitment where
  hash : Hash32
  index : UInt32
  delayEpoch : Nat
  deriving DecidableEq

inductive ChannelEvent where
  | channelOpen (id : Hash32) (terms : ChannelTerms)
  | channelClose (id : Hash32)
  | forceClose (id : Hash32) (commitment : Commitment)
  | settlement (commitment : Hash32)
  | commitmentRevocation (old : Hash32) (new : Commitment)
  deriving DecidableEq

namespace FiberChannel

variable (channel : FiberChannel) (tx : EventTx)

/-- The row of a channel just opened. -/
def opened (terms : ChannelTerms) : FiberChannel where
  fundingTxHash := terms.outpoint.txHash
  fundingOutputIndex := terms.outpoint.index
  state := .open
  capacity := terms.capacity
  udtTypeHash := terms.udtTypeHash
  udtAmount := terms.udtAmount
  openBlock := tx.blockNumber
  openTimestamp := tx.timestamp
  participants := terms.participants
  fundingLockArgs := terms.fundingLockArgs

def closed (state : FiberChannelState) : FiberChannel :=
  { channel with
    state := state
    closeTxHash := some tx.hash
    closeBlock := some tx.blockNumber
    closeTimestamp := some tx.timestamp }

def committed (commitment : Commitment) : FiberChannel :=
  { channel with
    commitmentTxHash := some tx.hash
    commitmentOutputIndex := some commitment.index
    delayEpoch := some commitment.delayEpoch }

def settled : FiberChannel :=
  { channel with
    state := .settled
    settlementTxHash := some tx.hash
    settlementBlock := some tx.blockNumber
    settlementTimestamp := some tx.timestamp }

end FiberChannel

section Writes

variable {σ : Type} [FiberView σ]

/-- A commitment hash is free for a channel when it belongs to no other. -/
def CommitmentFree (view : σ) (commitment id : Hash32) : Prop :=
  ∀ other ∈ getFiberChannelIdByCommitment view commitment, other = id

instance (view : σ) (commitment id : Hash32) : Decidable (CommitmentFree view commitment id) :=
  inferInstanceAs (Decidable (∀ other ∈ getFiberChannelIdByCommitment view commitment, other = id))

/-- The channel at an identifier, when it is in the given state. -/
def channelIn? (view : σ) (id : Hash32) (state : FiberChannelState) : Option FiberChannel :=
  (getFiberChannel view id).filter (·.state = state)

theorem channelIn?_eq_some {view : σ} {id : Hash32} {state : FiberChannelState}
    {channel : FiberChannel} :
    channelIn? view id state = some channel ↔
      getFiberChannel view id = some channel ∧ channel.state = state := by
  simp [channelIn?]

/-- What rows that accept an event write for it. -/
def ChannelEvent.writes (view : σ) (tx : EventTx) : ChannelEvent → Option (List FiberWrite)
  | .channelOpen id terms =>
    if getFiberChannel view id = none ∧ terms.participants ≠ [] then
      some (.putChannel id (.opened tx terms) :: terms.participants.map (.putAddrChannel · id))
    else none
  | .channelClose id => do
    let channel ← channelIn? view id .open
    some [.putChannel id (channel.closed tx .cooperativelyClosed)]
  | .forceClose id commitment => do
    let channel ← channelIn? view id .open
    if CommitmentFree view commitment.hash id then
      some [.putByCommitment commitment.hash id,
        .putChannel id ((channel.closed tx .forceClosed).committed tx commitment)]
    else none
  | .settlement commitment => do
    let id ← getFiberChannelIdByCommitment view commitment
    let channel ← channelIn? view id .forceClosed
    some [.putChannel id (channel.settled tx)]
  | .commitmentRevocation old new => do
    let id ← getFiberChannelIdByCommitment view old
    let channel ← channelIn? view id .forceClosed
    if CommitmentFree view new.hash id then
      some [.deleteByCommitment old, .putByCommitment new.hash id,
        .putChannel id (channel.committed tx new)]
    else none

/-- When rows accept an event, and what they then write. -/
theorem ChannelEvent.writes_eq_some {view : σ} {tx : EventTx} {event : ChannelEvent}
    {writes : List FiberWrite} :
    event.writes view tx = some writes ↔ match event with
    | .channelOpen id terms => (getFiberChannel view id = none ∧ terms.participants ≠ []) ∧
        .putChannel id (.opened tx terms) :: terms.participants.map (.putAddrChannel · id) = writes
    | .channelClose id => ∃ channel, channelIn? view id .open = some channel ∧
        [.putChannel id (channel.closed tx .cooperativelyClosed)] = writes
    | .forceClose id commitment => ∃ channel, channelIn? view id .open = some channel ∧
        CommitmentFree view commitment.hash id ∧ [.putByCommitment commitment.hash id,
          .putChannel id ((channel.closed tx .forceClosed).committed tx commitment)] = writes
    | .settlement commitment => ∃ id, getFiberChannelIdByCommitment view commitment = some id ∧
        ∃ channel, channelIn? view id .forceClosed = some channel ∧
          [.putChannel id (channel.settled tx)] = writes
    | .commitmentRevocation old new => ∃ id, getFiberChannelIdByCommitment view old = some id ∧
        ∃ channel, channelIn? view id .forceClosed = some channel ∧ CommitmentFree view new.hash id ∧
          [.deleteByCommitment old, .putByCommitment new.hash id,
            .putChannel id (channel.committed tx new)] = writes := by
  cases event <;> simp only [ChannelEvent.writes, Option.bind_eq_bind, Option.bind_eq_some_iff,
    Option.ite_none_right_eq_some, Option.some.injEq]

end Writes

/-- The rows after an event they accept. -/
def FiberRows.step (rows : FiberRows) (tx : EventTx) (event : ChannelEvent) : Option FiberRows :=
  (event.writes rows tx).map fun writes => writes.foldl FiberRows.write rows

/-! ## The handlers read events -/

section Handlers

variable (blake2b : Bytes → Hash32)

/-- The commitment cell an event's metadata names. -/
def readCommitment (metadata : Metadata) (argsKey indexKey : MetadataKey) :
    Except String Commitment := do
  let commitment ← parseCommitmentArgs metadata argsKey
  let index ← parseCommitmentOutputIndex metadata indexKey
  return ⟨blake2b commitment.1, index, commitment.2.delayEpoch⟩

/-- The hash of the arguments an event's metadata names. -/
def readArgsHash (metadata : Metadata) (key : MetadataKey) : Except String Hash32 := do
  let text ← required "missing lock args metadata" (metadata.getStr? key)
  let args ← required "failed to decode lock args hex" (decodeHexWithPrefix text)
  return blake2b args

def readTerms (metadata : Metadata) : Except String ChannelTerms := do
  let outpoint ← parseChannelOutpoint metadata
  let capacityText ← required "missing capacity metadata" (metadata.getStr? .capacity)
  let capacity ← required "failed to parse capacity" (parseUnsigned? 64 capacityText)
  let argsText ← required "missing fundingLockArgs metadata" (metadata.getStr? .fundingLockArgs)
  let fundingLockArgs ← required "failed to decode fundingLockArgs hex" (decodeHexWithPrefix argsText)
  let participants ← parseParticipants metadata
  let udt ← parseUdtFields metadata
  return ⟨outpoint, capacity, udt.1, udt.2, participants, fundingLockArgs⟩

/-- The event an action's metadata describes. -/
def readEvent (metadata : Metadata) : FiberEvent → Except String ChannelEvent
  | .channelOpen => do
    let terms ← readTerms metadata
    return .channelOpen (encodeFiberChannelId blake2b terms.outpoint) terms
  | .channelClose => do
    let outpoint ← parseChannelOutpoint metadata
    return .channelClose (encodeFiberChannelId blake2b outpoint)
  | .forceClose => do
    let outpoint ← parseChannelOutpoint metadata
    let commitment ← readCommitment blake2b metadata .commitmentLockArgs .commitmentOutputIndex
    return .forceClose (encodeFiberChannelId blake2b outpoint) commitment
  | .settlement => do
    let commitment ← readArgsHash blake2b metadata .commitmentLockArgs
    return .settlement commitment
  | .commitmentRevocation => do
    let old ← readArgsHash blake2b metadata .oldCommitmentLockArgs
    let new ← readCommitment blake2b metadata .newCommitmentLockArgs .newCommitmentOutputIndex
    return .commitmentRevocation old new

/-- The event an action of a transaction brings. -/
def ProtocolAction.event? (action : ProtocolAction) : Option ChannelEvent :=
  match action.protocol, action.action with
  | .fiber, .event kind => (readEvent blake2b action.metadata kind).toOption
  | _, _ => none

/-- The commitment an event spends. -/
def ChannelEvent.spent? : ChannelEvent → Option Hash32
  | .settlement commitment | .commitmentRevocation commitment _ => some commitment
  | _ => none

/-- The commitment an event gives a channel. -/
def ChannelEvent.given? : ChannelEvent → Option Commitment
  | .forceClose _ commitment | .commitmentRevocation _ commitment => some commitment
  | _ => none

def FiberTxActions.eventTx (tx : FiberTxActions) : EventTx := ⟨tx.txHash, tx.blockNumber, tx.timestamp⟩

open ChannelEvent

variable {blake2b} {σ : Type} [FiberView σ] {view : σ} {tx : FiberTxActions} {metadata : Metadata}
  {writes : List FiberWrite}

theorem channelInState_eq_ok {id : Hash32} {state : FiberChannelState} {channel : FiberChannel} :
    channelInState view id state = .ok channel ↔ channelIn? view id state = some channel := by
  simp only [channelInState, bind_eq_ok, required_eq_ok, ensure_eq_ok, channelIn?_eq_some]
  constructor
  · rintro ⟨c, hget, u, hstate, hc⟩
    obtain rfl := Except.ok.inj hc
    exact ⟨hget, hstate⟩
  · rintro ⟨hget, hstate⟩
    exact ⟨channel, hget, (), hstate, rfl⟩

theorem checkCommitmentMapping_eq_ok {commitment id : Hash32} {u : Unit} :
    checkCommitmentMapping view commitment id = .ok u ↔ CommitmentFree view commitment id := by
  unfold checkCommitmentMapping CommitmentFree
  cases getFiberChannelIdByCommitment view commitment with
  | none => simp
  | some existing => simp

theorem parseParticipants_ne_nil {participants : List Hash32}
    (h : parseParticipants metadata = .ok participants) : participants ≠ [] := by
  simp only [parseParticipants, bind_eq_ok, ensure_eq_ok] at h
  obtain ⟨entries, -, u, hne, hmap⟩ := h
  rintro rfl
  cases entries with
  | nil => exact hne rfl
  | cons text entries =>
    rw [List.mapM_cons] at hmap
    obtain ⟨p, -, hmap⟩ := bind_eq_ok.mp hmap
    obtain ⟨ps, -, hmap⟩ := bind_eq_ok.mp hmap
    cases return_eq_ok.mp hmap

theorem handleChannelOpen_eq_ok :
    handleChannelOpen blake2b view tx metadata = .ok writes ↔
      ∃ event, readEvent blake2b metadata .channelOpen = .ok event ∧
        event.writes view tx.eventTx = some writes := by
  simp only [handleChannelOpen, readEvent, readTerms, bind_eq_ok, return_eq_ok, required_eq_ok,
    ensure_eq_ok]
  constructor
  · rintro ⟨outpoint, hout, ctext, hctext, capacity, hcap, u, hnew, atext, hatext, args, hargs,
      participants, hpart, udt, hudt, rfl⟩
    exact ⟨_, ⟨_, ⟨outpoint, hout, ctext, hctext, capacity, hcap, atext, hatext, args, hargs,
      participants, hpart, udt, hudt, rfl⟩, rfl⟩,
      writes_eq_some.mpr ⟨⟨hnew, parseParticipants_ne_nil hpart⟩, rfl⟩⟩
  · rintro ⟨_, ⟨_, ⟨outpoint, hout, ctext, hctext, capacity, hcap, atext, hatext, args, hargs,
      participants, hpart, udt, hudt, rfl⟩, rfl⟩, hwrites⟩
    obtain ⟨⟨hnew, -⟩, rfl⟩ := writes_eq_some.mp hwrites
    exact ⟨outpoint, hout, ctext, hctext, capacity, hcap, (), hnew, atext, hatext, args, hargs,
      participants, hpart, udt, hudt, rfl⟩

theorem handleChannelClose_eq_ok :
    handleChannelClose blake2b view tx metadata = .ok writes ↔
      ∃ event, readEvent blake2b metadata .channelClose = .ok event ∧
        event.writes view tx.eventTx = some writes := by
  simp only [handleChannelClose, readEvent, bind_eq_ok, return_eq_ok, channelInState_eq_ok]
  constructor
  · rintro ⟨outpoint, hout, channel, hchannel, rfl⟩
    exact ⟨_, ⟨outpoint, hout, rfl⟩, writes_eq_some.mpr ⟨channel, hchannel, rfl⟩⟩
  · rintro ⟨_, ⟨outpoint, hout, rfl⟩, hwrites⟩
    obtain ⟨channel, hchannel, heq⟩ := writes_eq_some.mp hwrites
    exact ⟨outpoint, hout, channel, hchannel, heq⟩

theorem handleForceClose_eq_ok :
    handleForceClose blake2b view tx metadata = .ok writes ↔
      ∃ event, readEvent blake2b metadata .forceClose = .ok event ∧
        event.writes view tx.eventTx = some writes := by
  simp only [handleForceClose, readEvent, readCommitment, bind_eq_ok, return_eq_ok,
    channelInState_eq_ok, checkCommitmentMapping_eq_ok]
  constructor
  · rintro ⟨outpoint, hout, channel, hchannel, args, hargs, index, hindex, u, hfree, rfl⟩
    exact ⟨_, ⟨outpoint, hout, _, ⟨args, hargs, index, hindex, rfl⟩, rfl⟩,
      writes_eq_some.mpr ⟨channel, hchannel, hfree, rfl⟩⟩
  · rintro ⟨_, ⟨outpoint, hout, _, ⟨args, hargs, index, hindex, rfl⟩, rfl⟩, hwrites⟩
    obtain ⟨channel, hchannel, hfree, heq⟩ := writes_eq_some.mp hwrites
    exact ⟨outpoint, hout, channel, hchannel, args, hargs, index, hindex, (), hfree, heq⟩

theorem handleSettlement_eq_ok :
    handleSettlement blake2b view tx metadata = .ok writes ↔
      ∃ event, readEvent blake2b metadata .settlement = .ok event ∧
        event.writes view tx.eventTx = some writes := by
  simp only [handleSettlement, readEvent, readArgsHash, bind_eq_ok, return_eq_ok, required_eq_ok,
    channelInState_eq_ok]
  constructor
  · rintro ⟨text, htext, args, hargs, id, hid, channel, hchannel, rfl⟩
    exact ⟨_, ⟨_, ⟨text, htext, args, hargs, rfl⟩, rfl⟩,
      writes_eq_some.mpr ⟨id, hid, channel, hchannel, rfl⟩⟩
  · rintro ⟨_, ⟨_, ⟨text, htext, args, hargs, rfl⟩, rfl⟩, hwrites⟩
    obtain ⟨id, hid, channel, hchannel, heq⟩ := writes_eq_some.mp hwrites
    exact ⟨text, htext, args, hargs, id, hid, channel, hchannel, heq⟩

theorem handleCommitmentRevocation_eq_ok :
    handleCommitmentRevocation blake2b view tx metadata = .ok writes ↔
      ∃ event, readEvent blake2b metadata .commitmentRevocation = .ok event ∧
        event.writes view tx.eventTx = some writes := by
  simp only [handleCommitmentRevocation, readEvent, readArgsHash, readCommitment, bind_eq_ok,
    return_eq_ok, required_eq_ok, channelInState_eq_ok, checkCommitmentMapping_eq_ok]
  constructor
  · rintro ⟨text, htext, old, hold, args, hargs, id, hid, channel, hchannel, u, hfree, index,
      hindex, rfl⟩
    exact ⟨_, ⟨_, ⟨text, htext, old, hold, rfl⟩, _, ⟨args, hargs, index, hindex, rfl⟩, rfl⟩,
      writes_eq_some.mpr ⟨id, hid, channel, hchannel, hfree, rfl⟩⟩
  · rintro ⟨_, ⟨_, ⟨text, htext, old, hold, rfl⟩, _, ⟨args, hargs, index, hindex, rfl⟩, rfl⟩,
      hwrites⟩
    obtain ⟨id, hid, channel, hchannel, hfree, heq⟩ := writes_eq_some.mp hwrites
    exact ⟨text, htext, old, hold, args, hargs, id, hid, channel, hchannel, (), hfree, index, hindex, heq⟩

/-- A handler succeeds exactly on metadata that describes an event its rows accept, and
stages that event's writes. -/
theorem handleEvent_eq_ok {kind : FiberEvent} :
    handleEvent blake2b view tx metadata kind = .ok writes ↔
      ∃ event, readEvent blake2b metadata kind = .ok event ∧
        event.writes view tx.eventTx = some writes := by
  cases kind with
  | channelOpen => exact handleChannelOpen_eq_ok
  | channelClose => exact handleChannelClose_eq_ok
  | forceClose => exact handleForceClose_eq_ok
  | settlement => exact handleSettlement_eq_ok
  | commitmentRevocation => exact handleCommitmentRevocation_eq_ok

/-- What a handler does is decided by what it reads. -/
theorem handleEvent_congr {τ : Type} [FiberView τ] {view' : τ} {kind : FiberEvent}
    (hchannel : ∀ id, getFiberChannel view id = getFiberChannel view' id)
    (hcommitment : ∀ commitment, getFiberChannelIdByCommitment view commitment
      = getFiberChannelIdByCommitment view' commitment) :
    handleEvent blake2b view tx metadata kind = handleEvent blake2b view' tx metadata kind := by
  cases kind with
  | channelOpen => simp [handleEvent, handleChannelOpen, hchannel]
  | channelClose => simp [handleEvent, handleChannelClose, channelInState, hchannel]
  | forceClose =>
    simp [handleEvent, handleForceClose, channelInState, checkCommitmentMapping, hchannel,
      hcommitment]
  | settlement =>
    simp [handleEvent, handleSettlement, channelInState, hchannel, hcommitment]
  | commitmentRevocation =>
    simp [handleEvent, handleCommitmentRevocation, channelInState, checkCommitmentMapping, hchannel,
      hcommitment]

/-- An action the rows accepted was skipped, or was an event they accepted. -/
theorem applyFiberAction_eq_ok {rows rows' : FiberRows} {action : ProtocolAction}
    (h : applyFiberAction blake2b rows tx action = .ok rows') :
    action.event? blake2b = none ∧ rows' = rows ∨
      ∃ event, action.event? blake2b = some event ∧ rows.step tx.eventTx event = some rows' := by
  unfold applyFiberAction at h
  unfold ProtocolAction.event?
  split at h
  · obtain ⟨writes, hwrites, heq⟩ := bind_eq_ok.mp h
    obtain ⟨event, hread, haccept⟩ := handleEvent_eq_ok.mp hwrites
    refine .inr ⟨event, by simp [*, Except.toOption], ?_⟩
    rw [FiberRows.step, haccept, ← return_eq_ok.mp heq]
    rfl
  · exact .inl ⟨by simp, (return_eq_ok.mp h).symm⟩

end Handlers

/-! ## Batches -/

namespace FiberBatch

/-- A batch reads what its commit would leave. -/
structure Coherent (b : FiberBatch) : Prop where
  channel : ∀ id, getFiberChannel b id = getFiberChannel b.commit id
  commitment : ∀ commitment, getFiberChannelIdByCommitment b commitment
    = getFiberChannelIdByCommitment b.commit commitment

theorem Coherent.new (rows : FiberRows) : Coherent { store := rows } where
  channel id := readThrough_empty rows.channels id
  commitment commitment := readThrough_empty rows.byCommitment commitment

theorem commit_stage (b : FiberBatch) (w : FiberWrite) : (b.stage w).commit = b.commit.write w := by
  simp [commit, FiberBatch.stage]

theorem Coherent.stage {b : FiberBatch} (h : b.Coherent) (w : FiberWrite) : (b.stage w).Coherent where
  channel id := by
    cases w with
    | putChannel id' channel =>
      rw [commit_stage]
      exact readThrough_put h.channel id' channel id
    | putAddrChannel | putByCommitment | deleteByCommitment => rw [commit_stage]; exact h.channel id
  commitment c := by
    cases w with
    | putChannel id' channel => rw [commit_stage]; exact h.commitment c
    | putAddrChannel lockHash id' => rw [commit_stage]; exact h.commitment c
    | putByCommitment commitment id' =>
      rw [commit_stage]
      exact readThrough_put h.commitment commitment id' c
    | deleteByCommitment commitment =>
      rw [commit_stage]
      exact readThrough_delete h.commitment commitment c

theorem Coherent.foldl_stage {b : FiberBatch} (h : b.Coherent) (writes : List FiberWrite) :
    (writes.foldl FiberBatch.stage b).Coherent ∧
      (writes.foldl FiberBatch.stage b).commit = writes.foldl FiberRows.write b.commit := by
  induction writes generalizing b with
  | nil => exact ⟨h, rfl⟩
  | cons w writes ih =>
    obtain ⟨hcoherent, hcommit⟩ := ih (h.stage w)
    exact ⟨hcoherent, by rw [List.foldl_cons, hcommit, commit_stage]; rfl⟩

variable {blake2b : Bytes → Hash32} {b b' : FiberBatch} {tx : FiberTxActions}
  {action : ProtocolAction}

theorem Coherent.applyFiberAction (h : b.Coherent)
    (hb : applyFiberAction blake2b b tx action = .ok b') : b'.Coherent := by
  unfold Writer.applyFiberAction at hb
  split at hb
  · obtain ⟨writes, -, heq⟩ := bind_eq_ok.mp hb
    rw [← return_eq_ok.mp heq]
    exact (h.foldl_stage writes).1
  · exact return_eq_ok.mp hb ▸ h

theorem applyFiberAction_commit (h : b.Coherent) :
    (applyFiberAction blake2b b tx action).map commit
      = applyFiberAction blake2b b.commit tx action := by
  unfold Writer.applyFiberAction
  split
  · rename_i kind _ _
    rw [handleEvent_congr h.channel h.commitment]
    cases handleEvent blake2b b.commit tx action.metadata kind with
    | error e => rfl
    | ok writes => exact congrArg Except.ok (h.foldl_stage writes).2
  · rfl

theorem Coherent.applyFiberChannelEvents (h : b.Coherent)
    (hb : applyFiberChannelEvents blake2b b tx = .ok b') : b'.Coherent :=
  foldlM_invariant Coherent (fun _ _ _ _ hu hv => hu.applyFiberAction hv) h hb

/-- The events of a transaction do to a batch what they do to its committed rows. -/
theorem applyFiberChannelEvents_commit (h : b.Coherent) :
    (applyFiberChannelEvents blake2b b tx).map commit
      = applyFiberChannelEvents blake2b b.commit tx :=
  foldlM_map_eq Coherent (fun _ _ hu => applyFiberAction_commit hu)
    (fun _ _ _ hu hv => hu.applyFiberAction hv) tx.protocolActions h

end FiberBatch

end Ckbadger.Writer
