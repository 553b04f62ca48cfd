/-
Ckbadger.Bulk.FiberHistory — the Fiber reducer over histories of unspent cells.

In a history every input spends a live cell and every Fiber cell has well-formed
arguments. That is not enough for the reducer: it knows a commitment cell only from the
force close or the revocation that created it, and a funding cell only when it is the
one its transaction is indexed by, so a cell anyone creates on the side makes it fail
when an event looks it up. It succeeds on histories in which the cells that events look
up are created as the protocol creates them (`Disciplined`): along such a history each
of them, while it lives, has an open channel or leads to a force-closed one (`Tracked`).
-/
import Ckbadger.Bulk.FiberRuns
import Ckbadger.Lib.Runs

namespace Ckbadger.Bulk

open Lib Ckbadger.Parser Writer FiberRows List

variable {o : FiberOutPoint} {txs : List FiberTx}

/-! ## Histories -/

/-- The live cells, by outpoint. -/
abbrev LiveFiberCells := FiberOutPoint → Option FiberCell

/-- The live cells after a transaction. -/
def LiveFiberCells.apply (live : LiveFiberCells) (tx : FiberTx) : LiveFiberCells := fun o =>
  if o.txHash = tx.hash then tx.outputs[o.index.toNat]?
  else if o ∈ tx.inputs.map (·.outpoint) then none
  else live o

/-- Fiber arguments, where the cell has a Fiber lock, can be parsed. -/
def ArgsWellFormed (cell : FiberCell) : Prop :=
  0 ≤ cell.capacity ∧
    (cell.lockType = .fundingLock → (parseFundingLockArgs cell.lockArgs).isSome) ∧
    (cell.lockType = .commitmentLock → (parseCommitmentLockArgs cell.lockArgs).isSome)

/-- A transaction that spends live cells, each once. -/
def ValidTx (live : LiveFiberCells) (tx : FiberTx) : Prop :=
  (tx.inputs.map (·.outpoint)).Nodup ∧ (∀ i ∈ tx.inputs, live i.outpoint = some i.cell) ∧
    ∀ c ∈ tx.outputs, ArgsWellFormed c

/-- A history from no cells at all. -/
def ValidHistory (txs : List FiberTx) : Prop :=
  (txs.map (·.hash)).Nodup ∧ ValidRun LiveFiberCells.apply ValidTx (fun _ => none) txs

/-- The Fiber cell whose channel or commitment a transaction's event looks up. -/
def eventInput? (tx : FiberTx) : Option FiberInput :=
  match tx.fundingInput?, tx.fundingOutput? with
  | some input, _ => some input
  | none, none => tx.commitmentInput?
  | none, some _ => none

/-- The cells the events of some transactions look up. -/
def lookedUp (txs : List FiberTx) : List FiberOutPoint :=
  txs.filterMap fun tx => (eventInput? tx).map (·.outpoint)

/-- The commitment hashes in use after a transaction. A revocation frees the one it
spends, a settlement does not. -/
def hashesInUse (blake2b : Bytes → Hash32) (used : List Hash32) (tx : FiberTx) : List Hash32 :=
  match tx.event? blake2b with
  | some (.forceClose _ new) => new.hash :: used
  | some (.commitmentRevocation old new) => new.hash :: used.filter (· ≠ old)
  | _ => used

/-- What the reducer needs of a transaction. A channel it opens has a participant, and the
token of its funding cell can be read. A Fiber cell it creates that a later event looks
up is the funding cell of the channel it opens, or the commitment its event gives; any
other may lie unspent, or be spent beside another Fiber cell. The hash of the commitment
it gives is not in use, unless it is that of the commitment it replaces. -/
@[mk_iff]
structure Disciplined (blake2b : Bytes → Hash32) (used : List Hash32) (tx : FiberTx)
    (later : List FiberTx) : Prop where
  readable : ∀ o ∈ tx.fundingOutput?, o.1.typeCodeHash.isSome →
    o.1.typeScriptHash.isSome ∧ (parseFundingUdtAmount o.1.data).isSome
  participants : tx.fundingInput? = none → tx.fundingOutput?.isSome →
    tx.participants.toList ≠ []
  funding : ∀ o ∈ tx.outputs.zipIdx, o.1.lockType = .fundingLock →
    ⟨tx.hash, UInt32.ofNat o.2⟩ ∈ lookedUp later →
      tx.fundingInput? = none ∧ tx.fundingOutput? = some o
  commitment : ∀ o ∈ tx.outputs.zipIdx, o.1.lockType = .commitmentLock →
    ⟨tx.hash, UInt32.ofNat o.2⟩ ∈ lookedUp later →
      (tx.event? blake2b).bind ChannelEvent.given? = some (outputCommitment blake2b o)
  fresh : ∀ event ∈ tx.event? blake2b, ∀ new ∈ event.given?, new.hash ∈ used →
    event.spent? = some new.hash

def DisciplinedFrom (blake2b : Bytes → Hash32) : List Hash32 → List FiberTx → Prop
  | _, [] => True
  | used, tx :: txs =>
    Disciplined blake2b used tx txs ∧ DisciplinedFrom blake2b (hashesInUse blake2b used tx) txs

instance (cell : FiberCell) : Decidable (ArgsWellFormed cell) :=
  inferInstanceAs (Decidable (_ ∧ _ ∧ _))

instance (live : LiveFiberCells) (tx : FiberTx) : Decidable (ValidTx live tx) :=
  inferInstanceAs (Decidable (_ ∧ _ ∧ _))

instance (txs : List FiberTx) : Decidable (ValidHistory txs) :=
  inferInstanceAs (Decidable (_ ∧ _))

set_option synthInstance.maxSize 512 in
instance (blake2b : Bytes → Hash32) (used : List Hash32) (tx : FiberTx) (later : List FiberTx) :
    Decidable (Disciplined blake2b used tx later) :=
  decidable_of_iff' _ (disciplined_iff blake2b used tx later)

instance decidableDisciplinedFrom (blake2b : Bytes → Hash32) :
    (used : List Hash32) → (txs : List FiberTx) → Decidable (DisciplinedFrom blake2b used txs)
  | _, [] => .isTrue trivial
  | used, tx :: txs =>
    have := decidableDisciplinedFrom blake2b (hashesInUse blake2b used tx) txs
    inferInstanceAs (Decidable (Disciplined blake2b used tx txs ∧ _))

/-- The byte strings a history's keys are hashes of. -/
def fiberPreimages (txs : List FiberTx) : List Bytes :=
  txs.flatMap fun tx => tx.outputs.zipIdx.flatMap fun o =>
    [encodeFiberOutpoint ⟨tx.hash, UInt32.ofNat o.2⟩, o.1.lockArgs]

/-! ## What the reducer knows of the live cells -/

structure Tracked (blake2b : Bytes → Hash32) (pre : List FiberTx) (used : List Hash32)
    (later : List FiberTx) (live : LiveFiberCells) (rows : FiberRows) : Prop where
  wellFormed : rows.WellFormed
  /-- A live cell was created by a transaction of the history. -/
  created : ∀ o c, live o = some c → ∃ tx ∈ pre, o.txHash = tx.hash ∧
    (c, o.index.toNat) ∈ tx.outputs.zipIdx ∧ ArgsWellFormed c
  funding : ∀ o c, live o = some c → c.lockType = .fundingLock → o ∈ lookedUp later →
    ∃ channel, channelIn? rows (encodeFiberChannelId blake2b o) .open = some channel
  commitment : ∀ o c, live o = some c → c.lockType = .commitmentLock → o ∈ lookedUp later →
    ∃ id channel, rows.byCommitment[blake2b c.lockArgs]? = some id ∧
      channelIn? rows id .forceClosed = some channel
  /-- Live commitment cells that will be looked up have different hashes. -/
  distinct : ∀ o o' c c', live o = some c → live o' = some c' → c.lockType = .commitmentLock →
    c'.lockType = .commitmentLock → o ∈ lookedUp later → o' ∈ lookedUp later →
    blake2b c.lockArgs = blake2b c'.lockArgs → o = o'
  mapped : ∀ hash id : Hash32, rows.byCommitment[hash]? = some id → hash ∈ used
  opened : ∀ (id : Hash32) (channel : FiberChannel), rows.channels[id]? = some channel →
    ∃ tx ∈ pre, ∃ o ∈ tx.outputs.zipIdx,
      id = encodeFiberChannelId blake2b ⟨tx.hash, UInt32.ofNat o.2⟩

theorem Tracked.empty (blake2b : Bytes → Hash32) (txs : List FiberTx) :
    Tracked blake2b [] [] txs (fun _ => none) {} where
  wellFormed := .empty
  created := by simp
  funding := by simp
  commitment := by simp
  distinct := by simp
  mapped := by simp
  opened := by simp

/-! ## Keys of a history -/

theorem encodeFiberOutpoint_inj {o' : FiberOutPoint}
    (h : encodeFiberOutpoint o = encodeFiberOutpoint o') : o = o' := by
  obtain ⟨hhash, hindex⟩ := append_inj h (by rw [o.txHash.length_eq, o'.txHash.length_eq])
  have hnat := congrArg leNat hindex
  rw [leNat_leBytes, leNat_leBytes, Nat.mod_eq_of_lt (by exact o.index.toNat_lt),
    Nat.mod_eq_of_lt (by exact o'.index.toNat_lt)] at hnat
  cases o
  cases o'
  simp only [FiberOutPoint.mk.injEq]
  exact ⟨Hash32.ext hhash, UInt32.toNat_inj.mp hnat⟩

theorem mem_fiberPreimages {tx : FiberTx} (htx : tx ∈ txs)
    {o : FiberCell × Nat} (ho : o ∈ tx.outputs.zipIdx) :
    encodeFiberOutpoint ⟨tx.hash, UInt32.ofNat o.2⟩ ∈ fiberPreimages txs := by
  simp only [fiberPreimages, mem_flatMap]
  exact ⟨tx, htx, o, ho, by simp⟩

/-- Outpoints of a history have different identifiers. -/
theorem channelId_inj {blake2b : Bytes → Hash32} {tx tx' : FiberTx} {o o' : FiberCell × Nat}
    (h : CollisionFree blake2b (fiberPreimages txs)) (htx : tx ∈ txs) (htx' : tx' ∈ txs)
    (ho : o ∈ tx.outputs.zipIdx) (ho' : o' ∈ tx'.outputs.zipIdx)
    (heq : encodeFiberChannelId blake2b ⟨tx.hash, UInt32.ofNat o.2⟩
      = encodeFiberChannelId blake2b ⟨tx'.hash, UInt32.ofNat o'.2⟩) :
    (⟨tx.hash, UInt32.ofNat o.2⟩ : FiberOutPoint) = ⟨tx'.hash, UInt32.ofNat o'.2⟩ :=
  encodeFiberOutpoint_inj (h _ (mem_fiberPreimages htx ho) _ (mem_fiberPreimages htx' ho') heq)

/-! ## One transaction of a history -/

section Step

variable {blake2b : Bytes → Hash32} {pre later : List FiberTx} {used : List Hash32}
  {live : LiveFiberCells} {rows rows' : FiberRows} {tx : FiberTx} {c : FiberCell} {i : FiberInput}
  {event : ChannelEvent}

/-- A live cell after a transaction is one of its outputs, or was live and is not spent. -/
theorem LiveFiberCells.apply_cases (h : live.apply tx o = some c) :
    (o.txHash = tx.hash ∧ (c, o.index.toNat) ∈ tx.outputs.zipIdx) ∨
      ((∀ i ∈ tx.inputs, i.outpoint ≠ o) ∧ live o = some c) := by
  unfold LiveFiberCells.apply at h
  split at h
  · rename_i hhash
    exact .inl ⟨hhash, mk_mem_zipIdx_iff_getElem?.mpr h⟩
  · split at h
    · cases h
    · rename_i hspent
      refine .inr ⟨fun i hi heq => hspent (mem_map.mpr ⟨i, hi, heq⟩), h⟩

theorem FiberOutPoint.eq_ofNat (h : o.txHash = tx.hash) :
    o = ⟨tx.hash, UInt32.ofNat o.index.toNat⟩ := by
  cases o
  simp_all

theorem mem_of_commitmentInput? (h : tx.commitmentInput? = some i) :
    i ∈ tx.inputs ∧ i.cell.lockType = .commitmentLock :=
  ⟨mem_of_find?_eq_some h, by simpa using find?_some h⟩

theorem mem_of_fundingInput? (h : tx.fundingInput? = some i) :
    i ∈ tx.inputs ∧ i.cell.lockType = .fundingLock :=
  ⟨mem_of_find?_eq_some h, by simpa using find?_some h⟩

theorem lookedUp_cons (h : o ∈ lookedUp later) : o ∈ lookedUp (tx :: later) := by
  simp only [lookedUp, filterMap_cons]
  split
  · exact h
  · exact mem_cons_of_mem _ h

theorem fundingInput_lookedUp (hfi : tx.fundingInput? = some i) :
    i.outpoint ∈ lookedUp (tx :: later) := by
  simp [lookedUp, eventInput?, hfi]

theorem commitmentInput_lookedUp (hfi : tx.fundingInput? = none) (hfo : tx.fundingOutput? = none)
    (hci : tx.commitmentInput? = some i) : i.outpoint ∈ lookedUp (tx :: later) := by
  simp [lookedUp, eventInput?, hfi, hfo, hci]

section Discipline

variable (h : Disciplined blake2b used tx later) (htx : o.txHash = tx.hash)
  (ho : (c, o.index.toNat) ∈ tx.outputs.zipIdx) (hlooked : o ∈ lookedUp later)

include h htx ho hlooked

theorem Disciplined.event?_funding (hlock : c.lockType = .fundingLock) :
    tx.event? blake2b = some (.channelOpen (encodeFiberChannelId blake2b o)
      (openTerms tx (c, o.index.toNat))) := by
  rw [FiberOutPoint.eq_ofNat htx] at hlooked
  obtain ⟨hfi, hfo⟩ := h.funding _ ho hlock hlooked
  rw [event?_of (.channelOpen _ hfi hfo), ← FiberOutPoint.eq_ofNat htx]

theorem Disciplined.event?_commitment (hlock : c.lockType = .commitmentLock) :
    ∃ event, tx.event? blake2b = some event ∧
      event.given? = some (outputCommitment blake2b (c, o.index.toNat)) := by
  rw [FiberOutPoint.eq_ofNat htx] at hlooked
  exact Option.bind_eq_some_iff.mp (h.commitment _ ho hlock hlooked)

end Discipline

namespace Tracked

variable (h : Tracked blake2b pre used (tx :: later) live rows) (hvalid : ValidTx live tx)
  (hdisc : Disciplined blake2b used tx later)
  (hhash : CollisionFree blake2b (fiberPreimages (pre ++ [tx])))

include h

include hvalid hdisc in
theorem wellFormedTx : tx.WellFormed where
  fundingOutput o ho := by
    obtain ⟨hmem, hlock⟩ := mem_of_fundingOutput? ho
    obtain ⟨hcapacity, hargs, -⟩ := hvalid.2.2 o.1 (fst_mem_of_mem_zipIdx hmem)
    exact ⟨hargs hlock, hcapacity, hdisc.readable o ho⟩
  commitmentInput i hi := by
    obtain ⟨hmem, hlock⟩ := mem_of_commitmentInput? hi
    obtain ⟨-, -, -, -, -, -, hargs⟩ := h.created i.outpoint i.cell (hvalid.2.1 i hmem)
    exact hargs hlock
  commitmentOutput o ho := by
    obtain ⟨hmem, hlock⟩ := mem_of_commitmentOutput? ho
    obtain ⟨-, -, hargs⟩ := hvalid.2.2 o.1 (fst_mem_of_mem_zipIdx hmem)
    exact hargs hlock

include hvalid hdisc hhash in
theorem progress (hnew : ∀ t ∈ pre, t.hash ≠ tx.hash) :
    ∃ rows', rows.stepTx blake2b tx = some rows' := by
  unfold stepTx
  cases hevent : tx.event? blake2b with
  | none => exact ⟨rows, rfl⟩
  | some event =>
    suffices hwrites : ∃ writes, event.writes rows tx.eventTx = some writes by
      obtain ⟨writes, hwrites⟩ := hwrites
      exact ⟨writes.foldl write rows, by simp [step, hwrites]⟩
    cases event?_eq_some hevent with
    | channelOpen output hfi hfo =>
      refine ⟨_, if_pos ⟨?_, hdisc.participants hfi (by simp [hfo])⟩⟩
      rw [Option.eq_none_iff_forall_not_mem]
      intro channel hchannel
      -- the identifier of an earlier outpoint would be that of an earlier transaction
      obtain ⟨earlier, hearlier, o, ho, heq⟩ := h.opened _ channel hchannel
      have hoo := channelId_inj hhash (by simp) (mem_append_left _ hearlier)
        (mem_of_fundingOutput? hfo).1 ho heq
      exact hnew earlier hearlier (congrArg FiberOutPoint.txHash hoo).symm
    | channelClose input hfi hco =>
      obtain ⟨hmem, hlock⟩ := mem_of_fundingInput? hfi
      obtain ⟨channel, hchannel⟩ :=
        h.funding _ _ (hvalid.2.1 input hmem) hlock (fundingInput_lookedUp hfi)
      exact ⟨_, Option.bind_eq_some_iff.mpr ⟨channel, hchannel, rfl⟩⟩
    | forceClose input output hfi hco =>
      obtain ⟨hmem, hlock⟩ := mem_of_fundingInput? hfi
      obtain ⟨channel, hchannel⟩ :=
        h.funding _ _ (hvalid.2.1 input hmem) hlock (fundingInput_lookedUp hfi)
      refine ⟨_, Option.bind_eq_some_iff.mpr ⟨channel, hchannel, if_pos ?_⟩⟩
      -- a force close spends no commitment, so the hash is not in use
      intro other hother
      cases hdisc.fresh _ hevent _ rfl (h.mapped _ other hother)
    | settlement input hfi hfo hci hco =>
      obtain ⟨hmem, hlock⟩ := mem_of_commitmentInput? hci
      obtain ⟨id, channel, hrow, hchannel⟩ := h.commitment _ _ (hvalid.2.1 input hmem) hlock
        (commitmentInput_lookedUp hfi hfo hci)
      exact ⟨_, Option.bind_eq_some_iff.mpr ⟨id, hrow, Option.bind_eq_some_iff.mpr
        ⟨channel, hchannel, rfl⟩⟩⟩
    | commitmentRevocation input output hfi hfo hci hco =>
      obtain ⟨hmem, hlock⟩ := mem_of_commitmentInput? hci
      obtain ⟨id, channel, hrow, hchannel⟩ := h.commitment _ _ (hvalid.2.1 input hmem) hlock
        (commitmentInput_lookedUp hfi hfo hci)
      refine ⟨_, Option.bind_eq_some_iff.mpr ⟨id, hrow, Option.bind_eq_some_iff.mpr
        ⟨channel, hchannel, if_pos ?_⟩⟩⟩
      intro other hother
      have hsame := Option.some.inj (hdisc.fresh _ hevent _ rfl (h.mapped _ other hother))
      exact (Option.mem_unique (hsame ▸ hrow) hother).symm

section Kept

variable (hevent : tx.event? blake2b = some event) (hstep : FiberStep tx.eventTx rows event rows')
  (hlive : live o = some c) (hunspent : ∀ i ∈ tx.inputs, i.outpoint ≠ o)
  (hlooked : o ∈ lookedUp later)

include hvalid hevent hlive hunspent hlooked

/-- A commitment cell the transaction does not spend has another hash than the one its
event spends. -/
theorem spent_ne (hlock : c.lockType = .commitmentLock) :
    event.spent? ≠ some (blake2b c.lockArgs) := by
  intro hspent
  cases event?_eq_some hevent with
  | channelOpen | channelClose | forceClose => cases hspent
  | settlement input hfi hfo hci _ | commitmentRevocation input _ hfi hfo hci _ =>
    obtain ⟨hmem, hinput⟩ := mem_of_commitmentInput? hci
    exact hunspent input hmem (h.distinct _ o _ c (hvalid.2.1 input hmem) hlive hinput hlock
      (commitmentInput_lookedUp hfi hfo hci) (lookedUp_cons hlooked) (Option.some.inj hspent))

include hstep

include hhash in
/-- A funding cell the transaction does not spend still has its open channel. -/
theorem funding_kept (hlock : c.lockType = .fundingLock) :
    ∃ channel, channelIn? rows' (encodeFiberChannelId blake2b o) .open = some channel := by
  obtain ⟨channel, hchannel⟩ := h.funding o c hlive hlock (lookedUp_cons hlooked)
  -- a closed channel is that of a spent cell, and this cell is not spent
  have hother : ∀ input, tx.fundingInput? = some input →
      encodeFiberChannelId blake2b input.outpoint ≠ encodeFiberChannelId blake2b o := by
    intro input hfi heq
    obtain ⟨hmem, -⟩ := mem_of_fundingInput? hfi
    obtain ⟨t, ht, hth, htc, -⟩ := h.created _ _ (hvalid.2.1 input hmem)
    obtain ⟨t', ht', hth', htc', -⟩ := h.created o c hlive
    rw [FiberOutPoint.eq_ofNat hth, FiberOutPoint.eq_ofNat hth'] at heq
    have hoo := channelId_inj hhash (mem_append_left _ ht) (mem_append_left _ ht') htc htc' heq
    rw [← FiberOutPoint.eq_ofNat hth, ← FiberOutPoint.eq_ofNat hth'] at hoo
    exact hunspent input hmem hoo
  refine ⟨channel, hstep.open_kept hchannel ?_ ?_⟩
  · rintro rfl
    generalize hid : encodeFiberChannelId blake2b o = id at hevent
    cases event?_eq_some hevent with
    | channelClose input hfi hco => exact hother input hfi hid.symm
  · rintro commitment rfl
    generalize hid : encodeFiberChannelId blake2b o = id at hevent
    cases event?_eq_some hevent with
    | forceClose input output hfi hco => exact hother input hfi hid.symm

/-- A commitment cell the transaction does not spend still leads to its channel. -/
theorem commitment_kept (hlock : c.lockType = .commitmentLock) :
    ∃ id channel, rows'.byCommitment[blake2b c.lockArgs]? = some id ∧
      channelIn? rows' id .forceClosed = some channel := by
  obtain ⟨id, channel, hrow, hchannel⟩ := h.commitment o c hlive hlock (lookedUp_cons hlooked)
  obtain ⟨hget, hclosed⟩ := channelIn?_eq_some.mp hchannel
  have hne := h.spent_ne hvalid hevent hlive hunspent hlooked hlock
  obtain ⟨hrow', hchannel'⟩ := hstep.commitment_kept
    (fun c' hc' => h.wellFormed.unique id channel hget hclosed c' _ hc' hrow) hrow hchannel
    (by rintro rfl; exact hne rfl) (by rintro new rfl; exact hne rfl)
  exact ⟨id, channel, hrow', hchannel'⟩

end Kept

include hvalid hdisc in
/-- Live commitment cells that will be looked up still have different hashes: a new one
has the hash of a live one only when it replaces it. -/
theorem distinct_apply {o' : FiberOutPoint} {c' : FiberCell} (ho : live.apply tx o = some c)
    (ho' : live.apply tx o' = some c') (hlock : c.lockType = .commitmentLock)
    (hlock' : c'.lockType = .commitmentLock) (hlooked : o ∈ lookedUp later)
    (hlooked' : o' ∈ lookedUp later) (heq : blake2b c.lockArgs = blake2b c'.lockArgs) :
    o = o' := by
  have hmixed : ∀ {o o' : FiberOutPoint} {c c' : FiberCell}, o.txHash = tx.hash →
      (c, o.index.toNat) ∈ tx.outputs.zipIdx → c.lockType = .commitmentLock →
      o ∈ lookedUp later → (∀ i ∈ tx.inputs, i.outpoint ≠ o') → live o' = some c' →
      c'.lockType = .commitmentLock → o' ∈ lookedUp later →
      blake2b c.lockArgs = blake2b c'.lockArgs → False := by
    intro o o' c c' htx hc hlock hlooked hunspent hlive hlock' hlooked' heq
    obtain ⟨event, hevent, hgiven⟩ := hdisc.event?_commitment htx hc hlooked hlock
    obtain ⟨id, -, hrow, -⟩ := h.commitment o' c' hlive hlock' (lookedUp_cons hlooked')
    have hused : blake2b c.lockArgs ∈ used := heq ▸ h.mapped _ id hrow
    exact h.spent_ne hvalid hevent hlive hunspent hlooked' hlock'
      ((hdisc.fresh event hevent _ hgiven hused).trans (congrArg some heq))
  obtain ⟨htx, hc⟩ | ⟨hunspent, hlive⟩ := LiveFiberCells.apply_cases ho <;>
    obtain ⟨htx', hc'⟩ | ⟨hunspent', hlive'⟩ := LiveFiberCells.apply_cases ho'
  · obtain ⟨event, hevent, hgiven⟩ := hdisc.event?_commitment htx hc hlooked hlock
    obtain ⟨event', hevent', hgiven'⟩ := hdisc.event?_commitment htx' hc' hlooked' hlock'
    obtain rfl := Option.mem_unique hevent hevent'
    have hindex := congrArg Commitment.index (Option.mem_unique hgiven hgiven')
    rw [FiberOutPoint.eq_ofNat htx, FiberOutPoint.eq_ofNat htx']
    exact congrArg (FiberOutPoint.mk tx.hash) hindex
  · exact absurd (hmixed htx hc hlock hlooked hunspent' hlive' hlock' hlooked' heq) id
  · exact absurd (hmixed htx' hc' hlock' hlooked' hunspent hlive hlock hlooked heq.symm) id
  · exact h.distinct o o' c c' hlive hlive' hlock hlock' (lookedUp_cons hlooked)
      (lookedUp_cons hlooked') heq

include hvalid in
theorem created_apply (ho : live.apply tx o = some c) :
    ∃ t ∈ pre ++ [tx], o.txHash = t.hash ∧ (c, o.index.toNat) ∈ t.outputs.zipIdx ∧
      ArgsWellFormed c := by
  obtain ⟨hhash, hc⟩ | ⟨-, hlive⟩ := LiveFiberCells.apply_cases ho
  · exact ⟨tx, by simp, hhash, hc, hvalid.2.2 c (fst_mem_of_mem_zipIdx hc)⟩
  · obtain ⟨t, ht, hrest⟩ := h.created o c hlive
    exact ⟨t, mem_append_left _ ht, hrest⟩

theorem mapped_step (hevent : tx.event? blake2b = some event)
    (hstep : FiberStep tx.eventTx rows event rows')
    {hash id : Hash32} (hrow : rows'.byCommitment[hash]? = some id) :
    hash ∈ hashesInUse blake2b used tx := by
  cases hstep with
  | opened | closed | settled => simpa [hashesInUse, hevent] using h.mapped hash id hrow
  | forceClosed i ch commitment hc hopen hfree =>
    obtain ⟨rfl, -⟩ | ⟨-, hrow⟩ := getElem?_insert_eq_some.mp hrow
    · simp [hashesInUse, hevent]
    · simp [hashesInUse, hevent, h.mapped hash id hrow]
  | revoked i old new ch hold hc hclosed hfree =>
    obtain ⟨rfl, -⟩ | ⟨-, hrow⟩ := getElem?_insert_eq_some.mp hrow
    · simp [hashesInUse, hevent]
    · rw [getElem?_erase_ite] at hrow
      split at hrow
      · cases hrow
      · rename_i hne
        simp [hashesInUse, hevent, h.mapped hash id hrow, Ne.symm hne]

include hvalid hdisc hhash in
/-- The transaction's outputs are tracked, and the cells it does not spend still are. -/
theorem stepTx (hstep : rows.stepTx blake2b tx = some rows') :
    Tracked blake2b (pre ++ [tx]) (hashesInUse blake2b used tx) later (live.apply tx) rows' := by
  have hsub : pre ⊆ pre ++ [tx] := subset_append_left _ _
  unfold FiberRows.stepTx at hstep
  split at hstep
  · -- without an event no cell the transaction creates is looked up later
    rename_i hnone
    obtain rfl := Option.some.inj hstep
    refine ⟨h.wellFormed, fun o c => h.created_apply hvalid, ?_, ?_,
      fun o o' c c' => h.distinct_apply hvalid hdisc, ?_, ?_⟩
    · intro o c ho hlock hlooked
      obtain ⟨htx, hc⟩ | ⟨-, hlive⟩ := LiveFiberCells.apply_cases ho
      · simp [hdisc.event?_funding htx hc hlooked hlock] at hnone
      · exact h.funding o c hlive hlock (lookedUp_cons hlooked)
    · intro o c ho hlock hlooked
      obtain ⟨htx, hc⟩ | ⟨-, hlive⟩ := LiveFiberCells.apply_cases ho
      · obtain ⟨event, hevent, -⟩ := hdisc.event?_commitment htx hc hlooked hlock
        simp [hevent] at hnone
      · exact h.commitment o c hlive hlock (lookedUp_cons hlooked)
    · simpa [hashesInUse, hnone] using h.mapped
    · intro id channel hchannel
      obtain ⟨t, ht, hrest⟩ := h.opened id channel hchannel
      exact ⟨t, hsub ht, hrest⟩
  · rename_i event hevent
    have hfiber := FiberRows.step_eq_some hstep
    refine ⟨h.wellFormed.step hfiber, fun o c => h.created_apply hvalid, ?_, ?_,
      fun o o' c c' => h.distinct_apply hvalid hdisc, fun hash id => h.mapped_step hevent hfiber, ?_⟩
    · intro o c ho hlock hlooked
      obtain ⟨htx, hc⟩ | ⟨hunspent, hlive⟩ := LiveFiberCells.apply_cases ho
      · obtain rfl := Option.mem_unique hevent (hdisc.event?_funding htx hc hlooked hlock)
        exact ⟨_, hfiber.opened_channelIn?⟩
      · exact h.funding_kept hvalid hhash hevent hfiber hlive hunspent hlooked hlock
    · intro o c ho hlock hlooked
      obtain ⟨htx, hc⟩ | ⟨hunspent, hlive⟩ := LiveFiberCells.apply_cases ho
      · obtain ⟨event', hevent', hgiven⟩ := hdisc.event?_commitment htx hc hlooked hlock
        obtain rfl := Option.mem_unique hevent hevent'
        exact hfiber.committed_channelIn? hgiven
      · exact h.commitment_kept hvalid hevent hfiber hlive hunspent hlooked hlock
    · intro id channel hchannel
      obtain ⟨c, hold⟩ | ⟨terms, rfl⟩ := hfiber.channel_cases hchannel
      · obtain ⟨t, ht, hrest⟩ := h.opened id c hold
        exact ⟨t, hsub ht, hrest⟩
      · cases event?_eq_some hevent with
        | channelOpen output hfi hfo =>
          exact ⟨tx, by simp, output, (mem_of_fundingOutput? hfo).1, rfl⟩

end Tracked

end Step

/-! ## Whole histories -/

theorem fiberPreimages_subset {txs' : List FiberTx} (h : txs ⊆ txs') :
    fiberPreimages txs ⊆ fiberPreimages txs' := by
  intro x hx
  obtain ⟨tx, htx, hmem⟩ := mem_flatMap.mp hx
  exact mem_flatMap.mpr ⟨tx, h htx, hmem⟩

/-- From a tracked state the reducer gets through the rest of the history. -/
theorem bulkRun_from {blake2b : Bytes → Hash32} {pre : List FiberTx} {used : List Hash32}
    {live : LiveFiberCells} {rows : FiberRows} (h : Tracked blake2b pre used txs live rows)
    (hrun : bulkRun blake2b pre = .ok (held rows)) (hnodup : ((pre ++ txs).map (·.hash)).Nodup)
    (hvalid : ValidRun LiveFiberCells.apply ValidTx live txs) (hdisc : DisciplinedFrom blake2b used txs)
    (hhash : CollisionFree blake2b (fiberPreimages (pre ++ txs))) :
    ∃ owner, bulkRun blake2b (pre ++ txs) = .ok owner := by
  induction txs generalizing pre used live rows with
  | nil => exact ⟨held rows, by simpa using hrun⟩
  | cons tx txs ih =>
    obtain ⟨htx, hrest⟩ := hvalid
    obtain ⟨hd, hdrest⟩ := hdisc
    rw [append_cons] at hhash hnodup ⊢
    have hhash' := hhash.mono (fiberPreimages_subset (subset_append_left _ txs))
    have hnew : ∀ t ∈ pre, t.hash ≠ tx.hash := by
      rw [map_append, map_append, nodup_append, nodup_append] at hnodup
      exact fun t ht => hnodup.1.2.2 _ (mem_map_of_mem ht) _ (by simp)
    obtain ⟨rows', hstep⟩ := h.progress htx hd hhash' hnew
    refine ih (h.stepTx htx hd hhash' hstep) ?_ hnodup hrest hdrest hhash
    rw [bulkRun_snoc hrun]
    exact (bulkStep_eq (h.wellFormedTx htx hd) (not_takesOver hstep)).1 rows' hstep

/-- The reducer gets through every history in which the Fiber cells its events look up
were created as the protocol creates them. -/
theorem fiber_reducer_succeeds (blake2b : Bytes → Hash32) (txs : List FiberTx)
    (hvalid : ValidHistory txs) (hhash : CollisionFree blake2b (fiberPreimages txs))
    (hdisc : DisciplinedFrom blake2b [] txs) : ∃ owner, bulkRun blake2b txs = .ok owner :=
  bulkRun_from (.empty blake2b txs) rfl (by simpa using hvalid.1) hvalid.2 hdisc hhash

/-- A transaction that creates one cell out of nothing. -/
def mint (n : Nat) (output : FiberCell) : FiberTx :=
  { hash := .ofNat n, blockNumber := n, timestamp := 1000 * n, inputs := [], outputs := [output]
    isCellbase := true, outputs_length_le := Nat.one_le_two_pow }

/-- A channel is opened, force-closed, its commitment revoked, and settled, beside a
commitment cell that is paid for from a wallet and left unspent. -/
theorem fiber_reducer_succeeds_lifecycle :
    ∃ owner, bulkRun Hash32.leading
      [ mint 1 (walletCell 5), exchange 2 1 (walletCell 5) fundingCell,
        mint 6 (walletCell 7), exchange 7 6 (walletCell 7) (commitmentCell 71),
        exchange 3 2 fundingCell (commitmentCell 71),
        exchange 4 3 (commitmentCell 71) (commitmentCell 72),
        exchange 5 4 (commitmentCell 72) (walletCell 6) ] = .ok owner :=
  fiber_reducer_succeeds Hash32.leading _ (by decide +kernel) (by decide +kernel)
    (by decide +kernel)

/-- A commitment cell that was paid for from a wallet and is then spent. -/
def strayCommitment : List FiberTx :=
  [ mint 1 (walletCell 5), exchange 2 1 (walletCell 5) (commitmentCell 71),
    exchange 3 2 (commitmentCell 71) (walletCell 5) ]

/-- The reducer accepts the first two transactions and fails at the third. -/
theorem stray_commitment_fails :
    ValidHistory strayCommitment ∧
      CollisionFree Hash32.leading (fiberPreimages strayCommitment) ∧
      ∃ e, bulkRun Hash32.leading strayCommitment = .error e ∧ e.txHash = .ofNat 3 := by
  have heval : (do let _ ← bulkRun Hash32.leading strayCommitment; return none).tryCatch
      (fun e => .ok (some e)) = Except.ok (some (FiberFailure.mk (.ofNat 3)
        "fiber settlement missing channel by commitment in bulk reducer")) := by decide +kernel
  refine ⟨by decide +kernel, by decide +kernel, ?_⟩
  cases hrun : bulkRun Hash32.leading strayCommitment with
  | ok owner => simp [hrun, Except.tryCatch] at heval
  | error e =>
    simp only [hrun, Except.tryCatch, Except.ok.injEq, Option.some.injEq, error_bind] at heval
    exact ⟨e, rfl, congrArg FiberFailure.txHash heval⟩

end Ckbadger.Bulk
