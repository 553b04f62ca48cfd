/-
Ckbadger.Sync.FiberRollbackTheorems — when the Fiber stage restores the rows of the
target block.

The stage can only use what the final row of a channel records. Opening, closing and
settling leave their block there, so a channel opened after the target, one closed after
it and one settled before it all come back right. A force-closed channel is the
exception: a settlement after the target makes the stage delete its commitment row, and
a revocation after the target leaves no trace of the commitment it replaced. The rows
come back exactly when no such channel changed, that is, when no transaction after the
target spends its commitment (`fiber_rollback_iff`).
-/
import Ckbadger.Writer.FiberLife
import Ckbadger.Sync.FiberRollback

namespace Ckbadger.Sync

open Lib Writer Std FiberChannel List

/-- A run of the live writer. -/
def fiberRun (blake2b : Bytes → Hash32) (rows : FiberRows) (txs : List FiberTxActions) :
    Except String FiberRows :=
  txs.foldlM (applyFiberChannelEvents blake2b) rows

/-! ## What the stage leaves at a key -/

variable {rollbackTo : Int} {rows before after : FiberRows}
variable {limit : Int} {channel first last : FiberChannel} {mid : FiberRows}
variable {txs : List FiberTxActions}

theorem getElem?_rollback_channels (id : Hash32) :
    (rollbackFiber rollbackTo rows).channels[id]?
      = (rows.channels[id]?).bind (rollbackChannel rollbackTo) := by
  simp [rollbackFiber]

theorem getElem?_rollback_byCommitment (commitment id : Hash32) :
    (rollbackFiber rollbackTo rows).byCommitment[commitment]? = some id ↔
      rows.byCommitment[commitment]? = some id ∧
        keepsCommitment rollbackTo rows.channels[id]? := by
  simp [rollbackFiber]

theorem getElem?_foldl_erase (m : ExtTreeMap Bytes Unit) (keys : List Bytes) (key : Bytes) :
    (keys.foldl (fun m key => m.erase key) m)[key]? = if key ∈ keys then none else m[key]? := by
  induction keys generalizing m with
  | nil => simp
  | cons k keys ih =>
    rw [foldl_cons, ih, getElem?_erase_ite]
    by_cases hkey : k = key
    · simp [hkey]
    · simp [hkey, Ne.symm hkey]

/-! ## Blocks up to the target -/

/-- Every block a channel records is at most the target. -/
def RecordedUpTo (channel : FiberChannel) (limit : Int) : Prop :=
  channel.openBlock ≤ limit ∧ (∀ b ∈ channel.closeBlock, b ≤ limit) ∧
    ∀ b ∈ channel.settlementBlock, b ≤ limit

theorem recordedUpTo_step {tx : EventTx} {event : ChannelEvent} (hblock : tx.blockNumber ≤ rollbackTo)
    (h : ∀ (id : Hash32) (channel : FiberChannel), before.channels[id]? = some channel →
      RecordedUpTo channel rollbackTo)
    (hstep : FiberStep tx before event after) (id : Hash32) (channel : FiberChannel)
    (hchannel : after.channels[id]? = some channel) : RecordedUpTo channel rollbackTo := by
  cases hstep with
  | opened i terms hnew =>
    obtain ⟨-, rfl⟩ | ⟨-, hchannel⟩ := getElem?_insert_eq_some.mp hchannel
    · simp [RecordedUpTo, opened, hblock]
    · exact h id channel hchannel
  | closed i c hc _ | forceClosed i c _ hc _ _ | settled i _ c _ hc _ | revoked i _ _ c _ hc _ _ =>
    have hold := h i c hc
    obtain ⟨-, rfl⟩ | ⟨-, hchannel⟩ := getElem?_insert_eq_some.mp hchannel
    · simp_all [RecordedUpTo, closed, committed, settled]
    · exact h id channel hchannel

/-! ## Blocks after the target -/

/-- How a channel's row can have changed after the target. -/
def ChannelLater (limit : Int) (before after : FiberChannel) : Prop :=
  after.openBlock = before.openBlock ∧ after.participants = before.participants ∧
    match before.state with
    | .open => reopened after = before ∧
        (after.state = .open ∨ ∃ b, after.closeBlock = some b ∧ limit < b)
    | .forceClosed => after.closeBlock = before.closeBlock ∧
        (after.state = .forceClosed ∨
          after.state = .settled ∧ ∃ b, after.settlementBlock = some b ∧ limit < b)
    | .cooperativelyClosed | .settled => after = before

theorem ChannelLater.refl (h : channel.Lawful) : ChannelLater limit channel channel := by
  refine ⟨rfl, rfl, ?_⟩
  cases hstate : channel.state with
  | «open» =>
    simp only [FiberChannel.Lawful] at h
    refine ⟨?_, .inl rfl⟩
    cases channel
    simp_all [reopened]
  | forceClosed => exact ⟨rfl, .inl rfl⟩
  | cooperativelyClosed | settled => rfl

section Later

variable {mid : FiberChannel} (h : ChannelLater limit first mid)
  (hreopen : reopened last = reopened mid)

include h hreopen

/-- Reopening forgets nothing of how a channel was opened. -/
theorem ChannelLater.opening :
    last.openBlock = first.openBlock ∧ last.participants = first.participants := by
  obtain ⟨hblock, hsame, -⟩ := h
  have hopenBlock : (reopened last).openBlock = (reopened mid).openBlock :=
    congrArg openBlock hreopen
  have hparticipants : (reopened last).participants = (reopened mid).participants :=
    congrArg participants hreopen
  exact ⟨hopenBlock.trans hblock, hparticipants.trans hsame⟩

theorem ChannelLater.close (hopen : mid.state = .open)
    (hclose : ∃ b, last.closeBlock = some b ∧ limit < b) : ChannelLater limit first last := by
  obtain ⟨hblock, hsame⟩ := h.opening hreopen
  obtain ⟨-, -, hstate⟩ := h
  refine ⟨hblock, hsame, ?_⟩
  cases hfirst : first.state with
  | «open» =>
    rw [hfirst] at hstate
    exact ⟨hreopen.trans hstate.1, .inr hclose⟩
  | forceClosed =>
    rw [hfirst] at hstate
    obtain ⟨-, hmid | ⟨hmid, -⟩⟩ := hstate
    · rw [hmid] at hopen; cases hopen
    · rw [hmid] at hopen; cases hopen
  | cooperativelyClosed | settled =>
    rw [hfirst] at hstate
    rw [hstate, hfirst] at hopen
    cases hopen

/-- Settling a force-closed channel after the target, or giving it another commitment. -/
theorem ChannelLater.change (hclosed : mid.state = .forceClosed)
    (hclose : last.closeBlock = mid.closeBlock)
    (hlast : last.state = .forceClosed ∨
      last.state = .settled ∧ ∃ b, last.settlementBlock = some b ∧ limit < b) :
    ChannelLater limit first last := by
  obtain ⟨hblock, hsame⟩ := h.opening hreopen
  obtain ⟨-, -, hstate⟩ := h
  refine ⟨hblock, hsame, ?_⟩
  cases hfirst : first.state with
  | «open» =>
    rw [hfirst] at hstate
    obtain ⟨hback, hopen | hlater⟩ := hstate
    · rw [hclosed] at hopen; cases hopen
    · exact ⟨hreopen.trans hback, .inr (by rw [hclose]; exact hlater)⟩
  | forceClosed =>
    rw [hfirst] at hstate
    exact ⟨hclose.trans hstate.1, hlast⟩
  | cooperativelyClosed | settled =>
    rw [hfirst] at hstate
    rw [hstate, hfirst] at hclosed
    cases hclosed

end Later

/-- How the rows can have changed after the target. -/
structure Later (limit : Int) (before after : FiberRows) : Prop where
  fresh : ∀ (id : Hash32) (channel : FiberChannel), before.channels[id]? = none →
    after.channels[id]? = some channel → limit < channel.openBlock
  channel : ∀ (id : Hash32) (channel : FiberChannel), before.channels[id]? = some channel →
    ∃ last, after.channels[id]? = some last ∧ ChannelLater limit channel last
  /-- The commitment rows of settled channels stay. -/
  settled : ∀ (id : Hash32) (channel : FiberChannel), before.channels[id]? = some channel →
    channel.state = .settled →
      ∀ c : Hash32, before.byCommitment[c]? = some id ↔ after.byCommitment[c]? = some id

theorem Later.refl (h : before.WellFormed) : Later limit before before where
  fresh id channel hnone hsome := by simp [hnone] at hsome
  channel id channel hchannel := ⟨channel, hchannel, .refl (h.lawful id channel hchannel)⟩
  settled _ _ _ _ _ := Iff.rfl

theorem Later.settled_row (h : Later limit before after) {id : Hash32}
    (hchannel : before.channels[id]? = some channel)
    (hsettled : channel.state = .settled) : after.channels[id]? = some channel := by
  obtain ⟨last, hlast, -, -, hstate⟩ := h.channel id channel hchannel
  rw [hsettled] at hstate
  rw [hlast, hstate]

section

variable (h : Later limit before mid)

include h

/-- A channel that is open or force-closed is not one that was settled before. -/
theorem Later.ne_settled {i id : Hash32} {c : FiberChannel}
    (hc : mid.channels[i]? = some c) (hstate : c.state ≠ .settled)
    (hchannel : before.channels[id]? = some channel) (hsettled : channel.state = .settled) :
    i ≠ id := by
  rintro rfl
  obtain rfl := Option.mem_unique hc (h.settled_row hchannel hsettled)
  exact hstate hsettled

/-- Replacing the row of a channel that is not new. -/
theorem Later.channel_insert {i : Hash32} {old new : FiberChannel} (hold : mid.channels[i]? = some old)
    (hlater : ∀ first, ChannelLater limit first old → ChannelLater limit first new)
    (id : Hash32) (channel : FiberChannel) (hchannel : before.channels[id]? = some channel) :
    ∃ last, (mid.channels.insert i new)[id]? = some last ∧ ChannelLater limit channel last := by
  obtain ⟨last, hlast, hl⟩ := h.channel id channel hchannel
  by_cases hid : i = id
  · subst hid
    obtain rfl := Option.mem_unique hold hlast
    exact ⟨new, by simp, hlater channel hl⟩
  · exact ⟨last, by rw [getElem?_insert_of_ne hid, hlast], hl⟩

theorem Later.fresh_insert {i : Hash32} {old new : FiberChannel} (hold : mid.channels[i]? = some old)
    (hblock : new.openBlock = old.openBlock)
    (id : Hash32) (channel : FiberChannel) (hnone : before.channels[id]? = none)
    (hchannel : (mid.channels.insert i new)[id]? = some channel) : limit < channel.openBlock := by
  obtain ⟨rfl, rfl⟩ | ⟨-, hchannel⟩ := getElem?_insert_eq_some.mp hchannel
  · rw [hblock]
    exact h.fresh i old hnone hold
  · exact h.fresh id channel hnone hchannel

theorem Later.step {tx : EventTx} {event : ChannelEvent} (hblock : limit < tx.blockNumber)
    (hstep : FiberStep tx mid event after) :
    Later limit before after := by
  cases hstep with
  | opened i terms hnew =>
    constructor
    · intro id channel hnone hchannel
      obtain ⟨-, rfl⟩ | ⟨-, hchannel⟩ := getElem?_insert_eq_some.mp hchannel
      · exact hblock
      · exact h.fresh id channel hnone hchannel
    · intro id channel hchannel
      obtain ⟨last, hlast, hl⟩ := h.channel id channel hchannel
      refine ⟨last, ?_, hl⟩
      rw [getElem?_insert_of_ne, hlast]
      rintro rfl
      simp [hnew] at hlast
    · exact h.settled
  | closed i c hc hopen =>
    exact ⟨h.fresh_insert hc rfl,
      h.channel_insert hc fun first hl => hl.close rfl hopen ⟨_, rfl, hblock⟩, h.settled⟩
  | forceClosed i c commitment hc hopen hfree =>
    refine ⟨h.fresh_insert hc rfl,
      h.channel_insert hc fun first hl => hl.close rfl hopen ⟨_, rfl, hblock⟩, ?_⟩
    intro id channel hchannel hsettled hash
    have hne := h.ne_settled hc (by simp [hopen]) hchannel hsettled
    rw [h.settled id channel hchannel hsettled, byCommitment_insert hfree hne]
  | settled i commitment c hid hc hclosed =>
    exact ⟨h.fresh_insert hc rfl,
      h.channel_insert hc fun first hl =>
        hl.change rfl hclosed rfl (.inr ⟨rfl, _, rfl, hblock⟩), h.settled⟩
  | revoked i old new c hid hc hclosed hfree =>
    refine ⟨h.fresh_insert hc rfl,
      h.channel_insert hc fun first hl => hl.change rfl hclosed rfl (.inl hclosed), ?_⟩
    intro id channel hchannel hsettled hash
    have hne := h.ne_settled hc (by simp [hclosed]) hchannel hsettled
    rw [h.settled id channel hchannel hsettled, byCommitment_replace hid hfree hne]

end

/-! ## The rows after the stage -/

theorem changedAfter_eq_false (h : RecordedUpTo channel rollbackTo) :
    changedAfter rollbackTo channel = false := by
  obtain ⟨-, hclose, hsettle⟩ := h
  rw [changedAfter, Bool.or_eq_false_iff]
  constructor
  · cases hb : channel.closeBlock with
    | none => rfl
    | some b => simpa using hclose b hb
  · cases hb : channel.settlementBlock with
    | none => rfl
    | some b => simpa using hsettle b hb

theorem rollbackChannel_eq_self (h : RecordedUpTo channel rollbackTo) :
    rollbackChannel rollbackTo channel = some channel := by
  rw [rollbackChannel, if_neg (Int.not_lt.mpr h.1), changedAfter_eq_false h]
  rfl

/-- A channel row comes back, unless the channel was force-closed and has changed. -/
theorem ChannelLater.rollbackChannel
    (h : ChannelLater rollbackTo first last) (hrecorded : RecordedUpTo first rollbackTo)
    (hlawful : last.Lawful) (hkept : first.state = .forceClosed → last = first) :
    rollbackChannel rollbackTo last = some first := by
  obtain ⟨hblock, -, hstate⟩ := h
  have hself : last = first → Sync.rollbackChannel rollbackTo last = some first := by
    rintro rfl
    exact rollbackChannel_eq_self hrecorded
  cases hfirst : first.state with
  | «open» =>
    rw [hfirst] at hstate
    obtain ⟨hback, hopen | ⟨b, hclose, hb⟩⟩ := hstate
    · -- an open row has nothing to reset
      refine hself (Eq.trans ?_ hback)
      simp only [FiberChannel.Lawful, hopen] at hlawful
      obtain ⟨h1, h2, h3, h4, h5, h6, h7, h8, h9⟩ := hlawful
      cases last
      simp_all [reopened]
    · have hchanged : changedAfter rollbackTo last = true := by
        simp [changedAfter, hclose, hb]
      have hlost : last.closeBlock.any (· ≤ rollbackTo) = false := by
        simp [hclose, hb]
      rw [Sync.rollbackChannel, if_neg (by rw [hblock]; exact Int.not_lt.mpr hrecorded.1),
        if_pos hchanged, hlost, ← hback]
      rfl
  | forceClosed => exact hself (hkept hfirst)
  | cooperativelyClosed | settled => rw [hfirst] at hstate; exact hself hstate

/-- Every channel that was force-closed still has the row and the commitment row it had. -/
def ForceClosedKept (before after : FiberRows) : Prop :=
  ∀ (id : Hash32) (channel : FiberChannel), before.channels[id]? = some channel →
    channel.state = .forceClosed →
      after.channels[id]? = some channel ∧
        ∀ c : Hash32, before.byCommitment[c]? = some id → after.byCommitment[c]? = some id

theorem mem_removedParticipantKeys {channels : ExtTreeMap Hash32 FiberChannel} {key : Bytes} :
    key ∈ removedParticipantKeys rollbackTo channels ↔
      ∃ (id : Hash32) (channel : FiberChannel), channels[id]? = some channel ∧
        rollbackTo < channel.openBlock ∧
          ∃ p ∈ channel.participants, key = encodeAddrFiberChannelKey p id := by
  simp only [removedParticipantKeys, mem_flatMap, Prod.exists,
    ExtTreeMap.mem_toList_iff_getElem?_eq_some]
  constructor
  · rintro ⟨id, channel, hchannel, hkey⟩
    split at hkey
    · rename_i hblock
      obtain ⟨p, hp, rfl⟩ := mem_map.mp hkey
      exact ⟨id, channel, hchannel, hblock, p, hp, rfl⟩
    · cases hkey
  · rintro ⟨id, channel, hchannel, hblock, p, hp, rfl⟩
    exact ⟨id, channel, hchannel, by rw [if_pos hblock]; exact mem_map_of_mem hp⟩

section Restore

variable (hbefore : before.WellFormed) (hafter : after.WellFormed)
  (hrecorded : ∀ (id : Hash32) (channel : FiberChannel), before.channels[id]? = some channel →
    RecordedUpTo channel rollbackTo)
  (hlater : Later rollbackTo before after)

include hafter hrecorded hlater in
theorem rollback_channels (hkept : ForceClosedKept before after) :
    (rollbackFiber rollbackTo after).channels = before.channels := by
  refine ExtTreeMap.ext_getElem? fun id => ?_
  rw [getElem?_rollback_channels]
  cases hb : before.channels[id]? with
  | none =>
    cases ha : after.channels[id]? with
    | none => rfl
    | some channel => simp [rollbackChannel, hlater.fresh id channel hb ha]
  | some channel =>
    obtain ⟨last, hlast, hl⟩ := hlater.channel id channel hb
    rw [hlast]
    refine hl.rollbackChannel (hrecorded id channel hb) (hafter.lawful id last hlast) ?_
    intro hclosed
    exact Option.some.inj (hlast.symm.trans (hkept id channel hb hclosed).1)

include hbefore hafter hrecorded hlater in
theorem rollback_byCommitment (hkept : ForceClosedKept before after) :
    (rollbackFiber rollbackTo after).byCommitment = before.byCommitment := by
  refine ExtTreeMap.ext_getElem? fun c => Option.ext fun id => ?_
  rw [getElem?_rollback_byCommitment]
  constructor
  · rintro ⟨hrow, hkeep⟩
    obtain ⟨last, hlast, hcommitted⟩ := hafter.target c id hrow
    simp only [keepsCommitment, hlast, Option.any_some, Bool.not_eq_true', Bool.or_eq_false_iff,
      decide_eq_false_iff_not] at hkeep
    obtain ⟨hopened, hchanged⟩ := hkeep
    cases hb : before.channels[id]? with
    | none => exact absurd (hlater.fresh id last hb hlast) hopened
    | some channel =>
      obtain ⟨last', hlast', -, -, hstate⟩ := hlater.channel id channel hb
      obtain rfl := Option.mem_unique hlast hlast'
      cases hfirst : channel.state with
      | «open» =>
        rw [hfirst] at hstate
        obtain ⟨-, hopen | ⟨b, hclose, hb⟩⟩ := hstate
        · simp [hopen, FiberChannelState.committed] at hcommitted
        · simp [changedAfter, hclose, hb] at hchanged
      | cooperativelyClosed =>
        rw [hfirst] at hstate
        simp [hstate, hfirst, FiberChannelState.committed] at hcommitted
      | forceClosed =>
        -- the channel's one row is the one it had
        obtain ⟨hsame, hrows⟩ := hkept id channel hb hfirst
        obtain ⟨c', hc'⟩ := hbefore.mapped id channel hb hfirst
        obtain rfl := hafter.unique id channel hsame hfirst c c' hrow (hrows c' hc')
        exact hc'
      | settled => exact (hlater.settled id channel hb hfirst c).mpr hrow
  · intro hrow
    obtain ⟨channel, hb, hcommitted⟩ := hbefore.target c id hrow
    have hkeep : keepsCommitment rollbackTo (some channel) = true := by
      simp [keepsCommitment, changedAfter_eq_false (hrecorded id channel hb),
        Int.not_lt.mpr (hrecorded id channel hb).1]
    cases hfirst : channel.state with
    | «open» | cooperativelyClosed => simp [hfirst, FiberChannelState.committed] at hcommitted
    | forceClosed =>
      obtain ⟨hsame, hrows⟩ := hkept id channel hb hfirst
      exact ⟨hrows c hrow, by rw [hsame]; exact hkeep⟩
    | settled =>
      refine ⟨(hlater.settled id channel hb hfirst c).mp hrow, ?_⟩
      rw [hlater.settled_row hb hfirst]
      exact hkeep

include hbefore hafter hrecorded hlater in
theorem rollback_addrChannels :
    (rollbackFiber rollbackTo after).addrChannels = before.addrChannels := by
  have hsome : ∀ key : Bytes, ((rollbackFiber rollbackTo after).addrChannels[key]?).isSome
      ↔ (before.addrChannels[key]?).isSome := by
    intro key
    rw [rollbackFiber, getElem?_foldl_erase, hbefore.participants]
    constructor
    · intro h
      split at h
      · cases h
      · rename_i hkey
        obtain ⟨id, last, hlast, p, hp, rfl⟩ := (hafter.participants key).mp h
        cases hb : before.channels[id]? with
        | none =>
          exact absurd (mem_removedParticipantKeys.mpr
            ⟨id, last, hlast, hlater.fresh id last hb hlast, p, hp, rfl⟩) hkey
        | some channel =>
          obtain ⟨last', hlast', -, hsame, -⟩ := hlater.channel id channel hb
          obtain rfl := Option.mem_unique hlast hlast'
          exact ⟨id, channel, hb, p, hsame ▸ hp, rfl⟩
    · rintro ⟨id, channel, hb, p, hp, rfl⟩
      obtain ⟨last, hlast, hblock, hsame, -⟩ := hlater.channel id channel hb
      rw [if_neg]
      · exact (hafter.participants _).mpr ⟨id, last, hlast, p, hsame ▸ hp, rfl⟩
      · intro hremoved
        obtain ⟨id', last', hlast', hopened, p', hp', hkey⟩ := mem_removedParticipantKeys.mp hremoved
        obtain ⟨-, rfl⟩ := Hash32.append_inj hkey
        obtain rfl := Option.mem_unique hlast hlast'
        rw [hblock] at hopened
        exact absurd (hrecorded id channel hb).1 (Int.not_le.mpr hopened)
  have hunit : ∀ x : Option Unit, x = some () ↔ x.isSome := by
    intro x
    cases x <;> simp
  refine ExtTreeMap.ext_getElem? fun key => Option.ext fun _ => ?_
  exact (hunit _).trans ((hsome key).trans (hunit _).symm)

include hbefore hafter hrecorded hlater in
/-- The stage restores the rows exactly when no force-closed channel has changed. -/
theorem rollbackFiber_eq_iff :
    rollbackFiber rollbackTo after = before ↔ ForceClosedKept before after := by
  constructor
  · intro heq id channel hb hclosed
    have hrows : ∀ c : Hash32, before.byCommitment[c]? = some id →
        after.byCommitment[c]? = some id ∧ keepsCommitment rollbackTo after.channels[id]? := by
      intro c hrow
      rw [← heq] at hrow
      exact (getElem?_rollback_byCommitment c id).mp hrow
    refine ⟨?_, fun c hrow => (hrows c hrow).1⟩
    obtain ⟨last, hlast, hblock, -, hstate⟩ := hlater.channel id channel hb
    rw [hclosed] at hstate
    obtain ⟨hclose, hlaststate | ⟨-, b, hsettle, hafterTarget⟩⟩ := hstate
    · -- not settled, so the stage leaves the row alone
      have hlawful := hafter.lawful id last hlast
      simp only [FiberChannel.Lawful, hlaststate] at hlawful
      obtain ⟨hopened, hcloses, -⟩ := hrecorded id channel hb
      have hself : RecordedUpTo last rollbackTo :=
        ⟨hblock ▸ hopened, hclose ▸ hcloses, by simp [hlawful.2.2.1]⟩
      have hrow : (rollbackFiber rollbackTo after).channels[id]? = some last := by
        rw [getElem?_rollback_channels, hlast, Option.bind_some, rollbackChannel_eq_self hself]
      rw [heq, hb] at hrow
      rw [hlast, hrow]
    · -- settled, so the stage deleted the commitment row
      obtain ⟨c, hrow⟩ := hbefore.mapped id channel hb hclosed
      obtain ⟨-, hkeep⟩ := hrows c hrow
      simp [keepsCommitment, hlast, changedAfter, hsettle, hafterTarget] at hkeep
  · intro hkept
    exact FiberRows.ext (rollback_channels hafter hrecorded hlater hkept)
      (rollback_addrChannels hbefore hafter hrecorded hlater)
      (rollback_byCommitment hbefore hafter hrecorded hlater hkept)

end Restore

/-! ## Runs -/

variable {blake2b : Bytes → Hash32}

/-- The invariant rule of a run: rows are well formed throughout, and what each event
preserves the run preserves. -/
theorem fiberRun_invariant (P : FiberRows → Prop)
    (hstep : ∀ tx ∈ txs, ∀ u event v, u.WellFormed → P u → FiberStep tx.eventTx u event v → P v)
    (hwf : before.WellFormed) (hP : P before) (hrun : fiberRun blake2b before txs = .ok after) :
    after.WellFormed ∧ P after := by
  refine foldlM_invariant (fun rows => rows.WellFormed ∧ P rows) ?_ ⟨hwf, hP⟩ hrun
  intro u tx v htx hu hv
  refine foldlM_invariant (fun rows => rows.WellFormed ∧ P rows) ?_ hu hv
  intro x action y _ hx hy
  obtain ⟨-, rfl⟩ | ⟨event, -, haccept⟩ := applyFiberAction_eq_ok hy
  · exact hx
  · have hs := FiberRows.step_eq_some haccept
    exact ⟨hx.1.step hs, hstep tx htx x event y hx.1 hx.2 hs⟩

/-- A transaction settles or revokes a commitment. -/
def Spends (blake2b : Bytes → Hash32) (commitment : Hash32) (tx : FiberTxActions) : Prop :=
  ∃ action ∈ tx.protocolActions, (action.event? blake2b).bind ChannelEvent.spent? = some commitment

/-- No transaction settles or revokes a channel that is force-closed in the rows. -/
def CommitmentsUnspent (blake2b : Bytes → Hash32) (rows : FiberRows) (txs : List FiberTxActions) :
    Prop :=
  ∀ (c id : Hash32) (channel : FiberChannel), rows.byCommitment[c]? = some id →
    rows.channels[id]? = some channel → channel.state = .forceClosed →
      ∀ tx ∈ txs, ¬Spends blake2b c tx

/-- A channel is settled, or has its commitment from one of these transactions. -/
def Changed (hashes : List Hash32) (id : Hash32) (rows : FiberRows) : Prop :=
  ∃ channel : FiberChannel, rows.channels[id]? = some channel ∧ (channel.state = .settled ∨
    channel.state = .forceClosed ∧ ∃ hash ∈ hashes, channel.commitmentTxHash = some hash)

section Spent

variable {hashes : List Hash32} {c id : Hash32} {tx : EventTx} {event : ChannelEvent}

theorem Changed.step (h : Changed hashes id before) (hhash : tx.hash ∈ hashes)
    (hstep : FiberStep tx before event after) : Changed hashes id after := by
  obtain ⟨channel, hchannel, hstate⟩ := h
  cases hstep with
  | opened i terms hnew =>
    refine ⟨channel, (getElem?_insert_of_ne ?_).trans hchannel, hstate⟩
    rintro rfl
    simp [hnew] at hchannel
  | closed i c hc hopen | forceClosed i c _ hc hopen _ =>
    refine ⟨channel, (getElem?_insert_of_ne ?_).trans hchannel, hstate⟩
    rintro rfl
    obtain rfl := Option.mem_unique hc hchannel
    simp [hopen] at hstate
  | settled i _ c _ hc _ =>
    by_cases hid : i = id
    · exact ⟨c.settled tx, by simp [hid], .inl rfl⟩
    · exact ⟨channel, (getElem?_insert_of_ne hid).trans hchannel, hstate⟩
  | revoked i _ new c _ hc hclosed _ =>
    by_cases hid : i = id
    · exact ⟨c.committed tx new, by simp [hid], .inr ⟨hclosed, tx.hash, hhash, rfl⟩⟩
    · exact ⟨channel, (getElem?_insert_of_ne hid).trans hchannel, hstate⟩

/-- A step spends the commitment of a force-closed channel and changes the channel, or it keeps
both. -/
theorem spent_or_kept (hwf : before.WellFormed) (hrow : before.byCommitment[c]? = some id)
    (hchannel : before.channels[id]? = some channel) (hclosed : channel.state = .forceClosed)
    (hhash : tx.hash ∈ hashes) (hstep : FiberStep tx before event after) :
    event.spent? = some c ∧ Changed hashes id after ∨
      event.spent? ≠ some c ∧ after.byCommitment[c]? = some id ∧
        after.channels[id]? = some channel := by
  by_cases hspent : event.spent? = some c
  · refine .inl ⟨hspent, ?_⟩
    cases hstep with
    | opened | closed | forceClosed => cases hspent
    | settled i _ ch hid hc _ =>
      cases hspent
      obtain rfl := Option.mem_unique hid hrow
      exact ⟨ch.settled tx, by simp, .inl rfl⟩
    | revoked i _ new ch hid hc hclosed _ =>
      cases hspent
      obtain rfl := Option.mem_unique hid hrow
      exact ⟨ch.committed tx new, by simp, .inr ⟨hclosed, tx.hash, hhash, rfl⟩⟩
  · obtain ⟨hrow', hchannel'⟩ := hstep.commitment_kept
      (fun c' hc' => hwf.unique id channel hchannel hclosed c' c hc' hrow) hrow
      (channelIn?_eq_some.mpr ⟨hchannel, hclosed⟩) (by rintro rfl; exact hspent rfl)
      (by rintro new rfl; exact hspent rfl)
    exact .inr ⟨hspent, hrow', (channelIn?_eq_some.mp hchannel').1⟩

theorem spent_or_kept_run (hwf : before.WellFormed) (hrow : before.byCommitment[c]? = some id)
    (hchannel : before.channels[id]? = some channel) (hclosed : channel.state = .forceClosed)
    (hrun : fiberRun blake2b before txs = .ok after) :
    (∃ tx ∈ txs, Spends blake2b c tx) ∧ Changed (txs.map (·.txHash)) id after ∨
      (∀ tx ∈ txs, ¬Spends blake2b c tx) ∧ after.byCommitment[c]? = some id ∧
        after.channels[id]? = some channel := by
  let P (rows : FiberRows) : Prop := rows.WellFormed ∧ rows.byCommitment[c]? = some id ∧
    rows.channels[id]? = some channel
  let Q (rows : FiberRows) : Prop := rows.WellFormed ∧ Changed (txs.map (·.txHash)) id rows
  have haction : ∀ tx ∈ txs, ∀ u action v, applyFiberAction blake2b u tx action = .ok v →
      (P u → (action.event? blake2b).bind ChannelEvent.spent? = some c ∧ Q v ∨
        ¬(action.event? blake2b).bind ChannelEvent.spent? = some c ∧ P v) ∧ (Q u → Q v) := by
    intro tx htx u action v hv
    have hhash : tx.eventTx.hash ∈ txs.map (·.txHash) := mem_map_of_mem htx
    obtain ⟨hnone, rfl⟩ | ⟨event, hevent, haccept⟩ := applyFiberAction_eq_ok hv
    · simp [hnone]
    · have hs := FiberRows.step_eq_some haccept
      simp only [hevent, Option.bind_some]
      refine ⟨fun ⟨hu, hr, hc⟩ => ?_, fun ⟨hu, hq⟩ => ⟨hu.step hs, hq.step hhash hs⟩⟩
      exact (spent_or_kept hu hr hc hclosed hhash hs).imp
        (fun h => ⟨h.1, hu.step hs, h.2⟩) (fun h => ⟨h.1, hu.step hs, h.2⟩)
  refine (foldlM_hits (fun u tx v htx hv => ⟨fun hP => ?_, fun hQ => ?_⟩) ⟨hwf, hrow, hchannel⟩
    hrun : _ ∧ Q after ∨ _ ∧ P after).imp (fun h => ⟨h.1, h.2.2⟩) (fun h => ⟨h.1, h.2.2⟩)
  · exact (foldlM_hits (fun u action v _ => haction tx htx u action v) hP hv).imp_right
      fun h => ⟨fun ⟨action, haction, hspent⟩ => h.1 action haction hspent, h.2⟩
  · exact foldlM_invariant Q (fun u action v _ hu hv => (haction tx htx u action v hv).2 hu) hQ hv

/-- A force-closed channel has its commitment from a transaction of the run. -/
theorem commitmentTxHash_mem (hrun : fiberRun blake2b {} txs = .ok after)
    (hchannel : after.channels[id]? = some channel) (hclosed : channel.state = .forceClosed) :
    ∃ hash ∈ txs.map (·.txHash), channel.commitmentTxHash = some hash := by
  refine (fiberRun_invariant (fun rows => ∀ (id : Hash32) (channel : FiberChannel),
    rows.channels[id]? = some channel → channel.state = .forceClosed →
      ∃ hash ∈ txs.map (·.txHash), channel.commitmentTxHash = some hash) ?_ .empty (by simp)
    hrun).2 id channel hchannel hclosed
  intro tx htx u event v _ hu hstep id channel hchannel hclosed
  rcases hstep.forceClosed_cases hchannel hclosed with ⟨hold, -⟩ | ⟨_, -, hhash, -⟩
  · exact hu id channel hold hclosed
  · exact ⟨tx.txHash, mem_map_of_mem htx, hhash⟩

end Spent

/-- Where no transaction hash occurs twice, the force-closed channels are kept exactly when no
later transaction spends their commitments. -/
theorem forceClosedKept_iff {pre post : List FiberTxActions} {kept rows : FiberRows}
    (hnodup : ((pre ++ post).map (·.txHash)).Nodup) (hwf : kept.WellFormed)
    (hkept : fiberRun blake2b {} pre = .ok kept) (hrest : fiberRun blake2b kept post = .ok rows) :
    ForceClosedKept kept rows ↔ CommitmentsUnspent blake2b kept post := by
  constructor
  · intro h c id channel hrow hchannel hclosed
    rcases spent_or_kept_run hwf hrow hchannel hclosed hrest with ⟨-, last, hlast, hstate⟩ | ⟨hun, -⟩
    · obtain rfl := Option.mem_unique hlast (h id channel hchannel hclosed).1
      obtain ⟨hash, hpre, hhash⟩ := commitmentTxHash_mem hkept hchannel hclosed
      rcases hstate with hsettled | ⟨-, hash', hpost, hhash'⟩
      · simp [hclosed] at hsettled
      · cases hhash.symm.trans hhash'
        rw [map_append] at hnodup
        exact absurd rfl ((nodup_append.mp hnodup).2.2 hash hpre hash hpost)
    · exact hun
  · intro h id channel hchannel hclosed
    obtain ⟨c, hrow⟩ := hwf.mapped id channel hchannel hclosed
    rcases spent_or_kept_run hwf hrow hchannel hclosed hrest with ⟨⟨tx, htx, hspent⟩, -⟩ | ⟨-, hrow', hch⟩
    · exact absurd hspent (h c id channel hrow hchannel hclosed tx htx)
    · refine ⟨hch, fun c' hc' => ?_⟩
      rwa [hwf.unique id channel hchannel hclosed c' c hc' hrow]

/-- Transactions in block order are those up to a block followed by those after it. -/
theorem filter_append_filter_of_sorted
    (h : txs.Pairwise fun a b => a.blockNumber ≤ b.blockNumber) (limit : Int) :
    txs.filter (·.blockNumber ≤ limit) ++ txs.filter (limit < ·.blockNumber) = txs := by
  induction h with
  | nil => rfl
  | @cons tx txs hle htxs ih =>
    by_cases htx : tx.blockNumber ≤ limit
    · rw [filter_cons_of_pos (by simpa using htx),
        filter_cons_of_neg (by simpa using htx), cons_append, ih]
    · -- nothing comes back to a block up to the limit
      have hnil : txs.filter (·.blockNumber ≤ limit) = [] := by
        rw [filter_eq_nil_iff]
        intro b hb
        have := hle b hb
        simp only [decide_eq_true_eq]
        omega
      rw [hnil, nil_append] at ih
      rw [filter_cons_of_neg (by simpa using htx),
        filter_cons_of_pos (by simpa using htx), hnil, nil_append, ih]

/-- The rows of a rolled-back run are those of its transactions up to the target, and
accept what those accept, exactly when every channel force-closed at the target has
kept its row and its commitment row. On a chain, where no transaction hash occurs twice,
that is when no transaction after the target settles or revokes such a channel. -/
theorem fiber_rollback_iff (blake2b : Bytes → Hash32) (txs : List FiberTxActions)
    (rollbackTo : Int) (hsorted : txs.Pairwise fun a b => a.blockNumber ≤ b.blockNumber)
    (rows : FiberRows) (hrun : fiberRun blake2b {} txs = .ok rows) :
    ∃ kept, fiberRun blake2b {} (txs.filter (·.blockNumber ≤ rollbackTo)) = .ok kept ∧
      ((rollbackFiber rollbackTo rows = kept ∧
          ∀ next, (fiberRun blake2b kept next).isOk →
            (fiberRun blake2b (rollbackFiber rollbackTo rows) next).isOk) ↔
        ForceClosedKept kept rows) ∧
      ((txs.map (·.txHash)).Nodup → (ForceClosedKept kept rows ↔
        CommitmentsUnspent blake2b kept (txs.filter (rollbackTo < ·.blockNumber)))) := by
  have hsplit := filter_append_filter_of_sorted hsorted rollbackTo
  rw [← hsplit, fiberRun, foldlM_append] at hrun
  obtain ⟨kept, hkept, hrest⟩ := bind_eq_ok.mp hrun
  obtain ⟨hwf, hrecorded⟩ := fiberRun_invariant
    (fun rows => ∀ (id : Hash32) (channel : FiberChannel), rows.channels[id]? = some channel →
      RecordedUpTo channel rollbackTo)
    (fun tx htx u event v _ hu hstep => recordedUpTo_step
      (of_decide_eq_true (mem_filter.mp htx).2) hu hstep)
    .empty (by simp) hkept
  obtain ⟨hwf', hlater⟩ := fiberRun_invariant (Later rollbackTo kept)
    (fun tx htx u event v _ hu hstep => hu.step (of_decide_eq_true (mem_filter.mp htx).2) hstep)
    hwf (.refl hwf) hrest
  refine ⟨kept, hkept, ?_, fun hnodup => ?_⟩
  · rw [← rollbackFiber_eq_iff hwf hwf' hrecorded hlater]
    constructor
    · exact fun h => h.1
    · intro heq
      refine ⟨heq, fun next hnext => ?_⟩
      rw [heq]
      exact hnext
  · exact forceClosedKept_iff (by rwa [hsplit]) hwf hkept hrest

/-! ### A commitment spent after the target -/

/-- A transaction with one event. -/
def eventIn (block : Nat) (event : FiberEvent) (metadata : Metadata) : FiberTxActions where
  txHash := .ofNat block
  blockNumber := block
  timestamp := 1000 * block
  isCellbase := false
  protocolActions := [{ protocol := .fiber, action := .event event, metadata := metadata }]

def commitmentArgs (n : Nat) : Json := hexText ((Hash32.ofNat n).bytes ++ [0, 0, 0, 0])

/-- A channel is opened in block 1 and force-closed in block 2. -/
def closedChannel : List FiberTxActions :=
  let outpoint := encodeChannelOutpoint ⟨.ofNat 1, 0⟩
  [eventIn 1 .channelOpen
      [(.channelOutpoint, outpoint), (.capacity, .str (decimal 500)),
        (.fundingLockArgs, hexText [9]),
        (.participants, .arr ['0' :: 'x' :: hexEncode (Hash32.ofNat 5).bytes])],
    eventIn 2 .forceClose
      [(.channelOutpoint, outpoint), (.commitmentLockArgs, commitmentArgs 7),
        (.commitmentOutputIndex, .num 0)]]

def settlementTx : FiberTxActions := eventIn 3 .settlement [(.commitmentLockArgs, commitmentArgs 7)]

def revocationTx : FiberTxActions :=
  eventIn 3 .commitmentRevocation [(.oldCommitmentLockArgs, commitmentArgs 7),
    (.newCommitmentLockArgs, commitmentArgs 8), (.newCommitmentOutputIndex, .num 0)]

/-- What the two runs below have in common. -/
theorem settlement_refused {txs : List FiberTxActions} (heval : (do
      let rows ← fiberRun Hash32.leading {} txs
      let kept ← fiberRun Hash32.leading {} (txs.filter (·.blockNumber ≤ 2))
      return ((fiberRun Hash32.leading kept [settlementTx]).isOk,
        (fiberRun Hash32.leading (rollbackFiber 2 rows) [settlementTx]).isOk))
      = Except.ok (true, false)) :
    ∃ rows kept, fiberRun Hash32.leading {} txs = .ok rows ∧
      fiberRun Hash32.leading {} (txs.filter (·.blockNumber ≤ 2)) = .ok kept ∧
      rollbackFiber 2 rows ≠ kept ∧ (fiberRun Hash32.leading kept [settlementTx]).isOk = true ∧
      (fiberRun Hash32.leading (rollbackFiber 2 rows) [settlementTx]).isOk = false := by
  obtain ⟨rows, hrows, heval⟩ := bind_eq_ok.mp heval
  obtain ⟨kept, hkept, heval⟩ := bind_eq_ok.mp heval
  obtain ⟨hnext, hback⟩ := Prod.mk.inj (return_eq_ok.mp heval)
  refine ⟨rows, kept, hrows, hkept, ?_, hnext, hback⟩
  intro heq
  rw [heq, hnext] at hback
  cases hback

/-- The channel is settled in block 3. Rolled back to block 2, it is force-closed again but
its commitment row is gone, so the settlement is refused when it comes again. -/
theorem rollback_deletes_commitment_row :
    ∃ rows kept, fiberRun Hash32.leading {} (closedChannel ++ [settlementTx]) = .ok rows ∧
      fiberRun Hash32.leading {}
        ((closedChannel ++ [settlementTx]).filter (·.blockNumber ≤ 2)) = .ok kept ∧
      rollbackFiber 2 rows ≠ kept ∧ (fiberRun Hash32.leading kept [settlementTx]).isOk = true ∧
      (fiberRun Hash32.leading (rollbackFiber 2 rows) [settlementTx]).isOk = false :=
  settlement_refused (by decide +kernel)

/-- The commitment is revoked in block 3. Rolled back to block 2, the rows are still those
of the revocation, and the settlement of the commitment of block 2 is refused. -/
theorem rollback_keeps_revoked_commitment :
    ∃ rows kept, fiberRun Hash32.leading {} (closedChannel ++ [revocationTx]) = .ok rows ∧
      fiberRun Hash32.leading {}
        ((closedChannel ++ [revocationTx]).filter (·.blockNumber ≤ 2)) = .ok kept ∧
      rollbackFiber 2 rows ≠ kept ∧ (fiberRun Hash32.leading kept [settlementTx]).isOk = true ∧
      (fiberRun Hash32.leading (rollbackFiber 2 rows) [settlementTx]).isOk = false :=
  settlement_refused (by decide +kernel)

/-- The settled channel, rolled back to the block that opened it. -/
theorem fiber_rollback_iff_before_close :
    (closedChannel ++ [settlementTx]).Pairwise (fun a b => a.blockNumber ≤ b.blockNumber) ∧
      ∃ rows kept, fiberRun Hash32.leading {} (closedChannel ++ [settlementTx]) = .ok rows ∧
        fiberRun Hash32.leading {}
          ((closedChannel ++ [settlementTx]).filter (·.blockNumber ≤ 1)) = .ok kept ∧
        rollbackFiber 1 rows = kept := by
  have hsorted : (closedChannel ++ [settlementTx]).Pairwise
      (fun a b => a.blockNumber ≤ b.blockNumber) := by decide +kernel
  have heval : (do
      let rows ← fiberRun Hash32.leading {} (closedChannel ++ [settlementTx])
      let kept ← fiberRun Hash32.leading {}
        ((closedChannel ++ [settlementTx]).filter (·.blockNumber ≤ 1))
      return kept.byCommitment.isEmpty) = Except.ok true := by decide +kernel
  obtain ⟨rows, hrows, heval⟩ := bind_eq_ok.mp heval
  obtain ⟨kept, hkept, hempty⟩ := bind_eq_ok.mp heval
  obtain ⟨kept', hkept', hiff, hevents⟩ :=
    fiber_rollback_iff Hash32.leading (closedChannel ++ [settlementTx]) 1 hsorted rows hrows
  cases hkept.symm.trans hkept'
  refine ⟨hsorted, rows, kept, hrows, hkept, (hiff.mpr ((hevents (by decide +kernel)).mpr ?_)).1⟩
  intro c id channel hrow
  simp [ExtTreeMap.isEmpty_iff.mp (return_eq_ok.mp hempty)] at hrow

end Ckbadger.Sync
