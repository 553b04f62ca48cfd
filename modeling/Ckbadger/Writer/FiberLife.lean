/-
Ckbadger.Writer.FiberLife — what an accepted event changes, and what holds of all rows
the writer can reach.

`FiberStep` lists the five ways rows change. A channel is opened once, closed once, and
only a force-closed channel is settled; a commitment hash is given to a channel only
while no other channel has it. From this, over any run from the empty rows
(`FiberRows.WellFormed`): a channel's fields are those its state allows, a commitment
row always leads to a force-closed or settled channel, every force-closed channel has
exactly one, and the participant rows are those of the channels.
-/
import Ckbadger.Writer.FiberEvents

namespace Ckbadger.Writer

open Lib Std FiberChannelState

variable {rows' rows : FiberRows} {tx : EventTx} {event : ChannelEvent} {channel : FiberChannel}
  {id : Hash32}

/-! ## The five steps -/

/-- The participant rows of one more channel. -/
def addParticipants (rows : ExtTreeMap Bytes Unit) (id : Hash32) (participants : List Hash32) :
    ExtTreeMap Bytes Unit :=
  participants.foldl (fun rows p => rows.insert (encodeAddrFiberChannelKey p id) ()) rows

inductive FiberStep (tx : EventTx) (rows : FiberRows) : ChannelEvent → FiberRows → Prop where
  | opened (id : Hash32) (terms : ChannelTerms) (hnew : rows.channels[id]? = none) :
      FiberStep tx rows (.channelOpen id terms)
        { channels := rows.channels.insert id (.opened tx terms)
          addrChannels := addParticipants rows.addrChannels id terms.participants
          byCommitment := rows.byCommitment }
  | closed (id : Hash32) (channel : FiberChannel) (hchannel : rows.channels[id]? = some channel)
      (hopen : channel.state = .open) :
      FiberStep tx rows (.channelClose id)
        { rows with channels := rows.channels.insert id (channel.closed tx .cooperativelyClosed) }
  | forceClosed (id : Hash32) (channel : FiberChannel) (commitment : Commitment)
      (hchannel : rows.channels[id]? = some channel) (hopen : channel.state = .open)
      (hfree : CommitmentFree rows commitment.hash id) :
      FiberStep tx rows (.forceClose id commitment)
        { rows with
          channels := rows.channels.insert id
            ((channel.closed tx .forceClosed).committed tx commitment)
          byCommitment := rows.byCommitment.insert commitment.hash id }
  | settled (id commitment : Hash32) (channel : FiberChannel)
      (hid : rows.byCommitment[commitment]? = some id)
      (hchannel : rows.channels[id]? = some channel) (hclosed : channel.state = .forceClosed) :
      FiberStep tx rows (.settlement commitment)
        { rows with channels := rows.channels.insert id (channel.settled tx) }
  | revoked (id old : Hash32) (new : Commitment) (channel : FiberChannel)
      (hid : rows.byCommitment[old]? = some id)
      (hchannel : rows.channels[id]? = some channel) (hclosed : channel.state = .forceClosed)
      (hfree : CommitmentFree rows new.hash id) :
      FiberStep tx rows (.commitmentRevocation old new)
        { rows with
          channels := rows.channels.insert id (channel.committed tx new)
          byCommitment := (rows.byCommitment.erase old).insert new.hash id }

theorem foldl_putAddrChannel (rows : FiberRows) (id : Hash32) (participants : List Hash32) :
    (participants.map (FiberWrite.putAddrChannel · id)).foldl FiberRows.write rows
      = { rows with addrChannels := addParticipants rows.addrChannels id participants } := by
  induction participants generalizing rows with
  | nil => rfl
  | cons p participants ih => exact ih _

theorem FiberRows.step_eq_some (h : rows.step tx event = some rows') :
    FiberStep tx rows event rows' := by
  obtain ⟨writes, hwrites, rfl⟩ := Option.map_eq_some_iff.mp h
  cases event with
  | channelOpen id terms =>
    obtain ⟨⟨hnew, -⟩, rfl⟩ := ChannelEvent.writes_eq_some.mp hwrites
    rw [List.foldl_cons, foldl_putAddrChannel]
    exact .opened id terms hnew
  | channelClose id =>
    obtain ⟨channel, hchannel, rfl⟩ := ChannelEvent.writes_eq_some.mp hwrites
    obtain ⟨hget, hopen⟩ := channelIn?_eq_some.mp hchannel
    exact .closed id channel hget hopen
  | forceClose id commitment =>
    obtain ⟨channel, hchannel, hfree, rfl⟩ := ChannelEvent.writes_eq_some.mp hwrites
    obtain ⟨hget, hopen⟩ := channelIn?_eq_some.mp hchannel
    exact .forceClosed id channel commitment hget hopen hfree
  | settlement commitment =>
    obtain ⟨id, hid, channel, hchannel, rfl⟩ := ChannelEvent.writes_eq_some.mp hwrites
    obtain ⟨hget, hclosed⟩ := channelIn?_eq_some.mp hchannel
    exact .settled id commitment channel hid hget hclosed
  | commitmentRevocation old new =>
    obtain ⟨id, hid, channel, hchannel, hfree, rfl⟩ := ChannelEvent.writes_eq_some.mp hwrites
    obtain ⟨hget, hclosed⟩ := channelIn?_eq_some.mp hchannel
    exact .revoked id old new channel hid hget hclosed hfree

/-- A commitment row that no other channel had says nothing about the others. -/
theorem byCommitment_insert {rows : ExtTreeMap Hash32 Hash32} {hash i id : Hash32}
    (hfree : ∀ j, rows[hash]? = some j → j = i) (hne : i ≠ id) (c : Hash32) :
    (rows.insert hash i)[c]? = some id ↔ rows[c]? = some id := by
  rw [getElem?_insert_eq_some]
  constructor
  · rintro (⟨-, rfl⟩ | ⟨-, hrow⟩)
    · exact absurd rfl hne
    · exact hrow
  · intro hrow
    refine .inr ⟨?_, hrow⟩
    rintro rfl
    exact hne (hfree id hrow).symm

/-- Neither does one that replaces a row of the same channel. -/
theorem byCommitment_replace {rows : ExtTreeMap Hash32 Hash32} {old new i id : Hash32}
    (hold : rows[old]? = some i) (hfree : ∀ j, rows[new]? = some j → j = i) (hne : i ≠ id)
    (c : Hash32) : ((rows.erase old).insert new i)[c]? = some id ↔ rows[c]? = some id := by
  rw [byCommitment_insert ?_ hne, getElem?_erase_ite]
  · split
    · rename_i hhash
      subst hhash
      simpa [hold] using hne
    · rfl
  · intro j hrow
    rw [getElem?_erase_ite] at hrow
    split at hrow
    · cases hrow
    · exact hfree j hrow

section Step

variable (h : FiberStep tx rows event rows')

include h

/-- A force-closed channel after a step was so before and has kept its commitment rows, or
the step gave it a commitment. -/
theorem FiberStep.forceClosed_cases (hchannel : rows'.channels[id]? = some channel)
    (hclosed : channel.state = .forceClosed) :
    (rows.channels[id]? = some channel ∧
        ∀ c : Hash32, rows.byCommitment[c]? = some id → rows'.byCommitment[c]? = some id) ∨
      ∃ commitment, event.given? = some commitment ∧
        channel.commitmentTxHash = some tx.hash ∧
        channel.commitmentOutputIndex = some commitment.index ∧
        rows'.byCommitment[commitment.hash]? = some id := by
  cases h with
  | opened | closed | settled =>
    obtain ⟨-, rfl⟩ | ⟨-, hchannel⟩ := getElem?_insert_eq_some.mp hchannel
    · cases hclosed
    · exact .inl ⟨hchannel, fun c hrow => hrow⟩
  | forceClosed i c commitment hc hopen hfree =>
    obtain ⟨rfl, rfl⟩ | ⟨hid, hchannel⟩ := getElem?_insert_eq_some.mp hchannel
    · exact .inr ⟨commitment, rfl, rfl, rfl, by simp⟩
    · exact .inl ⟨hchannel, fun c hrow => (byCommitment_insert hfree hid c).mpr hrow⟩
  | revoked i old new c hold hc hforce hfree =>
    obtain ⟨rfl, rfl⟩ | ⟨hid, hchannel⟩ := getElem?_insert_eq_some.mp hchannel
    · exact .inr ⟨new, rfl, rfl, rfl, by simp⟩
    · exact .inl ⟨hchannel, fun c hrow => (byCommitment_replace hold hfree hid c).mpr hrow⟩

theorem FiberStep.channel_cases (hchannel : rows'.channels[id]? = some channel) :
    (∃ c, rows.channels[id]? = some c) ∨ ∃ terms, event = .channelOpen id terms := by
  cases h with
  | opened i terms hnew =>
    obtain ⟨rfl, -⟩ | ⟨-, hchannel⟩ := getElem?_insert_eq_some.mp hchannel
    · exact .inr ⟨terms, rfl⟩
    · exact .inl ⟨channel, hchannel⟩
  | closed i c hc _ | forceClosed i c _ hc _ _ | settled i _ c _ hc _ | revoked i _ _ c _ hc _ _ =>
    obtain ⟨rfl, -⟩ | ⟨-, hchannel⟩ := getElem?_insert_eq_some.mp hchannel
    · exact .inl ⟨c, hc⟩
    · exact .inl ⟨channel, hchannel⟩

/-- An open channel stays open until its funding cell is spent. -/
theorem FiberStep.open_kept (hchannel : channelIn? rows id .open = some channel)
    (hclose : event ≠ .channelClose id) (hforce : ∀ c, event ≠ .forceClose id c) :
    channelIn? rows' id .open = some channel := by
  obtain ⟨hget, hopen⟩ := channelIn?_eq_some.mp hchannel
  have hget : rows.channels[id]? = some channel := hget
  refine channelIn?_eq_some.mpr ⟨?_, hopen⟩
  -- the channel the step writes is another one
  cases h with
  | opened i terms hnew =>
    refine (getElem?_insert_of_ne ?_).trans hget
    rintro rfl
    simp [hnew] at hget
  | closed i c hc _ =>
    refine (getElem?_insert_of_ne ?_).trans hget
    rintro rfl
    exact hclose rfl
  | forceClosed i c commitment hc _ _ =>
    refine (getElem?_insert_of_ne ?_).trans hget
    rintro rfl
    exact hforce commitment rfl
  | settled i _ c _ hc hclosed | revoked i _ _ c _ hc hclosed _ =>
    refine (getElem?_insert_of_ne ?_).trans hget
    rintro rfl
    obtain rfl := Option.mem_unique hc hget
    simp [hopen] at hclosed

/-- A force-closed channel keeps its commitment row until the commitment is spent. -/
theorem FiberStep.commitment_kept {c id : Hash32}
    (hunique : ∀ c' : Hash32, rows.byCommitment[c']? = some id → c' = c)
    (hrow : rows.byCommitment[c]? = some id)
    (hchannel : channelIn? rows id .forceClosed = some channel) (hsettle : event ≠ .settlement c)
    (hrevoke : ∀ new, event ≠ .commitmentRevocation c new) :
    rows'.byCommitment[c]? = some id ∧ channelIn? rows' id .forceClosed = some channel := by
  obtain ⟨hget, hstate⟩ := channelIn?_eq_some.mp hchannel
  have hget : rows.channels[id]? = some channel := hget
  suffices hrows : rows'.byCommitment[c]? = some id ∧ rows'.channels[id]? = some channel from
    ⟨hrows.1, channelIn?_eq_some.mpr ⟨hrows.2, hstate⟩⟩
  cases h with
  | opened i terms hnew =>
    refine ⟨hrow, (getElem?_insert_of_ne ?_).trans hget⟩
    rintro rfl
    simp [hnew] at hget
  | closed i ch hc hopen =>
    refine ⟨hrow, (getElem?_insert_of_ne ?_).trans hget⟩
    rintro rfl
    obtain rfl := Option.mem_unique hc hget
    simp [hopen] at hstate
  | forceClosed i ch commitment hc hopen hfree =>
    have hne : i ≠ id := by
      rintro rfl
      obtain rfl := Option.mem_unique hc hget
      simp [hopen] at hstate
    exact ⟨(byCommitment_insert hfree hne c).mpr hrow, (getElem?_insert_of_ne hne).trans hget⟩
  | settled i commitment ch hid hc hclosed =>
    refine ⟨hrow, (getElem?_insert_of_ne ?_).trans hget⟩
    rintro rfl
    exact hsettle (by rw [hunique commitment hid])
  | revoked i old new ch hold hc hclosed hfree =>
    have hne : i ≠ id := by
      rintro rfl
      exact hrevoke new (by rw [hunique old hold])
    exact ⟨(byCommitment_replace hold hfree hne c).mpr hrow, (getElem?_insert_of_ne hne).trans hget⟩

end Step

theorem FiberStep.opened_channelIn? {terms : ChannelTerms}
    (h : FiberStep tx rows (.channelOpen id terms) rows') :
    channelIn? rows' id .open = some (.opened tx terms) := by
  cases h with
  | opened _ _ _ => exact channelIn?_eq_some.mpr ⟨ExtTreeMap.getElem?_insert_self, rfl⟩

/-- The commitment a step gives leads to a force-closed channel. -/
theorem FiberStep.committed_channelIn? {commitment : Commitment} (h : FiberStep tx rows event rows')
    (hgiven : event.given? = some commitment) :
    ∃ id channel, rows'.byCommitment[commitment.hash]? = some id ∧
      channelIn? rows' id .forceClosed = some channel := by
  cases h with
  | opened | closed | settled => cases hgiven
  | forceClosed i channel _ hc hopen hfree =>
    obtain rfl := Option.some.inj hgiven
    exact ⟨i, _, by simp, channelIn?_eq_some.mpr ⟨ExtTreeMap.getElem?_insert_self, rfl⟩⟩
  | revoked i _ _ channel hold hc hclosed hfree =>
    obtain rfl := Option.some.inj hgiven
    exact ⟨i, _, by simp, channelIn?_eq_some.mpr ⟨ExtTreeMap.getElem?_insert_self, hclosed⟩⟩

/-! ## Reachable rows -/

/-- A channel's fields are those its state allows. -/
def FiberChannel.Lawful (channel : FiberChannel) : Prop :=
  match channel.state with
  | .open => channel.closeTxHash = none ∧ channel.closeBlock = none ∧ channel.closeTimestamp = none ∧
      channel.commitmentTxHash = none ∧ channel.commitmentOutputIndex = none ∧
      channel.delayEpoch = none ∧ channel.settlementTxHash = none ∧
      channel.settlementBlock = none ∧ channel.settlementTimestamp = none
  | .cooperativelyClosed => channel.closeBlock.isSome ∧ channel.settlementBlock = none
  | .forceClosed => channel.closeBlock.isSome ∧ channel.settlementTxHash = none ∧
      channel.settlementBlock = none ∧ channel.settlementTimestamp = none
  | .settled => channel.closeBlock.isSome ∧ channel.settlementBlock.isSome

/-- The state of a channel whose funds went to a commitment cell. -/
def FiberChannelState.committed : FiberChannelState → Bool
  | .forceClosed | .settled => true
  | .open | .cooperativelyClosed => false

structure FiberRows.WellFormed (rows : FiberRows) : Prop where
  lawful : ∀ (id : Hash32) (channel : FiberChannel), rows.channels[id]? = some channel →
    channel.Lawful
  /-- A commitment row leads to a channel that was force-closed. -/
  target : ∀ commitment id : Hash32, rows.byCommitment[commitment]? = some id →
    ∃ channel : FiberChannel, rows.channels[id]? = some channel ∧ channel.state.committed
  /-- A force-closed channel has a commitment row. -/
  mapped : ∀ (id : Hash32) (channel : FiberChannel), rows.channels[id]? = some channel →
    channel.state = .forceClosed → ∃ commitment : Hash32, rows.byCommitment[commitment]? = some id
  /-- It has no other. -/
  unique : ∀ (id : Hash32) (channel : FiberChannel), rows.channels[id]? = some channel →
    channel.state = .forceClosed → ∀ c c' : Hash32, rows.byCommitment[c]? = some id →
      rows.byCommitment[c']? = some id → c = c'
  participants : ∀ key : Bytes, (rows.addrChannels[key]?).isSome ↔
    ∃ (id : Hash32) (channel : FiberChannel), rows.channels[id]? = some channel ∧
      ∃ p ∈ channel.participants, key = encodeAddrFiberChannelKey p id

theorem isSome_addParticipants {rows : ExtTreeMap Bytes Unit} {participants : List Hash32}
    {key : Bytes} :
    ((addParticipants rows id participants)[key]?).isSome ↔
      (rows[key]?).isSome ∨ ∃ p ∈ participants, key = encodeAddrFiberChannelKey p id := by
  induction participants generalizing rows with
  | nil => simp [addParticipants]
  | cons p participants ih =>
    rw [addParticipants, List.foldl_cons]
    rw [show participants.foldl _ _ = addParticipants _ id participants from rfl, ih]
    by_cases hkey : encodeAddrFiberChannelKey p id = key
    · simp [hkey]
    · simp [hkey, Ne.symm hkey]

namespace FiberRows.WellFormed

theorem empty : WellFormed {} where
  lawful := by simp
  target := by simp
  mapped := by simp
  unique := by simp
  participants := by simp

variable {commitment i : Hash32} {channel' : FiberChannel}

section

variable (h : rows.WellFormed)

include h

/-- Replacing a channel's row by one with the same participants keeps the participant
rows right. -/
theorem participants_insert (hchannel : rows.channels[id]? = some channel)
    (hsame : channel'.participants = channel.participants) (key : Bytes) :
    (rows.addrChannels[key]?).isSome ↔
      ∃ i c, (rows.channels.insert id channel')[i]? = some c ∧
        ∃ p ∈ c.participants, key = encodeAddrFiberChannelKey p i := by
  rw [h.participants]
  constructor
  · rintro ⟨i, c, hc, p, hp, hkey⟩
    by_cases hid : id = i
    · subst hid
      obtain rfl := Option.mem_unique hchannel hc
      exact ⟨id, channel', by simp, p, hsame ▸ hp, hkey⟩
    · exact ⟨i, c, by simp [getElem?_insert_ite, hid, hc], p, hp, hkey⟩
  · rintro ⟨i, c, hc, p, hp, hkey⟩
    obtain ⟨rfl, rfl⟩ | ⟨-, hc⟩ := getElem?_insert_eq_some.mp hc
    · exact ⟨id, channel, hchannel, p, hsame ▸ hp, hkey⟩
    · exact ⟨i, c, hc, p, hp, hkey⟩

/-- No commitment row leads to a channel that was not force-closed. -/
theorem ne_of_target (hchannel : rows.channels[id]? = some channel)
    (hstate : channel.state.committed = false)
    (hrow : rows.byCommitment[commitment]? = some i) : id ≠ i := by
  rintro rfl
  obtain ⟨c, hc, hcommitted⟩ := h.target commitment id hrow
  obtain rfl := Option.mem_unique hchannel hc
  rw [hstate] at hcommitted
  cases hcommitted

theorem target_insert (hcommitted : channel'.state.committed)
    (hrow : rows.byCommitment[commitment]? = some i) :
    ∃ c, (rows.channels.insert id channel')[i]? = some c ∧ c.state.committed := by
  by_cases hid : id = i
  · exact ⟨channel', by simp [hid], hcommitted⟩
  · obtain ⟨c, hc, hstate⟩ := h.target commitment i hrow
    exact ⟨c, by simp [getElem?_insert_ite, hid, hc], hstate⟩

theorem lawful_insert (hlawful : channel'.Lawful) (i : Hash32)
    (c : FiberChannel) (hc : (rows.channels.insert id channel')[i]? = some c) : c.Lawful := by
  obtain ⟨-, rfl⟩ | ⟨-, hc⟩ := getElem?_insert_eq_some.mp hc
  · exact hlawful
  · exact h.lawful i c hc

omit h in
/-- A row that is not force-closed says nothing about the commitment rows. -/
theorem forceClosed_of_insert (hstate : channel'.state ≠ .forceClosed)
    {c : FiberChannel} (hc : (rows.channels.insert id channel')[i]? = some c)
    (hclosed : c.state = .forceClosed) : rows.channels[i]? = some c := by
  obtain ⟨-, rfl⟩ | ⟨-, hc⟩ := getElem?_insert_eq_some.mp hc
  · exact absurd hclosed hstate
  · exact hc

theorem opened (terms : ChannelTerms) (hnew : rows.channels[id]? = none) :
    WellFormed
      { channels := rows.channels.insert id (.opened tx terms)
        addrChannels := addParticipants rows.addrChannels id terms.participants
        byCommitment := rows.byCommitment } := by
  have hkeep : ∀ {i : Hash32} {c : FiberChannel}, rows.channels[i]? = some c →
      (rows.channels.insert id (.opened tx terms))[i]? = some c := by
    intro i c hc
    rw [getElem?_insert_of_ne, hc]
    rintro rfl
    simp [hnew] at hc
  have hopen : (FiberChannel.opened tx terms).state ≠ .forceClosed := by simp [FiberChannel.opened]
  constructor
  · exact h.lawful_insert (by simp [FiberChannel.Lawful, FiberChannel.opened])
  · intro commitment i hrow
    obtain ⟨c, hc, hstate⟩ := h.target commitment i hrow
    exact ⟨c, hkeep hc, hstate⟩
  · exact fun i c hc hstate => h.mapped i c (forceClosed_of_insert hopen hc hstate) hstate
  · exact fun i c hc hstate => h.unique i c (forceClosed_of_insert hopen hc hstate) hstate
  · intro key
    rw [isSome_addParticipants, h.participants]
    constructor
    · rintro (⟨i, c, hc, hp⟩ | hp)
      · exact ⟨i, c, hkeep hc, hp⟩
      · exact ⟨id, .opened tx terms, by simp, hp⟩
    · rintro ⟨i, c, hc, hp⟩
      obtain ⟨rfl, rfl⟩ | ⟨-, hc⟩ := getElem?_insert_eq_some.mp hc
      · exact .inr hp
      · exact .inl ⟨i, c, hc, hp⟩

end

section Channel

variable (h : rows.WellFormed) (hchannel : rows.channels[id]? = some channel)

include h hchannel

/-- Replacing a channel's row by one that is not force-closed. -/
theorem replace (hlawful : channel'.Lawful) (hstate : channel'.state ≠ .forceClosed)
    (hsame : channel'.participants = channel.participants)
    (htarget : ∀ commitment i : Hash32, rows.byCommitment[commitment]? = some i →
      ∃ c, (rows.channels.insert id channel')[i]? = some c ∧ c.state.committed) :
    WellFormed { rows with channels := rows.channels.insert id channel' } where
  lawful := h.lawful_insert hlawful
  target := htarget
  mapped i c hc hclosed := h.mapped i c (forceClosed_of_insert hstate hc hclosed) hclosed
  unique i c hc hclosed := h.unique i c (forceClosed_of_insert hstate hc hclosed) hclosed
  participants := h.participants_insert hchannel hsame

theorem closed (hopen : channel.state = .open) :
    WellFormed
      { rows with channels := rows.channels.insert id (channel.closed tx .cooperativelyClosed) } := by
  have hlawful := h.lawful id channel hchannel
  have hnot : channel.state.committed = false := by simp [hopen, committed]
  simp only [FiberChannel.Lawful, hopen] at hlawful
  refine h.replace hchannel ?_ (by simp [FiberChannel.closed]) rfl ?_
  · simp [FiberChannel.Lawful, FiberChannel.closed, hlawful]
  · intro commitment i hrow
    obtain ⟨c, hc, hstate⟩ := h.target commitment i hrow
    exact ⟨c, by simp [getElem?_insert_ite, h.ne_of_target hchannel hnot hrow, hc], hstate⟩

theorem settled (hclosed : channel.state = .forceClosed) :
    WellFormed { rows with channels := rows.channels.insert id (channel.settled tx) } := by
  have hlawful := h.lawful id channel hchannel
  simp only [FiberChannel.Lawful, hclosed] at hlawful
  refine h.replace hchannel ?_ (by simp [FiberChannel.settled]) rfl
    fun commitment i hrow => h.target_insert rfl hrow
  simp [FiberChannel.Lawful, FiberChannel.settled, hlawful]

/-- Giving a free commitment hash to a channel whose other commitment rows are gone. A
force close takes it with no rows before, a revocation with the old one taken away. -/
theorem commit (channel' : FiberChannel) (hlawful : channel'.Lawful)
    (hclosed : channel'.state = .forceClosed)
    (hsame : channel'.participants = channel.participants)
    (hfree : CommitmentFree rows commitment id) {rest : ExtTreeMap Hash32 Hash32}
    (hrest : ∀ c i : Hash32, rest[c]? = some i ↔ rows.byCommitment[c]? = some i ∧ i ≠ id) :
    WellFormed
      { rows with
        channels := rows.channels.insert id channel'
        byCommitment := rest.insert commitment id } := by
  have hrow : ∀ {c i : Hash32}, (rest.insert commitment id)[c]? = some i →
      c = commitment ∧ i = id ∨ rows.byCommitment[c]? = some i ∧ i ≠ id := by
    intro c i hc
    obtain ⟨rfl, rfl⟩ | ⟨-, hc⟩ := getElem?_insert_eq_some.mp hc
    · exact .inl ⟨rfl, rfl⟩
    · exact .inr ((hrest c i).mp hc)
  constructor
  · exact h.lawful_insert hlawful
  · intro c i hc
    obtain ⟨-, rfl⟩ | ⟨hold, -⟩ := hrow hc
    · exact ⟨channel', by simp, by simp [hclosed, committed]⟩
    · exact h.target_insert (by simp [hclosed, committed]) hold
  · intro i c hc hstate
    obtain ⟨rfl, -⟩ | ⟨hid, hc⟩ := getElem?_insert_eq_some.mp hc
    · exact ⟨commitment, by simp⟩
    · obtain ⟨hash, hold⟩ := h.mapped i c hc hstate
      refine ⟨hash, ?_⟩
      rw [getElem?_insert_of_ne, (hrest hash i).mpr ⟨hold, Ne.symm hid⟩]
      rintro rfl
      exact hid (hfree i hold).symm
  · intro i c hc hstate a b ha hb
    rw [getElem?_insert_ite] at hc
    obtain ⟨rfl, rfl⟩ | ⟨hold, hne⟩ := hrow ha <;> obtain ⟨rfl, hi⟩ | ⟨hold', hne'⟩ := hrow hb
    · rfl
    · exact absurd rfl hne'
    · exact absurd hi hne
    · rw [if_neg (Ne.symm hne)] at hc
      exact h.unique i c hc hstate a b hold hold'
  · exact h.participants_insert hchannel hsame

theorem forceClosed (hopen : channel.state = .open) {commitment : Commitment}
    (hfree : CommitmentFree rows commitment.hash id) :
    WellFormed
      { rows with
        channels := rows.channels.insert id ((channel.closed tx .forceClosed).committed tx commitment)
        byCommitment := rows.byCommitment.insert commitment.hash id } := by
  have hlawful := h.lawful id channel hchannel
  have hnot : channel.state.committed = false := by simp [hopen, committed]
  simp only [FiberChannel.Lawful, hopen] at hlawful
  refine h.commit hchannel ((channel.closed tx .forceClosed).committed tx commitment) ?_ rfl rfl
    hfree ?_
  · simp [FiberChannel.Lawful, FiberChannel.closed, FiberChannel.committed, hlawful]
  · intro c i
    exact ⟨fun hrow => ⟨hrow, Ne.symm (h.ne_of_target hchannel hnot hrow)⟩, fun hrow => hrow.1⟩

theorem revoked {old : Hash32} (hid : rows.byCommitment[old]? = some id)
    (hclosed : channel.state = .forceClosed) {new : Commitment}
    (hfree : CommitmentFree rows new.hash id) :
    WellFormed
      { rows with
        channels := rows.channels.insert id (channel.committed tx new)
        byCommitment := (rows.byCommitment.erase old).insert new.hash id } := by
  have hlawful := h.lawful id channel hchannel
  simp only [FiberChannel.Lawful, hclosed] at hlawful
  refine h.commit hchannel (channel.committed tx new) ?_ hclosed rfl hfree ?_
  · simp [FiberChannel.Lawful, FiberChannel.committed, hclosed, hlawful]
  · -- the old row was the channel's only one
    intro c i
    rw [getElem?_erase_ite]
    constructor
    · intro hrow
      split at hrow
      · cases hrow
      · rename_i hne
        refine ⟨hrow, ?_⟩
        rintro rfl
        exact hne (h.unique i channel hchannel hclosed old c hid hrow)
    · rintro ⟨hrow, hne⟩
      rw [if_neg, hrow]
      rintro rfl
      exact hne (Option.mem_unique hrow hid)

end Channel

theorem step (h : rows.WellFormed) (hstep : FiberStep tx rows event rows') : rows'.WellFormed := by
  cases hstep with
  | opened i terms hnew => exact h.opened terms hnew
  | closed i c hc hopen => exact h.closed hc hopen
  | forceClosed i c commitment hc hopen hfree => exact h.forceClosed hc hopen hfree
  | settled i commitment c hid hc hclosed => exact h.settled hc hclosed
  | revoked i old new c hid hc hclosed hfree => exact h.revoked hc hid hclosed hfree

end FiberRows.WellFormed

end Ckbadger.Writer
