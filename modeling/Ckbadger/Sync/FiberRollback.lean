/-
Ckbadger.Sync.FiberRollback — the Fiber stage of a chain rollback.

The Fiber column families have no undo log. The stage looks at the blocks recorded in
each channel row: a channel opened after the target is deleted with its participant
rows, one closed or settled after it is reset, and the commitment rows of all of these
are deleted. The commitment sweep reads the channel rows as they were before the reset.
Row keys are hashes and row values are typed here, so the stage's branches for keys of
another length and for rows that do not deserialize have no counterpart.
-/
import Ckbadger.Writer.Fiber

namespace Ckbadger.Sync

open Lib Writer

variable (rollbackTo : Int)

/-- Closed or settled after the target. -/
def changedAfter (channel : FiberChannel) : Bool :=
  channel.closeBlock.any (rollbackTo < ·) || channel.settlementBlock.any (rollbackTo < ·)

/-- The reset of a channel whose close does not survive. -/
def reopened (channel : FiberChannel) : FiberChannel :=
  { channel with
    state := .open
    closeTxHash := none
    closeBlock := none
    closeTimestamp := none
    commitmentTxHash := none
    commitmentOutputIndex := none
    delayEpoch := none
    settlementTxHash := none
    settlementBlock := none
    settlementTimestamp := none }

/-- The reset of a channel whose close survives. -/
def unsettled (channel : FiberChannel) : FiberChannel :=
  { channel with
    state := .forceClosed
    settlementTxHash := none
    settlementBlock := none
    settlementTimestamp := none }

/-- What is left of a channel row. -/
def rollbackChannel (channel : FiberChannel) : Option FiberChannel :=
  if rollbackTo < channel.openBlock then none
  else if changedAfter rollbackTo channel then
    if channel.closeBlock.any (· ≤ rollbackTo) then some (unsettled channel)
    else some (reopened channel)
  else some channel

/-- The participant rows of the channels that are deleted. -/
def removedParticipantKeys (channels : Std.ExtTreeMap Hash32 FiberChannel) : List Bytes :=
  channels.toList.flatMap fun entry =>
    if rollbackTo < entry.2.openBlock then
      entry.2.participants.map (encodeAddrFiberChannelKey · entry.1)
    else []

/-- Whether a commitment row is kept, by the channel it leads to. -/
def keepsCommitment (channel : Option FiberChannel) : Bool :=
  channel.any fun channel =>
    !(decide (rollbackTo < channel.openBlock) || changedAfter rollbackTo channel)

def rollbackFiber (rows : FiberRows) : FiberRows where
  channels := rows.channels.filterMap fun _ channel => rollbackChannel rollbackTo channel
  addrChannels :=
    (removedParticipantKeys rollbackTo rows.channels).foldl (fun m key => m.erase key)
      rows.addrChannels
  byCommitment := rows.byCommitment.filter fun _ id =>
    keepsCommitment rollbackTo rows.channels[id]?

end Ckbadger.Sync
