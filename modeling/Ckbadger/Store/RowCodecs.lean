/-
Ckbadger.Store.RowCodecs — serializers for the rows the domain store keeps in
serialized form.

The development is about any serializer that reads back what it writes. These
instances show that the contract can be met, and let concrete stores be
evaluated.
-/
import Ckbadger.Store.BlockHeaders
import Ckbadger.Store.DeriveMeta
import Ckbadger.Store.UndoLog

namespace Ckbadger.Store

open Lib

open PrefixCodec

instance : PrefixCodec UndoLogStoreTarget :=
  ofRetract (α := Unit ⊕ Unit)
    (fun | .domain => .inl () | .appendOnly => .inr ())
    (fun | .inl () => .domain | .inr () => .appendOnly)
    (fun t => by cases t <;> rfl)

instance : PrefixCodec UndoInputOutPoint :=
  ofRetract (fun o => (o.txHash, o.outputIndex)) (fun p => ⟨p.1, p.2⟩) (fun _ => rfl)

instance : PrefixCodec UndoTxContext :=
  ofRetract (fun c => (c.txHash, c.outputsCount, c.inputs)) (fun p => ⟨p.1, p.2.1, p.2.2⟩)
    (fun _ => rfl)

instance : PrefixCodec UndoLogEntry :=
  ofRetract (α := (UndoLogStoreTarget × String × Bytes × Option Bytes) ⊕ UndoTxContext)
    (fun
      | .keyMutation target cfName key previous => .inl (target, cfName, key, previous)
      | .txContext ctx => .inr ctx)
    (fun
      | .inl p => .keyMutation p.1 p.2.1 p.2.2.1 p.2.2.2
      | .inr ctx => .txContext ctx)
    (fun e => by cases e <;> rfl)

instance : PrefixCodec EntityStatsUndoContract :=
  ofRetract (fun c => (c.version, c.coverageFloorBlock, c.updatedAtBlock))
    (fun p => ⟨p.1, p.2.1, p.2.2⟩) (fun _ => rfl)

instance : PrefixCodec CachedBlockHeader :=
  ofRetract
    (fun h => (h.hash, h.parentHash, h.timestamp, h.epochNumber, h.epochIndex, h.epochLength,
      h.dao, h.transactionsCount, h.unclesCount, h.proposalsCount, h.compactTarget,
      h.minerLockHash, h.cycles, h.chainTimeMs))
    (fun (hash, parentHash, timestamp, epochNumber, epochIndex, epochLength, dao,
      transactionsCount, unclesCount, proposalsCount, compactTarget, minerLockHash, cycles,
      chainTimeMs) => ⟨hash, parentHash, timestamp, epochNumber, epochIndex, epochLength, dao,
      transactionsCount, unclesCount, proposalsCount, compactTarget, minerLockHash, cycles,
      chainTimeMs⟩)
    (fun _ => rfl)

instance : PrefixCodec RebuildPhase :=
  ofRetract (α := Unit ⊕ Unit)
    (fun | .folding => .inl () | .validating => .inr ())
    (fun | .inl () => .folding | .inr () => .validating)
    (fun t => by cases t <;> rfl)

instance : PrefixCodec DeriveState :=
  ofRetract (α := Unit ⊕ (Int × RebuildPhase × Option Bytes × Nat) ⊕ (Int × Int × Nat) ⊕ String)
    (fun
      | .notStarted => .inl ()
      | .running tip phase cursor rowsDone => .inr (.inl (tip, phase, cursor, rowsDone))
      | .complete tip completed rowsDone => .inr (.inr (.inl (tip, completed, rowsDone)))
      | .failed error => .inr (.inr (.inr error)))
    (fun
      | .inl () => .notStarted
      | .inr (.inl p) => .running p.1 p.2.1 p.2.2.1 p.2.2.2
      | .inr (.inr (.inl p)) => .complete p.1 p.2.1 p.2.2
      | .inr (.inr (.inr error)) => .failed error)
    (fun t => by cases t <;> rfl)

instance : PrefixCodec DeriveMeta :=
  ofRetract (fun m => (m.version, m.state, m.run, m.startedAtMs, m.finishedAtMs))
    (fun p => ⟨p.1, p.2.1, p.2.2.1, p.2.2.2.1, p.2.2.2.2⟩) (fun _ => rfl)

end Ckbadger.Store
