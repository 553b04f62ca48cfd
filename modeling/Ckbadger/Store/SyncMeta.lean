/-
Ckbadger.Store.SyncMeta — the `sync_meta` rows the rollback machinery keeps:
the entity-stats undo contract, which states how far back the store can still
be rolled.
-/
import Ckbadger.Store.DomainStore
import Ckbadger.Lib.Codec

namespace Ckbadger.Store

open Lib

/-- The bytes of an ASCII key. -/
def asciiBytes (text : String) : Bytes := text.toList.map fun c => UInt8.ofNat c.toNat

/-- What the store guarantees about rolling entity statistics back: `EntityStats` undo entries at
or below the floor have been pruned. -/
structure EntityStatsUndoContract where
  version : Nat
  coverageFloorBlock : Int
  updatedAtBlock : Int
  deriving DecidableEq

/-- `ENTITY_STATS_UNDO_CONTRACT_VERSION`. -/
def entityStatsUndoContractVersion : Nat := 1

/-- `ENTITY_STATS_UNDO_CONTRACT`: the contract's key. -/
def entityStatsUndoContractKey : Bytes := asciiBytes "entity_stats_undo_contract"

/-- A `sync_meta` row that does not decode. -/
structure SyncMetaError where
  row : String
  reason : String
  deriving DecidableEq

/-- Reads and decodes an optional `sync_meta` row. -/
def getSyncMeta {α : Type} [Codec α] (s : DomainStore) (key : Bytes) (row : String) :
    Except SyncMetaError (Option α) :=
  match s.get .syncMeta key with
  | none => .ok none
  | some value =>
    match Codec.deserialize (α := α) value with
    | .ok a => .ok (some a)
    | .error reason => .error ⟨row, reason⟩

section Contract

variable [Codec EntityStatsUndoContract]

def getEntityStatsUndoContract (s : DomainStore) :
    Except SyncMetaError (Option EntityStatsUndoContract) :=
  getSyncMeta s entityStatsUndoContractKey "entity stats undo contract"

def putEntityStatsUndoContract (batch : DomainBatch) (contract : EntityStatsUndoContract) :
    DomainBatch :=
  batch ++ [.put .syncMeta entityStatsUndoContractKey (Codec.serialize contract)]

/-- The coverage floor in force: a store without a contract has pruned nothing. -/
def coverageFloor (s : DomainStore) : Int :=
  match getEntityStatsUndoContract s with
  | .ok existing => (existing.map (·.coverageFloorBlock)).getD (-1)
  | .error _ => -1

end Contract

theorem getSyncMeta_congr {α : Type} [Codec α] {s t : DomainStore} {key : Bytes} {row : String}
    (h : t.get .syncMeta key = s.get .syncMeta key) :
    getSyncMeta (α := α) t key row = getSyncMeta s key row := by
  simp [getSyncMeta, h]

theorem coverageFloor_congr [Codec EntityStatsUndoContract] {s t : DomainStore}
    (h : t.get .syncMeta entityStatsUndoContractKey = s.get .syncMeta entityStatsUndoContractKey) :
    coverageFloor t = coverageFloor s := by
  simp [coverageFloor, getEntityStatsUndoContract, getSyncMeta_congr h]

end Ckbadger.Store
