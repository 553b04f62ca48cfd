/-
Ckbadger.Store.BlockHeaders — the canonical headers and the committed tip.

The committed tip is the highest stored header: the header rows are keyed by the
big-endian block number, so the last row of the column family with an 8-byte key
is the tip.
-/
import Ckbadger.Store.Keys
import Ckbadger.Store.DomainStore
import Ckbadger.Lib.Codec

namespace Ckbadger.Store

open Lib

structure CachedBlockHeader where
  hash : Bytes
  parentHash : Bytes
  timestamp : Int
  epochNumber : Int
  epochIndex : Int
  epochLength : Int
  dao : Bytes
  transactionsCount : Int
  unclesCount : Int
  proposalsCount : Int
  compactTarget : Nat
  minerLockHash : Option Bytes
  cycles : Option Int
  /-- Running maximum of the canonical block timestamps through this header. -/
  chainTimeMs : Int
  deriving DecidableEq

/-- The block number of a header key. -/
def decodeBlockNum (key : Bytes) : Int := intOfBe (key.take 8)

section Reads

variable [Codec CachedBlockHeader]

/-- The last header row, if there is one. -/
def lastHeaderRow (s : DomainStore) : Option (Bytes × Bytes) :=
  (s.table .blockHeaders).toList.reverse.find? fun kv => kv.1.length = 8

/-- The highest stored header, with its number. -/
def getSyncTipBlock (s : DomainStore) : Except String (Option (Int × CachedBlockHeader)) :=
  match lastHeaderRow s with
  | none => .ok none
  | some (key, value) => do
      let header ← Codec.deserialize (α := CachedBlockHeader) value
      return some (decodeBlockNum key, header)

/-- The committed sync tip, `-1` on an empty store. -/
def committedTip (s : DomainStore) : Except String Int := do
  match ← getSyncTipBlock s with
  | some (number, _) => return number
  | none => return -1

end Reads

end Ckbadger.Store
