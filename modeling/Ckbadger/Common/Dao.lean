/-
Ckbadger.Common.Dao — the arithmetic of DAO cells.

A cell occupies one shannon-denominated unit per byte of its fields. A deposit earns
compensation on the rest of its capacity, by the quotient of the accumulated rates of two
blocks, rounded down. An epoch issues its secondary reward block by block; the miner of a
block gets the part of the capacity its parent says is occupied.
-/
import Ckbadger.Lib.Bytes
import Ckbadger.Lib.Fallible

namespace Ckbadger.Common

open Lib

def shannon : Int := 100000000

/-- The occupied capacity of a cell, from the lengths of its fields. -/
def occupiedCapacityShannons (dataSize lockArgsLen : Nat) (typeArgsLen : Option Nat) :
    Except String Int :=
  let lockScriptSize := 33 + lockArgsLen
  let typeScriptSize := (typeArgsLen.map (33 + ·)).getD 0
  checked 64 ((8 + lockScriptSize + typeScriptSize + dataSize : Nat) * shannon)
    "occupied capacity exceeds i64"

/-- What a deposit earns between two accumulated rates. -/
def calculateDaoCompensationFromAr (capacity occupiedCapacity : Int) (arDeposit arWithdraw : Nat) :
    Except String Int := do
  ensure (0 ≤ capacity ∧ 0 ≤ occupiedCapacity)
    "negative DAO capacity while calculating compensation"
  ensure (occupiedCapacity ≤ capacity) "DAO cell capacity below occupied capacity"
  ensure (arDeposit ≠ 0) "invalid zero deposit AR while calculating DAO compensation"
  let freeCapacity := (capacity - occupiedCapacity).toNat
  ensure (freeCapacity * arWithdraw < 2 ^ 128) "DAO compensation multiply overflow"
  let gross := freeCapacity * arWithdraw / arDeposit
  ensure (freeCapacity ≤ gross) "DAO compensation underflow"
  checked 64 ((gross - freeCapacity : Nat) : Int) "DAO compensation exceeds i64"

theorem calculateDaoCompensationFromAr_nonneg {capacity occupiedCapacity : Int}
    {arDeposit arWithdraw : Nat} {c : Int}
    (h : calculateDaoCompensationFromAr capacity occupiedCapacity arDeposit arWithdraw = .ok c) :
    0 ≤ c := by
  simp only [calculateDaoCompensationFromAr, bind_eq_ok, checked_eq_ok] at h
  obtain ⟨-, -, -, -, -, -, -, -, -, -, -, rfl⟩ := h
  exact Int.natCast_nonneg _

/-! ## Secondary issuance -/

/-- The issuance of a block by its position in the epoch: the remainder goes to the first blocks. -/
def secondaryBlockIssuance (epochIndex epochLength : Int) (secondaryEpochReward : Nat) :
    Except String Nat := do
  ensure (0 < epochLength ∧ 0 ≤ epochIndex ∧ epochIndex < epochLength)
    "invalid epoch position while deriving secondary block issuance"
  let length := epochLength.toNat
  let base := secondaryEpochReward / length
  let remainder := secondaryEpochReward % length
  if epochIndex.toNat < remainder then return (base + 1) % 2 ^ 64 else return base

/-- The miner's part of a block's issuance. -/
def calculateMinerSecondaryIssuance (secondaryIssuance : Nat)
    (parentTotalIssuance parentOccupiedCapacity : Int) : Except String Int := do
  ensure (0 < parentTotalIssuance ∧ 0 ≤ parentOccupiedCapacity ∧
      parentOccupiedCapacity < parentTotalIssuance)
    "invalid parent DAO C/U relationship while splitting secondary issuance"
  let product ← checked 128 (secondaryIssuance * parentOccupiedCapacity)
    "secondary issuance miner multiplication overflow"
  return product.tdiv parentTotalIssuance

end Ckbadger.Common
