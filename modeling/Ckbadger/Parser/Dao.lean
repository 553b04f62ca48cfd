/-
Ckbadger.Parser.Dao — DAO cells.

A cell is a DAO cell by the code hash of its type script. Its eight data bytes are zero
in a deposit and the deposit's block number in a withdraw request. Among
cells as the type script admits them the parser of deposits finds exactly the deposits
(`parseDepositsFromCells_eq_ok`).
-/
import Ckbadger.Common.Dao

namespace Ckbadger.Parser

open Lib Common

def daoCodeHash : Bytes :=
  beBytes 32 0x82d76d1b75fe2fd9a27dfbaa65a039221a380d76c926f378d3f81cf3e7e13f2e

/-- A parsed cell, as far as the DAO reads it. -/
structure DaoCell where
  capacity : Int
  lockScriptHash : Bytes
  lockArgsLen : Nat
  typeCodeHash : Option Bytes
  typeHashType : Option Int
  typeArgsLen : Option Nat
  dataSize : Int
  data : Bytes
  deriving DecidableEq

inductive DaoState where
  | deposit
  | withdrawRequest
  deriving DecidableEq

def isDaoCodeHash (codeHash : Bytes) : Bool := codeHash == daoCodeHash

def DaoCell.isDao (cell : DaoCell) : Bool := cell.typeCodeHash.any isDaoCodeHash

def parseDaoState (data : Bytes) : Option DaoState :=
  if data.length ≠ 8 then none
  else if data = List.replicate 8 0 then some .deposit
  else some .withdrawRequest

def parseDepositBlockNumber (data : Bytes) : Option Nat :=
  if data.length ≠ 8 then none
  else if data = List.replicate 8 0 then none
  else some (leNat data)

/-- The occupied capacity of a parsed cell. -/
def DaoCell.occupiedCapacity (cell : DaoCell) : Except String Int := do
  ensure (0 ≤ cell.dataSize) "negative DAO cell data size"
  occupiedCapacityShannons cell.dataSize.toNat cell.lockArgsLen cell.typeArgsLen

structure ParsedDaoDeposit where
  outputIndex : Nat
  lockScriptHash : Bytes
  capacity : Int
  occupiedCapacity : Int
  deriving DecidableEq

/-- Whether a cell is a deposit to the parser of deposits. -/
def DaoCell.isDeposit (cell : DaoCell) : Bool :=
  cell.isDao && cell.typeHashType == some 1 && cell.dataSize == 8 && cell.data == List.replicate 8 0

def parseDeposit (output : DaoCell × Nat) : Except String (Option ParsedDaoDeposit) :=
  if output.1.isDeposit then do
    ensure (output.2 < 2 ^ 31) "DAO index exceeds i32 range while parsing deposit output index"
    let occupiedCapacity ← output.1.occupiedCapacity
    return some ⟨output.2, output.1.lockScriptHash, output.1.capacity, occupiedCapacity⟩
  else return none

def parseDepositsFromCells (cells : List DaoCell) : Except String (List ParsedDaoDeposit) := do
  let parsed ← cells.zipIdx.mapM parseDeposit
  return parsed.filterMap id

/-! ## Cells as their type script admits them -/

/-- A DAO cell as its type script admits it: eight bytes of data, and a capacity that
covers what the cell occupies. -/
@[mk_iff]
structure WellFormedDaoCell (cell : DaoCell) : Prop where
  hashType : cell.typeHashType = some 1
  length : cell.data.length = 8
  dataSize : cell.dataSize = 8
  capacity : cell.capacity < 2 ^ 63
  occupied : cell.occupiedCapacity.toOption.any (· ≤ cell.capacity) = true

instance (cell : DaoCell) : Decidable (WellFormedDaoCell cell) :=
  decidable_of_iff' _ (wellFormedDaoCell_iff cell)

namespace DaoCell

/-- A DAO cell that is a deposit: its data is not the number of a block. -/
def holdsDeposit (cell : DaoCell) : Bool :=
  cell.isDao && (parseDepositBlockNumber cell.data).isNone

/-- A DAO cell that is a withdraw request: its data is the block of the deposit. -/
def holdsRequest (cell : DaoCell) : Bool :=
  cell.isDao && (parseDepositBlockNumber cell.data).isSome

/-- The occupied capacity of a cell that has one. -/
def occupied (cell : DaoCell) : Int := cell.occupiedCapacity.toOption.getD 0

theorem holdsDeposit_or_holdsRequest {cell : DaoCell} (h : cell.isDao = true) :
    cell.holdsDeposit = true ∧ parseDepositBlockNumber cell.data = none ∨
      cell.holdsRequest = true ∧ ∃ n, parseDepositBlockNumber cell.data = some n := by
  cases hdata : parseDepositBlockNumber cell.data with
  | none => simp [holdsDeposit, h, hdata]
  | some n => simp [holdsRequest, h, hdata]

end DaoCell

/-- The deposit at an output. -/
def depositOf (output : DaoCell × Nat) : Option ParsedDaoDeposit :=
  if output.1.holdsDeposit then
    some ⟨output.2, output.1.lockScriptHash, output.1.capacity, output.1.occupied⟩
  else none

namespace WellFormedDaoCell

variable {cell : DaoCell} (h : WellFormedDaoCell cell)

include h

theorem occupiedCapacity_eq :
    cell.occupiedCapacity = .ok cell.occupied ∧ 0 ≤ cell.occupied ∧ cell.occupied ≤ cell.capacity := by
  have hoccupied := h.occupied
  unfold DaoCell.occupied
  cases heq : cell.occupiedCapacity with
  | error e => simp [heq, Except.toOption] at hoccupied
  | ok occupied =>
    refine ⟨rfl, ?_, by simpa [heq, Except.toOption] using hoccupied⟩
    simp only [DaoCell.occupiedCapacity, occupiedCapacityShannons, bind_eq_ok, checked_eq_ok] at heq
    obtain ⟨-, -, -, rfl⟩ := heq
    exact Int.mul_nonneg (Int.natCast_nonneg _) (by decide)

theorem capacity_bounds : 0 ≤ cell.capacity ∧ cell.capacity < 2 ^ 63 := by
  obtain ⟨-, hnonneg, hcovers⟩ := h.occupiedCapacity_eq
  exact ⟨hnonneg.trans hcovers, h.capacity⟩

theorem isDeposit_eq : cell.isDeposit = cell.holdsDeposit := by
  rw [Bool.eq_iff_iff]
  simp [DaoCell.isDeposit, DaoCell.holdsDeposit, h.hashType, h.dataSize, parseDepositBlockNumber,
    h.length]

theorem parseDaoState_eq :
    parseDaoState cell.data = some (if (parseDepositBlockNumber cell.data).isNone then .deposit
      else .withdrawRequest) := by
  by_cases hdata : cell.data = List.replicate 8 0
  · simp [parseDaoState, parseDepositBlockNumber, hdata]
  · simp only [parseDaoState, parseDepositBlockNumber, h.length, if_neg hdata, ne_eq, not_true_eq_false,
      if_false, Option.isNone_some, Bool.false_eq_true]

end WellFormedDaoCell

theorem mapM_parseDeposit_eq_ok {outputs : List (DaoCell × Nat)}
    (hwf : ∀ output ∈ outputs, output.1.isDao = true → WellFormedDaoCell output.1)
    (hindex : ∀ output ∈ outputs, output.2 < 2 ^ 15) :
    outputs.mapM parseDeposit = .ok (outputs.map depositOf) := by
  induction outputs with
  | nil => rfl
  | cons output outputs ih =>
    obtain ⟨hcell, hwf⟩ := List.forall_mem_cons.mp hwf
    obtain ⟨hidx, hindex⟩ := List.forall_mem_cons.mp hindex
    have hfirst : parseDeposit output = .ok (depositOf output) := by
      cases hdao : output.1.isDao with
      | false => simp [parseDeposit, depositOf, DaoCell.isDeposit, DaoCell.holdsDeposit, hdao]
      | true =>
        have hwf := hcell hdao
        have hsmall : output.2 < 2 ^ 31 := by omega
        simp only [parseDeposit, depositOf, hwf.isDeposit_eq, hwf.occupiedCapacity_eq.1, ensure]
        split <;> rfl
    rw [List.mapM_cons, hfirst, ih hwf hindex]
    rfl

/-- The parser finds exactly the deposits. -/
theorem parseDepositsFromCells_eq_ok {cells : List DaoCell}
    (hwf : ∀ cell ∈ cells, cell.isDao = true → WellFormedDaoCell cell)
    (hlen : cells.length ≤ 2 ^ 15) :
    parseDepositsFromCells cells = .ok (cells.zipIdx.filterMap depositOf) := by
  have hmem : ∀ output ∈ cells.zipIdx, output.1 ∈ cells ∧ output.2 < 2 ^ 15 := by
    intro output houtput
    obtain ⟨hget, -⟩ := List.mem_zipIdx' (x := output.1) (i := output.2) houtput
    exact ⟨List.fst_mem_of_mem_zipIdx houtput, by omega⟩
  rw [parseDepositsFromCells, mapM_parseDeposit_eq_ok
    (fun output houtput => hwf _ (hmem output houtput).1)
    (fun output houtput => (hmem output houtput).2)]
  simp only [List.filterMap_map, ok_bind]
  rfl

end Ckbadger.Parser
