/-
Ckbadger.Sync.DaoDeltas — what the DAO lifecycle adds up by day.

The live writer and the bulk reducer keep the same changes per stats day: capacities,
counts of deposits and withdrawals, and changes in the number of depositors, which they
see when the number of active deposits of a lock leaves or reaches zero.
-/
import Ckbadger.Lib.Bytes
import Ckbadger.Lib.Fallible
import Ckbadger.Lib.MapSum

namespace Ckbadger.Sync

open Lib Std

/-- The changes by stats day. -/
structure DaoDailyDeltas where
  active : ExtTreeMap Int Int := ∅
  protocol : ExtTreeMap Int Int := ∅
  grossDeposit : ExtTreeMap Int Int := ∅
  newDeposits : ExtTreeMap Int Int := ∅
  withdrawals : ExtTreeMap Int Int := ∅
  uniqueDepositors : ExtTreeMap Int Int := ∅
  cumulativeDepositors : ExtTreeMap Int Int := ∅
  depositingAddresses : ExtTreeMap Int (ExtTreeSet Bytes) := ∅

/-- An unchecked addition to a day. -/
def addDaily (target : ExtTreeMap Int Int) (date delta : Int) : ExtTreeMap Int Int :=
  target.insert date (tally target date + delta)

/-- A lock enters the addresses that deposited on a day. -/
def addDepositingAddress (target : ExtTreeMap Int (ExtTreeSet Bytes)) (date : Int)
    (lockHash : Bytes) : ExtTreeMap Int (ExtTreeSet Bytes) :=
  target.insert date ((target[date]?.getD ∅).insert lockHash)

/-- One deposit more or less for a lock, and the change in the number of locks that have
one. -/
def bumpActiveDepositorCount (counts : ExtTreeMap Bytes Int) (unique : ExtTreeMap Int Int)
    (date : Int) (lockHash : Bytes) (delta : Int) :
    Except String (ExtTreeMap Bytes Int × ExtTreeMap Int Int) :=
  if delta = 0 then .ok (counts, unique)
  else do
    let current := tally counts lockHash
    let next ← checked 64 (current + delta) "dao depositor count overflow"
    ensure (0 ≤ next) "dao depositor count underflow"
    return (counts.insert lockHash next,
      if current = 0 ∧ 0 < next then addDaily unique date 1
      else if 0 < current ∧ next = 0 then addDaily unique date (-1)
      else unique)

theorem tally_addDaily (target : ExtTreeMap Int Int) (date delta day : Int) :
    tally (addDaily target date delta) day = tally target day + if date = day then delta else 0 := by
  rw [addDaily, tally_insert]
  split
  · rename_i heq
    rw [heq]
  · simp

end Ckbadger.Sync
