/-
Ckbadger.Parser.Udt — parsed cells and the token amounts they carry.

A cell is a token cell by the code hash of its type script: the registry names the sUDT
and xUDT scripts, the bundle further scripts that behave as xUDT. A script that neither
names counts as xUDT when the token's label says so. The amount is the first sixteen
data bytes.
-/
import Ckbadger.Lib.Bytes

namespace Ckbadger.Parser

open Lib

structure ParsedCell where
  capacity : Int
  lockScriptHash : Bytes
  lockCodeHash : Bytes
  lockHashType : Int
  lockArgs : Bytes
  typeScriptHash : Option Bytes
  typeCodeHash : Option Bytes
  typeHashType : Option Int
  typeArgs : Option Bytes
  dataSize : Int
  data : Bytes
  dataHash : Bytes
  deriving DecidableEq

inductive UdtStandard where
  | sudt
  | xudt
  deriving DecidableEq

def UdtStandard.asStr : UdtStandard → String
  | .sudt => "sudt"
  | .xudt => "xudt"

def UdtStandard.fromStandardHint (s : String) : Option UdtStandard :=
  let hint := s.map Char.toLower
  if hint = "sudt" then some .sudt
  else if hint = "xudt" ∨ hint = "xudt_compatible" then some .xudt
  else none

/-- The code hashes of token scripts: those of the protocol registry and the bundled ones that
are compatible with xUDT. -/
structure UdtScripts where
  sudt : List Bytes
  xudt : List Bytes
  xudtCompatible : List Bytes
  deriving DecidableEq

def UdtScripts.isUdtCodeHashBytes (scripts : UdtScripts) (codeHash : Bytes) : Option UdtStandard :=
  if scripts.sudt.contains codeHash then some .sudt
  else if scripts.xudt.contains codeHash then some .xudt
  else if scripts.xudtCompatible.contains codeHash then some .xudt
  else none

def parseAmount (data : Bytes) : Option Nat :=
  if data.length < 16 then none else some (leNat (data.take 16))

/-- The standard a cell's amount is read by: its type script's, or xUDT where only the label
says so. -/
def UdtScripts.standardOf (scripts : UdtScripts) (cell : ParsedCell)
    (standardHint : Option String) : Option UdtStandard :=
  let known := match cell.typeCodeHash, cell.typeHashType with
    | some codeHash, some _ => scripts.isUdtCodeHashBytes codeHash
    | _, _ => none
  match known with
  | some standard => some standard
  | none =>
    match standardHint.bind UdtStandard.fromStandardHint with
    | some .xudt => some .xudt
    | _ => none

/-- The token amount of an output. Data too short for an amount is no amount under either
standard. -/
def UdtScripts.parseParsedCellUdtAmount (scripts : UdtScripts) (cell : ParsedCell)
    (standardHint : Option String) : Option Nat :=
  (scripts.standardOf cell standardHint).bind fun _ => parseAmount cell.data

/-- A movement of a token from one lock to another; without a sender it is a mint, without a
receiver a burn. -/
structure ParsedUdtTransfer where
  typeScriptHash : Bytes
  typeCodeHash : Bytes
  typeHashType : Int
  typeArgs : Bytes
  fromLockHash : Option Bytes
  toLockHash : Bytes
  amount : Nat
  standard : UdtStandard
  isMint : Bool
  isBurn : Bool
  deriving DecidableEq

end Ckbadger.Parser
