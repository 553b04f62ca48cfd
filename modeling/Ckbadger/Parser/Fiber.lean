/-
Ckbadger.Parser.Fiber — the Fiber locks and their arguments.

A funding lock holds a channel's capacity while it is open, a commitment lock holds it
after a unilateral close. The lock arguments of both have a fixed layout with a least
length; a funding cell with a type script also holds a token amount in its data.
-/
import Ckbadger.Lib.Text

namespace Ckbadger.Parser

open Lib

def fundingLockCodeHashMainnet : Bytes :=
  beBytes 32 0xe45b1f8f21bff23137035a3ab751d75b36a981deec3e7820194b9c042967f4f1

def commitmentLockCodeHashMainnet : Bytes :=
  beBytes 32 0x2d45c4d3ed3e942f1945386ee82a5d1b7e4bb16d7fe1ab015421174ab747406c

def fundingLockCodeHashTestnet : Bytes :=
  beBytes 32 0x6c67887fe201ee0c7853f1682c0b77c0e6214044c156c7558269390a8afa6d7c

def commitmentLockCodeHashTestnet : Bytes :=
  beBytes 32 0x740dee83f87c6f309824d8fd3fbdd3c8380ee6fc9acc90b1a748438afcdf81d8

/-- Whether a code hash is a funding lock's, on either network. -/
def isFundingLock (codeHash : Bytes) : Bool :=
  codeHash == fundingLockCodeHashMainnet || codeHash == fundingLockCodeHashTestnet

/-- Whether a code hash is a commitment lock's, on either network. -/
def isCommitmentLock (codeHash : Bytes) : Bool :=
  codeHash == commitmentLockCodeHashMainnet || codeHash == commitmentLockCodeHashTestnet

theorem isCommitmentLock_of_isFundingLock {codeHash : Bytes} (h : isFundingLock codeHash = true) :
    isCommitmentLock codeHash = false := by
  have hmainnet : isCommitmentLock fundingLockCodeHashMainnet = false := by decide +kernel
  have htestnet : isCommitmentLock fundingLockCodeHashTestnet = false := by decide +kernel
  rw [isFundingLock, Bool.or_eq_true, beq_iff_eq, beq_iff_eq] at h
  obtain rfl | rfl := h
  · exact hmainnet
  · exact htestnet

def fundingLockArgsMinLen : Nat := 20

def commitmentLockArgsMinLen : Nat := 36

def commitmentLockArgsFullLen : Nat := 57

def fundingUdtAmountLen : Nat := 16

structure FundingLockArgs where
  pubkeyHash : Bytes
  deriving DecidableEq

structure CommitmentLockArgs where
  pubkeyHash : Bytes
  delayEpoch : Nat
  version : Nat
  /-- Only in the full format, as is the flag. -/
  settlementHash : Option Bytes
  settlementFlag : Option UInt8
  deriving DecidableEq

/-- The little-endian amount at the start of a token cell's data. -/
def parseFundingUdtAmount (data : Bytes) : Option Nat :=
  if data.length < fundingUdtAmountLen then none
  else some (leNat (data.take fundingUdtAmountLen))

def parseFundingLockArgs (args : Bytes) : Option FundingLockArgs :=
  if args.length < fundingLockArgsMinLen then none
  else some { pubkeyHash := args.take 20 }

/-- The bytes of a slice. -/
def slice (bs : Bytes) (start stop : Nat) : Bytes := (bs.drop start).take (stop - start)

def parseCommitmentLockArgs (args : Bytes) : Option CommitmentLockArgs :=
  if args.length < commitmentLockArgsMinLen then none
  else
    let full := decide (commitmentLockArgsFullLen ≤ args.length)
    some {
      pubkeyHash := slice args 0 20
      delayEpoch := leNat (slice args 20 28)
      version := beNat (slice args 28 36)
      settlementHash := if full then some (slice args 36 56) else none
      settlementFlag := if full then args[56]? else none }

/-- An amount read from sixteen bytes fits the type it is kept in. -/
theorem parseFundingUdtAmount_lt {data : Bytes} {amount : Nat}
    (h : parseFundingUdtAmount data = some amount) : amount < 2 ^ 128 := by
  rw [parseFundingUdtAmount] at h
  split at h
  · cases h
  · rename_i hlen
    have hbound := beNat_lt (data.take fundingUdtAmountLen).reverse
    have hwidth : (data.take fundingUdtAmountLen).reverse.length = 16 := by
      simp only [List.length_reverse, List.length_take, fundingUdtAmountLen] at hlen ⊢
      omega
    rw [hwidth] at hbound
    rw [← Option.some.inj h, leNat]
    omega

end Ckbadger.Parser
