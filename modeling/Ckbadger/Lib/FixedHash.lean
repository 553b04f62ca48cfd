/-
Ckbadger.Lib.FixedHash — hash values of thirty-two bytes.

A hash value carries its width, so that keys built from hashes have the lengths their
decoders expect. Hash values are ordered as their bytes. No function into a type this
small is injective on all byte strings; `CollisionFree` says that one is so on the byte
strings that occur.
-/
import Ckbadger.Lib.Bytes
import Std.Data.ExtTreeSet

namespace Ckbadger.Lib

open Std

structure Hash32 where
  bytes : Bytes
  length_eq : bytes.length = 32
  deriving DecidableEq

namespace Hash32

@[ext] theorem ext {a b : Hash32} (h : a.bytes = b.bytes) : a = b := by
  cases a; cases b; cases h; rfl

instance : Ord Hash32 := ⟨fun a b => compare a.bytes b.bytes⟩

instance : TransOrd Hash32 where
  eq_swap {a b} := OrientedCmp.eq_swap (a := a.bytes) (b := b.bytes)
  isLE_trans {a b c} h h' :=
    TransCmp.isLE_trans (a := a.bytes) (b := b.bytes) (c := c.bytes) h h'

instance : LawfulEqOrd Hash32 where
  compare_self {a} := ReflCmp.compare_self (a := a.bytes)
  eq_of_compare {a b} h := ext (LawfulEqCmp.eq_of_compare (a := a.bytes) (b := b.bytes) h)

/-- A hash value from bytes of the right length. -/
def ofBytes? (bs : Bytes) : Option Hash32 :=
  if h : bs.length = 32 then some ⟨bs, h⟩ else none

@[simp] theorem ofBytes?_bytes (a : Hash32) : ofBytes? a.bytes = some a := by
  simp [ofBytes?, a.length_eq]

/-- The first thirty-two bytes, filled up with zeros: a hash function that can be computed. -/
def leading (bs : Bytes) : Hash32 :=
  ⟨(bs ++ List.replicate 32 0).take 32, by simp⟩

/-- A hash value that spells a number. -/
def ofNat (n : Nat) : Hash32 := ⟨beBytes 32 n, length_beBytes 32 n⟩

theorem append_inj {a b c d : Hash32} (h : a.bytes ++ b.bytes = c.bytes ++ d.bytes) :
    a = c ∧ b = d := by
  obtain ⟨hleft, hright⟩ := List.append_inj h (by rw [a.length_eq, c.length_eq])
  exact ⟨ext hleft, ext hright⟩

end Hash32

/-- No two of the given byte strings have the same hash. -/
def CollisionFree (hash : Bytes → Hash32) (inputs : List Bytes) : Prop :=
  ∀ x ∈ inputs, ∀ y ∈ inputs, hash x = hash y → x = y

instance (hash : Bytes → Hash32) (inputs : List Bytes) : Decidable (CollisionFree hash inputs) :=
  inferInstanceAs (Decidable (∀ x ∈ inputs, ∀ y ∈ inputs, hash x = hash y → x = y))

theorem CollisionFree.mono {hash : Bytes → Hash32} {inputs inputs' : List Bytes}
    (h : CollisionFree hash inputs) (hsub : inputs' ⊆ inputs) : CollisionFree hash inputs' :=
  fun x hx y hy => h x (hsub hx) y (hsub hy)

end Ckbadger.Lib
