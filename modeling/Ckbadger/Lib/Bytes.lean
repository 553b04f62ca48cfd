/-
Ckbadger.Lib.Bytes — fixed-width integers as byte strings.

Big-endian encodings of a fixed width sort, as byte strings, the way the
numbers they encode sort; that is what lets an ordered key-value store be
scanned in block order. Little-endian encodings carry values. Signed integers
are stored in two's complement, so only non-negative ones sort correctly as
big-endian keys.

Nothing here names the indexer: the module is about `List UInt8` and `compare`.
-/
import Mathlib.Data.List.Basic
import Mathlib.Tactic.Ring
import Std.Data.ExtTreeMap

namespace Ckbadger.Lib

variable {w n : Nat} {i : Int}

/-- A byte string. -/
abbrev Bytes := List UInt8

/-! ## Unsigned big-endian -/

/-- The low `w` base-256 digits of `n`, most significant first. -/
def beBytes : Nat → Nat → Bytes
  | 0, _ => []
  | w + 1, n => UInt8.ofNat (n / 256 ^ w) :: beBytes w n

/-- The number a big-endian byte string denotes. -/
def beNat : Bytes → Nat
  | [] => 0
  | b :: bs => b.toNat * 256 ^ bs.length + beNat bs

@[simp] theorem length_beBytes (w n : Nat) : (beBytes w n).length = w := by
  induction w with
  | zero => rfl
  | succ w ih => simp [beBytes, ih]

theorem beBytes_mod (w n : Nat) : beBytes w (n % 256 ^ w) = beBytes w n := by
  suffices h : ∀ v, w ≤ v → beBytes w (n % 256 ^ v) = beBytes w n from h w le_rfl
  induction w with
  | zero => intro v _; rfl
  | succ w ih =>
    intro v hv
    have hsplit : (256 : Nat) ^ v = 256 ^ w * (256 * 256 ^ (v - w - 1)) := by
      rw [← Nat.pow_succ', ← Nat.pow_add]; congr 1; omega
    have hdigit : n % 256 ^ v / 256 ^ w % 256 = n / 256 ^ w % 256 := by
      rw [hsplit, Nat.mod_mul_right_div_self, Nat.mod_mul_right_mod]
    simp only [beBytes, List.cons.injEq]
    refine ⟨?_, ih v (by omega)⟩
    apply UInt8.toNat_inj.mp
    simpa using hdigit

/-- Reading back a fixed-width encoding gives the number modulo the width. -/
theorem beNat_beBytes (w n : Nat) : beNat (beBytes w n) = n % 256 ^ w := by
  induction w with
  | zero => simp [beBytes, beNat, Nat.mod_one]
  | succ w ih =>
    simp only [beBytes, beNat, length_beBytes, ih, UInt8.toNat_ofNat']
    have hstep : n % 256 ^ (w + 1) = n % 256 ^ w + 256 ^ w * (n / 256 ^ w % 256) := by
      rw [Nat.pow_succ, Nat.mod_mul]
    rw [hstep, Nat.mul_comm (256 ^ w), Nat.add_comm]

theorem beNat_beBytes_of_lt (h : n < 256 ^ w) : beNat (beBytes w n) = n := by
  rw [beNat_beBytes, Nat.mod_eq_of_lt h]

theorem beNat_lt (bs : Bytes) : beNat bs < 256 ^ bs.length := by
  induction bs with
  | nil => simp [beNat]
  | cons b bs ih =>
    have hb : b.toNat + 1 ≤ 256 := b.toNat_lt
    calc beNat (b :: bs) < (b.toNat + 1) * 256 ^ bs.length := by
          simp only [beNat, Nat.add_mul]; omega
      _ ≤ 256 * 256 ^ bs.length := Nat.mul_le_mul_right _ hb
      _ = 256 ^ (b :: bs).length := by rw [List.length_cons, Nat.pow_succ']

/-! ## Order -/

/-- The lexicographic order of two fields that determine a value tells values apart. -/
theorem lawfulEqCmp_compareLex {α β γ : Type} [Ord β] [Std.LawfulEqOrd β] [Ord γ]
    [Std.LawfulEqOrd γ] {f : α → β} {g : α → γ} (h : ∀ a b, f a = f b → g a = g b → a = b) :
    Std.LawfulEqCmp (compareLex (compareOn f) (compareOn g)) where
  compare_self {a} := by simp [compareLex, compareOn]
  eq_of_compare {a b} heq := by
    obtain ⟨hf, hg⟩ := Ordering.then_eq_eq.mp heq
    exact h a b (Std.LawfulEqOrd.eq_of_compare hf) (Std.LawfulEqOrd.eq_of_compare hg)

private theorem compare_mod_div (n m k : Nat) :
    compare n m = (compare (n / k) (m / k)).then (compare (n % k) (m % k)) := by
  have hn := Nat.div_add_mod n k
  have hm := Nat.div_add_mod m k
  rcases Nat.lt_trichotomy (n / k) (m / k) with hlt | heq | hgt
  · have : n < m := Nat.lt_of_div_lt_div hlt
    simp [Nat.compare_eq_lt.mpr hlt, Nat.compare_eq_lt.mpr this]
  · have hcmp : compare (n / k) (m / k) = .eq := Nat.compare_eq_eq.mpr heq
    rw [hcmp, Ordering.eq_then]
    rw [heq] at hn
    rcases Nat.lt_trichotomy (n % k) (m % k) with h | h | h
    · rw [Nat.compare_eq_lt.mpr h, Nat.compare_eq_lt.mpr (by omega)]
    · rw [Nat.compare_eq_eq.mpr h, Nat.compare_eq_eq.mpr (by omega)]
    · rw [Nat.compare_eq_gt.mpr h, Nat.compare_eq_gt.mpr (by omega)]
  · have : m < n := Nat.lt_of_div_lt_div hgt
    simp [Nat.compare_eq_gt.mpr hgt, Nat.compare_eq_gt.mpr this]

private theorem compare_uint8 (a b : UInt8) : compare a b = compare a.toNat b.toNat := by
  simp [compare, compareOfLessAndEq, UInt8.lt_iff_toNat_lt, ← UInt8.toNat_inj]

/-- **Fixed-width big-endian keys sort numerically**: byte-string order on two such keys is
numeric order first, then the order of whatever follows. -/
theorem compare_beBytes_append (w : Nat) {m : Nat} (hn : n < 256 ^ w) (hm : m < 256 ^ w)
    (xs ys : Bytes) :
    compare (beBytes w n ++ xs) (beBytes w m ++ ys) = (compare n m).then (compare xs ys) := by
  induction w generalizing n m with
  | zero =>
    have hn0 : n = 0 := by simpa using hn
    have hm0 : m = 0 := by simpa using hm
    subst hn0 hm0
    simp [beBytes]
  | succ w ih =>
    have hpos : 0 < 256 ^ w := Nat.pos_of_ne_zero (by simp)
    have hdigit : ∀ {k : Nat}, k < 256 ^ (w + 1) → k / 256 ^ w % 2 ^ 8 = k / 256 ^ w := by
      intro k hk
      apply Nat.mod_eq_of_lt
      rw [Nat.div_lt_iff_lt_mul hpos]
      rwa [Nat.pow_succ'] at hk
    have hrest := ih (Nat.mod_lt n hpos) (Nat.mod_lt m hpos)
    rw [beBytes_mod, beBytes_mod] at hrest
    simp only [beBytes, List.cons_append, List.compare_cons_cons, compare_uint8,
      UInt8.toNat_ofNat', hdigit hn, hdigit hm, hrest]
    rw [compare_mod_div n m (256 ^ w), Ordering.then_assoc]

/-- Keys of the same width compare as the numbers do. -/
theorem compare_beBytes (w : Nat) {m : Nat} (hn : n < 256 ^ w) (hm : m < 256 ^ w) :
    compare (beBytes w n) (beBytes w m) = compare n m := by
  have h := compare_beBytes_append w hn hm [] []
  simpa using h

/-- A string of greatest bytes is past every shorter string. -/
theorem compare_replicate_max {key : Bytes} (h : key.length < n) :
    compare key (List.replicate n 0xFF) = .lt := by
  induction key generalizing n with
  | nil =>
    cases n with
    | zero => cases h
    | succ n => rfl
  | cons b key ih =>
    cases n with
    | zero => cases h
    | succ n =>
      rw [List.replicate_succ, List.compare_cons_cons, ih (by simpa using h), compare_uint8]
      have hb : b.toNat ≤ 255 := Nat.le_of_lt_succ b.toNat_lt
      rcases Nat.lt_or_eq_of_le hb with hlt | heq
      · rw [show (0xFF : UInt8).toNat = 255 from rfl, Nat.compare_eq_lt.mpr hlt]
        rfl
      · rw [show (0xFF : UInt8).toNat = 255 from rfl, Nat.compare_eq_eq.mpr heq]
        rfl

/-- The least key after `key`: a key is at or past it exactly when it is past `key`. -/
theorem isLE_compare_snoc_zero (key x : Bytes) :
    (compare (key ++ [0]) x).isLE ↔ compare key x = .lt := by
  induction key generalizing x with
  | nil =>
    cases x with
    | nil => simp
    | cons b x =>
      rw [List.nil_append, List.compare_cons_cons, compare_uint8]
      rcases Nat.eq_zero_or_pos b.toNat with h | h
      · rw [h]
        cases x <;> simp
      · simp [Nat.compare_eq_lt.mpr h]
  | cons a key ih =>
    cases x with
    | nil => simp
    | cons b x =>
      rw [List.cons_append, List.compare_cons_cons, List.compare_cons_cons]
      cases compare a b with
      | lt => simp
      | eq => simpa using ih x
      | gt => simp

/-! ## Little-endian and signed -/

/-- The low `w` base-256 digits of `n`, least significant first. -/
def leBytes (w n : Nat) : Bytes := (beBytes w n).reverse

/-- The number a little-endian byte string denotes. -/
def leNat (bs : Bytes) : Nat := beNat bs.reverse

@[simp] theorem length_leBytes (w n : Nat) : (leBytes w n).length = w := by
  simp [leBytes]

theorem leNat_leBytes (w n : Nat) : leNat (leBytes w n) = n % 256 ^ w := by
  simp [leNat, leBytes, beNat_beBytes]

/-- The unsigned representative of `i` at a width of `w` bytes. -/
def wrapUnsigned (w : Nat) (i : Int) : Nat := (i % (256 ^ w : Nat)).toNat

/-- The signed integer a `w`-byte unsigned representative stands for (two's complement). -/
def toSigned (w n : Nat) : Int := if 2 * n < 256 ^ w then n else (n : Int) - (256 ^ w : Nat)

/-- `i` fits a signed integer of `w` bytes. -/
def FitsSigned (w : Nat) (i : Int) : Prop :=
  -(256 ^ w : Nat) ≤ 2 * i ∧ 2 * i < (256 ^ w : Nat)

instance (w : Nat) (i : Int) : Decidable (FitsSigned w i) :=
  inferInstanceAs (Decidable (_ ∧ _))

theorem fitsSigned_zero (w : Nat) : FitsSigned w 0 := by
  have hpos : (0 : Int) < (256 ^ w : Nat) := by
    exact_mod_cast Nat.pos_of_ne_zero (by simp : 256 ^ w ≠ 0)
  constructor <;> omega

theorem wrapUnsigned_lt (w : Nat) (i : Int) : wrapUnsigned w i < 256 ^ w := by
  unfold wrapUnsigned
  omega

theorem wrapUnsigned_of_nonneg (h0 : 0 ≤ i) (h : i < (256 ^ w : Nat)) :
    wrapUnsigned w i = i.toNat := by
  rw [wrapUnsigned, Int.emod_eq_of_lt h0 h]

/-- Two's complement loses nothing on the integers that fit the width. -/
theorem toSigned_wrapUnsigned (h : FitsSigned w i) : toSigned w (wrapUnsigned w i) = i := by
  obtain ⟨hlo, hhi⟩ := h
  by_cases h0 : 0 ≤ i
  · rw [wrapUnsigned_of_nonneg h0 (by omega), toSigned]
    split <;> omega
  · have hwrap : i % (256 ^ w : Nat) = i + (256 ^ w : Nat) := by
      rw [← Int.add_emod_right, Int.emod_eq_of_lt] <;> omega
    rw [wrapUnsigned, toSigned]
    split <;> omega

/-- A signed integer as `w` big-endian bytes. -/
def intToBe (w : Nat) (i : Int) : Bytes := beBytes w (wrapUnsigned w i)

/-- The signed integer a big-endian byte string denotes. -/
def intOfBe (bs : Bytes) : Int := toSigned bs.length (beNat bs)

/-- A signed integer as `w` little-endian bytes. -/
def intToLe (w : Nat) (i : Int) : Bytes := leBytes w (wrapUnsigned w i)

/-- The signed integer a little-endian byte string denotes. -/
def intOfLe (bs : Bytes) : Int := toSigned bs.length (leNat bs)

@[simp] theorem length_intToBe (w : Nat) (i : Int) : (intToBe w i).length = w := by
  simp [intToBe]

@[simp] theorem length_intToLe (w : Nat) (i : Int) : (intToLe w i).length = w := by
  simp [intToLe]

theorem intOfBe_intToBe (h : FitsSigned w i) : intOfBe (intToBe w i) = i := by
  rw [intOfBe, intToBe, length_beBytes, beNat_beBytes_of_lt (wrapUnsigned_lt w i),
    toSigned_wrapUnsigned h]

theorem intOfLe_intToLe (h : FitsSigned w i) : intOfLe (intToLe w i) = i := by
  rw [intOfLe, intToLe, length_leBytes, leNat_leBytes, Nat.mod_eq_of_lt (wrapUnsigned_lt w i),
    toSigned_wrapUnsigned h]

end Ckbadger.Lib
