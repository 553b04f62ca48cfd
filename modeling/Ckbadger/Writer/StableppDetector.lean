/-
Ckbadger.Writer.StableppDetector — which way a transaction moves the RUSD supply.

The detector adds up the RUSD amounts a transaction consumes and those it creates, each
into a sum of unbounded width kept as little-endian 64-bit limbs, and compares the two
by their number of limbs first and from the highest limb down second. That order is the
numeric one because no addition leaves a zero at the top.
-/
import Ckbadger.Lib.PrefixScan
import Mathlib.Data.Nat.Digits.Lemmas

namespace Ckbadger.Writer

@[ext] structure ExactMagnitude where
  limbs : List UInt64 := []
  deriving DecidableEq

namespace ExactMagnitude

/-- What `overflowing_add` carries. -/
def carry (limb value : UInt64) : UInt64 := if limb + value < limb then 1 else 0

/-- Adds a limb at an index; the loop runs as long as there is something to add. A limb
that is missing is a zero the vector was resized with. -/
def addLimb (limbs : List UInt64) (index : Nat) (value : UInt64) : List UInt64 :=
  if value = 0 then limbs
  else
    match limbs, index with
    | [], 0 => [value]
    | [], index + 1 => 0 :: addLimb [] index value
    | limb :: limbs, 0 => (limb + value) :: addLimb limbs 0 (carry limb value)
    | limb :: limbs, index + 1 => limb :: addLimb limbs index value
termination_by limbs.length + index

def addU128 (m : ExactMagnitude) (value : BitVec 128) : ExactMagnitude :=
  let low := addLimb m.limbs 0 ⟨value.setWidth 64⟩
  ⟨addLimb low 1 ⟨(value >>> 64).setWidth 64⟩⟩

def cmp (a b : ExactMagnitude) : Ordering :=
  (compare a.limbs.length b.limbs.length).then (compare a.limbs.reverse b.limbs.reverse)

end ExactMagnitude

inductive SupplyDirection where
  | mint
  | burn
  | flat
  deriving DecidableEq

def supplyDirection (supplyIn supplyOut : ExactMagnitude) : SupplyDirection :=
  match supplyOut.cmp supplyIn with
  | .gt => .mint
  | .lt => .burn
  | .eq => .flat

namespace ExactMagnitude

/-! ## The value of the limbs -/

/-- Limbs read as a little-endian number in base `2 ^ 64`. -/
def ofLimbs (limbs : List UInt64) : Nat := Nat.ofDigits (2 ^ 64) (limbs.map UInt64.toNat)

/-- The highest limb, if there is one, is not zero. -/
abbrev Trimmed (limbs : List UInt64) : Prop := limbs.getLast? ≠ some 0

@[simp] theorem ofLimbs_nil : ofLimbs [] = 0 := rfl

@[simp] theorem ofLimbs_cons (limb : UInt64) (limbs : List UInt64) :
    ofLimbs (limb :: limbs) = limb.toNat + 2 ^ 64 * ofLimbs limbs :=
  Nat.ofDigits_cons ..

theorem toNat_add_carry (limb value : UInt64) :
    (limb + value).toNat + 2 ^ 64 * (carry limb value).toNat = limb.toNat + value.toNat := by
  have hsum := UInt64.toNat_add limb value
  have := limb.toNat_lt
  have := value.toNat_lt
  unfold carry
  split <;> rename_i hlt <;> rw [UInt64.lt_iff_toNat_lt] at hlt <;>
    simp only [UInt64.toNat_one, UInt64.toNat_zero] <;> omega

theorem ofLimbs_addLimb (limbs : List UInt64) (index : Nat) (value : UInt64) :
    ofLimbs (addLimb limbs index value) = ofLimbs limbs + value.toNat * (2 ^ 64) ^ index := by
  fun_induction addLimb limbs index value with
  | case1 => simp
  | case2 => simp [ofLimbs]
  | case3 value _ index ih =>
    simp only [ofLimbs_cons, ih, ofLimbs_nil, Nat.succ_eq_add_one, pow_succ, UInt64.toNat_zero]
    ring
  | case4 value _ limb limbs ih =>
    rw [ofLimbs_cons, ofLimbs_cons, ih]
    linarith [toNat_add_carry limb value]
  | case5 value _ limb limbs index ih =>
    simp only [ofLimbs_cons, ih, Nat.succ_eq_add_one, pow_succ]
    ring

variable {limbs : List UInt64}

theorem addLimb_eq_nil {index : Nat} {value : UInt64}
    (h : addLimb limbs index value = []) : limbs = [] ∧ value = 0 := by
  unfold addLimb at h
  split at h
  · exact ⟨h, ‹_›⟩
  · split at h <;> simp at h

theorem trimmed_cons {limb : UInt64} :
    Trimmed (limb :: limbs) ↔ (limbs = [] → limb ≠ 0) ∧ Trimmed limbs := by
  cases limbs <;> simp

/-- No addition leaves a zero at the top: a highest limb that is added to either does not
overflow or is followed by its carry. -/
theorem trimmed_addLimb (index : Nat) (value : UInt64) (h : Trimmed limbs) :
    Trimmed (addLimb limbs index value) := by
  fun_induction addLimb limbs index value with
  | case1 => exact h
  | case2 value hv => simpa using hv
  | case3 value hv index ih =>
    exact trimmed_cons.mpr ⟨fun hnil => absurd (addLimb_eq_nil hnil).2 hv, ih h⟩
  | case4 value hv limb limbs ih =>
    refine trimmed_cons.mpr ⟨?_, ih (trimmed_cons.mp h).2⟩
    intro hnil hzero
    have hsum := toNat_add_carry limb value
    simp only [hzero, (addLimb_eq_nil hnil).2, UInt64.toNat_zero] at hsum
    exact hv (UInt64.toNat.inj (by rw [UInt64.toNat_zero]; omega))
  | case5 value hv limb limbs index ih =>
    exact trimmed_cons.mpr ⟨fun hnil => absurd (addLimb_eq_nil hnil).2 hv, ih (trimmed_cons.mp h).2⟩

/-! ## The order -/

theorem compare_reverse {a b : List UInt64} (h : a.length = b.length) :
    compare a.reverse b.reverse = compare (ofLimbs a) (ofLimbs b) := by
  induction a generalizing b with
  | nil =>
    cases b with
    | nil => rfl
    | cons => simp at h
  | cons x a ih =>
    cases b with
    | nil => simp at h
    | cons y b =>
      have hlen : a.length = b.length := by simpa using h
      have := x.toNat_lt
      have := y.toNat_lt
      rw [List.reverse_cons, List.reverse_cons, Lib.compare_append_of_length_eq (by simpa), ih hlen,
        List.compare_cons_cons, List.compare_nil_nil, Ordering.then_eq, ofLimbs_cons, ofLimbs_cons]
      simp only [compare, compareOfLessAndEq, UInt64.lt_iff_toNat_lt, ← UInt64.toNat_inj]
      split_ifs <;> simp <;> omega

theorem digits_ofLimbs (h : Trimmed limbs) :
    Nat.digits (2 ^ 64) (ofLimbs limbs) = limbs.map UInt64.toNat := by
  refine Nat.digits_ofDigits _ (by decide) _ ?_ ?_
  · intro digit hdigit
    obtain ⟨limb, -, rfl⟩ := List.mem_map.mp hdigit
    exact limb.toNat_lt
  · intro hne hzero
    rw [List.getLast_map] at hzero
    apply h
    rw [List.getLast?_eq_some_getLast (by simpa using hne)]
    exact congrArg some (UInt64.toNat.inj hzero)

/-- With a top limb that is not zero, more limbs are a larger number. -/
theorem ofLimbs_lt {a b : List UInt64} (ha : Trimmed a) (hb : Trimmed b)
    (h : a.length < b.length) : ofLimbs a < ofLimbs b := by
  by_contra hle
  have hlen := Nat.le_length_digits_le (2 ^ 64) _ _ (Nat.le_of_not_lt hle)
  rw [digits_ofLimbs ha, digits_ofLimbs hb, List.length_map, List.length_map] at hlen
  omega

theorem cmp_eq_compare {a b : ExactMagnitude} (ha : Trimmed a.limbs) (hb : Trimmed b.limbs) :
    a.cmp b = compare (ofLimbs a.limbs) (ofLimbs b.limbs) := by
  unfold cmp
  rcases Nat.lt_trichotomy a.limbs.length b.limbs.length with hlt | heq | hgt
  · rw [Nat.compare_eq_lt.mpr hlt, Nat.compare_eq_lt.mpr (ofLimbs_lt ha hb hlt)]
    rfl
  · rw [Nat.compare_eq_eq.mpr heq, Ordering.eq_then, compare_reverse heq]
  · rw [Nat.compare_eq_gt.mpr hgt, Nat.compare_eq_gt.mpr (ofLimbs_lt hb ha hgt)]
    rfl

/-! ## Sequences of additions -/

def sumOf (values : List (BitVec 128)) : ExactMagnitude := values.foldl addU128 {}

def total (values : List (BitVec 128)) : Nat := (values.map BitVec.toNat).sum

theorem ofLimbs_addU128 (m : ExactMagnitude) (value : BitVec 128) :
    ofLimbs (m.addU128 value).limbs = ofLimbs m.limbs + value.toNat := by
  have := value.isLt
  simp only [addU128, ofLimbs_addLimb, UInt64.toNat_ofBitVec, BitVec.toNat_setWidth,
    BitVec.toNat_ushiftRight, Nat.shiftRight_eq_div_pow]
  omega

theorem foldl_addU128 (values : List (BitVec 128)) (m : ExactMagnitude) (h : Trimmed m.limbs) :
    ofLimbs (values.foldl addU128 m).limbs = ofLimbs m.limbs + total values ∧
      Trimmed (values.foldl addU128 m).limbs := by
  induction values generalizing m with
  | nil => exact ⟨rfl, h⟩
  | cons value values ih =>
    obtain ⟨hsum, htop⟩ := ih (m.addU128 value) (trimmed_addLimb 1 _ (trimmed_addLimb 0 _ h))
    refine ⟨?_, htop⟩
    rw [List.foldl_cons, hsum, ofLimbs_addU128, Nat.add_assoc]
    rfl

/-- **The sum is exact and its order numeric**: the limbs spell the sum of what was added,
the highest is not zero, and equality, comparison and the direction of the supply are
those of the sums. -/
theorem exactMagnitude_exact (xs ys : List (BitVec 128)) :
    ofLimbs (sumOf xs).limbs = total xs ∧ Trimmed (sumOf xs).limbs ∧
      (sumOf xs = sumOf ys ↔ total xs = total ys) ∧
      (sumOf xs).cmp (sumOf ys) = compare (total xs) (total ys) ∧
      supplyDirection (sumOf xs) (sumOf ys)
        = if total xs < total ys then .mint else if total ys < total xs then .burn else .flat := by
  obtain ⟨hx, hxtop⟩ := foldl_addU128 xs {} (by simp)
  obtain ⟨hy, hytop⟩ := foldl_addU128 ys {} (by simp)
  rw [ofLimbs_nil, Nat.zero_add] at hx hy
  rw [← hx, ← hy]
  refine ⟨rfl, hxtop, ⟨fun heq => congrArg (ofLimbs ·.limbs) heq, fun heq => ?_⟩,
    cmp_eq_compare hxtop hytop, ?_⟩
  · -- equal numbers have equal digits
    have hdigits := congrArg (Nat.digits (2 ^ 64)) heq
    rw [digits_ofLimbs hxtop, digits_ofLimbs hytop] at hdigits
    exact ExactMagnitude.ext (List.map_injective_iff.mpr (fun _ _ => UInt64.toNat.inj) hdigits)
  · simp only [supplyDirection, sumOf, cmp_eq_compare hytop hxtop, Nat.compare_eq_ite_lt]
    split_ifs <;> first | rfl | omega

end ExactMagnitude

end Ckbadger.Writer
