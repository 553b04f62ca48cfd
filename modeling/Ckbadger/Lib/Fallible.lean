/-
Ckbadger.Lib.Fallible — reasoning about computations in `Except`.

A `do` block that returned a value took every one of its steps successfully
(`bind_eq_ok`), and a fallible loop that returned a value preserved whatever
each of its turns preserves (`foldlM_invariant`).
-/
import Mathlib.Algebra.Order.BigOperators.Group.List
import Mathlib.Algebra.Order.Group.Int
import Mathlib.Algebra.Ring.Int.Defs
import Mathlib.Algebra.Ring.Nat

namespace Ckbadger.Lib

open List

variable {ε α β σ : Type}
variable {f : α → Except ε β} {xs : List α} {a : α} {x : Except ε α} {error : String} {s : σ}
variable {step : σ → α → Except ε σ} {as : List α} {t : σ}

@[simp] theorem ok_bind : (.ok a >>= f) = f a := rfl

@[simp] theorem error_bind {e : ε} : (.error e >>= f) = .error e := rfl

@[simp] theorem pure_eq_ok : (pure a : Except ε α) = .ok a := rfl

@[simp] theorem bind_ok : (x >>= .ok) = x := bind_pure x

/-- Adds a context to a failure. -/
def withContext (context : String) : Except String α → Except String α
  | .ok a => .ok a
  | .error e => .error (context ++ ": " ++ e)

/-- A context changes the text of a failure only. -/
theorem withContext_eq_ok {context : String} {x : Except String α} :
    withContext context x = .ok a ↔ x = .ok a := by
  cases x with
  | error e =>
    constructor
    · intro h; cases h
    · intro h; cases h
  | ok b => rfl

/-- A sequence of two steps succeeds exactly when both do. -/
theorem bind_eq_ok {b : β} : (x >>= f) = .ok b ↔ ∃ a, x = .ok a ∧ f a = .ok b := by
  cases x with
  | error e =>
    constructor
    · intro h; cases h
    · rintro ⟨a, h, -⟩; cases h
  | ok a =>
    constructor
    · intro h; exact ⟨a, rfl, h⟩
    · rintro ⟨a', h, h'⟩; cases h; exact h'

theorem exists_of_isOk (h : x.isOk = true) : ∃ a, x = .ok a := by
  cases x with
  | error e => cases h
  | ok a => exact ⟨a, rfl⟩

theorem toOption_eq_some : x.toOption = some a ↔ x = .ok a := by
  cases x <;> simp [Except.toOption]

/-- Computations with the same successes agree but for the text of their failures. -/
theorem toOption_congr {y : Except ε α} (h : ∀ a, x = .ok a ↔ y = .ok a) :
    x.toOption = y.toOption := by
  cases x with
  | ok a => rw [(h a).mp rfl]
  | error e =>
    cases y with
    | ok b => cases (h b).mpr rfl
    | error e' => rfl

/-- A successful loop took its first turn successfully and then the others. -/
theorem foldlM_cons_eq_ok :
    (a :: as).foldlM step s = .ok t ↔ ∃ u, step s a = .ok u ∧ as.foldlM step u = .ok t := by
  rw [foldlM_cons, bind_eq_ok]

/-- A successful loop took its last turn successfully after the others. -/
theorem foldlM_concat_eq_ok :
    (as ++ [a]).foldlM step s = .ok t ↔ ∃ u, as.foldlM step s = .ok u ∧ step u a = .ok t := by
  simp [bind_eq_ok]

theorem ite_error_eq_ok {p : Prop} [Decidable p] {e : ε} {x : Except ε α} :
    (if p then .error e else x) = .ok a ↔ ¬p ∧ x = .ok a := by
  split <;> simp [*]

theorem return_eq_ok {b : α} : (return a : Except ε α) = .ok b ↔ a = b := by
  simp [pure, Except.pure]

/-- Two loops in step: each turn of the first maps to a turn of the second. -/
theorem foldlM_map_eq {τ : Type} {f : σ → α → Except ε σ} {g : τ → α → Except ε τ} {φ : σ → τ}
    (P : σ → Prop) (hmap : ∀ s a, P s → (f s a).map φ = g (φ s) a)
    (hinv : ∀ s a t, P s → f s a = .ok t → P t) (as : List α) (hs : P s) :
    (as.foldlM f s).map φ = as.foldlM g (φ s) := by
  induction as generalizing s with
  | nil => rfl
  | cons a as ih =>
    rw [foldlM_cons, foldlM_cons, ← hmap s a hs]
    cases hstep : f s a with
    | error e => rfl
    | ok t => exact ih (hinv s a t hs hstep)

/-- The invariant rule of a fallible loop. -/
theorem foldlM_invariant (P : σ → Prop)
    (hstep : ∀ u a v, a ∈ as → P u → step u a = .ok v → P v) (hs : P s)
    (h : as.foldlM step s = .ok t) : P t := by
  induction as generalizing s with
  | nil => cases h; exact hs
  | cons a as ih =>
    obtain ⟨u, hu, hrest⟩ := foldlM_cons_eq_ok.mp h
    exact ih (fun u b v hb => hstep u b v (mem_cons_of_mem _ hb))
      (hstep s a u mem_cons_self hs hu) hrest

/-- The rule of a loop with a turning point: `P` holds until an element hits, and `Q` from then
on. -/
theorem foldlM_hits {P Q : σ → Prop} {hit : α → Prop}
    (hstep : ∀ u a v, a ∈ as → step u a = .ok v →
      (P u → hit a ∧ Q v ∨ ¬hit a ∧ P v) ∧ (Q u → Q v))
    (hs : P s) (h : as.foldlM step s = .ok t) :
    (∃ a ∈ as, hit a) ∧ Q t ∨ (∀ a ∈ as, ¬hit a) ∧ P t := by
  induction as generalizing s with
  | nil => cases h; exact .inr ⟨by simp, hs⟩
  | cons a as ih =>
    obtain ⟨u, hu, hrest⟩ := foldlM_cons_eq_ok.mp h
    obtain ⟨hturn, -⟩ := hstep s a u mem_cons_self hu
    have hstep' := fun u b v (hb : b ∈ as) => hstep u b v (mem_cons_of_mem a hb)
    rcases hturn hs with ⟨hhit, hQ⟩ | ⟨hmiss, hP⟩
    · exact .inl ⟨⟨a, mem_cons_self, hhit⟩,
        foldlM_invariant Q (fun u b v hb hu hv => (hstep' u b v hb hv).2 hu) hQ hrest⟩
    · rcases ih hstep' hP hrest with ⟨⟨b, hb, hhit⟩, hQ⟩ | ⟨hmisses, hP⟩
      · exact .inl ⟨⟨b, mem_cons_of_mem _ hb, hhit⟩, hQ⟩
      · exact .inr ⟨forall_mem_cons.mpr ⟨hmiss, hmisses⟩, hP⟩

/-- A fallible map succeeds exactly when each of its calls does. -/
theorem mapM_eq_ok {ys : List β} :
    xs.mapM f = .ok ys ↔ List.Forall₂ (fun x y => f x = .ok y) xs ys := by
  induction xs generalizing ys with
  | nil => simp [pure, Except.pure]
  | cons x xs ih =>
    simp only [mapM_cons, bind_eq_ok, return_eq_ok, ih, List.forall₂_cons_left_iff]
    constructor
    · rintro ⟨y, hy, ys', hys, rfl⟩
      exact ⟨y, ys', hy, hys, rfl⟩
    · rintro ⟨y, ys', hy, hys, rfl⟩
      exact ⟨y, hy, ys', hys, rfl⟩

theorem mapM_eq_ok_map {g : α → β}
    (h : ∀ x ∈ xs, f x = .ok (g x)) : xs.mapM f = .ok (xs.map g) := by
  induction xs with
  | nil => rfl
  | cons x xs ih =>
    obtain ⟨hx, hxs⟩ := forall_mem_cons.mp h
    rw [mapM_cons, hx, ih hxs]
    rfl

theorem exists_mapM_eq_ok (h : ∀ x ∈ xs, ∃ y, f x = .ok y) : ∃ ys, xs.mapM f = .ok ys := by
  induction xs with
  | nil => exact ⟨[], rfl⟩
  | cons x xs ih =>
    obtain ⟨y, hy⟩ := h x mem_cons_self
    obtain ⟨ys, hys⟩ := ih (forall_mem_cons.mp h).2
    exact ⟨y :: ys, mapM_eq_ok.mpr (.cons hy (mapM_eq_ok.mp hys))⟩

theorem exists_of_mem_mapM {ys : List β}
    (h : xs.mapM f = .ok ys) {y : β} (hy : y ∈ ys) : ∃ x ∈ xs, f x = .ok y := by
  induction mapM_eq_ok.mp h with
  | nil => cases hy
  | @cons x y' xs ys hx hrest ih =>
    rcases mem_cons.mp hy with rfl | hy
    · exact ⟨x, mem_cons_self, hx⟩
    · obtain ⟨x', hx', hy'⟩ := ih (mapM_eq_ok.mpr hrest) hy
      exact ⟨x', mem_cons_of_mem _ hx', hy'⟩

/-- A fallible scan that keeps a value of some elements succeeds exactly when it accepts all. -/
theorem scan_eq_ok {f : List α → Except ε (List β)} {accepts : α → Prop} {keep : α → Option β}
    (hnil : f [] = .ok [])
    (hcons : ∀ a as ys, f (a :: as) = .ok ys ↔
      accepts a ∧ ∃ zs, f as = .ok zs ∧ (keep a).toList ++ zs = ys) {ys : List β} :
    f as = .ok ys ↔ (∀ a ∈ as, accepts a) ∧ as.filterMap keep = ys := by
  induction as generalizing ys with
  | nil => simp [hnil]
  | cons a as ih =>
    have hkeep : (a :: as).filterMap keep = (keep a).toList ++ as.filterMap keep := by
      cases hk : keep a <;> simp [hk]
    simp only [hcons, ih, forall_mem_cons, hkeep, and_assoc, exists_and_left, exists_eq_left']

/-! ## Required values and conditions -/

/-- A missing value as an error. -/
def required (error : String) (a : Option α) : Except String α := a.elim (.error error) .ok

@[simp] theorem required_eq_ok {a : Option α} {v : α} : required error a = .ok v ↔ a = some v := by
  cases a <;> simp [required]

/-- A condition as an error when it fails. -/
def ensure (c : Prop) [Decidable c] (error : String) : Except String Unit :=
  if c then .ok () else .error error

@[simp] theorem ensure_eq_ok {c : Prop} [Decidable c] {u : Unit} : ensure c error = .ok u ↔ c := by
  by_cases h : c <;> simp [ensure, h]

/-! ## Checked arithmetic -/

/-- Whether a signed machine integer of so many bits holds a value. -/
def fitsSignedBits (bits : Nat) (v : Int) : Bool := decide (-2 ^ (bits - 1) ≤ v ∧ v < 2 ^ (bits - 1))

/-- The value of a checked operation on signed machine integers. -/
def checked (bits : Nat) (v : Int) (error : String) : Except String Int :=
  if fitsSignedBits bits v then .ok v else .error error

theorem checked_eq_ok {bits : Nat} {v w : Int} :
    checked bits v error = .ok w ↔ fitsSignedBits bits v = true ∧ w = v := by
  unfold checked
  split
  · rename_i hfits
    constructor
    · intro h
      exact ⟨hfits, (Except.ok.inj h).symm⟩
    · intro h
      rw [h.2]
  · rename_i hfits
    constructor
    · intro h
      cases h
    · intro h
      exact absurd h.1 hfits

/-- A checked sum of amounts that are not negative goes through exactly when the sum fits. -/
theorem foldlM_checked_eq_ok {bits : Nat} {f : α → Int}
    {start total : Int} (hstart : 0 ≤ start) (hfits : start < 2 ^ (bits - 1))
    (hxs : ∀ x ∈ xs, 0 ≤ f x) :
    xs.foldlM (fun sum x => checked bits (sum + f x) error) start = .ok total ↔
      total = start + (xs.map f).sum ∧ total < 2 ^ (bits - 1) := by
  induction xs generalizing start with
  | nil =>
    simp only [foldlM_nil, return_eq_ok, map_nil, sum_nil, add_zero]
    constructor
    · rintro rfl
      exact ⟨rfl, hfits⟩
    · exact fun h => h.1.symm
  | cons x xs ih =>
    have hx := hxs x mem_cons_self
    have hrest : ∀ y ∈ xs, 0 ≤ f y := (forall_mem_cons.mp hxs).2
    have hsum : 0 ≤ (xs.map f).sum := sum_nonneg (by simpa using hrest)
    simp only [foldlM_cons, bind_eq_ok, checked_eq_ok, fitsSignedBits, decide_eq_true_eq,
      map_cons, sum_cons]
    constructor
    · rintro ⟨next, ⟨⟨-, hnext⟩, rfl⟩, h⟩
      obtain ⟨rfl, hlt⟩ := (ih (by omega) hnext hrest).mp h
      exact ⟨by omega, hlt⟩
    · rintro ⟨rfl, hlt⟩
      exact ⟨start + f x, ⟨⟨by omega, by omega⟩, rfl⟩,
        (ih (by omega) (by omega) hrest).mpr ⟨by omega, hlt⟩⟩

end Ckbadger.Lib
