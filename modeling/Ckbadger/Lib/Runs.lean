/-
Ckbadger.Lib.Runs — inputs that are valid at their turn.

A state machine takes one input after the other. A run is valid if each input is valid
in the state it meets.
-/
import Mathlib.Data.List.Basic

namespace Ckbadger.Lib

variable {σ α : Type} {step : σ → α → σ} {valid valid' : σ → α → Prop} {s : σ} {as bs : List α}

/-- Every input is valid at its turn. -/
def ValidRun (step : σ → α → σ) (valid : σ → α → Prop) : σ → List α → Prop
  | _, [] => True
  | s, a :: as => valid s a ∧ ValidRun step valid (step s a) as

instance decidableValidRun [∀ s a, Decidable (valid s a)] :
    ∀ s as, Decidable (ValidRun step valid s as)
  | _, [] => .isTrue trivial
  | s, a :: as =>
    have := decidableValidRun (step s a) as
    inferInstanceAs (Decidable (_ ∧ _))

theorem validRun_append : ValidRun step valid s (as ++ bs) ↔
    ValidRun step valid s as ∧ ValidRun step valid (as.foldl step s) bs := by
  induction as generalizing s with
  | nil => simp [ValidRun]
  | cons a as ih => simp [ValidRun, ih, and_assoc]

theorem ValidRun.imp (himp : ∀ s a, valid s a → valid' s a) (h : ValidRun step valid s as) :
    ValidRun step valid' s as := by
  induction as generalizing s with
  | nil => trivial
  | cons a as ih => exact ⟨himp s a h.1, ih h.2⟩

/-- What every valid step keeps, a valid run keeps. -/
theorem ValidRun.invariant {P : σ → Prop} (hstep : ∀ s a, P s → valid s a → P (step s a))
    (h : ValidRun step valid s as) (hs : P s) : P (as.foldl step s) := by
  induction as generalizing s with
  | nil => exact hs
  | cons a as ih => exact ih h.2 (hstep s a hs h.1)

end Ckbadger.Lib
