/-
Ckbadger.Common.StatsBucket — the calendar buckets of the chain clock, and exact work.

A calendar day is its number of days since 1970-01-01 on the UTC+8 clock and an hour
its number of hours since then; the text keys of the stores order the same way for
the years that have four digits.
-/
import Ckbadger.Lib.Fallible

namespace Ckbadger.Common

def hourMs : Int := 60 * 60 * 1000

def dayMs : Int := 24 * hourMs

/-- The clock the stats days run on is eight hours ahead of UTC. -/
def utc8OffsetMs : Int := 8 * 60 * 60 * 1000

/-- Whether a number of milliseconds is an instant of the calendar library. -/
def representable (ms : Int) : Bool := decide (-8334601228800000 ≤ ms ∧ ms ≤ 8210266876799999)

/-- The histogram bucket of an inter-block interval: 0 (under a second), 1 to 29, or 30. -/
def blockTimeToBucket (blockTimeSeconds : Int) : Except String Int :=
  if blockTimeSeconds < 0 then
    .error ("negative inter-block time: seconds=" ++ toString blockTimeSeconds)
  else if blockTimeSeconds < 30 then .ok blockTimeSeconds
  else .ok 30

/-- The UTC+8 day of an instant. -/
def dayOf (chainTimeMs : Int) : Int := (chainTimeMs + utc8OffsetMs) / dayMs

/-- The UTC hour of an instant. -/
def hourOf (chainTimeMs : Int) : Int := chainTimeMs / hourMs

/-- The hour of an instant on the UTC+8 clock. -/
def hourUtc8Of (chainTimeMs : Int) : Int := hourOf chainTimeMs + 8

def statsDay (chainTimeMs : Int) : Except String Int :=
  if representable chainTimeMs then .ok (dayOf chainTimeMs)
  else .error ("chain time cannot be represented as a date: chain_time_ms=" ++ toString chainTimeMs)

def statsHour (chainTimeMs : Int) : Except String Int :=
  if representable (hourOf chainTimeMs * hourMs) then .ok (hourOf chainTimeMs)
  else .error ("chain hour cannot be represented as a date: chain_time_ms=" ++ toString chainTimeMs)

def statsHourUtc8Key (chainTimeMs : Int) : Except String Int := do
  let hour ← statsHour chainTimeMs
  if representable (hour * hourMs + utc8OffsetMs) then return hour + 8
  else .error ("UTC+8 hour overflow: chain_time_ms=" ++ toString chainTimeMs)

theorem statsDay_eq_ok {t d : Int} (h : statsDay t = .ok d) : d = dayOf t := by
  unfold statsDay at h
  split at h
  · exact (Except.ok.inj h).symm
  · cases h

theorem statsHour_eq_ok {t k : Int} (h : statsHour t = .ok k) : k = hourOf t := by
  unfold statsHour at h
  split at h
  · exact (Except.ok.inj h).symm
  · cases h

theorem dayOf_le {t u : Int} (h : t ≤ u) : dayOf t ≤ dayOf u := by
  unfold dayOf dayMs hourMs
  omega

theorem hourOf_le {t u : Int} (h : t ≤ u) : hourOf t ≤ hourOf u := by
  unfold hourOf hourMs
  omega

/-- An hour lies in one day: the two clocks differ by whole hours. -/
theorem dayOf_eq_hourUtc8Of (t : Int) : dayOf t = hourUtc8Of t / 24 := by
  unfold dayOf hourUtc8Of hourOf dayMs utc8OffsetMs hourMs
  omega

theorem dayOf_eq_of_hourOf_eq {t u : Int} (h : hourOf t = hourOf u) : dayOf t = dayOf u := by
  rw [dayOf_eq_hourUtc8Of, dayOf_eq_hourUtc8Of, hourUtc8Of, hourUtc8Of, h]

/-! ## Exact work -/

def u128Max : Nat := 2 ^ 128 - 1

/-- Divides, rounding ties up. -/
def roundedRatio (numerator denominator : Nat) : Except String Nat :=
  if denominator = 0 then .error "zero denominator in exact work ratio"
  else
    let quotient := numerator / denominator
    let remainder := numerator % denominator
    if denominator / 2 + denominator % 2 ≤ remainder then
      if quotient + 1 ≤ u128Max then .ok (quotient + 1)
      else .error "rounded work ratio exceeds u128"
    else .ok quotient

/-- The work of a compact target, `difficulty` being the consensus library's. -/
def compactDifficulty (difficulty : Nat → Nat) (target : Nat) : Except String Nat :=
  let work := difficulty target
  if u128Max < work then
    .error ("compact target " ++ toString target ++ " difficulty " ++ toString work ++
      " exceeds u128")
  else if work = 0 then .error ("compact target " ++ toString target ++ " has zero difficulty")
  else .ok work

end Ckbadger.Common
