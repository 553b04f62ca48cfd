/-
Ckbadger.Store.ReadView — the process-wide latch between pinned read scopes and
the catch-up of secondary stores.

Every critical section of the latch is one function on its state. A system is the
latch with the calls in progress, any number of them; its steps run one critical
section each. Nothing is assumed about the clock or about when a parked call wakes
up, so a step of a parked call stands for a signal, a timeout and a spurious
wake-up alike.
-/
import Mathlib.Data.Multiset.MapFold

namespace Ckbadger.Store

namespace ReadView

structure LatchState where
  /-- Read scopes currently pinning the view. -/
  readers : Nat := 0
  /-- A catch-up window is open. -/
  catchingUp : Bool := false
  /-- Catch-up windows queued behind the current readers. -/
  catchUpWaiting : Nat := 0
  deriving DecidableEq

/-- `CATCH_UP_YIELD_GRACE` in milliseconds. -/
def catchUpYieldGrace : Nat := 100

/-- Where a call stands: parked on the condition variable, or returned with its guard alive. A
parked call keeps whether a `notify_all` has reached it. -/
inductive Call where
  /-- In the loop of `acquire_read`, with or without a timeout. -/
  | acquiring (yieldUntil : Nat) (timed signalled : Bool)
  /-- A live `ReadViewGuard`. -/
  | reading
  /-- In the loop of `catch_up_window`. -/
  | opening (signalled : Bool)
  /-- A live `CatchUpWindow`. -/
  | window
  deriving DecidableEq

/-! ## Critical sections -/

/-- `n - 1` on a counter; nothing on underflow. -/
def checkedPred : Nat → Option Nat
  | 0 => none
  | n + 1 => some n

/-- One turn of the loop of `acquire_read`: the call is granted its guard or parks. -/
def acquireReadTurn (state : LatchState) (yieldUntil now : Nat) : LatchState × Call :=
  if state.catchingUp then (state, .acquiring yieldUntil false false)
  else if state.catchUpWaiting = 0 then ({ state with readers := state.readers + 1 }, .reading)
  else if now ≤ yieldUntil then (state, .acquiring yieldUntil true false)
  else ({ state with readers := state.readers + 1 }, .reading)

/-- The drop of a `ReadViewGuard`; the last one notifies. -/
def dropRead (state : LatchState) : Option (LatchState × Bool) :=
  (checkedPred state.readers).map fun readers => ({ state with readers }, readers == 0)

/-- A call of `catch_up_window` queues first. -/
def enqueueCatchUp (state : LatchState) : LatchState :=
  { state with catchUpWaiting := state.catchUpWaiting + 1 }

/-- One turn of the loop of `catch_up_window`; nothing if the queue counter underflows. -/
def catchUpTurn (state : LatchState) : Option (LatchState × Call) :=
  if state.catchingUp || state.readers > 0 then some (state, .opening false)
  else (checkedPred state.catchUpWaiting).map fun catchUpWaiting =>
    ({ state with catchUpWaiting, catchingUp := true }, .window)

/-- The drop of a `CatchUpWindow`, which always notifies. -/
def dropWindow (state : LatchState) : LatchState := { state with catchingUp := false }

/-! ## Runs -/

/-- `notify_all` reaches every parked call. -/
def Call.signal : Call → Call
  | .acquiring yieldUntil timed _ => .acquiring yieldUntil timed true
  | .opening _ => .opening true
  | c => c

structure System where
  latch : LatchState := {}
  calls : Multiset Call := 0

/-- The calls of a system with those that are parked notified or not. -/
def notify (all : Bool) (calls : Multiset Call) : Multiset Call :=
  if all then calls.map Call.signal else calls

inductive Step : System → System → Prop where
  /-- `acquire_read` is called: it reads the clock for its grace, and again in its first turn. -/
  | acquireRead {state : LatchState} {calls : Multiset Call} (start now : Nat) :
      Step ⟨state, calls⟩ ⟨(acquireReadTurn state (start + catchUpYieldGrace) now).1,
        (acquireReadTurn state (start + catchUpYieldGrace) now).2 ::ₘ calls⟩
  /-- A parked `acquire_read` wakes up. -/
  | acquireReadAgain {state : LatchState} {calls : Multiset Call} {yieldUntil : Nat}
      {timed signalled : Bool} (now : Nat) :
      Step ⟨state, .acquiring yieldUntil timed signalled ::ₘ calls⟩
        ⟨(acquireReadTurn state yieldUntil now).1,
          (acquireReadTurn state yieldUntil now).2 ::ₘ calls⟩
  /-- A read scope ends. -/
  | dropRead {state state' : LatchState} {calls : Multiset Call} {last : Bool}
      (h : dropRead state = some (state', last)) :
      Step ⟨state, .reading ::ₘ calls⟩ ⟨state', notify last calls⟩
  /-- `catch_up_window` is called. -/
  | catchUp {state state' : LatchState} {calls : Multiset Call} {call : Call}
      (h : catchUpTurn (enqueueCatchUp state) = some (state', call)) :
      Step ⟨state, calls⟩ ⟨state', call ::ₘ calls⟩
  /-- A parked `catch_up_window` wakes up. -/
  | catchUpAgain {state state' : LatchState} {calls : Multiset Call} {call : Call}
      {signalled : Bool} (h : catchUpTurn state = some (state', call)) :
      Step ⟨state, .opening signalled ::ₘ calls⟩ ⟨state', call ::ₘ calls⟩
  /-- A window closes. -/
  | dropWindow {state : LatchState} {calls : Multiset Call} :
      Step ⟨state, .window ::ₘ calls⟩ ⟨dropWindow state, notify true calls⟩

def Call.isOpening : Call → Bool
  | .opening _ => true
  | _ => false

/-- Whether only a signal can wake a call up. -/
def Call.needsSignal : Call → Bool
  | .acquiring _ timed signalled => !timed && !signalled
  | _ => false

/-- Live reader guards. -/
def System.scopes (st : System) : Nat := st.calls.count .reading

/-- Open windows. -/
def System.windows (st : System) : Nat := st.calls.count .window

/-- Calls of `catch_up_window` that have not returned. -/
def System.queued (st : System) : Nat := st.calls.countP (·.isOpening)

end ReadView

end Ckbadger.Store
