/-
Ckbadger.Store.ReadViewTheorems — read scopes and catch-up windows are mutually
exclusive, and the latch is free again once every guard is dropped.

`LatchInv` ties the three counters of the latch to the calls in progress; every
critical section keeps it.
-/
import Ckbadger.Store.ReadView
import Mathlib.Data.Multiset.Filter

namespace Ckbadger.Store

namespace ReadView

/-! ## Notification -/

@[simp] theorem signal_eq_reading {c : Call} : Call.signal c = .reading ↔ c = .reading := by
  cases c <;> simp [Call.signal]

@[simp] theorem signal_eq_window {c : Call} : Call.signal c = .window ↔ c = .window := by
  cases c <;> simp [Call.signal]

@[simp] theorem isOpening_acquiring (yieldUntil : Nat) (timed signalled : Bool) :
    (Call.acquiring yieldUntil timed signalled).isOpening = false := rfl

@[simp] theorem isOpening_reading : Call.reading.isOpening = false := rfl

@[simp] theorem isOpening_opening (signalled : Bool) : (Call.opening signalled).isOpening = true :=
  rfl

@[simp] theorem isOpening_window : Call.window.isOpening = false := rfl

@[simp] theorem isOpening_signal (c : Call) : (Call.signal c).isOpening = c.isOpening := by
  cases c <;> rfl

@[simp] theorem needsSignal_signal (c : Call) : (Call.signal c).needsSignal = false := by
  cases c <;> simp [Call.signal, Call.needsSignal]

theorem count_notify {all : Bool} {calls : Multiset Call} {guard : Call}
    (h : ∀ c, Call.signal c = guard ↔ c = guard) :
    (notify all calls).count guard = calls.count guard := by
  unfold notify
  split
  · rw [Multiset.count_map, Multiset.count_eq_card_filter_eq]
    congr 1
    refine Multiset.filter_congr fun c _ => ?_
    rw [eq_comm, h c, eq_comm]
  · rfl

theorem countP_isOpening_notify {all : Bool} {calls : Multiset Call} :
    (notify all calls).countP (·.isOpening) = calls.countP (·.isOpening) := by
  unfold notify
  split
  · rw [Multiset.countP_map, Multiset.countP_eq_card_filter]
    simp
  · rfl

/-! ## The invariant -/

structure LatchInv (st : System) : Prop where
  readers : st.latch.readers = st.scopes
  windows : st.windows = if st.latch.catchingUp then 1 else 0
  waiting : st.latch.catchUpWaiting = st.queued
  exclusive : st.latch.catchingUp = true → st.scopes = 0
  /-- A reader that only a signal wakes up waits for an open window, whose drop signals. -/
  signals : ∀ c ∈ st.calls, c.needsSignal = true → st.latch.catchingUp = true

theorem LatchInv.init : LatchInv {} where
  readers := rfl
  windows := rfl
  waiting := rfl
  exclusive h := by cases h
  signals c hc := by simp at hc

section Turns

variable {state state' : LatchState} {calls : Multiset Call} {call : Call}

attribute [local simp] System.scopes System.windows System.queued Multiset.countP_cons

/-- A turn of `acquire_read` on behalf of a call that is not counted yet. -/
theorem LatchInv.acquireReadTurn (h : LatchInv ⟨state, calls⟩) (yieldUntil now : Nat) :
    LatchInv ⟨(acquireReadTurn state yieldUntil now).1,
      (acquireReadTurn state yieldUntil now).2 ::ₘ calls⟩ := by
  obtain ⟨hreaders, hwindows, hwaiting, hexclusive, hsignals⟩ := h
  simp only [System.scopes, System.windows, System.queued] at *
  unfold ReadView.acquireReadTurn
  split
  · rename_i hcatching
    refine ⟨?_, ?_, ?_, fun _ => ?_, fun _ _ _ => hcatching⟩
    · simpa using hreaders
    · simpa using hwindows
    · simpa using hwaiting
    · simpa using hexclusive hcatching
  · rename_i hcatching
    have hgranted : LatchInv ⟨{ state with readers := state.readers + 1 }, .reading ::ₘ calls⟩ := by
      refine ⟨?_, ?_, ?_, fun hopen => absurd hopen hcatching,
        Multiset.forall_mem_cons.mpr ⟨nofun, hsignals⟩⟩
      · simpa using hreaders
      · simpa using hwindows
      · simpa using hwaiting
    split
    · exact hgranted
    · split
      · refine ⟨?_, ?_, ?_, fun hopen => absurd hopen hcatching,
          Multiset.forall_mem_cons.mpr ⟨nofun, hsignals⟩⟩
        · simpa using hreaders
        · simpa using hwindows
        · simpa using hwaiting
      · exact hgranted

/-- A turn of `catch_up_window` on behalf of a call that is queued but not among `calls`. -/
theorem LatchInv.catchUpTurn (hreaders : state.readers = calls.count .reading)
    (hwindows : calls.count .window = if state.catchingUp then 1 else 0)
    (hwaiting : state.catchUpWaiting = calls.countP (·.isOpening) + 1)
    (hexclusive : state.catchingUp = true → calls.count .reading = 0)
    (hsignals : ∀ c ∈ calls, c.needsSignal = true → state.catchingUp = true)
    (h : catchUpTurn state = some (state', call)) : LatchInv ⟨state', call ::ₘ calls⟩ := by
  unfold ReadView.catchUpTurn at h
  split at h
  · cases h
    refine ⟨?_, ?_, ?_, fun hopen => ?_, Multiset.forall_mem_cons.mpr ⟨nofun, hsignals⟩⟩
    · simpa using hreaders
    · simpa using hwindows
    · simpa using hwaiting
    · simpa using hexclusive hopen
  · rename_i hfree
    simp only [Bool.or_eq_true, decide_eq_true_eq, not_or, Nat.not_lt, Nat.le_zero] at hfree
    obtain ⟨hclosed, hnone⟩ := hfree
    rw [hwaiting, checkedPred, Option.map_some] at h
    cases h
    refine ⟨?_, ?_, ?_, fun _ => ?_, fun _ _ _ => rfl⟩
    · simpa using hreaders
    · simpa [hclosed] using hwindows
    · simp
    · simpa [← hreaders] using hnone

theorem LatchInv.step {st st' : System} (h : LatchInv st) (hstep : Step st st') : LatchInv st' := by
  obtain ⟨hreaders, hwindows, hwaiting, hexclusive, hsignals⟩ := h
  cases hstep with
  | acquireRead start now =>
    exact LatchInv.acquireReadTurn ⟨hreaders, hwindows, hwaiting, hexclusive, hsignals⟩ _ now
  | @acquireReadAgain state calls yieldUntil timed signalled now =>
    refine LatchInv.acquireReadTurn ⟨?_, ?_, ?_, ?_, ?_⟩ yieldUntil now
    · simpa using hreaders
    · simpa using hwindows
    · simpa using hwaiting
    · simpa using hexclusive
    · exact fun c hc => hsignals c (Multiset.mem_cons_of_mem hc)
  | @dropRead state state' calls last hdrop =>
    -- a live guard is counted, so the counter does not underflow
    have hcount : state.readers = calls.count .reading + 1 := by
      simpa using hreaders
    rw [ReadView.dropRead, hcount, checkedPred] at hdrop
    cases hdrop
    have hclosed : state.catchingUp = false := by
      cases hopen : state.catchingUp with
      | false => rfl
      | true => simpa using hexclusive hopen
    refine ⟨?_, ?_, ?_, fun hopen => absurd hopen (by simp [hclosed]), fun c hc hneeds => ?_⟩
    · rw [System.scopes, count_notify fun _ => signal_eq_reading]
    · rw [System.windows, count_notify fun _ => signal_eq_window]
      simpa using hwindows
    · rw [System.queued, countP_isOpening_notify]
      simpa using hwaiting
    · unfold notify at hc
      split at hc
      · obtain ⟨c', -, rfl⟩ := Multiset.mem_map.mp hc
        simp at hneeds
      · exact hsignals c (Multiset.mem_cons_of_mem hc) hneeds
  | @catchUp state state' calls call hturn =>
    refine LatchInv.catchUpTurn ?_ ?_ ?_ ?_ ?_ hturn
    · exact hreaders
    · exact hwindows
    · exact congrArg (· + 1) hwaiting
    · exact hexclusive
    · exact hsignals
  | @catchUpAgain state state' calls call signalled hturn =>
    refine LatchInv.catchUpTurn ?_ ?_ ?_ ?_ (fun c hc => hsignals c (Multiset.mem_cons_of_mem hc))
      hturn
    · simpa using hreaders
    · simpa using hwindows
    · simpa using hwaiting
    · simpa using hexclusive
  | @dropWindow state calls =>
    -- the window counted is the only one
    have hopen : state.catchingUp = true ∧ calls.count .window = 0 := by
      cases hopen : state.catchingUp with
      | false => simp [hopen] at hwindows
      | true => simpa [hopen] using hwindows
    refine ⟨?_, ?_, ?_, fun hnot => (by cases hnot), fun c hc hneeds => ?_⟩
    · rw [System.scopes, count_notify fun _ => signal_eq_reading]
      simpa [ReadView.dropWindow] using hreaders
    · rw [System.windows, count_notify fun _ => signal_eq_window, hopen.2]
      rfl
    · rw [System.queued, countP_isOpening_notify]
      simpa [ReadView.dropWindow] using hwaiting
    · obtain ⟨c', -, rfl⟩ := Multiset.mem_map.mp (by simpa [notify] using hc)
      simp at hneeds

end Turns

theorem LatchInv.run {st st' : System} (h : LatchInv st)
    (hrun : Relation.ReflTransGen Step st st') : LatchInv st' := by
  induction hrun with
  | refl => exact h
  | tail _ hstep ih => exact ih.step hstep

theorem acquireReadTurn_ne_window (state : LatchState) (yieldUntil now : Nat) :
    (acquireReadTurn state yieldUntil now).2 ≠ .window := by
  unfold acquireReadTurn
  split
  · simp
  · split
    · simp
    · split <;> simp

theorem catchUpTurn_ne_reading {state state' : LatchState} {call : Call}
    (h : catchUpTurn state = some (state', call)) : call ≠ .reading := by
  unfold catchUpTurn at h
  split at h
  · cases h
    simp
  · obtain ⟨_, -, heq⟩ := Option.map_eq_some_iff.mp h
    cases heq
    simp

/-- The step that opens a window is no reader's. -/
theorem Step.scopes_of_opens {st st' : System} (h : Step st st')
    (hopen : st'.windows = st.windows + 1) : st'.scopes = st.scopes := by
  simp only [System.windows, System.scopes] at hopen ⊢
  cases h with
  | @acquireRead state calls start now =>
    have hsame : calls.count .window = calls.count .window + 1 := by
      rwa [Multiset.count_cons_of_ne (acquireReadTurn_ne_window _ _ _).symm] at hopen
    omega
  | @acquireReadAgain state calls yieldUntil timed signalled now =>
    rw [Multiset.count_cons_of_ne (acquireReadTurn_ne_window _ _ _).symm,
      Multiset.count_cons_of_ne (by simp)] at hopen
    omega
  | dropRead hdrop =>
    rw [count_notify fun _ => signal_eq_window, Multiset.count_cons_of_ne (by simp)] at hopen
    omega
  | catchUp hturn => rw [Multiset.count_cons_of_ne (catchUpTurn_ne_reading hturn).symm]
  | catchUpAgain hturn =>
    rw [Multiset.count_cons_of_ne (catchUpTurn_ne_reading hturn).symm,
      Multiset.count_cons_of_ne (by simp)]
  | dropWindow =>
    rw [count_notify fun _ => signal_eq_window, Multiset.count_cons_self] at hopen
    omega

/-- **Read views and catch-up windows are mutually exclusive.** In every state of every
interleaving at most one window is open, and no read scope is active beside it; the reader
count is the number of live guards, and no drop or grant underflows a counter. Once every guard
is dropped a window is granted at once, to a new caller as to a queued one, and so is a reader,
at the latest when its grace has passed; with nobody queued the latch is as it started. -/
theorem readView_exclusive {st : System} (hrun : Relation.ReflTransGen Step {} st) :
    st.windows ≤ 1 ∧ (0 < st.windows → st.scopes = 0) ∧ st.latch.readers = st.scopes ∧
      (0 < st.scopes → (dropRead st.latch).isSome) ∧
      (0 < st.queued → (catchUpTurn st.latch).isSome) ∧
      (st.scopes = 0 → st.windows = 0 →
        (∀ yieldUntil now, st.queued = 0 ∨ yieldUntil < now →
          (acquireReadTurn st.latch yieldUntil now).2 = .reading) ∧
        (∃ latch', catchUpTurn (enqueueCatchUp st.latch) = some (latch', .window)) ∧
        (0 < st.queued → ∃ latch', catchUpTurn st.latch = some (latch', .window)) ∧
        (st.queued = 0 → st.latch = {})) := by
  obtain ⟨hreaders, hwindows, hwaiting, hexclusive, -⟩ := LatchInv.init.run hrun
  have hqueue : ∀ n, st.queued = n + 1 → checkedPred st.latch.catchUpWaiting = some n := by
    intro n hn
    rw [hwaiting, hn, checkedPred]
  refine ⟨?_, fun hopen => ?_, hreaders, fun hscope => ?_, fun hqueued => ?_, fun hnone hclosed => ?_⟩
  · rw [hwindows]
    split <;> decide
  · refine hexclusive ?_
    cases hflag : st.latch.catchingUp with
    | false => simp [hwindows, hflag] at hopen
    | true => rfl
  · obtain ⟨n, hn⟩ := Nat.exists_eq_succ_of_ne_zero hscope.ne'
    rw [dropRead, hreaders, hn]
    rfl
  · obtain ⟨n, hn⟩ := Nat.exists_eq_succ_of_ne_zero hqueued.ne'
    unfold catchUpTurn
    split
    · rfl
    · rw [hqueue n hn]
      rfl
  · have hflag : st.latch.catchingUp = false := by
      cases hflag : st.latch.catchingUp with
      | false => rfl
      | true => simp [hwindows, hflag] at hclosed
    have hfree : st.latch.readers = 0 := hreaders.trans hnone
    refine ⟨fun yieldUntil now hnow => ?_, ?_, fun hqueued => ?_, fun hidle => ?_⟩
    · rw [acquireReadTurn, if_neg (by simp [hflag]), hwaiting]
      rcases hnow with hidle | hlate
      · rw [if_pos hidle]
      · rw [if_neg hlate.not_ge, ite_self]
    · rw [catchUpTurn, if_neg (by simp [enqueueCatchUp, hflag, hfree])]
      exact ⟨_, rfl⟩
    · obtain ⟨n, hn⟩ := Nat.exists_eq_succ_of_ne_zero hqueued.ne'
      rw [catchUpTurn, if_neg (by simp [hflag, hfree]), hqueue n hn]
      exact ⟨_, rfl⟩
    · rw [hidle] at hwaiting
      cases hlatch : st.latch
      simp_all

/-- A reader pins the view, a window is queued behind it, the reader is dropped. -/
theorem queuedWindow_granted :
    Relation.ReflTransGen Step {} ⟨⟨0, false, 1⟩, {.opening true}⟩ ∧
      ∃ latch', catchUpTurn ⟨0, false, 1⟩ = some (latch', .window) := by
  have hrun : Relation.ReflTransGen Step {} ⟨⟨0, false, 1⟩, {.opening true}⟩ := by
    have hread : Step {} ⟨⟨1, false, 0⟩, {.reading}⟩ := .acquireRead 0 0
    have hqueue : Step ⟨⟨1, false, 0⟩, {.reading}⟩ ⟨⟨1, false, 1⟩, .reading ::ₘ {.opening false}⟩ := by
      rw [← Multiset.cons_zero, ← Multiset.cons_zero, Multiset.cons_swap]
      exact .catchUp rfl
    have hdrop : Step ⟨⟨1, false, 1⟩, .reading ::ₘ {.opening false}⟩
        ⟨⟨0, false, 1⟩, notify true {.opening false}⟩ := .dropRead rfl
    exact ((Relation.ReflTransGen.single hread).tail hqueue).tail hdrop
  have hfree := (readView_exclusive hrun).2.2.2.2.2 (by decide) (by decide)
  exact ⟨hrun, hfree.2.2.1 (by decide)⟩

/-- **No wake-up is lost.** In every state of every interleaving without a live guard, no call in
progress waits for a signal that has gone, and while one is there some step grants a guard. -/
theorem parked_call_granted {st : System} (hrun : Relation.ReflTransGen Step {} st)
    (hscopes : st.scopes = 0) (hwindows : st.windows = 0) {c : Call} (hc : c ∈ st.calls) :
    c.needsSignal = false ∧ ∃ st', Step st st' ∧ st'.scopes + st'.windows = 1 := by
  obtain ⟨hreaders, hopen, hwaiting, -, hsignals⟩ := LatchInv.init.run hrun
  obtain ⟨⟨readers, catchingUp, waiting⟩, calls⟩ := st
  obtain ⟨rest, rfl⟩ := Multiset.exists_cons_of_mem hc
  obtain rfl : readers = 0 := hreaders.trans hscopes
  obtain rfl : catchingUp = false := by
    cases catchingUp <;> simp_all
  simp only [System.scopes, System.windows, Multiset.count_eq_zero, Multiset.mem_cons, not_or]
    at hscopes hwindows ⊢
  refine ⟨by simpa using hsignals c hc, ?_⟩
  cases c with
  | acquiring yieldUntil timed signalled =>
    -- past its grace the reader no longer yields
    have hturn : acquireReadTurn ⟨0, false, waiting⟩ yieldUntil (yieldUntil + 1)
        = (⟨1, false, waiting⟩, .reading) := by simp [acquireReadTurn]
    exact ⟨_, .acquireReadAgain (yieldUntil + 1), by simp [hturn, hscopes, hwindows]⟩
  | opening signalled =>
    obtain rfl : waiting = rest.countP (·.isOpening) + 1 := by
      simpa [System.queued, Multiset.countP_cons] using hwaiting
    exact ⟨_, .catchUpAgain rfl, by simp [hscopes, hwindows]⟩
  | reading => simp at hscopes
  | window => simp at hwindows

/-- A reader parks behind a window; the window closes. -/
theorem parked_call_granted_reader :
    ∃ st', Step ⟨{}, {.acquiring 100 false true}⟩ st' ∧ st'.scopes + st'.windows = 1 := by
  have hopen : Step {} ⟨⟨0, true, 0⟩, {.window}⟩ := .catchUp rfl
  have hpark : Step ⟨⟨0, true, 0⟩, {.window}⟩
      ⟨⟨0, true, 0⟩, .window ::ₘ {.acquiring 100 false false}⟩ := by
    rw [← Multiset.cons_zero, ← Multiset.cons_zero, Multiset.cons_swap]
    exact .acquireRead 0 0
  exact (parked_call_granted (((Relation.ReflTransGen.single hopen).tail hpark).tail .dropWindow)
    (by decide) (by decide) (Multiset.mem_singleton_self _)).2

end ReadView

end Ckbadger.Store
