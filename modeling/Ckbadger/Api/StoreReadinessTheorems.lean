/-
Ckbadger.Api.StoreReadinessTheorems — when a served view is coherent.

The refresh order inside a window matters: the append-only secondary catches up
first, so a cell whose payload and row the indexer commits before the domain secondary
follows is visible with its row and without its payload. Where no such cell comes between,
every served scope sees a coherent view (`servedScope_coherent`).
-/
import Ckbadger.Api.StoreReadiness
import Ckbadger.Store.ReadViewTheorems

namespace Ckbadger.Api

open Lib Store OrderedStore List

variable {st st' : ApiState} {outpoint : Bytes} {domain : DomainStore} {ops : DomainBatch}
variable {phase : Phase}

/-! ## Cell rows -/

/-- The cell rows after a write: each was there before or is put by the write. -/
theorem hasCellRow_write {cells : DomainBatch}
    (hops : WritesCells ops cells) (h : hasCellRow (domain.write ops) outpoint = true) :
    hasCellRow domain outpoint = true ∨
      ∃ v, .put .liveCells outpoint v ∈ cells ∨ .put .consumedCells outpoint v ∈ cells := by
  simp only [hasCellRow, get_write, Bool.or_eq_true] at h ⊢
  rw [(hops _ _).1, (hops _ _).2] at h
  rcases h with h | h
  · rcases rowAfter_isSome h with h | ⟨v, hv⟩
    · exact .inl (.inl h)
    · exact .inr ⟨v, .inl hv⟩
  · rcases rowAfter_isSome h with h | ⟨v, hv⟩
    · exact .inl (.inr h)
    · exact .inr ⟨v, .inr hv⟩

/-- A domain batch adds rows for the cells it creates only. -/
theorem hasCellRow_batch {batch : CellBatch}
    (hresolved : batch.Resolved domain) (hops : WritesCells ops batch.rows)
    (h : hasCellRow (domain.write ops) outpoint = true) :
    hasCellRow domain outpoint = true ∨ outpoint ∈ batch.created.map Prod.fst := by
  rcases hasCellRow_write hops h with hold | ⟨v, hv⟩
  · exact .inl hold
  · simp only [CellBatch.rows, mem_append, mem_map, mem_flatMap, mem_cons,
      not_mem_nil, or_false, WriteOp.put.injEq, reduceCtorEq, false_and, and_false,
      exists_const, true_and, false_or] at hv
    rcases hv with ⟨c, hc, rfl, -⟩ | ⟨c, hc, rfl, -⟩
    · exact .inr (mem_map_of_mem hc)
    · exact hresolved c hc

theorem hasCellRow_rollback {dropped : List Bytes} {restored : List (Bytes × Bytes)}
    (hrestored : ∀ c ∈ restored, (domain.get .consumedCells c.1).isSome)
    (hops : WritesCells ops (rollbackRows dropped restored))
    (h : hasCellRow (domain.write ops) outpoint = true) : hasCellRow domain outpoint = true := by
  rcases hasCellRow_write hops h with hold | ⟨v, hv⟩
  · exact hold
  · simp only [rollbackRows, mem_append, mem_flatMap, mem_cons, not_mem_nil,
      or_false, WriteOp.put.injEq, reduceCtorEq, false_and, and_false, exists_const, true_and,
      false_or] at hv
    obtain ⟨c, hc, rfl, -⟩ := hv
    simp [hasCellRow, hrestored c hc]

theorem hasPayload_write {appendOnly : OrderedStore AppendCf} {batch : CellBatch} :
    hasPayload (appendOnly.write batch.payloads) outpoint = true ↔
      hasPayload appendOnly outpoint = true ∨ outpoint ∈ batch.created.map Prod.fst := by
  rw [hasPayload, get_write]
  refine ⟨fun h => (rowAfter_isSome h).imp_right ?_, rowAfter_puts_isSome⟩
  rintro ⟨v, hv⟩
  obtain ⟨c, hc, heq⟩ := mem_map.mp hv
  cases heq
  exact mem_map_of_mem hc

/-! ## Readiness -/

/-- Data is served after a round has caught up every secondary. -/
theorem Phase.serving_of_check (h : phase.check = .ok ()) :
    ∃ stores rounds, phase = .serving stores rounds := by
  cases phase with
  | firstCatchUp lastAttempt => cases lastAttempt <;> cases h
  | serving stores rounds => exact ⟨stores, rounds, rfl⟩

/-- Serving starts with a round whose outcomes are all good. -/
theorem Phase.recordRound_serving {outcomes : List CatchUpOutcome}
    {stores : SecondaryStore → Option Failures} {rounds : Option Failures}
    (h : phase.recordRound outcomes = .serving stores rounds) :
    (∃ stores rounds, phase = .serving stores rounds) ∨
      ∀ outcome ∈ outcomes, outcome.result = .ok () := by
  cases phase with
  | serving stores rounds => exact .inl ⟨stores, rounds, rfl⟩
  | firstCatchUp lastAttempt =>
    unfold Phase.recordRound at h
    split at h
    · cases h
    · simp only at h
      split at h
      · rename_i hnone
        refine .inr fun outcome houtcome => ?_
        have hok := filterMap_eq_nil_iff.mp hnone outcome houtcome
        unfold CatchUpOutcome.failure at hok
        split at hok
        · assumption
        · cases hok
      · cases h

/-! ## Runs -/

/-- The condition on a step: a domain catch-up succeeds only while no cell has a row whose payload
was first committed after the last good append-only catch-up. Before the first complete round
a round whose append-only catch-up failed is free, for it is not served. -/
def Ordered (st st' : ApiState) : Prop :=
  ∀ appendOnly, st.round = .appended appendOnly → st'.round = .advanced appendOnly (.ok ()) →
    (∀ o ∈ st.unseen, hasCellRow st.primary.domain o = false) ∨
      (∃ e, appendOnly = .error e) ∧ ∃ a, st.phase = .firstCatchUp a

/-- Whether the views may be served now or once the round is recorded. -/
inductive Ready (round : Round) (phase : Phase) : Prop where
  | serving {stores : SecondaryStore → Option Failures} {rounds : Option Failures}
      (h : phase = .serving stores rounds)
  | advanced (h : round = .advanced (.ok ()) (.ok ()))
  | closed {outcomes : List CatchUpOutcome} (h : round = .closed (some outcomes))
      (hok : ∀ outcome ∈ outcomes, outcome.result = .ok ())

/-- A round that returns nothing yet adds nothing to the phase. -/
theorem Ready.of_phase {round round' : Round} (h : Ready round phase)
    (hadvanced : round ≠ .advanced (.ok ()) (.ok ()))
    (hclosed : ∀ outcomes, round ≠ .closed (some outcomes)) : Ready round' phase := by
  cases h with
  | serving hphase => exact .serving hphase
  | advanced hr => exact absurd hr hadvanced
  | closed hr => exact absurd hr (hclosed _)

structure ViewInv (st : ApiState) : Prop where
  latch : ReadView.LatchInv st.latch
  window : st.latch.windows = if st.round.inWindow then 1 else 0
  scopes : st.served ≤ st.latch.scopes
  primary : st.primary.Coherent
  pending : ∀ batch, st.pending = some batch →
    ∀ o ∈ batch.created.map Prod.fst, hasPayload st.primary.appendOnly o = true
  earlier : ∀ o, hasPayload st.view.appendOnly o = true → hasPayload st.primary.appendOnly o = true
  seen : ∀ o, hasPayload st.primary.appendOnly o = true →
    hasPayload st.view.appendOnly o = true ∨ o ∈ st.unseen
  ready : Ready st.round st.phase → st.view.Coherent
  served : 0 < st.served → st.view.Coherent

theorem ViewInv.init (h : Starts st) : ViewInv st where
  latch := h.latch ▸ .init
  window := by
    rw [h.latch, h.round]
    rfl
  scopes := by simp [h.served]
  primary := h.coherent
  pending batch hbatch := by simp [h.pending] at hbatch
  earlier := h.earlier
  seen := h.unseen
  ready hready := by
    cases hready with
    | serving hphase => simp [h.phase] at hphase
    | advanced hround => simp [h.round] at hround
    | closed hround => simp [h.round] at hround
  served hserved := by simp [h.served] at hserved

theorem ViewInv.unserved (h : ViewInv st) (hround : st.round.inWindow = true) : st.served = 0 := by
  have hwindows := h.window
  rw [hround, h.latch.windows] at hwindows
  have hopen : st.latch.latch.catchingUp = true := by
    cases hflag : st.latch.latch.catchingUp with
    | false => simp [hflag] at hwindows
    | true => rfl
  have hnone := h.latch.exclusive hopen
  have hscopes := h.scopes
  omega

theorem ViewInv.step (h : ViewInv st) (hordered : Ordered st st')
    (hstep : Step st st') : ViewInv st' := by
  cases hstep with
  | payloads batch hpending =>
    have hgrows : ∀ o, hasPayload st.primary.appendOnly o = true →
        hasPayload (st.primary.appendOnly.write batch.payloads) o = true :=
      fun o ho => hasPayload_write.mpr (.inl ho)
    exact
      { h with
        primary := fun o ho => hgrows o (h.primary o ho)
        pending := by
          rintro _ ⟨⟩ o ho
          exact hasPayload_write.mpr (.inr ho)
        earlier := fun o ho => hgrows o (h.earlier o ho)
        seen := fun o ho => by
          simp only [mem_append, mem_filter, Bool.not_eq_true']
          cases hbefore : hasPayload st.primary.appendOnly o with
          | true => exact (h.seen o hbefore).imp_right .inl
          | false => exact .inr (.inr ⟨(hasPayload_write.mp ho).resolve_left (by simp [hbefore]), rfl⟩) }
  | @domain batch ops hpending hresolved hops =>
    exact
      { h with
        primary := fun o ho => by
          rcases hasCellRow_batch hresolved hops ho with hold | hnew
          · exact h.primary o hold
          · exact h.pending batch hpending o hnew
        pending := fun _ hnone => by cases hnone }
  | stopped =>
    exact
      { h with
        pending := fun _ hnone => by cases hnone }
  | rollback hpending hrestored hops =>
    exact
      { h with
        primary := fun o ho => h.primary o (hasCellRow_rollback hrestored hops ho) }
  | latch hlatch hwindows hserved hscopes =>
    exact
      { h with
        latch := h.latch.step hlatch
        window := hwindows.trans h.window
        scopes := hscopes
        served := fun hpos => h.served (hpos.trans_le hserved) }
  | serve hcheck hscope =>
    obtain ⟨stores, rounds, hphase⟩ := Phase.serving_of_check hcheck
    exact
      { h with
        scopes := hscope
        served := fun _ => h.ready (.serving hphase) }
  | openWindow hround hlatch hopen =>
    exact
      { h with
        latch := h.latch.step hlatch
        window := by
          rw [hopen, h.window, hround]
          rfl
        scopes := by
          rw [hlatch.scopes_of_opens hopen]
          exact h.scopes
        ready := fun hready => h.ready (hready.of_phase nofun nofun) }
  | catchUpAppendOnly result hround =>
    have hin : st.round.inWindow = true := by rw [hround]; rfl
    have hcoherent : st.view.Coherent → Covered st.view.domain
        (caughtUp result st.primary.appendOnly st.view.appendOnly) := by
      intro hview o ho
      cases result with
      | ok => exact h.earlier o (hview o ho)
      | error e => exact hview o ho
    exact
      { h with
        window := by
          rw [h.window, hin]
          rfl
        earlier := fun o ho => by
          cases result with
          | ok => exact ho
          | error e => exact h.earlier o ho
        seen := fun o ho => by
          cases result with
          | ok => exact .inl ho
          | error e => exact h.seen o ho
        ready := fun hready => hcoherent (h.ready (hready.of_phase nofun nofun))
        served := fun hpos => absurd (h.unserved hin) hpos.ne' }
  | @catchUpDomain appendOnly result hround =>
    have hin : st.round.inWindow = true := by rw [hround]; rfl
    exact
      { h with
        window := by
          rw [h.window, hin]
          rfl
        ready := fun hready => by
          cases result with
          | error e => exact h.ready (hready.of_phase nofun nofun)
          | ok =>
            rcases hordered appendOnly hround rfl with hunseen | ⟨⟨e, rfl⟩, a, hfirst⟩
            · exact fun o ho => (h.seen o (h.primary o ho)).resolve_right fun hmem =>
                Bool.false_ne_true ((hunseen o hmem).symm.trans ho)
            · cases hready with
              | serving hphase => cases hfirst.symm.trans hphase
              | advanced hr => cases hr
              | closed hr => cases hr
        served := fun hpos => absurd (h.unserved hin) hpos.ne' }
  | @closeWindow appendOnly domain latch' others hround hlatch hclose =>
    have hin : st.round.inWindow = true := by rw [hround]; rfl
    have hnone := h.unserved hin
    exact
      { h with
        latch := h.latch.step hlatch
        window := by
          have hopen := h.window
          rw [hin, if_pos rfl] at hopen
          simp only [Round.inWindow]
          simp
          omega
        scopes := by simp [hnone]
        ready := fun hready => by
          cases hready with
          | serving hphase => exact h.ready (.serving hphase)
          | advanced hr => cases hr
          | closed hr hok =>
            cases hr
            have happend : appendOnly = .ok () := hok _ List.mem_cons_self
            have hdomain : domain = .ok () :=
              hok _ (List.mem_cons_of_mem _ List.mem_cons_self)
            rw [happend, hdomain] at hround
            exact h.ready (.advanced hround) }
  | panicked hround hlatch hclose =>
    have hnone := h.unserved hround
    exact
      { h with
        latch := h.latch.step hlatch
        window := by
          have hopen := h.window
          rw [hround, if_pos rfl] at hopen
          simp only [Round.inWindow]
          simp
          omega
        scopes := by simp [hnone]
        ready := fun hready => h.ready (hready.of_phase nofun nofun) }
  | record hround =>
    exact
      { h with
        window := by
          rw [h.window, hround]
          rfl
        ready := fun hready => by
          cases hready with
          | serving hphase =>
            rcases Phase.recordRound_serving hphase with ⟨_, _, hserving⟩ | hok
            · exact h.ready (.serving hserving)
            · exact h.ready (.closed hround hok)
          | advanced hr => cases hr
          | closed hr => cases hr }
  | recordFailed error hround =>
    exact
      { h with
        window := by
          rw [h.window, hround]
          rfl
        ready := fun hready => by
          cases hready with
          | serving hphase =>
            cases hbefore : st.phase with
            | firstCatchUp a =>
              rw [hbefore] at hphase
              cases hphase
            | serving stores rounds => exact h.ready (.serving hbefore)
          | advanced hr => cases hr
          | closed hr => cases hr }

/-- A run whose steps all meet the condition. -/
abbrev OrderedRun : ApiState → ApiState → Prop :=
  Relation.ReflTransGen fun st st' => Step st st' ∧ Ordered st st'

theorem ViewInv.run (h : ViewInv st) (hrun : OrderedRun st st') : ViewInv st' := by
  induction hrun with
  | refl => exact h
  | tail _ hstep ih => exact ih.step hstep.2 hstep.1

/-- **A served view is coherent.** In every run in which no cell gets its payload and its row
between the last good append-only catch-up and a good domain catch-up, each served scope finds
the payload of every outpoint that has a live or consumed row. -/
theorem servedScope_coherent {st₀ st : ApiState} (hstart : Starts st₀) (hrun : OrderedRun st₀ st)
    (hserved : 0 < st.served) {outpoint : Bytes}
    (hrow : hasCellRow st.view.domain outpoint = true) :
    hasPayload st.view.appendOnly outpoint = true :=
  ((ViewInv.init hstart).run hrun).served hserved outpoint hrow

/-- The first cell of a chain. -/
def firstCell : CellBatch := ⟨[([1], [2], [3])], []⟩

/-- The stores with and without the first cell. -/
def noCell : Stores := ⟨empty, empty⟩

def oneCell : Stores :=
  ⟨empty.write firstCell.rows, empty.write firstCell.payloads⟩

/-- A process that starts beside a primary with these stores. -/
def started (primary : Stores) : ApiState :=
  ⟨primary, none, noCell, {}, .idle, .firstCatchUp none, 0, [[1]]⟩

theorem starts_started {primary : Stores} (h : primary.Coherent)
    (hunseen : ∀ o, hasPayload primary.appendOnly o = true → o = [1]) : Starts (started primary) where
  phase := rfl
  round := rfl
  latch := rfl
  served := rfl
  unseen o ho := .inr (mem_singleton.mpr (hunseen o ho))
  pending := rfl
  coherent := h
  earlier o ho := by simp [started, noCell, hasPayload] at ho

/-- The latch with the round's window open, and with one scope pinned after it. -/
def windowOpen : ReadView.System := ⟨⟨0, true, 0⟩, {.window}⟩

def onePinned : ReadView.System := ⟨⟨1, false, 0⟩, {.reading}⟩

/-- A first round that catches both stores up, and a request after it. -/
def servedOnce (primary view : Stores) (unseen : List Bytes) : ApiState :=
  ⟨primary, none, view, onePinned, .idle, .serving (fun _ => none) none, 1, unseen⟩

/-- A step that is no domain catch-up meets the condition. -/
theorem Step.ordered (hstep : Step st st') (hround : ∀ a, st.round ≠ .appended a) :
    Step st st' ∧ Ordered st st' :=
  ⟨hstep, fun a ha => absurd ha (hround a)⟩

theorem firstRound_opens : ReadView.Step {} windowOpen := .catchUp rfl

/-- From a round that has advanced both stores to the first served scope. -/
theorem advanced_served {primary view : Stores} {unseen : List Bytes} :
    OrderedRun
      ⟨primary, none, view, windowOpen, .advanced (.ok ()) (.ok ()), .firstCatchUp none, 0, unseen⟩
      (servedOnce primary view unseen) := by
  have hclose : ReadView.Step windowOpen {} := .dropWindow
  have hpin : ReadView.Step {} onePinned := .acquireRead 0 0
  have hscope : 0 < onePinned.scopes := by decide
  let good : List CatchUpOutcome := [⟨.appendOnly, .ok ()⟩, ⟨.domain, .ok ()⟩]
  let closed : ApiState :=
    ⟨primary, none, view, {}, .closed (some good), .firstCatchUp none, 0, unseen⟩
  have hclosed : Step
      ⟨primary, none, view, windowOpen, .advanced (.ok ()) (.ok ()), .firstCatchUp none, 0, unseen⟩
      closed := .closeWindow [] rfl hclose rfl
  have hrecorded : Step closed
      { closed with phase := closed.phase.recordRound good, round := .idle } := .record rfl
  have hpinned : Step ⟨primary, none, view, {}, .idle, .serving (fun _ => none) none, 0, unseen⟩
      ⟨primary, none, view, onePinned, .idle, .serving (fun _ => none) none, 0, unseen⟩ :=
    .latch hpin rfl le_rfl (Nat.zero_le _)
  have hserved : Step
      ⟨primary, none, view, onePinned, .idle, .serving (fun _ => none) none, 0, unseen⟩
      (servedOnce primary view unseen) := .serve rfl hscope
  refine .head (hclosed.ordered (by simp)) (.head (hrecorded.ordered (by simp)) ?_)
  exact .head (hpinned.ordered (by simp)) (.single (hserved.ordered (by simp)))

/-- A first round beside a primary with one cell. -/
theorem oneCell_served :
    OrderedRun (started oneCell) (servedOnce oneCell oneCell []) ∧
      hasCellRow oneCell.domain [1] = true ∧ hasPayload oneCell.appendOnly [1] = true := by
  have hcoherent : oneCell.Coherent := by
    intro o ho
    have hresolved : firstCell.Resolved empty := fun c hc => by cases hc
    rcases hasCellRow_batch hresolved (fun _ _ => ⟨rfl, rfl⟩) ho with hold | hnew
    · simp [hasCellRow] at hold
    · exact hasPayload_write.mpr (.inr hnew)
  have hunseen : ∀ o, hasPayload oneCell.appendOnly o = true → o = [1] := by
    intro o ho
    rcases hasPayload_write.mp ho with hold | hnew
    · simp [hasPayload] at hold
    · simpa [firstCell] using hnew
  have hrun : OrderedRun (started oneCell) (servedOnce oneCell oneCell []) := by
    refine .head ((Step.openWindow rfl firstRound_opens rfl).ordered (by simp [started])) ?_
    refine .head ((Step.catchUpAppendOnly (.ok ()) rfl).ordered (by simp)) ?_
    refine .head ⟨Step.catchUpDomain (.ok ()) rfl, fun _ _ _ => .inl nofun⟩ ?_
    exact advanced_served
  have hrow : hasCellRow oneCell.domain [1] = true := by decide +kernel
  exact ⟨hrun, hrow, servedScope_coherent (starts_started hcoherent hunseen) hrun (by decide) hrow⟩

/-- The indexer commits the first cell between the two catch-ups of the first round: the round is
good, data is served, and the cell's row is there without its payload. -/
theorem racedRound_incoherent :
    ∃ st, Starts (started noCell) ∧ Relation.ReflTransGen Step (started noCell) st ∧
      0 < st.served ∧ hasCellRow st.view.domain [1] = true ∧
      hasPayload st.view.appendOnly [1] = false := by
  refine ⟨servedOnce oneCell ⟨oneCell.domain, noCell.appendOnly⟩ [[1]], starts_started ?_ ?_, ?_,
    by decide, by decide +kernel, by decide +kernel⟩
  · intro o ho
    simp [noCell, hasCellRow] at ho
  · intro o ho
    simp [noCell, hasPayload] at ho
  · refine .head (.openWindow rfl firstRound_opens rfl) ?_
    refine .head (.catchUpAppendOnly (.ok ()) rfl) ?_
    refine .head (.payloads firstCell rfl) ?_
    refine .head (.domain rfl (fun c hc => by cases hc) fun _ _ => ⟨rfl, rfl⟩) ?_
    refine .head (.catchUpDomain (.ok ()) rfl) ?_
    exact Relation.ReflTransGen.mono (fun _ _ h => And.left h) _ _ advanced_served

end Ckbadger.Api
