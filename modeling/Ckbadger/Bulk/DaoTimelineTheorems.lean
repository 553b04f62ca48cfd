/-
Ckbadger.Bulk.DaoTimelineTheorems — the timeline observes the plain sums.

Rounding is per deposit, and the timeline never aggregates before it rounds: a deposit is
read afresh while it is active, and from its request on it stands for one frozen amount,
which moves from the open requests to the claimed ones. After an observation the timeline
has processed exactly the events up to that block (`Swept`), so its sums are those over all
lifecycles (`timeline_eq_plain_sums`). A map has fewer than 2⁶⁴ entries and one amount less
than 2⁶³ shannons, so no sum on the way overflows.
-/
import Ckbadger.Bulk.DaoTimelineWalk
import Mathlib.Data.List.TakeWhile

namespace Ckbadger.Bulk

open Lib Store Std ExtTreeMap DaoCompensationBreakdown List

/-! ## One observation -/

namespace DaoCompensationTimeline

/-- The events of all lifecycles. -/
def allEvents (deposits : DaoDeposits) : DaoEvents where
  deposits := eventsOf deposits fun e => some e.depositBlockNumber
  requests := eventsOf deposits (·.withdrawRequestBlock)
  withdrawals := eventsOf deposits (·.withdrawBlock)

/-- The events of all lifecycles up to a block. -/
def eventsUpTo (deposits : DaoDeposits) (b : Int) : DaoEvents where
  deposits := reached b (allEvents deposits).deposits
  requests := reached b (allEvents deposits).requests
  withdrawals := reached b (allEvents deposits).withdrawals

/-- A timeline between observations: what it has done and what is still to come are the
events of all lifecycles, and what it has done is not after its last observation. -/
structure Swept (deposits : DaoDeposits) (done : DaoEvents)
    (t : DaoCompensationTimeline) : Prop where
  walked : Walked deposits done t
  deposits_split : (allEvents deposits).deposits = done.deposits ++ t.depositEvents
  requests_split : (allEvents deposits).requests = done.requests ++ t.requestEvents
  withdrawals_split : (allEvents deposits).withdrawals = done.withdrawals ++ t.withdrawalEvents
  before : ∀ b, (∀ previous ∈ t.lastObservationBlock, previous ≤ b) →
    ∀ event ∈ done.deposits ++ (done.requests ++ done.withdrawals), event.1 ≤ b
  freeze : AllFreeze deposits done.requests

section Advance

variable {deposits : DaoDeposits}
  {done : DaoEvents} {t t' : DaoCompensationTimeline} {b : Int} {ar : Nat}
  {c : DaoCompensationBreakdown}

theorem append_reached {all doneEvents events : List DaoEvent} (hsplit : all = doneEvents ++ events)
    (hbefore : ∀ event ∈ doneEvents, event.1 ≤ b) :
    doneEvents ++ reached b events = reached b all ∧ unreached b events = unreached b all := by
  have hdone : ∀ event ∈ doneEvents, decide (event.1 ≤ b) = true := by simpa using hbefore
  subst hsplit
  exact ⟨(takeWhile_append_of_pos hdone).symm, (dropWhile_append_of_pos hdone).symm⟩

theorem mem_reached_eventsOf {blockOf : DaoDepositCacheEntry → Option Int} {key : DaoOutPoint} :
    key ∈ (reached b (eventsOf deposits blockOf)).map Prod.snd ↔
      ∃ entry, deposits[key]? = some entry ∧ (blockOf entry).any (· ≤ b) = true := by
  rw [reached_eq_filter (eventsOf_sorted deposits blockOf)]
  simp only [mem_map, mem_filter, mem_eventsOf, Option.any_eq_true, Prod.exists]
  constructor
  · rintro ⟨block, _, ⟨⟨entry, hentry, hblock⟩, hle⟩, rfl⟩
    exact ⟨entry, hentry, block, hblock, hle⟩
  · rintro ⟨entry, hentry, block, hblock, hle⟩
    exact ⟨block, key, ⟨⟨entry, hentry, hblock⟩, hle⟩, rfl⟩

theorem reached_nodup {events : List DaoEvent} (h : (events.map Prod.snd).Nodup) (b : Int) :
    ((reached b events).map Prod.snd).Nodup :=
  h.sublist ((takeWhile_sublist _).map _)

theorem reached_length_lt {blockOf : DaoDepositCacheEntry → Option Int}
    (hsize : deposits.size < 2 ^ 64) : (reached b (eventsOf deposits blockOf)).length < 2 ^ 64 :=
  ((takeWhile_sublist _).length_le.trans eventsOf_length_le).trans_lt hsize

variable (hlife : Lifecycles deposits) (hsize : deposits.size < 2 ^ 64) (h : Swept deposits done t)
  (hb : ∀ previous ∈ t.lastObservationBlock, previous ≤ b)
  (hread : ∀ row ∈ deposits.toList, ReadableAt row.2 b ar)

include hlife in
theorem areRequests_reached (b : Int) :
    AreRequests deposits (reached b (allEvents deposits).requests) := by
  intro event hevent
  obtain ⟨entry, hentry, hblock⟩ := mem_eventsOf.mp ((takeWhile_sublist _).subset hevent)
  exact ⟨entry, hentry, hlife _ _ hentry, by simp [hblock]⟩

include hlife in
theorem requests_subset (b : Int) :
    (eventsUpTo deposits b).requests.map Prod.snd ⊆ (eventsUpTo deposits b).deposits.map Prod.snd := by
  intro key hkey
  obtain ⟨entry, hentry, hrequest⟩ := mem_reached_eventsOf.mp hkey
  refine mem_reached_eventsOf.mpr ⟨entry, hentry, ?_⟩
  obtain ⟨-, hnone, -⟩ | ⟨-, requestBlock, -, hrow, hafter, -⟩ |
    ⟨-, requestBlock, -, -, -, hrow, hafter, -⟩ := (hlife key entry hentry).shape
  · simp [hnone] at hrequest
  · have hreached : requestBlock ≤ b := by simpa [hrow] using hrequest
    simpa using hafter.trans hreached
  · have hreached : requestBlock ≤ b := by simpa [hrow] using hrequest
    simpa using hafter.trans hreached

include hlife in
theorem withdrawals_subset (b : Int) :
    (eventsUpTo deposits b).withdrawals.map Prod.snd ⊆ (eventsUpTo deposits b).requests.map Prod.snd := by
  intro key hkey
  obtain ⟨entry, hentry, hwithdraw⟩ := mem_reached_eventsOf.mp hkey
  refine mem_reached_eventsOf.mpr ⟨entry, hentry, ?_⟩
  by_contra hrequest
  rw [(hlife key entry hentry).not_withdrawn (by simpa using hrequest)] at hwithdraw
  cases hwithdraw

include hlife hsize h hb in
/-- The three loops of an observation process the events up to its block. The first always
succeeds, and the others do if every request up to the block freezes an amount. -/
theorem walk_eq_ok :
    ∃ t₁, (reached b t.depositEvents).foldlM activate
        { t with depositEvents := unreached b t.depositEvents } = .ok t₁ ∧
      t₁.deposits = deposits ∧ t₁.requestEvents = t.requestEvents ∧
      (AllFreeze deposits (reached b (allEvents deposits).requests) →
        ∃ t₂ t₃, (reached b t₁.requestEvents).foldlM freeze
            { t₁ with requestEvents := unreached b t₁.requestEvents } = .ok t₂ ∧
          (reached b t₂.withdrawalEvents).foldlM claim
            { t₂ with withdrawalEvents := unreached b t₂.withdrawalEvents } = .ok t₃ ∧
          Walked deposits (eventsUpTo deposits b) t₃ ∧
          t₃.depositEvents = unreached b (allEvents deposits).deposits ∧
          t₃.requestEvents = unreached b (allEvents deposits).requests ∧
          t₃.withdrawalEvents = unreached b (allEvents deposits).withdrawals) := by
  have hbefore := h.before b hb
  simp only [mem_append] at hbefore
  obtain ⟨hdeposits, hdepositsLeft⟩ :=
    append_reached h.deposits_split fun event hevent => hbefore event (.inl hevent)
  obtain ⟨hrequests, hrequestsLeft⟩ :=
    append_reached h.requests_split fun event hevent => hbefore event (.inr (.inl hevent))
  obtain ⟨hwithdrawals, hwithdrawalsLeft⟩ :=
    append_reached h.withdrawals_split fun event hevent => hbefore event (.inr (.inr hevent))
  have hnodup : ((done.deposits ++ reached b t.depositEvents).map Prod.snd).Nodup :=
    hdeposits ▸ reached_nodup eventsOf_keys_nodup b
  have hnodup' : ((done.requests ++ reached b t.requestEvents).map Prod.snd).Nodup :=
    hrequests ▸ reached_nodup eventsOf_keys_nodup b
  have hnodup'' : ((done.withdrawals ++ reached b t.withdrawalEvents).map Prod.snd).Nodup :=
    hwithdrawals ▸ reached_nodup eventsOf_keys_nodup b
  obtain ⟨active, hactivate, hwalked⟩ := foldlM_activate
    (h.walked.setEvents (unreached b t.depositEvents) t.requestEvents t.withdrawalEvents) hnodup
  refine ⟨_, hactivate, hwalked.deposits_eq, rfl, fun hfreeze => ?_⟩
  have hnew : ∀ event ∈ reached b t.requestEvents, event ∈ reached b (allEvents deposits).requests := by
    intro event hevent
    rw [← hrequests]
    exact mem_append_right _ hevent
  have hsub : (reached b t.requestEvents).map Prod.snd ⊆
      (done.deposits ++ reached b t.depositEvents).map Prod.snd := by
    rw [hdeposits]
    exact List.Subset.trans (map_subset _ hnew) (requests_subset hlife b)
  obtain ⟨active, frozen, frozenTotal, hfreezes, hwalked⟩ := foldlM_freeze
    (hwalked.setEvents (unreached b t.depositEvents) (unreached b t.requestEvents) t.withdrawalEvents)
    (fun event hevent => areRequests_reached hlife b event (hnew event hevent))
    (fun event hevent => hfreeze event (hnew event hevent)) hnodup' hsub
    (by rw [hrequests]; exact reached_length_lt hsize)
    (hnodup''.sublist ((sublist_append_left _ _).map _))
  have hsub' : (reached b t.withdrawalEvents).map Prod.snd ⊆
      (done.requests ++ reached b t.requestEvents).map Prod.snd := by
    rw [hrequests]
    refine List.Subset.trans (map_subset _ ?_) (withdrawals_subset hlife b)
    intro event hevent
    show event ∈ reached b (allEvents deposits).withdrawals
    rw [← hwithdrawals]
    exact mem_append_right _ hevent
  obtain ⟨frozen, frozenTotal, claimed, hclaim, hwalked⟩ := foldlM_claim
    (hwalked.setEvents (unreached b t.depositEvents) (unreached b t.requestEvents)
      (unreached b t.withdrawalEvents))
    hnodup'' hsub' (by rw [hrequests]; exact reached_length_lt hsize)
  rw [hdeposits, hrequests, hwithdrawals] at hwalked
  exact ⟨_, _, hfreezes, hclaim, hwalked, hdepositsLeft, hrequestsLeft, hwithdrawalsLeft⟩

/-- The sums over all lifecycles at a block. -/
def plainSum (deposits : DaoDeposits) (b : Int) (ar : Nat) :
    DaoCompensationBreakdown :=
  (deposits.toList.map fun row => contribution row.2 b ar).sum

theorem Walked.mem_active (h : Walked deposits (eventsUpTo deposits b) t) {key : DaoOutPoint} :
    key ∈ t.active.toList ↔ ∃ entry, deposits[key]? = some entry ∧ activeAt entry b = true := by
  rw [ExtTreeSet.mem_toList, ExtTreeSet.mem_iff_contains, h.active]
  simp only [eventsUpTo, allEvents, mem_reached_eventsOf, Option.any_some, activeAt,
    Bool.and_eq_true, Bool.not_eq_true', not_exists, not_and, Bool.not_eq_true]
  constructor
  · rintro ⟨⟨entry, hentry, hdeposit⟩, hopen⟩
    exact ⟨entry, hentry, hdeposit, hopen entry hentry⟩
  · rintro ⟨entry, hentry, hdeposit, hopen⟩
    refine ⟨⟨entry, hentry, hdeposit⟩, fun entry' hentry' => ?_⟩
    obtain rfl := Option.mem_unique hentry hentry'
    exact hopen

theorem Walked.active_perm (h : Walked deposits (eventsUpTo deposits b) t) :
    t.active.toList.Perm ((deposits.toList.filter fun row => activeAt row.2 b).map Prod.fst) := by
  have hnodup : t.active.toList.Nodup := by
    refine ExtTreeSet.distinct_toList.imp fun {x y} hne heq => hne ?_
    rw [heq]
    exact ReflCmp.compare_self
  have hkeys : ((deposits.toList.filter fun row => activeAt row.2 b).map Prod.fst).Nodup :=
    (nodup_map_fst_toList deposits).sublist (filter_sublist.map _)
  rw [perm_ext_iff_of_nodup hnodup hkeys]
  intro key
  rw [h.mem_active]
  simp only [mem_map, mem_filter, Prod.exists, mem_toList_iff_getElem?_eq_some]
  constructor
  · rintro ⟨entry, hentry, hactive⟩
    exact ⟨key, entry, ⟨hentry, hactive⟩, rfl⟩
  · rintro ⟨_, entry, ⟨hentry, hactive⟩, rfl⟩
    exact ⟨entry, hentry, hactive⟩

theorem lifecycle_of_mem (hlife : Lifecycles deposits) :
    ∀ row ∈ deposits.toList, DaoLifecycle row.2 := fun row hrow =>
  hlife row.1 row.2 (mem_toList_iff_getElem?_eq_some.mp hrow)

include hlife hread in
/-- What the active deposits earn is the active part of the sums. -/
theorem sum_active (h : Walked deposits (eventsUpTo deposits b) t) :
    (t.active.toList.map (earnedOf deposits b ar)).sum = (plainSum deposits b ar).activeUnmade := by
  rw [(h.active_perm.map _).sum_eq, plainSum, sum_activeUnmade]
  have hrows : ∀ row ∈ deposits.toList,
      earnedOf deposits b ar row.1 = (contribution row.2 b ar).activeUnmade := by
    intro row hrow
    simp [earnedOf, mem_toList_iff_getElem?_eq_some.mp hrow]
  have hlives := lifecycle_of_mem hlife
  revert hrows hread hlives
  generalize deposits.toList = rows
  intro hread hrows hlives
  induction rows with
  | nil => rfl
  | cons row rows ih =>
    obtain ⟨hread, hreads⟩ := forall_mem_cons.mp hread
    obtain ⟨hrow, hrows⟩ := forall_mem_cons.mp hrows
    obtain ⟨hlife', hlives⟩ := forall_mem_cons.mp hlives
    have hrest := ih hreads hrows hlives
    cases hactive : activeAt row.2 b with
    | true => simpa [hactive, hrow] using hrest
    | false =>
      have hzero := (contribution_parts hlife' hread).2.2 hactive
      simpa [hactive, hzero] using hrest

include hlife hread in
/-- The sums of a swept timeline, from the sums over all lifecycles. -/
theorem plainSum_parts :
    (plainSum deposits b ar).claimed = sumOf deposits (eventsUpTo deposits b).withdrawals ∧
      (plainSum deposits b ar).unclaimed = sumOf deposits (eventsUpTo deposits b).requests
        - sumOf deposits (eventsUpTo deposits b).withdrawals
        + (plainSum deposits b ar).activeUnmade := by
  have hvalues : ∀ row ∈ deposits.toList, valueOf deposits row.1 = frozenValue row.2 := by
    intro row hrow
    simp [valueOf, mem_toList_iff_getElem?_eq_some.mp hrow]
  have hlives := lifecycle_of_mem hlife
  simp only [plainSum, sum_claimed, sum_unclaimed, sum_activeUnmade, sumOf, eventsUpTo, allEvents,
    sum_reached, List.map_map, Function.comp_def]
  revert hvalues hread hlives
  generalize deposits.toList = rows
  intro hread hvalues hlives
  induction rows with
  | nil => simp
  | cons row rows ih =>
    obtain ⟨hread, hreads⟩ := List.forall_mem_cons.mp hread
    obtain ⟨hvalue, hvalues⟩ := List.forall_mem_cons.mp hvalues
    obtain ⟨hlife', hlives⟩ := List.forall_mem_cons.mp hlives
    obtain ⟨hclaimed, hunclaimed⟩ := ih hreads hvalues hlives
    obtain ⟨hclaimed', hunclaimed', -⟩ := contribution_parts hlife' hread
    simp only [List.map_cons, List.sum_cons, hclaimed, hunclaimed, hclaimed', hvalue, true_and]
    rw [hunclaimed']
    ring

include hlife hsize hread in
/-- A map of lifecycles has no sum that overflows. -/
theorem plainSum_bounds :
    (plainSum deposits b ar).Nonneg ∧ (plainSum deposits b ar).Fits := by
  have hlen : deposits.toList.length < 2 ^ 64 := by
    rw [length_toList]
    exact hsize
  have hlives := lifecycle_of_mem hlife
  have hroom : ((deposits.toList.length : Int)) * (2 ^ 63 - 1) < 2 ^ 127 := by
    calc (deposits.toList.length : Int) * (2 ^ 63 - 1)
        ≤ (2 ^ 64 - 1) * (2 ^ 63 - 1) := Int.mul_le_mul_of_nonneg_right (by omega) (by decide)
      _ < 2 ^ 127 := by decide
  have hsum : (plainSum deposits b ar).Nonneg ∧
      (plainSum deposits b ar).claimed ≤ deposits.toList.length * (2 ^ 63 - 1) ∧
      (plainSum deposits b ar).unclaimed ≤ deposits.toList.length * (2 ^ 63 - 1) ∧
      (plainSum deposits b ar).activeUnmade ≤ deposits.toList.length * (2 ^ 63 - 1) := by
    unfold plainSum
    revert hread hlives
    generalize deposits.toList = rows
    intro hread hlives
    induction rows with
    | nil => exact ⟨nonneg_zero, by simp, by simp, by simp⟩
    | cons row rows ih =>
      obtain ⟨hread, hreads⟩ := forall_mem_cons.mp hread
      obtain ⟨hlife', hlives⟩ := forall_mem_cons.mp hlives
      obtain ⟨hnonneg, h1, h2, h3⟩ := ih hreads hlives
      obtain ⟨h1', h2', h3'⟩ := contribution_bounds hlife' hread
      simp only [map_cons, sum_cons, length_cons,
        add_claimed, add_unclaimed,
        add_activeUnmade]
      exact ⟨hread.nonneg.add hnonneg, by omega, by omega, by omega⟩
  obtain ⟨hnonneg, hclaimed, hunclaimed, hactive⟩ := hsum
  exact ⟨hnonneg, fits_of_lt hnonneg.claimed (hclaimed.trans_lt hroom),
    fits_of_lt hnonneg.unclaimed (hunclaimed.trans_lt hroom),
    fits_of_lt hnonneg.activeUnmade (hactive.trans_lt hroom)⟩

include hlife hread in
theorem allFreeze_of_readable :
    AllFreeze deposits (reached b (allEvents deposits).requests) := by
  intro event hevent
  obtain ⟨entry, hentry, hrequest⟩ := mem_reached_eventsOf.mp (mem_map_of_mem hevent)
  have hreadable := hread (event.2, entry) (mem_toList_iff_getElem?_eq_some.mpr hentry)
  exact ⟨entry, hentry, ((compensation_requested (hlife _ _ hentry) hrequest).mp hreadable).1⟩

include hlife in
theorem Walked.areActive (h : Walked deposits (eventsUpTo deposits b) t) :
    AreActive deposits b t.active.toList := by
  intro key hkey
  obtain ⟨entry, hentry, hactive⟩ := h.mem_active.mp hkey
  simp only [activeAt, Bool.and_eq_true, decide_eq_true_eq, Bool.not_eq_true'] at hactive
  exact ⟨entry, hentry, hlife key entry hentry, hactive⟩

include hlife hsize h hb hread in
theorem advanceTo_of_readable :
    ∃ t', t.advanceTo b ar = .ok (plainSum deposits b ar, t') ∧
      Swept deposits (eventsUpTo deposits b) t' ∧ t'.lastObservationBlock = some b := by
  have hfreeze := allFreeze_of_readable hlife hread
  obtain ⟨t₁, hactivate, -, -, hwalk⟩ := walk_eq_ok hlife hsize h hb
  obtain ⟨t₂, t₃, hfreezes, hclaim, hwalked, hdeposits, hrequests, hwithdrawals⟩ := hwalk hfreeze
  obtain ⟨hclaimed, hunclaimed⟩ := plainSum_parts hlife hread
  obtain ⟨hnonneg, hfits⟩ := plainSum_bounds hlife hsize hread
  have hlen : t₃.active.toList.length < 2 ^ 64 := by
    rw [hwalked.active_perm.length_eq, length_map]
    refine length_filter_le _ _ |>.trans_lt ?_
    rw [length_toList]
    exact hsize
  have hroom : 0 + (t₃.active.toList.length : Int) * (2 ^ 63 - 1) < 2 ^ 127 := by
    calc 0 + (t₃.active.toList.length : Int) * (2 ^ 63 - 1) ≤ (2 ^ 64 - 1) * (2 ^ 63 - 1) := by
          rw [zero_add]
          exact Int.mul_le_mul_of_nonneg_right (by omega) (by decide)
      _ < 2 ^ 127 := by decide
  have hreadActive : AllReadable deposits b ar t₃.active.toList := by
    intro key hkey
    obtain ⟨entry, hentry, -⟩ := hwalked.mem_active.mp hkey
    exact ⟨entry, hentry, hread (key, entry) (mem_toList_iff_getElem?_eq_some.mpr hentry)⟩
  obtain ⟨hactive, -, -⟩ := foldlM_addActive hwalked.deposits_eq (hwalked.areActive hlife) hreadActive
    le_rfl hroom
  rw [zero_add, sum_active hlife hread hwalked] at hactive
  refine ⟨{ t₃ with lastObservationBlock := some b }, ?_, ⟨?_, ?_, ?_, ?_, ?_, hfreeze⟩, rfl⟩
  · simp only [advanceTo, bind_eq_ok, ensure_eq_ok, return_eq_ok, checked_eq_ok]
    refine ⟨(), hb, t₁, hactivate, t₂, hfreezes, t₃, hclaim, _, hactive, _, ⟨?_, rfl⟩, ?_⟩
    · rw [hwalked.frozenTotal, ← hunclaimed]
      exact hfits.unclaimed
    · rw [hwalked.frozenTotal, hwalked.claimed, ← hunclaimed, ← hclaimed]
  · exact ⟨hwalked.deposits_eq, hwalked.requests_sub, hwalked.withdrawals_sub, hwalked.active,
      hwalked.frozen, hwalked.frozenTotal, hwalked.claimed⟩
  · rw [hdeposits]
    exact takeWhile_append_dropWhile.symm
  · rw [hrequests]
    exact takeWhile_append_dropWhile.symm
  · rw [hwithdrawals]
    exact takeWhile_append_dropWhile.symm
  · intro b' hb' event hevent
    have hle : ∀ events, event ∈ reached b events → event.1 ≤ b := fun events hmem => by
      simpa using mem_takeWhile_imp hmem
    have hbb' : b ≤ b' := hb' b rfl
    simp only [mem_append] at hevent
    rcases hevent with hevent | hevent | hevent
    · exact (hle _ hevent).trans hbb'
    · exact (hle _ hevent).trans hbb'
    · exact (hle _ hevent).trans hbb'

include hlife hsize h in
theorem readable_of_advanceTo (hstep : t.advanceTo b ar = .ok (c, t')) :
    ∀ row ∈ deposits.toList, ReadableAt row.2 b ar := by
  simp only [advanceTo, bind_eq_ok, ensure_eq_ok] at hstep
  obtain ⟨-, hb, t₁, hactivate, t₂, hfreezes, t₃, hclaim, activeUnmade, hactive, -⟩ := hstep
  obtain ⟨t₁', hactivate', hdeposits, hrequests, hwalk⟩ := walk_eq_ok hlife hsize h hb
  obtain rfl := Except.ok.inj (hactivate.symm.trans hactivate')
  have hsplit := (append_reached h.requests_split fun event hevent =>
    h.before b hb event (by simp [hevent])).1
  have hnew : AllFreeze deposits (reached b t₁.requestEvents) := by
    refine allFreeze_of_foldlM (by exact hdeposits) ?_ hfreezes
    intro event hevent
    refine areRequests_reached hlife b event ?_
    rw [← hsplit, ← hrequests]
    exact mem_append_right _ hevent
  have hfreeze : AllFreeze deposits (reached b (allEvents deposits).requests) := by
    intro event hevent
    rw [← hsplit, ← hrequests] at hevent
    rcases mem_append.mp hevent with hold | hevent
    · exact h.freeze event hold
    · exact hnew event hevent
  obtain ⟨t₂', t₃', hfreezes', hclaim', hwalked, -⟩ := hwalk hfreeze
  obtain rfl := Except.ok.inj (hfreezes.symm.trans hfreezes')
  obtain rfl := Except.ok.inj (hclaim.symm.trans hclaim')
  have hreadActive := allReadable_of_foldlM hwalked.deposits_eq hactive
  intro row hrow
  obtain ⟨key, entry⟩ := row
  have hentry := mem_toList_iff_getElem?_eq_some.mp hrow
  have hlife' := hlife key entry hentry
  cases hrequest : entry.withdrawRequestBlock.any (· ≤ b) with
  | true =>
    obtain ⟨event, hevent, rfl⟩ := mem_map.mp (mem_reached_eventsOf.mpr ⟨entry, hentry, hrequest⟩)
    obtain ⟨entry', hentry', hfreezes⟩ := hfreeze event hevent
    obtain rfl := Option.mem_unique hentry hentry'
    exact readableAt_iff.mpr ⟨_, (compensation_requested hlife' hrequest).mpr ⟨hfreezes, rfl⟩⟩
  | false =>
    rcases lt_or_ge b entry.depositBlockNumber with hbefore | hdeposit
    · exact (readableAt_of_lt hlife' hbefore).1
    · obtain ⟨entry', hentry', hreadable⟩ := hreadActive key
        (hwalked.mem_active.mpr ⟨entry, hentry, by simp [activeAt, hdeposit, hrequest]⟩)
      obtain rfl := Option.mem_unique hentry hentry'
      exact hreadable

include hlife hsize h hb in
theorem advanceTo_swept (hstep : t.advanceTo b ar = .ok (c, t')) : c = plainSum deposits b ar ∧
    Swept deposits (eventsUpTo deposits b) t' ∧ t'.lastObservationBlock = some b := by
  have hread := readable_of_advanceTo hlife hsize h hstep
  obtain ⟨t'', hstep', hnext⟩ := advanceTo_of_readable hlife hsize h hb hread
  obtain ⟨rfl, rfl⟩ := Prod.mk.inj (Except.ok.inj (hstep.symm.trans hstep'))
  exact ⟨rfl, hnext⟩

include hlife hsize h hb in
/-- One observation succeeds with a result exactly when the plain sum does. -/
theorem advanceTo_agrees :
    computeDaoCompensationBreakdownAt b ar deposits = .ok c ↔
      ∃ t', t.advanceTo b ar = .ok (c, t') := by
  rw [computeDaoCompensationBreakdownAt_eq_ok]
  constructor
  · rintro ⟨hread, rfl, -⟩
    obtain ⟨t', hstep, -⟩ := advanceTo_of_readable hlife hsize h hb hread
    exact ⟨t', hstep⟩
  · rintro ⟨t', hstep⟩
    have hread := readable_of_advanceTo hlife hsize h hstep
    obtain ⟨rfl, -⟩ := advanceTo_swept hlife hsize h hb hstep
    exact ⟨hread, rfl, (plainSum_bounds hlife hsize hread).2⟩

include hlife hsize in
theorem advanceAll_agrees {observations : List (Int × Nat)} (h : Swept deposits done t)
    (hb : ∀ previous ∈ t.lastObservationBlock, ∀ o ∈ observations, previous ≤ o.1)
    (hsorted : observations.Pairwise (·.1 ≤ ·.1)) {results : List DaoCompensationBreakdown} :
    advanceAll t observations = .ok results ↔
      observations.mapM (fun o => computeDaoCompensationBreakdownAt o.1 o.2 deposits)
        = .ok results := by
  induction observations generalizing done t results with
  | nil => simp [advanceAll]
  | cons o observations ih =>
    obtain ⟨b, ar⟩ := o
    obtain ⟨hfirst, hsorted⟩ := pairwise_cons.mp hsorted
    have hb' : ∀ previous ∈ t.lastObservationBlock, previous ≤ b := fun previous hprevious =>
      hb previous hprevious _ mem_cons_self
    simp only [advanceAll, mapM_cons, bind_eq_ok, return_eq_ok, Prod.exists,
      advanceTo_agrees hlife hsize h hb']
    constructor
    · rintro ⟨c, t', hstep, cs, hrest, rfl⟩
      obtain ⟨-, hswept, hlast⟩ := advanceTo_swept hlife hsize h hb' hstep
      refine ⟨_, ⟨t', hstep⟩, cs, (ih hswept ?_ hsorted).mp hrest, rfl⟩
      simpa [hlast] using hfirst
    · rintro ⟨c, ⟨t', hstep⟩, cs, hrest, rfl⟩
      obtain ⟨-, hswept, hlast⟩ := advanceTo_swept hlife hsize h hb' hstep
      refine ⟨_, t', hstep, cs, (ih hswept ?_ hsorted).mpr hrest, rfl⟩
      simpa [hlast] using hfirst

end Advance

end DaoCompensationTimeline

open DaoCompensationTimeline in
/-- Over every map of lifecycles (a map in memory has fewer than 2⁶⁴ entries) and every
list of observations at non-decreasing blocks, at whatever rates, the observations of one
timeline are the plain sums over all lifecycles at these blocks: they are the same results,
and the timeline fails only where a plain sum does. -/
theorem timeline_eq_plain_sums (deposits : DaoDeposits)
    (hlife : Lifecycles deposits)
    (hsize : deposits.size < 2 ^ 64) (observations : List (Int × Nat))
    (hsorted : observations.Pairwise (·.1 ≤ ·.1)) :
    (timelineObservations deposits observations).toOption
      = (observations.mapM fun o =>
          computeDaoCompensationBreakdownAt o.1 o.2 deposits).toOption := by
  refine toOption_congr fun results => ?_
  have hswept : Swept deposits {} {
      deposits
      depositEvents := (allEvents deposits).deposits
      requestEvents := (allEvents deposits).requests
      withdrawalEvents := (allEvents deposits).withdrawals } := by
    refine ⟨⟨rfl, ?_, ?_, ?_, ?_, rfl, rfl⟩, rfl, rfl, rfl, ?_, ?_⟩
    · simp
    · simp
    · simp
    · simp
    · simp
    · simp [AllFreeze]
  rw [timelineObservations, new_eq_ok hlife]
  exact advanceAll_agrees hlife hsize hswept (by simp) hsorted

/-- A deposit of block 1 that is requested in block 2 and completed in block 3. -/
def completedLifecycle : DaoDepositCacheEntry :=
  { capacity := 20000000000, occupiedCapacity := 10200000000, depositBlockNumber := 1
    depositTimestamp := 1000, lockScriptHash := [1], depositAr := 100, status := 2
    withdrawRequestTx := some (.ofNat 2), withdrawRequestOutputIndex := some 0
    withdrawRequestBlock := some 2, withdrawRequestAr := some 110
    withdrawRequestOccupiedCapacity := some 10200000000, withdrawBlock := some 3
    withdrawTx := some (.ofNat 3), compensation := some 980000000, depositChainTimeMs := 1000 }

/-- A deposit of block 2 that stays. -/
def activeLifecycle : DaoDepositCacheEntry :=
  { capacity := 20000000000, occupiedCapacity := 10200000000, depositBlockNumber := 2
    depositTimestamp := 2000, lockScriptHash := [2], depositAr := 110, status := 0
    depositChainTimeMs := 2000 }

def twoLifecycles : DaoDeposits :=
  ((∅ : DaoDeposits).insert ⟨.ofNat 1, 0⟩ completedLifecycle).insert ⟨.ofNat 2, 1⟩ activeLifecycle

/-- Three observations of the two lifecycles. -/
theorem timeline_eq_plain_sums_two :
    timelineObservations twoLifecycles [(1, 100), (2, 110), (3, 121)] = .ok [
      {}, { unclaimed := 980000000 },
      { claimed := 980000000, unclaimed := 980000000, activeUnmade := 980000000 }] := by
  have hlife : ∀ (key : DaoOutPoint) (entry : DaoDepositCacheEntry),
      twoLifecycles[key]? = some entry → DaoLifecycle entry := by
    intro key entry hentry
    rw [twoLifecycles, getElem?_insert_ite, getElem?_insert_ite] at hentry
    split at hentry
    · cases hentry
      exact ⟨by decide, by decide, by decide, by decide +kernel⟩
    · split at hentry
      · cases hentry
        exact ⟨by decide, by decide, by decide, by decide +kernel⟩
      · simp at hentry
  have hplain : ([(1, 100), (2, 110), (3, 121)].mapM fun o : Int × Nat =>
      computeDaoCompensationBreakdownAt o.1 o.2 twoLifecycles) = .ok [
        {}, { unclaimed := 980000000 },
        { claimed := 980000000, unclaimed := 980000000, activeUnmade := 980000000 }] := by
    decide +kernel
  refine toOption_eq_some.mp ?_
  rw [timeline_eq_plain_sums twoLifecycles hlife (by decide +kernel) _ (by decide), hplain]
  rfl

end Ckbadger.Bulk
