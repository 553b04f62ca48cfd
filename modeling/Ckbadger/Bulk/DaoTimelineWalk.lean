/-
Ckbadger.Bulk.DaoTimelineWalk — the loops of a timeline over its events.

After some events a timeline's active deposits are those deposited and not requested, its
frozen amounts those of the requests not completed, and its sums the sums over these events
(`Walked`); each of the three loops keeps that as it takes its events in.
-/
import Ckbadger.Bulk.DaoTimeline
import Ckbadger.Lib.PrefixScan
import Ckbadger.Store.DaoLifecycle

namespace Ckbadger.Bulk

open Lib Store List
open Std (TransCmp OrientedCmp ExtTreeMap ExtTreeSet LawfulEqCmp)

/-! ## Events in order -/

section Events

instance : IsTrans DaoEvent eventLe where
  trans a b c hab hbc := by
    have htrans : TransCmp (compareLex (compareOn (Prod.fst : DaoEvent → Int))
      (compareOn Prod.snd)) := inferInstance
    exact htrans.isLE_trans hab hbc

instance : Std.Total eventLe where
  total a b := by
    have horiented : OrientedCmp (compareLex (compareOn (Prod.fst : DaoEvent → Int))
      (compareOn Prod.snd)) := inferInstance
    have hswap := @horiented.eq_swap a b
    simp only [compareLex, compareOn] at hswap
    unfold eventLe
    rw [hswap]
    cases ((compare b.1 a.1).then (compare b.2 a.2)) <;> simp

theorem fst_le_of_eventLe {a b : DaoEvent} (h : eventLe a b) : a.1 ≤ b.1 := by
  by_contra hlt
  have hgt : compare a.1 b.1 = .gt := Int.compare_eq_gt.mpr (not_le.mp hlt)
  simp [eventLe, hgt] at h

variable (deposits : DaoDeposits) (blockOf : DaoDepositCacheEntry → Option Int)

/-- One kind of event of every lifecycle. -/
def collected (rows : List (DaoOutPoint × DaoDepositCacheEntry)) : List DaoEvent :=
  rows.filterMap fun row => (blockOf row.2).map (·, row.1)

/-- One kind of event of every lifecycle, in order. -/
def eventsOf : List DaoEvent := sortEvents (collected blockOf deposits.toList)

theorem eventsOf_perm : (eventsOf deposits blockOf).Perm (collected blockOf deposits.toList) :=
  perm_insertionSort _ _

theorem eventsOf_sorted : (eventsOf deposits blockOf).Pairwise (·.1 ≤ ·.1) :=
  (pairwise_insertionSort eventLe _).imp fst_le_of_eventLe

variable {deposits blockOf}

theorem mem_eventsOf {event : DaoEvent} :
    event ∈ eventsOf deposits blockOf ↔
      ∃ entry, deposits[event.2]? = some entry ∧ blockOf entry = some event.1 := by
  obtain ⟨block, key⟩ := event
  rw [(eventsOf_perm deposits blockOf).mem_iff]
  simp only [collected, mem_filterMap, Option.map_eq_some_iff, Prod.mk.injEq, Prod.exists,
    ExtTreeMap.mem_toList_iff_getElem?_eq_some]
  constructor
  · rintro ⟨key', entry, hentry, block', hblock, rfl, rfl⟩
    exact ⟨entry, hentry, hblock⟩
  · rintro ⟨entry, hentry, hblock⟩
    exact ⟨key, entry, hentry, block, hblock, rfl, rfl⟩

theorem eventsOf_keys_nodup : ((eventsOf deposits blockOf).map Prod.snd).Nodup := by
  rw [((eventsOf_perm deposits blockOf).map Prod.snd).nodup_iff]
  refine (nodup_map_fst_toList deposits).sublist ?_
  induction deposits.toList with
  | nil => exact .slnil
  | cons row rows ih =>
    cases hblock : blockOf row.2 with
    | none => simpa [collected, hblock] using ih.cons row.1
    | some block => simpa [collected, hblock] using ih.cons_cons row.1

theorem eventsOf_length_le : (eventsOf deposits blockOf).length ≤ deposits.size := by
  rw [(eventsOf_perm deposits blockOf).length_eq, ← ExtTreeMap.length_toList]
  exact length_filterMap_le _ _

open DaoCompensationTimeline in
theorem reached_eq_filter {events : List DaoEvent} (hsorted : events.Pairwise (·.1 ≤ ·.1)) (b : Int) :
    reached b events = events.filter (·.1 ≤ b) := by
  refine takeWhile_eq_filter (hsorted.imp fun hle hlater => ?_)
  simp only [decide_eq_true_eq] at hlater ⊢
  omega

open DaoCompensationTimeline in
/-- A sum over the events up to a block, as a sum over all lifecycles. -/
theorem sum_reached (f : DaoOutPoint → Int) (b : Int) :
    ((reached b (eventsOf deposits blockOf)).map (f ·.2)).sum
      = (deposits.toList.map fun row =>
          if (blockOf row.2).any (· ≤ b) then f row.1 else 0).sum := by
  rw [reached_eq_filter (eventsOf_sorted deposits blockOf)]
  rw [(((eventsOf_perm deposits blockOf).filter _).map _).sum_eq]
  induction deposits.toList with
  | nil => rfl
  | cons row rows ih =>
    cases hblock : blockOf row.2 with
    | none => simpa [collected, hblock] using ih
    | some block =>
      by_cases hreached : block ≤ b
      · simpa [collected, hblock, hreached] using ih
      · simpa [collected, hblock, hreached] using ih

end Events

/-! ## The walk -/

namespace DaoCompensationTimeline

section Walk

/-- Every deposit is a lifecycle. -/
def Lifecycles (deposits : DaoDeposits) : Prop :=
  ∀ (key : DaoOutPoint) (entry : DaoDepositCacheEntry), deposits[key]? = some entry →
    DaoLifecycle entry

variable {deposits : DaoDeposits}

theorem collected_cons (blockOf : DaoDepositCacheEntry → Option Int)
    (row : DaoOutPoint × DaoDepositCacheEntry) (rows : List (DaoOutPoint × DaoDepositCacheEntry)) :
    collected blockOf (row :: rows) = collected blockOf [row] ++ collected blockOf rows :=
  @filterMap_append _ _ [row] rows _

theorem foldlM_collectEvents {rows : List (DaoOutPoint × DaoDepositCacheEntry)}
    (hrows : ∀ row ∈ rows, DaoLifecycle row.2) (events : DaoEvents) :
    rows.foldlM collectEvents events = .ok {
      deposits := events.deposits ++ collected (fun e => some e.depositBlockNumber) rows
      requests := events.requests ++ collected (·.withdrawRequestBlock) rows
      withdrawals := events.withdrawals ++ collected (·.withdrawBlock) rows } := by
  induction rows generalizing events with
  | nil => simp [collected]
  | cons row rows ih =>
    obtain ⟨hrow, hrows⟩ := forall_mem_cons.mp hrows
    rw [foldlM_cons_eq_ok]
    refine ⟨{
      deposits := events.deposits ++ [(row.2.depositBlockNumber, row.1)]
      requests := events.requests ++ collected (·.withdrawRequestBlock) [row]
      withdrawals := events.withdrawals ++ collected (·.withdrawBlock) [row] }, ?_, ?_⟩
    · obtain ⟨hstatus, hrequest, hwithdraw⟩ |
        ⟨hstatus, requestBlock, -, hrequest, hafter, -, hwithdraw, -⟩ |
        ⟨hstatus, requestBlock, -, withdrawBlock, _, hrequest, hafter, -, hwithdraw, hlater,
          hcompensation⟩ := hrow.shape
      · simp [collectEvents, ensure, hrow.depositBlock, hstatus, hrequest, hwithdraw, collected]
      · simp [collectEvents, ensure, validateRequestBlock, hrow.depositBlock, hstatus, hrequest,
          hwithdraw, hafter, collected]
      · simp [collectEvents, ensure, validateRequestBlock, hrow.depositBlock, hstatus, hrequest,
          hwithdraw, hafter, hlater, hcompensation, collected]
    · rw [ih hrows, collected_cons _ row rows, collected_cons _ row rows, collected_cons _ row rows]
      simp only [append_assoc]
      rfl

theorem new_eq_ok (h : Lifecycles deposits) :
    new deposits = .ok {
      deposits
      depositEvents := eventsOf deposits fun e => some e.depositBlockNumber
      requestEvents := eventsOf deposits (·.withdrawRequestBlock)
      withdrawalEvents := eventsOf deposits (·.withdrawBlock) } := by
  have hrows : ∀ row ∈ deposits.toList, DaoLifecycle row.2 := fun row hrow =>
    h row.1 row.2 (ExtTreeMap.mem_toList_iff_getElem?_eq_some.mp hrow)
  rw [new, foldlM_collectEvents hrows]
  rfl

/-- What a deposit of the map freezes. -/
def valueOf (deposits : DaoDeposits) (key : DaoOutPoint) : Int :=
  (deposits[key]?.map frozenValue).getD 0

theorem valueOf_bounds (deposits : DaoDeposits)
    (key : DaoOutPoint) : 0 ≤ valueOf deposits key ∧ valueOf deposits key ≤ 2 ^ 63 - 1 := by
  unfold valueOf
  cases deposits[key]? with
  | none => simp
  | some entry =>
    have hbounds := frozenValue_bounds entry
    simp only [Option.map_some, Option.getD_some]
    omega

/-- What the deposits of some events freeze. -/
def sumOf (deposits : DaoDeposits) (events : List DaoEvent) : Int :=
  (events.map fun event => valueOf deposits event.2).sum

@[simp] theorem sumOf_append (events events' : List DaoEvent) :
    sumOf deposits (events ++ events') = sumOf deposits events + sumOf deposits events' := by
  simp [sumOf]

@[simp] theorem sumOf_singleton (event : DaoEvent) :
    sumOf deposits [event] = valueOf deposits event.2 := by
  simp [sumOf]

theorem sumOf_nonneg (events : List DaoEvent) : 0 ≤ sumOf deposits events := by
  refine sum_nonneg fun v hv => ?_
  obtain ⟨event, -, rfl⟩ := mem_map.mp hv
  exact (valueOf_bounds deposits event.2).1

theorem sumOf_lt {events : List DaoEvent} (h : events.length < 2 ^ 64) :
    sumOf deposits events < 2 ^ 127 := by
  have hle := sum_le_card_nsmul (events.map fun event => valueOf deposits event.2)
    (2 ^ 63 - 1) (by
      intro v hv
      obtain ⟨event, -, rfl⟩ := mem_map.mp hv
      exact (valueOf_bounds deposits event.2).2)
  rw [length_map] at hle
  have hlen : (events.length : Int) ≤ 2 ^ 64 - 1 := by omega
  calc sumOf deposits events ≤ events.length * (2 ^ 63 - 1) := hle
    _ ≤ (2 ^ 64 - 1) * (2 ^ 63 - 1) := Int.mul_le_mul_of_nonneg_right hlen (by decide)
    _ < 2 ^ 127 := by decide

theorem sumOf_le_of_subset {events events' : List DaoEvent} (hnodup : (events.map Prod.snd).Nodup)
    (hsub : events.map Prod.snd ⊆ events'.map Prod.snd) :
    sumOf deposits events ≤ sumOf deposits events' := by
  have heq : ∀ l : List DaoEvent, sumOf deposits l = ((l.map Prod.snd).map (valueOf deposits)).sum := by
    intro l
    simp [sumOf, Function.comp_def]
  obtain ⟨l, hperm, hsublist⟩ := subperm_of_subset hnodup hsub
  rw [heq, heq, ← (hperm.map _).sum_eq]
  refine (hsublist.map _).sum_le_sum fun v hv => ?_
  obtain ⟨key, -, rfl⟩ := mem_map.mp hv
  exact (valueOf_bounds deposits key).1

/-- The compensation a request freezes is read at the block of the request. -/
theorem frozenCompensation_eq_ok {t : DaoCompensationTimeline} {key : DaoOutPoint}
    {entry : DaoDepositCacheEntry} (hentry : t.deposits[key]? = some entry)
    (h : DaoLifecycle entry) (hrequest : entry.withdrawRequestBlock.isSome = true) {c : Int} :
    t.frozenCompensation key = .ok c ↔ Freezes entry ∧ c = frozenValue entry := by
  have hshape : ∃ requestBlock requestAr, entry.withdrawRequestBlock = some requestBlock ∧
      entry.withdrawRequestAr = some requestAr ∧
      entry.withdrawBlock.any (· ≤ requestBlock) = false := by
    obtain ⟨-, hnone, -⟩ | ⟨-, requestBlock, requestAr, hrow, -, har, hwithdraw, -⟩ |
      ⟨-, requestBlock, requestAr, withdrawBlock, -, hrow, -, har, hwithdraw, hlater, -⟩ := h.shape
    · simp [hnone] at hrequest
    · exact ⟨requestBlock, requestAr, hrow, har, by simp [hwithdraw]⟩
    · exact ⟨requestBlock, requestAr, hrow, har, by simp [hwithdraw, hlater]⟩
  obtain ⟨requestBlock, requestAr, hrow, har, hopen⟩ := hshape
  have hread : ∀ {n : Nat} {c : DaoCompensationBreakdown}, _ ↔ _ := fun {n c} =>
    @compensation_requested entry requestBlock n h (by simp [hrow]) c
  simp only [hopen] at hread
  simp only [frozenCompensation, DaoCompensationTimeline.entry, hentry, hrow, har, bind_eq_ok,
    required_eq_ok, ensure_eq_ok, return_eq_ok, rateOf_eq_ok, Option.some.injEq, exists_eq_left',
    hread, exists_const]
  constructor
  · rintro ⟨_, -, _, ⟨hfreezes, rfl⟩, -, rfl⟩
    exact ⟨hfreezes, rfl⟩
  · rintro ⟨hfreezes, rfl⟩
    have hfrozen := hfreezes.1
    simp only [daoFrozenRequestCompensation, har, bind_eq_ok, required_eq_ok, rateOf_eq_ok,
      Option.some.injEq, exists_eq_left'] at hfrozen
    obtain ⟨_, -, _, ⟨hnonneg, -⟩, -⟩ := hfrozen
    exact ⟨_, ⟨hnonneg, rfl⟩, _, ⟨hfreezes, rfl⟩, ⟨rfl, rfl⟩, rfl⟩

/-- What a timeline holds after some events. -/
structure Walked (deposits : DaoDeposits) (done : DaoEvents)
    (t : DaoCompensationTimeline) : Prop where
  deposits_eq : t.deposits = deposits
  requests_sub : done.requests.map Prod.snd ⊆ done.deposits.map Prod.snd
  withdrawals_sub : done.withdrawals.map Prod.snd ⊆ done.requests.map Prod.snd
  active : ∀ key, t.active.contains key = true ↔
    key ∈ done.deposits.map Prod.snd ∧ key ∉ done.requests.map Prod.snd
  frozen : ∀ (key : DaoOutPoint) (c : Int), t.frozen[key]? = some c ↔
    key ∈ done.requests.map Prod.snd ∧ key ∉ done.withdrawals.map Prod.snd ∧
      c = valueOf deposits key
  frozenTotal : t.frozenTotal = sumOf deposits done.requests - sumOf deposits done.withdrawals
  claimed : t.claimed = sumOf deposits done.withdrawals

variable {done : DaoEvents} {t : DaoCompensationTimeline} {events : List DaoEvent}

theorem Walked.setEvents (h : Walked deposits done t)
    (depositEvents requestEvents withdrawalEvents : List DaoEvent) :
    Walked deposits done { t with depositEvents, requestEvents, withdrawalEvents } :=
  ⟨h.deposits_eq, h.requests_sub, h.withdrawals_sub, h.active, h.frozen, h.frozenTotal, h.claimed⟩

theorem key_notMem {event : DaoEvent} {before : List DaoEvent}
    (hnodup : ((before ++ event :: events).map Prod.snd).Nodup) :
    event.2 ∉ before.map Prod.snd := by
  rw [map_append, nodup_append'] at hnodup
  exact fun hmem => hnodup.2.2 hmem mem_cons_self

theorem mem_keys_concat {event : DaoEvent} {before : List DaoEvent} {key : DaoOutPoint} :
    key ∈ (before ++ [event]).map Prod.snd ↔ key ∈ before.map Prod.snd ∨ key = event.2 := by
  rw [map_append, mem_append, map_singleton, mem_singleton]

theorem foldlM_activate (h : Walked deposits done t)
    (hnodup : ((done.deposits ++ events).map Prod.snd).Nodup) :
    ∃ active, events.foldlM activate t = .ok { t with active } ∧
      Walked deposits { done with deposits := done.deposits ++ events } { t with active } := by
  induction events generalizing done t with
  | nil => exact ⟨t.active, rfl, by simpa using h⟩
  | cons event events ih =>
    have hnew := key_notMem hnodup
    have hinactive : t.active.contains event.2 = false := by
      rw [← Bool.not_eq_true, h.active]
      exact fun hmem => hnew hmem.1
    have hstep : activate t event = .ok { t with active := t.active.insert event.2 } := by
      simp [activate, ensure, hinactive]
    have hwalked : Walked deposits { done with deposits := done.deposits ++ [event] }
        { t with active := t.active.insert event.2 } := by
      refine ⟨h.deposits_eq, ?_, h.withdrawals_sub, ?_, h.frozen, h.frozenTotal, h.claimed⟩
      · rw [map_append]
        exact List.Subset.trans h.requests_sub (subset_append_left _ _)
      · intro key
        have hrequests : event.2 ∉ done.requests.map Prod.snd := fun hmem =>
          hnew (h.requests_sub hmem)
        rw [ExtTreeSet.contains_insert, Bool.or_eq_true, h.active]
        simp only [beq_iff_eq, LawfulEqCmp.compare_eq_iff_eq, mem_keys_concat]
        constructor
        · rintro (rfl | ⟨hmem, hopen⟩)
          · exact ⟨.inr rfl, hrequests⟩
          · exact ⟨.inl hmem, hopen⟩
        · rintro ⟨hmem | rfl, hopen⟩
          · exact .inr ⟨hmem, hopen⟩
          · exact .inl rfl
    obtain ⟨active, hrest, hwalked⟩ := ih hwalked (by simpa using hnodup)
    exact ⟨active, foldlM_cons_eq_ok.mpr ⟨_, hstep, hrest⟩, by simpa using hwalked⟩

/-- The requests of some events freeze amounts. -/
def AllFreeze (deposits : DaoDeposits) (events : List DaoEvent) : Prop :=
  ∀ event ∈ events, ∃ entry, deposits[event.2]? = some entry ∧ Freezes entry

/-- Some events are requests of the lifecycles of the map. -/
def AreRequests (deposits : DaoDeposits) (events : List DaoEvent) : Prop :=
  ∀ event ∈ events, ∃ entry, deposits[event.2]? = some entry ∧ DaoLifecycle entry ∧
    entry.withdrawRequestBlock.isSome = true

theorem fits_of_lt {v : Int} (hnonneg : 0 ≤ v) (hlt : v < 2 ^ 127) : fitsSignedBits 128 v = true := by
  simp only [fitsSignedBits, decide_eq_true_eq]
  omega

theorem foldlM_freeze (h : Walked deposits done t) (hevents : AreRequests deposits events)
    (hfreeze : AllFreeze deposits events) (hnodup : ((done.requests ++ events).map Prod.snd).Nodup)
    (hsub : events.map Prod.snd ⊆ done.deposits.map Prod.snd)
    (hlen : (done.requests ++ events).length < 2 ^ 64)
    (hwithdrawals : (done.withdrawals.map Prod.snd).Nodup) :
    ∃ active frozen frozenTotal, events.foldlM freeze t = .ok { t with active, frozen, frozenTotal } ∧
      Walked deposits { done with requests := done.requests ++ events }
        { t with active, frozen, frozenTotal } := by
  induction events generalizing done t with
  | nil => exact ⟨t.active, t.frozen, t.frozenTotal, rfl, by simpa using h⟩
  | cons event events ih =>
    obtain ⟨⟨entry, hentry, hlife, hrequest⟩, hevents⟩ := forall_mem_cons.mp hevents
    obtain ⟨⟨entry', hentry', hfreezes⟩, hfreeze⟩ := forall_mem_cons.mp hfreeze
    obtain rfl : entry = entry' := Option.mem_unique hentry hentry'
    have hvalue : valueOf deposits event.2 = frozenValue entry := by simp [valueOf, hentry]
    have hnew := key_notMem hnodup
    have hold : event.2 ∉ done.withdrawals.map Prod.snd := fun hmem =>
      hnew (h.withdrawals_sub hmem)
    have hactive : t.active.contains event.2 = true :=
      (h.active _).mpr ⟨hsub mem_cons_self, hnew⟩
    have hcompensation : t.frozenCompensation event.2 = .ok (valueOf deposits event.2) := by
      rw [hvalue]
      exact (frozenCompensation_eq_ok (h.deposits_eq ▸ hentry) hlife hrequest).mpr ⟨hfreezes, rfl⟩
    have hunfrozen : t.frozen.contains event.2 = false := by
      rw [ExtTreeMap.contains_eq_isSome_getElem?, Option.isSome_eq_false_iff,
        Option.isNone_iff_eq_none, Option.eq_none_iff_forall_not_mem]
      exact fun c hc => hnew ((h.frozen _ c).mp hc).1
    have hfits : fitsSignedBits 128 (t.frozenTotal + valueOf deposits event.2) = true := by
      have hle : (done.requests ++ [event]).length < 2 ^ 64 := by
        simp only [length_append, length_cons, length_nil] at hlen ⊢
        omega
      have hlt := @sumOf_lt deposits _ hle
      have hwithdrawn := @sumOf_nonneg deposits done.withdrawals
      have hless := @sumOf_le_of_subset deposits _ _ hwithdrawals h.withdrawals_sub
      have hbounds := valueOf_bounds deposits event.2
      rw [sumOf_append, sumOf_singleton] at hlt
      rw [h.frozenTotal]
      exact fits_of_lt (by omega) (by omega)
    let next := { t with
      active := t.active.erase event.2
      frozen := t.frozen.insert event.2 (valueOf deposits event.2)
      frozenTotal := t.frozenTotal + valueOf deposits event.2 }
    have hstep : freeze t event = .ok next := by
      simp [next, freeze, ensure, checked, hactive, hcompensation, hunfrozen, hfits]
    have hwalked : Walked deposits { done with requests := done.requests ++ [event] } next := by
      refine ⟨h.deposits_eq, ?_, ?_, ?_, ?_, ?_, h.claimed⟩
      · intro key hkey
        rcases mem_keys_concat.mp hkey with hkey | rfl
        · exact h.requests_sub hkey
        · exact hsub mem_cons_self
      · rw [map_append]
        exact List.Subset.trans h.withdrawals_sub (subset_append_left _ _)
      · intro key
        rw [ExtTreeSet.contains_erase, Bool.and_eq_true, h.active]
        simp only [bne_iff_ne, ne_eq, LawfulEqCmp.compare_eq_iff_eq, mem_keys_concat]
        constructor
        · rintro ⟨hne, hmem, hopen⟩
          exact ⟨hmem, fun hor => hor.elim hopen fun heq => hne heq.symm⟩
        · rintro ⟨hmem, hopen⟩
          exact ⟨fun heq => hopen (.inr heq.symm), hmem, fun hreq => hopen (.inl hreq)⟩
      · intro key c
        rw [getElem?_insert_ite]
        split
        · rename_i hkey
          subst hkey
          simp [hold, eq_comm]
        · rename_i hkey
          rw [h.frozen]
          simp [Ne.symm hkey]
      · simp only [next, sumOf_append, sumOf_singleton, h.frozenTotal]
        ring
    obtain ⟨active, frozen, frozenTotal, hrest, hwalked⟩ := ih hwalked hevents hfreeze
      (by simpa using hnodup) (fun key hkey => hsub (mem_cons_of_mem _ hkey))
      (by simpa using hlen) hwithdrawals
    exact ⟨active, frozen, frozenTotal, foldlM_cons_eq_ok.mpr ⟨_, hstep, hrest⟩,
      by simpa using hwalked⟩

/-- A loop that froze the requests of some events did freeze an amount for each. -/
theorem allFreeze_of_foldlM {t' : DaoCompensationTimeline} (hdeposits : t.deposits = deposits)
    (hevents : AreRequests deposits events) (h : events.foldlM freeze t = .ok t') :
    AllFreeze deposits events := by
  induction events generalizing t with
  | nil => simp [AllFreeze]
  | cons event events ih =>
    obtain ⟨⟨entry, hentry, hlife, hrequest⟩, hevents⟩ := forall_mem_cons.mp hevents
    obtain ⟨mid, hmid, hrest⟩ := foldlM_cons_eq_ok.mp h
    simp only [freeze, bind_eq_ok, return_eq_ok] at hmid
    obtain ⟨-, -, c, hc, -, -, frozenTotal, -, rfl⟩ := hmid
    obtain ⟨hfreezes, -⟩ :=
      (frozenCompensation_eq_ok (hdeposits ▸ hentry) hlife hrequest).mp hc
    exact forall_mem_cons.mpr ⟨⟨entry, hentry, hfreezes⟩, ih (by exact hdeposits) hevents hrest⟩

theorem foldlM_claim (h : Walked deposits done t)
    (hnodup : ((done.withdrawals ++ events).map Prod.snd).Nodup)
    (hsub : events.map Prod.snd ⊆ done.requests.map Prod.snd)
    (hlen : done.requests.length < 2 ^ 64) :
    ∃ frozen frozenTotal claimed, events.foldlM claim t = .ok { t with frozen, frozenTotal, claimed } ∧
      Walked deposits { done with withdrawals := done.withdrawals ++ events }
        { t with frozen, frozenTotal, claimed } := by
  induction events generalizing done t with
  | nil => exact ⟨t.frozen, t.frozenTotal, t.claimed, rfl, by simpa using h⟩
  | cons event events ih =>
    have hnew := key_notMem hnodup
    have hrequested : event.2 ∈ done.requests.map Prod.snd := hsub mem_cons_self
    have hfrozen : t.frozen[event.2]? = some (valueOf deposits event.2) :=
      (h.frozen _ _).mpr ⟨hrequested, hnew, rfl⟩
    have hsub' : (done.withdrawals ++ [event]).map Prod.snd ⊆ done.requests.map Prod.snd := by
      intro key hkey
      rcases mem_keys_concat.mp hkey with hkey | rfl
      · exact h.withdrawals_sub hkey
      · exact hrequested
    have hnodup' : ((done.withdrawals ++ [event]).map Prod.snd).Nodup := by
      refine hnodup.sublist (List.Sublist.map _ (List.Sublist.append_left ?_ _))
      exact (nil_sublist _).cons_cons _
    have hless := @sumOf_le_of_subset deposits _ _ hnodup' hsub'
    rw [sumOf_append, sumOf_singleton] at hless
    have hlt := @sumOf_lt deposits _ hlen
    have hwithdrawn := @sumOf_nonneg deposits done.withdrawals
    have hbounds := valueOf_bounds deposits event.2
    have hnonneg : 0 ≤ t.frozenTotal - valueOf deposits event.2 := by
      rw [h.frozenTotal]
      omega
    have hfits : fitsSignedBits 128 (t.frozenTotal - valueOf deposits event.2) = true := by
      refine fits_of_lt hnonneg ?_
      rw [h.frozenTotal]
      omega
    have hfits' : fitsSignedBits 128 (t.claimed + valueOf deposits event.2) = true := by
      rw [h.claimed]
      exact fits_of_lt (by omega) (by omega)
    let next := { t with
      frozen := t.frozen.erase event.2
      frozenTotal := t.frozenTotal - valueOf deposits event.2
      claimed := t.claimed + valueOf deposits event.2 }
    have hstep : claim t event = .ok next := by
      simp [next, claim, ensure, checked, required, hfrozen, hfits, hfits', sub_nonneg.mp hnonneg]
    have hwalked : Walked deposits { done with withdrawals := done.withdrawals ++ [event] } next := by
      refine ⟨h.deposits_eq, h.requests_sub, hsub', h.active, ?_, ?_, ?_⟩
      · intro key c
        rw [getElem?_erase_ite]
        split
        · rename_i hkey
          simp [hkey]
        · rename_i hkey
          rw [h.frozen]
          simp [Ne.symm hkey]
      · simp only [next, sumOf_append, sumOf_singleton, h.frozenTotal]
        ring
      · simp [next, h.claimed]
    obtain ⟨frozen, frozenTotal, claimed, hrest, hwalked⟩ := ih hwalked (by simpa using hnodup)
      (fun key hkey => hsub (mem_cons_of_mem _ hkey)) hlen
    exact ⟨frozen, frozenTotal, claimed, foldlM_cons_eq_ok.mpr ⟨_, hstep, hrest⟩,
      by simpa using hwalked⟩

/-! ## The active deposits -/

variable {b : Int} {ar : Nat}

/-- What a deposit of the map earns while it is active. -/
def earnedOf (deposits : DaoDeposits) (b : Int) (ar : Nat) (key : DaoOutPoint) : Int :=
  (deposits[key]?.map fun entry => (contribution entry b ar).activeUnmade).getD 0

/-- Some deposits are lifecycles that are active at a block. -/
def AreActive (deposits : DaoDeposits) (b : Int) (keys : List DaoOutPoint) : Prop :=
  ∀ key ∈ keys, ∃ entry, deposits[key]? = some entry ∧ DaoLifecycle entry ∧
    entry.depositBlockNumber ≤ b ∧ entry.withdrawRequestBlock.any (· ≤ b) = false

/-- Some deposits can be read at a block. -/
def AllReadable (deposits : DaoDeposits) (b : Int) (ar : Nat) (keys : List DaoOutPoint) : Prop :=
  ∀ key ∈ keys, ∃ entry, deposits[key]? = some entry ∧ ReadableAt entry b ar

theorem foldlM_addActive {keys : List DaoOutPoint} {activeUnmade : Int}
    (hdeposits : t.deposits = deposits) (hactive : AreActive deposits b keys)
    (hread : AllReadable deposits b ar keys) (hnonneg : 0 ≤ activeUnmade)
    (hroom : activeUnmade + keys.length * (2 ^ 63 - 1) < 2 ^ 127) :
    keys.foldlM (t.addActive b ar) activeUnmade
        = .ok (activeUnmade + (keys.map (earnedOf deposits b ar)).sum) ∧
      0 ≤ (keys.map (earnedOf deposits b ar)).sum ∧
      (keys.map (earnedOf deposits b ar)).sum ≤ keys.length * (2 ^ 63 - 1) := by
  induction keys generalizing activeUnmade with
  | nil => simp
  | cons key keys ih =>
    obtain ⟨⟨entry, hentry, hlife, hdeposit, hrequest⟩, hactive⟩ := forall_mem_cons.mp hactive
    obtain ⟨⟨entry', hentry', hreadable⟩, hread⟩ := forall_mem_cons.mp hread
    obtain rfl : entry = entry' := Option.mem_unique hentry hentry'
    obtain ⟨hclaimed, hunclaimed, hlt⟩ := contribution_active hlife hreadable hdeposit hrequest
    have hearned : 0 ≤ (contribution entry b ar).activeUnmade := hreadable.nonneg.activeUnmade
    have hvalue : earnedOf deposits b ar key = (contribution entry b ar).activeUnmade := by
      simp [earnedOf, hentry]
    simp only [length_cons] at hroom
    have hfits : fitsSignedBits 128 (activeUnmade + (contribution entry b ar).activeUnmade)
        = true :=
      fits_of_lt (by omega) (by omega)
    have hstep : t.addActive b ar activeUnmade key
        = .ok (activeUnmade + (contribution entry b ar).activeUnmade) := by
      have hcompensation : daoCompensationForEntryAt entry b ar = .ok (contribution entry b ar) :=
        hreadable
      simp [addActive, DaoCompensationTimeline.entry, required, hdeposits, hentry, hcompensation,
        hclaimed, hunclaimed, ensure, checked, hfits]
    obtain ⟨hrest, hlow, hhigh⟩ := ih hactive hread
      (show 0 ≤ activeUnmade + (contribution entry b ar).activeUnmade by omega) (by omega)
    simp only [map_cons, sum_cons, length_cons, hvalue]
    refine ⟨foldlM_cons_eq_ok.mpr ⟨_, hstep, ?_⟩, by omega, by omega⟩
    rw [hrest, add_assoc]

theorem allReadable_of_foldlM {keys : List DaoOutPoint} {activeUnmade total : Int}
    (hdeposits : t.deposits = deposits)
    (h : keys.foldlM (t.addActive b ar) activeUnmade = .ok total) :
    AllReadable deposits b ar keys := by
  induction keys generalizing activeUnmade with
  | nil => simp [AllReadable]
  | cons key keys ih =>
    obtain ⟨mid, hmid, hrest⟩ := foldlM_cons_eq_ok.mp h
    simp only [addActive, DaoCompensationTimeline.entry, bind_eq_ok, required_eq_ok,
      daoCompensationForEntryAt_eq_ok, hdeposits] at hmid
    obtain ⟨entry, hentry, _, ⟨hread, -⟩, -⟩ := hmid
    exact forall_mem_cons.mpr ⟨⟨entry, hentry, hread⟩, ih hrest⟩

end Walk

end DaoCompensationTimeline

end Ckbadger.Bulk
