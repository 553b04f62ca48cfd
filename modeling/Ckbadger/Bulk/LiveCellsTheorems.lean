/-
Ckbadger.Bulk.LiveCellsTheorems — the tables of the owner represent a live set.

`OwnerInv` ties the five structures of the owner to one live set, `LivenessCounts`
the reference counts. A birth keeps both over an insertion, a spend over an erasure;
each is one lemma that says when the call succeeds and what it leaves.
-/
import Ckbadger.Bulk.InternerTheorems
import Ckbadger.Bulk.LiveSet

namespace Ckbadger.Bulk

open Lib Sync FinMap List

variable {c : LiveCell} {slot : LiveCellSlot}

/-! ## Slots -/

/-- The projection of a slot succeeds exactly on well-formed facts, and gives the cell's class. -/
theorem liveCellSummaryProjection_ok {context : CellSummaryContext}
    {projection : LiveCellSummaryProjection} (hslot : slotFromCellFacts c.cell = .ok slot) :
    liveCellSummaryProjection slot context = .ok projection ↔
      CellWellFormed c.cell ∧ projection = ⟨c.cls, 0 < c.cell.dataSize⟩ := by
  unfold slotFromCellFacts at hslot
  split at hslot
  · cases hslot
  · rename_i hash hhash
    cases hslot
    have hcls : (if decide (c.cell.semanticTag = .dao) then LiveCellSummaryClass.dao
        else if c.cell.typeScriptHashId.isSome then .typedNonDao else .plain) = c.cls := by
      simp [LiveCell.cls]
    rw [liveCellSummaryProjection, projectionFromParts_eq_ok, hcls]
    constructor
    · rintro ⟨htype, hdao, hsize, rfl⟩
      exact ⟨⟨by rw [hhash]; rfl, htype, by simpa using hdao, hsize⟩, rfl⟩
    · rintro ⟨hwf, rfl⟩
      exact ⟨hwf.typeScript, by simpa using hwf.dao, hwf.dataSize, rfl⟩

theorem slotFromCellFacts_isSome {cell : CellFacts} (h : cell.dataHash.isSome) :
    ∃ slot, slotFromCellFacts cell = .ok slot := by
  obtain ⟨hash, hhash⟩ := Option.isSome_iff_exists.mp h
  unfold slotFromCellFacts
  rw [hhash]
  exact ⟨_, rfl⟩

theorem keptWhileLive_eq (c : LiveCell) : keptWhileLive c.cell.protocolFacts = c.protocolFacts := by
  unfold LiveCell.protocolFacts
  rcases c.cell.protocolFacts with _ | facts
  · rfl
  · cases facts <;> rfl

/-- A slot with its extras and protocol facts holds what a spender sees of the cell. -/
theorem resolved_of_slot (hslot : slotFromCellFacts c.cell = .ok slot) :
    slot.intoResolvedInputFacts c.cell.outpoint ((extrasFromCellFacts c.cell c.ars).getD {})
      (keptWhileLive c.cell.protocolFacts) = c.resolved := by
  unfold slotFromCellFacts at hslot
  split at hslot
  · cases hslot
  · rename_i hash hhash
    cases hslot
    have hextras : (extrasFromCellFacts c.cell c.ars).getD {}
        = ⟨c.cell.udtAmount, c.cell.daoState, c.ars⟩ := by
      unfold extrasFromCellFacts
      split
      · rfl
      · rename_i hnone
        simp only [Bool.or_eq_true, not_or, Option.not_isSome_iff_eq_none] at hnone
        rw [hnone.1.1, hnone.1.2, hnone.2]
        rfl
    rw [hextras, LiveCell.resolved, hhash, keptWhileLive_eq]
    rfl

/-! ## The owner -/

/-- The owner's structures represent a live set. -/
structure OwnerInv (capacity : Nat → Nat) (owner : LiveCellOwner) (m : LiveSet) : Prop where
  live : ∀ o, owner.live.lookup o = (m.lookup o).bind fun c => (slotFromCellFacts c.cell).toOption
  extras : ∀ o, owner.extras.lookup o = (m.lookup o).bind fun c => extrasFromCellFacts c.cell c.ars
  facts : ∀ o, owner.protocolFacts.lookup o
    = (m.lookup o).bind fun c => keptWhileLive c.cell.protocolFacts
  heapBytes : owner.protocolHeapBytes = liveHeapBytes capacity m
  classes : ∀ cls, owner.summary.get cls = classCount cls m
  dataBearing : owner.summary.dataBearing = dataBearingCount m
  cells : ∀ o c, m.lookup o = some c → c.cell.outpoint = o ∧ CellWellFormed c.cell

section Owner

variable {capacity : Nat → Nat} {owner owner' : LiveCellOwner} {m : LiveSet} {o : OutPointKey}

theorem OwnerInv.init : OwnerInv capacity {} ∅ where
  live _ := rfl
  extras _ := rfl
  facts _ := rfl
  heapBytes := rfl
  classes cls := by cases cls <;> rfl
  dataBearing := rfl
  cells o c h := by cases h

section Table

variable {V : Type} {f : LiveCell → Option V} {table : FinMap OutPointKey V}
  (h : ∀ x, table.lookup x = (m.lookup x).bind f)

include h

theorem lookup_erase_bind (x : OutPointKey) :
    (table.erase o).lookup x = ((m.erase o).lookup x).bind f := by
  rw [lookup_erase_apply, lookup_erase_apply]
  split
  · rfl
  · exact h x

theorem lookup_insertSome_bind (hnone : m.lookup o = none) (c : LiveCell) (x : OutPointKey) :
    (insertSome table o (f c)).lookup x = ((m.insert o c).lookup x).bind f := by
  rw [lookup_insert_apply]
  unfold insertSome
  split
  · rename_i hf
    rw [h x]
    split
    · rename_i hx
      rw [hx, hnone, Option.bind_some, hf]
      rfl
    · rfl
  · rename_i v hf
    rw [lookup_insert_apply, h x]
    split
    · rw [Option.bind_some, hf]
    · rfl

end Table

section

variable (h : OwnerInv capacity owner m)

include h

/-- A live outpoint is consumed: its facts come out, and it leaves the live set. -/
theorem OwnerInv.consume (hc : m.lookup o = some c) (ctx : ConsumeContext) :
    ∃ owner', consume capacity owner o ctx = .ok (c.resolved, owner') ∧
      OwnerInv capacity owner' (m.erase o) := by
  obtain ⟨hkey, hwf⟩ := h.cells o c hc
  obtain ⟨slot, hslot⟩ := slotFromCellFacts_isSome hwf.dataHash
  have hlive : owner.live.lookup o = some slot := by
    rw [h.live o, hc, Option.bind_some, hslot]
    rfl
  have hfacts : owner.protocolFacts.lookup o = keptWhileLive c.cell.protocolFacts := by
    rw [h.facts o, hc, Option.bind_some]
  have hextras : owner.extras.lookup o = extrasFromCellFacts c.cell c.ars := by
    rw [h.extras o, hc, Option.bind_some]
  have hclass : ∀ cls, classCount cls m
      = (if c.cls = cls then 1 else 0) + classCount cls (m.erase o) :=
    fun cls => weight_erase hc
  have hdata : dataBearingCount m
      = (if 0 < c.cell.dataSize then 1 else 0) + dataBearingCount (m.erase o) :=
    weight_erase hc
  have hheap : liveHeapBytes capacity m
      = factsHeapBytes capacity (keptWhileLive c.cell.protocolFacts)
        + liveHeapBytes capacity (m.erase o) := weight_erase hc
  obtain ⟨summary, hspend, hcls', hdata'⟩ := afterSpend_eq (c := owner.summary)
    ⟨c.cls, 0 < c.cell.dataSize⟩ ⟨"spend", ctx.blockNumber, o.txHash, o.index⟩
    (by rw [h.classes, hclass, if_pos rfl]; omega)
    (fun hpos => by
      rw [h.dataBearing, hdata, if_pos (of_decide_eq_true hpos)]
      omega)
  unfold Bulk.consume
  simp only [hlive, hfacts, hextras]
  rw [(liveCellSummaryProjection_ok hslot).mpr ⟨hwf, rfl⟩]
  simp only [hspend, ok_bind]
  rw [if_neg (by rw [h.heapBytes, hheap]; omega)]
  refine ⟨_, by rw [← resolved_of_slot hslot, hkey]; rfl, ?_⟩
  refine ⟨lookup_erase_bind h.live, lookup_erase_bind h.extras, lookup_erase_bind h.facts, ?_,
    fun cls => ?_, ?_, fun x d hx => ?_⟩
  · simp only [h.heapBytes, hheap]
    omega
  · have := hcls' cls
    rw [h.classes, hclass] at this
    simp only at this ⊢
    omega
  · rw [h.dataBearing, hdata] at hdata'
    simp only [decide_eq_true_eq] at hdata' ⊢
    omega
  · rw [lookup_erase_apply] at hx
    split at hx
    · cases hx
    · exact h.cells x d hx

theorem OwnerInv.consume_live {ctx : ConsumeContext}
    {result : ResolvedInputFacts × LiveCellOwner}
    (hconsume : Bulk.consume capacity owner o ctx = .ok result) : ∃ c, m.lookup o = some c := by
  unfold Bulk.consume at hconsume
  split at hconsume
  · cases hconsume
  · rename_i slot hslot
    rw [h.live o] at hslot
    cases hc : m.lookup o with
    | none => rw [hc] at hslot; cases hslot
    | some c => exact ⟨c, rfl⟩

/-- A birth that succeeded: the outpoint was new, the facts are well formed, and the cell is in
the live set. -/
theorem OwnerInv.insertCreated (hslot : slotFromCellFacts c.cell = .ok slot)
    (hinsert : insertCreated capacity owner c.cell.outpoint slot
      (extrasFromCellFacts c.cell c.ars) (keptWhileLive c.cell.protocolFacts) = .ok owner') :
    m.lookup c.cell.outpoint = none ∧ CellWellFormed c.cell ∧
      OwnerInv capacity owner' (m.insert c.cell.outpoint c) := by
  unfold Bulk.insertCreated at hinsert
  split at hinsert
  · cases hinsert
  · rename_i hnew
    obtain ⟨projection, hprojection, hinsert⟩ := bind_eq_ok.mp hinsert
    obtain ⟨hwf, rfl⟩ := (liveCellSummaryProjection_ok hslot).mp hprojection
    obtain ⟨summary, hsummary, hinsert⟩ := bind_eq_ok.mp hinsert
    obtain ⟨hcls, hdata⟩ := afterBirth_ok hsummary
    obtain ⟨bytes, hbytes, hinsert⟩ := bind_eq_ok.mp hinsert
    cases hinsert
    have hnone : m.lookup c.cell.outpoint = none := by
      simp only [Bool.or_eq_true, not_or, Option.not_isSome_iff_eq_none] at hnew
      cases hm : m.lookup c.cell.outpoint with
      | none => rfl
      | some d =>
        obtain ⟨dslot, hdslot⟩ := slotFromCellFacts_isSome (h.cells _ d hm).2.dataHash
        have := hnew.1.1
        rw [h.live, hm, Option.bind_some, hdslot] at this
        cases this
    have hlive : ∀ x, (owner.live.insert c.cell.outpoint slot).lookup x
        = ((m.insert c.cell.outpoint c).lookup x).bind
          fun d => (slotFromCellFacts d.cell).toOption := by
      intro x
      have := lookup_insertSome_bind h.live hnone c x
      rw [hslot] at this
      exact this
    refine ⟨hnone, hwf, hlive, lookup_insertSome_bind h.extras hnone c,
      lookup_insertSome_bind h.facts hnone c, ?_, fun cls => ?_, ?_, fun x d hx => ?_⟩
    · have hsum : bytes = _ + _ := (checkedAddU64_ok hbytes).1
      rw [liveHeapBytes, weight_insert hnone]
      simp only [hsum, h.heapBytes, Nat.add_comm]
      rfl
    · rw [classCount, weight_insert hnone]
      simp only [hcls cls, h.classes cls]
      rfl
    · rw [dataBearingCount, weight_insert hnone]
      simp only [hdata, h.dataBearing, decide_eq_true_eq]
      rfl
    · rw [lookup_insert_apply] at hx
      split at hx
      · rename_i hkey
        cases hx
        exact ⟨hkey.symm, hwf⟩
      · exact h.cells x d hx

omit h in
/-- The number of cells of a class, and of cells with data, is at most the number of cells. -/
theorem classCount_le (cls : LiveCellSummaryClass) (m : LiveSet) :
    classCount cls m ≤ weight (fun _ _ => 1) m :=
  weight_le fun _ c => by
    split
    · exact le_refl 1
    · exact Nat.zero_le 1

omit h in
theorem dataBearingCount_le (m : LiveSet) : dataBearingCount m ≤ weight (fun _ _ => 1) m :=
  weight_le fun _ c => by
    split
    · exact le_refl 1
    · exact Nat.zero_le 1

/-- A birth of a well-formed cell at a new outpoint succeeds where the counters fit. -/
theorem OwnerInv.insertCreated_isOk (hslot : slotFromCellFacts c.cell = .ok slot)
    (hwf : CellWellFormed c.cell) (hnone : m.lookup c.cell.outpoint = none)
    (hcells : weight (fun _ _ => 1) (m.insert c.cell.outpoint c) < 2 ^ 64)
    (hheap : liveHeapBytes capacity (m.insert c.cell.outpoint c) < 2 ^ 64) :
    ∃ owner', Bulk.insertCreated capacity owner c.cell.outpoint slot
      (extrasFromCellFacts c.cell c.ars) (keptWhileLive c.cell.protocolFacts) = .ok owner' := by
  rw [weight_insert hnone] at hcells
  rw [liveHeapBytes, weight_insert hnone] at hheap
  have hclass : classCount c.cls m + 1 < 2 ^ 64 := by
    have := classCount_le c.cls m
    omega
  have hdata : dataBearingCount m + 1 < 2 ^ 64 := by
    have := dataBearingCount_le m
    omega
  unfold Bulk.insertCreated
  rw [if_neg (by rw [h.live, h.extras, h.facts, hnone]; decide)]
  simp only [(liveCellSummaryProjection_ok hslot).mpr ⟨hwf, rfl⟩, ok_bind]
  obtain ⟨summary, hsummary⟩ := exists_of_isOk (afterBirth_isOk (c := owner.summary)
    ⟨c.cls, 0 < c.cell.dataSize⟩
    ⟨"birth", slot.createdAtBlock, c.cell.outpoint.txHash, c.cell.outpoint.index⟩
    (by rw [h.classes]; exact hclass) (by rw [h.dataBearing]; exact hdata))
  rw [hsummary]
  simp only [checkedAddU64]
  rw [if_pos (by rw [h.heapBytes, Nat.add_comm]; exact hheap)]
  exact ⟨_, rfl⟩

end

end Owner

/-! ## Calls that fail -/

section Calls

variable (capacity : Nat → Nat)

/-- What a call leaves, if a failed call leaves the owner as it was. -/
def outcome {α : Type} (owner : LiveCellOwner) :
    Except String (α × LiveCellOwner) → EStateM.Result String LiveCellOwner α
  | .ok (value, owner') => .ok value owner'
  | .error e => .error e owner

variable (owner : LiveCellOwner) (outpoint : OutPointKey)

theorem run_ofExcept_ok {α : Type} (a : α) :
    (MonadExcept.ofExcept (.ok a : Except String α) : OwnerM α).run owner = .ok a owner := rfl

theorem insertCreatedM_run (slot : LiveCellSlot) (extras : Option LiveCellExtras)
    (protocolFacts : Option CellProtocolFacts) :
    (insertCreatedM capacity outpoint slot extras protocolFacts).run owner = outcome owner
      ((insertCreated capacity owner outpoint slot extras protocolFacts).map ((), ·)) := by
  unfold insertCreatedM insertCreated
  split
  · rename_i hduplicate
    simp only [EStateM.run_bind, EStateM.run_get, hduplicate]
    rfl
  · rename_i hfresh
    simp only [EStateM.run_bind, EStateM.run_get, hfresh, Bool.false_eq_true, if_false]
    cases liveCellSummaryProjection slot _ with
    | error e => rfl
    | ok projection =>
      simp only [ok_bind, run_ofExcept_ok]
      cases owner.summary.afterBirth projection _ with
      | error e => rfl
      | ok summary =>
        cases checkedAddU64 owner.protocolHeapBytes _ _ with
        | error e => rfl
        | ok bytes => rfl

theorem consumeM_run (ctx : ConsumeContext) :
    (consumeM capacity outpoint ctx).run owner
      = outcome owner (consume capacity owner outpoint ctx) := by
  unfold consumeM consume
  simp only [EStateM.run_bind, EStateM.run_get]
  cases owner.live.lookup outpoint with
  | none => rfl
  | some slot =>
    simp only [EStateM.run_bind]
    cases liveCellSummaryProjection slot _ with
    | error e => rfl
    | ok projection =>
      simp only [ok_bind, run_ofExcept_ok]
      cases owner.summary.afterSpend projection _ with
      | error e => rfl
      | ok summary =>
        simp only [run_ofExcept_ok]
        split <;> rfl

theorem eq_of_outcome_eq_error {α : Type} {x : Except String (α × LiveCellOwner)} {e : String}
    {owner' : LiveCellOwner} (h : outcome owner x = .error e owner') : owner' = owner := by
  cases x with
  | ok result => cases h
  | error e' => exact (EStateM.Result.error.inj h).2.symm

/-- **The calls of the owner are all or nothing.** A failed call leaves every table and counter as it
was. -/
theorem owner_unchanged_of_error (e : String) (owner' : LiveCellOwner) :
    (∀ slot extras protocolFacts,
      (insertCreatedM capacity outpoint slot extras protocolFacts).run owner = .error e owner' →
      owner' = owner) ∧
    ∀ ctx, (consumeM capacity outpoint ctx).run owner = .error e owner' → owner' = owner := by
  constructor
  · intro slot extras protocolFacts h
    rw [insertCreatedM_run] at h
    exact eq_of_outcome_eq_error owner h
  · intro ctx h
    rw [consumeM_run] at h
    exact eq_of_outcome_eq_error owner h

/-- An owner with one cell. -/
def oneCellOwner : LiveCellOwner where
  live := (∅ : FinMap OutPointKey LiveCellSlot).insert ⟨[1], 0⟩
    ⟨5, 1, 20000000000, 6100000000, 0, [0], 0, 1, 0, 2, none, none, none, none, .plain⟩
  summary := ⟨0, 0, 1, 0⟩

/-- The cell is inserted once more, and a cell that is not there is spent. -/
theorem owner_unchanged_of_error_one_cell :
    (∃ slot e, (insertCreatedM id ⟨[1], 0⟩ slot none none).run oneCellOwner
      = .error e oneCellOwner) ∧
    ∃ e, (consumeM id ⟨[2], 0⟩ ⟨6, [3], 1, 0⟩).run oneCellOwner = .error e oneCellOwner := by
  constructor
  · obtain ⟨slot, e, owner', h⟩ : ∃ slot e owner',
        (insertCreatedM id ⟨[1], 0⟩ slot none none).run oneCellOwner = .error e owner' :=
      ⟨⟨6, 1, 20000000000, 6100000000, 0, [0], 0, 1, 0, 2, none, none, none, none, .plain⟩,
        _, _, rfl⟩
    exact ⟨slot, e, (owner_unchanged_of_error id oneCellOwner ⟨[1], 0⟩ e owner').1 _ _ _ h ▸ h⟩
  · obtain ⟨e, owner', h⟩ : ∃ e owner',
        (consumeM id ⟨[2], 0⟩ ⟨6, [3], 1, 0⟩).run oneCellOwner = .error e owner' := ⟨_, _, rfl⟩
    exact ⟨e, (owner_unchanged_of_error id oneCellOwner ⟨[2], 0⟩ e owner').2 _ h ▸ h⟩

end Calls

/-! ## References -/

section References

variable {l l' : IdentityLiveness} {id : InternId} {ids : List InternId}

theorem liveRefs_set {slot new : LivenessSlot} (h : l.slots[id]? = some slot)
    (candidates : List InternId) (j : InternId) :
    (⟨l.slots.set id new, candidates⟩ : IdentityLiveness).liveRefs j
      = if id = j then new.liveRefs else l.liveRefs j := by
  unfold IdentityLiveness.liveRefs
  rw [getElem?_set_of_some h]
  split
  · rfl
  · rfl

theorem liveRefs_of_slot {slot : LivenessSlot} (h : l.slots[id]? = some slot) :
    l.liveRefs id = slot.liveRefs := by
  unfold IdentityLiveness.liveRefs
  rw [h]
  rfl

theorem retain_ok (h : retain l id = .ok l') :
    l'.slots.length = l.slots.length ∧
      ∀ j, l'.liveRefs j = (if id = j then 1 else 0) + l.liveRefs j := by
  unfold Bulk.retain at h
  split at h
  · cases h
  · rename_i slot hslot
    split at h
    · cases h
      refine ⟨length_set, fun j => ?_⟩
      rw [liveRefs_set hslot]
      split
      · rename_i hj
        rw [← hj, liveRefs_of_slot hslot, Nat.add_comm]
      · rw [Nat.zero_add]
    · cases h

theorem retain_isOk (hid : id < l.slots.length) (hfits : l.liveRefs id + 1 < 2 ^ 32) :
    ∃ l', retain l id = .ok l' := by
  have hslot : l.slots[id]? = some l.slots[id] := getElem?_eq_getElem hid
  rw [liveRefs_of_slot hslot] at hfits
  unfold Bulk.retain
  rw [hslot]
  simp only [if_pos hfits]
  exact ⟨_, rfl⟩

theorem release_eq (hpos : 0 < l.liveRefs id) :
    ∃ l', release l id = .ok l' ∧ l'.slots.length = l.slots.length ∧
      ∀ j, l.liveRefs j = (if id = j then 1 else 0) + l'.liveRefs j := by
  cases hslot : l.slots[id]? with
  | none =>
    unfold IdentityLiveness.liveRefs at hpos
    rw [hslot] at hpos
    exact absurd hpos (lt_irrefl 0)
  | some slot =>
    rw [liveRefs_of_slot hslot] at hpos
    -- whichever slot is written, it holds one reference less
    have hwritten : ∀ (new : LivenessSlot) (candidates : List InternId),
        slot.liveRefs = new.liveRefs + 1 →
        ∀ j, l.liveRefs j = (if id = j then 1 else 0)
          + (⟨l.slots.set id new, candidates⟩ : IdentityLiveness).liveRefs j := by
      intro new candidates hnew j
      rw [liveRefs_set hslot]
      split
      · rename_i hj
        rw [← hj, liveRefs_of_slot hslot, hnew, Nat.add_comm]
      · rw [Nat.zero_add]
    unfold Bulk.release
    rw [hslot]
    match slot, hpos, hwritten with
    | ⟨1, false⟩, _, hwritten | ⟨1, true⟩, _, hwritten =>
      exact ⟨_, rfl, length_set, hwritten ⟨0, true⟩ _ rfl⟩
    | ⟨refs + 2, queued⟩, _, hwritten =>
      exact ⟨_, rfl, length_set, hwritten ⟨refs + 1, queued⟩ _ rfl⟩

theorem foldlM_retain_ok (h : ids.foldlM retain l = .ok l') :
    l'.slots.length = l.slots.length ∧ ∀ j, l'.liveRefs j = ids.count j + l.liveRefs j := by
  induction ids generalizing l with
  | nil =>
    cases h
    exact ⟨rfl, fun j => by rw [count_nil, Nat.zero_add]⟩
  | cons id ids ih =>
    obtain ⟨u, hu, h⟩ := foldlM_cons_eq_ok.mp h
    obtain ⟨hlen, hrefs⟩ := retain_ok hu
    obtain ⟨hlen', hrefs'⟩ := ih h
    refine ⟨hlen'.trans hlen, fun j => ?_⟩
    rw [hrefs' j, hrefs j, count_cons]
    simp only [beq_iff_eq]
    omega

theorem foldlM_retain_isOk (hids : ∀ id ∈ ids, id < l.slots.length)
    (hfits : ∀ j, ids.count j + l.liveRefs j < 2 ^ 32) : ∃ l', ids.foldlM retain l = .ok l' := by
  induction ids generalizing l with
  | nil => exact ⟨l, rfl⟩
  | cons id ids ih =>
    have hid := hfits id
    rw [count_cons_self] at hid
    obtain ⟨u, hu⟩ := retain_isOk (hids id mem_cons_self) (by omega)
    obtain ⟨hlen, hrefs⟩ := retain_ok hu
    obtain ⟨l', hl'⟩ := ih (l := u)
      (fun j hj => hlen ▸ hids j (mem_cons_of_mem _ hj)) (fun j => by
        have := hfits j
        rw [count_cons] at this
        simp only [beq_iff_eq] at this
        rw [hrefs j]
        omega)
    exact ⟨l', foldlM_cons_eq_ok.mpr ⟨u, hu, hl'⟩⟩

theorem foldlM_release_eq (hcounted : ∀ j, ids.count j ≤ l.liveRefs j) :
    ∃ l', ids.foldlM release l = .ok l' ∧ l'.slots.length = l.slots.length ∧
      ∀ j, l.liveRefs j = ids.count j + l'.liveRefs j := by
  induction ids generalizing l with
  | nil => exact ⟨l, rfl, rfl, fun j => by rw [count_nil, Nat.zero_add]⟩
  | cons id ids ih =>
    have hid := hcounted id
    rw [count_cons_self] at hid
    have hpos : 0 < l.liveRefs id := by omega
    obtain ⟨u, hu, hlen, hrefs⟩ := release_eq hpos
    have hcount : ∀ j, (id :: ids).count j = ids.count j + if id = j then 1 else 0 := by
      intro j
      rw [count_cons]
      simp
    obtain ⟨l', hl', hlen', hrefs'⟩ := ih (l := u) (fun j => by
      have h₁ := hcounted j
      have h₂ := hrefs j
      rw [hcount] at h₁
      omega)
    refine ⟨l', foldlM_cons_eq_ok.mpr ⟨u, hu, hl'⟩, hlen'.trans hlen, fun j => ?_⟩
    rw [hrefs j, hrefs' j, hcount]
    omega

theorem retainSome_eq (l : IdentityLiveness) (id : Option InternId) :
    retainSome l id = id.toList.foldlM retain l := by
  cases id with
  | none => rfl
  | some id => simp [retainSome]

theorem releaseSome_eq (l : IdentityLiveness) (id : Option InternId) :
    releaseSome l id = id.toList.foldlM release l := by
  cases id with
  | none => rfl
  | some id => simp [releaseSome]

theorem retainCellIdentities_eq (l : IdentityLiveness) (cell : CellFacts) :
    retainCellIdentities l cell = cell.references.foldlM retain l := by
  unfold retainCellIdentities CellFacts.references
  simp [retainSome_eq]

theorem releaseInputIdentities_eq (l : IdentityLiveness) (c : LiveCell) :
    releaseInputIdentities l c.resolved = c.cell.references.foldlM release l := by
  unfold releaseInputIdentities CellFacts.references LiveCell.resolved
  simp [releaseSome_eq]

end References

end Ckbadger.Bulk
