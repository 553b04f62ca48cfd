/-
Ckbadger.Bulk.SequencerTheorems — the sequencer keeps the live set exactly.

`LiveInv` is the invariant between transactions. One transaction takes it from a
live set to the next (`resolveTx`), a block adds its summary (`finishBlock`), an
arena follows its blocks, and a run of arenas the chain they were cut from.
-/
import Ckbadger.Bulk.LiveCellsTheorems

namespace Ckbadger.Bulk

open Lib FinMap LiveCell ChainTx List

variable {position : Nat} {spent : List LiveCell} {c : LiveCell}
variable {capacity : Nat → Nat} {st st' : LiveState} {m : LiveSet} {tx : TxFacts}

/-! ## Inputs -/

/-- The tables and the reference counts represent a live set. -/
structure LiveInv (capacity : Nat → Nat) (st : LiveState) (m : LiveSet) : Prop where
  owner : OwnerInv capacity st.owner m
  references : ∀ l ∈ st.liveness, ∀ id, l.liveRefs id = referenceCount id m

/-- The number of identity slots, where references are tracked. -/
def LiveState.slots (st : LiveState) : Option Nat :=
  st.liveness.map fun l => l.slots.length

section Inputs

variable {o : OutPointKey} {inputs : List OutPointKey}

theorem LiveInv.consumeInput (h : LiveInv capacity st m) (hc : m.lookup o = some c)
    (tx : TxFacts) (hposition : position < 2 ^ 31) :
    ∃ st', consumeInput capacity tx st position o = .ok (c.resolved, st') ∧
      LiveInv capacity st' (m.erase o) ∧ st'.slots = st.slots := by
  obtain ⟨owner', hconsume, howner⟩ :=
    h.owner.consume hc ⟨tx.blockNumber, tx.hash, tx.txIndex, position⟩
  unfold Bulk.consumeInput
  rw [if_neg (not_le.mpr hposition)]
  simp only [hconsume, ok_bind]
  obtain ⟨owner, liveness⟩ := st
  cases liveness with
  | none => exact ⟨_, rfl, ⟨howner, fun l hl => by cases hl⟩, rfl⟩
  | some l =>
    have hrefs : ∀ id, referenceCount id m
        = c.cell.references.count id + referenceCount id (m.erase o) :=
      fun id => weight_erase hc
    have hl : ∀ id, l.liveRefs id = referenceCount id m := h.references l rfl
    have hcounted : ∀ j, c.cell.references.count j ≤ l.liveRefs j := by
      intro j
      rw [hl, hrefs]
      exact Nat.le_add_right _ _
    obtain ⟨l', hl', hlen, hcount⟩ := foldlM_release_eq hcounted
    have hrelease : releaseInputIdentities l c.resolved = .ok l' := by
      rw [releaseInputIdentities_eq, hl']
    simp only [withContext_eq_ok.mpr hrelease]
    refine ⟨_, rfl, ⟨howner, fun k hk id => ?_⟩, congrArg some hlen⟩
    cases hk
    have hid := hcount id
    rw [hl, hrefs] at hid
    omega

theorem LiveInv.consumeInput_live (h : LiveInv capacity st m)
    {result : ResolvedInputFacts × LiveState}
    (hconsume : Bulk.consumeInput capacity tx st position o = .ok result) :
    position < 2 ^ 31 ∧ ∃ c, m.lookup o = some c := by
  unfold Bulk.consumeInput at hconsume
  split at hconsume
  · cases hconsume
  · rename_i hposition
    obtain ⟨consumed, hok, -⟩ := bind_eq_ok.mp hconsume
    exact ⟨not_le.mp hposition, h.owner.consume_live hok⟩

theorem found_of_map_lookup (h : inputs.map m.lookup = spent.map some) (ho : o ∈ inputs) :
    ∃ c, m.lookup o = some c := by
  have hmem : m.lookup o ∈ spent.map some := h ▸ mem_map_of_mem ho
  obtain ⟨c, -, hc⟩ := mem_map.mp hmem
  exact ⟨c, hc.symm⟩

/-- The inputs of a transaction were live and distinct; each is resolved to the facts of its cell,
and all of them leave the live set. -/
theorem LiveInv.consumeInputs (h : LiveInv capacity st m) {resolved : List ResolvedInputFacts}
    (hconsume : consumeInputs capacity tx st position inputs = .ok (resolved, st')) :
    inputs.Nodup ∧ (position ≤ 2 ^ 31 → position + inputs.length ≤ 2 ^ 31) ∧
      (∃ spent : List LiveCell, inputs.map m.lookup = spent.map some ∧
        resolved = spent.map LiveCell.resolved) ∧
      LiveInv capacity st' (eraseAll m inputs) ∧ st'.slots = st.slots := by
  induction inputs generalizing st m position resolved with
  | nil =>
    cases hconsume
    exact ⟨nodup_nil, fun hp => hp, ⟨[], rfl, rfl⟩, h, rfl⟩
  | cons o inputs ih =>
    unfold Bulk.consumeInputs at hconsume
    obtain ⟨⟨first, mid⟩, hfirst, hconsume⟩ := bind_eq_ok.mp hconsume
    obtain ⟨⟨rest, last⟩, hrest, hconsume⟩ := bind_eq_ok.mp hconsume
    cases hconsume
    obtain ⟨hposition, c, hc⟩ := h.consumeInput_live hfirst
    obtain ⟨mid', hmid', hinv, hslots⟩ := h.consumeInput hc tx hposition
    rw [hfirst] at hmid'
    cases hmid'
    obtain ⟨hnodup, hbound, ⟨spent, hspent, rfl⟩, hinv', hslots'⟩ := ih hinv hrest
    -- the rest is found in the live set without the first outpoint, so it is not that outpoint
    have hother : ∀ x ∈ inputs, x ≠ o := by
      intro x hx hxo
      obtain ⟨d, hd⟩ := found_of_map_lookup hspent hx
      rw [hxo, Finmap.lookup_erase] at hd
      cases hd
    have hlookup : inputs.map m.lookup = spent.map some := by
      rw [← hspent]
      exact map_congr_left fun x hx => (Finmap.lookup_erase_ne (hother x hx)).symm
    refine ⟨nodup_cons.mpr ⟨fun hmem => hother o hmem rfl, hnodup⟩, fun _ => ?_,
      ⟨c :: spent, ?_, rfl⟩, hinv', hslots'.trans hslots⟩
    · have := hbound hposition
      rw [length_cons]
      omega
    · rw [map_cons, map_cons, hc, hlookup]

theorem LiveInv.consumeInputs_isOk (h : LiveInv capacity st m) (tx : TxFacts) (position : Nat)
    (hnodup : inputs.Nodup) (hlive : ∀ o ∈ inputs, (m.lookup o).isSome)
    (hbound : position + inputs.length ≤ 2 ^ 31) :
    ∃ result, Bulk.consumeInputs capacity tx st position inputs = .ok result := by
  induction inputs generalizing st m position with
  | nil => exact ⟨_, rfl⟩
  | cons o inputs ih =>
    rw [length_cons] at hbound
    obtain ⟨hnot, hnodup⟩ := nodup_cons.mp hnodup
    obtain ⟨c, hc⟩ := Option.isSome_iff_exists.mp (hlive o mem_cons_self)
    have hposition : position < 2 ^ 31 := by omega
    obtain ⟨mid, hmid, hinv, -⟩ := h.consumeInput hc tx hposition
    obtain ⟨⟨rest, last⟩, hrest⟩ := ih hinv (position + 1) hnodup
      (fun x hx => by
        rw [lookup_erase_apply, if_neg (fun hxo : x = o => hnot (hxo ▸ hx))]
        exact hlive x (mem_cons_of_mem _ hx)) (by omega)
    unfold Bulk.consumeInputs
    simp only [hmid, hrest, ok_bind]
    exact ⟨_, rfl⟩

end Inputs

/-! ## Outputs -/

section Outputs

variable {cs : List LiveCell}

/-- An output that entered was new and well formed, and is in the live set. -/
theorem LiveInv.createOutput (h : LiveInv capacity st m)
    (hcreate : createOutput capacity tx st (c.cell, c.ars) = .ok st') :
    m.lookup c.cell.outpoint = none ∧ CellWellFormed c.cell ∧
      LiveInv capacity st' (m.insert c.cell.outpoint c) ∧ st'.slots = st.slots := by
  unfold Bulk.createOutput at hcreate
  obtain ⟨liveness, hliveness, hcreate⟩ := bind_eq_ok.mp hcreate
  obtain ⟨slot, hslot, hcreate⟩ := bind_eq_ok.mp hcreate
  obtain ⟨owner', hinsert, hcreate⟩ := bind_eq_ok.mp hcreate
  cases hcreate
  obtain ⟨hnone, hwf, howner⟩ := h.owner.insertCreated hslot hinsert
  refine ⟨hnone, hwf, ?_⟩
  obtain ⟨owner, before⟩ := st
  cases before with
  | none =>
    cases hliveness
    exact ⟨⟨howner, fun l hl => by cases hl⟩, rfl⟩
  | some l =>
    simp only [retainOutput, Except.map] at hliveness
    split at hliveness
    · cases hliveness
    · rename_i l' hretain
      cases hliveness
      rw [withContext_eq_ok, retainCellIdentities_eq] at hretain
      obtain ⟨hlen, hrefs⟩ := foldlM_retain_ok hretain
      refine ⟨⟨howner, fun k hk id => ?_⟩, congrArg some hlen⟩
      cases hk
      rw [hrefs id, h.references l rfl id]
      unfold referenceCount
      rw [weight_insert hnone]

theorem LiveInv.createOutput_isOk (h : LiveInv capacity st m) (tx : TxFacts)
    (hwf : CellWellFormed c.cell) (hnone : m.lookup c.cell.outpoint = none)
    (hfits : Fits capacity (m.insert c.cell.outpoint c))
    (hids : ∀ n ∈ st.slots, ∀ id ∈ c.cell.references, id < n) :
    ∃ st', Bulk.createOutput capacity tx st (c.cell, c.ars) = .ok st' := by
  obtain ⟨slot, hslot⟩ := slotFromCellFacts_isSome hwf.dataHash
  obtain ⟨owner', howner⟩ :=
    h.owner.insertCreated_isOk hslot hwf hnone hfits.cells hfits.heapBytes
  unfold Bulk.createOutput
  obtain ⟨owner, liveness⟩ := st
  cases liveness with
  | none =>
    simp only [hslot, howner, ok_bind]
    exact ⟨_, rfl⟩
  | some l =>
    obtain ⟨l', hl'⟩ := foldlM_retain_isOk (l := l) (hids l.slots.length rfl) (fun j => by
      have := hfits.references j
      rw [referenceCount, weight_insert hnone] at this
      rw [h.references l rfl j]
      exact this)
    rw [← retainCellIdentities_eq] at hl'
    simp only [retainOutput, withContext_eq_ok.mpr hl', hslot, howner, ok_bind]
    exact ⟨_, rfl⟩

/-- An output as the loop takes it. -/
def LiveCell.output (c : LiveCell) : CellFacts × Option DaoCompensationArs := (c.cell, c.ars)

theorem LiveInv.createOutputs (h : LiveInv capacity st m)
    (hcreate : (cs.map output).foldlM (Bulk.createOutput capacity tx) st = .ok st') :
    (cs.map fun c => c.cell.outpoint).Nodup ∧ (∀ c ∈ cs, m.lookup c.cell.outpoint = none) ∧
      (∀ c ∈ cs, CellWellFormed c.cell) ∧
      LiveInv capacity st' (insertAll (fun c => c.cell.outpoint) m cs) ∧
      st'.slots = st.slots := by
  induction cs generalizing st m with
  | nil =>
    cases hcreate
    exact ⟨nodup_nil, fun c hc => (by cases hc), fun c hc => (by cases hc), h, rfl⟩
  | cons c cs ih =>
    obtain ⟨mid, hmid, hcreate⟩ := foldlM_cons_eq_ok.mp hcreate
    obtain ⟨hnone, hwf, hinv, hslots⟩ := h.createOutput hmid
    obtain ⟨hnodup, hfresh, hwfs, hinv', hslots'⟩ := ih hinv hcreate
    -- the later outputs are new beside the first one
    have hother : ∀ d ∈ cs, d.cell.outpoint ≠ c.cell.outpoint ∧
        m.lookup d.cell.outpoint = none := by
      intro d hd
      have := hfresh d hd
      rw [lookup_insert_apply] at this
      split at this
      · cases this
      · rename_i hne
        exact ⟨hne, this⟩
    refine ⟨?_, ?_, ?_, hinv', hslots'.trans hslots⟩
    · rw [map_cons, nodup_cons]
      refine ⟨fun hmem => ?_, hnodup⟩
      obtain ⟨d, hd, hkey⟩ := mem_map.mp hmem
      exact (hother d hd).1 hkey
    · exact forall_mem_cons.mpr ⟨hnone, fun d hd => (hother d hd).2⟩
    · exact forall_mem_cons.mpr ⟨hwf, hwfs⟩

/-- A live set that fits has subsets that fit. -/
theorem Fits.of_insertAll (hnodup : (cs.map fun c => c.cell.outpoint).Nodup)
    (hfresh : ∀ c ∈ cs, m.lookup c.cell.outpoint = none)
    (hfits : Fits capacity (insertAll (fun c => c.cell.outpoint) m cs)) :
    Fits capacity m := by
  have hle : ∀ w : OutPointKey → LiveCell → Nat,
      weight w m ≤ weight w (insertAll (fun c => c.cell.outpoint) m cs) := by
    intro w
    rw [weight_insertAll hnodup hfresh]
    exact Nat.le_add_right _ _
  exact ⟨(hle _).trans_lt hfits.cells, fun id => (hle _).trans_lt (hfits.references id),
    (hle _).trans_lt hfits.heapBytes⟩

theorem LiveInv.createOutputs_isOk (h : LiveInv capacity st m) (tx : TxFacts)
    (hnodup : (cs.map fun c => c.cell.outpoint).Nodup)
    (hfresh : ∀ c ∈ cs, m.lookup c.cell.outpoint = none) (hwf : ∀ c ∈ cs, CellWellFormed c.cell)
    (hfits : Fits capacity (insertAll (fun c => c.cell.outpoint) m cs))
    (hids : ∀ n ∈ st.slots, ∀ c ∈ cs, ∀ id ∈ c.cell.references, id < n) :
    ∃ st', (cs.map output).foldlM (Bulk.createOutput capacity tx) st = .ok st' := by
  induction cs generalizing st m with
  | nil => exact ⟨st, rfl⟩
  | cons c cs ih =>
    obtain ⟨hnot, hnodup⟩ := nodup_cons.mp hnodup
    have hfresh' : ∀ d ∈ cs, (m.insert c.cell.outpoint c).lookup d.cell.outpoint = none := by
      intro d hd
      rw [lookup_insert_apply, if_neg]
      · exact hfresh d (mem_cons_of_mem _ hd)
      · intro hkey
        exact hnot (mem_map.mpr ⟨d, hd, hkey⟩)
    obtain ⟨mid, hmid⟩ := h.createOutput_isOk tx (hwf c mem_cons_self)
      (hfresh c mem_cons_self) (Fits.of_insertAll hnodup hfresh' hfits)
      (fun n hn => hids n hn c mem_cons_self)
    obtain ⟨-, -, hinv, hslots⟩ := h.createOutput hmid
    obtain ⟨st', hst'⟩ := ih hinv hnodup hfresh'
      (forall_mem_cons.mp hwf).2 hfits
      (fun n hn d hd => hids n (hslots ▸ hn) d (mem_cons_of_mem _ hd))
    exact ⟨st', foldlM_cons_eq_ok.mpr ⟨mid, hmid, hst'⟩⟩

end Outputs

/-! ## Compensation -/

section Compensation

variable {outputs : List CellFacts} {inputs : List ResolvedInputFacts} {t : ChainTx}

/-- The compensation a deposit gives the request at its position. -/
def depositArs (tx : TxFacts) (input : ResolvedInputFacts) : Option DaoCompensationArs :=
  if input.daoState = some .deposit then some ⟨input.createdByBlockDaoAr, tx.blockDaoAr⟩ else none

/-- Every deposit from a position on has its request at its own position. -/
def DepositsMatched (outputs : List CellFacts) (position : Nat)
    (inputs : List ResolvedInputFacts) : Prop :=
  ∀ (i : Nat) (input : ResolvedInputFacts), inputs[i]? = some input →
    input.daoState = some .deposit → ∃ output, outputs[position + i]? = some output ∧
      output.daoState = some (.withdrawRequest input.createdAtBlock)

theorem DepositsMatched.cons {input : ResolvedInputFacts} :
    DepositsMatched outputs position (input :: inputs) ↔
      (input.daoState = some .deposit → ∃ output, outputs[position]? = some output ∧
        output.daoState = some (.withdrawRequest input.createdAtBlock)) ∧
      DepositsMatched outputs (position + 1) inputs := by
  constructor
  · intro h
    refine ⟨h 0 input rfl, fun i x hx hdeposit => ?_⟩
    have := h (i + 1) x (by rw [getElem?_cons_succ]; exact hx) hdeposit
    rw [← Nat.add_assoc, Nat.add_right_comm] at this
    exact this
  · rintro ⟨hfirst, hrest⟩ i x hx hdeposit
    cases i with
    | zero => cases hx; exact hfirst hdeposit
    | succ i =>
      have := hrest i x hx hdeposit
      rw [Nat.add_right_comm] at this
      exact this

/-- The values the loop leaves: the deposits' own from the position on, the old ones before. -/
def matchedArs (tx : TxFacts) (position : Nat) (inputs : List ResolvedInputFacts) (j : Nat)
    (old : Option DaoCompensationArs) : Option DaoCompensationArs :=
  if position ≤ j then ((inputs[j - position]?).bind (depositArs tx)).or old else old

theorem matchedArs_cons {input : ResolvedInputFacts} (j : Nat) (old : Option DaoCompensationArs) :
    matchedArs tx position (input :: inputs) j old
      = matchedArs tx (position + 1) inputs j
        (if position = j then (depositArs tx input).or old else old) := by
  unfold matchedArs
  by_cases hj : position = j
  · subst hj
    rw [if_pos (Nat.le_refl _), if_neg (by omega), if_pos rfl, Nat.sub_self]
    rfl
  · rw [if_neg hj]
    by_cases hle : position + 1 ≤ j
    · rw [if_pos (by omega), if_pos hle, show j - position = j - (position + 1) + 1 by omega]
      rfl
    · rw [if_neg (by omega), if_neg hle]

theorem matchDeposits_ok {matched ars : List (Option DaoCompensationArs)} :
    matchDeposits tx outputs matched position inputs = .ok ars ↔
      DepositsMatched outputs position inputs ∧
        ars = matched.mapIdx (matchedArs tx position inputs) := by
  induction inputs generalizing matched position with
  | nil =>
    have hsame : matched.mapIdx (matchedArs tx position []) = matched := by
      refine ext_getElem? fun j => ?_
      rw [getElem?_mapIdx]
      cases matched[j]? with
      | none => rfl
      | some old => simp [matchedArs]
    rw [hsame]
    constructor
    · intro h; cases h; exact ⟨fun i input hi => (by cases hi), rfl⟩
    · rintro ⟨-, rfl⟩; rfl
  | cons input inputs ih =>
    have hstep : ∀ new : List (Option DaoCompensationArs),
        (∀ j, new[j]? = (matched[j]?).map fun old =>
          if position = j then (depositArs tx input).or old else old) →
        new.mapIdx (matchedArs tx (position + 1) inputs)
          = matched.mapIdx (matchedArs tx position (input :: inputs)) := by
      intro new hnew
      refine ext_getElem? fun j => ?_
      rw [getElem?_mapIdx, getElem?_mapIdx, hnew, Option.map_map]
      congr 1
      funext old
      exact (matchedArs_cons j old).symm
    rw [DepositsMatched.cons]
    unfold matchDeposits
    split
    · rename_i hother
      rw [ih, hstep matched (fun j => by simp [depositArs, hother])]
      constructor
      · rintro ⟨hrest, hars⟩; exact ⟨⟨fun hdeposit => absurd hdeposit hother, hrest⟩, hars⟩
      · rintro ⟨⟨-, hrest⟩, hars⟩; exact ⟨hrest, hars⟩
    · rename_i hdeposit
      rw [not_ne_iff] at hdeposit
      cases houtput : outputs[position]? with
      | none => simp [hdeposit]
      | some output =>
        simp only
        split
        · rename_i depositBlock hstate
          split
          · rename_i hne
            simp [hdeposit, hstate, hne]
          · rename_i heq
            rw [not_ne_iff] at heq
            rw [ih, hstep _ (fun j => by
              by_cases hj : position = j
              · subst hj
                by_cases hlt : position < matched.length
                · simp [hlt, depositArs, hdeposit]
                · simp [hlt]
              · simp [hj])]
            constructor
            · rintro ⟨hrest, hars⟩
              exact ⟨⟨fun _ => ⟨output, rfl, by rw [hstate, heq]⟩, hrest⟩, hars⟩
            · rintro ⟨⟨-, hrest⟩, hars⟩; exact ⟨hrest, hars⟩
        · rename_i hstate
          simp [hdeposit, show output.daoState ≠ _ from hstate input.createdAtBlock]

section

variable (hspent : t.inputs.map m.lookup = spent.map some)

include hspent

/-- The cells spent at a position, among the inputs that were all found. -/
theorem getElem?_inputs (i : Nat) :
    (t.inputs[i]?).bind m.lookup = spent[i]? := by
  have h : (t.inputs.map m.lookup)[i]? = (spent.map some)[i]? := by rw [hspent]
  rw [getElem?_map, getElem?_map] at h
  cases hi : t.inputs[i]? with
  | none =>
    rw [hi] at h
    cases hs : spent[i]? with
    | none => rfl
    | some c => rw [hs] at h; cases h
  | some o =>
    rw [hi] at h
    cases hs : spent[i]? with
    | none => rw [hs] at h; cases h
    | some c => rw [hs] at h; exact Option.some.inj h

/-- The rule on deposits and requests, in the words of the chain. -/
theorem depositsMatched_iff :
    DepositsMatched t.outputs 0 (spent.map resolved) ↔
      ∀ (i : Nat) (o : OutPointKey) (c : LiveCell), t.inputs[i]? = some o → m.lookup o = some c →
        c.cell.daoState = some .deposit → ∃ output, t.outputs[i]? = some output ∧
          output.daoState = some (.withdrawRequest c.cell.createdAtBlock) := by
  constructor
  · intro h i o c hi hc hdeposit
    have hs : spent[i]? = some c := by
      rw [← getElem?_inputs hspent i, hi]
      exact hc
    have := h i c.resolved (by rw [getElem?_map, hs]; rfl) hdeposit
    rw [Nat.zero_add] at this
    exact this
  · intro h i input hinput hdeposit
    rw [getElem?_map] at hinput
    obtain ⟨c, hs, rfl⟩ := Option.map_eq_some_iff.mp hinput
    have hbind := getElem?_inputs hspent i
    rw [hs] at hbind
    obtain ⟨o, ho, hc⟩ := Option.bind_eq_some_iff.mp hbind
    rw [Nat.zero_add]
    exact h i o c ho hc hdeposit

/-- The compensation values are resolved exactly under the rule on deposits and requests. -/
theorem resolveRequestOutputArs_ok {ars : List (Option DaoCompensationArs)} :
    resolveRequestOutputArs t.tx t.outputs (spent.map resolved) = .ok ars ↔
      (t.outputs.any isWithdrawRequest →
        DepositsMatched t.outputs 0 (spent.map resolved)) ∧
      ars = t.outputs.mapIdx (t.compensation m) := by
  unfold resolveRequestOutputArs
  split
  · rename_i hnone
    rw [Bool.not_eq_true'] at hnone
    have hvalues : List.replicate t.outputs.length none = t.outputs.mapIdx (t.compensation m) := by
      refine List.ext_getElem? fun j => ?_
      rw [List.getElem?_mapIdx, List.getElem?_replicate]
      cases hj : t.outputs[j]? with
      | none => rw [if_neg (not_lt.mpr (List.getElem?_eq_none_iff.mp hj))]; rfl
      | some output =>
        have hother : isWithdrawRequest output = false :=
          List.any_eq_false.mp hnone output (List.mem_of_getElem? hj) |> Bool.eq_false_of_not_eq_true
        rw [if_pos (List.getElem?_eq_some_iff.mp hj).1, Option.map_some, compensation]
        split
        · rfl
        · rw [if_neg (by rw [hother]; simp)]
    rw [hvalues, hnone]
    constructor
    · intro h; cases h; exact ⟨fun h => (by cases h), rfl⟩
    · rintro ⟨-, rfl⟩; rfl
  · rename_i hany
    rw [Bool.not_eq_true', Bool.not_eq_false] at hany
    rw [matchDeposits_ok, hany]
    have hvalues : DepositsMatched t.outputs 0 (spent.map resolved) →
        (List.replicate t.outputs.length none).mapIdx
            (matchedArs t.tx 0 (spent.map resolved))
          = t.outputs.mapIdx (t.compensation m) := by
      intro hmatched
      refine List.ext_getElem? fun j => ?_
      rw [List.getElem?_mapIdx, List.getElem?_mapIdx, List.getElem?_replicate]
      cases hj : t.outputs[j]? with
      | none => rw [if_neg (not_lt.mpr (List.getElem?_eq_none_iff.mp hj))]; rfl
      | some output =>
        rw [if_pos (List.getElem?_eq_some_iff.mp hj).1, Option.map_some, Option.map_some,
          compensation, getElem?_inputs hspent j, matchedArs, if_pos (Nat.zero_le j),
          List.getElem?_map, Option.or_none]
        cases hs : spent[j]? with
        | none => rfl
        | some c =>
          have hrule := hmatched j c.resolved (by rw [List.getElem?_map, hs]; rfl)
          rw [Nat.zero_add, hj] at hrule
          simp only [Option.map_some, Option.bind_some, depositArs]
          by_cases hdeposit : c.cell.daoState = some .deposit
          · obtain ⟨_, h, hstate⟩ := hrule hdeposit
            cases h
            rw [if_pos (show c.resolved.daoState = _ from hdeposit),
              if_pos ⟨by simp [isWithdrawRequest, hstate], hdeposit⟩]
            rfl
          · rw [if_neg (show ¬ c.resolved.daoState = _ from hdeposit),
              if_neg (fun h => hdeposit h.2)]
    constructor
    · rintro ⟨hmatched, rfl⟩; exact ⟨fun _ => hmatched, hvalues hmatched⟩
    · rintro ⟨hmatched, rfl⟩; exact ⟨hmatched rfl, (hvalues (hmatched rfl)).symm⟩

end

/-- The loop over the outputs runs over the cells the transaction creates. -/
theorem zip_compensation (m : LiveSet) (t : ChainTx) :
    t.outputs.zip (t.outputs.mapIdx (t.compensation m)) = (t.created m).map output := by
  refine ext_getElem? fun j => ?_
  rw [List.zip, getElem?_zipWith, getElem?_mapIdx, getElem?_map, created, getElem?_mapIdx]
  cases t.outputs[j]? with
  | none => rfl
  | some output => rfl

end Compensation

/-! ## One transaction -/

section Tx

variable {arena : FactsArena} {block : BlockFacts}

theorem map_cell_created (m : LiveSet) (t : ChainTx) : (t.created m).map cell = t.outputs := by
  refine ext_getElem? fun j => ?_
  rw [getElem?_map, created, getElem?_mapIdx]
  cases t.outputs[j]? with
  | none => rfl
  | some output => rfl

theorem map_outpoint_created (m : LiveSet) (t : ChainTx) :
    (t.created m).map (fun c => c.cell.outpoint) = t.outputs.map CellFacts.outpoint := by
  rw [← map_cell_created m t, map_map]
  rfl

theorem forall_created {p : CellFacts → Prop} (m : LiveSet) (t : ChainTx) :
    (∀ c ∈ t.created m, p c.cell) ↔ ∀ cell ∈ t.outputs, p cell := by
  rw [← map_cell_created m t]
  simp

theorem chainTx_outputs {outputs : List CellFacts}
    (h : tx.outputRange.get? arena.cells = some outputs) :
    (arena.chainTx tx).outputs = outputs := by
  rw [FactsArena.chainTx, h]
  rfl

/-- A transaction that was resolved was valid; its inputs carry the facts of the cells they spend,
and the tables hold the next live set. -/
theorem LiveInv.resolveTx (h : LiveInv capacity st m) {r : ResolvedTxFacts}
    (hresolve : resolveTx capacity arena block st tx = .ok (r, st')) :
    TxValid m (arena.chainTx tx) ∧ TxResolved m (arena.chainTx tx) r ∧
      LiveInv capacity st' (applyTx m (arena.chainTx tx)) ∧ st'.slots = st.slots := by
  unfold Bulk.resolveTx at hresolve
  split at hresolve
  · cases hresolve
  · obtain ⟨⟨resolved, mid⟩, hinputs, hresolve⟩ := bind_eq_ok.mp hresolve
    simp only at hresolve
    split at hresolve
    · cases hresolve
    · rename_i outputs houtputs
      obtain ⟨ars, hars, hresolve⟩ := bind_eq_ok.mp hresolve
      obtain ⟨last, hlast, hresolve⟩ := bind_eq_ok.mp hresolve
      cases hresolve
      have hout := chainTx_outputs houtputs
      generalize ht : arena.chainTx tx = t at hout ⊢
      have htx : t.tx = tx := by rw [← ht]; rfl
      have hin : t.inputs = if tx.isCellbase then [] else tx.inputOutpoints := by
        rw [inputs, htx]
      rw [← hin] at hinputs
      obtain ⟨hnodup, hbound, ⟨spent, hspent, rfl⟩, hinv, hslots⟩ := h.consumeInputs hinputs
      rw [← hout, ← htx, resolveRequestOutputArs_ok hspent] at hars
      obtain ⟨hrequests, rfl⟩ := hars
      rw [← hout, zip_compensation] at hlast
      obtain ⟨hkeys, hfresh, hwf, hinv', hslots'⟩ := hinv.createOutputs hlast
      rw [map_outpoint_created] at hkeys
      refine ⟨⟨hnodup, fun o ho => ?_, ?_, hkeys, ?_, ?_, fun hany => ?_⟩, ⟨?_, spent, hspent, rfl⟩,
        hinv', hslots'.trans hslots⟩
      · obtain ⟨c, hc⟩ := found_of_map_lookup hspent ho
        rw [hc]
        rfl
      · have := hbound (Nat.zero_le _)
        omega
      · exact (forall_created (p := fun cell => _) m t).mp hfresh
      · exact (forall_created m t).mp hwf
      · exact (depositsMatched_iff hspent).mp (hrequests hany)
      · rw [htx, hout]
        exact ⟨rfl, rfl, rfl, rfl, rfl, rfl, rfl, rfl, rfl⟩

/-- A valid transaction of a block is resolved, where the counters fit. -/
theorem LiveInv.resolveTx_isOk (h : LiveInv capacity st m)
    (hheader : tx.blockNumber = block.number ∧ tx.blockHash = block.hash)
    (hrange : (tx.outputRange.get? arena.cells).isSome) (hvalid : TxValid m (arena.chainTx tx))
    (hfits : Fits capacity (applyTx m (arena.chainTx tx)))
    (hids : ∀ n ∈ st.slots, ∀ cell ∈ (arena.chainTx tx).outputs, ∀ id ∈ cell.references, id < n) :
    ∃ result, Bulk.resolveTx capacity arena block st tx = .ok result := by
  obtain ⟨outputs, houtputs⟩ := Option.isSome_iff_exists.mp hrange
  have hout := chainTx_outputs houtputs
  generalize ht : arena.chainTx tx = t at hout hvalid hfits hids
  have htx : t.tx = tx := by rw [← ht]; rfl
  have hin : t.inputs = if tx.isCellbase then [] else tx.inputOutpoints := by
    rw [inputs, htx]
  obtain ⟨⟨resolved, mid⟩, hinputs⟩ := h.consumeInputs_isOk tx 0 hvalid.inputs_nodup
    hvalid.inputs_live (by rw [Nat.zero_add]; exact hvalid.inputs_length)
  obtain ⟨-, -, ⟨spent, hspent, rfl⟩, hinv, hslots⟩ := h.consumeInputs hinputs
  have hars := (resolveRequestOutputArs_ok (t := t) hspent).mpr
    ⟨fun hany => (depositsMatched_iff hspent).mpr (hvalid.requests hany), rfl⟩
  have hkeys := hvalid.outputs_nodup
  rw [← map_outpoint_created m] at hkeys
  obtain ⟨last, hlast⟩ := hinv.createOutputs_isOk tx hkeys
    ((forall_created (p := fun cell => _ = none) m t).mpr hvalid.outputs_fresh)
    ((forall_created m t).mpr hvalid.outputs_wellFormed) hfits
    (fun n hn => (forall_created (p := fun cell => ∀ id ∈ cell.references, id < n) m t).mpr
      (hids n (hslots ▸ hn)))
  rw [← zip_compensation, hout] at hlast
  rw [hout, htx] at hars
  rw [hin] at hinputs
  unfold Bulk.resolveTx
  rw [if_neg (by rw [not_or, not_ne_iff, not_ne_iff]; exact hheader)]
  simp only [hinputs, houtputs, hars, hlast, ok_bind]
  exact ⟨_, rfl⟩

end Tx

end Ckbadger.Bulk
