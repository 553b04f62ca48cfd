/-
Ckbadger.Sync.EpochPositions — chains whose blocks carry contiguous epoch positions.

A block's position is its epoch's number and its index in the epoch. On a contiguous
chain an epoch's blocks stand together and the first of them is the only one with
index 0, so the epoch rows tell which epoch began last.
-/
import Ckbadger.Sync.BatchRowsTheorems

namespace Ckbadger.Sync

open Lib.KeyedFold Writer Std List

variable {xs bs ys : List SettledBlock}

/-! ## Contiguous positions -/

/-- The next block is the next of its epoch, or the first of the next epoch. -/
def EpochFollows (a b : ParsedBlock) : Prop :=
  (b.epochNumber = a.epochNumber ∧ b.epochIndex = a.epochIndex + 1) ∨
    (b.epochNumber = a.epochNumber + 1 ∧ b.epochIndex = 0)

instance : DecidableRel EpochFollows := fun a b =>
  inferInstanceAs (Decidable ((b.epochNumber = a.epochNumber ∧ _) ∨ _))

@[mk_iff]
structure EpochsContiguous (chain : List ParsedBlock) : Prop where
  first : ∀ b ∈ chain.head?, b.epochNumber = 0 ∧ b.epochIndex = 0
  next : chain.IsChain EpochFollows

instance : DecidablePred EpochsContiguous := fun chain =>
  decidable_of_iff' _ (epochsContiguous_iff chain)

theorem EpochsContiguous.take {xs ys : List ParsedBlock} (h : EpochsContiguous (xs ++ ys)) :
    EpochsContiguous xs where
  first := by
    intro b hb
    refine h.first b ?_
    rw [head?_append, Option.mem_def.mp hb]
    rfl
  next := h.next.left_of_append

/-- The last block of a contiguous chain, and what comes before it. -/
structure LastPosition (xs : List ParsedBlock) (b : ParsedBlock) : Prop where
  index : 0 ≤ b.epochIndex
  below : ∀ a ∈ xs, a.epochNumber ≤ b.epochNumber
  opens : b.epochIndex = 0 → ∀ a ∈ xs, a.epochNumber < b.epochNumber
  continues : b.epochIndex ≠ 0 → ∃ a, xs.getLast? = some a ∧ a.epochNumber = b.epochNumber

theorem EpochsContiguous.last {xs : List ParsedBlock} {b : ParsedBlock}
    (h : EpochsContiguous (xs ++ [b])) : LastPosition xs b := by
  induction xs using List.reverseRecOn generalizing b with
  | nil =>
    obtain ⟨hnumber, hindex⟩ := h.first b rfl
    refine ⟨by omega, ?_, ?_, ?_⟩
    · intro a ha
      cases ha
    · intro _ a ha
      cases ha
    · intro hne
      exact absurd hindex hne
  | append_singleton xs a ih =>
    have hprev := ih h.take
    have hfollows : EpochFollows a b := by
      have hchain := h.next
      rw [append_assoc] at hchain
      exact (isChain_append_cons_cons.mp hchain).2.1
    have hindex := hprev.index
    have hupto : ∀ a' ∈ xs ++ [a], a'.epochNumber ≤ a.epochNumber := by
      intro a' ha'
      rcases mem_append.mp ha' with hmem | hmem
      · exact hprev.below a' hmem
      · rw [mem_singleton.mp hmem]
    rcases hfollows with ⟨hsame, hnext⟩ | ⟨hnumber, hzero⟩
    · refine ⟨by omega, ?_, ?_, ?_⟩
      · intro a' ha'
        exact hsame ▸ hupto a' ha'
      · intro hzero
        omega
      · intro _
        exact ⟨a, getLast?_concat, hsame.symm⟩
    · refine ⟨by omega, ?_, ?_, ?_⟩
      · intro a' ha'
        have := hupto a' ha'
        omega
      · intro _ a' ha'
        have := hupto a' ha'
        omega
      · intro hne
        exact absurd hzero hne

/-! ## The blocks of an epoch -/

/-- The settled blocks are those of a contiguous chain, numbered in order. -/
structure EpochBlocks (bs : List SettledBlock) : Prop where
  contiguous : EpochsContiguous (bs.map SettledBlock.block)
  ordered : bs.Pairwise fun a b => a.block.number < b.block.number

theorem EpochBlocks.take (h : EpochBlocks (xs ++ ys)) :
    EpochBlocks xs where
  contiguous := by
    have hcontiguous := h.contiguous
    rw [map_append] at hcontiguous
    exact hcontiguous.take
  ordered := (pairwise_append.mp h.ordered).1

theorem group_epochShares (bs : List SettledBlock) (epoch : Int) :
    group (epochShares bs) epoch
      = (bs.filter fun b => b.block.epochNumber = epoch).map fun b => (b.block, b.chainTimeMs) := by
  unfold epochShares
  rw [group_map]

theorem EpochBlocks.last {b : SettledBlock}
    (h : EpochBlocks (xs ++ [b])) : LastPosition (xs.map SettledBlock.block) b.block := by
  have hcontiguous := h.contiguous
  rw [map_append] at hcontiguous
  exact hcontiguous.last

/-- The first block of an epoch in a batch has index 0 exactly when the chain before the batch
has no block of the epoch. -/
theorem EpochBlocks.first_index (h : EpochBlocks (xs ++ ys))
    {epoch : Int} {first : ParsedBlock × Int} {rest : List (ParsedBlock × Int)}
    (hfirst : group (epochShares ys) epoch = first :: rest) :
    first.1.epochIndex = 0 ↔ group (epochShares xs) epoch = [] := by
  rw [group_epochShares] at hfirst
  obtain ⟨b, rest', hfilter, rfl, -⟩ := map_eq_cons_iff.mp hfirst
  obtain ⟨us, ws, rfl, hbefore, hepoch, -⟩ := filter_eq_cons_iff.mp hfilter
  have hepoch : b.block.epochNumber = epoch := by simpa using hepoch
  have hsplit : xs ++ (us ++ b :: ws) = (xs ++ us ++ [b]) ++ ws := by simp
  rw [hsplit] at h
  have hlast := h.take.last
  rw [group_epochShares, map_eq_nil_iff, filter_eq_nil_iff]
  constructor
  · intro hzero a ha hsame
    have hlt := hlast.opens hzero a.block (mem_map_of_mem (mem_append_left _ ha))
    have hsame : a.block.epochNumber = epoch := by simpa using hsame
    omega
  · intro hnone
    by_contra hne
    obtain ⟨p, hp, hsame⟩ := hlast.continues hne
    obtain ⟨a, ha, rfl⟩ := mem_map.mp (mem_of_getLast? hp)
    rcases mem_append.mp ha with hmem | hmem
    · exact hnone a hmem (by simpa [hsame] using hepoch)
    · exact hbefore a hmem (by simpa [hsame] using hepoch)

/-! ## Epoch rows after a batch -/

theorem epochAccum_append {bs cs : List (ParsedBlock × Int)} (hbs : bs ≠ []) (hcs : cs ≠ []) :
    epochAccum (bs ++ cs) = { epochAccum bs with
      endBlock := (epochAccum cs).endBlock
      endTs := (epochAccum cs).endTs
      txCount := (epochAccum bs).txCount + (epochAccum cs).txCount } := by
  cases bs with
  | nil => exact absurd rfl hbs
  | cons b bs =>
    cases cs with
    | nil => exact absurd rfl hcs
    | cons c cs =>
      rw [cons_append, epochAccum, epochAccum, epochAccum]
      simp [add_assoc]

theorem endBlock_mem {bs : List (ParsedBlock × Int)} (h : bs ≠ []) :
    ∃ b ∈ bs, (epochAccum bs).endBlock = b.1.number := by
  cases bs with
  | nil => exact absurd rfl h
  | cons first rest => exact ⟨_, getLast_mem (cons_ne_nil first rest), rfl⟩

theorem tabulates_epochRow {rows rows' : ExtTreeMap Int EpochStats}
    {batch : ExtTreeMap Int EpochAccum} (hblocks : EpochBlocks (xs ++ ys))
    (hrows : Tabulates epochRow (epochShares xs) rows)
    (hbatch : Tabulates (fun _ blocks => epochAccum blocks) (epochShares ys) batch)
    (h : Lib.KeyedFold.merge (keep upsertEpochStatistics) rows batch = .ok rows') :
    Tabulates epochRow (epochShares (xs ++ ys)) rows' := by
  rw [epochShares_append]
  refine hrows.merge hbatch ?_ ?_ h
  · intro epoch a hpre hpost ha
    obtain ⟨first, rest, hgroup⟩ := exists_cons_of_ne_nil hpost
    have hnew := (hblocks.first_index hgroup).mpr hpre
    rw [hgroup] at ha ⊢
    unfold upsertEpochStatistics at ha
    rw [if_pos (by simp [epochAccum, hnew])] at ha
    exact (Except.ok.inj ha).symm
  · intro epoch a hpre hpost ha
    obtain ⟨first, rest, hgroup⟩ := exists_cons_of_ne_nil hpost
    have hold : first.1.epochIndex ≠ 0 := fun hzero =>
      hpre ((hblocks.first_index hgroup).mp hzero)
    unfold upsertEpochStatistics at ha
    rw [if_neg (by simp [hgroup, epochAccum, hold])] at ha
    -- the batch's blocks of the epoch are later than the stored ones
    have hlater : (epochAccum (group (epochShares xs) epoch)).endBlock
        ≤ (epochAccum (group (epochShares ys) epoch)).endBlock := by
      obtain ⟨b, hb, hbend⟩ := endBlock_mem hpre
      obtain ⟨c, hc, hcend⟩ := endBlock_mem hpost
      obtain ⟨b', hb', hbeq⟩ := mem_map.mp (mem_group.mp hb)
      obtain ⟨c', hc', hceq⟩ := mem_map.mp (mem_group.mp hc)
      have hlt := (pairwise_append.mp hblocks.ordered).2.2 b' hb' c' hc'
      have hb1 : b'.block = b.1 := congrArg (fun e => e.2.1) hbeq
      have hc1 : c'.block = c.1 := congrArg (fun e => e.2.1) hceq
      rw [hbend, hcend, ← hb1, ← hc1]
      exact hlt.le
    rw [← Except.ok.inj ha]
    unfold epochRow
    rw [epochAccum_append hpre hpost]
    unfold accumRow
    simp [max_eq_right hlater]

/-! ## The epoch that began last -/

theorem EpochBlocks.monotone (h : EpochBlocks bs) :
    bs.Pairwise fun a b => a.block.epochNumber ≤ b.block.epochNumber := by
  induction bs using List.reverseRecOn with
  | nil => exact List.Pairwise.nil
  | append_singleton bs b ih =>
    rw [pairwise_append]
    refine ⟨ih h.take, pairwise_singleton _ _, ?_⟩
    intro a ha c hc
    rw [mem_singleton.mp hc]
    exact h.last.below a.block (mem_map_of_mem ha)

theorem EpochBlocks.number_lt (h : EpochBlocks bs) {a b : SettledBlock}
    (ha : a ∈ bs) (hb : b ∈ bs) (hlt : a.block.epochNumber < b.block.epochNumber) :
    a.block.number < b.block.number := by
  have hboth := pairwise_iff_getElem.mp (h.monotone.and h.ordered)
  obtain ⟨i, hi, rfl⟩ := mem_iff_getElem.mp ha
  obtain ⟨j, hj, rfl⟩ := mem_iff_getElem.mp hb
  rcases Nat.lt_trichotomy i j with hij | rfl | hij
  · exact (hboth i j hi hj hij).2
  · exact absurd hlt (lt_irrefl _)
  · have := (hboth j i hj hi hij).1
    omega

/-- The best row is the last one once this has been seen, and begins earlier until then. -/
theorem foldl_laterEpoch {beforeBlock : Int} {last : EpochStats} {l : List (Int × EpochStats)}
    {best : Option (Int × Int × Int)}
    (hrows : ∀ row ∈ l, row.2.startBlock < beforeBlock ∧
      (row.2 = last ∨ row.2.startBlock < last.startBlock))
    (hbest : best = some (last.startBlock, last.epochNumber, last.startTimestamp) ∨
      ((∃ row ∈ l, row.2 = last) ∧ ∀ b ∈ best, b.1 < last.startBlock)) :
    l.foldl (fun best row => laterEpoch beforeBlock best row.2) best
      = some (last.startBlock, last.epochNumber, last.startTimestamp) := by
  induction l generalizing best with
  | nil =>
    rcases hbest with hbest | ⟨⟨row, hmem, -⟩, -⟩
    · exact hbest
    · cases hmem
  | cons row l ih =>
    obtain ⟨hrow, hrowmax⟩ := hrows row mem_cons_self
    rw [foldl_cons]
    refine ih (forall_mem_cons.mp hrows).2 ?_
    unfold laterEpoch
    rw [if_neg (by omega)]
    rcases hbest with rfl | ⟨hmem, hearlier⟩
    · left
      rcases hrowmax with heq | hlt
      · simp [heq]
      · simp [hlt]
    · rcases hrowmax with rfl | hlt
      · left
        cases best with
        | none => rfl
        | some b =>
          have hb := hearlier b rfl
          simp only
          rw [if_neg (by omega)]
      · right
        constructor
        · obtain ⟨row', hrow', heq⟩ := hmem
          rcases mem_cons.mp hrow' with rfl | hrow'
          · exact absurd hlt (heq ▸ lt_irrefl _)
          · exact ⟨row', hrow', heq⟩
        · intro b hb
          cases best with
          | none =>
            cases hb
            exact hlt
          | some b' =>
            have hb' := hearlier b' rfl
            simp only at hb
            split at hb
            · cases hb
              exact hb'
            · cases hb
              exact hlt

/-- The block that began the last epoch is the first one of its row. -/
theorem EpochBlocks.lastEpochStart (h : EpochBlocks bs) (hne : bs ≠ []) :
    ∃ b ∈ bs, lastEpochStart none bs = some (b.block.epochNumber, b.chainTimeMs) ∧
      (∃ rest, group (epochShares bs) b.block.epochNumber = (b.block, b.chainTimeMs) :: rest) ∧
      ∀ a ∈ bs, a.block.epochNumber ≤ b.block.epochNumber := by
  induction bs using List.reverseRecOn with
  | nil => exact absurd rfl hne
  | append_singleton bs c ih =>
    have hlast := h.last
    have hstart : Sync.lastEpochStart none (bs ++ [c])
        = nextEpochStart (Sync.lastEpochStart none bs) c := by
      rw [lastEpochStart_append]
      rfl
    by_cases hzero : c.block.epochIndex = 0
    · refine ⟨c, by simp, ?_, ⟨[], ?_⟩, ?_⟩
      · rw [hstart]
        exact if_pos hzero
      · have hnone : group (epochShares bs) c.block.epochNumber = [] := by
          rw [group_epochShares, map_eq_nil_iff, filter_eq_nil_iff]
          intro a ha hsame
          have hlt := hlast.opens hzero a.block (mem_map_of_mem ha)
          have hsame : a.block.epochNumber = c.block.epochNumber := by simpa using hsame
          omega
        rw [epochShares_append, group_append, hnone]
        simp [epochShares, group_cons]
      · intro a ha
        rcases mem_append.mp ha with hmem | hmem
        · exact hlast.below a.block (mem_map_of_mem hmem)
        · rw [mem_singleton.mp hmem]
    · obtain ⟨p, hp, hsame⟩ := hlast.continues hzero
      have hbs : bs ≠ [] := by
        rintro rfl
        cases hp
      obtain ⟨b, hb, hb_start, ⟨rest, hrest⟩, hbelow⟩ := ih h.take hbs
      have hepoch : c.block.epochNumber = b.block.epochNumber := by
        obtain ⟨a, ha, rfl⟩ := mem_map.mp (mem_of_getLast? hp)
        have := hbelow a ha
        have := hlast.below b.block (mem_map_of_mem hb)
        omega
      refine ⟨b, mem_append_left _ hb, ?_, ⟨rest ++ [(c.block, c.chainTimeMs)], ?_⟩, ?_⟩
      · rw [hstart, nextEpochStart, if_neg hzero, hb_start]
      · rw [epochShares_append, group_append, hrest, cons_append]
        simp [epochShares, group_cons, hepoch]
      · intro a ha
        rcases mem_append.mp ha with hmem | hmem
        · exact hbelow a hmem
        · rw [mem_singleton.mp hmem, hepoch]

/-- The epoch rows tell which epoch began last. -/
theorem EpochBlocks.getLastEpochStart (h : EpochBlocks bs)
    {rows : ExtTreeMap Int EpochStats} (hrows : Tabulates epochRow (epochShares bs) rows)
    {beforeBlock : Int} (hbefore : ∀ b ∈ bs, b.block.number < beforeBlock)
    (hempty : bs = [] → beforeBlock ≤ 0) (hpos : ∀ b ∈ bs, 0 ≤ b.block.number) :
    Writer.getLastEpochStart rows beforeBlock = Sync.lastEpochStart none bs := by
  by_cases hne : bs = []
  · unfold Writer.getLastEpochStart
    rw [if_pos (hempty hne), hne]
    rfl
  · obtain ⟨b, hb, hstart, ⟨rest, hgroup⟩, hbelow⟩ := h.lastEpochStart hne
    have hrow : ∀ row ∈ rows.toList, ∃ a ∈ bs,
        row.2 = epochRow a.block.epochNumber (group (epochShares bs) a.block.epochNumber) ∧
        row.2.startBlock = a.block.number := by
      intro row hmem
      rw [ExtTreeMap.mem_toList_iff_getElem?_eq_some, hrows row.1] at hmem
      cases hg : group (epochShares bs) row.1 with
      | nil =>
        rw [tabulated_of_nil hg] at hmem
        cases hmem
      | cons first rest' =>
        have hfirst : (row.1, first) ∈ epochShares bs :=
          mem_group.mp (by rw [hg]; exact mem_cons_self)
        obtain ⟨a, ha, heq⟩ := mem_map.mp hfirst
        have hepoch : a.block.epochNumber = row.1 := congrArg Prod.fst heq
        have hblock : a.block = first.1 := congrArg (fun e => e.2.1) heq
        rw [tabulated_of_ne (by rw [hg]; exact cons_ne_nil _ _)] at hmem
        have hvalue := Option.some.inj hmem
        refine ⟨a, ha, ?_, ?_⟩
        · rw [hepoch]
          exact hvalue.symm
        · rw [← hvalue, hg, hblock]
          rfl
    have hlast : (b.block.epochNumber,
        epochRow b.block.epochNumber (group (epochShares bs) b.block.epochNumber))
          ∈ rows.toList := by
      rw [ExtTreeMap.mem_toList_iff_getElem?_eq_some, hrows,
        tabulated_of_ne (by rw [hgroup]; exact cons_ne_nil _ _)]
    have hbpos := hpos b hb
    have hbbefore := hbefore b hb
    have hearlier : ∀ row ∈ rows.toList, row.2.startBlock < beforeBlock ∧
        (row.2 = epochRow b.block.epochNumber (group (epochShares bs) b.block.epochNumber) ∨
          row.2.startBlock < (epochRow b.block.epochNumber
            (group (epochShares bs) b.block.epochNumber)).startBlock) := by
      intro row hmem
      obtain ⟨a, ha, hvalue, hnumber⟩ := hrow row hmem
      rw [hnumber]
      refine ⟨hbefore a ha, ?_⟩
      rcases (hbelow a ha).lt_or_eq with hlt | heq
      · right
        rw [hgroup]
        exact h.number_lt ha hb hlt
      · left
        rw [hvalue, heq]
    have hnone : ∀ best ∈ (none : Option (Int × Int × Int)), best.1 < (epochRow
        b.block.epochNumber (group (epochShares bs) b.block.epochNumber)).startBlock := by
      intro best hbest
      cases hbest
    have hfold := foldl_laterEpoch hearlier (.inr ⟨⟨_, hlast, rfl⟩, hnone⟩)
    unfold Writer.getLastEpochStart
    rw [if_neg (by omega), hstart]
    simp only [hfold, hgroup]
    rfl

end Ckbadger.Sync
