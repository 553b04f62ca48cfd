/-
Ckbadger.Writer.TokenRowTheorems — what the undo records of a token's batch say.

Where the transfer counts fit, `rowThrough` is a plain function of the block, `rowAt`. Its
metadata changes at change blocks only, and the batch's records are exactly the blocks that
change it, each with the row of the block before.
-/
import Ckbadger.Writer.TokenRow
import Mathlib.Data.List.Dedup

namespace Ckbadger.Writer

open Lib Store List

/-! ## Transfer counts -/

namespace TokenTransfersThroughBatch

variable {transfers : TokenTransfersThroughBatch}

/-- The transfers up to a block, counted without a bound. -/
def countThrough (transfers : TokenTransfersThroughBatch) (blockNumber : Int) : Int :=
  transfers.before + ((transfers.upTo blockNumber).map Prod.snd).sum

/-- Counts that arise from counting. -/
structure Counted (transfers : TokenTransfersThroughBatch) : Prop where
  before : 0 ≤ transfers.before ∧ transfers.before < 2 ^ 63
  positive : ∀ e ∈ transfers.byBlock.toList, 0 < e.2

section

variable (h : transfers.Counted)

include h

theorem Counted.nonneg {n : Int} : ∀ e ∈ transfers.upTo n, 0 ≤ e.2 :=
  fun e he => (h.positive e (mem_filter.mp he).1).le

theorem Counted.through_eq_ok {n total : Int} :
    transfers.through n = .ok total ↔ total = transfers.countThrough n ∧ total < 2 ^ 63 :=
  foldlM_checked_eq_ok h.before.1 h.before.2 h.nonneg

theorem Counted.countThrough_mono {n m : Int} (hnm : n ≤ m) :
    transfers.countThrough n ≤ transfers.countThrough m := by
  have hsub : (transfers.upTo n).Sublist (transfers.upTo m) := by
    refine monotone_filter_right _ fun e he => ?_
    simp only [decide_eq_true_eq] at he ⊢
    omega
  have hsum := (hsub.map Prod.snd).sum_le_sum (by simpa using fun a b => h.nonneg (b, a))
  unfold countThrough
  omega

theorem Counted.before_le (n : Int) :
    transfers.before ≤ transfers.countThrough n := by
  have hsum : 0 ≤ ((transfers.upTo n).map Prod.snd).sum :=
    sum_nonneg (by simpa using fun a b => h.nonneg (b, a))
  unfold countThrough
  omega

/-- A count through any block is at most the one through a block that ends the batch. -/
theorem Counted.countThrough_le {last : Int}
    (hlast : ∀ e ∈ transfers.byBlock.toList, e.1 ≤ last) (n : Int) :
    transfers.countThrough n ≤ transfers.countThrough last := by
  have hmax : transfers.upTo (max n last) = transfers.upTo last := by
    unfold upTo
    rw [filter_eq_self.mpr fun e he => decide_eq_true ((hlast e he).trans (le_max_right _ _)),
      filter_eq_self.mpr fun e he => decide_eq_true (hlast e he)]
  have hmono := h.countThrough_mono (le_max_left n last)
  unfold countThrough at hmono ⊢
  rwa [hmax] at hmono

end

end TokenTransfersThroughBatch

/-! ## Rows -/

namespace TokenRowThroughBatch

variable {t : TokenRowThroughBatch} {n : Int}

/-- The transfer count of a row at a block. -/
def countRow (t : TokenRowThroughBatch) (n : Int) (row : TokenInfo) : TokenInfo :=
  match t.transfers with
  | none => row
  | some transfers => { row with transfersCount := transfers.countThrough n }

/-- The row as of the end of a block, where the counts fit. -/
def rowAt (t : TokenRowThroughBatch) (n : Int) : Option TokenInfo :=
  (t.baseThrough n).map fun base => t.countRow n (t.observeThrough n base)

/-- The metadata as of the end of a block. -/
def metadataAt (t : TokenRowThroughBatch) (n : Int) : Option TokenInfo :=
  (t.rowAt n).map withoutTransferCount

/-- A batch whose transfers are counted, with a sum that fits. -/
structure Fits (t : TokenRowThroughBatch) : Prop where
  counted : ∀ transfers ∈ t.transfers, transfers.Counted
  total : ∀ transfers ∈ t.transfers, transfers.countThrough lastBlock < 2 ^ 63

theorem Fits.rowThrough_eq (h : t.Fits) (hn : n ≤ lastBlock) :
    t.rowThrough n = .ok (t.rowAt n) := by
  unfold rowThrough rowAt
  cases t.baseThrough n with
  | none => rfl
  | some base =>
    cases htransfers : t.transfers with
    | none => simp only [countRow, htransfers]; rfl
    | some transfers =>
      have hcounted := h.counted transfers htransfers
      have hlt := (hcounted.countThrough_mono hn).trans_lt (h.total transfers htransfers)
      simp only [countRow, htransfers, bind_eq_ok]
      exact ⟨transfers.countThrough n, hcounted.through_eq_ok.mpr ⟨rfl, hlt⟩, rfl⟩

/-- A binding changes at the blocks of the timeline only. -/
theorem winnerThrough_pred {timeline : OnchainTokenInfoTimeline} (h : n ∉ timeline.blocks) :
    timeline.winnerThrough (n - 1) = timeline.winnerThrough n := by
  have hne : ∀ e ∈ timeline.assignments.reverse, e.1 ≠ n := by
    intro e he heq
    exact h (mem_map.mpr ⟨e, mem_reverse.mp he, heq⟩)
  unfold OnchainTokenInfoTimeline.winnerThrough
  congr 1
  generalize timeline.assignments.reverse = entries at hne
  induction entries with
  | nil => rfl
  | cons e entries ih =>
    have he := hne e mem_cons_self
    have hiff : decide (e.1 ≤ n - 1) = decide (e.1 ≤ n) := by
      rw [decide_eq_decide]
      omega
    rw [find?_cons, find?_cons, hiff, ih (forall_mem_cons.mp hne).2]

theorem mem_changeBlocks : n ∈ t.changeBlocks ↔
    (∃ transfer, t.base = .createdBy transfer n) ∨ (∃ o ∈ t.maxSupply, o.blockNumber = n) ∨
      ∃ timeline ∈ t.onchain, n ∈ timeline.blocks := by
  unfold changeBlocks
  simp only [mem_dedup, mem_insertionSort, mem_append, or_assoc]
  refine or_congr ?_ (or_congr ?_ ?_)
  · cases t.base with
    | stored row => simp
    | createdBy transfer createdAt => simp [eq_comm]
  · simp
  · cases t.onchain with
    | none => simp
    | some timeline => simp

theorem changeBlocks_sorted : t.changeBlocks.Pairwise (· ≤ ·) := by
  exact (pairwise_insertionSort (· ≤ ·) _).sublist (dedup_sublist _)

/-- **Metadata changes at change blocks only.** -/
theorem metadataAt_pred (h : n ∉ t.changeBlocks) : t.metadataAt (n - 1) = t.metadataAt n := by
  simp only [mem_changeBlocks, not_or, not_exists, not_and] at h
  obtain ⟨hbase, hsupply, honchain⟩ := h
  have hbase : t.baseThrough (n - 1) = t.baseThrough n := by
    unfold baseThrough
    cases hb : t.base with
    | stored row => rfl
    | createdBy transfer createdAt =>
      have hne : createdAt ≠ n := fun heq => hbase transfer (heq ▸ hb)
      simp only
      congr 1
      rw [eq_iff_iff]
      omega
  have hsupply : t.maxSupply.filter (·.blockNumber ≤ n - 1) =
      t.maxSupply.filter (·.blockNumber ≤ n) := by
    cases ho : t.maxSupply with
    | none => rfl
    | some o =>
      have hne := hsupply o ho
      simp only [Option.filter_some]
      congr 2
      rw [decide_eq_decide]
      omega
  have honchain : t.onchain.bind (·.winnerThrough (n - 1)) =
      t.onchain.bind (·.winnerThrough n) := by
    cases hc : t.onchain with
    | none => rfl
    | some timeline => exact winnerThrough_pred (honchain timeline hc)
  have hobserve : t.observeThrough (n - 1) = t.observeThrough n := by
    unfold observeThrough
    rw [hsupply, honchain]
  unfold metadataAt rowAt
  rw [hobserve, Option.map_map, Option.map_map]
  congr 1
  funext base
  unfold countRow
  cases t.transfers <;> rfl

/-- Rows with the same metadata differ in the transfer count only. -/
theorem setCount_rowAt {m : Int} (h : t.metadataAt n = t.metadataAt m) (count : Int) :
    (t.rowAt n).map (fun row => { row with transfersCount := count })
      = (t.rowAt m).map fun row => { row with transfersCount := count } := by
  have hfactor : (fun row : TokenInfo => { row with transfersCount := count })
      = (fun row => { row with transfersCount := count }) ∘ withoutTransferCount := rfl
  unfold metadataAt at h
  rw [hfactor, ← Option.map_map, ← Option.map_map, h]

/-- The count of a row is the batch's, or that of the stored row. -/
theorem transfersCount_rowAt {row : TokenInfo} (h : t.rowAt n = some row) :
    (∀ transfers ∈ t.transfers, row.transfersCount = transfers.countThrough n) ∧
      (t.transfers = none → ∃ base, t.baseThrough n = some base ∧
        row.transfersCount = base.transfersCount) := by
  obtain ⟨base, hbase, rfl⟩ := Option.map_eq_some_iff.mp h
  refine ⟨fun transfers htransfers => ?_, fun hnone => ⟨base, hbase, ?_⟩⟩
  · rw [Option.mem_def] at htransfers
    simp [countRow, htransfers]
  · have hmerge : ∀ (row : TokenInfo) chain,
        (row.mergeChainMetadata chain).transfersCount = row.transfersCount := by
      intro row chain
      unfold TokenInfo.mergeChainMetadata
      split <;> rfl
    have hsupply : ∀ (row : TokenInfo) observed,
        (applyObservedMaxSupply row observed).transfersCount = row.transfersCount := by
      intro row observed
      unfold applyObservedMaxSupply
      split
      · split <;> rfl
      · rfl
    simp only [countRow, hnone, observeThrough]
    split
    · rw [hmerge]
      split
      · rw [hsupply]
      · rfl
    · split
      · rw [hsupply]
      · rfl

/-! ## Undo records -/

/-- The record of a block, where the counts fit. -/
def pureRecord (t : TokenRowThroughBatch) (n : Int) : Option (Journal.Record Bytes TokenInfo) :=
  if t.metadataAt (n - 1) = t.metadataAt n then none else some ⟨n, t.typeHash, t.rowAt (n - 1)⟩

theorem Fits.recordAt_eq (h : t.Fits) (hn : n ≤ lastBlock) :
    t.recordAt n = .ok (t.pureRecord n) := by
  unfold recordAt pureRecord
  rw [h.rowThrough_eq (show n - 1 ≤ lastBlock by omega), h.rowThrough_eq hn]
  simp only [bind_eq_ok, Except.ok.injEq, exists_eq_left']
  by_cases heq : t.metadataAt (n - 1) = t.metadataAt n
  · rw [if_pos heq, if_pos (by exact heq)]
    rfl
  · rw [if_neg heq, if_neg (by exact heq)]
    rfl

theorem fits_of_stage (hcounted : ∀ transfers ∈ t.transfers, transfers.Counted)
    {records : List (Journal.Record Bytes TokenInfo)} {row : TokenInfo}
    (h : t.stage = .ok (records, row)) : t.Fits := by
  refine ⟨hcounted, fun transfers htransfers => ?_⟩
  simp only [stage, bind_eq_ok, required_eq_ok] at h
  obtain ⟨-, -, last, hlast, row', rfl, -⟩ := h
  unfold rowThrough at hlast
  cases hbase : t.baseThrough lastBlock with
  | none =>
    rw [hbase] at hlast
    cases hlast
  | some base =>
    rw [Option.mem_def] at htransfers
    simp only [hbase, htransfers, bind_eq_ok] at hlast
    obtain ⟨total, htotal, -⟩ := hlast
    obtain ⟨rfl, hlt⟩ := ((hcounted transfers htransfers).through_eq_ok).mp htotal
    exact hlt

/-- **What a batch records**: the change blocks that change the metadata, each with the row
before it. -/
theorem Fits.stage_eq_ok (h : t.Fits) (hblocks : ∀ b ∈ t.changeBlocks, b ≤ lastBlock)
    {records : List (Journal.Record Bytes TokenInfo)} {row : TokenInfo}
    (hstage : t.stage = .ok (records, row)) :
    records = t.changeBlocks.filterMap t.pureRecord ∧ t.rowAt lastBlock = some row := by
  simp only [stage, bind_eq_ok, required_eq_ok, h.rowThrough_eq le_rfl] at hstage
  obtain ⟨all, hall, last, hlast, row', rfl, hpair⟩ := hstage
  cases hpair
  refine ⟨?_, by simpa using hlast⟩
  rw [mapM_eq_ok_map fun b hb => h.recordAt_eq (hblocks b hb)] at hall
  cases hall
  exact filterMap_map

theorem mem_records {r : Journal.Record Bytes TokenInfo}
    (h : r ∈ t.changeBlocks.filterMap t.pureRecord) :
    r.key = t.typeHash ∧ r.pre = t.rowAt (r.time - 1) := by
  obtain ⟨n, -, hrecord⟩ := mem_filterMap.mp h
  unfold pureRecord at hrecord
  split at hrecord
  · cases hrecord
  · cases hrecord
    exact ⟨rfl, rfl⟩

theorem exists_record (h : t.metadataAt n ≠ t.metadataAt (n - 1)) :
    ∃ r ∈ t.changeBlocks.filterMap t.pureRecord, r.key = t.typeHash ∧ r.time = n := by
  have hmem : n ∈ t.changeBlocks := by
    by_contra hnot
    exact h (metadataAt_pred hnot).symm
  refine ⟨⟨n, t.typeHash, t.rowAt (n - 1)⟩, mem_filterMap.mpr ⟨n, hmem, ?_⟩, rfl, rfl⟩
  exact if_neg fun heq => h heq.symm

theorem records_sorted :
    (t.changeBlocks.filterMap t.pureRecord).Pairwise fun a b => a.time ≤ b.time := by
  refine List.Pairwise.filterMap _ (fun a b hab r hr r' hr' => ?_) changeBlocks_sorted
  unfold pureRecord at hr hr'
  split at hr <;> split at hr' <;> cases hr <;> cases hr'
  exact hab

end TokenRowThroughBatch

end Ckbadger.Writer
