/-
Ckbadger.Writer.EntityStatsPartition — how a sequence of mutations is cut into
committed batches does not show in the store.

`Committed s ms t` says what any way of committing the mutations `ms` from `s`
must leave: each key's value after its mutations, one row of the log per
`(block, key)` with the value at the end of the block before, and nothing else.
It determines `t`, a single batch establishes it, and it composes across a cut
at a block boundary.
-/
import Ckbadger.Writer.EntityStatsTheorems
import Ckbadger.Store.RowCodecs

namespace Ckbadger.Writer

open Lib Store Sync OrderedStore List

/-! ## Cutting a sequence into batches -/

/-- Cuts a sequence of mutations at block boundaries: the first batch holds the mutations of
blocks up to the first bound, and so on. -/
def cutAt : List Int → List Mutation → List (List Mutation)
  | [], ms => [ms]
  | bound :: bounds, ms =>
    ms.filter (fun m => m.block ≤ bound) :: cutAt bounds (ms.filter fun m => bound < m.block)

/-- The overlay call of a mutation. -/
def Mutation.call (m : Mutation) : OverlayCall := .update m.block m.key m.apply

@[simp] theorem mutationsOf_map_call (ms : List Mutation) :
    mutationsOf (ms.map Mutation.call) = ms := by
  induction ms with
  | nil => rfl
  | cons m ms ih =>
    simp only [mutationsOf, map_cons, filterMap_cons, Mutation.call, OverlayCall.mutation?] at ih ⊢
    rw [ih]

section Commit

variable [Codec UndoLogEntry]
variable {s t : DomainStore} {ms : List Mutation}

/-- Commits one batch of mutations. -/
def commitMutations (s : DomainStore) (ms : List Mutation) : Except OverlayError DomainStore := do
  let batch ← stageOverlay s (ms.map Mutation.call)
  return s.write batch

/-- Commits batches one after another. -/
def commitBatches (s : DomainStore) (batches : List (List Mutation)) :
    Except OverlayError DomainStore :=
  batches.foldlM commitMutations s

/-- The log holds `pre` as the pre-image of `key` for `block`. -/
def RecordedPreImage (s : DomainStore) (block : Int) (key : Bytes) (pre : Option Bytes) : Prop :=
  ∃ seq cfName, s.get .reorgUndoLogByBlock (encodeReorgUndoLogKey block seq)
    = some (Codec.serialize (UndoLogEntry.keyMutation .domain cfName key pre))

/-! ## What committing a sequence leaves -/

/-- The store `t` is `s` with the mutations `ms` committed. -/
structure Committed (s : DomainStore) (ms : List Mutation) (t : DomainStore) : Prop where
  prefixed : ∀ m ∈ ms, ∃ p, HasPrefix m.key p
  stats : ∀ key, statsRow t key = valueAfter key (statsRow s key) ms
  recorded : ∀ row, IsPreImage s ms row →
    t.get .reorgUndoLogByBlock row.key = some (Codec.serialize row.entry)
  unrecorded : ∀ key, (∀ row, IsPreImage s ms row → row.key ≠ key) →
    t.get .reorgUndoLogByBlock key = s.get .reorgUndoLogByBlock key
  frame : ∀ cf key, cf ≠ .reorgUndoLogByBlock → cfForStatsKey key ≠ .ok cf →
    t.get cf key = s.get cf key

theorem Committed.unique {u : DomainStore} (ht : Committed s ms t)
    (hu : Committed s ms u) : t = u := by
  refine ext_get fun cf key => ?_
  by_cases hlog : cf = .reorgUndoLogByBlock
  · subst hlog
    by_cases hrow : ∃ row, IsPreImage s ms row ∧ row.key = key
    · obtain ⟨row, hrow, rfl⟩ := hrow
      rw [ht.recorded row hrow, hu.recorded row hrow]
    · have hnone : ∀ row, IsPreImage s ms row → row.key ≠ key :=
        fun row hr hk => hrow ⟨row, hr, hk⟩
      rw [ht.unrecorded key hnone, hu.unrecorded key hnone]
  · by_cases hcf : cfForStatsKey key = .ok cf
    · have hstats : ∀ w : DomainStore, statsRow w key = w.get cf key := by
        intro w
        rw [statsRow, hcf]
      rw [← hstats, ← hstats, ht.stats, hu.stats]
    · rw [ht.frame cf key hlog hcf, hu.frame cf key hlog hcf]

theorem commitMutations_ok (hfits : ∀ m ∈ ms, FitsSigned 8 m.block)
    (h : commitMutations s ms = .ok t) :
    Committed s ms t := by
  obtain ⟨batch, hstage, hret⟩ := bind_eq_ok.mp h
  cases hret
  obtain ⟨rows, finals, rfl, hst⟩ := stageOverlay_ok hstage
  rw [mutationsOf_map_call] at hst
  obtain ⟨undoSeq, hdrawn⟩ := hst.drawn
  have hblocks : ∀ row ∈ rows, FitsSigned 8 row.block := by
    intro row hrow
    obtain ⟨m, hm, hb⟩ := ((hst.rows_iff row).mp hrow).exists_mutation
    exact hb ▸ hfits m hm
  refine ⟨hst.prefixed, fun key => ?_, fun row hrow => ?_, fun key hkey => ?_,
    fun cf key hlog hcf => ?_⟩
  · have hstats := hst.statsRow_write [] (by simp) key
    rwa [append_nil] at hstats
  · rw [get_write, hst.rowAfter_undoLog,
      rowAfter_rows_of_mem (hdrawn.keys_pairwise hblocks) ((hst.rows_iff row).mpr hrow)]
  · rw [get_write, hst.rowAfter_undoLog,
      rowAfter_rows_of_ne _ fun _ row hrow => hkey row ((hst.rows_iff row).mp hrow)]
  · rw [get_write, rowAfter_append, rowAfter_rows_of_ne _ fun hc => absurd hc hlog,
      hst.final_of_other cf key fun _ _ _ => hcf]

/-! ## Cuts compose -/

section Cut

variable {s t u : DomainStore} {ms : List Mutation} {bound : Int}

omit [Codec UndoLogEntry] in
/-- Up to a cut, the pre-images are those of the first part. -/
theorem isPreImage_of_le {row : UndoRow} (h : row.block ≤ bound) :
    IsPreImage s (ms.filter fun m => m.block ≤ bound) row ↔ IsPreImage s ms row := by
  have hkeys : touchedKeys (ms.filter fun m => m.block ≤ bound) row.block
      = touchedKeys ms row.block :=
    touchedKeys_filter fun m _ hb => by simpa [hb] using h
  have hval : ∀ key v, valueAtEnd key v (ms.filter fun m => m.block ≤ bound) (row.block - 1)
      = valueAtEnd key v ms (row.block - 1) := valueAtEnd_filter_le (by omega)
  simp [IsPreImage, hkeys, hval]

variable (hordered : ms.Pairwise fun a b => a.key = b.key → a.block ≤ b.block)

include hordered

/-- Past a cut, they are those of the second part, started where the first one ended. -/
theorem isPreImage_of_gt
    (ht : Committed s (ms.filter fun m => m.block ≤ bound) t) {row : UndoRow}
    (h : bound < row.block) :
    IsPreImage t (ms.filter fun m => bound < m.block) row ↔ IsPreImage s ms row := by
  have hkeys : touchedKeys (ms.filter fun m => bound < m.block) row.block
      = touchedKeys ms row.block :=
    touchedKeys_filter fun m _ hb => by simpa [hb] using h
  have hval : ∀ key, valueAtEnd key (statsRow t key) (ms.filter fun m => bound < m.block)
      (row.block - 1) = valueAtEnd key (statsRow s key) ms (row.block - 1) := by
    intro key
    rw [ht.stats, valueAtEnd_filter_gt hordered (by omega)]
  simp [IsPreImage, hkeys, hval]

/-- Committing the two parts of a cut commits the whole sequence. -/
theorem Committed.trans (hfits : ∀ m ∈ ms, FitsSigned 8 m.block)
    (ht : Committed s (ms.filter fun m => m.block ≤ bound) t)
    (hu : Committed t (ms.filter fun m => bound < m.block) u) : Committed s ms u := by
  refine ⟨fun m hm => ?_, fun key => ?_, fun row hrow => ?_, fun key hkey => ?_,
    fun cf key hlog hcf => ?_⟩
  · by_cases hb : m.block ≤ bound
    · exact ht.prefixed m (mem_filter.mpr ⟨hm, by simpa using hb⟩)
    · exact hu.prefixed m (mem_filter.mpr ⟨hm, by simpa using hb⟩)
  · rw [hu.stats, ht.stats, valueAfter_split hordered]
  · obtain ⟨m, hm, hmb⟩ := hrow.exists_mutation
    have hrowFits : FitsSigned 8 row.block := hmb ▸ hfits m hm
    by_cases hb : row.block ≤ bound
    · -- rows past the cut have other blocks, hence other keys
      rw [hu.unrecorded, ht.recorded row ((isPreImage_of_le hb).mpr hrow)]
      intro row' hrow' hkey
      obtain ⟨m', hm', hmb'⟩ := hrow'.exists_mutation
      obtain ⟨hmem, hlt⟩ := mem_filter.mp hm'
      have hblock := encodeReorgUndoLogKey_block (hmb' ▸ hfits m' hmem) hrowFits hkey
      simp only [decide_eq_true_eq] at hlt
      omega
    · exact hu.recorded row ((isPreImage_of_gt hordered ht (by omega)).mpr hrow)
  · rw [hu.unrecorded, ht.unrecorded]
    · intro row hrow
      obtain ⟨m, hm, hmb⟩ := hrow.exists_mutation
      have hle : row.block ≤ bound := by simpa [hmb] using (mem_filter.mp hm).2
      exact hkey row ((isPreImage_of_le hle).mp hrow)
    · intro row hrow
      obtain ⟨m, hm, hmb⟩ := hrow.exists_mutation
      have hlt : bound < row.block := by simpa [hmb] using (mem_filter.mp hm).2
      exact hkey row ((isPreImage_of_gt hordered ht hlt).mp hrow)
  · rw [hu.frame cf key hlog hcf, ht.frame cf key hlog hcf]

/-- Any cut into batches commits the whole sequence. -/
theorem commitBatches_ok {bounds : List Int} (hfits : ∀ m ∈ ms, FitsSigned 8 m.block)
    (h : commitBatches s (cutAt bounds ms) = .ok t) : Committed s ms t := by
  induction bounds generalizing s ms with
  | nil =>
    obtain ⟨t', ht', hrest⟩ := foldlM_cons_eq_ok.mp h
    cases hrest
    exact commitMutations_ok hfits ht'
  | cons bound bounds ih =>
    obtain ⟨t₁, hfirst, hrest⟩ := foldlM_cons_eq_ok.mp h
    have hsub : ∀ p : Mutation → Bool, ∀ m ∈ ms.filter p, FitsSigned 8 m.block :=
      fun p m hm => hfits m (mem_filter.mp hm).1
    exact (commitMutations_ok (hsub _) hfirst).trans hordered hfits
      (ih (hordered.filter _) (hsub _) hrest)

end Cut

/-- The facts a committed sequence records for its blocks: each touched key with its value at
the end of the block before. -/
theorem Committed.recordedPreImage_iff (h : Committed s ms t)
    (hfits : ∀ m ∈ ms, FitsSigned 8 m.block)
    (hfresh : ∀ m ∈ ms, ∀ seq,
      s.get .reorgUndoLogByBlock (encodeReorgUndoLogKey m.block seq) = none)
    {block : Int} (hblock : ∃ m ∈ ms, m.block = block) (key : Bytes) (pre : Option Bytes) :
    RecordedPreImage t block key pre ↔ (∃ m ∈ ms, m.block = block ∧ m.key = key) ∧
      pre = valueAtEnd key (statsRow s key) ms (block - 1) := by
  obtain ⟨m₀, hm₀, rfl⟩ := hblock
  constructor
  · rintro ⟨seq, cfName, hget⟩
    by_cases hrow : ∃ row, IsPreImage s ms row ∧ row.key = encodeReorgUndoLogKey m₀.block seq
    · obtain ⟨row, hrow, hkey⟩ := hrow
      rw [← hkey, h.recorded row hrow] at hget
      have hentry := Codec.serialize_injective (Option.some.inj hget)
      obtain ⟨m, hm, hmb⟩ := hrow.exists_mutation
      have hrb : row.block = m₀.block :=
        encodeReorgUndoLogKey_block (hmb ▸ hfits m hm) (hfits m₀ hm₀) hkey
      obtain ⟨i, k, p, hi, -, -, hre⟩ := hrow
      rw [hre] at hentry
      obtain ⟨-, -, rfl, rfl⟩ := hentry
      rw [hrb] at hi ⊢
      exact ⟨mem_touchedKeys.mp (mem_of_getElem? hi), rfl⟩
    · rw [h.unrecorded _ fun row hr hk => hrow ⟨row, hr, hk⟩, hfresh m₀ hm₀ seq] at hget
      cases hget
  · rintro ⟨hmut, rfl⟩
    obtain ⟨i, hi⟩ := getElem?_of_mem (mem_touchedKeys.mpr hmut)
    obtain ⟨m, hm, -, rfl⟩ := hmut
    obtain ⟨p, hp⟩ := h.prefixed m hm
    exact ⟨_, _, h.recorded ⟨m₀.block, _, _⟩ ⟨i, m.key, p, hi, hp, rfl, rfl⟩⟩

/-- **Batch partition independence.** However a sequence of mutations is cut at block boundaries
into committed batches, the store is the same: rows, undo entries and their keys. The facts
recorded for a block are its touched keys with their values at the end of the block before. -/
theorem commitBatches_partition_independent {s tA tB : DomainStore} {ms : List Mutation}
    (boundsA boundsB : List Int) (hfits : ∀ m ∈ ms, FitsSigned 8 m.block)
    (hordered : ms.Pairwise fun a b => a.key = b.key → a.block ≤ b.block)
    (hA : commitBatches s (cutAt boundsA ms) = .ok tA)
    (hB : commitBatches s (cutAt boundsB ms) = .ok tB) :
    tA = tB ∧
      (∀ key, statsRow tA key = valueAfter key (statsRow s key) ms) ∧
      ((∀ m ∈ ms, ∀ seq,
          s.get .reorgUndoLogByBlock (encodeReorgUndoLogKey m.block seq) = none) →
        ∀ block, (∃ m ∈ ms, m.block = block) → ∀ key pre,
          RecordedPreImage tA block key pre ↔ (∃ m ∈ ms, m.block = block ∧ m.key = key) ∧
            pre = valueAtEnd key (statsRow s key) ms (block - 1)) := by
  have hcA := commitBatches_ok hordered hfits hA
  have hcB := commitBatches_ok hordered hfits hB
  exact ⟨hcA.unique hcB, hcA.stats,
    fun hfresh block hblock key pre => hcA.recordedPreImage_iff hfits hfresh hblock key pre⟩

end Commit

/-- A daily row written by two blocks, which the second block brings back to zero. -/
def zeroingMutations : List Mutation :=
  [⟨1, [0x0F, 1], fun prev => applyDailyPair prev 5 0 "script"⟩,
    ⟨2, [0x0F, 1], fun prev => applyDailyPair prev (-5) 0 "script"⟩,
    ⟨2, [0x0A, 9], fun prev => applyHourlyIncrement prev 1 "token"⟩]

theorem zeroingMutations_partition_independent :
    ∃ t, commitBatches empty (cutAt [1] zeroingMutations) = .ok t ∧
      commitBatches empty (cutAt [] zeroingMutations) = .ok t := by
  obtain ⟨tA, hA⟩ := exists_of_isOk
    (by decide +kernel : (commitBatches empty (cutAt [1] zeroingMutations)).isOk = true)
  obtain ⟨tB, hB⟩ := exists_of_isOk
    (by decide +kernel : (commitBatches empty (cutAt [] zeroingMutations)).isOk = true)
  have hsame := commitBatches_partition_independent [1] [] (by decide) (by decide) hA hB
  exact ⟨tA, hA, hsame.1 ▸ hB⟩

end Ckbadger.Writer
