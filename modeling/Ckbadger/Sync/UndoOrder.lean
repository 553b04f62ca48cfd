/-
Ckbadger.Sync.UndoOrder — the order in which the undo entries of a batch are replayed.

The writers of a batch record entries in any interleaving of blocks and scopes. A block's
entries sort by scope first, and in the order of the calls only within a scope. A row whose
pre-images a block records under one scope is therefore left with the first of them; a row
that two scopes record may not be (`recordUndo_two_scopes`).
-/
import Ckbadger.Store.UndoLogTheorems
import Ckbadger.Sync.UndoSeq
import Mathlib.Data.List.Induction

namespace Ckbadger.Sync

open Lib Store UndoSeqScope OrderedStore List

/-! ## The entries a rollback replays -/

section Pending

variable [Codec UndoLogEntry] {s : DomainStore} {rollbackTo : Int} {ledger : List UndoRow}

/-- A row of the ledger is in the log as it was recorded. -/
def Stored (s : DomainStore) (row : UndoRow) : Prop :=
  s.get .reorgUndoLogByBlock row.key = some (Codec.serialize row.entry)

/-- When every row of the log lies below the target or is in the ledger, the pending entries are
the stored ledger rows above the target. -/
theorem pendingUndo_of_ledger (hR : -1 ≤ rollbackTo)
    (hrows : ∀ row ∈ ledger, IsBlock row.block ∧ row.seq < 2 ^ 64)
    (hlog : ∀ key v, s.get .reorgUndoLogByBlock key = some v →
      (∃ block seq, key = encodeReorgUndoLogKey block seq ∧ IsBlock block ∧ seq < 2 ^ 64 ∧
        block ≤ rollbackTo) ∨ ∃ row ∈ ledger, row.key = key ∧ v = Codec.serialize row.entry) :
    ∃ pending, pendingUndo s rollbackTo = .ok pending ∧
      (pending.filterMap undoRecord?).Pairwise (fun a b => a.time ≤ b.time) ∧
      ∀ key e, (key, e) ∈ pending ↔ ∃ row ∈ ledger, row.key = key ∧ row.entry = e ∧
        rollbackTo < row.block ∧ Stored s row := by
  have hdecode : ∀ row ∈ ledger, decodeReorgUndoLogKey row.key = (row.block, row.seq) :=
    fun row hrow => decode_encodeReorgUndoLogKey (hrows row hrow).1.fitsSigned (hrows row hrow).2
  obtain ⟨pending, hpend, hsorted, hmem⟩ := pendingUndo_of_log hR fun key v hget => by
    rcases hlog key v hget with ⟨block, seq, hkey, hb, hseq, hle⟩ | ⟨row, hrow, hkey, hv⟩
    · exact ⟨block, seq, hkey, hb, hseq, fun hlt => absurd hle (not_le.mpr hlt)⟩
    · exact ⟨row.block, row.seq, hkey.symm, (hrows row hrow).1, (hrows row hrow).2,
        fun _ => ⟨_, hv⟩⟩
  refine ⟨pending, hpend, hsorted, fun key e => ?_⟩
  rw [hmem]
  constructor
  · rintro ⟨hget, hlt⟩
    rcases hlog key _ hget with ⟨block, seq, rfl, hb, hseq, hle⟩ | ⟨row, hrow, rfl, hv⟩
    · rw [decode_encodeReorgUndoLogKey hb.fitsSigned hseq] at hlt
      exact absurd hle (not_le.mpr hlt)
    · obtain rfl := Codec.serialize_injective hv
      rw [hdecode row hrow] at hlt
      exact ⟨row, hrow, rfl, rfl, hlt, hget⟩
  · rintro ⟨row, hrow, rfl, rfl, hlt, hstored⟩
    exact ⟨hstored, by rwa [hdecode row hrow]⟩

end Pending

/-! ## Calls -/

/-- A writer's call: the block and the scope it draws a number for, and the entry it records. -/
structure UndoCall where
  block : Int
  scope : UndoSeqScope
  entry : UndoLogEntry
  deriving DecidableEq

/-- Records one entry. -/
def recordCall (state : List UndoRow × UndoSeqMap) (call : UndoCall) :
    Except UndoSeqOverflow (List UndoRow × UndoSeqMap) := do
  let (seq, undoSeq) ← nextUndoSeq state.2 call.block call.scope
  return (state.1 ++ [⟨call.block, seq, call.entry⟩], undoSeq)

/-- Records the entries of a batch, call by call. -/
def recordUndo (calls : List UndoCall) : Except UndoSeqOverflow (List UndoRow × UndoSeqMap) :=
  calls.foldlM recordCall ([], ∅)

/-- A batch with at most `2 ^ 48` calls for each block is recorded: each row has its number in the
scope of its call, and later calls of a block have larger counters. -/
theorem recordUndo_ok {calls : List UndoCall}
    (hcount : ∀ b, calls.countP (·.block = b) ≤ 2 ^ undoSeqScopeShift) :
    ∃ rows undoSeq, recordUndo calls = .ok (rows, undoSeq) ∧ Drawn undoSeq rows ∧
      (∀ b, undoSeq.getD b 0 = calls.countP (·.block = b)) ∧
      List.Forall₂ (fun call row => row.block = call.block ∧ row.entry = call.entry ∧
        call.scope.owns row.seq) calls rows ∧
      rows.Pairwise fun a b => a.block = b.block → localSeqOf a.seq < localSeqOf b.seq := by
  induction calls using List.reverseRecOn with
  | nil => exact ⟨[], ∅, rfl, .nil, by simp, .nil, .nil⟩
  | append_singleton calls call ih =>
    simp only [countP_append] at hcount
    obtain ⟨rows, undoSeq, hrun, hdrawn, hseq, hrows, horder⟩ :=
      ih fun b => (Nat.le_add_right _ _).trans (hcount b)
    have hlocal : undoSeq.getD call.block 0 ≤ undoSeqLocalMax := by
      have hlt := hcount call.block
      rw [← hseq, countP_singleton, if_pos (by simp)] at hlt
      exact Nat.le_sub_one_of_lt hlt
    have hnext : nextUndoSeq undoSeq call.block call.scope = .ok (_, _) := if_pos hlocal
    refine ⟨_, _, ?_, hdrawn.snoc hnext call.entry, fun b => ?_, ?_, ?_⟩
    · rw [recordUndo, foldlM_append, bind_eq_ok]
      exact ⟨_, hrun, by simp [recordCall, hnext]⟩
    · simp only [Std.ExtTreeMap.getD_insert, Std.compare_eq_iff_eq, countP_append,
        countP_singleton, decide_eq_true_eq, hseq]
      split
      · rename_i heq
        rw [heq]
      · rfl
    · refine rel_append hrows (.cons ⟨rfl, rfl, ?_⟩ .nil)
      simp [owns_seqBase_or _ _ hlocal]
    · refine pairwise_append.mpr ⟨horder, pairwise_singleton _ _, fun a ha => ?_⟩
      refine forall_mem_singleton.mpr fun heq => ?_
      have hbelow := (hdrawn.below a ha).2
      rw [heq] at hbelow
      rwa [localSeqOf_seqBase_or _ hlocal]

/-- Two numbers of one scope compare by their counters. -/
theorem lt_iff_localSeqOf_lt {scope : UndoSeqScope} {a b : Nat} (ha : scope.owns a)
    (hb : scope.owns b) : a < b ↔ localSeqOf a < localSeqOf b := by
  simp only [owns, beq_iff_eq, undoSeqScopeShift] at ha hb
  simp only [localSeqOf, undoSeqScopeShift]
  omega

section Replay

variable [Codec UndoLogEntry]

/-- **Undo replay is LIFO within a scope.** Take any interleaving of calls over blocks and scopes,
with at most `2 ^ 48` calls for each block. It is recorded; no two entries share a key, and
those of one block and scope sort in the order of the calls. Once it is committed to a store
whose log ends before a block, a rollback to before that block leaves a row the block recorded
under one scope only with the first of its pre-images. -/
theorem recordUndo_lifo {calls : List UndoCall} (hblocks : ∀ call ∈ calls, IsBlock call.block)
    (hcount : ∀ b, calls.countP (·.block = b) ≤ 2 ^ undoSeqScopeShift) :
    ∃ rows undoSeq, recordUndo calls = .ok (rows, undoSeq) ∧
      List.Forall₂ (fun call row => row.block = call.block ∧ row.entry = call.entry ∧
        call.scope.owns row.seq) calls rows ∧
      rows.Pairwise (fun a b => a.key ≠ b.key) ∧
      rows.Pairwise (fun a b => a.block = b.block →
        ∀ scope : UndoSeqScope, scope.owns a.seq → scope.owns b.seq → compare a.key b.key = .lt) ∧
      ∀ (s : DomainStore) (before after : List UndoRow) (first : UndoRow) (scope : UndoSeqScope)
        (cf : Cf) (cfName : String) (key : Bytes) (pre : Option Bytes),
        (∀ row ∈ rows, Replayable row.entry ∧ SparesUndoLog row.entry) →
        (∀ k v, s.get .reorgUndoLogByBlock k = some v → ∃ block seq,
          k = encodeReorgUndoLogKey block seq ∧ IsBlock block ∧ seq < 2 ^ 64 ∧
            block ≤ first.block - 1) →
        rows = before ++ first :: after → Cf.ofName? cfName = some cf →
        first.entry = .keyMutation .domain cfName key pre →
        (∀ row ∈ before, row.block = first.block →
          ∀ pre', row.entry ≠ .keyMutation .domain cfName key pre') →
        (∀ row ∈ rows, row.block = first.block →
          ∀ pre', row.entry = .keyMutation .domain cfName key pre' → scope.owns row.seq) →
        (rollbackViaUndoLog (s.write (rows.map UndoRow.op)) (first.block - 1)).1.get cf key
          = pre := by
  obtain ⟨rows, undoSeq, hrun, hdrawn, -, hrecorded, horder⟩ := recordUndo_ok hcount
  have hrows : ∀ row ∈ rows, IsBlock row.block ∧ row.seq < 2 ^ 64 := by
    intro row hrow
    obtain ⟨i, hi, rfl⟩ := getElem_of_mem hrow
    have hrec := hrecorded.get (hrecorded.length_eq ▸ hi) hi
    exact ⟨hrec.1 ▸ hblocks _ (getElem_mem _), (hdrawn.below _ hrow).1⟩
  have hcompare : ∀ a ∈ rows, ∀ b ∈ rows, compare a.key b.key = .lt ↔
      a.block < b.block ∨ a.block = b.block ∧ a.seq < b.seq := by
    intro a ha b hb
    rw [UndoRow.key, UndoRow.key, compare_encodeReorgUndoLogKey (hrows a ha).1 (hrows b hb).1
      (hrows a ha).2 (hrows b hb).2, Ordering.then_eq_lt, compare_lt_iff_lt, compare_eq_iff_eq,
      compare_lt_iff_lt]
  have hkeys := hdrawn.keys_pairwise fun row hrow => (hrows row hrow).1.fitsSigned
  refine ⟨rows, undoSeq, hrun, hrecorded, hkeys, horder.imp_of_mem ?_, ?_⟩
  · intro a b ha hb hlt hblock scope hsa hsb
    exact (hcompare a ha b hb).mpr (.inr ⟨hblock, (lt_iff_localSeqOf_lt hsa hsb).mpr (hlt hblock)⟩)
  intro s before after first scope cf cfName key pre hentries hlog hsplit hcf hpre hfirst hscope
  have hmem : first ∈ rows := by simp [hsplit]
  have hfirstBlock := (hrows first hmem).1
  have hR : -1 ≤ first.block - 1 := by
    have := hfirstBlock.1
    omega
  obtain ⟨pending, hpend, -, hpending⟩ := pendingUndo_of_ledger hR hrows fun k v hget => by
    rw [get_write] at hget
    exact (rowAfter_rows_cases hget).imp_left (hlog k v)
  have hentry : ∀ row ∈ pending, Replayable row.2 ∧ SparesUndoLog row.2 := by
    rintro ⟨k, e⟩ hp
    obtain ⟨row, hrow, -, rfl, -⟩ := (hpending k e).mp hp
    exact hentries row hrow
  obtain ⟨-, -, hvalue⟩ := rollbackViaUndoLog_completed hR hpend
    (fun row hrow => (hentry row hrow).1) (fun row hrow => (hentry row hrow).2)
  have hundoLog : cf ≠ .reorgUndoLogByBlock := by
    rintro rfl
    have hspares := (hentries first hmem).2
    rw [hpre] at hspares
    exact hspares hcf
  have hp : (first.key, first.entry) ∈ pending := by
    refine (hpending _ _).mpr ⟨first, hmem, rfl, rfl, by omega, ?_⟩
    rw [Stored, get_write, rowAfter_rows_of_mem hkeys hmem]
  obtain ⟨older, newer, hpsplit⟩ := append_of_mem hp
  have hrecord : undoRecord? (first.key, first.entry) = some ⟨first.block, (cf, key), pre⟩ := by
    simp [undoRecord?, hpre, hcf, UndoRow.key,
      decode_encodeReorgUndoLogKey hfirstBlock.fitsSigned (hrows first hmem).2]
  rw [hvalue cf key hundoLog, hpsplit, filterMap_append, filterMap_cons, hrecord]
  refine Journal.undo_of_first fun r hr hk => ?_
  -- an older entry for the row is of the same block and scope, so it was recorded earlier
  obtain ⟨⟨k, e⟩, hold, hr⟩ := mem_filterMap.mp hr
  have hlt := (pairwise_append.mp (hpsplit ▸ pendingUndo_sorted hpend)).2.2 _ hold _ mem_cons_self
  obtain ⟨row, hrow, rfl, rfl, hge, -⟩ :=
    (hpending k e).mp (hpsplit ▸ mem_append_left _ hold)
  have hkeyed := (undoRecord?_eq_some hr).1
  rw [hk, Cf.name_of_ofName? hcf] at hkeyed
  obtain ⟨heq, hseq⟩ : row.block = first.block ∧ row.seq < first.seq :=
    ((hcompare row hrow first hmem).mp hlt).resolve_left (by omega)
  rw [lt_iff_localSeqOf_lt (hscope row hrow heq _ hkeyed) (hscope first hmem rfl _ hpre)] at hseq
  rw [hsplit] at hrow horder
  rcases mem_append.mp hrow with hrow | hrow
  · exact hfirst row hrow heq _ hkeyed
  rcases mem_cons.mp hrow with rfl | hrow
  · exact lt_irrefl _ hseq
  · have hafter := (pairwise_cons.mp (pairwise_append.mp horder).2.1).1 row hrow heq.symm
    exact lt_asymm hseq hafter

end Replay

/-- A block that records one row twice under one scope, and another row between. -/
def scopedCalls : List UndoCall :=
  [⟨7, .dotBit, .keyMutation .domain "stats_chain" [1] none⟩,
    ⟨7, .object, .keyMutation .domain "stats_chain" [2] none⟩,
    ⟨7, .dotBit, .keyMutation .domain "stats_chain" [1] (some [3])⟩]

theorem scopedCalls_lifo :
    ∃ rows undoSeq, recordUndo scopedCalls = .ok (rows, undoSeq) ∧
      (rollbackViaUndoLog (empty.write (rows.map UndoRow.op)) 6).1.get .statsChain [1] = none := by
  obtain ⟨rows, undoSeq, hrun, -, -, -, hlifo⟩ := @recordUndo_lifo _ scopedCalls (by decide)
    fun b => countP_le_length.trans (by decide)
  have hrows : (recordUndo scopedCalls).map Prod.fst
      = .ok (scopedCalls.zipIdx.map fun (call, i) =>
        ⟨call.block, call.scope.seqBase ||| i, call.entry⟩) := by decide +kernel
  rw [hrun] at hrows
  obtain rfl := Except.ok.inj hrows
  have hname : Cf.ofName? "stats_chain" = some .statsChain := by decide +kernel
  refine ⟨_, undoSeq, hrun, hlifo empty [] _ ⟨7, dotBit.seqBase ||| 0, _⟩
    .dotBit .statsChain "stats_chain" [1] none ?_ (by simp) rfl hname rfl (by simp) ?_⟩
  · simp [scopedCalls, Replayable, SparesUndoLog, hname]
  · have howns : ∀ i < 3, dotBit.owns (dotBit.seqBase ||| i) := by decide
    simpa [scopedCalls] using ⟨howns 0 (by decide), howns 2 (by decide)⟩

/-- A row recorded under two scopes of a block: the entry of the lower scope is replayed last, and
its pre-image is left although the other one was recorded first. -/
theorem recordUndo_two_scopes :
    ∃ rows undoSeq, recordUndo [⟨7, .object, .keyMutation .domain "stats_chain" [1] none⟩,
        ⟨7, .dotBit, .keyMutation .domain "stats_chain" [1] (some [3])⟩] = .ok (rows, undoSeq) ∧
      (rollbackViaUndoLog (empty.write (rows.map UndoRow.op)) 6).1.get .statsChain [1] = some [3] :=
  ⟨_, _, rfl, by decide +kernel⟩

end Ckbadger.Sync
