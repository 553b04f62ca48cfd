/-
Ckbadger.Sync.UndoSeq — the undo sequence counter of one committed batch.

Every writer of a batch draws its sequence numbers for a block from one shared
counter, whatever its scope. Two rows recorded in a batch therefore never share
a key of the log, so no pre-image overwrites another (`Drawn.keys_pairwise`).
-/
import Ckbadger.Store.UndoLog
import Ckbadger.Lib.Fallible

namespace Ckbadger.Sync

open Lib Store List

variable {undoSeq undoSeq' : UndoSeqMap} {block : Int} {scope : UndoSeqScope} {seq : Nat}

/-- The per-block counters of a batch; a block that is absent is at zero. -/
abbrev UndoSeqMap := Std.ExtTreeMap Int Nat

/-- The assertion `next_undo_seq` makes about the block's counter failed. -/
structure UndoSeqOverflow where
  block : Int
  scope : UndoSeqScope
  localSeq : Nat
  deriving DecidableEq

/-- Draws the next sequence number of a block for a scope. -/
def nextUndoSeq (undoSeq : UndoSeqMap) (block : Int) (scope : UndoSeqScope) :
    Except UndoSeqOverflow (Nat × UndoSeqMap) :=
  let localSeq := undoSeq.getD block 0
  if localSeq ≤ undoSeqLocalMax then
    .ok (scope.seqBase ||| localSeq, undoSeq.insert block (localSeq + 1))
  else
    .error ⟨block, scope, localSeq⟩

/-- One row of the log as a writer records it. -/
structure UndoRow where
  block : Int
  seq : Nat
  entry : UndoLogEntry
  deriving DecidableEq

namespace UndoRow

/-- The row's key. -/
def key (row : UndoRow) : Bytes := encodeReorgUndoLogKey row.block row.seq

variable [Codec UndoLogEntry]

/-- The put of `put_reorg_undo_log_by_block`. -/
def op (row : UndoRow) : WriteOp Cf :=
  .put .reorgUndoLogByBlock row.key (Codec.serialize row.entry)

end UndoRow

/-! ## Rows drawn from a counter -/

/-- The counter part of a sequence number. -/
def localSeqOf (seq : Nat) : Nat := seq % 2 ^ undoSeqScopeShift

theorem localSeqOf_seqBase_or (scope : UndoSeqScope) {n : Nat} (h : n ≤ undoSeqLocalMax) :
    localSeqOf (scope.seqBase ||| n) = n := by
  rw [localSeqOf, scope.seqBase_or h]
  simp only [undoSeqLocalMax, undoSeqScopeShift] at h ⊢
  omega

theorem nextUndoSeq_eq (h : nextUndoSeq undoSeq block scope = .ok (seq, undoSeq')) :
    seq = scope.seqBase ||| undoSeq.getD block 0 ∧
      undoSeq' = undoSeq.insert block (undoSeq.getD block 0 + 1) := by
  simp only [nextUndoSeq] at h
  split at h
  · obtain ⟨hseq, hmap⟩ := Prod.mk.inj (Except.ok.inj h)
    exact ⟨hseq.symm, hmap.symm⟩
  · cases h

/-- A drawn number belongs to the scope it was drawn for, and to no other. -/
theorem nextUndoSeq_owns (h : nextUndoSeq undoSeq block scope = .ok (seq, undoSeq'))
    (other : UndoSeqScope) : other.owns seq = decide (scope = other) := by
  have hseq := (nextUndoSeq_eq h).1
  simp only [nextUndoSeq] at h
  split at h
  · rename_i hmax
    rw [hseq, UndoSeqScope.owns_seqBase_or _ _ hmax]
  · cases h

/-- The rows a batch has recorded so far, given the state of its counter: every row's number was
drawn for its block, and none was drawn twice. -/
structure Drawn (undoSeq : UndoSeqMap) (rows : List UndoRow) : Prop where
  below : ∀ row ∈ rows, row.seq < 2 ^ 64 ∧ localSeqOf row.seq < undoSeq.getD row.block 0
  distinct : rows.Pairwise fun a b => a.block = b.block → localSeqOf a.seq ≠ localSeqOf b.seq

theorem Drawn.nil : Drawn ∅ [] := ⟨by simp, List.Pairwise.nil⟩

/-- Recording one more row under a freshly drawn number. -/
theorem Drawn.snoc {rows : List UndoRow} (h : Drawn undoSeq rows)
    (hnext : nextUndoSeq undoSeq block scope = .ok (seq, undoSeq')) (entry : UndoLogEntry) :
    Drawn undoSeq' (rows ++ [⟨block, seq, entry⟩]) := by
  simp only [nextUndoSeq] at hnext
  split at hnext
  · rename_i hmax
    cases hnext
    have hcount : ∀ b, undoSeq.getD b 0
        ≤ (undoSeq.insert block (undoSeq.getD block 0 + 1)).getD b 0 := by
      intro b
      rw [Std.ExtTreeMap.getD_insert]
      split
      · rename_i heq
        rw [compare_eq_iff_eq.mp heq]
        omega
      · exact le_rfl
    constructor
    · intro row hrow
      rcases mem_append.mp hrow with hrow | hrow
      · obtain ⟨hlt, hlocal⟩ := h.below row hrow
        exact ⟨hlt, lt_of_lt_of_le hlocal (hcount _)⟩
      · rw [mem_singleton] at hrow
        subst hrow
        exact ⟨scope.seqBase_or_lt hmax, by simp [localSeqOf_seqBase_or scope hmax]⟩
    · rw [pairwise_append]
      refine ⟨h.distinct, pairwise_singleton _ _, fun a ha b hb heq => ?_⟩
      rw [mem_singleton] at hb
      subst hb
      have hlocal := (h.below a ha).2
      simp only at heq
      rw [heq] at hlocal
      rw [localSeqOf_seqBase_or scope hmax]
      omega
  · cases hnext

theorem Drawn.keys_pairwise {rows : List UndoRow} (h : Drawn undoSeq rows)
    (hblocks : ∀ row ∈ rows, FitsSigned 8 row.block) :
    rows.Pairwise fun a b => a.key ≠ b.key := by
  refine h.distinct.imp_of_mem fun {a b} ha hb hne hkey => ?_
  have hdec := congrArg decodeReorgUndoLogKey hkey
  rw [UndoRow.key, UndoRow.key,
    decode_encodeReorgUndoLogKey (hblocks a ha) (h.below a ha).1,
    decode_encodeReorgUndoLogKey (hblocks b hb) (h.below b hb).1] at hdec
  obtain ⟨hblock, hseq⟩ := Prod.mk.inj hdec
  exact hne hblock (by rw [hseq])

/-! ## Committing recorded rows -/

section Commit

variable [Codec UndoLogEntry] {rows : List UndoRow}

@[simp] theorem UndoRow.effect_op (row : UndoRow) (cf : Cf) (key : Bytes) :
    row.op.effect cf key
      = if .reorgUndoLogByBlock = cf ∧ row.key = key then some (some (Codec.serialize row.entry))
        else none := rfl

/-- Recording rows writes nothing outside their own keys of the log. -/
theorem rowAfter_rows_of_ne {cf : Cf} {key : Bytes} (v : Option Bytes)
    (h : cf = .reorgUndoLogByBlock → ∀ row ∈ rows, row.key ≠ key) :
    rowAfter cf key v (rows.map UndoRow.op) = v := by
  refine rowAfter_of_effect_none fun op hop => ?_
  obtain ⟨row, hrow, rfl⟩ := mem_map.mp hop
  rw [UndoRow.effect_op, if_neg]
  rintro ⟨rfl, hkey⟩
  exact h rfl row hrow hkey

/-- A row present after recording was present before or is one of the recorded rows. -/
theorem rowAfter_rows_cases {key value : Bytes} {v : Option Bytes}
    (h : rowAfter .reorgUndoLogByBlock key v (rows.map UndoRow.op) = some value) :
    v = some value ∨ ∃ row ∈ rows, row.key = key ∧ value = Codec.serialize row.entry := by
  induction rows generalizing v with
  | nil => exact .inl h
  | cons row rows ih =>
    rw [map_cons, rowAfter_cons, UndoRow.effect_op] at h
    rcases ih h with hv | ⟨row', hrow', heq⟩
    · by_cases hk : row.key = key
      · rw [if_pos ⟨rfl, hk⟩] at hv
        exact .inr ⟨row, mem_cons_self, hk, (Option.some.inj hv).symm⟩
      · rw [if_neg (fun h => hk h.2)] at hv
        exact .inl hv
    · exact .inr ⟨row', mem_cons_of_mem _ hrow', heq⟩

/-- A recorded row is stored as recorded: no later row of the batch replaces it. -/
theorem rowAfter_rows_of_mem (hdistinct : rows.Pairwise fun a b => a.key ≠ b.key) {row : UndoRow}
    (hrow : row ∈ rows) (v : Option Bytes) :
    rowAfter .reorgUndoLogByBlock row.key v (rows.map UndoRow.op)
      = some (Codec.serialize row.entry) := by
  obtain ⟨before, after, rfl⟩ := append_of_mem hrow
  have hafter := (pairwise_cons.mp (pairwise_append.mp hdistinct).2.1).1
  rw [map_append, map_cons, rowAfter_append, rowAfter_cons,
    rowAfter_rows_of_ne _ fun _ r hr => (hafter r hr).symm]
  simp

end Commit

end Ckbadger.Sync
