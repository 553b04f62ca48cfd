/-
Ckbadger.Store.Keys — the keys of the reorg undo log and the scopes of its
sequence numbers.

An undo key is the block number (i64, big-endian two's complement) followed by a
sequence number (u64, big-endian), so the log iterates in the order
`(block, seq)` on non-negative blocks. The top 16 bits of the sequence number
name the writer family that recorded the entry.
-/
import Ckbadger.Lib.OrderedStore

namespace Ckbadger.Store

open Lib

/-- A block number as a big-endian key. -/
def encodeBlockNum (block : Int) : Bytes := intToBe 8 block

/-- `REORG_UNDO_LOG_KEY_SIZE`. -/
def reorgUndoLogKeySize : Nat := 16

/-- The undo log's key: block number, then sequence number. -/
def encodeReorgUndoLogKey (block : Int) (seq : Nat) : Bytes :=
  intToBe 8 block ++ beBytes 8 seq

/-- The block and sequence numbers of a 16-byte undo key. -/
def decodeReorgUndoLogKey (key : Bytes) : Int × Nat :=
  (intOfBe (key.take 8), beNat (key.drop 8))

/-! ## Scopes -/

/-- `UNDO_SEQ_SCOPE_SHIFT`: bit position of a sequence number's scope. -/
def undoSeqScopeShift : Nat := 48

/-- `UNDO_SEQ_LOCAL_MAX`: largest per-block counter a sequence number can carry. -/
def undoSeqLocalMax : Nat := 2 ^ undoSeqScopeShift - 1

/-- The writer family an undo entry belongs to. -/
inductive UndoSeqScope where
  | txContext | dotBit | object | entityStats | derived
  deriving DecidableEq

namespace UndoSeqScope

/-- The scope's discriminant. -/
def code : UndoSeqScope → Nat
  | txContext => 0x0001
  | dotBit => 0x0002
  | object => 0x0003
  | entityStats => 0x0004
  | derived => 0x0005

/-- The first sequence number of the scope. -/
def seqBase (scope : UndoSeqScope) : Nat := scope.code <<< undoSeqScopeShift

/-- Whether `seq` was recorded under the scope. -/
def owns (scope : UndoSeqScope) (seq : Nat) : Bool := seq >>> undoSeqScopeShift == scope.code

end UndoSeqScope

/-! ## Layout lemmas -/

/-- A block number the key layout sorts: a non-negative i64. -/
def IsBlock (block : Int) : Prop := 0 ≤ block ∧ block < 2 ^ 63

instance (block : Int) : Decidable (IsBlock block) := inferInstanceAs (Decidable (_ ∧ _))

theorem IsBlock.fitsSigned {block : Int} (h : IsBlock block) : FitsSigned 8 block := by
  obtain ⟨h0, h1⟩ := h
  constructor <;> norm_num at h1 ⊢ <;> omega

private theorem intToBe_of_isBlock {block : Int} (h : IsBlock block) :
    intToBe 8 block = beBytes 8 block.toNat := by
  obtain ⟨h0, h1⟩ := h
  rw [intToBe, wrapUnsigned_of_nonneg h0 (by norm_num at h1 ⊢; omega)]

@[simp] theorem length_encodeReorgUndoLogKey (block : Int) (seq : Nat) :
    (encodeReorgUndoLogKey block seq).length = reorgUndoLogKeySize := by
  simp [encodeReorgUndoLogKey, reorgUndoLogKeySize]

theorem decode_encodeReorgUndoLogKey {block : Int} {seq : Nat} (hb : FitsSigned 8 block)
    (hs : seq < 2 ^ 64) :
    decodeReorgUndoLogKey (encodeReorgUndoLogKey block seq) = (block, seq) := by
  have htake : (encodeReorgUndoLogKey block seq).take 8 = intToBe 8 block := by
    rw [encodeReorgUndoLogKey, List.take_left' (by simp)]
  have hdrop : (encodeReorgUndoLogKey block seq).drop 8 = beBytes 8 seq := by
    rw [encodeReorgUndoLogKey, List.drop_left' (by simp)]
  rw [decodeReorgUndoLogKey, htake, hdrop, intOfBe_intToBe hb,
    beNat_beBytes_of_lt (by norm_num at hs ⊢; omega)]

theorem encodeReorgUndoLogKey_block {b₁ b₂ : Int} {s₁ s₂ : Nat} (h₁ : FitsSigned 8 b₁)
    (h₂ : FitsSigned 8 b₂) (h : encodeReorgUndoLogKey b₁ s₁ = encodeReorgUndoLogKey b₂ s₂) :
    b₁ = b₂ := by
  have hhead : intToBe 8 b₁ = intToBe 8 b₂ := (List.append_inj h (by simp)).1
  rw [← intOfBe_intToBe h₁, hhead, intOfBe_intToBe h₂]

/-- The undo log iterates by block, then by sequence number. -/
theorem compare_encodeReorgUndoLogKey {b₁ b₂ : Int} {s₁ s₂ : Nat} (hb₁ : IsBlock b₁)
    (hb₂ : IsBlock b₂) (hs₁ : s₁ < 2 ^ 64) (hs₂ : s₂ < 2 ^ 64) :
    compare (encodeReorgUndoLogKey b₁ s₁) (encodeReorgUndoLogKey b₂ s₂)
      = (compare b₁ b₂).then (compare s₁ s₂) := by
  have hnat : ∀ {b : Int}, IsBlock b → b.toNat < 256 ^ 8 := by
    intro b h
    obtain ⟨h0, h1⟩ := h
    norm_num at h1 ⊢
    omega
  rw [encodeReorgUndoLogKey, encodeReorgUndoLogKey, intToBe_of_isBlock hb₁,
    intToBe_of_isBlock hb₂, compare_beBytes_append 8 (hnat hb₁) (hnat hb₂),
    compare_beBytes 8 (by norm_num at hs₁ ⊢; omega) (by norm_num at hs₂ ⊢; omega)]
  congr 1
  obtain ⟨n, rfl⟩ := Int.eq_ofNat_of_zero_le hb₁.1
  obtain ⟨m, rfl⟩ := Int.eq_ofNat_of_zero_le hb₂.1
  simp [compare, compareOfLessAndEq]

/-- A scan from the block after the target reaches every later row. -/
theorem encodeBlockNum_le_key {rollbackTo block : Int} {seq : Nat} (hR : -1 ≤ rollbackTo)
    (hblock : IsBlock block) (h : rollbackTo < block) :
    (compare (encodeBlockNum (rollbackTo + 1)) (encodeReorgUndoLogKey block seq)).isLE := by
  have hstart : IsBlock (rollbackTo + 1) := ⟨by omega, by have := hblock.2; omega⟩
  have hlt : ∀ {b : Int}, IsBlock b → b.toNat < 256 ^ 8 := by
    intro b hb
    have := hb.2
    norm_num at this ⊢
    omega
  have hle : (rollbackTo + 1).toNat ≤ block.toNat := by omega
  have hcmp := compare_beBytes_append 8 (hlt hstart) (hlt hblock) [] (beBytes 8 seq)
  rw [List.append_nil] at hcmp
  rw [encodeBlockNum, encodeReorgUndoLogKey, intToBe_of_isBlock hstart,
    intToBe_of_isBlock hblock, hcmp]
  rcases Nat.lt_or_eq_of_le hle with hlt | heq
  · rw [Nat.compare_eq_lt.mpr hlt]
    rfl
  · rw [Nat.compare_eq_eq.mpr heq]
    rfl

/-! ## Scope lemmas -/

namespace UndoSeqScope

theorem code_lt (scope : UndoSeqScope) : scope.code < 2 ^ 16 := by
  cases scope <;> decide

theorem code_injective : Function.Injective code := by
  intro a b h
  cases a <;> cases b <;> first | rfl | exact absurd h (by decide)

/-- Below the counter's limit, the scope bits and the counter do not overlap. -/
theorem seqBase_or (scope : UndoSeqScope) {n : Nat} (h : n ≤ undoSeqLocalMax) :
    scope.seqBase ||| n = scope.code * 2 ^ undoSeqScopeShift + n := by
  have hlt : n < 2 ^ undoSeqScopeShift := by
    simp only [undoSeqLocalMax, undoSeqScopeShift] at h ⊢; omega
  rw [seqBase, ← Nat.shiftLeft_add_eq_or_of_lt hlt, Nat.shiftLeft_eq]

theorem seqBase_or_lt (scope : UndoSeqScope) {n : Nat} (h : n ≤ undoSeqLocalMax) :
    scope.seqBase ||| n < 2 ^ 64 := by
  have hc := scope.code_lt
  rw [seqBase_or scope h]
  simp only [undoSeqLocalMax, undoSeqScopeShift] at h ⊢
  omega

/-- A sequence number is owned by the scope it was composed for, and by no other. -/
theorem owns_seqBase_or (scope other : UndoSeqScope) {n : Nat} (h : n ≤ undoSeqLocalMax) :
    other.owns (scope.seqBase ||| n) = decide (scope = other) := by
  have hdiv : (scope.code * 2 ^ undoSeqScopeShift + n) / 2 ^ undoSeqScopeShift = scope.code := by
    simp only [undoSeqLocalMax, undoSeqScopeShift] at h ⊢
    omega
  rw [owns, seqBase_or scope h, Nat.shiftRight_eq_div_pow, hdiv]
  by_cases heq : scope = other
  · simp [heq]
  · have : scope.code ≠ other.code := fun hc => heq (code_injective hc)
    simp [heq, this]

end UndoSeqScope

end Ckbadger.Store
