/-
Ckbadger.Lib.DurableLog — a database as the log of its write batches.

A write appends a batch to the log; a synced write also moves the durable mark to its
end. After a host crash the database holds some prefix of the log that reaches the mark.
A property of a database that must hold after every crash is a property of every prefix
the crash can leave.
-/
import Mathlib.Data.List.Infix

namespace Ckbadger.Lib

/-- The batches a database was given, oldest first; a crash cannot lose the first `synced`. -/
structure DurableLog (B : Type) where
  batches : List B
  synced : Nat
  synced_le : synced ≤ batches.length

namespace DurableLog

variable {B : Type} {d d' : DurableLog B} {P : List B → Prop}

def empty : DurableLog B := ⟨[], 0, le_rfl⟩

/-- A write that reaches the log but not yet the disk. -/
def write (d : DurableLog B) (b : B) : DurableLog B :=
  ⟨d.batches ++ [b], d.synced, d.synced_le.trans (by simp)⟩

/-- Makes everything written so far durable. -/
def sync (d : DurableLog B) : DurableLog B := ⟨d.batches, d.batches.length, le_rfl⟩

/-- What a host crash may leave of a database: a prefix of its batches with the durable ones. -/
structure Recovers (d d' : DurableLog B) : Prop where
  kept : d'.batches <+: d.batches
  synced : d'.synced = d.synced

/-- The batches that no crash can lose. -/
def durable (d : DurableLog B) : List B := d.batches.take d.synced

@[simp] theorem batches_write (b : B) : (d.write b).batches = d.batches ++ [b] := rfl

@[simp] theorem durable_write (b : B) : (d.write b).durable = d.durable :=
  List.take_append_of_le_length d.synced_le

@[simp] theorem durable_sync : d.sync.durable = d.batches := List.take_length

theorem durable_isPrefix (d : DurableLog B) : d.durable <+: d.batches := List.take_prefix _ _

theorem Recovers.durable_eq (h : Recovers d d') : d'.durable = d.durable := by
  obtain ⟨rest, hrest⟩ := h.kept
  have hle : d.synced ≤ d'.batches.length := h.synced ▸ d'.synced_le
  rw [durable, durable, h.synced, ← hrest, List.take_append_of_le_length hle]

/-- A property of every state the database has been in. -/
def AtEveryPrefix (P : List B → Prop) (d : DurableLog B) : Prop := ∀ p, p <+: d.batches → P p

theorem AtEveryPrefix.now (h : AtEveryPrefix P d) : P d.batches := h _ List.prefix_rfl

theorem AtEveryPrefix.empty (h : P []) : AtEveryPrefix P (empty : DurableLog B) := by
  intro p hp
  rw [List.prefix_nil.mp hp]
  exact h

theorem AtEveryPrefix.write {b : B} (h : AtEveryPrefix P d) (hb : P (d.batches ++ [b])) :
    AtEveryPrefix P (d.write b) := by
  intro p hp
  rcases List.prefix_concat_iff.mp (by simpa using hp) with rfl | hp
  · exact hb
  · exact h p hp

/-- What held of every state before a crash holds of every state the crash leaves. -/
theorem AtEveryPrefix.recovers (h : AtEveryPrefix P d) (hcrash : Recovers d d') :
    AtEveryPrefix P d' := fun p hp => h p (hp.trans hcrash.kept)

theorem AtEveryPrefix.imp {Q : List B → Prop} (h : AtEveryPrefix P d) (hPQ : ∀ p, P p → Q p) :
    AtEveryPrefix Q d := fun p hp => hPQ p (h p hp)

end DurableLog

end Ckbadger.Lib
