/-
Ckbadger.Api.PoolMirror — pool transactions in the order they are built.

The mirror resolves an unconfirmed spend from its parent's outputs, so it builds parents
first. It sweeps over the hashes that are left, in ascending order, and takes those whose
parents in the pool it has taken; when a sweep takes none it appends what is left.

A hash is in `placed` when it is in `ordered`, so one list is kept for both.
-/
import Ckbadger.Lib.FixedHash
import Ckbadger.Lib.Text
import Mathlib.Data.Set.Finite.List

namespace Ckbadger.Api

open Lib Std List

/-- A body, as far as the order reads it: the hashes its inputs name, as text. -/
structure RpcTransactionView where
  inputs : List Text

abbrev Bodies := ExtTreeMap Hash32 RpcTransactionView

def parseParent (txHash : Text) : Option Hash32 :=
  let digits := if ['0', 'x'] <+: txHash then txHash.drop 2 else txHash
  (hexDecode? digits).bind Hash32.ofBytes?

variable (bodies : Bodies)

def parentsReady (ordered : List Hash32) (tx : RpcTransactionView) : Bool :=
  tx.inputs.all fun input =>
    match parseParent input with
    | some parent => !bodies.contains parent || ordered.contains parent
    | none => true

/-- One `retain` pass: what it keeps, and the order it has extended. -/
def retainPass : List Hash32 → List Hash32 → List Hash32 × List Hash32
  | [], ordered => ([], ordered)
  | hash :: rest, ordered =>
    match bodies[hash]? with
    | none => retainPass rest ordered
    | some tx =>
      if parentsReady bodies ordered tx then retainPass rest (ordered ++ [hash])
      else
        let (kept, ordered) := retainPass rest ordered
        (hash :: kept, ordered)

theorem length_retainPass (remaining ordered : List Hash32) :
    let (kept, ordered') := retainPass bodies remaining ordered
    kept.length + ordered'.length ≤ remaining.length + ordered.length ∧
      ordered.length ≤ ordered'.length := by
  fun_induction retainPass bodies remaining ordered <;> simp_all <;> omega

/-- The loop: it ends when nothing remains or a pass has not progressed. -/
def sweep (remaining ordered : List Hash32) : List Hash32 :=
  let pass := retainPass bodies remaining ordered
  if pass.1 = [] ∨ pass.2.length = ordered.length then pass.2 ++ pass.1
  else sweep pass.1 pass.2
termination_by remaining.length
decreasing_by
  have hlength := length_retainPass bodies remaining ordered
  simp only [pass] at *
  omega

def topologicalOrder : List Hash32 := sweep bodies bodies.keys []

/-! ## Parents first -/

/-- One transaction of the pool spends an output of another. -/
def Parent (parent hash : Hash32) : Prop :=
  parent ∈ bodies ∧
    ∃ tx, bodies[hash]? = some tx ∧ ∃ input ∈ tx.inputs, parseParent input = some parent

def Acyclic : Prop := ∀ hash, ¬Relation.TransGen (Parent bodies) hash hash

def ParentsFirst (order : List Hash32) : Prop :=
  ∀ hash ∈ order, ∀ parent, Parent bodies parent hash → [parent, hash].Sublist order

variable {bodies} {remaining ordered : List Hash32} {hash : Hash32} {tx : RpcTransactionView}

theorem parentsReady_iff (htx : bodies[hash]? = some tx) :
    parentsReady bodies ordered tx ↔ ∀ parent, Parent bodies parent hash → parent ∈ ordered := by
  simp only [parentsReady, all_eq_true, Parent, htx]
  constructor
  · rintro h parent ⟨hmem, tx', htx', input, hinput, hparent⟩
    cases htx'
    simpa [hparent, ExtTreeMap.contains_iff_mem.mpr hmem] using h input hinput
  · intro h input hinput
    cases hparent : parseParent input with
    | none => rfl
    | some parent => grind

theorem ParentsFirst.concat (h : ParentsFirst bodies ordered)
    (hready : ∀ parent, Parent bodies parent hash → parent ∈ ordered) :
    ParentsFirst bodies (ordered ++ [hash]) := by
  intro a ha parent hparent
  rcases mem_append.mp ha with hold | hnew
  · exact (h a hold parent hparent).trans (sublist_append_left ..)
  · obtain rfl := mem_singleton.mp hnew
    exact (singleton_sublist.mpr (hready parent hparent)).append (.refl [a])

/-- A pass moves hashes from one list to the other, parents first; when it moves none,
every hash waits for a parent that has not been taken. -/
theorem retainPass_spec (hmem : ∀ h ∈ remaining, h ∈ bodies) :
    let pass := retainPass bodies remaining ordered
    (pass.1 ++ pass.2).Perm (remaining ++ ordered) ∧
      (ParentsFirst bodies ordered → ParentsFirst bodies pass.2) ∧
      (pass.2.length = ordered.length →
        ∀ h ∈ remaining, ∃ parent, Parent bodies parent h ∧ parent ∉ ordered) := by
  fun_induction retainPass bodies remaining ordered with
  | case1 => simp
  | case2 hash rest ordered hnone =>
    have hin := hmem hash mem_cons_self
    simp [ExtTreeMap.mem_iff_isSome_getElem?, hnone] at hin
  | case3 hash rest ordered tx htx hready ih =>
    obtain ⟨hperm, hfirst, -⟩ := ih fun h hh => hmem h (mem_cons_of_mem _ hh)
    refine ⟨hperm.trans ?_, fun h => hfirst (h.concat ((parentsReady_iff htx).mp hready)), ?_⟩
    · rw [← append_assoc]
      exact perm_append_singleton ..
    · intro hlength
      have := length_retainPass bodies rest (ordered ++ [hash])
      simp at this
      omega
  | case4 hash rest ordered tx htx hready kept ordered' heq ih =>
    obtain ⟨hperm, hfirst, hstuck⟩ := ih fun h hh => hmem h (mem_cons_of_mem _ hh)
    rw [heq] at hperm hfirst hstuck
    refine ⟨hperm.cons hash, hfirst, fun hlength => forall_mem_cons.mpr ⟨?_, hstuck hlength⟩⟩
    rw [parentsReady_iff htx] at hready
    push Not at hready
    exact hready

/-- Some hash of a finite set without cycles has no parent in it. -/
theorem Acyclic.exists_root (hacyclic : Acyclic bodies) (hne : remaining ≠ []) :
    ∃ h ∈ remaining, ∀ parent, Parent bodies parent h → parent ∉ remaining := by
  let later (a b : {h // h ∈ remaining}) := Relation.TransGen (Parent bodies) a.1 b.1
  have : IsTrans _ later := ⟨fun _ _ _ => .trans⟩
  have := (finite_toSet remaining).to_subtype
  have : Std.Irrefl later := ⟨fun a => hacyclic a.1⟩
  obtain ⟨h, -, hmin⟩ := (Finite.wellFounded_of_trans_of_irrefl later).has_min Set.univ
    ⟨⟨_, head_mem hne⟩, trivial⟩
  exact ⟨h.1, h.2, fun parent hparent hmem => hmin ⟨parent, hmem⟩ trivial (.single hparent)⟩

theorem mem_of_perm_keys (hkeys : (remaining ++ ordered).Perm bodies.keys) :
    ∀ h ∈ remaining, h ∈ bodies :=
  fun _ hh => ExtTreeMap.mem_keys.mp (hkeys.subset (mem_append_left _ hh))

theorem sweep_spec (hkeys : (remaining ++ ordered).Perm bodies.keys) :
    (sweep bodies remaining ordered).Perm bodies.keys ∧
      (Acyclic bodies → ParentsFirst bodies ordered →
        ParentsFirst bodies (sweep bodies remaining ordered)) := by
  fun_induction sweep bodies remaining ordered with
  | case1 remaining ordered pass hstop =>
    obtain ⟨hperm, hfirst, hstuck⟩ := retainPass_spec (mem_of_perm_keys hkeys)
    refine ⟨(perm_append_comm.trans hperm).trans hkeys, fun hacyclic h => ?_⟩
    by_cases hkept : pass.1 = []
    · rw [hkept, append_nil]
      exact hfirst h
    · -- no progress: every hash that remains has a parent that remains
      have hne : remaining ≠ [] := by
        rintro rfl
        exact hkept rfl
      obtain ⟨hash, hhash, hroot⟩ := hacyclic.exists_root hne
      obtain ⟨parent, hparent, hnot⟩ := hstuck (hstop.resolve_left hkept) hash hhash
      have hin := hkeys.symm.subset (ExtTreeMap.mem_keys.mpr hparent.1)
      exact absurd ((mem_append.mp hin).resolve_right hnot) (hroot parent hparent)
  | case2 remaining ordered pass hgo ih =>
    obtain ⟨hperm, hfirst, -⟩ := retainPass_spec (mem_of_perm_keys hkeys)
    obtain ⟨hall, hparents⟩ := ih (hperm.trans hkeys)
    exact ⟨hall, fun hacyclic h => hparents hacyclic (hfirst h)⟩

/-- **Pool transactions are built parents first**: the order is a permutation of the pool,
and if no transaction descends from itself each comes after its parents. -/
theorem topologicalOrder_parentsFirst (bodies : Bodies) :
    (topologicalOrder bodies).Perm bodies.keys ∧
      (Acyclic bodies → ParentsFirst bodies (topologicalOrder bodies)) := by
  obtain ⟨hperm, hfirst⟩ := @sweep_spec bodies bodies.keys [] (by simp)
  exact ⟨hperm, fun hacyclic => hfirst hacyclic (by simp [ParentsFirst])⟩

/-- A pool in which transaction 1 spends an output of transaction 2. -/
def twoBodies : Bodies :=
  ((∅ : Bodies).insert (.ofNat 2) ⟨[]⟩).insert (.ofNat 1)
    ⟨['0' :: 'x' :: hexEncode (Hash32.ofNat 2).bytes]⟩

theorem parent_twoBodies {parent hash : Hash32} :
    Parent twoBodies parent hash ↔ parent = .ofNat 2 ∧ hash = .ofNat 1 := by
  have hread : parseParent ('0' :: 'x' :: hexEncode (Hash32.ofNat 2).bytes) = some (.ofNat 2) := by
    decide +kernel
  simp only [Parent, twoBodies, ExtTreeMap.getElem?_insert, ExtTreeMap.mem_insert]
  constructor
  · rintro ⟨-, tx, htx, input, hinput, hparent⟩
    grind
  · rintro ⟨rfl, rfl⟩
    exact ⟨by simp, _, by simp, _, mem_singleton.mpr rfl, hread⟩

/-- The spending transaction has the lower hash, and comes second. -/
theorem topologicalOrder_parentsFirst_two :
    Acyclic twoBodies ∧ topologicalOrder twoBodies = [.ofNat 2, .ofNat 1] := by
  have hacyclic : Acyclic twoBodies := by
    intro hash hcycle
    obtain ⟨_, hfirst, -⟩ := Relation.TransGen.head'_iff.mp hcycle
    obtain ⟨_, -, hlast⟩ := Relation.TransGen.tail'_iff.mp hcycle
    have hboth := (parent_twoBodies.mp hfirst).1.symm.trans (parent_twoBodies.mp hlast).2
    exact absurd hboth (by decide +kernel)
  obtain ⟨hperm, hfirst⟩ := topologicalOrder_parentsFirst twoBodies
  have hkeys : twoBodies.keys = [.ofNat 1, .ofNat 2] := by decide +kernel
  rw [hkeys] at hperm
  have hsublist := hfirst hacyclic (.ofNat 1) (hperm.mem_iff.mpr (by simp)) _
    (parent_twoBodies.mpr ⟨rfl, rfl⟩)
  exact ⟨hacyclic, (hsublist.eq_of_length hperm.length_eq.symm).symm⟩

end Ckbadger.Api
