/-
Ckbadger.Derive.CollectionActivity — `object_collection_activity_count`: the
number of activity rows per padded collection id.

Each `object_collection_activities` row contributes `[1]` to the key made of its
first 32 bytes; the live writer reports every row it writes with its block.
-/
import Ckbadger.Derive.SumAggregate

namespace Ckbadger.Derive

open Lib Store Std

/-- `OBJECT_COLLECTION_ACTIVITY_KEY_SIZE`. -/
def objectCollectionActivityKeySize : Nat := 108

/-- `pad_id_32`; the assertion on the length stops the process. -/
def padId32 (id : Bytes) : Except String Bytes :=
  if id.length ≤ 32 then .ok (id ++ List.replicate (32 - id.length) 0)
  else .error ("pad_id_32: ID exceeds 32 bytes (got " ++ toString id.length ++
    "), which would cause key collisions from truncation")

/-- What one activity row contributes. -/
def collectionActivityRow (_ : DomainStore) (key _ : Bytes) : Except String RowFold :=
  if key.length ≠ objectCollectionActivityKeySize then
    .error ("object_collection_activities key has " ++ toString key.length ++ " bytes: 0x" ++
      bytesToHex key)
  else .ok (.contributes [(key.take 32, [1])])

/-- The contribution of one reported row to the deltas of its block. -/
def addCollectionActivity (out : BlockDeltas) (row : Bytes × Int) : Except String BlockDeltas := do
  let key ← padId32 row.1
  let block ← addDelta (out.getD row.2 ∅) key [1]
  return out.insert row.2 block

def checkCollectionActivityRow (key : Bytes) (value : List Int) : Except String Unit :=
  if key.length ≠ 32 then
    .error ("collection key has " ++ toString key.length ++ " bytes")
  else if value.length = 1 ∧ 0 < value.headD 0 then .ok ()
  else .error ("expected [activity rows > 0], got " ++ toString value)

/-- The aggregate; a live batch reports its activity rows as collection id and block. -/
def objectCollectionActivityCount : DerivedAggregate (List (Bytes × Int)) where
  id := objectCollectionActivityCountId
  rebuildChunk := rebuildOver .objectCollectionActivities collectionActivityRow
  liveDeltas ctx := ctx.changes.foldlM addCollectionActivity ∅
  checkRow := checkCollectionActivityRow

/-! ## A sum of contributions -/

theorem length_padId32 {id key : Bytes} (h : padId32 id = .ok key) : key.length = 32 := by
  unfold padId32 at h
  split at h
  · cases h
    simp
    omega
  · cases h

theorem wellFormed_count {key : Bytes} (h : key.length = 32) :
    WellFormedContribution (fun _ => 1) (key, [1]) :=
  ⟨rfl, compare_replicate_max (by rw [h]; decide)⟩

theorem collectionActivityRow_wf {s : DomainStore} {k v : Bytes} {cs : List (Bytes × List Int)}
    (h : collectionActivityRow s k v = .ok (.contributes cs)) :
    ∀ c ∈ cs, WellFormedContribution (fun _ => 1) c := by
  unfold collectionActivityRow at h
  split at h
  · cases h
  · rename_i hlen
    cases h
    intro c hc
    rw [List.mem_singleton.mp hc]
    refine wellFormed_count ?_
    rw [List.length_take, not_not.mp hlen]
    rfl

/-- Every delta a batch reports is a count under a 32-byte key. -/
theorem collectionActivityDeltas_wf {changes : List (Bytes × Int)} {deltas : BlockDeltas}
    (h : changes.foldlM addCollectionActivity ∅ = .ok deltas) :
    ∀ e ∈ deltas.entries, WellFormedContribution (fun _ => 1) e.2 := by
  let Counts : BlockDeltas → Prop := fun out =>
    ∀ (block : Int) (map : DeltaMap), out[block]? = some map → WellFormed (fun _ => 1) map
  have hstep : ∀ out change out', change ∈ changes → Counts out →
      addCollectionActivity out change = .ok out' → Counts out' := by
    rintro out ⟨id, block⟩ out' - hout hadd
    obtain ⟨key, hkey, hadd⟩ := bind_eq_ok.mp hadd
    obtain ⟨map, hmap, hadd⟩ := bind_eq_ok.mp hadd
    cases hadd
    have hold : WellFormed (fun _ => 1) (out.getD block ∅) := by
      rw [ExtTreeMap.getD_eq_getD_getElem?]
      cases hblock : out[block]? with
      | none =>
        intro k v hv
        simp at hv
      | some old => exact hout block old hblock
    intro block' map' hmap'
    rw [ExtTreeMap.getElem?_insert] at hmap'
    split at hmap'
    · cases hmap'
      exact addDelta_wf hmap (wellFormed_count (length_padId32 hkey)) hold
    · exact hout block' map' hmap'
  have hempty : Counts ∅ := by
    intro block map hmap
    simp at hmap
  have hwf : Counts deltas := foldlM_invariant Counts hstep hempty h
  intro e he
  obtain ⟨keyed, hkeyed, he⟩ := List.mem_flatMap.mp he
  obtain ⟨c, hc, rfl⟩ := List.mem_map.mp he
  exact hwf keyed.1 keyed.2 (ExtTreeMap.mem_toList_iff_getElem?_eq_some.mp hkeyed) c.1 c.2
    (ExtTreeMap.mem_toList_iff_getElem?_eq_some.mp hc)

/-- The aggregate as a sum of contributions. -/
def collectionActivitySum : SumAggregate (List (Bytes × Int)) where
  toDerivedAggregate := objectCollectionActivityCount
  sourceCf := .objectCollectionActivities
  row := collectionActivityRow
  arity _ := 1
  derived := by decide
  source := by simp [IsSource, derivedCfs]
  row_congr _ := rfl
  row_wf := collectionActivityRow_wf
  rebuild h := h
  live_wf h := collectionActivityDeltas_wf h

/-- A registry with this aggregate alone. -/
def collectionActivityRegistry : Registry (List (Bytes × Int)) where
  aggregates := [collectionActivitySum]
  distinct := List.pairwise_singleton _ _

end Ckbadger.Derive
