/-
Ckbadger.Store.SporeOutpoints — the outpoints recorded for a spore or identity id.

The reverse index writes an id of one to thirty-two bytes as it is and the outpoint
behind it, with nothing in between. The rows of an id that extends another lie among
the shorter id's rows; what tells them apart is the length of the key alone.
-/
import Ckbadger.Lib.FixedHash
import Ckbadger.Lib.PrefixScan
import Ckbadger.Store.DomainStore
import Mathlib.Data.Set.List

namespace Ckbadger.Store

open Lib List

/-! ## Keys -/

/-- A cell, as the index keys can name it: the output index is a non-negative `i16`. -/
structure Outpoint where
  txHash : Hash32
  outputIndex : Int
  nonneg : 0 ≤ outputIndex
  fits : FitsSigned 2 outputIndex

/-- `OUTPOINT_KEY_SIZE`. -/
def outpointKeySize : Nat := 34

def encodeOutpoint (o : Outpoint) : Bytes := o.txHash.bytes ++ intToBe 2 o.outputIndex

def decodeOutpoint (key : Bytes) : Bytes × Int :=
  (key.take 32, intOfBe ((key.drop 32).take 2))

/-- An id of the width the reverse index accepts (`assert_by_id_len`). -/
structure SporeId where
  bytes : Bytes
  pos : 1 ≤ bytes.length
  le : bytes.length ≤ 32

/-- The length of a key whose id has the given length. -/
def sporeOutpointByIdKeyLen (idLen : Nat) : Nat := 1 + idLen + outpointKeySize

def encodeSporeOutpointByIdPrefix (id : SporeId) : Bytes :=
  StatsPrefix.sporeOutpointById.code :: id.bytes

def encodeSporeOutpointByIdKey (id : SporeId) (o : Outpoint) : Bytes :=
  StatsPrefix.sporeOutpointById.code :: id.bytes ++ encodeOutpoint o

def encodeSporeOutpointKey (o : Outpoint) : Bytes :=
  StatsPrefix.sporeOutpoint.code :: encodeOutpoint o

/-- What a batch stages for an outpoint: the id it carries, and the reverse row. -/
def putSporeOutpoint (o : Outpoint) (id : SporeId) : WriteBatch Cf :=
  [.put .statsSpore (encodeSporeOutpointKey o) id.bytes,
   .put .statsSpore (encodeSporeOutpointByIdKey id o) []]

/-- The outpoint is the fixed-width end of the key. -/
def decodeSporeOutpointByIdKey (key : Bytes) : Bytes × Int :=
  decodeOutpoint (key.drop (key.length - outpointKeySize))

/-! ## The listing -/

/-- The loop of `list_spore_outpoints_by_spore_id`: a key of another length belongs to another
id and is passed over. -/
def collectSporeOutpoints (pre : Bytes) (keyLen : Nat) : List (Bytes × Bytes) → List (Bytes × Int)
  | [] => []
  | (key, _) :: rest =>
    if !pre.isPrefixOf key then []
    else if key.length ≠ keyLen then collectSporeOutpoints pre keyLen rest
    else decodeSporeOutpointByIdKey key :: collectSporeOutpoints pre keyLen rest

def listSporeOutpointsBySporeId (s : DomainStore) (id : SporeId) : List (Bytes × Int) :=
  let pre := encodeSporeOutpointByIdPrefix id
  collectSporeOutpoints pre (sporeOutpointByIdKeyLen id.bytes.length)
    ((s.table .statsSpore).scanPrefix pre pre)

/-- `stats_spore` holds the given rows of the reverse index, beside rows that begin with the
byte of another of its key families. -/
structure RecordsOutpoints (s : DomainStore) (rows : Set (SporeId × Outpoint)) : Prop where
  stored : ∀ id o, (id, o) ∈ rows →
    ∃ v, s.get .statsSpore (encodeSporeOutpointByIdKey id o) = some v
  families : ∀ key v, s.get .statsSpore key = some v →
    (∃ id o, (id, o) ∈ rows ∧ key = encodeSporeOutpointByIdKey id o) ∨
    ∃ family : StatsPrefix, family ≠ .sporeOutpointById ∧ family.cf = .statsSpore ∧
      key.head? = some family.code

/-! ## What the listing returns -/

@[simp] theorem length_encodeOutpoint (o : Outpoint) :
    (encodeOutpoint o).length = outpointKeySize := by
  simp [encodeOutpoint, o.txHash.length_eq, outpointKeySize]

@[simp] theorem length_encodeSporeOutpointByIdKey (id : SporeId) (o : Outpoint) :
    (encodeSporeOutpointByIdKey id o).length = sporeOutpointByIdKeyLen id.bytes.length := by
  simp only [encodeSporeOutpointByIdKey, sporeOutpointByIdKeyLen, length_append,
    length_cons, length_encodeOutpoint]
  omega

theorem decodeOutpoint_encodeOutpoint (o : Outpoint) :
    decodeOutpoint (encodeOutpoint o) = (o.txHash.bytes, o.outputIndex) := by
  have hlen := o.txHash.length_eq
  simp [decodeOutpoint, encodeOutpoint, ← hlen, take_of_length_le, intOfBe_intToBe o.fits]

theorem encodeOutpoint_injective : Function.Injective encodeOutpoint := by
  intro o o' h
  have hpair := congrArg decodeOutpoint h
  rw [decodeOutpoint_encodeOutpoint, decodeOutpoint_encodeOutpoint] at hpair
  cases o
  cases o'
  simpa [Hash32.ext_iff] using hpair

theorem decodeSporeOutpointByIdKey_encode (id : SporeId) (o : Outpoint) :
    decodeSporeOutpointByIdKey (encodeSporeOutpointByIdKey id o)
      = (o.txHash.bytes, o.outputIndex) := by
  rw [decodeSporeOutpointByIdKey, encodeSporeOutpointByIdKey, length_append,
    length_encodeOutpoint, Nat.add_sub_cancel, drop_left, decodeOutpoint_encodeOutpoint]

/-- A key of the right length under an id's prefix is a key of that very id. -/
theorem eq_of_prefix_of_length {id id' : SporeId} {o : Outpoint}
    (hpre : encodeSporeOutpointByIdPrefix id <+: encodeSporeOutpointByIdKey id' o)
    (hlen : (encodeSporeOutpointByIdKey id' o).length
      = sporeOutpointByIdKeyLen id.bytes.length) : id' = id := by
  have hwidth : id.bytes.length = id'.bytes.length := by
    rw [length_encodeSporeOutpointByIdKey, sporeOutpointByIdKeyLen, sporeOutpointByIdKeyLen] at hlen
    omega
  obtain ⟨rest, hrest⟩ := hpre
  rw [encodeSporeOutpointByIdPrefix, encodeSporeOutpointByIdKey, cons_append,
    cons_append, List.cons.injEq] at hrest
  have hbytes := (append_inj hrest.2 hwidth).1
  cases id
  cases id'
  exact (SporeId.mk.injEq ..).mpr hbytes.symm

theorem collectSporeOutpoints_eq {pre : Bytes} {keyLen : Nat} {rows : List (Bytes × Bytes)}
    (h : ∀ kv ∈ rows, pre <+: kv.1) :
    collectSporeOutpoints pre keyLen rows
      = ((rows.map Prod.fst).filter (·.length = keyLen)).map decodeSporeOutpointByIdKey := by
  induction rows with
  | nil => rfl
  | cons kv rows ih =>
    obtain ⟨hhead, htail⟩ := forall_mem_cons.mp h
    have hpre := List.isPrefixOf_iff_prefix.mpr hhead
    by_cases hlen : kv.1.length = keyLen <;>
      simp [collectSporeOutpoints, hpre, hlen, ih htail]

section

variable {s : DomainStore} {rows : Set (SporeId × Outpoint)}

/-- Recording an outpoint adds its row to the index. -/
theorem RecordsOutpoints.put (h : RecordsOutpoints s rows) (o : Outpoint) (id : SporeId) :
    RecordsOutpoints (s.write (putSporeOutpoint o id)) (insert (id, o) rows) := by
  have hget : ∀ key, (s.write (putSporeOutpoint o id)).get .statsSpore key
      = if encodeSporeOutpointByIdKey id o = key then some []
        else if encodeSporeOutpointKey o = key then some id.bytes
        else s.get .statsSpore key := by
    intro key
    rw [OrderedStore.get_write]
    simp only [putSporeOutpoint, rowAfter_cons, WriteOp.effect, true_and]
    split_ifs <;> rfl
  refine ⟨fun id' o' hrow => ?_, fun key v hkey => ?_⟩
  · rw [hget]
    split_ifs with hnew hforward
    · exact ⟨_, rfl⟩
    · exact ⟨_, rfl⟩
    · rcases Set.mem_insert_iff.mp hrow with heq | hrow
      · cases heq
        exact absurd rfl hnew
      · exact h.stored id' o' hrow
  · rw [hget] at hkey
    split_ifs at hkey with hnew hforward
    · exact .inl ⟨id, o, Set.mem_insert _ _, hnew.symm⟩
    · subst hforward
      exact .inr ⟨.sporeOutpoint, by decide, rfl, rfl⟩
    · rcases h.families key v hkey with ⟨id', o', hrow, hkey⟩ | hother
      · exact .inl ⟨id', o', Set.mem_insert_of_mem _ hrow, hkey⟩
      · exact .inr hother

theorem RecordsOutpoints.eq_key (h : RecordsOutpoints s rows) (id : SporeId) {key v : Bytes}
    (hget : s.get .statsSpore key = some v) (hpre : encodeSporeOutpointByIdPrefix id <+: key)
    (hlen : key.length = sporeOutpointByIdKeyLen id.bytes.length) :
    ∃ o, (id, o) ∈ rows ∧ encodeSporeOutpointByIdKey id o = key := by
  rcases h.families key v hget with ⟨id', o, hrow, rfl⟩ | ⟨family, hne, -, hhead⟩
  · obtain rfl := eq_of_prefix_of_length hpre hlen
    exact ⟨o, hrow, rfl⟩
  · obtain ⟨rest, rfl⟩ := hpre
    have hcode : StatsPrefix.sporeOutpointById.code = family.code := Option.some.inj hhead
    cases family <;> first | exact absurd rfl hne | exact absurd hcode (by decide)

/-- **The listing of an id returns the outpoints recorded for it**, each once and in key order,
whatever other ids and families share its column family. -/
theorem listSporeOutpointsBySporeId_exact (h : RecordsOutpoints s rows) (id : SporeId) :
    ∃ outpoints : List Outpoint,
      listSporeOutpointsBySporeId s id = outpoints.map (fun o => (o.txHash.bytes, o.outputIndex)) ∧
      outpoints.Pairwise (fun o o' => compare (encodeOutpoint o) (encodeOutpoint o') = .lt) ∧
      ∀ o, o ∈ outpoints ↔ (id, o) ∈ rows := by
  let pre := encodeSporeOutpointByIdPrefix id
  let scan := (s.table .statsSpore).scanPrefix pre pre
  let keys := (scan.map Prod.fst).filter (·.length = sporeOutpointByIdKeyLen id.bytes.length)
  have hstart : (compare pre pre).isLE := by simp
  have hkeys : ∀ key ∈ keys, ∃ o, (id, o) ∈ rows ∧ encodeSporeOutpointByIdKey id o = key := by
    intro key hkey
    obtain ⟨hkey, hlen⟩ := mem_filter.mp hkey
    obtain ⟨kv, hkv, rfl⟩ := mem_map.mp hkey
    obtain ⟨hget, -, hpre⟩ := (mem_scanPrefix hstart).mp hkv
    exact h.eq_key id hget hpre (of_decide_eq_true hlen)
  obtain ⟨outpoints, houtpoints⟩ : keys ∈ Set.range (List.map (encodeSporeOutpointByIdKey id)) := by
    rw [Set.range_list_map]
    exact fun key hkey => (hkeys key hkey).imp fun o ho => ho.2
  have hinj : Function.Injective (encodeSporeOutpointByIdKey id) := fun o o' heq =>
    encodeOutpoint_injective (append_cancel_left heq)
  refine ⟨outpoints, ?_, ?_, fun o => ?_⟩
  · rw [listSporeOutpointsBySporeId, collectSporeOutpoints_eq fun kv hkv =>
      ((mem_scanPrefix hstart).mp hkv).2.2]
    change keys.map _ = _
    rw [← houtpoints, map_map]
    exact map_congr_left fun o _ => decodeSporeOutpointByIdKey_encode id o
  · have hsorted : keys.Pairwise fun a b => compare a b = .lt :=
      (pairwise_map.mpr scanPrefix_sorted).filter _
    rw [← houtpoints, pairwise_map] at hsorted
    refine hsorted.imp fun hlt => ?_
    simpa [encodeSporeOutpointByIdKey, compare_append_of_length_eq] using hlt
  · rw [← mem_map_of_injective hinj, houtpoints]
    constructor
    · intro hkey
      obtain ⟨o', hrow, heq⟩ := hkeys _ hkey
      exact hinj heq ▸ hrow
    · intro hrow
      obtain ⟨v, hget⟩ := h.stored id o hrow
      have hscan : (encodeSporeOutpointByIdKey id o, v) ∈ scan :=
        (mem_scanPrefix hstart).mpr ⟨hget, isLE_compare_append _ _, prefix_append _ _⟩
      exact mem_filter.mpr ⟨mem_map_of_mem hscan, by simp⟩

end

/-- Two ids, the longer one continuing the shorter with the first byte of an outpoint. -/
theorem listSporeOutpointsBySporeId_extended_id :
    let id : SporeId := ⟨[7], by decide, by decide⟩
    let longer : SporeId := ⟨[7, 0], by decide, by decide⟩
    let o : Outpoint := ⟨.ofNat 5, 0, by decide, by decide⟩
    ∃ outpoints : List Outpoint,
      listSporeOutpointsBySporeId
          ((OrderedStore.empty.write (putSporeOutpoint o id)).write (putSporeOutpoint o longer)) id
        = outpoints.map (fun o => (o.txHash.bytes, o.outputIndex)) ∧
      outpoints.Pairwise (fun o o' => compare (encodeOutpoint o) (encodeOutpoint o') = .lt) ∧
      ∀ o', o' ∈ outpoints ↔ (id, o') ∈ ({(longer, o), (id, o)} : Set (SporeId × Outpoint)) := by
  intro id longer o
  have hempty : RecordsOutpoints OrderedStore.empty ∅ :=
    ⟨fun _ _ h => absurd h (Set.notMem_empty _), fun _ _ h => by simp at h⟩
  have hrows := (hempty.put o id).put o longer
  rw [insert_empty_eq] at hrows
  exact listSporeOutpointsBySporeId_exact hrows id

end Ckbadger.Store
