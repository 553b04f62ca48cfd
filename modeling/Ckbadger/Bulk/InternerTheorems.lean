/-
Ckbadger.Bulk.InternerTheorems — interning with reclamation never aliases.

`InternerInv` is the invariant of the tables, kept by every call. A reclaimed id has no live
reference, so what an id stands for does not change while a live cell refers to it.
-/
import Ckbadger.Bulk.Interner
import Ckbadger.Lib.Fallible
import Ckbadger.Lib.SlotTable

namespace Ckbadger.Bulk

open Lib List

variable {st st' : Identities} {bytes : Bytes}

/-! ## Tables -/

/-- The bytes of a slot that count as payload. -/
def payloadLen (value : Option Bytes) : Nat := (value.getD []).length

/-- The payload of a value table. -/
def totalPayload (values : List (Option Bytes)) : Nat := (values.map payloadLen).sum

theorem count_set_marker {markers : List Bool} {id : InternId} {old : Bool}
    (h : markers[id]? = some old) (new : Bool) :
    (markers.set id new).count true + old.toNat = markers.count true + new.toNat := by
  have hsum : ∀ l : List Bool, l.count true = (l.map Bool.toNat).sum := by
    intro l
    induction l with
    | nil => rfl
    | cons m l ih => cases m <;> simp [ih, Nat.add_comm]
  rw [hsum, hsum]
  exact sum_map_set Bool.toNat h new

theorem find_insert {m : Std.ExtTreeMap Bytes InternId} {id : InternId} :
    (fun b => (m.insert bytes id)[b]?) = Function.update (fun b => m[b]?) bytes (some id) := by
  funext b
  rw [Std.ExtTreeMap.getElem?_insert]
  by_cases hb : b = bytes
  · simp [hb]
  · simp [hb, Ne.symm hb]

theorem find_erase {m : Std.ExtTreeMap Bytes InternId} :
    (fun b => (m.erase bytes)[b]?) = Function.update (fun b => m[b]?) bytes none := by
  funext b
  rw [Std.ExtTreeMap.getElem?_erase]
  by_cases hb : b = bytes
  · simp [hb]
  · simp [hb, Ne.symm hb]

/-! ## The invariant of the interner -/

structure InternerInv (s : IdentityInterner) : Prop where
  /-- The lookup map and the value table are inverse to each other. -/
  lookup : Inverse (fun bytes => s.byValue[bytes]?) s.storage.values
  /-- The free list holds exactly the empty slots, each once. -/
  free : FreeList s.storage.freeIds s.storage.values
  payload : s.storage.payloadBytes = totalPayload s.storage.values
  markers : s.storage.lockScriptWritten.length = s.storage.values.length
  count : s.storage.lockScriptWrittenCount = s.storage.lockScriptWritten.count true
  /-- A free slot has no marker. -/
  clear : ∀ id ∈ s.storage.freeIds, s.storage.lockScriptWritten[id]? = some false
  slots : s.storage.values.length ≤ 2 ^ 32

theorem InternerInv.init : InternerInv {} where
  lookup bytes id := by simp
  free := ⟨nodup_nil, fun id => by simp⟩
  payload := rfl
  markers := rfl
  count := rfl
  clear id h := by cases h
  slots := Nat.zero_le _

theorem InternerInv.found {s : IdentityInterner} (h : InternerInv s) {id : InternId}
    (hvalue : s.storage.values[id]? = some (some bytes)) : s.byValue[bytes]? = some id :=
  (h.lookup bytes id).mpr hvalue

section Intern

variable {s s' : IdentityInterner} {bytes : Bytes} {id : InternId}

theorem checkedAddU64_ok {a b n : Nat} {error : String} (h : checkedAddU64 a b error = .ok n) :
    n = a + b ∧ n < 2 ^ 64 := by
  unfold checkedAddU64 at h
  split at h
  · cases h
    exact ⟨rfl, by assumption⟩
  · cases h

/-- A reused slot is empty, its marker is clear, and no view is alive. -/
theorem placeValue_some {storage storage' : InternerStorage} {views active : Nat} {reused : InternId}
    (h : placeValue storage views active (some reused) bytes = .ok (id, storage')) :
    id = reused ∧ storage.values[reused]? = some none ∧
      storage' = { storage with values := storage.values.set reused (some bytes) } := by
  unfold placeValue at h
  simp only at h
  split at h
  · cases h
  · cases h
  · split at h
    · cases h
    · split at h
      · cases h
      · cases h
      · cases h
        exact ⟨rfl, by assumption, rfl⟩

theorem placeValue_none {storage storage' : InternerStorage} {views active : Nat}
    (h : placeValue storage views active none bytes = .ok (id, storage')) :
    id = storage.values.length ∧ id < 2 ^ 32 ∧ storage' = { storage with
      values := storage.values ++ [some bytes]
      lockScriptWritten := storage.lockScriptWritten ++ [false] } := by
  unfold placeValue at h
  simp only at h
  split at h
  · cases h
  · split at h
    · cases h
    · rename_i hslots
      cases h
      exact ⟨rfl, not_le.mp hslots, rfl⟩

/-- A new identity goes to the top free slot if there is one, else to a new slot. -/
theorem internNew_ok (h : internNew s bytes = .ok (id, s')) :
    (∃ rest, s.storage.freeIds = id :: rest ∧ s.storage.values[id]? = some none ∧
      s'.storage = { s.storage with
        values := s.storage.values.set id (some bytes)
        freeIds := rest
        payloadBytes := s.storage.payloadBytes + bytes.length } ∧
      s'.byValue = s.byValue.insert bytes id) ∨
    (s.storage.freeIds = [] ∧ id = s.storage.values.length ∧ id < 2 ^ 32 ∧
      s'.storage = { s.storage with
        values := s.storage.values ++ [some bytes]
        freeIds := []
        payloadBytes := s.storage.payloadBytes + bytes.length
        lockScriptWritten := s.storage.lockScriptWritten ++ [false] } ∧
      s'.byValue = s.byValue.insert bytes id) := by
  obtain ⟨payloadBytes, hpayload, h⟩ := bind_eq_ok.mp h
  obtain ⟨rfl, -⟩ := checkedAddU64_ok hpayload
  obtain ⟨⟨id', storage⟩, hplace, h⟩ := bind_eq_ok.mp h
  simp only at h
  split at h
  · cases h
  · cases h
    cases hfree : s.storage.freeIds with
    | nil =>
      rw [hfree] at hplace
      obtain ⟨hid, hlt, rfl⟩ := placeValue_none hplace
      exact .inr ⟨rfl, hid, hlt, rfl, rfl⟩
    | cons top rest =>
      rw [hfree] at hplace
      obtain ⟨rfl, hnone, rfl⟩ := placeValue_some hplace
      exact .inl ⟨rest, rfl, hnone, rfl, rfl⟩

theorem InternerInv.internNew (h : InternerInv s) (habsent : s.byValue[bytes]? = none)
    (hnew : internNew s bytes = .ok (id, s')) :
    InternerInv s' ∧ s'.byValue = s.byValue.insert bytes id := by
  rcases internNew_ok hnew with ⟨rest, hfree, hnone, hstorage, hmap⟩ | ⟨hfree, rfl, hlt, hstorage, hmap⟩
  · have hlist := h.free
    rw [hfree] at hlist
    refine ⟨⟨?_, ?_, ?_, ?_, ?_, ?_, ?_⟩, hmap⟩ <;> rw [hstorage]
    · rw [hmap, find_insert]
      exact h.lookup.place habsent hnone
    · exact hlist.place bytes
    · have hsum := sum_map_set payloadLen hnone (some bytes)
      have hpayload := h.payload
      simp only [totalPayload, payloadLen, Option.getD_none, Option.getD_some, length_nil]
        at hsum hpayload ⊢
      omega
    · rw [length_set]
      exact h.markers
    · exact h.count
    · intro j hj
      exact h.clear j (hfree ▸ mem_cons_of_mem _ hj)
    · rw [length_set]
      exact h.slots
  · refine ⟨⟨?_, ?_, ?_, ?_, ?_, ?_, ?_⟩, hmap⟩ <;> rw [hstorage]
    · rw [hmap, find_insert]
      exact h.lookup.push habsent
    · exact (hfree ▸ h.free).push bytes
    · have hpayload := h.payload
      simp only [totalPayload, payloadLen, map_append, sum_append, map_cons,
        map_nil, sum_cons, sum_nil, Option.getD_some] at hpayload ⊢
      omega
    · rw [length_append, length_append, h.markers]
      rfl
    · rw [count_append, h.count]
      rfl
    · intro j hj
      cases hj
    · rw [length_append]
      exact hlt

/-- A call keeps the invariant, and the value of every slot that has one. -/
theorem InternerInv.internBytes (h : InternerInv s) (hintern : internBytes s bytes = .ok (id, s')) :
    InternerInv s' ∧ ∀ (j : InternId) (b : Bytes), s.storage.values[j]? = some (some b) →
      s'.storage.values[j]? = some (some b) := by
  unfold Bulk.internBytes at hintern
  simp only at hintern
  split at hintern
  · cases hintern
    exact ⟨⟨h.lookup, h.free, h.payload, h.markers, h.count, h.clear, h.slots⟩, fun _ _ hj => hj⟩
  · rename_i habsent
    have hs : InternerInv { s with
        internCallCount := (s.internCallCount + 1) % 2 ^ 64
        internSlowPathCount := (s.internSlowPathCount + 1) % 2 ^ 64 } :=
      ⟨h.lookup, h.free, h.payload, h.markers, h.count, h.clear, h.slots⟩
    obtain ⟨hinv, hmap⟩ := hs.internNew habsent hintern
    refine ⟨hinv, fun j b hj => ?_⟩
    have hne : bytes ≠ b := by
      rintro rfl
      rw [h.found hj] at habsent
      cases habsent
    refine (hinv.lookup b j).mp ?_
    simp only [hmap, Std.ExtTreeMap.getElem?_insert]
    simpa [hne] using h.found hj

end Intern

/-! ## Markers and reclamation -/

section Reclaim

variable {s : IdentityInterner} {id : InternId}

theorem InternerInv.markLockScriptWritten (h : InternerInv s) (id : InternId) :
    InternerInv (markLockScriptWritten s id).1 ∧
      (markLockScriptWritten s id).1.storage.values = s.storage.values := by
  unfold Bulk.markLockScriptWritten
  simp only
  split
  · exact ⟨h, rfl⟩
  · rename_i value hactive
    split
    · exact ⟨h, rfl⟩
    · exact ⟨h, rfl⟩
    · rename_i hmarker
      have hcount := count_set_marker hmarker true
      have hbound : (s.storage.lockScriptWritten.set id true).count true ≤ 2 ^ 32 := by
        refine count_le_length.trans ?_
        rw [length_set, h.markers]
        exact h.slots
      have hfits : s.storage.lockScriptWrittenCount + 1 < 2 ^ 64 := by
        rw [h.count]
        simp only [Bool.toNat_false, Bool.toNat_true] at hcount
        omega
      simp only [checkedAddU64, if_pos hfits]
      refine ⟨⟨h.lookup, h.free, h.payload, ?_, ?_, fun j hj => ?_, h.slots⟩, trivial⟩
      · rw [length_set]
        exact h.markers
      · simp only [Bool.toNat_false, Bool.toNat_true] at hcount
        simp only [h.count]
        omega
      · rw [getElem?_set_of_some hmarker, if_neg]
        · exact h.clear j hj
        · rintro rfl
          rw [(h.free.2 id).mp hj] at hactive
          cases hactive

theorem clearMarker_eq (storage : InternerStorage) {marker : Bool}
    (hmarker : storage.lockScriptWritten[id]? = some marker)
    (hcount : storage.lockScriptWrittenCount = storage.lockScriptWritten.count true) :
    clearMarker storage id = ({ storage with
      lockScriptWritten := storage.lockScriptWritten.set id false
      lockScriptWrittenCount := (storage.lockScriptWritten.set id false).count true }, .ok marker) := by
  have hset := count_set_marker hmarker false
  unfold clearMarker
  rw [hmarker]
  cases marker with
  | false =>
    have hsame : storage.lockScriptWritten.set id false = storage.lockScriptWritten := by
      refine ext_getElem? fun j => ?_
      rw [getElem?_set_of_some hmarker]
      split
      · rename_i hij
        rw [← hij, hmarker]
      · rfl
    simp [hsame, ← hcount]
  | true =>
    simp only [Bool.toNat_true, Bool.toNat_false] at hset
    simp only
    split
    · omega
    · rename_i count hsucc
      have : count = (storage.lockScriptWritten.set id false).count true := by omega
      rw [this]

/-- Reclaiming one candidate frees its slot at most. -/
theorem InternerInv.reclaimOne (h : InternerInv s) (stats : ReclaimStats) (id : InternId) :
    InternerInv (reclaimOne s stats id).1 ∧ ∀ (j : InternId) (b : Bytes), j ≠ id →
      s.storage.values[j]? = some (some b) →
      (reclaimOne s stats id).1.storage.values[j]? = some (some b) := by
  unfold Bulk.reclaimOne
  split
  · exact ⟨h, fun _ _ _ hj => hj⟩
  · exact ⟨h, fun _ _ _ hj => hj⟩
  · rename_i shared hvalue
    have hfound := h.found hvalue
    have hsum := sum_map_set payloadLen hvalue none
    have hpayload := h.payload
    simp only [totalPayload, payloadLen, Option.getD_none, Option.getD_some, List.length_nil]
      at hsum hpayload
    have hlen : id < s.storage.lockScriptWritten.length := by
      rw [h.markers]
      exact (List.getElem?_eq_some_iff.mp hvalue).1
    obtain ⟨marker, hmarker⟩ : ∃ marker, s.storage.lockScriptWritten[id]? = some marker :=
      ⟨_, List.getElem?_eq_getElem hlen⟩
    simp only [hfound, ne_eq, not_true_eq_false, if_false]
    rw [if_neg (by omega), clearMarker_eq { s.storage with
      values := s.storage.values.set id none
      payloadBytes := s.storage.payloadBytes - shared.length
      freeIds := id :: s.storage.freeIds } hmarker h.count]
    refine ⟨⟨?_, h.free.clear hvalue, ?_, ?_, rfl, fun j hj => ?_, ?_⟩, fun j b hj hb => ?_⟩
    · simp only [find_erase]
      exact h.lookup.clear hvalue
    · simp only [totalPayload]
      omega
    · simp only [List.length_set]
      exact h.markers
    · simp only [getElem?_set_of_some hmarker]
      split
      · rfl
      · rename_i hij
        exact h.clear j ((List.mem_cons.mp hj).resolve_left (Ne.symm hij))
    · simp only [List.length_set]
      exact h.slots
    · simp only [getElem?_set_of_some hvalue, if_neg (Ne.symm hj)]
      exact hb

theorem InternerInv.reclaimEach (h : InternerInv s) (stats : ReclaimStats)
    (candidates : List InternId) :
    InternerInv (reclaimEach s stats candidates).1 ∧ ∀ (j : InternId) (b : Bytes), j ∉ candidates →
      s.storage.values[j]? = some (some b) →
      (reclaimEach s stats candidates).1.storage.values[j]? = some (some b) := by
  induction candidates generalizing s stats with
  | nil => exact ⟨h, fun _ _ _ hj => hj⟩
  | cons id rest ih =>
    obtain ⟨hinv, hkeeps⟩ := h.reclaimOne stats id
    unfold Bulk.reclaimEach
    generalize hone : Bulk.reclaimOne s stats id = one at hinv hkeeps
    obtain ⟨s', result⟩ := one
    cases result with
    | error e => exact ⟨hinv, fun j b hj => hkeeps j b (ne_of_not_mem_cons hj)⟩
    | ok stats' =>
      obtain ⟨hinv', hkeeps'⟩ := ih hinv stats'
      exact ⟨hinv', fun j b hj hb => hkeeps' j b (not_mem_of_not_mem_cons hj)
        (hkeeps j b (ne_of_not_mem_cons hj) hb)⟩

theorem InternerInv.reclaim (h : InternerInv s) (candidates : List InternId) :
    InternerInv (reclaimZeroRefIdentities s candidates).1 ∧ ∀ (j : InternId) (b : Bytes),
      j ∉ candidates → s.storage.values[j]? = some (some b) →
      (reclaimZeroRefIdentities s candidates).1.storage.values[j]? = some (some b) := by
  unfold reclaimZeroRefIdentities
  split
  · exact ⟨h, fun _ _ _ hj => hj⟩
  · split
    · exact ⟨h, fun _ _ _ hj => hj⟩
    · exact h.reclaimEach {} candidates

end Reclaim

/-! ## Runs -/

theorem InternerInv.step (h : InternerInv st.interner)
    (hstep : Step st st') : InternerInv st'.interner := by
  cases hstep with
  | internBytes hintern => exact (h.internBytes hintern).1
  | ensureSlots | retain | release => exact h
  | reclaim => exact (h.reclaim _).1
  | markLockScriptWritten id => exact (h.markLockScriptWritten id).1
  | snapshot | dropView => exact ⟨h.lookup, h.free, h.payload, h.markers, h.count, h.clear, h.slots⟩

theorem InternerInv.run (h : InternerInv st.interner)
    (hrun : Relation.ReflTransGen Step st st') : InternerInv st'.interner := by
  induction hrun with
  | refl => exact h
  | tail _ hstep ih => exact ih.step hstep

/-! ### No aliasing -/

/-- A slot with a live reference keeps its value over every call. -/
theorem Step.keeps_value (h : InternerInv st.interner)
    (hstep : Step st st') {id : InternId} (hlive : 0 < st.liveness.liveRefs id)
    (hvalue : st.interner.storage.values[id]? = some (some bytes)) :
    st'.interner.storage.values[id]? = some (some bytes) := by
  cases hstep with
  | internBytes hintern => exact (h.internBytes hintern).2 id bytes hvalue
  | ensureSlots slotLen => exact hvalue
  | retain _ => exact hvalue
  | release _ => exact hvalue
  | reclaim =>
    refine (h.reclaim _).2 id bytes (fun hmem => ?_) hvalue
    -- a drained id has no live reference
    have hzero : st.liveness.liveRefs id = 0 := by simpa using (mem_filter.mp hmem).2
    exact hlive.ne' hzero
  | markLockScriptWritten marked =>
    rw [(h.markLockScriptWritten marked).2]
    exact hvalue
  | snapshot => exact hvalue
  | dropView _ => exact hvalue

theorem resolve_eq_some {s : IdentityInterner} {id : InternId} :
    s.resolve id = some bytes ↔ s.storage.values[id]? = some (some bytes) := by
  unfold IdentityInterner.resolve
  cases s.storage.values[id]? with
  | none => simp
  | some value => simp

/-- **Interning with reclamation never aliases.** In every state of every sequence of calls the
lookup map and the value table are inverse to each other, the free list holds exactly the empty
slots without duplicates, the accounted payload is the payload of the table, the marker count
is the number of markers and a free slot has none; and no call changes what an id stands for
while a live cell refers to it. -/
theorem interning_never_aliases {st : Identities} (hrun : Relation.ReflTransGen Step {} st) :
    (∀ (bytes : Bytes) (id : InternId),
      st.interner.byValue[bytes]? = some id ↔ st.interner.resolve id = some bytes) ∧
    st.interner.storage.freeIds.Nodup ∧
    (∀ id : InternId, id ∈ st.interner.storage.freeIds ↔
      st.interner.storage.values[id]? = some none) ∧
    st.interner.storage.payloadBytes = totalPayload st.interner.storage.values ∧
    st.interner.storage.lockScriptWrittenCount = st.interner.storage.lockScriptWritten.count true ∧
    (∀ id ∈ st.interner.storage.freeIds, st.interner.storage.lockScriptWritten[id]? = some false) ∧
    ∀ st', Step st st' → ∀ (id : InternId) (bytes : Bytes), 0 < st.liveness.liveRefs id →
      st.interner.resolve id = some bytes → st'.interner.resolve id = some bytes := by
  have h : InternerInv st.interner := InternerInv.init.run hrun
  refine ⟨fun bytes id => ?_, h.free.1, h.free.2, h.payload, h.count, h.clear,
    fun st' hstep id bytes hlive hvalue => ?_⟩
  · rw [resolve_eq_some]
    exact h.lookup bytes id
  · rw [resolve_eq_some] at hvalue ⊢
    exact hstep.keeps_value h hlive hvalue

/-- The state after a call that interns, retains or releases; the old one if it fails. -/
def internInto (st : Identities) (bytes : Bytes) : Identities :=
  { st with interner := ((internBytes st.interner bytes).toOption.map Prod.snd).getD st.interner }

def retainIn (st : Identities) (id : InternId) : Identities :=
  { st with liveness := (retain st.liveness id).toOption.getD st.liveness }

def releaseIn (st : Identities) (id : InternId) : Identities :=
  { st with liveness := (release st.liveness id).toOption.getD st.liveness }

theorem step_internInto (bytes : Bytes)
    (h : (internBytes st.interner bytes).isOk = true) : Step st (internInto st bytes) := by
  obtain ⟨⟨id, interner⟩, hok⟩ := exists_of_isOk h
  rw [internInto, hok]
  exact .internBytes hok

theorem step_retainIn (id : InternId)
    (h : (retain st.liveness id).isOk = true) : Step st (retainIn st id) := by
  obtain ⟨liveness, hok⟩ := exists_of_isOk h
  rw [retainIn, hok]
  exact .retain hok

theorem step_releaseIn (id : InternId)
    (h : (release st.liveness id).isOk = true) : Step st (releaseIn st id) := by
  obtain ⟨liveness, hok⟩ := exists_of_isOk h
  rw [releaseIn, hok]
  exact .release hok

/-- One identity comes and goes. -/
def releasedOnce : Identities :=
  releaseIn (retainIn { internInto {} [7] with liveness := ensureSlots {} 1 } 0) 0

/-- Its slot is reclaimed and used for other bytes, which a live cell refers to. -/
def reusedSlot : Identities :=
  retainIn (internInto
    ⟨(reclaimZeroRefIdentities releasedOnce.interner (drainZeroCandidates releasedOnce.liveness).1).1,
      (drainZeroCandidates releasedOnce.liveness).2⟩ [8]) 0

theorem reusedSlot_stable :
    Relation.ReflTransGen Step {} reusedSlot ∧ reusedSlot.interner.resolve 0 = some [8] ∧
      ∀ st', Step reusedSlot st' → st'.interner.resolve 0 = some [8] := by
  have hrun : Relation.ReflTransGen Step {} reusedSlot := by
    refine .head (step_internInto [7] (by decide +kernel)) (.head (.ensureSlots 1) ?_)
    refine .head (step_retainIn 0 (by decide +kernel)) ?_
    refine .head (step_releaseIn 0 (by decide +kernel)) (.head .reclaim ?_)
    refine .head (step_internInto [8] (by decide +kernel)) ?_
    exact .single (step_retainIn 0 (by decide +kernel))
  have hvalue : reusedSlot.interner.resolve 0 = some [8] := by decide +kernel
  obtain ⟨-, -, -, -, -, -, hstable⟩ := interning_never_aliases hrun
  exact ⟨hrun, hvalue, fun st' hstep => hstable st' hstep 0 [8] (by decide +kernel) hvalue⟩

end Ckbadger.Bulk
