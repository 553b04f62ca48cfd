/-
Ckbadger.Writer.EntityStatsTheorems — what a batch of overlay calls commits.

The reference is a plain fold: `valueAfter` applies the mutations of one key in
order. The overlay refines it (`OverlayInv`): what it shows for a key is the
fold so far, and each row it records for `(block, key)` holds the fold over the
mutations of earlier blocks. So the pre-images of a block depend on the
mutations before that block and not on where the batch began.
-/
import Ckbadger.Writer.EntityStats
import Mathlib.Data.List.Induction

namespace Ckbadger.Writer

open List hiding getElem?_insert
open Lib Store Sync Std EntityStatsOverlay ExtTreeMap

variable {ms : List Mutation} {key : Bytes} {block : Int} {s : DomainStore} {p : StatsPrefix}
variable {v : Option Bytes} {m : Mutation} {o : EntityStatsOverlay}

/-! ## Statistics rows -/

/-- A statistics row of the store; a key no prefix routes has none. -/
def statsRow (s : DomainStore) (key : Bytes) : Option Bytes :=
  match cfForStatsKey key with
  | .ok cf => s.get cf key
  | .error _ => none

/-- A key the statistics tables route, with its prefix. -/
def HasPrefix (key : Bytes) (p : StatsPrefix) : Prop :=
  ∃ byte rest, key = byte :: rest ∧ StatsPrefix.ofCode? byte = some p

theorem HasPrefix.cfForStatsKey (h : HasPrefix key p) : cfForStatsKey key = .ok p.cf := by
  obtain ⟨byte, rest, rfl, hp⟩ := h
  simp [Store.cfForStatsKey, statsCfByPrefix, hp]

theorem hasPrefix_of_cfForStatsKey {cf : Cf} (h : cfForStatsKey key = .ok cf) :
    ∃ p, HasPrefix key p ∧ p.cf = cf := by
  cases key with
  | nil => cases h
  | cons byte rest =>
    simp only [Store.cfForStatsKey, statsCfByPrefix] at h
    split at h
    · rename_i p hp
      cases h
      exact ⟨p, ⟨byte, rest, rfl, hp⟩, rfl⟩
    · cases h

theorem HasPrefix.unique {q : StatsPrefix} (hp : HasPrefix key p)
    (hq : HasPrefix key q) : p = q := by
  obtain ⟨byte, rest, rfl, hp⟩ := hp
  obtain ⟨byte', rest', heq, hq⟩ := hq
  cases heq
  rw [hp] at hq
  exact Option.some.inj hq

theorem HasPrefix.statsRow (h : HasPrefix key p) (s : DomainStore) :
    statsRow s key = s.get p.cf key := by
  rw [Writer.statsRow, h.cfForStatsKey]

theorem liftStore_getStatsKey (h : liftStore (getStatsKey s key) = .ok v) :
    v = statsRow s key ∧ ∃ p, HasPrefix key p := by
  simp only [getStatsKey, statsRow] at h ⊢
  cases hcf : cfForStatsKey key with
  | error e => rw [hcf] at h; cases h
  | ok cf =>
    rw [hcf] at h
    cases h
    obtain ⟨p, hp, -⟩ := hasPrefix_of_cfForStatsKey hcf
    exact ⟨rfl, p, hp⟩

/-! ## The reference -/

/-- A mutation a writer asks for: the new value of `key` at `block` from its current one. -/
structure Mutation where
  block : Int
  key : Bytes
  apply : Option Bytes → Except OverlayError (Option Bytes)

/-- The value a mutation leaves; a failing mutation stops its batch before it is committed. -/
def Mutation.applyTo (m : Mutation) (v : Option Bytes) : Option Bytes :=
  match m.apply v with
  | .ok next => next
  | .error _ => v

/-- The value of `key` after a sequence of mutations, starting from `v`. -/
def valueAfter (key : Bytes) (v : Option Bytes) (ms : List Mutation) : Option Bytes :=
  ms.foldl (fun acc m => if m.key = key then m.applyTo acc else acc) v

/-- The value of `key` at the end of `block`. -/
def valueAtEnd (key : Bytes) (v : Option Bytes) (ms : List Mutation) (block : Int) : Option Bytes :=
  valueAfter key v (ms.filter fun m => m.block ≤ block)

@[simp] theorem valueAfter_nil (key : Bytes) (v : Option Bytes) : valueAfter key v [] = v := rfl

theorem valueAfter_append (key : Bytes) (v : Option Bytes) (ms ms' : List Mutation) :
    valueAfter key v (ms ++ ms') = valueAfter key (valueAfter key v ms) ms' := by
  simp [valueAfter]

theorem valueAfter_cons (key : Bytes) (v : Option Bytes) (m : Mutation) (ms : List Mutation) :
    valueAfter key v (m :: ms) = valueAfter key (if m.key = key then m.applyTo v else v) ms := rfl

theorem valueAfter_filter {p : Mutation → Bool}
    (h : ∀ m ∈ ms, m.key = key → p m) (v : Option Bytes) :
    valueAfter key v (ms.filter p) = valueAfter key v ms := by
  induction ms generalizing v with
  | nil => rfl
  | cons m ms ih =>
    obtain ⟨hm, hms⟩ := forall_mem_cons.mp h
    rw [valueAfter_cons, ← ih hms, filter_cons]
    split
    · rfl
    · rename_i hp
      rw [if_neg fun hk => hp (hm hk)]

theorem valueAfter_of_not_mem (h : ∀ m ∈ ms, m.key ≠ key)
    (v : Option Bytes) : valueAfter key v ms = v := by
  have hnil : ms.filter (fun _ => false) = [] := by simp
  rw [← valueAfter_filter (p := fun _ => false) (fun m hm hk => absurd hk (h m hm)) v, hnil]
  rfl

/-- Later mutations do not change what a key held at the end of an earlier block. -/
theorem valueAtEnd_append {ms' : List Mutation}
    (h : ∀ m ∈ ms', m.key = key → block < m.block) (v : Option Bytes) :
    valueAtEnd key v (ms ++ ms') block = valueAtEnd key v ms block := by
  rw [valueAtEnd, filter_append, valueAfter_append, valueAfter_of_not_mem]
  · rfl
  · intro m hm hk
    obtain ⟨hmem, hle⟩ := mem_filter.mp hm
    have := h m hmem hk
    simp only [decide_eq_true_eq] at hle
    omega

/-- Past a key's last mutation its value is the final one. -/
theorem valueAtEnd_of_le (h : ∀ m ∈ ms, m.key = key → m.block ≤ block) (v : Option Bytes) :
    valueAtEnd key v ms block = valueAfter key v ms :=
  valueAfter_filter (fun m hm hk => by simpa using h m hm hk) v

/-- Mutations up to a block are all counted at its end, before those that follow. -/
theorem valueAtEnd_append_of_le {ms' : List Mutation}
    (h : ∀ m ∈ ms, m.key = key → m.block ≤ block) (v : Option Bytes) :
    valueAtEnd key v (ms ++ ms') block = valueAtEnd key (valueAfter key v ms) ms' block := by
  have hms := valueAtEnd_of_le h v
  rw [valueAtEnd] at hms
  rw [valueAtEnd, filter_append, valueAfter_append, hms]
  rfl

/-- Up to a bound, dropping the mutations past it changes no end-of-block value. -/
theorem valueAtEnd_filter_le {bound : Int} (h : block ≤ bound) (key : Bytes) (v : Option Bytes) :
    valueAtEnd key v (ms.filter fun m => m.block ≤ bound) block = valueAtEnd key v ms block := by
  rw [valueAtEnd, filter_filter]
  congr 1
  refine filter_congr fun m _ => ?_
  have : m.block ≤ block → m.block ≤ bound := fun hm => hm.trans h
  by_cases hm : m.block ≤ block <;> simp [hm, this]

/-- An end-of-block value that differs from the one before has a mutation at its block. -/
theorem exists_mutation_of_valueAtEnd_ne
    (h : valueAtEnd key v ms block ≠ valueAtEnd key v ms (block - 1)) :
    ∃ m ∈ ms, m.key = key ∧ m.block = block := by
  by_contra hnone
  refine h ?_
  have hle : block - 1 ≤ block := by omega
  rw [← valueAtEnd_filter_le hle key v]
  refine (valueAtEnd_of_le (fun m hm hk => ?_) v).symm
  obtain ⟨hmem, hle⟩ := mem_filter.mp hm
  have hne : m.block ≠ block := fun hb => hnone ⟨m, hmem, hk, hb⟩
  simp only [decide_eq_true_eq] at hle
  omega

/-- Where a key's blocks do not go back, its mutations up to a bound come before the others. -/
theorem valueAfter_split
    (hordered : ms.Pairwise fun a b => a.key = b.key → a.block ≤ b.block) (bound : Int)
    (key : Bytes) (v : Option Bytes) :
    valueAfter key (valueAfter key v (ms.filter fun m => m.block ≤ bound))
        (ms.filter fun m => bound < m.block)
      = valueAfter key v ms := by
  induction ms generalizing v with
  | nil => rfl
  | cons m ms ih =>
    obtain ⟨hhead, htail⟩ := pairwise_cons.mp hordered
    by_cases hb : m.block ≤ bound
    · have hb' : ¬ bound < m.block := by omega
      simp only [filter_cons, hb, hb']
      exact ih htail _
    · have hb' : bound < m.block := by omega
      simp only [filter_cons, hb, hb', decide_true, decide_false, if_true,
        Bool.false_eq_true, if_false, valueAfter_cons]
      rw [← ih htail]
      by_cases hk : m.key = key
      · -- the key's later mutations are past the bound too
        have hlate : ∀ m' ∈ ms.filter (fun m => decide (m.block ≤ bound)), m'.key ≠ key := by
          intro m' hm' hk'
          obtain ⟨hmem, hle⟩ := mem_filter.mp hm'
          have := hhead m' hmem (hk.trans hk'.symm)
          simp only [decide_eq_true_eq] at hle
          omega
        rw [valueAfter_of_not_mem hlate, valueAfter_of_not_mem hlate]
      · simp [hk]

/-- Past a bound, an end-of-block value is reached from the value at the bound. -/
theorem valueAtEnd_filter_gt
    (hordered : ms.Pairwise fun a b => a.key = b.key → a.block ≤ b.block) {bound : Int}
    (h : bound ≤ block) (key : Bytes) (v : Option Bytes) :
    valueAtEnd key (valueAfter key v (ms.filter fun m => m.block ≤ bound))
        (ms.filter fun m => bound < m.block) block
      = valueAtEnd key v ms block := by
  have hsplit := valueAfter_split (hordered.filter fun m => decide (m.block ≤ block)) bound key v
  rw [valueAtEnd, valueAtEnd, ← hsplit, filter_filter, filter_filter, filter_filter]
  congr 2
  · refine filter_congr fun m _ => ?_
    have : m.block ≤ bound → m.block ≤ block := fun hm => hm.trans h
    by_cases hm : m.block ≤ bound <;> simp [hm, this]
  · exact funext fun m => Bool.and_comm _ _

/-- The keys the mutations of `block` touch, in order of first touch. -/
def touchedKeys (ms : List Mutation) (block : Int) : List Bytes :=
  ms.foldl (fun keys m => if m.block = block ∧ m.key ∉ keys then keys ++ [m.key] else keys) []

theorem touchedKeys_snoc (ms : List Mutation) (m : Mutation) (block : Int) :
    touchedKeys (ms ++ [m]) block
      = if m.block = block ∧ m.key ∉ touchedKeys ms block then touchedKeys ms block ++ [m.key]
        else touchedKeys ms block := by
  rw [touchedKeys, foldl_append]
  rfl

theorem mem_touchedKeys : key ∈ touchedKeys ms block ↔ ∃ m ∈ ms, m.block = block ∧ m.key = key := by
  induction ms using List.reverseRecOn with
  | nil => simp [touchedKeys]
  | append_singleton ms m ih =>
    rw [touchedKeys_snoc]
    simp only [mem_append, mem_singleton, or_and_right, exists_or, exists_eq_left]
    split
    · rename_i hnew
      simp [ih, hnew.1, eq_comm]
    · rename_i hold
      rw [ih]
      refine ⟨.inl, fun h => h.elim id fun ⟨hb, hk⟩ => ih.mp ?_⟩
      subst hb hk
      simpa using hold

/-- The keys a block touches depend on the mutations of that block only. -/
theorem touchedKeys_filter {p : Mutation → Bool} (h : ∀ m ∈ ms, m.block = block → p m) :
    touchedKeys (ms.filter p) block = touchedKeys ms block := by
  induction ms using List.reverseRecOn with
  | nil => rfl
  | append_singleton ms m ih =>
    have hms := ih (forall_mem_append.mp h).1
    rw [filter_append, touchedKeys_snoc]
    by_cases hb : m.block = block
    · have hp : p m := h m (by simp) hb
      rw [filter_cons, if_pos hp, filter_nil, touchedKeys_snoc, hms]
    · cases hp : p m
      · simp [hp, hms, hb]
      · rw [filter_cons, if_pos hp, filter_nil, touchedKeys_snoc, hms]

/-- A repeated touch of `(block, key)` records nothing and moves no counter. -/
theorem touchedKeys_snoc_of_mem (h : m.key ∈ touchedKeys ms m.block) (block : Int) :
    touchedKeys (ms ++ [m]) block = touchedKeys ms block := by
  rw [touchedKeys_snoc, if_neg]
  rintro ⟨rfl, hnot⟩
  exact hnot h

/-- A first touch appends the key to its block and leaves the other blocks alone. -/
theorem touchedKeys_snoc_of_not_mem (h : m.key ∉ touchedKeys ms m.block) (block : Int) :
    touchedKeys (ms ++ [m]) block
      = if m.block = block then touchedKeys ms block ++ [m.key] else touchedKeys ms block := by
  rw [touchedKeys_snoc]
  by_cases hb : m.block = block
  · subst hb; simp [h]
  · simp [hb]

/-- The pre-images already recorded do not depend on the mutations that follow. -/
theorem valueAtEnd_snoc_of_touched (hlate : ∀ m' ∈ ms, m'.key = m.key → m'.block ≤ m.block)
    (hkey : key ∈ touchedKeys ms block) (v : Option Bytes) :
    valueAtEnd key v (ms ++ [m]) (block - 1) = valueAtEnd key v ms (block - 1) := by
  refine valueAtEnd_append (fun m₀ hm₀ hk => ?_) v
  rw [mem_singleton] at hm₀
  subst hm₀
  obtain ⟨m', hm', rfl, hk'⟩ := mem_touchedKeys.mp hkey
  have := hlate m' hm' (hk'.trans hk.symm)
  omega

/-! ## One mutation -/

/-- What the batch sees of a key. -/
def EntityStatsOverlay.view (o : EntityStatsOverlay) (s : DomainStore) (key : Bytes) :
    Option Bytes :=
  o.values[key]?.getD (statsRow s key)

/-- An overlay that holds more rows of the store and shows the same. -/
structure Caches (s : DomainStore) (o o' : EntityStatsOverlay) : Prop where
  view : ∀ k, o'.view s k = o.view s k
  held : ∀ k : Bytes, o.values[k]?.isSome → o'.values[k]?.isSome
  touched : o'.touched = o.touched
  dirty : o'.dirty = o.dirty
  lastBlock : o'.lastBlockByKey = o.lastBlockByKey

theorem EntityStatsOverlay.current_ok {o' : EntityStatsOverlay}
    (h : o.current s key = .ok (v, o')) : v = o.view s key ∧ Caches s o o' := by
  simp only [current] at h
  split at h
  · rename_i cached hcached
    cases h
    exact ⟨by simp [view, hcached], fun _ => rfl, fun _ hk => hk, rfl, rfl, rfl⟩
  · rename_i hnone
    obtain ⟨loaded, hload, hret⟩ := bind_eq_ok.mp h
    cases hret
    obtain ⟨rfl, -⟩ := liftStore_getStatsKey hload
    refine ⟨by simp [view, hnone], fun k => ?_, fun k hk => ?_, rfl, rfl, rfl⟩
    · by_cases hk : key = k
      · subst hk; simp [view, hnone]
      · simp [view, getElem?_insert, hk]
    · by_cases hkey : key = k
      · subst hkey; simp
      · simpa [hkey] using hk

section Mutate

variable [Codec UndoLogEntry]
variable {st st' : BatchState} {rows : List UndoRow}

/-- The row a first touch of `(block, key)` records. -/
def preImageRow (block : Int) (seq : Nat) (key : Bytes) (p : StatsPrefix) (pre : Option Bytes) :
    UndoRow :=
  ⟨block, seq, .keyMutation .domain p.cf.name key pre⟩

/-- The effect of one successful mutation on the state of a live batch. -/
structure Mutated (s : DomainStore) (st : BatchState) (block : Int) (key : Bytes)
    (next : Option Bytes) (st' : BatchState) : Prop where
  ordered : ∀ last, st.overlay.lastBlockByKey[key]? = some last → last ≤ block
  view : ∀ k, st'.overlay.view s k = if k = key then next else st.overlay.view s k
  held : ∀ k : Bytes, k = key ∨ st.overlay.values[k]?.isSome → st'.overlay.values[k]?.isSome
  dirty : st'.overlay.dirty = st.overlay.dirty.insert key
  lastBlock : st'.overlay.lastBlockByKey = st.overlay.lastBlockByKey.insert key block
  /-- A pre-image is recorded on the first touch only, and it is what the batch saw before. -/
  recorded :
    ((block, key) ∈ st.overlay.touched ∧ st'.overlay.touched = st.overlay.touched ∧
      st'.batch = st.batch ∧ st'.undoSeq = st.undoSeq) ∨
    ((block, key) ∉ st.overlay.touched ∧
      st'.overlay.touched = (block, key) :: st.overlay.touched ∧
      ∃ p seq, HasPrefix key p ∧
        nextUndoSeq st.undoSeq block .entityStats = .ok (seq, st'.undoSeq) ∧
        st'.batch = st.batch ++ [(preImageRow block seq key p (st.overlay.view s key)).op])

/-- What recording a pre-image does in a live batch. -/
theorem recordPreImage_ok {pre : Option Bytes}
    (h : recordPreImage false st block key pre = .ok st') :
    ((block, key) ∈ st.overlay.touched ∧ st' = st) ∨
    ((block, key) ∉ st.overlay.touched ∧ ∃ p seq, HasPrefix key p ∧
      nextUndoSeq st.undoSeq block .entityStats = .ok (seq, st'.undoSeq) ∧
      st'.batch = st.batch ++ [(preImageRow block seq key p pre).op] ∧
      st'.overlay = { st.overlay with touched := (block, key) :: st.overlay.touched }) := by
  simp only [recordPreImage] at h
  split at h
  · rename_i ht
    cases h
    exact .inl ⟨ht, rfl⟩
  · rename_i ht
    simp only [Bool.false_eq_true, if_false] at h
    split at h
    · cases h
    · rename_i byte rest
      obtain ⟨cfName, hname, hrec⟩ := bind_eq_ok.mp h
      simp only [statsCfNameByPrefix] at hname
      split at hname
      · rename_i p hp
        cases hname
        split at hrec
        · cases hrec
        · rename_i seq undoSeq hseq
          cases hrec
          refine .inr ⟨ht, p, seq, ⟨byte, rest, rfl, hp⟩, hseq, ?_, rfl⟩
          rw [preImageRow, ← StatsPrefix.cfName_eq]
      · cases hname

/-- Every successful mutation has the effect `Mutated` states. -/
theorem mutate_ok {next : Option Bytes} (h : mutate s false st block key next = .ok st') :
    Mutated s st block key next st' := by
  obtain ⟨_, horder, h⟩ := bind_eq_ok.mp h
  obtain ⟨⟨pre, overlay⟩, hcur, h⟩ := bind_eq_ok.mp h
  obtain ⟨st₁, hrec, h⟩ := bind_eq_ok.mp h
  cases h
  obtain ⟨rfl, ⟨hview, hheld, htouched, hdirty, hlast⟩⟩ := current_ok hcur
  have hordered : ∀ last, st.overlay.lastBlockByKey[key]? = some last → last ≤ block := by
    intro last hl
    simp only [checkBlockOrder, hl] at horder
    split at horder
    · cases horder
    · omega
  -- recording leaves the values, the dirty set and the block order alone
  have hvalues : st₁.overlay.values = overlay.values ∧ st₁.overlay.dirty = overlay.dirty ∧
      st₁.overlay.lastBlockByKey = overlay.lastBlockByKey := by
    rcases recordPreImage_ok hrec with ⟨-, rfl⟩ | ⟨-, p, seq, -, -, -, hov⟩
    · exact ⟨rfl, rfl, rfl⟩
    · rw [hov]; exact ⟨rfl, rfl, rfl⟩
  refine ⟨hordered, fun k => ?_, fun k hk => ?_, ?_, ?_, ?_⟩
  · by_cases hk : k = key
    · subst hk; simp [view]
    · rw [if_neg hk, ← hview k]
      simp [view, getElem?_insert, Ne.symm hk, hvalues.1]
  · by_cases hkey : k = key
    · subst hkey; simp
    · have := hheld k (hk.resolve_left hkey)
      simpa [Ne.symm hkey, hvalues.1] using this
  · simp [hvalues.2.1, hdirty]
  · simp [hvalues.2.2, hlast]
  · rcases recordPreImage_ok hrec with ⟨ht, rfl⟩ | ⟨ht, p, seq, hp, hseq, hbatch, hov⟩
    · exact .inl ⟨htouched ▸ ht, htouched, rfl, rfl⟩
    · refine .inr ⟨htouched ▸ ht, ?_, p, seq, hp, hseq, hbatch⟩
      simp [hov, htouched]

/-- The writers' read-apply-mutate sequence is one mutation by the applied value. -/
theorem update_ok {f : Option Bytes → Except OverlayError (Option Bytes)}
    (h : update s false st block key f = .ok st') :
    ∃ next, f (st.overlay.view s key) = .ok next ∧ Mutated s st block key next st' := by
  obtain ⟨⟨pre, overlay⟩, hcur, h⟩ := bind_eq_ok.mp h
  obtain ⟨next, hf, hmut⟩ := bind_eq_ok.mp h
  obtain ⟨rfl, ⟨hview, hheld, htouched, hdirty, hlast⟩⟩ := current_ok hcur
  have hm := mutate_ok hmut
  refine ⟨next, hf, ⟨?_, ?_, ?_, ?_, ?_, ?_⟩⟩
  · simpa [hlast] using hm.ordered
  · simpa [hview] using hm.view
  · exact fun k hk => hm.held k (hk.imp_right (hheld k))
  · simpa [hdirty] using hm.dirty
  · simpa [hlast] using hm.lastBlock
  · simpa [htouched, hview] using hm.recorded

/-! ## A whole batch -/

/-- A row of the log that the mutations `ms`, started on `s`, account for: the `i`-th key its
block touches, with its value at the end of the block before. -/
def IsPreImage (s : DomainStore) (ms : List Mutation) (row : UndoRow) : Prop :=
  ∃ i key p, (touchedKeys ms row.block)[i]? = some key ∧ HasPrefix key p ∧
    row.seq = UndoSeqScope.entityStats.seqBase ||| i ∧
    row.entry = .keyMutation .domain p.cf.name key
      (valueAtEnd key (statsRow s key) ms (row.block - 1))

omit [Codec UndoLogEntry] in
/-- A row accounted for by `ms` is for a key and a block of one of its mutations. -/
theorem IsPreImage.exists_mutation {row : UndoRow}
    (h : IsPreImage s ms row) : ∃ m ∈ ms, m.block = row.block := by
  obtain ⟨i, key, p, hi, -⟩ := h
  obtain ⟨m, hm, hb, -⟩ := mem_touchedKeys.mp (mem_of_getElem? hi)
  exact ⟨m, hm, hb⟩

/-- The state of a live batch after the mutations `ms`, with `rows` recorded. -/
structure OverlayInv (s : DomainStore) (st : BatchState) (ms : List Mutation)
    (rows : List UndoRow) : Prop where
  view : ∀ k, st.overlay.view s k = valueAfter k (statsRow s k) ms
  dirty : ∀ k, k ∈ st.overlay.dirty ↔ ∃ m ∈ ms, m.key = k
  held : ∀ k ∈ st.overlay.dirty, st.overlay.values[k]?.isSome
  last : ∀ m ∈ ms, ∃ b, st.overlay.lastBlockByKey[m.key]? = some b ∧ m.block ≤ b
  prefixed : ∀ m ∈ ms, ∃ p, HasPrefix m.key p
  touched : ∀ b k, (b, k) ∈ st.overlay.touched ↔ k ∈ touchedKeys ms b
  counted : ∀ b, st.undoSeq.getD b 0 = (touchedKeys ms b).length
  batch : st.batch = rows.map UndoRow.op
  drawn : Drawn st.undoSeq rows
  rows_iff : ∀ row, row ∈ rows ↔ IsPreImage s ms row

theorem OverlayInv.init (s : DomainStore) : OverlayInv s {} [] [] where
  view k := by simp [EntityStatsOverlay.view]
  dirty k := by simp
  held k hk := by cases hk
  last m hm := by cases hm
  prefixed m hm := by cases hm
  touched b k := by simp [touchedKeys]
  counted b := by simp [touchedKeys]
  batch := rfl
  drawn := Drawn.nil
  rows_iff row := by simp [IsPreImage, touchedKeys]

section Step

variable {next : Option Bytes}

/-- A mutation the overlay accepts is not of an earlier block than the key's others. -/
theorem OverlayInv.late (h : OverlayInv s st ms rows) (hm : Mutated s st m.block m.key next st') :
    ∀ m' ∈ ms, m'.key = m.key → m'.block ≤ m.block := by
  intro m' hm' hk
  obtain ⟨b, hb, hle⟩ := h.last m' hm'
  rw [hk] at hb
  exact hle.trans (hm.ordered b hb)

omit [Codec UndoLogEntry] in
/-- The rows that stay accounted for when a mutation follows. -/
theorem isPreImage_snoc (hlate : ∀ m' ∈ ms, m'.key = m.key → m'.block ≤ m.block) {row : UndoRow}
    (hkeys : touchedKeys (ms ++ [m]) row.block = touchedKeys ms row.block) :
    IsPreImage s (ms ++ [m]) row ↔ IsPreImage s ms row := by
  simp only [IsPreImage, hkeys]
  refine exists_congr fun i => exists_congr fun key => exists_congr fun p => ?_
  refine and_congr_right fun hi => ?_
  rw [valueAtEnd_snoc_of_touched hlate (mem_of_getElem? hi)]

omit [Codec UndoLogEntry] in
/-- On a first touch the recorded row is the one new pre-image. -/
theorem isPreImage_snoc_first (hlate : ∀ m' ∈ ms, m'.key = m.key → m'.block ≤ m.block)
    (hfirst : m.key ∉ touchedKeys ms m.block) (hp : HasPrefix m.key p) (row : UndoRow) :
    IsPreImage s (ms ++ [m]) row ↔ IsPreImage s ms row ∨
      row = preImageRow m.block
        (UndoSeqScope.entityStats.seqBase ||| (touchedKeys ms m.block).length) m.key p
        (valueAfter m.key (statsRow s m.key) ms) := by
  by_cases hb : m.block = row.block
  · -- every earlier mutation of the key is of an earlier block
    have hearlier : ∀ m' ∈ ms, m'.key = m.key → m'.block ≤ row.block - 1 := by
      intro m' hm' hk
      have hle := hlate m' hm' hk
      have hne : m'.block ≠ m.block := fun heq => hfirst (mem_touchedKeys.mpr ⟨m', hm', heq, hk⟩)
      omega
    have hpre : valueAtEnd m.key (statsRow s m.key) (ms ++ [m]) (row.block - 1)
        = valueAfter m.key (statsRow s m.key) ms := by
      rw [valueAtEnd_append, valueAtEnd_of_le hearlier]
      intro m₀ hm₀ _
      rw [List.mem_singleton.mp hm₀]
      omega
    have hkeys := touchedKeys_snoc_of_not_mem hfirst row.block
    rw [if_pos hb] at hkeys
    constructor
    · rintro ⟨i, key, q, hi, hq, hseq, hentry⟩
      rw [hkeys, List.getElem?_append] at hi
      split at hi
      · refine .inl ⟨i, key, q, hi, hq, hseq, ?_⟩
        rw [hentry, valueAtEnd_snoc_of_touched hlate (List.mem_of_getElem? hi)]
      · obtain ⟨hi0, rfl⟩ : i - (touchedKeys ms row.block).length = 0 ∧ m.key = key := by
          simpa using List.getElem?_eq_some_iff.mp hi
        have hi' : i = (touchedKeys ms m.block).length := by rw [hb]; omega
        rw [hp.unique hq]
        refine .inr ?_
        rw [hpre] at hentry
        rw [hi'] at hseq
        cases row
        simp only at hb hseq hentry
        rw [preImageRow, hseq, hentry, ← hb]
    · rintro (⟨i, key, q, hi, hq, hseq, hentry⟩ | rfl)
      · refine ⟨i, key, q, ?_, hq, hseq, ?_⟩
        · rw [hkeys, List.getElem?_append_left (List.getElem?_eq_some_iff.mp hi).1, hi]
        · rw [hentry, valueAtEnd_snoc_of_touched hlate (List.mem_of_getElem? hi)]
      · refine ⟨(touchedKeys ms m.block).length, m.key, p, ?_, hp, rfl, ?_⟩
        · rw [hkeys]
          simp [preImageRow]
        · rw [hpre]
          rfl
  · have hkeys := touchedKeys_snoc_of_not_mem hfirst row.block
    rw [if_neg hb] at hkeys
    rw [isPreImage_snoc hlate hkeys, or_iff_left]
    rintro rfl
    exact hb rfl

theorem OverlayInv.step (h : OverlayInv s st ms rows)
    (happly : m.apply (st.overlay.view s m.key) = .ok next)
    (hm : Mutated s st m.block m.key next st') :
    ∃ rows', OverlayInv s st' (ms ++ [m]) rows' := by
  have hlate := h.late hm
  have hview : ∀ k, st'.overlay.view s k = valueAfter k (statsRow s k) (ms ++ [m]) := by
    intro k
    rw [hm.view, valueAfter, foldl_concat, ← valueAfter, ← h.view]
    by_cases hk : m.key = k
    · subst hk
      simp [Mutation.applyTo, happly]
    · simp [hk, Ne.symm hk]
  have hdirty : ∀ k, k ∈ st'.overlay.dirty ↔ ∃ m' ∈ ms ++ [m], m'.key = k := by
    intro k
    rw [hm.dirty, mem_insert_iff, h.dirty]
    simp [or_comm, or_and_right, exists_or, eq_comm]
  have hheld : ∀ k ∈ st'.overlay.dirty, st'.overlay.values[k]?.isSome := by
    intro k hk
    rw [hm.dirty, mem_insert_iff] at hk
    exact hm.held k (hk.imp_right (h.held k))
  have hlast : ∀ m' ∈ ms ++ [m], ∃ b, st'.overlay.lastBlockByKey[m'.key]? = some b ∧
      m'.block ≤ b := by
    rw [hm.lastBlock]
    refine forall_mem_append.mpr ⟨fun m' hm' => ?_, by simp⟩
    by_cases hk : m.key = m'.key
    · exact ⟨m.block, by simp [hk], hlate m' hm' hk.symm⟩
    · obtain ⟨b, hb, hle⟩ := h.last m' hm'
      exact ⟨b, by simpa [getElem?_insert, hk] using hb, hle⟩
  have hprefixed : (∃ p, HasPrefix m.key p) → ∀ m' ∈ ms ++ [m], ∃ p, HasPrefix m'.key p :=
    fun hp => forall_mem_append.mpr ⟨h.prefixed, forall_mem_singleton.mpr hp⟩
  rcases hm.recorded with ⟨ht, htouched, hbatch, hseq⟩ | ⟨ht, htouched, p, seq, hp, hseq, hbatch⟩
  · -- a repeated touch: an earlier mutation of the batch has the same block and key
    rw [h.touched] at ht
    have hkeys := touchedKeys_snoc_of_mem ht
    obtain ⟨m₀, hm₀, -, hk₀⟩ := mem_touchedKeys.mp ht
    exact ⟨rows, hview, hdirty, hheld, hlast, hprefixed (hk₀ ▸ h.prefixed m₀ hm₀),
      fun b k => by rw [htouched, h.touched, hkeys],
      fun b => by rw [hseq, h.counted, hkeys],
      hbatch ▸ h.batch, hseq ▸ h.drawn,
      fun row => by rw [h.rows_iff, isPreImage_snoc hlate (hkeys row.block)]⟩
  · rw [h.touched] at ht
    have hkeys := touchedKeys_snoc_of_not_mem ht
    obtain ⟨hseq_eq, hmap⟩ : seq = UndoSeqScope.entityStats.seqBase ||| st.undoSeq.getD m.block 0 ∧
        st'.undoSeq = st.undoSeq.insert m.block (st.undoSeq.getD m.block 0 + 1) :=
      nextUndoSeq_eq hseq
    refine ⟨rows ++ [preImageRow m.block seq m.key p (st.overlay.view s m.key)], hview, hdirty,
      hheld, hlast, hprefixed ⟨p, hp⟩, ?_, ?_, by rw [hbatch, h.batch]; simp,
      h.drawn.snoc hseq _, ?_⟩
    · intro b k
      rw [htouched, mem_cons, h.touched, hkeys]
      by_cases hb : m.block = b
      · subst hb; simp [or_comm]
      · simp [hb, Ne.symm hb]
    · intro b
      rw [hmap, getD_insert, hkeys]
      by_cases hb : m.block = b
      · subst hb; simp [h.counted]
      · simp [hb, h.counted]
    · intro row
      rw [isPreImage_snoc_first hlate ht hp, mem_append, mem_singleton, h.rows_iff,
        hseq_eq, h.counted, h.view]

end Step

/-- The mutation a call asks for, if it is one. -/
def OverlayCall.mutation? : OverlayCall → Option Mutation
  | .prefetch _ => none
  | .mutate block key next => some ⟨block, key, fun _ => .ok next⟩
  | .mutateHourly block key by_ ctx =>
    some ⟨block, key, fun prev => applyHourlyIncrement prev by_ ctx⟩
  | .update block key f => some ⟨block, key, f⟩

/-- The mutations of a sequence of calls. -/
def mutationsOf (calls : List OverlayCall) : List Mutation := calls.filterMap (·.mutation?)

omit [Codec UndoLogEntry] in
theorem EntityStatsOverlay.prefetch_ok {o' : EntityStatsOverlay}
    {keys : List Bytes} (h : o.prefetch s keys = .ok o') : Caches s o o' := by
  obtain ⟨values, hload, hret⟩ := bind_eq_ok.mp h
  cases hret
  -- every key loaded so far was absent from the overlay and holds the store's row
  have hinv := foldlM_invariant
    (fun vs : ExtTreeMap Bytes (Option Bytes) => ∀ k : Bytes,
      vs[k]? = o.values[k]? ∨ (o.values[k]? = none ∧ vs[k]? = some (statsRow s k)))
    (fun vs key vs' hkey hvs hstep => ?_) (fun k => .inl rfl) hload
  · refine ⟨fun k => ?_, fun k hk => ?_, rfl, rfl, rfl⟩
    · rcases hinv k with hk | ⟨hnone, hk⟩ <;> simp [view, *]
    · rcases hinv k with hv | ⟨hnone, -⟩
      · exact hv ▸ hk
      · simp [hnone] at hk
  · obtain ⟨loaded, hget, hret⟩ := bind_eq_ok.mp hstep
    cases hret
    obtain ⟨rfl, -⟩ := liftStore_getStatsKey hget
    have hmissing : o.values[key]? = none := by
      have hcontains : o.values.contains key = false := by
        simpa using (mem_filter.mp hkey).2
      exact getElem?_eq_none_of_contains_eq_false hcontains
    intro k
    by_cases hk : key = k
    · subst hk
      exact .inr ⟨hmissing, by simp⟩
    · simpa [getElem?_insert, hk] using hvs k

theorem OverlayInv.call {c : OverlayCall} (h : OverlayInv s st ms rows)
    (hrun : c.run s st = .ok st') :
    ∃ rows', OverlayInv s st' (ms ++ mutationsOf [c]) rows' := by
  match c, hrun with
  | .prefetch _, hrun =>
    obtain ⟨o, hpre, hret⟩ := bind_eq_ok.mp hrun
    cases hret
    obtain ⟨hview, hheld, htouched, hdirty, hlast⟩ := prefetch_ok hpre
    refine ⟨rows, ?_⟩
    simp only [mutationsOf, OverlayCall.mutation?, filterMap_cons, filterMap_nil, append_nil]
    exact { h with
      view := fun k => (hview k).trans (h.view k)
      dirty := by simpa [hdirty] using h.dirty
      held := fun k hk => hheld k (h.held k (by simpa [hdirty] using hk))
      last := by simpa [hlast] using h.last
      touched := by simpa [htouched] using h.touched }
  | .mutate block key next, hrun => exact h.step rfl (mutate_ok hrun)
  | .mutateHourly block key by_ ctx, hrun =>
    simp only [OverlayCall.run] at hrun
    obtain ⟨next, happly, hm⟩ := update_ok hrun
    exact h.step happly hm
  | .update block key f, hrun =>
    obtain ⟨next, happly, hm⟩ := update_ok hrun
    exact h.step happly hm

theorem OverlayInv.calls {cs : List OverlayCall} (h : OverlayInv s st ms rows)
    (hrun : cs.foldlM (OverlayCall.run s) st = .ok st') :
    ∃ rows', OverlayInv s st' (ms ++ mutationsOf cs) rows' := by
  induction cs generalizing st ms rows with
  | nil =>
    cases hrun
    exact ⟨rows, by simpa [mutationsOf] using h⟩
  | cons c cs ih =>
    obtain ⟨st₁, hc, hrest⟩ := foldlM_cons_eq_ok.mp hrun
    obtain ⟨rows₁, h₁⟩ := h.call hc
    obtain ⟨rows₂, h₂⟩ := ih h₁ hrest
    refine ⟨rows₂, ?_⟩
    rw [append_assoc] at h₂
    have hsplit : mutationsOf (c :: cs) = mutationsOf [c] ++ mutationsOf cs := by
      rw [mutationsOf, mutationsOf, mutationsOf, ← filterMap_append]
      rfl
    rwa [hsplit]

/-! ## What a batch stages -/

/-- What the calls with mutations `ms` stage on `s`: the pre-image rows, then one final write per
mutated key. -/
structure Staged (s : DomainStore) (ms : List Mutation) (rows : List UndoRow)
    (finals : DomainBatch) : Prop where
  prefixed : ∀ m ∈ ms, ∃ p, HasPrefix m.key p
  drawn : ∃ undoSeq, Drawn undoSeq rows
  rows_iff : ∀ row, row ∈ rows ↔ IsPreImage s ms row
  final_of_mutated : ∀ m ∈ ms, ∀ cf, cfForStatsKey m.key = .ok cf → ∀ v,
    rowAfter cf m.key v finals = valueAfter m.key (statsRow s m.key) ms
  final_of_other : ∀ cf key, (∀ m ∈ ms, m.key = key → cfForStatsKey key ≠ .ok cf) → ∀ v,
    rowAfter cf key v finals = v

omit [Codec UndoLogEntry] in
/-- The final stage writes the held value of each listed key, and nothing else. -/
theorem foldlM_stageKey_ok {keys : List Bytes}
    {batch batch' : DomainBatch} (h : keys.foldlM (stageKey o) batch = .ok batch') :
    ∃ finals, batch' = batch ++ finals ∧
      (∀ cf key, (key ∈ keys → cfForStatsKey key ≠ .ok cf) → ∀ v, rowAfter cf key v finals = v) ∧
      (∀ cf, ∀ key ∈ keys, cfForStatsKey key = .ok cf → ∀ v,
        some (rowAfter cf key v finals) = o.values[key]?) := by
  induction keys generalizing batch with
  | nil =>
    cases h
    exact ⟨[], by simp, fun _ _ _ _ => rfl, fun _ _ hk => by cases hk⟩
  | cons k keys ih =>
    obtain ⟨batch₁, hk, hrest⟩ := foldlM_cons_eq_ok.mp h
    simp only [stageKey] at hk
    split at hk
    · cases hk
    rename_i value hvalue
    obtain ⟨cf₀, hcf₀, hret⟩ := bind_eq_ok.mp hk
    cases hret
    have hcf₀ : cfForStatsKey k = .ok cf₀ := by
      cases hc : cfForStatsKey k with
      | ok c => rw [hc] at hcf₀; cases hcf₀; rfl
      | error e => rw [hc] at hcf₀; cases hcf₀
    obtain ⟨finals, rfl, hother, hmem⟩ := ih hrest
    refine ⟨.set cf₀ k value :: finals, by simp, fun cf key hkey v => ?_,
      fun cf key hkey hcf v => ?_⟩
    · have hne : ¬ (cf₀ = cf ∧ k = key) := by
        rintro ⟨rfl, rfl⟩
        exact hkey mem_cons_self hcf₀
      rw [rowAfter_cons, WriteOp.effect_set, if_neg hne]
      exact hother cf key (fun hk => hkey (mem_cons_of_mem _ hk)) v
    · rw [rowAfter_cons, WriteOp.effect_set]
      by_cases hlater : key ∈ keys
      · exact hmem cf key hlater hcf _
      · have hkk : k = key := by
          rcases mem_cons.mp hkey with h' | h'
          · exact h'.symm
          · exact absurd h' hlater
        subst hkk
        rw [hcf₀] at hcf
        cases hcf
        rw [if_pos ⟨rfl, rfl⟩, hother cf₀ k (fun hk => absurd hk hlater), hvalue]
        rfl

/-- A successful batch of overlay calls stages what `Staged` says. -/
theorem stageOverlay_ok {calls : List OverlayCall} {batch : DomainBatch}
    (h : stageOverlay s calls = .ok batch) :
    ∃ rows finals, batch = rows.map UndoRow.op ++ finals ∧
      Staged s (mutationsOf calls) rows finals := by
  obtain ⟨st, hcalls, hfinal⟩ := bind_eq_ok.mp h
  obtain ⟨rows, hinv⟩ := (OverlayInv.init s).calls hcalls
  rw [nil_append] at hinv
  obtain ⟨finals, rfl, hother, hmem⟩ := foldlM_stageKey_ok hfinal
  refine ⟨rows, finals, by rw [hinv.batch], hinv.prefixed, ⟨_, hinv.drawn⟩, hinv.rows_iff,
    fun m hm cf hcf v => ?_, fun cf key hkey v => ?_⟩
  · have hdirty := (hinv.dirty m.key).mpr ⟨m, hm, rfl⟩
    rw [← hinv.view, view, ← hmem cf m.key hdirty hcf v]
    rfl
  · refine hother cf key (fun hk => ?_) v
    obtain ⟨m, hm, rfl⟩ := (hinv.dirty key).mp hk
    exact hkey m hm rfl

/-- Committing the staged writes, with operations outside the statistics tables, gives every
statistics key the value of its mutations. -/
theorem Staged.statsRow_write {finals : DomainBatch} (h : Staged s ms rows finals)
    (extra : DomainBatch)
    (hextra : ∀ op ∈ extra, ∀ (p : StatsPrefix) key, op.effect p.cf key = none) (key : Bytes) :
    statsRow (s.write (rows.map UndoRow.op ++ finals ++ extra)) key
      = valueAfter key (statsRow s key) ms := by
  cases hcf : cfForStatsKey key with
  | error e =>
    have hnone : ∀ t, statsRow t key = none := fun t => by rw [statsRow, hcf]
    rw [hnone, hnone, valueAfter_of_not_mem]
    rintro m hm rfl
    obtain ⟨p, hp⟩ := h.prefixed m hm
    rw [hp.cfForStatsKey] at hcf
    cases hcf
  | ok cf =>
    obtain ⟨p, hp, rfl⟩ := hasPrefix_of_cfForStatsKey hcf
    rw [hp.statsRow, OrderedStore.get_write, rowAfter_append, rowAfter_append,
      rowAfter_of_effect_none (fun op hop => hextra op hop p key),
      rowAfter_rows_of_ne _ fun hc => absurd hc p.cf_ne_undoLog]
    by_cases hm : ∃ m ∈ ms, m.key = key
    · obtain ⟨m, hm, rfl⟩ := hm
      exact h.final_of_mutated m hm p.cf hcf _
    · have hnot : ∀ m ∈ ms, m.key ≠ key := fun m hmem hk => hm ⟨m, hmem, hk⟩
      rw [h.final_of_other p.cf key (fun m hmem hk => absurd hk (hnot m hmem)),
        valueAfter_of_not_mem hnot, hp.statsRow]

theorem Staged.rowAfter_undoLog {finals : DomainBatch} (h : Staged s ms rows finals) (key : Bytes)
    (v : Option Bytes) :
    rowAfter .reorgUndoLogByBlock key v (rows.map UndoRow.op ++ finals)
      = rowAfter .reorgUndoLogByBlock key v (rows.map UndoRow.op) := by
  rw [rowAfter_append, h.final_of_other]
  rintro m - - hcf
  obtain ⟨p, -, hp⟩ := hasPrefix_of_cfForStatsKey hcf
  exact p.cf_ne_undoLog hp

end Mutate

end Ckbadger.Writer
