/-
Ckbadger.Bulk.SequencerRun — runs of the sequencer over the arenas of a chain.

A round is what the build does with one arena: the liveness table grows to the
interner's slots, the arena is resolved, and the ids without references are drained.
The result of a run is a function of the chain, not of where it was cut.
-/
import Ckbadger.Bulk.SequencerTheorems

namespace Ckbadger.Bulk

open Lib Sync ChainBlock FinMap LiveCellSummary CellFacts List

variable {slots position : Nat} {txs : List TxFacts} {m : LiveSet} {st st' : ResolveState}
variable {b : ChainBlock} {bs : List BlockFacts} {capacity : Nat → Nat} {arena : FactsArena}
  {chain : List ChainBlock} {resolved rs : List ResolvedTxFacts}

structure Round where
  /-- The slots of the interner once the arena's facts are built. -/
  slotLen : Nat
  arena : FactsArena

structure BulkState where
  sequencer : BulkSequencer := {}
  /-- The reference counts, if they are tracked. -/
  liveness : Option IdentityLiveness

def applyRound (capacity : Nat → Nat) (st : BulkState) (round : Round) :
    Except String (List ResolvedTxFacts × BulkState) := do
  let (resolved, sequencer, liveness) ← resolveInner capacity st.sequencer
    (st.liveness.map fun l => ensureSlots l round.slotLen) round.arena
  return (resolved, ⟨sequencer, liveness.map fun l => (drainZeroCandidates l).2⟩)

def runRounds (capacity : Nat → Nat) (st : BulkState) :
    List Round → Except String (List ResolvedTxFacts × BulkState)
  | [] => .ok ([], st)
  | round :: rounds => do
      let (resolved, st) ← applyRound capacity st round
      let (rest, st) ← runRounds capacity st rounds
      return (resolved ++ rest, st)

/-- The start of a build. -/
def initialState (tracked : Bool) : BulkState := ⟨{}, if tracked then some {} else none⟩

/-- The chain the rounds were cut from. -/
def chainOf (rounds : List Round) : List ChainBlock := rounds.flatMap fun round => round.arena.chain

/-! ## Validity of a run -/

/-- The block ranges cut the transactions from a position on, without a gap or an empty block. -/
def Partition (txs : Nat) : Nat → List BlockFacts → Prop
  | start, [] => start = txs
  | start, b :: bs =>
    b.txRange.start = start ∧ start < b.txRange.stop ∧ b.txRange.stop ≤ txs ∧
      b.transactionsCount = (b.txRange.stop - start : Nat) ∧ Partition txs b.txRange.stop bs

instance decidablePartition (txs : Nat) :
    ∀ (start : Nat) (bs : List BlockFacts), Decidable (Partition txs start bs)
  | start, [] => inferInstanceAs (Decidable (start = txs))
  | start, b :: bs =>
    have := decidablePartition txs b.txRange.stop bs
    inferInstanceAs (Decidable (b.txRange.start = start ∧ start < b.txRange.stop ∧
      b.txRange.stop ≤ txs ∧ b.transactionsCount = (b.txRange.stop - start : Nat) ∧
      Partition txs b.txRange.stop bs))

/-- An arena whose tables fit together. -/
structure ArenaValid (arena : FactsArena) : Prop where
  partition : Partition arena.txs.length 0 arena.blocks
  headers : ∀ b ∈ arena.blocks, ∀ tx ∈ (b.txRange.get? arena.txs).getD [],
    tx.blockNumber = b.number ∧ tx.blockHash = b.hash
  outputs : ∀ tx ∈ arena.txs, (tx.outputRange.get? arena.cells).isSome
  blocks : ∀ b ∈ arena.blocks, 0 ≤ b.number ∧ b.number < 2 ^ 63 ∧ b.hash.length = 32

/-- The arenas are well formed and their transactions valid, one after the other. -/
abbrev RoundsValid (capacity : Nat → Nat) : LiveSet → List Round → Prop :=
  ValidRun (fun m round => round.arena.chain.foldl applyBlock m) fun m round =>
    ArenaValid round.arena ∧
      TxsValid capacity round.slotLen m (round.arena.chain.flatMap ChainBlock.txs)

/-- Numbers that follow each other. -/
def Contiguous (numbers : List Int) : Prop := numbers.IsChain fun a b => b = a + 1

/-- Everything the sequencer holds and returned, as a function of the chain. -/
structure Exact (chain : List ChainBlock) (resolved : List ResolvedTxFacts) (st : BulkState) :
    Prop where
  contiguous : Contiguous (chain.map ChainBlock.number)
  /-- The entries are the live cells, with the facts of the outputs that created them. -/
  entries : ∀ o, st.sequencer.liveCells.live.lookup o
    = ((liveSet chain).lookup o).bind fun c => (slotFromCellFacts c.cell).toOption
  creating : ∀ o c, (liveSet chain).lookup o = some c →
    c.cell.outpoint = o ∧ ∃ t ∈ chain.flatMap ChainBlock.txs, c.cell ∈ t.outputs
  /-- They are the created outpoints less the consumed ones. -/
  outpoints : ∀ o, (createdOutpoints chain).count o = (consumedOutpoints chain).count o
    + if (st.sequencer.liveCells.live.lookup o).isSome then 1 else 0
  counters : st.sequencer.liveCells.summary = ⟨classCount .dao (liveSet chain),
    classCount .typedNonDao (liveSet chain), classCount .plain (liveSet chain),
    dataBearingCount (liveSet chain)⟩
  extras : ∀ o, st.sequencer.liveCells.extras.lookup o
    = ((liveSet chain).lookup o).bind fun c => extrasFromCellFacts c.cell c.ars
  /-- The protocol facts kept are the cells' own, and none for the extension args of an xUDT. -/
  facts : ∀ o facts, st.sequencer.liveCells.protocolFacts.lookup o = some facts ↔
    ∃ c, (liveSet chain).lookup o = some c ∧ c.cell.protocolFacts = some facts ∧
      ∀ args, facts ≠ .xudtExtensions args
  sideTables : ∀ o, (st.sequencer.liveCells.extras.lookup o).isSome ∨
    (st.sequencer.liveCells.protocolFacts.lookup o).isSome →
    (st.sequencer.liveCells.live.lookup o).isSome
  references : ∀ l ∈ st.liveness, ∀ id, l.liveRefs id = referenceCount id (liveSet chain)
  summaries : st.sequencer.liveCellSummaries = summaryWindow (blockSummaries ∅ chain)
  summariesContiguous : Contiguous (st.sequencer.liveCellSummaries.map tipBlockNumber)
  resolved : TxsResolved ∅ (chain.flatMap ChainBlock.txs) resolved

/-! ## The chain's own accounting -/

/-- Transactions that a live set admits, one after the other. -/
abbrev TxsAdmitted : LiveSet → List ChainTx → Prop := ValidRun applyTx TxValid

section Chain

variable {ts us : List ChainTx}

theorem txsResolved_append {rs qs : List ResolvedTxFacts} (h : TxsResolved m ts rs)
    (h' : TxsResolved (ts.foldl applyTx m) us qs) : TxsResolved m (ts ++ us) (rs ++ qs) := by
  induction ts generalizing m rs with
  | nil => cases h; exact h'
  | cons t ts ih =>
    obtain ⟨r, rest, rfl, hr, hrest⟩ := h
    exact ⟨r, rest ++ qs, rfl, hr, ih hrest h'⟩

theorem sum_map_indicator (o : OutPointKey) (os : List OutPointKey) :
    (os.map fun x => if x = o then 1 else 0).sum = os.count o := by
  induction os with
  | nil => rfl
  | cons x os ih =>
    rw [map_cons, sum_cons, ih, count_cons, Nat.add_comm]
    simp

/-- One transaction: what it creates joins the live outpoints, what it spends leaves them. -/
theorem TxValid.conserves {t : ChainTx} (h : TxValid m t) (o : OutPointKey) :
    weight (fun x _ => if x = o then 1 else 0) (applyTx m t) + t.inputs.count o
      = weight (fun x _ => if x = o then 1 else 0) m + (t.outputs.map outpoint).count o := by
  have hkeys := h.outputs_nodup
  rw [← map_outpoint_created m] at hkeys
  have hfresh := (forall_created (p := fun cell =>
    (eraseAll m t.inputs).lookup cell.outpoint = none) m t).mpr h.outputs_fresh
  have hspend := weight_eraseAll (u := fun x => if x = o then 1 else 0) h.inputs_nodup h.inputs_live
  have hcreate := weight_insertAll (w := fun x _ => if x = o then 1 else 0) hkeys hfresh
  have hsum : ((t.created m).map fun c => if c.cell.outpoint = o then 1 else 0).sum
      = (t.outputs.map outpoint).count o := by
    rw [← sum_map_indicator, ← map_outpoint_created m, map_map]
    rfl
  rw [sum_map_indicator] at hspend
  unfold applyTx
  omega

theorem TxsAdmitted.conserves (h : TxsAdmitted m ts) (o : OutPointKey) :
    weight (fun x _ => if x = o then 1 else 0) (ts.foldl applyTx m)
        + (ts.flatMap ChainTx.inputs).count o
      = weight (fun x _ => if x = o then 1 else 0) m
        + (ts.flatMap fun t => t.outputs.map outpoint).count o := by
  induction ts generalizing m with
  | nil => simp
  | cons t ts ih =>
    obtain ⟨ht, hts⟩ := h
    have h₁ := ht.conserves o
    have h₂ := ih hts
    simp only [flatMap_cons, count_append, foldl_cons]
    omega

/-- A live cell was live before, or is an output of one of the transactions. -/
theorem lookup_foldl_applyTx {o : OutPointKey} {c : LiveCell}
    (h : (ts.foldl applyTx m).lookup o = some c) :
    (c.cell.outpoint = o ∧ ∃ t ∈ ts, c.cell ∈ t.outputs) ∨ m.lookup o = some c := by
  induction ts generalizing m with
  | nil => exact .inr h
  | cons t ts ih =>
    rcases ih h with ⟨hkey, t', ht', hmem⟩ | hfound
    · exact .inl ⟨hkey, t', mem_cons_of_mem _ ht', hmem⟩
    · rcases lookup_insertAll hfound with ⟨hmem, hkey⟩ | hbefore
      · refine .inl ⟨hkey, t, mem_cons_self, ?_⟩
        rw [← map_cell_created m t]
        exact mem_map_of_mem hmem
      · exact .inr (lookup_of_eraseAll hbefore)

end Chain

/-! ## Summaries -/

theorem blockSummaries_append (m : LiveSet) (bs cs : List ChainBlock) :
    blockSummaries m (bs ++ cs)
      = blockSummaries m bs ++ blockSummaries (bs.foldl applyBlock m) cs := by
  induction bs generalizing m with
  | nil => rfl
  | cons b bs ih => simp [blockSummaries, ih]

theorem map_tip_blockSummaries (m : LiveSet) (bs : List ChainBlock) :
    (blockSummaries m bs).map tipBlockNumber = bs.map number := by
  induction bs generalizing m with
  | nil => rfl
  | cons b bs ih => simp [blockSummaries, ih, summaryOf]

/-- A summary joins the window, from which the oldest falls out when it is full. -/
theorem summaryWindow_concat (summaries : List LiveCellSummary) (summary : LiveCellSummary) :
    summaryWindow (summaries ++ [summary])
      = (if (summaryWindow summaries).length = liveCellSummaryHistoryBlocks
          then (summaryWindow summaries).tail else summaryWindow summaries) ++ [summary] := by
  unfold summaryWindow liveCellSummaryHistoryBlocks
  rw [length_append, length_drop, length_singleton]
  by_cases hlen : 37 ≤ summaries.length
  · rw [if_pos (by omega), tail_drop, drop_append_of_le_length (by omega)]
    congr 2
    omega
  · rw [if_neg (by omega), show summaries.length - 37 = 0 by omega,
      show summaries.length + 1 - 37 = 0 by omega]
    rfl

theorem getLast?_summaryWindow (summaries : List LiveCellSummary) :
    (summaryWindow summaries).getLast? = summaries.getLast? := by
  unfold summaryWindow liveCellSummaryHistoryBlocks
  rw [getLast?_drop]
  cases summaries with
  | nil => rfl
  | cons s ss => rw [if_neg (by rw [length_cons]; omega)]

/-- Every live cell has one class. -/
theorem classCount_sum (m : LiveSet) :
    classCount .dao m + classCount .typedNonDao m + classCount .plain m
      = weight (fun _ _ => 1) m := by
  unfold classCount
  rw [← weight_add, ← weight_add]
  congr 1
  funext _ c
  cases c.cls <;> rfl

theorem snapshot_ok {c : LiveCellSummaryCounter} (hclasses : ∀ cls, c.get cls = classCount cls m)
    (hdata : c.dataBearing = dataBearingCount m)
    {summary : LiveCellSummary} (h : c.snapshot b.number b.hash = .ok summary) :
    summary = summaryOf m b := by
  unfold LiveCellSummaryCounter.snapshot at h
  split at h
  · cases h
  · simp only at h
    split at h
    · cases h
    · cases h
      rw [summaryOf, ← hclasses, ← hclasses, ← hclasses, ← hdata]
      rfl

theorem snapshot_isOk {c : LiveCellSummaryCounter} (hclasses : ∀ cls, c.get cls = classCount cls m)
    (hdata : c.dataBearing = dataBearingCount m)
    (hnumber : 0 ≤ b.number) (hhash : b.hash.length = 32)
    (hcells : weight (fun _ _ => 1) m < 2 ^ 64) :
    ∃ summary, c.snapshot b.number b.hash = .ok summary := by
  have hsum : c.dao + c.typedNonDao + c.plain = weight (fun _ _ => 1) m := by
    rw [← classCount_sum, ← hclasses, ← hclasses, ← hclasses]
    rfl
  have hle := dataBearingCount_le m
  unfold LiveCellSummaryCounter.snapshot validate liveCells
  simp only [hhash, if_neg (not_lt.mpr hnumber), hsum, if_pos hcells, hdata,
    if_neg (not_lt.mpr hle)]
  exact ⟨_, rfl⟩

/-! ## A block -/

section Block

variable {block : BlockFacts}

/-- The transactions of one block. -/
def resolveTxs (capacity : Nat → Nat) (arena : FactsArena) (block : BlockFacts) (st : LiveState) :
    List TxFacts → Except String (List ResolvedTxFacts × LiveState)
  | [] => .ok ([], st)
  | tx :: txs => do
      let (resolved, st) ← resolveTx capacity arena block st tx
      let (rest, st) ← resolveTxs capacity arena block st txs
      return (resolved :: rest, st)

theorem LiveInv.resolveTxs {st st' : LiveState} (h : LiveInv capacity st m)
    {rs : List ResolvedTxFacts} (hresolve : resolveTxs capacity arena block st txs = .ok (rs, st')) :
    TxsAdmitted m (txs.map arena.chainTx) ∧ TxsResolved m (txs.map arena.chainTx) rs ∧
      LiveInv capacity st' ((txs.map arena.chainTx).foldl applyTx m) ∧ st'.slots = st.slots := by
  induction txs generalizing st m rs with
  | nil =>
    cases hresolve
    exact ⟨trivial, rfl, h, rfl⟩
  | cons tx txs ih =>
    unfold Bulk.resolveTxs at hresolve
    obtain ⟨⟨r, mid⟩, hfirst, hresolve⟩ := bind_eq_ok.mp hresolve
    obtain ⟨⟨rest, last⟩, hrest, hresolve⟩ := bind_eq_ok.mp hresolve
    cases hresolve
    obtain ⟨hvalid, hr, hinv, hslots⟩ := h.resolveTx hfirst
    obtain ⟨hadmitted, hresolved, hinv', hslots'⟩ := ih hinv hrest
    exact ⟨⟨hvalid, hadmitted⟩, ⟨r, rest, rfl, hr, hresolved⟩, hinv', hslots'.trans hslots⟩

theorem LiveInv.resolveTxs_isOk {st : LiveState} (h : LiveInv capacity st m)
    (hheaders : ∀ tx ∈ txs, tx.blockNumber = block.number ∧ tx.blockHash = block.hash)
    (hranges : ∀ tx ∈ txs, (tx.outputRange.get? arena.cells).isSome)
    (hslots : ∀ n ∈ st.slots, slots ≤ n)
    (hvalid : TxsValid capacity slots m (txs.map arena.chainTx)) :
    ∃ result, Bulk.resolveTxs capacity arena block st txs = .ok result := by
  induction txs generalizing st m with
  | nil => exact ⟨_, rfl⟩
  | cons tx txs ih =>
    obtain ⟨⟨htx, hfits, hids⟩, hrest⟩ := hvalid
    obtain ⟨⟨r, mid⟩, hfirst⟩ := h.resolveTx_isOk (hheaders tx mem_cons_self)
      (hranges tx mem_cons_self) htx hfits
      (fun n hn cell hcell id hid => (hids cell hcell id hid).trans_le (hslots n hn))
    obtain ⟨-, -, hinv, hslots'⟩ := h.resolveTx hfirst
    obtain ⟨⟨rest, last⟩, hlast⟩ := ih hinv
      (forall_mem_cons.mp hheaders).2
      (forall_mem_cons.mp hranges).2 (hslots' ▸ hslots) hrest
    unfold Bulk.resolveTxs
    simp only [hfirst, hlast, ok_bind]
    exact ⟨_, rfl⟩

theorem except_bind_assoc {α β γ : Type} (x : Except String α) (f : α → Except String β)
    (g : β → Except String γ) : (x.bind f).bind g = x.bind fun a => (f a).bind g :=
  bind_assoc x f g

theorem resolveEach_cons
    (hblock : arena.blocks[st.nextBlockIndex]? = some block) (position : Nat) (tx : TxFacts)
    (txs : List TxFacts) :
    resolveEach capacity arena st position (tx :: txs)
      = (resolveTx capacity arena block st.live tx).bind fun first =>
        (if position + 1 = block.txRange.stop then finishBlock block { st with live := first.2 }
          else .ok { st with live := first.2 }).bind fun st =>
        (resolveEach capacity arena st (position + 1) txs).bind fun later =>
        .ok (first.1 :: later.1, later.2) := by
  rw [resolveEach, hblock]
  show (resolveTx capacity arena block st.live tx).bind _ = _
  congr 1
  funext first
  simp only
  split <;> rfl

theorem TxsValid.fits (hne : txs ≠ []) (h : TxsValid capacity slots m (txs.map arena.chainTx)) :
    Fits capacity ((txs.map arena.chainTx).foldl applyTx m) := by
  induction txs generalizing m with
  | nil => exact absurd rfl hne
  | cons tx txs ih =>
    obtain ⟨⟨-, hfits, -⟩, hrest⟩ := h
    cases txs with
    | nil => exact hfits
    | cons tx' txs => exact ih (cons_ne_nil _ _) hrest

/-- The loop over the transactions of an arena takes those of the next block, ends it and goes on
with the next. -/
theorem resolveEach_block (hblock : arena.blocks[st.nextBlockIndex]? = some block)
    {seg rest : List TxFacts} (hne : seg ≠ [])
    (hstop : position + seg.length = block.txRange.stop) :
    resolveEach capacity arena st position (seg ++ rest)
      = (resolveTxs capacity arena block st.live seg).bind fun first =>
        (finishBlock block { st with live := first.2 }).bind fun st =>
        (resolveEach capacity arena st block.txRange.stop rest).bind fun later =>
        .ok (first.1 ++ later.1, later.2) := by
  induction seg generalizing st position with
  | nil => exact absurd rfl hne
  | cons tx seg ih =>
    rw [length_cons] at hstop
    rw [cons_append, resolveEach_cons hblock]
    show _ = ((resolveTx capacity arena block st.live tx).bind fun first =>
      (resolveTxs capacity arena block first.2 seg).bind fun later =>
      .ok (first.1 :: later.1, later.2)).bind _
    rw [except_bind_assoc]
    congr 1
    funext first
    cases seg with
    | nil =>
      rw [length_nil] at hstop
      rw [if_pos hstop, hstop]
      rfl
    | cons tx' seg =>
      rw [if_neg (by rw [length_cons] at hstop; omega)]
      have hnext : position + 1 + (tx' :: seg).length = block.txRange.stop := by omega
      have hrest := @ih (position + 1) { st with live := first.2 } hblock (cons_ne_nil _ _) hnext
      show (resolveEach capacity arena { st with live := first.2 } (position + 1) _).bind _ = _
      rw [hrest]
      simp only [except_bind_assoc]
      rfl

theorem finishBlock_ok (h : LiveInv capacity st.live m)
    (hnumber : b.number = block.number) (hhash : b.hash = block.hash)
    (hfinish : finishBlock block st = .ok st') :
    st'.live = st.live ∧ st'.nextBlockIndex = st.nextBlockIndex + 1 ∧
      st'.summaries = (if st.summaries.length = liveCellSummaryHistoryBlocks
        then st.summaries.tail else st.summaries) ++ [summaryOf m b] := by
  obtain ⟨summary, hsummary, hfinish⟩ := bind_eq_ok.mp hfinish
  rw [← hnumber, ← hhash] at hsummary
  have hsum := snapshot_ok h.owner.classes h.owner.dataBearing hsummary
  subst hsum
  split at hfinish
  · cases hfinish
  · cases hfinish
    exact ⟨rfl, rfl, rfl⟩

theorem finishBlock_isOk (st : ResolveState) (h : LiveInv capacity st.live m)
    (hnumber : 0 ≤ block.number) (hhash : block.hash.length = 32) (hfits : Fits capacity m)
    (hwindow : st.summaries.length ≤ liveCellSummaryHistoryBlocks) :
    ∃ st', finishBlock block st = .ok st' := by
  obtain ⟨summary, hsummary⟩ := snapshot_isOk (b := ⟨block.number, block.hash, []⟩)
    h.owner.classes h.owner.dataBearing hnumber hhash hfits.cells
  unfold finishBlock
  rw [hsummary]
  simp only [if_neg (not_lt.mpr hwindow)]
  exact ⟨_, rfl⟩

end Block

/-! ## An arena -/

/-- Numbers that continue after a previous one, within the range of `i64`. -/
def Follows : Option Int → List Int → Prop
  | _, [] => True
  | previous, n :: ns => (∀ p ∈ previous, p + 1 < 2 ^ 63 ∧ n = p + 1) ∧ Follows (some n) ns

theorem validateBlocks_ok {txs start : Nat} {previous : Option Int} :
    validateBlocks txs start previous bs = .ok () ↔
      Partition txs start bs ∧ Follows previous (bs.map BlockFacts.number) := by
  induction bs generalizing start previous with
  | nil => simp [validateBlocks, Partition, Follows]
  | cons b bs ih =>
    simp only [validateBlocks, ite_error_eq_ok, map_cons, Follows]
    cases previous with
    | none =>
      rw [ih]
      constructor
      · rintro ⟨hrange, hneg, hcount, hpart, hfollows⟩
        exact ⟨⟨by omega, by omega, by omega, by omega, hpart⟩, by simp, hfollows⟩
      · rintro ⟨⟨hstart, hlt, hle, hcount, hpart⟩, -, hfollows⟩
        exact ⟨by omega, by omega, by omega, hpart, hfollows⟩
    | some p =>
      simp only [ite_error_eq_ok, ih, Option.mem_def, Option.some.injEq, forall_eq']
      constructor
      · rintro ⟨hrange, hneg, hcount, hbig, hnext, hpart, hfollows⟩
        exact ⟨⟨by omega, by omega, by omega, by omega, hpart⟩, ⟨by omega, by omega⟩, hfollows⟩
      · rintro ⟨⟨hstart, hlt, hle, hcount, hpart⟩, ⟨hsmall, hnext⟩, hfollows⟩
        exact ⟨by omega, by omega, by omega, by omega, by omega, hpart, hfollows⟩

theorem validateBlockPartition_ok {arena : FactsArena} {previous : Option LiveCellSummary} :
    validateBlockPartition arena previous = .ok () ↔
      Partition arena.txs.length 0 arena.blocks ∧
        Follows (previous.map tipBlockNumber) (arena.blocks.map BlockFacts.number) := by
  unfold validateBlockPartition
  cases hblocks : arena.blocks with
  | nil =>
    cases htxs : arena.txs with
    | nil => simp [Partition, Follows]
    | cons tx txs => simp [Partition]
  | cons b bs => exact validateBlocks_ok

theorem Contiguous.append {xs ys : List Int} (h : Contiguous xs) (hys : Follows xs.getLast? ys) :
    Contiguous (xs ++ ys) := by
  induction ys generalizing xs with
  | nil => rwa [append_nil]
  | cons n ns ih =>
    obtain ⟨hn, hns⟩ := hys
    have hnext : Contiguous (xs ++ [n]) := by
      refine isChain_append.mpr ⟨h, .singleton n, fun x hx y hy => ?_⟩
      cases hy
      exact (hn x hx).2
    rw [show xs ++ n :: ns = xs ++ [n] ++ ns by simp]
    exact ih hnext (by rwa [getLast?_concat])

theorem Contiguous.follows {xs ys : List Int} (h : Contiguous (xs ++ ys))
    (hbound : ∀ n ∈ ys, n < 2 ^ 63) : Follows xs.getLast? ys := by
  induction ys generalizing xs with
  | nil => trivial
  | cons n ns ih =>
    refine ⟨fun p hp => ?_, ?_⟩
    · have hn := (isChain_append.mp h).2.2 p hp n rfl
      exact ⟨hn ▸ hbound n mem_cons_self, hn⟩
    · have hnext : Contiguous ((xs ++ [n]) ++ ns) := by
        rw [append_assoc]
        exact h
      have := ih hnext (forall_mem_cons.mp hbound).2
      rw [getLast?_concat] at this
      exact this

/-- The state between blocks, for the chain behind it. -/
structure ChainInv (capacity : Nat → Nat) (live : LiveState) (summaries : List LiveCellSummary)
    (chain : List ChainBlock) (resolved : List ResolvedTxFacts) : Prop where
  live : LiveInv capacity live (liveSet chain)
  admitted : TxsAdmitted ∅ (chain.flatMap ChainBlock.txs)
  resolved : TxsResolved ∅ (chain.flatMap ChainBlock.txs) resolved
  summaries : summaries = summaryWindow (blockSummaries ∅ chain)

theorem liveSet_append (chain bs : List ChainBlock) :
    liveSet (chain ++ bs) = bs.foldl applyBlock (liveSet chain) :=
  foldl_append

theorem txs_chainBlock {block : BlockFacts} (h : block.txRange.get? arena.txs = some txs) :
    (arena.chainBlock block).txs = txs.map arena.chainTx := by
  rw [FactsArena.chainBlock, h]
  rfl

theorem liveSet_concat (chain : List ChainBlock) (block : ChainBlock) :
    liveSet (chain ++ [block]) = block.txs.foldl applyTx (liveSet chain) := by
  rw [liveSet_append]
  rfl

theorem foldl_applyTx_chain (chain : List ChainBlock) :
    (chain.flatMap ChainBlock.txs).foldl applyTx ∅ = liveSet chain := by
  rw [foldl_flatMap]
  rfl

theorem ChainInv.block {live : LiveState}
    (h : ChainInv capacity st.live st.summaries chain resolved) {block : BlockFacts}
    (htxs : block.txRange.get? arena.txs = some txs)
    (hresolve : resolveTxs capacity arena block st.live txs = .ok (rs, live))
    (hfinish : finishBlock block { st with live } = .ok st') :
    ChainInv capacity st'.live st'.summaries (chain ++ [arena.chainBlock block]) (resolved ++ rs) ∧
      st'.live.slots = st.live.slots ∧ st'.nextBlockIndex = st.nextBlockIndex + 1 := by
  obtain ⟨hadmitted, hresolved, hlive, hslots⟩ := h.live.resolveTxs hresolve
  have hblock := txs_chainBlock htxs
  have hflat : (chain ++ [arena.chainBlock block]).flatMap ChainBlock.txs
      = chain.flatMap ChainBlock.txs ++ txs.map arena.chainTx := by
    rw [flatMap_append, flatMap_cons, flatMap_nil, append_nil, hblock]
  have hbefore := foldl_applyTx_chain chain
  rw [← hblock, ← liveSet_concat] at hlive
  obtain ⟨hsame, hnext, hsummaries⟩ :=
    finishBlock_ok hlive (b := arena.chainBlock block) rfl rfl hfinish
  refine ⟨⟨hsame ▸ hlive, ?_, ?_, ?_⟩, ?_, hnext⟩
  · rw [hflat]
    exact validRun_append.mpr ⟨h.admitted, hbefore ▸ hadmitted⟩
  · rw [hflat]
    exact txsResolved_append h.resolved (hbefore ▸ hresolved)
  · rw [hsummaries, h.summaries, blockSummaries_append, ← summaryWindow_concat]
    show _ = summaryWindow (_ ++ [summaryOf (applyBlock (liveSet chain) _) _])
    rw [liveSet_append]
    rfl
  · rw [hsame]
    exact hslots

/-- The transactions a range covers, as the head of those that are left. -/
theorem range_get {block : BlockFacts} (hstart : block.txRange.start = position)
    (hlt : position < block.txRange.stop) (hle : block.txRange.stop ≤ arena.txs.length) :
    ∃ seg : List TxFacts, block.txRange.get? arena.txs = some seg ∧ seg ≠ [] ∧
      position + seg.length = block.txRange.stop ∧
      arena.txs.drop position = seg ++ arena.txs.drop block.txRange.stop := by
  have hlen : ((arena.txs.drop position).take (block.txRange.stop - position)).length
      = block.txRange.stop - position := by
    rw [length_take, length_drop]
    omega
  refine ⟨(arena.txs.drop position).take (block.txRange.stop - position), ?_, ?_, ?_, ?_⟩
  · rw [IndexRange.get?, if_pos ⟨by omega, hle⟩, hstart]
  · intro hnil
    rw [hnil, length_nil] at hlen
    omega
  · omega
  · have hdrop : arena.txs.drop block.txRange.stop
        = (arena.txs.drop position).drop (block.txRange.stop - position) := by
      rw [drop_drop]
      congr 1
      omega
    rw [hdrop, take_append_drop]

theorem getElem?_of_drop {α : Type} {l rest : List α} {i : Nat} {a : α}
    (h : l.drop i = a :: rest) : l[i]? = some a ∧ l.drop (i + 1) = rest := by
  constructor
  · have : (l.drop i)[0]? = some a := by rw [h]; rfl
    rw [getElem?_drop] at this
    exact this
  · rw [← drop_drop, h]
    rfl

theorem ChainInv.resolveEach (st : ResolveState)
    (h : ChainInv capacity st.live st.summaries chain resolved)
    (hpart : Partition arena.txs.length position bs)
    (hblocks : arena.blocks.drop st.nextBlockIndex = bs)
    (hresolve : resolveEach capacity arena st position (arena.txs.drop position) = .ok (rs, st')) :
    ChainInv capacity st'.live st'.summaries (chain ++ bs.map arena.chainBlock) (resolved ++ rs) ∧
      st'.live.slots = st.live.slots := by
  induction bs generalizing st position chain resolved rs with
  | nil =>
    rw [show position = arena.txs.length from hpart, drop_length] at hresolve
    cases hresolve
    rw [map_nil, append_nil, append_nil]
    exact ⟨h, rfl⟩
  | cons b bs ih =>
    obtain ⟨hstart, hlt, hle, -, hrest⟩ := hpart
    obtain ⟨hb, hnext⟩ := getElem?_of_drop hblocks
    obtain ⟨seg, hseg, hne, hstop, hdrop⟩ := range_get hstart hlt hle
    rw [hdrop, resolveEach_block hb hne hstop] at hresolve
    obtain ⟨⟨first, live⟩, hfirst, hresolve⟩ := bind_eq_ok.mp hresolve
    obtain ⟨mid, hmid, hresolve⟩ := bind_eq_ok.mp hresolve
    obtain ⟨⟨later, last⟩, hlater, hresolve⟩ := bind_eq_ok.mp hresolve
    cases hresolve
    obtain ⟨hinv, hslots, hindex⟩ := h.block hseg hfirst hmid
    obtain ⟨hinv', hslots'⟩ := ih mid hinv hrest (by rw [hindex]; exact hnext) hlater
    rw [append_assoc, append_assoc] at hinv'
    exact ⟨hinv', hslots'.trans hslots⟩

theorem ChainInv.resolveEach_isOk (st : ResolveState)
    (h : ChainInv capacity st.live st.summaries chain resolved) (harena : ArenaValid arena)
    (hpart : Partition arena.txs.length position bs)
    (hblocks : arena.blocks.drop st.nextBlockIndex = bs) (hslots : ∀ n ∈ st.live.slots, slots ≤ n)
    (hvalid : TxsValid capacity slots (liveSet chain)
      ((bs.map arena.chainBlock).flatMap ChainBlock.txs)) :
    ∃ rs st', Bulk.resolveEach capacity arena st position (arena.txs.drop position) = .ok (rs, st') ∧
      st'.nextBlockIndex = st.nextBlockIndex + bs.length := by
  induction bs generalizing st position chain resolved with
  | nil =>
    rw [show position = arena.txs.length from hpart, drop_length]
    exact ⟨[], st, rfl, rfl⟩
  | cons b bs ih =>
    obtain ⟨hstart, hlt, hle, -, hrest⟩ := hpart
    obtain ⟨hb, hnext⟩ := getElem?_of_drop hblocks
    obtain ⟨seg, hseg, hne, hstop, hdrop⟩ := range_get hstart hlt hle
    have hmem : b ∈ arena.blocks := mem_of_getElem? hb
    obtain ⟨hnumber, -, hhash⟩ := harena.blocks b hmem
    have htxs := txs_chainBlock hseg
    rw [map_cons, flatMap_cons, htxs] at hvalid
    obtain ⟨hfirst, hlater⟩ := validRun_append.mp hvalid
    have hheaders := harena.headers b hmem
    rw [hseg, Option.getD_some] at hheaders
    have hsub : ∀ tx ∈ seg, tx ∈ arena.txs := by
      intro tx htx
      exact mem_of_mem_drop (hdrop ▸ mem_append_left _ htx)
    obtain ⟨⟨first, live⟩, hok⟩ := h.live.resolveTxs_isOk hheaders
      (fun tx htx => harena.outputs tx (hsub tx htx)) hslots hfirst
    obtain ⟨-, -, hlive, -⟩ := h.live.resolveTxs hok
    have hwindow : st.summaries.length ≤ liveCellSummaryHistoryBlocks := by
      rw [h.summaries, summaryWindow, length_drop]
      omega
    obtain ⟨mid, hmid⟩ := finishBlock_isOk { st with live } hlive hnumber hhash
      (TxsValid.fits hne hfirst) hwindow
    obtain ⟨hinv, hslots', hindex⟩ := h.block hseg hok hmid
    rw [← htxs, ← liveSet_concat] at hlater
    obtain ⟨later, last, hlast, hcount⟩ := ih mid hinv hrest (by rw [hindex]; exact hnext)
      (hslots' ▸ hslots) hlater
    refine ⟨first ++ later, last, ?_, by rw [hcount, length_cons]; omega⟩
    rw [hdrop, resolveEach_block hb hne hstop, hok]
    simp [Except.bind, hmid, hlast]

/-- The number a window ends with is the number of the last block. -/
theorem ChainInv.previous {live : LiveState} {summaries : List LiveCellSummary}
    (h : ChainInv capacity live summaries chain resolved) :
    summaries.getLast?.map tipBlockNumber = (chain.map number).getLast? := by
  rw [h.summaries, getLast?_summaryWindow, ← getLast?_map, map_tip_blockSummaries]

theorem map_number_chain (arena : FactsArena) :
    arena.chain.map number = arena.blocks.map BlockFacts.number := by
  rw [FactsArena.chain, map_map]
  rfl

theorem ChainInv.resolveInner {sequencer sequencer' : BulkSequencer}
    {liveness liveness' : Option IdentityLiveness}
    (h : ChainInv capacity ⟨sequencer.liveCells, liveness⟩ sequencer.liveCellSummaries chain resolved)
    (hcontiguous : Contiguous (chain.map number))
    (hresolve : resolveInner capacity sequencer liveness arena = .ok (rs, sequencer', liveness')) :
    ChainInv capacity ⟨sequencer'.liveCells, liveness'⟩ sequencer'.liveCellSummaries
        (chain ++ arena.chain) (resolved ++ rs) ∧
      Contiguous ((chain ++ arena.chain).map number) := by
  unfold Bulk.resolveInner at hresolve
  obtain ⟨⟨⟩, hpartition, hresolve⟩ := bind_eq_ok.mp hresolve
  obtain ⟨⟨txs, st⟩, heach, hresolve⟩ := bind_eq_ok.mp hresolve
  rw [validateBlockPartition_ok, h.previous] at hpartition
  simp only at hresolve
  split at hresolve
  · cases hresolve
  · cases hresolve
    refine ⟨?_, ?_⟩
    · exact (ChainInv.resolveEach
        ⟨⟨sequencer.liveCells, liveness⟩, sequencer.liveCellSummaries, 0⟩ h
        hpartition.1 rfl heach).1
    · rw [map_append, map_number_chain]
      exact hcontiguous.append hpartition.2

theorem ChainInv.resolveInner_isOk {sequencer : BulkSequencer} {liveness : Option IdentityLiveness}
    (h : ChainInv capacity ⟨sequencer.liveCells, liveness⟩ sequencer.liveCellSummaries chain resolved)
    (hcontiguous : Contiguous ((chain ++ arena.chain).map ChainBlock.number))
    (harena : ArenaValid arena) (hslots : ∀ l ∈ liveness, slots ≤ l.slots.length)
    (hvalid : TxsValid capacity slots (liveSet chain) (arena.chain.flatMap ChainBlock.txs)) :
    ∃ result, Bulk.resolveInner capacity sequencer liveness arena = .ok result := by
  have hpartition : validateBlockPartition arena sequencer.liveCellSummaries.getLast? = .ok () := by
    rw [validateBlockPartition_ok, h.previous]
    refine ⟨harena.partition, ?_⟩
    rw [map_append, map_number_chain] at hcontiguous
    refine hcontiguous.follows fun n hn => ?_
    obtain ⟨b, hb, rfl⟩ := mem_map.mp hn
    exact (harena.blocks b hb).2.1
  have hslots' : ∀ n ∈ (⟨sequencer.liveCells, liveness⟩ : LiveState).slots, slots ≤ n := by
    intro n hn
    obtain ⟨l, hl, rfl⟩ := Option.map_eq_some_iff.mp hn
    exact hslots l hl
  obtain ⟨rs, st, heach, hcount⟩ := ChainInv.resolveEach_isOk
    ⟨⟨sequencer.liveCells, liveness⟩, sequencer.liveCellSummaries, 0⟩ h harena
    harena.partition rfl hslots' hvalid
  unfold Bulk.resolveInner
  rw [drop_zero] at heach
  simp only [hpartition, heach, ok_bind]
  rw [if_neg (by rw [not_ne_iff, hcount, Nat.zero_add])]
  exact ⟨_, rfl⟩

/-! ## Runs -/

section Runs

variable {st st' : BulkState}

theorem liveRefs_ensureSlots (l : IdentityLiveness) (slotLen : Nat) (id : InternId) :
    (ensureSlots l slotLen).liveRefs id = l.liveRefs id := by
  unfold IdentityLiveness.liveRefs ensureSlots
  simp only [getElem?_append]
  split
  · rfl
  · rename_i hid
    rw [getElem?_eq_none (not_lt.mp hid), getElem?_replicate]
    split <;> rfl

theorem liveRefs_drain (l : IdentityLiveness) (id : InternId) :
    (drainZeroCandidates l).2.liveRefs id = l.liveRefs id := by
  unfold drainZeroCandidates IdentityLiveness.liveRefs
  generalize l.zeroCandidates = ids
  generalize l.slots = slots
  induction ids generalizing slots with
  | nil => rfl
  | cons x ids ih =>
    rw [foldl_cons, ih, getElem?_modify]
    split
    · cases slots[id]? with
      | none => rfl
      | some slot => rfl
    · cases slots[id]? with
      | none => rfl
      | some slot => rfl

/-- The state between rounds, for the chain behind it. -/
structure RunInv (capacity : Nat → Nat) (st : BulkState) (chain : List ChainBlock)
    (resolved : List ResolvedTxFacts) : Prop where
  blocks : ChainInv capacity ⟨st.sequencer.liveCells, st.liveness⟩ st.sequencer.liveCellSummaries
    chain resolved
  contiguous : Contiguous (chain.map number)

theorem RunInv.init (tracked : Bool) : RunInv capacity (initialState tracked) [] [] where
  blocks := by
    refine ⟨⟨OwnerInv.init, fun l hl id => ?_⟩, trivial, rfl, rfl⟩
    cases tracked with
    | false => cases hl
    | true => cases hl; rfl
  contiguous := .nil

/-- The liveness table may be exchanged for one with the same counts. -/
theorem ChainInv.liveness {owner : LiveCellOwner} {liveness : Option IdentityLiveness}
    {summaries : List LiveCellSummary}
    (h : ChainInv capacity ⟨owner, liveness⟩ summaries chain resolved)
    {f : IdentityLiveness → IdentityLiveness} (hf : ∀ l id, (f l).liveRefs id = l.liveRefs id) :
    ChainInv capacity ⟨owner, liveness.map f⟩ summaries chain resolved := by
  refine ⟨⟨h.live.owner, fun l hl id => ?_⟩, h.admitted, h.resolved, h.summaries⟩
  obtain ⟨l', hl', rfl⟩ := Option.map_eq_some_iff.mp hl
  rw [hf]
  exact h.live.references l' hl' id

section

variable (h : RunInv capacity st chain resolved)

include h

theorem RunInv.applyRound {round : Round}
    (happly : applyRound capacity st round = .ok (rs, st')) :
    RunInv capacity st' (chain ++ round.arena.chain) (resolved ++ rs) := by
  unfold Bulk.applyRound at happly
  obtain ⟨⟨txs, sequencer, liveness⟩, hresolve, happly⟩ := bind_eq_ok.mp happly
  cases happly
  obtain ⟨hchain, hcontiguous⟩ := (h.blocks.liveness
    (fun l id => liveRefs_ensureSlots l round.slotLen id)).resolveInner h.contiguous hresolve
  exact ⟨hchain.liveness liveRefs_drain, hcontiguous⟩

theorem RunInv.runRounds {rounds : List Round}
    (hrun : runRounds capacity st rounds = .ok (rs, st')) :
    RunInv capacity st' (chain ++ chainOf rounds) (resolved ++ rs) := by
  induction rounds generalizing st chain resolved rs with
  | nil =>
    cases hrun
    rw [chainOf, flatMap_nil, append_nil, append_nil]
    exact h
  | cons round rounds ih =>
    unfold Bulk.runRounds at hrun
    obtain ⟨⟨first, mid⟩, hfirst, hrun⟩ := bind_eq_ok.mp hrun
    obtain ⟨⟨rest, last⟩, hrest, hrun⟩ := bind_eq_ok.mp hrun
    cases hrun
    have hlast := ih (h.applyRound hfirst) hrest
    rw [append_assoc, append_assoc] at hlast
    exact hlast

theorem RunInv.runRounds_isOk {rounds : List Round}
    (hcontiguous : Contiguous ((chain ++ chainOf rounds).map number))
    (hvalid : RoundsValid capacity (liveSet chain) rounds) :
    ∃ result, Bulk.runRounds capacity st rounds = .ok result := by
  induction rounds generalizing st chain resolved with
  | nil => exact ⟨_, rfl⟩
  | cons round rounds ih =>
    obtain ⟨⟨harena, htxs⟩, hrest⟩ := hvalid
    rw [chainOf, flatMap_cons, ← append_assoc] at hcontiguous
    have hprefix : Contiguous ((chain ++ round.arena.chain).map number) := by
      rw [map_append] at hcontiguous
      exact (isChain_append.mp hcontiguous).1
    obtain ⟨⟨txs, sequencer, liveness⟩, hresolve⟩ := (h.blocks.liveness
      (fun l id => liveRefs_ensureSlots l round.slotLen id)).resolveInner_isOk hprefix harena
      (fun l hl => by
        obtain ⟨l', -, rfl⟩ := Option.map_eq_some_iff.mp hl
        rw [ensureSlots, length_append, length_replicate]
        omega) htxs
    have happly : Bulk.applyRound capacity st round
        = .ok (txs, ⟨sequencer, liveness.map fun l => (drainZeroCandidates l).2⟩) := by
      unfold Bulk.applyRound
      rw [hresolve]
      rfl
    obtain ⟨⟨rest, last⟩, hlast⟩ := ih (h.applyRound happly) hcontiguous
      (by rw [liveSet_append]; exact hrest)
    unfold Bulk.runRounds
    simp only [happly, hlast, ok_bind]
    exact ⟨_, rfl⟩

theorem RunInv.exact : Exact chain resolved st := by
  have hset := foldl_applyTx_chain chain
  have howner := h.blocks.live.owner
  have hlive : ∀ o, (st.sequencer.liveCells.live.lookup o).isSome
      = ((liveSet chain).lookup o).isSome := by
    intro o
    rw [howner.live o]
    cases hc : (liveSet chain).lookup o with
    | none => rfl
    | some c =>
      obtain ⟨slot, hslot⟩ := slotFromCellFacts_isSome (howner.cells o c hc).2.dataHash
      rw [Option.bind_some, hslot]
      rfl
  refine ⟨h.contiguous, howner.live, fun o c hc => ?_, fun o => ?_, ?_, howner.extras,
    fun o facts => ?_, fun o hside => ?_, h.blocks.live.references, h.blocks.summaries, ?_, h.blocks.resolved⟩
  · rw [← hset] at hc
    rcases lookup_foldl_applyTx hc with hcreated | hempty
    · exact hcreated
    · cases hempty
  · have hconserved := h.blocks.admitted.conserves o
    rw [hset, weight_empty, weight_key] at hconserved
    rw [hlive, createdOutpoints, consumedOutpoints]
    omega
  · rw [← howner.classes, ← howner.classes, ← howner.classes, ← howner.dataBearing]
    rfl
  · simp only [howner.facts, Option.bind_eq_some_iff, keptWhileLive_eq_some]
  · rw [hlive]
    rw [howner.extras, howner.facts] at hside
    cases hc : (liveSet chain).lookup o with
    | none => rw [hc] at hside; simp at hside
    | some c => rfl
  · rw [h.blocks.summaries, summaryWindow, map_drop, map_tip_blockSummaries]
    exact h.contiguous.drop _

end

end Runs

/-- **The sequencer keeps the live set exactly.** Whenever a run over the arenas of a chain gets
through, everything it holds and everything it returned is a function of the chain: the entries
are the created outpoints less the consumed ones with the facts of the outputs that created
them, the counters and the reference counts are those of that set, the side tables have only
live keys, the window holds the last block-end summaries, and every resolved input carries the
facts of the cell it spends. And a run over a contiguous chain of valid transactions does get
through, wherever it is cut into arenas. -/
theorem sequencer_keeps_liveSet (capacity : Nat → Nat) (tracked : Bool) (rounds : List Round) :
    (∀ resolved st, runRounds capacity (initialState tracked) rounds = .ok (resolved, st) →
      Exact (chainOf rounds) resolved st) ∧
    (Contiguous ((chainOf rounds).map number) → RoundsValid capacity ∅ rounds →
      ∃ resolved st, runRounds capacity (initialState tracked) rounds = .ok (resolved, st)) := by
  constructor
  · intro resolved st hrun
    exact ((RunInv.init tracked).runRounds hrun).exact
  · intro hcontiguous hvalid
    obtain ⟨⟨resolved, st⟩, hrun⟩ := (RunInv.init tracked).runRounds_isOk hcontiguous hvalid
    exact ⟨resolved, st, hrun⟩

/-- A plain cell whose references are the identities `0`, `1` and `2`. -/
def plainCell (outpoint : OutPointKey) (block : Int) : CellFacts where
  outpoint := outpoint
  createdAtBlock := block
  createdByBlockDaoAr := 10
  capacity := 61
  lockScriptHashId := 0
  lockCodeHashId := 1
  lockHashType := 1
  lockArgsId := 2
  typeScriptHashId := none
  typeCodeHashId := none
  typeHashType := none
  typeArgsId := none
  occupiedCapacity := 61
  dataSize := 0
  data := []
  dataHash := some []
  udtAmount := none
  semanticTag := .plain
  daoState := none
  protocolFacts := none

/-- A transaction of block `block` at position `index`. -/
def plainTx (block index : Nat) (inputs : List OutPointKey) (outputs : IndexRange) : TxFacts where
  hash := [UInt8.ofNat block, UInt8.ofNat index]
  blockNumber := block
  blockHash := List.replicate 32 0
  timestampMs := 0
  chainTimeMs := 0
  blockDaoAr := 10
  txIndex := index
  isCellbase := index = 0
  dotbitAction := none
  inputOutpoints := inputs
  outputRange := outputs

/-- Block 0 creates a cell, block 1 spends it in its second transaction. -/
def spendRounds : List Round :=
  [⟨3, ⟨[⟨0, List.replicate 32 0, 1, ⟨0, 1⟩⟩], [plainTx 0 0 [] ⟨0, 1⟩], [plainCell ⟨[0, 0], 0⟩ 0]⟩⟩,
    ⟨3, ⟨[⟨1, List.replicate 32 0, 2, ⟨0, 2⟩⟩],
      [plainTx 1 0 [] ⟨0, 0⟩, plainTx 1 1 [⟨[0, 0], 0⟩] ⟨0, 1⟩], [plainCell ⟨[1, 1], 0⟩ 1]⟩⟩]

theorem referenceCount_le (id : InternId) (m : LiveSet) :
    referenceCount id m ≤ weight (fun _ _ => 6) m := by
  refine weight_le fun _ c => count_le_length.trans ?_
  unfold references
  cases c.cell.typeScriptHashId <;> cases c.cell.typeCodeHashId <;> cases c.cell.typeArgsId <;>
    simp

theorem plainTx_valid {t : ChainTx} (hnodup : t.inputs.Nodup)
    (hlive : ∀ o ∈ t.inputs, (m.lookup o).isSome) (hlength : t.inputs.length ≤ 2 ^ 31)
    (hkeys : (t.outputs.map outpoint).Nodup)
    (hfresh : ∀ cell ∈ t.outputs, (eraseAll m t.inputs).lookup cell.outpoint = none)
    (hplain : ∀ cell ∈ t.outputs, cell = plainCell cell.outpoint cell.createdAtBlock) :
    TxValid m t := by
  refine ⟨hnodup, hlive, hlength, hkeys, hfresh, fun cell hcell => ?_, fun hany => ?_⟩
  · rw [hplain cell hcell]
    exact ⟨rfl, rfl, fun h => (by cases h), le_refl 0⟩
  · obtain ⟨cell, hcell, hrequest⟩ := any_eq_true.mp hany
    rw [hplain cell hcell] at hrequest
    cases hrequest

theorem fits_of_small
    (h : weight (fun _ _ => 6) m < 2 ^ 32 ∧ liveHeapBytes id m < 2 ^ 64) : Fits id m := by
  refine ⟨?_, fun i => (referenceCount_le i m).trans_lt h.1, h.2⟩
  have hle : weight (fun _ _ => 1) m ≤ weight (fun _ _ => 6) m :=
    weight_le fun _ _ => by decide
  omega

theorem spendRounds_exact :
    Contiguous ((chainOf spendRounds).map number) ∧ RoundsValid id ∅ spendRounds ∧
      ∃ resolved st, runRounds id (initialState true) spendRounds = .ok (resolved, st) ∧
        Exact (chainOf spendRounds) resolved st := by
  have hcontiguous : Contiguous ((chainOf spendRounds).map number) := by
    unfold Contiguous
    decide +kernel
  have hvalid : RoundsValid id ∅ spendRounds := by
    refine ⟨⟨⟨?_, ?_, ?_, ?_⟩, ⟨plainTx_valid ?_ ?_ ?_ ?_ ?_ ?_, fits_of_small ?_, ?_⟩, trivial⟩,
      ⟨⟨?_, ?_, ?_, ?_⟩, ⟨plainTx_valid ?_ ?_ ?_ ?_ ?_ ?_, fits_of_small ?_, ?_⟩,
        ⟨plainTx_valid ?_ ?_ ?_ ?_ ?_ ?_, fits_of_small ?_, ?_⟩, trivial⟩, trivial⟩
    all_goals decide +kernel
  obtain ⟨hexact, hruns⟩ := sequencer_keeps_liveSet id true spendRounds
  obtain ⟨resolved, st, hrun⟩ := hruns hcontiguous hvalid
  exact ⟨hcontiguous, hvalid, resolved, st, hrun, hexact resolved st hrun⟩

end Ckbadger.Bulk
