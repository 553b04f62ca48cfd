/-
Ckbadger.Sync.TokenRollback — a token's row under a batch and a rollback.

Undo replay owns the row's existence and metadata: it restores the row of the block before
the first metadata change it takes back, with the transfer count of that time. The counter
is then reversed by the number of transfer rows the rollback deletes, and the row takes the
counter's value.
-/
import Ckbadger.Lib.Staging
import Ckbadger.Writer.TokenRowTheorems

namespace Ckbadger.Sync

open Lib Store Writer Std TokenRowThroughBatch TokenTransfersThroughBatch List

/-! ## Rows -/

/-- The rows of the store that a token's row and its transfer count depend on. Transfer rows are
listed by their keys, undo entries of token rows in key order. -/
structure TokenRows where
  tokens : ExtTreeMap Bytes TokenInfo
  transfersCounts : ExtTreeMap Bytes Int
  transfers : List TokenTransferKey
  undoLog : List (Journal.Record Bytes TokenInfo)

def TokenRows.getTokenTransfersCount (rows : TokenRows) (typeHash : Bytes) : Int :=
  rows.transfersCounts[typeHash]?.getD 0

/-! ## A batch -/

/-- The transfer rows a batch puts for its token, one for each transfer. -/
def transferRows (t : TokenRowThroughBatch) : List TokenTransferKey :=
  match t.transfers with
  | none => []
  | some transfers => transfers.byBlock.toList.flatMap fun e =>
    (List.range e.2.toNat).map fun index => ⟨t.typeHash, e.1, index⟩

/-- What a batch writes for one token. -/
def TokenRows.putToken (rows : TokenRows) (t : TokenRowThroughBatch) :
    Except String TokenRows := do
  let (records, updated) ← t.stage
  return {
    tokens := rows.tokens.insert t.typeHash updated
    transfersCounts := if t.transfers.isSome then
        rows.transfersCounts.insert t.typeHash updated.transfersCount
      else rows.transfersCounts
    transfers := rows.transfers ++ transferRows t
    undoLog := rows.undoLog ++ records }

/-! ## A rollback -/

/-- Undo replay: the entries above the fork point, newest first, each deleted. -/
def TokenRows.rollbackViaUndoLog (rows : TokenRows) (rollbackTo : Int) : TokenRows :=
  { rows with
    tokens := (rows.undoLog.filter fun r => rollbackTo < r.time).foldr restoreRow rows.tokens
    undoLog := rows.undoLog.filter fun r => r.time ≤ rollbackTo }

/-- The transfer rows of a token above the fork point. -/
def TokenRows.transfersAbove (rows : TokenRows) (rollbackTo : Int) (typeHash : Bytes) :
    List TokenTransferKey :=
  rows.transfers.filter fun k => k.typeHash = typeHash ∧ rollbackTo < k.blockNumber

/-- Stage 8 deletes the transfer rows above the fork point. -/
def TokenRows.deleteTokenTransfers (rows : TokenRows) (rollbackTo : Int) : TokenRows :=
  { rows with transfers := rows.transfers.filter fun k => k.blockNumber ≤ rollbackTo }

/-- Stage 9d for one token, with the number of its transfer rows that stage 8 has deleted. -/
def TokenRows.rollbackTokenInfo (rows : TokenRows) (typeHash : Bytes) (transfersRemoved : Int) :
    Except String TokenRows :=
  if transfersRemoved = 0 then return rows
  else do
    let currentCount := rows.getTokenTransfersCount typeHash
    let newCount ← checked 64 (currentCount - transfersRemoved)
      "token stats transfers_count underflow during rollback"
    ensure (0 ≤ newCount) "token stats transfers_count underflow during rollback"
    match rows.tokens[typeHash]? with
    | some row => do
        ensure (newCount ≤ row.transfersCount ∧ row.transfersCount ≤ currentCount)
          "token row transfers_count outside the rolled-back range"
        return { rows with
          tokens := rows.tokens.insert typeHash { row with transfersCount := newCount }
          transfersCounts := rows.transfersCounts.insert typeHash newCount }
    | none => do
        ensure (newCount = 0) "token row absent after undo replay but transfers survive the rollback"
        return { rows with transfersCounts := rows.transfersCounts.erase typeHash }

/-- The rollback of one token: undo replay, then the deletion of transfer rows, then stage 9d. -/
def TokenRows.rollbackToken (rows : TokenRows) (rollbackTo : Int) (typeHash : Bytes) :
    Except String TokenRows :=
  let replayed := rows.rollbackViaUndoLog rollbackTo
  let removed := (replayed.transfersAbove rollbackTo typeHash).length
  (replayed.deleteTokenTransfers rollbackTo).rollbackTokenInfo typeHash removed

/-! ## Transfer rows -/

/-- The rows a list of per-block counts stands for. -/
theorem length_filter_transferRows {counts : List (Int × Int)} (hcounts : ∀ e ∈ counts, 0 < e.2)
    {last : Int} (hlast : ∀ e ∈ counts, e.1 ≤ last) (rollbackTo : Int) (typeHash : Bytes) :
    (((counts.flatMap fun e => (List.range e.2.toNat).map fun index =>
        (⟨typeHash, e.1, index⟩ : TokenTransferKey)).filter fun k =>
          k.typeHash = typeHash ∧ rollbackTo < k.blockNumber).length : Int)
      + ((counts.filter fun e => e.1 ≤ rollbackTo).map Prod.snd).sum
      = ((counts.filter fun e => e.1 ≤ last).map Prod.snd).sum := by
  induction counts with
  | nil => rfl
  | cons e counts ih =>
    have he := hcounts e mem_cons_self
    have hle := hlast e mem_cons_self
    have hrest := ih (forall_mem_cons.mp hcounts).2 (forall_mem_cons.mp hlast).2
    rw [flatMap_cons, filter_append, length_append, filter_cons,
      filter_cons, if_pos (decide_eq_true hle), map_cons, sum_cons]
    have hkeys : (((List.range e.2.toNat).map fun index =>
        (⟨typeHash, e.1, index⟩ : TokenTransferKey)).filter fun k =>
          k.typeHash = typeHash ∧ rollbackTo < k.blockNumber).length
        = if rollbackTo < e.1 then e.2.toNat else 0 := by
      rw [filter_map, length_map]
      split <;> simp [Function.comp_def, *]
    rw [hkeys]
    by_cases hb : e.1 ≤ rollbackTo
    · rw [if_neg (by omega), if_pos (decide_eq_true hb), map_cons, sum_cons]
      omega
    · rw [if_pos (by omega), if_neg (by simpa using hb)]
      omega

/-! ## The rollback of a batch -/

/-- Stage 9d gives a row whose count lies in the rolled-back range the count of the surviving
transfers, and deletes the counter of a row that undo replay has deleted. -/
theorem TokenRows.rollbackTokenInfo_eq_ok {rows : TokenRows} {typeHash : Bytes} {removed : Int}
    (hremoved : 0 ≤ removed) (hcurrent : rows.getTokenTransfersCount typeHash < 2 ^ 63)
    (hsurvive : removed ≤ rows.getTokenTransfersCount typeHash)
    (hrange : ∀ row ∈ rows.tokens[typeHash]?,
      rows.getTokenTransfersCount typeHash - removed ≤ row.transfersCount ∧
        row.transfersCount ≤ rows.getTokenTransfersCount typeHash)
    (habsent : rows.tokens[typeHash]? = none →
      rows.getTokenTransfersCount typeHash - removed = 0) :
    ∃ final, rows.rollbackTokenInfo typeHash removed = .ok final ∧
      final.tokens[typeHash]? = (rows.tokens[typeHash]?).map (fun row =>
        { row with transfersCount := rows.getTokenTransfersCount typeHash - removed }) ∧
      final.getTokenTransfersCount typeHash = rows.getTokenTransfersCount typeHash - removed := by
  unfold TokenRows.rollbackTokenInfo
  by_cases hzero : removed = 0
  · rw [if_pos hzero]
    refine ⟨rows, rfl, ?_, by omega⟩
    cases hrow : rows.tokens[typeHash]? with
    | none => rfl
    | some row =>
      have hcount := hrange row hrow
      rw [Option.map_some, show rows.getTokenTransfersCount typeHash - removed
        = row.transfersCount by omega]
  · rw [if_neg hzero]
    have hfits : fitsSignedBits 64 (rows.getTokenTransfersCount typeHash - removed) = true :=
      decide_eq_true ⟨by omega, by omega⟩
    simp only [bind_eq_ok, checked_eq_ok, ensure_eq_ok]
    cases hrow : rows.tokens[typeHash]? with
    | none =>
      refine ⟨{ rows with transfersCounts := rows.transfersCounts.erase typeHash },
        ⟨_, ⟨hfits, rfl⟩, (), by omega, ?_⟩, hrow, ?_⟩
      · simp only [bind_eq_ok, ensure_eq_ok]
        exact ⟨(), habsent hrow, rfl⟩
      · have hnone := habsent hrow
        rw [hnone]
        simp [TokenRows.getTokenTransfersCount]
    | some row =>
      refine ⟨{ rows with
          tokens := rows.tokens.insert typeHash
            { row with transfersCount := rows.getTokenTransfersCount typeHash - removed }
          transfersCounts := rows.transfersCounts.insert typeHash
            (rows.getTokenTransfersCount typeHash - removed) },
        ⟨_, ⟨hfits, rfl⟩, (), by omega, ?_⟩, ?_, ?_⟩
      · simp only [bind_eq_ok, ensure_eq_ok]
        exact ⟨(), hrange row hrow, rfl⟩
      · simp
      · simp [TokenRows.getTokenTransfersCount]

/-- What a batch finds in the store it starts from: the stored row and counter, or neither, in
which case the token's first transfer of the batch creates the row. -/
structure StartsFrom (rows : TokenRows) (t : TokenRowThroughBatch) : Prop where
  counted : ∀ transfers ∈ t.transfers, transfers.Counted
  before : ∀ transfers ∈ t.transfers, transfers.before = rows.getTokenTransfersCount t.typeHash
  created : ∀ transfer createdAt, t.base = .createdBy transfer createdAt →
    rows.getTokenTransfersCount t.typeHash = 0 ∧
      ∃ transfers ∈ t.transfers, (∃ e ∈ transfers.byBlock.toList, e.1 = createdAt) ∧
        ∀ e ∈ transfers.byBlock.toList, createdAt ≤ e.1
  blocks : (∀ b ∈ t.changeBlocks, b ≤ lastBlock) ∧
    ∀ transfers ∈ t.transfers, ∀ e ∈ transfers.byBlock.toList, e.1 ≤ lastBlock

section

variable {t : TokenRowThroughBatch} {rows rows' : TokenRows} {rollbackTo : Int}

section

variable (hstart : StartsFrom rows t)

include hstart

/-- After undo replay the row is one it had since the fork point, with the metadata of the fork
point. -/
theorem replayed_row (hwrite : rows.putToken t = .ok rows')
    (hfork : rollbackTo ≤ lastBlock)
    (hundo : ∀ r ∈ rows.undoLog, r.key = t.typeHash → r.time ≤ rollbackTo) :
    ∃ n, rollbackTo ≤ n ∧
      (rows'.rollbackViaUndoLog rollbackTo).tokens[t.typeHash]? = t.rowAt n ∧
      t.metadataAt n = t.metadataAt rollbackTo := by
  simp only [TokenRows.putToken, bind_eq_ok, return_eq_ok] at hwrite
  obtain ⟨⟨records, updated⟩, hstage, rfl⟩ := hwrite
  have hfits := fits_of_stage hstart.counted hstage
  obtain ⟨hrecords, hlast⟩ := hfits.stage_eq_ok hstart.blocks.1 hstage
  have hmine : ((rows.undoLog ++ records).filter fun r => rollbackTo < r.time).filter
      (fun r => r.key = t.typeHash) = records.filter fun r => rollbackTo < r.time := by
    rw [filter_append, filter_append]
    have hold : (rows.undoLog.filter fun r => rollbackTo < r.time).filter
        (fun r => r.key = t.typeHash) = [] := by
      simp only [filter_eq_nil_iff, mem_filter, decide_eq_true_eq]
      rintro r ⟨hr, hlate⟩ hkey
      have := hundo r hr hkey
      omega
    rw [hold, nil_append, filter_eq_self]
    intro r hr
    have hrec := (mem_filter.mp hr).1
    rw [hrecords] at hrec
    exact decide_eq_true (mem_records hrec).1
  simp only [TokenRows.rollbackViaUndoLog]
  rw [getElem?_foldr_restoreRow, ← Journal.undo_filter_key, hmine]
  have hsorted : (records.filter fun r => rollbackTo < r.time).Pairwise
      fun a b => a.time ≤ b.time := by
    rw [hrecords]
    exact records_sorted.filter _
  have hpre : ∀ r ∈ records.filter fun r => rollbackTo < r.time, r.key = t.typeHash →
      rollbackTo < r.time ∧ r.pre = t.rowAt (r.time - 1) := by
    intro r hr _
    obtain ⟨hrec, hlate⟩ := mem_filter.mp hr
    rw [hrecords] at hrec
    exact ⟨of_decide_eq_true hlate, (mem_records hrec).2⟩
  have hcover : ∀ n, rollbackTo < n → t.metadataAt n ≠ t.metadataAt (n - 1) →
      ∃ r ∈ records.filter fun r => rollbackTo < r.time, r.key = t.typeHash ∧ r.time = n := by
    intro n hn hchange
    obtain ⟨r, hr, hkey, htime⟩ := exists_record hchange
    rw [← hrecords] at hr
    exact ⟨r, mem_filter.mpr ⟨hr, by simpa [htime] using hn⟩, hkey, htime⟩
  have htip : (rows.tokens.insert t.typeHash updated)[t.typeHash]? = t.rowAt lastBlock := by
    rw [hlast, getElem?_insert_ite, if_pos rfl]
  exact Journal.undo_eq_version_map hfork htip hsorted hpre withoutTransferCount hcover

/-- What a batch leaves in the counter, and how many transfer rows a rollback finds above the fork
point. -/
theorem counts_of_putToken (hwrite : rows.putToken t = .ok rows')
    (hrows : ∀ k ∈ rows.transfers, k.typeHash = t.typeHash → k.blockNumber ≤ rollbackTo) :
    (∀ transfers ∈ t.transfers,
      rows'.getTokenTransfersCount t.typeHash = transfers.countThrough lastBlock ∧
      ((rows'.transfersAbove rollbackTo t.typeHash).length : Int)
        = transfers.countThrough lastBlock - transfers.countThrough rollbackTo) ∧
    (t.transfers = none → (rows'.transfersAbove rollbackTo t.typeHash).length = 0) := by
  simp only [TokenRows.putToken, bind_eq_ok, return_eq_ok] at hwrite
  obtain ⟨⟨records, updated⟩, hstage, rfl⟩ := hwrite
  have hfits := fits_of_stage hstart.counted hstage
  obtain ⟨-, hlast⟩ := hfits.stage_eq_ok hstart.blocks.1 hstage
  have hold : rows.transfers.filter
      (fun k => k.typeHash = t.typeHash ∧ rollbackTo < k.blockNumber) = [] := by
    simp only [filter_eq_nil_iff, decide_eq_true_eq, not_and, Int.not_lt]
    exact hrows
  simp only [TokenRows.transfersAbove, TokenRows.getTokenTransfersCount, filter_append, hold,
    nil_append]
  constructor
  · intro transfers htransfers
    have hcount := (transfersCount_rowAt hlast).1 transfers htransfers
    have hlength := length_filter_transferRows (hstart.counted transfers htransfers).positive
      (hstart.blocks.2 transfers htransfers) rollbackTo t.typeHash
    rw [Option.mem_def] at htransfers
    simp only [transferRows, htransfers, Option.isSome_some, if_true, getElem?_insert_ite]
    refine ⟨hcount, ?_⟩
    unfold countThrough upTo
    omega
  · intro hnone
    simp [transferRows, hnone]

/-- Without transfers in the batch, the row is determined by its metadata. -/
theorem stored_rowAt_eq (htransfers : t.transfers = none) {n m : Int}
    (hmeta : t.metadataAt n = t.metadataAt m) : t.rowAt n = t.rowAt m := by
  cases hbase : t.base with
  | createdBy transfer createdAt =>
    obtain ⟨-, transfers, hmem, -⟩ := hstart.created transfer createdAt hbase
    rw [htransfers] at hmem
    cases hmem
  | stored base =>
    have hkept : ∀ i, (t.rowAt i).map
        (fun row => { row with transfersCount := base.transfersCount }) = t.rowAt i := by
      intro i
      cases hrow : t.rowAt i with
      | none => rfl
      | some row =>
        obtain ⟨base', hbase', hcount⟩ :=
          (transfersCount_rowAt hrow).2 htransfers
        simp only [baseThrough, hbase, Option.some_inj] at hbase'
        rw [Option.map_some, hbase', ← hcount]
    rw [← hkept n, ← hkept m, setCount_rowAt hmeta]

theorem countThrough_of_absent {transfers : TokenTransfersThroughBatch}
    (htransfers : t.transfers = some transfers) {n : Int}
    (habsent : t.rowAt n = none) : transfers.countThrough n = 0 := by
  have hbaseNone : t.baseThrough n = none := Option.map_eq_none_iff.mp habsent
  cases hbase : t.base with
  | stored base =>
    simp only [baseThrough, hbase] at hbaseNone
    cases hbaseNone
  | createdBy transfer createdAt =>
    obtain ⟨hzero, transfers', hmem, -, hfirst⟩ := hstart.created transfer createdAt hbase
    rw [htransfers] at hmem
    cases hmem
    have hlt : n < createdAt := by
      simp only [baseThrough, hbase] at hbaseNone
      by_contra hge
      rw [if_neg hge] at hbaseNone
      cases hbaseNone
    have hnone : transfers.upTo n = [] := by
      simp only [upTo, filter_eq_nil_iff, decide_eq_true_eq]
      intro e he
      have := hfirst e he
      omega
    have hbefore := hstart.before transfers htransfers
    simp [countThrough, hnone, hbefore, hzero]

/-- **A token's row rolls back exactly inside a batch.** -/
theorem token_row_rolls_back (hwrite : rows.putToken t = .ok rows')
    (hfork : rollbackTo ≤ lastBlock)
    (hrows : ∀ k ∈ rows.transfers, k.typeHash = t.typeHash → k.blockNumber ≤ rollbackTo)
    (hundo : ∀ r ∈ rows.undoLog, r.key = t.typeHash → r.time ≤ rollbackTo) :
    ∃ final, rows'.rollbackToken rollbackTo t.typeHash = .ok final ∧
      t.rowThrough rollbackTo = .ok final.tokens[t.typeHash]? ∧
      ∀ transfers ∈ t.transfers,
        final.getTokenTransfersCount t.typeHash = transfers.countThrough rollbackTo ∧
        ∀ row ∈ final.tokens[t.typeHash]?, row.transfersCount = transfers.countThrough rollbackTo := by
  obtain ⟨n, hn, hrow, hmeta⟩ := replayed_row hstart hwrite hfork hundo
  obtain ⟨hcounts, hnoTransfers⟩ := counts_of_putToken hstart hwrite hrows
  have hfits : t.Fits := by
    simp only [TokenRows.putToken, bind_eq_ok] at hwrite
    obtain ⟨⟨records, updated⟩, hstage, -⟩ := hwrite
    exact fits_of_stage hstart.counted hstage
  rw [hfits.rowThrough_eq hfork]
  -- what undo replay and stage 8 leave, which stage 9d reads
  generalize hleft : (rows'.rollbackViaUndoLog rollbackTo).deleteTokenTransfers rollbackTo = left
  have hleftRow : left.tokens[t.typeHash]? = t.rowAt n := by rw [← hleft]; exact hrow
  have hleftCount : left.getTokenTransfersCount t.typeHash
      = rows'.getTokenTransfersCount t.typeHash := by rw [← hleft]; rfl
  have hrollback : rows'.rollbackToken rollbackTo t.typeHash
      = left.rollbackTokenInfo t.typeHash (rows'.transfersAbove rollbackTo t.typeHash).length := by
    rw [← hleft]
    rfl
  rw [hrollback]
  cases htransfers : t.transfers with
  | none =>
    refine ⟨left, ?_, ?_, fun transfers h => by cases h⟩
    · rw [hnoTransfers htransfers]
      rfl
    · rw [hleftRow, stored_rowAt_eq hstart htransfers hmeta]
  | some transfers =>
    have hcounted := hstart.counted transfers htransfers
    obtain ⟨hcount, hremoved⟩ := hcounts transfers htransfers
    have hlow := hcounted.countThrough_mono hn
    have hhigh := hcounted.countThrough_le (hstart.blocks.2 transfers htransfers) n
    have hbefore := hcounted.before_le rollbackTo
    have hstartCount := hcounted.before.1
    have htotal := hfits.total transfers htransfers
    obtain ⟨final, hok, hfinalRow, hfinalCount⟩ :=
      @TokenRows.rollbackTokenInfo_eq_ok left t.typeHash
        (rows'.transfersAbove rollbackTo t.typeHash).length (by omega) (by omega)
        (by omega) (fun row hmem => by
          rw [hleftRow] at hmem
          rw [(transfersCount_rowAt hmem).1 transfers htransfers]
          omega)
        (fun hnone => by
          rw [hleftRow] at hnone
          have hnoFork : t.rowAt rollbackTo = none := by
            simpa [metadataAt, hnone] using hmeta
          have hzero := countThrough_of_absent hstart htransfers hnoFork
          omega)
    have hnew : left.getTokenTransfersCount t.typeHash
        - (rows'.transfersAbove rollbackTo t.typeHash).length
        = transfers.countThrough rollbackTo := by omega
    rw [hnew] at hfinalRow hfinalCount
    have hforkRow : (t.rowAt rollbackTo).map
        (fun row => { row with transfersCount := transfers.countThrough rollbackTo })
        = t.rowAt rollbackTo := by
      cases hfork : t.rowAt rollbackTo with
      | none => rfl
      | some row =>
        rw [Option.map_some, ← (transfersCount_rowAt hfork).1 transfers htransfers]
    have hfinal : final.tokens[t.typeHash]? = t.rowAt rollbackTo := by
      rw [hfinalRow, hleftRow, setCount_rowAt hmeta, hforkRow]
    refine ⟨final, hok, by rw [hfinal], ?_⟩
    intro transfers' htransfers'
    cases htransfers'
    refine ⟨hfinalCount, fun row hrow => ?_⟩
    rw [hfinal] at hrow
    exact (transfersCount_rowAt hrow).1 transfers htransfers

end

end

/-! A token whose first transfers create its row at block 5, with a max-supply claim at block 6 and
a binding at block 7, rolled back to block 6. -/

def issuedToken : TokenRowThroughBatch where
  typeHash := [1]
  base := .createdBy ⟨[1], [2], 1, [3], none, [4], 100, .xudt, true, false⟩ 5
  transfers := some ⟨0, ((∅ : ExtTreeMap Int Int).insert 5 2).insert 7 1⟩
  maxSupply := some ⟨1000, 6⟩
  onchain := some ⟨[(7, ⟨⟨8, "Token", "TKN", none⟩, .xudtExtension⟩)], cons_ne_nil _ _⟩

def noTokens : TokenRows := ⟨∅, ∅, [], []⟩

theorem issuedToken_startsFrom : StartsFrom noTokens issuedToken where
  counted transfers h := by
    cases h
    exact ⟨by decide, by decide +kernel⟩
  before transfers h := by
    cases h
    decide +kernel
  created transfer createdAt h := by
    cases h
    exact ⟨by decide +kernel, _, rfl, by decide +kernel, by decide +kernel⟩
  blocks := ⟨by decide +kernel, fun transfers h => by cases h; decide +kernel⟩

theorem token_row_rolls_back_issued : ∃ rows final, noTokens.putToken issuedToken = .ok rows ∧
    rows.rollbackToken 6 issuedToken.typeHash = .ok final ∧
    issuedToken.rowThrough 6 = .ok final.tokens[issuedToken.typeHash]? ∧
    final.getTokenTransfersCount issuedToken.typeHash = 2 := by
  have hok : (noTokens.putToken issuedToken).isOk = true := by decide +kernel
  obtain ⟨rows, hwrite⟩ := exists_of_isOk hok
  obtain ⟨final, hrollback, hrow, hcount⟩ := @token_row_rolls_back _ _ _ 6
    issuedToken_startsFrom hwrite (by decide) (by decide) (by decide)
  refine ⟨rows, final, hwrite, hrollback, hrow, ?_⟩
  rw [(hcount _ rfl).1]
  decide +kernel

end Ckbadger.Sync
