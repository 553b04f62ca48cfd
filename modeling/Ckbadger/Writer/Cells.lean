/-
Ckbadger.Writer.Cells — the cells of a batch: payloads, live markers and consumed rows.

An output's payload goes to the append-only store under its outpoint and has no block
number, so the same output indexed at another height has the same payload. Its token amount
may hang on the standard in the token's row, which is not part of the output. The domain
store keeps a live marker with the block of creation; a spent cell has a consumed row
instead. Spending a cell looks it up among the cells of the batch and those of the
stores.
-/
import Ckbadger.Common.Dao
import Ckbadger.Parser.Udt
import Ckbadger.Store.AppendOnly
import Ckbadger.Sync.ParsedChain

namespace Ckbadger.Sync.OutPoint

instance : Ord OutPoint := ⟨compareLex (compareOn txHash) (compareOn index)⟩

instance : Std.TransOrd OutPoint :=
  inferInstanceAs (Std.TransCmp (compareLex (compareOn txHash) (compareOn index)))

instance : Std.LawfulEqOrd OutPoint := Lib.lawfulEqCmp_compareLex (by rintro ⟨⟩ ⟨⟩ rfl rfl; rfl)

end Ckbadger.Sync.OutPoint

namespace Ckbadger.Writer

open Lib Ckbadger.Parser Store List
open Sync (OutPoint ParsedInput parsedInputOutpointIndex)

variable {place : OutPoint} {rows : CellRows} {cells : List CreatedCell} {hints : UdtHints}
variable {txs : List CellTx} {infos : Std.ExtTreeMap OutPoint PositionedCellInfo}
variable {payloads : CellPayloads}

/-! ## Rows -/

/-- The payload of a cell. -/
structure LiveCellInfo where
  capacity : Int
  lockScriptHash : Bytes
  lockCodeHash : Bytes
  lockHashType : Int
  lockArgs : Bytes
  typeScriptHash : Option Bytes
  typeCodeHash : Option Bytes
  typeHashType : Option Int
  typeArgs : Option Bytes
  dataSize : Int
  occupiedCapacity : Int
  udtAmount : Option Nat
  dataHash : Option Bytes
  deriving DecidableEq

structure PositionedCellInfo where
  cell : LiveCellInfo
  createdAtBlock : Int
  deriving DecidableEq

structure ConsumedCellMeta where
  createdAtBlock : Int
  consumedAtBlock : Int
  consumedByTx : Option Bytes
  deriving DecidableEq

abbrev CellPayloads := Std.ExtTreeMap OutPoint LiveCellInfo

/-- The cell rows of the domain store: live markers with the block of creation, and the spent
cells. Beside them the token rows, by type hash, as far as a payload depends on them. -/
structure CellRows where
  live : Std.ExtTreeMap OutPoint Int
  consumed : Std.ExtTreeMap OutPoint ConsumedCellMeta
  standards : Std.ExtTreeMap Bytes String

inductive CellOp where
  | putLiveCellMarker (place : OutPoint) (createdAtBlock : Int)
  | deleteCell (place : OutPoint)
  | putConsumedCellMeta (place : OutPoint) (row : ConsumedCellMeta)
  | deleteConsumedCell (place : OutPoint)
  | putToken (typeHash : Bytes) (standard : String)
  | deleteToken (typeHash : Bytes)
  deriving DecidableEq

def CellRows.empty : CellRows := ⟨∅, ∅, ∅⟩

def CellRows.applyOp (rows : CellRows) : CellOp → CellRows
  | .putLiveCellMarker place number => { rows with live := rows.live.insert place number }
  | .deleteCell place => { rows with live := rows.live.erase place }
  | .putConsumedCellMeta place row => { rows with consumed := rows.consumed.insert place row }
  | .deleteConsumedCell place => { rows with consumed := rows.consumed.erase place }
  | .putToken typeHash standard =>
    { rows with standards := rows.standards.insert typeHash standard }
  | .deleteToken typeHash => { rows with standards := rows.standards.erase typeHash }

/-- One atomic write to the domain store, as far as its cell rows go. -/
def CellRows.write (rows : CellRows) (ops : List CellOp) : CellRows := ops.foldl applyOp rows

/-- Whether the domain store knows a cell, live or spent. -/
def CellRows.Has (rows : CellRows) (place : OutPoint) : Prop :=
  rows.live[place]?.isSome ∨ rows.consumed[place]?.isSome

/-- The place an operation puts a cell row under. -/
def CellOp.puts : CellOp → Option OutPoint
  | .putLiveCellMarker place _ => some place
  | .putConsumedCellMeta place _ => some place
  | .deleteCell _ => none
  | .deleteConsumedCell _ => none
  | .putToken _ _ => none
  | .deleteToken _ => none

@[simp] theorem CellRows.not_has_empty (place : OutPoint) : ¬ CellRows.empty.Has place := by
  simp [CellRows.Has, CellRows.empty]

theorem CellRows.has_applyOp {op : CellOp}
    (h : (rows.applyOp op).Has place) : rows.Has place ∨ op.puts = some place := by
  cases op with
  | putLiveCellMarker p | putConsumedCellMeta p =>
    simp only [applyOp] at h
    by_cases hp : p = place
    · exact .inr (congrArg some hp)
    · exact .inl (by simpa [Has, hp] using h)
  | deleteCell p =>
    simp only [Has, applyOp, getElem?_erase_ite] at h
    refine .inl (h.imp_left fun hlive => ?_)
    split at hlive
    · cases hlive
    · exact hlive
  | deleteConsumedCell p =>
    simp only [Has, applyOp, getElem?_erase_ite] at h
    refine .inl (h.imp_right fun hconsumed => ?_)
    split at hconsumed
    · cases hconsumed
    · exact hconsumed
  | putToken typeHash | deleteToken typeHash => exact .inl h

/-- Operations that put cell rows only under places with a property. -/
def PutsOnly (P : OutPoint → Prop) (ops : List CellOp) : Prop :=
  ∀ op ∈ ops, ∀ place, op.puts = some place → P place

section PutsOnly

variable {P Q : OutPoint → Prop} {op : CellOp} {ops ops' : List CellOp}

@[simp] theorem putsOnly_nil : PutsOnly P [] := by simp [PutsOnly]

@[simp] theorem putsOnly_cons :
    PutsOnly P (op :: ops) ↔ (∀ place, op.puts = some place → P place) ∧ PutsOnly P ops :=
  forall_mem_cons

theorem putsOnly_append : PutsOnly P (ops ++ ops') ↔ PutsOnly P ops ∧ PutsOnly P ops' :=
  forall_mem_append

theorem PutsOnly.imp (h : PutsOnly P ops) (hPQ : ∀ place, P place → Q place) : PutsOnly Q ops :=
  fun op hop place hplace => hPQ place (h op hop place hplace)

/-- The operations of the turns of a loop. -/
theorem putsOnly_mapM {α : Type} {f : α → Except String (List CellOp)} {xs : List α}
    {staged : List (List CellOp)} (h : xs.mapM f = .ok staged)
    (hf : ∀ x ∈ xs, ∀ ops, f x = .ok ops → PutsOnly P ops) : PutsOnly P staged.flatten := by
  intro op hop
  obtain ⟨ops, hops, hop⟩ := mem_flatten.mp hop
  obtain ⟨x, hx, hfx⟩ := exists_of_mem_mapM h hops
  exact hf x hx ops hfx op hop

/-- A row after a write was there before or was put by it. -/
theorem CellRows.has_write (hops : PutsOnly P ops) (h : (rows.write ops).Has place) :
    rows.Has place ∨ P place := by
  induction ops generalizing rows with
  | nil => exact .inl h
  | cons op ops ih =>
    obtain ⟨hop, hops⟩ := putsOnly_cons.mp hops
    rcases ih hops h with hrows | hput
    · exact (has_applyOp hrows).imp_right (hop place)
    · exact .inr hput

end PutsOnly

/-! ## The cells of a batch -/

/-- A transaction of a parsed batch. -/
structure CellTx where
  blockNumber : Int
  hash : Bytes
  isCellbase : Bool
  inputs : List ParsedInput
  cells : List ParsedCell
  deriving DecidableEq

/-- What the payloads of a batch depend on besides its outputs: the token scripts, and the
standards that the parser has read from the token rows. -/
structure UdtHints where
  scripts : UdtScripts
  standardOf : Bytes → Option String

def buildLiveCellInfo (hints : UdtHints) (cell : ParsedCell) : LiveCellInfo where
  capacity := cell.capacity
  lockScriptHash := cell.lockScriptHash
  lockCodeHash := cell.lockCodeHash
  lockHashType := cell.lockHashType
  lockArgs := cell.lockArgs
  typeScriptHash := cell.typeScriptHash
  typeCodeHash := cell.typeCodeHash
  typeHashType := cell.typeHashType
  typeArgs := cell.typeArgs
  dataSize := cell.dataSize
  occupiedCapacity :=
    Sync.occupiedCapacityShannons cell.lockArgs.length (cell.typeArgs.map List.length) cell.dataSize
  udtAmount :=
    hints.scripts.parseParsedCellUdtAmount cell (cell.typeScriptHash.bind hints.standardOf)
  dataHash := some cell.dataHash

/-- Two readings of the token rows build one payload if they read one amount. -/
theorem buildLiveCellInfo_congr {hints' : UdtHints} {cell : ParsedCell}
    (h : (buildLiveCellInfo hints cell).udtAmount = (buildLiveCellInfo hints' cell).udtAmount) :
    buildLiveCellInfo hints cell = buildLiveCellInfo hints' cell := by
  simpa [buildLiveCellInfo] using h

/-- An output of a batch: its place, its cell and the block that creates it. -/
structure CreatedCell where
  place : OutPoint
  cell : ParsedCell
  createdAtBlock : Int
  deriving DecidableEq

/-- The outputs of a transaction. -/
def CellTx.outputs (t : CellTx) : List CreatedCell :=
  t.cells.mapIdx fun index cell => ⟨⟨t.hash, index⟩, cell, t.blockNumber⟩

/-- The places a transaction spends; a cellbase spends none. -/
def CellTx.spends (t : CellTx) : List OutPoint :=
  if t.isCellbase then [] else t.inputs.map Sync.ParsedInput.outpoint

/-- The outputs of a batch. An output index is an `i16`. -/
def allCells (txs : List CellTx) : Except String (List CreatedCell) := do
  ensure (∀ t ∈ txs, t.cells.length ≤ 2 ^ 15) "output index exceeds i16 range"
  return txs.flatMap CellTx.outputs

def CreatedCell.info (hints : UdtHints) (c : CreatedCell) : PositionedCellInfo :=
  ⟨buildLiveCellInfo hints c.cell, c.createdAtBlock⟩

/-- The first pass over a parsed batch: what its outputs look like as cells. -/
def buildBatchCellInfos (hints : UdtHints) (cells : List CreatedCell) :
    Std.ExtTreeMap OutPoint PositionedCellInfo :=
  cells.foldl (fun infos c => infos.insert c.place (c.info hints)) ∅

/-- A cell as the stores have it must occupy what its scripts and data need, and no more than its
capacity. -/
def validateInputCellOccupiedCapacity (info : LiveCellInfo) (source : String) :
    Except String Unit := do
  ensure (0 ≤ info.dataSize) ("negative data_size while loading " ++ source ++ " cell")
  let typeArgsLen ← (if info.typeScriptHash.isSome || info.typeCodeHash.isSome then do
    let args ← required ("missing type_args for typed " ++ source ++ " cell") info.typeArgs
    return some args.length
  else return none)
  let expected ← Common.occupiedCapacityShannons info.dataSize.toNat info.lockArgs.length typeArgsLen
  ensure (0 < info.occupiedCapacity)
    ("invalid occupied capacity while loading " ++ source ++ " cell")
  ensure (info.occupiedCapacity = expected)
    ("occupied capacity mismatch while loading " ++ source ++ " cell")
  ensure (info.occupiedCapacity ≤ info.capacity)
    ("invalid occupied capacity while loading " ++ source ++ " cell")

/-- A cell of the stores, live or already spent. -/
def getFullCellInfo (payloads : CellPayloads) (rows : CellRows) (place : OutPoint) :
    Except String (Option PositionedCellInfo) :=
  match rows.live[place]? with
  | some createdAtBlock => do
      let info ← required "missing canonical cell for live marker in get_full_cells_info_batch"
        payloads[place]?
      validateInputCellOccupiedCapacity info "live"
      return some ⟨info, createdAtBlock⟩
  | none =>
    match rows.consumed[place]? with
    | some row => do
        let info ← required
          "missing canonical cell for consumed outpoint in get_consumed_cells_batch"
          payloads[place]?
        validateInputCellOccupiedCapacity info "consumed"
        return some ⟨info, row.createdAtBlock⟩
    | none => return none

/-- A spent cell: its place and the transaction that spends it. -/
structure Consumption where
  place : OutPoint
  consumedByTx : Bytes
  consumedAtBlock : Int
  deriving DecidableEq

/-- The inputs of a transaction; a cellbase spends nothing. -/
def CellTx.consumptions (t : CellTx) : Except String (List Consumption) :=
  if t.isCellbase then return []
  else do
    ensure (t.inputs.length ≤ 2 ^ 15) "input index exceeds i16 range"
    t.inputs.mapM fun input => do
      let index ← parsedInputOutpointIndex input.previousOutputIndex "sync_indexer"
      return ⟨⟨input.previousTxHash, index⟩, t.hash, t.blockNumber⟩

/-- Stages the outputs of a batch: a payload for the append-only store and a live marker. -/
def insertCellsBatch (infos : Std.ExtTreeMap OutPoint PositionedCellInfo)
    (cells : List CreatedCell) :
    Except String (List (AppendBatchOp OutPoint LiveCellInfo × CellOp)) :=
  cells.mapM fun c => do
    let info ← required "missing precomputed cell info for insert" infos[c.place]?
    return (⟨c.place, some info.cell⟩, .putLiveCellMarker c.place info.createdAtBlock)

/-- Stages the inputs of a batch: each spent cell gets a consumed row and loses its marker. Only
the places the batch does not create are looked up in the stores. -/
def consumeCellsBatchPreloaded (payloads : CellPayloads) (rows : CellRows)
    (infos : Std.ExtTreeMap OutPoint PositionedCellInfo) (consumptions : List Consumption) :
    Except String (List (List CellOp)) :=
  consumptions.mapM fun c => do
    let preloaded ← (if infos.contains c.place then return none
      else getFullCellInfo payloads rows c.place)
    let info ← required "missing preloaded cell info during consumption"
      (preloaded.or infos[c.place]?)
    return [.putConsumedCellMeta c.place
        ⟨info.createdAtBlock, c.consumedAtBlock, some c.consumedByTx⟩, .deleteCell c.place]

/-- The two batches that the cells of a parsed batch need: one for the append-only store, one for
the domain store. -/
def stageCells (hints : UdtHints) (payloads : CellPayloads) (rows : CellRows)
    (txs : List CellTx) :
    Except String (List (AppendBatchOp OutPoint LiveCellInfo) × List CellOp) := do
  let cells ← allCells txs
  let infos := buildBatchCellInfos hints cells
  let consumptions ← txs.mapM CellTx.consumptions
  let inserted ← insertCellsBatch infos cells
  let consumed ← consumeCellsBatchPreloaded payloads rows infos consumptions.flatten
  return (inserted.map Prod.fst, inserted.map Prod.snd ++ consumed.flatten)

/-! ## What is staged -/

theorem allCells_eq_ok :
    allCells txs = .ok cells ↔
      (∀ t ∈ txs, t.cells.length ≤ 2 ^ 15) ∧ txs.flatMap CellTx.outputs = cells := by
  simp only [allCells, bind_eq_ok, ensure_eq_ok, return_eq_ok]
  constructor
  · rintro ⟨-, hsmall, hcells⟩
    exact ⟨hsmall, hcells⟩
  · rintro ⟨hsmall, hcells⟩
    exact ⟨(), hsmall, hcells⟩

theorem getElem?_foldl_insert_info {info : PositionedCellInfo}
    (h : (cells.foldl (fun infos c => infos.insert c.place (c.info hints)) infos)[place]?
      = some info) :
    (∃ c ∈ cells, c.place = place ∧ info = c.info hints) ∨ infos[place]? = some info := by
  induction cells generalizing infos with
  | nil => exact .inr h
  | cons c cells ih =>
    rcases ih h with ⟨c', hc', hplace⟩ | hfound
    · exact .inl ⟨c', mem_cons_of_mem _ hc', hplace⟩
    · obtain ⟨rfl, rfl⟩ | ⟨-, hfound⟩ := getElem?_insert_eq_some.mp hfound
      · exact .inl ⟨c, mem_cons_self, rfl, rfl⟩
      · exact .inr hfound

theorem CellTx.map_place_outputs (t : CellTx) : t.outputs.map CreatedCell.place
    = (List.range t.cells.length).map fun index : Nat => (⟨t.hash, index⟩ : OutPoint) := by
  refine ext_getElem (by simp [CellTx.outputs]) fun i _ _ => ?_
  simp [CellTx.outputs]

/-- Transactions that are told apart by their hashes create cells at places of their own. -/
theorem nodup_places (h : (txs.map CellTx.hash).Nodup) :
    ((txs.flatMap CellTx.outputs).map CreatedCell.place).Nodup := by
  rw [map_flatMap, flatMap_congr fun t _ => t.map_place_outputs]
  exact Sync.nodup_outpoints _ h

/-- The precomputed infos are those of the batch's outputs. -/
theorem exists_of_buildBatchCellInfos {info : PositionedCellInfo}
    (h : (buildBatchCellInfos hints cells)[place]? = some info) :
    ∃ c ∈ cells, c.place = place ∧ info = c.info hints := by
  rcases getElem?_foldl_insert_info h with hc | hnone
  · exact hc
  · simp at hnone

theorem isSome_buildBatchCellInfos {c : CreatedCell} (hc : c ∈ cells) :
    ((buildBatchCellInfos hints cells)[c.place]?).isSome := by
  rw [buildBatchCellInfos, isSome_foldl_insert]
  exact .inl (mem_map_of_mem hc)

section

variable {inserted : List (AppendBatchOp OutPoint LiveCellInfo × CellOp)}

variable (hints cells) in
theorem exists_insertCellsBatch :
    ∃ inserted, insertCellsBatch (buildBatchCellInfos hints cells) cells = .ok inserted := by
  refine exists_mapM_eq_ok fun c hc => ?_
  obtain ⟨info, hinfo⟩ :=
    Option.isSome_iff_exists.mp (@isSome_buildBatchCellInfos cells hints c hc)
  refine ⟨(⟨c.place, some info.cell⟩, .putLiveCellMarker c.place info.createdAtBlock), ?_⟩
  rw [hinfo]
  rfl

/-- The payloads are staged under the places of the outputs, in their order. -/
theorem keys_insertCellsBatch (h : insertCellsBatch infos cells = .ok inserted) :
    (inserted.map Prod.fst).map AppendBatchOp.key = cells.map CreatedCell.place := by
  induction mapM_eq_ok.mp h with
  | nil => rfl
  | cons hc hrest ih =>
    simp only [bind_eq_ok, return_eq_ok] at hc
    obtain ⟨info, -, rfl⟩ := hc
    rw [map_cons, map_cons, ih (mapM_eq_ok.mpr hrest), map_cons]

theorem mem_insertCellsBatch
    (h : insertCellsBatch (buildBatchCellInfos hints cells) cells = .ok inserted)
    {staged : AppendBatchOp OutPoint LiveCellInfo × CellOp} (hstaged : staged ∈ inserted) :
    ∃ c ∈ cells, staged.1 = ⟨c.place, some (buildLiveCellInfo hints c.cell)⟩ ∧
      staged.2.puts = some c.place := by
  obtain ⟨c, -, hc⟩ := exists_of_mem_mapM h hstaged
  simp only [bind_eq_ok, required_eq_ok, return_eq_ok] at hc
  obtain ⟨info, hinfo, rfl⟩ := hc
  obtain ⟨c', hc', hplace, rfl⟩ := exists_of_buildBatchCellInfos hinfo
  exact ⟨c', hc', by rw [hplace]; rfl, by rw [hplace]; rfl⟩

theorem has_of_getFullCellInfo {info : PositionedCellInfo}
    (h : getFullCellInfo payloads rows place = .ok (some info)) :
    rows.Has place := by
  unfold getFullCellInfo at h
  split at h
  · rename_i hlive
    exact .inl (by rw [hlive]; rfl)
  · split at h
    · rename_i hconsumed
      exact .inr (by rw [hconsumed]; rfl)
    · cases h

/-- A consumed row is put under a place that the stores or the batch know. -/
theorem puts_consumeCellsBatchPreloaded {consumptions : List Consumption}
    {consumed : List (List CellOp)}
    (h : consumeCellsBatchPreloaded payloads rows infos consumptions = .ok consumed) :
    PutsOnly (fun place => rows.Has place ∨ (infos[place]?).isSome) consumed.flatten := by
  refine putsOnly_mapM h fun c _ ops hc => ?_
  simp only [bind_eq_ok, required_eq_ok, return_eq_ok] at hc
  obtain ⟨preloaded, hpreloaded, info, hinfo, rfl⟩ := hc
  simp only [putsOnly_cons, CellOp.puts, Option.some.injEq, forall_eq', putsOnly_nil, reduceCtorEq,
    false_implies, implies_true, and_true]
  cases preloaded with
  | none => exact .inr (by simpa using congrArg Option.isSome hinfo)
  | some found =>
    split at hpreloaded
    · cases hpreloaded
    · exact .inl (has_of_getFullCellInfo hpreloaded)

end

/-- **What a batch stages for its cells**: the payloads are its outputs' ones, each under the
output's place, and a row is put only under a place that has a row or a staged payload. -/
theorem stageCells_eq_ok {ops : List (AppendBatchOp OutPoint LiveCellInfo)} {staged : List CellOp}
    (h : stageCells hints payloads rows txs = .ok (ops, staged)) :
    (ops.map AppendBatchOp.key = (txs.flatMap CellTx.outputs).map CreatedCell.place ∧
      ∀ op ∈ ops, ∃ c ∈ txs.flatMap CellTx.outputs,
        op = ⟨c.place, some (buildLiveCellInfo hints c.cell)⟩) ∧
      PutsOnly (fun place => rows.Has place ∨ ∃ v, ⟨place, some v⟩ ∈ ops) staged := by
  simp only [stageCells, bind_eq_ok, allCells_eq_ok] at h
  obtain ⟨cells, ⟨-, rfl⟩, consumptions, -, inserted, hinserted, consumed, hconsumed, rfl, rfl⟩ := h
  have hkeys := keys_insertCellsBatch hinserted
  refine ⟨⟨hkeys, ?_⟩, ?_⟩
  · intro op hop
    obtain ⟨staged, hstaged, rfl⟩ := mem_map.mp hop
    obtain ⟨c, hc, hpayload, -⟩ := mem_insertCellsBatch hinserted hstaged
    exact ⟨c, hc, hpayload⟩
  · have hstagedAt : ∀ c ∈ txs.flatMap CellTx.outputs,
        ∃ v, (⟨c.place, some v⟩ : AppendBatchOp OutPoint LiveCellInfo) ∈ inserted.map Prod.fst := by
      intro c hc
      have hkey : c.place ∈ (inserted.map Prod.fst).map AppendBatchOp.key := by
        rw [hkeys]
        exact mem_map_of_mem hc
      obtain ⟨op, hop, hplace⟩ := mem_map.mp hkey
      obtain ⟨staged, hstaged, rfl⟩ := mem_map.mp hop
      obtain ⟨c', -, hpayload, -⟩ := mem_insertCellsBatch hinserted hstaged
      refine ⟨buildLiveCellInfo hints c'.cell, ?_⟩
      rw [hpayload] at hop hplace
      rwa [← show c'.place = c.place from hplace]
    refine putsOnly_append.mpr ⟨fun op hop place hputs => ?_,
      (puts_consumeCellsBatchPreloaded hconsumed).imp fun place hknown => ?_⟩
    · obtain ⟨staged, hstaged, rfl⟩ := mem_map.mp hop
      obtain ⟨c, hc, -, hplace⟩ := mem_insertCellsBatch hinserted hstaged
      rw [hplace] at hputs
      cases hputs
      exact .inr (hstagedAt c hc)
    · refine hknown.imp_right fun hinfo => ?_
      obtain ⟨info, hinfo⟩ := Option.isSome_iff_exists.mp hinfo
      obtain ⟨c, hc, rfl, -⟩ := exists_of_buildBatchCellInfos hinfo
      exact hstagedAt c hc

end Ckbadger.Writer
