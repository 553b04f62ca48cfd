/-
Ckbadger.Api.StoreReadiness — when the API serves data from its secondary stores.

The refresh loop advances the secondaries inside one catch-up window and records
the outcomes; the readiness state decides whether data endpoints answer. The
indexer is another process: it commits the cell payloads of a batch, then the
domain batch, and nothing keeps it from committing while a window is open.
-/
import Ckbadger.Store.ReadView
import Ckbadger.Store.DomainStore

namespace Ckbadger.Api

open Lib Store

/-! ## Readiness -/

/-- A secondary view this API process reads. -/
inductive SecondaryStore where
  | appendOnly | domain | ckbNode | network
  deriving DecidableEq

/-- The name logs and error messages use. -/
def SecondaryStore.name : SecondaryStore → String
  | .appendOnly => "append-only"
  | .domain => "domain"
  | .ckbNode => "ckb node"
  | .network => "network"

/-- The secondaries in the order of the map that holds their failures. -/
def SecondaryStore.all : List SecondaryStore := [.appendOnly, .domain, .ckbNode, .network]

/-- How one secondary's catch-up ended in one round. -/
structure CatchUpOutcome where
  store : SecondaryStore
  result : Except String Unit

/-- `CATCH_UP_FAILURE_STRIKES`. -/
def catchUpFailureStrikes : Nat := 3

/-- How many times in a row something failed, and the latest error. -/
structure Failures where
  consecutive : Nat
  lastError : String
  deriving DecidableEq

def Failures.record (previous : Option Failures) (error : String) : Failures :=
  match previous with
  | none => ⟨1, error⟩
  | some previous => ⟨previous.consecutive + 1, error⟩

def Failures.blocksServing (f : Failures) : Bool := catchUpFailureStrikes ≤ f.consecutive

inductive Phase where
  /-- No round has caught up every secondary yet; the latest failed attempt. -/
  | firstCatchUp (lastAttempt : Option Failures)
  /-- The first catch-up landed; the consecutive failures of each secondary and of rounds that
      ended with no outcome. -/
  | serving (stores : SecondaryStore → Option Failures) (rounds : Option Failures)

/-- The message of one secondary that keeps data endpoints from answering. -/
def blockingStore (stores : SecondaryStore → Option Failures) (store : SecondaryStore) :
    Option String :=
  ((stores store).filter (·.blocksServing)).map fun failures =>
    store.name ++ " store catch-up with the indexer failed " ++ toString failures.consecutive ++
      " consecutive times; last error: " ++ failures.lastError

/-- The message of rounds that keep data endpoints from answering. -/
def blockingRounds (rounds : Option Failures) : Option String :=
  (rounds.filter (·.blocksServing)).map fun failures =>
    "store catch-up round failed " ++ toString failures.consecutive ++
      " consecutive times; last error: " ++ failures.lastError

/-- Whether data may be served; otherwise the message of the `503 store_catching_up`. -/
def Phase.check : Phase → Except String Unit
  | .firstCatchUp none =>
    .error ("the API's secondary stores have not completed their first catch-up with " ++
      "the indexer yet")
  | .firstCatchUp (some attempt) =>
    .error ("the API's secondary stores have not caught up with the indexer yet: attempt " ++
      toString attempt.consecutive ++ " failed: " ++ attempt.lastError)
  | .serving stores rounds =>
    match SecondaryStore.all.filterMap (blockingStore stores) ++ (blockingRounds rounds).toList with
    | [] => .ok ()
    | blocking => .error ("; ".intercalate blocking)

/-- The failure text of an outcome. -/
def CatchUpOutcome.failure (outcome : CatchUpOutcome) : Option String :=
  match outcome.result with
  | .ok () => none
  | .error e => some (outcome.store.name ++ " store: " ++ e)

/-- One outcome of a round while serving. -/
def recordOutcome (stores : SecondaryStore → Option Failures) (outcome : CatchUpOutcome) :
    SecondaryStore → Option Failures :=
  match outcome.result with
  | .ok () => Function.update stores outcome.store none
  | .error e =>
    Function.update stores outcome.store (some (.record (stores outcome.store) e))

/-- Records a round that ended with no outcome. -/
def Phase.recordFailedRound (error : String) : Phase → Phase
  | .firstCatchUp lastAttempt => .firstCatchUp (some (.record lastAttempt error))
  | .serving stores rounds => .serving stores (some (.record rounds error))

/-- Records a finished round's outcomes. -/
def Phase.recordRound (outcomes : List CatchUpOutcome) (phase : Phase) : Phase :=
  if outcomes.isEmpty then phase.recordFailedRound "the round advanced no secondary"
  else
    match phase with
    | .firstCatchUp lastAttempt =>
      match outcomes.filterMap CatchUpOutcome.failure with
      | [] => .serving (fun _ => none) none
      | failed => .firstCatchUp (some (.record lastAttempt ("; ".intercalate failed)))
    | .serving stores _ => .serving (outcomes.foldl recordOutcome stores) none

/-! ## Stores -/

/-- The append-only store: cell payloads by outpoint. -/
inductive AppendCf where
  | cells
  deriving DecidableEq

/-- The two stores a view reads together. -/
structure Stores where
  domain : DomainStore
  appendOnly : OrderedStore AppendCf

/-- Whether the domain store has a live or consumed row for an outpoint. -/
def hasCellRow (domain : DomainStore) (outpoint : Bytes) : Bool :=
  (domain.get .liveCells outpoint).isSome || (domain.get .consumedCells outpoint).isSome

def hasPayload (appendOnly : OrderedStore AppendCf) (outpoint : Bytes) : Bool :=
  (appendOnly.get .cells outpoint).isSome

/-- Every outpoint with a row has its payload. -/
def Covered (domain : DomainStore) (appendOnly : OrderedStore AppendCf) : Prop :=
  ∀ outpoint, hasCellRow domain outpoint = true → hasPayload appendOnly outpoint = true

/-- The domain store is not ahead of the append-only store. -/
def Stores.Coherent (s : Stores) : Prop := Covered s.domain s.appendOnly

/-! ## The indexer -/

/-- The cells of a batch: what it creates (outpoint, payload, live marker) and what it consumes
(outpoint, consumed row). -/
structure CellBatch where
  created : List (Bytes × Bytes × Bytes)
  consumed : List (Bytes × Bytes)

/-- The append-only batch: `put_cell_payload`. -/
def CellBatch.payloads (b : CellBatch) : WriteBatch AppendCf :=
  b.created.map fun c => .put .cells c.1 c.2.1

/-- The cell rows of the domain batch: `put_live_cell_marker` for every created cell, then
`put_consumed_cell_meta` and `delete_cell` for every consumed one. -/
def CellBatch.rows (b : CellBatch) : DomainBatch :=
  b.created.map (fun c => .put .liveCells c.1 c.2.2) ++
    b.consumed.flatMap fun c => [.put .consumedCells c.1 c.2, .delete .liveCells c.1]

/-- Every input is a cell of the batch or one the store has a row for. -/
def CellBatch.Resolved (b : CellBatch) (domain : DomainStore) : Prop :=
  ∀ c ∈ b.consumed, hasCellRow domain c.1 = true ∨ c.1 ∈ b.created.map Prod.fst

/-- The cell rows of a rollback: the cells created above the target lose their rows, those
consumed above it are live again. -/
def rollbackRows (dropped : List Bytes) (restored : List (Bytes × Bytes)) : DomainBatch :=
  dropped.flatMap (fun o => [.delete .liveCells o, .delete .consumedCells o]) ++
    restored.flatMap fun c => [.delete .consumedCells c.1, .put .liveCells c.1 c.2]

/-- A write that treats the cell rows as `cells` does; its other operations are any. -/
def WritesCells (ops cells : DomainBatch) : Prop :=
  ∀ key v, rowAfter .liveCells key v ops = rowAfter .liveCells key v cells ∧
    rowAfter .consumedCells key v ops = rowAfter .consumedCells key v cells

/-! ## Runs -/

/-- Where the refresh loop's round stands. -/
inductive Round where
  | idle
  /-- The window is open. -/
  | opened
  /-- The append-only secondary has caught up or failed. -/
  | appended (appendOnly : Except String Unit)
  | advanced (appendOnly domain : Except String Unit)
  /-- The window is closed, the outcomes (none if the round panicked) are not recorded yet. -/
  | closed (outcomes : Option (List CatchUpOutcome))

/-- Whether the round holds a window. -/
def Round.inWindow : Round → Bool
  | .opened | .appended _ | .advanced _ _ => true
  | .idle | .closed _ => false

structure ApiState where
  /-- What the indexer has committed, and the batch whose payloads alone it has committed. -/
  primary : Stores
  pending : Option CellBatch
  /-- What the secondaries show. -/
  view : Stores
  latch : ReadView.System
  round : Round
  phase : Phase
  /-- Pinned read scopes whose readiness check passed. -/
  served : Nat
  /-- The outpoints whose payloads were first committed since the append-only secondary last
      caught up. No step depends on it. -/
  unseen : List Bytes

/-- A catch-up: the primary's store of this moment, or the old view. -/
def caughtUp {α : Type} (result : Except String Unit) (primary view : α) : α :=
  match result with
  | .ok () => primary
  | .error _ => view

inductive Step : ApiState → ApiState → Prop where
  /-- The indexer commits the payloads of its next batch. -/
  | payloads {st : ApiState} (batch : CellBatch) (h : st.pending = none) :
      Step st { st with
        primary := ⟨st.primary.domain, st.primary.appendOnly.write batch.payloads⟩
        pending := some batch
        unseen := st.unseen ++
          (batch.created.map Prod.fst).filter fun o => !hasPayload st.primary.appendOnly o }
  /-- The indexer commits the domain batch. -/
  | domain {st : ApiState} {batch : CellBatch} {ops : DomainBatch}
      (h : st.pending = some batch) (hresolved : batch.Resolved st.primary.domain)
      (hops : WritesCells ops batch.rows) :
      Step st { st with
        primary := ⟨st.primary.domain.write ops, st.primary.appendOnly⟩
        pending := none }
  /-- The indexer stops between the two commits. -/
  | stopped {st : ApiState} : Step st { st with pending := none }
  /-- The indexer rolls the domain store back. -/
  | rollback {st : ApiState} {dropped : List Bytes} {restored : List (Bytes × Bytes)}
      {ops : DomainBatch} (h : st.pending = none)
      (hrestored : ∀ c ∈ restored, (st.primary.domain.get .consumedCells c.1).isSome)
      (hops : WritesCells ops (rollbackRows dropped restored)) :
      Step st { st with primary := ⟨st.primary.domain.write ops, st.primary.appendOnly⟩ }
  /-- Readers pin and release, callers queue: any step of the latch that opens or closes no
      window. A scope that ends is not served any more. -/
  | latch {st : ApiState} {latch' : ReadView.System} {served' : Nat}
      (h : ReadView.Step st.latch latch') (hwindows : latch'.windows = st.latch.windows)
      (hserved : served' ≤ st.served) (hscopes : served' ≤ latch'.scopes) :
      Step st { st with latch := latch', served := served' }
  /-- A pinned scope passes the readiness check. -/
  | serve {st : ApiState} (h : st.phase.check = .ok ()) (hscope : st.served < st.latch.scopes) :
      Step st { st with served := st.served + 1 }
  | openWindow {st : ApiState} {latch' : ReadView.System} (hround : st.round = .idle)
      (h : ReadView.Step st.latch latch') (hopen : latch'.windows = st.latch.windows + 1) :
      Step st { st with latch := latch', round := .opened }
  | catchUpAppendOnly {st : ApiState} (result : Except String Unit) (hround : st.round = .opened) :
      Step st { st with
        view := ⟨st.view.domain, caughtUp result st.primary.appendOnly st.view.appendOnly⟩
        round := .appended result
        unseen := caughtUp result [] st.unseen }
  | catchUpDomain {st : ApiState} {appendOnly : Except String Unit} (result : Except String Unit)
      (hround : st.round = .appended appendOnly) :
      Step st { st with
        view := ⟨caughtUp result st.primary.domain st.view.domain, st.view.appendOnly⟩
        round := .advanced appendOnly result }
  /-- The round has advanced the other secondaries too and returns its outcomes. -/
  | closeWindow {st : ApiState} {appendOnly domain : Except String Unit}
      {latch' : ReadView.System} (others : List CatchUpOutcome)
      (hround : st.round = .advanced appendOnly domain) (h : ReadView.Step st.latch latch')
      (hclose : latch'.windows + 1 = st.latch.windows) :
      Step st { st with
        latch := latch'
        round := .closed (some (⟨.appendOnly, appendOnly⟩ :: ⟨.domain, domain⟩ :: others)) }
  /-- The round's task panics; unwinding drops the window. -/
  | panicked {st : ApiState} {latch' : ReadView.System} (hround : st.round.inWindow = true)
      (h : ReadView.Step st.latch latch') (hclose : latch'.windows + 1 = st.latch.windows) :
      Step st { st with latch := latch', round := .closed none }
  | record {st : ApiState} {outcomes : List CatchUpOutcome}
      (hround : st.round = .closed (some outcomes)) :
      Step st { st with phase := st.phase.recordRound outcomes, round := .idle }
  | recordFailed {st : ApiState} (error : String) (hround : st.round = .closed none) :
      Step st { st with phase := st.phase.recordFailedRound error, round := .idle }

/-- A process that has opened its secondaries and caught none of them up: the append-only view is
some earlier state, the domain view is any. -/
structure Starts (st : ApiState) : Prop where
  phase : st.phase = .firstCatchUp none
  round : st.round = .idle
  latch : st.latch = {}
  served : st.served = 0
  unseen : ∀ outpoint, hasPayload st.primary.appendOnly outpoint = true →
    hasPayload st.view.appendOnly outpoint = true ∨ outpoint ∈ st.unseen
  pending : st.pending = none
  coherent : st.primary.Coherent
  earlier : ∀ outpoint, hasPayload st.view.appendOnly outpoint = true →
    hasPayload st.primary.appendOnly outpoint = true

end Ckbadger.Api
