/-
Ckbadger.Cli.IndexerSequencer — the orchestrator starts network indexers one at a time.

The gate starts the next indexer when it reads that the gating network is past bulk: its
completion flag is set, or its last heartbeat was within the threshold of the target. The
gating indexer writes both while its bulk build is still running, so two builds can overlap
(`two_networks_bulk_build`). They cannot when the gate only goes on from a network that has
left its build and has a stored tip (`indexers_start_one_at_a_time`). Log lines, the sleep
between polls and the shutdown signal are left out.
-/
import Ckbadger.Lib.Runs
import Mathlib.Data.List.Range

namespace Ckbadger.Cli

/-! ## A network's store and indexer -/

/-- What the gate and a starting indexer read of a domain store. -/
structure NetworkStore where
  created : Bool := false
  tip : Option Nat := none
  bulkBuildSessionMarker : Bool := false
  /-- Whether `bulk_sync_completed_at` is set. -/
  bulkCompleted : Bool := false
  /-- The current and the target block of the last heartbeat. -/
  progress : Option (Nat × Nat) := none

inductive SyncPath where
  | bulkBuild
  | pipeline
  deriving DecidableEq

/-- A store without a tip is as far behind as the chain is high; one with a tip never
bulk builds. -/
def decideStartupSync (chainTip : Nat) (syncTip : Option Nat) (threshold : Nat) : SyncPath :=
  if syncTip = none ∧ threshold < chainTip then .bulkBuild else .pipeline

/-- Where an indexer process is. -/
inductive Stage where
  /-- The stores are open and the path is decided. -/
  | starting (path : SyncPath)
  | initialized (path : SyncPath)
  /-- Inside `BulkBuildEngine::run`: the batches, what is left to finalize, and the time
  between the completion flag and the end of the session. -/
  | bulkLoop
  | finalizing
  | completed
  | pipeline
  deriving DecidableEq

def Stage.insideBulkBuild : Stage → Bool
  | .bulkLoop | .finalizing | .completed => true
  | _ => false

/-- In a bulk build or on the way into one. -/
def Stage.isBulk (stage : Stage) : Bool :=
  stage.insideBulkBuild || stage == .starting .bulkBuild || stage == .initialized .bulkBuild

structure Process where
  current : Nat
  target : Nat
  stage : Stage

structure Network where
  store : NetworkStore := {}
  process : Option Process := none
  /-- Why the supervisor does not restart the indexer. -/
  blocked : Option String := none

def Network.insideBulkBuild (net : Network) : Bool :=
  net.process.any fun p => p.stage.insideBulkBuild

/-- Out of bulk sync for good: no build is running, and the next start finds a tip. -/
def Network.isPast (net : Network) : Bool :=
  net.store.tip.isSome && net.process.all fun p => !p.stage.isBulk

inductive NetworkEvent where
  | launch (chainTip : Nat)
  | initSync
  | enter
  | heartbeat
  | retarget (chainTip : Nat)
  | commit (block : Nat)
  | leaveLoop (bufferExhausted : Bool)
  | complete
  | clearMarker
  | crash
  | block (reason : String)
  | unblock

section Indexer

variable (threshold : Nat) (net : Network)

def Network.put (store : NetworkStore) (p : Process) : Network :=
  { net with store := store, process := some p }

/-- What a running indexer does. -/
def Network.advance (p : Process) (event : NetworkEvent) : Network :=
  match event, p.stage with
  | .initSync, .starting .bulkBuild =>
    net.put { net.store with bulkCompleted := false } { p with stage := .initialized .bulkBuild }
  | .initSync, .starting .pipeline => net.put net.store { p with stage := .initialized .pipeline }
  | .enter, .initialized .bulkBuild =>
    net.put { net.store with bulkBuildSessionMarker := true } { p with stage := .bulkLoop }
  | .enter, .initialized .pipeline => net.put net.store { p with stage := .pipeline }
  | .heartbeat, _ => net.put { net.store with progress := some (p.current, p.target) } p
  | .retarget chainTip, .bulkLoop | .retarget chainTip, .pipeline =>
    net.put net.store { p with target := chainTip }
  | .commit block, .bulkLoop =>
    if threshold < p.target - p.current then
      net.put { net.store with tip := some block } { p with current := block }
    else net
  | .commit block, .pipeline =>
    net.put { net.store with tip := some block } { p with current := block }
  | .leaveLoop bufferExhausted, .bulkLoop =>
    if bufferExhausted ∨ p.target - p.current ≤ threshold then
      net.put net.store { p with stage := .finalizing }
    else net
  | .complete, .finalizing =>
    net.put { net.store with bulkCompleted := true } { p with stage := .completed }
  -- the process ends here, so that live sync starts with a new heap
  | .clearMarker, .completed =>
    { net with store := { net.store with bulkBuildSessionMarker := false }, process := none }
  | _, _ => net

def Network.step : NetworkEvent → Network
  | .launch chainTip =>
    if net.process.isSome ∨ net.blocked.isSome then net
    -- the exit code of an interrupted build blocks the child
    else if net.store.bulkBuildSessionMarker then { net with blocked := some "rebuild required" }
    else net.put { net.store with created := true }
      ⟨net.store.tip.getD 0, chainTip, .starting (decideStartupSync chainTip net.store.tip threshold)⟩
  | .crash => { net with process := none }
  | .block reason => { net with blocked := some reason }
  | .unblock => { net with blocked := none }
  | event =>
    match net.process with
    | none => net
    | some p => net.advance threshold p event

end Indexer

/-! ## The gate -/

def isPastBulk (bulkCompleted : Bool) (lag : Option Int) (threshold : Nat) : Bool :=
  bulkCompleted || lag.any fun (l : Int) => l ≤ threshold

structure BulkStatusSample where
  pastBulk : Option Bool := none
  lag : Option Int := none
  bulkCompleted : Bool := false

structure GateStatus extends BulkStatusSample where
  blocked : Option String

def NetworkStore.readBulkStatus (threshold : Nat) (store : NetworkStore) : BulkStatusSample :=
  if store.created then
    let lag := store.progress.map fun p => (p.2 : Int) - p.1
    ⟨some (isPastBulk store.bulkCompleted lag threshold), lag, store.bulkCompleted⟩
  else {}

structure Orchestrator where
  /-- The number of networks, in `[[network]]` order. -/
  count : Nat
  networks : Nat → Network
  /-- The network the gate is to start next. -/
  next : Nat
  started : List Nat
  /-- What this round has read of the gating network's store. -/
  sample : BulkStatusSample := {}

/-- The first half of a round; a read that fails carries no signal. -/
def Orchestrator.poll (threshold : Nat) (readFails : Bool) (st : Orchestrator) : Orchestrator :=
  { st with
    sample := if readFails then {} else (st.networks (st.next - 1)).store.readBulkStatus threshold }

def Orchestrator.gateStatus (st : Orchestrator) : GateStatus :=
  { st.sample with blocked := (st.networks (st.next - 1)).blocked }

/-- The second half of a round; a spawn that fails leaves the gate where it is. -/
def Orchestrator.decideRound (spawnFails : Bool) (st : Orchestrator) : Orchestrator :=
  if st.next < st.count ∧ st.gateStatus.blocked = none ∧ st.gateStatus.pastBulk = some true ∧
      spawnFails = false then
    { st with next := st.next + 1, started := st.started ++ [st.next], sample := {} }
  else { st with sample := {} }

inductive Event where
  | poll (readFails : Bool)
  | decideRound (spawnFails : Bool)
  | network (n : Nat) (event : NetworkEvent)

/-- Only an indexer that was started runs. -/
def Orchestrator.step (threshold : Nat) (st : Orchestrator) : Event → Orchestrator
  | .poll readFails => st.poll threshold readFails
  | .decideRound spawnFails => st.decideRound spawnFails
  | .network n event =>
    if n < st.next then
      { st with
        networks := fun m => if m = n then (st.networks n).step threshold event else st.networks m }
    else st

/-- The first indexer is started with the orchestrator, whatever the stores hold. -/
structure Orchestrator.Initial (st : Orchestrator) : Prop where
  next : st.next = 1
  started : st.started = [0]
  processes : ∀ n, (st.networks n).process = none

/-- The round ends with the gate open, and it starts the next indexer. -/
def Orchestrator.goesOn (st : Orchestrator) : Event → Bool
  | .decideRound spawnFails => st.next < st.count && st.gateStatus.blocked.isNone &&
      st.gateStatus.pastBulk == some true && !spawnFails
  | _ => false

/-- Whenever the gate goes on, the gating network is out of bulk sync for good. -/
abbrev Guarded (threshold : Nat) : Orchestrator → List Event → Prop :=
  Lib.ValidRun (Orchestrator.step threshold) fun st event =>
    st.goesOn event = true → (st.networks (st.next - 1)).isPast = true

/-! ## Runs -/

section Runs

variable {threshold : Nat} {net : Network} {st : Orchestrator} {event : Event} {events : List Event}

namespace Network

theorem isPast_advance {p : Process} (hp : p.stage.isBulk = false)
    (htip : net.store.tip.isSome) (hprocess : net.process = some p) (e : NetworkEvent) :
    (net.advance threshold p e).isPast = true := by
  obtain ⟨current, target, stage⟩ := p
  cases e <;> cases stage <;>
    simp_all [advance, put, isPast, Stage.isBulk, Stage.insideBulkBuild] <;>
    rename_i path <;> cases path <;> simp_all

/-- A network that is out of bulk sync stays out, through crashes and restarts. -/
theorem isPast_step (h : net.isPast = true) (e : NetworkEvent) :
    (net.step threshold e).isPast = true := by
  have hkept := h
  simp only [isPast, Bool.and_eq_true] at h
  obtain ⟨htip, hprocess⟩ := h
  cases e with
  | launch chainTip =>
    simp only [step]
    split
    · exact hkept
    · split
      · exact hkept
      · simp [put, isPast, decideStartupSync, htip, Option.isSome_iff_ne_none.mp htip,
          Stage.isBulk, Stage.insideBulkBuild]
  | crash => simp [step, isPast, htip]
  | block reason => exact hkept
  | unblock => exact hkept
  | _ =>
    simp only [step]
    cases hp : net.process with
    | none => exact hkept
    | some p =>
      rw [hp] at hprocess
      exact isPast_advance (by simpa using hprocess) htip hp _

end Network

namespace Orchestrator

/-- The indexers were started in order, and only these have processes. -/
structure InOrder (st : Orchestrator) : Prop where
  pos : 0 < st.next
  started : st.started = List.range st.next
  unstarted : ∀ n, st.next ≤ n → (st.networks n).process = none

theorem Initial.inOrder (h : st.Initial) : st.InOrder where
  pos := by simp [h.next]
  started := by simp [h.started, h.next]
  unstarted n _ := h.processes n

theorem decideRound_cases (spawnFails : Bool) (st : Orchestrator) :
    st.decideRound spawnFails = { st with sample := {} } ∨
      st.goesOn (.decideRound spawnFails) = true ∧ st.decideRound spawnFails
        = { st with next := st.next + 1, started := st.started ++ [st.next], sample := {} } := by
  unfold decideRound
  split
  · rename_i hopen
    exact .inr ⟨by simpa [goesOn, and_assoc] using hopen, rfl⟩
  · exact .inl rfl

theorem InOrder.step (h : st.InOrder) : (st.step threshold event).InOrder := by
  cases event with
  | poll readFails => exact ⟨h.pos, h.started, h.unstarted⟩
  | decideRound spawnFails =>
    simp only [step]
    rcases st.decideRound_cases spawnFails with heq | ⟨-, heq⟩
    · rw [heq]
      exact ⟨h.pos, h.started, h.unstarted⟩
    · rw [heq]
      exact ⟨Nat.succ_pos _, by simp [h.started, List.range_succ],
        fun n hn => h.unstarted n (Nat.le_of_succ_le hn)⟩
  | network n e =>
    simp only [step]
    split
    · rename_i hn
      refine ⟨h.pos, h.started, fun m hm => ?_⟩
      have hne : m ≠ n := fun heq => absurd hn (not_lt.mpr (heq ▸ hm))
      simpa [hne] using h.unstarted m hm
    · exact h

theorem InOrder.run (h : st.InOrder) : (events.foldl (Orchestrator.step threshold) st).InOrder := by
  induction events generalizing st with
  | nil => exact h
  | cons event events ih => exact ih h.step

/-- Every network the gate has gone on from is out of bulk sync. -/
def Passed (st : Orchestrator) : Prop :=
  ∀ n, n + 1 < st.next → (st.networks n).isPast = true

theorem Passed.step (h : st.Passed)
    (hguard : st.goesOn event = true → (st.networks (st.next - 1)).isPast = true) :
    (st.step threshold event).Passed := by
  intro m hm
  cases event with
  | poll readFails => exact h m hm
  | decideRound spawnFails =>
    simp only [step] at hm ⊢
    rcases st.decideRound_cases spawnFails with heq | ⟨hgoes, heq⟩
    · rw [heq] at hm ⊢
      exact h m hm
    · rw [heq] at hm ⊢
      have hpast : (st.networks (st.next - 1)).isPast = true := hguard hgoes
      rcases Nat.lt_or_ge (m + 1) st.next with hlt | hge
      · exact h m hlt
      · -- the network before the one the gate has just started
        rwa [show st.next - 1 = m by simp only at hm; omega] at hpast
  | network n e =>
    simp only [step] at hm ⊢
    split at hm
    · rename_i hn
      rw [if_pos hn]
      simp only
      split
      · rename_i heq
        exact Network.isPast_step (heq ▸ h m hm) e
      · exact h m hm
    · rename_i hn
      rw [if_neg hn]
      exact h m hm

theorem Passed.run (h : st.Passed) (hguarded : Guarded threshold st events) :
    (events.foldl (Orchestrator.step threshold) st).Passed :=
  hguarded.invariant (fun _ _ h hevent => h.step hevent) h

theorem Passed.not_inside (h : st.Passed) (horder : st.InOrder) {n m : Nat}
    (hlt : n < m) (hm : (st.networks m).insideBulkBuild = true) :
    (st.networks n).insideBulkBuild = false := by
  have hstarted : m < st.next := by
    by_contra hle
    simp [Network.insideBulkBuild, horder.unstarted m (not_lt.mp hle)] at hm
  have hpast := h n (by omega)
  simp only [Network.isPast] at hpast
  cases hp : (st.networks n).process with
  | none => simp [Network.insideBulkBuild, hp]
  | some p => simp_all [Network.insideBulkBuild, Stage.isBulk]

end Orchestrator

end Runs

/-- Under every schedule the indexers are first started in order, and a round whose gating indexer
is blocked or unreadable starts nobody and stops nobody. If moreover the gate only goes on from
networks that are out of bulk sync for good, no two indexers are inside a bulk build. -/
theorem indexers_start_one_at_a_time (threshold : Nat) {st : Orchestrator} (hinit : st.Initial)
    (events : List Event) :
    let last := events.foldl (Orchestrator.step threshold) st
    last.started = List.range last.next ∧
      (∀ spawnFails, (last.decideRound spawnFails).networks = last.networks ∧
        ((last.networks (last.next - 1)).blocked.isSome →
          (last.decideRound spawnFails).started = last.started) ∧
        ((last.poll threshold true).decideRound spawnFails).started = last.started) ∧
      (Guarded threshold st events → ∀ n m, (last.networks n).insideBulkBuild = true →
        (last.networks m).insideBulkBuild = true → n = m) := by
  intro last
  have horder : last.InOrder := hinit.inOrder.run
  refine ⟨horder.started, fun spawnFails => ⟨?_, fun hblocked => ?_, ?_⟩,
    fun hguarded n m hn hm => ?_⟩
  · rcases last.decideRound_cases spawnFails with heq | ⟨-, heq⟩ <;> rw [heq]
  · simp [Orchestrator.decideRound, Orchestrator.gateStatus, Option.isSome_iff_ne_none.mp hblocked]
  · simp [Orchestrator.decideRound, Orchestrator.gateStatus, Orchestrator.poll]
  · have hpassed : st.Passed := fun k hk => by rw [hinit.next] at hk; omega
    have hlast : last.Passed := hpassed.run hguarded
    rcases Nat.lt_trichotomy n m with hlt | heq | hlt
    · exact absurd (hlast.not_inside horder hlt hm) (by simp [hn])
    · exact heq
    · exact absurd (hlast.not_inside horder hlt hn) (by simp [hm])

/-- Two networks with fresh stores. -/
def freshPair : Orchestrator := ⟨2, fun _ => {}, 1, [0], {}⟩

theorem freshPair_initial : freshPair.Initial := ⟨rfl, rfl, fun _ => rfl⟩

/-- What an indexer does up to the first batch of a bulk build towards block 5000. -/
def bulkStart (n : Nat) : List Event :=
  [.network n (.launch 5000), .network n .initSync, .network n .enter, .network n (.commit 4000)]

/-- A build that has been completed, and the restart into live sync. -/
def handoff : List Event :=
  bulkStart 0 ++ [.network 0 (.leaveLoop false), .network 0 .complete, .network 0 .clearMarker,
    .network 0 (.launch 5000), .network 0 .initSync, .network 0 .enter, .poll false, .decideRound false]
    ++ bulkStart 1

theorem indexers_start_one_at_a_time_handoff :
    Guarded 1000 freshPair handoff ∧
      let last := handoff.foldl (Orchestrator.step 1000) freshPair
      last.started = [0, 1] ∧ (last.networks 1).insideBulkBuild = true ∧
        (last.networks 0).insideBulkBuild = false := by
  have hguarded : Guarded 1000 freshPair handoff := by decide
  obtain ⟨hstarted, -, hone⟩ := indexers_start_one_at_a_time 1000 freshPair_initial handoff
  have hinside : ((handoff.foldl (Orchestrator.step 1000) freshPair).networks 1).insideBulkBuild
      = true := by decide
  refine ⟨hguarded, hstarted.trans (by decide), hinside, ?_⟩
  by_contra hother
  exact absurd (hone hguarded 0 1 (by simpa using hother) hinside) (by decide)

/-- The heartbeat of a build that has left its batch loop is within the threshold: the gate starts
the next network, and both are inside a bulk build. -/
theorem two_networks_bulk_build :
    ∃ events : List Event, let last := events.foldl (Orchestrator.step 1000) freshPair
      freshPair.Initial ∧ (last.networks 0).insideBulkBuild = true ∧
        (last.networks 1).insideBulkBuild = true :=
  ⟨bulkStart 0 ++ [.network 0 (.leaveLoop false), .network 0 .heartbeat, .poll false,
    .decideRound false] ++ bulkStart 1, freshPair_initial, by decide, by decide⟩

end Ckbadger.Cli
