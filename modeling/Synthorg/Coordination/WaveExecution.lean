/-
The wave loop (engine/coordination/_wave_execution.py), with the parking
around it (_wave_parking.py) and the reading of a wave's outcome
(_wave_outcome.py).

Each wave is gated, persisted, executed and recorded. A wave that raises is recorded and its rows
parked, and so are the waves a run does not reach.

The writer (assignment_writer.py) gates a wave, parks what will not run and assigns what will.

Between two operations the engine may serve any mutations of others; what each meets is up to the
environment.

The gate before a dispatch (_dependency_gate.py) says which dependencies died, and which are
parked.
-/
import Synthorg.Lib.Program
import Synthorg.TaskEngine.Apply
import Synthorg.Decomposition.Service

namespace Synthorg.Coordination

section
open Synthorg.Core Lib Decomposition

def nonDeliveringStatuses : List TaskStatus :=
  [.failed, .cancelled, .rejected, .blocked, .interrupted]

def awaitsDispatchStatuses : List TaskStatus :=
  [.created, .assigned, .inProgress, .interrupted]

structure DependencyState where
  status : Option TaskStatus
  blockedReason : Option BlockedReason
  parked : ∀ r, blockedReason = some r → status = some .blocked

def DependencyState.absent : DependencyState := ⟨none, none, by simp⟩

def DependencyState.of (live : Option Task) : DependencyState :=
  match live with
  | none => absent
  | some task => ⟨some task.status, task.blockedReason, fun r h => by
    rw [task.coherent.reason_names_park r h]⟩

def DependencyState.awaited (state : DependencyState) : Bool :=
  state.status = some .blocked && state.blockedReason.any BlockedReason.attended

def DependencyState.dead (state : DependencyState) : Bool :=
  !state.awaited && state.status.all fun status => status ∈ nonDeliveringStatuses

def awaitsDispatch (status : Option TaskStatus) : Bool :=
  status.all fun status => status ∈ awaitsDispatchStatuses

/-- `Mapping[str, tuple[str, ...]]`: the ids of a plan, and what each declares
it depends on. -/
structure DependencyMap where
  keys : List String
  get : String → List String

def dependencyMap (subtasks : List SubtaskDefinition) : DependencyMap where
  keys := subtasks.map SubtaskDefinition.id
  get := Keyed.edges SubtaskDefinition.id SubtaskDefinition.dependencies subtasks

abbrev DependencyStates := List (String × DependencyState)

def unmetDependencies (states : DependencyStates) : List String :=
  ((states.filter fun d => d.2.dead).map Prod.fst).insertionSort (· ≤ ·)

def awaitedDependencies (states : DependencyStates) : List String :=
  ((states.filter fun d => d.2.awaited).map Prod.fst).insertionSort (· ≤ ·)

theorem insertionSort_eq_nil_iff {l : List String} : l.insertionSort (· ≤ ·) = [] ↔ l = [] := by
  rw [← List.length_eq_zero_iff, List.length_insertionSort, List.length_eq_zero_iff]

theorem unmetDependencies_eq_nil_iff {states : DependencyStates} :
    unmetDependencies states = [] ↔ ∀ d ∈ states, d.2.dead = false := by
  simp [unmetDependencies, insertionSort_eq_nil_iff]

theorem awaitedDependencies_eq_nil_iff {states : DependencyStates} :
    awaitedDependencies states = [] ↔ ∀ d ∈ states, d.2.awaited = false := by
  simp [awaitedDependencies, insertionSort_eq_nil_iff]

theorem DependencyState.standing {state : DependencyState} (hdead : state.dead = false)
    (ha : state.awaited = false) :
    ∃ status, state.status = some status ∧ status ∉ nonDeliveringStatuses := by
  unfold dead at hdead
  rw [ha] at hdead
  cases hs : state.status with
  | none => simp [hs] at hdead
  | some status => exact ⟨status, rfl, by simpa [hs] using hdead⟩

structure AgentAssignment where
  agentId : String
  task : TaskFields
  resourceClaims : List String
  deriving DecidableEq

def AgentAssignment.taskId (a : AgentAssignment) : String := a.task.id.text

structure ParallelExecutionGroup where
  groupId : String
  assignments : List AgentAssignment
  maxConcurrency : Option Nat
  failFast : Bool
  dagLevel : Nat
  deriving DecidableEq

def ParallelExecutionGroup.taskIds (g : ParallelExecutionGroup) : List String :=
  g.assignments.map AgentAssignment.taskId

/-- What the builder reads of `CoordinationConfig`. -/
structure CoordinationConfig where
  maxConcurrencyPerWave : Option Nat
  failFast : Bool

structure RoutingDecision where
  subtaskId : String
  agentId : String

structure RoutingResult where
  decisions : List RoutingDecision
  distinct : Keyed.Distinct RoutingDecision.subtaskId decisions

/-- Why no groups come of it. -/
inductive BuildError
  | graph (e : GraphError)
  | noCreatedTask (subtaskId : String)
  deriving DecidableEq

def placeInRounds (a : AgentAssignment) : List (List AgentAssignment) → List (List AgentAssignment)
  | [] => [[a]]
  | round :: rest =>
    if a.agentId ∈ round.map AgentAssignment.agentId then round :: placeInRounds a rest
    else (round ++ [a]) :: rest

def roundsByAgent (assignments : List AgentAssignment) : List (List AgentAssignment) :=
  assignments.foldl (fun rounds a => placeInRounds a rounds) []

/-- `task.model_copy(update=...)`: the assignment the wave intends. -/
def assignedTask (task : Task) (agentId : String) : TaskFields :=
  { task.toTaskFields with
    status := .assigned
    assignedTo := some agentId }

section Builder

variable (r : DecompositionResult) (routing : RoutingResult)
  (workspaces : List (String × String))

def waveAssignments : List String → List String →
    Except BuildError (List AgentAssignment × List String)
  | [], blockedIds => .ok ([], blockedIds)
  | subtaskId :: rest, blockedIds =>
    if ((dependencyMap r.dispatchSubtasks).get subtaskId).any (· ∈ blockedIds) then
      waveAssignments rest (subtaskId :: blockedIds)
    else
      match Keyed.lookup RoutingDecision.subtaskId routing.decisions subtaskId with
      | none => waveAssignments rest (subtaskId :: blockedIds)
      | some decision =>
        match Keyed.lookup (fun t : Task => t.id.text) r.allTasks subtaskId with
        | none => .error (.noCreatedTask subtaskId)
        | some task => do
            let (assignments, blockedIds) ← waveAssignments rest blockedIds
            .ok (⟨decision.agentId, assignedTask task decision.agentId,
              ((Keyed.lookup Prod.fst workspaces subtaskId).map Prod.snd).toList⟩ ::
                assignments, blockedIds)

def waveGroups (config : CoordinationConfig) (waveIdx : Nat)
    (assignments : List AgentAssignment) : List ParallelExecutionGroup :=
  (roundsByAgent assignments).zipIdx.map fun round =>
    { groupId :=
        if round.2 = 0 then "wave-" ++ toString waveIdx
        else "wave-" ++ toString waveIdx ++ "-" ++ toString round.2
      assignments := round.1
      maxConcurrency := config.maxConcurrencyPerWave
      failFast := config.failFast
      dagLevel := waveIdx }

def groupsFrom (config : CoordinationConfig) :
    Nat → List (List String) → List String → Except BuildError (List ParallelExecutionGroup)
  | _, [], _ => .ok []
  | waveIdx, subtaskIds :: rest, blockedIds => do
      let (assignments, blockedIds) ← waveAssignments r routing workspaces subtaskIds blockedIds
      let groups ← groupsFrom config (waveIdx + 1) rest blockedIds
      .ok (waveGroups config waveIdx assignments ++ groups)

def buildExecutionWaves (config : CoordinationConfig) :
    Except BuildError (List ParallelExecutionGroup) := do
  let parallelGroups ← (DependencyGraph.mk r.dispatchSubtasks).parallelGroups.mapError .graph
  groupsFrom r routing workspaces config 0 parallelGroups []

end Builder

end

section
open Synthorg.Core Lib TaskEngine

-- ==== what is recorded

/-- What the gate made of one subtask. -/
inductive Verdict
  /-- its inputs stand -/
  | runnable
  /-- held back: an input is parked on somebody who can still release it -/
  | awaiting
  | parked
  /-- an input died and the park did not land, so it stays in the wave -/
  | kept
  deriving DecidableEq

/-- A subtask at the gate: what the engine held for its dependencies, and the verdict. -/
structure Judgement where
  waveIdx : Nat
  taskId : String
  states : DependencyStates
  verdict : Verdict

/-- What the wave loop reads of a `ParallelExecutionResult`. -/
structure ParallelExecutionResult where
  agentsFailed : Nat
  awaitingHuman : List String

structure CoordinationWave where
  waveIndex : Nat
  subtaskIds : List String
  executionResult : Option ParallelExecutionResult
  named : subtaskIds ≠ []

inductive Error
  | coordination
  | taskEngine
  | workspace
  | executor
  | validation
  deriving DecidableEq

inductive PhaseError
  | emptyWave (awaiting : Nat)
  | agentsFailed (failed awaitingHuman : Nat)
  | didNotFinish
  | raised (e : Error)
  deriving DecidableEq

/-- Failed exactly when it names an error. -/
structure WaveVerdict where
  error : Option PhaseError
  parkedTaskIds : List String

def WaveVerdict.failed (v : WaveVerdict) : Bool := v.error.isSome

inductive PhaseName
  | executeWave (waveIdx : Nat)
  | settleWave (waveIdx : Nat)
  deriving DecidableEq

structure CoordinationPhaseResult where
  phase : PhaseName
  error : Option PhaseError

-- ==== the operations

inductive Operation
  | getTask (taskId : String)
  /-- A `TransitionTaskMutation`, and its answer awaited. -/
  | submit (taskId : String) (target : TaskStatus) (overrides : FieldUpdates)
  | prepare (waveIdx : Nat) (group : ParallelExecutionGroup)
  /-- The index is for the record. -/
  | executeGroup (waveIdx : Nat) (group : ParallelExecutionGroup)
  | settle (waveIdx : Nat) (verdict : WaveVerdict)
  | judge (judgement : Judgement)
  | appendWave (wave : CoordinationWave)
  | appendPhase (phase : CoordinationPhaseResult)

@[reducible]
def Reply : Operation → Type
  | .getTask _ => Option Task
  | .submit .. => TaskMutationResult
  | .prepare .. => Option ParallelExecutionGroup
  | .executeGroup .. => ParallelExecutionResult
  | .settle .. => Unit
  | .judge _ => Unit
  | .appendWave _ => Unit
  | .appendPhase _ => Unit

/-- A preparation declines the wave, or rebuilds it without these assignments. -/
inductive Prepared
  | declined
  | rebuilt (leftOut : List String)

structure Environment where
  others : List TaskEngine.Request
  turn : Operation → TurnEnv
  raises : Operation → Bool
  requestId : String
  prepared : Prepared
  executed : ParallelExecutionResult

structure World where
  engine : EngineState
  judged : List Judgement
  /-- Wave and subtask of everything the executor was given. -/
  handed : List (Nat × String)
  parked : List String
  refused : List String
  /-- The status of a row when the run read it, or asked for its park. -/
  found : List (String × Option TaskStatus)
  waves : List CoordinationWave
  phases : List CoordinationPhaseResult

def World.start (engine : EngineState) : World := ⟨engine, [], [], [], [], [], [], []⟩

namespace World

def statusOf (w : World) (taskId : String) : Option TaskStatus :=
  (w.engine.tasks taskId).map TaskFields.status

def finding (w : World) (taskId : String) : World :=
  { w with found := (taskId, w.statusOf taskId) :: w.found }

def parking (w : World) (taskId : String) (landed : Bool) : World :=
  if landed then { w with parked := taskId :: w.parked }
  else { w with refused := taskId :: w.refused }

def interfered (w : World) (others : List TaskEngine.Request) : World :=
  { w with engine := others.foldl TaskEngine.step w.engine }

end World

/-- `prepare`, when it does not raise. -/
def Prepared.answer (group : ParallelExecutionGroup) : Prepared → Option ParallelExecutionGroup
  | .declined => none
  | .rebuilt leftOut => some
      { group with assignments := group.assignments.filter fun a => a.taskId ∉ leftOut }

def transitionRequest (env : Environment) (op : Operation) (taskId : String)
    (target : TaskStatus) (overrides : FieldUpdates) : TaskEngine.Request where
  env := env.turn op
  mutation := .transition env.requestId taskId target overrides ⟨none, unversioned⟩

def operate (w : World) (op : Operation) (env : Environment) : World × Except Error (Reply op) :=
  match op with
  | .getTask taskId =>
    match w.engine.get (env.turn (.getTask taskId)) taskId with
    | none => (w, .error .taskEngine)
    | some live => (w.finding taskId, .ok live)
  | .submit taskId target overrides =>
    let request :=
      transitionRequest env (.submit taskId target overrides) taskId target overrides
    let answer := TaskEngine.result w.engine request
    let served := { w with engine := TaskEngine.step w.engine request }
    if target = .blocked then
      (({ served with found := (w.finding taskId).found } : World).parking taskId
        answer.succeeded, .ok answer)
    else (served, .ok answer)
  | .prepare _ group => (w, .ok (env.prepared.answer group))
  | .executeGroup waveIdx group =>
    ({ w with handed := (group.taskIds.map fun taskId => (waveIdx, taskId)) ++ w.handed },
      .ok env.executed)
  | .settle _ _ => (w, .ok ())
  | .judge judgement => ({ w with judged := judgement :: w.judged }, .ok ())
  | .appendWave wave => ({ w with waves := w.waves ++ [wave] }, .ok ())
  | .appendPhase phase => ({ w with phases := w.phases ++ [phase] }, .ok ())

def Operation.error : Operation → Error
  | .getTask _ => .taskEngine
  | .submit .. => .taskEngine
  | .prepare .. => .workspace
  | .executeGroup .. => .executor
  | .settle .. => .workspace
  | _ => .validation

def Operation.awaited : Operation → Bool
  | .judge _ => false
  | .appendWave _ => false
  | .appendPhase _ => false
  | _ => true

def exec (w : World) (op : Operation) (env : Environment) : World × Except Error (Reply op) :=
  let w := w.interfered env.others
  if env.raises op && op.awaited then
    match op with
    -- what the executor was given stays given when it raises
    | .executeGroup waveIdx group =>
      ((operate w (.executeGroup waveIdx group) env).1, .error .executor)
    | .submit taskId .blocked _ => (w.parking taskId false, .error .taskEngine)
    | op => (w, .error op.error)
  else operate w op env

end

open Synthorg.Core Lib Lib.Program TaskEngine

abbrev Call (α : Type) := Program Reply Error α

-- ==== the operations

def getTask (taskId : String) : Call (Option Task) := perform (Operation.getTask taskId)

def submit (taskId : String) (target : TaskStatus) (overrides : FieldUpdates) :
    Call TaskMutationResult :=
  perform (Operation.submit taskId target overrides)

def judge (judgement : Judgement) : Call Unit := perform (Operation.judge judgement)

/-- `overrides={"blocked_reason": reason}`. -/
def blockedOverrides (reason : BlockedReason) : FieldUpdates :=
  ⟨[.blockedReason (some reason)], by simp [rejectImmutableFields, TaskFieldUpdate.known,
    TaskFieldUpdate.key, immutableTaskFields]⟩

/-- `overrides={"assigned_to": agent_id}`. -/
def assignedOverrides (agentId : String) : FieldUpdates :=
  ⟨[.assignedTo (some agentId)], by simp [rejectImmutableFields, TaskFieldUpdate.known,
    TaskFieldUpdate.key, immutableTaskFields]⟩

def alreadyOwned : List TaskStatus := [.assigned, .inProgress]

def abandonableStatuses : List TaskStatus := [.created, .assigned]

-- ==== the parks

/-- `_park_row`, and `_park_on_dependency` with its reason: whether the park landed. -/
def parkRow (taskId : String) (blockedReason : BlockedReason) : Call Bool := do
  let result ← (submit taskId .blocked (blockedOverrides blockedReason)).attempt
  match result with
  | .error _ => pure false
  | .ok result => pure result.succeeded

def parkIfAwaitingDispatch (taskId : String) (blockedReason : BlockedReason) : Call Bool := do
  let live ← (getTask taskId).attempt
  match live with
  | .error _ => pure false
  | .ok none => pure false
  | .ok (some live) =>
    if live.status ∉ abandonableStatuses then pure false
    else parkRow taskId blockedReason

def parkAll (blockedReason : BlockedReason) : List String → Call Nat
  | [] => pure 0
  | taskId :: rest => do
      let parked ← parkIfAwaitingDispatch taskId blockedReason
      let others ← parkAll blockedReason rest
      pure (parked.toNat + others)

/-- The groups left of `abandon_remaining`. -/
def parkGroups (stoppedLevel : Int) : List ParallelExecutionGroup → Call Nat
  | [] => pure 0
  | group :: rest => do
      let parked ← parkAll
        (if stoppedLevel < group.dagLevel then .dependencyFailed else .runStopped) group.taskIds
      let others ← parkGroups stoppedLevel rest
      pure (parked + others)

def abandonRemaining (groups : List ParallelExecutionGroup) (stoppedAt : Nat) : Call Nat :=
  let stoppedLevel : Int :=
    match groups[stoppedAt]? with
    | some group => group.dagLevel
    | none => -1
  parkGroups stoppedLevel (groups.drop (stoppedAt + 1))

def abandonStranded (group : ParallelExecutionGroup) : Call Nat :=
  parkAll .runStopped group.taskIds

/-- Of the writer. -/
def abandonUnreachable (subtaskIds : List String) : Call Nat :=
  parkAll .dependencyFailed subtaskIds

-- ==== the gate

/-- `narrow_to_awaiting_dispatch`: the assignments that await dispatch, and how many are settled. -/
def narrowFrom : List AgentAssignment → Call (List AgentAssignment × Nat)
  | [] => pure ([], 0)
  | a :: rest => do
      let live ← getTask a.taskId
      let (awaiting, settled) ← narrowFrom rest
      if awaitsDispatch (live.map fun t => t.status) then pure (a :: awaiting, settled)
      else pure (awaiting, settled + 1)

def narrowToAwaitingDispatch (group : ParallelExecutionGroup) :
    Call (ParallelExecutionGroup × Nat) := do
  let (awaiting, settled) ← narrowFrom group.assignments
  pure ({ group with assignments := awaiting }, settled)

/-- One read per dependency for the whole wave. -/
abbrev Known := String → Option DependencyState

def readDependencies (known : Known) : List String → Call Known
  | [] => pure known
  | dependencyId :: rest =>
    if (known dependencyId).isSome then readDependencies known rest
    else do
      let live ← getTask dependencyId
      readDependencies
        (Function.update known dependencyId (some (DependencyState.of live))) rest

/-- `{dependency_id: known[dependency_id] for dependency_id in declared}`. -/
def statesOf (known : Known) (declared : List String) : DependencyStates :=
  declared.map fun dependencyId => (dependencyId, (known dependencyId).getD .absent)

/-- `gate_on_dependencies`: the assignments that stay, and how many are held back. -/
def gateFrom (waveIdx : Nat) (dependencies : DependencyMap) (known : Known) :
    List AgentAssignment → Call (List AgentAssignment × Nat)
  | [] => pure ([], 0)
  | a :: rest => do
      let declared := dependencies.get a.taskId
      let known ← readDependencies known declared
      let states := statesOf known declared
      if unmetDependencies states = [] then
        if awaitedDependencies states = [] then do
          judge ⟨waveIdx, a.taskId, states, .runnable⟩
          let (runnable, awaiting) ← gateFrom waveIdx dependencies known rest
          pure (a :: runnable, awaiting)
        else do
          judge ⟨waveIdx, a.taskId, states, .awaiting⟩
          let (runnable, awaiting) ← gateFrom waveIdx dependencies known rest
          pure (runnable, awaiting + 1)
      else do
        let parked ← parkRow a.taskId .dependencyFailed
        if parked then do
          judge ⟨waveIdx, a.taskId, states, .parked⟩
          gateFrom waveIdx dependencies known rest
        else do
          judge ⟨waveIdx, a.taskId, states, .kept⟩
          let (runnable, awaiting) ← gateFrom waveIdx dependencies known rest
          pure (a :: runnable, awaiting)

def gateOnDependencies (waveIdx : Nat) (group : ParallelExecutionGroup)
    (dependencies : DependencyMap) : Call (ParallelExecutionGroup × Nat) := do
  let (runnable, awaiting) ← gateFrom waveIdx dependencies (fun _ => none) group.assignments
  pure ({ group with assignments := runnable }, awaiting)

-- ==== the assignment

def persistOne (a : AgentAssignment) : Call (AgentAssignment × Bool) := do
  let live ← getTask a.taskId
  match live with
  | none => .raised .coordination
  | some live =>
    if live.status ∈ alreadyOwned ∧ live.assignedTo = some a.agentId then
      pure ({ a with task := live.toTaskFields }, false)
    else do
      let result ← submit a.taskId .assigned (assignedOverrides a.agentId)
      match result.outcome with
      | .success (some task) _ _ => pure ({ a with task := task.toTaskFields }, true)
      | _ => .raised .coordination

/-- What does not land is logged. -/
def release : List AgentAssignment → Call Unit
  | [] => pure ()
  | a :: rest => do
      let _ ← parkRow a.taskId .waveReleased
      release rest

def persistFrom (moved : List AgentAssignment) : List AgentAssignment → Call (List AgentAssignment)
  | [] => pure []
  | candidate :: rest => do
      let one ← (persistOne candidate).attempt
      match one with
      | .error e => do
          release moved
          .raised e
      | .ok (persisted, wasMoved) => do
          let others ← persistFrom (if wasMoved then moved ++ [persisted] else moved) rest
          pure (persisted :: others)

def persist (group : ParallelExecutionGroup) : Call ParallelExecutionGroup := do
  let assignments ← persistFrom [] group.assignments
  pure { group with assignments := assignments }

def prepare (waveIdx : Nat) (group : ParallelExecutionGroup) :
    Call (Option ParallelExecutionGroup) :=
  perform (Operation.prepare waveIdx group)

def executeGroup (waveIdx : Nat) (group : ParallelExecutionGroup) : Call ParallelExecutionResult :=
  perform (Operation.executeGroup waveIdx group)

def settle (waveIdx : Nat) (verdict : WaveVerdict) : Call Unit :=
  perform (Operation.settle waveIdx verdict)

def appendPhase (phase : CoordinationPhaseResult) : Call Unit :=
  perform (Operation.appendPhase phase)

/-- `waves.append(CoordinationWave(...))`. -/
def appendWave (waveIdx : Nat) (subtaskIds : List String)
    (executionResult : Option ParallelExecutionResult) : Call Unit :=
  if h : subtaskIds ≠ [] then
    perform (Operation.appendWave ⟨waveIdx, subtaskIds, executionResult, h⟩)
  else .raised .validation

-- ==== the parking

structure GatedWave where
  group : Option ParallelExecutionGroup
  settled : Nat
  delivered : Bool
  awaiting : Nat

def gateWave (waveIdx : Nat) (dependencies : DependencyMap) (group : ParallelExecutionGroup) :
    Call GatedWave := do
  let (unsettled, settled) ← narrowToAwaitingDispatch group
  let (gated, awaiting) ← gateOnDependencies waveIdx unsettled dependencies
  let delivered := unsettled.assignments.isEmpty
  if gated.assignments ≠ [] then pure ⟨some gated, settled, delivered, awaiting⟩
  else do
    let undeliverable := unsettled.assignments.length - awaiting
    appendPhase ⟨.executeWave waveIdx,
      if undeliverable = 0 then none else some (.emptyWave awaiting)⟩
    pure ⟨none, settled, delivered, awaiting⟩

def abandonAfter (groups : List ParallelExecutionGroup) (waveIdx : Nat) : Call Unit := do
  let _ ← abandonRemaining groups waveIdx
  pure ()

/-- `abandon_unreachable`: the subtasks no group carries. -/
def parkUnreachable (groups : List ParallelExecutionGroup) (subtaskIds : List String) :
    Call Unit := do
  let unreachable := subtaskIds.filter fun taskId =>
    taskId ∉ groups.flatMap ParallelExecutionGroup.taskIds
  let _ ← abandonUnreachable unreachable
  pure ()

-- ==== the outcome

def classifyWave (result : ParallelExecutionResult) : WaveVerdict where
  error :=
    if result.agentsFailed = 0 then none
    else some (.agentsFailed result.agentsFailed result.awaitingHuman.length)
  parkedTaskIds := result.awaitingHuman

-- ==== the loop

/-- Less what the world keeps. -/
structure WaveRun where
  failFast : Bool
  dependencies : DependencyMap
  /-- Whether the dispatcher readies each wave of its own. -/
  resources : Bool

def dispatchGatedWave (run : WaveRun) (waveIdx : Nat) (gated : ParallelExecutionGroup) :
    Call (Bool × WaveVerdict) := do
  let assigned ← persist gated
  let result ← executeGroup waveIdx assigned
  appendWave waveIdx gated.taskIds (some result)
  let verdict := classifyWave result
  appendPhase ⟨.executeWave waveIdx, verdict.error⟩
  if verdict.failed && run.failFast then pure (true, verdict)
  -- not subject to `fail_fast`: the waves after this one were scheduled on
  -- the promise that it had finished
  else if verdict.parkedTaskIds ≠ [] then pure (true, verdict)
  else pure (false, verdict)

def settleWave (waveIdx : Nat) (verdict : WaveVerdict) : Call Unit := do
  let settled ← (settle waveIdx verdict).attempt
  match settled with
  | .ok _ => pure ()
  | .error e => appendPhase ⟨.settleWave waveIdx, some (.raised e)⟩

/-- The `try` of `_run_one_wave`. -/
def prepareAndDispatch (run : WaveRun) (waveIdx : Nat) (gated : ParallelExecutionGroup) :
    Call (Bool × WaveVerdict) := do
  let prepared ← prepare waveIdx gated
  match prepared with
  | none => do
      let _ ← abandonStranded gated
      pure (run.failFast, ⟨some .didNotFinish, []⟩)
  | some prepared => dispatchGatedWave run waveIdx prepared

def runOneWave (run : WaveRun) (waveIdx : Nat) (group : ParallelExecutionGroup) : Call Bool := do
  let outcome ← gateWave waveIdx run.dependencies group
  match outcome.group with
  | none =>
    -- a wave all delivered, or waiting: the run walks on
    if outcome.delivered || outcome.awaiting ≠ 0 then pure false else pure run.failFast
  | some gated =>
    if !run.resources then do
      let (stop, _) ← dispatchGatedWave run waveIdx gated
      pure stop
    else do
      let dispatched ← (prepareAndDispatch run waveIdx gated).attempt
      -- the `finally`: whatever became of the wave, it is settled
      match dispatched with
      | .ok (stop, verdict) => do
          settleWave waveIdx verdict
          pure stop
      | .error e => do
          settleWave waveIdx ⟨some .didNotFinish, []⟩
          .raised e

def recordWaveError (waveIdx : Nat) (group : ParallelExecutionGroup) (e : Error) : Call Unit := do
  appendWave waveIdx group.taskIds none
  appendPhase ⟨.executeWave waveIdx, some (.raised e)⟩

/-- The loop of `execute_waves`, over the groups that are left. -/
def wavesFrom (run : WaveRun) (groups : List ParallelExecutionGroup) :
    Nat → List ParallelExecutionGroup → Call Unit
  | _, [] => pure ()
  | waveIdx, group :: rest => do
      let outcome ← (runOneWave run waveIdx group).attempt
      match outcome with
      | .error e => do
          recordWaveError waveIdx group e
          -- it raised, so it does not own its rows' outcome
          let _ ← abandonStranded group
          if run.failFast then abandonAfter groups waveIdx
          else wavesFrom run groups (waveIdx + 1) rest
      | .ok stop =>
        if stop then abandonAfter groups waveIdx
        else wavesFrom run groups (waveIdx + 1) rest

def executeWaves (run : WaveRun) (groups : List ParallelExecutionGroup) : Call Unit := do
  parkUnreachable groups run.dependencies.keys
  wavesFrom run groups 0 groups

end Synthorg.Coordination
