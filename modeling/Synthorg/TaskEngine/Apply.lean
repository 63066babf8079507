/-
Mutation application (engine/task_engine_apply.py) and the processing loop
around it (engine/task_engine_loops.py).

Each `apply*` takes the world's answers, the mutation and the state, and
returns the turn: an outcome, or nothing when an exception escaped, with
the state as it stood at that point. State a raise leaves behind stays
behind, exactly as it does in the source, where the tracker is a mutable
object and a save is a committed statement. `processOne` is the loop's
turn: it converts any raise into an `internal` failure.
-/
import Synthorg.Core.Task

namespace Synthorg.TaskEngine

section
open Function (update update_of_ne)

/-- `VersionTracker._versions`. -/
abbrev VersionTracker := String → Option Nat

/-- `TaskVersionConflictError`, with the numbers its message names. -/
structure VersionConflict where
  taskId : String
  expected : Nat
  current : Nat
  deriving DecidableEq

namespace VersionTracker

/-- The tracker `__init__` builds, and a restart leaves. -/
def empty : VersionTracker := fun _ => none

def seed (v : VersionTracker) (taskId : String) : VersionTracker :=
  match v taskId with
  | none => update v taskId (some 1)
  | some _ => v

/-- The engine only ever passes 1, so the `ValueError` for less has no caller. -/
def setInitial (v : VersionTracker) (taskId : String) (version : Nat) : VersionTracker :=
  update v taskId (some version)

def get (v : VersionTracker) (taskId : String) : Nat :=
  (v taskId).getD 0

def bump (v : VersionTracker) (taskId : String) : Nat × VersionTracker :=
  let v := v.seed taskId
  let version := v.get taskId + 1
  (version, update v taskId (some version))

def remove (v : VersionTracker) (taskId : String) : VersionTracker :=
  update v taskId none

/-- An untracked task is seeded BEFORE the comparison, so a conflict leaves the baseline too. -/
def check (v : VersionTracker) (taskId : String) (expectedVersion : Option Nat) :
    VersionTracker × Except VersionConflict Unit :=
  match expectedVersion with
  | none => (v, .ok ())
  | some expected =>
    let v := v.seed taskId
    let current := v.get taskId
    if current ≠ expected then
      (v, .error ⟨taskId, expected, current⟩)
    else
      (v, .ok ())

-- ==== what it holds

/-- The baseline stands in for a task nobody has tracked. -/
def current (v : VersionTracker) (taskId : String) : Nat :=
  (v taskId).getD 1

theorem get_seed (v : VersionTracker) (taskId : String) :
    (v.seed taskId).get taskId = v.current taskId := by
  unfold seed get current
  cases h : v taskId <;> simp [h]

theorem current_seed (v : VersionTracker) (taskId other : String) :
    (v.seed taskId).current other = v.current other := by
  unfold seed current
  cases h : v taskId with
  | none =>
    by_cases ho : other = taskId
    · rw [ho, h]
      simp
    · simp [update_of_ne ho]
  | some n => rfl

variable {v : VersionTracker} {taskId other : String}

theorem seed_of_tracked (h : v taskId ≠ none) : v.seed taskId = v := by
  unfold seed
  split
  next hnone => exact absurd hnone h
  next => rfl

theorem seed_of_ne (h : other ≠ taskId) : v.seed taskId other = v other := by
  cases ht : v taskId with
  | none =>
    unfold seed
    rw [ht]
    exact update_of_ne h _ _
  | some n => rw [seed_of_tracked (by rw [ht]; simp)]

theorem seed_apply (v : VersionTracker) (taskId other : String) : v.seed taskId other = v other ∨
      (other = taskId ∧ v other = none ∧ v.seed taskId other = some 1) := by
  by_cases ho : other = taskId
  · cases h : v taskId with
    | none =>
      refine .inr ⟨ho, by rw [ho, h], ?_⟩
      unfold seed
      rw [h, ho]
      simp
    | some n =>
      refine .inl ?_
      rw [seed_of_tracked (by rw [h]; simp)]
  · exact .inl (seed_of_ne ho)

theorem bump_fst (v : VersionTracker) (taskId : String) :
    (v.bump taskId).1 = v.current taskId + 1 := by
  simp only [bump, get_seed]

theorem bump_snd_self (v : VersionTracker) (taskId : String) :
    (v.bump taskId).2 taskId = some (v.current taskId + 1) := by
  simp only [bump, get_seed, Function.update_self]

theorem bump_snd_of_ne (v : VersionTracker) (h : other ≠ taskId) :
    (v.bump taskId).2 other = v other := by
  simp only [bump, update_of_ne h, seed_of_ne h]

theorem check_fst (v : VersionTracker) (taskId : String) (expectedVersion : Option Nat) :
    (v.check taskId expectedVersion).1 = v ∨
      (expectedVersion ≠ none ∧
        (v.check taskId expectedVersion).1 = v.seed taskId) := by
  unfold check
  cases expectedVersion with
  | none => exact .inl rfl
  | some expected =>
    refine .inr ⟨by simp, ?_⟩
    dsimp only
    split <;> rfl

theorem check_fst_of_some (v : VersionTracker) (taskId : String) (expected : Nat) :
    (v.check taskId (some expected)).1 = v.seed taskId := by
  unfold check
  dsimp only
  split <;> rfl

theorem check_snd_ok_iff (v : VersionTracker) (taskId : String) (expectedVersion : Option Nat) :
    (v.check taskId expectedVersion).2 = .ok () ↔
      ∀ expected, expectedVersion = some expected →
        v.current taskId = expected := by
  unfold check
  cases expectedVersion with
  | none => simp
  | some expected =>
    dsimp only
    rw [get_seed]
    split
    next h => simpa using h
    next h => simpa using h

end VersionTracker

end

open Synthorg.Core

-- ==== requests

structure CreateTaskData where
  title : String
  description : String
  type : TaskType
  priority : Priority := .medium
  project : String
  createdBy : String
  assignedTo : Option String := none
  dependencies : List String := []
  estimatedComplexity : Complexity := .medium
  acceptanceCriteria : List AcceptanceCriterion := []
  budgetLimit : Rat := 0

/-- `_IMMUTABLE_TASK_FIELDS`, and `_IMMUTABLE_OVERRIDE_FIELDS` with it. -/
def immutableTaskFields : List String := ["id", "created_by", "status"]

/-- / `_reject_immutable_overrides`. -/
def rejectImmutableFields (updates : List TaskFieldUpdate) : Bool :=
  updates.all fun u => u.known && u.key ∉ immutableTaskFields

/-- The fields a request may carry, with the validator's verdict. -/
structure FieldUpdates where
  entries : List TaskFieldUpdate
  admissible : rejectImmutableFields entries = true

/-- An `expected_version`, `ge=1` when it is given. -/
structure ExpectedVersion where
  value : Option Nat
  positive : ∀ v, value = some v → 1 ≤ v

theorem rejectImmutableFields_nil : rejectImmutableFields [] = true := rfl

theorem unversioned (v : Nat) : none = some v → 1 ≤ v := nofun

inductive TaskMutation
  | create (requestId : String) (taskData : CreateTaskData)
  | update (requestId taskId : String) (updates : FieldUpdates)
      (expectedVersion : ExpectedVersion)
  | transition (requestId taskId : String) (targetStatus : TaskStatus)
      (overrides : FieldUpdates) (expectedVersion : ExpectedVersion)
  | delete (requestId taskId : String)
  | cancel (requestId taskId : String)

def TaskMutation.requestId : TaskMutation → String
  | .create r _ => r
  | .update r _ _ _ => r
  | .transition r _ _ _ _ => r
  | .delete r _ => r
  | .cancel r _ => r

theorem FieldUpdates.key_not_immutable (updates : FieldUpdates) :
    ∀ u ∈ updates.entries, u.key ∉ ["id", "created_by", "status"] := by
  intro u hu
  have h := updates.admissible
  rw [rejectImmutableFields, List.all_eq_true] at h
  have := h u hu
  simp only [Bool.and_eq_true, decide_eq_true_eq] at this
  exact this.2

-- ==== results

structure BlockingPlan where
  id : Uuid
  status : PlanStatus

def deleteRefusalMessage (taskId : String) (plan : BlockingPlan) : String :=
  if plan.status.deletable then
    "task " ++ taskId ++ " is the objective of plan " ++ plan.id.text ++
      "; delete that plan first (DELETE /plans/" ++ plan.id.text ++ ")"
  else
    "task " ++ taskId ++ " is the objective of plan " ++ plan.id.text ++
      ", which is " ++ plan.status.value ++
      " and is retained with its delivery verdicts. " ++
      "A referenced task is not deletable while its plan is kept, and a " ++
      "decided plan is kept permanently."

/-- Each constructor is one `error_code`, with what its message names. -/
inductive MutationError
  | notFound (taskId : String)
  | versionConflict (conflict : VersionConflict)
  | validation (e : TransitionError)
  | parentOfPlan (message : String)
  | internal
  deriving DecidableEq

inductive TaskErrorCode
  | notFound
  | versionConflict
  | validation
  | internal
  | parentOfPlan
  deriving DecidableEq

def MutationError.code : MutationError → TaskErrorCode
  | .notFound _ => .notFound
  | .versionConflict _ => .versionConflict
  | .validation _ => .validation
  | .parentOfPlan _ => .parentOfPlan
  | .internal => .internal

inductive MutationOutcome
  | success (task : Option Task) (version : Nat)
      (previousStatus : Option TaskStatus)
  | failure (error : MutationError)
  deriving DecidableEq

structure TaskMutationResult where
  requestId : String
  outcome : MutationOutcome

/-- `success`. -/
def TaskMutationResult.succeeded (r : TaskMutationResult) : Bool :=
  match r.outcome with
  | .success _ _ _ => true
  | .failure _ => false

def TaskMutationResult.errorCode (r : TaskMutationResult) : Option TaskErrorCode :=
  match r.outcome with
  | .success _ _ _ => none
  | .failure e => some e.code

-- ==== state

abbrev TaskTable := String → Option TaskFields

structure EngineState where
  tasks : TaskTable
  versions : VersionTracker

inductive DeleteFault
  | constraintViolation
  | other

structure TurnEnv where
  /-- the `uuid4` a creation draws -/
  newId : Uuid
  /-- the injected clock -/
  now : Int
  readRaises : Bool := false
  saveRaises : Bool := false
  /-- the preflight plan query; `none` is a raise -/
  blockingPlan : Option (Option BlockingPlan) := some none
  deleteFault : Option DeleteFault := none
  /-- the plan query re-read after a constraint violation -/
  racedPlan : Option (Option BlockingPlan) := some none

structure Turn where
  outcome : Option MutationOutcome
  state : EngineState

namespace EngineState

/-- A row that no longer validates raises; the outer `none` is a raise. -/
def get (s : EngineState) (env : TurnEnv) (taskId : String) : Option (Option Task) :=
  if env.readRaises then none
  else
    match s.tasks taskId with
    | none => some none
    | some row =>
      match Task.modelValidate row [] with
      | .ok task => some (some task)
      | .error _ => none

/-- `created_at` is absent from the update list, so a row that is there keeps its own.
`stakes` is in neither repository's columns: a stored row reads as `normal`, where the model
keeps what was saved; no lifecycle rule reads it. -/
def upsertRow (existing : Option TaskFields) (task : Task) : TaskFields :=
  match existing with
  | none => task.toTaskFields
  | some row => { task.toTaskFields with createdAt := row.createdAt }

def save (s : EngineState) (task : Task) : EngineState :=
  { s with
    tasks := Function.update s.tasks task.id.text
      (some (upsertRow (s.tasks task.id.text) task)) }

/-- Where it does not raise. -/
def delete (s : EngineState) (taskId : String) : EngineState :=
  { s with tasks := Function.update s.tasks taskId none }

def withVersions (s : EngineState) (versions : VersionTracker) : EngineState :=
  { s with versions := versions }

@[simp]
theorem withVersions_tasks (s : EngineState) (v : VersionTracker) :
    (s.withVersions v).tasks = s.tasks := rfl

@[simp]
theorem withVersions_versions (s : EngineState) (v : VersionTracker) :
    (s.withVersions v).versions = v := rfl

theorem save_tasks_self (s : EngineState) (task : Task) : (s.save task).tasks task.id.text =
      some (upsertRow (s.tasks task.id.text) task) := by
  simp [save]

variable {other taskId : String} {s : EngineState} {env : TurnEnv}

theorem save_tasks_of_ne (s : EngineState) (task : Task) (h : other ≠ task.id.text) :
    (s.save task).tasks other = s.tasks other := by
  simp [save, Function.update_of_ne h]

theorem delete_tasks_self (s : EngineState) (taskId : String) :
    (s.delete taskId).tasks taskId = none := by
  simp [delete]

theorem delete_tasks_of_ne (s : EngineState) (h : other ≠ taskId) :
    (s.delete taskId).tasks other = s.tasks other := by
  simp [delete, Function.update_of_ne h]

/-- An upsert changes no field of the row it writes but `created_at`. -/
theorem upsertRow_fields (existing : Option TaskFields) (task : Task) :
    ∃ at_, upsertRow existing task = { task.toTaskFields with createdAt := at_ } := by
  cases existing with
  | none => exact ⟨task.createdAt, rfl⟩
  | some row => exact ⟨row.createdAt, rfl⟩

theorem get_eq_task {task : Task} (h : s.get env taskId = some (some task)) :
    env.readRaises = false ∧ s.tasks taskId = some task.toTaskFields := by
  unfold get at h
  split at h
  next => cases h
  next hread =>
    refine ⟨by simpa using hread, ?_⟩
    split at h
    next => cases h
    next row hrow =>
      split at h
      next t ht =>
        cases h
        rw [hrow, ((Task.modelValidate_ok_iff row [] _).1 ht).2]
      next => cases h

theorem get_eq_absent (h : s.get env taskId = some none) : s.tasks taskId = none := by
  unfold get at h
  split at h
  next => cases h
  next =>
    split at h
    next hrow => exact hrow
    next row hrow =>
      split at h <;> cases h

end EngineState

open Synthorg.Core

namespace Turn

def raised (s : EngineState) : Turn := ⟨none, s⟩

def failed (e : MutationError) (s : EngineState) : Turn := ⟨some (.failure e), s⟩

def succeeded (task : Option Task) (version : Nat)
    (previousStatus : Option TaskStatus) (s : EngineState) : Turn :=
  ⟨some (.success task version previousStatus), s⟩

end Turn

-- ==== apply methods

/-- The payload `apply_create` builds the task from. -/
def createPayload (env : TurnEnv) (data : CreateTaskData) : TaskFields where
  id := env.newId
  title := data.title
  description := data.description
  type := data.type
  priority := data.priority
  project := data.project
  createdBy := data.createdBy
  assignedTo := data.assignedTo
  dependencies := data.dependencies
  estimatedComplexity := data.estimatedComplexity
  acceptanceCriteria := data.acceptanceCriteria
  budgetLimit := data.budgetLimit
  createdAt := env.now

def applyCreate (env : TurnEnv) (data : CreateTaskData) (s : EngineState) : Turn :=
  match Task.modelValidate (createPayload env data) [] with
  | .error e => .failed (.validation (.validation e)) s
  | .ok task =>
    if env.saveRaises then .raised s
    else
      let s := s.save task
      .succeeded (some task) 1 none
        (s.withVersions (s.versions.setInitial task.id.text 1))

/-- The tail of `apply_update`, `apply_transition` and `apply_cancel`. -/
def saveAndBump (env : TurnEnv) (taskId : String) (updated : Task)
    (previousStatus : TaskStatus) (s : EngineState) : Turn :=
  if env.saveRaises then .raised s
  else
    let s := s.save updated
    let bumped := s.versions.bump taskId
    .succeeded (some updated) bumped.1 (some previousStatus)
      (s.withVersions bumped.2)

/-- The head of `apply_update` and `apply_transition`; both refusals leave what the check seeded. -/
def readAndCheck (env : TurnEnv) (taskId : String)
    (expectedVersion : ExpectedVersion) (s : EngineState)
    (proceed : Task → EngineState → Turn) : Turn :=
  match s.get env taskId with
  | none => .raised s
  | some none => .failed (.notFound taskId) s
  | some (some task) =>
    match s.versions.check taskId expectedVersion.value with
    | (versions, .error conflict) =>
      .failed (.versionConflict conflict) (s.withVersions versions)
    | (versions, .ok ()) => proceed task (s.withVersions versions)

/-- `apply_update` on the task it read, past the version check. -/
def updateRead (env : TurnEnv) (taskId : String) (updates : FieldUpdates)
    (task : Task) (s : EngineState) : Turn :=
  if updates.entries = [] then
    .succeeded (some task) (s.versions.get taskId) (some task.status) s
  else
    match Task.modelValidate (task.toTaskFields.merge updates.entries)
        (malformedLocs updates.entries) with
    | .error e => .failed (.validation (.validation e)) s
    | .ok updated => saveAndBump env taskId updated task.status s

def applyUpdate (env : TurnEnv) (taskId : String) (updates : FieldUpdates)
    (expectedVersion : ExpectedVersion) (s : EngineState) : Turn :=
  readAndCheck env taskId expectedVersion s (updateRead env taskId updates)

/-- `with_transition` on the task that was read, saved when it validates. -/
def transitionRead (env : TurnEnv) (taskId : String) (targetStatus : TaskStatus)
    (overrides : List TaskFieldUpdate) (task : Task) (s : EngineState) : Turn :=
  match task.withTransition targetStatus overrides with
  | .error e => .failed (.validation e) s
  | .ok updated => saveAndBump env taskId updated task.status s

def applyTransition (env : TurnEnv) (taskId : String) (targetStatus : TaskStatus)
    (overrides : FieldUpdates) (expectedVersion : ExpectedVersion)
    (s : EngineState) : Turn :=
  readAndCheck env taskId expectedVersion s
    (transitionRead env taskId targetStatus overrides.entries)

/-- No version check, by design. -/
def applyCancel (env : TurnEnv) (taskId : String) (s : EngineState) : Turn :=
  match s.get env taskId with
  | none => .raised s
  | some none => .failed (.notFound taskId) s
  | some (some task) => transitionRead env taskId .cancelled [] task s

def applyDelete (env : TurnEnv) (taskId : String) (s : EngineState) : Turn :=
  match env.blockingPlan with
  | none => .raised s
  | some (some plan) => .failed (.parentOfPlan (deleteRefusalMessage taskId plan)) s
  | some none =>
    match env.deleteFault with
    | some .other => .raised s
    | some .constraintViolation =>
      -- a plan written between the two statements: the re-read names it
      match env.racedPlan with
      | some (some plan) =>
        .failed (.parentOfPlan (deleteRefusalMessage taskId plan)) s
      | _ => .raised s
    | none =>
      match s.tasks taskId with
      | none => .failed (.notFound taskId) s
      | some _ =>
        let s := s.delete taskId
        .succeeded none 0 none (s.withVersions (s.versions.remove taskId))

-- ==== dispatch

def dispatch (env : TurnEnv) (mutation : TaskMutation) (s : EngineState) : Turn :=
  match mutation with
  | .create _ data => applyCreate env data s
  | .update _ taskId updates expectedVersion =>
    applyUpdate env taskId updates expectedVersion s
  | .transition _ taskId target overrides expectedVersion =>
    applyTransition env taskId target overrides expectedVersion s
  | .delete _ taskId => applyDelete env taskId s
  | .cancel _ taskId => applyCancel env taskId s

/-- Any raise is answered as an `internal` failure. -/
def processOne (env : TurnEnv) (mutation : TaskMutation) (s : EngineState) :
    TaskMutationResult × EngineState :=
  let turn := dispatch env mutation s
  (⟨mutation.requestId, turn.outcome.getD (.failure .internal)⟩, turn.state)

/-- A mutation in the queue, with what the world will answer it. -/
structure Request where
  env : TurnEnv
  mutation : TaskMutation

def result (s : EngineState) (r : Request) : TaskMutationResult :=
  (processOne r.env r.mutation s).1

def step (s : EngineState) (r : Request) : EngineState :=
  (processOne r.env r.mutation s).2

end Synthorg.TaskEngine
