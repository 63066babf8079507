/-
The calls on sprints, statement by statement: the service
(engine/workflow/sprint_service.py, sprint_scope.py, sprint_writes.py), the
tail of the lifecycle (sprint_tail.py) and the recovery sweep
(sprint_recovery.py).

Each is a program over the statements of the table, so calls of any number of processes interleave
statement by statement. The service's lock, which holds calls of one process apart, is left out:
there are more runs without it.

What the schema asks of the table (sqlite/sprint_repo.py) is a field of it: a write that would
break a CHECK or an index raises. A sprint is any value of its fields; `accepted` is what the
validators admit.
-/
import Mathlib.Data.Prod.Lex
import Mathlib.Data.String.Basic
import Synthorg.Lib.Program
import Synthorg.Core.Task

namespace Synthorg.Sprints

section
open Synthorg.Core

-- ==== the lifecycle

inductive SprintStatus where
  | planning
  | active
  | inReview
  | retrospective
  | completed
  deriving DecidableEq

def validSprintTransitions : SprintStatus → List SprintStatus
  | .planning => [.active]
  | .active => [.inReview]
  | .inReview => [.retrospective]
  | .retrospective => [.completed]
  | .completed => []

/-- In the order of `OPEN_SPRINT_STATUS_VALUES`. -/
def openSprintStatuses : List SprintStatus := [.active, .inReview]

def validateSprintTransition (current target : SprintStatus) : Bool :=
  target ∈ validSprintTransitions current

/-- What a call may raise. -/
inductive Error where
  | constraintViolation
  | queryError
  | malformedRow
  | valueError
  | sprintNotFound
  | sprintTransitionConflict
  | sprintBacklogInvalid
  | sprintBacklogFull
  | sprintAlreadyOpen
  /-- Of the model: the paging loop has been given no more rounds. -/
  | stillPaging
  deriving DecidableEq

-- ==== the model

def storyPointsCeiling : ℚ := 100000

abbrev Points := List (String × ℚ)

structure Sprint where
  id : String
  project : Option String
  name : String
  goal : String
  status : SprintStatus
  sprintNumber : Nat
  durationDays : Nat
  startDate : Option Int
  endDate : Option Int
  taskIds : List String
  completedTaskIds : List String
  taskPoints : Points
  storyPointsCommitted : ℚ
  storyPointsCompleted : ℚ

namespace Sprint

variable (s : Sprint)

def fieldsValid : Bool :=
  notBlank s.id && s.project.all notBlank && notBlank s.name &&
    (1 ≤ s.sprintNumber && s.sprintNumber ≤ 100000) &&
    (1 ≤ s.durationDays && s.durationDays ≤ 90) &&
    s.taskIds.all notBlank && s.completedTaskIds.all notBlank &&
    (0 ≤ s.storyPointsCommitted && s.storyPointsCommitted ≤ storyPointsCeiling) &&
    (0 ≤ s.storyPointsCompleted && s.storyPointsCompleted ≤ storyPointsCeiling)

def validateDateOrdering : Bool :=
  s.startDate.all fun start => s.endDate.all fun finish => start ≤ finish

def validateTaskCollections : Bool :=
  s.taskIds.Nodup && s.completedTaskIds.Nodup &&
    s.completedTaskIds.all (· ∈ s.taskIds)

/-- `sum(self.task_points.values())`. -/
def pointsTotal (points : Points) : ℚ := (points.map Prod.snd).sum

def validateTaskPoints : Bool :=
  (s.taskPoints.map Prod.fst).Nodup &&
    s.taskPoints.all (fun p => p.1 ∈ s.taskIds) && s.taskPoints.all (fun p => 0 ≤ p.2) &&
    pointsTotal s.taskPoints ≤ s.storyPointsCommitted + 1 / 1000000000

def validateStoryPoints : Bool := s.storyPointsCompleted ≤ s.storyPointsCommitted

def validateStatusDateRequirements : Bool :=
  (s.status ∉ [.active, .inReview, .retrospective, .completed] || s.startDate.isSome) &&
    (s.status ≠ .completed || s.endDate.isSome)

/-- The validators of `Sprint`, in their order. -/
def accepted : Bool :=
  s.fieldsValid && s.validateDateOrdering && s.validateTaskCollections &&
    s.validateTaskPoints && s.validateStoryPoints && s.validateStatusDateRequirements

/-- What the validators admit, by field. -/
structure Accepted : Prop where
  id : notBlank s.id = true
  project : s.project.all notBlank = true
  name : notBlank s.name = true
  number : 1 ≤ s.sprintNumber ∧ s.sprintNumber ≤ 100000
  duration : 1 ≤ s.durationDays ∧ s.durationDays ≤ 90
  tasksNotBlank : ∀ t ∈ s.taskIds, notBlank t = true
  completedNotBlank : ∀ t ∈ s.completedTaskIds, notBlank t = true
  committed : 0 ≤ s.storyPointsCommitted ∧ s.storyPointsCommitted ≤ storyPointsCeiling
  completed : 0 ≤ s.storyPointsCompleted ∧ s.storyPointsCompleted ≤ storyPointsCeiling
  dates : s.validateDateOrdering = true
  tasksNodup : s.taskIds.Nodup
  completedNodup : s.completedTaskIds.Nodup
  completedSubset : ∀ t ∈ s.completedTaskIds, t ∈ s.taskIds
  keysNodup : (s.taskPoints.map Prod.fst).Nodup
  keys : ∀ p ∈ s.taskPoints, p.1 ∈ s.taskIds
  signs : ∀ p ∈ s.taskPoints, 0 ≤ p.2
  total : pointsTotal s.taskPoints ≤ s.storyPointsCommitted + 1 / 1000000000
  story : s.storyPointsCompleted ≤ s.storyPointsCommitted
  statusDates : s.validateStatusDateRequirements = true

theorem accepted_iff : s.accepted = true ↔ s.Accepted := by
  simp only [accepted, fieldsValid, validateTaskCollections, validateTaskPoints,
    validateStoryPoints, Bool.and_eq_true, List.all_eq_true, decide_eq_true_eq]
  constructor
  · intro h
    obtain ⟨⟨⟨⟨⟨hf, hd⟩, ⟨hn, hdone⟩, hs⟩, ⟨⟨hkeys, hmem⟩, hsigns⟩, httl⟩,
      hstory⟩, hstatus⟩ := h
    obtain ⟨⟨⟨⟨⟨⟨⟨⟨hid, hproj⟩, hname⟩, hnum⟩, hduration⟩, ht⟩, hc⟩, hcommitted⟩, hp⟩ := hf
    exact ⟨hid, hproj, hname, hnum, hduration, ht, hc, hcommitted, hp,
      hd, hn, hdone, hs, hkeys, hmem, hsigns, httl, hstory, hstatus⟩
  · intro h
    exact ⟨⟨⟨⟨⟨⟨⟨⟨⟨⟨⟨⟨⟨h.id, h.project⟩, h.name⟩, h.number⟩, h.duration⟩, h.tasksNotBlank⟩,
      h.completedNotBlank⟩, h.committed⟩, h.completed⟩, h.dates⟩,
      ⟨h.tasksNodup, h.completedNodup⟩, h.completedSubset⟩,
      ⟨⟨h.keysNodup, h.keys⟩, h.signs⟩, h.total⟩, h.story⟩, h.statusDates⟩

/-- An override not given leaves the date. -/
def withTransition (target : SprintStatus) (startDate endDate : Option Int) : Except Error Sprint :=
  if validateSprintTransition s.status target then
    .ok { s with
      status := target
      startDate := startDate <|> s.startDate
      endDate := endDate <|> s.endDate }
  else .error .valueError

end Sprint

-- ==== the backlog

/-- `{**points, task_id: value}`, and `JSON_PATCH` with one member. -/
def setPoint (points : Points) (taskId : String) (value : ℚ) : Points :=
  if taskId ∈ points.map Prod.fst then
    points.map fun p => if p.1 = taskId then (taskId, value) else p
  else points ++ [(taskId, value)]

def addTaskToSprint (sprint : Sprint) (taskId : String) (storyPoints : ℚ) : Except Error Sprint :=
  if sprint.status ≠ .planning then .error .valueError
  else if taskId ∈ sprint.taskIds then .error .valueError
  else if storyPoints < 0 then .error .valueError
  else .ok { sprint with
    taskIds := sprint.taskIds ++ [taskId]
    taskPoints := setPoint sprint.taskPoints taskId storyPoints
    storyPointsCommitted := sprint.storyPointsCommitted + storyPoints }

def complexityPoints : Complexity → ℚ
  | .simple => 1
  | .medium => 3
  | .complex => 5
  | .epic => 8

def terminalTaskStatuses : List TaskStatus := [.completed, .cancelled, .rejected, .failed]

def nonTerminalTaskStatuses : List TaskStatus :=
  [.created, .assigned, .inProgress, .inReview, .completed, .blocked, .failed, .interrupted,
    .suspended, .cancelled, .rejected, .authRequired, .awaitingInput].filter
      (· ∉ terminalTaskStatuses)

structure BacklogTask where
  id : String
  status : TaskStatus
  estimatedComplexity : Complexity
  idNotBlank : notBlank id

def storyPointsFor (task : BacklogTask) : ℚ := complexityPoints task.estimatedComplexity

def openBacklogTasks (candidates : List BacklogTask) (cap : Nat) : List BacklogTask :=
  (candidates.filter fun t => t.status ∉ terminalTaskStatuses).take cap

def nextStatus (sprint : Sprint) : Except Error SprintStatus :=
  match validSprintTransitions sprint.status with
  | target :: _ => .ok target
  | [] => .error .sprintTransitionConflict

def transitionOverrides (sprint : Sprint) (target : SprintStatus) (now : Int) :
    Option Int × Option Int :=
  (if target = .active ∧ sprint.startDate = none then some now else none,
    if target = .completed ∧ sprint.endDate = none then some now else none)

def backlogFullyDelivered (sprint : Sprint) : Bool :=
  if sprint.taskIds.isEmpty then false
  else sprint.taskIds.length ≤ sprint.completedTaskIds.length

end

open Synthorg.Core Lib

-- ==== the schema

/-- `LENGTH(TRIM(text)) > 0`: TRIM takes off spaces alone. -/
def trimmed (text : String) : Bool := text.toList.any (· ≠ ' ')

def Checked (r : Sprint) : Prop :=
  (trimmed r.id ∧ r.project.all trimmed ∧ trimmed r.name) ∧
    (1 ≤ r.sprintNumber ∧ 1 ≤ r.durationDays) ∧
    (0 ≤ r.storyPointsCommitted ∧ 0 ≤ r.storyPointsCompleted) ∧
    (r.endDate.all fun finish => r.startDate.all fun start => start ≤ finish) ∧
    r.storyPointsCompleted ≤ r.storyPointsCommitted

instance (r : Sprint) : Decidable (Checked r) :=
  inferInstanceAs (Decidable (_ ∧ _ ∧ _ ∧ _ ∧ _))

def openScopes (rows : List Sprint) : List String :=
  (rows.filter fun r => r.status ≠ .completed).map fun r => r.project.getD ""

def Constraints (rows : List Sprint) : Prop :=
  (∀ r ∈ rows, Checked r) ∧ (rows.map Sprint.id).Nodup ∧
    (rows.map fun r => (r.project, r.sprintNumber)).Nodup ∧ (openScopes rows).Nodup

instance (rows : List Sprint) : Decidable (Constraints rows) :=
  inferInstanceAs (Decidable (_ ∧ _ ∧ _ ∧ _))

structure Table where
  rows : List Sprint
  constraints : Constraints rows

namespace Table

def empty : Table := ⟨[], by decide⟩

def write (rows : List Sprint) : Except Error Table :=
  if h : Constraints rows then .ok ⟨rows, h⟩ else .error .constraintViolation

/-- The rows after an UPDATE of one. -/
def updated (rows : List Sprint) (id : String) (f : Sprint → Sprint) : List Sprint :=
  rows.map fun r => if r.id = id then f r else r

def find (t : Table) (id : String) : Option Sprint := t.rows.find? fun r => r.id = id

end Table

-- ==== the statements

def rowToSprint (row : Sprint) : Except Error Sprint :=
  if row.accepted then .ok row else .error .malformedRow

/-- `SprintPageCursor`, and the sort key of a row. -/
abbrev Key := Nat ×ₗ String

def key (r : Sprint) : Key := toLex (r.sprintNumber, r.id)

structure SprintFilterSpec where
  project : Option String
  status : Option SprintStatus
  orgWideOnly : Bool
  after : Option Key

/-- `build_sprint_where`. -/
def SprintFilterSpec.admits (spec : SprintFilterSpec) (r : Sprint) : Bool :=
  spec.project.all (fun p => r.project = some p) && (!spec.orgWideOnly || r.project.isNone) &&
    spec.status.all (· = r.status) && spec.after.all (fun after => key r < after)

/-- `ORDER BY sprint_number DESC, id DESC`. -/
def ordered (rows : List Sprint) : List Sprint :=
  rows.insertionSort fun a b => key b ≤ key a

def maxPageLimit : Nat := 1000

def query (t : Table) (spec : SprintFilterSpec) (limit : Nat) : Except Error (List Sprint) :=
  ((ordered (t.rows.filter spec.admits)).take (min limit maxPageLimit)).mapM rowToSprint

/-- `INSERT_SQL`, with the refusal of an id that is there. -/
def save (t : Table) (entity : Sprint) : Except Error Table :=
  if t.rows.any (·.id = entity.id) then .error .constraintViolation
  else Table.write (t.rows ++ [entity])

def transition (toState : SprintStatus) (startDate endDate : Option Int) (r : Sprint) : Sprint :=
  { r with
    status := toState
    startDate := startDate <|> r.startDate
    endDate := endDate <|> r.endDate }

def transitionIf (t : Table) (id : String) (fromState toState : SprintStatus)
    (startDate endDate : Option Int) : Except Error (Table × Bool) :=
  match t.find id with
  | some r =>
    if r.status = fromState then
      (Table.write (Table.updated t.rows id (transition toState startDate endDate))).map
        fun written => (written, true)
    else .ok (t, false)
  | none => .ok (t, false)

/-- `ADD_TASK_SQL` on the row. -/
def appendTask (taskId : String) (storyPoints : ℚ) (r : Sprint) : Sprint :=
  { r with
    taskIds := r.taskIds ++ [taskId]
    taskPoints := setPoint r.taskPoints taskId storyPoints
    storyPointsCommitted := Sprint.pointsTotal (setPoint r.taskPoints taskId storyPoints) }

/-- The WHERE of `ADD_TASK_SQL`. -/
def mayAppendTask (taskId : String) (maxTasks : Nat) (r : Sprint) : Bool :=
  r.status = .planning && taskId ∉ r.taskIds && r.taskIds.length < maxTasks

/-- `COMPLETE_TASK_SQL` on the row. -/
def appendCompletion (taskId : String) (r : Sprint) : Sprint :=
  { r with
    completedTaskIds := r.completedTaskIds ++ [taskId]
    storyPointsCompleted := min r.storyPointsCommitted
      (Sprint.pointsTotal (r.taskPoints.filter fun p =>
        p.1 = taskId || p.1 ∈ r.completedTaskIds)) }

/-- The WHERE of `COMPLETE_TASK_SQL`. -/
def mayAppendCompletion (taskId : String) (r : Sprint) : Bool :=
  r.status ∈ openSprintStatuses && taskId ∈ r.taskIds && taskId ∉ r.completedTaskIds

def guardedBacklogWrite (t : Table) (id : String) (guard : Sprint → Bool)
    (update : Sprint → Sprint) : Except Error (Table × Option Sprint) :=
  match t.find id with
  | some r =>
    if guard r then do
      let written ← Table.write (Table.updated t.rows id update)
      let sprint ← rowToSprint (update r)
      .ok (written, some sprint)
    else .ok (t, none)
  | none => .ok (t, none)

def addTaskIfPlanning (t : Table) (id taskId : String) (storyPoints : ℚ) (maxTasks : Nat) :
    Except Error (Table × Option Sprint) :=
  guardedBacklogWrite t id (mayAppendTask taskId maxTasks) (appendTask taskId storyPoints)

def completeTaskIf (t : Table) (id taskId : String) : Except Error (Table × Option Sprint) :=
  guardedBacklogWrite t id (mayAppendCompletion taskId) (appendCompletion taskId)

-- ==== the calls

/-- What a call awaits. -/
inductive Statement where
  | now
  | uuid4
  | sprintsActive
  | tasks (status : TaskStatus) (limit : Nat)
  | get (id : String)
  | query (spec : SprintFilterSpec) (limit : Nat)
  | save (entity : Sprint)
  | transitionIf (id : String) (fromState toState : SprintStatus)
      (startDate endDate : Option Int)
  | addTaskIfPlanning (id taskId : String) (storyPoints : ℚ) (maxTasks : Nat)
  | completeTaskIf (id taskId : String)

@[reducible]
def Reply : Statement → Type
  | .now => Int
  | .uuid4 => String
  | .sprintsActive => Bool
  | .tasks _ _ => List BacklogTask
  | .get _ => Option Sprint
  | .query _ _ => List Sprint
  | .save _ => Unit
  | .transitionIf .. => Bool
  | .addTaskIfPlanning .. => Option Sprint
  | .completeTaskIf .. => Option Sprint

structure Environment where
  clock : Int
  uuid : String
  active : Bool
  tasks : List BacklogTask
  fails : Bool

structure Store where
  table : Table
  added : List (String × String)
  /-- Sprint and task of each completion answered with a sprint. -/
  delivered : List (String × String)

def Store.empty : Store := ⟨Table.empty, [], []⟩

def reading {α : Type} (env : Environment) (s : Store) (out : Except Error α) :
    Store × Except Error α :=
  if env.fails then (s, .error .queryError) else (s, out)

def writing {α : Type} (env : Environment) (s : Store) (out : Except Error (Table × α))
    (ghosts : α → Store → Store) : Store × Except Error α :=
  if env.fails then (s, .error .queryError)
  else
    match out with
    | .ok (t, a) => (ghosts a { s with table := t }, .ok a)
    | .error e => (s, .error e)

/-- One statement; the clock and `uuid4` do not fail. -/
def exec (s : Store) (op : Statement) (env : Environment) : Store × Except Error (Reply op) :=
  match op with
  | .now => (s, .ok env.clock)
  | .uuid4 => (s, .ok env.uuid)
  | .sprintsActive => reading env s (.ok env.active)
  | .tasks status limit =>
    reading env s (.ok ((env.tasks.filter fun t => t.status = status).take limit))
  | .get id => reading env s ((s.table.find id).mapM rowToSprint)
  | .query spec limit => reading env s (query s.table spec limit)
  | .save entity => writing env s ((save s.table entity).map fun t => (t, ())) fun _ s => s
  | .transitionIf id fromState toState startDate endDate =>
    writing env s (transitionIf s.table id fromState toState startDate endDate) fun _ s => s
  | .addTaskIfPlanning id taskId storyPoints maxTasks =>
    writing env s (addTaskIfPlanning s.table id taskId storyPoints maxTasks) fun answer s =>
      if answer.isSome then { s with added := (id, taskId) :: s.added } else s
  | .completeTaskIf id taskId =>
    writing env s (completeTaskIf s.table id taskId) fun answer s =>
      if answer.isSome then { s with delivered := (id, taskId) :: s.delivered } else s

open Synthorg.Core Lib Lib.Program

/-- With its bounds. -/
structure SprintConfig where
  durationDays : Nat
  maxTasksPerSprint : Nat
  duration : 1 ≤ durationDays ∧ durationDays ≤ 90
  maxTasks : 1 ≤ maxTasksPerSprint ∧ maxTasksPerSprint ≤ 500

abbrev Call (α : Type) := Program Reply Error α

-- ==== the statements

def now : Call Int := perform Statement.now

def uuid4 : Call String := perform Statement.uuid4

def sprintsActive : Call Bool := perform Statement.sprintsActive

def tasks (status : TaskStatus) (limit : Nat) : Call (List BacklogTask) :=
  perform (Statement.tasks status limit)

def get (id : String) : Call (Option Sprint) := perform (Statement.get id)

def defaultPageSize : Nat := 100

def maxPageSize : Nat := 1000

def sprintsOf (spec : SprintFilterSpec) (limit : Nat) : Call (List Sprint) :=
  perform (Statement.query spec limit)

def saveSprint (entity : Sprint) : Call Unit := perform (Statement.save entity)

def tryTransition (id : String) (fromState toState : SprintStatus)
    (startDate endDate : Option Int) : Call Bool :=
  perform (Statement.transitionIf id fromState toState startDate endDate)

def tryAddTask (id taskId : String) (storyPoints : ℚ) (maxTasks : Nat) : Call (Option Sprint) :=
  perform (Statement.addTaskIfPlanning id taskId storyPoints maxTasks)

def tryComplete (id taskId : String) : Call (Option Sprint) :=
  perform (Statement.completeTaskIf id taskId)

def ofExcept {α : Type} : Except Error α → Call α
  | .ok a => .done a
  | .error e => .raised e

-- ==== the scope

def scopeSpec (project : Option String) : SprintFilterSpec :=
  ⟨project, none, project.isNone, none⟩

def scopeOccupant (project : Option String) : Call (Option Sprint) := do
  let existing ← sprintsOf (scopeSpec project) defaultPageSize
  pure (existing.find? fun s => s.status ≠ .completed)

def requireScopeFree (project : Option String) : Call Unit := do
  let existing ← scopeOccupant project
  if existing.isSome then .raised .sprintAlreadyOpen else pure ()

/-- `Sprint(...)`, as `build_planning_sprint` calls it. -/
def planningSprint (config : SprintConfig) (project : Option String) (id : String)
    (number : Nat) : Except Error Sprint :=
  let built : Sprint := {
    id := id
    project := project
    name := "Sprint " ++ toString number
    goal := ""
    status := .planning
    sprintNumber := number
    durationDays := config.durationDays
    startDate := none
    endDate := none
    taskIds := []
    completedTaskIds := []
    taskPoints := []
    storyPointsCommitted := 0
    storyPointsCompleted := 0 }
  if built.accepted then .ok built else .error .valueError

def buildPlanningSprint (config : SprintConfig) (project : Option String) : Call Sprint := do
  let existing ← sprintsOf (scopeSpec project) defaultPageSize
  let id ← uuid4
  ofExcept (planningSprint config project id
    (1 + (existing.map Sprint.sprintNumber).foldl max 0))

def numberCollisionAttempts : Nat := 3

def trySave (entity : Sprint) : Call Bool :=
  (do saveSprint entity; pure true : Call Bool).handle fun e =>
    if e = .constraintViolation then pure false else .raised e

def openSprintInScope (config : SprintConfig) (project : Option String)
    (prepare : Sprint → Call Sprint) : Nat → Call (Option Sprint)
  | 0 => pure none
  | attempts + 1 => do
      let built ← buildPlanningSprint config project
      let sprint ← prepare built
      let saved ← trySave sprint
      if saved then pure (some sprint)
      else do
        let occupant ← scopeOccupant project
        if occupant.isSome then pure none
        else if attempts = 0 then .raised .constraintViolation
        else openSprintInScope config project prepare attempts

-- ==== the overrides

def createSprint (config : SprintConfig) (project : Option String) : Call Sprint := do
  requireScopeFree project
  let opened ← openSprintInScope config project pure numberCollisionAttempts
  match opened with
  | some sprint => pure sprint
  | none => .raised .sprintAlreadyOpen

def requireSprint (id : String) : Call Sprint := do
  let sprint ← get id
  match sprint with
  | some sprint => pure sprint
  | none => .raised .sprintNotFound

def rejectedAddError (id taskId : String) (maxTasks : Nat) : Call Error := do
  let current ← get id
  match current with
  | none => pure .sprintNotFound
  | some current =>
    if taskId ∈ current.taskIds then pure .sprintBacklogInvalid
    else if maxTasks ≤ current.taskIds.length then pure .sprintBacklogFull
    else pure .sprintTransitionConflict

def addTask (config : SprintConfig) (id taskId : String) (storyPoints : ℚ) : Call Sprint := do
  let sprint ← requireSprint id
  if sprint.status ≠ .planning then .raised .sprintTransitionConflict
  else if storyPoints < 0 then .raised .sprintBacklogInvalid
  else if storyPointsCeiling < sprint.storyPointsCommitted + storyPoints then
    .raised .sprintBacklogInvalid
  else do
    let updated ← tryAddTask id taskId storyPoints config.maxTasksPerSprint
    match updated with
    | some updated => pure updated
    | none => do
        let error ← rejectedAddError id taskId config.maxTasksPerSprint
        .raised error

def startSprint (id : String) : Call Sprint := do
  let sprint ← requireSprint id
  if sprint.status ≠ .planning then .raised .sprintTransitionConflict
  else do
    let startDate ← now
    let started ← ofExcept (sprint.withTransition .active (some startDate) none)
    let ok ← tryTransition id .planning .active (some startDate) none
    if ok then pure started else .raised .sprintTransitionConflict

def advanceSprint (id : String) : Call Sprint := do
  let sprint ← requireSprint id
  let target ← ofExcept (nextStatus sprint)
  let instant ← now
  let overrides := transitionOverrides sprint target instant
  let advanced ← ofExcept (sprint.withTransition target overrides.1 overrides.2)
  let ok ← tryTransition id sprint.status target overrides.1 overrides.2
  if ok then pure advanced else .raised .sprintTransitionConflict

-- ==== the tail

def tryHop (sprint : Sprint) (target : SprintStatus) (endDate : Option Int) :
    Call (Option Sprint) := do
  let ok ← tryTransition sprint.id sprint.status target none endDate
  if ok then do
    let moved ← ofExcept (sprint.withTransition target none endDate)
    pure (some moved)
  else pure none

def openReviewIfDelivered (sprint : Sprint) : Call Sprint :=
  if sprint.status ≠ .active then pure sprint
  else if !backlogFullyDelivered sprint then pure sprint
  else do
    let moved ← tryHop sprint .inReview none
    pure (moved.getD sprint)

def finalizeIfDelivered (sprint : Sprint) : Call Sprint :=
  if sprint.status ≠ .inReview then pure sprint
  else if !backlogFullyDelivered sprint then pure sprint
  else do
    let retro ← tryHop sprint .retrospective none
    match retro with
    | none => pure sprint
    | some retro => do
        let endDate ← now
        let completed ← tryHop retro .completed (some endDate)
        pure (completed.getD retro)

def advanceTail (sprint : Sprint) : Call Sprint := do
  let reviewing ← openReviewIfDelivered sprint
  finalizeIfDelivered reviewing

-- ==== the observer

def collectBacklogFrom (cap : Nat) (collected : List BacklogTask) :
    List TaskStatus → Call (List BacklogTask)
  | [] => pure collected
  | status :: rest =>
    if cap ≤ collected.length then pure collected
    else do
      let page ← tasks status cap
      collectBacklogFrom cap
        (page.foldl (fun found t =>
          if t.id ∈ found.map BacklogTask.id then found else found ++ [t]) collected) rest

def collectBacklog (config : SprintConfig) : Call (List BacklogTask) := do
  let collected ← collectBacklogFrom config.maxTasksPerSprint [] nonTerminalTaskStatuses
  pure (openBacklogTasks collected config.maxTasksPerSprint)

def seedAndStart (config : SprintConfig) (sprint : Sprint) : Call Sprint := do
  let backlog ← collectBacklog config
  let seeded ← ofExcept (backlog.foldlM
    (fun sprint t => addTaskToSprint sprint t.id (storyPointsFor t)) sprint)
  let startDate ← now
  ofExcept (seeded.withTransition .active (some startDate) none)

def ensureSprintForWork (config : SprintConfig) (project : String) : Call Unit := do
  let occupant ← scopeOccupant (some project)
  if occupant.isSome then pure ()
  else do
    let _ ← openSprintInScope config (some project) (seedAndStart config) numberCollisionAttempts
    pure ()

def openSprint (project : Option String) : Call (Option Sprint) := do
  let found ← sprintsOf (scopeSpec project) defaultPageSize
  pure (found.find? fun s => s.status ∈ openSprintStatuses)

def retryMaxAttempts : Nat := 3

/-- `GeneralRetryHandler.execute`, of what is not a constraint's refusal. -/
def retrying {α : Type} (op : Call α) : Nat → Call α
  | 0 => op
  | more + 1 => op.handle fun e =>
    if e = .constraintViolation then .raised e else retrying op more

def recordCompletion (sprint : Sprint) (taskId : String) : Call (Option Sprint) := do
  let delivered ← retrying (tryComplete sprint.id taskId) (retryMaxAttempts - 1)
  match delivered with
  | some delivered => pure (some delivered)
  | none => do
      let current ← get sprint.id
      match current with
      | some current =>
        if taskId ∈ current.completedTaskIds then pure (some current) else pure none
      | none => pure none

def handleCompletion (project taskId : String) : Call Unit := do
  let sprint ← openSprint (some project)
  match sprint with
  | none => pure ()
  | some sprint =>
    if taskId ∉ sprint.taskIds then pure ()
    else do
      let delivered ← recordCompletion sprint taskId
      match delivered with
      | none => pure ()
      | some delivered => do
          let _ ← advanceTail delivered
          pure ()

def onTaskStateChanged (config : SprintConfig) (newStatus : TaskStatus)
    (project taskId : String) : Call Unit := do
  let active ← sprintsActive
  if !active then pure ()
  else
    match newStatus with
    | .assigned => ensureSprintForWork config project
    | .completed => handleCompletion project taskId
    | _ => pure ()

-- ==== the sweep

/-- `collected.update({sprint.id: sprint})`. -/
def collect (collected : List Sprint) (sprint : Sprint) : List Sprint :=
  if sprint.id ∈ collected.map Sprint.id then
    collected.map fun s => if s.id = sprint.id then sprint else s
  else collected ++ [sprint]

def unfinishedOf (status : SprintStatus) : Nat → Option Key → List Sprint → Call (List Sprint)
  | 0, _, _ => .raised .stillPaging
  | rounds + 1, cursor, collected => do
      let page ← sprintsOf ⟨none, some status, false, cursor⟩ maxPageSize
      let found := page.foldl collect collected
      if page.length < maxPageSize then pure found
      else unfinishedOf status rounds (page.getLast?.map key) found

/-- The loop of `_unfinished_sprints` over the statuses that are left. -/
def unfinishedFrom (rounds : Nat) (collected : List Sprint) : List SprintStatus → Call (List Sprint)
  | [] => pure collected
  | status :: rest => do
      let found ← unfinishedOf status rounds none collected
      unfinishedFrom rounds found rest

/-- Every status but the last. -/
def unfinishedSprints (rounds : Nat) : Call (List Sprint) :=
  unfinishedFrom rounds [] [.planning, .active, .inReview, .retrospective]

def completeRetrospective (sprint : Sprint) : Call (Option SprintStatus) := do
  let endDate ← now
  let completed ← tryHop sprint .completed (some endDate)
  pure (completed.map fun _ => .completed)

def advanceIfDelivered (sprint : Sprint) : Call (Option SprintStatus) :=
  if sprint.status = .retrospective then completeRetrospective sprint
  else do
    let moved ← advanceTail sprint
    if moved.status = sprint.status then pure none else pure (some moved.status)

def reconcileOne (sprint : Sprint) : Call (Option SprintStatus) :=
  if sprint.status = .planning then pure none else advanceIfDelivered sprint

def nothingOwed (sprint : Sprint) : Bool :=
  if sprint.status = .planning then true
  else if sprint.status = .retrospective then false
  else !backlogFullyDelivered sprint

structure SprintRecoveryReport where
  advanced : Nat
  waiting : Nat
  raced : Nat
  failed : Nat

def SprintRecoveryReport.count (report : SprintRecoveryReport) (sprint : Sprint) :
    Option (Option SprintStatus) → SprintRecoveryReport
  | none => { report with failed := report.failed + 1 }
  | some (some _) => { report with advanced := report.advanced + 1 }
  | some none =>
    if nothingOwed sprint then { report with waiting := report.waiting + 1 }
    else { report with raced := report.raced + 1 }

/-- The `try` around one sprint of the pass. -/
def attemptOne (sprint : Sprint) : Call (Option (Option SprintStatus)) :=
  (do let moved ← reconcileOne sprint; pure (some moved) :
    Call (Option (Option SprintStatus))).handle fun _ => pure none

/-- The pass over the sprints that are left. -/
def reconcileAll (report : SprintRecoveryReport) : List Sprint → Call SprintRecoveryReport
  | [] => pure report
  | sprint :: rest => do
      let moved ← attemptOne sprint
      reconcileAll (report.count sprint moved) rest

/-- With so many rounds for the pages of each status. -/
def reconcile (rounds : Nat) : Call SprintRecoveryReport := do
  let active ← sprintsActive
  if !active then pure ⟨0, 0, 0, 0⟩
  else do
    let sprints ← unfinishedSprints rounds
    reconcileAll ⟨0, 0, 0, 0⟩ sprints

-- ==== requests

/-- What a process may be asked for. -/
inductive Request where
  | create (config : SprintConfig) (project : Option String)
  | addTask (config : SprintConfig) (id taskId : String) (storyPoints : ℚ)
  | start (id : String)
  | advance (id : String)
  | observe (config : SprintConfig) (newStatus : TaskStatus) (project taskId : String)
  | reconcile (rounds : Nat)

def Request.call : Request → Call Unit
  | .create config project => do let _ ← createSprint config project; pure ()
  | .addTask config id taskId storyPoints => do
      let _ ← Sprints.addTask config id taskId storyPoints; pure ()
  | .start id => do let _ ← startSprint id; pure ()
  | .advance id => do let _ ← advanceSprint id; pure ()
  | .observe config newStatus project taskId =>
    onTaskStateChanged config newStatus project taskId
  | .reconcile rounds => do let _ ← Sprints.reconcile rounds; pure ()

abbrev World := Pool Store Reply Error Unit

def world (requests : Nat → Request) : World := ⟨Store.empty, fun id => (requests id).call⟩

end Synthorg.Sprints
