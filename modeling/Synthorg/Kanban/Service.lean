/-
Moving a card (engine/workflow/kanban_board.py, kanban_service.py).

A call of `move_task` reads the task, asks the sprint gate and the
settings, waits for `_move_lock`, counts the target column and walks its
path one transition after the other. Everything it awaits is an event of
its own, so the engine may serve any other writer in between; the lock
keeps other moves out of the walk, and nobody else.
-/
import Synthorg.TaskEngine.Proofs.Lifecycle

namespace Synthorg.Kanban

section
open Synthorg.Core

inductive KanbanColumn where
  | backlog
  | ready
  | inProgress
  | review
  | done
  deriving DecidableEq

-- ==== columns and statuses

/-- `COLUMN_TO_STATUSES`. -/
def COLUMN_TO_STATUSES : KanbanColumn → List TaskStatus
  | .backlog => [.created]
  | .ready => [.assigned]
  | .inProgress => [.inProgress]
  | .review => [.inReview]
  | .done => [.completed]

/-- `STATUS_TO_COLUMN`; the others are off the board. -/
def STATUS_TO_COLUMN : TaskStatus → Option KanbanColumn
  | .created => some .backlog
  | .assigned => some .ready
  | .inProgress => some .inProgress
  | .inReview => some .review
  | .completed => some .done
  | .blocked => none
  | .failed => none
  | .interrupted => none
  | .suspended => none
  | .cancelled => none
  | .rejected => none
  | .authRequired => none
  | .awaitingInput => none

theorem statusToColumn_iff (status : TaskStatus) (column : KanbanColumn) :
    STATUS_TO_COLUMN status = some column ↔ status ∈ COLUMN_TO_STATUSES column := by
  cases status <;> cases column <;> decide

/-- `VALID_COLUMN_TRANSITIONS`. -/
def VALID_COLUMN_TRANSITIONS : KanbanColumn → List KanbanColumn
  | .backlog => [.ready, .done]
  | .ready => [.inProgress, .backlog]
  | .inProgress => [.review, .backlog, .ready]
  | .review => [.done, .inProgress]
  | .done => []

def columnMachine : StateMachine KanbanColumn where
  transitions := VALID_COLUMN_TRANSITIONS

def validateColumnTransition (current target : KanbanColumn) :
    Except (KanbanColumn × KanbanColumn) Unit :=
  columnMachine.validate current target

-- ==== status paths

/-- A move back goes through BLOCKED, and a move to BACKLOG ends there. -/
def COLUMN_MOVE_STATUS_PATH : KanbanColumn → KanbanColumn → Option (List TaskStatus)
  | .backlog, .ready => some [.assigned]
  | .backlog, .done => some [.assigned, .inProgress, .inReview, .completed]
  | .ready, .inProgress => some [.inProgress]
  | .ready, .backlog => some [.blocked, .assigned, .blocked]
  | .inProgress, .review => some [.inReview]
  | .inProgress, .backlog => some [.blocked, .assigned, .blocked]
  | .inProgress, .ready => some [.blocked, .assigned]
  | .review, .done => some [.completed]
  | .review, .inProgress => some [.inProgress]
  | _, _ => none

/-- `resolve_task_transitions`; `none` is the `ValueError`. -/
def resolveTaskTransitions (fromColumn toColumn : KanbanColumn) : Option (List TaskStatus) :=
  COLUMN_MOVE_STATUS_PATH fromColumn toColumn

def landing : KanbanColumn → List TaskStatus
  | .backlog => [.blocked]
  | column => COLUMN_TO_STATUSES column

section Path

variable {current target : KanbanColumn} {path : List TaskStatus}
  (h : resolveTaskTransitions current target = some path)

include h

theorem path_lands : ∃ status ∈ landing target, path.getLast? = some status := by
  revert h
  cases current <;> cases target <;>
    simp +contextual [resolveTaskTransitions, COLUMN_MOVE_STATUS_PATH, landing,
      COLUMN_TO_STATUSES, eq_comm]

theorem path_isChain : path.IsChain taskMachine.Allows := by
  revert h
  cases current <;> cases target <;>
    simp +contextual [resolveTaskTransitions, COLUMN_MOVE_STATUS_PATH, eq_comm,
      taskMachine, StateMachine.Allows, VALID_TRANSITIONS]

theorem created_notMem_path : TaskStatus.created ∉ path := by
  revert h
  cases current <;> cases target <;>
    simp +contextual [resolveTaskTransitions, COLUMN_MOVE_STATUS_PATH, eq_comm]

theorem path_from_backlog (hc : current = .backlog) : path.head? = some .assigned := by
  rw [hc] at h
  revert h
  cases target <;> simp +contextual [resolveTaskTransitions, COLUMN_MOVE_STATUS_PATH, eq_comm]

end Path

end

open Synthorg.Core Lib TaskEngine

-- ==== the limits

structure KanbanWipLimit where
  column : KanbanColumn
  limit : Nat
  bounds : 1 ≤ limit ∧ limit ≤ 100

structure KanbanConfig where
  wipLimits : List KanbanWipLimit
  enforceWip : Bool
  distinct : (wipLimits.map KanbanWipLimit.column).Nodup
  noDoneLimit : ∀ wl ∈ wipLimits, wl.column ≠ .done

def findColumnLimit (config : KanbanConfig) (column : KanbanColumn) : Option Nat :=
  (config.wipLimits.find? fun wl => wl.column = column).map KanbanWipLimit.limit

structure WipCheckResult where
  allowed : Bool
  column : KanbanColumn
  currentCount : Nat
  limit : Option Nat

def checkWipLimit (config : KanbanConfig) (targetColumn : KanbanColumn) (current : Nat) :
    WipCheckResult :=
  match findColumnLimit config targetColumn with
  | none => ⟨true, targetColumn, current, none⟩
  | some limit =>
    let newCount := current + 1
    if newCount > limit ∧ config.enforceWip then ⟨false, targetColumn, current, some limit⟩
    else ⟨true, targetColumn, current, some limit⟩

/-- What the settings answer: the two limits of `_LIMIT_KEYS`, and
`kanban_enforce_wip`. -/
structure Settings where
  wipInProgress : Nat
  wipReview : Nat
  enforceWip : Bool

/-- `none` is a limit the config does not take. -/
def resolveKanbanConfig (settings : Settings) : Option KanbanConfig :=
  if h : (1 ≤ settings.wipInProgress ∧ settings.wipInProgress ≤ 100) ∧
      (1 ≤ settings.wipReview ∧ settings.wipReview ≤ 100) then
    some
      { wipLimits := [⟨.inProgress, settings.wipInProgress, h.1⟩,
        ⟨.review, settings.wipReview, h.2⟩]
        enforceWip := settings.enforceWip
        distinct := by simp
        noDoneLimit := by simp }
  else none

-- ==== the store

structure Store where
  engine : EngineState
  ids : List String
  sound : engine.Sound
  nodup : ids.Nodup
  covers : ∀ id, engine.tasks id ≠ none → id ∈ ids

def filedIds (s : Store) (r : Request) : List String :=
  if r.env.newId.text ∉ s.ids ∧ (step s.engine r).tasks r.env.newId.text ≠ none then
    s.ids ++ [r.env.newId.text]
  else s.ids

theorem nodup_filedIds (s : Store) (r : Request) : (filedIds s r).Nodup := by
  unfold filedIds
  split
  next hnew =>
    rw [List.nodup_append_comm, List.singleton_append, List.nodup_cons]
    exact ⟨hnew.1, s.nodup⟩
  next => exact s.nodup

theorem covers_filedIds (s : Store) (r : Request) (id : String)
    (hrow : (step s.engine r).tasks id ≠ none) : id ∈ filedIds s r := by
  have hkept : ∀ i ∈ s.ids, i ∈ filedIds s r := by
    intro i hi
    unfold filedIds
    split <;> simp [hi]
  by_cases hold : s.engine.tasks id = none
  · -- a row appears only under the id the turn drew
    by_cases hid : id = r.env.newId.text
    · by_cases hmem : id ∈ s.ids
      · exact hkept id hmem
      · unfold filedIds
        rw [← hid, if_pos ⟨hmem, hrow⟩]
        simp
    · exact absurd (tasks_step_of_none s.sound hold hid) hrow
  · exact hkept id (s.covers id hold)

def Store.process (s : Store) (r : Request) : Store where
  engine := step s.engine r
  ids := filedIds s r
  sound := sound_step s.sound r
  nodup := nodup_filedIds s r
  covers := covers_filedIds s r

def Store.withStatus (s : Store) (status : TaskStatus) : List String :=
  s.ids.filter fun id => (s.engine.tasks id).map TaskFields.status = some status

/-- `DEFAULT_PAGE_SIZE`. -/
def DEFAULT_PAGE_SIZE : Nat := 100

def Store.query (s : Store) (status : TaskStatus) : List TaskFields :=
  (((s.withStatus status).filterMap s.engine.tasks).insertionSort
    fun a b => a.id.text ≤ b.id.text).take DEFAULT_PAGE_SIZE

def columnTasks (s : Store) (column : KanbanColumn) : List TaskFields :=
  (COLUMN_TO_STATUSES column).flatMap s.query

def Store.inColumn (s : Store) (column : KanbanColumn) : List String :=
  (COLUMN_TO_STATUSES column).flatMap s.withStatus

-- ==== the calls

abbrev CallId := Nat

structure Move where
  taskId : String
  task : Task
  current : KanbanColumn
  target : KanbanColumn

/-- A call on its way along its path. -/
structure Walk extends Move where
  config : KanbanConfig
  remaining : List TaskStatus
  updated : Task
  /-- The hops the engine has made for it. -/
  landed : List TaskStatus
  counted : List String
  /-- The tasks others have brought there since. -/
  arrived : List String
  /-- Its task was written by another between its hops, or a hop was not served. -/
  disturbed : Bool

/-- Where a call of `move_task` stands. -/
inductive Stage where
  | idle
  | validated (move : Move)
  /-- Waiting for `_move_lock`. -/
  | waiting (move : Move) (config : KanbanConfig)
  | locked (move : Move) (config : KanbanConfig)
  | walking (walk : Walk)
  | returned (target : KanbanColumn) (task : Task) (walk : Option Walk) (population : Nat)
  | raised (walk : Option Walk)

structure State where
  store : Store
  moveLock : Option CallId
  calls : CallId → Stage

def setCall (s : State) (id : CallId) (stage : Stage) : State :=
  { s with calls := Function.update s.calls id stage }

def release (s : State) : State := { s with moveLock := none }

/-- `move_task`, up to `validate_column_transition`. -/
def call (s : State) (id : CallId) (taskId : String) (target : KanbanColumn) (env : TurnEnv) :
    State :=
  match s.store.engine.get env taskId with
  | none => setCall s id (.raised none)
  | some none => setCall s id (.raised none)
  | some (some task) =>
    match STATUS_TO_COLUMN task.status with
    | none => setCall s id (.raised none)
    | some current =>
      if current = target then
        setCall s id (.returned target task none (s.store.inColumn target).length)
      else
        match validateColumnTransition current target with
        | .error _ => setCall s id (.raised none)
        | .ok () => setCall s id (.validated ⟨taskId, task, current, target⟩)

/-- `_enforce_sprint_gate` and the settings; a gate that is absent or fails lets the task
through. -/
def prepare (s : State) (id : CallId) (workable : Bool) (settings : Option Settings) : State :=
  match s.calls id with
  | .validated move =>
    if move.target = .inProgress ∧ !workable then setCall s id (.raised none)
    else
      match settings.bind resolveKanbanConfig with
      | none => setCall s id (.raised none)
      | some config => setCall s id (.waiting move config)
  | _ => s

def acquire (s : State) (id : CallId) : State :=
  match s.calls id, s.moveLock with
  | .waiting move config, none => setCall { s with moveLock := some id } id (.locked move config)
  | _, _ => s

/-- The count of the target column, `check_wip_limit`, `resolve_task_transitions`. -/
def count (s : State) (id : CallId) (queryRaises : Bool) : State :=
  match s.calls id with
  | .locked move config =>
    if queryRaises then setCall (release s) id (.raised none)
    else
      let targetCount := (columnTasks s.store move.target).length
      if (checkWipLimit config move.target targetCount).allowed then
        match resolveTaskTransitions move.current move.target with
        | none => setCall (release s) id (.raised none)
        | some path => setCall s id (.walking
          { toMove := move
            config := config
            remaining := path
            updated := move.task
            landed := []
            counted := s.store.inColumn move.target
            arrived := []
            disturbed := false })
      else setCall (release s) id (.raised none)
  | _ => s

/-- The mutation `transition_task` submits, without overrides or an expected version. -/
def hopRequest (env : TurnEnv) (requestId taskId : String) (target : TaskStatus) : Request :=
  ⟨env, .transition requestId taskId target ⟨[], rejectImmutableFields_nil⟩
    ⟨none, unversioned⟩⟩

/-- One turn of the loop of `move_task`. The engine may be stopped or full. -/
def hop (s : State) (id : CallId) (admitted : Bool) (env : TurnEnv) (requestId : String) : State :=
  match s.calls id with
  | .walking walk =>
    match walk.remaining with
    | [] => s
    | status :: rest =>
      if admitted then
        let request := hopRequest env requestId walk.taskId status
        let s' : State := { s with store := s.store.process request }
        match (result s.store.engine request).outcome with
        | .success (some task) _ _ => setCall s' id (.walking { walk with
            remaining := rest
            updated := task
            landed := walk.landed ++ [status] })
        | _ => setCall (release s') id (.raised (some { walk with
            disturbed := walk.disturbed || env.readRaises || env.saveRaises }))
      else setCall (release s) id (.raised (some { walk with disturbed := true }))
  | _ => s

/-- The path is walked, and `move_task` returns. -/
def finish (s : State) (id : CallId) : State :=
  match s.calls id with
  | .walking walk =>
    match walk.remaining with
    | [] => setCall (release s) id (.returned walk.target walk.updated (some walk)
        (s.store.inColumn walk.target).length)
    | _ :: _ => s
  | _ => s

def Walk.observe (walk : Walk) (before after : Store) : Walk :=
  { walk with
    arrived := walk.arrived ++ (after.inColumn walk.target).filter
      fun id => id ∉ before.inColumn walk.target
    disturbed := walk.disturbed || (walk.landed ≠ [] &&
      after.engine.tasks walk.taskId ≠ before.engine.tasks walk.taskId) }

def Stage.observe (before after : Store) : Stage → Stage
  | .walking walk => .walking (walk.observe before after)
  | stage => stage

def serve (s : State) (r : Request) : State :=
  { s with
    store := s.store.process r
    calls := fun id => (s.calls id).observe s.store (s.store.process r) }

/-- What can happen next. -/
inductive Event where
  | serve (r : Request)
  | call (id : CallId) (taskId : String) (target : KanbanColumn) (env : TurnEnv)
  | prepare (id : CallId) (workable : Bool) (settings : Option Settings)
  | acquire (id : CallId)
  | count (id : CallId) (queryRaises : Bool)
  | hop (id : CallId) (admitted : Bool) (env : TurnEnv) (requestId : String)
  | finish (id : CallId)

def step (s : State) : Event → State
  | .serve r => serve s r
  | .call id taskId target env =>
    match s.calls id with
    | .idle => call s id taskId target env
    | _ => s
  | .prepare id workable settings => prepare s id workable settings
  | .acquire id => acquire s id
  | .count id queryRaises => count s id queryRaises
  | .hop id admitted env requestId => hop s id admitted env requestId
  | .finish id => finish s id

/-- A board no card was ever moved on. -/
def opened (store : Store) : State where
  store := store
  moveLock := none
  calls _ := .idle

end Synthorg.Kanban
