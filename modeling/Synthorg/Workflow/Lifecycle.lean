/-
Execution lifecycle (engine/workflow/execution_lifecycle.py,
persistence/sqlite/workflow_execution_repo.py).

# A row

`WorkflowExecution` and the record of one node hold the checks of their models as
fields. `WorkflowExecution.build` is where an activation makes one, and the only
place a check can refuse.

# The parties

Every call of the service is a party of its own: a handler of a task event
or an operator's cancel, complete or fail. It reads a row, waits, and writes
the row back, and anything may happen in between, so a party is a small
machine that takes one turn at a time, each turn one statement of the
database.

What a party writes depends on the row it read alone (`Call.write`), and a
snapshot it holds is of an execution that was open when it was read.
-/
import Synthorg.Workflow.Definition
import Synthorg.Lib.Versioned
import Synthorg.Lib.Run

namespace Synthorg.Workflow

section
open Synthorg.Core

-- ==== statuses

inductive WorkflowExecutionStatus
  | pending
  | running
  | completed
  | failed
  | cancelled
  deriving DecidableEq

inductive WorkflowNodeExecutionStatus
  | pending
  | skipped
  | taskCreated
  | taskCompleted
  | taskFailed
  | completed
  | subworkflowCompleted
  deriving DecidableEq

def WorkflowExecutionStatus.terminal (s : WorkflowExecutionStatus) : Bool :=
  s = .completed ∨ s = .failed ∨ s = .cancelled

def WorkflowNodeExecutionStatus.taskLinked (s : WorkflowNodeExecutionStatus) : Bool :=
  s = .taskCreated ∨ s = .taskCompleted ∨ s = .taskFailed

-- ==== node executions

structure WorkflowNodeExecution where
  nodeId : String
  nodeType : WorkflowNodeType
  status : WorkflowNodeExecutionStatus
  taskId : Option String := none
  skippedReason : Option String := none
  task_linked : if status.taskLinked then nodeType = .task ∧ taskId.isSome
    else taskId = none
  skip_reason : status = .skipped ↔ skippedReason.isSome
  deriving DecidableEq

namespace WorkflowNodeExecution

def done (nodeId : String) (nodeType : WorkflowNodeType) : WorkflowNodeExecution where
  nodeId := nodeId
  nodeType := nodeType
  status := .completed
  task_linked := rfl
  skip_reason := by simp

/-- A SUBWORKFLOW node whose child graph was walked. -/
def subworkflowDone (nodeId : String) : WorkflowNodeExecution where
  nodeId := nodeId
  nodeType := .subworkflow
  status := .subworkflowCompleted
  task_linked := rfl
  skip_reason := by simp

def skippedNode (nodeId : String) (nodeType : WorkflowNodeType) : WorkflowNodeExecution where
  nodeId := nodeId
  nodeType := nodeType
  status := .skipped
  skippedReason := some "Conditional branch not taken"
  task_linked := rfl
  skip_reason := by simp

/-- A TASK node whose task was created. -/
def taskCreated (nodeId taskId : String) : WorkflowNodeExecution where
  nodeId := nodeId
  nodeType := .task
  status := .taskCreated
  taskId := some taskId
  task_linked := ⟨rfl, rfl⟩
  skip_reason := by simp

/-- A node that names a task is a TASK node in a task-linked status. -/
theorem taskLinked_of_taskId {ne : WorkflowNodeExecution} {taskId : String}
    (h : ne.taskId = some taskId) : ne.status.taskLinked = true ∧ ne.nodeType = .task := by
  have hl := ne.task_linked
  split at hl
  next hs => exact ⟨hs, hl.1⟩
  next => simp [h] at hl

/-- `model_copy(update={"status": ...})` from one task-linked status to
another. -/
def withTaskStatus (ne : WorkflowNodeExecution) (status : WorkflowNodeExecutionStatus)
    (hold : ne.status.taskLinked = true) (hnew : status.taskLinked = true) :
    WorkflowNodeExecution where
  nodeId := ne.nodeId
  nodeType := ne.nodeType
  status := status
  taskId := ne.taskId
  skippedReason := ne.skippedReason
  task_linked := by
    have hl := ne.task_linked
    rw [if_pos hold] at hl
    rw [if_pos hnew]
    exact hl
  skip_reason := by
    have hr := ne.skip_reason
    have hne : ne.status ≠ .skipped := by
      intro h
      rw [h] at hold
      cases hold
    have hne' : status ≠ .skipped := by
      intro h
      rw [h] at hnew
      cases hnew
    exact ⟨fun h => absurd h hne', fun h => absurd (hr.2 h) hne⟩

end WorkflowNodeExecution

-- ==== executions

structure WorkflowExecution where
  id : Uuid
  definitionId : String
  definitionRevision : Nat
  status : WorkflowExecutionStatus
  nodeExecutions : List WorkflowNodeExecution
  activatedBy : String
  project : String
  createdAt : Int
  updatedAt : Int
  completedAt : Option Int := none
  error : Option String := none
  version : Nat := 1
  completed_at : status.terminal = completedAt.isSome
  error_failed : status = .failed ↔ error.isSome
  /-- `_validate_unique_node_ids` -/
  nodeIds_nodup : (nodeExecutions.map WorkflowNodeExecution.nodeId).Nodup
  deriving DecidableEq

/-- What an activation builds; nothing is the `ValidationError`. -/
def WorkflowExecution.build (id : Uuid) (definitionId : String) (definitionRevision : Nat)
    (running : Bool) (nodeExecutions : List WorkflowNodeExecution)
    (activatedBy project : String) (now : Int) : Option WorkflowExecution :=
  if h : (nodeExecutions.map WorkflowNodeExecution.nodeId).Nodup then
    if notBlank activatedBy ∧ notBlank project then
      some
        { id := id
          definitionId := definitionId
          definitionRevision := definitionRevision
          status := if running then .running else .completed
          nodeExecutions := nodeExecutions
          activatedBy := activatedBy
          project := project
          createdAt := now
          updatedAt := now
          completedAt := if running then none else some now
          completed_at := by cases running <;> rfl
          error_failed := by cases running <;> simp
          nodeIds_nodup := h }
    else none
  else none

theorem WorkflowExecution.build_nodeExecutions {id : Uuid} {definitionId : String}
    {revision : Nat} {running : Bool} {nodes : List WorkflowNodeExecution}
    {activatedBy project : String} {now : Int} {execution : WorkflowExecution}
    (h : build id definitionId revision running nodes activatedBy project now =
      some execution) : execution.nodeExecutions = nodes ∧
      execution.status = if running then .running else .completed := by
  unfold build at h
  split at h
  next =>
    split at h
    next =>
      cases h
      exact ⟨rfl, rfl⟩
    next => cases h
  next => cases h

end

open Synthorg.Core Lib
open List

-- ==== events

inductive MutationType
  | create
  | update
  | transition
  | delete
  | cancel
  deriving DecidableEq

/-- As far as the lifecycle reads it. -/
structure TaskStateChanged where
  mutationType : MutationType
  taskId : String
  newStatus : Option TaskStatus
  deriving DecidableEq

def terminalTaskStatuses : List TaskStatus := [.completed, .failed, .cancelled]

namespace TaskStateChanged

/-- The two filters at the head of `handle_task_state_changed`. -/
def concerns (event : TaskStateChanged) : Bool :=
  event.mutationType = .transition ∧ event.newStatus.any (· ∈ terminalTaskStatuses)

/-- `event.new_status in {FAILED, CANCELLED}`. -/
def failed (event : TaskStateChanged) : Bool :=
  event.newStatus = some .failed ∨ event.newStatus = some .cancelled

/-- `_expected_terminal_node_status`. -/
def expectedNodeStatus (event : TaskStateChanged) : WorkflowNodeExecutionStatus :=
  if event.failed then .taskFailed else .taskCompleted

theorem taskLinked_expected (event : TaskStateChanged) :
    event.expectedNodeStatus.taskLinked = true := by
  unfold expectedNodeStatus
  split <;> rfl

end TaskStateChanged

-- ==== executions

def WorkflowNodeExecution.forTask (ne : WorkflowNodeExecution) (taskId : String)
    (status : WorkflowNodeExecutionStatus) (hnew : status.taskLinked = true) :
    WorkflowNodeExecution :=
  if h : ne.taskId = some taskId then
    ne.withTaskStatus status (WorkflowNodeExecution.taskLinked_of_taskId h).1 hnew
  else ne

abbrev OpenExecution := { e : WorkflowExecution // e.status.terminal = false }

namespace WorkflowExecution

variable (e : WorkflowExecution)

def hasTask (taskId : String) : Bool := e.nodeExecutions.any (·.taskId = some taskId)

def nodeStatusForTask (taskId : String) : Option WorkflowNodeExecutionStatus :=
  (e.nodeExecutions.find? (·.taskId = some taskId)).map WorkflowNodeExecution.status

/-- A TASK or SUBWORKFLOW node that is neither skipped nor completed. -/
def unfinished (ne : WorkflowNodeExecution) : Bool :=
  ne.status ≠ .skipped ∧
    ((ne.nodeType = .task ∧ ne.status ≠ .taskCompleted) ∨
      ne.nodeType = .subworkflow ∧ ne.status ≠ .subworkflowCompleted)

def allTasksCompleted : Bool := !e.nodeExecutions.any unfinished

theorem forTask_nodeId (taskId : String) (status : WorkflowNodeExecutionStatus)
    (hnew : status.taskLinked = true) (ne : WorkflowNodeExecution) :
    (ne.forTask taskId status hnew).nodeId = ne.nodeId := by
  unfold WorkflowNodeExecution.forTask
  split <;> rfl

end WorkflowExecution

namespace OpenExecution

/-- Nothing is its `ValueError`. -/
def updateNodeStatus (e : OpenExecution) (taskId : String)
    (status : WorkflowNodeExecutionStatus) (hnew : status.taskLinked = true) (now : Int) :
    Option OpenExecution :=
  if e.val.hasTask taskId then
    some ⟨{ e.val with
      nodeExecutions := e.val.nodeExecutions.map (·.forTask taskId status hnew)
      updatedAt := now
      version := e.val.version + 1
      nodeIds_nodup := by
        have hsame : (e.val.nodeExecutions.map (·.forTask taskId status hnew)).map
            WorkflowNodeExecution.nodeId =
              e.val.nodeExecutions.map WorkflowNodeExecution.nodeId := by
          rw [map_map]
          exact map_congr_left fun ne _ =>
            WorkflowExecution.forTask_nodeId taskId status hnew ne
        rw [hsame]
        exact e.val.nodeIds_nodup }, e.property⟩
  else none

/-- `model_copy` into a terminal status; an open execution has no error. -/
def close (e : OpenExecution) (status : WorkflowExecutionStatus) (error : Option String)
    (hterm : status.terminal = true) (he : status = .failed ↔ error.isSome)
    (version : Nat) (now : Int) : WorkflowExecution :=
  { e.val with
    status := status
    error := error
    updatedAt := now
    completedAt := some now
    version := version
    completed_at := hterm
    error_failed := he }

end OpenExecution

-- ==== handlers

/-- Up to the save. -/
def handleTaskFailed (e : OpenExecution) (event : TaskStateChanged) (now : Int) :
    Option WorkflowExecution :=
  let verb := if event.newStatus = some .cancelled then "cancelled" else "failed"
  let errorMsg := "Task " ++ event.taskId ++ " " ++ verb
  (e.updateNodeStatus event.taskId .taskFailed rfl now).map fun updated =>
    updated.close .failed (some errorMsg) rfl (by simp) updated.val.version now

/-- Up to the save. -/
def handleTaskCompleted (e : OpenExecution) (event : TaskStateChanged) (now : Int) :
    Option WorkflowExecution :=
  (e.updateNodeStatus event.taskId .taskCompleted rfl now).map fun updated =>
    if updated.val.allTasksCompleted then
      updated.close .completed none rfl (by simp) updated.val.version now
    else updated.val

/-- Up to the save. -/
def dispatchTaskHandler (e : OpenExecution) (event : TaskStateChanged) (now : Int) :
    Option WorkflowExecution :=
  if event.failed then handleTaskFailed e event now else handleTaskCompleted e event now

inductive Call
  | taskStateChanged (event : TaskStateChanged)
  | cancelExecution (executionId : String)
  | completeExecution (executionId : String)
  | failExecution (executionId error : String)

def Call.write (call : Call) (e : OpenExecution) (now : Int) : Option WorkflowExecution :=
  match call with
  | .taskStateChanged event => dispatchTaskHandler e event now
  | .cancelExecution _ =>
    some (e.close .cancelled none rfl (by simp) (e.val.version + 1) now)
  | .completeExecution _ =>
    some (e.close .completed none rfl (by simp) (e.val.version + 1) now)
  | .failExecution _ error =>
    some (e.close .failed (some error) rfl (by simp) (e.val.version + 1) now)

-- ==== the table

def executionKey (e : WorkflowExecution) : String := e.id.text

inductive SaveError
  | duplicate
  | notFound
  | versionConflict

/-- `workflow_executions`. -/
structure ExecutionTable where
  rows : List WorkflowExecution
  ids_distinct : Keyed.Distinct executionKey rows

namespace ExecutionTable

variable (table : ExecutionTable)

def get (executionId : String) : Option WorkflowExecution :=
  Keyed.lookup executionKey table.rows executionId

def findByTaskId (taskId : String) : Option WorkflowExecution :=
  table.rows.find? fun e => e.status = .running ∧ e.hasTask taskId

def insert (e : WorkflowExecution) : Except SaveError ExecutionTable :=
  if h : executionKey e ∉ table.rows.map executionKey then
    .ok
      { rows := table.rows ++ [e]
        ids_distinct := by
          unfold Keyed.Distinct
          rw [map_append, nodup_append]
          refine ⟨table.ids_distinct, nodup_singleton _, ?_⟩
          intro a ha b hb heq
          rw [map_cons, map_nil, mem_singleton] at hb
          exact h (hb ▸ heq ▸ ha) }
  else .error .duplicate

def update (e : WorkflowExecution) : Except SaveError ExecutionTable :=
  match h : Versioned.update executionKey WorkflowExecution.version e table.rows with
  | .ok rows =>
    .ok
      { rows := rows
        ids_distinct := by
          obtain ⟨_, _, _, rfl⟩ := Versioned.update_ok_iff.1 h
          exact Versioned.distinct_put table.ids_distinct }
  | .error .missing => .error .notFound
  | .error .conflict => .error .versionConflict

def save (e : WorkflowExecution) : Except SaveError ExecutionTable :=
  if e.version = 1 then table.insert e else table.update e

end ExecutionTable

-- ==== parties

/-- How a call ended. -/
inductive Outcome
  /-- filtered out, or no running execution has the task -/
  | ignored
  | saved (e : WorkflowExecution)
  /-- the row is gone, or was never there -/
  | missing
  /-- the execution was terminal, or for two of the operators not running -/
  | refused
  /-- the node was already in the status the event implies -/
  | alreadyRecorded
  /-- the `ValueError`: no node of the task -/
  | noNode
  /-- an operator's save lost a race, or a handler's second one did -/
  | lostRace
  | duplicate

/-- Where a call stands between two statements of the database. -/
inductive Stage
  | waiting
  | read (e : OpenExecution)
  /-- a handler's first save lost a race -/
  | conflicted (e : OpenExecution)
  | reread (e : OpenExecution)
  | done (outcome : Outcome)

def Stage.outcome : Stage → Option Outcome
  | .done outcome => some outcome
  | _ => none

structure Party where
  call : Call
  stage : Stage

def openOr (refused : WorkflowExecution → Bool) : Option WorkflowExecution → Stage
  | none => .done .missing
  | some e =>
    if h : refused e = false ∧ e.status.terminal = false then .read ⟨e, h.2⟩
    else .done .refused

/-- `find_by_task_id` for an event, `get` for an operator, with the check after it. -/
def Call.firstRead (call : Call) (table : ExecutionTable) : Stage :=
  match call with
  | .taskStateChanged event =>
    if event.concerns then
      match table.findByTaskId event.taskId with
      | none => .done .ignored
      | some e => openOr (fun _ => false) (some e)
    else .done .ignored
  | .cancelExecution executionId => openOr (fun _ => false) (table.get executionId)
  | .completeExecution executionId | .failExecution executionId _ =>
    openOr (fun e => e.status ≠ .running) (table.get executionId)

def saveAs (table : ExecutionTable) (e : WorkflowExecution) (onConflict : Stage) :
    ExecutionTable × Stage :=
  match table.save e with
  | .ok table => (table, .done (.saved e))
  | .error .versionConflict => (table, onConflict)
  | .error .notFound => (table, .done .missing)
  | .error .duplicate => (table, .done .duplicate)

def Call.saveFrom (call : Call) (e : OpenExecution) (table : ExecutionTable) (now : Int)
    (onConflict : Stage) : ExecutionTable × Stage :=
  match call.write e now with
  | none => (table, .done .noNode)
  | some updated => saveAs table updated onConflict

/-- Up to the second dispatch. -/
def retryAfterVersionConflict (event : TaskStateChanged) (e : OpenExecution)
    (table : ExecutionTable) : Stage :=
  match table.get (executionKey e.val) with
  | none => .done .missing
  | some refreshed =>
    if h : refreshed.status.terminal = false then
      if refreshed.nodeStatusForTask event.taskId = some event.expectedNodeStatus then
        .done .alreadyRecorded
      else .reread ⟨refreshed, h⟩
    else .done .refused

def Party.advance (party : Party) (table : ExecutionTable) (now : Int) : ExecutionTable × Stage :=
  match party.stage with
  | .waiting => (table, party.call.firstRead table)
  | .read e =>
    match party.call with
    | .taskStateChanged _ => party.call.saveFrom e table now (.conflicted e)
    | _ => party.call.saveFrom e table now (.done .lostRace)
  | .conflicted e =>
    match party.call with
    | .taskStateChanged event => (table, retryAfterVersionConflict event e table)
    | _ => (table, .done .lostRace)
  | .reread e => party.call.saveFrom e table now (.done .lostRace)
  | .done outcome => (table, .done outcome)

-- ==== the system

/-- The table, and every call made so far. -/
structure System where
  table : ExecutionTable
  parties : List Party := []

inductive Action
  | start (call : Call)
  | turn (i : Nat) (now : Int)

def System.step (s : System) : Action → System
  | .start call => { s with parties := s.parties ++ [{ call := call, stage := .waiting }] }
  | .turn i now =>
    match s.parties[i]? with
    | none => s
    | some party =>
      let advanced := party.advance s.table now
      { table := advanced.1
        parties := s.parties.set i { party with stage := advanced.2 } }

def System.after (s : System) (actions : List Action) : System :=
  Run.final System.step s actions

end Synthorg.Workflow
