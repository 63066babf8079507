/-
Walking a plan to a status under contention
(engine/initiative/rollup_plan_advance.py).

Any number of callers share one row. Each reads the plan, starts `walk_plan_to` or `advance_plan`
from what it read, commits one hop at a time, and after a lost write re-reads.

`committed` is what the hops of walks wrote, each beside the row it replaced.

Two writers of the recovery sweep leave the version where it was (sqlite/plan_repo.py).
-/
import Synthorg.Lib.Run
import Synthorg.Core.Plan

namespace Synthorg.Initiative

open Synthorg.Core

-- ==== the repository

/-- What the repository refuses with. -/
inductive StoreError
  | versionConflict
  | notFound
  | duplicate
  | constraint
  deriving DecidableEq

def rowAllowed (plan : Plan) : Bool :=
  decide (plan.status = .failed ↔ plan.failureReason ≠ none) &&
    (plan.status.itemless || decide (plan.items ≠ []))

/-- Under an `expected_version`. -/
def update (row : Option Plan) (plan : Plan) (expectedVersion : Int) : Except StoreError Plan :=
  match row with
  | none => .error .notFound
  | some stored =>
    if stored.version ≠ expectedVersion then .error .versionConflict
    else if rowAllowed plan then .ok plan
    else .error .constraint

def create (row : Option Plan) (plan : Plan) : Except StoreError Plan :=
  match row with
  | some _ => .error .duplicate
  | none => if rowAllowed plan then .ok plan else .error .constraint

def stamped (progress : DecompositionProgress) (stored : Plan) : Plan :=
  if stored.status = .planning then { stored with decompositionProgress := some progress }
  else stored

def recordDecompositionProgress (row : Option Plan) (progress : DecompositionProgress) :
    Option Plan :=
  row.map (stamped progress)

theorem stamped_kept (progress : DecompositionProgress) (stored : Plan) :
    (stamped progress stored).version = stored.version ∧
      (stamped progress stored).status = stored.status ∧
      rowAllowed (stamped progress stored) = rowAllowed stored := by
  unfold stamped
  split <;> exact ⟨rfl, rfl, rfl⟩

theorem update_ok_iff {row : Option Plan} {plan written : Plan} {expected : Int} :
    update row plan expected = .ok written ↔
      ∃ stored, row = some stored ∧ stored.version = expected ∧ rowAllowed plan = true ∧
        written = plan := by
  unfold update
  cases row with
  | none => simp
  | some stored =>
    simp only [Option.some.injEq]
    split
    next hne => simp [hne]
    next heq =>
      rw [not_not] at heq
      split
      next hall => simp [heq, hall, eq_comm]
      next hall => simp [hall]

-- ==== sync_status

/-- What `sync_status` refuses with. -/
inductive SyncError
  | illegalTransition
  | validation
  | store (e : StoreError)

/-- Judged on the status the caller read. -/
def requireLegalTransition (plan : Plan) (target : PlanStatus) : Except SyncError Unit :=
  if plan.status = target then .ok ()
  else (planMachine.validate plan.status target).mapError fun _ => .illegalTransition

/-- The plan `sync_status` writes. -/
def decided (existing : Plan) (status : PlanStatus) (failureReason : Option String)
    (now : Int) : Plan :=
  match status, failureReason with
  | .failed, some reason => existing.fail reason now
  | _, _ => { existing with status := status, version := existing.version + 1, updatedAt := now }

def syncStatus (row : Option Plan) (existing : Plan) (status : PlanStatus)
    (failureReason : Option String) (now : Int) : Except SyncError Plan := do
  requireLegalTransition existing status
  if status = .failed ∧ failureReason = none then .error .validation
  else if failureReason ≠ none ∧ status ≠ .failed then .error .validation
  else (update row (decided existing status failureReason now) existing.version).mapError .store

@[simp]
theorem decided_status (existing : Plan) (status : PlanStatus) (reason : Option String)
    (now : Int) : (decided existing status reason now).status = status := by
  unfold decided
  split <;> rfl

@[simp]
theorem decided_version (existing : Plan) (status : PlanStatus) (reason : Option String)
    (now : Int) : (decided existing status reason now).version = existing.version + 1 := by
  unfold decided
  split <;> rfl

theorem syncStatus_ok {row : Option Plan} {existing written : Plan} {status : PlanStatus}
    {failureReason : Option String} {now : Int}
    (h : syncStatus row existing status failureReason now = .ok written) :
    (existing.status = status ∨ planMachine.Allows existing.status status) ∧
      (failureReason ≠ none ↔ status = .failed) ∧
      ∃ stored, row = some stored ∧ stored.version = existing.version ∧
        rowAllowed written = true ∧
        written = decided existing status failureReason now := by
  unfold syncStatus at h
  simp only [bind_unit_ok_iff] at h
  obtain ⟨hl, h⟩ := h
  split at h
  next => cases h
  next hr =>
    split at h
    next => cases h
    next hlive =>
      cases hu : update row (decided existing status failureReason now) existing.version with
      | error e =>
        rw [hu] at h
        cases h
      | ok plan =>
        rw [hu] at h
        cases h
        obtain ⟨stored, hrow, hv, hall, rfl⟩ := update_ok_iff.1 hu
        refine ⟨?_, ?_, stored, hrow, hv, hall, rfl⟩
        · unfold requireLegalTransition at hl
          split at hl
          next heq => exact .inl heq
          next =>
            right
            unfold StateMachine.validate at hl
            split at hl
            next ha => exact ha
            next => cases hl
        · constructor
          · intro hsome
            by_contra hne
            exact hlive ⟨hsome, hne⟩
          · intro hfail hnone
            exact hr ⟨hfail, hnone⟩

-- ==== the other writers

def unfilledReason : String :=
  "Decomposition did not survive a restart: the plan was still being " ++
    "written when the process stopped, and the brief it was written from is " ++
    "not recoverable. File the initiative again."

/-- The plan `_stage_approved` writes: the version stays the one that was
read. -/
def staged (plan : Plan) : Plan :=
  { plan with status := .skeleton }

/-- The plan `_fail_unfilled` writes: so does this one's. -/
def failedUnfilled (plan : Plan) : Plan :=
  { plan with status := .failed, failureReason := some unfilledReason }

/-- The items and the time, under the status and the version that were read. -/
def withResolutions (plan : Plan) (items : List PlanItem) (now : Int) : Plan :=
  { plan with items := items, updatedAt := now }

structure ItemProgress where
  itemId : String
  kind : PlanItemKind
  taskId : Option Uuid := none
  taskStatus : Option TaskStatus := none
  blockedReason : Option BlockedReason := none
  chosenOptionId : Option String := none
  hasOptions : Bool := false

/-- `tasks_by_item`: of two tasks for one item the one listed last. -/
def taskOfItem (tasks : List Task) (itemId : String) : Option Task :=
  tasks.reverse.find? fun task => task.planItemId.any fun id => id.text = itemId

def itemProgress (tasks : List Task) (item : PlanItem) : ItemProgress :=
  let task := taskOfItem tasks item.id
  { itemId := item.id
    kind := item.kind
    taskId := task.map fun t => t.id
    taskStatus := task.map fun t => t.status
    blockedReason := task.bind fun t => t.blockedReason
    chosenOptionId := if item.kind = .decision then item.chosenOptionId else none
    hasOptions := decide (item.kind = .decision) && decide (item.options ≠ []) }

def collectItemProgress (tasks : List Task) (plan : Plan) : List ItemProgress :=
  plan.items.map (itemProgress tasks)

def itemIsDone (item : ItemProgress) : Bool :=
  match item.kind with
  | .decision => item.chosenOptionId.isSome
  | .work => item.taskStatus = some .completed

def derivePlanStatus (items : List ItemProgress) (current : PlanStatus) : PlanStatus :=
  let allDone := decide (items ≠ []) && items.all itemIsDone
  if current.terminal || current.head then current
  else if current.tail then if allDone then current else .executing
  else if allDone then .integrating
  else current

open Synthorg.Core Lib

-- ==== the callers

def maxWriteAttempts : Nat := 3

/-- A bare `walk_plan_to` raises where `advance_plan` retries. -/
structure Drive where
  retries : Bool
  attempt : Nat
  explicitTarget : PlanStatus
  explicitReason : Option String
  deriving DecidableEq

inductive Caller
  /-- It holds no plan. -/
  | idle
  /-- It has read this one, or was handed it back. -/
  | holding (plan : Plan)
  /-- In the loop of `walk_plan_to`: `current`, and the hops to come. -/
  | walking (drive : Drive) (current : Plan) (hops : List PlanStatus)
  /-- A hop lost its race; `_resolve_conflict` is about to re-read. -/
  | conflicted (drive : Drive)
  /-- It has re-read, and collects the items' progress. -/
  | resolving (drive : Drive) (refreshed : Plan)

def Caller.held : Caller → Option Plan
  | .idle => none
  | .holding plan => some plan
  | .walking _ current _ => some current
  | .conflicted _ => none
  | .resolving _ refreshed => some refreshed

/-- The head of `walk_plan_to`: no path is a refusal, an empty one is done. -/
def beginWalk (drive : Drive) (plan : Plan) (target : PlanStatus) : Caller :=
  match transitionPath plan.status target with
  | none => .idle
  | some [] => .holding plan
  | some (hop :: hops) => .walking drive plan (hop :: hops)

/-- The next attempt of `advance_plan`, while there is one. -/
def retryWalk (drive : Drive) (plan : Plan) (target : PlanStatus) (reason : Option String) :
    Caller :=
  if drive.attempt < maxWriteAttempts then
    beginWalk { drive with attempt := drive.attempt + 1, explicitReason := reason } plan target
  else .idle

/-- On what it re-read, up to the derivation. -/
def resolveConflict (drive : Drive) : Option Plan → Caller
  | none => .idle
  | some refreshed =>
    if refreshed.status.terminal then .holding refreshed
    else if drive.explicitTarget = .evaluating ∧ refreshed.status = .integrating then
      retryWalk drive refreshed .evaluating drive.explicitReason
    else .resolving drive refreshed

/-- Its derivation: the reason the caller supplied is dropped. -/
def rederive (drive : Drive) (refreshed : Plan) (tasks : List Task) : Caller :=
  let target := derivePlanStatus (collectItemProgress tasks refreshed) refreshed.status
  if target = refreshed.status then .holding refreshed
  else retryWalk drive refreshed target none

-- ==== the world

/-- How another writer writes back what it read: an edit, a decision, a filled shell, an
answered question and a graft are a `revise`. -/
inductive Revision
  | revise (revised : Plan)
  | resolveDecisions (items : List PlanItem) (now : Int)
  | stageApproved
  | failUnfilled

/-- The plan a writer writes over the one it read. -/
def Revision.written (plan : Plan) : Revision → Plan
  | .revise revised => { revised with version := plan.version + 1 }
  | .resolveDecisions items now => withResolutions plan items now
  | .stageApproved => staged plan
  | .failUnfilled => failedUnfilled plan

/-- The sweep asks what it read for the status it is about. -/
def Revision.applies (plan : Plan) : Revision → Bool
  | .stageApproved => plan.status = .approved
  | .failUnfilled => plan.status = .planning
  | _ => true

inductive Step
  | read (i : Nat)
  | start (i : Nat) (retries : Bool) (target : PlanStatus) (reason : Option String)
  | hop (i : Nat) (now : Int)
  | reread (i : Nat)
  | derive (i : Nat) (tasks : List Task)
  | stop (i : Nat)
  | write (i : Nat) (revision : Revision)
  | progress (snapshot : DecompositionProgress)
  | create (plan : Plan)
  | delete

/-- A committed hop: the row it replaced and the row it wrote. -/
structure Hop where
  before : Plan
  after : Plan

structure World where
  row : Option Plan
  callers : Nat → Caller
  committed : List Hop

def World.put (w : World) (i : Nat) (caller : Caller) : World :=
  { w with callers := Function.update w.callers i caller }

/-- `plans.get`. -/
def holdRow : Option Plan → Caller
  | none => .idle
  | some plan => .holding plan

/-- One `sync_status` of a walk. -/
def commitHop (w : World) (i : Nat) (drive : Drive) (current : Plan) (hop : PlanStatus)
    (hops : List PlanStatus) (now : Int) : World :=
  let reason := if hop = .failed then drive.explicitReason else none
  match w.row, syncStatus w.row current hop reason now with
  | some before, .ok after =>
    let next : Caller := if hops = [] then .holding after else .walking drive after hops
    { w.put i next with
      row := some after
      committed := w.committed ++ [{ before := before, after := after }] }
  | _, .error (.store .versionConflict) =>
    w.put i (if drive.retries then .conflicted drive else .idle)
  | _, _ => w.put i .idle

/-- A writer writes back what it read. -/
def commitRevision (w : World) (i : Nat) (plan : Plan) (revision : Revision) : World :=
  if revision.applies plan then
    match update w.row (revision.written plan) plan.version with
    | .ok written => { w.put i (.holding written) with row := some written }
    | .error _ => w.put i .idle
  else w

def step (w : World) : Step → World
  | .read i =>
    match w.callers i with
    | .idle => w.put i (holdRow w.row)
    | .holding _ => w.put i (holdRow w.row)
    | _ => w
  | .start i retries target reason =>
    match w.callers i with
    | .holding plan =>
      w.put i (beginWalk
        { retries := retries, attempt := 1, explicitTarget := target, explicitReason := reason }
        plan target)
    | _ => w
  | .hop i now =>
    match w.callers i with
    | .walking drive current (hop :: hops) => commitHop w i drive current hop hops now
    | _ => w
  | .reread i =>
    match w.callers i with
    | .conflicted drive => w.put i (resolveConflict drive w.row)
    | _ => w
  | .derive i tasks =>
    match w.callers i with
    | .resolving drive refreshed => w.put i (rederive drive refreshed tasks)
    | _ => w
  | .stop i => w.put i .idle
  | .write i revision =>
    match w.callers i with
    | .holding plan => commitRevision w i plan revision
    | _ => w
  | .progress snapshot => { w with row := recordDecompositionProgress w.row snapshot }
  | .create plan =>
    match create w.row plan with
    | .ok created => { w with row := some created }
    | .error _ => w
  | .delete => { w with row := none }

end Synthorg.Initiative
