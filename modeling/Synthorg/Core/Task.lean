/-
The task row (core/task.py, core/_task_invariants.py).

A row travels in two forms. `TaskFields` is the payload: what a column set, a `model_dump` or a
merged dictionary holds, coherent or not. `Task` is what `Task.model_validate` returns for it, and
carries the proof that the payload is coherent.

`Task.withTransition` is the only function that moves a status. The
`blocked_reason` is dropped on the way out of BLOCKED before the overrides
are merged, and the status is written after them.

The tables of the task and the plan (task_transitions.py, plan_transitions.py) and the path finding
of core/state_machine.py come first: `pathTo` is its breadth-first search, in the table's key order.
-/
import Synthorg.Core.Validation
import Mathlib.Order.Nat

namespace Synthorg.Core

-- ==== statuses

inductive TaskStatus
  | created
  | assigned
  | inProgress
  | inReview
  | completed
  | blocked
  | failed
  | interrupted
  | suspended
  | cancelled
  | rejected
  | authRequired
  | awaitingInput
  deriving DecidableEq

inductive BlockedReason
  | oracleEscalated
  | waveReleased
  | reviewerUnstaffed
  | redTeamUnstaffed
  | noCapableAgent
  | dependencyFailed
  | runStopped
  deriving DecidableEq

inductive ParkExit
  | operator
  | sweep
  | replan
  deriving DecidableEq

def parkExit : BlockedReason → ParkExit
  | .oracleEscalated => .operator
  | .noCapableAgent => .operator
  | .reviewerUnstaffed => .sweep
  | .redTeamUnstaffed => .sweep
  | .waveReleased => .replan
  | .dependencyFailed => .replan
  | .runStopped => .replan

def BlockedReason.attended (reason : BlockedReason) : Bool :=
  parkExit reason != .replan

-- ==== what a task is made of

inductive TaskType
  | development
  | design
  | research
  | review
  | admin
  | analysis
  deriving DecidableEq

inductive Priority
  | critical
  | high
  | medium
  | low
  deriving DecidableEq

inductive Complexity
  | simple
  | medium
  | complex
  | epic
  deriving DecidableEq

/-- How a task's subtasks relate; `auto` is the UNRESOLVED state. -/
inductive TaskStructure
  | auto
  | sequential
  | parallel
  | mixed
  deriving DecidableEq

inductive CoordinationTopology
  | sas
  | centralized
  | decentralized
  | contextDependent
  | auto
  deriving DecidableEq

inductive TaskSource
  | internal
  | client
  | simulation
  deriving DecidableEq

inductive ArtifactType
  | code
  | tests
  | documentation
  deriving DecidableEq

-- ==== stakes

/-- How consequential a task is: the cost of being wrong. -/
inductive Stakes
  | low
  | normal
  | high
  | critical
  deriving DecidableEq

namespace Stakes

/-- A level's index in `STAKES_ORDER`. -/
def rank : Stakes → Nat
  | low => 0
  | normal => 1
  | high => 2
  | critical => 3

theorem rank_injective : Function.Injective rank := by
  intro a b h
  cases a <;> cases b <;> first | rfl | cases h

/-- `compare_stakes` read as an order: `LOW < NORMAL < HIGH < CRITICAL`. -/
instance : LinearOrder Stakes := LinearOrder.lift' rank rank_injective

theorem lt_iff_rank (a b : Stakes) : a < b ↔ a.rank < b.rank := Iff.rfl

theorem le_iff_rank (a b : Stakes) : a ≤ b ↔ a.rank ≤ b.rank := Iff.rfl

end Stakes

-- ==== plans

inductive PlanStatus
  | planning
  | draft
  | pendingReview
  | approved
  | skeleton
  | executing
  | integrating
  | evaluating
  | completed
  | rejected
  | superseded
  | failed
  deriving DecidableEq

namespace PlanStatus

def value : PlanStatus → String
  | planning => "planning"
  | draft => "draft"
  | pendingReview => "pending_review"
  | approved => "approved"
  | skeleton => "skeleton"
  | executing => "executing"
  | integrating => "integrating"
  | evaluating => "evaluating"
  | completed => "completed"
  | rejected => "rejected"
  | superseded => "superseded"
  | failed => "failed"

/-- `TERMINAL_STATUSES`: no lifecycle hop remains. -/
def terminal (s : PlanStatus) : Bool :=
  s ∈ [completed, rejected, superseded, failed]

/-- `TAIL_STATUSES`: every item is done, the whole is not delivered yet. -/
def tail (s : PlanStatus) : Bool :=
  s ∈ [integrating, evaluating]

/-- `HEAD_STATUSES`: the contract is written, no item is dispatched. -/
def head (s : PlanStatus) : Bool :=
  s ∈ [skeleton]

/-- `DELETABLE_STATUSES`: the request never became work. -/
def deletable (s : PlanStatus) : Bool :=
  s ∈ [planning, draft, pendingReview, failed]

def itemless (s : PlanStatus) : Bool :=
  s ∈ [planning, failed]

end PlanStatus

/-- Work to execute, or a choice surfaced for a reviewer. -/
inductive PlanItemKind
  | work
  | decision
  deriving DecidableEq

-- ==== the generic machine

/-- A transition table; `transitions s` are the states `s` may move to. -/
structure StateMachine (σ : Type) where
  transitions : σ → List σ

namespace StateMachine

variable {σ : Type}

def Allows (m : StateMachine σ) (current target : σ) : Prop :=
  target ∈ m.transitions current

instance [DecidableEq σ] (m : StateMachine σ) (current target : σ) :
    Decidable (m.Allows current target) :=
  inferInstanceAs (Decidable (target ∈ m.transitions current))

/-- `StateMachine.validate`: raises on a hop that is not in the table. -/
def validate [DecidableEq σ] (m : StateMachine σ) (current target : σ) : Except (σ × σ) Unit :=
  if m.Allows current target then .ok () else .error (current, target)

theorem validate_ok_iff [DecidableEq σ] (m : StateMachine σ) (current target : σ) :
    m.validate current target = .ok () ↔ m.Allows current target := by
  unfold validate
  split <;> simp_all

def Terminal (m : StateMachine σ) (s : σ) : Prop :=
  m.transitions s = []

instance (m : StateMachine σ) (s : σ) : Decidable (m.Terminal s) :=
  match h : m.transitions s with
  | [] => isTrue h
  | _ :: _ => isFalse (by simp [Terminal, h])

def Path (m : StateMachine σ) : σ → σ → Prop :=
  Relation.ReflTransGen m.Allows

theorem Path.eq_of_terminal {m : StateMachine σ} {s t : σ}
    (hpath : m.Path s t) (hterm : m.Terminal s) : t = s := by
  induction hpath with
  | refl => rfl
  | tail _ hop ih =>
    subst ih
    rw [Allows, hterm] at hop
    cases hop

end StateMachine

-- ==== the task table

/-- `VALID_TRANSITIONS`. -/
def VALID_TRANSITIONS : TaskStatus → List TaskStatus
  | .created => [.assigned, .blocked, .rejected, .failed]
  | .assigned =>
    [.inProgress, .authRequired, .blocked, .cancelled, .failed,
      .interrupted, .suspended]
  | .inProgress =>
    [.inReview, .awaitingInput, .authRequired, .blocked, .cancelled,
      .failed, .interrupted, .suspended]
  -- back to `inProgress` is rework
  | .inReview => [.completed, .inProgress, .blocked, .cancelled]
  | .awaitingInput => [.inProgress, .cancelled]
  | .authRequired => [.assigned, .cancelled]
  -- an escalated review's answer rejoins the review it came from
  | .blocked => [.assigned, .cancelled, .inReview]
  | .failed => [.assigned, .cancelled]
  | .interrupted => [.assigned, .cancelled]
  | .suspended => [.assigned, .cancelled]
  | .completed => []
  | .cancelled => []
  | .rejected => []

def taskMachine : StateMachine TaskStatus where
  transitions := VALID_TRANSITIONS

def validateTransition (current target : TaskStatus) : Except (TaskStatus × TaskStatus) Unit :=
  taskMachine.validate current target

/-- Three statuses are terminal, and no others: COMPLETED, CANCELLED and
REJECTED. -/
theorem terminal_iff (s : TaskStatus) :
    taskMachine.Terminal s ↔ s = .completed ∨ s = .cancelled ∨ s = .rejected := by
  cases s <;> decide

/-- COMPLETED has one way in, the review. -/
theorem completed_only_from_inReview {s : TaskStatus}
    (hop : taskMachine.Allows s .completed) : s = .inReview := by
  revert hop
  cases s <;> decide

/-- No hop leads back to CREATED. -/
theorem not_allows_created (s : TaskStatus) : ¬ taskMachine.Allows s .created := by
  cases s <;> decide

-- ==== path finding

namespace StateMachine

variable {σ : Type} [DecidableEq σ]

/-- `came_from[state]`. -/
def cameFrom (links : List (σ × σ)) (state : σ) : Option σ :=
  (links.find? fun link => link.1 = state).map Prod.snd

/-- The walk back along `came_from`; `hops` is the path found so far, in
order. -/
def walkBack (links : List (σ × σ)) (current : σ) : Nat → σ → List σ → List σ
  | 0, _, hops => hops
  | fuel + 1, cursor, hops =>
    match cameFrom links cursor with
    | none => hops
    | some previous =>
      if previous = current then hops
      else walkBack links current fuel previous (previous :: hops)

/-- `queue` is yet to be expanded, `seen` has been discovered, and `links` is `came_from`. -/
structure Search (σ : Type) where
  queue : List σ
  seen : List σ
  links : List (σ × σ)

def discover (noTransit : List σ) (current target state : σ) : List σ → Search σ → List σ ⊕ Search σ
  | [], search => .inr search
  | nxt :: rest, search =>
    if nxt ∈ search.seen then discover noTransit current target state rest search
    else
      let links := (nxt, state) :: search.links
      if nxt = target then .inl (walkBack links current links.length target [target])
      else
        discover noTransit current target state rest
          { queue := if nxt ∈ noTransit then search.queue else search.queue ++ [nxt]
            seen := nxt :: search.seen
            links := links }

/-- The search; `fuel` counts the states that are left to expand. -/
def search (m : StateMachine σ) (noTransit : List σ) (current target : σ) :
    Nat → Search σ → Option (List σ)
  | 0, _ => none
  | fuel + 1, s =>
    match s.queue with
    | [] => none
    | state :: queue =>
      match discover noTransit current target state (m.transitions state)
          { s with queue := queue } with
      | .inl hops => some hops
      | .inr s => m.search noTransit current target fuel s

/-- Over a machine of `states` states. -/
def pathTo (m : StateMachine σ) (noTransit : List σ) (states : Nat) (current target : σ) :
    Option (List σ) :=
  if current = target then some []
  else
    m.search noTransit current target states
      { queue := [current], seen := [current], links := [] }

end StateMachine

-- ==== the plan table

/-- `VALID_TRANSITIONS` of a plan. -/
def planTransitions : PlanStatus → List PlanStatus
  | .planning => [.draft, .pendingReview, .superseded, .failed]
  | .draft => [.pendingReview, .superseded, .failed]
  | .pendingReview => [.draft, .approved, .rejected, .superseded, .failed]
  | .approved => [.skeleton, .superseded, .failed]
  | .skeleton => [.executing, .superseded, .failed]
  | .executing => [.integrating, .superseded, .failed]
  | .integrating => [.executing, .evaluating, .superseded, .failed]
  | .evaluating => [.executing, .completed, .superseded, .failed]
  | .completed => []
  | .rejected => []
  | .superseded => []
  | .failed => []

def planMachine : StateMachine PlanStatus where
  transitions := planTransitions

/-- Delivery is a verdict, never a walked hop. -/
def transitionPath (current target : PlanStatus) : Option (List PlanStatus) :=
  if target = .completed then none else planMachine.pathTo [] 12 current target

def Hops : PlanStatus → List PlanStatus → Prop
  | _, [] => True
  | current, hop :: rest => planMachine.Allows current hop ∧ Hops hop rest

instance Hops.decidable : ∀ current path, Decidable (Hops current path)
  | _, [] => isTrue trivial
  | current, hop :: rest =>
    have := Hops.decidable hop rest
    inferInstanceAs (Decidable (planMachine.Allows current hop ∧ Hops hop rest))

/-- What a walk is handed: hops in the table, none the delivery, from the plan's state to its
goal. -/
theorem transitionPath_sound {current target : PlanStatus} {path : List PlanStatus}
    (h : transitionPath current target = some path) :
    Hops current path ∧ .completed ∉ path ∧ path.getLastD current = target := by
  have hall : ∀ path ∈ transitionPath current target,
      Hops current path ∧ .completed ∉ path ∧ path.getLastD current = target := by
    cases current <;> cases target <;> decide
  exact hall path h

theorem not_terminal_of_allows {current target : PlanStatus}
    (h : planMachine.Allows current target) : current.terminal = false := by
  revert h
  cases current <;> cases target <;> decide

example : transitionPath .approved .integrating = some [.skeleton, .executing, .integrating] := by
  decide

open List

-- ==== fields

structure ExpectedArtifact where
  type : ArtifactType
  path : String
  deriving DecidableEq

structure AcceptanceCriterion where
  description : String
  met : Bool := false
  deriving DecidableEq

/-- `metadata` pairs a key with the JSON text of its value; instants are microseconds. -/
structure TaskFields where
  id : Uuid
  title : String
  description : String
  type : TaskType
  priority : Priority := .medium
  project : String
  blockedReason : Option BlockedReason := none
  planId : Option Uuid := none
  planItemId : Option Uuid := none
  createdBy : String
  requestedByUserId : Option String := none
  assignedTo : Option String := none
  reviewers : List String := []
  dependencies : List String := []
  artifactsExpected : List ExpectedArtifact := []
  acceptanceCriteria : List AcceptanceCriterion := []
  estimatedComplexity : Complexity := .medium
  stakes : Stakes := .normal
  budgetLimit : Rat := 0
  deadline : Option String := none
  maxRetries : Int := 1
  status : TaskStatus := .created
  parentTaskId : Option String := none
  delegationChain : List String := []
  taskStructure : Option TaskStructure := none
  coordinationTopology : CoordinationTopology := .auto
  source : Option TaskSource := none
  middlewareOverride : Option (List String) := none
  metadata : List (String × String) := []
  hardCeiling : Option Rat := none
  hardTokenCeiling : Option Int := none
  forecastId : Option Uuid := none
  createdAt : Int
  deriving DecidableEq

-- ==== field checks

/-- Every value with a rule of its own, in declaration order. -/
def TaskFields.checkedFields (f : TaskFields) : List (FieldLoc × FieldValue) :=
  [(["title"], .text f.title), (["description"], .text f.description),
    (["project"], .text f.project), (["created_by"], .text f.createdBy)] ++
  f.requestedByUserId.toList.map (fun s => (["requested_by_user_id"], .text s)) ++
  f.assignedTo.toList.map (fun s => (["assigned_to"], .text s)) ++
  indexed "reviewers" f.reviewers ++
  indexed "dependencies" f.dependencies ++
  f.artifactsExpected.zipIdx.map
    (fun (a, i) => (["artifacts_expected", toString i, "path"], .text a.path)) ++
  f.acceptanceCriteria.zipIdx.map
    (fun (c, i) =>
      (["acceptance_criteria", toString i, "description"], .text c.description)) ++
  [(["budget_limit"], .amount f.budgetLimit),
    (["max_retries"], .amount f.maxRetries)] ++
  f.parentTaskId.toList.map (fun s => (["parent_task_id"], .text s)) ++
  indexed "delegation_chain" f.delegationChain ++
  indexed "middleware_override" (f.middlewareOverride.getD []) ++
  f.hardCeiling.toList.map (fun q => (["hard_ceiling"], .amount q)) ++
  f.hardTokenCeiling.toList.map (fun n => (["hard_token_ceiling"], .amount n))

structure TaskFields.FieldsOk (f : TaskFields) : Prop where
  title : notBlank f.title = true
  description : notBlank f.description = true
  project : notBlank f.project = true
  created_by : notBlank f.createdBy = true
  requested_by : ∀ u, f.requestedByUserId = some u → notBlank u = true
  assigned_to : ∀ a, f.assignedTo = some a → notBlank a = true
  reviewers : ∀ r ∈ f.reviewers, notBlank r = true
  dependencies : ∀ d ∈ f.dependencies, notBlank d = true
  artifacts : ∀ a ∈ f.artifactsExpected, notBlank a.path = true
  criteria : ∀ c ∈ f.acceptanceCriteria, notBlank c.description = true
  budget : 0 ≤ f.budgetLimit
  retries : (0 : Rat) ≤ f.maxRetries
  parent : ∀ p, f.parentTaskId = some p → notBlank p = true
  delegation : ∀ d ∈ f.delegationChain, notBlank d = true
  middleware : ∀ m ∈ f.middlewareOverride.getD [], notBlank m = true
  ceiling : ∀ q, f.hardCeiling = some q → 0 ≤ q
  token_ceiling : ∀ n, f.hardTokenCeiling = some n → (0 : Rat) ≤ n

theorem TaskFields.checkedFields_ok_iff (f : TaskFields) :
    (∀ c ∈ f.checkedFields, c.2.ok = true) ↔ f.FieldsOk := by
  have ha : (∀ c ∈ f.artifactsExpected.zipIdx.map (fun p =>
        (["artifacts_expected", toString p.2, "path"], FieldValue.text p.1.path)),
        c.2.ok = true) ↔ ∀ a ∈ f.artifactsExpected, notBlank a.path = true :=
    indexed_records_ok_iff (fun i => ["artifacts_expected", toString i, "path"])
      ExpectedArtifact.path _
  have hc : (∀ c ∈ f.acceptanceCriteria.zipIdx.map (fun p =>
        (["acceptance_criteria", toString p.2, "description"],
          FieldValue.text p.1.description)),
        c.2.ok = true) ↔ ∀ c ∈ f.acceptanceCriteria, notBlank c.description = true :=
    indexed_records_ok_iff (fun i => ["acceptance_criteria", toString i, "description"])
      AcceptanceCriterion.description _
  have ht : (∀ c ∈ f.hardTokenCeiling.toList.map
        (fun (n : Int) => (["hard_token_ceiling"], FieldValue.amount n)), c.2.ok = true) ↔
      ∀ n, f.hardTokenCeiling = some n → (0 : Rat) ≤ n := by
    cases f.hardTokenCeiling <;> simp [FieldValue.ok]
  unfold TaskFields.checkedFields
  simp only [forall_mem_append, forall_mem_cons, not_mem_nil, and_true,
    indexed_ok_iff, optional_ok_iff, optional_amount_ok_iff, ha, hc,
    FieldValue.ok_amount, false_implies, implies_true, ht]
  constructor
  · rintro ⟨⟨⟨⟨⟨⟨⟨⟨⟨⟨⟨⟨⟨httl, hd, hproj, hcreated⟩, hr⟩, hassigned⟩,
      hreviewers⟩, hdeps⟩, ha⟩, hc⟩, hb, hretries⟩, hp⟩,
      hdelegation⟩, hm⟩, hceil⟩, htoken⟩
    exact ⟨httl, hd, hproj, hcreated, hr, hassigned, hreviewers,
      hdeps, ha, hc, hb, hretries, hp, hdelegation, hm,
      hceil, htoken⟩
  · intro h
    exact ⟨⟨⟨⟨⟨⟨⟨⟨⟨⟨⟨⟨⟨h.title, h.description, h.project, h.created_by⟩, h.requested_by⟩,
      h.assigned_to⟩, h.reviewers⟩, h.dependencies⟩, h.artifacts⟩, h.criteria⟩, h.budget,
      h.retries⟩, h.parent⟩, h.delegation⟩, h.middleware⟩, h.ceiling⟩, h.token_ceiling⟩

def TaskFields.fieldErrors (f : TaskFields) : List FieldLoc :=
  brokenFields f.checkedFields

-- ==== refusals

/-- Why `Task.model_validate` refuses a payload; field errors come before cross-field rules. -/
inductive TaskError
  | fields (locs : List FieldLoc)
  | deadlineBlank
  | deadlineNotIso (deadline : String)
  | selfDependency (id : Uuid)
  | duplicates (field : String) (entries : List String)
  | selfParent (id : Uuid)
  | assigneeInDelegationChain (assignee : String)
  | createdWithAssignee
  | assigneeRequired (status : TaskStatus)
  | blockedReasonOutlivesPark (reason : BlockedReason) (status : TaskStatus)
  | planItemWithoutPlan
  deriving DecidableEq

-- ==== cross-field checks

/-- Statuses that name someone doing the work. -/
def requiresAssignee : List TaskStatus :=
  [.assigned, .inProgress, .inReview, .completed, .authRequired, .awaitingInput]

/-- `validate_iso8601_deadline`. -/
def validateIso8601Deadline (deadline : Option String) : Except TaskError Unit :=
  match deadline with
  | none => .ok ()
  | some d => do
    require (notBlank d) .deadlineBlank
    require (isValidIsoDatetime d) (.deadlineNotIso d)

def checkCollections (f : TaskFields) : Except TaskError Unit := do
  require (f.id.text ∉ f.dependencies) (.selfDependency f.id)
  require (duplicates f.dependencies = [])
    (.duplicates "dependencies" (duplicates f.dependencies))
  require (duplicates f.reviewers = [])
    (.duplicates "reviewers" (duplicates f.reviewers))

def checkDelegation (f : TaskFields) : Except TaskError Unit := do
  require (f.parentTaskId ≠ some f.id.text) (.selfParent f.id)
  require (duplicates f.delegationChain = [])
    (.duplicates "delegation_chain" (duplicates f.delegationChain))
  match f.assignedTo with
  | none => .ok ()
  | some a => require (a ∉ f.delegationChain) (.assigneeInDelegationChain a)

def checkAssignmentConsistency (f : TaskFields) : Except TaskError Unit := do
  require (f.status = .created → f.assignedTo = none) .createdWithAssignee
  require (f.status ∈ requiresAssignee → f.assignedTo ≠ none)
    (.assigneeRequired f.status)

def checkBlockedReasonPairing (f : TaskFields) : Except TaskError Unit :=
  match f.blockedReason with
  | none => .ok ()
  | some r =>
    require (f.status = .blocked) (.blockedReasonOutlivesPark r f.status)

def checkPlanLinkage (f : TaskFields) : Except TaskError Unit :=
  require (f.planItemId ≠ none → f.planId ≠ none) .planItemWithoutPlan

/-- `Task.model_validate`, in its order; `malformed` are the entries no coercion accepts. -/
def TaskFields.check (f : TaskFields) (malformed : List FieldLoc) : Except TaskError Unit := do
  require (malformed ++ f.fieldErrors = []) (.fields (malformed ++ f.fieldErrors))
  validateIso8601Deadline f.deadline
  checkCollections f
  checkDelegation f
  checkAssignmentConsistency f
  checkBlockedReasonPairing f
  checkPlanLinkage f

-- ==== coherence

structure TaskFields.Coherent (f : TaskFields) : Prop where
  fields : ∀ c ∈ f.checkedFields, c.2.ok = true
  deadline : ∀ d, f.deadline = some d →
    notBlank d = true ∧ isValidIsoDatetime d = true
  no_self_dependency : f.id.text ∉ f.dependencies
  dependencies_nodup : f.dependencies.Nodup
  reviewers_nodup : f.reviewers.Nodup
  not_own_parent : f.parentTaskId ≠ some f.id.text
  delegation_nodup : f.delegationChain.Nodup
  assignee_not_delegate : ∀ a, f.assignedTo = some a → a ∉ f.delegationChain
  created_unassigned : f.status = .created → f.assignedTo = none
  assignee_named : f.status ∈ requiresAssignee → f.assignedTo ≠ none
  reason_names_park : ∀ r, f.blockedReason = some r → f.status = .blocked
  plan_linked : f.planItemId ≠ none → f.planId ≠ none

theorem validateIso8601Deadline_ok_iff (deadline : Option String) :
    validateIso8601Deadline deadline = .ok () ↔
      ∀ d, deadline = some d → notBlank d = true ∧ isValidIsoDatetime d = true := by
  cases deadline <;> simp [validateIso8601Deadline]

theorem checkDelegation_ok_iff (f : TaskFields) : checkDelegation f = .ok () ↔
      f.parentTaskId ≠ some f.id.text ∧ f.delegationChain.Nodup ∧
        ∀ a, f.assignedTo = some a → a ∉ f.delegationChain := by
  unfold checkDelegation
  cases f.assignedTo <;> simp [duplicates_eq_nil_iff]

theorem checkBlockedReasonPairing_ok_iff (f : TaskFields) : checkBlockedReasonPairing f = .ok () ↔
      ∀ r, f.blockedReason = some r → f.status = .blocked := by
  unfold checkBlockedReasonPairing
  cases f.blockedReason <;> simp

theorem TaskFields.check_ok_iff (f : TaskFields) (malformed : List FieldLoc) :
    f.check malformed = .ok () ↔ malformed = [] ∧ f.Coherent := by
  unfold TaskFields.check checkCollections checkAssignmentConsistency checkPlanLinkage
  simp only [bind_unit_ok_iff, require_ok_iff, append_eq_nil_iff,
    TaskFields.fieldErrors, brokenFields_eq_nil_iff, validateIso8601Deadline_ok_iff,
    duplicates_eq_nil_iff, checkDelegation_ok_iff,
    checkBlockedReasonPairing_ok_iff]
  constructor
  · rintro ⟨⟨hm, hf⟩, hdl, ⟨hself, hdeps, hrev⟩, ⟨hp, hc, hd⟩,
      ⟨hcreated, hreq⟩, hr, hplan⟩
    exact ⟨hm, hf, hdl, hself, hdeps, hrev, hp, hc, hd, hcreated, hreq, hr, hplan⟩
  · rintro ⟨hm, h⟩
    exact ⟨⟨hm, h.fields⟩, h.deadline,
      ⟨h.no_self_dependency, h.dependencies_nodup, h.reviewers_nodup⟩,
      ⟨h.not_own_parent, h.delegation_nodup, h.assignee_not_delegate⟩,
      ⟨h.created_unassigned, h.assignee_named⟩, h.reason_names_park,
      h.plan_linked⟩

instance (f : TaskFields) : Decidable f.Coherent :=
  decidable_of_iff (f.check [] = .ok ()) (by simp [TaskFields.check_ok_iff])

-- ==== the task

structure Task extends TaskFields where
  coherent : toTaskFields.Coherent
  deriving DecidableEq

theorem Task.eq_of_fields {s t : Task} (h : s.toTaskFields = t.toTaskFields) : s = t := by
  cases s
  cases h
  rfl

def Task.modelValidate (f : TaskFields) (malformed : List FieldLoc) : Except TaskError Task :=
  match h : f.check malformed with
  | .error e => .error e
  | .ok () => .ok ⟨f, ((f.check_ok_iff malformed).1 h).2⟩

theorem Task.modelValidate_ok_iff (f : TaskFields) (malformed : List FieldLoc) (t : Task) :
    Task.modelValidate f malformed = .ok t ↔
      malformed = [] ∧ t.toTaskFields = f := by
  unfold Task.modelValidate
  split
  next e he =>
    have hbad : ¬ f.check malformed = .ok () := by rw [he]; simp
    rw [TaskFields.check_ok_iff] at hbad
    constructor
    · intro h
      cases h
    · rintro ⟨hm, rfl⟩
      exact absurd ⟨hm, t.coherent⟩ hbad
  next hok =>
    have hgood := (f.check_ok_iff malformed).1 hok
    constructor
    · intro h
      cases h
      exact ⟨hgood.1, rfl⟩
    · rintro ⟨-, hf⟩
      exact congrArg Except.ok (Task.eq_of_fields hf.symm)

-- ==== updates

/-- A field with the value it coerces to or with one no coercion accepts, or a key the model
lacks. -/
inductive TaskFieldUpdate
  | id (v : Uuid)
  | title (v : String)
  | description (v : String)
  | type (v : TaskType)
  | priority (v : Priority)
  | project (v : String)
  | blockedReason (v : Option BlockedReason)
  | planId (v : Option Uuid)
  | planItemId (v : Option Uuid)
  | createdBy (v : String)
  | requestedByUserId (v : Option String)
  | assignedTo (v : Option String)
  | reviewers (v : List String)
  | dependencies (v : List String)
  | artifactsExpected (v : List ExpectedArtifact)
  | acceptanceCriteria (v : List AcceptanceCriterion)
  | estimatedComplexity (v : Complexity)
  | stakes (v : Stakes)
  | budgetLimit (v : Rat)
  | deadline (v : Option String)
  | maxRetries (v : Int)
  | status (v : TaskStatus)
  | parentTaskId (v : Option String)
  | delegationChain (v : List String)
  | taskStructure (v : Option TaskStructure)
  | coordinationTopology (v : CoordinationTopology)
  | source (v : Option TaskSource)
  | middlewareOverride (v : Option (List String))
  | metadata (v : List (String × String))
  | hardCeiling (v : Option Rat)
  | hardTokenCeiling (v : Option Int)
  | forecastId (v : Option Uuid)
  | createdAt (v : Int)
  | malformed (key : String)
  | unknown (key : String)
  deriving DecidableEq

def TaskFieldUpdate.key : TaskFieldUpdate → String
  | .id _ => "id"
  | .title _ => "title"
  | .description _ => "description"
  | .type _ => "type"
  | .priority _ => "priority"
  | .project _ => "project"
  | .blockedReason _ => "blocked_reason"
  | .planId _ => "plan_id"
  | .planItemId _ => "plan_item_id"
  | .createdBy _ => "created_by"
  | .requestedByUserId _ => "requested_by_user_id"
  | .assignedTo _ => "assigned_to"
  | .reviewers _ => "reviewers"
  | .dependencies _ => "dependencies"
  | .artifactsExpected _ => "artifacts_expected"
  | .acceptanceCriteria _ => "acceptance_criteria"
  | .estimatedComplexity _ => "estimated_complexity"
  | .stakes _ => "stakes"
  | .budgetLimit _ => "budget_limit"
  | .deadline _ => "deadline"
  | .maxRetries _ => "max_retries"
  | .status _ => "status"
  | .parentTaskId _ => "parent_task_id"
  | .delegationChain _ => "delegation_chain"
  | .taskStructure _ => "task_structure"
  | .coordinationTopology _ => "coordination_topology"
  | .source _ => "source"
  | .middlewareOverride _ => "middleware_override"
  | .metadata _ => "metadata"
  | .hardCeiling _ => "hard_ceiling"
  | .hardTokenCeiling _ => "hard_token_ceiling"
  | .forecastId _ => "forecast_id"
  | .createdAt _ => "created_at"
  | .malformed key => key
  | .unknown key => key

/-- `_VALID_TASK_FIELDS` holds the key. -/
def TaskFieldUpdate.known : TaskFieldUpdate → Bool
  | .unknown _ => false
  | _ => true

/-- `dict.update` with one entry; a malformed value is left to `TaskFieldUpdate.malformedLoc?`. -/
def TaskFields.set (f : TaskFields) : TaskFieldUpdate → TaskFields
  | .id v => { f with id := v }
  | .title v => { f with title := v }
  | .description v => { f with description := v }
  | .type v => { f with type := v }
  | .priority v => { f with priority := v }
  | .project v => { f with project := v }
  | .blockedReason v => { f with blockedReason := v }
  | .planId v => { f with planId := v }
  | .planItemId v => { f with planItemId := v }
  | .createdBy v => { f with createdBy := v }
  | .requestedByUserId v => { f with requestedByUserId := v }
  | .assignedTo v => { f with assignedTo := v }
  | .reviewers v => { f with reviewers := v }
  | .dependencies v => { f with dependencies := v }
  | .artifactsExpected v => { f with artifactsExpected := v }
  | .acceptanceCriteria v => { f with acceptanceCriteria := v }
  | .estimatedComplexity v => { f with estimatedComplexity := v }
  | .stakes v => { f with stakes := v }
  | .budgetLimit v => { f with budgetLimit := v }
  | .deadline v => { f with deadline := v }
  | .maxRetries v => { f with maxRetries := v }
  | .status v => { f with status := v }
  | .parentTaskId v => { f with parentTaskId := v }
  | .delegationChain v => { f with delegationChain := v }
  | .taskStructure v => { f with taskStructure := v }
  | .coordinationTopology v => { f with coordinationTopology := v }
  | .source v => { f with source := v }
  | .middlewareOverride v => { f with middlewareOverride := v }
  | .metadata v => { f with metadata := v }
  | .hardCeiling v => { f with hardCeiling := v }
  | .hardTokenCeiling v => { f with hardTokenCeiling := v }
  | .forecastId v => { f with forecastId := v }
  | .createdAt v => { f with createdAt := v }
  | .malformed _ => f
  | .unknown _ => f

/-- `payload.update(updates)`. -/
def TaskFields.merge (f : TaskFields) (updates : List TaskFieldUpdate) : TaskFields :=
  updates.foldl TaskFields.set f

/-- Where a payload is malformed; a key the model does not have is refused (`extra="forbid"`). -/
def TaskFieldUpdate.malformedLoc? : TaskFieldUpdate → Option FieldLoc
  | .malformed key => some [key]
  | .unknown key => some [key]
  | _ => none

def malformedLocs (updates : List TaskFieldUpdate) : List FieldLoc :=
  updates.filterMap TaskFieldUpdate.malformedLoc?

/-- Keys no update may carry leave their fields alone. -/
structure TaskFields.SameIdentity (f g : TaskFields) : Prop where
  id : g.id = f.id
  createdBy : g.createdBy = f.createdBy
  status : g.status = f.status

/-- An update that names none of `id`, `created_by`, `status` touches none
of them. -/
theorem TaskFields.merge_sameIdentity (f : TaskFields) (updates : List TaskFieldUpdate)
    (hkeys : ∀ u ∈ updates, u.key ∉ ["id", "created_by", "status"]) :
    f.SameIdentity (f.merge updates) := by
  induction updates generalizing f with
  | nil => exact ⟨rfl, rfl, rfl⟩
  | cons u rest ih =>
    have hrest := ih (f.set u) fun v hv => hkeys v (mem_cons_of_mem u hv)
    have hu := hkeys u mem_cons_self
    have hset : f.SameIdentity (f.set u) := by
      cases u
      case id => exact absurd (by simp [TaskFieldUpdate.key]) hu
      case createdBy => exact absurd (by simp [TaskFieldUpdate.key]) hu
      case status => exact absurd (by simp [TaskFieldUpdate.key]) hu
      all_goals exact ⟨rfl, rfl, rfl⟩
    exact ⟨hrest.id.trans hset.id, hrest.createdBy.trans hset.createdBy,
      hrest.status.trans hset.status⟩

-- ==== transitions

/-- Why `with_transition` raises. -/
inductive TransitionError
  | statusOverride
  | invalidTransition (current target : TaskStatus)
  | validation (e : TaskError)
  deriving DecidableEq

/-- The payload `with_transition` validates. -/
def TaskFields.transitionPayload (f : TaskFields) (target : TaskStatus)
    (overrides : List TaskFieldUpdate) : TaskFields :=
  -- leaving BLOCKED ends the park, so its reason goes before the overrides
  let payload := if target ≠ .blocked then { f with blockedReason := none } else f
  { payload.merge overrides with status := target }

def Task.withTransition (task : Task) (target : TaskStatus)
    (overrides : List TaskFieldUpdate) : Except TransitionError Task :=
  if "status" ∈ overrides.map TaskFieldUpdate.key then
    .error .statusOverride
  else
    match validateTransition task.status target with
    | .error (current, target) => .error (.invalidTransition current target)
    | .ok () =>
      match Task.modelValidate (task.toTaskFields.transitionPayload target overrides)
          (malformedLocs overrides) with
      | .error e => .error (.validation e)
      | .ok t => .ok t

theorem Task.withTransition_ok_iff (task : Task) (target : TaskStatus)
    (overrides : List TaskFieldUpdate) (t : Task) : task.withTransition target overrides = .ok t ↔
      "status" ∉ overrides.map TaskFieldUpdate.key ∧
        taskMachine.Allows task.status target ∧ malformedLocs overrides = [] ∧
        t.toTaskFields = task.toTaskFields.transitionPayload target overrides := by
  have hval := taskMachine.validate_ok_iff task.status target
  have hm := Task.modelValidate_ok_iff
    (task.toTaskFields.transitionPayload target overrides)
    (malformedLocs overrides) t
  unfold Task.withTransition
  split
  next hs =>
    constructor
    · intro h
      cases h
    · rintro ⟨hno, -⟩
      exact absurd hs hno
  next hs =>
    unfold validateTransition
    split
    next hop =>
      rw [hop] at hval
      constructor
      · intro h
        cases h
      · rintro ⟨-, ha, -⟩
        exact absurd (hval.2 ha) (by simp)
    next hop =>
      have ha := hval.1 hop
      rw [and_iff_right hs, and_iff_right ha, ← hm]
      split
      next e he =>
        rw [he]
        constructor <;> (intro h; cases h)
      next u hu => rw [hu, Except.ok.injEq, Except.ok.injEq]

end Synthorg.Core
