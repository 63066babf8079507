/-
The decomposition service (engine/decomposition/service.py,
_split_decision.py, _subtask_build.py, _child_failure.py).

A level is planned, its tasks are built, and each oversized subtask is decomposed again; a unit
that split is then re-described, in definition and task alike, as the assembly of what was split
out of it.

The recursion is bounded by the depth budget, and fuel stands for the levels
that are left of it.
-/
import Synthorg.Decomposition.Models
import Mathlib.Algebra.Ring.Nat

namespace Synthorg.Decomposition

section
open Synthorg.Core Lib

inductive GraphError
  | unknownDependency (id dependency : String)
  | cycle
  deriving DecidableEq

structure DependencyGraph where
  subtasks : List SubtaskDefinition

abbrev InDegree := String → Int

namespace DependencyGraph

variable (g : DependencyGraph)

def subtaskIds : List String :=
  g.subtasks.map SubtaskDefinition.id

/-- `_reverse_adjacency`: what a unit depends on. -/
def dependencies : String → List String :=
  Keyed.edges SubtaskDefinition.id SubtaskDefinition.dependencies g.subtasks

/-- The units that depend on one, once per edge. -/
def adjacency (id : String) : List String :=
  g.subtasks.flatMap fun s => (s.dependencies.filter (· = id)).map fun _ => s.id

def checkReferences (s : SubtaskDefinition) : Except GraphError Unit :=
  requireAll (fun d => require (d ∈ g.subtaskIds) (.unknownDependency s.id d))
    s.dependencies

def checkMissingReferences : Except GraphError Unit :=
  requireAll g.checkReferences g.subtasks

/-- The loop of one depth-first search: each unit on the way down beside the number of its edges
followed. It is looked at once per edge and once more, so the fuel is never spent. -/
def visitLoop : Nat → List (String × Nat) → List String → List String →
    Except GraphError (List String)
  | _, [], visited, _ => .ok visited
  | 0, _ :: _, _, _ => .error .cycle
  | fuel + 1, (node, idx) :: stack, visited, inStack =>
    let visited := if idx = 0 then node :: visited else visited
    let inStack := if idx = 0 then node :: inStack else inStack
    match (g.dependencies node)[idx]? with
    | none => visitLoop fuel stack visited (inStack.filter (· ≠ node))
    | some dep =>
      if dep ∈ inStack then .error .cycle
      else if dep ∈ visited then visitLoop fuel ((node, idx + 1) :: stack) visited inStack
      else visitLoop fuel ((dep, 0) :: (node, idx + 1) :: stack) visited inStack

/-- The searches of `_check_cycles`, one from each unit not visited yet. -/
def visitFrom (fuel : Nat) : List String → List String → Except GraphError Unit
  | [], _ => .ok ()
  | start :: rest, visited =>
    if start ∈ visited then visitFrom fuel rest visited
    else do
      let visited ← g.visitLoop fuel [(start, 0)] visited []
      visitFrom fuel rest visited

def checkCycles : Except GraphError Unit :=
  g.visitFrom ((g.subtasks.map fun s => s.dependencies.length + 1).sum + 1) g.subtaskIds []

def validate : Except GraphError Unit := do
  g.checkMissingReferences
  g.checkCycles

/-- Counted up from zero over the edges. -/
def inDegree : InDegree := fun id =>
  ((g.subtasks.filter fun s => s.id = id).map fun s => s.dependencies.length).sum

/-- `in_degree[id] -= 1`. -/
def decrement (degree : InDegree) (id : String) : InDegree :=
  Function.update degree id (degree id - 1)

def release (degree : InDegree) (node : String) : InDegree :=
  (g.adjacency node).foldl decrement degree

/-- The loop of `parallel_groups`; a round emits a unit at least, so the fuel is enough. -/
def groupsLoop : Nat → InDegree → List String → Except GraphError (List (List String))
  | _, _, [] => .ok []
  | 0, _, _ :: _ => .error .cycle
  | fuel + 1, degree, node :: others =>
    let remaining := node :: others
    let ready := (remaining.filter fun id => degree id = 0).insertionSort (· ≤ ·)
    if ready = [] then .error .cycle
    else do
      let groups ← groupsLoop fuel (ready.foldl g.release degree)
        (remaining.filter (· ∉ ready))
      .ok (ready :: groups)

def parallelGroups : Except GraphError (List (List String)) := do
  g.checkMissingReferences
  g.groupsLoop g.subtaskIds.dedup.length g.inDegree g.subtaskIds.dedup

/-- One dependent of an emitted unit: a heap entry once its in-degree is 0. -/
def discover (state : InDegree × List String) (id : String) : InDegree × List String :=
  let degree := decrement state.1 id
  (degree, if degree id = 0 then state.2.orderedInsert (· ≤ ·) id else state.2)

/-- The loop of `topological_sort`: pop the least, emit it, release its dependents. -/
def sortLoop : Nat → InDegree × List String → List String
  | 0, _ => []
  | _ + 1, (_, []) => []
  | fuel + 1, (degree, node :: heap) =>
    node :: sortLoop fuel ((g.adjacency node).foldl discover (degree, heap))

/-- Dependencies come before dependents. -/
def topologicalSort : Except GraphError (List String) := do
  g.checkMissingReferences
  let heap := (g.subtaskIds.filter fun id => g.inDegree id = 0).insertionSort (· ≤ ·)
  let result := g.sortLoop g.subtaskIds.length (g.inDegree, heap)
  require (result.length = g.subtaskIds.length) .cycle
  .ok result

end DependencyGraph

end

section
open Synthorg.Core

-- ==== atomicity

def maxSatisfiedCriteria : Int := 1

/-- An oversized subtask names the rule that fired and both its numbers. -/
inductive AtomicityAssessment
  | atomic
  | oversized (condition : String) (observed : Nat) (limit : Int)

def AtomicityAssessment.isOversized : AtomicityAssessment → Bool
  | .atomic => false
  | .oversized _ _ _ => true

structure SubtaskAtomicityPolicy where
  maxExpectedArtifacts : Int
  maxAcceptanceCriteria : Int
  deriving DecidableEq

/-- The rules `assess` checks, in declaration order. -/
def SubtaskAtomicityPolicy.checks (policy : SubtaskAtomicityPolicy)
    (subtask : SubtaskDefinition) : List (String × Nat × Int) :=
  [("expected_artifacts", subtask.expectedArtifacts.length, policy.maxExpectedArtifacts),
    ("acceptance_criteria", subtask.acceptanceCriteria.length,
      policy.maxAcceptanceCriteria),
    ("satisfies", subtask.satisfies.length, maxSatisfiedCriteria)]

/-- The first rule to fire wins. -/
def SubtaskAtomicityPolicy.assess (policy : SubtaskAtomicityPolicy)
    (subtask : SubtaskDefinition) : AtomicityAssessment :=
  match (policy.checks subtask).find? fun c => c.2.2 < (c.2.1 : Int) with
  | none => .atomic
  | some (condition, observed, limit) => .oversized condition observed limit

def depthBackstop : String := "the depth backstop was reached"

def sessionsBackstop : String := "the tree's planning budget was spent"

def sessionCeilingBackstop : String :=
  "its planning session outran the per-session wall-clock ceiling"

def turnBudgetBackstop : String :=
  "its planning session used every turn without producing a plan"

def sessionBudgetBackstop : String :=
  "its planning session spent its whole token budget without producing a plan"

def stagnationBackstop : String :=
  "its planning session stopped making progress before producing a plan"

def plannerDeclined : String := "the planner could not split it further"

def unsplitReason (backstop : String) : AtomicityAssessment → Option String
  | .atomic => none
  | .oversized condition observed limit =>
    some <| "Still more than one agent's work: " ++ condition ++ " is " ++
      toString observed ++ " against a limit of " ++ toString limit ++ ", and " ++
      backstop ++ "."

-- ==== criteria

def stripBlanks (cs : List Char) : List Char :=
  ((cs.dropWhile isSpace).reverse.dropWhile isSpace).reverse

/-- `str.split`; `word` is what has been read of the current word, backwards. -/
def splitBlanks (word : List Char) : List Char → List (List Char)
  | [] => if word = [] then [] else [word.reverse]
  | c :: rest =>
    if isSpace c then
      if word = [] then splitBlanks [] rest else word.reverse :: splitBlanks [] rest
    else splitBlanks (c :: word) rest

/-- Over the interpreter's `str.lower`. -/
def criterionKey (lower : List Char → List Char) (text : String) : String :=
  String.ofList <|
    List.intercalate [' '] (splitBlanks [] (lower (stripBlanks text.toList)))

def uniqueCriteria (key : String → String) : List String → List String → List String
  | _, [] => []
  | seen, criterion :: rest =>
    if key criterion = "" ∨ key criterion ∈ seen then uniqueCriteria key seen rest
    else criterion :: uniqueCriteria key (key criterion :: seen) rest

def matchedCriteria (key : String → String) (claims objective : List String) : List String :=
  objective.filter fun criterion => key criterion ∈ claims.map key

-- ==== context

/-- `DEFAULT_MAX_DEPTH`, `DEFAULT_MAX_SUBTASKS`. -/
def defaultMaxDepth : Int := 5
def defaultMaxSubtasks : Int := 10

/-- `objectiveCriteria` is `none` where the caller left it unset. -/
structure DecompositionContext where
  maxSubtasks : Option Int := none
  maxDepth : Option Int := none
  currentDepth : Nat := 0
  address : List SubtreeStep := []
  objectiveCriteria : Option (List String) := none
  atomicity : Option SubtaskAtomicityPolicy := none

def depthBudget (context : DecompositionContext) : Int :=
  context.maxDepth.getD defaultMaxDepth

/-- A vocabulary the caller declared, an empty one included, or the objective's own. -/
def stampObjectiveCriteria (key : String → String) (task : Task)
    (context : DecompositionContext) : DecompositionContext :=
  let criteria := context.objectiveCriteria.getD
    (task.acceptanceCriteria.map AcceptanceCriterion.description)
  { context with objectiveCriteria := some (uniqueCriteria key [] criteria) }

/-- One level deeper, under `step`, answerable for what the unit claimed. -/
def childContext (key : String → String) (context : DecompositionContext)
    (step : SubtreeStep) (satisfied : List String) : DecompositionContext :=
  { context with
    currentDepth := context.currentDepth + 1
    address := context.address ++ [step]
    objectiveCriteria :=
      some (matchedCriteria key satisfied (context.objectiveCriteria.getD [])) }

-- ==== budgets

structure TreeSessionLedger where
  remaining : Int
  limit : Int := 0
  objectiveTaskId : Option String := none
  exhausted : Bool := false
  deepestLevel : Nat := 0
  unitsPlanned : Nat := 0

def TreeSessionLedger.take (ledger : TreeSessionLedger) : Bool × TreeSessionLedger :=
  if ledger.remaining ≤ 0 then (false, { ledger with exhausted := true })
  else (true, { ledger with remaining := ledger.remaining - 1 })

def TreeSessionLedger.recordLevel (ledger : TreeSessionLedger) (depth units : Nat) :
    TreeSessionLedger :=
  { ledger with
    deepestLevel := max ledger.deepestLevel depth
    unitsPlanned := ledger.unitsPlanned + units }

/-- The numbers of a `DecompositionProgress`. -/
structure ProgressSnapshot where
  sessionsSpent : Int
  sessionsLimit : Int
  deepestLevel : Nat
  unitsPlanned : Nat

def TreeSessionLedger.progress (ledger : TreeSessionLedger) : ProgressSnapshot where
  sessionsSpent := max (ledger.limit - ledger.remaining) 0
  sessionsLimit := ledger.limit
  deepestLevel := ledger.deepestLevel
  unitsPlanned := ledger.unitsPlanned

structure RecursionBudget where
  enabled : Bool
  policy : SubtaskAtomicityPolicy

def RecursionBudget.hasRoom (budget : RecursionBudget) (context : DecompositionContext) : Bool :=
  budget.enabled && decide ((context.currentDepth : Int) + 1 < depthBudget context)

/-- Never recurse. -/
def flatBudget : RecursionBudget where
  enabled := false
  policy := { maxExpectedArtifacts := 10, maxAcceptanceCriteria := 10 }

-- ==== settings

inductive SettingFault
  | unanswerable
  | unavailable

/-- `ConfigResolverProtocol`, on the `coordination` namespace. -/
structure ConfigResolver where
  getBool : String → Except SettingFault Bool
  getInt : String → Except SettingFault Int

def orFallback {α : Type} (fallback : α) (read : Except SettingFault α) : Except SettingFault α :=
  match read with
  | .error .unanswerable => .ok fallback
  | other => other

/-- `_bound`, and `tree_session_budget` on its own key: one setting, or its
default. -/
def boundSetting (resolver : Option ConfigResolver) (key : String) (fallback : Int) :
    Except SettingFault Int :=
  match resolver with
  | none => .ok fallback
  | some r => orFallback fallback (r.getInt key)

def declaredOr (declared : Option Int) (read : Except SettingFault Int) : Except SettingFault Int :=
  match declared with
  | some bound => .ok bound
  | none => read

/-- What the caller left open, from settings. -/
def resolveDecompositionBounds (resolver : Option ConfigResolver)
    (context : DecompositionContext) : Except SettingFault DecompositionContext := do
  let depth ← declaredOr context.maxDepth
    (boundSetting resolver "decomposition_max_depth" defaultMaxDepth)
  let width ← declaredOr context.maxSubtasks
    (boundSetting resolver "decomposition_max_subtasks" defaultMaxSubtasks)
  .ok { context with maxDepth := some depth, maxSubtasks := some width }

/-- Off wherever a setting cannot answer. -/
def resolveRecursionBudget (resolver : Option ConfigResolver) :
    Except SettingFault RecursionBudget :=
  match resolver with
  | none => .ok flatBudget
  | some r =>
    orFallback flatBudget do
      let enabled ← r.getBool "recursive_decomposition_enabled"
      if enabled then
        let artifacts ← r.getInt "subtask_max_artifacts"
        let criteria ← r.getInt "subtask_max_criteria"
        .ok {
          enabled := enabled
          policy := { maxExpectedArtifacts := artifacts, maxAcceptanceCriteria := criteria } }
      else .ok flatBudget

/-- `tree_session_budget`: `DEFAULT_TREE_MAX_SESSIONS` is 40. -/
def treeSessionBudget (resolver : Option ConfigResolver) : Except SettingFault Int :=
  boundSetting resolver "decomposition_tree_max_sessions" 40

variable (repr : String → String) (key : String → String)

-- ==== the refusal

def unmatchedClaims (claims objective : List String) : List String :=
  claims.filter fun claim => key claim ∉ objective.map key

def unnamedClaimMessage (objective : List String) (unit : SubtaskDefinition) : Option String :=
  match unmatchedClaims key unit.satisfies objective with
  | [] => none
  | invented =>
    some <| repr unit.title ++ " claims " ++ ", ".intercalate (invented.map repr) ++
      ", which the objective does not state, so nothing can tell what it advances."

def describeUnnamedClaims (units : List SubtaskDefinition) (objective : List String) :
    List String :=
  match units.filterMap (unnamedClaimMessage repr key objective) with
  | [] => []
  | messages =>
    if objective = [] then
      messages ++ ["This level is answerable for no objective criterion, so no item " ++
        "here may claim one: either the objective declared none, or the " ++
        "unit this level decomposes claimed none."]
    else
      messages ++ ["Copy the criteria an item advances verbatim from: " ++
        ", ".intercalate (objective.map repr)]

def uncoveredObjective (subtasks : List SubtaskDefinition) (objectiveCriteria : List String) :
    List String :=
  if subtasks.any fun sub => matchedCriteria key sub.satisfies objectiveCriteria ≠ [] then []
  else
    ["No subtask's 'satisfies' names any of the objective's " ++
      toString objectiveCriteria.length ++ " acceptance criteria, so this plan " ++
      "advances none of the objective and coverage cannot be checked. Tag " ++
      "each item with the objective criteria it advances, copied verbatim; " ++
      "a genuine pure-support item may claim none, but they cannot all be " ++
      "pure support"]

def combineGraphViolations : List String → Option String
  | [] => none
  | [message] => some message
  | messages =>
    some <| "The plan has " ++ toString messages.length ++
      " problems and they must all be fixed in the next submission, not one at a time: " ++
      " ".intercalate (messages.mapIdx fun index message =>
        "(" ++ toString (index + 1) ++ ") " ++ message ++ ".")

/-- An empty vocabulary skips the first rule and admits no claim under the second. -/
def validateCoverage (subtasks : List SubtaskDefinition) (objectiveCriteria : List String) :
    Except String Unit :=
  match combineGraphViolations
      ((if objectiveCriteria = [] then [] else uncoveredObjective key subtasks objectiveCriteria) ++
        describeUnnamedClaims repr key subtasks objectiveCriteria) with
  | none => .ok ()
  | some detail => .error detail

-- ==== what is accepted

theorem combineGraphViolations_eq_none_iff (messages : List String) :
    combineGraphViolations messages = none ↔ messages = [] := by
  match messages with
  | [] => simp [combineGraphViolations]
  | [message] => simp [combineGraphViolations]
  | first :: second :: rest => simp [combineGraphViolations]

theorem unnamedClaimMessage_eq_none_iff (objective : List String) (unit : SubtaskDefinition) :
    unnamedClaimMessage repr key objective unit = none ↔
      ∀ claim ∈ unit.satisfies, key claim ∈ objective.map key := by
  have he : unmatchedClaims key unit.satisfies objective = [] ↔
      ∀ claim ∈ unit.satisfies, key claim ∈ objective.map key := by
    unfold unmatchedClaims
    simp only [List.filter_eq_nil_iff, decide_eq_true_eq, not_not]
  unfold unnamedClaimMessage
  split <;> simp_all

theorem describeUnnamedClaims_eq_nil_iff (units : List SubtaskDefinition)
    (objective : List String) : describeUnnamedClaims repr key units objective = [] ↔
      ∀ unit ∈ units, ∀ claim ∈ unit.satisfies, key claim ∈ objective.map key := by
  have he : units.filterMap (unnamedClaimMessage repr key objective) = [] ↔
      ∀ unit ∈ units, ∀ claim ∈ unit.satisfies, key claim ∈ objective.map key := by
    simp only [List.filterMap_eq_nil_iff, unnamedClaimMessage_eq_none_iff]
  rw [← he]
  unfold describeUnnamedClaims
  split
  next hnil => simp [hnil]
  next hne =>
    constructor
    · intro h
      split at h <;> simp at h
    · intro h
      exact absurd h hne

theorem uncoveredObjective_eq_nil_iff (subtasks : List SubtaskDefinition)
    (criteria : List String) : uncoveredObjective key subtasks criteria = [] ↔
      ∃ sub ∈ subtasks, matchedCriteria key sub.satisfies criteria ≠ [] := by
  unfold uncoveredObjective
  split
  next hany => simpa using hany
  next hnone =>
    constructor
    · intro h
      cases h
    · intro h
      exact absurd (by simpa using h) hnone

theorem validateCoverage_ok_iff (subtasks : List SubtaskDefinition) (criteria : List String) :
    validateCoverage repr key subtasks criteria = .ok () ↔
      (criteria ≠ [] → ∃ sub ∈ subtasks, matchedCriteria key sub.satisfies criteria ≠ []) ∧
      ∀ sub ∈ subtasks, ∀ claim ∈ sub.satisfies, ∃ criterion ∈ criteria,
        key criterion = key claim := by
  have hv : validateCoverage repr key subtasks criteria = .ok () ↔
      (if criteria = [] then [] else uncoveredObjective key subtasks criteria) = [] ∧
        describeUnnamedClaims repr key subtasks criteria = [] := by
    rw [← List.append_eq_nil_iff, ← combineGraphViolations_eq_none_iff]
    unfold validateCoverage
    split
    next hnone => simp [hnone]
    next detail hsome => simp [hsome]
  rw [hv, describeUnnamedClaims_eq_nil_iff]
  refine and_congr ?_ (by simp only [List.mem_map])
  by_cases he : criteria = []
  · simp [he]
  · rw [if_neg he, uncoveredObjective_eq_nil_iff]
    exact ⟨fun h _ => h, fun h => h he⟩

-- ==== the descent

theorem matchedCriteria_sublist (claims objective : List String) :
    (matchedCriteria key claims objective).Sublist objective :=
  List.filter_sublist

end

open Synthorg.Core Lib

-- ==== failures

inductive SessionError
  | unsplittable
  | ceiling
  | turnBudget
  | sessionBudget
  | stagnation
  | other (reason : String)
  deriving DecidableEq

inductive PlanningError
  | settings
  | session (e : SessionError)
  | graph (e : GraphError)
  | build (e : DecompositionError)
  | tooDeep

/-- `_ABSORBED`: the failures the level above answers, and the bound each
names. -/
def absorbedBackstop : PlanningError → Option String
  | .session .unsplittable => some plannerDeclined
  | .session .ceiling => some sessionCeilingBackstop
  | .session .turnBudget => some turnBudgetBackstop
  | .session .sessionBudget => some sessionBudgetBackstop
  | .session .stagnation => some stagnationBackstop
  | _ => none

def absorbedChildReason (e : PlanningError) (assessment : AtomicityAssessment) : Option String :=
  (absorbedBackstop e).bind fun backstop => unsplitReason backstop assessment

-- ==== one subtask

/-- The fields `task_from_subtask` builds a task from. -/
def subtaskTaskFields (parent : Task) (plan : DecompositionPlan) (now : Int)
    (s : SubtaskDefinition) (id : Uuid) : TaskFields where
  id := id
  title := s.title
  description := withPlanContext s.description plan.assumptions plan.openQuestions
  type := parent.type
  priority := parent.priority
  project := parent.project
  createdBy := parent.createdBy
  parentTaskId := some parent.id.text
  delegationChain := parent.delegationChain
  dependencies := s.dependencies
  acceptanceCriteria := s.acceptanceCriteria.map fun c => { description := c }
  artifactsExpected := s.expectedArtifacts.map expectedArtifactFromSpec
  status := .created
  estimatedComplexity := s.estimatedComplexity
  stakes := s.stakes
  createdAt := now

def taskFromSubtask (parent : Task) (plan : DecompositionPlan) (now : Int)
    (s : SubtaskDefinition) : Except DecompositionError Task := do
  let id ← subtaskUuid s.id
  (Task.modelValidate (subtaskTaskFields parent plan now s id) []).mapError .task

-- ==== split or not

/-- An UNSPLIT verdict carries its reason. -/
inductive SplitDecision
  | leave
  | split
  | unsplit (reason : String)
  deriving DecidableEq

/-- A SPLIT verdict claims a session from the ledger. -/
def decideSplit (budget : RecursionBudget) (context : DecompositionContext)
    (subtask : SubtaskDefinition) (ledger : TreeSessionLedger) :
    SplitDecision × TreeSessionLedger :=
  if subtask.kind ≠ .work then (.leave, ledger)
  else
    match budget.policy.assess subtask with
    | .atomic => (.leave, ledger)
    | .oversized condition observed limit =>
      let unsplit := fun backstop =>
        match unsplitReason backstop (.oversized condition observed limit) with
        | some reason => SplitDecision.unsplit reason
        | none => .leave
      if budget.hasRoom context = false then (unsplit depthBackstop, ledger)
      else
        match ledger.take with
        | (false, ledger) => (unsplit sessionsBackstop, ledger)
        | (true, ledger) => (.split, ledger)

/-- The children in order, and two dictionaries by subtask id; the first entry of an id counts. -/
structure SplitOutcome where
  children : List DecompositionResult := []
  unsplit : List (String × String) := []
  assemblies : List (String × Assembly) := []

/-- `dict.get`. -/
def entryOf {α : Type} (entries : List (String × α)) (id : String) : Option α :=
  (Keyed.lookup Prod.fst entries id).map Prod.snd

def assembledSubtask (outcome : SplitOutcome) (s : SubtaskDefinition) : SubtaskDefinition :=
  match entryOf outcome.assemblies s.id with
  | none => s
  | some assembly =>
    { s with
      description := assembly.brief
      stakes := assembly.stakes
      expectedArtifacts := s.expectedArtifacts ++ assembly.paths.declared }

def assembledFields (fields : TaskFields) (assembly : Assembly) : TaskFields :=
  { fields with
    description := assembly.brief
    stakes := assembly.stakes
    artifactsExpected :=
      fields.artifactsExpected ++ assembly.paths.declared.map expectedArtifactFromSpec }

theorem assembledFields_coherent {fields : TaskFields} (h : fields.Coherent)
    (assembly : Assembly) : (assembledFields fields assembly).Coherent := by
  have hf := (TaskFields.checkedFields_ok_iff _).1 h.fields
  refine { h with fields := (TaskFields.checkedFields_ok_iff _).2 { hf with
    description := assembly.brief_given
    artifacts := ?_ } }
  intro a ha
  rcases List.mem_append.1 ha with ha | ha
  · exact hf.artifacts a ha
  · obtain ⟨path, hpath, rfl⟩ := List.mem_map.1 ha
    exact assembly.paths_given path hpath

def assembledTask (task : Task) : Option Assembly → Task
  | none => task
  | some assembly =>
    { toTaskFields := assembledFields task.toTaskFields assembly
      coherent := assembledFields_coherent task.coherent assembly }

/-- The note a unit that stayed oversized carries on the plan. -/
def stampUnsplit (outcome : SplitOutcome) (s : SubtaskDefinition) : SubtaskDefinition :=
  match entryOf outcome.unsplit s.id with
  | none => s
  | some reason => { s with unsplitReason := some reason }

-- ==== the service

abbrev PlannedLevel := { plan : DecompositionPlan // plan.Valid }

/-- Over the world `σ` it plans in. -/
structure DecompositionStrategy (σ : Type) where
  decompose : Task → DecompositionContext → σ → Except SessionError PlannedLevel × σ
  plansAnyTask : Bool

/-- The service, with what is injected into it; `lower` is `str.lower`. -/
structure DecompositionService (σ : Type) where
  strategy : DecompositionStrategy σ
  classify : Task → TaskStructure
  assessSubtask : SubtaskDefinition → Stakes
  configResolver : Option ConfigResolver
  lower : List Char → List Char

structure Session (σ : Type) where
  ledger : TreeSessionLedger
  world : σ

def onOk {ε α β S : Type} (f : α → β) (ran : Except ε α × S) : Except ε β × S :=
  (ran.1.map f, ran.2)

def heldToSize (budget : RecursionBudget) (context : DecompositionContext) : DecompositionContext :=
  if budget.enabled = false ∨ budget.hasRoom context = true then context
  else { context with atomicity := some budget.policy }

namespace DecompositionService

variable {σ : Type} (service : DecompositionService σ)

def resolveStructure (task : Task) (plan : DecompositionPlan) : DecompositionPlan :=
  if plan.taskStructure = .auto then { plan with taskStructure := service.classify task }
  else plan

def stampStakes (plan : DecompositionPlan) : DecompositionPlan :=
  { plan with
    subtasks := plan.subtasks.map fun s => { s with stakes := service.assessSubtask s } }

def draftLevel (now : Int) (task : Task) (planned : DecompositionPlan) :
    Except PlanningError (DecompositionPlan × List Task) := do
  (DependencyGraph.mk planned.subtasks).validate.mapError .graph
  let plan := service.stampStakes (service.resolveStructure task planned)
  let tasks ← (buildAll (taskFromSubtask task plan now) plan.subtasks).mapError .build
  .ok (plan, tasks)

def subtaskEdges (subtasks : List SubtaskDefinition) : List (String × String) :=
  subtasks.flatMap fun s => s.dependencies.map fun dep => (dep, s.id)

def finishLevel (context : DecompositionContext) (plan : DecompositionPlan)
    (tasks : List Task) (outcome : SplitOutcome) :
    Except PlanningError DecompositionResult := do
  let result := DecompositionResult.mk
    { plan with
      subtasks := plan.subtasks.map fun s => stampUnsplit outcome (assembledSubtask outcome s) }
    (List.zipWith (fun s t => assembledTask t (entryOf outcome.assemblies s.id))
      plan.subtasks tasks)
    (subtaskEdges plan.subtasks) context.currentDepth outcome.children
  result.check.mapError fun e => .build (.model e)
  .ok result

def assemblyFor (context : DecompositionContext) (step : SubtreeStep)
    (s : SubtaskDefinition) (child : DecompositionResult) : Assembly :=
  buildAssembly s.title (child.plan.subtasks.map SubtaskDefinition.title)
    s.acceptanceCriteria (child.plan.subtasks.map SubtaskDefinition.stakes)
    (context.address ++ [step])

def SplitOutcome.kept (id reason : String) (outcome : SplitOutcome) : SplitOutcome :=
  { outcome with unsplit := outcome.unsplit ++ [(id, reason)] }

def SplitOutcome.opened (id : String) (child : DecompositionResult)
    (assembly : Assembly) (outcome : SplitOutcome) : SplitOutcome :=
  { outcome with
    children := child :: outcome.children
    assemblies := outcome.assemblies ++ [(id, assembly)] }

/-- The loop of `_split_oversized`, from one position on; `openChild` is the recursion. -/
def splitUnits (budget : RecursionBudget) (context : DecompositionContext)
    (openChild : Task → DecompositionContext → Session σ →
      Except PlanningError DecompositionResult × Session σ) :
    Nat → List (SubtaskDefinition × Task) → Session σ →
      Except PlanningError SplitOutcome × Session σ
  | _, [], session => (.ok {}, session)
  | position, (s, task) :: rest, session =>
    match decideSplit budget context s session.ledger with
    | (.leave, ledger) =>
      splitUnits budget context openChild (position + 1) rest { session with ledger := ledger }
    | (.unsplit reason, ledger) =>
      onOk (SplitOutcome.kept s.id reason) <|
        splitUnits budget context openChild (position + 1) rest
          { session with ledger := ledger }
    | (.split, ledger) =>
      let step : SubtreeStep := { title := s.title, position := position }
      match openChild task (childContext (criterionKey service.lower) context step s.satisfies)
          { session with ledger := ledger } with
      | (.ok child, session) =>
        onOk (SplitOutcome.opened s.id child (assemblyFor context step s child)) <|
          splitUnits budget context openChild (position + 1) rest session
      | (.error e, session) =>
        match absorbedChildReason e (budget.policy.assess s) with
        | none => (.error e, session)
        | some reason =>
          onOk (SplitOutcome.kept s.id reason) <|
            splitUnits budget context openChild (position + 1) rest session

-- What the loop does with its next unit, one equation for each way it can go.
section SplitUnits

variable {budget : RecursionBudget} {context : DecompositionContext}
  {openChild : Task → DecompositionContext → Session σ →
    Except PlanningError DecompositionResult × Session σ}
  {position : Nat} {s : SubtaskDefinition} {task : Task}
  {rest : List (SubtaskDefinition × Task)} {session : Session σ} {ledger : TreeSessionLedger}

def unitContext (context : DecompositionContext) (position : Nat) (s : SubtaskDefinition) :
    DecompositionContext :=
  childContext (criterionKey service.lower) context { title := s.title, position := position }
    s.satisfies

theorem splitUnits_leave (hdec : decideSplit budget context s session.ledger = (.leave, ledger)) :
    service.splitUnits budget context openChild position ((s, task) :: rest) session =
      service.splitUnits budget context openChild (position + 1) rest
        { session with ledger := ledger } := by
  rw [splitUnits, hdec]

variable {reason : String} {session' : Session σ} {e : PlanningError}

theorem splitUnits_unsplit
    (hdec : decideSplit budget context s session.ledger = (.unsplit reason, ledger)) :
    service.splitUnits budget context openChild position ((s, task) :: rest) session =
      onOk (SplitOutcome.kept s.id reason) (service.splitUnits budget context openChild
        (position + 1) rest { session with ledger := ledger }) := by
  rw [splitUnits, hdec]

section
variable (hdec : decideSplit budget context s session.ledger = (.split, ledger))
include hdec

theorem splitUnits_opened {child : DecompositionResult}
    (hopen : openChild task (service.unitContext context position s)
      { session with ledger := ledger } = (.ok child, session')) :
    service.splitUnits budget context openChild position ((s, task) :: rest) session =
      onOk (SplitOutcome.opened s.id child
        (assemblyFor context { title := s.title, position := position } s child))
        (service.splitUnits budget context openChild (position + 1) rest session') := by
  unfold unitContext at hopen
  rw [splitUnits, hdec]
  dsimp only
  rw [hopen]

theorem splitUnits_absorbed (hopen : openChild task (service.unitContext context position s)
      { session with ledger := ledger } = (.error e, session'))
    (ha : absorbedChildReason e (budget.policy.assess s) = some reason) :
    service.splitUnits budget context openChild position ((s, task) :: rest) session =
      onOk (SplitOutcome.kept s.id reason)
        (service.splitUnits budget context openChild (position + 1) rest session') := by
  unfold unitContext at hopen
  rw [splitUnits, hdec]
  dsimp only
  rw [hopen]
  dsimp only
  rw [ha]

theorem splitUnits_raised (hopen : openChild task (service.unitContext context position s)
      { session with ledger := ledger } = (.error e, session'))
    (ha : absorbedChildReason e (budget.policy.assess s) = none) :
    service.splitUnits budget context openChild position ((s, task) :: rest) session =
      (.error e, session') := by
  unfold unitContext at hopen
  rw [splitUnits, hdec]
  dsimp only
  rw [hopen]
  dsimp only
  rw [ha]

end

end SplitUnits

def splitOversized (budget : RecursionBudget) (context : DecompositionContext)
    (openChild : Task → DecompositionContext → Session σ →
      Except PlanningError DecompositionResult × Session σ)
    (subtasks : List SubtaskDefinition) (tasks : List Task) (session : Session σ) :
    Except PlanningError SplitOutcome × Session σ :=
  if budget.enabled = false ∨ service.strategy.plansAnyTask = false then (.ok {}, session)
  else service.splitUnits budget context openChild 0 (subtasks.zip tasks) session

def doDecompose (now : Int) (budget : RecursionBudget) :
    Nat → Task → DecompositionContext → Session σ →
      Except PlanningError DecompositionResult × Session σ
  | 0, _, _, session => (.error .tooDeep, session)
  | levels + 1, task, context, session =>
    match service.strategy.decompose task (heldToSize budget context) session.world with
    | (.error e, world) => (.error (.session e), { session with world := world })
    | (.ok planned, world) =>
      match service.draftLevel now task planned.val with
      | .error e => (.error e, { session with world := world })
      | .ok (plan, tasks) =>
        let ledger := session.ledger.recordLevel context.currentDepth plan.subtasks.length
        match service.splitOversized budget context (doDecompose now budget levels)
            plan.subtasks tasks { ledger := ledger, world := world } with
        | (.error e, session) => (.error e, session)
        | (.ok outcome, session) => (finishLevel context plan tasks outcome, session)

-- The ways a level can go.
section Level

variable {now : Int} {budget : RecursionBudget} {levels : Nat} {task : Task}
  {context : DecompositionContext} {session : Session σ} {world : σ} {planned : PlannedLevel}

def closeLevel (context : DecompositionContext) (plan : DecompositionPlan) (tasks : List Task)
    (ran : Except PlanningError SplitOutcome × Session σ) :
    Except PlanningError DecompositionResult × Session σ :=
  match ran with
  | (.error e, session) => (.error e, session)
  | (.ok outcome, session) => (finishLevel context plan tasks outcome, session)

theorem doDecompose_unplanned {e : SessionError}
    (hplan : service.strategy.decompose task (heldToSize budget context) session.world =
      (.error e, world)) : service.doDecompose now budget (levels + 1) task context session =
      (.error (.session e), { session with world := world }) := by
  rw [doDecompose, hplan]

theorem doDecompose_undrafted {e : PlanningError}
    (hplan : service.strategy.decompose task (heldToSize budget context) session.world =
      (.ok planned, world)) (hd : service.draftLevel now task planned.val = .error e) :
    service.doDecompose now budget (levels + 1) task context session =
      (.error e, { session with world := world }) := by
  rw [doDecompose, hplan]
  dsimp only
  rw [hd]

theorem doDecompose_drafted {plan : DecompositionPlan} {tasks : List Task}
    (hplan : service.strategy.decompose task (heldToSize budget context) session.world =
      (.ok planned, world))
    (hd : service.draftLevel now task planned.val = .ok (plan, tasks)) :
    service.doDecompose now budget (levels + 1) task context session =
      closeLevel context plan tasks (service.splitOversized budget context
        (service.doDecompose now budget levels) plan.subtasks tasks
        { ledger := session.ledger.recordLevel context.currentDepth plan.subtasks.length
          world := world }) := by
  rw [doDecompose, hplan]
  dsimp only
  rw [hd]
  rfl

end Level

/-- What one `decompose_task` runs under: the root's own session is claimed first. -/
def openTree (task : Task) (context : DecompositionContext) :
    Except SettingFault (RecursionBudget × DecompositionContext × TreeSessionLedger) := do
  let budget ← resolveRecursionBudget service.configResolver
  let bounded ← resolveDecompositionBounds service.configResolver context
  let sessions ← treeSessionBudget service.configResolver
  let ledger : TreeSessionLedger :=
    { remaining := sessions, limit := sessions, objectiveTaskId := some task.id.text }
  .ok (budget, stampObjectiveCriteria (criterionKey service.lower) task bounded, ledger.take.2)

def decomposeTask (now : Int) (task : Task) (context : DecompositionContext) (world : σ) :
    Except PlanningError DecompositionResult × Session σ :=
  match service.openTree task context with
  | .error _ => (.error .settings, { ledger := { remaining := 0 }, world := world })
  | .ok (budget, context, ledger) =>
    service.doDecompose now budget ((depthBudget context - context.currentDepth).toNat + 1)
      task context { ledger := ledger, world := world }

end DecompositionService

end Synthorg.Decomposition
