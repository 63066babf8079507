/-
The projection between a transient decomposition and a durable plan
(engine/decomposition/plan_mapping.py), in both directions.

`itemsFromDecomposition` flattens the tree of levels into items that name
their parents; `decompositionFromPlan` strips the decisions and rebuilds
the tree of levels from those links. The rebuild recurses once per level;
running out of fuel stands for the interpreter giving up.

The task of an item (_item_tasks.py, _artifacts.py, _ids.py, plan_context.py) stands first;
`assemblyOf` is the verdict a container is read from.

An assembly (engine/assembly.py, the fence of engine/prompt_safety.py) writes two files under a
directory named by its whole address, a segment per step. Texts are lists of characters.

A `DecompositionResult` (models.py) is one level; a subtask that was decomposed again has its own
among the `children`. The models are raw records, and `Valid` is what every constructor of a tree
having passed amounts to. `dispatchAfter` is the flat view a dispatcher runs.
-/
import Synthorg.Core.Plan

namespace Synthorg.Decomposition

section
open Synthorg.Core Lib
open List

-- ==== the models

structure SubtaskDefinition where
  id : String
  title : String
  description : String
  dependencies : List String := []
  estimatedComplexity : Complexity := .medium
  stakes : Stakes := .normal
  requiredSkills : List String := []
  requiredTags : List String := []
  requiredRole : Option String := none
  expectedArtifacts : List String := []
  acceptanceCriteria : List String := []
  satisfies : List String := []
  kind : PlanItemKind := .work
  options : List PlanOption := []
  unsplitReason : Option String := none
  deriving DecidableEq

structure DecompositionPlan where
  parentTaskId : String
  subtasks : List SubtaskDefinition
  taskStructure : TaskStructure := .auto
  coordinationTopology : CoordinationTopology := .auto
  openQuestions : List String := []
  assumptions : List String := []
  planningStrategy : Option String := none

/-- One level of a decomposition, with the levels its split subtasks became. -/
inductive DecompositionResult
  | mk (plan : DecompositionPlan) (createdTasks : List Task)
      (dependencyEdges : List (String × String)) (depth : Nat)
      (children : List DecompositionResult)

namespace DecompositionResult

def plan : DecompositionResult → DecompositionPlan
  | .mk plan _ _ _ _ => plan

def createdTasks : DecompositionResult → List Task
  | .mk _ createdTasks _ _ _ => createdTasks

def dependencyEdges : DecompositionResult → List (String × String)
  | .mk _ _ dependencyEdges _ _ => dependencyEdges

def depth : DecompositionResult → Nat
  | .mk _ _ _ depth _ => depth

def children : DecompositionResult → List DecompositionResult
  | .mk _ _ _ _ children => children

end DecompositionResult

-- ==== validation

inductive ModelError
  | subtask (id : String) (e : UnitError)
  | fields (locs : List FieldLoc)
  | noSubtasks
  | duplicateSubtasks (ids : List String)
  | unknownDependencies (id : String) (missing : List String)
  | unresolvedStructure
  | taskCount (tasks subtasks : Nat)
  | taskIds (missing extra : List String)
  | unknownEdges (ids : List String)
  | unknownParent (parent : String)
  | repeatedParent (parent : String)
  | childDepth (parent : String) (depth expected : Nat)
  deriving DecidableEq

def SubtaskDefinition.checkedFields (s : SubtaskDefinition) : List (FieldLoc × FieldValue) :=
  [(["id"], .text s.id), (["title"], .text s.title),
    (["description"], .text s.description)] ++
  indexed "dependencies" s.dependencies ++
  indexed "required_skills" s.requiredSkills ++
  indexed "required_tags" s.requiredTags ++
  s.requiredRole.toList.map (fun r => (["required_role"], .text r)) ++
  indexed "expected_artifacts" s.expectedArtifacts ++
  indexed "acceptance_criteria" s.acceptanceCriteria ++
  indexed "satisfies" s.satisfies ++
  s.options.flatMap PlanOption.checkedFields ++
  s.unsplitReason.toList.map (fun r => (["unsplit_reason"], .text r))

structure SubtaskDefinition.FieldsOk (s : SubtaskDefinition) : Prop where
  id : notBlank s.id = true
  title : notBlank s.title = true
  description : notBlank s.description = true
  dependencies : ∀ d ∈ s.dependencies, notBlank d = true
  skills : ∀ k ∈ s.requiredSkills, notBlank k = true
  tags : ∀ t ∈ s.requiredTags, notBlank t = true
  role : ∀ r, s.requiredRole = some r → notBlank r = true
  artifacts : ∀ a ∈ s.expectedArtifacts, notBlank a = true
  criteria : ∀ c ∈ s.acceptanceCriteria, notBlank c = true
  satisfies : ∀ c ∈ s.satisfies, notBlank c = true
  options : ∀ c ∈ s.options.flatMap PlanOption.checkedFields, c.2.ok = true
  unsplit_reason : ∀ r, s.unsplitReason = some r → notBlank r = true

theorem SubtaskDefinition.checkedFields_ok_iff (s : SubtaskDefinition) :
    (∀ c ∈ s.checkedFields, c.2.ok = true) ↔ s.FieldsOk := by
  unfold SubtaskDefinition.checkedFields
  simp only [forall_mem_append, forall_mem_cons, not_mem_nil, and_true,
    indexed_ok_iff, optional_ok_iff, false_implies, implies_true]
  constructor
  · rintro ⟨⟨⟨⟨⟨⟨⟨⟨⟨⟨hid, httl, hd⟩, hdeps⟩, hs⟩, htags⟩, hrole⟩,
      ha⟩, hc⟩, hsat⟩, hoptions⟩, hu⟩
    exact ⟨hid, httl, hd, hdeps, hs, htags, hrole, ha, hc, hsat, hoptions, hu⟩
  · intro h
    exact ⟨⟨⟨⟨⟨⟨⟨⟨⟨⟨h.id, h.title, h.description⟩, h.dependencies⟩, h.skills⟩, h.tags⟩,
      h.role⟩, h.artifacts⟩, h.criteria⟩, h.satisfies⟩, h.options⟩, h.unsplit_reason⟩

/-- `SubtaskDefinition.model_validate` past coercion. -/
def SubtaskDefinition.check (s : SubtaskDefinition) : Except UnitError Unit := do
  require (brokenFields s.checkedFields = []) (.fields (brokenFields s.checkedFields))
  require (s.id ∉ s.dependencies) .selfDependency
  validateDecisionOptions s.kind s.options none

structure SubtaskDefinition.Valid (s : SubtaskDefinition) : Prop where
  fields : ∀ c ∈ s.checkedFields, c.2.ok = true
  no_self_dependency : s.id ∉ s.dependencies
  options_shaped : validateDecisionOptions s.kind s.options none = .ok ()

theorem SubtaskDefinition.check_ok_iff (s : SubtaskDefinition) : s.check = .ok () ↔ s.Valid := by
  unfold SubtaskDefinition.check
  simp only [bind_unit_ok_iff, require_ok_iff, brokenFields_eq_nil_iff]
  constructor
  · rintro ⟨hf, hself, hoptions⟩
    exact ⟨hf, hself, hoptions⟩
  · intro h
    exact ⟨h.fields, h.no_self_dependency, h.options_shaped⟩

def DecompositionPlan.checkedFields (p : DecompositionPlan) : List (FieldLoc × FieldValue) :=
  [(["parent_task_id"], .text p.parentTaskId)] ++
  indexed "open_questions" p.openQuestions ++
  indexed "assumptions" p.assumptions ++
  p.planningStrategy.toList.map (fun s => (["planning_strategy"], .text s))

def missingSubtasks (subtasks : List SubtaskDefinition) (s : SubtaskDefinition) : List String :=
  s.dependencies.filter (· ∉ subtasks.map SubtaskDefinition.id)

def checkLevelSubtask (subtasks : List SubtaskDefinition) (s : SubtaskDefinition) :
    Except ModelError Unit := do
  require (missingSubtasks subtasks s = [])
    (.unknownDependencies s.id (missingSubtasks subtasks s))
  (validateExpectedArtifacts s.kind s.expectedArtifacts).mapError (.subtask s.id)

/-- `DecompositionPlan.model_validate` past coercion, in its order. -/
def DecompositionPlan.check (p : DecompositionPlan) : Except ModelError Unit := do
  requireAll (fun s => s.check.mapError (ModelError.subtask s.id)) p.subtasks
  require (brokenFields p.checkedFields = []) (.fields (brokenFields p.checkedFields))
  require (p.subtasks ≠ []) .noSubtasks
  require (duplicates (p.subtasks.map SubtaskDefinition.id) = [])
    (.duplicateSubtasks (duplicates (p.subtasks.map SubtaskDefinition.id)))
  requireAll (checkLevelSubtask p.subtasks) p.subtasks

structure DecompositionPlan.Valid (p : DecompositionPlan) : Prop where
  subtasks_valid : ∀ s ∈ p.subtasks, s.Valid
  fields : ∀ c ∈ p.checkedFields, c.2.ok = true
  nonempty : p.subtasks ≠ []
  distinct : Keyed.Distinct SubtaskDefinition.id p.subtasks
  known : ∀ s ∈ p.subtasks, ∀ d ∈ s.dependencies,
    d ∈ p.subtasks.map SubtaskDefinition.id
  artifacts_shaped : ∀ s ∈ p.subtasks,
    validateExpectedArtifacts s.kind s.expectedArtifacts = .ok ()

theorem mapError_ok_iff {ε ε' α : Type} (x : Except ε α) (f : ε → ε') (a : α) :
    x.mapError f = .ok a ↔ x = .ok a := by
  cases x <;> simp [Except.mapError]

theorem DecompositionPlan.check_ok_iff (p : DecompositionPlan) : p.check = .ok () ↔ p.Valid := by
  have hmiss : ∀ s, missingSubtasks p.subtasks s = [] ↔
      ∀ d ∈ s.dependencies, d ∈ p.subtasks.map SubtaskDefinition.id := by
    intro s
    simp [missingSubtasks]
  unfold DecompositionPlan.check checkLevelSubtask
  simp only [bind_unit_ok_iff, requireAll_ok_iff, require_ok_iff, mapError_ok_iff,
    SubtaskDefinition.check_ok_iff, brokenFields_eq_nil_iff, duplicates_eq_nil_iff,
    hmiss]
  constructor
  · rintro ⟨hsubtasks, hf, hne, hd, hl⟩
    exact ⟨hsubtasks, hf, hne, hd, fun s hs => (hl s hs).1, fun s hs => (hl s hs).2⟩
  · intro h
    exact ⟨h.subtasks_valid, h.fields, h.nonempty, h.distinct,
      fun s hs => ⟨h.known s hs, h.artifacts_shaped s hs⟩⟩

namespace DecompositionResult

def taskIds (r : DecompositionResult) : List String :=
  r.createdTasks.map fun t => t.id.text

def subtaskIds (r : DecompositionResult) : List String :=
  r.plan.subtasks.map SubtaskDefinition.id

def setDifference (xs ys : List String) : List String :=
  (xs.dedup.filter (· ∉ ys)).insertionSort (· ≤ ·)

def unknownEdgeIds (r : DecompositionResult) : List String :=
  setDifference (r.dependencyEdges.flatMap fun e => [e.1, e.2]) r.taskIds

/-- `_validate_children`; `seen` are the parents named so far. -/
def checkChildren (taskIds : List String) (depth : Nat) :
    List String → List DecompositionResult → Except ModelError Unit
  | _, [] => .ok ()
  | seen, c :: rest => do
    require (c.plan.parentTaskId ∈ taskIds) (.unknownParent c.plan.parentTaskId)
    require (c.plan.parentTaskId ∉ seen) (.repeatedParent c.plan.parentTaskId)
    require (c.depth = depth + 1)
      (.childDepth c.plan.parentTaskId c.depth (depth + 1))
    checkChildren taskIds depth (c.plan.parentTaskId :: seen) rest

/-- `_validate_plan_task_consistency`. -/
def check (r : DecompositionResult) : Except ModelError Unit := do
  require (r.plan.taskStructure ≠ .auto) .unresolvedStructure
  require (r.createdTasks.length = r.plan.subtasks.length)
    (.taskCount r.createdTasks.length r.plan.subtasks.length)
  require (setDifference r.subtaskIds r.taskIds = [] ∧ setDifference r.taskIds r.subtaskIds = [])
    (.taskIds (setDifference r.subtaskIds r.taskIds)
      (setDifference r.taskIds r.subtaskIds))
  require (r.unknownEdgeIds = []) (.unknownEdges r.unknownEdgeIds)
  checkChildren r.taskIds r.depth [] r.children

structure LevelValid (r : DecompositionResult) : Prop where
  plan_valid : r.plan.Valid
  resolved : r.plan.taskStructure ≠ .auto
  task_count : r.createdTasks.length = r.plan.subtasks.length
  task_ids : ∀ k, k ∈ r.taskIds ↔ k ∈ r.subtaskIds
  edges_known : ∀ e ∈ r.dependencyEdges, e.1 ∈ r.taskIds ∧ e.2 ∈ r.taskIds
  children_known : ∀ c ∈ r.children, c.plan.parentTaskId ∈ r.taskIds
  children_distinct : (r.children.map fun c => c.plan.parentTaskId).Nodup
  children_depth : ∀ c ∈ r.children, c.depth = r.depth + 1

inductive Valid : DecompositionResult → Prop
  | node (r : DecompositionResult) (level : r.LevelValid)
      (below : ∀ c ∈ r.children, Valid c) : Valid r

theorem setDifference_eq_nil_iff (xs ys : List String) :
    setDifference xs ys = [] ↔ ∀ x ∈ xs, x ∈ ys := by
  unfold setDifference
  rw [← length_eq_zero_iff]
  simp

theorem checkChildren_ok_iff (taskIds : List String) (depth : Nat)
    (seen : List String) (children : List DecompositionResult) :
    checkChildren taskIds depth seen children = .ok () ↔
      (∀ c ∈ children, c.plan.parentTaskId ∈ taskIds) ∧
      (children.map fun c => c.plan.parentTaskId).Nodup ∧
      (∀ c ∈ children, c.plan.parentTaskId ∉ seen) ∧
      ∀ c ∈ children, c.depth = depth + 1 := by
  induction children generalizing seen with
  | nil => simp [checkChildren]
  | cons c rest ih =>
    unfold checkChildren
    simp only [bind_unit_ok_iff, require_ok_iff, ih, mem_cons, not_or,
      forall_eq_or_imp, map_cons, nodup_cons, mem_map, not_exists,
      not_and]
    constructor
    · rintro ⟨hk, hseen, hd, hrest, hn, hf, hdepth⟩
      exact ⟨⟨hk, hrest⟩, ⟨fun x hx => (hf x hx).1, hn⟩,
        ⟨hseen, fun x hx => (hf x hx).2⟩, hd, hdepth⟩
    · rintro ⟨⟨hk, hrest⟩, ⟨hf, hn⟩, ⟨hseen, hs⟩, hd, hdepth⟩
      exact ⟨hk, hseen, hd, hrest, hn, fun x hx => ⟨hf x hx, hs x hx⟩, hdepth⟩

theorem check_ok_iff (r : DecompositionResult) (hplan : r.plan.Valid) :
    r.check = .ok () ↔ r.LevelValid := by
  unfold check unknownEdgeIds
  simp only [bind_unit_ok_iff, require_ok_iff, setDifference_eq_nil_iff, checkChildren_ok_iff]
  constructor
  · rintro ⟨hres, hcnt, ⟨hmiss, hextra⟩, hedges, hknown, hd, -, hdepth⟩
    refine ⟨hplan, hres, hcnt, fun k => ⟨hextra k, hmiss k⟩, ?_, hknown, hd, hdepth⟩
    intro e he
    exact ⟨hedges e.1 (mem_flatMap.2 ⟨e, he, by simp⟩), hedges e.2 (mem_flatMap.2 ⟨e, he, by simp⟩)⟩
  · intro h
    refine ⟨h.resolved, h.task_count, ⟨fun k => (h.task_ids k).2,
      fun k => (h.task_ids k).1⟩, ?_, h.children_known, h.children_distinct,
      by simp, h.children_depth⟩
    intro k hk
    obtain ⟨e, he, hk⟩ := mem_flatMap.1 hk
    rcases mem_pair.1 hk with rfl | rfl
    · exact (h.edges_known e he).1
    · exact (h.edges_known e he).2

variable {r : DecompositionResult}

theorem Valid.level (h : r.Valid) : r.LevelValid := by
  cases h with
  | node _ level _ => exact level

theorem Valid.child {c : DecompositionResult} (h : r.Valid) (hc : c ∈ r.children) : c.Valid := by
  cases h with
  | node _ _ below => exact below c hc

/-- INDUCTION over a tree of levels: a property every level has once its
children do. -/
theorem treeInduction {P : DecompositionResult → Prop}
    (h : ∀ r, (∀ c ∈ r.children, P c) → P r) (r : DecompositionResult) : P r := by
  apply h
  intro c hc
  have hlt : sizeOf c < sizeOf r := by
    cases r with
    | mk plan createdTasks dependencyEdges depth children =>
      have hin := sizeOf_lt_of_mem hc
      simp only [DecompositionResult.children] at hin
      simp only [DecompositionResult.mk.sizeOf_spec]
      omega
  exact treeInduction h c
termination_by sizeOf r

-- ==== reading the tree

/-- This level's, then each child's. -/
def allSubtasks : DecompositionResult → List SubtaskDefinition
  | .mk plan _ _ _ children => plan.subtasks ++ below children
where
  below : List DecompositionResult → List SubtaskDefinition
    | [] => []
    | c :: rest => c.allSubtasks ++ below rest

def allTasks : DecompositionResult → List Task
  | .mk _ createdTasks _ _ children => createdTasks ++ below children
where
  below : List DecompositionResult → List Task
    | [] => []
    | c :: rest => c.allTasks ++ below rest

def levels : DecompositionResult → List DecompositionResult
  | .mk plan createdTasks dependencyEdges depth children =>
    .mk plan createdTasks dependencyEdges depth children :: below children
where
  below : List DecompositionResult → List DecompositionResult
    | [] => []
    | c :: rest => c.levels ++ below rest

def waitsOn (inherited : List String) (s : SubtaskDefinition) : List String :=
  if s.dependencies = [] then inherited else s.dependencies

/-- `waits_on.get(id, ())`. -/
def waitsOnOf (subtasks : List SubtaskDefinition) (inherited : List String)
    (id : String) : List String :=
  Keyed.edges SubtaskDefinition.id (waitsOn inherited) subtasks id

/-- `contained_by.get(id, ())`: the units a container assembles. -/
def containedBy (children : List DecompositionResult) (id : String) : List String :=
  Keyed.edges (fun c : DecompositionResult => c.plan.parentTaskId) subtaskIds children id

/-- The subtree flattened, gated behind `inherited`. -/
def dispatchAfter : DecompositionResult → List String → List SubtaskDefinition
  | .mk plan _ _ _ children, inherited =>
    (plan.subtasks.map fun s =>
      { s with dependencies := waitsOn inherited s ++ containedBy children s.id }) ++
    below plan.subtasks inherited children
where
  below (subtasks : List SubtaskDefinition) (inherited : List String) :
      List DecompositionResult → List SubtaskDefinition
    | [] => []
    | c :: rest =>
      c.dispatchAfter (waitsOnOf subtasks inherited c.plan.parentTaskId) ++
        below subtasks inherited rest

/-- Every node of the tree, as one flat graph. -/
def dispatchSubtasks (r : DecompositionResult) : List SubtaskDefinition :=
  r.dispatchAfter []

theorem allSubtasks_eq (r : DecompositionResult) :
    r.allSubtasks = r.plan.subtasks ++ r.children.flatMap allSubtasks := by
  have hb : ∀ cs, allSubtasks.below cs = cs.flatMap allSubtasks := by
    intro cs
    induction cs with
    | nil => rfl
    | cons c rest ih => rw [allSubtasks.below, ih, flatMap_cons]
  cases r with
  | mk plan createdTasks dependencyEdges depth children =>
    rw [allSubtasks, hb]
    rfl

theorem allTasks_eq (r : DecompositionResult) :
    r.allTasks = r.createdTasks ++ r.children.flatMap allTasks := by
  have hb : ∀ cs, allTasks.below cs = cs.flatMap allTasks := by
    intro cs
    induction cs with
    | nil => rfl
    | cons c rest ih => rw [allTasks.below, ih, flatMap_cons]
  cases r with
  | mk plan createdTasks dependencyEdges depth children =>
    rw [allTasks, hb]
    rfl

theorem levels_eq (r : DecompositionResult) : r.levels = r :: r.children.flatMap levels := by
  have hb : ∀ cs, levels.below cs = cs.flatMap levels := by
    intro cs
    induction cs with
    | nil => rfl
    | cons c rest ih => rw [levels.below, ih, flatMap_cons]
  cases r with
  | mk plan createdTasks dependencyEdges depth children =>
    rw [levels, hb]
    rfl

theorem mem_allSubtasks {s : SubtaskDefinition} :
    s ∈ r.allSubtasks ↔ s ∈ r.plan.subtasks ∨ ∃ c ∈ r.children, s ∈ c.allSubtasks := by
  rw [allSubtasks_eq, mem_append, mem_flatMap]

theorem mem_allTasks {t : Task} : t ∈ r.allTasks ↔ ∃ l ∈ r.levels, t ∈ l.createdTasks := by
  induction r using treeInduction with
  | h r ih =>
    rw [allTasks_eq, levels_eq, mem_append]
    simp only [mem_cons, mem_flatMap]
    constructor
    · rintro (ht | ⟨c, hc, ht⟩)
      · exact ⟨r, .inl rfl, ht⟩
      · obtain ⟨l, hl, ht⟩ := (ih c hc).1 ht
        exact ⟨l, .inr ⟨c, hc, hl⟩, ht⟩
    · rintro ⟨l, rfl | ⟨c, hc, hl⟩, ht⟩
      · exact .inl ht
      · exact .inr ⟨c, hc, (ih c hc).2 ⟨l, hl, ht⟩⟩

theorem mem_levels {l : DecompositionResult} :
    l ∈ r.levels ↔ l = r ∨ ∃ c ∈ r.children, l ∈ c.levels := by
  rw [levels_eq, mem_cons, mem_flatMap]

def gatedUnits (r : DecompositionResult) (inherited : List String) : List SubtaskDefinition :=
  r.plan.subtasks.map fun s =>
    { s with dependencies := waitsOn inherited s ++ containedBy r.children s.id }

theorem dispatchAfter_eq (r : DecompositionResult) (inherited : List String) :
    r.dispatchAfter inherited = r.gatedUnits inherited ++
      r.children.flatMap fun c =>
        c.dispatchAfter (waitsOnOf r.plan.subtasks inherited c.plan.parentTaskId) := by
  have hb : ∀ subtasks cs, dispatchAfter.below subtasks inherited cs = cs.flatMap fun c =>
        c.dispatchAfter (waitsOnOf subtasks inherited c.plan.parentTaskId) := by
    intro subtasks cs
    induction cs with
    | nil => rfl
    | cons c rest ih => rw [dispatchAfter.below, ih, flatMap_cons]
  cases r with
  | mk plan createdTasks dependencyEdges depth children =>
    rw [dispatchAfter, hb]
    rfl

end DecompositionResult

end

open Synthorg.Core

-- ==== slugs

/-- `str.lower` on one character: the two beyond ASCII that become ASCII are listed, and any
other stays outside `[a-z0-9]`. -/
def lowerChar (c : Char) : List Char :=
  if 'A' ≤ c ∧ c ≤ 'Z' then [Char.ofNat (c.toNat + 32)]
  else if c.toNat = 0x130 then ['i', Char.ofNat 0x307]
  else if c.toNat = 0x212a then ['k']
  else [c]

def lowered (s : String) : List Char :=
  s.toList.flatMap lowerChar

def slugAllowed (c : Char) : Bool :=
  ('a' ≤ c && c ≤ 'z') || ('0' ≤ c && c ≤ '9')

/-- `_SLUG_ALLOWED.sub("-", …)`: each run of anything else is one dash. -/
def dashRuns : Bool → List Char → List Char
  | _, [] => []
  | inRun, c :: rest =>
    if slugAllowed c then c :: dashRuns false rest
    else if inRun then dashRuns true rest
    else '-' :: dashRuns true rest

/-- `str.strip("-")`. -/
def stripDashes (cs : List Char) : List Char :=
  ((cs.dropWhile (· = '-')).reverse.dropWhile (· = '-')).reverse

def slugMaxChars : Nat := 40

def slugStem (title : String) : List Char :=
  (stripDashes (dashRuns false (lowered title))).take slugMaxChars

/-- `f"{position:02d}"`. -/
def twoDigits (n : Nat) : List Char :=
  if (Nat.toDigits 10 n).length < 2 then '0' :: Nat.toDigits 10 n else Nat.toDigits 10 n

def subtreeSlug (step : SubtreeStep) : List Char :=
  if slugStem step.title = [] then twoDigits step.position
  else twoDigits step.position ++ '-' :: slugStem step.title

-- ==== paths

structure AssemblyPaths where
  report : String
  testOutput : String
  deriving DecidableEq

/-- Both, in declaration order. -/
def AssemblyPaths.declared (p : AssemblyPaths) : List String :=
  [p.report, p.testOutput]

def assemblyRoot : String := ".synthorg/integration"

/-- `"/".join(subtree_slug(step) for step in address)`. -/
def slugPath : List SubtreeStep → List Char
  | [] => []
  | [step] => subtreeSlug step
  | step :: rest => subtreeSlug step ++ '/' :: slugPath rest

def subtreeAssemblyPaths (address : List SubtreeStep) : AssemblyPaths where
  report := assemblyRoot ++ "/" ++ String.ofList (slugPath address) ++ "/report.md"
  testOutput := assemblyRoot ++ "/" ++ String.ofList (slugPath address) ++ "/end-to-end.txt"

-- ==== fence

/-- A letter of a closing tag, case ignored as `re.IGNORECASE` does. -/
def foldTagChar (c : Char) : Char :=
  if 'A' ≤ c ∧ c ≤ 'Z' then Char.ofNat (c.toNat + 32)
  else if c.toNat = 0x17f then 's'
  else if c.toNat = 0x212a then 'k'
  else c

/-- The text opens with the tag's name, blanks and `>`. -/
def closesTag : List Char → List Char → Bool
  | [], cs => (cs.dropWhile isSpace).head? = some '>'
  | _, [] => false
  | t :: tag, c :: cs => foldTagChar c = t && closesTag tag cs

def escapeClosingTag (tag : List Char) : List Char → List Char
  | '<' :: '/' :: rest =>
    if closesTag tag rest then '<' :: '\\' :: '/' :: escapeClosingTag tag rest
    else '<' :: '/' :: escapeClosingTag tag rest
  | c :: rest => c :: escapeClosingTag tag rest
  | [] => []

/-- `wrap_untrusted` under `TAG_TASK_DATA`. -/
def wrapTaskData (content : String) : String :=
  "<task-data>\n" ++
    String.ofList (escapeClosingTag "task-data".toList content.toList) ++
    "\n</task-data>"

-- ==== brief

/-- `"\n".join`. -/
def joinLines : List String → String
  | [] => ""
  | [line] => line
  | line :: rest => line ++ "\n" ++ joinLines rest

def briefReport (objectiveTitle : String) (pieces criteria : List String) : String :=
  joinLines <|
    ["Objective: " ++ objectiveTitle, "The delivered pieces:"] ++
    pieces.map ("- " ++ ·) ++
    if criteria = [] then []
    else "The whole is only working when all of these hold:" :: criteria.map ("- " ++ ·)

def briefOpening : String :=
  "Every piece of this has been built and has passed its own " ++
  "review. None of that shows they work together, which is what " ++
  "this job is for."

def briefJob : String :=
  "Assemble the delivered work into one deliverable that actually " ++
  "runs, fix whatever only shows up once the pieces meet, and prove " ++
  "it end to end by running it. A run that produces no integrated " ++
  "deliverable and no test evidence is not an integration."

def briefEvidence (paths : AssemblyPaths) : String :=
  "Record what you did in `" ++ paths.report ++ "`: what you " ++
  "assembled, where the runnable deliverable is, and what you had " ++
  "to fix. Put the end-to-end run's own output, verbatim, in `" ++
  paths.testOutput ++ "`. Both paths are relative to " ++
  "the project workspace, and both are checked: a run that leaves " ++
  "them empty is recorded as having delivered nothing, whatever " ++
  "it says here."

def buildAssemblyBrief (objectiveTitle : String) (pieces criteria : List String)
    (paths : AssemblyPaths) : String :=
  joinLines [briefOpening, briefJob, briefEvidence paths,
    wrapTaskData (briefReport objectiveTitle pieces criteria)]

-- ==== stakes

/-- `STAKES_ORDER[index]`. -/
def stakesAt : Nat → Stakes
  | 0 => .low
  | 1 => .normal
  | 2 => .high
  | _ => .critical

/-- `max(…, default=NORMAL)` over `STAKES_ORDER` indexes. -/
def highestRank (assembled : List Stakes) : Nat :=
  if assembled = [] then Stakes.normal.rank
  else assembled.foldl (fun m s => max m s.rank) 0

/-- One rung above the highest, capped at CRITICAL. -/
def escalatedStakes (assembled : List Stakes) : Stakes :=
  stakesAt (min (highestRank assembled + 1) 3)

-- ==== assembly

theorem notBlank_brief (title : String) (pieces criteria : List String) (paths : AssemblyPaths) :
    notBlank (buildAssemblyBrief title pieces criteria paths) = true := by
  have hopening : notBlank briefOpening = true := by decide +kernel
  unfold buildAssemblyBrief joinLines
  rw [String.append_assoc]
  exact notBlank_append hopening

theorem notBlank_declared (address : List SubtreeStep) :
    ∀ p ∈ (subtreeAssemblyPaths address).declared, notBlank p = true := by
  have hroot : notBlank assemblyRoot = true := by decide
  intro p hp
  rcases List.mem_pair.1 hp with rfl | rfl
  · exact notBlank_append (notBlank_append (notBlank_append hroot))
  · exact notBlank_append (notBlank_append (notBlank_append hroot))

/-- A text and two paths a task can carry. -/
structure Assembly where
  brief : String
  paths : AssemblyPaths
  stakes : Stakes
  brief_given : notBlank brief = true
  paths_given : ∀ p ∈ paths.declared, notBlank p = true

def buildAssembly (title : String) (pieces criteria : List String)
    (assembled : List Stakes) (address : List SubtreeStep) : Assembly where
  brief := buildAssemblyBrief title pieces criteria (subtreeAssemblyPaths address)
  paths := subtreeAssemblyPaths address
  stakes := escalatedStakes assembled
  brief_given := notBlank_brief title pieces criteria _
  paths_given := notBlank_declared address

inductive DecompositionError
  | model (e : ModelError)
  | item (id : String) (e : UnitError)
  | plan (e : PlanError)
  | task (e : TaskError)
  | idNotUuid (id : String)
  | unresolvedStructure
  | nestedTooDeep
  deriving DecidableEq

-- ==== ids and artifacts

def subtaskUuid (id : String) : Except DecompositionError Uuid :=
  if h : isCanonicalUuid id = true then .ok ⟨id, h⟩ else .error (.idNotUuid id)

/-- `needle in text`. -/
def occursIn (needle text : List Char) : Bool :=
  text.tails.any fun rest => needle.isPrefixOf rest

def expectedArtifactFromSpec (spec : String) : ExpectedArtifact where
  type :=
    if occursIn "test".toList (lowered spec) then .tests
    else if ".md".toList.isSuffixOf (lowered spec) || occursIn "doc".toList (lowered spec)
    then .documentation
    else .code
  path := spec

-- ==== plan context

def settledHeading : String := "## Settled before this work was dispatched"

def settledPreamble : String :=
  "These hold for this plan. Some were the planner's assumptions and some " ++
  "are answers a human gave to questions the planner could not resolve; " ++
  "either way they are decided. Build on them rather than re-deciding them."

def openHeading : String := "## Not decided yet"

def openPreamble : String :=
  "Nobody has answered these. Do not invent an answer and proceed as though " ++
  "it were settled: if one blocks your task, say so in your result rather " ++
  "than guessing."

/-- The lines of `plan_context_block`. -/
def planContextLines (assumptions openQuestions : List String) : List String :=
  let settled :=
    if assumptions = [] then []
    else settledHeading :: settledPreamble :: assumptions.map ("- " ++ ·)
  let unsettled :=
    if openQuestions = [] then []
    else
      (if settled = [] then [] else [""]) ++
        openHeading :: openPreamble :: openQuestions.map ("- " ++ ·)
  settled ++ unsettled

def withPlanContext (description : String) (assumptions openQuestions : List String) : String :=
  if planContextLines assumptions openQuestions = [] then description
  else
    description ++ "\n\n" ++ joinLines (planContextLines assumptions openQuestions)

-- ==== the task

def assemblyOf (tree : PlanTree) (item : PlanItem) : Option Assembly :=
  if tree.children item.id = [] then none
  else
    some <| buildAssembly item.title ((tree.children item.id).map PlanItem.title)
      item.acceptanceCriteria ((tree.children item.id).map PlanItem.stakes)
      (tree.address item.id)

def bodyOf (tree : PlanTree) (item : PlanItem) : String :=
  match assemblyOf tree item with
  | none => item.description
  | some assembly => assembly.brief

def artifactsOf (tree : PlanTree) (item : PlanItem) : List String :=
  match assemblyOf tree item with
  | none => item.expectedArtifacts
  | some assembly => item.expectedArtifacts ++ assembly.paths.declared

def stakesOf (tree : PlanTree) (item : PlanItem) : Stakes :=
  match assemblyOf tree item with
  | none => item.stakes
  | some assembly => assembly.stakes

/-- The fields `task_from_item` builds a task from; `id` is the item's. -/
def itemTaskFields (plan : Plan) (objective : Task) (parentTaskId : String)
    (tree : PlanTree) (now : Int) (item : PlanItem) (id : Uuid) : TaskFields where
  id := id
  title := item.title
  description := withPlanContext (bodyOf tree item) plan.assumptions plan.openQuestions
  type := objective.type
  priority := objective.priority
  project := objective.project
  planId := some plan.id
  planItemId := some id
  createdBy := objective.createdBy
  parentTaskId := some parentTaskId
  delegationChain := objective.delegationChain
  dependencies := item.dependencies
  acceptanceCriteria := item.acceptanceCriteria.map fun c => { description := c }
  artifactsExpected := (artifactsOf tree item).map expectedArtifactFromSpec
  status := .created
  estimatedComplexity := item.estimatedComplexity
  stakes := stakesOf tree item
  createdAt := now

/-- `task_from_item`. `now` is the clock `created_at` defaults from. -/
def taskFromItem (plan : Plan) (objective : Task) (parentTaskId : String)
    (tree : PlanTree) (now : Int) (item : PlanItem) : Except DecompositionError Task := do
  let id ← subtaskUuid item.id
  (Task.modelValidate (itemTaskFields plan objective parentTaskId tree now item id) [])
    |>.mapError .task

-- ==== to durable items

/-- The fields `_item_from_subtask` builds an item from. -/
def itemFields (parentId : Option String) (s : SubtaskDefinition) : PlanItem where
  id := s.id
  title := s.title
  description := s.description
  parentId := parentId
  dependencies := s.dependencies
  owner := s.requiredRole
  acceptanceCriteria := s.acceptanceCriteria
  expectedArtifacts := s.expectedArtifacts
  requiredSkills := s.requiredSkills
  requiredTags := s.requiredTags
  estimatedComplexity := s.estimatedComplexity
  stakes := s.stakes
  kind := s.kind
  options := s.options
  satisfies := s.satisfies
  unsplitReason := s.unsplitReason

def itemFromSubtask (parentId : Option String) (s : SubtaskDefinition) :
    Except DecompositionError PlanItem := do
  ((itemFields parentId s).check).mapError (.item s.id)
  .ok (itemFields parentId s)

def walkLevels : DecompositionResult → Option String → List (Option String × SubtaskDefinition)
  | .mk plan _ _ _ children, parentId =>
    plan.subtasks.map (parentId, ·) ++ below children
where
  below : List DecompositionResult → List (Option String × SubtaskDefinition)
    | [] => []
    | c :: rest => walkLevels c (some c.plan.parentTaskId) ++ below rest

/-- Workstreams first and then each subtree. -/
def itemsFromDecomposition (r : DecompositionResult) : Except DecompositionError (List PlanItem) :=
  buildAll (fun e => itemFromSubtask e.1 e.2) (walkLevels r none)

structure PlanProvenance where
  project : String
  projectName : String
  objectiveId : String
  objectiveTitle : String
  parentTaskId : String
  createdAt : Int
  status : PlanStatus := .pendingReview
  forecastId : Option Uuid := none
  review : Option PlanReview := none
  reviewAbsentReason : Option String := none
  objectiveCriteria : List String := []

/-- The fields `plan_from_decomposition` builds a plan from. -/
def planFields (id : Uuid) (r : DecompositionResult) (provenance : PlanProvenance)
    (items : List PlanItem) : Plan where
  id := id
  project := provenance.project
  projectName := provenance.projectName
  objectiveId := provenance.objectiveId
  objectiveTitle := provenance.objectiveTitle
  parentTaskId := provenance.parentTaskId
  items := items
  taskStructure := r.plan.taskStructure
  coordinationTopology := r.plan.coordinationTopology
  status := provenance.status
  forecastId := provenance.forecastId
  review := provenance.review
  openQuestions := r.plan.openQuestions
  assumptions := r.plan.assumptions
  planningStrategy := r.plan.planningStrategy
  reviewAbsentReason := provenance.reviewAbsentReason
  objectiveCriteria := provenance.objectiveCriteria
  createdAt := provenance.createdAt
  updatedAt := provenance.createdAt

def planFromDecomposition (id : Uuid) (r : DecompositionResult)
    (provenance : PlanProvenance) : Except DecompositionError Plan := do
  let items ← itemsFromDecomposition r
  require (r.plan.taskStructure ≠ .auto) .unresolvedStructure
  (planFields id r provenance items).modelValidate.mapError .plan

-- ==== back to a tree of levels

/-- The fields `_subtask_from_item` builds a subtask from. -/
def subtaskOfItem (tree : PlanTree) (item : PlanItem) : SubtaskDefinition where
  id := item.id
  title := item.title
  description := item.description
  dependencies := item.dependencies
  estimatedComplexity := item.estimatedComplexity
  stakes := stakesOf tree item
  requiredSkills := item.requiredSkills
  requiredTags := item.requiredTags
  requiredRole := item.owner
  expectedArtifacts := item.expectedArtifacts
  acceptanceCriteria := item.acceptanceCriteria
  satisfies := item.satisfies
  kind := item.kind
  options := item.options
  unsplitReason := item.unsplitReason

def decisionIds (items : List PlanItem) : List String :=
  (items.filter fun i => i.kind = .decision).map PlanItem.id

/-- `item.model_copy` without the decisions among the dependencies. -/
def stripDecisions (decisions : List String) (item : PlanItem) : PlanItem :=
  { item with dependencies := item.dependencies.filter (· ∉ decisions) }

def dispatchable (plan : Plan) : List PlanItem :=
  (plan.items.filter fun i => i.kind = .work).map (stripDecisions (decisionIds plan.items))

/-- The containment view `decomposition_from_plan` rebuilds from. -/
def workTree (plan : Plan) : PlanTree := PlanTree.of (dispatchable plan)

def levelPlan (plan : Plan) (tree : PlanTree) (parentTaskId : String)
    (items : List PlanItem) : DecompositionPlan where
  parentTaskId := parentTaskId
  subtasks := items.map (subtaskOfItem tree)
  taskStructure := plan.taskStructure
  coordinationTopology := plan.coordinationTopology

def levelEdges (items : List PlanItem) : List (String × String) :=
  items.flatMap fun item => item.dependencies.map fun dep => (dep, item.id)

def levelFromItems (plan : Plan) (objective : Task) (tree : PlanTree) (now : Int) :
    Nat → List PlanItem → String → Nat → Except DecompositionError DecompositionResult
  | 0, _, _, _ => .error .nestedTooDeep
  | fuel + 1, items, parentTaskId, depth => do
    (levelPlan plan tree parentTaskId items).check.mapError .model
    let tasks ← buildAll (taskFromItem plan objective parentTaskId tree now) items
    let children ← buildAll
      (fun item =>
        levelFromItems plan objective tree now fuel (tree.children item.id) item.id
          (depth + 1))
      (items.filter fun item => tree.isContainer item.id)
    let result := DecompositionResult.mk (levelPlan plan tree parentTaskId items) tasks
      (levelEdges items) depth children
    result.check.mapError .model
    .ok result

def decompositionFromPlan (plan : Plan) (parentTask : Task) (now : Int) :
    Except DecompositionError DecompositionResult :=
  levelFromItems plan parentTask (workTree plan) now (plan.items.length + 1)
    (workTree plan).workstreams parentTask.id.text 0

end Synthorg.Decomposition
