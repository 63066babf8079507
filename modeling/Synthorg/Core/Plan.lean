/-
Putting one item graph under an item of another.

Two graphs that share no id are one graph once the roots of the second hang
under a unit of WORK of the first (`ItemGraph.graft`). That is what an
extension does to a plan, and what a decomposition's own levels are made of.
A level alone is a graph (`itemGraph_level`), and a graph takes one more root
that waits on its other roots (`ItemGraph.snoc`).

The derived views of a plan's tree (plan_tree.py) are reads of one list, and a plan
(plan.py, plan_validation.py, plan_tree_validation.py) is a raw record: `Plan.Valid` is what it must
satisfy and `Plan.check` decides it.
-/
import Synthorg.Core.Task
import Synthorg.Lib.Forest

namespace Synthorg.Core

open Lib

section

section
open List

-- ==== entities

structure PlanOption where
  id : String
  title : String
  summary : String
  recommended : Bool := false
  deriving DecidableEq

structure PlanItem where
  id : String
  title : String
  description : String
  parentId : Option String := none
  dependencies : List String := []
  owner : Option String := none
  acceptanceCriteria : List String
  expectedArtifacts : List String := []
  requiredSkills : List String := []
  requiredTags : List String := []
  estimatedComplexity : Complexity := .medium
  stakes : Stakes := .normal
  kind : PlanItemKind := .work
  options : List PlanOption := []
  chosenOptionId : Option String := none
  satisfies : List String := []
  unsplitReason : Option String := none
  deriving DecidableEq

structure PlanVersionSnapshot where
  version : Int
  items : List PlanItem
  taskStructure : TaskStructure
  capturedAt : Int
  deriving DecidableEq

structure PlanReview where
  json : String
  deriving DecidableEq

/-- How far a decomposition has got, as the text it is stored under. -/
structure DecompositionProgress where
  json : String
  deriving DecidableEq

structure Plan where
  id : Uuid
  project : String
  projectName : String
  objectiveId : String
  objectiveTitle : String
  parentTaskId : String
  items : List PlanItem
  taskStructure : TaskStructure := .sequential
  coordinationTopology : CoordinationTopology := .auto
  status : PlanStatus := .draft
  failureReason : Option String := none
  forecastId : Option Uuid := none
  review : Option PlanReview := none
  openQuestions : List String := []
  assumptions : List String := []
  planningStrategy : Option String := none
  reviewAbsentReason : Option String := none
  decompositionProgress : Option DecompositionProgress := none
  objectiveCriteria : List String := []
  versionHistory : List PlanVersionSnapshot := []
  replanGeneration : Int := 0
  version : Int := 1
  createdAt : Int
  updatedAt : Int
  deriving DecidableEq

def maxPlanVersionHistory : Nat := 20

def maxObjectiveCriteria : Nat := 100

def maxDecisionOptions : Nat := 50

-- ==== one unit

/-- Why a plan unit is refused, an item or the subtask it projects onto. -/
inductive UnitError
  | fields (locs : List FieldLoc)
  | idNotCanonical
  | ownParent
  | selfDependency
  | duplicateDependencies (entries : List String)
  | workWithOptions
  | tooFewOptions
  | duplicateOptionIds
  | recommendedCount
  | unknownChoice
  | noExpectedArtifact
  | decisionWithArtifacts
  deriving DecidableEq

def validateDecisionOptions (kind : PlanItemKind) (options : List PlanOption)
    (chosenOptionId : Option String) : Except UnitError Unit :=
  match kind with
  | .work => require (options = [] ∧ chosenOptionId = none) .workWithOptions
  | .decision => do
    require (2 ≤ options.length) .tooFewOptions
    require (options.map PlanOption.id).Nodup .duplicateOptionIds
    require ((options.filter PlanOption.recommended).length = 1) .recommendedCount
    require (chosenOptionId.all (· ∈ options.map PlanOption.id)) .unknownChoice

def validateExpectedArtifacts (kind : PlanItemKind) (expectedArtifacts : List String) :
    Except UnitError Unit :=
  match kind with
  | .work => require (expectedArtifacts ≠ []) .noExpectedArtifact
  | .decision => require (expectedArtifacts = []) .decisionWithArtifacts

theorem validateDecisionOptions_work (options : List PlanOption) (chosenOptionId : Option String) :
    validateDecisionOptions .work options chosenOptionId = .ok () ↔
      options = [] ∧ chosenOptionId = none := by
  simp [validateDecisionOptions]

def PlanOption.checkedFields (o : PlanOption) : List (FieldLoc × FieldValue) :=
  [(["id"], .text o.id), (["title"], .text o.title), (["summary"], .text o.summary)]

def PlanItem.checkedFields (i : PlanItem) : List (FieldLoc × FieldValue) :=
  [(["id"], .text i.id), (["title"], .text i.title),
    (["description"], .text i.description)] ++
  i.parentId.toList.map (fun s => (["parent_id"], .text s)) ++
  indexed "dependencies" i.dependencies ++
  i.owner.toList.map (fun s => (["owner"], .text s)) ++
  [(["acceptance_criteria"], .size i.acceptanceCriteria.length 1 none)] ++
  indexed "acceptance_criteria" i.acceptanceCriteria ++
  indexed "expected_artifacts" i.expectedArtifacts ++
  indexed "required_skills" i.requiredSkills ++
  indexed "required_tags" i.requiredTags ++
  [(["options"], .size i.options.length 0 (some maxDecisionOptions))] ++
  i.options.flatMap PlanOption.checkedFields ++
  i.chosenOptionId.toList.map (fun s => (["chosen_option_id"], .text s)) ++
  indexed "satisfies" i.satisfies ++
  i.unsplitReason.toList.map (fun s => (["unsplit_reason"], .text s))

structure PlanItem.FieldsOk (i : PlanItem) : Prop where
  id : notBlank i.id = true
  title : notBlank i.title = true
  description : notBlank i.description = true
  parent_id : ∀ p, i.parentId = some p → notBlank p = true
  dependencies : ∀ d ∈ i.dependencies, notBlank d = true
  owner : ∀ o, i.owner = some o → notBlank o = true
  criteria_given : i.acceptanceCriteria ≠ []
  criteria : ∀ c ∈ i.acceptanceCriteria, notBlank c = true
  artifacts : ∀ a ∈ i.expectedArtifacts, notBlank a = true
  skills : ∀ s ∈ i.requiredSkills, notBlank s = true
  tags : ∀ t ∈ i.requiredTags, notBlank t = true
  options_few : i.options.length ≤ maxDecisionOptions
  options : ∀ c ∈ i.options.flatMap PlanOption.checkedFields, c.2.ok = true
  chosen : ∀ c, i.chosenOptionId = some c → notBlank c = true
  satisfies : ∀ s ∈ i.satisfies, notBlank s = true
  unsplit_reason : ∀ r, i.unsplitReason = some r → notBlank r = true

theorem PlanItem.checkedFields_ok_iff (i : PlanItem) :
    (∀ c ∈ i.checkedFields, c.2.ok = true) ↔ i.FieldsOk := by
  have hc : 1 ≤ i.acceptanceCriteria.length ↔ i.acceptanceCriteria ≠ [] := by
    rw [Nat.one_le_iff_ne_zero, ne_eq, length_eq_zero_iff]
  unfold PlanItem.checkedFields
  simp only [forall_mem_append, forall_mem_cons, not_mem_nil, and_true,
    indexed_ok_iff, optional_ok_iff, FieldValue.ok_size, hc,
    Nat.zero_le, true_and, reduceCtorEq, false_implies, implies_true, Option.some.injEq,
    forall_eq']
  constructor
  · rintro ⟨⟨⟨⟨⟨⟨⟨⟨⟨⟨⟨⟨⟨⟨hid, httl, hd⟩, hp⟩, hdeps⟩, howner⟩, hg⟩,
      hc⟩, ha⟩, hs⟩, htags⟩, hfew⟩, hoptions⟩, hchosen⟩, hsat⟩,
      hu⟩
    exact ⟨hid, httl, hd, hp, hdeps, howner, hg, hc,
      ha, hs, htags, hfew, hoptions, hchosen, hsat, hu⟩
  · intro h
    exact ⟨⟨⟨⟨⟨⟨⟨⟨⟨⟨⟨⟨⟨⟨h.id, h.title, h.description⟩, h.parent_id⟩, h.dependencies⟩,
      h.owner⟩, h.criteria_given⟩, h.criteria⟩, h.artifacts⟩, h.skills⟩, h.tags⟩,
      h.options_few⟩, h.options⟩, h.chosen⟩, h.satisfies⟩, h.unsplit_reason⟩

/-- `PlanItem.model_validate` past coercion: the field rules, then
`_validate_item`. -/
def PlanItem.check (i : PlanItem) : Except UnitError Unit := do
  require (brokenFields i.checkedFields = []) (.fields (brokenFields i.checkedFields))
  require (isCanonicalUuid i.id) .idNotCanonical
  require (some i.id ≠ i.parentId) .ownParent
  require (i.id ∉ i.dependencies) .selfDependency
  require (duplicates i.dependencies = [])
    (.duplicateDependencies (duplicates i.dependencies))
  validateDecisionOptions i.kind i.options i.chosenOptionId
  validateExpectedArtifacts i.kind i.expectedArtifacts

structure PlanItem.Valid (i : PlanItem) : Prop where
  fields : ∀ c ∈ i.checkedFields, c.2.ok = true
  canonical : isCanonicalUuid i.id = true
  not_own_parent : i.parentId ≠ some i.id
  no_self_dependency : i.id ∉ i.dependencies
  dependencies_nodup : i.dependencies.Nodup
  options_shaped : validateDecisionOptions i.kind i.options i.chosenOptionId = .ok ()
  artifacts_shaped : validateExpectedArtifacts i.kind i.expectedArtifacts = .ok ()

theorem PlanItem.check_ok_iff (i : PlanItem) : i.check = .ok () ↔ i.Valid := by
  unfold PlanItem.check
  simp only [bind_unit_ok_iff, require_ok_iff, brokenFields_eq_nil_iff, duplicates_eq_nil_iff]
  constructor
  · rintro ⟨hf, hid, hp, hself, hdeps, hoptions, ha⟩
    exact ⟨hf, hid, Ne.symm hp, hself, hdeps, hoptions, ha⟩
  · intro h
    exact ⟨h.fields, h.canonical, h.not_own_parent.symm, h.no_self_dependency,
      h.dependencies_nodup, h.options_shaped, h.artifacts_shaped⟩

-- ==== dependencies

def dependenciesOf (items : List PlanItem) : String → List String :=
  Keyed.edges PlanItem.id PlanItem.dependencies items

/-- The loop of `_reject_dependency_cycle`: drop what waits on nothing. -/
def reduceDependencies : Nat → List (String × List String) → List (String × List String)
  | 0, pending => pending
  | fuel + 1, pending =>
    let ready := (pending.filter fun e => e.2 = []).map Prod.fst
    if ready = [] then pending
    else
      reduceDependencies fuel
        ((pending.filter fun e => e.1 ∉ ready).map fun e =>
          (e.1, e.2.filter (· ∉ ready)))

/-- The items `_reject_dependency_cycle` finds caught in a cycle. -/
def cyclicItems (items : List PlanItem) : List (String × List String) :=
  reduceDependencies items.length (items.map fun i => (i.id, i.dependencies))

/-- What `pending` holds once only `nodes` are left. -/
def pendingOn (deps : String → List String) (nodes : List String) : List (String × List String) :=
  nodes.map fun k => (k, (deps k).filter (· ∈ nodes))

theorem reduceDependencies_eq (deps : String → List String) (fuel : Nat) (nodes : List String) :
    reduceDependencies fuel (pendingOn deps nodes) =
      pendingOn deps (Layers.peel deps fuel nodes).2 := by
  induction fuel generalizing nodes with
  | zero => rfl
  | succ fuel ih =>
    have hr : ((pendingOn deps nodes).filter fun e => e.2 = []).map Prod.fst =
        Layers.ready deps nodes := by
      unfold pendingOn Layers.ready
      rw [filter_map, map_map]
      have hid : (Prod.fst ∘ fun k => (k, (deps k).filter (· ∈ nodes))) = id := rfl
      rw [hid, map_id]
      apply filter_congr
      intro k _
      simp [filter_eq_nil_iff]
    unfold reduceDependencies Layers.peel
    rw [hr]
    by_cases hnil : Layers.ready deps nodes = []
    · rw [if_pos hnil, if_pos hnil]
    · rw [if_neg hnil, if_neg hnil, ← ih]
      congr 1
      unfold pendingOn Layers.without
      rw [filter_map, map_map]
      apply map_congr_left
      intro k _
      simp only [Function.comp, filter_filter, Prod.mk.injEq, true_and]
      apply filter_congr
      intro d _
      simp [Bool.and_comm]

theorem cyclicItems_eq_nil_iff {items : List PlanItem}
    (hdistinct : Keyed.Distinct PlanItem.id items)
    (hknown : ∀ i ∈ items, ∀ d ∈ i.dependencies, d ∈ items.map PlanItem.id) :
    cyclicItems items = [] ↔ Layers.Acyclic (dependenciesOf items) := by
  have hc : Layers.Closed (dependenciesOf items) (items.map PlanItem.id) := by
    intro k hk d hd
    obtain ⟨i, hi, rfl⟩ := mem_map.1 hk
    unfold dependenciesOf at hd
    rw [Keyed.edges_key hdistinct hi] at hd
    exact hknown i hi d hd
  have hs : (items.map fun i => (i.id, i.dependencies)) =
      pendingOn (dependenciesOf items) (items.map PlanItem.id) := by
    unfold pendingOn dependenciesOf
    rw [map_map]
    apply map_congr_left
    intro i hi
    simp only [Function.comp, Keyed.edges_key hdistinct hi]
    rw [filter_eq_self.2]
    intro d hd
    simpa using hknown i hi d hd
  unfold cyclicItems
  rw [hs, reduceDependencies_eq, pendingOn, map_eq_nil_iff]
  constructor
  · intro hrest
    obtain ⟨rank, -, hrank⟩ := Layers.exists_rank_of_peel hdistinct hrest
    exact hrank.acyclic hc fun k hk => Keyed.edges_of_not_mem hk
  · intro ha
    exact Layers.peel_rest_of_acyclic ha (by simp)

-- ==== containment

inductive TreeProblem
  | unknownParent (id parent : String)
  | decisionParent (id parent : String)
  | containmentCycle (ids : List String)
  | crossLevel (id dependency : String)
  deriving DecidableEq

def parentProblem (units : List PlanItem) (u : PlanItem) : Option TreeProblem :=
  match u.parentId with
  | none => none
  | some p =>
    match Keyed.lookup PlanItem.id units p with
    | none => some (.unknownParent u.id p)
    | some held => if held.kind = .decision then some (.decisionParent u.id p) else none

/-- The loop of `_describe_parent_cycles`: drop whatever has no pending
parent. -/
def reduceParents : Nat → List (String × String) → List (String × String)
  | 0, pending => pending
  | fuel + 1, pending =>
    let settled := (pending.filter fun e => e.2 ∉ pending.map Prod.fst).map Prod.fst
    if settled = [] then pending
    else reduceParents fuel (pending.filter fun e => e.1 ∉ settled)

def parentedEntry (units : List PlanItem) (u : PlanItem) : Option (String × String) :=
  match u.parentId with
  | none => none
  | some p => if p ∈ units.map PlanItem.id then some (u.id, p) else none

def parented (units : List PlanItem) : List (String × String) :=
  units.filterMap (parentedEntry units)

def describeParentCycles (units : List PlanItem) : List TreeProblem :=
  let pending := reduceParents (parented units).length (parented units)
  if pending = [] then []
  else [.containmentCycle ((pending.map Prod.fst).insertionSort (· ≤ ·))]

def crossLevelOf (units : List PlanItem) (u : PlanItem) : List TreeProblem :=
  u.dependencies.filterMap fun d =>
    match Keyed.lookup PlanItem.id units d with
    | none => none
    | some held => if held.parentId ≠ u.parentId then some (.crossLevel u.id d) else none

def describeCrossLevelDependencies (units : List PlanItem) : List TreeProblem :=
  (units.filter fun u => u.parentId.all (· ∈ units.map PlanItem.id)).flatMap
    (crossLevelOf units)

/-- Every violation, not only the first. -/
def describeMalformedTree (units : List PlanItem) : List TreeProblem :=
  units.filterMap (parentProblem units) ++ describeParentCycles units ++
    describeCrossLevelDependencies units

structure Contained (items : List PlanItem) : Prop where
  forest : Forest.IsForest PlanItem.id PlanItem.parentId items
  parent_is_work : ∀ i ∈ items, ∀ p ∈ items, i.parentId = some p.id → p.kind = .work
  same_level : ∀ i ∈ items, ∀ d ∈ items, d.id ∈ i.dependencies →
    d.parentId = i.parentId

variable {units : List PlanItem}

theorem parentProblem_eq_none_iff (hdistinct : Keyed.Distinct PlanItem.id units) (u : PlanItem) :
    parentProblem units u = none ↔
      ∀ p, u.parentId = some p → p ∈ units.map PlanItem.id ∧
        ∀ held ∈ units, held.id = p → held.kind = .work := by
  unfold parentProblem
  cases hp : u.parentId with
  | none => simp
  | some p =>
    dsimp only
    cases hlook : Keyed.lookup PlanItem.id units p with
    | none =>
      rw [Keyed.lookup_eq_none_iff] at hlook
      simp only [reduceCtorEq, false_iff]
      intro h
      obtain ⟨x, hx, hxp⟩ := mem_map.1 (h p rfl).1
      exact hlook x hx hxp
    | some held =>
      obtain ⟨hmem, hid⟩ := Keyed.lookup_mem hlook
      have hkind : held.kind = .work ↔ ¬ held.kind = .decision := by
        cases held.kind <;> simp
      dsimp only
      split
      next hdec =>
        simp only [reduceCtorEq, false_iff]
        intro h
        have hwork := (h p rfl).2 held hmem hid
        exact hkind.1 hwork hdec
      next hdec =>
        simp only [true_iff]
        intro q hq
        obtain rfl := Option.some.inj hq
        refine ⟨hid ▸ mem_map_of_mem hmem, ?_⟩
        intro other ho hsame
        have heq := Keyed.eq_of_key hdistinct ho hmem (hsame.trans hid.symm)
        rw [heq]
        exact hkind.2 hdec

theorem reduceParents_eq (parentOf : String → String) (fuel : Nat) (nodes : List String) :
    reduceParents fuel (nodes.map fun k => (k, parentOf k)) =
      (Layers.peel (fun k => [parentOf k]) fuel nodes).2.map
        fun k => (k, parentOf k) := by
  induction fuel generalizing nodes with
  | zero => rfl
  | succ fuel ih =>
    have hkeys : (nodes.map fun k => (k, parentOf k)).map Prod.fst = nodes := by
      rw [map_map]
      exact map_id nodes
    have hs : ((nodes.map fun k => (k, parentOf k)).filter fun e => e.2 ∉ nodes).map Prod.fst =
          Layers.ready (fun k => [parentOf k]) nodes := by
      rw [filter_map, map_map]
      have hid : (Prod.fst ∘ fun k => (k, parentOf k)) = id := rfl
      rw [hid, map_id]
      apply filter_congr
      intro k _
      simp
    unfold reduceParents Layers.peel
    rw [hkeys, hs]
    by_cases hnil : Layers.ready (fun k => [parentOf k]) nodes = []
    · rw [if_pos hnil, if_pos hnil]
    · rw [if_neg hnil, if_neg hnil, ← ih]
      congr 1
      rw [filter_map]
      rfl

theorem parentedEntry_eq_some {u : PlanItem} {e : String × String}
    (h : parentedEntry units u = some e) : u.id = e.1 ∧ u.parentId = some e.2 := by
  unfold parentedEntry at h
  split at h
  next => cases h
  next p hp =>
    split at h
    next =>
      obtain rfl := Option.some.inj h
      exact ⟨rfl, hp⟩
    next => cases h

theorem mem_parented {k p : String} : (k, p) ∈ parented units ↔
      ∃ u ∈ units, u.id = k ∧ u.parentId = some p ∧ p ∈ units.map PlanItem.id := by
  unfold parented
  rw [mem_filterMap]
  refine exists_congr fun u => and_congr_right fun _ => ?_
  unfold parentedEntry
  cases u.parentId with
  | none => simp
  | some q =>
    dsimp only
    split
    next hq => simpa using fun _ hp => by rw [← hp]; simpa using hq
    next hq => simpa using fun _ hp => by rw [← hp]; simpa using hq

section
variable (hdistinct : Keyed.Distinct PlanItem.id units)
include hdistinct

theorem parented_keys_nodup : ((parented units).map Prod.fst).Nodup :=
  (Keyed.filterMap_keys_sublist
    (fun _ _ h => (parentedEntry_eq_some h).1.symm) units).nodup hdistinct

theorem describeParentCycles_eq_nil_iff_ranked : describeParentCycles units = [] ↔
      ∃ rank : String → Nat, (∀ k, rank k ≤ units.length) ∧
        ∀ e ∈ parented units, rank e.2 < rank e.1 := by
  let parentOf := fun k => (Forest.up PlanItem.id PlanItem.parentId units k).getD ""
  let nodes := (parented units).map Prod.fst
  have hparent : ∀ e ∈ parented units, parentOf e.1 = e.2 := by
    rintro ⟨k, p⟩ he
    obtain ⟨u, hu, rfl, hp, -⟩ := mem_parented.1 he
    show (Forest.up PlanItem.id PlanItem.parentId units u.id).getD "" = p
    unfold Forest.up
    rw [Keyed.lookup_key hdistinct hu]
    simp [hp]
  have hview : parented units = nodes.map fun k => (k, parentOf k) := by
    show parented units = ((parented units).map Prod.fst).map _
    rw [map_map]
    conv_lhs => rw [← map_id (parented units)]
    apply map_congr_left
    intro e he
    simp only [Function.comp, id, hparent e he]
  have hlen : (parented units).length = nodes.length := by simp [nodes]
  have hnil : describeParentCycles units = [] ↔
      (Layers.peel (fun k => [parentOf k]) nodes.length nodes).2 = [] := by
    unfold describeParentCycles
    rw [hview, reduceParents_eq]
    simp
  rw [hnil]
  constructor
  · intro hrest
    obtain ⟨rank, hb, hrank⟩ := Layers.exists_rank_of_peel (parented_keys_nodup hdistinct) hrest
    refine ⟨rank, fun k => (hb k).trans ?_, fun e he => ?_⟩
    · rw [← hlen]
      exact length_filterMap_le _ _
    · apply hrank e.1 (mem_map_of_mem he)
      show e.2 ∈ [parentOf e.1]
      rw [hparent e he]
      exact mem_singleton_self _
  · rintro ⟨rank, -, hrank⟩
    refine Layers.peel_rest_of_rank (?_ : Layers.Rank _ _ rank) (Nat.le_refl _)
    intro k hk d hd
    obtain ⟨e, he, rfl⟩ := mem_map.1 hk
    have hd : d = e.2 := (mem_singleton.1 hd).trans (hparent e he)
    rw [hd]
    exact hrank e he

theorem describeParentCycles_eq_nil_iff
    (hk : ∀ u ∈ units, ∀ p, u.parentId = some p → p ∈ units.map PlanItem.id) :
    describeParentCycles units = [] ↔
      ∃ rank : String → Nat, (∀ k, rank k ≤ units.length) ∧
        ∀ u ∈ units, ∀ p, u.parentId = some p → rank p < rank u.id := by
  rw [describeParentCycles_eq_nil_iff_ranked hdistinct]
  refine exists_congr fun rank => and_congr_right fun _ => ?_
  constructor
  · intro h u hu p hp
    exact h (u.id, p) (mem_parented.2 ⟨u, hu, rfl, hp, hk u hu p hp⟩)
  · rintro h ⟨k, p⟩ he
    obtain ⟨u, hu, rfl, hp, -⟩ := mem_parented.1 he
    exact h u hu p hp

/-- Where the parents are known, the edges that cross a level are the ones
`describe_malformed_tree` names. -/
theorem crossLevel_eq_nil_iff
    (hknown : ∀ u ∈ units, ∀ p, u.parentId = some p → p ∈ units.map PlanItem.id) :
    describeCrossLevelDependencies units = [] ↔
      ∀ u ∈ units, ∀ d ∈ units, d.id ∈ u.dependencies → d.parentId = u.parentId := by
  have he : (units.filter fun u => u.parentId.all (· ∈ units.map PlanItem.id)) = units := by
    rw [filter_eq_self]
    intro u hu
    cases hp : u.parentId with
    | none => rfl
    | some p => simpa using hknown u hu p hp
  have hone : ∀ u, crossLevelOf units u = [] ↔
      ∀ d ∈ units, d.id ∈ u.dependencies → d.parentId = u.parentId := by
    intro u
    unfold crossLevelOf
    rw [filterMap_eq_nil_iff]
    constructor
    · intro h d hd hdep
      have hnone := h d.id hdep
      rw [Keyed.lookup_key hdistinct hd] at hnone
      by_contra hne
      simp [hne] at hnone
    · intro h k hk
      cases hlook : Keyed.lookup PlanItem.id units k with
      | none => rfl
      | some d =>
        obtain ⟨hd, rfl⟩ := Keyed.lookup_mem hlook
        simp [h d hd hk]
  unfold describeCrossLevelDependencies
  rw [he, flatMap_eq_nil_iff]
  simp only [hone]

theorem describeMalformedTree_eq_nil_iff : describeMalformedTree units = [] ↔ Contained units := by
  have hparent : units.filterMap (parentProblem units) = [] ↔
      (∀ u ∈ units, ∀ p, u.parentId = some p → p ∈ units.map PlanItem.id) ∧
        ∀ u ∈ units, ∀ p ∈ units, u.parentId = some p.id → p.kind = .work := by
    rw [filterMap_eq_nil_iff]
    simp only [parentProblem_eq_none_iff hdistinct]
    constructor
    · intro h
      exact ⟨fun u hu p hp => (h u hu p hp).1, fun u hu p hp hup =>
        (h u hu p.id hup).2 p hp rfl⟩
    · rintro ⟨hk, hwork⟩ u hu p hp
      refine ⟨hk u hu p hp, ?_⟩
      intro held hheld hid
      exact hwork u hu held hheld (hid ▸ hp)
  unfold describeMalformedTree
  rw [append_eq_nil_iff, append_eq_nil_iff, hparent]
  constructor
  · rintro ⟨⟨⟨hk, hwork⟩, hc⟩, hcross⟩
    exact ⟨⟨hdistinct, hk,
      (describeParentCycles_eq_nil_iff hdistinct hk).1 hc⟩, hwork,
      (crossLevel_eq_nil_iff hdistinct hk).1 hcross⟩
  · intro h
    have hk := h.forest.known
    exact ⟨⟨⟨hk, h.parent_is_work⟩,
      (describeParentCycles_eq_nil_iff hdistinct hk).2 h.forest.ranked⟩,
      (crossLevel_eq_nil_iff hdistinct hk).2 h.same_level⟩

end

-- ==== the plan

/-- Why `Plan.model_validate` refuses a plan. -/
inductive PlanError
  | item (id : String) (e : UnitError)
  | fields (locs : List FieldLoc)
  | noItems
  | duplicateItems (ids : List String)
  | unknownItems (id : String) (missing : List String)
  | dependencyCycle (ids : List String)
  | malformedTree (problems : List TreeProblem)
  | failedWithoutReason
  | reasonWithoutFailed (status : PlanStatus)
  deriving DecidableEq

def Plan.checkedFields (p : Plan) : List (FieldLoc × FieldValue) :=
  [(["project"], .text p.project), (["project_name"], .text p.projectName),
    (["objective_id"], .text p.objectiveId),
    (["objective_title"], .text p.objectiveTitle),
    (["parent_task_id"], .text p.parentTaskId)] ++
  p.failureReason.toList.map (fun s => (["failure_reason"], .text s)) ++
  indexed "open_questions" p.openQuestions ++
  indexed "assumptions" p.assumptions ++
  p.planningStrategy.toList.map (fun s => (["planning_strategy"], .text s)) ++
  p.reviewAbsentReason.toList.map (fun s => (["review_absent_reason"], .text s)) ++
  [(["objective_criteria"],
    .size p.objectiveCriteria.length 0 (some maxObjectiveCriteria))] ++
  indexed "objective_criteria" p.objectiveCriteria ++
  [(["version_history"],
    .size p.versionHistory.length 0 (some maxPlanVersionHistory))] ++
  p.versionHistory.map (fun s => (["version_history", "version"], .atLeast 1 s.version)) ++
  [(["replan_generation"], .atLeast 0 p.replanGeneration),
    (["version"], .atLeast 1 p.version)]

def checkItem (i : PlanItem) : Except PlanError Unit :=
  i.check.mapError (PlanError.item i.id)

def missingDependencies (items : List PlanItem) (i : PlanItem) : List String :=
  i.dependencies.filter (· ∉ items.map PlanItem.id)

/-- `_validate_items`: an itemless plan has no graph to check. -/
def checkGraph (p : Plan) : Except PlanError Unit :=
  if p.items = [] then require p.status.itemless .noItems
  else do
    require (duplicates (p.items.map PlanItem.id) = [])
      (.duplicateItems (duplicates (p.items.map PlanItem.id)))
    requireAll (fun i => require (missingDependencies p.items i = [])
      (.unknownItems i.id (missingDependencies p.items i))) p.items
    require (cyclicItems p.items = [])
      (.dependencyCycle (((cyclicItems p.items).map Prod.fst).insertionSort (· ≤ ·)))
    require (describeMalformedTree p.items = [])
      (.malformedTree (describeMalformedTree p.items))

/-- `_validate_failure_reason`: present iff FAILED. -/
def checkFailureReason (p : Plan) : Except PlanError Unit := do
  require (p.status = .failed → p.failureReason ≠ none) .failedWithoutReason
  require (p.failureReason ≠ none → p.status = .failed) (.reasonWithoutFailed p.status)

/-- `Plan.model_validate` past coercion: the items and snapshots, the plan's fields, and the two
validators. -/
def Plan.check (p : Plan) : Except PlanError Unit := do
  requireAll checkItem p.items
  requireAll checkItem (p.versionHistory.flatMap PlanVersionSnapshot.items)
  require (brokenFields p.checkedFields = []) (.fields (brokenFields p.checkedFields))
  checkGraph p
  checkFailureReason p

structure ItemGraph (items : List PlanItem) : Prop where
  distinct : Keyed.Distinct PlanItem.id items
  known : ∀ i ∈ items, ∀ d ∈ i.dependencies, d ∈ items.map PlanItem.id
  acyclic : Layers.Acyclic (dependenciesOf items)
  contained : Contained items

structure Plan.Valid (p : Plan) : Prop where
  items_valid : ∀ i ∈ p.items, i.Valid
  history_valid : ∀ i ∈ p.versionHistory.flatMap PlanVersionSnapshot.items, i.Valid
  fields : ∀ c ∈ p.checkedFields, c.2.ok = true
  filled : p.items = [] → p.status.itemless = true
  graph : ItemGraph p.items
  failure_reason : p.failureReason ≠ none ↔ p.status = .failed

theorem checkItem_ok_iff (i : PlanItem) : checkItem i = .ok () ↔ i.Valid := by
  rw [← PlanItem.check_ok_iff]
  unfold checkItem
  cases i.check with
  | error e | ok u => simp [Except.mapError]

theorem itemGraph_nil : ItemGraph [] where
  distinct := nodup_nil
  known := fun _ hi => absurd hi not_mem_nil
  acyclic := by
    intro a ha
    obtain ⟨b, hb, -⟩ := Relation.TransGen.head'_iff.1 ha
    cases hb
  contained :=
    { forest :=
        { distinct := nodup_nil
          known := fun _ hx => absurd hx not_mem_nil
          ranked := ⟨fun _ => 0, fun _ => Nat.le_refl 0,
            fun _ hx => absurd hx not_mem_nil⟩ }
      parent_is_work := fun _ hi => absurd hi not_mem_nil
      same_level := fun _ hi => absurd hi not_mem_nil }

theorem checkGraph_ok_iff (p : Plan) : checkGraph p = .ok () ↔
      (p.items = [] → p.status.itemless = true) ∧ ItemGraph p.items := by
  unfold checkGraph
  split
  next hnil =>
    rw [hnil]
    simp [itemGraph_nil]
  next hne =>
    simp only [bind_unit_ok_iff, require_ok_iff, requireAll_ok_iff, duplicates_eq_nil_iff]
    have hmiss : (∀ i ∈ p.items, missingDependencies p.items i = []) ↔
        ∀ i ∈ p.items, ∀ d ∈ i.dependencies, d ∈ p.items.map PlanItem.id := by
      simp [missingDependencies]
    rw [hmiss]
    constructor
    · rintro ⟨hdistinct, hk, hc, htree⟩
      exact ⟨fun h => absurd h hne, hdistinct, hk,
        (cyclicItems_eq_nil_iff hdistinct hk).1 hc,
        (describeMalformedTree_eq_nil_iff hdistinct).1 htree⟩
    · rintro ⟨-, h⟩
      exact ⟨h.distinct, h.known,
        (cyclicItems_eq_nil_iff h.distinct h.known).2 h.acyclic,
        (describeMalformedTree_eq_nil_iff h.distinct).2 h.contained⟩

theorem Plan.check_ok_iff (p : Plan) : p.check = .ok () ↔ p.Valid := by
  unfold Plan.check checkFailureReason
  simp only [bind_unit_ok_iff, requireAll_ok_iff, require_ok_iff, checkItem_ok_iff,
    brokenFields_eq_nil_iff, checkGraph_ok_iff]
  constructor
  · rintro ⟨hitems, hhist, hf, ⟨hfill, hg⟩, hfail, hr⟩
    exact ⟨hitems, hhist, hf, hfill, hg, hr, hfail⟩
  · intro h
    exact ⟨h.items_valid, h.history_valid, h.fields, ⟨h.filled, h.graph⟩,
      h.failure_reason.2, h.failure_reason.1⟩

instance (p : Plan) : Decidable p.Valid :=
  decidable_of_iff (p.check = .ok ()) p.check_ok_iff

def Plan.modelValidate (p : Plan) : Except PlanError Plan := do
  p.check
  .ok p

theorem Plan.modelValidate_ok_iff (p q : Plan) : p.modelValidate = .ok q ↔ p.Valid ∧ q = p := by
  unfold Plan.modelValidate
  rw [bind_unit_ok_iff, Plan.check_ok_iff, Except.ok.injEq]
  exact and_congr_right fun _ => eq_comm

/-- The only sanctioned way to a FAILED plan. -/
def Plan.fail (p : Plan) (reason : String) (now : Int) : Plan :=
  { p with
    status := .failed
    failureReason := some reason
    version := p.version + 1
    updatedAt := now }

end

/-- One hop down a plan's containment. -/
structure SubtreeStep where
  title : String
  position : Nat
  deriving DecidableEq

structure PlanTree where
  items : List PlanItem

namespace PlanTree

def of (items : List PlanItem) : PlanTree := ⟨items⟩

variable (tree : PlanTree)

def workstreams : List PlanItem :=
  Forest.childrenOf PlanItem.parentId tree.items none

def children (id : String) : List PlanItem :=
  Forest.childrenOf PlanItem.parentId tree.items (some id)

/-- Derived from having children, never declared. -/
def isContainer (id : String) : Bool :=
  tree.children id ≠ []

/-- How many levels sit above an item. -/
def depth (id : String) : Nat :=
  Forest.depth PlanItem.id PlanItem.parentId tree.items id

def siblings (item : PlanItem) : List PlanItem :=
  match item.parentId with
  | none => tree.workstreams
  | some parent => tree.children parent

def step (item : PlanItem) : SubtreeStep where
  title := item.title
  position := ((tree.siblings item).findIdx? fun s => s.id = item.id).getD 0

def address (id : String) : List SubtreeStep :=
  (Forest.chain PlanItem.id PlanItem.parentId tree.items id).map tree.step

def parentId (id : String) : Option String :=
  Forest.up PlanItem.id PlanItem.parentId tree.items id

def depthLoop : Nat → Nat → Option String → Option Nat
  | _, level, none => some level
  | 0, _, some _ => none
  | fuel + 1, level, some current => depthLoop fuel (level + 1) (tree.parentId current)

def depthWalk (fuel : Nat) (id : String) : Option Nat :=
  tree.depthLoop fuel 0 (tree.parentId id)

def byId (id : String) : Option PlanItem :=
  Keyed.lookup PlanItem.id tree.items id

def addressLoop : Nat → List SubtreeStep → Option PlanItem → Option (List SubtreeStep)
  | _, chain, none => some chain.reverse
  | 0, _, some _ => none
  | fuel + 1, chain, some current =>
    addressLoop fuel (chain ++ [tree.step current]) (current.parentId.bind tree.byId)

def addressWalk (fuel : Nat) (id : String) : Option (List SubtreeStep) :=
  tree.addressLoop fuel [] (tree.byId id)

def belowLoop : Nat → List (PlanItem × Bool) → List PlanItem → Option (List PlanItem)
  | _, [], ordered => some ordered
  | 0, _ :: _, _ => none
  | fuel + 1, (node, true) :: pending, ordered => belowLoop fuel pending (ordered ++ [node])
  | fuel + 1, (node, false) :: pending, ordered =>
    belowLoop fuel
      ((tree.children node.id).map (fun child => (child, false)) ++ (node, true) :: pending)
      ordered

/-- An item's subtree, children before it. -/
def below (fuel : Nat) (item : PlanItem) : Option (List PlanItem) :=
  tree.belowLoop fuel [(item, false)] []

/-- Every workstream's subtree in turn. -/
def deepestFirst (fuel : Nat) : Option (List PlanItem) :=
  tree.workstreams.foldlM (fun ordered workstream =>
    (tree.below fuel workstream).map (ordered ++ ·)) []

variable {tree}

theorem mem_workstreams {item : PlanItem} :
    item ∈ tree.workstreams ↔ item ∈ tree.items ∧ item.parentId = none :=
  Forest.mem_childrenOf

theorem mem_children {id : String} {item : PlanItem} :
    item ∈ tree.children id ↔ item ∈ tree.items ∧ item.parentId = some id :=
  Forest.mem_childrenOf

theorem isContainer_iff {id : String} : tree.isContainer id = true ↔ tree.children id ≠ [] := by
  simp [isContainer]

end PlanTree

end

open List

def reparentRoot (parentId : String) (item : PlanItem) : PlanItem :=
  match item.parentId with
  | some _ => item
  | none => { item with parentId := some parentId }

variable {parentId : String} {item : PlanItem} {items : List PlanItem}

@[simp]
theorem reparentRoot_id : (reparentRoot parentId item).id = item.id := by
  unfold reparentRoot
  split <;> rfl

@[simp]
theorem reparentRoot_dependencies :
    (reparentRoot parentId item).dependencies = item.dependencies := by
  unfold reparentRoot
  split <;> rfl

@[simp]
theorem reparentRoot_kind : (reparentRoot parentId item).kind = item.kind := by
  unfold reparentRoot
  split <;> rfl

theorem reparentRoot_parentId :
    (reparentRoot parentId item).parentId = some (item.parentId.getD parentId) := by
  unfold reparentRoot
  split
  next p hp => rw [hp, Option.getD_some]
  next hp => rw [hp, Option.getD_none]

theorem reparentRoot_of_some {p : String} (h : item.parentId = some p) :
    reparentRoot parentId item = item := by
  unfold reparentRoot
  rw [h]

theorem map_id_reparentRoot (parentId : String) (items : List PlanItem) :
    (items.map (reparentRoot parentId)).map PlanItem.id = items.map PlanItem.id := by
  rw [map_map]
  exact map_congr_left fun item _ => reparentRoot_id

theorem reparentRoot_valid (h : item.Valid) (hparent : notBlank parentId = true)
    (hne : parentId ≠ item.id) : (reparentRoot parentId item).Valid := by
  cases hp : item.parentId with
  | some p =>
    rw [reparentRoot_of_some hp]
    exact h
  | none =>
    have hm : reparentRoot parentId item = { item with parentId := some parentId } := by
      unfold reparentRoot
      rw [hp]
    have hf := (PlanItem.checkedFields_ok_iff item).1 h.fields
    rw [hm]
    refine ⟨(PlanItem.checkedFields_ok_iff _).2 { hf with parent_id := ?_ },
      h.canonical, fun heq => hne (Option.some.inj heq), h.no_self_dependency,
      h.dependencies_nodup, h.options_shaped, h.artifacts_shaped⟩
    intro p hp
    cases hp
    exact hparent

-- ==== the ranks

theorem acyclic_of_rank (hdistinct : Keyed.Distinct PlanItem.id items)
    (hknown : ∀ i ∈ items, ∀ d ∈ i.dependencies, d ∈ items.map PlanItem.id) (rank : String → Nat)
    (hrank : ∀ i ∈ items, ∀ d ∈ i.dependencies, rank d < rank i.id) :
    Layers.Acyclic (dependenciesOf items) := by
  have he : ∀ i ∈ items, dependenciesOf items i.id = i.dependencies := fun i hi =>
    Keyed.edges_key hdistinct hi
  refine Layers.Rank.acyclic (?_ : Layers.Rank _ (items.map PlanItem.id) rank) ?_ ?_
  · intro k hk d hd
    obtain ⟨i, hi, rfl⟩ := mem_map.1 hk
    exact hrank i hi d (he i hi ▸ hd)
  · intro k hk d hd
    obtain ⟨i, hi, rfl⟩ := mem_map.1 hk
    exact hknown i hi d (he i hi ▸ hd)
  · exact fun k hk => Keyed.edges_of_not_mem hk

theorem ItemGraph.exists_rank (h : ItemGraph items) :
    ∃ rank : String → Nat, (∀ k, rank k ≤ items.length) ∧
      ∀ i ∈ items, ∀ d ∈ i.dependencies, rank d < rank i.id := by
  have hrest := Layers.peel_rest_of_acyclic h.acyclic (Nat.le_refl (items.map PlanItem.id).length)
  obtain ⟨rank, hb, hrank⟩ := Layers.exists_rank_of_peel h.distinct hrest
  refine ⟨rank, fun k => ?_, fun i hi d hd => ?_⟩
  · rw [← length_map PlanItem.id]
    exact hb k
  · refine hrank i.id (mem_map_of_mem hi) d ?_
    unfold dependenciesOf
    rw [Keyed.edges_key h.distinct hi]
    exact hd

-- ==== one level

theorem itemGraph_level (hr : ∀ i ∈ items, i.parentId = none)
    (hdistinct : Keyed.Distinct PlanItem.id items)
    (hk : ∀ i ∈ items, ∀ d ∈ i.dependencies, d ∈ items.map PlanItem.id)
    (ha : Layers.Acyclic (dependenciesOf items)) : ItemGraph items where
  distinct := hdistinct
  known := hk
  acyclic := ha
  contained :=
    { forest :=
        { distinct := hdistinct
          known := fun i hi p hp => by
            simp [hr i hi] at hp
          ranked := ⟨fun _ => 0, fun _ => Nat.zero_le _, fun i hi p hp => by
            rw [hr i hi] at hp
            cases hp⟩ }
      parent_is_work := fun i hi p _ hp => by
        simp [hr i hi] at hp
      same_level := fun i hi d hd _ => by rw [hr i hi, hr d hd] }

theorem ItemGraph.snoc (h : ItemGraph items) {last : PlanItem} (hroot : last.parentId = none)
    (hf : last.id ∉ items.map PlanItem.id)
    (hw : ∀ d ∈ last.dependencies, ∃ i ∈ items, i.id = d ∧ i.parentId = none) :
    ItemGraph (items ++ [last]) := by
  have hdistinct : Keyed.Distinct PlanItem.id (items ++ [last]) := by
    unfold Keyed.Distinct
    rw [map_append, nodup_append]
    refine ⟨h.distinct, nodup_singleton _, fun a ha b hb heq => hf ?_⟩
    rw [map_singleton, mem_singleton] at hb
    rw [← hb, ← heq]
    exact ha
  have hnew : ∀ d ∈ last.dependencies, d ∈ items.map PlanItem.id := by
    intro d hd
    obtain ⟨i, hi, rfl, -⟩ := hw d hd
    exact mem_map_of_mem hi
  have hk : ∀ i ∈ items ++ [last], ∀ d ∈ i.dependencies,
      d ∈ (items ++ [last]).map PlanItem.id := by
    intro i hi d hd
    rw [map_append]
    apply mem_append_left
    rcases mem_append.1 hi with hold | hlast
    · exact h.known i hold d hd
    · rw [mem_singleton] at hlast
      exact hnew d (hlast ▸ hd)
  have hold : ∀ {i : PlanItem}, i ∈ items ++ [last] → i.id ∈ items.map PlanItem.id → i ∈ items := by
    intro i hi hmem
    rcases mem_append.1 hi with hold | hlast
    · exact hold
    · rw [mem_singleton] at hlast
      exact absurd (hlast ▸ hmem) hf
  have hparent : ∀ i ∈ items ++ [last], ∀ p, i.parentId = some p → i ∈ items := by
    intro i hi p hp
    rcases mem_append.1 hi with hold | hlast
    · exact hold
    · rw [mem_singleton] at hlast
      simp [hlast, hroot] at hp
  obtain ⟨rank, hbind, hrank⟩ := h.exists_rank
  obtain ⟨depth, -, hdepth⟩ := h.contained.forest.ranked
  refine ⟨hdistinct, hk, ?_, ?_, ?_, ?_⟩
  · refine acyclic_of_rank hdistinct hk
      (fun k => if k = last.id then items.length + 1 else rank k) ?_
    intro i hi d hd
    rcases mem_append.1 hi with hmem | hlast
    · have hd' : d ≠ last.id := fun heq => hf (heq ▸ h.known i hmem d hd)
      have hi' : i.id ≠ last.id := fun heq => hf (heq ▸ mem_map_of_mem hmem)
      rw [if_neg hd', if_neg hi']
      exact hrank i hmem d hd
    · rw [mem_singleton] at hlast
      subst hlast
      have hd' : d ≠ i.id := fun heq => hf (heq ▸ hnew d hd)
      rw [if_neg hd', if_pos rfl]
      exact Nat.lt_succ_of_le (hbind d)
  · refine Forest.isForest_of_rank hdistinct (fun i hi p hp => ?_) depth fun i hi p hp => ?_
    · rw [map_append]
      exact mem_append_left _ (h.contained.forest.known i (hparent i hi p hp) p hp)
    · exact hdepth i (hparent i hi p hp) p hp
  · intro i hi p hp hip
    have hi' := hparent i hi p.id hip
    exact h.contained.parent_is_work i hi' p (hold hp (h.contained.forest.known i hi' p.id hip)) hip
  · intro i hi d hd hdep
    rcases mem_append.1 hi with hmem | hlast
    · exact h.contained.same_level i hmem d (hold hd (h.known i hmem d.id hdep)) hdep
    · rw [mem_singleton] at hlast
      subst hlast
      obtain ⟨held, hheld, hid, hnone⟩ := hw d.id hdep
      have hd' := hold hd (hnew d.id hdep)
      rw [hroot, ← hnone, Keyed.eq_of_key h.distinct hd' hheld hid.symm]

-- ==== the graft

section Graft

variable {items grafted : List PlanItem} {leaf : PlanItem}

/-- GRAFT: a graph of other ids, hung under a unit of WORK, makes one graph with the unit's own. -/
theorem ItemGraph.graft (h : ItemGraph items) (hg : ItemGraph grafted)
    (hleaf : leaf ∈ items) (hwork : leaf.kind = .work)
    (hf : ∀ i ∈ grafted, i.id ∉ items.map PlanItem.id) :
    ItemGraph (items ++ grafted.map (reparentRoot leaf.id)) := by
  have hids := map_id_reparentRoot leaf.id grafted
  have ho : ∀ k ∈ grafted.map PlanItem.id, k ∉ items.map PlanItem.id := by
    intro k hk
    obtain ⟨i, hi, rfl⟩ := mem_map.1 hk
    exact hf i hi
  have hdistinct : Keyed.Distinct PlanItem.id (items ++ grafted.map (reparentRoot leaf.id)) := by
    unfold Keyed.Distinct
    rw [map_append, hids, nodup_append]
    refine ⟨h.distinct, hg.distinct, fun a ha b hb heq => ?_⟩
    exact ho b hb (heq ▸ ha)
  have hknown : ∀ i ∈ items ++ grafted.map (reparentRoot leaf.id), ∀ d ∈ i.dependencies,
      d ∈ (items ++ grafted.map (reparentRoot leaf.id)).map PlanItem.id := by
    intro i hi d hd
    rw [map_append, hids]
    rcases mem_append.1 hi with hold | hnew
    · exact mem_append_left _ (h.known i hold d hd)
    · obtain ⟨n, hn, rfl⟩ := mem_map.1 hnew
      rw [reparentRoot_dependencies] at hd
      exact mem_append_right _ (hg.known n hn d hd)
  -- which side a member is on is read off its id
  have hold : ∀ {i : PlanItem}, i ∈ items ++ grafted.map (reparentRoot leaf.id) →
      i.id ∈ items.map PlanItem.id → i ∈ items := by
    intro i hi hmem
    rcases mem_append.1 hi with hold | hnew
    · exact hold
    · obtain ⟨n, hn, rfl⟩ := mem_map.1 hnew
      rw [reparentRoot_id] at hmem
      exact absurd hmem (hf n hn)
  have hnew : ∀ {i : PlanItem}, i ∈ items ++ grafted.map (reparentRoot leaf.id) →
      i.id ∈ grafted.map PlanItem.id → ∃ n ∈ grafted, reparentRoot leaf.id n = i := by
    intro i hi hmem
    rcases mem_append.1 hi with hold | hnew
    · exact absurd (mem_map_of_mem hold) (ho _ hmem)
    · exact mem_map.1 hnew
  obtain ⟨rank, -, hrank⟩ := h.exists_rank
  obtain ⟨rank', -, hrank'⟩ := hg.exists_rank
  obtain ⟨depth, hdepth, hdeep⟩ := h.contained.forest.ranked
  obtain ⟨depth', -, hdeep'⟩ := hg.contained.forest.ranked
  refine ⟨hdistinct, hknown, ?_, ?_, ?_, ?_⟩
  · refine acyclic_of_rank hdistinct hknown
      (fun k => if k ∈ items.map PlanItem.id then rank k else rank' k) ?_
    intro i hi d hd
    rcases mem_append.1 hi with hmem | hmem
    · rw [if_pos (h.known i hmem d hd), if_pos (mem_map_of_mem hmem)]
      exact hrank i hmem d hd
    · obtain ⟨n, hn, rfl⟩ := mem_map.1 hmem
      rw [reparentRoot_dependencies] at hd
      rw [reparentRoot_id, if_neg (ho d (hg.known n hn d hd)), if_neg (hf n hn)]
      exact hrank' n hn d hd
  · refine Forest.isForest_of_rank hdistinct ?_ (fun k => if k ∈ items.map PlanItem.id then depth k
        else items.length + 1 + depth' k) ?_
    · intro i hi p hp
      rw [map_append, hids]
      rcases mem_append.1 hi with hmem | hmem
      · exact mem_append_left _ (h.contained.forest.known i hmem p hp)
      · obtain ⟨n, hn, rfl⟩ := mem_map.1 hmem
        rw [reparentRoot_parentId, Option.some.injEq] at hp
        cases hparent : n.parentId with
        | none =>
          rw [hparent] at hp
          exact mem_append_left _ (hp ▸ mem_map_of_mem hleaf)
        | some q =>
          rw [hparent] at hp
          exact mem_append_right _ (hp ▸ hg.contained.forest.known n hn q hparent)
    · intro i hi p hp
      rcases mem_append.1 hi with hmem | hmem
      · rw [if_pos (h.contained.forest.known i hmem p hp), if_pos (mem_map_of_mem hmem)]
        exact hdeep i hmem p hp
      · obtain ⟨n, hn, rfl⟩ := mem_map.1 hmem
        rw [reparentRoot_parentId, Option.some.injEq] at hp
        rw [reparentRoot_id, if_neg (hf n hn)]
        cases hparent : n.parentId with
        | none =>
          rw [hparent, Option.getD_none] at hp
          subst hp
          rw [if_pos (mem_map_of_mem hleaf)]
          have hle := hdepth leaf.id
          omega
        | some q =>
          rw [hparent, Option.getD_some] at hp
          subst hp
          rw [if_neg (ho q (hg.contained.forest.known n hn q hparent))]
          have hlt := hdeep' n hn q hparent
          omega
  · intro i hi p hp hip
    rcases mem_append.1 hi with hmem | hmem
    · exact h.contained.parent_is_work i hmem p
        (hold hp (h.contained.forest.known i hmem p.id hip)) hip
    · obtain ⟨n, hn, rfl⟩ := mem_map.1 hmem
      rw [reparentRoot_parentId, Option.some.injEq] at hip
      cases hparent : n.parentId with
      | none =>
        rw [hparent] at hip
        have hp' := hold hp (hip ▸ mem_map_of_mem hleaf)
        rw [Keyed.eq_of_key h.distinct hp' hleaf hip.symm]
        exact hwork
      | some q =>
        rw [hparent] at hip
        subst hip
        obtain ⟨m, hm, rfl⟩ := hnew hp (hg.contained.forest.known n hn p.id hparent)
        rw [reparentRoot_kind]
        refine hg.contained.parent_is_work n hn m hm ?_
        rw [hparent, reparentRoot_id]
  · intro i hi d hd hdep
    rcases mem_append.1 hi with hmem | hmem
    · exact h.contained.same_level i hmem d (hold hd (h.known i hmem d.id hdep)) hdep
    · obtain ⟨n, hn, rfl⟩ := mem_map.1 hmem
      rw [reparentRoot_dependencies] at hdep
      obtain ⟨m, hm, rfl⟩ := hnew hd (hg.known n hn d.id hdep)
      rw [reparentRoot_id] at hdep
      rw [reparentRoot_parentId, reparentRoot_parentId, hg.contained.same_level n hn m hm hdep]

end Graft

end Synthorg.Core
