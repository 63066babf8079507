/-
What changed between two versions of a workflow (engine/workflow/diff.py,
_diff_naming.py).

Nodes and edges are compared in one way, by their ids. A row is about one id, so
what the rows do to an item is what the rows of its id do, and those are the
rows of one of the three groups (`applyRows_rows`): of an item on both sides, the
differences that `compare` finds.
-/
import Mathlib.Algebra.Order.Ring.Abs
import Synthorg.Lib.Keyed
import Synthorg.Workflow.Definition

namespace Synthorg.Workflow.Diff

open Lib
open List

-- ==== rows

/-- What is reported of one item. -/
inductive Change (ι δ : Type) where
  | added (new : ι)
  | removed (old : ι)
  | modified (difference : δ)

abbrev Row (ν ι δ : Type) := String × ν × Change ι δ

variable {ι ν δ : Type} (key : ι → String) (name : ι → ν) (compare : ι → ι → List δ)
  (modify : ι → δ → ι)

/-- `sorted(...)` by id. -/
def inOrder (items : List ι) : List ι := items.mergeSort fun x y => key x ≤ key y

/-- The differences of an item that is on both sides. -/
def matched (new : List ι) (x : ι) : List (ν × Change ι δ) :=
  match Keyed.lookup key new (key x) with
  | none => []
  | some y => (compare x y).map fun difference => (name y, .modified difference)

/-- `_diff_nodes` and `_diff_edges`. -/
def rows (old new : List ι) : List (Row ν ι δ) :=
  ((inOrder key (new.filter fun x => (Keyed.lookup key old (key x)).isNone)).flatMap fun x =>
    [(name x, .added x)].map (key x, ·)) ++
  ((inOrder key (old.filter fun x => (Keyed.lookup key new (key x)).isNone)).flatMap fun x =>
    [(name x, .removed x)].map (key x, ·)) ++
  (inOrder key (old.filter fun x => (Keyed.lookup key new (key x)).isSome)).flatMap fun x =>
    (matched key name compare new x).map (key x, ·)

def applyTo : Option ι → Change ι δ → Option ι
  | _, .added new => some new
  | _, .removed _ => none
  | found, .modified difference => found.map (modify · difference)

def applyRows (items : String → Option ι) (rows : List (Row ν ι δ)) : String → Option ι :=
  rows.foldl (fun items row =>
    Function.update items row.1 (applyTo modify (items row.1) row.2.2)) items

variable {key} {old new items : List ι} {x y : ι} {id : String}

theorem applyRows_at (items : String → Option ι) (rows : List (Row ν ι δ)) :
    applyRows modify items rows id =
      ((rows.filter fun row => row.1 = id).map fun row => row.2.2).foldl (applyTo modify)
        (items id) := by
  induction rows generalizing items with
  | nil => rfl
  | cons row rest ih =>
    have hrest := ih (Function.update items row.1 (applyTo modify (items row.1) row.2.2))
    by_cases hid : row.1 = id
    · subst hid
      simpa [applyRows] using hrest
    · simpa [applyRows, hid, Ne.symm hid] using hrest

theorem group_at {p : ι → Bool} (out : ι → List (ν × Change ι δ))
    (hd : Keyed.Distinct key items) :
    ((inOrder key (items.filter p)).flatMap fun x => (out x).map (key x, ·)).filter
        (fun row => row.1 = id) =
      (((Keyed.lookup key items id).filter p).elim [] out).map (id, ·) := by
  have hperm : (inOrder key (items.filter p)).Perm (items.filter p) := mergeSort_perm _ _
  have hsort : Keyed.Distinct key (inOrder key (items.filter p)) :=
    (hperm.map key).nodup_iff.2 (hd.sublist (filter_sublist.map key))
  cases hf : (Keyed.lookup key items id).filter p with
  | some x =>
    obtain ⟨hlook, hp⟩ := Option.filter_eq_some_iff.1 hf
    obtain ⟨hx, rfl⟩ := Keyed.lookup_mem hlook
    exact Keyed.filter_groups out hsort (hperm.mem_iff.2 (mem_filter.2 ⟨hx, hp⟩))
  | none =>
    rw [Option.elim_none, map_nil, filter_eq_nil_iff]
    intro row hrow hid
    obtain ⟨x, hx, hrow⟩ := mem_flatMap.1 hrow
    obtain ⟨b, -, rfl⟩ := mem_map.1 hrow
    obtain ⟨hx, hp⟩ := mem_filter.1 (hperm.mem_iff.1 hx)
    have hlook := Keyed.lookup_key hd hx
    have hkey : key x = id := of_decide_eq_true hid
    rw [hkey] at hlook
    simp [hlook, hp] at hf

/-- WHAT THE ROWS MAKE of an item: the new one, or the old one modified by every difference. -/
theorem applyRows_rows (hold : Keyed.Distinct key old) (hnew : Keyed.Distinct key new) :
    applyRows modify (Keyed.lookup key old) (rows key name compare old new) id =
      (Keyed.lookup key new id).map fun y =>
        (Keyed.lookup key old id).elim y fun x => (compare x y).foldl modify x := by
  have hmod : ∀ (differences : List δ) (x : ι),
      (differences.map Change.modified).foldl (applyTo modify) (some x) =
        some (differences.foldl modify x) := by
    intro differences
    induction differences with
    | nil => exact fun _ => rfl
    | cons difference rest ih => exact fun x => ih (modify x difference)
  rw [applyRows_at, rows, filter_append, filter_append, group_at _ hnew,
    group_at _ hold, group_at _ hold]
  cases ho : Keyed.lookup key old id with
  | none =>
    cases hn : Keyed.lookup key new id with
    | none => simp
    | some y =>
      obtain ⟨-, rfl⟩ := Keyed.lookup_mem hn
      simp [Option.filter_some, ho, applyTo]
  | some x =>
    obtain ⟨-, rfl⟩ := Keyed.lookup_mem ho
    cases hn : Keyed.lookup key new (key x) with
    | none => simp [Option.filter_some, hn, applyTo]
    | some y =>
      obtain ⟨-, hy⟩ := Keyed.lookup_mem hn
      simp [Option.filter_some, hn, hy, ho, matched, Function.comp_def, hmod]

-- ==== the definition

inductive WorkflowType where
  | sequentialPipeline
  | parallelExecution
  | kanban
  | agileKanban
  deriving DecidableEq

inductive WorkflowValueType where
  | string
  | integer
  | float
  | boolean
  | datetime
  | json
  | taskRef
  | agentRef
  deriving DecidableEq

/-- A declared input or output. -/
structure WorkflowIODeclaration where
  name : String
  type : WorkflowValueType
  required : Bool := true
  deriving DecidableEq

structure Node (Config : Type) where
  id : String
  type : WorkflowNodeType
  label : String
  positionX : ℚ := 0
  positionY : ℚ := 0
  config : Config

structure Edge where
  id : String
  sourceNodeId : String
  targetNodeId : String
  type : WorkflowEdgeType := .sequential
  label : Option String := none

structure Definition (Config : Type) where
  id : String
  name : String
  description : String := ""
  workflowType : WorkflowType
  inputs : List WorkflowIODeclaration := []
  outputs : List WorkflowIODeclaration := []
  nodes : List (Node Config)
  edges : List Edge
  nodes_distinct : Keyed.Distinct Node.id nodes
  edges_distinct : Keyed.Distinct Edge.id edges

variable {Config : Type}

structure VersionSnapshot (Config : Type) where
  entityId : String
  version : Nat
  snapshot : Definition Config

-- ==== what is compared

inductive NodeDifference (Config : Type) where
  | typeChanged (old new : WorkflowNodeType)
  | labelChanged (old new : String)
  | moved (old new : ℚ × ℚ)
  | configChanged (old new : Config)

def positionChangeThreshold : ℚ := 1

/-- Configs are compared by Python's `==`. -/
def compareMatchedNode [BEq Config] (old new : Node Config) : List (NodeDifference Config) :=
  (if old.type ≠ new.type then [.typeChanged old.type new.type] else []) ++
  (if old.label ≠ new.label then [.labelChanged old.label new.label] else []) ++
  (if positionChangeThreshold < |old.positionX - new.positionX| ∨
      positionChangeThreshold < |old.positionY - new.positionY| then
    [.moved (old.positionX, old.positionY) (new.positionX, new.positionY)] else []) ++
  (if old.config == new.config then [] else [.configChanged old.config new.config])

inductive EdgeDifference where
  | reconnected (old new : String × String)
  | typeChanged (old new : WorkflowEdgeType)
  | labelChanged (old new : Option String)

def compareMatchedEdge (old new : Edge) : List EdgeDifference :=
  (if old.sourceNodeId ≠ new.sourceNodeId ∨ old.targetNodeId ≠ new.targetNodeId then
    [.reconnected (old.sourceNodeId, old.targetNodeId) (new.sourceNodeId, new.targetNodeId)]
    else []) ++
  (if old.type ≠ new.type then [.typeChanged old.type new.type] else []) ++
  (if old.label ≠ new.label then [.labelChanged old.label new.label] else [])

inductive MetadataChange where
  | name (old new : String)
  | description (old new : String)
  | workflowType (old new : WorkflowType)

def diffMetadata (old new : Definition Config) : List MetadataChange :=
  (if old.name ≠ new.name then [.name old.name new.name] else []) ++
  (if old.description ≠ new.description then [.description old.description new.description]
    else []) ++
  (if old.workflowType ≠ new.workflowType then [.workflowType old.workflowType new.workflowType]
    else [])

/-- The words for an edge: its own label, and those of the nodes it joins. -/
structure EdgeNaming where
  edge : Option String
  source : Option String
  target : Option String

/-- Over `node_labels`: the later version's labels win. -/
def edgeNaming (old new : Definition Config) (edge : Edge) : EdgeNaming :=
  let label := fun id => ((Keyed.lookup Node.id new.nodes id).or
    (Keyed.lookup Node.id old.nodes id)).map Node.label
  ⟨edge.label, label edge.sourceNodeId, label edge.targetNodeId⟩

structure WorkflowDiff (Config : Type) where
  fromVersion : Nat
  toVersion : Nat
  nodeChanges : List (Row String (Node Config) (NodeDifference Config))
  edgeChanges : List (Row EdgeNaming Edge EdgeDifference)
  metadataChanges : List MetadataChange

/-- Otherwise it raises. -/
def computeDiff [BEq Config] (old new : VersionSnapshot Config) : Option (WorkflowDiff Config) :=
  if old.entityId ≠ new.entityId then none
  else if old.snapshot.id ≠ old.entityId ∨ new.snapshot.id ≠ new.entityId then none
  else if new.version ≤ old.version then none
  else some
    { fromVersion := old.version
      toVersion := new.version
      nodeChanges := rows Node.id Node.label compareMatchedNode old.snapshot.nodes
        new.snapshot.nodes
      edgeChanges := rows Edge.id (edgeNaming old.snapshot new.snapshot) compareMatchedEdge
        old.snapshot.edges new.snapshot.edges
      metadataChanges := diffMetadata old.snapshot new.snapshot }

-- ==== what a diff makes of a definition

def modifyNode (node : Node Config) : NodeDifference Config → Node Config
  | .typeChanged _ new => { node with type := new }
  | .labelChanged _ new => { node with label := new }
  | .moved _ new => { node with positionX := new.1, positionY := new.2 }
  | .configChanged _ new => { node with config := new }

def modifyEdge (edge : Edge) : EdgeDifference → Edge
  | .reconnected _ new => { edge with sourceNodeId := new.1, targetNodeId := new.2 }
  | .typeChanged _ new => { edge with type := new }
  | .labelChanged _ new => { edge with label := new }

abbrev Metadata := String × String × WorkflowType

def Definition.metadata (d : Definition Config) : Metadata :=
  (d.name, d.description, d.workflowType)

def applyMetadata (metadata : Metadata) : MetadataChange → Metadata
  | .name _ new => (new, metadata.2)
  | .description _ new => (metadata.1, new, metadata.2.2)
  | .workflowType _ new => (metadata.1, metadata.2.1, new)

structure Node.Agrees [BEq Config] (a b : Node Config) : Prop where
  id : a.id = b.id
  type : a.type = b.type
  label : a.label = b.label
  near_x : |a.positionX - b.positionX| ≤ positionChangeThreshold
  near_y : |a.positionY - b.positionY| ≤ positionChangeThreshold
  config : (a.config == b.config) = true

theorem Node.Agrees.refl [BEq Config] [ReflBEq Config] {a : Node Config} : a.Agrees a := by
  constructor <;> simp [positionChangeThreshold]

theorem foldl_compareMatchedNode [BEq Config] [ReflBEq Config] {a b : Node Config}
    (h : a.id = b.id) : ((compareMatchedNode a b).foldl modifyNode a).Agrees b := by
  have hself : |b.positionX - b.positionX| ≤ positionChangeThreshold ∧
      |b.positionY - b.positionY| ≤ positionChangeThreshold := by
    simp [positionChangeThreshold]
  unfold compareMatchedNode
  constructor <;> (repeat' split) <;> simp_all [modifyNode]

theorem foldl_compareMatchedEdge {a b : Edge} (h : a.id = b.id) :
    (compareMatchedEdge a b).foldl modifyEdge a = b := by
  cases a
  unfold compareMatchedEdge
  (repeat' split) <;> simp_all [modifyEdge]

theorem foldl_diffMetadata (old new : Definition Config) :
    (diffMetadata old new).foldl applyMetadata old.metadata = new.metadata := by
  unfold diffMetadata Definition.metadata
  (repeat' split) <;> simp_all [applyMetadata]

/-- A DIFF IS COMPLETE: what it makes of the old nodes are the new ones up to moves within the
threshold, and of the old edges and metadata the new ones; nothing is reported only where they
agree. -/
theorem diff_complete [BEq Config] [ReflBEq Config] (old new : VersionSnapshot Config)
    (hsame : old.entityId = new.entityId ∧ old.snapshot.id = old.entityId ∧
      new.snapshot.id = new.entityId) (hversions : old.version < new.version) :
    ∃ d, computeDiff old new = some d ∧
      (∀ id, Option.Rel Node.Agrees
        (applyRows modifyNode (Keyed.lookup Node.id old.snapshot.nodes) d.nodeChanges id)
        (Keyed.lookup Node.id new.snapshot.nodes id)) ∧
      applyRows modifyEdge (Keyed.lookup Edge.id old.snapshot.edges) d.edgeChanges =
        Keyed.lookup Edge.id new.snapshot.edges ∧
      d.metadataChanges.foldl applyMetadata old.snapshot.metadata = new.snapshot.metadata ∧
      (d.nodeChanges = [] → ∀ id, Option.Rel Node.Agrees
        (Keyed.lookup Node.id old.snapshot.nodes id)
        (Keyed.lookup Node.id new.snapshot.nodes id)) ∧
      (d.edgeChanges = [] → Keyed.lookup Edge.id old.snapshot.edges =
        Keyed.lookup Edge.id new.snapshot.edges) ∧
      (d.metadataChanges = [] → old.snapshot.metadata = new.snapshot.metadata) := by
  obtain ⟨hentity, hold, hnew⟩ := hsame
  have hcompute := show computeDiff old new = some _ by
    simp [computeDiff, hentity, hentity ▸ hold, hnew, hversions]
    rfl
  have hnodes : ∀ id, Option.Rel Node.Agrees
      (applyRows modifyNode (Keyed.lookup Node.id old.snapshot.nodes)
        (rows Node.id Node.label compareMatchedNode old.snapshot.nodes new.snapshot.nodes) id)
      (Keyed.lookup Node.id new.snapshot.nodes id) := by
    intro id
    rw [applyRows_rows _ _ _ old.snapshot.nodes_distinct new.snapshot.nodes_distinct]
    cases hn : Keyed.lookup Node.id new.snapshot.nodes id with
    | none => exact .none
    | some y =>
      obtain ⟨-, rfl⟩ := Keyed.lookup_mem hn
      cases ho : Keyed.lookup Node.id old.snapshot.nodes y.id with
      | none => exact .some Node.Agrees.refl
      | some x => exact .some (foldl_compareMatchedNode (Keyed.lookup_mem ho).2)
  have hedges : applyRows modifyEdge (Keyed.lookup Edge.id old.snapshot.edges)
      (rows Edge.id (edgeNaming old.snapshot new.snapshot) compareMatchedEdge
        old.snapshot.edges new.snapshot.edges) = Keyed.lookup Edge.id new.snapshot.edges := by
    funext id
    rw [applyRows_rows _ _ _ old.snapshot.edges_distinct new.snapshot.edges_distinct]
    cases hn : Keyed.lookup Edge.id new.snapshot.edges id with
    | none => rfl
    | some y =>
      obtain ⟨-, rfl⟩ := Keyed.lookup_mem hn
      cases ho : Keyed.lookup Edge.id old.snapshot.edges y.id with
      | none => rfl
      | some x => exact congrArg some (foldl_compareMatchedEdge (Keyed.lookup_mem ho).2)
  have hmetadata := foldl_diffMetadata old.snapshot new.snapshot
  refine ⟨_, hcompute, hnodes, hedges, hmetadata, fun hnil id => ?_, fun hnil => ?_, fun hnil => ?_⟩
  · have h := hnodes id
    rwa [show rows Node.id _ _ _ _ = _ from hnil] at h
  · rwa [show rows Edge.id _ _ _ _ = _ from hnil] at hedges
  · rwa [show diffMetadata _ _ = _ from hnil] at hmetadata

def intake (name : String) (inputs : List WorkflowIODeclaration) : Definition Nat where
  id := "intake"
  name := name
  workflowType := .kanban
  inputs := inputs
  nodes := [{ id := "s", type := .start, label := "Start", config := 0 },
    { id := "e", type := .«end», label := "End", config := 0 }]
  edges := [{ id := "f", sourceNodeId := "s", targetNodeId := "e" }]
  nodes_distinct := by
    unfold Keyed.Distinct
    decide
  edges_distinct := nodup_singleton "f"

/-- The intake under a new name, with a task between its two ends. -/
def triage : Definition Nat where
  id := "intake"
  name := "Triage"
  workflowType := .kanban
  nodes := (intake "Triage" []).nodes ++
    [{ id := "t", type := .task, label := "Sort", config := 1 }]
  edges := [{ id := "f", sourceNodeId := "s", targetNodeId := "t" },
    { id := "g", sourceNodeId := "t", targetNodeId := "e" }]
  nodes_distinct := by
    unfold Keyed.Distinct
    decide
  edges_distinct := by
    unfold Keyed.Distinct
    decide

/-- The name, the task, the edge that turns to it and the one that leaves it are reported. -/
theorem diff_complete_triage :
    ∃ d, computeDiff ⟨"intake", 1, intake "Intake" []⟩ ⟨"intake", 2, triage⟩ = some d ∧
      d.metadataChanges.foldl applyMetadata (intake "Intake" []).metadata =
        ("Triage", "", .kanban) ∧
      applyRows modifyEdge (Keyed.lookup Edge.id (intake "Intake" []).edges) d.edgeChanges =
        Keyed.lookup Edge.id triage.edges ∧
      ∃ node, applyRows modifyNode (Keyed.lookup Node.id (intake "Intake" []).nodes)
        d.nodeChanges "t" = some node ∧ node.label = "Sort" := by
  obtain ⟨d, hcompute, hnodes, hedges, hmetadata, -⟩ := diff_complete
    ⟨"intake", 1, intake "Intake" []⟩ ⟨"intake", 2, triage⟩ ⟨rfl, rfl, rfl⟩ (by decide)
  have hsorting := hnodes "t"
  rw [show Keyed.lookup Node.id triage.nodes "t" =
    some { id := "t", type := .task, label := "Sort", config := 1 } from rfl] at hsorting
  refine ⟨d, hcompute, hmetadata, hedges, ?_⟩
  generalize applyRows modifyNode _ d.nodeChanges "t" = found at hsorting ⊢
  cases hsorting with
  | some hagrees => exact ⟨_, rfl, hagrees.label⟩

/-- A new input is not. -/
theorem inputs_not_compared : ¬ ∀ old new : VersionSnapshot Nat, ∀ d, computeDiff old new = some d →
      d.nodeChanges = [] → d.edgeChanges = [] → d.metadataChanges = [] →
        old.snapshot.inputs = new.snapshot.inputs ∧
          old.snapshot.outputs = new.snapshot.outputs := by
  intro hclaim
  have h := hclaim ⟨"intake", 1, intake "Intake" []⟩
    ⟨"intake", 2, intake "Intake" [{ name := "ticket", type := .string }]⟩ _ rfl
    (by simp [rows, inOrder, intake, Keyed.lookup, matched, compareMatchedNode,
      positionChangeThreshold])
    (by simp [rows, inOrder, intake, Keyed.lookup, matched, compareMatchedEdge])
    (by simp [diffMetadata, intake])
  exact absurd h.1 (by decide)

end Synthorg.Workflow.Diff
