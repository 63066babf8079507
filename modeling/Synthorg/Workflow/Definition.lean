/-
The graph of a workflow (engine/workflow/definition.py, enums.py).

A definition holds what pydantic establishes on construction as fields, so that
one which exists is well formed: its ids are apart, its edges join nodes it has,
and it starts and ends once. Of the Python objects in a node's `config` it keeps
the text, the truth value, and whether it is a `str` or a `dict`.
-/
import Synthorg.Core.Task

namespace Synthorg.Workflow

section
open Synthorg.Core

-- ==== enumerations

inductive WorkflowNodeType
  | start
  | «end»
  | task
  | agentAssignment
  | conditional
  | parallelSplit
  | parallelJoin
  | subworkflow
  | verification
  deriving DecidableEq

inductive WorkflowEdgeType
  | sequential
  | conditionalTrue
  | conditionalFalse
  | parallelBranch
  | verificationPass
  | verificationFail
  | verificationRefer
  deriving DecidableEq

-- ==== values

/-- A `str`, a `dict`, or anything else with its `str()` and its truth value. -/
inductive Value
  | text (s : String)
  | mapping (entries : List (String × Value)) (shown : String)
  | other (shown : String) (truthy : Bool)

def Value.str : Value → String
  | .text s => s
  | .mapping _ shown => shown
  | .other shown _ => shown

/-- `bool(value)`. -/
def Value.truthy : Value → Bool
  | .text s => s ≠ ""
  | .mapping entries _ => !entries.isEmpty
  | .other _ truthy => truthy

/-- `isinstance(value, str) and value.strip()`, the text when it holds. -/
def Value.nonBlankText? : Value → Option String
  | .text s => if notBlank s then some s else none
  | _ => none

/-- A `dict` of objects: a node's config, or a frame's variables. -/
abbrev Vars := List (String × Value)

def Vars.get? (vars : Vars) (key : String) : Option Value := vars.lookup key

/-- `str(config.get(key, default))`. -/
def Vars.getStr (vars : Vars) (key default : String) : String :=
  ((vars.get? key).map Value.str).getD default

def Vars.update (vars values : Vars) : Vars := values ++ vars

-- ==== graph

structure WorkflowNode where
  id : String
  type : WorkflowNodeType
  label : String
  config : Vars
  id_notBlank : notBlank id = true
  label_notBlank : notBlank label = true

structure WorkflowEdge where
  id : String
  sourceNodeId : String
  targetNodeId : String
  type : WorkflowEdgeType
  id_notBlank : notBlank id = true

structure WorkflowDefinition where
  id : Uuid
  revision : Nat
  nodes : List WorkflowNode
  edges : List WorkflowEdge
  revision_pos : 1 ≤ revision
  /-- `_validate_unique_ids` -/
  nodeIds_nodup : (nodes.map WorkflowNode.id).Nodup
  edgeIds_nodup : (edges.map WorkflowEdge.id).Nodup
  /-- `_validate_edge_references` -/
  edge_references : ∀ e ∈ edges, e.sourceNodeId ≠ e.targetNodeId ∧
    e.sourceNodeId ∈ nodes.map WorkflowNode.id ∧
      e.targetNodeId ∈ nodes.map WorkflowNode.id
  /-- `_validate_terminal_nodes` -/
  one_start : (nodes.map WorkflowNode.type).count .start = 1
  one_end : (nodes.map WorkflowNode.type).count .end = 1

namespace WorkflowDefinition

/-- `[n.id for n in definition.nodes]`. -/
def nodeIds (d : WorkflowDefinition) : List String := d.nodes.map WorkflowNode.id

/-- `node_map[nid]`. -/
def node? (d : WorkflowDefinition) (nid : String) : Option WorkflowNode :=
  d.nodes.find? (·.id = nid)

/-- The first node of a type: `next(n for n in nodes if n.type == ...)`. -/
def firstOf? (d : WorkflowDefinition) (type : WorkflowNodeType) : Option WorkflowNode :=
  d.nodes.find? (·.type = type)

theorem nodup_nodeIds (d : WorkflowDefinition) : d.nodeIds.Nodup := d.nodeIds_nodup

variable {d : WorkflowDefinition} {nid : String} {node : WorkflowNode}

theorem node?_mem (h : d.node? nid = some node) : node ∈ d.nodes ∧ node.id = nid := by
  refine ⟨List.mem_of_find?_eq_some h, ?_⟩
  simpa using List.find?_some h

theorem node?_isSome (h : nid ∈ d.nodeIds) :
    ∃ node, d.node? nid = some node ∧ node ∈ d.nodes ∧ node.id = nid := by
  obtain ⟨node, hnode, hid⟩ := List.mem_map.1 h
  cases hfind : d.node? nid with
  | some found => exact ⟨found, rfl, node?_mem hfind⟩
  | none =>
    have hnone := List.find?_eq_none.1 hfind node hnode
    simp [hid] at hnone

theorem node?_id (h : node ∈ d.nodes) : d.node? node.id = some node := by
  obtain ⟨found, hf, hmem, hid⟩ := node?_isSome (List.mem_map_of_mem h)
  rw [hf, List.inj_on_of_nodup_map d.nodeIds_nodup hmem h hid]

end WorkflowDefinition

end

end Synthorg.Workflow
