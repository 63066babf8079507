/-
What a workflow graph keeps alive.

The abstract side of branch skipping, said of the graph alone. An outcome chooses an edge type at
every decision node; a node is LIVE when a path from START to it takes the chosen edges only.
`dead_cut_off` is the half of the argument that always works: where each branch has one edge, a
dead node is cut off by some live decision, the last live node on the way to it.

Each of the source's four breadth-first loops (execution_activation_helpers.py) is `Lib/Reach`'s
search with its own neighbours and blocked nodes. `validateWorkflow` collects the errors of every
check in the source's order; sets iterated over in hash order are lists in node order here.
-/
import Synthorg.Workflow.Lifecycle
import Synthorg.Lib.Kahn
import Synthorg.Lib.Reach

namespace Synthorg.Workflow

section
open Synthorg.Core Lib List

namespace WorkflowDefinition

variable (d : WorkflowDefinition)

-- ==== maps

/-- `adjacency.get(nid, [])`. -/
def adjacency (nid : String) : List String :=
  (d.edges.filter (·.sourceNodeId = nid)).map WorkflowEdge.targetNodeId

/-- `reverse_adj.get(nid, [])`. -/
def reverseAdj (nid : String) : List String :=
  (d.edges.filter (·.targetNodeId = nid)).map WorkflowEdge.sourceNodeId

/-- `outgoing.get(nid, [])`: the targets with the types of the edges. -/
def outgoing (nid : String) : List (String × WorkflowEdgeType) :=
  (d.edges.filter (·.sourceNodeId = nid)).map fun e => (e.targetNodeId, e.type)

/-- `topological_sort` of the whole graph; nothing is the `ValueError` of a
cycle. -/
def topologicalSort : Option (List String) := Kahn.sort d.adjacency d.nodeIds

variable {d}

variable {a b nid : String} {order pre post : List String} {type : WorkflowEdgeType}

theorem mem_adjacency :
    b ∈ d.adjacency a ↔ ∃ e ∈ d.edges, e.sourceNodeId = a ∧ e.targetNodeId = b := by
  simp [adjacency, and_assoc]

theorem mem_reverseAdj : a ∈ d.reverseAdj b ↔ b ∈ d.adjacency a := by
  rw [mem_adjacency]
  simp [reverseAdj, and_assoc, and_comm]

theorem mem_outgoing : (b, type) ∈ d.outgoing a ↔
      ∃ e ∈ d.edges, e.sourceNodeId = a ∧ e.targetNodeId = b ∧ e.type = type := by
  simp [outgoing, and_assoc]

theorem adjacency_of_outgoing (h : (b, type) ∈ d.outgoing a) : b ∈ d.adjacency a := by
  obtain ⟨e, he, hs, ht, -⟩ := mem_outgoing.1 h
  exact mem_adjacency.2 ⟨e, he, hs, ht⟩

theorem outgoing_of_adjacency (h : b ∈ d.adjacency a) : ∃ type, (b, type) ∈ d.outgoing a := by
  obtain ⟨e, he, hs, ht⟩ := mem_adjacency.1 h
  exact ⟨e.type, mem_outgoing.2 ⟨e, he, hs, ht, rfl⟩⟩

theorem mem_nodeIds_of_adjacency (h : b ∈ d.adjacency a) : a ∈ d.nodeIds ∧ b ∈ d.nodeIds := by
  obtain ⟨e, he, rfl, rfl⟩ := mem_adjacency.1 h
  exact (d.edge_references e he).2

theorem mem_nodeIds_of_adjacency_ne_nil (h : d.adjacency a ≠ []) : a ∈ d.nodeIds := by
  obtain ⟨b, hb⟩ := exists_mem_of_ne_nil _ h
  exact (mem_nodeIds_of_adjacency hb).1

theorem mem_nodeIds_of_reverseAdj_ne_nil (h : d.reverseAdj a ≠ []) : a ∈ d.nodeIds := by
  obtain ⟨b, hb⟩ := exists_mem_of_ne_nil _ h
  exact (mem_nodeIds_of_adjacency (mem_reverseAdj.1 hb)).2

-- ==== order

structure WalkOrder (d : WorkflowDefinition) (order : List String) : Prop where
  nodup : order.Nodup
  mem : ∀ nid, nid ∈ order ↔ nid ∈ d.nodeIds
  before : ∀ (pre : List String) (nid : String) (post : List String),
    order = pre ++ nid :: post → ∀ m, nid ∈ d.adjacency m → m ∈ pre

theorem topologicalSort_order (h : d.topologicalSort = some order) : WalkOrder d order := by
  obtain ⟨hn, hmem, hord⟩ := Kahn.sort_ordered d.nodeIds_nodup h
  exact ⟨hn, hmem, fun pre nid post hcut m hm =>
    hord pre nid post hcut m (mem_nodeIds_of_adjacency hm).1 hm⟩

/-- Some chain of edges leads from `a` to `b`. -/
abbrev Reaches (d : WorkflowDefinition) : String → String → Prop :=
  Relation.ReflTransGen fun a b => b ∈ d.adjacency a

variable (h : WalkOrder d order)
include h

theorem WalkOrder.before_reaches (hcut : order = pre ++ nid :: post)
    (hpath : d.Reaches a b) (hb : b ∈ pre) : a ∈ pre := by
  induction hpath using Relation.ReflTransGen.head_induction_on with
  | refl => exact hb
  | head hedge _ ih =>
    obtain ⟨left, right, hs⟩ := append_of_mem ih
    rw [hs, append_assoc] at hcut
    rw [hs]
    exact mem_append_left _ (h.before left _ _ hcut _ hedge)

/-- What a chain of edges leads to `nid` from is done when its turn comes. -/
theorem WalkOrder.before_transGen (hcut : order = pre ++ nid :: post)
    (hpath : Relation.TransGen (fun a b => b ∈ d.adjacency a) a nid) : a ∈ pre := by
  obtain ⟨b, hr, hedge⟩ := Relation.TransGen.tail'_iff.1 hpath
  exact h.before_reaches hcut hr (h.before pre nid post hcut b hedge)

def position (order : List String) (nid : String) : Nat := order.idxOf nid

theorem WalkOrder.position_lt (hedge : b ∈ d.adjacency a) :
    position order a < position order b := by
  have hb := (h.mem b).2 (mem_nodeIds_of_adjacency hedge).2
  obtain ⟨left, right, rfl⟩ := append_of_mem hb
  have ha := h.before left b right rfl a hedge
  have hnew : b ∉ left := by
    intro hin
    exact disjoint_of_nodup_append h.nodup hin mem_cons_self
  unfold position
  rw [idxOf_append_of_mem ha, idxOf_append_of_notMem hnew]
  exact Nat.lt_of_lt_of_le (idxOf_lt_length_iff.2 ha) (Nat.le_add_right _ _)

theorem WalkOrder.position_lt_of_transGen
    (hpath : Relation.TransGen (fun a b => b ∈ d.adjacency a) a b) :
    position order a < position order b := by
  induction hpath with
  | single hedge => exact h.position_lt hedge
  | tail _ hedge ih => exact Nat.lt_trans ih (h.position_lt hedge)

theorem WalkOrder.not_transGen_self (a : String) :
    ¬ Relation.TransGen (fun a b => b ∈ d.adjacency a) a a :=
  fun hc => Nat.lt_irrefl _ (h.position_lt_of_transGen hc)

theorem WalkOrder.notMem_of_transGen (hcut : order = pre ++ nid :: post)
    (hpath : Relation.TransGen (fun a b => b ∈ d.adjacency a) nid b) : b ∉ pre ++ [nid] := by
  intro hb
  rcases mem_append.1 hb with hpre | hself
  · have hin := h.before_reaches hcut hpath.to_reflTransGen hpre
    have hn := h.nodup
    rw [hcut] at hn
    exact disjoint_of_nodup_append hn hin mem_cons_self
  · rw [mem_singleton] at hself
    exact h.not_transGen_self nid (hself ▸ hpath)

end WorkflowDefinition

inductive WorkflowValidationError
  | unreachableNode (nodeId : String)
  | endNotReachable (nodeId : String)
  | conditionalMissingTrue (nodeId : String)
  | conditionalMissingFalse (nodeId : String)
  | conditionalExtraOutgoing (nodeId : String) (extra : List WorkflowEdgeType)
  | splitTooFewBranches (nodeId : String) (count : Nat)
  | taskMissingTitle (nodeId : String)
  | verificationMissingPass (nodeId : String)
  | verificationMissingFail (nodeId : String)
  | verificationMissingRefer (nodeId : String)
  | verificationDuplicateEdge (nodeId : String) (edgeType : WorkflowEdgeType)
  | verificationExtraOutgoing (nodeId : String) (extra : List WorkflowEdgeType)
  | verificationEdgeOutside (nodeId : String) (bad : List WorkflowEdgeType)
  | verificationMissingConfig (nodeId : String) (field : String)
  | cycleDetected
  deriving DecidableEq

def minSplitBranches : Nat := 2

def conditionalEdgeTypes : List WorkflowEdgeType := [.conditionalTrue, .conditionalFalse]

def verificationEdgeTypes : List WorkflowEdgeType :=
  [.verificationPass, .verificationFail, .verificationRefer]

namespace WorkflowDefinition

variable (d : WorkflowDefinition)

-- ==== reachability

def reachableFrom (startId : String) : List String :=
  Reach.searchFrom (fun _ => false) d.adjacency d.nodeIds [startId]

def checkReachability : List WorkflowValidationError :=
  match d.firstOf? .start, d.firstOf? .end with
  | some start, some «end» =>
    let reachable := d.reachableFrom start.id
    (d.nodes.filter fun n => n.id ∉ reachable ∧ n.type ≠ .end).map
        (fun n => .unreachableNode n.id) ++
      if «end».id ∉ reachable then [.endNotReachable «end».id] else []
  | _, _ => []

/-- The colours of `has_cycle`. -/
inductive Color
  | white
  | gray
  | black
  deriving DecidableEq

/-- The inner loop of `has_cycle`: nothing when it meets a gray node. -/
def colorFrom : Nat → (String → Color) → List (String × Nat) → Option (String → Color)
  | 0, color, _ => some color
  | _ + 1, color, [] => some color
  | fuel + 1, color, (nid, idx) :: stack =>
    match (d.adjacency nid)[idx]? with
    | none => colorFrom fuel (Function.update color nid .black) stack
    | some neighbor =>
      let advanced := (nid, idx + 1) :: stack
      if neighbor ∉ d.nodeIds then colorFrom fuel color advanced
      else
        match color neighbor with
        | .gray => none
        | .black => colorFrom fuel color advanced
        | .white =>
          colorFrom fuel (Function.update color neighbor .gray) ((neighbor, 0) :: advanced)

def hasCycleFrom (color : String → Color) : List String → Bool
  | [] => false
  | start :: rest =>
    if color start ≠ .white then hasCycleFrom color rest
    else
      -- each round moves along one edge or leaves one node for good
      match d.colorFrom (d.nodes.length + d.edges.length + 1)
          (Function.update color start .gray) [(start, 0)] with
      | none => true
      | some color => hasCycleFrom color rest

def hasCycle : Bool := d.hasCycleFrom (fun _ => .white) d.nodeIds

-- ==== edges

def outgoingTypes (nid : String) : List WorkflowEdgeType :=
  (d.outgoing nid).map Prod.snd

def checkNodes (type : WorkflowNodeType)
    (check : WorkflowNode → List WorkflowEdgeType → List WorkflowValidationError) :
    List WorkflowValidationError :=
  d.nodes.flatMap fun n => if n.type ≠ type then [] else check n (d.outgoingTypes n.id)

def checkConditionalEdges : List WorkflowValidationError :=
  d.checkNodes .conditional fun n out =>
    (if .conditionalTrue ∉ out then [.conditionalMissingTrue n.id] else []) ++
    (if .conditionalFalse ∉ out then [.conditionalMissingFalse n.id] else []) ++
    let extra := out.filter (· ∉ conditionalEdgeTypes)
    if extra ≠ [] then [.conditionalExtraOutgoing n.id extra] else []

def checkParallelSplits : List WorkflowValidationError :=
  d.checkNodes .parallelSplit fun n out =>
    let count := out.count .parallelBranch
    if count < minSplitBranches then [.splitTooFewBranches n.id count] else []

def checkVerificationEdges : List WorkflowValidationError :=
  d.checkNodes .verification fun n out =>
    (if .verificationPass ∉ out then [.verificationMissingPass n.id] else []) ++
    (if .verificationFail ∉ out then [.verificationMissingFail n.id] else []) ++
    (if .verificationRefer ∉ out then [.verificationMissingRefer n.id] else []) ++
    (verificationEdgeTypes.filter (out.count · > 1)).map
      (.verificationDuplicateEdge n.id ·) ++
    let extra := out.filter (· ∉ verificationEdgeTypes)
    if extra ≠ [] then [.verificationExtraOutgoing n.id extra] else []

def checkVerificationEdgeScope : List WorkflowValidationError :=
  d.nodes.flatMap fun n =>
    if n.type = .verification then []
    else
      let bad := (d.outgoingTypes n.id).filter (· ∈ verificationEdgeTypes)
      if bad ≠ [] then [.verificationEdgeOutside n.id bad] else []

-- ==== configs

def checkTaskConfigs : List WorkflowValidationError :=
  d.checkNodes .task fun n _ =>
    match n.config.get? "title" with
    | some (.text s) => if notBlank s then [] else [.taskMissingTitle n.id]
    | some title => if title.truthy then [] else [.taskMissingTitle n.id]
    | none => [.taskMissingTitle n.id]

def checkVerificationConfigs : List WorkflowValidationError :=
  d.checkNodes .verification fun n _ =>
    ["rubric_name", "evaluator_agent_id"].flatMap fun field =>
      match (n.config.get? field).bind Value.nonBlankText? with
      | some _ => []
      | none => [.verificationMissingConfig n.id field]

def validateWorkflow : List WorkflowValidationError :=
  d.checkReachability ++ d.checkConditionalEdges ++ d.checkParallelSplits ++
    d.checkTaskConfigs ++ d.checkVerificationEdges ++ d.checkVerificationEdgeScope ++
    d.checkVerificationConfigs ++ if d.hasCycle then [.cycleDetected] else []

def valid : Bool := d.validateWorkflow.isEmpty

-- ==== what it says

variable {type : WorkflowNodeType} {d : WorkflowDefinition}

/-- Each node of type `type` passes its check. -/
theorem checkNodes_eq_nil
    {check : WorkflowNode → List WorkflowEdgeType → List WorkflowValidationError} :
    d.checkNodes type check = [] ↔
      ∀ n ∈ d.nodes, n.type = type → check n (d.outgoingTypes n.id) = [] := by
  unfold checkNodes
  rw [flatMap_eq_nil_iff]
  apply forall_congr'
  intro n
  apply imp_congr_right
  intro _
  split <;> simp_all

theorem firstOf?_of_count (h : (d.nodes.map WorkflowNode.type).count type = 1) :
    ∃ n, d.firstOf? type = some n ∧ n ∈ d.nodes ∧ n.type = type := by
  have hmem : type ∈ d.nodes.map WorkflowNode.type := by
    rw [← count_pos_iff, h]
    exact Nat.one_pos
  obtain ⟨n, hn, htype⟩ := mem_map.1 hmem
  cases hfind : d.firstOf? type with
  | none =>
    have hnone := find?_eq_none.1 hfind n hn
    simp [htype] at hnone
  | some found =>
    exact ⟨found, rfl, mem_of_find?_eq_some hfind, by
      simpa using find?_some hfind⟩

theorem eq_of_type_count (h : (d.nodes.map WorkflowNode.type).count type = 1) {m n : WorkflowNode}
    (hm : m ∈ d.nodes) (hn : n ∈ d.nodes) (hmt : m.type = type) (hnt : n.type = type) : m = n := by
  rw [count_eq_length_filter, filter_map, length_map, length_eq_one_iff] at h
  obtain ⟨only, honly⟩ := h
  have hsame : ∀ k ∈ d.nodes, k.type = type → k = only := by
    intro k hk hkt
    have hmem : k ∈ d.nodes.filter ((· == type) ∘ WorkflowNode.type) := by
      simp [hk, hkt]
    rw [honly] at hmem
    simpa using hmem
  rw [hsame m hm hmt, hsame n hn hnt]

/-- `reachable_from` finds what a chain of edges leads to. -/
theorem mem_reachableFrom {a b : String} : b ∈ d.reachableFrom a ↔ d.Reaches a b := by
  unfold reachableFrom
  rw [Reach.mem_searchFrom d.nodup_nodeIds fun a => mem_nodeIds_of_adjacency_ne_nil]
  simp only [mem_singleton, exists_eq_left, Reach.Path, true_and]
  have hstep : Reach.Step (fun _ => false) d.adjacency = fun a b => b ∈ d.adjacency a := by
    funext a b
    simp [Reach.Step]
  rw [hstep]

/-- What a definition without errors satisfies. -/
structure Validated (d : WorkflowDefinition) (start : String) : Prop where
  start_type : ∃ n, d.node? start = some n ∧ n.type = .start
  reachable : ∀ nid ∈ d.nodeIds, d.Reaches start nid
  conditional : ∀ n ∈ d.nodes, n.type = .conditional →
    .conditionalTrue ∈ d.outgoingTypes n.id ∧ .conditionalFalse ∈ d.outgoingTypes n.id ∧
      ∀ t ∈ d.outgoingTypes n.id, t ∈ conditionalEdgeTypes
  verification : ∀ n ∈ d.nodes, n.type = .verification →
    (∀ t ∈ verificationEdgeTypes, (d.outgoingTypes n.id).count t = 1) ∧
      ∀ t ∈ d.outgoingTypes n.id, t ∈ verificationEdgeTypes

/-- `check_reachability` passes only where START reaches every node. -/
theorem reachable_of_check (h : d.checkReachability = []) :
    ∃ start, (∃ n, d.node? start = some n ∧ n.type = .start) ∧
      ∀ nid ∈ d.nodeIds, d.Reaches start nid := by
  obtain ⟨start, hs, hsmem, hsubtype⟩ := firstOf?_of_count d.one_start
  obtain ⟨«end», hend, hemem, he⟩ := firstOf?_of_count d.one_end
  refine ⟨start.id, ⟨start, node?_id hsmem, hsubtype⟩, ?_⟩
  unfold checkReachability at h
  rw [hs, hend] at h
  rw [append_eq_nil_iff] at h
  obtain ⟨hnodes, hlast⟩ := h
  intro nid hnid
  obtain ⟨n, hn, rfl⟩ := mem_map.1 hnid
  rw [← mem_reachableFrom]
  by_cases htype : n.type = .end
  · -- the END node is the only one of its type
    have hsame : n = «end» := eq_of_type_count d.one_end hn hemem htype he
    rw [hsame]
    by_contra hout
    simp [if_pos hout] at hlast
  · by_contra hout
    rw [map_eq_nil_iff, filter_eq_nil_iff] at hnodes
    have hnot := hnodes n hn
    simp [hout, htype] at hnot

theorem validated_of_valid (h : d.valid = true) : ∃ start, Validated d start := by
  unfold valid validateWorkflow at h
  simp only [List.isEmpty_iff, append_eq_nil_iff] at h
  obtain ⟨⟨⟨⟨⟨⟨⟨hr, hcond⟩, -⟩, -⟩, hv⟩, -⟩, -⟩, -⟩ := h
  obtain ⟨start, hs, hall⟩ := reachable_of_check hr
  refine ⟨start, hs, hall, ?_, ?_⟩
  · intro n hn htype
    have hc := checkNodes_eq_nil.1 hcond n hn htype
    simp only [append_eq_nil_iff, ite_eq_right_iff, reduceCtorEq, imp_false,
      Decidable.not_not] at hc
    obtain ⟨⟨htrue, hf⟩, hextra⟩ := hc
    refine ⟨htrue, hf, fun t ht => ?_⟩
    have hnone := filter_eq_nil_iff.1 hextra t ht
    simpa using hnone
  · intro n hn htype
    have hc := checkNodes_eq_nil.1 hv n hn htype
    simp only [append_eq_nil_iff, ite_eq_right_iff, reduceCtorEq, imp_false,
      Decidable.not_not, map_eq_nil_iff] at hc
    obtain ⟨⟨⟨⟨hpass, hfail⟩, hrefer⟩, hd⟩, hextra⟩ := hc
    refine ⟨fun t ht => ?_, fun t ht => ?_⟩
    · have honce := filter_eq_nil_iff.1 hd t ht
      have hmem : t ∈ d.outgoingTypes n.id := by
        simp only [verificationEdgeTypes, mem_cons, not_mem_nil, or_false] at ht
        rcases ht with rfl | rfl | rfl
        · exact hpass
        · exact hfail
        · exact hrefer
      have hpos := count_pos_iff.2 hmem
      simp only [decide_eq_true_eq] at honce
      omega
    · have hnone := filter_eq_nil_iff.1 hextra t ht
      simpa using hnone

end WorkflowDefinition

end

open Synthorg.Core Lib

-- ==== node classes

def controlNodeTypes : List WorkflowNodeType :=
  [.start, .end, .agentAssignment, .conditional, .parallelSplit, .parallelJoin,
    .verification]

/-- A TASK or SUBWORKFLOW node: every type that is not a control type. -/
def WorkflowNodeType.executable (type : WorkflowNodeType) : Bool :=
  type = .task ∨ type = .subworkflow

-- ==== node-to-task maps

inductive TaskIds
  | one (taskId : String)
  | many (taskIds : List String)

def TaskIds.flatten : TaskIds → List String
  | .one taskId => [taskId]
  | .many taskIds => taskIds

abbrev NodeTaskIds := List (String × TaskIds)

namespace WorkflowDefinition

variable (d : WorkflowDefinition)

def typeOf? (nid : String) : Option WorkflowNodeType := (d.node? nid).map WorkflowNode.type

def isType (type : WorkflowNodeType) (nid : String) : Bool := d.typeOf? nid = some type

-- ==== assignments

/-- `find_downstream_task_ids` goes on at a control node without an assignment. -/
def passesAssignment (nid : String) : Bool :=
  (d.typeOf? nid).any fun type => type ≠ .agentAssignment ∧ type ∈ controlNodeTypes

def findDownstreamTaskIds (nid : String) : List String :=
  (Reach.searchFrom (fun _ => false)
    (fun a => if !d.passesAssignment a then [] else d.adjacency a)
    d.nodeIds (d.adjacency nid)).filter (d.isType .task)

-- ==== dependencies

/-- Where `find_upstream_task_ids` stops: a node with an entry of its own. -/
def contributes (nodeTaskIds : NodeTaskIds) (nid : String) : Bool :=
  (d.typeOf? nid).any (·.executable) && (nodeTaskIds.lookup nid).isSome

def contributed (nodeTaskIds : NodeTaskIds) (nid : String) : List String :=
  if d.contributes nodeTaskIds nid then
    ((nodeTaskIds.lookup nid).map TaskIds.flatten).getD []
  else []

def findUpstreamTaskIds (nodeId : String) (nodeTaskIds : NodeTaskIds)
    (skipped : List String) : List String :=
  let visited := Reach.searchFrom (fun a => a ∈ skipped)
    (fun a => if d.contributes nodeTaskIds a then [] else d.reverseAdj a)
    d.nodeIds (d.reverseAdj nodeId)
  (visited.flatMap (d.contributed nodeTaskIds)).dedup.insertionSort (· ≤ ·)

/-- A backward path from `v` between nodes not skipped, through none with ids of its own: the
hops of `find_upstream_task_ids`. -/
def Hops (nodeTaskIds : NodeTaskIds) (skipped : List String) (v x : String) : Prop :=
  Reach.Through d.reverseAdj
    (fun a => a ∉ skipped ∧ d.contributes nodeTaskIds a = false) v x ∧ x ∉ skipped

variable {d}

variable {v x : String} {nodeTaskIds : NodeTaskIds} {skipped : List String}

theorem mem_findUpstreamTaskIds {taskId : String} :
    taskId ∈ d.findUpstreamTaskIds v nodeTaskIds skipped ↔
      ∃ x, d.Hops nodeTaskIds skipped v x ∧ taskId ∈ d.contributed nodeTaskIds x := by
  unfold findUpstreamTaskIds Hops
  rw [List.mem_insertionSort, List.mem_dedup, List.mem_flatMap]
  apply exists_congr
  intro x
  rw [Reach.mem_searchFrom_through d.nodup_nodeIds fun a => mem_nodeIds_of_reverseAdj_ne_nil]
  simp only [decide_eq_false_iff_not]

theorem hops_iff : d.Hops nodeTaskIds skipped v x ↔ Reach.Through d.adjacency
        (fun a => a ∉ skipped ∧ d.contributes nodeTaskIds a = false) x v ∧ x ∉ skipped := by
  have hback : ∀ a b, b ∈ d.reverseAdj a → a ∈ d.adjacency b := fun a b h => mem_reverseAdj.1 h
  have hf : ∀ a b, b ∈ d.adjacency a → a ∈ d.reverseAdj b := fun a b h => mem_reverseAdj.2 h
  constructor
  · exact fun h => ⟨h.1.reverse hback, h.2⟩
  · exact fun h => ⟨h.1.reverse hf, h.2⟩

-- ==== skipping

variable (d)

def findSkippedNodes (untakenTarget takenTarget : String) : List String :=
  let takenReachable :=
    Reach.searchFrom (fun _ => false) d.adjacency d.nodeIds [takenTarget]
  Reach.searchFrom (fun a => a ∈ takenReachable) d.adjacency d.nodeIds [untakenTarget]

variable {d}

theorem mem_findSkippedNodes {untaken taken : String} : x ∈ d.findSkippedNodes untaken taken ↔
      d.Reaches untaken x ∧ ¬ d.Reaches taken x := by
  have hr : ∀ a b, b ∈ Reach.searchFrom (fun _ => false) d.adjacency d.nodeIds [a] ↔
      d.Reaches a b := fun a b => mem_reachableFrom
  unfold findSkippedNodes
  rw [Reach.mem_searchFrom d.nodup_nodeIds fun a => mem_nodeIds_of_adjacency_ne_nil]
  simp only [List.mem_singleton, exists_eq_left, hr, decide_eq_false_iff_not]
  constructor
  · rintro ⟨hfree, hpath⟩
    induction hpath with
    | refl => exact ⟨.refl, hfree⟩
    | tail _ hstep ih =>
      refine ⟨ih.1.tail hstep.1, ?_⟩
      simpa [hr] using hstep.2
  · rintro ⟨hpath, hout⟩
    -- no node on the way can be reached from the taken target
    have hway : ∀ y, d.Reaches y x → ¬ d.Reaches taken y := fun y hy ht => hout (ht.trans hy)
    refine ⟨hway untaken hpath, ?_⟩
    induction hpath using Relation.ReflTransGen.head_induction_on with
    | refl => exact .refl
    | head hedge hrest ih =>
      refine Relation.ReflTransGen.head ⟨hedge, ?_⟩ ih
      simpa [hr] using hway _ hrest

variable (d)

def branchTarget (nid : String) (type : WorkflowEdgeType) : Option String :=
  (d.outgoing nid).foldl (fun target edge => if edge.2 = type then some edge.1 else target)
    none

def skippedBy (nid : String) (taken : WorkflowEdgeType)
    (branches : List WorkflowEdgeType) : List String :=
  match d.branchTarget nid taken with
  | none => []
  | some takenTarget =>
    ((branches.filter (· ≠ taken)).filterMap (d.branchTarget nid)).flatMap fun untaken =>
      d.findSkippedNodes untaken takenTarget

def processConditionalNode (nid : String) (result : Bool) : List String :=
  d.skippedBy nid (if result then .conditionalTrue else .conditionalFalse)
    conditionalEdgeTypes

end WorkflowDefinition

-- ==== grading

inductive VerificationVerdict
  | pass
  | fail
  | refer

/-- `VerificationVerdict(verdict_str)`, REFER where the text is no verdict. -/
def VerificationVerdict.parse (s : String) : VerificationVerdict :=
  if s = "pass" then .pass else if s = "fail" then .fail else .refer

def VerificationVerdict.edge : VerificationVerdict → WorkflowEdgeType
  | .pass => .verificationPass
  | .fail => .verificationFail
  | .refer => .verificationRefer

def WorkflowDefinition.processVerificationNode (d : WorkflowDefinition) (nid : String)
    (verdict : VerificationVerdict) : List String :=
  d.skippedBy nid verdict.edge verificationEdgeTypes

-- ==== task configs

def taskTypeMap : List (String × TaskType) :=
  [("development", .development), ("design", .design), ("research", .research),
    ("review", .review), ("admin", .admin), ("analysis", .analysis)]

def priorityMap : List (String × Priority) :=
  [("critical", .critical), ("high", .high), ("medium", .medium), ("low", .low)]

def complexityMap : List (String × Complexity) :=
  [("simple", .simple), ("medium", .medium), ("complex", .complex), ("epic", .epic)]

/-- The `ValueError`s of `parse_task_config`. -/
inductive TaskConfigError
  | taskType (nodeId raw : String)
  | priority (nodeId raw : String)
  | complexity (nodeId raw : String)
  deriving DecidableEq

structure TaskConfig where
  title : String
  description : String
  taskType : TaskType
  priority : Priority
  complexity : Complexity

def parseTaskConfig (node : WorkflowNode) (nid : String) : Except TaskConfigError TaskConfig := do
  let title := node.config.getStr "title" node.label
  let description := node.config.getStr "description" ("Task from workflow node " ++ nid)
  let rawType := node.config.getStr "task_type" "development"
  let some taskType := taskTypeMap.lookup rawType | .error (.taskType nid rawType)
  let rawPriority := node.config.getStr "priority" "medium"
  let some priority := priorityMap.lookup rawPriority | .error (.priority nid rawPriority)
  let rawComplexity := node.config.getStr "complexity" "medium"
  let some complexity := complexityMap.lookup rawComplexity
    | .error (.complexity nid rawComplexity)
  return { title, description, taskType, priority, complexity }

open Lib
open List

-- ==== the branches

def WorkflowNodeType.branches : WorkflowNodeType → List WorkflowEdgeType
  | .conditional => conditionalEdgeTypes
  | .verification => verificationEdgeTypes
  | _ => []

theorem VerificationVerdict.edge_mem (v : VerificationVerdict) :
    v.edge ∈ verificationEdgeTypes := by
  cases v <;> decide

namespace WorkflowDefinition

variable (d : WorkflowDefinition)

def branchesAt (nid : String) : List WorkflowEdgeType :=
  ((d.typeOf? nid).map WorkflowNodeType.branches).getD []

def Takes (outcome : String → WorkflowEdgeType) (a b : String) : Prop :=
  ∃ type, (b, type) ∈ d.outgoing a ∧ (d.branchesAt a ≠ [] → type = outcome a)

/-- Some path from START takes the chosen edge of each decision node on it. -/
def Live (outcome : String → WorkflowEdgeType) (nid : String) : Prop :=
  ∃ start, d.firstOf? .start = some start ∧
    Relation.ReflTransGen (d.Takes outcome) start.id nid

def LiveDecision (outcome : String → WorkflowEdgeType) (nid : String) : Prop :=
  d.Live outcome nid ∧ d.branchesAt nid ≠ []

def CutsOff (outcome : String → WorkflowEdgeType) (nid x : String) : Prop :=
  x ∈ d.skippedBy nid (outcome nid) (d.branchesAt nid)

/-- Whatever live node an untaken target reaches, the taken one reaches too. -/
def SparesLive (outcome : String → WorkflowEdgeType) : Prop :=
  ∀ nid, d.LiveDecision outcome nid → ∀ x, d.CutsOff outcome nid x → ¬ d.Live outcome x

def CutsDead (outcome : String → WorkflowEdgeType) : Prop :=
  ∀ x ∈ d.nodeIds, ¬ d.Live outcome x →
    ∃ nid, d.LiveDecision outcome nid ∧ d.CutsOff outcome nid x

/-- Each CONDITIONAL node has one edge for each of its two branches. -/
def SingleBranches : Prop :=
  ∀ n ∈ d.nodes, n.type = .conditional →
    ∀ type ∈ conditionalEdgeTypes, (d.outgoingTypes n.id).count type = 1

def Proper (outcome : String → WorkflowEdgeType) : Prop :=
  ∀ nid, d.branchesAt nid ≠ [] → outcome nid ∈ d.branchesAt nid

variable {d}

variable {nid target x start : String} {outcome : String → WorkflowEdgeType}
  {type : WorkflowEdgeType}

theorem branchesAt_of_node {node : WorkflowNode} (h : d.node? nid = some node) :
    d.branchesAt nid = node.type.branches := by
  unfold branchesAt typeOf?
  rw [h]
  rfl

theorem proper_of_nodes (h : ∀ n ∈ d.nodes, n.type.branches ≠ [] → outcome n.id ∈ n.type.branches) :
    d.Proper outcome := by
  intro nid hne
  cases hfind : d.node? nid with
  | none =>
    unfold branchesAt typeOf? at hne
    rw [hfind] at hne
    exact absurd rfl hne
  | some node =>
    obtain ⟨hmem, rfl⟩ := node?_mem hfind
    rw [branchesAt_of_node hfind] at hne ⊢
    exact h node hmem hne

-- ==== branch targets

theorem foldl_target (type : WorkflowEdgeType) (edges : List (String × WorkflowEdgeType))
    (target : Option String) :
    edges.foldl (fun target edge => if edge.2 = type then some edge.1 else target) target =
      (((edges.filter (·.2 = type)).getLast?).map Prod.fst).or target := by
  induction edges generalizing target with
  | nil => rfl
  | cons e rest ih =>
    rw [foldl_cons, ih]
    by_cases h : e.2 = type
    · rw [if_pos h, filter_cons_of_pos (by simpa using h), List.getLast?_cons]
      cases (rest.filter (·.2 = type)).getLast? <;> rfl
    · rw [if_neg h, filter_cons_of_neg (by simpa using h)]

theorem outgoing_of_branchTarget (h : d.branchTarget nid type = some target) :
    (target, type) ∈ d.outgoing nid := by
  unfold branchTarget at h
  rw [foldl_target, Option.or_none, Option.map_eq_some_iff] at h
  obtain ⟨e, he, rfl⟩ := h
  have hmem := mem_filter.1 (mem_of_getLast? he)
  have htype : e.2 = type := by simpa using hmem.2
  rw [← htype]
  exact hmem.1

theorem branchTarget_of_mem (h : type ∈ d.outgoingTypes nid) :
    ∃ target, d.branchTarget nid type = some target := by
  obtain ⟨e, he, htype⟩ := mem_map.1 h
  have hne : (d.outgoing nid).filter (·.2 = type) ≠ [] :=
    ne_nil_of_mem (mem_filter.2 ⟨he, by simpa using htype⟩)
  unfold branchTarget
  rw [foldl_target, List.getLast?_eq_some_getLast hne]
  exact ⟨_, rfl⟩

theorem branchTarget_of_count (hcnt : (d.outgoingTypes nid).count type = 1)
    (h : (target, type) ∈ d.outgoing nid) : d.branchTarget nid type = some target := by
  unfold outgoingTypes at hcnt
  rw [count_eq_length_filter, filter_map, length_map, length_eq_one_iff] at hcnt
  obtain ⟨e, he⟩ := hcnt
  have hf : (d.outgoing nid).filter (·.2 = type) = [e] := by
    rw [← he]
    exact filter_congr fun x _ => rfl
  have hmem : (target, type) ∈ (d.outgoing nid).filter (·.2 = type) := mem_filter.2 ⟨h, by simp⟩
  rw [hf, mem_singleton] at hmem
  unfold branchTarget
  rw [foldl_target, hf, ← hmem]
  rfl

variable {taken : WorkflowEdgeType} {a : String} {order : List String}
  {branches : List WorkflowEdgeType}

theorem mem_skippedBy : x ∈ d.skippedBy nid taken branches ↔
      ∃ target, d.branchTarget nid taken = some target ∧ ¬ d.Reaches target x ∧
        ∃ type ∈ branches, type ≠ taken ∧
          ∃ untaken, d.branchTarget nid type = some untaken ∧ d.Reaches untaken x := by
  unfold skippedBy
  cases ht : d.branchTarget nid taken with
  | none => simp
  | some target =>
    simp only [mem_flatMap, mem_filterMap, mem_filter, decide_eq_true_eq,
      mem_findSkippedNodes, Option.some.injEq, exists_eq_left']
    constructor
    · rintro ⟨untaken, ⟨type, ⟨hmem, hne⟩, hunt⟩, hr, hout⟩
      exact ⟨hout, type, hmem, hne, untaken, hunt, hr⟩
    · rintro ⟨hout, type, hmem, hne, untaken, hunt, hr⟩
      exact ⟨untaken, ⟨type, ⟨hmem, hne⟩, hunt⟩, hr, hout⟩

theorem transGen_of_skippedBy (h : x ∈ d.skippedBy nid taken branches) :
    Relation.TransGen (fun a b => b ∈ d.adjacency a) nid x := by
  obtain ⟨_, _, _, _, _, _, untaken, hunt, hr⟩ := mem_skippedBy.1 h
  exact Relation.TransGen.head' (adjacency_of_outgoing (outgoing_of_branchTarget hunt)) hr

-- ==== live

theorem Live.step {b : String} (h : d.Live outcome a) (hab : d.Takes outcome a b) :
    d.Live outcome b := by
  obtain ⟨start, hs, hpath⟩ := h
  exact ⟨start, hs, hpath.tail hab⟩

/-- A validated definition has START in its node map, alive. -/
theorem live_start {start : WorkflowNode} (h : d.firstOf? .start = some start) :
    d.Live outcome start.id :=
  ⟨start, h, .refl⟩

structure DecisionEdges (d : WorkflowDefinition) : Prop where
  has_edge : ∀ nid, ∀ type ∈ d.branchesAt nid, type ∈ d.outgoingTypes nid
  only_branches : ∀ nid, d.branchesAt nid ≠ [] →
    ∀ type ∈ d.outgoingTypes nid, type ∈ d.branchesAt nid

theorem Validated.decisionEdges (h : Validated d start) : DecisionEdges d := by
  have hnode : ∀ nid, d.branchesAt nid ≠ [] → ∃ node ∈ d.nodes, node.id = nid ∧
      d.branchesAt nid = node.type.branches := by
    intro nid hne
    cases hfind : d.node? nid with
    | none =>
      unfold branchesAt typeOf? at hne
      rw [hfind] at hne
      exact absurd rfl hne
    | some node => exact ⟨node, (node?_mem hfind).1, (node?_mem hfind).2, branchesAt_of_node hfind⟩
  constructor
  · intro nid type htype
    obtain ⟨node, hmem, rfl, hb⟩ := hnode nid (ne_nil_of_mem htype)
    rw [hb] at htype
    cases hkind : node.type with
    | conditional =>
      rw [hkind] at htype
      obtain ⟨htrue, hf, -⟩ := h.conditional node hmem hkind
      simp only [WorkflowNodeType.branches, conditionalEdgeTypes, mem_cons,
        not_mem_nil, or_false] at htype
      rcases htype with rfl | rfl
      · exact htrue
      · exact hf
    | verification =>
      rw [hkind] at htype
      have hcnt := (h.verification node hmem hkind).1 type htype
      rw [← count_pos_iff, hcnt]
      exact Nat.one_pos
    | _ =>
      rw [hkind] at htype
      cases htype
  · intro nid hne type htype
    obtain ⟨node, hmem, rfl, hb⟩ := hnode nid hne
    rw [hb] at hne ⊢
    cases hkind : node.type with
    | conditional => exact (h.conditional node hmem hkind).2.2 type htype
    | verification => exact (h.verification node hmem hkind).2 type htype
    | _ =>
      rw [hkind] at hne
      exact absurd rfl hne

theorem Validated.branchTarget_of_outgoing (h : Validated d start) (hs : d.SingleBranches)
    (hne : d.branchesAt nid ≠ []) (hout : (target, type) ∈ d.outgoing nid) :
    d.branchTarget nid type = some target := by
  apply branchTarget_of_count _ hout
  have hmem : type ∈ d.branchesAt nid :=
    h.decisionEdges.only_branches nid hne type (mem_map.2 ⟨(target, type), hout, rfl⟩)
  cases hfind : d.node? nid with
  | none =>
    unfold branchesAt typeOf? at hne
    rw [hfind] at hne
    exact absurd rfl hne
  | some node =>
    obtain ⟨hnode, rfl⟩ := node?_mem hfind
    rw [branchesAt_of_node hfind] at hmem
    cases hkind : node.type with
    | conditional =>
      rw [hkind] at hmem
      exact hs node hnode hkind type hmem
    | verification =>
      rw [hkind] at hmem
      exact (h.verification node hnode hkind).1 type hmem
    | _ =>
      rw [hkind] at hmem
      cases hmem

theorem live_branchTarget (hlive : d.Live outcome nid)
    (h : d.branchTarget nid (outcome nid) = some target) : d.Live outcome target :=
  hlive.step ⟨outcome nid, outgoing_of_branchTarget h, fun _ => rfl⟩

/-- LAST LIVE NODE: one that leads to a dead one leads, through live nodes, to a live decision
that cuts it off. Induction on the rest of the walk. -/
theorem cut_off_of_reaches (ho : WalkOrder d order) (hv : Validated d start)
    (hs : d.SingleBranches) (hprop : d.Proper outcome) (hdead : ¬ d.Live outcome x)
    (hlive : d.Live outcome a) (hr : d.Reaches a x) :
    ∃ nid, d.LiveDecision outcome nid ∧ d.CutsOff outcome nid x := by
  induction hleft : order.length - position order a using Nat.strong_induction_on
    generalizing a with
  | _ left ih =>
    -- a later live node that leads to `x` has less of the walk before it
    have hl : ∀ b, b ∈ d.adjacency a → d.Live outcome b → d.Reaches b x →
        ∃ nid, d.LiveDecision outcome nid ∧ d.CutsOff outcome nid x := by
      intro b hb hk hbreak
      have hgrow := ho.position_lt hb
      have hin : position order b < order.length :=
        idxOf_lt_length_iff.2 ((ho.mem b).2 (mem_nodeIds_of_adjacency hb).2)
      exact ih (order.length - position order b) (by omega) hk hbreak rfl
    rcases Relation.ReflTransGen.cases_head hr with rfl | ⟨m, hedge, hmx⟩
    · exact absurd hlive hdead
    · by_cases hm : d.Live outcome m
      · exact hl m hedge hm hmx
      · obtain ⟨type, hout⟩ := outgoing_of_adjacency hedge
        have hc : d.branchesAt a ≠ [] ∧ type ≠ outcome a := by
          by_contra hnot
          apply hm
          apply hlive.step
          refine ⟨type, hout, fun hne => ?_⟩
          by_contra htype
          exact hnot ⟨hne, htype⟩
        obtain ⟨hne, htype⟩ := hc
        have hunt := hv.branchTarget_of_outgoing hs hne hout
        obtain ⟨target, ht⟩ :=
          branchTarget_of_mem (hv.decisionEdges.has_edge a _ (hprop a hne))
        have hx := live_branchTarget hlive ht
        by_cases htx : d.Reaches target x
        · exact hl target (adjacency_of_outgoing (outgoing_of_branchTarget ht)) hx htx
        · refine ⟨a, ⟨hlive, hne⟩, mem_skippedBy.2 ⟨target, ht, htx, type, ?_, htype,
            m, hunt, hmx⟩⟩
          exact hv.decisionEdges.only_branches a hne type (mem_map.2 ⟨(m, type), hout, rfl⟩)

theorem cutsDead_of_singleBranches (ho : WalkOrder d order) (hv : Validated d start)
    (hs : d.SingleBranches) (hprop : d.Proper outcome) : d.CutsDead outcome := by
  intro x hx hdead
  obtain ⟨first, hf, hmem, hstart⟩ := firstOf?_of_count d.one_start
  obtain ⟨n, hn, htype⟩ := hv.start_type
  have hsame : first.id = start := by
    rw [eq_of_type_count d.one_start hmem (node?_mem hn).1 hstart htype]
    exact (node?_mem hn).2
  exact cut_off_of_reaches ho hv hs hprop hdead (live_start hf)
    (hsame ▸ hv.reachable x hx)

end WorkflowDefinition

end Synthorg.Workflow
