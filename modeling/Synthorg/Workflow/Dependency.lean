/-
Which tasks of an activation depend on which.

The tree of frames an activation leaves, read as a graph of tasks. A task stands at a LOCATION,
the SUBWORKFLOW nodes on the way down and its own node last. `KeepsOrder` is what an ordered
activation promises: where a path of nodes that were not skipped leads from a node to a TASK, that
task depends on the node's. `Fed` is what the walk delivers, said of the graphs alone: such a path
may not cross a SUBWORKFLOW node that yields tasks of its own, and a task inside a child graph
goes the same way to one the child ends in.

The recursion is on the depth the cap still allows.
-/
import Synthorg.Workflow.Activation
import Synthorg.TaskEngine.Apply
import Synthorg.Lib.Raise

namespace Synthorg.Workflow

section
open Synthorg.Core Lib TaskEngine

-- ==== walk state

def qualifiedIdSeparator : String := "::"

def qualifyId (qualifier nodeId : String) : String :=
  if qualifier = "" then nodeId else qualifier ++ qualifiedIdSeparator ++ nodeId

/-- Accumulators shared across all frames of an activation. -/
structure WalkState where
  nodeExecMap : List (String × WorkflowNodeExecution) := []
  nodeTaskIds : NodeTaskIds := []
  orderedKeys : List String := []

namespace WalkState

def record (state : WalkState) (qualifiedId : String)
    (nodeExecution : WorkflowNodeExecution) : WalkState where
  orderedKeys :=
    if (state.nodeExecMap.lookup qualifiedId).isSome then state.orderedKeys
    else state.orderedKeys ++ [qualifiedId]
  nodeExecMap := (qualifiedId, nodeExecution) :: state.nodeExecMap
  nodeTaskIds :=
    match nodeExecution.taskId with
    | some taskId => (qualifiedId, .one taskId) :: state.nodeTaskIds
    | none => state.nodeTaskIds

/-- `state.node_exec_map[key] for key in state.ordered_keys`. -/
def nodeExecutions (state : WalkState) : List WorkflowNodeExecution :=
  state.orderedKeys.filterMap fun key => state.nodeExecMap.lookup key

/-- Every key `_record_node` was called with, the latest call first. -/
def keys (state : WalkState) : List String := state.nodeExecMap.map Prod.fst

end WalkState

/-- A node whose only successors are END nodes, or that has none. -/
def WorkflowDefinition.isTerminal (d : WorkflowDefinition) (nid : String) : Bool :=
  (d.adjacency nid).all (d.isType .end)

def collectTerminalTaskIds (child : WorkflowDefinition) (childQualifier : String)
    (state : WalkState) : List String :=
  child.nodes.flatMap fun node =>
    if node.type.executable && child.isTerminal node.id then
      match node.type, state.nodeTaskIds.lookup (qualifyId childQualifier node.id) with
      | .task, some (.one taskId) => [taskId]
      | .task, _ => []
      | _, some ids => ids.flatten
      | _, none => []
    else []

-- ==== frames

structure Frame where
  depth : Nat
  qualifier : String
  /-- `frame_ctx` -/
  vars : Vars
  nodeTaskIds : NodeTaskIds := []
  skippedNodes : List String := []
  pendingAssignments : List (String × String) := []
  records : List (String × WorkflowNodeExecution) := []
  tasks : List (String × Task) := []
  decisions : List (String × WorkflowEdgeType) := []
  /-- the graphs walked for its SUBWORKFLOW nodes -/
  children : List (String × WorkflowDefinition × Frame) := []

-- ==== the outside

/-- What an activation raises. -/
inductive WorkflowError
  | notFound (definitionId : String)
  | definitionInvalid (definitionId : String) (errors : List WorkflowValidationError)
  | cyclicGraph
  | unknownNode (nodeId : String)
  | conditionEval (nodeId reason : String)
  | taskConfig (e : TaskConfigError)
  | taskData
  | engineRefused
  | taskMutation (e : MutationError)
  | registryNotConfigured (nodeId : String)
  | missingSubworkflowId (nodeId : String)
  | missingVersion (nodeId : String)
  | inputBindingsNotDict (nodeId : String)
  | outputBindingsNotDict (nodeId : String)
  | depthExceeded (depth maxDepth : Nat)
  | subworkflowNotFound (subworkflowId version : String)
  | subworkflowIo (reason : String)
  | executionInvalid
  | persistence

structure Service where
  definitionRepo : String → Option WorkflowDefinition
  subworkflowRegistry : Option (String → String → Option WorkflowDefinition)
  evaluateCondition : String → Vars → Except String Bool
  resolveInputBindings : Vars → Vars → WorkflowDefinition → Except String Vars
  projectOutputBindings :
    Vars → Vars → WorkflowDefinition → Vars → Except String Vars
  maxSubworkflowDepth : Nat
  /-- the engine's turn for the n-th task; nothing where it takes no mutation -/
  creation : Nat → Option TurnEnv
  executionId : Uuid
  now : Int
  saveRaises : Bool := false

/-- `project` and `activated_by`. -/
structure ActivationRequest where
  project : String
  activatedBy : String

structure World where
  engine : EngineState
  created : List Task := []
  executions : List WorkflowExecution := []

/-- An `async def` of the service. -/
abbrev Activating := EStateM WorkflowError World

def orRaise {ε α : Type} (raised : ε → WorkflowError) : Except ε α → Activating α
  | .ok a => pure a
  | .error e => throw (raised e)

def orElseRaise {α : Type} (raised : WorkflowError) : Option α → Activating α
  | some a => pure a
  | none => throw raised

-- ==== tasks

def maxTaskTitleLength : Nat := 256

def maxTaskDescriptionLength : Nat := 4096

/-- The field rules of `CreateTaskData`. -/
def createTaskDataValid (data : CreateTaskData) : Bool :=
  notBlank data.title && data.title.length ≤ maxTaskTitleLength &&
    notBlank data.description && data.description.length ≤ maxTaskDescriptionLength &&
      notBlank data.project && notBlank data.createdBy &&
        data.assignedTo.all notBlank && data.dependencies.all notBlank

section Walk

variable (svc : Service) (req : ActivationRequest)

def createTask (data : CreateTaskData) : Activating Task := fun world =>
  match svc.creation world.created.length with
  | none => .error .engineRefused world
  | some env =>
    match processOne env (.create "workflow-engine" data) world.engine with
    | (⟨_, .success (some task) _ _⟩, engine) =>
      .ok task { world with engine := engine, created := world.created ++ [task] }
    | (⟨_, .success none _ _⟩, engine) =>
      .error (.taskMutation .internal) { world with engine := engine }
    | (⟨_, .failure e⟩, engine) => .error (.taskMutation e) { world with engine := engine }

/-- The task data of a TASK node. -/
def taskDataFor (d : WorkflowDefinition) (frame : Frame) (nid : String)
    (config : TaskConfig) : CreateTaskData where
  title := config.title
  description := config.description
  type := config.taskType
  priority := config.priority
  project := req.project
  createdBy := req.activatedBy
  assignedTo := frame.pendingAssignments.lookup nid
  dependencies := d.findUpstreamTaskIds nid frame.nodeTaskIds frame.skippedNodes
  estimatedComplexity := config.complexity

def processTaskNode (d : WorkflowDefinition) (nid : String) (node : WorkflowNode)
    (frame : Frame) : Activating (Frame × WorkflowNodeExecution) := do
  let config ← orRaise .taskConfig (parseTaskConfig node nid)
  let data := taskDataFor req d frame nid config
  if !createTaskDataValid data then throw .taskData
  let task ← createTask svc data
  return (
    { frame with
      nodeTaskIds := (nid, .one task.id.text) :: frame.nodeTaskIds
      pendingAssignments := frame.pendingAssignments.filter (·.1 ≠ nid)
      tasks := frame.tasks ++ [(nid, task)] },
    .taskCreated (qualifyId frame.qualifier nid) task.id.text)

-- ==== handlers

def Frame.decide (frame : Frame) (nid : String) (taken : WorkflowEdgeType)
    (skips : List String) : Frame :=
  { frame with
    skippedNodes := frame.skippedNodes ++ skips
    decisions := frame.decisions ++ [(nid, taken)] }

def handleAgentAssignment (d : WorkflowDefinition) (nid : String) (node : WorkflowNode)
    (frame : Frame) : Frame :=
  match node.config.get? "agent_name" with
  | some name =>
    if name.truthy then
      { frame with
        pendingAssignments :=
          (d.findDownstreamTaskIds nid).map (·, name.str) ++ frame.pendingAssignments }
    else frame
  | none => frame

def handleVerification (d : WorkflowDefinition) (nid : String) (node : WorkflowNode)
    (frame : Frame) : Frame :=
  let verdict := VerificationVerdict.parse (node.config.getStr "_verdict_override" "refer")
  frame.decide nid verdict.edge (d.processVerificationNode nid verdict)

def handleConditional (d : WorkflowDefinition) (nid : String) (node : WorkflowNode)
    (frame : Frame) : Activating Frame := do
  let expr := node.config.getStr "condition_expression" "false"
  let result ← orRaise (.conditionEval nid) (svc.evaluateCondition expr frame.vars)
  return frame.decide nid (if result then .conditionalTrue else .conditionalFalse)
    (d.processConditionalNode nid result)

/-- The pinned child definition and the two bindings of a SUBWORKFLOW node. -/
structure SubworkflowCall where
  subworkflowId : String
  version : String
  inputBindings : Vars
  outputBindings : Vars

/-- The shape checks at the head of `_process_subworkflow_node`. -/
def subworkflowCall (nid : String) (node : WorkflowNode) : Except WorkflowError SubworkflowCall :=
  let config := node.config
  match (config.get? "subworkflow_id").bind Value.nonBlankText? with
  | none => .error (.missingSubworkflowId nid)
  | some subworkflowId =>
    match (config.get? "version").bind Value.nonBlankText? with
    | none => .error (.missingVersion nid)
    | some version =>
      match config.get? "input_bindings" with
      | some (.mapping inputBindings _) =>
        match config.get? "output_bindings" with
        | some (.mapping outputBindings _) =>
          .ok { subworkflowId, version, inputBindings, outputBindings }
        | _ => .error (.outputBindingsNotDict nid)
      | _ => .error (.inputBindingsNotDict nid)

abbrev WalkChild :=
  WorkflowDefinition → Nat → String → Vars → WalkState → Activating (Frame × WalkState)

def processSubworkflowNode (walkChild : WalkChild) (nid : String) (node : WorkflowNode)
    (frame : Frame) (state : WalkState) :
    Activating (Frame × WalkState × WorkflowNodeExecution) := do
  let registry ← orElseRaise (.registryNotConfigured nid) svc.subworkflowRegistry
  let call ← orRaise id (subworkflowCall nid node)
  let nextDepth := frame.depth + 1
  if nextDepth > svc.maxSubworkflowDepth then
    throw (.depthExceeded nextDepth svc.maxSubworkflowDepth)
  let child ← orElseRaise (.subworkflowNotFound call.subworkflowId call.version)
    (registry call.subworkflowId call.version)
  let inputs ← orRaise .subworkflowIo
    (svc.resolveInputBindings call.inputBindings frame.vars child)
  let qualifiedId := qualifyId frame.qualifier nid
  let (childFrame, state) ← walkChild child nextDepth qualifiedId inputs state
  let projected ← orRaise .subworkflowIo
    (svc.projectOutputBindings call.outputBindings childFrame.vars child frame.vars)
  let terminalIds := collectTerminalTaskIds child qualifiedId state
  return (
    { frame with
      vars := frame.vars.update projected
      nodeTaskIds :=
        if terminalIds ≠ [] then (nid, .many terminalIds) :: frame.nodeTaskIds
        else frame.nodeTaskIds
      children := frame.children ++ [(nid, child, childFrame)] },
    state, .subworkflowDone qualifiedId)

def processNodeInFrame (walkChild : WalkChild) (d : WorkflowDefinition) (nid : String)
    (node : WorkflowNode) (frame : Frame) (state : WalkState) :
    Activating (Frame × WalkState × WorkflowNodeExecution) := do
  let done := WorkflowNodeExecution.done (qualifyId frame.qualifier nid) node.type
  match node.type with
  | .start | .end | .parallelSplit | .parallelJoin => return (frame, state, done)
  | .agentAssignment => return (handleAgentAssignment d nid node frame, state, done)
  | .verification => return (handleVerification d nid node frame, state, done)
  | .conditional => return (← handleConditional svc d nid node frame, state, done)
  | .subworkflow => processSubworkflowNode svc walkChild nid node frame state
  | .task =>
    let (frame, nodeExecution) ← processTaskNode svc req d nid node frame
    return (frame, state, nodeExecution)

-- ==== frames

def recordNode (nid : String) (nodeExecution : WorkflowNodeExecution) (frame : Frame)
    (state : WalkState) : Frame × WalkState :=
  ({ frame with records := frame.records ++ [(nid, nodeExecution)] },
    state.record (qualifyId frame.qualifier nid) nodeExecution)

/-- One round of the loop of `_walk_frame`. -/
def walkNode (walkChild : WalkChild) (d : WorkflowDefinition) (at_ : Frame × WalkState)
    (nid : String) : Activating (Frame × WalkState) := do
  let node ← orElseRaise (.unknownNode nid) (d.node? nid)
  if nid ∈ at_.1.skippedNodes then
    return recordNode nid (.skippedNode (qualifyId at_.1.qualifier nid) node.type)
      at_.1 at_.2
  let (frame, state, nodeExecution) ←
    processNodeInFrame svc req walkChild d nid node at_.1 at_.2
  return recordNode nid nodeExecution frame state

/-- The loop of `_walk_frame`, over the nodes in topological order. -/
def walkNodes (walkChild : WalkChild) (d : WorkflowDefinition) (depth : Nat)
    (qualifier : String) (vars : Vars) (state : WalkState) :
    Activating (Frame × WalkState) := do
  let sortedIds ← orElseRaise .cyclicGraph d.topologicalSort
  sortedIds.foldlM (walkNode svc req walkChild d)
    ({ depth := depth, qualifier := qualifier, vars := vars }, state)

/-- With as many child frames below it as `levels` allows. -/
def walkFrame (levels : Nat) : WalkChild := fun d depth qualifier vars state =>
  match levels with
  | 0 =>
    walkNodes svc req
      (fun _ depth _ _ _ => throw (.depthExceeded depth svc.maxSubworkflowDepth))
      d depth qualifier vars state
  | levels + 1 => walkNodes svc req (walkFrame levels) d depth qualifier vars state

-- ==== activation

def loadAndValidate (definitionId : String) : Except WorkflowError WorkflowDefinition :=
  match svc.definitionRepo definitionId with
  | none => .error (.notFound definitionId)
  | some d =>
    if d.valid then .ok d else .error (.definitionInvalid definitionId d.validateWorkflow)

def saveExecution (execution : WorkflowExecution) : Activating Unit := fun world =>
  if svc.saveRaises || world.executions.any (·.id = execution.id) then
    .error .persistence world
  else .ok () { world with executions := world.executions ++ [execution] }

def activate (definitionId : String) (context : Vars) : Activating WorkflowExecution := do
  let d ← orRaise id (loadAndValidate svc definitionId)
  let (_, state) ← walkFrame svc req svc.maxSubworkflowDepth d 0 "" context {}
  let execution ← orElseRaise .executionInvalid
    (WorkflowExecution.build svc.executionId d.id.text d.revision
      (!state.nodeTaskIds.isEmpty) state.nodeExecutions req.activatedBy req.project svc.now)
  saveExecution svc execution
  return execution

end Walk

end

open Synthorg.Core Lib

-- ==== locations

namespace Frame

/-- The task created for a TASK node. -/
def taskOf (frame : Frame) (nid : String) : Option Task := frame.tasks.lookup nid

/-- The graph walked for a SUBWORKFLOW node, and its frame. -/
def childOf (frame : Frame) (nid : String) : Option (WorkflowDefinition × Frame) :=
  frame.children.lookup nid

def taskAt : Frame → List String → Option Task
  | _, [] => none
  | frame, [nid] => frame.taskOf nid
  | frame, x :: y :: rest => (frame.childOf x).bind fun child => child.2.taskAt (y :: rest)

def EndsIn (frame : Frame) (d : WorkflowDefinition) (nid : String) (t : Task) : Prop :=
  d.isTerminal nid = true ∧ frame.taskOf nid = some t

def Yields (frame : Frame) (nid : String) (t : Task) : Prop :=
  ∃ child inner w, frame.childOf nid = some (child, inner) ∧ inner.EndsIn child w t

def Owns (frame : Frame) (nid : String) (t : Task) : Prop :=
  frame.taskOf nid = some t ∨ frame.Yields nid t

end Frame

/-- The frames below a frame, by the SUBWORKFLOW nodes on the way down. -/
def frameAt : WorkflowDefinition → Frame → List String → Option (WorkflowDefinition × Frame)
  | d, frame, [] => some (d, frame)
  | _, frame, x :: rest => (frame.childOf x).bind fun child => frameAt child.1 child.2 rest

-- ==== promises

def LivePath (d : WorkflowDefinition) (frame : Frame) (x v : String) : Prop :=
  Reach.Through d.adjacency (fun n => n ∉ frame.skippedNodes) x v

def DependsOn (created : List Task) (a b : String) : Prop :=
  ∃ t ∈ created, t.id.text = a ∧ b ∈ t.dependencies

/-- WHAT ORDER PROMISES, of every frame: a task depends on a node's that a live path comes from. -/
def KeepsOrder (created : List Task) (d : WorkflowDefinition) (root : Frame) : Prop :=
  ∀ path d' frame, frameAt d root path = some (d', frame) →
    ∀ v x rest tv tu, frame.taskOf v = some tv → frame.taskAt (x :: rest) = some tu →
      LivePath d' frame x v → Relation.TransGen (DependsOn created) tv.id.text tu.id.text

/-- A live path that crosses no SUBWORKFLOW node with tasks to yield. -/
def Linked (d : WorkflowDefinition) (frame : Frame) (x v : String) : Prop :=
  Reach.Through d.adjacency (fun n => n ∉ frame.skippedNodes ∧ ∀ t, ¬ frame.Yields n t) x v

/-- What is handed on from a location: along a link, or from a child graph's last tasks. -/
def Fed : WorkflowDefinition → Frame → List String → String → Prop
  | _, _, [], _ => False
  | d, frame, [u], v => Linked d frame u v
  | d, frame, x :: y :: rest, v =>
    Linked d frame x v ∧ ∃ child inner w t, frame.childOf x = some (child, inner) ∧
      inner.EndsIn child w t ∧ (y :: rest = [w] ∨ Fed child inner (y :: rest) w)

/-- Wherever order promises a dependency, the walk hands it on. -/
def HandsOn (d : WorkflowDefinition) (root : Frame) : Prop :=
  ∀ path d' frame, frameAt d root path = some (d', frame) →
    ∀ v x rest tv tu, frame.taskOf v = some tv → frame.taskAt (x :: rest) = some tu →
      LivePath d' frame x v → Fed d' frame (x :: rest) v

-- ==== sound frames

structure SoundNode (created : List Task) (d : WorkflowDefinition) (frame : Frame)
    (v : String) : Prop where
  task : ∀ t, frame.taskOf v = some t →
    t ∈ created ∧ d.isType .task v = true ∧ v ∉ frame.skippedNodes ∧ frame.childOf v = none
  child : ∀ c, frame.childOf v = some c → v ∉ frame.skippedNodes
  dependencies : ∀ t, frame.taskOf v = some t → ∀ id, id ∈ t.dependencies ↔
    ∃ y, Reach.Through d.adjacency (fun n => n ∉ frame.skippedNodes ∧ ∀ t, ¬ frame.Owns n t) y v ∧
      ∃ s, frame.Owns y s ∧ s.id.text = id

structure SoundFrame (created : List Task) (d : WorkflowDefinition) (frame : Frame) : Prop where
  ordered : ∃ order, d.WalkOrder order
  node : ∀ v, SoundNode created d frame v

def Sound (created : List Task) (d : WorkflowDefinition) (frame : Frame) : Prop :=
  ∀ path d' frame', frameAt d frame path = some (d', frame') → SoundFrame created d' frame'

def Distinct (frame : Frame) : Prop :=
  ∀ p q t s, frame.taskAt p = some t → frame.taskAt q = some s → t.id.text = s.id.text → p = q

section Trees

variable {created : List Task} {d child : WorkflowDefinition} {frame inner : Frame}
  {x v : String} {t tv tu : Task}

theorem Sound.here (h : Sound created d frame) : SoundFrame created d frame :=
  h [] d frame rfl

theorem Sound.below (h : Sound created d frame) (hx : frame.childOf x = some (child, inner)) :
    Sound created child inner := by
  intro path d' frame' hpath
  refine h (x :: path) d' frame' ?_
  unfold frameAt
  rw [hx]
  exact hpath

variable {y a b : String} {rest path : List String}

theorem taskAt_cons (hx : frame.childOf x = some (child, inner)) :
    frame.taskAt (x :: y :: rest) = inner.taskAt (y :: rest) := by
  rw [Frame.taskAt, hx]
  rfl

theorem taskAt_inside (h : frame.taskAt (x :: y :: rest) = some t) :
    ∃ child inner, frame.childOf x = some (child, inner) ∧
      inner.taskAt (y :: rest) = some t := by
  rw [Frame.taskAt, Option.bind_eq_some_iff] at h
  obtain ⟨⟨child, inner⟩, hx, hin⟩ := h
  exact ⟨child, inner, hx, hin⟩

variable {p q : List String}

theorem Sound.located (h : Sound created d frame) (hp : frame.taskAt p = some t) : t ∈ created := by
  induction p generalizing d frame with
  | nil => cases hp
  | cons x rest ih =>
    cases rest with
    | nil => exact ((h.here.node x).task t hp).1
    | cons y rest =>
      obtain ⟨child, inner, hx, hin⟩ := taskAt_inside hp
      exact ih (h.below hx) hin

theorem Distinct.below (h : Distinct frame) (hx : frame.childOf x = some (child, inner)) :
    Distinct inner := by
  intro p q t s hp hq hid
  cases p with
  | nil => cases hp
  | cons y p =>
    cases q with
    | nil => cases hq
    | cons z q =>
      have heq := h (x :: y :: p) (x :: z :: q) t s ((taskAt_cons hx).trans hp)
        ((taskAt_cons hx).trans hq) hid
      exact (List.cons.inj heq).2

/-- What passes to the child of a call holds at the end of every path of calls. -/
theorem holds_at_path {P : WorkflowDefinition → Frame → Prop}
    (hbelow : ∀ d frame x child inner, P d frame → frame.childOf x = some (child, inner) →
      P child inner)
    (h : P d frame) (hpath : frameAt d frame path = some (child, inner)) : P child inner := by
  induction path generalizing d frame with
  | nil =>
    cases hpath
    exact h
  | cons x path ih =>
    rw [frameAt, Option.bind_eq_some_iff] at hpath
    obtain ⟨⟨d', frame'⟩, hx, hrest⟩ := hpath
    exact ih (hbelow _ _ _ _ _ h hx) hrest

-- ==== what is fed depends

theorem SoundFrame.depends_of_linked (h : SoundFrame created d frame)
    (hv : frame.taskOf v = some tv) (hlink : Linked d frame x v) (hx : frame.Owns x t) :
    Relation.TransGen (DependsOn created) tv.id.text t.id.text := by
  obtain ⟨order, ho⟩ := h.ordered
  induction hn : WorkflowDefinition.position order v using Nat.strong_induction_on
    generalizing v tv with
  | _ n ih =>
    have hdir : ∀ y s, Reach.Through d.adjacency
        (fun n => n ∉ frame.skippedNodes ∧ ∀ t, ¬ frame.Owns n t) y v →
        frame.Owns y s → DependsOn created tv.id.text s.id.text := by
      intro y s hpath hs
      exact ⟨tv, ((h.node v).task tv hv).1, rfl,
        ((h.node v).dependencies tv hv _).2 ⟨y, hpath, s, hs, rfl⟩⟩
    -- a node on the way either owns nothing or has a task of its own
    have hsplit : Reach.Through d.adjacency (fun n =>
        (n ∉ frame.skippedNodes ∧ ∀ t, ¬ frame.Owns n t) ∨
          n ∉ frame.skippedNodes ∧ (∀ t, ¬ frame.Yields n t) ∧
            ∃ s, frame.taskOf n = some s) x v := by
      refine hlink.mono fun n hok => ?_
      cases htask : frame.taskOf n with
      | some s => exact .inr ⟨hok.1, hok.2, s, rfl⟩
      | none =>
        refine .inl ⟨hok.1, fun t howns => ?_⟩
        rcases howns with hown | hy
        · simp [htask] at hown
        · exact hok.2 t hy
    rcases hsplit.last_stop with hc | ⟨s, hxs, ⟨-, -, ts, hs⟩, hsv⟩
    · exact .single (hdir x t hc hx)
    · have he : Linked d frame x s := by
        refine hxs.mono fun n hok => ?_
        rcases hok with ⟨hlive, hnone⟩ | ⟨hlive, hnone, -⟩
        · exact ⟨hlive, fun t ht => hnone t (.inr ht)⟩
        · exact ⟨hlive, hnone⟩
      have hlt := ho.position_lt_of_transGen hsv.transGen
      have hrest := ih _ (hn ▸ hlt) hs he rfl
      exact Relation.TransGen.head (hdir s ts hsv (.inl hs)) hrest

theorem depends_of_fed (h : Sound created d frame) (hv : frame.taskOf v = some tv)
    (hp : frame.taskAt p = some tu) (hfed : Fed d frame p v) :
    Relation.TransGen (DependsOn created) tv.id.text tu.id.text := by
  induction p generalizing d frame v tv with
  | nil => cases hp
  | cons x rest ih =>
    cases rest with
    | nil => exact h.here.depends_of_linked hv hfed (.inl hp)
    | cons y rest =>
      obtain ⟨hlink, child, inner, w, t, hx, hend, hway⟩ := hfed
      have hin := (taskAt_cons hx).symm.trans hp
      have hf := h.here.depends_of_linked hv hlink (.inr ⟨child, inner, w, hx, hend⟩)
      rcases hway with heq | hfed
      · rw [heq] at hin
        have hsame : t = tu := Option.some.inj (hend.2.symm.trans hin)
        exact hsame ▸ hf
      · exact hf.trans (ih (h.below hx) hend.2 hin hfed)

-- ==== what depends is fed

/-- Feeding between two locations: in the frame of the second one. -/
def FedAt : WorkflowDefinition → Frame → List String → List String → Prop
  | _, _, _, [] => False
  | d, frame, p, [v] => Fed d frame p v
  | _, frame, p, z :: w :: rest => ∃ p' child inner, p = z :: p' ∧
    frame.childOf z = some (child, inner) ∧ FedAt child inner p' (w :: rest)

theorem FedAt.ne_nil (h : FedAt d frame p q) : p ≠ [] := by
  rintro rfl
  cases q with
  | nil => exact h
  | cons z rest =>
    cases rest with
    | nil => exact h
    | cons w rest =>
      obtain ⟨p', child, inner, hnil, -⟩ := h
      cases hnil

theorem SoundFrame.linked_trans {c : String} (h : SoundFrame created d frame)
    (hb : frame.taskOf b = some t) (hab : Linked d frame a b) (hbc : Linked d frame b c) :
    Linked d frame a c := by
  obtain ⟨-, -, hlive, hnone⟩ := (h.node b).task t hb
  refine hab.trans ⟨hlive, ?_⟩ hbc
  rintro s ⟨child, inner, w, hc, -⟩
  simp [hnone] at hc

section
variable (h : Sound created d frame)
include h

theorem fed_of_fedAt (hq : frame.taskAt q = some t)
    (hpq : FedAt d frame p q) (hqv : Fed d frame q v) : Fed d frame p v := by
  induction q generalizing d frame p v with
  | nil => cases hq
  | cons x rest ih =>
    cases rest with
    | nil =>
      cases p with
      | nil => exact absurd rfl hpq.ne_nil
      | cons a p =>
        cases p with
        | nil => exact h.here.linked_trans hq hpq hqv
        | cons b p => exact ⟨h.here.linked_trans hq hpq.1 hqv, hpq.2⟩
    | cons y rest =>
      obtain ⟨p', child, inner, rfl, hx, hin⟩ := hpq
      obtain ⟨hlink, child', inner', w, s, hx', hend, hway⟩ := hqv
      obtain ⟨rfl, rfl⟩ := Prod.mk.inj (Option.some.inj (hx.symm.trans hx'))
      have hfed : Fed child inner p' w := by
        rcases hway with heq | hfed
        · rw [heq] at hin
          exact hin
        · exact ih (h.below hx) ((taskAt_cons hx).symm.trans hq) hin hfed
      cases p' with
      | nil => exact absurd rfl hin.ne_nil
      | cons a p => exact ⟨hlink, child, inner, w, s, hx, hend, .inr hfed⟩

theorem FedAt.trans {r : List String} (hq : frame.taskAt q = some t)
    (hpq : FedAt d frame p q) (hqr : FedAt d frame q r) : FedAt d frame p r := by
  induction r generalizing d frame p q with
  | nil => exact hqr
  | cons z rest ih =>
    cases rest with
    | nil => exact fed_of_fedAt h hq hpq hqr
    | cons w rest =>
      obtain ⟨q', child, inner, rfl, hz, hin⟩ := hqr
      cases q' with
      | nil => exact absurd rfl hin.ne_nil
      | cons y q' =>
        obtain ⟨p', child', inner', rfl, hz', hpin⟩ := hpq
        obtain ⟨rfl, rfl⟩ := Prod.mk.inj (Option.some.inj (hz.symm.trans hz'))
        exact ⟨p', child, inner, rfl, hz, ih (h.below hz) ((taskAt_cons hz).symm.trans hq) hpin hin⟩

theorem fedAt_of_dependency {id : String} (hq : frame.taskAt q = some t)
    (hid : id ∈ t.dependencies) :
    ∃ p s, frame.taskAt p = some s ∧ s.id.text = id ∧ FedAt d frame p q := by
  induction q generalizing d frame with
  | nil => cases hq
  | cons z rest ih =>
    cases rest with
    | nil =>
      obtain ⟨y, hpath, s, hs, hsid⟩ := ((h.here.node z).dependencies t hq id).1 hid
      have hlink : Linked d frame y z :=
        hpath.mono fun n hok => ⟨hok.1, fun t ht => hok.2 t (.inr ht)⟩
      rcases hs with hown | ⟨child, inner, w, hy, hend⟩
      · exact ⟨[y], s, hown, hsid, hlink⟩
      · exact ⟨[y, w], s, (taskAt_cons hy).trans hend.2, hsid, hlink, child, inner, w, s,
          hy, hend, .inl rfl⟩
    | cons w rest =>
      obtain ⟨child, inner, hz, hin⟩ := taskAt_inside hq
      obtain ⟨p, s, hp, hsid, hfed⟩ := ih (h.below hz) hin
      cases p with
      | nil => cases hp
      | cons y p =>
        exact ⟨z :: y :: p, s, (taskAt_cons hz).trans hp, hsid, y :: p, child, inner, rfl, hz, hfed⟩

theorem fedAt_of_depends (hu : (created.map (·.id.text)).Nodup)
    (hq : frame.taskAt q = some t) (hqa : t.id.text = a)
    (hchain : Relation.TransGen (DependsOn created) a b) :
    ∃ p s, frame.taskAt p = some s ∧ s.id.text = b ∧ FedAt d frame p q := by
  have hstep : ∀ {p s c}, frame.taskAt p = some s → DependsOn created s.id.text c →
      ∃ p' s', frame.taskAt p' = some s' ∧ s'.id.text = c ∧ FedAt d frame p' p := by
    rintro p s c hp ⟨t', ht', hid, hc⟩
    have hsame : t' = s := List.inj_on_of_nodup_map hu ht' (h.located hp) hid
    exact fedAt_of_dependency h hp (hsame ▸ hc)
  induction hchain with
  | single hdep => exact hstep hq (hqa ▸ hdep)
  | tail _ hdep ih =>
    obtain ⟨p, s, hp, hsid, hfed⟩ := ih
    obtain ⟨p', s', hp', hsid', hfed'⟩ := hstep hp (hsid ▸ hdep)
    exact ⟨p', s', hp', hsid', hfed'.trans h hp hfed⟩

theorem depends_iff_fed (hu : (created.map (·.id.text)).Nodup)
    (hd : Distinct frame) (hv : frame.taskOf v = some tv) (hp : frame.taskAt p = some tu) :
    Relation.TransGen (DependsOn created) tv.id.text tu.id.text ↔ Fed d frame p v := by
  constructor
  · intro hc
    have hq : frame.taskAt [v] = some tv := hv
    obtain ⟨p', s, hp', hsid, hfed⟩ := fedAt_of_depends h hu hq rfl hc
    rw [hd p p' tu s hp hp' hsid.symm]
    exact hfed
  · exact depends_of_fed h hv hp

theorem keepsOrder_iff_handsOn (hunique : (created.map (·.id.text)).Nodup) (hd : Distinct frame) :
    KeepsOrder created d frame ↔ HandsOn d frame := by
  have hpair : ∀ path d' frame', frameAt d frame path = some (d', frame') →
      ∀ v p tv tu, frame'.taskOf v = some tv → frame'.taskAt p = some tu →
        (Relation.TransGen (DependsOn created) tv.id.text tu.id.text ↔ Fed d' frame' p v) := by
    intro path d' frame' hpath v p tv tu hv hp
    have hbelow := holds_at_path (fun _ _ _ _ _ hs hx => Sound.below hs hx) h hpath
    have hdistinct := holds_at_path (P := fun _ => Distinct)
      (fun _ _ _ _ _ hs hx => hs.below hx) hd hpath
    exact depends_iff_fed hbelow hunique hdistinct hv hp
  constructor
  · intro hk path d' frame' hpath v x rest tv tu hv hu hlive
    exact (hpair path d' frame' hpath v _ tv tu hv hu).1
      (hk path d' frame' hpath v x rest tv tu hv hu hlive)
  · intro hh path d' frame' hpath v x rest tv tu hv hu hlive
    exact (hpair path d' frame' hpath v _ tv tu hv hu).2
      (hh path d' frame' hpath v x rest tv tu hv hu hlive)

end

end Trees

end Synthorg.Workflow
