/-
Which nodes a walk records as skipped.

`SkipInv` is the invariant of the loop: the skipped nodes are those the decisions taken so far
skip, and a node was recorded as skipped exactly when it is one of them. Skips point forward in
the order, so what was decided about a node when its turn came is never revised.
`skipped_iff_dead_iff` compares that with liveness, where it is a LIVE decision that should.
-/
import Synthorg.Workflow.Dependency

namespace Synthorg.Workflow

section
open Synthorg.Core Lib TaskEngine

-- ==== creating a task

variable {svc : Service} {req : ActivationRequest}

/-- What `create_task` did when it returned. -/
structure Created (svc : Service) (data : CreateTaskData) (world : World) (task : Task)
    (world' : World) : Prop where
  supplied : ∃ env, svc.creation world.created.length = some env ∧ task.id = env.newId
  dependencies : task.dependencies = data.dependencies
  created : world'.created = world.created ++ [task]
  executions : world'.executions = world.executions
  engine : world'.engine.tasks = (world.engine.save task).tasks

variable {data : CreateTaskData} {task : Task} {depth : Nat} {qualifier : String} {vars : Vars}
  {world world' : World} {d : WorkflowDefinition} {state state' : WalkState} {frame : Frame}

theorem processOne_create {env : TurnEnv} {requestId : String} {engine engine' : EngineState}
    {result : TaskMutationResult} {version : Nat} {previous : Option TaskStatus}
    (h : processOne env (.create requestId data) engine = (result, engine'))
    (hres : result.outcome = .success (some task) version previous) :
    task.toTaskFields = createPayload env data ∧
      engine'.tasks = (engine.save task).tasks := by
  obtain ⟨rfl, rfl⟩ := h
  unfold dispatch applyCreate at hres ⊢
  dsimp only at hres ⊢
  cases hv : Task.modelValidate (createPayload env data) [] with
  | error e =>
    rw [hv] at hres
    cases hres
  | ok built =>
    rw [hv] at hres
    dsimp only at hres ⊢
    have hf := ((Task.modelValidate_ok_iff _ _ _).1 hv).2
    by_cases hr : env.saveRaises = true
    · rw [if_pos hr] at hres
      cases hres
    · rw [if_neg hr] at hres ⊢
      have hsame : built = task := by
        injection hres with hsome
        exact Option.some.inj hsome
      subst hsame
      exact ⟨hf, rfl⟩

/-- SPEC: `create_task` returns the task it appended to the engine. -/
theorem createTask_ok (h : createTask svc data world = .ok task world') :
    Created svc data world task world' := by
  unfold createTask at h
  cases hs : svc.creation world.created.length with
  | none => simp [hs] at h
  | some env =>
    rw [hs] at h
    dsimp only at h
    cases hturn : processOne env (.create "workflow-engine" data) world.engine with
    | mk result engine =>
      rw [hturn] at h
      obtain ⟨requestId, outcome⟩ := result
      cases outcome with
      | failure e => cases h
      | success made version previous =>
        cases made with
        | none => cases h
        | some made =>
          injection h with htask hw
          subst htask
          subst hw
          obtain ⟨hf, heng⟩ := processOne_create hturn rfl
          refine ⟨⟨env, hs, ?_⟩, ?_, rfl, rfl, heng⟩
          · exact congrArg TaskFields.id hf
          · exact congrArg TaskFields.dependencies hf

-- ==== one turn

inductive Handled (svc : Service) (req : ActivationRequest) (walkChild : WalkChild)
    (d : WorkflowDefinition) (nid : String) (node : WorkflowNode) (frame : Frame)
    (state : WalkState) (world : World) :
    Frame → WalkState → WorkflowNodeExecution → World → Prop
  /-- a control node that takes no decision -/
  | plain (pending : List (String × String)) (hbranches : node.type.branches = [])
      (htype : node.type.executable = false) :
      Handled svc req walkChild d nid node frame state world
        { frame with pendingAssignments := pending } state
        (.done (qualifyId frame.qualifier nid) node.type) world
  | decision (taken : WorkflowEdgeType) (htaken : taken ∈ node.type.branches)
      (htype : node.type.executable = false) :
      Handled svc req walkChild d nid node frame state world
        (frame.decide nid taken (d.skippedBy nid taken node.type.branches)) state
        (.done (qualifyId frame.qualifier nid) node.type) world
  | task (data : CreateTaskData) (task : Task) (world' : World)
      (pending : List (String × String)) (htype : node.type = .task)
      (hdeps : data.dependencies =
        d.findUpstreamTaskIds nid frame.nodeTaskIds frame.skippedNodes)
      (hcreated : Created svc data world task world') :
      Handled svc req walkChild d nid node frame state world
        { frame with
          nodeTaskIds := (nid, .one task.id.text) :: frame.nodeTaskIds
          pendingAssignments := pending
          tasks := frame.tasks ++ [(nid, task)] } state
        (.taskCreated (qualifyId frame.qualifier nid) task.id.text) world'
  | subworkflow (child : WorkflowDefinition) (inputs vars : Vars) (childFrame : Frame)
      (state' : WalkState) (world' : World) (terminalIds : List String)
      (htype : node.type = .subworkflow) (hdepth : frame.depth < svc.maxSubworkflowDepth)
      (hwalk : walkChild child (frame.depth + 1) (qualifyId frame.qualifier nid) inputs
        state world = .ok (childFrame, state') world')
      (hterminal : terminalIds =
        collectTerminalTaskIds child (qualifyId frame.qualifier nid) state') :
      Handled svc req walkChild d nid node frame state world
        { frame with
          vars := vars
          nodeTaskIds :=
            if terminalIds ≠ [] then (nid, .many terminalIds) :: frame.nodeTaskIds
            else frame.nodeTaskIds
          children := frame.children ++ [(nid, child, childFrame)] } state'
        (.subworkflowDone (qualifyId frame.qualifier nid)) world'

section Cases

variable {walkChild : WalkChild} {d : WorkflowDefinition} {nid : String}
  {node : WorkflowNode} {frame frame' : Frame} {state state' : WalkState}
  {nodeExecution : WorkflowNodeExecution} {world world' : World}

theorem orRaise_ok {ε α : Type} {raised : ε → WorkflowError} {x : Except ε α} {a : α}
    (h : orRaise raised x world = .ok a world') : x = .ok a ∧ world = world' := by
  cases x with
  | ok b =>
    obtain ⟨rfl, rfl⟩ := Raise.pure_ok.1 h
    exact ⟨rfl, rfl⟩
  | error e => exact absurd h Raise.throw_ok

theorem orElseRaise_ok {α : Type} {raised : WorkflowError} {x : Option α} {a : α}
    (h : orElseRaise raised x world = .ok a world') : x = some a ∧ world = world' := by
  cases x with
  | some b =>
    obtain ⟨rfl, rfl⟩ := Raise.pure_ok.1 h
    exact ⟨rfl, rfl⟩
  | none => exact absurd h Raise.throw_ok

theorem handleAgentAssignment_eq (d : WorkflowDefinition) (nid : String)
    (node : WorkflowNode) (frame : Frame) : ∃ pending, handleAgentAssignment d nid node frame =
      { frame with pendingAssignments := pending } := by
  unfold handleAgentAssignment
  split
  next name _ =>
    split
    · exact ⟨_, rfl⟩
    · exact ⟨frame.pendingAssignments, by cases frame; rfl⟩
  next => exact ⟨frame.pendingAssignments, by cases frame; rfl⟩

theorem processTaskNode_ok (htype : node.type = .task)
    (h : processTaskNode svc req d nid node frame world = .ok (frame', nodeExecution) world') :
    Handled svc req walkChild d nid node frame state world frame' state nodeExecution
      world' := by
  obtain ⟨config, w₁, hc, h⟩ := Raise.bind_ok.1 h
  obtain ⟨-, rfl⟩ := orRaise_ok hc
  split at h
  next =>
    obtain ⟨_, _, ht, -⟩ := Raise.bind_ok.1 h
    exact absurd ht Raise.throw_ok
  next =>
    obtain ⟨task, w₂, hcreate, h⟩ := Raise.bind_ok.1 h
    obtain ⟨hpair, rfl⟩ := Raise.pure_ok.1 h
    obtain ⟨rfl, rfl⟩ := Prod.mk.inj hpair
    exact .task _ task world' _ htype rfl (createTask_ok hcreate)

theorem processSubworkflowNode_ok (htype : node.type = .subworkflow)
    (h : processSubworkflowNode svc walkChild nid node frame state world =
      .ok (frame', state', nodeExecution) world') :
    Handled svc req walkChild d nid node frame state world frame' state' nodeExecution
      world' := by
  obtain ⟨registry, w₁, hr, h⟩ := Raise.bind_ok.1 h
  obtain ⟨-, rfl⟩ := orElseRaise_ok hr
  obtain ⟨call, w₂, hcall, h⟩ := Raise.bind_ok.1 h
  obtain ⟨-, rfl⟩ := orRaise_ok hcall
  split at h
  next =>
    obtain ⟨_, _, ht, -⟩ := Raise.bind_ok.1 h
    exact absurd ht Raise.throw_ok
  next hd =>
    obtain ⟨child, w₃, hc, h⟩ := Raise.bind_ok.1 h
    obtain ⟨-, rfl⟩ := orElseRaise_ok hc
    obtain ⟨inputs, w₄, hi, h⟩ := Raise.bind_ok.1 h
    obtain ⟨-, rfl⟩ := orRaise_ok hi
    obtain ⟨⟨childFrame, state₁⟩, w₅, hwalk, h⟩ := Raise.bind_ok.1 h
    obtain ⟨projected, w₆, hproj, h⟩ := Raise.bind_ok.1 h
    obtain ⟨-, rfl⟩ := orRaise_ok hproj
    obtain ⟨htrip, rfl⟩ := Raise.pure_ok.1 h
    obtain ⟨rfl, hpair⟩ := Prod.mk.inj htrip
    obtain ⟨rfl, rfl⟩ := Prod.mk.inj hpair
    exact .subworkflow child inputs _ childFrame _ _ _ htype (by omega) hwalk rfl

/-- INVERSION of the dispatch: each handler is one of the four kinds. -/
theorem processNodeInFrame_ok
    (h : processNodeInFrame svc req walkChild d nid node frame state world =
      .ok (frame', state', nodeExecution) world') :
    Handled svc req walkChild d nid node frame state world frame' state' nodeExecution
      world' := by
  have hp : ∀ pending, node.type.branches = [] → node.type.executable = false →
      (frame', state', nodeExecution) = ({ frame with pendingAssignments := pending }, state,
        WorkflowNodeExecution.done (qualifyId frame.qualifier nid) node.type) →
      world' = world →
      Handled svc req walkChild d nid node frame state world frame' state' nodeExecution
        world' := by
    intro pending hb htype htrip hw
    obtain ⟨rfl, hpair⟩ := Prod.mk.inj htrip
    obtain ⟨rfl, rfl⟩ := Prod.mk.inj hpair
    subst hw
    exact .plain pending hb htype
  unfold processNodeInFrame at h
  cases htype : node.type with
  | start | «end» | parallelSplit | parallelJoin =>
    rw [htype] at h
    obtain ⟨htrip, hw⟩ := Raise.pure_ok.1 h
    exact hp frame.pendingAssignments (by rw [htype]; rfl) (by rw [htype]; rfl)
      (by rw [htrip, htype]; cases frame; rfl) hw
  | agentAssignment =>
    rw [htype] at h
    obtain ⟨htrip, hw⟩ := Raise.pure_ok.1 h
    obtain ⟨pending, hassign⟩ := handleAgentAssignment_eq d nid node frame
    exact hp pending (by rw [htype]; rfl) (by rw [htype]; rfl)
      (by rw [htrip, hassign, htype]) hw
  | verification =>
    rw [htype] at h
    obtain ⟨htrip, rfl⟩ := Raise.pure_ok.1 h
    obtain ⟨rfl, hpair⟩ := Prod.mk.inj htrip
    obtain ⟨rfl, rfl⟩ := Prod.mk.inj hpair
    have hturn := @Handled.decision svc req walkChild d nid node frame state' world'
      (VerificationVerdict.parse (node.config.getStr "_verdict_override" "refer")).edge
      (by rw [htype]; exact VerificationVerdict.edge_mem _) (by rw [htype]; rfl)
    rw [htype] at hturn
    exact hturn
  | conditional =>
    rw [htype] at h
    obtain ⟨decided, w₁, hcond, h⟩ := Raise.bind_ok.1 h
    obtain ⟨htrip, rfl⟩ := Raise.pure_ok.1 h
    obtain ⟨rfl, hpair⟩ := Prod.mk.inj htrip
    obtain ⟨rfl, rfl⟩ := Prod.mk.inj hpair
    obtain ⟨result, w₂, heval, hcond⟩ := Raise.bind_ok.1 hcond
    obtain ⟨-, rfl⟩ := orRaise_ok heval
    obtain ⟨rfl, rfl⟩ := Raise.pure_ok.1 hcond
    have hturn := @Handled.decision svc req walkChild d nid node frame state' world'
      (if result then .conditionalTrue else .conditionalFalse)
      (by rw [htype]; cases result <;> decide) (by rw [htype]; rfl)
    rw [htype] at hturn
    exact hturn
  | subworkflow =>
    rw [htype] at h
    exact processSubworkflowNode_ok htype h
  | task =>
    rw [htype] at h
    obtain ⟨⟨made, execution⟩, w₁, htask, h⟩ := Raise.bind_ok.1 h
    obtain ⟨htrip, rfl⟩ := Raise.pure_ok.1 h
    obtain ⟨rfl, hpair⟩ := Prod.mk.inj htrip
    obtain ⟨rfl, rfl⟩ := Prod.mk.inj hpair
    exact processTaskNode_ok htype htask

/-- INVERSION of one round: the node was skipped, or handled, and recorded. -/
theorem walkNode_cases
    (h : walkNode svc req walkChild d (frame, state) nid world = .ok (frame', state') world') :
    ∃ node, d.node? nid = some node ∧
      ((nid ∈ frame.skippedNodes ∧ world' = world ∧ (frame', state') = recordNode nid
            (.skippedNode (qualifyId frame.qualifier nid) node.type) frame state) ∨
        (nid ∉ frame.skippedNodes ∧ ∃ handled state₁ nodeExecution,
          Handled svc req walkChild d nid node frame state world handled state₁
              nodeExecution world' ∧
            (frame', state') = recordNode nid nodeExecution handled state₁)) := by
  obtain ⟨node, w₁, hfind, h⟩ := Raise.bind_ok.1 h
  obtain ⟨hnode, rfl⟩ := orElseRaise_ok hfind
  refine ⟨node, hnode, ?_⟩
  split at h
  next hskip =>
    obtain ⟨hpair, rfl⟩ := Raise.pure_ok.1 h
    exact .inl ⟨hskip, rfl, hpair⟩
  next hlive =>
    obtain ⟨⟨handled, state₁, nodeExecution⟩, w₂, hhand, h⟩ := Raise.bind_ok.1 h
    obtain ⟨hpair, rfl⟩ := Raise.pure_ok.1 h
    exact .inr ⟨hlive, handled, state₁, nodeExecution, processNodeInFrame_ok hhand, hpair⟩

end Cases

-- ==== the run

/-- INVERSION of a frame's walk: a loop over an order of the graph. -/
theorem walkNodes_ok {walkChild : WalkChild}
    (h : walkNodes svc req walkChild d depth qualifier vars state world =
      .ok (frame, state') world') :
    ∃ order, d.topologicalSort = some order ∧
      order.foldlM (walkNode svc req walkChild d)
        ({ depth := depth, qualifier := qualifier, vars := vars }, state) world =
          .ok (frame, state') world' := by
  obtain ⟨order, w₁, hsort, h⟩ := Raise.bind_ok.1 h
  obtain ⟨ho, rfl⟩ := orElseRaise_ok hsort
  exact ⟨order, ho, h⟩

theorem walkFrame_walkNodes {levels : Nat}
    (h : walkFrame svc req levels d depth qualifier vars state world =
      .ok (frame, state') world') :
    ∃ walkChild, walkNodes svc req walkChild d depth qualifier vars state world =
      .ok (frame, state') world' := by
  cases levels with
  | zero => exact ⟨_, h⟩
  | succ levels => exact ⟨walkFrame svc req levels, h⟩

end

open Synthorg.Core Lib TaskEngine WorkflowDefinition
open List

variable {svc : Service} {req : ActivationRequest} {walkChild : WalkChild}
  {d : WorkflowDefinition}

-- ==== the invariant

/-- The walk recorded the node as SKIPPED. -/
def Frame.Skipped (frame : Frame) (nid : String) : Prop :=
  ∃ nodeExecution, (nid, nodeExecution) ∈ frame.records ∧ nodeExecution.status = .skipped

/-- THE INVARIANT of the loop, once the nodes of `done` had their turn. -/
structure SkipInv (d : WorkflowDefinition) (done : List String) (frame : Frame) : Prop where
  skipped_iff : ∀ x, x ∈ frame.skippedNodes ↔
    ∃ p ∈ frame.decisions, x ∈ d.skippedBy p.1 p.2 (d.branchesAt p.1)
  decided : ∀ p ∈ frame.decisions, p.1 ∈ done ∧ p.1 ∉ frame.skippedNodes
  decides : ∀ nid ∈ done, nid ∉ frame.skippedNodes → d.branchesAt nid ≠ [] →
    ∃ taken, (nid, taken) ∈ frame.decisions
  recorded : ∀ nid, frame.Skipped nid ↔ nid ∈ done ∧ nid ∈ frame.skippedNodes

variable {nid : String} {frame : Frame} {state state' : WalkState} {world world' : World}
  {nodeExecution : WorkflowNodeExecution}

theorem Handled.skips {node : WorkflowNode} {handled : Frame}
    (h : Handled svc req walkChild d nid node frame state world handled state'
      nodeExecution world') : handled.records = frame.records ∧ nodeExecution.status ≠ .skipped ∧
      ((node.type.branches = [] ∧ handled.skippedNodes = frame.skippedNodes ∧
          handled.decisions = frame.decisions) ∨
        ∃ taken, handled.skippedNodes =
            frame.skippedNodes ++ d.skippedBy nid taken node.type.branches ∧
          handled.decisions = frame.decisions ++ [(nid, taken)]) := by
  cases h with
  | plain pending hb _ => exact ⟨rfl, nofun, .inl ⟨hb, rfl, rfl⟩⟩
  | decision taken _ _ => exact ⟨rfl, nofun, .inr ⟨taken, rfl, rfl⟩⟩
  | task _ _ _ _ htype => exact ⟨rfl, nofun, .inl ⟨by rw [htype]; rfl, rfl, rfl⟩⟩
  | subworkflow _ _ _ _ _ _ _ htype => exact ⟨rfl, nofun, .inl ⟨by rw [htype]; rfl, rfl, rfl⟩⟩

theorem Frame.skipped_record (x : String) : (recordNode nid nodeExecution frame state).1.Skipped x ↔
      frame.Skipped x ∨ (x = nid ∧ nodeExecution.status = .skipped) := by
  unfold Frame.Skipped recordNode
  constructor
  · rintro ⟨ne, hmem, hs⟩
    rcases mem_append.1 hmem with h | h
    · exact .inl ⟨ne, h, hs⟩
    · rw [mem_singleton] at h
      obtain ⟨rfl, rfl⟩ := h
      exact .inr ⟨rfl, hs⟩
  · rintro (⟨ne, hmem, hs⟩ | ⟨rfl, hs⟩)
    · exact ⟨ne, mem_append_left _ hmem, hs⟩
    · exact ⟨nodeExecution, by simp, hs⟩

/-- STEP LEMMA: one round keeps the invariant. -/
theorem SkipInv.step {order done rest : List String} (ho : WalkOrder d order)
    (hcut : order = done ++ nid :: rest) {frame' : Frame} (h : SkipInv d done frame)
    (hstep : walkNode svc req walkChild d (frame, state) nid world =
      .ok (frame', state') world') : SkipInv d (done ++ [nid]) frame' := by
  obtain ⟨node, hnode, ⟨hskip, -, hpair⟩ |
    ⟨hlive, handled, state₁, nodeExecution, hhand, hpair⟩⟩ := walkNode_cases hstep
  · -- a skipped node only adds its record
    have hf : frame' = (recordNode nid
        (.skippedNode (qualifyId frame.qualifier nid) node.type) frame state).1 := by
      rw [← hpair]
    rw [hf]
    refine ⟨h.skipped_iff, ?_, ?_, ?_⟩
    · intro p hp
      exact ⟨mem_append_left _ (h.decided p hp).1, (h.decided p hp).2⟩
    · intro x hx hout hne
      rcases mem_append.1 hx with hx | hx
      · exact h.decides x hx hout hne
      · rw [mem_singleton] at hx
        exact absurd (hx ▸ hskip) hout
    · intro x
      rw [Frame.skipped_record, h.recorded, mem_append, mem_singleton]
      constructor
      · rintro (⟨hx, hs⟩ | ⟨rfl, -⟩)
        · exact ⟨.inl hx, hs⟩
        · exact ⟨.inr rfl, hskip⟩
      · rintro ⟨hx | rfl, hs⟩
        · exact .inl ⟨hx, hs⟩
        · exact .inr ⟨rfl, rfl⟩
  · obtain ⟨hrecs, hstate, hskips⟩ := hhand.skips
    have hf : frame' = (recordNode nid nodeExecution handled state₁).1 := by
      rw [← hpair]
    have hsame : ∀ x, frame'.Skipped x ↔ frame.Skipped x := by
      intro x
      rw [hf, Frame.skipped_record]
      unfold Frame.Skipped
      rw [hrecs]
      constructor
      · rintro (hs | ⟨-, hs⟩)
        · exact hs
        · exact absurd hs hstate
      · exact Or.inl
    have hb := branchesAt_of_node hnode
    rcases hskips with ⟨hnone, hsn, hdec⟩ | ⟨taken, hsn, hdec⟩
    · have hsn' : frame'.skippedNodes = frame.skippedNodes := by
        rw [hf]
        exact hsn
      have hdec' : frame'.decisions = frame.decisions := by
        rw [hf]
        exact hdec
      refine ⟨?_, ?_, ?_, ?_⟩
      · intro x
        rw [hsn', hdec']
        exact h.skipped_iff x
      · intro p hp
        rw [hdec'] at hp
        rw [hsn']
        exact ⟨mem_append_left _ (h.decided p hp).1, (h.decided p hp).2⟩
      · intro x hx hout hne
        rw [hsn'] at hout
        rw [hdec']
        rcases mem_append.1 hx with hx | hx
        · exact h.decides x hx hout hne
        · rw [mem_singleton] at hx
          rw [hx, hb] at hne
          exact absurd hnone hne
      · intro x
        rw [hsame, h.recorded, hsn', mem_append, mem_singleton]
        constructor
        · rintro ⟨hx, hs⟩
          exact ⟨.inl hx, hs⟩
        · rintro ⟨hx | rfl, hs⟩
          · exact ⟨hx, hs⟩
          · exact absurd hs hlive
    · have hsn' : frame'.skippedNodes =
          frame.skippedNodes ++ d.skippedBy nid taken (d.branchesAt nid) := by
        rw [hf, hb]
        exact hsn
      have hdec' : frame'.decisions = frame.decisions ++ [(nid, taken)] := by
        rw [hf]
        exact hdec
      -- the decision skips nothing that had its turn
      have hforwarded : ∀ x ∈ done ++ [nid], x ∈ frame'.skippedNodes ↔ x ∈ frame.skippedNodes := by
        intro x hx
        rw [hsn', mem_append]
        constructor
        · rintro (hs | hs)
          · exact hs
          · exact absurd hx (ho.notMem_of_transGen hcut (transGen_of_skippedBy hs))
        · exact Or.inl
      refine ⟨?_, ?_, ?_, ?_⟩
      · intro x
        rw [hsn', hdec', mem_append, h.skipped_iff]
        simp only [mem_append, mem_singleton]
        constructor
        · rintro (⟨p, hp, hx⟩ | hx)
          · exact ⟨p, .inl hp, hx⟩
          · exact ⟨(nid, taken), .inr rfl, hx⟩
        · rintro ⟨p, hp | rfl, hx⟩
          · exact .inl ⟨p, hp, hx⟩
          · exact .inr hx
      · intro p hp
        rw [hdec', mem_append, mem_singleton] at hp
        rcases hp with hp | rfl
        · have hin := mem_append_left [nid] (h.decided p hp).1
          exact ⟨hin, fun hs => (h.decided p hp).2 ((hforwarded p.1 hin).1 hs)⟩
        · exact ⟨by simp, fun hs => hlive ((hforwarded nid (by simp)).1 hs)⟩
      · intro x hx hout hne
        rw [hforwarded x hx] at hout
        rw [hdec']
        rcases mem_append.1 hx with hx | hx
        · obtain ⟨t, ht⟩ := h.decides x hx hout hne
          exact ⟨t, mem_append_left _ ht⟩
        · rw [mem_singleton] at hx
          exact ⟨taken, by rw [hx]; simp⟩
      · intro x
        rw [hsame, h.recorded]
        constructor
        · rintro ⟨hx, hs⟩
          have hin := mem_append_left [nid] hx
          exact ⟨hin, (hforwarded x hin).2 hs⟩
        · rintro ⟨hx, hs⟩
          rw [hforwarded x hx] at hs
          rcases mem_append.1 hx with hx | hx
          · exact ⟨hx, hs⟩
          · rw [mem_singleton] at hx
            exact absurd (hx ▸ hs) hlive

/-- RUN LEMMA: a frame that was walked to its end satisfies the invariant. -/
theorem walkFrame_skipInv {levels depth : Nat} {qualifier : String} {vars : Vars}
    (h : walkFrame svc req levels d depth qualifier vars state world =
      .ok (frame, state') world') : ∃ order, WalkOrder d order ∧ SkipInv d order frame := by
  obtain ⟨child, hn⟩ := walkFrame_walkNodes h
  obtain ⟨order, hsort, hloop⟩ := walkNodes_ok hn
  have ho := topologicalSort_order hsort
  refine ⟨order, ho, ?_⟩
  refine Raise.foldlM_ok
    (P := fun done (at_ : Frame × WalkState) (_ : World) => SkipInv d done at_.1) ?_ ?_ hloop
  · intro done nid rest hcut at_ w at_' w' hinv hstep
    exact hinv.step ho hcut hstep
  · exact ⟨by simp, by simp, by simp, by simp [Frame.Skipped]⟩

-- ==== liveness

/-- THE BRANCH SKIPPING agrees with liveness exactly when no live decision cuts off a live node
and, unless every CONDITIONAL has one edge for each branch, every dead node is cut off by some
live decision. -/
theorem skipped_iff_dead_iff {levels depth : Nat} {qualifier : String} {vars : Vars}
    {state state' : WalkState} {frame : Frame} {world world' : World}
    (hvalid : d.valid = true)
    (hwalk : walkFrame svc req levels d depth qualifier vars state world =
      .ok (frame, state') world')
    (outcome : String → WorkflowEdgeType) (hproper : d.Proper outcome)
    (hagree : ∀ p ∈ frame.decisions, outcome p.1 = p.2) :
    (∀ nid ∈ d.nodeIds, frame.Skipped nid ↔ ¬ d.Live outcome nid) ↔
      d.SparesLive outcome ∧ (d.SingleBranches ∨ d.CutsDead outcome) := by
  obtain ⟨start, hvalidated⟩ := validated_of_valid hvalid
  obtain ⟨order, horder, hinv⟩ := walkFrame_skipInv hwalk
  -- a node was skipped when a processed decision cuts it off
  have hcut : ∀ x ∈ d.nodeIds, frame.Skipped x ↔
      ∃ nid ∈ d.nodeIds, ¬ frame.Skipped nid ∧ d.branchesAt nid ≠ [] ∧
        d.CutsOff outcome nid x := by
    intro x hx
    rw [hinv.recorded, hinv.skipped_iff]
    constructor
    · rintro ⟨-, p, hp, hmem⟩
      obtain ⟨hdone, hout⟩ := hinv.decided p hp
      obtain ⟨_, _, _, type, htype, _⟩ := mem_skippedBy.1 hmem
      refine ⟨p.1, (horder.mem _).1 hdone, ?_, ne_nil_of_mem htype, ?_⟩
      · intro hs
        exact hout ((hinv.recorded _).1 hs).2
      · unfold CutsOff
        rw [hagree p hp]
        exact hmem
    · rintro ⟨nid, hnid, hprocess, hne, hmem⟩
      have hdone := (horder.mem nid).2 hnid
      have hout : nid ∉ frame.skippedNodes := by
        intro hs
        exact hprocess ((hinv.recorded nid).2 ⟨hdone, hs⟩)
      obtain ⟨taken, htaken⟩ := hinv.decides nid hdone hout hne
      refine ⟨(horder.mem x).2 hx, (nid, taken), htaken, ?_⟩
      unfold CutsOff at hmem
      rw [hagree _ htaken] at hmem
      exact hmem
  have hnode : ∀ {nid x}, d.CutsOff outcome nid x → nid ∈ d.nodeIds ∧ x ∈ d.nodeIds := by
    intro nid x h
    have hpath := transGen_of_skippedBy h
    obtain ⟨b, hb, -⟩ := Relation.TransGen.head'_iff.1 hpath
    obtain ⟨c, -, hc⟩ := Relation.TransGen.tail'_iff.1 hpath
    exact ⟨(mem_nodeIds_of_adjacency hb).1, (mem_nodeIds_of_adjacency hc).2⟩
  constructor
  · intro hclaim
    have hspares : d.SparesLive outcome := by
      intro nid hdecision x hx hlive
      obtain ⟨hnid, hi⟩ := hnode hx
      refine (hclaim x hi).1 ((hcut x hi).2 ⟨nid, hnid, ?_, hdecision.2, hx⟩) hlive
      exact fun hs => (hclaim nid hnid).1 hs hdecision.1
    refine ⟨hspares, Or.inr ?_⟩
    intro x hx hdead
    obtain ⟨nid, hnid, hprocess, hne, hmem⟩ := (hcut x hx).1 ((hclaim x hx).2 hdead)
    refine ⟨nid, ⟨?_, hne⟩, hmem⟩
    by_contra hnot
    exact hprocess ((hclaim nid hnid).2 hnot)
  · rintro ⟨hspares, hrest⟩
    have hcuts : d.CutsDead outcome := by
      rcases hrest with hsingle | hcuts
      · exact cutsDead_of_singleBranches horder hvalidated hsingle hproper
      · exact hcuts
    -- along the order: what comes before a node is skipped exactly when dead
    have hpos : ∀ n, ∀ x ∈ d.nodeIds, position order x = n →
        (frame.Skipped x ↔ ¬ d.Live outcome x) := by
      intro n
      induction n using Nat.strong_induction_on with
      | _ n ih =>
        intro x hx hn
        have hearlier : ∀ nid, d.CutsOff outcome nid x →
            (frame.Skipped nid ↔ ¬ d.Live outcome nid) := by
          intro nid hmem
          have hlt := horder.position_lt_of_transGen (transGen_of_skippedBy hmem)
          exact ih (position order nid) (hn ▸ hlt) nid (hnode hmem).1 rfl
        rw [hcut x hx]
        constructor
        · rintro ⟨nid, -, hprocess, hne, hmem⟩
          have hlive : d.Live outcome nid := by
            by_contra hdead
            exact hprocess ((hearlier nid hmem).2 hdead)
          exact hspares nid ⟨hlive, hne⟩ x hmem
        · intro hdead
          obtain ⟨nid, ⟨hlive, hne⟩, hmem⟩ := hcuts x hx hdead
          exact ⟨nid, (hnode hmem).1, fun hs => (hearlier nid hmem).1 hs hlive, hne, hmem⟩
    exact fun x hx => hpos _ x hx rfl

-- ==== a merge behind a branch

def plainNode (id : String) (type : WorkflowNodeType) (config : Vars)
    (h : notBlank id = true) : WorkflowNode where
  id := id
  type := type
  label := id
  config := config
  id_notBlank := h
  label_notBlank := h

theorem notBlank_edge (source target : String) : notBlank (source ++ ">" ++ target) = true := by
  simp [notBlank, isSpace]

def plainEdge (source target : String) (type : WorkflowEdgeType) : WorkflowEdge where
  id := source ++ ">" ++ target
  sourceNodeId := source
  targetNodeId := target
  type := type
  id_notBlank := notBlank_edge source target

theorem notBlank_start : notBlank "start" = true := by decide

theorem notBlank_end : notBlank "end" = true := by decide

def plainId : Uuid := ⟨"00000000-0000-4000-8000-000000000001", by decide⟩

/-- A condition's false side and a second branch of START merge before END. -/
def mergedBranch : WorkflowDefinition where
  id := plainId
  revision := 1
  nodes := [plainNode "start" .start [] notBlank_start,
    plainNode "split" .parallelSplit [] (by decide),
    plainNode "gate" .conditional [("condition_expression", .text "true")] (by decide),
    plainNode "other" .parallelJoin [] (by decide),
    plainNode "merge" .parallelJoin [] (by decide), plainNode "end" .end [] notBlank_end]
  edges := [plainEdge "start" "split" .sequential,
    plainEdge "split" "gate" .parallelBranch,
    plainEdge "split" "other" .parallelBranch,
    plainEdge "gate" "end" .conditionalTrue,
    plainEdge "gate" "merge" .conditionalFalse,
    plainEdge "other" "merge" .sequential,
    plainEdge "merge" "end" .sequential]
  revision_pos := Nat.zero_lt_one
  nodeIds_nodup := by decide
  edgeIds_nodup := by decide
  edge_references := by decide
  one_start := by decide
  one_end := by decide

def literalService : Service where
  definitionRepo := fun _ => none
  subworkflowRegistry := none
  evaluateCondition := fun expr _ => .ok (expr = "true")
  resolveInputBindings := fun _ vars _ => .ok vars
  projectOutputBindings := fun _ vars _ _ => .ok vars
  maxSubworkflowDepth := 16
  creation := fun _ => none
  executionId := plainId
  now := 0

def emptyWorld : World where
  engine := ⟨fun _ => none, fun _ => none⟩

def gateTrue (nid : String) : WorkflowEdgeType :=
  if nid = "gate" then .conditionalTrue else .sequential

theorem gateTrue_proper : mergedBranch.Proper gateTrue := proper_of_nodes (by decide)

/-- The walk of `mergedBranch`, which agrees with `gateTrue` and skips the
merge. -/
theorem mergedBranch_walk : ∃ frame state,
    walkFrame literalService ⟨"project", "user"⟩ 16 mergedBranch 0 "" [] {} emptyWorld =
        .ok (frame, state) emptyWorld ∧
      (∀ p ∈ frame.decisions, gateTrue p.1 = p.2) ∧ frame.Skipped "merge" := by
  refine ⟨_, _, rfl, by decide, .skippedNode "merge" .parallelJoin, ?_, rfl⟩
  decide

/-- The merge is live through the second branch, and the walk skips it. -/
theorem merge_skipped_alive : mergedBranch.valid = true ∧ ∃ frame state,
    walkFrame literalService ⟨"project", "user"⟩ 16 mergedBranch 0 "" [] {} emptyWorld =
        .ok (frame, state) emptyWorld ∧
      mergedBranch.Proper gateTrue ∧ (∀ p ∈ frame.decisions, gateTrue p.1 = p.2) ∧
        mergedBranch.Live gateTrue "merge" ∧
          ¬ ∀ nid ∈ mergedBranch.nodeIds,
            frame.Skipped nid ↔ ¬ mergedBranch.Live gateTrue nid := by
  have hlive : mergedBranch.Live gateTrue "merge" := by
    refine ⟨_, rfl, ?_⟩
    have hsplit : mergedBranch.Takes gateTrue "start" "split" :=
      ⟨.sequential, by decide, by decide⟩
    have hother : mergedBranch.Takes gateTrue "split" "other" :=
      ⟨.parallelBranch, by decide, by decide⟩
    have hmerge : mergedBranch.Takes gateTrue "other" "merge" :=
      ⟨.sequential, by decide, by decide⟩
    exact ((Relation.ReflTransGen.single hsplit).tail hother).tail hmerge
  obtain ⟨frame, state, hwalk, hagree, hskipped⟩ := mergedBranch_walk
  refine ⟨by decide, frame, state, hwalk, gateTrue_proper, hagree, hlive, ?_⟩
  intro h
  exact (h "merge" (by decide)).1 hskipped hlive

/-- The exact condition, at that walk. -/
theorem skipped_iff_dead_iff_merged : ∃ frame state,
    walkFrame literalService ⟨"project", "user"⟩ 16 mergedBranch 0 "" [] {} emptyWorld =
        .ok (frame, state) emptyWorld ∧
      ((∀ nid ∈ mergedBranch.nodeIds, frame.Skipped nid ↔ ¬ mergedBranch.Live gateTrue nid) ↔
        mergedBranch.SparesLive gateTrue ∧
          (mergedBranch.SingleBranches ∨ mergedBranch.CutsDead gateTrue)) := by
  obtain ⟨frame, state, hwalk, hagree, -⟩ := mergedBranch_walk
  exact ⟨frame, state, hwalk,
    skipped_iff_dead_iff (by decide) hwalk gateTrue gateTrue_proper hagree⟩

end Synthorg.Workflow
