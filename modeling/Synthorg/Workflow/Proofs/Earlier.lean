/-
Dependencies point back.

`Earlier` says of the tasks an activation created, in their order, that each dependency of a task
is the id of one created before it. The invariant that carries it is `Known`: every id a frame or
the shared state holds is the id of a created task.
-/
import Synthorg.Workflow.Proofs.Skipping

namespace Synthorg.Workflow

open List

section
open Synthorg.Core Lib TaskEngine

variable {svc : Service} {req : ActivationRequest} {d : WorkflowDefinition}

-- ==== raised or returned

section Leaves

variable {R : World → World → Prop}

theorem keeps_orRaise (hr : ∀ w, R w w) {ε α : Type} (raised : ε → WorkflowError)
    (x : Except ε α) : Raise.Keeps R (orRaise raised x) := by
  cases x with
  | ok a => exact Raise.keeps_pure hr a
  | error e => exact Raise.keeps_throw hr _

theorem keeps_orElseRaise (hr : ∀ w, R w w) {α : Type} (raised : WorkflowError)
    (x : Option α) : Raise.Keeps R (orElseRaise raised x) := by
  cases x with
  | some a => exact Raise.keeps_pure hr a
  | none => exact Raise.keeps_throw hr _

theorem keeps_walkNode (hr : ∀ w, R w w) (ht : ∀ u v w, R u v → R v w → R u w)
    (hc : ∀ data, Raise.Keeps R (createTask svc data)) {walkChild : WalkChild}
    (hchild : ∀ child depth qualifier vars state,
      Raise.Keeps R (walkChild child depth qualifier vars state))
    (at_ : Frame × WalkState) (nid : String) :
    Raise.Keeps R (walkNode svc req walkChild d at_ nid) := by
  have htask : ∀ node frame, Raise.Keeps R (processTaskNode svc req d nid node frame) := by
    intro node frame
    refine Raise.keeps_bind ht (keeps_orRaise hr _ _) fun config => ?_
    dsimp only
    split
    · exact Raise.keeps_bind ht (Raise.keeps_throw hr _) fun _ =>
        Raise.keeps_bind ht (hc _) fun _ => Raise.keeps_pure hr _
    · exact Raise.keeps_bind ht (hc _) fun _ => Raise.keeps_pure hr _
  have hsub : ∀ node frame state,
      Raise.Keeps R (processSubworkflowNode svc walkChild nid node frame state) := by
    intro node frame state
    have hwalk : ∀ (registry : String → String → Option WorkflowDefinition)
        (call : SubworkflowCall), Raise.Keeps R (do
          let child ← orElseRaise (.subworkflowNotFound call.subworkflowId call.version)
            (registry call.subworkflowId call.version)
          let inputs ← orRaise .subworkflowIo
            (svc.resolveInputBindings call.inputBindings frame.vars child)
          let walked ← walkChild child (frame.depth + 1)
            (qualifyId frame.qualifier nid) inputs state
          let projected ← orRaise .subworkflowIo
            (svc.projectOutputBindings call.outputBindings walked.1.vars child frame.vars)
          let terminalIds :=
            collectTerminalTaskIds child (qualifyId frame.qualifier nid) walked.2
          return (
            { frame with
              vars := frame.vars.update projected
              nodeTaskIds :=
                if terminalIds ≠ [] then (nid, .many terminalIds) :: frame.nodeTaskIds
                else frame.nodeTaskIds
              children := frame.children ++ [(nid, child, walked.1)] },
            walked.2, .subworkflowDone (qualifyId frame.qualifier nid)) :
          Activating (Frame × WalkState × WorkflowNodeExecution)) := by
      intro registry call
      refine Raise.keeps_bind ht (keeps_orElseRaise hr _ _) fun child => ?_
      refine Raise.keeps_bind ht (keeps_orRaise hr _ _) fun inputs => ?_
      refine Raise.keeps_bind ht (hchild _ _ _ _ _) fun walked => ?_
      exact Raise.keeps_bind ht (keeps_orRaise hr _ _) fun _ =>
        Raise.keeps_pure hr _
    refine Raise.keeps_bind ht (keeps_orElseRaise hr _ _) fun registry => ?_
    refine Raise.keeps_bind ht (keeps_orRaise hr _ _) fun call => ?_
    dsimp only
    split
    · exact Raise.keeps_bind ht (Raise.keeps_throw hr _) fun _ => hwalk registry call
    · exact hwalk registry call
  have hnode : ∀ node frame state,
      Raise.Keeps R (processNodeInFrame svc req walkChild d nid node frame state) := by
    intro node frame state
    unfold processNodeInFrame
    cases node.type with
    | start | «end» | parallelSplit | parallelJoin | agentAssignment | verification =>
      exact Raise.keeps_pure hr _
    | conditional =>
      refine Raise.keeps_bind ht ?_ fun _ => Raise.keeps_pure hr _
      exact Raise.keeps_bind ht (keeps_orRaise hr _ _) fun _ =>
        Raise.keeps_pure hr _
    | subworkflow => exact hsub node frame state
    | task => exact Raise.keeps_bind ht (htask node frame) fun _ => Raise.keeps_pure hr _
  refine Raise.keeps_bind ht (keeps_orElseRaise hr _ _) fun node => ?_
  split
  · exact Raise.keeps_pure hr _
  · exact Raise.keeps_bind ht (hnode node at_.1 at_.2) fun _ => Raise.keeps_pure hr _

theorem walk_leaves (hr : ∀ w, R w w) (ht : ∀ u v w, R u v → R v w → R u w)
    (hc : ∀ data, Raise.Keeps R (createTask svc data)) (levels : Nat)
    (d : WorkflowDefinition) (depth : Nat) (qualifier : String) (vars : Vars) (state : WalkState) :
    Raise.Keeps R (walkFrame svc req levels d depth qualifier vars state) := by
  induction levels generalizing d depth qualifier vars state with
  | zero =>
    refine Raise.keeps_bind ht (keeps_orElseRaise hr _ _) fun order => ?_
    exact Raise.keeps_foldlM hr ht
      (keeps_walkNode hr ht hc fun _ _ _ _ _ => Raise.keeps_throw hr _) order _
  | succ levels ih =>
    refine Raise.keeps_bind ht (keeps_orElseRaise hr _ _) fun order => ?_
    exact Raise.keeps_foldlM hr ht (keeps_walkNode hr ht hc ih) order _

end Leaves

-- ==== returned

inductive Recorded (svc : Service) (key : String) : WalkState × World → WalkState × World → Prop
  | plain (state : WalkState) (world : World) (nodeExecution : WorkflowNodeExecution)
      (hnone : nodeExecution.taskId = none) :
      Recorded svc key (state, world) (state.record key nodeExecution, world)
  | task (state : WalkState) (data : CreateTaskData) (task : Task) (world world' : World)
      (hcreated : Created svc data world task world') :
      Recorded svc key (state, world)
        (state.record key (.taskCreated key task.id.text), world')

inductive RecordedNode : WorkflowNodeExecution → Prop
  | control (nodeId : String) (type : WorkflowNodeType) (htype : type.executable = false) :
      RecordedNode (.done nodeId type)
  | subworkflow (nodeId : String) : RecordedNode (.subworkflowDone nodeId)
  | skipped (nodeId : String) (type : WorkflowNodeType) : RecordedNode (.skippedNode nodeId type)
  | task (nodeId taskId : String) : RecordedNode (.taskCreated nodeId taskId)

variable {world world' : World} {β : Type} {entries : List (String × β)} {key : String}
  {e : WorkflowError}

variable {levels depth : Nat} {qualifier : String} {vars : Vars} {state state' : WalkState}
  {frame : Frame} {b : β} {s t : WalkState × World} {α : Type} {execution : WorkflowExecution}

theorem walk_follows {R : WalkState × World → WalkState × World → Prop} (hr : ∀ s, R s s)
    (ht : ∀ s t u, R s t → R t u → R s u) (hrec : ∀ key s t, Recorded svc key s t →
      (∃ r, RecordedNode r ∧ t.1 = s.1.record key r) → R s t)
    (h : walkFrame svc req levels d depth qualifier vars state world =
      .ok (frame, state') world') : R (state, world) (state', world') := by
  have hn : ∀ (walkChild : WalkChild)
      (_ : ∀ child depth qualifier vars state world frame state' world',
        walkChild child depth qualifier vars state world = .ok (frame, state') world' →
          R (state, world) (state', world'))
      (d : WorkflowDefinition) (depth : Nat) (qualifier : String) (vars : Vars)
      (state state' : WalkState) (frame : Frame) (world world' : World),
      walkNodes svc req walkChild d depth qualifier vars state world =
        .ok (frame, state') world' → R (state, world) (state', world') := by
    intro walkChild hc d depth qualifier vars state state' frame world world' h
    obtain ⟨order, -, hloop⟩ := walkNodes_ok h
    refine Raise.foldlM_ok (P := fun _ (at_ : Frame × WalkState) (w : World) =>
      R (state, world) (at_.2, w)) ?_ (hr _) hloop
    rintro done nid rest - ⟨frame₁, state₁⟩ w₁ ⟨frame₂, state₂⟩ w₂ hR hstep
    apply ht _ _ _ hR
    obtain ⟨node, -, ⟨-, rfl, hpair⟩ | ⟨-, handled, state₃, nodeExecution, hhand, hpair⟩⟩ :=
      walkNode_cases hstep
    · obtain ⟨-, rfl⟩ := Prod.mk.inj hpair
      exact hrec _ _ _ (.plain state₁ w₂ _ rfl) ⟨_, .skipped _ _, rfl⟩
    · obtain ⟨-, rfl⟩ := Prod.mk.inj hpair
      cases hhand with
      | plain pending _ htype =>
        exact hrec _ _ _ (.plain state₁ _ _ rfl) ⟨_, .control _ _ htype, rfl⟩
      | decision taken _ htype =>
        exact hrec _ _ _ (.plain state₁ _ _ rfl) ⟨_, .control _ _ htype, rfl⟩
      | task data task _ pending _ _ hcreated =>
        exact hrec _ _ _ (.task state₁ data task w₁ w₂ hcreated) ⟨_, .task _ _, rfl⟩
      | subworkflow child inputs vars childFrame _ _ terminalIds _ _ hwalk _ =>
        exact ht _ _ _ (hc _ _ _ _ _ _ _ _ _ hwalk)
          (hrec _ _ _ (.plain state₃ w₂ _ rfl) ⟨_, .subworkflow _, rfl⟩)
  induction levels generalizing d depth qualifier vars state state' frame world world' with
  | zero =>
    refine hn _ ?_ d depth qualifier vars state state' frame world world' h
    intro _ _ _ _ _ _ _ _ _ hc
    exact absurd hc Raise.throw_ok
  | succ levels ih =>
    refine hn _ ?_ d depth qualifier vars state state' frame world world' h
    intro _ _ _ _ _ _ _ _ _ hc
    exact ih hc

-- ==== the world

def Residue (world world' : World) : Prop :=
  world'.executions = world.executions ∧
    (∀ id, (world.engine.tasks id).isSome → (world'.engine.tasks id).isSome) ∧
      ∃ made, world'.created = world.created ++ made ∧
        ∀ t ∈ made, (world'.engine.tasks t.id.text).isSome

theorem Residue.refl (world : World) : Residue world world :=
  ⟨rfl, fun _ h => h, [], by simp, by simp⟩

theorem Residue.trans {u v w : World} (huv : Residue u v) (hvw : Residue v w) : Residue u w := by
  obtain ⟨hexec, hkeep, made, hmade, hin⟩ := huv
  obtain ⟨hexec', hkeep', made', hmade', hin'⟩ := hvw
  refine ⟨hexec'.trans hexec, fun id h => hkeep' id (hkeep id h), made ++ made', ?_, ?_⟩
  · rw [hmade', hmade, append_assoc]
  · intro t ht
    rcases mem_append.1 ht with h | h
    · exact hkeep' _ (hin t h)
    · exact hin' t h

theorem processOne_create_rows (env : TurnEnv) (requestId : String) (data : CreateTaskData)
    (engine : EngineState) (id : String) (h : (engine.tasks id).isSome) :
    ((processOne env (.create requestId data) engine).2.tasks id).isSome := by
  have hturn : (processOne env (.create requestId data) engine).2 =
      (applyCreate env data engine).state := rfl
  rw [hturn]
  unfold applyCreate
  cases Task.modelValidate (createPayload env data) [] with
  | error e => exact h
  | ok task =>
    dsimp only
    split
    · exact h
    · show ((engine.save task).tasks id).isSome
      by_cases hid : id = task.id.text
      · rw [hid, EngineState.save_tasks_self]
        rfl
      · rw [EngineState.save_tasks_of_ne engine task hid]
        exact h

theorem keeps_createTask (data : CreateTaskData) : Raise.Keeps Residue (createTask svc data) := by
  intro world
  cases hres : createTask svc data world with
  | ok task world' =>
    have hc := createTask_ok hres
    refine ⟨hc.executions, ?_, [task], hc.created, ?_⟩
    · intro id h
      rw [Raise.left, hc.engine]
      by_cases hid : id = task.id.text
      · rw [hid, EngineState.save_tasks_self]
        rfl
      · rw [EngineState.save_tasks_of_ne _ task hid]
        exact h
    · intro t ht
      rw [mem_singleton] at ht
      rw [ht, Raise.left, hc.engine, EngineState.save_tasks_self]
      rfl
  | error e world' =>
    -- what a refused creation changed, the engine's loop changed
    unfold createTask at hres
    cases hs : svc.creation world.created.length with
    | none =>
      rw [hs] at hres
      cases hres
      exact Residue.refl world
    | some env =>
      rw [hs] at hres
      have hrows := processOne_create_rows env "workflow-engine" data world.engine
      dsimp only at hres
      cases hturn : processOne env (.create "workflow-engine" data) world.engine with
      | mk result engine =>
        rw [hturn] at hres hrows
        obtain ⟨requestId, outcome⟩ := result
        have hleft : world' = { world with engine := engine } := by
          cases outcome with
          | failure e =>
            cases hres
            rfl
          | success made version previous =>
            cases made with
            | some made => cases hres
            | none =>
              cases hres
              rfl
        rw [Raise.left, hleft]
        exact ⟨rfl, hrows, [], by simp, by simp⟩

theorem walk_residue (levels : Nat) (d : WorkflowDefinition) (depth : Nat)
    (qualifier : String) (vars : Vars) (state : WalkState) (world : World) : Residue world
      (Raise.left (walkFrame svc req levels d depth qualifier vars state world)) :=
  walk_leaves Residue.refl (fun _ _ _ => Residue.trans) keeps_createTask levels d depth
    qualifier vars state world

-- ==== the records

structure WalkState.Wf (s : WalkState) : Prop where
  ordered : ∀ key, key ∈ s.orderedKeys ↔ key ∈ s.keys
  tasks : ∀ key ids, (key, ids) ∈ s.nodeTaskIds ↔
    ∃ nodeExecution taskId, (key, nodeExecution) ∈ s.nodeExecMap ∧
      nodeExecution.taskId = some taskId ∧ ids = .one taskId

theorem WalkState.wf_empty : ({} : WalkState).Wf :=
  ⟨by simp [WalkState.keys], by simp⟩

theorem mem_of_lookup (h : entries.lookup key = some b) : (key, b) ∈ entries := by
  obtain ⟨left, right, rfl, -⟩ := lookup_eq_some_iff.1 h
  exact mem_append_right _ mem_cons_self

theorem lookup_isSome_iff : (entries.lookup key).isSome ↔ key ∈ entries.map Prod.fst := by
  simp only [List.lookup_isSome_iff, beq_iff_eq, mem_map, @eq_comm _ key]

theorem WalkState.Wf.record {s : WalkState} (h : s.Wf) (key : String)
    (nodeExecution : WorkflowNodeExecution) : (s.record key nodeExecution).Wf := by
  constructor
  · intro k
    unfold WalkState.record WalkState.keys
    dsimp only
    rw [map_cons, mem_cons]
    have hold := h.ordered k
    unfold WalkState.keys at hold
    split
    next hin =>
      rw [lookup_isSome_iff] at hin
      rw [hold]
      constructor
      · exact Or.inr
      · rintro (rfl | hk)
        · exact hin
        · exact hk
    next => rw [mem_append, mem_singleton, hold, or_comm]
  · intro k ids
    unfold WalkState.record
    cases htask : nodeExecution.taskId with
    | none =>
      rw [h.tasks]
      constructor
      · rintro ⟨ne, taskId, hmem, hrest⟩
        exact ⟨ne, taskId, mem_cons_of_mem _ hmem, hrest⟩
      · rintro ⟨ne, taskId, hmem, hid, hids⟩
        rcases mem_cons.1 hmem with heq | hmem
        · obtain ⟨-, rfl⟩ := Prod.mk.inj heq
          simp [htask] at hid
        · exact ⟨ne, taskId, hmem, hid, hids⟩
    | some made =>
      rw [mem_cons, h.tasks]
      constructor
      · rintro (heq | ⟨ne, taskId, hmem, hrest⟩)
        · obtain ⟨rfl, rfl⟩ := Prod.mk.inj heq
          exact ⟨nodeExecution, made, mem_cons_self, htask, rfl⟩
        · exact ⟨ne, taskId, mem_cons_of_mem _ hmem, hrest⟩
      · rintro ⟨ne, taskId, hmem, hid, hids⟩
        rcases mem_cons.1 hmem with heq | hmem
        · obtain ⟨rfl, rfl⟩ := Prod.mk.inj heq
          rw [htask] at hid
          obtain rfl := Option.some.inj hid
          exact .inl (by rw [hids])
        · exact .inr ⟨ne, taskId, hmem, hid, hids⟩

def Accounted (s t : WalkState × World) : Prop :=
  (s.1.Wf → t.1.Wf) ∧ ∃ records made, t.1.nodeExecMap = records ++ s.1.nodeExecMap ∧
    t.2.created = s.2.created ++ made ∧
      ∀ task ∈ made, ∃ r ∈ records, r.2.taskId = some task.id.text

theorem Accounted.refl (s : WalkState × World) : Accounted s s :=
  ⟨fun h => h, [], [], by simp, by simp, by simp⟩

theorem Accounted.trans {u : WalkState × World} (hst : Accounted s t) (htu : Accounted t u) :
    Accounted s u := by
  obtain ⟨hwf, records, made, hrecs, hmade, hin⟩ := hst
  obtain ⟨hwf', records', made', hrecs', hmade', hin'⟩ := htu
  refine ⟨fun h => hwf' (hwf h), records' ++ records, made ++ made', ?_, ?_, ?_⟩
  · rw [hrecs', hrecs, append_assoc]
  · rw [hmade', hmade, append_assoc]
  · intro task htask
    rcases mem_append.1 htask with h | h
    · obtain ⟨r, hr, hid⟩ := hin task h
      exact ⟨r, mem_append_right _ hr, hid⟩
    · obtain ⟨r, hr, hid⟩ := hin' task h
      exact ⟨r, mem_append_left _ hr, hid⟩

theorem Recorded.accounted (h : Recorded svc key s t) : Accounted s t := by
  cases h with
  | plain state world nodeExecution _ =>
    exact ⟨fun hwf => hwf.record key nodeExecution, [(key, nodeExecution)], [], rfl,
      by simp, by simp⟩
  | task state data task world world' hc =>
    refine ⟨fun hwf => hwf.record key _, [(key, .taskCreated key task.id.text)], [task], rfl,
      hc.created, ?_⟩
    intro t ht
    rw [mem_singleton] at ht
    exact ⟨_, mem_singleton_self _, by rw [ht]; rfl⟩

theorem walk_accounted (h : walkFrame svc req levels d depth qualifier vars state world =
      .ok (frame, state') world') : Accounted (state, world) (state', world') :=
  walk_follows Accounted.refl (fun _ _ _ => Accounted.trans)
    (fun _ _ _ hrec _ => Recorded.accounted hrec) h

def WalkState.Booked (s : WalkState) : Prop :=
  ∀ e ∈ s.nodeExecMap, RecordedNode e.2 ∧ (e.2.taskId.isSome → s.nodeTaskIds ≠ [])

theorem walk_booked (h : walkFrame svc req levels d depth qualifier vars state world =
      .ok (frame, state') world') (hstart : state.Booked) : state'.Booked := by
  refine walk_follows (R := fun s t => s.1.Booked → t.1.Booked) (fun _ => id)
    (fun _ _ _ hst htu => htu ∘ hst) ?_ h hstart
  rintro key s t - ⟨r, hr, hrec⟩ hs e he
  rw [hrec] at he ⊢
  unfold WalkState.record
  rcases mem_cons.1 he with rfl | hold
  · refine ⟨hr, fun hsome => ?_⟩
    obtain ⟨taskId, htask : r.taskId = some taskId⟩ := Option.isSome_iff_exists.1 hsome
    simp [htask]
  · refine ⟨(hs e hold).1, fun hsome => ?_⟩
    split
    · simp
    · exact (hs e hold).2 hsome

theorem lookup_of_count (h : (key, b) ∈ entries) (hcnt : (entries.map Prod.fst).count key = 1) :
    entries.lookup key = some b := by
  induction entries with
  | nil => cases h
  | cons e rest ih =>
    rw [map_cons] at hcnt
    rw [lookup_cons]
    by_cases hkey : e.1 = key
    · rw [hkey, count_cons_self] at hcnt
      have hnone : key ∉ rest.map Prod.fst := by
        rw [← count_eq_zero]
        omega
      rcases mem_cons.1 h with rfl | hmem
      · simp
      · exact absurd (mem_map.2 ⟨(key, b), hmem, rfl⟩) hnone
    · rw [count_cons_of_ne hkey] at hcnt
      rcases mem_cons.1 h with rfl | hmem
      · exact absurd rfl hkey
      · have hne : (key == e.1) = false := by simpa using Ne.symm hkey
        rw [hne]
        exact ih hmem hcnt

theorem WalkState.Wf.mem_nodeExecutions {s : WalkState} (hwf : s.Wf)
    {nodeExecution : WorkflowNodeExecution} (h : (key, nodeExecution) ∈ s.nodeExecMap)
    (hcnt : s.keys.count key = 1) : nodeExecution ∈ s.nodeExecutions := by
  have hkey : key ∈ s.keys := mem_map.2 ⟨_, h, rfl⟩
  exact mem_filterMap.2 ⟨key, (hwf.ordered key).2 hkey, lookup_of_count h hcnt⟩

-- ==== an activation

theorem orRaise_error {ε : Type} {raised : ε → WorkflowError} {x : Except ε α}
    (h : orRaise raised x world = .error e world') : world = world' := by
  cases x with
  | ok a => cases h
  | error _ => exact (EStateM.Result.error.inj h).2

theorem orElseRaise_error {raised : WorkflowError} {x : Option α}
    (h : orElseRaise raised x world = .error e world') : world = world' := by
  cases x with
  | some a => cases h
  | none => exact (EStateM.Result.error.inj h).2

theorem saveExecution_error (h : saveExecution svc execution world = .error e world') :
    world = world' := by
  unfold saveExecution at h
  split at h
  next => exact (EStateM.Result.error.inj h).2
  next => cases h

theorem saveExecution_ok {u : Unit} (h : saveExecution svc execution world = .ok u world') :
    world'.executions = world.executions ++ [execution] ∧
      world'.created = world.created := by
  unfold saveExecution at h
  split at h
  next => cases h
  next =>
    obtain ⟨-, rfl⟩ := EStateM.Result.ok.inj h
    exact ⟨rfl, rfl⟩

/-- AN ACTIVATION that raises has stored no execution, and its tasks are in the engine. One that
returns stored the execution, and each task it created stands in a record that the execution
lists, unless another node it walked has the same qualified id. -/
theorem activate_residue (svc : Service) (req : ActivationRequest)
    (definitionId : String) (context : Vars) (world : World) :
    match activate svc req definitionId context world with
    | .error _ world' =>
      world'.executions = world.executions ∧
        ∃ made, world'.created = world.created ++ made ∧
          ∀ t ∈ made, (world'.engine.tasks t.id.text).isSome
    | .ok execution world' =>
      world'.executions = world.executions ++ [execution] ∧
        ∃ made d frame state walked, world'.created = world.created ++ made ∧
          loadAndValidate svc definitionId = .ok d ∧
            walkFrame svc req svc.maxSubworkflowDepth d 0 "" context {} world =
              .ok (frame, state) walked ∧
              ∀ t ∈ made, ∃ key nodeExecution, (key, nodeExecution) ∈ state.nodeExecMap ∧
                nodeExecution.taskId = some t.id.text ∧
                  (state.keys.count key = 1 → nodeExecution ∈ execution.nodeExecutions) := by
  cases hresult : activate svc req definitionId context world with
  | error e world' =>
    have hresidue : Residue world world' := by
      rcases Raise.bind_error.1 hresult with hload | ⟨d, w₁, hload, hrest⟩
      · exact orRaise_error hload ▸ Residue.refl world
      obtain ⟨-, rfl⟩ := orRaise_ok hload
      have hwalked : Residue world (Raise.left
          (walkFrame svc req svc.maxSubworkflowDepth d 0 "" context {} world)) :=
        walk_residue _ _ _ _ _ _ _
      rcases Raise.bind_error.1 hrest with hwalk | ⟨⟨frame, state⟩, w₂, hwalk, hrest⟩
      · rw [hwalk] at hwalked
        exact hwalked
      rw [hwalk] at hwalked
      rcases Raise.bind_error.1 hrest with hbuild | ⟨execution, w₃, hbuild, hrest⟩
      · exact orElseRaise_error hbuild ▸ hwalked
      obtain ⟨-, rfl⟩ := orElseRaise_ok hbuild
      rcases Raise.bind_error.1 hrest with hsave | ⟨_, w₄, hsave, hrest⟩
      · exact (saveExecution_error hsave) ▸ hwalked
      · cases hrest
    exact ⟨hresidue.1, hresidue.2.2⟩
  | ok execution world' =>
    obtain ⟨d, w₁, hload, hrest⟩ := Raise.bind_ok.1 hresult
    obtain ⟨hloaded, rfl⟩ := orRaise_ok hload
    obtain ⟨⟨frame, state⟩, w₂, hwalk, hrest⟩ := Raise.bind_ok.1 hrest
    obtain ⟨built, w₃, hbuild, hrest⟩ := Raise.bind_ok.1 hrest
    obtain ⟨hbuilt, rfl⟩ := orElseRaise_ok hbuild
    obtain ⟨_, w₄, hsave, hrest⟩ := Raise.bind_ok.1 hrest
    obtain ⟨rfl, rfl⟩ := Raise.pure_ok.1 hrest
    obtain ⟨hexecutions, hcreated⟩ := saveExecution_ok hsave
    have hwalked : Residue world (Raise.left
        (walkFrame svc req svc.maxSubworkflowDepth d 0 "" context {} world)) :=
      walk_residue _ _ _ _ _ _ _
    rw [hwalk] at hwalked
    have hrows : w₂.executions = world.executions := hwalked.1
    obtain ⟨hwf, records, made, hrecords, hmade, hin⟩ := walk_accounted hwalk
    refine ⟨hexecutions.trans (by rw [hrows]), made, d, frame, state, w₂,
      hcreated.trans hmade, hloaded, hwalk, ?_⟩
    intro t ht
    obtain ⟨⟨key, nodeExecution⟩, hr, hid⟩ := hin t ht
    have hmem : (key, nodeExecution) ∈ state.nodeExecMap := by
      rw [hrecords]
      exact mem_append_left _ hr
    refine ⟨key, nodeExecution, hmem, hid, fun hcount => ?_⟩
    rw [(WorkflowExecution.build_nodeExecutions hbuilt).1]
    exact (hwf WalkState.wf_empty).mem_nodeExecutions hmem hcount

-- ==== a raise half way

theorem notBlank_first : notBlank "first" = true := by decide

theorem notBlank_second : notBlank "second" = true := by decide

/-- A TASK node, then a second one whose task type is no type. -/
def unknownTaskType : WorkflowDefinition where
  id := plainId
  revision := 1
  nodes := [plainNode "start" .start [] notBlank_start,
    plainNode "first" .task [("title", .text "First")] notBlank_first,
    plainNode "second" .task [("title", .text "Second"), ("task_type", .text "meeting")]
      notBlank_second,
    plainNode "end" .end [] notBlank_end]
  edges := [plainEdge "start" "first" .sequential,
    plainEdge "first" "second" .sequential,
    plainEdge "second" "end" .sequential]
  revision_pos := Nat.zero_lt_one
  nodeIds_nodup := by decide
  edgeIds_nodup := by decide
  edge_references := by decide
  one_start := by decide
  one_end := by decide

/-- `literalService` with that definition and an engine. -/
def creatingService : Service :=
  { literalService with
    definitionRepo := fun _ => some unknownTaskType
    creation := fun _ => some { newId := plainId, now := 0 } }

/-- The activation raises on the second node, and the first node's task stays. -/
theorem raised_task_remains : ∃ e world' t,
    activate creatingService ⟨"project", "user"⟩ "workflow" [] emptyWorld = .error e world' ∧
      world'.created = emptyWorld.created ++ [t] ∧
        (emptyWorld.engine.tasks t.id.text).isNone ∧
          (world'.engine.tasks t.id.text).isSome :=
  ⟨_, _, _, rfl, rfl, rfl, rfl⟩

end

open Synthorg.Core Lib TaskEngine Raise

variable {svc : Service} {req : ActivationRequest}

-- ==== the list

def Earlier (created : List Task) : Prop :=
  ∀ pre t post, created = pre ++ t :: post →
    ∀ id ∈ t.dependencies, ∃ s ∈ pre, s.id.text = id

def Known (created : List Task) (ids : NodeTaskIds) : Prop :=
  ∀ e ∈ ids, ∀ id ∈ e.2.flatten, ∃ s ∈ created, s.id.text = id

theorem known_nil (created : List Task) : Known created [] := by
  intro e he
  cases he

theorem earlier_nil : Earlier [] := by
  intro pre t post hcut
  simp at hcut

variable {created : List Task} {ids : NodeTaskIds} {nid : String}

theorem Earlier.snoc {t : Task} (h : Earlier created)
    (hdeps : ∀ id ∈ t.dependencies, ∃ s ∈ created, s.id.text = id) : Earlier (created ++ [t]) := by
  intro pre s post hcut
  rcases eq_nil_or_concat post with rfl | ⟨post, last, rfl⟩
  · obtain ⟨rfl, hlast⟩ := append_inj' hcut rfl
    obtain rfl := (cons.inj hlast).1
    exact hdeps
  · rw [concat_eq_append, ← cons_append, ← append_assoc] at hcut
    exact h pre s post (append_inj' hcut rfl).1

theorem Known.append {made : List Task} (h : Known created ids) : Known (created ++ made) ids := by
  intro e he id hid
  obtain ⟨s, hs, hsid⟩ := h e he id hid
  exact ⟨s, mem_append_left _ hs, hsid⟩

theorem known_append {ids' : NodeTaskIds} :
    Known created (ids ++ ids') ↔ Known created ids ∧ Known created ids' := by
  unfold Known
  simp only [mem_append, or_imp, forall_and]

theorem known_cons {entry : TaskIds} : Known created ((nid, entry) :: ids) ↔
      (∀ id ∈ entry.flatten, ∃ s ∈ created, s.id.text = id) ∧ Known created ids := by
  unfold Known
  simp only [mem_cons, forall_eq_or_imp]

variable {id : String} {P : World → Prop} {α : Type} {data : CreateTaskData} {world : World}
  {d : WorkflowDefinition}

/-- A dependency a TASK node finds is an id its frame holds. -/
theorem Known.upstream (h : Known created ids) {skipped : List String}
    (hid : id ∈ d.findUpstreamTaskIds nid ids skipped) : ∃ s ∈ created, s.id.text = id := by
  obtain ⟨x, -, hin⟩ := WorkflowDefinition.mem_findUpstreamTaskIds.1 hid
  unfold WorkflowDefinition.contributed at hin
  split at hin
  next =>
    cases hlook : ids.lookup x with
    | none => simp [hlook] at hin
    | some entry =>
      rw [hlook] at hin
      exact h (x, entry) (mem_of_lookup hlook) id hin
  next => cases hin

theorem Known.terminal {state : WalkState} (h : Known created state.nodeTaskIds)
    {child : WorkflowDefinition} {qualifier : String}
    (hid : id ∈ collectTerminalTaskIds child qualifier state) : ∃ s ∈ created, s.id.text = id := by
  obtain ⟨node, -, hin⟩ := mem_flatMap.1 hid
  split at hin
  next =>
    cases hlook : state.nodeTaskIds.lookup (qualifyId qualifier node.id) with
    | none =>
      rw [hlook] at hin
      cases htype : node.type <;> rw [htype] at hin <;> cases hin
    | some entry =>
      rw [hlook] at hin
      refine h (_, entry) (mem_of_lookup hlook) id ?_
      cases htype : node.type <;> rw [htype] at hin <;>
        cases entry <;> first | exact hin | cases hin
  next => cases hin

-- ==== the invariant

/-- THE INVARIANT of a walk with the entries of the frames above it. -/
structure Ordered (above : NodeTaskIds) (at_ : Frame × WalkState) (world : World) : Prop where
  earlier : Earlier world.created
  above : Known world.created above
  frame : Known world.created at_.1.nodeTaskIds
  state : Known world.created at_.2.nodeTaskIds

def Kept (world : World) : Prop := Earlier world.created

theorem ends_orRaise (hP : ∀ w, P w → Kept w) {ε : Type} {raised : ε → WorkflowError}
    {x : Except ε α} : Ends P (orRaise raised x) (fun _ => P) Kept := by
  cases x with
  | ok a => exact ends_pure fun _ h => h
  | error e => exact ends_throw hP

theorem ends_orElseRaise (hP : ∀ w, P w → Kept w) {raised : WorkflowError} {x : Option α} :
    Ends P (orElseRaise raised x) (fun _ => P) Kept := by
  cases x with
  | some a => exact ends_pure fun _ h => h
  | none => exact ends_throw hP

theorem createTask_error {e : WorkflowError} {world' : World}
    (h : createTask svc data world = .error e world') : world'.created = world.created := by
  unfold createTask at h
  cases hs : svc.creation world.created.length with
  | none =>
    rw [hs] at h
    cases h
    rfl
  | some env =>
    rw [hs] at h
    dsimp only at h
    cases hturn : processOne env (.create "workflow-engine" data) world.engine with
    | mk result engine =>
      rw [hturn] at h
      obtain ⟨requestId, outcome⟩ := result
      cases outcome with
      | failure e =>
        cases h
        rfl
      | success made version previous =>
        cases made with
        | some made => cases h
        | none =>
          cases h
          rfl

theorem ends_createTask {above : NodeTaskIds} {frame : Frame} {state : WalkState}
    (hdeps : data.dependencies =
      d.findUpstreamTaskIds nid frame.nodeTaskIds frame.skippedNodes) :
    Ends (Ordered above (frame, state)) (createTask svc data)
      (fun task world => Ordered above (frame, state) world ∧ task ∈ world.created) Kept := by
  intro world hw
  cases hres : createTask svc data world with
  | ok task world' =>
    have hc := createTask_ok hres
    have hlist := hc.created
    refine ⟨⟨?_, ?_, ?_, ?_⟩, by rw [hlist]; simp⟩
    · rw [hlist]
      refine hw.earlier.snoc fun id hid => ?_
      rw [hc.dependencies, hdeps] at hid
      exact hw.frame.upstream hid
    · rw [hlist]
      exact hw.above.append
    · rw [hlist]
      exact hw.frame.append
    · rw [hlist]
      exact hw.state.append
  | error e world' =>
    show Earlier world'.created
    rw [createTask_error hres]
    exact hw.earlier

section Round

variable {above : NodeTaskIds} {walkChild : WalkChild} {d : WorkflowDefinition}
  {nid : String} {node : WorkflowNode} {frame : Frame} {state : WalkState}

def Handed (above : NodeTaskIds) (out : Frame × WalkState × WorkflowNodeExecution)
    (world : World) : Prop :=
  Ordered above (out.1, out.2.1) world ∧
    ∀ id, out.2.2.taskId = some id → ∃ s ∈ world.created, s.id.text = id

theorem Ordered.kept (world : World) (h : Ordered above (frame, state) world) : Kept world :=
  h.earlier

theorem Ordered.handed {frame' : Frame} {nodeExecution : WorkflowNodeExecution}
    {world : World} (h : Ordered above (frame, state) world)
    (hids : frame'.nodeTaskIds = frame.nodeTaskIds) (hnone : nodeExecution.taskId = none) :
    Handed above (frame', state, nodeExecution) world := by
  refine ⟨⟨h.earlier, h.above, ?_, h.state⟩, ?_⟩
  · show Known world.created frame'.nodeTaskIds
    rw [hids]
    exact h.frame
  · intro id hid
    simp [hnone] at hid

theorem ends_processTaskNode :
    Ends (Ordered above (frame, state)) (processTaskNode svc req d nid node frame)
      (fun out world => Handed above (out.1, state, out.2) world) Kept := by
  have hc : ∀ config, Ends (Ordered above (frame, state)) (do
      let task ← createTask svc (taskDataFor req d frame nid config)
      return (
        { frame with
          nodeTaskIds := (nid, .one task.id.text) :: frame.nodeTaskIds
          pendingAssignments := frame.pendingAssignments.filter (·.1 ≠ nid)
          tasks := frame.tasks ++ [(nid, task)] },
        WorkflowNodeExecution.taskCreated (qualifyId frame.qualifier nid) task.id.text))
      (fun out world => Handed above (out.1, state, out.2) world) Kept := by
    intro config
    refine ends_bind (ends_createTask rfl) fun task => ends_pure ?_
    rintro world ⟨hw, htask⟩
    have hone : ∀ id, some task.id.text = some id → ∃ s ∈ world.created, s.id.text = id :=
      fun id hid => ⟨task, htask, Option.some.inj hid⟩
    refine ⟨⟨hw.earlier, hw.above, known_cons.2 ⟨?_, hw.frame⟩, hw.state⟩, hone⟩
    intro id hid
    exact hone id (congrArg some (mem_singleton.1 hid)).symm
  refine ends_bind (ends_orRaise Ordered.kept) fun config => ?_
  dsimp only
  split
  · exact ends_bind (R := fun _ => Ordered above (frame, state)) (ends_throw Ordered.kept)
      fun _ => hc config
  · exact hc config

theorem ends_processSubworkflowNode (hc : ∀ above child depth qualifier vars state,
      Ends (fun world => Earlier world.created ∧ Known world.created above ∧
          Known world.created state.nodeTaskIds)
        (walkChild child depth qualifier vars state) (Ordered above) Kept) :
    Ends (Ordered above (frame, state))
      (processSubworkflowNode svc walkChild nid node frame state) (Handed above) Kept := by
  have hwalk : ∀ (registry : String → String → Option WorkflowDefinition)
      (call : SubworkflowCall), Ends (Ordered above (frame, state)) (do
        let child ← orElseRaise (.subworkflowNotFound call.subworkflowId call.version)
          (registry call.subworkflowId call.version)
        let inputs ← orRaise .subworkflowIo
          (svc.resolveInputBindings call.inputBindings frame.vars child)
        let walked ← walkChild child (frame.depth + 1)
          (qualifyId frame.qualifier nid) inputs state
        let projected ← orRaise .subworkflowIo
          (svc.projectOutputBindings call.outputBindings walked.1.vars child frame.vars)
        let terminalIds :=
          collectTerminalTaskIds child (qualifyId frame.qualifier nid) walked.2
        return (
          { frame with
            vars := frame.vars.update projected
            nodeTaskIds :=
              if terminalIds ≠ [] then (nid, .many terminalIds) :: frame.nodeTaskIds
              else frame.nodeTaskIds
            children := frame.children ++ [(nid, child, walked.1)] },
          walked.2, .subworkflowDone (qualifyId frame.qualifier nid)) :
        Activating (Frame × WalkState × WorkflowNodeExecution)) (Handed above) Kept := by
    intro registry call
    refine ends_bind (ends_orElseRaise Ordered.kept) fun child => ?_
    refine ends_bind (ends_orRaise Ordered.kept) fun inputs => ?_
    have hb : Ends (Ordered above (frame, state))
        (walkChild child (frame.depth + 1) (qualifyId frame.qualifier nid) inputs state)
        (Ordered (above ++ frame.nodeTaskIds)) Kept :=
      (hc _ child _ _ inputs state).weaken
        (fun world h => ⟨h.earlier, known_append.2 ⟨h.above, h.frame⟩, h.state⟩)
        (fun _ _ h => h)
    refine ends_bind hb fun walked => ?_
    refine ends_bind (ends_orRaise fun world h => h.earlier) fun projected => ends_pure ?_
    intro world h
    obtain ⟨ha, hf⟩ := known_append.1 h.above
    refine ⟨⟨h.earlier, ha, ?_, h.state⟩, by rintro _ ⟨⟩⟩
    split
    · exact known_cons.2 ⟨fun id hid => h.state.terminal hid, hf⟩
    · exact hf
  refine ends_bind (ends_orElseRaise Ordered.kept) fun registry => ?_
  refine ends_bind (ends_orRaise Ordered.kept) fun call => ?_
  dsimp only
  split
  · exact ends_bind (R := fun _ => Ordered above (frame, state)) (ends_throw Ordered.kept)
      fun _ => hwalk registry call
  · exact hwalk registry call

/-- STEP LEMMA: a round keeps the invariant, and raises into an ordered list. -/
theorem ends_walkNode (hc : ∀ above child depth qualifier vars state,
      Ends (fun world => Earlier world.created ∧ Known world.created above ∧
          Known world.created state.nodeTaskIds)
        (walkChild child depth qualifier vars state) (Ordered above) Kept)
    (at_ : Frame × WalkState) :
    Ends (Ordered above at_) (walkNode svc req walkChild d at_ nid) (Ordered above) Kept := by
  obtain ⟨frame, state⟩ := at_
  have hrec : ∀ out world, Handed above out world →
      Ordered above (recordNode nid out.2.2 out.1 out.2.1) world := by
    rintro ⟨frame', state', nodeExecution⟩ world ⟨h, hid⟩
    refine ⟨h.earlier, h.above, h.frame, ?_⟩
    show Known world.created (state'.record _ nodeExecution).nodeTaskIds
    unfold WalkState.record
    cases htask : nodeExecution.taskId with
    | none => exact h.state
    | some made =>
      refine known_cons.2 ⟨fun id hin => ?_, h.state⟩
      exact hid id (htask.trans (congrArg some (mem_singleton.1 hin).symm))
  have hnode : ∀ node, Ends (Ordered above (frame, state))
      (processNodeInFrame svc req walkChild d nid node frame state) (Handed above) Kept := by
    intro node
    unfold processNodeInFrame
    cases node.type with
    | start | «end» | parallelSplit | parallelJoin | verification =>
      exact ends_pure fun world h => h.handed rfl rfl
    | agentAssignment =>
      obtain ⟨pending, hassign⟩ := handleAgentAssignment_eq d nid node frame
      exact ends_pure fun world h => h.handed (by rw [hassign]) rfl
    | conditional =>
      have hdec : Ends (Ordered above (frame, state)) (handleConditional svc d nid node frame)
          (fun frame' world => frame'.nodeTaskIds = frame.nodeTaskIds ∧
            Ordered above (frame, state) world) Kept :=
        ends_bind (ends_orRaise Ordered.kept) fun result =>
          ends_pure fun world h => ⟨rfl, h⟩
      exact ends_bind hdec fun frame' => ends_pure fun world h => h.2.handed h.1 rfl
    | subworkflow => exact ends_processSubworkflowNode hc
    | task => exact ends_bind ends_processTaskNode fun out => ends_pure fun world h => h
  refine ends_bind (ends_orElseRaise Ordered.kept) fun node => ?_
  split
  · exact ends_pure fun world h => hrec (_, _, _) world (h.handed rfl rfl)
  · exact ends_bind (hnode node) fun out => ends_pure fun world h => hrec out world h

end Round

/-- RUN LEMMA: a walk keeps the list ordered, and what the frames above hold
known. -/
theorem ends_walkFrame (levels : Nat) (above : NodeTaskIds) (d : WorkflowDefinition)
    (depth : Nat) (qualifier : String) (vars : Vars) (state : WalkState) :
    Ends (fun world => Earlier world.created ∧ Known world.created above ∧
        Known world.created state.nodeTaskIds)
      (walkFrame svc req levels d depth qualifier vars state) (Ordered above) Kept := by
  have hn : ∀ (walkChild : WalkChild) (_ : ∀ above child depth qualifier vars state,
        Ends (fun world => Earlier world.created ∧ Known world.created above ∧
            Known world.created state.nodeTaskIds)
          (walkChild child depth qualifier vars state) (Ordered above) Kept)
      (above : NodeTaskIds) (d : WorkflowDefinition) (depth : Nat) (qualifier : String)
      (vars : Vars) (state : WalkState),
      Ends (fun world => Earlier world.created ∧ Known world.created above ∧
          Known world.created state.nodeTaskIds)
        (walkNodes svc req walkChild d depth qualifier vars state) (Ordered above) Kept := by
    intro walkChild hc above d depth qualifier vars state
    refine ends_bind (ends_orElseRaise fun world h => h.1) fun order => ?_
    refine (ends_foldlM (fun at_ nid => ends_walkNode hc at_) order _).weaken ?_ (fun _ _ h => h)
    intro world h
    exact ⟨h.1, h.2.1, known_nil _, h.2.2⟩
  induction levels generalizing above d depth qualifier vars state with
  | zero =>
    exact hn _ (fun _ _ _ _ _ _ => ends_throw fun world h => h.1) above d depth
      qualifier vars state
  | succ levels ih => exact hn _ ih above d depth qualifier vars state

/-- An activation created its tasks in an order in which dependencies point back. -/
theorem activate_earlier (definitionId : String) (context : Vars) (hs : world.created = []) :
    Earlier (left (activate svc req definitionId context world)).created := by
  have hends : Ends (fun w => w.created = []) (activate svc req definitionId context)
      (fun _ => Kept) Kept := by
    have hnone : ∀ w : World, w.created = [] → Kept w := by
      intro w hw
      show Earlier w.created
      rw [hw]
      exact earlier_nil
    refine ends_bind (ends_orRaise hnone) fun d => ?_
    have hwalk : Ends (fun w => w.created = [])
        (walkFrame svc req svc.maxSubworkflowDepth d 0 "" context {}) (fun _ => Kept) Kept :=
      (ends_walkFrame svc.maxSubworkflowDepth [] d 0 "" context {}).weaken
        (fun w hw => ⟨hnone w hw, known_nil _, known_nil _⟩) (fun _ _ h => h.earlier)
    refine ends_bind hwalk fun walked => ?_
    refine ends_bind (ends_orElseRaise (P := Kept) fun w h => h) fun execution => ?_
    refine ends_bind (R := fun _ => Kept) ?_ fun _ => ends_pure fun _ h => h
    intro w hw
    cases hsave : saveExecution svc execution w with
    | ok u w' =>
      show Earlier w'.created
      rw [(saveExecution_ok hsave).2]
      exact hw
    | error e w' => exact saveExecution_error hsave ▸ hw
  exact hends.left hs

end Synthorg.Workflow
