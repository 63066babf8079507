/-
What a move leaves behind.

A move that raises has either landed no hop, and then nothing was written for it, or one of two
things came between its hops: another writer touched the task, or the engine did not serve it.

No more than that holds: other writers are not throttled, and a walk is not undone
(`moves_let_down`).
-/
import Mathlib.Data.List.Perm.Subperm
import Synthorg.Kanban.Service

namespace Synthorg.Kanban

open Synthorg.Core Lib TaskEngine

-- ==== what a hop needs

variable {row : TaskFields} {target : TaskStatus}

theorem coherent_transition (h : row.Coherent) (hassigned : row.assignedTo ≠ none)
    (hop : taskMachine.Allows row.status target) : (row.transitionPayload target []).Coherent := by
  have ht : target ≠ .created := fun heq => not_allows_created row.status (heq ▸ hop)
  unfold TaskFields.transitionPayload
  by_cases hb : target = .blocked
  · rw [if_neg (not_not_intro hb)]
    exact ⟨h.fields, h.deadline, h.no_self_dependency, h.dependencies_nodup,
      h.reviewers_nodup, h.not_own_parent, h.delegation_nodup, h.assignee_not_delegate,
      fun hc => absurd hc ht, fun _ => hassigned, fun _ _ => hb,
      h.plan_linked⟩
  · rw [if_pos hb]
    exact ⟨h.fields, h.deadline, h.no_self_dependency, h.dependencies_nodup,
      h.reviewers_nodup, h.not_own_parent, h.delegation_nodup, h.assignee_not_delegate,
      fun hc => absurd hc ht, fun _ => hassigned,
      fun _ hr => (by cases hr), h.plan_linked⟩

/-- What stands in the way of a hop. -/
def Refusable (s : EngineState) (env : TurnEnv) (taskId : String) (target : TaskStatus) : Prop :=
  env.readRaises = true ∨ env.saveRaises = true ∨
    ∀ row, s.tasks taskId = some row → row.assignedTo ≠ none →
      ¬ taskMachine.Allows row.status target

/-- Everything a hop can come to. -/
inductive Hopped (env : TurnEnv) (taskId : String) (target : TaskStatus) (s : EngineState) :
    MutationOutcome → EngineState → Prop
  | landed (before after : Task) (version : Nat) (versions : VersionTracker)
      (hrow : s.tasks taskId = some before.toTaskFields)
      (hop : taskMachine.Allows before.status target)
      (hfields : after.toTaskFields = before.toTaskFields.transitionPayload target []) :
      Hopped env taskId target s (.success (some after) version (some before.status))
        ((s.save after).withVersions versions)
  | refused (e : MutationError) (hwhy : Refusable s env taskId target) :
      Hopped env taskId target s (.failure e) s

theorem refusable_of_get {s : EngineState} (hs : s.Sound) {env : TurnEnv} {taskId : String}
    (hget : ∀ task, s.get env taskId ≠ some (some task)) : Refusable s env taskId target := by
  by_cases hread : env.readRaises = true
  · exact .inl hread
  · refine .inr (.inr fun row hrow => ?_)
    have hok : Task.modelValidate row [] = .ok ⟨row, hs.coherent taskId row hrow⟩ :=
      (Task.modelValidate_ok_iff row [] _).2 ⟨rfl, rfl⟩
    refine absurd ?_ (hget ⟨row, hs.coherent taskId row hrow⟩)
    rw [EngineState.get, if_neg hread, hrow]
    dsimp only
    rw [hok]

/-- INVERSION of a hop. -/
theorem hopped {s : EngineState} (hs : s.Sound) (env : TurnEnv) (requestId taskId : String)
    (target : TaskStatus) :
    Hopped env taskId target s (result s (hopRequest env requestId taskId target)).outcome
      (TaskEngine.step s (hopRequest env requestId taskId target)) := by
  have hd : Hopped env taskId target s
      (applyTransition env taskId target ⟨[], rfl⟩ ⟨none, by simp⟩ s).answer
      (applyTransition env taskId target ⟨[], rfl⟩ ⟨none, by simp⟩ s).state := by
    unfold applyTransition readAndCheck
    split
    next hget => exact .refused .internal (refusable_of_get hs (by simp [hget]))
    next hget => exact .refused _ (refusable_of_get hs (by simp [hget]))
    next task hget =>
      obtain ⟨-, hrow⟩ := EngineState.get_eq_task hget
      show Hopped env taskId target s (transitionRead env taskId target [] task s).answer
        (transitionRead env taskId target [] task s).state
      unfold transitionRead
      split
      next e he =>
        refine .refused (.validation e) (.inr (.inr ?_))
        intro row hrow' hassigned hop
        rw [hrow, Option.some.injEq] at hrow'
        rw [← hrow'] at hassigned hop
        have hc := coherent_transition task.coherent hassigned hop
        have hok := (task.withTransition_ok_iff target [] ⟨_, hc⟩).2
          ⟨List.not_mem_nil, hop, rfl, rfl⟩
        simp [hok] at he
      next after ha =>
        obtain ⟨-, hop, -, hf⟩ := (task.withTransition_ok_iff target [] after).1 ha
        unfold saveAndBump
        split
        next hsave => exact .refused .internal (.inr (.inl hsave))
        next => exact .landed task after _ _ hrow hop hf
  exact hd

-- ==== what a hop does

section Landed

variable {s : EngineState} {before after : Task} {taskId : String} {target : TaskStatus}

theorem landed_status (h : after.toTaskFields = before.toTaskFields.transitionPayload target []) :
    after.status = target := by
  rw [h]
  rfl

theorem landed_assignedTo
    (h : after.toTaskFields = before.toTaskFields.transitionPayload target []) :
    after.assignedTo = before.assignedTo := by
  rw [h]
  unfold TaskFields.transitionPayload
  split <;> rfl

theorem landed_tasks (hs : s.Sound) (hrow : s.tasks taskId = some before.toTaskFields)
    (h : after.toTaskFields = before.toTaskFields.transitionPayload target [])
    (versions : VersionTracker) : ((s.save after).withVersions versions).tasks =
      Function.update s.tasks taskId (some after.toTaskFields) := by
  have hid : after.id.text = taskId := by
    have hsame : after.id = before.id := by
      rw [h]
      unfold TaskFields.transitionPayload
      split <;> rfl
    rw [hsame]
    exact hs.keyed taskId before.toTaskFields hrow
  have hc : after.createdAt = before.createdAt := by
    rw [h]
    unfold TaskFields.transitionPayload
    split <;> rfl
  show Function.update s.tasks after.id.text
    (some (EngineState.upsertRow (s.tasks after.id.text) after)) = _
  rw [hid, hrow]
  show Function.update s.tasks taskId
    (some { after.toTaskFields with createdAt := before.createdAt }) = _
  rw [← hc]

end Landed

open Function (update update_self update_of_ne)
open List

-- ==== the columns

section Columns

variable (s : Store) (column : KanbanColumn)

theorem mem_withStatus (status : TaskStatus) (id : String) : id ∈ s.withStatus status ↔
      ∃ row, s.engine.tasks id = some row ∧ row.status = status := by
  unfold Store.withStatus
  rw [mem_filter, decide_eq_true_eq, Option.map_eq_some_iff]
  constructor
  · exact And.right
  · intro hrow
    have ⟨row, hid, _⟩ := hrow
    exact ⟨s.covers id (by simp [hid]), hrow⟩

theorem mem_inColumn (id : String) : id ∈ s.inColumn column ↔
      ∃ row, s.engine.tasks id = some row ∧ row.status ∈ COLUMN_TO_STATUSES column := by
  unfold Store.inColumn
  simp only [mem_flatMap, mem_withStatus]
  constructor
  · intro ⟨status, hs, row, hrow, heq⟩
    exact ⟨row, hrow, heq ▸ hs⟩
  · intro ⟨row, hrow, hs⟩
    exact ⟨row.status, hs, row, hrow, rfl⟩

theorem inColumn_eq : ∃ status, s.inColumn column = s.withStatus status ∧
    columnTasks s column = s.query status := by
  cases column <;> exact ⟨_, append_nil _, append_nil _⟩

theorem nodup_inColumn : (s.inColumn column).Nodup := by
  obtain ⟨status, heq, -⟩ := inColumn_eq s column
  rw [heq]
  exact s.nodup.filter _

theorem length_columnTasks :
    (columnTasks s column).length = min DEFAULT_PAGE_SIZE (s.inColumn column).length := by
  obtain ⟨status, hids, ht⟩ := inColumn_eq s column
  have hall : ∀ ids : List String, (∀ id ∈ ids, s.engine.tasks id ≠ none) →
      (ids.filterMap s.engine.tasks).length = ids.length := by
    intro ids
    induction ids with
    | nil => exact fun _ => rfl
    | cons id ids ih =>
      intro hrows
      obtain ⟨row, hrow⟩ := Option.ne_none_iff_exists'.1 (hrows id mem_cons_self)
      rw [filterMap_cons_some hrow, length_cons, length_cons,
        ih fun i hi => hrows i (mem_cons_of_mem id hi)]
  rw [ht, hids, Store.query, length_take, length_insertionSort, hall]
  intro id hid
  obtain ⟨row, hrow, -⟩ := (mem_withStatus s status id).1 hid
  rw [hrow]
  simp

end Columns

variable {config : KanbanConfig} {limit : Nat} {r : Request} {store' : Store} {s : Store}
  {store : Store}

theorem findColumnLimit_le {column : KanbanColumn}
    (h : findColumnLimit config column = some limit) : limit ≤ DEFAULT_PAGE_SIZE := by
  obtain ⟨wl, -, hl⟩ := Option.map_eq_some_iff.1 h
  rw [← hl]
  exact wl.bounds.2

theorem room_of_allowed {column : KanbanColumn}
    (h : (checkWipLimit config column (columnTasks s column).length).allowed = true)
    (he : config.enforceWip = true) (hl : findColumnLimit config column = some limit) :
    (s.inColumn column).length + 1 ≤ limit := by
  unfold checkWipLimit at h
  rw [hl] at h
  have hpage := findColumnLimit_le hl
  rw [length_columnTasks] at h
  dsimp only at h
  split at h
  next => cases h
  next hroom =>
    simp only [he, and_true] at hroom
    omega

-- ==== between two events

/-- A row past CREATED stays past it. -/
def Advances (before after : Store) : Prop :=
  ∀ id ∈ before.ids, id ∈ after.ids ∧
    ((∀ row, before.engine.tasks id = some row → row.status ≠ .created) →
      ∀ row, after.engine.tasks id = some row → row.status ≠ .created)

theorem Advances.refl (s : Store) : Advances s s := fun _ hid => ⟨hid, id⟩

theorem mem_filedIds {id : String} (h : id ∈ s.ids) : id ∈ filedIds s r := by
  unfold filedIds
  split <;> simp [h]

def Drawn (s : State) : Event → Prop
  | .serve r => r.env.newId.text ∉ s.store.ids
  | _ => True

/-- A row leaves CREATED for good. -/
theorem advances_process (hd : r.env.newId.text ∉ s.ids) : Advances s (s.process r) := by
  intro id hid
  refine ⟨mem_filedIds hid, fun hpast row' hrow' => ?_⟩
  have hf : FreshIn s.engine r := by
    by_contra ht
    exact hd (s.covers _ ht)
  have hlife := lifeStep_step s.sound hf id
  replace hrow' : (TaskEngine.step s.engine r).tasks id = some row' := hrow'
  rw [hrow'] at hlife
  cases hrow : s.engine.tasks id with
  | none =>
    -- no row is filed under an id that was drawn before
    have hne : id ≠ r.env.newId.text := fun heq => hd (heq ▸ hid)
    simp [tasks_step_of_none s.sound hrow hne] at hrow'
  | some row =>
    rw [hrow] at hlife
    cases hlife with
    | kept _ _ _ _ hop =>
      rcases hop with hsame | hop
      · rw [hsame]
        exact hpast row hrow
      · intro hc
        exact not_allows_created row.status (hc ▸ hop)

/-- A hop leads nowhere near CREATED. -/
theorem advances_hop {env : TurnEnv} {requestId taskId : String} (ht : target ≠ .created) :
    Advances s (s.process (hopRequest env requestId taskId target)) := by
  intro id hid
  refine ⟨mem_filedIds hid, fun hpast row' hrow' => ?_⟩
  have hhop := hopped s.sound env requestId taskId target
  replace hrow' : (TaskEngine.step s.engine (hopRequest env requestId taskId target)).tasks id =
    some row' := hrow'
  generalize (result s.engine (hopRequest env requestId taskId target)).outcome = out at hhop
  generalize TaskEngine.step s.engine (hopRequest env requestId taskId target) = t at hhop hrow'
  cases hhop with
  | refused e hwhy => exact hpast row' hrow'
  | landed before after version versions hrow hop hf =>
    rw [landed_tasks s.sound hrow hf] at hrow'
    by_cases hid : id = taskId
    · rw [hid, update_self, Option.some.injEq] at hrow'
      rw [← hrow', landed_status hf]
      exact ht
    · rw [update_of_ne hid] at hrow'
      exact hpast row' hrow'

-- ==== the invariant

/-- The task of a call that left the backlog is past CREATED. -/
structure MoveOk (store : Store) (move : Move) : Prop where
  known : move.taskId ∈ store.ids
  past : move.current ≠ .backlog →
    ∀ row, store.engine.tasks move.taskId = some row → row.status ≠ .created

theorem MoveOk.advance {move : Move} (h : MoveOk store move)
    (ha : Advances store store') : MoveOk store' move where
  known := (ha move.taskId h.known).1
  past hc := (ha move.taskId h.known).2 (h.past hc)

structure WalkOk (store : Store) (walk : Walk) : Prop where
  move : MoveOk store walk.toMove
  path : resolveTaskTransitions walk.current walk.target =
    some (walk.landed ++ walk.remaining)
  updated : ∀ status, walk.landed.getLast? = some status → walk.updated.status = status
  room : walk.config.enforceWip = true → ∀ limit,
    findColumnLimit walk.config walk.target = some limit → walk.counted.length + 1 ≤ limit
  column : ∀ id ∈ store.inColumn walk.target,
    id ∈ walk.counted ∨ id = walk.taskId ∨ id ∈ walk.arrived
  /-- Once begun and left alone, it can go on. -/
  poised : walk.landed ≠ [] → walk.disturbed = false → ∃ row,
    store.engine.tasks walk.taskId = some row ∧
      walk.landed.getLast? = some row.status ∧ row.assignedTo ≠ none

def StageOk (store : Store) : Stage → Prop
  | .idle => True
  | .validated move => MoveOk store move
  | .waiting move _ => MoveOk store move
  | .locked move _ => MoveOk store move
  | .walking walk => WalkOk store walk
  | .returned target task none _ => task.status ∈ COLUMN_TO_STATUSES target
  | .returned target task (some walk) population =>
    task.status ∈ landing target ∧ (walk.config.enforceWip = true → ∀ limit,
      findColumnLimit walk.config target = some limit →
        population ≤ limit + walk.arrived.length)
  | .raised none => True
  | .raised (some walk) => walk.landed = [] ∨ walk.disturbed = true

/-- The call is inside `_move_lock`. -/
def Stage.holds : Stage → Prop
  | .locked _ _ => True
  | .walking _ => True
  | _ => False

/-- THE INVARIANT of the board. -/
structure Inv (s : State) : Prop where
  exclusive : ∀ id, (s.calls id).holds → s.moveLock = some id
  stages : ∀ id, StageOk s.store (s.calls id)

-- ==== the steps

theorem setCall_self (s : State) (id : CallId) (stage : Stage) :
    (setCall s id stage).calls id = stage := update_self _ _ _

theorem setCall_of_ne (s : State) {id id' : CallId} (h : id' ≠ id) (stage : Stage) :
    (setCall s id stage).calls id' = s.calls id' := update_of_ne h _ _

theorem StageOk.advance {stage : Stage} (h : StageOk store stage) (ha : Advances store store')
    (hw : ∀ walk, stage ≠ .walking walk) : StageOk store' stage := by
  cases stage with
  | idle => trivial
  | validated move | waiting move config | locked move config => exact MoveOk.advance h ha
  | walking walk => exact absurd rfl (hw walk)
  | returned target task walk population =>
    cases walk with
    | none | some walk => exact h
  | raised walk =>
    cases walk with
    | none => trivial
    | some walk => exact h

namespace Inv

variable {s : State}

theorem leave (h : Inv s) (id : CallId) {stage : Stage} (hs : StageOk s.store stage)
    (hout : ¬ stage.holds) : Inv (setCall s id stage) where
  exclusive id' hh := by
    by_cases hid : id' = id
    · rw [hid, setCall_self] at hh
      exact absurd hh hout
    · rw [setCall_of_ne s hid] at hh
      exact h.exclusive id' hh
  stages id' := by
    by_cases hid : id' = id
    · rw [hid, setCall_self]
      exact hs
    · rw [setCall_of_ne s hid]
      exact h.stages id'

theorem inside (h : Inv s) {id : CallId} (hheld : s.moveLock = some id) {store : Store}
    (hadvances : Advances s.store store) {stage : Stage} (hstage : StageOk store stage) :
    Inv (setCall { s with store := store } id stage) ∧
      (¬ stage.holds → Inv (setCall (release { s with store := store }) id stage)) := by
  have ha : ∀ id', id' ≠ id → ¬ (s.calls id').holds := by
    intro id' hid hh
    have ho := h.exclusive id' hh
    rw [hheld, Option.some.injEq] at ho
    exact hid ho.symm
  have hs : ∀ id', StageOk store (update s.calls id stage id') := by
    refine (Function.forall_update_iff _ fun _ => StageOk store).2 ⟨hstage, fun id' hid => ?_⟩
    refine (h.stages id').advance hadvances fun walk hw => ha id' hid ?_
    rw [hw]
    trivial
  refine ⟨⟨fun id' hh => ?_, hs⟩, fun hout => ⟨fun id' hh => ?_, hs⟩⟩
  · by_cases hid : id' = id
    · rw [hid]
      exact hheld
    · rw [setCall_of_ne _ hid] at hh
      exact absurd hh (ha id' hid)
  · by_cases hid : id' = id
    · rw [hid, setCall_self] at hh
      exact absurd hh hout
    · rw [setCall_of_ne _ hid] at hh
      exact absurd hh (ha id' hid)

end Inv

theorem WalkOk.observe {walk : Walk} (h : WalkOk store walk)
    (ha : Advances store store') : WalkOk store' (walk.observe store store') where
  move := h.move.advance ha
  path := h.path
  updated := h.updated
  room := h.room
  column id hid := by
    by_cases hbefore : id ∈ store.inColumn walk.target
    · rcases h.column id hbefore with hc | hown | harrived
      · exact .inl hc
      · exact .inr (.inl hown)
      · exact .inr (.inr (mem_append_left _ harrived))
    · refine .inr (.inr (mem_append_right _ ?_))
      rw [mem_filter]
      exact ⟨hid, by simpa using hbefore⟩
  poised hb hleft := by
    replace hleft : (walk.disturbed || (walk.landed ≠ [] &&
      store'.engine.tasks walk.taskId ≠ store.engine.tasks walk.taskId)) = false := hleft
    replace hb : walk.landed ≠ [] := hb
    rw [Bool.or_eq_false_iff] at hleft
    have hsame : store'.engine.tasks walk.taskId = store.engine.tasks walk.taskId := by
      simpa [hb] using hleft.2
    obtain ⟨row, hrow, hrest⟩ := h.poised hb hleft.1
    exact ⟨row, hsame.trans hrow, hrest⟩

theorem path_assigned {current target : KanbanColumn} {path : List TaskStatus}
    (h : resolveTaskTransitions current target = some path) :
    ∀ status ∈ path, status = .blocked ∨ status ∈ requiresAssignee := by
  revert h
  cases current <;> cases target <;>
    simp +contextual [resolveTaskTransitions, COLUMN_MOVE_STATUS_PATH, eq_comm, requiresAssignee]

/-- Whoever can be blocked and is past CREATED is assigned. -/
theorem assigned_of_allows_blocked (h : row.Coherent)
    (hop : taskMachine.Allows row.status .blocked) (hpast : row.status ≠ .created) :
    row.assignedTo ≠ none := by
  refine h.assignee_named ?_
  revert hop hpast
  cases row.status <;> decide

namespace WalkOk

variable {store : Store} {walk : Walk} {status : TaskStatus} {rest : List TaskStatus}

theorem status_mem (hr : walk.remaining = status :: rest) :
    status ∈ walk.landed ++ walk.remaining := by
  rw [hr]
  simp

theorem not_refusable (h : WalkOk store walk) (hr : walk.remaining = status :: rest)
    (hb : walk.landed ≠ []) (hleft : walk.disturbed = false) {env : TurnEnv}
    (hwhy : Refusable store.engine env walk.taskId status) :
    env.readRaises = true ∨ env.saveRaises = true := by
  rcases hwhy with hread | hsave | href
  · exact .inl hread
  · exact .inr hsave
  · obtain ⟨row, hrow, hlast, hassigned⟩ := h.poised hb hleft
    have hc := path_isChain h.path
    rw [hr, isChain_append] at hc
    refine absurd ?_ (href row hrow hassigned)
    exact hc.2.2 row.status (by rw [hlast]; rfl) status rfl

theorem landed (h : WalkOk store walk) (hr : walk.remaining = status :: rest)
    {env : TurnEnv} {requestId : String} {before after : Task}
    (hrow : store.engine.tasks walk.taskId = some before.toTaskFields)
    (hop : taskMachine.Allows before.status status)
    (hf : after.toTaskFields = before.toTaskFields.transitionPayload status [])
    (ht : (TaskEngine.step store.engine
      (hopRequest env requestId walk.taskId status)).tasks =
        update store.engine.tasks walk.taskId (some after.toTaskFields)) :
    WalkOk (store.process (hopRequest env requestId walk.taskId status))
      { walk with remaining := rest, updated := after, landed := walk.landed ++ [status] } where
  move := h.move.advance (advances_hop fun hc =>
    created_notMem_path h.path (hc ▸ status_mem hr))
  path := by
    rw [h.path, hr]
    simp
  updated last hlast := by
    rw [List.getLast?_append_of_ne_nil _ (by simp), List.getLast?_singleton,
      Option.some.injEq] at hlast
    rw [← hlast]
    exact landed_status hf
  room := h.room
  column id hid := by
    by_cases hown : id = walk.taskId
    · exact .inr (.inl hown)
    · refine h.column id ?_
      rw [mem_inColumn] at hid ⊢
      obtain ⟨row, hrow', hs⟩ := hid
      refine ⟨row, ?_, hs⟩
      replace hrow' : (TaskEngine.step store.engine
        (hopRequest env requestId walk.taskId status)).tasks id = some row := hrow'
      rwa [ht, update_of_ne hown] at hrow'
  poised _ hleft := by
    refine ⟨after.toTaskFields, ?_, ?_, ?_⟩
    · show (TaskEngine.step store.engine _).tasks walk.taskId = _
      rw [ht, update_self]
    · rw [List.getLast?_append_of_ne_nil _ (by simp), List.getLast?_singleton, landed_status hf]
    · by_cases hb : walk.landed = []
      · rcases path_assigned h.path status (status_mem hr) with hblocked | hreq
        · -- the first hop is a park, so the walk did not come from the backlog
          rw [landed_assignedTo hf]
          rw [hblocked] at hop
          refine assigned_of_allows_blocked before.coherent hop (h.move.past ?_ _ hrow)
          intro hback
          have hhead := path_from_backlog h.path hback
          simp [hb, hr, hblocked] at hhead
        · exact after.coherent.assignee_named ((landed_status hf).symm ▸ hreq)
      · obtain ⟨row, hrow', -, hassigned⟩ := h.poised hb hleft
        rw [hrow, Option.some.injEq] at hrow'
        rw [landed_assignedTo hf, hrow']
        exact hassigned

/-- THE CEILING: what is in the column was counted, arrived, or is the task. -/
theorem population_le (h : WalkOk store walk) (he : walk.config.enforceWip = true)
    {limit : Nat} (hl : findColumnLimit walk.config walk.target = some limit) :
    (store.inColumn walk.target).length ≤ limit + walk.arrived.length := by
  have hsub : store.inColumn walk.target ⊆ walk.counted ++ walk.taskId :: walk.arrived := by
    intro id hid
    rcases h.column id hid with hc | hown | ha
    · exact mem_append_left _ hc
    · rw [hown]
      simp
    · simp [ha]
  have hlen := ((nodup_inColumn store walk.target).subperm hsub).length_le
  rw [length_append, length_cons] at hlen
  have hroom := h.room he limit hl
  omega

end WalkOk

namespace Inv

variable {s : State}

variable (h : Inv s)
include h

theorem serve {r : Request} (hd : r.env.newId.text ∉ s.store.ids) : Inv (serve s r) := by
  have ha := advances_process hd
  refine ⟨fun id hh => h.exclusive id ?_, fun id => ?_⟩
  · replace hh : ((s.calls id).observe s.store (s.store.process r)).holds := hh
    cases hcall : s.calls id <;> rw [hcall] at hh <;> exact hh
  · show StageOk (s.store.process r) ((s.calls id).observe s.store (s.store.process r))
    have hs := h.stages id
    cases hcall : s.calls id with
    | walking walk =>
      rw [hcall] at hs
      exact WalkOk.observe hs ha
    | _ =>
      rw [hcall] at hs
      exact hs.advance ha (by simp)

theorem call (id : CallId) (taskId : String) (target : KanbanColumn)
    (env : TurnEnv) : Inv (call s id taskId target env) := by
  unfold Kanban.call
  split
  next => exact h.leave id trivial (by simp [Stage.holds])
  next => exact h.leave id trivial (by simp [Stage.holds])
  next task hget =>
    have hrow := (EngineState.get_eq_task hget).2
    split
    next => exact h.leave id trivial (by simp [Stage.holds])
    next current hc =>
      rw [statusToColumn_iff] at hc
      split
      next hsame =>
        refine h.leave id ?_ (by simp [Stage.holds])
        show task.status ∈ COLUMN_TO_STATUSES target
        exact hsame ▸ hc
      next =>
        split
        next => exact h.leave id trivial (by simp [Stage.holds])
        next =>
          refine h.leave id ⟨s.store.covers taskId (by simp [hrow]), ?_⟩ (by simp [Stage.holds])
          intro hback row hrow' hcreated
          rw [hrow, Option.some.injEq] at hrow'
          rw [← statusToColumn_iff] at hc
          rw [← hrow'] at hcreated
          rw [hcreated] at hc
          exact hback (Option.some.inj hc).symm

theorem prepare (id : CallId) (workable : Bool) (settings : Option Settings) :
    Inv (prepare s id workable settings) := by
  unfold Kanban.prepare
  split
  next move hcall =>
    have hs := h.stages id
    rw [hcall] at hs
    split
    next => exact h.leave id trivial (by simp [Stage.holds])
    next =>
      split
      next => exact h.leave id trivial (by simp [Stage.holds])
      next => exact h.leave id hs (by simp [Stage.holds])
  next => exact h

theorem acquire (id : CallId) : Inv (acquire s id) := by
  unfold Kanban.acquire
  split
  next move config hcall hfree =>
    have hs := h.stages id
    rw [hcall] at hs
    have ha : ∀ id', ¬ (s.calls id').holds := by
      intro id' hh
      have hheld := h.exclusive id' hh
      simp [hfree] at hheld
    refine ⟨fun id' hh => ?_, fun id' => ?_⟩
    · by_cases hid : id' = id
      · rw [hid]
        rfl
      · rw [setCall_of_ne _ hid] at hh
        exact absurd hh (ha id')
    · by_cases hid : id' = id
      · rw [hid, setCall_self]
        exact hs
      · rw [setCall_of_ne _ hid]
        exact h.stages id'
  next => exact h

theorem count (id : CallId) (queryRaises : Bool) : Inv (count s id queryRaises) := by
  unfold Kanban.count
  split
  next move config hcall =>
    have hheld : s.moveLock = some id := h.exclusive id (by rw [hcall]; trivial)
    have hn : StageOk s.store (.raised none) := trivial
    have hr := (h.inside hheld (Advances.refl s.store) hn).2 (by simp [Stage.holds])
    have hmove := h.stages id
    rw [hcall] at hmove
    split
    next => exact hr
    next =>
      dsimp only
      split
      next ha =>
        split
        next => exact hr
        next path hpath =>
          refine (h.inside hheld (Advances.refl s.store) ?_).1
          exact
            { move := hmove
              path := hpath
              updated := nofun
              room := fun he limit hl => room_of_allowed ha he hl
              column := fun _ hid => .inl hid
              poised := fun hb => absurd rfl hb }
      next => exact hr
  next => exact h

/-- STEP LEMMA, of a hop. -/
theorem hop (id : CallId) (admitted : Bool) (env : TurnEnv) (requestId : String) :
    Inv (hop s id admitted env requestId) := by
  unfold Kanban.hop
  split
  next walk hcall =>
    have hheld : s.moveLock = some id := h.exclusive id (by rw [hcall]; trivial)
    have hwalk : WalkOk s.store walk := by
      have hs := h.stages id
      rw [hcall] at hs
      exact hs
    split
    next => exact h
    next status rest hr =>
      split
      next =>
        dsimp only
        have hc : status ≠ .created := fun heq =>
          created_notMem_path hwalk.path (heq ▸ WalkOk.status_mem hr)
        have ha : Advances s.store (s.store.process
          (hopRequest env requestId walk.taskId status)) := advances_hop hc
        have hhop := hopped s.store.sound env requestId walk.taskId status
        generalize hout : (result s.store.engine
          (hopRequest env requestId walk.taskId status)).outcome = out at hhop
        generalize hstatus : TaskEngine.step s.store.engine
          (hopRequest env requestId walk.taskId status) = t at hhop
        cases hhop with
        | landed before after version versions hrow hop hf =>
          refine (h.inside hheld ha ?_).1
          refine hwalk.landed hr hrow hop hf ?_
          rw [hstatus]
          exact landed_tasks s.store.sound hrow hf versions
        | refused e hwhy =>
          refine (h.inside hheld ha ?_).2 (by simp [Stage.holds])
          show walk.landed = [] ∨ (walk.disturbed || env.readRaises || env.saveRaises) = true
          by_cases hb : walk.landed = []
          · exact .inl hb
          · right
            cases hleft : walk.disturbed with
            | true => rfl
            | false =>
              have hfilter := hwalk.not_refusable hr hb hleft hwhy
              simpa using hfilter
      next =>
        have hraises : StageOk s.store (.raised (some { walk with disturbed := true })) := .inr rfl
        exact (h.inside hheld (Advances.refl s.store) hraises).2 (by simp [Stage.holds])
  next => exact h

theorem finish (id : CallId) : Inv (finish s id) := by
  unfold Kanban.finish
  split
  next walk hcall =>
    have hheld : s.moveLock = some id := h.exclusive id (by rw [hcall]; trivial)
    have hwalk : WalkOk s.store walk := by
      have hs := h.stages id
      rw [hcall] at hs
      exact hs
    split
    next hr =>
      obtain ⟨status, hland, hlast⟩ := path_lands hwalk.path
      rw [hr, append_nil] at hlast
      have hret : StageOk s.store (.returned walk.target walk.updated (some walk)
          (s.store.inColumn walk.target).length) := by
        refine ⟨?_, fun he limit hl => hwalk.population_le he hl⟩
        rw [hwalk.updated status hlast]
        exact hland
      exact (h.inside hheld (Advances.refl s.store) hret).2 (by simp [Stage.holds])
    next => exact h
  next => exact h

/-- STEP LEMMA: the invariant is kept. -/
theorem step {event : Event} (hd : Drawn s event) : Inv (step s event) := by
  cases event with
  | serve r => exact h.serve hd
  | call id taskId target env =>
    rw [Kanban.step]
    split
    next => exact h.call id taskId target env
    next => exact h
  | prepare id workable settings => exact h.prepare id workable settings
  | acquire id => exact h.acquire id
  | count id queryRaises => exact h.count id queryRaises
  | hop id admitted env requestId => exact h.hop id admitted env requestId
  | finish id => exact h.finish id

end Inv

theorem inv_opened (store : Store) : Inv (opened store) :=
  ⟨fun _ hh => absurd hh id, fun _ => trivial⟩

theorem tasks_step (s : State) (event : Event)
    (hw : (step s event).store.engine.tasks ≠ s.store.engine.tasks) :
    (∃ r, event = .serve r) ∨ ∃ id walk walk' status, s.calls id = .walking walk ∧
      (step s event).calls id = .walking walk' ∧ walk'.landed = walk.landed ++ [status] := by
  cases event with
  | serve r => exact .inl ⟨r, rfl⟩
  | call id taskId target env =>
    refine absurd ?_ hw
    rw [step]
    split
    next =>
      unfold call
      repeat' split
      all_goals rfl
    next => rfl
  | prepare id workable settings =>
    refine absurd ?_ hw
    rw [step, prepare]
    repeat' split
    all_goals rfl
  | acquire id =>
    refine absurd ?_ hw
    rw [step, acquire]
    split <;> rfl
  | count id queryRaises =>
    refine absurd ?_ hw
    rw [step, count]
    dsimp only
    repeat' split
    all_goals rfl
  | finish id =>
    refine absurd ?_ hw
    rw [step, finish]
    repeat' split
    all_goals rfl
  | hop id admitted env requestId =>
    right
    rw [step] at hw ⊢
    unfold hop at hw ⊢
    split at hw
    next walk hcall =>
      split at hw
      next => exact absurd rfl hw
      next status rest hr =>
        split at hw
        next ha =>
          dsimp only at hw
          have hhop := hopped s.store.sound env requestId walk.taskId status
          generalize hout : (result s.store.engine
            (hopRequest env requestId walk.taskId status)).outcome = out at hhop
          generalize hs : TaskEngine.step s.store.engine
            (hopRequest env requestId walk.taskId status) = t at hhop
          rw [hout] at hw
          cases hhop with
          | refused e hwhy =>
            refine absurd ?_ hw
            show (TaskEngine.step s.store.engine _).tasks = _
            rw [hs]
          | landed before after version versions hrow hop hf =>
            refine ⟨id, walk, { walk with
              remaining := rest
              updated := after
              landed := walk.landed ++ [status] }, status, hcall, ?_, rfl⟩
            simp only [if_pos ha, hout]
            exact setCall_self _ id _
        next => exact absurd rfl hw
    next => exact absurd rfl hw

/-- WHAT A MOVE LEAVES BEHIND. -/
structure MovesKept (s : State) : Prop where
  stayed : ∀ id target task population, s.calls id = .returned target task none population →
    task.status ∈ COLUMN_TO_STATUSES target
  moved : ∀ id target task walk population,
    s.calls id = .returned target task (some walk) population → task.status ∈ landing target
  /-- the column holds no more than its limit and what others brought -/
  ceiling : ∀ id target task walk population,
    s.calls id = .returned target task (some walk) population →
    walk.config.enforceWip = true → ∀ limit,
      findColumnLimit walk.config target = some limit → population ≤ limit + walk.arrived.length
  refused : ∀ id walk, s.calls id = .raised (some walk) →
    walk.landed = [] ∨ walk.disturbed = true

theorem Inv.kept {s : State} (h : Inv s) : MovesKept s where
  stayed id target task population hcall := by
    have hs := h.stages id
    rw [hcall] at hs
    exact hs
  moved id target task walk population hcall := by
    have hs := h.stages id
    rw [hcall] at hs
    exact hs.1
  ceiling id target task walk population hcall := by
    have hs := h.stages id
    rw [hcall] at hs
    exact hs.2
  refused id walk hcall := by
    have hs := h.stages id
    rw [hcall] at hs
    exact hs

/-- THE MOVES, over every run in which uuids are drawn once: only another writer or a hop that
lands writes a row. -/
theorem moves_kept {store : Store} {events : List Event}
    (hdrawn : Run.Throughout step Drawn (opened store) events) :
    (∀ s ∈ Run.states step (opened store) events, MovesKept s) ∧
      ∀ s ∈ Run.states step (opened store) events, ∀ event,
        (step s event).store.engine.tasks ≠ s.store.engine.tasks →
        (∃ r, event = .serve r) ∨ ∃ id walk walk' status, s.calls id = .walking walk ∧
          (step s event).calls id = .walking walk' ∧ walk'.landed = walk.landed ++ [status] := by
  refine ⟨fun s hs => ?_, fun s _ event hwrites => tasks_step s event hwrites⟩
  exact (Run.throughout_states (fun _ _ hok hinv => Inv.step hinv hok) hdrawn
    (inv_opened store) s hs).kept

-- ==== two other writers

def card (id : Uuid) (status : TaskStatus) : TaskFields :=
  { sampleTask with id := id, status := status, assignedTo := some "dev" }

def board (status : TaskStatus)
    (h : (card sampleId status).Coherent ∧ (card freshId status).Coherent) : Store where
  engine :=
    { tasks := fun id =>
        if id = sampleId.text then some (card sampleId status)
        else if id = freshId.text then some (card freshId status)
        else none
      versions := VersionTracker.empty }
  ids := [sampleId.text, freshId.text]
  sound := by
    refine ⟨fun id row hrow => ?_, fun id row hrow => ?_⟩ <;> dsimp only at hrow <;> split at hrow
    next => exact Option.some.inj hrow ▸ h.1
    next =>
      split at hrow
      next => exact Option.some.inj hrow ▸ h.2
      next => cases hrow
    next hid => exact Option.some.inj hrow ▸ hid.symm
    next =>
      split at hrow
      next hid => exact Option.some.inj hrow ▸ hid.symm
      next => cases hrow
  nodup := by decide
  covers id hrow := by
    dsimp only at hrow
    split at hrow
    next hid => simp [hid]
    next =>
      split at hrow
      next hid => simp [hid]
      next => exact absurd rfl hrow

def drawnId : Uuid := ⟨"5b0e9c74-18d2-4a6f-b3c7-e2f4a1905d68", by decide⟩

def oneInProgress : Settings := ⟨1, 3, true⟩

def answers : TurnEnv := { newId := drawnId, now := 1 }

/-- Between the two hops back to READY another writer takes the assignee away. -/
def unassignedMidway : List Event :=
  [.call 0 sampleId.text .ready answers, .prepare 0 true (some oneInProgress), .acquire 0,
    .count 0 false, .hop 0 true answers "req-1",
    .serve ⟨answers, .update "req-2" sampleId.text ⟨[.assignedTo none], by decide⟩
      ⟨none, unversioned⟩⟩,
    .hop 0 true answers "req-3"]

def startedMeanwhile : List Event :=
  [.call 0 sampleId.text .inProgress answers, .prepare 0 true (some oneInProgress), .acquire 0,
    .count 0 false,
    .serve ⟨answers, .transition "req-1" freshId.text .inProgress
      ⟨[], rejectImmutableFields_nil⟩ ⟨none, unversioned⟩⟩,
    .hop 0 true answers "req-2", .finish 0]

theorem moves_kept_startedMeanwhile :
    Run.Throughout step Drawn (opened (board .assigned (by decide))) startedMeanwhile ∧
      ∀ s ∈ Run.states step (opened (board .assigned (by decide))) startedMeanwhile,
        MovesKept s := by
  have hdrawn : Run.Throughout step Drawn (opened (board .assigned (by decide)))
      startedMeanwhile := by
    refine ⟨trivial, trivial, trivial, trivial, ?_, trivial, trivial, trivial⟩
    show drawnId.text ∉ [sampleId.text, freshId.text]
    decide
  exact ⟨hdrawn, (moves_kept hdrawn).1⟩

/-- No walk is undone and no writer held off: one move raises with its task parked, and the
other returns with two tasks where one may be. -/
theorem moves_let_down :
    (((board .inProgress (by decide)).engine.tasks sampleId.text).map TaskFields.status =
        some .inProgress ∧
      (∃ walk, (Run.final step (opened (board .inProgress (by decide)))
        unassignedMidway).calls 0 = .raised (some walk)) ∧
      ((Run.final step (opened (board .inProgress (by decide)))
        unassignedMidway).store.engine.tasks sampleId.text).map TaskFields.status =
          some .blocked) ∧
    ((board .assigned (by decide)).inColumn .inProgress = [] ∧
      ∃ task walk, (Run.final step (opened (board .assigned (by decide)))
        startedMeanwhile).calls 0 = .returned .inProgress task (some walk) 2 ∧
        walk.config.enforceWip = true ∧
        findColumnLimit walk.config .inProgress = some 1) :=
  ⟨⟨by decide, ⟨_, rfl⟩, by decide⟩, ⟨by decide, _, _, rfl, rfl, rfl⟩⟩

end Synthorg.Kanban
