/-
Executions from their activation to their end.

An activation leaves its execution launched (`activate_launched`): each TASK node that was not
skipped has its task, and each child graph was walked. From there `execution_settles` says what
any interleaving of events and operators makes of it; an operator's completion asks nothing of
the nodes.

`SettleInv` carries this through every run.
-/
import Synthorg.Workflow.Proofs.KeepsOrder

namespace Synthorg.Workflow

open Synthorg.Core Lib
open List

-- ==== what a write changes

namespace WorkflowExecution

def taskIds (e : WorkflowExecution) : List (Option String) :=
  e.nodeExecutions.map WorkflowNodeExecution.taskId

theorem hasTask_iff {e : WorkflowExecution} {taskId : String} :
    e.hasTask taskId = true ↔ some taskId ∈ e.taskIds := by
  unfold hasTask taskIds
  rw [any_eq_true, mem_map]
  simp only [decide_eq_true_eq]

theorem hasTask_congr {e e' : WorkflowExecution} (h : e.taskIds = e'.taskIds)
    (taskId : String) : e.hasTask taskId = e'.hasTask taskId := by
  rw [Bool.eq_iff_iff, hasTask_iff, hasTask_iff, h]

end WorkflowExecution

theorem WorkflowNodeExecution.forTask_taskId (ne : WorkflowNodeExecution) (taskId : String)
    (status : WorkflowNodeExecutionStatus) (hnew : status.taskLinked = true) :
    (ne.forTask taskId status hnew).taskId = ne.taskId := by
  unfold forTask
  split <;> rfl

/-- What a call's write keeps of the row it was made from. -/
structure Writes (e : OpenExecution) (updated : WorkflowExecution) : Prop where
  key : executionKey updated = executionKey e.val
  version : updated.version = e.val.version + 1
  taskIds : updated.taskIds = e.val.taskIds

structure RecordsEvent (event : TaskStateChanged) (e : OpenExecution)
    (updated : WorkflowExecution) : Prop where
  nodes : updated.nodeExecutions = e.val.nodeExecutions.map
    (·.forTask event.taskId event.expectedNodeStatus event.taskLinked_expected)
  failed : event.failed = true → updated.status = .failed
  completed : event.failed = false →
    (updated.allTasksCompleted = true ∧ updated.status = .completed) ∨
      updated.allTasksCompleted = false ∧ updated.status = e.val.status

section Write

variable {e : OpenExecution} {updated : WorkflowExecution} {now : Int}

variable {taskId : String} {status : WorkflowNodeExecutionStatus} {hnew : status.taskLinked = true}

theorem updateNodeStatus_eq {u : OpenExecution}
    (h : e.updateNodeStatus taskId status hnew now = some u) :
    executionKey u.val = executionKey e.val ∧ u.val.version = e.val.version + 1 ∧
      u.val.nodeExecutions = e.val.nodeExecutions.map (·.forTask taskId status hnew) ∧
        u.val.status = e.val.status := by
  unfold OpenExecution.updateNodeStatus at h
  split at h
  next =>
    obtain rfl := Option.some.inj h
    exact ⟨rfl, rfl, rfl, rfl⟩
  next => cases h

theorem taskIds_of_nodes
    (h : updated.nodeExecutions = e.val.nodeExecutions.map (·.forTask taskId status hnew)) :
    updated.taskIds = e.val.taskIds := by
  unfold WorkflowExecution.taskIds
  rw [h, map_map]
  exact map_congr_left fun ne _ => ne.forTask_taskId taskId status hnew

/-- SPEC of the two handlers. -/
theorem dispatchTaskHandler_some {event : TaskStateChanged}
    (h : dispatchTaskHandler e event now = some updated) :
    Writes e updated ∧ RecordsEvent event e updated := by
  unfold dispatchTaskHandler at h
  split at h
  next hfail =>
    obtain ⟨u, hu, rfl⟩ := Option.map_eq_some_iff.1 h
    obtain ⟨hkey, hv, hn, -⟩ := updateNodeStatus_eq hu
    have hexpected : event.expectedNodeStatus = .taskFailed := by
      unfold TaskStateChanged.expectedNodeStatus
      rw [if_pos hfail]
    refine ⟨⟨hkey, hv, taskIds_of_nodes hn⟩, ?_, fun _ => rfl, ?_⟩
    · simp only [hexpected]
      exact hn
    · intro hno
      simp [hfail] at hno
  next hfail =>
    obtain ⟨u, hu, hupdate⟩ := Option.map_eq_some_iff.1 h
    obtain ⟨hkey, hv, hn, hs⟩ := updateNodeStatus_eq hu
    have hexpected : event.expectedNodeStatus = .taskCompleted := by
      unfold TaskStateChanged.expectedNodeStatus
      rw [if_neg hfail]
    split at hupdate
    next hall =>
      subst hupdate
      refine ⟨⟨hkey, hv, taskIds_of_nodes hn⟩, ?_, ?_, fun _ => .inl ⟨hall, rfl⟩⟩
      · simp only [hexpected]
        exact hn
      · exact fun hyes => absurd hyes hfail
    next hall =>
      subst hupdate
      refine ⟨⟨hkey, hv, taskIds_of_nodes hn⟩, ?_, ?_, fun _ =>
        Or.inr ⟨by simpa using hall, hs⟩⟩
      · simp only [hexpected]
        exact hn
      · exact fun hyes => absurd hyes hfail

/-- SPEC of a write: an event is recorded, or an operator closes over the same nodes. -/
theorem write_some {call : Call} (h : call.write e now = some updated) : Writes e updated ∧
      ((∃ event, call = .taskStateChanged event ∧ RecordsEvent event e updated) ∨
        (∀ event, call ≠ .taskStateChanged event) ∧
          updated.nodeExecutions = e.val.nodeExecutions ∧ updated.status.terminal = true ∧
            (updated.status = .completed →
              ∃ executionId, call = .completeExecution executionId)) := by
  cases call with
  | taskStateChanged event =>
    obtain ⟨hw, hrecs⟩ := dispatchTaskHandler_some h
    exact ⟨hw, .inl ⟨event, rfl, hrecs⟩⟩
  | cancelExecution executionId =>
    obtain rfl := Option.some.inj h
    exact ⟨⟨rfl, rfl, rfl⟩, .inr ⟨(fun _ heq => by cases heq), rfl, rfl, fun hs => by cases hs⟩⟩
  | completeExecution executionId =>
    obtain rfl := Option.some.inj h
    exact ⟨⟨rfl, rfl, rfl⟩,
      Or.inr ⟨(fun _ heq => by cases heq), rfl, rfl, fun _ => ⟨executionId, rfl⟩⟩⟩
  | failExecution executionId error =>
    obtain rfl := Option.some.inj h
    exact ⟨⟨rfl, rfl, rfl⟩, .inr ⟨(fun _ heq => by cases heq), rfl, rfl, fun hs => by cases hs⟩⟩

theorem write_isSome {call : Call} (now : Int)
    (h : ∀ event, call = .taskStateChanged event → e.val.hasTask event.taskId = true) :
    ∃ updated, call.write e now = some updated := by
  cases call with
  | taskStateChanged event =>
    have hnode : ∀ status hnew, ∃ u, e.updateNodeStatus event.taskId status hnew now = some u := by
      intro status hnew
      unfold OpenExecution.updateNodeStatus
      rw [if_pos (h event rfl)]
      exact ⟨_, rfl⟩
    show ∃ updated, dispatchTaskHandler e event now = some updated
    unfold dispatchTaskHandler
    split
    · obtain ⟨u, hu⟩ := hnode .taskFailed rfl
      exact ⟨_, Option.map_eq_some_iff.2 ⟨u, hu, rfl⟩⟩
    · obtain ⟨u, hu⟩ := hnode .taskCompleted rfl
      exact ⟨_, Option.map_eq_some_iff.2 ⟨u, hu, rfl⟩⟩
  | cancelExecution executionId | completeExecution executionId | failExecution executionId error =>
    exact ⟨_, rfl⟩

end Write

-- ==== snapshots

/-- What a call in progress still holds. -/
def Stage.snapshot : Stage → Option OpenExecution
  | .read e => some e
  | .conflicted e => some e
  | .reread e => some e
  | .waiting => none
  | .done _ => none

structure Held (call : Call) (table : ExecutionTable) (e : OpenExecution) : Prop where
  positive : 1 ≤ e.val.version
  current : Versioned.Current executionKey WorkflowExecution.version table.rows e.val
  stored : ∃ r, table.get (executionKey e.val) = some r ∧ r.taskIds = e.val.taskIds
  task : ∀ event, call = .taskStateChanged event → e.val.hasTask event.taskId = true
  target : ∀ executionId, call = .completeExecution executionId →
    executionKey e.val = executionId

variable {table : ExecutionTable}

theorem ExecutionTable.mem_of_get {executionId : String} {e : WorkflowExecution}
    (h : table.get executionId = some e) : e ∈ table.rows ∧ executionKey e = executionId :=
  Keyed.lookup_mem h

theorem held_of_mem {call : Call} {e : OpenExecution} (hv : ∀ r ∈ table.rows, 1 ≤ r.version)
    (h : e.val ∈ table.rows)
    (htask : ∀ event, call = .taskStateChanged event → e.val.hasTask event.taskId = true)
    (ht : ∀ executionId, call = .completeExecution executionId →
      executionKey e.val = executionId) : Held call table e :=
  ⟨hv e.val h, Versioned.current_of_mem table.ids_distinct h,
    ⟨e.val, Keyed.lookup_key table.ids_distinct h, rfl⟩, htask, ht⟩

section Save

variable {call : Call} {table : ExecutionTable} {e : OpenExecution} {now : Int}
  {onConflict : Stage}

structure Landed (call : Call) (table : ExecutionTable) (e : OpenExecution) (now : Int)
    (table' : ExecutionTable) (updated : WorkflowExecution) : Prop where
  write : call.write e now = some updated
  stored : table.get (executionKey e.val) = some e.val
  update : Versioned.update executionKey WorkflowExecution.version updated table.rows =
    .ok table'.rows
  rows : table'.rows = Versioned.put executionKey updated table.rows

/-- SPEC of a save from a snapshot: it lands, or it lost its race. -/
theorem saveFrom_cases (h : Held call table e) :
    call.saveFrom e table now onConflict = (table, onConflict) ∨
      ∃ table' updated, call.saveFrom e table now onConflict = (table', .done (.saved updated)) ∧
        Landed call table e now table' updated := by
  obtain ⟨updated, hwrite⟩ := write_isSome now h.task
  obtain ⟨hw, -⟩ := write_some hwrite
  obtain ⟨stored, hs, -⟩ := h.stored
  have hl : updated.version ≠ 1 := by
    have hpos := h.positive
    have hv := hw.version
    omega
  unfold Call.saveFrom saveAs ExecutionTable.save
  rw [hwrite]
  dsimp only
  rw [if_neg hl]
  unfold ExecutionTable.update
  split
  next table' hsave =>
    split at hsave
    next rows hu =>
      obtain rfl := Except.ok.inj hsave
      obtain ⟨hbase, hrows⟩ := Versioned.stored_of_update h.current hw.key hw.version hu
      exact .inr ⟨_, updated, rfl, hwrite, hbase, hu, hrows⟩
    next => cases hsave
    next => cases hsave
  next => exact .inl rfl
  next hsave =>
    split at hsave
    next => cases hsave
    next hmiss =>
      unfold Versioned.update at hmiss
      rw [hw.key] at hmiss
      have hsome : Keyed.lookup executionKey table.rows (executionKey e.val) = some stored := hs
      rw [hsome] at hmiss
      dsimp only at hmiss
      split at hmiss <;> cases hmiss
    next => cases hsave
  next hsave =>
    split at hsave <;> cases hsave

end Save

-- ==== turns

inductive Advanced (party : Party) (table : ExecutionTable) (now : Int) :
    ExecutionTable → Stage → Prop
  | reads (h : party.stage = .waiting) :
      Advanced party table now table (party.call.firstRead table)
  | loses (e : OpenExecution) (h : party.stage = .read e) :
      Advanced party table now table (.conflicted e)
  | retries (e : OpenExecution) (event : TaskStateChanged)
      (hcall : party.call = .taskStateChanged event) (h : party.stage = .conflicted e) :
      Advanced party table now table (retryAfterVersionConflict event e table)
  | lost (h : ∀ outcome, party.stage ≠ .done outcome) :
      Advanced party table now table (.done .lostRace)
  | rests (outcome : Outcome) (h : party.stage = .done outcome) :
      Advanced party table now table (.done outcome)
  | lands (e : OpenExecution) (table' : ExecutionTable) (updated : WorkflowExecution)
      (h : party.stage.snapshot = some e) (hlanded : Landed party.call table e now table' updated) :
      Advanced party table now table' (.done (.saved updated))

/-- INVERSION of a turn of a call that holds a snapshot it may hold. -/
theorem advance_cases {party : Party} (now : Int)
    (h : ∀ e, party.stage.snapshot = some e → Held party.call table e) :
    Advanced party table now (party.advance table now).1 (party.advance table now).2 := by
  obtain ⟨call, stage⟩ := party
  cases stage with
  | waiting => exact .reads rfl
  | done outcome => exact .rests outcome rfl
  | conflicted e =>
    cases call with
    | taskStateChanged event => exact .retries e event rfl rfl
    | cancelExecution _ | completeExecution _ | failExecution _ _ =>
      exact .lost fun _ hs => by cases hs
  | reread e =>
    show Advanced _ table now (call.saveFrom e table now (.done .lostRace)).1
      (call.saveFrom e table now (.done .lostRace)).2
    rcases saveFrom_cases (h e rfl) with hlost | ⟨table', updated, hsaved, hland⟩
    · rw [hlost]
      exact .lost fun _ hs => by cases hs
    · rw [hsaved]
      exact .lands e table' updated rfl hland
  | read e =>
    have hheld := h e rfl
    have hoperator : Advanced { call := call, stage := .read e } table now
        (call.saveFrom e table now (.done .lostRace)).1
        (call.saveFrom e table now (.done .lostRace)).2 := by
      rcases saveFrom_cases hheld with hlost | ⟨table', updated, hsaved, hland⟩
      · rw [hlost]
        exact .lost fun _ hs => by cases hs
      · rw [hsaved]
        exact .lands e table' updated rfl hland
    cases call with
    | taskStateChanged event =>
      show Advanced _ table now
        (Call.saveFrom (.taskStateChanged event) e table now (.conflicted e)).1
        (Call.saveFrom (.taskStateChanged event) e table now (.conflicted e)).2
      rcases saveFrom_cases hheld with hlost | ⟨table', updated, hsaved, hland⟩
      · rw [hlost]
        exact .loses e rfl
      · rw [hsaved]
        exact .lands e table' updated rfl hland
    | cancelExecution _ | completeExecution _ | failExecution _ _ => exact hoperator

-- ==== the row

/-- Each TASK node not skipped has its task, none ended; child graphs were walked. -/
structure WorkflowExecution.Launched (e : WorkflowExecution) : Prop where
  running : e.status = .running
  task : ∀ ne ∈ e.nodeExecutions, ne.nodeType = .task →
    ne.status = .skipped ∨ ne.status = .taskCreated
  subworkflow : ∀ ne ∈ e.nodeExecutions, ne.nodeType = .subworkflow →
    ne.status = .skipped ∨ ne.status = .subworkflowCompleted
  some_task : ∃ ne ∈ e.nodeExecutions, ne.taskId.isSome

def RecordedTask (saved : Call → Prop) (taskId : String) : Prop :=
  ∃ event, saved (.taskStateChanged event) ∧ event.taskId = taskId

def NodeNow (saved : Call → Prop) (before now : WorkflowNodeExecution) : Prop :=
  now.nodeId = before.nodeId ∧ now.nodeType = before.nodeType ∧ now.taskId = before.taskId ∧
    ((now = before ∧ ∀ taskId, before.taskId = some taskId → ¬ RecordedTask saved taskId) ∨
      ∃ event, saved (.taskStateChanged event) ∧ before.taskId = some event.taskId ∧
        now.status = event.expectedNodeStatus)

/-- THE INVARIANT of an execution's row, given the calls that were saved. -/
structure RowInv (start : WorkflowExecution) (saved : Call → Prop) (row : WorkflowExecution) :
    Prop where
  nodes : Forall₂ (NodeNow saved) start.nodeExecutions row.nodeExecutions
  settled : row.status = .running ∨ row.status.terminal = true
  running : row.status = .running →
    row.allTasksCompleted = false ∧ ∀ ne ∈ row.nodeExecutions, ne.status ≠ .taskFailed
  completed : row.status = .completed →
    row.allTasksCompleted = true ∨ saved (.completeExecution (executionKey start))

section Row

variable {start row updated : WorkflowExecution} {saved saved' : Call → Prop}
  {event : TaskStateChanged}

theorem WorkflowExecution.Launched.unfinished (h : start.Launched) :
    start.allTasksCompleted = false := by
  obtain ⟨ne, hne, htask⟩ := h.some_task
  obtain ⟨taskId, htask⟩ := Option.isSome_iff_exists.1 htask
  obtain ⟨hl, htype⟩ := WorkflowNodeExecution.taskLinked_of_taskId htask
  have hc : ne.status = .taskCreated := by
    rcases h.task ne hne htype with hskip | hc
    · rw [hskip] at hl
      cases hl
    · exact hc
  unfold WorkflowExecution.allTasksCompleted
  rw [Bool.not_eq_false', any_eq_true]
  refine ⟨ne, hne, ?_⟩
  unfold WorkflowExecution.unfinished
  rw [hc, htype]
  rfl

theorem rowInv_start (h : start.Launched) : RowInv start (fun _ => False) start := by
  refine ⟨?_, .inl h.running, fun _ => ⟨h.unfinished, ?_⟩, ?_⟩
  · rw [forall₂_same]
    intro ne _
    refine ⟨rfl, rfl, rfl, .inl ⟨rfl, ?_⟩⟩
    rintro taskId - ⟨event, hsaved, -⟩
    exact hsaved
  · intro ne hne hfail
    have htype : ne.nodeType = .task := by
      have hl := ne.task_linked
      rw [hfail] at hl
      exact hl.1
    rcases h.task ne hne htype with hs | hs <;>
      · simp [hfail] at hs
  · intro hc
    simp [h.running] at hc

theorem RowInv.other (h : RowInv start saved row) {call : Call}
    (hsaved : ∀ c, saved' c ↔ saved c ∨ c = call)
    (hcall : ∀ event, call = .taskStateChanged event → start.hasTask event.taskId = false) :
    RowInv start saved' row := by
  refine ⟨?_, h.settled, h.running, fun hs => (h.completed hs).imp id fun hc =>
    (hsaved _).2 (.inl hc)⟩
  have hmem := (forall₂_and_left _ _).2 ⟨fun ne (hne : ne ∈ start.nodeExecutions) => hne, h.nodes⟩
  refine hmem.imp ?_
  rintro before now ⟨hin, hid, htype, htask, hnow⟩
  refine ⟨hid, htype, htask, ?_⟩
  rcases hnow with ⟨rfl, hnone⟩ | ⟨event, he, hof, hstatus⟩
  · refine .inl ⟨rfl, ?_⟩
    rintro taskId hof ⟨event, he, hid⟩
    rcases (hsaved _).1 he with hold | hnew
    · exact hnone taskId hof ⟨event, hold, hid⟩
    · have hno := hcall event hnew.symm
      have hyes : start.hasTask event.taskId = true := by
        rw [WorkflowExecution.hasTask_iff, hid, ← hof]
        exact mem_map.2 ⟨_, hin, rfl⟩
      simp [hyes] at hno
  · exact .inr ⟨event, (hsaved _).2 (.inl he), hof, hstatus⟩

theorem RowInv.close (h : RowInv start saved row) {call : Call}
    (hsaved : ∀ c, saved' c ↔ saved c ∨ c = call) (hcall : ∀ event, call ≠ .taskStateChanged event)
    (hn : updated.nodeExecutions = row.nodeExecutions) (hterm : updated.status.terminal = true)
    (hc : updated.status = .completed →
      call = .completeExecution (executionKey start)) : RowInv start saved' updated := by
  have hrow := h.other hsaved fun event heq => absurd heq (hcall event)
  refine ⟨hn ▸ hrow.nodes, .inr hterm, ?_, ?_⟩
  · intro hr
    rw [hr] at hterm
    cases hterm
  · intro hs
    exact .inr ((hsaved _).2 (.inr (hc hs).symm))

theorem NodeNow.record {before now : WorkflowNodeExecution} (h : NodeNow saved before now)
    (hs : ∀ c, saved' c ↔ saved c ∨ c = .taskStateChanged event) : NodeNow saved' before
      (now.forTask event.taskId event.expectedNodeStatus event.taskLinked_expected) := by
  obtain ⟨hid, htype, htask, hnow⟩ := h
  unfold WorkflowNodeExecution.forTask
  split
  next hof =>
    exact ⟨hid, htype, htask, .inr ⟨event, (hs _).2 (.inr rfl), htask.symm.trans hof, rfl⟩⟩
  next hnot =>
    refine ⟨hid, htype, htask, ?_⟩
    rcases hnow with ⟨rfl, hnone⟩ | ⟨event', he, hof, hstatus⟩
    · refine .inl ⟨rfl, ?_⟩
      rintro taskId hof ⟨event', he, hid⟩
      rcases (hs _).1 he with hold | hnew
      · exact hnone taskId hof ⟨event', hold, hid⟩
      · obtain rfl := Call.taskStateChanged.inj hnew
        exact hnot (hid ▸ hof)
    · exact .inr ⟨event', (hs _).2 (.inl he), hof, hstatus⟩

theorem RowInv.record {e : OpenExecution} (h : RowInv start saved e.val)
    (hsaved : ∀ c, saved' c ↔ saved c ∨ c = .taskStateChanged event)
    (hrecs : RecordsEvent event e updated) : RowInv start saved' updated := by
  have hr : e.val.status = .running := by
    rcases h.settled with hs | hs
    · exact hs
    · simp [e.property] at hs
  have hn : Forall₂ (NodeNow saved') start.nodeExecutions updated.nodeExecutions := by
    rw [hrecs.nodes, forall₂_map_right_iff]
    exact h.nodes.imp fun _ _ hnow => hnow.record hsaved
  cases hfail : event.failed with
  | true =>
    have hstatus := hrecs.failed hfail
    refine ⟨hn, .inr (by rw [hstatus]; rfl), ?_, ?_⟩ <;>
      · intro hs
        simp [hstatus] at hs
  | false =>
    rcases hrecs.completed hfail with ⟨hall, hstatus⟩ | ⟨hall, hstatus⟩
    · refine ⟨hn, .inr (by rw [hstatus]; rfl), ?_, fun _ => .inl hall⟩
      intro hs
      simp [hstatus] at hs
    · refine ⟨hn, .inl (hstatus.trans hr), fun _ => ⟨hall, ?_⟩, ?_⟩
      · intro ne hne
        rw [hrecs.nodes] at hne
        obtain ⟨old, hold, rfl⟩ := mem_map.1 hne
        unfold WorkflowNodeExecution.forTask
        split
        next =>
          intro hs
          have hexpected : event.expectedNodeStatus = .taskCompleted := by
            unfold TaskStateChanged.expectedNodeStatus
            rw [hfail]
            rfl
          cases hexpected.symm.trans hs
        next => exact (h.running hr).2 old hold
      · intro hs
        simp [hstatus, hr] at hs

theorem exists_before {R : WorkflowNodeExecution → WorkflowNodeExecution → Prop}
    {before now : List WorkflowNodeExecution} (h : Forall₂ R before now)
    {ne : WorkflowNodeExecution} (hne : ne ∈ now) : ∃ old ∈ before, R old ne := by
  induction h with
  | nil => cases hne
  | cons hab _ ih =>
    rcases mem_cons.1 hne with rfl | hmem
    · exact ⟨_, mem_cons_self, hab⟩
    · obtain ⟨old, hold, hR⟩ := ih hmem
      exact ⟨old, mem_cons_of_mem _ hold, hR⟩

theorem RowInv.terminal_of_recorded (h : RowInv start saved row) (hlaunched : start.Launched)
    (hall : ∀ taskId, start.hasTask taskId = true → RecordedTask saved taskId) :
    row.status.terminal = true := by
  rcases h.settled with hr | hterm
  · obtain ⟨hleft, hfail⟩ := h.running hr
    unfold WorkflowExecution.allTasksCompleted at hleft
    rw [Bool.not_eq_false', any_eq_true] at hleft
    obtain ⟨ne, hne, hu⟩ := hleft
    exfalso
    obtain ⟨before, hb, -, htype, -, hnow⟩ := exists_before h.nodes hne
    unfold WorkflowExecution.unfinished at hu
    simp only [decide_eq_true_eq] at hu
    obtain ⟨hskip, hu⟩ := hu
    -- a node with a task had its event recorded, so it is completed
    have hdone : ∀ taskId, before.taskId = some taskId → ne.status = .taskCompleted := by
      intro taskId hof
      have hhas : start.hasTask taskId = true := by
        rw [WorkflowExecution.hasTask_iff, ← hof]
        exact mem_map.2 ⟨before, hb, rfl⟩
      rcases hnow with ⟨-, hnone⟩ | ⟨event, -, -, hstatus⟩
      · exact absurd (hall taskId hhas) (hnone taskId hof)
      · have hno := hfail ne hne
        rw [hstatus] at hno ⊢
        unfold TaskStateChanged.expectedNodeStatus at hno ⊢
        split at hno
        next => exact absurd rfl hno
        next hc => rw [if_neg hc]
    cases hof : before.taskId with
    | some taskId =>
      have hc := hdone taskId hof
      have hn := (WorkflowNodeExecution.taskLinked_of_taskId hof).2
      rcases hu with ⟨-, hnot⟩ | ⟨hsub, -⟩
      · exact hnot hc
      · simp [htype, hn] at hsub
    | none =>
      have hsame : ne = before := by
        rcases hnow with ⟨hsame, -⟩ | ⟨event, -, hsome, -⟩
        · exact hsame
        · simp [hof] at hsome
      subst hsame
      rcases hu with ⟨htask, -⟩ | ⟨hsub, hnot⟩
      · rcases hlaunched.task ne hb htask with hs | hs
        · exact hskip hs
        · have hl := ne.task_linked
          rw [hs] at hl
          rw [hof] at hl
          exact absurd hl.2 (by simp)
      · rcases hlaunched.subworkflow ne hb hsub with hs | hs
        · exact hskip hs
        · exact hnot hs
  · exact hterm

end Row

-- ==== the system

def System.Saved (s : System) (call : Call) : Prop :=
  ∃ p ∈ s.parties, p.call = call ∧ ∃ row, p.stage = .done (.saved row)

def Answered (start : WorkflowExecution) (saved : Call → Prop) (row : WorkflowExecution)
    (p : Party) : Prop :=
  ∀ event outcome, p.call = .taskStateChanged event → event.concerns = true →
    start.hasTask event.taskId = true → p.stage = .done outcome → outcome ≠ .lostRace →
      row.status.terminal = true ∨ RecordedTask saved event.taskId

/-- THE INVARIANT of the system, seen from one execution. -/
structure SettleInv (start : WorkflowExecution) (s : System) (row : WorkflowExecution) : Prop where
  versioned : ∀ r ∈ s.table.rows, 1 ≤ r.version
  own : ∀ r ∈ s.table.rows, executionKey r ≠ executionKey start →
    ∀ taskId, start.hasTask taskId = true → r.hasTask taskId = false
  held : ∀ p ∈ s.parties, ∀ e, p.stage.snapshot = some e → Held p.call s.table e
  stored : s.table.get (executionKey start) = some row
  taskIds : row.taskIds = start.taskIds
  rowInv : RowInv start s.Saved row
  answered : ∀ p ∈ s.parties, Answered start s.Saved row p

section System

variable {start row : WorkflowExecution} {s : System}

theorem SettleInv.key_of_task (h : SettleInv start s row) {r : WorkflowExecution}
    (hr : r ∈ s.table.rows) {taskId : String} (htask : start.hasTask taskId = true)
    (hhas : r.hasTask taskId = true) : r = row := by
  by_cases hkey : executionKey r = executionKey start
  · have hlook := Keyed.lookup_key s.table.ids_distinct hr
    rw [hkey] at hlook
    exact Option.some.inj (hlook.symm.trans h.stored)
  · have hno := h.own r hr hkey taskId htask
    simp [hhas] at hno

theorem SettleInv.keep (h : SettleInv start s row) {parties : List Party}
    (hs : System.Saved { s with parties := parties } = s.Saved)
    (hheld : ∀ p ∈ parties, ∀ e, p.stage.snapshot = some e → Held p.call s.table e)
    (ha : ∀ p ∈ parties, Answered start s.Saved row p) :
    SettleInv start { s with parties := parties } row :=
  ⟨h.versioned, h.own, hheld, h.stored, h.taskIds, hs ▸ h.rowInv, hs ▸ ha⟩

theorem SettleInv.called (h : SettleInv start s row) (call : Call) :
    SettleInv start (s.step (.start call)) row := by
  have hparty : ∀ p ∈ s.parties ++ [({ call := call, stage := .waiting } : Party)],
      p ∈ s.parties ∨ p.stage = .waiting := by
    intro p hp
    rcases mem_append.1 hp with hp | hp
    · exact .inl hp
    · rw [mem_singleton.1 hp]
      exact .inr rfl
  refine h.keep ?_ ?_ ?_
  · funext c
    rw [eq_iff_iff]
    constructor
    · rintro ⟨p, hp, hcall, r, hr⟩
      rcases hparty p hp with hold | hwait
      · exact ⟨p, hold, hcall, r, hr⟩
      · simp [hwait] at hr
    · rintro ⟨p, hp, hrest⟩
      exact ⟨p, mem_append_left _ hp, hrest⟩
  · intro p hp e he
    rcases hparty p hp with hold | hwait
    · exact h.held p hold e he
    · rw [hwait] at he
      cases he
  · intro p hp event outcome hcall hc htask hdone
    rcases hparty p hp with hold | hwait
    · exact h.answered p hold event outcome hcall hc htask hdone
    · rw [hwait] at hdone
      cases hdone

section Turn

variable {i : Nat} {party : Party} {stage : Stage}

theorem done_kept (hi : s.parties[i]? = some party)
    (hdone : ∀ outcome, party.stage = .done outcome → stage = .done outcome) {p : Party}
    (hp : p ∈ s.parties) {outcome : Outcome} (hp' : p.stage = .done outcome) :
    p ∈ s.parties.set i { party with stage := stage } := by
  obtain ⟨j, hj, rfl⟩ := mem_iff_getElem.1 hp
  obtain ⟨hlt, hparty⟩ := List.getElem?_eq_some_iff.1 hi
  by_cases hij : i = j
  · subst hij
    rw [hparty] at hp' ⊢
    have hsame : ({ party with stage := stage } : Party) = party := by
      rw [hdone outcome hp', ← hp']
    rw [hsame, ← hparty, set_getElem_self]
    exact getElem_mem hlt
  · have hkept : (s.parties.set i { party with stage := stage })[j]? = s.parties[j]? :=
      getElem?_set_ne hij
    rw [getElem?_eq_getElem hj] at hkept
    exact mem_of_getElem? hkept

theorem SettleInv.quiet (h : SettleInv start s row) (hi : s.parties[i]? = some party)
    (hdone : ∀ outcome, party.stage = .done outcome → stage = .done outcome)
    (hnew : ∀ r, stage = .done (.saved r) → party.stage = .done (.saved r))
    (hheld : ∀ e, stage.snapshot = some e → Held party.call s.table e)
    (ha : Answered start s.Saved row { party with stage := stage }) :
    SettleInv start { s with parties := s.parties.set i { party with stage := stage } } row := by
  have hmem : party ∈ s.parties := mem_of_getElem? hi
  refine h.keep ?_ ?_ ?_
  · funext c
    rw [eq_iff_iff]
    constructor
    · rintro ⟨p, hp, hcall, r, hr⟩
      rcases mem_or_eq_of_mem_set hp with hold | rfl
      · exact ⟨p, hold, hcall, r, hr⟩
      · exact ⟨party, hmem, hcall, r, hnew r hr⟩
    · rintro ⟨p, hp, hcall, r, hr⟩
      exact ⟨p, done_kept hi hdone hp hr, hcall, r, hr⟩
  · intro p hp e he
    rcases mem_or_eq_of_mem_set hp with hold | rfl
    · exact h.held p hold e he
    · exact hheld e he
  · intro p hp
    rcases mem_or_eq_of_mem_set hp with hold | rfl
    · exact h.answered p hold
    · exact ha

theorem SettleInv.lands (h : SettleInv start s row) (hi : s.parties[i]? = some party)
    {e : OpenExecution} (he : party.stage.snapshot = some e) {table' : ExecutionTable}
    {updated : WorkflowExecution} {now : Int}
    (hland : Landed party.call s.table e now table' updated) :
    ∃ row', SettleInv start
        { table := table'
          parties := s.parties.set i { party with stage := .done (.saved updated) } } row' ∧
      (row.status.terminal = true → row' = row) := by
  have hmem : party ∈ s.parties := mem_of_getElem? hi
  have hopen : ∀ outcome, party.stage ≠ .done outcome := by
    intro outcome hdone
    rw [hdone] at he
    cases he
  have hheld := h.held party hmem e he
  obtain ⟨hw, hkind⟩ := write_some hland.write
  obtain ⟨hin, -⟩ := ExecutionTable.mem_of_get hland.stored
  have hsaved : ∀ c, System.Saved
      { table := table'
        parties := s.parties.set i { party with stage := .done (.saved updated) } } c ↔
      s.Saved c ∨ c = party.call := by
    intro c
    constructor
    · rintro ⟨p, hp, hcall, r, hr⟩
      rcases mem_or_eq_of_mem_set hp with hold | rfl
      · exact .inl ⟨p, hold, hcall, r, hr⟩
      · exact .inr hcall.symm
    · rintro (⟨p, hp, hcall, r, hr⟩ | rfl)
      · exact ⟨p, done_kept hi (fun o ho => absurd ho (hopen o)) hp hr, hcall, r, hr⟩
      · obtain ⟨hlt, -⟩ := List.getElem?_eq_some_iff.1 hi
        exact ⟨_, mem_set hlt _, rfl, updated, rfl⟩
  have hget : ∀ k, k ≠ executionKey e.val → table'.get k = s.table.get k := by
    intro k hk
    unfold ExecutionTable.get
    rw [hland.rows]
    exact Versioned.lookup_put_of_ne (by rw [hw.key]; exact hk)
  have hself : table'.get (executionKey e.val) = some updated := by
    unfold ExecutionTable.get
    rw [hland.rows, ← hw.key]
    exact Versioned.lookup_put_self (by rw [hw.key]; exact hland.stored)
  have hv : ∀ r ∈ table'.rows, 1 ≤ r.version := by
    intro r hr
    rw [hland.rows] at hr
    rcases Versioned.mem_put hr with rfl | hold
    · rw [hw.version]
      omega
    · exact h.versioned r hold
  have hown : ∀ r ∈ table'.rows, executionKey r ≠ executionKey start →
      ∀ taskId, start.hasTask taskId = true → r.hasTask taskId = false := by
    intro r hr hkey taskId htask
    rw [hland.rows] at hr
    rcases Versioned.mem_put hr with rfl | hold
    · rw [WorkflowExecution.hasTask_congr hw.taskIds]
      exact h.own e.val hin (hw.key ▸ hkey) taskId htask
    · exact h.own r hold hkey taskId htask
  have hheld' : ∀ p ∈ s.parties.set i { party with stage := .done (.saved updated) },
      ∀ sn, p.stage.snapshot = some sn → Held p.call table' sn := by
    intro p hp sn hsn
    rcases mem_or_eq_of_mem_set hp with hold | rfl
    · have hb := h.held p hold sn hsn
      refine ⟨hb.positive, hb.current.update hland.update, ?_, hb.task, hb.target⟩
      obtain ⟨r, hr, ht⟩ := hb.stored
      by_cases hkey : executionKey sn.val = executionKey e.val
      · rw [hkey] at hr ⊢
        obtain rfl := Option.some.inj (hland.stored.symm.trans hr)
        exact ⟨updated, hself, hw.taskIds.trans ht⟩
      · exact ⟨r, (hget _ hkey).trans hr, ht⟩
    · cases hsn
  have ha : ∀ row', (row.status.terminal = true → row' = row) →
      ∀ p ∈ s.parties.set i { party with stage := .done (.saved updated) },
        Answered start (System.Saved
          { table := table'
            parties := s.parties.set i { party with stage := .done (.saved updated) } })
          row' p := by
    intro row' hrow' p hp event outcome hcall hc htask hdone hlost
    rcases mem_or_eq_of_mem_set hp with hold | rfl
    · rcases h.answered p hold event outcome hcall hc htask hdone hlost with
        hterm | ⟨event', hevent, hid⟩
      · rw [hrow' hterm]
        exact .inl hterm
      · exact .inr ⟨event', (hsaved _).2 (.inl hevent), hid⟩
    · exact .inr ⟨event, (hsaved _).2 (.inr hcall.symm), rfl⟩
  by_cases hkey : executionKey e.val = executionKey start
  · -- the row itself was open, and is what was written from
    have hrow : row = e.val := by
      have hstored := hland.stored
      rw [hkey, h.stored] at hstored
      exact Option.some.inj hstored
    subst hrow
    have hterm : e.val.status.terminal = true → updated = e.val := by
      intro hyes
      rw [e.property] at hyes
      cases hyes
    refine ⟨updated, ⟨hv, hown, hheld', hkey ▸ hself, hw.taskIds.trans h.taskIds,
      ?_, ha updated hterm⟩, hterm⟩
    rcases hkind with ⟨event, hcall, hrecs⟩ | ⟨hevent, hn, hclose, hcompleted⟩
    · refine h.rowInv.record ?_ hrecs
      intro c
      rw [hsaved, hcall]
    · refine h.rowInv.close hsaved hevent hn hclose ?_
      intro hs
      obtain ⟨executionId, hcall⟩ := hcompleted hs
      rw [hcall, ← hheld.target executionId hcall, hkey]
  · refine ⟨row, ⟨hv, hown, hheld', (hget _ (Ne.symm hkey)).trans h.stored, h.taskIds,
      ?_, ha row fun _ => rfl⟩, fun _ => rfl⟩
    refine h.rowInv.other hsaved fun event hcall => ?_
    cases htask : start.hasTask event.taskId with
    | false => rfl
    | true =>
      have hno := h.own e.val hin hkey event.taskId htask
      rw [hheld.task event hcall] at hno
      cases hno

end Turn

inductive FirstRead (call : Call) (table : ExecutionTable) : Stage → Prop
  | ends (outcome : Outcome) (hnew : ∀ r, outcome ≠ .saved r)
      (hnone : ∀ event, call = .taskStateChanged event → event.concerns = true →
        table.findByTaskId event.taskId = none) : FirstRead call table (.done outcome)
  | holds (e : OpenExecution) (hin : e.val ∈ table.rows)
      (htask : ∀ event, call = .taskStateChanged event → e.val.hasTask event.taskId = true)
      (htarget : ∀ executionId, call = .completeExecution executionId →
        executionKey e.val = executionId) : FirstRead call table (.read e)

theorem firstRead_cases (call : Call) (table : ExecutionTable) :
    FirstRead call table (call.firstRead table) := by
  have hoperator : ∀ refused executionId, (∀ event, call ≠ .taskStateChanged event) →
      (∀ executionId', call = .completeExecution executionId' → executionId' = executionId) →
      FirstRead call table (openOr refused (table.get executionId)) := by
    intro refused executionId hcall ht
    cases hget : table.get executionId with
    | none => exact .ends .missing (fun _ h => by cases h) fun event h => absurd h (hcall event)
    | some r =>
      obtain ⟨hin, hkey⟩ := ExecutionTable.mem_of_get hget
      unfold openOr
      dsimp only
      split
      next h =>
        refine .holds ⟨r, h.2⟩ hin (fun event h => absurd h (hcall event)) ?_
        intro executionId' h
        rw [ht executionId' h]
        exact hkey
      next => exact .ends .refused (fun _ h => by cases h) fun event h => absurd h (hcall event)
  cases call with
  | taskStateChanged event =>
    unfold Call.firstRead
    dsimp only
    split
    next =>
      cases hfind : table.findByTaskId event.taskId with
      | none =>
        refine .ends .ignored (fun _ h => by cases h) ?_
        intro event' h _
        obtain rfl := Call.taskStateChanged.inj h
        exact hfind
      | some r =>
        have hin : r ∈ table.rows := mem_of_find?_eq_some hfind
        have hf := find?_some hfind
        simp only [decide_eq_true_eq] at hf
        have hopen : r.status.terminal = false := by
          rw [hf.1]
          rfl
        unfold openOr
        dsimp only
        rw [dif_pos ⟨rfl, hopen⟩]
        refine .holds ⟨r, hopen⟩ hin ?_ (fun _ h => by cases h)
        intro event' h
        obtain rfl := Call.taskStateChanged.inj h
        exact hf.2
    next hno =>
      refine .ends .ignored (fun _ h => by cases h) ?_
      intro event' h hyes
      obtain rfl := Call.taskStateChanged.inj h
      exact absurd hyes hno
  | cancelExecution executionId =>
    exact hoperator _ executionId (fun _ h => by cases h) (fun _ h => by cases h)
  | completeExecution executionId =>
    exact hoperator _ executionId (fun _ h => by cases h)
      (fun _ h => (Call.completeExecution.inj h).symm)
  | failExecution executionId error =>
    exact hoperator _ executionId (fun _ h => by cases h) (fun _ h => by cases h)

theorem SettleInv.terminal_of_find (h : SettleInv start s row) {taskId : String}
    (htask : start.hasTask taskId = true) (hnone : s.table.findByTaskId taskId = none) :
    row.status.terminal = true := by
  rcases h.rowInv.settled with hr | hterm
  · obtain ⟨hin, -⟩ := ExecutionTable.mem_of_get h.stored
    have hno := find?_eq_none.1 hnone row hin
    rw [decide_eq_true_eq] at hno
    refine absurd ⟨hr, ?_⟩ hno
    rw [WorkflowExecution.hasTask_congr h.taskIds]
    exact htask
  · exact hterm

theorem SettleInv.recorded_of_status (h : SettleInv start s row) (hlaunched : start.Launched)
    {event : TaskStateChanged}
    (hstatus : row.nodeStatusForTask event.taskId = some event.expectedNodeStatus) :
    RecordedTask s.Saved event.taskId := by
  obtain ⟨ne, hfind, hstatus⟩ := Option.map_eq_some_iff.1 hstatus
  have hne := mem_of_find?_eq_some hfind
  have hof : ne.taskId = some event.taskId := by simpa using find?_some hfind
  obtain ⟨before, hb, -, -, htask, hnow⟩ := exists_before h.rowInv.nodes hne
  rcases hnow with ⟨rfl, -⟩ | ⟨event', hsaved, hof', -⟩
  · obtain ⟨hl, htype⟩ := WorkflowNodeExecution.taskLinked_of_taskId hof
    rcases hlaunched.task ne hb htype with hs | hs
    · rw [hs] at hl
      cases hl
    · rw [hs] at hstatus
      unfold TaskStateChanged.expectedNodeStatus at hstatus
      split at hstatus <;> cases hstatus
  · refine ⟨event', hsaved, ?_⟩
    rw [← htask, hof] at hof'
    exact (Option.some.inj hof').symm

/-- STEP LEMMA: every action keeps the invariant, and a terminal row. -/
theorem SettleInv.step (h : SettleInv start s row) (hl : start.Launched) (action : Action) :
    ∃ row', SettleInv start (s.step action) row' ∧
      (row.status.terminal = true → row' = row) := by
  cases action with
  | start call => exact ⟨row, h.called call, fun _ => rfl⟩
  | turn i now =>
    unfold System.step
    dsimp only
    cases hi : s.parties[i]? with
    | none => exact ⟨row, h, fun _ => rfl⟩
    | some party =>
      have hmem : party ∈ s.parties := mem_of_getElem? hi
      have hturn := advance_cases now (h.held party hmem)
      dsimp only
      generalize party.advance s.table now = advanced at hturn ⊢
      obtain ⟨table', stage'⟩ := advanced
      dsimp only at hturn ⊢
      cases hturn with
      | lands e _ updated he hland => exact h.lands hi he hland
      | reads hstage =>
        have hread := firstRead_cases party.call s.table
        generalize party.call.firstRead s.table = stage' at hread ⊢
        have hwait : ∀ outcome, party.stage ≠ .done outcome := by
          intro outcome hdone
          simp [hstage] at hdone
        cases hread with
        | ends outcome hnew hnone =>
          refine ⟨row, h.quiet hi (fun o ho => absurd ho (hwait o)) ?_
            (fun e he => by cases he) ?_, fun _ => rfl⟩
          · intro r hr
            exact absurd (Stage.done.inj hr) (hnew r)
          · intro event outcome' hcall hconcerns htask _ _
            exact .inl (h.terminal_of_find htask (hnone event hcall hconcerns))
        | holds e hin htask ht =>
          refine ⟨row, h.quiet hi (fun o ho => absurd ho (hwait o))
            (fun r hs => by cases hs) ?_ ?_, fun _ => rfl⟩
          · intro e' he'
            obtain rfl := Option.some.inj he'
            exact held_of_mem h.versioned hin htask ht
          · intro event outcome _ _ _ hdone
            cases hdone
      | loses e hstage =>
        refine ⟨row, h.quiet hi ?_ (fun r hs => by cases hs) ?_ ?_, fun _ => rfl⟩
        · intro outcome hdone
          simp [hstage] at hdone
        · intro e' he'
          obtain rfl := Option.some.inj he'
          exact h.held party hmem e (by rw [hstage]; rfl)
        · intro event outcome _ _ _ hdone
          cases hdone
      | retries e event hcall hstage =>
        have hheld := h.held party hmem e (by rw [hstage]; rfl)
        obtain ⟨refreshed, hget, hd⟩ := hheld.stored
        obtain ⟨hin, -⟩ := ExecutionTable.mem_of_get hget
        have hhas : refreshed.hasTask event.taskId = true := by
          rw [WorkflowExecution.hasTask_congr hd]
          exact hheld.task event hcall
        have hc : ∀ outcome, party.stage ≠ .done outcome := by
          intro outcome hdone
          simp [hstage] at hdone
        have ha : ∀ {outcome : Outcome}, (start.hasTask event.taskId = true →
            row.status.terminal = true ∨ RecordedTask s.Saved event.taskId) →
            Answered start s.Saved row { party with stage := .done outcome } := by
          intro outcome hyes event' _ hcall' _ htask _ _
          obtain rfl := Call.taskStateChanged.inj (hcall.symm.trans hcall')
          exact hyes htask
        unfold retryAfterVersionConflict
        rw [hget]
        dsimp only
        split
        next hopen =>
          split
          next hstatus =>
            refine ⟨row, h.quiet hi (fun o ho => absurd ho (hc o))
              (fun r hs => by cases hs) (fun e he => by cases he)
              (ha fun htask => ?_), fun _ => rfl⟩
            obtain rfl := h.key_of_task hin htask hhas
            exact .inr (h.recorded_of_status hl hstatus)
          next =>
            refine ⟨row, h.quiet hi (fun o ho => absurd ho (hc o))
              (fun r hs => by cases hs) ?_ ?_, fun _ => rfl⟩
            · intro e' he'
              obtain rfl := Option.some.inj he'
              refine held_of_mem h.versioned hin ?_ ?_
              · intro event' hcall'
                obtain rfl := Call.taskStateChanged.inj (hcall.symm.trans hcall')
                exact hhas
              · intro executionId hcall'
                simp [hcall] at hcall'
            · intro event' outcome _ _ _ hdone
              cases hdone
        next hclose =>
          refine ⟨row, h.quiet hi (fun o ho => absurd ho (hc o))
            (fun r hs => by cases hs) (fun e he => by cases he)
            (ha fun htask => ?_), fun _ => rfl⟩
          obtain rfl := h.key_of_task hin htask hhas
          exact .inl (by simpa using hclose)
      | lost hopen =>
        refine ⟨row, h.quiet hi (fun o ho => absurd ho (hopen o)) (fun r hs => by cases hs)
          (fun e he => by cases he) ?_, fun _ => rfl⟩
        intro event outcome _ _ _ hdone hlost
        obtain rfl := Stage.done.inj hdone
        exact absurd rfl hlost
      | rests outcome hstage =>
        refine ⟨row, h.quiet hi ?_ ?_ (fun e he => by cases he) ?_, fun _ => rfl⟩
        · intro o ho
          rw [← hstage, ho]
        · intro r hr
          rw [hstage, hr]
        · rw [← hstage]
          exact h.answered party hmem

end System

-- ==== the launch

variable {svc : Service} {req : ActivationRequest}

/-- FROM ACTIVATION: an execution with a task starts out launched. -/
theorem activate_launched {definitionId : String} {context : Vars} {world world' : World}
    {execution : WorkflowExecution}
    (h : activate svc req definitionId context world = .ok execution world')
    (htask : ∃ ne ∈ execution.nodeExecutions, ne.taskId.isSome) : execution.Launched := by
  obtain ⟨d, w₁, -, hrest⟩ := Raise.bind_ok.1 h
  obtain ⟨⟨frame, state⟩, w₂, hwalk, hrest⟩ := Raise.bind_ok.1 hrest
  obtain ⟨built, w₃, hb, hrest⟩ := Raise.bind_ok.1 hrest
  obtain ⟨hbuilt, rfl⟩ := orElseRaise_ok hb
  obtain ⟨_, w₄, -, hrest⟩ := Raise.bind_ok.1 hrest
  obtain ⟨rfl, rfl⟩ := Raise.pure_ok.1 hrest
  have hrecs := walk_booked hwalk (by simp [WalkState.Booked])
  obtain ⟨hn, hs⟩ := WorkflowExecution.build_nodeExecutions hbuilt
  have hall : ∀ ne ∈ execution.nodeExecutions,
      RecordedNode ne ∧ (ne.taskId.isSome → state.nodeTaskIds ≠ []) := by
    intro ne hne
    rw [hn] at hne
    obtain ⟨key, -, hlook⟩ := mem_filterMap.1 hne
    exact hrecs _ (mem_of_lookup hlook)
  refine ⟨?_, ?_, ?_, htask⟩
  · obtain ⟨ne, hne, hsome⟩ := htask
    simp [hs, (hall ne hne).2 hsome]
  · intro ne hne htype
    cases (hall ne hne).1 with
    | control nodeId type hc =>
      obtain rfl : type = .task := htype
      cases hc
    | subworkflow nodeId => cases htype
    | skipped nodeId type => exact .inl rfl
    | task nodeId taskId => exact .inr rfl
  · intro ne hne htype
    cases (hall ne hne).1 with
    | control nodeId type hc =>
      obtain rfl : type = .subworkflow := htype
      cases hc
    | subworkflow nodeId => exact .inr rfl
    | skipped nodeId type => exact .inl rfl
    | task nodeId taskId => cases htype

theorem activate_launched_crossing : ∃ execution w,
    activate crossingService ⟨"project", "user"⟩ "workflow" [] emptyWorld = .ok execution w ∧
      execution.Launched := by
  have heval : (match activate crossingService ⟨"project", "user"⟩ "workflow" [] emptyWorld with
      | .ok execution _ => execution.nodeExecutions.any (·.taskId.isSome)
      | .error _ _ => false) = true := by
    decide +kernel
  cases hact : activate crossingService ⟨"project", "user"⟩ "workflow" [] emptyWorld with
  | error e w => simp [hact] at heval
  | ok execution w =>
    rw [hact] at heval
    exact ⟨execution, w, rfl, activate_launched hact (any_eq_true.1 heval)⟩

-- ==== any run

section Run

variable {start row : WorkflowExecution} {s : System}

/-- RUN LEMMA: the invariant along any interleaving, and a terminal row for
good. -/
theorem SettleInv.after (h : SettleInv start s row) (hl : start.Launched)
    (actions : List Action) : ∃ row', SettleInv start (s.after actions) row' ∧
      (row.status.terminal = true → row' = row) := by
  induction actions generalizing s row with
  | nil => exact ⟨row, h, fun _ => rfl⟩
  | cons action rest ih =>
    obtain ⟨row₁, hone, hkept₁⟩ := h.step hl action
    obtain ⟨row₂, htwo, hkept₂⟩ := ih hone
    refine ⟨row₂, htwo, fun hterm => ?_⟩
    have hsame := hkept₁ hterm
    subst hsame
    exact hkept₂ hterm

theorem settleInv_start (hl : start.Launched) (hqt : s.parties = [])
    (hs : s.table.get (executionKey start) = some start)
    (hv : ∀ r ∈ s.table.rows, 1 ≤ r.version)
    (hown : ∀ r ∈ s.table.rows, executionKey r ≠ executionKey start →
      ∀ taskId, start.hasTask taskId = true → r.hasTask taskId = false) :
    SettleInv start s start := by
  have hnone : s.Saved = fun _ => False := by
    funext call
    rw [eq_iff_iff, iff_false]
    rintro ⟨p, hp, -⟩
    simp [hqt] at hp
  refine ⟨hv, hown, ?_, hs, rfl, ?_, ?_⟩
  · intro p hp
    simp [hqt] at hp
  · rw [hnone]
    exact rowInv_start hl
  · intro p hp
    simp [hqt] at hp

end Run

/-- FROM ITS LAUNCH ON, under every interleaving: each node is as it was while no event of its
task was recorded, then in the status such an event implies; COMPLETED means that every task is,
or that an operator said so; a terminal row is never replaced; and once every task had an event
handled, without losing its race twice, it is terminal. -/
theorem execution_settles (start : WorkflowExecution) (s : System)
    (hlaunched : start.Launched) (hquiet : s.parties = [])
    (hstored : s.table.get (executionKey start) = some start)
    (hversion : ∀ r ∈ s.table.rows, 1 ≤ r.version)
    (hown : ∀ r ∈ s.table.rows, executionKey r ≠ executionKey start →
      ∀ taskId, start.hasTask taskId = true → r.hasTask taskId = false)
    (actions more : List Action) :
    ∃ row, (s.after actions).table.get (executionKey start) = some row ∧
      Forall₂ (NodeNow (s.after actions).Saved) start.nodeExecutions row.nodeExecutions ∧
        (row.status = .completed → row.allTasksCompleted = true ∨
            (s.after actions).Saved (.completeExecution (executionKey start))) ∧
          (row.status.terminal = true →
              ((s.after actions).after more).table.get (executionKey start) = some row) ∧
            ((∀ taskId, start.hasTask taskId = true → ∃ p ∈ (s.after actions).parties,
                ∃ event outcome, p.call = .taskStateChanged event ∧ event.taskId = taskId ∧
                  event.concerns = true ∧ p.stage = .done outcome ∧ outcome ≠ .lostRace) →
              row.status.terminal = true) := by
  have hstart := settleInv_start hlaunched hquiet hstored hversion hown
  obtain ⟨row, hrow, -⟩ := hstart.after hlaunched actions
  refine ⟨row, hrow.stored, hrow.rowInv.nodes, hrow.rowInv.completed, ?_, ?_⟩
  · intro hterminal
    obtain ⟨row', hlater, hkept⟩ := hrow.after hlaunched more
    rw [hlater.stored, hkept hterminal]
  · intro hhandled
    by_contra hopen
    refine hopen (hrow.rowInv.terminal_of_recorded hlaunched fun taskId htask => ?_)
    obtain ⟨p, hp, event, outcome, hcall, rfl, hconcerns, hdone, hlost⟩ :=
      hhandled taskId htask
    exact (hrow.answered p hp event outcome hcall hconcerns htask hdone hlost).resolve_left hopen

-- ==== an operator completes

/-- A RUNNING execution of one TASK node. -/
def oneTask : WorkflowExecution where
  id := plainId
  definitionId := "workflow"
  definitionRevision := 1
  status := .running
  nodeExecutions := [.taskCreated "first" "task-1"]
  activatedBy := "user"
  project := "project"
  createdAt := 0
  updatedAt := 0
  completed_at := rfl
  error_failed := by simp
  nodeIds_nodup := by decide

theorem oneTask_launched : oneTask.Launched :=
  ⟨rfl, by decide, by decide, by decide⟩

def oneTaskSystem : System where
  table :=
    { rows := [oneTask]
      ids_distinct := by
        unfold Keyed.Distinct
        exact nodup_singleton _ }

def completedEarly : List Action :=
  [.start (.completeExecution oneTask.id.text), .turn 0 1, .turn 0 2,
    .start (.taskStateChanged ⟨.transition, "task-1", some .failed⟩), .turn 1 3]

/-- Every call has ended, the execution is COMPLETED, and its TASK node is not. -/
theorem completed_over_created : oneTask.Launched ∧ ∃ row parties,
    oneTaskSystem.after completedEarly = ⟨⟨[row], nodup_singleton _⟩, parties⟩ ∧
      parties.map (fun p => (p.call, p.stage.outcome)) =
          [(.completeExecution (executionKey oneTask), some (.saved row)),
            (.taskStateChanged ⟨.transition, "task-1", some .failed⟩, some .ignored)] ∧
        row.status = .completed ∧ row.allTasksCompleted = false ∧
          row.nodeStatusForTask "task-1" = some .taskCreated :=
  ⟨oneTask_launched, _, _, rfl, rfl, rfl, rfl, rfl⟩

/-- The execution after the operator's call, and for good. -/
theorem execution_settles_oneTask : ∃ row,
    (oneTaskSystem.after completedEarly).table.get (executionKey oneTask) = some row ∧
      row.status.terminal = true ∧
        ((oneTaskSystem.after completedEarly).after completedEarly).table.get
          (executionKey oneTask) = some row := by
  have hown : ∀ r ∈ oneTaskSystem.table.rows, executionKey r ≠ executionKey oneTask →
      ∀ taskId, oneTask.hasTask taskId = true → r.hasTask taskId = false := by
    intro r hr hkey
    rw [mem_singleton.1 hr] at hkey
    exact absurd rfl hkey
  have hterminal : ((oneTaskSystem.after completedEarly).table.get
      (executionKey oneTask)).map (·.status.terminal) = some true := rfl
  obtain ⟨row, hget, -, -, hkept, -⟩ := execution_settles oneTask oneTaskSystem
    oneTask_launched rfl rfl (by decide) hown completedEarly completedEarly
  rw [hget] at hterminal
  have hclosed : row.status.terminal = true := Option.some.inj hterminal
  exact ⟨row, hget, hclosed, hkept hclosed⟩

end Synthorg.Workflow
