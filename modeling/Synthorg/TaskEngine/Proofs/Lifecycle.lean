/-
The life of a task row under the engine.

`Sound` is the store invariant: every row is coherent and filed under its
own id. `LifeStep` is the automaton one turn moves a row through: filed as
CREATED, rewritten along at most one hop of the table with its identity
kept, deleted. Both follow from `effect_of_processOne` alone, one case an
effect, and the run rules carry them to every sequence of mutations.

The one assumption about the world is the one `uuid4` makes: the ids a run
draws are distinct, and name no row of the store it starts from.
-/
import Synthorg.TaskEngine.Apply
import Synthorg.Lib.Run

namespace Synthorg.TaskEngine

section
open Synthorg.Core

-- ==== reading requests

def TaskMutation.taskId? : TaskMutation → Option String
  | .create _ _ => none
  | .update _ taskId _ _ => some taskId
  | .transition _ taskId _ _ _ => some taskId
  | .delete _ taskId => some taskId
  | .cancel _ taskId => some taskId

def TaskMutation.expectedVersion : TaskMutation → Option Nat
  | .update _ _ _ expected => expected.value
  | .transition _ _ _ _ expected => expected.value
  | _ => none

/-- Every kind but the update with nothing in it. -/
def TaskMutation.writes : TaskMutation → Bool
  | .update _ _ updates _ => updates.entries != []
  | _ => true

variable {m : TaskMutation} {s : EngineState} {taskId : String} {task : Task}
  {versions : VersionTracker}

theorem TaskMutation.expectedVersion_pos {v : Nat} (h : m.expectedVersion = some v) : 1 ≤ v := by
  cases m with
  | update r taskId updates expected => exact expected.positive v h
  | transition r taskId target overrides expected => exact expected.positive v h
  | create r data | delete r taskId | cancel r taskId => cases h

-- ==== the effect

def Checked (m : TaskMutation) (s : EngineState) (versions : VersionTracker) : Prop :=
  versions = s.versions ∨
    ∃ taskId, m.taskId? = some taskId ∧ m.expectedVersion ≠ none ∧
      s.tasks taskId ≠ none ∧ versions = s.versions.seed taskId

def VersionHeld (m : TaskMutation) (s : EngineState) (taskId : String) : Prop :=
  ∀ v, m.expectedVersion = some v → s.versions.current taskId = v

/-- Everything a turn can do to the engine. -/
inductive Effect (r : Request) (s : EngineState) : MutationOutcome → EngineState → Prop
  | failed (e : MutationError) (versions : VersionTracker)
      (hversions : Checked r.mutation s versions) :
      Effect r s (.failure e) (s.withVersions versions)
  | created (task : Task) (hkind : r.mutation.taskId? = none)
      (hwrites : r.mutation.writes = true) (hid : task.id = r.env.newId)
      (hstatus : task.status = .created) :
      Effect r s (.success (some task) 1 none)
        ((s.save task).withVersions (s.versions.setInitial task.id.text 1))
  | read (taskId : String) (task : Task) (versions : VersionTracker)
      (htask : r.mutation.taskId? = some taskId)
      (hrow : s.tasks taskId = some task.toTaskFields)
      (hread : r.env.readRaises = false) (hwrites : r.mutation.writes = false)
      (hheld : VersionHeld r.mutation s taskId)
      (hversions : versions =
        (s.versions.check taskId r.mutation.expectedVersion).1) :
      Effect r s (.success (some task) (versions.get taskId) (some task.status))
        (s.withVersions versions)
  | rewrote (taskId : String) (before after : Task) (versions : VersionTracker)
      (htask : r.mutation.taskId? = some taskId)
      (hrow : s.tasks taskId = some before.toTaskFields)
      (hwrites : r.mutation.writes = true)
      (hheld : VersionHeld r.mutation s taskId)
      (hversions : Checked r.mutation s versions)
      (hid : after.id = before.id) (hby : after.createdBy = before.createdBy)
      (hop : after.status = before.status ∨
        taskMachine.Allows before.status after.status) :
      Effect r s
        (.success (some after) (versions.bump taskId).1 (some before.status))
        ((s.save after).withVersions (versions.bump taskId).2)
  | deleted (taskId : String) (htask : r.mutation.taskId? = some taskId)
      (hrow : s.tasks taskId ≠ none) (hwrites : r.mutation.writes = true)
      (hkind : r.mutation.expectedVersion = none) :
      Effect r s (.success none 0 none)
        ((s.delete taskId).withVersions (s.versions.remove taskId))

theorem Effect.unchanged (r : Request) (s : EngineState) (e : MutationError) :
    Effect r s (.failure e) s :=
  Effect.failed e s.versions (.inl rfl)

theorem checked_of_check (htask : m.taskId? = some taskId)
    (hrow : s.tasks taskId = some task.toTaskFields) :
    Checked m s (s.versions.check taskId m.expectedVersion).1 := by
  rcases s.versions.check_fst taskId m.expectedVersion with h | ⟨he, h⟩
  · exact .inl h
  · refine .inr ⟨taskId, htask, he, ?_, h⟩
    rw [hrow]
    simp

theorem Checked.current (h : Checked m s versions) (taskId : String) :
    versions.current taskId = s.versions.current taskId := by
  rcases h with rfl | ⟨other, -, -, -, rfl⟩
  · rfl
  · exact s.versions.current_seed other taskId

-- ==== one lemma per applier

def Turn.answer (t : Turn) : MutationOutcome := t.outcome.getD (.failure .internal)

theorem effect_raised (r : Request) (s : EngineState) :
    Effect r s (Turn.raised s).answer (Turn.raised s).state :=
  Effect.unchanged r s .internal

theorem effect_failed (r : Request) (s : EngineState) (e : MutationError) :
    Effect r s (Turn.failed e s).answer (Turn.failed e s).state :=
  Effect.unchanged r s e

theorem effect_applyCreate (r : Request) (s : EngineState) (data : CreateTaskData)
    (hkind : r.mutation.taskId? = none) (hw : r.mutation.writes = true) :
    Effect r s (applyCreate r.env data s).answer (applyCreate r.env data s).state := by
  unfold applyCreate
  split
  next e he => exact effect_failed r s _
  next task htask =>
    split
    next => exact effect_raised r s
    next =>
      have hf := ((Task.modelValidate_ok_iff _ _ _).1 htask).2
      refine Effect.created task hkind hw ?_ ?_
      · rw [hf]
        rfl
      · rw [hf]
        rfl

variable {after : Task} {target : TaskStatus} {overrides : List TaskFieldUpdate}

/-- The tail: a raising save changes nothing but the seed, another is a rewrite. -/
theorem effect_saveAndBump (r : Request) (s : EngineState) {before : Task}
    (htask : r.mutation.taskId? = some taskId) (hrow : s.tasks taskId = some before.toTaskFields)
    (hw : r.mutation.writes = true) (hheld : VersionHeld r.mutation s taskId)
    (hv : Checked r.mutation s versions) (hid : after.id = before.id)
    (hby : after.createdBy = before.createdBy) (hop : after.status = before.status ∨
      taskMachine.Allows before.status after.status) : Effect r s
      (saveAndBump r.env taskId after before.status (s.withVersions versions)).answer
      (saveAndBump r.env taskId after before.status (s.withVersions versions)).state := by
  unfold saveAndBump
  split
  next => exact Effect.failed .internal versions hv
  next => exact Effect.rewrote taskId before after versions htask hrow hw hheld hv hid hby hop

theorem versionHeld_of_check
    (hc : s.versions.check taskId m.expectedVersion = (versions, .ok ())) :
    VersionHeld m s taskId :=
  (s.versions.check_snd_ok_iff taskId m.expectedVersion).1 (by rw [hc])

/-- The head: what is done goes on from the row as stored and the counters as checked. -/
theorem effect_readAndCheck (r : Request) (s : EngineState) {expected : ExpectedVersion}
    {proceed : Task → EngineState → Turn} (htask : r.mutation.taskId? = some taskId)
    (he : r.mutation.expectedVersion = expected.value)
    (hp : ∀ (task : Task) (versions : VersionTracker),
      r.env.readRaises = false → s.tasks taskId = some task.toTaskFields →
      VersionHeld r.mutation s taskId →
      versions = (s.versions.check taskId r.mutation.expectedVersion).1 →
      Effect r s (proceed task (s.withVersions versions)).answer
        (proceed task (s.withVersions versions)).state) :
    Effect r s (readAndCheck r.env taskId expected s proceed).answer
      (readAndCheck r.env taskId expected s proceed).state := by
  unfold readAndCheck
  rw [← he]
  split
  next => exact effect_raised r s
  next => exact effect_failed r s _
  next task hget =>
    obtain ⟨hread, hrow⟩ := EngineState.get_eq_task hget
    split
    next versions conflict hc =>
      have hchecked := checked_of_check (s := s) htask hrow
      rw [hc] at hchecked
      exact Effect.failed _ versions hchecked
    next versions hc =>
      have hheld := versionHeld_of_check hc
      exact hp task versions hread hrow hheld (by rw [hc])

theorem effect_applyUpdate (r : Request) (s : EngineState) (taskId : String)
    (updates : FieldUpdates) (expected : ExpectedVersion) (htask : r.mutation.taskId? = some taskId)
    (he : r.mutation.expectedVersion = expected.value)
    (hw : r.mutation.writes = (updates.entries != [])) :
    Effect r s (applyUpdate r.env taskId updates expected s).answer
      (applyUpdate r.env taskId updates expected s).state := by
  apply effect_readAndCheck r s htask he
  intro task versions hread hrow hheld hv
  have hc := checked_of_check htask hrow
  rw [← hv] at hc
  unfold updateRead
  split
  next hempty =>
    exact Effect.read taskId task versions htask hrow hread (by rw [hw, hempty]; rfl) hheld hv
  next hentries =>
    have hw : r.mutation.writes = true := by
      rw [hw]
      exact bne_iff_ne.2 hentries
    split
    next => exact Effect.failed _ versions hc
    next updated hu =>
      have hf := ((Task.modelValidate_ok_iff _ _ _).1 hu).2
      have hsame := TaskFields.merge_sameIdentity task.toTaskFields
        updates.entries updates.key_not_immutable
      apply effect_saveAndBump r s htask hrow hw hheld hc
      · rw [hf, hsame.id]
      · rw [hf, hsame.createdBy]
      · left
        rw [hf, hsame.status]

theorem transitionPayload_identity (f : TaskFields) (target : TaskStatus)
    (overrides : List TaskFieldUpdate)
    (hkeys : ∀ u ∈ overrides, u.key ∉ ["id", "created_by", "status"]) :
    (f.transitionPayload target overrides).id = f.id ∧
      (f.transitionPayload target overrides).createdBy = f.createdBy ∧
      (f.transitionPayload target overrides).status = target := by
  unfold TaskFields.transitionPayload
  by_cases ht : target ≠ .blocked
  · have hsame := TaskFields.merge_sameIdentity { f with blockedReason := none } overrides hkeys
    rw [if_pos ht]
    exact ⟨hsame.id, hsame.createdBy, rfl⟩
  · have hsame := TaskFields.merge_sameIdentity f overrides hkeys
    rw [if_neg ht]
    exact ⟨hsame.id, hsame.createdBy, rfl⟩

theorem withTransition_identity (hkeys : ∀ u ∈ overrides, u.key ∉ ["id", "created_by", "status"])
    (h : task.withTransition target overrides = .ok after) :
    after.id = task.id ∧ after.createdBy = task.createdBy ∧
      taskMachine.Allows task.status after.status := by
  obtain ⟨-, hop, -, hf⟩ := (task.withTransition_ok_iff target overrides after).1 h
  obtain ⟨hid, hby, hs⟩ := transitionPayload_identity task.toTaskFields target overrides hkeys
  rw [← hf] at hid hby hs
  exact ⟨hid, hby, by rw [hs]; exact hop⟩

theorem effect_transitionRead (r : Request) (s : EngineState)
    (htask : r.mutation.taskId? = some taskId)
    (hkeys : ∀ u ∈ overrides, u.key ∉ ["id", "created_by", "status"])
    (hrow : s.tasks taskId = some task.toTaskFields) (hw : r.mutation.writes = true)
    (hheld : VersionHeld r.mutation s taskId) (hc : Checked r.mutation s versions) : Effect r s
      (transitionRead r.env taskId target overrides task (s.withVersions versions)).answer
      (transitionRead r.env taskId target overrides task (s.withVersions versions)).state := by
  unfold transitionRead
  split
  next => exact Effect.failed _ versions hc
  next updated hu =>
    obtain ⟨hid, hby, hop⟩ := withTransition_identity hkeys hu
    exact effect_saveAndBump r s htask hrow hw hheld hc hid hby (.inr hop)

theorem effect_applyTransition (r : Request) (s : EngineState) (taskId : String)
    (target : TaskStatus) (overrides : FieldUpdates) (expected : ExpectedVersion)
    (htask : r.mutation.taskId? = some taskId) (he : r.mutation.expectedVersion = expected.value)
    (hw : r.mutation.writes = true) :
    Effect r s (applyTransition r.env taskId target overrides expected s).answer
      (applyTransition r.env taskId target overrides expected s).state := by
  apply effect_readAndCheck r s htask he
  intro task versions hread hrow hheld hv
  have hc := checked_of_check htask hrow
  rw [← hv] at hc
  exact effect_transitionRead r s htask overrides.key_not_immutable hrow hw hheld hc

theorem effect_applyCancel (r : Request) (s : EngineState) (taskId : String)
    (htask : r.mutation.taskId? = some taskId)
    (he : r.mutation.expectedVersion = none) (hw : r.mutation.writes = true) :
    Effect r s (applyCancel r.env taskId s).answer
      (applyCancel r.env taskId s).state := by
  unfold applyCancel
  split
  next => exact effect_raised r s
  next => exact effect_failed r s _
  next task hget =>
    have hrow := (EngineState.get_eq_task hget).2
    have hheld : VersionHeld r.mutation s taskId := by
      intro v hv
      simp [he] at hv
    have hc : Checked r.mutation s s.versions := .inl rfl
    exact effect_transitionRead r s htask (by simp) hrow hw hheld hc

theorem effect_applyDelete (r : Request) (s : EngineState) (taskId : String)
    (htask : r.mutation.taskId? = some taskId)
    (he : r.mutation.expectedVersion = none) (hw : r.mutation.writes = true) :
    Effect r s (applyDelete r.env taskId s).answer
      (applyDelete r.env taskId s).state := by
  unfold applyDelete
  split
  next => exact effect_raised r s
  next => exact effect_failed r s _
  next =>
    split
    next => exact effect_raised r s
    next =>
      split
      next => exact effect_failed r s _
      next => exact effect_raised r s
    next =>
      split
      next => exact effect_failed r s _
      next row hrow => exact Effect.deleted taskId htask (by rw [hrow]; simp) hw he

-- ==== the inversion

/-- INVERSION: whatever the world answers, the turn is one of the five effects. -/
theorem effect_of_processOne (r : Request) (s : EngineState) :
    Effect r s (result s r).outcome (step s r) := by
  have hd : Effect r s (dispatch r.env r.mutation s).answer
      (dispatch r.env r.mutation s).state := by
    cases hm : r.mutation with
    | create _ data => exact effect_applyCreate r s data (by rw [hm]; rfl) (by rw [hm]; rfl)
    | update _ taskId updates expected =>
      exact effect_applyUpdate r s taskId updates expected (by rw [hm]; rfl)
        (by rw [hm]; rfl) (by rw [hm]; rfl)
    | transition _ taskId target overrides expected =>
      exact effect_applyTransition r s taskId target overrides expected
        (by rw [hm]; rfl) (by rw [hm]; rfl) (by rw [hm]; rfl)
    | delete _ taskId =>
      exact effect_applyDelete r s taskId (by rw [hm]; rfl) (by rw [hm]; rfl) (by rw [hm]; rfl)
    | cancel _ taskId =>
      exact effect_applyCancel r s taskId (by rw [hm]; rfl) (by rw [hm]; rfl) (by rw [hm]; rfl)
  exact hd

end

open Synthorg.Core Lib
open List

-- ==== the invariant

structure EngineState.Sound (s : EngineState) : Prop where
  coherent : ∀ id row, s.tasks id = some row → row.Coherent
  keyed : ∀ id row, s.tasks id = some row → row.id.text = id

variable {s : EngineState} {r : Request} {id : String} {requests : List Request}

theorem EngineState.Sound.save (hs : s.Sound) (task : Task) (versions : VersionTracker) :
    ((s.save task).withVersions versions).Sound := by
  obtain ⟨at_, hrow⟩ := EngineState.upsertRow_fields (s.tasks task.id.text) task
  have hc : TaskFields.Coherent { task.toTaskFields with createdAt := at_ } := by
    have h := task.coherent
    exact ⟨h.fields, h.deadline, h.no_self_dependency, h.dependencies_nodup,
      h.reviewers_nodup, h.not_own_parent, h.delegation_nodup,
      h.assignee_not_delegate, h.created_unassigned, h.assignee_named,
      h.reason_names_park, h.plan_linked⟩
  constructor
  · intro id row hid
    rw [EngineState.withVersions_tasks] at hid
    by_cases hkey : id = task.id.text
    · rw [hkey, EngineState.save_tasks_self, hrow] at hid
      cases hid
      exact hc
    · rw [EngineState.save_tasks_of_ne s task hkey] at hid
      exact hs.coherent id row hid
  · intro id row hid
    rw [EngineState.withVersions_tasks] at hid
    by_cases hkey : id = task.id.text
    · rw [hkey, EngineState.save_tasks_self, hrow] at hid
      cases hid
      exact hkey.symm
    · rw [EngineState.save_tasks_of_ne s task hkey] at hid
      exact hs.keyed id row hid

theorem EngineState.Sound.withVersions (hs : s.Sound) (versions : VersionTracker) :
    (s.withVersions versions).Sound :=
  ⟨hs.coherent, hs.keyed⟩

theorem EngineState.Sound.delete (hs : s.Sound) (taskId : String) (versions : VersionTracker) :
    ((s.delete taskId).withVersions versions).Sound := by
  have hrows : ∀ id row, ((s.delete taskId).withVersions versions).tasks id = some row →
      s.tasks id = some row := by
    intro id row hid
    rw [EngineState.withVersions_tasks] at hid
    by_cases hkey : id = taskId
    · simp [hkey, EngineState.delete_tasks_self] at hid
    · rwa [EngineState.delete_tasks_of_ne s hkey] at hid
  exact ⟨fun id row h => hs.coherent id row (hrows id row h),
    fun id row h => hs.keyed id row (hrows id row h)⟩

/-- STEP LEMMA: no turn breaks the store. -/
theorem sound_step (hs : s.Sound) (r : Request) : (step s r).Sound := by
  have he := effect_of_processOne r s
  generalize (result s r).outcome = out at he
  generalize step s r = t at he
  cases he with
  | failed e versions hv => exact hs.withVersions versions
  | created task hkind hw hid hstate => exact hs.save task _
  | read taskId task versions htask hrow hread hw hheld hv => exact hs.withVersions versions
  | rewrote taskId before after versions htask hrow hw hheld hv hid hby hop =>
    exact hs.save after _
  | deleted taskId htask hrow hw hkind => exact hs.delete taskId _

-- ==== the automaton

inductive LifeStep : Option TaskFields → Option TaskFields → Prop
  | absent : LifeStep none none
  | filed (row : TaskFields) (hstatus : row.status = .created) :
      LifeStep none (some row)
  | kept (before after : TaskFields) (hid : after.id = before.id)
      (hby : after.createdBy = before.createdBy)
      (hop : after.status = before.status ∨
        taskMachine.Allows before.status after.status) :
      LifeStep (some before) (some after)
  | deleted (row : TaskFields) : LifeStep (some row) none

theorem LifeStep.unchanged (row : Option TaskFields) : LifeStep row row := by
  cases row with
  | none => exact .absent
  | some row => exact .kept row row rfl rfl (.inl rfl)

def FreshIn (s : EngineState) (r : Request) : Prop :=
  s.tasks r.env.newId.text = none

/-- STEP LEMMA: every turn moves every row by the automaton. -/
theorem lifeStep_step (hs : s.Sound) (hf : FreshIn s r) (id : String) :
    LifeStep (s.tasks id) ((step s r).tasks id) := by
  have he := effect_of_processOne r s
  generalize (result s r).outcome = out at he
  generalize step s r = t at he
  cases he with
  | failed e versions hv => exact LifeStep.unchanged _
  | created task hkind hw hid hstate =>
    rw [EngineState.withVersions_tasks]
    by_cases hkey : id = task.id.text
    · have hnone : s.tasks id = none := by rw [hkey, hid]; exact hf
      rw [hnone, hkey, EngineState.save_tasks_self]
      obtain ⟨at_, hrow⟩ := EngineState.upsertRow_fields (s.tasks task.id.text) task
      rw [hrow]
      exact .filed _ hstate
    · rw [EngineState.save_tasks_of_ne s task hkey]
      exact LifeStep.unchanged _
  | read taskId task versions htask hrow hread hw hheld hv => exact LifeStep.unchanged _
  | rewrote taskId before after versions htask hrow hw hheld hv hid hby hop =>
    rw [EngineState.withVersions_tasks]
    by_cases hkey : id = after.id.text
    · -- the row is stored under its own id, so it is the one rewritten
      have hown : taskId = id := by
        rw [hkey, hid]
        exact (hs.keyed taskId before.toTaskFields hrow).symm
      rw [hkey, EngineState.save_tasks_self, ← hkey, ← hown, hrow]
      exact .kept _ _ hid hby hop
    · rw [EngineState.save_tasks_of_ne s after hkey]
      exact LifeStep.unchanged _
  | deleted taskId htask hrow hw hkind =>
    rw [EngineState.withVersions_tasks]
    by_cases hkey : id = taskId
    · rw [hkey, EngineState.delete_tasks_self]
      cases h : s.tasks taskId with
      | none => exact absurd h hrow
      | some row => exact .deleted row
    · rw [EngineState.delete_tasks_of_ne s hkey]
      exact LifeStep.unchanged _

theorem tasks_step_of_none (hs : s.Sound) (hnone : s.tasks id = none)
    (hid : id ≠ r.env.newId.text) : (step s r).tasks id = none := by
  have he := effect_of_processOne r s
  generalize (result s r).outcome = out at he
  generalize step s r = t at he
  cases he with
  | failed e versions hv => exact hnone
  | created task hkind hw hnew hstate =>
    rw [EngineState.withVersions_tasks,
      EngineState.save_tasks_of_ne s task (by rw [hnew]; exact hid), hnone]
  | read taskId task versions htask hrow hread hw hheld hv => exact hnone
  | rewrote taskId before after versions htask hrow hw hheld hv hsame hby hop =>
    have hne : id ≠ after.id.text := by
      rintro rfl
      simp [hsame, hs.keyed taskId before.toTaskFields hrow, hrow] at hnone
    rw [EngineState.withVersions_tasks, EngineState.save_tasks_of_ne s after hne, hnone]
  | deleted taskId htask hrow hw hkind =>
    rw [EngineState.withVersions_tasks]
    by_cases hkey : id = taskId
    · rw [hkey, EngineState.delete_tasks_self]
    · rw [EngineState.delete_tasks_of_ne s hkey, hnone]

-- ==== the runs

/-- A run the world can serve: a sound store, and ids `uuid4` would draw. -/
structure Admissible (s : EngineState) (requests : List Request) : Prop where
  sound : s.Sound
  distinct : (requests.map fun r => r.env.newId.text).Nodup
  fresh : ∀ r ∈ requests, FreshIn s r

theorem admissible_guarded : Run.Guarded step Admissible := by
  intro s r rest h
  have hd := h.distinct
  rw [map_cons, nodup_cons] at hd
  refine ⟨sound_step h.sound r, hd.2, ?_⟩
  intro q hq
  have hne : q.env.newId.text ≠ r.env.newId.text := by
    intro heq
    exact hd.1 (heq ▸ mem_map_of_mem hq)
  exact tasks_step_of_none h.sound (h.fresh q (mem_cons_of_mem r hq)) hne

/-- RUN LEMMA: the store is sound wherever a run gets to. -/
theorem sound_run (h : Admissible s requests) : (Run.final step s requests).Sound :=
  Run.invariant (P := EngineState.Sound) admissible_guarded
    (fun _ r _ _ hP => sound_step hP r) h h.sound

/-- RUN LEMMA: the history of every id is a path of the automaton. -/
theorem lifeStep_run (h : Admissible s requests) (id : String) :
    (Run.states step s requests).IsChain
      fun t u => LifeStep (t.tasks id) (u.tasks id) :=
  Run.chain (P := fun _ => True) admissible_guarded (fun _ _ _ _ _ => trivial)
    (fun _ r _ hG _ => lifeStep_step hG.sound (hG.fresh r mem_cons_self) id)
    h trivial

/-- A row that stays has the same identity, and a path of hops. -/
structure Lived (before after : TaskFields) : Prop where
  id : after.id = before.id
  createdBy : after.createdBy = before.createdBy
  path : taskMachine.Path before.status after.status

theorem Lived.refl (row : TaskFields) : Lived row row :=
  ⟨rfl, rfl, Relation.ReflTransGen.refl⟩

theorem Lived.trans {a b c : TaskFields} (hab : Lived a b) (hbc : Lived b c) : Lived a c :=
  ⟨hbc.id.trans hab.id, hbc.createdBy.trans hab.createdBy, hab.path.trans hbc.path⟩

theorem LifeStep.lived {a b : TaskFields} (h : LifeStep (some a) (some b)) : Lived a b := by
  cases h with
  | kept _ _ hid hby hop =>
    refine ⟨hid, hby, ?_⟩
    rcases hop with heq | hop
    · rw [heq]
      exact Relation.ReflTransGen.refl
    · exact Relation.ReflTransGen.single hop

/-- RUN LEMMA: a row that is there in every state of a stretch lived
through it. -/
theorem lived_run (h : Admissible s requests) {before after : TaskFields}
    (hthroughout : ∀ t ∈ Run.states step s requests, t.tasks id ≠ none)
    (hb : s.tasks id = some before)
    (ha : (Run.final step s requests).tasks id = some after) : Lived before after := by
  induction requests generalizing s before with
  | nil =>
    rw [Run.final_nil, hb] at ha
    cases ha
    exact Lived.refl _
  | cons r rest ih =>
    have hnext : (step s r).tasks id ≠ none := by
      refine hthroughout _ (mem_cons_of_mem s ?_)
      cases rest <;> exact mem_cons_self
    obtain ⟨mid, hmid⟩ := Option.ne_none_iff_exists'.1 hnext
    have hstep := lifeStep_step h.sound (h.fresh r mem_cons_self) id
    rw [hb, hmid] at hstep
    have hrest := ih (admissible_guarded s r rest h)
      (fun t ht => hthroughout t (mem_cons_of_mem s ht)) hmid ha
    exact hstep.lived.trans hrest

-- ==== the failures

/-- STEP LEMMA: a mutation that fails leaves every row and counter, but for the baseline of a
task that had none. -/
theorem failure_keeps (hfail : (result s r).succeeded = false) : (step s r).tasks = s.tasks ∧
      ∀ id, (step s r).versions id = s.versions id ∨
        (s.tasks id ≠ none ∧ s.versions id = none ∧
          (step s r).versions id = some 1) := by
  have he := effect_of_processOne r s
  unfold TaskMutationResult.succeeded at hfail
  generalize (result s r).outcome = out at he hfail
  generalize step s r = t at he
  cases he with
  | failed e versions hv =>
    refine ⟨rfl, ?_⟩
    intro id
    rcases hv with rfl | ⟨taskId, -, -, hrow, rfl⟩
    · exact .inl rfl
    · rcases s.versions.seed_apply taskId id with h | ⟨rfl, hnone, hone⟩
      · exact .inl h
      · exact .inr ⟨hrow, hnone, hone⟩
  | created task hkind hw hid hs => cases hfail
  | read taskId task versions htask hrow hread hw hheld hv => cases hfail
  | rewrote taskId before after versions htask hrow hw hheld hv hid hby hop =>
    cases hfail
  | deleted taskId htask hrow hw hkind => cases hfail

def AllTracked (s : EngineState) : Prop :=
  ∀ id, s.tasks id ≠ none → s.versions id ≠ none

theorem Checked.tracked {m : TaskMutation} {versions : VersionTracker} (h : Checked m s versions)
    (hid : s.versions id ≠ none) : versions id ≠ none := by
  rcases h with rfl | ⟨taskId, -, -, -, rfl⟩
  · exact hid
  · rcases s.versions.seed_apply taskId id with heq | ⟨-, hnone, -⟩
    · rw [heq]
      exact hid
    · exact absurd hnone hid

/-- STEP LEMMA: an engine that tracks all it stores goes on doing so. -/
theorem allTracked_step (hs : s.Sound) (ht : AllTracked s) (r : Request) :
    AllTracked (step s r) := by
  have he := effect_of_processOne r s
  generalize (result s r).outcome = out at he
  generalize step s r = t at he
  intro id hrow'
  cases he with
  | failed e versions hv => exact hv.tracked (ht id hrow')
  | created task hkind hw hid hstate =>
    rw [EngineState.withVersions_versions, VersionTracker.setInitial]
    by_cases hkey : id = task.id.text
    · rw [hkey]
      simp
    · rw [Function.update_of_ne hkey]
      rw [EngineState.withVersions_tasks, EngineState.save_tasks_of_ne s task hkey] at hrow'
      exact ht id hrow'
  | read taskId task versions htask hrow hread hw hheld hv =>
    have hc := checked_of_check htask hrow
    rw [← hv] at hc
    exact hc.tracked (ht id hrow')
  | rewrote taskId before after versions htask hrow hw hheld hv hid hby hop =>
    rw [EngineState.withVersions_versions]
    by_cases hkey : id = taskId
    · rw [hkey, VersionTracker.bump_snd_self]
      simp
    · have hne : id ≠ after.id.text := by
        rw [hid, hs.keyed taskId before.toTaskFields hrow]
        exact hkey
      rw [EngineState.withVersions_tasks, EngineState.save_tasks_of_ne s after hne] at hrow'
      rw [VersionTracker.bump_snd_of_ne versions hkey]
      exact hv.tracked (ht id hrow')
  | deleted taskId htask hrow hw hkind =>
    rw [EngineState.withVersions_tasks] at hrow'
    by_cases hkey : id = taskId
    · rw [hkey, EngineState.delete_tasks_self] at hrow'
      exact absurd rfl hrow'
    · rw [EngineState.delete_tasks_of_ne s hkey] at hrow'
      rw [EngineState.withVersions_versions, VersionTracker.remove, Function.update_of_ne hkey]
      exact ht id hrow'

theorem failure_keeps_exactly (htracked : AllTracked s) (hfail : (result s r).succeeded = false) :
    step s r = s := by
  obtain ⟨ht, hv⟩ := failure_keeps hfail
  have hsame : (step s r).versions = s.versions := by
    funext id
    rcases hv id with heq | ⟨hrow, hnone, -⟩
    · exact heq
    · exact absurd hnone (htracked id hrow)
  cases hs' : step s r
  rw [hs'] at ht hsame
  cases ht
  cases hsame
  rfl

-- ==== the guarantee

/-- THE LIFECYCLE over a run from `s`: every state, every two of them, and every failure. -/
structure LifecycleKept (s : EngineState) (requests : List Request) : Prop where
  /-- every persisted task satisfies every rule of the model -/
  coherent : ∀ t ∈ Run.states step s requests, ∀ id row,
    t.tasks id = some row → row.Coherent
  blocked_reason : ∀ t ∈ Run.states step s requests, ∀ id row,
    t.tasks id = some row → row.blockedReason ≠ none → row.status = .blocked
  history : ∀ id, (Run.states step s requests).IsChain
    fun t u => LifeStep (t.tasks id) (u.tasks id)
  /-- A row that stays keeps its identity, moves along the table, and never leaves a terminal
  status. -/
  lived : ∀ xs ys zs, requests = xs ++ ys ++ zs → ∀ id before after,
    (∀ t ∈ Run.states step (Run.final step s xs) ys, t.tasks id ≠ none) →
    (Run.final step s xs).tasks id = some before →
    (Run.final step s (xs ++ ys)).tasks id = some after →
    after.id = before.id ∧ after.createdBy = before.createdBy ∧
      taskMachine.Path before.status after.status ∧
      (taskMachine.Terminal before.status → after.status = before.status)
  completed : ∀ xs r ys, requests = xs ++ r :: ys → ∀ id after,
    (Run.final step s (xs ++ [r])).tasks id = some after →
    after.status = .completed →
    ∃ before, (Run.final step s xs).tasks id = some before ∧
      (before.status = .completed ∨ before.status = .inReview)
  /-- A failed mutation keeps every row and counter; a stored, untracked task may get its
  baseline. -/
  failure : ∀ xs r ys, requests = xs ++ r :: ys →
    (result (Run.final step s xs) r).succeeded = false →
    (Run.final step s (xs ++ [r])).tasks = (Run.final step s xs).tasks ∧
      ∀ id, (Run.final step s (xs ++ [r])).versions id = (Run.final step s xs).versions id ∨
        ((Run.final step s xs).tasks id ≠ none ∧
          (Run.final step s xs).versions id = none ∧
          (Run.final step s (xs ++ [r])).versions id = some 1)
  /-- From everything stored tracked, a failed mutation leaves no trace. -/
  failure_exact : AllTracked s → ∀ xs r ys, requests = xs ++ r :: ys →
    (result (Run.final step s xs) r).succeeded = false →
    Run.final step s (xs ++ [r]) = Run.final step s xs

theorem final_snoc (s : EngineState) (xs : List Request) (r : Request) :
    Run.final step s (xs ++ [r]) = step (Run.final step s xs) r := by
  rw [Run.final_append]
  rfl

theorem Admissible.split {xs ys : List Request} (h : Admissible s (xs ++ ys)) :
    Admissible (Run.final step s xs) ys :=
  Run.guard_of_append admissible_guarded h

theorem Admissible.cut {xs ys : List Request} (h : Admissible s (xs ++ ys)) : Admissible s xs := by
  refine ⟨h.sound, ?_, fun r hr => h.fresh r (mem_append_left ys hr)⟩
  have hd := h.distinct
  rw [map_append] at hd
  exact hd.of_append_left

/-- Every run of mutations keeps the task lifecycle. -/
theorem lifecycle_kept (s : EngineState) (requests : List Request)
    (h : Admissible s requests) : LifecycleKept s requests := by
  have hsound : ∀ t ∈ Run.states step s requests, t.Sound := by
    intro t ht
    obtain ⟨xs, ys, rfl, rfl⟩ := (Run.mem_states_iff step s t requests).1 ht
    exact sound_run h.cut
  constructor
  case coherent =>
      intro t ht id row hrow
      exact (hsound t ht).coherent id row hrow
  case blocked_reason =>
      intro t ht id row hrow hreason
      obtain ⟨reason, hreason⟩ := Option.ne_none_iff_exists'.1 hreason
      exact ((hsound t ht).coherent id row hrow).reason_names_park reason hreason
  case history => exact fun id => lifeStep_run h id
  case lived =>
      intro xs ys zs hsplit id before after hthere hbefore hafter
      subst hsplit
      rw [Run.final_append] at hafter
      have hmid := (Admissible.cut h).split
      have hlived := lived_run hmid hthere hbefore hafter
      exact ⟨hlived.id, hlived.createdBy, hlived.path, hlived.path.eq_of_terminal⟩
  case completed =>
      intro xs r ys hsplit id after hafter hstatus
      subst hsplit
      have hmid := h.split
      rw [final_snoc] at hafter
      have hstep := lifeStep_step hmid.sound (hmid.fresh r mem_cons_self) id
      rw [hafter] at hstep
      generalize hbefore : (Run.final step s xs).tasks id = before at hstep
      cases hstep with
      | filed _ hcreated =>
        simp [hcreated] at hstatus
      | kept before _ hid hby hop =>
        refine ⟨before, rfl, ?_⟩
        rcases hop with heq | hop
        · exact Or.inl (heq ▸ hstatus)
        · rw [hstatus] at hop
          exact Or.inr (completed_only_from_inReview hop)
  case failure =>
      intro xs r ys hsplit hfail
      rw [final_snoc]
      exact failure_keeps hfail
  case failure_exact =>
      intro htracked xs r ys hsplit hfail
      subst hsplit
      have hmid : AllTracked (Run.final step s xs) :=
        Run.invariant (P := AllTracked) admissible_guarded
          (fun _ r _ hG hP => allTracked_step hG.sound hP r) h.cut htracked
      rw [final_snoc]
      exact failure_keeps_exactly hmid hfail

-- ==== a restarted engine

def sampleId : Uuid := ⟨"3f1c2a60-5b7e-4d19-9a42-0c6f8e1d2b35", by decide⟩

def freshId : Uuid := ⟨"9d04e7b2-61c8-4f3a-8e55-7a2b90c1d4f6", by decide⟩

def sampleTask : TaskFields where
  id := sampleId
  title := "Draft the brief"
  description := "Write the first version of the brief."
  type := .development
  project := "atlas"
  createdBy := "planner"
  createdAt := 0

def restarted : EngineState where
  tasks := fun id => if id = sampleId.text then some sampleTask else none
  versions := VersionTracker.empty

/-- An update that expects a version the restarted tracker cannot confirm. -/
def staleUpdate : Request where
  env := { newId := freshId, now := 1 }
  mutation := .update "req-1" sampleId.text ⟨[.title "Revise the brief"], by decide⟩
    ⟨some 2, by simp⟩

theorem restarted_admissible : Admissible restarted [staleUpdate] := by
  refine ⟨⟨?_, ?_⟩, by decide, ?_⟩
  · intro id row hrow
    simp only [restarted] at hrow
    split at hrow
    next =>
      cases hrow
      decide
    next => cases hrow
  · intro id row hrow
    simp only [restarted] at hrow
    split at hrow
    next hid =>
      cases hrow
      exact hid.symm
    next => cases hrow
  · intro r hr
    rw [mem_singleton] at hr
    rw [hr]
    show restarted.tasks freshId.text = none
    decide

def revise (drawn : Uuid) (title : String) (expected : ExpectedVersion) : Request where
  env := { newId := drawn, now := 1 }
  mutation := .update "req-1" sampleId.text ⟨[.title title], rfl⟩ expected

def drawnIds : List Uuid :=
  [⟨"c1b7f0de-2a94-4c38-b6f1-58e0d37a9c02", by decide⟩,
    ⟨"71f04c9e-8d2b-4a56-93e7-b50c1e6f2d84", by decide⟩,
    ⟨"e8a35d16-7f0b-4e92-a1c4-3b69d2f58071", by decide⟩]

/-- The first two revisions expect version 1, and the third carries the token
the first was handed; then the task is assigned. -/
def shift : List Request :=
  [revise freshId "Revise the brief" ⟨some 1, by simp⟩,
    revise drawnIds[0] "Drop the brief" ⟨some 1, by simp⟩,
    revise drawnIds[1] "Cut the brief" ⟨some 2, by simp⟩,
    { env := { newId := drawnIds[2], now := 2 }
      mutation := .transition "req-2" sampleId.text .assigned
        ⟨[.assignedTo (some "ada")], by decide⟩ ⟨none, unversioned⟩ }]

theorem shift_admissible : Admissible restarted shift := by
  refine ⟨restarted_admissible.sound, by decide, ?_⟩
  show ∀ r ∈ shift, restarted.tasks r.env.newId.text = none
  decide

/-- `lifecycle_kept` at work on a restarted engine: two revisions land, one is
refused, and the task is assigned. -/
theorem lifecycle_kept_restarted :
    (shift.zipIdx.map fun r =>
        (result (Run.final step restarted (shift.take r.2)) r.1).succeeded) =
        [true, false, true, true] ∧
      ((Run.final step restarted shift).tasks sampleId.text).map
        (fun row => (row.title, row.status)) = some ("Cut the brief", .assigned) ∧
      LifecycleKept restarted shift :=
  ⟨by decide, by decide, lifecycle_kept restarted shift shift_admissible⟩

/-- The stale update is refused, and the tracker has the baseline afterwards. -/
theorem failed_update_seeds_version : ¬ ∀ (s : EngineState) (r : Request), Admissible s [r] →
      (result s r).succeeded = false →
      (step s r).tasks = s.tasks ∧ (step s r).versions = s.versions := by
  intro h
  have hkept := (h restarted staleUpdate restarted_admissible (by decide)).2
  have hbase : (step restarted staleUpdate).versions sampleId.text = some 1 := by decide
  rw [hkept] at hbase
  cases hbase

end Synthorg.TaskEngine
