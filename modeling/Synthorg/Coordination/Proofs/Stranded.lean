/-
No subtask is stranded.

When the wave loop returns, every subtask of the plan is accounted for, or a gate has held it back
for an input somebody still owes an answer on: those alone may still be CREATED. It takes an
engine that reads its rows and carries out its parks; what raises, fails or declines besides does
not matter. It takes a preparation that declines its wave whole or rebuilds it whole, too.

A subtask is ACCOUNTED FOR once its row has left CREATED and the run can say why.
-/
import Synthorg.Decomposition.Proofs.DispatchOrder
import Synthorg.Coordination.WaveExecution
import Synthorg.TaskEngine.Proofs.Lifecycle

namespace Synthorg.Coordination

section
open Synthorg.Core Lib Lib.Program TaskEngine

section

-- ==== rows under the engine

def SparesId (x : String) (r : TaskEngine.Request) : Prop :=
  r.mutation.taskId? = none → r.env.newId.text ≠ x

variable {s : EngineState} {taskId : String} {target : TaskStatus} {overrides : FieldUpdates}
  {env : TurnEnv}

/-- STEP LEMMA: what a turn does to a row it does not file. -/
theorem statusOf_step (hs : s.Sound) {r : TaskEngine.Request} {x : String} (hx : SparesId x r)
    (hc : (s.tasks x).map TaskFields.status ≠ some .created) :
    ((TaskEngine.step s r).tasks x).map TaskFields.status ≠ some .created := by
  have he := effect_of_processOne r s
  generalize (result s r).outcome = out at he
  generalize TaskEngine.step s r = t at he
  cases he with
  | failed e versions hv => exact hc
  | created task hkind hw hid hstatus =>
    have hne : x ≠ task.id.text := by
      rw [hid]
      exact (hx hkind).symm
    rw [EngineState.withVersions_tasks, EngineState.save_tasks_of_ne s task hne]
    exact hc
  | read taskId task versions htask hrow hread hw hheld hv => exact hc
  | rewrote taskId before after versions htask hrow hw hheld hv hid hby hop =>
    rw [EngineState.withVersions_tasks]
    by_cases hkey : x = after.id.text
    · have hown : taskId = x := by
        rw [hkey, hid]
        exact (hs.keyed taskId before.toTaskFields hrow).symm
      obtain ⟨at_, hsaved⟩ := EngineState.upsertRow_fields (s.tasks after.id.text) after
      rw [hkey, EngineState.save_tasks_self, hsaved]
      rw [← hown, hrow] at hc
      intro hcreated
      have ha : after.status = .created := Option.some.inj hcreated
      rw [ha] at hop
      cases hop with
      | inl hsame => exact hc (congrArg some hsame.symm)
      | inr hall => exact not_allows_created _ hall
    · rw [EngineState.save_tasks_of_ne s after hkey]
      exact hc
  | deleted taskId htask hrow hw hkind =>
    rw [EngineState.withVersions_tasks]
    by_cases hkey : x = taskId
    · rw [hkey, EngineState.delete_tasks_self]
      simp
    · rw [EngineState.delete_tasks_of_ne s hkey]
      exact hc

-- ==== a transition

theorem applyTransition_cases (hs : s.Sound) (env : TurnEnv) (taskId : String) (target : TaskStatus)
    (overrides : FieldUpdates) :
    (∃ (task after : Task) (version : Nat) (previous : Option TaskStatus),
        s.tasks taskId = some task.toTaskFields ∧
        task.withTransition target overrides.entries = .ok after ∧
        applyTransition env taskId target overrides ⟨none, by simp⟩ s =
          ⟨some (.success (some after) version previous),
            (s.save after).withVersions (s.versions.bump taskId).2⟩) ∨
      (∃ e, applyTransition env taskId target overrides ⟨none, by simp⟩ s = ⟨some (.failure e), s⟩ ∧
        (s.tasks taskId = none ∨ ∃ task : Task, s.tasks taskId = some task.toTaskFields ∧
          ∀ after, task.withTransition target overrides.entries ≠ .ok after)) ∨
      (applyTransition env taskId target overrides ⟨none, by simp⟩ s = ⟨none, s⟩ ∧
        (env.readRaises = true ∨ env.saveRaises = true)) := by
  unfold applyTransition readAndCheck
  cases hget : s.get env taskId with
  | none =>
    refine .inr (.inr ⟨rfl, .inl ?_⟩)
    by_contra hread
    unfold EngineState.get at hget
    rw [if_neg hread] at hget
    split at hget
    · cases hget
    · next row hrow =>
      have hok := (Task.modelValidate_ok_iff row [] ⟨row, hs.coherent _ _ hrow⟩).2 ⟨rfl, rfl⟩
      simp [hok] at hget
  | some live =>
    cases live with
    | none => exact .inr (.inl ⟨_, rfl, .inl (EngineState.get_eq_absent hget)⟩)
    | some task =>
      have hrow := (EngineState.get_eq_task hget).2
      show _ ∨ _ ∨ _
      simp only [VersionTracker.check, EngineState.withVersions, transitionRead]
      cases ht : task.withTransition target overrides.entries with
      | error e =>
        refine .inr (.inl ⟨_, rfl, .inr ⟨task, hrow, ?_⟩⟩)
        intro after ha
        simp [ht] at ha
      | ok after =>
        by_cases hsave : env.saveRaises = true
        · refine .inr (.inr ⟨?_, .inr hsave⟩)
          simp [saveAndBump, hsave, Turn.raised]
        · refine .inl ⟨task, after, (s.versions.bump taskId).1, some task.status, hrow, ht, ?_⟩
          simp [saveAndBump, hsave, Turn.succeeded, EngineState.withVersions, EngineState.save]

theorem statusOf_transitioned (hs : s.Sound) {task after : Task} {versions : VersionTracker}
    (hrow : s.tasks taskId = some task.toTaskFields)
    (ha : task.withTransition target overrides.entries = .ok after) :
    ((((s.save after).withVersions versions).tasks taskId).map TaskFields.status) =
      some target := by
  have hid := (withTransition_identity overrides.key_not_immutable ha).1
  have hf := ((task.withTransition_ok_iff target overrides.entries after).1 ha).2.2.2
  have hstatus := (transitionPayload_identity task.toTaskFields target overrides.entries
    overrides.key_not_immutable).2.2
  have hkey : taskId = after.id.text := by
    rw [hid]
    exact (hs.keyed taskId task.toTaskFields hrow).symm
  obtain ⟨at_, hsaved⟩ := EngineState.upsertRow_fields (s.tasks after.id.text) after
  rw [EngineState.withVersions_tasks, hkey, EngineState.save_tasks_self, hsaved, Option.map_some]
  show some after.status = some target
  rw [hf, hstatus]

theorem transition_succeeded (hs : s.Sound) {requestId : String}
    (h : (result s ⟨env, .transition requestId taskId target overrides ⟨none, by simp⟩⟩).succeeded =
      true) :
    ((TaskEngine.step s ⟨env, .transition requestId taskId target overrides ⟨none, by simp⟩⟩).tasks
      taskId).map TaskFields.status = some target := by
  simp only [result, TaskEngine.step, processOne, dispatch] at h ⊢
  obtain ⟨task, after, version, previous, hrow, ha, hturn⟩ | ⟨e, hturn, _⟩ | ⟨hturn, _⟩ :=
    applyTransition_cases hs env taskId target overrides
  · rw [hturn]
    exact statusOf_transitioned hs hrow ha
  · rw [hturn] at h
    cases h
  · rw [hturn] at h
    cases h

theorem transition_written (hs : s.Sound) {requestId : String} {written : Task} {version : Nat}
    {previous : Option TaskStatus}
    (h : (result s ⟨env, .transition requestId taskId target overrides ⟨none, by simp⟩⟩).outcome =
      .success (some written) version previous) : written.id.text = taskId := by
  simp only [result, processOne, dispatch] at h
  obtain ⟨task, after, version', previous', hrow, ha, hturn⟩ | ⟨e, hturn, _⟩ | ⟨hturn, _⟩ :=
    applyTransition_cases hs env taskId target overrides
  · rw [hturn] at h
    cases h
    rw [(withTransition_identity overrides.key_not_immutable ha).1]
    exact hs.keyed taskId task.toTaskFields hrow
  · simp [hturn] at h
  · simp [hturn] at h

-- ==== the park

theorem withTransition_blocked (task : Task) (h : task.status ∈ abandonableStatuses)
    (reason : BlockedReason) :
    ∃ after, task.withTransition .blocked (blockedOverrides reason).entries = .ok after := by
  have hcoherent : TaskFields.Coherent (task.toTaskFields.transitionPayload .blocked
      [.blockedReason (some reason)]) := by
    have hc := task.coherent
    refine ⟨hc.fields, hc.deadline, hc.no_self_dependency, hc.dependencies_nodup,
      hc.reviewers_nodup, hc.not_own_parent, hc.delegation_nodup, hc.assignee_not_delegate,
      ?_, ?_, fun _ _ => rfl, hc.plan_linked⟩
    · intro hcreated
      cases hcreated
    · intro hreq
      simp [requiresAssignee, TaskFields.transitionPayload] at hreq
  refine ⟨⟨_, hcoherent⟩, ?_⟩
  rw [Task.withTransition_ok_iff]
  refine ⟨by simp [blockedOverrides, TaskFieldUpdate.key], ?_, by simp [blockedOverrides,
    malformedLocs, TaskFieldUpdate.malformedLoc?], rfl⟩
  simp only [abandonableStatuses, List.mem_cons, List.not_mem_nil, or_false] at h
  cases h with
  | inl hs =>
    rw [hs]
    decide
  | inr hs =>
    rw [hs]
    decide

def Passed (status : Option TaskStatus) : Prop := ∀ st, status = some st → st ∉ abandonableStatuses

/-- PARK LEMMA: where reads and writes work, a park lands or its row does not
wait to be dispatched. -/
theorem park_lands (hs : s.Sound) (hread : env.readRaises = false) (hsave : env.saveRaises = false)
    (requestId taskId : String) (reason : BlockedReason) :
    (result s ⟨env, .transition requestId taskId .blocked (blockedOverrides reason)
        ⟨none, by simp⟩⟩).succeeded = true ∨
      (TaskEngine.step s ⟨env, .transition requestId taskId .blocked (blockedOverrides reason)
        ⟨none, by simp⟩⟩ = s ∧ Passed ((s.tasks taskId).map TaskFields.status)) := by
  simp only [result, TaskEngine.step, processOne, dispatch]
  obtain ⟨task, after, version, previous, hrow, ha, hturn⟩ | ⟨e, hturn, hwhy⟩ |
    ⟨_, hr⟩ := applyTransition_cases hs env taskId .blocked (blockedOverrides reason)
  · rw [hturn]
    exact .inl rfl
  · rw [hturn]
    refine .inr ⟨rfl, ?_⟩
    intro st hst hin
    obtain hnone | ⟨task, hrow, href⟩ := hwhy
    · simp [hnone] at hst
    · rw [hrow] at hst
      obtain ⟨after, ha⟩ := withTransition_blocked task
        (by rwa [← Option.some.inj hst] at hin) reason
      exact href after ha
  · simp [hread, hsave] at hr

end

open List

-- ==== the accounts

/-- The row is not CREATED. -/
def Cleared (w : World) (x : String) : Prop := w.statusOf x ≠ some .created

def Explained (w : World) (x : String) : Prop :=
  (∃ waveIdx, (waveIdx, x) ∈ w.handed) ∨ x ∈ w.parked ∨
    ∃ status, (x, status) ∈ w.found ∧ Passed status

/-- ACCOUNTED FOR: out of CREATED, and known why. -/
def Accounted (w : World) (x : String) : Prop := Cleared w x ∧ Explained w x

def Held (w : World) (x : String) : Prop :=
  ∃ j ∈ w.judged, j.taskId = x ∧ j.verdict = .awaiting

variable {w w' : World} {x : String}

theorem Passed.cleared (h : Passed (w.statusOf x)) : Cleared w x := by
  intro hc
  exact h .created hc (by decide)

def Spares (keys : List String) (env : Environment) : Prop :=
  ∀ r ∈ env.others, ∀ x ∈ keys, SparesId x r

structure Works (keys : List String) (env : Environment) : Prop where
  others : Spares keys env
  reads : ∀ taskId, env.raises (.getTask taskId) = false ∧
    (env.turn (.getTask taskId)).readRaises = false
  parks : ∀ taskId overrides, env.raises (.submit taskId .blocked overrides) = false ∧
    (env.turn (.submit taskId .blocked overrides)).readRaises = false ∧
      (env.turn (.submit taskId .blocked overrides)).saveRaises = false

/-- And a preparation rebuilds all of its wave, or declines it. -/
structure Serves (keys : List String) (env : Environment) : Prop extends Works keys env where
  prepares : ∀ leftOut, env.prepared = .rebuilt leftOut → leftOut = []

-- ==== going onward

/-- One world after another, with the accounts of the first. -/
structure Onward (keys : List String) (w w' : World) : Prop where
  sound : w'.engine.Sound
  cleared : ∀ x ∈ keys, Cleared w x → Cleared w' x
  handed : ∀ h ∈ w.handed, h ∈ w'.handed
  parked : ∀ x ∈ w.parked, x ∈ w'.parked
  found : ∀ f ∈ w.found, f ∈ w'.found
  judged : ∀ j ∈ w.judged, j ∈ w'.judged

variable {keys : List String}

theorem Onward.refl (h : w.engine.Sound) : Onward keys w w :=
  ⟨h, fun _ _ hx => hx, fun _ hx => hx, fun _ hx => hx, fun _ hx => hx, fun _ hx => hx⟩

theorem Onward.trans {w'' : World} (h : Onward keys w w') (h' : Onward keys w' w'') :
    Onward keys w w'' where
  sound := h'.sound
  cleared x hx hw := h'.cleared x hx (h.cleared x hx hw)
  handed x hx := h'.handed x (h.handed x hx)
  parked x hx := h'.parked x (h.parked x hx)
  found x hx := h'.found x (h.found x hx)
  judged x hx := h'.judged x (h.judged x hx)

theorem Onward.accounted (h : Onward keys w w') (hx : x ∈ keys) (hw : Accounted w x) :
    Accounted w' x := by
  refine ⟨h.cleared x hx hw.1, ?_⟩
  obtain ⟨waveIdx, hhand⟩ | hpark | ⟨status, hf, hpass⟩ := hw.2
  · exact .inl ⟨waveIdx, h.handed _ hhand⟩
  · exact .inr (.inl (h.parked x hpark))
  · exact .inr (.inr ⟨status, h.found _ hf, hpass⟩)

theorem Onward.held (h : Onward keys w w') (hw : Held w x) : Held w' x := by
  obtain ⟨j, hj, hwhy⟩ := hw
  exact ⟨j, h.judged j hj, hwhy⟩

theorem interfered_onward (h : w.engine.Sound) {env : Environment} (henv : Spares keys env) :
    Onward keys w (w.interfered env.others) := by
  unfold Spares at henv
  generalize env.others = others at henv
  have hboth : (others.foldl TaskEngine.step w.engine).Sound ∧
      ∀ x ∈ keys, Cleared w x → Cleared (w.interfered others) x := by
    unfold World.interfered Cleared World.statusOf
    generalize w.engine = s at h
    induction others generalizing s with
    | nil => exact ⟨h, fun _ _ hx => hx⟩
    | cons r rest ih =>
      rw [forall_mem_cons] at henv
      obtain ⟨hsnd, hc⟩ := ih henv.2 _ (sound_step h r)
      exact ⟨hsnd, fun x hx hw => hc x hx (statusOf_step h (henv.1 x hx) hw)⟩
  exact ⟨hboth.1, hboth.2, fun _ hx => hx, fun _ hx => hx, fun _ hx => hx, fun _ hx => hx⟩

/-- STEP LEMMA: an operation takes the world onward. -/
theorem operate_onward (h : w.engine.Sound) (op : Operation) (env : Environment) :
    Onward keys w (operate w op env).1 := by
  cases op with
  | getTask taskId =>
    simp only [operate]
    split
    · exact Onward.refl h
    · exact ⟨h, fun _ _ hx => hx, fun _ hx => hx, fun _ hx => hx,
        fun _ hx => mem_cons_of_mem _ hx, fun _ hx => hx⟩
  | submit taskId target overrides =>
    have hsnd := sound_step h (transitionRequest env (.submit taskId target overrides)
      taskId target overrides)
    have hc : ∀ x ∈ keys, Cleared w x → (Option.map TaskFields.status
        ((TaskEngine.step w.engine (transitionRequest env (.submit taskId target overrides)
          taskId target overrides)).tasks x)) ≠ some .created := by
      intro x _ hx
      refine statusOf_step h ?_ hx
      intro hcreated
      cases hcreated
    simp only [operate]
    split
    · unfold World.parking
      split
      · exact ⟨hsnd, hc, fun _ hx => hx, fun _ hx => mem_cons_of_mem _ hx,
          fun _ hx => mem_cons_of_mem _ hx, fun _ hx => hx⟩
      · exact ⟨hsnd, hc, fun _ hx => hx, fun _ hx => hx,
          fun _ hx => mem_cons_of_mem _ hx, fun _ hx => hx⟩
    · exact ⟨hsnd, hc, fun _ hx => hx, fun _ hx => hx, fun _ hx => hx, fun _ hx => hx⟩
  | executeGroup waveIdx group =>
    exact ⟨h, fun _ _ hx => hx, fun _ hx => mem_append_right _ hx, fun _ hx => hx,
      fun _ hx => hx, fun _ hx => hx⟩
  | judge judgement =>
    exact ⟨h, fun _ _ hx => hx, fun _ hx => hx, fun _ hx => hx, fun _ hx => hx,
      fun _ hx => mem_cons_of_mem _ hx⟩
  | _ => exact ⟨h, fun _ _ hx => hx, fun _ hx => hx, fun _ hx => hx, fun _ hx => hx,
      fun _ hx => hx⟩

theorem parking_onward (h : w.engine.Sound) (taskId : String) (landed : Bool) :
    Onward keys w (w.parking taskId landed) := by
  unfold World.parking
  split
  · exact ⟨h, fun _ _ hx => hx, fun _ hx => hx, fun _ hx => mem_cons_of_mem _ hx,
      fun _ hx => hx, fun _ hx => hx⟩
  · exact ⟨h, fun _ _ hx => hx, fun _ hx => hx, fun _ hx => hx, fun _ hx => hx, fun _ hx => hx⟩

/-- STEP LEMMA: an operation, after whatever others did. -/
theorem exec_onward (h : w.engine.Sound) (op : Operation) {env : Environment}
    (henv : Spares keys env) : Onward keys w (exec w op env).1 := by
  have ho := interfered_onward h henv
  unfold exec
  split
  · split
    · exact ho.trans (operate_onward ho.sound _ env)
    · exact ho.trans (parking_onward ho.sound _ false)
    · exact ho
  · exact ho.trans (operate_onward ho.sound op env)

abbrev Comes {α : Type} (A : Environment → Prop) (p : Call α)
    (Q : Except Error α → World → Prop) (w : World) : Prop :=
  p.Ensures exec A Q w

theorem Comes.onward {α : Type} {A : Environment → Prop} {p : Call α}
    {Q : Except Error α → World → Prop} (h : Comes A p Q w) (hA : ∀ env, A env → Spares keys env)
    (hw : w.engine.Sound) : Comes A p (fun out t => Q out t ∧ Onward keys w t) w := by
  refine Ensures.keeping ?_ h (Onward.refl hw)
  intro t op env henv hon
  exact hon.trans (exec_onward hon.sound op (hA env henv))

theorem Serves.spares (env : Environment) (h : Serves keys env) : Spares keys env := h.others

end

open List

section
open Synthorg.Core Lib Lib.Program TaskEngine

variable {keys : List String}

-- ==== reads and parks

structure Seen (t : World) (taskId : String) (live : Option Task) : Prop where
  found : (taskId, live.map fun l : Task => l.status) ∈ t.found
  row : live.map Task.toTaskFields = t.engine.tasks taskId

variable {t w : World} {taskId : String} {live : Option Task}
  {assignments left : List AgentAssignment} {A : Environment → Prop}

theorem Seen.status (h : Seen t taskId live) :
    t.statusOf taskId = live.map fun l : Task => l.status := by
  unfold World.statusOf
  rw [← h.row, Option.map_map]
  rfl

theorem EngineState.get_seen {env : TurnEnv} (h : w.engine.get env taskId = some live) :
    Seen (w.finding taskId) taskId live := by
  have hrow : live.map Task.toTaskFields = w.engine.tasks taskId := by
    cases live with
    | none => exact (EngineState.get_eq_absent h).symm
    | some task => exact (EngineState.get_eq_task h).2.symm
  have hs : (live.map fun l : Task => l.status) = w.statusOf taskId := by
    unfold World.statusOf
    rw [← hrow, Option.map_map]
    rfl
  refine ⟨?_, hrow⟩
  rw [hs]
  exact mem_cons_self

theorem comes_read (taskId : String) (w : World) :
    Comes A (getTask taskId) (fun out t => ∀ live, out = .ok live → Seen t taskId live) w := by
  intro env _
  by_cases hr : env.raises (.getTask taskId) = true
  · simp only [exec, hr]
    intro live hlive
    cases hlive
  · simp only [exec, hr, operate]
    cases hget : (w.interfered env.others).engine.get (env.turn (.getTask taskId)) taskId with
    | none =>
      intro live hlive
      cases hlive
    | some live =>
      intro live' hlive
      cases hlive
      exact EngineState.get_seen hget

theorem comes_getTask (taskId : String) (hw : w.engine.Sound) : Comes (Serves keys) (getTask taskId)
      (fun out t => ∃ live, out = .ok live ∧ Seen t taskId live) w := by
  intro env henv
  obtain ⟨hr, hread⟩ := henv.reads taskId
  have ho := interfered_onward hw henv.others
  simp only [exec, hr, operate]
  cases hget : (w.interfered env.others).engine.get (env.turn (.getTask taskId)) taskId with
  | none =>
    exfalso
    unfold EngineState.get at hget
    rw [if_neg (by simp [hread])] at hget
    split at hget
    · cases hget
    · next row hrow =>
      have hok := (Task.modelValidate_ok_iff row []
        ⟨row, ho.sound.coherent _ _ hrow⟩).2 ⟨rfl, rfl⟩
      simp [hok] at hget
  | some live => exact ⟨live, rfl, EngineState.get_seen hget⟩

theorem Seen.accounted (h : Seen t taskId live)
    (hpass : Passed (live.map fun l : Task => l.status)) : Accounted t taskId := by
  refine ⟨Passed.cleared ?_, .inr (.inr ⟨_, h.found, hpass⟩)⟩
  rwa [h.status]

/-- PARK LEMMA of the run: whatever a park comes to, its row is accounted for. -/
theorem comes_parkRow (reason : BlockedReason) (hw : w.engine.Sound) :
    Comes (Serves keys) (parkRow taskId reason)
      (fun out t => (∃ landed, out = .ok landed) ∧ Accounted t taskId) w := by
  have hs : Comes (Serves keys) (submit taskId .blocked (blockedOverrides reason))
      (fun out t => ∃ result, out = .ok result ∧ Accounted t taskId) w := by
    intro env henv
    obtain ⟨hr, hread, hsave⟩ := henv.parks taskId (blockedOverrides reason)
    have ho := interfered_onward hw henv.others
    simp only [exec, hr, Bool.false_and, Bool.false_eq_true, if_false, operate, if_true]
    refine ⟨_, rfl, ?_⟩
    obtain hland | ⟨hsame, hpass⟩ := park_lands ho.sound hread hsave env.requestId taskId reason
    · have hb := transition_succeeded ho.sound hland
      unfold transitionRequest World.parking
      rw [if_pos hland]
      refine ⟨?_, .inr (.inl mem_cons_self)⟩
      show Option.map TaskFields.status _ ≠ _
      rw [hb]
      simp
    · have hc : Cleared (w.interfered env.others) taskId := Passed.cleared hpass
      unfold transitionRequest World.parking
      split
      · refine ⟨?_, .inr (.inl mem_cons_self)⟩
        show Option.map TaskFields.status _ ≠ _
        rw [hsame]
        exact hc
      · refine ⟨?_, .inr (.inr ⟨_, mem_cons_self, hpass⟩)⟩
        show Option.map TaskFields.status _ ≠ _
        rw [hsame]
        exact hc
  refine (Ensures.attempt (Q := fun out t => ∃ result, out = .ok (.ok result) ∧
    Accounted t taskId) (hs.mono ?_)).bind ?_ ?_
  · intro out t hout
    obtain ⟨result, hres, hacc⟩ := hout
    exact ⟨result, by rw [hres], hacc⟩
  · intro out t hout
    obtain ⟨result, hres, hacc⟩ := hout
    cases hres
    exact ⟨⟨_, rfl⟩, hacc⟩
  · intro e t hout
    obtain ⟨result, hres, _⟩ := hout
    cases hres

theorem comes_parkIfAwaitingDispatch (reason : BlockedReason) (hw : w.engine.Sound) :
    Comes (Serves keys) (parkIfAwaitingDispatch taskId reason)
      (fun out t => (∃ landed, out = .ok landed) ∧ Accounted t taskId) w := by
  refine (Ensures.attempt (Q := fun out t => (∃ live, out = .ok (.ok live) ∧
    Seen t taskId live) ∧ Onward keys w t) (((comes_getTask taskId hw).onward Serves.spares hw).mono
      ?_)).bind
      ?_ ?_
  · intro out t hout
    obtain ⟨⟨live, hlive, hseen⟩, hon⟩ := hout
    exact ⟨⟨live, by rw [hlive], hseen⟩, hon⟩
  · intro out t hout
    obtain ⟨⟨live, hlive, hseen⟩, hon⟩ := hout
    cases hlive
    cases live with
    | none => exact ⟨⟨_, rfl⟩, hseen.accounted (by simp [Passed])⟩
    | some task =>
      dsimp only
      split
      · next hs =>
        refine ⟨⟨_, rfl⟩, hseen.accounted ?_⟩
        intro st hst
        rw [← Option.some.inj hst]
        exact hs
      · exact comes_parkRow reason hon.sound
  · intro e t hout
    obtain ⟨⟨live, hlive, _⟩, _⟩ := hout
    cases hlive

theorem comes_parkAll (reason : BlockedReason) (taskIds : List String) (hw : w.engine.Sound) :
    Comes (Serves keys) (parkAll reason taskIds)
      (fun out t => (∃ n, out = .ok n) ∧ ∀ x ∈ taskIds, x ∈ keys → Accounted t x) w := by
  induction taskIds generalizing w with
  | nil => exact ⟨⟨0, rfl⟩, by simp⟩
  | cons taskId rest ih =>
    refine ((comes_parkIfAwaitingDispatch reason hw).onward Serves.spares hw).bind ?_ ?_
    · intro parked t hout
      obtain ⟨⟨_, hacc⟩, hon⟩ := hout
      refine ((ih hon.sound).onward Serves.spares hon.sound).bind ?_ ?_
      · intro others t' hout'
        obtain ⟨⟨_, hrest⟩, hon'⟩ := hout'
        refine ⟨⟨_, rfl⟩, ?_⟩
        intro x hx hkey
        cases mem_cons.1 hx with
        | inl heq => exact hon'.accounted hkey (heq ▸ hacc)
        | inr hx => exact hrest x hx hkey
      · intro e t' hout'
        obtain ⟨⟨⟨n, hn⟩, _⟩, _⟩ := hout'
        cases hn
    · intro e t hout
      obtain ⟨⟨⟨landed, hland⟩, _⟩, _⟩ := hout
      cases hland

theorem comes_parkGroups (stoppedLevel : Int) (groups : List ParallelExecutionGroup)
    (hw : w.engine.Sound) :
    Comes (Serves keys) (parkGroups stoppedLevel groups)
      (fun out t => (∃ n, out = .ok n) ∧
        ∀ g ∈ groups, ∀ x ∈ g.taskIds, x ∈ keys → Accounted t x) w := by
  induction groups generalizing w with
  | nil => exact ⟨⟨0, rfl⟩, by simp⟩
  | cons group rest ih =>
    refine ((comes_parkAll _ group.taskIds hw).onward Serves.spares hw).bind ?_ ?_
    · intro parked t hout
      obtain ⟨⟨_, hgroups⟩, hon⟩ := hout
      refine ((ih hon.sound).onward Serves.spares hon.sound).bind ?_ ?_
      · intro others t' hout'
        obtain ⟨⟨_, hrest⟩, hon'⟩ := hout'
        refine ⟨⟨_, rfl⟩, ?_⟩
        intro g hg x hx hkey
        cases mem_cons.1 hg with
        | inl heq => exact hon'.accounted hkey (hgroups x (heq ▸ hx) hkey)
        | inr hg => exact hrest g hg x hx hkey
      · intro e t' hout'
        obtain ⟨⟨⟨n, hn⟩, _⟩, _⟩ := hout'
        cases hn
    · intro e t hout
      obtain ⟨⟨⟨n, hn⟩, _⟩, _⟩ := hout
      cases hn

-- ==== the two gates

def Sifted (keys : List String) (assignments left : List AgentAssignment) (t : World) : Prop :=
  ∀ x ∈ assignments.map AgentAssignment.taskId, x ∈ keys →
    x ∈ left.map AgentAssignment.taskId ∨ Accounted t x ∨ Held t x

theorem Sifted.onward {t' : World} (h : Sifted keys assignments left t) (hon : Onward keys t t') :
    Sifted keys assignments left t' := by
  intro x hx hkey
  obtain hleft | hacc | hheld := h x hx hkey
  · exact .inl hleft
  · exact .inr (.inl (hon.accounted hkey hacc))
  · exact .inr (.inr (hon.held hheld))

theorem Sifted.stays (h : Sifted keys assignments left t) (a : AgentAssignment) :
    Sifted keys (a :: assignments) (a :: left) t := by
  intro x hx hkey
  rw [map_cons, mem_cons] at hx ⊢
  cases hx with
  | inl hx => exact .inl (.inl hx)
  | inr hx => exact (h x hx hkey).imp_left Or.inr

theorem Sifted.drops (h : Sifted keys assignments left t) {a : AgentAssignment}
    (ha : a.taskId ∈ keys → Accounted t a.taskId ∨ Held t a.taskId) :
    Sifted keys (a :: assignments) left t := by
  intro x hx hkey
  rw [map_cons, mem_cons] at hx
  cases hx with
  | inl hx =>
    rw [hx] at hkey ⊢
    exact .inr (ha hkey)
  | inr hx => exact h x hx hkey

theorem passed_of_not_awaitsDispatch {status : Option TaskStatus}
    (h : awaitsDispatch status = false) : Passed status := by
  intro st hst hin
  rw [hst] at h
  simp only [abandonableStatuses, mem_cons, not_mem_nil, or_false] at hin
  cases hin with
  | inl hst' => simp [awaitsDispatch, awaitsDispatchStatuses, hst'] at h
  | inr hst' => simp [awaitsDispatch, awaitsDispatchStatuses, hst'] at h

theorem comes_narrowFrom (assignments : List AgentAssignment) (hw : w.engine.Sound) :
    Comes (Serves keys) (narrowFrom assignments)
      (fun out t => ∀ r, out = .ok r → Sifted keys assignments r.1 t) w := by
  induction assignments generalizing w with
  | nil =>
    intro r hr x hx
    cases hx
  | cons a rest ih =>
    refine ((comes_getTask a.taskId hw).onward Serves.spares hw).bind ?_
      (fun _ _ _ _ hr => by cases hr)
    intro live t hout
    obtain ⟨⟨live', hlive, hseen⟩, hon⟩ := hout
    cases hlive
    refine ((ih hon.sound).onward Serves.spares hon.sound).bind ?_ (fun _ _ _ _ hr => by cases hr)
    intro r t' hout'
    have hrest := hout'.1 r rfl
    dsimp only
    split
    · intro r' hr'
      cases hr'
      exact hrest.stays a
    · next hs =>
      intro r' hr'
      cases hr'
      refine hrest.drops fun hkey => .inl (hout'.2.accounted hkey (hseen.accounted ?_))
      exact passed_of_not_awaitsDispatch (Bool.eq_false_iff.2 hs)

theorem comes_judge (hA : ∀ env, A env → Spares keys env) (judgement : Judgement)
    (hw : w.engine.Sound) :
    Comes A (judge judgement)
      (fun out t => (out = .ok () ∧ judgement ∈ t.judged) ∧ Onward keys w t) w := by
  refine Comes.onward ?_ hA hw
  intro env _
  simp only [exec, Operation.awaited, Bool.and_false]
  exact ⟨rfl, mem_cons_self⟩

theorem comes_gateFrom (waveIdx : Nat) (dependencies : DependencyMap) (known : Known)
    (assignments : List AgentAssignment) (hw : w.engine.Sound) :
    Comes (Serves keys) (gateFrom waveIdx dependencies known assignments)
      (fun out t => ∀ r, out = .ok r → Sifted keys assignments r.1 t) w := by
  induction assignments generalizing known w with
  | nil =>
    intro r hr x hx
    cases hx
  | cons a rest ih =>
    refine (Comes.onward (Ensures.ends _ _) Serves.spares hw).bind ?_
      (fun _ _ _ _ hr => by cases hr)
    intro known t hout
    have hon := hout.2
    dsimp only
    split
    · split
      · refine (comes_judge Serves.spares _ hon.sound).bind ?_ (fun _ _ _ _ hr => by cases hr)
        intro _ t' hj
        refine (ih known hj.2.sound).bind ?_ (fun _ _ _ _ hr => by cases hr)
        intro r t'' hrest r' hr'
        cases hr'
        exact (hrest r rfl).stays a
      · refine (comes_judge Serves.spares _ hon.sound).bind ?_ (fun _ _ _ _ hr => by cases hr)
        intro _ t' hj
        have hheld : Held t' a.taskId := ⟨_, hj.1.2, rfl, rfl⟩
        refine (Comes.onward (ih known hj.2.sound) Serves.spares hj.2.sound).bind ?_
          (fun _ _ _ _ hr => by cases hr)
        intro r t'' hrest r' hr'
        cases hr'
        exact (hrest.1 r rfl).drops fun _ => .inr (hrest.2.held hheld)
    · refine (Comes.onward (comes_parkRow _ hon.sound) Serves.spares hon.sound).bind ?_
        (fun _ _ _ _ hr => by cases hr)
      intro landed t' hpark
      split
      · refine (comes_judge Serves.spares _ hpark.2.sound).bind ?_ (fun _ _ _ _ hr => by cases hr)
        intro _ t'' hj
        refine Ensures.mono ?_ (Comes.onward (ih known hj.2.sound) Serves.spares hj.2.sound)
        intro out u hrest r hr
        refine (hrest.1 r hr).drops fun hkey => .inl ?_
        exact (hj.2.trans hrest.2).accounted hkey hpark.1.2
      · refine (comes_judge Serves.spares _ hpark.2.sound).bind ?_ (fun _ _ _ _ hr => by cases hr)
        intro _ t'' hj
        refine (ih known hj.2.sound).bind ?_ (fun _ _ _ _ hr => by cases hr)
        intro r u hrest r' hr'
        cases hr'
        exact (hrest r rfl).stays a

/-- GATE LEMMA: what a wave loses at its gate is accounted for or held back. -/
theorem comes_gateWave (waveIdx : Nat) (dependencies : DependencyMap)
    (group : ParallelExecutionGroup) (hw : w.engine.Sound) :
    Comes (Serves keys) (gateWave waveIdx dependencies group)
      (fun out t => ∀ g, out = .ok g → Sifted keys group.assignments
        (g.group.elim [] ParallelExecutionGroup.assignments) t) w := by
  have hn : Comes (Serves keys) (narrowToAwaitingDispatch group) (fun out t => ∀ r, out = .ok r →
      Sifted keys group.assignments r.1.assignments t) w := by
    refine (comes_narrowFrom group.assignments hw).bind ?_ (fun _ _ _ _ hr => by cases hr)
    intro r t hr r' hr'
    cases hr'
    exact hr r rfl
  refine (Comes.onward hn Serves.spares hw).bind ?_ (fun _ _ _ _ hg => by cases hg)
  intro unsettled t hout
  have hon := hout.2
  have hgate : Comes (Serves keys) (gateOnDependencies waveIdx unsettled.1 dependencies)
      (fun out t => ∀ r, out = .ok r →
        Sifted keys unsettled.1.assignments r.1.assignments t) t := by
    refine (comes_gateFrom waveIdx dependencies _ unsettled.1.assignments hon.sound).bind ?_
      (fun _ _ _ _ hr => by cases hr)
    intro r t hr r' hr'
    cases hr'
    exact hr r rfl
  refine (Comes.onward hgate Serves.spares hon.sound).bind ?_ (fun _ _ _ _ hg => by cases hg)
  intro gated t' hout'
  have hs : Sifted keys group.assignments gated.1.assignments t' := by
    intro x hx hkey
    obtain hleft | hrest := (hout.1 unsettled rfl).onward hout'.2 x hx hkey
    · exact hout'.1 gated rfl x hleft hkey
    · exact .inr hrest
  dsimp only
  split
  · intro g hg
    cases hg
    exact hs
  · next he =>
    have hnone : gated.1.assignments = [] := not_not.1 he
    rw [hnone] at hs
    refine (Comes.onward (Ensures.ends _ _) Serves.spares hout'.2.sound).bind ?_
      (fun _ _ _ _ hg => by cases hg)
    intro _ u hp g hg
    cases hg
    exact hs.onward hp.2

-- ==== a dispatch

section Dispatch

variable {A : Environment → Prop} (hA : ∀ env, A env → Spares keys env) {w : World}

include hA

theorem comes_assign (taskId : String) (overrides : FieldUpdates) (hw : w.engine.Sound) :
    Comes A (submit taskId .assigned overrides) (fun out t => ∀ result, out = .ok result →
      ∀ task version previous, result.outcome = .success (some task) version previous →
        task.id.text = taskId ∧ Cleared t taskId) w := by
  intro env henv
  have ho := interfered_onward hw (hA env henv)
  by_cases hr : env.raises (.submit taskId .assigned overrides) = true
  · simp only [exec, hr]
    intro result hres
    cases hres
  · simp only [exec, hr]
    intro result hres task version previous houtcome
    cases hres
    refine ⟨transition_written ho.sound houtcome, ?_⟩
    have hsucc : TaskMutationResult.succeeded
        (TaskEngine.result (w.interfered env.others).engine (transitionRequest env
          (.submit taskId .assigned overrides) taskId .assigned overrides)) = true := by
      rw [TaskMutationResult.succeeded, houtcome]
    have hassigned := transition_succeeded ho.sound hsucc
    intro hc
    have hboth := hassigned.symm.trans hc
    cases hboth

/-- An assignment that came through carries its own row, which is out of
CREATED. -/
theorem comes_persistOne (a : AgentAssignment) (hw : w.engine.Sound) :
    Comes A (persistOne a) (fun out t => ∀ r, out = .ok r →
      r.1.taskId = a.taskId ∧ Cleared t a.taskId) w := by
  refine (Comes.onward (comes_read a.taskId w) hA hw).bind ?_ (fun _ _ _ _ hr => by cases hr)
  intro live t hout
  have hseen := hout.1 live rfl
  have hon := hout.2
  cases live with
  | none =>
    intro r hr
    cases hr
  | some live =>
    dsimp only
    split
    · next howned =>
      intro r hr
      cases hr
      refine ⟨hon.sound.keyed _ _ hseen.row.symm, ?_⟩
      intro hc
      have hs : some live.status = some TaskStatus.created := by
        rw [← hc, hseen.status]
        rfl
      have hin := howned.1
      rw [Option.some.inj hs] at hin
      exact absurd hin (by decide)
    · refine (comes_assign hA a.taskId _ hon.sound).bind ?_ (fun _ _ _ _ hr => by cases hr)
      intro result u hres
      split
      · next task version previous ho =>
        intro r hr
        cases hr
        exact hres result rfl task version previous ho
      · intro r hr
        cases hr

/-- A group that came through holds the same subtasks, all out of CREATED. -/
theorem comes_persistFrom (moved assignments : List AgentAssignment) (hw : w.engine.Sound) :
    Comes A (persistFrom moved assignments) (fun out t => ∀ r, out = .ok r →
      r.map AgentAssignment.taskId = assignments.map AgentAssignment.taskId ∧
        ∀ x ∈ assignments.map AgentAssignment.taskId, x ∈ keys → Cleared t x) w := by
  induction assignments generalizing moved w with
  | nil =>
    intro r hr
    cases hr
    simp
  | cons candidate rest ih =>
    have hone : Comes A (persistOne candidate).attempt (fun out t => (∀ r,
        out = .ok (.ok r) → r.1.taskId = candidate.taskId ∧ Cleared t candidate.taskId) ∧
          Onward keys w t) w := by
      refine Comes.onward (Ensures.attempt ((comes_persistOne hA candidate hw).mono ?_)) hA hw
      intro out t hout r hr
      exact hout r (Except.ok.inj hr)
    refine hone.bind ?_ (fun _ _ _ _ hr => by cases hr)
    intro one t hout
    obtain ⟨hok, hon⟩ := hout
    cases one with
    | error e =>
      refine (Ensures.ends (release moved) t).bind ?_ (fun _ _ _ _ hr => by cases hr)
      intro _ u _ r hr
      cases hr
    | ok r =>
      obtain ⟨hid, hc⟩ := hok _ rfl
      refine (Comes.onward (ih _ hon.sound) hA hon.sound).bind ?_ (fun _ _ _ _ hr => by cases hr)
      intro others u hout' r hr
      cases hr
      obtain ⟨hids, ho⟩ := hout'.1 others rfl
      rw [map_cons, hids, hid]
      refine ⟨rfl, ?_⟩
      intro x hx hkey
      cases mem_cons.1 hx with
      | inl hx =>
        rw [hx] at hkey ⊢
        exact hout'.2.cleared _ hkey hc
      | inr hx => exact ho x hx hkey

theorem comes_persist (group : ParallelExecutionGroup) (hw : w.engine.Sound) :
    Comes A (persist group) (fun out t => ∀ g, out = .ok g → g.taskIds = group.taskIds ∧
      ∀ x ∈ group.taskIds, x ∈ keys → Cleared t x) w := by
  refine (comes_persistFrom hA [] group.assignments hw).bind ?_ (fun _ _ _ _ hg => by cases hg)
  intro assignments t hout g hg
  cases hg
  exact hout assignments rfl

end Dispatch

/-- DISPATCH LEMMA: a dispatch that does not raise accounts for all it was
given. -/
theorem comes_dispatchGatedWave (run : WaveRun) (waveIdx : Nat) (gated : ParallelExecutionGroup)
    (hw : w.engine.Sound) :
    Comes (Serves keys) (dispatchGatedWave run waveIdx gated) (fun out t => ∀ r, out = .ok r →
      ∀ x ∈ gated.taskIds, x ∈ keys → Accounted t x) w := by
  refine (Comes.onward (comes_persist Serves.spares gated hw) Serves.spares hw).bind ?_
    (fun _ _ _ _ hr => by cases hr)
  intro assigned t hout
  obtain ⟨hids, hc⟩ := hout.1 assigned rfl
  have hon := hout.2
  have hexecute : Comes (Serves keys) (executeGroup waveIdx assigned)
      (fun out u => ∀ r, out = .ok r →
      ∀ x ∈ gated.taskIds, x ∈ keys → Accounted u x) t := by
    intro env henv
    have ho := interfered_onward hon.sound henv.others
    by_cases hraises : env.raises (.executeGroup waveIdx assigned) = true
    · simp only [exec, hraises]
      intro r hr
      cases hr
    · simp only [exec, hraises]
      intro r hr x hx hkey
      refine ⟨ho.cleared x hkey (hc x hx hkey), .inl ⟨waveIdx, ?_⟩⟩
      refine mem_append_left _ (mem_map.2 ⟨x, ?_, rfl⟩)
      rwa [hids]
  refine (Comes.onward hexecute Serves.spares hon.sound).bind ?_ (fun _ _ _ _ hr => by cases hr)
  intro result u hout'
  have hacc := hout'.1 result rfl
  refine Ensures.mono ?_ (Comes.onward (Ensures.ends _ u) Serves.spares hout'.2.sound)
  intro out v hv r _ x hx hkey
  exact hv.2.accounted hkey (hacc x hx hkey)

-- ==== the loop

theorem comes_prepareAndDispatch (run : WaveRun) (waveIdx : Nat) (gated : ParallelExecutionGroup)
    (hw : w.engine.Sound) :
    Comes (Serves keys) (prepareAndDispatch run waveIdx gated) (fun out t => ∀ r, out = .ok r →
      ∀ x ∈ gated.taskIds, x ∈ keys → Accounted t x) w := by
  have hpre : Comes (Serves keys) (prepare waveIdx gated) (fun out t => ∀ prepared,
      out = .ok (some prepared) → prepared.taskIds = gated.taskIds) w := by
    intro env henv
    by_cases hraises : env.raises (.prepare waveIdx gated) = true
    · simp only [exec, hraises]
      intro prepared hp
      cases hp
    · simp only [exec, hraises]
      intro prepared hp
      cases hprepare : env.prepared with
      | declined =>
        rw [hprepare] at hp
        cases hp
      | rebuilt leftOut =>
        rw [hprepare, henv.prepares leftOut hprepare] at hp
        cases hp
        simp [ParallelExecutionGroup.taskIds]
  refine (Comes.onward hpre Serves.spares hw).bind ?_ (fun _ _ _ _ hr => by cases hr)
  intro prepared t hout
  obtain ⟨hprepare, hon⟩ := hout
  cases prepared with
  | none =>
    refine (comes_parkAll .runStopped gated.taskIds hon.sound).bind ?_
      (fun _ _ _ _ hr => by cases hr)
    intro n u hpark r hr
    exact hpark.2
  | some prepared =>
    rw [← hprepare prepared rfl]
    exact comes_dispatchGatedWave run waveIdx prepared hon.sound

/-- WAVE LEMMA: a wave that does not raise leaves unaccounted for only what it holds back. -/
theorem comes_runOneWave (run : WaveRun) (waveIdx : Nat) (group : ParallelExecutionGroup)
    (hw : w.engine.Sound) :
    Comes (Serves keys) (runOneWave run waveIdx group) (fun out t => ∀ stop, out = .ok stop →
      ∀ x ∈ group.taskIds, x ∈ keys → Accounted t x ∨ Held t x) w := by
  refine (Comes.onward (comes_gateWave waveIdx run.dependencies group hw) Serves.spares hw).bind ?_
    (fun _ _ _ _ hr => by cases hr)
  intro outcome t hout
  have hs := hout.1 outcome rfl
  have hon := hout.2
  cases hg : outcome.group with
  | none =>
    rw [hg] at hs
    have hall : ∀ x ∈ group.taskIds, x ∈ keys → Accounted t x ∨ Held t x := by
      intro x hx hkey
      obtain hleft | hrest := hs x hx hkey
      · cases hleft
      · exact hrest
    dsimp only
    split
    · exact fun _ _ => hall
    · exact fun _ _ => hall
  | some gated =>
    rw [hg] at hs
    -- whatever accounts for the gated subtasks accounts for the wave
    have hall : ∀ u, Onward keys t u → (∀ x ∈ gated.taskIds, x ∈ keys → Accounted u x) →
        ∀ x ∈ group.taskIds, x ∈ keys → Accounted u x ∨ Held u x := by
      intro u hu hgated x hx hkey
      obtain hleft | hrest := hs.onward hu x hx hkey
      · exact .inl (hgated x hleft hkey)
      · exact hrest
    dsimp only
    split
    · refine (Comes.onward (comes_dispatchGatedWave run waveIdx gated hon.sound)
        Serves.spares hon.sound).bind ?_ (fun _ _ _ _ hr => by cases hr)
      intro r u hout' stop hstop
      exact hall u hout'.2 (hout'.1 r rfl)
    · have hd : Comes (Serves keys) (prepareAndDispatch run waveIdx gated).attempt
          (fun out u => (∀ r, out = .ok (.ok r) →
            ∀ x ∈ gated.taskIds, x ∈ keys → Accounted u x) ∧ Onward keys t u) t := by
        refine Comes.onward (Ensures.attempt
          ((comes_prepareAndDispatch run waveIdx gated hon.sound).mono ?_)) Serves.spares hon.sound
        intro out u hu r hr
        exact hu r (Except.ok.inj hr)
      refine hd.bind ?_ (fun _ _ _ _ hr => by cases hr)
      intro dispatched u hout'
      cases dispatched with
      | error e =>
        refine (Ensures.ends _ u).bind ?_ (fun _ _ _ _ hr => by cases hr)
        intro _ v _ stop hstop
        cases hstop
      | ok r =>
        obtain ⟨stop, verdict⟩ := r
        refine (Comes.onward (Ensures.ends (settleWave waveIdx verdict) u)
          Serves.spares hout'.2.sound).bind ?_ (fun _ _ _ _ hr => by cases hr)
        intro _ v hv stop' hstop
        refine hall v (hout'.2.trans hv.2) ?_
        intro x hx hkey
        exact hv.2.accounted hkey (hout'.1 _ rfl x hx hkey)

end

open Synthorg.Core Lib Lib.Program TaskEngine Decomposition

variable {keys : List String}

theorem comes_abandonAfter {groups rest : List ParallelExecutionGroup} {waveIdx : Nat}
    (hrest : groups.drop (waveIdx + 1) = rest) {w : World} (hw : w.engine.Sound) :
    Comes (Serves keys) (abandonAfter groups waveIdx)
      (fun _ t => ∀ g ∈ rest, ∀ x ∈ g.taskIds, x ∈ keys → Accounted t x) w := by
  unfold abandonAfter abandonRemaining
  rw [hrest]
  refine (comes_parkGroups _ rest hw).bind ?_ ?_
  · intro n t hout
    exact hout.2
  · intro e t hout
    exact hout.2

/-- RUN LEMMA: the waves that are left, however the loop is left. -/
theorem comes_wavesFrom (run : WaveRun) (groups : List ParallelExecutionGroup) (waveIdx : Nat)
    (rest : List ParallelExecutionGroup) (hrest : groups.drop waveIdx = rest) {w : World}
    (hw : w.engine.Sound) :
    Comes (Serves keys) (wavesFrom run groups waveIdx rest) (fun out t => out = .ok () →
      ∀ g ∈ rest, ∀ x ∈ g.taskIds, x ∈ keys → Accounted t x ∨ Held t x) w := by
  induction rest generalizing waveIdx w with
  | nil => exact fun _ g hg => absurd hg not_mem_nil
  | cons group rest ih =>
    have hnext : groups.drop (waveIdx + 1) = rest := by
      rw [← drop_drop, hrest]
      rfl
    -- this wave's subtasks, and then what is done about the waves after it
    have ha : ∀ (p : Call Unit) t, t.engine.Sound →
        (∀ x ∈ group.taskIds, x ∈ keys → Accounted t x ∨ Held t x) →
        Comes (Serves keys) p (fun out u => out = .ok () →
          ∀ g ∈ rest, ∀ x ∈ g.taskIds, x ∈ keys → Accounted u x ∨ Held u x) t →
        Comes (Serves keys) p (fun out u => out = .ok () →
          ∀ g ∈ group :: rest, ∀ x ∈ g.taskIds, x ∈ keys → Accounted u x ∨ Held u x) t := by
      intro p t ht hgroup hp
      refine Ensures.mono ?_ (Comes.onward hp Serves.spares ht)
      intro out u hout hok g hg x hx hkey
      cases mem_cons.1 hg with
      | inl heq =>
        rw [heq] at hx
        exact (hgroup x hx hkey).imp (hout.2.accounted hkey) hout.2.held
      | inr hg => exact hout.1 hok g hg x hx hkey
    have hstop : ∀ t, t.engine.Sound → Comes (Serves keys) (abandonAfter groups waveIdx)
        (fun out u => out = .ok () →
          ∀ g ∈ rest, ∀ x ∈ g.taskIds, x ∈ keys → Accounted u x ∨ Held u x) t := by
      intro t ht
      refine Ensures.mono ?_ (comes_abandonAfter hnext ht)
      intro out u hall _ g hg x hx hkey
      exact .inl (hall g hg x hx hkey)
    have hone : Comes (Serves keys) (runOneWave run waveIdx group).attempt
        (fun out t => (∀ stop, out = .ok (.ok stop) →
          ∀ x ∈ group.taskIds, x ∈ keys → Accounted t x ∨ Held t x) ∧ Onward keys w t) w := by
      refine Comes.onward (Ensures.attempt ((comes_runOneWave run waveIdx group hw).mono ?_))
        Serves.spares hw
      intro out t hout stop hstop
      exact hout stop (Except.ok.inj hstop)
    refine hone.bind ?_ nofun
    intro outcome t hout
    have hon := hout.2
    cases outcome with
    | error e =>
      refine (Comes.onward (Ensures.ends (recordWaveError waveIdx group e) t) Serves.spares
        hon.sound).bind ?_ nofun
      intro _ u hu
      refine (Comes.onward (comes_parkAll .runStopped group.taskIds hu.2.sound)
        Serves.spares hu.2.sound).bind ?_ nofun
      intro n v hv
      have hgroup : ∀ x ∈ group.taskIds, x ∈ keys → Accounted v x ∨ Held v x :=
        fun x hx hkey => .inl (hv.1.2 x hx hkey)
      split
      · exact ha _ v hv.2.sound hgroup (hstop v hv.2.sound)
      · exact ha _ v hv.2.sound hgroup (ih (waveIdx + 1) hnext hv.2.sound)
    | ok stop =>
      have hgroup := hout.1 stop rfl
      dsimp only
      split
      · exact ha _ t hon.sound hgroup (hstop t hon.sound)
      · exact ha _ t hon.sound hgroup (ih (waveIdx + 1) hnext hon.sound)

theorem comes_executeWaves (run : WaveRun) (groups : List ParallelExecutionGroup) {w : World}
    (hw : w.engine.Sound) :
    Comes (Serves run.dependencies.keys) (executeWaves run groups) (fun out t => out = .ok () →
      ∀ x ∈ run.dependencies.keys, Accounted t x ∨ Held t x) w := by
  have hunroutable : Comes (Serves run.dependencies.keys)
      (parkUnreachable groups run.dependencies.keys) (fun _ t => ∀ x ∈ run.dependencies.keys,
        x ∉ groups.flatMap ParallelExecutionGroup.taskIds → Accounted t x) w := by
    have hall : ∀ t, (∀ x ∈ run.dependencies.keys.filter (fun taskId =>
          taskId ∉ groups.flatMap ParallelExecutionGroup.taskIds),
          x ∈ run.dependencies.keys → Accounted t x) →
        ∀ x ∈ run.dependencies.keys, x ∉ groups.flatMap ParallelExecutionGroup.taskIds →
          Accounted t x := by
      intro t h x hkey hx
      exact h x (mem_filter.2 ⟨hkey, decide_eq_true hx⟩) hkey
    refine (comes_parkAll .dependencyFailed _ hw).bind ?_ ?_
    · intro n t hout
      exact hall t hout.2
    · intro e t hout
      exact hall t hout.2
  refine (Comes.onward hunroutable Serves.spares hw).bind ?_ nofun
  intro _ t hout
  have hon := hout.2
  refine Ensures.mono ?_ (Comes.onward (comes_wavesFrom run groups 0 groups rfl hon.sound)
    Serves.spares hon.sound)
  intro out u hu hok x hkey
  by_cases hx : x ∈ groups.flatMap ParallelExecutionGroup.taskIds
  · obtain ⟨g, hg, hx⟩ := mem_flatMap.1 hx
    exact hu.1 hok g hg x hx hkey
  · exact .inl (hu.2.accounted hkey (hout.1 x hkey hx))

-- ==== what is promised

/-- Where the plan's subtasks are when the run has returned. -/
structure NoneStranded (keys : List String) (w : World) : Prop where
  created : ∀ x ∈ keys, w.statusOf x = some .created → Held w x
  /-- Every other undispatched one was parked, or the run found its row missing
  or past its dispatch. -/
  undispatched : ∀ x ∈ keys, (∀ waveIdx, (waveIdx, x) ∉ w.handed) → ¬ Held w x →
    x ∈ w.parked ∨ ∃ status, (x, status) ∈ w.found ∧ Passed status

/-- RUN LEMMA: a run that returns strands no subtask of its plan. -/
theorem executeWaves_strands_none (run : WaveRun) (groups : List ParallelExecutionGroup)
    (engine : EngineState) (hengine : engine.Sound) (envs : Nat → Environment)
    (he : ∀ n, Serves run.dependencies.keys (envs n))
    (hreturns : ((executeWaves run groups).run exec (World.start engine) envs).1 = .ok ()) :
    NoneStranded run.dependencies.keys
      ((executeWaves run groups).run exec (World.start engine) envs).2 := by
  have hall := (comes_executeWaves run groups (w := World.start engine) hengine).run he hreturns
  constructor
  · intro x hkey hcreated
    obtain haccounted | hheld := hall x hkey
    · exact absurd hcreated haccounted.1
    · exact hheld
  · intro x hkey hhanded hheld
    obtain haccounted | hheld' := hall x hkey
    · obtain ⟨waveIdx, hin⟩ | hrest := haccounted.2
      · exact absurd hin (hhanded waveIdx)
      · exact hrest
    · exact absurd hheld' hheld

-- ==== a wave of two

def pairPlan : DecompositionResult :=
  .mk
    { parentTaskId := "objective"
      subtasks := [DecompositionResult.sampleUnit DecompositionResult.draftId [],
        DecompositionResult.sampleUnit DecompositionResult.reviewId []]
      taskStructure := .parallel }
    [⟨_, DecompositionResult.draft_coherent⟩, ⟨_, DecompositionResult.review_coherent⟩] [] 0 []

/-- An agent for each. -/
def pairRouting : RoutingResult where
  decisions := [⟨DecompositionResult.draftId.text, "ada"⟩,
    ⟨DecompositionResult.reviewId.text, "ben"⟩]
  distinct := by unfold Keyed.Distinct; decide

def storing (rows : List TaskFields) : EngineState where
  tasks := Keyed.lookup (fun f : TaskFields => f.id.text) rows
  versions := VersionTracker.empty

theorem storing_sound {rows : List TaskFields} (h : ∀ row ∈ rows, row.Coherent) :
    (storing rows).Sound :=
  ⟨fun _ row hrow => h row (Keyed.lookup_mem hrow).1, fun _ _ hrow => (Keyed.lookup_mem hrow).2⟩

/-- Nobody interferes and nothing raises. -/
def quiet (prepared : Prepared) : Environment where
  others := []
  turn := fun _ => { newId := DecompositionResult.outlineId, now := 0 }
  raises := fun _ => false
  requestId := "req"
  prepared := prepared
  executed := ⟨0, []⟩

theorem quiet_works (keys : List String) (prepared : Prepared) : Works keys (quiet prepared) :=
  ⟨fun _ hr => absurd hr not_mem_nil, fun _ => ⟨rfl, rfl⟩, fun _ _ => ⟨rfl, rfl, rfl⟩⟩

def pairRun : WaveRun := ⟨false, dependencyMap pairPlan.dispatchSubtasks, true⟩

def pairGroups : List ParallelExecutionGroup :=
  [{ groupId := "wave-0"
     assignments :=
      [⟨"ada", { DecompositionResult.sampleFields DecompositionResult.draftId with
          status := .assigned, assignedTo := some "ada" }, []⟩,
        ⟨"ben", { DecompositionResult.sampleFields DecompositionResult.reviewId with
          status := .assigned, assignedTo := some "ben" }, []⟩]
     maxConcurrency := none
     failFast := false
     dagLevel := 0 }]

def pairEngine : EngineState :=
  storing [DecompositionResult.sampleFields DecompositionResult.draftId,
    DecompositionResult.sampleFields DecompositionResult.reviewId]

theorem pairEngine_sound : pairEngine.Sound := storing_sound (by decide)

/-- A preparation that returns the wave without the review strands it. -/
theorem executeWaves_strands_left_out :
    ¬ ∀ (r : DecompositionResult) (routing : RoutingResult) (config : CoordinationConfig)
        (groups : List ParallelExecutionGroup) (run : WaveRun) (engine : EngineState)
        (envs : Nat → Environment), buildExecutionWaves r routing [] config = .ok groups →
        run.dependencies = dependencyMap r.dispatchSubtasks → engine.Sound →
        (∀ n, Works run.dependencies.keys (envs n)) →
        ((executeWaves run groups).run exec (World.start engine) envs).1 = .ok () →
        NoneStranded run.dependencies.keys
          ((executeWaves run groups).run exec (World.start engine) envs).2 := by
  intro h
  have hstranded := h pairPlan pairRouting ⟨none, false⟩ pairGroups pairRun pairEngine
    (fun _ => quiet (.rebuilt [DecompositionResult.reviewId.text])) (by decide +kernel) rfl
    pairEngine_sound (fun _ => quiet_works _ _) (by decide +kernel)
  obtain ⟨j, hj, _, hverdict⟩ := hstranded.created DecompositionResult.reviewId.text
    (by decide +kernel) (by decide +kernel)
  have hnone : ∀ v ∈ ((executeWaves pairRun pairGroups).run exec (World.start pairEngine)
      fun _ => quiet (.rebuilt [DecompositionResult.reviewId.text])).2.judged.map
        Judgement.verdict, v ≠ .awaiting := by decide +kernel
  exact hnone _ (mem_map_of_mem hj) hverdict

/-- The pair, prepared whole. -/
theorem executeWaves_strands_none_pair :
    NoneStranded pairRun.dependencies.keys ((executeWaves pairRun pairGroups).run exec
      (World.start pairEngine) fun _ => quiet (.rebuilt [])).2 := by
  refine executeWaves_strands_none pairRun pairGroups pairEngine pairEngine_sound
    (fun _ => quiet (.rebuilt [])) ?_ (by decide +kernel)
  intro _
  refine ⟨quiet_works _ _, ?_⟩
  intro leftOut hleft
  cases hleft
  rfl

end Synthorg.Coordination
