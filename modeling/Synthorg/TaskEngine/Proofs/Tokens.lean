/-
The version a mutation returns, as a token for a later one.

The contract callers rely on has two halves. A token is ACCEPTED as an
expected version exactly while no mutation has changed the task since it
was handed out, and two mutations that expect one version never both
change the task.

`Live` is the state in which a token stands (the row is there and its
counter is the token) and `Spent` the state after which it never stands
again (the row is gone, or the counter is past it); a turn that changes
the task takes the first to the second, every other turn keeps both.

The first fails on one kind of turn: an empty update with no expected version of a task that is
stored but not tracked is answered through `VersionTracker.get`, which does not seed, so the
caller is handed 0 (`token_contract_iff`).
-/
import Synthorg.TaskEngine.Proofs.Lifecycle

namespace Synthorg.TaskEngine

open Synthorg.Core Lib
open List

-- ==== the contract

def Request.subject (r : Request) : String :=
  (r.mutation.taskId?).getD r.env.newId.text

def StateChanging (s : EngineState) (r : Request) (id : String) : Prop :=
  r.subject = id ∧ r.mutation.writes = true ∧ (result s r).succeeded = true

def Issued (s : EngineState) (r : Request) (id : String) (v : Nat) : Prop :=
  r.subject = id ∧ ∃ task previous,
    (result s r).outcome = .success (some task) v previous

def Presents (q : Request) (id : String) (v : Nat) : Prop :=
  q.mutation.taskId? = some id ∧ q.mutation.expectedVersion = some v ∧
    q.env.readRaises = false

def TurnedAway (s : EngineState) (q : Request) : Prop :=
  (result s q).errorCode = some .notFound ∨
    (result s q).errorCode = some .versionConflict

def TokenAccepted (s : EngineState) (id : String) (v : Nat) : Prop :=
  (∃ q, Presents q id v) ∧ ∀ q, Presents q id v → ¬ TurnedAway s q

def Untouched (s : EngineState) (requests : List Request) (id : String) : Prop :=
  ∀ xs r ys, requests = xs ++ r :: ys → ¬ StateChanging (Run.final step s xs) r id

structure TokenContract (s : EngineState) (requests : List Request) : Prop where
  /-- a token is accepted exactly while nothing changed the task -/
  accepted : ∀ xs r ys zs, requests = xs ++ r :: (ys ++ zs) → ∀ id v,
    Issued (Run.final step s xs) r id v →
    (TokenAccepted (Run.final step s (xs ++ r :: ys)) id v ↔
      Untouched (step (Run.final step s xs) r) ys id)
  /-- one expected version changes a task at most once -/
  exclusive : ∀ xs r ys q zs, requests = xs ++ r :: (ys ++ q :: zs) → ∀ id v,
    StateChanging (Run.final step s xs) r id →
    r.mutation.expectedVersion = some v →
    q.mutation.expectedVersion = some v →
    ¬ StateChanging (Run.final step s (xs ++ r :: ys)) q id

/-- An empty update without a version reads a task that is stored but not tracked. -/
def BlindRead (s : EngineState) (r : Request) : Prop :=
  r.mutation.writes = false ∧ r.mutation.expectedVersion = none ∧
    r.env.readRaises = false ∧
    ∃ id, r.mutation.taskId? = some id ∧ s.tasks id ≠ none ∧ s.versions id = none

-- ==== counters

/-- No counter is 0: `seed` and `set_initial` start at 1. -/
def Positive (v : VersionTracker) : Prop :=
  ∀ id, v id ≠ some 0

theorem positive_empty : Positive VersionTracker.empty := by
  intro id h
  cases h

variable {v : VersionTracker} {s : EngineState} {id taskId : String} {q r : Request}
  {requests : List Request}

theorem Positive.current_pos (h : Positive v) (id : String) : 1 ≤ v.current id := by
  unfold VersionTracker.current
  cases hid : v id with
  | none => exact Nat.le_refl 1
  | some n =>
    rw [Option.getD_some]
    have hn : n ≠ 0 := fun h0 => h id (by rw [hid, h0])
    omega

theorem Positive.seed (h : Positive v) (taskId : String) : Positive (v.seed taskId) := by
  intro id hid
  rcases v.seed_apply taskId id with heq | ⟨-, -, hone⟩
  · exact h id (heq ▸ hid)
  · simp [hone] at hid

theorem Positive.update (h : Positive v) (taskId : String) {n : Nat} (hn : 1 ≤ n) :
    Positive (Function.update v taskId (some n)) := by
  intro id hid
  by_cases hkey : id = taskId
  · rw [hkey, Function.update_self] at hid
    cases hid
    omega
  · rw [Function.update_of_ne hkey] at hid
    exact h id hid

theorem Checked.positive {m : TaskMutation} {versions : VersionTracker} (h : Checked m s versions)
    (hs : Positive s.versions) : Positive versions := by
  rcases h with rfl | ⟨taskId, -, -, -, rfl⟩
  · exact hs
  · exact hs.seed taskId

/-- STEP LEMMA: no turn leaves a counter at 0. -/
theorem positive_step (hs : Positive s.versions) (r : Request) : Positive (step s r).versions := by
  have he := effect_of_processOne r s
  generalize (result s r).outcome = out at he
  generalize step s r = t at he
  cases he with
  | failed e versions hv => exact hv.positive hs
  | created task hkind hw hid hstate => exact hs.update task.id.text (Nat.le_refl 1)
  | read taskId task versions htask hrow hread hw hheld hv =>
    have hc := checked_of_check htask hrow
    rw [← hv] at hc
    exact hc.positive hs
  | rewrote taskId before after versions htask hrow hw hheld hv hid hby hop =>
    exact ((hv.positive hs).seed taskId).update taskId (Nat.le_add_left 1 _)
  | deleted taskId htask hrow hw hkind =>
    intro id hid
    rw [EngineState.withVersions_versions, VersionTracker.remove] at hid
    by_cases hkey : id = taskId
    · simp [hkey] at hid
    · rw [Function.update_of_ne hkey] at hid
      exact hs id hid

-- ==== acceptance

theorem get_of_sound (hs : s.Sound) {env : TurnEnv} {row : TaskFields}
    (hread : env.readRaises = false) (hrow : s.tasks id = some row) :
    ∃ task : Task, s.get env id = some (some task) ∧ task.toTaskFields = row := by
  have hv : Task.modelValidate row [] = .ok ⟨row, hs.coherent id row hrow⟩ :=
    (Task.modelValidate_ok_iff row [] _).2 ⟨rfl, rfl⟩
  refine ⟨⟨row, hs.coherent id row hrow⟩, ?_, rfl⟩
  unfold EngineState.get
  rw [hread, hrow]
  simp only [Bool.false_eq_true, if_false]
  rw [hv]

def PastGate (out : MutationOutcome) : Prop :=
  ∀ e, out = .failure e → e.code ≠ .notFound ∧ e.code ≠ .versionConflict

theorem pastGate_success (task : Option Task) (v : Nat) (previous : Option TaskStatus) :
    PastGate (.success task v previous) := by
  intro e he
  cases he

theorem pastGate_failure {e : MutationError} (hmiss : e.code ≠ .notFound)
    (hc : e.code ≠ .versionConflict) : PastGate (.failure e) := by
  intro e' he
  cases he
  exact ⟨hmiss, hc⟩

theorem pastGate_validation (e : TransitionError) : PastGate (.failure (.validation e)) := by
  apply pastGate_failure <;> simp [MutationError.code]

theorem pastGate_saveAndBump (env : TurnEnv) (taskId : String) (updated : Task)
    (previous : TaskStatus) (s : EngineState) :
    PastGate (saveAndBump env taskId updated previous s).answer := by
  unfold saveAndBump
  split
  next => exact pastGate_failure (e := .internal) (by decide) (by decide)
  next => exact pastGate_success _ _ _

theorem pastGate_updateRead (env : TurnEnv) (taskId : String) (updates : FieldUpdates)
    (task : Task) (s : EngineState) : PastGate (updateRead env taskId updates task s).answer := by
  unfold updateRead
  split
  next => exact pastGate_success _ _ _
  next =>
    split
    next e he => exact pastGate_validation (.validation e)
    next => exact pastGate_saveAndBump _ _ _ _ _

theorem pastGate_transitionRead (env : TurnEnv) (taskId : String) (target : TaskStatus)
    (overrides : List TaskFieldUpdate) (task : Task) (s : EngineState) :
    PastGate (transitionRead env taskId target overrides task s).answer := by
  unfold transitionRead
  split
  next e he => exact pastGate_validation e
  next => exact pastGate_saveAndBump _ _ _ _ _

theorem readAndCheck_pastGate_iff (hs : s.Sound) {env : TurnEnv} {expected : ExpectedVersion}
    {v : Nat} {proceed : Task → EngineState → Turn} (hread : env.readRaises = false)
    (hexpected : expected.value = some v) (hp : ∀ task t, PastGate (proceed task t).answer) :
    PastGate (readAndCheck env id expected s proceed).answer ↔
      s.tasks id ≠ none ∧ s.versions.current id = v := by
  unfold readAndCheck
  cases hrow : s.tasks id with
  | none =>
    have hget : s.get env id = some none := by
      unfold EngineState.get
      rw [hread, hrow]
      rfl
    rw [hget]
    constructor
    · intro h
      exact absurd rfl (h (.notFound id) rfl).1
    · intro h
      exact absurd rfl h.1
  | some row =>
    obtain ⟨task, hget, -⟩ := get_of_sound hs hread hrow
    have hok := s.versions.check_snd_ok_iff id expected.value
    rw [hget, hexpected] at *
    dsimp only
    split
    next versions conflict hc =>
      rw [hc] at hok
      constructor
      · intro h
        exact absurd rfl (h (.versionConflict conflict) rfl).2
      · rintro ⟨-, hcurrent⟩
        have hbad := hok.2 (fun e he => by cases he; exact hcurrent)
        cases hbad
    next versions hc =>
      rw [hc] at hok
      refine ⟨fun _ => ⟨by simp, hok.1 rfl v rfl⟩, fun _ => hp task _⟩

theorem not_turnedAway_iff (hs : s.Sound) {v : Nat} (hq : Presents q id v) :
    ¬ TurnedAway s q ↔ s.tasks id ≠ none ∧ s.versions.current id = v := by
  obtain ⟨htask, he, hread⟩ := hq
  have hgate : ¬ TurnedAway s q ↔ PastGate (dispatch q.env q.mutation s).answer := by
    have hout : (result s q).outcome = (dispatch q.env q.mutation s).answer := rfl
    rw [TurnedAway, TaskMutationResult.errorCode, hout, PastGate]
    cases (dispatch q.env q.mutation s).answer with
    | success task w previous | failure e => simp
  rw [hgate]
  cases hm : q.mutation with
  | create _ data => rw [hm] at htask; cases htask
  | delete _ taskId | cancel _ taskId => rw [hm] at he; cases he
  | update _ taskId updates expected =>
    rw [hm] at htask he
    cases htask
    exact readAndCheck_pastGate_iff hs hread he (pastGate_updateRead q.env id updates)
  | transition _ taskId target overrides expected =>
    rw [hm] at htask he
    cases htask
    exact readAndCheck_pastGate_iff hs hread he
      (pastGate_transitionRead q.env id target overrides.entries)

-- ==== live and spent

def Live (id : String) (v : Nat) (s : EngineState) : Prop :=
  s.tasks id ≠ none ∧ s.versions.current id = v

/-- The token will never stand again: the row is gone, or the counter is
past it. -/
def Spent (id : String) (v : Nat) (s : EngineState) : Prop :=
  s.tasks id = none ∨ v < s.versions.current id

theorem not_live_of_spent {v : Nat} (h : Spent id v s) : ¬ Live id v s := by
  rintro ⟨hrow, hc⟩
  rcases h with hnone | hlt
  · exact hrow hnone
  · omega

theorem tokenAccepted_iff (hs : s.Sound) (id : String) (v : Nat) :
    TokenAccepted s id v ↔ 1 ≤ v ∧ Live id v s := by
  constructor
  · rintro ⟨⟨q, hq⟩, hall⟩
    exact ⟨TaskMutation.expectedVersion_pos hq.2.1, (not_turnedAway_iff hs hq).1 (hall q hq)⟩
  · rintro ⟨hpos, hlive⟩
    constructor
    · refine ⟨⟨{ newId := freshId, now := 0 }, .update "" id ⟨[], rfl⟩ ⟨some v, ?_⟩⟩, rfl, rfl, rfl⟩
      intro w hw
      cases hw
      exact hpos
    · intro q hq
      exact (not_turnedAway_iff hs hq).2 hlive

theorem succeeded_of_success {res : TaskMutationResult} {task : Option Task}
    {v : Nat} {previous : Option TaskStatus}
    (h : res.outcome = .success task v previous) : res.succeeded = true := by
  unfold TaskMutationResult.succeeded
  rw [h]

theorem subject_of_taskId (h : r.mutation.taskId? = some id) : r.subject = id := by
  unfold Request.subject
  rw [h]
  rfl

theorem subject_of_create (h : r.mutation.taskId? = none) : r.subject = r.env.newId.text := by
  unfold Request.subject
  rw [h]
  rfl

theorem taskId_of_expectedVersion {m : TaskMutation} {v : Nat}
    (h : m.expectedVersion = some v) : m.taskId? ≠ none := by
  cases m <;> simp_all [TaskMutation.expectedVersion, TaskMutation.taskId?]

theorem current_bump_of_ne (versions : VersionTracker) (h : id ≠ taskId) :
    (versions.bump taskId).2.current id = versions.current id := by
  unfold VersionTracker.current
  rw [VersionTracker.bump_snd_of_ne versions h]

theorem current_bump_self (versions : VersionTracker) (taskId : String) :
    (versions.bump taskId).2.current taskId = versions.current taskId + 1 := by
  rw [VersionTracker.current, VersionTracker.bump_snd_self]
  rfl

theorem current_update_of_ne (versions : VersionTracker) (n : Option Nat) (h : id ≠ taskId) :
    VersionTracker.current (Function.update versions taskId n) id =
      versions.current id := by
  unfold VersionTracker.current
  rw [Function.update_of_ne h]

/-- STEP LEMMA: a turn about other tasks, or without a change, leaves row and counter. -/
theorem untouched_step (hs : s.Sound) (hnew : r.env.newId.text ≠ id)
    (hchange : ¬ StateChanging s r id) : ((step s r).tasks id = none ↔ s.tasks id = none) ∧
      (step s r).versions.current id = s.versions.current id := by
  have he := effect_of_processOne r s
  have hsucc : ∀ task v previous, (result s r).outcome = .success task v previous →
      r.mutation.writes = true → r.subject ≠ id := by
    intro task v previous hout hw hsubject
    exact hchange ⟨hsubject, hw, succeeded_of_success hout⟩
  generalize (result s r).outcome = out at he hsucc
  generalize step s r = t at he
  cases he with
  | failed e versions hv => exact ⟨Iff.rfl, hv.current id⟩
  | created task hkind hw hid hstate =>
    have hne : id ≠ task.id.text := by
      rw [hid]
      exact hnew.symm
    refine ⟨?_, current_update_of_ne s.versions _ hne⟩
    rw [EngineState.withVersions_tasks, EngineState.save_tasks_of_ne s task hne]
  | read taskId task versions htask hrow hread hw hheld hv =>
    have hc := checked_of_check htask hrow
    rw [← hv] at hc
    exact ⟨Iff.rfl, hc.current id⟩
  | rewrote taskId before after versions htask hrow hw hheld hv hid hby hop =>
    have ho : id ≠ taskId := by
      rintro rfl
      exact hsucc _ _ _ rfl hw (subject_of_taskId htask)
    have hne : id ≠ after.id.text := by
      rw [hid, hs.keyed taskId before.toTaskFields hrow]
      exact ho
    constructor
    · rw [EngineState.withVersions_tasks, EngineState.save_tasks_of_ne s after hne]
    · rw [EngineState.withVersions_versions, current_bump_of_ne versions ho]
      exact hv.current id
  | deleted taskId htask hrow hw hkind =>
    have ho : id ≠ taskId := by
      rintro rfl
      exact hsucc _ _ _ rfl hw (subject_of_taskId htask)
    refine ⟨?_, current_update_of_ne s.versions _ ho⟩
    rw [EngineState.withVersions_tasks, EngineState.delete_tasks_of_ne s ho]

/-- STEP LEMMA: a turn that changes a stored task moves its counter on, or drops its row. -/
theorem changed_step (hnew : r.env.newId.text ≠ id) (hc : StateChanging s r id) :
    s.tasks id ≠ none ∧ ((step s r).tasks id = none ∨
      (VersionHeld r.mutation s id ∧
        (step s r).versions.current id = s.versions.current id + 1)) := by
  have he := effect_of_processOne r s
  obtain ⟨hs, hw', hsucceeded⟩ := hc
  unfold TaskMutationResult.succeeded at hsucceeded
  generalize (result s r).outcome = out at he hsucceeded
  generalize step s r = t at he
  cases he with
  | failed e versions hv => cases hsucceeded
  | created task hkind hw hid hstate =>
    rw [subject_of_create hkind] at hs
    exact absurd hs hnew
  | read taskId task versions htask hrow hread hw hheld hv => simp [hw] at hw'
  | rewrote taskId before after versions htask hrow hw hheld hv hid hby hop =>
    rw [subject_of_taskId htask] at hs
    subst hs
    refine ⟨by rw [hrow]; simp, .inr ⟨hheld, ?_⟩⟩
    rw [EngineState.withVersions_versions, current_bump_self, hv.current]
  | deleted taskId htask hrow hw hkind =>
    rw [subject_of_taskId htask] at hs
    subst hs
    exact ⟨hrow, .inl (EngineState.delete_tasks_self s taskId)⟩

/-- STEP LEMMA: a token stands over a turn that does not change its task. -/
theorem live_step (hs : s.Sound) {v : Nat} (hnew : r.env.newId.text ≠ id)
    (hc : ¬ StateChanging s r id) (hlive : Live id v s) : Live id v (step s r) := by
  obtain ⟨hrow, hcurrent⟩ := untouched_step hs hnew hc
  exact ⟨fun hnone => hlive.1 (hrow.1 hnone), hcurrent.trans hlive.2⟩

/-- STEP LEMMA: a turn that changes the task spends the token. -/
theorem spent_of_live {v : Nat} (hnew : r.env.newId.text ≠ id) (hc : StateChanging s r id)
    (hlive : Live id v s) : Spent id v (step s r) := by
  obtain ⟨-, hnone | ⟨-, hcurrent⟩⟩ := changed_step hnew hc
  · exact .inl hnone
  · right
    rw [hcurrent, hlive.2]
    exact Nat.lt_succ_self v

/-- STEP LEMMA: a spent token stays spent. -/
theorem spent_step (hs : s.Sound) {v : Nat} (hnew : r.env.newId.text ≠ id) (hspent : Spent id v s) :
    Spent id v (step s r) := by
  by_cases hchange : StateChanging s r id
  · obtain ⟨ht, hnone | ⟨-, hc⟩⟩ := changed_step hnew hchange
    · exact .inl hnone
    · right
      rcases hspent with hnone | hlt
      · exact absurd hnone ht
      · rw [hc]
        exact Nat.lt_succ_of_lt hlt
  · obtain ⟨hrow, hc⟩ := untouched_step hs hnew hchange
    rcases hspent with hnone | hlt
    · exact .inl (hrow.2 hnone)
    · right
      rw [hc]
      exact hlt

-- ==== the runs

theorem Admissible.new_ne (h : Admissible s requests) (hrow : s.tasks id ≠ none) :
    ∀ r ∈ requests, r.env.newId.text ≠ id := by
  rintro r hr rfl
  exact hrow (h.fresh r hr)

/-- RUN LEMMA: a spent token stays spent. -/
theorem spent_run (h : Admissible s requests) {v : Nat}
    (hnew : ∀ r ∈ requests, r.env.newId.text ≠ id) (hs : Spent id v s) :
    Spent id v (Run.final step s requests) := by
  induction requests generalizing s with
  | nil => exact hs
  | cons r rest ih =>
    have hnext := spent_step h.sound (hnew r mem_cons_self) hs
    exact ih (admissible_guarded s r rest h) (fun q hq => hnew q (mem_cons_of_mem r hq)) hnext

theorem untouched_cons_iff (s : EngineState) (r : Request) (rest : List Request) (id : String) :
    Untouched s (r :: rest) id ↔
      ¬ StateChanging s r id ∧ Untouched (step s r) rest id := by
  constructor
  · intro h
    refine ⟨h [] r rest rfl, ?_⟩
    intro xs q ys hs
    exact h (r :: xs) q ys (by rw [hs, cons_append])
  · rintro ⟨hhead, hrest⟩ xs q ys hs
    cases xs with
    | nil =>
      cases hs
      exact hhead
    | cons x xs =>
      obtain ⟨rfl, htail⟩ := cons.inj hs
      exact hrest xs q ys htail

/-- RUN LEMMA: a token stands at the end exactly when no turn of the run changed its task. -/
theorem live_run_iff (h : Admissible s requests) {v : Nat} (hlive : Live id v s) :
    Live id v (Run.final step s requests) ↔ Untouched s requests id := by
  induction requests generalizing s with
  | nil =>
    refine ⟨fun _ xs r ys hs => ?_, fun _ => hlive⟩
    cases xs <;> cases hs
  | cons r rest ih =>
    have hnew := h.new_ne hlive.1
    have hn := hnew r mem_cons_self
    have hrest := admissible_guarded s r rest h
    rw [Run.final_cons, untouched_cons_iff]
    by_cases hc : StateChanging s r id
    · have hspent := spent_run hrest (fun q hq => hnew q (mem_cons_of_mem r hq))
        (spent_of_live hn hc hlive)
      constructor
      · intro hf
        exact absurd hf (not_live_of_spent hspent)
      · intro hunt
        exact absurd hc hunt.1
    · rw [ih hrest (live_step h.sound hn hc hlive), and_iff_right hc]

-- ==== the boundary

theorem get_check_of_some (v : VersionTracker) (taskId : String) (expected : Nat) :
    (v.check taskId (some expected)).1.get taskId = v.current taskId := by
  rw [VersionTracker.check_fst_of_some, VersionTracker.get_seed]

theorem get_of_tracked (h : v taskId ≠ none) : v.get taskId = v.current taskId := by
  obtain ⟨n, hn⟩ := Option.ne_none_iff_exists'.1 h
  rw [VersionTracker.get, VersionTracker.current, hn]
  rfl

/-- STEP LEMMA: off the blind read, a token stands when it is handed out. -/
theorem live_of_issued (hs : s.Sound) (hpos : Positive s.versions) (hb : ¬ BlindRead s r)
    {v : Nat} (hiss : Issued s r id v) : 1 ≤ v ∧ Live id v (step s r) := by
  obtain ⟨hsubject, task', previous, hout⟩ := hiss
  have he := effect_of_processOne r s
  rw [hout] at he
  generalize step s r = t at he
  cases he with
  | created _ hkind hw hid hstate =>
    rw [subject_of_create hkind, ← hid] at hsubject
    subst hsubject
    refine ⟨Nat.le_refl 1, ?_, ?_⟩
    · rw [EngineState.withVersions_tasks, EngineState.save_tasks_self]
      simp
    · rw [EngineState.withVersions_versions, VersionTracker.current,
        VersionTracker.setInitial, Function.update_self]
      rfl
  | read taskId _ versions htask hrow hread hw hheld hv =>
    rw [subject_of_taskId htask] at hsubject
    subst hsubject
    have ht : s.tasks taskId ≠ none := by rw [hrow]; simp
    have hc := checked_of_check htask hrow
    rw [← hv] at hc
    have hget : versions.get taskId = s.versions.current taskId := by
      cases hexpected : r.mutation.expectedVersion with
      | none =>
        rw [hv, hexpected]
        apply get_of_tracked
        intro hnone
        exact hb ⟨hw, hexpected, hread, taskId, htask, ht, hnone⟩
      | some expected =>
        rw [hv, hexpected]
        exact get_check_of_some s.versions taskId expected
    refine ⟨?_, ht, ?_⟩
    · rw [hget]
      exact hpos.current_pos taskId
    · rw [EngineState.withVersions_versions, hc.current, hget]
  | rewrote taskId before _ versions htask hrow hw hheld hv hid hby hop =>
    rw [subject_of_taskId htask] at hsubject
    subst hsubject
    have hkey : task'.id.text = taskId := by
      rw [hid, hs.keyed taskId before.toTaskFields hrow]
    refine ⟨?_, ?_, ?_⟩
    · exact Nat.le_add_left 1 _
    · rw [EngineState.withVersions_tasks, ← hkey, EngineState.save_tasks_self]
      simp
    · rw [EngineState.withVersions_versions, current_bump_self, VersionTracker.bump_fst]

/-- STEP LEMMA: a blind read hands out 0. -/
theorem issued_of_blindRead (hs : s.Sound) (h : BlindRead s r) : ∃ id, Issued s r id 0 := by
  obtain ⟨hw, he, hread, id, htask, ht, hu⟩ := h
  obtain ⟨row, hrow⟩ := Option.ne_none_iff_exists'.1 ht
  obtain ⟨task, hget, -⟩ := get_of_sound hs hread hrow
  refine ⟨id, subject_of_taskId htask, task, some task.status, ?_⟩
  show (dispatch r.env r.mutation s).answer = _
  cases hm : r.mutation with
  | create _ data => rw [hm] at htask; cases htask
  | transition _ taskId target overrides expected | delete _ taskId | cancel _ taskId =>
    rw [hm] at hw; cases hw
  | update _ taskId updates expected =>
    rw [hm] at htask he hw
    cases htask
    have hval : expected.value = none := he
    have hempty : updates.entries = [] := by
      simpa [TaskMutation.writes] using hw
    show (readAndCheck r.env id expected s (updateRead r.env id updates)).answer = _
    unfold readAndCheck updateRead
    rw [hget, hval]
    dsimp only [VersionTracker.check]
    rw [if_pos hempty]
    have hzero : s.versions.get id = 0 := by
      rw [VersionTracker.get, hu]
      rfl
    show MutationOutcome.success _ (s.versions.get id) _ = _
    rw [hzero]

/-- STEP LEMMA: a turn that changed a task under an expected version spent
that version. -/
theorem spent_of_changed {v : Nat} (hnew : r.env.newId.text ≠ id) (hc : StateChanging s r id)
    (he : r.mutation.expectedVersion = some v) : Spent id v (step s r) := by
  obtain ⟨-, hnone | ⟨hheld, hcurrent⟩⟩ := changed_step hnew hc
  · exact .inl hnone
  · right
    rw [hcurrent, hheld v he]
    exact Nat.lt_succ_self v

/-- STEP LEMMA: a turn that expects a spent version changes nothing. -/
theorem not_changing_of_spent {v : Nat} (hspent : Spent id v s)
    (he : q.mutation.expectedVersion = some v) : ¬ StateChanging s q id := by
  rintro ⟨hsubject, hw', hs⟩
  have heffect := effect_of_processOne q s
  unfold TaskMutationResult.succeeded at hs
  generalize (result s q).outcome = out at heffect hs
  generalize step s q = t at heffect
  cases heffect with
  | failed e versions hv => cases hs
  | created task hkind hw hid hstate => exact taskId_of_expectedVersion he hkind
  | read taskId task versions htask hrow hread hw hheld hv => simp [hw] at hw'
  | rewrote taskId before after versions htask hrow hw hheld hv hid hby hop =>
    rw [subject_of_taskId htask] at hsubject
    subst hsubject
    rcases hspent with hnone | hlt
    · simp [hrow] at hnone
    · rw [hheld v he] at hlt
      exact Nat.lt_irrefl v hlt
  | deleted taskId htask hrow hw hkind => simp [hkind] at he

theorem exclusive_run {ys : List Request} (h : Admissible s (r :: (ys ++ [q]))) {v : Nat}
    (hc : StateChanging s r id) (he : r.mutation.expectedVersion = some v)
    (hx : q.mutation.expectedVersion = some v) :
    ¬ StateChanging (Run.final step (step s r) ys) q id := by
  have ht : s.tasks id ≠ none := by
    obtain ⟨hsubject, hw', hs⟩ := hc
    intro hnone
    -- a request with a version is addressed to its task, so it reads a row
    obtain ⟨taskId, htask⟩ := Option.ne_none_iff_exists'.1 (taskId_of_expectedVersion he)
    rw [subject_of_taskId htask] at hsubject
    subst hsubject
    have heffect := effect_of_processOne r s
    unfold TaskMutationResult.succeeded at hs
    generalize (result s r).outcome = out at heffect hs
    generalize step s r = t at heffect
    cases heffect with
    | failed e versions hv => cases hs
    | created task hkind => rw [htask] at hkind; cases hkind
    | read _ _ _ _ _ _ hw => rw [hw] at hw'; cases hw'
    | rewrote taskId' _ _ _ htask' hrow =>
      rw [htask] at htask'
      cases htask'
      simp [hrow] at hnone
    | deleted taskId' htask' hrow _ hkind => rw [he] at hkind; cases hkind
  have hnew := h.new_ne ht
  have hspent := spent_of_changed (hnew r mem_cons_self) hc he
  have hrest : Admissible (step s r) ys := (admissible_guarded s r (ys ++ [q]) h).cut
  have hend := spent_run hrest
    (fun p hp => hnew p (mem_cons_of_mem r (mem_append_left [q] hp))) hspent
  exact not_changing_of_spent hend hx

/-- EXACTLY WHEN the token contract holds of a run: when no turn of it is a
blind read. -/
theorem token_contract_iff (s : EngineState) (requests : List Request)
    (h : Admissible s requests) (hpos : Positive s.versions) :
    TokenContract s requests ↔
      ∀ xs r ys, requests = xs ++ r :: ys → ¬ BlindRead (Run.final step s xs) r := by
  have hpositive : ∀ xs ys, requests = xs ++ ys → Positive (Run.final step s xs).versions := by
    intro xs ys hsplit
    subst hsplit
    exact Run.invariant (P := fun t => Positive t.versions) admissible_guarded
      (fun _ r _ _ hP => positive_step hP r) h.cut hpos
  constructor
  · intro hcontract xs r ys hsplit hblind
    have hmid : Admissible (Run.final step s xs) (r :: ys) := by
      subst hsplit
      exact h.split
    obtain ⟨id, hissued⟩ := issued_of_blindRead hmid.sound hblind
    have hiff := hcontract.accepted xs r [] ys hsplit id 0 hissued
    have huntouched : Untouched (step (Run.final step s xs) r) [] id := by
      intro as q bs hnil
      cases as <;> cases hnil
    obtain ⟨⟨q, hq⟩, -⟩ := hiff.2 huntouched
    have hone := TaskMutation.expectedVersion_pos hq.2.1
    omega
  · intro hclear
    constructor
    · intro xs r ys zs hsplit id v hissued
      have hmid : Admissible (Run.final step s xs) (r :: (ys ++ zs)) := by
        subst hsplit
        exact h.split
      have hnext := admissible_guarded _ r (ys ++ zs) hmid
      obtain ⟨hone, hlive⟩ := live_of_issued hmid.sound
        (hpositive xs _ hsplit) (hclear xs r _ hsplit) hissued
      have hend : Run.final step s (xs ++ r :: ys) =
          Run.final step (step (Run.final step s xs) r) ys := by
        rw [Run.final_append, Run.final_cons]
      rw [hend, tokenAccepted_iff (sound_run hnext.cut), and_iff_right hone]
      exact live_run_iff hnext.cut hlive
    · intro xs r ys q zs hsplit id v hchange he hx
      have hmid : Admissible (Run.final step s xs) (r :: (ys ++ [q])) := by
        subst hsplit
        have hall := h.split
        have hregroup : r :: (ys ++ q :: zs) = r :: (ys ++ [q]) ++ zs := by simp
        rw [hregroup] at hall
        exact hall.cut
      rw [Run.final_append]
      exact exclusive_run hmid hchange he hx

-- ==== a restarted engine

def emptyUpdate : Request where
  env := { newId := freshId, now := 1 }
  mutation := .update "req-1" sampleId.text
    ⟨[], rejectImmutableFields_nil⟩ ⟨none, unversioned⟩

theorem emptyUpdate_admissible : Admissible restarted [emptyUpdate] := by
  refine ⟨restarted_admissible.sound, by decide, ?_⟩
  intro r hr
  rw [mem_singleton] at hr
  rw [hr]
  show restarted.tasks freshId.text = none
  decide

/-- `token_contract_iff` at work on a restarted engine: the first revision is
handed the token 2, the second finds its version spent, and the third changes
the task under the token. -/
theorem token_contract_iff_restarted :
    (∃ r₁ r₂ r₃ rest, shift = r₁ :: r₂ :: r₃ :: rest ∧
      r₁.mutation.expectedVersion = some 1 ∧ r₂.mutation.expectedVersion = some 1 ∧
      StateChanging restarted r₁ sampleId.text ∧ Issued restarted r₁ sampleId.text 2 ∧
      (result (step restarted r₁) r₂).errorCode = some .versionConflict ∧
      r₃.mutation.expectedVersion = some 2 ∧
      StateChanging (Run.final step restarted [r₁, r₂]) r₃ sampleId.text) ∧
    TokenContract restarted shift := by
  refine ⟨⟨_, _, _, _, rfl, rfl, rfl, by unfold StateChanging; decide,
    ⟨rfl, ⟨{ sampleTask with title := "Revise the brief" }, by decide⟩, some .created, by decide⟩,
    by decide, rfl, by unfold StateChanging; decide⟩, ?_⟩
  refine (token_contract_iff restarted shift shift_admissible positive_empty).2 ?_
  -- every read of the run carries a version
  rintro xs r ys hsplit ⟨hwrites, hnone, -⟩
  have hr : r ∈ shift := hsplit ▸ mem_append_right xs mem_cons_self
  have hall : ∀ q ∈ shift, q.mutation.writes = true ∨ q.mutation.expectedVersion ≠ none := by
    decide
  cases hall r hr with
  | inl hw => rw [hwrites] at hw; cases hw
  | inr hexpects => exact hexpects hnone

/-- One empty update after a restart is handed 0, which nothing accepts though nothing changed. -/
theorem token_contract_broken :
    ¬ ∀ (s : EngineState) (requests : List Request), Admissible s requests →
      Positive s.versions → TokenContract s requests := by
  intro h
  have hcontract := h restarted [emptyUpdate] emptyUpdate_admissible positive_empty
  have hissued : Issued restarted emptyUpdate sampleId.text 0 := by
    refine ⟨rfl, ⟨sampleTask, by decide⟩, some .created, ?_⟩
    decide
  have huntouched : Untouched (step restarted emptyUpdate) [] sampleId.text := by
    intro as q bs hnil
    cases as <;> cases hnil
  obtain ⟨⟨q, hq⟩, -⟩ :=
    (hcontract.accepted [] emptyUpdate [] [] rfl sampleId.text 0 hissued).2 huntouched
  have hone := TaskMutation.expectedVersion_pos hq.2.1
  omega

end Synthorg.TaskEngine
