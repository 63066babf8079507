/-
A scheduler that keeps its lock.

With `reset_primitives_on_stop=False` the lock bound by the first `start`
is the lock for good. Every caller then queues on that one lock, and a
`stop` in its drain holds it (`Kept`), so a `start` in its section meets no
drain and a bound lock: every run is orderly, and the lifecycle holds with
no condition on the order of the calls.

No two loops are live at once, and a `stop` leaves nothing live behind (`Inv`), as long as a
`start` finds the lock bound and no `stop` in its drain (`Settled`).
-/
import Synthorg.Scheduler.Cycle

namespace Synthorg.Scheduler

open Lib
open Function (update_self update_of_ne)

namespace AsyncCycleScheduler

variable {s s' : AsyncCycleScheduler}

-- ==== the properties

def Quiet (s : AsyncCycleScheduler) : Prop := ∀ t, s.alive t = false

def StopOver (s : AsyncCycleScheduler) (id : Nat) : Prop :=
  ∃ raised, s.calls id = .ended .stop raised

def Starting (s : AsyncCycleScheduler) : Prop :=
  ∃ id lock event, s.calls id = .waiting .start lock event

structure Lifecycle (s : AsyncCycleScheduler) (inputs : List Input) : Prop where
  /-- At most one loop is live at any time. -/
  single : ∀ v ∈ Run.states step s inputs, ∀ t u, v.alive t → v.alive u → t = u
  held : ∀ v ∈ Run.states step s inputs, ∀ t, v.alive t → v.task = some t
  /-- A `stop` that begins while a loop is live has ended it when it is over. -/
  ended : ∀ before id after, inputs = before ++ .stop id :: after →
    (run s before).calls id = .absent → ∀ t, (run s before).alive t →
      (run s inputs).StopOver id → (run s inputs).alive t = false
  /-- A `stop` that returns while no `start` runs leaves no loop live. -/
  clean : ∀ before input after id, inputs = before ++ input :: after →
    ¬ (run s before).StopOver id → (run s (before ++ [input])).StopOver id →
      ¬ (run s (before ++ [input])).Starting → (run s (before ++ [input])).Quiet

def ComesToCreate (s : AsyncCycleScheduler) (sec : Section) : Prop :=
  sec.method = .start ∧ s.stopFailed = false ∧ s.isRunning = false

/-- The lifecycle lock is bound and no `stop` is in its drain. -/
def Settled (s : AsyncCycleScheduler) : Prop :=
  s.lifecycleLock ≠ none ∧ ∀ id lock t, s.calls id ≠ .draining lock t

def Orderly (s : AsyncCycleScheduler) (input : Input) : Prop :=
  ∀ entered sec, s.enter input = (entered, some sec) → entered.ComesToCreate sec →
    entered.Settled

-- ==== the invariant

/-- THE INVARIANT: a live loop is held, under a bound lock, alone or beside one a `stop` drains. -/
structure Inv (s : AsyncCycleScheduler) : Prop where
  held : ∀ t, s.alive t → s.task = some t ∧ s.lifecycleLock ≠ none
  bound : s.lifecycleLock = none ↔ s.stopEvent = none
  drains : ∀ id lock t, s.calls id = .draining lock t → ∀ u, s.alive u → u = t
  numbered : ∀ t, s.nextLoop ≤ t → s.loops t = none

/-- A step without a new loop binds nothing anew, revives nothing and starts no drain. -/
structure Calmer (s s' : AsyncCycleScheduler) : Prop where
  task : s'.task = s.task
  lock : s'.lifecycleLock = s.lifecycleLock
  event : s'.stopEvent = s.stopEvent
  next : s'.nextLoop = s.nextLoop
  alive : ∀ t, s'.alive t → s.alive t
  loops : ∀ t, s.loops t = none → s'.loops t = none
  calls : ∀ id lock t, s'.calls id = .draining lock t → s.calls id = .draining lock t

theorem new_inv (reset : Bool) : Inv (new reset) := by
  refine ⟨?_, Iff.rfl, ?_, ?_⟩
  · intro t ha
    cases ha
  · intro id lock t hcall
    cases hcall
  · intro t ht
    rfl

theorem Inv.calmer (h : Inv s) (hc : Calmer s s') : Inv s' := by
  refine ⟨?_, ?_, ?_, ?_⟩
  · intro t ha
    rw [hc.task, hc.lock]
    exact h.held t (hc.alive t ha)
  · rw [hc.lock, hc.event]
    exact h.bound
  · intro id lock t hcall u ha
    exact h.drains id lock t (hc.calls id lock t hcall) u (hc.alive u ha)
  · intro t ht
    rw [hc.next] at ht
    exact hc.loops t (h.numbered t ht)

theorem Inv.of_quiet (h : Inv s) (hqt : s.Quiet) (hl : s'.loops = s.loops)
    (hnext : s'.nextLoop = s.nextLoop)
    (hb : s'.lifecycleLock = none ↔ s'.stopEvent = none) : Inv s' := by
  have hnone : ∀ t, ¬ s'.alive t := by
    intro t ha
    have hdead := hqt t
    simp only [AsyncCycleScheduler.alive, hl] at ha hdead
    simp [hdead] at ha
  refine ⟨?_, hb, ?_, ?_⟩
  · intro t ha
    exact absurd ha (hnone t)
  · intro id lock t _ u ha
    exact absurd ha (hnone u)
  · intro t ht
    rw [hnext] at ht
    rw [hl]
    exact h.numbered t ht

theorem Inv.quiet_of_task (h : Inv s) (htask : s.task = none) : s.Quiet := by
  intro t
  by_cases ha : s.alive t = true
  · have hheld := (h.held t ha).1
    simp [htask] at hheld
  · simpa using ha

theorem Inv.quiet_of_unbound (h : Inv s) (hnone : s.lifecycleLock = none) : s.Quiet := by
  intro t
  by_cases ha : s.alive t = true
  · exact absurd hnone (h.held t ha).2
  · simpa using ha

theorem Inv.unbound (h : Inv s)
    (hnot : ∀ lock event, s.lifecycleLock = some lock → s.stopEvent = some event → False) :
    s.lifecycleLock = none := by
  cases hlock : s.lifecycleLock with
  | none => rfl
  | some lock =>
    cases he : s.stopEvent with
    | none => exact hlock.symm.trans (h.bound.2 he)
    | some event => exact (hnot lock event hlock he).elim

variable {id lock t event id' : Nat} {stage : CallStage} {u : AsyncCycleScheduler} {input : Input}

/-- Nothing is live once the loop some `stop` drains is over. -/
theorem Inv.quiet_of_drained (h : Inv s) (hcall : s.calls id = .draining lock t)
    (hover : s.alive t = false) : s.Quiet := by
  intro u
  by_cases ha : s.alive u = true
  · rw [h.drains id lock t hcall u ha]
    exact hover
  · simpa using ha

theorem Inv.quiet_of_idle (h : Inv s) (hidle : s.isRunning = false) : s.Quiet := by
  intro t
  by_cases ha : s.alive t = true
  · simp [isRunning, (h.held t ha).1, ha] at hidle
  · simpa using ha

-- ==== the pieces of a step

theorem calmer_setLoop {cycle cycle' : CycleLoop} (hloop : s.loops t = some cycle)
    (ha : cycle'.alive → cycle.alive) : Calmer s (s.setLoop t cycle') where
  task := rfl
  lock := rfl
  event := rfl
  next := rfl
  alive := by
    intro u hu
    by_cases hut : u = t
    · rw [hut] at hu ⊢
      simp only [AsyncCycleScheduler.alive, setLoop, update_self] at hu
      rw [AsyncCycleScheduler.alive, hloop]
      exact ha hu
    · simpa [AsyncCycleScheduler.alive, setLoop, hut] using hu
  loops := by
    intro u hu
    have hut : u ≠ t := by
      intro heq
      simp [heq, hloop] at hu
    simpa [setLoop, hut] using hu
  calls := fun _ _ _ hcall => hcall

theorem calmer_setEvent (event : Nat) (value : Bool) : Calmer s (s.setEvent event value) :=
  ⟨rfl, rfl, rfl, rfl, fun _ h => h, fun _ h => h, fun _ _ _ h => h⟩

theorem calmer_setLock (lock : Nat) (value : AsyncLock Nat) : Calmer s (s.setLock lock value) :=
  ⟨rfl, rfl, rfl, rfl, fun _ h => h, fun _ h => h, fun _ _ _ h => h⟩

theorem stage_setCall {stage' : CallStage} (hcall : (s.setCall id stage).calls id' = stage')
    (hne : stage ≠ stage') : id' ≠ id ∧ s.calls id' = stage' := by
  rw [calls_setCall, Function.update_apply, ite_eq_iff] at hcall
  exact hcall.resolve_left fun hself => hne hself.2

theorem calmer_setCall (hs : ∀ lock t, stage ≠ .draining lock t) :
    Calmer s (s.setCall id stage) where
  task := rfl
  lock := rfl
  event := rfl
  next := rfl
  alive := fun _ h => h
  loops := fun _ h => h
  calls := by
    intro id' lock t hcall
    exact (stage_setCall hcall (hs lock t)).2

theorem Calmer.trans (h : Calmer s s') (h' : Calmer s' u) : Calmer s u where
  task := h'.task.trans h.task
  lock := h'.lock.trans h.lock
  event := h'.event.trans h.event
  next := h'.next.trans h.next
  alive := fun t ht => h.alive t (h'.alive t ht)
  loops := fun t ht => h'.loops t (h.loops t ht)
  calls := fun id lock t hcall => h.calls id lock t (h'.calls id lock t hcall)

theorem Calmer.rfl : Calmer s s :=
  ⟨Eq.refl _, Eq.refl _, Eq.refl _, Eq.refl _, fun _ h => h, fun _ h => h, fun _ _ _ h => h⟩

theorem calmer_leave (id lock : Nat) (method : Method) (raised : Bool) :
    Calmer s (s.leave id lock method raised) :=
  (calmer_setLock _ _).trans (calmer_setCall (by intro lock t h; cases h))

theorem calmer_cancelLoop (t : Nat) : Calmer s (s.cancelLoop t) := by
  rw [cancelLoop]
  cases hloop : s.loops t with
  | none => exact Calmer.rfl
  | some cycle => exact calmer_setLoop hloop (fun h => h)

theorem calmer_beginLoop (t : Nat) : Calmer s (s.beginLoop t) := by
  rw [beginLoop]
  split
  next cancelled hloop =>
    by_cases hc : cancelled = true
    · rw [if_pos hc]
      exact calmer_setLoop hloop (fun _ => Eq.refl _)
    · rw [if_neg hc]
      split
      · exact calmer_setLoop hloop (fun _ => Eq.refl _)
      · exact calmer_setLoop hloop (fun _ => Eq.refl _)
  next => exact Calmer.rfl

theorem calmer_endLoop (t : Nat) (ending : Ending) : Calmer s (s.endLoop t ending) := by
  rw [endLoop]
  split
  next event cancelled hloop =>
    cases ending with
    | stopped =>
      dsimp only
      split
      · exact calmer_setLoop hloop (fun _ => Eq.refl _)
      · exact Calmer.rfl
    | cancelled =>
      dsimp only
      split
      · exact calmer_setLoop hloop (fun _ => Eq.refl _)
      · exact Calmer.rfl
    | critical => exact calmer_setLoop hloop (fun _ => Eq.refl _)
  next => exact Calmer.rfl

theorem calmer_acquire (method : Method) (id lock event : Nat) :
    Calmer s (s.acquire method id lock event).1 := by
  rw [acquire]
  split
  · exact calmer_setLock _ _
  · exact (calmer_setLock _ _).trans (calmer_setCall (by intro lock t h; cases h))

theorem Inv.primitives (h : Inv s) : Inv s.lifecyclePrimitivesForCurrentLoop.1 := by
  rw [lifecyclePrimitivesForCurrentLoop]
  split
  · exact h
  next hu =>
    refine h.of_quiet (h.quiet_of_unbound (h.unbound hu)) rfl rfl ?_
    simp

@[simp] theorem calls_primitives : s.lifecyclePrimitivesForCurrentLoop.1.calls = s.calls := by
  rw [lifecyclePrimitivesForCurrentLoop]
  split <;> rfl

variable {method : Method} {entered : AsyncCycleScheduler} {sec : Section} {inputs : List Input}

theorem calls_acquire (h : s.acquire method id lock event = (entered, some sec)) :
    entered.calls = s.calls := by
  rw [acquire] at h
  split at h
  · rw [← (Prod.mk.inj h).1, calls_setLock]
  · cases (Prod.mk.inj h).2

theorem calls_enter (he : s.enter input = (entered, some sec)) : entered.calls = s.calls := by
  cases input with
  | start id =>
    rw [enter] at he
    split at he
    · rw [calls_acquire he, calls_primitives]
    · cases (Prod.mk.inj he).2
  | stop id =>
    rw [enter] at he
    split at he
    · split at he
      · exact calls_acquire he
      · cases (Prod.mk.inj he).2
    · cases (Prod.mk.inj he).2
  | resume id =>
    rw [enter] at he
    split at he
    · split at he
      · rw [← (Prod.mk.inj he).1, calls_setLock]
      · cases (Prod.mk.inj he).2
    · cases (Prod.mk.inj he).2
  | drained id | beginLoop t | endLoop t ending => cases (Prod.mk.inj he).2

theorem Inv.enter (h : Inv s) (input : Input) : Inv (s.enter input).1 := by
  cases input with
  | start id =>
    rw [AsyncCycleScheduler.enter]
    split
    · exact h.primitives.calmer (calmer_acquire _ _ _ _)
    · exact h
  | stop id =>
    rw [AsyncCycleScheduler.enter]
    split
    · split
      · exact h.calmer (calmer_acquire _ _ _ _)
      · exact h.calmer (calmer_setCall (by intro lock t heq; cases heq))
    · exact h
  | resume id =>
    rw [AsyncCycleScheduler.enter]
    split
    · split
      · exact h.calmer (calmer_setLock _ _)
      · exact h
    · exact h
  | drained id | beginLoop t | endLoop t ending => exact h

/-- STEP LEMMA (creation): in a settled scheduler the new loop is the only live one. -/
theorem Inv.createLoop (h : Inv s) (hidle : s.isRunning = false) (hs : s.Settled) :
    Inv s.createLoop := by
  have honly : ∀ t, s.createLoop.alive t → t = s.nextLoop := by
    intro t ha
    by_cases ht : t = s.nextLoop
    · exact ht
    · have hb : s.alive t = true := by
        simpa [AsyncCycleScheduler.alive, AsyncCycleScheduler.createLoop, setLoop, ht] using ha
      simp [h.quiet_of_idle hidle t] at hb
  refine ⟨?_, h.bound, ?_, ?_⟩
  · intro t ha
    rw [honly t ha]
    exact ⟨rfl, hs.1⟩
  · intro id lock t hcall
    exact absurd hcall (hs.2 id lock t)
  · intro t ht
    replace ht : s.nextLoop + 1 ≤ t := ht
    have hne : t ≠ s.nextLoop := by omega
    have hnone := h.numbered t (by omega)
    simpa [AsyncCycleScheduler.createLoop, setLoop, hne] using hnone

/-- STEP LEMMA (`start`). -/
theorem Inv.startSection (h : Inv s) (hok : s.ComesToCreate ⟨.start, id, lock, event⟩ → s.Settled) :
    Inv (s.startSection id lock event) := by
  rw [AsyncCycleScheduler.startSection]
  by_cases hfail : s.stopFailed = true
  · rw [if_pos hfail]
    exact h.calmer (calmer_leave _ _ _ _)
  · rw [if_neg hfail]
    by_cases hr : s.isRunning = true
    · rw [if_pos hr]
      exact h.calmer (calmer_leave _ _ _ _)
    · rw [if_neg hr]
      have hidle : s.isRunning = false := by simpa using hr
      have hs := hok ⟨rfl, by simpa using hfail, hidle⟩
      have hc : Inv (s.setEvent event false) := h.calmer (calmer_setEvent event false)
      exact (hc.createLoop hidle hs).calmer (calmer_leave _ _ _ _)

/-- STEP LEMMA (`stop`, up to its drain): it drains the loop held. -/
theorem Inv.stopSection (h : Inv s) (id lock event : Nat) : Inv (s.stopSection id lock event) := by
  rw [AsyncCycleScheduler.stopSection]
  split
  · exact h.calmer (calmer_leave _ _ _ _)
  next t htask =>
    have hc : Inv ((s.setEvent event true).cancelLoop t) :=
      h.calmer ((calmer_setEvent event true).trans (calmer_cancelLoop t))
    have htask' : ((s.setEvent event true).cancelLoop t).task = some t :=
      ((calmer_setEvent event true).trans (calmer_cancelLoop t)).task.trans htask
    refine ⟨hc.held, hc.bound, ?_, hc.numbered⟩
    intro id' lock' t' hcall u ha
    by_cases hid : id' = id
    · rw [hid, calls_setCall, update_self] at hcall
      injection hcall with _ ht
      have hheld := (hc.held u ha).1
      rw [htask', Option.some.injEq] at hheld
      exact hheld.symm.trans ht
    · rw [calls_setCall, update_of_ne hid] at hcall
      exact hc.drains id' lock' t' hcall u ha

/-- STEP LEMMA (`stop`, after its drain). -/
theorem Inv.finishStop (h : Inv s) (hqt : s.Quiet) (id lock : Nat) (critical : Bool) :
    Inv (s.finishStop id lock critical) := by
  rw [AsyncCycleScheduler.finishStop]
  split
  · exact h.calmer (calmer_leave _ _ _ _)
  · split
    · exact h.of_quiet hqt rfl rfl Iff.rfl
    · exact h.of_quiet hqt rfl rfl h.bound

theorem alive_eq_false {critical cancelled : Bool}
    (hloop : s.loops t = some ⟨.done critical, cancelled⟩) : s.alive t = false := by
  rw [AsyncCycleScheduler.alive, hloop]
  rfl

theorem Inv.progress (h : Inv s) (input : Input) : Inv (s.progress input) := by
  cases input with
  | drained id =>
    rw [AsyncCycleScheduler.progress]
    split
    next lock t hcall =>
      split
      next critical cancelled hloop =>
        exact h.finishStop (h.quiet_of_drained hcall (alive_eq_false hloop)) id lock critical
      next => exact h
    next => exact h
  | beginLoop t => exact h.calmer (calmer_beginLoop t)
  | endLoop t ending => exact h.calmer (calmer_endLoop t ending)
  | start id | stop id | resume id => exact h

/-- STEP LEMMA: a loop, if any, is created in a settled scheduler. -/
theorem Inv.step (h : Inv s) (hok : s.Orderly input) : Inv (s.step input) := by
  have he := h.enter input
  rw [AsyncCycleScheduler.step]
  split
  next entered sec henter =>
    rw [henter] at he
    obtain ⟨method, id, lock, event⟩ := sec
    cases method with
    | start => exact Inv.startSection he (hok entered _ henter)
    | stop => exact Inv.stopSection he id lock event
  next entered henter =>
    rw [henter] at he
    exact Inv.progress he input

-- ==== what a stop leaves behind

/-- What any piece of a step does to the loops, but for the creation of one. -/
structure Still (s s' : AsyncCycleScheduler) : Prop where
  next : s'.nextLoop = s.nextLoop
  alive : ∀ t, s'.alive t → s.alive t

theorem Calmer.still (h : Calmer s s') : Still s s' := ⟨h.next, h.alive⟩

theorem Still.of_loops (hnext : s'.nextLoop = s.nextLoop) (hl : s'.loops = s.loops) :
    Still s s' := by
  refine ⟨hnext, ?_⟩
  intro t ha
  simpa only [AsyncCycleScheduler.alive, hl] using ha

theorem Still.trans (h : Still s s') (h' : Still s' u) : Still s u :=
  ⟨h'.next.trans h.next, fun t ha => h.alive t (h'.alive t ha)⟩

theorem Still.quiet (h : Still s s') (hqt : s.Quiet) : s'.Quiet := by
  intro t
  by_cases ha : s'.alive t = true
  · rw [← hqt t, ha, h.alive t ha]
  · simpa using ha

theorem still_primitives : Still s s.lifecyclePrimitivesForCurrentLoop.1 := by
  rw [lifecyclePrimitivesForCurrentLoop]
  split
  · exact Calmer.rfl.still
  · exact Still.of_loops rfl rfl

theorem still_enter (input : Input) : Still s (s.enter input).1 := by
  cases input with
  | start id =>
    rw [enter]
    split
    · exact still_primitives.trans (calmer_acquire _ _ _ _).still
    · exact Calmer.rfl.still
  | stop id =>
    rw [enter]
    split
    · split
      · exact (calmer_acquire _ _ _ _).still
      · exact (calmer_setCall (by intro lock t heq; cases heq)).still
    · exact Calmer.rfl.still
  | resume id =>
    rw [enter]
    split
    · split
      · exact (calmer_setLock _ _).still
      · exact Calmer.rfl.still
    · exact Calmer.rfl.still
  | drained id | beginLoop t | endLoop t ending => exact Calmer.rfl.still

theorem still_stopSection (id lock event : Nat) : Still s (s.stopSection id lock event) := by
  rw [stopSection]
  split
  · exact (calmer_leave _ _ _ _).still
  next t htask =>
    exact ((calmer_setEvent event true).trans (calmer_cancelLoop t)).still.trans
      (Still.of_loops rfl rfl)

theorem still_finishStop (id lock : Nat) (critical : Bool) :
    Still s (s.finishStop id lock critical) := by
  rw [finishStop]
  split
  · exact (calmer_leave _ _ _ _).still
  · split
    · exact Still.of_loops rfl rfl
    · exact Still.of_loops rfl rfl

theorem still_progress (input : Input) : Still s (s.progress input) := by
  cases input with
  | drained id =>
    rw [progress]
    split
    · split
      · exact still_finishStop _ _ _
      · exact Calmer.rfl.still
    · exact Calmer.rfl.still
  | beginLoop t => exact (calmer_beginLoop t).still
  | endLoop t ending => exact (calmer_endLoop t ending).still
  | start id | stop id | resume id => exact Calmer.rfl.still

/-- What any step does to the loops there are: none comes to life again. -/
structure Elder (s s' : AsyncCycleScheduler) : Prop where
  next : s.nextLoop ≤ s'.nextLoop
  alive : ∀ t, t < s.nextLoop → s'.alive t → s.alive t

theorem Still.elder (h : Still s s') : Elder s s' :=
  ⟨h.next.ge, fun t _ ha => h.alive t ha⟩

theorem Elder.trans (h : Elder s s') (h' : Elder s' u) : Elder s u :=
  ⟨h.next.trans h'.next, fun t ht ha =>
    h.alive t ht (h'.alive t (Nat.lt_of_lt_of_le ht h.next) ha)⟩

theorem elder_createLoop : Elder s s.createLoop := by
  refine ⟨Nat.le_succ _, ?_⟩
  intro t ht ha
  have hne : t ≠ s.nextLoop := by omega
  simpa [AsyncCycleScheduler.alive, createLoop, setLoop, hne] using ha

theorem elder_startSection (id lock event : Nat) : Elder s (s.startSection id lock event) := by
  rw [startSection]
  split
  · exact (calmer_leave _ _ _ _).still.elder
  · split
    · exact (calmer_leave _ _ _ _).still.elder
    · exact ((calmer_setEvent event false).still.elder.trans elder_createLoop).trans
        (calmer_leave _ _ _ _).still.elder

/-- STEP LEMMA: no loop comes to life again. -/
theorem elder_step (input : Input) : Elder s (s.step input) := by
  have he := still_enter (s := s) input
  rw [step]
  split
  next entered sec hentered =>
    rw [hentered] at he
    refine he.elder.trans ?_
    obtain ⟨method, id, lock, event⟩ := sec
    cases method with
    | start => exact elder_startSection _ _ _
    | stop => exact (still_stopSection _ _ _).elder
  next entered hentered =>
    rw [hentered] at he
    exact (he.trans (still_progress input)).elder

theorem stopOver_setCall (h : (s.setCall id stage).StopOver id') :
    (id' = id ∧ ∃ raised, stage = .ended .stop raised) ∨ s.StopOver id' := by
  obtain ⟨raised, hcall⟩ := h
  rw [calls_setCall, Function.update_apply, ite_eq_iff] at hcall
  exact hcall.imp (And.imp_right fun hended => ⟨raised, hended⟩) fun hold => ⟨raised, hold.2⟩

theorem stopOver_of_setCall (hs : ∀ raised, stage ≠ .ended .stop raised)
    (h : (s.setCall id stage).StopOver id') : s.StopOver id' := by
  refine (stopOver_setCall h).resolve_left ?_
  intro hover
  obtain ⟨raised, hr⟩ := hover.2
  exact hs raised hr

theorem stopOver_acquire (h : (s.acquire method id lock event).1.StopOver id') :
    s.StopOver id' := by
  rw [acquire] at h
  split at h
  · exact h
  · exact stopOver_of_setCall (by intro raised heq; cases heq) h

/-- A `stop` that ends on the way to its section finds nothing live. -/
theorem Inv.quiet_enter (h : Inv s) (hnot : ¬ s.StopOver id)
    (hover : (s.enter input).1.StopOver id) : s.Quiet := by
  cases input with
  | start id' =>
    rw [AsyncCycleScheduler.enter] at hover
    split at hover
    · obtain ⟨raised, hcall⟩ := stopOver_acquire hover
      rw [calls_primitives] at hcall
      exact absurd ⟨raised, hcall⟩ hnot
    · exact absurd hover hnot
  | stop id' =>
    rw [AsyncCycleScheduler.enter] at hover
    split at hover
    · split at hover
      · exact absurd (stopOver_acquire hover) hnot
      next hu => exact h.quiet_of_unbound (h.unbound hu)
    · exact absurd hover hnot
  | resume id' =>
    rw [AsyncCycleScheduler.enter] at hover
    split at hover
    · split at hover
      · exact absurd hover hnot
      · exact absurd hover hnot
    · exact absurd hover hnot
  | drained id' => exact absurd hover hnot
  | beginLoop t | endLoop t ending => exact absurd hover hnot

theorem stopOver_leave {raised : Bool} (h : (s.leave id lock .start raised).StopOver id') :
    s.StopOver id' :=
  stopOver_of_setCall (s := s.setLock lock (s.locks lock).release)
    (by intro raised heq; cases heq) h

theorem stopOver_startSection (h : (s.startSection id lock event).StopOver id') :
    s.StopOver id' := by
  rw [startSection] at h
  split at h
  · exact stopOver_leave h
  · split at h
    · exact stopOver_leave h
    · exact stopOver_leave (s := (s.setEvent event false).createLoop) h

@[simp] theorem calls_cancelLoop (t : Nat) : (s.cancelLoop t).calls = s.calls := by
  rw [cancelLoop]
  split <;> rfl

theorem Inv.quiet_stopSection (h : Inv s) (hnot : ¬ s.StopOver id')
    (hover : (s.stopSection id lock event).StopOver id') : s.Quiet := by
  rw [AsyncCycleScheduler.stopSection] at hover
  split at hover
  next htask => exact h.quiet_of_task htask
  next t htask =>
    obtain ⟨raised, hcall⟩ := stopOver_of_setCall (by intro raised heq; cases heq) hover
    rw [calls_cancelLoop] at hcall
    exact absurd ⟨raised, hcall⟩ hnot

@[simp] theorem calls_beginLoop (t : Nat) : (s.beginLoop t).calls = s.calls := by
  rw [beginLoop]
  split
  · split
    · rfl
    · split <;> rfl
  · rfl

@[simp] theorem calls_endLoop (t : Nat) (ending : Ending) :
    (s.endLoop t ending).calls = s.calls := by
  rw [endLoop]
  split
  · split
    · split <;> rfl
    · split <;> rfl
    · rfl
  · rfl

/-- A `stop` that ends after its drain finds nothing live. -/
theorem Inv.quiet_progress (h : Inv s) (hnot : ¬ s.StopOver id)
    (hover : (s.progress input).StopOver id) : s.Quiet := by
  cases input with
  | drained id' =>
    rw [AsyncCycleScheduler.progress] at hover
    split at hover
    next lock t hcall =>
      split at hover
      next critical cancelled hloop => exact h.quiet_of_drained hcall (alive_eq_false hloop)
      next => exact absurd hover hnot
    next => exact absurd hover hnot
  | beginLoop t =>
    obtain ⟨raised, hcall⟩ := hover
    rw [AsyncCycleScheduler.progress, calls_beginLoop] at hcall
    exact absurd ⟨raised, hcall⟩ hnot
  | endLoop t ending =>
    obtain ⟨raised, hcall⟩ := hover
    rw [AsyncCycleScheduler.progress, calls_endLoop] at hcall
    exact absurd ⟨raised, hcall⟩ hnot
  | start id' => exact absurd hover hnot
  | stop id' => exact absurd hover hnot
  | resume id' => exact absurd hover hnot

/-- STEP LEMMA: the step in which a `stop` ends leaves nothing live. -/
theorem Inv.quiet_step (h : Inv s) (hnot : ¬ s.StopOver id) (hover : (s.step input).StopOver id) :
    (s.step input).Quiet := by
  have he := h.enter input
  have hs := still_enter (s := s) input
  rw [AsyncCycleScheduler.step] at hover ⊢
  rcases henter : s.enter input with ⟨entered, entry⟩
  rw [henter] at he hs hover
  cases entry with
  | some sec =>
    have hnot' : ¬ entered.StopOver id := by
      intro hin
      rw [StopOver, calls_enter henter] at hin
      exact hnot hin
    obtain ⟨method, id', lock, event⟩ := sec
    cases method with
    | start => exact absurd (stopOver_startSection hover) hnot'
    | stop =>
      exact (still_stopSection id' lock event).quiet (Inv.quiet_stopSection he hnot' hover)
  | none =>
    by_cases hin : entered.StopOver id
    · have hqt : s.Quiet := h.quiet_enter hnot (by rwa [henter])
      exact (hs.trans (still_progress input)).quiet hqt
    · exact (still_progress input).quiet (Inv.quiet_progress he hin hover)

-- ==== the runs

/-- RUN LEMMA: the invariant holds in every state of an orderly run. -/
theorem Inv.states (h : Inv s) (hord : Run.Throughout AsyncCycleScheduler.step Orderly s inputs) :
    ∀ v ∈ Run.states AsyncCycleScheduler.step s inputs, Inv v :=
  Run.throughout_states (fun _ _ hok hinv => hinv.step hok) hord h

/-- RUN LEMMA: a loop that is over stays over. -/
theorem over_run (inputs : List Input) (ht : t < s.nextLoop) (hover : s.alive t = false) :
    (run s inputs).alive t = false := by
  induction inputs generalizing s with
  | nil => exact hover
  | cons input rest ih =>
    have helder := elder_step (s := s) input
    refine ih (Nat.lt_of_lt_of_le ht helder.next) ?_
    by_cases ha : (s.step input).alive t = true
    · have hb := helder.alive t ht ha
      simp [hover] at hb
    · simpa using ha

/-- RUN LEMMA: a `stop` that ends within an orderly run has ended every loop there was. -/
theorem Inv.ended (h : Inv s) (hord : Run.Throughout AsyncCycleScheduler.step Orderly s inputs)
    (ht : t < s.nextLoop) (hnot : ¬ s.StopOver id) (hover : (run s inputs).StopOver id) :
    (run s inputs).alive t = false := by
  induction inputs generalizing s with
  | nil => exact absurd hover hnot
  | cons input rest ih =>
    have helder := elder_step (s := s) input
    have ht' : t < (s.step input).nextLoop := Nat.lt_of_lt_of_le ht helder.next
    by_cases hnow : (s.step input).StopOver id
    · exact over_run rest ht' (h.quiet_step hnot hnow t)
    · exact ih (h.step hord.1) hord.2 ht' hnow hover

/-- THE LIFECYCLE, in a run in which every loop is created in a settled scheduler. -/
theorem lifecycle_of_orderly (reset : Bool) (inputs : List Input)
    (hord : Run.Throughout step Orderly (new reset) inputs) : Lifecycle (new reset) inputs := by
  have hinv := (new_inv reset).states hord
  have hr : ∀ before after, inputs = before ++ after → Inv (run (new reset) before) := by
    intro before after hs
    exact hinv _ ((Run.mem_states_iff _ _ _ _).2 ⟨before, after, hs, rfl⟩)
  refine ⟨?_, ?_, ?_, ?_⟩
  · intro v hv t u ht hu
    have hheld := ((hinv v hv).held t ht).1
    rw [((hinv v hv).held u hu).1, Option.some.injEq] at hheld
    exact hheld.symm
  · intro v hv t ht
    exact ((hinv v hv).held t ht).1
  · intro before id after hs ha t halive hover
    have hb := hr before _ hs
    have hrest : Run.Throughout step Orderly (run (new reset) before) (.stop id :: after) := by
      apply Run.throughout_append
      rwa [← hs]
    have hnum : t < (run (new reset) before).nextLoop := by
      by_contra hle
      simp [AsyncCycleScheduler.alive, hb.numbered t (by omega)] at halive
    have hnot : ¬ (run (new reset) before).StopOver id := by
      intro hin
      obtain ⟨raised, hcall⟩ := hin
      simp [ha] at hcall
    rw [hs, run, Run.final_append] at hover ⊢
    exact hb.ended hrest hnum hnot hover
  · intro before input after id hs hnot hover _
    rw [run, Run.final_append] at hover ⊢
    exact (hr before _ hs).quiet_step hnot hover

-- ==== a lock that was dropped

/-- A `stop` drains its loop; a queued `start` goes on once the lock is dropped and creates loop
`1`; before its first step a further `start` binds new primitives and creates loop `2`. -/
def staleStart : List Input :=
  [.start 0, .beginLoop 0, .stop 1, .start 2, .endLoop 0 .cancelled, .drained 1, .resume 2,
    .start 3, .beginLoop 1, .beginLoop 2]

/-- Two loops live, one of them held by nobody; a `stop` ends the other. -/
theorem two_loops : ¬ ∀ inputs, Lifecycle (new true) inputs := by
  intro h
  have hboth := (h staleStart).single (run (new true) staleStart)
    ((Run.mem_states_iff _ _ _ _).2 ⟨staleStart, [], by simp, rfl⟩) 1 2
    (by decide) (by decide)
  cases hboth

end AsyncCycleScheduler

namespace AsyncCycleScheduler

variable {s s' : AsyncCycleScheduler}

-- ==== a scheduler that keeps its lock

/-- There is one lock: every caller queues on it, and a `stop` in its drain holds it. -/
structure Kept (s : AsyncCycleScheduler) : Prop where
  reset : s.resetPrimitivesOnStop = false
  bound : s.lifecycleLock = none ↔ s.stopEvent = none
  waits : ∀ id method lock event, s.calls id = .waiting method lock event →
    s.lifecycleLock = some lock
  drains : ∀ id lock t, s.calls id = .draining lock t →
    s.lifecycleLock = some lock ∧ (s.locks lock).holder = some id

structure Inside (s : AsyncCycleScheduler) (id lock : Nat) : Prop extends Kept s where
  current : s.lifecycleLock = some lock
  holds : (s.locks lock).holder = some id

theorem new_kept : Kept (new false) :=
  ⟨rfl, Iff.rfl, fun _ _ _ _ h => (by cases h), fun _ _ _ h => (by cases h)⟩

variable {lock id : Nat}

theorem Kept.notDraining (h : Kept s) (hlock : s.lifecycleLock = some lock)
    (hfree : (s.locks lock).holder = none) (id lock' t : Nat) : s.calls id ≠ .draining lock' t := by
  intro hcall
  obtain ⟨hc, hhold⟩ := h.drains id lock' t hcall
  rw [hlock, Option.some.injEq] at hc
  simp [← hc, hfree] at hhold

theorem Kept.primitives (h : Kept s) : Kept s.lifecyclePrimitivesForCurrentLoop.1 ∧
    s.lifecyclePrimitivesForCurrentLoop.1.lifecycleLock =
      some s.lifecyclePrimitivesForCurrentLoop.2.1 := by
  rw [lifecyclePrimitivesForCurrentLoop]
  split
  next lock event hlock he => exact ⟨h, hlock⟩
  next hu =>
    have hnone : s.lifecycleLock = none := by
      cases hlock : s.lifecycleLock with
      | none => rfl
      | some lock =>
        cases he : s.stopEvent with
        | none => exact hlock.symm.trans (h.bound.2 he)
        | some event => exact (hu lock event hlock he).elim
    refine ⟨⟨h.reset, by simp, ?_, ?_⟩, rfl⟩
    · intro id method lock event hcall
      have hb := h.waits id method lock event hcall
      simp [hnone] at hb
    · intro id lock t hcall
      have hb := (h.drains id lock t hcall).1
      simp [hnone] at hb

theorem Kept.inside (h : Kept s) {value : AsyncLock Nat} (hlock : s.lifecycleLock = some lock)
    (hfree : (s.locks lock).holder = none) (hval : value.holder = some id) :
    Inside (s.setLock lock value) id lock :=
  { h with
    drains := fun id' lock' t hcall => absurd hcall (h.notDraining hlock hfree id' lock' t)
    current := hlock
    holds := by rw [locks_setLock, update_self, hval] }

theorem Kept.enqueue (h : Kept s) (method : Method) (event : Nat)
    (hlock : s.lifecycleLock = some lock) :
    Kept ((s.setLock lock ((s.locks lock).enqueue id)).setCall id
      (.waiting method lock event)) := by
  refine ⟨h.reset, h.bound, ?_, ?_⟩
  · intro id' method' lock' event' hcall'
    by_cases hid : id' = id
    · rw [hid, calls_setCall, update_self] at hcall'
      injection hcall' with _ heq
      rw [← heq]
      exact hlock
    · rw [calls_setCall, update_of_ne hid] at hcall'
      exact h.waits id' method' lock' event' hcall'
  · intro id' lock' t hcall'
    obtain ⟨hc, hhold⟩ := h.drains id' lock' t (stage_setCall hcall' nofun).2
    refine ⟨hc, ?_⟩
    rw [hlock, Option.some.injEq] at hc
    rw [← hc] at hhold ⊢
    simpa using hhold

theorem Inside.leave (h : Inside s id lock) (method : Method) (raised : Bool) :
    Kept (s.leave id lock method raised) := by
  have ho : ∀ id', id' ≠ id → ∀ lock' t, s.calls id' ≠ .draining lock' t := by
    intro id' hid lock' t hcall
    obtain ⟨hc, hhold⟩ := h.drains id' lock' t hcall
    rw [h.current, Option.some.injEq] at hc
    rw [← hc, h.holds, Option.some.injEq] at hhold
    exact hid hhold.symm
  refine ⟨h.reset, h.bound, ?_, ?_⟩
  · intro id' method' lock' event' hcall
    exact h.waits id' method' lock' event' (stage_setCall hcall nofun).2
  · intro id' lock' t hcall
    obtain ⟨hid, hold⟩ := stage_setCall hcall nofun
    exact absurd hold (ho id' hid lock' t)

theorem Inside.drain (h : Inside s id lock) (t : Nat) : Kept (s.setCall id (.draining lock t)) := by
  refine ⟨h.reset, h.bound, ?_, ?_⟩
  · intro id' method' lock' event' hcall
    exact h.waits id' method' lock' event' (stage_setCall hcall nofun).2
  · intro id' lock' t' hcall
    by_cases hid : id' = id
    · rw [hid, calls_setCall, update_self] at hcall
      injection hcall with heq
      rw [hid, ← heq]
      exact ⟨h.current, h.holds⟩
    · rw [calls_setCall, update_of_ne hid] at hcall
      exact h.drains id' lock' t' hcall

/-- A `stop` that finds no lock is over. -/
theorem Kept.ended (h : Kept s) (id : Nat) : Kept (s.setCall id (.ended .stop false)) := by
  refine ⟨h.reset, h.bound, ?_, ?_⟩
  · intro id' method lock event hcall
    exact h.waits id' method lock event (stage_setCall hcall nofun).2
  · intro id' lock t hcall
    exact h.drains id' lock t (stage_setCall hcall nofun).2

theorem Kept.acquire (h : Kept s) (method : Method) (event : Nat)
    (hlock : s.lifecycleLock = some lock) :
    match s.acquire method id lock event with
    | (entered, some sec) => Inside entered sec.id sec.lock
    | (entered, none) => Kept entered := by
  rw [AsyncCycleScheduler.acquire]
  by_cases hopen : (s.locks lock).open? = true
  · rw [if_pos hopen]
    exact h.inside hlock (AsyncLock.holder_of_open? hopen) (AsyncLock.holder_take _ _)
  · rw [if_neg hopen]
    exact h.enqueue method event hlock

theorem Kept.enter (h : Kept s) (input : Input) : match s.enter input with
    | (entered, some sec) => Inside entered sec.id sec.lock
    | (entered, none) => Kept entered := by
  cases input with
  | start id =>
    rw [AsyncCycleScheduler.enter]
    by_cases ha : s.calls id = .absent
    · rw [if_pos ha]
      exact h.primitives.1.acquire .start _ h.primitives.2
    · rw [if_neg ha]
      exact h
  | stop id =>
    rw [AsyncCycleScheduler.enter]
    by_cases ha : s.calls id = .absent
    · rw [if_pos ha]
      cases hlock : s.lifecycleLock with
      | none => exact h.ended id
      | some lock =>
        cases he : s.stopEvent with
        | none => exact h.ended id
        | some event => exact h.acquire .stop event hlock
    · rw [if_neg ha]
      exact h
  | resume id =>
    rw [AsyncCycleScheduler.enter]
    cases hcall : s.calls id with
    | waiting method lock event =>
      dsimp only
      by_cases hnext : (s.locks lock).next? = some id
      · rw [if_pos hnext]
        obtain ⟨hfree, hhold⟩ := AsyncLock.holder_of_next? hnext
        exact h.inside (h.waits id method lock event hcall) hfree hhold
      · rw [if_neg hnext]
        exact h
    | absent | draining lock t | ended method raised => exact h
  | drained id | beginLoop t | endLoop t ending => exact h

theorem Kept.of_same (h : Kept s) (hr : s'.resetPrimitivesOnStop = s.resetPrimitivesOnStop)
    (hlock : s'.lifecycleLock = s.lifecycleLock) (he : s'.stopEvent = s.stopEvent)
    (hl : s'.locks = s.locks) (hc : s'.calls = s.calls) : Kept s' := by
  refine ⟨hr.trans h.reset, by rw [hlock, he]; exact h.bound, ?_, ?_⟩
  · rw [hc, hlock]
    exact h.waits
  · rw [hc, hlock, hl]
    exact h.drains

section
variable (h : Inside s id lock)
include h

theorem Inside.of_same (hr : s'.resetPrimitivesOnStop = s.resetPrimitivesOnStop)
    (hlock : s'.lifecycleLock = s.lifecycleLock) (he : s'.stopEvent = s.stopEvent)
    (hl : s'.locks = s.locks) (hc : s'.calls = s.calls) : Inside s' id lock where
  toKept := h.toKept.of_same hr hlock he hl hc
  current := hlock.trans h.current
  holds := by rw [hl]; exact h.holds

theorem Inside.startSection (event : Nat) : Kept (s.startSection id lock event) := by
  rw [AsyncCycleScheduler.startSection]
  split
  · exact h.leave _ _
  · split
    · exact h.leave _ _
    · have hc : Inside (s.setEvent event false).createLoop id lock :=
        h.of_same rfl rfl rfl rfl rfl
      exact hc.leave _ _

theorem Inside.cancelLoop (t : Nat) : Inside (s.cancelLoop t) id lock := by
  rw [AsyncCycleScheduler.cancelLoop]
  split
  · exact h.of_same rfl rfl rfl rfl rfl
  · exact h

theorem Inside.stopSection (event : Nat) : Kept (s.stopSection id lock event) := by
  rw [AsyncCycleScheduler.stopSection]
  split
  · exact h.leave _ _
  next t htask =>
    have hset : Inside (s.setEvent event true) id lock := h.of_same rfl rfl rfl rfl rfl
    exact (hset.cancelLoop t).drain t

theorem Inside.finishStop (critical : Bool) : Kept (s.finishStop id lock critical) := by
  have hr : ¬ s.resetPrimitivesOnStop = true := by
    rw [h.reset]
    simp
  rw [AsyncCycleScheduler.finishStop]
  split
  · exact h.leave _ _
  · have hc : Inside { s with task := none } id lock := h.of_same rfl rfl rfl rfl rfl
    exact hc.leave _ _

end

theorem Kept.progress (h : Kept s) (input : Input) : Kept (s.progress input) := by
  cases input with
  | drained id =>
    rw [AsyncCycleScheduler.progress]
    split
    next lock t hcall =>
      obtain ⟨hc, hhold⟩ := h.drains id lock t hcall
      split
      · exact Inside.finishStop ⟨h, hc, hhold⟩ _
      · exact h
    next => exact h
  | beginLoop t =>
    rw [AsyncCycleScheduler.progress, AsyncCycleScheduler.beginLoop]
    split
    · split
      · exact h.of_same rfl rfl rfl rfl rfl
      · split
        · exact h.of_same rfl rfl rfl rfl rfl
        · exact h.of_same rfl rfl rfl rfl rfl
    · exact h
  | endLoop t ending =>
    rw [AsyncCycleScheduler.progress, AsyncCycleScheduler.endLoop]
    split
    · split
      · split
        · exact h.of_same rfl rfl rfl rfl rfl
        · exact h
      · split
        · exact h.of_same rfl rfl rfl rfl rfl
        · exact h
      · exact h.of_same rfl rfl rfl rfl rfl
    · exact h
  | start id | stop id | resume id => exact h

/-- STEP LEMMA: the lock stays the one lock. -/
theorem Kept.step (h : Kept s) (input : Input) : Kept (s.step input) := by
  have he := h.enter input
  rw [AsyncCycleScheduler.step]
  split
  next entered sec hentered =>
    rw [hentered] at he
    obtain ⟨method, id, lock, event⟩ := sec
    cases method with
    | start => exact Inside.startSection he event
    | stop => exact Inside.stopSection he event
  next entered hentered =>
    rw [hentered] at he
    exact Kept.progress he input

theorem Inside.settled (h : Inside s id lock) (hcall : ∀ lock' t, s.calls id ≠ .draining lock' t) :
    s.Settled := by
  refine ⟨by rw [h.current]; simp, ?_⟩
  intro id' lock' t hd
  obtain ⟨hc, hhold⟩ := h.drains id' lock' t hd
  rw [h.current, Option.some.injEq] at hc
  rw [← hc, h.holds, Option.some.injEq] at hhold
  rw [← hhold] at hd
  exact hcall lock' t hd

variable {entered : AsyncCycleScheduler} {sec : Section}

theorem id_acquire {method : Method} {event : Nat}
    (h : s.acquire method id lock event = (entered, some sec)) : sec.id = id := by
  rw [AsyncCycleScheduler.acquire] at h
  split at h
  · injection (Prod.mk.inj h).2 with hsec
    rw [← hsec]
  · cases (Prod.mk.inj h).2

theorem enter_notDraining {input : Input} (he : s.enter input = (entered, some sec))
    (lock t : Nat) : entered.calls sec.id ≠ .draining lock t := by
  rw [calls_enter he]
  intro hd
  cases input with
  | start id =>
    rw [enter] at he
    split at he
    next ha => simp [id_acquire he, ha] at hd
    next => cases (Prod.mk.inj he).2
  | stop id =>
    rw [enter] at he
    split at he
    next ha =>
      split at he
      · simp [id_acquire he, ha] at hd
      · cases (Prod.mk.inj he).2
    next => cases (Prod.mk.inj he).2
  | resume id =>
    rw [enter] at he
    split at he
    next method lock' event hcall =>
      split at he
      · injection (Prod.mk.inj he).2 with hsec
        simp [← hsec, hcall] at hd
      · cases (Prod.mk.inj he).2
    next => cases (Prod.mk.inj he).2
  | drained id | beginLoop t | endLoop t ending => cases (Prod.mk.inj he).2

theorem Kept.orderly (h : Kept s) (input : Input) : s.Orderly input := by
  intro entered sec he _
  have henter := h.enter input
  rw [he] at henter
  exact Inside.settled henter (enter_notDraining he)

/-- RUN LEMMA: with the lock kept every run is orderly. -/
theorem Kept.throughout (h : Kept s) (inputs : List Input) :
    Run.Throughout AsyncCycleScheduler.step Orderly s inputs := by
  induction inputs generalizing s with
  | nil => trivial
  | cons input rest ih => exact ⟨h.orderly input, ih (h.step input)⟩

/-- THE LIFECYCLE PROMISED: by a scheduler that keeps its primitives in every run, by one that
resets them where loops are created in a settled scheduler. -/
theorem lifecycle_promised (reset : Bool) (inputs : List Input)
    (h : reset = false ∨ Run.Throughout AsyncCycleScheduler.step Orderly (new reset) inputs) :
    Lifecycle (new reset) inputs := by
  cases h with
  | inl hkept =>
    rw [hkept]
    exact lifecycle_of_orderly false inputs (new_kept.throughout inputs)
  | inr horderly => exact lifecycle_of_orderly reset inputs horderly

/-- A loop started, stopped and started again: either creation meets a bound lock and no
drain. -/
theorem lifecycle_start_stop : Lifecycle (new true)
    [.start 0, .beginLoop 0, .stop 1, .endLoop 0 .cancelled, .drained 1, .start 2] := by
  refine lifecycle_promised true _ (Or.inr ⟨?_, ?_, ?_, ?_, ?_, ?_, trivial⟩)
  · intro entered sec henter _
    have hentered : ((new true).enter (.start 0)).1 = entered := congrArg Prod.fst henter
    rw [← hentered]
    refine ⟨by decide, ?_⟩
    intro id lock t hcall
    cases hcall
  · intro entered sec henter
    cases congrArg Prod.snd henter
  · intro entered sec henter hcreate
    have hsec := congrArg Prod.snd henter
    injection hsec with hsec
    rw [← hsec] at hcreate
    cases hcreate.1
  · intro entered sec henter
    cases congrArg Prod.snd henter
  · intro entered sec henter
    cases congrArg Prod.snd henter
  · intro entered sec henter _
    have hentered : ((run (new true) [.start 0, .beginLoop 0, .stop 1, .endLoop 0 .cancelled,
      .drained 1]).enter (.start 2)).1 = entered := congrArg Prod.fst henter
    rw [← hentered]
    refine ⟨by decide, ?_⟩
    intro id lock t hcall
    rcases id with _ | _ | _ | id
    all_goals cases hcall

end AsyncCycleScheduler

end Synthorg.Scheduler
