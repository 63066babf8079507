/-
`AsyncCycleScheduler`: the lifecycle of a periodic background loop.

A scheduler owns its lifecycle lock, its stop event and the task of its loop, and replaces them as
it goes: the first `start` binds a lock and an event, a clean `stop` drops both. The OBJECTS
outlive that, so the state keeps them in tables by number.

A call is a sequence of atomic pieces between its awaits: `enter` is what a call does up to its
critical section (and queues it when the lock is not free), `criticalSection` what it does inside
before its next await, and `drained` the rest of a `stop` once the loop it cancelled is over.
-/
import Synthorg.Lib.Mutex
import Synthorg.Lib.Run

namespace Synthorg.Scheduler

open Lib
open Function (update)

inductive LoopStage
  | created
  /-- In `_run`, with the stop event it read. -/
  | running (stopEvent : Nat)
  /-- Over; `critical` when it ended with an error that is re-raised. -/
  | done (critical : Bool)
  deriving DecidableEq

structure CycleLoop where
  stage : LoopStage
  /-- `task.cancel()` was called. -/
  cancelled : Bool

/-- `not task.done()`. -/
def CycleLoop.alive (cycle : CycleLoop) : Bool :=
  match cycle.stage with
  | .created | .running _ => true
  | .done _ => false

/-- The two lifecycle methods. -/
inductive Method
  | start
  | stop
  deriving DecidableEq

inductive CallStage
  /-- Not made yet. -/
  | absent
  | waiting (method : Method) (lock event : Nat)
  /-- A `stop` that waits for the loop it cancelled. -/
  | draining (lock task : Nat)
  | ended (method : Method) (raised : Bool)
  deriving DecidableEq

structure AsyncCycleScheduler where
  resetPrimitivesOnStop : Bool
  task : Option Nat
  stopEvent : Option Nat
  lifecycleLock : Option Nat
  /-- Set by a drain that times out, which no step below is. -/
  stopFailed : Bool
  locks : Nat → AsyncLock Nat
  events : Nat → Bool
  loops : Nat → Option CycleLoop
  nextPrimitive : Nat
  nextLoop : Nat
  calls : Nat → CallStage

namespace AsyncCycleScheduler

def new (resetPrimitivesOnStop : Bool) : AsyncCycleScheduler where
  resetPrimitivesOnStop := resetPrimitivesOnStop
  task := none
  stopEvent := none
  lifecycleLock := none
  stopFailed := false
  locks := fun _ => AsyncLock.fresh
  events := fun _ => false
  loops := fun _ => none
  nextPrimitive := 0
  nextLoop := 0
  calls := fun _ => .absent

def alive (s : AsyncCycleScheduler) (t : Nat) : Bool := (s.loops t).any CycleLoop.alive

def isRunning (s : AsyncCycleScheduler) : Bool := s.task.any s.alive

def setCall (s : AsyncCycleScheduler) (id : Nat) (stage : CallStage) : AsyncCycleScheduler :=
  { s with calls := update s.calls id stage }

def setLock (s : AsyncCycleScheduler) (lock : Nat) (value : AsyncLock Nat) : AsyncCycleScheduler :=
  { s with locks := update s.locks lock value }

def setEvent (s : AsyncCycleScheduler) (event : Nat) (value : Bool) : AsyncCycleScheduler :=
  { s with events := update s.events event value }

def setLoop (s : AsyncCycleScheduler) (t : Nat) (cycle : CycleLoop) : AsyncCycleScheduler :=
  { s with loops := update s.loops t (some cycle) }

@[simp] theorem calls_setCall (s : AsyncCycleScheduler) (id : Nat) (stage : CallStage) :
    (s.setCall id stage).calls = update s.calls id stage := rfl

@[simp] theorem calls_setLock (s : AsyncCycleScheduler) (lock : Nat) (value : AsyncLock Nat) :
    (s.setLock lock value).calls = s.calls := rfl

@[simp] theorem locks_setLock (s : AsyncCycleScheduler) (lock : Nat) (value : AsyncLock Nat) :
    (s.setLock lock value).locks = update s.locks lock value := rfl

@[simp] theorem locks_setCall (s : AsyncCycleScheduler) (id : Nat) (stage : CallStage) :
    (s.setCall id stage).locks = s.locks := rfl

/-- The end of `async with lifecycle_lock`. -/
def leave (s : AsyncCycleScheduler) (id lock : Nat) (method : Method) (raised : Bool) :
    AsyncCycleScheduler :=
  (s.setLock lock (s.locks lock).release).setCall id (.ended method raised)

-- ==== the two methods

def lifecyclePrimitivesForCurrentLoop (s : AsyncCycleScheduler) : AsyncCycleScheduler × Nat × Nat :=
  match s.lifecycleLock, s.stopEvent with
  | some lock, some event => (s, lock, event)
  | _, _ =>
    let n := s.nextPrimitive
    let bound := (s.setLock n AsyncLock.fresh).setEvent n false
    ({ bound with
        lifecycleLock := some n
        stopEvent := some n
        nextPrimitive := n + 1
        task := none }, n, n)

structure Section where
  method : Method
  id : Nat
  lock : Nat
  event : Nat

/-- `async with lifecycle_lock`, up to its body. -/
def acquire (s : AsyncCycleScheduler) (method : Method) (id lock event : Nat) :
    AsyncCycleScheduler × Option Section :=
  if (s.locks lock).open? then
    (s.setLock lock ((s.locks lock).take id), some ⟨method, id, lock, event⟩)
  else
    ((s.setLock lock ((s.locks lock).enqueue id)).setCall id (.waiting method lock event), none)

/-- `create_task(self._run())`. -/
def createLoop (s : AsyncCycleScheduler) : AsyncCycleScheduler :=
  let created := s.setLoop s.nextLoop { stage := .created, cancelled := false }
  { created with
      task := some s.nextLoop
      nextLoop := s.nextLoop + 1 }

def startSection (s : AsyncCycleScheduler) (id lock event : Nat) : AsyncCycleScheduler :=
  if s.stopFailed then s.leave id lock .start true
  else if s.isRunning then s.leave id lock .start false
  else ((s.setEvent event false).createLoop).leave id lock .start false

/-- `task.cancel()`. -/
def cancelLoop (s : AsyncCycleScheduler) (t : Nat) : AsyncCycleScheduler :=
  match s.loops t with
  | some cycle => s.setLoop t { cycle with cancelled := true }
  | none => s

def stopSection (s : AsyncCycleScheduler) (id lock event : Nat) : AsyncCycleScheduler :=
  match s.task with
  | none => s.leave id lock .stop false
  | some t => ((s.setEvent event true).cancelLoop t).setCall id (.draining lock t)

def criticalSection (s : AsyncCycleScheduler) (sec : Section) : AsyncCycleScheduler :=
  match sec.method with
  | .start => s.startSection sec.id sec.lock sec.event
  | .stop => s.stopSection sec.id sec.lock sec.event

/-- The loop is over; a re-raised error leaves past the reset. -/
def finishStop (s : AsyncCycleScheduler) (id lock : Nat) (critical : Bool) : AsyncCycleScheduler :=
  if critical then s.leave id lock .stop true
  else if s.resetPrimitivesOnStop then
    { s with task := none, stopEvent := none, lifecycleLock := none }.leave id lock .stop false
  else { s with task := none }.leave id lock .stop false

-- ==== the loop

inductive Ending
  /-- At the head of the loop, its stop event being set. -/
  | stopped
  /-- `CancelledError` at an await. -/
  | cancelled
  /-- An error that is re-raised. -/
  | critical
  deriving DecidableEq

/-- The first step of `_run`. -/
def beginLoop (s : AsyncCycleScheduler) (t : Nat) : AsyncCycleScheduler :=
  match s.loops t with
  | some ⟨.created, cancelled⟩ =>
    if cancelled then s.setLoop t ⟨.done false, cancelled⟩
    else
      match s.stopEvent with
      | none => s.setLoop t ⟨.done false, cancelled⟩
      | some event => s.setLoop t ⟨.running event, cancelled⟩
  | _ => s

/-- The last step of `_run`. -/
def endLoop (s : AsyncCycleScheduler) (t : Nat) (ending : Ending) : AsyncCycleScheduler :=
  match s.loops t with
  | some ⟨.running event, cancelled⟩ =>
    match ending with
    | .stopped => if s.events event then s.setLoop t ⟨.done false, cancelled⟩ else s
    | .cancelled => if cancelled then s.setLoop t ⟨.done false, cancelled⟩ else s
    | .critical => s.setLoop t ⟨.done true, cancelled⟩
  | _ => s

-- ==== the steps

/-- What happens next on the event loop. -/
inductive Input
  /-- A task calls `start`. -/
  | start (id : Nat)
  /-- A task calls `stop`. -/
  | stop (id : Nat)
  /-- The first caller queued on a free lock goes on. -/
  | resume (id : Nat)
  /-- A `stop` goes on after its drain. -/
  | drained (id : Nat)
  | beginLoop (t : Nat)
  | endLoop (t : Nat) (ending : Ending)

def enter (s : AsyncCycleScheduler) : Input → AsyncCycleScheduler × Option Section
  | .start id =>
    if s.calls id = .absent then
      let bound := s.lifecyclePrimitivesForCurrentLoop
      bound.1.acquire .start id bound.2.1 bound.2.2
    else (s, none)
  | .stop id =>
    if s.calls id = .absent then
      match s.lifecycleLock, s.stopEvent with
      | some lock, some event => s.acquire .stop id lock event
      | _, _ => (s.setCall id (.ended .stop false), none)
    else (s, none)
  | .resume id =>
    match s.calls id with
    | .waiting method lock event =>
      if (s.locks lock).next? = some id then
        (s.setLock lock (s.locks lock).handOver, some ⟨method, id, lock, event⟩)
      else (s, none)
    | _ => (s, none)
  | _ => (s, none)

/-- What happens without a critical section being entered. -/
def progress (s : AsyncCycleScheduler) : Input → AsyncCycleScheduler
  | .drained id =>
    match s.calls id with
    | .draining lock t =>
      match s.loops t with
      | some ⟨.done critical, _⟩ => s.finishStop id lock critical
      | _ => s
    | _ => s
  | .beginLoop t => s.beginLoop t
  | .endLoop t ending => s.endLoop t ending
  | _ => s

def step (s : AsyncCycleScheduler) (input : Input) : AsyncCycleScheduler :=
  match s.enter input with
  | (entered, some sec) => entered.criticalSection sec
  | (entered, none) => entered.progress input

abbrev run (s : AsyncCycleScheduler) (inputs : List Input) : AsyncCycleScheduler :=
  Run.final step s inputs

end AsyncCycleScheduler

end Synthorg.Scheduler
