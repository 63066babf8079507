/-
A group of assignments run side by side (engine/parallel.py,
parallel_models.py).

# What is kept of a group

Each assignment is in one `Phase`, and the progress counters are read off the
phases elsewhere. `Ending` is how a run of the engine ends: what it returns,
whatever its verdict, counts as returned; only an exception is raised.

# Who takes steps

`Event` names one await-to-await stretch of one assignment, a cancellation
reaching it, a shutdown, or the task group seeing that one of its tasks has
raised. Events come in any order, and one that does not fit the phase it meets
does nothing.
-/
import Mathlib.Data.List.Basic

namespace Synthorg.Parallel

-- ==== the group

inductive RunResult where
  | success
  | awaitingHuman
  | failing
  deriving DecidableEq

inductive AgentOutcome where
  | result (result : RunResult)
  | error (text : String)
  deriving DecidableEq

def AgentOutcome.isSuccess : AgentOutcome → Bool
  | .result .success => true
  | _ => false

def AgentOutcome.isAwaitingHuman : AgentOutcome → Bool
  | .result .awaitingHuman => true
  | _ => false

/-- Neither. -/
def AgentOutcome.isFailure (outcome : AgentOutcome) : Bool :=
  !outcome.isSuccess && !outcome.isAwaitingHuman

inductive Phase where
  /-- its task has not had a turn -/
  | created
  | waiting
  | running
  | recorded (outcome : AgentOutcome)
  /-- cancelled before its first turn: nothing of it ever ran -/
  | dropped
  deriving DecidableEq

def Phase.isRunning : Phase → Bool
  | .running => true
  | _ => false

def Phase.records (kind : AgentOutcome → Bool) : Phase → Bool
  | .recorded outcome => kind outcome
  | _ => false

@[ext]
structure Progress where
  inProgress : Nat := 0
  succeeded : Nat := 0
  awaitingHuman : Nat := 0
  failed : Nat := 0
  completed : Nat := 0

structure ParallelExecutionGroup where
  failFast : Bool
  maxConcurrency : Option Nat

structure State where
  phases : List Phase
  progress : Progress := {}
  shuttingDown : Bool := false
  /-- a task of the group has ended with an exception -/
  raised : Bool := false
  /-- the task group has cancelled its tasks -/
  aborting : Bool := false

def fresh (assignments : Nat) : State := { phases := List.replicate assignments .created }

inductive Ending where
  | returned (result : RunResult)
  | raised (text : String)
  /-- a `MemoryError` or `RecursionError` -/
  | fatal (text : String)
  deriving DecidableEq

def Ending.outcome : Ending → AgentOutcome
  | .returned result => .result result
  | .raised text => .error text
  | .fatal text => .error ("Fatal: " ++ text)

inductive Event where
  | turn (i : Nat)
  /-- the semaphore lets an assignment in -/
  | start (i : Nat)
  | finish (i : Nat) (ending : Ending)
  /-- a cancellation reaches an assignment -/
  | cancel (i : Nat)
  | beginShutdown
  /-- the task group sees that a task has raised -/
  | abort
  | cancelGroup

def Progress.enter (p : Progress) : Progress := { p with inProgress := p.inProgress + 1 }

def Progress.leave (p : Progress) : Progress := { p with inProgress := p.inProgress - 1 }

def Progress.count (p : Progress) (outcome : AgentOutcome) : Progress :=
  { p with
    succeeded := p.succeeded + outcome.isSuccess.toNat
    awaitingHuman := p.awaitingHuman + outcome.isAwaitingHuman.toNat
    failed := p.failed + outcome.isFailure.toNat
    completed := p.completed + 1 }

def State.move (s : State) (i : Nat) (phase : Phase) (progress : Progress) : State :=
  { s with phases := s.phases.set i phase, progress := progress }

def State.record (s : State) (i : Nat) (outcome : AgentOutcome) (progress : Progress) : State :=
  s.move i (.recorded outcome) (progress.count outcome)

def State.hasRoom (group : ParallelExecutionGroup) (s : State) : Bool :=
  match group.maxConcurrency with
  | none => true
  | some limit => s.phases.countP Phase.isRunning < limit

/-- `_run_guarded` and `_execute_assignment`, from await to await. -/
def step (group : ParallelExecutionGroup) (s : State) : Event → State
  | .turn i =>
    if s.phases[i]? ≠ some .created then s
    else if s.aborting then s.move i .dropped s.progress
    else if s.shuttingDown then s.record i (.error "Shutdown in progress") s.progress
    -- who finds room and no queue does not wait
    else if s.hasRoom group ∧ .waiting ∉ s.phases then s.move i .running s.progress.enter
    else s.move i .waiting s.progress
  | .start i =>
    if s.phases[i]? = some .waiting ∧ s.aborting = false ∧ s.hasRoom group then
      s.move i .running s.progress.enter
    else s
  | .finish i ending =>
    if s.phases[i]? ≠ some .running then s
    else
      { s.record i ending.outcome s.progress.leave with
        raised := s.raised || group.failFast && ending matches .raised _ }
  | .cancel i =>
    match s.phases[i]? with
    | some .created => s.move i .dropped s.progress
    | some .waiting => s.record i (.error "Cancelled") s.progress
    | some .running => s.record i (.error "Cancelled") s.progress.leave
    | _ => s
  | .beginShutdown => { s with shuttingDown := true }
  | .abort => if s.raised then { s with aborting := true } else s
  | .cancelGroup => { s with aborting := true }

def buildResult (s : State) : List AgentOutcome :=
  s.phases.map fun
    | .recorded outcome => outcome
    | _ => .error "Cancelled due to fail_fast"

end Synthorg.Parallel
