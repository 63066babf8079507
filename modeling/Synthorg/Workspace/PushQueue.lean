/-
`PushQueueCoordinator`: the serial queue of merges and pushes of a project.

`start` makes a queue and a worker task for it, `stop` puts a sentinel on the queue and waits for
the worker, `enqueue_merge_push` puts a request there and waits for its future. The lifecycle lock
is never awaited for: nothing awaits while holding it, and a queue without a bound takes an item
at once.

A worker is known by the number of the `start` that made it, and so is the queue made with it.
-/
import Synthorg.Lib.Run

namespace Synthorg.Workspace

open Function (update)

inductive Answer
  | merged
  | conflict
  | mergeError
  | pushError
  | failed
  | stopped
  | cancelled
  deriving DecidableEq

/-- The future of an `enqueue_merge_push`. -/
inductive Future
  | absent
  | refused
  | pending
  | resolved (answer : Answer)
  deriving DecidableEq

/-- `absent` before `start`, `created` until the first step, `exited` when done. -/
inductive Stage
  | absent
  | created
  | getting
  | merging (n : Nat)
  | pushing (n : Nat)
  | exited
  deriving DecidableEq

structure Lane where
  stage : Stage
  /-- The queue the worker serves, from its first step on. -/
  captured : Nat
  cancelRequested : Bool
  /-- `none` is the sentinel. -/
  queue : List (Option Nat)
  puts : List Nat

/-- Its wait is interrupted out of time (`some true`) or by a cancellation (`some false`). -/
inductive StopCall
  | absent
  | draining (g : Nat) (interrupted : Option Bool)
  | returned

inductive MergeOutcome
  | success
  | conflict
  | mergeError
  | otherError
  | critical

inductive PushOutcome
  | success
  | pushError
  | otherError
  | critical

structure PushQueue where
  lanes : Nat → Lane
  /-- How many workers were ever made. -/
  count : Nat
  queue : Option Nat
  worker : Option Nat
  closing : Bool
  stopFailed : Bool
  futures : Nat → Future
  stops : Nat → StopCall
  accepted : List Nat
  merges : List Nat
  mergedWell : List Nat
  pushes : List Nat

namespace PushQueue

/-- `__init__`. -/
def new : PushQueue where
  lanes := fun _ => ⟨.absent, 0, false, [], []⟩
  count := 0
  queue := none
  worker := none
  closing := false
  stopFailed := false
  futures := fun _ => .absent
  stops := fun _ => .absent
  accepted := []
  merges := []
  mergedWell := []
  pushes := []

def setLane (s : PushQueue) (g : Nat) (lane : Lane) : PushQueue :=
  { s with lanes := update s.lanes g lane }

def setStage (s : PushQueue) (g : Nat) (stage : Stage) : PushQueue :=
  s.setLane g { s.lanes g with stage := stage }

def setQueue (s : PushQueue) (g : Nat) (queue : List (Option Nat)) : PushQueue :=
  s.setLane g { s.lanes g with queue := queue }

def resolve (s : PushQueue) (n : Nat) (answer : Answer) : PushQueue :=
  if s.futures n = .pending then
    { s with futures := update s.futures n (.resolved answer) }
  else s

-- ==== start, stop, enqueue

def start (s : PushQueue) : PushQueue :=
  if s.stopFailed then s
  else if s.worker.all (fun g => (s.lanes g).stage = .exited) ∨ s.closing then
    { s.setLane s.count ⟨.created, 0, false, [], []⟩ with
      count := s.count + 1
      queue := some s.count
      worker := some s.count
      closing := false }
  else s

def stop (s : PushQueue) (k : Nat) : PushQueue :=
  match s.worker with
  | none => { s with stops := update s.stops k .returned }
  | some g =>
    let s := { s with
      closing := true
      stops := update s.stops k (.draining g none) }
    match s.queue with
    | none => s
    | some q => s.setQueue q ((s.lanes q).queue ++ [none])

/-- The wait of a `stop` is interrupted; the worker is cancelled and waited for. -/
def interrupt (s : PushQueue) (k : Nat) (timedOut : Bool) : PushQueue :=
  match s.stops k with
  | .draining g interrupted =>
    { s.setLane g { s.lanes g with cancelRequested := true } with
      stops := update s.stops k
        (.draining g (some (timedOut && interrupted.getD true))) }
  | _ => s

def finishStop (s : PushQueue) (k : Nat) : PushQueue :=
  match s.stops k with
  | .draining g interrupted =>
    if (s.lanes g).stage = .exited then
      { s with
        stopFailed := s.stopFailed || interrupted.getD false
        worker := if s.worker = some g then none else s.worker
        queue := if s.worker = some g then none else s.queue
        stops := update s.stops k .returned }
    else s
  | _ => s

def acceptsOn (s : PushQueue) : Option Nat :=
  if s.closing then none else s.queue

def enqueue (s : PushQueue) (n : Nat) : PushQueue :=
  match s.acceptsOn with
  | none => { s with futures := update s.futures n .refused }
  | some q =>
    { s.setLane q { s.lanes q with
        queue := (s.lanes q).queue ++ [some n]
        puts := (s.lanes q).puts ++ [n] } with
      futures := update s.futures n .pending
      accepted := s.accepted ++ [n] }

-- ==== the worker

/-- The `finally` of the worker: what is left on its queue is answered. -/
def drain (s : PushQueue) (q : Nat) : PushQueue :=
  { s.setQueue q [] with
    futures := fun n =>
      if some n ∈ (s.lanes q).queue ∧ s.futures n = .pending then .resolved .stopped
      else s.futures n }

def exit (s : PushQueue) (g : Nat) : PushQueue :=
  (s.drain (s.lanes g).captured).setStage g .exited

/-- The first step of a worker. -/
def run (s : PushQueue) (g : Nat) : PushQueue :=
  match s.queue with
  | none => s.setStage g .exited
  | some q => s.setLane g { s.lanes g with stage := .getting, captured := q }

def get (s : PushQueue) (g : Nat) : PushQueue :=
  match (s.lanes (s.lanes g).captured).queue with
  | [] => s
  | none :: rest => (s.setQueue (s.lanes g).captured rest).exit g
  | some n :: rest =>
    { (s.setQueue (s.lanes g).captured rest).setStage g (.merging n) with
      merges := s.merges ++ [n] }

def answer (s : PushQueue) (g n : Nat) (answer : Answer) : PushQueue :=
  (s.resolve n answer).setStage g .getting

def crash (s : PushQueue) (g n : Nat) : PushQueue :=
  (s.resolve n .failed).exit g

/-- `merge_workspace` is over. -/
def mergeEnds (s : PushQueue) (g n : Nat) : MergeOutcome → PushQueue
  | .success =>
    { s.setStage g (.pushing n) with
      mergedWell := s.mergedWell ++ [n]
      pushes := s.pushes ++ [n] }
  | .conflict => s.answer g n .conflict
  | .mergeError => s.answer g n .mergeError
  | .otherError => s.answer g n .failed
  | .critical => s.crash g n

def pushEnds (s : PushQueue) (g n : Nat) : PushOutcome → PushQueue
  | .success => s.answer g n .merged
  | .pushError | .otherError => s.answer g n .pushError
  | .critical => s.crash g n

/-- The cancellation reaches the worker; a body that never ran is not entered. -/
def die (s : PushQueue) (g : Nat) : PushQueue :=
  match (s.lanes g).stage with
  | .absent | .exited => s
  | .created => s.setStage g .exited
  | .getting | .merging _ | .pushing _ => s.exit g

-- ==== the steps

inductive Input
  | start
  | stop (k : Nat)
  | interrupt (k : Nat) (timedOut : Bool)
  | finishStop (k : Nat)
  | enqueue (n : Nat)
  /-- The caller that waits for the future is cancelled. -/
  | cancelCaller (n : Nat)
  | run (g : Nat)
  | get (g : Nat)
  | mergeEnds (g : Nat) (outcome : MergeOutcome)
  | pushEnds (g : Nat) (outcome : PushOutcome)
  | die (g : Nat)

/-- A worker whose cancellation was requested does nothing but die of it. -/
def resumesAt (s : PushQueue) (g : Nat) : Stage :=
  if (s.lanes g).cancelRequested then .exited else (s.lanes g).stage

def step (s : PushQueue) : Input → PushQueue
  | .start => s.start
  | .stop k => match s.stops k with | .absent => s.stop k | _ => s
  | .interrupt k timedOut => s.interrupt k timedOut
  | .finishStop k => s.finishStop k
  | .enqueue n => match s.futures n with | .absent => s.enqueue n | _ => s
  | .cancelCaller n => s.resolve n .cancelled
  | .run g => match s.resumesAt g with | .created => s.run g | _ => s
  | .get g => match s.resumesAt g with | .getting => s.get g | _ => s
  | .mergeEnds g outcome =>
    match s.resumesAt g with | .merging n => s.mergeEnds g n outcome | _ => s
  | .pushEnds g outcome =>
    match s.resumesAt g with | .pushing n => s.pushEnds g n outcome | _ => s
  | .die g => if (s.lanes g).cancelRequested then s.die g else s

end PushQueue

end Synthorg.Workspace
