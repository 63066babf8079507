/-
The two strategies that reuse a sandbox container
(tools/sandbox/lifecycle/per_agent.py, per_task.py and _liveness.py).

A container is kept for its owner between calls. `PerAgent` tears it down when
a grace period after the release or an idle time is over, `PerTask` with the
release; both wait for a background job that still runs in it.

No section under a strategy's lock awaits anything, so the lock is never waited for, and a section
is one step with what runs up to the next await: of a create, destroy, probe or pin callback, or
of a sleep. Every pop of a timer goes with its cancellation or is the timer's own last section, so
an entry of the dicts stands for the task itself.
-/
import Mathlib.Logic.Function.Basic

namespace Synthorg.Sandbox

open Function (update)

-- ==== the record

inductive Cause
  | release (release : Nat)
  | dead (acquire : Nat)
  | lost (acquire : Nat)
  deriving DecidableEq

inductive Event
  /-- `tracked_owners` answers with this generation. -/
  | tracked (generation : Nat)
  | taken (acquire handle generation : Nat)
  | returned (acquire handle : Nat)
  | began (release : Nat)
  /-- A release starts its timers or a deferred teardown, or takes the container out. -/
  | teardown (release : Nat) (expectedGeneration : Option Nat)
  | foundDead (handle : Nat)
  /-- `destroy_fn` is called, -/
  | destroyed (handle : Nat) (cause : Cause)
  | failed (handle : Nat)
  deriving DecidableEq

/-- The entries of one owner, its handles and releases so far, and its record, the latest first. -/
structure Key where
  container : Option Nat := none
  generation : Option Nat := none
  made : Nat := 0
  releases : Nat := 0
  log : List Event := []

namespace Key

def note (k : Key) (event : Event) : Key :=
  { k with log := event :: k.log }

def begin (k : Key) : Key :=
  { k.note (.began k.releases) with releases := k.releases + 1 }

def take (k : Key) (n handle next : Nat) : Key :=
  { k.note (.taken n handle next) with generation := some next }

def put (k : Key) : Key :=
  { k with container := some k.made, made := k.made + 1 }

def lose (k : Key) (n : Nat) : Key :=
  { k.note (.destroyed k.made (.lost n)) with made := k.made + 1 }

/-- The entry is taken out, and `destroy_fn` called. -/
def destroy (k : Key) (handle : Nat) (cause : Cause) : Key :=
  { k.note (.destroyed handle cause) with container := none, generation := none }

def reinstate (k : Key) (handle next : Nat) : Key :=
  match k.container with
  | some _ => k.note (.failed handle)
  | none =>
    { k.note (.failed handle) with
      container := some handle
      generation := some (k.generation.getD next) }

def reacquired (k : Key) (expectedGeneration : Option Nat) : Bool :=
  expectedGeneration.isSome && k.generation != expectedGeneration

def tracked (k : Key) : Key :=
  match k.container, k.generation with
  | some _, some generation => k.note (.tracked generation)
  | _, _ => k

end Key

-- ==== what both use

structure SandboxLifecycleConfig where
  gracePeriodSeconds : Int
  maxIdleSeconds : Int
  pinRecheckSeconds : Int

def pinCheckFailureLimit : Nat := 5

inductive Acquire
  | absent
  | probing (handle : Nat)
  | reaping
  | creating
  | discarding (existing : Nat)
  | returned (handle : Nat)
  /-- `create_fn` raised. -/
  | raised
  deriving DecidableEq

inductive Wait
  | fresh
  | sleeping (wakesAt : Int)
  | checking (handle failures : Nat)
  | rechecking (wakesAt : Int) (failures : Nat)
  deriving DecidableEq

structure Timer where
  release : Nat
  wait : Wait

/-- `none` is a check that raised; the answer is the failures in a row the wait goes on with. -/
def pinAnswer (failures : Nat) : Option Bool → Option Nat
  | none => if pinCheckFailureLimit ≤ failures + 1 then none else some (failures + 1)
  | some true => some 0
  | some false => none

structure Surroundings where
  config : SandboxLifecycleConfig
  now : Int
  pinCheck : Bool

-- ==== per agent

inductive TimerKind
  | grace
  | idle
  deriving DecidableEq

namespace PerAgent

structure Owner extends Key where
  lastUsed : Option Int := none
  destroyFn : Bool := false
  timer : Option Timer := none
  idleTimer : Option Timer := none
  acquires : Nat → Acquire := fun _ => .absent

namespace Owner

def setAcquire (o : Owner) (n : Nat) (stage : Acquire) : Owner :=
  { o with acquires := update o.acquires n stage }

def getTimer (o : Owner) : TimerKind → Option Timer
  | .grace => o.timer
  | .idle => o.idleTimer

def setTimer (o : Owner) (kind : TimerKind) (timer : Option Timer) : Owner :=
  match kind with
  | .grace => { o with timer := timer }
  | .idle => { o with idleTimer := timer }

/-- `_cancel_timer` and `_cancel_idle_timer`. -/
def cancelTimers (o : Owner) : Owner :=
  { o with timer := none, idleTimer := none }

/-- `_reusable_handle` up to its probe, or up to `create_fn`. -/
def acquire (env : Surroundings) (o : Owner) (next n : Nat) : Owner × Nat :=
  match o.container with
  | none => (o.cancelTimers.setAcquire n .creating, next)
  | some handle =>
    ({ o.cancelTimers.setAcquire n (.probing handle) with
        toKey := o.toKey.take n handle next
        lastUsed := some env.now }, next + 1)

/-- The probe has answered; `_evict` follows on a dead one. -/
def probed (o : Owner) (n handle : Nat) (alive : Bool) : Owner :=
  if alive then
    { o.setAcquire n (.returned handle) with toKey := o.toKey.note (.returned n handle) }
  else if o.container = some handle then
    { o.cancelTimers.setAcquire n .reaping with
      toKey := (o.toKey.note (.foundDead handle)).destroy handle (.dead n)
      lastUsed := none
      destroyFn := false }
  else { o.setAcquire n .creating with toKey := o.toKey.note (.foundDead handle) }

/-- `acquire` after `create_fn`, which may have raised. -/
def created (env : Surroundings) (o : Owner) (next n : Nat) (ok : Bool) : Owner × Nat :=
  if !ok then (o.setAcquire n .raised, next)
  else
    match o.container with
    | some existing =>
      ({ o.cancelTimers.setAcquire n (.discarding existing) with
          toKey := (o.toKey.take n existing next).lose n
          lastUsed := some env.now
          destroyFn := true }, next + 1)
    | none =>
      ({ o.setAcquire n (.returned o.made) with
          toKey := (o.toKey.put.take n o.made next).note (.returned n o.made)
          lastUsed := some env.now
          destroyFn := true }, next + 1)

/-- The loser is reaped, and `acquire` returns the handle that won. -/
def discarded (o : Owner) (n existing : Nat) : Owner :=
  { o.setAcquire n (.returned existing) with toKey := o.toKey.note (.returned n existing) }

def release (env : Surroundings) (o : Owner) (expectedGeneration : Option Nat) : Owner :=
  if o.container = none ∨ o.reacquired expectedGeneration = true then
    { o with toKey := o.toKey.begin }
  else
    { o with
      toKey := o.toKey.begin.note (.teardown o.releases expectedGeneration)
      lastUsed := some env.now
      destroyFn := true
      timer := some ⟨o.releases, .fresh⟩
      idleTimer := if env.config.maxIdleSeconds ≤ 0 then none else some ⟨o.releases, .fresh⟩ }

def expire (o : Owner) (kind : TimerKind) (release handle : Nat) : Owner :=
  if o.container ≠ some handle then o.setTimer kind none
  else
    match kind with
    | .grace =>
      { o.cancelTimers with
        toKey := o.toKey.destroy handle (.release release)
        lastUsed := none
        destroyFn := false }
    | .idle =>
      { o with
        toKey :=
          if o.destroyFn then o.toKey.destroy handle (.release release)
          else { o.toKey with container := none, generation := none }
        lastUsed := none
        destroyFn := false
        idleTimer := none }

def awaitUnpinned (env : Surroundings) (o : Owner) (kind : TimerKind) (release failures : Nat) :
    Owner :=
  match o.container with
  | none => o.setTimer kind none
  | some handle =>
    if env.pinCheck then o.setTimer kind (some ⟨release, .checking handle failures⟩)
    else o.expire kind release handle

/-- The loop of `_idle_expire`. -/
def idleLoop (env : Surroundings) (o : Owner) (release : Nat) : Owner :=
  match o.lastUsed, o.container with
  | some last, some _ =>
    let remaining := env.config.maxIdleSeconds - (env.now - last)
    if remaining ≤ 0 then o.awaitUnpinned env .idle release 0
    else { o with idleTimer := some ⟨release, .sleeping (env.now + remaining)⟩ }
  | _, _ => { o with idleTimer := none }

def timerGoes (env : Surroundings) (o : Owner) (kind : TimerKind) (answer : Option Bool) : Owner :=
  match o.getTimer kind, kind with
  | none, _ => o
  | some ⟨release, .fresh⟩, .grace =>
    { o with timer := some ⟨release, .sleeping (env.now + env.config.gracePeriodSeconds)⟩ }
  | some ⟨release, .fresh⟩, .idle => o.idleLoop env release
  | some ⟨release, .sleeping wakesAt⟩, kind =>
    if env.now < wakesAt then o
    else if kind = .grace then o.awaitUnpinned env .grace release 0
    else o.idleLoop env release
  | some ⟨release, .rechecking wakesAt failures⟩, kind =>
    if env.now < wakesAt then o else o.awaitUnpinned env kind release failures
  | some ⟨release, .checking handle failures⟩, kind =>
    match pinAnswer failures answer with
    | none => o.expire kind release handle
    | some failures =>
      o.setTimer kind
        (some ⟨release, .rechecking (env.now + env.config.pinRecheckSeconds) failures⟩)

end Owner

/-- What goes on at one owner. -/
inductive Move
  | acquire (n : Nat)
  | probed (n : Nat) (alive : Bool)
  | reaped (n : Nat)
  | created (n : Nat) (ok : Bool)
  | discarded (n : Nat)
  | release (expectedGeneration : Option Nat)
  | timer (kind : TimerKind) (answer : Option Bool)
  deriving DecidableEq

def Owner.move (env : Surroundings) (o : Owner) (next : Nat) : Move → Owner × Nat
  | .acquire n => if o.acquires n = .absent then o.acquire env next n else (o, next)
  | .probed n alive =>
    match o.acquires n with
    | .probing handle => (o.probed n handle alive, next)
    | _ => (o, next)
  | .reaped n =>
    if o.acquires n = .reaping then (o.setAcquire n .creating, next) else (o, next)
  | .created n ok => if o.acquires n = .creating then o.created env next n ok else (o, next)
  | .discarded n =>
    match o.acquires n with
    | .discarding existing => (o.discarded n existing, next)
    | _ => (o, next)
  | .release expectedGeneration => (o.release env expectedGeneration, next)
  | .timer kind answer => (o.timerGoes env kind answer, next)

end PerAgent

-- ==== per task

namespace PerTask

inductive Release
  | absent
  | checking (handle : Nat) (expectedGeneration : Option Nat)
  | destroying (handle : Nat)
  | ended

structure Owner extends Key where
  pendingTeardown : Option Timer := none
  acquires : Nat → Acquire := fun _ => .absent
  stages : Nat → Release := fun _ => .absent

namespace Owner

def setAcquire (o : Owner) (n : Nat) (stage : Acquire) : Owner :=
  { o with acquires := update o.acquires n stage }

def setStage (o : Owner) (release : Nat) (stage : Release) : Owner :=
  { o with stages := update o.stages release stage }

/-- `_reusable_handle` up to its probe, or up to `create_fn`. -/
def acquire (o : Owner) (next n : Nat) : Owner × Nat :=
  match o.container with
  | none => ({ o.setAcquire n .creating with pendingTeardown := none }, next)
  | some handle =>
    ({ o.setAcquire n (.probing handle) with
        toKey := o.toKey.take n handle next
        pendingTeardown := none }, next + 1)

def probed (o : Owner) (n handle : Nat) (alive : Bool) : Owner :=
  if alive then
    { o.setAcquire n (.returned handle) with toKey := o.toKey.note (.returned n handle) }
  else if o.container = some handle then
    { o.setAcquire n .reaping with
      toKey := (o.toKey.note (.foundDead handle)).destroy handle (.dead n) }
  else { o.setAcquire n .creating with toKey := o.toKey.note (.foundDead handle) }

/-- `acquire` after `create_fn`, which may have raised. -/
def created (o : Owner) (next n : Nat) (ok : Bool) : Owner × Nat :=
  if !ok then (o.setAcquire n .raised, next)
  else
    match o.container with
    | some existing =>
      ({ o.setAcquire n (.discarding existing) with
          toKey := (o.toKey.take n existing next).lose n }, next + 1)
    | none =>
      ({ o.setAcquire n (.returned o.made) with
          toKey := (o.toKey.put.take n o.made next).note (.returned n o.made) }, next + 1)

/-- The loser is destroyed, and `acquire` returns the handle that won. -/
def discarded (o : Owner) (n existing : Nat) : Owner :=
  { o.setAcquire n (.returned existing) with toKey := o.toKey.note (.returned n existing) }

/-- The last section of `release` before its destruction. -/
def takeOut (o : Owner) (release handle : Nat) (expectedGeneration : Option Nat) : Owner :=
  if o.container ≠ some handle ∨ o.reacquired expectedGeneration = true then
    o.setStage release .ended
  else
    { o.setStage release (.destroying handle) with
      toKey := (o.toKey.note (.teardown release expectedGeneration)).destroy handle
        (.release release) }

def release (env : Surroundings) (o : Owner) (expectedGeneration : Option Nat) : Owner :=
  let begun := { o with toKey := o.toKey.begin }
  match o.container with
  | none => begun.setStage o.releases .ended
  | some handle =>
    if o.reacquired expectedGeneration then begun.setStage o.releases .ended
    else if env.pinCheck then begun.setStage o.releases (.checking handle expectedGeneration)
    else begun.takeOut o.releases handle expectedGeneration

def startDeferredTeardown (o : Owner) (release : Nat) (expectedGeneration : Option Nat) : Owner :=
  { o.setStage release .ended with
    toKey := o.toKey.note (.teardown release expectedGeneration)
    pendingTeardown := some ⟨release, .fresh⟩ }

/-- `release` after its pin check; a check that raised is a pinned container. -/
def checked (o : Owner) (release handle : Nat) (expectedGeneration : Option Nat)
    (answer : Option Bool) : Owner :=
  if answer = some false then o.takeOut release handle expectedGeneration
  else o.startDeferredTeardown release expectedGeneration

/-- The last section of the deferred teardown. -/
def expire (o : Owner) (release handle : Nat) : Owner :=
  if o.container ≠ some handle then { o with pendingTeardown := none }
  else
    { o.setStage release (.destroying handle) with
      toKey := o.toKey.destroy handle (.release release)
      pendingTeardown := none }

def waitThenDestroy (env : Surroundings) (o : Owner) (release failures : Nat) : Owner :=
  match o.container with
  | none => { o with pendingTeardown := none }
  | some handle =>
    if env.pinCheck then { o with pendingTeardown := some ⟨release, .checking handle failures⟩ }
    else o.expire release handle

def teardownGoes (env : Surroundings) (o : Owner) (answer : Option Bool) : Owner :=
  match o.pendingTeardown with
  | none => o
  | some ⟨release, .fresh⟩ => o.waitThenDestroy env release 0
  | some ⟨release, .sleeping wakesAt⟩ =>
    if env.now < wakesAt then o else o.waitThenDestroy env release 0
  | some ⟨release, .rechecking wakesAt failures⟩ =>
    if env.now < wakesAt then o else o.waitThenDestroy env release failures
  | some ⟨release, .checking handle failures⟩ =>
    match pinAnswer failures answer with
    | none => o.expire release handle
    | some failures =>
      { o with
        pendingTeardown :=
          some ⟨release, .rechecking (env.now + env.config.pinRecheckSeconds) failures⟩ }

/-- `destroy_fn` has returned, or raised. -/
def destroyed (o : Owner) (next release handle : Nat) (ok : Bool) : Owner × Nat :=
  if ok then (o.setStage release .ended, next)
  else
    ({ o.setStage release .ended with toKey := o.toKey.reinstate handle next },
      if o.container = none then next + 1 else next)

end Owner

/-- What goes on at one owner. -/
inductive Move
  | acquire (n : Nat)
  | probed (n : Nat) (alive : Bool)
  | reaped (n : Nat)
  | created (n : Nat) (ok : Bool)
  | discarded (n : Nat)
  | release (expectedGeneration : Option Nat)
  | checked (release : Nat) (answer : Option Bool)
  | destroyed (release : Nat) (ok : Bool)
  | teardown (answer : Option Bool)
  deriving DecidableEq

def Owner.move (env : Surroundings) (o : Owner) (next : Nat) : Move → Owner × Nat
  | .acquire n => if o.acquires n = .absent then o.acquire next n else (o, next)
  | .probed n alive =>
    match o.acquires n with
    | .probing handle => (o.probed n handle alive, next)
    | _ => (o, next)
  | .reaped n =>
    if o.acquires n = .reaping then (o.setAcquire n .creating, next) else (o, next)
  | .created n ok => if o.acquires n = .creating then o.created next n ok else (o, next)
  | .discarded n =>
    match o.acquires n with
    | .discarding existing => (o.discarded n existing, next)
    | _ => (o, next)
  | .release expectedGeneration => (o.release env expectedGeneration, next)
  | .checked release answer =>
    match o.stages release with
    | .checking handle expectedGeneration =>
      (o.checked release handle expectedGeneration answer, next)
    | _ => (o, next)
  | .destroyed release ok =>
    match o.stages release with
    | .destroying handle => o.destroyed next release handle ok
    | _ => (o, next)
  | .teardown answer => (o.teardownGoes env answer, next)

end PerTask

-- ==== the strategies

structure Strategy (κ O : Type) where
  owners : κ → O
  nextGeneration : Nat
  now : Int
  pinCheck : Bool

inductive Input (κ M : Type)
  | at (owner : κ) (move : M)
  | trackedOwners
  | bindPinCheck
  | tick (elapsed : Nat)

namespace Strategy

variable {κ O M : Type} [DecidableEq κ]

def new (empty : O) (now : Int) (pinCheck : Bool) : Strategy κ O :=
  ⟨fun _ => empty, 1, now, pinCheck⟩

def step (move : Surroundings → O → Nat → M → O × Nat) (tracked : O → O)
    (config : SandboxLifecycleConfig) (s : Strategy κ O) : Input κ M → Strategy κ O
  | .at owner m =>
    let moved := move ⟨config, s.now, s.pinCheck⟩ (s.owners owner) s.nextGeneration m
    { s with owners := update s.owners owner moved.1, nextGeneration := moved.2 }
  | .trackedOwners => { s with owners := fun owner => tracked (s.owners owner) }
  | .bindPinCheck => { s with pinCheck := true }
  | .tick elapsed => { s with now := s.now + elapsed }

end Strategy

def PerAgent.step {κ : Type} [DecidableEq κ] (config : SandboxLifecycleConfig) :
    Strategy κ PerAgent.Owner → Input κ PerAgent.Move → Strategy κ PerAgent.Owner :=
  Strategy.step PerAgent.Owner.move (fun o => { o with toKey := o.toKey.tracked }) config

def PerTask.step {κ : Type} [DecidableEq κ] (config : SandboxLifecycleConfig) :
    Strategy κ PerTask.Owner → Input κ PerTask.Move → Strategy κ PerTask.Owner :=
  Strategy.step PerTask.Owner.move (fun o => { o with toKey := o.toKey.tracked }) config

end Synthorg.Sandbox
