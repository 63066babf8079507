/-
Permits to run one operation (api/rate_limits/in_memory_inflight.py).

A bucket is a counter and a lock of its own; the meta-lock guards the making
of bucket locks, the reference counts that keep a sweep off them, and the
sweep. A caller is one `async with store.acquire(key)`: it raises the counter
on the way in and lowers it on the way out.

Every `async with` of the store is one of the points below. A caller takes a lock nobody holds or
queues for without giving up control, and is suspended otherwise; what it then does inside, and
the release, is one step.
-/
import Synthorg.Lib.Mutex
import Synthorg.Lib.Run

namespace Synthorg.RateLimits

open Lib
open Function (update)

-- ==== the points

/-- How a piece of the program ends, for the `finally` after it. -/
inductive Ending
  | returned
  /-- `ConcurrencyLimitExceededError`. -/
  | refused
  | cancelled
  deriving DecidableEq

inductive LockName
  | metaLock
  | bucket (lock : Nat)
  deriving DecidableEq

/-- The `async with` statements of the store, with what a caller there knows. -/
inductive Point
  /-- `_get_lock`, in `_acquire_or_raise`. -/
  | getLock
  | check (lock : Nat)
  /-- The count of acquires since the last sweep. -/
  | bump
  /-- `_gc_cold_buckets`. -/
  | sweep
  /-- `_release_lock_ref`, in the `finally` of `_acquire_or_raise`. -/
  | dropRef (ending : Ending)
  /-- `_get_lock`, in `_release`. -/
  | getLockBack
  /-- The decrement. -/
  | lower (lock : Nat)
  /-- `_release_lock_ref`, in the `finally` of `_release`. -/
  | dropRefBack (ending : Ending)
  deriving DecidableEq

def Point.lock : Point → LockName
  | .check lock | .lower lock => .bucket lock
  | _ => .metaLock

/-- Where a caller is. -/
inductive Stage
  | idle
  /-- In control, about to take the point's lock. -/
  | coming (point : Point)
  | queued (point : Point)
  /-- In control, holding the point's lock. -/
  | inside (point : Point)
  /-- Suspended in the block the permit guards. -/
  | body
  | done (ending : Ending)
  deriving DecidableEq

structure Caller (κ : Type*) where
  stage : Stage
  key : κ
  maxInflight : Int

-- ==== the store

/-- `InMemoryInflightStore`, beside the lock objects it has handed out. -/
structure Store (κ ι : Type*) where
  counters : κ → Option Int
  locks : κ → Option Nat
  lockRefs : κ → Option Int
  acquiresSinceGc : Nat
  objects : LockName → AsyncLock ι
  madeLocks : Nat

def gcEveryNAcquires : Nat := 1024

section Store

variable {κ ι : Type*} [DecidableEq κ] [DecidableEq ι] (store : Store κ ι)

def Store.getLock (key : κ) : Store κ ι × Nat :=
  let lock := (store.locks key).getD store.madeLocks
  ({ store with
      locks := update store.locks key (some lock)
      madeLocks := if store.locks key = none then store.madeLocks + 1 else store.madeLocks
      lockRefs := update store.lockRefs key (some ((store.lockRefs key).getD 0 + 1)) },
    lock)

def Store.releaseLockRef (key : κ) : Store κ ι :=
  let count := (store.lockRefs key).getD 0 - 1
  { store with
    lockRefs := update store.lockRefs key (if count ≤ 0 then none else some count) }

def Store.unused (key : κ) : Bool :=
  (store.lockRefs key).getD 0 = 0 &&
    (store.locks key).all fun lock => (store.objects (.bucket lock)).holder.isNone

/-- A bucket `_gc_cold_buckets` drops. -/
def Store.dead (key : κ) : Bool :=
  (store.counters key).any (· ≤ 0) && store.unused key

def Store.gcColdBuckets : Store κ ι :=
  { store with
    counters := fun key => if store.dead key then none else store.counters key
    locks := fun key =>
      if store.unused key && (store.dead key || (store.counters key).isNone) then none
      else store.locks key }

/-- The check and the increment; `none` where the bucket is full. -/
def Store.admit (key : κ) (maxInflight : Int) : Option (Store κ ι) :=
  let current := (store.counters key).getD 0
  if maxInflight ≤ current then none
  else some { store with counters := update store.counters key (some (current + 1)) }

/-- The decrement, which never goes below zero. -/
def Store.lower (key : κ) : Store κ ι :=
  let current := (store.counters key).getD 0
  { store with
    counters := update store.counters key
      (some (if current ≤ 0 then 0 else current - 1)) }

def Store.section (caller : Caller κ) : Point → Store κ ι × Stage
  | .getLock =>
    let (store, lock) := store.getLock caller.key
    (store, .coming (.check lock))
  | .check _ =>
    match store.admit caller.key caller.maxInflight with
    | none => (store, .coming (.dropRef .refused))
    | some store => (store, .coming .bump)
  | .bump =>
    if store.acquiresSinceGc + 1 ≥ gcEveryNAcquires then
      ({ store with acquiresSinceGc := 0 }, .coming .sweep)
    else
      ({ store with acquiresSinceGc := store.acquiresSinceGc + 1 }, .coming (.dropRef .returned))
  | .sweep => (store.gcColdBuckets, .coming (.dropRef .returned))
  | .dropRef .returned => (store.releaseLockRef caller.key, .body)
  | .dropRef ending => (store.releaseLockRef caller.key, .done ending)
  | .getLockBack =>
    let (store, lock) := store.getLock caller.key
    (store, .coming (.lower lock))
  | .lower _ => (store.lower caller.key, .coming (.dropRefBack .returned))
  | .dropRefBack ending => (store.releaseLockRef caller.key, .done ending)

end Store

/-- Into the `finally` of its function, if it is in a `try` that has one, and out otherwise. -/
def Point.cancelled : Point → Stage
  | .check _ | .bump | .sweep => .coming (.dropRef .cancelled)
  | .lower _ => .coming (.dropRefBack .cancelled)
  | .getLock | .dropRef _ | .getLockBack | .dropRefBack _ => .done .cancelled

-- ==== the machine

structure State (κ ι : Type*) where
  store : Store κ ι
  callers : ι → Caller κ
  current : Option ι

/-- What can happen next. -/
inductive Event (κ ι : Type*)
  /-- A caller enters `async with store.acquire(key, max_inflight=...)`. -/
  | start (id : ι) (key : κ) (maxInflight : Int)
  /-- The caller in control goes on. -/
  | run
  /-- The head of the queue of a free lock goes on. -/
  | wake (id : ι)
  /-- The guarded block ends, raises or is cancelled. -/
  | leave (id : ι)
  /-- Cancellation reaches a queued caller. -/
  | cancel (id : ι)

section Machine

variable {κ ι : Type*} [DecidableEq κ] [DecidableEq ι]

/-- Nothing has happened yet. -/
def start (key : κ) : State κ ι where
  store :=
    { counters := fun _ => none
      locks := fun _ => none
      lockRefs := fun _ => none
      acquiresSinceGc := 0
      objects := fun _ => .fresh
      madeLocks := 0 }
  callers := fun _ => ⟨.idle, key, 0⟩
  current := none

def Stage.control (id : ι) : Stage → Option ι
  | .coming _ | .inside _ => some id
  | _ => none

def State.at (s : State κ ι) (id : ι) (stage : Stage) : State κ ι :=
  { s with
    callers := update s.callers id { s.callers id with stage }
    current := stage.control id }

def State.setObject (s : State κ ι) (name : LockName) (lock : AsyncLock ι) : State κ ι :=
  { s with store := { s.store with objects := update s.store.objects name lock } }

def State.come (s : State κ ι) (id : ι) (point : Point) : State κ ι :=
  let lock := s.store.objects point.lock
  if lock.open? then (s.setObject point.lock (lock.take id)).at id (.inside point)
  else (s.setObject point.lock (lock.enqueue id)).at id (.queued point)

def State.finish (s : State κ ι) (id : ι) (point : Point) : State κ ι :=
  let (store, stage) := s.store.section (s.callers id) point
  let s : State κ ι := { s with store }
  (s.setObject point.lock (s.store.objects point.lock).release).at id stage

def State.go (s : State κ ι) (id : ι) : State κ ι :=
  match (s.callers id).stage with
  | .coming point => s.come id point
  | .inside point => s.finish id point
  | _ => s

/-- What happens when nobody is in control. -/
def State.resume (s : State κ ι) : Event κ ι → State κ ι
  | .start id key maxInflight =>
    -- `acquire` raises `ValueError` at a limit that is not positive
    if (s.callers id).stage = .idle ∧ 0 < maxInflight then
      { s with
        callers := update s.callers id ⟨.coming .getLock, key, maxInflight⟩
        current := some id }
    else s
  | .run => s
  | .wake id =>
    match (s.callers id).stage with
    | .queued point =>
      if (s.store.objects point.lock).next? = some id then
        (s.setObject point.lock (s.store.objects point.lock).handOver).at id (.inside point)
      else s
    | _ => s
  | .leave id =>
    if (s.callers id).stage = .body then s.at id (.coming .getLockBack) else s
  | .cancel id =>
    match (s.callers id).stage with
    | .queued point =>
      let lock := s.store.objects point.lock
      (s.setObject point.lock { lock with waiters := lock.waiters.erase id }).at id
        point.cancelled
    | _ => s

def step (s : State κ ι) (event : Event κ ι) : State κ ι :=
  match s.current with
  | some id =>
    match event with
    | .run => s.go id
    | _ => s
  | none => s.resume event

end Machine

end Synthorg.RateLimits
