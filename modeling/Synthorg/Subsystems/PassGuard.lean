/-
Claiming, handing on and giving back the reconcile pass
(api/subsystems/reconciler.py `reconcile`, `_claim_pass`,
`_continue_or_release`, `_release_pass`, `_lock_for_current_loop`).

A call of `reconcile` runs on the event loop of some thread. It fetches the
asyncio lock, waits for it, and tries to claim the pass; what it does to
the flags is one critical section under `_pass_guard`, so one step here.
Between two steps of one call any other call may take any of its own. A
pass itself is a stretch between its start and its end, and it may raise.
-/
import Synthorg.Lib.Run

namespace Synthorg.Subsystems.PassGuard

open Lib

-- ==== the state

abbrev LockId := Nat

/-- A call of `reconcile`. -/
abbrev CallId := Nat

/-- Where a call stands. -/
inductive Stage where
  /-- Not made yet. -/
  | idle
  | waiting (lock : LockId) (retryDeclined : Bool)
  /-- Holding it, about to claim. -/
  | entered (lock : LockId) (retryDeclined : Bool)
  /-- Owning the claim, about to run a pass. -/
  | claimed (lock : LockId) (retryDeclined : Bool)
  | inPass (lock : LockId)
  /-- The pass returned; about to take a follow-up or give the claim back. -/
  | passed (lock : LockId)
  /-- The pass raised; about to give the claim back. -/
  | failed (lock : LockId)
  | deferred
  | returned
  | raised

namespace Stage

def owning : Stage → Bool
  | .claimed _ _ => true
  | .inPass _ => true
  | .passed _ => true
  | .failed _ => true
  | _ => false

def hasRaised : Stage → Bool
  | .failed _ => true
  | .raised => true
  | _ => false

end Stage

/-- A call that was told its pass is deferred. -/
structure Deferral where
  call : CallId
  retryDeclined : Bool
  startsBefore : Nat
  owner : CallId

structure State where
  stages : CallId → Stage
  lock : Option (LockId × Nat)
  locksMade : Nat
  holders : LockId → Option CallId
  passInFlight : Bool
  followUp : Option Bool
  owner : Option CallId
  starts : List Bool
  claims : List (CallId × Nat)
  deferrals : List Deferral

/-- A reconciler nobody has called yet. -/
def start : State :=
  { stages := fun _ => .idle
    lock := none
    locksMade := 0
    holders := fun _ => none
    passInFlight := false
    followUp := none
    owner := none
    starts := []
    claims := []
    deferrals := [] }

-- ==== the steps

inductive Event where
  | enter (c : CallId) (loop : Nat) (retryDeclined : Bool)
  /-- It gets the lock. -/
  | acquire (c : CallId)
  /-- Its wait for the lock is cancelled. -/
  | cancel (c : CallId)
  | claim (c : CallId)
  | startPass (c : CallId)
  | endPass (c : CallId) (raises : Bool)
  | continueOrRelease (c : CallId)
  | release (c : CallId)

def Event.call : Event → CallId
  | .enter c _ _ => c
  | .acquire c => c
  | .cancel c => c
  | .claim c => c
  | .startPass c => c
  | .endPass c _ => c
  | .continueOrRelease c => c
  | .release c => c

namespace State

def setStage (s : State) (c : CallId) (stage : Stage) : State :=
  { s with stages := Function.update s.stages c stage }

/-- Leaving `async with`. -/
def unlock (s : State) (lock : LockId) : State :=
  { s with holders := Function.update s.holders lock none }

def lockForLoop (s : State) (loop : Nat) : LockId × State :=
  match s.lock with
  | some (lock, madeOn) =>
    if madeOn = loop then (lock, s)
    else (s.locksMade,
      { s with lock := some (s.locksMade, loop), locksMade := s.locksMade + 1 })
  | none =>
    (s.locksMade, { s with lock := some (s.locksMade, loop), locksMade := s.locksMade + 1 })

/-- `_claim_pass`, and what `reconcile` makes of its answer. -/
def claimPass (s : State) (c : CallId) (lock : LockId) (retryDeclined : Bool) : State :=
  if s.passInFlight then
    let queued : State := { s with
      followUp := some (retryDeclined || s.followUp.getD false)
      deferrals := s.deferrals ++ s.owner.toList.map fun owner =>
        { call := c, retryDeclined := retryDeclined, startsBefore := s.starts.length,
          owner := owner } }
    (queued.setStage c .deferred).unlock lock
  else
    let taken : State := { s with
      passInFlight := true
      owner := some c
      claims := s.claims ++ [(c, s.deferrals.length)] }
    taken.setStage c (.claimed lock retryDeclined)

def unclaim (s : State) : State := { s with passInFlight := false, owner := none }

def continueOrRelease (s : State) (c : CallId) (lock : LockId) : State :=
  match s.followUp with
  | none => (s.unclaim.setStage c .returned).unlock lock
  | some requested => State.setStage { s with followUp := none } c (.claimed lock requested)

/-- A queued follow-up is kept. -/
def releasePass (s : State) (c : CallId) (lock : LockId) : State :=
  (s.unclaim.setStage c .raised).unlock lock

end State

def step (s : State) : Event → State
  | .enter c loop retryDeclined =>
    match s.stages c with
    | .idle => (s.lockForLoop loop).2.setStage c (.waiting (s.lockForLoop loop).1 retryDeclined)
    | _ => s
  | .acquire c =>
    match s.stages c with
    | .waiting lock retryDeclined =>
      if s.holders lock = none then
        State.setStage { s with holders := Function.update s.holders lock (some c) } c
          (.entered lock retryDeclined)
      else s
    | _ => s
  | .cancel c =>
    match s.stages c with
    | .waiting _ _ => s.setStage c .raised
    | _ => s
  | .claim c =>
    match s.stages c with
    | .entered lock retryDeclined => s.claimPass c lock retryDeclined
    | _ => s
  | .startPass c =>
    match s.stages c with
    | .claimed lock retryDeclined =>
      State.setStage { s with starts := s.starts ++ [retryDeclined] } c (.inPass lock)
    | _ => s
  | .endPass c raises =>
    match s.stages c with
    | .inPass lock => s.setStage c (if raises then .failed lock else .passed lock)
    | _ => s
  | .continueOrRelease c =>
    match s.stages c with
    | .passed lock => s.continueOrRelease c lock
    | _ => s
  | .release c =>
    match s.stages c with
    | .failed lock => s.releasePass c lock
    | _ => s

def run (events : List Event) : State := Run.final step start events

end Synthorg.Subsystems.PassGuard
