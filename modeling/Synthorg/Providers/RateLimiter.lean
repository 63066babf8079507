/-
`RateLimiter`: acquire, release and pause, and `rate_limited_call` around them.

`acquire` awaits three things in turn: the end of the pause, a slot of the
minute window, and a slot of the semaphore. A sleep may end at any reading of
the clock, and what is slept for is looked at again. The lock around the window
is never awaited: nobody awaits anything while holding it.

Each time stamp is kept with the call it belongs to.
-/
import Synthorg.Lib.Run
import Synthorg.Lib.Semaphore
import Synthorg.Lib.Window
import Mathlib.Algebra.Order.Field.Rat

namespace Synthorg.Providers

open Lib

/-- A limit of zero does not limit. -/
structure RateLimiterConfig where
  maxRequestsPerMinute : Nat
  maxConcurrent : Nat

def rpmWindowSeconds : ℚ := 60

inductive Stage
  | absent
  | pausing
  | sleeping (wait : ℚ)
  | queued
  | returned
  | released
  | cancelled
  | raised
  deriving DecidableEq

structure TimeStamp where
  call : Nat
  time : ℚ
  deriving DecidableEq

/-- An `acquire` that returned, with the latest deadline of a pause then. -/
structure Return where
  stamp : TimeStamp
  pauseUntil : ℚ

structure RateLimiter where
  clock : ℚ
  pauseUntil : ℚ
  requestTimestamps : List TimeStamp
  semaphore : Semaphore Nat
  calls : Nat → Stage
  /-- The calls that returned and were not released. -/
  held : List Nat
  stamped : List TimeStamp
  returns : List Return

namespace RateLimiter

/-- `__init__`. -/
def new (config : RateLimiterConfig) (clock : ℚ) : RateLimiter :=
  ⟨clock, 0, [], Semaphore.new config.maxConcurrent, fun _ => .absent, [], [], []⟩

def setCall (s : RateLimiter) (n : Nat) (stage : Stage) : RateLimiter :=
  { s with calls := Function.update s.calls n stage }

/-- `acquire` returns. -/
def letIn (s : RateLimiter) (n : Nat) : RateLimiter :=
  { s.setCall n .returned with
    held := n :: s.held
    returns := ⟨⟨n, s.clock⟩, s.pauseUntil⟩ :: s.returns }

/-- `acquire` from the semaphore on. -/
def enterSemaphore (config : RateLimiterConfig) (s : RateLimiter) (n : Nat) : RateLimiter :=
  if config.maxConcurrent = 0 then s.letIn n
  else if s.semaphore.locked then
    { s.setCall n .queued with semaphore := s.semaphore.enqueue n }
  else { s with semaphore := s.semaphore.take }.letIn n

def unexpired (s : RateLimiter) : List TimeStamp :=
  s.requestTimestamps.filter fun stamp => s.clock - rpmWindowSeconds < stamp.time

def stamp (s : RateLimiter) (n : Nat) : RateLimiter :=
  { s with
    requestTimestamps := s.unexpired ++ [⟨n, s.clock⟩]
    stamped := ⟨n, s.clock⟩ :: s.stamped }

def waitForRpmSlot (config : RateLimiterConfig) (s : RateLimiter) (n : Nat) : RateLimiter :=
  if s.unexpired.length < config.maxRequestsPerMinute then (s.stamp n).enterSemaphore config n
  else
    match s.unexpired with
    | [] => s.setCall n .raised
    | oldest :: _ =>
      let wait := oldest.time - (s.clock - rpmWindowSeconds)
      if wait ≤ 0 then { s with requestTimestamps := s.unexpired }.setCall n .raised
      else { s with requestTimestamps := s.unexpired }.setCall n (.sleeping wait)

def waitForPause (config : RateLimiterConfig) (s : RateLimiter) (n : Nat) : RateLimiter :=
  if s.clock < s.pauseUntil then s.setCall n .pausing
  else if 0 < config.maxRequestsPerMinute then s.waitForRpmSlot config n
  else s.enterSemaphore config n

def acquire (config : RateLimiterConfig) (s : RateLimiter) (n : Nat) : RateLimiter :=
  if config.maxRequestsPerMinute = 0 ∧ config.maxConcurrent = 0 ∧ s.pauseUntil ≤ s.clock then
    s.letIn n
  else s.waitForPause config n

/-- What `acquire` awaits is over. -/
def wake (config : RateLimiterConfig) (s : RateLimiter) (n : Nat) : RateLimiter :=
  match s.calls n with
  | .pausing => s.waitForPause config n
  | .sleeping _ => s.waitForRpmSlot config n
  | .queued =>
    if n ∈ s.semaphore.granted then
      { s with semaphore := s.semaphore.resume n }.letIn n
    else s
  | _ => s

/-- The await of `acquire` is cancelled. -/
def cancel (s : RateLimiter) (n : Nat) : RateLimiter :=
  match s.calls n with
  | .pausing | .sleeping _ => s.setCall n .cancelled
  | .queued =>
    { s.setCall n .cancelled with
      semaphore :=
        if n ∈ s.semaphore.granted then s.semaphore.giveBack n else s.semaphore.leave n }
  | _ => s

def release (config : RateLimiterConfig) (s : RateLimiter) (n : Nat) : RateLimiter :=
  if n ∈ s.held then
    { s.setCall n .released with
      held := s.held.erase n
      semaphore := if config.maxConcurrent = 0 then s.semaphore else s.semaphore.release }
  else s

/-- Refuses a negative number of seconds. -/
def pause (s : RateLimiter) (seconds : ℚ) : RateLimiter :=
  if seconds < 0 then s
  else if s.pauseUntil < s.clock + seconds then { s with pauseUntil := s.clock + seconds }
  else s

/-- A `RateLimitError` with a `retry_after` pauses the limiter; the slot is released anyway. -/
def endCall (config : RateLimiterConfig) (s : RateLimiter) (n : Nat) (retryAfter : Option ℚ) :
    RateLimiter :=
  match retryAfter with
  | none => s.release config n
  | some seconds => (s.pause seconds).release config n

inductive Input
  | acquire (n : Nat)
  | wake (n : Nat)
  | cancel (n : Nat)
  | release (n : Nat)
  | pause (seconds : ℚ)
  | endCall (n : Nat) (retryAfter : Option ℚ)
  /-- The monotonic clock goes on. -/
  | tick (seconds : ℚ)

def step (config : RateLimiterConfig) (s : RateLimiter) : Input → RateLimiter
  | .acquire n => match s.calls n with | .absent => s.acquire config n | _ => s
  | .wake n => s.wake config n
  | .cancel n => s.cancel n
  | .release n => s.release config n
  | .pause seconds => s.pause seconds
  | .endCall n retryAfter => s.endCall config n retryAfter
  | .tick seconds => if seconds < 0 then s else { s with clock := s.clock + seconds }

end RateLimiter

end Synthorg.Providers
