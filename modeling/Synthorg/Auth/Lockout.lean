/-
`SQLiteLockoutRepository`: failed logins and the locks they lead to.

The failed attempts are rows of a table, and the locks are kept in memory. A
restart loses the locks and `load_locked` derives them from the rows again; the
repository is not used before it is done.

The wall clock and the monotonic clock go on together, at microseconds. The
texts the rows carry compare as the instants they stand for.
-/
import Synthorg.Lib.Run
import Mathlib.Data.String.Basic

namespace Synthorg.Auth

open Function (update)

/-- The fields of `AuthConfig` about lockouts, with the bounds it accepts. -/
structure AuthConfig where
  lockoutThreshold : Nat
  lockoutWindowMinutes : Nat
  lockoutDurationMinutes : Nat
  threshold_bounds : 1 ≤ lockoutThreshold ∧ lockoutThreshold ≤ 100
  window_bounds : 1 ≤ lockoutWindowMinutes ∧ lockoutWindowMinutes ≤ 1440
  duration_bounds : 1 ≤ lockoutDurationMinutes ∧ lockoutDurationMinutes ≤ 1440

def minute : Int := 60 * 1000000

def AuthConfig.window (config : AuthConfig) : Int := config.lockoutWindowMinutes * minute

def AuthConfig.duration (config : AuthConfig) : Int := config.lockoutDurationMinutes * minute

/-- `normalize_identifier`, which does nothing to a name that it made. -/
structure Identifiers where
  normalize : String → String
  normalize_normalize : ∀ name, normalize (normalize name) = normalize name

structure Attempt where
  username : String
  attemptedAt : Int

/-- A call of `record_failure`: it reads the clock before it waits for its turn
to write. -/
inductive FailureCall
  | absent
  | waiting (username : String) (now : Int)
  | done (nowLocked : Bool)
  | raised

/-- What happened to a name, in the order of the commits. -/
inductive Event
  | failure (username : String) (moment : Int)
  | success (username : String)

structure Lockout where
  clock : Int
  /-- Where the monotonic clock of the process began. -/
  boot : Int
  rows : List Attempt
  locked : String → Option Int
  failureCalls : Nat → FailureCall
  /-- Newest first. -/
  history : List Event

namespace Lockout

def new (clock boot : Int) : Lockout :=
  ⟨clock, boot, [], fun _ => none, fun _ => .absent, []⟩

def monotonic (s : Lockout) : Int := s.clock - s.boot

def isLocked (names : Identifiers) (s : Lockout) (username : String) : Bool × Lockout :=
  let username := names.normalize username
  match s.locked username with
  | none => (false, s)
  | some lockedUntil =>
    if lockedUntil ≤ s.monotonic then
      (false, { s with locked := update s.locked username none })
    else (true, s)

-- ==== load_locked

/-- `ORDER BY username ASC, attempted_at DESC`. -/
def comesFirst (a b : Attempt) : Bool :=
  a.username < b.username || a.username = b.username && b.attemptedAt ≤ a.attemptedAt

/-- The attempts of a name among those from `scanStart` on. -/
def attempts (names : Identifiers) (rows : List Attempt) (scanStart : Int) (username : String) :
    List Int :=
  (((rows.filter fun row => scanStart ≤ row.attemptedAt).mergeSort comesFirst).filter fun row =>
    names.normalize row.username = username).map Attempt.attemptedAt

/-- The lock that `load_locked` restores for the attempts of a name. -/
def restoredLock (config : AuthConfig) (restoreNow monoNow : Int) : List Int → Option Int
  | [] => none
  | maxAt :: earlier =>
    let windowFloor := maxAt - config.window
    let cntInWindow := (maxAt :: earlier).countP fun a => windowFloor ≤ a
    if cntInWindow < config.lockoutThreshold then none
    else
      let remaining := maxAt + config.duration - restoreNow
      if 0 < remaining then some (monoNow + remaining) else none

/-- A new process: a fresh repository, and `load_locked`, whose query takes the
time `latency`. -/
def restart (config : AuthConfig) (names : Identifiers) (s : Lockout) (boot : Int) (latency : Nat) :
    Lockout :=
  let scanStart := s.clock - (config.window + config.duration)
  let restoreNow := s.clock + latency
  { s with
    clock := restoreNow
    boot := boot
    locked := fun username =>
      restoredLock config restoreNow (restoreNow - boot) (attempts names s.rows scanStart username)
    failureCalls := fun _ => .absent }

-- ==== the three writers

/-- `record_failure` up to its wait. -/
def beginFailure (names : Identifiers) (s : Lockout) (n : Nat) (username : String) : Lockout :=
  { s with
    failureCalls :=
      update s.failureCalls n (.waiting (names.normalize username) s.clock) }

/-- `record_failure` from its transaction on. A statement that raises rolls it
back. -/
def commitFailure (config : AuthConfig) (s : Lockout) (n : Nat) (ok : Bool) : Lockout :=
  match s.failureCalls n with
  | .waiting username now =>
    if ok then
      let rows := ⟨username, now⟩ :: s.rows
      let windowStart := now - config.window
      let count := rows.countP fun row => row.username = username && windowStart ≤ row.attemptedAt
      let nowLocked := config.lockoutThreshold ≤ count
      { s with
        rows := rows
        locked :=
          if nowLocked then
            update s.locked username (some (s.monotonic + config.duration))
          else s.locked
        failureCalls := update s.failureCalls n (.done nowLocked)
        history := .failure username now :: s.history }
    else { s with failureCalls := update s.failureCalls n .raised }
  | _ => s

def recordSuccess (names : Identifiers) (s : Lockout) (username : String) (ok : Bool) : Lockout :=
  if ok then
    { s with
      rows := s.rows.filter fun row => row.username ≠ names.normalize username
      locked := update s.locked (names.normalize username) none
      history := .success (names.normalize username) :: s.history }
  else s

/-- Read the clock `waited` before its turn to write. -/
def cleanupExpired (config : AuthConfig) (s : Lockout) (waited : Nat) (ok : Bool) : Lockout :=
  let retention := config.window + config.duration
  let cutoff := s.clock - waited - retention
  if ok then { s with rows := s.rows.filter fun row => cutoff ≤ row.attemptedAt } else s

-- ==== the steps

inductive Input
  | beginFailure (n : Nat) (username : String)
  | commitFailure (n : Nat) (ok : Bool)
  | recordSuccess (username : String) (ok : Bool)
  | cleanupExpired (waited : Nat) (ok : Bool)
  | isLocked (username : String)
  | restart (boot : Int) (latency : Nat)
  /-- Both clocks go on. -/
  | tick (elapsed : Nat)

def step (config : AuthConfig) (names : Identifiers) (s : Lockout) : Input → Lockout
  | .beginFailure n username =>
    match s.failureCalls n with | .absent => s.beginFailure names n username | _ => s
  | .commitFailure n ok => s.commitFailure config n ok
  | .recordSuccess username ok => s.recordSuccess names username ok
  | .cleanupExpired waited ok => s.cleanupExpired config waited ok
  | .isLocked username => (s.isLocked names username).2
  | .restart boot latency => s.restart config names boot latency
  | .tick elapsed => { s with clock := s.clock + elapsed }

end Lockout

end Synthorg.Auth
