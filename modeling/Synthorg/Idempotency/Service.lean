/-
The idempotency service (idempotency/service.py): any number of calls of
`run_idempotent` on one scope and key, and the sweeps of expired rows.

A call runs in pieces, cut where it awaits: a statement of the repository, the callback, a look at
the row while another call's claim is in flight. A statement may also raise, or be carried out for
a call that is cancelled before it hears of it.

A statement (sqlite/idempotency_repo.py) is a function of the row it finds.
-/
import Mathlib.Data.Prod.Basic
import Synthorg.Lib.Run
import Mathlib.Data.Option.Basic

namespace Synthorg.Idempotency

section

/-- A `claim_token`: the how-manieth text `secrets.token_hex` has drawn. -/
abbrev Token := Nat

def microseconds (seconds : Int) : Int := seconds * 1000000

-- ==== the row

/-- The columns `status`, `response_hash` and `response_body`. -/
inductive Progress where
  | inFlight
  | completed (responseHash responseBody : String)
  | failed
  deriving DecidableEq

structure Row where
  progress : Progress
  claimToken : Token
  requestFingerprint : Option String
  createdAt : Int
  expiresAt : Int
  ordered : createdAt < expiresAt

inductive IdempotencyClaim where
  | fresh (claimToken : Token)
  | inFlight (requestFingerprint : Option String)
  | completed (cachedResponse : String) (requestFingerprint : Option String)

-- ==== statements

/-- A row in flight, or none where the CHECK refuses it. -/
def leased (newToken : Token) (requestFingerprint : Option String)
    (createdAt expiresAt : Int) : Option Row :=
  if h : createdAt < expiresAt then
    some ⟨.inFlight, newToken, requestFingerprint, createdAt, expiresAt, h⟩
  else none

/-- `_update_row_to_in_flight`: `created_at` stays. -/
def updateRowToInFlight (row : Row) (newToken : Token) (requestFingerprint : Option String)
    (expiresAt : Int) : Option Row :=
  leased newToken requestFingerprint row.createdAt expiresAt

def insertInFlightRow (newToken : Token) (requestFingerprint : Option String)
    (now expiresAt : Int) : Option Row :=
  leased newToken requestFingerprint now expiresAt

def claimUnderLock (row : Option Row) (newToken : Token) (now expiresAt : Int)
    (requestFingerprint : Option String) : Option (IdempotencyClaim × Row) :=
  match row with
  | some r =>
    match decide (now < r.expiresAt), r.progress with
    | true, .completed _ responseBody =>
      some (.completed responseBody r.requestFingerprint, r)
    | true, .inFlight => some (.inFlight r.requestFingerprint, r)
    | _, _ =>
      (updateRowToInFlight r newToken requestFingerprint expiresAt).map
        fun leasedRow => (.fresh newToken, leasedRow)
  | none =>
    (insertInFlightRow newToken requestFingerprint now expiresAt).map
      fun leasedRow => (.fresh newToken, leasedRow)

def claim (row : Option Row) (ttlSeconds : Int) (now : Int) (newToken : Token)
    (requestFingerprint : Option String) : Option (IdempotencyClaim × Row) :=
  claimUnderLock row newToken now (now + microseconds ttlSeconds) requestFingerprint

/-- `complete` and `fail`: an UPDATE of the row in flight under the token, and if there was one. -/
def settle (row : Option Row) (claimToken : Token) (progress : Progress) : Option Row × Bool :=
  match row with
  | some r =>
    if r.claimToken = claimToken ∧ r.progress = .inFlight then
      (some { r with progress := progress }, true)
    else (some r, false)
  | none => (none, false)

def complete (row : Option Row) (responseBody responseHash : String) (claimToken : Token) :
    Option Row × Bool :=
  settle row claimToken (.completed responseHash responseBody)

def fail (row : Option Row) (claimToken : Token) : Option Row × Bool :=
  settle row claimToken .failed

def cleanupExpired (row : Option Row) (now : Int) : Option Row :=
  row.filter fun r => now < r.expiresAt

-- ==== what they do

variable {row : Option Row} {claimToken newToken : Token} {r : Row}
  {requestFingerprint : Option String}

theorem settle_of_not (progress : Progress)
    (h : ∀ r, row = some r → ¬ (r.claimToken = claimToken ∧ r.progress = .inFlight)) :
    settle row claimToken progress = (row, false) := by
  cases row with
  | none => rfl
  | some r => simp [settle, h r rfl]

theorem settle_of_owned (progress : Progress) (ht : r.claimToken = claimToken)
    (hp : r.progress = .inFlight) :
    settle (some r) claimToken progress = (some { r with progress := progress }, true) := by
  simp [settle, ht, hp]

theorem settle_cases (row : Option Row) (t : Token) (p : Progress) : settle row t p = (row, false) ∨
      ∃ r, row = some r ∧ r.claimToken = t ∧ r.progress = .inFlight ∧
        settle row t p = (some { r with progress := p }, true) := by
  by_cases h : ∃ r, row = some r ∧ r.claimToken = t ∧ r.progress = .inFlight
  · obtain ⟨r, rfl, ht, hp⟩ := h
    exact .inr ⟨r, rfl, ht, hp, settle_of_owned p ht hp⟩
  · refine .inl (settle_of_not p ?_)
    intro r hr hboth
    exact h ⟨r, hr, hboth⟩

theorem cleanupExpired_cases (row : Option Row) (now : Int) : cleanupExpired row now = row ∨
      (cleanupExpired row now = none ∧ ∀ r, row = some r → r.expiresAt ≤ now) := by
  cases row with
  | none => exact .inl rfl
  | some r =>
    by_cases hlive : now < r.expiresAt
    · simp [cleanupExpired, hlive]
    · simp [cleanupExpired, Int.not_lt.1 hlive]

theorem leased_eq_some {createdAt expiresAt : Int}
    (h : leased newToken requestFingerprint createdAt expiresAt = some r) :
    r.progress = .inFlight ∧ r.claimToken = newToken ∧
      r.requestFingerprint = requestFingerprint ∧ r.expiresAt = expiresAt := by
  simp only [leased] at h
  split at h
  · cases h
    simp
  · cases h

/-- The row is alive and left as it is, or there is none that counts and a lease is written. -/
theorem claim_cases {ttlSeconds now : Int} {c : IdempotencyClaim} {r' : Row}
    (h : claim row ttlSeconds now newToken requestFingerprint = some (c, r')) :
    (∃ digest body, row = some r' ∧ now < r'.expiresAt ∧ r'.progress = .completed digest body ∧
        c = .completed body r'.requestFingerprint) ∨
      (row = some r' ∧ c = .inFlight r'.requestFingerprint) ∨
      (c = .fresh newToken ∧ r'.progress = .inFlight ∧ r'.claimToken = newToken ∧
        r'.requestFingerprint = requestFingerprint ∧
        r'.expiresAt = now + microseconds ttlSeconds ∧
        ∀ r, row = some r → r.progress = .failed ∨ r.expiresAt ≤ now) := by
  simp only [claim, claimUnderLock] at h
  split at h
  · next r =>
    split at h
    · next digest body hlive hc =>
      cases h
      exact .inl ⟨digest, body, rfl, of_decide_eq_true hlive, hc, rfl⟩
    · next hlive hflight =>
      cases h
      exact .inr (.inl ⟨rfl, rfl⟩)
    · next hc hflight =>
      obtain ⟨r₁, hr₁, hpair⟩ := Option.map_eq_some_iff.1 h
      cases hpair
      obtain ⟨hp, ht, hf, he⟩ := leased_eq_some hr₁
      refine .inr (.inr ⟨rfl, hp, ht, hf, he, fun r₀ hr₀ => ?_⟩)
      cases hr₀
      by_cases hlive : now < r.expiresAt
      · cases hprogress : r.progress with
        | inFlight => exact absurd hprogress (hflight (decide_eq_true hlive))
        | completed digest body => exact absurd hprogress (hc digest body (decide_eq_true hlive))
        | failed => exact .inl rfl
      · exact .inr (Int.not_lt.1 hlive)
  · obtain ⟨r₁, hr₁, hpair⟩ := Option.map_eq_some_iff.1 h
    cases hpair
    obtain ⟨hp, ht, hf, he⟩ := leased_eq_some hr₁
    exact .inr (.inr ⟨rfl, hp, ht, hf, he, by simp⟩)

end

open Lib
open Function (update)

-- ==== the service

def inFlightPollTimeoutSeconds : Int := 30

def maxLeaderFailedRetries : Nat := 1

/-- JSON (`dumps` sorts the keys and is none on a TypeError) and SHA-256 come from outside. -/
structure IdempotencyService (Value : Type) where
  ttlSeconds : Int
  outlives : inFlightPollTimeoutSeconds < ttlSeconds
  dumps : Value → Option String
  loads : String → Value
  null : Value
  sha256 : String → String

abbrev CallId := Nat

structure IdempotencyResult (Value : Type) where
  result : Value
  fresh : Bool
  timedOut : Bool

section Stages

variable (Value : Type)

/-- Where a call stands. `retries` counts its retries after a leader failed. -/
inductive Stage where
  | claiming (retries : Nat)
  /-- In `_wait_for_in_flight`. -/
  | polling (retries : Nat) (deadline : Int)
  /-- In the callback. -/
  | running (token : Token)
  /-- In `complete`, with the body to record. -/
  | recording (token : Token) (body : String)
  /-- In `_mark_failed_safely`. -/
  | marking (token : Token)
  | returned (result : IdempotencyResult Value)
  | raised

inductive Outcome where
  | value (result : Value)
  | error
  | systemError

/-- Carried out, refused with an error, or carried out with nobody left to hear of it. -/
inductive Reply where
  | done
  | raises
  | lost
  deriving DecidableEq

inductive Event where
  | claim (id : CallId) (now monotonic : Int) (reply : Reply)
  /-- A round of the polling loop, with its two looks at the deadline. -/
  | poll (id : CallId) (before after : Int) (reply : Reply)
  | callback (id : CallId) (outcome : Outcome Value)
  | complete (id : CallId) (now : Int) (reply : Reply)
  | fail (id : CallId) (reply : Reply)
  | cancel (id : CallId)
  | cleanup (now : Int) (reply : Reply)

end Stages

variable {Value : Type}

/-- The lease a call holds. -/
def Stage.token? : Stage Value → Option Token
  | .running token => some token
  | .recording token _ => some token
  | .marking token => some token
  | _ => none

def Event.caller : Event Value → Option CallId
  | .claim id .. => some id
  | .poll id .. => some id
  | .callback id _ => some id
  | .complete id .. => some id
  | .fail id _ => some id
  | .cancel id => some id
  | .cleanup .. => none

-- ==== the history

structure Lease where
  requestFingerprint : Option String
  expiresAt : Int
  /-- What its callback returned, as the body to record. -/
  produced : Option String
  /-- When its completion was recorded. -/
  completedAt : Option Int
  /-- Some claim or sweep since has read a clock at its end or past it. -/
  lapsed : Bool
  /-- Some claim or sweep since has read a clock at its completion's TTL or past it. -/
  outlived : Bool

structure World (Value : Type) where
  row : Option Row
  calls : CallId → Stage Value
  drawn : Nat
  leases : Token → Lease

/-- An empty table. -/
def start : World Value where
  row := none
  calls _ := .claiming 0
  drawn := 0
  leases _ := ⟨none, 0, none, none, false, false⟩

def setCall (w : World Value) (id : CallId) (stage : Stage Value) : World Value :=
  { w with calls := update w.calls id stage }

def Lease.observe (ttlSeconds now : Int) (l : Lease) : Lease :=
  { l with
    lapsed := l.lapsed || l.expiresAt ≤ now
    outlived := l.outlived || l.completedAt.any (· + microseconds ttlSeconds ≤ now) }

def observe (ttlSeconds now : Int) (w : World Value) : World Value :=
  { w with leases := fun t => (w.leases t).observe ttlSeconds now }

def grant (requestFingerprint : Option String) (r : Row) (w : World Value) : World Value :=
  { w with
    row := some r
    drawn := w.drawn + 1
    leases := update w.leases w.drawn
      ⟨requestFingerprint, r.expiresAt, none, none, false, false⟩ }

def produce (token : Token) (body : String) (w : World Value) : World Value :=
  { w with
    leases := update w.leases token { w.leases token with produced := some body } }

def note (token : Token) (now : Int) (w : World Value) : World Value :=
  { w with
    leases := update w.leases token { w.leases token with completedAt := some now } }

-- ==== the calls

variable (svc : IdempotencyService Value)

/-- `json.loads(text) if text else None`. -/
def cached (text : String) : Value :=
  if text.isEmpty then svc.null else svc.loads text

/-- What `run_idempotent` makes of `_LeaderFailedSentinel`. -/
def leaderFailed (retries : Nat) : Stage Value :=
  if maxLeaderFailedRetries ≤ retries then .returned ⟨svc.null, false, true⟩
  else .claiming (retries + 1)

def mismatch (requestFingerprint existing : Option String) : Bool :=
  requestFingerprint.isSome && existing.isSome && existing != requestFingerprint

/-- `_run_idempotent_once`, once its claim has come back. -/
def react (requestFingerprint : Option String) (retries : Nat) (monotonic : Int) :
    IdempotencyClaim → Stage Value
  | .fresh claimToken => .running claimToken
  | .inFlight existing =>
    if mismatch requestFingerprint existing then .raised
    else .polling retries (monotonic + microseconds inFlightPollTimeoutSeconds)
  | .completed cachedResponse existing =>
    if mismatch requestFingerprint existing then .raised
    else .returned ⟨cached svc cachedResponse, false, false⟩

/-- A round of `_wait_for_in_flight`: the record it reads, and where it goes. -/
def look (retries : Nat) (deadline : Int) (record : Option Row) : Stage Value :=
  match record.map Row.progress with
  | none => leaderFailed svc retries
  | some (.completed _ responseBody) => .returned ⟨cached svc responseBody, false, false⟩
  | some .failed => leaderFailed svc retries
  | some .inFlight => .polling retries deadline

def stepClaim (requestFingerprint : Option String) (id : CallId) (now monotonic : Int)
    (reply : Reply) (w : World Value) : World Value :=
  match w.calls id with
  | .claiming retries =>
    if reply = .raises then setCall w id .raised
    else
      match claim w.row svc.ttlSeconds now w.drawn requestFingerprint with
      | none => setCall w id .raised
      | some (c, r) =>
        let seen := observe svc.ttlSeconds now w
        let after := match c with
          | .fresh _ => grant requestFingerprint r seen
          | _ => seen
        setCall after id
          (if reply = .lost then .raised
            else react svc requestFingerprint retries monotonic c)
  | _ => w

def stepPoll (id : CallId) (before after : Int) (reply : Reply) (w : World Value) : World Value :=
  match w.calls id with
  | .polling retries deadline =>
    if deadline ≤ before ∨ deadline ≤ after then
      setCall w id (.returned ⟨svc.null, false, true⟩)
    else if reply = .done then setCall w id (look svc retries deadline w.row)
    else setCall w id .raised
  | _ => w

def stepCallback (id : CallId) (outcome : Outcome Value) (w : World Value) : World Value :=
  match w.calls id with
  | .running token =>
    match outcome with
    | .value result =>
      match svc.dumps result with
      | some body => setCall (produce token body w) id (.recording token body)
      | none => setCall w id .raised
    | .error => setCall w id (.marking token)
    | .systemError => setCall w id .raised
  | _ => w

/-- `_record_completion`: a completion the row refuses is only logged. -/
def stepComplete (id : CallId) (now : Int) (reply : Reply) (w : World Value) : World Value :=
  match w.calls id with
  | .recording token body =>
    if reply = .raises then setCall w id .raised
    else
      let recorded := complete w.row body (svc.sha256 body) token
      let noted := if recorded.2 then note token now w else w
      setCall { noted with row := recorded.1 } id
        (if reply = .lost then .raised else .returned ⟨svc.loads body, true, false⟩)
  | _ => w

/-- `_mark_failed_safely`: whatever comes of it, the callback's error goes on. -/
def stepFail (id : CallId) (reply : Reply) (w : World Value) : World Value :=
  match w.calls id with
  | .marking token =>
    if reply = .raises then setCall w id .raised
    else setCall { w with row := (fail w.row token).1 } id .raised
  | _ => w

def stepCancel (id : CallId) (w : World Value) : World Value :=
  match w.calls id with
  | .returned _ => w
  | _ => setCall w id .raised

def stepCleanup (now : Int) (reply : Reply) (w : World Value) : World Value :=
  if reply = .raises then w
  else observe svc.ttlSeconds now { w with row := cleanupExpired w.row now }

variable (fingerprints : CallId → Option String)

def step (w : World Value) : Event Value → World Value
  | .claim id now monotonic reply =>
    stepClaim svc (fingerprints id) id now monotonic reply w
  | .poll id before after reply => stepPoll svc id before after reply w
  | .callback id outcome => stepCallback svc id outcome w
  | .complete id now reply => stepComplete svc id now reply w
  | .fail id reply => stepFail id reply w
  | .cancel id => stepCancel id w
  | .cleanup now reply => stepCleanup svc now reply w

def run (events : List (Event Value)) : World Value :=
  Run.final (step svc fingerprints) start events

end Synthorg.Idempotency
