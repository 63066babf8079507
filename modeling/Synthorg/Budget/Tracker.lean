/-
The cost tracker (budget/tracker.py: `record`, `_reserve_claim`,
`_complete_duplicate`, `_finalise_new_record`, `_durable_increment_if_unseen`,
`_append_durable`, `hydrate_from_durable`, `prune_expired`; and the stores
behind it, persistence/sqlite/project_cost_aggregate_repo.py and
cost_record_repo.py).

A call of `record` awaits two things, the increment of the project aggregate and the append of its
row. What lies between two awaits is one step. A store commits before the call that asked for it
is resumed, with a failure or a cancellation perhaps.

`admitted`, `written`, `cutoffs` and `evicted` are ghosts.
-/
import Mathlib.Data.List.Sort
import Synthorg.Lib.Run

namespace Synthorg.Budget

open Lib

-- ==== the records

/-- What the tracker and its stores read of it. -/
structure CostRecord (Claim Project : Type) where
  claimId : Claim
  projectId : Option Project
  cost : Rat
  inputTokens : Nat
  outputTokens : Nat
  currency : String
  /-- In seconds. -/
  timestamp : Int

def costWindow : Int := 168 * 3600

/-- What a tracker is built with. -/
structure Config where
  currency : Option String
  claimLruCapacity : Nat
  pageSize : Nat

-- ==== the state

/-- A call of `record`, or of `hydrate_from_durable`. -/
abbrev CallId := Nat

variable (Claim Project : Type)

/-- Where a call of `record` stands. -/
inductive Stage where
  /-- Not made yet. -/
  | idle
  /-- At the await of `increment_if_unseen`; its answer, once the store has
  committed one. -/
  | incrementing (record : CostRecord Claim Project) (answer : Option Bool)
  /-- At the append of `_finalise_new_record`. -/
  | finalising (record : CostRecord Claim Project)
  /-- At the append of `_complete_duplicate`. -/
  | completing (record : CostRecord Claim Project)
  /-- Returned or raised. -/
  | exited

inductive Hydration where
  | idle
  /-- Paging through the rows since a time; `pages` in the order read. -/
  | reading (since : Int) (pages : List (List (CostRecord Claim Project)))
  | drained (pages : List (List (CostRecord Claim Project)))
  | exited

structure State where
  /-- The dedup rows of `increment_if_unseen`. -/
  claimSeen : List Claim
  increments : List (CostRecord Claim Project)
  costRecords : List (CostRecord Claim Project)
  records : List (CostRecord Claim Project)
  inflightClaims : List Claim
  /-- The LRU, least recently used first. -/
  seenClaims : List Claim
  calls : CallId → Stage Claim Project
  hydrations : CallId → Hydration Claim Project
  admitted : List (CostRecord Claim Project)
  written : List (CostRecord Claim Project)
  cutoffs : List Int
  evicted : List Claim

variable {Claim Project : Type}

def Stage.record? : Stage Claim Project → Option (CostRecord Claim Project)
  | .idle => none
  | .incrementing record _ => some record
  | .finalising record => some record
  | .completing record => some record
  | .exited => none

/-- Nothing stored, nothing recorded. -/
def start : State Claim Project where
  claimSeen := []
  increments := []
  costRecords := []
  records := []
  inflightClaims := []
  seenClaims := []
  calls _ := .idle
  hydrations _ := .idle
  admitted := []
  written := []
  cutoffs := []
  evicted := []

-- ==== the operations

variable [DecidableEq Claim]

namespace State

omit [DecidableEq Claim] in
def setCall (s : State Claim Project) (id : CallId) (stage : Stage Claim Project) :
    State Claim Project :=
  { s with calls := Function.update s.calls id stage }

omit [DecidableEq Claim] in
@[simp]
theorem setCall_self (s : State Claim Project) (id : CallId) (stage : Stage Claim Project) :
    (s.setCall id stage).calls id = stage :=
  Function.update_self _ _ _

omit [DecidableEq Claim] in
theorem setCall_of_ne (s : State Claim Project) {id i : CallId} (stage : Stage Claim Project)
    (h : i ≠ id) : (s.setCall id stage).calls i = s.calls i :=
  Function.update_of_ne h _ _

/-- `_inflight_claims.discard`. -/
def release (s : State Claim Project) (claim : Claim) : State Claim Project :=
  { s with inflightClaims := s.inflightClaims.filter (· ≠ claim) }

def promoteSeenClaim (config : Config) (s : State Claim Project) (claim : Claim) :
    State Claim Project :=
  let promoted := s.seenClaims.filter (· ≠ claim) ++ [claim]
  let overflow := promoted.length - config.claimLruCapacity
  { s with
    seenClaims := promoted.drop overflow
    evicted := s.evicted ++ promoted.take overflow }

omit [DecidableEq Claim] in
/-- `_records.append`. -/
def admitRecord (s : State Claim Project) (record : CostRecord Claim Project) :
    State Claim Project :=
  { s with records := s.records ++ [record], admitted := s.admitted ++ [record] }

/-- The row `INSERT ... ON CONFLICT (claim_id, timestamp) DO NOTHING` is
about is there. -/
def hasRow (s : State Claim Project) (record : CostRecord Claim Project) : Bool :=
  s.costRecords.any fun row => row.claimId = record.claimId ∧ row.timestamp = record.timestamp

/-- The insert of `append`. -/
def insertRow (s : State Claim Project) (record : CostRecord Claim Project) : State Claim Project :=
  if s.hasRow record then s
  else { s with
    costRecords := s.costRecords ++ [record]
    written := s.written ++ [record] }

def incrementIfUnseen (s : State Claim Project) (record : CostRecord Claim Project) :
    State Claim Project × Bool :=
  if record.claimId ∈ s.claimSeen then (s, false)
  else ({ s with
    claimSeen := s.claimSeen ++ [record.claimId]
    increments := s.increments ++ [record] }, true)

end State

omit [DecidableEq Claim] in
/-- With both repositories wired. -/
def hasDurableDedup (record : CostRecord Claim Project) : Bool := record.projectId.isSome

/-- The start of `record`, up to its first await. -/
def deliver (config : Config) (s : State Claim Project) (id : CallId)
    (record : CostRecord Claim Project) : State Claim Project :=
  if config.currency.any (· ≠ record.currency) then s.setCall id .exited
  else if record.claimId ∈ s.inflightClaims ∨ record.claimId ∈ s.seenClaims then
    let seen := if record.claimId ∈ s.seenClaims then
        s.seenClaims.filter (· ≠ record.claimId) ++ [record.claimId]
      else s.seenClaims
    { s with seenClaims := seen }.setCall id .exited
  else
    { s with inflightClaims := s.inflightClaims ++ [record.claimId] }.setCall id
      (if record.projectId.isSome then .incrementing record none else .finalising record)

def finalise (config : Config) (s : State Claim Project) (id : CallId)
    (record : CostRecord Claim Project) (recorded : Bool) : State Claim Project :=
  let admitted := (s.release record.claimId).admitRecord record
  let promoted := if recorded || !hasDurableDedup record then
      admitted.promoteSeenClaim config record.claimId
    else admitted
  promoted.setCall id .exited

def complete (config : Config) (s : State Claim Project) (id : CallId)
    (record : CostRecord Claim Project) (recorded : Bool) : State Claim Project :=
  let promoted := if recorded then s.promoteSeenClaim config record.claimId else s
  (promoted.release record.claimId).setCall id .exited

/-- Since a time, newest first. -/
def query (s : State Claim Project) (since : Int) (limit offset : Nat) :
    List (CostRecord Claim Project) :=
  (((s.costRecords.filter fun row => since ≤ row.timestamp).insertionSort
    fun a b => b.timestamp ≤ a.timestamp).drop offset).take limit

def absorb (config : Config) (s : State Claim Project) (record : CostRecord Claim Project) :
    State Claim Project :=
  if record.claimId ∈ s.seenClaims ∨ record.claimId ∈ s.inflightClaims then s
  else (s.admitRecord record).promoteSeenClaim config record.claimId

def oldestFirst (pages : List (List (CostRecord Claim Project))) :
    List (CostRecord Claim Project) :=
  pages.reverse.flatMap List.reverse

def absorbHydratedPages (config : Config) (s : State Claim Project)
    (pages : List (List (CostRecord Claim Project))) : State Claim Project :=
  (oldestFirst pages).foldl (absorb config) { s with written := s.written ++ oldestFirst pages }

/-- `prune_expired`, and the pruning of a snapshot. -/
def pruneBefore (s : State Claim Project) (cutoff : Int) : State Claim Project :=
  { s with
    records := s.records.filter fun record => cutoff ≤ record.timestamp
    cutoffs := s.cutoffs ++ [cutoff] }

/-- A new process over the same stores. -/
def restart (s : State Claim Project) : State Claim Project :=
  { s with
    records := []
    inflightClaims := []
    seenClaims := []
    calls := fun _ => .idle
    hydrations := fun _ => .idle
    admitted := []
    written := []
    cutoffs := [] }

-- ==== the steps

/-- What can happen next. -/
inductive Event (Claim Project : Type) where
  /-- A call of `record` begins. -/
  | deliver (id : CallId) (record : CostRecord Claim Project)
  | commit (id : CallId)
  | incremented (id : CallId)
  /-- It is resumed with a failure, and goes on as if the claim were new. -/
  | incrementFailed (id : CallId)
  /-- The store commits the row a call asked for. -/
  | write (id : CallId)
  /-- The append returns. -/
  | appended (id : CallId)
  /-- The append gave up. -/
  | dropped (id : CallId)
  | cancelled (id : CallId)
  | hydrate (id : CallId) (now : Int)
  | readPage (id : CallId)
  | hydrationFailed (id : CallId)
  | absorb (id : CallId)
  | prune (now : Int)
  | restart

def commit (s : State Claim Project) (id : CallId) : State Claim Project :=
  match s.calls id with
  | .incrementing record none =>
    let (s', wasNew) := s.incrementIfUnseen record
    s'.setCall id (.incrementing record (some wasNew))
  | _ => s

omit [DecidableEq Claim] in
def incremented (s : State Claim Project) (id : CallId) : State Claim Project :=
  match s.calls id with
  | .incrementing record (some true) => s.setCall id (.finalising record)
  | .incrementing record (some false) => s.setCall id (.completing record)
  | _ => s

omit [DecidableEq Claim] in
def incrementFailed (s : State Claim Project) (id : CallId) : State Claim Project :=
  match s.calls id with
  | .incrementing record _ => s.setCall id (.finalising record)
  | _ => s

def write (s : State Claim Project) (id : CallId) : State Claim Project :=
  match s.calls id with
  | .finalising record => s.insertRow record
  | .completing record => s.insertRow record
  | _ => s

def appended (config : Config) (s : State Claim Project) (id : CallId) : State Claim Project :=
  match s.calls id with
  | .finalising record => if s.hasRow record then finalise config s id record true else s
  | .completing record => if s.hasRow record then complete config s id record true else s
  | _ => s

def dropped (config : Config) (s : State Claim Project) (id : CallId) : State Claim Project :=
  match s.calls id with
  | .finalising record => finalise config s id record false
  | .completing record => complete config s id record false
  | _ => s

/-- Every await of `record` gives the reservation back. -/
def cancelled (s : State Claim Project) (id : CallId) : State Claim Project :=
  match (s.calls id).record? with
  | some record => (s.release record.claimId).setCall id .exited
  | none => s

omit [DecidableEq Claim] in
def setHydration (s : State Claim Project) (id : CallId) (hydration : Hydration Claim Project) :
    State Claim Project :=
  { s with hydrations := Function.update s.hydrations id hydration }

omit [DecidableEq Claim] in
/-- One turn of `paginate`: an empty or a short page is the last. -/
def readPage (config : Config) (s : State Claim Project) (id : CallId) : State Claim Project :=
  match s.hydrations id with
  | .reading since pages =>
    let page := query s since config.pageSize (pages.length * config.pageSize)
    if page.isEmpty then setHydration s id (.drained pages)
    else if page.length < config.pageSize then setHydration s id (.drained (pages ++ [page]))
    else setHydration s id (.reading since (pages ++ [page]))
  | _ => s

def step (config : Config) (s : State Claim Project) : Event Claim Project → State Claim Project
  | .deliver id record =>
    match s.calls id with
    | .idle => deliver config s id record
    | _ => s
  | .commit id => commit s id
  | .incremented id => incremented s id
  | .incrementFailed id => incrementFailed s id
  | .write id => write s id
  | .appended id => appended config s id
  | .dropped id => dropped config s id
  | .cancelled id => cancelled s id
  | .hydrate id now =>
    match s.hydrations id with
    | .idle => setHydration s id (.reading (now - costWindow) [])
    | _ => s
  | .readPage id => readPage config s id
  | .hydrationFailed id =>
    match s.hydrations id with
    | .reading _ _ => setHydration s id .exited
    | _ => s
  | .absorb id =>
    match s.hydrations id with
    | .drained pages => setHydration (absorbHydratedPages config s pages) id .exited
    | _ => s
  | .prune now => pruneBefore s (now - costWindow)
  | .restart => restart s

-- ==== what is promised

omit [DecidableEq Claim] in
def UnderWay (s : State Claim Project) (claim : Claim) : Prop :=
  ∃ id record, (s.calls id).record? = some record ∧ record.claimId = claim

omit [DecidableEq Claim] in
/-- EVERY CLAIM IS COUNTED ONCE. -/
structure CountedOnce (s : State Claim Project) : Prop where
  billedOnce : (s.increments.map CostRecord.claimId).Nodup
  heldOnce : (s.records.map CostRecord.claimId).Nodup
  held : ∀ row ∈ s.written, ¬ UnderWay s row.claimId →
    ∃ record ∈ s.admitted, record.claimId = row.claimId ∧
      (record ∈ s.records ∨ ∃ cutoff ∈ s.cutoffs, record.timestamp < cutoff)
  /-- No reservation outlives its call. -/
  released : ∀ claim ∈ s.inflightClaims, UnderWay s claim

end Synthorg.Budget
