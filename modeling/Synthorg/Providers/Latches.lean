/-
The health tracker's records, and the durable copy of its latching failures.

A call of `record` appends under the lock and then, if the outcome latches, awaits its durable
write; the writes that are awaited may be done in any order. A restart begins with an empty
tracker and feeds it the rows page by page; one delete releases those the window has passed.

The store compares them as texts.
-/
import Synthorg.Lib.IsoText
import Mathlib.Data.List.MinMax

namespace Synthorg.Providers.Latches

open Lib

inductive RecordSource
  | realCall
  | probe
  deriving DecidableEq

inductive ProviderOutcomeClass
  | success
  | rateLimit
  | quotaExceeded
  | paymentRequired
  | timeout
  | connection
  | internal
  | overloaded
  | invalidRequest
  | auth
  | contentFilter
  | notFound
  | other
  deriving DecidableEq

/-- `LATCHING_OUTCOMES`. -/
def ProviderOutcomeClass.latches : ProviderOutcomeClass → Bool
  | .paymentRequired => true
  | _ => false

structure ProviderHealthRecord where
  providerName : String
  model : Option String
  timestamp : Int
  success : Bool
  outcomeClass : ProviderOutcomeClass
  errorMessage : Option String
  source : RecordSource
  consistent : (success = true ↔ errorMessage = none) ∧
    (success = true ↔ outcomeClass = .success)

structure LatchedFailure where
  providerName : String
  model : String
  outcomeClass : ProviderOutcomeClass
  occurredAt : Int
  errorMessage : String
  outcome_latches : outcomeClass.latches = true
  deriving DecidableEq

namespace LatchedFailure

def fromRecord (record : ProviderHealthRecord) : Option LatchedFailure :=
  match record.model, record.errorMessage with
  | some model, some errorMessage =>
    if h : record.source = .realCall ∧ record.outcomeClass.latches = true then
      some ⟨record.providerName, model, record.outcomeClass, record.timestamp, errorMessage, h.2⟩
    else none
  | _, _ => none

def toRecord (latch : LatchedFailure) : ProviderHealthRecord where
  providerName := latch.providerName
  model := some latch.model
  timestamp := latch.occurredAt
  success := false
  outcomeClass := latch.outcomeClass
  errorMessage := some latch.errorMessage
  source := .realCall
  consistent := by
    refine ⟨by simp, ?_⟩
    have hl := latch.outcome_latches
    cases hc : latch.outcomeClass <;> simp_all [ProviderOutcomeClass.latches]

def pair (latch : LatchedFailure) : String × String := (latch.providerName, latch.model)

end LatchedFailure

-- ==== the store

def pairBefore (a b : LatchedFailure) : Bool :=
  a.providerName < b.providerName || a.providerName == b.providerName && a.model < b.model

/-- `_UPSERT_SQL`: a row is replaced unless the new one is older. -/
def upsert (latch : LatchedFailure) : List LatchedFailure → List LatchedFailure
  | [] => [latch]
  | row :: rest =>
    if row.pair = latch.pair then
      if IsoText.before latch.occurredAt row.occurredAt then row :: rest else latch :: rest
    else if pairBefore latch row then latch :: row :: rest
    else row :: upsert latch rest

/-- `_PURGE_SQL`. -/
def purgeBefore (threshold : Int) (rows : List LatchedFailure) : List LatchedFailure :=
  rows.filter fun row => !IsoText.before row.occurredAt threshold

def healthWindow : Int := 24 * 3600 * 1000000

/-- What the latches need of `ServiceabilityThresholds`. -/
structure ServiceabilityThresholds where
  latchLookback : Int
  bounds : 0 ≤ latchLookback ∧ latchLookback ≤ healthWindow

-- ==== the tracker

inductive Restore
  | loading (offset : Nat) (stored : List LatchedFailure)
  /-- The delete of what the window has passed is awaited. -/
  | releasing (cutoff : Int) (live : List LatchedFailure)
  | feeding (live : List LatchedFailure)
  /-- The durable write of a latch that was fed is awaited. -/
  | persisting (latch : LatchedFailure) (live : List LatchedFailure)

structure Tracker where
  clock : Int
  records : List ProviderHealthRecord
  appendsSincePrune : Nat
  restoring : Option Restore
  writes : List LatchedFailure
  rows : List LatchedFailure
  recorded : List ProviderHealthRecord

namespace Tracker

def new (clock : Int) : Tracker := ⟨clock, [], 0, none, [], [], []⟩

def pruneBefore (s : Tracker) (cutoff : Int) : Tracker :=
  { s with
    appendsSincePrune := 0
    records := s.records.filter fun r => cutoff ≤ r.timestamp }

/-- `record` up to its durable write. -/
def append (threshold : Nat) (s : Tracker) (record : ProviderHealthRecord) : Tracker :=
  let s := { s with
    records := s.records ++ [record]
    appendsSincePrune := s.appendsSincePrune + 1 }
  -- `_write_prune_is_due`
  if threshold < s.records.length ∧ threshold ≤ s.appendsSincePrune then
    s.pruneBefore (record.timestamp - healthWindow)
  else s

def record (threshold : Nat) (s : Tracker) (record : ProviderHealthRecord) : Tracker :=
  let s := s.append threshold record
  match LatchedFailure.fromRecord record with
  | some latch => { s with writes := s.writes ++ [latch] }
  | none => s

def snapshot (threshold : Nat) (s : Tracker) : Tracker :=
  if threshold < s.records.length then s.pruneBefore (s.clock - healthWindow) else s

def stands (providerName model : String) (now lookback : Int) (r : ProviderHealthRecord) : Bool :=
  r.providerName == providerName && r.model == some model && r.source == .realCall &&
    r.outcomeClass.latches && now - lookback ≤ r.timestamp && r.timestamp ≤ now

def latchedFailure (records : List ProviderHealthRecord) (providerName model : String)
    (now lookback : Int) : Option (ProviderOutcomeClass × Int) :=
  -- the order of the stamps is given, not looked for: it has to compute
  (@List.argmax _ Int Int.instLinearOrder.toPreorder _ ProviderHealthRecord.timestamp
    (records.filter (stands providerName model now lookback))).map fun r =>
      (r.outcomeClass, r.timestamp)

def getServiceability (threshold : Nat) (s : Tracker) (providerName model : String)
    (thresholds : ServiceabilityThresholds) : Tracker × Option (ProviderOutcomeClass × Int) :=
  let s := s.snapshot threshold
  (s, latchedFailure s.records providerName model s.clock thresholds.latchLookback)

-- ==== the restore

def feed : List LatchedFailure → Option Restore
  | [] => none
  | live => some (.feeding live)

def loaded (s : Tracker) (stored : List LatchedFailure) : Tracker :=
  let cutoff := s.clock - healthWindow
  { s with restoring := some (.releasing cutoff (stored.filter fun l => cutoff ≤ l.occurredAt)) }

/-- A restore goes on with its await over. -/
def goOn (threshold pageSize : Nat) (s : Tracker) : Tracker :=
  match s.restoring with
  | none => s
  | some (.loading offset stored) =>
    let page := (s.rows.drop offset).take pageSize
    if page.length < pageSize then s.loaded (stored ++ page)
    else { s with restoring := some (.loading (offset + pageSize) (stored ++ page)) }
  | some (.releasing cutoff live) =>
    { s with rows := purgeBefore cutoff s.rows, restoring := feed live }
  | some (.feeding []) => { s with restoring := none }
  | some (.feeding (latch :: live)) =>
    { s.append threshold latch.toRecord with restoring := some (.persisting latch live) }
  | some (.persisting latch live) =>
    { s with rows := upsert latch s.rows, restoring := feed live }

def restart (s : Tracker) : Tracker :=
  { s with records := [], appendsSincePrune := 0, writes := [], restoring := some (.loading 0 []) }

def write (s : Tracker) (index : Nat) : Tracker :=
  match s.writes[index]? with
  | some latch => { s with writes := s.writes.eraseIdx index, rows := upsert latch s.rows }
  | none => s

inductive Input
  | record (record : ProviderHealthRecord)
  | write (index : Nat)
  /-- `prune_expired`. -/
  | prune
  | read (providerName model : String) (thresholds : ServiceabilityThresholds)
  | restart
  | goOn
  | tick (elapsed : Nat)

def step (threshold pageSize : Nat) (s : Tracker) : Input → Tracker
  | .record record =>
    if record.timestamp ≤ s.clock then
      { s.record threshold record with recorded := record :: s.recorded }
    else s
  | .write index => s.write index
  | .prune => s.pruneBefore (s.clock - healthWindow)
  | .read providerName model thresholds =>
    (s.getServiceability threshold providerName model thresholds).1
  | .restart => s.restart
  | .goOn => s.goOn threshold pageSize
  | .tick elapsed => { s with clock := s.clock + elapsed }

end Tracker

end Synthorg.Providers.Latches
