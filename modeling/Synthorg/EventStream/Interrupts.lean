/-
`InterruptStore`: interrupts that wait for a human, and who waits for them.

# The store

Three dictionaries by interrupt id: the pending interrupts, the event each creation made, and the
resolution of one that was resolved and not picked up. No body holds the store's lock across an
await, so a body runs in one step.

# A wait

It reads the event in its first step, sleeps, and comes back in a later one, woken or expired;
between the two the id may have been emptied and created again.
-/
import Synthorg.Lib.Run

namespace Synthorg.EventStream

open Lib
open Function (update)

inductive InterruptType
  | toolApproval
  | infoRequest
  deriving DecidableEq

inductive ResumeDecision
  | approve
  | reject
  | revise
  deriving DecidableEq

structure Interrupt where
  id : String
  type : InterruptType
  deriving DecidableEq

/-- A human's response; `_validate_payload` is the field `payload`. -/
structure InterruptResolution where
  interruptId : String
  decision : Option ResumeDecision
  feedback : Option String
  response : Option String
  resolvedBy : String
  payload : decision.isSome || response.isSome
  deriving DecidableEq

def validateToolApproval (resolution : InterruptResolution) : Option String :=
  if resolution.decision.isNone then some "TOOL_APPROVAL requires decision" else none

def validateInfoRequest (resolution : InterruptResolution) : Option String :=
  if resolution.response.isNone then some "INFO_REQUEST requires response" else none

/-- `INTERRUPT_RESOLUTION_VALIDATOR_REGISTRY`. -/
def InterruptType.validate : InterruptType → InterruptResolution → Option String
  | .toolApproval => validateToolApproval
  | .infoRequest => validateInfoRequest

/-- Where a `wait_for_resolution` stands. -/
inductive WaitStage
  | absent
  /-- Asleep on the event of a creation; `expired` once its timer fired. -/
  | waiting (interruptId : String) (event : Nat) (expired : Bool)
  | returned (result : Option InterruptResolution)
  deriving DecidableEq

structure PendingInterrupt where
  interrupt : Interrupt
  number : Nat
  deriving DecidableEq

/-- A resolution in `_results`, with the number of the event it was given
to. -/
structure StoredResult where
  resolution : InterruptResolution
  number : Nat

structure InterruptStore where
  pending : String → Option PendingInterrupt
  events : String → Option Nat
  results : String → Option StoredResult
  /-- `event.is_set()`. -/
  signalled : Nat → Bool
  nextEvent : Nat
  waits : Nat → WaitStage
  /-- Every resolve that returned its interrupt, with the creation it
  resolved. -/
  accepted : List (Nat × InterruptResolution)

namespace InterruptStore

def new : InterruptStore where
  pending := fun _ => none
  events := fun _ => none
  results := fun _ => none
  signalled := fun _ => false
  nextEvent := 0
  waits := fun _ => .absent
  accepted := []

def create (s : InterruptStore) (interrupt : Interrupt) : InterruptStore :=
  if (s.pending interrupt.id).isSome || (s.events interrupt.id).isSome ||
      (s.results interrupt.id).isSome then s
  else
    { s with
      pending := update s.pending interrupt.id (some ⟨interrupt, s.nextEvent⟩)
      events := update s.events interrupt.id (some s.nextEvent)
      signalled := update s.signalled s.nextEvent false
      nextEvent := s.nextEvent + 1 }

def resolved (s : InterruptStore) (resolution : InterruptResolution) : Option PendingInterrupt :=
  match s.pending resolution.interruptId with
  | none => none
  | some found =>
    if (found.interrupt.type.validate resolution).isSome then none else some found

def resolve (s : InterruptStore) (resolution : InterruptResolution) : InterruptStore :=
  match s.resolved resolution with
  | none => s
  | some found =>
    { s with
      pending := update s.pending resolution.interruptId none
      results := update s.results resolution.interruptId
        (some ⟨resolution, found.number⟩)
      signalled :=
        match s.events resolution.interruptId with
        | some event => update s.signalled event true
        | none => s.signalled
      accepted := s.accepted ++ [(found.number, resolution)] }

def pickUp (s : InterruptStore) (wait : Nat) (interruptId : String) : InterruptStore :=
  { s with
    results := update s.results interruptId none
    events := update s.events interruptId none
    waits := update s.waits wait
      (.returned ((s.results interruptId).map StoredResult.resolution)) }

/-- The end of a wait that timed out. -/
def expireCleanup (s : InterruptStore) (wait : Nat) (interruptId : String) : InterruptStore :=
  { s with
    pending := update s.pending interruptId none
    events := update s.events interruptId none
    results := update s.results interruptId none
    waits := update s.waits wait (.returned none) }

inductive Input
  | create (interrupt : Interrupt)
  | resolve (resolution : InterruptResolution)
  /-- `wait_for_resolution`; `prompt` when its timeout is not positive. -/
  | wait (wait : Nat) (interruptId : String) (prompt : Bool)
  /-- The timer of a sleeping wait fires. -/
  | expire (wait : Nat)
  | wake (wait : Nat)

/-- The first step of `wait_for_resolution`: a set event does not make it
sleep. -/
def beginWait (s : InterruptStore) (wait : Nat) (interruptId : String) (prompt : Bool) :
    InterruptStore :=
  match s.events interruptId with
  | none => { s with waits := update s.waits wait (.returned none) }
  | some event =>
    if s.signalled event && !prompt then s.pickUp wait interruptId
    else { s with waits := update s.waits wait (.waiting interruptId event prompt) }

/-- The last step of `wait_for_resolution`. -/
def endWait (s : InterruptStore) (wait : Nat) (interruptId : String) (event : Nat)
    (expired : Bool) : InterruptStore :=
  if expired then s.expireCleanup wait interruptId
  else if s.signalled event then s.pickUp wait interruptId
  else s

def step (s : InterruptStore) : Input → InterruptStore
  | .create interrupt => s.create interrupt
  | .resolve resolution => s.resolve resolution
  | .wait wait interruptId prompt =>
    match s.waits wait with
    | .absent => s.beginWait wait interruptId prompt
    | _ => s
  | .expire wait =>
    match s.waits wait with
    | .waiting interruptId event _ =>
      { s with waits := update s.waits wait (.waiting interruptId event true) }
    | _ => s
  | .wake wait =>
    match s.waits wait with
    | .waiting interruptId event expired => s.endWait wait interruptId event expired
    | _ => s

abbrev run (inputs : List Input) : InterruptStore := Run.final step new inputs

end InterruptStore

end Synthorg.EventStream
