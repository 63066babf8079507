/-
`ApprovalGate` and the resume dispatch: a run parked on an approval, and what
continues it once the approval is decided.

The park (`park_context`, in the task of the run) stores the context of the run in a row, some
awaits after its approval went PENDING. A decision is written to the approval between a marker of
the outbox and `signal_resume_intent`, which ends in `dispatch_resume`. A dispatched resume
(`_resume_parked`, a task of its own) loads the row, deletes it and hands the context to the
engine. At the next startup a drain signals the decisions whose marker is still there.

One approval and its one park are followed. An await is a step of its flow with its outcome given.
-/
import Synthorg.Lib.Run

namespace Synthorg.Parking

structure Decision where
  approved : Bool
  decidedBy : String
  decisionReason : Option String
  deriving DecidableEq

inductive ResumeDecision
  | approve
  | reject
  deriving DecidableEq

inductive Interrupt
  | absent
  | pending
  | resolved (decision : ResumeDecision)
  deriving DecidableEq

/-- The row of a park; `hasInterrupt` says whether its metadata name one. -/
structure ParkedContext where
  hasInterrupt : Bool
  deriving DecidableEq

/-- Where `park_context` is; `recovering` is a run that ends in ERROR for want of a park. -/
inductive ParkStage
  | creating
  | publishing
  | saving (hasInterrupt : Bool)
  | notifying
  | compensating
  | recovering
  | parked
  | stopped
  deriving DecidableEq

/-- Where a `_resume_parked` is: at `loading` from its dispatch on, and past
`deleting` only with the row deleted by itself. -/
inductive ResumeStage
  | loading
  | deleting (parked : ParkedContext)
  | resolving
  | authorizing
  | provisioning
  | failing
  | running
  | ended
  deriving DecidableEq

structure Resume where
  decision : Decision
  stage : ResumeStage
  deriving DecidableEq

inductive CallKind
  | deciding
  | draining
  | repeated
  deriving DecidableEq

/-- The flows before the resume flow, the two reads of the resume flow, and what comes after it. -/
inductive CallStage
  | routing
  | rereading
  | probing
  | restoring
  | clearing
  | ended
  deriving DecidableEq

structure Call where
  kind : CallKind
  decision : Decision
  stage : CallStage
  deriving DecidableEq

structure World where
  /-- Whether the parked context has no `task_execution`. -/
  taskless : Bool
  /-- The decision on the approval, `none` while it is PENDING. -/
  item : Option Decision
  /-- Whether the outbox holds a `ResumeIntent` of the approval. -/
  marker : Bool
  row : Option ParkedContext
  interrupt : Interrupt
  park : ParkStage
  calls : List Call
  resumes : List Resume
  /-- The decisions the context was handed to the engine with. -/
  continued : List Decision
  failed : Bool

-- ==== the park

namespace ParkStage

def underway : ParkStage → Bool
  | .creating | .publishing | .saving _ => true
  | _ => false

/-- The row is not coming, and the run is on its way to FAILED. -/
def stopping : ParkStage → Bool
  | .compensating | .recovering => true
  | _ => false

def finished : ParkStage → Bool
  | .parked | .stopped => true
  | _ => false

end ParkStage

namespace World

def start (taskless : Bool) : World :=
  ⟨taskless, none, false, none, .absent, .creating, [], [], [], false⟩

/-- `park_context` goes on, best effort but for the save. -/
def goOnPark (s : World) (ok : Bool) : World :=
  match s.park with
  | .creating =>
    if ok then { s with interrupt := .pending, park := .publishing }
    else { s with park := .saving false }
  | .publishing => { s with park := .saving true }
  | .saving hasInterrupt =>
    if ok then { s with row := some ⟨hasInterrupt⟩, park := .notifying }
    else { s with park := if hasInterrupt then .compensating else .recovering }
  | .notifying => { s with park := .parked }
  | .compensating =>
    { s with
      interrupt := if ok then .resolved .reject else s.interrupt
      park := .recovering }
  | .recovering => { s with failed := s.failed || (ok && !s.taskless), park := .stopped }
  | .parked | .stopped => s

/-- `_require_parked_context_repo` refuses the park. -/
def refusePark (s : World) : World :=
  if s.park = .creating then { s with park := .recovering } else s

end World

-- ==== the resumes

structure ResumeEffect where
  stage : ResumeStage
  deletes : Bool := false
  resolves : Bool := false
  continues : Bool := false
  fails : Bool := false

namespace ResumeStage

/-- `resume_context`, then `_resume_parked`: only who deleted the row goes on. -/
def goOn (taskless : Bool) (row : Option ParkedContext) : ResumeStage → Bool → ResumeEffect
  | .loading, ok =>
    match row with
    | some parked => { stage := if ok then .deleting parked else .ended }
    | none => { stage := .ended }
  | .deleting parked, ok =>
    if ok && row.isSome then
      { stage := if parked.hasInterrupt then .resolving else .authorizing, deletes := true }
    else { stage := .ended }
  | .resolving, ok => { stage := .authorizing, resolves := ok }
  | .authorizing, ok =>
    -- outside the `try` that drives the task to FAILED
    if ok then
      if taskless then { stage := .running, continues := true } else { stage := .provisioning }
    else { stage := .ended }
  | .provisioning, ok =>
    if ok then { stage := .running, continues := true } else { stage := .failing }
  | .failing, ok => { stage := .ended, fails := ok }
  | .running, _ | .ended, _ => { stage := .ended }

def cancel : ResumeStage → Bool → ResumeEffect
  | .deleting _, landed => { stage := .ended, deletes := landed }
  | .resolving, landed => { stage := .ended, resolves := landed }
  | .failing, landed => { stage := .ended, fails := landed }
  | _, _ => { stage := .ended }

end ResumeStage

namespace World

def enact (s : World) (j : Nat) (r : Resume) (e : ResumeEffect) : World :=
  { s with
    resumes := s.resumes.set j ⟨r.decision, e.stage⟩
    row := if e.deletes then none else s.row
    interrupt := if e.resolves then .resolved .approve else s.interrupt
    continued := if e.continues then s.continued ++ [r.decision] else s.continued
    failed := s.failed || e.fails }

def goOnResume (s : World) (j : Nat) (ok : Bool) : World :=
  match s.resumes[j]? with
  | some r => s.enact j r (r.stage.goOn s.taskless s.row ok)
  | none => s

def cancelResume (s : World) (j : Nat) (landed : Bool) : World :=
  match s.resumes[j]? with
  | some r => s.enact j r (r.stage.cancel landed)
  | none => s

end World

-- ==== the calls

/-- What `dispatch_resume` does: it spawns, raises
`AgentRuntimeNotConfiguredError`, or raises what is swallowed. -/
inductive Dispatch
  | spawned
  | misconfigured
  | swallowed
  deriving DecidableEq

inductive CallStep
  /-- The flows before the resume flow: none claims the approval, the reread
  gave up, or one of them raises. -/
  | unclaimed
  | deferred
  | ownershipRaised
  /-- The reread of the resume flow. -/
  | found (dispatch : Dispatch)
  | missing
  | unreadable
  /-- The probe of the gate; without a row the review gate is next. -/
  | probed (dispatch : Dispatch) (transitioned : Bool)
  | probeRaised
  | restored (ok : Bool)
  | cleared (ok : Bool)
  deriving DecidableEq

/-- What a step of `signal_resume_intent` comes to. -/
inductive Signal
  | goesOn (stage : CallStage)
  | dispatched
  | returned
  | raised

def Dispatch.signal : Dispatch → Signal
  | .spawned => .dispatched
  | .misconfigured => .raised
  | .swallowed => .returned

namespace CallStage

def signalling : CallStage → Bool
  | .routing | .rereading | .probing | .restoring => true
  | _ => false

/-- `signal_resume_intent`, ending in `try_mid_execution_resume`. -/
def signal (row : Option ParkedContext) : CallStage → CallStep → Option Signal
  | .routing, .unclaimed => some (.goesOn .rereading)
  | .routing, .deferred => some .returned
  | .routing, .ownershipRaised => some .raised
  | .rereading, .found dispatch => some dispatch.signal
  | .rereading, .missing => some (.goesOn .probing)
  | .rereading, .unreadable => some .raised
  | .probing, .probed dispatch transitioned =>
    some (if row.isSome then dispatch.signal else if transitioned then .returned else .raised)
  -- a parked context may still exist: handled, and not dispatched
  | .probing, .probeRaised => some .returned
  | _, _ => none

end CallStage

namespace CallKind

def returned : CallKind → CallStage
  | .deciding | .draining => .clearing
  | .repeated => .ended

def raised : CallKind → CallStage
  | .deciding => .restoring
  | .draining | .repeated => .ended

end CallKind

namespace World

def setCall (s : World) (k : Nat) (c : Call) (stage : CallStage) : World :=
  { s with calls := s.calls.set k { c with stage := stage } }

def goOnCall (s : World) (k : Nat) (o : CallStep) : World :=
  match s.calls[k]? with
  | none => s
  | some c =>
    match c.stage.signal s.row o with
    | some (.goesOn stage) => s.setCall k c stage
    | some .dispatched =>
      { s.setCall k c c.kind.returned with resumes := s.resumes ++ [⟨c.decision, .loading⟩] }
    | some .returned => s.setCall k c c.kind.returned
    | some .raised => s.setCall k c c.kind.raised
    | none =>
      match c.stage, o with
      | .restoring, .restored ok =>
        if ok then { s.setCall k c .clearing with item := none } else s.setCall k c .ended
      | .clearing, .cleared ok =>
        { s.setCall k c .ended with marker := if ok then false else s.marker }
      | _, _ => s

/-- A decision is accepted: the marker is recorded, best effort, and `save_if_pending` finds the
approval PENDING. -/
def decide (s : World) (decision : Decision) (recorded : Bool) : World :=
  if s.item = none ∧ s.calls.all (fun c => c.kind ≠ .draining || c.stage = .ended) then
    { s with
      item := some decision
      marker := s.marker || recorded
      calls := s.calls ++ [⟨.deciding, decision, .routing⟩] }
  else s

/-- A decision that was dispatched is dispatched again. -/
def redispatch (s : World) : World :=
  match s.item with
  | some decision =>
    if s.resumes = [] then s else { s with calls := s.calls ++ [⟨.repeated, decision, .routing⟩] }
  | none => s

def Quiet (s : World) : Prop :=
  s.park.finished = true ∧ (∀ c ∈ s.calls, c.stage = .ended) ∧ ∀ r ∈ s.resumes, r.stage = .ended

instance (s : World) : Decidable s.Quiet :=
  inferInstanceAs (Decidable (_ ∧ _ ∧ _))

/-- `ResumeIntentDrain.drain`, at a startup: the marker of a PENDING approval is discarded. -/
def startup (s : World) (ok : Bool) : World :=
  if s.Quiet ∧ s.marker ∧ ok then
    match s.item with
    | some decision => { s with calls := s.calls ++ [⟨.draining, decision, .routing⟩] }
    | none => { s with marker := false }
  else s

end World

-- ==== the steps

inductive Input
  | park (ok : Bool)
  | refusePark
  | decide (decision : Decision) (recorded : Bool)
  | redispatch
  | startup (ok : Bool)
  | call (k : Nat) (o : CallStep)
  | resume (j : Nat) (ok : Bool)
  | cancel (j : Nat) (landed : Bool)

namespace World

def step (s : World) : Input → World
  | .park ok => s.goOnPark ok
  | .refusePark => s.refusePark
  | .decide decision recorded => s.decide decision recorded
  | .redispatch => s.redispatch
  | .startup ok => s.startup ok
  | .call k o => s.goOnCall k o
  | .resume j ok => s.goOnResume j ok
  | .cancel j landed => s.cancelResume j landed

end World

end Synthorg.Parking
