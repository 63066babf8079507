/-
Workers and the dead-letter consumer over one JetStream work queue.

It hands a message out again as long as its delivery count is below `max_deliver`, whatever the
party that has it is doing: a lapsed ack deadline and a nack look alike from there.

A worker and the consumer go through the same stages with a message: they look
its key up among the completed claims, run the executor (the worker) or the
fail handler (the consumer), write the completion mark, and acknowledge. Every
`await` is a stage, a party that raises or crashes is idle again, and the
executor, the stores, the broker and the engine answer as the run says.
-/
import Synthorg.Core.Task
import Synthorg.Lib.Run

namespace Synthorg.Workers

open Synthorg.Core Lib
open Function (update)

-- ==== the queue

structure TaskClaim where
  taskId : String
  idempotencyKey : String

inductive TaskClaimStatus
  | success
  | failed
  | retry

structure QueueConfig where
  ackWaitSeconds : Nat
  maxDeliver : Nat
  maxDeliver_pos : 0 < maxDeliver

/-- Twice the redelivery horizon. -/
def QueueConfig.dedupTtlSeconds (config : QueueConfig) : Nat :=
  config.ackWaitSeconds * config.maxDeliver * 2

inductive Subject
  | ready
  | dead
  deriving DecidableEq

structure Message where
  subject : Subject
  claim : TaskClaim
  numDelivered : Nat

/-- A message as a party got it. `numDelivered` counts that delivery. -/
structure Delivery where
  seq : Nat
  claim : TaskClaim
  numDelivered : Nat

/-- `_is_final_delivery`, and the same test in `_handle_retryable`. -/
def QueueConfig.isFinalDelivery (config : QueueConfig) (d : Delivery) : Prop :=
  config.maxDeliver ≤ d.numDelivered

instance (config : QueueConfig) (d : Delivery) : Decidable (config.isFinalDelivery d) :=
  inferInstanceAs (Decidable (_ ≤ _))

-- ==== the parties

inductive Party
  | worker (number : Nat)
  | consumer
  deriving DecidableEq

/-- The subject a party pulls from: `next_claim`, `next_dead`. -/
def Party.subject : Party → Subject
  | .worker _ => .ready
  | .consumer => .dead

inductive Seen
  | present
  | absent
  | failed
  deriving DecidableEq

/-- `looked` is between the read and the return of its await, and remembers a mark. -/
inductive Stage
  | idle
  | looking (d : Delivery)
  | looked (d : Delivery) (seen : Seen) (stood : Bool)
  | working (d : Delivery)
  | marking (d : Delivery)
  | publishing (d : Delivery)
  | acking (d : Delivery)
  | nacking (d : Delivery)

/-- A start of the executor, with what the look-up before it had come to. -/
structure Start where
  idempotencyKey : String
  seen : Seen
  stood : Bool
  deriving DecidableEq

/-- What the fail handler found or did when it settled a dead claim. -/
inductive Handling
  | moved
  | missing
  | stands (status : TaskStatus)
  deriving DecidableEq

structure Cluster where
  stream : Nat → Option Message
  nextSeq : Nat
  stages : Party → Stage
  seenClaims : String → Option Nat
  clock : Nat
  tasks : String → Option TaskStatus
  dispatched : List String
  /-- The keys whose executor returned SUCCESS or FAILED. -/
  reported : List String
  /-- How the consumer settled keys. -/
  handled : List (String × Handling)
  marks : String → Option Nat
  starts : List Start

namespace Cluster

def start (tasks : String → Option TaskStatus) : Cluster :=
  ⟨fun _ => none, 0, fun _ => .idle, fun _ => none, 0, tasks, [], [], [], fun _ => none, []⟩

def setStage (s : Cluster) (p : Party) (stage : Stage) : Cluster :=
  { s with stages := update s.stages p stage }

def append (s : Cluster) (subject : Subject) (claim : TaskClaim) : Cluster :=
  { s with
    stream := update s.stream s.nextSeq (some ⟨subject, claim, 0⟩)
    nextSeq := s.nextSeq + 1 }

def remove (s : Cluster) (seq : Nat) : Cluster :=
  { s with stream := update s.stream seq none }

def stands (s : Cluster) (key : String) : Bool :=
  (s.marks key).any fun expiresAt => s.clock ≤ expiresAt

-- ==== the steps

/-- The key of a claim is a new `uuid4`. -/
def publishClaim (s : Cluster) (claim : TaskClaim) : Cluster :=
  if claim.idempotencyKey ∈ s.dispatched then s
  else
    { s.append .ready claim with
      dispatched := claim.idempotencyKey :: s.dispatched }

/-- `next_claim` and `next_dead`. -/
def fetch (s : Cluster) (config : QueueConfig) (p : Party) (seq : Nat) : Cluster :=
  match s.stages p, s.stream seq with
  | .idle, some m =>
    if m.subject = p.subject ∧ m.numDelivered < config.maxDeliver then
      { s with
        stream := update s.stream seq
          (some { m with numDelivered := m.numDelivered + 1 })
        stages := update s.stages p
          (.looking ⟨seq, m.claim, m.numDelivered + 1⟩) }
    else s
  | _, _ => s

/-- A retryable error is swallowed by the caller, any other one raised. -/
inductive Reply
  | answered
  | retryable
  | permanent

/-- The read in `_is_completed` and `_already_handled`. -/
def lookUp (s : Cluster) (p : Party) (reply : Reply) : Cluster :=
  match s.stages p with
  | .looking d =>
    let stood := s.stands d.claim.idempotencyKey
    match reply with
    | .answered =>
      s.setStage p
        (.looked d (if (s.seenClaims d.claim.idempotencyKey).isSome then .present else .absent)
          stood)
    | .retryable => s.setStage p (.looked d .failed stood)
    | .permanent => s.setStage p .idle
  | _ => s

/-- A completed claim is acknowledged, any other given to the executor or the fail handler. -/
def resume (s : Cluster) (p : Party) : Cluster :=
  match s.stages p with
  | .looked d .present _ => s.setStage p (.acking d)
  | .looked d seen stood =>
    match p with
    | .worker _ =>
      { s.setStage p (.working d) with
        starts := ⟨d.claim.idempotencyKey, seen, stood⟩ :: s.starts }
    | .consumer => s.setStage p (.working d)
  | _ => s

/-- The executor returns; one that raised returns RETRY. -/
def report (s : Cluster) (config : QueueConfig) (number : Nat) (status : TaskClaimStatus) :
    Cluster :=
  let p := Party.worker number
  match s.stages p with
  | .working d =>
    match status with
    | .retry =>
      if config.isFinalDelivery d then s.setStage p (.publishing d)
      else s.setStage p (.nacking d)
    | .success | .failed =>
      { s.setStage p (.marking d) with
        reported := d.claim.idempotencyKey :: s.reported }
  | _ => s

inductive Engine
  | running
  | unavailable
  | unmapped
  deriving DecidableEq

/-- `transition_task` to FAILED; an invalid transition is ALREADY_TERMINAL, whatever the status. -/
def failTask (s : Cluster) (taskId : String) : Handling :=
  match s.tasks taskId with
  | none => .missing
  | some status => if taskMachine.Allows status .failed then .moved else .stands status

/-- The fail handler returns or raises: `_handle`, `_handle_retryable`. -/
def settle (s : Cluster) (config : QueueConfig) (engine : Engine) : Cluster :=
  match s.stages .consumer with
  | .working d =>
    match engine with
    | .unmapped => s.setStage .consumer .idle
    | .unavailable =>
      if config.isFinalDelivery d then s.setStage .consumer .idle
      else s.setStage .consumer (.nacking d)
    | .running =>
      { s.setStage .consumer (.marking d) with
        tasks :=
          match s.failTask d.claim.taskId with
          | .moved => update s.tasks d.claim.taskId (some .failed)
          | _ => s.tasks
        handled := (d.claim.idempotencyKey, s.failTask d.claim.taskId) :: s.handled }
  | _ => s

/-- `mark_seen`: `INSERT … ON CONFLICT DO NOTHING`. -/
def markSeen (s : Cluster) (config : QueueConfig) (key : String) : Cluster :=
  match s.seenClaims key with
  | some _ => s
  | none =>
    { s with
      seenClaims := update s.seenClaims key (some (s.clock + config.dedupTtlSeconds))
      marks := update s.marks key (some (s.clock + config.dedupTtlSeconds)) }

/-- `_mark_completed` and `_mark_handled`. -/
def markCompleted (s : Cluster) (config : QueueConfig) (p : Party) (reply : Reply) : Cluster :=
  match s.stages p with
  | .marking d =>
    match reply with
    | .answered => (s.setStage p (.acking d)).markSeen config d.claim.idempotencyKey
    | .retryable => s.setStage p (.acking d)
    | .permanent => s.setStage p .idle
  | _ => s

inductive Published
  | stored
  | storedUnseen
  | failed

def deadLetter (s : Cluster) (number : Nat) (result : Published) : Cluster :=
  let p := Party.worker number
  match s.stages p with
  | .publishing d =>
    match result with
    | .stored => (s.setStage p (.acking d)).append .dead d.claim
    | .storedUnseen => (s.setStage p .idle).append .dead d.claim
    | .failed => s.setStage p .idle
  | _ => s

/-- `_finalize_claim`, and the consumer's `ack` and `nack`; a lost one leaves the message. -/
def finalizeClaim (s : Cluster) (p : Party) (arrives : Bool) : Cluster :=
  match s.stages p with
  | .acking d =>
    match arrives with
    | true => (s.setStage p .idle).remove d.seq
    | false => s.setStage p .idle
  | .nacking _ => s.setStage p .idle
  | _ => s

/-- The queue drops a message whose deliveries are used up. -/
def terminate (s : Cluster) (config : QueueConfig) (seq : Nat) : Cluster :=
  match s.stream seq with
  | some m => if config.maxDeliver ≤ m.numDelivered then s.remove seq else s
  | none => s

def pruneExpired (s : Cluster) : Cluster :=
  { s with
    seenClaims := fun key => (s.seenClaims key).filter fun expiresAt => s.clock ≤ expiresAt }

inductive Event
  | dispatch (claim : TaskClaim)
  | deliver (p : Party) (seq : Nat)
  | lookUp (p : Party) (reply : Reply)
  | resume (p : Party)
  | report (number : Nat) (status : TaskClaimStatus)
  | settle (engine : Engine)
  | mark (p : Party) (reply : Reply)
  | publishDead (number : Nat) (result : Published)
  | finalize (p : Party) (arrives : Bool)
  | crash (p : Party)
  | terminate (seq : Nat)
  | prune
  | tick (seconds : Nat)
  | moveTask (taskId : String) (status : Option TaskStatus)

def step (config : QueueConfig) (s : Cluster) : Event → Cluster
  | .dispatch claim => s.publishClaim claim
  | .deliver p seq => s.fetch config p seq
  | .lookUp p reply => s.lookUp p reply
  | .resume p => s.resume p
  | .report number status => s.report config number status
  | .settle engine => s.settle config engine
  | .mark p reply => s.markCompleted config p reply
  | .publishDead number result => s.deadLetter number result
  | .finalize p arrives => s.finalizeClaim p arrives
  | .crash p => s.setStage p .idle
  | .terminate seq => s.terminate config seq
  | .prune => s.pruneExpired
  | .tick seconds => { s with clock := s.clock + seconds }
  | .moveTask taskId status => { s with tasks := update s.tasks taskId status }

-- ==== what a run is judged by

def Gone (s : Cluster) (key : String) : Prop :=
  ∀ seq m, s.stream seq = some m → m.claim.idempotencyKey ≠ key

/-- The delivery a party has done nothing lasting with yet. -/
def pending : Stage → Option Delivery
  | .looking d | .working d | .publishing d => some d
  | .looked d seen _ => if seen = .present then none else some d
  | _ => none

def IsLast (config : QueueConfig) (key : String) (d : Delivery) : Prop :=
  d.claim.idempotencyKey = key ∧ config.isFinalDelivery d

/-- Its party crashes or raises, or the queue drops the message, before the claim was reported,
republished or settled. -/
def CutsShort (config : QueueConfig) (key : String) (s : Cluster) : Event → Prop
  | .crash p => ∃ d, pending (s.stages p) = some d ∧ IsLast config key d
  | .lookUp p reply => reply = .permanent ∧ ∃ d, s.stages p = .looking d ∧ IsLast config key d
  | .settle engine =>
    engine ≠ .running ∧ ∃ d, s.stages .consumer = .working d ∧ IsLast config key d
  | .publishDead number result =>
    result = .failed ∧ ∃ d, s.stages (.worker number) = .publishing d ∧ IsLast config key d
  | .terminate seq =>
    ∃ p d, pending (s.stages p) = some d ∧ d.seq = seq ∧ IsLast config key d
  | _ => False

end Cluster

end Synthorg.Workers
