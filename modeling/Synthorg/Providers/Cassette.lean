/-
The provider cassette: a session that records the calls of a run and one that
replays them.

A call is keyed by the hash of its request, the lane of its task (the ordinal the task is given
when the session first asks for it) and its number within these two. A recording session asks for
the lane and the number when the outcome is there, a replaying one when the call is made.
-/
import Mathlib.Data.Prod.Lex
import Synthorg.Lib.Run

namespace Synthorg.Cassettes

inductive CassetteMethod
  | complete
  | stream
  | capabilities
  deriving DecidableEq

/-- A request; `key` is what it is hashed by besides its method. -/
structure Request (α : Type) where
  method : CassetteMethod
  key : α
  deriving DecidableEq

inductive CassetteOutcome (ρ χ κ : Type)
  | response (response : ρ)
  | error (errorClass : String)
  | stream (chunks : List χ) (error : Option String)
  | capabilities (capabilities : κ)
  deriving DecidableEq

namespace CassetteOutcome

variable {ρ χ κ : Type}

/-- What a call of a method can come to. -/
def fits : CassetteOutcome ρ χ κ → CassetteMethod → Bool
  | .response _, .complete | .error _, .complete | .stream _ _, .stream
  | .capabilities _, .capabilities | .error _, .capabilities => true
  | _, _ => false

def errorClass : CassetteOutcome ρ χ κ → Option String
  | .error name => some name
  | .stream _ cause => cause
  | _ => none

end CassetteOutcome

structure CassetteInteraction (η ρ χ κ : Type) where
  method : CassetteMethod
  requestHash : η
  lane : Nat
  seq : Nat
  outcome : CassetteOutcome ρ χ κ

/-- `_lane_by_task` and `_next_lane`: the tasks in the order of their lanes. -/
abbrev Lanes := List Nat

def laneForCurrentTask (lanes : Lanes) (task : Nat) : Nat × Lanes :=
  if task ∈ lanes then (lanes.idxOf task, lanes) else (lanes.length, lanes ++ [task])

def replayableProviderErrors : List String :=
  ["AuthenticationError", "RateLimitError", "ModelNotFoundError", "InvalidRequestError",
    "ContentFilterError", "ProviderTimeoutError", "ProviderConnectionError",
    "ProviderInternalError", "ProviderError"]

def providerErrorFor (errorClass : String) : String :=
  if errorClass ∈ replayableProviderErrors then errorClass else "ProviderError"

def bucket {η ρ χ κ : Type} [DecidableEq η] (interactions : List (CassetteInteraction η ρ χ κ))
    (hash : η) (lane : Nat) : List (CassetteInteraction η ρ χ κ) :=
  interactions.filter fun i => i.requestHash = hash && i.lane = lane

def setCount {η : Type} [DecidableEq η] (count : η → Nat → Nat) (hash : η) (lane n : Nat) :
    η → Nat → Nat :=
  fun hash' lane' => if hash' = hash ∧ lane' = lane then n else count hash' lane'

-- ==== the recording

/-- With the inner driver, read as a stream, in `record_interaction` before and in its write, or
over. A closed stream was closed before its end. -/
inductive Stage (ρ χ κ : Type)
  | inner
  | reading (chunks : List χ)
  | locking (outcome : CassetteOutcome ρ χ κ)
  | writing (outcome : CassetteOutcome ρ χ κ)
  | returned (outcome : CassetteOutcome ρ χ κ)
  | closed (chunks : List χ)

structure Call (α ρ χ κ : Type) where
  request : Request α
  stage : Stage ρ χ κ

structure Recorder (α η ρ χ κ : Type) where
  lanes : Lanes
  recorded : List (CassetteInteraction η ρ χ κ)
  seqCounter : η → Nat → Nat
  /-- Who holds `_persist_lock`, and its snapshot. -/
  writer : Option (Nat × Nat × List (CassetteInteraction η ρ χ κ))
  file : List (CassetteInteraction η ρ χ κ)
  calls : Nat → List (Call α ρ χ κ)
  firsts : List Nat

namespace Recorder

variable {α η ρ χ κ : Type} [DecidableEq η] (requestHash : Request α → η)

def new : Recorder α η ρ χ κ := ⟨[], [], fun _ _ => 0, none, [], fun _ => [], []⟩

def setCall (s : Recorder α η ρ χ κ) (t i : Nat) (c : Call α ρ χ κ) (stage : Stage ρ χ κ) :
    Recorder α η ρ χ κ :=
  { s with calls := fun t' => if t' = t then (s.calls t).set i ⟨c.request, stage⟩ else s.calls t' }

def call (s : Recorder α η ρ χ κ) (t : Nat) (request : Request α) : Recorder α η ρ χ κ :=
  let stage := if request.method = .stream then .reading [] else .inner
  { s with
    calls := fun t' => if t' = t then s.calls t ++ [⟨request, stage⟩] else s.calls t'
    firsts := if t ∈ s.firsts then s.firsts else s.firsts ++ [t] }

def recordInteraction (s : Recorder α η ρ χ κ) (t i : Nat) (c : Call α ρ χ κ)
    (outcome : CassetteOutcome ρ χ κ) : Recorder α η ρ χ κ :=
  let hash := requestHash c.request
  let lane := (laneForCurrentTask s.lanes t).1
  let seq := s.seqCounter hash lane
  { s.setCall t i c (.locking outcome) with
    lanes := (laneForCurrentTask s.lanes t).2
    seqCounter := setCount s.seqCounter hash lane (seq + 1)
    recorded := s.recorded ++ [⟨c.request.method, hash, lane, seq, outcome⟩] }

inductive Input (α ρ χ κ : Type)
  | call (t : Nat) (request : Request α)
  /-- The inner driver answers or fails. -/
  | answers (t i : Nat) (outcome : CassetteOutcome ρ χ κ)
  /-- A read of a stream: a chunk, or its end. -/
  | chunk (t i : Nat) (chunk : χ)
  | ends (t i : Nat) (error : Option String)
  | close (t i : Nat)
  /-- The lock is taken, and the write is done. -/
  | snapshot (t i : Nat)
  | written (t i : Nat)

/-- How a call is recorded: the outcome that a step of it has for
`record_interaction`. -/
def outcomeOf (c : Call α ρ χ κ) : Input α ρ χ κ → Option (CassetteOutcome ρ χ κ)
  | .answers _ _ outcome =>
    match c.stage with
    | .inner => if outcome.fits c.request.method then some outcome else none
    | _ => none
  | .ends _ _ error =>
    match c.stage with
    | .reading chunks => some (.stream chunks error)
    | _ => none
  | _ => none

def goOn (s : Recorder α η ρ χ κ) (t i : Nat) (c : Call α ρ χ κ) (input : Input α ρ χ κ) :
    Recorder α η ρ χ κ :=
  match outcomeOf c input with
  | some outcome => s.recordInteraction requestHash t i c outcome
  | none =>
    match c.stage, input with
    | .reading chunks, .chunk _ _ chunk => s.setCall t i c (.reading (chunks ++ [chunk]))
    | .reading chunks, .close _ _ => s.setCall t i c (.closed chunks)
    | .locking outcome, .snapshot _ _ =>
      if s.writer.isSome then s
      else { s.setCall t i c (.writing outcome) with writer := some (t, i, s.recorded) }
    | .writing outcome, .written _ _ =>
      match s.writer with
      | some (t', i', snapshot) =>
        if t' = t ∧ i' = i then
          { s.setCall t i c (.returned outcome) with writer := none, file := snapshot }
        else s
      | none => s
    | _, _ => s

def Input.place : Input α ρ χ κ → Option (Nat × Nat)
  | .call _ _ => none
  | .answers t i _ | .chunk t i _ | .ends t i _ | .close t i | .snapshot t i | .written t i =>
    some (t, i)

def step (s : Recorder α η ρ χ κ) (input : Input α ρ χ κ) : Recorder α η ρ χ κ :=
  match input with
  | .call t request => s.call t request
  | .answers t i _ | .chunk t i _ | .ends t i _ | .close t i | .snapshot t i | .written t i =>
    match (s.calls t)[i]? with
    | some c => s.goOn requestHash t i c input
    | none => s

end Recorder

-- ==== the replay

/-- A stream is read chunk by chunk, and `finished` once its end was read. -/
inductive Received (ρ χ κ : Type)
  | answered (outcome : CassetteOutcome ρ χ κ)
  | streaming (chunks : List χ) (error : Option String) (read : Nat) (finished : Bool)
  | missed
  | exhausted
  | malformed
  deriving DecidableEq

structure Replayed (α ρ χ κ : Type) where
  request : Request α
  received : Received ρ χ κ

structure Player (α η ρ χ κ : Type) where
  lanes : Lanes
  replay : List (CassetteInteraction η ρ χ κ)
  cursor : η → Nat → Nat
  calls : Nat → List (Replayed α ρ χ κ)
  firsts : List Nat

namespace Player

variable {α η ρ χ κ : Type} [LinearOrder η] (requestHash : Request α → η)

def sortKey (i : CassetteInteraction η ρ χ κ) : η ×ₗ Nat ×ₗ Nat :=
  toLex (i.requestHash, toLex (i.lane, i.seq))

def load (file : List (CassetteInteraction η ρ χ κ)) : Player α η ρ χ κ :=
  ⟨[], file.mergeSort fun i j => sortKey i ≤ sortKey j, fun _ _ => 0, fun _ => [], []⟩

/-- `_replay_response`, `_replay_stream_outcome` and their like. -/
def receive : CassetteMethod → CassetteOutcome ρ χ κ → Received ρ χ κ
  | .complete, .response response => .answered (.response response)
  | .capabilities, .capabilities capabilities => .answered (.capabilities capabilities)
  | .stream, .stream chunks error => .streaming chunks (error.map providerErrorFor) 0 false
  | _, .error errorClass => .answered (.error (providerErrorFor errorClass))
  | _, _ => .malformed

/-- `take`, and what the call makes of it. -/
def call (s : Player α η ρ χ κ) (t : Nat) (request : Request α) : Player α η ρ χ κ :=
  let hash := requestHash request
  let lane := (laneForCurrentTask s.lanes t).1
  let index := s.cursor hash lane
  let s' := { s with
    lanes := (laneForCurrentTask s.lanes t).2
    firsts := if t ∈ s.firsts then s.firsts else s.firsts ++ [t] }
  let answer (received : Received ρ χ κ) : Nat → List (Replayed α ρ χ κ) :=
    fun t' => if t' = t then s.calls t ++ [⟨request, received⟩] else s.calls t'
  if bucket s.replay hash lane = [] then { s' with calls := answer .missed }
  else
    match (bucket s.replay hash lane)[index]? with
    | none => { s' with calls := answer .exhausted }
    | some interaction =>
      { s' with
        calls := answer (receive request.method interaction.outcome)
        cursor := setCount s.cursor hash lane (index + 1) }

def readOn : Received ρ χ κ → Received ρ χ κ
  | .streaming chunks error read false =>
    if read < chunks.length then .streaming chunks error (read + 1) false
    else .streaming chunks error read true
  | received => received

def read (s : Player α η ρ χ κ) (t i : Nat) : Player α η ρ χ κ :=
  match (s.calls t)[i]? with
  | some c =>
    { s with
      calls := fun t' =>
        if t' = t then (s.calls t).set i ⟨c.request, readOn c.received⟩ else s.calls t' }
  | none => s

inductive Input (α : Type)
  | call (t : Nat) (request : Request α)
  | read (t i : Nat)

def step (s : Player α η ρ χ κ) : Input α → Player α η ρ χ κ
  | .call t request => s.call requestHash t request
  | .read t i => s.read t i

end Player

end Synthorg.Cassettes
