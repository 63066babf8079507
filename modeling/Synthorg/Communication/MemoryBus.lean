/-
The in-memory message bus (communication/bus/memory.py, channel.py).

Every operation but `receive` runs to its end without giving up the loop: `_lock` is only held
across stretches with no await in them. A call of `receive` waits on three things at once, the
`get` task on its queue, the shutdown event of its generation and its own unsubscribe future, with
a timeout perhaps. A completed `get` task is past being cancelled; `wait` may return once one of
the three is done or the time is up.

`published`, `owned` and `took` are ghosts: what was published so far and
to whom, the queues made for each pair, and what each call took off one.
-/
import Mathlib.Data.List.Dedup
import Mathlib.Data.List.Sort
import Synthorg.Lib.Fifo
import Synthorg.Lib.Run

namespace Synthorg.Communication

open Lib
open Function (update)

-- ==== the messages

inductive ChannelType where
  | topic
  | direct
  | broadcast
  deriving DecidableEq

/-- But for its name. -/
structure Channel where
  type : ChannelType
  subscribers : List String

structure Message (Body : Type) where
  channel : String
  sender : String
  recipient : Option String
  body : Body

/-- `DeliveryEnvelope`, with the number of its publication. -/
structure Envelope (Body : Type) where
  number : Nat
  channelName : String
  message : Message Body

/-- What `MessageBusConfig` and the enforcer give the bus. -/
structure Config where
  channels : List String
  maxSubscriberQueueSize : Nat
  admitAgent : Option (Nat → Bool)

-- ==== the state

abbrev QueueId := Nat

/-- A call of `receive`. -/
abbrev CallId := Nat

abbrev Pair := String × String

variable (Body : Type)

/-- Where a call of `receive` stands. -/
inductive Stage where
  /-- Not made yet. -/
  | idle
  /-- In `asyncio.wait`: its shutdown event, its timeout, its future, and what its `get` task
  took. -/
  | waiting (pair : Pair) (queue : QueueId) (generation : Nat) (timeout : Bool)
      (unsubscribed : Bool) (got : Option (Envelope Body))
  /-- Back from it, seeing its helper tasks off. -/
  | leaving (pair : Pair) (result : Option (Envelope Body))
  | returned (result : Option (Envelope Body))
  | raised

structure Publication where
  envelope : Envelope Body
  targets : List String

structure State where
  running : Bool
  /-- `_shutdown_event`, by when it was made. -/
  generation : Nat
  shutdownSet : Nat → Bool
  channels : String → Option Channel
  queues : Pair → Option QueueId
  fifos : QueueId → Fifo (Envelope Body)
  queuesMade : Nat
  knownAgents : List String
  waiters : Pair → List CallId
  calls : CallId → Stage Body
  published : List (Publication Body)
  owned : Pair → List QueueId
  took : CallId → Option (Envelope Body)

variable {Body : Type}

/-- A bus that was never started. -/
def fresh : State Body where
  running := false
  generation := 0
  shutdownSet _ := false
  channels _ := none
  queues _ := none
  fifos _ := Fifo.empty
  queuesMade := 0
  knownAgents := []
  waiters _ := []
  calls _ := .idle
  published := []
  owned _ := []
  took _ := none

-- ==== the queues

def ensureQueue (s : State Body) (pair : Pair) : State Body × QueueId :=
  match s.queues pair with
  | some queue => (s, queue)
  | none =>
    ({ s with
      queues := update s.queues pair (some s.queuesMade)
      fifos := update s.fifos s.queuesMade Fifo.empty
      queuesMade := s.queuesMade + 1
      owned := update s.owned pair (s.owned pair ++ [s.queuesMade]) }, s.queuesMade)

def enqueueOrDrop (config : Config) (s : State Body) (envelope : Envelope Body) (pair : Pair) :
    State Body :=
  let (s', queue) := ensureQueue s pair
  { s' with
    fifos := update s'.fifos queue
      ((s'.fifos queue).offer config.maxSubscriberQueueSize envelope) }

def deliver (config : Config) (s : State Body) (channelName : String) (message : Message Body)
    (targets : List String) : State Body :=
  let envelope : Envelope Body := ⟨s.published.length, channelName, message⟩
  let logged : State Body := { s with published := s.published ++ [⟨envelope, targets⟩] }
  targets.foldl (fun s subscriber => enqueueOrDrop config s envelope (channelName, subscriber))
    logged

-- ==== the operations

def start (config : Config) (s : State Body) : State Body :=
  if s.running then s
  else { s with
    running := true
    generation := s.generation + 1
    shutdownSet := update s.shutdownSet (s.generation + 1) false
    channels := fun name => if name ∈ config.channels then some ⟨.topic, []⟩ else none
    queues := fun _ => none
    knownAgents := []
    waiters := fun _ => [] }

def stop (s : State Body) : State Body :=
  if s.running then { s with
    running := false
    shutdownSet := update s.shutdownSet s.generation true }
  else s

def createChannel (s : State Body) (name : String) (channel : Channel) : State Body :=
  if s.running && (s.channels name).isNone then
    { s with channels := update s.channels name (some channel) }
  else s

/-- The loop of `_reject_new_agents_if_blocked`: whether all of them are
admitted. -/
def admitAll (admits : Nat → Bool) (known : List String) : List String → Nat → List String → Bool
  | [], _, _ => true
  | agent :: rest, projected, staged =>
    if agent ∈ known ∨ agent ∈ staged then admitAll admits known rest projected staged
    else admits projected && admitAll admits known rest (projected + 1) (agent :: staged)

/-- `_reject_new_agents_if_blocked` does not raise. -/
def admitted (config : Config) (s : State Body) (agents : List String) : Bool :=
  match config.admitAgent with
  | none => true
  | some admits => admitAll admits s.knownAgents agents s.knownAgents.length []

/-- `_known_agents.add`. -/
def know (s : State Body) (agent : String) : State Body :=
  if agent ∈ s.knownAgents then s
  else { s with knownAgents := s.knownAgents ++ [agent] }

def publish (config : Config) (s : State Body) (message : Message Body) : State Body :=
  if s.running then
    match s.channels message.channel with
    | none => s
    | some channel =>
      deliver config s message.channel message (match channel.type with
        | .broadcast => s.knownAgents
        | _ => channel.subscribers.dedup)
  else s

def directPair (sender recipient : String) : String × String :=
  if sender ≤ recipient then (sender, recipient) else (recipient, sender)

def directChannel (sender recipient : String) : String :=
  "@" ++ (directPair sender recipient).1 ++ ":" ++ (directPair sender recipient).2

def ensureDirectChannel (s : State Body) (channelName : String) (pair : List String) : State Body :=
  let known := pair.foldl (fun s agent => (ensureQueue (know s agent) (channelName, agent)).1) s
  match s.channels channelName with
  | none => { known with
      channels := update s.channels channelName (some ⟨.direct, pair⟩) }
  | some channel =>
    if pair.all (· ∈ channel.subscribers) then known
    else { known with
      channels := update s.channels channelName (some { channel with
        subscribers := ((channel.subscribers ++ pair).dedup).insertionSort (· ≤ ·) }) }

/-- A new channel cannot be of an agent and itself. -/
def sendDirect (config : Config) (s : State Body) (message : Message Body)
    (recipient : String) : State Body :=
  let sender := message.sender
  let (first, second) := directPair sender recipient
  let channelName := directChannel sender recipient
  if message.recipient ≠ some recipient then s
  else if ':' ∈ sender.toList ∨ ':' ∈ recipient.toList then s
  else if !s.running then s
  else if !admitted config s [first, second] then s
  else if (s.channels channelName).isNone ∧ first = second then s
  else deliver config (ensureDirectChannel s channelName [first, second]) channelName message
    [first, second]

def subscribe (config : Config) (s : State Body) (channelName subscriber : String) : State Body :=
  if s.running then
    match s.channels channelName with
    | none => s
    | some channel =>
      if !admitted config s [subscriber] then s
      else if subscriber ∈ channel.subscribers then know s subscriber
      else
        let subscribed := { channel with subscribers := channel.subscribers ++ [subscriber] }
        (ensureQueue { know s subscriber with
          channels := update s.channels channelName (some subscribed) }
          (channelName, subscriber)).1
  else s

/-- `set_result` on the futures of some calls. -/
def resolve (calls : CallId → Stage Body) (ids : List CallId) : CallId → Stage Body := fun id =>
  match calls id with
  | .waiting pair queue generation timeout unsubscribed got =>
    .waiting pair queue generation timeout (unsubscribed || id ∈ ids) got
  | stage => stage

def unsubscribe (s : State Body) (channelName subscriber : String) : State Body :=
  if s.running then
    match s.channels channelName with
    | none => s
    | some channel =>
      if subscriber ∈ channel.subscribers then
        let pair : Pair := (channelName, subscriber)
        let left := { channel with subscribers := channel.subscribers.filter (· ≠ subscriber) }
        { s with
          channels := update s.channels channelName (some left)
          queues := update s.queues pair none
          waiters := update s.waiters pair []
          calls := resolve s.calls (s.waiters pair) }
      else s
  else s

-- ==== `receive`

def setCall (s : State Body) (id : CallId) (stage : Stage Body) : State Body :=
  { s with calls := update s.calls id stage }

def receive (s : State Body) (id : CallId) (channelName subscriber : String) (timeout : Bool) :
    State Body :=
  if s.running then
    match s.channels channelName with
    | none => setCall s id .raised
    | some channel =>
      if channel.type ≠ .broadcast ∧ subscriber ∉ channel.subscribers then setCall s id .raised
      else
        let pair : Pair := (channelName, subscriber)
        let (s', queue) := ensureQueue s pair
        setCall { s' with waiters := update s'.waiters pair (s'.waiters pair ++ [id]) } id
          (.waiting pair queue s'.generation timeout false none)
  else setCall s id .raised

def get (s : State Body) (id : CallId) : State Body :=
  match s.calls id with
  | .waiting pair queue generation timeout unsubscribed none =>
    match (s.fifos queue).take with
    | (some envelope, rest) =>
      setCall { s with
        fifos := update s.fifos queue rest
        took := update s.took id (some envelope) } id
        (.waiting pair queue generation timeout unsubscribed (some envelope))
    | (none, _) => s
  | _ => s

/-- `asyncio.wait` returns; a `get` task that is not done is cancelled. -/
def resume (s : State Body) (id : CallId) : State Body :=
  match s.calls id with
  | .waiting pair _ generation timeout unsubscribed got =>
    if got.isSome || s.shutdownSet generation || unsubscribed || timeout then
      setCall s id (.leaving pair got)
    else s
  | _ => s

/-- The `finally` of `receive`. -/
def leaveWaiters (s : State Body) (id : CallId) (pair : Pair) : State Body :=
  { s with waiters := update s.waiters pair ((s.waiters pair).filter (· ≠ id)) }

def leave (s : State Body) (id : CallId) : State Body :=
  match s.calls id with
  | .leaving pair result => setCall (leaveWaiters s id pair) id (.returned result)
  | _ => s

/-- A cancellation: it goes through `asyncio.wait`, and is suppressed afterwards. -/
def cancel (s : State Body) (id : CallId) : State Body :=
  match s.calls id with
  | .waiting pair _ _ _ _ _ => setCall (leaveWaiters s id pair) id .raised
  | _ => s

/-- What can happen next. -/
inductive Event (Body : Type) where
  | start
  | stop
  | createChannel (name : String) (channel : Channel)
  | publish (message : Message Body)
  | sendDirect (message : Message Body) (recipient : String)
  | subscribe (channelName subscriber : String)
  | unsubscribe (channelName subscriber : String)
  | receive (id : CallId) (channelName subscriber : String) (timeout : Bool)
  | get (id : CallId)
  | resume (id : CallId)
  | leave (id : CallId)
  | cancel (id : CallId)

def step (config : Config) (s : State Body) : Event Body → State Body
  | .start => start config s
  | .stop => stop s
  | .createChannel name channel => createChannel s name channel
  | .publish message => publish config s message
  | .sendDirect message recipient => sendDirect config s message recipient
  | .subscribe channelName subscriber => subscribe config s channelName subscriber
  | .unsubscribe channelName subscriber => unsubscribe s channelName subscriber
  | .receive id channelName subscriber timeout =>
    match s.calls id with
    | .idle => receive s id channelName subscriber timeout
    | _ => s
  | .get id => get s id
  | .resume id => resume s id
  | .leave id => leave s id
  | .cancel id => cancel s id

-- ==== what is promised

def eligible (s : State Body) (pair : Pair) : List (Envelope Body) :=
  (s.published.filter fun publication =>
    publication.envelope.channelName = pair.1 ∧ pair.2 ∈ publication.targets).map
      Publication.envelope

def takenFrom (s : State Body) (pair : Pair) : List (Envelope Body) :=
  (s.owned pair).flatMap fun queue => (s.fifos queue).taken

def Dropped (s : State Body) (pair : Pair) (envelope : Envelope Body) : Prop :=
  ∃ queue ∈ s.owned pair, (envelope, false) ∈ (s.fifos queue).offered

def Discarded (s : State Body) (pair : Pair) (envelope : Envelope Body) : Prop :=
  ∃ queue ∈ s.owned pair, s.queues pair ≠ some queue ∧ envelope ∈ (s.fifos queue).items

def Queued (s : State Body) (pair : Pair) (envelope : Envelope Body) : Prop :=
  ∃ queue, s.queues pair = some queue ∧ envelope ∈ (s.fifos queue).items

/-- DELIVERY, of a state of the bus. -/
structure Delivered (s : State Body) : Prop where
  once : ∀ pair, (eligible s pair).Nodup
  inOrder : ∀ pair, (takenFrom s pair).Sublist (eligible s pair)
  missing : ∀ pair, ∀ envelope ∈ eligible s pair, envelope ∉ takenFrom s pair ↔
    Dropped s pair envelope ∨ Discarded s pair envelope ∨ Queued s pair envelope
  byACall : ∀ pair, ∀ envelope ∈ takenFrom s pair, ∃ id, s.took id = some envelope
  returned : ∀ id envelope, s.took id = some envelope →
    (∃ pair queue generation timeout unsubscribed,
      s.calls id = .waiting pair queue generation timeout unsubscribed (some envelope)) ∨
    (∃ pair, s.calls id = .leaving pair (some envelope)) ∨ s.calls id = .returned (some envelope)

end Synthorg.Communication
