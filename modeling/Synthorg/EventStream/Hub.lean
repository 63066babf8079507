/-
`EventStreamHub` and its `PublishLedger`: session events put on queues.

# The hub

No body holds the hub's lock across an await, so subscribe, unsubscribe, publish and a sweep of
the janitor each run in one step.

# The ledger

It keeps a history that is replayed to a client that comes back with a `Last-Event-ID`, and a
window of published ids that is dropped whenever the session has no subscriber.

# The clients

They stand around the hub (`Stream`): a client is known by what it took, and the ids accepted for
a session are kept with the times of their first publish.
-/
import Synthorg.Lib.Run
import Mathlib.Data.List.Infix

namespace Synthorg.EventStream

open Lib
open Function (update)

structure StreamEvent where
  id : String
  sessionId : String
  deriving DecidableEq

-- ==== the subscriptions

structure EventQueue where
  maxsize : Nat
  put : List StreamEvent
  taken : Nat

namespace EventQueue

/-- `asyncio.Queue(maxsize=...)`. -/
def new (maxsize : Nat) : EventQueue := ⟨maxsize, [], 0⟩

def waiting (q : EventQueue) : List StreamEvent := q.put.drop q.taken

def took (q : EventQueue) : List StreamEvent := q.put.take q.taken

def full (q : EventQueue) : Bool := q.maxsize ≤ q.waiting.length

def putNowait (q : EventQueue) (event : StreamEvent) : EventQueue :=
  if q.full then q else { q with put := q.put ++ [event] }

end EventQueue

structure Subscriber where
  queue : Nat
  lastActive : Int

-- ==== the ledger

/-- The two `OrderedDict`s by key, and the history's keys, least recently published first. -/
structure PublishLedger where
  historyMaxSessions : Nat
  historyPerSession : Nat
  dedupTtlSeconds : Int
  dedupMaxEntries : Nat
  history : String → Option (List StreamEvent)
  recency : List String
  seen : String → Option (List (String × Int))

namespace PublishLedger

def forgetSession (l : PublishLedger) (sessionId : String) : PublishLedger :=
  { l with seen := update l.seen sessionId none }

def evicted (l : PublishLedger) : List String :=
  l.recency.take (l.recency.length + 1 - l.historyMaxSessions)

/-- The append to a `deque(maxlen=...)`. -/
def appendBounded (l : PublishLedger) (hist : List StreamEvent) (event : StreamEvent) :
    List StreamEvent :=
  (hist ++ [event]).drop (hist.length + 1 - l.historyPerSession)

def recordHistory (l : PublishLedger) (event : StreamEvent) : PublishLedger :=
  match l.history event.sessionId with
  | none =>
    { l with
      history := update
        (fun sessionId => if sessionId ∈ l.evicted then none else l.history sessionId)
        event.sessionId (some (l.appendBounded [] event))
      recency := l.recency.drop l.evicted.length ++ [event.sessionId] }
  | some hist =>
    { l with
      history := update l.history event.sessionId
        (some (if hist.any (fun existing => existing.id = event.id) then hist
          else l.appendBounded hist event))
      recency := l.recency.erase event.sessionId ++ [event.sessionId] }

/-- What `replay_history` puts: the events after the one with `after_id`, or all. -/
def pendingAfter (l : PublishLedger) (sessionId afterId : String) : List StreamEvent :=
  let events := (l.history sessionId).getD []
  if events.any (fun recorded => recorded.id = afterId) then
    (events.dropWhile fun recorded => recorded.id ≠ afterId).tail
  else events

def replayHistory (l : PublishLedger) (sessionId afterId : String) (queue : EventQueue) :
    EventQueue :=
  (l.pendingAfter sessionId afterId).foldl EventQueue.putNowait queue

def unexpired (l : PublishLedger) (window : List (String × Int)) (now : Int) :
    List (String × Int) :=
  if 0 < l.dedupTtlSeconds then
    window.dropWhile fun entry => entry.2 < now - l.dedupTtlSeconds
  else window

def isDuplicate (l : PublishLedger) (event : StreamEvent) (now : Int) : Bool :=
  match l.seen event.sessionId with
  | none => false
  | some window => (l.unexpired window now).any fun entry => entry.1 = event.id

/-- What `is_duplicate` leaves. -/
def evictExpired (l : PublishLedger) (event : StreamEvent) (now : Int) : PublishLedger :=
  match l.seen event.sessionId with
  | none => l
  | some window =>
    { l with
      seen := update l.seen event.sessionId
        (if (l.unexpired window now).isEmpty then none else some (l.unexpired window now)) }

def stamped (window : List (String × Int)) (id : String) (now : Int) : List (String × Int) :=
  if window.any (fun entry => entry.1 = id) then
    window.map fun entry => if entry.1 = id then (id, now) else entry
  else window ++ [(id, now)]

def recordPublished (l : PublishLedger) (event : StreamEvent) (now : Int) : PublishLedger :=
  let window := stamped ((l.seen event.sessionId).getD []) event.id now
  { l with
    seen := update l.seen event.sessionId
      (some (window.drop (window.length - l.dedupMaxEntries))) }

end PublishLedger

-- ==== the hub

structure EventStreamHub where
  ledger : PublishLedger
  maxQueueSize : Nat
  subscribers : String → List Subscriber
  queues : Nat → EventQueue
  nextQueue : Nat

namespace EventStreamHub

def subscribe (hub : EventStreamHub) (sessionId : String) (afterId : Option String) (now : Int) :
    EventStreamHub :=
  let queue := EventQueue.new hub.maxQueueSize
  { hub with
    subscribers := update hub.subscribers sessionId
      (hub.subscribers sessionId ++ [⟨hub.nextQueue, now⟩])
    queues := update hub.queues hub.nextQueue
      (match afterId with
        | none => queue
        | some id => hub.ledger.replayHistory sessionId id queue)
    nextQueue := hub.nextQueue + 1 }

def unsubscribe (hub : EventStreamHub) (sessionId : String) (queue : Nat) : EventStreamHub :=
  if hub.subscribers sessionId = [] then hub
  else
    let kept := (hub.subscribers sessionId).filter fun sub => sub.queue ≠ queue
    { hub with
      subscribers := update hub.subscribers sessionId kept
      ledger := if kept = [] then hub.ledger.forgetSession sessionId else hub.ledger }

/-- The fan-out of `publish`: the event is put on every queue of the
snapshot. -/
def fanOut (queues : Nat → EventQueue) (subs : List Subscriber) (event : StreamEvent) :
    Nat → EventQueue :=
  subs.foldl
    (fun queues sub => update queues sub.queue ((queues sub.queue).putNowait event))
    queues

def publish (hub : EventStreamHub) (event : StreamEvent) (now : Int) : EventStreamHub :=
  let ledger := hub.ledger.recordHistory event
  let subs := hub.subscribers event.sessionId
  if subs = [] then { hub with ledger := ledger.forgetSession event.sessionId }
  else if ledger.isDuplicate event now then { hub with ledger := ledger.evictExpired event now }
  else
    { hub with
      ledger := (ledger.evictExpired event now).recordPublished event now
      subscribers := update hub.subscribers event.sessionId
        (subs.map fun sub => { sub with lastActive := now })
      queues := fanOut hub.queues subs event }

def prune (hub : EventStreamHub) (now idleTtlSeconds : Int) : EventStreamHub :=
  let kept := fun sessionId =>
    (hub.subscribers sessionId).filter fun sub => now - idleTtlSeconds ≤ sub.lastActive
  { hub with
    subscribers := kept
    ledger :=
      { hub.ledger with
        seen := fun sessionId =>
          if hub.subscribers sessionId ≠ [] ∧ kept sessionId = [] then none
          else hub.ledger.seen sessionId } }

end EventStreamHub

-- ==== the clients

/-- `earlier` are the events taken from its former subscriptions; `since` counts the ids the hub
had accepted when it first subscribed. -/
structure Client where
  sessionId : String
  lastId : Option String
  earlier : List StreamEvent
  subscription : Nat
  since : Nat

/-- The hub, its clients, and the ids published for a session in order, with their first times. -/
structure Stream where
  hub : EventStreamHub
  clients : Nat → Option Client
  accepted : String → List (String × Int)

namespace Stream

def new (historyMaxSessions historyPerSession dedupMaxEntries maxQueueSize : Nat)
    (dedupTtlSeconds : Int) : Stream where
  hub :=
    { ledger :=
        { historyMaxSessions, historyPerSession, dedupTtlSeconds, dedupMaxEntries
          history := fun _ => none
          recency := []
          seen := fun _ => none }
      maxQueueSize
      subscribers := fun _ => []
      queues := fun _ => EventQueue.new maxQueueSize
      nextQueue := 0 }
  clients := fun _ => none
  accepted := fun _ => []

inductive Input
  | connect (client : Nat) (sessionId : String) (afterId : Option String) (now : Int)
  /-- A later one, which passes the id of the last event the client took. -/
  | reconnect (client : Nat) (now : Int)
  | take (client : Nat)
  | unsubscribe (sessionId : String) (queue : Nat)
  | publish (event : StreamEvent) (now : Int)
  | prune (now idleTtlSeconds : Int)

def queue (s : Stream) (c : Client) : EventQueue := s.hub.queues c.subscription

def acceptedIds (s : Stream) (sessionId : String) : List String :=
  (s.accepted sessionId).map Prod.fst

/-- The book of first publishes after a publish. -/
def accept (s : Stream) (event : StreamEvent) (now : Int) : String → List (String × Int) :=
  if event.id ∈ s.acceptedIds event.sessionId then s.accepted
  else
    update s.accepted event.sessionId
      (s.accepted event.sessionId ++ [(event.id, now)])

def step (s : Stream) : Input → Stream
  | .connect client sessionId afterId now =>
    match s.clients client with
    | some _ => s
    | none =>
      { s with
        hub := s.hub.subscribe sessionId afterId now
        clients := update s.clients client
          (some ⟨sessionId, afterId, [], s.hub.nextQueue, (s.accepted sessionId).length⟩) }
  | .reconnect client now =>
    match s.clients client with
    | none => s
    | some c =>
      { s with
        hub := s.hub.subscribe c.sessionId c.lastId now
        clients := update s.clients client
          (some { c with
            earlier := c.earlier ++ (s.queue c).took
            subscription := s.hub.nextQueue }) }
  | .take client =>
    match s.clients client with
    | none => s
    | some c =>
      match (s.queue c).waiting with
      | [] => s
      | event :: _ =>
        { s with
          hub :=
            { s.hub with
              queues := update s.hub.queues c.subscription
                { s.queue c with taken := (s.queue c).taken + 1 } }
          clients := update s.clients client (some { c with lastId := some event.id }) }
  | .unsubscribe sessionId queue => { s with hub := s.hub.unsubscribe sessionId queue }
  | .publish event now =>
    { s with
      hub := s.hub.publish event now
      accepted := s.accept event now }
  | .prune now idleTtlSeconds => { s with hub := s.hub.prune now idleTtlSeconds }

end Stream

end Synthorg.EventStream
