/-
`SettingsChangeDispatcher`: the loop that carries settings changes from the
bus to their subscribers.

The state has three parts: the dispatcher's own fields with the lock objects it made, the calls of
`start`, `stop` and the follow-up of a loop that ended by itself (`_reset_running_under_lock`),
and the poll loops. A call is cut at its awaits; `proceed` is what it does once the thing it
awaited answered, with the answer as a datum. A poll loop is cut the same way.
-/
import Synthorg.Lib.Mutex
import Synthorg.Lib.Run
import Mathlib.Data.List.Dedup

namespace Synthorg.Settings

open Lib

-- ==== the messages

/-- A namespace and a key. -/
abbrev SettingChange := String × String

/-- A `#settings` message, as far as it is read: the pairs of `message.metadata.extra`. -/
structure DeliveryEnvelope where
  extra : List (String × String)
  deriving DecidableEq

/-- `dict(extra).get(key)`: the last pair of a key counts. -/
def DeliveryEnvelope.get (envelope : DeliveryEnvelope) (key : String) : Option String :=
  (envelope.extra.reverse.find? fun pair => pair.1 = key).map Prod.snd

/-- `_extract_metadata`. -/
def DeliveryEnvelope.change? (envelope : DeliveryEnvelope) : Option SettingChange :=
  match envelope.get "namespace", envelope.get "key" with
  | some namespace', some key => some (namespace', key)
  | _, _ => none

/-- `list(dict.fromkeys(pairs))`: the first occurrence of each. -/
def fromkeys {α : Type*} [DecidableEq α] : List α → List α
  | [] => []
  | x :: rest => x :: (fromkeys rest).filter (· ≠ x)

def extractChanges (batch : List DeliveryEnvelope) : List SettingChange :=
  fromkeys (batch.filterMap DeliveryEnvelope.change?)

structure Subscriber where
  subscriberName : String
  watchedKeys : List SettingChange
  deriving DecidableEq

/-- A call of `subscriber.on_settings_changed(watched)`. -/
structure Notice where
  subscriber : Subscriber
  watched : List SettingChange
  deriving DecidableEq

/-- The calls `_dispatch` makes for a batch, in order. -/
def notices (subscribers : List Subscriber) (batch : List DeliveryEnvelope) : List Notice :=
  subscribers.filterMap fun subscriber =>
    let watched := (extractChanges batch).filter (· ∈ subscriber.watchedKeys)
    if watched = [] then none else some ⟨subscriber, watched⟩

def maxCoalescedWrites : Nat := 64

-- ==== the poll loop

inductive PollError
  /-- `CommunicationError`, `OSError` or `TimeoutError`, with the budget read after it. -/
  | transient (maxErrors : Nat)
  /-- Any other error that is not re-raised. -/
  | other
  /-- An error that is re-raised. -/
  | critical
  deriving DecidableEq

inductive Ending
  | cancelled
  | critical
  /-- `break`. -/
  | broke
  deriving DecidableEq

inductive LoopStage
  | created
  /-- At the head of the loop: reading its settings, receiving, sleeping. -/
  | polling
  /-- In `_drain`, before the coalesce window is known. -/
  | opening (first : DeliveryEnvelope)
  /-- In `_drain`, inside the window. -/
  | collecting (batch : List DeliveryEnvelope)
  /-- In `_dispatch`, with the calls still to make. -/
  | dispatching (batch : List DeliveryEnvelope) (pending : List Notice)
  /-- Acknowledging, with the envelopes still to acknowledge. -/
  | acking (rest : List DeliveryEnvelope)
  | done (ending : Ending) (hand : List DeliveryEnvelope)
  deriving DecidableEq

/-- `_dispatch` with calls still to make; after the last the batch is acknowledged. -/
def LoopStage.serving (batch : List DeliveryEnvelope) : List Notice → LoopStage
  | [] => .acking batch
  | first :: rest => .dispatching batch (first :: rest)

structure PollLoop where
  stage : LoopStage
  /-- `task.cancel()` was called. -/
  cancelled : Bool
  consecutiveErrors : Nat
  followedUp : Bool
  /-- What it took off the bus. -/
  taken : List DeliveryEnvelope
  /-- Whom it told what. -/
  delivered : List Notice

namespace PollLoop

def created : PollLoop where
  stage := .created
  cancelled := false
  consecutiveErrors := 0
  followedUp := false
  taken := []
  delivered := []

/-- `not task.done()`. -/
def alive (poll : PollLoop) : Bool :=
  match poll.stage with
  | .done _ _ => false
  | _ => true

def hand (poll : PollLoop) : List DeliveryEnvelope :=
  match poll.stage with
  | .opening first => [first]
  | .collecting batch | .dispatching batch _ | .done _ batch => batch
  | .created | .polling | .acking _ => []

def finish (poll : PollLoop) (ending : Ending) (hand : List DeliveryEnvelope) : PollLoop :=
  { poll with stage := .done ending hand }

def dispatch (subscribers : List Subscriber) (poll : PollLoop) (batch : List DeliveryEnvelope) :
    PollLoop :=
  { poll with stage := .serving batch (notices subscribers batch) }

def openBatch (poll : PollLoop) (envelope : DeliveryEnvelope) : PollLoop :=
  { poll with
    stage := .opening envelope
    taken := poll.taken ++ [envelope] }

def collect (subscribers : List Subscriber) (poll : PollLoop) (batch : List DeliveryEnvelope)
    (envelope : DeliveryEnvelope) : PollLoop :=
  let further := { poll with taken := poll.taken ++ [envelope] }
  if (batch ++ [envelope]).length < maxCoalescedWrites then
    { further with stage := .collecting (batch ++ [envelope]) }
  else further.dispatch subscribers (batch ++ [envelope])

/-- The handlers of the loop's body; its local variables are gone. -/
def fail (poll : PollLoop) (hand : List DeliveryEnvelope) : PollError → PollLoop
  | .transient maxErrors =>
    let counted := { poll with consecutiveErrors := poll.consecutiveErrors + 1 }
    if maxErrors ≤ counted.consecutiveErrors then counted.finish .broke []
    else { counted with stage := .polling }
  | .other => poll.finish .broke []
  | .critical => poll.finish .critical hand

/-- How a subscriber's `on_settings_changed` ends. -/
inductive Answer
  | returned
  /-- An error that is logged. -/
  | failed
  /-- An error that is re-raised. -/
  | critical
  deriving DecidableEq

/-- One call of `_dispatch`. -/
def serve (poll : PollLoop) (batch : List DeliveryEnvelope) (first : Notice) (rest : List Notice)
    (answer : Answer) : PollLoop :=
  let told := { poll with delivered := poll.delivered ++ [first] }
  match answer with
  | .critical => told.finish .critical batch
  | .returned | .failed => { told with stage := .serving batch rest }

def ack (poll : PollLoop) : List DeliveryEnvelope → PollLoop
  | _ :: next :: later => { poll with stage := .acking (next :: later) }
  | _ =>
    { poll with
      stage := .polling
      consecutiveErrors := 0 }

end PollLoop

-- ==== the dispatcher

inductive Method
  | start
  | stop
  /-- `_reset_running_under_lock(task)`. -/
  | reset (task : Nat)
  deriving DecidableEq

inductive CallStage
  | absent
  | waiting (method : Method) (lock : Nat)
  /-- `start`, in the unsubscribe of a crashed task's registration. -/
  | recovering (lock : Nat)
  /-- `start`, in channel ensure and subscribe. -/
  | subscribing (lock : Nat)
  /-- `start`, in the replay of persisted values. -/
  | applying (lock : Nat)
  /-- `start`, in the unsubscribe of its rollback. -/
  | rollingBack (lock : Nat)
  /-- `stop`, in the read of its drain deadline. -/
  | resolving (lock : Nat)
  /-- `stop`, waiting for the task it cancelled. -/
  | draining (lock task : Nat)
  /-- `stop`, in its unsubscribe. -/
  | unsubscribing (lock : Nat)
  | ended (raised : Bool)
  deriving DecidableEq

def CallStage.inside : CallStage → Bool
  | .recovering _ | .subscribing _ | .applying _ | .rollingBack _ => true
  | .resolving _ | .draining _ _ | .unsubscribing _ => true
  | .absent | .waiting _ _ | .ended _ => false

structure SettingsChangeDispatcher where
  subscribers : List Subscriber
  task : Option Nat
  running : Bool
  stopFailed : Bool
  lifecycleLock : Option Nat
  locks : Nat → AsyncLock Nat
  /-- Whether the bus holds the dispatcher's registration, and what waits in
  its queue. -/
  subscribed : Bool
  queue : List DeliveryEnvelope
  published : List DeliveryEnvelope
  loops : Nat → Option PollLoop
  nextLock : Nat
  nextLoop : Nat
  calls : Nat → CallStage

namespace SettingsChangeDispatcher

def new (subscribers : List Subscriber) : SettingsChangeDispatcher where
  subscribers := subscribers
  task := none
  running := false
  stopFailed := false
  lifecycleLock := none
  locks := fun _ => AsyncLock.fresh
  subscribed := false
  queue := []
  published := []
  loops := fun _ => none
  nextLock := 0
  nextLoop := 0
  calls := fun _ => .absent

def alive (d : SettingsChangeDispatcher) (t : Nat) : Bool := (d.loops t).any PollLoop.alive

/-- The task held is over: `self._task is not None and self._task.done()`. -/
def taskDone (d : SettingsChangeDispatcher) : Bool := d.task.any fun t => !d.alive t

def setCall (d : SettingsChangeDispatcher) (id : Nat) (stage : CallStage) :
    SettingsChangeDispatcher :=
  { d with calls := Function.update d.calls id stage }

def setLock (d : SettingsChangeDispatcher) (lock : Nat) (value : AsyncLock Nat) :
    SettingsChangeDispatcher :=
  { d with locks := Function.update d.locks lock value }

def setLoop (d : SettingsChangeDispatcher) (t : Nat) (poll : PollLoop) : SettingsChangeDispatcher :=
  { d with loops := Function.update d.loops t (some poll) }

/-- The end of `async with lifecycle_lock`. -/
def leave (d : SettingsChangeDispatcher) (id lock : Nat) (raised : Bool) :
    SettingsChangeDispatcher :=
  (d.setLock lock (d.locks lock).release).setCall id (.ended raised)

def unsubscribe (d : SettingsChangeDispatcher) : SettingsChangeDispatcher :=
  { d with
    subscribed := false
    queue := [] }

structure Section where
  method : Method
  id : Nat
  lock : Nat

/-- `async with lock`, up to its body. -/
def acquire (d : SettingsChangeDispatcher) (method : Method) (id lock : Nat) :
    SettingsChangeDispatcher × Option Section :=
  if (d.locks lock).open? then
    (d.setLock lock ((d.locks lock).take id), some ⟨method, id, lock⟩)
  else ((d.setLock lock ((d.locks lock).enqueue id)).setCall id (.waiting method lock), none)

/-- The lock of a `start`, bound first if there is none. -/
def bindLock (d : SettingsChangeDispatcher) : SettingsChangeDispatcher × Nat :=
  match d.lifecycleLock with
  | some lock => (d, lock)
  | none =>
    let bound := d.setLock d.nextLock AsyncLock.fresh
    ({ bound with
        lifecycleLock := some d.nextLock
        nextLock := d.nextLock + 1 }, d.nextLock)

def resetRunning (d : SettingsChangeDispatcher) (t : Nat) : SettingsChangeDispatcher :=
  if d.task = some t then
    { d with
      running := false
      task := none }
  else d

-- ==== the sections

/-- `start` up to its first await: the lock is re-anchored, a crashed task cleaned up first. -/
def startSection (d : SettingsChangeDispatcher) (id lock : Nat) : SettingsChangeDispatcher :=
  let anchored := { d with lifecycleLock := some lock }
  if d.stopFailed then anchored.leave id lock true
  else if d.taskDone then anchored.setCall id (.recovering lock)
  else if d.running then anchored.leave id lock true
  else anchored.setCall id (.subscribing lock)

/-- The body of `stop`, up to its first await. -/
def stopSection (d : SettingsChangeDispatcher) (id lock : Nat) : SettingsChangeDispatcher :=
  if d.running then
    match d.task with
    | some _ => d.setCall id (.resolving lock)
    | none => d.setCall id (.unsubscribing lock)
  else d.leave id lock false

/-- The body of `_reset_running_under_lock`. -/
def resetSection (d : SettingsChangeDispatcher) (id lock t : Nat) : SettingsChangeDispatcher :=
  (d.resetRunning t).leave id lock false

def criticalSection (d : SettingsChangeDispatcher) (sec : Section) : SettingsChangeDispatcher :=
  match sec.method with
  | .start => d.startSection sec.id sec.lock
  | .stop => d.stopSection sec.id sec.lock
  | .reset t => d.resetSection sec.id sec.lock t

/-- How what a call awaited answered. -/
inductive Reply
  | ok
  /-- An error that is not re-raised as critical. -/
  | failed
  | critical
  deriving DecidableEq

/-- `create_task(self._poll_loop())`. -/
def createLoop (d : SettingsChangeDispatcher) : SettingsChangeDispatcher :=
  let created := d.setLoop d.nextLoop PollLoop.created
  { created with
    running := true
    task := some d.nextLoop
    nextLoop := d.nextLoop + 1 }

/-- `start` goes on after the recovery's unsubscribe. -/
def recovered (d : SettingsChangeDispatcher) (id lock : Nat) : Reply → SettingsChangeDispatcher
  | .ok =>
    { d.unsubscribe with
      running := false
      task := none }.setCall id (.subscribing lock)
  | .failed =>
    { d with
      running := false
      task := none
      stopFailed := true }.leave id lock true
  | .critical => d.leave id lock true

/-- `start` goes on after channel ensure and subscribe. -/
def subscribe (d : SettingsChangeDispatcher) (id lock : Nat) : Reply → SettingsChangeDispatcher
  | .ok => { d with subscribed := true }.setCall id (.applying lock)
  | .failed | .critical => d.leave id lock true

/-- `start` goes on after the replay, which swallows every error but a
critical one. -/
def applied (d : SettingsChangeDispatcher) (id lock : Nat) : Reply → SettingsChangeDispatcher
  | .ok | .failed => d.createLoop.leave id lock false
  | .critical =>
    { d with
      running := false
      task := none }.setCall id (.rollingBack lock)

/-- `start` ends after its rollback's unsubscribe. -/
def rolledBack (d : SettingsChangeDispatcher) (id lock : Nat) : Reply → SettingsChangeDispatcher
  | .ok => d.unsubscribe.leave id lock true
  | .failed =>
    { d with
      running := true
      stopFailed := true }.leave id lock true
  | .critical => d.leave id lock true

/-- `task.cancel()`. -/
def cancelLoop (d : SettingsChangeDispatcher) (t : Nat) : SettingsChangeDispatcher :=
  match d.loops t with
  | some poll => d.setLoop t { poll with cancelled := true }
  | none => d

/-- `stop` with its deadline read cancels the task held by now; without one it raises. -/
def resolved (d : SettingsChangeDispatcher) (id lock : Nat) : Reply → SettingsChangeDispatcher
  | .ok | .failed =>
    match d.task with
    | some t => (d.cancelLoop t).setCall id (.draining lock t)
    | none => d.leave id lock true
  | .critical => d.leave id lock true

/-- `stop` ends after its unsubscribe, and drops the lock. -/
def unsubscribed (d : SettingsChangeDispatcher) (id lock : Nat) : Reply → SettingsChangeDispatcher
  | .ok =>
    { ({ d.unsubscribe with running := false }.leave id lock false) with
      lifecycleLock := none }
  | .failed => { d with stopFailed := true }.leave id lock true
  | .critical => d.leave id lock true

/-- `self._task.cancelled()`. -/
def taskCancelled (d : SettingsChangeDispatcher) (t : Nat) : Bool :=
  match d.loops t with
  | some poll =>
    match poll.stage with
    | .done .cancelled _ => true
    | _ => false
  | none => false

/-- `stop` goes on once the task it waits for is over. -/
def drained (d : SettingsChangeDispatcher) (id lock : Nat) : Ending → SettingsChangeDispatcher
  | .critical => d.leave id lock true
  | .broke => { d with task := none }.setCall id (.unsubscribing lock)
  | .cancelled =>
    if d.task.any (fun t => !d.taskCancelled t) then d.leave id lock true
    else { d with task := none }.setCall id (.unsubscribing lock)

-- ==== the steps

inductive Input
  | start (id : Nat)
  | stop (id : Nat)
  | followUp (id t : Nat)
  /-- The first caller queued on a free lock goes on. -/
  | resume (id : Nat)
  /-- What a call awaits answers. -/
  | proceed (id : Nat) (reply : Reply)
  /-- The task a `stop` waits for is over. -/
  | drained (id : Nat)
  | publish (envelope : DeliveryEnvelope)
  /-- A poll loop takes its first step. -/
  | beginLoop (t : Nat)
  /-- A poll loop's `receive` returns the next envelope. -/
  | receive (t : Nat)
  | window (t : Nat) (positive : Bool)
  /-- The window ends. -/
  | close (t : Nat)
  | serve (t : Nat) (answer : PollLoop.Answer)
  | ack (t : Nat)
  /-- An await of the loop's body raises. -/
  | fail (t : Nat) (error : PollError)
  | endLoop (t : Nat)

def enter (d : SettingsChangeDispatcher) : Input → SettingsChangeDispatcher × Option Section
  | .start id =>
    if d.calls id = .absent then d.bindLock.1.acquire .start id d.bindLock.2
    else (d, none)
  | .stop id =>
    if d.calls id = .absent then
      match d.lifecycleLock with
      | some lock => d.acquire .stop id lock
      | none => (d.setCall id (.ended false), none)
    else (d, none)
  | .followUp id t =>
    if d.calls id = .absent then
      match d.loops t with
      | some poll =>
        if !poll.alive && !d.taskCancelled t && !poll.followedUp then
          let scheduled := d.setLoop t { poll with followedUp := true }
          match d.lifecycleLock with
          | some lock => scheduled.acquire (.reset t) id lock
          | none => ((scheduled.resetRunning t).setCall id (.ended false), none)
        else (d, none)
      | none => (d, none)
    else (d, none)
  | .resume id =>
    match d.calls id with
    | .waiting method lock =>
      if (d.locks lock).next? = some id then
        (d.setLock lock (d.locks lock).handOver, some ⟨method, id, lock⟩)
      else (d, none)
    | _ => (d, none)
  | _ => (d, none)

def goOn (d : SettingsChangeDispatcher) (id : Nat) (reply : Reply) : SettingsChangeDispatcher :=
  match d.calls id with
  | .recovering lock => d.recovered id lock reply
  | .subscribing lock => d.subscribe id lock reply
  | .applying lock => d.applied id lock reply
  | .rollingBack lock => d.rolledBack id lock reply
  | .resolving lock => d.resolved id lock reply
  | .unsubscribing lock => d.unsubscribed id lock reply
  | .absent | .waiting _ _ | .draining _ _ | .ended _ => d

def loopStep (d : SettingsChangeDispatcher) (t : Nat) (poll : PollLoop) :
    Input → SettingsChangeDispatcher
  | .beginLoop _ =>
    match poll.stage with
    | .created =>
      if poll.cancelled then d.setLoop t (poll.finish .cancelled [])
      else d.setLoop t { poll with stage := .polling }
    | _ => d
  | .receive _ =>
    match poll.stage, d.queue with
    | .polling, envelope :: rest =>
      { d.setLoop t (poll.openBatch envelope) with queue := rest }
    | .collecting batch, envelope :: rest =>
      { d.setLoop t (poll.collect d.subscribers batch envelope) with queue := rest }
    | _, _ => d
  | .window _ positive =>
    match poll.stage with
    | .opening first =>
      if positive then d.setLoop t { poll with stage := .collecting [first] }
      else d.setLoop t (poll.dispatch d.subscribers [first])
    | _ => d
  | .close _ =>
    match poll.stage with
    | .collecting batch => d.setLoop t (poll.dispatch d.subscribers batch)
    | _ => d
  | .serve _ answer =>
    match poll.stage with
    | .dispatching batch (first :: rest) => d.setLoop t (poll.serve batch first rest answer)
    | _ => d
  | .ack _ =>
    match poll.stage with
    | .acking rest => d.setLoop t (poll.ack rest)
    | _ => d
  | .fail _ error =>
    match poll.stage with
    | .polling | .collecting _ | .acking _ => d.setLoop t (poll.fail poll.hand error)
    -- the reads of the window fall back to a default on every other error
    | .opening _ => if error = .critical then d.setLoop t (poll.fail poll.hand error) else d
    | .created | .dispatching _ _ | .done _ _ => d
  | .endLoop _ =>
    if poll.alive && poll.cancelled then d.setLoop t (poll.finish .cancelled poll.hand) else d
  | _ => d

def Input.loop? : Input → Option Nat
  | .beginLoop t | .receive t | .window t _ | .close t => some t
  | .serve t _ | .ack t | .fail t _ | .endLoop t => some t
  | _ => none

/-- What happens without a critical section being entered. -/
def progress (d : SettingsChangeDispatcher) (input : Input) : SettingsChangeDispatcher :=
  match input with
  | .proceed id reply => d.goOn id reply
  | .drained id =>
    match d.calls id with
    | .draining lock t =>
      match d.loops t with
      | some poll =>
        match poll.stage with
        | .done ending _ => d.drained id lock ending
        | _ => d
      | none => d
    | _ => d
  | .publish envelope =>
    { d with
      published := d.published ++ [envelope]
      queue := if d.subscribed then d.queue ++ [envelope] else d.queue }
  | input =>
    match input.loop? with
    | some t =>
      match d.loops t with
      | some poll => d.loopStep t poll input
      | none => d
    | none => d

def step (d : SettingsChangeDispatcher) (input : Input) : SettingsChangeDispatcher :=
  match d.enter input with
  | (entered, some sec) => entered.criticalSection sec
  | (entered, none) => entered.progress input

abbrev run (d : SettingsChangeDispatcher) (inputs : List Input) : SettingsChangeDispatcher :=
  Run.final step d inputs

end SettingsChangeDispatcher

end Synthorg.Settings
