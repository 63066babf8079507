/-
What a client of the event stream is given over all its subscriptions.

# The two sources

A client is fed by the history, when it comes back, and by live publishes. An id is accepted at
its first publish, and a client is owed the ids accepted from the time it first subscribed.

# What makes them agree

Histories and queues are bounded, so `Within` says that none of them overflows. What is left is a
retry: it is given to a client a second time unless the window of published ids still knows it
(`Answered`). Under that every client follows the accepted ids of its session (`Follows`), and a
run that delivers throughout has answered every retry: the condition is exact.
-/
import Synthorg.EventStream.Hub
import Synthorg.Lib.Resume

namespace Synthorg.EventStream

open Lib
open Function (update update_self update_of_ne)
open List

def ids (events : List StreamEvent) : List String := events.map StreamEvent.id

@[simp]
theorem ids_nil : ids [] = [] := rfl

@[simp]
theorem ids_append (xs ys : List StreamEvent) : ids (xs ++ ys) = ids xs ++ ids ys :=
  map_append

@[simp]
theorem ids_cons (event : StreamEvent) (xs : List StreamEvent) :
    ids (event :: xs) = event.id :: ids xs := rfl

namespace Stream

variable {s : Stream} {c : Client} {event : StreamEvent} {now : Int}

-- ==== the properties

/-- What a client took on earlier subscriptions, and what the last one was given. -/
def sequence (s : Stream) (c : Client) : List StreamEvent := c.earlier ++ (s.queue c).put

/-- What of it the client took. -/
def tookAll (s : Stream) (c : Client) : List StreamEvent := c.earlier ++ (s.queue c).took

/-- The client is on its last subscription. -/
def Live (s : Stream) (c : Client) : Prop :=
  ∃ sub ∈ s.hub.subscribers c.sessionId, sub.queue = c.subscription

instance (s : Stream) (c : Client) : Decidable (s.Live c) := by
  unfold Live
  infer_instance

structure Delivered (s : Stream) : Prop where
  /-- No id is given twice. -/
  once : ∀ client c, s.clients client = some c → (ids (s.sequence c)).Nodup
  ordered : ∀ client c, s.clients client = some c →
    (ids (s.sequence c)).Sublist (s.acceptedIds c.sessionId)
  /-- A subscribed client misses nothing accepted since it first subscribed. -/
  complete : ∀ client c, s.clients client = some c → s.Live c →
    ∀ id ∈ (s.acceptedIds c.sessionId).drop c.since, id ∈ ids (s.sequence c)

/-- The history has the event or room for it, and nothing was evicted. -/
def Retains (l : PublishLedger) (event : StreamEvent) : Prop :=
  match l.history event.sessionId with
  | none => l.evicted = [] ∧ 0 < l.historyPerSession
  | some hist => event.id ∈ ids hist ∨ hist.length < l.historyPerSession

/-- A replay after the id is within a queue. -/
def Fits (hub : EventStreamHub) (sessionId afterId : String) : Prop :=
  (hub.ledger.pendingAfter sessionId afterId).length ≤ hub.maxQueueSize

/-- Nothing overflows: a publish is retained, finds room on every queue and meets no stamp of its
id that has run out; a replay fits; and who comes back goes on from what it took, or from before
it first subscribed. -/
def Within (s : Stream) : Input → Prop
  | .publish event now =>
    Retains s.hub.ledger event ∧
    (∀ sub ∈ s.hub.subscribers event.sessionId, (s.hub.queues sub.queue).full = false) ∧
    (∀ entry ∈ s.accepted event.sessionId, entry.1 = event.id →
      0 < s.hub.ledger.dedupTtlSeconds → now ≤ entry.2 + s.hub.ledger.dedupTtlSeconds)
  | .connect _ sessionId afterId _ => ∀ id, afterId = some id → Fits s.hub sessionId id
  | .reconnect client _ =>
    ∀ c, s.clients client = some c →
      ∃ id, c.lastId = some id ∧ Fits s.hub c.sessionId id ∧
        (s.tookAll c = [] → id ∉ (s.acceptedIds c.sessionId).drop c.since)
  | _ => True

/-- A retry that is not recognised finds no live client that has seen its event or a later one. -/
def Answered (s : Stream) : Input → Prop
  | .publish event now =>
    event.id ∈ s.acceptedIds event.sessionId → s.hub.subscribers event.sessionId ≠ [] →
      s.hub.ledger.isDuplicate event now = false →
        ∀ client c, s.clients client = some c → c.sessionId = event.sessionId → s.Live c →
          ∀ id ∈ ids (s.sequence c),
            (s.acceptedIds event.sessionId).idxOf id <
              (s.acceptedIds event.sessionId).idxOf event.id
  | _ => True

-- ==== the ledger

/-- A history that retains the event ends with its id, unless it has it already. -/
theorem history_recordHistory (l : PublishLedger) (hret : Retains l event) (sessionId : String) :
    ids (((l.recordHistory event).history sessionId).getD []) =
      if sessionId = event.sessionId then
        (if event.id ∈ ids ((l.history sessionId).getD []) then
          ids ((l.history sessionId).getD [])
        else ids ((l.history sessionId).getD []) ++ [event.id])
      else ids ((l.history sessionId).getD []) := by
  rw [Retains] at hret
  rw [PublishLedger.recordHistory]
  by_cases hs : sessionId = event.sessionId
  · subst hs
    rw [if_pos rfl]
    split
    next hnone =>
      rw [hnone] at hret
      have hper : 0 + 1 - l.historyPerSession = 0 := by omega
      simp [hnone, PublishLedger.appendBounded, hper]
    next hist hhist =>
      rw [hhist] at hret
      have hany : (hist.any fun existing => decide (existing.id = event.id)) = true ↔
          event.id ∈ ids hist := by
        simp [ids]
      simp only [hhist, update_self, Option.getD_some]
      by_cases hk : event.id ∈ ids hist
      · rw [if_pos (hany.2 hk), if_pos hk]
      · have hroom : hist.length + 1 - l.historyPerSession = 0 := by
          cases hret with
          | inl hin => exact absurd hin hk
          | inr hlt => omega
        rw [if_neg (fun h => hk (hany.1 h)), if_neg hk]
        simp [PublishLedger.appendBounded, hroom]
  · rw [if_neg hs]
    split
    next hnone =>
      rw [hnone] at hret
      simp [update_of_ne hs, hret.1]
    next hist hhist => simp [update_of_ne hs]

/-- What is replayed is the rest of the history. -/
theorem ids_pendingAfter (l : PublishLedger) (sessionId afterId : String) :
    ids (l.pendingAfter sessionId afterId) =
      resumeAfter afterId (ids ((l.history sessionId).getD [])) := by
  have hdrop : ∀ events : List StreamEvent,
      ids ((events.dropWhile fun recorded => recorded.id ≠ afterId).tail) =
        ((ids events).dropWhile (· ≠ afterId)).tail := by
    intro events
    induction events with
    | nil => rfl
    | cons event rest ih =>
      by_cases hid : event.id = afterId
      · simp [hid]
      · simpa [hid] using ih
  rw [PublishLedger.pendingAfter, resumeAfter]
  simp only [any_eq_true, decide_eq_true_eq]
  by_cases hmem : afterId ∈ ids ((l.history sessionId).getD [])
  · have hany : ∃ x ∈ (l.history sessionId).getD [], x.id = afterId := by
      simpa [ids] using hmem
    rw [if_pos hmem, if_pos hany, hdrop]
  · have hany : ¬ ∃ x ∈ (l.history sessionId).getD [], x.id = afterId := by
      simpa [ids] using hmem
    rw [if_neg hmem, if_neg hany]

/-- A queue with room takes all of them. -/
theorem put_all (events : List StreamEvent) (q : EventQueue) (ht : q.taken = 0)
    (hroom : q.put.length + events.length ≤ q.maxsize) :
    (events.foldl EventQueue.putNowait q).put = q.put ++ events ∧
      (events.foldl EventQueue.putNowait q).taken = 0 := by
  induction events generalizing q with
  | nil => simp [ht]
  | cons event rest ih =>
    have hnext : q.putNowait event = { q with put := q.put ++ [event] } := by
      have hfull : q.full = false := by
        simp only [length_cons] at hroom
        simp only [EventQueue.full, EventQueue.waiting, ht, drop_zero, decide_eq_false_iff_not]
        omega
      simp [EventQueue.putNowait, hfull]
    rw [foldl_cons, hnext]
    have hrest : (q.put ++ [event]).length + rest.length ≤ q.maxsize := by
      simp only [length_cons] at hroom
      simp only [length_append, length_cons, length_nil]
      omega
    have hstep := ih { q with put := q.put ++ [event] } ht hrest
    simpa using hstep

theorem replayHistory_put (l : PublishLedger) (sessionId afterId : String) (maxsize : Nat)
    (hfits : (l.pendingAfter sessionId afterId).length ≤ maxsize) :
    (l.replayHistory sessionId afterId (EventQueue.new maxsize)).put =
        l.pendingAfter sessionId afterId ∧
      (l.replayHistory sessionId afterId (EventQueue.new maxsize)).taken = 0 := by
  have hall := put_all (l.pendingAfter sessionId afterId) (EventQueue.new maxsize) rfl
    (by simpa [EventQueue.new] using hfits)
  simpa [EventQueue.new, PublishLedger.replayHistory] using hall

-- ==== the fan-out

/-- One publish lengthens each subscriber's queue by one and no other. -/
theorem fanOut_put (subs : List Subscriber) (queues : Nat → EventQueue) (event : StreamEvent)
    (ha : (subs.map Subscriber.queue).Nodup)
    (hroom : ∀ sub ∈ subs, (queues sub.queue).full = false) (n : Nat) :
    EventStreamHub.fanOut queues subs event n =
      if n ∈ subs.map Subscriber.queue then { queues n with put := (queues n).put ++ [event] }
      else queues n := by
  induction subs generalizing queues with
  | nil => rfl
  | cons sub rest ih =>
    rw [map_cons, nodup_cons] at ha
    have hput : (queues sub.queue).putNowait event =
        { queues sub.queue with put := (queues sub.queue).put ++ [event] } := by
      simp [EventQueue.putNowait, hroom sub mem_cons_self]
    have hothers : ∀ other ∈ rest, other.queue ≠ sub.queue := by
      intro other ho heq
      exact ha.1 (heq ▸ mem_map_of_mem ho)
    have hrest := ih
      (update queues sub.queue ((queues sub.queue).putNowait event)) ha.2
      (by
        intro other ho
        rw [update_of_ne (hothers other ho)]
        exact hroom other (mem_cons_of_mem sub ho))
    rw [EventStreamHub.fanOut, foldl_cons]
    rw [EventStreamHub.fanOut] at hrest
    rw [hrest]
    by_cases hn : n = sub.queue
    · subst hn
      rw [if_neg ha.1, if_pos (mem_map_of_mem mem_cons_self), update_self, hput]
    · simp only [update_of_ne hn, map_cons, mem_cons, hn, false_or]

-- ==== the invariant

/-- THE INVARIANT: queues have one owner, and every client follows its session's accepted ids. -/
structure Inv (s : Stream) : Prop where
  history : ∀ sessionId,
    ids ((s.hub.ledger.history sessionId).getD []) = s.acceptedIds sessionId
  nodup : ∀ sessionId, (s.acceptedIds sessionId).Nodup
  seen : ∀ sessionId window, s.hub.ledger.seen sessionId = some window →
    ∀ entry ∈ window, entry.1 ∈ s.acceptedIds sessionId
  fresh : ∀ sessionId, ∀ sub ∈ s.hub.subscribers sessionId, sub.queue < s.hub.nextQueue
  apart : ∀ sessionId, ((s.hub.subscribers sessionId).map Subscriber.queue).Nodup
  owner : ∀ sessionId, ∀ sub ∈ s.hub.subscribers sessionId, ∀ client c,
    s.clients client = some c → sub.queue = c.subscription → sessionId = c.sessionId
  subscribed : ∀ client c, s.clients client = some c → c.subscription < s.hub.nextQueue
  own : ∀ client client' c c', s.clients client = some c → s.clients client' = some c' →
    c.subscription = c'.subscription → client = client'
  bound : ∀ client c, s.clients client = some c → (s.queue c).taken ≤ (s.queue c).put.length
  last : ∀ client c, s.clients client = some c → ∀ before event,
    s.tookAll c = before ++ [event] → c.lastId = some event.id
  follows : ∀ client c, s.clients client = some c →
    Follows (s.acceptedIds c.sessionId) c.since (ids (s.sequence c)) (s.Live c)

theorem Inv.delivered (h : Inv s) : s.Delivered where
  once := fun client c hc => (h.nodup c.sessionId).sublist (h.follows client c hc).sublist
  ordered := fun client c hc => (h.follows client c hc).sublist
  complete := fun client c hc hlive => (h.follows client c hc).complete hlive

theorem new_inv (maxSessions perSession maxEntries maxsize : Nat) (ttl : Int) :
    Inv (new maxSessions perSession maxEntries maxsize ttl) := by
  refine ⟨fun _ => rfl, fun _ => nodup_nil, ?_, ?_, fun _ => nodup_nil, ?_, ?_, ?_, ?_, ?_, ?_⟩
  · intro sessionId window hwin
    cases hwin
  · intro sessionId sub hsub
    cases hsub
  · intro sessionId sub hsub
    cases hsub
  · intro client c hc
    cases hc
  · intro client client' c c' hc
    cases hc
  · intro client c hc
    cases hc
  · intro client c hc
    cases hc
  · intro client c hc
    cases hc

theorem sequence_eq (s : Stream) (c : Client) :
    s.sequence c = s.tookAll c ++ (s.queue c).waiting := by
  rw [sequence, tookAll, append_assoc, EventQueue.took, EventQueue.waiting, take_append_drop]

-- ==== subscribers come and go

variable {s' : Stream} {entry : String × Int} {id : String} {input : Input}

/-- What only drops subscribers and stamps keeps the invariant. -/
theorem Inv.fewer (h : Inv s) (hh : s'.hub.ledger.history = s.hub.ledger.history)
    (hseen : ∀ sessionId window, s'.hub.ledger.seen sessionId = some window →
      ∀ entry ∈ window, entry.1 ∈ s.acceptedIds sessionId)
    (hs : ∀ sessionId, ((s'.hub.subscribers sessionId).map Subscriber.queue).Sublist
      ((s.hub.subscribers sessionId).map Subscriber.queue)) (hqueue : s'.hub.queues = s.hub.queues)
    (hnext : s'.hub.nextQueue = s.hub.nextQueue) (hclient : s'.clients = s.clients)
    (hacc : s'.accepted = s.accepted) : Inv s' := by
  have hids : ∀ sessionId, s'.acceptedIds sessionId = s.acceptedIds sessionId := by
    intro sessionId
    rw [acceptedIds, hacc, acceptedIds]
  have hq : ∀ c, s'.queue c = s.queue c := by
    intro c
    rw [queue, hqueue, queue]
  have hback : ∀ sessionId, ∀ sub ∈ s'.hub.subscribers sessionId,
      ∃ old ∈ s.hub.subscribers sessionId, old.queue = sub.queue := by
    intro sessionId sub hsub
    have hold := (hs sessionId).subset (mem_map_of_mem hsub)
    simpa using mem_map.1 hold
  refine ⟨?_, ?_, ?_, ?_, ?_, ?_, ?_, ?_, ?_, ?_, ?_⟩
  · intro sessionId
    rw [hh, hids]
    exact h.history sessionId
  · intro sessionId
    rw [hids]
    exact h.nodup sessionId
  · intro sessionId window hwin entry he
    rw [hids]
    exact hseen sessionId window hwin entry he
  · intro sessionId sub hsub
    obtain ⟨old, hold, heq⟩ := hback sessionId sub hsub
    rw [hnext, ← heq]
    exact h.fresh sessionId old hold
  · intro sessionId
    exact (h.apart sessionId).sublist (hs sessionId)
  · intro sessionId sub hsub client c hc heq
    obtain ⟨old, hold, hq'⟩ := hback sessionId sub hsub
    rw [hclient] at hc
    exact h.owner sessionId old hold client c hc (hq'.trans heq)
  · intro client c hc
    rw [hclient] at hc
    rw [hnext]
    exact h.subscribed client c hc
  · intro client client' c c' hc hc' heq
    rw [hclient] at hc hc'
    exact h.own client client' c c' hc hc' heq
  · intro client c hc
    rw [hclient] at hc
    rw [hq]
    exact h.bound client c hc
  · intro client c hc before event htook
    rw [hclient] at hc
    rw [tookAll, hq] at htook
    exact h.last client c hc before event htook
  · intro client c hc
    rw [hclient] at hc
    rw [hids, sequence, hq]
    refine (h.follows client c hc).weaken ?_
    intro hlive
    obtain ⟨sub, hsub, heq⟩ := hlive
    obtain ⟨old, hold, hq'⟩ := hback c.sessionId sub hsub
    exact ⟨old, hold, hq'.trans heq⟩

theorem Inv.unsubscribe (h : Inv s) (sessionId : String) (queue : Nat) :
    Inv (s.step (.unsubscribe sessionId queue)) := by
  simp only [Stream.step, EventStreamHub.unsubscribe]
  split
  · exact h
  · refine h.fewer ?_ ?_ ?_ rfl rfl rfl rfl
    · split <;> rfl
    · intro sessionId' window hwin
      split at hwin
      next =>
        by_cases hs : sessionId' = sessionId
        · subst hs
          simp [PublishLedger.forgetSession] at hwin
        · simp only [PublishLedger.forgetSession, update_of_ne hs] at hwin
          exact h.seen sessionId' window hwin
      next => exact h.seen sessionId' window hwin
    · intro sessionId'
      by_cases hs : sessionId' = sessionId
      · subst hs
        simp only [update_self]
        exact filter_sublist.map Subscriber.queue
      · simp only [update_of_ne hs]
        exact Sublist.refl _

theorem Inv.prune (h : Inv s) (now idleTtlSeconds : Int) :
    Inv (s.step (.prune now idleTtlSeconds)) := by
  simp only [Stream.step, EventStreamHub.prune]
  refine h.fewer rfl ?_ ?_ rfl rfl rfl rfl
  · intro sessionId window hwin
    simp only at hwin
    split at hwin
    next => cases hwin
    next => exact h.seen sessionId window hwin
  · intro sessionId
    exact filter_sublist.map Subscriber.queue

-- ==== clients come and come back

/-- What a subscription starts with. -/
def replayed (s : Stream) (sessionId : String) : Option String → List String
  | none => []
  | some id => resumeAfter id (s.acceptedIds sessionId)

theorem Inv.subscribe_queue (h : Inv s) (sessionId : String) (afterId : Option String) (now : Int)
    (hfits : ∀ id, afterId = some id → Fits s.hub sessionId id) :
    ((s.hub.subscribe sessionId afterId now).queues s.hub.nextQueue).taken = 0 ∧
      ids ((s.hub.subscribe sessionId afterId now).queues s.hub.nextQueue).put =
        s.replayed sessionId afterId := by
  simp only [EventStreamHub.subscribe, update_self]
  cases afterId with
  | none => exact ⟨rfl, rfl⟩
  | some id =>
    obtain ⟨hput, ht⟩ :=
      replayHistory_put s.hub.ledger sessionId id s.hub.maxQueueSize (hfits id rfl)
    refine ⟨ht, ?_⟩
    simp only [hput]
    rw [ids_pendingAfter, h.history, replayed]

/-- The new queue goes on where the client left off. -/
theorem Inv.subscribe (h : Inv s) (client : Nat) (c : Client) (afterId : Option String) (hs' : s' =
      { s with
        hub := s.hub.subscribe c.sessionId afterId now
        clients := update s.clients client (some c) })
    (hsub : c.subscription = s.hub.nextQueue) (hb : (s'.queue c).taken = 0)
    (hlast : ∀ before event, c.earlier = before ++ [event] → c.lastId = some event.id)
    (hf : Follows (s.acceptedIds c.sessionId) c.since (ids (s'.sequence c)) (s'.Live c)) :
    Inv s' := by
  have hold : ∀ n, n < s.hub.nextQueue → s'.hub.queues n = s.hub.queues n := by
    intro n hn
    rw [hs']
    exact update_of_ne (Nat.ne_of_lt hn) _ _
  have hc : ∀ other d, s'.clients other = some d →
      (other = client ∧ d = c) ∨ (other ≠ client ∧ s.clients other = some d) := by
    intro other d hd
    simp only [hs', Function.update_apply, ite_eq_iff, Option.some.injEq] at hd
    exact hd.imp_left (And.imp_right Eq.symm)
  have hsubscribed : ∀ sessionId, ∀ sub ∈ s'.hub.subscribers sessionId,
      (sessionId = c.sessionId ∧ sub.queue = s.hub.nextQueue) ∨
        sub ∈ s.hub.subscribers sessionId := by
    intro sessionId sub hsub
    rw [hs'] at hsub
    simp only [EventStreamHub.subscribe] at hsub
    by_cases hs : sessionId = c.sessionId
    · subst hs
      simp only [update_self, mem_append, mem_singleton] at hsub
      cases hsub with
      | inl hsub => exact .inr hsub
      | inr hsub =>
        left
        rw [hsub]
        exact ⟨rfl, rfl⟩
    · simp only [update_of_ne hs] at hsub
      exact .inr hsub
  have hnext : s'.hub.nextQueue = s.hub.nextQueue + 1 := by
    rw [hs']
    rfl
  have hl : s'.hub.ledger = s.hub.ledger := by
    rw [hs']
    rfl
  have hids : ∀ sessionId, s'.acceptedIds sessionId = s.acceptedIds sessionId := by
    intro sessionId
    rw [hs']
    rfl
  have hq : ∀ other d, s.clients other = some d → s'.queue d = s.queue d := by
    intro other d hd
    exact hold d.subscription (h.subscribed other d hd)
  refine ⟨?_, ?_, ?_, ?_, ?_, ?_, ?_, ?_, ?_, ?_, ?_⟩
  · intro sessionId
    rw [hl, hids]
    exact h.history sessionId
  · intro sessionId
    rw [hids]
    exact h.nodup sessionId
  · intro sessionId window hwin
    rw [hl] at hwin
    rw [hids]
    exact h.seen sessionId window hwin
  · intro sessionId sub hmem
    rw [hnext]
    cases hsubscribed sessionId sub hmem with
    | inl hnew => omega
    | inr hmem => exact Nat.lt_succ_of_lt (h.fresh sessionId sub hmem)
  · intro sessionId
    rw [hs']
    simp only [EventStreamHub.subscribe]
    by_cases hs : sessionId = c.sessionId
    · subst hs
      simp only [update_self, map_append, map_cons, map_nil]
      refine nodup_append.2 ⟨h.apart _, by simp, ?_⟩
      intro n hn m hm heq
      obtain ⟨sub, hmem, hsub⟩ := mem_map.1 hn
      have hlt := h.fresh _ sub hmem
      rw [mem_singleton] at hm
      omega
    · simp only [update_of_ne hs]
      exact h.apart sessionId
  · intro sessionId sub hmem other d hd heq
    cases hc other d hd with
    | inl hnew =>
      obtain ⟨-, rfl⟩ := hnew
      cases hsubscribed sessionId sub hmem with
      | inl hs => exact hs.1
      | inr hmem =>
        have hlt := h.fresh sessionId sub hmem
        omega
    | inr ho =>
      cases hsubscribed sessionId sub hmem with
      | inl hs =>
        have hlt := h.subscribed other d ho.2
        omega
      | inr hmem => exact h.owner sessionId sub hmem other d ho.2 heq
  · intro other d hd
    rw [hnext]
    cases hc other d hd with
    | inl hnew =>
      rw [hnew.2]
      omega
    | inr ho => exact Nat.lt_succ_of_lt (h.subscribed other d ho.2)
  · intro one two d d' hd hd' heq
    cases hc one d hd with
    | inl hnew =>
      cases hc two d' hd' with
      | inl hnew' => rw [hnew.1, hnew'.1]
      | inr ho =>
        have hlt := h.subscribed two d' ho.2
        rw [hnew.2] at heq
        omega
    | inr ho =>
      cases hc two d' hd' with
      | inl hnew' =>
        have hlt := h.subscribed one d ho.2
        rw [hnew'.2] at heq
        omega
      | inr ho' => exact h.own one two d d' ho.2 ho'.2 heq
  · intro other d hd
    cases hc other d hd with
    | inl hnew =>
      rw [hnew.2]
      omega
    | inr ho =>
      rw [hq other d ho.2]
      exact h.bound other d ho.2
  · intro other d hd before event htook
    cases hc other d hd with
    | inl hnew =>
      rw [hnew.2] at htook ⊢
      refine hlast before event ?_
      simpa [tookAll, EventQueue.took, hb] using htook
    | inr ho =>
      rw [tookAll, hq other d ho.2] at htook
      exact h.last other d ho.2 before event htook
  · intro other d hd
    rw [hids]
    cases hc other d hd with
    | inl hnew =>
      rw [hnew.2]
      exact hf
    | inr ho =>
      rw [sequence, hq other d ho.2]
      refine (h.follows other d ho.2).weaken ?_
      intro hlive
      obtain ⟨sub, hmem, heq⟩ := hlive
      cases hsubscribed d.sessionId sub hmem with
      | inl hs =>
        have hlt := h.subscribed other d ho.2
        omega
      | inr hmem => exact ⟨sub, hmem, heq⟩

variable {client : Nat} {sessionId : String} {l : PublishLedger} {window : List (String × Int)}

theorem Inv.connect (h : Inv s) {afterId : Option String}
    (hwith : s.Within (.connect client sessionId afterId now)) :
    Inv (s.step (.connect client sessionId afterId now)) := by
  rw [Stream.step]
  split
  · exact h
  · obtain ⟨ht, hput⟩ := h.subscribe_queue sessionId afterId now hwith
    refine h.subscribe client
      ⟨sessionId, afterId, [], s.hub.nextQueue, (s.accepted sessionId).length⟩ afterId rfl rfl
      ht ?_ ?_
    · intro before event he
      simp at he
    · have hlen : (s.accepted sessionId).length = (s.acceptedIds sessionId).length := by
        simp [acceptedIds]
      simp only [sequence, queue, nil_append, hput, hlen]
      refine Follows.join ?_
      cases afterId with
      | none => exact nil_sublist _
      | some id => exact resumeAfter_sublist id _

theorem Inv.reconnect (h : Inv s) (hwith : s.Within (.reconnect client now)) :
    Inv (s.step (.reconnect client now)) := by
  rw [Stream.step]
  split
  · exact h
  next c hc =>
    obtain ⟨id, hl, hfits, houts⟩ := hwith c hc
    obtain ⟨ht, hput⟩ := h.subscribe_queue c.sessionId c.lastId now
      (by
        intro id' hid'
        rw [hl, Option.some.injEq] at hid'
        rwa [← hid'])
    refine h.subscribe client
      { c with
        earlier := c.earlier ++ (s.queue c).took
        subscription := s.hub.nextQueue } c.lastId rfl rfl ht ?_ ?_
    · intro before event he
      exact h.last client c hc before event he
    · have hf := h.follows client c hc
      rw [sequence_eq, ids_append] at hf
      simp only [sequence, queue, ids_append, hput]
      rw [← ids_append, hl]
      change Follows _ _ (ids (s.tookAll c) ++ resumeAfter id (s.acceptedIds c.sessionId)) _
      rcases eq_nil_or_concat' (s.tookAll c) with hnone | ⟨before, event, htook⟩
      · rw [hnone] at hf ⊢
        exact hf.resume_outset (h.nodup c.sessionId) (houts hnone)
      · have hid := h.last client c hc before event htook
        rw [hl, Option.some.injEq] at hid
        rw [htook, ids_append, append_assoc] at hf ⊢
        rw [hid]
        exact hf.resume (h.nodup c.sessionId)

theorem took_succ {q : EventQueue} {rest : List StreamEvent} (h : q.waiting = event :: rest) :
    q.put.take (q.taken + 1) = q.took ++ [event] ∧ q.taken < q.put.length := by
  have hlt : q.taken < q.put.length := by
    by_contra hle
    rw [EventQueue.waiting, drop_eq_nil_of_le (by omega)] at h
    cases h
  refine ⟨?_, hlt⟩
  have hget : q.put[q.taken] = event := by
    rw [EventQueue.waiting, drop_eq_getElem_cons hlt] at h
    exact (cons.inj h).1
  rw [take_succ_eq_append_getElem hlt, hget, EventQueue.took]

theorem Inv.take (h : Inv s) (client : Nat) : Inv (s.step (.take client)) := by
  rw [Stream.step]
  split
  · exact h
  next c hc =>
    split
    · exact h
    next event rest hwait =>
      obtain ⟨htook, hlt⟩ := took_succ hwait
      -- a client of the next state is one of this state, but for what it took last
      have hclient : ∀ other d,
          update s.clients client (some { c with lastId := some event.id }) other =
            some d →
          (other = client ∧ d = { c with lastId := some event.id }) ∨
            (other ≠ client ∧ s.clients other = some d) := by
        intro other d hd
        rw [Function.update_apply, ite_eq_iff, Option.some.injEq] at hd
        exact hd.imp_left (And.imp_right Eq.symm)
      have hq : ∀ other d, other ≠ client → s.clients other = some d →
          d.subscription ≠ c.subscription := by
        intro other d ho hd heq
        exact ho (h.own other client d c hd hc heq)
      refine ⟨h.history, h.nodup, h.seen, h.fresh, h.apart, ?_, ?_, ?_, ?_, ?_, ?_⟩
      · intro sessionId sub hsub other d hd heq
        cases hclient other d hd with
        | inl hself =>
          rw [hself.2] at heq ⊢
          exact h.owner sessionId sub hsub client c hc heq
        | inr ho => exact h.owner sessionId sub hsub other d ho.2 heq
      · intro other d hd
        cases hclient other d hd with
        | inl hself =>
          rw [hself.2]
          exact h.subscribed client c hc
        | inr ho => exact h.subscribed other d ho.2
      · intro one two d d' hd hd' heq
        cases hclient one d hd with
        | inl hself =>
          cases hclient two d' hd' with
          | inl hself' => rw [hself.1, hself'.1]
          | inr ho' =>
            rw [hself.2] at heq
            exact absurd heq.symm (hq two d' ho'.1 ho'.2)
        | inr ho =>
          cases hclient two d' hd' with
          | inl hself' =>
            rw [hself'.2] at heq
            exact absurd heq (hq one d ho.1 ho.2)
          | inr ho' => exact h.own one two d d' ho.2 ho'.2 heq
      · intro other d hd
        cases hclient other d hd with
        | inl hself =>
          rw [hself.2]
          simp only [queue, update_self]
          exact hlt
        | inr ho =>
          simp only [queue, update_of_ne (hq other d ho.1 ho.2)]
          exact h.bound other d ho.2
      · intro other d hd before last ht
        cases hclient other d hd with
        | inl hself =>
          rw [hself.2] at ht ⊢
          simp only [tookAll, queue, update_self, EventQueue.took] at ht htook
          rw [htook, ← append_assoc] at ht
          have hlast := (append_inj' ht rfl).2
          rw [singleton_inj.1 hlast]
        | inr ho =>
          simp only [tookAll, queue, update_of_ne (hq other d ho.1 ho.2)] at ht
          exact h.last other d ho.2 before last ht
      · intro other d hd
        cases hclient other d hd with
        | inl hself =>
          have hf := h.follows client c hc
          rw [hself.2]
          simp only [sequence, queue, update_self]
          exact hf
        | inr ho =>
          have hf := h.follows other d ho.2
          simp only [sequence, queue, update_of_ne (hq other d ho.1 ho.2)]
          exact hf

-- ==== a publish

theorem subscribers_publish (hub : EventStreamHub) (event : StreamEvent) (sessionId : String) :
    ((hub.publish event now).subscribers sessionId).map Subscriber.queue =
      (hub.subscribers sessionId).map Subscriber.queue := by
  rw [EventStreamHub.publish]
  split
  · rfl
  · split
    · rfl
    · by_cases hs : sessionId = event.sessionId
      · subst hs
        simp [Function.comp_def]
      · simp [update_of_ne hs]

theorem nextQueue_publish (hub : EventStreamHub) (event : StreamEvent) :
    (hub.publish event now).nextQueue = hub.nextQueue := by
  rw [EventStreamHub.publish]
  split
  · rfl
  · split <;> rfl

theorem seen_recordHistory (l : PublishLedger) (event : StreamEvent) :
    (l.recordHistory event).seen = l.seen ∧
      (l.recordHistory event).dedupTtlSeconds = l.dedupTtlSeconds := by
  rw [PublishLedger.recordHistory]
  split <;> exact ⟨rfl, rfl⟩

theorem history_evictExpired (l : PublishLedger) (event : StreamEvent) :
    (l.evictExpired event now).history = l.history := by
  rw [PublishLedger.evictExpired]
  split <;> rfl

theorem isDuplicate_recordHistory (l : PublishLedger) (event : StreamEvent) :
    (l.recordHistory event).isDuplicate event now = l.isDuplicate event now := by
  obtain ⟨hseen, httl⟩ := seen_recordHistory l event
  simp only [PublishLedger.isDuplicate, PublishLedger.unexpired, hseen, httl]

theorem history_publish (hub : EventStreamHub) (event : StreamEvent) :
    (hub.publish event now).ledger.history = (hub.ledger.recordHistory event).history := by
  rw [EventStreamHub.publish]
  split
  · rfl
  · split
    · exact history_evictExpired _ event
    · exact history_evictExpired _ event

/-- The publish reaches the queues. -/
def FansOut (hub : EventStreamHub) (event : StreamEvent) (now : Int) : Prop :=
  hub.subscribers event.sessionId ≠ [] ∧ hub.ledger.isDuplicate event now = false

instance (hub : EventStreamHub) (event : StreamEvent) (now : Int) :
    Decidable (FansOut hub event now) := by
  unfold FansOut
  infer_instance

theorem queues_publish (hub : EventStreamHub) (event : StreamEvent) :
    (hub.publish event now).queues =
      if FansOut hub event now then
        EventStreamHub.fanOut hub.queues (hub.subscribers event.sessionId) event
      else hub.queues := by
  rw [EventStreamHub.publish, isDuplicate_recordHistory]
  split
  next hnone =>
    rw [if_neg]
    exact fun hfans => hfans.1 hnone
  next hsome =>
    split
    next hd =>
      rw [if_neg]
      intro hfans
      simp [hfans.2] at hd
    next hd =>
      rw [if_pos]
      exact ⟨hsome, by simpa using hd⟩

theorem mem_unexpired (h : entry ∈ l.unexpired window now) : entry ∈ window := by
  rw [PublishLedger.unexpired] at h
  split at h
  · exact (dropWhile_sublist _).subset h
  · exact h

theorem seen_evictExpired (h : (l.evictExpired event now).seen sessionId = some window) :
    ∃ old, l.seen sessionId = some old ∧ ∀ entry ∈ window, entry ∈ old := by
  rw [PublishLedger.evictExpired] at h
  split at h
  · exact ⟨window, h, fun _ he => he⟩
  next old hold =>
    by_cases hs : sessionId = event.sessionId
    · subst hs
      simp only [update_self] at h
      split at h
      · cases h
      · rw [Option.some.injEq] at h
        refine ⟨old, hold, ?_⟩
        intro entry he
        rw [← h] at he
        exact mem_unexpired he
    · simp only [update_of_ne hs] at h
      exact ⟨window, h, fun _ he => he⟩

theorem mem_stamped (h : entry ∈ PublishLedger.stamped window id now) :
    entry.1 = id ∨ entry ∈ window := by
  rw [PublishLedger.stamped] at h
  split at h
  · obtain ⟨old, hold, heq⟩ := mem_map.1 h
    split at heq
    · left
      rw [← heq]
    · right
      rwa [← heq]
  · rw [mem_append, mem_singleton] at h
    cases h with
    | inl hold => exact .inr hold
    | inr hnew =>
      left
      rw [hnew]

theorem seen_recordPublished (h : (l.recordPublished event now).seen sessionId = some window) :
    ∀ entry ∈ window, (sessionId = event.sessionId ∧ entry.1 = event.id) ∨
      ∃ old, l.seen sessionId = some old ∧ entry ∈ old := by
  intro entry he
  simp only [PublishLedger.recordPublished] at h
  by_cases hs : sessionId = event.sessionId
  · subst hs
    simp only [update_self, Option.some.injEq] at h
    rw [← h] at he
    cases mem_stamped (mem_of_mem_drop he) with
    | inl hid => exact .inl ⟨rfl, hid⟩
    | inr hold =>
      right
      cases hseen : l.seen event.sessionId with
      | none => simp [hseen] at hold
      | some old =>
        rw [hseen] at hold
        exact ⟨old, rfl, hold⟩
  · simp only [update_of_ne hs] at h
    exact .inr ⟨window, h, he⟩

theorem seen_publish {hub : EventStreamHub}
    (h : (hub.publish event now).ledger.seen sessionId = some window) :
    ∀ entry ∈ window, (sessionId = event.sessionId ∧ entry.1 = event.id) ∨
      ∃ old, hub.ledger.seen sessionId = some old ∧ entry ∈ old := by
  obtain ⟨hseen, -⟩ := seen_recordHistory hub.ledger event
  intro entry he
  rw [EventStreamHub.publish] at h
  split at h
  · by_cases hs : sessionId = event.sessionId
    · subst hs
      simp [PublishLedger.forgetSession] at h
    · simp only [PublishLedger.forgetSession, update_of_ne hs, hseen] at h
      exact .inr ⟨window, h, he⟩
  · split at h
    · obtain ⟨old, hold, hsub⟩ := seen_evictExpired h
      rw [hseen] at hold
      exact .inr ⟨old, hold, hsub entry he⟩
    · cases seen_recordPublished h entry he with
      | inl hnew => exact .inl hnew
      | inr hkept =>
        obtain ⟨kept, hkept, hmem⟩ := hkept
        obtain ⟨old, hold, hsub⟩ := seen_evictExpired hkept
        rw [hseen] at hold
        exact .inr ⟨old, hold, hsub entry hmem⟩

theorem acceptedIds_publish (s : Stream) (event : StreamEvent) (now : Int) (sessionId : String) :
    (s.step (.publish event now)).acceptedIds sessionId =
      if sessionId = event.sessionId ∧ event.id ∉ s.acceptedIds sessionId then
        s.acceptedIds sessionId ++ [event.id]
      else s.acceptedIds sessionId := by
  have hstep : (s.step (.publish event now)).acceptedIds sessionId =
      (s.accept event now sessionId).map Prod.fst := rfl
  rw [hstep, accept]
  by_cases hk : event.id ∈ s.acceptedIds event.sessionId
  · rw [if_pos hk, if_neg]
    · rfl
    · intro hnew
      exact hnew.2 (hnew.1 ▸ hk)
  · rw [if_neg hk]
    by_cases hs : sessionId = event.sessionId
    · subst hs
      rw [if_pos ⟨rfl, hk⟩, update_self, map_append]
      rfl
    · rw [if_neg (fun hnew => hs hnew.1), update_of_ne hs]
      rfl

theorem Inv.queue_publish (h : Inv s) (hc : s.clients client = some c)
    (hroom : ∀ sub ∈ s.hub.subscribers event.sessionId, (s.hub.queues sub.queue).full = false) :
    (s.step (.publish event now)).queue c =
      if FansOut s.hub event now ∧ c.sessionId = event.sessionId ∧ s.Live c then
        { s.queue c with put := (s.queue c).put ++ [event] }
      else s.queue c := by
  have hlive : c.subscription ∈ (s.hub.subscribers event.sessionId).map Subscriber.queue ↔
      c.sessionId = event.sessionId ∧ s.Live c := by
    rw [mem_map]
    constructor
    · intro hmem
      obtain ⟨sub, hsub, heq⟩ := hmem
      have hs := h.owner _ sub hsub client c hc heq
      refine ⟨hs.symm, sub, ?_, heq⟩
      rwa [← hs]
    · intro hboth
      obtain ⟨hs, sub, hsub, heq⟩ := hboth
      rw [hs] at hsub
      exact ⟨sub, hsub, heq⟩
  simp only [Stream.step, queue, queues_publish]
  by_cases hfans : FansOut s.hub event now
  · rw [if_pos hfans, fanOut_put _ _ event (h.apart _) hroom]
    by_cases hmem : c.sessionId = event.sessionId ∧ s.Live c
    · rw [if_pos (hlive.2 hmem), if_pos ⟨hfans, hmem⟩]
    · rw [if_neg (fun hin => hmem (hlive.1 hin)), if_neg (fun hall => hmem hall.2)]
  · rw [if_neg hfans, if_neg (fun hall => hfans hall.1)]

theorem live_publish (s : Stream) (event : StreamEvent) (now : Int) (c : Client) :
    (s.step (.publish event now)).Live c ↔ s.Live c := by
  have hmap : ∀ subs : List Subscriber, (∃ sub ∈ subs, sub.queue = c.subscription) ↔
      c.subscription ∈ subs.map Subscriber.queue := by
    intro subs
    rw [mem_map]
  rw [Live, Live, hmap, hmap]
  simp only [Stream.step, subscribers_publish]

theorem mem_before {P S : List String} {y : String} (hP : id ∉ P)
    (h : (P ++ id :: S).idxOf y < (P ++ id :: S).idxOf id) : y ∈ P := by
  by_contra hy
  rw [idxOf_append_of_notMem hP, idxOf_cons_self, idxOf_append_of_notMem hy] at h
  omega

theorem Inv.publish (h : Inv s) (hwith : s.Within (.publish event now))
    (ha : s.Answered (.publish event now)) : Inv (s.step (.publish event now)) := by
  obtain ⟨hret, hroom, -⟩ := hwith
  have hsubscribed : ∀ sessionId, ((s.step (.publish event now)).hub.subscribers sessionId).map
      Subscriber.queue = (s.hub.subscribers sessionId).map Subscriber.queue :=
    subscribers_publish s.hub event
  have hback : ∀ sessionId, ∀ sub ∈ (s.step (.publish event now)).hub.subscribers sessionId,
      ∃ old ∈ s.hub.subscribers sessionId, old.queue = sub.queue := by
    intro sessionId sub hsub
    have hmem := mem_map_of_mem (f := Subscriber.queue) hsub
    rw [hsubscribed] at hmem
    exact mem_map.1 hmem
  have hnext : (s.step (.publish event now)).hub.nextQueue = s.hub.nextQueue :=
    nextQueue_publish s.hub event
  have hids := acceptedIds_publish s event now
  have htook : ∀ client c, s.clients client = some c →
      (s.step (.publish event now)).tookAll c = s.tookAll c := by
    intro client c hc
    rw [tookAll, h.queue_publish hc hroom, tookAll]
    split
    · simp only [EventQueue.took]
      rw [take_append_of_le_length (h.bound client c hc)]
    · rfl
  refine ⟨?_, ?_, ?_, ?_, ?_, ?_, ?_, h.own, ?_, ?_, ?_⟩
  · intro sessionId
    rw [hids]
    simp only [Stream.step, history_publish]
    rw [history_recordHistory s.hub.ledger hret, h.history]
    by_cases hs : sessionId = event.sessionId
    · by_cases hk : event.id ∈ s.acceptedIds sessionId
      · rw [if_pos hs, if_pos hk, if_neg (fun hnew => hnew.2 hk)]
      · rw [if_pos hs, if_neg hk, if_pos ⟨hs, hk⟩]
    · rw [if_neg hs, if_neg (fun hnew => hs hnew.1)]
  · intro sessionId
    rw [hids]
    split
    next hnew =>
      refine nodup_append.2 ⟨h.nodup sessionId, by simp, ?_⟩
      intro one hone two htwo heq
      rw [mem_singleton] at htwo
      exact hnew.2 (by rwa [← htwo, ← heq])
    next => exact h.nodup sessionId
  · intro sessionId window hwin entry he
    rw [hids]
    cases seen_publish hwin entry he with
    | inl hself =>
      rw [hself.2]
      by_cases hk : event.id ∈ s.acceptedIds sessionId
      · rwa [if_neg (fun hnew => hnew.2 hk)]
      · rw [if_pos ⟨hself.1, hk⟩]
        simp
    | inr hkept =>
      obtain ⟨old, hold, hmem⟩ := hkept
      have hin := h.seen sessionId old hold entry hmem
      split
      · exact mem_append_left _ hin
      · exact hin
  · intro sessionId sub hsub
    obtain ⟨old, hold, heq⟩ := hback sessionId sub hsub
    rw [hnext, ← heq]
    exact h.fresh sessionId old hold
  · intro sessionId
    rw [hsubscribed]
    exact h.apart sessionId
  · intro sessionId sub hsub client c hc heq
    obtain ⟨old, hold, hq⟩ := hback sessionId sub hsub
    exact h.owner sessionId old hold client c hc (hq.trans heq)
  · intro client c hc
    rw [hnext]
    exact h.subscribed client c hc
  · intro client c hc
    have hbound := h.bound client c hc
    rw [h.queue_publish hc hroom]
    split
    · simp only [length_append]
      omega
    · exact hbound
  · intro client c hc before last hlast
    rw [htook client c hc] at hlast
    exact h.last client c hc before last hlast
  · intro client c hc
    have hf := h.follows client c hc
    have hlive := live_publish s event now c
    refine Follows.weaken ?_ hlive.1
    rw [hids, sequence, h.queue_publish hc hroom]
    by_cases hs : c.sessionId = event.sessionId
    · by_cases hk : event.id ∈ s.acceptedIds c.sessionId
      · rw [if_neg (fun hnew => hnew.2 hk)]
        split
        next hall =>
          obtain ⟨hfans, -, hlive⟩ := hall
          rw [← append_assoc, ids_append]
          have hb := ha (hs ▸ hk) hfans.1 hfans.2 client c hc hs hlive
          rw [← hs] at hb
          obtain ⟨P, S, hsplit, hP⟩ := eq_append_cons_of_mem hk
          have hn := h.nodup c.sessionId
          rw [hsplit] at hf hb hn ⊢
          refine hf.late hn hlive ?_
          intro y hy
          exact mem_before hP (hb y hy)
        next => exact hf
      · rw [if_pos ⟨hs, hk⟩]
        by_cases hlive : s.Live c
        · have hfans : FansOut s.hub event now := by
            refine ⟨?_, ?_⟩
            · intro hnone
              obtain ⟨sub, hsub, -⟩ := hlive
              simp [hs, hnone] at hsub
            · -- a window names only accepted ids
              rw [PublishLedger.isDuplicate]
              cases hseen : s.hub.ledger.seen event.sessionId with
              | none => rfl
              | some window =>
                simp only [any_eq_false, decide_eq_true_eq]
                intro entry he hid
                have hin := h.seen _ window hseen entry (mem_unexpired he)
                rw [hid, ← hs] at hin
                exact hk hin
          rw [if_pos ⟨hfans, hs, hlive⟩, ← append_assoc, ids_append]
          exact hf.given hlive event.id
        · rw [if_neg (fun hall => hlive hall.2.2)]
          exact hf.missed hlive event.id
    · rw [if_neg (fun hnew => hs hnew.1), if_neg (fun hall => hs hall.2.1)]
      exact hf

/-- STEP LEMMA: the invariant survives every answered step. -/
theorem Inv.step (h : Inv s) (hwith : s.Within input) (ha : s.Answered input) :
    Inv (s.step input) := by
  cases input with
  | connect client sessionId afterId now => exact h.connect hwith
  | reconnect client now => exact h.reconnect hwith
  | take client => exact h.take client
  | unsubscribe sessionId queue => exact h.unsubscribe sessionId queue
  | publish event now => exact h.publish hwith ha
  | prune now idleTtlSeconds => exact h.prune now idleTtlSeconds

-- ==== the whole stream

/-- The converse: a step that delivers was answered. -/
theorem Inv.answered (h : Inv s) (hwith : s.Within input) (hd : (s.step input).Delivered) :
    s.Answered input := by
  cases input with
  | publish event now =>
    intro hk hsome hf client c hc hs hlive id hid
    obtain ⟨-, hroom, -⟩ := hwith
    have hord := hd.ordered client c hc
    rw [acceptedIds_publish, sequence, h.queue_publish hc hroom,
      if_pos ⟨⟨hsome, hf⟩, hs, hlive⟩, hs, if_neg (fun hnew => hnew.2 hk),
      ← append_assoc, ids_append] at hord
    obtain ⟨P, S, hsplit, hP⟩ := eq_append_cons_of_mem hk
    have hn := h.nodup event.sessionId
    rw [hsplit] at hord hn ⊢
    have hin := (sublist_before hn hord).subset hid
    rw [idxOf_append_of_mem hin, idxOf_append_of_notMem hP]
    have hlt := idxOf_lt_length_of_mem hin
    omega
  | _ => trivial

theorem Inv.delivered_iff (h : Inv s) {inputs : List Input}
    (hwith : Run.Throughout Stream.step Within s inputs) :
    (∀ v ∈ Run.states Stream.step s inputs, v.Delivered) ↔
      Run.Throughout Stream.step Answered s inputs := by
  induction inputs generalizing s with
  | nil =>
    constructor
    · intro _
      trivial
    · intro _ v hv
      rw [mem_singleton.1 hv]
      exact h.delivered
  | cons input rest ih =>
    rw [Run.states, forall_mem_cons]
    constructor
    · intro hall
      have hnext : (s.step input).Delivered := hall.2 _
        ((Run.mem_states_iff _ _ _ _).2 ⟨[], rest, rfl, rfl⟩)
      have ha := h.answered hwith.1 hnext
      exact ⟨ha, (ih (h.step hwith.1 ha) hwith.2).1 hall.2⟩
    · intro ha
      exact ⟨h.delivered, (ih (h.step hwith.1 ha.1) hwith.2).2 ha.2⟩

/-- DELIVERY: where nothing is evicted or overflows, a run gives every client what it is owed
throughout exactly if every retry in it is answered. -/
theorem delivered_iff_answered (maxSessions perSession maxEntries maxsize : Nat) (ttl : Int)
    (inputs : List Input)
    (hwithin : Run.Throughout Stream.step Within
      (new maxSessions perSession maxEntries maxsize ttl) inputs) :
    (∀ v ∈ Run.states Stream.step (new maxSessions perSession maxEntries maxsize ttl) inputs,
        v.Delivered) ↔
      Run.Throughout Stream.step Answered
        (new maxSessions perSession maxEntries maxsize ttl) inputs :=
  (new_inv maxSessions perSession maxEntries maxsize ttl).delivered_iff hwithin

def runStarted : StreamEvent := ⟨"evt-1", "session"⟩

def runEnded : StreamEvent := ⟨"evt-2", "session"⟩

/-- The first event is retried at once, and the second is published while the client is away. -/
def goneAndBack : List Input :=
  [.connect 0 "session" none 0, .publish runStarted 0, .publish runStarted 0, .take 0,
    .unsubscribe "session" 0, .publish runEnded 1, .reconnect 0 1]

theorem goneAndBack_within : Run.Throughout Stream.step Within (new 8 8 8 8 60) goneAndBack := by
  refine ⟨?_, ⟨?_, ?_, ?_⟩, ⟨Or.inl (by decide), ?_, ?_⟩, trivial, trivial,
    ⟨Or.inr (by decide), ?_, ?_⟩, ?_, trivial⟩
  · intro id hid
    cases hid
  · exact And.intro rfl (by decide)
  · intro sub hsub
    cases mem_singleton.1 hsub
    rfl
  · intro entry he
    cases he
  · intro sub hsub
    cases mem_singleton.1 hsub
    rfl
  · intro entry hentry _ _
    cases mem_singleton.1 hentry
    decide
  · intro sub hsub
    cases hsub
  · intro entry hentry hid
    cases mem_singleton.1 hentry
    exact absurd hid (by decide)
  · intro c hc
    have hcli : c = ⟨"session", some "evt-1", [], 0, 0⟩ := (Option.some.inj hc).symm
    rw [hcli]
    refine ⟨"evt-1", rfl, ?_, ?_⟩
    · exact (by decide : (1 : Nat) ≤ 8)
    · intro hnone
      cases hnone

theorem delivered_goneAndBack :
    (∀ v ∈ Run.states Stream.step (new 8 8 8 8 60) goneAndBack, v.Delivered) ∧
      ((Run.final Stream.step (new 8 8 8 8 60) goneAndBack).clients 0).map
        (ids ∘ (Run.final Stream.step (new 8 8 8 8 60) goneAndBack).sequence) =
          some ["evt-1", "evt-2"] := by
  refine ⟨(delivered_iff_answered 8 8 8 8 60 goneAndBack goneAndBack_within).2 ?_, rfl⟩
  refine ⟨trivial, ?_, ?_, trivial, trivial, ?_, trivial, trivial⟩
  · intro hknown
    cases hknown
  · intro _ _ hnew
    cases hnew
  · intro hknown
    exact absurd hknown (by decide)

/-- A retry within the TTL: the client is given the event it had taken once more. -/
theorem retry_given_twice :
    ¬ ∀ maxSessions perSession maxEntries maxsize : Nat, ∀ ttl : Int, ∀ inputs : List Input,
      Run.Throughout Stream.step Within (new maxSessions perSession maxEntries maxsize ttl) inputs →
        ∀ v ∈ Run.states Stream.step (new maxSessions perSession maxEntries maxsize ttl) inputs,
          v.Delivered := by
  intro h
  have hwithin : Run.Throughout Stream.step Within (new 8 8 8 8 60)
      (goneAndBack ++ [.publish runStarted 2]) := by
    refine Run.throughout_concat goneAndBack_within ⟨⟨Or.inl (by decide), ?_, ?_⟩, trivial⟩
    · intro sub hsub
      cases mem_singleton.1 hsub
      rfl
    · intro entry hentry _ _
      obtain rfl | hin := mem_cons.1 (show entry ∈ [("evt-1", 0), ("evt-2", 1)] from hentry)
      · decide
      · cases mem_singleton.1 hin
        decide
  have hdelivered := h 8 8 8 8 60 _ hwithin _
    ((Run.mem_states_iff _ _ _ _).2 ⟨_, [], (append_nil _).symm, rfl⟩)
  have honce := hdelivered.once 0 ⟨"session", some "evt-1", [runStarted], 1, 0⟩ rfl
  exact absurd honce (by decide)

end Stream

end Synthorg.EventStream
