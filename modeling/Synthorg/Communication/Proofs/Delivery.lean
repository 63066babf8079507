/-
No message is lost or repeated.

# Up to the queue

What a pair was offered is on the books (`Books`): the publications it was eligible for, by
number, over every queue it ever had. What became of an offer is the law of the single queue
(`Fifo`).

# From the queue

An envelope off a queue is in the hands of one call, until the call returns it (`Calls`). One
event breaks this: the cancellation of a call whose `get` task has completed throws the envelope
away (`cancelled_call_loses`).
-/
import Mathlib.Data.List.Flatten
import Synthorg.Communication.MemoryBus

namespace Synthorg.Communication

open Lib
open Function (update update_self update_of_ne)
open List

section

variable {Body : Type} {s : State Body}

-- ==== whose queue it is

/-- Queues are numbered as they are made, and each is made for one pair. -/
structure Queues (s : State Body) : Prop where
  current : ∀ pair queue, s.queues pair = some queue →
    ∃ earlier, s.owned pair = earlier ++ [queue]
  made : ∀ pair, ∀ queue ∈ s.owned pair, queue < s.queuesMade
  apart : ∀ pair pair' queue, queue ∈ s.owned pair → queue ∈ s.owned pair' → pair = pair'
  ownedOnce : ∀ pair, (s.owned pair).Nodup

/-- Over all the queues a pair ever had. -/
def offeredTo (s : State Body) (pair : Pair) : List (Envelope Body) :=
  (s.owned pair).flatMap fun queue => (s.fifos queue).offered.map Prod.fst

theorem Queues.congr {s s' : State Body} (h : Queues s) (howned : s'.owned = s.owned)
    (hmade : s'.queuesMade = s.queuesMade)
    (hq : ∀ pair queue, s'.queues pair = some queue → s.queues pair = some queue) :
    Queues s' where
  current pair queue hqueues := by
    rw [howned]
    exact h.current pair queue (hq pair queue hqueues)
  made := by
    rw [howned, hmade]
    exact h.made
  apart := by
    rw [howned]
    exact h.apart
  ownedOnce := by
    rw [howned]
    exact h.ownedOnce

/-- The pair has this queue, and what was offered is what it was. -/
structure Ensured (s s' : State Body) (pair : Pair) (queue : QueueId) : Prop where
  queues : Queues s'
  current : s'.queues pair = some queue
  offered : ∀ p, offeredTo s' p = offeredTo s p
  published : s'.published = s.published
  known : s'.knownAgents = s.knownAgents

theorem ensured (h : Queues s) (pair : Pair) :
    Ensured s (ensureQueue s pair).1 pair (ensureQueue s pair).2 := by
  rw [ensureQueue]
  split
  next queue hqueues => exact ⟨h, hqueues, fun _ => rfl, rfl, rfl⟩
  next hnone =>
    have hf : ∀ p, s.queuesMade ∉ s.owned p := fun p hmem =>
      Nat.lt_irrefl _ (h.made p _ hmem)
    have hsame : ∀ p, p ≠ pair → update s.owned pair (s.owned pair ++ [s.queuesMade]) p =
        s.owned p := fun p hp => update_of_ne hp _ _
    have hmem : ∀ p q, q ∈ update s.owned pair (s.owned pair ++ [s.queuesMade]) p →
        q ∈ s.owned p ∨ (q = s.queuesMade ∧ p = pair) := by
      intro p q hq
      by_cases hp : p = pair
      · rw [hp, update_self, mem_append, mem_singleton] at hq
        exact hq.imp (fun hq => hp ▸ hq) fun hq => ⟨hq, hp⟩
      · rw [hsame p hp] at hq
        exact .inl hq
    exact
      { queues :=
          { current := fun p q hq => by
              replace hq : update s.queues pair (some s.queuesMade) p = some q := hq
              by_cases hp : p = pair
              · rw [hp, update_self, Option.some.injEq] at hq
                refine ⟨s.owned pair, ?_⟩
                show update s.owned pair _ p = _
                rw [hp, update_self, hq]
              · rw [update_of_ne hp] at hq
                obtain ⟨earlier, he⟩ := h.current p q hq
                exact ⟨earlier, (hsame p hp).trans he⟩
            made := fun p q hq => by
              rcases hmem p q hq with hq | ⟨hq, -⟩
              · exact Nat.lt_succ_of_lt (h.made p q hq)
              · exact hq ▸ Nat.lt_succ_self _
            apart := fun p p' q hq hq' => by
              rcases hmem p q hq with hq | ⟨hq, hp⟩ <;> rcases hmem p' q hq' with hq' | ⟨hq', hp'⟩
              · exact h.apart p p' q hq hq'
              · exact absurd (hq' ▸ hq) (hf p)
              · exact absurd (hq ▸ hq') (hf p')
              · rw [hp, hp']
            ownedOnce := fun p => by
              show (update s.owned pair _ p).Nodup
              by_cases hp : p = pair
              · rw [hp, update_self, nodup_append_comm, singleton_append, nodup_cons]
                exact ⟨hf pair, h.ownedOnce pair⟩
              · rw [hsame p hp]
                exact h.ownedOnce p }
        current := update_self _ _ _
        offered := fun p => by
          have hold : ∀ q ∈ s.owned p, update s.fifos s.queuesMade Fifo.empty q =
              s.fifos q := fun q hq =>
            update_of_ne (fun heq : q = s.queuesMade => hf p (heq ▸ hq)) _ _
          unfold offeredTo
          by_cases hp : p = pair
          · rw [hp] at hold ⊢
            simp only [update_self, flatMap_append, flatMap_cons,
              flatMap_nil, Fifo.offered_empty, map_nil, append_nil]
            exact flatMap_congr fun q hq => by rw [hold q hq]
          · simp only [hsame p hp]
            exact flatMap_congr fun q hq => by rw [hold q hq]
        published := rfl
        known := rfl }

-- ==== an envelope goes out

/-- One envelope more for each of the pairs. -/
structure Sent (s s' : State Body) (envelope : Envelope Body) (pairs : List Pair) : Prop where
  queues : Queues s'
  offered : ∀ p, offeredTo s' p = offeredTo s p ++ (if p ∈ pairs then [envelope] else [])
  published : s'.published = s.published
  known : s'.knownAgents = s.knownAgents

theorem sent_enqueueOrDrop {config : Config} (h : Queues s) (envelope : Envelope Body)
    (pair : Pair) : Sent s (enqueueOrDrop config s envelope pair) envelope [pair] := by
  have he := ensured h pair
  rw [enqueueOrDrop]
  generalize ensureQueue s pair = made at he
  obtain ⟨s₁, queue⟩ := made
  obtain ⟨earlier, hearlier⟩ := he.queues.current pair queue he.current
  have hlast : queue ∉ earlier := by
    have hn := he.queues.ownedOnce pair
    rw [hearlier, nodup_append_comm, singleton_append, nodup_cons] at hn
    exact hn.1
  exact
    { queues := he.queues.congr rfl rfl fun _ _ => id
      offered := fun p => by
        rw [← he.offered]
        unfold offeredTo
        dsimp only
        by_cases hp : p = pair
        · rw [hp, hearlier]
          have hold : (earlier.flatMap fun q => (update s₁.fifos queue
              ((s₁.fifos queue).offer config.maxSubscriberQueueSize envelope) q).offered.map
                Prod.fst) = earlier.flatMap fun q => (s₁.fifos q).offered.map Prod.fst := by
            refine flatMap_congr fun q hq => ?_
            rw [update_of_ne fun heq : q = queue => hlast (heq ▸ hq)]
          simp [hold, Fifo.map_offered_offer]
        · have ho : ∀ q ∈ s₁.owned p, q ≠ queue := by
            intro q hq heq
            refine hp (he.queues.apart p pair q hq ?_)
            rw [hearlier, heq]
            simp
          rw [if_neg (by simpa using hp), append_nil]
          refine flatMap_congr fun q hq => ?_
          rw [update_of_ne (ho q hq)]
      published := he.published
      known := he.known }

/-- THE LOOP OF A PUBLICATION: distinct subscribers get one envelope each. -/
theorem sent_foldl {config : Config} (h : Queues s) (envelope : Envelope Body)
    (channelName : String) {targets : List String} (hn : targets.Nodup) :
    Sent s (targets.foldl (fun s subscriber =>
      enqueueOrDrop config s envelope (channelName, subscriber)) s) envelope
      (targets.map fun subscriber => (channelName, subscriber)) := by
  induction targets generalizing s with
  | nil => exact ⟨h, by simp, rfl, rfl⟩
  | cons subscriber targets ih =>
    rw [nodup_cons] at hn
    have hone : Sent s (enqueueOrDrop config s envelope (channelName, subscriber)) envelope
        [(channelName, subscriber)] := sent_enqueueOrDrop h envelope (channelName, subscriber)
    have hrest := ih hone.queues hn.2
    exact
      { queues := hrest.queues
        offered := fun p => by
          rw [foldl_cons, hrest.offered, hone.offered]
          by_cases hp : p = (channelName, subscriber)
          · simp [hp, hn.1]
          · simp [hp]
        published := hrest.published.trans hone.published
        known := hrest.known.trans hone.known }

/-- THE BOOKS: what was offered to a pair is what was published for it, by number. -/
structure Books (s : State Body) : Prop where
  queues : Queues s
  numbered : s.published.map (fun p => p.envelope.number) = List.range s.published.length
  offered : ∀ pair, offeredTo s pair = eligible s pair
  known : s.knownAgents.Nodup

namespace Books

variable {s : State Body}

section
variable (h : Books s)
include h

theorem congr {s' : State Body} (hq : Queues s')
    (hoff : ∀ pair, offeredTo s' pair = offeredTo s pair)
    (hp : s'.published = s.published) (hk : s'.knownAgents.Nodup) : Books s' where
  queues := hq
  numbered := by
    rw [hp]
    exact h.numbered
  offered pair := by
    rw [hoff, h.offered]
    unfold eligible
    rw [hp]
  known := hk

theorem ensureQueue (pair : Pair) : Books (ensureQueue s pair).1 :=
  have he := ensured h.queues pair
  h.congr he.queues he.offered he.published (he.known ▸ h.known)

theorem know (agent : String) : Books (know s agent) := by
  rw [Communication.know]
  split
  next => exact h
  next hnew =>
    refine h.congr (h.queues.congr rfl rfl fun _ _ => id) (fun _ => rfl) rfl ?_
    show (s.knownAgents ++ [agent]).Nodup
    rw [nodup_append_comm, singleton_append, nodup_cons]
    exact ⟨hnew, h.known⟩

theorem deliver {config : Config} (channelName : String)
    (message : Message Body) {targets : List String} (hn : targets.Nodup) :
    Books (deliver config s channelName message targets) := by
  rw [Communication.deliver]
  generalize henv : (⟨s.published.length, channelName, message⟩ : Envelope Body) = envelope
  let s₁ : State Body := { s with published := s.published ++ [⟨envelope, targets⟩] }
  have hq : Queues s₁ := h.queues.congr rfl rfl fun _ _ => id
  have hsent : Sent s₁ (targets.foldl (fun s subscriber =>
      enqueueOrDrop config s envelope (channelName, subscriber)) s₁) envelope
      (targets.map fun subscriber => (channelName, subscriber)) :=
    sent_foldl hq envelope channelName hn
  exact
    { queues := hsent.queues
      numbered := by
        rw [hsent.published]
        show (s.published ++ [_]).map _ = List.range (s.published ++ [_]).length
        rw [map_append, h.numbered, length_append, length_singleton,
          range_succ, map_singleton, ← henv]
      offered := fun pair => by
        rw [hsent.offered]
        have he : eligible (targets.foldl (fun s subscriber =>
            enqueueOrDrop config s envelope (channelName, subscriber)) s₁) pair =
              eligible s pair ++
                (if channelName = pair.1 ∧ pair.2 ∈ targets then [envelope] else []) := by
          unfold eligible
          rw [hsent.published]
          have hname : envelope.channelName = channelName := by rw [← henv]
          by_cases hm : channelName = pair.1 ∧ pair.2 ∈ targets
          · simp [s₁, hname, hm]
          · simp [s₁, hname, hm]
        rw [he]
        show offeredTo s pair ++ _ = _
        rw [h.offered]
        congr 1
        obtain ⟨name, subscriber⟩ := pair
        simp [and_comm]
      known := by
        rw [hsent.known]
        exact h.known }

theorem same {s' : State Body} (howned : s'.owned = s.owned)
    (hmade : s'.queuesMade = s.queuesMade) (hf : s'.fifos = s.fifos)
    (hq : ∀ pair queue, s'.queues pair = some queue → s.queues pair = some queue)
    (hp : s'.published = s.published) (hk : s'.knownAgents.Nodup) : Books s' :=
  h.congr (h.queues.congr howned hmade hq)
    (fun _ => by unfold offeredTo; rw [howned, hf]) hp hk

theorem publish (config : Config) (message : Message Body) : Books (publish config s message) := by
  rw [Communication.publish]
  split
  next =>
    split
    next => exact h
    next channel _ =>
      refine h.deliver _ message ?_
      split
      next => exact h.known
      next => exact nodup_dedup _
  next => exact h

theorem ensureDirectChannel (channelName : String) (pair : List String) :
    Books (ensureDirectChannel s channelName pair) := by
  have hk : ∀ (agents : List String) {s : State Body}, Books s → Books (agents.foldl
      (fun s agent => (Communication.ensureQueue (Communication.know s agent)
        (channelName, agent)).1) s) := by
    intro agents
    induction agents with
    | nil => exact fun h => h
    | cons agent agents ih => exact fun h => ih ((h.know agent).ensureQueue _)
  have hpair := hk pair h
  rw [Communication.ensureDirectChannel]
  split
  next => exact hpair.same rfl rfl rfl (fun _ _ => id) rfl hpair.known
  next =>
    split
    next => exact hpair
    next => exact hpair.same rfl rfl rfl (fun _ _ => id) rfl hpair.known

theorem sendDirect (config : Config) (message : Message Body)
    (recipient : String) (ha : message.sender = recipient →
      s.channels (directChannel message.sender recipient) = none) :
    Books (sendDirect config s message recipient) := by
  rw [Communication.sendDirect]
  generalize hpair : directPair message.sender recipient = pair
  obtain ⟨first, second⟩ := pair
  dsimp only
  split
  next => exact h
  next =>
    split
    next => exact h
    next =>
      split
      next => exact h
      next =>
        split
        next => exact h
        next =>
          split
          next => exact h
          next hchan =>
            refine (h.ensureDirectChannel _ _).deliver _ message ?_
            have hne : first ≠ second := by
              intro heq
              have hself : message.sender = recipient := by
                rw [directPair] at hpair
                split at hpair
                next =>
                  rw [Prod.mk.injEq] at hpair
                  rw [hpair.1, hpair.2, heq]
                next =>
                  rw [Prod.mk.injEq] at hpair
                  rw [hpair.1, hpair.2, heq]
              exact hchan ⟨by rw [ha hself]; rfl, heq⟩
            simpa using hne

theorem subscribe (config : Config) (channelName subscriber : String) :
    Books (subscribe config s channelName subscriber) := by
  rw [Communication.subscribe]
  split
  next =>
    split
    next => exact h
    next =>
      split
      next => exact h
      next =>
        split
        next => exact h.know subscriber
        next =>
          have hk := h.know subscriber
          refine ensureQueue ?_ _
          exact hk.same rfl rfl rfl (fun _ _ => id) rfl hk.known
  next => exact h

theorem unsubscribe (channelName subscriber : String) :
    Books (unsubscribe s channelName subscriber) := by
  rw [Communication.unsubscribe]
  split
  next =>
    split
    next => exact h
    next =>
      split
      next =>
        refine h.same rfl rfl rfl (fun pair queue hq => ?_) rfl h.known
        by_cases hp : pair = (channelName, subscriber)
        · simp [hp] at hq
        · replace hq : update s.queues (channelName, subscriber) none pair = some queue := hq
          rwa [update_of_ne hp] at hq
      next => exact h
  next => exact h

theorem setCall (id : CallId) (stage : Stage Body) : Books (setCall s id stage) :=
  h.same rfl rfl rfl (fun _ _ hq => hq) rfl h.known

theorem receive (id : CallId) (channelName subscriber : String)
    (timeout : Bool) : Books (receive s id channelName subscriber timeout) := by
  rw [Communication.receive]
  split
  next =>
    split
    next => exact h.setCall id _
    next =>
      split
      next => exact h.setCall id _
      next =>
        have he := h.ensureQueue (channelName, subscriber)
        exact he.same rfl rfl rfl (fun _ _ hq => hq) rfl he.known
  next => exact h.setCall id _

theorem get (id : CallId) : Books (get s id) := by
  rw [Communication.get]
  split
  next pair queue _ _ _ _ =>
    split
    next envelope rest htake =>
      have hoff : rest.offered = (s.fifos queue).offered := by
        have htake' := Fifo.offered_take (s.fifos queue)
        rw [htake] at htake'
        exact htake'
      refine h.congr (h.queues.congr rfl rfl fun _ _ hq => hq) (fun p => ?_) rfl h.known
      refine flatMap_congr fun q _ => ?_
      show (update s.fifos queue rest q).offered.map Prod.fst = _
      by_cases hq : q = queue
      · rw [hq, update_self, hoff]
      · rw [update_of_ne hq]
    next => exact h
  next => exact h

end

end Books

-- ==== the sound runs

/-- WHAT A STEP MAY NOT DO: cancel a call whose `get` task has completed, or send from an agent
to itself. -/
def Sound (s : State Body) : Event Body → Prop
  | .cancel id => ∀ pair queue generation timeout unsubscribed got,
      s.calls id = .waiting pair queue generation timeout unsubscribed got → got = none
  | .sendDirect message recipient => message.sender = recipient →
      s.channels (directChannel message.sender recipient) = none
  | _ => True

/-- STEP LEMMA: the books stay right. -/
theorem Books.step (h : Books s) (config : Config) {event : Event Body}
    (hsnd : Sound s event) : Books (step config s event) := by
  cases event with
  | start =>
    rw [Communication.step, start]
    split
    next => exact h
    next => exact h.same rfl rfl rfl nofun rfl nodup_nil
  | stop =>
    rw [Communication.step, stop]
    split
    next => exact h.same rfl rfl rfl (fun _ _ hq => hq) rfl h.known
    next => exact h
  | createChannel name channel =>
    rw [Communication.step, createChannel]
    split
    next => exact h.same rfl rfl rfl (fun _ _ hq => hq) rfl h.known
    next => exact h
  | publish message => exact h.publish config message
  | sendDirect message recipient => exact h.sendDirect config message recipient hsnd
  | subscribe channelName subscriber => exact h.subscribe config channelName subscriber
  | unsubscribe channelName subscriber => exact h.unsubscribe channelName subscriber
  | receive id channelName subscriber timeout =>
    rw [Communication.step]
    split
    next => exact h.receive id channelName subscriber timeout
    next => exact h
  | get id => exact h.get id
  | resume id =>
    rw [Communication.step, resume]
    split
    next =>
      split
      next => exact h.setCall id _
      next => exact h
    next => exact h
  | leave id =>
    rw [Communication.step, leave]
    split
    next => exact h.same rfl rfl rfl (fun _ _ hq => hq) rfl h.known
    next => exact h
  | cancel id =>
    rw [Communication.step, cancel]
    split
    next => exact h.same rfl rfl rfl (fun _ _ hq => hq) rfl h.known
    next => exact h

end

variable {Body : Type}

-- ==== in whose hands it is

/-- What the call has in its hands. -/
def Stage.got : Stage Body → Option (Envelope Body)
  | .idle => none
  | .waiting _ _ _ _ _ got => got
  | .leaving _ result => result
  | .returned result => result
  | .raised => none

/-- EVERY ENVELOPE OFF A QUEUE is in the hands of a call that took it. -/
structure Calls (s : State Body) : Prop where
  held : ∀ id envelope, s.took id = some envelope → (s.calls id).got = some envelope
  taker : ∀ queue, ∀ envelope ∈ (s.fifos queue).taken, ∃ id, s.took id = some envelope

/-- No call and no taken envelope is touched. -/
structure Untouched (s s' : State Body) : Prop where
  got : ∀ id, (s'.calls id).got = (s.calls id).got
  took : s'.took = s.took
  taken : ∀ queue, ∀ envelope ∈ (s'.fifos queue).taken, envelope ∈ (s.fifos queue).taken

namespace Untouched

variable {s s' s'' : State Body}

theorem refl (s : State Body) : Untouched s s := ⟨fun _ => rfl, rfl, fun _ _ => id⟩

theorem trans (h : Untouched s s') (h' : Untouched s' s'') : Untouched s s'' where
  got id := (h'.got id).trans (h.got id)
  took := h'.took.trans h.took
  taken queue envelope hmem := h.taken queue envelope (h'.taken queue envelope hmem)

theorem same (hc : s'.calls = s.calls) (htook : s'.took = s.took)
    (hf : s'.fifos = s.fifos) : Untouched s s' where
  got id := by rw [hc]
  took := htook
  taken queue envelope hmem := by rwa [hf] at hmem

theorem queue {queue : QueueId} {fifo : Fifo (Envelope Body)}
    (hfifo : ∀ envelope ∈ fifo.taken, envelope ∈ (s.fifos queue).taken)
    (hc : s'.calls = s.calls) (htook : s'.took = s.took)
    (hf : s'.fifos = update s.fifos queue fifo) : Untouched s s' where
  got id := by rw [hc]
  took := htook
  taken q envelope hmem := by
    rw [hf] at hmem
    by_cases hq : q = queue
    · rw [hq, update_self] at hmem
      rw [hq]
      exact hfifo envelope hmem
    · rwa [update_of_ne hq] at hmem

theorem ensureQueue (s : State Body) (pair : Pair) : Untouched s (ensureQueue s pair).1 := by
  rw [Communication.ensureQueue]
  split
  next => exact refl s
  next =>
    have he : ∀ envelope : Envelope Body, envelope ∈ Fifo.empty.taken →
        envelope ∈ (s.fifos s.queuesMade).taken := by simp
    exact queue he rfl rfl rfl

theorem enqueueOrDrop (config : Config) (s : State Body) (envelope : Envelope Body)
    (pair : Pair) : Untouched s (enqueueOrDrop config s envelope pair) := by
  have he := ensureQueue s pair
  rw [Communication.enqueueOrDrop]
  generalize Communication.ensureQueue s pair = made at he
  obtain ⟨s₁, id⟩ := made
  have ho : ∀ e ∈ ((s₁.fifos id).offer config.maxSubscriberQueueSize envelope).taken,
      e ∈ (s₁.fifos id).taken := by simp
  exact he.trans (queue ho rfl rfl rfl)

theorem know (s : State Body) (agent : String) : Untouched s (know s agent) := by
  rw [Communication.know]
  split
  next => exact refl s
  next => exact same rfl rfl rfl

theorem foldl {α : Type} {body : State Body → α → State Body}
    (hbody : ∀ s x, Untouched s (body s x)) (s : State Body) (xs : List α) :
    Untouched s (xs.foldl body s) := by
  induction xs generalizing s with
  | nil => exact refl s
  | cons x xs ih => exact (hbody s x).trans (ih (body s x))

theorem deliver (config : Config) (s : State Body) (channelName : String)
    (message : Message Body) (targets : List String) :
    Untouched s (deliver config s channelName message targets) := by
  refine Untouched.trans ?_ (foldl (fun s subscriber => enqueueOrDrop config s _ _) _ targets)
  exact same rfl rfl rfl

theorem publish (config : Config) (s : State Body) (message : Message Body) :
    Untouched s (publish config s message) := by
  rw [Communication.publish]
  split
  next =>
    split
    next => exact refl s
    next => exact deliver config s _ message _
  next => exact refl s

theorem ensureDirectChannel (s : State Body) (channelName : String) (pair : List String) :
    Untouched s (ensureDirectChannel s channelName pair) := by
  have hk := foldl (fun s agent => (know s agent).trans
    (ensureQueue (Communication.know s agent) (channelName, agent))) s pair
  rw [Communication.ensureDirectChannel]
  split
  next => exact hk.trans (same rfl rfl rfl)
  next =>
    split
    next => exact hk
    next => exact hk.trans (same rfl rfl rfl)

theorem sendDirect (config : Config) (s : State Body) (message : Message Body)
    (recipient : String) : Untouched s (sendDirect config s message recipient) := by
  rw [Communication.sendDirect]
  dsimp only
  split
  next => exact refl s
  next =>
    split
    next => exact refl s
    next =>
      split
      next => exact refl s
      next =>
        split
        next => exact refl s
        next =>
          split
          next => exact refl s
          next => exact (ensureDirectChannel s _ _).trans (deliver config _ _ message _)

theorem subscribe (config : Config) (s : State Body) (channelName subscriber : String) :
    Untouched s (subscribe config s channelName subscriber) := by
  rw [Communication.subscribe]
  split
  next =>
    split
    next => exact refl s
    next =>
      split
      next => exact refl s
      next =>
        split
        next => exact know s subscriber
        next =>
          refine Untouched.trans ?_ (ensureQueue _ _)
          exact (know s subscriber).trans (same rfl rfl rfl)
  next => exact refl s

theorem unsubscribe (s : State Body) (channelName subscriber : String) :
    Untouched s (unsubscribe s channelName subscriber) := by
  rw [Communication.unsubscribe]
  split
  next =>
    split
    next => exact refl s
    next =>
      split
      next =>
        refine ⟨fun id => ?_, rfl, fun _ _ => fun hmem => hmem⟩
        show (resolve s.calls _ id).got = _
        rw [resolve]
        split
        next hcall => rw [hcall, Stage.got, Stage.got]
        next => rfl
      next => exact refl s
  next => exact refl s

end Untouched

namespace Calls

variable {s s' : State Body}

theorem untouched (h : Calls s) (hsame : Untouched s s') : Calls s' where
  held id envelope htook := by
    rw [hsame.took] at htook
    rw [hsame.got]
    exact h.held id envelope htook
  taker queue envelope hmem := by
    rw [hsame.took]
    exact h.taker queue envelope (hsame.taken queue envelope hmem)

theorem setCall (h : Calls s) (id : CallId) {stage : Stage Body}
    (hs : ∀ envelope, (s.calls id).got = some envelope → stage.got = some envelope) :
    Calls (setCall s id stage) where
  held id' envelope htook := by
    have hheld := h.held id' envelope htook
    show (update s.calls id stage id').got = _
    by_cases hid : id' = id
    · rw [hid, update_self]
      rw [hid] at hheld
      exact hs envelope hheld
    · rwa [update_of_ne hid]
  taker := h.taker

theorem receive (h : Calls s) {id : CallId} (hidle : s.calls id = .idle)
    (channelName subscriber : String) (timeout : Bool) :
    Calls (receive s id channelName subscriber timeout) := by
  have hn : ∀ stage : Stage Body, ∀ envelope, (s.calls id).got = some envelope →
      stage.got = some envelope := by
    intro stage envelope hgot
    rw [hidle] at hgot
    cases hgot
  rw [Communication.receive]
  split
  next =>
    split
    next => exact h.setCall id (hn _)
    next =>
      split
      next => exact h.setCall id (hn _)
      next =>
        have hsame := Untouched.ensureQueue s (channelName, subscriber)
        dsimp only
        generalize ensureQueue s (channelName, subscriber) = made at hsame
        obtain ⟨s₁, queue⟩ := made
        have hw : Untouched s { s₁ with
            waiters := update s₁.waiters (channelName, subscriber)
              (s₁.waiters (channelName, subscriber) ++ [id]) } := hsame.trans (.same rfl rfl rfl)
        refine (h.untouched hw).setCall id fun envelope hgot => ?_
        rw [hw.got id] at hgot
        exact hn _ envelope hgot
  next => exact h.setCall id (hn _)

theorem get (h : Calls s) (id : CallId) : Calls (get s id) := by
  rw [Communication.get]
  split
  next pair queue generation timeout unsubscribed hcall =>
    have he : s.took id = none := by
      rw [Option.eq_none_iff_forall_ne_some]
      intro envelope htook
      have hheld := h.held id envelope htook
      rw [hcall] at hheld
      cases hheld
    split
    next envelope rest htake =>
      have ht : rest.taken = (s.fifos queue).taken ++ [envelope] := by
        have htake' := Fifo.taken_take (s.fifos queue)
        rw [htake] at htake'
        exact htake'
      exact
        { held := fun id' e htook => by
            replace htook : update s.took id (some envelope) id' = some e := htook
            show (update s.calls id _ id').got = some e
            by_cases hid : id' = id
            · rw [hid, update_self] at htook
              rw [hid, update_self, Stage.got, htook]
            · rw [update_of_ne hid] at htook
              rw [update_of_ne hid]
              exact h.held id' e htook
          taker := fun q e hmem => by
            replace hmem : e ∈ (update s.fifos queue rest q).taken := hmem
            have hb : e ∈ (s.fifos q).taken ∨ e = envelope := by
              by_cases hq : q = queue
              · rw [hq, update_self, ht, mem_append, mem_singleton] at hmem
                rw [hq]
                exact hmem
              · rw [update_of_ne hq] at hmem
                exact .inl hmem
            rcases hb with hb | hnew
            · obtain ⟨id', htook⟩ := h.taker q e hb
              refine ⟨id', ?_⟩
              show update s.took id _ id' = some e
              rwa [update_of_ne fun heq : id' = id => by simp [heq, he] at htook]
            · refine ⟨id, ?_⟩
              show update s.took id _ id = some e
              rw [update_self, hnew] }
    next => exact h
  next => exact h

/-- STEP LEMMA: no envelope leaves the hands of the calls. -/
theorem step (h : Calls s) (config : Config) {event : Event Body} (hsnd : Sound s event) :
    Calls (step config s event) := by
  cases event with
  | start =>
    rw [Communication.step, start]
    split
    next => exact h
    next => exact h.untouched (.same rfl rfl rfl)
  | stop =>
    rw [Communication.step, stop]
    split
    next => exact h.untouched (.same rfl rfl rfl)
    next => exact h
  | createChannel name channel =>
    rw [Communication.step, createChannel]
    split
    next => exact h.untouched (.same rfl rfl rfl)
    next => exact h
  | publish message => exact h.untouched (.publish config s message)
  | sendDirect message recipient => exact h.untouched (.sendDirect config s message recipient)
  | subscribe channelName subscriber =>
    exact h.untouched (.subscribe config s channelName subscriber)
  | unsubscribe channelName subscriber => exact h.untouched (.unsubscribe s channelName subscriber)
  | receive id channelName subscriber timeout =>
    rw [Communication.step]
    split
    next hidle => exact h.receive hidle channelName subscriber timeout
    next => exact h
  | get id => exact h.get id
  | resume id =>
    rw [Communication.step, resume]
    split
    next hcall =>
      split
      next =>
        refine h.setCall id fun envelope hgot => ?_
        rw [hcall] at hgot
        exact hgot
      next => exact h
    next => exact h
  | leave id =>
    rw [Communication.step, leave]
    split
    next pair result hcall =>
      have hleft : Calls (leaveWaiters s id pair) := h.untouched (.same rfl rfl rfl)
      refine hleft.setCall id fun envelope hgot => ?_
      replace hgot : (s.calls id).got = some envelope := hgot
      rw [hcall] at hgot
      exact hgot
    next => exact h
  | cancel id =>
    rw [Communication.step, cancel]
    split
    next pair queue generation timeout unsubscribed got hcall =>
      have hleft : Calls (leaveWaiters s id pair) := h.untouched (.same rfl rfl rfl)
      refine hleft.setCall id fun envelope hgot => ?_
      -- the `get` task has not completed, so the call holds nothing
      replace hgot : (s.calls id).got = some envelope := hgot
      rw [hcall, hsnd pair queue generation timeout unsubscribed got hcall] at hgot
      cases hgot
    next => exact h

end Calls

-- ==== what they come to

section Accounting

variable {s : State Body}

/-- A publication has a number of its own. -/
theorem Books.eligible_nodup (h : Books s) (pair : Pair) : (eligible s pair).Nodup := by
  have hn : (s.published.map fun p => p.envelope.number).Nodup := by
    rw [h.numbered]
    exact nodup_range
  have henv : (s.published.map Publication.envelope).Nodup := by
    refine List.Nodup.of_map Envelope.number ?_
    rw [map_map]
    exact hn
  exact henv.sublist (filter_sublist.map _)

theorem takenFrom_sublist (s : State Body) (pair : Pair) :
    (takenFrom s pair).Sublist (offeredTo s pair) :=
  Sublist.flatMap_right (s.owned pair) fun queue _ => (s.fifos queue).taken_sublist

/-- What was offered and not taken was dropped, discarded or waits. -/
theorem notMem_takenFrom_iff {pair : Pair} (hn : (offeredTo s pair).Nodup)
    {envelope : Envelope Body} (hmem : envelope ∈ offeredTo s pair) :
    envelope ∉ takenFrom s pair ↔ ∃ queue ∈ s.owned pair,
      (envelope, false) ∈ (s.fifos queue).offered ∨ envelope ∈ (s.fifos queue).items := by
  obtain ⟨hone, ha⟩ := nodup_flatMap.1 hn
  obtain ⟨queue, hqueue, hoff⟩ := mem_flatMap.1 hmem
  have hsame : ∀ q ∈ s.owned pair, envelope ∈ (s.fifos q).offered.map Prod.fst → q = queue := by
    intro q hq hthroughout
    by_contra hne
    have : Std.Symm (Function.onFun List.Disjoint fun q =>
        (s.fifos q).offered.map Prod.fst) := ⟨fun _ _ hdisj => hdisj.symm⟩
    exact ha.forall hq hqueue hne hthroughout hoff
  have hr : envelope ∈ takenFrom s pair ↔ envelope ∈ (s.fifos queue).taken := by
    rw [takenFrom, mem_flatMap]
    constructor
    · intro ⟨q, hq, ht⟩
      rwa [hsame q hq ((s.fifos q).taken_sublist.subset ht)] at ht
    · intro ht
      exact ⟨queue, hqueue, ht⟩
  rw [hr, Fifo.notMem_taken_iff (hone queue hqueue) hoff]
  constructor
  · intro hleft
    exact ⟨queue, hqueue, hleft⟩
  · intro ⟨q, hq, hleft⟩
    have hthroughout : envelope ∈ (s.fifos q).offered.map Prod.fst := by
      cases hleft with
      | inl hdrop => exact mem_map_of_mem hdrop
      | inr hw => exact mem_map_of_mem (((s.fifos q).accepted_iff envelope).2 (.inr hw))
    rwa [hsame q hq hthroughout] at hleft

/-- Order and absence are the law of each queue; who took what is with the calls. -/
theorem Books.delivered (hb : Books s) (hc : Calls s) : Delivered s where
  once := hb.eligible_nodup
  inOrder pair := by
    rw [← hb.offered pair]
    exact takenFrom_sublist s pair
  missing pair envelope he := by
    have hn := hb.eligible_nodup pair
    rw [← hb.offered pair] at he hn
    rw [notMem_takenFrom_iff hn he]
    constructor
    · intro ⟨queue, hq, hleft⟩
      cases hleft with
      | inl hdrop => exact .inl ⟨queue, hq, hdrop⟩
      | inr hw =>
        by_cases hnow : s.queues pair = some queue
        · exact .inr (.inr ⟨queue, hnow, hw⟩)
        · exact .inr (.inl ⟨queue, hq, hnow, hw⟩)
    · intro hleft
      rcases hleft with ⟨queue, hq, hdrop⟩ | ⟨queue, hq, -, hw⟩ | ⟨queue, hnow, hw⟩
      · exact ⟨queue, hq, .inl hdrop⟩
      · exact ⟨queue, hq, .inr hw⟩
      · obtain ⟨earlier, howned⟩ := hb.queues.current pair queue hnow
        exact ⟨queue, by simp [howned], .inr hw⟩
  byACall pair envelope ht := by
    obtain ⟨queue, -, hmem⟩ := mem_flatMap.1 ht
    exact hc.taker queue envelope hmem
  returned id envelope htook := by
    have hheld := hc.held id envelope htook
    cases hcall : s.calls id with
    | idle => simp [hcall, Stage.got] at hheld
    | waiting pair queue generation timeout unsubscribed got =>
      rw [hcall, Stage.got] at hheld
      rw [hheld]
      exact .inl ⟨pair, queue, generation, timeout, unsubscribed, rfl⟩
    | leaving pair result =>
      rw [hcall, Stage.got] at hheld
      rw [hheld]
      exact .inr (.inl ⟨pair, rfl⟩)
    | returned result =>
      rw [hcall, Stage.got] at hheld
      rw [hheld]
      exact .inr (.inr rfl)
    | raised => simp [hcall, Stage.got] at hheld

end Accounting

theorem books_fresh : Books (fresh : State Body) where
  queues :=
    { current := nofun
      made := nofun
      apart := nofun
      ownedOnce := fun _ => nodup_nil }
  numbered := rfl
  offered _ := rfl
  known := nodup_nil

theorem calls_fresh : Calls (fresh : State Body) where
  held _ _ htook := by cases htook
  taker _ _ hmem := by cases hmem

/-- DELIVERY: off a pair's queues comes a subsequence of what was published for it; the rest was
dropped, discarded or waits; and what was taken is returned. -/
theorem delivery (config : Config) {events : List (Event Body)}
    (hsound : Run.Throughout (step config) Sound fresh events) :
    ∀ s ∈ Run.states (step config) fresh events, Delivered s := by
  have hkept : ∀ s ∈ Run.states (step config) fresh events, Books s ∧ Calls s :=
    Run.throughout_states
      (fun _ _ hok hinv => ⟨hinv.1.step config hok, hinv.2.step config hok⟩) hsound
      ⟨books_fresh, calls_fresh⟩
  intro s hs
  exact (hkept s hs).1.delivered (hkept s hs).2

-- ==== one call, two endings

def news : Config := ⟨["news"], 2, none⟩

/-- A message is published while a call waits, and its `get` task takes it. -/
def taken : List (Event Nat) :=
  [.start, .subscribe "news" "ann", .receive 0 "news" "ann" false,
    .publish ⟨"news", "bob", none, 7⟩, .get 0]

/-- A second call is cancelled as it waits, three more messages meet a queue of two, and one is
direct. -/
def crowded : List (Event Nat) :=
  taken ++ [.resume 0, .leave 0, .receive 1 "news" "ann" false, .cancel 1,
    .publish ⟨"news", "bob", none, 8⟩, .publish ⟨"news", "bob", none, 9⟩,
    .publish ⟨"news", "bob", none, 10⟩, .sendDirect ⟨"@ann:bob", "bob", some "ann", 11⟩ "ann"]

theorem delivery_taken : Run.Throughout (step news) Sound fresh crowded ∧
      (∀ s ∈ Run.states (step news) fresh crowded, Delivered s) ∧
      let s := Run.final (step news) fresh crowded
      s.calls 0 = .returned (some ⟨0, "news", ⟨"news", "bob", none, 7⟩⟩) ∧
        Dropped s ("news", "ann") ⟨3, "news", ⟨"news", "bob", none, 10⟩⟩ ∧
        Queued s ("@ann:bob", "ann") ⟨4, "@ann:bob", ⟨"@ann:bob", "bob", some "ann", 11⟩⟩ := by
  have hsound : Run.Throughout (step news) Sound fresh crowded := by
    refine ⟨trivial, trivial, trivial, trivial, trivial, trivial, trivial, trivial, ?_, trivial,
      trivial, trivial, ?_, trivial⟩
    · intro pair queue generation timeout unsubscribed got hwaiting
      cases hwaiting
      rfl
    · exact fun hself => absurd hself (by decide)
  have hdropped : ((Run.final (step news) fresh crowded).fifos 0).offered[3]? =
      some (⟨3, "news", ⟨"news", "bob", none, 10⟩⟩, false) := rfl
  exact ⟨hsound, delivery news hsound, rfl, ⟨0, mem_singleton_self 0, mem_of_getElem? hdropped⟩,
    1, rfl, mem_singleton_self _⟩

/-- Cancelled with its task completed, the call loses an envelope. -/
theorem cancelled_call_loses :
    ¬ Delivered (Run.final (step news) fresh (taken ++ [.cancel 0])) := by
  intro hdelivered
  have hraised : (Run.final (step news) fresh (taken ++ [.cancel 0])).calls 0 = .raised := rfl
  have hreturned := hdelivered.returned 0 ⟨0, "news", ⟨"news", "bob", none, 7⟩⟩ rfl
  simp [hraised] at hreturned

end Synthorg.Communication
