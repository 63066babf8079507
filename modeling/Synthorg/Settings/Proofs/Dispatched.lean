/-
What a poll loop took off the bus, it told.

The books of one loop: what it took is the batches it dispatched, one after
the other, and the batch in hand; what it told is the calls for those
batches and a first part of the calls for the one in hand. Every step of a
loop keeps them but one: an error that ends `_drain` inside the coalesce
window drops the batch in hand, and the loop polls on without it.
-/
import Synthorg.Settings.Dispatcher

namespace Synthorg.Settings

open Lib
open List

-- ==== what a batch is told as

section Fromkeys

variable {α : Type*} [DecidableEq α]

@[simp]
theorem mem_fromkeys {x : α} {l : List α} : x ∈ fromkeys l ↔ x ∈ l := by
  induction l with
  | nil => simp [fromkeys]
  | cons y rest ih =>
    by_cases hxy : x = y
    · simp [fromkeys, hxy]
    · simp [fromkeys, hxy, ih]

end Fromkeys

variable {subscribers : List Subscriber} {batch : List DeliveryEnvelope}

@[simp]
theorem notices_nil : notices subscribers [] = [] := by
  simp [notices, extractChanges]

theorem mem_notices {envelope : DeliveryEnvelope} {change : SettingChange}
    (hmem : envelope ∈ batch) (hc : envelope.change? = some change)
    {subscriber : Subscriber} (hsub : subscriber ∈ subscribers)
    (hw : change ∈ subscriber.watchedKeys) : ∃ notice ∈ notices subscribers batch,
      notice.subscriber = subscriber ∧ change ∈ notice.watched := by
  have hin : change ∈ (extractChanges batch).filter (· ∈ subscriber.watchedKeys) := by
    rw [mem_filter]
    refine ⟨?_, by simpa using hw⟩
    rw [extractChanges, mem_fromkeys, mem_filterMap]
    exact ⟨envelope, hmem, hc⟩
  refine ⟨⟨subscriber, (extractChanges batch).filter (· ∈ subscriber.watchedKeys)⟩, ?_, rfl, hin⟩
  rw [notices, mem_filterMap]
  refine ⟨subscriber, hsub, ?_⟩
  rw [if_neg (ne_nil_of_mem hin)]

-- ==== the books

namespace PollLoop

variable {poll : PollLoop}

def Told (subscribers : List Subscriber) (poll : PollLoop) (told : List Notice) : Prop :=
  match poll.stage with
  | .created | .polling | .opening _ | .collecting _ | .acking _ => told = []
  | .dispatching batch pending => told ++ pending = notices subscribers batch
  | .done _ batch => told <+: notices subscribers batch

/-- THE BOOKS of a loop. -/
def Books (subscribers : List Subscriber) (poll : PollLoop) : Prop :=
  ∃ (batches : List (List DeliveryEnvelope)) (told : List Notice),
    poll.taken = batches.flatten ++ poll.hand ∧
      poll.delivered = batches.flatMap (notices subscribers) ++ told ∧
      poll.Told subscribers told

/-- A loop that ended by `break` had nothing in hand. -/
def Clean (poll : PollLoop) : Prop :=
  ∀ hand, poll.stage = .done .broke hand → hand = []

variable {told : List Notice} {batches : List (List DeliveryEnvelope)}

theorem Told.begins (h : poll.Told subscribers told) : told <+: notices subscribers poll.hand := by
  rw [Told] at h
  rw [hand]
  cases hs : poll.stage with
  | dispatching batch pending =>
    rw [hs] at h
    exact ⟨pending, h⟩
  | done ending batch =>
    rw [hs] at h
    exact h
  | created | polling | opening first | collecting batch | acking rest =>
    rw [hs] at h; simp [show told = [] from h]

theorem books_created : created.Books subscribers :=
  ⟨[], [], rfl, rfl, rfl⟩

theorem books_serving {pending : List Notice} (ht : poll.taken = batches.flatten ++ batch)
    (hd : poll.delivered = batches.flatMap (notices subscribers) ++ told)
    (hc : told ++ pending = notices subscribers batch) :
    ({ poll with stage := .serving batch pending } : PollLoop).Books subscribers := by
  cases pending with
  | nil =>
    refine ⟨batches ++ [batch], [], ?_, ?_, rfl⟩
    · simpa [LoopStage.serving, hand] using ht
    · simpa [← hc] using hd
  | cons first rest => exact ⟨batches, told, ht, hd, hc⟩

theorem books_dispatch (ht : poll.taken = batches.flatten ++ batch)
    (hd : poll.delivered = batches.flatMap (notices subscribers)) :
    (poll.dispatch subscribers batch).Books subscribers := by
  have hb : poll.delivered = batches.flatMap (notices subscribers) ++ [] := by
    rw [hd, append_nil]
  exact books_serving ht hb rfl

section
variable (h : poll.Books subscribers)
include h

theorem Books.openBatch (hs : poll.stage = .polling)
    (envelope : DeliveryEnvelope) : (poll.openBatch envelope).Books subscribers := by
  obtain ⟨batches, told, ht, hd, htold⟩ := h
  rw [hand, hs] at ht
  rw [Told, hs] at htold
  refine ⟨batches, [], ?_, ?_, rfl⟩
  · simp [PollLoop.openBatch, hand, ht]
  · simp [PollLoop.openBatch, hd, show told = [] from htold]

/-- Of a batch that is not dispatched yet nobody was told. -/
theorem Books.untold (hhand : poll.hand = batch)
    (hnone : ∀ told, poll.Told subscribers told → told = []) :
    ∃ batches, poll.taken = List.flatten batches ++ batch ∧
      poll.delivered = batches.flatMap (notices subscribers) := by
  obtain ⟨batches, told, ht, hd, htold⟩ := h
  exact ⟨batches, hhand ▸ ht, by simp [hd, hnone told htold]⟩

theorem Books.collect (hs : poll.stage = .collecting batch) (envelope : DeliveryEnvelope) :
    (poll.collect subscribers batch envelope).Books subscribers := by
  obtain ⟨batches, ht, hd⟩ := h.untold (by rw [hand, hs]) fun told h => by rwa [Told, hs] at h
  have hf : poll.taken ++ [envelope] = batches.flatten ++ (batch ++ [envelope]) := by
    rw [ht, append_assoc]
  rw [PollLoop.collect]
  split
  · exact ⟨batches, [], hf, by simpa using hd, rfl⟩
  · exact books_dispatch hf hd

theorem Books.serve {first : Notice} {rest : List Notice}
    (hs : poll.stage = .dispatching batch (first :: rest)) (answer : Answer) :
    (poll.serve batch first rest answer).Books subscribers := by
  obtain ⟨batches, told, ht, hd, htold⟩ := h
  rw [hand, hs] at ht
  rw [Told, hs] at htold
  replace htold : (told ++ [first]) ++ rest = notices subscribers batch := by
    rw [append_assoc]
    exact htold
  have htell : poll.delivered ++ [first] =
      batches.flatMap (notices subscribers) ++ (told ++ [first]) := by
    rw [hd, append_assoc]
  have htell' : ({ poll with delivered := poll.delivered ++ [first] } : PollLoop).delivered =
      batches.flatMap (notices subscribers) ++ (told ++ [first]) := htell
  cases answer with
  | critical => exact ⟨batches, told ++ [first], ht, htell, ⟨rest, htold⟩⟩
  | returned | failed => exact books_serving ht htell' htold

theorem Books.rest {poll' : PollLoop} (hhand : poll.hand = [])
    (ht : poll'.taken = poll.taken) (hd : poll'.delivered = poll.delivered)
    (hhand' : poll'.hand = []) (hs : poll'.Told subscribers []) : poll'.Books subscribers := by
  obtain ⟨batches, told, hbatches, hc, htold⟩ := h
  have hnone : told = [] := by
    have hb := htold.begins
    rw [hhand, notices_nil] at hb
    exact prefix_nil.1 hb
  refine ⟨batches, [], ?_, ?_, hs⟩
  · rw [ht, hhand', hbatches, hhand]
  · rw [hd, hc, hnone]

theorem Books.finish (ending : Ending) : (poll.finish ending poll.hand).Books subscribers := by
  obtain ⟨batches, told, ht, hd, htold⟩ := h
  exact ⟨batches, told, ht, hd, htold.begins⟩

theorem Books.fail {error : PollError} (hhand : error = .critical ∨ poll.hand = []) :
    (poll.fail poll.hand error).Books subscribers := by
  cases error with
  | critical => exact h.finish .critical
  | other =>
    have hnone := hhand.resolve_left (by simp)
    exact h.rest hnone rfl rfl rfl nil_prefix
  | transient maxErrors =>
    have hnone := hhand.resolve_left (by simp)
    rw [PollLoop.fail]
    split
    · exact h.rest hnone rfl rfl rfl nil_prefix
    · exact h.rest hnone rfl rfl rfl rfl

theorem Books.ack {rest : List DeliveryEnvelope}
    (hs : poll.stage = .acking rest) : (poll.ack rest).Books subscribers := by
  have hhand : poll.hand = [] := by
    rw [hand, hs]
  rw [PollLoop.ack.eq_def]
  split
  · exact h.rest hhand rfl rfl rfl rfl
  · exact h.rest hhand rfl rfl rfl rfl

end

/-- A loop that has not ended by `break`. -/
theorem clean_of_stage (h : ∀ hand, poll.stage ≠ .done .broke hand) : poll.Clean := by
  intro hand hs
  exact absurd hs (h hand)

theorem clean_serving (pending : List Notice) :
    ({ poll with stage := .serving batch pending } : PollLoop).Clean := by
  apply clean_of_stage
  intro hand hs
  cases pending with
  | nil | cons first rest => cases hs

theorem clean_fail (hand : List DeliveryEnvelope) (error : PollError) :
    (poll.fail hand error).Clean := by
  intro hand' hs
  cases error with
  | critical => cases hs
  | other =>
    injection hs with _ heq
    exact heq.symm
  | transient maxErrors =>
    rw [fail] at hs
    split at hs
    · injection hs with _ heq
      exact heq.symm
    · cases hs

end PollLoop

-- ==== the books of every loop

namespace SettingsChangeDispatcher

variable {d d' : SettingsChangeDispatcher}

/-- Books in order, its batch done if it ended by `break`, and what it took, then what waits on
the bus, published in that order. -/
structure LoopKept (d : SettingsChangeDispatcher) (poll : PollLoop) : Prop where
  books : poll.Books d.subscribers
  clean : poll.Clean
  order : (poll.taken ++ d.queue).Sublist d.published

/-- THE INVARIANT of the loops. -/
structure Ledger (d : SettingsChangeDispatcher) : Prop where
  loops : ∀ t poll, d.loops t = some poll → d.LoopKept poll
  waiting : d.queue.Sublist d.published

theorem new_ledger (subscribers : List Subscriber) : Ledger (new subscribers) := by
  refine ⟨?_, Sublist.refl _⟩
  intro t poll hloop
  cases hloop

theorem Ledger.of_same (h : Ledger d) (hs : d'.subscribers = d.subscribers)
    (hl : d'.loops = d.loops) (hq : d'.queue = d.queue)
    (hp : d'.published = d.published) : Ledger d' := by
  refine ⟨?_, ?_⟩
  · intro t poll hloop
    rw [hl] at hloop
    obtain ⟨hb, hc, ho⟩ := h.loops t poll hloop
    exact ⟨by rw [hs]; exact hb, hc, by rw [hq, hp]; exact ho⟩
  · rw [hq, hp]
    exact h.waiting

variable {t : Nat} {input : Input}

theorem Ledger.setLoop (h : Ledger d) {poll : PollLoop} (hkept : d.LoopKept poll) :
    Ledger (d.setLoop t poll) := by
  refine ⟨?_, h.waiting⟩
  intro u poll' hloop
  by_cases hut : u = t
  · simp only [SettingsChangeDispatcher.setLoop, hut, Function.update_self,
      Option.some.injEq] at hloop
    rw [← hloop]
    exact ⟨hkept.books, hkept.clean, hkept.order⟩
  · simp only [SettingsChangeDispatcher.setLoop, Function.update_of_ne hut] at hloop
    obtain ⟨hb, hc, ho⟩ := h.loops u poll' hloop
    exact ⟨hb, hc, ho⟩

theorem Ledger.take (h : Ledger d) {poll poll' : PollLoop} {envelope : DeliveryEnvelope}
    {rest : List DeliveryEnvelope} (hloop : d.loops t = some poll)
    (hq : d.queue = envelope :: rest) (hb : poll'.Books d.subscribers)
    (hc : poll'.Clean) (ht : poll'.taken = poll.taken ++ [envelope]) :
    Ledger { d.setLoop t poll' with queue := rest } := by
  refine ⟨?_, ?_⟩
  · intro u other hother
    by_cases hut : u = t
    · simp only [SettingsChangeDispatcher.setLoop, hut, Function.update_self,
        Option.some.injEq] at hother
      rw [← hother]
      refine ⟨hb, hc, ?_⟩
      have ho := (h.loops t poll hloop).order
      rw [hq] at ho
      rw [ht, append_assoc]
      exact ho
    · simp only [SettingsChangeDispatcher.setLoop, Function.update_of_ne hut] at hother
      obtain ⟨hb', hc', ho⟩ := h.loops u other hother
      rw [hq] at ho
      refine ⟨hb', hc', Sublist.trans ?_ ho⟩
      exact (Sublist.refl _).append (sublist_cons_self envelope rest)
  · have hwait := h.waiting
    rw [hq] at hwait
    exact (sublist_cons_self envelope rest).trans hwait

theorem Ledger.unsubscribe (h : Ledger d) : Ledger d.unsubscribe := by
  refine ⟨?_, nil_sublist _⟩
  intro t poll hloop
  obtain ⟨hb, hc, ho⟩ := h.loops t poll hloop
  refine ⟨hb, hc, Sublist.trans ?_ ho⟩
  exact (Sublist.refl _).append (nil_sublist _)

theorem Ledger.publish (h : Ledger d) (envelope : DeliveryEnvelope) : Ledger { d with
      published := d.published ++ [envelope]
      queue := if d.subscribed then d.queue ++ [envelope] else d.queue } := by
  have hkeep : ∀ taken : List DeliveryEnvelope, (taken ++ d.queue).Sublist d.published →
      (taken ++ if d.subscribed then d.queue ++ [envelope] else d.queue).Sublist
        (d.published ++ [envelope]) := by
    intro taken ho
    split
    · rw [← append_assoc]
      exact ho.append (Sublist.refl _)
    · exact ho.trans (sublist_append_left _ _)
  refine ⟨?_, ?_⟩
  · intro t poll hloop
    obtain ⟨hb, hc, ho⟩ := h.loops t poll hloop
    exact ⟨hb, hc, hkeep _ ho⟩
  · exact hkeep [] h.waiting

theorem Ledger.createLoop (h : Ledger d) : Ledger d.createLoop := by
  have hc : d.LoopKept PollLoop.created := by
    refine ⟨PollLoop.books_created, PollLoop.clean_of_stage (by intro hand heq; cases heq), ?_⟩
    exact h.waiting
  exact (h.setLoop (t := d.nextLoop) hc).of_same rfl rfl rfl rfl

theorem Ledger.mark (h : Ledger d) {poll poll' : PollLoop} (hloop : d.loops t = some poll)
    (hs : poll'.stage = poll.stage) (ht : poll'.taken = poll.taken)
    (hd : poll'.delivered = poll.delivered) : Ledger (d.setLoop t poll') := by
  obtain ⟨⟨batches, told, hb, hc, htold⟩, hclean, ho⟩ := h.loops t poll hloop
  refine h.setLoop ⟨⟨batches, told, ?_, ?_, ?_⟩, ?_, ?_⟩
  · rw [ht, PollLoop.hand, hs]
    exact hb
  · rw [hd, hc]
  · rw [PollLoop.Told, hs]
    exact htold
  · rw [PollLoop.Clean, hs]
    exact hclean
  · rw [ht]
    exact ho

-- ==== the steps

def WindowHolds (d : SettingsChangeDispatcher) (input : Input) : Prop :=
  ∀ t error, input = .fail t error → error = .critical ∨
    ∀ poll batch, d.loops t = some poll → poll.stage ≠ .collecting batch

section
variable (h : Ledger d)
include h

/-- STEP LEMMA (the loops): the ledger is kept, but for an error inside the window. -/
theorem Ledger.loopStep {poll : PollLoop} (hloop : d.loops t = some poll)
    (hi : input.loop? = some t) (hwin : d.WindowHolds input) :
    Ledger (d.loopStep t poll input) := by
  have hkept := h.loops t poll hloop
  cases input with
  | beginLoop u =>
    rw [SettingsChangeDispatcher.loopStep]
    cases hs : poll.stage with
    | created =>
      have hhand : poll.hand = [] := by rw [PollLoop.hand, hs]
      dsimp only
      split
      · exact h.setLoop ⟨hkept.books.rest hhand rfl rfl rfl nil_prefix,
          PollLoop.clean_of_stage (by intro hand heq; cases heq), hkept.order⟩
      · exact h.setLoop ⟨hkept.books.rest hhand rfl rfl rfl rfl,
          PollLoop.clean_of_stage (by intro hand heq; cases heq), hkept.order⟩
    | _ => exact h
  | receive u =>
    rw [SettingsChangeDispatcher.loopStep]
    cases hq : d.queue with
    | nil => cases hs : poll.stage <;> exact h
    | cons envelope rest =>
      cases hs : poll.stage with
      | polling =>
        exact h.take hloop hq (hkept.books.openBatch hs envelope)
          (PollLoop.clean_of_stage (by intro hand heq; cases heq)) rfl
      | collecting batch =>
        have hboth : (poll.collect d.subscribers batch envelope).Clean ∧
            (poll.collect d.subscribers batch envelope).taken =
              poll.taken ++ [envelope] := by
          rw [PollLoop.collect]
          split
          · exact ⟨PollLoop.clean_of_stage (by intro hand heq; cases heq), rfl⟩
          · exact ⟨PollLoop.clean_serving _, rfl⟩
        exact h.take hloop hq (hkept.books.collect hs envelope) hboth.1 hboth.2
      | _ => exact h
  | window u positive =>
    rw [SettingsChangeDispatcher.loopStep]
    cases hs : poll.stage with
    | opening first =>
      obtain ⟨batches, ht, hd⟩ := hkept.books.untold (by rw [PollLoop.hand, hs])
        fun told h => by rwa [PollLoop.Told, hs] at h
      dsimp only
      split
      · exact h.setLoop ⟨⟨batches, [], ht, by simpa using hd, rfl⟩,
          PollLoop.clean_of_stage (by intro hand heq; cases heq), hkept.order⟩
      · exact h.setLoop ⟨PollLoop.books_dispatch ht hd, PollLoop.clean_serving _, hkept.order⟩
    | _ => exact h
  | close u =>
    rw [SettingsChangeDispatcher.loopStep]
    cases hs : poll.stage with
    | collecting batch =>
      obtain ⟨batches, ht, hd⟩ := hkept.books.untold (by rw [PollLoop.hand, hs])
        fun told h => by rwa [PollLoop.Told, hs] at h
      exact h.setLoop ⟨PollLoop.books_dispatch ht hd, PollLoop.clean_serving _, hkept.order⟩
    | _ => exact h
  | serve u answer =>
    rw [SettingsChangeDispatcher.loopStep]
    cases hs : poll.stage with
    | dispatching batch pending =>
      cases pending with
      | nil => exact h
      | cons first rest =>
        have hc : (poll.serve batch first rest answer).Clean := by
          cases answer with
          | critical => exact PollLoop.clean_of_stage (by intro hand heq; cases heq)
          | returned | failed => exact PollLoop.clean_serving rest
        have ht : (poll.serve batch first rest answer).taken = poll.taken := by
          cases answer <;> rfl
        exact h.setLoop ⟨hkept.books.serve hs answer, hc, by rw [ht]; exact hkept.order⟩
    | _ => exact h
  | ack u =>
    rw [SettingsChangeDispatcher.loopStep]
    cases hs : poll.stage with
    | acking rest =>
      have hboth : (poll.ack rest).Clean ∧ (poll.ack rest).taken = poll.taken := by
        rw [PollLoop.ack.eq_def]
        split
        · exact ⟨PollLoop.clean_of_stage (by intro hand heq; cases heq), rfl⟩
        · exact ⟨PollLoop.clean_of_stage (by intro hand heq; cases heq), rfl⟩
      exact h.setLoop ⟨hkept.books.ack hs, hboth.1, by rw [hboth.2]; exact hkept.order⟩
    | _ => exact h
  | fail u error =>
    have hu : u = t := by
      injection hi
    have ht : (poll.fail poll.hand error).taken = poll.taken := by
      cases error with
      | transient maxErrors =>
        rw [PollLoop.fail]
        split <;> rfl
      | other | critical => rfl
    have hfail : error = .critical ∨ poll.hand = [] → Ledger (d.setLoop t
        (poll.fail poll.hand error)) := by
      intro hhand
      exact h.setLoop ⟨hkept.books.fail hhand, PollLoop.clean_fail _ _,
        by rw [ht]; exact hkept.order⟩
    rw [SettingsChangeDispatcher.loopStep]
    cases hs : poll.stage with
    | polling | acking rest => exact hfail (.inr (by rw [PollLoop.hand, hs]))
    | collecting batch =>
      refine hfail (.inl ((hwin u error rfl).resolve_right ?_))
      intro hnone
      rw [hu] at hnone
      exact hnone poll batch hloop hs
    | opening first =>
      dsimp only
      split
      next hcritical => exact hfail (.inl hcritical)
      next => exact h
    | created | dispatching batch pending | done ending hand => exact h
  | endLoop u =>
    rw [SettingsChangeDispatcher.loopStep]
    split
    · exact h.setLoop ⟨hkept.books.finish .cancelled,
        PollLoop.clean_of_stage (by intro hand heq; cases heq), hkept.order⟩
    · exact h
  | start id | stop id | followUp id u | resume id | proceed id reply | drained id
  | publish envelope => cases hi

theorem Ledger.leave (id lock : Nat) (raised : Bool) : Ledger (d.leave id lock raised) :=
  h.of_same rfl rfl rfl rfl

theorem Ledger.setCall (id : Nat) (stage : CallStage) : Ledger (d.setCall id stage) :=
  h.of_same rfl rfl rfl rfl

theorem Ledger.acquire (method : Method) (id lock : Nat) : Ledger (d.acquire method id lock).1 := by
  rw [SettingsChangeDispatcher.acquire]
  split
  · exact h.of_same rfl rfl rfl rfl
  · exact h.of_same rfl rfl rfl rfl

theorem Ledger.bindLock : Ledger d.bindLock.1 := by
  rw [SettingsChangeDispatcher.bindLock]
  split
  · exact h
  · exact h.of_same rfl rfl rfl rfl

theorem Ledger.resetRunning (t : Nat) : Ledger (d.resetRunning t) := by
  rw [SettingsChangeDispatcher.resetRunning]
  split
  · exact h.of_same rfl rfl rfl rfl
  · exact h

theorem Ledger.cancelLoop (t : Nat) : Ledger (d.cancelLoop t) := by
  rw [SettingsChangeDispatcher.cancelLoop]
  split
  next poll hloop => exact h.mark hloop rfl rfl rfl
  next => exact h

theorem Ledger.enter (input : Input) : Ledger (d.enter input).1 := by
  cases input with
  | start id =>
    rw [SettingsChangeDispatcher.enter]
    split
    · exact h.bindLock.acquire _ _ _
    · exact h
  | stop id =>
    rw [SettingsChangeDispatcher.enter]
    split
    · split
      · exact h.acquire _ _ _
      · exact h.setCall _ _
    · exact h
  | followUp id t =>
    rw [SettingsChangeDispatcher.enter]
    split
    · split
      next poll hloop =>
        have hmark : Ledger (d.setLoop t { poll with followedUp := true }) :=
          h.mark hloop rfl rfl rfl
        split
        · split
          · exact hmark.acquire _ _ _
          · exact (hmark.resetRunning t).setCall _ _
        · exact h
      next => exact h
    · exact h
  | resume id =>
    rw [SettingsChangeDispatcher.enter]
    split
    · split
      · exact h.of_same rfl rfl rfl rfl
      · exact h
    · exact h
  | _ => exact h

theorem Ledger.criticalSection (sec : Section) : Ledger (d.criticalSection sec) := by
  obtain ⟨method, id, lock⟩ := sec
  cases method with
  | start =>
    rw [SettingsChangeDispatcher.criticalSection, startSection]
    dsimp only
    split
    · exact h.of_same rfl rfl rfl rfl
    · split
      · exact h.of_same rfl rfl rfl rfl
      · split
        · exact h.of_same rfl rfl rfl rfl
        · exact h.of_same rfl rfl rfl rfl
  | stop =>
    rw [SettingsChangeDispatcher.criticalSection, stopSection]
    dsimp only
    split
    · split
      · exact h.setCall _ _
      · exact h.setCall _ _
    · exact h.leave _ _ _
  | reset t => exact (h.resetRunning t).leave _ _ _

theorem Ledger.goOn (id : Nat) (reply : Reply) : Ledger (d.goOn id reply) := by
  rw [SettingsChangeDispatcher.goOn]
  cases d.calls id with
  | recovering lock =>
    cases reply with
    | ok => exact h.unsubscribe.of_same rfl rfl rfl rfl
    | failed => exact h.of_same rfl rfl rfl rfl
    | critical => exact h.leave _ _ _
  | subscribing lock =>
    cases reply with
    | ok => exact h.of_same rfl rfl rfl rfl
    | failed | critical => exact h.leave _ _ _
  | applying lock =>
    cases reply with
    | ok | failed => exact h.createLoop.leave _ _ _
    | critical => exact h.of_same rfl rfl rfl rfl
  | rollingBack lock =>
    cases reply with
    | ok => exact h.unsubscribe.leave _ _ _
    | failed => exact h.of_same rfl rfl rfl rfl
    | critical => exact h.leave _ _ _
  | resolving lock =>
    have hres : Ledger (d.resolved id lock .ok) := by
      rw [resolved]
      split
      · exact (h.cancelLoop _).setCall _ _
      · exact h.leave _ _ _
    cases reply with
    | ok | failed => exact hres
    | critical => exact h.leave _ _ _
  | unsubscribing lock =>
    cases reply with
    | ok => exact h.unsubscribe.of_same rfl rfl rfl rfl
    | failed => exact h.of_same rfl rfl rfl rfl
    | critical => exact h.leave _ _ _
  | _ => exact h

theorem Ledger.drained (id lock : Nat) (ending : Ending) : Ledger (d.drained id lock ending) := by
  cases ending with
  | critical => exact h.leave _ _ _
  | broke => exact h.of_same rfl rfl rfl rfl
  | cancelled =>
    rw [SettingsChangeDispatcher.drained]
    split
    · exact h.leave _ _ _
    · exact h.of_same rfl rfl rfl rfl

theorem Ledger.progress (hwin : d.WindowHolds input) : Ledger (d.progress input) := by
  cases input with
  | proceed id reply => exact h.goOn id reply
  | drained id =>
    rw [SettingsChangeDispatcher.progress]
    split
    · split
      · split
        · exact h.drained _ _ _
        · exact h
      · exact h
    · exact h
  | publish envelope => exact h.publish envelope
  | beginLoop t | receive t | window t _ | close t | serve t _ | ack t | fail t _ | endLoop t =>
    simp only [SettingsChangeDispatcher.progress, Input.loop?]
    split
    next poll hloop => exact h.loopStep hloop rfl hwin
    next => exact h
  | _ => exact h

/-- STEP LEMMA: a step keeps the ledger, but for an error inside the window. -/
theorem Ledger.step (hwin : d.WindowHolds input) : Ledger (d.step input) := by
  have he := h.enter input
  rw [SettingsChangeDispatcher.step]
  split
  next entered sec henter =>
    rw [henter] at he
    exact Ledger.criticalSection he sec
  next entered henter =>
    rw [henter] at he
    refine Ledger.progress he ?_
    intro t error hi
    have hsame : (d, none) = (entered, (none : Option Section)) := by
      rw [← henter, hi]
      rfl
    rw [← (Prod.mk.inj hsame).1]
    exact hwin t error hi

end

end SettingsChangeDispatcher

end Synthorg.Settings
