/-
One poll loop, and the dispatcher holds it.

A `start` that finds nothing running is on its way to a loop for three awaits before it creates
one, and a `stop` that found something running clears `_task` and `_running` awaits later. Both
are sound as long as a `start` on its way has the critical section to itself (`Fits`). The
lifecycle lock is there for that. But a clean `stop` drops it with callers still queued: one of
them re-anchors the old lock while a newcomer is inside under a new one, and both are on their
way.
-/
import Synthorg.Settings.Proofs.Dispatched

namespace Synthorg.Settings

open Lib
open List
open Function (update update_self update_of_ne)

/-- A `start` past its checks, and not through yet. -/
def CallStage.onItsWay : CallStage → Bool
  | .subscribing _ | .applying _ | .rollingBack _ => true
  | _ => false

theorem CallStage.inside_of_onItsWay {stage : CallStage} (h : stage.onItsWay = true) :
    stage.inside = true := by
  cases stage <;> first | rfl | cases h

namespace SettingsChangeDispatcher

variable {d d' : SettingsChangeDispatcher}

-- ==== the properties

def Quiet (d : SettingsChangeDispatcher) : Prop := ∀ t, d.alive t = false

/-- Nobody but `id` is inside a critical section. -/
def Alone (d : SettingsChangeDispatcher) (id : Nat) : Prop :=
  ∀ id', id' ≠ id → (d.calls id').inside = false

/-- It finds nothing to reject it in its section, or its recovery succeeds. -/
def ComesPast (d : SettingsChangeDispatcher) (input : Input) (id : Nat) : Prop :=
  (∃ entered lock, d.enter input = (entered, some ⟨.start, id, lock⟩) ∧
    entered.stopFailed = false ∧ entered.taskDone = false ∧ entered.running = false) ∨
  ∃ lock, d.calls id = .recovering lock ∧ input = .proceed id .ok

/-- A `start` that comes past its checks has the section to itself. -/
def Orderly (d : SettingsChangeDispatcher) (input : Input) : Prop :=
  ∀ id, d.ComesPast input id → d.Alone id

-- ==== the invariant

def Fits (d : SettingsChangeDispatcher) (id : Nat) : CallStage → Prop
  | .waiting (.reset t) _ => ∃ poll, d.loops t = some poll ∧ poll.alive = false
  | .recovering _ | .unsubscribing _ => d.Quiet
  | .subscribing _ | .applying _ | .rollingBack _ =>
    d.task = none ∧ d.running = false ∧ d.Alone id
  | .draining _ t => ∀ u, d.alive u → u = t
  | .absent | .waiting .start _ | .waiting .stop _ | .resolving _ | .ended _ => True

/-- THE INVARIANT: the live loop is held and marked as running; every call finds what it relies
on. -/
structure Inv (d : SettingsChangeDispatcher) : Prop where
  held : ∀ t, d.alive t → d.task = some t ∧ d.running = true
  calls : ∀ id, d.Fits id (d.calls id)
  numbered : ∀ t, d.nextLoop ≤ t → d.loops t = none

theorem new_inv (subscribers : List Subscriber) : Inv (new subscribers) := by
  refine ⟨?_, fun _ => trivial, fun _ _ => rfl⟩
  intro t ha
  cases ha

theorem Inv.quiet_of_running (h : Inv d) (hr : d.running = false) : d.Quiet := by
  intro t
  by_cases ha : d.alive t = true
  · have hmark := (h.held t ha).2
    simp [hr] at hmark
  · simpa using ha

theorem Inv.quiet_of_task (h : Inv d) (htask : d.task = none) : d.Quiet := by
  intro t
  by_cases ha : d.alive t = true
  · have hheld := (h.held t ha).1
    simp [htask] at hheld
  · simpa using ha

variable {t id lock : Nat} {stage : CallStage} {poll : PollLoop} {input : Input}

theorem Inv.quiet_of_over (h : Inv d) (htask : d.task = some t) (hover : d.alive t = false) :
    d.Quiet := by
  intro u
  by_cases ha : d.alive u = true
  · have hheld := (h.held u ha).1
    rw [htask, Option.some.injEq] at hheld
    simp [hheld, ha] at hover
  · simpa using ha

theorem Inv.quiet_of_taskDone (h : Inv d) (hdone : d.taskDone = true) : d.Quiet := by
  cases htask : d.task with
  | none => exact h.quiet_of_task htask
  | some t =>
    rw [taskDone, htask] at hdone
    exact h.quiet_of_over htask (by simpa using hdone)

theorem Inv.notOnItsWay (h : Inv d) {id' : Nat} (hins : (d.calls id).inside = true)
    (hne : id' ≠ id) : (d.calls id').onItsWay = false := by
  have hfits := h.calls id'
  have hf : d.Alone id' → False := by
    intro ha
    have hout := ha id hne.symm
    simp [hins] at hout
  cases hs : d.calls id' with
  | subscribing lock | applying lock | rollingBack lock =>
    rw [hs] at hfits; exact (hf hfits.2.2).elim
  | _ => rfl

/-- What a step does to the loops, but for the creation of one. -/
structure Still (d d' : SettingsChangeDispatcher) : Prop where
  next : d'.nextLoop = d.nextLoop
  alive : ∀ t, d'.alive t → d.alive t
  dead : ∀ t poll, d.loops t = some poll → poll.alive = false →
    ∃ poll', d'.loops t = some poll' ∧ poll'.alive = false
  none : ∀ t, d.loops t = none → d'.loops t = none

theorem Still.of_loops (hnext : d'.nextLoop = d.nextLoop) (hl : d'.loops = d.loops) :
    Still d d' := by
  refine ⟨hnext, ?_, ?_, ?_⟩
  · intro t ha
    simpa only [SettingsChangeDispatcher.alive, hl] using ha
  · intro t poll hloop hover
    exact ⟨poll, by rw [hl]; exact hloop, hover⟩
  · intro t hloop
    rw [hl]
    exact hloop

theorem Still.refl (d : SettingsChangeDispatcher) : Still d d := Still.of_loops rfl rfl

theorem Still.quiet (h : Still d d') (hqt : d.Quiet) : d'.Quiet := by
  intro t
  by_cases ha : d'.alive t = true
  · rw [← hqt t, ha, h.alive t ha]
  · simpa using ha

theorem Fits.onItsWay (h : d.Fits id stage) (hway : stage.onItsWay = true) :
    d.task = none ∧ d.running = false ∧ d.Alone id := by
  cases stage <;> first | exact h | cases hway

/-- What a call relies on survives what creates no loop, if it is not on its
way. -/
theorem Fits.still (h : d.Fits id stage) (hs : Still d d')
    (hway : stage.onItsWay = true → d'.task = none ∧ d'.running = false ∧ d'.Alone id) :
    d'.Fits id stage := by
  cases stage with
  | waiting method lock =>
    cases method with
    | reset t =>
      obtain ⟨poll, hloop, hover⟩ := h
      exact hs.dead t poll hloop hover
    | start | stop => trivial
  | recovering lock | unsubscribing lock => exact hs.quiet h
  | draining lock t =>
    intro u ha
    exact h u (hs.alive u ha)
  | subscribing lock | applying lock | rollingBack lock => exact hway rfl
  | absent | resolving lock | ended raised => trivial

/-- STEP LEMMA: no call goes on, and no loop is created. -/
theorem Inv.same (h : Inv d) (hs : Still d d') (hc : d'.calls = d.calls)
    (htask : d'.task = d.task) (hr : d'.running = d.running) : Inv d' := by
  refine ⟨?_, ?_, ?_⟩
  · intro t ha
    rw [htask, hr]
    exact h.held t (hs.alive t ha)
  · intro id
    rw [hc]
    refine (h.calls id).still hs ?_
    intro hway
    obtain ⟨hnone, hstop, halone⟩ := (h.calls id).onItsWay hway
    refine ⟨htask.trans hnone, hr.trans hstop, ?_⟩
    intro id' hne
    rw [hc]
    exact halone id' hne
  · intro t ht
    rw [hs.next] at ht
    exact hs.none t (h.numbered t ht)

/-- STEP LEMMA: a call goes on without a loop being created, in agreement with the live one. -/
theorem Inv.move (h : Inv d) (hs : Still d d') (hc : d'.calls = update d.calls id stage)
    (hheld : ∀ t, d'.alive t → d'.task = some t ∧ d'.running = true) (hstage : d'.Fits id stage)
    (ho : ∀ id', id' ≠ id → (d.calls id').onItsWay = true →
      d'.task = none ∧ d'.running = false ∧ stage.inside = false) : Inv d' := by
  refine ⟨hheld, ?_, ?_⟩
  · intro id'
    by_cases hid : id' = id
    · rw [hid, hc, update_self]
      exact hstage
    · rw [hc, update_of_ne hid]
      refine (h.calls id').still hs ?_
      intro hway
      obtain ⟨htask, hr, hout⟩ := ho id' hid hway
      refine ⟨htask, hr, ?_⟩
      intro id'' hne
      by_cases hid'' : id'' = id
      · rw [hid'', hc, update_self]
        exact hout
      · rw [hc, update_of_ne hid'']
        exact ((h.calls id').onItsWay hway).2.2 id'' hne
  · intro t ht
    rw [hs.next] at ht
    exact hs.none t (h.numbered t ht)

theorem Inv.moveInside (h : Inv d) (hs : Still d d') (hins : (d.calls id).inside = true)
    (hc : d'.calls = update d.calls id stage)
    (hheld : ∀ t, d'.alive t → d'.task = some t ∧ d'.running = true) (hstage : d'.Fits id stage) :
    Inv d' := by
  refine h.move hs hc hheld hstage ?_
  intro id' hne hway
  simp [h.notOnItsWay hins hne] at hway

/-- A call goes on outside, with `_task` and `_running` as they were. -/
theorem Inv.moveOutside (h : Inv d) (hs : Still d d')
    (hc : d'.calls = update d.calls id stage) (htask : d'.task = d.task)
    (hr : d'.running = d.running) (hstage : d'.Fits id stage) (hout : stage.inside = false) :
    Inv d' := by
  refine h.move hs hc ?_ hstage ?_
  · intro t ha
    rw [htask, hr]
    exact h.held t (hs.alive t ha)
  · intro id' _ hway
    obtain ⟨hnone, hstop, _⟩ := (h.calls id').onItsWay hway
    exact ⟨htask.trans hnone, hr.trans hstop, hout⟩

theorem Alone.update (h : d.Alone id) (hc : d'.calls = update d.calls id stage) :
    d'.Alone id := by
  intro id' hne
  rw [hc, update_of_ne hne]
  exact h id' hne

/-- With nothing live `_task` and `_running` are held to nothing. -/
theorem held_of_quiet (hqt : d'.Quiet) :
    ∀ t, d'.alive t → d'.task = some t ∧ d'.running = true := by
  intro t ha
  simp [hqt t] at ha

-- ==== the loops

theorem still_setLoop {poll' : PollLoop} (hloop : d.loops t = some poll)
    (ha : poll'.alive = true → poll.alive = true) : Still d (d.setLoop t poll') := by
  refine ⟨rfl, ?_, ?_, ?_⟩
  · intro u hu
    by_cases hut : u = t
    · rw [hut] at hu ⊢
      simp only [SettingsChangeDispatcher.alive, setLoop, update_self] at hu
      rw [SettingsChangeDispatcher.alive, hloop]
      exact ha hu
    · simpa [SettingsChangeDispatcher.alive, setLoop, hut] using hu
  · intro u other ho hover
    by_cases hut : u = t
    · rw [hut, hloop, Option.some.injEq] at ho
      refine ⟨poll', by simp [setLoop, hut], ?_⟩
      by_cases hlive : poll'.alive = true
      · simp [← ho, ha hlive] at hover
      · simpa using hlive
    · exact ⟨other, by simpa [setLoop, hut] using ho, hover⟩
  · intro u hnone
    have hut : u ≠ t := by
      intro heq
      simp [heq, hloop] at hnone
    simpa [setLoop, hut] using hnone

theorem Still.trans {e : SettingsChangeDispatcher} (h : Still d d') (h' : Still d' e) :
    Still d e := by
  refine ⟨h'.next.trans h.next, fun t ha => h.alive t (h'.alive t ha), ?_,
    fun t hnone => h'.none t (h.none t hnone)⟩
  intro t poll hloop hover
  obtain ⟨poll', hloop', hover'⟩ := h.dead t poll hloop hover
  exact h'.dead t poll' hloop' hover'

theorem still_cancelLoop (t : Nat) : Still d (d.cancelLoop t) := by
  rw [cancelLoop]
  split
  next poll hloop => exact still_setLoop hloop (fun hlive => hlive)
  next => exact Still.refl d

structure ByLoop (d d' : SettingsChangeDispatcher) : Prop where
  still : Still d d'
  calls : d'.calls = d.calls
  task : d'.task = d.task
  running : d'.running = d.running

theorem byLoop_refl (d : SettingsChangeDispatcher) : ByLoop d d :=
  ⟨Still.refl d, rfl, rfl, rfl⟩

theorem loopStep_over (hover : poll.alive = false) (input : Input) :
    d.loopStep t poll input = d := by
  cases hs : poll.stage with
  | done ending hand =>
    cases input <;> simp [loopStep, hs, hover]
  | _ => simp [PollLoop.alive, hs] at hover

theorem byLoop_loopStep (hloop : d.loops t = some poll) (input : Input) :
    ByLoop d (d.loopStep t poll input) := by
  by_cases hlive : poll.alive = true
  · have hset : ∀ poll' : PollLoop, ByLoop d (d.setLoop t poll') := fun poll' =>
      ⟨still_setLoop hloop (fun _ => hlive), rfl, rfl, rfl⟩
    have hq : ∀ (poll' : PollLoop) (rest : List DeliveryEnvelope),
        ByLoop d { d.setLoop t poll' with queue := rest } := fun poll' rest =>
      ⟨(hset poll').still.trans (Still.of_loops rfl rfl), rfl, rfl, rfl⟩
    cases input with
    | receive u =>
      rw [loopStep]
      split
      · exact hq _ _
      · exact hq _ _
      · exact byLoop_refl d
    | beginLoop u =>
      rw [loopStep]
      split
      · split
        · exact hset _
        · exact hset _
      · exact byLoop_refl d
    | window u positive =>
      rw [loopStep]
      split
      · split
        · exact hset _
        · exact hset _
      · exact byLoop_refl d
    | close u =>
      rw [loopStep]
      split
      · exact hset _
      · exact byLoop_refl d
    | serve u answer =>
      rw [loopStep]
      split
      · exact hset _
      · exact byLoop_refl d
    | ack u =>
      rw [loopStep]
      split
      · exact hset _
      · exact byLoop_refl d
    | fail u error =>
      rw [loopStep]
      split
      · exact hset _
      · exact hset _
      · exact hset _
      · split
        · exact hset _
        · exact byLoop_refl d
      · exact byLoop_refl d
      · exact byLoop_refl d
      · exact byLoop_refl d
    | endLoop u =>
      rw [loopStep]
      split
      · exact hset _
      · exact byLoop_refl d
    | _ => exact byLoop_refl d
  · rw [loopStep_over (by simpa using hlive)]
    exact byLoop_refl d

theorem Inv.byLoop (h : Inv d) (hby : ByLoop d d') : Inv d' :=
  h.same hby.still hby.calls hby.task hby.running

-- ==== the sections

theorem Inv.acquire (h : Inv d) {method : Method} (hs : d.Fits id (.waiting method lock)) :
    Inv (d.acquire method id lock).1 := by
  rw [SettingsChangeDispatcher.acquire]
  split
  · exact h.same (Still.of_loops rfl rfl) rfl rfl rfl
  · exact h.moveOutside (Still.of_loops rfl rfl) rfl rfl rfl
      (hs.still (Still.of_loops rfl rfl) (by intro hway; cases hway)) rfl

theorem Inv.bindLock (h : Inv d) : Inv d.bindLock.1 := by
  rw [SettingsChangeDispatcher.bindLock]
  split
  · exact h
  · exact h.same (Still.of_loops rfl rfl) rfl rfl rfl

@[simp] theorem calls_resetRunning (t : Nat) : (d.resetRunning t).calls = d.calls := by
  rw [resetRunning]
  split <;> rfl

@[simp] theorem loops_resetRunning (t : Nat) : (d.resetRunning t).loops = d.loops := by
  rw [resetRunning]
  split <;> rfl

@[simp] theorem nextLoop_resetRunning (t : Nat) : (d.resetRunning t).nextLoop = d.nextLoop := by
  rw [resetRunning]
  split <;> rfl

/-- The write of a follow-up finds its loop over, and nothing live where it
writes. -/
theorem Inv.resetRunning (h : Inv d) (hloop : d.loops t = some poll) (hover : poll.alive = false)
    (hc : d'.calls = update d.calls id (.ended false)) (hl : d'.loops = d.loops)
    (hnext : d'.nextLoop = d.nextLoop) (htask : d'.task = (d.resetRunning t).task)
    (hr : d'.running = (d.resetRunning t).running) : Inv d' := by
  by_cases hheld : d.task = some t
  · have hdead : d.alive t = false := by
      rw [SettingsChangeDispatcher.alive, hloop, Option.any_some, hover]
    have hs : Still d d' := Still.of_loops hnext hl
    refine h.move hs hc (held_of_quiet (hs.quiet (h.quiet_of_over hheld hdead))) trivial ?_
    intro id' _ hway
    have hnone := ((h.calls id').onItsWay hway).1
    simp [hheld] at hnone
  · rw [SettingsChangeDispatcher.resetRunning, if_neg hheld] at htask hr
    exact h.moveOutside (Still.of_loops hnext hl) hc htask hr trivial rfl

theorem Inv.enter (h : Inv d) (input : Input) : Inv (d.enter input).1 := by
  cases input with
  | start id =>
    rw [SettingsChangeDispatcher.enter]
    split
    · exact h.bindLock.acquire trivial
    · exact h
  | stop id =>
    rw [SettingsChangeDispatcher.enter]
    split
    · split
      · exact h.acquire trivial
      · exact h.moveOutside (Still.of_loops rfl rfl) rfl rfl rfl trivial rfl
    · exact h
  | followUp id t =>
    rw [SettingsChangeDispatcher.enter]
    split
    · split
      next poll hloop =>
        split
        next he =>
          have hover : poll.alive = false := by
            simp only [Bool.and_eq_true, Bool.not_eq_true'] at he
            exact he.1.1
          have hmark : Inv (d.setLoop t { poll with followedUp := true }) :=
            h.same (still_setLoop hloop (fun hlive => hlive)) rfl rfl rfl
          have hloop' : (d.setLoop t { poll with followedUp := true }).loops t =
              some { poll with followedUp := true } := by
            exact update_self t _ d.loops
          split
          · exact hmark.acquire ⟨_, hloop', hover⟩
          · have hc : (((d.setLoop t { poll with followedUp := true }).resetRunning
                t).setCall id (.ended false)).calls =
                update d.calls id (.ended false) := by
              simp [setCall, setLoop]
            exact hmark.resetRunning hloop' hover hc (by simp [setCall])
              (by simp [setCall]) rfl rfl
        next => exact h
      next => exact h
    · exact h
  | resume id =>
    rw [SettingsChangeDispatcher.enter]
    split
    · split
      · exact h.same (Still.of_loops rfl rfl) rfl rfl rfl
      · exact h
    · exact h
  | _ => exact h

theorem calls_acquire {method : Method} {entered : SettingsChangeDispatcher} {sec : Section}
    (h : d.acquire method id lock = (entered, some sec)) :
    entered.calls = d.calls ∧ entered.loops = d.loops ∧ sec = ⟨method, id, lock⟩ := by
  rw [acquire] at h
  split at h
  · injection (Prod.mk.inj h).2 with hsec
    rw [← (Prod.mk.inj h).1]
    exact ⟨rfl, rfl, hsec.symm⟩
  · cases (Prod.mk.inj h).2

theorem Inv.entered (h : Inv d) {entered : SettingsChangeDispatcher} {sec : Section}
    (he : d.enter input = (entered, some sec)) :
    entered.calls = d.calls ∧ (d.calls sec.id).inside = false ∧
      ∀ t, sec.method = .reset t → ∃ poll, entered.loops t = some poll ∧ poll.alive = false := by
  cases input with
  | start id =>
    rw [SettingsChangeDispatcher.enter] at he
    split at he
    next ha =>
      obtain ⟨hc, _, hsec⟩ := calls_acquire he
      have hbind : d.bindLock.1.calls = d.calls := by
        rw [SettingsChangeDispatcher.bindLock]
        split <;> rfl
      rw [hc, hbind, hsec]
      refine ⟨rfl, by rw [ha]; rfl, ?_⟩
      intro t hmeth
      cases hmeth
    next => cases (Prod.mk.inj he).2
  | stop id =>
    rw [SettingsChangeDispatcher.enter] at he
    split at he
    next ha =>
      split at he
      · obtain ⟨hc, _, hsec⟩ := calls_acquire he
        rw [hc, hsec]
        refine ⟨rfl, by rw [ha]; rfl, ?_⟩
        intro t hmeth
        cases hmeth
      · cases (Prod.mk.inj he).2
    next => cases (Prod.mk.inj he).2
  | followUp id t =>
    rw [SettingsChangeDispatcher.enter] at he
    split at he
    next ha =>
      split at he
      next poll hloop =>
        split at he
        next hended =>
          split at he
          · obtain ⟨hc, hl, hsec⟩ := calls_acquire he
            rw [hc, hsec]
            refine ⟨rfl, by rw [ha]; rfl, ?_⟩
            intro t' hmeth
            injection hmeth with ht
            refine ⟨{ poll with followedUp := true }, ?_, ?_⟩
            · rw [hl, ← ht]
              exact update_self t _ d.loops
            · simp only [Bool.and_eq_true, Bool.not_eq_true'] at hended
              exact hended.1.1
          · cases (Prod.mk.inj he).2
        next => cases (Prod.mk.inj he).2
      next => cases (Prod.mk.inj he).2
    next => cases (Prod.mk.inj he).2
  | resume id =>
    rw [SettingsChangeDispatcher.enter] at he
    split at he
    next method lock hcall =>
      split at he
      · injection (Prod.mk.inj he).2 with hsec
        rw [← (Prod.mk.inj he).1, ← hsec]
        refine ⟨rfl, by rw [hcall]; rfl, ?_⟩
        intro t hmeth
        replace hmeth : method = .reset t := hmeth
        have hfits := h.calls id
        rw [hcall, hmeth] at hfits
        exact hfits
      · cases (Prod.mk.inj he).2
    next => cases (Prod.mk.inj he).2
  | _ => cases (Prod.mk.inj he).2

theorem Inv.task_eq_none (h : Inv d) (hdone : d.taskDone = false) (hr : d.running = false) :
    d.task = none := by
  cases htask : d.task with
  | none => rfl
  | some t => simp [taskDone, htask, h.quiet_of_running hr t] at hdone

/-- STEP LEMMA (`start`, up to its first await). -/
theorem Inv.startSection (h : Inv d) (id lock : Nat)
    (hok : d.stopFailed = false → d.taskDone = false → d.running = false → d.Alone id) :
    Inv (d.startSection id lock) := by
  have hway : ∀ id', (d.calls id').onItsWay = true → d.task = none ∧ d.running = false ∧
      d.Alone id' := fun id' => (h.calls id').onItsWay
  rw [SettingsChangeDispatcher.startSection]
  by_cases hf : d.stopFailed = true
  · rw [if_pos hf]
    exact h.moveOutside (Still.of_loops rfl rfl) rfl rfl rfl trivial rfl
  · rw [if_neg hf]
    by_cases hdone : d.taskDone = true
    · rw [if_pos (show taskDone _ = true from hdone)]
      refine h.move (Still.of_loops rfl rfl) rfl h.held (h.quiet_of_taskDone hdone) ?_
      intro id' _ hon
      simp [taskDone, (hway id' hon).1] at hdone
    · rw [if_neg (show ¬ taskDone _ = true from hdone)]
      by_cases hr : d.running = true
      · rw [if_pos hr]
        exact h.moveOutside (Still.of_loops rfl rfl) rfl rfl rfl trivial rfl
      · rw [if_neg hr]
        simp only [Bool.not_eq_true] at hf hdone hr
        have ha := hok hf hdone hr
        refine h.move (Still.of_loops rfl rfl) rfl h.held
          ⟨h.task_eq_none hdone hr, hr, ha.update rfl⟩ ?_
        intro id' hne hon
        have hin := CallStage.inside_of_onItsWay hon
        simp [ha id' hne] at hin

/-- STEP LEMMA (`stop`, up to its first await). -/
theorem Inv.stopSection (h : Inv d) (id lock : Nat) : Inv (d.stopSection id lock) := by
  rw [SettingsChangeDispatcher.stopSection]
  by_cases hr : d.running = true
  · rw [if_pos hr]
    have hn : ∀ id', (d.calls id').onItsWay = false := by
      intro id'
      by_cases hon : (d.calls id').onItsWay = true
      · have hstop := ((h.calls id').onItsWay hon).2.1
        simp [hr] at hstop
      · simpa using hon
    split
    · refine h.move (Still.of_loops rfl rfl) rfl h.held trivial ?_
      intro id' _ hon
      simp [hn id'] at hon
    next htask =>
      refine h.move (Still.of_loops rfl rfl) rfl h.held (h.quiet_of_task htask) ?_
      intro id' _ hon
      simp [hn id'] at hon
  · rw [if_neg hr]
    exact h.moveOutside (Still.of_loops rfl rfl) rfl rfl rfl trivial rfl

/-- STEP LEMMA (`_reset_running_under_lock`). -/
theorem Inv.resetSection (h : Inv d) (id lock : Nat) (hloop : d.loops t = some poll)
    (hover : poll.alive = false) : Inv (d.resetSection id lock t) := by
  have hc : (d.resetSection id lock t).calls = update d.calls id (.ended false) := by
    simp [SettingsChangeDispatcher.resetSection, leave, setCall, setLock]
  exact h.resetRunning hloop hover hc
    (by simp [SettingsChangeDispatcher.resetSection, leave, setCall, setLock])
    (by simp [SettingsChangeDispatcher.resetSection, leave, setCall, setLock]) rfl rfl

-- ==== the suspended calls

/-- STEP LEMMA (creation): a `start` creates its loop with nothing live and nobody inside. -/
theorem Inv.createLoop (h : Inv d) (hcall : d.calls id = .applying lock) :
    Inv (d.createLoop.leave id lock false) := by
  have hfits := h.calls id
  rw [hcall] at hfits
  obtain ⟨htask, _, halone⟩ := hfits
  have hqt := h.quiet_of_task htask
  have hl : (d.createLoop.leave id lock false).loops =
      update d.loops d.nextLoop (some PollLoop.created) := rfl
  have hc : (d.createLoop.leave id lock false).calls = update d.calls id (.ended false) := rfl
  have honly : ∀ t, (d.createLoop.leave id lock false).alive t → t = d.nextLoop := by
    intro t ha
    by_cases ht : t = d.nextLoop
    · exact ht
    · rw [alive, hl, update_of_ne ht] at ha
      have hdead := hqt t
      simp [alive, ha] at hdead
  refine ⟨?_, ?_, ?_⟩
  · intro t ha
    rw [honly t ha]
    exact ⟨rfl, rfl⟩
  · intro id'
    rw [hc]
    by_cases hid : id' = id
    · rw [hid, update_self]
      trivial
    · rw [update_of_ne hid]
      have hout := halone id' hid
      have ho := h.calls id'
      cases hs : d.calls id' with
      | waiting method lock' =>
        cases method with
        | reset t =>
          rw [hs] at ho
          obtain ⟨poll, hloop, hover⟩ := ho
          have ht : t ≠ d.nextLoop := by
            intro heq
            simp [heq, h.numbered d.nextLoop le_rfl] at hloop
          exact ⟨poll, by rw [hl, update_of_ne ht]; exact hloop, hover⟩
        | start | stop => trivial
      | absent | ended raised => trivial
      | _ =>
        rw [hs] at hout
        cases hout
  · intro t ht
    replace ht : d.nextLoop + 1 ≤ t := ht
    have hne : t ≠ d.nextLoop := by omega
    rw [hl, update_of_ne hne]
    exact h.numbered t (by omega)

theorem Inv.endInside (h : Inv d) {raised : Bool} (hins : (d.calls id).inside = true)
    (hc : d'.calls = update d.calls id (.ended raised)) (hl : d'.loops = d.loops)
    (hnext : d'.nextLoop = d.nextLoop)
    (hheld : d.Quiet ∨ (d'.task = d.task ∧ d'.running = d.running)) : Inv d' := by
  have hs : Still d d' := Still.of_loops hnext hl
  refine h.moveInside hs hins hc ?_ trivial
  cases hheld with
  | inl hqt => exact held_of_quiet (hs.quiet hqt)
  | inr hsame =>
    intro t ha
    rw [hsame.1, hsame.2]
    exact h.held t (hs.alive t ha)

@[simp] theorem calls_cancelLoop (t : Nat) : (d.cancelLoop t).calls = d.calls := by
  rw [cancelLoop]
  split <;> rfl

@[simp] theorem task_cancelLoop (t : Nat) : (d.cancelLoop t).task = d.task := by
  rw [cancelLoop]
  split <;> rfl

@[simp] theorem running_cancelLoop (t : Nat) : (d.cancelLoop t).running = d.running := by
  rw [cancelLoop]
  split <;> rfl

/-- STEP LEMMA (the suspended calls). -/
theorem Inv.goOn (h : Inv d) {reply : Reply}
    (hok : ∀ lock, d.calls id = .recovering lock → reply = .ok → d.Alone id) :
    Inv (d.goOn id reply) := by
  rw [SettingsChangeDispatcher.goOn]
  have hfits := h.calls id
  have hin : ∀ {stage : CallStage}, d.calls id = stage → stage.inside = true →
      (d.calls id).inside = true := by
    intro stage hcall hins
    rw [hcall]
    exact hins
  cases hcall : d.calls id with
  | recovering lock =>
    rw [hcall] at hfits
    have hins := hin hcall rfl
    cases reply with
    | ok =>
      exact h.moveInside (Still.of_loops rfl rfl) hins rfl
        (held_of_quiet (Still.quiet (Still.of_loops rfl rfl) hfits))
        ⟨rfl, rfl, (hok lock hcall rfl).update rfl⟩
    | failed | critical => exact h.endInside hins rfl rfl rfl (.inl hfits)
  | subscribing lock =>
    rw [hcall] at hfits
    obtain ⟨htask, hr, halone⟩ := hfits
    have hins := hin hcall rfl
    cases reply with
    | ok =>
      exact h.moveInside (Still.of_loops rfl rfl) hins rfl h.held ⟨htask, hr, halone.update rfl⟩
    | failed | critical => exact h.endInside hins rfl rfl rfl (.inr ⟨rfl, rfl⟩)
  | applying lock =>
    rw [hcall] at hfits
    have hqt := h.quiet_of_task hfits.1
    cases reply with
    | ok | failed => exact h.createLoop hcall
    | critical =>
      exact h.moveInside (Still.of_loops rfl rfl) (hin hcall rfl)
        rfl (held_of_quiet (Still.quiet (Still.of_loops rfl rfl) hqt))
        ⟨rfl, rfl, hfits.2.2.update rfl⟩
  | rollingBack lock =>
    rw [hcall] at hfits
    have hqt := h.quiet_of_task hfits.1
    have hins := hin hcall rfl
    cases reply with
    | ok | failed | critical => exact h.endInside hins rfl rfl rfl (.inl hqt)
  | resolving lock =>
    have hins := hin hcall rfl
    have hres : Inv (d.resolved id lock .ok) := by
      rw [resolved]
      split
      next t htask =>
        have hs : Still d ((d.cancelLoop t).setCall id (.draining lock t)) :=
          (still_cancelLoop t).trans (Still.of_loops rfl rfl)
        have hc : ((d.cancelLoop t).setCall id (.draining lock t)).calls =
            update d.calls id (.draining lock t) := by
          rw [setCall, calls_cancelLoop]
        refine h.moveInside hs hins hc ?_ ?_
        · intro u ha
          simp only [setCall, task_cancelLoop, running_cancelLoop]
          exact h.held u (hs.alive u ha)
        · intro u ha
          have hheld := (h.held u (hs.alive u ha)).1
          rw [htask, Option.some.injEq] at hheld
          exact hheld.symm
      next => exact h.endInside hins rfl rfl rfl (.inr ⟨rfl, rfl⟩)
    cases reply with
    | ok | failed => exact hres
    | critical => exact h.endInside hins rfl rfl rfl (.inr ⟨rfl, rfl⟩)
  | unsubscribing lock =>
    rw [hcall] at hfits
    have hins := hin hcall rfl
    cases reply with
    | ok | failed | critical => exact h.endInside hins rfl rfl rfl (.inl hfits)
  | absent | waiting method lock | draining lock t | ended raised => exact h

/-- STEP LEMMA (`stop`, after its drain). -/
theorem Inv.drained (h : Inv d) (hins : (d.calls id).inside = true) (hqt : d.Quiet)
    (ending : Ending) : Inv (d.drained id lock ending) := by
  have hgone : Inv ({ d with task := none }.setCall id (.unsubscribing lock)) := by
    have hs : Still d ({ d with task := none }.setCall id (.unsubscribing lock)) :=
      Still.of_loops rfl rfl
    exact h.moveInside hs hins rfl (held_of_quiet (hs.quiet hqt)) (hs.quiet hqt)
  cases ending with
  | critical => exact h.endInside hins rfl rfl rfl (.inl hqt)
  | broke => exact hgone
  | cancelled =>
    rw [SettingsChangeDispatcher.drained]
    split
    · exact h.endInside hins rfl rfl rfl (.inl hqt)
    · exact hgone

theorem Inv.progress (h : Inv d)
    (hok : ∀ id lock, d.calls id = .recovering lock → input = .proceed id .ok → d.Alone id) :
    Inv (d.progress input) := by
  cases input with
  | proceed id reply =>
    refine h.goOn ?_
    intro lock hcall hr
    exact hok id lock hcall (by rw [hr])
  | drained id =>
    rw [SettingsChangeDispatcher.progress]
    split
    next lock t hcall =>
      split
      next poll hloop =>
        split
        next ending hand hs =>
          have hdead : d.alive t = false := by
            rw [SettingsChangeDispatcher.alive, hloop, Option.any_some, PollLoop.alive, hs]
          refine h.drained (by rw [hcall]; rfl) ?_ ending
          intro u
          by_cases ha : d.alive u = true
          · have hfits := h.calls id
            rw [hcall] at hfits
            rw [hfits u ha]
            exact hdead
          · simpa using ha
        next => exact h
      next => exact h
    next => exact h
  | publish envelope => exact h.same (Still.of_loops rfl rfl) rfl rfl rfl
  | beginLoop t | receive t | window t _ | close t | serve t _ | ack t | fail t _ | endLoop t =>
    simp only [SettingsChangeDispatcher.progress, Input.loop?]
    split
    next poll hloop => exact h.byLoop (byLoop_loopStep hloop _)
    next => exact h
  | _ => exact h

/-- STEP LEMMA: an orderly step keeps the invariant. -/
theorem Inv.step (h : Inv d) (hok : d.Orderly input) : Inv (d.step input) := by
  have he := h.enter input
  rw [SettingsChangeDispatcher.step]
  split
  next entered sec henter =>
    obtain ⟨hc, _, hr⟩ := h.entered henter
    rw [henter] at he
    obtain ⟨method, id, lock⟩ := sec
    cases method with
    | start =>
      refine Inv.startSection he id lock ?_
      intro hf hdone hrunning id' hne
      rw [hc]
      exact hok id (.inl ⟨entered, lock, henter, hf, hdone, hrunning⟩) id' hne
    | stop => exact Inv.stopSection he id lock
    | reset t =>
      obtain ⟨poll, hloop, hover⟩ := hr t rfl
      exact Inv.resetSection he id lock hloop hover
  next entered henter =>
    rw [henter] at he
    refine Inv.progress he ?_
    intro id lock hcall hi
    have hsame : (d, none) = (entered, (none : Option Section)) := by
      rw [← henter, hi]
      rfl
    rw [← (Prod.mk.inj hsame).1] at hcall ⊢
    exact hok id (.inr ⟨lock, hcall, hi⟩)

-- ==== the runs

structure Reached (d : SettingsChangeDispatcher) (poll : PollLoop) : Prop where
  told : ∃ (batches : List (List DeliveryEnvelope)) (begun : List Notice),
    poll.taken = batches.flatten ++ poll.hand ∧
      poll.delivered = batches.flatMap (notices d.subscribers) ++ begun ∧
      begun <+: notices d.subscribers poll.hand ∧
      ∀ batch ∈ batches, ∀ envelope ∈ batch, ∀ change, envelope.change? = some change →
        ∀ subscriber ∈ d.subscribers, change ∈ subscriber.watchedKeys →
          ∃ notice ∈ poll.delivered, notice.subscriber = subscriber ∧ change ∈ notice.watched
  order : poll.taken.Sublist d.published
  clean : ∀ hand, poll.stage = .done .broke hand → hand = []

structure Promise (d : SettingsChangeDispatcher) (inputs : List Input) : Prop where
  /-- At most one poll loop is alive at any time. -/
  single : ∀ v ∈ Run.states step d inputs, ∀ t u, v.alive t → v.alive u → t = u
  held : ∀ v ∈ Run.states step d inputs, ∀ t, v.alive t → v.task = some t
  reached : ∀ v ∈ Run.states step d inputs, ∀ t poll, v.loops t = some poll → v.Reached poll

theorem LoopKept.reached (h : d.LoopKept poll) : d.Reached poll := by
  obtain ⟨batches, told, ht, hd, htold⟩ := h.books
  refine ⟨⟨batches, told, ht, hd, htold.begins, ?_⟩, ?_, h.clean⟩
  · intro batch hb envelope henv change hc subscriber hsub hw
    obtain ⟨notice, hnot, hwho, hwhat⟩ := mem_notices henv hc hsub hw
    refine ⟨notice, ?_, hwho, hwhat⟩
    rw [hd]
    exact mem_append_left _ (mem_flatMap.2 ⟨batch, hb, hnot⟩)
  · exact (sublist_append_left _ _).trans h.order

/-- A `start` passes its checks alone, and no receive inside a coalescing window raises. -/
def Careful (d : SettingsChangeDispatcher) (input : Input) : Prop :=
  d.Orderly input ∧ d.WindowHolds input

/-- SETTINGS CHANGES REACH THEIR SUBSCRIBERS: what a run of careful steps keeps. -/
theorem changes_reach_subscribers (subscribers : List Subscriber) (inputs : List Input)
    (hcareful : Run.Throughout step Careful (new subscribers) inputs) :
    Promise (new subscribers) inputs := by
  have hboth : ∀ v ∈ Run.states step (new subscribers) inputs, Inv v ∧ Ledger v :=
    Run.throughout_states (P := fun v => Inv v ∧ Ledger v)
      (fun _ _ hok h => ⟨h.1.step hok.1, h.2.step hok.2⟩) hcareful
      ⟨new_inv subscribers, new_ledger subscribers⟩
  refine ⟨?_, ?_, ?_⟩
  · intro v hv t u ht hu
    have hheld := ((hboth v hv).1.held t ht).1
    rw [((hboth v hv).1.held u hu).1, Option.some.injEq] at hheld
    exact hheld.symm
  · intro v hv t ht
    exact ((hboth v hv).1.held t ht).1
  · intro v hv t poll hloop
    exact ((hboth v hv).2.loops t poll hloop).reached

theorem careful_of_quiet (he : (d.enter input).2 = none)
    (hp : ∀ id lock, d.calls id = .recovering lock → input ≠ .proceed id .ok)
    (hfail : ∀ t error, input ≠ .fail t error) : d.Careful input := by
  refine ⟨?_, ?_⟩
  · intro id hpast
    cases hpast with
    | inl hs =>
      obtain ⟨entered, lock, hpair, _⟩ := hs
      simp [hpair] at he
    | inr hrec =>
      obtain ⟨lock, hcall, hi⟩ := hrec
      exact absurd hi (hp id lock hcall)
  · intro t error hi
    exact absurd hi (hfail t error)

def budgetWatcher : Subscriber := ⟨"budget", [("budget", "limit")]⟩

def limitChanged : DeliveryEnvelope := ⟨[("namespace", "budget"), ("key", "limit")]⟩

/-- A dispatcher is started, takes a change off the bus and tells it. -/
theorem one_change_reaches : Promise (new [budgetWatcher])
    [.start 0, .proceed 0 .ok, .proceed 0 .ok, .beginLoop 0, .publish limitChanged, .receive 0,
      .window 0 true, .close 0, .serve 0 .returned, .ack 0] := by
  refine changes_reach_subscribers _ _ ⟨⟨?_, ?_⟩, ?_, ?_, ?_, ?_, ?_, ?_, ?_, ?_, ?_, trivial⟩
  · intro id _ id' _
    rfl
  · intro t error hinput
    cases hinput
  · refine careful_of_quiet rfl ?_ (by intro t error heq; cases heq)
    intro id lock hcall heq
    injection heq with hid
    rw [← hid] at hcall
    cases hcall
  · refine careful_of_quiet rfl ?_ (by intro t error heq; cases heq)
    intro id lock hcall heq
    injection heq with hid
    rw [← hid] at hcall
    cases hcall
  all_goals
    exact careful_of_quiet rfl (by intro id lock hcall heq; cases heq)
      (by intro t error heq; cases heq)

-- ==== what goes wrong

def failedInWindow : List Input :=
  [.start 0, .proceed 0 .ok, .proceed 0 .ok, .beginLoop 0, .publish limitChanged, .receive 0,
    .window 0 true, .fail 0 (.transient 30)]

/-- The change is gone: the loop polls on, and nobody was told. -/
theorem lost_in_window : ¬ ∀ subscribers inputs, Promise (new subscribers) inputs := by
  intro h
  have hin : run (new [budgetWatcher]) failedInWindow ∈
      Run.states step (new [budgetWatcher]) failedInWindow :=
    (Run.mem_states_iff _ _ _ _).2 ⟨failedInWindow, [], by simp, rfl⟩
  obtain ⟨batches, begun, htaken, _, _, htold⟩ :=
    ((h [budgetWatcher] failedInWindow).reached _ hin 0 _ rfl).told
  have hmem : limitChanged ∈ batches.flatten := by
    have htaken' : [limitChanged] = batches.flatten ++ [] := htaken
    rw [append_nil] at htaken'
    rw [← htaken']
    exact mem_singleton.2 rfl
  obtain ⟨batch, hbatch, henvelope⟩ := List.mem_flatten.1 hmem
  obtain ⟨notice, hnotice, _⟩ := htold batch hbatch limitChanged henvelope ("budget", "limit")
    (by decide) budgetWatcher (mem_singleton.2 rfl) (by decide)
  cases hnotice

end SettingsChangeDispatcher

end Synthorg.Settings
