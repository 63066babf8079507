/-
What a failure stops in a group of assignments (engine/parallel.py).

The counters are those of the phases (`tally`), so a step that moves one
assignment moves them by one. A failure that is returned stops nobody, and one
that is raised first wakes the next waiter: only where nobody waits any more does
nothing start after it.
-/
import Synthorg.Coordination.Parallel
import Synthorg.Lib.Run

namespace Synthorg.Parallel

open Lib
open List

-- ==== the counters

def tally (phases : List Phase) : Progress where
  inProgress := phases.countP Phase.isRunning
  succeeded := phases.countP (Phase.records AgentOutcome.isSuccess)
  awaitingHuman := phases.countP (Phase.records AgentOutcome.isAwaitingHuman)
  failed := phases.countP (Phase.records AgentOutcome.isFailure)
  completed := phases.countP (Phase.records fun _ => true)

/-- THE INVARIANT of the counters. -/
structure Inv (group : ParallelExecutionGroup) (n : Nat) (s : State) : Prop where
  length : s.phases.length = n
  tally : s.progress = tally s.phases
  limit : ∀ limit, group.maxConcurrency = some limit → s.progress.inProgress ≤ limit

variable {group : ParallelExecutionGroup} {n i : Nat} {s : State} {phase phase' : Phase}

theorem countP_move {p : Phase → Bool} {phases : List Phase} (h : phases[i]? = some phase) :
    (phases.set i phase').countP p + (p phase).toNat = phases.countP p + (p phase').toNat := by
  induction phases generalizing i with
  | nil => simp at h
  | cons first rest ih =>
    cases i with
    | zero =>
      obtain rfl : first = phase := by simpa using h
      simp only [set_cons_zero, countP_cons]
      cases p first <;> cases p phase' <;> simp
    | succ i =>
      have hrest := ih (by simpa using h)
      simp only [set_cons_succ, countP_cons]
      omega

theorem Inv.moved (h : Inv group n s) (hphase : s.phases[i]? = some phase) {t : State}
    (hp : t.phases = s.phases.set i phase')
    (hr : t.progress.inProgress + phase.isRunning.toNat =
      s.progress.inProgress + phase'.isRunning.toNat)
    (hsucc : t.progress.succeeded + (phase.records AgentOutcome.isSuccess).toNat =
      s.progress.succeeded + (phase'.records AgentOutcome.isSuccess).toNat)
    (ha : t.progress.awaitingHuman + (phase.records AgentOutcome.isAwaitingHuman).toNat =
      s.progress.awaitingHuman + (phase'.records AgentOutcome.isAwaitingHuman).toNat)
    (hf : t.progress.failed + (phase.records AgentOutcome.isFailure).toNat =
      s.progress.failed + (phase'.records AgentOutcome.isFailure).toNat)
    (hc : t.progress.completed + (phase.records fun _ => true).toNat =
      s.progress.completed + (phase'.records fun _ => true).toNat)
    (hl : ∀ limit, group.maxConcurrency = some limit → t.progress.inProgress ≤ limit) :
    Inv group n t := by
  refine ⟨by rw [hp, length_set, h.length], ?_, hl⟩
  have hmove : ∀ p : Phase → Bool, (s.phases.set i phase').countP p + (p phase).toNat =
      s.phases.countP p + (p phase').toNat := fun _ => countP_move hphase
  rw [h.tally] at hr hsucc ha hf hc
  rw [hp]
  ext
  · exact Nat.add_right_cancel (hr.trans (hmove _).symm)
  · exact Nat.add_right_cancel (hsucc.trans (hmove _).symm)
  · exact Nat.add_right_cancel (ha.trans (hmove _).symm)
  · exact Nat.add_right_cancel (hf.trans (hmove _).symm)
  · exact Nat.add_right_cancel (hc.trans (hmove _).symm)

theorem Inv.room (h : Inv group n s) (hroom : s.hasRoom group = true) {limit : Nat}
    (hl : group.maxConcurrency = some limit) : s.progress.enter.inProgress ≤ limit := by
  simp only [State.hasRoom, hl, decide_eq_true_eq] at hroom
  have hcnt : s.progress.inProgress = s.phases.countP Phase.isRunning := by rw [h.tally]; rfl
  show s.progress.inProgress + 1 ≤ limit
  omega

theorem Inv.running (h : Inv group n s) (hp : s.phases[i]? = some .running) :
    0 < s.progress.inProgress := by
  rw [h.tally]
  exact countP_pos_iff.2 ⟨_, mem_of_getElem? hp, rfl⟩

/-- STEP LEMMA of the counters. -/
theorem Inv.step (h : Inv group n s) (event : Event) : Inv group n (step group s event) := by
  cases event with
  | turn i =>
    simp only [Parallel.step]
    split
    · exact h
    next hp =>
      have hc := of_not_not hp
      split
      · exact h.moved hc rfl rfl rfl rfl rfl rfl h.limit
      · split
        · exact h.moved hc rfl rfl rfl rfl rfl rfl h.limit
        · split
          next hroom => exact h.moved hc rfl rfl rfl rfl rfl rfl fun _ => h.room hroom.1
          · exact h.moved hc rfl rfl rfl rfl rfl rfl h.limit
  | start i =>
    simp only [Parallel.step]
    split
    next hs => exact h.moved hs.1 rfl rfl rfl rfl rfl rfl fun _ => h.room hs.2.2
    · exact h
  | finish i ending =>
    simp only [Parallel.step]
    split
    · exact h
    next hp =>
      have hr := of_not_not hp
      have hpos := h.running hr
      exact h.moved hr rfl (Nat.sub_add_cancel hpos) rfl rfl rfl rfl
        fun limit hl => (Nat.sub_le _ _).trans (h.limit limit hl)
  | cancel i =>
    simp only [Parallel.step]
    split
    next hp => exact h.moved hp rfl rfl rfl rfl rfl rfl h.limit
    next hp => exact h.moved hp rfl rfl rfl rfl rfl rfl h.limit
    next hp =>
      have hpos := h.running hp
      exact h.moved hp rfl (Nat.sub_add_cancel hpos) rfl rfl rfl rfl
        fun limit hl => (Nat.sub_le _ _).trans (h.limit limit hl)
    · exact h
  | beginShutdown => exact ⟨h.length, h.tally, h.limit⟩
  | abort =>
    simp only [Parallel.step]
    split
    · exact ⟨h.length, h.tally, h.limit⟩
    · exact h
  | cancelGroup => exact ⟨h.length, h.tally, h.limit⟩

theorem inv_fresh : Inv group n (fresh n) where
  length := length_replicate
  tally := by ext <;> simp [fresh, tally, countP_replicate, Phase.isRunning, Phase.records]
  limit := fun _ _ => Nat.zero_le _

theorem tally_sum (phases : List Phase) :
    (tally phases).succeeded + (tally phases).awaitingHuman + (tally phases).failed =
        (tally phases).completed ∧
      (tally phases).inProgress + (tally phases).completed ≤ phases.length := by
  induction phases with
  | nil => exact ⟨rfl, Nat.le_refl 0⟩
  | cons phase rest ih =>
    simp only [tally, countP_cons] at ih ⊢
    cases phase with
    | recorded outcome =>
      have hk : outcome.isSuccess.toNat + outcome.isAwaitingHuman.toNat +
          outcome.isFailure.toNat = 1 := by
        rcases outcome with ⟨_ | _ | _⟩ | text <;> rfl
      cases hs : outcome.isSuccess <;> cases ha : outcome.isAwaitingHuman <;>
        cases hf : outcome.isFailure <;>
          simp [Phase.records, Phase.isRunning, hs, ha, hf] at hk ⊢ <;> omega
    | _ => simp [Phase.records, Phase.isRunning]; omega

-- ==== what a step does

/-- An assignment that may still start. -/
def Waits (s : State) (i : Nat) : Prop :=
  s.aborting = false ∧ (s.phases[i]? = some .waiting ∨
    s.phases[i]? = some .created ∧ s.shuttingDown = false)

def Fails (s : State) : Event → Nat → Prop
  | .turn i, j => j = i ∧ s.shuttingDown = true
  | .finish i ending, j => j = i ∧ ending.outcome.isFailure = true
  | .cancel i, j => j = i ∧ s.phases[i]? ≠ some .created
  | _, _ => False

structure Moves (s : State) (event : Event) (i : Nat) (phase phase' : Phase)
    (t : State) : Prop where
  before : s.phases[i]? = some phase
  after : t.phases = s.phases.set i phase'
  unrecorded : ∀ outcome, phase ≠ .recorded outcome
  left : phase' ≠ .created
  waited : phase' = .waiting ∨ phase' = .running → Waits s i
  fails : ∀ outcome, phase' = .recorded outcome → outcome.isFailure = true → Fails s event i

/-- A STEP moves one assignment or none, and takes no flag back. -/
theorem step_cases (group : ParallelExecutionGroup) (s : State) (event : Event) :
    ((step group s event).phases = s.phases ∨
      ∃ i phase phase', Moves s event i phase phase' (step group s event)) ∧
      (s.aborting = true → (step group s event).aborting = true) ∧
      (s.shuttingDown = true → (step group s event).shuttingDown = true) := by
  cases event with
  | turn i =>
    simp only [step]
    split
    · exact ⟨.inl rfl, id, id⟩
    next hp =>
      have hc := of_not_not hp
      split
      · exact ⟨.inr ⟨i, _, _, hc, rfl, nofun, nofun, nofun, nofun⟩, id, id⟩
      next hopen =>
        split
        next hdown =>
          exact ⟨.inr ⟨i, _, _, hc, rfl, nofun, nofun, nofun, fun _ _ _ => ⟨rfl, hdown⟩⟩,
            id, id⟩
        next hup =>
          have hw : Waits s i :=
            ⟨Bool.eq_false_iff.2 hopen, .inr ⟨hc, Bool.eq_false_iff.2 hup⟩⟩
          split
          · exact ⟨.inr ⟨i, _, _, hc, rfl, nofun, nofun, fun _ => hw, nofun⟩, id, id⟩
          · exact ⟨.inr ⟨i, _, _, hc, rfl, nofun, nofun, fun _ => hw, nofun⟩, id, id⟩
  | start i =>
    simp only [step]
    split
    next hs =>
      exact ⟨.inr ⟨i, _, _, hs.1, rfl, nofun, nofun,
        fun _ => ⟨hs.2.1, .inl hs.1⟩, nofun⟩, id, id⟩
    · exact ⟨.inl rfl, id, id⟩
  | finish i ending =>
    simp only [step]
    split
    · exact ⟨.inl rfl, id, id⟩
    next hp =>
      refine ⟨.inr ⟨i, _, _, of_not_not hp, rfl, nofun, nofun, nofun, ?_⟩, id, id⟩
      intro outcome heq hfail
      cases heq
      exact ⟨rfl, hfail⟩
  | cancel i =>
    simp only [step]
    split
    next hp => exact ⟨.inr ⟨i, _, _, hp, rfl, nofun, nofun, nofun, nofun⟩, id, id⟩
    next hp =>
      exact ⟨.inr ⟨i, _, _, hp, rfl, nofun, nofun, nofun,
        fun _ _ _ => ⟨rfl, by simp [hp]⟩⟩, id, id⟩
    next hp =>
      exact ⟨.inr ⟨i, _, _, hp, rfl, nofun, nofun, nofun,
        fun _ _ _ => ⟨rfl, by simp [hp]⟩⟩, id, id⟩
    · exact ⟨.inl rfl, id, id⟩
  | beginShutdown => exact ⟨.inl rfl, id, fun _ => rfl⟩
  | abort =>
    simp only [step]
    split
    · exact ⟨.inl rfl, fun _ => rfl, id⟩
    · exact ⟨.inl rfl, id, id⟩
  | cancelGroup => exact ⟨.inl rfl, fun _ => rfl, id⟩

theorem recorded_step {outcome : AgentOutcome} (event : Event)
    (h : s.phases[i]? = some (.recorded outcome)) :
    (step group s event).phases[i]? = some (.recorded outcome) := by
  rcases (step_cases group s event).1 with heq | ⟨j, phase, phase', hm⟩
  · rw [heq, h]
  · have hne : j ≠ i := by
      rintro rfl
      have hsame := hm.before
      rw [h, Option.some_inj] at hsame
      exact hm.unrecorded _ hsame.symm
    rw [hm.after, getElem?_set_ne hne, h]

-- ==== the failure

def Failed (s : State) : Prop :=
  ∃ (i : Nat) (outcome : AgentOutcome), s.phases[i]? = some (.recorded outcome) ∧
    outcome.isFailure = true

/-- A failure is recorded only where no other assignment may still start. -/
def Careful (s : State) (event : Event) : Prop :=
  ∀ i, Fails s event i → ∀ j, j ≠ i → ¬ Waits s j

def StartsNobody (group : ParallelExecutionGroup) (s : State) (event : Event) : Prop :=
  Failed s → ∀ i : Nat, (step group s event).phases[i]? = some .running →
    s.phases[i]? = some .running

/-- THE INVARIANT of careful runs. -/
def Stopped (s : State) : Prop := Failed s → ∀ i, ¬ Waits s i

/-- STEP LEMMA of careful runs. -/
theorem Stopped.step (h : Stopped s) {event : Event} (hc : Careful s event) :
    Stopped (step group s event) := by
  obtain ⟨hphase, haborting, hdown⟩ := step_cases group s event
  -- whoever waits now, and has not moved, waited before
  have hwait : ∀ j, (Parallel.step group s event).phases[j]? = s.phases[j]? →
      Waits (Parallel.step group s event) j → Waits s j := by
    rintro j hsame ⟨hopen, hp⟩
    rw [hsame] at hp
    refine ⟨Bool.eq_false_iff.2 fun ha => ?_, hp.imp_right (And.imp_right fun hup => ?_)⟩
    · simp [haborting ha] at hopen
    · refine Bool.eq_false_iff.2 fun hd => ?_
      simp [hdown hd] at hup
  rintro ⟨i, outcome, hr, hfail⟩ j hw
  rcases hphase with heq | ⟨k, phase, phase', hm⟩
  · rw [heq] at hr
    exact h ⟨i, outcome, hr, hfail⟩ j (hwait j (by rw [heq]) hw)
  · have hat : ∀ l, l ≠ k → (Parallel.step group s event).phases[l]? = s.phases[l]? := by
      intro l hl
      rw [hm.after, getElem?_set_ne (Ne.symm hl)]
    have hmoved : (Parallel.step group s event).phases[k]? = some phase' := by
      obtain ⟨hk, -⟩ := List.getElem?_eq_some_iff.1 hm.before
      rw [hm.after, getElem?_set_self hk]
    by_cases hik : i = k
    · -- the failure is recorded now, and whoever waits has not moved
      subst hik
      rw [hmoved, Option.some_inj] at hr
      subst hr
      by_cases hji : j = i
      · subst hji
        rcases hw.2 with hp | ⟨hp, -⟩ <;> simp [hmoved] at hp
      · exact hc i (hm.fails _ rfl hfail) j hji (hwait j (hat j hji) hw)
    · rw [hat i hik] at hr
      refine h ⟨i, outcome, hr, hfail⟩ j ?_
      by_cases hjk : j = k
      · subst hjk
        rcases hw.2 with hp | ⟨hp, -⟩ <;> rw [hmoved, Option.some_inj] at hp
        · exact hm.waited (.inl hp)
        · exact absurd hp hm.left
      · exact hwait j (hat j hjk) hw

theorem Stopped.startsNobody (h : Stopped s) (event : Event) : StartsNobody group s event := by
  intro hf i hr
  rcases (step_cases group s event).1 with heq | ⟨k, phase, phase', hm⟩
  · rwa [heq] at hr
  · by_cases hik : i = k
    · subst hik
      obtain ⟨hi, -⟩ := List.getElem?_eq_some_iff.1 hm.before
      rw [hm.after, getElem?_set_self hi, Option.some_inj] at hr
      exact absurd (hm.waited (.inr hr)) (h hf i)
    · rwa [hm.after, getElem?_set_ne (Ne.symm hik)] at hr

theorem stopped_fresh : Stopped (fresh n) := by
  rintro ⟨i, outcome, hr, -⟩
  simp [fresh, List.getElem?_replicate] at hr

-- ==== the runs

/-- What the counters say, in every order. -/
structure Accounted (group : ParallelExecutionGroup) (n : Nat) (s : State) : Prop where
  outcomes : (buildResult s).length = n
  running : s.progress.inProgress = s.phases.countP Phase.isRunning
  limit : ∀ limit, group.maxConcurrency = some limit → s.progress.inProgress ≤ limit
  failed : s.progress.failed = s.phases.countP (Phase.records AgentOutcome.isFailure)
  completed : s.progress.completed = s.phases.countP (Phase.records fun _ => true)
  sum : s.progress.succeeded + s.progress.awaitingHuman + s.progress.failed = s.progress.completed
  bound : s.progress.inProgress + s.progress.completed ≤ n

theorem Inv.accounted (h : Inv group n s) : Accounted group n s := by
  obtain ⟨hsum, hb⟩ := tally_sum s.phases
  rw [← h.tally] at hsum hb
  refine ⟨?_, by rw [h.tally]; rfl, h.limit, by rw [h.tally]; rfl, by rw [h.tally]; rfl, hsum, ?_⟩
  · rw [buildResult, length_map, h.length]
  · rwa [h.length] at hb

/-- THE FAILURE. Counters and outcomes are right in every run; and nobody starts after a failure
recorded where no other assignment may still start. -/
theorem failure_stops (group : ParallelExecutionGroup) (n : Nat) (events : List Event) :
    (∀ s ∈ Run.states (step group) (fresh n) events, Accounted group n s) ∧
      (∀ xs ys (i : Nat) outcome, events = xs ++ ys →
        (Run.final (step group) (fresh n) xs).phases[i]? = some (.recorded outcome) →
          (buildResult (Run.final (step group) (fresh n) events))[i]? = some outcome) ∧
      (Run.Throughout (step group) Careful (fresh n) events →
        Run.Throughout (step group) (StartsNobody group) (fresh n) events) := by
  refine ⟨fun s hs => ?_, ?_, fun hcareful => ?_⟩
  · obtain ⟨xs, ys, -, rfl⟩ := (Run.mem_states_iff _ _ _ _).1 hs
    exact (Run.kept (P := Inv group n) (fun _ event h => h.step event) inv_fresh xs).accounted
  · rintro xs ys i outcome rfl hrecorded
    have hlast : (Run.final (step group) (fresh n) (xs ++ ys)).phases[i]? =
        some (.recorded outcome) := by
      rw [Run.final_append]
      exact Run.kept (P := fun s : State => s.phases[i]? = some (Phase.recorded outcome))
        (fun _ event h => recorded_step event h) hrecorded ys
    rw [buildResult, List.getElem?_map, hlast]
    rfl
  · have hrun : ∀ s, Stopped s → Run.Throughout (step group) Careful s events →
        Run.Throughout (step group) (StartsNobody group) s events := by
      clear hcareful
      induction events with
      | nil => exact fun _ _ _ => trivial
      | cons event rest ih =>
        exact fun s hs h => ⟨hs.startsNobody event, ih _ (hs.step h.1) h.2⟩
    exact hrun (fresh n) stopped_fresh hcareful

/-- Both run, and then one fails. -/
theorem failure_stops_two :
    Run.Throughout (step ⟨true, some 2⟩) (StartsNobody ⟨true, some 2⟩) (fresh 2)
      [.turn 0, .turn 1, .finish 0 (.raised "boom"), .abort, .cancel 1] :=
  (failure_stops ⟨true, some 2⟩ 2 _).2.2 (by
    refine ⟨fun i h => absurd h.2 nofun, fun i h => absurd h.2 nofun, ?_, nofun, ?_, trivial⟩
    · rintro i ⟨rfl, -⟩ j hj ⟨-, hwaits⟩
      rcases j with _ | _ | j
      · exact hj rfl
      · rcases hwaits with h | ⟨h, -⟩ <;> exact absurd h nofun
      · rcases hwaits with h | ⟨h, -⟩ <;> exact absurd h nofun
    · rintro i - j - ⟨h, -⟩
      exact absurd h nofun)

theorem started_after_failure :
    ¬ Run.Throughout (step ⟨true, some 1⟩) (StartsNobody ⟨true, some 1⟩) (fresh 2)
      [.turn 0, .turn 1, .finish 0 (.returned .failing), .start 1] := by
  intro h
  have hstarted := h.2.2.2.1 ⟨0, .result .failing, rfl, rfl⟩ 1 rfl
  exact absurd hstarted nofun

end Synthorg.Parallel
