/-
A decomposition ends, and what it spends stays within its budget.

# The meter

A logged service keeps the list of the planning calls it made (`logged`), which
changes nothing else (`decomposeTask_logged`). The ledger counts those calls:
`Metered` says so of any stretch of a decomposition, and stretches compose.

# Termination

A level opens only where the budget has room below it, so `Fuelled` levels are
enough for the recursion (`doDecompose_terminates`), and what a level reports is
settled against the policy unless a check ended it (`UnitsSettled`).
-/
import Synthorg.Decomposition.Proofs.Containers

namespace Synthorg.Decomposition

open Synthorg.Core Lib

section
open List

-- ==== logged calls

abbrev PlanningCall := Task × DecompositionContext

def DecompositionStrategy.logged {σ : Type} (strategy : DecompositionStrategy σ) :
    DecompositionStrategy (σ × List PlanningCall) where
  decompose := fun task context world =>
    let ran := strategy.decompose task context world.1
    (ran.1, (ran.2, world.2 ++ [(task, context)]))
  plansAnyTask := strategy.plansAnyTask

def DecompositionService.logged {σ : Type} (service : DecompositionService σ) :
    DecompositionService (σ × List PlanningCall) where
  strategy := service.strategy.logged
  classify := service.classify
  assessSubtask := service.assessSubtask
  configResolver := service.configResolver
  lower := service.lower

def Session.unlogged {σ : Type} (session : Session (σ × List PlanningCall)) : Session σ where
  ledger := session.ledger
  world := session.world.1

section Logged

variable {σ : Type} (service : DecompositionService σ) (now : Int) (budget : RecursionBudget)

def unloggedRun {ε α : Type} (ran : Except ε α × Session (σ × List PlanningCall)) :
    Except ε α × Session σ :=
  (ran.1, ran.2.unlogged)

theorem unloggedRun_onOk {ε α β : Type} (f : α → β)
    (ran : Except ε α × Session (σ × List PlanningCall)) :
    unloggedRun (onOk f ran) = onOk f (unloggedRun ran) := rfl

theorem splitUnits_logged (context : DecompositionContext)
    (openChild : Task → DecompositionContext → Session σ →
      Except PlanningError DecompositionResult × Session σ)
    (openLogged : Task → DecompositionContext → Session (σ × List PlanningCall) →
      Except PlanningError DecompositionResult × Session (σ × List PlanningCall))
    (hopen : ∀ task context session,
      unloggedRun (openLogged task context session) =
        openChild task context session.unlogged)
    (items : List (SubtaskDefinition × Task)) (position : Nat)
    (session : Session (σ × List PlanningCall)) :
    unloggedRun (service.logged.splitUnits budget context openLogged position items session) =
      service.splitUnits budget context openChild position items session.unlogged := by
  induction items generalizing position session with
  | nil => rfl
  | cons item rest ih =>
    obtain ⟨s, task⟩ := item
    cases hdec : decideSplit budget context s session.ledger with
    | mk decision ledger =>
      have hdec' : decideSplit budget context s session.unlogged.ledger = (decision, ledger) := hdec
      cases decision with
      | leave =>
        rw [service.logged.splitUnits_leave hdec, service.splitUnits_leave hdec']
        exact ih (position + 1) { session with ledger := ledger }
      | unsplit reason =>
        rw [service.logged.splitUnits_unsplit hdec,
          service.splitUnits_unsplit hdec', unloggedRun_onOk,
          ih (position + 1) { session with ledger := ledger }]
        rfl
      | split =>
        have hc := hopen task (service.unitContext context position s)
          { session with ledger := ledger }
        cases hran : openLogged task (service.logged.unitContext context position s)
            { session with ledger := ledger } with
        | mk result opened =>
          have hopened : openChild task (service.unitContext context position s)
              { session.unlogged with ledger := ledger } =
              (result, opened.unlogged) :=
            hc.symm.trans (congrArg unloggedRun hran)
          cases result with
          | ok child =>
            rw [service.logged.splitUnits_opened hdec hran,
              service.splitUnits_opened hdec' hopened, unloggedRun_onOk,
              ih (position + 1) opened]
          | error e =>
            cases ha : absorbedChildReason e (budget.policy.assess s) with
            | none =>
              rw [service.logged.splitUnits_raised hdec hran ha,
                service.splitUnits_raised hdec' hopened ha]
              rfl
            | some reason =>
              rw [service.logged.splitUnits_absorbed hdec hran ha,
                service.splitUnits_absorbed hdec' hopened ha,
                unloggedRun_onOk, ih (position + 1) opened]

theorem unloggedRun_closeLevel (context : DecompositionContext) (plan : DecompositionPlan)
    (tasks : List Task)
    (ran : Except PlanningError SplitOutcome × Session (σ × List PlanningCall)) :
    unloggedRun (DecompositionService.closeLevel context plan tasks ran) =
      DecompositionService.closeLevel context plan tasks (unloggedRun ran) := by
  obtain ⟨result, session⟩ := ran
  cases result with
  | error e | ok outcome => rfl

theorem splitOversized_logged (context : DecompositionContext)
    (openChild : Task → DecompositionContext → Session σ →
      Except PlanningError DecompositionResult × Session σ)
    (openLogged : Task → DecompositionContext → Session (σ × List PlanningCall) →
      Except PlanningError DecompositionResult × Session (σ × List PlanningCall))
    (hopen : ∀ task context session,
      unloggedRun (openLogged task context session) =
        openChild task context session.unlogged)
    (subtasks : List SubtaskDefinition) (tasks : List Task)
    (session : Session (σ × List PlanningCall)) :
    unloggedRun (service.logged.splitOversized budget context openLogged subtasks tasks session) =
      service.splitOversized budget context openChild subtasks tasks session.unlogged := by
  unfold DecompositionService.splitOversized
  rw [show service.logged.strategy.plansAnyTask = service.strategy.plansAnyTask from rfl]
  split
  next => rfl
  next => exact splitUnits_logged service budget context openChild openLogged hopen _ 0 session

theorem doDecompose_logged (levels : Nat) (task : Task) (context : DecompositionContext)
    (session : Session (σ × List PlanningCall)) :
    unloggedRun (service.logged.doDecompose now budget levels task context session) =
      service.doDecompose now budget levels task context session.unlogged := by
  induction levels generalizing task context session with
  | zero => rfl
  | succ levels ih =>
    cases hran : service.strategy.decompose task (heldToSize budget context) session.world.1 with
    | mk result world =>
      have hl : service.logged.strategy.decompose task (heldToSize budget context)
          session.world =
          (result, (world, session.world.2 ++ [(task, heldToSize budget context)])) := by
        show ((service.strategy.decompose task _ session.world.1).1,
          ((service.strategy.decompose task _ session.world.1).2, _)) = _
        rw [hran]
      have hp : service.strategy.decompose task (heldToSize budget context)
          session.unlogged.world = (result, world) := hran
      cases result with
      | error e =>
        rw [service.logged.doDecompose_unplanned hl, service.doDecompose_unplanned hp]
        rfl
      | ok planned =>
        cases hd : service.draftLevel now task planned.val with
        | error e =>
          rw [service.logged.doDecompose_undrafted hl hd,
            service.doDecompose_undrafted hp hd]
          rfl
        | ok drafted =>
          rw [service.logged.doDecompose_drafted hl hd,
            service.doDecompose_drafted hp hd, unloggedRun_closeLevel,
            splitOversized_logged service budget context _ _ ih]
          rfl

theorem decomposeTask_logged (task : Task) (context : DecompositionContext) (world : σ) :
    unloggedRun (service.logged.decomposeTask now task context (world, [])) =
      service.decomposeTask now task context world := by
  unfold DecompositionService.decomposeTask
  rw [show service.logged.openTree task context = service.openTree task context from rfl]
  cases hopen : service.openTree task context with
  | error e => rfl
  | ok opened => exact doDecompose_logged service now opened.1 _ task _ _

end Logged

-- ==== the levels

section Levels

variable {σ : Type} (service : DecompositionService σ) (budget : RecursionBudget)

inductive Descends : DecompositionContext → DecompositionContext → Prop
  | here (context : DecompositionContext) : Descends context context
  | descend {context deeper : DecompositionContext} (position : Nat) (s : SubtaskDefinition)
      (room : budget.hasRoom context = true)
      (rest : Descends (service.unitContext context position s) deeper) :
      Descends context deeper

variable {service budget}

theorem Descends.depth {context deeper : DecompositionContext}
    (h : Descends service budget context deeper) : deeper.currentDepth = context.currentDepth ∨
      (deeper.currentDepth : Int) < depthBudget context := by
  induction h with
  | here context => exact .inl rfl
  | @descend context deeper position s room rest ih =>
    right
    have hroom : (context.currentDepth : Int) + 1 < depthBudget context := by
      exact of_decide_eq_true (Bool.and_eq_true_iff.1 room).2
    rcases ih with heq | hlt
    · rw [heq]
      exact_mod_cast hroom
    · exact hlt

def Opens (service : DecompositionService σ) (budget : RecursionBudget)
    (context : DecompositionContext) (call : PlanningCall) : Prop :=
  ∃ deeper, Descends service budget context deeper ∧ call.2 = heldToSize budget deeper

theorem heldToSize_kept (context : DecompositionContext) :
    (heldToSize budget context).currentDepth = context.currentDepth ∧
      (heldToSize budget context).objectiveCriteria = context.objectiveCriteria := by
  unfold heldToSize
  split <;> exact ⟨rfl, rfl⟩

end Levels

-- ==== the meter

section Meter

variable {σ : Type} {service : DecompositionService σ} {now : Int} {budget : RecursionBudget}
  {P : PlanningCall → Prop}

/-- THE INVARIANT between two sessions: the calls filed satisfy `P`, and are as many as were
claimed. -/
structure Metered (P : PlanningCall → Prop) (claimed : Int)
    (before after : Session (σ × List PlanningCall)) : Prop where
  calls : ∃ opened, after.world.2 = before.world.2 ++ opened ∧
    (opened.length : Int) = claimed + (before.ledger.remaining - after.ledger.remaining) ∧
    ∀ call ∈ opened, P call
  limit : after.ledger.limit = before.ledger.limit
  spends : after.ledger.remaining ≤ before.ledger.remaining
  floor : min before.ledger.remaining 0 ≤ after.ledger.remaining

theorem Metered.still {before after : Session (σ × List PlanningCall)}
    (hw : after.world = before.world) (hl : after.ledger.limit = before.ledger.limit)
    (hr : after.ledger.remaining = before.ledger.remaining) :
    Metered P 0 before after where
  calls := by
    refine ⟨[], ?_, ?_, forall_mem_nil _⟩
    · rw [hw, append_nil]
    · rw [length_nil]
      omega
  limit := hl
  spends := by omega
  floor := by omega

variable {claimed : Int} {s t : Session (σ × List PlanningCall)} {ledger : TreeSessionLedger}
  {levels : Nat} {task : Task} {world : σ} {result : Except PlanningError DecompositionResult}

theorem Metered.trans {claimed' : Int} {u : Session (σ × List PlanningCall)}
    (h : Metered P claimed s t) (h' : Metered P claimed' t u) :
    Metered P (claimed + claimed') s u where
  calls := by
    obtain ⟨opened, hopened, hlen, hall⟩ := h.calls
    obtain ⟨opened', hopened', hlen', hall'⟩ := h'.calls
    refine ⟨opened ++ opened', ?_, ?_, ?_⟩
    · rw [hopened', hopened, append_assoc]
    · rw [length_append]
      omega
    · exact forall_mem_append.2 ⟨hall, hall'⟩
  limit := h'.limit.trans h.limit
  spends := le_trans h'.spends h.spends
  floor := by
    have hf := h.floor
    have hf' := h'.floor
    omega

theorem Metered.mono {Q : PlanningCall → Prop} (h : Metered P claimed s t)
    (hPQ : ∀ call, P call → Q call) : Metered Q claimed s t :=
  { h with
    calls := by
      obtain ⟨opened, hopened, hlen, hall⟩ := h.calls
      exact ⟨opened, hopened, hlen, fun call hcall => hPQ call (hall call hcall)⟩ }

variable {context : DecompositionContext} {session : Session (σ × List PlanningCall)}

theorem metered_of_decideSplit {s : SubtaskDefinition} {decision : SplitDecision}
    (h : decideSplit budget context s session.ledger = (decision, ledger)) :
    Metered P (if decision = .split then -1 else 0) session { session with ledger := ledger } := by
  rcases decideSplit_cases h with
    ⟨rfl, rfl, -⟩ | ⟨⟨reason, rfl⟩, rfl | rfl⟩ | ⟨rfl, hs⟩
  · exact Metered.still rfl rfl rfl
  · exact Metered.still rfl rfl rfl
  · exact Metered.still rfl rfl rfl
  · have hleft := hs.left
    rw [hs.claimed]
    refine ⟨⟨[], (append_nil _).symm, ?_, forall_mem_nil _⟩, rfl, ?_, ?_⟩
    · show ((0 : Nat) : Int) = -1 + (session.ledger.remaining - (session.ledger.remaining - 1))
      omega
    · show session.ledger.remaining - 1 ≤ session.ledger.remaining
      omega
    · show min session.ledger.remaining 0 ≤ session.ledger.remaining - 1
      omega

/-- STEP LEMMA of a level's loop: it files what it claims, where each child does. -/
theorem splitUnits_metered
    {openChild : Task → DecompositionContext → Session (σ × List PlanningCall) →
      Except PlanningError DecompositionResult × Session (σ × List PlanningCall)}
    (hroom : budget.hasRoom context = true →
      ∀ position s task session, Metered P 1 session
        (openChild task (service.logged.unitContext context position s) session).2)
    (items : List (SubtaskDefinition × Task)) (position : Nat)
    (session : Session (σ × List PlanningCall)) : Metered P 0 session
      (service.logged.splitUnits budget context openChild position items session).2 := by
  induction items generalizing position session with
  | nil => exact Metered.still rfl rfl rfl
  | cons item rest ih =>
    obtain ⟨s, task⟩ := item
    cases hdec : decideSplit budget context s session.ledger with
    | mk decision ledger =>
      have hmet := metered_of_decideSplit (P := P) hdec
      cases decision with
      | leave =>
        rw [service.logged.splitUnits_leave hdec]
        exact hmet.trans (ih (position + 1) _)
      | unsplit reason =>
        rw [service.logged.splitUnits_unsplit hdec]
        exact hmet.trans (ih (position + 1) _)
      | split =>
        have hc := hroom (splits_of_decideSplit hdec).room position s task
          { session with ledger := ledger }
        have hopened := hmet.trans hc
        cases hran : openChild task (service.logged.unitContext context position s)
            { session with ledger := ledger } with
        | mk result opened =>
          rw [hran] at hopened
          cases result with
          | ok child =>
            rw [service.logged.splitUnits_opened hdec hran]
            exact hopened.trans (ih (position + 1) opened)
          | error e =>
            cases ha : absorbedChildReason e (budget.policy.assess s) with
            | none =>
              rw [service.logged.splitUnits_raised hdec hran ha]
              exact hopened
            | some reason =>
              rw [service.logged.splitUnits_absorbed hdec hran ha]
              exact hopened.trans (ih (position + 1) opened)

def Fuelled (levels : Nat) (context : DecompositionContext) : Prop :=
  0 < levels ∧ depthBudget context ≤ context.currentDepth + levels

theorem Fuelled.below (h : Fuelled (levels + 1) context) (hroom : budget.hasRoom context = true)
    (position : Nat) (s : SubtaskDefinition) :
    Fuelled levels (service.unitContext context position s) := by
  have hleft : (context.currentDepth : Int) + 1 < depthBudget context := by
    exact of_decide_eq_true (Bool.and_eq_true_iff.1 hroom).2
  have hb := h.2
  have hsame : depthBudget (service.unitContext context position s) = depthBudget context := rfl
  have hd : (service.unitContext context position s).currentDepth =
      context.currentDepth + 1 := rfl
  unfold Fuelled
  omega

variable (service now budget) in
/-- RUN LEMMA: a level files one session more than the ledger gives up, each in a descendant. -/
theorem doDecompose_metered (task : Task) (hfuel : Fuelled levels context)
    (session : Session (σ × List PlanningCall)) : Metered (Opens service budget context) 1 session
      (service.logged.doDecompose now budget levels task context session).2 := by
  induction levels generalizing task context session with
  | zero => exact absurd hfuel.1 (Nat.lt_irrefl 0)
  | succ levels ih =>
    -- the level's own session
    have hown : ∀ (ledger : TreeSessionLedger) (world : σ), ledger.limit = session.ledger.limit →
        ledger.remaining = session.ledger.remaining →
        Metered (Opens service budget context) 1 session
          { ledger := ledger
            world := (world, session.world.2 ++ [(task, heldToSize budget context)]) } := by
      intro ledger world hl hr
      refine ⟨⟨[(task, heldToSize budget context)], rfl, ?_, ?_⟩, hl, ?_, ?_⟩
      · rw [length_singleton, hr]
        omega
      · exact forall_mem_singleton.2 ⟨context, .here context, rfl⟩
      · exact le_of_eq hr
      · show min session.ledger.remaining 0 ≤ ledger.remaining
        omega
    have hb : ∀ opened : Session (σ × List PlanningCall),
        budget.hasRoom context = true → ∀ position s child,
        Metered (Opens service budget context) 1 opened
          (service.logged.doDecompose now budget levels child
            (service.logged.unitContext context position s) opened).2 := by
      intro opened hroom position s child
      refine (ih child (hfuel.below hroom position s) opened).mono ?_
      rintro call ⟨deeper, hdescend, hheld⟩
      exact ⟨deeper, .descend position s hroom hdescend, hheld⟩
    cases hran : service.logged.strategy.decompose task (heldToSize budget context)
        session.world with
    | mk result world =>
      have hw : world = (world.1, session.world.2 ++ [(task, heldToSize budget context)]) := by
        have hf : (service.logged.strategy.decompose task (heldToSize budget context)
            session.world).2.2 = session.world.2 ++ [(task, heldToSize budget context)] := rfl
        rw [hran] at hf
        rw [← hf]
      cases result with
      | error e =>
        rw [service.logged.doDecompose_unplanned hran, hw]
        exact hown _ _ rfl rfl
      | ok planned =>
        cases hd : service.logged.draftLevel now task planned.val with
        | error e =>
          rw [service.logged.doDecompose_undrafted hran hd, hw]
          exact hown _ _ rfl rfl
        | ok drafted =>
          obtain ⟨plan, tasks⟩ := drafted
          rw [service.logged.doDecompose_drafted hran hd, hw]
          have hc : ∀ ran : Except PlanningError SplitOutcome × Session (σ × List PlanningCall),
              (DecompositionService.closeLevel context plan tasks ran).2 = ran.2 := by
            rintro ⟨result, state⟩
            cases result <;> rfl
          rw [hc]
          have hloop : ∀ opened, Metered (Opens service budget context) 0 opened
              (service.logged.splitOversized budget context
                (service.logged.doDecompose now budget levels) plan.subtasks tasks
                opened).2 := by
            intro opened
            unfold DecompositionService.splitOversized
            split
            next => exact Metered.still rfl rfl rfl
            next =>
              exact splitUnits_metered
                (fun hroom position s child opened =>
                  hb opened hroom position s child) _ _ _
          exact (hown (session.ledger.recordLevel context.currentDepth
            plan.subtasks.length) world.1 rfl rfl).trans (hloop _)

-- the root

theorem decomposeTask_unopened {e : SettingFault}
    (hran : service.logged.decomposeTask now task context (world, []) = (result, session))
    (hopen : service.openTree task context = .error e) :
    result = .error .settings ∧ session.world.2 = [] := by
  unfold DecompositionService.decomposeTask at hran
  rw [show service.logged.openTree task context = service.openTree task context from rfl,
    hopen] at hran
  cases hran
  exact ⟨rfl, rfl⟩

theorem fuelled_root (bounded : DecompositionContext) :
    Fuelled ((depthBudget bounded - bounded.currentDepth).toNat + 1) bounded := by
  unfold Fuelled
  omega

theorem decomposeTask_metered {bounded : DecompositionContext}
    (hran : service.logged.decomposeTask now task context (world, []) = (result, session))
    (hopen : service.openTree task context = .ok (budget, bounded, ledger)) :
    Metered (Opens service budget bounded) 1 { ledger := ledger, world := (world, []) }
      session := by
  have hmet := doDecompose_metered service now budget task (fuelled_root bounded)
    { ledger := ledger, world := (world, []) }
  unfold DecompositionService.decomposeTask at hran
  rw [show service.logged.openTree task context = service.openTree task context from rfl,
    hopen] at hran
  dsimp only at hran
  rw [hran] at hmet
  exact hmet

end Meter

-- ==== termination

section Termination

variable {σ : Type} {service : DecompositionService σ} {now : Int} {budget : RecursionBudget}

variable {context : DecompositionContext} {e : PlanningError}

theorem splitUnits_error {openChild : Task → DecompositionContext → Session σ →
      Except PlanningError DecompositionResult × Session σ}
    {items : List (SubtaskDefinition × Task)} {position : Nat} {session session' : Session σ}
    (h : service.splitUnits budget context openChild position items session =
      (.error e, session')) : ∃ position s task opened closed, budget.hasRoom context = true ∧
      openChild task (service.unitContext context position s) opened = (.error e, closed) := by
  induction items generalizing position session with
  | nil => cases h
  | cons item rest ih =>
    obtain ⟨s, task⟩ := item
    -- the error of a loop that was built on is the rest's
    have hb : ∀ (f : SplitOutcome → SplitOutcome) (ran : Except PlanningError SplitOutcome ×
        Session σ), onOk f ran = (.error e, session') → ran = (.error e, session') := by
      rintro f ⟨result, state⟩ hran
      cases result with
      | error e' =>
        cases hran
        rfl
      | ok outcome => cases hran
    cases hdec : decideSplit budget context s session.ledger with
    | mk decision ledger =>
      cases decision with
      | leave =>
        rw [service.splitUnits_leave hdec] at h
        exact ih h
      | unsplit reason =>
        rw [service.splitUnits_unsplit hdec] at h
        exact ih (hb _ _ h)
      | split =>
        cases hran : openChild task (service.unitContext context position s)
            { session with ledger := ledger } with
        | mk result opened =>
          cases result with
          | ok child =>
            rw [service.splitUnits_opened hdec hran] at h
            exact ih (hb _ _ h)
          | error e' =>
            cases ha : absorbedChildReason e' (budget.policy.assess s) with
            | none =>
              rw [service.splitUnits_raised hdec hran ha] at h
              cases h
              exact ⟨position, s, task, _, _, (splits_of_decideSplit hdec).room, hran⟩
            | some reason =>
              rw [service.splitUnits_absorbed hdec hran ha] at h
              exact ih (hb _ _ h)

theorem bind_error_cases {ε α β : Type} {x : Except ε α} {f : α → Except ε β} {e : ε}
    (h : (x >>= f) = .error e) : x = .error e ∨ ∃ a, f a = .error e := by
  cases x with
  | error e' =>
    cases h
    exact .inl rfl
  | ok a => exact .inr ⟨a, h⟩

theorem mapError_error {ε ε' α : Type} {x : Except ε α} {f : ε → ε'} {e : ε'}
    (h : x.mapError f = .error e) : ∃ e', f e' = e := by
  cases x with
  | error e' => exact ⟨e', Except.error.inj h⟩
  | ok a => cases h

theorem draftLevel_error {task : Task} {planned : DecompositionPlan}
    (h : service.draftLevel now task planned = .error e) : e ≠ .tooDeep := by
  rintro rfl
  rcases bind_error_cases h with hg | ⟨-, h⟩
  · obtain ⟨_, hg⟩ := mapError_error hg
    cases hg
  · rcases bind_error_cases h with hb | ⟨tasks, h⟩
    · obtain ⟨_, hb⟩ := mapError_error hb
      cases hb
    · cases h

theorem finishLevel_error {plan : DecompositionPlan} {tasks : List Task} {outcome : SplitOutcome}
    (h : DecompositionService.finishLevel context plan tasks outcome = .error e) :
    e ≠ .tooDeep := by
  rintro rfl
  rcases bind_error_cases h with hc | ⟨-, h⟩
  · obtain ⟨_, hc⟩ := mapError_error hc
    cases hc
  · cases h

variable (service now budget) in
theorem doDecompose_terminates {levels : Nat} (task : Task) (hfuel : Fuelled levels context)
    (session : Session σ) :
    (service.doDecompose now budget levels task context session).1 ≠ .error .tooDeep := by
  induction levels generalizing task context session with
  | zero => exact absurd hfuel.1 (Nat.lt_irrefl 0)
  | succ levels ih =>
    cases hran : service.strategy.decompose task (heldToSize budget context) session.world with
    | mk result world =>
      cases result with
      | error e =>
        rw [service.doDecompose_unplanned hran]
        exact fun h => by cases h
      | ok planned =>
        cases hd : service.draftLevel now task planned.val with
        | error e =>
          rw [service.doDecompose_undrafted hran hd]
          intro h
          exact draftLevel_error hd (Except.error.inj h)
        | ok drafted =>
          obtain ⟨plan, tasks⟩ := drafted
          rw [service.doDecompose_drafted hran hd]
          intro h
          unfold DecompositionService.closeLevel at h
          split at h
          next e closed hs =>
            cases h
            unfold DecompositionService.splitOversized at hs
            split at hs
            next => cases hs
            next =>
              obtain ⟨position, s, child, opened, closed', hroom, hc⟩ := splitUnits_error hs
              exact ih child (hfuel.below hroom position s) opened (congrArg Prod.fst hc)
          next outcome closed hs => exact finishLevel_error h rfl

end Termination

-- ==== settled units

/-- A unit that split: it is described as the assembly of a level below. -/
def AssembledFrom (s : SubtaskDefinition) (child : DecompositionResult) : Prop :=
  ∃ address, s.description =
    (buildAssembly s.title (child.plan.subtasks.map SubtaskDefinition.title)
      s.acceptanceCriteria (child.plan.subtasks.map SubtaskDefinition.stakes) address).brief

/-- Each oversized unit of WORK of a level was split, or carries the reason
it was not. -/
def DecompositionResult.UnitsSettled (policy : SubtaskAtomicityPolicy)
    (l : DecompositionResult) : Prop :=
  ∀ s ∈ l.plan.subtasks, s.kind = .work → (policy.assess s).isOversized = true →
    s.unsplitReason.isSome = true ∨ ∃ child ∈ l.children, AssembledFrom s child

namespace DraftedUnit

variable {u : DraftedUnit}

theorem definition_noted (address : List SubtreeStep)
    (h : u.reason.isSome = true) : (u.definition address).unsplitReason.isSome = true := by
  obtain ⟨reason, hr⟩ := Option.isSome_iff_exists.1 h
  unfold definition
  rw [hr]
  rfl

theorem definition_assembled {child : DecompositionResult} (address : List SubtreeStep)
    (h : u.below = some child) : AssembledFrom (u.definition address) child := by
  refine ⟨address ++ [u.step], ?_⟩
  unfold definition assembly
  rw [h]
  cases u.reason <;> rfl

theorem assess_definition (policy : SubtaskAtomicityPolicy) (address : List SubtreeStep)
    (h : u.below = none) : policy.assess (u.definition address) = policy.assess u.drafted := by
  unfold definition assembly
  rw [h]
  cases u.reason <;> rfl

end DraftedUnit

theorem unitsSettled_of_units {policy : SubtaskAtomicityPolicy} {plan : DecompositionPlan}
    {address : List SubtreeStep} {units : List DraftedUnit} {edges : List (String × String)}
    {depth : Nat} (h : ∀ u ∈ units, u.Settled policy) :
    DecompositionResult.UnitsSettled policy
      (.mk { plan with subtasks := units.map (DraftedUnit.definition address) }
        (units.map (DraftedUnit.task address)) edges depth
        (units.filterMap DraftedUnit.below)) := by
  intro s hs hwork hover
  obtain ⟨u, hu, rfl⟩ := mem_map.1 hs
  rw [DraftedUnit.definition_kind] at hwork
  cases hb : u.below with
  | some child =>
    right
    exact ⟨child, mem_filterMap.2 ⟨u, hu, hb⟩, u.definition_assembled address hb⟩
  | none =>
    left
    rw [u.assess_definition policy address hb] at hover
    rcases h u hu hwork hover with hsplit | hn
    · simp [hb] at hsplit
    · exact u.definition_noted address hn

-- ==== the levels

section Run

variable {σ : Type} {service : DecompositionService σ} {now : Int} {budget : RecursionBudget}

variable {levels : Nat} {task : Task} {context : DecompositionContext}
  {session session' : Session σ} {r : DecompositionResult}

/-- RUN LEMMA: each level stands at a depth the recursion reaches, and is settled. -/
theorem levels_of_doDecompose
    (h : service.doDecompose now budget levels task context session = (.ok r, session')) :
    ∀ l ∈ r.levels,
      (∃ deeper, Descends service budget context deeper ∧ l.depth = deeper.currentDepth) ∧
        (Recurses service budget → l.UnitsSettled budget.policy) := by
  induction levels generalizing task context session session' r with
  | zero => cases h
  | succ levels ih =>
    obtain ⟨plan, units, hlevels⟩ := doDecompose_ok h
    intro l hl
    rw [DecompositionResult.levels_eq] at hl
    rcases mem_cons.1 hl with rfl | hl
    · rw [hlevels.result]
      exact ⟨⟨context, .here context, rfl⟩, fun hon => unitsSettled_of_units (hlevels.settled hon)⟩
    · obtain ⟨child, hc, hl⟩ := mem_flatMap.1 hl
      rw [hlevels.result] at hc
      obtain ⟨u, hu, hb⟩ := mem_filterMap.1 hc
      obtain ⟨-, hroom, opened, closed, hopen⟩ := hlevels.opened u hu child hb
      obtain ⟨⟨deeper, hd, hdepth⟩, hs⟩ := ih hopen l hl
      exact ⟨⟨deeper, .descend u.position u.drafted hroom hd, hdepth⟩, hs⟩

theorem flat_of_doDecompose
    (h : service.doDecompose now budget levels task context session = (.ok r, session'))
    (hoff : ¬ Recurses service budget) : r.children = [] := by
  cases levels with
  | zero => cases h
  | succ levels =>
    obtain ⟨plan, units, hl⟩ := doDecompose_ok h
    rw [hl.result]
    exact filterMap_eq_nil_iff.2 fun u hu => (hl.untouched hoff u hu).1

end Run

-- ==== the budget

/-- `limit` is the number of sessions allowed, `bounded` the root's context with its bounds
resolved. -/
structure Budgeted {σ : Type} (service : DecompositionService σ) (budget : RecursionBudget)
    (bounded : DecompositionContext) (limit : Int)
    (result : Except PlanningError DecompositionResult)
    (session : Session (σ × List PlanningCall)) : Prop where
  /-- The recursion ends by itself. -/
  terminates : result ≠ .error .tooDeep
  sessions : (session.world.2.length : Int) ≤ max 1 limit
  snapshot : 1 ≤ limit →
    session.ledger.progress.sessionsSpent = session.world.2.length ∧
      session.ledger.progress.sessionsLimit = limit
  /-- Nothing below the root is planned beyond the depth budget. -/
  calls : ∀ call ∈ session.world.2, call.2.currentDepth = bounded.currentDepth ∨
    (call.2.currentDepth : Int) < depthBudget bounded
  /-- Nothing below the root is made beyond it. -/
  depths : ∀ r, result = .ok r → ∀ l ∈ r.levels, l.depth = bounded.currentDepth ∨
    (l.depth : Int) < depthBudget bounded
  /-- An oversized unit was split or says why not, where recursion acts. -/
  settled : Recurses service budget → ∀ r, result = .ok r →
    ∀ l ∈ r.levels, l.UnitsSettled budget.policy
  /-- Where it does not act nothing is split. -/
  flat : ¬ Recurses service budget → ∀ r, result = .ok r → r.children = []

section Root

variable {σ : Type} {service : DecompositionService σ}

theorem openTree_ok {task : Task} {context bounded : DecompositionContext}
    {budget : RecursionBudget} {ledger : TreeSessionLedger}
    (h : service.openTree task context = .ok (budget, bounded, ledger)) :
    bounded.currentDepth = context.currentDepth ∧
      treeSessionBudget service.configResolver = .ok ledger.limit ∧
      ledger.remaining = if ledger.limit ≤ 0 then ledger.limit else ledger.limit - 1 := by
  unfold DecompositionService.openTree at h
  simp only [bind_ok_iff] at h
  obtain ⟨budget', -, bounded', hb, sessions, hs, -, rfl, rfl⟩ := h
  unfold resolveDecompositionBounds at hb
  simp only [bind_ok_iff, Except.ok.injEq] at hb
  obtain ⟨depth, -, width, -, rfl⟩ := hb
  refine ⟨rfl, ?_, ?_⟩
  · rw [hs]
    unfold TreeSessionLedger.take
    split <;> rfl
  · unfold TreeSessionLedger.take
    split <;> rfl

/-- BUDGET: whatever the strategy plans, one decomposition ends, opens no more sessions than its
limit and counts them, stays inside its depth, and settles its oversized units where recursion
acts. -/
theorem decomposition_budgeted (service : DecompositionService σ) (now : Int) (task : Task)
    (context : DecompositionContext) (world : σ)
    (result : Except PlanningError DecompositionResult)
    (session : Session (σ × List PlanningCall))
    (hran : service.logged.decomposeTask now task context (world, []) = (result, session)) :
    service.decomposeTask now task context world = (result, session.unlogged) ∧
      (∀ e, service.openTree task context = .error e →
        result = .error .settings ∧ session.world.2 = []) ∧
      ∀ budget bounded ledger, service.openTree task context = .ok (budget, bounded, ledger) →
        bounded.currentDepth = context.currentDepth ∧
          treeSessionBudget service.configResolver = .ok ledger.limit ∧
          Budgeted service budget bounded ledger.limit result session := by
  have hplain := decomposeTask_logged service now task context world
  rw [hran] at hplain
  refine ⟨hplain.symm, fun e hopen => decomposeTask_unopened hran hopen,
    fun budget bounded ledger hopen => ?_⟩
  obtain ⟨hdepth, hlimit, hremaining⟩ := openTree_ok hopen
  refine ⟨hdepth, hlimit, ?_⟩
  have hmetered := decomposeTask_metered hran hopen
  have hplain' := hplain.symm
  unfold DecompositionService.decomposeTask at hplain'
  rw [hopen] at hplain'
  dsimp only at hplain'
  have hterminates := doDecompose_terminates service now budget task (fuelled_root bounded)
    { ledger := ledger, world := world }
  rw [hplain'] at hterminates
  obtain ⟨opened, hopened, hlength, hall⟩ := hmetered.calls
  have hcalls : session.world.2 = opened := hopened
  have hfloor : min ledger.remaining 0 ≤ session.ledger.remaining := hmetered.floor
  have hsame : session.ledger.limit = ledger.limit := hmetered.limit
  have hcount : (session.world.2.length : Int) =
      1 + (ledger.remaining - session.ledger.remaining) := hcalls ▸ hlength
  exact {
    terminates := hterminates
    sessions := by split at hremaining <;> omega
    snapshot := by
      intro hlimit
      refine ⟨?_, hsame⟩
      show max (session.ledger.limit - session.ledger.remaining) 0 = _
      omega
    calls := by
      intro call hcall
      obtain ⟨deeper, hdescends, hheld⟩ := hall call (hcalls ▸ hcall)
      rw [hheld, (heldToSize_kept deeper).1]
      exact hdescends.depth
    depths := by
      rintro r rfl l hl
      obtain ⟨⟨deeper, hdescends, hat⟩, -⟩ := levels_of_doDecompose hplain' l hl
      rw [hat]
      exact hdescends.depth
    settled := by
      rintro hon r rfl l hl
      exact (levels_of_doDecompose hplain' l hl).2 hon
    flat := by
      rintro hoff r rfl
      exact flat_of_doDecompose hplain' hoff }

end Root

/-- `decomposition_budgeted` at work on a site in two levels. -/
theorem decomposition_budgeted_site : ∃ result session,
    (siteService false).logged.decomposeTask 0 objectiveTask {} ((), []) =
      (result, session) ∧
    (session.world.2.length : Int) ≤ 8 ∧
    session.ledger.progress.sessionsSpent = session.world.2.length ∧
    ∀ r, result = .ok r → ∀ l ∈ r.levels, l.UnitsSettled
      { maxExpectedArtifacts := 8, maxAcceptanceCriteria := 8 } := by
  refine ⟨_, _, rfl, ?_⟩
  obtain ⟨-, -, hopened⟩ :=
    decomposition_budgeted (siteService false) 0 objectiveTask {} () _ _ rfl
  obtain ⟨-, -, hbudgeted⟩ := hopened
    { enabled := true, policy := { maxExpectedArtifacts := 8, maxAcceptanceCriteria := 8 } }
    _ _ rfl
  exact ⟨hbudgeted.sessions, (hbudgeted.snapshot (by decide)).1, hbudgeted.settled ⟨rfl, rfl⟩⟩

def flatService : DecompositionService Unit :=
  { siteService false with configResolver := none }

/-- With recursion off an oversized unit is neither split nor told why. -/
theorem flat_unit_unsettled :
    ¬ ∀ (σ : Type) (service : DecompositionService σ) (now : Int) (task : Task)
      (context bounded : DecompositionContext) (world : σ) (budget : RecursionBudget)
      (ledger : TreeSessionLedger) (r : DecompositionResult) (session : Session σ),
      service.openTree task context = .ok (budget, bounded, ledger) →
      service.decomposeTask now task context world = (.ok r, session) →
      ∀ l ∈ r.levels, l.UnitsSettled budget.policy := by
  intro h
  have hran : ∃ r session, flatService.decomposeTask 0 objectiveTask {} () = (.ok r, session) ∧
      r.plan.subtasks = [buildUnit, choiceUnit] ∧ r.children = [] := ⟨_, _, rfl, rfl, rfl⟩
  obtain ⟨r, session, hran, hsubtasks, hchildren⟩ := hran
  have hsettled := h Unit flatService 0 objectiveTask {} _ () flatBudget _ r session rfl hran r
    (by rw [DecompositionResult.levels_eq]; exact mem_cons_self)
  rcases hsettled buildUnit (hsubtasks ▸ mem_cons_self) rfl (by decide) with
    hnoted | ⟨child, hchild, -⟩
  · cases hnoted
  · simp [hchildren] at hchild

end

end Synthorg.Decomposition
