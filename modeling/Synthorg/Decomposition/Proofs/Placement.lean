/-
Where the containers of a produced tree sit, once as the service numbers
them and once in the plan they become.

The service numbers a unit among all the subtasks of its level. The plan is dispatched with its
decisions stripped, so there a unit is numbered among the work alone. `containers` lists, for each
container, what is listed before it and before everything it sits under.
-/
import Synthorg.Decomposition.Proofs.RoundTrip
import Synthorg.Decomposition.Service

namespace Synthorg.Decomposition

open Synthorg.Core Lib
open List

-- ==== a drafted unit

structure DraftedUnit where
  drafted : SubtaskDefinition
  built : Task
  position : Nat
  reason : Option String
  below : Option DecompositionResult

namespace DraftedUnit

def step (u : DraftedUnit) : SubtreeStep where
  title := u.drafted.title
  position := u.position

def assembly (address : List SubtreeStep) (u : DraftedUnit) : Option Assembly :=
  u.below.map fun child =>
    buildAssembly u.drafted.title (child.plan.subtasks.map SubtaskDefinition.title)
      u.drafted.acceptanceCriteria (child.plan.subtasks.map SubtaskDefinition.stakes)
      (address ++ [u.step])

def assembled (s : SubtaskDefinition) : Option Assembly → SubtaskDefinition
  | none => s
  | some assembly =>
    { s with
      description := assembly.brief
      stakes := assembly.stakes
      expectedArtifacts := s.expectedArtifacts ++ assembly.paths.declared }

def noted (s : SubtaskDefinition) : Option String → SubtaskDefinition
  | none => s
  | some reason => { s with unsplitReason := some reason }

def definition (address : List SubtreeStep) (u : DraftedUnit) : SubtaskDefinition :=
  noted (assembled u.drafted (u.assembly address)) u.reason

def task (address : List SubtreeStep) (u : DraftedUnit) : Task :=
  assembledTask u.built (u.assembly address)

def Settled (policy : SubtaskAtomicityPolicy) (u : DraftedUnit) : Prop :=
  u.drafted.kind = .work → (policy.assess u.drafted).isOversized = true →
    u.below.isSome = true ∨ u.reason.isSome = true

@[simp]
theorem definition_id (address : List SubtreeStep) (u : DraftedUnit) :
    (u.definition address).id = u.drafted.id := by
  unfold definition noted assembled
  split <;> split <;> rfl

@[simp]
theorem definition_title (address : List SubtreeStep) (u : DraftedUnit) :
    (u.definition address).title = u.drafted.title := by
  unfold definition noted assembled
  split <;> split <;> rfl

@[simp]
theorem definition_kind (address : List SubtreeStep) (u : DraftedUnit) :
    (u.definition address).kind = u.drafted.kind := by
  unfold definition noted assembled
  split <;> split <;> rfl

end DraftedUnit

def Numbered : Nat → List DraftedUnit → Prop
  | _, [] => True
  | start, u :: rest => u.position = start ∧ Numbered (start + 1) rest

theorem Numbered.position {start : Nat} {before after : List DraftedUnit} {u : DraftedUnit}
    (h : Numbered start (before ++ u :: after)) : u.position = start + before.length := by
  induction before generalizing start with
  | nil => exact h.1
  | cons v before ih =>
    have hpos := ih h.2
    rw [length_cons]
    omega

def outcomeOf (address : List SubtreeStep) (units : List DraftedUnit) : SplitOutcome where
  children := units.filterMap DraftedUnit.below
  unsplit := Keyed.filed (fun u => u.drafted.id) DraftedUnit.reason units
  assemblies := Keyed.filed (fun u => u.drafted.id) (DraftedUnit.assembly address) units

-- ==== one split

section Split

variable {σ : Type} {service : DecompositionService σ} {budget : RecursionBudget}
  {context : DecompositionContext}
  {openChild : Task → DecompositionContext → Session σ →
    Except PlanningError DecompositionResult × Session σ}

structure Splits (budget : RecursionBudget) (context : DecompositionContext)
    (s : SubtaskDefinition) (ledger ledger' : TreeSessionLedger) : Prop where
  work : s.kind = .work
  oversized : (budget.policy.assess s).isOversized = true
  room : budget.hasRoom context = true
  left : 0 < ledger.remaining
  claimed : ledger' = { ledger with remaining := ledger.remaining - 1 }

variable {s : SubtaskDefinition} {ledger ledger' : TreeSessionLedger} {session' : Session σ}
  {outcome : SplitOutcome}

theorem decideSplit_cases {decision : SplitDecision}
    (h : decideSplit budget context s ledger = (decision, ledger')) :
    (decision = .leave ∧ ledger' = ledger ∧
        (s.kind = .work → (budget.policy.assess s).isOversized = false)) ∨
      ((∃ reason, decision = .unsplit reason) ∧
        (ledger' = ledger ∨ ledger' = { ledger with exhausted := true })) ∨
      (decision = .split ∧ Splits budget context s ledger ledger') := by
  unfold decideSplit at h
  by_cases hkind : s.kind = .work
  · rw [if_neg (fun hne => hne hkind)] at h
    cases hassess : budget.policy.assess s with
    | atomic =>
      rw [hassess] at h
      obtain ⟨rfl, rfl⟩ := Prod.mk.inj h
      exact .inl ⟨rfl, rfl, fun _ => rfl⟩
    | oversized condition observed limit =>
      rw [hassess] at h
      simp only [unsplitReason] at h
      by_cases hroom : budget.hasRoom context = true
      · rw [if_neg (by rw [hroom]; exact Bool.noConfusion)] at h
        unfold TreeSessionLedger.take at h
        by_cases hleft : ledger.remaining ≤ 0
        · rw [if_pos hleft] at h
          obtain ⟨rfl, rfl⟩ := Prod.mk.inj h
          exact .inr (.inl ⟨⟨_, rfl⟩, .inr rfl⟩)
        · rw [if_neg hleft] at h
          obtain ⟨rfl, rfl⟩ := Prod.mk.inj h
          refine .inr (.inr ⟨rfl, hkind, ?_, hroom, by omega, rfl⟩)
          rw [hassess]
          rfl
      · rw [if_pos (Bool.not_eq_true _ ▸ hroom)] at h
        obtain ⟨rfl, rfl⟩ := Prod.mk.inj h
        exact .inr (.inl ⟨⟨_, rfl⟩, .inl rfl⟩)
  · rw [if_pos hkind] at h
    obtain ⟨rfl, rfl⟩ := Prod.mk.inj h
    exact .inl ⟨rfl, rfl, fun hwork => absurd hwork hkind⟩

/-- What a SPLIT verdict says. -/
theorem splits_of_decideSplit (h : decideSplit budget context s ledger = (.split, ledger')) :
    Splits budget context s ledger ledger' := by
  rcases decideSplit_cases h with ⟨hl, -⟩ | ⟨⟨reason, hu⟩, -⟩ | ⟨-, hs⟩
  · cases hl
  · cases hu
  · exact hs

theorem onOk_eq_ok {ε α β S : Type} {f : α → β} {ran : Except ε α × S} {b : β} {s : S}
    (h : onOk f ran = (.ok b, s)) : ∃ a, ran = (.ok a, s) ∧ f a = b := by
  obtain ⟨result, state⟩ := ran
  cases result with
  | error e => cases h
  | ok a =>
    cases h
    exact ⟨a, rfl, rfl⟩

def DraftedUnit.Opened (service : DecompositionService σ) (budget : RecursionBudget)
    (context : DecompositionContext)
    (openChild : Task → DecompositionContext → Session σ →
      Except PlanningError DecompositionResult × Session σ) (u : DraftedUnit) : Prop :=
  ∀ c, u.below = some c → u.drafted.kind = .work ∧ budget.hasRoom context = true ∧
    ∃ opened closed, openChild u.built (service.unitContext context u.position u.drafted)
      opened = (.ok c, closed)

theorem splitUnits_ok {position : Nat} {items : List (SubtaskDefinition × Task)}
    {session : Session σ} (h : service.splitUnits budget context openChild position items session =
      (.ok outcome, session')) :
    ∃ units : List DraftedUnit, units.map (fun u => (u.drafted, u.built)) = items ∧
      Numbered position units ∧ outcome = outcomeOf context.address units ∧
      (∀ u ∈ units, u.Opened service budget context openChild) ∧
      ∀ u ∈ units, u.Settled budget.policy := by
  induction items generalizing position session outcome with
  | nil =>
    cases h
    exact ⟨[], rfl, trivial, rfl, forall_mem_nil _, forall_mem_nil _⟩
  | cons item rest ih =>
    obtain ⟨s, task⟩ := item
    -- a unit that stays, with or without a note
    have hstay : ∀ (reason : Option String) (outcome' : SplitOutcome) session,
        (s.kind = .work → (budget.policy.assess s).isOversized = true →
          reason.isSome = true) →
        service.splitUnits budget context openChild (position + 1) rest session =
          (.ok outcome', session') →
        ∃ units : List DraftedUnit,
          units.map (fun u => (u.drafted, u.built)) = (s, task) :: rest ∧
          Numbered position units ∧
          { outcome' with
            unsplit := outcome'.unsplit ++ reason.toList.map (s.id, ·) } =
            outcomeOf context.address units ∧
          (∀ u ∈ units, u.Opened service budget context openChild) ∧
          ∀ u ∈ units, u.Settled budget.policy := by
      intro reason outcome' session hr hrest
      obtain ⟨units, hitems, hn, rfl, hopened, hs⟩ := ih hrest
      refine ⟨⟨s, task, position, reason, none⟩ :: units, by rw [map_cons, hitems],
        ⟨rfl, hn⟩, ?_, ?_, ?_⟩
      · unfold outcomeOf
        simp [Keyed.filed, DraftedUnit.assembly]
      · refine forall_mem_cons.2 ⟨fun c hc => ?_, hopened⟩
        cases hc
      · exact forall_mem_cons.2 ⟨fun hwork hover => .inr (hr hwork hover), hs⟩
    cases hdec : decideSplit budget context s session.ledger with
    | mk decision ledger =>
      cases decision with
      | leave =>
        rw [service.splitUnits_leave hdec] at h
        have hsmall : s.kind = .work → (budget.policy.assess s).isOversized = false := by
          rcases decideSplit_cases hdec with ⟨-, -, hsmall⟩ | ⟨⟨_, hne⟩, -⟩ | ⟨hne, -⟩
          · exact hsmall
          · cases hne
          · cases hne
        have hu := hstay none outcome _
          (fun hwork hover => by rw [hsmall hwork] at hover; cases hover) h
        simpa using hu
      | unsplit reason =>
        rw [service.splitUnits_unsplit hdec] at h
        obtain ⟨outcome', hrest, rfl⟩ := onOk_eq_ok h
        exact hstay (some reason) outcome' _ (fun _ _ => rfl) hrest
      | split =>
        have hsplit := splits_of_decideSplit hdec
        cases hran : openChild task (service.unitContext context position s)
            { session with ledger := ledger } with
        | mk result opened =>
          cases result with
          | ok child =>
            rw [service.splitUnits_opened hdec hran] at h
            obtain ⟨outcome', hrest, rfl⟩ := onOk_eq_ok h
            obtain ⟨units, hitems, hn, rfl, hopened, hs⟩ := ih hrest
            refine ⟨⟨s, task, position, none, some child⟩ :: units,
              by rw [map_cons, hitems], ⟨rfl, hn⟩, ?_, ?_, ?_⟩
            · unfold outcomeOf DecompositionService.SplitOutcome.opened
              simp [Keyed.filed, DraftedUnit.assembly, DraftedUnit.step,
                DecompositionService.assemblyFor]
            · refine forall_mem_cons.2 ⟨fun c hc => ?_, hopened⟩
              cases hc
              exact ⟨hsplit.work, hsplit.room, _, _, hran⟩
            · exact forall_mem_cons.2 ⟨fun _ _ => .inl rfl, hs⟩
          | error e =>
            cases ha : absorbedChildReason e (budget.policy.assess s) with
            | none => simp [service.splitUnits_raised hdec hran ha] at h
            | some reason =>
              rw [service.splitUnits_absorbed hdec hran ha] at h
              obtain ⟨outcome', hrest, rfl⟩ := onOk_eq_ok h
              exact hstay (some reason) outcome' _ (fun _ _ => rfl) hrest

theorem outcome_of_flat (address : List SubtreeStep) (items : List (SubtaskDefinition × Task))
    (position : Nat) : ∃ units : List DraftedUnit,
      units.map (fun u => (u.drafted, u.built)) = items ∧ Numbered position units ∧
      ({} : SplitOutcome) = outcomeOf address units ∧
      ∀ u ∈ units, u.below = none ∧ u.reason = none := by
  induction items generalizing position with
  | nil => exact ⟨[], rfl, trivial, rfl, fun u hu => by cases hu⟩
  | cons item rest ih =>
    obtain ⟨units, hitems, hn, ho, hnone⟩ := ih (position + 1)
    refine ⟨⟨item.1, item.2, position, none, none⟩ :: units,
      by rw [map_cons, hitems], ⟨rfl, hn⟩, ?_, ?_⟩
    · rw [ho]
      unfold outcomeOf
      simp [Keyed.filed, DraftedUnit.assembly]
    · exact forall_mem_cons.2 ⟨⟨rfl, rfl⟩, hnone⟩

def Recurses (service : DecompositionService σ) (budget : RecursionBudget) : Prop :=
  budget.enabled = true ∧ service.strategy.plansAnyTask = true

/-- Settled where recursion acts, and left as they were where it does not. -/
theorem splitOversized_ok {subtasks : List SubtaskDefinition} {tasks : List Task}
    {session : Session σ}
    (h : service.splitOversized budget context openChild subtasks tasks session =
      (.ok outcome, session')) :
    ∃ units : List DraftedUnit,
      units.map (fun u => (u.drafted, u.built)) = subtasks.zip tasks ∧
      Numbered 0 units ∧ outcome = outcomeOf context.address units ∧
      (∀ u ∈ units, u.Opened service budget context openChild) ∧
      (Recurses service budget → ∀ u ∈ units, u.Settled budget.policy) ∧
      (¬ Recurses service budget → ∀ u ∈ units, u.below = none ∧ u.reason = none) := by
  unfold DecompositionService.splitOversized at h
  split at h
  next hoff =>
    cases h
    obtain ⟨units, hitems, hn, ho, hnone⟩ :=
      outcome_of_flat context.address (subtasks.zip tasks) 0
    refine ⟨units, hitems, hn, ho, fun u hu c hc => ?_, fun hon => ?_, fun _ => hnone⟩
    · simp [(hnone u hu).1] at hc
    · rcases hoff with hoff | hoff
      · simp [hon.1] at hoff
      · simp [hon.2] at hoff
  next hon =>
    obtain ⟨units, hitems, hn, ho, hopened, hs⟩ := splitUnits_ok h
    refine ⟨units, hitems, hn, ho, hopened, fun _ => hs, fun hoff => ?_⟩
    exact absurd ⟨by by_contra hne; exact hon (.inl (Bool.not_eq_true _ ▸ hne)),
      by by_contra hne; exact hon (.inr (Bool.not_eq_true _ ▸ hne))⟩ hoff

end Split

-- ==== a level

inductive Produced (now : Int) : Task → List SubtreeStep → DecompositionResult → Prop
  | level {task : Task} {address : List SubtreeStep} (plan : DecompositionPlan)
      (units : List DraftedUnit) (edges : List (String × String)) (depth : Nat)
      (parent : plan.parentTaskId = task.id.text)
      (numbered : Numbered 0 units)
      (distinct : Keyed.Distinct (fun u => u.drafted.id) units)
      (built : ∀ u ∈ units, taskFromSubtask task plan now u.drafted = .ok u.built)
      (work : ∀ u ∈ units, ∀ c, u.below = some c → u.drafted.kind = .work)
      (below : ∀ u ∈ units, ∀ c, u.below = some c →
        Produced now u.built (address ++ [u.step]) c) :
      Produced now task address
        (.mk { plan with subtasks := units.map (DraftedUnit.definition address) }
          (units.map (DraftedUnit.task address)) edges depth
          (units.filterMap DraftedUnit.below))

def DecompositionStrategy.PlansItsTask {σ : Type} (strategy : DecompositionStrategy σ) : Prop :=
  ∀ task context world plan world',
    strategy.decompose task context world = (.ok plan, world') →
    plan.val.parentTaskId = task.id.text

section Run

variable {σ : Type} {service : DecompositionService σ} {now : Int}

variable {task : Task} {r : DecompositionResult} {session : Session σ}
  {context : DecompositionContext} {budget : RecursionBudget} {levels : Nat} {session' : Session σ}

theorem draftLevel_ok {planned plan : DecompositionPlan} {tasks : List Task}
    (h : service.draftLevel now task planned = .ok (plan, tasks)) :
    plan.parentTaskId = planned.parentTaskId ∧
      plan.subtasks.map SubtaskDefinition.id =
        planned.subtasks.map SubtaskDefinition.id ∧
      Forall₂ (fun s t => taskFromSubtask task plan now s = .ok t) plan.subtasks
        tasks := by
  unfold DecompositionService.draftLevel at h
  simp only [bind_ok_iff, mapError_ok_iff, buildAll_ok_iff] at h
  obtain ⟨-, -, tasks', ht, rfl, rfl⟩ := h
  refine ⟨?_, ?_, ht⟩
  · unfold DecompositionService.stampStakes DecompositionService.resolveStructure
    split <;> rfl
  · unfold DecompositionService.stampStakes DecompositionService.resolveStructure
    rw [map_map]
    split <;> rfl

theorem finishLevel_ok {plan : DecompositionPlan} {units : List DraftedUnit}
    (hs : plan.subtasks = units.map DraftedUnit.drafted)
    (hd : Keyed.Distinct (fun u : DraftedUnit => u.drafted.id) units)
    (h : DecompositionService.finishLevel context plan (units.map DraftedUnit.built)
      (outcomeOf context.address units) = .ok r) :
    r = .mk { plan with subtasks := units.map (DraftedUnit.definition context.address) }
      (units.map (DraftedUnit.task context.address))
      (DecompositionService.subtaskEdges plan.subtasks) context.currentDepth
      (units.filterMap DraftedUnit.below) := by
  have hassembly : ∀ u ∈ units, entryOf (outcomeOf context.address units).assemblies u.drafted.id =
        u.assembly context.address := fun u hu => Keyed.lookup_filed _ hd hu
  have hr : ∀ u ∈ units,
      entryOf (outcomeOf context.address units).unsplit u.drafted.id = u.reason :=
    fun u hu => Keyed.lookup_filed _ hd hu
  have hdefinition : ∀ u ∈ units, stampUnsplit (outcomeOf context.address units)
        (assembledSubtask (outcomeOf context.address units) u.drafted) =
      u.definition context.address := by
    intro u hu
    have hid : (assembledSubtask (outcomeOf context.address units) u.drafted).id =
        u.drafted.id := by
      unfold assembledSubtask
      split <;> rfl
    have hsplit : assembledSubtask (outcomeOf context.address units) u.drafted =
        DraftedUnit.assembled u.drafted (u.assembly context.address) := by
      unfold assembledSubtask
      rw [hassembly u hu]
      rfl
    have hnote : entryOf (outcomeOf context.address units).unsplit
        (assembledSubtask (outcomeOf context.address units) u.drafted).id = u.reason :=
      hid ▸ hr u hu
    unfold stampUnsplit
    rw [hnote, hsplit]
    rfl
  unfold DecompositionService.finishLevel at h
  simp only [bind_unit_ok_iff, Except.ok.injEq] at h
  have hdef := map_congr_left hdefinition
  have ht : units.map (fun u =>
      assembledTask u.built (entryOf (outcomeOf context.address units).assemblies u.drafted.id)) =
      units.map (DraftedUnit.task context.address) := by
    apply map_congr_left
    intro u hu
    rw [hassembly u hu]
    rfl
  rw [← h.2, hs, map_map, zipWith_map_left, zipWith_map_right, zipWith_self, ht, ← hdef]
  rfl

structure LevelRun (service : DecompositionService σ) (now : Int) (budget : RecursionBudget)
    (levels : Nat) (task : Task) (context : DecompositionContext) (plan : DecompositionPlan)
    (units : List DraftedUnit) (r : DecompositionResult) : Prop where
  planned : ∃ session planned world,
    service.strategy.decompose task (heldToSize budget context) session =
      (.ok planned, world) ∧ plan.parentTaskId = planned.val.parentTaskId
  result : r = .mk { plan with subtasks := units.map (DraftedUnit.definition context.address) }
    (units.map (DraftedUnit.task context.address))
    (DecompositionService.subtaskEdges plan.subtasks) context.currentDepth
    (units.filterMap DraftedUnit.below)
  numbered : Numbered 0 units
  distinct : Keyed.Distinct (fun u => u.drafted.id) units
  built : ∀ u ∈ units, taskFromSubtask task plan now u.drafted = .ok u.built
  opened : ∀ u ∈ units, u.Opened service budget context
    (service.doDecompose now budget levels)
  settled : Recurses service budget → ∀ u ∈ units, u.Settled budget.policy
  untouched : ¬ Recurses service budget → ∀ u ∈ units, u.below = none ∧ u.reason = none

/-- STEP LEMMA: a level is made of drafted units, and those below it have one level less to go. -/
theorem doDecompose_ok (h : service.doDecompose now budget (levels + 1) task context session =
      (.ok r, session')) :
    ∃ plan units, LevelRun service now budget levels task context plan units r := by
  cases hplan : service.strategy.decompose task (heldToSize budget context) session.world with
  | mk result world =>
    cases result with
    | error e => simp [service.doDecompose_unplanned hplan] at h
    | ok planned =>
      cases hd : service.draftLevel now task planned.val with
      | error e => simp [service.doDecompose_undrafted hplan hd] at h
      | ok drafted =>
        obtain ⟨plan, tasks⟩ := drafted
        rw [service.doDecompose_drafted hplan hd] at h
        unfold DecompositionService.closeLevel at h
        split at h
        next => cases h
        next outcome closed hs =>
          obtain ⟨hp, hids, ht⟩ := draftLevel_ok hd
          obtain ⟨units, hu, hnumbered, rfl, hopened, hsettled, hunt⟩ := splitOversized_ok hs
          have hlen : plan.subtasks.length = tasks.length := ht.length_eq
          have hdrafted : plan.subtasks = units.map DraftedUnit.drafted := by
            have hfst := congrArg (List.map Prod.fst) hu
            rw [map_map, map_fst_zip (Nat.le_of_eq hlen)] at hfst
            exact hfst.symm
          have hb : tasks = units.map DraftedUnit.built := by
            have hsnd := congrArg (List.map Prod.snd) hu
            rw [map_map, map_snd_zip (Nat.le_of_eq hlen.symm)] at hsnd
            exact hsnd.symm
          have hdistinct : Keyed.Distinct (fun u => u.drafted.id) units := by
            have hn := planned.property.distinct
            unfold Keyed.Distinct at hn
            rw [← hids, hdrafted, map_map] at hn
            exact hn
          rw [hb] at h
          refine ⟨plan, units, ⟨_, planned, world, hplan, hp⟩,
            finishLevel_ok hdrafted hdistinct (Prod.mk.inj h).1, hnumbered,
            hdistinct, ?_, hopened, hsettled, hunt⟩
          rw [hdrafted, hb, forall₂_map_left_iff, forall₂_map_right_iff, forall₂_same] at ht
          exact ht

/-- RUN LEMMA: whatever a run of the service returns has the shape. -/
theorem produced_of_doDecompose (hstr : service.strategy.PlansItsTask)
    (h : service.doDecompose now budget levels task context session =
      (.ok r, session')) : Produced now task context.address r := by
  induction levels generalizing task context session session' r with
  | zero => cases h
  | succ levels ih =>
    obtain ⟨plan, units, hl⟩ := doDecompose_ok h
    obtain ⟨world, planned, world', hplan, hp⟩ := hl.planned
    rw [hl.result]
    refine Produced.level plan units _ _ ?_ hl.numbered hl.distinct hl.built ?_ ?_
    · rw [hp]
      exact hstr _ _ _ _ _ hplan
    · exact fun u hu c hc => (hl.opened u hu c hc).1
    · intro u hu c hc
      obtain ⟨-, -, opened, closed, hopen⟩ := hl.opened u hu c hc
      exact ih hopen

/-- What `decompose_task` returns is produced for the task, at the context's address. -/
theorem produced_of_ok (hstr : service.strategy.PlansItsTask) {world : σ}
    (h : service.decomposeTask now task context world = (.ok r, session)) :
    Produced now task context.address r := by
  unfold DecompositionService.decomposeTask at h
  split at h
  next => cases h
  next budget opened ledger hopen =>
    have haddr : opened.address = context.address := by
      unfold DecompositionService.openTree at hopen
      simp only [bind_ok_iff] at hopen
      obtain ⟨budget', -, bounded, hb, sessions, -, -, rfl, -⟩ := hopen
      unfold resolveDecompositionBounds at hb
      simp only [bind_ok_iff, Except.ok.injEq] at hb
      obtain ⟨depth, -, width, -, rfl⟩ := hb
      rfl
    rw [← haddr]
    exact produced_of_doDecompose hstr h

end Run

-- ==== the walk

structure Site where
  before : List SubtaskDefinition
  definition : SubtaskDefinition
  task : Task

def workOf (subtasks : List SubtaskDefinition) : List SubtaskDefinition :=
  subtasks.filter fun s => s.kind = .work

def Site.step (site : Site) : SubtreeStep where
  title := site.definition.title
  position := site.before.length

def Site.workStep (site : Site) : SubtreeStep where
  title := site.definition.title
  position := (workOf site.before).length

def sites : List SubtaskDefinition → List SubtaskDefinition → List Task → List Site
  | before, s :: rest, t :: tasks =>
    { before := before, definition := s, task := t } :: sites (before ++ [s]) rest tasks
  | _, _, _ => []

structure Container where
  above : List Site
  own : Site
  pieces : List SubtaskDefinition

def Container.path (k : Container) : List Site := k.above ++ [k.own]

def Container.address (k : Container) : List SubtreeStep := k.path.map Site.step

def containers : DecompositionResult → List Site → List Container
  | .mk plan createdTasks _ _ children, above =>
    below (sites [] plan.subtasks createdTasks) above children
where
  below (units : List Site) (above : List Site) : List DecompositionResult → List Container
    | [] => []
    | c :: rest =>
      ((units.filter fun u => u.definition.id = c.plan.parentTaskId).flatMap fun u =>
        { above := above, own := u, pieces := c.plan.subtasks } ::
          containers c (above ++ [u])) ++ below units above rest

variable {above : List Site} {k : Container} {address : List SubtreeStep} {task : Task}
  {r : DecompositionResult}

theorem mem_containers : k ∈ containers r above ↔ ∃ c ∈ r.children,
      ∃ u ∈ sites [] r.plan.subtasks r.createdTasks, u.definition.id = c.plan.parentTaskId ∧
        (k = { above := above, own := u, pieces := c.plan.subtasks } ∨
          k ∈ containers c (above ++ [u])) := by
  have hb : ∀ units cs, k ∈ containers.below units above cs ↔ ∃ c ∈ cs, ∃ u ∈ units,
      u.definition.id = c.plan.parentTaskId ∧
        (k = { above := above, own := u, pieces := c.plan.subtasks } ∨
          k ∈ containers c (above ++ [u])) := by
    intro units cs
    induction cs with
    | nil => simp [containers.below]
    | cons c rest ih =>
      rw [containers.below, mem_append, ih]
      simp only [mem_flatMap, mem_filter, decide_eq_true_eq, mem_cons, exists_eq_or_imp, and_assoc]
  cases r with
  | mk plan createdTasks dependencyEdges depth children => exact hb _ children

variable {site : Site} {parentId : Option String} {l : DecompositionResult}

theorem mem_sites {units : List DraftedUnit} {before : List SubtaskDefinition} :
    site ∈ sites before (units.map (DraftedUnit.definition address))
        (units.map (DraftedUnit.task address)) ↔
      ∃ earlier u later, units = earlier ++ u :: later ∧
        site =
          { before := before ++ earlier.map (DraftedUnit.definition address)
            definition := u.definition address
            task := u.task address } := by
  induction units generalizing before with
  | nil => simp [sites]
  | cons v rest ih =>
    rw [map_cons, map_cons, sites, mem_cons, ih]
    constructor
    · rintro (rfl | ⟨earlier, u, later, rfl, rfl⟩)
      · exact ⟨[], v, rest, rfl, by simp⟩
      · exact ⟨v :: earlier, u, later, rfl, by simp⟩
    · rintro ⟨earlier, u, later, hu, rfl⟩
      cases earlier with
      | nil =>
        obtain ⟨rfl, rfl⟩ := cons.inj hu
        exact .inl (by simp)
      | cons w earlier =>
        obtain ⟨rfl, rfl⟩ := cons.inj hu
        exact .inr ⟨earlier, u, later, rfl, by simp⟩

-- ==== produced units

variable {now : Int}

structure Built (s : SubtaskDefinition) (t : Task) : Prop where
  id : t.id.text = s.id
  stakes : t.stakes = s.stakes
  artifacts : t.artifactsExpected = s.expectedArtifacts.map expectedArtifactFromSpec

theorem built_of_ok {parent : Task} {plan : DecompositionPlan} {s : SubtaskDefinition}
    {t : Task} (h : taskFromSubtask parent plan now s = .ok t) : Built s t := by
  unfold taskFromSubtask subtaskUuid at h
  split at h
  next hid =>
    have hf := (Task.modelValidate_ok_iff _ _ _).1 ((mapError_ok_iff _ _ _).1 h)
    constructor <;> rw [hf.2] <;> rfl
  next => cases h

structure Assembled (address : List SubtreeStep) (pieces : List SubtaskDefinition)
    (s : SubtaskDefinition) (t : Task) : Prop where
  work : s.kind = .work
  built : Built s t
  brief : ∃ criteria, s.description = buildAssemblyBrief s.title
    (pieces.map SubtaskDefinition.title) criteria (subtreeAssemblyPaths address)
  task_brief : t.description = s.description
  stakes : s.stakes = escalatedStakes (pieces.map SubtaskDefinition.stakes)
  paths : ∃ own, s.expectedArtifacts = own ++ (subtreeAssemblyPaths address).declared

theorem DraftedUnit.assembled_of_below {u : DraftedUnit} {c : DecompositionResult}
    (hb : Built u.drafted u.built) (hwork : u.drafted.kind = .work) (hbelow : u.below = some c) :
    Assembled (address ++ [u.step]) c.plan.subtasks (u.definition address)
      (u.task address) := by
  have hassembly : u.assembly address = some (buildAssembly u.drafted.title
      (c.plan.subtasks.map SubtaskDefinition.title) u.drafted.acceptanceCriteria
      (c.plan.subtasks.map SubtaskDefinition.stakes) (address ++ [u.step])) := by
    unfold DraftedUnit.assembly
    rw [hbelow]
    rfl
  have htask : u.task address = assembledTask u.built (some (buildAssembly u.drafted.title
      (c.plan.subtasks.map SubtaskDefinition.title) u.drafted.acceptanceCriteria
      (c.plan.subtasks.map SubtaskDefinition.stakes) (address ++ [u.step]))) := by
    unfold DraftedUnit.task
    rw [hassembly]
  obtain ⟨hid, hs, ha⟩ := hb
  have hp : (u.built.artifactsExpected ++ (subtreeAssemblyPaths
      (address ++ [u.step])).declared.map expectedArtifactFromSpec) =
      (u.drafted.expectedArtifacts ++ (subtreeAssemblyPaths
        (address ++ [u.step])).declared).map expectedArtifactFromSpec := by
    rw [ha, map_append]
  rw [htask]
  unfold DraftedUnit.definition DraftedUnit.noted DraftedUnit.assembled
  rw [hassembly]
  cases u.reason with
  | none | some reason => exact ⟨hwork, ⟨hid, rfl, hp⟩, ⟨_, rfl⟩, rfl, rfl, ⟨_, rfl⟩⟩

/-- STEP LEMMA: a container is a unit of the top level that split, or one of a level below. -/
theorem Produced.container_cases (h : Produced now task address r) (hk : k ∈ containers r above) :
    ∃ earlier site later child, ∃ built : Task,
      r.plan.subtasks = earlier ++ site.definition :: later ∧ site.before = earlier ∧
      child ∈ r.children ∧ child.plan.parentTaskId = site.definition.id ∧
      Produced now built (address ++ [site.step]) child ∧
      Assembled (address ++ [site.step]) child.plan.subtasks site.definition site.task ∧
      (k = { above := above, own := site, pieces := child.plan.subtasks } ∨
        k ∈ containers child (above ++ [site])) := by
  cases h with
  | level plan units edges depth parent numbered distinct built work below =>
    obtain ⟨child, hc, site, hsite, hid, hk⟩ := mem_containers.1 hk
    obtain ⟨earlier, u, later, rfl, rfl⟩ := mem_sites.1 hsite
    obtain ⟨v, hv, hb⟩ := mem_filterMap.1 hc
    have hp := below v hv child hb
    have hbuilt := built_of_ok (built v hv)
    have hparent : child.plan.parentTaskId = v.built.id.text := by
      cases hp with
      | level _ _ _ _ parent => exact parent
    -- the ids of a level are distinct, so the parent it names is the unit's own
    have hsame : v = u := by
      apply Keyed.eq_of_key distinct hv (mem_append_right _ mem_cons_self)
      rw [DraftedUnit.definition_id] at hid
      exact (hid.trans (hparent.trans hbuilt.id)).symm
    subst hsame
    have hstep : Site.step
        { before := [] ++ earlier.map (DraftedUnit.definition address)
          definition := v.definition address
          task := v.task address } = v.step := by
      have hpos := numbered.position
      unfold Site.step DraftedUnit.step
      simp only [DraftedUnit.definition_title, nil_append, length_map, hpos, Nat.zero_add]
    refine ⟨earlier.map (DraftedUnit.definition address), _,
      later.map (DraftedUnit.definition address), child, v.built, ?_, rfl, hc,
      hid.symm, ?_, ?_, hk⟩
    · show (earlier ++ v :: later).map (DraftedUnit.definition address) = _
      rw [map_append, map_cons]
    · rw [hstep]
      exact hp
    · rw [hstep]
      exact DraftedUnit.assembled_of_below hbuilt (work v hv child hb) hb

/-- RUN LEMMA: every container the service produces assembles what it holds, at its own address. -/
theorem Produced.assembled (h : Produced now task address r)
    (haddr : address = above.map Site.step) (hk : k ∈ containers r above) :
    Assembled k.address k.pieces k.own.definition k.own.task := by
  induction r using DecompositionResult.treeInduction generalizing task address above with
  | h r ih =>
    obtain ⟨earlier, site, later, child, built, -, -, hc, -, hp, hassembled, hk⟩ :=
      h.container_cases hk
    have hdown : address ++ [site.step] = (above ++ [site]).map Site.step := by
      rw [haddr, map_append]
      rfl
    rcases hk with rfl | hk
    · rw [hdown] at hassembled
      exact hassembled
    · exact ih child hc hp hdown hk

-- ==== levels by parent

def placedLevels : DecompositionResult → Option String → List (Option String × DecompositionResult)
  | .mk plan createdTasks dependencyEdges depth children, parentId =>
    (parentId, .mk plan createdTasks dependencyEdges depth children) :: below children
where
  below : List DecompositionResult → List (Option String × DecompositionResult)
    | [] => []
    | c :: rest => placedLevels c (some c.plan.parentTaskId) ++ below rest

theorem placedLevels_eq (r : DecompositionResult) (parentId : Option String) :
    placedLevels r parentId = (parentId, r) ::
      r.children.flatMap fun c => placedLevels c (some c.plan.parentTaskId) := by
  have hb : ∀ cs, placedLevels.below cs =
      cs.flatMap fun c => placedLevels c (some c.plan.parentTaskId) := by
    intro cs
    induction cs with
    | nil => rfl
    | cons c rest ih => rw [placedLevels.below, ih, flatMap_cons]
  cases r with
  | mk plan createdTasks dependencyEdges depth children =>
    rw [placedLevels, hb]
    rfl

/-- The units that were split, in a whole tree. -/
def parentIds : DecompositionResult → List String
  | .mk _ _ _ _ children => below children
where
  below : List DecompositionResult → List String
    | [] => []
    | c :: rest => c.plan.parentTaskId :: (parentIds c ++ below rest)

theorem parentIds_eq (r : DecompositionResult) :
    parentIds r = r.children.flatMap fun c => c.plan.parentTaskId :: parentIds c := by
  have hb : ∀ cs, parentIds.below cs =
      cs.flatMap fun c => c.plan.parentTaskId :: parentIds c := by
    intro cs
    induction cs with
    | nil => rfl
    | cons c rest ih =>
      rw [parentIds.below, ih]
      rfl
  cases r with
  | mk plan createdTasks dependencyEdges depth children =>
    rw [parentIds, hb]
    rfl

theorem placedLevels_keys (r : DecompositionResult) (parentId : Option String) :
    (placedLevels r parentId).map Prod.fst = parentId :: (parentIds r).map some := by
  induction r using DecompositionResult.treeInduction generalizing parentId with
  | h r ih =>
    rw [placedLevels_eq, parentIds_eq, map_cons, map_flatMap, map_flatMap]
    congr 1
    rw [flatMap_def]
    congr 1
    apply map_congr_left
    intro c hc
    rw [ih c hc, map_cons]

theorem walkLevels_placed (r : DecompositionResult) (parentId : Option String) :
    walkLevels r parentId =
      (placedLevels r parentId).flatMap fun x => x.2.plan.subtasks.map (x.1, ·) := by
  induction r using DecompositionResult.treeInduction generalizing parentId with
  | h r ih =>
    rw [walkLevels_eq, placedLevels_eq, flatMap_cons, flatMap_assoc]
    congr 1
    rw [flatMap_def]
    congr 1
    apply map_congr_left
    intro c hc
    exact ih c hc _

theorem walkLevels_subtasks (r : DecompositionResult) (parentId : Option String) :
    (walkLevels r parentId).map Prod.snd = r.allSubtasks := by
  induction r using DecompositionResult.treeInduction generalizing parentId with
  | h r ih =>
    rw [walkLevels_eq, DecompositionResult.allSubtasks_eq, map_append, map_flatMap, map_map]
    congr 1
    · exact map_id _
    · rw [flatMap_def]
      congr 1
      apply map_congr_left
      intro c hc
      exact ih c hc _

theorem Produced.parentIds_subperm (h : Produced now task address r) :
    (parentIds r).Subperm (r.allSubtasks.map SubtaskDefinition.id) := by
  induction r using DecompositionResult.treeInduction generalizing task address with
  | h r ih =>
    have hn : (r.children.map fun c => c.plan.parentTaskId).Sublist
        (r.plan.subtasks.map SubtaskDefinition.id) := by
      cases h with
      | level plan units edges depth parent numbered distinct built work below =>
        have hids : (units.map (DraftedUnit.definition address)).map
            SubtaskDefinition.id = units.map fun u => u.drafted.id := by
          rw [map_map]
          exact map_congr_left fun u _ => DraftedUnit.definition_id address u
        show ((units.filterMap DraftedUnit.below).map _).Sublist
          ((units.map (DraftedUnit.definition address)).map SubtaskDefinition.id)
        rw [hids]
        clear numbered distinct hids ih parent work
        induction units with
        | nil => exact Sublist.slnil
        | cons u rest ihrest =>
          have hrest := ihrest (fun v hv => built v (mem_cons_of_mem u hv))
            (fun v hv => below v (mem_cons_of_mem u hv))
          rw [filterMap_cons]
          cases hb : u.below with
          | none => exact hrest.cons _
          | some c =>
            have hp : c.plan.parentTaskId = u.drafted.id := by
              rw [← (built_of_ok (built u mem_cons_self)).id]
              cases below u mem_cons_self c hb with
              | level _ _ _ _ parent => exact parent
            rw [map_cons, hp]
            exact hrest.cons_cons _
    have hb : ∀ c ∈ r.children, (parentIds c).Subperm
        (c.allSubtasks.map SubtaskDefinition.id) := by
      cases h with
      | level plan units edges depth parent numbered distinct built work below =>
        intro c hc
        obtain ⟨u, hu, hb⟩ := mem_filterMap.1 hc
        exact ih c hc (below u hu c hb)
    have hflat : ∀ cs : List DecompositionResult,
        (∀ c ∈ cs, (parentIds c).Subperm (c.allSubtasks.map SubtaskDefinition.id)) →
        (cs.flatMap parentIds).Subperm
          ((cs.flatMap DecompositionResult.allSubtasks).map SubtaskDefinition.id) := by
      intro cs hcs
      induction cs with
      | nil => exact List.Subperm.refl _
      | cons c rest ihrest =>
        rw [flatMap_cons, flatMap_cons, map_append]
        exact (hcs c mem_cons_self).append (ihrest fun d hd => hcs d (mem_cons_of_mem c hd))
    rw [parentIds_eq, DecompositionResult.allSubtasks_eq, map_append]
    have hperm := map_append_flatMap_perm r.children (fun c => c.plan.parentTaskId) parentIds
    exact hperm.symm.subperm.trans (hn.subperm.append (hflat _ hb))

-- ==== in the plan

def placedItem (decisions : List String) (parentId : Option String)
    (s : SubtaskDefinition) : PlanItem :=
  stripDecisions decisions (itemFields parentId s)

variable {id : Uuid} {r : DecompositionResult} {provenance : PlanProvenance} {plan : Plan}

/-- The items `items_from_decomposition` writes, before they are checked. -/
def walkItems (r : DecompositionResult) : List PlanItem :=
  (walkLevels r none).map fun e => itemFields e.1 e.2

theorem planFromDecomposition_ok_iff : planFromDecomposition id r provenance = .ok plan ↔
      r.plan.taskStructure ≠ .auto ∧ plan.Valid ∧
        plan = planFields id r provenance (walkItems r) := by
  have hone : ∀ (e : Option String × SubtaskDefinition) item, itemFromSubtask e.1 e.2 = .ok item ↔
      item = itemFields e.1 e.2 ∧ item.Valid := by
    intro e item
    unfold itemFromSubtask
    simp only [bind_unit_ok_iff, mapError_ok_iff, PlanItem.check_ok_iff, Except.ok.injEq]
    constructor
    · rintro ⟨hv, rfl⟩
      exact ⟨rfl, hv⟩
    · rintro ⟨rfl, hv⟩
      exact ⟨hv, rfl⟩
  unfold planFromDecomposition itemsFromDecomposition
  simp only [bind_ok_iff, mapError_ok_iff, buildAll_ok_iff, Plan.modelValidate_ok_iff, hone]
  constructor
  · rintro ⟨items, hitems, _, hstr, hv, rfl⟩
    have hwalk : items = walkItems r := by
      rw [← map_id items]
      exact (map_eq_of_forall₂ hitems fun e _ item hitem => hitem.1.symm).symm
    rw [← hwalk]
    exact ⟨(require_ok_iff _ _).1 hstr, hv, rfl⟩
  · rintro ⟨hstr, hv, rfl⟩
    refine ⟨walkItems r, ?_, (), (require_ok_iff _ _).2 hstr, hv, rfl⟩
    unfold walkItems
    rw [forall₂_map_right_iff, forall₂_same]
    intro e he
    exact ⟨rfl, hv.items_valid _ (mem_map_of_mem he)⟩

theorem planFromDecomposition_ok (h : planFromDecomposition id r provenance = .ok plan) :
    plan.Valid ∧ plan.items = walkItems r := by
  obtain ⟨-, hv, hplan⟩ := planFromDecomposition_ok_iff.1 h
  refine ⟨hv, ?_⟩
  rw [hplan]
  rfl

theorem distinct_allSubtasks (h : planFromDecomposition id r provenance = .ok plan) :
    Keyed.Distinct SubtaskDefinition.id r.allSubtasks := by
  obtain ⟨hv, hitems⟩ := planFromDecomposition_ok h
  have hd := hv.graph.distinct
  unfold Keyed.Distinct at hd ⊢
  rw [hitems, walkItems, map_map] at hd
  rw [← walkLevels_subtasks r none, map_map]
  exact hd

theorem childrenOf_placed (hp : Produced now task address r)
    (h : planFromDecomposition id r provenance = .ok plan)
    (hl : (parentId, l) ∈ placedLevels r none) :
    Forest.childrenOf PlanItem.parentId (workTree plan).items parentId =
      (workOf l.plan.subtasks).map (placedItem (decisionIds plan.items) parentId) := by
  obtain ⟨-, hitems⟩ := planFromDecomposition_ok h
  have hkeys : Keyed.Distinct Prod.fst (placedLevels r none) := by
    unfold Keyed.Distinct
    rw [placedLevels_keys, nodup_cons]
    have hs := hp.parentIds_subperm
    obtain ⟨ids, hperm, hu⟩ := hs
    have hn : (parentIds r).Nodup := hperm.nodup_iff.1 ((distinct_allSubtasks h).sublist hu)
    exact ⟨by simp, hn.map (Option.some_injective _)⟩
  have hg := Keyed.filter_groups (fun x : Option String × DecompositionResult =>
    x.2.plan.subtasks) hkeys hl
  have hlevels : plan.items.filter (fun i => i.parentId = parentId) =
      l.plan.subtasks.map (itemFields parentId) := by
    rw [hitems, walkItems, walkLevels_placed, filter_map]
    show map _ (List.filter (fun e : Option String × SubtaskDefinition => e.1 = parentId) _) = _
    rw [hg, map_map]
    rfl
  show List.filter _ (dispatchable plan) = _
  unfold dispatchable workOf
  rw [filter_map, filter_filter]
  have hswap : plan.items.filter (fun i => decide (i.parentId = parentId) &&
      decide (i.kind = .work)) =
      (plan.items.filter fun i => i.parentId = parentId).filter fun i => i.kind = .work := by
    rw [filter_filter]
    apply filter_congr
    intro i _
    exact Bool.and_comm _ _
  show map _ (plan.items.filter fun i => decide (i.parentId = parentId) &&
    decide (i.kind = .work)) = _
  rw [hswap, hlevels, filter_map, map_map]
  rfl

theorem findIdx_of_distinct {ι : Type} (key : ι → String) {before after : List ι} {x : ι}
    (hd : Keyed.Distinct key (before ++ x :: after)) :
    (before ++ x :: after).findIdx? (fun y => key y = key x) = some before.length := by
  have hnone : before.findIdx? (fun y => key y = key x) = none := by
    rw [List.findIdx?_eq_none_iff]
    intro y hy
    rw [decide_eq_false_iff_not]
    intro heq
    unfold Keyed.Distinct at hd
    rw [map_append, nodup_append] at hd
    exact hd.2.2 (key y) (mem_map_of_mem hy) (key x) mem_cons_self heq
  rw [List.findIdx?_append, hnone, List.findIdx?_cons]
  simp

def Under (tree : PlanTree) (parentId : Option String) (above : List Site) : Prop :=
  (parentId = none ∧ above = []) ∨ ∃ p ∈ tree.items, parentId = some p.id ∧
    tree.address p.id = above.map Site.workStep

structure PlacedAt (plan : Plan) (k : Container) : Prop where
  item : ∃ parentId, placedItem (decisionIds plan.items) parentId k.own.definition ∈
    (workTree plan).items
  children : (workTree plan).children k.own.definition.id =
    (workOf k.pieces).map (placedItem (decisionIds plan.items) (some k.own.definition.id))
  address : (workTree plan).address k.own.definition.id = k.path.map Site.workStep

/-- STEP LEMMA in the plan: a work unit is an item, numbered among the work beside it. -/
theorem placed_site (hproduced : Produced now task address r)
    (h : planFromDecomposition id r provenance = .ok plan)
    (hl : (parentId, l) ∈ placedLevels r none) (hu : Under (workTree plan) parentId above)
    {later : List SubtaskDefinition} (hwork : site.definition.kind = .work)
    (hsite : l.plan.subtasks = site.before ++ site.definition :: later) :
    ∃ p ∈ (workTree plan).items,
      p = placedItem (decisionIds plan.items) parentId site.definition ∧
      (workTree plan).address p.id = (above ++ [site]).map Site.workStep := by
  have hfor := (workTree_forest (planFromDecomposition_ok h).1).forest
  let place := placedItem (decisionIds plan.items) parentId
  have hlevels := childrenOf_placed hproduced h hl
  have hs : workOf l.plan.subtasks = workOf site.before ++ site.definition :: workOf later := by
    unfold workOf
    rw [hsite, filter_append, filter_cons, if_pos (decide_eq_true hwork)]
  rw [hs, map_append, map_cons] at hlevels
  have hmem : place site.definition ∈ Forest.childrenOf PlanItem.parentId
      (workTree plan).items parentId := by
    rw [hlevels]
    exact mem_append_right _ mem_cons_self
  obtain ⟨hitem, hp⟩ := Forest.mem_childrenOf.1 hmem
  refine ⟨place site.definition, hitem, rfl, ?_⟩
  have hstep : (workTree plan).step (place site.definition) = site.workStep := by
    have hsiblings : (workTree plan).siblings (place site.definition) =
        Forest.childrenOf PlanItem.parentId (workTree plan).items parentId := by
      cases parentId <;> rfl
    have hd : Keyed.Distinct PlanItem.id
        (Forest.childrenOf PlanItem.parentId (workTree plan).items parentId) :=
      hfor.distinct.sublist (filter_sublist.map _)
    rw [hlevels] at hd
    have hf := findIdx_of_distinct PlanItem.id hd
    unfold PlanTree.step
    rw [hsiblings, hlevels]
    show SubtreeStep.mk _ (Option.getD (List.findIdx? _ _) 0) = _
    rw [hf, length_map]
    rfl
  show map _ (Forest.chain PlanItem.id PlanItem.parentId _ (place site.definition).id) = _
  rcases hu with ⟨rfl, rfl⟩ | ⟨q, hq, rfl, haddr⟩
  · rw [hfor.chain_root hitem hp, map_singleton, hstep]
    rfl
  · rw [hfor.chain_child hitem hp, map_append, map_append, map_singleton, hstep]
    congr 1

/-- RUN LEMMA in the plan: every container is where its work siblings put it, with its work. -/
theorem placed_containers (hproduced : Produced now task address r)
    (h : planFromDecomposition id r provenance = .ok plan) (hk : k ∈ containers r []) :
    PlacedAt plan k := by
  have hall : ∀ (l : DecompositionResult) (task : Task) (address : List SubtreeStep)
      (parentId : Option String) (above : List Site), Produced now task address l →
      (∀ x ∈ placedLevels l parentId, x ∈ placedLevels r none) →
      Under (workTree plan) parentId above →
      ∀ k ∈ containers l above, PlacedAt plan k := by
    intro l
    induction l using DecompositionResult.treeInduction with
    | h l ih =>
      intro task address parentId above hlevels hsub hu k hk
      obtain ⟨earlier, site, later, child, built, hs, rfl, hc, hparent, hb,
        hassembled, hk⟩ := hlevels.container_cases hk
      have hl : (parentId, l) ∈ placedLevels r none := by
        apply hsub
        rw [placedLevels_eq]
        exact mem_cons_self
      have hdown : ∀ x ∈ placedLevels child (some site.definition.id), x ∈ placedLevels r none := by
        intro x hx
        apply hsub
        rw [placedLevels_eq, mem_cons, mem_flatMap]
        refine .inr ⟨child, hc, ?_⟩
        rw [hparent]
        exact hx
      have htop : (some site.definition.id, child) ∈ placedLevels r none := by
        apply hdown
        rw [placedLevels_eq]
        exact mem_cons_self
      obtain ⟨p, hp, rfl, haddr⟩ := placed_site hproduced h hl hu hassembled.work hs
      rcases hk with rfl | hk
      · exact ⟨⟨parentId, hp⟩, childrenOf_placed hproduced h htop, haddr⟩
      · exact ih child hc built _ _ _ hb hdown (.inr ⟨_, hp, rfl, haddr⟩) k hk
  exact hall r task address none [] hproduced (fun x hx => hx) (.inl ⟨rfl, rfl⟩) k hk

end Synthorg.Decomposition
