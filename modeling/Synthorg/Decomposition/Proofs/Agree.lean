/-
The three traversals of a dependency graph agree.

Each of them ends well exactly on an acyclic graph. That they reject a cycle is read off what they
leave behind: a settled order or a layering of all the units ranks the graph.

On an acyclic graph the sort is the order of its heap, and a group's index counts
the units below the ends of its chains.

The graph a decomposition projects onto is acyclic as far as the planner's ids are distinct: each
level passed `validate`, and the level below a unit hangs under that unit, which is WORK.
-/
import Synthorg.Lib.Reach
import Synthorg.Decomposition.Proofs.Placement
import Synthorg.Decomposition.Proofs.DispatchOrder
import Mathlib.Algebra.Order.BigOperators.Group.List
import Mathlib.Algebra.Order.Ring.Nat

namespace Synthorg.Decomposition

open Synthorg.Core Lib
open List

namespace DependencyGraph

variable {g : DependencyGraph}

-- ==== the invariant

def Entered (stack : List (String × Nat)) (k : String) : Prop :=
  ∃ i, (k, i) ∈ stack ∧ i ≠ 0

def Frames (g : DependencyGraph) (order : List String) : Option String → List (String × Nat) → Prop
  | _, [] => True
  | above, (node, i) :: rest =>
    (∀ j, j < i → ∀ d, (g.dependencies node)[j]? = some d → d ∈ order ∨ above = some d) ∧
      Frames g order (some node) rest

/-- THE INVARIANT, at the head of the loop. -/
structure Searching (g : DependencyGraph) (stack : List (String × Nat))
    (visited inStack order : List String) : Prop where
  settled : Layers.Settled g.dependencies [] order
  frames : Frames g order none stack
  nodup : (stack.map Prod.fst).Nodup
  stacked : ∀ k, k ∈ inStack ↔ Entered stack k
  seen : ∀ k, k ∈ visited ↔ k ∈ order ∨ Entered stack k
  started : ∀ e ∈ stack.tail, e.2 ≠ 0
  fresh : ∀ node rest, stack = (node, 0) :: rest → node ∉ visited

theorem Frames.left {order : List String} {node : String} {rest : List (String × Nat)}
    (h : Frames g order (some node) rest) : Frames g (order ++ [node]) none rest := by
  have hkeep : ∀ (above : Option String) (stack : List (String × Nat)),
      Frames g order above stack → Frames g (order ++ [node]) above stack := by
    intro above stack
    induction stack generalizing above with
    | nil => exact fun _ => trivial
    | cons e rest ih =>
      intro hf
      refine ⟨fun j hj d hd => ?_, ih _ hf.2⟩
      exact (hf.1 j hj d hd).imp_left (mem_append_left [node])
  cases rest with
  | nil => trivial
  | cons e rest =>
    refine ⟨fun j hj d hd => ?_, hkeep _ _ h.2⟩
    left
    rcases h.1 j hj d hd with hold | ha
    · exact mem_append_left [node] hold
    · cases ha
      exact mem_append_right order mem_cons_self

theorem entered_cons {node k : String} {i : Nat} {rest : List (String × Nat)} (hi : i ≠ 0)
    (hs : ∀ e ∈ rest, e.2 ≠ 0) :
    Entered ((node, i) :: rest) k ↔ k = node ∨ k ∈ rest.map Prod.fst := by
  unfold Entered
  simp only [mem_cons, Prod.mk.injEq, mem_map, Prod.exists, exists_and_right, exists_eq_right]
  constructor
  · rintro ⟨j, ⟨rfl, -⟩ | hmem, -⟩
    · exact .inl rfl
    · exact .inr ⟨j, hmem⟩
  · rintro (rfl | ⟨j, hmem⟩)
    · exact ⟨i, .inl ⟨rfl, rfl⟩, hi⟩
    · exact ⟨j, .inr hmem, hs _ hmem⟩

theorem entered_of_started {k : String} {rest : List (String × Nat)}
    (hs : ∀ e ∈ rest, e.2 ≠ 0) : Entered rest k ↔ k ∈ rest.map Prod.fst := by
  simp only [mem_map, Prod.exists, exists_and_right, exists_eq_right]
  constructor
  · rintro ⟨j, hmem, -⟩
    exact ⟨j, hmem⟩
  · rintro ⟨j, hmem⟩
    exact ⟨j, hmem, hs _ hmem⟩

-- ==== one round

section Round

variable {node : String} {i : Nat} {rest : List (String × Nat)}
  {visited inStack order : List String}

section
variable (h : Searching g ((node, i) :: rest) visited inStack order)
include h

theorem Searching.entered :
    (∀ k, k ∈ (if i = 0 then node :: inStack else inStack) ↔ k = node ∨ k ∈ rest.map Prod.fst) ∧
      ∀ k, k ∈ (if i = 0 then node :: visited else visited) ↔
        k ∈ order ∨ k = node ∨ k ∈ rest.map Prod.fst := by
  have hs : ∀ e ∈ rest, e.2 ≠ 0 := h.started
  by_cases hi : i = 0
  · have hrest : ∀ k, Entered ((node, i) :: rest) k ↔ k ∈ rest.map Prod.fst := by
      intro k
      rw [← entered_of_started hs]
      subst hi
      constructor
      · rintro ⟨j, hmem, hj⟩
        rcases mem_cons.1 hmem with heq | hmem
        · cases heq
          exact absurd rfl hj
        · exact ⟨j, hmem, hj⟩
      · rintro ⟨j, hmem, hj⟩
        exact ⟨j, mem_cons_of_mem _ hmem, hj⟩
    rw [if_pos hi, if_pos hi]
    refine ⟨fun k => ?_, fun k => ?_⟩
    · rw [mem_cons, h.stacked, hrest]
    · rw [mem_cons, h.seen, hrest]
      tauto
  · rw [if_neg hi, if_neg hi]
    refine ⟨fun k => ?_, fun k => ?_⟩
    · rw [h.stacked, entered_cons hi hs]
    · rw [h.seen, entered_cons hi hs]

theorem Searching.leave (hdone : (g.dependencies node)[i]? = none) :
    Searching g rest (if i = 0 then node :: visited else visited)
      ((if i = 0 then node :: inStack else inStack).filter (· ≠ node)) (order ++ [node]) := by
  obtain ⟨hin, hv⟩ := h.entered
  have hs : ∀ e ∈ rest, e.2 ≠ 0 := h.started
  have hn : node ∉ rest.map Prod.fst ∧ (rest.map Prod.fst).Nodup := nodup_cons.1 h.nodup
  have hall : ∀ d ∈ g.dependencies node, d ∈ order := by
    intro d hd
    obtain ⟨j, hj, rfl⟩ := mem_iff_getElem.1 hd
    have hlt : j < i := by
      have hlen := List.getElem?_eq_none_iff.1 hdone
      omega
    rcases h.frames.1 j hlt _ (getElem?_eq_getElem hj) with hold | ha
    · exact hold
    · cases ha
  refine ⟨?_, h.frames.2.left, hn.2, fun k => ?_, fun k => ?_, ?_, ?_⟩
  · refine h.settled.append ⟨fun d hd => ?_, trivial⟩
    rw [append_nil]
    exact hall d hd
  · rw [mem_filter, hin, entered_of_started hs]
    simp only [decide_not, Bool.not_eq_eq_eq_not, Bool.not_true, decide_eq_false_iff_not]
    constructor
    · rintro ⟨hk | hk, hne⟩
      · exact absurd hk hne
      · exact hk
    · intro hk
      exact ⟨.inr hk, fun heq => hn.1 (heq ▸ hk)⟩
  · rw [hv, entered_of_started hs, mem_append, mem_singleton]
    tauto
  · exact fun e he => hs e (mem_of_mem_tail he)
  · intro other below heq
    exact absurd rfl (hs (other, 0) (heq ▸ mem_cons_self))

theorem Searching.pass {d : String} (hd : (g.dependencies node)[i]? = some d)
    (hout : d ∉ (if i = 0 then node :: inStack else inStack))
    (hseen : d ∈ (if i = 0 then node :: visited else visited)) :
    Searching g ((node, i + 1) :: rest) (if i = 0 then node :: visited else visited)
      (if i = 0 then node :: inStack else inStack) order := by
  obtain ⟨hin, hv⟩ := h.entered
  have hs : ∀ e ∈ rest, e.2 ≠ 0 := h.started
  have htop := fun k => @entered_cons node k _ rest (Nat.succ_ne_zero i) hs
  have hleft : d ∈ order := by
    rcases (hv d).1 hseen with hold | hentered
    · exact hold
    · exact absurd ((hin d).2 hentered) hout
  refine ⟨h.settled, ⟨fun j hj e he => ?_, h.frames.2⟩, h.nodup, fun k => ?_, fun k => ?_,
    h.started, ?_⟩
  · rcases Nat.lt_succ_iff_lt_or_eq.1 hj with hlt | rfl
    · exact h.frames.1 j hlt e he
    · rw [hd] at he
      cases he
      exact .inl hleft
  · rw [hin, htop]
  · rw [hv, htop]
  · intro other below heq
    cases heq

theorem Searching.enter {d : String} (hd : (g.dependencies node)[i]? = some d)
    (hout : d ∉ (if i = 0 then node :: inStack else inStack))
    (hu : d ∉ (if i = 0 then node :: visited else visited)) :
    Searching g ((d, 0) :: (node, i + 1) :: rest)
      (if i = 0 then node :: visited else visited)
      (if i = 0 then node :: inStack else inStack) order := by
  obtain ⟨hin, hv⟩ := h.entered
  have hs : ∀ e ∈ rest, e.2 ≠ 0 := h.started
  have htop : ∀ k, Entered ((d, 0) :: (node, i + 1) :: rest) k ↔
      k = node ∨ k ∈ rest.map Prod.fst := by
    intro k
    rw [← entered_cons (Nat.succ_ne_zero i) hs]
    constructor
    · rintro ⟨j, hmem, hj⟩
      rcases mem_cons.1 hmem with heq | hmem
      · cases heq
        exact absurd rfl hj
      · exact ⟨j, hmem, hj⟩
    · rintro ⟨j, hmem, hj⟩
      exact ⟨j, mem_cons_of_mem _ hmem, hj⟩
  refine ⟨h.settled, ⟨fun j hj => absurd hj (Nat.not_lt_zero j), fun j hj e he => ?_,
    h.frames.2⟩, ?_, fun k => ?_, fun k => ?_, ?_, ?_⟩
  · rcases Nat.lt_succ_iff_lt_or_eq.1 hj with hlt | rfl
    · exact (h.frames.1 j hlt e he).imp_right fun ha => by cases ha
    · rw [hd] at he
      cases he
      exact .inr rfl
  · rw [map_cons, nodup_cons]
    refine ⟨fun hmem => hout ((hin d).2 ?_), h.nodup⟩
    rcases mem_cons.1 hmem with heq | hmem
    · exact .inl heq
    · exact .inr hmem
  · rw [hin, htop]
  · rw [hv, htop]
  · intro e he
    rcases mem_cons.1 he with rfl | he
    · exact Nat.succ_ne_zero i
    · exact h.started e he
  · intro other below heq
    cases heq
    exact hu

end

end Round

-- ==== the search

/-- RUN LEMMA: a search that comes back leaves what it entered in a settled order. -/
theorem visitLoop_settled {fuel : Nat} {stack : List (String × Nat)}
    {visited inStack order visited' : List String} (h : Searching g stack visited inStack order)
    (hran : g.visitLoop fuel stack visited inStack = .ok visited') :
    ∃ order', Layers.Settled g.dependencies [] order' ∧ (∀ k, k ∈ visited' ↔ k ∈ order') ∧
      (∀ k ∈ order, k ∈ order') ∧ ∀ k ∈ stack.map Prod.fst, k ∈ order' := by
  induction fuel generalizing stack visited inStack order with
  | zero =>
    cases stack with
    | nil =>
      cases hran
      refine ⟨order, h.settled, fun k => ?_, fun k hk => hk, nofun⟩
      rw [h.seen]
      simp [Entered]
    | cons e rest => cases hran
  | succ fuel ih =>
    cases stack with
    | nil =>
      cases hran
      refine ⟨order, h.settled, fun k => ?_, fun k hk => hk, nofun⟩
      rw [h.seen]
      simp [Entered]
    | cons e rest =>
      obtain ⟨node, i⟩ := e
      unfold visitLoop at hran
      dsimp only at hran
      split at hran
      next hdone =>
        obtain ⟨order', hs, hv, hkept, hstack⟩ := ih (h.leave hdone) hran
        refine ⟨order', hs, hv, fun k hk => ?_, fun k hk => ?_⟩
        · exact hkept k (mem_append_left [node] hk)
        · rcases mem_cons.1 hk with rfl | hk
          · exact hkept _ (mem_append_right order mem_cons_self)
          · exact hstack k hk
      next d hd =>
        by_cases hout : d ∈ (if i = 0 then node :: inStack else inStack)
        · simp [if_pos hout] at hran
        · rw [if_neg hout] at hran
          by_cases hseen : d ∈ (if i = 0 then node :: visited else visited)
          · rw [if_pos hseen] at hran
            obtain ⟨order', hs, hv, hkept, hstack⟩ := ih (h.pass hd hout hseen) hran
            exact ⟨order', hs, hv, hkept, hstack⟩
          · rw [if_neg hseen] at hran
            obtain ⟨order', hs, hv, hkept, hstack⟩ := ih (h.enter hd hout hseen) hran
            exact ⟨order', hs, hv, hkept, fun k hk => hstack k (mem_cons_of_mem d hk)⟩

theorem Searching.start {visited order : List String} {start : String}
    (hs : Layers.Settled g.dependencies [] order)
    (hv : ∀ k, k ∈ visited ↔ k ∈ order) (hu : start ∉ visited) :
    Searching g [(start, 0)] visited [] order := by
  refine ⟨hs, ⟨fun j hj => absurd hj (Nat.not_lt_zero j), trivial⟩,
    nodup_singleton start, fun k => ?_, fun k => ?_, ?_, ?_⟩
  · simp [Entered]
  · simp [Entered, hv]
  · exact fun e he => absurd he not_mem_nil
  · intro node below heq
    cases heq
    exact hu

theorem visitFrom_settled {fuel : Nat} {starts visited order : List String}
    (hs : Layers.Settled g.dependencies [] order) (hv : ∀ k, k ∈ visited ↔ k ∈ order)
    (hran : g.visitFrom fuel starts visited = .ok ()) :
    ∃ order', Layers.Settled g.dependencies [] order' ∧ (∀ k ∈ order, k ∈ order') ∧
      ∀ k ∈ starts, k ∈ order' := by
  induction starts generalizing visited order with
  | nil => exact ⟨order, hs, fun k hk => hk, nofun⟩
  | cons start rest ih =>
    unfold visitFrom at hran
    split at hran
    next hseen =>
      obtain ⟨order', hs', hkept, hrest⟩ := ih hs hv hran
      refine ⟨order', hs', hkept, fun k hk => ?_⟩
      rcases mem_cons.1 hk with rfl | hk
      · exact hkept _ ((hv _).1 hseen)
      · exact hrest k hk
    next hu =>
      obtain ⟨visited', hloop, hran⟩ := (bind_ok_iff _ _ _).1 hran
      have hopen := Searching.start hs hv hu
      obtain ⟨order', hs', hv', hkept, hstack⟩ := visitLoop_settled hopen hloop
      obtain ⟨order'', hs'', hkept', hrest⟩ := ih hs' hv' hran
      refine ⟨order'', hs'', fun k hk => hkept' k (hkept k hk), fun k hk => ?_⟩
      rcases mem_cons.1 hk with rfl | hk
      · exact hkept' _ (hstack _ mem_cons_self)
      · exact hrest k hk

theorem acyclic_of_validate (h : g.validate = .ok ()) :
    Layers.Closed g.dependencies g.subtaskIds ∧ Layers.Acyclic g.dependencies := by
  obtain ⟨href, hran⟩ := (bind_unit_ok_iff _ _ _).1 h
  have hc : Layers.Closed g.dependencies g.subtaskIds := by
    intro k hk d hd
    unfold dependencies Keyed.edges at hd
    cases hlook : Keyed.lookup SubtaskDefinition.id g.subtasks k with
    | none => simp [hlook] at hd
    | some s =>
      rw [hlook] at hd
      unfold checkMissingReferences checkReferences at href
      simp only [requireAll_ok_iff, require_ok_iff] at href
      exact href s (Keyed.lookup_mem hlook).1 d hd
  have hnone : Layers.Settled g.dependencies [] [] := trivial
  obtain ⟨order, hs, -, hall⟩ := visitFrom_settled hnone (fun k => Iff.rfl) hran
  refine ⟨hc, Layers.Rank.acyclic hs.rank ?_ fun k hk => ?_⟩
  · intro k hk d hd
    exact (hs.closed k hk d hd).resolve_right not_mem_nil
  · exact Keyed.edges_of_not_mem fun hmem => hk (hall k hmem)

end DependencyGraph

-- ==== wired levels

/-- Each level is a closed graph without a cycle, and hangs under a unit of WORK. -/
inductive Wired : DecompositionResult → Prop
  | level (r : DecompositionResult)
      (distinct : Keyed.Distinct SubtaskDefinition.id r.plan.subtasks)
      (known : ∀ s ∈ r.plan.subtasks, ∀ d ∈ s.dependencies,
        d ∈ r.plan.subtasks.map SubtaskDefinition.id)
      (acyclic : Layers.Acyclic (DependencyGraph.mk r.plan.subtasks).dependencies)
      (hung : ∀ c ∈ r.children, ∃ s ∈ r.plan.subtasks,
        s.id = c.plan.parentTaskId ∧ s.kind = .work)
      (below : ∀ c ∈ r.children, Wired c) : Wired r

section Run

variable {σ : Type} {service : DecompositionService σ} {now : Int} {budget : RecursionBudget}

variable {task : Task} {context : DecompositionContext} {session : Session σ}
  {r : DecompositionResult}

theorem doDecompose_validated {levels : Nat} {session' : Session σ}
    (h : service.doDecompose now budget (levels + 1) task context session =
      (.ok r, session')) :
    ∃ planned : PlannedLevel, (DependencyGraph.mk planned.val.subtasks).validate = .ok () ∧
      r.plan.subtasks.map (fun s => (s.id, s.dependencies)) =
        planned.val.subtasks.map fun s => (s.id, s.dependencies) := by
  cases hplan : service.strategy.decompose task (heldToSize budget context) session.world with
  | mk result world =>
    cases result with
    | error e => simp [service.doDecompose_unplanned hplan] at h
    | ok planned =>
      cases hd : service.draftLevel now task planned.val with
      | error e => simp [service.doDecompose_undrafted hplan hd] at h
      | ok drafted =>
        rw [service.doDecompose_drafted hplan hd] at h
        unfold DecompositionService.closeLevel at h
        split at h
        next => cases h
        next outcome closed hs =>
          unfold DecompositionService.draftLevel at hd
          simp only [bind_ok_iff, mapError_ok_iff] at hd
          obtain ⟨_, hval, _, -, rfl, -⟩ := hd
          refine ⟨planned, hval, ?_⟩
          have hf := (Prod.mk.inj h).1
          unfold DecompositionService.finishLevel at hf
          simp only [bind_unit_ok_iff, Except.ok.injEq] at hf
          rw [← hf.2]
          unfold DecompositionResult.plan DecompositionService.stampStakes
            DecompositionService.resolveStructure
          simp only [map_map]
          have hkept : ∀ s, (stampUnsplit outcome (assembledSubtask outcome s)).id =
              s.id ∧ (stampUnsplit outcome (assembledSubtask outcome s)).dependencies =
                s.dependencies := by
            intro s
            unfold stampUnsplit assembledSubtask
            split <;> split <;> exact ⟨rfl, rfl⟩
          split <;>
            exact map_congr_left fun s _ => Prod.ext (hkept _).1 (hkept _).2

theorem dependencies_congr {subtasks subtasks' : List SubtaskDefinition}
    (h : subtasks.map (fun s => (s.id, s.dependencies)) =
      subtasks'.map fun s => (s.id, s.dependencies)) :
    (DependencyGraph.mk subtasks).dependencies = (DependencyGraph.mk subtasks').dependencies := by
  funext k
  unfold DependencyGraph.dependencies
  induction subtasks generalizing subtasks' with
  | nil =>
    cases subtasks' with
    | nil => rfl
    | cons s rest => cases h
  | cons s rest ih =>
    cases subtasks' with
    | nil => cases h
    | cons s' rest' =>
      rw [map_cons, map_cons, cons.injEq, Prod.mk.injEq] at h
      obtain ⟨⟨hid, hdeps⟩, hrest⟩ := h
      rw [Keyed.edges_cons, Keyed.edges_cons, ih hrest, hid, hdeps]

/-- RUN LEMMA: whatever a run of the service returns is wired. -/
theorem wired_of_doDecompose (hstr : service.strategy.PlansItsTask) {levels : Nat}
    {session' : Session σ}
    (h : service.doDecompose now budget levels task context session = (.ok r, session')) :
    Wired r := by
  induction levels generalizing task context session session' r with
  | zero => cases h
  | succ levels ih =>
    obtain ⟨plan, units, hl⟩ := doDecompose_ok h
    obtain ⟨planned, hval, hsame⟩ := doDecompose_validated h
    obtain ⟨hclosed, ha⟩ := DependencyGraph.acyclic_of_validate hval
    have hids : r.plan.subtasks.map SubtaskDefinition.id =
        planned.val.subtasks.map SubtaskDefinition.id := by
      have hfst := congrArg (List.map Prod.fst) hsame
      rw [map_map, map_map] at hfst
      exact hfst
    have hdistinct : Keyed.Distinct SubtaskDefinition.id r.plan.subtasks := by
      unfold Keyed.Distinct
      rw [hids]
      exact planned.property.distinct
    have hg := dependencies_congr hsame
    refine Wired.level r hdistinct ?_ (hg ▸ ha) ?_ ?_
    · intro s hs d hd
      rw [hids]
      refine hclosed s.id ?_ d ?_
      · unfold DependencyGraph.subtaskIds
        rw [← hids]
        exact mem_map_of_mem hs
      · rw [← hg]
        unfold DependencyGraph.dependencies
        rw [Keyed.edges_key hdistinct hs]
        exact hd
    · intro c hc
      rw [hl.result] at hc ⊢
      obtain ⟨u, hu, hb⟩ := mem_filterMap.1 hc
      obtain ⟨hwork, -, opened, closed, hopen⟩ := hl.opened u hu c hb
      refine ⟨u.definition context.address, mem_map_of_mem hu, ?_, ?_⟩
      · rw [DraftedUnit.definition_id, ← (built_of_ok (hl.built u hu)).id]
        cases produced_of_doDecompose hstr hopen with
        | level plan units edges depth parent => exact parent.symm
      · rw [DraftedUnit.definition_kind]
        exact hwork
    · intro c hc
      rw [hl.result] at hc
      obtain ⟨u, hu, hb⟩ := mem_filterMap.1 hc
      obtain ⟨-, -, opened, closed, hopen⟩ := hl.opened u hu c hb
      exact ih hopen

/-- What `decompose_task` returns is wired. -/
theorem wired_of_ok (hstr : service.strategy.PlansItsTask) {world : σ}
    (h : service.decomposeTask now task context world = (.ok r, session)) : Wired r := by
  unfold DecompositionService.decomposeTask at h
  split at h
  next => cases h
  next => exact wired_of_doDecompose hstr h

end Run

-- ==== the items together

theorem walkLevels_under (r : DecompositionResult) (parentId : String) :
    (walkLevels r (some parentId)).map (fun e => itemFields e.1 e.2) =
      (walkItems r).map (reparentRoot parentId) := by
  unfold walkItems
  rw [walkLevels_eq, walkLevels_eq, map_append, map_append, map_append, map_map, map_map, map_map]
  congr 1
  rw [map_map]
  apply map_congr_left
  intro e he
  obtain ⟨c, hc, he⟩ := mem_flatMap.1 he
  have hparent : ∃ p, e.1 = some p := by
    rw [walkLevels_placed, mem_flatMap] at he
    obtain ⟨placed, hplaced, he⟩ := he
    obtain ⟨s, -, rfl⟩ := mem_map.1 he
    have hkey : placed.1 ∈ (placedLevels c (some c.plan.parentTaskId)).map Prod.fst :=
      mem_map_of_mem hplaced
    rw [placedLevels_keys] at hkey
    rcases mem_cons.1 hkey with hroot | hb
    · exact ⟨_, hroot⟩
    · obtain ⟨p, -, hp⟩ := mem_map.1 hb
      exact ⟨p, hp.symm⟩
  obtain ⟨p, hp⟩ := hparent
  exact (reparentRoot_of_some hp).symm

theorem walkItems_eq (r : DecompositionResult) :
    walkItems r = r.plan.subtasks.map (itemFields none) ++
      r.children.flatMap fun c => (walkItems c).map (reparentRoot c.plan.parentTaskId) := by
  show (walkLevels r none).map (fun e => itemFields e.1 e.2) = _
  rw [walkLevels_eq, map_append, map_map, map_flatMap]
  congr 1
  rw [flatMap_def]
  congr 1
  exact map_congr_left fun c _ => walkLevels_under c _

theorem map_id_walkItems (r : DecompositionResult) :
    (walkItems r).map PlanItem.id = r.allSubtasks.map SubtaskDefinition.id := by
  rw [← walkLevels_subtasks r none]
  unfold walkItems
  rw [map_map, map_map]
  rfl

theorem graph_of_grafts {children : List DecompositionResult} {items : List PlanItem}
    (h : ItemGraph items) (hb : ∀ c ∈ children, ItemGraph (walkItems c))
    (hung : ∀ c ∈ children, ∃ i ∈ items, i.id = c.plan.parentTaskId ∧ i.kind = .work)
    (hdistinct : ((items ++ children.flatMap fun c =>
      (walkItems c).map (reparentRoot c.plan.parentTaskId)).map PlanItem.id).Nodup) :
    ItemGraph (items ++ children.flatMap fun c =>
      (walkItems c).map (reparentRoot c.plan.parentTaskId)) := by
  induction children generalizing items with
  | nil =>
    rw [flatMap_nil, append_nil]
    exact h
  | cons c rest ih =>
    rw [flatMap_cons, ← append_assoc] at hdistinct ⊢
    obtain ⟨unit, hunit, hid, hwork⟩ := hung c mem_cons_self
    have hf : ((items ++ (walkItems c).map
        (reparentRoot c.plan.parentTaskId)).map PlanItem.id).Nodup := by
      rw [map_append] at hdistinct
      exact (nodup_append.1 hdistinct).1
    refine ih ?_ (fun d hd => hb d (mem_cons_of_mem c hd)) ?_ hdistinct
    · rw [← hid]
      refine h.graft (hb c mem_cons_self) hunit hwork fun i hi hmem => ?_
      rw [map_append, map_id_reparentRoot, nodup_append] at hf
      exact hf.2.2 i.id hmem i.id (mem_map_of_mem hi) rfl
    · intro d hd
      obtain ⟨held, hheld, ho⟩ := hung d (mem_cons_of_mem c hd)
      exact ⟨held, mem_append_left _ hheld, ho⟩

/-- PROJECTION: the items of a wired tree of distinct ids are one graph. -/
theorem graph_of_wired {r : DecompositionResult} (h : Wired r)
    (hdistinct : Keyed.Distinct SubtaskDefinition.id r.allSubtasks) : ItemGraph (walkItems r) := by
  induction h with
  | level r distinct known acyclic hung below ih =>
    have hids : (r.plan.subtasks.map (itemFields none)).map PlanItem.id =
        r.plan.subtasks.map SubtaskDefinition.id := by
      rw [map_map]
      rfl
    have he : dependenciesOf (r.plan.subtasks.map (itemFields none)) =
        (DependencyGraph.mk r.plan.subtasks).dependencies := by
      funext k
      unfold dependenciesOf DependencyGraph.dependencies Keyed.edges Keyed.lookup
      rw [find?_map, Option.map_map]
      rfl
    have hl : ItemGraph (r.plan.subtasks.map (itemFields none)) := by
      refine itemGraph_level ?_ ?_ ?_ (he ▸ acyclic)
      · intro i hi
        obtain ⟨s, -, rfl⟩ := mem_map.1 hi
        rfl
      · unfold Keyed.Distinct
        rw [hids]
        exact distinct
      · intro i hi d hd
        obtain ⟨s, hs, rfl⟩ := mem_map.1 hi
        rw [hids]
        exact known s hs d hd
    have hw : ((walkItems r).map PlanItem.id).Nodup := by
      rw [map_id_walkItems]
      exact hdistinct
    rw [walkItems_eq] at hw ⊢
    refine graph_of_grafts hl (fun c hc => ih c hc ?_) ?_ hw
    · unfold Keyed.Distinct at hdistinct ⊢
      rw [DecompositionResult.allSubtasks_eq, map_append] at hdistinct
      have hn := (nodup_append.1 hdistinct).2.1
      rw [map_flatMap] at hn
      exact (nodup_flatMap.1 hn).1 c hc
    · intro c hc
      obtain ⟨s, hs, hid, hwork⟩ := hung c hc
      exact ⟨itemFields none s, mem_map_of_mem hs, hid, hwork⟩

theorem itemsFromDecomposition_ok_iff {r : DecompositionResult} {items : List PlanItem} :
    itemsFromDecomposition r = .ok items ↔ items = walkItems r ∧ ∀ i ∈ items, i.Valid := by
  have hone : ∀ (e : Option String × SubtaskDefinition) item,
      itemFromSubtask e.1 e.2 = .ok item ↔ item = itemFields e.1 e.2 ∧ item.Valid := by
    intro e item
    unfold itemFromSubtask
    simp only [bind_unit_ok_iff, mapError_ok_iff, PlanItem.check_ok_iff, Except.ok.injEq]
    constructor
    · rintro ⟨hv, rfl⟩
      exact ⟨rfl, hv⟩
    · rintro ⟨rfl, hv⟩
      exact ⟨hv, rfl⟩
  unfold itemsFromDecomposition
  rw [buildAll_ok_iff]
  simp only [hone]
  constructor
  · intro h
    refine ⟨?_, fun i hi => ?_⟩
    · rw [← map_id items]
      exact (map_eq_of_forall₂ h fun e _ item hitem => hitem.1.symm).symm
    · obtain ⟨e, -, -, hv⟩ := exists_of_forall₂_right h hi
      exact hv
  · rintro ⟨rfl, hv⟩
    unfold walkItems at hv ⊢
    rw [forall₂_map_right_iff, forall₂_same]
    intro e he
    exact ⟨rfl, hv _ (mem_map_of_mem he)⟩

namespace DependencyGraph

variable {g : DependencyGraph}

-- ==== the search ends

structure Stacked (g : DependencyGraph) (stack : List (String × Nat)) : Prop where
  chain : (stack.map Prod.fst).IsChain fun above below => above ∈ g.dependencies below
  within : ∀ e ∈ stack, e.2 ≤ (g.dependencies e.1).length

/-- What the units outside `seen` cost: an entry, and a look at each edge. -/
def unseen (g : DependencyGraph) (seen : List String) : Nat :=
  Reach.pending (fun k => k :: g.dependencies k) seen g.subtaskIds

def work (g : DependencyGraph) (stack : List (String × Nat)) (visited : List String) : Nat :=
  (stack.map fun e => (g.dependencies e.1).length + 1 - e.2).sum +
    g.unseen (visited ++ stack.map Prod.fst)

section Round

variable {node d : String} {i : Nat} {rest : List (String × Nat)}
  {visited inStack order : List String}

theorem seen_entered (k : String) :
    k ∈ (if i = 0 then node :: visited else visited) ++ node :: rest.map Prod.fst ↔
      k ∈ visited ++ node :: rest.map Prod.fst := by
  split
  · simp only [mem_append, mem_cons]
    tauto
  · exact Iff.rfl

theorem Searching.seen_left (h : Searching g ((node, i) :: rest) visited inStack order)
    (k : String) :
    k ∈ (if i = 0 then node :: visited else visited) ++ rest.map Prod.fst ↔
      k ∈ visited ++ node :: rest.map Prod.fst := by
  split
  · simp only [mem_append, mem_cons]
    tauto
  next hi =>
    have hnode : node ∈ visited := (h.seen node).2 (.inr ⟨i, mem_cons_self, hi⟩)
    simp only [mem_append, mem_cons]
    constructor
    · tauto
    · rintro (hk | rfl | hk)
      · exact .inl hk
      · exact .inl hnode
      · exact .inr hk

theorem Searching.work_leave (h : Searching g ((node, i) :: rest) visited inStack order)
    (hs : Stacked g ((node, i) :: rest)) :
    g.work rest (if i = 0 then node :: visited else visited) + 1 ≤
      g.work ((node, i) :: rest) visited := by
  have hwith : i ≤ (g.dependencies node).length := hs.within (node, i) mem_cons_self
  have hseen : g.unseen ((if i = 0 then node :: visited else visited) ++ rest.map Prod.fst) =
      g.unseen (visited ++ node :: rest.map Prod.fst) := Reach.pending_congr h.seen_left
  simp only [work, map_cons, sum_cons]
  omega

theorem work_pass (hd : (g.dependencies node)[i]? = some d) :
    g.work ((node, i + 1) :: rest) (if i = 0 then node :: visited else visited) + 1 ≤
      g.work ((node, i) :: rest) visited := by
  have hwith : i < (g.dependencies node).length := (List.getElem?_eq_some_iff.1 hd).1
  have hseen : g.unseen ((if i = 0 then node :: visited else visited) ++
      node :: rest.map Prod.fst) = g.unseen (visited ++ node :: rest.map Prod.fst) :=
    Reach.pending_congr seen_entered
  simp only [work, map_cons, sum_cons]
  omega

theorem work_enter (hdistinct : g.subtaskIds.Nodup) (hd : (g.dependencies node)[i]? = some d)
    (hids : d ∈ g.subtaskIds)
    (hout : d ∉ (if i = 0 then node :: visited else visited) ++ node :: rest.map Prod.fst) :
    g.work ((d, 0) :: (node, i + 1) :: rest) (if i = 0 then node :: visited else visited) + 1 ≤
      g.work ((node, i) :: rest) visited := by
  have hwith : i < (g.dependencies node).length := (List.getElem?_eq_some_iff.1 hd).1
  have hseen : g.unseen ((if i = 0 then node :: visited else visited) ++
      node :: rest.map Prod.fst) = g.unseen (visited ++ node :: rest.map Prod.fst) :=
    Reach.pending_congr seen_entered
  have hnew : g.unseen ((if i = 0 then node :: visited else visited) ++
        d :: node :: rest.map Prod.fst) + ((g.dependencies d).length + 1) =
      g.unseen ((if i = 0 then node :: visited else visited) ++ node :: rest.map Prod.fst) := by
    show _ + (d :: g.dependencies d).length = Reach.pending _ _ _
    rw [← Reach.pending_visit hdistinct hids hout]
    refine congrArg (· + _) (Reach.pending_congr fun k => ?_)
    simp only [mem_append, mem_cons]
    tauto
  simp only [work, map_cons, sum_cons]
  omega

theorem Searching.not_inStack (h : Searching g ((node, i) :: rest) visited inStack order)
    (hs : Stacked g ((node, i) :: rest)) (ha : Layers.Acyclic g.dependencies)
    (hd : d ∈ g.dependencies node) : d ∉ (if i = 0 then node :: inStack else inStack) := by
  rw [h.entered.1]
  rintro (rfl | hin)
  · exact ha d (Relation.TransGen.single hd)
  · exact ha d ((Layers.after_head hs.chain hin).tail hd)

theorem Stacked.step (h : Stacked g ((node, i) :: rest))
    (hd : (g.dependencies node)[i]? = some d) : Stacked g ((node, i + 1) :: rest) := by
  refine ⟨h.chain, fun e he => ?_⟩
  rcases mem_cons.1 he with rfl | he
  · exact (List.getElem?_eq_some_iff.1 hd).1
  · exact h.within e (mem_cons_of_mem _ he)

theorem Stacked.push (h : Stacked g ((node, i) :: rest)) (hd : (g.dependencies node)[i]? = some d) :
    Stacked g ((d, 0) :: (node, i + 1) :: rest) := by
  refine ⟨isChain_cons_cons.2 ⟨mem_of_getElem? hd, h.chain⟩, fun e he => ?_⟩
  rcases mem_cons.1 he with rfl | he
  · exact Nat.zero_le _
  · exact (h.step hd).within e he

end Round

variable {fuel : Nat} {done : List String} {state : InDegree × List String}

/-- RUN LEMMA: on an acyclic graph a search with fuel for its work comes back. -/
theorem visitLoop_ok (hdistinct : g.subtaskIds.Nodup)
    (hc : ∀ k, ∀ d ∈ g.dependencies k, d ∈ g.subtaskIds)
    (ha : Layers.Acyclic g.dependencies) {stack : List (String × Nat)}
    {visited inStack order : List String} (h : Searching g stack visited inStack order)
    (hs : Stacked g stack) (hfuel : g.work stack visited ≤ fuel) :
    ∃ visited', g.visitLoop fuel stack visited inStack = .ok visited' := by
  induction fuel generalizing stack visited inStack order with
  | zero =>
    cases stack with
    | nil => exact ⟨visited, rfl⟩
    | cons e rest =>
      have hwith := hs.within e mem_cons_self
      simp only [work, map_cons, sum_cons] at hfuel
      omega
  | succ fuel ih =>
    cases stack with
    | nil => exact ⟨visited, rfl⟩
    | cons e rest =>
      obtain ⟨node, i⟩ := e
      unfold visitLoop
      dsimp only
      split
      next hdone =>
        have hwork := h.work_leave hs
        refine ih (h.leave hdone) ⟨?_, fun e he => ?_⟩ (by omega)
        · exact hs.chain.tail
        · exact hs.within e (mem_cons_of_mem _ he)
      next d hd =>
        have hmem : d ∈ g.dependencies node := mem_of_getElem? hd
        have hout := h.not_inStack hs ha hmem
        rw [if_neg hout]
        by_cases hseen : d ∈ (if i = 0 then node :: visited else visited)
        · rw [if_pos hseen]
          have hwork : g.work ((node, i + 1) :: rest)
              (if i = 0 then node :: visited else visited) + 1 ≤
                g.work ((node, i) :: rest) visited := work_pass hd
          exact ih (h.pass hd hout hseen) (hs.step hd) (by omega)
        · rw [if_neg hseen]
          have hnew : d ∉ (if i = 0 then node :: visited else visited) ++
              node :: rest.map Prod.fst := by
            rw [h.entered.1, not_or] at hout
            simp only [mem_append, mem_cons, not_or]
            exact ⟨hseen, hout⟩
          have hwork := work_enter hdistinct hd (hc node d hmem) hnew
          exact ih (h.enter hd hout hseen) (hs.push hd) (by omega)

theorem unseen_le (seen : List String) : g.unseen seen ≤ g.unseen [] := by
  have hsub : (g.subtaskIds.filter (· ∉ seen)).Sublist (g.subtaskIds.filter (· ∉ [])) := by
    simp
  exact (hsub.map _).sum_le_sum fun _ _ => Nat.zero_le _

/-- The fuel of `check_cycles` is what there is to do at first. -/
theorem unseen_nil (hd : Keyed.Distinct SubtaskDefinition.id g.subtasks) :
    g.unseen [] = (g.subtasks.map fun s => s.dependencies.length + 1).sum := by
  have hall : g.subtaskIds.filter (· ∉ []) = g.subtaskIds := by simp
  unfold unseen Reach.pending
  rw [hall, subtaskIds, map_map]
  congr 1
  refine map_congr_left fun s hs => ?_
  simp only [Function.comp_apply, length_cons, dependencies, Keyed.edges_key hd hs]

/-- RUN LEMMA: on an acyclic graph the searches from all units come back. -/
theorem visitFrom_ok (hd : g.subtaskIds.Nodup)
    (hc : ∀ k, ∀ d ∈ g.dependencies k, d ∈ g.subtaskIds)
    (ha : Layers.Acyclic g.dependencies) (hfuel : g.unseen [] ≤ fuel)
    {starts visited order : List String} (hstart : ∀ k ∈ starts, k ∈ g.subtaskIds)
    (hs : Layers.Settled g.dependencies [] order) (hv : ∀ k, k ∈ visited ↔ k ∈ order) :
    g.visitFrom fuel starts visited = .ok () := by
  induction starts generalizing visited order with
  | nil => rfl
  | cons start rest ih =>
    have hrest : ∀ k ∈ rest, k ∈ g.subtaskIds := fun k hk => hstart k (mem_cons_of_mem _ hk)
    unfold visitFrom
    split
    · exact ih hrest hs hv
    next hu =>
      have ht := Searching.start hs hv hu
      have hstack : Stacked g [(start, 0)] :=
        ⟨isChain_singleton _, fun e he => by rw [mem_singleton.1 he]; exact Nat.zero_le _⟩
      have hwork : g.work [(start, 0)] visited ≤ fuel := by
        have hvisit : g.unseen (visited ++ [start]) + ((g.dependencies start).length + 1) =
            g.unseen visited :=
          Reach.pending_visit hd (hstart start mem_cons_self) hu
        have hle := g.unseen_le visited
        simp only [work, map_cons, map_nil, sum_cons, sum_nil]
        omega
      obtain ⟨visited', hloop⟩ := visitLoop_ok hd hc ha ht hstack hwork
      obtain ⟨order', hs', hv', -, -⟩ := visitLoop_settled ht hloop
      rw [hloop]
      exact ih hrest hs' hv'

-- ==== the three agree

structure Sound (g : DependencyGraph) : Prop where
  distinct : Keyed.Distinct SubtaskDefinition.id g.subtasks
  known : ∀ s ∈ g.subtasks, ∀ d ∈ s.dependencies, d ∈ g.subtaskIds

theorem Sound.closed (h : g.Sound) : ∀ k, ∀ d ∈ g.dependencies k, d ∈ g.subtaskIds := by
  intro k d hd
  unfold dependencies Keyed.edges at hd
  cases hlook : Keyed.lookup SubtaskDefinition.id g.subtasks k with
  | none => simp [hlook] at hd
  | some s =>
    rw [hlook] at hd
    exact h.known s (Keyed.lookup_mem hlook).1 d hd

theorem Sound.validate_iff (h : g.Sound) : g.validate = .ok () ↔ Layers.Acyclic g.dependencies := by
  refine ⟨fun hok => (acyclic_of_validate hok).2, fun ha => ?_⟩
  have hfuel := unseen_nil h.distinct
  have hnone : Layers.Settled g.dependencies [] [] := trivial
  unfold validate
  rw [checkMissingReferences_ok h.known]
  exact visitFrom_ok h.distinct h.closed ha (by omega) (fun _ hk => hk) hnone fun _ => Iff.rfl

theorem groupsLoop_ok (hd : Keyed.Distinct SubtaskDefinition.id g.subtasks)
    {degree : InDegree} {remaining : List String} {groups : List (List String)}
    (hc : CountsRemaining g degree remaining) (hn : remaining.Nodup)
    (hran : g.groupsLoop fuel degree remaining = .ok groups) :
    Layers.Layered g.dependencies remaining groups := by
  induction fuel generalizing degree remaining groups with
  | zero =>
    cases remaining with
    | nil =>
      cases hran
      exact .done
    | cons node others => cases hran
  | succ fuel ih =>
    cases remaining with
    | nil =>
      cases hran
      exact .done
    | cons node others =>
      unfold groupsLoop at hran
      dsimp only at hran
      split at hran
      · cases hran
      obtain ⟨below, hb, hran⟩ := (bind_ok_iff _ _ _).1 hran
      cases hran
      refine .layer _ _ _ hc.mem_round (nodup_round hn) (ih ?_ ?_ hb)
      · exact hc.round hd (nodup_round hn)
          fun k hk => (Layers.mem_ready.1 ((hc.mem_round k).1 hk)).1
      · exact hn.filter _

theorem layered_of_parallelGroups (hd : Keyed.Distinct SubtaskDefinition.id g.subtasks)
    {groups : List (List String)} (hran : g.parallelGroups = .ok groups) :
    g.Sound ∧ Layers.Layered g.dependencies g.subtaskIds groups := by
  have hids : g.subtaskIds.dedup = g.subtaskIds := List.Nodup.dedup hd
  obtain ⟨⟨⟩, hrefs, hloop⟩ := (bind_ok_iff _ _ _).1 hran
  have hk : ∀ s ∈ g.subtasks, ∀ d ∈ s.dependencies, d ∈ g.subtaskIds := by
    simpa only [checkMissingReferences, checkReferences, requireAll_ok_iff, require_ok_iff]
      using hrefs
  rw [hids] at hloop
  exact ⟨⟨hd, hk⟩, groupsLoop_ok hd (countsRemaining_start hd hk) hd hloop⟩

theorem Sound.parallelGroups_iff (h : g.Sound) :
    (∃ groups, g.parallelGroups = .ok groups) ↔ Layers.Acyclic g.dependencies := by
  constructor
  · rintro ⟨groups, hran⟩
    obtain ⟨-, hl⟩ := layered_of_parallelGroups h.distinct hran
    have hc : Layers.Closed g.dependencies g.subtaskIds := fun k _ => h.closed k
    exact (hl.rank hc).acyclic hc fun k hk => Keyed.edges_of_not_mem hk
  · intro ha
    obtain ⟨groups, hran, -⟩ := parallelGroups_layered h.distinct h.known ha
    exact ⟨groups, hran⟩

-- ==== the sort

theorem SortInv.mem_heap (h : SortInv g done state)
    (hc : ∀ k, ∀ d ∈ g.dependencies k, d ∈ g.subtaskIds) (k : String) :
    k ∈ state.2 ↔ k ∈ Layers.ready g.dependencies (g.subtaskIds.filter (· ∉ done)) := by
  rw [h.heap, h.degree, Layers.mem_ready, mem_filter, decide_eq_true_eq, and_assoc]
  refine and_congr_right fun _ => and_congr_right fun _ => ?_
  rw [Nat.cast_eq_zero, countP_eq_zero]
  refine forall₂_congr fun d hd => ?_
  simp [hc k d hd]

theorem sortLoop_emits (hdistinct : Keyed.Distinct SubtaskDefinition.id g.subtasks)
    (h : SortInv g done state) (hc : ∀ k, ∀ d ∈ g.dependencies k, d ∈ g.subtaskIds) :
    Layers.Settled g.dependencies done (g.sortLoop fuel state) ∧
      (g.sortLoop fuel state).Nodup ∧
        ∀ k ∈ g.sortLoop fuel state, k ∈ g.subtaskIds ∧ k ∉ done := by
  induction fuel generalizing done state with
  | zero => exact ⟨trivial, nodup_nil, nofun⟩
  | succ fuel ih =>
    obtain ⟨degree, heap⟩ := state
    cases heap with
    | nil => exact ⟨trivial, nodup_nil, nofun⟩
    | cons node heap =>
      obtain ⟨hmem, hfree⟩ := Layers.mem_ready.1 ((h.mem_heap hc node).1 mem_cons_self)
      obtain ⟨hids, hnew⟩ := mem_filter.1 hmem
      obtain ⟨hs, hn, hall⟩ := ih (h.pop hdistinct)
      refine ⟨⟨fun d hd => ?_, hs⟩, ?_, fun k hk => ?_⟩
      · have hout := hfree d hd
        simpa [hc node d hd] using hout
      · exact nodup_cons.2 ⟨fun hin => (hall node hin).2 mem_cons_self, hn⟩
      · rcases mem_cons.1 hk with rfl | hk
        · exact ⟨hids, by simpa using hnew⟩
        · exact ⟨(hall k hk).1, fun hin => (hall k hk).2 (mem_cons_of_mem _ hin)⟩

theorem pairwise_discover (ids : List String) (h : state.2.Pairwise (· ≤ ·)) :
    (ids.foldl discover state).2.Pairwise (· ≤ ·) := by
  induction ids generalizing state with
  | nil => exact h
  | cons id rest ih =>
    refine ih ?_
    unfold discover
    dsimp only
    split
    · exact h.orderedInsert id _
    · exact h

/-- RUN LEMMA: on an acyclic graph the sort takes the least ready unit, until none is left. -/
theorem sortLoop_leastFirst (hd : Keyed.Distinct SubtaskDefinition.id g.subtasks)
    (hc : ∀ k, ∀ d ∈ g.dependencies k, d ∈ g.subtaskIds)
    (ha : Layers.Acyclic g.dependencies) (h : SortInv g done state)
    (hsort : state.2.Pairwise (· ≤ ·)) (hfuel : (g.subtaskIds.filter (· ∉ done)).length ≤ fuel) :
    Layers.LeastFirst g.dependencies (g.subtaskIds.filter (· ∉ done))
      (g.sortLoop fuel state) := by
  induction fuel generalizing done state with
  | zero =>
    rw [length_eq_zero_iff.1 (Nat.le_zero.1 hfuel)]
    exact .done
  | succ fuel ih =>
    obtain ⟨degree, heap⟩ := state
    cases heap with
    | nil =>
      have hall := h.done_of_empty (fun k _ => hc k) ha rfl
      have hnone : g.subtaskIds.filter (· ∉ done) = [] :=
        filter_eq_nil_iff.2 fun k hk => by simpa using hall k hk
      rw [hnone]
      exact .done
    | cons node heap =>
      have hr := (h.mem_heap hc node).1 mem_cons_self
      have hs : Layers.without (g.subtaskIds.filter (· ∉ done)) [node] =
          g.subtaskIds.filter (· ∉ node :: done) := by
        unfold Layers.without
        rw [filter_filter]
        exact filter_congr fun k _ => by simp
      obtain ⟨hl, hrest⟩ := pairwise_cons.1 hsort
      refine .take _ _ _ hr (fun k hk => ?_) ?_
      · rcases mem_cons.1 ((h.mem_heap hc k).2 hk) with rfl | hk
        · exact String.le_refl k
        · exact hl k hk
      · rw [hs]
        refine ih (h.pop hd) (pairwise_discover _ hrest) ?_
        have hlt : (Layers.without (g.subtaskIds.filter (· ∉ done)) [node]).length <
            (g.subtaskIds.filter (· ∉ done)).length := by
          unfold Layers.without
          rw [length_filter_lt_length_iff_exists]
          exact ⟨node, (Layers.mem_ready.1 hr).1, by simp⟩
        rw [hs] at hlt
        omega

theorem Sound.topologicalSort_ok_iff (h : g.Sound) (order : List String) :
    g.topologicalSort = .ok order ↔
      order = g.sortLoop g.subtaskIds.length (g.inDegree,
          (g.subtaskIds.filter fun id => g.inDegree id = 0).insertionSort (· ≤ ·)) ∧
        order.length = g.subtaskIds.length := by
  unfold topologicalSort
  rw [checkMissingReferences_ok h.known]
  show (require _ _ >>= fun _ => Except.ok _) = _ ↔ _
  rw [bind_unit_ok_iff, require_ok_iff]
  constructor
  · rintro ⟨hlen, heq⟩
    cases heq
    exact ⟨rfl, hlen⟩
  · rintro ⟨rfl, hlen⟩
    exact ⟨hlen, rfl⟩

theorem Sound.topologicalSort_iff (h : g.Sound) :
    (∃ order, g.topologicalSort = .ok order) ↔ Layers.Acyclic g.dependencies := by
  constructor
  · rintro ⟨order, hran⟩
    obtain ⟨rfl, hlen⟩ := (h.topologicalSort_ok_iff order).1 hran
    obtain ⟨hs, hn, hall⟩ := sortLoop_emits h.distinct (sortInv_start h.distinct) h.closed
    have hperm := (subperm_of_subset hn fun k hk => (hall k hk).1).perm_of_length_le
      (Nat.le_of_eq hlen.symm)
    refine hs.rank.acyclic ?_ fun k hk => ?_
    · exact fun k hk d hd => (hs.closed k hk d hd).resolve_right not_mem_nil
    · exact Keyed.edges_of_not_mem fun hmem => hk (hperm.mem_iff.2 hmem)
  · intro ha
    obtain ⟨order, hran, -⟩ := topologicalSort_settled h.distinct h.known ha
    exact ⟨order, hran⟩

/-- The three traversals reject exactly the cyclic graphs. Of the others the sort lists the
units once, the least ready first, and each unit stands in the group whose index is the length
of its longest chain. -/
theorem traversals_agree (g : DependencyGraph)
    (hdistinct : Keyed.Distinct SubtaskDefinition.id g.subtasks)
    (hknown : ∀ s ∈ g.subtasks, ∀ d ∈ s.dependencies, d ∈ g.subtaskIds) :
    ((g.validate = .ok () ↔ Layers.Acyclic g.dependencies) ∧
      ((∃ order, g.topologicalSort = .ok order) ↔ Layers.Acyclic g.dependencies) ∧
      ((∃ groups, g.parallelGroups = .ok groups) ↔ Layers.Acyclic g.dependencies)) ∧
    (∀ order, g.topologicalSort = .ok order →
      order.Perm g.subtaskIds ∧ Layers.LeastFirst g.dependencies g.subtaskIds order) ∧
    ∀ groups, g.parallelGroups = .ok groups →
      groups.flatten.Perm g.subtaskIds ∧
        ∀ k ∈ g.subtaskIds, ∃ chain, Layers.Longest g.dependencies k chain ∧
          chain.length = Layers.layerOf groups k + 1 := by
  have h : g.Sound := ⟨hdistinct, hknown⟩
  refine ⟨⟨h.validate_iff, h.topologicalSort_iff, h.parallelGroups_iff⟩, fun order hran => ?_,
    fun groups hran => ?_⟩
  · have hacyclic := h.topologicalSort_iff.1 ⟨order, hran⟩
    obtain ⟨order', hran', hperm, -⟩ := topologicalSort_settled hdistinct hknown hacyclic
    obtain rfl : order' = order := Except.ok.inj (hran'.symm.trans hran)
    refine ⟨hperm, ?_⟩
    obtain ⟨heq, -⟩ := (h.topologicalSort_ok_iff order').1 hran
    have hall : g.subtaskIds.filter (· ∉ []) = g.subtaskIds := by simp
    have hleast := sortLoop_leastFirst hdistinct h.closed hacyclic (sortInv_start hdistinct)
      (pairwise_insertionSort _ _) (Nat.le_of_eq (congrArg List.length hall))
    rwa [← heq, hall] at hleast
  · have hacyclic := h.parallelGroups_iff.1 ⟨groups, hran⟩
    obtain ⟨groups', hran', hlayered⟩ := parallelGroups_layered hdistinct hknown hacyclic
    obtain rfl : groups' = groups := Except.ok.inj (hran'.symm.trans hran)
    exact ⟨hlayered.perm hdistinct, fun k hk => hlayered.longest (fun k _ => h.closed k) hk⟩

def waiting (id : String) (dependencies : List String) : SubtaskDefinition where
  id := id
  title := id
  description := id
  dependencies := dependencies

/-- Two ways from `d` to `a`, one of them listed twice. -/
def diamond : DependencyGraph :=
  ⟨[waiting "d" ["c", "b"], waiting "c" ["a"], waiting "b" ["a", "a"], waiting "a" []]⟩

theorem traversals_agree_diamond : ["a", "b", "c", "d"].Perm diamond.subtaskIds ∧
      Layers.LeastFirst diamond.dependencies diamond.subtaskIds ["a", "b", "c", "d"] :=
  (traversals_agree diamond (by unfold Keyed.Distinct; decide) (by decide)).2.1 _ (by decide)

end DependencyGraph

end Synthorg.Decomposition
