/-
The claim vocabulary of a decomposition, level by level.

A recursion hands down what a unit claimed, as the level above spells it, so one step of
`Descends` keeps a sublist and the whole descent does.
-/
import Synthorg.Decomposition.Proofs.Budget

namespace Synthorg.Decomposition

open Synthorg.Core Lib

variable {σ : Type} {service : DecompositionService σ} {budget : RecursionBudget}

def rootVocabulary (key : String → String) (task : Task) (context : DecompositionContext) :
    List String :=
  uniqueCriteria key []
    (context.objectiveCriteria.getD
      (task.acceptanceCriteria.map AcceptanceCriterion.description))

theorem Descends.vocabulary {context deeper : DecompositionContext}
    (h : Descends service budget context deeper) {criteria : List String}
    (hc : context.objectiveCriteria = some criteria) :
    ∃ narrowed, deeper.objectiveCriteria = some narrowed ∧ narrowed.Sublist criteria := by
  induction h generalizing criteria with
  | here context => exact ⟨criteria, hc, List.Sublist.refl _⟩
  | @descend context deeper position s room rest ih =>
    have hb : (service.unitContext context position s).objectiveCriteria =
        some (matchedCriteria (criterionKey service.lower) s.satisfies criteria) := by
      show some (matchedCriteria _ _ (context.objectiveCriteria.getD [])) = _
      rw [hc]
      rfl
    obtain ⟨narrowed, hn, hs⟩ := ih hb
    exact ⟨narrowed, hn, hs.trans (matchedCriteria_sublist _ _ _)⟩

theorem openTree_vocabulary {task : Task} {context bounded : DecompositionContext}
    {budget : RecursionBudget} {ledger : TreeSessionLedger}
    (h : service.openTree task context = .ok (budget, bounded, ledger)) :
    bounded.objectiveCriteria =
      some (rootVocabulary (criterionKey service.lower) task context) := by
  unfold DecompositionService.openTree at h
  simp only [bind_ok_iff] at h
  obtain ⟨budget', -, bounded', hb, sessions, -, -, rfl, -⟩ := h
  unfold resolveDecompositionBounds at hb
  simp only [bind_ok_iff, Except.ok.injEq] at hb
  obtain ⟨depth, -, width, -, rfl⟩ := hb
  rfl

/-- VOCABULARY: every level answers for a sublist of the root's vocabulary, and claims only of
it. -/
theorem vocabulary_descends (service : DecompositionService σ) (repr : String → String)
    (now : Int) (task : Task) (context : DecompositionContext) (world : σ)
    (result : Except PlanningError DecompositionResult)
    (session : Session (σ × List PlanningCall))
    (hran : service.logged.decomposeTask now task context (world, []) = (result, session)) :
    ∀ call ∈ session.world.2, ∃ criteria, call.2.objectiveCriteria = some criteria ∧
      criteria.Sublist (rootVocabulary (criterionKey service.lower) task context) ∧
      ∀ units, validateCoverage repr (criterionKey service.lower) units criteria = .ok () →
        ∀ unit ∈ units, ∀ claim ∈ unit.satisfies,
          ∃ criterion ∈ rootVocabulary (criterionKey service.lower) task context,
            criterionKey service.lower criterion = criterionKey service.lower claim := by
  intro call hcall
  cases hopen : service.openTree task context with
  | error e =>
    simp [(decomposeTask_unopened hran hopen).2] at hcall
  | ok opened =>
    obtain ⟨calls, hcalls, -, hall⟩ := (decomposeTask_metered hran hopen).calls
    have hfiled : session.world.2 = calls := hcalls
    obtain ⟨deeper, hdescends, hheld⟩ := hall call (hfiled ▸ hcall)
    obtain ⟨criteria, hcriteria, hsublist⟩ :=
      hdescends.vocabulary (openTree_vocabulary hopen)
    refine ⟨criteria, ?_, hsublist, ?_⟩
    · rw [hheld, (heldToSize_kept deeper).2, hcriteria]
    · intro units haccepted unit hunit claim hclaim
      obtain ⟨criterion, hmem, hkey⟩ :=
        ((validateCoverage_ok_iff repr _ units criteria).1 haccepted).2 unit hunit claim hclaim
      exact ⟨criterion, hsublist.subset hmem, hkey⟩

/-- Three criteria, the last of them the first in another spelling. -/
def statedTask : Task :=
  { objectiveTask with
    acceptanceCriteria := [{ description := "It runs" }, { description := "It is quick" },
      { description := "it  runs" }]
    coherent := by decide }

def statedService : DecompositionService Unit :=
  { siteService false with lower := fun cs => cs.map Char.toLower }

/-- `vocabulary_descends` at work on a site in two levels: the root answers for
two criteria, the split unit for the one it claims, and a unit that claims that
one is accepted there. -/
theorem vocabulary_descends_site : ∃ result session,
    statedService.logged.decomposeTask 0 statedTask {} ((), []) = (result, session) ∧
    (session.world.2.map fun call => call.2.objectiveCriteria) =
      [some ["It runs", "It is quick"], some ["It runs"]] ∧
    validateCoverage (fun s => s) (criterionKey statedService.lower)
      [{ partUnit with satisfies := ["it runs"] }] ["It runs"] = .ok () ∧
    ∀ call ∈ session.world.2, ∃ criteria, call.2.objectiveCriteria = some criteria ∧
      criteria.Sublist (rootVocabulary (criterionKey statedService.lower) statedTask {}) ∧
      ∀ units, validateCoverage (fun s => s) (criterionKey statedService.lower) units criteria =
          .ok () → ∀ unit ∈ units, ∀ claim ∈ unit.satisfies,
        ∃ criterion ∈ rootVocabulary (criterionKey statedService.lower) statedTask {},
          criterionKey statedService.lower criterion = criterionKey statedService.lower claim := by
  refine ⟨_, _, rfl, rfl, rfl, ?_⟩
  exact vocabulary_descends statedService (fun s => s) 0 statedTask {} () _ _ rfl

/-- A caller's own vocabulary is kept, so a level may answer for what the objective never states. -/
theorem declared_vocabulary_kept :
    ¬ ∀ (σ : Type) (service : DecompositionService σ) (now : Int) (task : Task)
      (context : DecompositionContext) (world : σ)
      (result : Except PlanningError DecompositionResult)
      (session : Session (σ × List PlanningCall)),
      service.logged.decomposeTask now task context (world, []) = (result, session) →
      ∀ call ∈ session.world.2, ∃ criteria, call.2.objectiveCriteria = some criteria ∧
        criteria.Sublist (uniqueCriteria (criterionKey service.lower) []
          (task.acceptanceCriteria.map AcceptanceCriterion.description)) := by
  intro h
  have hcalls : ∃ result session, flatService.logged.decomposeTask 0 objectiveTask
      { objectiveCriteria := some ["asked by the caller"] } ((), []) = (result, session) ∧
      ∃ call, call ∈ session.world.2 ∧
        call.2.objectiveCriteria = some ["asked by the caller"] :=
    ⟨_, _, rfl, _, List.mem_cons_self, rfl⟩
  obtain ⟨result, session, hran, call, hcall, hdeclared⟩ := hcalls
  obtain ⟨criteria, hcriteria, hsublist⟩ :=
    h Unit flatService 0 objectiveTask _ () result session hran call hcall
  rw [hdeclared] at hcriteria
  cases hcriteria
  have hstated := hsublist.subset List.mem_cons_self
  revert hstated
  decide

end Synthorg.Decomposition
