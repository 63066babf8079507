/-
From a stored plan to its dispatch.

What `decomposition_from_plan` rebuilds is a tree the dispatcher can order: every level is valid
and acyclic, and no two units share an id. So the order of the plan reaches the units themselves,
as far as work carries it.
-/
import Synthorg.Decomposition.Proofs.Agree
import Synthorg.Decomposition.Proofs.Stripped

namespace Synthorg.Decomposition

open Synthorg.Core Lib
open List

variable {plan : Plan} {objective : Task} {now : Int} {r l : DecompositionResult}
  {items : List PlanItem}

theorem RebuiltFrom.valid {tree : PlanTree} (htree : WorkForest tree)
    (h : RebuiltFrom plan objective tree now items l) : l.Valid := by
  obtain ⟨parent, depth, fuel, parentTaskId, hl, hok⟩ := h
  induction fuel generalizing parent items depth parentTaskId l with
  | zero => cases hok
  | succ fuel ih =>
    obtain ⟨-, tasks, children, -, hd, rfl, hv⟩ := levelFromItems_succ_ok_iff.1 hok
    refine .node _ hv fun c hc => ?_
    obtain ⟨i, hi, hb⟩ := exists_of_forall₂_right hd hc
    obtain ⟨hmem, hcontext⟩ := mem_filter.1 hi
    exact ih _ _ _ (hl.below htree hmem hcontext) hb

theorem acyclic_level (hv : plan.Valid)
    (h : RebuiltFrom plan objective (workTree plan) now items l) :
    Layers.Acyclic l.levelGraph.dependencies := by
  intro a hc
  refine hv.graph.acyclic a (Relation.TransGen.mono ?_ _ _ hc)
  intro x y hxy
  exact ((mem_level_dependencies hv h).1 hxy).2.1

theorem exists_workstream (hok : decompositionFromPlan plan objective now = .ok r) :
    ∃ i ∈ plan.items, i.kind = .work ∧ i.parentId = none := by
  obtain ⟨hplan, -⟩ := levelFromItems_succ_ok_iff.1 hok
  obtain ⟨i, hi⟩ := exists_mem_of_ne_nil _ fun hnil => hplan.nonempty (map_eq_nil_iff.2 hnil)
  obtain ⟨hmem, hroot⟩ := PlanTree.mem_workstreams.1 hi
  obtain ⟨j, hj, hkind, rfl⟩ := mem_dispatchable.1 hmem
  exact ⟨j, hj, hkind, hroot⟩

theorem nodup_rebuilt (hv : plan.Valid)
    (hok : decompositionFromPlan plan objective now = .ok r) :
    (r.allSubtasks.map SubtaskDefinition.id).Nodup := by
  obtain ⟨items, hp, hperm⟩ := (roundTrips_of_ok hv (exists_workstream hok) hok).projected
  obtain ⟨rfl, -⟩ := itemsFromDecomposition_ok_iff.1 hp
  have hids := hperm.map PlanItem.id
  rw [map_map, map_map] at hids
  rw [← map_id_walkItems]
  exact hids.nodup_iff.2 (workTree_forest hv).forest.distinct

/-- THE PLAN'S ORDER IS DISPATCHED: what is rebuilt of a valid plan has a dispatch order, and
where one item of work leads to another over work alone, everything under the first runs after
everything under the second. -/
theorem plan_order_dispatched (hvalid : plan.Valid)
    (hok : decompositionFromPlan plan objective now = .ok r) :
    r.DispatchOrdered ∧ ∀ a ∈ plan.items, ∀ b ∈ plan.items, a.kind = .work → b.kind = .work →
      a.parentId = b.parentId →
      Reach.Through (dependenciesOf plan.items) (· ∉ decisionIds plan.items) a.id b.id →
        ∃ l ∈ r.levels, a.id ∈ l.subtaskIds ∧ b.id ∈ l.subtaskIds ∧
          ∀ x ∈ l.subtreeOf a.id, ∀ y ∈ l.subtreeOf b.id,
            Layers.After r.dispatchGraph.dependencies x y := by
  have htree := workTree_forest hvalid
  have hroot := (rebuilt_of_ok hvalid hok).1
  have hord : r.DispatchOrdered := (hroot.valid htree).dispatchOrdered
    (fun l hl => acyclic_level hvalid (hroot.levels htree l hl).choose_spec)
    (nodup_rebuilt hvalid hok)
  refine ⟨hord, fun a ha b hb hr hw hsame ht => ?_⟩
  obtain ⟨l, hl, hal, hbl⟩ := exists_common_level hvalid hok ha hb hr hw hsame
  have hafter := (after_iff_through hvalid hok (not_mem_decisionIds hvalid hb hw) hl hal).2 ht
  exact ⟨l, hl, hal, hbl, hord.dependency_after l hl a.id b.id hafter⟩

/-- A workstream that waits for a part, and for nothing else. -/
def pairPlan : Plan :=
  planOf [workItem partId.text none [] .normal, workItem buildId.text none [partId.text] .normal]

theorem plan_order_dispatched_pair :
    ∃ r, decompositionFromPlan pairPlan objectiveTask 0 = .ok r ∧ r.DispatchOrdered ∧
      ∃ l ∈ r.levels, buildId.text ∈ l.subtaskIds ∧ partId.text ∈ l.subtaskIds ∧
        ∀ x ∈ l.subtreeOf buildId.text, ∀ y ∈ l.subtreeOf partId.text,
          Layers.After r.dispatchGraph.dependencies x y := by
  have hvalid : pairPlan.Valid := by decide
  obtain ⟨r, hr⟩ := (exists_decompositionFromPlan_iff objectiveTask 0 hvalid (by decide)
    (by decide)).2 (by decide)
  have hdispatched := plan_order_dispatched hvalid hr
  exact ⟨r, hr, hdispatched.1, hdispatched.2 (workItem buildId.text none [partId.text] .normal)
    (by decide) (workItem partId.text none [] .normal) (by decide) rfl rfl rfl
    (.edge _ (by decide))⟩

end Synthorg.Decomposition
