/-
What becomes of an order that runs through a decision.

Dispatch takes every decision off every dependency list and puts nothing in
its place: the decision has been made by then. So a level keeps the paths
that run from work to work, and drops the ones a decision stands in.

A container is dispatched one rung above the highest of its children as the plan has them:
`itemsEscalate_iff_heldApart` says when the tree's own law holds.
-/
import Synthorg.Decomposition.Proofs.DispatchOrder
import Synthorg.Lib.Reach
import Synthorg.Decomposition.Proofs.RoundTrip

namespace Synthorg.Decomposition

open Synthorg.Core Lib
open List

section

-- ==== the rebuilt levels

/-- `l` was rebuilt from `items`. -/
def RebuiltFrom (plan : Plan) (objective : Task) (tree : PlanTree) (now : Int)
    (items : List PlanItem) (l : DecompositionResult) : Prop :=
  ∃ parent depth fuel parentTaskId, Level tree parent items depth ∧
    levelFromItems plan objective tree now fuel items parentTaskId depth = .ok l

variable {plan : Plan} {objective : Task} {tree : PlanTree} {now : Int}
  {items : List PlanItem} {l : DecompositionResult}

variable {parentTaskId : String} {item p : PlanItem} {t : Task}

theorem notBlank_of_levelPlan (h : (levelPlan plan tree parentTaskId items).Valid) :
    notBlank parentTaskId = true := by
  have hp := h.fields (["parent_task_id"], .text parentTaskId)
    (by simp [DecompositionPlan.checkedFields, levelPlan])
  exact hp

def TaskOf (plan : Plan) (objective : Task) (tree : PlanTree) (now : Int)
    (item : PlanItem) (t : Task) : Prop :=
  ∃ parentTaskId, ∃ h : isCanonicalUuid item.id = true,
    t.toTaskFields = itemTaskFields plan objective parentTaskId tree now item ⟨item.id, h⟩

theorem TaskOf.id (h : TaskOf plan objective tree now item t) : t.id.text = item.id := by
  obtain ⟨parentTaskId, hid, hf⟩ := h
  rw [hf]
  rfl

theorem TaskOf.stakes (h : TaskOf plan objective tree now item t) :
    t.stakes = stakesOf tree item := by
  obtain ⟨parentTaskId, hid, hf⟩ := h
  rw [hf]
  rfl

theorem RebuiltFrom.taskOf (htree : WorkForest tree)
    (h : RebuiltFrom plan objective tree now items l) :
    Forall₂ (TaskOf plan objective tree now) items l.createdTasks := by
  obtain ⟨parent, depth, fuel, parentTaskId, hl, hok⟩ := h
  cases fuel with
  | zero => cases hok
  | succ fuel =>
    obtain ⟨hplan, tasks, children, htasks, -, rfl, -⟩ := levelFromItems_succ_ok_iff.1 hok
    have hp := notBlank_of_levelPlan hplan
    refine forall₂_imp_mem htasks fun i hi t ht => ?_
    have hv := htree.valid i (hl.mem hi).1
    obtain ⟨-, hf⟩ := (taskFromItem_ok_iff hv hp t).1 ht
    exact ⟨parentTaskId, hv.canonical, hf⟩

theorem RebuiltFrom.tasks (htree : WorkForest tree)
    (h : RebuiltFrom plan objective tree now items l) :
    Forall₂ (fun i t => i.id = t.id.text ∧ stakesOf tree i = t.stakes) items
      l.createdTasks :=
  forall₂_imp_mem (h.taskOf htree) fun _ _ _ ht => ⟨ht.id.symm, ht.stakes.symm⟩

theorem RebuiltFrom.subtasks (h : RebuiltFrom plan objective tree now items l) :
    l.plan.subtasks = items.map (subtaskOfItem tree) := by
  obtain ⟨parent, depth, fuel, parentTaskId, -, hok⟩ := h
  rw [(levelFromItems_top hok).1]
  rfl

theorem RebuiltFrom.children (htree : WorkForest tree)
    (h : RebuiltFrom plan objective tree now items l) :
    Forall₂ (fun i c => i.id = c.plan.parentTaskId ∧
        RebuiltFrom plan objective tree now (tree.children i.id) c)
      (items.filter fun i => tree.isContainer i.id) l.children := by
  obtain ⟨parent, depth, fuel, parentTaskId, hl, hok⟩ := h
  cases fuel with
  | zero => cases hok
  | succ fuel =>
    obtain ⟨-, tasks, children, -, hd, rfl, -⟩ := levelFromItems_succ_ok_iff.1 hok
    refine forall₂_imp_mem hd fun i hi c hc => ⟨?_, ?_⟩
    · rw [(levelFromItems_top hc).1]
      rfl
    · obtain ⟨hmem, hcontainer⟩ := mem_filter.1 hi
      exact ⟨_, _, _, _, hl.below htree hmem hcontainer, hc⟩

theorem RebuiltFrom.levels (htree : WorkForest tree)
    (h : RebuiltFrom plan objective tree now items l) :
    ∀ m ∈ l.levels, ∃ below, RebuiltFrom plan objective tree now below m := by
  obtain ⟨parent, depth, fuel, parentTaskId, hl, hok⟩ := h
  induction fuel generalizing parent items depth parentTaskId l with
  | zero => cases hok
  | succ fuel ih =>
    intro m hm
    rcases DecompositionResult.mem_levels.1 hm with rfl | ⟨c, hc, hmc⟩
    · exact ⟨items, parent, depth, fuel + 1, parentTaskId, hl, hok⟩
    · obtain ⟨-, tasks, children, -, hd, rfl, -⟩ := levelFromItems_succ_ok_iff.1 hok
      obtain ⟨i, hi, hb⟩ := exists_of_forall₂_right hd hc
      obtain ⟨hmem, hcontainer⟩ := mem_filter.1 hi
      exact ih _ _ _ (hl.below htree hmem hcontainer) hb m hmc

theorem exists_level_of_mem_preorder (htree : WorkForest tree) {fuel : Nat} {parent : Option String}
    {depth : Nat} (hl : Level tree parent items depth)
    (hok : levelFromItems plan objective tree now fuel items parentTaskId depth = .ok l)
    (hp : p ∈ Forest.preorder PlanItem.id PlanItem.parentId tree.items fuel parent) :
    ∃ m ∈ l.levels, ∃ level, p ∈ level ∧ RebuiltFrom plan objective tree now level m := by
  induction fuel generalizing parent items depth parentTaskId l with
  | zero => cases hp
  | succ fuel ih =>
    rw [Forest.preorder, mem_append, ← hl.items_eq, mem_flatMap] at hp
    rcases hp with hp | ⟨i, hi, hp⟩
    · exact ⟨l, DecompositionResult.mem_levels.2 (.inl rfl), items, hp,
        parent, depth, fuel + 1, parentTaskId, hl, hok⟩
    · have hcontainer : tree.isContainer i.id = true := by
        rw [PlanTree.isContainer_iff]
        intro hnone
        rw [Forest.preorder_of_childless hnone] at hp
        exact absurd hp not_mem_nil
      obtain ⟨-, tasks, children, -, hd, rfl, -⟩ := levelFromItems_succ_ok_iff.1 hok
      obtain ⟨c, hc, hb⟩ := exists_of_forall₂_right hd.flip (mem_filter.2 ⟨hi, hcontainer⟩)
      obtain ⟨m, hm, level, hmem, hr⟩ := ih (hl.below htree hi hcontainer) hb hp
      exact ⟨m, DecompositionResult.mem_levels.2 (.inr ⟨c, hc, hm⟩), level, hmem, hr⟩

/-- What `decomposition_from_plan` returns was rebuilt, and covers every item of the view. -/
theorem rebuilt_of_ok (hv : plan.Valid) (hok : decompositionFromPlan plan objective now = .ok l) :
    RebuiltFrom plan objective (workTree plan) now (workTree plan).workstreams l ∧
      ∀ p ∈ (workTree plan).items, ∃ m ∈ l.levels, ∃ level, p ∈ level ∧
        RebuiltFrom plan objective (workTree plan) now level m := by
  have htree := workTree_forest hv
  obtain ⟨hplan, -⟩ := levelFromItems_succ_ok_iff.1 hok
  have hroot : Level (workTree plan) none (workTree plan).workstreams 0 := by
    refine ⟨rfl, fun hnil => hplan.nonempty (map_eq_nil_iff.2 hnil), fun i hi => ?_⟩
    obtain ⟨hmem, hnone⟩ := PlanTree.mem_workstreams.1 hi
    exact htree.forest.depth_root hmem hnone
  refine ⟨⟨none, 0, _, _, hroot, hok⟩, fun p hp => ?_⟩
  apply exists_level_of_mem_preorder htree hroot hok
  apply Forest.preorder_mono_le ?_ (htree.forest.mem_preorder hp)
  have hle : (dispatchable plan).length ≤ plan.items.length := by
    unfold dispatchable
    rw [length_map]
    exact length_filter_le _ _
  exact Nat.succ_le_succ hle

-- ==== the law

/-- THE LAW: a container is dispatched strictly above its children, or at CRITICAL. -/
def Escalates (r : DecompositionResult) : Prop :=
  ∀ l ∈ r.levels, ∀ c ∈ l.children,
    (∀ t ∈ l.createdTasks, t.id.text = c.plan.parentTaskId →
      t.stakes = .critical ∨ ∀ u ∈ c.createdTasks, u.stakes < t.stakes) ∧
    ∀ s ∈ l.plan.subtasks, s.id = c.plan.parentTaskId →
      s.stakes = .critical ∨ ∀ u ∈ c.plan.subtasks, u.stakes < s.stakes

def ItemsEscalate (tree : PlanTree) : Prop :=
  ∀ p ∈ tree.items, tree.children p.id ≠ [] →
    stakesOf tree p = .critical ∨ ∀ c ∈ tree.children p.id, stakesOf tree c < stakesOf tree p

instance (tree : PlanTree) : Decidable (ItemsEscalate tree) := by
  unfold ItemsEscalate
  infer_instance

theorem escalates_iff_items (hv : plan.Valid)
    (hok : decompositionFromPlan plan objective now = .ok l) :
    Escalates l ↔ ItemsEscalate (workTree plan) := by
  have htree := workTree_forest hv
  obtain ⟨hroot, hcovers⟩ := rebuilt_of_ok hv hok
  constructor
  · intro h p hp hne
    obtain ⟨m, hm, level, hmem, hr⟩ := hcovers p hp
    have hcontainer : p ∈ level.filter fun i => (workTree plan).isContainer i.id :=
      mem_filter.2 ⟨hmem, PlanTree.isContainer_iff.2 hne⟩
    obtain ⟨c, hc, hparent, hb⟩ := exists_of_forall₂_right (hr.children htree).flip hcontainer
    obtain ⟨t, ht, hid, hstakes⟩ := exists_of_forall₂_right (hr.tasks htree).flip hmem
    rcases (h m hm c hc).1 t ht (hid.symm.trans hparent) with htop | ha
    · exact .inl (hstakes.trans htop)
    · refine .inr fun i hi => ?_
      obtain ⟨u, hu, -, hk⟩ := exists_of_forall₂_right (hb.tasks htree).flip hi
      rw [hstakes, hk]
      exact ha u hu
  · intro h m hm c hc
    obtain ⟨level, hr⟩ := hroot.levels htree m hm
    obtain ⟨p, hprofile, hparent, hb⟩ := exists_of_forall₂_right (hr.children htree) hc
    obtain ⟨hmem, hcontainer⟩ := mem_filter.1 hprofile
    obtain ⟨parent, depth, fuel, parentTaskId, hl, -⟩ := id hr
    have hlaw := h p (hl.mem hmem).1 (PlanTree.isContainer_iff.1 hcontainer)
    -- ids are distinct in a forest, so the container's id means `p`
    have hsame : ∀ i ∈ level, i.id = c.plan.parentTaskId → i = p := by
      intro i hi hid
      exact Keyed.eq_of_key htree.forest.distinct (hl.mem hi).1 (hl.mem hmem).1
        (hid.trans hparent.symm)
    refine ⟨fun t ht hid => ?_, fun s hs hid => ?_⟩
    · obtain ⟨i, hi, hit, hstakes⟩ := exists_of_forall₂_right (hr.tasks htree) ht
      obtain rfl := hsame i hi (hit.trans hid)
      rw [← hstakes]
      refine hlaw.imp id fun ha u hu => ?_
      obtain ⟨j, hj, -, hx⟩ := exists_of_forall₂_right (hb.tasks htree) hu
      rw [← hx]
      exact ha j hj
    · rw [hr.subtasks] at hs
      obtain ⟨i, hi, rfl⟩ := mem_map.1 hs
      obtain rfl := hsame i hi hid
      refine hlaw.imp id fun ha u hu => ?_
      rw [hb.subtasks] at hu
      obtain ⟨j, hj, rfl⟩ := mem_map.1 hu
      exact ha j hj

-- ==== when it holds

def highestBelow (tree : PlanTree) (p : PlanItem) : Nat :=
  highestRank ((tree.children p.id).map PlanItem.stakes)

/-- Where a container's children stop below HIGH, the containers among them hold lower ones. -/
def HeldApart (tree : PlanTree) : Prop :=
  ∀ p ∈ tree.items, tree.children p.id ≠ [] → highestBelow tree p < Stakes.high.rank →
    ∀ c ∈ tree.children p.id, tree.children c.id ≠ [] →
      highestBelow tree c < highestBelow tree p

instance (tree : PlanTree) : Decidable (HeldApart tree) := by
  unfold HeldApart
  infer_instance

theorem rank_stakesAt (n : Nat) : (stakesAt n).rank = min n 3 := by
  match n with
  | 0 | 1 | 2 => rfl
  | n + 3 =>
    show 3 = min (n + 3) 3
    omega

theorem le_foldl_max (assembled : List Stakes) (m : Nat) :
    m ≤ assembled.foldl (fun m s => max m s.rank) m ∧
      ∀ s ∈ assembled, s.rank ≤ assembled.foldl (fun m s => max m s.rank) m := by
  induction assembled generalizing m with
  | nil => exact ⟨Nat.le_refl m, fun s hs => absurd hs not_mem_nil⟩
  | cons a rest ih =>
    rw [foldl_cons]
    obtain ⟨hfrom, hall⟩ := ih (max m a.rank)
    refine ⟨by omega, fun s hs => ?_⟩
    rcases mem_cons.1 hs with rfl | hs
    · omega
    · exact hall s hs

theorem rank_le_highestRank {assembled : List Stakes} {s : Stakes} (hs : s ∈ assembled) :
    s.rank ≤ highestRank assembled := by
  unfold highestRank
  rw [if_neg (ne_nil_of_mem hs)]
  exact (le_foldl_max assembled 0).2 s hs

theorem rank_stakesOf_container (hne : tree.children p.id ≠ []) :
    (stakesOf tree p).rank = min (highestBelow tree p + 1) 3 := by
  unfold stakesOf assemblyOf
  rw [if_neg hne]
  show (stakesAt _).rank = _
  rw [rank_stakesAt]
  unfold highestBelow
  omega

theorem stakesOf_leaf (hnil : tree.children p.id = []) : stakesOf tree p = p.stakes := by
  unfold stakesOf assemblyOf
  rw [if_pos hnil]

theorem eq_critical_iff (s : Stakes) : s = .critical ↔ s.rank = 3 := by
  cases s <;> decide

theorem itemsEscalate_iff_heldApart (tree : PlanTree) : ItemsEscalate tree ↔ HeldApart tree := by
  refine forall_congr' fun p => forall_congr' fun hp => forall_congr' fun hne => ?_
  have hrank := rank_stakesOf_container hne
  have hhigh : Stakes.high.rank = 2 := rfl
  rw [eq_critical_iff]
  constructor
  · intro h hlow c hc hchange
    have ha := h.resolve_left (by omega) c hc
    rw [Stakes.lt_iff_rank, rank_stakesOf_container hchange] at ha
    omega
  · intro h
    by_cases hlow : highestBelow tree p < 2
    · refine .inr fun c hc => ?_
      rw [Stakes.lt_iff_rank]
      by_cases hchange : tree.children c.id = []
      · have hle : c.stakes.rank ≤ highestBelow tree p := rank_le_highestRank (mem_map_of_mem hc)
        rw [stakesOf_leaf hchange]
        omega
      · have hlt := h hlow c hc hchange
        rw [rank_stakesOf_container hchange]
        omega
    · exact .inl (by omega)

/-- STAKES: a valid plan's dispatch escalates at every container exactly when its work is held
apart. -/
theorem stakes_escalate_iff (plan : Plan) (objective : Task) (now : Int)
    (r : DecompositionResult) (hvalid : plan.Valid)
    (hok : decompositionFromPlan plan objective now = .ok r) :
    Escalates r ↔ HeldApart (workTree plan) := by
  rw [escalates_iff_items hvalid hok]
  exact itemsEscalate_iff_heldApart (workTree plan)

def apartPlan : Plan :=
  planOf [workItem buildId.text none [] .normal,
    workItem partId.text (some buildId.text) [] .normal,
    workItem choiceId.text (some partId.text) [] .low]

/-- `stakes_escalate_iff` at work on the two containers. -/
theorem stakes_escalate_apart :
    ∃ r, decompositionFromPlan apartPlan objectiveTask 0 = .ok r ∧ Escalates r := by
  have hvalid : apartPlan.Valid := by decide
  obtain ⟨r, hr⟩ := (exists_decompositionFromPlan_iff objectiveTask 0 hvalid
    (by decide) (by decide)).2 (by decide)
  exact ⟨r, hr, (stakes_escalate_iff apartPlan objectiveTask 0 r hvalid hr).2 (by decide)⟩

/-- A LOW container of a LOW container of HIGH work, as an operator may have
left them. -/
def inversePlan : Plan :=
  planOf [workItem buildId.text none [] .low,
    workItem partId.text (some buildId.text) [] .low,
    workItem choiceId.text (some partId.text) [] .high]

/-- The outer container runs at NORMAL, the one it assembles at CRITICAL. -/
theorem inverse_plan_not_escalated :
    ¬ ∀ (plan : Plan) (objective : Task) (now : Int) (r : DecompositionResult),
      plan.Valid → decompositionFromPlan plan objective now = .ok r → Escalates r := by
  intro h
  have hvalid : inversePlan.Valid := by decide
  obtain ⟨r, hr⟩ := (exists_decompositionFromPlan_iff objectiveTask 0 hvalid
    (by decide) (by decide)).2 (by decide)
  have hitems := (escalates_iff_items hvalid hr).1 (h _ _ _ r hvalid hr)
  revert hitems
  decide

end

variable {plan : Plan} {objective : Task} {now : Int} {l r : DecompositionResult}
  {items : List PlanItem}

-- ==== one level

variable {tree : PlanTree} {k a b : String}

section
variable (h : RebuiltFrom plan objective tree now items l)
include h

theorem RebuiltFrom.level : ∃ parent depth, Level tree parent items depth := by
  obtain ⟨parent, depth, -, -, hl, -⟩ := h
  exact ⟨parent, depth, hl⟩

theorem RebuiltFrom.levelValid : l.LevelValid := by
  obtain ⟨parent, depth, fuel, parentTaskId, -, hok⟩ := h
  cases fuel with
  | zero => cases hok
  | succ fuel =>
    obtain ⟨-, tasks, children, -, -, rfl, hv⟩ := levelFromItems_succ_ok_iff.1 hok
    exact hv

theorem RebuiltFrom.subtaskIds : l.subtaskIds = items.map PlanItem.id := by
  unfold DecompositionResult.subtaskIds
  rw [h.subtasks, map_map]
  rfl

end

theorem level_dependencies (hv : plan.Valid)
    (h : RebuiltFrom plan objective (workTree plan) now items l) (hk : k ∈ l.subtaskIds) :
    l.levelGraph.dependencies k =
      (dependenciesOf plan.items k).filter (· ∉ decisionIds plan.items) := by
  obtain ⟨parent, depth, hl⟩ := h.level
  rw [h.subtaskIds] at hk
  obtain ⟨i, hi, rfl⟩ := mem_map.1 hk
  obtain ⟨j, hj, -, rfl⟩ := mem_dispatchable.1 (hl.mem hi).1
  have hs : subtaskOfItem (workTree plan) (stripDecisions (decisionIds plan.items) j) ∈
      l.plan.subtasks := by
    rw [h.subtasks]
    exact mem_map_of_mem hi
  have hplan : dependenciesOf plan.items j.id = j.dependencies :=
    Keyed.edges_key hv.graph.distinct hj
  show l.levelGraph.dependencies j.id = (dependenciesOf plan.items j.id).filter _
  rw [hplan]
  exact Keyed.edges_key h.levelValid.plan_valid.distinct hs

/-- STEP LEMMA: an edge of a rebuilt level is one of the plan that ends in no decision. -/
theorem mem_level_dependencies (hv : plan.Valid)
    (h : RebuiltFrom plan objective (workTree plan) now items l) {d : String} :
    d ∈ l.levelGraph.dependencies k ↔
      k ∈ l.subtaskIds ∧ d ∈ dependenciesOf plan.items k ∧ d ∉ decisionIds plan.items := by
  by_cases hk : k ∈ l.subtaskIds
  · rw [level_dependencies hv h hk, mem_filter, decide_eq_true_eq]
    exact (and_iff_right hk).symm
  · have hnone : l.levelGraph.dependencies k = [] := Keyed.edges_of_not_mem hk
    rw [hnone]
    exact iff_of_false not_mem_nil fun hd => hk hd.1

/-- RUN LEMMA: a unit of a level runs after what the plan leads to over work alone. -/
theorem after_level_iff (hv : plan.Valid)
    (h : RebuiltFrom plan objective (workTree plan) now items l) (ha : a ∈ l.subtaskIds)
    (hb : b ∉ decisionIds plan.items) : Layers.After l.levelGraph.dependencies a b ↔
      Reach.Through (dependenciesOf plan.items) (· ∉ decisionIds plan.items) a b := by
  constructor
  · intro hafter
    clear hb
    induction hafter with
    | single hstep => exact .edge _ ((mem_level_dependencies hv h).1 hstep).2.1
    | @tail c d hbefore hstep ih =>
      obtain ⟨hc, hd, -⟩ := (mem_level_dependencies hv h).1 hstep
      refine .step c d ih ?_ hd
      -- `c` is a unit of the level, so it is work
      obtain ⟨e, hlast⟩ : ∃ e, c ∈ l.levelGraph.dependencies e := by
        obtain ⟨e, -, he⟩ := Relation.TransGen.tail'_iff.1 hbefore
        exact ⟨e, he⟩
      exact ((mem_level_dependencies hv h).1 hlast).2.2
  · intro ht
    have hclosed := DecompositionResult.levelGraph_closed h.levelValid
    induction ht with
    | edge b hab => exact .single ((mem_level_dependencies hv h).2 ⟨ha, hab, hb⟩)
    | step c d hac hc hcd ih =>
      have hbefore := ih hc
      have hunit : c ∈ l.subtaskIds := hbefore.mem hclosed ha
      exact .tail hbefore ((mem_level_dependencies hv h).2 ⟨hunit, hcd, hb⟩)

-- ==== the order behind a decision

theorem not_mem_decisionIds (hv : plan.Valid) {i : PlanItem} (hi : i ∈ plan.items)
    (hwork : i.kind = .work) : i.id ∉ decisionIds plan.items := by
  intro hin
  obtain ⟨j, hj, hdec, hid⟩ := mem_decisionIds.1 hin
  simp [Keyed.eq_of_key hv.graph.distinct hj hi hid, hwork] at hdec

theorem exists_common_level (hv : plan.Valid)
    (hok : decompositionFromPlan plan objective now = .ok r) {a b : PlanItem}
    (ha : a ∈ plan.items) (hb : b ∈ plan.items) (hw : a.kind = .work)
    (hr : b.kind = .work) (hsame : a.parentId = b.parentId) :
    ∃ l ∈ r.levels, a.id ∈ l.subtaskIds ∧ b.id ∈ l.subtaskIds := by
  have hitem : ∀ {i}, i ∈ plan.items → i.kind = .work →
      stripDecisions (decisionIds plan.items) i ∈ (workTree plan).items :=
    fun hi hwork => mem_dispatchable.2 ⟨_, hi, hwork, rfl⟩
  obtain ⟨l, hl, items, hmem, h⟩ := (rebuilt_of_ok hv hok).2 _ (hitem ha hw)
  obtain ⟨parent, depth, hlevel⟩ := h.level
  have hp : a.parentId = parent := (hlevel.mem hmem).2
  have ho : stripDecisions (decisionIds plan.items) b ∈ items := by
    rw [hlevel.items_eq]
    exact Forest.mem_childrenOf.2 ⟨hitem hb hr, hsame.symm.trans hp⟩
  refine ⟨l, hl, ?_, ?_⟩
  · rw [h.subtaskIds]
    exact mem_map.2 ⟨_, hmem, rfl⟩
  · rw [h.subtaskIds]
    exact mem_map.2 ⟨_, ho, rfl⟩

theorem after_iff_through (hv : plan.Valid)
    (hok : decompositionFromPlan plan objective now = .ok r) (hb : b ∉ decisionIds plan.items)
    (hl : l ∈ r.levels) (ha : a ∈ l.subtaskIds) : Layers.After l.levelGraph.dependencies a b ↔
      Reach.Through (dependenciesOf plan.items) (· ∉ decisionIds plan.items) a b := by
  obtain ⟨items, h⟩ := (rebuilt_of_ok hv hok).1.levels (workTree_forest hv) l hl
  exact after_level_iff hv h ha hb

/-- STRIPPING keeps an order between two items of work exactly as far as work carries it: one
runs after the other if and only if the plan leads to it without passing a decision. -/
theorem stripped_order_iff (hvalid : plan.Valid)
    (hok : decompositionFromPlan plan objective now = .ok r) (a b : PlanItem)
    (ha : a ∈ plan.items) (hb : b ∈ plan.items) (hawork : a.kind = .work)
    (hbwork : b.kind = .work) (hsame : a.parentId = b.parentId) :
    (∃ l ∈ r.levels, a.id ∈ l.subtaskIds ∧ b.id ∈ l.subtaskIds) ∧
      ∀ l ∈ r.levels, a.id ∈ l.subtaskIds →
        (Layers.After l.levelGraph.dependencies a.id b.id ↔
          Reach.Through (dependenciesOf plan.items) (· ∉ decisionIds plan.items) a.id b.id) :=
  ⟨exists_common_level hvalid hok ha hb hawork hbwork hsame, fun _ hl hmem =>
    after_iff_through hvalid hok (not_mem_decisionIds hvalid hb hbwork) hl hmem⟩

-- ==== through a choice

def chosenPlan : Plan :=
  planOf [workItem partId.text none [] .normal,
    { decisionItem choiceId.text none .normal with dependencies := [partId.text] },
    workItem buildId.text none [choiceId.text] .normal]

theorem chosenPlan_valid : chosenPlan.Valid := by decide

theorem chosenPlan_dispatched : ∃ r, decompositionFromPlan chosenPlan objectiveTask 0 = .ok r :=
  (exists_decompositionFromPlan_iff objectiveTask 0 chosenPlan_valid (by decide)
    (by decide)).2 (by decide)

theorem chosenPlan_after :
    Layers.After (dependenciesOf chosenPlan.items) buildId.text partId.text :=
  .tail (.single (show choiceId.text ∈ dependenciesOf chosenPlan.items buildId.text by decide))
    (show partId.text ∈ dependenciesOf chosenPlan.items choiceId.text by decide)

theorem chosenPlan_not_through :
    ¬ Reach.Through (dependenciesOf chosenPlan.items) (· ∉ decisionIds chosenPlan.items)
      buildId.text partId.text := by
  have hall : ∀ k, Reach.Through (dependenciesOf chosenPlan.items)
      (· ∉ decisionIds chosenPlan.items) buildId.text k → k = choiceId.text := by
    intro k h
    induction h with
    | edge k hk => exact mem_singleton.1 hk
    | step c k _ hc _ ih =>
      rw [ih] at hc
      exact absurd (by decide) hc
  intro h
  exact absurd (hall _ h) (by decide)

/-- So dispatch does not keep every order between two items of work. -/
theorem order_through_choice_lost :
    ¬ ∀ (plan : Plan) (objective : Task) (now : Int) (r : DecompositionResult), plan.Valid →
      decompositionFromPlan plan objective now = .ok r →
        ∀ a ∈ plan.items, ∀ b ∈ plan.items, a.kind = .work → b.kind = .work →
          a.parentId = b.parentId → Layers.After (dependenciesOf plan.items) a.id b.id →
            ∃ l ∈ r.levels, Layers.After l.levelGraph.dependencies a.id b.id := by
  intro h
  obtain ⟨r, hr⟩ := chosenPlan_dispatched
  obtain ⟨l, hl, hafter⟩ := h chosenPlan objectiveTask 0 r chosenPlan_valid hr
    (workItem buildId.text none [choiceId.text] .normal) (by simp [chosenPlan, planOf])
    (workItem partId.text none [] .normal) (by simp [chosenPlan, planOf]) rfl rfl rfl
    chosenPlan_after
  have hmem : buildId.text ∈ l.subtaskIds := by
    by_contra hout
    obtain ⟨d, hd, -⟩ := Relation.TransGen.head'_iff.1 hafter
    have hnone : l.levelGraph.dependencies buildId.text = [] := Keyed.edges_of_not_mem hout
    have hd : d ∈ l.levelGraph.dependencies buildId.text := hd
    simp [hnone] at hd
  exact chosenPlan_not_through
    ((after_iff_through chosenPlan_valid hr (by decide) hl hmem).1 hafter)

/-- The workstream and the part stand on one level, in no order. -/
theorem stripped_order_chosen : ∃ r, decompositionFromPlan chosenPlan objectiveTask 0 = .ok r ∧
    ∃ l ∈ r.levels, buildId.text ∈ l.subtaskIds ∧ partId.text ∈ l.subtaskIds ∧
      ¬ Layers.After l.levelGraph.dependencies buildId.text partId.text :=
  have ⟨r, hr⟩ := chosenPlan_dispatched
  have h := stripped_order_iff chosenPlan_valid hr
    (workItem buildId.text none [choiceId.text] .normal)
    (workItem partId.text none [] .normal) (by decide) (by decide) rfl rfl rfl
  have ⟨l, hl, hbuild, hpart⟩ := h.1
  ⟨r, hr, l, hl, hbuild, hpart, fun hafter =>
    chosenPlan_not_through ((h.2 l hl hbuild).1 hafter)⟩

end Synthorg.Decomposition
