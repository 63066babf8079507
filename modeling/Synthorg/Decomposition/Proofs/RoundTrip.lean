/-
A valid plan, dispatched and projected back.

The walk over a rebuilt tree meets the work items in the order `Lib.Forest.preorder` lists a
forest in, so that the enumeration's one theorem (`preorder_perm`: every member exactly once) is
the round trip: `walkLevels_rebuilt` reads the walk off the items, and nothing is dropped, doubled
or re-parented on the way.

The one plan that does not come back is the one that never gets out: a
workstream with the id of the objective's task would be its own parent.
-/
import Synthorg.Decomposition.Models

namespace Synthorg.Decomposition

open Synthorg.Core Lib
open List

section

-- ==== the forest

structure WorkForest (tree : PlanTree) : Prop where
  forest : Forest.IsForest PlanItem.id PlanItem.parentId tree.items
  valid : ∀ i ∈ tree.items, i.Valid
  work : ∀ i ∈ tree.items, i.kind = .work
  same_level : ∀ i ∈ tree.items, ∀ d ∈ i.dependencies,
    ∃ j ∈ tree.items, j.id = d ∧ j.parentId = i.parentId

variable {plan : Plan} {item : PlanItem} {items : List PlanItem} {tree : PlanTree}
  {objective : Task} {parentTaskId : String} {now : Int} {parent : Option String} {depth fuel : Nat}
  {r : DecompositionResult}

theorem mem_dispatchable : item ∈ dispatchable plan ↔ ∃ i ∈ plan.items, i.kind = .work ∧
      item = stripDecisions (decisionIds plan.items) i := by
  unfold dispatchable
  simp only [mem_map, mem_filter, decide_eq_true_eq]
  constructor
  · rintro ⟨i, ⟨hi, hwork⟩, rfl⟩
    exact ⟨i, hi, hwork, rfl⟩
  · rintro ⟨i, hi, hwork, rfl⟩
    exact ⟨i, ⟨hi, hwork⟩, rfl⟩

theorem mem_decisionIds {d : String} :
    d ∈ decisionIds items ↔ ∃ i ∈ items, i.kind = .decision ∧ i.id = d := by
  unfold decisionIds
  simp only [mem_map, mem_filter, decide_eq_true_eq]
  constructor
  · rintro ⟨i, ⟨hi, hkind⟩, rfl⟩
    exact ⟨i, hi, hkind, rfl⟩
  · rintro ⟨i, hi, hkind, rfl⟩
    exact ⟨i, ⟨hi, hkind⟩, rfl⟩

theorem stripDecisions_valid (h : item.Valid) (decisions : List String) :
    (stripDecisions decisions item).Valid := by
  have hf := (PlanItem.checkedFields_ok_iff item).1 h.fields
  refine
    { fields := ?_
      canonical := h.canonical
      not_own_parent := h.not_own_parent
      no_self_dependency := ?_
      dependencies_nodup := h.dependencies_nodup.filter _
      options_shaped := h.options_shaped
      artifacts_shaped := h.artifacts_shaped }
  · rw [PlanItem.checkedFields_ok_iff]
    exact { hf with
      dependencies := fun d hd => hf.dependencies d (mem_of_mem_filter hd) }
  · intro hin
    exact h.no_self_dependency (mem_of_mem_filter hin)

theorem workTree_forest (hv : plan.Valid) : WorkForest (workTree plan) := by
  have hc := hv.graph.contained
  have hids : (dispatchable plan).map PlanItem.id =
      (plan.items.filter fun i => i.kind = .work).map PlanItem.id := by
    unfold dispatchable
    rw [map_map]
    rfl
  have hdistinct : Keyed.Distinct PlanItem.id (dispatchable plan) := by
    unfold Keyed.Distinct
    rw [hids]
    exact hv.graph.distinct.sublist (filter_sublist.map _)
  refine
    { forest := ?_
      valid := ?_
      work := ?_
      same_level := ?_ }
  · obtain ⟨rank, -, hrank⟩ := hc.forest.ranked
    refine Forest.isForest_of_rank hdistinct ?_ rank ?_
    · intro item hitem p hp
      obtain ⟨i, hi, hwork, rfl⟩ := mem_dispatchable.1 hitem
      obtain ⟨j, hj, hjp⟩ := hc.forest.parent_mem hi hp
      have hw : j.kind = .work := hc.parent_is_work i hi j hj (hjp ▸ hp)
      apply mem_map.2
      exact ⟨_, mem_dispatchable.2 ⟨j, hj, hw, rfl⟩, hjp⟩
    · intro item hitem p hp
      obtain ⟨i, hi, hwork, rfl⟩ := mem_dispatchable.1 hitem
      exact hrank i hi p hp
  · intro item hitem
    obtain ⟨i, hi, hwork, rfl⟩ := mem_dispatchable.1 hitem
    exact stripDecisions_valid (hv.items_valid i hi) _
  · intro item hitem
    obtain ⟨i, hi, hwork, rfl⟩ := mem_dispatchable.1 hitem
    exact hwork
  · intro item hitem d hd
    obtain ⟨i, hi, hwork, rfl⟩ := mem_dispatchable.1 hitem
    obtain ⟨hdep, hdec⟩ := mem_filter.1 hd
    obtain ⟨j, hj, rfl⟩ := mem_map.1 (hv.graph.known i hi d hdep)
    have hw : j.kind = .work := by
      cases hkind : j.kind with
      | work => rfl
      | decision =>
        have hin := mem_decisionIds.2 ⟨j, hj, hkind, rfl⟩
        simp [hin] at hdec
    exact ⟨_, mem_dispatchable.2 ⟨j, hj, hw, rfl⟩, rfl, hc.same_level i hi j hj hdep⟩

-- ==== one task

theorem notBlank_withPlanContext {description : String}
    (h : notBlank description = true) (assumptions openQuestions : List String) :
    notBlank (withPlanContext description assumptions openQuestions) = true := by
  unfold withPlanContext
  split
  next => exact h
  next => exact notBlank_append (notBlank_append h)

theorem notBlank_bodyOf (h : notBlank item.description = true) :
    notBlank (bodyOf tree item) = true := by
  unfold bodyOf assemblyOf
  split
  next => exact h
  next assembly hassembly =>
    split at hassembly
    next => cases hassembly
    next =>
      cases hassembly
      exact (buildAssembly _ _ _ _ _).brief_given

theorem notBlank_artifactsOf (h : ∀ a ∈ item.expectedArtifacts, notBlank a = true) :
    ∀ a ∈ artifactsOf tree item, notBlank a = true := by
  unfold artifactsOf assemblyOf
  split
  next => exact h
  next assembly hassembly =>
    split at hassembly
    next => cases hassembly
    next =>
      cases hassembly
      intro a ha
      rcases mem_append.1 ha with hown | hpath
      · exact h a hown
      · exact (buildAssembly _ _ _ _ _).paths_given a hpath

theorem itemTaskFields_coherent_iff {id : Uuid} (hitem : item.Valid) (hid : id.text = item.id)
    (hparent : notBlank parentTaskId = true) :
    (itemTaskFields plan objective parentTaskId tree now item id).Coherent ↔
      parentTaskId ≠ item.id := by
  have hf := (PlanItem.checkedFields_ok_iff item).1 hitem.fields
  have hobj := (TaskFields.checkedFields_ok_iff _).1 objective.coherent.fields
  have hown : some parentTaskId ≠ some id.text ↔ parentTaskId ≠ item.id := by
    rw [hid, ne_eq, Option.some.injEq]
  constructor
  · intro h
    exact hown.1 h.not_own_parent
  · intro hne
    refine
      { fields := ?_
        deadline := ?_
        no_self_dependency := ?_
        dependencies_nodup := hitem.dependencies_nodup
        reviewers_nodup := nodup_nil
        not_own_parent := hown.2 hne
        delegation_nodup := objective.coherent.delegation_nodup
        assignee_not_delegate := ?_
        created_unassigned := fun _ => rfl
        assignee_named := ?_
        reason_names_park := ?_
        plan_linked := ?_ }
    · rw [TaskFields.checkedFields_ok_iff]
      refine
        { title := hf.title
          description :=
            notBlank_withPlanContext (notBlank_bodyOf hf.description) _ _
          project := hobj.project
          created_by := hobj.created_by
          requested_by := nofun
          assigned_to := nofun
          reviewers := nofun
          dependencies := hf.dependencies
          artifacts := ?_
          criteria := ?_
          budget := le_refl 0
          retries := by
            show (0 : Rat) ≤ ((1 : Int) : Rat)
            exact zero_le_one
          parent := ?_
          delegation := hobj.delegation
          middleware := nofun
          ceiling := nofun
          token_ceiling := nofun }
      · intro a ha
        obtain ⟨spec, hspec, rfl⟩ := mem_map.1 ha
        exact notBlank_artifactsOf hf.artifacts spec hspec
      · intro c hc
        obtain ⟨text, htext, rfl⟩ := mem_map.1 hc
        exact hf.criteria text htext
      · intro p hp
        cases hp
        exact hparent
    · intro d hd
      cases hd
    · show id.text ∉ item.dependencies
      rw [hid]
      exact hitem.no_self_dependency
    · intro a ha
      cases ha
    · intro h
      exact absurd h (by decide : TaskStatus.created ∉ requiresAssignee)
    · intro reason h
      cases h
    · intro _ h
      cases h

theorem taskFromItem_ok_iff (hitem : item.Valid) (hp : notBlank parentTaskId = true) (t : Task) :
    taskFromItem plan objective parentTaskId tree now item = .ok t ↔
      parentTaskId ≠ item.id ∧ t.toTaskFields =
        itemTaskFields plan objective parentTaskId tree now item
          ⟨item.id, hitem.canonical⟩ := by
  unfold taskFromItem subtaskUuid
  rw [dif_pos hitem.canonical]
  show (Except.mapError DecompositionError.task _ : Except _ _) = _ ↔ _
  rw [mapError_ok_iff, Task.modelValidate_ok_iff, and_iff_right rfl]
  constructor
  · intro h
    refine ⟨?_, h⟩
    have hc := t.coherent
    rw [h] at hc
    exact (itemTaskFields_coherent_iff hitem rfl hp).1 hc
  · rintro ⟨-, h⟩
    exact h

theorem exists_taskFromItem_iff (hitem : item.Valid) (hp : notBlank parentTaskId = true) :
    (∃ t, taskFromItem plan objective parentTaskId tree now item = .ok t) ↔
      parentTaskId ≠ item.id := by
  constructor
  · rintro ⟨t, ht⟩
    exact ((taskFromItem_ok_iff hitem hp t).1 ht).1
  · intro hne
    exact ⟨⟨_, (itemTaskFields_coherent_iff hitem rfl hp).2 hne⟩,
      (taskFromItem_ok_iff hitem hp _).2 ⟨hne, rfl⟩⟩

-- ==== one level

structure Level (tree : PlanTree) (parent : Option String) (items : List PlanItem)
    (depth : Nat) : Prop where
  items_eq : items = Forest.childrenOf PlanItem.parentId tree.items parent
  nonempty : items ≠ []
  depth_eq : ∀ i ∈ items, tree.depth i.id = depth

theorem Level.mem (h : Level tree parent items depth) {i : PlanItem} (hi : i ∈ items) :
    i ∈ tree.items ∧ i.parentId = parent := by
  rw [h.items_eq] at hi
  exact Forest.mem_childrenOf.1 hi

theorem Level.distinct (htree : WorkForest tree) (h : Level tree parent items depth) :
    Keyed.Distinct PlanItem.id items := by
  rw [h.items_eq]
  exact htree.forest.distinct.sublist (filter_sublist.map _)

theorem Level.below (htree : WorkForest tree) (h : Level tree parent items depth) {i : PlanItem}
    (hi : i ∈ items) (hcon : tree.isContainer i.id = true) :
    Level tree (some i.id) (tree.children i.id) (depth + 1) := by
  obtain ⟨hmem, -⟩ := h.mem hi
  refine ⟨rfl, PlanTree.isContainer_iff.1 hcon, fun c hc => ?_⟩
  obtain ⟨hcmem, hp⟩ := PlanTree.mem_children.1 hc
  show Forest.depth PlanItem.id PlanItem.parentId tree.items c.id = depth + 1
  rw [htree.forest.depth_child hcmem hmem hp]
  exact congrArg (· + 1) (h.depth_eq i hi)

theorem subtaskOfItem_valid (hitem : item.Valid) (hwork : item.kind = .work) :
    (subtaskOfItem tree item).Valid ∧
      validateExpectedArtifacts (subtaskOfItem tree item).kind
        (subtaskOfItem tree item).expectedArtifacts = .ok () := by
  have hf := (PlanItem.checkedFields_ok_iff item).1 hitem.fields
  have hoptions := hitem.options_shaped
  rw [hwork, validateDecisionOptions_work] at hoptions
  refine ⟨⟨?_, hitem.no_self_dependency, ?_⟩, hitem.artifacts_shaped⟩
  · rw [SubtaskDefinition.checkedFields_ok_iff]
    exact
      { id := hf.id
        title := hf.title
        description := hf.description
        dependencies := hf.dependencies
        skills := hf.skills
        tags := hf.tags
        role := hf.owner
        artifacts := hf.artifacts
        criteria := hf.criteria
        satisfies := hf.satisfies
        options := hf.options
        unsplit_reason := hf.unsplit_reason }
  · show validateDecisionOptions item.kind item.options none = .ok ()
    rw [hwork, validateDecisionOptions_work]
    exact ⟨hoptions.1, rfl⟩

theorem levelPlan_valid (htree : WorkForest tree) (h : Level tree parent items depth)
    (hp : notBlank parentTaskId = true) : (levelPlan plan tree parentTaskId items).Valid := by
  have hids : (items.map (subtaskOfItem tree)).map SubtaskDefinition.id =
      items.map PlanItem.id := by
    rw [map_map]
    rfl
  refine
    { subtasks_valid := ?_
      fields := ?_
      nonempty := ?_
      distinct := ?_
      known := ?_
      artifacts_shaped := ?_ }
  · intro s hs
    obtain ⟨i, hi, rfl⟩ := mem_map.1 hs
    have hmem := (h.mem hi).1
    exact (subtaskOfItem_valid (htree.valid i hmem) (htree.work i hmem)).1
  · intro c hc
    have hc' : c ∈ [(["parent_task_id"], FieldValue.text parentTaskId)] := by
      simpa [DecompositionPlan.checkedFields, levelPlan, indexed] using hc
    rw [mem_singleton.1 hc']
    exact hp
  · intro hnil
    exact h.nonempty (map_eq_nil_iff.1 hnil)
  · show ((items.map (subtaskOfItem tree)).map SubtaskDefinition.id).Nodup
    rw [hids]
    exact h.distinct htree
  · intro s hs d hd
    obtain ⟨i, hi, rfl⟩ := mem_map.1 hs
    obtain ⟨hmem, hip⟩ := h.mem hi
    obtain ⟨j, hj, rfl, hjp⟩ := htree.same_level i hmem d hd
    show j.id ∈ (items.map (subtaskOfItem tree)).map SubtaskDefinition.id
    rw [hids, h.items_eq]
    exact mem_map_of_mem (Forest.mem_childrenOf.2 ⟨hj, hjp.trans hip⟩)
  · intro s hs
    obtain ⟨i, hi, rfl⟩ := mem_map.1 hs
    have hmem := (h.mem hi).1
    exact (subtaskOfItem_valid (htree.valid i hmem) (htree.work i hmem)).2

theorem levelFromItems_succ_ok_iff :
    levelFromItems plan objective tree now (fuel + 1) items parentTaskId depth = .ok r ↔
      (levelPlan plan tree parentTaskId items).Valid ∧ ∃ tasks children,
        Forall₂ (fun item t =>
          taskFromItem plan objective parentTaskId tree now item = .ok t) items tasks ∧
        Forall₂ (fun item c =>
          levelFromItems plan objective tree now fuel (tree.children item.id) item.id
            (depth + 1) = .ok c)
          (items.filter fun item => tree.isContainer item.id) children ∧
        r = .mk (levelPlan plan tree parentTaskId items) tasks (levelEdges items) depth
          children ∧ r.LevelValid := by
  rw [levelFromItems, bind_unit_ok_iff, mapError_ok_iff, DecompositionPlan.check_ok_iff]
  refine and_congr_right fun hplan => ?_
  have hcheck : ∀ tasks children, (DecompositionResult.mk
      (levelPlan plan tree parentTaskId items) tasks (levelEdges items) depth
      children).check = .ok () ↔ _ := fun tasks children =>
    DecompositionResult.check_ok_iff _ hplan
  simp only [bind_ok_iff, buildAll_ok_iff, mapError_ok_iff, Except.ok.injEq]
  constructor
  · rintro ⟨tasks, ht, children, hc, _, hl, rfl⟩
    exact ⟨tasks, children, ht, hc, rfl, (hcheck tasks children).1 hl⟩
  · rintro ⟨tasks, children, ht, hc, rfl, hl⟩
    exact ⟨tasks, ht, children, hc, (), (hcheck tasks children).2 hl, rfl⟩

theorem levelFromItems_top
    (h : levelFromItems plan objective tree now fuel items parentTaskId depth = .ok r) :
    r.plan = levelPlan plan tree parentTaskId items ∧ r.depth = depth := by
  cases fuel with
  | zero => cases h
  | succ fuel =>
    obtain ⟨-, tasks, children, -, -, rfl, -⟩ := levelFromItems_succ_ok_iff.1 h
    exact ⟨rfl, rfl⟩

theorem rebuilt_levelValid (htree : WorkForest tree) (hstr : plan.taskStructure ≠ .auto)
    (h : Level tree parent items depth) (hp : notBlank parentTaskId = true) {tasks : List Task}
    {children : List DecompositionResult} (htasks : Forall₂ (fun item t =>
      taskFromItem plan objective parentTaskId tree now item = .ok t) items tasks)
    (hn : Forall₂ (fun item c =>
      levelFromItems plan objective tree now fuel (tree.children item.id) item.id
        (depth + 1) = .ok c)
      (items.filter fun item => tree.isContainer item.id) children) :
    (DecompositionResult.mk (levelPlan plan tree parentTaskId items) tasks
      (levelEdges items) depth children).LevelValid := by
  have hplan : (levelPlan plan tree parentTaskId items).Valid := levelPlan_valid htree h hp
  have hids : (items.map (subtaskOfItem tree)).map SubtaskDefinition.id =
      items.map PlanItem.id := by
    rw [map_map]
    rfl
  have htask : tasks.map (fun t => t.id.text) = items.map PlanItem.id := by
    refine (map_eq_of_forall₂ htasks fun i hi t ht => ?_).symm
    have hv := htree.valid i (h.mem hi).1
    obtain ⟨-, hf⟩ := (taskFromItem_ok_iff hv hp t).1 ht
    show i.id = t.toTaskFields.id.text
    rw [hf]
    rfl
  have hparent : children.map (fun c => c.plan.parentTaskId) =
      (items.filter fun item => tree.isContainer item.id).map PlanItem.id := by
    refine (map_eq_of_forall₂ hn fun i _ c hc => ?_).symm
    rw [(levelFromItems_top hc).1]
    rfl
  refine
    { plan_valid := hplan
      resolved := hstr
      task_count := ?_
      task_ids := ?_
      edges_known := ?_
      children_known := ?_
      children_distinct := ?_
      children_depth := ?_ }
  · show tasks.length = (items.map (subtaskOfItem tree)).length
    rw [length_map, htasks.length_eq]
  · intro k
    show k ∈ tasks.map (fun t => t.id.text) ↔
      k ∈ (items.map (subtaskOfItem tree)).map SubtaskDefinition.id
    rw [htask, hids]
  · intro e he
    show e.1 ∈ tasks.map (fun t => t.id.text) ∧ e.2 ∈ tasks.map (fun t => t.id.text)
    rw [htask]
    obtain ⟨i, hi, hedge⟩ := mem_flatMap.1 he
    obtain ⟨d, hd, rfl⟩ := mem_map.1 hedge
    refine ⟨?_, mem_map_of_mem hi⟩
    have hk := hplan.known _ (mem_map_of_mem hi) d hd
    exact hids ▸ hk
  · intro c hc
    show c.plan.parentTaskId ∈ tasks.map (fun t => t.id.text)
    rw [htask]
    have hmem : c.plan.parentTaskId ∈ children.map (fun c => c.plan.parentTaskId) :=
      mem_map_of_mem hc
    rw [hparent] at hmem
    exact (filter_sublist.map _).mem hmem
  · show (children.map (fun c => c.plan.parentTaskId)).Nodup
    rw [hparent]
    exact (h.distinct htree).sublist (filter_sublist.map _)
  · intro c hc
    obtain ⟨i, -, hl⟩ := exists_of_forall₂_right hn hc
    exact (levelFromItems_top hl).2

/-- RUN LEMMA over the tree: a level rebuilds, unless it hangs off the id of one of its own
items. -/
theorem exists_levelFromItems (htree : WorkForest tree) (hstr : plan.taskStructure ≠ .auto)
    (h : Level tree parent items depth) (hfuel : tree.items.length + 1 ≤ fuel + depth)
    (hp : notBlank parentTaskId = true) (hl : ∀ i ∈ items, parentTaskId ≠ i.id) :
    ∃ r, levelFromItems plan objective tree now fuel items parentTaskId depth = .ok r := by
  induction fuel generalizing parent items depth parentTaskId with
  | zero =>
    -- a level sits no deeper than there are items
    obtain ⟨i, hi⟩ := exists_mem_of_ne_nil items h.nonempty
    have hle : tree.depth i.id ≤ tree.items.length := htree.forest.depth_le (h.mem hi).1
    rw [h.depth_eq i hi] at hle
    omega
  | succ fuel ih =>
    have htask : ∀ i ∈ items, ∃ t, taskFromItem plan objective parentTaskId tree now i = .ok t := by
      intro i hi
      have hv := htree.valid i (h.mem hi).1
      exact (exists_taskFromItem_iff hv hp).2 (hl i hi)
    have hchildren : ∀ i ∈ items.filter (fun item => tree.isContainer item.id), ∃ c,
        levelFromItems plan objective tree now fuel (tree.children i.id) i.id
          (depth + 1) = .ok c := by
      intro i hi
      obtain ⟨hmem, hcon⟩ := mem_filter.1 hi
      have hv := htree.valid i (h.mem hmem).1
      apply ih (h.below htree hmem hcon) (by omega) (notBlank_of_canonical hv.canonical)
      -- a child names its container as parent, and no item is its own parent
      intro c hc heq
      obtain ⟨hcmem, hcpar⟩ := PlanTree.mem_children.1 hc
      exact (htree.valid c hcmem).not_own_parent (hcpar.trans (congrArg some heq))
    obtain ⟨tasks, ht⟩ := exists_buildAll htask
    obtain ⟨children, hd⟩ := exists_buildAll hchildren
    rw [buildAll_ok_iff] at ht hd
    exact ⟨_, levelFromItems_succ_ok_iff.2
      ⟨levelPlan_valid htree h hp, tasks, children, ht, hd, rfl,
        rebuilt_levelValid htree hstr h hp ht hd⟩⟩

theorem workTree_root (hv : plan.Valid)
    (hwork : ∃ i ∈ plan.items, i.kind = .work ∧ i.parentId = none) :
    Level (workTree plan) none (workTree plan).workstreams 0 := by
  have htree := workTree_forest hv
  refine ⟨rfl, ?_, fun i hi => ?_⟩
  · obtain ⟨i, hi, hkind, hroot⟩ := hwork
    apply ne_nil_of_mem (a := stripDecisions (decisionIds plan.items) i)
    exact PlanTree.mem_workstreams.2 ⟨mem_dispatchable.2 ⟨i, hi, hkind, rfl⟩, hroot⟩
  · obtain ⟨hmem, hroot⟩ := PlanTree.mem_workstreams.1 hi
    exact htree.forest.depth_root hmem hroot

theorem exists_decompositionFromPlan_iff (objective : Task) (now : Int) (hv : plan.Valid)
    (hstr : plan.taskStructure ≠ .auto)
    (hwork : ∃ i ∈ plan.items, i.kind = .work ∧ i.parentId = none) :
    (∃ r, decompositionFromPlan plan objective now = .ok r) ↔
      ∀ i ∈ plan.items, i.kind = .work → i.parentId = none →
        objective.id.text ≠ i.id := by
  have htree := workTree_forest hv
  have hroot := workTree_root hv hwork
  have hp := notBlank_of_canonical objective.id.canonical
  constructor
  · rintro ⟨r, hr⟩ i hi hkind hnone
    obtain ⟨-, tasks, children, htasks, -, -, -⟩ := levelFromItems_succ_ok_iff.1 hr
    have hmem : stripDecisions (decisionIds plan.items) i ∈ (workTree plan).workstreams :=
      PlanTree.mem_workstreams.2 ⟨mem_dispatchable.2 ⟨i, hi, hkind, rfl⟩, hnone⟩
    obtain ⟨t, -, ht⟩ := exists_of_forall₂_right htasks.flip hmem
    exact ((taskFromItem_ok_iff (htree.valid _ (hroot.mem hmem).1) hp t).1 ht).1
  · intro hc
    have hlen : (workTree plan).items.length ≤ plan.items.length := by
      show (dispatchable plan).length ≤ plan.items.length
      unfold dispatchable
      rw [length_map]
      exact length_filter_le _ _
    apply exists_levelFromItems htree hstr hroot (by omega) hp
    intro item hitem
    obtain ⟨hmem, hnone⟩ := PlanTree.mem_workstreams.1 hitem
    obtain ⟨i, hi, hkind, rfl⟩ := mem_dispatchable.1 hmem
    exact hc i hi hkind hnone

end

-- ==== the walk

theorem walkLevels_eq (r : DecompositionResult) (parentId : Option String) :
    walkLevels r parentId = r.plan.subtasks.map (parentId, ·) ++
      r.children.flatMap fun c => walkLevels c (some c.plan.parentTaskId) := by
  have hb : ∀ cs, walkLevels.below cs =
      cs.flatMap fun c => walkLevels c (some c.plan.parentTaskId) := by
    intro cs
    induction cs with
    | nil => rfl
    | cons c rest ih => rw [walkLevels.below, ih, flatMap_cons]
  cases r with
  | mk plan createdTasks dependencyEdges depth children =>
    rw [walkLevels, hb]
    rfl

/-- Where one unit of a decomposition sits. -/
structure Placement where
  id : String
  parentId : Option String
  depth : Nat

/-- Where every unit of a tree of levels sits. -/
def placements : DecompositionResult → Option String → List Placement
  | .mk plan _ _ depth children, parentId =>
    plan.subtasks.map (fun s => { id := s.id, parentId := parentId, depth := depth }) ++
      below children
where
  below : List DecompositionResult → List Placement
    | [] => []
    | c :: rest => placements c (some c.plan.parentTaskId) ++ below rest

theorem placements_eq (r : DecompositionResult) (parentId : Option String) : placements r parentId =
      r.plan.subtasks.map (fun s =>
        { id := s.id, parentId := parentId, depth := r.depth }) ++
      r.children.flatMap fun c => placements c (some c.plan.parentTaskId) := by
  have hb : ∀ cs, placements.below cs =
      cs.flatMap fun c => placements c (some c.plan.parentTaskId) := by
    intro cs
    induction cs with
    | nil => rfl
    | cons c rest ih => rw [placements.below, ih, flatMap_cons]
  cases r with
  | mk plan createdTasks dependencyEdges depth children =>
    rw [placements, hb]
    rfl

variable {α : Type} {tree : PlanTree} {plan : Plan}

variable {items : List PlanItem} {objective : Task} {now : Int} {r : DecompositionResult}
  {item : PlanItem}

theorem flatMap_containers {f : PlanItem → List α}
    (hleaf : ∀ i ∈ items, tree.isContainer i.id = false → f i = []) :
    (items.filter fun i => tree.isContainer i.id).flatMap f = items.flatMap f := by
  induction items with
  | nil => rfl
  | cons i rest ih =>
    have hrest := ih fun j hj => hleaf j (mem_cons_of_mem i hj)
    cases hi : tree.isContainer i.id with
    | true => rw [filter_cons, hi, if_pos rfl, flatMap_cons, flatMap_cons, hrest]
    | false =>
      rw [filter_cons, hi, if_neg Bool.false_ne_true, hrest, flatMap_cons,
        hleaf i mem_cons_self hi, nil_append]

theorem flatMap_eq_of_forall₂ {β γ : Type} {R : α → β → Prop} {f : α → List γ} {g : β → List γ}
    {xs : List α} {ys : List β} (h : Forall₂ R xs ys)
    (ha : ∀ x ∈ xs, ∀ y, R x y → f x = g y) : xs.flatMap f = ys.flatMap g := by
  rw [flatMap_def, flatMap_def, map_eq_of_forall₂ h ha]

/-- RUN LEMMA over the tree: a walk over a rebuilt tree is one over the forest's enumeration. -/
theorem walk_rebuilt (htree : WorkForest tree) (walk : DecompositionResult → Option String → List α)
    (one : Option String → Nat → SubtaskDefinition → α) (hwalk : ∀ r parentId, walk r parentId =
      r.plan.subtasks.map (one parentId r.depth) ++
        r.children.flatMap fun c => walk c (some c.plan.parentTaskId)) {fuel : Nat}
    {parent : Option String} {depth : Nat} (hl : Level tree parent items depth)
    {parentTaskId : String}
    (h : levelFromItems plan objective tree now fuel items parentTaskId depth = .ok r) :
    walk r parent =
      (Forest.preorder PlanItem.id PlanItem.parentId tree.items fuel parent).map fun i =>
        one i.parentId (tree.depth i.id) (subtaskOfItem tree i) := by
  induction fuel generalizing parent items depth parentTaskId r with
  | zero => cases h
  | succ fuel ih =>
    obtain ⟨-, tasks, children, -, hd, rfl, -⟩ := levelFromItems_succ_ok_iff.1 h
    have hb : ∀ i ∈ items.filter (fun item => tree.isContainer item.id), ∀ c,
        levelFromItems plan objective tree now fuel (tree.children i.id) i.id
          (depth + 1) = .ok c →
        (Forest.preorder PlanItem.id PlanItem.parentId tree.items fuel
          (some i.id)).map (fun i =>
            one i.parentId (tree.depth i.id) (subtaskOfItem tree i)) =
          walk c (some c.plan.parentTaskId) := by
      intro i hi c hc
      obtain ⟨hmem, hcontainer⟩ := mem_filter.1 hi
      rw [(levelFromItems_top hc).1]
      exact (ih (hl.below htree hmem hcontainer) hc).symm
    rw [hwalk]
    show (items.map (subtaskOfItem tree)).map (one parent depth) ++
      (children.flatMap fun c => walk c (some c.plan.parentTaskId)) = _
    rw [← flatMap_eq_of_forall₂ hd hb, flatMap_containers, Forest.preorder,
      ← hl.items_eq, map_append, map_flatMap, map_map]
    · congr 1
      apply map_congr_left
      intro i hi
      show one parent depth (subtaskOfItem tree i) = _
      rw [(hl.mem hi).2, hl.depth_eq i hi]
    · intro i _ hleaf
      have hnone : tree.children i.id = [] := by
        by_contra hne
        simp [PlanTree.isContainer_iff.2 hne] at hleaf
      rw [Forest.preorder_of_childless hnone]
      rfl

-- ==== projected items

def unstaked (item : PlanItem) : PlanItem := { item with stakes := .normal }

theorem itemFields_subtaskOfItem (hitem : item.Valid) (hwork : item.kind = .work) :
    unstaked (itemFields item.parentId (subtaskOfItem tree item)) = unstaked item := by
  have hoptions := hitem.options_shaped
  rw [hwork, validateDecisionOptions_work] at hoptions
  cases item with
  | mk id title description parentId dependencies owner acceptanceCriteria
      expectedArtifacts requiredSkills requiredTags estimatedComplexity stakes kind options
      chosenOptionId satisfies unsplitReason =>
      simp only at hoptions
      unfold unstaked itemFields subtaskOfItem
      simp only [hoptions.2]

theorem itemFromSubtask_subtaskOfItem (hitem : item.Valid) (hwork : item.kind = .work) :
    itemFromSubtask item.parentId (subtaskOfItem tree item) =
      .ok (itemFields item.parentId (subtaskOfItem tree item)) := by
  have hoptions := hitem.options_shaped
  rw [hwork, validateDecisionOptions_work] at hoptions
  have hv : (itemFields item.parentId (subtaskOfItem tree item)).Valid := by
    have hf := (PlanItem.checkedFields_ok_iff item).1 hitem.fields
    refine
      { fields := ?_
        canonical := hitem.canonical
        not_own_parent := hitem.not_own_parent
        no_self_dependency := hitem.no_self_dependency
        dependencies_nodup := hitem.dependencies_nodup
        options_shaped := ?_
        artifacts_shaped := hitem.artifacts_shaped }
    · rw [PlanItem.checkedFields_ok_iff]
      exact
        { id := hf.id
          title := hf.title
          description := hf.description
          parent_id := hf.parent_id
          dependencies := hf.dependencies
          owner := hf.owner
          criteria_given := hf.criteria_given
          criteria := hf.criteria
          artifacts := hf.artifacts
          skills := hf.skills
          tags := hf.tags
          options_few := hf.options_few
          options := hf.options
          chosen := nofun
          satisfies := hf.satisfies
          unsplit_reason := hf.unsplit_reason }
    · show validateDecisionOptions item.kind item.options none = .ok ()
      rw [hwork, validateDecisionOptions_work]
      exact ⟨hoptions.1, rfl⟩
  unfold itemFromSubtask
  rw [(PlanItem.check_ok_iff _).2 hv]
  rfl

-- ==== the round trip

structure RoundTrips (plan : Plan) (r : DecompositionResult) : Prop where
  valid : r.LevelValid
  placed : (placements r none).Perm
    ((plan.items.filter fun i => i.kind = .work).map fun i =>
      { id := i.id, parentId := i.parentId, depth := (PlanTree.of plan.items).depth i.id })
  projected : ∃ items, itemsFromDecomposition r = .ok items ∧
    (items.map unstaked).Perm ((dispatchable plan).map unstaked)

theorem workTree_depth (hv : plan.Valid) {i : PlanItem} (hi : i ∈ plan.items)
    (hwork : i.kind = .work) :
    (workTree plan).depth i.id = (PlanTree.of plan.items).depth i.id := by
  have htree := (workTree_forest hv).forest
  have hfor := hv.graph.contained.forest
  obtain ⟨rank, -, hrank⟩ := hfor.ranked
  have hall : ∀ n, ∀ i ∈ plan.items, i.kind = .work → rank i.id = n →
      Forest.depth PlanItem.id PlanItem.parentId (dispatchable plan) i.id =
        Forest.depth PlanItem.id PlanItem.parentId plan.items i.id := by
    intro n
    induction n using Nat.strong_induction_on with
    | _ n ih =>
      intro i hi hwork hn
      have hmem : stripDecisions (decisionIds plan.items) i ∈ dispatchable plan :=
        mem_dispatchable.2 ⟨i, hi, hwork, rfl⟩
      cases hp : i.parentId with
      | none =>
        have hd := htree.depth_root hmem hp
        rw [hfor.depth_root hi hp]
        exact hd
      | some p =>
        obtain ⟨j, hj, rfl⟩ := hfor.parent_mem hi hp
        have hw := hv.graph.contained.parent_is_work i hi j hj hp
        have hjmem : stripDecisions (decisionIds plan.items) j ∈ dispatchable plan :=
          mem_dispatchable.2 ⟨j, hj, hw, rfl⟩
        have hlt := hrank i hi _ hp
        have hd := htree.depth_child hmem hjmem hp
        rw [hfor.depth_child hi hj hp, ← ih (rank j.id) (by omega) j hj hw rfl]
        exact hd
  exact hall _ i hi hwork rfl

theorem roundTrips_of_ok (hv : plan.Valid)
    (hwork : ∃ i ∈ plan.items, i.kind = .work ∧ i.parentId = none)
    (h : decompositionFromPlan plan objective now = .ok r) : RoundTrips plan r := by
  have htree := workTree_forest hv
  have hroot := workTree_root hv hwork
  -- the fuel is more than enough for the enumeration, so it lists everything
  have hperm : (Forest.preorder PlanItem.id PlanItem.parentId (workTree plan).items
      (plan.items.length + 1) none).Perm (workTree plan).items := by
    refine (perm_ext_iff_of_nodup (htree.forest.nodup_preorder _ _)
      (Keyed.nodup_of_distinct htree.forest.distinct)).2 fun i => ?_
    constructor
    · exact Forest.preorder_mem_items
    · intro hi
      have hle : (workTree plan).items.length + 1 ≤ plan.items.length + 1 := by
        show (dispatchable plan).length + 1 ≤ _
        unfold dispatchable
        rw [length_map]
        have hf := length_filter_le (fun i : PlanItem => i.kind = .work) plan.items
        omega
      exact Forest.preorder_mono_le hle (htree.forest.mem_preorder hi)
  refine
    { valid := ?_
      placed := ?_
      projected := ?_ }
  · obtain ⟨-, -, -, -, -, -, hl⟩ := levelFromItems_succ_ok_iff.1 h
    exact hl
  · rw [walk_rebuilt htree placements (fun parentId depth s =>
      { id := s.id, parentId := parentId, depth := depth }) placements_eq hroot h]
    refine (hperm.map _).trans ?_
    show ((dispatchable plan).map _).Perm _
    unfold dispatchable
    rw [map_map]
    apply Perm.of_eq
    apply map_congr_left
    intro i hi
    obtain ⟨hmem, hkind⟩ := mem_filter.1 hi
    show Placement.mk i.id i.parentId ((workTree plan).depth i.id) = _
    rw [workTree_depth hv hmem (by simpa using hkind)]
  · have hwalk := walk_rebuilt htree walkLevels (fun parentId _ s => (parentId, s))
      walkLevels_eq hroot h
    let tree := workTree plan
    let listed := Forest.preorder PlanItem.id PlanItem.parentId tree.items
      (plan.items.length + 1) none
    have hmem : ∀ i ∈ listed, i.Valid ∧ i.kind = .work := by
      intro i hi
      have hin := Forest.preorder_mem_items hi
      exact ⟨htree.valid i hin, htree.work i hin⟩
    have hb : itemsFromDecomposition r =
        .ok ((listed.map fun i => (i.parentId, subtaskOfItem tree i)).map
          fun e => itemFields e.1 e.2) := by
      unfold itemsFromDecomposition
      rw [hwalk]
      apply buildAll_of_forall
      intro e he
      obtain ⟨i, hi, rfl⟩ := mem_map.1 he
      exact itemFromSubtask_subtaskOfItem (hmem i hi).1 (hmem i hi).2
    refine ⟨_, hb, ?_⟩
    have hsame : ((listed.map fun i => (i.parentId, subtaskOfItem tree i)).map
        fun e => itemFields e.1 e.2).map unstaked = listed.map unstaked := by
      rw [map_map, map_map]
      apply map_congr_left
      intro i hi
      exact itemFields_subtaskOfItem (hmem i hi).1 (hmem i hi).2
    rw [hsame]
    exact hperm.map unstaked

/-- ROUND TRIP: a valid plan with work to do and a resolved structure is dispatched, and comes
back as the work it was, exactly when none of its workstreams bears the objective's id. -/
theorem plan_roundTrips_iff (plan : Plan) (objective : Task) (now : Int)
    (hvalid : plan.Valid) (hstructure : plan.taskStructure ≠ .auto)
    (hwork : ∃ i ∈ plan.items, i.kind = .work ∧ i.parentId = none) :
    (∃ r, decompositionFromPlan plan objective now = .ok r ∧ RoundTrips plan r) ↔
      ∀ i ∈ plan.items, i.kind = .work → i.parentId = none →
        objective.id.text ≠ i.id := by
  rw [← exists_decompositionFromPlan_iff objective now hvalid hstructure hwork]
  constructor
  · rintro ⟨r, hr, -⟩
    exact ⟨r, hr⟩
  · rintro ⟨r, hr⟩
    exact ⟨r, hr, roundTrips_of_ok hvalid hwork hr⟩

-- ==== a small plan

def objectiveId : Uuid := ⟨"7d2f5b90-3c14-4e87-a6d9-1b8e0f42c573", by decide⟩
def buildId : Uuid := ⟨"c41e8a07-95b2-4d3f-8f60-5e7a2d91b3c8", by decide⟩
def partId : Uuid := ⟨"08b6d3f5-2a71-4c9e-b5d4-9f03e6a1c782", by decide⟩
def choiceId : Uuid := ⟨"f3a90c6e-6e48-4b25-9d17-c2a85b7f0e34", by decide⟩
def planId : Uuid := ⟨"1e64b7d8-0f93-4a52-8c3b-d7f29a5e6b10", by decide⟩

def objectiveTask : Task where
  id := objectiveId
  title := "Ship the site"
  description := "Ship the site the charter describes."
  type := .development
  project := "atlas"
  createdBy := "owner"
  createdAt := 0
  coherent := by decide

def planOf (items : List PlanItem) : Plan where
  id := planId
  project := "atlas"
  projectName := "Atlas"
  objectiveId := "charter"
  objectiveTitle := "Ship the site"
  parentTaskId := objectiveId.text
  items := items
  status := .pendingReview
  createdAt := 0
  updatedAt := 0

def workItem (id : String) (parentId : Option String) (dependencies : List String)
    (stakes : Stakes) : PlanItem where
  id := id
  title := "Piece"
  description := "A piece of the site."
  parentId := parentId
  dependencies := dependencies
  acceptanceCriteria := ["it works"]
  expectedArtifacts := ["site"]
  stakes := stakes

def decisionItem (id : String) (parentId : Option String) (stakes : Stakes) : PlanItem where
  id := id
  title := "Choice"
  description := "Which stack to use."
  parentId := parentId
  acceptanceCriteria := ["it is made"]
  stakes := stakes
  kind := .decision
  options :=
    [{ id := "a", title := "First", summary := "the first", recommended := true },
      { id := "b", title := "Second", summary := "the second" }]

def sitePlan : Plan :=
  planOf [decisionItem choiceId.text none .normal,
    workItem buildId.text none [choiceId.text] .normal,
    workItem partId.text (some buildId.text) [] .normal]

/-- `plan_roundTrips_iff` at work on the small plan. -/
theorem plan_roundTrips_site :
    ∃ r, decompositionFromPlan sitePlan objectiveTask 0 = .ok r ∧ RoundTrips sitePlan r :=
  (plan_roundTrips_iff sitePlan objectiveTask 0 (by decide) (by decide) (by decide)).2
    (by decide)

def clashingPlan : Plan := planOf [workItem objectiveId.text none [] .normal]

/-- Not every valid plan with work to do is dispatched. -/
theorem clashing_plan_never_dispatched :
    ¬ ∀ (plan : Plan) (objective : Task) (now : Int), plan.Valid →
      plan.taskStructure ≠ .auto →
      plan.parentTaskId = objective.id.text →
      (∃ i ∈ plan.items, i.kind = .work ∧ i.parentId = none) →
      ∃ r, decompositionFromPlan plan objective now = .ok r ∧ RoundTrips plan r := by
  intro h
  have hvalid : clashingPlan.Valid := by decide
  obtain ⟨r, hr, -⟩ := h clashingPlan objectiveTask 0 hvalid (by decide) rfl (by decide)
  have hne := (exists_decompositionFromPlan_iff objectiveTask 0 hvalid (by decide)
    (by decide)).1 ⟨r, hr⟩
  exact hne (workItem objectiveId.text none [] .normal) (by decide) rfl rfl rfl

end Synthorg.Decomposition
