/-
Which lists of units are a containment tree, and what its walks then do.

`describe_malformed_tree` looks for loops by peeling; the walks of `PlanTree`
look for none and would go round one for ever. The two meet here: what the
peeling lets through has a rank that falls from an item to its parent, and
the rank is what each walk uses up.
-/
import Synthorg.Core.Plan

namespace Synthorg.Core

open Lib
open List

-- ==== the parent graph

def parentsOf (units : List PlanItem) : String → List String :=
  fun k => (Forest.up PlanItem.id PlanItem.parentId units k).toList

variable {units : List PlanItem} {p : String}

theorem mem_parentsOf {k : String} :
    p ∈ parentsOf units k ↔ Forest.up PlanItem.id PlanItem.parentId units k = some p := by
  simp [parentsOf]

theorem mem_parentsOf_key (hd : Keyed.Distinct PlanItem.id units) {u : PlanItem}
    (hu : u ∈ units) : p ∈ parentsOf units u.id ↔ u.parentId = some p := by
  rw [mem_parentsOf]
  unfold Forest.up
  rw [Keyed.lookup_key hd hu, Option.bind_some]

theorem exists_of_mem_parentsOf {k : String} (h : p ∈ parentsOf units k) :
    ∃ u ∈ units, u.id = k ∧ u.parentId = some p := by
  obtain ⟨u, hu, hp⟩ := Option.bind_eq_some_iff.1 (mem_parentsOf.1 h)
  obtain ⟨hmem, hid⟩ := Keyed.lookup_mem hu
  exact ⟨u, hmem, hid, hp⟩

theorem rank_lt_of_after {rank : String → Nat} (hrank : ∀ e ∈ parented units, rank e.2 < rank e.1)
    {a b : String} (h : Layers.After (parentsOf units) a b) (hb : parentsOf units b ≠ []) :
    rank b < rank a := by
  -- a key that has a parent is a known one, so the link to it is a parented one
  have hlink : ∀ {c d : String}, d ∈ parentsOf units c → parentsOf units d ≠ [] →
      rank d < rank c := by
    intro c d hd hgoes
    obtain ⟨u, hu, rfl, hp⟩ := exists_of_mem_parentsOf hd
    obtain ⟨p, hparents⟩ := exists_mem_of_ne_nil _ hgoes
    obtain ⟨v, hv, rfl, -⟩ := exists_of_mem_parentsOf hparents
    exact hrank (u.id, v.id) (mem_parented.2 ⟨u, hu, rfl, hp, mem_map_of_mem hv⟩)
  induction h with
  | single hstep => exact hlink hstep hb
  | tail hbefore hstep ih =>
    have hlt := hlink hstep hb
    have hrest := ih (ne_nil_of_mem hstep)
    omega

/-- THE CONTAINMENT CYCLE is reported exactly when the parent graph has one. -/
theorem describeParentCycles_eq_nil_iff_acyclic (hd : Keyed.Distinct PlanItem.id units) :
    describeParentCycles units = [] ↔ Layers.Acyclic (parentsOf units) := by
  rw [describeParentCycles_eq_nil_iff_ranked hd]
  constructor
  · rintro ⟨rank, -, hrank⟩ a hloop
    obtain ⟨p, hp, -⟩ := Relation.TransGen.head'_iff.1 hloop
    exact Nat.lt_irrefl _ (rank_lt_of_after hrank hloop (ne_nil_of_mem hp))
  · intro ha
    have hrest := Layers.peel_rest_of_acyclic ha
      (Nat.le_refl ((parented units).map Prod.fst).length)
    obtain ⟨rank, hb, hrank⟩ := Layers.exists_rank_of_peel (parented_keys_nodup hd) hrest
    refine ⟨rank, fun k => (hb k).trans ?_, ?_⟩
    · rw [length_map]
      exact length_filterMap_le _ _
    · rintro ⟨k, p⟩ he
      obtain ⟨u, hu, rfl, hp, -⟩ := mem_parented.1 he
      exact hrank u.id (mem_map_of_mem he) p ((mem_parentsOf_key hd hu).2 hp)

structure TreeRules (units : List PlanItem) : Prop where
  resolves : ∀ u ∈ units, ∀ p, u.parentId = some p → p ∈ units.map PlanItem.id
  under_work : ∀ u ∈ units, ∀ p ∈ units, u.parentId = some p.id → p.kind ≠ .decision
  acyclic : Layers.Acyclic (parentsOf units)
  same_level : ∀ u ∈ units, ∀ d ∈ units, d.id ∈ u.dependencies → d.parentId = u.parentId

theorem describeMalformedTree_eq_nil_iff_rules (hd : Keyed.Distinct PlanItem.id units) :
    describeMalformedTree units = [] ↔ TreeRules units := by
  have hwork : ∀ p : PlanItem, p.kind = .work ↔ p.kind ≠ .decision := by
    intro p
    cases p.kind <;> simp
  rw [describeMalformedTree_eq_nil_iff hd]
  constructor
  · intro h
    refine ⟨h.forest.known, fun u hu p hp hup => (hwork p).1 (h.parent_is_work u hu p hp hup),
      ?_, h.same_level⟩
    rw [← describeParentCycles_eq_nil_iff_acyclic hd]
    exact (describeParentCycles_eq_nil_iff hd h.forest.known).2 h.forest.ranked
  · intro h
    refine ⟨⟨hd, h.resolves, ?_⟩,
      fun u hu p hp hup => (hwork p).2 (h.under_work u hu p hp hup), h.same_level⟩
    exact (describeParentCycles_eq_nil_iff hd h.resolves).1
      ((describeParentCycles_eq_nil_iff_acyclic hd).2 h.acyclic)

namespace PlanTree

variable {tree : PlanTree} {rank : String → Nat}

-- ==== the walks up

/-- RUN LEMMA of `depth`: past its rank the walk ends and has counted what is above. -/
theorem depthLoop_eq (hrank : ∀ x ∈ tree.items, ∀ p, x.parentId = some p → rank p < rank x.id)
    {fuel fuel' level : Nat} {current : Option String}
    (hfuel : ∀ k, current = some k → rank k < fuel)
    (hfuel' : ∀ k, current = some k → rank k < fuel') : tree.depthLoop fuel level current =
      some (level + Forest.depthFrom PlanItem.id PlanItem.parentId tree.items fuel' current) := by
  induction fuel generalizing fuel' level current with
  | zero =>
    cases current with
    | none => cases fuel' <;> rfl
    | some k => exact absurd (hfuel k rfl) (Nat.not_lt_zero _)
  | succ fuel ih =>
    cases current with
    | none => cases fuel' <;> rfl
    | some k =>
      cases fuel' with
      | zero => exact absurd (hfuel' k rfl) (Nat.not_lt_zero _)
      | succ fuel' =>
        have hlt := hfuel k rfl
        have hlt' := hfuel' k rfl
        have hf : ∀ p, tree.parentId k = some p → rank p < rank k := by
          intro p hp
          obtain ⟨u, hu, rfl, hup⟩ := exists_of_mem_parentsOf (mem_parentsOf.2 hp)
          exact hrank u hu p hup
        rw [depthLoop, @ih fuel' (level + 1) (tree.parentId k)]
        · show _ = some (level + (Forest.depthFrom _ _ _ _ (tree.parentId k) + 1))
          congr 1
          omega
        · intro p hp
          have h := hf p hp
          omega
        · intro p hp
          have h := hf p hp
          omega

/-- RUN LEMMA of `address`. -/
theorem addressLoop_eq (hrank : ∀ x ∈ tree.items, ∀ p, x.parentId = some p → rank p < rank x.id)
    {fuel fuel' : Nat} {k : String} {chain : List SubtreeStep}
    (hfuel : rank k < fuel) (hfuel' : rank k < fuel') : tree.addressLoop fuel chain (tree.byId k) =
      some ((Forest.chainFrom PlanItem.id PlanItem.parentId tree.items fuel' (some k)).map
        tree.step ++ chain.reverse) := by
  induction fuel generalizing fuel' k chain with
  | zero => exact absurd hfuel (Nat.not_lt_zero _)
  | succ fuel ih =>
    cases fuel' with
    | zero => exact absurd hfuel' (Nat.not_lt_zero _)
    | succ fuel' =>
      rw [Forest.chainFrom]
      cases hlook : tree.byId k with
      | none =>
        have hlook' : Keyed.lookup PlanItem.id tree.items k = none := hlook
        rw [hlook']
        rfl
      | some x =>
        have hlook' : Keyed.lookup PlanItem.id tree.items k = some x := hlook
        obtain ⟨hx, rfl⟩ := Keyed.lookup_mem hlook'
        rw [hlook', addressLoop]
        cases hp : x.parentId with
        | none =>
          cases fuel <;> cases fuel' <;> simp [addressLoop, Forest.chainFrom, hp]
        | some p =>
          have hlt := hrank x hx p hp
          rw [Option.bind_some, ih (by omega) (by omega : rank p < fuel')]
          simp [hp]

-- ==== the walk down

def block (tree : PlanTree) (height : Nat) (item : PlanItem) : List PlanItem :=
  Forest.postorder PlanItem.id PlanItem.parentId tree.items height (some item.id) ++ [item]

/-- RUN LEMMA of `_below`: a node on the stack leaves its subtree written out, the node last. -/
theorem belowLoop_eq (hbind : ∀ k, rank k ≤ tree.items.length)
    (hrank : ∀ x ∈ tree.items, ∀ p, x.parentId = some p → rank p < rank x.id)
    {height : Nat} {x : PlanItem} (hh : tree.items.length ≤ height + rank x.id)
    (fuel : Nat) (pending : List (PlanItem × Bool)) (ordered : List PlanItem) :
    tree.belowLoop (2 * (tree.block height x).length + fuel) ((x, false) :: pending) ordered =
      tree.belowLoop fuel pending (ordered ++ tree.block height x) := by
  induction height generalizing x fuel pending ordered with
  | zero =>
    have hleaf : tree.children x.id = [] := by
      rw [eq_nil_iff_forall_not_mem]
      intro c hc
      obtain ⟨hc, hp⟩ := mem_children.1 hc
      have hlt := hrank c hc _ hp
      have hle := hbind c.id
      omega
    have hlen : 2 * (tree.block 0 x).length + fuel = fuel + 1 + 1 := by
      simp [block, Forest.postorder]
      omega
    rw [hlen, belowLoop, hleaf]
    simp [belowLoop, block, Forest.postorder]
  | succ height ih =>
    -- the children's blocks, one after another
    have hl : ∀ (level : List PlanItem), (∀ c ∈ level, c ∈ tree.children x.id) →
        ∀ fuel pending ordered,
          tree.belowLoop (2 * (level.flatMap (tree.block height)).length + fuel)
              (level.map (fun child => (child, false)) ++ pending) ordered =
            tree.belowLoop fuel pending (ordered ++ level.flatMap (tree.block height)) := by
      intro level
      induction level with
      | nil =>
        intro _ fuel pending ordered
        simp
      | cons c rest ihl =>
        intro hl fuel pending ordered
        obtain ⟨hc, hp⟩ := mem_children.1 (hl c mem_cons_self)
        have hlt := hrank c hc _ hp
        have hlen : 2 * ((c :: rest).flatMap (tree.block height)).length + fuel =
            2 * (tree.block height c).length +
              (2 * (rest.flatMap (tree.block height)).length + fuel) := by
          rw [flatMap_cons, length_append]
          omega
        rw [hlen, map_cons, cons_append, ih (by omega),
          ihl (fun d hd => hl d (mem_cons_of_mem _ hd)), flatMap_cons,
          append_assoc]
    have hb : tree.block (height + 1) x =
        (tree.children x.id).flatMap (tree.block height) ++ [x] := rfl
    have hlen : 2 * (tree.block (height + 1) x).length + fuel =
        2 * ((tree.children x.id).flatMap (tree.block height)).length + (fuel + 1) + 1 := by
      rw [hb, length_append, length_singleton]
      omega
    rw [hlen, belowLoop, hl _ (fun _ hc => hc), belowLoop, hb, append_assoc]

/-- THE ASSEMBLY ORDER of a forest. -/
theorem deepestFirst_eq (h : Forest.IsForest PlanItem.id PlanItem.parentId tree.items)
    {fuel : Nat} (hfuel : 2 * tree.items.length ≤ fuel) : tree.deepestFirst fuel =
      some (Forest.postorder PlanItem.id PlanItem.parentId tree.items
        (tree.items.length + 1) none) := by
  obtain ⟨rank, hb, hrank⟩ := h.ranked
  have hwhile : Forest.postorder PlanItem.id PlanItem.parentId tree.items
      (tree.items.length + 1) none = tree.workstreams.flatMap (tree.block tree.items.length) :=
    rfl
  have hlen := h.postorder_perm.length_eq
  rw [hwhile] at hlen
  -- each workstream's block is part of the whole, so the fuel is enough for it
  have hone : ∀ w ∈ tree.workstreams, tree.below fuel w =
      some (tree.block tree.items.length w) := by
    intro w hw
    obtain ⟨before, after, hs⟩ := append_of_mem hw
    have hle : (tree.block tree.items.length w).length ≤ tree.items.length := by
      rw [hs] at hlen
      simp only [flatMap_append, flatMap_cons, length_append] at hlen
      omega
    obtain ⟨spare, rfl⟩ := Nat.exists_eq_add_of_le ((Nat.mul_le_mul_left 2 hle).trans hfuel)
    unfold below
    rw [belowLoop_eq hb hrank (Nat.le_add_right _ _)]
    simp [belowLoop]
  have hfold : ∀ (level ordered : List PlanItem), (∀ w ∈ level, w ∈ tree.workstreams) →
      level.foldlM (fun ordered workstream =>
        (tree.below fuel workstream).map (ordered ++ ·)) ordered =
          some (ordered ++ level.flatMap (tree.block tree.items.length)) := by
    intro level
    induction level with
    | nil =>
      intro ordered _
      simp
    | cons w rest ih =>
      intro ordered hl
      rw [foldlM_cons, hone w (hl w mem_cons_self)]
      show rest.foldlM _ (ordered ++ _) = _
      rw [ih _ fun v hv => hl v (mem_cons_of_mem _ hv), flatMap_cons, append_assoc]
  unfold deepestFirst
  rw [hfold _ _ fun _ hw => hw, nil_append, hwhile]

end PlanTree

-- ==== what is accepted

structure Walked (items : List PlanItem) : Prop where
  deepest_first : ∃ order,
    (∀ fuel, 2 * items.length ≤ fuel → (PlanTree.of items).deepestFirst fuel = some order) ∧
      order.Perm items ∧
        ∀ pre x post, order = pre ++ x :: post → ∀ n, ∀ y ∈ items,
          Forest.Hangs PlanItem.id PlanItem.parentId items n (some x.id) y → y ∈ pre
  depth : ∀ id fuel, items.length < fuel →
    (PlanTree.of items).depthWalk fuel id = some ((PlanTree.of items).depth id)
  address : ∀ id fuel, items.length < fuel →
    (PlanTree.of items).addressWalk fuel id = some ((PlanTree.of items).address id)

theorem walked_of_isForest {items : List PlanItem}
    (h : Forest.IsForest PlanItem.id PlanItem.parentId items) : Walked items := by
  obtain ⟨rank, hb, hrank⟩ := h.ranked
  refine ⟨⟨_, fun fuel hfuel => PlanTree.deepestFirst_eq h hfuel, h.postorder_perm, ?_⟩,
    fun id fuel hfuel => ?_, fun id fuel hfuel => ?_⟩
  · intro pre x post ho n y hy hh
    exact h.below_first ho hy hh
  · have hall : ∀ k, rank k < fuel := fun k => (hb k).trans_lt hfuel
    unfold PlanTree.depthWalk
    rw [@PlanTree.depthLoop_eq (PlanTree.of items) rank hrank fuel _ 0 _ (fun k _ => hall k)
      (fun k _ => Nat.lt_succ_of_le (hb k)), Nat.zero_add]
    rfl
  · unfold PlanTree.addressWalk
    rw [@PlanTree.addressLoop_eq (PlanTree.of items) rank hrank fuel _ id []
      ((hb id).trans_lt hfuel)
      (Nat.lt_succ_of_le ((hb id).trans (Nat.le_succ _))), reverse_nil,
      append_nil]
    rfl

/-- WELL-FORMED PLANS: the containment rules find nothing exactly on a forest of work, either
kind of cycle is found exactly where there is one, and on an accepted list every walk ends, the
assembly order with each item once and after its whole subtree. -/
theorem wellFormed_plans_walk : (∀ units : List PlanItem, Keyed.Distinct PlanItem.id units →
      (describeMalformedTree units = [] ↔ TreeRules units) ∧
        (describeParentCycles units = [] ↔ Layers.Acyclic (parentsOf units)) ∧
          ((∀ u ∈ units, ∀ d ∈ u.dependencies, d ∈ units.map PlanItem.id) →
            (cyclicItems units = [] ↔ Layers.Acyclic (dependenciesOf units)))) ∧
      ∀ p : Plan, checkGraph p = .ok () → Walked p.items := by
  refine ⟨fun units hdistinct => ⟨?_, ?_, ?_⟩, fun p hp => ?_⟩
  · exact describeMalformedTree_eq_nil_iff_rules hdistinct
  · exact describeParentCycles_eq_nil_iff_acyclic hdistinct
  · exact cyclicItems_eq_nil_iff hdistinct
  · exact walked_of_isForest ((checkGraph_ok_iff p).1 hp).2.contained.forest

def splitWorkstream : List PlanItem :=
  [{ id := "site", title := "Site", description := "The site.", acceptanceCriteria := ["up"] },
    { id := "page", title := "Page", description := "A page.", acceptanceCriteria := ["up"],
      parentId := some "site" },
    { id := "links", title := "Links", description := "Its links.",
      acceptanceCriteria := ["up"], parentId := some "site", dependencies := ["page"] }]

def splitPlan : Plan where
  id := ⟨"5f0c2a91-7d34-4be8-9a16-c2e80b7f4d53", by decide⟩
  project := "atlas"
  projectName := "Atlas"
  objectiveId := "charter"
  objectiveTitle := "Ship the site"
  parentTaskId := "charter"
  items := splitWorkstream
  createdAt := 0
  updatedAt := 0

/-- It is a tree, and is assembled parts first. -/
theorem wellFormed_plans_walk_split :
    TreeRules splitWorkstream ∧ Layers.Acyclic (dependenciesOf splitWorkstream) ∧
      Walked splitPlan.items ∧
        ((PlanTree.of splitWorkstream).deepestFirst 6).map (List.map PlanItem.id) =
          some ["page", "links", "site"] :=
  have hdistinct : Keyed.Distinct PlanItem.id splitWorkstream := by
    unfold Keyed.Distinct
    decide
  have h := wellFormed_plans_walk.1 splitWorkstream hdistinct
  ⟨h.1.1 (by decide), (h.2.2 (by decide)).1 (by decide),
    wellFormed_plans_walk.2 splitPlan (by decide), by decide⟩

end Synthorg.Core
