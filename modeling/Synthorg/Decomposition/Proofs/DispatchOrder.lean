/-
The flattened dispatch order.

`dispatch_subtasks` turns a tree of acyclic levels into one flat graph with
two rewrites that pull in opposite directions: what a container waits on
travels DOWN to the entry nodes of its subtree, and a container waits on
its children, which points UP. `Gates` says of any graph that it agrees
with the view on one subtree, so the inductions never mention the root.

- `after_contained`: a container comes after all that hangs under it;
- `after_inherited`: all of a subtree comes after whatever the unit above
  it waits on, along the level's own order to an entry node;
- `exists_settled_dispatch`: emitting, in each level's order, a unit's
  subtree and then the unit, settles the flat graph, so it has no cycle.
-/
import Synthorg.Decomposition.Service

namespace Synthorg.Decomposition

open List

section
open Synthorg.Core Lib

namespace DependencyGraph

variable {g : DependencyGraph}

-- ==== the counts

theorem countP_mem_cons {n : String} {rest : List String} (hn : n ∉ rest) (xs : List String) :
    xs.countP (· ∈ n :: rest) = xs.count n + xs.countP (· ∈ rest) := by
  induction xs with
  | nil => rfl
  | cons x xs ih =>
    rw [countP_cons, countP_cons, ih]
    by_cases hx : x = n
    · subst hx
      simp [hn]
      omega
    · simp [hx]
      omega

variable {ready : List String} {fuel : Nat} {state : InDegree × List String}

theorem sum_count_eq_countP {xs : List String} (hn : ready.Nodup) :
    (ready.map fun n => xs.count n).sum = xs.countP (· ∈ ready) := by
  induction ready with
  | nil => simp
  | cons n rest ih =>
    rw [nodup_cons] at hn
    rw [map_cons, sum_cons, ih hn.2, countP_mem_cons hn.1]

theorem count_adjacency (hdistinct : Keyed.Distinct SubtaskDefinition.id g.subtasks)
    (node k : String) :
    (g.adjacency node).count k = (g.dependencies k).count node := by
  unfold adjacency dependencies
  generalize g.subtasks = subtasks at hdistinct
  induction subtasks with
  | nil => simp [Keyed.edges, Keyed.lookup]
  | cons s rest ih =>
    unfold Keyed.Distinct at hdistinct
    rw [map_cons, nodup_cons] at hdistinct
    rw [flatMap_cons, count_append, ih hdistinct.2, Keyed.edges_cons]
    by_cases hk : s.id = k
    · have hrest : Keyed.edges SubtaskDefinition.id SubtaskDefinition.dependencies
          rest k = [] := Keyed.edges_of_not_mem (hk ▸ hdistinct.1)
      rw [if_pos hk, hrest, hk, map_const', count_replicate_self,
        count_nil, count_eq_countP, countP_eq_length_filter]
      rfl
    · rw [map_const', count_replicate]
      simp [hk]

theorem inDegree_eq (hdistinct : Keyed.Distinct SubtaskDefinition.id g.subtasks)
    (k : String) : g.inDegree k = (g.dependencies k).length := by
  unfold inDegree dependencies
  generalize g.subtasks = subtasks at hdistinct
  induction subtasks with
  | nil => simp [Keyed.edges, Keyed.lookup]
  | cons s rest ih =>
    unfold Keyed.Distinct at hdistinct
    rw [map_cons, nodup_cons] at hdistinct
    have hih := ih hdistinct.2
    rw [Keyed.edges_cons]
    by_cases hk : s.id = k
    · have hrest : Keyed.edges SubtaskDefinition.id SubtaskDefinition.dependencies
          rest k = [] := Keyed.edges_of_not_mem (hk ▸ hdistinct.1)
      rw [hrest] at hih
      rw [if_pos hk, filter_cons_of_pos (by simpa using hk)]
      simpa using hih
    · rw [if_neg hk, filter_cons_of_neg (by simpa using hk)]
      exact hih

theorem foldl_decrement (ids : List String) (degree : InDegree) (k : String) :
    ids.foldl decrement degree k = degree k - ids.count k := by
  induction ids generalizing degree with
  | nil => simp
  | cons id rest ih =>
    rw [foldl_cons, ih]
    unfold decrement
    by_cases hk : id = k
    · subst hk
      simp
      omega
    · rw [Function.update_of_ne (fun h => hk h.symm)]
      simp [hk]

theorem foldl_release (hdistinct : Keyed.Distinct SubtaskDefinition.id g.subtasks)
    (nodes : List String) (degree : InDegree) (k : String) :
    nodes.foldl g.release degree k =
      degree k - (nodes.map fun n => (g.dependencies k).count n).sum := by
  induction nodes generalizing degree with
  | nil => simp
  | cons n rest ih =>
    rw [foldl_cons, ih, map_cons, sum_cons]
    unfold release
    rw [foldl_decrement, count_adjacency hdistinct]
    omega

-- ==== parallel groups

/-- THE INVARIANT of the rounds: an in-degree counts the edges to units that
remain. -/
def CountsRemaining (g : DependencyGraph) (degree : InDegree) (remaining : List String) : Prop :=
  ∀ k ∈ remaining, degree k = (g.dependencies k).countP (· ∈ remaining)

variable {degree : InDegree} {remaining done : List String}

theorem CountsRemaining.zero_iff (h : CountsRemaining g degree remaining) {k : String}
    (hk : k ∈ remaining) : degree k = 0 ↔ ∀ d ∈ g.dependencies k, d ∉ remaining := by
  rw [h k hk]
  simp [countP_eq_zero]

/-- STEP LEMMA: a round keeps the invariant. -/
theorem CountsRemaining.round (hdistinct : Keyed.Distinct SubtaskDefinition.id g.subtasks)
    (h : CountsRemaining g degree remaining) (hn : ready.Nodup)
    (hsub : ∀ k ∈ ready, k ∈ remaining) : CountsRemaining g (ready.foldl g.release degree)
      (Layers.without remaining ready) := by
  intro k hk
  rw [Layers.mem_without] at hk
  rw [foldl_release hdistinct, h k hk.1, sum_count_eq_countP hn]
  have hs : (g.dependencies k).countP (· ∈ remaining) = (g.dependencies k).countP (· ∈ ready) +
        (g.dependencies k).countP (· ∈ Layers.without remaining ready) := by
    induction g.dependencies k with
    | nil => rfl
    | cons d rest ih =>
      simp only [countP_cons, ih, Layers.mem_without]
      by_cases hd : d ∈ ready
      · simp [hd, hsub d hd]
        omega
      · by_cases hr : d ∈ remaining <;> simp [hd, hr]
        omega
  omega

theorem CountsRemaining.mem_round (h : CountsRemaining g degree remaining) (k : String) :
    k ∈ (remaining.filter fun id => degree id = 0).insertionSort (· ≤ ·) ↔
      k ∈ Layers.ready g.dependencies remaining := by
  rw [mem_insertionSort, mem_filter, Layers.mem_ready, decide_eq_true_eq]
  exact and_congr_right fun hk => h.zero_iff hk

theorem nodup_round (hn : remaining.Nodup) :
    ((remaining.filter fun id => degree id = 0).insertionSort (· ≤ ·)).Nodup :=
  (perm_insertionSort _ _).nodup_iff.2 (hn.filter _)

/-- RUN LEMMA: on an acyclic graph the rounds end, and they are a layering. -/
theorem groupsLoop_layered (hdistinct : Keyed.Distinct SubtaskDefinition.id g.subtasks)
    (ha : Layers.Acyclic g.dependencies) (hc : CountsRemaining g degree remaining)
    (hn : remaining.Nodup) (hfuel : remaining.length ≤ fuel) :
    ∃ groups, g.groupsLoop fuel degree remaining = .ok groups ∧
      Layers.Layered g.dependencies remaining groups := by
  induction fuel generalizing degree remaining with
  | zero =>
    have hnil : remaining = [] := length_eq_zero_iff.1 (Nat.le_zero.1 hfuel)
    subst hnil
    exact ⟨[], rfl, .done⟩
  | succ fuel ih =>
    cases remaining with
    | nil => exact ⟨[], rfl, .done⟩
    | cons node others =>
      generalize hr : node :: others = remaining at *
      have hne : remaining ≠ [] := by
        rw [← hr]
        exact cons_ne_nil node others
      let ready := (remaining.filter fun id => degree id = 0).insertionSort (· ≤ ·)
      have hmem : ∀ k, k ∈ ready ↔ k ∈ Layers.ready g.dependencies remaining := hc.mem_round
      have hready : ready ≠ [] := by
        intro hnil
        apply hne
        apply Layers.eq_nil_of_ready_eq_nil ha
        rw [eq_nil_iff_forall_not_mem]
        intro k hk
        rw [← hmem, hnil] at hk
        exact absurd hk not_mem_nil
      have hread : ready.Nodup := nodup_round hn
      have hsub : ∀ k ∈ ready, k ∈ remaining := by
        intro k hk
        exact (Layers.mem_ready.1 ((hmem k).1 hk)).1
      have hrest : (Layers.without remaining ready).length ≤ fuel := by
        obtain ⟨k, hk⟩ := exists_mem_of_ne_nil ready hready
        have hlt : (Layers.without remaining ready).length < remaining.length := by
          unfold Layers.without
          rw [length_filter_lt_length_iff_exists]
          exact ⟨k, hsub k hk, by simpa using hk⟩
        omega
      obtain ⟨groups, hg, hl⟩ := ih (hc.round hdistinct hread hsub) (hn.filter _) hrest
      refine ⟨ready :: groups, ?_, .layer remaining ready groups hmem hread hl⟩
      rw [← hr]
      unfold groupsLoop
      rw [hr, if_neg hready]
      rw [show g.groupsLoop fuel (ready.foldl g.release degree)
        (remaining.filter (· ∉ ready)) = .ok groups from hg]
      rfl

theorem checkMissingReferences_ok
    (hk : ∀ s ∈ g.subtasks, ∀ d ∈ s.dependencies, d ∈ g.subtaskIds) :
    g.checkMissingReferences = .ok () := by
  unfold checkMissingReferences checkReferences
  simp only [requireAll_ok_iff, require_ok_iff]
  exact hk

theorem countsRemaining_start (hdistinct : Keyed.Distinct SubtaskDefinition.id g.subtasks)
    (hknown : ∀ s ∈ g.subtasks, ∀ d ∈ s.dependencies, d ∈ g.subtaskIds) :
    CountsRemaining g g.inDegree g.subtaskIds := by
  intro k hk
  obtain ⟨s, hs, rfl⟩ := mem_map.1 hk
  have hall : (g.dependencies s.id).countP (· ∈ g.subtaskIds) = (g.dependencies s.id).length := by
    rw [countP_eq_length]
    intro d hd
    unfold dependencies at hd
    rw [Keyed.edges_key hdistinct hs] at hd
    simpa using hknown s hs d hd
  rw [inDegree_eq hdistinct, hall]

theorem parallelGroups_layered (hdistinct : Keyed.Distinct SubtaskDefinition.id g.subtasks)
    (hk : ∀ s ∈ g.subtasks, ∀ d ∈ s.dependencies, d ∈ g.subtaskIds)
    (ha : Layers.Acyclic g.dependencies) : ∃ groups, g.parallelGroups = .ok groups ∧
      Layers.Layered g.dependencies g.subtaskIds groups := by
  have hids : g.subtaskIds.dedup = g.subtaskIds := List.Nodup.dedup hdistinct
  have hc := countsRemaining_start hdistinct hk
  obtain ⟨groups, hg, hl⟩ := groupsLoop_layered hdistinct ha hc hdistinct (Nat.le_refl _)
  refine ⟨groups, ?_, hl⟩
  unfold parallelGroups
  rw [checkMissingReferences_ok hk, hids, hg]
  rfl

-- ==== topological sort

/-- Discovering dependents lowers in-degrees as `decrement` does. -/
theorem foldl_discover_degree (ids : List String) (state : InDegree × List String) :
    (ids.foldl discover state).1 = ids.foldl decrement state.1 := by
  induction ids generalizing state with
  | nil => rfl
  | cons id rest ih =>
    rw [foldl_cons, ih]
    rfl

/-- One batch of dependents puts on the heap those whose last edge it was, each once. -/
theorem foldl_discover_heap (ids : List String) (state : InDegree × List String)
    (hcnt : ∀ k, (ids.count k : Int) ≤ state.1 k)
    (hheap : ∀ k ∈ state.2, state.1 k = 0) (hn : state.2.Nodup) :
    (∀ k, k ∈ (ids.foldl discover state).2 ↔
      k ∈ state.2 ∨ k ∈ ids ∧ state.1 k = ids.count k) ∧
      (ids.foldl discover state).2.Nodup := by
  induction ids generalizing state with
  | nil =>
    refine ⟨fun k => ?_, hn⟩
    simp
  | cons id rest ih =>
    have hid : 1 ≤ state.1 id := by
      have h := hcnt id
      rw [count_cons_self] at h
      omega
    have hnew : id ∉ state.2 := by
      intro hin
      have hzero := hheap id hin
      omega
    have hd : ∀ k, (discover state id).1 k = state.1 k - if k = id then 1 else 0 := by
      intro k
      show Function.update state.1 id (state.1 id - 1) k = _
      by_cases hk : k = id
      · subst hk
        simp
      · rw [Function.update_of_ne hk, if_neg hk]
        omega
    have hmem : ∀ k, k ∈ (discover state id).2 ↔
        k ∈ state.2 ∨ k = id ∧ (discover state id).1 id = 0 := by
      intro k
      show k ∈ (if (discover state id).1 id = 0 then
        state.2.orderedInsert (· ≤ ·) id else state.2) ↔ _
      split
      next hzero =>
        rw [or_comm]
        simp [hzero]
      next hzero => simp [hzero]
    have hstep : ∀ k, (rest.count k : Int) ≤ (discover state id).1 k := by
      intro k
      have h := hcnt k
      rw [count_cons] at h
      rw [hd]
      by_cases hk : k = id
      · subst hk
        simp only [beq_self_eq_true, if_true] at h ⊢
        omega
      · have hne : (id == k) = false := by simpa using fun heq => hk heq.symm
        rw [hne] at h
        rw [if_neg hk]
        simpa using h
    have hs : ∀ k ∈ (discover state id).2, (discover state id).1 k = 0 := by
      intro k hk
      rcases (hmem k).1 hk with hold | ⟨rfl, hzero⟩
      · have hk' : k ≠ id := fun heq => hnew (heq ▸ hold)
        rw [hd, if_neg hk', hheap k hold]
        omega
      · exact hzero
    have hstate : (discover state id).2.Nodup := by
      show (if (discover state id).1 id = 0 then
        state.2.orderedInsert (· ≤ ·) id else state.2).Nodup
      split
      next =>
        rw [(perm_orderedInsert _ _ _).nodup_iff, nodup_cons]
        exact ⟨hnew, hn⟩
      next => exact hn
    obtain ⟨ihmem, ihnodup⟩ := ih (discover state id) hstep hs hstate
    refine ⟨fun k => ?_, ihnodup⟩
    have hk := hd k
    rw [foldl_cons, ihmem, hmem, mem_cons, count_cons]
    by_cases heq : k = id
    · subst heq
      rw [if_pos rfl] at hk
      simp only [hnew, false_or, true_and, true_or, beq_self_eq_true, if_true]
      by_cases hin : k ∈ rest
      · have hleft := hstep k
        simp only [hin, true_and]
        omega
      · have hzero : rest.count k = 0 := count_eq_zero_of_not_mem hin
        omega
    · have hne : (id == k) = false := by simpa using fun h => heq h.symm
      simp [heq, hne, hk]

/-- THE INVARIANT of the sort: in-degrees count edges to units not `done`, the heap holds the
free ones. -/
structure SortInv (g : DependencyGraph) (done : List String)
    (state : InDegree × List String) : Prop where
  degree : ∀ k, state.1 k = (g.dependencies k).countP (· ∉ done)
  heap : ∀ k, k ∈ state.2 ↔ k ∈ g.subtaskIds ∧ k ∉ done ∧ state.1 k = 0
  nodup : state.2.Nodup
  closed : ∀ k ∈ done, ∀ d ∈ g.dependencies k, d ∈ done

/-- STEP LEMMA: popping a unit keeps the invariant, with the unit done. -/
theorem SortInv.pop (hdistinct : Keyed.Distinct SubtaskDefinition.id g.subtasks) {node : String}
    {heap : List String} (h : SortInv g done (degree, node :: heap)) :
    SortInv g (node :: done) ((g.adjacency node).foldl discover (degree, heap)) := by
  obtain ⟨hnode, hn, hzero⟩ := (h.heap node).1 mem_cons_self
  have hfree : ∀ d ∈ g.dependencies node, d ∈ done := by
    have hcnt := h.degree node
    rw [hzero] at hcnt
    have hcnt' : (g.dependencies node).countP (· ∉ done) = 0 := by
      exact_mod_cast hcnt.symm
    simpa [countP_eq_zero] using hcnt'
  have hp := h.nodup
  rw [nodup_cons] at hp
  have hdrop : ∀ k, (g.dependencies k).countP (· ∉ done) = (g.dependencies k).count node +
        (g.dependencies k).countP (· ∉ node :: done) := by
    intro k
    induction g.dependencies k with
    | nil => rfl
    | cons d rest ih =>
      simp only [countP_cons, ih]
      by_cases hd : d = node
      · subst hd
        simp [hn]
        omega
      · by_cases hdone : d ∈ done <;> simp [hd, hdone]
        omega
  have he : ∀ k, ((g.adjacency node).foldl discover (degree, heap)).1 k =
      (g.dependencies k).countP (· ∉ node :: done) := by
    intro k
    rw [foldl_discover_degree, foldl_decrement, count_adjacency hdistinct, h.degree k, hdrop k]
    omega
  obtain ⟨hmem, hh⟩ := foldl_discover_heap (g.adjacency node) (degree, heap)
    (by
      intro k
      have hk : degree k = _ := h.degree k
      show ((g.adjacency node).count k : Int) ≤ degree k
      rw [count_adjacency hdistinct, hk, hdrop k]
      omega)
    (fun k hk => ((h.heap k).1 (mem_cons_of_mem node hk)).2.2) hp.2
  refine ⟨he, ?_, hh, ?_⟩
  · intro k
    rw [hmem, he, mem_cons, not_or]
    have hk : degree k = _ := h.degree k
    have hs := hdrop k
    have ha : k ∈ g.adjacency node ↔ 0 < (g.dependencies k).count node := by
      rw [← count_adjacency hdistinct, count_pos_iff]
    rw [ha, count_adjacency hdistinct]
    constructor
    · rintro (hold | ⟨hpos, hlast⟩)
      · obtain ⟨hids, hdone, hzero'⟩ := (h.heap k).1 (mem_cons_of_mem node hold)
        refine ⟨hids, ⟨?_, hdone⟩, ?_⟩
        · exact fun heq => hp.1 (heq ▸ hold)
        · have hzero'' : degree k = 0 := hzero'
          omega
      · have hedge : node ∈ g.dependencies k := count_pos_iff.1 hpos
        refine ⟨?_, ⟨?_, ?_⟩, ?_⟩
        · by_contra hout
          rw [show g.dependencies k = [] from Keyed.edges_of_not_mem hout] at hedge
          exact absurd hedge not_mem_nil
        · rintro rfl
          exact hn (hfree k hedge)
        · exact fun hdone => hn (h.closed k hdone node hedge)
        · have hlast' : degree k = _ := hlast
          omega
    · rintro ⟨hids, ⟨hne, hdone⟩, hleft⟩
      by_cases hzero' : degree k = 0
      · refine .inl ?_
        have hin := (h.heap k).2 ⟨hids, hdone, hzero'⟩
        exact (mem_cons.1 hin).resolve_left hne
      · have hlast : degree k = (g.dependencies k).count node := by omega
        exact .inr ⟨by omega, hlast⟩
  · intro k hk d hd
    rcases mem_cons.1 hk with rfl | hk
    · exact mem_cons_of_mem _ (hfree d hd)
    · exact mem_cons_of_mem _ (h.closed k hk d hd)

theorem SortInv.done_of_empty (h : SortInv g done state)
    (hc : Layers.Closed g.dependencies g.subtaskIds) (ha : Layers.Acyclic g.dependencies)
    (hheap : state.2 = []) : ∀ k ∈ g.subtaskIds, k ∈ done := by
  have hp : g.subtaskIds.filter (· ∉ done) = [] := by
    apply Layers.eq_nil_of_ready_eq_nil ha
    rw [eq_nil_iff_forall_not_mem]
    intro k hk
    rw [Layers.mem_ready, mem_filter] at hk
    obtain ⟨⟨hids, hdone⟩, hfree⟩ := hk
    have hin : k ∈ state.2 := by
      rw [h.heap k, h.degree k]
      refine ⟨hids, by simpa using hdone, ?_⟩
      rw [Nat.cast_eq_zero, countP_eq_zero]
      intro d hd
      have hout := hfree d hd
      simpa [hc k hids d hd] using hout
    rw [hheap] at hin
    exact absurd hin not_mem_nil
  intro k hk
  rw [filter_eq_nil_iff] at hp
  simpa using hp k hk

theorem none_left (hall : ∀ k ∈ g.subtaskIds, k ∈ done) (k : String) :
    k ∈ ([] : List String) ↔ k ∈ g.subtaskIds ∧ k ∉ done := by
  constructor
  · intro hk
    cases hk
  · rintro ⟨hids, hnot⟩
    exact absurd (hall k hids) hnot

section
variable (hdistinct : Keyed.Distinct SubtaskDefinition.id g.subtasks)
include hdistinct

/-- RUN LEMMA: on an acyclic graph the sort emits every unit left, once and in order. -/
theorem sortLoop_settled
    (hc : Layers.Closed g.dependencies g.subtaskIds) (ha : Layers.Acyclic g.dependencies)
    (h : SortInv g done state) (hfuel : (g.subtaskIds.filter (· ∉ done)).length ≤ fuel) :
    Layers.Settled g.dependencies done (g.sortLoop fuel state) ∧
      (g.sortLoop fuel state).Nodup ∧
      ∀ k, k ∈ g.sortLoop fuel state ↔ k ∈ g.subtaskIds ∧ k ∉ done := by
  induction fuel generalizing done state with
  | zero =>
    have hnil : g.subtaskIds.filter (· ∉ done) = [] := length_eq_zero_iff.1 (Nat.le_zero.1 hfuel)
    rw [filter_eq_nil_iff] at hnil
    refine ⟨trivial, nodup_nil, none_left fun k hk => ?_⟩
    simpa using hnil k hk
  | succ fuel ih =>
    obtain ⟨degree, heap⟩ := state
    cases heap with
    | nil => exact ⟨trivial, nodup_nil, none_left (h.done_of_empty hc ha rfl)⟩
    | cons node heap =>
      obtain ⟨hnode, hn, hzero⟩ := (h.heap node).1 mem_cons_self
      have hpop := h.pop hdistinct
      have hf : (g.subtaskIds.filter (· ∉ node :: done)).length ≤ fuel := by
        have hs : g.subtaskIds.filter (· ∉ node :: done) =
            (g.subtaskIds.filter (· ∉ done)).filter (· ≠ node) := by
          rw [filter_filter]
          apply filter_congr
          intro k _
          simp
        have hlt : (g.subtaskIds.filter (· ∉ node :: done)).length <
            (g.subtaskIds.filter (· ∉ done)).length := by
          rw [hs, length_filter_lt_length_iff_exists]
          refine ⟨node, ?_, by simp⟩
          rw [mem_filter]
          exact ⟨hnode, by simpa using hn⟩
        omega
      obtain ⟨hsettled, hd, hmem⟩ := ih hpop hf
      have hfree : ∀ d ∈ g.dependencies node, d ∈ done := by
        have hcnt := h.degree node
        rw [hzero, eq_comm] at hcnt
        simpa using hcnt
      unfold sortLoop
      refine ⟨⟨hfree, hsettled⟩, ?_, fun k => ?_⟩
      · rw [nodup_cons]
        refine ⟨fun hin => ?_, hd⟩
        exact ((hmem node).1 hin).2 mem_cons_self
      · rw [mem_cons, hmem]
        by_cases hk : k = node
        · subst hk
          simp [hnode, hn]
        · simp [hk]

theorem sortInv_start : SortInv g [] (g.inDegree,
      (g.subtaskIds.filter fun id => g.inDegree id = 0).insertionSort (· ≤ ·)) := by
  refine ⟨?_, ?_, ?_, ?_⟩
  · intro k
    show g.inDegree k = _
    rw [inDegree_eq hdistinct]
    simp
  · intro k
    show k ∈ (g.subtaskIds.filter fun id => g.inDegree id = 0).insertionSort (· ≤ ·) ↔ _
    simp
  · exact (perm_insertionSort _ _).nodup_iff.2 (hdistinct.filter _)
  · intro k hk
    cases hk

theorem topologicalSort_settled (hknown : ∀ s ∈ g.subtasks, ∀ d ∈ s.dependencies, d ∈ g.subtaskIds)
    (ha : Layers.Acyclic g.dependencies) :
    ∃ order, g.topologicalSort = .ok order ∧ order.Perm g.subtaskIds ∧
      Layers.Settled g.dependencies [] order := by
  have hc : Layers.Closed g.dependencies g.subtaskIds := by
    intro k hk d hd
    obtain ⟨s, hs, rfl⟩ := mem_map.1 hk
    unfold dependencies at hd
    rw [Keyed.edges_key hdistinct hs] at hd
    exact hknown s hs d hd
  let heap := (g.subtaskIds.filter fun id => g.inDegree id = 0).insertionSort (· ≤ ·)
  have hstart : SortInv g [] (g.inDegree, heap) := sortInv_start hdistinct
  have hfuel : (g.subtaskIds.filter (· ∉ [])).length ≤ g.subtaskIds.length := length_filter_le _ _
  obtain ⟨hsettled, hn, hmem⟩ := sortLoop_settled hdistinct hc ha hstart hfuel
  have hperm : (g.sortLoop g.subtaskIds.length (g.inDegree, heap)).Perm g.subtaskIds := by
    refine (perm_ext_iff_of_nodup hn hdistinct).2 fun k => ?_
    rw [hmem]
    simp [subtaskIds]
  refine ⟨_, ?_, hperm, hsettled⟩
  unfold topologicalSort
  rw [checkMissingReferences_ok hknown]
  show (do
    require ((g.sortLoop g.subtaskIds.length (g.inDegree, heap)).length =
      g.subtaskIds.length) GraphError.cycle
    Except.ok (g.sortLoop g.subtaskIds.length (g.inDegree, heap))) = _
  rw [require, if_pos hperm.length_eq]
  rfl

end

end DependencyGraph

end

open Synthorg.Core Lib Layers

namespace DecompositionResult

def levelGraph (r : DecompositionResult) : DependencyGraph := ⟨r.plan.subtasks⟩

def dispatchGraph (r : DecompositionResult) : DependencyGraph := ⟨r.dispatchSubtasks⟩

def subtreeOf (l : DecompositionResult) (id : String) : List String :=
  id :: ((l.children.filter fun c => c.plan.parentTaskId = id).flatMap
    allSubtasks).map SubtaskDefinition.id

/-- `deps` is the flat graph's on the subtree `r`, gated behind `inherited`. -/
def Gates (deps : String → List String) (r : DecompositionResult)
    (inherited : List String) : Prop :=
  ∀ n ∈ r.dispatchAfter inherited, deps n.id = n.dependencies

variable {deps : String → List String} {r : DecompositionResult}
  {inherited : List String}

-- ==== reading a level

def parentOf (r : DecompositionResult) : String := r.plan.parentTaskId

variable {c : DecompositionResult} {a b : String}

theorem LevelValid.parent_mem (h : r.LevelValid) (hc : c ∈ r.children) :
    ∃ s ∈ r.plan.subtasks, s.id = c.plan.parentTaskId := by
  have hmem := (h.task_ids _).1 (h.children_known c hc)
  unfold subtaskIds at hmem
  rw [mem_map] at hmem
  exact hmem

variable {s : SubtaskDefinition} {w : String}

theorem LevelValid.waitsOnOf_eq (h : r.LevelValid) (hs : s ∈ r.plan.subtasks) :
    waitsOnOf r.plan.subtasks inherited s.id = waitsOn inherited s :=
  Keyed.edges_key h.plan_valid.distinct hs

theorem LevelValid.containedBy_eq (h : r.LevelValid) (hc : c ∈ r.children) :
    containedBy r.children c.plan.parentTaskId = c.subtaskIds :=
  @Keyed.edges_key _ _ _ parentOf r.children c subtaskIds h.children_distinct hc

theorem levelGraph_closed (h : r.LevelValid) : Closed r.levelGraph.dependencies r.subtaskIds := by
  intro k hk d hd
  obtain ⟨s, hs, rfl⟩ := mem_map.1 hk
  unfold levelGraph DependencyGraph.dependencies at hd
  rw [Keyed.edges_key h.plan_valid.distinct hs] at hd
  exact h.plan_valid.known s hs d hd

theorem LevelValid.of_waitsOn (h : r.LevelValid) (hab : WaitsOn r.levelGraph.dependencies a b) :
    ∃ s ∈ r.plan.subtasks, s.id = a ∧ b ∈ s.dependencies := by
  unfold WaitsOn levelGraph DependencyGraph.dependencies at hab
  by_cases ha : a ∈ r.subtaskIds
  · obtain ⟨s, hs, rfl⟩ := mem_map.1 ha
    rw [Keyed.edges_key h.plan_valid.distinct hs] at hab
    exact ⟨s, hs, rfl, hab⟩
  · rw [Keyed.edges_of_not_mem ha] at hab
    exact absurd hab not_mem_nil

-- ==== the flat graph

theorem map_id_dispatchAfter (hv : r.Valid) (inherited : List String) :
    (r.dispatchAfter inherited).map SubtaskDefinition.id =
      r.allSubtasks.map SubtaskDefinition.id := by
  induction hv generalizing inherited with
  | node r level below ih =>
    rw [dispatchAfter_eq, allSubtasks_eq, map_append, map_append, map_flatMap, map_flatMap]
    congr 1
    · unfold gatedUnits
      rw [map_map]
      rfl
    · apply flatMap_congr
      intro c hc
      exact ih c hc _

theorem Gates.own (h : Gates deps r inherited) (hs : s ∈ r.plan.subtasks) :
    deps s.id = waitsOn inherited s ++ containedBy r.children s.id := by
  apply h { s with dependencies := waitsOn inherited s ++ containedBy r.children s.id }
  rw [dispatchAfter_eq, mem_append]
  exact .inl (mem_map_of_mem hs)

theorem Gates.child (h : Gates deps r inherited) (hc : c ∈ r.children) :
    Gates deps c (waitsOnOf r.plan.subtasks inherited c.plan.parentTaskId) := by
  intro n hn
  apply h n
  rw [dispatchAfter_eq, mem_append, mem_flatMap]
  exact .inr ⟨c, hc, hn⟩

theorem Gates.contains (h : Gates deps r inherited) (hl : r.LevelValid) (hc : c ∈ r.children) :
    ∀ k ∈ c.subtaskIds, k ∈ deps c.plan.parentTaskId := by
  intro k hk
  obtain ⟨s, hs, hp⟩ := hl.parent_mem hc
  rw [← hp, h.own hs, mem_append, hp, hl.containedBy_eq hc]
  exact .inr hk

-- ==== upwards

theorem after_contained (hv : r.Valid) (hg : Gates deps r inherited)
    {container : String} (hcon : ∀ k ∈ r.subtaskIds, k ∈ deps container) :
    ∀ x ∈ r.allSubtasks, After deps container x.id := by
  induction hv generalizing inherited container with
  | node r level below ih =>
    intro x hx
    rcases mem_allSubtasks.1 hx with hown | ⟨c, hc, hb⟩
    · exact .single (hcon x.id (mem_map_of_mem hown))
    · obtain ⟨s, hs, hp⟩ := level.parent_mem hc
      have ha := ih c hc (hg.child hc) (hg.contains level hc) x hb
      rw [← hp] at ha
      exact .head (hcon s.id (mem_map_of_mem hs)) ha

-- ==== downwards

theorem after_inherited_own (hl : r.LevelValid) (ha : Acyclic r.levelGraph.dependencies)
    (hg : Gates deps r inherited) (hw : w ∈ inherited) :
    ∀ s ∈ r.plan.subtasks, After deps s.id w := by
  have hrest := peel_rest_of_acyclic ha (Nat.le_refl r.subtaskIds.length)
  obtain ⟨rank, -, hrank⟩ := exists_rank_of_peel hl.plan_valid.distinct hrest
  intro s hs
  induction hn : rank s.id using Nat.strong_induction_on generalizing s with
  | _ n ih =>
    have hown := hg.own hs
    by_cases he : s.dependencies = []
    · apply Relation.TransGen.single
      show w ∈ deps s.id
      rw [hown, mem_append, waitsOn, if_pos he]
      exact .inl hw
    · obtain ⟨d, hd⟩ := exists_mem_of_ne_nil _ he
      obtain ⟨t, ht, rfl⟩ := mem_map.1 (hl.plan_valid.known s hs d hd)
      have hedge : WaitsOn deps s.id t.id := by
        show t.id ∈ deps s.id
        rw [hown, mem_append, waitsOn, if_neg he]
        exact .inl hd
      have hlt : rank t.id < rank s.id := by
        apply hrank s.id (mem_map_of_mem hs)
        unfold levelGraph DependencyGraph.dependencies
        rw [Keyed.edges_key hl.plan_valid.distinct hs]
        exact hd
      exact .head hedge (ih (rank t.id) (hn ▸ hlt) t ht rfl)

theorem after_inherited (hv : r.Valid)
    (ha : ∀ l ∈ r.levels, Acyclic l.levelGraph.dependencies) (hg : Gates deps r inherited)
    (hw : w ∈ inherited) : ∀ x ∈ r.allSubtasks, After deps x.id w := by
  induction hv generalizing inherited w with
  | node r level below ih =>
    have hhere := after_inherited_own level (ha r (mem_levels.2 (.inl rfl))) hg hw
    intro x hx
    rcases mem_allSubtasks.1 hx with hown | ⟨c, hc, hb⟩
    · exact hhere x hown
    · obtain ⟨s, hs, hp⟩ := level.parent_mem hc
      have hchild := hg.child hc
      rw [← hp, level.waitsOnOf_eq hs, waitsOn] at hchild
      have hlevels : ∀ l ∈ c.levels, Acyclic l.levelGraph.dependencies := by
        intro l hl
        exact ha l (mem_levels.2 (.inr ⟨c, hc, hl⟩))
      split at hchild
      next => exact ih c hc hlevels hchild hw x hb
      next he =>
        obtain ⟨d, hd⟩ := exists_mem_of_ne_nil _ he
        obtain ⟨t, ht, rfl⟩ := mem_map.1 (level.plan_valid.known s hs d hd)
        exact (ih c hc hlevels hchild hd x hb).trans (hhere t ht)

theorem after_edge (hv : r.Valid) (ha : ∀ l ∈ r.levels, Acyclic l.levelGraph.dependencies)
    (hg : Gates deps r inherited) (hab : WaitsOn r.levelGraph.dependencies a b) :
    ∀ x ∈ r.subtreeOf a, ∀ y ∈ r.subtreeOf b, After deps x y := by
  obtain ⟨s, hs, rfl, hb⟩ := hv.level.of_waitsOn hab
  have hw : waitsOn inherited s = s.dependencies := by
    exact if_neg (ne_nil_of_mem hb)
  have hfrom : ∀ x ∈ r.subtreeOf s.id, After deps x b := by
    intro x hx
    rcases mem_cons.1 hx with rfl | hx
    · apply Relation.TransGen.single
      show b ∈ deps s.id
      rw [hg.own hs, mem_append, hw]
      exact .inl hb
    · obtain ⟨u, hu, rfl⟩ := mem_map.1 hx
      obtain ⟨c, hc, hbelow⟩ := mem_flatMap.1 hu
      obtain ⟨hmem, hp⟩ := mem_filter.1 hc
      have hchild := hg.child hmem
      rw [decide_eq_true_eq] at hp
      rw [hp, hv.level.waitsOnOf_eq hs, hw] at hchild
      have hlevels : ∀ l ∈ c.levels, Acyclic l.levelGraph.dependencies := by
        intro l hl
        exact ha l (mem_levels.2 (.inr ⟨c, hmem, hl⟩))
      exact after_inherited (hv.child hmem) hlevels hchild hb u hbelow
  intro x hx y hy
  rcases mem_cons.1 hy with rfl | hy
  · exact hfrom x hx
  · obtain ⟨u, hu, rfl⟩ := mem_map.1 hy
    obtain ⟨c, hc, hbelow⟩ := mem_flatMap.1 hu
    obtain ⟨hmem, hp⟩ := mem_filter.1 hc
    rw [decide_eq_true_eq] at hp
    have hcontained := after_contained (hv.child hmem) (hg.child hmem)
      (hg.contains hv.level hmem) u hbelow
    rw [hp] at hcontained
    exact (hfrom x hx).trans hcontained

theorem after_level (hv : r.Valid)
    (ha : ∀ l ∈ r.levels, Acyclic l.levelGraph.dependencies) (hg : Gates deps r inherited)
    (hab : After r.levelGraph.dependencies a b) :
    ∀ x ∈ r.subtreeOf a, ∀ y ∈ r.subtreeOf b, After deps x y := by
  induction hab with
  | single hedge => exact after_edge hv ha hg hedge
  | tail _ hedge ih =>
    intro x hx y hy
    have hmid := ih x hx _ mem_cons_self
    exact hmid.trans (after_edge hv ha hg hedge _ mem_cons_self y hy)

theorem gates_levels (hvalid : r.Valid) (hg : Gates deps r inherited)
    {l : DecompositionResult} (hl : l ∈ r.levels) :
    ∃ inherited, Gates deps l inherited ∧ l.Valid ∧ ∀ m ∈ l.levels, m ∈ r.levels := by
  induction hvalid generalizing inherited with
  | node r level below ih =>
    rcases mem_levels.1 hl with rfl | ⟨c, hc, hin⟩
    · exact ⟨inherited, hg, .node _ level below, fun m hm => hm⟩
    · obtain ⟨i, hi, hv, hsub⟩ := ih c hc (hg.child hc) hin
      exact ⟨i, hi, hv, fun m hm => mem_levels.2 (.inr ⟨c, hc, hsub m hm⟩)⟩

-- ==== linearisation

theorem mem_subtreeOf {u k : String} :
    k ∈ r.subtreeOf u ↔ k = u ∨ ∃ c ∈ r.children, c.plan.parentTaskId = u ∧
      k ∈ c.allSubtasks.map SubtaskDefinition.id := by
  unfold subtreeOf
  simp only [mem_cons, mem_map, mem_flatMap, mem_filter, decide_eq_true_eq]
  constructor
  · rintro (rfl | ⟨s, ⟨c, ⟨hc, hp⟩, hs⟩, rfl⟩)
    · exact .inl rfl
    · exact .inr ⟨c, hc, hp, s, hs, rfl⟩
  · rintro (rfl | ⟨c, hc, hp, s, hs, rfl⟩)
    · exact .inl rfl
    · exact .inr ⟨s, ⟨c, ⟨hc, hp⟩, hs⟩, rfl⟩

theorem exists_settled_level (hl : r.LevelValid) (hg : Gates deps r inherited)
    (hb : ∀ c ∈ r.children, ∀ done,
      (∀ w ∈ waitsOnOf r.plan.subtasks inherited c.plan.parentTaskId, w ∈ done) →
      ∃ order, Settled deps done order ∧
        ∀ k, k ∈ order ↔ k ∈ c.allSubtasks.map SubtaskDefinition.id)
    {order doneHere done : List String}
    (hsettled : Settled r.levelGraph.dependencies doneHere order)
    (hunits : ∀ u ∈ order, u ∈ r.subtaskIds)
    (hhere : ∀ k ∈ doneHere, k ∈ done) (hi : ∀ w ∈ inherited, w ∈ done) :
    ∃ flat, Settled deps done flat ∧
      ∀ k, k ∈ flat ↔ ∃ u ∈ order, k ∈ r.subtreeOf u := by
  induction order generalizing doneHere done with
  | nil => exact ⟨[], trivial, fun k => by simp⟩
  | cons u rest ih =>
    obtain ⟨s, hs, rfl⟩ := mem_map.1 (hunits u mem_cons_self)
    have hr : ∀ w ∈ waitsOn inherited s, w ∈ done := by
      intro w hw
      unfold waitsOn at hw
      split at hw
      next => exact hi w hw
      next =>
        apply hhere
        apply hsettled.1
        unfold levelGraph DependencyGraph.dependencies
        rw [Keyed.edges_key hl.plan_valid.distinct hs]
        exact hw
    -- the subtree of `s`, when it was split
    have hsub : ∃ sub, Settled deps done sub ∧ (∀ k ∈ containedBy r.children s.id, k ∈ sub) ∧
        ∀ k, k ∈ sub ↔ ∃ c ∈ r.children, c.plan.parentTaskId = s.id ∧
          k ∈ c.allSubtasks.map SubtaskDefinition.id := by
      by_cases hsplit : ∃ c ∈ r.children, c.plan.parentTaskId = s.id
      · obtain ⟨c, hc, hp⟩ := hsplit
        obtain ⟨sub, hsub, hmem⟩ := hb c hc done (by
          rw [hp, hl.waitsOnOf_eq hs]
          exact hr)
        refine ⟨sub, hsub, ?_, fun k => ?_⟩
        · intro k hk
          rw [← hp, hl.containedBy_eq hc] at hk
          obtain ⟨t, ht, rfl⟩ := mem_map.1 hk
          rw [hmem]
          exact mem_map_of_mem (mem_allSubtasks.2 (.inl ht))
        · rw [hmem]
          constructor
          · intro hk
            exact ⟨c, hc, hp, hk⟩
          · rintro ⟨c', hc', hp', hk⟩
            have hdistinct : Keyed.Distinct parentOf r.children := hl.children_distinct
            have hsame := Keyed.eq_of_key hdistinct hc hc' (hp.trans hp'.symm)
            rw [hsame]
            exact hk
      · refine ⟨[], trivial, ?_, fun k => ?_⟩
        · intro k hk
          have hnone : s.id ∉ r.children.map fun c => c.plan.parentTaskId := by
            intro hin
            obtain ⟨c, hc, hp⟩ := mem_map.1 hin
            exact hsplit ⟨c, hc, hp⟩
          unfold containedBy at hk
          rw [Keyed.edges_of_not_mem hnone] at hk
          exact hk
        · constructor
          · intro hk
            cases hk
          · rintro ⟨c, hc, hp, -⟩
            exact absurd ⟨c, hc, hp⟩ hsplit
    obtain ⟨sub, hsub, hcontained, hsubmit⟩ := hsub
    have hself : ∀ d ∈ deps s.id, d ∈ sub ++ done := by
      intro d hd
      rw [hg.own hs, mem_append] at hd
      rw [mem_append]
      rcases hd with hd | hd
      · exact .inr (hr d hd)
      · exact .inl (hcontained d hd)
    have hhere' : ∀ k ∈ s.id :: doneHere, k ∈ s.id :: (sub ++ done) := by
      intro k hk
      rcases mem_cons.1 hk with rfl | hk
      · exact mem_cons_self
      · exact mem_cons_of_mem _ (mem_append_right _ (hhere k hk))
    obtain ⟨flat, hflat, hf⟩ := ih hsettled.2
      (fun u hu => hunits u (mem_cons_of_mem _ hu)) hhere'
      (fun w hw => mem_cons_of_mem _ (mem_append_right _ (hi w hw)))
    refine ⟨sub ++ s.id :: flat, hsub.append ⟨hself, hflat⟩, fun k => ?_⟩
    rw [mem_append, mem_cons, hsubmit, hf, exists_mem_cons_iff, mem_subtreeOf]
    exact or_left_comm.trans or_assoc.symm

/-- RUN LEMMA over the tree: the flat graph of a subtree has a settled order. -/
theorem exists_settled_dispatch (hv : r.Valid)
    (ha : ∀ l ∈ r.levels, Acyclic l.levelGraph.dependencies)
    (hg : Gates deps r inherited) (done : List String) (hi : ∀ w ∈ inherited, w ∈ done) :
    ∃ order, Settled deps done order ∧
      ∀ k, k ∈ order ↔ k ∈ r.allSubtasks.map SubtaskDefinition.id := by
  induction hv generalizing inherited done with
  | node r level below ih =>
    obtain ⟨order, hperm, hsettled⟩ := exists_settled
      (ha r (mem_levels.2 (.inl rfl))) level.plan_valid.distinct
      (levelGraph_closed level)
    obtain ⟨flat, hflat, hmem⟩ := exists_settled_level level hg
      (by
        intro c hc done hdone
        refine ih c hc ?_ (hg.child hc) done hdone
        intro l hl
        exact ha l (mem_levels.2 (.inr ⟨c, hc, hl⟩)))
      hsettled (fun u hu => hperm.mem_iff.1 hu) nofun hi
    refine ⟨flat, hflat, fun k => ?_⟩
    rw [hmem, allSubtasks_eq, map_append, mem_append]
    constructor
    · rintro ⟨u, hu, hk⟩
      rcases mem_subtreeOf.1 hk with rfl | ⟨c, hc, -, hk⟩
      · exact .inl (hperm.mem_iff.1 hu)
      · refine .inr ?_
        obtain ⟨t, ht, rfl⟩ := mem_map.1 hk
        exact mem_map_of_mem (mem_flatMap.2 ⟨c, hc, ht⟩)
    · rintro (hk | hk)
      · exact ⟨k, hperm.mem_iff.2 hk, mem_subtreeOf.2 (.inl rfl)⟩
      · obtain ⟨t, ht, rfl⟩ := mem_map.1 hk
        obtain ⟨c, hc, htc⟩ := mem_flatMap.1 ht
        obtain ⟨s, hs, hp⟩ := level.parent_mem hc
        refine ⟨s.id, hperm.mem_iff.2 (mem_map_of_mem hs), ?_⟩
        exact mem_subtreeOf.2 (.inr ⟨c, hc, hp.symm, mem_map_of_mem htc⟩)

-- ==== the flattened order

/-- What the flat view of a tree promises a dispatcher. -/
structure DispatchOrdered (r : DecompositionResult) : Prop where
  acyclic : Acyclic r.dispatchGraph.dependencies
  every_unit : r.dispatchGraph.subtaskIds = r.allSubtasks.map SubtaskDefinition.id
  once : r.dispatchGraph.subtaskIds.Nodup
  container_after : ∀ l ∈ r.levels, ∀ c ∈ l.children, ∀ x ∈ c.allSubtasks,
    After r.dispatchGraph.dependencies c.plan.parentTaskId x.id
  dependency_after : ∀ l ∈ r.levels, ∀ a b,
    After l.levelGraph.dependencies a b →
    ∀ x ∈ l.subtreeOf a, ∀ y ∈ l.subtreeOf b, After r.dispatchGraph.dependencies x y
  groups : ∃ groups, r.dispatchGraph.parallelGroups = .ok groups ∧
    groups.flatten.Perm r.dispatchGraph.subtaskIds ∧
    ∀ x y, After r.dispatchGraph.dependencies x y → layerOf groups y < layerOf groups x
  sorted : ∃ order, r.dispatchGraph.topologicalSort = .ok order ∧
    order.Perm r.dispatchGraph.subtaskIds ∧
    ∀ x y, After r.dispatchGraph.dependencies x y → order.idxOf y < order.idxOf x

theorem mem_of_after {x y : String} (h : After r.dispatchGraph.dependencies x y) :
    x ∈ r.dispatchGraph.subtaskIds := by
  obtain ⟨b, hb, -⟩ := Relation.TransGen.head'_iff.1 h
  by_contra hx
  have hnone : r.dispatchGraph.dependencies x = [] := Keyed.edges_of_not_mem hx
  rw [WaitsOn, hnone] at hb
  exact absurd hb not_mem_nil

theorem Valid.dispatchOrdered (hvalid : r.Valid)
    (hacyclic : ∀ l ∈ r.levels, Acyclic l.levelGraph.dependencies)
    (hu : (r.allSubtasks.map SubtaskDefinition.id).Nodup) : r.DispatchOrdered := by
  have hids : r.dispatchGraph.subtaskIds = r.allSubtasks.map SubtaskDefinition.id :=
    map_id_dispatchAfter hvalid []
  have hdistinct : Keyed.Distinct SubtaskDefinition.id r.dispatchGraph.subtasks := by
    show r.dispatchGraph.subtaskIds.Nodup
    rw [hids]
    exact hu
  have hg : Gates r.dispatchGraph.dependencies r [] := by
    intro n hn
    exact Keyed.edges_key hdistinct hn
  obtain ⟨settled, hsettled, hmem⟩ := exists_settled_dispatch hvalid hacyclic hg []
    (fun w hw => absurd hw not_mem_nil)
  have hin : ∀ k, k ∈ settled ↔ k ∈ r.dispatchGraph.subtaskIds := by
    intro k
    rw [hmem, hids]
  have hclosed : Closed r.dispatchGraph.dependencies settled := by
    intro a ha d hd
    exact (hsettled.closed a ha d hd).resolve_right not_mem_nil
  have hflat : Acyclic r.dispatchGraph.dependencies := by
    apply hsettled.rank.acyclic hclosed
    intro a ha
    exact Keyed.edges_of_not_mem fun hout => ha ((hin a).2 hout)
  have hk : ∀ s ∈ r.dispatchGraph.subtasks, ∀ d ∈ s.dependencies,
      d ∈ r.dispatchGraph.subtaskIds := by
    intro s hs d hd
    rw [← hin]
    apply hclosed s.id ((hin s.id).2 (mem_map_of_mem hs))
    rw [hg s hs]
    exact hd
  have hnodes : Closed r.dispatchGraph.dependencies r.dispatchGraph.subtaskIds := by
    intro a ha d hd
    exact (hin d).1 (hclosed a ((hin a).2 ha) d hd)
  refine
    { acyclic := hflat
      every_unit := hids
      once := hdistinct
      container_after := ?_
      dependency_after := ?_
      groups := ?_
      sorted := ?_ }
  · intro l hl c hc
    obtain ⟨i, hi, hv, -⟩ := gates_levels hvalid hg hl
    exact after_contained (hv.child hc) (hi.child hc) (hi.contains hv.level hc)
  · intro l hl a b hab
    obtain ⟨i, hi, hv, hsub⟩ := gates_levels hvalid hg hl
    exact after_level hv (fun m hm => hacyclic m (hsub m hm)) hi hab
  · obtain ⟨groups, hgroups, hlayered⟩ := DependencyGraph.parallelGroups_layered hdistinct hk hflat
    refine ⟨groups, hgroups, hlayered.perm hdistinct, fun x y hxy => ?_⟩
    exact (hlayered.rank hnodes).after_lt hnodes hxy (mem_of_after hxy)
  · obtain ⟨order, ho, hperm, hsort⟩ := DependencyGraph.topologicalSort_settled hdistinct hk hflat
    refine ⟨order, ho, hperm, fun x y hxy => ?_⟩
    have hclosed' : Closed r.dispatchGraph.dependencies order := by
      intro a ha d hd
      exact hperm.mem_iff.2 (hnodes a (hperm.mem_iff.1 ha) d hd)
    exact hsort.rank.after_lt hclosed' hxy (hperm.mem_iff.2 (mem_of_after hxy))

/-- DISPATCH ORDER: the flat view of a tree of acyclic levels runs every unit once, a container
after its subtree, and a subtree after the whole of any subtree its unit waits on. -/
theorem dispatch_ordered (r : DecompositionResult) (hvalid : r.Valid)
    (hacyclic : ∀ l ∈ r.levels, Acyclic l.levelGraph.dependencies)
    (hunique : (r.allSubtasks.map SubtaskDefinition.id).Nodup) :
    r.DispatchOrdered :=
  hvalid.dispatchOrdered hacyclic hunique

-- ==== a small tree

def draftId : Uuid := ⟨"5a0f7c11-93d2-4e6b-8b1a-2f4d6e8091a3", by decide⟩
def reviewId : Uuid := ⟨"b7c3e0d4-1f52-4a98-9c66-08d1a5b3f7e2", by decide⟩
def outlineId : Uuid := ⟨"e2918f6a-7d04-4cb3-a5f0-6b9c3d2e1f48", by decide⟩

def sampleUnit (id : Uuid) (dependencies : List String) : SubtaskDefinition where
  id := id.text
  title := "Unit"
  description := "A unit of the sample tree."
  dependencies := dependencies
  expectedArtifacts := ["notes"]

def sampleFields (id : Uuid) : TaskFields where
  id := id
  title := "Unit"
  description := "A unit of the sample tree."
  type := .development
  project := "atlas"
  createdBy := "planner"
  createdAt := 0

theorem draft_coherent : (sampleFields draftId).Coherent := by decide

theorem review_coherent : (sampleFields reviewId).Coherent := by decide

/-- The level the draft was split into. -/
def sampleChild : DecompositionResult :=
  .mk
    { parentTaskId := draftId.text
      subtasks := [sampleUnit outlineId []]
      taskStructure := .parallel }
    [⟨sampleFields outlineId, by decide⟩] [] 1 []

def sampleTree : DecompositionResult :=
  .mk
    { parentTaskId := "objective"
      subtasks := [sampleUnit draftId [], sampleUnit reviewId [draftId.text]]
      taskStructure := .sequential }
    [⟨_, draft_coherent⟩, ⟨_, review_coherent⟩]
    [(draftId.text, reviewId.text)] 0 [sampleChild]

theorem sampleTree_valid : sampleTree.Valid := by
  have hroot : sampleTree.LevelValid :=
    (check_ok_iff _ ((DecompositionPlan.check_ok_iff _).1 (by decide))).1 (by decide)
  have hchild : sampleChild.LevelValid :=
    (check_ok_iff _ ((DecompositionPlan.check_ok_iff _).1 (by decide))).1 (by decide)
  refine .node _ hroot fun c hc => ?_
  obtain rfl := mem_singleton.1 hc
  exact .node _ hchild fun d hd => absurd hd not_mem_nil

theorem sampleTree_acyclic : ∀ l ∈ sampleTree.levels, Acyclic l.levelGraph.dependencies := by
  let rank := fun k => if k = reviewId.text then 1 else 0
  intro l hl
  rcases mem_pair.1 hl with rfl | rfl
  · have hrank : Rank sampleTree.levelGraph.dependencies sampleTree.subtaskIds rank := by
      unfold Rank
      decide
    exact hrank.acyclic (by unfold Closed; decide) fun a ha => Keyed.edges_of_not_mem ha
  · have hrank : Rank sampleChild.levelGraph.dependencies sampleChild.subtaskIds rank := by
      unfold Rank
      decide
    exact hrank.acyclic (by unfold Closed; decide) fun a ha => Keyed.edges_of_not_mem ha

/-- `dispatch_ordered` at work on the small tree. -/
theorem dispatch_ordered_sample : sampleTree.DispatchOrdered :=
  dispatch_ordered sampleTree sampleTree_valid sampleTree_acyclic (by decide)

end DecompositionResult

end Synthorg.Decomposition
