/-
What the wave builder makes of a routing: which subtasks come out, in which
order, and in how many groups.

Two loops carry it. An assignment goes to the first round that lacks its agent, so the rounds are
as many as some agent has assignments. Blocking runs down the layers, and a layer's own units do
not block one another.
-/
import Synthorg.Coordination.WaveExecution
import Synthorg.Decomposition.Proofs.Agree

namespace Synthorg.Coordination

open Synthorg.Core Lib Decomposition Layers
open List

-- ==== rounds

variable {rounds layered : List (List AgentAssignment)} {placed : List AgentAssignment}
  {levels : List (List String)} {routing : RoutingResult} {r : DecompositionResult}
  {assignments : List AgentAssignment} {config : CoordinationConfig}

theorem mem_placeInRounds {a : AgentAssignment} {round : List AgentAssignment}
    (h : round ∈ placeInRounds a rounds) :
    round ∈ rounds ∨ round = [a] ∨ ∃ before ∈ rounds, round = before ++ [a] ∧
      a.agentId ∉ before.map AgentAssignment.agentId := by
  induction rounds with
  | nil => exact .inr (.inl (mem_singleton.1 h))
  | cons first rest ih =>
    rw [placeInRounds] at h
    split at h
    · rcases mem_cons.1 h with rfl | h
      · exact .inl mem_cons_self
      rcases ih h with h | h | ⟨before, hb, h⟩
      · exact .inl (mem_cons_of_mem _ h)
      · exact .inr (.inl h)
      · exact .inr (.inr ⟨before, mem_cons_of_mem _ hb, h⟩)
    next hfree =>
      rcases mem_cons.1 h with rfl | h
      · exact .inr (.inr ⟨first, mem_cons_self, rfl, hfree⟩)
      · exact .inl (mem_cons_of_mem _ h)

def agentIds (round : List AgentAssignment) : List String :=
  round.map AgentAssignment.agentId

@[simp] theorem agentIds_append (xs ys : List AgentAssignment) :
    agentIds (xs ++ ys) = agentIds xs ++ agentIds ys :=
  map_append

/-- THE INVARIANT of the rounds: none names an agent twice or is empty, and each one's agents
are in the round before. -/
structure Packed (placed : List AgentAssignment) (rounds : List (List AgentAssignment)) : Prop where
  holds : rounds.flatten.Perm placed
  once : ∀ round ∈ rounds, (agentIds round).Nodup
  filled : ∀ round ∈ rounds, round ≠ []
  nested : rounds.Pairwise fun earlier later => ∀ x ∈ agentIds later, x ∈ agentIds earlier

theorem placeInRounds_perm (a : AgentAssignment) (rounds : List (List AgentAssignment)) :
    (placeInRounds a rounds).flatten.Perm (rounds.flatten ++ [a]) := by
  induction rounds with
  | nil => exact .refl _
  | cons first rest ih =>
    rw [placeInRounds]
    split
    · rw [flatten_cons, flatten_cons, append_assoc]
      exact ih.append_left first
    · rw [flatten_cons, flatten_cons, append_assoc, append_assoc]
      exact perm_append_comm.append_left first

theorem placeInRounds_nested (a : AgentAssignment)
    (h : rounds.Pairwise fun earlier later => ∀ x ∈ agentIds later, x ∈ agentIds earlier) :
    (placeInRounds a rounds).Pairwise fun earlier later =>
      ∀ x ∈ agentIds later, x ∈ agentIds earlier := by
  induction rounds with
  | nil => exact pairwise_singleton _ _
  | cons first rest ih =>
    obtain ⟨hf, hrest⟩ := pairwise_cons.1 h
    rw [placeInRounds]
    split
    next hin =>
      refine pairwise_cons.2 ⟨fun later hl x hx => ?_, ih hrest⟩
      rcases mem_placeInRounds hl with hl | rfl | ⟨before, hb, rfl, -⟩
      · exact hf later hl x hx
      · obtain rfl := mem_singleton.1 hx
        exact hin
      · rw [agentIds_append, mem_append] at hx
        rcases hx with hx | hx
        · exact hf before hb x hx
        · obtain rfl := mem_singleton.1 hx
          exact hin
    · refine pairwise_cons.2 ⟨fun later hl x hx => ?_, hrest⟩
      have hx := hf later hl x hx
      rw [agentIds_append, mem_append]
      exact .inl hx

/-- STEP LEMMA: one more assignment placed. -/
theorem Packed.place (h : Packed placed rounds) (a : AgentAssignment) :
    Packed (placed ++ [a]) (placeInRounds a rounds) := by
  refine ⟨?_, fun round hr => ?_, fun round hr => ?_, placeInRounds_nested a h.nested⟩
  · exact (placeInRounds_perm a rounds).trans (h.holds.append_right [a])
  · rcases mem_placeInRounds hr with hr | rfl | ⟨before, hb, rfl, hfree⟩
    · exact h.once round hr
    · simp [agentIds]
    · rw [agentIds_append]
      exact nodup_append'.2 ⟨h.once before hb, nodup_singleton _, disjoint_singleton.2 hfree⟩
  · rcases mem_placeInRounds hr with hr | rfl | ⟨before, -, rfl, -⟩
    · exact h.filled round hr
    · exact cons_ne_nil _ _
    · simp

/-- RUN LEMMA: so `_rounds_by_agent` packs what it is given. -/
theorem packed_roundsByAgent (assignments : List AgentAssignment) :
    Packed assignments (roundsByAgent assignments) := by
  have hall : ∀ (rest placed : List AgentAssignment) (rounds : List (List AgentAssignment)),
      Packed placed rounds →
        Packed (placed ++ rest) (rest.foldl (fun rounds a => placeInRounds a rounds) rounds) := by
    intro rest
    induction rest with
    | nil =>
      intro placed rounds h
      simpa using h
    | cons a rest ih =>
      intro placed rounds h
      simpa using ih _ _ (h.place a)
  have hnone : Packed [] [] := ⟨.refl _, nofun, nofun, .nil⟩
  exact hall assignments [] [] hnone

def shareOf (agent : String) (assignments : List AgentAssignment) : Nat :=
  (agentIds assignments).count agent

theorem shareOf_flatten {agent : String} (hone : ∀ round ∈ rounds, (agentIds round).Nodup) :
    shareOf agent rounds.flatten = rounds.countP fun round => agent ∈ agentIds round := by
  induction rounds with
  | nil => rfl
  | cons round rest ih =>
    have hrest := ih fun later hl => hone later (mem_cons_of_mem _ hl)
    have hr := hone round mem_cons_self
    unfold shareOf at hrest ⊢
    rw [flatten_cons, agentIds_append, count_append, countP_cons]
    by_cases hin : agent ∈ agentIds round
    · rw [if_pos (decide_eq_true hin), count_eq_one_of_mem hr hin]
      omega
    · rw [if_neg (by rw [decide_eq_true_eq]; exact hin), count_eq_zero.2 hin]
      omega

theorem Packed.shareOf_le (h : Packed placed rounds) (agent : String) :
    shareOf agent placed ≤ rounds.length := by
  have hcnt : shareOf agent placed = shareOf agent rounds.flatten :=
    (h.holds.map _).symm.count_eq agent
  rw [hcnt, shareOf_flatten h.once]
  exact countP_le_length

theorem Packed.exists_shareOf (h : Packed placed rounds) (hne : placed ≠ []) :
    ∃ a ∈ placed, shareOf a.agentId placed = rounds.length := by
  have hrounds : rounds ≠ [] := by
    rintro rfl
    exact hne h.holds.nil_eq.symm
  obtain ⟨pre, last, rfl⟩ := eq_nil_or_concat rounds |>.resolve_left hrounds
  rw [concat_eq_append] at h ⊢
  have hlast : last ∈ pre ++ [last] := by simp
  obtain ⟨a, ha⟩ := exists_mem_of_ne_nil last (h.filled last hlast)
  refine ⟨a, h.holds.mem_iff.1 (mem_flatten.2 ⟨last, hlast, ha⟩), ?_⟩
  have hcnt : shareOf a.agentId placed = shareOf a.agentId (pre ++ [last]).flatten :=
    (h.holds.map _).symm.count_eq a.agentId
  rw [hcnt, shareOf_flatten h.once, countP_eq_length]
  intro round hr
  rcases mem_append.1 hr with hr | hr
  · have hin := (pairwise_append.1 h.nested).2.2 round hr last
      (mem_singleton_self _) a.agentId (mem_map_of_mem ha)
    exact decide_eq_true hin
  · obtain rfl := mem_singleton.1 hr
    exact decide_eq_true (mem_map_of_mem ha)

-- ==== what comes out

def RoutingResult.agentOf (routing : RoutingResult) (subtaskId : String) : Option String :=
  (Keyed.lookup RoutingDecision.subtaskId routing.decisions subtaskId).map
    RoutingDecision.agentId

def RoutingResult.Routed (routing : RoutingResult) (subtaskId : String) : Prop :=
  subtaskId ∈ routing.decisions.map RoutingDecision.subtaskId

theorem RoutingResult.lookup_eq_none_iff {subtaskId : String} :
    Keyed.lookup RoutingDecision.subtaskId routing.decisions subtaskId = none ↔
      ¬ routing.Routed subtaskId := by
  rw [Keyed.lookup_eq_none_iff]
  simp [RoutingResult.Routed]

/-- Its decisions and the units it reports unroutable name every unit of the tree, none twice. -/
structure RoutingResult.Over (routing : RoutingResult) (unroutable : List String)
    (r : DecompositionResult) : Prop where
  covers : (routing.decisions.map RoutingDecision.subtaskId ++ unroutable).Perm
    (r.allSubtasks.map SubtaskDefinition.id)
  unroutable_nodup : unroutable.Nodup
  disjoint : ∀ k ∈ unroutable, ¬ routing.Routed k

theorem RoutingResult.Over.unique {unroutable : List String} (h : routing.Over unroutable r) :
    (r.allSubtasks.map SubtaskDefinition.id).Nodup := by
  refine h.covers.nodup_iff.1 (nodup_append'.2 ⟨routing.distinct, h.unroutable_nodup, ?_⟩)
  intro k hr hout
  exact h.disjoint k hout hr

section Clear

variable (r : DecompositionResult) (routing : RoutingResult)

structure Clear (k : String) : Prop where
  unit : k ∈ r.dispatchGraph.subtaskIds
  routed : routing.Routed k
  behind : ∀ u, After r.dispatchGraph.dependencies k u → routing.Routed u

variable {r routing}

theorem clear_iff (hc : ∀ k, ∀ d ∈ r.dispatchGraph.dependencies k,
      d ∈ r.dispatchGraph.subtaskIds) {k : String} :
    Clear r routing k ↔ k ∈ r.dispatchGraph.subtaskIds ∧ routing.Routed k ∧
      ∀ d ∈ r.dispatchGraph.dependencies k, Clear r routing d := by
  constructor
  · intro h
    refine ⟨h.unit, h.routed, fun d hd => ⟨hc k d hd, ?_, fun u hu => ?_⟩⟩
    · exact h.behind d (.single hd)
    · exact h.behind u (.head hd hu)
  · rintro ⟨hunit, hr, hdeps⟩
    refine ⟨hunit, hr, fun u hu => ?_⟩
    obtain ⟨d, hd, hrest⟩ := Relation.TransGen.head'_iff.1 hu
    rcases Relation.reflTransGen_iff_eq_or_transGen.1 hrest with rfl | hrest
    · exact (hdeps u hd).routed
    · exact (hdeps d hd).behind u hrest

end Clear

-- ==== one layer

structure Assigned (r : DecompositionResult) (routing : RoutingResult) (ids : List String)
    (assignments : List AgentAssignment) : Prop where
  ordered : (assignments.map AgentAssignment.taskId).Sublist ids
  clear : ∀ k, k ∈ assignments.map AgentAssignment.taskId ↔ k ∈ ids ∧ Clear r routing k
  agents : ∀ a ∈ assignments, routing.agentOf a.taskId = some a.agentId

section Layer

variable {r : DecompositionResult} {routing : RoutingResult}
  {workspaces : List (String × String)}

variable {passed blockedIds : List String} {config : CoordinationConfig}
  {layers : List (List String)}

/-- A unit is turned away exactly when something it waits on is not clear. -/
theorem any_blocked_iff {k : String} (hdeps : ∀ d ∈ r.dispatchGraph.dependencies k, d ∈ passed)
    (hb : ∀ d ∈ passed, (d ∈ blockedIds ↔ ¬ Clear r routing d)) :
    ((dependencyMap r.dispatchSubtasks).get k).any (· ∈ blockedIds) = true ↔
      ∃ d ∈ r.dispatchGraph.dependencies k, ¬ Clear r routing d := by
  rw [any_eq_true]
  refine exists_congr fun d => and_congr_right fun hd => ?_
  rw [decide_eq_true_eq]
  exact hb d (hdeps d hd)

/-- LAYER LEMMA: a layer comes to its clear units, and blocks the others. -/
theorem waveAssignments_spec (hc : ∀ k, ∀ d ∈ r.dispatchGraph.dependencies k,
      d ∈ r.dispatchGraph.subtaskIds) {ids blockedIds' : List String}
    {assignments : List AgentAssignment} (hu : ∀ k ∈ ids, k ∈ r.dispatchGraph.subtaskIds)
    (hdeps : ∀ k ∈ ids, ∀ d ∈ r.dispatchGraph.dependencies k, d ∈ passed)
    (hf : ∀ k ∈ ids, k ∉ passed) (hb : ∀ d ∈ passed, (d ∈ blockedIds ↔ ¬ Clear r routing d))
    (hran : waveAssignments r routing workspaces ids blockedIds =
      .ok (assignments, blockedIds')) : Assigned r routing ids assignments ∧
      ∀ k, k ∈ blockedIds' ↔ k ∈ blockedIds ∨ k ∈ ids ∧ ¬ Clear r routing k := by
  induction ids generalizing blockedIds assignments with
  | nil =>
    cases hran
    exact ⟨⟨.slnil, by simp, by simp⟩, by simp⟩
  | cons id rest ih =>
    have hu' := fun k hk => hu k (mem_cons_of_mem _ hk)
    have hdeps' := fun k hk => hdeps k (mem_cons_of_mem _ hk)
    have hf' := fun k hk => hf k (mem_cons_of_mem _ hk)
    have hturn := any_blocked_iff (hdeps id mem_cons_self) hb
    -- a unit that is left out joins the blocked, and nothing passed is affected
    have hleft : ¬ Clear r routing id → waveAssignments r routing workspaces rest
        (id :: blockedIds) = .ok (assignments, blockedIds') →
        Assigned r routing (id :: rest) assignments ∧ ∀ k, k ∈ blockedIds' ↔
          k ∈ blockedIds ∨ k ∈ id :: rest ∧ ¬ Clear r routing k := by
      intro hnot hrest
      obtain ⟨hassigned, hmem⟩ := ih hu' hdeps' hf' (by
        intro d hd
        rw [mem_cons, ← hb d hd]
        refine ⟨fun h => h.resolve_left ?_, Or.inr⟩
        rintro rfl
        exact hf d mem_cons_self hd) hrest
      refine ⟨⟨hassigned.ordered.cons _, fun k => ?_, hassigned.agents⟩, fun k => ?_⟩
      · rw [hassigned.clear, mem_cons]
        refine ⟨fun h => ⟨.inr h.1, h.2⟩, fun h => ⟨h.1.resolve_left ?_, h.2⟩⟩
        rintro rfl
        exact hnot h.2
      · rw [hmem, mem_cons, mem_cons]
        constructor
        · rintro ((rfl | h) | h)
          · exact .inr ⟨.inl rfl, hnot⟩
          · exact .inl h
          · exact .inr ⟨.inr h.1, h.2⟩
        · rintro (h | ⟨rfl | h, hk⟩)
          · exact .inl (.inr h)
          · exact .inl (.inl rfl)
          · exact .inr ⟨h, hk⟩
    rw [waveAssignments] at hran
    split at hran
    next hany =>
      obtain ⟨d, hd, hnot⟩ := hturn.1 hany
      exact hleft (fun h => hnot (((clear_iff hc).1 h).2.2 d hd)) hran
    next hnone =>
      split at hran
      next hlook => exact hleft (fun h => RoutingResult.lookup_eq_none_iff.1 hlook h.routed) hran
      next decision hlook =>
        split at hran
        · cases hran
        next task htask =>
          obtain ⟨⟨more, blocked⟩, hrest, hran⟩ := (bind_ok_iff _ _ _).1 hran
          cases hran
          obtain ⟨hassigned, hmem⟩ := ih hu' hdeps' hf' hb hrest
          have hid : task.id.text = id := (Keyed.lookup_mem htask).2
          have hr : routing.Routed id := by
            obtain ⟨hin, hkey⟩ := Keyed.lookup_mem hlook
            exact hkey ▸ mem_map_of_mem hin
          have hclear : Clear r routing id := by
            refine (clear_iff hc).2 ⟨hu id mem_cons_self, hr, ?_⟩
            intro d hd
            by_contra hnot
            exact hnone (hturn.2 ⟨d, hd, hnot⟩)
          have ht : (AgentAssignment.mk decision.agentId (assignedTask task decision.agentId)
              ((Keyed.lookup Prod.fst workspaces id).map Prod.snd).toList).taskId = id := hid
          refine ⟨⟨?_, fun k => ?_, ?_⟩, fun k => ?_⟩
          · rw [map_cons, ht]
            exact hassigned.ordered.cons_cons id
          · rw [map_cons, ht, mem_cons, mem_cons, hassigned.clear]
            constructor
            · rintro (rfl | h)
              · exact ⟨.inl rfl, hclear⟩
              · exact ⟨.inr h.1, h.2⟩
            · rintro ⟨rfl | h, hk⟩
              · exact .inl rfl
              · exact .inr ⟨h, hk⟩
          · intro a ha
            rcases mem_cons.1 ha with rfl | ha
            · rw [ht, RoutingResult.agentOf, hlook]
              rfl
            · exact hassigned.agents a ha
          · rw [hmem, mem_cons]
            refine or_congr_right ⟨fun h => ⟨.inr h.1, h.2⟩, fun h => ⟨?_, h.2⟩⟩
            refine h.1.resolve_left ?_
            rintro rfl
            exact h.2 hclear

theorem waveAssignments_total {ids : List String}
    (htasks : ∀ k ∈ ids, ∃ t ∈ r.allTasks, t.id.text = k) (blockedIds : List String) :
    ∃ out, waveAssignments r routing workspaces ids blockedIds = .ok out := by
  induction ids generalizing blockedIds with
  | nil => exact ⟨_, rfl⟩
  | cons id rest ih =>
    have hrest := ih fun k hk => htasks k (mem_cons_of_mem _ hk)
    rw [waveAssignments]
    split
    · exact hrest _
    · split
      · exact hrest _
      · split
        next hnone =>
          obtain ⟨t, ht, hid⟩ := htasks id mem_cons_self
          exact absurd hid (Keyed.lookup_eq_none_iff.1 hnone t ht)
        next =>
          obtain ⟨out, hout⟩ := hrest blockedIds
          rw [hout]
          exact ⟨_, rfl⟩

-- ==== the layers

def groupsOf (config : CoordinationConfig) :
    Nat → List (List AgentAssignment) → List ParallelExecutionGroup
  | _, [] => []
  | waveIdx, assignments :: rest =>
    waveGroups config waveIdx assignments ++ groupsOf config (waveIdx + 1) rest

/-- RUN LEMMA: over a layering every layer comes to its clear units. -/
theorem groupsFrom_spec
    (hc : ∀ k, ∀ d ∈ r.dispatchGraph.dependencies k, d ∈ r.dispatchGraph.subtaskIds)
    {pending : List String} (hl : Layered r.dispatchGraph.dependencies pending layers)
    {waveIdx : Nat} {groups : List ParallelExecutionGroup}
    (hall : ∀ k, k ∈ r.dispatchGraph.subtaskIds ↔ k ∈ passed ∨ k ∈ pending)
    (hf : ∀ k ∈ pending, k ∉ passed)
    (hb : ∀ d, d ∈ blockedIds ↔ d ∈ passed ∧ ¬ Clear r routing d)
    (hran : groupsFrom r routing workspaces config waveIdx layers blockedIds = .ok groups) :
    ∃ layered, groups = groupsOf config waveIdx layered ∧
      Forall₂ (Assigned r routing) layers layered := by
  induction hl generalizing passed blockedIds waveIdx groups with
  | done =>
    cases hran
    exact ⟨[], rfl, .nil⟩
  | layer pending layer below hlayered hn hbelow ih =>
    obtain ⟨⟨assignments, blocked⟩, hwave, hran⟩ := (bind_ok_iff _ _ _).1 hran
    obtain ⟨rest, hrest, hran⟩ := (bind_ok_iff _ _ _).1 hran
    cases hran
    have hr : ∀ k ∈ layer, k ∈ pending ∧ ∀ d ∈ r.dispatchGraph.dependencies k, d ∉ pending :=
      fun k hk => mem_ready.1 ((hlayered k).1 hk)
    obtain ⟨hassigned, hmem⟩ := waveAssignments_spec hc
      (fun k hk => (hall k).2 (.inr (hr k hk).1))
      (fun k hk d hd => ((hall d).1 (hc k d hd)).resolve_right ((hr k hk).2 d hd))
      (fun k hk => hf k (hr k hk).1)
      (fun d hd => (hb d).trans (and_iff_right hd)) hwave
    have hs : ∀ k, k ∈ r.dispatchGraph.subtaskIds ↔
        k ∈ passed ++ layer ∨ k ∈ without pending layer := by
      intro k
      rw [hall, mem_append, mem_without]
      constructor
      · rintro (h | h)
        · exact .inl (.inl h)
        · by_cases hk : k ∈ layer
          · exact .inl (.inr hk)
          · exact .inr ⟨h, hk⟩
      · rintro ((h | h) | h)
        · exact .inl h
        · exact .inr (hr k h).1
        · exact .inr h.1
    obtain ⟨layered, rfl, hfor⟩ := @ih (passed ++ layer) blocked (waveIdx + 1) rest hs
      (fun k hk hin => (mem_append.1 hin).elim
        (hf k (mem_without.1 hk).1) (mem_without.1 hk).2)
      (fun d => by
        rw [hmem, hb, mem_append]
        exact or_and_right.symm) hrest
    exact ⟨assignments :: layered, rfl, .cons hassigned hfor⟩

theorem groupsFrom_total (ht : ∀ layer ∈ layers, ∀ k ∈ layer, ∃ t ∈ r.allTasks, t.id.text = k)
    (waveIdx : Nat) (blockedIds : List String) :
    ∃ groups, groupsFrom r routing workspaces config waveIdx layers blockedIds = .ok groups := by
  induction layers generalizing waveIdx blockedIds with
  | nil => exact ⟨_, rfl⟩
  | cons layer below ih =>
    obtain ⟨⟨assignments, blocked⟩, hwave⟩ := @waveAssignments_total r routing workspaces layer
      (ht layer mem_cons_self) blockedIds
    obtain ⟨groups, hg⟩ := ih (fun l hl => ht l (mem_cons_of_mem _ hl)) (waveIdx + 1) blocked
    rw [groupsFrom, hwave]
    show ∃ out, (do
      let groups ← groupsFrom r routing workspaces config (waveIdx + 1) below blocked
      Except.ok (waveGroups config waveIdx assignments ++ groups)) = Except.ok out
    rw [hg]
    exact ⟨_, rfl⟩

end Layer

-- ==== the groups

section Groups

variable {config : CoordinationConfig}

theorem map_assignments_waveGroups (waveIdx : Nat) (assignments : List AgentAssignment) :
    (waveGroups config waveIdx assignments).map ParallelExecutionGroup.assignments =
      roundsByAgent assignments := by
  unfold waveGroups
  rw [map_map]
  exact zipIdx_map_fst 0 _

variable {waveIdx : Nat} {assignments : List AgentAssignment} {g : ParallelExecutionGroup}
  {layered : List (List AgentAssignment)}

theorem dagLevel_waveGroups (hg : g ∈ waveGroups config waveIdx assignments) :
    g.dagLevel = waveIdx := by
  obtain ⟨round, -, rfl⟩ := mem_map.1 hg
  rfl

theorem taskIds_waveGroups_perm (waveIdx : Nat) (assignments : List AgentAssignment) :
    ((waveGroups config waveIdx assignments).flatMap ParallelExecutionGroup.taskIds).Perm
      (assignments.map AgentAssignment.taskId) := by
  have hflat : (waveGroups config waveIdx assignments).flatMap ParallelExecutionGroup.taskIds =
      (roundsByAgent assignments).flatten.map AgentAssignment.taskId := by
    rw [← @map_assignments_waveGroups config waveIdx, map_flatten, map_map]
    rfl
  rw [hflat]
  exact (packed_roundsByAgent assignments).holds.map _

theorem mem_groupsOf (hg : g ∈ groupsOf config waveIdx layered) :
    ∃ i assignments, layered[i]? = some assignments ∧
      g ∈ waveGroups config (waveIdx + i) assignments := by
  induction layered generalizing waveIdx with
  | nil => cases hg
  | cons assignments rest ih =>
    rcases mem_append.1 hg with hg | hg
    · exact ⟨0, assignments, rfl, hg⟩
    · obtain ⟨i, more, hi, hg⟩ := ih hg
      refine ⟨i + 1, more, by simpa using hi, ?_⟩
      rwa [show waveIdx + (i + 1) = waveIdx + 1 + i by omega]

theorem mem_of_mem_waveGroups (hg : g ∈ waveGroups config waveIdx assignments) {a : AgentAssignment}
    (ha : a ∈ g.assignments) : a ∈ assignments := by
  have hr : g.assignments ∈ roundsByAgent assignments := by
    rw [← @map_assignments_waveGroups config waveIdx]
    exact mem_map_of_mem hg
  exact (packed_roundsByAgent assignments).holds.mem_iff.1 (mem_flatten.2 ⟨_, hr, ha⟩)

theorem le_dagLevel_groupsOf (hg : g ∈ groupsOf config waveIdx layered) : waveIdx ≤ g.dagLevel := by
  induction layered generalizing waveIdx with
  | nil => cases hg
  | cons assignments rest ih =>
    rcases mem_append.1 hg with hg | hg
    · exact (dagLevel_waveGroups hg).ge
    · exact (Nat.le_succ _).trans (ih hg)

theorem pairwise_groupsOf (waveIdx : Nat) (layered : List (List AgentAssignment)) :
    (groupsOf config waveIdx layered).Pairwise fun g g' => g.dagLevel ≤ g'.dagLevel := by
  induction layered generalizing waveIdx with
  | nil => exact .nil
  | cons assignments rest ih =>
    refine pairwise_append.2 ⟨?_, ih _, fun g hg g' hg' => ?_⟩
    · refine Pairwise.imp_of_mem ?_ (pairwise_of_forall fun _ _ => trivial)
      intro g g' hg hg' _
      rw [dagLevel_waveGroups hg, dagLevel_waveGroups hg']
    · rw [dagLevel_waveGroups hg]
      exact (Nat.le_succ _).trans (le_dagLevel_groupsOf hg')

theorem filter_groupsOf {i : Nat} (hi : layered[i]? = some assignments) :
    (groupsOf config waveIdx layered).filter (fun g => g.dagLevel = waveIdx + i) =
      waveGroups config (waveIdx + i) assignments := by
  induction layered generalizing waveIdx i with
  | nil => simp at hi
  | cons first rest ih =>
    rw [groupsOf, filter_append]
    cases i with
    | zero =>
      obtain rfl : first = assignments := by simpa using hi
      have hrest : (groupsOf config (waveIdx + 1) rest).filter
          (fun g => g.dagLevel = waveIdx + 0) = [] := by
        rw [filter_eq_nil_iff]
        intro g hg
        have hle := le_dagLevel_groupsOf hg
        rw [decide_eq_true_eq]
        omega
      rw [hrest, append_nil, Nat.add_zero, filter_eq_self]
      intro g hg
      exact decide_eq_true (dagLevel_waveGroups hg)
    | succ i =>
      have hf : (waveGroups config waveIdx first).filter
          (fun g => g.dagLevel = waveIdx + (i + 1)) = [] := by
        rw [filter_eq_nil_iff]
        intro g hg
        have hl := dagLevel_waveGroups hg
        rw [decide_eq_true_eq]
        omega
      have hrest := @ih (waveIdx + 1) i (by simpa using hi)
      rw [show waveIdx + 1 + i = waveIdx + (i + 1) by omega] at hrest
      rw [hf, hrest, nil_append]

theorem taskIds_groupsOf_perm (waveIdx : Nat) (layered : List (List AgentAssignment)) :
    ((groupsOf config waveIdx layered).flatMap ParallelExecutionGroup.taskIds).Perm
      (layered.flatten.map AgentAssignment.taskId) := by
  induction layered generalizing waveIdx with
  | nil => exact .refl _
  | cons assignments rest ih =>
    rw [groupsOf, flatMap_append, flatten_cons, map_append]
    exact (taskIds_waveGroups_perm waveIdx assignments).append (ih _)

end Groups

-- ==== what the groups promise

def RoutingResult.load (routing : RoutingResult) (ids : List String) (agent : String) : Nat :=
  ids.countP fun id => routing.agentOf id = some agent

theorem Assigned.load_eq {ids : List String} (h : Assigned r routing ids assignments)
    (agent : String) :
    routing.load (assignments.map AgentAssignment.taskId) agent = shareOf agent assignments := by
  unfold RoutingResult.load shareOf agentIds
  rw [countP_map, List.count, countP_map]
  refine countP_congr fun a ha => ?_
  rw [Function.comp_apply, h.agents a ha]
  simp

/-- What the groups of a tree promise the executor. -/
structure WavesBuilt (r : DecompositionResult) (routing : RoutingResult)
    (levels : List (List String)) (groups : List ParallelExecutionGroup) : Prop where
  once : (groups.flatMap ParallelExecutionGroup.taskIds).Nodup
  clear : ∀ k, k ∈ groups.flatMap ParallelExecutionGroup.taskIds ↔ Clear r routing k
  agents : ∀ g ∈ groups, ∀ a ∈ g.assignments, routing.agentOf a.taskId = some a.agentId
  earlier : ∀ pre g post, groups = pre ++ g :: post → ∀ k ∈ g.taskIds,
    ∀ d ∈ r.dispatchGraph.dependencies k, ∃ g' ∈ pre, d ∈ g'.taskIds
  distinct : ∀ g ∈ groups, (g.assignments.map AgentAssignment.agentId).Nodup
  filed : ∀ g ∈ groups, g.dagLevel < levels.length
  split : ∀ level ids, levels[level]? = some ids →
    (∀ k, k ∈ (groups.filter fun g => g.dagLevel = level).flatMap
        ParallelExecutionGroup.taskIds ↔ k ∈ ids ∧ Clear r routing k) ∧
      IsGreatest (Set.range (routing.load
          ((groups.filter fun g => g.dagLevel = level).flatMap ParallelExecutionGroup.taskIds)))
        (groups.filter fun g => g.dagLevel = level).length

theorem forall₂_assigned (h : Forall₂ (Assigned r routing) levels layered) :
    (layered.flatten.map AgentAssignment.taskId).Sublist levels.flatten ∧
      ∀ k, k ∈ layered.flatten.map AgentAssignment.taskId ↔
        k ∈ levels.flatten ∧ Clear r routing k := by
  induction h with
  | nil => exact ⟨.slnil, by simp⟩
  | cons hone _ ih =>
    refine ⟨?_, fun k => ?_⟩
    · rw [flatten_cons, map_append]
      exact hone.ordered.append ih.1
    · rw [flatten_cons, flatten_cons, map_append, mem_append,
        mem_append, hone.clear, ih.2, or_and_right]

theorem assigned_at (h : Forall₂ (Assigned r routing) levels layered) {i : Nat}
    (hi : layered[i]? = some assignments) :
    ∃ ids, levels[i]? = some ids ∧ Assigned r routing ids assignments := by
  induction h generalizing i with
  | nil => simp at hi
  | cons hone _ ih =>
    cases i with
    | zero =>
      obtain rfl := Option.some.inj hi
      exact ⟨_, rfl, hone⟩
    | succ i => exact ih hi

theorem wavesBuilt_of_assigned
    (hl : Layered r.dispatchGraph.dependencies r.dispatchGraph.subtaskIds levels)
    (hc : ∀ k, ∀ d ∈ r.dispatchGraph.dependencies k, d ∈ r.dispatchGraph.subtaskIds)
    (hassigned : Forall₂ (Assigned r routing) levels layered) :
    WavesBuilt r routing levels (groupsOf config 0 layered) := by
  have hperm := @taskIds_groupsOf_perm config 0 layered
  obtain ⟨hu, hclear⟩ := forall₂_assigned hassigned
  have hlen := hassigned.length_eq
  have hmem : ∀ k, k ∈ (groupsOf config 0 layered).flatMap ParallelExecutionGroup.taskIds ↔
      Clear r routing k := by
    intro k
    rw [hperm.mem_iff, hclear, hl.mem_flatten]
    exact and_iff_right_of_imp Clear.unit
  -- a group's subtasks are clear units of its level
  have hf : ∀ g ∈ groupsOf config 0 layered, ∃ ids, levels[g.dagLevel]? = some ids ∧
      ∀ k ∈ g.taskIds, k ∈ ids ∧ Clear r routing k := by
    intro g hg
    obtain ⟨i, assignments, hi, hwave⟩ := mem_groupsOf hg
    obtain ⟨ids, hids, hone⟩ := assigned_at hassigned hi
    have hlevel : g.dagLevel = i := (dagLevel_waveGroups hwave).trans (Nat.zero_add i)
    refine ⟨ids, by rw [hlevel, hids], fun k hk => ?_⟩
    obtain ⟨a, ha, rfl⟩ := mem_map.1 hk
    exact (hone.clear _).1 (mem_map_of_mem (mem_of_mem_waveGroups hwave ha))
  refine
    { once := hperm.nodup_iff.2 (hl.nodup.sublist hu)
      clear := hmem
      agents := ?_
      earlier := ?_
      distinct := ?_
      filed := ?_
      split := ?_ }
  · intro g hg a ha
    obtain ⟨i, assignments, hi, hwave⟩ := mem_groupsOf hg
    obtain ⟨ids, -, hone⟩ := assigned_at hassigned hi
    exact hone.agents a (mem_of_mem_waveGroups hwave ha)
  · intro pre g post hs k hk d hd
    have hg : g ∈ groupsOf config 0 layered := by simp [hs]
    obtain ⟨ids, hids, hin⟩ := hf g hg
    obtain ⟨hkids, hx⟩ := hin k hk
    obtain ⟨g', hg', hdg'⟩ := mem_flatMap.1 ((hmem d).2 (((clear_iff hc).1 hx).2.2 d hd))
    obtain ⟨ids', hids', hin'⟩ := hf g' hg'
    have hlt : g'.dagLevel < g.dagLevel := by
      rw [← layerOf_eq_of_mem hl.nodup hids' (hin' d hdg').1,
        ← layerOf_eq_of_mem hl.nodup hids hkids]
      exact hl.layerOf_lt hx.unit hd (hc k d hd)
    refine ⟨g', ?_, hdg'⟩
    have hord := @pairwise_groupsOf config 0 layered
    rw [hs, mem_append, mem_cons] at hg'
    rw [hs] at hord
    rcases hg' with hg' | rfl | hg'
    · exact hg'
    · exact absurd hlt (Nat.lt_irrefl _)
    · have hle := (pairwise_cons.1 (pairwise_append.1 hord).2.1).1 g' hg'
      omega
  · intro g hg
    obtain ⟨i, assignments, -, hwave⟩ := mem_groupsOf hg
    refine (packed_roundsByAgent assignments).once g.assignments ?_
    rw [← @map_assignments_waveGroups config (0 + i)]
    exact mem_map_of_mem hwave
  · intro g hg
    obtain ⟨ids, hids, -⟩ := hf g hg
    exact (List.getElem?_eq_some_iff.1 hids).1
  · intro level ids hids
    have hlt : level < layered.length := hlen ▸ (List.getElem?_eq_some_iff.1 hids).1
    obtain ⟨assignments, hat⟩ : ∃ assignments, layered[level]? = some assignments :=
      ⟨_, getElem?_eq_getElem hlt⟩
    obtain ⟨ids', hids', hone⟩ := assigned_at hassigned hat
    obtain rfl : ids = ids' := Option.some.inj (hids.symm.trans hids')
    have hhere : (groupsOf config 0 layered).filter (fun g => g.dagLevel = 0 + level) =
        waveGroups config (0 + level) assignments := filter_groupsOf hat
    rw [Nat.zero_add] at hhere
    rw [hhere]
    have ht := @taskIds_waveGroups_perm config level assignments
    have hload : ∀ agent, routing.load ((waveGroups config level assignments).flatMap
        ParallelExecutionGroup.taskIds) agent = shareOf agent assignments := by
      intro agent
      rw [← hone.load_eq]
      exact ht.countP_eq _
    have hpack := packed_roundsByAgent assignments
    have hcnt : (waveGroups config level assignments).length =
        (roundsByAgent assignments).length := by
      rw [← @map_assignments_waveGroups config level, length_map]
    refine ⟨fun k => by rw [ht.mem_iff, hone.clear], ?_, ?_⟩
    · by_cases hne : assignments = []
      · refine ⟨"", ?_⟩
        rw [hne]
        rfl
      · obtain ⟨a, -, ha⟩ := hpack.exists_shareOf hne
        exact ⟨a.agentId, by rw [hload, ha, hcnt]⟩
    · rintro _ ⟨agent, rfl⟩
      rw [hload, hcnt]
      exact hpack.shareOf_le agent

theorem exists_layered {workspaces : List (String × String)}
    (hd : r.dispatchGraph.subtaskIds.Nodup) {groups : List ParallelExecutionGroup}
    (hran : buildExecutionWaves r routing workspaces config = .ok groups) :
    ∃ levels, r.dispatchGraph.parallelGroups = .ok levels ∧
      WavesBuilt r routing levels groups := by
  obtain ⟨levels, hl, hg⟩ := (bind_ok_iff _ _ _).1 hran
  have hp : r.dispatchGraph.parallelGroups = .ok levels := by
    show (DependencyGraph.mk r.dispatchSubtasks).parallelGroups = .ok levels
    cases hc : (DependencyGraph.mk r.dispatchSubtasks).parallelGroups with
    | error e =>
      rw [hc] at hl
      cases hl
    | ok found =>
      rw [hc] at hl
      cases hl
      rfl
  obtain ⟨hsnd, hlayered⟩ := DependencyGraph.layered_of_parallelGroups hd hp
  have hall : ∀ k, k ∈ r.dispatchGraph.subtaskIds ↔
      k ∈ ([] : List String) ∨ k ∈ r.dispatchGraph.subtaskIds := by simp
  obtain ⟨layered, rfl, hassigned⟩ := groupsFrom_spec hsnd.closed hlayered hall
    (by simp) (by simp) hg
  exact ⟨levels, hp, wavesBuilt_of_assigned hlayered hsnd.closed hassigned⟩

theorem exists_task_of_unit (hv : r.Valid) {k : String}
    (hk : k ∈ r.allSubtasks.map SubtaskDefinition.id) : ∃ t ∈ r.allTasks, t.id.text = k := by
  induction hv with
  | node r level below ih =>
    obtain ⟨s, hs, rfl⟩ := mem_map.1 hk
    rw [DecompositionResult.allTasks_eq]
    rcases DecompositionResult.mem_allSubtasks.1 hs with hown | ⟨c, hc, hin⟩
    · obtain ⟨t, ht, hid⟩ := mem_map.1 ((level.task_ids s.id).2 (mem_map_of_mem hown))
      exact ⟨t, mem_append_left _ ht, hid⟩
    · obtain ⟨t, ht, hid⟩ := ih c hc (mem_map_of_mem hin)
      exact ⟨t, mem_append_right _ (mem_flatMap.2 ⟨c, hc, ht⟩), hid⟩

/-- WAVE BUILDING: the groups hold the routed units that hang on no unrouted one, once each, for
its agent and in order; no group names an agent twice; and a level has as many groups as its
busiest agent was given of it. -/
theorem waves_built (r : DecompositionResult) (routing : RoutingResult)
    (unroutable : List String) (workspaces : List (String × String))
    (config : CoordinationConfig) (hvalid : r.Valid) (hover : routing.Over unroutable r) :
    ((∀ l ∈ r.levels, Acyclic l.levelGraph.dependencies) →
        ∃ groups, buildExecutionWaves r routing workspaces config = .ok groups) ∧
      ∀ groups, buildExecutionWaves r routing workspaces config = .ok groups →
        ∃ levels, r.dispatchGraph.parallelGroups = .ok levels ∧
          WavesBuilt r routing levels groups := by
  have hids : r.dispatchGraph.subtaskIds = r.allSubtasks.map SubtaskDefinition.id :=
    DecompositionResult.map_id_dispatchAfter hvalid []
  have hdistinct : r.dispatchGraph.subtaskIds.Nodup := by
    rw [hids]
    exact hover.unique
  refine ⟨fun hacyclic => ?_, fun groups hran => exists_layered hdistinct hran⟩
  obtain ⟨levels, hlevels, hperm, -⟩ :=
    (hvalid.dispatchOrdered hacyclic hover.unique).groups
  have htasks : ∀ level ∈ levels, ∀ k ∈ level, ∃ t ∈ r.allTasks, t.id.text = k := by
    intro level hlevel k hk
    have hunit : k ∈ r.allSubtasks.map SubtaskDefinition.id := by
      rw [← hids]
      exact hperm.mem_iff.1 (List.mem_flatten.2 ⟨level, hlevel, hk⟩)
    exact exists_task_of_unit hvalid hunit
  obtain ⟨groups, hgroups⟩ := @groupsFrom_total r routing workspaces config levels htasks 0 []
  refine ⟨groups, ?_⟩
  unfold buildExecutionWaves
  rw [show (DependencyGraph.mk r.dispatchSubtasks).parallelGroups = .ok levels from hlevels]
  exact hgroups

def sampleRouting : RoutingResult where
  decisions := [⟨DecompositionResult.draftId.text, "ana"⟩,
    ⟨DecompositionResult.outlineId.text, "ana"⟩]
  distinct := by
    unfold Keyed.Distinct
    decide

theorem sampleRouting_over :
    sampleRouting.Over [DecompositionResult.reviewId.text] DecompositionResult.sampleTree where
  covers := by decide
  unroutable_nodup := by decide
  disjoint := by
    unfold RoutingResult.Routed
    decide

theorem waves_built_sample : ∃ groups levels,
    buildExecutionWaves DecompositionResult.sampleTree sampleRouting [] ⟨none, false⟩ =
        .ok groups ∧ DecompositionResult.sampleTree.dispatchGraph.parallelGroups = .ok levels ∧
      WavesBuilt DecompositionResult.sampleTree sampleRouting levels groups :=
  have h := waves_built DecompositionResult.sampleTree sampleRouting
    [DecompositionResult.reviewId.text] [] ⟨none, false⟩ DecompositionResult.sampleTree_valid
    sampleRouting_over
  have ⟨groups, hgroups⟩ := h.1 DecompositionResult.sampleTree_acyclic
  have ⟨levels, hlevels, hbuilt⟩ := h.2 groups hgroups
  ⟨groups, levels, hgroups, hlevels, hbuilt⟩

end Synthorg.Coordination
