/-
What a graft appends, whoever else writes the plan.

THE INVARIANT has two halves. Every plan in play, stored or held, is one sound item graph: the
writers of `PlanAdvance` move no item but by revisions the model checked, and an append grafts a
graph of new ids under a unit of WORK. And the plan an append goes from IS the stored one wherever
it is at the stored version, so what was true when it was read is true of the row that is
replaced.
-/
import Synthorg.Decomposition.Proofs.Agree
import Synthorg.Decomposition.Proofs.Budget
import Synthorg.Initiative.ExtensionGraft

namespace Synthorg.Initiative.Extension

open Synthorg.Core Lib Decomposition
open Function (update_self update_of_ne)
open List

-- ==== the plans in play

structure SoundItems (items : List PlanItem) : Prop where
  valid : ∀ i ∈ items, i.Valid
  graph : ItemGraph items

def Checked : Initiative.Step → Prop
  | .write _ (.revise revised) => SoundItems revised.items
  | .write _ (.resolveDecisions items _) => SoundItems items
  | .create plan => SoundItems plan.items
  | _ => True

structure PlansSound (w : Initiative.World) : Prop where
  row : ∀ p, w.row = some p → SoundItems p.items
  callers : ∀ i p, (w.callers i).held = some p → SoundItems p.items

section Writers

variable {w : Initiative.World}

variable {i : Nat} {plan p : Plan} {drive : Drive}

theorem PlansSound.put (h : PlansSound w) {c : Caller}
    (hc : ∀ p, c.held = some p → SoundItems p.items) : PlansSound (w.put i c) where
  row := h.row
  callers := (Function.forall_update_iff _ fun _ (c : Caller) =>
    ∀ p, c.held = some p → SoundItems p.items).2 ⟨hc, fun j _ => h.callers j⟩

theorem PlansSound.setRow (h : PlansSound w) {row : Option Plan} {committed : List Hop}
    (hrow : ∀ p, row = some p → SoundItems p.items) :
    PlansSound { w with row := row, committed := committed } where
  row := hrow
  callers := h.callers

theorem held_idle_sound (p : Plan) (h : Caller.idle.held = some p) : SoundItems p.items := by
  cases h

theorem held_holding_sound (h : SoundItems plan.items) (p : Plan)
    (hp : (Caller.holding plan).held = some p) : SoundItems p.items := by
  cases hp
  exact h

theorem held_beginWalk {target : PlanStatus} (h : (beginWalk drive plan target).held = some p) :
    p = plan := by
  unfold beginWalk at h
  split at h <;> cases h <;> rfl

theorem held_retryWalk {target : PlanStatus} {reason : Option String}
    (h : (retryWalk drive plan target reason).held = some p) : p = plan := by
  unfold retryWalk at h
  split at h
  next => exact held_beginWalk h
  next => cases h

theorem held_resolveConflict {row : Option Plan} (h : (resolveConflict drive row).held = some p) :
    row = some p := by
  unfold resolveConflict at h
  split at h
  next => cases h
  next refreshed =>
    split at h
    next => exact h
    next =>
      split at h
      next => rw [held_retryWalk h]
      next => exact h

theorem held_rederive {refreshed : Plan} {tasks : List Task}
    (h : (rederive drive refreshed tasks).held = some p) : p = refreshed := by
  unfold rederive at h
  dsimp only at h
  split at h
  next =>
    cases h
    rfl
  next => exact held_retryWalk h

theorem decided_items (plan : Plan) (status : PlanStatus) (reason : Option String) (now : Int) :
    (decided plan status reason now).items = plan.items := by
  unfold decided
  split <;> rfl

theorem PlansSound.commitHop (h : PlansSound w) {current : Plan} {hop : PlanStatus}
    {hops : List PlanStatus} {now : Int} (hc : SoundItems current.items) :
    PlansSound (commitHop w i drive current hop hops now) := by
  unfold Initiative.commitHop
  dsimp only
  split
  next before after hb hsync =>
    obtain ⟨-, -, stored, -, -, -, rfl⟩ := syncStatus_ok hsync
    have ha := decided_items current hop
      (if hop = .failed then drive.explicitReason else none) now
    refine (h.put ?_).setRow ?_
    · intro p hp
      split at hp <;> cases hp <;> exact ha ▸ hc
    · intro p hp
      cases hp
      exact ha ▸ hc
  next =>
    refine h.put fun p hp => ?_
    split at hp <;> cases hp
  next => exact h.put held_idle_sound

theorem PlansSound.commitRevision (h : PlansSound w) {revision : Revision}
    (hplan : SoundItems plan.items) (hc : Checked (.write i revision)) :
    PlansSound (commitRevision w i plan revision) := by
  unfold Initiative.commitRevision
  split
  next =>
    split
    next written hu =>
      obtain ⟨stored, -, -, -, rfl⟩ := update_ok_iff.1 hu
      have hw : SoundItems (revision.written plan).items := by
        cases revision with
        | revise revised | resolveDecisions items now => exact hc
        | stageApproved | failUnfilled => exact hplan
      refine (h.put (held_holding_sound hw)).setRow fun p hp => ?_
      cases hp
      exact hw
    next => exact h.put held_idle_sound
  next => exact h

/-- STEP LEMMA of the other writers: what they bring being checked, every plan stays sound. -/
theorem PlansSound.step (h : PlansSound w) {s : Initiative.Step} (hchecked : Checked s) :
    PlansSound (Initiative.step w s) := by
  have hread : ∀ p, (holdRow w.row).held = some p → SoundItems p.items := by
    intro p hp
    cases hrow : w.row with
    | none =>
      rw [hrow] at hp
      cases hp
    | some q =>
      rw [hrow] at hp
      cases hp
      exact h.row _ hrow
  cases s with
  | read i =>
    unfold Initiative.step
    dsimp only
    split
    next => exact h.put hread
    next => exact h.put hread
    next => exact h
  | start i retries target reason =>
    unfold Initiative.step
    dsimp only
    split
    next plan hcall =>
      refine h.put fun p hp => ?_
      rw [held_beginWalk hp]
      exact h.callers i plan (by rw [hcall]; rfl)
    next => exact h
  | hop i now =>
    unfold Initiative.step
    dsimp only
    split
    next drive current hop hops hcall =>
      exact h.commitHop (h.callers i current (by rw [hcall]; rfl))
    next => exact h
  | reread i =>
    unfold Initiative.step
    dsimp only
    split
    next => exact h.put fun p hp => h.row p (held_resolveConflict hp)
    next => exact h
  | derive i tasks =>
    unfold Initiative.step
    dsimp only
    split
    next drive refreshed hcall =>
      refine h.put fun p hp => ?_
      rw [held_rederive hp]
      exact h.callers i refreshed (by rw [hcall]; rfl)
    next => exact h
  | stop i => exact h.put held_idle_sound
  | write i revision =>
    unfold Initiative.step
    dsimp only
    split
    next plan hcall => exact h.commitRevision (h.callers i plan (by rw [hcall]; rfl)) hchecked
    next => exact h
  | progress snapshot =>
    refine h.setRow fun p hp => ?_
    obtain ⟨stored, hs, rfl⟩ := Option.map_eq_some_iff.1 hp
    have hsame : (stamped snapshot stored).items = stored.items := by
      unfold stamped
      split <;> rfl
    rw [hsame]
    exact h.row stored hs
  | create plan =>
    unfold Initiative.step
    dsimp only
    split
    next created hc =>
      refine h.setRow fun p hp => ?_
      cases hp
      unfold create at hc
      split at hc
      next => cases hc
      next =>
        split at hc <;> cases hc
        exact hchecked
    next => exact h
  | delete => exact h.setRow fun p hp => by cases hp

-- ==== the row moves

def KeepsVersion : Initiative.Step → Prop
  | .write _ (.resolveDecisions _ _) => True
  | .write _ .stageApproved => True
  | .write _ .failUnfilled => True
  | .progress _ => True
  | _ => False

theorem row_commitRevision (w : Initiative.World) (i : Nat) (plan : Plan) (revision : Revision) :
    (commitRevision w i plan revision).row = w.row ∨
      ∃ stored, w.row = some stored ∧ stored.version = plan.version ∧
        (commitRevision w i plan revision).row = some (revision.written plan) := by
  unfold Initiative.commitRevision
  split
  next =>
    split
    next written hu =>
      obtain ⟨stored, hs, hv, -, rfl⟩ := update_ok_iff.1 hu
      exact .inr ⟨stored, hs, hv, rfl⟩
    next => exact .inl rfl
  next => exact .inl rfl

def Replaces (w w' : Initiative.World) (relation : Plan → Plan → Prop) : Prop :=
  ∃ stored written, w.row = some stored ∧ w'.row = some written ∧ relation stored written

/-- STEP LEMMA: another writer leaves the row, moves or keeps its version, removes it or files
it. -/
theorem row_step (w : Initiative.World) (s : Initiative.Step) : (Initiative.step w s).row = w.row ∨
      Replaces w (Initiative.step w s) (fun stored written =>
        written.version = stored.version + 1) ∨
      (KeepsVersion s ∧ Replaces w (Initiative.step w s) (fun stored written =>
        written.version = stored.version)) ∨
      (Initiative.step w s).row = none ∨ ∃ plan, s = .create plan := by
  cases s with
  | read i =>
    left
    unfold Initiative.step
    dsimp only
    split <;> rfl
  | start i retries target reason =>
    left
    unfold Initiative.step
    dsimp only
    split <;> rfl
  | hop i now =>
    unfold Initiative.step
    dsimp only
    split
    next drive current hop hops hcall =>
      unfold Initiative.commitHop
      dsimp only
      split
      next before after hb hsync =>
        obtain ⟨-, -, stored, hs, hv, -, rfl⟩ := syncStatus_ok hsync
        right
        left
        exact ⟨stored, _, hs, rfl, (decided_version _ _ _ _).trans (by rw [hv])⟩
      next => exact .inl rfl
      next => exact .inl rfl
    next => exact .inl rfl
  | reread i =>
    left
    unfold Initiative.step
    dsimp only
    split <;> rfl
  | derive i tasks =>
    left
    unfold Initiative.step
    dsimp only
    split <;> rfl
  | stop i => exact .inl rfl
  | write i revision =>
    unfold Initiative.step
    dsimp only
    split
    next plan hcall =>
      rcases row_commitRevision w i plan revision with hsame | ⟨stored, hs, hv, hrow⟩
      · exact .inl hsame
      · right
        cases revision with
        | revise revised =>
          left
          refine ⟨stored, _, hs, hrow, ?_⟩
          show plan.version + 1 = stored.version + 1
          rw [hv]
        | resolveDecisions items now =>
          exact .inr (.inl ⟨trivial, stored, _, hs, hrow, hv.symm⟩)
        | stageApproved | failUnfilled => exact .inr (.inl ⟨trivial, stored, _, hs, hrow, hv.symm⟩)
    next => exact .inl rfl
  | progress snapshot =>
    cases hrow : w.row with
    | none =>
      left
      show recordDecompositionProgress w.row snapshot = none
      rw [hrow]
      rfl
    | some stored =>
      refine .inr (.inr (.inl ⟨trivial, stored, stamped snapshot stored, hrow, ?_,
        (stamped_kept snapshot stored).1⟩))
      show recordDecompositionProgress w.row snapshot = _
      rw [hrow]
      rfl
  | create plan => exact .inr (.inr (.inr (.inr ⟨plan, rfl⟩)))
  | delete => exact .inr (.inr (.inr (.inl rfl)))

end Writers

-- ==== the invariant

def Reading (row : Option Plan) (p : Plan) : Prop :=
  ∀ stored, row = some stored →
    p.version ≤ stored.version ∧ (p.version = stored.version → p = stored)

/-- A leaf that may be extended: a unit of WORK of a live plan, with nothing
under it. -/
structure Waiting (plan : Plan) (leafId : String) : Prop where
  live : plan.status.terminal = false
  held : ∃ leaf ∈ plan.items, leaf.id = leafId ∧ leaf.kind = .work
  childless : (PlanTree.of plan.items).isContainer leafId = false

def Fresh (plan : Plan) (newItems : List PlanItem) : Prop :=
  ∀ i ∈ newItems, i.id ∉ plan.items.map PlanItem.id

structure Hanging (leafId : String) (newItems : List PlanItem) : Prop where
  valid : ∀ i ∈ newItems, i.Valid
  graph : ∃ pieces, ItemGraph pieces ∧ newItems = pieces.map (reparentRoot leafId)

def Grafting.Sound (row : Option Plan) : Grafting → Prop
  | .idle => True
  | .decomposing plan leaf =>
    Reading row plan ∧ SoundItems plan.items ∧ Waiting plan leaf.id ∧ leaf ∈ plan.items
  | .appending leafId _ candidate newItems =>
    Reading row candidate ∧ SoundItems candidate.items ∧ Waiting candidate leafId ∧
      Hanging leafId newItems ∧ Fresh candidate newItems
  | .conflicted leafId _ newItems => Hanging leafId newItems

structure Append.Sound (a : Append) : Prop where
  kept : a.after = { a.before with
    items := a.before.items ++ a.newItems
    version := a.before.version + 1
    updatedAt := a.after.updatedAt }
  items : SoundItems a.after.items
  waiting : Waiting a.before a.leafId

/-- THE INVARIANT. -/
structure Inv (w : World) : Prop where
  plans : PlansSound w.writers
  grafts : ∀ g, (w.grafts g).Sound w.row
  appended : ∀ a ∈ w.appended, a.Sound

variable {row : Option Plan} {plan : Plan} {leaf : PlanItem} {r : DecompositionResult} {id : Uuid}
  {newItems : List PlanItem} {leafId : String} {w : World} {g : Nat}

theorem reading_row {p : Plan} (h : row = some p) : Reading row p := by
  intro stored hs
  rw [h] at hs
  cases hs
  exact ⟨le_refl _, fun _ => rfl⟩

theorem Reading.bumped {p stored written : Plan} (h : Reading (some stored) p)
    (hv : written.version = stored.version + 1) : Reading (some written) p := by
  intro q hq
  cases hq
  have hle := (h stored rfl).1
  exact ⟨by omega, fun heq => by omega⟩

theorem Grafting.Sound.moved {row' : Option Plan} {grafting : Grafting} (h : grafting.Sound row)
    (hm : ∀ p, grafting.held = some p → Reading row p → Reading row' p) :
    grafting.Sound row' := by
  cases grafting with
  | idle => trivial
  | decomposing plan leaf => exact ⟨hm plan rfl h.1, h.2⟩
  | appending leafId attempt candidate newItems => exact ⟨hm candidate rfl h.1, h.2⟩
  | conflicted leafId attempt newItems => exact h

-- ==== the composition

def mintedIds (r : DecompositionResult) (id : Uuid) : List String :=
  r.allSubtasks.map SubtaskDefinition.id ++ [id.text]

def DecomposedFrom (leaf : PlanItem) (r : DecompositionResult) : Prop :=
  ∃ (σ : Type) (service : DecompositionService σ) (now : Int) (task : Task) (world : σ)
    (session : Session σ), service.strategy.PlansItsTask ∧
      service.decomposeTask now task (extensionContext leaf) world = (.ok r, session)

/-- COMPOSITION: as far as its ids are new, a graft hangs under its leaf as one graph. -/
theorem hanging_allNewItems (hleaf : leaf ∈ plan.items) (hv : leaf.Valid)
    (hdec : DecomposedFrom leaf r) (hmint : (mintedIds r id).Nodup)
    (hf : ∀ k ∈ mintedIds r id, k ∉ plan.items.map PlanItem.id)
    (h : allNewItems plan leaf r id = .ok newItems) :
    Hanging leaf.id newItems ∧ Fresh plan newItems := by
  obtain ⟨σ, service, now, task, world, session, hstr, hran⟩ := hdec
  unfold allNewItems at h
  simp only [bind_ok_iff, Except.ok.injEq] at h
  obtain ⟨items, hitems, assembly, hassembly, rfl⟩ := h
  obtain ⟨rfl, ht⟩ := itemsFromDecomposition_ok_iff.1 hitems
  unfold extensionAssemblyItem at hassembly
  simp only [bind_unit_ok_iff, mapError_ok_iff, PlanItem.check_ok_iff, Except.ok.injEq] at hassembly
  obtain ⟨ha, rfl⟩ := hassembly
  have hl : leaf.id ∈ plan.items.map PlanItem.id := mem_map_of_mem hleaf
  obtain ⟨hdistinct, -, hnew⟩ := nodup_append.1 hmint
  have hwalk : ∀ i ∈ walkItems r, i.id ∈ mintedIds r id := by
    intro i hi
    unfold mintedIds
    rw [← map_id_walkItems]
    exact mem_append_left _ (mem_map_of_mem hi)
  have hg := graph_of_wired (wired_of_ok hstr hran) hdistinct
  let roots := ((walkItems r).map (reparentRoot leaf.id)).filter
    fun item => item.parentId = some leaf.id
  let last := extensionAssemblyFields leaf roots (PlanTree.of plan.items) id
  have hpieces : ItemGraph (walkItems r ++ [{ last with parentId := none }]) := by
    refine hg.snoc rfl ?_ ?_
    · intro hmem
      rw [map_id_walkItems] at hmem
      exact hnew _ hmem _ (mem_singleton_self id.text) rfl
    · intro d hd
      obtain ⟨item, hitem, rfl⟩ := mem_map.1 hd
      obtain ⟨hm, hp⟩ := mem_filter.1 hitem
      obtain ⟨n, hn, rfl⟩ := mem_map.1 hm
      refine ⟨n, hn, reparentRoot_id.symm, ?_⟩
      -- a unit of the walk that is no root hangs under a new id, not the leaf's
      rw [decide_eq_true_eq, reparentRoot_parentId, Option.some.injEq] at hp
      cases hroot : n.parentId with
      | none => rfl
      | some p =>
        rw [hroot, Option.getD_some] at hp
        have hmem := hg.contained.forest.known n hn p hroot
        rw [map_id_walkItems, hp] at hmem
        exact absurd hl (hf _ (mem_append_left _ hmem))
  refine ⟨⟨?_, _, hpieces, ?_⟩, ?_⟩
  · intro i hi
    rcases mem_append.1 hi with hm | hlast
    · obtain ⟨n, hn, rfl⟩ := mem_map.1 hm
      refine reparentRoot_valid (ht n hn)
        ((PlanItem.checkedFields_ok_iff leaf).1 hv.fields).id fun heq => ?_
      exact hf _ (hwalk n hn) (heq ▸ hl)
    · rw [mem_singleton] at hlast
      exact hlast ▸ ha
  · rw [map_append]
    rfl
  · intro i hi
    rcases mem_append.1 hi with hm | hlast
    · obtain ⟨n, hn, rfl⟩ := mem_map.1 hm
      rw [reparentRoot_id]
      exact hf _ (hwalk n hn)
    · rw [mem_singleton] at hlast
      subst hlast
      exact hf _ (mem_append_right _ (mem_singleton_self id.text))

theorem extensionAssemblyFields_valid {roots : List PlanItem} {tree : PlanTree} (hleaf : leaf.Valid)
    (hr : ∀ i ∈ roots, i.Valid) (hdistinct : Keyed.Distinct PlanItem.id roots)
    (hnew : id.text ∉ roots.map PlanItem.id) (hne : leaf.id ≠ id.text) :
    (extensionAssemblyFields leaf roots tree id).Valid := by
  have hf := (PlanItem.checkedFields_ok_iff leaf).1 hleaf.fields
  refine ⟨(PlanItem.checkedFields_ok_iff _).2 ?_, id.canonical,
    fun heq => hne (Option.some.inj heq), hnew, hdistinct, rfl, rfl⟩
  exact {
    id := notBlank_of_canonical id.canonical
    title := notBlank_append (by decide)
    description := (extensionAssembly leaf roots tree).brief_given
    parent_id := by
      intro p hp
      cases hp
      exact hf.id
    dependencies := by
      intro d hd
      obtain ⟨i, hi, rfl⟩ := mem_map.1 hd
      exact ((PlanItem.checkedFields_ok_iff i).1 (hr i hi).fields).id
    owner := fun o ho => by cases ho
    criteria_given := hf.criteria_given
    criteria := hf.criteria
    artifacts := (extensionAssembly leaf roots tree).paths_given
    skills := forall_mem_nil _
    tags := forall_mem_nil _
    options_few := Nat.zero_le _
    options := forall_mem_nil _
    chosen := fun c hc => by cases hc
    satisfies := hf.satisfies
    unsplit_reason := fun c hc => by cases hc }

theorem exists_allNewItems (hleaf : leaf.Valid) (hitems : ∀ i ∈ walkItems r, i.Valid)
    (hmint : (mintedIds r id).Nodup) (hne : ∀ k ∈ mintedIds r id, leaf.id ≠ k) :
    ∃ newItems, allNewItems plan leaf r id = .ok newItems := by
  obtain ⟨hd, -, hnew⟩ := nodup_append.1 hmint
  rw [← map_id_walkItems] at hd hnew
  have hm : ∀ i ∈ (walkItems r).map (reparentRoot leaf.id), i.Valid := by
    intro i hi
    obtain ⟨n, hn, rfl⟩ := mem_map.1 hi
    refine reparentRoot_valid (hitems n hn)
      ((PlanItem.checkedFields_ok_iff leaf).1 hleaf.fields).id (hne n.id ?_)
    unfold mintedIds
    rw [← map_id_walkItems]
    exact mem_append_left _ (mem_map_of_mem hn)
  let roots := ((walkItems r).map (reparentRoot leaf.id)).filter
    fun item => item.parentId = some leaf.id
  have hs : (roots.map PlanItem.id).Sublist ((walkItems r).map PlanItem.id) := by
    rw [← map_id_reparentRoot leaf.id (walkItems r)]
    exact filter_sublist.map PlanItem.id
  have hassembly : (extensionAssemblyFields leaf roots (PlanTree.of plan.items) id).Valid := by
    refine extensionAssemblyFields_valid hleaf
      (fun i hi => hm i (mem_of_mem_filter hi)) (hd.sublist hs) ?_ ?_
    · intro hmem
      exact hnew _ (hs.subset hmem) _ (mem_singleton_self id.text) rfl
    · exact hne _ (mem_append_right _ (mem_singleton_self id.text))
  unfold allNewItems extensionAssemblyItem
  simp only [bind_ok_iff, mapError_ok_iff]
  exact ⟨_, walkItems r, itemsFromDecomposition_ok_iff.2 ⟨rfl, hitems⟩, _,
    ⟨(), (PlanItem.check_ok_iff _).2 hassembly, rfl⟩, rfl⟩

/-- APPEND: items that hang under a waiting leaf make a sound plan. -/
theorem SoundItems.append (h : SoundItems plan.items) (hwait : Waiting plan leafId)
    (hhang : Hanging leafId newItems) (hf : Fresh plan newItems) :
    SoundItems (plan.items ++ newItems) := by
  obtain ⟨leaf, hleaf, rfl, hwork⟩ := hwait.held
  obtain ⟨pieces, hp, rfl⟩ := hhang.graph
  refine ⟨fun i hi => ?_, h.graph.graft hp hleaf hwork fun i hi => ?_⟩
  · rcases mem_append.1 hi with hold | hnew
    · exact h.valid i hold
    · exact hhang.valid i hnew
  · have hnew := hf _ (mem_map_of_mem hi)
    rw [reparentRoot_id] at hnew
    exact hnew

-- ==== the condition

def Promised (w : World) : Step → Prop
  | .other s => Checked s
  | .decomposed g (some (r, id)) => ∀ plan leaf, w.grafts g = .decomposing plan leaf →
      DecomposedFrom leaf r ∧ (mintedIds r id).Nodup ∧
        ∀ k ∈ mintedIds r id, k ∉ plan.items.map PlanItem.id
  | .reread g => ∀ leafId attempt newItems plan, w.grafts g = .conflicted leafId attempt newItems →
      w.row = some plan → Fresh plan newItems
  | _ => True

/-- What makes the appends safe. A graft finds a live plan and a leaf of WORK that still waits
when it re-reads; no write that keeps the version lands on one a graft holds, and no row is
filed again meanwhile. -/
def Quiet (w : World) : Step → Prop
  | .consider _ leafId => ∀ plan leaf, considerLeaf w.row leafId = .decomposing plan leaf →
      plan.status.terminal = false ∧ leaf.kind = .work
  | .reread g => ∀ leafId attempt newItems plan, w.grafts g = .conflicted leafId attempt newItems →
      attempt < appendAttempts → w.row = some plan → Waiting plan leafId
  | .other s =>
    (KeepsVersion s → ∀ stored, w.row = some stored →
      ∀ g p, (w.grafts g).held = some p → p.version ≠ stored.version) ∧
    ∀ plan, s = .create plan → ∀ g, (w.grafts g).held = none
  | _ => True

-- ==== the steps

theorem Inv.put (h : Inv w) {grafting : Grafting}
    (hg : grafting.Sound w.row) : Inv (w.put g grafting) where
  plans := h.plans
  grafts := (Function.forall_update_iff _ fun _ (grafting : Grafting) => grafting.Sound w.row).2
    ⟨hg, fun j _ => h.grafts j⟩
  appended := h.appended

/-- The head of a graft: what it looked up is waiting, where it is WORK of a
live plan. -/
theorem sound_considerLeaf (hrow : ∀ p, row = some p → SoundItems p.items)
    (hqt : ∀ plan leaf, considerLeaf row leafId = .decomposing plan leaf →
      plan.status.terminal = false ∧ leaf.kind = .work) : (considerLeaf row leafId).Sound row := by
  unfold considerLeaf at hqt ⊢
  split
  next => trivial
  next fresh =>
    dsimp only at hqt
    split
    next => trivial
    next leaf hlook =>
      rw [hlook] at hqt
      dsimp only at hqt
      split
      next => trivial
      next hopen =>
        rw [if_neg hopen] at hqt
        rw [Bool.or_eq_true, not_or] at hopen
        obtain ⟨hlive, hwork⟩ := hqt fresh leaf rfl
        obtain ⟨hleaf, -⟩ := Keyed.lookup_mem hlook
        exact ⟨reading_row rfl, hrow fresh rfl,
          ⟨hlive, ⟨leaf, hleaf, rfl, hwork⟩, Bool.eq_false_iff.2 hopen.2⟩, hleaf⟩

/-- STEP LEMMA of an append: it is sound, and other holders hold the version before. -/
theorem Inv.commitAppend (h : Inv w) {attempt : Nat} {candidate : Plan} {now : Int}
    (hg : w.grafts g = .appending leafId attempt candidate newItems) :
    Inv (commitAppend w g leafId attempt candidate newItems now) := by
  have hsnd := h.grafts g
  rw [hg] at hsnd
  obtain ⟨hr, hitems, hwait, hhang, hf⟩ := hsnd
  unfold Extension.commitAppend
  split
  next before after hb hu =>
    obtain ⟨stored, hs, hv, -, rfl⟩ := update_ok_iff.1 hu
    obtain rfl : stored = before := Option.some.inj (hs.symm.trans hb)
    -- the version guard: the candidate is the row that is replaced
    obtain rfl : candidate = stored := (hr stored hs).2 hv.symm
    have hextended := hitems.append hwait hhang hf
    refine ⟨h.plans.setRow fun p hp => ?_, fun j => ?_, fun a ha => ?_⟩
    · cases hp
      exact hextended
    · show (Function.update w.grafts g .idle j).Sound _
      by_cases hj : j = g
      · subst hj
        rw [update_self]
        trivial
      · rw [update_of_ne hj]
        refine (h.grafts j).moved fun p _ hp => ?_
        rw [hs] at hp
        exact hp.bumped rfl
    · rcases mem_append.1 ha with hold | hnew
      · exact h.appended a hold
      · obtain rfl := mem_singleton.1 hnew
        exact ⟨rfl, hextended, hwait⟩
  next => exact h.put hhang
  next => exact h.put trivial

/-- STEP LEMMA of the other writers: no reading goes stale at the version it has. -/
theorem Inv.other (h : Inv w) {s : Initiative.Step} (hc : Checked s)
    (hqt : Quiet w (.other s)) : Inv { w with writers := Initiative.step w.writers s } where
  plans := h.plans.step hc
  grafts := by
    intro g
    refine (h.grafts g).moved fun p hp hr => ?_
    show Reading (Initiative.step w.writers s).row p
    rcases row_step w.writers s with hsame | ⟨stored, written, hs, hw, hv⟩ |
      ⟨hk, stored, written, hs, hw, hv⟩ | hnone | ⟨plan, hcreate⟩
    · rw [hsame]
      exact hr
    · rw [hw]
      have hread : Reading (some stored) p := hs ▸ hr
      exact hread.bumped hv
    · have hne := hqt.1 hk stored hs g p hp
      intro q hq
      rw [hw] at hq
      cases hq
      have hle := (hr stored hs).1
      exact ⟨by omega, fun heq => absurd (heq.trans hv) hne⟩
    · intro q hq
      simp [hnone] at hq
    · simp [hqt.2 plan hcreate g] at hp
  appended := h.appended

/-- STEP LEMMA: every promised and quiet step keeps the invariant. -/
theorem Inv.step (h : Inv w) {s : Step} (hp : Promised w s)
    (hqt : Quiet w s) : Inv (step w s) := by
  cases s with
  | other s => exact h.other hp hqt
  | consider g leafId =>
    unfold Extension.step
    dsimp only
    split
    next => exact h.put (sound_considerLeaf h.plans.row hqt)
    next => exact h
  | decomposed g ran =>
    unfold Extension.step
    dsimp only
    split
    next plan leaf hg =>
      refine h.put ?_
      have hsnd := h.grafts g
      rw [hg] at hsnd
      obtain ⟨hr, hitems, hwait, hleaf⟩ := hsnd
      unfold composeItems
      split
      next => trivial
      next r id =>
        obtain ⟨hdec, hmint, hnew⟩ := hp plan leaf hg
        split
        next => trivial
        next newItems hc =>
          obtain ⟨hhang, hf⟩ := hanging_allNewItems hleaf
            (hitems.valid leaf hleaf) hdec hmint hnew hc
          exact ⟨hr, hitems, hwait, hhang, hf⟩
    next => exact h
  | append g now =>
    unfold Extension.step
    dsimp only
    split
    next leafId attempt candidate newItems hg => exact h.commitAppend hg
    next => exact h
  | reread g =>
    unfold Extension.step
    dsimp only
    split
    next leafId attempt newItems hg =>
      refine h.put ?_
      have hhang := h.grafts g
      rw [hg] at hhang
      cases hrow : w.row with
      | none => trivial
      | some fresh =>
        unfold rereadPlan
        dsimp only
        split
        next ha =>
          exact ⟨reading_row rfl, h.plans.row fresh hrow,
            hqt leafId attempt newItems fresh hg ha hrow, hhang,
            hp leafId attempt newItems fresh hg hrow⟩
        next => trivial
    next => exact h
  | stop g => exact h.put trivial

-- ==== the runs

/-- A run each of whose steps is as `P` wants it where it is taken. -/
def Along (P : World → Step → Prop) : World → List Step → Prop
  | _, [] => True
  | w, s :: rest => P w s ∧ Along P (step w s) rest

structure Opening (w : World) : Prop where
  row : ∀ p, w.row = some p → SoundItems p.items
  callers : ∀ i, w.writers.callers i = .idle
  grafts : ∀ g, w.grafts g = .idle
  appended : w.appended = []

theorem Opening.inv (h : Opening w) : Inv w where
  plans :=
    { row := h.row
      callers := fun i p hp => by
        rw [h.callers i] at hp
        cases hp }
  grafts := fun g => by
    rw [h.grafts g]
    trivial
  appended := by
    rw [h.appended]
    exact forall_mem_nil _

/-- RUN LEMMA: a promised and quiet run keeps the invariant. -/
theorem Inv.run {steps : List Step} (h : Inv w) (hp : Along Promised w steps)
    (hqt : Along Quiet w steps) : Inv (Run.final Extension.step w steps) := by
  have hg : ∀ w s rest, Along Promised w (s :: rest) ∧ Along Quiet w (s :: rest) →
      Along Promised (Extension.step w s) rest ∧ Along Quiet (Extension.step w s) rest :=
    fun w s rest hG => ⟨hG.1.2, hG.2.2⟩
  refine Run.invariant (G := fun w steps => Along Promised w steps ∧ Along Quiet w steps)
    (P := Inv) hg (fun w s rest hG hInv => ?_) ⟨hp, hqt⟩ h
  exact hInv.step hG.1.1 hG.2.1

/-- GRAFTS: in every quiet run each committed append keeps the whole of the row, leaves a sound
plan, and is made under a leaf that still waits in a live plan. -/
theorem grafts_sound (w : World) (steps : List Step) (hopening : Opening w)
    (hpromised : Along Promised w steps) (hquiet : Along Quiet w steps) :
    ∀ a ∈ (Run.final step w steps).appended,
      a.after = { a.before with
        items := a.before.items ++ a.newItems
        version := a.before.version + 1
        updatedAt := a.after.updatedAt } ∧
      SoundItems a.after.items ∧ a.before.status.terminal = false ∧
      (∃ leaf ∈ a.before.items, leaf.id = a.leafId) ∧
      (PlanTree.of a.before.items).isContainer a.leafId = false := by
  intro a ha
  have hsound := (hopening.inv.run hpromised hquiet).appended a ha
  obtain ⟨leaf, hleaf, hid, -⟩ := hsound.waiting.held
  exact ⟨hsound.kept, hsound.items, hsound.waiting.live, ⟨leaf, hleaf, hid⟩,
    hsound.waiting.childless⟩

-- ==== a late append

def partPlanner : DecompositionStrategy Unit where
  decompose := fun task _ world => (.ok ⟨_, levelOf_partUnit_valid task⟩, world)
  plansAnyTask := true

def partService : DecompositionService Unit :=
  { siteService false with
    strategy := partPlanner
    configResolver := none }

def oversizedLeaf : PlanItem :=
  { workItem buildId.text none [] .normal with unsplitReason := some "no level left" }

def oversizedPlan : Plan := { planOf [oversizedLeaf] with status := .executing }

/-- Its row, before anybody reads it. -/
def oversizedWorld : World where
  writers := { row := some oversizedPlan, callers := fun _ => .idle, committed := [] }
  grafts := fun _ => .idle
  appended := []

theorem partRan : ∃ r session,
    partService.decomposeTask 0 objectiveTask (extensionContext oversizedLeaf) () =
      (.ok r, session) ∧
    mintedIds r choiceId = [partId.text, choiceId.text] ∧
    walkItems r = [itemFields none partUnit] := ⟨_, _, rfl, rfl, rfl⟩

theorem partPlanner_plansItsTask : partPlanner.PlansItsTask := by
  intro task context world plan world' h
  cases h
  rfl

theorem oversizedLeaf_valid : oversizedLeaf.Valid := by
  rw [← PlanItem.check_ok_iff]
  decide

theorem oversizedWorld_opening : Opening oversizedWorld where
  row := by
    intro p hp
    cases hp
    refine ⟨forall_mem_singleton.2 oversizedLeaf_valid, ?_⟩
    have hg : checkGraph oversizedPlan = .ok () := by decide
    exact ((checkGraph_ok_iff _).1 hg).2
  callers := fun _ => rfl
  grafts := fun _ => rfl
  appended := rfl

theorem partComposed (hmint : mintedIds r choiceId = [partId.text, choiceId.text])
    (hitems : walkItems r = [itemFields none partUnit]) :
    ∃ newItems, allNewItems oversizedPlan oversizedLeaf r choiceId = .ok newItems := by
  refine exists_allNewItems oversizedLeaf_valid ?_ ?_ ?_
  · rw [hitems, forall_mem_singleton, ← PlanItem.check_ok_iff]
    decide
  · rw [hmint]
    decide
  · rw [hmint]
    decide

def composedSteps (r : DecompositionResult) : List Step :=
  [.consider 0 oversizedLeaf.id, .decomposed 0 (some (r, choiceId))]

def composedWorld (newItems : List PlanItem) : World :=
  (step oversizedWorld (.consider 0 oversizedLeaf.id)).put 0
    (.appending oversizedLeaf.id 1 oversizedPlan newItems)

theorem composed_final (hc : allNewItems oversizedPlan oversizedLeaf r choiceId = .ok newItems)
    (rest : List Step) : Run.final step oversizedWorld (composedSteps r ++ rest) =
      Run.final step (composedWorld newItems) rest := by
  have hs : composeItems oversizedPlan oversizedLeaf (some (r, choiceId)) =
      .appending oversizedLeaf.id 1 oversizedPlan newItems := by
    unfold composeItems
    dsimp only
    rw [hc]
  show Run.final step ((step oversizedWorld (.consider 0 oversizedLeaf.id)).put 0
    (composeItems oversizedPlan oversizedLeaf (some (r, choiceId)))) rest = _
  rw [hs]
  rfl

theorem composed_promised {session : Session Unit} {rest : List Step}
    (hran : partService.decomposeTask 0 objectiveTask (extensionContext oversizedLeaf) () =
      (.ok r, session)) (hmint : mintedIds r choiceId = [partId.text, choiceId.text])
    (hc : allNewItems oversizedPlan oversizedLeaf r choiceId = .ok newItems)
    (hrest : Along Promised (composedWorld newItems) rest) :
    Along Promised oversizedWorld (composedSteps r ++ rest) := by
  have hdec : DecomposedFrom oversizedLeaf r :=
    ⟨Unit, partService, 0, objectiveTask, (), session, partPlanner_plansItsTask, hran⟩
  refine ⟨trivial, fun plan leaf hg => ?_, ?_⟩
  · cases hg
    rw [hmint]
    exact ⟨hdec, by decide, by decide⟩
  · have hf := composed_final hc []
    rw [append_nil] at hf
    show Along Promised (Run.final step oversizedWorld (composedSteps r)) rest
    rw [hf]
    exact hrest

theorem partFresh {session : Session Unit}
    (hran : partService.decomposeTask 0 objectiveTask (extensionContext oversizedLeaf) () =
      (.ok r, session)) (hmint : mintedIds r choiceId = [partId.text, choiceId.text])
    (hc : allNewItems oversizedPlan oversizedLeaf r choiceId = .ok newItems) :
    Fresh oversizedPlan newItems := by
  refine (hanging_allNewItems mem_cons_self oversizedLeaf_valid ⟨Unit, partService, 0,
    objectiveTask, (), session, partPlanner_plansItsTask, hran⟩ ?_ ?_ hc).2
  · rw [hmint]
    decide
  · rw [hmint]
    decide

/-- A status is written between the read of the graft and its append. -/
def meanwhile (target : PlanStatus) (reason : Option String) : List Step :=
  [.other (.read 0), .other (.start 0 false target reason), .other (.hop 0 7),
    .append 0 9, .reread 0, .append 0 11]

/-- `grafts_sound` at work on the leaf, beside another writer. -/
theorem grafts_sound_part : ∃ r session,
    partService.decomposeTask 0 objectiveTask (extensionContext oversizedLeaf) () =
      (.ok r, session) ∧
    (∃ a, (Run.final step oversizedWorld
      (composedSteps r ++ meanwhile .integrating none)).appended = [a] ∧
        a.before.status = .integrating) ∧
    ∀ a ∈ (Run.final step oversizedWorld
        (composedSteps r ++ meanwhile .integrating none)).appended,
      a.after = { a.before with
        items := a.before.items ++ a.newItems
        version := a.before.version + 1
        updatedAt := a.after.updatedAt } ∧
      SoundItems a.after.items ∧ a.before.status.terminal = false ∧
      (∃ leaf ∈ a.before.items, leaf.id = a.leafId) ∧
      (PlanTree.of a.before.items).isContainer a.leafId = false := by
  obtain ⟨r, session, hran, hminted, hitems⟩ := partRan
  obtain ⟨newItems, hcomposed⟩ := partComposed hminted hitems
  refine ⟨r, session, hran, ?_, ?_⟩
  · rw [composed_final hcomposed]
    exact ⟨_, rfl, rfl⟩
  · refine grafts_sound oversizedWorld _ oversizedWorld_opening
      (composed_promised hran hminted hcomposed ?_) ?_
    · refine ⟨trivial, trivial, trivial, trivial, ?_, trivial, trivial⟩
      intro leafId attempt items plan hgraft hrow
      cases hgraft
      cases hrow
      exact partFresh hran hminted hcomposed
    · refine ⟨fun plan leaf hconsidered => ?_, trivial, ?_⟩
      · cases hconsidered
        exact ⟨rfl, rfl⟩
      · have hf := composed_final hcomposed []
        rw [append_nil] at hf
        show Along Quiet (Run.final step oversizedWorld (composedSteps r)) _
        rw [hf]
        refine ⟨?_, ?_, ?_, trivial, ?_, trivial, trivial⟩
        · exact ⟨fun hk => hk.elim, fun plan hs => by cases hs⟩
        · exact ⟨fun hk => hk.elim, fun plan hs => by cases hs⟩
        · exact ⟨fun hk => hk.elim, fun plan hs => by cases hs⟩
        · intro leafId attempt items plan hgraft hlt hrow
          cases hgraft
          cases hrow
          exact ⟨rfl, ⟨oversizedLeaf, mem_cons_self, rfl, rfl⟩, by decide⟩

/-- The append re-reads a plan that is over, and is made all the same. -/
theorem graft_appended_to_failed_plan :
    ¬ ∀ (w : World) (steps : List Step), Opening w → Along Promised w steps →
      ∀ a ∈ (Run.final step w steps).appended,
        a.after = { a.before with
          items := a.before.items ++ a.newItems
          version := a.before.version + 1
          updatedAt := a.after.updatedAt } ∧
        SoundItems a.after.items ∧ a.before.status.terminal = false ∧
        (∃ leaf ∈ a.before.items, leaf.id = a.leafId) ∧
        (PlanTree.of a.before.items).isContainer a.leafId = false := by
  intro h
  obtain ⟨r, session, hran, hminted, hitems⟩ := partRan
  obtain ⟨newItems, hcomposed⟩ := partComposed hminted hitems
  have hlate : ∃ a, (Run.final step (composedWorld newItems)
      (meanwhile .failed (some "stopped"))).appended = [a] ∧ a.before.status = .failed :=
    ⟨_, rfl, rfl⟩
  obtain ⟨a, hlate, hfailed⟩ := hlate
  have hpromised : Along Promised (composedWorld newItems)
      (meanwhile .failed (some "stopped")) := by
    refine ⟨trivial, trivial, trivial, trivial, ?_, trivial, trivial⟩
    intro leafId attempt items plan hgraft hrow
    cases hgraft
    cases hrow
    exact partFresh hran hminted hcomposed
  have hfinal := composed_final hcomposed (meanwhile .failed (some "stopped"))
  obtain ⟨-, -, hlive, -⟩ := h oversizedWorld _ oversizedWorld_opening
    (composed_promised hran hminted hcomposed hpromised) a
    (by rw [hfinal, hlate]; exact mem_cons_self)
  rw [hfailed] at hlive
  cases hlive

end Synthorg.Initiative.Extension
