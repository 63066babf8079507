/-
Every call asks only for statements that are in order.

A transition steps along the lifecycle from the status the call has read, with the date that step
stamps; that the read sprint was stored well is what keeps `advance_sprint` from leaving a date
out.

A row is STORED WELL when the validators accept it and its dates are where its status has them.
-/
import Mathlib.Tactic.Linarith
import Synthorg.Sprints.Service

namespace Synthorg.Sprints

open List

section
open Synthorg.Core Lib

-- ==== the predicate

/-- What the model and the schema let a row hold. -/
structure Stored (r : Sprint) : Prop where
  accepted : r.accepted = true
  unstarted : r.status = .planning → r.startDate = none
  unended : r.status ≠ .completed → r.endDate = none

theorem validateStatusDateRequirements_iff (r : Sprint) : r.validateStatusDateRequirements = true ↔
      (r.status ≠ .planning → r.startDate.isSome) ∧
        (r.status = .completed → r.endDate.isSome) := by
  unfold Sprint.validateStatusDateRequirements
  cases hs : r.status <;> simp

theorem validateDateOrdering_iff (r : Sprint) : r.validateDateOrdering = true ↔
      ∀ start finish, r.startDate = some start → r.endDate = some finish → start ≤ finish := by
  unfold Sprint.validateDateOrdering
  cases hs : r.startDate with
  | none => simp
  | some start =>
    cases hf : r.endDate with
    | none | some finish => simp

variable {r r' : Sprint} {toState : SprintStatus} {startDate endDate : Option Int} {t t' : Table}
  {id : String} {rows : List Sprint} {s : Store}

/-- The schema's CHECK on the dates is the model's. -/
theorem Checked.dateOrdering (h : Checked r) : r.validateDateOrdering = true := by
  rw [validateDateOrdering_iff]
  intro start finish hs hf
  have ho := h.2.2.2.1
  rw [hs, hf] at ho
  simpa using ho

def Stamped (fromState toState : SprintStatus) (startDate endDate : Option Int) : Prop :=
  toState ∈ validSprintTransitions fromState ∧ (startDate.isSome ↔ toState = .active) ∧
    (endDate.isSome ↔ toState = .completed)

theorem Stored.transition (h : Stored r) (hstep : Stamped r.status toState startDate endDate)
    (hord : (transition toState startDate endDate r).validateDateOrdering = true) :
    Stored (transition toState startDate endDate r) := by
  obtain ⟨hv, hs, hend⟩ := hstep
  have hacc := h.accepted
  simp only [Sprint.accepted, Bool.and_eq_true] at hacc
  obtain ⟨⟨⟨⟨⟨hf, _⟩, hcollected⟩, hp⟩, hstory⟩, hd⟩ := hacc
  rw [validateStatusDateRequirements_iff] at hd
  have he : r.endDate = none := by
    refine h.unended ?_
    intro hc
    rw [hc] at hv
    simp [validSprintTransitions] at hv
  have hnew : (Sprints.transition toState startDate endDate r).validateStatusDateRequirements =
      true := by
    rw [validateStatusDateRequirements_iff]
    refine ⟨?_, ?_⟩
    · intro _
      show (startDate <|> r.startDate).isSome
      by_cases hact : toState = .active
      · have hsome := hs.2 hact
        cases startDate with
        | none => cases hsome
        | some start => rfl
      · have hstart : r.status ≠ .planning := by
          intro hplan
          rw [hplan] at hv
          exact hact (by simpa [validSprintTransitions] using hv)
        have hsome := hd.1 hstart
        cases startDate with
        | none => exact hsome
        | some start => rfl
    · intro hc
      show (endDate <|> r.endDate).isSome
      have hsome := hend.2 hc
      cases endDate with
      | none => cases hsome
      | some finish => rfl
  refine ⟨?_, ?_, ?_⟩
  · simp only [Sprint.accepted, Bool.and_eq_true]
    exact ⟨⟨⟨⟨⟨hf, hord⟩, hcollected⟩, hp⟩, hstory⟩, hnew⟩
  · intro hplan
    have ht : toState = .planning := hplan
    rw [ht] at hv
    cases hstatus : r.status <;> simp [hstatus, validSprintTransitions] at hv
  · intro hopen
    have hnone : endDate = none := by
      cases endDate with
      | none => rfl
      | some finish => exact absurd (hend.1 rfl) hopen
    show (endDate <|> r.endDate) = none
    rw [hnone, he]
    rfl

theorem Stored.parsed (h : Stored r) (hacc : r'.accepted = true)
    (hs : r'.status = r.status) (hstart : r'.startDate = r.startDate)
    (hend : r'.endDate = r.endDate) : Stored r' := by
  refine ⟨hacc, ?_, ?_⟩
  · rw [hs, hstart]
    exact h.unstarted
  · rw [hs, hend]
    exact h.unended

-- ==== how a row goes on

/-- A row goes on: at most one step, and nothing of its lists is lost. -/
structure Onward (r r' : Sprint) : Prop where
  id : r'.id = r.id
  status : r'.status = r.status ∨ r'.status ∈ validSprintTransitions r.status
  taskIds : r.taskIds <+: r'.taskIds
  completedTaskIds : r.completedTaskIds <+: r'.completedTaskIds

theorem Onward.rfl (r : Sprint) : Onward r r :=
  ⟨Eq.refl _, .inl (Eq.refl _), prefix_refl _, prefix_refl _⟩

/-- Every row of the table goes on. -/
def Goes (t t' : Table) : Prop := ∀ r ∈ t.rows, ∃ r' ∈ t'.rows, Onward r r'

theorem Goes.rfl (t : Table) : Goes t t := fun r hr => ⟨r, hr, Onward.rfl r⟩

-- ==== the table

theorem Table.mem_of_find (h : t.find id = some r) : r ∈ t.rows ∧ r.id = id := by
  refine ⟨mem_of_find?_eq_some h, ?_⟩
  simpa using find?_some h

theorem Table.eq_of_id (hr : r ∈ t.rows) (hr' : r' ∈ t.rows) (h : r.id = r'.id) : r = r' :=
  inj_on_of_nodup_map t.constraints.2.1 hr hr' h

theorem Table.find_of_mem (hr : r ∈ t.rows) : t.find r.id = some r := by
  cases h : t.find r.id with
  | none =>
    have hnone := find?_eq_none.1 h r hr
    simp at hnone
  | some r' =>
    obtain ⟨hr', hid⟩ := Table.mem_of_find h
    rw [Table.eq_of_id hr' hr hid]

theorem Table.write_ok (h : Table.write rows = .ok t) : t.rows = rows := by
  unfold Table.write at h
  split at h
  · cases h
    rfl
  · cases h

variable {f update : Sprint → Sprint} {fromState : SprintStatus} {moved : Bool}
  {guard : Sprint → Bool} {answer : Option Sprint} {entity : Sprint} {found : List Sprint}
  {α : Type} {op : Statement}

theorem Table.mem_updated : r' ∈ Table.updated rows id f ↔
      ∃ r ∈ rows, r' = if r.id = id then f r else r := by
  simp only [Table.updated, mem_map, eq_comm]

/-- What an UPDATE that keeps to the row's way does to the table. -/
theorem Goes.updated (ht : t'.rows = Table.updated t.rows id f)
    (hf : ∀ r ∈ t.rows, r.id = id → Onward r (f r)) : Goes t t' := by
  intro r hr
  refine ⟨if r.id = id then f r else r, ?_, ?_⟩
  · rw [ht, Table.mem_updated]
    exact ⟨r, hr, Eq.refl _⟩
  · split
    next hid => exact hf r hr hid
    · exact Onward.rfl r

-- ==== the statements

theorem transitionIf_ok
    (h : transitionIf t id fromState toState startDate endDate = .ok (t', moved)) :
    (t' = t ∧ moved = false ∧ ∀ r, t.find id = some r → r.status ≠ fromState) ∨
      (moved = true ∧ ∃ r, t.find id = some r ∧ r.status = fromState ∧
        t'.rows = Table.updated t.rows id (transition toState startDate endDate)) := by
  unfold transitionIf at h
  split at h
  · next r hr =>
    split at h
    · next hfrom =>
      refine .inr ?_
      cases hw : Table.write (Table.updated t.rows id (transition toState startDate endDate)) with
      | error e =>
        rw [hw] at h
        cases h
      | ok written =>
        rw [hw] at h
        cases h
        exact ⟨rfl, r, hr, hfrom, Table.write_ok hw⟩
    · next hfrom =>
      cases h
      refine .inl ⟨rfl, rfl, ?_⟩
      intro r' hr'
      rw [← Option.some.inj (hr.symm.trans hr')]
      exact hfrom
  · next hnone =>
    cases h
    exact .inl ⟨rfl, rfl, by simp [hnone]⟩

theorem guardedBacklogWrite_ok (h : guardedBacklogWrite t id guard update = .ok (t', answer)) :
    (t' = t ∧ answer = none) ∨
      ∃ r, t.find id = some r ∧ guard r = true ∧ (update r).accepted = true ∧
        answer = some (update r) ∧ t'.rows = Table.updated t.rows id update := by
  unfold guardedBacklogWrite at h
  split at h
  · next r hr =>
    split at h
    · next hg =>
      refine .inr ?_
      cases hw : Table.write (Table.updated t.rows id update) with
      | error e =>
        rw [hw] at h
        cases h
      | ok written =>
        rw [hw] at h
        by_cases hacc : (update r).accepted = true
        · have hp : rowToSprint (update r) = .ok (update r) := by
            simp [rowToSprint, hacc]
          simp only [hp] at h
          cases h
          exact ⟨r, hr, hg, hacc, rfl, Table.write_ok hw⟩
        · have href : rowToSprint (update r) = .error .malformedRow := by
            simp [rowToSprint, hacc]
          simp only [href] at h
          cases h
    · cases h
      exact .inl ⟨rfl, rfl⟩
  · cases h
    exact .inl ⟨rfl, rfl⟩

theorem save_ok (h : save t entity = .ok t') : t'.rows = t.rows ++ [entity] := by
  unfold save at h
  split at h
  · cases h
  · exact Table.write_ok h

-- ==== the step lemma

/-- What the calls bring to a statement. -/
def InOrder : Statement → Prop
  | .save entity => Stored entity
  | .transitionIf _ fromState toState startDate endDate =>
    Stamped fromState toState startDate endDate
  | _ => True

/-- What a statement hands back. -/
def WellRead : (op : Statement) → Reply op → Prop
  | .get _, found => ∀ r ∈ found, Stored r
  | .query _ _, found => ∀ r ∈ found, Stored r
  | .addTaskIfPlanning .., answer => ∀ r ∈ answer, Stored r
  | .completeTaskIf .., answer => ∀ r ∈ answer, Stored r
  | _, _ => True

/-- THE INVARIANT: rows are stored well, with every add and completion that was answered. -/
structure Inv (s : Store) : Prop where
  stored : ∀ r ∈ s.table.rows, Stored r
  added : ∀ a ∈ s.added, ∃ r ∈ s.table.rows, r.id = a.1 ∧ a.2 ∈ r.taskIds
  delivered : ∀ a ∈ s.delivered, ∃ r ∈ s.table.rows, r.id = a.1 ∧ a.2 ∈ r.completedTaskIds

theorem Inv.empty : Inv Store.empty where
  stored _ h := by simp [Store.empty, Table.empty] at h
  added _ h := by simp [Store.empty] at h
  delivered _ h := by simp [Store.empty] at h

theorem Inv.goes (h : Inv s) (hgoes : Goes s.table t) (hs : ∀ r ∈ t.rows, Stored r) :
    Inv { s with table := t } where
  stored := hs
  added a ha := by
    obtain ⟨r, hr, hid, hmem⟩ := h.added a ha
    obtain ⟨r', hr', hon⟩ := hgoes r hr
    exact ⟨r', hr', hon.id.trans hid, hon.taskIds.subset hmem⟩
  delivered a ha := by
    obtain ⟨r, hr, hid, hmem⟩ := h.delivered a ha
    obtain ⟨r', hr', hon⟩ := hgoes r hr
    exact ⟨r', hr', hon.id.trans hid, hon.completedTaskIds.subset hmem⟩

theorem save_spec (h : Inv s) (he : Stored entity) (hsave : save s.table entity = .ok t) :
    Goes s.table t ∧ ∀ r ∈ t.rows, Stored r := by
  have hrows := save_ok hsave
  refine ⟨?_, ?_⟩
  · intro r hr
    exact ⟨r, by rw [hrows]; exact mem_append_left _ hr, Onward.rfl r⟩
  · intro r hr
    rw [hrows, mem_append, mem_singleton] at hr
    cases hr with
    | inl hr => exact h.stored r hr
    | inr hr => rwa [hr]

theorem transitionIf_spec (h : Inv s) (hs : Stamped fromState toState startDate endDate)
    (hok : transitionIf s.table id fromState toState startDate endDate = .ok (t, moved)) :
    Goes s.table t ∧ ∀ r ∈ t.rows, Stored r := by
  obtain ⟨rfl, _⟩ | ⟨_, r₀, hfind, hfrom, hrows⟩ := transitionIf_ok hok
  · exact ⟨Goes.rfl _, h.stored⟩
  · obtain ⟨hr₀, hid₀⟩ := Table.mem_of_find hfind
    have hone : ∀ r ∈ s.table.rows, r.id = id → r.status = fromState := by
      intro r hr hid
      rw [Table.eq_of_id hr hr₀ (hid.trans hid₀.symm)]
      exact hfrom
    refine ⟨Goes.updated hrows ?_, ?_⟩
    · intro r hr hid
      refine ⟨rfl, .inr ?_, prefix_refl _, prefix_refl _⟩
      rw [hone r hr hid]
      exact hs.1
    · intro r' hr'
      have hc : Checked r' := t.constraints.1 r' hr'
      rw [hrows, Table.mem_updated] at hr'
      obtain ⟨r, hr, rfl⟩ := hr'
      by_cases hid : r.id = id
      · rw [if_pos hid] at hc ⊢
        rw [← hone r hr hid] at hs
        exact (h.stored r hr).transition hs hc.dateOrdering
      · rw [if_neg hid]
        exact h.stored r hr

theorem guardedBacklogWrite_spec (h : Inv s) (hk : ∀ r, (update r).status = r.status ∧
      (update r).startDate = r.startDate ∧ (update r).endDate = r.endDate)
    (ho : ∀ r, Onward r (update r)) {P : Sprint → Prop} (hdone : ∀ r, P (update r))
    (hok : guardedBacklogWrite s.table id guard update = .ok (t, answer)) :
    (Goes s.table t ∧ ∀ r ∈ t.rows, Stored r) ∧
      ∀ r ∈ answer, r ∈ t.rows ∧ r.id = id ∧ P r := by
  obtain ⟨rfl, rfl⟩ | ⟨r₀, hfind, _, hacc, rfl, hrows⟩ := guardedBacklogWrite_ok hok
  · exact ⟨⟨Goes.rfl _, h.stored⟩, by simp⟩
  · obtain ⟨hr₀, hid₀⟩ := Table.mem_of_find hfind
    refine ⟨⟨Goes.updated hrows fun r _ _ => ho r, ?_⟩, ?_⟩
    · intro r' hr'
      rw [hrows, Table.mem_updated] at hr'
      obtain ⟨r, hr, rfl⟩ := hr'
      by_cases hid : r.id = id
      · rw [if_pos hid]
        have hsame : r = r₀ := Table.eq_of_id hr hr₀ (hid.trans hid₀.symm)
        rw [hsame]
        exact (h.stored r₀ hr₀).parsed hacc (hk r₀).1 (hk r₀).2.1 (hk r₀).2.2
      · rw [if_neg hid]
        exact h.stored r hr
    · intro r hr
      cases hr
      refine ⟨?_, (ho r₀).id.trans hid₀, hdone r₀⟩
      rw [hrows, Table.mem_updated]
      exact ⟨r₀, hr₀, by rw [if_pos hid₀]⟩

theorem appendTask_onward (taskId : String) (storyPoints : ℚ) (r : Sprint) :
    Onward r (appendTask taskId storyPoints r) :=
  ⟨rfl, .inl rfl, prefix_append _ _, prefix_refl _⟩

theorem appendTask_keeps (taskId : String) (storyPoints : ℚ) (r : Sprint) :
    (appendTask taskId storyPoints r).status = r.status ∧
      (appendTask taskId storyPoints r).startDate = r.startDate ∧
      (appendTask taskId storyPoints r).endDate = r.endDate := ⟨rfl, rfl, rfl⟩

theorem appendCompletion_keeps (taskId : String) (r : Sprint) :
    (appendCompletion taskId r).status = r.status ∧
      (appendCompletion taskId r).startDate = r.startDate ∧
      (appendCompletion taskId r).endDate = r.endDate := ⟨rfl, rfl, rfl⟩

theorem appendCompletion_onward (taskId : String) (r : Sprint) :
    Onward r (appendCompletion taskId r) :=
  ⟨rfl, .inl rfl, prefix_refl _, prefix_append _ _⟩

theorem mapM_rowToSprint (h : rows.mapM rowToSprint = .ok found) : found = rows := by
  induction rows generalizing found with
  | nil =>
    cases h
    rfl
  | cons r rest ih =>
    rw [mapM_cons] at h
    by_cases hacc : r.accepted = true
    · have hp : rowToSprint r = .ok r := by simp [rowToSprint, hacc]
      rw [hp] at h
      cases hrest : rest.mapM rowToSprint with
      | error e =>
        rw [hrest] at h
        cases h
      | ok more =>
        rw [hrest] at h
        cases h
        rw [ih hrest]
    · have href : rowToSprint r = .error .malformedRow := by
        simp [rowToSprint, hacc]
      rw [href] at h
      cases h

theorem query_mem {spec : SprintFilterSpec} {limit : Nat} (h : query t spec limit = .ok found) :
    ∀ r ∈ found, r ∈ t.rows := by
  intro r hr
  rw [mapM_rowToSprint h] at hr
  have hin := mem_of_mem_take hr
  rw [ordered, mem_insertionSort] at hin
  exact mem_of_mem_filter hin

theorem writing_cases (env : Environment) (s : Store) (out : Except Error (Table × α))
    (ghosts : α → Store → Store) : (∃ e, writing env s out ghosts = (s, .error e)) ∨
      ∃ t a, out = .ok (t, a) ∧
        writing env s out ghosts = (ghosts a { s with table := t }, .ok a) := by
  unfold writing
  split
  · exact .inl ⟨_, rfl⟩
  · cases out with
    | error e => exact .inl ⟨e, rfl⟩
    | ok p => exact .inr ⟨p.1, p.2, rfl, rfl⟩

theorem reading_cases (env : Environment) (s : Store) (out : Except Error α) :
    reading env s out = (s, .error .queryError) ∨ reading env s out = (s, out) := by
  unfold reading
  split
  · exact .inl rfl
  · exact .inr rfl

/-- A statement keeps the invariant, and every row goes on. -/
def Keeps (s : Store) (op : Statement) (out : Store × Except Error (Reply op)) : Prop :=
  (Inv out.1 ∧ ∀ r, out.2 = .ok r → WellRead op r) ∧ Goes s.table out.1.table

theorem Keeps.reading (h : Inv s) {env : Environment} {out : Except Error (Reply op)}
    (hout : ∀ r, out = .ok r → WellRead op r) : Keeps s op (Sprints.reading env s out) := by
  obtain hread | hread := reading_cases env s out
  · rw [hread]
    exact ⟨⟨h, by simp⟩, Goes.rfl _⟩
  · rw [hread]
    exact ⟨⟨h, hout⟩, Goes.rfl _⟩

/-- STEP LEMMA: a statement in order. -/
theorem exec_keeps (h : Inv s) (hop : InOrder op) (env : Environment) :
    Keeps s op (exec s op env) := by
  cases op with
  | now | uuid4 => exact ⟨⟨h, fun _ _ => trivial⟩, Goes.rfl _⟩
  | sprintsActive | tasks status limit => exact Keeps.reading h fun _ _ => trivial
  | get id =>
    refine Keeps.reading h ?_
    intro found hf r hr
    cases hfind : s.table.find id with
    | none =>
      rw [hfind] at hf
      cases hf
      cases hr
    | some r₀ =>
      have hs := h.stored r₀ (Table.mem_of_find hfind).1
      rw [hfind] at hf
      simp only [Option.mapM_some, rowToSprint, hs.accepted] at hf
      cases hf
      cases hr
      exact hs
  | query spec limit =>
    refine Keeps.reading h ?_
    intro found hf r hr
    exact h.stored r (query_mem hf r hr)
  | save entity =>
    obtain ⟨e, hout⟩ | ⟨t, a, hok, hout⟩ := writing_cases env s
      ((save s.table entity).map fun t => (t, ())) (fun _ s => s)
    · simp only [exec, hout]
      exact ⟨⟨h, by simp⟩, Goes.rfl _⟩
    · cases hsave : save s.table entity with
      | error e =>
        rw [hsave] at hok
        cases hok
      | ok written =>
        obtain ⟨hgoes, hs⟩ := save_spec h hop hsave
        rw [hsave] at hok
        cases hok
        simp only [exec, hout]
        exact ⟨⟨h.goes hgoes hs, fun _ _ => trivial⟩, hgoes⟩
  | transitionIf id fromState toState startDate endDate =>
    obtain ⟨e, hout⟩ | ⟨t, a, hok, hout⟩ := writing_cases env s
      (transitionIf s.table id fromState toState startDate endDate) (fun _ s => s)
    · simp only [exec, hout]
      exact ⟨⟨h, by simp⟩, Goes.rfl _⟩
    · obtain ⟨hgoes, hs⟩ := transitionIf_spec h hop hok
      simp only [exec, hout]
      exact ⟨⟨h.goes hgoes hs, fun _ _ => trivial⟩, hgoes⟩
  | addTaskIfPlanning id taskId storyPoints maxTasks =>
    simp only [exec]
    generalize hg : (fun (answer : Option Sprint) (s : Store) =>
      if answer.isSome then { s with added := (id, taskId) :: s.added } else s) = ghosts
    obtain ⟨e, hout⟩ | ⟨t, answer, hok, hout⟩ := writing_cases env s
      (addTaskIfPlanning s.table id taskId storyPoints maxTasks) ghosts
    · rw [hout]
      exact ⟨⟨h, by simp⟩, Goes.rfl _⟩
    · obtain ⟨⟨hgoes, hs⟩, hanswer⟩ := guardedBacklogWrite_spec h
        (appendTask_keeps taskId storyPoints) (appendTask_onward taskId storyPoints)
        (P := fun r => taskId ∈ r.taskIds) (fun r => by simp [appendTask]) hok
      have hinv := h.goes hgoes hs
      rw [hout, ← hg]
      cases answer with
      | none => exact ⟨⟨hinv, fun _ ha _ hr => by cases ha; cases hr⟩, hgoes⟩
      | some r =>
        obtain ⟨hr, hid, hmem⟩ := hanswer r rfl
        refine ⟨⟨⟨hinv.stored, ?_, hinv.delivered⟩, ?_⟩, hgoes⟩
        · intro a ha
          cases mem_cons.1 ha with
          | inl ha => exact ⟨r, hr, by rw [ha, hid], by rw [ha]; exact hmem⟩
          | inr ha => exact hinv.added a ha
        · intro _ ha r' hr'
          cases ha
          cases hr'
          exact hs r hr
  | completeTaskIf id taskId =>
    simp only [exec]
    generalize hg : (fun (answer : Option Sprint) (s : Store) =>
      if answer.isSome then { s with delivered := (id, taskId) :: s.delivered } else s) = ghosts
    obtain ⟨e, hout⟩ | ⟨t, answer, hok, hout⟩ := writing_cases env s
      (completeTaskIf s.table id taskId) ghosts
    · rw [hout]
      exact ⟨⟨h, by simp⟩, Goes.rfl _⟩
    · obtain ⟨⟨hgoes, hs⟩, hanswer⟩ := guardedBacklogWrite_spec h
        (appendCompletion_keeps taskId) (appendCompletion_onward taskId)
        (P := fun r => taskId ∈ r.completedTaskIds) (fun r => by simp [appendCompletion]) hok
      have hinv := h.goes hgoes hs
      rw [hout, ← hg]
      cases answer with
      | none => exact ⟨⟨hinv, fun _ ha _ hr => by cases ha; cases hr⟩, hgoes⟩
      | some r =>
        obtain ⟨hr, hid, hmem⟩ := hanswer r rfl
        refine ⟨⟨⟨hinv.stored, hinv.added, ?_⟩, ?_⟩, hgoes⟩
        · intro a ha
          cases mem_cons.1 ha with
          | inl ha => exact ⟨r, hr, by rw [ha, hid], by rw [ha]; exact hmem⟩
          | inr ha => exact hinv.delivered a ha
        · intro _ ha r' hr'
          cases ha
          cases hr'
          exact hs r hr

end

open Synthorg.Core Lib Lib.Program

abbrev Orderly {α : Type} (p : Call α) (Q : α → Prop) : Prop := p.Meets InOrder WellRead Q

-- ==== the statements

theorem orderly_now : Orderly now fun _ => True := Meets.perform trivial

theorem orderly_uuid4 : Orderly uuid4 fun _ => True := Meets.perform trivial

theorem orderly_sprintsActive : Orderly sprintsActive fun _ => True := Meets.perform trivial

theorem orderly_tasks (status : TaskStatus) (limit : Nat) :
    Orderly (tasks status limit) fun _ => True := Meets.perform trivial

theorem orderly_get (id : String) : Orderly (get id) fun found => ∀ r ∈ found, Stored r :=
  Meets.perform trivial

theorem orderly_sprintsOf (spec : SprintFilterSpec) (limit : Nat) :
    Orderly (sprintsOf spec limit) fun found => ∀ r ∈ found, Stored r :=
  Meets.perform trivial

variable {entity : Sprint} {startDate : Option Int} {α : Type} {Q : α → Prop} {points : ℚ}

theorem orderly_saveSprint (h : Stored entity) :
    Orderly (saveSprint entity) fun _ => True := Meets.perform h

variable {endDate : Option Int} {s s' sprint : Sprint} {taskId : String} {target : SprintStatus}

theorem orderly_tryTransition (id : String) {fromState toState : SprintStatus}
    (h : Stamped fromState toState startDate endDate) :
    Orderly (tryTransition id fromState toState startDate endDate) fun _ => True :=
  Meets.perform h

theorem orderly_tryAddTask (id taskId : String) (storyPoints : ℚ) (maxTasks : Nat) :
    Orderly (tryAddTask id taskId storyPoints maxTasks) fun answer => ∀ r ∈ answer, Stored r :=
  Meets.perform trivial

theorem orderly_tryComplete (id taskId : String) :
    Orderly (tryComplete id taskId) fun answer => ∀ r ∈ answer, Stored r :=
  Meets.perform trivial

theorem orderly_ofExcept {out : Except Error α} (h : ∀ a, out = .ok a → Q a) :
    Orderly (ofExcept out) Q := by
  cases out with
  | ok a => exact h a rfl
  | error e => trivial

-- ==== sprints in memory

/-- A sprint in memory, before it is filed. -/
structure Assembled (s : Sprint) : Prop where
  stored : Stored s
  planning : s.status = .planning
  committed : s.storyPointsCommitted = Sprint.pointsTotal s.taskPoints
  small : s.storyPointsCommitted ≤ 8 * s.taskIds.length

theorem planningSprint_assembled {config : SprintConfig} {project : Option String} {id : String}
    {number : Nat} (h : planningSprint config project id number = .ok s) :
    Assembled s ∧ s.taskIds = [] := by
  simp only [planningSprint] at h
  split at h
  · next hacc =>
    cases h
    refine ⟨⟨⟨hacc, fun _ => rfl, fun _ => rfl⟩, rfl, ?_, ?_⟩, rfl⟩
    · simp [Sprint.pointsTotal]
    · simp
  · cases h

theorem setPoint_of_not_mem {points : Points} (value : ℚ) (h : taskId ∉ points.map Prod.fst) :
    setPoint points taskId value = points ++ [(taskId, value)] := by
  unfold setPoint
  rw [if_neg h]

theorem keys_subset (h : s.Accepted) (hkey : taskId ∈ s.taskPoints.map Prod.fst) :
    taskId ∈ s.taskIds := by
  obtain ⟨p, hp, rfl⟩ := mem_map.1 hkey
  exact h.keys p hp

theorem accepted_append (h : s.Accepted) (hplan : s.status = .planning)
    (hb : notBlank taskId = true) (hnew : taskId ∉ s.taskIds) (hsign : 0 ≤ points)
    (hceil : s.storyPointsCommitted + points ≤ storyPointsCeiling) :
    Sprint.Accepted { s with
      taskIds := s.taskIds ++ [taskId]
      taskPoints := s.taskPoints ++ [(taskId, points)]
      storyPointsCommitted := s.storyPointsCommitted + points } :=
  { h with
    tasksNotBlank t ht := by
      rw [mem_append, mem_singleton] at ht
      cases ht with
      | inl ht => exact h.tasksNotBlank t ht
      | inr ht => rwa [ht]
    committed := ⟨add_nonneg h.committed.1 hsign, hceil⟩
    tasksNodup := by
      rw [nodup_append]
      refine ⟨h.tasksNodup, nodup_singleton _, ?_⟩
      intro t ht u hu
      rw [mem_singleton.1 hu]
      intro htu
      exact hnew (htu ▸ ht)
    completedSubset t ht := mem_append_left _ (h.completedSubset t ht)
    keysNodup := by
      rw [map_append, nodup_append]
      refine ⟨h.keysNodup, nodup_singleton _, ?_⟩
      intro t ht u hu
      rw [mem_singleton.1 hu]
      intro htu
      rw [show t = taskId from htu] at ht
      exact hnew (keys_subset h ht)
    keys p hp := by
      rw [mem_append, mem_singleton] at hp
      cases hp with
      | inl hp => exact mem_append_left _ (h.keys p hp)
      | inr hp => simp [hp]
    signs p hp := by
      rw [mem_append, mem_singleton] at hp
      cases hp with
      | inl hp => exact h.signs p hp
      | inr hp => rwa [hp]
    total := by
      have httl := h.total
      have hsum : Sprint.pointsTotal (s.taskPoints ++ [(taskId, points)]) =
          Sprint.pointsTotal s.taskPoints + points := by
        simp [Sprint.pointsTotal]
      linarith
    story := by
      have hstory := h.story
      show s.storyPointsCompleted ≤ s.storyPointsCommitted + points
      linarith
    statusDates := by
      rw [validateStatusDateRequirements_iff]
      refine ⟨fun hne => absurd hplan hne, ?_⟩
      intro hc
      have hs : s.status = .completed := hc
      simp [hplan] at hs }

theorem addTaskToSprint_assembled (h : Assembled s) (hb : notBlank taskId = true)
    (hp : points ≤ 8) (hlen : s.taskIds.length < 500)
    (hadd : addTaskToSprint s taskId points = .ok s') :
    Assembled s' ∧ s'.taskIds.length = s.taskIds.length + 1 := by
  simp only [addTaskToSprint] at hadd
  split at hadd
  · cases hadd
  split at hadd
  · cases hadd
  split at hadd
  · cases hadd
  next hnew hsign =>
  have hsign : 0 ≤ points := not_lt.1 hsign
  have hacc := (Sprint.accepted_iff s).1 h.stored.accepted
  have hset : setPoint s.taskPoints taskId points = s.taskPoints ++ [(taskId, points)] :=
    setPoint_of_not_mem points fun hkey => hnew (keys_subset hacc hkey)
  have hs : s.storyPointsCommitted + points ≤ 8 * ((s.taskIds.length + 1 : Nat) : ℚ) := by
    have hbefore := h.small
    push_cast
    linarith
  have hceil : s.storyPointsCommitted + points ≤ storyPointsCeiling := by
    have hle : ((s.taskIds.length + 1 : Nat) : ℚ) ≤ 500 := by exact_mod_cast hlen
    unfold storyPointsCeiling
    linarith
  cases hadd
  rw [hset]
  refine ⟨⟨⟨?_, h.stored.unstarted, h.stored.unended⟩, h.planning, ?_, ?_⟩, by simp⟩
  · rw [Sprint.accepted_iff]
    exact accepted_append hacc h.planning hb hnew hsign hceil
  · simp [Sprint.pointsTotal, h.committed]
  · simpa using hs

theorem seeded_assembled {backlog : List BacklogTask} (h : Assembled s)
    (hlen : s.taskIds.length + backlog.length ≤ 500)
    (hseed : backlog.foldlM (fun sprint t => addTaskToSprint sprint t.id (storyPointsFor t)) s =
      .ok s') : Assembled s' := by
  induction backlog generalizing s with
  | nil =>
    cases hseed
    exact h
  | cons t rest ih =>
    rw [foldlM_cons] at hseed
    rw [length_cons] at hlen
    have hp : storyPointsFor t ≤ 8 := by
      unfold storyPointsFor complexityPoints
      split <;> norm_num
    cases hadd : addTaskToSprint s t.id (storyPointsFor t) with
    | error e =>
      rw [hadd] at hseed
      cases hseed
    | ok next =>
      rw [hadd] at hseed
      obtain ⟨hnext, hcnt⟩ := addTaskToSprint_assembled h t.idNotBlank hp (by omega) hadd
      exact ih hnext (by omega) hseed

theorem withTransition_ok (h : s.withTransition target startDate endDate = .ok s') :
    target ∈ validSprintTransitions s.status ∧
      s' = transition target startDate endDate s := by
  simp only [Sprint.withTransition, validateSprintTransition, decide_eq_true_eq] at h
  split at h
  · next hv =>
    cases h
    exact ⟨hv, rfl⟩
  · cases h

theorem Assembled.started (h : Assembled s) {startDate : Int}
    (hs : s.withTransition .active (some startDate) none = .ok s') : Stored s' := by
  obtain ⟨hv, rfl⟩ := withTransition_ok hs
  refine h.stored.transition ⟨hv, by simp, by simp⟩ ?_
  rw [validateDateOrdering_iff]
  intro start finish _ hf
  have hnone : s.endDate = none := h.stored.unended (by simp [h.planning])
  rw [show (transition .active (some startDate) none s).endDate = s.endDate from rfl, hnone] at hf
  cases hf

-- ==== the scope

theorem orderly_scopeOccupant (project : Option String) :
    Orderly (scopeOccupant project) fun _ => True :=
  (orderly_sprintsOf _ _).bind fun _ _ => trivial

theorem orderly_requireScopeFree (project : Option String) :
    Orderly (requireScopeFree project) fun _ => True := by
  refine (orderly_scopeOccupant project).bind ?_
  intro existing _
  split <;> trivial

theorem orderly_buildPlanningSprint (config : SprintConfig) (project : Option String) :
    Orderly (buildPlanningSprint config project) fun s => Assembled s ∧ s.taskIds = [] := by
  refine (orderly_sprintsOf _ _).bind ?_
  intro existing _
  refine orderly_uuid4.bind ?_
  intro id _
  exact orderly_ofExcept fun s hs => planningSprint_assembled hs

theorem orderly_trySave (h : Stored entity) : Orderly (trySave entity) fun _ => True := by
  refine Meets.handle ((orderly_saveSprint h).bind fun _ _ => trivial) ?_
  intro e
  split <;> trivial

theorem orderly_openSprintInScope (config : SprintConfig) (project : Option String)
    {prepare : Sprint → Call Sprint}
    (hp : ∀ s, Assembled s ∧ s.taskIds = [] → Orderly (prepare s) Stored)
    (attempts : Nat) :
    Orderly (openSprintInScope config project prepare attempts) fun _ => True := by
  induction attempts with
  | zero => trivial
  | succ attempts ih =>
    refine (orderly_buildPlanningSprint config project).bind ?_
    intro built hb
    refine (hp built hb).bind ?_
    intro sprint hs
    refine (orderly_trySave hs).bind ?_
    intro saved _
    split
    · trivial
    · refine (orderly_scopeOccupant project).bind ?_
      intro occupant _
      split
      · trivial
      · split
        · trivial
        · exact ih

-- ==== the overrides

theorem orderly_createSprint (config : SprintConfig) (project : Option String) :
    Orderly (createSprint config project) fun _ => True := by
  refine (orderly_requireScopeFree project).bind ?_
  intro _ _
  have hpure : ∀ s, Assembled s ∧ s.taskIds = [] → Orderly (pure s) Stored :=
    fun s hs => hs.1.stored
  refine (orderly_openSprintInScope config project hpure _).bind ?_
  intro opened _
  cases opened <;> trivial

theorem orderly_requireSprint (id : String) : Orderly (requireSprint id) Stored := by
  refine (orderly_get id).bind ?_
  intro found hf
  cases found with
  | none => trivial
  | some r => exact hf r rfl

theorem orderly_rejectedAddError (id taskId : String) (maxTasks : Nat) :
    Orderly (rejectedAddError id taskId maxTasks) fun _ => True := by
  refine (orderly_get id).bind ?_
  intro current _
  cases current with
  | none => trivial
  | some r =>
    dsimp only
    split
    · trivial
    · split <;> trivial

theorem orderly_addTask (config : SprintConfig) (id taskId : String) (storyPoints : ℚ) :
    Orderly (addTask config id taskId storyPoints) fun _ => True := by
  refine (orderly_requireSprint id).bind ?_
  intro sprint _
  split
  · trivial
  · split
    · trivial
    · split
      · trivial
      · refine (orderly_tryAddTask _ _ _ _).bind ?_
        intro updated _
        cases updated with
        | some r => trivial
        | none => exact (orderly_rejectedAddError _ _ _).bind fun _ _ => trivial

theorem orderly_startSprint (id : String) : Orderly (startSprint id) fun _ => True := by
  refine (orderly_requireSprint id).bind ?_
  intro sprint _
  split
  · trivial
  · refine orderly_now.bind ?_
    intro startDate _
    refine (orderly_ofExcept fun _ _ => trivial : Orderly _ fun _ => True).bind ?_
    intro started _
    refine (orderly_tryTransition id ⟨by decide, by simp, by simp⟩).bind ?_
    intro ok _
    split <;> trivial

theorem nextStatus_ok (h : nextStatus s = .ok target) :
    target ∈ validSprintTransitions s.status := by
  unfold nextStatus at h
  split at h
  · next targets ht =>
    cases h
    rw [ht]
    exact mem_cons_self
  · cases h

theorem transitionOverrides_stamped (h : Stored s)
    (hv : target ∈ validSprintTransitions s.status) (instant : Int) :
    Stamped s.status target (transitionOverrides s target instant).1
      (transitionOverrides s target instant).2 := by
  have he : s.endDate = none := by
    refine h.unended ?_
    intro hc
    rw [hc] at hv
    simp [validSprintTransitions] at hv
  refine ⟨hv, ?_, ?_⟩
  · by_cases hact : target = .active
    · have hplan : s.status = .planning := by
        rw [hact] at hv
        cases hs : s.status <;> simp [hs, validSprintTransitions] at hv
        rfl
      simp [transitionOverrides, h.unstarted hplan]
    · simp [transitionOverrides, hact]
  · by_cases hc : target = .completed
    · simp [transitionOverrides, he]
    · simp [transitionOverrides, hc]

theorem orderly_advanceSprint (id : String) : Orderly (advanceSprint id) fun _ => True := by
  refine (orderly_requireSprint id).bind ?_
  intro sprint hs
  refine (orderly_ofExcept fun target htar => nextStatus_ok htar).bind ?_
  intro target hv
  refine orderly_now.bind ?_
  intro instant _
  refine (orderly_ofExcept fun _ _ => trivial : Orderly _ fun _ => True).bind ?_
  intro advanced _
  refine (orderly_tryTransition id (transitionOverrides_stamped hs hv instant)).bind ?_
  intro ok _
  split <;> trivial

-- ==== the tail

theorem orderly_tryHop (h : Stamped sprint.status target none endDate) :
    Orderly (tryHop sprint target endDate) fun moved => ∀ m ∈ moved, m.status = target := by
  refine (orderly_tryTransition sprint.id h).bind ?_
  intro ok _
  split
  · refine (orderly_ofExcept fun m hm => (withTransition_ok hm).2).bind ?_
    intro moved hmoved m hm
    cases hm
    rw [hmoved]
    rfl
  · intro m hm
    cases hm

theorem orderly_openReviewIfDelivered (sprint : Sprint) :
    Orderly (openReviewIfDelivered sprint) fun _ => True := by
  unfold openReviewIfDelivered
  split
  · trivial
  · next hact =>
    split
    · trivial
    · have hs : sprint.status = .active := not_not.1 hact
      refine (orderly_tryHop ?_).bind fun _ _ => trivial
      rw [hs]
      exact ⟨by decide, by simp, by simp⟩

theorem orderly_finalizeIfDelivered (sprint : Sprint) :
    Orderly (finalizeIfDelivered sprint) fun _ => True := by
  unfold finalizeIfDelivered
  split
  · trivial
  · next hrev =>
    split
    · trivial
    · have hs : sprint.status = .inReview := not_not.1 hrev
      refine (orderly_tryHop (by rw [hs]; exact ⟨by decide, by simp, by simp⟩)).bind ?_
      intro retro hr
      cases retro with
      | none => trivial
      | some retro =>
        refine orderly_now.bind ?_
        intro endDate _
        refine (orderly_tryHop ?_).bind fun _ _ => trivial
        rw [hr retro rfl]
        exact ⟨by decide, by simp, by simp⟩

theorem orderly_advanceTail (sprint : Sprint) : Orderly (advanceTail sprint) fun _ => True :=
  (orderly_openReviewIfDelivered sprint).bind fun reviewing _ =>
    orderly_finalizeIfDelivered reviewing

-- ==== the observer

theorem orderly_collectBacklogFrom (cap : Nat) (collected : List BacklogTask)
    (statuses : List TaskStatus) :
    Orderly (collectBacklogFrom cap collected statuses) fun _ => True := by
  induction statuses generalizing collected with
  | nil => trivial
  | cons status rest ih =>
    unfold collectBacklogFrom
    split
    · trivial
    · exact (orderly_tasks status cap).bind fun page _ => ih _

theorem orderly_collectBacklog (config : SprintConfig) :
    Orderly (collectBacklog config) fun backlog => backlog.length ≤ 500 := by
  refine (orderly_collectBacklogFrom _ _ _).bind ?_
  intro collected _
  show (openBacklogTasks collected config.maxTasksPerSprint).length ≤ 500
  have hcap := config.maxTasks.2
  have htake := length_take_le config.maxTasksPerSprint
    (collected.filter fun t => t.status ∉ terminalTaskStatuses)
  unfold openBacklogTasks
  omega

theorem orderly_seedAndStart (config : SprintConfig) (h : Assembled sprint)
    (he : sprint.taskIds = []) : Orderly (seedAndStart config sprint) Stored := by
  refine (orderly_collectBacklog config).bind ?_
  intro backlog hlen
  refine (orderly_ofExcept fun seeded hsee =>
    seeded_assembled h (by rw [he]; simpa using hlen) hsee).bind ?_
  intro seeded hsee
  refine orderly_now.bind ?_
  intro startDate _
  exact orderly_ofExcept fun s hs => hsee.started hs

theorem orderly_ensureSprintForWork (config : SprintConfig) (project : String) :
    Orderly (ensureSprintForWork config project) fun _ => True := by
  refine (orderly_scopeOccupant _).bind ?_
  intro occupant _
  split
  · trivial
  · exact (orderly_openSprintInScope config _
      (fun s hs => orderly_seedAndStart config hs.1 hs.2) _).bind fun _ _ => trivial

theorem orderly_openSprint (project : Option String) : Orderly (openSprint project) fun _ => True :=
  (orderly_sprintsOf _ _).bind fun _ _ => trivial

theorem orderly_retrying {op : Call α} (h : Orderly op Q) (more : Nat) :
    Orderly (retrying op more) Q := by
  induction more with
  | zero => exact h
  | succ more ih =>
    refine h.handle ?_
    intro e
    split
    · trivial
    · exact ih

theorem orderly_recordCompletion (sprint : Sprint) (taskId : String) :
    Orderly (recordCompletion sprint taskId) fun _ => True := by
  refine (orderly_retrying (orderly_tryComplete _ _) _).bind ?_
  intro delivered _
  cases delivered with
  | some delivered => trivial
  | none =>
    refine (orderly_get _).bind ?_
    intro current _
    cases current with
    | none => trivial
    | some current =>
      dsimp only
      split <;> trivial

theorem orderly_handleCompletion (project taskId : String) :
    Orderly (handleCompletion project taskId) fun _ => True := by
  refine (orderly_openSprint _).bind ?_
  intro sprint _
  cases sprint with
  | none => trivial
  | some sprint =>
    dsimp only
    split
    · trivial
    · refine (orderly_recordCompletion _ _).bind ?_
      intro delivered _
      cases delivered with
      | none => trivial
      | some delivered => exact (orderly_advanceTail delivered).bind fun _ _ => trivial

theorem orderly_onTaskStateChanged (config : SprintConfig) (newStatus : TaskStatus)
    (project taskId : String) :
    Orderly (onTaskStateChanged config newStatus project taskId) fun _ => True := by
  refine orderly_sprintsActive.bind ?_
  intro active _
  split
  · trivial
  · cases newStatus with
    | assigned => exact orderly_ensureSprintForWork config project
    | completed => exact orderly_handleCompletion project taskId
    | _ => trivial

-- ==== the sweep

theorem orderly_unfinishedOf (status : SprintStatus) (rounds : Nat) (cursor : Option Key)
    (collected : List Sprint) :
    Orderly (unfinishedOf status rounds cursor collected) fun _ => True := by
  induction rounds generalizing cursor collected with
  | zero => trivial
  | succ rounds ih =>
    refine (orderly_sprintsOf _ _).bind ?_
    intro page _
    split
    · trivial
    · exact ih _ _

theorem orderly_unfinishedFrom (rounds : Nat) (collected : List Sprint)
    (statuses : List SprintStatus) :
    Orderly (unfinishedFrom rounds collected statuses) fun _ => True := by
  induction statuses generalizing collected with
  | nil => trivial
  | cons status rest ih => exact (orderly_unfinishedOf _ _ _ _).bind fun found _ => ih found

theorem orderly_completeRetrospective (hs : sprint.status = .retrospective) :
    Orderly (completeRetrospective sprint) fun _ => True := by
  refine orderly_now.bind ?_
  intro endDate _
  refine (orderly_tryHop ?_).bind fun _ _ => trivial
  rw [hs]
  exact ⟨by decide, by simp, by simp⟩

theorem orderly_reconcileOne (sprint : Sprint) : Orderly (reconcileOne sprint) fun _ => True := by
  unfold reconcileOne advanceIfDelivered
  split
  · trivial
  · split
    next hs => exact orderly_completeRetrospective hs
    · refine (orderly_advanceTail sprint).bind ?_
      intro moved _
      split <;> trivial

theorem orderly_attemptOne (sprint : Sprint) : Orderly (attemptOne sprint) fun _ => True :=
  Meets.handle ((orderly_reconcileOne sprint).bind fun _ _ => trivial) fun _ => trivial

theorem orderly_reconcileAll (report : SprintRecoveryReport) (sprints : List Sprint) :
    Orderly (reconcileAll report sprints) fun _ => True := by
  induction sprints generalizing report with
  | nil => trivial
  | cons sprint rest ih => exact (orderly_attemptOne sprint).bind fun moved _ => ih _

theorem orderly_reconcile (rounds : Nat) : Orderly (reconcile rounds) fun _ => True := by
  refine orderly_sprintsActive.bind ?_
  intro active _
  split
  · trivial
  · exact (orderly_unfinishedFrom _ _ _).bind fun sprints _ => orderly_reconcileAll _ _

-- ==== requests

theorem orderly_call (request : Request) : Orderly request.call fun _ => True := by
  cases request with
  | create config project => exact (orderly_createSprint config project).bind fun _ _ => trivial
  | addTask config id taskId storyPoints =>
    exact (orderly_addTask config id taskId storyPoints).bind fun _ _ => trivial
  | start id => exact (orderly_startSprint id).bind fun _ _ => trivial
  | advance id => exact (orderly_advanceSprint id).bind fun _ _ => trivial
  | observe config newStatus project taskId =>
    exact orderly_onTaskStateChanged config newStatus project taskId
  | reconcile rounds => exact (orderly_reconcile rounds).bind fun _ _ => trivial

/-- RUN LEMMA: the rows and the calls, after any interleaving. -/
theorem run_inv (requests : Nat → Request) (moves : List (Nat × Environment)) :
    Inv (Run.final (Pool.move exec) (world requests) moves).store ∧
      ∀ id, Orderly ((Run.final (Pool.move exec) (world requests) moves).calls id)
        fun _ => True := by
  have hexec : ∀ s op env, Inv s → InOrder op → Inv (exec s op env).1 ∧
      ∀ r, (exec s op env).2 = .ok r → WellRead op r :=
    fun _ _ env h hop => (exec_keeps h hop env).1
  have hc : ∀ id, Orderly ((world requests).calls id) fun _ => True :=
    fun id => orderly_call (requests id)
  exact Pool.invariant hexec (w := world requests) (Q := fun _ _ => True) Inv.empty hc moves

end Synthorg.Sprints
