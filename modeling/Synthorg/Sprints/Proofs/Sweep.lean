/-
The recovery sweep, alone with the table.

Paged by key, the sweep collects every row that is not completed: a row past
a full page sorts below its last one, so the next page admits it. It then
takes the rows one by one, and while nobody else writes each hop finds its
row where it was read. The schema lets every hop through but one: it refuses
to end a sprint before its start, so a sprint whose start the sweep's clock
has not reached stays in its retrospective.
-/
import Synthorg.Sprints.Proofs.Calls

namespace Synthorg.Sprints

open Synthorg.Core Lib Lib.Program

section
open List

-- ==== a quiet statement

/-- Sprints are on, the store works, and no reading of the clock is before `earliest`. -/
def Quiet (earliest : Int) (env : Environment) : Prop :=
  env.fails = false ∧ env.active = true ∧ earliest ≤ env.clock

abbrev Settles {α : Type} (earliest : Int) (p : Call α) (Q : Except Error α → Store → Prop)
    (s : Store) : Prop :=
  p.Ensures exec (Quiet earliest) Q s

variable {earliest : Int}

variable {α : Type} {toState status : SprintStatus} {startDate : Option Int} {s'' : Store}
  {clock : Int} {last : Sprint}

theorem reading_quiet {env : Environment} (henv : Quiet earliest env) (s : Store)
    (out : Except Error α) : reading env s out = (s, out) := by
  simp [reading, henv.1]

variable {s s' : Store} {rows found : List Sprint} {id : String} {t : Table} {r sprint : Sprint}
  {endDate : Option Int} {cursor : Option Key} {rounds : Nat}

theorem settles_now {f : Int → Call α} {Q : Except Error α → Store → Prop}
    (h : ∀ clock, earliest ≤ clock → Settles earliest (f clock) Q s) :
    Settles earliest (now >>= f) Q s := by
  refine Ensures.perform_bind ?_
  intro env henv
  exact h env.clock henv.2.2

-- ==== the schema holds

/-- An UPDATE of one row that the CHECKs admit and that opens no scope. -/
theorem Constraints.updated (h : Constraints rows) {f : Sprint → Sprint}
    (hid : ∀ r, (f r).id = r.id) (hproj : ∀ r, (f r).project = r.project)
    (hnum : ∀ r, (f r).sprintNumber = r.sprintNumber)
    (hc : ∀ r ∈ rows, r.id = id → Checked (f r))
    (hopen : ∀ r ∈ rows, r.id = id → r.status = .completed → (f r).status = .completed) :
    Constraints (Table.updated rows id f) := by
  obtain ⟨hrows, hids, hn, hs⟩ := h
  refine ⟨?_, ?_, ?_, ?_⟩
  · intro r' hr'
    obtain ⟨r, hr, rfl⟩ := Table.mem_updated.1 hr'
    split
    next heq => exact hc r hr heq
    · exact hrows r hr
  · have hsame : (Table.updated rows id f).map Sprint.id = rows.map Sprint.id := by
      rw [Table.updated, map_map]
      refine map_congr_left ?_
      intro r _
      simp only [Function.comp_apply]
      split
      · exact hid r
      · rfl
    rwa [hsame]
  · have hsame : (Table.updated rows id f).map (fun r => (r.project, r.sprintNumber)) =
        rows.map fun r => (r.project, r.sprintNumber) := by
      rw [Table.updated, map_map]
      refine map_congr_left ?_
      intro r _
      simp only [Function.comp_apply]
      split
      · rw [hproj, hnum]
      · rfl
    rwa [hsame]
  · have hf : (openScopes (Table.updated rows id f)).Sublist (openScopes rows) := by
      clear hrows hids hn hs hc
      induction rows with
      | nil => exact Sublist.refl _
      | cons r rest ih =>
        have htail := ih fun r' hr' => hopen r' (mem_cons_of_mem _ hr')
        have hhead := hopen r mem_cons_self
        simp only [openScopes, Table.updated, map_cons] at htail ⊢
        by_cases heq : r.id = id
        · simp only [heq]
          by_cases hdone : (f r).status = .completed
          · by_cases hwas : r.status = .completed
            · simpa [hdone, hwas] using htail
            · simpa [hdone, hwas] using htail.cons _
          · have hwas : r.status ≠ .completed := fun hwas => hdone (hhead heq hwas)
            simpa [hdone, hwas, hproj] using htail.cons_cons (r.project.getD "")
        · simp only [heq]
          by_cases hwas : r.status = .completed
          · simpa [hwas] using htail
          · simpa [hwas] using htail.cons_cons (r.project.getD "")
    exact hf.nodup hs

theorem transitionIf_of_checked (hr : r ∈ t.rows) (hv : toState ∈ validSprintTransitions r.status)
    (hchecked : Checked (transition toState startDate endDate r)) :
    ∃ t', transitionIf t r.id r.status toState startDate endDate = .ok (t', true) ∧
      t'.rows = Table.updated t.rows r.id (transition toState startDate endDate) := by
  have hopen : r.status ≠ .completed := by
    intro hc
    rw [hc] at hv
    simp [validSprintTransitions] at hv
  have hone : ∀ r' ∈ t.rows, r'.id = r.id → r' = r := fun r' hr' hid => Table.eq_of_id hr' hr hid
  have hw : Constraints (Table.updated t.rows r.id (transition toState startDate endDate)) := by
    refine t.constraints.updated (fun _ => rfl) (fun _ => rfl) (fun _ => rfl) ?_ ?_
    · intro r' hr' hid
      rw [hone r' hr' hid]
      exact hchecked
    · intro r' hr' hid hc
      rw [hone r' hr' hid] at hc
      exact absurd hc hopen
  refine ⟨⟨_, hw⟩, ?_, rfl⟩
  simp [transitionIf, Table.find_of_mem hr, Table.write, hw, Except.map]

theorem transitionIf_of_not_checked (hr : r ∈ t.rows)
    (hc : ¬ Checked (transition toState startDate endDate r)) :
    transitionIf t r.id r.status toState startDate endDate = .error .constraintViolation := by
  have href : ¬ Constraints (Table.updated t.rows r.id (transition toState startDate endDate)) := by
    intro h
    refine hc (h.1 _ ?_)
    exact Table.mem_updated.2 ⟨r, hr, by simp⟩
  simp [transitionIf, Table.find_of_mem hr, Table.write, href, Except.map]

-- ==== the hops

structure Beside (id : String) (s s' : Store) : Prop where
  inv : Inv s'
  others : ∀ r, r.id ≠ id → (r ∈ s'.table.rows ↔ r ∈ s.table.rows)

theorem Beside.refl (h : Inv s) (id : String) : Beside id s s :=
  ⟨h, fun _ _ => Iff.rfl⟩

theorem Beside.trans (h : Beside id s s') (h' : Beside id s' s'') : Beside id s s'' :=
  ⟨h'.inv, fun r hr => (h'.others r hr).trans (h.others r hr)⟩

/-- HOP LEMMA: the row is where it was read, and the hop is taken unless the CHECKs refuse. -/
theorem settles_tryHop (h : Inv s) (hr : sprint ∈ s.table.rows) {target : SprintStatus}
    (hs : Stamped sprint.status target none endDate) :
    Settles earliest (tryHop sprint target endDate) (fun out s' =>
      (Checked (transition target none endDate sprint) ∧
        out = .ok (some (transition target none endDate sprint)) ∧
        Beside sprint.id s s' ∧ transition target none endDate sprint ∈ s'.table.rows) ∨
      (¬ Checked (transition target none endDate sprint) ∧
        out = .error .constraintViolation ∧ s' = s)) s := by
  refine Ensures.perform_bind ?_
  intro env henv
  simp only [exec, writing, henv.1]
  by_cases hc : Checked (transition target none endDate sprint)
  · obtain ⟨t', hok, hrows⟩ := transitionIf_of_checked hr hs.1 hc
    obtain ⟨hgoes, hstore⟩ := transitionIf_spec h hs hok
    have hm : sprint.withTransition target none endDate =
        .ok (transition target none endDate sprint) := by
      simp [Sprint.withTransition, validateSprintTransition, hs.1, transition]
    rw [hok]
    simp only [hm]
    refine .inl ⟨hc, rfl, ⟨h.goes hgoes hstore, ?_⟩, ?_⟩
    · intro r hne
      show r ∈ t'.rows ↔ r ∈ s.table.rows
      rw [hrows, Table.mem_updated]
      constructor
      · intro hmem
        obtain ⟨r₀, hr₀, heq⟩ := hmem
        by_cases hid : r₀.id = sprint.id
        · rw [if_pos hid] at heq
          exact absurd (by rw [heq]; exact hid) hne
        · rw [if_neg hid] at heq
          rwa [heq]
      · intro hmem
        exact ⟨r, hmem, by rw [if_neg hne]⟩
    · show transition target none endDate sprint ∈ t'.rows
      rw [hrows, Table.mem_updated]
      exact ⟨sprint, hr, by simp⟩
  · rw [transitionIf_of_not_checked hr hc]
    exact .inr ⟨hc, rfl, rfl⟩

-- ==== the rows

def Swept (earliest : Int) (r : Sprint) : Prop :=
  (r.status ∈ openSprintStatuses → backlogFullyDelivered r = false) ∧
    (r.status = .retrospective → ∃ start, r.startDate = some start ∧ earliest < start)

def Left (earliest : Int) (id : String) (s s' : Store) : Prop :=
  Beside id s s' ∧ ∃ r ∈ s'.table.rows, r.id = id ∧ Swept earliest r

theorem Left.of_row (h : Inv s) (hr : r ∈ s.table.rows) (hs : Swept earliest r) :
    Left earliest r.id s s :=
  ⟨Beside.refl h r.id, r, hr, rfl, hs⟩

theorem Left.after (h : Beside id s s') (h' : Left earliest id s' s'') : Left earliest id s s'' :=
  ⟨h.trans h'.1, h'.2⟩

theorem Checked.transition (h : Checked r) (target : SprintStatus) :
    Checked (transition target none none r) := h

theorem start_of_not_checked (h : Checked r)
    (href : ¬ Checked (transition .completed none (some clock) r)) :
    ∃ start, r.startDate = some start ∧ clock < start := by
  obtain ⟨ht, hn, hp, _, hs⟩ := h
  cases hstart : r.startDate with
  | none =>
    refine absurd ⟨ht, hn, hp, ?_, hs⟩ href
    show (r.startDate.all fun start => start ≤ clock)
    simp [hstart]
  | some start =>
    refine ⟨start, rfl, ?_⟩
    by_contra hle
    refine href ⟨ht, hn, hp, ?_, hs⟩
    show (r.startDate.all fun start => start ≤ clock)
    simpa [hstart] using hle

theorem settles_close (h : Inv s) (hr : sprint ∈ s.table.rows)
    (hs : sprint.status = .retrospective) (hc : earliest ≤ clock) :
    Settles earliest (tryHop sprint .completed (some clock))
      (fun _ s' => Left earliest sprint.id s s') s := by
  have hstamped : Stamped sprint.status .completed none (some clock) := by
    rw [hs]
    exact ⟨by decide, by simp, by simp⟩
  refine (settles_tryHop h hr hstamped).mono ?_
  intro out s' hout
  obtain ⟨_, _, hb, hmem⟩ | ⟨href, _, rfl⟩ := hout
  · refine ⟨hb, _, hmem, rfl, ?_, ?_⟩
    · intro hopen
      simp [transition, openSprintStatuses] at hopen
    · intro hretro
      cases hretro
  · refine Left.of_row h hr ⟨?_, ?_⟩
    · intro hopen
      simp [hs, openSprintStatuses] at hopen
    · intro _
      obtain ⟨start, hstart, hlt⟩ := start_of_not_checked (s'.table.constraints.1 sprint hr) href
      exact ⟨start, hstart, lt_of_le_of_lt hc hlt⟩

theorem settles_finalizeIfDelivered (h : Inv s) (hr : sprint ∈ s.table.rows)
    (hopen : sprint.status ∈ openSprintStatuses)
    (hact : sprint.status = .active → backlogFullyDelivered sprint = false) :
    Settles earliest (finalizeIfDelivered sprint)
      (fun _ s' => Left earliest sprint.id s s') s := by
  have hn : sprint.status ≠ .retrospective := by
    intro hretro
    simp [hretro, openSprintStatuses] at hopen
  have hstays : backlogFullyDelivered sprint = false → Left earliest sprint.id s s := by
    intro hnot
    exact Left.of_row h hr ⟨fun _ => hnot, fun hretro => absurd hretro hn⟩
  unfold finalizeIfDelivered
  split
  · next hrev =>
    have hs : sprint.status = .active := by
      cases hs : sprint.status <;> simp [hs, openSprintStatuses] at hopen hrev
      rfl
    exact hstays (hact hs)
  · next hrev =>
    split
    next hnot => exact hstays (by simpa using hnot)
    · have hs : sprint.status = .inReview := not_not.1 hrev
      have hc := s.table.constraints.1 sprint hr
      refine (settles_tryHop h hr (by rw [hs]; exact ⟨by decide, by simp, by simp⟩)).bind ?_ ?_
      · intro retro s₁ hout
        obtain ⟨_, hretro, hb, hmem⟩ | ⟨href, _, _⟩ := hout
        · cases hretro
          refine settles_now ?_
          intro clock hclock
          refine (settles_close hb.inv hmem rfl hclock).bind ?_ ?_
          · intro completed s₂ hleft
            exact Left.after hb hleft
          · intro e s₂ hleft
            exact Left.after hb hleft
        · exact absurd (hc.transition _) href
      · intro e s₁ hout
        obtain ⟨_, hretro, _⟩ | ⟨href, _, _⟩ := hout
        · cases hretro
        · exact absurd (hc.transition _) href

/-- The tail from ACTIVE on. -/
theorem settles_advanceTail (h : Inv s) (hr : sprint ∈ s.table.rows)
    (hopen : sprint.status ∈ openSprintStatuses) :
    Settles earliest (advanceTail sprint) (fun _ s' => Left earliest sprint.id s s') s := by
  have hc := s.table.constraints.1 sprint hr
  unfold advanceTail openReviewIfDelivered
  split
  · next hact =>
    exact settles_finalizeIfDelivered h hr hopen fun hs => absurd hs hact
  · next hact =>
    split
    · next hnot =>
      exact settles_finalizeIfDelivered h hr hopen fun _ => by simpa using hnot
    · have hs : sprint.status = .active := not_not.1 hact
      refine Ensures.bind (Q := fun out s₁ => ∃ r, out = .ok r ∧ r.id = sprint.id ∧
        r.status = .inReview ∧ Beside sprint.id s s₁ ∧ r ∈ s₁.table.rows) ?_ ?_ ?_
      · refine (settles_tryHop h hr (by rw [hs]; exact ⟨by decide, by simp, by simp⟩)).bind ?_ ?_
        · intro moved s₁ hout
          obtain ⟨_, hm, hb, hmem⟩ | ⟨href, _, _⟩ := hout
          · cases hm
            exact ⟨_, rfl, rfl, rfl, hb, hmem⟩
          · exact absurd (hc.transition _) href
        · intro e s₁ hout
          obtain ⟨_, hm, _⟩ | ⟨href, _, _⟩ := hout
          · cases hm
          · exact absurd (hc.transition _) href
      · intro r s₁ hout
        obtain ⟨r', hr', hid, hrev, hb, hmem⟩ := hout
        cases hr'
        refine (settles_finalizeIfDelivered hb.inv hmem
          (by simp [hrev, openSprintStatuses]) ?_).mono ?_
        · intro hstill
          simp [hrev] at hstill
        · intro out s₂ hleft
          rw [hid] at hleft
          exact Left.after hb hleft
      · intro e s₁ hout
        obtain ⟨r, hr, _⟩ := hout
        cases hr

theorem settles_attemptOne (h : Inv s) (hr : sprint ∈ s.table.rows)
    (hu : sprint.status ≠ .completed) :
    Settles earliest (attemptOne sprint)
      (fun out s' => (∃ moved, out = .ok moved) ∧ Left earliest sprint.id s s') s := by
  refine Ensures.handle (Q := fun out s' =>
    Left earliest sprint.id s s') (R := fun out s' => (∃ moved, out = .ok moved) ∧
      Left earliest sprint.id s s') ?_ (fun moved s' hleft => ⟨⟨moved, rfl⟩, hleft⟩)
      (fun e s' hleft => ⟨⟨none, rfl⟩, hleft⟩)
  refine Ensures.bind (Q := fun _ s' => Left earliest sprint.id s s') ?_
    (fun _ _ hleft => hleft) (fun _ _ hleft => hleft)
  unfold reconcileOne advanceIfDelivered
  split
  · next hplan =>
    refine Left.of_row h hr ⟨?_, ?_⟩
    · intro hopen
      simp [hplan, openSprintStatuses] at hopen
    · intro hretro
      simp [hplan] at hretro
  · next hplan =>
    split
    · next hretro =>
      refine settles_now ?_
      intro clock hc
      exact (settles_close h hr hretro hc).bind (fun _ _ hleft => hleft) (fun _ _ hleft => hleft)
    · next hretro =>
      have hopen : sprint.status ∈ openSprintStatuses := by
        cases hs : sprint.status <;> simp [hs] at hu hplan hretro <;>
          simp [openSprintStatuses]
      refine (settles_advanceTail h hr hopen).bind ?_ (fun _ _ hleft => hleft)
      intro moved s' hleft
      split <;> exact hleft

structure Remaining (earliest : Int) (rest : List Sprint) (s : Store) : Prop where
  inv : Inv s
  mem : ∀ r ∈ rest, r ∈ s.table.rows
  unfinished : ∀ r ∈ rest, r.status ≠ .completed
  distinct : (rest.map Sprint.id).Nodup
  swept : ∀ r ∈ s.table.rows, r ∉ rest → Swept earliest r

theorem Remaining.next {rest : List Sprint} (h : Remaining earliest (sprint :: rest) s)
    (hleft : Left earliest sprint.id s s') : Remaining earliest rest s' := by
  obtain ⟨hb, left, hmem, hid, hs⟩ := hleft
  have hd := h.distinct
  rw [map_cons, nodup_cons] at hd
  have ho : ∀ r ∈ rest, r.id ≠ sprint.id := by
    intro r hr hsame
    exact hd.1 (hsame ▸ mem_map_of_mem hr)
  refine ⟨hb.inv, ?_, ?_, hd.2, ?_⟩
  · intro r hr
    exact (hb.others r (ho r hr)).2 (h.mem r (mem_cons_of_mem _ hr))
  · intro r hr
    exact h.unfinished r (mem_cons_of_mem _ hr)
  · intro r hr hrest
    by_cases hsame : r.id = sprint.id
    · rwa [Table.eq_of_id hr hmem (hsame.trans hid.symm)]
    · refine h.swept r ((hb.others r hsame).1 hr) ?_
      intro hin
      cases mem_cons.1 hin with
      | inl heq => exact hsame (by rw [heq])
      | inr hin => exact hrest hin

theorem settles_reconcileAll {sprints : List Sprint} (h : Remaining earliest sprints s)
    (report : SprintRecoveryReport) :
    Settles earliest (reconcileAll report sprints)
      (fun out s' => (∃ report, out = .ok report) ∧ ∀ r ∈ s'.table.rows, Swept earliest r) s := by
  induction sprints generalizing s report with
  | nil => exact ⟨⟨report, rfl⟩, fun r hr => h.swept r hr (by simp)⟩
  | cons sprint rest ih =>
    refine (settles_attemptOne h.inv (h.mem sprint mem_cons_self)
      (h.unfinished sprint mem_cons_self)).bind ?_ ?_
    · intro moved s' hout
      exact ih (h.next hout.2) _
    · intro e s' hout
      obtain ⟨moved, hm⟩ := hout.1
      cases hm

-- ==== the pages

structure Collected (t : Table) (found : List Sprint) : Prop where
  mem : ∀ r ∈ found, r ∈ t.rows
  distinct : (found.map Sprint.id).Nodup

structure Gathered (t : Table) (found page more : List Sprint) : Prop where
  collected : Collected t more
  kept : ∀ r ∈ found, r ∈ more
  read : ∀ r ∈ page, r ∈ more
  only : ∀ r ∈ more, r ∈ found ∨ r ∈ page

theorem Collected.collect (h : Collected t found) (hr : r ∈ t.rows) :
    Gathered t found [r] (collect found r) := by
  unfold Sprints.collect
  split
  · next hin =>
    have hsame : (found.map fun x => if x.id = r.id then r else x) = found := by
      conv_rhs => rw [← map_id found]
      refine map_congr_left ?_
      intro x hx
      split
      next hid => exact (Table.eq_of_id (h.mem x hx) hr hid).symm
      · rfl
    rw [hsame]
    obtain ⟨x, hx, hid⟩ := mem_map.1 hin
    have hxr : x = r := Table.eq_of_id (h.mem x hx) hr hid
    refine ⟨h, fun _ hy => hy, ?_, fun _ hy => .inl hy⟩
    intro y hy
    rwa [mem_singleton.1 hy, ← hxr]
  · next hnew =>
    refine ⟨⟨?_, ?_⟩, fun x hx => mem_append_left _ hx,
      fun x hx => mem_append_right _ hx, fun x hx => mem_append.1 hx⟩
    · intro x hx
      rw [mem_append, mem_singleton] at hx
      cases hx with
      | inl hx => exact h.mem x hx
      | inr hx => rwa [hx]
    · rw [map_append, nodup_append]
      refine ⟨h.distinct, nodup_singleton _, ?_⟩
      intro x hx y hy hxy
      rw [hxy, mem_singleton.1 hy] at hx
      exact hnew hx

theorem Collected.page {page : List Sprint} (h : Collected t found)
    (hpage : ∀ r ∈ page, r ∈ t.rows) :
    Gathered t found page (page.foldl Sprints.collect found) := by
  induction page generalizing found with
  | nil => exact ⟨h, fun _ hx => hx, by simp, fun _ hx => .inl hx⟩
  | cons r rest ih =>
    have hone := h.collect (hpage r mem_cons_self)
    have hrest := ih hone.collected fun x hx => hpage x (mem_cons_of_mem _ hx)
    refine ⟨hrest.collected, fun x hx => hrest.kept x (hone.kept x hx), ?_, ?_⟩
    · intro x hx
      cases mem_cons.1 hx with
      | inl hx => exact hrest.kept x (hone.read x (by simp [hx]))
      | inr hx => exact hrest.read x hx
    · intro x hx
      cases hrest.only x hx with
      | inl hx =>
        refine (hone.only x hx).imp_right ?_
        intro hx
        rw [mem_singleton.1 hx]
        exact mem_cons_self
      | inr hx => exact .inr (mem_cons_of_mem _ hx)

def pageOf (status : SprintStatus) (cursor : Option Key) : SprintFilterSpec :=
  ⟨none, some status, false, cursor⟩

theorem admits_pageOf : (pageOf status cursor).admits r = true ↔
      status = r.status ∧ ∀ after ∈ cursor, key r < after := by
  cases cursor <;> simp [SprintFilterSpec.admits, pageOf]

theorem query_of_inv (h : Inv s) (spec : SprintFilterSpec) (limit : Nat) :
    query s.table spec limit =
      .ok ((ordered (s.table.rows.filter spec.admits)).take (min limit maxPageLimit)) := by
  have hp : ∀ rows : List Sprint, (∀ r ∈ rows, r ∈ s.table.rows) →
      rows.mapM rowToSprint = (.ok rows : Except Error (List Sprint)) := by
    intro rows hrows
    induction rows with
    | nil => rfl
    | cons r rest ih =>
      have hacc := (h.stored r (hrows r mem_cons_self)).accepted
      rw [mapM_cons, ih fun x hx => hrows x (mem_cons_of_mem _ hx)]
      simp only [rowToSprint, hacc]
      rfl
  refine hp _ ?_
  intro r hr
  have hin := mem_of_mem_take hr
  rw [ordered, mem_insertionSort] at hin
  exact mem_of_mem_filter hin

theorem key_lt_of_drop (hrows : rows.Sublist t.rows) {n : Nat}
    (hlast : ((ordered rows).take n).getLast? = some last) (hr : r ∈ (ordered rows).drop n) :
    key r < key last := by
  have hperm : (ordered rows).Perm rows := perm_insertionSort _ _
  have hsort : (ordered rows).Pairwise fun a b => key b ≤ key a := pairwise_insertionSort _ _
  have hmem : last ∈ (ordered rows).take n := mem_of_getLast? hlast
  have hle : key r ≤ key last := by
    rw [← take_append_drop n (ordered rows), pairwise_append] at hsort
    exact hsort.2.2 last hmem r hr
  have hids : ((ordered rows).map Sprint.id).Nodup :=
    (hperm.map _).nodup_iff.2 ((hrows.map _).nodup t.constraints.2.1)
  refine lt_of_le_of_ne hle ?_
  intro hkey
  have hid : r.id = last.id := congrArg (fun k : Key => (ofLex k).2) hkey
  rw [← take_append_drop n (ordered rows), map_append, nodup_append] at hids
  exact hids.2.2 last.id (mem_map_of_mem hmem) r.id (mem_map_of_mem hr) hid.symm

theorem next_page {all : List Sprint} (hrows : all.filter (pageOf status cursor).admits = rows)
    (hlast : last ∈ rows) :
    all.filter (pageOf status (some (key last))).admits =
      rows.filter fun r => key r < key last := by
  rw [← hrows] at hlast ⊢
  obtain ⟨_, hadmits⟩ := mem_filter.1 hlast
  rw [admits_pageOf] at hadmits
  rw [filter_filter]
  refine filter_congr ?_
  intro r _
  rw [Bool.eq_iff_iff, Bool.and_eq_true, decide_eq_true_eq, admits_pageOf, admits_pageOf]
  constructor
  · intro h
    have hlt := h.2 (key last) rfl
    exact ⟨hlt, h.1, fun after ha => lt_trans hlt (hadmits.2 after ha)⟩
  · intro h
    refine ⟨h.2.1, ?_⟩
    intro after ha
    cases ha
    exact h.1

theorem settles_unfinishedOf (h : Inv s) (status : SprintStatus) (hf : Collected s.table found)
    (hrounds : (s.table.rows.filter (pageOf status cursor).admits).length < rounds) :
    Settles earliest (unfinishedOf status rounds cursor found) (fun out s' => s' = s ∧
      ∃ more, out = .ok more ∧ Gathered s.table found
        (s.table.rows.filter (pageOf status cursor).admits) more) s := by
  induction rounds generalizing cursor found with
  | zero => exact absurd hrounds (Nat.not_lt_zero _)
  | succ rounds ih =>
    refine Ensures.perform_bind ?_
    intro env henv
    rw [show exec s (.query ⟨none, some status, false, cursor⟩ maxPageSize) env =
      (s, query s.table (pageOf status cursor) maxPageSize) from reading_quiet henv s _,
      query_of_inv h]
    generalize hrows : s.table.rows.filter (pageOf status cursor).admits = rows at hrounds ⊢
    have hsub : rows.Sublist s.table.rows := hrows ▸ filter_sublist
    have hsort : ∀ r, r ∈ ordered rows ↔ r ∈ rows := fun r => mem_insertionSort _
    have hm : ∀ r ∈ (ordered rows).take (min maxPageSize maxPageLimit), r ∈ rows :=
      fun r hr => (hsort r).1 (mem_of_mem_take hr)
    have hpage := hf.page fun r hr => hsub.subset (hm r hr)
    show Settles earliest (if _ then _ else _) _ s
    split
    · next hs =>
      have hall : (ordered rows).take (min maxPageSize maxPageLimit) = ordered rows := by
        refine take_of_length_le ?_
        rw [length_take] at hs
        simp only [maxPageSize, maxPageLimit] at hs ⊢
        omega
      refine ⟨rfl, _, rfl, hpage.collected, hpage.kept, ?_, ?_⟩
      · intro r hr
        refine hpage.read r ?_
        rwa [hall, hsort]
      · intro r hr
        exact (hpage.only r hr).imp_right (hm r)
    · next hfull =>
      cases hlast : ((ordered rows).take (min maxPageSize maxPageLimit)).getLast? with
      | none =>
        rw [getLast?_eq_none_iff] at hlast
        rw [hlast] at hfull
        simp [maxPageSize] at hfull
      | some last =>
        have he : last ∈ rows := hm last (mem_of_getLast? hlast)
        have hnext := next_page hrows he
        have hfewer : (rows.filter fun r => key r < key last).length < rows.length :=
          length_filter_lt_length_iff_exists.2 ⟨last, he, by simp⟩
        refine (ih hpage.collected (by rw [Option.map_some, hnext]; omega)).mono ?_
        intro out s' hout
        obtain ⟨hs', more, hmore, hg⟩ := hout
        rw [Option.map_some, hnext] at hg
        refine ⟨hs', more, hmore, hg.collected,
          fun x hx => hg.kept x (hpage.kept x hx), ?_, ?_⟩
        · intro r hr
          have hin : r ∈ ordered rows := (hsort r).2 hr
          rw [← take_append_drop (min maxPageSize maxPageLimit) (ordered rows),
            mem_append] at hin
          cases hin with
          | inl hin => exact hg.kept r (hpage.read r hin)
          | inr hin =>
            refine hg.read r (mem_filter.2 ⟨hr, ?_⟩)
            exact decide_eq_true (key_lt_of_drop hsub hlast hin)
        · intro r hr
          cases hg.only r hr with
          | inl hr => exact (hpage.only r hr).imp_right (hm r)
          | inr hr => exact .inr (mem_of_mem_filter hr)

theorem settles_unfinishedFrom (h : Inv s) (hrounds : s.table.rows.length < rounds)
    (statuses : List SprintStatus) (hf : Collected s.table found) :
    Settles earliest (unfinishedFrom rounds found statuses) (fun out s' => s' = s ∧
      ∃ more, out = .ok more ∧ Gathered s.table found
        (s.table.rows.filter fun r => r.status ∈ statuses) more) s := by
  induction statuses generalizing found with
  | nil => exact ⟨rfl, found, rfl, hf, fun _ hx => hx, by simp, fun _ hx => .inl hx⟩
  | cons status rest ih =>
    have hmem : ∀ r, r ∈ s.table.rows.filter (pageOf status none).admits ↔
        r ∈ s.table.rows ∧ status = r.status := by
      intro r
      rw [mem_filter, admits_pageOf]
      simp
    have hfew : (s.table.rows.filter (pageOf status none).admits).length < rounds :=
      lt_of_le_of_lt (length_filter_le _ _) hrounds
    refine (settles_unfinishedOf h status hf hfew).bind ?_ ?_
    · intro one t hout
      obtain ⟨rfl, one', hone', hone⟩ := hout
      cases hone'
      refine (ih hone.collected).mono ?_
      intro out t' hout
      obtain ⟨ht', more, hmore, hrest⟩ := hout
      refine ⟨ht', more, hmore, hrest.collected, fun x hx => hrest.kept x (hone.kept x hx), ?_, ?_⟩
      · intro r hr
        obtain ⟨hrow, hs⟩ := mem_filter.1 hr
        cases mem_cons.1 (of_decide_eq_true hs) with
        | inl heq => exact hrest.kept r (hone.read r ((hmem r).2 ⟨hrow, heq.symm⟩))
        | inr hin => exact hrest.read r (mem_filter.2 ⟨hrow, decide_eq_true hin⟩)
      · intro r hr
        cases hrest.only r hr with
        | inl hr =>
          refine (hone.only r hr).imp_right ?_
          intro hr
          obtain ⟨hrow, heq⟩ := (hmem r).1 hr
          exact mem_filter.2 ⟨hrow, by simp [heq]⟩
        | inr hr =>
          obtain ⟨hrow, hs⟩ := mem_filter.1 hr
          refine .inr (mem_filter.2 ⟨hrow, ?_⟩)
          exact decide_eq_true (mem_cons_of_mem _ (of_decide_eq_true hs))
    · intro e t hout
      obtain ⟨_, more, hmore, _⟩ := hout
      cases hmore

/-- SWEEP LEMMA: alone with a table of rows stored well, a sweep leaves every
row swept. -/
theorem settles_reconcile (h : Inv s) (hrounds : s.table.rows.length < rounds) :
    Settles earliest (reconcile rounds)
      (fun out s' => (∃ report, out = .ok report) ∧ ∀ r ∈ s'.table.rows, Swept earliest r) s := by
  refine Ensures.perform_bind ?_
  intro env henv
  rw [show exec s .sprintsActive env = (s, .ok env.active) from reading_quiet henv s _, henv.2.1]
  refine (settles_unfinishedFrom h hrounds _ ⟨by simp, by simp⟩).bind ?_ ?_
  · intro sprints t hout
    obtain ⟨rfl, sprints', hsame, hg⟩ := hout
    cases hsame
    refine settles_reconcileAll ⟨h, hg.collected.mem, ?_, hg.collected.distinct, ?_⟩ _
    · intro r hr
      obtain hnone | hr := hg.only r hr
      · cases hnone
      · obtain ⟨_, hs⟩ := mem_filter.1 hr
        intro hc
        simp [hc] at hs
    · intro r hr hnot
      have hc : r.status = .completed := by
        by_contra hopen
        refine hnot (hg.read r (mem_filter.2 ⟨hr, ?_⟩))
        cases hs : r.status <;> simp [hs] at hopen ⊢
      refine ⟨?_, ?_⟩
      · intro hopen
        simp [hc, openSprintStatuses] at hopen
      · intro hretro
        simp [hc] at hretro
  · intro e t hout
    obtain ⟨_, more, hmore, _⟩ := hout
    cases hmore

end

-- ==== forward steps

/-- STEP LEMMA: a move of any call lets every row go on. -/
theorem move_goes {w : World} (hstr : Inv w.store)
    (hc : ∀ id, Orderly (w.calls id) fun _ => True) (i : Nat × Environment) :
    Goes w.store.table (Pool.move exec w i).store.table := by
  have hcall := hc i.1
  unfold Pool.move
  split
  · next op next hnext =>
    rw [hnext] at hcall
    exact (exec_keeps hstr hcall.1 i.2).2
  · exact Goes.rfl _

-- ==== a sweep alone

def leftAlone (w : World) (id : Nat) (envs : Nat → Environment) (n : Nat) : World :=
  Run.final (Pool.move exec) w ((List.range n).map fun k => (id, envs k))

theorem leftAlone_swept {w : World} (h : Inv w.store) {id rounds : Nat}
    (hcall : w.calls id = (Request.reconcile rounds).call)
    (hr : w.store.table.rows.length < rounds) {earliest : Int}
    {envs : Nat → Environment} (hqt : ∀ k, Quiet earliest (envs k)) {n : Nat}
    (hover : ((leftAlone w id envs n).calls id).Over) :
    ∀ r ∈ (leftAlone w id envs n).store.table.rows, Swept earliest r := by
  have hs : (w.calls id).Ensures exec (Quiet earliest)
      (fun _ s => ∀ r ∈ s.table.rows, Swept earliest r) w.store := by
    rw [hcall]
    refine (settles_reconcile h hr).bind ?_ ?_
    · intro report s hout
      exact hout.2
    · intro e s hout
      exact hout.2
  have hall : ∀ env ∈ (List.range n).map envs, Quiet earliest env := by
    intro env henv
    obtain ⟨k, _, rfl⟩ := List.mem_map.1 henv
    exact hqt k
  have hm : (List.range n).map (fun k => (id, envs k)) =
      ((List.range n).map envs).map fun env => (id, env) := by
    rw [List.map_map]
    rfl
  have ha := Pool.alone hs hall
  rw [← hm] at ha
  obtain ⟨_, hswept⟩ := ha.over hover
  exact hswept

-- ==== what is promised

structure Promised (w : World) : Prop where
  readable : ∀ r ∈ w.store.table.rows, rowToSprint r = .ok r
  forward : ∀ i, Goes w.store.table (Pool.move exec w i).store.table
  added : ∀ a ∈ w.store.added, ∃ r ∈ w.store.table.rows, r.id = a.1 ∧ a.2 ∈ r.taskIds
  delivered : ∀ a ∈ w.store.delivered,
    ∃ r ∈ w.store.table.rows, r.id = a.1 ∧ a.2 ∈ r.completedTaskIds
  /-- A sweep not yet begun, with rounds enough to page through the table. -/
  swept : ∀ id rounds, w.calls id = (Request.reconcile rounds).call →
    w.store.table.rows.length < rounds → ∀ earliest envs, (∀ k, Quiet earliest (envs k)) →
      (∃ n, ((leftAlone w id envs n).calls id).Over) ∧
        ∀ n, ((leftAlone w id envs n).calls id).Over →
          ∀ r ∈ (leftAlone w id envs n).store.table.rows, Swept earliest r

/-- RUN LEMMA: the promises hold after every interleaving. -/
theorem sprints_promised (requests : Nat → Request) (moves : List (Nat × Environment)) :
    Promised (Run.final (Pool.move exec) (world requests) moves) := by
  obtain ⟨hstore, hcalls⟩ := run_inv requests moves
  refine ⟨?_, move_goes hstore hcalls, hstore.added, hstore.delivered, ?_⟩
  · intro r hr
    exact if_pos (hstore.stored r hr).accepted
  · intro id rounds hcall hrounds earliest envs hquiet
    exact ⟨Pool.alone_over _ id envs, fun n => leftAlone_swept hstore hcall hrounds hquiet⟩

-- ==== a clock steps back

def oneTask : SprintConfig := ⟨14, 1, by decide, by decide⟩

def oneTaskAt (clock : Int) : Environment :=
  ⟨clock, "s", true, [⟨"t", .created, .simple, by decide⟩], false⟩

def oneTaskSprint : Nat → Request
  | 0 => .observe oneTask .assigned "p" "t"
  | 1 => .observe oneTask .completed "p" "t"
  | _ => .reconcile 2

/-- The sprint starts at 10; the clock then reads 5, and the tail's last hop is refused. -/
def steppedBack : List (Nat × Environment) :=
  List.replicate 9 (0, oneTaskAt 10) ++ List.replicate 9 (1, oneTaskAt 5)

/-- The sprint's completion is recorded, and its process dies before the tail. -/
def tailLost : List (Nat × Environment) :=
  List.replicate 9 (0, oneTaskAt 10) ++ List.replicate 3 (1, oneTaskAt 10)

theorem reconcile_not_begun {moves : List (Nat × Environment)} (h : ∀ i ∈ moves, i.1 ≠ 2) :
    (Run.final (Pool.move exec) (world oneTaskSprint) moves).calls 2 =
      (Request.reconcile 2).call :=
  Pool.unmoved _ h

/-- A sweep alone may leave a retrospective. -/
theorem reconcile_leaves_retrospective :
    ¬ ∀ (requests : Nat → Request) (moves : List (Nat × Environment)) (id rounds : Nat)
        (envs : Nat → Environment) (n : Nat),
        let w := Run.final (Pool.move exec) (world requests) moves
        w.calls id = (Request.reconcile rounds).call → w.store.table.rows.length < rounds →
          (∀ k, (envs k).fails = false ∧ (envs k).active = true) →
            ((leftAlone w id envs n).calls id).Over →
              ∀ r ∈ (leftAlone w id envs n).store.table.rows, r.status ≠ .retrospective := by
  intro h
  have hrows : (leftAlone (Run.final (Pool.move exec) (world oneTaskSprint) steppedBack) 2
      (fun _ => oneTaskAt 5) 7).store.table.rows.map Sprint.status = [.retrospective] := by
    decide +kernel
  have hone := h oneTaskSprint steppedBack 2 2 (fun _ => oneTaskAt 5) 7
    (reconcile_not_begun (by decide)) (by decide +kernel) (fun _ => ⟨rfl, rfl⟩)
    (by decide +kernel)
  obtain ⟨r, hr, hstatus⟩ := List.mem_map.1
    (show SprintStatus.retrospective ∈ _ by rw [hrows]; exact List.mem_singleton.2 rfl)
  exact hone r hr hstatus

/-- The sweep after a lost tail, and the sprint it was for. -/
theorem sprints_promised_swept :
    (Run.final (Pool.move exec) (world oneTaskSprint) tailLost).store.table.rows.map
        (fun r => (r.status, backlogFullyDelivered r)) = [(.active, true)] ∧
      ((leftAlone (Run.final (Pool.move exec) (world oneTaskSprint) tailLost) 2
        (fun _ => oneTaskAt 12) 9).store.table.rows.map Sprint.status = [.completed]) ∧
      ∀ r ∈ (leftAlone (Run.final (Pool.move exec) (world oneTaskSprint) tailLost) 2
        (fun _ => oneTaskAt 12) 9).store.table.rows, Swept 12 r := by
  refine ⟨by decide +kernel, by decide +kernel, ?_⟩
  exact ((sprints_promised oneTaskSprint tailLost).swept 2 2 (reconcile_not_begun (by decide))
    (by decide +kernel) 12 (fun _ => oneTaskAt 12) (fun _ => ⟨rfl, rfl, le_refl _⟩)).2 9
    (by decide +kernel)

end Synthorg.Sprints
