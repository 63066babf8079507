/-
What the walks of a plan commit, whoever else writes it.

A hop is judged on the plan its caller read, and committed on the row that is stored. THE
INVARIANT bridges the two: a plan held at the stored version is held at the stored status. A
revision moves the version, and the writers that leave it alone leave the status alone; the
recovery sweep does neither, nor does a row filed again.
-/
import Synthorg.Initiative.PlanAdvance

namespace Synthorg.Initiative

open Synthorg.Core Lib
open List

-- ==== the invariant

structure Current (p r : Plan) : Prop where
  older : p.version ≤ r.version
  status : p.version = r.version → p.status = r.status

def Held (row : Option Plan) (p : Plan) : Prop :=
  rowAllowed p = true ∧ ∀ r, row = some r → Current p r

structure Caller.Sound (row : Option Plan) (c : Caller) : Prop where
  held : ∀ p, c.held = some p → Held row p
  hops : ∀ drive p hops, c = .walking drive p hops →
    Hops p.status hops ∧ .completed ∉ hops

structure Hop.Sound (h : Hop) : Prop where
  legal : planMachine.Allows h.before.status h.after.status
  not_completed : h.after.status ≠ .completed
  live : h.before.status.terminal = false
  reason : h.after.failureReason ≠ none ↔ h.after.status = .failed

/-- THE INVARIANT. -/
structure Inv (w : World) : Prop where
  row : ∀ r, w.row = some r → rowAllowed r = true
  callers : ∀ i, (w.callers i).Sound w.row
  committed : ∀ h ∈ w.committed, h.Sound

variable {p r r' : Plan} {row row' : Option Plan} {c : Caller} {w : World} {i : Nat}

theorem reason_of_rowAllowed (h : rowAllowed p = true) :
    p.failureReason ≠ none ↔ p.status = .failed := by
  exact (of_decide_eq_true (Bool.and_eq_true_iff.1 h).1).symm

theorem held_row (hrow : ∀ r, row = some r → rowAllowed r = true) (h : row = some p) :
    Held row p := by
  refine ⟨hrow p h, fun r hr => ?_⟩
  rw [h] at hr
  cases hr
  exact ⟨le_refl _, fun _ => rfl⟩

theorem sound_of_held (hheld : ∀ p, c.held = some p → Held row p)
    (hs : ∀ drive p hops, c ≠ .walking drive p hops) : c.Sound row where
  held := hheld
  hops := fun drive p hops h => absurd h (hs drive p hops)

theorem sound_idle (row : Option Plan) : Caller.idle.Sound row :=
  sound_of_held (fun p h => by cases h) fun drive p hops h => by cases h

theorem sound_holding (h : Held row p) : (Caller.holding p).Sound row := by
  refine sound_of_held ?_ fun drive p hops h => by cases h
  intro q hq
  cases hq
  exact h

theorem sound_holdRow (hrow : ∀ r, row = some r → rowAllowed r = true) :
    (holdRow row).Sound row := by
  cases hrow' : row with
  | none => exact sound_idle none
  | some p => exact sound_holding (hrow' ▸ held_row hrow hrow')

-- ==== the walks

theorem sound_beginWalk (h : Held row p) (drive : Drive) (target : PlanStatus) :
    (beginWalk drive p target).Sound row := by
  unfold beginWalk
  cases hpath : transitionPath p.status target with
  | none => exact sound_idle row
  | some hops =>
    obtain ⟨hhops, hc, -⟩ := transitionPath_sound hpath
    cases hops with
    | nil => exact sound_holding h
    | cons hop hops =>
      refine ⟨fun q hq => ?_, fun drive' q hops' hq => ?_⟩
      · cases hq
        exact h
      · cases hq
        exact ⟨hhops, hc⟩

theorem sound_retryWalk (h : Held row p) (drive : Drive) (target : PlanStatus)
    (reason : Option String) : (retryWalk drive p target reason).Sound row := by
  unfold retryWalk
  split
  next => exact sound_beginWalk h _ target
  next => exact sound_idle row

theorem sound_resolveConflict (hrow : ∀ r, row = some r → rowAllowed r = true) (drive : Drive) :
    (resolveConflict drive row).Sound row := by
  cases hs : row with
  | none => exact sound_idle none
  | some refreshed =>
    rw [← hs]
    have hheld := held_row hrow hs
    rw [hs]
    unfold resolveConflict
    dsimp only
    rw [← hs]
    split
    next => exact sound_holding hheld
    next =>
      split
      next => exact sound_retryWalk hheld drive _ _
      next =>
        refine sound_of_held (fun p hp => ?_) fun drive p hops h => by cases h
        cases hp
        exact hheld

theorem sound_rederive {refreshed : Plan} (h : Held row refreshed) (drive : Drive)
    (tasks : List Task) : (rederive drive refreshed tasks).Sound row := by
  unfold rederive
  dsimp only
  split
  next => exact sound_holding h
  next => exact sound_retryWalk h drive _ _

-- ==== the row

theorem Caller.Sound.moved (h : c.Sound row)
    (hm : ∀ p, c.held = some p → Held row p → Held row' p) : c.Sound row' where
  held := fun p hp => hm p hp (h.held p hp)
  hops := h.hops

theorem Held.bumped (h : Held (some r) p) (hv : r'.version = r.version + 1) :
    Held (some r') p := by
  refine ⟨h.1, fun q hq => ?_⟩
  cases hq
  have hc := h.2 r rfl
  have holder := hc.older
  exact ⟨by omega, fun heq => by omega⟩

theorem Held.touched (h : Held (some r) p) (hv : r'.version = r.version)
    (hs : r'.status = r.status) : Held (some r') p := by
  refine ⟨h.1, fun q hq => ?_⟩
  cases hq
  have hc := h.2 r rfl
  refine ⟨by rw [hv]; exact hc.older, fun heq => ?_⟩
  rw [hs]
  exact hc.status (heq.trans hv)

theorem Held.other (h : Held (some r) p) (hv : r'.version = r.version)
    (hne : p.version ≠ r.version) : Held (some r') p := by
  refine ⟨h.1, fun q hq => ?_⟩
  cases hq
  have holder := (h.2 r rfl).older
  exact ⟨by omega, fun heq => absurd (heq.trans hv) hne⟩

theorem held_self (h : rowAllowed p = true) : Held (some p) p :=
  held_row (fun r hr => by cases hr; exact h) rfl

-- ==== the condition

/-- What makes the walks safe: no status is rewritten under a version a caller holds, as only
the recovery sweep would, and no row is filed again meanwhile. -/
def Quiet (w : World) : Step → Prop
  | .write i .stageApproved => ∀ plan, w.callers i = .holding plan →
      ∀ j, j ≠ i → ∀ p, (w.callers j).held = some p → p.version ≠ plan.version
  | .write i .failUnfilled => ∀ plan, w.callers i = .holding plan →
      ∀ j, j ≠ i → ∀ p, (w.callers j).held = some p → p.version ≠ plan.version
  | .create _ => ∀ j, (w.callers j).held = none
  | _ => True

theorem Inv.put (h : Inv w) (hc : c.Sound w.row) : Inv (w.put i c) where
  row := h.row
  callers := (Function.forall_update_iff _ fun _ (c : Caller) => c.Sound w.row).2
    ⟨hc, fun j _ => h.callers j⟩
  committed := h.committed

theorem Inv.moved (h : Inv w) {hops : List Hop} (hrow : ∀ r, row' = some r → rowAllowed r = true)
    (hc : c.Sound row')
    (ho : ∀ j, j ≠ i → ∀ p, (w.callers j).held = some p → Held w.row p → Held row' p)
    (hhops : ∀ hop ∈ hops, hop.Sound) :
    Inv { w.put i c with row := row', committed := w.committed ++ hops } where
  row := hrow
  callers := (Function.forall_update_iff _ fun _ (c : Caller) => c.Sound row').2
    ⟨hc, fun j hj => (h.callers j).moved (ho j hj)⟩
  committed := by
    intro hop hhop
    rcases mem_append.1 hhop with hold | hnew
    · exact h.committed hop hold
    · exact hhops hop hnew

/-- STEP LEMMA of a walk: its hop is sound, and so are the readings of the row it leaves. -/
theorem Inv.commitHop (h : Inv w) {drive : Drive} {current : Plan} {hop : PlanStatus}
    {hops : List PlanStatus} {now : Int}
    (hcall : w.callers i = .walking drive current (hop :: hops)) :
    Inv (commitHop w i drive current hop hops now) := by
  have hsnd := h.callers i
  rw [hcall] at hsnd
  obtain ⟨hpath, hc⟩ := hsnd.hops drive current (hop :: hops) rfl
  have hheld := hsnd.held current rfl
  have hconflicted : ∀ drive : Drive, (Caller.conflicted drive).Sound w.row := fun drive =>
    sound_of_held (fun p hp => by cases hp) fun drive p hops h => by cases h
  unfold Initiative.commitHop
  dsimp only
  split
  next before after hb hsync =>
    obtain ⟨-, hreason, stored, hs, hv, ha, hafter⟩ := syncStatus_ok hsync
    obtain rfl : stored = before := Option.some.inj (hs.symm.trans hb)
    have hstatus : after.status = hop := by rw [hafter, decided_status]
    have hbump : after.version = stored.version + 1 := by
      rw [hafter, decided_version, hv]
    have hsame : current.status = stored.status := (hheld.2 stored hs).status hv.symm
    have hrow : ∀ r, some after = some r → rowAllowed r = true := by
      intro r hr
      cases hr
      exact ha
    refine h.moved hrow ?_ ?_ ?_
    · split
      next => exact sound_holding (held_self ha)
      next =>
        refine ⟨fun p hp => ?_, fun drive' p hops' hp => ?_⟩
        · cases hp
          exact held_self ha
        · cases hp
          rw [hstatus]
          exact ⟨hpath.2, fun hmem => hc (mem_cons_of_mem _ hmem)⟩
    · intro j _ p _ hp
      rw [hs] at hp
      exact hp.bumped hbump
    · intro committed hmem
      obtain rfl := mem_singleton.1 hmem
      have hl : planMachine.Allows stored.status after.status := by
        rw [← hsame, hstatus]
        exact hpath.1
      refine ⟨hl, ?_, not_terminal_of_allows hl, reason_of_rowAllowed ha⟩
      intro hd
      rw [hstatus] at hd
      exact hc (hd ▸ mem_cons_self)
  next =>
    refine h.put ?_
    split
    next => exact hconflicted drive
    next => exact sound_idle w.row
  next => exact h.put (sound_idle w.row)

/-- STEP LEMMA of the other writers. -/
theorem Inv.commitRevision (h : Inv w) {plan : Plan} {revision : Revision}
    (hcall : w.callers i = .holding plan) (hqt : Quiet w (.write i revision)) :
    Inv (commitRevision w i plan revision) := by
  have hheld := (h.callers i).held plan (by rw [hcall]; rfl)
  unfold Initiative.commitRevision
  split
  next =>
    cases hu : update w.row (revision.written plan) plan.version with
    | error e => exact h.put (sound_idle w.row)
    | ok written =>
      obtain ⟨stored, hs, hv, ha, rfl⟩ := update_ok_iff.1 hu
      have hsame : plan.status = stored.status := (hheld.2 stored hs).status hv.symm
      have hrow : ∀ r, some (revision.written plan) = some r → rowAllowed r = true := by
        intro r hr
        cases hr
        exact ha
      have ho : ∀ j, j ≠ i → ∀ p, (w.callers j).held = some p →
          Held w.row p → Held (some (revision.written plan)) p := by
        intro j hj p hp hc
        rw [hs] at hc
        cases revision with
        | revise revised =>
          refine hc.bumped ?_
          show plan.version + 1 = stored.version + 1
          rw [hv]
        | resolveDecisions items now => exact hc.touched hv.symm hsame
        | stageApproved | failUnfilled => exact hc.other hv.symm (hv ▸ hqt plan hcall j hj p hp)
      have hm := h.moved hrow (sound_holding (held_self ha)) ho (forall_mem_nil _)
      rw [append_nil] at hm
      exact hm
  next => exact h

theorem Inv.setRow (h : Inv w) (hrow : ∀ r, row' = some r → rowAllowed r = true)
    (hall : ∀ j p, (w.callers j).held = some p → Held w.row p → Held row' p) :
    Inv { w with row := row' } where
  row := hrow
  callers := fun j => (h.callers j).moved (hall j)
  committed := h.committed

/-- STEP LEMMA: every quiet step keeps the invariant. -/
theorem Inv.step (h : Inv w) {s : Step} (hqt : Quiet w s) : Inv (step w s) := by
  cases s with
  | read i =>
    unfold Initiative.step
    dsimp only
    split
    next => exact h.put (sound_holdRow h.row)
    next => exact h.put (sound_holdRow h.row)
    next => exact h
  | start i retries target reason =>
    unfold Initiative.step
    dsimp only
    split
    next plan hcall =>
      refine h.put (sound_beginWalk ?_ _ target)
      exact (h.callers i).held plan (by rw [hcall]; rfl)
    next => exact h
  | hop i now =>
    unfold Initiative.step
    dsimp only
    split
    next drive current hop hops hcall => exact h.commitHop hcall
    next => exact h
  | reread i =>
    unfold Initiative.step
    dsimp only
    split
    next drive hcall => exact h.put (sound_resolveConflict h.row drive)
    next => exact h
  | derive i tasks =>
    unfold Initiative.step
    dsimp only
    split
    next drive refreshed hcall =>
      refine h.put (sound_rederive ?_ drive tasks)
      exact (h.callers i).held refreshed (by rw [hcall]; rfl)
    next => exact h
  | stop i => exact h.put (sound_idle w.row)
  | write i revision =>
    unfold Initiative.step
    dsimp only
    split
    next plan hcall => exact h.commitRevision hcall hqt
    next => exact h
  | progress snapshot =>
    unfold Initiative.step
    cases hs : w.row with
    | none =>
      refine h.setRow (fun r hr => by cases hr) fun j p _ hheld => ?_
      rw [hs] at hheld
      exact hheld
    | some stored =>
      obtain ⟨hv, hstart, ha⟩ := stamped_kept snapshot stored
      refine h.setRow (fun r hr => ?_) fun j p _ hheld => ?_
      · cases hr
        exact ha.trans (h.row stored hs)
      · rw [hs] at hheld
        exact hheld.touched hv hstart
  | create plan =>
    unfold Initiative.step
    dsimp only
    split
    next created hc =>
      refine h.setRow ?_ fun j p hp => ?_
      · intro r hr
        cases hr
        unfold create at hc
        split at hc
        next => cases hc
        next =>
          split at hc
          next ha =>
            cases hc
            exact ha
          next => cases hc
      · simp [hqt j] at hp
    next => exact h
  | delete =>
    refine h.setRow (fun r hr => by cases hr) fun j p _ hheld => ?_
    exact ⟨hheld.1, fun r hr => by cases hr⟩

-- ==== the runs

def QuietRun : World → List Step → Prop
  | _, [] => True
  | w, s :: rest => Quiet w s ∧ QuietRun (step w s) rest

structure Opening (w : World) : Prop where
  row : ∀ r, w.row = some r → rowAllowed r = true
  callers : ∀ i, w.callers i = .idle
  committed : w.committed = []

theorem Opening.inv (h : Opening w) : Inv w where
  row := h.row
  callers := fun i => h.callers i ▸ sound_idle w.row
  committed := by
    rw [h.committed]
    exact forall_mem_nil _

/-- RUN LEMMA: a quiet run keeps the invariant. -/
theorem Inv.run {steps : List Step} (h : Inv w) (hqt : QuietRun w steps) :
    Inv (Run.final Initiative.step w steps) := by
  refine Run.invariant (G := QuietRun) (P := Inv) ?_ ?_ hqt h
  · exact fun w s rest hG => hG.2
  · exact fun w s rest hG hInv => hInv.step hG.1

/-- WALKS: in every quiet run each committed hop is in the table, no walk delivers a plan or
moves a terminal one, and a reason is written on exactly the hops into FAILED. -/
theorem walked_hops_sound (w : World) (steps : List Step) (hopening : Opening w)
    (hquiet : QuietRun w steps) :
    ∀ hop ∈ (Run.final step w steps).committed,
      planMachine.Allows hop.before.status hop.after.status ∧
        hop.after.status ≠ .completed ∧ hop.before.status.terminal = false ∧
        (hop.after.failureReason ≠ none ↔ hop.after.status = .failed) := by
  intro hop hmem
  have hsound := (hopening.inv.run hquiet).committed hop hmem
  exact ⟨hsound.legal, hsound.not_completed, hsound.live, hsound.reason⟩

-- ==== a shell, failed

theorem shellId_canonical :
    isCanonicalUuid "1e64b7d8-0f93-4a52-8c3b-d7f29a5e6b10" = true := by decide

def shellPlan : Plan where
  id := ⟨_, shellId_canonical⟩
  project := "atlas"
  projectName := "Atlas"
  objectiveId := "charter"
  objectiveTitle := "Ship the site"
  parentTaskId := "6f1c2f0e-3b0a-4f5e-9d51-0c8f6d0e4a11"
  items := []
  status := .planning
  createdAt := 0
  updatedAt := 0

/-- Its row, before anybody reads it. -/
def shellWorld : World where
  row := some shellPlan
  callers := fun _ => .idle
  committed := []

theorem shellWorld_opening : Opening shellWorld where
  row := fun r hr => by
    cases hr
    decide
  callers := fun _ => rfl
  committed := rfl

def failedShell : List Step :=
  [.read 0, .read 1, .start 0 true .failed (some "no strategy"), .hop 0 7]

/-- `walked_hops_sound` at work on the shell: a failure, with its reason. -/
theorem walked_hops_sound_shell : (Run.final step shellWorld failedShell).committed.length = 1 ∧
      ∀ hop ∈ (Run.final step shellWorld failedShell).committed,
        planMachine.Allows hop.before.status hop.after.status ∧
          hop.after.status ≠ .completed ∧ hop.before.status.terminal = false ∧
          (hop.after.failureReason ≠ none ↔ hop.after.status = .failed) :=
  ⟨rfl, walked_hops_sound shellWorld failedShell shellWorld_opening
    ⟨trivial, trivial, trivial, trivial, trivial⟩⟩

/-- The sweep fails the shell under its version, so a walk fails it again. -/
theorem swept_shell_failed_again : ¬ ∀ (w : World) (steps : List Step), Opening w →
      ∀ hop ∈ (Run.final step w steps).committed,
        planMachine.Allows hop.before.status hop.after.status ∧
          hop.after.status ≠ .completed ∧ hop.before.status.terminal = false ∧
          (hop.after.failureReason ≠ none ↔ hop.after.status = .failed) := by
  intro h
  have hcommitted : ∃ hop, (Run.final step shellWorld
      [.read 0, .read 1, .write 1 .failUnfilled, .start 0 true .failed (some "no strategy"),
        .hop 0 7]).committed = [hop] ∧ hop.before.status = .failed := ⟨_, rfl, rfl⟩
  obtain ⟨hop, hcommitted, hfailed⟩ := hcommitted
  obtain ⟨-, -, hlive, -⟩ := h shellWorld _ shellWorld_opening hop (hcommitted ▸ mem_cons_self)
  rw [hfailed] at hlive
  cases hlive

end Synthorg.Initiative
