/-
What a parent task's subtasks add up to (engine/decomposition/rollup.py,
engine/decomposition/status_rollup.py).

Six statuses are counted one by one. A subtask of any other status is seen in
the total alone. So a parent is completed exactly with all of its subtasks; the
rollup counts no rejections, a rejected subtask is work still to come for it, and
that is the one way terminal subtasks leave their parent in progress.
-/
import Synthorg.Core.Task

namespace Synthorg.Decomposition

open Synthorg.Core
open List

structure SubtaskStatusRollup where
  parentTaskId : String
  total : Nat
  completed : Nat
  failed : Nat
  inProgress : Nat
  blocked : Nat
  cancelled : Nat
  suspended : Nat
  /-- `_validate_counts`. -/
  validated : completed + failed + inProgress + blocked + cancelled + suspended ≤ total

def SubtaskStatusRollup.derivedParentStatus (r : SubtaskStatusRollup) : TaskStatus :=
  if r.total = 0 then .created
  else if r.completed = r.total then .completed
  else if r.cancelled = r.total then .cancelled
  else if 0 < r.failed then .failed
  else if 0 < r.inProgress then .inProgress
  else if 0 < r.blocked then .blocked
  else if 0 < r.suspended then .suspended
  else if r.completed + r.cancelled = r.total then .cancelled
  else .inProgress

theorem counts_le_length (statuses : List TaskStatus) :
    statuses.count .completed + statuses.count .failed + statuses.count .inProgress +
      statuses.count .blocked + statuses.count .cancelled + statuses.count .suspended ≤
        statuses.length := by
  induction statuses with
  | nil => simp
  | cons status rest ih =>
    cases status <;> simp <;> omega

def StatusRollup.compute (parentTaskId : String) (subtaskStatuses : List TaskStatus) :
    SubtaskStatusRollup where
  parentTaskId := parentTaskId
  total := subtaskStatuses.length
  completed := subtaskStatuses.count .completed
  failed := subtaskStatuses.count .failed
  inProgress := subtaskStatuses.count .inProgress
  blocked := subtaskStatuses.count .blocked
  cancelled := subtaskStatuses.count .cancelled
  suspended := subtaskStatuses.count .suspended
  validated := by exact counts_le_length subtaskStatuses

variable {statuses : List TaskStatus}

-- ==== the counts

theorem terminal_counts (hterm : ∀ s ∈ statuses, taskMachine.Terminal s) :
    statuses.count .completed + statuses.count .cancelled + statuses.count .rejected =
        statuses.length ∧
      statuses.count .failed = 0 ∧ statuses.count .inProgress = 0 ∧
        statuses.count .blocked = 0 ∧ statuses.count .suspended = 0 := by
  induction statuses with
  | nil => simp
  | cons status rest ih =>
    rw [forall_mem_cons] at hterm
    obtain ⟨hall, hfail, hp, hb, hs⟩ := ih hterm.2
    rcases (terminal_iff status).1 hterm.1 with rfl | rfl | rfl <;> simp [*] <;> omega

theorem count_eq_length_iff {status : TaskStatus} :
    statuses.count status = statuses.length ↔ ∀ s ∈ statuses, s = status := by
  rw [count_eq_length]
  exact forall₂_congr fun _ _ => eq_comm

-- ==== the rollup

namespace SubtaskStatusRollup

variable {r : SubtaskStatusRollup}

/-- One branch of the cascade answers COMPLETED. -/
theorem derived_completed (httl : r.total ≠ 0) :
    r.derivedParentStatus = .completed ↔ r.completed = r.total := by
  unfold derivedParentStatus
  rw [if_neg httl]
  split
  · simpa
  next hc =>
    refine iff_of_false ?_ hc
    repeat' split
    all_goals nofun

theorem derived_idle (httl : r.total ≠ 0) (hfail : r.failed = 0)
    (hp : r.inProgress = 0) (hb : r.blocked = 0) (hs : r.suspended = 0) :
    r.derivedParentStatus =
      if r.completed = r.total then .completed
      else if r.completed + r.cancelled = r.total then .cancelled
      else .inProgress := by
  have hc := r.validated
  unfold derivedParentStatus
  rw [if_neg httl, hfail, hp, hb, hs]
  split
  · rfl
  · split
    · rw [if_pos (by omega)]
    · rfl

end SubtaskStatusRollup

variable {parentTaskId : String}

theorem derived_completed_iff (hne : statuses ≠ []) :
    (StatusRollup.compute parentTaskId statuses).derivedParentStatus = .completed ↔
      ∀ s ∈ statuses, s = .completed := by
  rw [SubtaskStatusRollup.derived_completed (length_eq_zero_iff.not.2 hne)]
  exact count_eq_length_iff

theorem derived_of_terminal (hne : statuses ≠ []) (hterm : ∀ s ∈ statuses, taskMachine.Terminal s) :
    (StatusRollup.compute parentTaskId statuses).derivedParentStatus =
      if ∀ s ∈ statuses, s = .completed then .completed
      else if .rejected ∈ statuses then .inProgress
      else .cancelled := by
  obtain ⟨hall, hfail, hp, hb, hs⟩ := terminal_counts hterm
  rw [SubtaskStatusRollup.derived_idle (length_eq_zero_iff.not.2 hne) hfail hp hb hs]
  simp only [← count_eq_length_iff]
  refine ite_congr rfl (fun _ => rfl) fun _ => ?_
  by_cases hsome : .rejected ∈ statuses
  · have hpos : 0 < statuses.count .rejected := count_pos_iff.2 hsome
    have hmore : (StatusRollup.compute parentTaskId statuses).completed +
        (StatusRollup.compute parentTaskId statuses).cancelled ≠ statuses.length := by
      show statuses.count .completed + statuses.count .cancelled ≠ statuses.length
      omega
    rw [if_pos hsome]
    exact if_neg hmore
  · have hzero : statuses.count .rejected = 0 := count_eq_zero.2 hsome
    have hmore : (StatusRollup.compute parentTaskId statuses).completed +
        (StatusRollup.compute parentTaskId statuses).cancelled = statuses.length := by
      show statuses.count .completed + statuses.count .cancelled = statuses.length
      omega
    rw [if_neg hsome]
    exact if_pos hmore

def Settles (parentTaskId : String) (statuses : List TaskStatus) : Prop :=
  let derived := (StatusRollup.compute parentTaskId statuses).derivedParentStatus
  (derived = .completed ↔ ∀ s ∈ statuses, s = .completed) ∧
    ((∀ s ∈ statuses, taskMachine.Terminal s) →
      (taskMachine.Terminal derived ∨ derived = .failed) ∧ derived ≠ .inProgress)

/-- The rollup settles unless the subtasks, not all terminal, have a rejected one among them. -/
theorem rollup_settles_iff (parentTaskId : String) (hne : statuses ≠ []) :
    Settles parentTaskId statuses ↔
      ((∀ s ∈ statuses, taskMachine.Terminal s) → .rejected ∉ statuses) := by
  constructor
  · intro h hterminal hrejected
    refine (h.2 hterminal).2 ?_
    have hmixed : ¬ ∀ s ∈ statuses, s = .completed := fun hall => nomatch hall _ hrejected
    rw [derived_of_terminal hne hterminal, if_neg hmixed, if_pos hrejected]
  · intro h
    refine ⟨derived_completed_iff hne, fun hterminal => ?_⟩
    simp only [derived_of_terminal hne hterminal, h hterminal]
    split
    · exact ⟨Or.inl rfl, nofun⟩
    · exact ⟨Or.inl rfl, nofun⟩

theorem rollup_settles_iff_cancelled : Settles "plan" [.completed, .cancelled] ↔
      ((∀ s ∈ [TaskStatus.completed, .cancelled], taskMachine.Terminal s) →
        .rejected ∉ [TaskStatus.completed, .cancelled]) :=
  rollup_settles_iff "plan" (by simp)

/-- One subtask completed and one rejected leave the parent in progress. -/
theorem not_settles_rejected : (∀ s ∈ [TaskStatus.completed, .rejected], taskMachine.Terminal s) ∧
      (StatusRollup.compute "plan" [.completed, .rejected]).derivedParentStatus = .inProgress ∧
        ¬ Settles "plan" [.completed, .rejected] := by
  refine ⟨by decide, by decide, fun h => ?_⟩
  exact absurd (h.2 (by decide)).2 (by decide)

end Synthorg.Decomposition
