/-
A failed merge leaves the repository as it was.

What is registered, what the branches are and which worktrees there are stays
in order whatever the commands return: that is one invariant, `InOrder`. That
no merge is left in progress needs more: between a merge that stopped and its
abort the strategy lists the conflicts, and if that fails it raises without the
abort.
-/
import Synthorg.Lib.Run
import Synthorg.Workspace.Worktrees

namespace Synthorg.Worktrees

open Lib
open Function (update update_self update_apply)
open List

def Event.apply : Event → Option Commit → Option Commit
  | .created tip, _ => some tip
  | .committed number, tip => tip.map fun tip => .work tip number
  | .merged other, tip => tip.map fun tip => mergeOnto tip other
  | .deleted, _ => none

/-- What a journal makes of a branch. -/
def replay (root : Option String) (ref : Ref) (initial : Option Commit) :
    List (Option String × Ref × Event) → Option Commit
  | [] => initial
  | (root', ref', event) :: rest =>
    if root' = root ∧ ref' = ref then event.apply (replay root ref initial rest)
    else replay root ref initial rest

namespace Strategy

variable {config : PlannerWorktreesConfig} {lib : Library} {start s : Strategy}

/-- THE INVARIANT of the commands that succeed. -/
structure InOrder (config : PlannerWorktreesConfig) (s start : Strategy) : Prop where
  advanced : ∀ root ref, (s.repos root).branches ref =
    replay root ref ((start.repos root).branches ref) s.journal
  limited : s.active.length ≤ config.maxConcurrentWorktrees
  returned : ∀ w ∈ s.active, w ∈ s.made
  named : ∀ w ∈ s.made, w.branchName = .workspace w.taskId w.workspaceId ∧ w.workspaceId < s.drawn
  distinct : ∀ w ∈ s.made, ∀ v ∈ s.made, w.workspaceId = v.workspaceId → w = v
  whole : ∀ w ∈ s.active, ((s.repos w.projectId).branches w.branchName).isSome ∧
    (w.workspaceId, w.branchName) ∈ (s.repos w.projectId).worktrees
  branchOwned : ∀ root taskId i, ((s.repos root).branches (.workspace taskId i)).isSome →
    s.branchKept i = true ∨
      ∃ w ∈ s.active, w.projectId = root ∧ w.taskId = taskId ∧ w.workspaceId = i
  worktreeOwned : ∀ root i ref, (i, ref) ∈ (s.repos root).worktrees → s.worktreeKept i = true ∨
    ∃ w ∈ s.active, w.projectId = root ∧ w.workspaceId = i
  freshBranch : ∀ root taskId i,
    ((s.repos root).branches (.workspace taskId i)).isSome → i < s.drawn
  freshWorktree : ∀ root i ref, (i, ref) ∈ (s.repos root).worktrees → i < s.drawn

/-- A merge is in progress only where `git merge --abort` has failed. -/
def Idle (s : Strategy) : Prop :=
  ∀ root, (s.repos root).merging ≠ .none → s.abortFailed root = true

end Strategy

-- ==== the commands

namespace Repo

variable {r r' : Repo}

variable {ref : Ref} {ok b : Bool}

theorem checkout_eq (h : r.checkout ref ok = (r', b)) :
    r'.branches = r.branches ∧ r'.worktrees = r.worktrees ∧ r'.merging = r.merging ∧
      (b = true → r'.head = some ref) := by
  unfold checkout at h
  split at h
  · cases h
    exact ⟨rfl, rfl, rfl, fun _ => rfl⟩
  · cases h
    exact ⟨rfl, rfl, rfl, nofun⟩

theorem merge_true {onto : Ref} {reply : MergeReply} (hhead : r.head = some onto)
    (h : r.merge ref reply = (r', true)) : ∃ tip other, r.branches onto = some tip ∧
      r.branches ref = some other ∧ r.merging = .none ∧ r' = { r with
        branches := update r.branches onto (some (mergeOnto tip other)) } := by
  unfold merge at h
  split at h
  next onto' tip other hm hc ho =>
    simp only [current, hhead, Option.map_eq_some_iff] at hc
    obtain ⟨tip', htip, heq⟩ := hc
    cases heq
    split at h
    · cases h
      exact ⟨tip, other, htip, ho, hm, rfl⟩
    · cases h
    · cases h
  · cases h

theorem merge_false {reply : MergeReply} (h : r.merge ref reply = (r', false)) :
    r'.branches = r.branches ∧ r'.worktrees = r.worktrees ∧
      (r' = r ∨ ∃ conflict, reply = .stopped conflict) := by
  unfold merge at h
  split at h
  · split at h
    · cases h
    · cases h
      exact ⟨rfl, rfl, .inl rfl⟩
    · cases h
      exact ⟨rfl, rfl, .inr ⟨_, rfl⟩⟩
  · cases h
    exact ⟨rfl, rfl, .inl rfl⟩

theorem abort_eq (h : r.abort ok = (r', b)) :
    r'.branches = r.branches ∧ r'.worktrees = r.worktrees ∧
      (b = true ∧ r'.merging = .none ∨ b = false ∧ r' = r) := by
  unfold abort at h
  split at h
  · cases h
    exact ⟨rfl, rfl, .inl ⟨rfl, rfl⟩⟩
  · cases h
    exact ⟨rfl, rfl, .inr ⟨rfl, rfl⟩⟩

theorem branch_eq {name base : Ref} (h : r.branch name base ok = (r', b)) :
    b = false ∧ r' = r ∨ b = true ∧ r.branches name = none ∧
      ∃ tip, r' = { r with branches := update r.branches name (some tip) } := by
  unfold branch at h
  split at h
  next tip hname hbase =>
    split at h
    · cases h
      exact .inr ⟨rfl, hname, tip, rfl⟩
    · cases h
      exact .inl ⟨rfl, rfl⟩
  · cases h
    exact .inl ⟨rfl, rfl⟩

theorem worktreeAdd_eq {i : Nat} (h : r.worktreeAdd i ref ok = (r', b)) :
    b = false ∧ r' = r ∨ b = true ∧ r' = { r with worktrees := (i, ref) :: r.worktrees } := by
  unfold worktreeAdd at h
  split at h
  · cases h
    exact .inr ⟨rfl, rfl⟩
  · cases h
    exact .inl ⟨rfl, rfl⟩

theorem branchDelete_eq (h : r.branchDelete ref ok = (r', b)) : b = false ∧ r' = r ∨ b = true ∧
      r' = { r with branches := update r.branches ref none } := by
  unfold branchDelete at h
  split at h
  · cases h
    exact .inr ⟨rfl, rfl⟩
  · cases h
    exact .inl ⟨rfl, rfl⟩

theorem worktreeRemove_eq {i : Nat} (h : r.worktreeRemove i ok = (r', b)) :
    b = false ∧ r' = r ∨ b = true ∧
      r' = { r with worktrees := r.worktrees.filter fun entry => entry.1 != i } := by
  unfold worktreeRemove at h
  split at h
  · cases h
    exact .inr ⟨rfl, rfl⟩
  · cases h
    exact .inl ⟨rfl, rfl⟩

end Repo

namespace Strategy

variable {config : PlannerWorktreesConfig} {lib : Library} {start s : Strategy}

@[simp]
theorem setRepo_repos (root root' : Option String) (r : Repo) :
    (s.setRepo root r).repos root' = if root' = root then r else s.repos root' :=
  update_apply _ _ _ _

@[simp]
theorem record_repos (root : Option String) (ref : Ref) (event : Event) :
    (s.record root ref event).repos = s.repos := rfl

-- ==== the order is kept

variable {root : Option String} {t : Strategy} {w : Workspace} {replies : MergeReplies}

theorem InOrder.setRepo {r : Repo} (h : s.InOrder config start)
    (hb : r.branches = (s.repos root).branches)
    (hwork : r.worktrees = (s.repos root).worktrees) : (s.setRepo root r).InOrder config start := by
  have hsame : ∀ root', ((s.setRepo root r).repos root').branches = (s.repos root').branches ∧
      ((s.setRepo root r).repos root').worktrees = (s.repos root').worktrees := by
    intro root'
    rw [setRepo_repos]
    split
    next heq =>
      subst heq
      exact ⟨hb, hwork⟩
    · exact ⟨rfl, rfl⟩
  exact { h with
    advanced := fun root' ref => (hsame root').1 ▸ h.advanced root' ref
    whole := fun w hw => by
      rw [(hsame _).1, (hsame _).2]
      exact h.whole w hw
    branchOwned := fun root' taskId i hi => h.branchOwned root' taskId i ((hsame root').1 ▸ hi)
    worktreeOwned := fun root' i ref hi => h.worktreeOwned root' i ref ((hsame root').2 ▸ hi)
    freshBranch := fun root' taskId i hi => h.freshBranch root' taskId i ((hsame root').1 ▸ hi)
    freshWorktree := fun root' i ref hi => h.freshWorktree root' i ref ((hsame root').2 ▸ hi) }

variable {tip : Commit} {number : Nat} {input : Input}

theorem InOrder.move {r : Repo} {ref : Ref} {event : Event} (h : s.InOrder config start)
    (htip : ((s.repos root).branches ref).isSome)
    (hb : r.branches = update (s.repos root).branches ref (some tip))
    (he : event.apply ((s.repos root).branches ref) = some tip)
    (hwork : r.worktrees = (s.repos root).worktrees) :
    ((s.setRepo root r).record root ref event).InOrder config start := by
  have hsome : ∀ root' ref', (((s.setRepo root r).repos root').branches ref').isSome =
      ((s.repos root').branches ref').isSome := by
    intro root' ref'
    rw [setRepo_repos]
    split
    next heq =>
      subst heq
      rw [hb, update_apply]
      split
      next heq =>
        subst heq
        rw [htip]
        rfl
      · rfl
    · rfl
  have hsame : ∀ root', ((s.setRepo root r).repos root').worktrees = (s.repos root').worktrees := by
    intro root'
    rw [setRepo_repos]
    split
    next heq =>
      subst heq
      exact hwork
    · rfl
  exact { h with
    advanced := fun root' ref' => by
      show ((update s.repos root r) root').branches ref' =
        replay root' ref' _ ((root, ref, event) :: s.journal)
      rw [replay, ← h.advanced root' ref']
      by_cases hroot : root' = root
      · subst hroot
        by_cases href : ref' = ref
        · subst href
          simp [hb, he]
        · simp [hb, href, Ne.symm href]
      · simp [hroot, Ne.symm hroot]
    whole := fun w hw => by
      refine ⟨?_, ?_⟩
      · show (((s.setRepo root r).repos w.projectId).branches w.branchName).isSome = true
        rw [hsome]
        exact (h.whole w hw).1
      · show _ ∈ ((s.setRepo root r).repos w.projectId).worktrees
        rw [hsame]
        exact (h.whole w hw).2
    branchOwned := fun root' taskId i hi =>
      h.branchOwned root' taskId i ((hsome root' _).symm.trans hi)
    worktreeOwned := fun root' i ref hi => h.worktreeOwned root' i ref ((hsame root').symm ▸ hi)
    freshBranch := fun root' taskId i hi =>
      h.freshBranch root' taskId i ((hsome root' _).symm.trans hi)
    freshWorktree := fun root' i ref hi => h.freshWorktree root' i ref ((hsame root').symm ▸ hi) }

theorem InOrder.torn (removed deleted : Bool) (h : s.InOrder config start) (hw : w ∈ s.made)
    (hb : ∀ root ref, (t.repos root).branches ref =
      if deleted = true ∧ w.projectId = root ∧ w.branchName = ref then none
      else (s.repos root).branches ref)
    (hwork : ∀ root i ref, (i, ref) ∈ (t.repos root).worktrees ↔
      (i, ref) ∈ (s.repos root).worktrees ∧
        ¬ (removed = true ∧ w.projectId = root ∧ w.workspaceId = i))
    (hbroken : ∀ i, t.branchKept i = true ↔
      deleted = false ∧ w.workspaceId = i ∨ s.branchKept i = true)
    (hworktree : ∀ i, t.worktreeKept i = true ↔
      removed = false ∧ w.workspaceId = i ∨ s.worktreeKept i = true) (hj : t.journal =
      if deleted then (w.projectId, w.branchName, .deleted) :: s.journal else s.journal)
    (hact : t.active = s.active.filter fun other => other.workspaceId != w.workspaceId)
    (hmade : t.made = s.made) (hd : t.drawn = s.drawn) : t.InOrder config start := by
  have hname := (h.named w hw).1
  have hr : ∀ v, v ∈ t.active ↔ v ∈ s.active ∧ v.workspaceId ≠ w.workspaceId := by
    intro v
    rw [hact, mem_filter, bne_iff_ne]
  -- the registered workspace of that number is this one
  have hsame : ∀ v ∈ s.active, v.workspaceId = w.workspaceId → v = w := fun v hv heq =>
    h.distinct v (h.returned v hv) w hw heq
  have hsome : ∀ root ref, ((t.repos root).branches ref).isSome →
      ((s.repos root).branches ref).isSome ∧
        ¬ (deleted = true ∧ w.projectId = root ∧ w.branchName = ref) := by
    intro root ref hsome
    rw [hb] at hsome
    split at hsome
    · cases hsome
    next hnot => exact ⟨hsome, hnot⟩
  constructor
  case advanced =>
    intro root ref
    rw [hb, hj]
    cases deleted with
    | false => simp [h.advanced root ref]
    | true =>
      simp only [true_and, if_true, replay]
      split
      · rfl
      · exact h.advanced root ref
  case limited =>
    rw [hact]
    exact (length_filter_le _ _).trans h.limited
  case returned =>
    intro v hv
    rw [hmade]
    exact h.returned v ((hr v).1 hv).1
  case named =>
    rw [hmade, hd]
    exact h.named
  case distinct =>
    rw [hmade]
    exact h.distinct
  case whole =>
    intro v hv
    obtain ⟨hold, hne⟩ := (hr v).1 hv
    obtain ⟨hbranch, hworld⟩ := h.whole v hold
    refine ⟨?_, (hwork _ _ _).2 ⟨hworld, fun hgone => hne hgone.2.2.symm⟩⟩
    rw [hb, if_neg]
    · exact hbranch
    · intro hgone
      have heq := hgone.2.2
      rw [hname, (h.named v (h.returned v hold)).1] at heq
      exact hne (Ref.workspace.inj heq).2.symm
  case branchOwned =>
    intro root taskId i hi
    obtain ⟨hi, hkept⟩ := hsome root _ hi
    rw [hbroken]
    rcases h.branchOwned root taskId i hi with hold | ⟨v, hv, hroot, htask, hid⟩
    · exact .inl (.inr hold)
    · by_cases heq : v.workspaceId = w.workspaceId
      · obtain rfl := hsame v hv heq
        refine .inl (.inl ⟨?_, hid⟩)
        by_contra hdeleted
        exact hkept ⟨by simpa using hdeleted, hroot, by rw [hname, htask, hid]⟩
      · exact .inr ⟨v, (hr v).2 ⟨hv, heq⟩, hroot, htask, hid⟩
  case worktreeOwned =>
    intro root i ref hi
    obtain ⟨hi, hkept⟩ := (hwork root i ref).1 hi
    rw [hworktree]
    rcases h.worktreeOwned root i ref hi with hold | ⟨v, hv, hroot, hid⟩
    · exact .inl (.inr hold)
    · by_cases heq : v.workspaceId = w.workspaceId
      · obtain rfl := hsame v hv heq
        refine .inl (.inl ⟨?_, hid⟩)
        by_contra hremoved
        exact hkept ⟨by simpa using hremoved, hroot, hid⟩
      · exact .inr ⟨v, (hr v).2 ⟨hv, heq⟩, hroot, hid⟩
  case freshBranch =>
    intro root taskId i hi
    rw [hd]
    exact h.freshBranch root taskId i (hsome root _ hi).1
  case freshWorktree =>
    intro root i ref hi
    rw [hd]
    exact h.freshWorktree root i ref ((hwork root i ref).1 hi).1

theorem InOrder.undone (root : Option String) (taskId : String) (events : List Event)
    (h : s.InOrder config start) (hb : ∀ root' ref', (t.repos root').branches ref' =
      if root = root' ∧ .workspace taskId s.drawn = ref' then
        events.foldr Event.apply ((s.repos root').branches ref')
      else (s.repos root').branches ref')
    (hwork : ∀ root', (t.repos root').worktrees = (s.repos root').worktrees)
    (hbroken : ∀ i, s.branchKept i = true → t.branchKept i = true)
    (hkept : ((t.repos root).branches (.workspace taskId s.drawn)).isSome →
      t.branchKept s.drawn = true) (hworktree : t.worktreeKept = s.worktreeKept)
    (hj : t.journal =
      events.map (fun event => (root, .workspace taskId s.drawn, event)) ++ s.journal)
    (hact : t.active = s.active) (hmade : t.made = s.made) (hd : t.drawn = s.drawn + 1) :
    t.InOrder config start := by
  have hr : ∀ (events : List Event) root' ref' initial rest, replay root' ref' initial
          (events.map (fun event => (root, Ref.workspace taskId s.drawn, event)) ++ rest) =
        if root = root' ∧ .workspace taskId s.drawn = ref' then
          events.foldr Event.apply (replay root' ref' initial rest)
        else replay root' ref' initial rest := by
    intro events root' ref' initial rest
    induction events with
    | nil => simp
    | cons event events ih =>
      simp only [map_cons, cons_append, replay, ih]
      split <;> rfl
  -- other branches are the old ones
  have ho : ∀ root' ref', ((t.repos root').branches ref').isSome →
      (root = root' ∧ .workspace taskId s.drawn = ref') ∨
        ((s.repos root').branches ref').isSome := by
    intro root' ref' hsome
    rw [hb] at hsome
    split at hsome
    next heq => exact .inl heq
    · exact .inr hsome
  constructor
  case advanced =>
    intro root' ref'
    rw [hb, hj, hr, h.advanced root' ref']
  case limited => exact hact ▸ h.limited
  case returned => exact hact ▸ hmade ▸ h.returned
  case named =>
    intro w hw
    obtain ⟨hname, hlt⟩ := h.named w (hmade ▸ hw)
    exact ⟨hname, by omega⟩
  case distinct => exact hmade ▸ h.distinct
  case whole =>
    intro w hw
    have hold : w ∈ s.active := hact ▸ hw
    obtain ⟨hbranch, hworld⟩ := h.whole w hold
    obtain ⟨hname, hlt⟩ := h.named w (h.returned w hold)
    refine ⟨?_, (hwork _).symm ▸ hworld⟩
    rw [hb, if_neg]
    · exact hbranch
    · intro hsame
      have heq := hsame.2
      rw [hname] at heq
      have hid := (Ref.workspace.inj heq).2
      omega
  case branchOwned =>
    intro root' taskId' i hi
    rcases ho root' _ hi with ⟨rfl, heq⟩ | hold
    · cases heq
      exact .inl (hkept hi)
    · rw [hact]
      exact (h.branchOwned root' taskId' i hold).imp_left (hbroken i)
  case worktreeOwned =>
    intro root' i ref hi
    rw [hworktree, hact]
    exact h.worktreeOwned root' i ref (hwork root' ▸ hi)
  case freshBranch =>
    intro root' taskId' i hi
    rcases ho root' _ hi with ⟨-, heq⟩ | hold
    · cases heq
      omega
    · have hlt := h.freshBranch root' taskId' i hold
      omega
  case freshWorktree =>
    intro root' i ref hi
    have hlt := h.freshWorktree root' i ref (hwork root' ▸ hi)
    omega

theorem InOrder.registered (h : s.InOrder config start)
    (hroom : s.active.length < config.maxConcurrentWorktrees) (hid : w.workspaceId = s.drawn)
    (hname : w.branchName = .workspace w.taskId s.drawn)
    (hb : ∀ root' ref', (t.repos root').branches ref' =
      if w.projectId = root' ∧ w.branchName = ref' then some tip else (s.repos root').branches ref')
    (hwork : ∀ root', (t.repos root').worktrees =
      if w.projectId = root' then (w.workspaceId, w.branchName) :: (s.repos root').worktrees
      else (s.repos root').worktrees) (hbroken : t.branchKept = s.branchKept)
    (hw : t.worktreeKept = s.worktreeKept)
    (hj : t.journal = (w.projectId, w.branchName, .created tip) :: s.journal)
    (hact : t.active = s.active ++ [w]) (hmade : t.made = s.made ++ [w])
    (hd : t.drawn = s.drawn + 1) : t.InOrder config start := by
  have hmem : ∀ root' entry, entry ∈ (t.repos root').worktrees ↔
      w.projectId = root' ∧ entry = (w.workspaceId, w.branchName) ∨
        entry ∈ (s.repos root').worktrees := by
    intro root' entry
    rw [hwork]
    split
    next heq => simp [heq]
    next hne => simp [hne]
  have ho : ∀ root' ref', ((t.repos root').branches ref').isSome →
      (w.projectId = root' ∧ w.branchName = ref') ∨ ((s.repos root').branches ref').isSome := by
    intro root' ref' hsome
    rw [hb] at hsome
    split at hsome
    next heq => exact .inl heq
    · exact .inr hsome
  have hold : ∀ v, v ∈ s.active → v ∈ t.active := fun v hv => by
    rw [hact]
    exact mem_append_left _ hv
  have hself : w ∈ t.active := by
    rw [hact]
    exact mem_append_right _ (mem_singleton_self w)
  have hm : ∀ v, v ∈ t.made → v ∈ s.made ∧ v.workspaceId < s.drawn ∨ v = w := by
    intro v hv
    rw [hmade] at hv
    rcases mem_append.1 hv with hv | hv
    · exact .inl ⟨hv, (h.named v hv).2⟩
    · exact .inr (mem_singleton.1 hv)
  constructor
  case advanced =>
    intro root' ref'
    rw [hb, hj, h.advanced root' ref']
    rfl
  case limited =>
    rw [hact, length_append, length_singleton]
    omega
  case returned =>
    rw [hact, hmade]
    intro v hv
    exact (mem_append.1 hv).elim (fun hv => mem_append_left _ (h.returned v hv))
      (mem_append_right _)
  case named =>
    intro v hv
    rcases hm v hv with ⟨hv, hlt⟩ | rfl
    · exact ⟨(h.named v hv).1, by omega⟩
    · exact ⟨by rw [hname, hid], by omega⟩
  case distinct =>
    intro v hv u hu heq
    rcases hm v hv with ⟨hv, hviolation⟩ | rfl
    · rcases hm u hu with ⟨hu, hl⟩ | rfl
      · exact h.distinct v hv u hu heq
      · omega
    · rcases hm u hu with ⟨hu, hl⟩ | rfl
      · omega
      · rfl
  case whole =>
    intro v hv
    rw [hact] at hv
    rcases mem_append.1 hv with hv | hv
    · obtain ⟨hbranch, hworktree⟩ := h.whole v hv
      refine ⟨?_, (hmem _ _).2 (.inr hworktree)⟩
      rw [hb]
      split
      · rfl
      · exact hbranch
    · obtain rfl := mem_singleton.1 hv
      exact ⟨by rw [hb, if_pos ⟨rfl, rfl⟩]; rfl, (hmem _ _).2 (.inl ⟨rfl, rfl⟩)⟩
  case branchOwned =>
    intro root' taskId i hi
    rw [hbroken]
    rcases ho root' _ hi with ⟨hroot, heq⟩ | hsome
    · rw [hname] at heq
      cases heq
      exact .inr ⟨w, hself, hroot, rfl, hid⟩
    · refine (h.branchOwned root' taskId i hsome).imp_right fun howner => ?_
      obtain ⟨v, hv, hmatch⟩ := howner
      exact ⟨v, hold v hv, hmatch⟩
  case worktreeOwned =>
    intro root' i ref hi
    rw [hw]
    rcases (hmem root' _).1 hi with ⟨hroot, heq⟩ | hmem
    · cases heq
      exact .inr ⟨w, hself, hroot, rfl⟩
    · refine (h.worktreeOwned root' i ref hmem).imp_right fun howner => ?_
      obtain ⟨v, hv, hmatch⟩ := howner
      exact ⟨v, hold v hv, hmatch⟩
  case freshBranch =>
    intro root' taskId i hi
    rcases ho root' _ hi with ⟨-, heq⟩ | hsome
    · rw [hname] at heq
      cases heq
      omega
    · have hlt := h.freshBranch root' taskId i hsome
      omega
  case freshWorktree =>
    intro root' i ref hi
    rcases (hmem root' _).1 hi with ⟨-, heq⟩ | hmem
    · cases heq
      omega
    · have hlt := h.freshWorktree root' i ref hmem
      omega

-- ==== the calls

theorem deleteBranch_eq (s : Strategy) (root : Option String) (i : Nat) (ref : Ref) (ok : Bool) :
    (∃ r, s.deleteBranch root i ref ok = ((s.setRepo root r).record root ref .deleted, true) ∧
      r = { s.repos root with branches := update (s.repos root).branches ref none }) ∨
    s.deleteBranch root i ref ok = ({ s.setRepo root (s.repos root) with
      branchKept := update s.branchKept i true }, false) := by
  unfold deleteBranch
  split
  next r heq =>
    rcases Repo.branchDelete_eq heq with ⟨hf, -⟩ | ⟨-, hr⟩
    · cases hf
    · exact .inl ⟨r, rfl, hr⟩
  next r heq =>
    rcases Repo.branchDelete_eq heq with ⟨-, rfl⟩ | ⟨htrue, -⟩
    · exact .inr rfl
    · cases htrue

theorem InOrder.create (request : WorkspaceRequest) (replies : SetupReplies)
    (h : s.InOrder config start) (hroom : s.active.length < config.maxConcurrentWorktrees) :
    match { s with drawn := s.drawn + 1 }.createWorktreeAndBranch request.projectId s.drawn
      (.workspace request.taskId s.drawn) request.baseBranch replies with
    | (t, false) => t.InOrder config start
    | (t, true) => ∀ w : Workspace, w = ⟨s.drawn, request.taskId, request.agentId,
        .workspace request.taskId s.drawn, request.baseBranch, request.projectId⟩ →
          InOrder config { t with active := t.active ++ [w], made := t.made ++ [w] } start := by
  have hf : (s.repos request.projectId).branches (.workspace request.taskId s.drawn) = none := by
    by_contra hsome
    have hlt := h.freshBranch request.projectId request.taskId s.drawn
      (Option.isSome_iff_ne_none.2 hsome)
    omega
  unfold createWorktreeAndBranch
  cases hb : (s.repos request.projectId).branch (.workspace request.taskId s.drawn)
      request.baseBranch replies.branch with
  | mk r ok =>
    rcases Repo.branch_eq hb with ⟨rfl, rfl⟩ | ⟨rfl, -, tip, rfl⟩
    · -- no branch was created
      refine h.undone request.projectId request.taskId [] (fun root' ref' => ?_) (fun root' => ?_)
        (fun _ hi => hi) (fun hsome => ?_) rfl rfl rfl rfl rfl
      · rw [setRepo_repos]
        split
        next heq => simp [heq]
        · simp
      · rw [setRepo_repos]
        split
        next heq => rw [heq]
        · rfl
      · simp [hf] at hsome
    · dsimp only
      rw [update_self]
      cases hadd : Repo.worktreeAdd _ s.drawn (.workspace request.taskId s.drawn)
          replies.worktreeAdd with
      | mk r ok =>
        rcases Repo.worktreeAdd_eq hadd with ⟨rfl, rfl⟩ | ⟨rfl, rfl⟩
        · -- the branch is to go again
          dsimp only
          rcases deleteBranch_eq _ request.projectId s.drawn
            (.workspace request.taskId s.drawn) replies.branchDelete with ⟨r, heq, hr⟩ | heq
          · rw [heq, hr]
            refine h.undone request.projectId request.taskId [.deleted, .created tip]
              (fun root' ref' => ?_) (fun root' => ?_) (fun _ hi => hi) (fun hsome => ?_) rfl rfl
              rfl rfl rfl
            · by_cases hroot : root' = request.projectId
              · by_cases href : ref' = .workspace request.taskId s.drawn
                · simp [hroot, href, Event.apply]
                · simp [hroot, href, Ne.symm href]
              · simp [hroot, Ne.symm hroot]
            · by_cases hroot : root' = request.projectId
              · simp [hroot]
              · simp [hroot]
            · simp at hsome
          · -- it is kept
            rw [heq]
            refine h.undone request.projectId request.taskId [.created tip]
              (fun root' ref' => ?_) (fun root' => ?_) (fun i hi => ?_) (fun _ => ?_) rfl rfl
              rfl rfl rfl
            · by_cases hroot : root' = request.projectId
              · by_cases href : ref' = .workspace request.taskId s.drawn
                · simp [hroot, href, Event.apply]
                · simp [hroot, href, Ne.symm href]
              · simp [hroot, Ne.symm hroot]
            · by_cases hroot : root' = request.projectId
              · simp [hroot]
              · simp [hroot]
            · show update s.branchKept s.drawn true i = true
              rw [update_apply]
              split
              · rfl
              · exact hi
            · exact update_self s.drawn true s.branchKept
        · intro w hw
          subst hw
          refine h.registered hroom rfl rfl (fun root' ref' => ?_) (fun root' => ?_) rfl rfl rfl
            rfl rfl rfl
          · by_cases hroot : root' = request.projectId
            · by_cases href : ref' = .workspace request.taskId s.drawn
              · simp [hroot, href]
              · simp [hroot, href, Ne.symm href]
            · simp [hroot, Ne.symm hroot]
          · by_cases hroot : root' = request.projectId
            · simp [hroot]
            · simp [hroot, Ne.symm hroot]

theorem InOrder.setupWorkspace {request : WorkspaceRequest} {replies : SetupReplies}
    (h : s.InOrder config start) :
    (s.setupWorkspace config lib request replies).1.InOrder config start := by
  unfold Strategy.setupWorkspace
  split
  · exact h
  split
  · exact h
  split
  · exact h
  next hroom =>
  have hc := h.create request replies (not_le.1 hroom)
  dsimp only
  split
  next t heq =>
    rw [heq] at hc
    exact hc
  next t heq =>
    rw [heq] at hc
    exact hc _ rfl

theorem InOrder.handleMergeConflict (h : s.InOrder config start) :
    (s.handleMergeConflict root replies).1.InOrder config start := by
  unfold Strategy.handleMergeConflict
  split
  · exact h
  split
  next r heq =>
    obtain ⟨hb, hwork, -⟩ := Repo.abort_eq heq
    exact h.setRepo hb hwork
  next r heq =>
    obtain ⟨hb, hwork, -⟩ := Repo.abort_eq heq
    have h' := h.setRepo hb hwork
    exact { h' with advanced := h'.advanced }

@[simp]
theorem finalizeSuccessfulMerge_fst (root : Option String) (replies : MergeReplies) :
    (s.finalizeSuccessfulMerge root replies).1 = s := by
  unfold finalizeSuccessfulMerge
  split <;> rfl

theorem InOrder.mergeUnderLock (h : s.InOrder config start) :
    (s.mergeUnderLock w replies).1.InOrder config start := by
  unfold Strategy.mergeUnderLock
  dsimp only
  split
  · exact h
  split
  next r hc =>
    obtain ⟨hb, hwork, -⟩ := Repo.checkout_eq hc
    exact h.setRepo hb hwork
  next r hc =>
    obtain ⟨hb, hwork, -, hhead⟩ := Repo.checkout_eq hc
    split
    next r' hm =>
      obtain ⟨tip, other, htip, ho, -, rfl⟩ := Repo.merge_true (hhead rfl) hm
      rw [ho]
      rw [finalizeSuccessfulMerge_fst]
      rw [hb] at htip
      refine h.move (by rw [htip]; rfl) ?_ (by rw [htip]; rfl) hwork
      rw [hb]
    next r' hm =>
      obtain ⟨hb', hwork', -⟩ := Repo.merge_false hm
      exact (h.setRepo (hb'.trans hb) (hwork'.trans hwork)).handleMergeConflict

theorem InOrder.teardownWorkspace {replies : TeardownReplies} (h : s.InOrder config start)
    (hw : w ∈ s.made) : (s.teardownWorkspace lib w replies).1.InOrder config start := by
  unfold Strategy.teardownWorkspace
  split
  · exact h
  split
  · exact h
  unfold removeWorktreeAndBranch
  dsimp only
  cases hremove : (s.repos w.projectId).worktreeRemove w.workspaceId replies.worktreeRemove with
  | mk r removed =>
    have hr : r.branches = (s.repos w.projectId).branches ∧ ∀ i ref, (i, ref) ∈ r.worktrees ↔
        (i, ref) ∈ (s.repos w.projectId).worktrees ∧ ¬ (removed = true ∧ w.workspaceId = i) := by
      rcases Repo.worktreeRemove_eq hremove with ⟨rfl, rfl⟩ | ⟨rfl, rfl⟩
      · simp
      · refine ⟨rfl, fun i ref => ?_⟩
        simp only [mem_filter, bne_iff_ne, true_and]
        exact and_congr_right fun _ => ne_comm
    obtain ⟨hb, hwork⟩ := hr
    have hkept : ∀ i, (if removed = true then s.worktreeKept
        else update s.worktreeKept w.workspaceId true) i = true ↔
          removed = false ∧ w.workspaceId = i ∨ s.worktreeKept i = true := by
      intro i
      cases removed with
      | true => simp
      | false =>
        by_cases hi : i = w.workspaceId
        · simp [hi]
        · simp [hi, Ne.symm hi]
    rcases deleteBranch_eq _ w.projectId w.workspaceId w.branchName replies.branchDelete with
      ⟨r', heq, hr'⟩ | heq
    · rw [heq, hr']
      refine h.torn removed true hw (fun root ref => ?_) (fun root i ref => ?_) (fun i => ?_) hkept
        rfl rfl rfl rfl
      · by_cases hroot : root = w.projectId
        · by_cases href : ref = w.branchName
          · simp [hroot, href]
          · simp [hroot, href, Ne.symm href, hb]
        · simp [hroot, Ne.symm hroot]
      · by_cases hroot : root = w.projectId
        · simp [hroot, hwork]
        · simp [hroot, Ne.symm hroot]
      · simp [Strategy.setRepo, record]
    · rw [heq]
      refine h.torn removed false hw (fun root ref => ?_) (fun root i ref => ?_) (fun i => ?_) hkept
        rfl rfl rfl rfl
      · by_cases hroot : root = w.projectId
        · simp [hroot, hb]
        · simp [hroot]
      · by_cases hroot : root = w.projectId
        · simp [hroot, hwork]
        · simp [hroot, Ne.symm hroot]
      · show update s.branchKept w.workspaceId true i = true ↔ _
        by_cases hi : i = w.workspaceId
        · simp [hi]
        · simp [hi, Ne.symm hi]

theorem InOrder.commit (h : s.InOrder config start) : (s.commit w number).InOrder config start := by
  unfold Strategy.commit
  dsimp only
  split
  next tip htip =>
    split
    · exact h.move (by rw [htip]; rfl) rfl (by rw [htip]; rfl) rfl
    · exact h
  · exact h

/-- STEP LEMMA of the order. -/
theorem InOrder.step (h : s.InOrder config start) :
    (Strategy.step config lib s input).InOrder config start := by
  cases input with
  | setup request replies => exact h.setupWorkspace
  | merge index replies =>
    simp only [Strategy.step]
    split
    next w hw =>
      unfold mergeWorkspace
      split
      · exact h.mergeUnderLock
      · exact h
    · exact h
  | teardown index replies =>
    simp only [Strategy.step]
    split
    next w hw => exact h.teardownWorkspace (mem_of_getElem? hw)
    · exact h
  | commit index number =>
    simp only [Strategy.step]
    split
    · exact h.commit
    · exact h

-- ==== no merge left

/-- After a merge that stopped, `git diff` succeeds. -/
def Careful : Strategy → Input → Prop
  | _, .merge _ replies => ∀ conflict, replies.merge = .stopped conflict → replies.diff = true
  | _, _ => True

/-- The merges of all repositories are left alone. -/
structure Undisturbed (s t : Strategy) : Prop where
  merging : ∀ root, (t.repos root).merging = (s.repos root).merging
  abortFailed : t.abortFailed = s.abortFailed

theorem Undisturbed.refl : s.Undisturbed s := ⟨fun _ => rfl, rfl⟩

theorem Undisturbed.setRepo (root : Option String) (r : Repo) (h : s.Undisturbed t)
    (hr : r.merging = (t.repos root).merging) : s.Undisturbed (t.setRepo root r) := by
  refine ⟨fun root' => ?_, h.abortFailed⟩
  rw [setRepo_repos]
  split
  next heq =>
    subst heq
    exact hr.trans (h.merging root')
  · exact h.merging root'

theorem Idle.undisturbed (h : s.Idle) (hsame : s.Undisturbed t) : t.Idle :=
  fun root hroot => hsame.abortFailed ▸ h root (hsame.merging root ▸ hroot)

theorem Undisturbed.deleteBranch (root : Option String) (i : Nat) (ref : Ref) (ok : Bool)
    (h : s.Undisturbed t) : s.Undisturbed (t.deleteBranch root i ref ok).1 := by
  rcases deleteBranch_eq t root i ref ok with ⟨r, heq, rfl⟩ | heq
  · have h' := h.setRepo root { t.repos root with
      branches := update (t.repos root).branches ref none } rfl
    rw [heq]
    exact ⟨h'.merging, h'.abortFailed⟩
  · have h' := h.setRepo root (t.repos root) rfl
    rw [heq]
    exact ⟨h'.merging, h'.abortFailed⟩

theorem Undisturbed.create (root : Option String) (i : Nat) (name base : Ref)
    (replies : SetupReplies) (h : s.Undisturbed t) :
    s.Undisturbed (t.createWorktreeAndBranch root i name base replies).1 := by
  unfold createWorktreeAndBranch
  cases hb : (t.repos root).branch name base replies.branch with
  | mk r ok =>
    rcases Repo.branch_eq hb with ⟨rfl, rfl⟩ | ⟨rfl, -, tip, rfl⟩
    · exact h.setRepo root _ rfl
    · dsimp only
      rw [update_self]
      have h' := h.setRepo root { t.repos root with
        branches := update (t.repos root).branches name (some tip) } rfl
      have h' : s.Undisturbed ((t.setRepo root { t.repos root with
          branches := update (t.repos root).branches name (some tip) }).record root name
            (.created tip)) := ⟨h'.merging, h'.abortFailed⟩
      cases hadd : Repo.worktreeAdd _ i name replies.worktreeAdd with
      | mk r ok =>
        rcases Repo.worktreeAdd_eq hadd with ⟨rfl, rfl⟩ | ⟨rfl, rfl⟩
        · exact (h'.setRepo root _ (by simp)).deleteBranch root i name _
        · exact h'.setRepo root _ (by simp)

theorem Idle.setupWorkspace {request : WorkspaceRequest} {replies : SetupReplies} (h : s.Idle) :
    (s.setupWorkspace config lib request replies).1.Idle := by
  unfold Strategy.setupWorkspace
  split
  · exact h
  split
  · exact h
  split
  · exact h
  have hb : s.Undisturbed { s with drawn := s.drawn + 1 } := ⟨fun _ => rfl, rfl⟩
  have hc := hb.create request.projectId s.drawn (.workspace request.taskId s.drawn)
    request.baseBranch replies
  dsimp only
  split
  next t heq =>
    rw [heq] at hc
    exact h.undisturbed hc
  next t heq =>
    rw [heq] at hc
    exact h.undisturbed ⟨hc.merging, hc.abortFailed⟩

theorem Idle.teardownWorkspace {replies : TeardownReplies} (h : s.Idle) :
    (s.teardownWorkspace lib w replies).1.Idle := by
  unfold Strategy.teardownWorkspace
  split
  · exact h
  split
  · exact h
  unfold removeWorktreeAndBranch
  dsimp only
  cases hremove : (s.repos w.projectId).worktreeRemove w.workspaceId replies.worktreeRemove with
  | mk r removed =>
    have hr : r.merging = (s.repos w.projectId).merging := by
      rcases Repo.worktreeRemove_eq hremove with ⟨-, rfl⟩ | ⟨-, rfl⟩ <;> rfl
    have h' := Undisturbed.refl.setRepo w.projectId r hr
    have hkept : s.Undisturbed { s.setRepo w.projectId r with
        worktreeKept := if removed = true then s.worktreeKept
          else update s.worktreeKept w.workspaceId true } := ⟨h'.merging, h'.abortFailed⟩
    have hd := hkept.deleteBranch w.projectId w.workspaceId w.branchName replies.branchDelete
    exact h.undisturbed ⟨hd.merging, hd.abortFailed⟩

theorem Idle.commit (h : s.Idle) : (s.commit w number).Idle := by
  unfold Strategy.commit
  dsimp only
  split
  · next tip htip =>
    split
    · have h' := Undisturbed.refl.setRepo w.projectId { s.repos w.projectId with
        branches := update (s.repos w.projectId).branches w.branchName
          (some (.work tip number)) } rfl
      exact h.undisturbed ⟨h'.merging, h'.abortFailed⟩
    · exact h
  · exact h

theorem Idle.setRepo {r : Repo} (h : s.Idle) (hr : r.merging ≠ .none → s.abortFailed root = true) :
    (s.setRepo root r).Idle := by
  intro root' hm
  rw [setRepo_repos] at hm
  split at hm
  next heq => exact heq ▸ hr hm
  · exact h root' hm

theorem Idle.abort {r : Repo} (h : s.Idle)
    (hdiff : replies.diff = true ∨ (r.merging ≠ .none → s.abortFailed root = true)) :
    ((s.setRepo root r).handleMergeConflict root replies).1.Idle := by
  unfold Strategy.handleMergeConflict
  split
  next hf =>
    rcases hdiff with hdiff | hr
    · simp [hdiff] at hf
    · exact h.setRepo hr
  rw [setRepo_repos, if_pos rfl]
  split
  next r' heq =>
    rcases Repo.abort_eq heq with ⟨-, -, ⟨-, hnone⟩ | ⟨hfalse, -⟩⟩
    · intro root' hm
      rw [setRepo_repos] at hm
      split at hm
      · exact absurd hnone hm
      next hne =>
        rw [setRepo_repos, if_neg hne] at hm
        exact h root' hm
    · cases hfalse
  next r' heq =>
    rcases Repo.abort_eq heq with ⟨-, -, ⟨htrue, -⟩ | ⟨-, rfl⟩⟩
    · cases htrue
    · intro root' hm
      dsimp only [Strategy.setRepo] at hm ⊢
      rw [update_apply] at hm ⊢
      split at hm
      next heq => simp [heq, hm]
      next hne =>
        rw [if_neg hne]
        rw [update_apply, if_neg hne] at hm
        exact h root' hm

theorem Idle.mergeUnderLock (h : s.Idle)
    (hcare : ∀ conflict, replies.merge = .stopped conflict → replies.diff = true) :
    (s.mergeUnderLock w replies).1.Idle := by
  unfold Strategy.mergeUnderLock
  dsimp only
  split
  · exact h
  split
  next r hc =>
    obtain ⟨-, -, hm, -⟩ := Repo.checkout_eq hc
    exact h.setRepo fun hr => h _ (hm ▸ hr)
  next r hc =>
    obtain ⟨-, -, hm, hhead⟩ := Repo.checkout_eq hc
    have hb : r.merging ≠ .none → s.abortFailed w.projectId = true := fun hr =>
      h _ (hm ▸ hr)
    split
    next r' hmerge =>
      obtain ⟨tip, other, -, ho, -, rfl⟩ := Repo.merge_true (hhead rfl) hmerge
      rw [ho, finalizeSuccessfulMerge_fst]
      exact h.setRepo hb
    next r' hmerge =>
      obtain ⟨-, -, hkind⟩ := Repo.merge_false hmerge
      refine h.abort ?_
      rcases hkind with rfl | ⟨conflict, hstop⟩
      · exact .inr hb
      · exact .inl (hcare conflict hstop)

/-- STEP LEMMA of the merges. -/
theorem Idle.step (h : s.Idle) (hcare : s.Careful input) :
    (Strategy.step config lib s input).Idle := by
  cases input with
  | setup request replies => exact h.setupWorkspace
  | merge index replies =>
    simp only [Strategy.step]
    split
    next w hw =>
      unfold mergeWorkspace
      split
      · exact h.mergeUnderLock hcare
      · exact h
    · exact h
  | teardown index replies =>
    simp only [Strategy.step]
    split
    · exact h.teardownWorkspace
    · exact h
  | commit index number =>
    simp only [Strategy.step]
    split
    · exact h.commit
    · exact h

-- ==== whole runs

variable {branches : Option String → String → Option Commit} {head : Option String → Option String}

theorem new_inOrder : (new branches head).InOrder config (new branches head) where
  advanced := fun _ _ => rfl
  limited := Nat.zero_le _
  returned := nofun
  named := nofun
  distinct := nofun
  whole := nofun
  branchOwned := nofun
  worktreeOwned := nofun
  freshBranch := nofun
  freshWorktree := nofun

theorem new_idle : (new branches head).Idle := fun _ hm => absurd rfl hm

/-- What a call leaves behind. -/
structure Restored (config : PlannerWorktreesConfig) (s start : Strategy) : Prop where
  idle : s.Idle
  /-- A branch is what the journal of the commands with status zero makes of it. -/
  advanced : ∀ root ref, (s.repos root).branches ref =
    replay root ref ((start.repos root).branches ref) s.journal
  limited : s.active.length ≤ config.maxConcurrentWorktrees
  whole : ∀ w ∈ s.active, ((s.repos w.projectId).branches w.branchName).isSome ∧
    (w.workspaceId, w.branchName) ∈ (s.repos w.projectId).worktrees
  branchOwned : ∀ root taskId i, ((s.repos root).branches (.workspace taskId i)).isSome →
    s.branchKept i = true ∨
      ∃ w ∈ s.active, w.projectId = root ∧ w.taskId = taskId ∧ w.workspaceId = i
  worktreeOwned : ∀ root i ref, (i, ref) ∈ (s.repos root).worktrees → s.worktreeKept i = true ∨
    ∃ w ∈ s.active, w.projectId = root ∧ w.workspaceId = i

/-- In every run in which no merge that stopped fails to list its conflicts, everything is as
the commands that succeeded left it, and no merge is in progress. -/
theorem restored (config : PlannerWorktreesConfig) (lib : Library)
    (branches : Option String → String → Option Commit) (head : Option String → Option String)
    (inputs : List Input)
    (hcare : Run.Throughout (Strategy.step config lib) Careful (new branches head) inputs) :
    ∀ s ∈ Run.states (Strategy.step config lib) (new branches head) inputs,
      s.Restored config (new branches head) := by
  intro s hs
  obtain ⟨hidle, h⟩ := Run.throughout_states
    (P := fun s => s.Idle ∧ s.InOrder config (new branches head))
    (fun _ _ hok h => ⟨h.1.step hok, h.2.step⟩) hcare ⟨new_idle, new_inOrder⟩ s hs
  exact ⟨hidle, h.advanced, h.limited, h.whole, h.branchOwned, h.worktreeOwned⟩

def twoWorktrees : PlannerWorktreesConfig := ⟨2, by decide⟩

def plain : Library := ⟨fun c => c == ' ', fun _ => false⟩

def mainOnly (_ : Option String) (name : String) : Option Commit :=
  if name = "main" then some (.initial 0) else none

def request : WorkspaceRequest := ⟨"task", "agent", .named "main", none⟩

def conflicting (diff : Bool) : List Input :=
  [.setup request ⟨true, true, true⟩, .commit 0 1,
    .merge 0 ⟨true, .stopped true, true, diff, ["a.py"], true⟩]

theorem restored_conflicting :
    (Run.final (Strategy.step twoWorktrees plain) (new mainOnly fun _ => some "main")
      (conflicting true)).Restored twoWorktrees (new mainOnly fun _ => some "main") := by
  have hcare : Run.Throughout (Strategy.step twoWorktrees plain) Careful
      (new mainOnly fun _ => some "main") (conflicting true) :=
    ⟨trivial, trivial, fun _ _ => rfl, trivial⟩
  exact restored twoWorktrees plain mainOnly (fun _ => some "main") (conflicting true) hcare _
    (Run.final_mem_states (Strategy.step twoWorktrees plain) (new mainOnly fun _ => some "main")
      (conflicting true))

/-- The merge stays in progress, although no abort has failed, and the next one fails. -/
theorem left_merging :
    let s := Run.final (Strategy.step twoWorktrees plain) (new mainOnly fun _ => some "main")
      (conflicting false);
    (s.repos none).merging = .conflicted ∧ s.abortFailed none = false ∧
      ((s.setupWorkspace twoWorktrees plain request ⟨true, true, true⟩).1.mergeUnderLock
        ⟨1, "task", "agent", .workspace "task" 1, .named "main", none⟩
        ⟨true, .ok, true, true, [], true⟩).2 = .error .merge := by
  refine ⟨by decide +kernel, by decide +kernel, by decide +kernel⟩

end Strategy

end Synthorg.Worktrees
