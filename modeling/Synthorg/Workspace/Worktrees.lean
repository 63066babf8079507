/-
Workspaces as git worktrees: setup, merge and teardown.

The calls run under one lock, each to its end. A git command that runs may return a non-zero
status at any time; then it has changed nothing, except that a merge may have stopped with the
merge in progress. Between the calls agents commit in their worktrees.

Branches have the names that requests give, or the name of a workspace, which is that of its task
and of its number.
-/
import Mathlib.Logic.Function.Basic

namespace Synthorg.Worktrees

open Function (update)

-- ==== git

inductive Ref
  | named (name : String)
  /-- `workspace/<task>/<id>`. -/
  | workspace (taskId : String) (workspaceId : Nat)
  deriving DecidableEq

inductive Commit
  | initial (number : Nat)
  | work (parent : Commit) (number : Nat)
  | merge (onto other : Commit)
  deriving DecidableEq

def Commit.contains : Commit → Commit → Bool
  | .initial number, other => .initial number == other
  | .work parent number, other => .work parent number == other || parent.contains other
  | .merge onto branch, other =>
    .merge onto branch == other || onto.contains other || branch.contains other

/-- `merge --no-ff`, which may find that there is nothing to merge. -/
def mergeOnto (onto other : Commit) : Commit :=
  if onto.contains other then onto else .merge onto other

inductive Merging
  | none
  /-- There are unmerged paths. -/
  | conflicted
  | uncommitted
  deriving DecidableEq

structure Repo where
  branches : Ref → Option Commit
  head : Option Ref
  worktrees : List (Nat × Ref)
  merging : Merging

inductive MergeReply
  | ok
  | failed
  | stopped (conflict : Bool)

namespace Repo

def linked (r : Repo) (ref : Ref) : Bool := r.worktrees.any fun entry => entry.2 == ref

/-- `git branch <name> <base>`, and whether the status is zero; so too below. -/
def branch (r : Repo) (name base : Ref) (ok : Bool) : Repo × Bool :=
  match r.branches name, r.branches base with
  | none, some tip =>
    if ok then ({ r with branches := update r.branches name (some tip) }, true)
    else (r, false)
  | _, _ => (r, false)

/-- `git worktree add <path> <ref>`. -/
def worktreeAdd (r : Repo) (workspaceId : Nat) (ref : Ref) (ok : Bool) : Repo × Bool :=
  if ok ∧ (r.branches ref).isSome ∧ r.head ≠ some ref ∧ !r.linked ref ∧
      r.worktrees.all fun entry => entry.1 != workspaceId then
    ({ r with worktrees := (workspaceId, ref) :: r.worktrees }, true)
  else (r, false)

/-- `git branch -D <ref>`. -/
def branchDelete (r : Repo) (ref : Ref) (ok : Bool) : Repo × Bool :=
  if ok ∧ (r.branches ref).isSome ∧ r.head ≠ some ref ∧ !r.linked ref then
    ({ r with branches := update r.branches ref none }, true)
  else (r, false)

/-- `git worktree remove <path> --force`. -/
def worktreeRemove (r : Repo) (workspaceId : Nat) (ok : Bool) : Repo × Bool :=
  if ok ∧ r.worktrees.any fun entry => entry.1 == workspaceId then
    ({ r with worktrees := r.worktrees.filter fun entry => entry.1 != workspaceId }, true)
  else (r, false)

/-- `git checkout <ref>`, which unmerged paths prevent. -/
def checkout (r : Repo) (ref : Ref) (ok : Bool) : Repo × Bool :=
  if ok ∧ (r.branches ref).isSome ∧ !r.linked ref ∧ r.merging ≠ .conflicted then
    ({ r with head := some ref }, true)
  else (r, false)

/-- The branch that `HEAD` is at, and its tip. -/
def current (r : Repo) : Option (Ref × Commit) :=
  match r.head with
  | none => none
  | some ref => (r.branches ref).map fun tip => (ref, tip)

/-- `git merge --no-ff <ref>`. -/
def merge (r : Repo) (ref : Ref) (reply : MergeReply) : Repo × Bool :=
  match r.merging, r.current, r.branches ref with
  | .none, some (onto, tip), some other =>
    match reply with
    | .ok =>
      ({ r with branches := update r.branches onto (some (mergeOnto tip other)) }, true)
    | .failed => (r, false)
    | .stopped conflict =>
      ({ r with merging := if conflict then .conflicted else .uncommitted }, false)
  | _, _, _ => (r, false)

/-- `git merge --abort`. -/
def abort (r : Repo) (ok : Bool) : Repo × Bool :=
  if ok ∧ r.merging ≠ .none then ({ r with merging := .none }, true) else (r, false)

end Repo

-- ==== the strategy

structure PlannerWorktreesConfig where
  maxConcurrentWorktrees : Nat
  bounds : 1 ≤ maxConcurrentWorktrees ∧ maxConcurrentWorktrees ≤ 32

/-- What `strip` takes off, and whether a project's directory resolves elsewhere. -/
structure Library where
  isSpace : Char → Bool
  escapes : String → Bool

structure WorkspaceRequest where
  taskId : String
  agentId : String
  baseBranch : Ref
  projectId : Option String

structure Workspace where
  workspaceId : Nat
  taskId : String
  agentId : String
  branchName : Ref
  baseBranch : Ref
  projectId : Option String
  deriving DecidableEq

structure MergeResult where
  success : Bool
  mergedCommitSha : Option Commit
  conflicts : List String
  deriving DecidableEq

inductive WorkspaceError
  | setup
  | limit
  | merge
  | cleanup
  deriving DecidableEq

/-- What became of a branch. -/
inductive Event
  | created (tip : Commit)
  | committed (number : Nat)
  | merged (other : Commit)
  | deleted

structure Strategy where
  /-- The repository of each project, and the one of none. -/
  repos : Option String → Repo
  active : List Workspace
  drawn : Nat
  made : List Workspace
  /-- What the commands with status zero, and the agents, did; the latest first. -/
  journal : List (Option String × Ref × Event)
  /-- A `merge --abort` has failed while a merge was in progress. -/
  abortFailed : Option String → Bool
  /-- The `branch -D` of a workspace has failed, or the `worktree remove`. -/
  branchKept : Nat → Bool
  worktreeKept : Nat → Bool

namespace Strategy

def new (branches : Option String → String → Option Commit) (head : Option String → Option String) :
    Strategy where
  repos := fun root =>
    { branches := fun
        | .named name => branches root name
        | .workspace _ _ => none
      head := (head root).map .named
      worktrees := []
      merging := .none }
  active := []
  drawn := 0
  made := []
  journal := []
  abortFailed := fun _ => false
  branchKept := fun _ => false
  worktreeKept := fun _ => false

-- ==== validation

/-- A letter, a digit, or one of `._/` and the dash. -/
def isSafe (c : Char) : Bool := c.isAlphanum || c == '.' || c == '_' || c == '/' || c == '-'

/-- `".." in value`. -/
def hasDots : List Char → Bool
  | '.' :: '.' :: _ => true
  | _ :: rest => hasDots rest
  | [] => false

/-- Safe characters only, at least one; `$` matches before a newline at the end, too. -/
def matchesSafe (value : List Char) : Bool :=
  let body := if value.getLast? = some '\n' then value.dropLast else value
  !body.isEmpty && body.all isSafe

/-- `_validate_git_ref`, of a text. -/
def validateText (value : String) : Bool :=
  let chars := value.toList
  !chars.isEmpty && chars.head? != some '-' && !hasDots chars && matchesSafe chars

def validateGitRef : Ref → Bool
  | .named name => validateText name
  | .workspace taskId _ => !hasDots taskId.toList && taskId.toList.all isSafe

/-- Does not raise. -/
def effectiveRoot (lib : Library) : Option String → Bool
  | none => true
  | some projectId =>
    let chars := projectId.toList
    !chars.all lib.isSpace && projectId != "." && !chars.contains '/' && !chars.contains '\\' &&
      !hasDots chars && !lib.escapes projectId

-- ==== setup

def setRepo (s : Strategy) (root : Option String) (r : Repo) : Strategy :=
  { s with repos := update s.repos root r }

def record (s : Strategy) (root : Option String) (ref : Ref) (event : Event) : Strategy :=
  { s with journal := (root, ref, event) :: s.journal }

/-- The status of each command of a setup: zero where git allows it. -/
structure SetupReplies where
  branch : Bool
  worktreeAdd : Bool
  branchDelete : Bool

/-- `git branch -D` of a workspace, and whether it returned zero. -/
def deleteBranch (s : Strategy) (root : Option String) (workspaceId : Nat) (ref : Ref) (ok : Bool) :
    Strategy × Bool :=
  match (s.repos root).branchDelete ref ok with
  | (r, true) => ((s.setRepo root r).record root ref .deleted, true)
  | (r, false) =>
    ({ s.setRepo root r with branchKept := update s.branchKept workspaceId true }, false)

/-- Whether it does not raise. -/
def createWorktreeAndBranch (s : Strategy) (root : Option String) (workspaceId : Nat)
    (branchName baseBranch : Ref) (replies : SetupReplies) : Strategy × Bool :=
  match (s.repos root).branch branchName baseBranch replies.branch with
  | (r, false) => (s.setRepo root r, false)
  | (r, true) =>
    let s := match r.branches branchName with
      | some tip => (s.setRepo root r).record root branchName (.created tip)
      | none => s.setRepo root r
    match r.worktreeAdd workspaceId branchName replies.worktreeAdd with
    | (r, true) => (s.setRepo root r, true)
    | (r, false) =>
      (((s.setRepo root r).deleteBranch root workspaceId branchName replies.branchDelete).1, false)

def setupWorkspace (config : PlannerWorktreesConfig) (lib : Library) (s : Strategy)
    (request : WorkspaceRequest) (replies : SetupReplies) :
    Strategy × Except WorkspaceError Workspace :=
  if !validateText request.taskId || !validateGitRef request.baseBranch then (s, .error .setup)
  else if !effectiveRoot lib request.projectId then (s, .error .setup)
  else if config.maxConcurrentWorktrees ≤ s.active.length then (s, .error .limit)
  else
    let workspaceId := s.drawn
    let branchName := Ref.workspace request.taskId workspaceId
    match { s with drawn := s.drawn + 1 }.createWorktreeAndBranch request.projectId workspaceId
      branchName request.baseBranch replies with
    | (s, false) => (s, .error .setup)
    | (s, true) =>
      let workspace := ⟨workspaceId, request.taskId, request.agentId, branchName,
        request.baseBranch, request.projectId⟩
      ({ s with active := s.active ++ [workspace], made := s.made ++ [workspace] }, .ok workspace)

-- ==== merge

/-- The status of each command of a merge; and the paths that `diff` prints. -/
structure MergeReplies where
  checkout : Bool
  merge : MergeReply
  revParse : Bool
  diff : Bool
  paths : List String
  abort : Bool

/-- `_collect_conflicts` and the abort. -/
def handleMergeConflict (s : Strategy) (root : Option String) (replies : MergeReplies) :
    Strategy × Except WorkspaceError MergeResult :=
  if !replies.diff then (s, .error .merge)
  else
    match (s.repos root).abort replies.abort with
    | (r, true) => (s.setRepo root r, .ok ⟨false, none, replies.paths⟩)
    | (r, false) =>
      ({ s.setRepo root r with
        abortFailed := update s.abortFailed root
          (s.abortFailed root || decide (r.merging ≠ .none)) }, .error .merge)

def finalizeSuccessfulMerge (s : Strategy) (root : Option String) (replies : MergeReplies) :
    Strategy × Except WorkspaceError MergeResult :=
  if replies.revParse then
    (s, .ok ⟨true, (s.repos root).current.map Prod.snd, []⟩)
  else (s, .error .merge)

def mergeUnderLock (s : Strategy) (workspace : Workspace) (replies : MergeReplies) :
    Strategy × Except WorkspaceError MergeResult :=
  let root := workspace.projectId
  if !validateGitRef workspace.branchName || !validateGitRef workspace.baseBranch then
    (s, .error .merge)
  else
    match (s.repos root).checkout workspace.baseBranch replies.checkout with
    | (r, false) => (s.setRepo root r, .error .merge)
    | (r, true) =>
      match r.merge workspace.branchName replies.merge with
      | (r', true) =>
        let s := match r.branches workspace.branchName with
          | some other => (s.setRepo root r').record root workspace.baseBranch (.merged other)
          | none => s.setRepo root r'
        s.finalizeSuccessfulMerge root replies
      | (r', false) => (s.setRepo root r').handleMergeConflict root replies

/-- What comes after the lock only reads. -/
def mergeWorkspace (lib : Library) (s : Strategy) (workspace : Workspace) (replies : MergeReplies) :
    Strategy × Except WorkspaceError MergeResult :=
  if effectiveRoot lib workspace.projectId then s.mergeUnderLock workspace replies
  else (s, .error .merge)

-- ==== teardown

structure TeardownReplies where
  worktreeRemove : Bool
  branchDelete : Bool

/-- Whether there was no error. -/
def removeWorktreeAndBranch (s : Strategy) (workspace : Workspace) (replies : TeardownReplies) :
    Strategy × Bool :=
  let root := workspace.projectId
  match (s.repos root).worktreeRemove workspace.workspaceId replies.worktreeRemove with
  | (r, removed) =>
    let s := { s.setRepo root r with
      worktreeKept := if removed then s.worktreeKept
        else update s.worktreeKept workspace.workspaceId true }
    match s.deleteBranch root workspace.workspaceId workspace.branchName replies.branchDelete with
    | (s, deleted) => (s, removed && deleted)

def teardownWorkspace (lib : Library) (s : Strategy) (workspace : Workspace)
    (replies : TeardownReplies) : Strategy × Except WorkspaceError Unit :=
  if !validateGitRef workspace.branchName then (s, .error .cleanup)
  else if !effectiveRoot lib workspace.projectId then (s, .error .cleanup)
  else
    match s.removeWorktreeAndBranch workspace replies with
    | (s, clean) =>
      ({ s with active := s.active.filter fun other => other.workspaceId != workspace.workspaceId },
        if clean then .ok () else .error .cleanup)

-- ==== the steps

def commit (s : Strategy) (workspace : Workspace) (number : Nat) : Strategy :=
  let root := workspace.projectId
  match (s.repos root).branches workspace.branchName with
  | some tip =>
    if (workspace.workspaceId, workspace.branchName) ∈ (s.repos root).worktrees then
      (s.setRepo root { s.repos root with
        branches := update (s.repos root).branches workspace.branchName
          (some (.work tip number)) }).record root workspace.branchName (.committed number)
    else s
  | none => s

inductive Input
  | setup (request : WorkspaceRequest) (replies : SetupReplies)
  | merge (index : Nat) (replies : MergeReplies)
  | teardown (index : Nat) (replies : TeardownReplies)
  | commit (index : Nat) (number : Nat)

def step (config : PlannerWorktreesConfig) (lib : Library) (s : Strategy) : Input → Strategy
  | .setup request replies => (s.setupWorkspace config lib request replies).1
  | .merge index replies =>
    match s.made[index]? with
    | some workspace => (s.mergeWorkspace lib workspace replies).1
    | none => s
  | .teardown index replies =>
    match s.made[index]? with
    | some workspace => (s.teardownWorkspace lib workspace replies).1
    | none => s
  | .commit index number =>
    match s.made[index]? with
    | some workspace => s.commit workspace number
    | none => s

end Strategy

end Synthorg.Worktrees
