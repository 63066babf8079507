/-
The storage a sandbox container is given, as the daemon sees it
(tools/sandbox/workspace_mount.py).

The mount table is read for the workspace root; the subtree of an execution is
appended later, by a step that does not see the table. An absolute path is the
list of its segments.
-/
import Synthorg.Core.Validation
import Mathlib.Data.List.Induction

namespace Synthorg.Sandbox

open Synthorg.Core
open List

abbrev Path := List Text

inductive MountKind
  | volume (name : Option Text)
  | bind (source : Option Text)
  | other (kind : Text)
  deriving DecidableEq

/-- An entry of the parent's `Mounts`, with an absolute destination. -/
structure MountEntry where
  kind : MountKind
  destination : Path
  deriving DecidableEq

inductive SandboxError
  | unmappable
  | subpathUnsupported
  deriving DecidableEq

inductive WorkspaceMount
  | volume (name : Text) (subpath : Path) (supportsSubpath : Bool)
  | host (path : Text)
  deriving DecidableEq

/-- `f"\x7bsource\x7d/\x7bsuffix\x7d"`, and without a suffix the source. -/
def below (source : Text) (suffix : Path) : Text :=
  source ++ suffix.flatMap fun segment => '/' :: segment

def WorkspaceMount.child (mount : WorkspaceMount) (relative : Path) :
    Except SandboxError WorkspaceMount :=
  if relative = [] then .ok mount
  else
    match mount with
    | .volume name subpath supportsSubpath =>
      if supportsSubpath then .ok (.volume name (subpath ++ relative) supportsSubpath)
      else .error .subpathUnsupported
    | .host path => .ok (.host (below path relative))

-- ==== resolving the root

/-- `int` is Python's, none where it raises. -/
def supportsSubpath (int : Text → Option Int) (apiVersion : Text) : Bool :=
  match apiVersion.splitOn '.' with
  | [major, minor] =>
    match int major, int minor with
    | some major, some minor => 1 < major || major = 1 && 45 ≤ minor
    | _, _ => false
  | _ => false

def relativeTo (destination root : Path) : Option Path :=
  if destination <+: root then some (root.drop destination.length) else none

structure Candidate where
  entry : MountEntry
  relative : Path

def closer (root : Path) (best : Option Candidate) (entry : MountEntry) : Option Candidate :=
  match relativeTo entry.destination root with
  | none => best
  | some relative =>
    if best.all fun best => best.entry.destination.length < entry.destination.length then
      some { entry, relative }
    else best

def coveringMount (mounts : List MountEntry) (root : Path) : Option Candidate :=
  mounts.foldl (closer root) none

def mountFrom (int : Text → Option Int) (candidate : Candidate) (apiVersion : Text) :
    Except SandboxError WorkspaceMount :=
  match candidate.entry.kind with
  | .volume name =>
    match name.filter (· ≠ []) with
    | none => .error .unmappable
    | some name =>
      let capable := supportsSubpath int apiVersion
      if candidate.relative ≠ [] ∧ ¬ capable then .error .subpathUnsupported
      else .ok (.volume name candidate.relative capable)
  | .bind source =>
    match source.filter (· ≠ []) with
    | none => .error .unmappable
    | some source => .ok (.host (below source candidate.relative))
  | .other _ => .error .unmappable

/-- `inspectMounts` answers none for a container the daemon has never heard of. -/
def resolveWorkspaceMount (int : Text → Option Int)
    (inspectMounts : Text → Except SandboxError (Option (List MountEntry))) (root : Path)
    (apiVersion : Text) (containerId : Option Text) (certain : Bool) :
    Except SandboxError (Option WorkspaceMount) :=
  match containerId with
  | none => .ok none
  | some containerId =>
    match inspectMounts containerId with
    | .error error => .error error
    | .ok none => if certain then .error .unmappable else .ok none
    | .ok (some mounts) =>
      match coveringMount mounts root with
      | none => .error .unmappable
      | some candidate => (mountFrom int candidate apiVersion).map some

-- ==== what the parent itself reaches

structure Closest (mounts : List MountEntry) (path : Path) (entry : MountEntry) : Prop where
  mem : entry ∈ mounts
  covers : entry.destination <+: path
  longest : ∀ other ∈ mounts, other.destination <+: path →
    other.destination.length ≤ entry.destination.length

def Names (mount : WorkspaceMount) (entry : MountEntry) (path : Path) : Prop :=
  (∃ name supports, entry.kind = .volume (some name) ∧
    mount = .volume name (path.drop entry.destination.length) supports) ∨
  ∃ source, entry.kind = .bind (some source) ∧
    mount = .host (below source (path.drop entry.destination.length))

/-- Two binds, the second of a directory where the first reaches it, too. -/
def SameDirectory (own deep : MountEntry) : Prop :=
  ∃ source between, own.kind = .bind (some source) ∧ own.destination ++ between = deep.destination ∧
    deep.kind = .bind (some (below source between))

variable {mounts : List MountEntry} {root path : Path} {own deep : MountEntry}

theorem below_append (source : Text) (front rest : Path) :
    below source (front ++ rest) = below (below source front) rest := by
  simp [below]

/-- What the loop holds after some entries. -/
def IsBest (mounts : List MountEntry) (root : Path) : Option Candidate → Prop
  | none => ∀ entry ∈ mounts, ¬ entry.destination <+: root
  | some best => Closest mounts root best.entry ∧
      best.relative = root.drop best.entry.destination.length

theorem IsBest.closer {best : Option Candidate} (h : IsBest mounts root best) (entry : MountEntry) :
    IsBest (mounts ++ [entry]) root (closer root best entry) := by
  have hsnoc : ∀ other ∈ mounts ++ [entry], other ∈ mounts ∨ other = entry := by simp
  unfold Sandbox.closer relativeTo
  split
  next hnone =>
    have hout : ¬ entry.destination <+: root := by simpa using hnone
    cases best with
    | none =>
      intro other hother
      rcases hsnoc other hother with hold | rfl
      · exact h other hold
      · exact hout
    | some best =>
      refine ⟨⟨mem_append_left _ h.1.mem, h.1.covers, fun other hother hc => ?_⟩, h.2⟩
      rcases hsnoc other hother with hold | rfl
      · exact h.1.longest other hold hc
      · exact absurd hc hout
  next relative hsome =>
    obtain ⟨hc, hrel⟩ := Option.ite_none_right_eq_some.1 hsome
    split
    next hdeep =>
      refine ⟨⟨by simp, hc, fun other hother hc' => ?_⟩, (Option.some.inj hrel).symm⟩
      rcases hsnoc other hother with hold | rfl
      · cases best with
        | none => exact absurd hc' (h other hold)
        | some best =>
          have hlt := of_decide_eq_true hdeep
          exact Nat.le_trans (h.1.longest other hold hc') (Nat.le_of_lt hlt)
      · exact Nat.le_refl _
    next hdeep =>
      cases best with
      | none => exact absurd rfl hdeep
      | some best =>
        have hge := Nat.le_of_not_lt fun hlt => hdeep (decide_eq_true hlt)
        refine ⟨⟨mem_append_left _ h.1.mem, h.1.covers, fun other hother hc' => ?_⟩, h.2⟩
        rcases hsnoc other hother with hold | rfl
        · exact h.1.longest other hold hc'
        · exact hge

theorem isBest_coveringMount (mounts : List MountEntry) (root : Path) :
    IsBest mounts root (coveringMount mounts root) := by
  induction mounts using reverseRec with
  | nil => simp [coveringMount, IsBest]
  | append_singleton mounts entry ih =>
    rw [coveringMount, foldl_append]
    exact ih.closer entry

theorem exists_closest {entry : MountEntry} (hmem : entry ∈ mounts)
    (hc : entry.destination <+: path) : ∃ deep, Closest mounts path deep := by
  have hbest := isBest_coveringMount mounts path
  cases hfound : coveringMount mounts path with
  | none =>
    rw [hfound] at hbest
    exact absurd hc (hbest entry hmem)
  | some best =>
    rw [hfound] at hbest
    exact ⟨best.entry, hbest.1⟩

-- ==== resolving, then going below

variable {int : Text → Option Int} {apiVersion : Text} {mount mount' : WorkspaceMount} {sub : Path}

def Offset (int : Text → Option Int) (apiVersion : Text) : WorkspaceMount → Prop
  | .volume _ subpath supports =>
    supports = supportsSubpath int apiVersion ∧ (subpath ≠ [] → supports = true)
  | .host _ => True

theorem mountFrom_names {candidate : Candidate}
    (hrel : candidate.relative = root.drop candidate.entry.destination.length)
    (h : mountFrom int candidate apiVersion = .ok mount) :
    Names mount candidate.entry root ∧ Offset int apiVersion mount := by
  unfold mountFrom at h
  split at h
  next name hkind =>
    split at h
    next => cases h
    next given hgiven =>
      obtain ⟨rfl, -⟩ := Option.filter_eq_some_iff.1 hgiven
      dsimp only at h
      split at h
      next => cases h
      next hcap =>
        cases h
        refine ⟨.inl ⟨given, _, hkind, by rw [hrel]⟩, rfl, fun hoff => ?_⟩
        simpa [hoff] using hcap
  next source hkind =>
    split at h
    next => cases h
    next given hgiven =>
      obtain ⟨rfl, -⟩ := Option.filter_eq_some_iff.1 hgiven
      cases h
      exact ⟨.inr ⟨given, hkind, by rw [hrel]⟩, trivial⟩
  next => cases h

theorem child_names (hc : own.destination <+: root) (hname : Names mount own root)
    (hoff : Offset int apiVersion mount) (h : mount.child sub = .ok mount') :
    Names mount' own (root ++ sub) ∧ Offset int apiVersion mount' := by
  have hdrop : (root ++ sub).drop own.destination.length =
      root.drop own.destination.length ++ sub := drop_append_of_le_length hc.length_le
  unfold WorkspaceMount.child at h
  split at h
  next hnil =>
    cases h
    rw [hnil, append_nil]
    exact ⟨hname, hoff⟩
  next =>
    rcases hname with ⟨name, supports, hkind, rfl⟩ | ⟨source, hkind, rfl⟩
    · dsimp only at h
      split at h
      next hs =>
        cases h
        exact ⟨.inl ⟨name, supports, hkind, by rw [hdrop]⟩, hoff.1, fun _ => hs⟩
      next => cases h
    · cases h
      exact ⟨.inr ⟨source, hkind, by rw [hdrop, below_append]⟩, trivial⟩

theorem names_iff (hd : (mounts.map MountEntry.destination).Nodup)
    (hown : Closest mounts root own)
    (hdeep : Closest mounts (root ++ sub) deep) (hname : Names mount own (root ++ sub)) :
    Names mount deep (root ++ sub) ↔ deep = own ∨ SameDirectory own deep := by
  have hc : own.destination <+: root ++ sub := hown.covers.trans (prefix_append root sub)
  obtain ⟨between, hb⟩ := prefix_of_prefix_length_le hc hdeep.covers
    (hdeep.longest own hown.mem hc)
  obtain ⟨rest, hrest⟩ := hdeep.covers
  by_cases hsame : deep = own
  · exact iff_of_true (hsame ▸ hname) (.inl hsame)
  have hne : between ≠ [] := by
    rintro rfl
    rw [append_nil] at hb
    exact hsame (inj_on_of_nodup_map hd hdeep.mem hown.mem hb.symm)
  have hlong : (root ++ sub).drop own.destination.length = between ++ rest := by
    rw [← hrest, ← hb, append_assoc, drop_left]
  have hshort : (root ++ sub).drop deep.destination.length = rest := by
    rw [← hrest, drop_left]
  rw [or_iff_right hsame]
  rw [Names, hlong] at hname
  rw [Names, hshort]
  rcases hname with ⟨name, supports, hkind, rfl⟩ | ⟨source, hkind, rfl⟩
  · refine iff_of_false ?_ ?_
    · rintro (⟨name', supports', -, heq⟩ | ⟨source', -, heq⟩)
      · exact hne (append_left_eq_self.1 (WorkspaceMount.volume.inj heq).2.1)
      · cases heq
    · rintro ⟨source', between', hbind, -⟩
      rw [hkind] at hbind
      cases hbind
  · constructor
    · rintro (⟨name', supports', -, heq⟩ | ⟨source', hkind', heq⟩)
      · cases heq
      · rw [below_append, WorkspaceMount.host.injEq, below, below.eq_def source',
          append_cancel_right_eq] at heq
        exact ⟨source, between, hkind, hb, heq ▸ hkind'⟩
    · rintro ⟨source', between', hbind, hdest, hkind'⟩
      rw [hkind] at hbind
      cases hbind
      rw [← hb, append_cancel_left_eq] at hdest
      exact .inr ⟨_, hkind', by rw [hdest, below_append]⟩

/-- THE PARENT'S OWN STORAGE is named exactly where the entry closest to the subtree
is the root's, or binds the very directory the root's does. -/
theorem child_names_iff (int : Text → Option Int)
    (inspectMounts : Text → Except SandboxError (Option (List MountEntry))) (apiVersion : Text)
    (containerId : Text) (certain : Bool) (mount mount' : WorkspaceMount)
    (hd : (mounts.map MountEntry.destination).Nodup)
    (hi : inspectMounts containerId = .ok (some mounts))
    (hres : resolveWorkspaceMount int inspectMounts root apiVersion (some containerId) certain =
      .ok (some mount)) (hchild : mount.child sub = .ok mount') :
    (∃ own deep, Closest mounts root own ∧ Closest mounts (root ++ sub) deep ∧
      (Names mount' deep (root ++ sub) ↔ deep = own ∨ SameDirectory own deep)) ∧
    ∀ name subpath supports, mount' = .volume name subpath supports → subpath ≠ [] →
      supportsSubpath int apiVersion = true := by
  have hbest := isBest_coveringMount mounts root
  simp only [resolveWorkspaceMount, hi] at hres
  split at hres
  next => cases hres
  next candidate hfound =>
    rw [hfound] at hbest
    obtain ⟨hown, hrel⟩ := hbest
    cases hfrom : mountFrom int candidate apiVersion with
    | error e =>
      rw [hfrom] at hres
      cases hres
    | ok resolved =>
      rw [hfrom] at hres
      cases hres
      obtain ⟨hname, hoff⟩ := mountFrom_names hrel hfrom
      obtain ⟨hname', hoff'⟩ := child_names hown.covers hname hoff hchild
      obtain ⟨deep, hdeep⟩ := exists_closest hown.mem (hown.covers.trans (prefix_append root sub))
      refine ⟨⟨_, deep, hown, hdeep, names_iff hd hown hdeep hname'⟩, ?_⟩
      rintro name subpath supports rfl hne
      exact hoff'.1 ▸ hoff'.2 hne

-- ==== a mount below the root

def data : Path := ["data".toList]

/-- The parent reaches a project's directory through a volume of its own. -/
def nested : List MountEntry :=
  [⟨.volume (some "all".toList), data⟩, ⟨.volume (some "project".toList), data ++ ["p".toList]⟩]

def ints (text : Text) : Option Int :=
  if text = "1".toList then some 1 else if text = "45".toList then some 45 else none

theorem child_names_iff_other :
    ∃ own deep, Closest nested data own ∧ Closest nested (data ++ ["q".toList]) deep ∧
      (Names (.volume "all".toList ["q".toList] true) deep (data ++ ["q".toList]) ↔
        deep = own ∨ SameDirectory own deep) :=
  (child_names_iff ints (fun _ => .ok (some nested)) "1.45".toList [] true
    (.volume "all".toList [] true) _ (by decide) rfl (by decide) (by decide)).1

theorem child_misses_nested :
    resolveWorkspaceMount ints (fun _ => .ok (some nested)) data "1.45".toList (some []) true =
      .ok (some (.volume "all".toList [] true)) ∧
    (WorkspaceMount.volume "all".toList [] true).child ["p".toList] =
      .ok (.volume "all".toList ["p".toList] true) ∧
    Closest nested (data ++ ["p".toList]) ⟨.volume (some "project".toList), data ++ ["p".toList]⟩ ∧
    ¬ Names (.volume "all".toList ["p".toList] true)
      ⟨.volume (some "project".toList), data ++ ["p".toList]⟩ (data ++ ["p".toList]) := by
  refine ⟨by decide, by decide, ⟨by decide, prefix_rfl, by decide⟩, ?_⟩
  rintro (⟨name, supports, -, heq⟩ | ⟨source, hkind, -⟩)
  · cases heq
  · cases hkind

end Synthorg.Sandbox
