/-
The task of a container, as the service built it and as the plan it became
dispatches it.

The service numbers it among all its siblings, the plan among the work alone. `taskAgrees_iff`
says what it takes for the two to come to the same, one container at a time: no decision listed
before it or before what it sits under, and none in it that outranks its work.
-/
import Synthorg.Decomposition.Proofs.Placement
import Synthorg.Decomposition.Proofs.Stripped
import Synthorg.Core.Proofs.TreeWalks
import Synthorg.Lib.Segments
import Mathlib.Data.List.TakeWhile

namespace Synthorg.Decomposition

open Synthorg.Core Lib
open List

section

section

-- ==== segments

def segmentChar (c : Char) : Bool := slugAllowed c || c == '-'

variable {c : Char} {n : Nat} {address : List SubtreeStep}

theorem segmentChar_of_isDigit (h : c.isDigit = true) : segmentChar c = true := by
  unfold Char.isDigit at h
  rw [Bool.and_eq_true, decide_eq_true_eq, decide_eq_true_eq] at h
  have hd : ('0' ≤ c && c ≤ '9') = true := by
    rw [Bool.and_eq_true, decide_eq_true_eq, decide_eq_true_eq]
    exact h
  unfold segmentChar slugAllowed
  rw [hd, Bool.or_true, Bool.true_or]

theorem mem_toDigits (h : c ∈ Nat.toDigits 10 n) : segmentChar c = true :=
  segmentChar_of_isDigit (Nat.isDigit_of_mem_toDigits (by omega) (by omega) h)

theorem mem_twoDigits (h : c ∈ twoDigits n) : segmentChar c = true := by
  unfold twoDigits at h
  split at h
  · rcases mem_cons.1 h with rfl | h
    · rfl
    · exact mem_toDigits h
  · exact mem_toDigits h

variable {cs : List Char} {path : String} {other : List SubtreeStep}

theorem mem_dashRuns {inRun : Bool} (h : c ∈ dashRuns inRun cs) : segmentChar c = true := by
  induction cs generalizing inRun with
  | nil => cases h
  | cons x rest ih =>
    unfold dashRuns at h
    split at h
    next hall =>
      rcases mem_cons.1 h with rfl | h
      · unfold segmentChar
        rw [hall, Bool.true_or]
      · exact ih h
    next =>
      split at h
      next => exact ih h
      next =>
        rcases mem_cons.1 h with rfl | h
        · rfl
        · exact ih h

theorem mem_stripDashes (h : c ∈ stripDashes cs) : c ∈ cs := by
  unfold stripDashes at h
  rw [mem_reverse] at h
  have hi := (dropWhile_sublist _).mem h
  rw [mem_reverse] at hi
  exact (dropWhile_sublist _).mem hi

theorem mem_slugStem {title : String} (h : c ∈ slugStem title) : segmentChar c = true := by
  exact mem_dashRuns (mem_stripDashes (mem_of_mem_take h))

theorem mem_subtreeSlug {step : SubtreeStep} (h : c ∈ subtreeSlug step) : segmentChar c = true := by
  unfold subtreeSlug at h
  split at h
  · exact mem_twoDigits h
  · rw [mem_append, mem_cons] at h
    rcases h with h | rfl | h
    · exact mem_twoDigits h
    · rfl
    · exact mem_slugStem h

theorem mem_slugPath (h : c ∈ slugPath address) : segmentChar c = true ∨ c = '/' := by
  fun_induction slugPath address with
  | case1 => cases h
  | case2 step => exact .inl (mem_subtreeSlug h)
  | case3 step rest hne ih =>
    rw [mem_append, mem_cons] at h
    rcases h with h | rfl | h
    · exact .inl (mem_subtreeSlug h)
    · exact .inr rfl
    · exact ih h

theorem slash_not_mem_subtreeSlug (step : SubtreeStep) : '/' ∉ subtreeSlug step := by
  intro h
  exact absurd (mem_subtreeSlug h) (by decide)

theorem quote_not_mem_slugPath (address : List SubtreeStep) : '`' ∉ slugPath address := by
  intro h
  rcases mem_slugPath h with h | h
  · exact absurd h (by decide)
  · exact absurd h (by decide)

-- ==== positions

theorem twoDigits_injective {m : Nat} (h : twoDigits m = twoDigits n) : m = n := by
  have hval : ∀ k, Nat.ofDigitChars 10 (twoDigits k) 0 = k := by
    intro k
    have hd := Nat.ofDigitChars_toDigits (b := 10) (n := k) (by omega) (by omega)
    unfold twoDigits
    split
    · exact hd
    · exact hd
  rw [← hval m, ← hval n, h]

theorem subtreeSlug_position {s t : SubtreeStep} (httl : s.title = t.title)
    (h : subtreeSlug s = subtreeSlug t) : s = t := by
  have hpos : s.position = t.position := by
    unfold subtreeSlug at h
    rw [httl] at h
    split at h
    · exact twoDigits_injective h
    · exact twoDigits_injective (append_cancel_right h)
  cases s
  simp_all

/-- THE DIRECTORY of a chain of titles gives back their positions. -/
theorem slugPath_injective {xs ys : List SubtreeStep}
    (ht : xs.map SubtreeStep.title = ys.map SubtreeStep.title)
    (h : slugPath xs = slugPath ys) : xs = ys := by
  induction xs generalizing ys with
  | nil =>
    rw [map_nil, eq_comm, map_eq_nil_iff] at ht
    exact ht.symm
  | cons x xs ih =>
    cases ys with
    | nil => cases ht
    | cons y ys =>
      obtain ⟨httl, hrest⟩ := cons.inj ht
      cases xs with
      | nil =>
        cases ys with
        | cons => cases hrest
        | nil => rw [subtreeSlug_position httl h]
      | cons x' xs =>
        cases ys with
        | nil => cases hrest
        | cons y' ys =>
          obtain ⟨hslug, hpath⟩ := Segments.cut_unique
            (slash_not_mem_subtreeSlug x) (slash_not_mem_subtreeSlug y)
            (show subtreeSlug x ++ '/' :: slugPath (x' :: xs) =
              subtreeSlug y ++ '/' :: slugPath (y' :: ys) from h)
          rw [subtreeSlug_position httl hslug, ih hrest hpath]

-- ==== paths

def assemblyStem : List Char := (assemblyRoot ++ "/").toList

def isAssemblyPath (path : String) : Bool := assemblyStem.isPrefixOf path.toList

theorem report_toList (address : List SubtreeStep) : (subtreeAssemblyPaths address).report.toList =
      assemblyStem ++ (slugPath address ++ "/report.md".toList) := by
  unfold subtreeAssemblyPaths assemblyStem
  simp only [String.toList_append, String.toList_ofList, append_assoc]

theorem testOutput_toList (address : List SubtreeStep) :
    (subtreeAssemblyPaths address).testOutput.toList =
      assemblyStem ++ (slugPath address ++ "/end-to-end.txt".toList) := by
  unfold subtreeAssemblyPaths assemblyStem
  simp only [String.toList_append, String.toList_ofList, append_assoc]

theorem isAssemblyPath_declared (h : path ∈ (subtreeAssemblyPaths address).declared) :
    isAssemblyPath path = true := by
  unfold isAssemblyPath
  rw [ isPrefixOf_iff_prefix]
  rcases mem_pair.1 h with rfl | rfl
  · rw [report_toList]
    exact prefix_append _ _
  · rw [testOutput_toList]
    exact prefix_append _ _

theorem slugPath_of_report_mem
    (h : (subtreeAssemblyPaths address).report ∈ (subtreeAssemblyPaths other).declared) :
    slugPath address = slugPath other := by
  rcases mem_pair.1 h with h | h
  · have hc := congrArg String.toList h
    rw [report_toList, report_toList] at hc
    exact append_cancel_right (append_cancel_left hc)
  · -- a report and a test output end in different letters
    have hc := congrArg (fun s => s.toList.getLast?) h
    have hrep : "/report.md".toList.getLast? = some 'd' := rfl
    have ho : "/end-to-end.txt".toList.getLast? = some 't' := rfl
    simp only [report_toList, testOutput_toList, List.getLast?_append, hrep, ho,
      Option.some_or] at hc
    exact absurd hc (by decide)

-- ==== briefs

def briefHead (paths : AssemblyPaths) : List Char :=
  (briefOpening ++ "\n" ++ briefJob ++ "\n" ++ briefEvidence paths ++ "\n").toList

/-- The description opens with a brief of assembly that declares the path. -/
def Names (description path : String) : Prop :=
  ∃ address, briefHead (subtreeAssemblyPaths address) <+: description.toList ∧
    path ∈ (subtreeAssemblyPaths address).declared

def briefStem : List Char :=
  (briefOpening ++ "\n" ++ briefJob ++ "\n" ++ "Record what you did in `").toList ++
    assemblyStem

theorem briefHead_eq (address : List SubtreeStep) : ∃ rest,
    briefHead (subtreeAssemblyPaths address) =
      briefStem ++ ((slugPath address ++ "/report.md".toList) ++ '`' :: rest) := by
  obtain ⟨text, htext⟩ : ∃ text, briefEvidence (subtreeAssemblyPaths address) ++ "\n" =
      "Record what you did in `" ++
        ((subtreeAssemblyPaths address).report ++ ("`" ++ text)) := by
    have hq : "`: what you " = "`" ++ ": what you " := rfl
    unfold briefEvidence
    rw [hq]
    simp only [String.append_assoc]
    exact ⟨_, rfl⟩
  refine ⟨text.toList, ?_⟩
  unfold briefHead briefStem
  rw [String.append_assoc, htext]
  simp only [String.toList_append, report_toList, append_assoc]
  rfl

theorem slugPath_of_brief {text : List Char} (h : briefHead (subtreeAssemblyPaths address) <+: text)
    (h' : briefHead (subtreeAssemblyPaths other) <+: text) : slugPath address = slugPath other := by
  obtain ⟨rest, heq⟩ := briefHead_eq address
  obtain ⟨rest', heq'⟩ := briefHead_eq other
  rw [heq] at h
  rw [heq'] at h'
  have hfree : ∀ a : List SubtreeStep, '`' ∉ slugPath a ++ "/report.md".toList := by
    intro a hmem
    rcases mem_append.1 hmem with hmem | hmem
    · exact quote_not_mem_slugPath a hmem
    · exact absurd hmem (by decide)
  obtain ⟨tail, rfl⟩ := (prefix_append briefStem _).trans h
  rw [prefix_append_right_inj] at h h'
  exact append_cancel_right (Segments.cut_unique_of_prefix (hfree _) (hfree _) h h')

theorem names_iff {description : String}
    (h : briefHead (subtreeAssemblyPaths address) <+: description.toList) :
    Names description path ↔ path ∈ (subtreeAssemblyPaths address).declared := by
  constructor
  · rintro ⟨other, ho, hpath⟩
    unfold subtreeAssemblyPaths at hpath ⊢
    rw [slugPath_of_brief h ho]
    exact hpath
  · intro hpath
    exact ⟨address, h, hpath⟩

theorem briefHead_isPrefix (title : String) (pieces criteria : List String)
    (paths : AssemblyPaths) :
    briefHead paths <+: (buildAssemblyBrief title pieces criteria paths).toList := by
  unfold briefHead buildAssemblyBrief joinLines joinLines joinLines joinLines
  refine ⟨(wrapTaskData (briefReport title pieces criteria)).toList, ?_⟩
  rw [← String.toList_append]
  simp only [String.append_assoc]

end

variable {address other : List SubtreeStep} {path : String}

-- ==== the directory

theorem dash_not_mem_twoDigits (n : Nat) : '-' ∉ twoDigits n := by
  have hd : '-' ∉ Nat.toDigits 10 n := fun h =>
    absurd (Nat.isDigit_of_mem_toDigits (by omega) (by omega) h) (by decide)
  unfold twoDigits
  split
  · simp [hd]
  · exact hd

theorem position_of_slug {s t : SubtreeStep} (h : subtreeSlug s = subtreeSlug t) :
    s.position = t.position := by
  have hf : ∀ step, (subtreeSlug step).takeWhile (· ≠ '-') = twoDigits step.position := by
    intro step
    have hdash := dash_not_mem_twoDigits step.position
    unfold subtreeSlug
    split
    · rw [takeWhile_eq_self_iff]
      intro c hc
      have hne : c ≠ '-' := fun heq => hdash (heq ▸ hc)
      simp [hne]
    · exact Segments.takeWhile_segment hdash _
  apply twoDigits_injective
  rw [← hf s, h, hf]

theorem positions_of_path (haddr : address ≠ []) (ho : other ≠ [])
    (h : slugPath address = slugPath other) :
    address.map SubtreeStep.position = other.map SubtreeStep.position := by
  -- a path of one segment has no slash, a longer one does
  have hlong : ∀ x y y' : SubtreeStep, ∀ ys, subtreeSlug x ≠ slugPath (y :: y' :: ys) :=
    fun x y y' ys heq => slash_not_mem_subtreeSlug x (heq ▸ by simp [slugPath])
  induction address generalizing other with
  | nil => exact absurd rfl haddr
  | cons x xs ih =>
    cases other with
    | nil => exact absurd rfl ho
    | cons y ys =>
      cases xs with
      | nil =>
        cases ys with
        | nil => simp [position_of_slug h]
        | cons y' ys => exact absurd h (hlong x y y' ys)
      | cons x' xs =>
        cases ys with
        | nil => exact absurd h.symm (hlong y x x' xs)
        | cons y' ys =>
          obtain ⟨hslug, hpath⟩ := Segments.cut_unique
            (slash_not_mem_subtreeSlug x) (slash_not_mem_subtreeSlug y)
            (show subtreeSlug x ++ '/' :: slugPath (x' :: xs) =
              subtreeSlug y ++ '/' :: slugPath (y' :: ys) from h)
          rw [map_cons, position_of_slug hslug,
            ih (cons_ne_nil _ _) (cons_ne_nil _ _) hpath, ← map_cons]

theorem slugPath_of_shared (h : path ∈ (subtreeAssemblyPaths address).declared)
    (h' : path ∈ (subtreeAssemblyPaths other).declared) : slugPath address = slugPath other := by
  rcases mem_pair.1 h with rfl | rfl
  · exact slugPath_of_report_mem h'
  · rcases mem_pair.1 h' with heq | heq
    · exact (slugPath_of_report_mem (heq ▸ h)).symm
    · have hc := congrArg String.toList heq
      rw [testOutput_toList, testOutput_toList] at hc
      exact append_cancel_right (append_cancel_left hc)

theorem report_ne_testOutput :
    (subtreeAssemblyPaths address).report ≠ (subtreeAssemblyPaths address).testOutput := by
  intro h
  have hc := congrArg String.toList h
  rw [report_toList, testOutput_toList] at hc
  exact absurd (append_cancel_left (append_cancel_left hc)) (by decide)

def rootAssemblyPaths : AssemblyPaths where
  report := assemblyRoot ++ "/report.md"
  testOutput := assemblyRoot ++ "/end-to-end.txt"

theorem root_not_mem (h : path ∈ rootAssemblyPaths.declared) :
    path ∉ (subtreeAssemblyPaths address).declared := by
  intro hmem
  -- a file of the root lies in the directory itself, the others lie below it
  have hroot : ∃ file, path.toList = assemblyStem ++ file ∧ '/' ∉ file := by
    rcases mem_pair.1 h with rfl | rfl
    · exact ⟨"report.md".toList, by decide, by decide⟩
    · exact ⟨"end-to-end.txt".toList, by decide, by decide⟩
  obtain ⟨file, hfile, hs⟩ := hroot
  rcases mem_pair.1 hmem with rfl | rfl
  · rw [report_toList] at hfile
    exact hs (append_cancel_left hfile ▸ by simp)
  · rw [testOutput_toList] at hfile
    exact hs (append_cancel_left hfile ▸ by simp)

-- ==== the item

variable {items : List PlanItem} {x y : PlanItem}

theorem siblings_eq : (PlanTree.of items).siblings x =
    Forest.childrenOf PlanItem.parentId items x.parentId := by
  unfold PlanTree.siblings
  split <;> simp_all [PlanTree.workstreams, PlanTree.children, PlanTree.of]

section
variable (h : Forest.IsForest PlanItem.id PlanItem.parentId items)
include h

theorem eq_of_place (hx : x ∈ items) (hy : y ∈ items) (hp : x.parentId = y.parentId)
    (hplace : ((PlanTree.of items).step x).position = ((PlanTree.of items).step y).position) :
    x = y := by
  have hf : ∀ z ∈ items, ∃ s,
      ((PlanTree.of items).siblings z)[((PlanTree.of items).step z).position]? = some s ∧
        s.id = z.id := by
    intro z hz
    have hmem : z ∈ (PlanTree.of items).siblings z := by
      rw [siblings_eq]
      exact Forest.mem_childrenOf.2 ⟨hz, rfl⟩
    cases hidx : ((PlanTree.of items).siblings z).findIdx? fun s => s.id = z.id with
    | none => simpa using List.findIdx?_eq_none_iff.1 hidx z hmem
    | some i =>
      obtain ⟨hlt, hid, -⟩ := List.findIdx?_eq_some_iff_getElem.1 hidx
      refine ⟨((PlanTree.of items).siblings z)[i], ?_, by simpa using hid⟩
      simp [PlanTree.step, hidx]
  obtain ⟨s, hs, hsid⟩ := hf x hx
  obtain ⟨t, ht, htimed⟩ := hf y hy
  rw [siblings_eq, hp, hplace, ← siblings_eq, ht] at hs
  cases hs
  exact Keyed.eq_of_key h.distinct hx hy (hsid.symm.trans htimed)

theorem address_end (hx : x ∈ items) :
    ∃ above, (PlanTree.of items).address x.id = above ++ [(PlanTree.of items).step x] ∧
      ((x.parentId = none ∧ above = []) ∨
        ∃ p ∈ items, x.parentId = some p.id ∧ above = (PlanTree.of items).address p.id) := by
  cases hparent : x.parentId with
  | none => exact ⟨[], congrArg _ (h.chain_root hx hparent), .inl ⟨rfl, rfl⟩⟩
  | some id =>
    obtain ⟨p, hp, rfl⟩ := h.parent_mem hx hparent
    refine ⟨_, ?_, .inr ⟨p, hp, rfl, rfl⟩⟩
    simp [PlanTree.address, PlanTree.of, h.chain_child hx hparent]

theorem address_ne_nil (hx : x ∈ items) : (PlanTree.of items).address x.id ≠ [] := by
  obtain ⟨above, heq, -⟩ := address_end h hx
  simp [heq]

theorem item_of_positions (hx : x ∈ items) (hy : y ∈ items)
    (hpos : ((PlanTree.of items).address x.id).map SubtreeStep.position =
      ((PlanTree.of items).address y.id).map SubtreeStep.position) : x = y := by
  generalize hlist : ((PlanTree.of items).address x.id).map SubtreeStep.position = positions
    at hpos
  induction positions using List.reverseRecOn generalizing x y with
  | nil => exact absurd (map_eq_nil_iff.1 hlist) (address_ne_nil h hx)
  | append_singleton front last ih =>
    obtain ⟨above, haddr, ha⟩ := address_end h hx
    obtain ⟨above', haddr', ha'⟩ := address_end h hy
    rw [haddr, map_append] at hlist
    rw [haddr', map_append] at hpos
    obtain ⟨hf, hlast⟩ := append_inj' hlist rfl
    obtain ⟨hf', hlast'⟩ := append_inj' hpos.symm rfl
    have hplace := (cons.inj (hlast.trans hlast'.symm)).1
    rcases ha with ⟨hroot, rfl⟩ | ⟨p, hp, hparent, rfl⟩ <;>
      rcases ha' with ⟨hroot', rfl⟩ | ⟨q, hq, hparent', rfl⟩
    · exact eq_of_place h hx hy (hroot.trans hroot'.symm) hplace
    · rw [← hf, map_nil, map_eq_nil_iff] at hf'
      exact absurd hf' (address_ne_nil h hq)
    · rw [← hf', map_nil, map_eq_nil_iff] at hf
      exact absurd hf (address_ne_nil h hp)
    · have hpq := ih hp hq hf hf'.symm
      exact eq_of_place h hx hy (by rw [hparent, hparent', hpq]) hplace

end

/-- EVIDENCE OF ITS OWN: the two files of the root and those of every item are all different. -/
theorem evidence_apart {p : Plan} (hp : checkGraph p = .ok ()) :
    (rootAssemblyPaths.declared ++ p.items.flatMap fun x =>
      (subtreeAssemblyPaths ((PlanTree.of p.items).address x.id)).declared).Nodup := by
  have hforest := ((checkGraph_ok_iff p).1 hp).2.contained.forest
  rw [nodup_append]
  refine ⟨by decide, ?_, ?_⟩
  · rw [nodup_flatMap]
    refine ⟨fun x _ => ?_, ?_⟩
    · exact nodup_cons.2 ⟨by simpa using report_ne_testOutput, nodup_singleton _⟩
    · refine (Keyed.nodup_of_distinct hforest.distinct).imp_of_mem ?_
      intro x y hx hy hne path hpath hpath'
      exact hne (item_of_positions hforest hx hy (positions_of_path (address_ne_nil hforest hx)
        (address_ne_nil hforest hy) (slugPath_of_shared hpath hpath')))
  · intro path hroot other hother heq
    obtain ⟨x, -, hmem⟩ := mem_flatMap.1 hother
    exact root_not_mem hroot (heq ▸ hmem)

/-- A site and its two parts, six files, and two of the whole. -/
theorem evidence_apart_split : (rootAssemblyPaths.declared ++ splitPlan.items.flatMap fun x =>
      (subtreeAssemblyPaths ((PlanTree.of splitPlan.items).address x.id)).declared).Nodup :=
  evidence_apart (p := splitPlan) (by decide)

end

-- ==== agreement

def expectedPaths (t : Task) : List String :=
  t.artifactsExpected.map ExpectedArtifact.path

def NamesItsPaths (t : Task) : Prop :=
  ∀ p ∈ expectedPaths t, isAssemblyPath p = true → Names t.description p

/-- The two tasks of one container agree. -/
structure TasksAgree (built dispatched : Task) : Prop where
  id : dispatched.id = built.id
  paths : ∀ p, p ∈ expectedPaths dispatched ↔ p ∈ expectedPaths built
  stakes : dispatched.stakes = built.stakes
  built_named : NamesItsPaths built
  dispatched_named : NamesItsPaths dispatched

def ContainersAgree (r dispatched : DecompositionResult) : Prop :=
  ∀ k ∈ containers r [], ∃ t ∈ dispatched.allTasks, TasksAgree k.own.task t

/-- THE CONDITION: no decision stands before a step of the path or tops the stakes, and the files
of assembly that the container expects are its own. -/
structure Container.DecisionsAside (k : Container) : Prop where
  numbered : (∃ s ∈ k.pieces, s.kind = .work) →
    ∀ site ∈ k.path, ∀ s ∈ site.before, s.kind = .work
  outranked : (∃ s ∈ k.pieces, s.kind = .work) →
    ∀ d ∈ k.pieces, ∃ w ∈ k.pieces, w.kind = .work ∧
      (d.stakes ≤ w.stakes ∨ Stakes.high ≤ w.stakes)
  own_paths : ∀ p ∈ k.own.definition.expectedArtifacts, isAssemblyPath p = true →
    p ∈ (subtreeAssemblyPaths k.address).declared

instance (k : Container) : Decidable k.DecisionsAside :=
  decidable_of_iff
    (((∃ s ∈ k.pieces, s.kind = .work) → ∀ site ∈ k.path, ∀ s ∈ site.before, s.kind = .work) ∧
      ((∃ s ∈ k.pieces, s.kind = .work) →
        ∀ d ∈ k.pieces, ∃ w ∈ k.pieces, w.kind = .work ∧
          (d.stakes ≤ w.stakes ∨ Stakes.high ≤ w.stakes)) ∧
      ∀ p ∈ k.own.definition.expectedArtifacts, isAssemblyPath p = true →
        p ∈ (subtreeAssemblyPaths k.address).declared)
    ⟨fun h => ⟨h.1, h.2.1, h.2.2⟩, fun h => ⟨h.numbered, h.outranked, h.own_paths⟩⟩

-- ==== numbering

variable {subtasks : List SubtaskDefinition}

theorem mem_workOf {s : SubtaskDefinition} :
    s ∈ workOf subtasks ↔ s ∈ subtasks ∧ s.kind = .work := by
  unfold workOf
  rw [mem_filter, decide_eq_true_eq]

theorem workOf_ne_nil_iff : workOf subtasks ≠ [] ↔ ∃ s ∈ subtasks, s.kind = .work := by
  constructor
  · intro h
    obtain ⟨s, hs⟩ := exists_mem_of_ne_nil _ h
    exact ⟨s, mem_workOf.1 hs⟩
  · intro h
    obtain ⟨s, hs, hkind⟩ := h
    exact ne_nil_of_mem (mem_workOf.2 ⟨hs, hkind⟩)

theorem numberings_eq_iff (path : List Site) : path.map Site.step = path.map Site.workStep ↔
      ∀ site ∈ path, ∀ s ∈ site.before, s.kind = .work := by
  rw [map_inj_left]
  refine forall_congr' fun site => forall_congr' fun _ => ?_
  unfold Site.step Site.workStep workOf
  rw [SubtreeStep.mk.injEq, and_iff_right rfl, eq_comm, length_filter_eq_length_iff]
  simp only [decide_eq_true_eq]

theorem numberings_eq_of_slugPath {path : List Site}
    (h : slugPath (path.map Site.step) = slugPath (path.map Site.workStep)) :
    path.map Site.step = path.map Site.workStep := by
  apply slugPath_injective ?_ h
  rw [map_map, map_map]
  rfl

-- ==== rungs

theorem exists_highestRank {assembled : List Stakes} (hne : assembled ≠ []) :
    ∃ s ∈ assembled, s.rank = highestRank assembled := by
  have hr : ∀ (rest : List Stakes) (m : Nat), rest.foldl (fun m s => max m s.rank) m = m ∨
        ∃ s ∈ rest, s.rank = rest.foldl (fun m s => max m s.rank) m := by
    intro rest
    induction rest with
    | nil => exact fun m => .inl rfl
    | cons a rest ih =>
      intro m
      rw [foldl_cons]
      rcases ih (max m a.rank) with hkept | ⟨s, hs, hrank⟩
      · by_cases hle : a.rank ≤ m
        · exact .inl (by omega)
        · exact .inr ⟨a, mem_cons_self, by omega⟩
      · exact .inr ⟨s, mem_cons_of_mem a hs, hrank⟩
  unfold highestRank
  rw [if_neg hne]
  rcases hr assembled 0 with hzero | hsome
  · obtain ⟨s, hs⟩ := exists_mem_of_ne_nil assembled hne
    have hle := (le_foldl_max assembled 0).2 s hs
    exact ⟨s, hs, by omega⟩
  · exact hsome

/-- A container keeps its rung exactly when no decision outranks its work below HIGH. -/
theorem escalated_work_iff {pieces : List SubtaskDefinition}
    (hwork : ∃ s ∈ pieces, s.kind = .work) :
    escalatedStakes ((workOf pieces).map SubtaskDefinition.stakes) =
        escalatedStakes (pieces.map SubtaskDefinition.stakes) ↔
      ∀ d ∈ pieces, ∃ w ∈ pieces, w.kind = .work ∧
        (d.stakes ≤ w.stakes ∨ Stakes.high ≤ w.stakes) := by
  have hhigh : Stakes.high.rank = 2 := rfl
  have hne : (workOf pieces).map SubtaskDefinition.stakes ≠ [] := by
    rw [ne_eq, map_eq_nil_iff]
    exact workOf_ne_nil_iff.2 hwork
  have hn : pieces.map SubtaskDefinition.stakes ≠ [] := by
    obtain ⟨s, hs, -⟩ := hwork
    exact ne_nil_of_mem (mem_map_of_mem hs)
  have hrank : ∀ assembled, (escalatedStakes assembled).rank =
      min (highestRank assembled + 1) 3 := by
    intro assembled
    unfold escalatedStakes
    rw [rank_stakesAt]
    omega
  rw [← Stakes.rank_injective.eq_iff, hrank, hrank]
  obtain ⟨top, htop, ht⟩ := exists_highestRank hn
  obtain ⟨lead, hlead, hl⟩ := exists_highestRank hne
  obtain ⟨d, hd, rfl⟩ := mem_map.1 htop
  obtain ⟨w, hw, rfl⟩ := mem_map.1 hlead
  obtain ⟨hwmem, hweakened⟩ := mem_workOf.1 hw
  have hle : w.stakes.rank ≤ highestRank (pieces.map SubtaskDefinition.stakes) :=
    rank_le_highestRank (mem_map_of_mem hwmem)
  constructor
  · intro h e he
    have hebel : e.stakes.rank ≤ highestRank (pieces.map SubtaskDefinition.stakes) :=
      rank_le_highestRank (mem_map_of_mem he)
    refine ⟨w, hwmem, hweakened, ?_⟩
    rw [Stakes.le_iff_rank, Stakes.le_iff_rank]
    omega
  · intro h
    obtain ⟨v, hv, hk, ha⟩ := h d hd
    have hvbel : v.stakes.rank ≤ highestRank ((workOf pieces).map SubtaskDefinition.stakes) :=
      rank_le_highestRank (mem_map_of_mem (mem_workOf.2 ⟨hv, hk⟩))
    rw [Stakes.le_iff_rank, Stakes.le_iff_rank] at ha
    omega

-- ==== dispatched tasks

section Dispatched

variable {plan : Plan} {objective : Task} {now : Int} {k : Container} {t : Task}

theorem prefix_withPlanContext (description : String) (assumptions openQuestions : List String) :
    description.toList <+: (withPlanContext description assumptions openQuestions).toList := by
  unfold withPlanContext
  split
  next => exact prefix_refl _
  next =>
    rw [String.append_assoc, String.toList_append]
    exact prefix_append _ _

variable {tree : PlanTree} {item : PlanItem} {parentId : Option String}

theorem TaskOf.paths (h : TaskOf plan objective tree now item t) :
    expectedPaths t = artifactsOf tree item := by
  obtain ⟨parentTaskId, hid, hf⟩ := h
  unfold expectedPaths
  rw [hf]
  show List.map _ (List.map _ _) = _
  rw [map_map]
  exact map_id _

theorem TaskOf.description (h : TaskOf plan objective tree now item t) :
    t.description = withPlanContext (bodyOf tree item) plan.assumptions plan.openQuestions := by
  obtain ⟨parentTaskId, hid, hf⟩ := h
  rw [hf]
  rfl

theorem dispatched_leaf (hp : PlacedAt plan k) (ht : TaskOf plan objective (workTree plan) now
      (placedItem (decisionIds plan.items) parentId k.own.definition) t)
    (hnone : workOf k.pieces = []) : expectedPaths t = k.own.definition.expectedArtifacts ∧
      t.stakes = k.own.definition.stakes ∧
      k.own.definition.description.toList <+: t.description.toList := by
  have hassembly : assemblyOf (workTree plan)
      (placedItem (decisionIds plan.items) parentId k.own.definition) = none := by
    apply if_pos
    show (workTree plan).children k.own.definition.id = []
    rw [hp.children, hnone, map_nil]
  refine ⟨?_, ?_, ?_⟩
  · rw [ht.paths]
    unfold artifactsOf
    rw [hassembly]
    rfl
  · rw [ht.stakes]
    unfold stakesOf
    rw [hassembly]
    rfl
  · rw [ht.description]
    unfold bodyOf
    rw [hassembly]
    exact prefix_withPlanContext _ _ _

theorem dispatched_container (hp : PlacedAt plan k)
    (ht : TaskOf plan objective (workTree plan) now
      (placedItem (decisionIds plan.items) parentId k.own.definition) t)
    (hwork : workOf k.pieces ≠ []) : expectedPaths t = k.own.definition.expectedArtifacts ++
        (subtreeAssemblyPaths (k.path.map Site.workStep)).declared ∧
      t.stakes = escalatedStakes ((workOf k.pieces).map SubtaskDefinition.stakes) ∧
      briefHead (subtreeAssemblyPaths (k.path.map Site.workStep)) <+:
        t.description.toList := by
  let item := placedItem (decisionIds plan.items) parentId k.own.definition
  have hc : (workTree plan).children item.id = (workOf k.pieces).map
      (placedItem (decisionIds plan.items) (some k.own.definition.id)) := hp.children
  have haddr : (workTree plan).address item.id = k.path.map Site.workStep := hp.address
  have hassembly : assemblyOf (workTree plan) item = some (buildAssembly item.title
      (((workTree plan).children item.id).map PlanItem.title) item.acceptanceCriteria
      ((workOf k.pieces).map SubtaskDefinition.stakes) (k.path.map Site.workStep)) := by
    unfold assemblyOf
    rw [if_neg, haddr]
    · have hs : ((workTree plan).children item.id).map PlanItem.stakes =
          (workOf k.pieces).map SubtaskDefinition.stakes := by
        rw [hc, map_map]
        rfl
      rw [hs]
    · rw [hc, map_eq_nil_iff]
      exact hwork
  refine ⟨?_, ?_, ?_⟩
  · rw [ht.paths]
    unfold artifactsOf
    rw [hassembly]
    rfl
  · rw [ht.stakes]
    unfold stakesOf
    rw [hassembly]
    rfl
  · rw [ht.description]
    unfold bodyOf
    rw [hassembly]
    exact (briefHead_isPrefix _ _ _ _).trans (prefix_withPlanContext _ _ _)

theorem namesItsPaths_iff {address : List SubtreeStep} {t : Task}
    (h : briefHead (subtreeAssemblyPaths address) <+: t.description.toList) :
    NamesItsPaths t ↔ ∀ p ∈ expectedPaths t, isAssemblyPath p = true →
      p ∈ (subtreeAssemblyPaths address).declared := by
  refine forall_congr' fun p => forall_congr' fun _ => forall_congr' fun _ => ?_
  exact names_iff h

/-- ONE CONTAINER: its two tasks agree exactly when the decisions stand
aside. -/
theorem taskAgrees_iff (hassembled : Assembled k.address k.pieces k.own.definition k.own.task)
    (hplaced : PlacedAt plan k) (ht : TaskOf plan objective (workTree plan) now
      (placedItem (decisionIds plan.items) parentId k.own.definition) t) :
    TasksAgree k.own.task t ↔ k.DecisionsAside := by
  have hid : t.id = k.own.task.id := by
    apply Uuid.ext
    rw [ht.id, hassembled.built.id]
    rfl
  have hb : expectedPaths k.own.task = k.own.definition.expectedArtifacts := by
    unfold expectedPaths
    rw [hassembled.built.artifacts, map_map]
    exact map_id _
  have hopens : briefHead (subtreeAssemblyPaths k.address) <+:
      k.own.definition.description.toList := by
    obtain ⟨criteria, hbrief⟩ := hassembled.brief
    rw [hbrief]
    exact briefHead_isPrefix _ _ _ _
  have hown : NamesItsPaths k.own.task ↔
      ∀ p ∈ k.own.definition.expectedArtifacts, isAssemblyPath p = true →
        p ∈ (subtreeAssemblyPaths k.address).declared := by
    rw [namesItsPaths_iff (hassembled.task_brief ▸ hopens), hb]
  have hrep : (subtreeAssemblyPaths k.address).report ∈ k.own.definition.expectedArtifacts := by
    obtain ⟨own, hpaths⟩ := hassembled.paths
    rw [hpaths]
    exact mem_append_right _ mem_cons_self
  by_cases hwork : ∃ s ∈ k.pieces, s.kind = .work
  · obtain ⟨hpaths, hs, hbrief⟩ := dispatched_container hplaced ht (workOf_ne_nil_iff.2 hwork)
    constructor
    · intro h
      -- its own report is expected where the brief names another directory's
      have hsame : k.address = k.path.map Site.workStep := by
        apply numberings_eq_of_slugPath
        apply slugPath_of_report_mem
        apply (namesItsPaths_iff hbrief).1 h.dispatched_named
        · rw [hpaths]
          exact mem_append_left _ hrep
        · exact isAssemblyPath_declared mem_cons_self
      refine ⟨fun _ => (numberings_eq_iff k.path).1 hsame, fun _ => ?_, hown.1 h.built_named⟩
      rw [← escalated_work_iff hwork, ← hassembled.stakes, ← hs, h.stakes]
      exact hassembled.built.stakes
    · intro h
      have hsame : k.address = k.path.map Site.workStep :=
        (numberings_eq_iff k.path).2 (h.numbered hwork)
      have hset : ∀ p, p ∈ expectedPaths t ↔ p ∈ expectedPaths k.own.task := by
        intro p
        obtain ⟨own, ho⟩ := hassembled.paths
        rw [hpaths, hb, ← hsame, ho]
        simp only [mem_append, or_assoc, or_self]
      refine ⟨hid, hset, ?_, hown.2 h.own_paths, ?_⟩
      · rw [hs, hassembled.built.stakes, hassembled.stakes]
        exact (escalated_work_iff hwork).2 (h.outranked hwork)
      · rw [namesItsPaths_iff hbrief]
        intro p hp hassembly
        rw [← hsame]
        exact h.own_paths p (hb ▸ (hset p).1 hp) hassembly
  · have hnone : workOf k.pieces = [] := by
      by_contra hne
      exact hwork (workOf_ne_nil_iff.1 hne)
    obtain ⟨hpaths, hs, hd⟩ := dispatched_leaf hplaced ht hnone
    constructor
    · intro h
      exact ⟨fun hsome => absurd hsome hwork, fun hsome => absurd hsome hwork, hown.1 h.built_named⟩
    · intro h
      refine ⟨hid, fun p => by rw [hpaths, hb], ?_, hown.2 h.own_paths, ?_⟩
      · rw [hs, hassembled.built.stakes]
      · rw [namesItsPaths_iff (hopens.trans hd), hpaths]
        exact h.own_paths

end Dispatched

-- ==== the containers agree

theorem Produced.agree_iff {now : Int} {task : Task} {r dispatched : DecompositionResult}
    {id : Uuid} {provenance : PlanProvenance} {plan : Plan} {objective : Task} {later : Int}
    (hproduced : Produced now task [] r) (hplan : planFromDecomposition id r provenance = .ok plan)
    (hd : decompositionFromPlan plan objective later = .ok dispatched) :
    ContainersAgree r dispatched ↔ ∀ k ∈ containers r [], k.DecisionsAside := by
  have hv := (planFromDecomposition_ok hplan).1
  have htree := workTree_forest hv
  obtain ⟨hr, hc⟩ := rebuilt_of_ok hv hd
  refine forall_congr' fun k => forall_congr' fun hk => ?_
  have htop : ([] : List SubtreeStep) = ([] : List Site).map Site.step := rfl
  have hassembled := hproduced.assembled htop hk
  have hp := placed_containers hproduced hplan hk
  obtain ⟨parentId, hitem⟩ := hp.item
  constructor
  · intro hsome
    obtain ⟨t, ht, ha⟩ := hsome
    obtain ⟨l, hl, htl⟩ := DecompositionResult.mem_allTasks.1 ht
    obtain ⟨level, hlevels⟩ := hr.levels htree l hl
    obtain ⟨i, hi, hti⟩ := exists_of_forall₂_right (hlevels.taskOf htree) htl
    obtain ⟨parent, depth, fuel, parentTaskId, hsite, -⟩ := hlevels
    -- ids are distinct in the work tree, so the task's item is the container's
    have hsame : i = placedItem (decisionIds plan.items) parentId k.own.definition := by
      apply Keyed.eq_of_key htree.forest.distinct (hsite.mem hi).1 hitem
      rw [← hti.id, ha.id, hassembled.built.id]
      rfl
    exact (taskAgrees_iff hassembled hp (hsame ▸ hti)).1 ha
  · intro h
    obtain ⟨l, hl, level, hmem, hlevels⟩ := hc _ hitem
    obtain ⟨t, ht, hti⟩ := exists_of_forall₂_right (hlevels.taskOf htree).flip hmem
    exact ⟨t, DecompositionResult.mem_allTasks.2 ⟨l, hl, ht⟩,
      (taskAgrees_iff hassembled hp hti).2 h⟩

/-- CONTAINERS: what the service made of a task and what is dispatched of its plan agree on
every container exactly when the decisions stand aside of each. -/
theorem containers_agree_iff {σ : Type} (service : DecompositionService σ) (now : Int)
    (task : Task) (context : DecompositionContext) (world : σ) (session : Session σ)
    (r dispatched : DecompositionResult) (id : Uuid) (provenance : PlanProvenance)
    (plan : Plan) (objective : Task) (later : Int)
    (hstrategy : service.strategy.PlansItsTask) (hroot : context.address = [])
    (hran : service.decomposeTask now task context world = (.ok r, session))
    (hplan : planFromDecomposition id r provenance = .ok plan)
    (hdispatched : decompositionFromPlan plan objective later = .ok dispatched) :
    ContainersAgree r dispatched ↔ ∀ k ∈ containers r [], k.DecisionsAside := by
  have hproduced := produced_of_ok hstrategy hran
  rw [hroot] at hproduced
  exact hproduced.agree_iff hplan hdispatched

-- ==== a site in two levels

def levelOf (parentTaskId : String) (subtasks : List SubtaskDefinition) : DecompositionPlan where
  parentTaskId := parentTaskId
  subtasks := subtasks
  taskStructure := .sequential

theorem levelOf_valid (h : (levelOf objectiveId.text subtasks).Valid) (task : Task) :
    (levelOf task.id.text subtasks).Valid := by
  refine { h with fields := ?_ }
  intro c hc
  have hc' : c = (["parent_task_id"], FieldValue.text task.id.text) := by
    simpa [DecompositionPlan.checkedFields, levelOf, indexed] using hc
  rw [hc']
  exact notBlank_of_canonical task.id.canonical

def buildUnit : SubtaskDefinition where
  id := buildId.text
  title := "Piece"
  description := "A piece of the site."
  expectedArtifacts := ["site"]
  acceptanceCriteria := ["it works"]
  satisfies := ["it runs", "it scales"]

/-- What it is split into. -/
def partUnit : SubtaskDefinition where
  id := partId.text
  title := "Piece"
  description := "A piece of the site."
  expectedArtifacts := ["site"]
  acceptanceCriteria := ["it works"]

def choiceUnit : SubtaskDefinition where
  id := choiceId.text
  title := "Choice"
  description := "Which stack to use."
  acceptanceCriteria := ["it is made"]
  kind := .decision
  options :=
    [{ id := "a", title := "First", summary := "the first", recommended := true },
      { id := "b", title := "Second", summary := "the second" }]

def topUnits : Bool → List SubtaskDefinition
  | true => [choiceUnit, buildUnit]
  | false => [buildUnit, choiceUnit]

theorem topUnits_valid (choiceFirst : Bool) :
    (levelOf objectiveId.text (topUnits choiceFirst)).Valid := by
  rw [← DecompositionPlan.check_ok_iff]
  cases choiceFirst <;> decide

theorem partUnit_valid : (levelOf objectiveId.text [partUnit]).Valid := by
  rw [← DecompositionPlan.check_ok_iff]
  decide

theorem levelOf_partUnit_valid (task : Task) : (levelOf task.id.text [partUnit]).Valid :=
  levelOf_valid partUnit_valid task

def sitePlanner (choiceFirst : Bool) : DecompositionStrategy Unit where
  decompose := fun task context world =>
    if context.currentDepth = 0 then
      (.ok ⟨_, levelOf_valid (topUnits_valid choiceFirst) task⟩, world)
    else (.ok ⟨_, levelOf_partUnit_valid task⟩, world)
  plansAnyTask := true

theorem sitePlanner_plansItsTask (choiceFirst : Bool) : (sitePlanner choiceFirst).PlansItsTask := by
  intro task context world plan world' h
  unfold sitePlanner at h
  dsimp only at h
  split at h <;> (cases h; rfl)

def siteService (choiceFirst : Bool) : DecompositionService Unit where
  strategy := sitePlanner choiceFirst
  classify := fun _ => .sequential
  assessSubtask := SubtaskDefinition.stakes
  configResolver := some { getBool := fun _ => .ok true, getInt := fun _ => .ok 8 }
  lower := fun cs => cs

def siteRun (choiceFirst : Bool) : Except PlanningError DecompositionResult × Session Unit :=
  (siteService choiceFirst).decomposeTask 0 objectiveTask {} ()

def siteAssembly (choiceFirst : Bool) : Assembly :=
  buildAssembly "Piece" ["Piece"] ["it works"] [.normal]
    [{ title := "Piece", position := if choiceFirst then 1 else 0 }]

def siteContainer (choiceFirst : Bool) : SubtaskDefinition :=
  DraftedUnit.assembled buildUnit (some (siteAssembly choiceFirst))

def siteItems (choiceFirst : Bool) : List PlanItem :=
  let container := itemFields none (siteContainer choiceFirst)
  let choice := itemFields none choiceUnit
  (if choiceFirst then [choice, container] else [container, choice]) ++
    [itemFields (some buildId.text) partUnit]

def siteBefore : Bool → List SubtaskDefinition
  | true => [choiceUnit]
  | false => []

structure SiteRan (choiceFirst : Bool) (r : DecompositionResult) : Prop where
  plan : r.plan = { levelOf objectiveId.text (topUnits choiceFirst) with
    subtasks := r.plan.subtasks }
  items : walkItems r = siteItems choiceFirst
  containers : ∃ task, containers r [] =
    [{ above := []
       own :=
        { before := siteBefore choiceFirst
          definition := siteContainer choiceFirst
          task := task }
       pieces := [partUnit] }]

theorem siteRan (choiceFirst : Bool) :
    ∃ r session, siteRun choiceFirst = (.ok r, session) ∧ SiteRan choiceFirst r := by
  cases choiceFirst with
  | true | false => exact ⟨_, _, rfl, rfl, rfl, _, rfl⟩

def siteDraft (choiceFirst : Bool) : Plan where
  id := planId
  project := "atlas"
  projectName := "Atlas"
  objectiveId := "charter"
  objectiveTitle := "Ship the site"
  parentTaskId := objectiveId.text
  items := siteItems choiceFirst
  status := .pendingReview
  taskStructure := .sequential
  createdAt := 0
  updatedAt := 0

theorem siteContainer_valid (choiceFirst : Bool) :
    (itemFields none (siteContainer choiceFirst)).Valid := by
  have hunit : (itemFields none buildUnit).Valid := by
    rw [← PlanItem.check_ok_iff]
    decide
  have hf := (PlanItem.checkedFields_ok_iff _).1 hunit.fields
  refine { hunit with
    fields := (PlanItem.checkedFields_ok_iff _).2 { hf with
      description := (siteAssembly choiceFirst).brief_given
      artifacts := ?_ }
    artifacts_shaped := rfl }
  intro a ha
  rcases mem_cons.1 ha with rfl | ha
  · decide
  · exact (siteAssembly choiceFirst).paths_given a ha

theorem siteDraft_valid (choiceFirst : Bool) : (siteDraft choiceFirst).Valid where
  items_valid := by
    have hc : (itemFields none choiceUnit).Valid := by
      rw [← PlanItem.check_ok_iff]
      decide
    have hpart : (itemFields (some buildId.text) partUnit).Valid := by
      rw [← PlanItem.check_ok_iff]
      decide
    have hcon := siteContainer_valid choiceFirst
    cases choiceFirst with
    | true =>
      exact forall_mem_cons.2 ⟨hc, forall_mem_cons.2 ⟨hcon, forall_mem_singleton.2 hpart⟩⟩
    | false =>
      exact forall_mem_cons.2 ⟨hcon, forall_mem_cons.2 ⟨hc, forall_mem_singleton.2 hpart⟩⟩
  history_valid := fun i hi => by cases hi
  fields := by cases choiceFirst <;> decide
  filled := by cases choiceFirst <;> decide
  graph := by
    have hg : checkGraph (siteDraft choiceFirst) = .ok () := by
      cases choiceFirst <;> decide
    exact ((checkGraph_ok_iff _).1 hg).2
  failure_reason := by cases choiceFirst <;> decide

theorem site_dispatched {choiceFirst : Bool} {r : DecompositionResult}
    (h : SiteRan choiceFirst r) : ∃ id provenance plan dispatched,
      planFromDecomposition id r provenance = .ok plan ∧
        decompositionFromPlan plan objectiveTask 0 = .ok dispatched := by
  have hv := siteDraft_valid choiceFirst
  obtain ⟨dispatched, hd⟩ := (exists_decompositionFromPlan_iff objectiveTask 0
    hv (by cases choiceFirst <;> decide)
    ⟨itemFields none (siteContainer choiceFirst),
      by cases choiceFirst <;> simp [siteDraft, siteItems],
      rfl, rfl⟩).2 (by cases choiceFirst <;> decide)
  refine ⟨(siteDraft choiceFirst).id,
    { project := "atlas"
      projectName := "Atlas"
      objectiveId := "charter"
      objectiveTitle := "Ship the site"
      parentTaskId := objectiveId.text
      createdAt := 0 }, siteDraft choiceFirst, dispatched, ?_, hd⟩
  rw [planFromDecomposition_ok_iff]
  refine ⟨?_, hv, ?_⟩
  · rw [h.plan]
    exact fun hauto => by cases hauto
  · unfold planFields
    rw [h.items, h.plan]
    rfl

/-- `containers_agree_iff` at work where the choice is listed last. -/
theorem containers_agree_choice_last : ∃ r session id provenance plan dispatched,
    (siteService false).decomposeTask 0 objectiveTask {} () = (.ok r, session) ∧
      planFromDecomposition id r provenance = .ok plan ∧
      decompositionFromPlan plan objectiveTask 0 = .ok dispatched ∧
      ContainersAgree r dispatched := by
  obtain ⟨r, session, hran, hsite⟩ := siteRan false
  obtain ⟨id, provenance, plan, dispatched, hplan, hdispatched⟩ := site_dispatched hsite
  refine ⟨r, session, id, provenance, plan, dispatched, hran, hplan, hdispatched, ?_⟩
  refine (containers_agree_iff (siteService false) 0 objectiveTask {} () session r dispatched
    id provenance plan objectiveTask 0 (sitePlanner_plansItsTask false) rfl hran hplan
    hdispatched).2 ?_
  obtain ⟨task, hcontainers⟩ := hsite.containers
  rw [hcontainers, forall_mem_singleton]
  refine ⟨?_, ?_, ?_⟩
  · intro _ site hsite s hs
    rw [mem_singleton.1 hsite] at hs
    cases hs
  · intro _ d hd
    exact ⟨d, hd, by rw [mem_singleton.1 hd]; rfl, Or.inl (le_refl _)⟩
  · intro p hp hassembly
    rcases mem_cons.1 hp with rfl | hp
    · exact absurd hassembly (by decide)
    · exact hp

/-- Its evidence is kept in one place and it is told of another. -/
theorem choice_first_containers_disagree :
    ¬ ∀ (σ : Type) (service : DecompositionService σ) (now : Int) (task : Task)
      (context : DecompositionContext) (world : σ) (session : Session σ)
      (r dispatched : DecompositionResult) (id : Uuid) (provenance : PlanProvenance)
      (plan : Plan) (objective : Task) (later : Int),
      service.strategy.PlansItsTask → context.address = [] →
      service.decomposeTask now task context world = (.ok r, session) →
      planFromDecomposition id r provenance = .ok plan →
      decompositionFromPlan plan objective later = .ok dispatched →
      ContainersAgree r dispatched := by
  intro h
  obtain ⟨r, session, hran, hsite⟩ := siteRan true
  obtain ⟨id, provenance, plan, dispatched, hplan, hdispatched⟩ := site_dispatched hsite
  have hstrategy := sitePlanner_plansItsTask true
  have hagree := h Unit (siteService true) 0 objectiveTask {} () session r dispatched id
    provenance plan objectiveTask 0 hstrategy rfl hran hplan hdispatched
  have hproduced := produced_of_ok hstrategy hran
  obtain ⟨task, hcontainers⟩ := hsite.containers
  have haside := (hproduced.agree_iff hplan hdispatched).1 hagree _ (hcontainers ▸ mem_cons_self)
  have hwork := haside.numbered ⟨partUnit, mem_cons_self, rfl⟩ _ mem_cons_self
    choiceUnit mem_cons_self
  cases hwork

end Synthorg.Decomposition
