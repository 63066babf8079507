/-
Which failures of a test run its pending declarations excuse
(engine/workspace/environment/pending.py).

A case is indexed under every spelling a manifest may use, and a spelling met
twice names none. A second walk counts the failures no declaration excuses.
-/
import Synthorg.Core.Validation
import Mathlib.Data.List.Infix

namespace Synthorg.Workspace

open Synthorg.Core
open Function (update update_self update_of_ne)
open List

-- ==== a report

inductive Element
  | node (tag : String) (attributes : List (String × Text)) (children : List Element)

def Element.tag : Element → String
  | node tag _ _ => tag

/-- `get(key, "")`. -/
def Element.get (key : String) : Element → Text
  | node _ attributes _ => (attributes.lookup key).getD []

def Element.find (tag : String) : Element → Option Element
  | node _ _ children => children.find? (·.tag = tag)

mutual

def Element.iter (tag : String) : Element → List Element
  | .node name attributes children =>
    (if name = tag then [.node name attributes children] else []) ++ iterAll tag children

def Element.iterAll (tag : String) : List Element → List Element
  | [] => []
  | child :: rest => child.iter tag ++ iterAll tag rest

end

inductive Tag
  | error
  | failure
  | skipped
  deriving DecidableEq

def Tag.name : Tag → String
  | .error => "error"
  | .failure => "failure"
  | .skipped => "skipped"

structure CaseOutcome where
  tag : Option Tag
  message : Text
  raised : Text := []

def outcomeOf (case : Element) : CaseOutcome :=
  ([Tag.error, .failure, .skipped].findSome? fun tag =>
    (case.find tag.name).map fun element =>
      { tag := some tag, message := element.get "message", raised := element.get "type" }).getD
    { tag := none, message := [] }

/-- `tag in \x7b"failure", "error"\x7d`. -/
def CaseOutcome.fails (outcome : CaseOutcome) : Bool :=
  outcome.tag = some .failure || outcome.tag = some .error

def removePrefix (front text : Text) : Text :=
  if front <+: text then text.drop front.length else text

def removeSuffix (suffix text : Text) : Text :=
  if suffix <:+ text then text.take (text.length - suffix.length) else text

def strip (p : Char → Bool) (text : Text) : Text :=
  ((text.dropWhile p).reverse.dropWhile p).reverse

def nodeId (case : Element) (classname name : Text) : List Text :=
  let file := case.get "file"
  if file = [] then []
  else
    let dotted := (removeSuffix ".py".toList file).map fun c =>
      if c = '\\' ∨ c = '/' then '.' else c
    let segments := strip (· = '.') (removePrefix dotted classname)
    if segments = [] then [file ++ "::".toList ++ name]
    else [file ++ "::".toList ++ segments ++ "::".toList ++ name]

def spellings (case : Element) : List Text :=
  let name := case.get "name"
  let classname := case.get "classname"
  if name = [] then []
  else if classname = [] then name :: nodeId case classname name
  else
    name :: (classname ++ "::".toList ++ name) :: (classname ++ '.' :: name) ::
      nodeId case classname name

-- ==== the index

structure CaseIndex where
  bySpelling : Text → Option CaseOutcome
  ambiguous : List Text

/-- One round of the inner loop. -/
def CaseIndex.enter (index : CaseIndex) (outcome : CaseOutcome) (spelling : Text) : CaseIndex :=
  if (index.bySpelling spelling).isSome then
    { index with ambiguous := spelling :: index.ambiguous }
  else { index with bySpelling := update index.bySpelling spelling (some outcome) }

def indexLoop (cases : List Element) : CaseIndex :=
  cases.foldl (fun index case =>
    (spellings case).foldl (fun index spelling => index.enter (outcomeOf case) spelling) index)
    { bySpelling := fun _ => none, ambiguous := [] }

def caseIndex (root : Element) : CaseIndex :=
  let index := indexLoop (root.iter "testcase")
  { index with
    bySpelling := fun spelling =>
      if spelling ∈ index.ambiguous then none else index.bySpelling spelling }

def countOtherFailures (root : Element) (pendingIds ambiguous : List Text) : Nat :=
  (root.iter "testcase").countP fun case =>
    spellings case ≠ [] ∧ (∀ id ∈ pendingIds, id ∈ spellings case → id ∈ ambiguous) ∧
      (outcomeOf case).fails

-- ==== the verdicts

/-- `lower` is `str.lower`. -/
def raisedType (lower : Text → Text) (outcome : CaseOutcome) : Option Text :=
  let className := fun text : Text =>
    lower (strip isSpace (text.reverse.takeWhile (· ≠ '.')).reverse)
  let candidate := strip isSpace (outcome.message.takeWhile (· ≠ ':'))
  if outcome.raised ≠ [] then some (className outcome.raised)
  else if ':' ∈ outcome.message ∧ candidate.head?.any (fun c => c.isAlpha || c = '_') ∧
      candidate.all (fun c => c.isAlphanum || c = '_' || c = '.') then
    some (className candidate)
  else none

def asserted (lower : Text → Text) (outcome : CaseOutcome) : Bool :=
  match raisedType lower outcome with
  | some raised => "assertionerror".toList <:+ raised
  | none => ["assert", "expect("].any fun marker => marker.toList <:+: lower outcome.message

structure PendingTest where
  criterion : Text
  testId : Text

inductive PendingVerdict
  | green
  | red
  deriving DecidableEq

structure CriterionOutcome extends PendingTest where
  verdict : PendingVerdict
  reason : String

structure PendingReport where
  outcomes : List CriterionOutcome := []
  reportRead : Bool := true
  otherFailures : Nat := 0

def PendingReport.green (report : PendingReport) : Bool :=
  report.reportRead && report.otherFailures = 0 && report.outcomes.all (·.verdict = .green)

def verdictFor (lower : Text → Text) : Option CaseOutcome → PendingVerdict × String
  | none => (.red, "the report names no such test, so nothing was measured")
  | some outcome =>
    match outcome.tag with
    | some .failure =>
      if asserted lower outcome then
        (.green, "failed its declared assertion, which is the contract being unimplemented")
      else (.red, "raised rather than asserting, so the skeleton is wrong not absent")
    | some .error => (.red, "raised before it could assert, so the skeleton is wrong not absent")
    | some .skipped => (.red, "was skipped, so nothing was measured")
    | none => (.red, "passed while still pending; clear its manifest entry in the same commit")

def classifyOne (lower : Text → Text) (index : CaseIndex) (entry : PendingTest) :
    CriterionOutcome :=
  if entry.testId ∈ index.ambiguous then
    { entry with
      verdict := .red
      reason := "the report holds more than one test under this name, so which one the " ++
        "criterion means cannot be established; name it by its full node id" }
  else
    let (verdict, reason) := verdictFor lower (index.bySpelling entry.testId)
    { entry with verdict, reason }

/-- `root` is what `read_report` made of the run's report. -/
def classifyPending (lower : Text → Text) (pending : List PendingTest) (root : Option Element) :
    PendingReport :=
  match pending, root with
  | [], _ => {}
  | pending, none =>
    { outcomes := pending.map fun entry =>
        { entry with verdict := .red, reason := "no readable report, so nothing was measured" }
      reportRead := false }
  | pending, some root =>
    let index := caseIndex root
    { outcomes := pending.map (classifyOne lower index)
      otherFailures := countOtherFailures root (pending.map PendingTest.testId) index.ambiguous }

-- ==== what the index holds

variable {lower : Text → Text} {index : CaseIndex} {cases : List Element}

/-- What the loop enters, in its order. -/
def entries (cases : List Element) : List (Text × CaseOutcome) :=
  cases.flatMap fun case => (spellings case).map fun spelling => (spelling, outcomeOf case)

/-- THE INVARIANT of the loop. -/
structure Indexed (entries : List (Text × CaseOutcome)) (index : CaseIndex) : Prop where
  found : ∀ id outcome, index.bySpelling id = some outcome → (id, outcome) ∈ entries
  isSome_iff : ∀ id, (index.bySpelling id).isSome ↔ id ∈ entries.map Prod.fst
  ambiguous_iff : ∀ id, id ∈ index.ambiguous ↔ 1 < (entries.map Prod.fst).count id

theorem Indexed.enter {entries : List (Text × CaseOutcome)} (h : Indexed entries index)
    (outcome : CaseOutcome) (spelling : Text) :
    Indexed (entries ++ [(spelling, outcome)]) (index.enter outcome spelling) := by
  have hkeys : ∀ id, id ∈ (entries ++ [(spelling, outcome)]).map Prod.fst ↔
      id ∈ entries.map Prod.fst ∨ id = spelling := fun id => by simp
  have hcount : ∀ id, ((entries ++ [(spelling, outcome)]).map Prod.fst).count id =
      (entries.map Prod.fst).count id + if id = spelling then 1 else 0 := fun id => by
    simp [count_singleton, @eq_comm _ spelling id]
  have hhead := (h.isSome_iff spelling).trans one_le_count_iff.symm
  rw [CaseIndex.enter]
  split
  next hsome =>
    refine ⟨fun id o ho => mem_append_left _ (h.found id o ho), fun id => ?_, fun id => ?_⟩
    · rw [hkeys, h.isSome_iff id]
      exact (or_iff_left_of_imp fun heq => heq ▸ (h.isSome_iff spelling).1 hsome).symm
    · rw [hcount, mem_cons, h.ambiguous_iff id]
      split
      next heq =>
        subst heq
        have := hhead.1 hsome
        exact iff_of_true (.inl rfl) (by omega)
      next hne => simp [hne]
  next hnone =>
    have hzero := hhead.not.1 hnone
    refine ⟨fun id o ho => ?_, fun id => ?_, fun id => ?_⟩
    · by_cases heq : id = spelling
      · subst heq
        dsimp only at ho
        rw [update_self] at ho
        exact mem_append_right _ (Option.some.inj ho ▸ mem_singleton_self _)
      · dsimp only at ho
        rw [update_of_ne heq] at ho
        exact mem_append_left _ (h.found id o ho)
    · rw [hkeys]
      by_cases heq : id = spelling
      · simp [heq]
      · simpa [heq] using h.isSome_iff id
    · rw [hcount, h.ambiguous_iff id]
      split
      next heq =>
        subst heq
        omega
      next => rfl

theorem indexed_indexLoop (cases : List Element) : Indexed (entries cases) (indexLoop cases) := by
  have hrun : ∀ entries : List (Text × CaseOutcome), Indexed entries
      (entries.foldl (fun index entry => index.enter entry.2 entry.1)
        { bySpelling := fun _ => none, ambiguous := [] }) := by
    intro entries
    induction entries using reverseRec with
    | nil => exact ⟨fun _ _ h => (nomatch h), by simp, by simp⟩
    | append_singleton rest entry ih =>
      rw [foldl_append]
      exact ih.enter entry.2 entry.1
  simpa only [entries, indexLoop, foldl_flatMap, foldl_map] using hrun (entries cases)

def OnlyCase (cases : List Element) (id : Text) (case : Element) : Prop :=
  ∃ before after, cases = before ++ case :: after ∧ id ∈ spellings case ∧
    ∀ other ∈ before ++ after, id ∉ spellings other

variable {root : Element} {id : Text}

theorem map_fst_entries (cases : List Element) :
    (entries cases).map Prod.fst = cases.flatMap spellings := by
  simp [entries, map_flatMap, Function.comp_def]

theorem mem_entries {outcome : CaseOutcome} (h : (id, outcome) ∈ entries cases) :
    ∃ case ∈ cases, id ∈ spellings case ∧ outcomeOf case = outcome := by
  obtain ⟨case, hcase, hin⟩ := mem_flatMap.1 h
  obtain ⟨spelling, hs, heq⟩ := mem_map.1 hin
  obtain ⟨rfl, rfl⟩ := Prod.mk.inj heq
  exact ⟨case, hcase, hs, rfl⟩

theorem alone_of_unambiguous {before after : List Element} {case : Element}
    (ha : id ∉ (indexLoop (before ++ case :: after)).ambiguous) (hs : id ∈ spellings case) :
    ∀ other ∈ before ++ after, id ∉ spellings other := by
  intro other hother hin
  refine ha ?_
  rw [(indexed_indexLoop _).ambiguous_iff, map_fst_entries]
  have hone := one_le_count_iff.2 hs
  have hmore : 1 ≤ ((before ++ after).flatMap spellings).count id :=
    one_le_count_iff.2 (mem_flatMap.2 ⟨other, hother, hin⟩)
  rw [flatMap_append, count_append] at hmore ⊢
  rw [flatMap_cons, count_append]
  omega

theorem onlyCase_of_resolves {outcome : CaseOutcome} (ha : id ∉ (indexLoop cases).ambiguous)
    (hres : (indexLoop cases).bySpelling id = some outcome) :
    ∃ case, OnlyCase cases id case ∧ outcomeOf case = outcome := by
  obtain ⟨case, hcase, hs, hout⟩ := mem_entries ((indexed_indexLoop cases).found _ _ hres)
  obtain ⟨before, after, rfl⟩ := append_of_mem hcase
  exact ⟨case, ⟨before, after, rfl, hs, alone_of_unambiguous ha hs⟩, hout⟩

theorem OnlyCase.resolves {case : Element} (h : OnlyCase cases id case)
    (hd : (spellings case).Nodup) :
    id ∉ (indexLoop cases).ambiguous ∧ (indexLoop cases).bySpelling id = some (outcomeOf case) := by
  obtain ⟨before, after, rfl, hs, honly⟩ := h
  have hi := indexed_indexLoop (before ++ case :: after)
  constructor
  · have hzero : ((before ++ after).flatMap spellings).count id = 0 :=
      count_eq_zero.2 fun hin => by
        obtain ⟨other, hother, hin⟩ := mem_flatMap.1 hin
        exact honly other hother hin
    have hone := nodup_iff_count_le_one.1 hd id
    rw [hi.ambiguous_iff, map_fst_entries, flatMap_append, flatMap_cons, count_append,
      count_append]
    rw [flatMap_append, count_append] at hzero
    omega
  · have hsome := (hi.isSome_iff id).2 (by
      rw [map_fst_entries]
      exact mem_flatMap.2 ⟨case, by simp, hs⟩)
    obtain ⟨outcome, hout⟩ := Option.isSome_iff_exists.1 hsome
    obtain ⟨other, hother, hin, rfl⟩ := mem_entries (hi.found _ _ hout)
    rcases (by simpa using hother : other ∈ before ∨ other = case ∨ other ∈ after) with
      hb | rfl | ha
    · exact absurd hin (honly other (mem_append_left _ hb))
    · exact hout
    · exact absurd hin (honly other (mem_append_right _ ha))

-- ==== the classification

def AssertionFailure (lower : Text → Text) (case : Element) : Prop :=
  (outcomeOf case).tag = some .failure ∧ asserted lower (outcomeOf case) = true

theorem verdictFor_green_iff {found : Option CaseOutcome} : (verdictFor lower found).1 = .green ↔
      ∃ outcome, found = some outcome ∧ outcome.tag = some .failure ∧
        asserted lower outcome = true := by
  constructor
  · intro h
    unfold verdictFor at h
    split at h
    next => cases h
    next outcome =>
      split at h
      next htag =>
        split at h
        next ha => exact ⟨outcome, rfl, htag, ha⟩
        next => cases h
      next => cases h
      next => cases h
      next => cases h
  · rintro ⟨outcome, rfl, htag, ha⟩
    simp [verdictFor, htag, ha]

theorem classifyOne_green_iff (root : Element) (entry : PendingTest) :
    (classifyOne lower (caseIndex root) entry).verdict = .green ↔
      entry.testId ∉ (indexLoop (root.iter "testcase")).ambiguous ∧
        ∃ outcome, (indexLoop (root.iter "testcase")).bySpelling entry.testId = some outcome ∧
          outcome.tag = some .failure ∧ asserted lower outcome = true := by
  rw [← verdictFor_green_iff]
  unfold classifyOne caseIndex
  dsimp only
  split
  next ha => simp [ha]
  next ha => simp [ha]

theorem countOtherFailures_eq_zero_iff {pendingIds ambiguous : List Text} :
    countOtherFailures root pendingIds ambiguous = 0 ↔
      ∀ case ∈ root.iter "testcase", spellings case ≠ [] → (outcomeOf case).fails = true →
        ∃ id ∈ pendingIds, id ∈ spellings case ∧ id ∉ ambiguous := by
  simp only [countOtherFailures, countP_eq_zero, decide_eq_true_eq, not_and]
  exact forall₃_congr fun case _ _ => by
    rw [imp_not_comm]
    simp

theorem green_iff {pending : List PendingTest} (hne : pending ≠ []) :
    (classifyPending lower pending (some root)).green = true ↔
      (∀ entry ∈ pending, (classifyOne lower (caseIndex root) entry).verdict = .green) ∧
        countOtherFailures root (pending.map PendingTest.testId)
          (indexLoop (root.iter "testcase")).ambiguous = 0 := by
  cases pending with
  | nil => exact absurd rfl hne
  | cons entry rest => simp [classifyPending, PendingReport.green, caseIndex, and_comm]

/-- PENDING TESTS EXCUSE THEIR DECLARED FAILURE ALONE, where failing cases have
names and no case has one spelling twice; so a failing case that a green report
holds is the one case of its declaration. -/
theorem pending_green_iff (lower : Text → Text) (root : Element) (pending : List PendingTest)
    (hne : pending ≠ [])
    (hnamed : ∀ case ∈ root.iter "testcase", (outcomeOf case).fails = true → spellings case ≠ [])
    (hd : ∀ case ∈ root.iter "testcase", (spellings case).Nodup) :
    ((classifyPending lower pending (some root)).green = true ↔
      (∀ entry ∈ pending, ∃ case, OnlyCase (root.iter "testcase") entry.testId case ∧
        AssertionFailure lower case) ∧
      ∀ case ∈ root.iter "testcase", (∀ entry ∈ pending, entry.testId ∉ spellings case) →
        (outcomeOf case).fails = false) ∧
    ∀ before case after, root.iter "testcase" = before ++ case :: after →
      (outcomeOf case).fails = true → (classifyPending lower pending (some root)).green = true →
      ∃ entry ∈ pending, entry.testId ∈ spellings case ∧ AssertionFailure lower case ∧
        ∀ other ∈ before ++ after, entry.testId ∉ spellings other := by
  rw [green_iff hne, countOtherFailures_eq_zero_iff]
  refine ⟨⟨fun ⟨hgreen, hothers⟩ => ⟨fun entry hentry => ?_, fun case hcase hfree => ?_⟩,
    fun ⟨hgreen, hothers⟩ => ⟨fun entry hentry => ?_, fun case hcase _ hfail => ?_⟩⟩, ?_⟩
  · obtain ⟨ha, outcome, hres, hfail⟩ := (classifyOne_green_iff root entry).1
      (hgreen entry hentry)
    obtain ⟨case, honly, rfl⟩ := onlyCase_of_resolves ha hres
    exact ⟨case, honly, hfail⟩
  · refine Bool.eq_false_iff.2 fun hfail => ?_
    obtain ⟨id, hid, hs, -⟩ := hothers case hcase (hnamed case hcase hfail) hfail
    obtain ⟨entry, hentry, rfl⟩ := mem_map.1 hid
    exact hfree entry hentry hs
  · obtain ⟨case, honly, hfail⟩ := hgreen entry hentry
    obtain ⟨before, after, heq, -⟩ := id honly
    obtain ⟨ha, hres⟩ := honly.resolves (hd case (heq ▸ by simp))
    exact (classifyOne_green_iff root entry).2 ⟨ha, _, hres, hfail⟩
  · by_contra hnone
    rw [hothers case hcase fun entry hentry hs => hnone ?_] at hfail
    · cases hfail
    · obtain ⟨declared, honly, -⟩ := hgreen entry hentry
      obtain ⟨before, after, heq, -⟩ := id honly
      have ha := (honly.resolves (hd declared (heq ▸ by simp))).1
      exact ⟨_, mem_map_of_mem hentry, hs, ha⟩
  · rintro before case after heq hfail ⟨hgreen, hothers⟩
    have hcase : case ∈ root.iter "testcase" := heq ▸ by simp
    obtain ⟨id, hid, hs, ha⟩ := hothers case hcase (hnamed case hcase hfail) hfail
    obtain ⟨entry, hentry, rfl⟩ := mem_map.1 hid
    obtain ⟨-, outcome, hres, hassertion⟩ :=
      (classifyOne_green_iff root entry).1 (hgreen entry hentry)
    rw [heq] at ha hres
    have halone := alone_of_unambiguous ha hs
    obtain ⟨other, hother, hin, rfl⟩ := mem_entries ((indexed_indexLoop _).found _ _ hres)
    rcases (by simpa [or_left_comm] using hother : other = case ∨ other ∈ before ∨
      other ∈ after) with
      rfl | hout
    · exact ⟨entry, hentry, hs, hassertion, halone⟩
    · exact absurd hin (halone other (mem_append.2 hout))

def caseOf (attributes : List (String × Text)) (tag : Tag) (message : Text) : Element :=
  .node "testcase" attributes [.node tag.name [("message", message)] []]

def suite (cases : List Element) : Element :=
  .node "testsuite" [] cases

def lost (attributes : List (String × Text)) : Element :=
  caseOf attributes .failure "AssertionError: assert 1 == 2".toList

def greenWith (testId : String) (cases : List Element) : Bool :=
  (classifyPending (map Char.toLower) [⟨"c".toList, testId.toList⟩] (some (suite cases))).green

def passed : Element := .node "testcase" [("name", "v".toList)] []

/-- Two declared failures and a test that passes: the report is green, and the second failure is
the one case of its declaration. -/
theorem pending_green_iff_two :
    let cases := [lost [("name", "t".toList)], lost [("name", "u".toList)], passed]
    let pending : List PendingTest := [⟨"c".toList, "t".toList⟩, ⟨"d".toList, "u".toList⟩]
    (classifyPending (map Char.toLower) pending (some (suite cases))).green = true ∧
      ∃ entry ∈ pending, entry.testId ∈ spellings (lost [("name", "u".toList)]) ∧
        ∀ other ∈ [lost [("name", "t".toList)]] ++ [passed], entry.testId ∉ spellings other := by
  have h := pending_green_iff (map Char.toLower)
    (suite [lost [("name", "t".toList)], lost [("name", "u".toList)], passed])
    [⟨"c".toList, "t".toList⟩, ⟨"d".toList, "u".toList⟩] (by simp) (by decide) (by decide)
  have hgreen := h.1.2 ⟨forall_mem_cons.2 ⟨?_, forall_mem_singleton.2 ?_⟩, by decide⟩
  · obtain ⟨entry, hmem, hspelled, -, halone⟩ := h.2 [lost [("name", "t".toList)]]
      (lost [("name", "u".toList)]) [passed] rfl (by decide) hgreen
    exact ⟨hgreen, entry, hmem, hspelled, halone⟩
  · exact ⟨lost [("name", "t".toList)], ⟨[], [lost [("name", "u".toList)], passed], rfl, by decide,
      by decide⟩, by decide, by decide⟩
  · exact ⟨lost [("name", "u".toList)], ⟨[lost [("name", "t".toList)]], [passed], rfl, by decide,
      by decide⟩, by decide, by decide⟩

theorem pending_green_broken :
    greenWith "t" [] = false ∧ greenWith "t" [lost [("name", "t".toList)]] = true ∧
    greenWith "t" [lost [("name", "t".toList)], lost []] = true ∧
    OnlyCase [lost [("name", "t".toList), ("classname", "f".toList), ("file", "f".toList)]]
      "f::t".toList (lost [("name", "t".toList), ("classname", "f".toList), ("file", "f".toList)]) ∧
    greenWith "f::t"
      [lost [("name", "t".toList), ("classname", "f".toList), ("file", "f".toList)]] = false :=
  ⟨by decide, by decide, by decide, ⟨[], [], rfl, by decide, by simp⟩, by decide⟩

end Synthorg.Workspace
