/-
Editing a file by hunks (tools/file_system/_edit_plan.py, edit_file.py).

A file is its text: what its UTF-8 bytes decode to. Reading it translates line
endings, writing it does not. `Scan` is the left-to-right scan for a text, said
without the loop.
-/
import Synthorg.Core.Validation
import Mathlib.Data.List.Infix

namespace Synthorg.Workspace

open Synthorg.Core
open List

structure EditHunk where
  oldText : Text
  newText : Text
  replaceAll : Bool := false
  nonempty : oldText ≠ []

-- ==== Python's `str`

/-- What the text layer reads: each of `\r\n`, `\r` and `\n` as `\n`. -/
def universalNewlines (afterReturn : Bool) : Text → Text
  | [] => []
  | c :: rest =>
    if c = '\r' then '\n' :: universalNewlines true rest
    else if afterReturn ∧ c = '\n' then universalNewlines false rest
    else c :: universalNewlines false rest

/-- The text before the first `old`, and the text after it. -/
def cut (old : Text) : Text → Option (Text × Text)
  | [] => none
  | c :: rest =>
    if old <+: c :: rest then some ([], (c :: rest).drop old.length)
    else (cut old rest).map fun (before, after) => (c :: before, after)

/-- `text.split(old)`; every cut shortens the text, so its length is fuel enough. -/
def split (old : Text) : Nat → Text → List Text
  | 0, text => [text]
  | fuel + 1, text =>
    match cut old text with
    | none => [text]
    | some (before, after) => before :: split old fuel after

def count (text old : Text) : Nat := (split old text.length text).length - 1

def replace (text old new : Text) : Text := new.intercalate (split old text.length text)

/-- `text.replace(old, new, 1)`. -/
def replaceFirst (text old new : Text) : Text :=
  match cut old text with
  | none => text
  | some (before, after) => before ++ new ++ after

-- ==== the edit

inductive PlanError
  | notFound
  | notUnique
  deriving DecidableEq

structure EditPlan where
  original : Text
  resulting : Text
  occurrencesFound : Nat := 0
  occurrencesReplaced : Nat := 0
  errorKind : Option PlanError := none
  errorHunkIndex : Option Nat := none
  errorCount : Nat := 0
  editsApplied : Nat := 0

/-- The loop from the hunk `index` on. -/
def planLoop (original : Text) (index : Nat) (working : Text) (found replaced applied : Nat) :
    List EditHunk → EditPlan
  | [] =>
    { original, resulting := working, occurrencesFound := found, occurrencesReplaced := replaced
      editsApplied := applied }
  | hunk :: rest =>
    if hunk.oldText = hunk.newText then
      planLoop original (index + 1) working found replaced applied rest
    else
      let n := count working hunk.oldText
      if n = 0 then
        { original, resulting := original, errorKind := some .notFound
          errorHunkIndex := some index }
      else if 1 < n ∧ ¬ hunk.replaceAll then
        { original, resulting := original, errorKind := some .notUnique
          errorHunkIndex := some index, errorCount := n }
      else if hunk.replaceAll then
        planLoop original (index + 1) (replace working hunk.oldText hunk.newText) (found + n)
          (replaced + n) (applied + 1) rest
      else
        planLoop original (index + 1) (replaceFirst working hunk.oldText hunk.newText) (found + n)
          (replaced + 1) (applied + 1) rest

def planEdits (file : Text) (hunks : List EditHunk) : EditPlan :=
  planLoop (universalNewlines false file) 0 (universalNewlines false file) 0 0 0 hunks

inductive EditResult
  | rejected (kind : PlanError) (hunkIndex occurrencesFound : Nat)
  | noop (occurrencesFound : Nat)
  | guarded
  | failed
  | success (occurrencesFound occurrencesReplaced editsApplied : Nat)
  deriving DecidableEq

/-- The result and the file after it; `guard` is the output policy, and `writes` is
false where the write raises. -/
def performEdit (guard : Text → Text → Bool) (writes : Bool) (file : Text)
    (hunks : List EditHunk) : EditResult × Text :=
  let plan := planEdits file hunks
  match plan.errorKind with
  | some kind => (.rejected kind (plan.errorHunkIndex.getD 0) plan.errorCount, file)
  | none =>
    if plan.resulting = plan.original then (.noop plan.occurrencesFound, file)
    else if guard plan.original plan.resulting then (.guarded, file)
    else if writes then
      (.success plan.occurrencesFound plan.occurrencesReplaced plan.editsApplied, plan.resulting)
    else (.failed, file)

-- ==== what a scan finds

inductive Scan (old : Text) : Text → List Text → Prop
  | last {text : Text} (none : ¬ old <:+: text) : Scan old text [text]
  | cut {before after : Text} {pieces : List Text}
      (first : ∀ a b, before ++ old ++ after = a ++ old ++ b → before.length ≤ a.length)
      (rest : Scan old after pieces) : Scan old (before ++ old ++ after) (before :: pieces)

/-- Two occurrences in the text share a character. -/
def Overlaps (old text : Text) : Prop :=
  ∃ a b a' b', text = a ++ old ++ b ∧ text = a' ++ old ++ b' ∧ a.length < a'.length ∧
    a'.length < a.length + old.length

def Replaced (hunk : EditHunk) (text text' : Text) (n : Nat) : Prop :=
  if hunk.oldText = hunk.newText then text' = text ∧ n = 0
  else if hunk.replaceAll then
    ∃ pieces, Scan hunk.oldText text pieces ∧ pieces.length = n + 1 ∧ 0 < n ∧
      text' = hunk.newText.intercalate pieces
  else
    n = 1 ∧ ∃ before after, text = before ++ hunk.oldText ++ after ∧
      text' = before ++ hunk.newText ++ after ∧
      (¬ Overlaps hunk.oldText text → ∀ a b, text = a ++ hunk.oldText ++ b →
        a = before ∧ b = after)

inductive Edited : List EditHunk → Text → Text → Nat → Prop
  | nil (text : Text) : Edited [] text text 0
  | cons {hunk : EditHunk} {hunks : List EditHunk} {text between text' : Text} {n m : Nat}
      (head : Replaced hunk text between n) (rest : Edited hunks between text' m) :
      Edited (hunk :: hunks) text text' (n + m)

variable {old text before after : Text}

theorem universalNewlines_eq (h : '\r' ∉ text) : universalNewlines false text = text := by
  induction text with
  | nil => rfl
  | cons c rest ih =>
    obtain ⟨hc, hrest⟩ := not_or.1 (mem_cons.not.1 h)
    rw [universalNewlines, if_neg (Ne.symm hc), if_neg (by simp), ih hrest]

/-- SPEC of `cut`. -/
theorem cut_spec (hne : old ≠ []) (text : Text) :
    match cut old text with
    | none => ¬ old <:+: text
    | some (before, after) => text = before ++ old ++ after ∧
        ∀ a b, text = a ++ old ++ b → before.length ≤ a.length := by
  induction text with
  | nil => simpa [cut] using hne
  | cons c rest ih =>
    rw [cut]
    split_ifs with hpre
    · obtain ⟨after, hafter⟩ := hpre
      exact ⟨by simp [← hafter], fun a b _ => Nat.zero_le _⟩
    · have htail : ∀ a b, c :: rest = a ++ old ++ b →
      ∃ a', a = c :: a' ∧ rest = a' ++ old ++ b := by
        intro a b heq
        cases a with
        | nil => exact absurd ⟨b, heq.symm⟩ hpre
        | cons d a' =>
          rw [cons_append, cons_append] at heq
          obtain ⟨rfl, htail⟩ := cons.inj heq
          exact ⟨a', rfl, htail⟩
      cases hcut : cut old rest with
      | none =>
        rw [hcut] at ih
        rintro ⟨a, b, heq⟩
        obtain ⟨a', -, heq'⟩ := htail a b heq.symm
        exact ih ⟨a', b, heq'.symm⟩
      | some found =>
        obtain ⟨before, after⟩ := found
        rw [hcut] at ih
        refine ⟨by simp [ih.1], fun a b heq => ?_⟩
        obtain ⟨a', rfl, heq'⟩ := htail a b heq
        exact Nat.succ_le_succ (ih.2 a' b heq')

theorem scan_split (hne : old ≠ []) : ∀ (fuel : Nat) (text : Text), text.length ≤ fuel →
    Scan old text (split old fuel text)
  | 0, text, hlen => by
    rw [length_eq_zero_iff.1 (Nat.le_zero.1 hlen)]
    exact .last (by simpa using hne)
  | fuel + 1, text, hlen => by
    have hcut := cut_spec hne text
    rw [split]
    split
    next heq =>
      rw [heq] at hcut
      exact .last hcut
    next before after heq =>
      rw [heq] at hcut
      obtain ⟨rfl, hfirst⟩ := hcut
      refine .cut hfirst (scan_split hne fuel after ?_)
      have := length_pos_iff.2 hne
      simp only [length_append] at hlen
      omega

theorem Scan.none_of_length {pieces : List Text} (h : Scan old text pieces)
    (hlen : pieces.length = 1) : ¬ old <:+: text := by
  cases h with
  | last hnone => exact hnone
  | cut _ hrest => cases hrest <;> simp at hlen

theorem only_of_first (hfirst : ∀ a b, before ++ old ++ after = a ++ old ++ b →
    before.length ≤ a.length) (hnone : ¬ old <:+: after)
    (hover : ¬ Overlaps old (before ++ old ++ after)) (a b : Text)
    (heq : before ++ old ++ after = a ++ old ++ b) : a = before ∧ b = after := by
  rcases Nat.lt_or_ge a.length (before.length + old.length) with hlt | hge
  · have hlen : before.length = a.length := by
      refine Nat.le_antisymm (hfirst a b heq) (Nat.le_of_not_lt fun hlt' => hover ?_)
      exact ⟨before, after, a, b, rfl, heq, hlt', hlt⟩
    rw [append_assoc, append_assoc] at heq
    obtain ⟨rfl, htail⟩ := append_inj heq hlen
    exact ⟨rfl, (append_cancel_left htail).symm⟩
  · rw [append_assoc a] at heq
    obtain ⟨front, hfront⟩ := prefix_of_prefix_length_le ⟨after, rfl⟩ ⟨old ++ b, heq.symm⟩
      (by simpa using hge)
    rw [← hfront, append_assoc _ front, append_cancel_left_eq] at heq
    exact absurd ⟨front, b, by rw [heq, append_assoc]⟩ hnone

-- ==== what an edit makes of the file

variable {hunk : EditHunk}

theorem replaced_all (hne : hunk.oldText ≠ hunk.newText) (hall : hunk.replaceAll = true)
    (hcount : count text hunk.oldText ≠ 0) :
    Replaced hunk text (replace text hunk.oldText hunk.newText) (count text hunk.oldText) := by
  rw [Replaced, if_neg hne, if_pos hall]
  refine ⟨_, scan_split hunk.nonempty _ text le_rfl, ?_, Nat.pos_of_ne_zero hcount, rfl⟩
  unfold count at hcount ⊢
  omega

theorem replaced_one (hne : hunk.oldText ≠ hunk.newText) (hall : ¬ hunk.replaceAll = true)
    (hcount : count text hunk.oldText = 1) :
    Replaced hunk text (replaceFirst text hunk.oldText hunk.newText) 1 := by
  rw [Replaced, if_neg hne, if_neg hall]
  refine ⟨rfl, ?_⟩
  have hspec := cut_spec hunk.nonempty text
  unfold count at hcount
  cases hlen : text.length with
  | zero =>
    rw [hlen] at hcount
    cases hcount
  | succ fuel =>
    rw [hlen, split] at hcount
    unfold replaceFirst
    split at hcount
    next => cases hcount
    next before after hcut =>
      rw [hcut] at hspec
      obtain ⟨rfl, hfirst⟩ := hspec
      refine ⟨before, after, rfl, rfl, fun hover => only_of_first hfirst ?_ hover⟩
      have hle : after.length ≤ fuel := by
        have := length_pos_iff.2 hunk.nonempty
        simp only [length_append] at hlen
        omega
      exact (scan_split hunk.nonempty fuel after hle).none_of_length (by simpa using hcount)

theorem planLoop_edited (original : Text) : ∀ (hunks : List EditHunk) (index : Nat) (working : Text)
    (found replaced applied : Nat),
    (planLoop original index working found replaced applied hunks).errorKind = none →
    ∃ n, Edited hunks working
        (planLoop original index working found replaced applied hunks).resulting n ∧
      (planLoop original index working found replaced applied hunks).occurrencesReplaced =
        replaced + n
  | [], _, working, _, _, _, _ => ⟨0, .nil working, rfl⟩
  | hunk :: rest, index, working, found, replaced, applied, h => by
    rw [planLoop] at h ⊢
    dsimp only at h ⊢
    split at h
    next heq =>
      rw [if_pos heq]
      obtain ⟨n, hrest, hn⟩ := planLoop_edited original rest _ _ _ _ _ h
      exact ⟨0 + n, .cons (by rw [Replaced, if_pos heq]; exact ⟨rfl, rfl⟩) hrest, by omega⟩
    next hne =>
      rw [if_neg hne]
      split at h
      next => cases h
      next hcount =>
        rw [if_neg hcount]
        split at h
        next => cases h
        next hunique =>
          rw [if_neg hunique]
          split at h
          next hall =>
            rw [if_pos hall]
            obtain ⟨n, hrest, hn⟩ := planLoop_edited original rest _ _ _ _ _ h
            exact ⟨_, .cons (replaced_all hne hall hcount) hrest, by omega⟩
          next hall =>
            rw [if_neg hall]
            obtain ⟨n, hrest, hn⟩ := planLoop_edited original rest _ _ _ _ _ h
            have hone : count working hunk.oldText = 1 := by
              have hle : ¬ 1 < count working hunk.oldText := fun hlt => hunique ⟨hlt, hall⟩
              omega
            exact ⟨_, .cons (replaced_one hne hall hone) hrest, by omega⟩

/-- EDITS CHANGE WHAT THEY NAME: on a file without carriage returns a success made
of it what the hunks say, one after another, with as many replacements as it
reports; any other result left the file as it was. -/
theorem edit_exact (guard : Text → Text → Bool) (writes : Bool) (file : Text)
    (hunks : List EditHunk) (hfile : '\r' ∉ file) :
    (∀ found replaced applied,
      (performEdit guard writes file hunks).1 = .success found replaced applied →
      Edited hunks file (performEdit guard writes file hunks).2 replaced) ∧
    ((∀ found replaced applied,
      (performEdit guard writes file hunks).1 ≠ .success found replaced applied) →
      (performEdit guard writes file hunks).2 = file) := by
  have hplan : (planEdits file hunks).errorKind = none →
      Edited hunks file (planEdits file hunks).resulting
        (planEdits file hunks).occurrencesReplaced := by
    intro hnone
    rw [planEdits, universalNewlines_eq hfile] at hnone ⊢
    obtain ⟨n, hedit, hn⟩ := planLoop_edited file hunks 0 file 0 0 0 hnone
    rwa [hn, Nat.zero_add]
  unfold performEdit
  dsimp only
  split
  next => exact ⟨fun _ _ _ h => (nomatch h), fun _ => rfl⟩
  next hnone =>
    split
    next => exact ⟨fun _ _ _ h => (nomatch h), fun _ => rfl⟩
    next =>
      split
      next => exact ⟨fun _ _ _ h => (nomatch h), fun _ => rfl⟩
      next =>
        split
        next =>
          refine ⟨fun _ _ _ h => ?_, fun h => absurd rfl (h _ _ _)⟩
          cases h
          exact hplan hnone
        next => exact ⟨fun _ _ _ h => (nomatch h), fun _ => rfl⟩

/-- One occurrence, and then every one of what has become of it. -/
def twoHunks : List EditHunk :=
  [⟨"ab".toList, "c".toList, false, by decide⟩, ⟨"c".toList, "d".toList, true, by decide⟩]

theorem edit_exact_two : Edited twoHunks "xabc".toList "xdd".toList 3 ∧
    (performEdit (fun _ _ => false) false "xabc".toList twoHunks).2 = "xabc".toList := by
  refine ⟨(edit_exact (fun _ _ => false) true _ twoHunks (by decide)).1 3 3 2 (by decide),
    (edit_exact (fun _ _ => false) false _ twoHunks (by decide)).2 ?_⟩
  intro found replaced applied hsuccess
  have hfails : (performEdit (fun _ _ => false) false "xabc".toList twoHunks).1 = .failed := by
    decide
  cases hfails.symm.trans hsuccess

/-- A hunk that changes nothing is absent, and the file is changed; the line ending of
a line that no hunk names is; and of two occurrences that overlap one is replaced. -/
theorem edit_inexact :
    performEdit (fun _ _ => false) true "xab".toList
      [⟨"z".toList, "z".toList, false, by decide⟩, ⟨"ab".toList, "c".toList, false, by decide⟩] =
      (.success 1 1 1, "xc".toList) ∧
    performEdit (fun _ _ => false) true "a\r\nb".toList
      [⟨"b".toList, "c".toList, false, by decide⟩] =
      (.success 1 1 1, "a\nc".toList) ∧
    performEdit (fun _ _ => false) true "aaa".toList [⟨"aa".toList, "b".toList, false, by decide⟩] =
      (.success 1 1 1, "ba".toList) :=
  ⟨by decide, by decide, by decide⟩

end Synthorg.Workspace
