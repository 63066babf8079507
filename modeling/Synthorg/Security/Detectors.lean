/-
ARGUMENT DETECTORS: `walk_string_values` with its depth budget, the table-driven
detectors over it, and exactly which strings of a tool call they see.
-/
import Synthorg.Approvals.Store
import Mathlib.Data.List.Infix

namespace Synthorg.Security

open Synthorg.Approvals (ApprovalRiskLevel)
open List

inductive SecurityVerdictType where
  | allow
  | deny
  | escalate
deriving DecidableEq

inductive Argument where
  | scalar
  | text (value : String)
  | object (members : List (String × Argument))
  | array (items : List Argument)

-- ==== the walk

def maxRecursionDepth : Nat := 20

/-- The check both functions open with: past the budget the walk yields nothing. -/
def within (depth : Nat) (rest : List String) : List String :=
  if maxRecursionDepth ≤ depth then [] else rest

mutual

def walkValue (depth : Nat) : Argument → List String
  | .scalar => []
  | .text value => within depth [value]
  | .object members => within depth (within (depth + 1) (walkMembers (depth + 1) members))
  | .array items => within depth (walkItems (depth + 1) items)

def walkMembers (depth : Nat) : List (String × Argument) → List String
  | [] => []
  | (_, value) :: rest => walkValue depth value ++ walkMembers depth rest

def walkItems (depth : Nat) : List Argument → List String
  | [] => []
  | item :: rest => walkValue depth item ++ walkItems depth rest

end

def walkStringValues (depth : Nat) (arguments : List (String × Argument)) : List String :=
  within depth (walkMembers depth arguments)

inductive Occurs (s : String) : Argument → Nat → Prop where
  | here : Occurs s (.text s) 0
  | member {p : String × Argument} {members n} : p ∈ members → Occurs s p.2 n →
      Occurs s (.object members) (n + 1)
  | item {item items n} : item ∈ items → Occurs s item n → Occurs s (.array items) (n + 1)

theorem mem_within {depth : Nat} {rest : List String} {s : String} :
    s ∈ within depth rest ↔ depth < maxRecursionDepth ∧ s ∈ rest := by
  unfold within
  split
  next h => simp [Nat.not_lt.2 h]
  next h => simp [Nat.lt_of_not_le h]

mutual

/-- STEP LEMMA: the walk yields exactly the strings whose nesting the budget still covers. -/
theorem mem_walkValue {s : String} : ∀ (depth : Nat) (v : Argument),
    s ∈ walkValue depth v ↔ ∃ n, Occurs s v n ∧ depth + n < maxRecursionDepth
  | depth, .scalar => by
    constructor
    · intro h
      cases h
    · rintro ⟨n, h, -⟩
      cases h
  | depth, .text value => by
    rw [walkValue, mem_within, mem_singleton]
    constructor
    · rintro ⟨hd, rfl⟩
      exact ⟨0, .here, hd⟩
    · rintro ⟨n, h, hd⟩
      cases h
      exact ⟨hd, rfl⟩
  | depth, .object members => by
    rw [walkValue, mem_within, mem_within, mem_walkMembers]
    constructor
    · rintro ⟨-, -, p, hp, n, h, hd⟩
      exact ⟨n + 1, .member hp h, by omega⟩
    · rintro ⟨n, h, hd⟩
      cases h with
      | member hp h => exact ⟨by omega, by omega, _, hp, _, h, by omega⟩
  | depth, .array items => by
    rw [walkValue, mem_within, mem_walkItems]
    constructor
    · rintro ⟨-, v, hv, n, h, hd⟩
      exact ⟨n + 1, .item hv h, by omega⟩
    · rintro ⟨n, h, hd⟩
      cases h with
      | item hv h => exact ⟨by omega, _, hv, _, h, by omega⟩

theorem mem_walkMembers {s : String} : ∀ (depth : Nat) (members : List (String × Argument)),
    s ∈ walkMembers depth members ↔
      ∃ p ∈ members, ∃ n, Occurs s p.2 n ∧ depth + n < maxRecursionDepth
  | depth, [] => by simp [walkMembers]
  | depth, (_, value) :: rest => by
    rw [walkMembers, mem_append, mem_walkValue depth value, mem_walkMembers depth rest]
    simp

theorem mem_walkItems {s : String} : ∀ (depth : Nat) (items : List Argument),
    s ∈ walkItems depth items ↔
      ∃ v ∈ items, ∃ n, Occurs s v n ∧ depth + n < maxRecursionDepth
  | depth, [] => by simp [walkItems]
  | depth, item :: rest => by
    rw [walkItems, mem_append, mem_walkValue depth item, mem_walkItems depth rest]
    simp

end

/-- The string stands inside fewer than twenty containers below the call's own object. -/
def Within (s : String) (arguments : List (String × Argument)) : Prop :=
  ∃ n, Occurs s (.object arguments) (n + 1) ∧ n < maxRecursionDepth

variable {arguments : List (String × Argument)}

theorem mem_walkStringValues {s : String} :
    s ∈ walkStringValues 0 arguments ↔ Within s arguments := by
  rw [walkStringValues, mem_within, mem_walkMembers]
  constructor
  · rintro ⟨-, p, hp, n, h, hd⟩
    exact ⟨n, .member hp h, by omega⟩
  · rintro ⟨n, h, hd⟩
    cases h with
    | member hp h => exact ⟨by decide, _, hp, n, h, by omega⟩

-- ==== the detectors

structure Pattern where
  name : String
  search : String → Bool
  named : name ≠ ""

def scanValue (patterns : List Pattern) (value : String) : Option String :=
  (patterns.find? (·.search value)).map (·.name)

structure SecurityVerdict where
  verdict : SecurityVerdictType
  reason : String
  riskLevel : ApprovalRiskLevel
  matchedRules : List String

structure Detector where
  ruleName : String
  found : String
  patterns : List Pattern

/-- The names the walked strings give; no name is empty, so none is dropped as falsy. -/
def Detector.findings (d : Detector) (arguments : List (String × Argument)) : List String :=
  (walkStringValues 0 arguments).filterMap (scanValue d.patterns)

def Detector.evaluate (d : Detector) (arguments : List (String × Argument)) :
    Option SecurityVerdict :=
  if d.findings arguments = [] then none
  else
    let unique := (d.findings arguments).dedup.mergeSort (· ≤ ·)
    some {
      verdict := .deny
      reason := d.found ++ ", ".intercalate unique
      riskLevel := .critical
      matchedRules := [d.ruleName] }

def Detector.Denies (d : Detector) (arguments : List (String × Argument)) : Prop :=
  (d.evaluate arguments).map (·.verdict) = some .deny

instance (d : Detector) (arguments : List (String × Argument)) : Decidable (d.Denies arguments) :=
  inferInstanceAs (Decidable (_ = _))

theorem Detector.denies_iff {d : Detector} :
    d.Denies arguments ↔ ∃ s, Within s arguments ∧ ∃ p ∈ d.patterns, p.search s = true := by
  have hfind : d.findings arguments ≠ [] ↔
      ∃ s ∈ walkStringValues 0 arguments, ∃ p ∈ d.patterns, p.search s = true := by
    simp only [findings, scanValue, ne_eq, filterMap_eq_nil_iff]
    simp
  rw [Denies, evaluate]
  split
  next h => simpa [h, mem_walkStringValues] using hfind
  next h => simpa [h, mem_walkStringValues] using hfind

-- ==== path traversal

def isSeparator (c : Char) : Bool := c == '/' || c == '\\'

/-- `\.\.(?:[/\\]|$)` at this place; `$` also stands before a last newline. -/
def closesDots : List Char → Bool
  | ['.', '.'] => true
  | ['.', '.', '\n'] => true
  | '.' :: '.' :: c :: _ => isSeparator c
  | _ => false

/-- `(?:^|[/\\])\.\.(?:[/\\]|$)`; `opened` at the start and after a separator. -/
def searchDots : Bool → List Char → Bool
  | _, [] => false
  | opened, c :: rest => (opened && closesDots (c :: rest)) || searchDots (isSeparator c) rest

def contains (literal : String) (value : String) : Bool :=
  decide (literal.toList <:+: value.toList.map Char.toLower)

def uncStart : List Char → Bool
  | '\\' :: '\\' :: c :: _ => c != '\\'
  | _ => false

def traversalPatterns : List Pattern := [
  { name := "directory traversal (../)", search v := searchDots true v.toList, named := by decide },
  { name := "null byte injection", search v := v.toList.contains '\x00', named := by decide },
  { name := "URL-encoded traversal (%2e%2e)", named := by decide
    search v := ["%2e%2e%", "%2e%2e/", "%2e%2e\\", "/%2e%2e", "\\%2e%2e"].any (contains · v) },
  { name := "double-encoded traversal", search := contains "%252e%252e", named := by decide },
  { name := "overlong UTF-8 traversal", search := contains "%c0%ae", named := by decide },
  { name := "Windows UNC path", search v := uncStart v.toList, named := by decide }]

def pathTraversalDetector : Detector where
  ruleName := "path_traversal_detector"
  found := "Path traversal detected: "
  patterns := traversalPatterns

def credentialDetector (credentialPatterns : List Pattern) : Detector where
  ruleName := "credential_detector"
  found := "Credential detected in arguments: "
  patterns := credentialPatterns

/-- A component `..`, between separators or the ends of the text. -/
def HasTraversal (value : String) : Prop :=
  ∃ before after, value.toList = before ++ '.' :: '.' :: after ∧
    (∀ c ∈ before.getLast?, isSeparator c = true) ∧ ∀ c ∈ after.head?, isSeparator c = true

/-- RUN LEMMA over the characters: the component is found where it starts. -/
theorem searchDots_of_split {after : List Char} (hafter : ∀ c ∈ after.head?, isSeparator c = true) :
    ∀ (before : List Char) (opened : Bool), (before = [] → opened = true) →
      (∀ c ∈ before.getLast?, isSeparator c = true) →
      searchDots opened (before ++ '.' :: '.' :: after) = true
  | [], opened, hopen, _ => by
    have hclose : closesDots ('.' :: '.' :: after) = true := by
      cases after with
      | nil => rfl
      | cons c rest =>
        unfold closesDots
        split <;> simp_all
    rw [nil_append, searchDots, hopen rfl, hclose]
    rfl
  | c :: rest, opened, _, hlast => by
    rw [cons_append, searchDots, searchDots_of_split hafter rest, Bool.or_true]
    · rintro rfl
      exact hlast c rfl
    · intro d hd
      cases rest with
      | nil => cases hd
      | cons e rest => exact hlast d hd

theorem searchDots_of_hasTraversal {value : String} (h : HasTraversal value) :
    searchDots true value.toList = true := by
  obtain ⟨before, after, heq, hlast, hafter⟩ := h
  rw [heq]
  exact searchDots_of_split hafter before true (fun _ => rfl) hlast

-- ==== what the detectors see

/-- Both detectors deny exactly the calls with a string that a pattern of theirs finds inside
fewer than twenty containers; for a path detector a `..` component is one. Within the budget the
place does not matter. -/
theorem detectors_see (credentialPatterns : List Pattern) (arguments : List (String × Argument)) :
    (pathTraversalDetector.Denies arguments ↔
      ∃ s, Within s arguments ∧ ∃ p ∈ traversalPatterns, p.search s = true) ∧
    ((credentialDetector credentialPatterns).Denies arguments ↔
      ∃ s, Within s arguments ∧ ∃ p ∈ credentialPatterns, p.search s = true) ∧
    ∀ s, HasTraversal s → ∃ p ∈ traversalPatterns, p.search s = true :=
  ⟨Detector.denies_iff, Detector.denies_iff,
    fun _ h => ⟨_, mem_cons_self, searchDots_of_hasTraversal h⟩⟩

def wrapped (v : Argument) : Nat → Argument
  | 0 => v
  | n + 1 => .array [wrapped v n]

/-- Twenty arrays around a `..`, and neither detector says a word. -/
theorem detectors_cut_off :
    (∃ s n, Occurs s (.object [("items", wrapped (.text "../etc") 20)]) n ∧ HasTraversal s) ∧
      ¬ pathTraversalDetector.Denies [("items", wrapped (.text "../etc") 20)] ∧
      pathTraversalDetector.Denies [("items", wrapped (.text "../etc") 19)] := by
  have hin : ∀ n, Occurs "../etc" (wrapped (.text "../etc") n) n := by
    intro n
    induction n with
    | zero => exact .here
    | succ n ih => exact .item mem_cons_self ih
  have hdots : HasTraversal "../etc" :=
    ⟨[], ['/', 'e', 't', 'c'], rfl, nofun, by simp [isSeparator]⟩
  refine ⟨⟨_, _, .member mem_cons_self (hin 20), hdots⟩, by decide, by decide⟩

end Synthorg.Security
