/-
An item that names another the plan does not order it against
(core/plan_reference_validation.py).

Which of an item's tokens name it is a matter of counts over the plan
(`distinctive`), and a scan looks for any item that is named, so neither sees
the order of the units (`refers_perm`). Both forms of the check scan the same
units up to order (`isSome_describe_iff`).
-/
import Mathlib.Data.List.Perm.Lattice
import Synthorg.Core.Validation
import Synthorg.Lib.Keyed

namespace Synthorg.Core

open Lib
open List

structure PlanUnit where
  id : String
  title : String
  description : String
  dependencies : List String := []
  deriving DecidableEq

-- ==== the words

/-- `str.lower` and `str.isalnum`, as Unicode has them. -/
structure Letters where
  lower : String → List Char
  isAlnum : Char → Bool

abbrev Word := List Char

variable (letters : Letters)

def wordsOf (text : String) : List Word :=
  (((letters.lower text).map fun c => if letters.isAlnum c then c else ' ').splitOnP isSpace).filter
    (· ≠ [])

def genericTitleTokens : List Word :=
  ["a", "add", "an", "and", "build", "create", "for", "implement", "in", "of", "on", "set",
    "setup", "the", "to", "up", "with", "write"].map String.toList

def minReferenceToken : Nat := 4

def titleTokens (unit : PlanUnit) : List Word :=
  ((wordsOf letters unit.title).filter fun word =>
    minReferenceToken ≤ word.length ∧ word ∉ genericTitleTokens).dedup

/-- `Counter(...)` over the titles of a plan. -/
def carrying (units : List PlanUnit) (token : Word) : Nat :=
  (units.flatMap (titleTokens letters)).count token

def distinctive (units : List PlanUnit) (unit : PlanUnit) : List Word :=
  (titleTokens letters unit).filter fun token => 2 * carrying letters units token ≤ units.length

/-- Aligned with the units. -/
structure ReferenceIndex where
  text : List (List Word)
  distinctive : List (List Word)

def referenceIndex (units : List PlanUnit) : ReferenceIndex where
  text := units.map fun unit => wordsOf letters (unit.title ++ " " ++ unit.description)
  distinctive := units.map (distinctive letters units)

-- ==== the check

def ordered (unit other : PlanUnit) : Bool :=
  other.id ∈ unit.dependencies || unit.id ∈ other.dependencies

structure UnstatedReference where
  unit : String
  other : String
  title : String

def unstatedReference (units : List PlanUnit) (index : ReferenceIndex) (position : Nat) :
    Option UnstatedReference :=
  match units[position]?, index.text[position]? with
  | some unit, some text =>
    ((units.zip index.distinctive).find? fun (other, tokens) =>
      !(other.id = unit.id || ordered unit other) && tokens ≠ [] && tokens.all (· ∈ text)).map
        fun (other, _) => ⟨unit.id, other.id, other.title⟩
  | _, _ => none

def describeUnstatedReference (unit : PlanUnit) (others : List PlanUnit) :
    Option UnstatedReference :=
  let scanned := unit :: others.filter fun other => other.id ≠ unit.id
  unstatedReference scanned (referenceIndex letters scanned) 0

def describeUnstatedReferences (units : List PlanUnit) : List UnstatedReference :=
  (List.range units.length).filterMap
    (unstatedReference units (referenceIndex letters units))

-- ==== what is reported

def refers (units : List PlanUnit) (unit other : PlanUnit) : Bool :=
  !(other.id = unit.id || ordered unit other) && distinctive letters units other ≠ [] &&
    (distinctive letters units other).all
      (· ∈ wordsOf letters (unit.title ++ " " ++ unit.description))

variable {letters} {units units' others : List PlanUnit} {unit other : PlanUnit}

theorem unstatedReference_eq {position : Nat} (h : units[position]? = some unit) :
    unstatedReference units (referenceIndex letters units) position =
      (units.find? (refers letters units unit)).map fun other =>
        ⟨unit.id, other.id, other.title⟩ := by
  have ha : units.zip (units.map (distinctive letters units)) =
      units.map fun other => (other, distinctive letters units other) := by
    have hzip := @zip_map' _ _ _ id (distinctive letters units) units
    simpa using hzip
  simp only [unstatedReference, referenceIndex, h, getElem?_map, ha,
    find?_map, Option.map_map]
  rfl

theorem refers_perm (hperm : units.Perm units') :
    refers letters units unit other = refers letters units' unit other := by
  have hsame : distinctive letters units other = distinctive letters units' other := by
    have hcnt : ∀ token, carrying letters units token = carrying letters units' token :=
      fun token => (hperm.flatMap_right _).count_eq token
    simp only [distinctive, hcnt, hperm.length_eq]
  simp only [refers, hsame]

theorem perm_scanned (hd : Keyed.Distinct PlanUnit.id units) (hunit : unit ∈ units)
    (ho : others.Perm units ∨ (unit :: others).Perm units) :
    (unit :: others.filter fun other => other.id ≠ unit.id).Perm units := by
  have hrest : (units.filter fun other => other.id ≠ unit.id).Perm (units.erase unit) := by
    rw [List.Nodup.erase_eq_filter (Keyed.nodup_of_distinct hd)]
    refine Perm.of_eq (filter_congr fun other hothers => ?_)
    have hiff : other.id = unit.id ↔ other = unit :=
      ⟨Keyed.eq_of_key hd hothers hunit, congrArg PlanUnit.id⟩
    by_cases hsame : other = unit <;> simp [hsame, hiff]
  have hback := (perm_cons_erase hunit).symm
  refine Perm.trans (Perm.cons unit ?_) hback
  rcases ho with hall | hwith
  · exact (hall.filter _).trans hrest
  · have hf := hwith.filter fun other => decide (other.id ≠ unit.id)
    rw [filter_cons_of_neg (by simp)] at hf
    exact hf.trans hrest

theorem isSome_describe_iff (hd : Keyed.Distinct PlanUnit.id units) (hunit : unit ∈ units)
    (ho : others.Perm units ∨ (unit :: others).Perm units) :
    (describeUnstatedReference letters unit others).isSome = true ↔
      ∃ other ∈ units, refers letters units unit other = true := by
  have hperm := perm_scanned hd hunit ho
  unfold describeUnstatedReference
  rw [unstatedReference_eq rfl, Option.isSome_map, List.find?_isSome]
  simp only [refers_perm hperm, hperm.mem_iff]

theorem mem_describe_iff {id : String} :
    id ∈ (describeUnstatedReferences letters units).map UnstatedReference.unit ↔
      ∃ unit ∈ units, unit.id = id ∧ ∃ other ∈ units, refers letters units unit other = true := by
  simp only [describeUnstatedReferences, mem_map, mem_filterMap, mem_range]
  constructor
  · rintro ⟨found, ⟨position, hpos, hf⟩, rfl⟩
    rw [unstatedReference_eq (getElem?_eq_getElem hpos), Option.map_eq_some_iff] at hf
    obtain ⟨other, ho, rfl⟩ := hf
    exact ⟨_, getElem_mem hpos, rfl, other, mem_of_find?_eq_some ho, find?_some ho⟩
  · rintro ⟨unit, hunit, rfl, hn⟩
    obtain ⟨position, hpos⟩ := mem_iff_getElem?.1 hunit
    have hsome := List.find?_isSome.2 hn
    obtain ⟨other, ho⟩ := Option.isSome_iff_exists.1 hsome
    refine ⟨⟨unit.id, other.id, other.title⟩, ⟨position, ?_, ?_⟩, rfl⟩
    · exact (List.getElem?_eq_some_iff.1 hpos).1
    · rw [unstatedReference_eq hpos, ho]
      rfl

/-- ONE CHECK, TWO FORMS: on units with unique ids the plural check reports what the singular
one finds, in any order of the units. -/
theorem references_agree (letters : Letters) {units : List PlanUnit}
    (hdistinct : Keyed.Distinct PlanUnit.id units) :
    (∀ unit ∈ units, ∀ others : List PlanUnit,
      others.Perm units ∨ (unit :: others).Perm units →
        ((describeUnstatedReference letters unit others).isSome = true ↔
          unit.id ∈ (describeUnstatedReferences letters units).map UnstatedReference.unit)) ∧
      (∀ id ∈ (describeUnstatedReferences letters units).map UnstatedReference.unit,
        id ∈ units.map PlanUnit.id) ∧
      ∀ units' : List PlanUnit, units'.Perm units → ∀ id,
        id ∈ (describeUnstatedReferences letters units').map UnstatedReference.unit ↔
          id ∈ (describeUnstatedReferences letters units).map UnstatedReference.unit := by
  refine ⟨fun unit hunit others hothers => ?_, fun id hid => ?_, fun units' hperm id => ?_⟩
  · rw [isSome_describe_iff hdistinct hunit hothers, mem_describe_iff]
    refine ⟨fun h => ⟨unit, hunit, rfl, h⟩, ?_⟩
    rintro ⟨same, hsame, hid, h⟩
    rwa [Keyed.eq_of_key hdistinct hsame hunit hid] at h
  · obtain ⟨unit, hunit, rfl, -⟩ := mem_describe_iff.1 hid
    exact mem_map_of_mem hunit
  · simp only [mem_describe_iff, refers_perm hperm, hperm.mem_iff]

/-- Letters as ASCII has them. -/
def asciiLetters : Letters where
  lower := fun text => text.toList.map Char.toLower
  isAlnum := Char.isAlphanum

def gameUnits : List PlanUnit :=
  [{ id := "loop", title := "Wire game loop", description := "Tie the engine in." },
    { id := "engine", title := "Engine", description := "Physics." }]

/-- It is reported, whatever comes first. -/
theorem references_agree_game :
    (describeUnstatedReferences asciiLetters gameUnits).map UnstatedReference.unit = ["loop"] ∧
      "loop" ∈ (describeUnstatedReferences asciiLetters gameUnits.reverse).map
        UnstatedReference.unit :=
  have hdistinct : Keyed.Distinct PlanUnit.id gameUnits := by
    unfold Keyed.Distinct
    decide
  have hfound : (describeUnstatedReferences asciiLetters gameUnits).map UnstatedReference.unit =
      ["loop"] := by decide
  ⟨hfound, ((references_agree asciiLetters hdistinct).2.2 gameUnits.reverse
    (reverse_perm _) "loop").2 (hfound ▸ mem_singleton_self _)⟩

end Synthorg.Core
