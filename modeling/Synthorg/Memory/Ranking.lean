/-
DIVERSITY RE-RANKING (memory/ranking_mmr.py).

The pass carries, for every entry that remains, the similarity to the nearest entry
selected so far, and asks for each pair once. It selects what the naive greedy rule
selects, which takes the maximum over everything selected anew at every step. A function
that fails on a pair the pass asks for leaves the order it was given.
-/
import Mathlib.Data.Finset.Card
import Mathlib.Data.List.MinMax
import Mathlib.Data.List.NodupEquivFin
import Mathlib.Data.Rat.Floor
import Synthorg.Core.Validation

namespace Synthorg.Memory

open Synthorg.Core List
open Function (update update_self update_of_ne)

-- ==== the entries

structure ScoredMemory (α : Type) where
  content : String
  combinedScore : ℚ
  rest : α

/-- `split_words`; `lower` is `str.lower`. -/
def splitWords (lower : List Char → List Char) (text : String) : List (List Char) :=
  ((lower text.toList).splitOnP isSpace).filter (· ≠ [])

/-- Fewer than two words have none. -/
def wordBigrams (lower : List Char → List Char) (text : String) :
    Finset (List Char × List Char) :=
  let words := splitWords lower text
  (words.zip words.tail).toFinset

def bigramJaccardSets (a b : Finset (List Char × List Char)) : ℚ :=
  if a = ∅ ∨ b = ∅ then 0
  else
    let intersection := (a ∩ b).card
    intersection / (a.card + b.card - intersection)

def bigramJaccard (lower : List Char → List Char) (a b : String) : ℚ :=
  bigramJaccardSets (wordBigrams lower a) (wordBigrams lower b)

-- ==== the pass

variable {ι : Type} [DecidableEq ι]

/-- The loop over `enumerate`, no value being minus infinity. -/
def bestCandidatePosition (mmr : ι → ℚ) (remaining : List ι) : Nat :=
  (remaining.zipIdx.foldl (fun best (idx, position) =>
    if best.2.all (· < mmr idx) then (position, some (mmr idx)) else best)
    ((0, none) : Nat × Option ℚ)).1

/-- The MMR value; on the first pass the penalty is zero, and no maximum is read. -/
def mmr (score : ι → ℚ) (diversityLambda : ℚ) (penalise : Bool) (maxSim : ι → Option ℚ)
    (idx : ι) : ℚ :=
  diversityLambda * score idx -
    (1 - diversityLambda) * if penalise then (maxSim idx).getD 0 else 0

/-- The chosen entry is folded in; `none` is a call that raised or is not finite. -/
def foldIn (similarity : ι → Option ℚ) : List ι → (ι → Option ℚ) → Option (ι → Option ℚ)
  | [], maxSim => some maxSim
  | idx :: rest, maxSim => do
    let s ← similarity idx
    foldIn similarity rest (update maxSim idx (some ((maxSim idx).elim s (max · s))))

/-- The `while` of both paths, an iteration an entry. -/
def selectionLoop (score : ι → ℚ) (diversityLambda : ℚ) (similarity : ι → ι → Option ℚ) :
    Nat → List ι → List ι → (ι → Option ℚ) → Option (List ι)
  | 0, selected, _, _ => some selected
  | fuel + 1, selected, remaining, maxSim =>
    let position :=
      bestCandidatePosition (mmr score diversityLambda (!selected.isEmpty) maxSim) remaining
    match remaining[position]? with
    | none => some selected
    | some chosen => do
      let remaining := remaining.eraseIdx position
      let maxSim ← foldIn (similarity · chosen) remaining maxSim
      selectionLoop score diversityLambda similarity fuel (selected ++ [chosen]) remaining maxSim

section
variable {α : Type} (scored : List (ScoredMemory α)) (diversityLambda : ℚ)

def mmrSelectionOrder (similarity : Fin scored.length → Fin scored.length → Option ℚ) :
    Option (List (Fin scored.length)) :=
  selectionLoop (scored.get · |>.combinedScore) diversityLambda similarity scored.length []
    (finRange scored.length) fun _ => none

def mmrRerankBigram (lower : List Char → List Char) : List (ScoredMemory α) :=
  let bigramsByIdx idx := wordBigrams lower (scored.get idx).content
  ((mmrSelectionOrder scored diversityLambda fun idx chosen =>
    some (bigramJaccardSets (bigramsByIdx idx) (bigramsByIdx chosen))).getD []).map scored.get

def mmrRerankGeneric (similarityFn : String → String → Option ℚ) : List (ScoredMemory α) :=
  match mmrSelectionOrder scored diversityLambda fun idx chosen =>
    similarityFn (scored.get idx).content (scored.get chosen).content with
  | some order => order.map scored.get
  | none => scored

/-- `none` is the `ValueError` of a lambda outside the unit interval. -/
def applyDiversityPenalty (lower : List Char → List Char)
    (similarityFn : Option (String → String → Option ℚ)) : Option (List (ScoredMemory α)) :=
  if diversityLambda < 0 ∨ 1 < diversityLambda then none
  else if scored.length ≤ 1 then some scored
  else match similarityFn with
    | none => some (mmrRerankBigram scored diversityLambda lower)
    | some fn => some (mmrRerankGeneric scored diversityLambda fn)

end

-- ==== the naive order

def naiveMmr (score : ι → ℚ) (diversityLambda : ℚ) (similarity : ι → ι → ℚ) (selected : List ι)
    (idx : ι) : ℚ :=
  diversityLambda * score idx -
    (1 - diversityLambda) * (selected.map (similarity idx)).max?.getD 0

/-- At each step the first maximal entry of what remains. -/
def naiveOrder (value : List ι → ι → ℚ) : Nat → List ι → List ι → List ι
  | 0, _, _ => []
  | fuel + 1, selected, remaining =>
    match remaining.argmax (value selected) with
    | none => []
    | some chosen => chosen :: naiveOrder value fuel (chosen :: selected) (remaining.erase chosen)

theorem naiveOrder_perm (value : List ι → ι → ℚ) : ∀ (fuel : Nat) (selected remaining : List ι),
    remaining.length ≤ fuel → naiveOrder value fuel selected remaining ~ remaining
  | 0, _, remaining, h => by
    rw [length_eq_zero_iff.1 (Nat.le_zero.1 h), naiveOrder]
  | fuel + 1, selected, remaining, h => by
    rw [naiveOrder]
    cases hbest : remaining.argmax (value selected) with
    | none => rw [argmax_eq_none.1 hbest]
    | some chosen =>
      have hmem := argmax_mem hbest
      have hlen := length_erase_of_mem hmem
      exact ((naiveOrder_perm value fuel _ _ (by omega)).cons chosen).trans
        (perm_cons_erase hmem).symm

-- ==== the two agree

omit [DecidableEq ι] in
/-- RUN LEMMA of the scan: it ends on the first maximal entry. -/
theorem bestCandidatePosition_argmax (value : ι → ℚ) (remaining : List ι) :
    remaining[bestCandidatePosition value remaining]? = remaining.argmax value := by
  unfold bestCandidatePosition
  set step := fun (best : Nat × Option ℚ) (x : ι × Nat) =>
    if best.2.all (· < value x.1) then (x.2, some (value x.1)) else best
  suffices h : ∀ l : List ι, (l.zipIdx.foldl step (0, none)).2 = (l.argmax value).map value ∧
      l[(l.zipIdx.foldl step (0, none)).1]? = l.argmax value from (h remaining).2
  intro l
  induction l using reverseRecOn with
  | nil => exact ⟨rfl, rfl⟩
  | append_singleton l idx ih =>
    rw [zipIdx_append, foldl_append, zipIdx_singleton, foldl_cons, foldl_nil, argmax_concat]
    generalize l.zipIdx.foldl step (0, none) = best at ih ⊢
    obtain ⟨hvalue, hat⟩ := ih
    cases hbest : l.argmax value with
    | none => simp_all [step]
    | some c =>
      rw [hbest] at hvalue hat
      by_cases hlt : value c < value idx
      · simp [step, hvalue, hlt]
      · have hbound := (List.getElem?_eq_some_iff.1 hat).1
        simp [step, hvalue, hlt, getElem?_append_left hbound, hat]

/-- The maxima after the chosen entry is folded in. -/
def raised (similarity : ι → Option ℚ) (remaining : List ι) (maxSim : ι → Option ℚ) (idx : ι) :
    Option ℚ :=
  if idx ∈ remaining then
    let s := (similarity idx).getD 0
    some ((maxSim idx).elim s (max · s))
  else maxSim idx

/-- RUN LEMMA of the fold: every remaining entry is asked for, and its maximum raised. -/
theorem foldIn_eq {similarity : ι → Option ℚ} : ∀ {remaining : List ι} (maxSim : ι → Option ℚ),
    remaining.Nodup → foldIn similarity remaining maxSim =
      if ∀ idx ∈ remaining, (similarity idx).isSome then some (raised similarity remaining maxSim)
      else none
  | [], maxSim, _ => by
    have hsame : raised similarity [] maxSim = maxSim := by
      funext idx
      exact if_neg not_mem_nil
    simp [foldIn, hsame]
  | idx :: rest, maxSim, hnodup => by
    obtain ⟨hout, hnodup⟩ := nodup_cons.1 hnodup
    rw [foldIn]
    cases hs : similarity idx with
    | none => simp [hs]
    | some s =>
      have hraised : raised similarity rest
          (update maxSim idx (some ((maxSim idx).elim s (max · s)))) =
          raised similarity (idx :: rest) maxSim := by
        funext idx'
        by_cases heq : idx' = idx
        · subst heq
          simp [raised, hout, hs]
        · simp [raised, heq]
      rw [Option.bind_eq_bind, Option.bind_some, foldIn_eq _ hnodup, hraised]
      simp [hs]

theorem argmax_congr {f g : ι → ℚ} {l : List ι} (h : ∀ a ∈ l, f a = g a) :
    l.argmax f = l.argmax g := by
  ext m
  rw [← Option.mem_def, ← Option.mem_def, mem_argmax_iff, mem_argmax_iff]
  refine and_congr_right fun hm => and_congr ?_ ?_
  · exact forall₂_congr fun a ha => by rw [h a ha, h m hm]
  · exact forall₂_congr fun a ha => by rw [h a ha, h m hm]

section
variable {score : ι → ℚ} {diversityLambda : ℚ} {similarity : ι → ι → Option ℚ}

abbrev rule (score : ι → ℚ) (diversityLambda : ℚ) (similarity : ι → ι → Option ℚ) :
    List ι → ι → ℚ :=
  naiveMmr score diversityLambda fun idx chosen => (similarity idx chosen).getD 0

/-- STEP LEMMA: the maxima raised by the entry chosen are those over all selected. -/
theorem raised_max {selected remaining : List ι} {maxSim : ι → Option ℚ} (chosen : ι)
    (hmax : ∀ idx ∈ remaining,
      maxSim idx = (selected.map fun c => (similarity idx c).getD 0).max?) :
    ∀ idx ∈ remaining.erase chosen,
      raised (similarity · chosen) (remaining.erase chosen) maxSim idx =
        ((chosen :: selected).map fun c => (similarity idx c).getD 0).max? := by
  intro idx hidx
  rw [raised, if_pos hidx, map_cons, max?_cons, hmax idx (mem_of_mem_erase hidx)]
  cases (selected.map fun c => (similarity idx c).getD 0).max? with
  | none => rfl
  | some m => exact congrArg some (max_comm _ _)

variable (score diversityLambda similarity) in
/-- RUN LEMMA of the pass: it follows the naive order, and gives up where a pair is not answered. -/
theorem selectionLoop_eq : ∀ (fuel : Nat) (selected remaining : List ι) (maxSim : ι → Option ℚ),
    remaining.Nodup → remaining.length ≤ fuel →
    (∀ idx ∈ remaining,
      maxSim idx = (selected.map fun c => (similarity idx c).getD 0).max?) →
    let order := naiveOrder (rule score diversityLambda similarity) fuel selected remaining
    selectionLoop score diversityLambda similarity fuel selected.reverse remaining maxSim =
      if order.Pairwise (fun chosen later => (similarity later chosen).isSome) then
        some (selected.reverse ++ order)
      else none
  | 0, selected, remaining, maxSim, _, _, _ => by
    simp [selectionLoop, naiveOrder]
  | fuel + 1, selected, remaining, maxSim, hnodup, hlen, hmax => by
    have hvalue : ∀ idx ∈ remaining,
        mmr score diversityLambda (!selected.reverse.isEmpty) maxSim idx =
          rule score diversityLambda similarity selected idx := by
      intro idx hidx
      rw [mmr, rule, naiveMmr, hmax idx hidx]
      cases selected <;> simp
    have hbest := bestCandidatePosition_argmax
      (mmr score diversityLambda (!selected.reverse.isEmpty) maxSim) remaining
    rw [argmax_congr hvalue] at hbest
    cases hchosen : remaining.argmax (rule score diversityLambda similarity selected) with
    | none =>
      rw [hchosen] at hbest
      simp only [selectionLoop, naiveOrder, hbest, hchosen]
      simp
    | some chosen =>
      rw [hchosen] at hbest
      obtain ⟨hbound, hat⟩ := List.getElem?_eq_some_iff.1 hbest
      have herase := hnodup.erase_getElem _ hbound
      rw [hat] at herase
      have hlen' := length_erase_of_mem (argmax_mem hchosen)
      have hperm := naiveOrder_perm (rule score diversityLambda similarity) fuel
        (chosen :: selected) (remaining.erase chosen) (by omega)
      have hrest := selectionLoop_eq fuel (chosen :: selected) (remaining.erase chosen) _
        (hnodup.erase chosen) (by omega) (raised_max chosen hmax)
      simp only [selectionLoop, naiveOrder, hbest, hchosen, ← herase,
        foldIn_eq maxSim (hnodup.erase chosen), pairwise_cons, hperm.mem_iff]
      rw [reverse_cons] at hrest
      by_cases hall : ∀ idx ∈ remaining.erase chosen, (similarity idx chosen).isSome
      · simp only [eq_true hall, if_true, true_and, Option.bind_eq_bind, Option.bind_some, hrest,
          append_assoc, singleton_append]
      · simp only [eq_false hall, if_false, false_and]
        rfl

end

-- ==== the result

section
variable {α : Type} (scored : List (ScoredMemory α)) (diversityLambda : ℚ)

def naiveRerank (similarity : String → String → ℚ) : List (ScoredMemory α) :=
  (naiveOrder (naiveMmr (scored.get · |>.combinedScore) diversityLambda fun idx chosen =>
      similarity (scored.get idx).content (scored.get chosen).content)
    scored.length [] (finRange scored.length)).map scored.get

def Answered (fn : String → String → Option ℚ) : Prop :=
  (naiveRerank scored diversityLambda fun a b => (fn a b).getD 0).Pairwise fun chosen later =>
    (fn later.content chosen.content).isSome

variable {scored diversityLambda}

theorem naiveRerank_perm (similarity : String → String → ℚ) :
    naiveRerank scored diversityLambda similarity ~ scored := by
  have hperm := (naiveOrder_perm (naiveMmr (scored.get · |>.combinedScore) diversityLambda
    fun idx chosen => similarity (scored.get idx).content (scored.get chosen).content)
    scored.length [] (finRange scored.length) (by simp)).map scored.get
  rwa [map_get_finRange] at hperm

/-- An order of at most one entry cannot be changed. -/
theorem naiveRerank_short (hshort : scored.length ≤ 1) (similarity : String → String → ℚ) :
    naiveRerank scored diversityLambda similarity = scored := by
  match scored, hshort with
  | [], _ => exact (naiveRerank_perm similarity).eq_nil
  | [a], _ => exact perm_singleton.1 (naiveRerank_perm similarity)

/-- The pass from its start. -/
theorem mmrSelectionOrder_eq (similarity : Fin scored.length → Fin scored.length → Option ℚ) :
    let order := naiveOrder (rule (scored.get · |>.combinedScore) diversityLambda similarity)
      scored.length [] (finRange scored.length)
    mmrSelectionOrder scored diversityLambda similarity =
      if order.Pairwise (fun chosen later => (similarity later chosen).isSome) then some order
      else none :=
  selectionLoop_eq _ _ _ _ [] _ (fun _ => none) (nodup_finRange _) (by simp) (fun _ _ => rfl)

theorem mmrRerankGeneric_eq (fn : String → String → Option ℚ)
    [Decidable (Answered scored diversityLambda fn)] :
    mmrRerankGeneric scored diversityLambda fn =
      if Answered scored diversityLambda fn then
        naiveRerank scored diversityLambda fun a b => (fn a b).getD 0
      else scored := by
  have hpairs : Answered scored diversityLambda fn ↔ _ := pairwise_map
  rw [mmrRerankGeneric, mmrSelectionOrder_eq]
  by_cases hall : Answered scored diversityLambda fn
  · rw [if_pos hall, if_pos (hpairs.1 hall)]
    rfl
  · rw [if_neg hall, if_neg (fun h => hall (hpairs.2 h))]

theorem mmrRerankBigram_eq (lower : List Char → List Char) :
    mmrRerankBigram scored diversityLambda lower =
      mmrRerankGeneric scored diversityLambda fun a b => some (bigramJaccard lower a b) := by
  rw [mmrRerankBigram, mmrRerankGeneric, mmrSelectionOrder_eq, mmrSelectionOrder_eq]
  have hall {l : List (Fin scored.length)} {f : Fin scored.length → Fin scored.length → ℚ} :
      l.Pairwise fun chosen later => (some (f later chosen)).isSome :=
    pairwise_of_forall fun _ _ => rfl
  rw [if_pos hall, if_pos hall]
  rfl

theorem applyDiversityPenalty_eq (hlow : 0 ≤ diversityLambda) (hhigh : diversityLambda ≤ 1)
    (lower : List Char → List Char) (fn : String → String → Option ℚ)
    [Decidable (Answered scored diversityLambda fn)] :
    applyDiversityPenalty scored diversityLambda lower (some fn) =
      some (if Answered scored diversityLambda fn then
        naiveRerank scored diversityLambda fun a b => (fn a b).getD 0
      else scored) := by
  rw [applyDiversityPenalty, if_neg (by simp [hlow, hhigh]), ← mmrRerankGeneric_eq]
  split
  next hshort => rw [mmrRerankGeneric_eq, naiveRerank_short hshort, ite_self]
  next => rfl

end

open Classical in
/-- For a finite similarity the result is the naive greedy order, a permutation; the bigram path
is the generic one; a function gives its naive order if every pair is answered as it is asked
for, the later entry first, and the given order if one is not. -/
theorem diversity_reranks {α : Type} (scored : List (ScoredMemory α)) (diversityLambda : ℚ)
    (lower : List Char → List Char) (hlow : 0 ≤ diversityLambda) (hhigh : diversityLambda ≤ 1) :
    (∀ similarity : String → String → ℚ,
      applyDiversityPenalty scored diversityLambda lower (some fun a b => some (similarity a b)) =
        some (naiveRerank scored diversityLambda similarity) ∧
      naiveRerank scored diversityLambda similarity ~ scored) ∧
    applyDiversityPenalty scored diversityLambda lower none =
      applyDiversityPenalty scored diversityLambda lower
        (some fun a b => some (bigramJaccard lower a b)) ∧
    ∀ fn, applyDiversityPenalty scored diversityLambda lower (some fn) =
      some (if Answered scored diversityLambda fn then
        naiveRerank scored diversityLambda fun a b => (fn a b).getD 0
      else scored) := by
  have hexact fn : applyDiversityPenalty scored diversityLambda lower (some fn) = _ :=
    applyDiversityPenalty_eq hlow hhigh lower fn
  refine ⟨fun similarity => ⟨?_, naiveRerank_perm similarity⟩, ?_, hexact⟩
  · have hall : Answered scored diversityLambda fun a b => some (similarity a b) :=
      pairwise_of_forall fun _ _ => rfl
    rw [hexact, if_pos hall]
    rfl
  · rw [applyDiversityPenalty, applyDiversityPenalty]
    simp only [mmrRerankBigram_eq]

def threeEntries : List (ScoredMemory Unit) :=
  [⟨"a", 3, ()⟩, ⟨"b", 1, ()⟩, ⟨"c", 2, ()⟩]

/-- Two entries that say much the same. -/
def alike (x y : String) : ℚ := if x ∈ ["a", "c"] ∧ y ∈ ["a", "c"] then 2 else 0

/-- The alike entry comes last, whatever its relevance. -/
theorem diversity_reranks_three :
    applyDiversityPenalty threeEntries (1 / 2) id (some fun x y => some (alike x y)) =
      some (naiveRerank threeEntries (1 / 2) alike) ∧
    (naiveRerank threeEntries (1 / 2) alike).map (·.content) = ["a", "b", "c"] ∧
    (naiveRerank threeEntries (1 / 2) fun _ _ => 0).map (·.content) = ["a", "c", "b"] :=
  ⟨((diversity_reranks threeEntries (1 / 2) id (by decide +kernel) (by decide +kernel)).1 _).1,
    by decide +kernel, by decide +kernel⟩

/-- The function fails on `("a", "b")`: the pass asks for `("b", "a")` alone, and re-orders. -/
theorem failing_pair_not_asked :
    (fun x y : String => if x = "a" ∧ y = "b" then none else some (0 : ℚ)) "a" "b" = none ∧
    (applyDiversityPenalty threeEntries 1 id (some fun x y =>
        if x = "a" ∧ y = "b" then none else some 0)).map (·.map (·.content)) =
      some ["a", "c", "b"] :=
  ⟨by decide, by decide +kernel⟩

end Synthorg.Memory
