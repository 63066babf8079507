/-
The conditions of conditional nodes (engine/workflow/condition_eval.py).

A condition is cut into tokens at its parentheses and at the keywords that stand
as words, and the tokens are read by recursive descent. The grammar is written
down apart (`Derives`), with the value each sequence has: what the parser reads
is derived, what is derived the parser reads, and four rounds a token are fuel
enough, so it raises on the other sequences.
-/
import Synthorg.Core.Validation

namespace Synthorg.Workflow.Condition

open Synthorg.Core
open List

-- ==== atoms

/-- What `\w` and `str.strip` know of a character. -/
structure Alphabet where
  isWord : Char → Bool
  isSpace : Char → Bool
  space : isSpace ' ' = true ∧ isWord ' ' = false
  opening : isSpace '(' = false ∧ isWord '(' = false
  closing : isSpace ')' = false ∧ isWord ')' = false
  letter : isSpace 'N' = false

/-- A context value: its `str`, and its `bool`. -/
structure Datum where
  text : List Char
  truthy : Bool

abbrev Context := List Char → Option Datum

variable (A : Alphabet) (context : Context)

def Alphabet.strip (text : List Char) : List Char :=
  ((text.dropWhile A.isSpace).reverse.dropWhile A.isSpace).reverse

/-- The text before and after the first `c=`. -/
def partition (c : Char) : List Char → Option (List Char × List Char)
  | a :: b :: rest =>
    if a = c ∧ b = '=' then some ([], rest)
    else (partition c (b :: rest)).map fun sides => (a :: sides.1, sides.2)
  | _ => none

def evalSides (negated : Bool) (sides : List Char × List Char) : Bool :=
  let key := A.strip sides.1
  let value := A.strip sides.2
  if key = [] ∨ value = [] then false
  else match context key with
    | none => negated
    | some datum => decide (datum.text = value) != negated

/-- An inequality is looked for first. -/
def evalComparison (expr : List Char) : Option Bool :=
  match partition '!' expr with
  | some sides => some (evalSides A context true sides)
  | none => (partition '=' expr).map (evalSides A context false)

def evalAtom (text : List Char) : Bool :=
  let expr := A.strip text
  if expr = [] then false
  else if expr.map Char.toLower = "true".toList then true
  else if expr.map Char.toLower = "false".toList then false
  else match evalComparison A context expr with
    | some result => result
    | none => (context expr).any Datum.truthy

-- ==== the tokenizer

inductive Op
  | or
  | and
  deriving DecidableEq

inductive Token
  | op (op : Op)
  | not
  | opening
  | closing
  | atom (text : List Char)
  deriving DecidableEq

def Op.word : Op → List Char
  | or => "OR".toList
  | and => "AND".toList

def keywords : List (List Char × Token) :=
  [(Op.and.word, .op .and), (Op.or.word, .op .or), ("NOT".toList, .not)]

def after? : List Char → List Char → Option (List Char)
  | [], text => some text
  | k :: word, c :: text => if c.toUpper = k then after? word text else none
  | _ :: _, [] => none

def Alphabet.stands (text word : List Char) : Bool :=
  (after? word text).any fun rest => rest.head?.all fun c => !A.isWord c

def Alphabet.keyword (text : List Char) : Option (List Char × Token) :=
  keywords.find? fun k => A.stands text k.1

def paren (c : Char) : Option Token :=
  if c = '(' then some .opening else if c = ')' then some .closing else none

def Alphabet.flush (collected : List Char) : List Token :=
  if A.strip collected = [] then [] else [.atom (A.strip collected)]

/-- `_tokenize`; `skip` characters are of a keyword cut out already, `inWord` of the last one. -/
def Alphabet.scan : Nat → Bool → List Char → List Char → List Token
  | _, _, collected, [] => A.flush collected
  | skip + 1, _, collected, c :: rest => scan skip (A.isWord c) collected rest
  | 0, inWord, collected, c :: rest =>
    match paren c with
    | some token => A.flush collected ++ token :: scan 0 false [] rest
    | none =>
      match if inWord then none else A.keyword (c :: rest) with
      | some k => A.flush collected ++ k.2 :: scan (k.1.length - 1) true [] rest
      | none => scan 0 (A.isWord c) (collected ++ [c]) rest

def Alphabet.tokenize (text : List Char) : List Token := A.scan 0 false [] text

def Alphabet.hasCompound : Bool → List Char → Bool
  | _, [] => false
  | inWord, c :: rest =>
    (paren c).isSome || (!inWord && (A.keyword (c :: rest)).isSome) ||
      hasCompound (A.isWord c) rest

-- ==== the parser

/-- `_parse_or` and `_parse_and`, the loop of one, `_parse_not`, or `_parse_atom_token`. -/
inductive Goal
  | chain (op : Op)
  | tail (op : Op) (left : Bool)
  | negation
  | operand

def Op.operand : Op → Goal
  | or => .chain .and
  | and => .negation

def Op.apply : Op → Bool → Bool → Bool
  | or, left, right => left || right
  | and, left, right => left && right

inductive ParseError
  | missingOperand
  | unclosedParenthesis
  | unexpectedToken (token : Token)
  | trailingTokens (count : Nat)
  /-- no end of the run was reached; `parse_fuel` rules it out -/
  | outOfFuel
  deriving DecidableEq

def parse (value : List Char → Bool) :
    Nat → Goal → List Token → Except ParseError (Bool × List Token)
  | 0, _, _ => .error .outOfFuel
  | n + 1, .chain op, tokens =>
    parse value n op.operand tokens >>= fun r => parse value n (.tail op r.1) r.2
  | n + 1, .tail op left, tokens =>
    if tokens.head? = some (.op op) then
      parse value n op.operand tokens.tail >>= fun r =>
        parse value n (.tail op (op.apply left r.1)) r.2
    else .ok (left, tokens)
  | n + 1, .negation, tokens =>
    if tokens.head? = some .not then
      parse value n .negation tokens.tail >>= fun r => .ok (!r.1, r.2)
    else parse value n .operand tokens
  | _ + 1, .operand, [] => .error .missingOperand
  | n + 1, .operand, .opening :: rest =>
    parse value n (.chain .or) rest >>= fun r =>
      match r.2 with
      | .closing :: rest => .ok (r.1, rest)
      | _ => .error .unclosedParenthesis
  | _ + 1, .operand, .atom text :: rest => .ok (value text, rest)
  | _ + 1, .operand, token :: _ => .error (.unexpectedToken token)

/-- The compound path. -/
def evalTokens (value : List Char → Bool) (tokens : List Token) : Except ParseError Bool :=
  if tokens = [] then .ok false
  else if 256 < tokens.length then .ok false
  else parse value (4 * tokens.length + 4) (.chain .or) tokens >>= fun r =>
    if r.2 = [] then .ok r.1 else .error (.trailingTokens r.2.length)

/-- The whole expression is `AND`, `OR` or `NOT`. -/
def isKeyword (expr : List Char) : Bool :=
  expr.map Char.toUpper ∈ keywords.map Prod.fst

def evaluateCondition (expression : List Char) : Except ParseError Bool :=
  let expr := A.strip expression
  if expr = [] then .ok false
  else if A.hasCompound false expr = false ∨ isKeyword expr = true then
    .ok (evalAtom A context expr)
  else evalTokens (evalAtom A context) (A.tokenize expr)

-- ==== the grammar

inductive Derives (value : List Char → Bool) : Goal → List Token → Bool → Prop
  | chain (op : Op) (xs ys : List Token) (left v : Bool) (hleft : Derives value op.operand xs left)
      (htail : Derives value (.tail op left) ys v) : Derives value (.chain op) (xs ++ ys) v
  | done (op : Op) (left : Bool) : Derives value (.tail op left) [] left
  | more (op : Op) (xs ys : List Token) (left right v : Bool)
      (hright : Derives value op.operand xs right)
      (htail : Derives value (.tail op (op.apply left right)) ys v) :
      Derives value (.tail op left) (.op op :: (xs ++ ys)) v
  | negated (xs : List Token) (v : Bool) (h : Derives value .negation xs v) :
      Derives value .negation (.not :: xs) (!v)
  | plain (xs : List Token) (v : Bool) (h : Derives value .operand xs v) :
      Derives value .negation xs v
  | group (xs : List Token) (v : Bool) (h : Derives value (.chain .or) xs v) :
      Derives value .operand (.opening :: (xs ++ [.closing])) v
  | atom (text : List Char) : Derives value .operand [.atom text] (value text)

-- ==== the trees

structure Atom (A : Alphabet) where
  text : List Char
  nonempty : text ≠ []
  stripped : A.strip text = text
  simple : A.hasCompound false text = false

inductive Expr (A : Alphabet)
  | atom (a : Atom A)
  | not (e : Expr A)
  | binary (op : Op) (l r : Expr A)

variable {A}

namespace Expr

def value (f : List Char → Bool) : Expr A → Bool
  | atom a => f a.text
  | not e => !e.value f
  | binary op l r => op.apply (l.value f) (r.value f)

/-- With parentheses around every operand. -/
def print : Expr A → List Char
  | atom a => a.text
  | not e => "NOT".toList ++ [' '] ++ '(' :: (e.print ++ [')'])
  | binary op l r =>
    '(' :: (l.print ++ ')' :: (' ' :: op.word ++ [' '] ++ '(' :: (r.print ++ [')'])))

def tokens : Expr A → List Token
  | atom a => [.atom a.text]
  | not e => .not :: .opening :: (e.tokens ++ [.closing])
  | binary op l r =>
    .opening :: (l.tokens ++ .closing :: .op op :: .opening :: (r.tokens ++ [.closing]))

end Expr

-- ==== both agree

variable {context} {value : List Char → Bool} {goal : Goal} {n : Nat} {v left : Bool} {op : Op}
  {xs ys rest tokens : List Token} {p : Char} {token : Token}

def Goal.rank : Goal → Nat
  | chain .or => 4
  | chain .and => 3
  | negation => 2
  | _ => 1

theorem rank_operand (op : Op) : op.operand.rank < (Goal.chain op).rank := by
  cases op <;> decide

theorem rank_le_four (goal : Goal) : goal.rank ≤ 4 := by
  rcases goal with ⟨_ | _⟩ | _ | _ | _ <;> simp [Goal.rank]

/-- SOUNDNESS: what the parser reads is derived. -/
theorem derives_of_parse (h : parse value n goal tokens = .ok (v, rest)) :
    ∃ xs, tokens = xs ++ rest ∧ Derives value goal xs v := by
  induction n generalizing goal tokens v rest with
  | zero => cases h
  | succ n ih =>
    cases goal with
    | chain op =>
      obtain ⟨⟨left, middle⟩, hleft, htail⟩ := (bind_ok_iff _ _ _).1 h
      obtain ⟨xs, rfl, hxs⟩ := ih hleft
      obtain ⟨ys, rfl, hys⟩ := ih htail
      exact ⟨xs ++ ys, (append_assoc ..).symm, .chain op xs ys left v hxs hys⟩
    | tail op left =>
      rw [parse] at h
      split at h
      next hhead =>
        obtain ⟨⟨right, middle⟩, hr, htail⟩ := (bind_ok_iff _ _ _).1 h
        obtain ⟨xs, hs, hxs⟩ := ih hr
        obtain ⟨ys, rfl, hys⟩ := ih htail
        refine ⟨.op op :: (xs ++ ys), ?_, .more op xs ys left right v hxs hys⟩
        rw [cons_append, append_assoc, ← hs]
        exact eq_cons_of_mem_head? hhead
      · cases h
        exact ⟨[], rfl, .done op _⟩
    | negation =>
      rw [parse] at h
      split at h
      next hhead =>
        obtain ⟨⟨inner, middle⟩, hi, hres⟩ := (bind_ok_iff _ _ _).1 h
        obtain ⟨xs, hs, hxs⟩ := ih hi
        cases hres
        refine ⟨.not :: xs, ?_, .negated xs inner hxs⟩
        rw [cons_append, ← hs]
        exact eq_cons_of_mem_head? hhead
      · obtain ⟨xs, hs, hxs⟩ := ih h
        exact ⟨xs, hs, .plain xs v hxs⟩
    | operand =>
      match tokens with
      | .opening :: tokens =>
        obtain ⟨⟨inner, middle⟩, hi, hres⟩ := (bind_ok_iff _ _ _).1 h
        obtain ⟨xs, rfl, hxs⟩ := ih hi
        match middle with
        | .closing :: middle =>
          cases hres
          exact ⟨.opening :: (xs ++ [.closing]), by simp, .group xs _ hxs⟩
      | .atom text :: tokens =>
        cases h
        exact ⟨[.atom text], rfl, .atom text⟩

theorem length_le_of_parse (h : parse value n goal tokens = .ok (v, rest)) :
    rest.length ≤ tokens.length := by
  obtain ⟨xs, rfl, -⟩ := derives_of_parse h
  simp

theorem parse_fuel (hn : 4 * tokens.length + goal.rank ≤ n) :
    parse value n goal tokens ≠ .error .outOfFuel := by
  induction n generalizing goal tokens with
  | zero =>
    have hrank : 0 < goal.rank := by rcases goal with ⟨_ | _⟩ | _ | _ | _ <;> simp [Goal.rank]
    omega
  | succ n ih =>
    -- a goal, and then another on what is left
    have hthen : ∀ (goal : Goal) (tokens : List Token)
        (f : Bool × List Token → Except ParseError (Bool × List Token)),
        4 * tokens.length + goal.rank ≤ n →
        (∀ r : Bool × List Token, r.2.length ≤ tokens.length → f r ≠ .error .outOfFuel) →
          (parse value n goal tokens >>= f) ≠ .error .outOfFuel := by
      intro goal tokens f hgoal hf
      cases hfirst : parse value n goal tokens with
      | error e => exact fun h => ih hgoal (hfirst.trans (congrArg _ (Except.error.inj h)))
      | ok r => exact hf r (length_le_of_parse hfirst)
    cases goal with
    | chain op =>
      have hrank := rank_operand op
      refine hthen _ _ _ (by omega) fun r hr => ih ?_
      have hone : (Goal.tail op r.1).rank = 1 := rfl
      have hfour : 2 ≤ (Goal.chain op).rank := by cases op <;> decide
      omega
    | tail op left =>
      rw [parse]
      split
      next hhead =>
        have hlen : tokens.length = tokens.tail.length + 1 := by
          rw [eq_cons_of_mem_head? hhead]
          rfl
        have hrank := rank_operand op
        have hfour := rank_le_four (.chain op)
        refine hthen _ _ _ (by omega) fun r hr => ih ?_
        have hone : (Goal.tail op (op.apply left r.1)).rank = 1 := rfl
        omega
      · nofun
    | negation =>
      have hrank : Goal.negation.rank = 2 := rfl
      have hone : Goal.operand.rank = 1 := rfl
      rw [parse]
      split
      next hhead =>
        have hlen : tokens.length = tokens.tail.length + 1 := by
          rw [eq_cons_of_mem_head? hhead]
          rfl
        exact hthen _ _ _ (by omega) fun _ _ => nofun
      · exact ih (by omega)
    | operand =>
      match tokens with
      | [] => nofun
      | .opening :: tokens =>
        have hone : Goal.operand.rank = 1 := rfl
        have hfour := rank_le_four (.chain .or)
        refine hthen _ _ _ (by simp only [length_cons] at hn; omega) fun r _ => ?_
        split <;> nofun
      | .atom _ :: _ | .closing :: _ | .not :: _ | .op _ :: _ => nofun

def Ends : Goal → List Token → Prop
  | .chain op, rest | .tail op _, rest =>
    rest.head? ≠ some (.op .and) ∧ (op = .or → rest.head? ≠ some (.op .or))
  | _, _ => True

theorem Ends.not_op (h : Ends (.tail op left) rest) : rest.head? ≠ some (.op op) := by
  cases op
  · exact h.2 rfl
  · exact h.1

theorem Ends.operand (h : Derives value (.tail op left) ys v) (hends : Ends (.tail op left) rest) :
    Ends op.operand (ys ++ rest) := by
  cases op with
  | and => trivial
  | or =>
    cases h with
    | done => exact ⟨hends.1, nofun⟩
    | more => exact ⟨by simp, nofun⟩

/-- COMPLETENESS: what is derived the parser reads. -/
theorem parse_of_derives (h : Derives value goal xs v) (hends : Ends goal rest)
    (hn : 4 * xs.length + goal.rank ≤ n) : parse value n goal (xs ++ rest) = .ok (v, rest) := by
  induction h generalizing rest n with
  | chain op xs ys left v hleft htail ihleft ihtail =>
    have hrank := rank_operand op
    have hone : (Goal.tail op left).rank = 1 := rfl
    have hfour : 2 ≤ (Goal.chain op).rank := by cases op <;> decide
    rw [length_append] at hn
    obtain ⟨n, rfl⟩ : ∃ m, n = m + 1 := ⟨n - 1, by omega⟩
    rw [parse, append_assoc, ihleft (Ends.operand htail hends) (by omega)]
    exact ihtail hends (by omega)
  | done op left =>
    obtain ⟨n, rfl⟩ : ∃ m, n = m + 1 := ⟨n - 1, by simp only [Goal.rank] at hn; omega⟩
    rw [nil_append, parse, if_neg hends.not_op]
  | more op xs ys left right v hr htail ihright ihtail =>
    have hrank := rank_operand op
    have hfour := rank_le_four (.chain op)
    have hone' : (Goal.tail op (op.apply left right)).rank = 1 := rfl
    rw [length_cons, length_append] at hn
    obtain ⟨n, rfl⟩ : ∃ m, n = m + 1 := ⟨n - 1, by omega⟩
    rw [cons_append, parse, head?_cons, if_pos rfl, tail_cons, append_assoc,
      ihright (Ends.operand htail hends) (by omega)]
    exact ihtail hends (by omega)
  | negated xs v h ih =>
    rw [length_cons] at hn
    obtain ⟨n, rfl⟩ : ∃ m, n = m + 1 := ⟨n - 1, by omega⟩
    rw [cons_append, parse, tail_cons, ih trivial (by omega)]
    rfl
  | plain xs v h ih =>
    have hone : Goal.operand.rank = 1 := rfl
    have htwo : Goal.negation.rank = 2 := rfl
    obtain ⟨n, rfl⟩ : ∃ m, n = m + 1 := ⟨n - 1, by omega⟩
    have hhead : (xs ++ rest).head? ≠ some .not := by cases h <;> simp
    rw [parse, if_neg hhead]
    exact ih trivial (by omega)
  | group xs v h ih =>
    have hfour : (Goal.chain .or).rank = 4 := rfl
    simp only [length_cons, length_append] at hn
    obtain ⟨n, rfl⟩ : ∃ m, n = m + 1 := ⟨n - 1, by omega⟩
    rw [cons_append, append_assoc, parse, ih ⟨by simp, fun _ => by simp⟩ (by omega)]
    rfl
  | atom text =>
    obtain ⟨n, rfl⟩ : ∃ m, n = m + 1 := ⟨n - 1, by simp only [Goal.rank] at hn; omega⟩
    rfl

/-- THE PARSER: tokens within the limit have the value the grammar gives, or are refused. -/
theorem evalTokens_ok_iff (hne : tokens ≠ []) (hl : tokens.length ≤ 256) :
    evalTokens value tokens = .ok v ↔ Derives value (.chain .or) tokens v := by
  rw [evalTokens, if_neg hne, if_neg (by omega), bind_ok_iff]
  constructor
  · rintro ⟨⟨w, rest⟩, hp, hres⟩
    obtain ⟨xs, rfl, hxs⟩ := derives_of_parse hp
    dsimp only at hres
    split at hres
    next hrest =>
      cases hres
      rwa [hrest, append_nil]
    · cases hres
  · intro h
    have hends : Ends (.chain .or) [] := ⟨nofun, fun _ => nofun⟩
    have hp := parse_of_derives h hends (le_refl _)
    rw [append_nil] at hp
    exact ⟨(v, []), hp, rfl⟩

theorem evalTokens_fuel (tokens : List Token) : evalTokens value tokens ≠ .error .outOfFuel := by
  rw [evalTokens]
  split
  · nofun
  · split
    · nofun
    · cases hp : parse value (4 * tokens.length + 4) (.chain .or) tokens with
      | error e =>
        have hfuel : 4 * tokens.length + (Goal.chain .or).rank ≤ 4 * tokens.length + 4 := le_rfl
        exact fun h => parse_fuel hfuel (hp.trans (congrArg _ (Except.error.inj h)))
      | ok r =>
        show (if r.2 = [] then Except.ok r.1 else _) ≠ _
        split <;> nofun

-- ==== the cuts

theorem after?_append {word xs ys : List Char} (hp : p.toUpper ∉ word) :
    after? word (xs ++ p :: ys) = (after? word xs).map (· ++ p :: ys) := by
  induction word generalizing xs with
  | nil => rfl
  | cons k word ih =>
    rw [mem_cons, not_or] at hp
    cases xs with
    | nil => exact if_neg hp.1
    | cons c xs =>
      simp only [cons_append, after?]
      split
      · exact ih hp.2
      · rfl

theorem after?_length {word text rest : List Char} (h : after? word text = some rest) :
    word.length ≤ text.length := by
  induction word generalizing text with
  | nil => exact Nat.zero_le _
  | cons k word ih =>
    cases text with
    | nil => cases h
    | cons c text =>
      rw [after?] at h
      split at h
      · exact Nat.succ_le_succ (ih h)
      · cases h

theorem keyword_length {text : List Char} {k : List Char × Token} (h : A.keyword text = some k) :
    0 < k.1.length ∧ k.1.length ≤ text.length := by
  have hs := find?_some (p := fun k : List Char × Token => A.stands text k.1) h
  obtain ⟨rest, hrest, -⟩ := (Option.any_eq_true _ _).1 hs
  refine ⟨?_, after?_length hrest⟩
  have hmem := mem_of_find?_eq_some h
  simp only [keywords, mem_cons, not_mem_nil, or_false] at hmem
  rcases hmem with rfl | rfl | rfl <;> decide

/-- A parenthesis. -/
theorem paren_facts (A : Alphabet) (hp : paren p = some token) :
    A.isWord p = false ∧ ∀ k ∈ keywords, p.toUpper ∉ k.1 := by
  rw [paren] at hp
  split at hp
  next hopening => exact hopening ▸ ⟨A.opening.2, by decide⟩
  · split at hp
    next hc => exact hc ▸ ⟨A.closing.2, by decide⟩
    · cases hp

theorem keyword_append (hp : paren p = some token)
    (xs ys : List Char) : A.keyword (xs ++ p :: ys) = A.keyword xs := by
  obtain ⟨hword, hkey⟩ := paren_facts A hp
  have hs : ∀ word token, (word, token) ∈ keywords →
      A.stands (xs ++ p :: ys) word = A.stands xs word := by
    intro word token hk
    rw [Alphabet.stands, Alphabet.stands, after?_append (hkey _ hk)]
    cases after? word xs with
    | none => rfl
    | some rest => cases rest <;> simp [hword]
  simp only [Alphabet.keyword, keywords, find?_cons, List.find?_nil,
    hs Op.and.word (.op .and) (by decide), hs Op.or.word (.op .or) (by decide),
    hs "NOT".toList .not (by decide)]

theorem scan_cut (hp : paren p = some token) {skip : Nat} {inWord : Bool}
    {collected xs ys : List Char} (hskip : skip ≤ xs.length) :
    A.scan skip inWord collected (xs ++ p :: ys) =
      A.scan skip inWord collected xs ++ token :: A.tokenize ys := by
  induction xs generalizing skip inWord collected with
  | nil =>
    obtain rfl := Nat.le_zero.1 hskip
    simp [Alphabet.scan, hp, Alphabet.tokenize]
  | cons c xs ih =>
    cases skip with
    | succ skip => exact ih (Nat.le_of_succ_le_succ hskip)
    | zero =>
      rw [cons_append, Alphabet.scan, Alphabet.scan, ← cons_append, keyword_append hp]
      cases paren c with
      | some _ => simp [ih (Nat.zero_le _)]
      | none =>
        cases hk : if inWord then none else A.keyword (c :: xs) with
        | none => exact ih (Nat.zero_le _)
        | some k =>
          obtain ⟨hpos, hlen⟩ : 0 < k.1.length ∧ k.1.length ≤ (c :: xs).length := by
            split at hk
            · cases hk
            · exact keyword_length hk
          rw [length_cons] at hlen
          simp [ih (show k.1.length - 1 ≤ xs.length by omega)]

theorem scan_simple {inWord : Bool} {collected text : List Char}
    (h : A.hasCompound inWord text = false) :
    A.scan 0 inWord collected text = A.flush (collected ++ text) := by
  induction text generalizing inWord collected with
  | nil => rw [append_nil, Alphabet.scan]
  | cons c rest ih =>
    simp only [Alphabet.hasCompound, Bool.or_eq_false_iff, Option.isSome_eq_false_iff,
      Option.isNone_iff_eq_none] at h
    obtain ⟨⟨hp, hk⟩, hrest⟩ := h
    have hnone : (if inWord then none else A.keyword (c :: rest)) = none := by
      cases inWord <;> simp_all
    rw [Alphabet.scan, hp, hnone]
    exact (ih hrest).trans (by rw [append_assoc]; rfl)

theorem tokenize_word (word : List Char × Token) (hword : word ∈ keywords) :
    A.tokenize (word.1 ++ [' ']) = [word.2] ∧ A.tokenize (' ' :: word.1 ++ [' ']) = [word.2] := by
  simp only [keywords, mem_cons, not_mem_nil, or_false] at hword
  rcases hword with rfl | rfl | rfl <;>
    simp [Alphabet.tokenize, Alphabet.scan, Alphabet.keyword, keywords, Alphabet.stands, after?,
      Op.word, paren, Alphabet.flush, Alphabet.strip, A.space]

-- ==== what is printed

namespace Expr

theorem tokenize_print (e : Expr A) : A.tokenize e.print = e.tokens := by
  induction e with
  | atom a =>
    rw [print, tokens, Alphabet.tokenize, scan_simple a.simple, nil_append, Alphabet.flush,
      a.stripped, if_neg a.nonempty]
  | not e ih =>
    have hword := (tokenize_word (A := A) ("NOT".toList, .not) (by decide)).1
    rw [Alphabet.tokenize] at hword ih
    rw [print, Alphabet.tokenize, scan_cut (p := '(') rfl (Nat.zero_le _), hword,
      Alphabet.tokenize, scan_cut (p := ')') rfl (Nat.zero_le _), ih]
    rfl
  | binary op l r ihl ihr =>
    have hword := (tokenize_word (A := A) (op.word, .op op) (by cases op <;> decide)).2
    rw [Alphabet.tokenize] at hword ihl ihr
    rw [print, ← nil_append ('(' :: _), Alphabet.tokenize,
      scan_cut (p := '(') rfl (Nat.zero_le _), Alphabet.tokenize,
      scan_cut (p := ')') rfl (Nat.zero_le _), ihl, Alphabet.tokenize,
      scan_cut (p := '(') rfl (Nat.zero_le _), hword, Alphabet.tokenize,
      scan_cut (p := ')') rfl (Nat.zero_le _), ihr]
    rfl

theorem derives_chain {text : List Token} {v : Bool} (op : Op)
    (h : Derives value op.operand text v) : Derives value (.chain op) text v := by
  have hc := Derives.chain op text [] v v h (.done op v)
  rwa [append_nil] at hc

/-- PRECEDENCE: the tokens of a tree have the value of the tree. -/
theorem derives (e : Expr A) (f : List Char → Bool) :
    Derives f (.chain .or) e.tokens (e.value f) := by
  induction e with
  | atom a => exact derives_chain _ (derives_chain _ (.plain _ _ (.atom a.text)))
  | not e ih => exact derives_chain _ (derives_chain _ (.negated _ _ (.plain _ _ (.group _ _ ih))))
  | binary op l r ihl ihr =>
    have hg : ∀ (e : Expr A), Derives f (.chain .or) e.tokens (e.value f) →
        Derives f op.operand (.opening :: (e.tokens ++ [.closing])) (e.value f) := by
      intro e he
      cases op with
      | and => exact .plain _ _ (.group _ _ he)
      | or => exact derives_chain _ (.plain _ _ (.group _ _ he))
    have hc := Derives.chain op _ _ _ _ (hg l ihl)
      (.more op _ [] _ _ _ (hg r ihr) (.done op _))
    have ht : (binary op l r).tokens = .opening :: (l.tokens ++ [.closing]) ++
        .op op :: (.opening :: (r.tokens ++ [.closing]) ++ []) := by simp [tokens]
    rw [ht]
    cases op with
    | or => exact hc
    | and => exact derives_chain _ hc

theorem strip_print (e : Expr A) : A.strip e.print = e.print := by
  cases e with
  | atom a => exact a.stripped
  | not e => simp [print, Alphabet.strip, A.letter, A.closing.1]
  | binary op l r => simp [print, Alphabet.strip, A.opening.1, A.closing.1]

theorem print_cases (e : Expr A) : (∃ a, e = atom a) ∨
    e.print ≠ [] ∧ A.hasCompound false e.print = true ∧ isKeyword e.print = false := by
  have hc : ∀ t ∈ e.tokens, (∀ text, t ≠ .atom text) → A.hasCompound false e.print = true := by
    intro t ht hne
    by_contra hs
    have hscan := tokenize_print e
    rw [Alphabet.tokenize, scan_simple (Bool.eq_false_iff.2 hs), Alphabet.flush] at hscan
    rw [← hscan] at ht
    split at ht
    · cases ht
    · exact hne _ (mem_singleton.1 ht)
  have hlong : 3 < e.print.length → isKeyword e.print = false := by
    intro hlen
    refine decide_eq_false fun hmem => ?_
    obtain ⟨k, hk, heq⟩ := mem_map.1 hmem
    have hthroughout : ∀ k ∈ keywords, k.1.length ≤ 3 := by decide
    have hle := hthroughout k hk
    rw [heq, length_map] at hle
    omega
  cases e with
  | atom a => exact .inl ⟨a, rfl⟩
  | not e =>
    refine .inr ⟨nofun, hc .not (by simp [tokens]) nofun, hlong ?_⟩
    have hthroughout : "NOT".toList.length = 3 := by decide
    simp only [print, length_append, length_cons]
    omega
  | binary op l r =>
    refine .inr ⟨nofun, hc .opening (by simp [tokens]) nofun, hlong ?_⟩
    simp only [print, length_append, length_cons]
    omega

end Expr

-- ==== what a condition evaluates to

theorem tokens_ne_nil (e : Expr A) : e.tokens ≠ [] := by
  cases e <;> nofun

/-- CONDITIONS: an expression that is no lone keyword and has tokens, within the limit, raises
exactly if the grammar does not derive them; a printed tree has the tree's value; and where the
quick path is taken, the compound path gives the same. -/
theorem condition_evaluated (A : Alphabet) (context : Context) :
    (∀ expression, isKeyword (A.strip expression) = false →
      A.tokenize (A.strip expression) ≠ [] → (A.tokenize (A.strip expression)).length ≤ 256 →
        ((∃ e, evaluateCondition A context expression = .error e ∧ e ≠ .outOfFuel) ↔
          ¬ ∃ v, Derives (evalAtom A context) (.chain .or) (A.tokenize (A.strip expression)) v)) ∧
      (∀ e : Expr A, e.tokens.length ≤ 256 →
        evaluateCondition A context e.print = .ok (e.value (evalAtom A context))) ∧
      ∀ expr, A.hasCompound false expr = false → A.strip expr = expr → expr ≠ [] →
        evalTokens (evalAtom A context) (A.tokenize expr) = .ok (evalAtom A context expr) := by
  refine ⟨fun expression hkeyword hne hlimit => ?_, fun e hlimit => ?_,
    fun expr hsimple hstrip hne => ?_⟩
  · have hok : ∀ v, evalTokens (evalAtom A context) (A.tokenize (A.strip expression)) = .ok v ↔ _ :=
      fun _ => evalTokens_ok_iff hne hlimit
    have hempty : A.strip expression ≠ [] := by
      intro hempty
      rw [hempty] at hne
      exact hne (by simp [Alphabet.tokenize, Alphabet.scan, Alphabet.flush, Alphabet.strip])
    by_cases hsimple : A.hasCompound false (A.strip expression) = false
    · have hatom : A.tokenize (A.strip expression) = [.atom (A.strip (A.strip expression))] := by
        rw [Alphabet.tokenize, scan_simple hsimple] at hne ⊢
        exact if_neg fun hblank => hne (if_pos hblank)
      rw [evaluateCondition, if_neg hempty, if_pos (Or.inl hsimple), hatom]
      constructor
      · rintro ⟨e, he, -⟩
        cases he
      · intro hnone
        exact absurd ⟨_, Expr.derives_chain _ (Expr.derives_chain _ (.plain _ _ (.atom _)))⟩ hnone
    · rw [evaluateCondition, if_neg hempty,
        if_neg (by rw [hkeyword]; rintro (h | h); exacts [hsimple h, nomatch h])]
      constructor
      · rintro ⟨e, he, -⟩ ⟨v, hv⟩
        have hvalue := (hok v).2 hv
        rw [he] at hvalue
        cases hvalue
      · intro hnone
        cases hresult : evalTokens (evalAtom A context) (A.tokenize (A.strip expression)) with
        | ok v => exact absurd ⟨v, (hok v).1 hresult⟩ hnone
        | error e =>
          refine ⟨e, rfl, fun hfuel => evalTokens_fuel _ (hresult.trans (by rw [hfuel]))⟩
  · rw [evaluateCondition, Expr.strip_print]
    rcases e.print_cases with ⟨a, rfl⟩ | ⟨hne, hcompound, hkeyword⟩
    · rw [if_neg (show (Expr.atom a).print ≠ [] from a.nonempty)]
      exact if_pos (Or.inl a.simple)
    · rw [if_neg hne, if_neg (by simp [hcompound, hkeyword]), e.tokenize_print,
        evalTokens_ok_iff (tokens_ne_nil e) hlimit]
      exact e.derives _
  · have htokens : A.tokenize expr = [.atom expr] :=
      Expr.tokenize_print (.atom ⟨expr, hne, hstrip, hsimple⟩)
    rw [htokens, evalTokens_ok_iff (by simp) (by simp)]
    exact Expr.derives (.atom ⟨expr, hne, hstrip, hsimple⟩ : Expr A) _

def ascii : Alphabet where
  isWord c := c.isAlphanum || c = '_'
  isSpace := Char.isWhitespace
  space := by decide
  opening := by decide
  closing := by decide
  letter := by decide

/-- `a AND b AND` lacks an operand. -/
theorem condition_evaluated_trailing :
    ∃ e, evaluateCondition ascii (fun _ => none) "a AND b AND".toList = .error e ∧
      e ≠ .outOfFuel :=
  ((condition_evaluated ascii fun _ => none).1 _ (by decide) (by decide) (by decide)).2 (by
    rintro ⟨v, h⟩
    have hread := (evalTokens_ok_iff (by decide) (by decide)).2 h
    cases v <;> exact absurd hread (by decide))

theorem keyword_looked_up :
    ¬ ((∃ e, evaluateCondition ascii (fun _ => none) "NOT".toList = .error e) ↔
      ¬ ∃ v, Derives (evalAtom ascii fun _ => none) (.chain .or)
        (ascii.tokenize (ascii.strip "NOT".toList)) v) := by
  intro h
  obtain ⟨e, he⟩ := h.2 (by
    rintro ⟨v, h⟩
    have hread := (evalTokens_ok_iff (by decide) (by decide)).2 h
    cases v <;> exact absurd hread (by decide))
  cases he

end Synthorg.Workflow.Condition
