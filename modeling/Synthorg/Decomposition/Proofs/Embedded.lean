/-
The JSON object in the prose of a model (engine/decomposition/llm_parse.py).

Whatever the decoder reads as a value the scanner goes through at one depth
(`passes_value`): quotes and braces come in pairs there, and those in strings
are not seen. So the scan of an object ends where it ends. It starts at the
first brace of all, though, and only there.
-/
import Synthorg.Core.Validation
import Mathlib.Data.List.TakeWhile

namespace Synthorg.Decomposition

open List

namespace Embedded

abbrev Text := List Char

-- ==== decoding

/-- A decoded value; numbers and strings are kept as they are written. -/
inductive Json where
  | word (text : Text)
  | str (text : Text)
  | arr (items : List Json)
  | obj (members : List (Text × Json))

def isBlank (c : Char) : Bool := c = ' ' || c = '\t' || c = '\n' || c = '\r'

def skip (text : Text) : Text := text.dropWhile isBlank

def isHex (c : Char) : Bool :=
  c.isDigit || ('a' ≤ c && c ≤ 'f') || ('A' ≤ c && c ≤ 'F')

def stringBody : Text → Option (Text × Text)
  | '"' :: rest => some ([], rest)
  | '\\' :: 'u' :: a :: b :: c :: d :: rest =>
    if isHex a && isHex b && isHex c && isHex d then
      (stringBody rest).map fun (body, rest) => ('\\' :: 'u' :: a :: b :: c :: d :: body, rest)
    else none
  | '\\' :: c :: rest =>
    if c ∈ ['"', '\\', '/', 'b', 'f', 'n', 'r', 't'] then
      (stringBody rest).map fun (body, rest) => ('\\' :: c :: body, rest)
    else none
  | c :: rest =>
    if c = '\\' ∨ c.toNat < 0x20 then none
    else (stringBody rest).map fun (body, rest) => (c :: body, rest)
  | [] => none

def isExponent : Text → Bool
  | [] => true
  | e :: rest =>
    let digits := match rest with
      | '+' :: more | '-' :: more => more
      | _ => rest
    (e = 'e' || e = 'E') && digits ≠ [] && digits.all Char.isDigit

/-- A number as JSON writes it. -/
def isNumber (text : Text) : Bool :=
  let unsigned := match text with
    | '-' :: rest => rest
    | _ => text
  let whole := unsigned.takeWhile Char.isDigit
  (whole = ['0'] || (whole ≠ [] && whole.head? ≠ some '0')) &&
    match unsigned.dropWhile Char.isDigit with
    | '.' :: rest =>
      rest.takeWhile Char.isDigit ≠ [] && isExponent (rest.dropWhile Char.isDigit)
    | rest => isExponent rest

def isWordChar (c : Char) : Bool := c.isAlphanum || c = '-' || c = '+' || c = '.'

/-- A constant or a number: after either, only a character that is in neither may come. -/
def word (text : Text) : Option (Json × Text) :=
  let run := text.takeWhile isWordChar
  if run ∈ ["null", "true", "false", "NaN", "Infinity", "-Infinity"].map String.toList ∨
      isNumber run then
    some (.word run, text.dropWhile isWordChar)
  else none

/-- Nothing, or elements with commas between them; `fuel` is the length of the text. -/
def sequence {α : Type} (element : Text → Option (α × Text)) (close : Char) (text : Text) :
    Option (List α × Text) :=
  match skip text with
  | [] => none
  | c :: rest => if c = close then some ([], rest) else elements text.length (c :: rest)
where
  elements : Nat → Text → Option (List α × Text)
    | 0, _ => none
    | fuel + 1, text => do
      let (first, rest) ← element text
      match skip rest with
      | ',' :: rest => (elements fuel (skip rest)).map fun (more, rest) => (first :: more, rest)
      | c :: rest => if c = close then some ([first], rest) else none
      | [] => none

def member (value : Text → Option (Json × Text)) : Text → Option ((Text × Json) × Text)
  | '"' :: rest => do
    let (key, rest) ← stringBody rest
    match skip rest with
    | ':' :: rest => (value (skip rest)).map fun (value, rest) => ((key, value), rest)
    | _ => none
  | _ => none

/-- A value at the start of a text; `fuel` bounds how deep it nests. -/
def value : Nat → Text → Option (Json × Text)
  | 0, _ => none
  | fuel + 1, text =>
    match text with
    | '"' :: rest => (stringBody rest).map fun (body, rest) => (.str body, rest)
    | '[' :: rest => (sequence (value fuel) ']' rest).map fun (items, rest) => (.arr items, rest)
    | '{' :: rest =>
      (sequence (member (value fuel)) '}' rest).map fun (members, rest) => (.obj members, rest)
    | text => word text

/-- A text nests no deeper than it is long. -/
def loads (text : Text) : Option Json :=
  match value text.length (skip text) with
  | some (decoded, rest) => if skip rest = [] then some decoded else none
  | none => none

-- ==== the scanner

/-- The loop of `_embedded_json_object`: the text up to the brace that closes it. -/
def scan : Nat → Bool → Bool → Text → Option Text
  | _, _, _, [] => none
  | depth, true, true, c :: rest => (scan depth true false rest).map (c :: ·)
  | depth, true, false, c :: rest => (scan depth (c ≠ '"') (c = '\\') rest).map (c :: ·)
  | depth, false, escaped, c :: rest =>
    if c = '"' then (scan depth true escaped rest).map (c :: ·)
    else if c = '{' then (scan (depth + 1) false escaped rest).map (c :: ·)
    else if c = '}' then
      if depth - 1 = 0 then some [c] else (scan (depth - 1) false escaped rest).map (c :: ·)
    else (scan depth false escaped rest).map (c :: ·)

def decodedObject (candidate : Text) : Option (List (Text × Json)) :=
  match loads candidate with
  | some (.obj members) => some members
  | _ => none

/-- From the first opening brace. -/
def embeddedJsonObject (text : Text) : Option (List (Text × Json)) :=
  (scan 0 false false (text.dropWhile (· ≠ '{'))).bind decodedObject

-- ==== one depth

def Passes (text : Text) : Prop :=
  ∀ depth rest, 1 ≤ depth →
    scan depth false false (text ++ rest) = (scan depth false false rest).map (text ++ ·)

def Sound {α : Type} (parse : Text → Option (α × Text)) : Prop :=
  ∀ text decoded rest, parse text = some (decoded, rest) →
    ∃ consumed, text = consumed ++ rest ∧ Passes consumed

theorem Passes.append {xs ys : Text} (hxs : Passes xs) (hys : Passes ys) : Passes (xs ++ ys) := by
  intro depth rest hd
  rw [append_assoc, hxs depth _ hd, hys depth _ hd, Option.map_map]
  congr 1
  funext text
  simp

theorem passes_nil : Passes [] := fun depth rest _ => by simp

theorem passes_plain {c : Char} (h : c ≠ '"' ∧ c ≠ '{' ∧ c ≠ '}') : Passes [c] := by
  intro depth rest _
  simp [scan, h]

theorem passes_plains {text : Text} (h : ∀ c ∈ text, c ≠ '"' ∧ c ≠ '{' ∧ c ≠ '}') :
    Passes text := by
  induction text with
  | nil => exact passes_nil
  | cons c rest ih =>
    exact (passes_plain (h c mem_cons_self)).append (ih fun d hd => h d (mem_cons_of_mem _ hd))

theorem skip_sound (text : Text) : ∃ consumed, text = consumed ++ skip text ∧ Passes consumed := by
  refine ⟨text.takeWhile isBlank, takeWhile_append_dropWhile.symm, passes_plains fun c hc => ?_⟩
  have hb := mem_takeWhile_imp hc
  refine ⟨?_, ?_, ?_⟩ <;> rintro rfl <;> exact absurd hb (by decide)

theorem word_sound : Sound word := by
  intro text decoded rest h
  unfold word at h
  dsimp only at h
  split at h
  · cases h
    refine ⟨_, takeWhile_append_dropWhile.symm, passes_plains fun c hc => ?_⟩
    have hword := mem_takeWhile_imp hc
    refine ⟨?_, ?_, ?_⟩ <;> rintro rfl <;> exact absurd hword (by decide)
  · cases h

theorem isHex_plain {c : Char} (h : isHex c = true) : c ≠ '"' ∧ c ≠ '\\' := by
  constructor <;> rintro rfl <;> exact absurd h (by decide)

theorem scan_stringBody {text body rest : Text} (h : stringBody text = some (body, rest)) :
    ∃ consumed, text = consumed ++ rest ∧ ∀ depth after,
      scan depth true false (consumed ++ after) =
        (scan depth false false after).map (consumed ++ ·) := by
  fun_induction stringBody text generalizing body rest with
  | case1 rest' =>
    cases h
    exact ⟨['"'], rfl, fun depth after => by simp [scan]⟩
  | case2 a b c d rest' hhex ih =>
    obtain ⟨⟨inner, rest''⟩, hi, heq⟩ := Option.map_eq_some_iff.1 h
    cases heq
    obtain ⟨consumed, rfl, hscan⟩ := ih hi
    simp only [Bool.and_eq_true] at hhex
    refine ⟨'\\' :: 'u' :: a :: b :: c :: d :: consumed, rfl, fun depth after => ?_⟩
    simp [scan, hscan, isHex_plain hhex.1.1.1, isHex_plain hhex.1.1.2, isHex_plain hhex.1.2,
      isHex_plain hhex.2, Function.comp_def]
  | case3 => cases h
  | case4 c rest' ho hmem ih =>
    obtain ⟨⟨inner, rest''⟩, hi, heq⟩ := Option.map_eq_some_iff.1 h
    cases heq
    obtain ⟨consumed, rfl, hscan⟩ := ih hi
    refine ⟨'\\' :: c :: consumed, rfl, fun depth after => ?_⟩
    simp [scan, hscan, Function.comp_def]
  | case5 | case6 => cases h
  | case7 c rest' hq _ he hp ih =>
    obtain ⟨⟨inner, rest''⟩, hi, heq⟩ := Option.map_eq_some_iff.1 h
    cases heq
    obtain ⟨consumed, rfl, hscan⟩ := ih hi
    refine ⟨c :: consumed, rfl, fun depth after => ?_⟩
    have hne : c ≠ '"' := fun heq => hq heq
    simp [scan, hscan, hne, (not_or.1 hp).1, Function.comp_def]
  | case8 => cases h

variable {α : Type} {element : Text → Option (α × Text)} {close : Char} {text rest : Text}
  {items : List α}

theorem elements_sound (helem : Sound element) {fuel : Nat}
    (h : sequence.elements element close fuel text = some (items, rest)) :
    ∃ body, text = body ++ close :: rest ∧ Passes body := by
  induction fuel generalizing text items with
  | zero => cases h
  | succ fuel ih =>
    rw [sequence.elements, Option.bind_eq_bind, Option.bind_eq_some_iff] at h
    obtain ⟨⟨first, text'⟩, hf, h⟩ := h
    obtain ⟨consumed, rfl, hcons⟩ := helem _ _ _ hf
    obtain ⟨blanks, hb, hskip⟩ := skip_sound text'
    dsimp only at h
    split at h
    next text'' hcmm =>
      obtain ⟨⟨more, rest'⟩, hmore, heq⟩ := Option.map_eq_some_iff.1 h
      cases heq
      obtain ⟨body, hbody, hpass⟩ := ih hmore
      obtain ⟨blanks', hb', hskip'⟩ := skip_sound text''
      refine ⟨consumed ++ (blanks ++ ([','] ++ (blanks' ++ body))), ?_,
        hcons.append (hskip.append ((passes_plain (by decide)).append (hskip'.append hpass)))⟩
      rw [hb, hcmm, hb', hbody]
      simp
    next c text'' _ ho =>
      split at h
      next hc =>
        cases h
        refine ⟨consumed ++ blanks, ?_, hcons.append hskip⟩
        rw [hb, ho, hc]
        simp
      · cases h
    · cases h

theorem sequence_sound (helem : Sound element)
    (h : sequence element close text = some (items, rest)) :
    ∃ body, text = body ++ close :: rest ∧ Passes body := by
  obtain ⟨blanks, hb, hskip⟩ := skip_sound text
  unfold sequence at h
  split at h
  · cases h
  next c text' hf =>
    split at h
    next hc =>
      cases h
      exact ⟨blanks, by rw [hb, hf, hc], hskip⟩
    · obtain ⟨body, hbody, hpass⟩ := elements_sound helem h
      refine ⟨blanks ++ body, ?_, hskip.append hpass⟩
      rw [hb, hf, hbody, append_assoc]

theorem passes_string {consumed : Text} (h : ∀ depth after,
    scan depth true false (consumed ++ after) =
      (scan depth false false after).map (consumed ++ ·)) : Passes ('"' :: consumed) := by
  intro depth rest _
  simp [scan, h, Function.comp_def]

theorem member_sound {value : Text → Option (Json × Text)} (hval : Sound value) :
    Sound (member value) := by
  intro text decoded rest h
  unfold member at h
  split at h
  next text' =>
    rw [Option.bind_eq_bind, Option.bind_eq_some_iff] at h
    obtain ⟨⟨key, text''⟩, hkey, h⟩ := h
    obtain ⟨consumed, rfl, hscan⟩ := scan_stringBody hkey
    obtain ⟨blanks, hb, hskip⟩ := skip_sound text''
    dsimp only at h
    split at h
    next text3 hc =>
      obtain ⟨⟨item, rest'⟩, hitem, heq⟩ := Option.map_eq_some_iff.1 h
      cases heq
      obtain ⟨blanks', hb', hskip'⟩ := skip_sound text3
      obtain ⟨body, hbody, hpass⟩ := hval _ _ _ hitem
      refine ⟨'"' :: consumed ++ (blanks ++ ([':'] ++ (blanks' ++ body))), ?_,
        (passes_string hscan).append
          (hskip.append ((passes_plain (by decide)).append (hskip'.append hpass)))⟩
      rw [hb, hc, hb', hbody]
      simp
    · cases h
  · cases h

/-- THE SCANNER KEEPS ITS DEPTH over whatever the decoder reads as a value. -/
theorem value_sound (fuel : Nat) : Sound (value fuel) := by
  induction fuel with
  | zero => exact nofun
  | succ fuel ih =>
    intro text decoded rest h
    unfold value at h
    split at h
    next text' =>
      obtain ⟨⟨body, rest'⟩, hbody, heq⟩ := Option.map_eq_some_iff.1 h
      cases heq
      obtain ⟨consumed, rfl, hscan⟩ := scan_stringBody hbody
      exact ⟨'"' :: consumed, rfl, passes_string hscan⟩
    next text' =>
      obtain ⟨⟨items, rest'⟩, hitems, heq⟩ := Option.map_eq_some_iff.1 h
      cases heq
      obtain ⟨body, rfl, hpass⟩ := sequence_sound ih hitems
      refine ⟨['['] ++ (body ++ [']']), by simp, ?_⟩
      exact (passes_plain (by decide)).append (hpass.append (passes_plain (by decide)))
    next text' =>
      obtain ⟨⟨members, rest'⟩, hm, heq⟩ := Option.map_eq_some_iff.1 h
      cases heq
      obtain ⟨body, rfl, hpass⟩ := sequence_sound (member_sound ih) hm
      refine ⟨'{' :: body ++ ['}'], by simp, fun depth after hd => ?_⟩
      have hback : depth ≠ 0 := Nat.ne_of_gt hd
      simp [scan, hpass (depth + 1) _ (Nat.le_add_left 1 depth), hback, Function.comp_def]
    next => exact word_sound _ _ _ h

-- ==== the object

def IsObject (text : Text) : Prop :=
  ∃ members, value text.length text = some (.obj members, [])

theorem IsObject.spec {object : Text} (h : IsObject object) :
    ∃ body members, object = '{' :: body ++ ['}'] ∧ Passes body ∧
      decodedObject object = some members := by
  obtain ⟨members, hval⟩ := h
  cases object with
  | nil => cases hval
  | cons c rest =>
    have hread := hval
    simp only [length_cons] at hread
    unfold value at hread
    split at hread
    next => simp at hread
    next => simp at hread
    next rest' heq =>
      cases heq
      obtain ⟨⟨members', rest''⟩, hm, heq⟩ := Option.map_eq_some_iff.1 hread
      cases heq
      obtain ⟨body, rfl, hpass⟩ := sequence_sound (member_sound (value_sound _)) hm
      refine ⟨body, members, rfl, hpass, ?_⟩
      have hskip : skip ('{' :: (body ++ ['}'])) = '{' :: (body ++ ['}']) := by
        simp [skip, isBlank]
      rw [decodedObject, loads, hskip, hval]
      rfl
    next =>
      unfold word at hread
      dsimp only at hread
      split at hread <;> simp at hread

theorem scan_opening {depth : Nat} {inString escaped : Bool} {text candidate : Text}
    (h : scan depth inString escaped text = some candidate) : candidate <+: text := by
  induction text generalizing depth inString escaped candidate with
  | nil => cases h
  | cons c rest ih =>
    have hstep : ∀ {d b e}, (scan d b e rest).map (c :: ·) = some candidate →
        candidate <+: c :: rest := by
      intro d b e hmap
      obtain ⟨tail, htail, rfl⟩ := Option.map_eq_some_iff.1 hmap
      exact cons_prefix_cons.2 ⟨rfl, ih htail⟩
    cases inString with
    | true => cases escaped <;> exact hstep h
    | false =>
      rw [scan] at h
      split at h
      · exact hstep h
      · split at h
        · exact hstep h
        · split at h
          · split at h
            · cases h
              exact ⟨rest, rfl⟩
            · exact hstep h
          · exact hstep h

/-- THE FIRST BRACE DECIDES: the one complete object of a text is returned exactly where no
brace stands in the prose before it. -/
theorem embedded_iff {pre object post : Text} (hobject : IsObject object)
    (hpre : ∀ a b, pre = a ++ '{' :: b → ∀ candidate,
      candidate <+: '{' :: b ++ object ++ post → decodedObject candidate = none) :
    embeddedJsonObject (pre ++ object ++ post) = decodedObject object ↔ '{' ∉ pre := by
  obtain ⟨body, members, hbody, hpasses, hdecoded⟩ := hobject.spec
  constructor
  · intro h hmem
    obtain ⟨a, b, rfl, ha⟩ := eq_append_cons_of_mem hmem
    have hdrop : ((a ++ '{' :: b) ++ object ++ post).dropWhile (· ≠ '{') =
        '{' :: b ++ object ++ post := by
      rw [append_assoc, append_assoc, dropWhile_append_of_pos]
      · simp
      · intro c hc
        exact decide_eq_true fun heq => ha (heq ▸ hc)
    rw [embeddedJsonObject, hdrop, hdecoded, Option.bind_eq_some_iff] at h
    obtain ⟨candidate, hscan, hmembers⟩ := h
    simp [hpre a b rfl candidate (scan_opening hscan)] at hmembers
  · intro hnot
    have hdrop : (pre ++ object ++ post).dropWhile (· ≠ '{') = '{' :: (body ++ '}' :: post) := by
      rw [append_assoc, dropWhile_append_of_pos, hbody]
      · simp
      · intro c hc
        exact decide_eq_true fun heq => hnot (heq ▸ hc)
    have hscan : scan 0 false false ('{' :: (body ++ '}' :: post)) = some object := by
      simp [scan, hpasses 1 _ (Nat.le_refl 1), hbody]
    rw [embeddedJsonObject, hdrop, hscan, Option.bind_some]

/-- A plan after a sentence. -/
theorem embedded_iff_plain :
    embeddedJsonObject ("Plan: ".toList ++ "\x7b\"a\": [1, \"\x7d\"]\x7d".toList ++
      " Done.".toList) =
      decodedObject "\x7b\"a\": [1, \"\x7d\"]\x7d".toList :=
  have hfree : '{' ∉ "Plan: ".toList := by decide
  (embedded_iff ⟨_, rfl⟩ (fun a _ h => absurd (h ▸ mem_append_right a mem_cons_self)
    hfree)).2 hfree

def strayPair : Text := "\x7bx\x7d ".toList

def smallObject : Text := "\x7b\"a\": 1\x7d".toList

/-- It is lost, though no brace before it opens an object. -/
theorem embedded_lost : ¬ ∀ pre object post : Text, IsObject object →
      (∀ a b, pre = a ++ '{' :: b → ∀ candidate,
        candidate <+: '{' :: b ++ object ++ post → decodedObject candidate = none) →
      embeddedJsonObject (pre ++ object ++ post) = decodedObject object := by
  intro hclaim
  have hnone : ∀ n < 13, (decodedObject ((strayPair ++ smallObject ++ []).take n)).isNone := by
    decide
  have h := hclaim strayPair smallObject [] ⟨_, rfl⟩ fun a b hsplit candidate hprefix => by
    cases a with
    | nil =>
      rw [← nil_append ('{' :: b), ← hsplit] at hprefix
      have hlength : candidate.length ≤ 12 := hprefix.length_le
      have hread := hnone candidate.length (by omega)
      rw [← prefix_iff_eq_take.1 hprefix] at hread
      exact Option.isNone_iff_eq_none.1 hread
    | cons c a =>
      have hmem : '{' ∈ strayPair.tail := by
        rw [hsplit]
        exact mem_append_right a mem_cons_self
      exact absurd hmem (by decide)
  exact absurd (congrArg Option.isSome h) (by decide)

end Embedded

end Synthorg.Decomposition
