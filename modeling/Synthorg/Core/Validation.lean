/-
What the models' validators share.

A value with a rule of its own (a `NotBlankStr`, an amount declared `ge=0`) is checked before any
rule between fields, and every such value that breaks its rule is reported at once, by its
location.
-/
import Mathlib.Data.List.Dedup
import Mathlib.Data.List.Sort
import Mathlib.Algebra.Order.Ring.Rat

namespace Synthorg.Core

abbrev Text := List Char

instance : LawfulBEq Text := inferInstance

-- ==== blanks

/-- On one character: what `str.strip()` takes off. -/
def isSpace (c : Char) : Bool :=
  let n := c.toNat
  (0x09 ≤ n && n ≤ 0x0d) || (0x1c ≤ n && n ≤ 0x20) || n == 0x85 ||
    n == 0xa0 || n == 0x1680 || (0x2000 ≤ n && n ≤ 0x200a) ||
    n == 0x2028 || n == 0x2029 || n == 0x202f || n == 0x205f || n == 0x3000

/-- `NotBlankStr`: at least one character, and not only whitespace. -/
def notBlank (s : String) : Bool :=
  s.toList.any fun c => !isSpace c

theorem notBlank_append {s t : String} (h : notBlank s = true) : notBlank (s ++ t) = true := by
  unfold notBlank at h ⊢
  rw [String.toList_append, List.any_append, h, Bool.true_or]

-- ==== ids

/-- A digit of the lower-case hexadecimal `str(UUID)` writes. -/
def isHexDigit (c : Char) : Bool :=
  ('0' ≤ c && c ≤ '9') || ('a' ≤ c && c ≤ 'f')

def isCanonicalUuid (s : String) : Bool :=
  s.length == 36 && s.toList.zipIdx.all fun (c, i) =>
    if i = 8 ∨ i = 13 ∨ i = 18 ∨ i = 23 then c == '-' else isHexDigit c

theorem isHexDigit_not_space {c : Char} (h : isHexDigit c = true) : isSpace c = false := by
  unfold isHexDigit at h
  unfold isSpace
  simp only [Bool.or_eq_true, Bool.and_eq_true, decide_eq_true_eq] at h
  have hr : (48 ≤ c.toNat ∧ c.toNat ≤ 57) ∨ (97 ≤ c.toNat ∧ c.toNat ≤ 102) := h
  simp only [Bool.or_eq_false_iff, Bool.and_eq_false_iff, decide_eq_false_iff_not,
    beq_eq_false_iff_ne]
  omega

theorem notBlank_of_canonical {s : String} (h : isCanonicalUuid s = true) : notBlank s = true := by
  unfold isCanonicalUuid at h
  rw [Bool.and_eq_true] at h
  obtain ⟨hlen, hall⟩ := h
  rw [← String.length_toList] at hlen
  cases hs : s.toList with
  | nil => simp [hs] at hlen
  | cons c rest =>
    rw [hs, List.zipIdx_cons, List.all_cons, Bool.and_eq_true] at hall
    have hd : isHexDigit c = true := hall.1
    unfold notBlank
    rw [hs, List.any_cons, isHexDigit_not_space hd]
    rfl

/-- A `uuid.UUID`, as the text `str()` gives it. -/
structure Uuid where
  text : String
  canonical : isCanonicalUuid text = true
  deriving DecidableEq

@[ext]
theorem Uuid.ext {a b : Uuid} (h : a.text = b.text) : a = b := by
  cases a
  cases h
  rfl

-- ==== datetimes

/-- An ASCII decimal digit's value. -/
def digit? (c : Char) : Option Nat :=
  if '0' ≤ c ∧ c ≤ '9' then some (c.toNat - '0'.toNat) else none

def digits? : Nat → List Char → Option (Nat × List Char)
  | n, cs =>
    let rec go (acc : Nat) : Nat → List Char → Option (Nat × List Char)
      | 0, cs => some (acc, cs)
      | _ + 1, [] => none
      | n + 1, c :: cs =>
        match digit? c with
        | some d => go (acc * 10 + d) n cs
        | none => none
    go 0 n cs

def isLeap (y : Nat) : Bool :=
  y % 4 == 0 && (y % 100 != 0 || y % 400 == 0)

/-- `calendar.monthrange`'s second half; 0 for a month there is not. -/
def daysInMonth (y m : Nat) : Nat :=
  match m with
  | 2 => if isLeap y then 29 else 28
  | 4 | 6 | 9 | 11 => 30
  | 1 | 3 | 5 | 7 | 8 | 10 | 12 => 31
  | _ => 0

def firstWeekday (y : Nat) : Nat :=
  let p := y - 1
  (p * 365 + p / 4 - p / 100 + p / 400) % 7

def weeksInYear (y : Nat) : Nat :=
  if firstWeekday y == 3 || (firstWeekday y == 2 && isLeap y) then 53 else 52

/-- `date(y, m, d)` does not raise. -/
def dateInRange (y m d : Nat) : Bool :=
  1 ≤ y && y ≤ 9999 && 1 ≤ d && d ≤ daysInMonth y m

/-- `date.fromisocalendar` does not raise: the last days of 9999-W52 are too late. -/
def isoWeekInRange (y w d : Nat) : Bool :=
  1 ≤ y && y ≤ 9999 && 1 ≤ w && w ≤ weeksInYear y && 1 ≤ d && d ≤ 7 &&
    !(y == 9999 && w == 52 && 5 < d)

/-- The rests after a date: `YYYY-MM-DD`, `YYYYMMDD`, `YYYY-Www[-D]` or `YYYYWww[D]`. -/
def afterDate (cs : List Char) : List (List Char) :=
  match digits? 4 cs with
  | none => []
  | some (y, rest) =>
    let week (dash : Bool) (cs : List Char) : List (List Char) :=
      match digits? 2 cs with
      | none => []
      | some (w, rest) =>
        let day := match dash, rest with
          | true, '-' :: r => digits? 1 r
          | true, _ => none
          | false, r => digits? 1 r
        (if isoWeekInRange y w 1 then [rest] else []) ++
          match day with
          | some (d, r) => if isoWeekInRange y w d then [r] else []
          | none => []
    match rest with
    | '-' :: 'W' :: r => week true r
    | 'W' :: r => week false r
    | '-' :: r =>
      match digits? 2 r with
      | some (m, '-' :: r) =>
        match digits? 2 r with
        | some (d, r) => if dateInRange y m d then [r] else []
        | none => []
      | _ => []
    | r =>
      match digits? 2 r with
      | some (m, r) =>
        match digits? 2 r with
        | some (d, r) => if dateInRange y m d then [r] else []
        | none => []
      | none => []

/-- A fraction of a second, behind `.` or `,`: at least one digit. -/
def afterFraction : List Char → List Char
  | c :: d :: rest =>
    if (c == '.' || c == ',') && (digit? d).isSome then
      rest.dropWhile fun c => (digit? c).isSome
    else c :: d :: rest
  | cs => cs

/-- `HH[[:]MM[[:]SS[.ffffff]]]`; the separator is used throughout or not at all. -/
def clock? (cs : List Char) : Option ((Nat × Nat × Nat) × List Char) :=
  match digits? 2 cs with
  | none => none
  | some (h, rest) =>
    let sep := rest.head? == some ':'
    let next (cs : List Char) : Option (Nat × List Char) :=
      match sep, cs with
      | true, ':' :: r => digits? 2 r
      | true, _ => none
      | false, r => digits? 2 r
    match next rest with
    | none => some ((h, 0, 0), rest)
    | some (m, rest) =>
      match next rest with
      | none => some ((h, m, 0), rest)
      | some (s, rest) => some ((h, m, s), afterFraction rest)

/-- A UTC offset, or none: `Z`, or a sign and a clock below a day. -/
def isOffset : List Char → Bool
  | [] => true
  | ['Z'] => true
  | c :: rest =>
    (c == '+' || c == '-') &&
      match clock? rest with
      | some ((h, m, s), []) => h < 24 && m < 60 && s < 60
      | _ => false

/-- A time of day with an optional offset. Midnight may be written `24:00`. -/
def isTime (cs : List Char) : Bool :=
  match clock? cs with
  | some ((h, m, s), rest) =>
    ((h < 24 && m < 60 && s < 60) || (h == 24 && m == 0 && s == 0)) &&
      isOffset rest
  | none => false

def isValidIsoDatetime (s : String) : Bool :=
  (afterDate s.toList).any fun
    | [] => true
    | _ :: time => isTime time

example : isValidIsoDatetime "2026-03-31T12:30:00+02:00" = true := by decide
example : isValidIsoDatetime "2026-02-29" = false := by decide

open List

-- ==== field checks

/-- A `NotBlankStr`, an amount with `ge=0`, a number with a lower bound, or a tuple with bounds. -/
inductive FieldValue
  | text (s : String)
  | amount (q : Rat)
  | atLeast (bound value : Int)
  | size (length least : Nat) (most : Option Nat)

def FieldValue.ok : FieldValue → Bool
  | .text s => notBlank s
  | .amount q => 0 ≤ q
  | .atLeast bound value => bound ≤ value
  | .size length least most => least ≤ length && most.all fun m => length ≤ m

theorem FieldValue.ok_size (length least : Nat) (most : Option Nat) :
    (FieldValue.size length least most).ok = true ↔
      least ≤ length ∧ ∀ m, most = some m → length ≤ m := by
  cases most <;> simp [FieldValue.ok]

theorem FieldValue.ok_amount (q : Rat) : (FieldValue.amount q).ok = true ↔ 0 ≤ q := by
  simp [FieldValue.ok]

/-- Where a refused value sits, as pydantic's `loc`. -/
abbrev FieldLoc := List String

def indexed (field : String) (values : List String) : List (FieldLoc × FieldValue) :=
  values.zipIdx.map fun (v, i) => ([field, toString i], .text v)

theorem indexed_ok_iff (field : String) (values : List String) :
    (∀ c ∈ indexed field values, c.2.ok = true) ↔
      ∀ v ∈ values, notBlank v = true := by
  unfold indexed
  rw [forall_mem_map]
  constructor
  · intro h v hv
    rw [← zipIdx_map_fst 0 values] at hv
    obtain ⟨p, hp, rfl⟩ := mem_map.1 hv
    exact h p hp
  · intro h p hp
    exact h p.1 (fst_mem_of_mem_zipIdx hp)

theorem optional_ok_iff (loc : FieldLoc) (value : Option String) :
    (∀ c ∈ value.toList.map (fun s => (loc, FieldValue.text s)), c.2.ok = true) ↔
      ∀ v, value = some v → notBlank v = true := by
  cases value <;> simp [FieldValue.ok]

theorem optional_amount_ok_iff (loc : FieldLoc) (value : Option Rat) :
    (∀ c ∈ value.toList.map (fun q => (loc, FieldValue.amount q)), c.2.ok = true) ↔
      ∀ q, value = some q → 0 ≤ q := by
  cases value <;> simp [FieldValue.ok]

variable {α ε β : Type} {xs : List α} {R : α → β → Prop} {ys : List β} {build : α → Except ε β}

theorem indexed_records_ok_iff (loc : Nat → FieldLoc) (text : α → String) (values : List α) :
    (∀ c ∈ values.zipIdx.map (fun p => (loc p.2, FieldValue.text (text p.1))), c.2.ok = true) ↔
      ∀ v ∈ values, notBlank (text v) = true := by
  rw [forall_mem_map]
  constructor
  · intro h v hv
    rw [← zipIdx_map_fst 0 values] at hv
    obtain ⟨p, hp, rfl⟩ := mem_map.1 hv
    exact h p hp
  · intro h p hp
    exact h p.1 (fst_mem_of_mem_zipIdx hp)

def brokenFields (checked : List (FieldLoc × FieldValue)) : List FieldLoc :=
  (checked.filter fun c => !c.2.ok).map Prod.fst

theorem brokenFields_eq_nil_iff (checked : List (FieldLoc × FieldValue)) :
    brokenFields checked = [] ↔ ∀ c ∈ checked, c.2.ok = true := by
  unfold brokenFields
  simp

-- ==== sequencing

def require {ε : Type} (p : Prop) [Decidable p] (e : ε) : Except ε Unit :=
  if p then .ok () else .error e

@[simp]
theorem require_ok_iff (p : Prop) [Decidable p] (e : ε) : require p e = .ok () ↔ p := by
  unfold require
  split <;> simp_all

@[simp]
theorem bind_unit_ok_iff (x : Except ε Unit) (k : Except ε α) (a : α) :
    (x >>= fun _ => k) = .ok a ↔ x = .ok () ∧ k = .ok a := by
  cases x <;> simp [bind, Except.bind]

/-- Check one after another; the first that fails raises. -/
def requireAll {ε α : Type} (check : α → Except ε Unit) : List α → Except ε Unit
  | [] => .ok ()
  | x :: rest => do
    check x
    requireAll check rest

@[simp]
theorem requireAll_ok_iff (check : α → Except ε Unit) (xs : List α) :
    requireAll check xs = .ok () ↔ ∀ x ∈ xs, check x = .ok () := by
  induction xs with
  | nil => simp [requireAll]
  | cons x rest ih => simp [requireAll, ih]

/-- Build one after another; the first that fails raises. -/
def buildAll {ε α β : Type} (build : α → Except ε β) : List α → Except ε (List β)
  | [] => .ok []
  | x :: rest => do
    let y ← build x
    let ys ← buildAll build rest
    .ok (y :: ys)

theorem bind_ok_iff (x : Except ε α) (k : α → Except ε β) (b : β) :
    (x >>= k) = .ok b ↔ ∃ a, x = .ok a ∧ k a = .ok b := by
  cases x <;> simp [bind, Except.bind]

theorem buildAll_ok_iff (build : α → Except ε β) (xs : List α) (ys : List β) :
    buildAll build xs = .ok ys ↔ Forall₂ (fun x y => build x = .ok y) xs ys := by
  induction xs generalizing ys with
  | nil =>
    rw [forall₂_nil_left_iff, buildAll, Except.ok.injEq]
    exact eq_comm
  | cons x rest ih =>
    unfold buildAll
    simp only [bind_ok_iff, Except.ok.injEq]
    constructor
    · rintro ⟨y, hy, ys, hys, rfl⟩
      exact .cons hy ((ih ys).1 hys)
    · intro h
      obtain ⟨y, ys, hy, hys, rfl⟩ := forall₂_cons_left_iff.1 h
      exact ⟨y, hy, ys, (ih ys).2 hys, rfl⟩

theorem buildAll_of_forall {value : α → β}
    (h : ∀ x ∈ xs, build x = .ok (value x)) : buildAll build xs = .ok (xs.map value) := by
  rw [buildAll_ok_iff]
  induction xs with
  | nil => exact .nil
  | cons x rest ih => exact .cons (h x mem_cons_self) (ih fun z hz => h z (mem_cons_of_mem x hz))

theorem map_eq_of_forall₂ {γ : Type} {f : α → γ} {g : β → γ} (h : Forall₂ R xs ys)
    (ha : ∀ x ∈ xs, ∀ y, R x y → f x = g y) : xs.map f = ys.map g := by
  induction h with
  | nil => rfl
  | cons hxy _ ih =>
    rw [map_cons, map_cons, ha _ mem_cons_self _ hxy,
      ih fun x hx => ha x (mem_cons_of_mem _ hx)]

theorem forall₂_imp_mem {S : α → β → Prop} (h : Forall₂ R xs ys)
    (hi : ∀ x ∈ xs, ∀ y, R x y → S x y) : Forall₂ S xs ys := by
  induction h with
  | nil => exact .nil
  | cons hxy _ ih =>
    exact .cons (hi _ mem_cons_self _ hxy) (ih fun x hx => hi x (mem_cons_of_mem _ hx))

theorem exists_of_forall₂_right (h : Forall₂ R xs ys) {y : β} (hy : y ∈ ys) : ∃ x ∈ xs, R x y := by
  induction h with
  | nil => cases hy
  | cons hxy _ ih =>
    rcases mem_cons.1 hy with rfl | hy
    · exact ⟨_, mem_cons_self, hxy⟩
    · obtain ⟨x, hx, hxy⟩ := ih hy
      exact ⟨x, mem_cons_of_mem _ hx, hxy⟩

theorem exists_buildAll (h : ∀ x ∈ xs, ∃ y, build x = .ok y) :
    ∃ ys, buildAll build xs = .ok ys := by
  induction xs with
  | nil => exact ⟨[], rfl⟩
  | cons x rest ih =>
    obtain ⟨y, hy⟩ := h x mem_cons_self
    obtain ⟨ys, hys⟩ := ih fun z hz => h z (mem_cons_of_mem x hz)
    refine ⟨y :: ys, ?_⟩
    rw [buildAll, hy]
    show (buildAll build rest >>= fun ys => Except.ok (y :: ys)) = _
    rw [hys]
    rfl

-- ==== duplicates

/-- Each repeated entry once, sorted. -/
def duplicates (values : List String) : List String :=
  (values.dedup.filter fun v => 1 < values.count v).insertionSort (· ≤ ·)

theorem duplicates_eq_nil_iff (values : List String) : duplicates values = [] ↔ values.Nodup := by
  have hsort : duplicates values = [] ↔ values.dedup.filter (fun v => 1 < values.count v) = [] := by
    unfold duplicates
    rw [← length_eq_zero_iff, length_insertionSort, length_eq_zero_iff]
  rw [hsort, filter_eq_nil_iff, nodup_iff_count_le_one]
  constructor
  · intro h v
    by_cases hv : v ∈ values
    · have := h v (mem_dedup.2 hv)
      simp only [decide_eq_true_eq] at this
      omega
    · rw [count_eq_zero_of_not_mem hv]
      omega
  · intro h v _
    have := h v
    simp only [decide_eq_true_eq]
    omega

end Synthorg.Core
