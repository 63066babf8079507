/-
Lists chained by a running hash.

Every entry carries the hash it believes to precede it (`prev`), and the running hash moves on by
`link`. `Linked` says that each entry names the hash the entries before it really come to;
`LinkBroken i` says that entry `i` does not. An altered copy is compared with the original at
`agreement`, the length of what they share.
-/
import Mathlib.Data.List.Basic
import Mathlib.Data.List.Induction

namespace Synthorg.Lib

open List

namespace Chained

variable {α η : Type*} (prev : α → η) (link : η → α → η)

-- ==== the running hash

/-- The running hash after `xs`. -/
def tail (h : η) (xs : List α) : η := xs.foldl link h

@[simp]
theorem tail_nil (h : η) : tail link h [] = h := rfl

@[simp]
theorem tail_cons (h : η) (x : α) (xs : List α) :
    tail link h (x :: xs) = tail link (link h x) xs := rfl

theorem tail_append (h : η) (xs ys : List α) :
    tail link h (xs ++ ys) = tail link (tail link h xs) ys := by
  simp only [tail, foldl_append]

variable {h : η} {xs : List α} {i : Nat} {x : α}

theorem tail_take_succ (hx : xs[i]? = some x) :
    tail link h (xs.take (i + 1)) = link (tail link h (xs.take i)) x := by
  rw [take_add_one, hx, tail_append]
  rfl

-- ==== the links

def Linked : η → List α → Prop
  | _, [] => True
  | h, x :: xs => prev x = h ∧ Linked (link h x) xs

/-- Entry `i` names another hash than the one before it comes to. -/
def LinkBroken (h : η) (xs : List α) (i : Nat) : Prop :=
  ∃ x, xs[i]? = some x ∧ prev x ≠ tail link h (xs.take i)

variable {prev link}

theorem linkBroken_zero : LinkBroken prev link h (x :: xs) 0 ↔ prev x ≠ h := by
  simp [LinkBroken]

theorem linkBroken_succ :
    LinkBroken prev link h (x :: xs) (i + 1) ↔ LinkBroken prev link (link h x) xs i := by
  simp [LinkBroken]

theorem linked_iff : Linked prev link h xs ↔ ∀ i, ¬ LinkBroken prev link h xs i := by
  induction xs generalizing h with
  | nil => simp [Linked, LinkBroken]
  | cons x xs ih =>
    rw [Linked, ih]
    constructor
    · intro hl i
      cases i with
      | zero =>
        rw [linkBroken_zero]
        exact not_not_intro hl.1
      | succ i => exact hl.2 i
    · intro hnone
      refine ⟨?_, fun i hi => hnone (i + 1) (linkBroken_succ.2 hi)⟩
      have hzero := hnone 0
      rw [linkBroken_zero] at hzero
      exact of_not_not hzero

theorem Linked.prev_eq (hl : Linked prev link h xs) (hx : xs[i]? = some x) :
    prev x = tail link h (xs.take i) := by
  by_contra hne
  exact linked_iff.1 hl i ⟨x, hx, hne⟩

theorem linked_append {ys : List α} : Linked prev link h (xs ++ ys) ↔
      Linked prev link h xs ∧ Linked prev link (tail link h xs) ys := by
  induction xs generalizing h with
  | nil => simp [Linked]
  | cons x xs ih => rw [cons_append, Linked, Linked, tail_cons, ih, and_assoc]

theorem Linked.snoc (hl : Linked prev link h xs) (hx : prev x = tail link h xs) :
    Linked prev link h (xs ++ [x]) :=
  linked_append.2 ⟨hl, hx, trivial⟩

theorem Linked.take (hl : Linked prev link h xs) (n : Nat) : Linked prev link h (xs.take n) := by
  rw [← take_append_drop n xs, linked_append] at hl
  exact hl.1

theorem tail_satisfies {P : η → Prop} (hP : P h) (hlink : ∀ a x, P (link a x)) (xs : List α) :
    P (tail link h xs) := by
  cases xs using List.reverseRecOn with
  | nil => exact hP
  | append_singleton xs x =>
    rw [tail_append]
    exact hlink _ _

/-- ONE HASH PER LENGTH: where a link names the hash before it and none is the start, lists of
different lengths never come to one hash. -/
theorem length_eq_of_tail_eq {P : η → Prop} (hP : P h) (hlink : ∀ a x, P (link a x))
    (hp : ∀ a x b y, P a → P b → link a x = link b y → a = b) (hs : ∀ a x, link a x ≠ h)
    {ys : List α} (heq : tail link h xs = tail link h ys) : xs.length = ys.length := by
  induction xs using List.reverseRecOn generalizing ys with
  | nil =>
    cases ys using List.reverseRecOn with
    | nil => rfl
    | append_singleton ys y =>
      rw [tail_append] at heq
      exact absurd heq.symm (hs _ _)
  | append_singleton xs x ih =>
    rw [tail_append] at heq
    cases ys using List.reverseRecOn with
    | nil => exact absurd heq (hs _ _)
    | append_singleton ys y =>
      rw [tail_append] at heq
      have hf := hp _ _ _ _ (tail_satisfies hP hlink xs) (tail_satisfies hP hlink ys) heq
      rw [length_append, length_append, ih hf]
      rfl

-- ==== altered copies

section Copies

variable [DecidableEq α]

def agreement : List α → List α → Nat
  | x :: xs, y :: ys => if x = y then agreement xs ys + 1 else 0
  | _, _ => 0

theorem take_agreement (xs ys : List α) :
    ys.take (agreement xs ys) = xs.take (agreement xs ys) := by
  induction xs generalizing ys with
  | nil => simp [agreement]
  | cons x xs ih =>
    cases ys with
    | nil => simp [agreement]
    | cons y ys =>
      rw [agreement]
      split
      next heq => rw [heq, take_succ_cons, take_succ_cons, ih]
      next => rfl

variable {xs ys : List α} {i : Nat}

theorem take_of_le_agreement (hi : i ≤ agreement xs ys) : ys.take i = xs.take i := by
  have h := congrArg (List.take i) (take_agreement xs ys)
  rwa [take_take, take_take, Nat.min_eq_left hi] at h

theorem getElem?_of_lt_agreement (hi : i < agreement xs ys) : ys[i]? = xs[i]? := by
  have h := congrArg (fun l => l[i]?) (take_agreement xs ys)
  rwa [getElem?_take_of_lt hi, getElem?_take_of_lt hi] at h

theorem getElem?_agreement_ne (hne : ys ≠ xs) : ys[agreement xs ys]? ≠ xs[agreement xs ys]? := by
  induction xs generalizing ys with
  | nil =>
    cases ys with
    | nil => exact absurd rfl hne
    | cons y ys => simp [agreement]
  | cons x xs ih =>
    cases ys with
    | nil => simp [agreement]
    | cons y ys =>
      rw [agreement]
      split
      next heq =>
        refine ih fun htls => hne ?_
        rw [heq, htls]
      next hxy =>
        intro h
        rw [getElem?_cons_zero, getElem?_cons_zero, Option.some.injEq] at h
        exact hxy h.symm

theorem agreement_eq {k : Nat} (htake : ys.take k = xs.take k) (hne : ys[k]? ≠ xs[k]?) :
    agreement xs ys = k := by
  have hl : ys ≠ xs := by
    intro h
    rw [h] at hne
    exact hne rfl
  rcases Nat.lt_trichotomy (agreement xs ys) k with hlt | heq | hgt
  · have hsame := congrArg (fun l => l[agreement xs ys]?) htake
    rw [getElem?_take_of_lt hlt, getElem?_take_of_lt hlt] at hsame
    exact absurd hsame (getElem?_agreement_ne hl)
  · exact heq
  · exact absurd (getElem?_of_lt_agreement hgt) hne

theorem not_linkBroken_of_lt {h : η} (hl : Linked prev link h xs) (hi : i < agreement xs ys) :
    ¬ LinkBroken prev link h ys i := by
  rintro ⟨y, hy, hne⟩
  rw [getElem?_of_lt_agreement hi] at hy
  rw [take_of_le_agreement (Nat.le_of_lt hi)] at hne
  exact hne (hl.prev_eq hy)

end Copies

end Chained

end Synthorg.Lib
