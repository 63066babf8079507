/-
The entries of a list at chosen indices.

`pick p n xs` keeps the entries of `xs` whose index, counted from `n`,
satisfies `p`. Counting from `n` is what lets a list be cut: each part is
picked from where it starts, and an index set that moved with a part picks
the same entries there.
-/
import Mathlib.Data.List.Basic

namespace Synthorg.Lib

open List

variable {α : Type*} {p q : Nat → Prop} [DecidablePred p] [DecidablePred q]

/-- The entries at the indices that satisfy `p`, counted from `n`. -/
def pick (p : Nat → Prop) [DecidablePred p] : Nat → List α → List α
  | _, [] => []
  | n, x :: xs => if p n then x :: pick p (n + 1) xs else pick p (n + 1) xs

theorem pick_append (n : Nat) (xs ys : List α) :
    pick p n (xs ++ ys) = pick p n xs ++ pick p (n + xs.length) ys := by
  induction xs generalizing n with
  | nil => rfl
  | cons x xs ih =>
    rw [cons_append, pick, pick, ih, Nat.add_right_comm]
    split <;> rfl

variable {n : Nat} {xs : List α}

/-- Two choices that agree on the indices, each from its own start, pick the same. -/
theorem pick_congr {m : Nat} (h : ∀ i, i < xs.length → (p (n + i) ↔ q (m + i))) :
    pick p n xs = pick q m xs := by
  induction xs generalizing n m with
  | nil => rfl
  | cons x xs ih =>
    have hhead : p n ↔ q m := h 0 (Nat.zero_lt_succ _)
    have htail : pick p (n + 1) xs = pick q (m + 1) xs := by
      apply ih
      intro i hi
      rw [Nat.add_right_comm n, Nat.add_right_comm m]
      exact h (i + 1) (Nat.succ_lt_succ hi)
    rw [pick, pick, htail]
    by_cases hp : p n
    · rw [if_pos hp, if_pos (hhead.1 hp)]
    · rw [if_neg hp, if_neg (fun hq => hp (hhead.2 hq))]

theorem pick_all (h : ∀ i, i < xs.length → p (n + i)) : pick p n xs = xs := by
  induction xs generalizing n with
  | nil => rfl
  | cons x xs ih =>
    have hhead : p n := h 0 (Nat.zero_lt_succ _)
    rw [pick, if_pos hhead, ih]
    intro i hi
    rw [Nat.add_right_comm]
    exact h (i + 1) (Nat.succ_lt_succ hi)

theorem pick_none (h : ∀ i, i < xs.length → ¬ p (n + i)) : pick p n xs = [] := by
  induction xs generalizing n with
  | nil => rfl
  | cons x xs ih =>
    have hhead : ¬ p n := h 0 (Nat.zero_lt_succ _)
    rw [pick, if_neg hhead, ih]
    intro i hi
    rw [Nat.add_right_comm]
    exact h (i + 1) (Nat.succ_lt_succ hi)

theorem pick_sublist (n : Nat) (xs : List α) : (pick p n xs).Sublist xs := by
  induction xs generalizing n with
  | nil => exact Sublist.refl _
  | cons x xs ih =>
    rw [pick]
    split
    next => exact (ih (n + 1)).cons_cons x
    next => exact (ih (n + 1)).cons x

theorem length_pick_add_length_pick_not (n : Nat) (xs : List α) :
    (pick p n xs).length + (pick (fun i => ¬ p i) n xs).length = xs.length := by
  induction xs generalizing n with
  | nil => rfl
  | cons x xs ih =>
    have htail := ih (n + 1)
    by_cases hp : p n
    · rw [pick, if_pos hp, pick, if_neg (not_not_intro hp)]
      simp only [length_cons]
      omega
    · rw [pick, if_neg hp, pick, if_pos hp]
      simp only [length_cons]
      omega

theorem filterMap_range' (before xs after : List α) :
    ((List.range' before.length xs.length).filter fun i => decide (p i)).filterMap
        ((before ++ xs ++ after)[·]?) = pick p before.length xs := by
  induction xs generalizing before with
  | nil => rfl
  | cons x xs ih =>
    have htail := ih (before ++ [x])
    rw [length_append, length_singleton, append_assoc before [x], singleton_append] at htail
    have hhead : (before ++ (x :: xs) ++ after)[before.length]? = some x := by
      rw [append_assoc, getElem?_append_right (Nat.le_refl _), Nat.sub_self]
      rfl
    rw [length_cons, List.range'_succ, filter_cons, pick]
    by_cases hp : p before.length
    · rw [if_pos (decide_eq_true hp), if_pos hp, filterMap_cons, hhead, htail]
    · rw [if_neg (by simpa using hp), if_neg hp, htail]

end Synthorg.Lib
