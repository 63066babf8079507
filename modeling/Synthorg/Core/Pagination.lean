/-
Draining a paginated read (core/pagination.py).

A sweep ends at the first short page and is refused after `MAX_DRAIN_PAGES` full ones. So a
repository that clamps a page below what it was asked for ends it with rows still to come.
-/
import Mathlib.Data.List.Basic

namespace Synthorg.Core

open List

def MAX_LIST_LIMIT : Nat := 10000

def MAX_DRAIN_PAGES : Nat := 1000

inductive QueryError
  | pageSize (pageSize : Int)
  | stuckDrain (pages pageSize : Nat)

variable {α γ : Type} (add : γ → α → γ)

/-- `paginate` from `offset` on, each page folded as it comes. An empty page is a short one. -/
def paginate (fetch : Nat → Nat → List α) (size : Nat) : Nat → Nat → γ → Except QueryError γ
  | 0, _, _ => .error (.stuckDrain MAX_DRAIN_PAGES size)
  | left + 1, offset, collected =>
    let page := fetch size offset
    if page.length < size then .ok (page.foldl add collected)
    else paginate fetch size left (offset + size) (page.foldl add collected)

/-- `collect_all` and `collect_all_mapping`: `add` appends a row, or writes a key. -/
def collectAll (fetch : Nat → Nat → List α) (pageSize : Int) (empty : γ) : Except QueryError γ :=
  if pageSize < 1 then .error (.pageSize pageSize)
  else paginate add fetch (min pageSize.toNat MAX_LIST_LIMIT) MAX_DRAIN_PAGES 0 empty

/-- A repository of `rows` that serves no page above `clamp`. -/
def listItems (rows : List α) (clamp limit offset : Nat) : List α :=
  (rows.drop offset).take (min limit clamp)

theorem paginate_listItems (rows : List α) {clamp size : Nat} (hle : size ≤ clamp)
    (left offset : Nat) (collected : γ) :
    paginate add (listItems rows clamp) size left offset collected =
      if (rows.drop offset).length < left * size then .ok ((rows.drop offset).foldl add collected)
      else .error (.stuckDrain MAX_DRAIN_PAGES size) := by
  induction left generalizing offset collected with
  | zero => simp [paginate]
  | succ left ih =>
    have hall := take_append_drop size (rows.drop offset)
    unfold paginate
    dsimp only
    rw [ih, listItems, Nat.min_eq_left hle, ← drop_drop, ← foldl_append, length_drop,
      Nat.succ_mul]
    generalize rows.drop offset = rest at hall ⊢
    by_cases hshort : rest.length < size
    · rw [take_of_length_le (Nat.le_of_lt hshort), if_pos hshort, if_pos (by omega)]
    · rw [hall, length_take, if_neg (by omega)]
      exact if_congr (by omega) rfl rfl

/-- A DRAIN RETURNS EVERY ROW, once and in order, exactly of fewer than the cap's full pages; a
clamp below the page size cuts it off at the first page. -/
theorem collectAll_listItems (rows : List α) (clamp : Nat) (pageSize : Int) (empty : γ) :
    collectAll add (listItems rows clamp) pageSize empty =
      let size := min pageSize.toNat MAX_LIST_LIMIT
      if pageSize < 1 then .error (.pageSize pageSize)
      else if clamp < size then .ok ((rows.take clamp).foldl add empty)
      else if rows.length < MAX_DRAIN_PAGES * size then .ok (rows.foldl add empty)
      else .error (.stuckDrain MAX_DRAIN_PAGES size) := by
  unfold collectAll
  generalize min pageSize.toNat MAX_LIST_LIMIT = size
  refine if_congr Iff.rfl rfl ?_
  by_cases hclamp : clamp < size
  · rw [if_pos hclamp, MAX_DRAIN_PAGES, paginate, listItems, Nat.min_eq_right (Nat.le_of_lt hclamp)]
    exact if_pos (by rw [length_take, length_drop]; omega)
  · rw [if_neg hclamp]
    exact paginate_listItems add rows (Nat.le_of_not_lt hclamp) _ 0 empty

end Synthorg.Core
