/-
Texts cut at a separator.

A separator that occurs in no segment cuts a text in one way only, so what
was put together with it can be taken apart again.
-/
import Mathlib.Data.List.Basic

namespace Synthorg.Lib

open List

namespace Segments

variable {α : Type*} [DecidableEq α] {sep : α}

variable {xs ys rest rest' : List α}

theorem takeWhile_segment (hxs : sep ∉ xs) (rest : List α) :
    (xs ++ sep :: rest).takeWhile (· ≠ sep) = xs := by
  rw [takeWhile_append_of_pos, takeWhile_cons_of_neg, append_nil]
  · simp
  · intro x hx
    rw [decide_eq_true_eq]
    intro heq
    exact hxs (heq ▸ hx)

theorem cut_unique (hxs : sep ∉ xs) (hys : sep ∉ ys) (h : xs ++ sep :: rest = ys ++ sep :: rest') :
    xs = ys ∧ rest = rest' := by
  have hf : xs = ys := by
    rw [← takeWhile_segment hxs rest, ← takeWhile_segment hys rest', h]
  rw [hf, append_cancel_left_eq, cons.injEq] at h
  exact ⟨hf, h.2⟩

theorem cut_unique_of_prefix {text : List α} (hxs : sep ∉ xs) (hys : sep ∉ ys)
    (h : xs ++ sep :: rest <+: text) (h' : ys ++ sep :: rest' <+: text) : xs = ys := by
  obtain ⟨tail, rfl⟩ := h
  obtain ⟨tail', htail⟩ := h'
  rw [append_assoc, append_assoc] at htail
  exact (cut_unique hxs hys htail.symm).1

theorem cut_unique_last (hrest : sep ∉ rest) (hrest' : sep ∉ rest')
    (h : xs ++ sep :: rest = ys ++ sep :: rest') : xs = ys ∧ rest = rest' := by
  have hrev := congrArg List.reverse h
  simp only [reverse_append, reverse_cons, append_assoc] at hrev
  obtain ⟨hback, hf⟩ := cut_unique (by rwa [mem_reverse]) (by rwa [mem_reverse]) hrev
  exact ⟨reverse_inj.1 hf, reverse_inj.1 hback⟩

end Segments

end Synthorg.Lib
