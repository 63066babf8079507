/-
Readers of a growing log who go away and come back.

A log `L` without repetitions only grows at its end. A reader joined when it
had `n` entries, and holds a sequence `Q` of entries. `Follows L n Q live`
says what such a reader is owed: some of the entries from before it joined,
in order, then the entries since, without a gap, and all of them while it is
live. A reader that comes back after the last entry it took resumes there
(`resume`), and it follows the log again.
-/
import Mathlib.Data.List.Infix
import Mathlib.Data.List.Nodup

namespace Synthorg.Lib

open List

variable {α : Type*} {L Q T R P S : List α} {n : Nat} {live : Prop} {x : α}

def resumeAfter [DecidableEq α] (x : α) (L : List α) : List α :=
  if x ∈ L then (L.dropWhile (· ≠ x)).tail else L

theorem resumeAfter_split [DecidableEq α] (h : x ∉ P) : resumeAfter x (P ++ x :: S) = S := by
  have hdrop : (P ++ x :: S).dropWhile (· ≠ x) = x :: S := by
    induction P with
    | nil => simp
    | cons y P ih =>
      rw [mem_cons, not_or] at h
      simp only [cons_append, dropWhile_cons]
      rw [if_pos (by simpa using Ne.symm h.1), ih h.2]
  rw [resumeAfter, if_pos (by simp), hdrop, tail_cons]

theorem resumeAfter_absent [DecidableEq α] (h : x ∉ L) : resumeAfter x L = L := by
  simp [resumeAfter, h]

theorem resumeAfter_sublist [DecidableEq α] (x : α) (L : List α) : (resumeAfter x L).Sublist L := by
  rw [resumeAfter]
  split
  · exact (tail_sublist _).trans (dropWhile_sublist _)
  · exact Sublist.refl L

theorem sublist_before (hn : (P ++ x :: S).Nodup) (h : (T ++ [x]).Sublist (P ++ x :: S)) :
    T.Sublist P := by
  obtain ⟨upper, lower, hs, hT, hx⟩ := append_sublist_iff.1 h
  have hl := singleton_sublist.1 hx
  cases append_eq_append_iff.1 hs.symm with
  | inl hlong =>
    obtain ⟨rest, hP, -⟩ := hlong
    rw [hP]
    exact hT.trans (sublist_append_left upper rest)
  | inr hshort =>
    obtain ⟨rest, hu, hrest⟩ := hshort
    cases rest with
    | nil =>
      rw [hu, append_nil] at hT
      exact hT
    | cons y rest =>
      rw [cons_append, cons.injEq] at hrest
      have ht : x ∈ S := by
        rw [hrest.2]
        exact mem_append_right rest hl
      have hcons := (nodup_append.1 hn).2.1
      exact absurd ht (nodup_cons.1 hcons).1

theorem sublist_of_before (hn : (P ++ S).Nodup) (h : Q.Sublist (P ++ S))
    (hb : ∀ y ∈ Q, y ∈ P) : Q.Sublist P := by
  obtain ⟨upper, lower, rfl, hu, hl⟩ := sublist_append_iff.1 h
  cases lower with
  | nil => simpa using hu
  | cons y lower =>
    have hP := hb y (by simp)
    have hS := hl.subset (mem_cons_self)
    exact absurd rfl ((nodup_append.1 hn).2.2 y hP y hS)

/-- What a reader that joined at `n` and holds `Q` was given of a log `L`. -/
structure Follows (L : List α) (n : Nat) (Q : List α) (live : Prop) : Prop where
  joined : n ≤ L.length
  split : ∃ A B, Q = A ++ B ∧ A.Sublist (L.take n) ∧ B <+: L.drop n ∧ (live → B = L.drop n)

namespace Follows

theorem sublist (h : Follows L n Q live) : Q.Sublist L := by
  obtain ⟨A, B, rfl, hA, hB, -⟩ := h.split
  have hboth := hA.append hB.sublist
  rwa [take_append_drop] at hboth

theorem complete (h : Follows L n Q live) (hlive : live) : ∀ y ∈ L.drop n, y ∈ Q := by
  obtain ⟨A, B, rfl, -, -, hall⟩ := h.split
  intro y hy
  rw [← hall hlive] at hy
  exact mem_append_right A hy

theorem weaken {live' : Prop} (h : Follows L n Q live) (hlive : live' → live) :
    Follows L n Q live' := by
  obtain ⟨A, B, hQ, hA, hB, hall⟩ := h.split
  exact ⟨h.joined, A, B, hQ, hA, hB, fun hlive' => hall (hlive hlive')⟩

theorem join (h : Q.Sublist L) : Follows L L.length Q live := by
  refine ⟨Nat.le_refl _, Q, [], by simp, ?_, ?_, ?_⟩
  · rwa [take_length]
  · exact nil_prefix
  · intro _
    simp

theorem given (h : Follows L n Q live) (hlive : live) (x : α) :
    Follows (L ++ [x]) n (Q ++ [x]) live := by
  obtain ⟨A, B, rfl, hA, -, hall⟩ := h.split
  have hB : B ++ [x] = (L ++ [x]).drop n := by
    rw [drop_append_of_le_length h.joined, hall hlive]
  refine ⟨?_, A, B ++ [x], by simp, ?_, ?_, fun _ => hB⟩
  · have hjoin := h.joined
    simp only [length_append]
    omega
  · rwa [take_append_of_le_length h.joined]
  · rw [hB]

theorem missed (h : Follows L n Q live) (hlive : ¬ live) (x : α) : Follows (L ++ [x]) n Q live := by
  obtain ⟨A, B, rfl, hA, hB, -⟩ := h.split
  refine ⟨?_, A, B, rfl, ?_, ?_, fun ha => absurd ha hlive⟩
  · have hjoin := h.joined
    simp only [length_append]
    omega
  · rwa [take_append_of_le_length h.joined]
  · rw [drop_append_of_le_length h.joined]
    exact hB.trans (prefix_append _ _)

/-- After an entry there when the reader joined: some of what was there, and all that came since. -/
theorem rest_split (h : P.length < n) :
    ∃ C, S = C ++ (P ++ x :: S).drop n ∧ (P ++ x :: C) = (P ++ x :: S).take n := by
  obtain ⟨k, rfl⟩ : ∃ k, n = P.length + (k + 1) := ⟨n - P.length - 1, by omega⟩
  refine ⟨S.take k, ?_, ?_⟩
  · rw [drop_length_add_append, drop_succ_cons, take_append_drop]
  · rw [take_length_add_append, take_succ_cons]

theorem late (hd : (P ++ x :: S).Nodup) (h : Follows (P ++ x :: S) n Q live) (hlive : live)
    (hb : ∀ y ∈ Q, y ∈ P) : Follows (P ++ x :: S) n (Q ++ [x]) live := by
  have hsub : Q.Sublist P := sublist_of_before hd h.sublist hb
  have hnone : ∀ y ∈ x :: S, y ∉ (P ++ x :: S).drop n := by
    intro y hy hdrop
    have hP := hb y (h.complete hlive y hdrop)
    exact (nodup_append.1 hd).2.2 y hP y hy rfl
  have hn : P.length < n := by
    by_contra hle
    refine hnone x mem_cons_self ?_
    rw [drop_append_of_le_length (by omega)]
    simp
  obtain ⟨C, hS, htake⟩ := rest_split (S := S) (x := x) hn
  have he : (P ++ x :: S).drop n = [] := by
    rw [eq_nil_iff_forall_not_mem]
    intro y hy
    refine hnone y ?_ hy
    rw [hS]
    exact mem_cons_of_mem x (mem_append_right C hy)
  refine ⟨h.joined, Q ++ [x], [], by simp, ?_, nil_prefix, fun _ => he.symm⟩
  rw [← htake]
  exact hsub.append (by simp)

theorem split_since {A B : List α} (hQ : T ++ x :: R = A ++ B) (hold : x ∉ A) :
    ∃ B', T = A ++ B' ∧ B = B' ++ x :: R := by
  cases append_eq_append_iff.1 hQ with
  | inl hs =>
    obtain ⟨rest, hA, hrest⟩ := hs
    cases rest with
    | nil => exact ⟨[], by simpa using hA.symm, hrest.symm⟩
    | cons y rest =>
      rw [cons_append, cons.injEq] at hrest
      exact absurd (by simp [hA, hrest.1]) hold
  | inr hlong =>
    obtain ⟨B', hT, hB⟩ := hlong
    exact ⟨B', hT, hB⟩

section Resume

variable [DecidableEq α]

theorem prefix_resumed {B : List α} (hd : (P ++ x :: S).Nodup) (hn : n ≤ P.length)
    (hP : x ∉ P) (h : B ++ x :: R <+: (P ++ x :: S).drop n) :
    B ++ x :: S = (P ++ x :: S).drop n := by
  obtain ⟨C, hC⟩ := h
  have hdrop : (P ++ x :: S).drop n = P.drop n ++ x :: S := drop_append_of_le_length hn
  have hB : x ∉ B := by
    intro hx
    have hrun := hd.sublist (drop_sublist n _)
    rw [← hC, append_assoc] at hrun
    exact (nodup_append.1 hrun).2.2 x hx x mem_cons_self rfl
  have hr : x ∉ P.drop n := fun hx => hP (mem_of_mem_drop hx)
  have hsame : R ++ C = S := by
    rw [← resumeAfter_split (S := R ++ C) hB, ← resumeAfter_split (S := S) hr]
    rw [← hdrop, ← hC, append_assoc, cons_append]
  rw [← hC, ← hsame, append_assoc, cons_append]

theorem resume (hd : L.Nodup) (h : Follows L n (T ++ x :: R) live) {live' : Prop} :
    Follows L n (T ++ x :: resumeAfter x L) live' := by
  have hmem : x ∈ L := h.sublist.subset (by simp)
  obtain ⟨P, S, rfl, hP⟩ := eq_append_cons_of_mem hmem
  rw [resumeAfter_split hP]
  by_cases hn : P.length < n
  · -- the entry was there already: so is some of what follows it
    have ht : (T ++ [x]).Sublist (P ++ x :: S) := by
      refine Sublist.trans ?_ h.sublist
      exact (Sublist.refl T).append (singleton_sublist.2 mem_cons_self)
    obtain ⟨C, hS, htake⟩ := rest_split (S := S) (x := x) hn
    refine ⟨h.joined, T ++ x :: C, (P ++ x :: S).drop n, ?_, ?_, prefix_rfl, fun _ => rfl⟩
    · rw [append_assoc, cons_append, ← hS]
    · rw [← htake]
      exact (sublist_before hd ht).append (Sublist.refl _)
  · -- the entry came since: what the reader took of the entries since has no gap
    obtain ⟨A, B, hQ, hA, hB, -⟩ := h.split
    have hold : x ∉ A := by
      intro hx
      have htake := hA.subset hx
      rw [take_append_of_le_length (by omega)] at htake
      exact hP (mem_of_mem_take htake)
    obtain ⟨B', rfl, rfl⟩ := split_since hQ hold
    refine ⟨h.joined, A, B' ++ x :: S, by simp, hA, ?_⟩
    have hall : B' ++ x :: S = (P ++ x :: S).drop n := prefix_resumed hd (by omega) hP hB
    exact ⟨by rw [hall], fun _ => hall⟩

theorem resume_outset (hd : L.Nodup) (h : Follows L n R live) {live' : Prop}
    (hx : x ∉ L.drop n) : Follows L n (resumeAfter x L) live' := by
  by_cases hmem : x ∈ L
  · obtain ⟨P, S, rfl, hP⟩ := eq_append_cons_of_mem hmem
    have hn : P.length < n := by
      by_contra hle
      refine hx ?_
      rw [drop_append_of_le_length (by omega)]
      simp
    obtain ⟨C, hS, htake⟩ := rest_split (S := S) (x := x) hn
    rw [resumeAfter_split hP]
    refine ⟨h.joined, C, (P ++ x :: S).drop n, hS, ?_, prefix_rfl, fun _ => rfl⟩
    rw [← htake]
    exact (sublist_cons_self x C).trans (sublist_append_right P (x :: C))
  · rw [resumeAfter_absent hmem]
    exact ⟨h.joined, L.take n, L.drop n, (take_append_drop n L).symm, Sublist.refl _,
      prefix_rfl, fun _ => rfl⟩

end Resume

end Follows

end Synthorg.Lib
