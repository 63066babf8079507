/-
Timed events: a log of which the latest is kept, and events that keep their
distance.

A list of times, newest first, is PACED when each event came while fewer than
`n` of the earlier ones lay within `width` before it. No stretch of that width
then holds more than `n` of them: the newest event of the stretch counted all
the others when it came.
-/
import Mathlib.Algebra.Order.Group.Basic
import Mathlib.Data.List.Induction

namespace Synthorg.Lib

open List

namespace Window

section Log
variable {α K : Type*} [LinearOrder K] {time : α → K} {cutoff cutoff' clock clock' bound : K}
  {log kept : List α}

def since (time : α → K) (cutoff : K) (log : List α) : List α :=
  log.filter fun entry => cutoff < time entry

def InOrder (time : α → K) (log : List α) : Prop := log.Pairwise (time · ≤ time ·)

theorem since_append (log log' : List α) :
    since time cutoff (log ++ log') = since time cutoff log ++ since time cutoff log' :=
  filter_append ..

theorem since_since (log : List α) :
    since time cutoff (since time cutoff' log) = since time (max cutoff cutoff') log := by
  rw [since, since, since, filter_filter]
  exact filter_congr fun entry _ => by simp

theorem since_eq_nil_of_le (h : ∀ entry ∈ log, time entry ≤ cutoff) :
    since time cutoff log = [] := by
  rw [since, filter_eq_nil_iff]
  intro entry he
  simpa using h entry he

theorem InOrder.le_last {last : α} (h : InOrder time (log ++ [last])) :
    ∀ entry ∈ log ++ [last], time entry ≤ time last := by
  rw [forall_mem_append, forall_mem_singleton]
  exact ⟨fun entry he => (pairwise_append.1 h).2.2 entry he last (mem_singleton_self _), le_rfl⟩

theorem InOrder.since_eq_nil (h : InOrder time log)
    (hlast : log.getLast?.all (time · ≤ cutoff) = true) : since time cutoff log = [] := by
  induction log using reverseRecOn with
  | nil => rfl
  | append_singleton log last =>
    rw [getLast?_concat, Option.all_some, decide_eq_true_eq] at hlast
    exact since_eq_nil_of_le fun entry he => (h.le_last entry he).trans hlast

theorem InOrder.dropWhile_eq (h : InOrder time log) :
    log.dropWhile (fun entry => time entry ≤ cutoff) = since time cutoff log := by
  induction log with
  | nil => rfl
  | cons entry log ih =>
    obtain ⟨hle, h⟩ := pairwise_cons.1 h
    by_cases hcut : time entry ≤ cutoff
    · rw [dropWhile_cons_of_pos (by simpa using hcut), ih h, since, since, filter_cons_of_neg]
      simpa using hcut
    · rw [dropWhile_cons_of_neg (by simpa using hcut), since, filter_eq_self.2]
      intro other ho
      rcases mem_cons.1 ho with rfl | ho
      · simpa using hcut
      · simpa using lt_of_lt_of_le (not_le.1 hcut) (hle other ho)

/-- Who counts from the back and stops at the cutoff counts all after it. -/
theorem InOrder.takeWhile_reverse_eq (h : InOrder time log) :
    log.reverse.takeWhile (fun entry => cutoff < time entry) = (since time cutoff log).reverse := by
  induction log using reverseRecOn with
  | nil => rfl
  | append_singleton log last ih =>
    rw [reverse_concat, since_append]
    by_cases hcut : cutoff < time last
    · rw [takeWhile_cons_of_pos (by simpa using hcut), ih (pairwise_append.1 h).1]
      simp [since, hcut]
    · rw [takeWhile_cons_of_neg (by simpa using hcut), ← since_append, since_eq_nil_of_le,
        reverse_nil]
      exact fun entry he => (h.le_last entry he).trans (not_lt.1 hcut)

/-- Of the log of a clock, what came after some moment up to `bound` is kept. -/
structure Kept (time : α → K) (clock bound : K) (log kept : List α) : Prop where
  ordered : InOrder time log
  past : ∀ entry ∈ log, time entry ≤ clock
  cut : ∃ cutoff ≤ bound, kept = since time cutoff log

namespace Kept

theorem nil : Kept time clock bound [] [] := ⟨Pairwise.nil, by simp, bound, le_rfl, rfl⟩

section
variable (h : Kept time clock bound log kept)
include h

theorem inOrder : InOrder time kept := by
  obtain ⟨cutoff, -, rfl⟩ := h.cut
  exact h.ordered.sublist filter_sublist

theorem since_eq (hcut : bound ≤ cutoff) : since time cutoff kept = since time cutoff log := by
  obtain ⟨cutoff', hle, rfl⟩ := h.cut
  rw [since_since, max_eq_left (hle.trans hcut)]

theorem later {bound' : K} (hc : clock ≤ clock') (hb : bound ≤ bound') :
    Kept time clock' bound' log kept :=
  ⟨h.ordered, fun entry he => (h.past entry he).trans hc,
    h.cut.imp fun _ hcut => ⟨hcut.1.trans hb, hcut.2⟩⟩

theorem prune (hcut : cutoff ≤ bound) : Kept time clock bound log (since time cutoff kept) := by
  obtain ⟨cutoff', hle, rfl⟩ := h.cut
  exact ⟨h.ordered, h.past, _, max_le hcut hle, since_since _⟩

theorem snoc {entry : α} (hc : time entry = clock) (hb : bound < clock) :
    Kept time clock bound (log ++ [entry]) (kept ++ [entry]) := by
  obtain ⟨cutoff, hle, rfl⟩ := h.cut
  refine ⟨pairwise_append.2 ⟨h.ordered, pairwise_singleton _ _, ?_⟩, ?_, cutoff, hle, ?_⟩
  · intro other ho entry' he
    rw [mem_singleton.1 he, hc]
    exact h.past other ho
  · rw [forall_mem_append, forall_mem_singleton]
    exact ⟨h.past, hc.le⟩
  · rw [since_append]
    simp [since, hc, hle.trans_lt hb]

theorem filter (p : α → Bool) : Kept time clock bound (log.filter p) (kept.filter p) := by
  obtain ⟨cutoff, hle, rfl⟩ := h.cut
  refine ⟨h.ordered.filter p, fun entry he => h.past entry (mem_filter.1 he).1, cutoff, hle, ?_⟩
  simp only [since, filter_filter, Bool.and_comm]

end

end Kept

end Log

variable {K : Type*} [AddCommGroup K] [LinearOrder K]

/-- Each event came with fewer than `n` in the `width` before it. -/
def Paced (n : Nat) (width : K) : List K → Prop
  | [] => True
  | t :: earlier =>
    (∀ u ∈ earlier, u ≤ t) ∧ (earlier.filter fun u => t - width < u).length < n ∧
      Paced n width earlier

/-- A stretch of time in which no event comes `width` or more after another. -/
def Narrow (width : K) (stretch : K → Bool) : Prop :=
  ∀ t u, stretch t → stretch u → u ≤ t → t - width < u

/-- THE BOUND: a narrow stretch holds at most `n` paced events. -/
theorem Paced.length_le {n : Nat} {width : K} {stretch : K → Bool} {times : List K}
    (h : Paced n width times) (hn : Narrow width stretch) :
    (times.filter stretch).length ≤ n := by
  induction times with
  | nil => simp
  | cons t earlier ih =>
    obtain ⟨hl, hroom, he⟩ := h
    by_cases ht : stretch t = true
    · -- the newest event of the stretch saw all the others
      have hsub : earlier.filter stretch =
          (earlier.filter fun u => t - width < u).filter stretch := by
        rw [filter_filter]
        refine filter_congr fun u hu => ?_
        by_cases hstr : stretch u = true
        · simp [hn t u ht hstr (hl u hu)]
        · simp [hstr]
      rw [filter_cons_of_pos ht, hsub]
      exact lt_of_le_of_lt (length_filter_le _ _) hroom
    · rw [filter_cons_of_neg ht]
      exact ih he

variable [IsOrderedAddMonoid K]

theorem narrow_Ico (width start : K) : Narrow width fun t => start ≤ t ∧ t < start + width := by
  intro t u ht hu _
  simp only [decide_eq_true_eq] at ht hu
  exact lt_of_lt_of_le (sub_lt_iff_lt_add.2 ht.2) hu.1

end Window

end Synthorg.Lib
