/-
A bounded queue that keeps its books.

What is offered to a queue is either accepted, at the tail, or dropped;
what is taken comes from the head. The structure records all of it, and
carries the one law there is: what was accepted is what was taken,
followed by what still waits. That the taken form a subsequence of the
offered, and what became of the others, is read off that law.
-/
import Mathlib.Data.List.Nodup

namespace Synthorg.Lib

open List

/-- A queue with its history. -/
structure Fifo (α : Type*) where
  items : List α
  offered : List (α × Bool)
  taken : List α
  conserved : (offered.filter Prod.snd).map Prod.fst = taken ++ items

namespace Fifo

variable {α : Type*}

def empty : Fifo α where
  items := []
  offered := []
  taken := []
  conserved := rfl

/-- Dropped when the queue is full. -/
def offer (capacity : Nat) (x : α) (q : Fifo α) : Fifo α :=
  if q.items.length < capacity then
    { items := q.items ++ [x]
      offered := q.offered ++ [(x, true)]
      taken := q.taken
      conserved := by simp [q.conserved] }
  else
    { items := q.items
      offered := q.offered ++ [(x, false)]
      taken := q.taken
      conserved := by simp [q.conserved] }

/-- The head, where there is one. -/
def take (q : Fifo α) : Option α × Fifo α :=
  match h : q.items with
  | [] => (none, q)
  | x :: rest =>
    (some x,
      { items := rest
        offered := q.offered
        taken := q.taken ++ [x]
        conserved := by rw [q.conserved, h, append_assoc, singleton_append] })

@[simp]
theorem offered_empty : (empty : Fifo α).offered = [] := rfl

@[simp]
theorem taken_empty : (empty : Fifo α).taken = [] := rfl

@[simp]
theorem taken_offer (capacity : Nat) (x : α) (q : Fifo α) :
    (q.offer capacity x).taken = q.taken := by
  rw [offer]
  split <;> rfl

theorem map_offered_offer (capacity : Nat) (x : α) (q : Fifo α) :
    (q.offer capacity x).offered.map Prod.fst = q.offered.map Prod.fst ++ [x] := by
  rw [offer]
  split <;> simp

@[simp]
theorem offered_take (q : Fifo α) : q.take.2.offered = q.offered := by
  rw [take]
  split <;> rfl

theorem taken_take (q : Fifo α) : q.take.2.taken = q.taken ++ q.take.1.toList := by
  rw [take]
  split <;> simp

-- ==== what the law says

theorem taken_sublist (q : Fifo α) : q.taken.Sublist (q.offered.map Prod.fst) := by
  have hacc : ((q.offered.filter Prod.snd).map Prod.fst).Sublist
      (q.offered.map Prod.fst) := filter_sublist.map _
  rw [q.conserved] at hacc
  exact (sublist_append_left _ _).trans hacc

theorem accepted_iff (q : Fifo α) (x : α) : (x, true) ∈ q.offered ↔ x ∈ q.taken ∨ x ∈ q.items := by
  rw [← mem_append, ← q.conserved]
  simp

theorem notMem_taken_iff {q : Fifo α} (hn : (q.offered.map Prod.fst).Nodup) {x : α}
    (hx : x ∈ q.offered.map Prod.fst) : x ∉ q.taken ↔ (x, false) ∈ q.offered ∨ x ∈ q.items := by
  constructor
  · intro hnot
    obtain ⟨⟨y, accepted⟩, hmem, heq⟩ := mem_map.1 hx
    replace heq : y = x := heq
    rw [heq] at hmem
    cases accepted with
    | false => exact .inl hmem
    | true => exact .inr (((q.accepted_iff x).1 hmem).resolve_left hnot)
  · rintro (hdrop | hwait) ht
    · have hacc := (q.accepted_iff x).2 (.inl ht)
      have hsame := inj_on_of_nodup_map hn hacc hdrop rfl
      cases hsame
    · have hb : (q.taken ++ q.items).Nodup := by
        rw [← q.conserved]
        exact hn.sublist (filter_sublist.map _)
      exact (nodup_append'.1 hb).2.2 ht hwait

end Fifo

end Synthorg.Lib
