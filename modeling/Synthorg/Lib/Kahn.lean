/-
Kahn's algorithm with a first-in first-out queue.

`Lib/Layers` peels a graph a layer at a time; this is the other usual form,
which keeps for each node the number of edges from nodes not taken yet and
queues a node when that number comes down to zero. `sort` answers the order
it took the nodes in, or nothing when some were never queued. Its one fact
is `sort_ordered`: an order that comes out lists every node once, each after
all the nodes with an edge to it.
-/
import Mathlib.Algebra.Ring.Nat
import Mathlib.Data.List.Perm.Subperm
import Mathlib.Data.List.Nodup

namespace Synthorg.Lib

open Function (update update_self update_of_ne)
open List

namespace Kahn

variable {α : Type*} [DecidableEq α]

-- ==== the loop

/-- The edges to `x` from the nodes of `sources`. -/
def edgesTo (next : α → List α) (sources : List α) (x : α) : Nat :=
  (sources.map fun a => (next a).count x).sum

/-- An edge's target waits on one node less, and is queued when on none. -/
def relax (nodes : List α) (state : (α → Int) × List α) (b : α) : (α → Int) × List α :=
  if b ∈ nodes then
    let degree := state.1 b - 1
    (update state.1 b degree,
      if degree = 0 then state.2 ++ [b] else state.2)
  else state

/-- Take the front of the queue until it is empty. -/
def loop (next : α → List α) (nodes : List α) : Nat → (α → Int) → List α → List α → List α
  | 0, _, _, done => done
  | _ + 1, _, [], done => done
  | fuel + 1, degree, a :: queue, done =>
    let state := (next a).foldl (relax nodes) (degree, queue)
    loop next nodes fuel state.1 state.2 (done ++ [a])

def sort (next : α → List α) (nodes : List α) : Option (List α) :=
  let degree : α → Int := fun x => edgesTo next nodes x
  let result := loop next nodes nodes.length degree (nodes.filter (degree · = 0)) []
  if result.length = nodes.length then some result else none

-- ==== the invariant

def Ordered (next : α → List α) (nodes order : List α) : Prop :=
  ∀ (pre : List α) (a : α) (post : List α), order = pre ++ a :: post →
    ∀ m ∈ nodes, a ∈ next m → m ∈ pre

/-- THE INVARIANT: taken or queued are the nodes with no edge left to one not taken, and what is
taken is in order. -/
structure Inv (next : α → List α) (nodes : List α) (degree : α → Int)
    (queue done : List α) : Prop where
  nodup : (done ++ queue).Nodup
  mem : ∀ x, x ∈ done ++ queue ↔ x ∈ nodes ∧ degree x = 0
  degree_eq : ∀ x ∈ nodes, degree x = edgesTo next (nodes.filter (· ∉ done)) x
  ordered : Ordered next nodes done

variable {next : α → List α} {nodes done queue : List α} {degree : α → Int}

theorem edgesTo_eq_zero {sources : List α} {x : α} :
    edgesTo next sources x = 0 ↔ ∀ a ∈ sources, x ∉ next a := by
  unfold edgesTo
  induction sources with
  | nil => simp
  | cons a rest ih =>
    rw [map_cons, sum_cons, Nat.add_eq_zero_iff, ih, count_eq_zero]
    simp

theorem edgesTo_take {a : α} (hn : nodes.Nodup) (ha : a ∈ nodes) (hnew : a ∉ done) (x : α) :
    edgesTo next (nodes.filter (· ∉ done)) x =
      edgesTo next (nodes.filter (· ∉ done ++ [a])) x + (next a).count x := by
  unfold edgesTo
  induction nodes with
  | nil => cases ha
  | cons b rest ih =>
    obtain ⟨hf, hrest⟩ := nodup_cons.1 hn
    rcases mem_cons.1 ha with rfl | hmem
    · have hkeep : rest.filter (· ∉ done ++ [a]) = rest.filter (· ∉ done) := by
        apply filter_congr
        intro y hy
        have hne : y ≠ a := fun h => hf (h ▸ hy)
        simp [hne]
      rw [filter_cons_of_pos (by simpa using hnew),
        filter_cons_of_neg (by simp), hkeep, map_cons, sum_cons]
      omega
    · have hne : b ≠ a := fun h => hf (h ▸ hmem)
      have htail := ih hrest hmem
      by_cases hb : b ∈ done
      · rw [filter_cons_of_neg (by simp [hb]), filter_cons_of_neg (by simp [hb])]
        exact htail
      · rw [filter_cons_of_pos (by simpa using hb),
          filter_cons_of_pos (by simp [hb, hne]), map_cons, map_cons,
          sum_cons, sum_cons]
        omega

/-- INNER LOOP: each node waits on `targets` no more, and those that wait on nothing are queued. -/
theorem foldl_relax (nodes : List α) (rest : α → Nat) (targets : List α)
    (hn : (done ++ queue).Nodup) (hmem : ∀ x, x ∈ done ++ queue ↔ x ∈ nodes ∧ degree x = 0)
    (hd : ∀ x ∈ nodes, degree x = rest x + targets.count x) :
    let state := targets.foldl (relax nodes) (degree, queue)
    (done ++ state.2).Nodup ∧
      (∀ x, x ∈ done ++ state.2 ↔ x ∈ nodes ∧ state.1 x = 0) ∧
        ∀ x ∈ nodes, state.1 x = rest x := by
  induction targets generalizing degree queue with
  | nil =>
    refine ⟨hn, hmem, fun x hx => ?_⟩
    have h := hd x hx
    simpa using h
  | cons b targets ih =>
    rw [foldl_cons]
    by_cases hb : b ∈ nodes
    · have hcnt := hd b hb
      rw [count_cons_self] at hcnt
      -- an edge to `b` was still counted, so `b` is neither taken nor queued
      have hnew : b ∉ done ++ queue := by
        intro h
        have hzero := ((hmem b).1 h).2
        omega
      have hd' : ∀ x ∈ nodes, update degree b (degree b - 1) x = rest x + targets.count x := by
        intro x hx
        by_cases hxb : x = b
        · subst hxb
          rw [update_self]
          omega
        · rw [update_of_ne hxb, hd x hx, count_cons_of_ne (Ne.symm hxb)]
      have ho : ∀ x, x ≠ b → (x ∈ done ++ queue ↔
            x ∈ nodes ∧ update degree b (degree b - 1) x = 0) := by
        intro x hxb
        rw [update_of_ne hxb]
        exact hmem x
      unfold relax
      rw [if_pos hb]
      dsimp only
      by_cases hzero : degree b - 1 = 0
      · rw [if_pos hzero]
        apply ih _ _ hd'
        · rw [← append_assoc]
          apply List.Nodup.append hn (by simp)
          intro x hx hxb
          rw [mem_singleton] at hxb
          exact hnew (hxb ▸ hx)
        · intro x
          rw [← append_assoc, mem_append, mem_singleton]
          by_cases hxb : x = b
          · subst hxb
            rw [update_self]
            exact ⟨fun _ => ⟨hb, hzero⟩, fun _ => .inr rfl⟩
          · rw [← ho x hxb]
            simp [hxb]
      · rw [if_neg hzero]
        apply ih hn _ hd'
        intro x
        by_cases hxb : x = b
        · subst hxb
          rw [update_self]
          exact ⟨fun h => absurd h hnew, fun h => absurd h.2 hzero⟩
        · exact ho x hxb
    · have hskip : relax nodes (degree, queue) b = (degree, queue) := if_neg hb
      rw [hskip]
      apply ih hn hmem
      intro x hx
      have hne : b ≠ x := fun h => hb (h ▸ hx)
      rw [hd x hx, count_cons_of_ne hne]

/-- STEP LEMMA: taking the front of the queue keeps the invariant. -/
theorem Inv.take (hnodes : nodes.Nodup) {a : α} (h : Inv next nodes degree (a :: queue) done) :
    Inv next nodes ((next a).foldl (relax nodes) (degree, queue)).1
      ((next a).foldl (relax nodes) (degree, queue)).2 (done ++ [a]) := by
  have hs : done ++ a :: queue = done ++ [a] ++ queue := by simp
  have hn := h.nodup
  have hmem := h.mem
  have ha := (hmem a).1 (by simp)
  rw [hs] at hn
  have hnew : a ∉ done := by
    intro hin
    have hdisj := disjoint_of_nodup_append (List.Nodup.of_append_left hn)
    exact hdisj hin (mem_singleton_self a)
  obtain ⟨hn', hmem', hd'⟩ := foldl_relax nodes
    (edgesTo next (nodes.filter (· ∉ done ++ [a]))) (next a) hn
    (fun x => by rw [← hs]; exact hmem x)
    (fun x hx => by rw [h.degree_eq x hx, edgesTo_take hnodes ha.1 hnew x]; rfl)
  refine ⟨hn', hmem', hd', ?_⟩
  intro pre b post hcut m hm hedge
  rcases eq_nil_or_concat post with rfl | ⟨post', c, rfl⟩
  · -- `b` is the node just taken: no edge to it from a node not taken is left
    obtain ⟨rfl, hlast⟩ := append_inj' hcut rfl
    have hab : a = b := by simpa using hlast
    have hcast : (edgesTo next (nodes.filter (· ∉ done)) a : Int) = 0 := by
      rw [← h.degree_eq a ha.1]
      exact ha.2
    have hzero : edgesTo next (nodes.filter (· ∉ done)) a = 0 := by exact_mod_cast hcast
    rw [edgesTo_eq_zero] at hzero
    by_contra hout
    exact hzero m (by simp [hm, hout]) (hab ▸ hedge)
  · have hcut' : done ++ [a] = (pre ++ b :: post') ++ [c] := by
      rw [hcut]
      simp
    obtain ⟨hdone, -⟩ := append_inj' hcut' rfl
    exact h.ordered pre b post' hdone m hm hedge

/-- RUN LEMMA: with fuel for every node, what was queued is taken, once and in order. -/
theorem loop_ordered (hn : nodes.Nodup) (fuel : Nat) (h : Inv next nodes degree queue done) :
    let order := loop next nodes fuel degree queue done
    order.Nodup ∧ (∀ x ∈ order, x ∈ nodes) ∧ Ordered next nodes order := by
  induction fuel generalizing degree queue done with
  | zero =>
    exact ⟨List.Nodup.of_append_left h.nodup,
      fun x hx => ((h.mem x).1 (mem_append_left _ hx)).1, h.ordered⟩
  | succ fuel ih =>
    cases queue with
    | nil =>
      exact ⟨List.Nodup.of_append_left h.nodup,
        fun x hx => ((h.mem x).1 (mem_append_left _ hx)).1, h.ordered⟩
    | cons a queue => exact ih (h.take hn)

theorem inv_start (next : α → List α) (hn : nodes.Nodup) :
    Inv next nodes (fun x => edgesTo next nodes x)
      (nodes.filter fun x => (edgesTo next nodes x : Int) = 0) [] where
  nodup := hn.filter _
  mem := by simp
  degree_eq := by simp
  ordered := by
    intro pre a post hcut
    simp at hcut

theorem sort_ordered {order : List α} (hn : nodes.Nodup) (h : sort next nodes = some order) :
    order.Nodup ∧ (∀ x, x ∈ order ↔ x ∈ nodes) ∧ Ordered next nodes order := by
  unfold sort at h
  dsimp only at h
  split at h
  next hlen =>
    cases h
    obtain ⟨hd, hsub, hord⟩ := loop_ordered hn nodes.length (inv_start next hn)
    refine ⟨hd, fun x => ⟨hsub x, fun hx => ?_⟩, hord⟩
    have hperm := (subperm_of_subset hd hsub).perm_of_length_le (Nat.le_of_eq hlen.symm)
    exact hperm.mem_iff.2 hx
  next => cases h

end Kahn

end Synthorg.Lib
