/-
Worklist searches over a graph.

`search` is the loop every breadth-first walk of this development runs: take the front of the
queue, drop it when it was visited or is blocked, otherwise visit it and queue its neighbours.
`searchFrom` gives it fuel enough for any queue, and `mem_searchFrom` says what it visits.
-/
import Mathlib.Algebra.Ring.Nat
import Mathlib.Data.List.Dedup
import Mathlib.Logic.Relation

namespace Synthorg.Lib

open List

namespace Reach

variable {α : Type*}

-- ==== paths

def Step (blocked : α → Bool) (next : α → List α) (a b : α) : Prop :=
  b ∈ next a ∧ blocked b = false

def Path (blocked : α → Bool) (next : α → List α) : α → α → Prop :=
  Relation.ReflTransGen (Step blocked next)

/-- A path of one edge at least whose inner nodes all satisfy `ok`. -/
inductive Through (next : α → List α) (ok : α → Prop) (a : α) : α → Prop
  | edge (b : α) (h : b ∈ next a) : Through next ok a b
  | step (b c : α) (hab : Through next ok a b) (hb : ok b) (hbc : c ∈ next b) :
      Through next ok a c

namespace Through

variable {next : α → List α} {ok ok' : α → Prop} {a b c : α}

theorem mono (hok : ∀ x, ok x → ok' x) (h : Through next ok a b) : Through next ok' a b := by
  induction h with
  | edge b h => exact .edge b h
  | step b c _ hb hbc ih => exact .step b c ih (hok b hb) hbc

theorem trans (hab : Through next ok a b) (hb : ok b) (hbc : Through next ok b c) :
    Through next ok a c := by
  induction hbc with
  | edge c h => exact .step b c hab hb h
  | step c d _ hc hcd ih => exact .step c d ih hc hcd

theorem reverse {prev : α → List α} (hp : ∀ x y, y ∈ next x → x ∈ prev y)
    (h : Through next ok a b) : Through prev ok b a := by
  induction h with
  | edge b h => exact .edge a (hp a b h)
  | step b c _ hb hbc ih => exact (Through.edge b (hp b c hbc)).trans hb ih

theorem transGen (h : Through next ok a b) : Relation.TransGen (fun x y => y ∈ next x) a b := by
  induction h with
  | edge b h => exact .single h
  | step b c _ _ hbc ih => exact .tail ih hbc

/-- Demands that agree wherever the end can be reached from allow the same
paths to it. -/
theorem congr (hok : ∀ x, Relation.TransGen (fun x y => y ∈ next x) x b → (ok x ↔ ok' x)) :
    Through next ok a b ↔ Through next ok' a b := by
  have hone : ∀ {ok ok' : α → Prop},
      (∀ x, Relation.TransGen (fun x y => y ∈ next x) x b → ok x → ok' x) →
        ∀ {c}, Through next ok a c → Relation.ReflTransGen (fun x y => y ∈ next x) c b →
          Through next ok' a c := by
    intro ok ok' hok c h
    induction h with
    | edge c h => exact fun _ => .edge c h
    | step c d _ hc hcd ih =>
      intro hend
      have hback := Relation.TransGen.head' hcd hend
      exact .step c d (ih hback.to_reflTransGen) (hok c hback hc) hcd
  constructor
  · exact fun h => hone (fun x hx => (hok x hx).1) h .refl
  · exact fun h => hone (fun x hx => (hok x hx).2) h .refl

/-- SPLITTING: a path whose inner nodes satisfy `ok` or `stop` has a last stop, or none. -/
theorem last_stop {stop : α → Prop} (h : Through next (fun x => ok x ∨ stop x) a b) :
    Through next ok a b ∨
      ∃ s, Through next (fun x => ok x ∨ stop x) a s ∧ stop s ∧ Through next ok s b := by
  induction h with
  | edge b h => exact .inl (.edge b h)
  | step b c hab hb hbc ih =>
    rcases hb with hok | hstop
    · rcases ih with hc | ⟨s, has, hs, hsb⟩
      · exact .inl (.step b c hc hok hbc)
      · exact .inr ⟨s, has, hs, .step b c hsb hok hbc⟩
    · exact .inr ⟨b, hab, hstop, .edge c hbc⟩

end Through

-- ==== the loop

variable [DecidableEq α]

def search (blocked : α → Bool) (next : α → List α) : Nat → List α → List α → List α
  | 0, visited, _ => visited
  | _ + 1, visited, [] => visited
  | fuel + 1, visited, a :: queue =>
    if a ∈ visited ∨ blocked a then search blocked next fuel visited queue
    else search blocked next fuel (visited ++ [a]) (queue ++ next a)

/-- The edges that leave the nodes of `pool` not visited yet. -/
def pending (next : α → List α) (visited : List α) (pool : List α) : Nat :=
  ((pool.filter (· ∉ visited)).map fun a => (next a).length).sum

/-- The search from `queue` with fuel for every entry it can come to queue. -/
def searchFrom (blocked : α → Bool) (next : α → List α) (pool queue : List α) : List α :=
  search blocked next (queue.length + pending next [] pool) [] queue

variable {blocked : α → Bool} {next : α → List α}

theorem pending_congr {visited visited' pool : List α} (h : ∀ a, a ∈ visited ↔ a ∈ visited') :
    pending next visited pool = pending next visited' pool := by
  simp only [pending, h]

theorem pending_visit {visited pool : List α} {a : α} (hn : pool.Nodup)
    (ha : a ∈ pool) (hnew : a ∉ visited) : pending next (visited ++ [a]) pool + (next a).length =
      pending next visited pool := by
  induction pool with
  | nil => cases ha
  | cons b rest ih =>
    obtain ⟨hf, hrest⟩ := nodup_cons.1 hn
    unfold pending at ih ⊢
    rcases mem_cons.1 ha with rfl | hmem
    · have hkeep : rest.filter (· ∉ visited ++ [a]) = rest.filter (· ∉ visited) := by
        apply filter_congr
        intro x hx
        have hne : x ≠ a := fun h => hf (h ▸ hx)
        simp [hne]
      rw [filter_cons_of_neg (by simp), filter_cons_of_pos (by simpa using hnew),
        hkeep, map_cons, sum_cons]
      omega
    · have hne : b ≠ a := fun h => hf (h ▸ hmem)
      have htail := ih hrest hmem
      by_cases hb : b ∈ visited
      · rw [filter_cons_of_neg (by simp [hb]), filter_cons_of_neg (by simp [hb])]
        exact htail
      · rw [filter_cons_of_pos (by simp [hb, hne]),
          filter_cons_of_pos (by simpa using hb), map_cons, map_cons,
          sum_cons, sum_cons]
        omega

theorem subset_search {fuel : Nat} {visited queue : List α} {a : α} (ha : a ∈ visited) :
    a ∈ search blocked next fuel visited queue := by
  induction fuel generalizing visited queue with
  | zero => exact ha
  | succ fuel ih =>
    cases queue with
    | nil => exact ha
    | cons b queue =>
      unfold search
      split
      · exact ih ha
      · exact ih (mem_append_left _ ha)

/-- SOUNDNESS: whatever is visited was there, or a path from the queue leads
to it. -/
theorem search_sound {fuel : Nat} {visited queue : List α} {x : α}
    (hx : x ∈ search blocked next fuel visited queue) :
    x ∈ visited ∨ ∃ q ∈ queue, blocked q = false ∧ Path blocked next q x := by
  induction fuel generalizing visited queue with
  | zero => exact .inl hx
  | succ fuel ih =>
    cases queue with
    | nil => exact .inl hx
    | cons a queue =>
      unfold search at hx
      split at hx
      next =>
        rcases ih hx with h | ⟨q, hq, hfree, hpath⟩
        · exact .inl h
        · exact .inr ⟨q, mem_cons_of_mem _ hq, hfree, hpath⟩
      next hnew =>
        push Not at hnew
        have hfree : blocked a = false := by simpa using hnew.2
        rcases ih hx with h | ⟨q, hq, hqualifier, hpath⟩
        · rcases mem_append.1 h with h | h
          · exact .inl h
          · rw [mem_singleton] at h
            subst h
            exact .inr ⟨x, mem_cons_self, hfree, .refl⟩
        · rcases mem_append.1 hq with hq | hq
          · exact .inr ⟨q, mem_cons_of_mem _ hq, hqualifier, hpath⟩
          · exact .inr ⟨a, mem_cons_self, hfree, .head ⟨hq, hqualifier⟩ hpath⟩

/-- THE INVARIANT: a neighbour of a visited node is visited, blocked or queued. -/
theorem search_closed {pool : List α} (hpool : pool.Nodup)
    (hnext : ∀ a, next a ≠ [] → a ∈ pool) {fuel : Nat} {visited queue : List α}
    (hfuel : queue.length + pending next visited pool ≤ fuel)
    (hinv : ∀ a ∈ visited, ∀ b ∈ next a, blocked b = false → b ∈ visited ∨ b ∈ queue) :
    (∀ a ∈ search blocked next fuel visited queue, ∀ b ∈ next a, blocked b = false →
        b ∈ search blocked next fuel visited queue) ∧
      ∀ q ∈ queue, blocked q = false → q ∈ search blocked next fuel visited queue := by
  induction fuel generalizing visited queue with
  | zero =>
    have hnil : queue = [] := length_eq_zero_iff.1 (by omega)
    subst hnil
    refine ⟨fun a ha b hb hfree => ?_, nofun⟩
    rcases hinv a ha b hb hfree with h | h
    · exact h
    · cases h
  | succ fuel ih =>
    cases queue with
    | nil =>
      refine ⟨fun a ha b hb hfree => ?_, nofun⟩
      rcases hinv a ha b hb hfree with h | h
      · exact h
      · cases h
    | cons a queue =>
      rw [length_cons] at hfuel
      unfold search
      split
      next hskip =>
        have hinv' : ∀ x ∈ visited, ∀ b ∈ next x, blocked b = false → b ∈ visited ∨ b ∈ queue := by
          intro x hx b hb hfree
          rcases hinv x hx b hb hfree with h | h
          · exact .inl h
          · rcases mem_cons.1 h with rfl | h
            · rcases hskip with hv | hblank
              · exact .inl hv
              · simp [hfree] at hblank
            · exact .inr h
        obtain ⟨hc, hqueue⟩ := ih (by omega) hinv'
        refine ⟨hc, fun q hq hfree => ?_⟩
        rcases mem_cons.1 hq with rfl | hq
        · rcases hskip with hv | hblank
          · exact subset_search hv
          · simp [hfree] at hblank
        · exact hqueue q hq hfree
      next hnew =>
        push Not at hnew
        have hs : (queue ++ next a).length + pending next (visited ++ [a]) pool ≤ fuel := by
          rw [length_append]
          by_cases hmem : a ∈ pool
          · have hvisited : pending next (visited ++ [a]) pool + (next a).length =
                  pending next visited pool := pending_visit hpool hmem hnew.1
            omega
          · have hnone : next a = [] := by
              by_contra hne
              exact hmem (hnext a hne)
            have hsame : pending next (visited ++ [a]) pool = pending next visited pool := by
              unfold pending
              congr 2
              apply filter_congr
              intro x hx
              have hne : x ≠ a := fun h => hmem (h ▸ hx)
              simp [hne]
            rw [hnone, length_nil]
            omega
        have hinv' : ∀ x ∈ visited ++ [a], ∀ b ∈ next x, blocked b = false →
            b ∈ visited ++ [a] ∨ b ∈ queue ++ next a := by
          intro x hx b hb hfree
          rcases mem_append.1 hx with hx | hx
          · rcases hinv x hx b hb hfree with h | h
            · exact .inl (mem_append_left _ h)
            · rcases mem_cons.1 h with rfl | h
              · exact .inl (by simp)
              · exact .inr (mem_append_left _ h)
          · rw [mem_singleton] at hx
            exact .inr (mem_append_right _ (hx ▸ hb))
        obtain ⟨hc, hqueue⟩ := ih hs hinv'
        refine ⟨hc, fun q hq hfree => ?_⟩
        rcases mem_cons.1 hq with rfl | hq
        · exact subset_search (by simp)
        · exact hqueue q (mem_append_left _ hq) hfree

theorem mem_searchFrom {pool queue : List α} (hpool : pool.Nodup)
    (hnext : ∀ a, next a ≠ [] → a ∈ pool) {x : α} : x ∈ searchFrom blocked next pool queue ↔
      ∃ q ∈ queue, blocked q = false ∧ Path blocked next q x := by
  constructor
  · intro hx
    rcases search_sound hx with h | h
    · cases h
    · exact h
  · rintro ⟨q, hq, hfree, hpath⟩
    obtain ⟨hc, hqueue⟩ := @search_closed α _ blocked next pool hpool hnext _ [] queue
      (Nat.le_refl (queue.length + pending next [] pool)) (by simp)
    induction hpath with
    | refl => exact hqueue q hq hfree
    | tail _ hstep ih => exact hc _ ih _ hstep.1 hstep.2

/-- A search that stops at `stop` visits what a path from the neighbours of `start` leads to
whose inner nodes are neither blocked nor stops. -/
theorem mem_searchFrom_through {adj : α → List α} {stop : α → Bool} {pool : List α}
    (hpool : pool.Nodup) (hadjacency : ∀ a, adj a ≠ [] → a ∈ pool) {start x : α} :
    x ∈ searchFrom blocked (fun a => if stop a then [] else adj a) pool (adj start) ↔
      Through adj (fun b => blocked b = false ∧ stop b = false) start x ∧
        blocked x = false := by
  have hnext : ∀ a, (if stop a then [] else adj a) ≠ [] → a ∈ pool := by
    intro a ha
    apply hadjacency
    intro hnil
    rw [hnil] at ha
    simp at ha
  rw [mem_searchFrom hpool hnext]
  constructor
  · rintro ⟨q, hq, hfree, hpath⟩
    induction hpath with
    | refl => exact ⟨.edge q hq, hfree⟩
    | tail _ hstep ih =>
      obtain ⟨hedge, hfree'⟩ := hstep
      dsimp only at hedge
      split at hedge
      next => cases hedge
      next hgo => exact ⟨.step _ _ ih.1 ⟨ih.2, by simpa using hgo⟩ hedge, hfree'⟩
  · rintro ⟨ht, hfree⟩
    induction ht with
    | edge b h => exact ⟨b, h, hfree, .refl⟩
    | step b c _ hb hbc ih =>
      obtain ⟨q, hq, hqualifier, hpath⟩ := ih hb.1
      exact ⟨q, hq, hqualifier, hpath.tail ⟨by simpa [hb.2] using hbc, hfree⟩⟩

end Reach

end Synthorg.Lib
