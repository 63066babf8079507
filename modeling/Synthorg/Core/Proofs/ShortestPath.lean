/-
The path a state machine finds is a shortest one.

The search goes level by level. THE INVARIANT gives each discovered state its level: the queue
holds the levels in order, no discovered state is more than one level past its front, and whatever
has left the queue has all its successors discovered, one level on at most. A shorter route to the
target would lead to a discovered state, and the target is not discovered yet.
-/
import Synthorg.Core.Task
import Synthorg.Lib.Keyed

namespace Synthorg.Core

open Function (update update_self update_of_ne)
open Lib
open List

-- ==== the table

structure TransitionTable (σ : Type) [DecidableEq σ] where
  entries : List (σ × List σ)
  distinct : Keyed.Distinct Prod.fst entries
  value : σ → String

namespace TransitionTable

variable {σ : Type} [DecidableEq σ] (table : TransitionTable σ)

def states : List σ := table.entries.map Prod.fst

/-- `_transitions[state]`, and nothing for a state the table does not cover. -/
def targets (state : σ) : List σ :=
  ((Keyed.lookup Prod.fst table.entries state).map Prod.snd).getD []

/-- The place among the keys, and then the wire value. -/
def order (a b : σ) : Bool :=
  table.states.idxOf a < table.states.idxOf b ||
    (table.states.idxOf a = table.states.idxOf b && table.value a ≤ table.value b)

def successors (state : σ) : List σ :=
  (table.targets state).mergeSort table.order

def machine : StateMachine σ := ⟨table.successors⟩

def mentioned : List σ := table.states ++ table.entries.flatMap Prod.snd

def pathTo (noTransit : List σ) (current target : σ) : Option (List σ) :=
  if current = target then some []
  else if current ∈ table.states then
    table.machine.pathTo noTransit table.mentioned.length current target
  else none

end TransitionTable

namespace StateMachine

variable {σ : Type} [DecidableEq σ]

-- ==== the routes

/-- `hops` lead from `s` to a state along the table, through no state that is closed
to transit. -/
inductive Route (m : StateMachine σ) (noTransit : List σ) (s : σ) : σ → List σ → Prop
  | here : Route m noTransit s s []
  | hop (p x : σ) (hops : List σ) (hroute : Route m noTransit s p hops)
      (hopen : hops ≠ [] → p ∉ noTransit) (hallows : m.Allows p x) :
      Route m noTransit s x (hops ++ [x])

def Open (noTransit : List σ) (s x : σ) : Prop := x = s ∨ x ∉ noTransit

variable {m : StateMachine σ} {noTransit : List σ} {s target : σ}

variable {hops pool : List σ} {x : σ}

omit [DecidableEq σ] in
theorem Route.passes {p : σ} (h : Route m noTransit s p hops) (hopen : hops ≠ [] → p ∉ noTransit) :
    Open noTransit s p := by
  cases h with
  | here => exact .inl rfl
  | hop q p hops _ _ _ => exact .inr (hopen (by simp))

-- ==== the links

/-- `came_from` says how the discovered states were reached, each from a level
below. -/
structure Linked (m : StateMachine σ) (noTransit : List σ) (s : σ) (level : σ → Nat)
    (links : List (σ × σ)) (seen : List σ) : Prop where
  start : s ∈ seen ∧ level s = 0
  came : ∀ x ∈ seen, x ≠ s → ∃ p ∈ seen, cameFrom links x = some p ∧ Open noTransit s p ∧
    m.Allows p x ∧ level x = level p + 1
  short : ∀ x ∈ seen, level x ≤ links.length

theorem cameFrom_cons_self (links : List (σ × σ)) (x p : σ) :
    cameFrom ((x, p) :: links) x = some p := by
  simp [cameFrom]

theorem cameFrom_cons_ne {links : List (σ × σ)} {y p : σ} (hne : y ≠ x) :
    cameFrom ((x, p) :: links) y = cameFrom links y := by
  simp [cameFrom, hne.symm]

variable {level : σ → Nat} {links : List (σ × σ)} {seen : List σ}

theorem Linked.add (h : Linked m noTransit s level links seen) {state nxt : σ}
    (hstate : state ∈ seen) (hopen : Open noTransit s state) (hall : m.Allows state nxt)
    (hnew : nxt ∉ seen) : Linked m noTransit s (update level nxt (level state + 1))
      ((nxt, state) :: links) (nxt :: seen) := by
  have hkeep : ∀ x ∈ seen, update level nxt (level state + 1) x = level x := by
    intro x hx
    exact update_of_ne (ne_of_mem_of_not_mem hx hnew) _ _
  refine ⟨⟨mem_cons_of_mem _ h.start.1, ?_⟩, fun x hx hs => ?_, fun x hx => ?_⟩
  · rw [hkeep s h.start.1]
    exact h.start.2
  · rcases mem_cons.1 hx with rfl | hx
    · refine ⟨state, mem_cons_of_mem _ hstate, cameFrom_cons_self links x state, hopen, hall, ?_⟩
      rw [update_self, hkeep state hstate]
    · obtain ⟨p, hp, hcame, hpipeline, hparallel, hl⟩ := h.came x hx hs
      refine ⟨p, mem_cons_of_mem _ hp, ?_, hpipeline, hparallel, ?_⟩
      · rw [cameFrom_cons_ne (ne_of_mem_of_not_mem hx hnew)]
        exact hcame
      · rw [hkeep x hx, hkeep p hp]
        exact hl
  · rcases mem_cons.1 hx with rfl | hx
    · rw [update_self]
      exact Nat.succ_le_succ (h.short state hstate)
    · rw [hkeep x hx]
      exact Nat.le_succ_of_le (h.short x hx)

theorem Linked.walkBack (h : Linked m noTransit s level links seen) (hx : x ∈ seen) (hs : x ≠ s) :
    ∃ hops, Route m noTransit s x hops ∧ hops.length = level x ∧
      ∀ fuel tail, level x ≤ fuel → walkBack links s fuel x (x :: tail) = hops ++ tail := by
  induction hl : level x generalizing x with
  | zero =>
    obtain ⟨p, -, -, -, -, hup⟩ := h.came x hx hs
    omega
  | succ n ih =>
    obtain ⟨p, hp, hcame, hopen, hall, hup⟩ := h.came x hx hs
    by_cases hps : p = s
    · subst hps
      have hzero := h.start.2
      refine ⟨[x], .hop p x [] .here nofun hall, ?_, fun fuel tail hfuel => ?_⟩
      · simp only [length_singleton]
        omega
      · obtain ⟨fuel, rfl⟩ : ∃ f, fuel = f + 1 := ⟨fuel - 1, by omega⟩
        simp [StateMachine.walkBack, hcame]
    · obtain ⟨hops, hr, hlen, hwalk⟩ := ih hp hps (by omega)
      refine ⟨hops ++ [x], .hop p x hops hr (fun _ => hopen.resolve_left hps) hall,
        by simp [hlen], fun fuel tail hfuel => ?_⟩
      obtain ⟨fuel, rfl⟩ : ∃ f, fuel = f + 1 := ⟨fuel - 1, by omega⟩
      rw [StateMachine.walkBack, hcame]
      simp only [if_neg hps]
      rw [hwalk fuel (x :: tail) (by omega), append_assoc, singleton_append]

-- ==== the invariant

/-- THE INVARIANT, with the front at level `k` and `rest` of `state`'s successors still to come. -/
structure Searching (m : StateMachine σ) (noTransit : List σ) (s target : σ)
    (level : σ → Nat) (k : Nat) (state : σ) (rest : List σ) (search : Search σ) : Prop where
  linked : Linked m noTransit s level search.links search.seen
  queued : ∀ q ∈ search.queue, q ∈ search.seen ∧ Open noTransit s q ∧ k ≤ level q
  sorted : search.queue.Pairwise (level · ≤ level ·)
  near : ∀ x ∈ search.seen, level x ≤ k + 1
  closed : ∀ x ∈ search.seen, Open noTransit s x → x ∉ search.queue → ∀ y, m.Allows x y →
    y ∈ search.seen ∧ level y ≤ level x + 1 ∨ x = state ∧ y ∈ rest
  unseen : target ∉ search.seen

variable {k : Nat} {state nxt : σ} {rest : List σ} {search : Search σ}

theorem Searching.discovered (h : Searching m noTransit s target level k state rest search)
    (hstate : level state = k) (hr : Route m noTransit s x hops) (hs : hops.length ≤ k) :
    x ∈ search.seen ∧ level x ≤ hops.length := by
  induction hr with
  | here => exact ⟨h.linked.start.1, by rw [h.linked.start.2]; exact Nat.zero_le _⟩
  | hop p x hops hr hopen hall ih =>
    rw [length_append, length_singleton] at hs ⊢
    obtain ⟨hp, hl⟩ := ih (by omega)
    -- the state before it is on a level below the front
    have hq : p ∉ search.queue := by
      intro hin
      have hf := (h.queued p hin).2.2
      omega
    rcases h.closed p hp (hr.passes hopen) hq x hall with ⟨hx, hnext⟩ | ⟨rfl, -⟩
    · exact ⟨hx, by omega⟩
    · omega

theorem Searching.exhausted (h : Searching m noTransit s target level k state [] search)
    (he : search.queue = []) (hr : Route m noTransit s x hops) : x ∈ search.seen := by
  induction hr with
  | here => exact h.linked.start.1
  | hop p x hops hr hopen hall ih =>
    have hq : p ∉ search.queue := by simp [he]
    rcases h.closed p ih (hr.passes hopen) hq x hall with ⟨hx, -⟩ | ⟨-, hrest⟩
    · exact hx
    · cases hrest

theorem Searching.pass (h : Searching m noTransit s target level k state (nxt :: rest) search)
    (hs : level state = k) (hseen : nxt ∈ search.seen) :
    Searching m noTransit s target level k state rest search := by
  refine { h with closed := fun x hx hopen hq y hall => ?_ }
  rcases h.closed x hx hopen hq y hall with hdone | ⟨rfl, hrest⟩
  · exact .inl hdone
  · rcases mem_cons.1 hrest with rfl | hrest
    · have hnear := h.near y hseen
      exact .inl ⟨hseen, by omega⟩
    · exact .inr ⟨rfl, hrest⟩

/-- STEP LEMMA: a discovery. -/
theorem Searching.discover (h : Searching m noTransit s target level k state (nxt :: rest) search)
    (hstate : state ∈ search.seen ∧ Open noTransit s state ∧ level state = k)
    (hall : m.Allows state nxt) (hnew : nxt ∉ search.seen) (ht : nxt ≠ target) :
    Searching m noTransit s target (update level nxt (k + 1)) k state rest
      { queue := if nxt ∈ noTransit then search.queue else search.queue ++ [nxt]
        seen := nxt :: search.seen
        links := (nxt, state) :: search.links } := by
  obtain ⟨hin, hopen, hl⟩ := hstate
  have hkeep : ∀ x ∈ search.seen, update level nxt (k + 1) x = level x := by
    intro x hx
    exact update_of_ne (ne_of_mem_of_not_mem hx hnew) _ _
  have hqueued : ∀ x, x ∈ (if nxt ∈ noTransit then search.queue else search.queue ++ [nxt]) ↔
      x ∈ search.queue ∨ x = nxt ∧ nxt ∉ noTransit := by
    intro x
    split
    next hc => simp [hc]
    next hpass => simp [hpass]
  have hlinked := h.linked.add hin hopen hall hnew
  rw [hl] at hlinked
  refine ⟨hlinked, fun q hq => ?_, ?_, fun x hx => ?_, fun x hx hp hu y hy => ?_, ?_⟩
  · rcases (hqueued q).1 hq with hq | ⟨rfl, hpass⟩
    · obtain ⟨hseen, hn, hf⟩ := h.queued q hq
      exact ⟨mem_cons_of_mem _ hseen, hn, by rw [hkeep q hseen]; exact hf⟩
    · refine ⟨mem_cons_self, .inr hpass, ?_⟩
      rw [update_self]
      exact Nat.le_succ k
  · have hold : search.queue.Pairwise fun a b =>
        update level nxt (k + 1) a ≤ update level nxt (k + 1) b := by
      refine h.sorted.imp_of_mem fun ha hb hle => ?_
      rw [hkeep _ (h.queued _ ha).1, hkeep _ (h.queued _ hb).1]
      exact hle
    split
    · exact hold
    · refine pairwise_append.2 ⟨hold, pairwise_singleton _ _, fun a ha b hb => ?_⟩
      rw [mem_singleton.1 hb, update_self, hkeep a (h.queued a ha).1]
      exact h.near a (h.queued a ha).1
  · rcases mem_cons.1 hx with rfl | hx
    · rw [update_self]
    · rw [hkeep x hx]
      exact h.near x hx
  · rw [hqueued, not_or] at hu
    rcases mem_cons.1 hx with rfl | hx
    · -- what is new is queued, or closed to transit
      have hstart : x ≠ s := fun heq => hnew (heq ▸ h.linked.start.1)
      exact absurd ⟨rfl, hp.resolve_left hstart⟩ hu.2
    · rcases h.closed x hx hp hu.1 y hy with ⟨hs, hylev⟩ | ⟨rfl, hrest⟩
      · refine .inl ⟨mem_cons_of_mem _ hs, ?_⟩
        rw [hkeep x hx, hkeep y hs]
        exact hylev
      · rcases mem_cons.1 hrest with rfl | hrest
        · refine .inl ⟨mem_cons_self, ?_⟩
          rw [update_self, hkeep x hin, hl]
        · exact .inr ⟨rfl, hrest⟩
  · rw [mem_cons, not_or]
    exact ⟨ht.symm, h.unseen⟩

-- ==== the search

def Search.left (pool : List σ) (search : Search σ) : Nat :=
  search.queue.length + (pool.filter (· ∉ search.seen)).length

theorem Search.left_discover (hpool : nxt ∈ pool) (hnew : nxt ∉ search.seen) : Search.left pool
      { queue := if nxt ∈ noTransit then search.queue else search.queue ++ [nxt]
        seen := nxt :: search.seen
        links := (nxt, state) :: search.links } ≤ search.left pool := by
  have hf : (pool.filter (· ∉ nxt :: search.seen)).length <
      (pool.filter (· ∉ search.seen)).length := by
    have hs : pool.filter (· ∉ nxt :: search.seen) =
        (pool.filter (· ∉ search.seen)).filter (· ≠ nxt) := by
      rw [filter_filter]
      exact filter_congr fun x _ => by simp
    rw [hs, length_filter_lt_length_iff_exists]
    exact ⟨nxt, mem_filter.2 ⟨hpool, by simpa using hnew⟩, by simp⟩
  have hq : (if nxt ∈ noTransit then search.queue else search.queue ++ [nxt]).length ≤
      search.queue.length + 1 := by
    split
    · exact Nat.le_succ _
    · simp
  simp only [Search.left]
  omega

def Shortest (m : StateMachine σ) (noTransit : List σ) (s t : σ) (hops : List σ) : Prop :=
  Route m noTransit s t hops ∧
    ∀ others, Route m noTransit s t others → hops.length ≤ others.length

/-- STEP LEMMA: a state's successors, with the target among them or not. -/
theorem Searching.discoverAll (hpool : ∀ x y, m.Allows x y → y ∈ pool)
    (h : Searching m noTransit s target level k state rest search) (hne : target ≠ s)
    (hs : state ∈ search.seen ∧ Open noTransit s state ∧ level state = k)
    (hall : ∀ x ∈ rest, m.Allows state x) :
    (∀ hops, StateMachine.discover noTransit s target state rest search = .inl hops →
        Shortest m noTransit s target hops) ∧
      ∀ after, StateMachine.discover noTransit s target state rest search = .inr after →
        after.left pool ≤ search.left pool ∧
          ∃ level', Searching m noTransit s target level' k state [] after := by
  induction rest generalizing level search with
  | nil =>
    refine ⟨nofun, fun after ha => ?_⟩
    obtain rfl := Sum.inr.inj ha
    exact ⟨Nat.le_refl _, level, h⟩
  | cons nxt rest ih =>
    have hrest : ∀ x ∈ rest, m.Allows state x := fun x hx => hall x (mem_cons_of_mem _ hx)
    have hn : m.Allows state nxt := hall nxt mem_cons_self
    rw [StateMachine.discover]
    by_cases hseen : nxt ∈ search.seen
    · rw [if_pos hseen]
      exact ih (h.pass hs.2.2 hseen) hs hrest
    rw [if_neg hseen]
    by_cases ht : nxt = target
    · rw [if_pos ht]
      subst ht
      refine ⟨fun hops hhops => ?_, nofun⟩
      obtain ⟨path, hr, hlen, hwalk⟩ :=
        (h.linked.add hs.1 hs.2.1 hn hseen).walkBack mem_cons_self hne
      rw [update_self] at hlen
      have hshortest : level state ≤ search.links.length := h.linked.short state hs.1
      obtain rfl : path = hops := by
        rw [← Sum.inl.inj hhops, hwalk _ [] ?_, append_nil]
        rw [update_self, length_cons]
        omega
      refine ⟨hr, fun others ho => ?_⟩
      by_contra hlong
      exact h.unseen (h.discovered hs.2.2 ho (by omega)).1
    · rw [if_neg ht]
      have hf := h.discover hs hn hseen ht
      have hin : state ∈ nxt :: search.seen := mem_cons_of_mem _ hs.1
      have hl : update level nxt (k + 1) state = k := by
        rw [update_of_ne (ne_of_mem_of_not_mem hs.1 hseen)]
        exact hs.2.2
      obtain ⟨hinl, hinr⟩ := ih hf ⟨hin, hs.2.1, hl⟩ hrest
      refine ⟨hinl, fun after ha => ?_⟩
      obtain ⟨hleft, hinv⟩ := hinr after ha
      exact ⟨hleft.trans (Search.left_discover (hpool state nxt hn) hseen), hinv⟩

/-- STEP LEMMA: the front of the queue is expanded. -/
theorem Searching.pop {queue : List σ}
    (h : Searching m noTransit s target level k state [] ⟨nxt :: queue, seen, links⟩) :
    Searching m noTransit s target level (level nxt) nxt (m.transitions nxt)
      ⟨queue, seen, links⟩ := by
  obtain ⟨hf, hsort⟩ := pairwise_cons.1 h.sorted
  have hk : k ≤ level nxt := (h.queued nxt mem_cons_self).2.2
  refine ⟨h.linked, fun q hq => ?_, hsort, fun x hx => ?_,
    fun x hx hopen hqueued y hy => ?_, h.unseen⟩
  · obtain ⟨hseen, hopen, -⟩ := h.queued q (mem_cons_of_mem _ hq)
    exact ⟨hseen, hopen, hf q hq⟩
  · exact (h.near x hx).trans (Nat.succ_le_succ hk)
  · by_cases hx' : x = nxt
    · subst hx'
      exact .inr ⟨rfl, hy⟩
    · have hnot : x ∉ nxt :: queue := by
        rw [mem_cons, not_or]
        exact ⟨hx', hqueued⟩
      rcases h.closed x hx hopen hnot y hy with hdone | ⟨-, hnil⟩
      · exact .inl hdone
      · cases hnil

/-- RUN LEMMA: with fuel for what is left the search answers a shortest route, if there is one. -/
theorem Searching.finds (hpool : ∀ x y, m.Allows x y → y ∈ pool) (hne : target ≠ s) {fuel : Nat}
    (h : Searching m noTransit s target level k state [] search) (hfuel : search.left pool ≤ fuel) :
    (∀ hops, m.search noTransit s target fuel search = some hops →
        Shortest m noTransit s target hops) ∧
      (m.search noTransit s target fuel search = none →
        ∀ hops, ¬ Route m noTransit s target hops) := by
  induction fuel generalizing level k state search with
  | zero =>
    refine ⟨nofun, fun _ hops hr => h.unseen (h.exhausted ?_ hr)⟩
    unfold Search.left at hfuel
    exact length_eq_zero_iff.1 (by omega)
  | succ fuel ih =>
    obtain ⟨queue, seen, links⟩ := search
    cases queue with
    | nil => exact ⟨nofun, fun _ hops hr => h.unseen (h.exhausted rfl hr)⟩
    | cons front queue =>
      obtain ⟨hseen, hopen, -⟩ := h.queued front mem_cons_self
      obtain ⟨hinl, hinr⟩ := h.pop.discoverAll hpool hne ⟨hseen, hopen, rfl⟩ fun x hx => hx
      rw [StateMachine.search]
      dsimp only
      cases hd : StateMachine.discover noTransit s target front (m.transitions front)
          { queue := queue, seen := seen, links := links } with
      | inl found =>
        refine ⟨fun hops hhops => ?_, nofun⟩
        obtain rfl := Option.some.inj hhops
        exact hinl found hd
      | inr after =>
        obtain ⟨hleft, level', hinv⟩ := hinr after hd
        refine ih hinv ?_
        simp only [Search.left, length_cons] at hleft hfuel ⊢
        omega

end StateMachine

-- ==== the table

namespace TransitionTable

open StateMachine

variable {σ : Type} [DecidableEq σ] {table : TransitionTable σ} {noTransit : List σ}
  {current target : σ}

theorem machine_allows {x y : σ} : table.machine.Allows x y ↔ y ∈ table.targets x :=
  mem_mergeSort

theorem mem_mentioned {x y : σ} (h : table.machine.Allows x y) :
    x ∈ table.states ∧ y ∈ table.mentioned := by
  rw [machine_allows, targets] at h
  cases he : Lib.Keyed.lookup Prod.fst table.entries x with
  | none => simp [he] at h
  | some entry =>
    rw [he] at h
    obtain ⟨hmem, rfl⟩ := Lib.Keyed.lookup_mem he
    exact ⟨mem_map_of_mem hmem, mem_append_right _ (mem_flatMap.2 ⟨entry, hmem, h⟩)⟩

theorem not_route (hc : current ∉ table.states) (hne : current ≠ target) (hops : List σ) :
    ¬ Route table.machine noTransit current target hops := by
  have hnone : ∀ x hops, Route table.machine noTransit current x hops → x = current := by
    intro x hops h
    induction h with
    | here => rfl
    | hop p x hops _ _ hall ih =>
      subst ih
      exact absurd (mem_mentioned hall).1 hc
  exact fun h => hne (hnone target hops h).symm

theorem searching_start (hne : target ≠ current) (state : σ) :
    Searching table.machine noTransit current target (fun _ => 0) 0 state []
      ⟨[current], [current], []⟩ where
  linked := ⟨⟨mem_singleton_self _, rfl⟩,
    fun _ hx hx' => absurd (mem_singleton.1 hx) hx', fun _ _ => Nat.le_refl 0⟩
  queued := fun _ hq => ⟨hq, .inl (mem_singleton.1 hq), Nat.le_refl 0⟩
  sorted := pairwise_singleton _ _
  near := fun _ _ => Nat.zero_le _
  closed := fun _ hx _ hqueued => absurd hx hqueued
  unseen := fun h => hne (mem_singleton.1 h)

/-- `path_to` answers a shortest of the routes that pass through no closed state, or nothing. -/
theorem pathTo_shortest (table : TransitionTable σ) (noTransit : List σ) (current target : σ) :
    (∀ hops, table.pathTo noTransit current target = some hops →
        Shortest table.machine noTransit current target hops) ∧
      (table.pathTo noTransit current target = some [] ↔ current = target) ∧
      (table.pathTo noTransit current target = none ↔
        ¬ ∃ hops, Route table.machine noTransit current target hops) := by
  by_cases hsame : current = target
  · subst hsame
    have hpath : table.pathTo noTransit current current = some [] := if_pos rfl
    rw [hpath]
    refine ⟨fun hops hhops => ?_, iff_of_true rfl rfl, iff_of_false nofun (not_not.2 ⟨[], .here⟩)⟩
    obtain rfl := Option.some.inj hhops
    exact ⟨.here, fun _ _ => Nat.zero_le _⟩
  have hempty : ∀ hops, Route table.machine noTransit current target hops → hops ≠ [] := by
    intro hops h hnil
    cases h with
    | here => exact hsame rfl
    | hop p x hops _ _ _ => simp at hnil
  suffices h : (∀ hops, table.pathTo noTransit current target = some hops →
        Shortest table.machine noTransit current target hops) ∧
      (table.pathTo noTransit current target = none →
        ∀ hops, ¬ Route table.machine noTransit current target hops) by
    refine ⟨h.1, iff_of_false (fun hnil => hempty _ (h.1 _ hnil).1 rfl) hsame, fun hnone => ?_,
      fun hnone => ?_⟩
    · exact not_exists.2 (h.2 hnone)
    · cases hpath : table.pathTo noTransit current target with
      | none => rfl
      | some hops => exact absurd ⟨hops, (h.1 hops hpath).1⟩ hnone
  unfold pathTo
  rw [if_neg hsame]
  by_cases hcovered : current ∈ table.states
  · rw [if_pos hcovered, StateMachine.pathTo, if_neg hsame]
    refine (searching_start (Ne.symm hsame) current).finds (fun x y h => (mem_mentioned h).2)
      (Ne.symm hsame) ?_
    have hin : current ∈ table.mentioned := mem_append_left _ hcovered
    have hfewer : (table.mentioned.filter (· ∉ [current])).length < table.mentioned.length :=
      length_filter_lt_length_iff_exists.2 ⟨current, hin, by simp⟩
    simp only [Search.left, length_singleton]
    omega
  · rw [if_neg hcovered]
    exact ⟨nofun, fun _ => not_route hcovered hsame⟩

end TransitionTable

end Synthorg.Core
