/-
The critical path is the first in order of the longest chains.

A visit that comes back has settled its node: the chain it keeps leads all chains
to the node, and whatever the node depends on is settled too. A visit that meets a
node being visited has found a cycle, since each node on the path of the visits
waits on the next; and a graph all of whose nodes are settled has none, since the
lengths of the chains kept rise along every dependency.
-/
import Synthorg.Lib.Layers
import Synthorg.Lib.Keyed

namespace Synthorg.Initiative

open Lib

section

inductive VisitMark
  | unvisited
  | inProgress
  | done

/-- `state` and `best`. -/
structure Visits (K : Type) where
  state : K → VisitMark
  best : K → List K

/-- A map of nodes to the nodes they depend on. -/
structure Dependencies (K : Type) where
  entries : List (K × List K)
  distinct : Keyed.Distinct Prod.fst entries

variable {K : Type} [LinearOrder K]

/-- Longer wins, and of two as long the one first in order. -/
def outranks (candidate incumbent : List K) : Bool :=
  if candidate.length ≠ incumbent.length then incumbent.length < candidate.length
  else candidate ≠ [] && candidate < incumbent

def visitAll (visit : K → Visits K → Option (List K) × Visits K) (nodes : List K) :
    List K → List K → Visits K → Option (List K) × Visits K
  | [], longest, v => (some longest, v)
  | parent :: rest, longest, v =>
    if parent ∈ nodes then
      match visit parent v with
      | (none, v) => (none, v)
      | (some resolved, v) =>
        visitAll visit nodes rest (if outranks resolved longest then resolved else longest) v
    else visitAll visit nodes rest longest v

def Visits.enter (v : Visits K) (node : K) : Visits K :=
  { v with state := Function.update v.state node .inProgress }

def Visits.finish (v : Visits K) (node : K) (chain : List K) : Visits K :=
  { state := Function.update v.state node .done
    best := Function.update v.best node chain }

def chainEndingAt (dependencies : K → List K) (nodes : List K) :
    Nat → K → Visits K → Option (List K) × Visits K
  | 0, _, v => (none, v)
  | fuel + 1, node, v =>
    match v.state node with
    | .inProgress => (none, v)
    | .done => (some (v.best node), v)
    | .unvisited =>
      match visitAll (chainEndingAt dependencies nodes fuel) nodes
          ((dependencies node).insertionSort (· ≤ ·)) [] (v.enter node) with
      | (none, v) => (none, v)
      | (some longest, v) => (some (longest ++ [node]), v.finish node (longest ++ [node]))

namespace Dependencies

variable (d : Dependencies K)

/-- `sorted(dependencies)`. -/
def nodes : List K := (d.entries.map Prod.fst).insertionSort (· ≤ ·)

def of (node : K) : List K := Keyed.edges Prod.fst Prod.snd d.entries node

def longestDependencyChain : List K :=
  match visitAll (chainEndingAt d.of d.nodes (d.nodes.length + 1)) d.nodes d.nodes []
      ⟨fun _ => .unvisited, fun _ => []⟩ with
  | (none, _) => []
  | (some overall, _) => overall

end Dependencies

end

open Function (update_self update_of_ne)
open List

variable {K : Type} [LinearOrder K]

-- ==== outranking

variable {c path : List K} {S : List K → Prop} {v : Visits K} {node : K} {d : List K}

theorem precedes_of_outranks (h : outranks c d = true) : Layers.Precedes c d := by
  unfold outranks at h
  split at h
  · exact .inl (of_decide_eq_true h)
  next hlen =>
    rw [Bool.and_eq_true, decide_eq_true_eq, decide_eq_true_eq] at h
    exact .inr ⟨(not_not.1 hlen).symm, h.2.le⟩

theorem precedes_of_not_outranks (hne : c ≠ []) (h : outranks c d = false) :
    Layers.Precedes d c := by
  unfold outranks at h
  split at h
  next hlen =>
    rw [decide_eq_false_iff_not] at h
    exact .inl (by omega)
  next hlen =>
    rw [Bool.and_eq_false_iff, decide_eq_false_iff_not, decide_eq_false_iff_not] at h
    exact .inr ⟨not_not.1 hlen, not_lt.1 (h.resolve_left (not_not.2 hne))⟩

theorem leads_pick {T : List K → Prop} (hd : Layers.Leads S d)
    (hc : T c ∧ ∀ e, T e → Layers.Precedes c e) (hne : c ≠ []) :
    Layers.Leads (fun e => S e ∨ T e) (if outranks c d then c else d) := by
  rcases hd with ⟨rfl, hnone⟩ | ⟨hS, hf⟩
  · have hout : outranks c [] = true := by
      unfold outranks
      simp [length_pos_iff.2 hne, hne]
    rw [if_pos hout]
    exact .inr ⟨.inr hc.1, fun e he => hc.2 e (he.resolve_left (hnone e))⟩
  · cases hout : outranks c d with
    | true =>
      have hp := precedes_of_outranks hout
      refine .inr ⟨.inr hc.1, fun e he => ?_⟩
      rcases he with he | he
      · exact hp.trans (hf e he)
      · exact hc.2 e he
    | false =>
      have hp := precedes_of_not_outranks hne hout
      refine .inr ⟨.inl hS, fun e he => ?_⟩
      rcases he with he | he
      · exact hf e he
      · exact hp.trans (hc.2 e he)

-- ==== the visits

def known (dependencies : K → List K) (nodes : List K) (a : K) : List K :=
  (dependencies a).filter (· ∈ nodes)

variable {dependencies : K → List K} {nodes : List K}

theorem mem_known {a b : K} : b ∈ known dependencies nodes a ↔ b ∈ dependencies a ∧ b ∈ nodes := by
  simp [known]

/-- THE INVARIANT: each node of `path` waits on the one before it, and what is done is settled. -/
structure Visiting (dependencies : K → List K) (nodes : List K) (v : Visits K)
    (path : List K) : Prop where
  marked : ∀ k, v.state k = .inProgress ↔ k ∈ path
  nodup : path.Nodup
  within : ∀ k ∈ path, k ∈ nodes
  chain : path.IsChain fun before after => before ∈ known dependencies nodes after
  settled : ∀ k, v.state k = .done →
    Layers.Leads (Layers.ChainTo (known dependencies nodes) k) (v.best k) ∧
      ∀ b ∈ known dependencies nodes k, v.state b = .done

/-- The first of the chains in `S`, with `settled` done; or nothing, and then there is a cycle. -/
def Answers (dependencies : K → List K) (nodes path : List K) (v : Visits K)
    (S : List K → Prop) (settled : K → Prop) : Option (List K) × Visits K → Prop
  | (none, _) => ¬ Layers.Acyclic (known dependencies nodes)
  | (some chain, v') => Visiting dependencies nodes v' path ∧ Layers.Leads S chain ∧
      (∀ k, v.state k = .done → v'.state k = .done) ∧ ∀ k, settled k → v'.state k = .done

theorem Answers.from {v' : Visits K} {T : List K → Prop} {settled before : K → Prop}
    {answer : Option (List K) × Visits K} (h : Answers dependencies nodes path v' S before answer)
    (hmono : ∀ k, v.state k = .done → v'.state k = .done) (hST : ∀ e, S e ↔ T e)
    (hdone : ∀ k, settled k → before k ∨ v'.state k = .done) :
    Answers dependencies nodes path v T settled answer := by
  obtain rfl : S = T := funext fun e => propext (hST e)
  obtain ⟨_ | chain, after⟩ := answer
  · exact h
  · obtain ⟨hinv, hl, hkept, hb⟩ := h
    exact ⟨hinv, hl, fun k hk => hkept k (hmono k hk),
      fun k hk => (hdone k hk).elim (hb k) (hkept k)⟩

def Next (dependencies : K → List K) (nodes path : List K) (node : K) : Prop :=
  node ∈ nodes ∧ ∀ a ∈ path.head?, node ∈ known dependencies nodes a

/-- RUN LEMMA: the loop over some nodes, where the visit of one is as it should be. -/
theorem visitAll_answers {visit : K → Visits K → Option (List K) × Visits K}
    (hvisit : ∀ node v, Next dependencies nodes path node → Visiting dependencies nodes v path →
      Answers dependencies nodes path v (Layers.ChainTo (known dependencies nodes) node)
        (· = node) (visit node v)) {parents : List K}
    (hp : ∀ q ∈ parents, q ∈ nodes → Next dependencies nodes path q) {longest : List K}
    (h : Visiting dependencies nodes v path) (hlong : Layers.Leads S longest) :
    Answers dependencies nodes path v
      (fun e => S e ∨ ∃ q, (q ∈ parents ∧ q ∈ nodes) ∧
        Layers.ChainTo (known dependencies nodes) q e)
      (fun q => q ∈ parents ∧ q ∈ nodes) (visitAll visit nodes parents longest v) := by
  induction parents generalizing S longest v with
  | nil =>
    have hsame : (fun e => S e ∨ ∃ q, (q ∈ [] ∧ q ∈ nodes) ∧
        Layers.ChainTo (known dependencies nodes) q e) = S := by
      simp
    rw [hsame]
    exact ⟨h, hlong, fun _ hk => hk, fun q hq => nomatch hq.1⟩
  | cons parent rest ih =>
    have hrest : ∀ q ∈ rest, q ∈ nodes → Next dependencies nodes path q :=
      fun q hq => hp q (mem_cons_of_mem _ hq)
    unfold visitAll
    split
    next hnode =>
      have hv := hvisit parent v (hp parent mem_cons_self hnode) h
      cases hran : visit parent v with
      | mk answer v' =>
        rw [hran] at hv
        cases answer with
        | none => exact hv
        | some resolved =>
          obtain ⟨hinv, hl, hmono, hdone⟩ := hv
          have hres := hl.resolve_left fun hnone => hnone.2 _ (.root parent)
          have hpick := leads_pick hlong hres hres.1.ne_nil
          refine (ih hrest hinv hpick).from hmono (fun e => ?_) fun k hk => ?_
          · simp only [mem_cons]
            constructor
            · rintro ((he | he) | ⟨q, hq, he⟩)
              · exact .inl he
              · exact .inr ⟨parent, ⟨.inl rfl, hnode⟩, he⟩
              · exact .inr ⟨q, ⟨.inr hq.1, hq.2⟩, he⟩
            · rintro (he | ⟨q, ⟨rfl | hq, hin⟩, he⟩)
              · exact .inl (.inl he)
              · exact .inl (.inr he)
              · exact .inr ⟨q, ⟨hq, hin⟩, he⟩
          · rcases mem_cons.1 hk.1 with rfl | hmem
            · exact .inr (hdone k rfl)
            · exact .inl ⟨hmem, hk.2⟩
    next hnode =>
      -- a dependency on a node outside the map constrains nothing
      have hskip : ∀ q, q ∈ parent :: rest ∧ q ∈ nodes ↔ q ∈ rest ∧ q ∈ nodes := by
        intro q
        rw [mem_cons]
        constructor
        · rintro ⟨rfl | hq, hin⟩
          · exact absurd hin hnode
          · exact ⟨hq, hin⟩
        · exact fun hq => ⟨.inr hq.1, hq.2⟩
      refine (ih hrest h hlong).from (fun _ hk => hk) (fun e => ?_) fun k hk => ?_
      · simp only [hskip]
      · exact .inl ((hskip k).1 hk)

/-- STEP LEMMA: a node is entered. -/
theorem Visiting.enter (h : Visiting dependencies nodes v path)
    (hnext : Next dependencies nodes path node) (hs : v.state node = .unvisited) :
    Visiting dependencies nodes (v.enter node) (node :: path) := by
  have hf : node ∉ path := by
    rw [← h.marked, hs]
    nofun
  have ho : ∀ k, k ≠ node → (v.enter node).state k = v.state k := fun k hk => update_of_ne hk _ _
  have hself : (v.enter node).state node = .inProgress := update_self _ _ _
  refine ⟨fun k => ?_, nodup_cons.2 ⟨hf, h.nodup⟩,
    forall_mem_cons.2 ⟨hnext.1, h.within⟩, ?_, fun k hk => ?_⟩
  · by_cases hk : k = node
    · subst hk
      exact iff_of_true hself mem_cons_self
    · rw [ho k hk, h.marked, mem_cons]
      exact (or_iff_right hk).symm
  · cases path with
    | nil => exact isChain_singleton node
    | cons a rest => exact isChain_cons_cons.2 ⟨hnext.2 a rfl, h.chain⟩
  · have hk' : k ≠ node := by
      rintro rfl
      simp [hself] at hk
    rw [ho k hk'] at hk
    obtain ⟨hl, hall⟩ := h.settled k hk
    refine ⟨hl, fun b hb => ?_⟩
    have hdone := hall b hb
    rw [ho b ?_]
    · exact hdone
    · rintro rfl
      simp [hs] at hdone

/-- STEP LEMMA: and finished, once what it depends on is done. -/
theorem Visiting.finish {longest : List K} (h : Visiting dependencies nodes v (node :: path))
    (hl : Layers.Leads (Layers.ChainTo (known dependencies nodes) node) longest)
    (hdone : ∀ b ∈ known dependencies nodes node, v.state b = .done) :
    Visiting dependencies nodes (v.finish node longest) path := by
  obtain ⟨hf, hn⟩ := nodup_cons.1 h.nodup
  have ho : ∀ k, k ≠ node → (v.finish node longest).state k = v.state k :=
    fun k hk => update_of_ne hk _ _
  have hself : (v.finish node longest).state node = .done := update_self _ _ _
  have hs : ∀ k, v.state k = .done → (v.finish node longest).state k = .done := by
    intro k hk
    by_cases hk' : k = node
    · rw [hk', hself]
    · rw [ho k hk']
      exact hk
  refine ⟨fun k => ?_, hn, fun k hk => h.within k (mem_cons_of_mem _ hk),
    h.chain.tail, fun k hk => ?_⟩
  · by_cases hk : k = node
    · subst hk
      rw [hself]
      exact iff_of_false nofun hf
    · rw [ho k hk, h.marked, mem_cons]
      exact or_iff_right hk
  · by_cases hk' : k = node
    · subst hk'
      have hbest : (v.finish k longest).best k = longest := update_self _ _ _
      rw [hbest]
      exact ⟨hl, fun b hb => hs b (hdone b hb)⟩
    · have hbest : (v.finish node longest).best k = v.best k := update_of_ne hk' _ _
      rw [ho k hk'] at hk
      obtain ⟨hold, hall⟩ := h.settled k hk
      rw [hbest]
      exact ⟨hold, fun b hb => hs b (hall b hb)⟩

/-- RUN LEMMA: a visit with fuel for the nodes not on the path. -/
theorem chainEndingAt_answers {fuel : Nat} (hnext : Next dependencies nodes path node)
    (h : Visiting dependencies nodes v path) (hfuel : nodes.length < fuel + path.length) :
    Answers dependencies nodes path v (Layers.ChainTo (known dependencies nodes) node) (· = node)
      (chainEndingAt dependencies nodes fuel node v) := by
  induction fuel generalizing path node v with
  | zero =>
    have hle := (subperm_of_subset h.nodup h.within).length_le
    omega
  | succ fuel ih =>
    unfold chainEndingAt
    split
    next hs =>
      -- the node is on the path, so the first of the path waits on it and it on the first
      have hin := (h.marked node).1 hs
      cases path with
      | nil => cases hin
      | cons a rest =>
        have hedge := hnext.2 a rfl
        intro hacyclic
        rcases mem_cons.1 hin with rfl | hin
        · exact hacyclic node (Relation.TransGen.single hedge)
        · exact hacyclic node ((Layers.after_head h.chain hin).tail hedge)
    next hs =>
      refine ⟨h, (h.settled node hs).1, fun _ hk => hk, fun k hk => ?_⟩
      rw [hk]
      exact hs
    next hs =>
      have he := h.enter hnext hs
      have hp : ∀ q ∈ (dependencies node).insertionSort (· ≤ ·), q ∈ nodes →
          Next dependencies nodes (node :: path) q := by
        intro q hq hin
        refine ⟨hin, fun a ha => ?_⟩
        obtain rfl : node = a := Option.some.inj ha
        exact mem_known.2 ⟨(mem_insertionSort _).1 hq, hin⟩
      have hnone : Layers.Leads (fun _ : List K => False) [] := .inl ⟨rfl, fun _ h => h⟩
      have hloop := visitAll_answers
        (fun q v' hq hv' => ih hq hv' (by rw [length_cons]; omega)) hp he hnone
      have hmem : ∀ q, q ∈ (dependencies node).insertionSort (· ≤ ·) ∧ q ∈ nodes ↔
          q ∈ known dependencies nodes node := by
        intro q
        rw [mem_insertionSort, mem_known]
      simp only [hmem, false_or] at hloop
      cases hran : visitAll (chainEndingAt dependencies nodes fuel) nodes
          ((dependencies node).insertionSort (· ≤ ·)) [] (v.enter node) with
      | mk answer after =>
        rw [hran] at hloop
        cases answer with
        | none => exact hloop
        | some longest =>
          obtain ⟨hinv, hl, hmono, hdone⟩ := hloop
          refine ⟨hinv.finish hl.concat hdone, hl.concat, fun k hk => ?_, fun k hk => ?_⟩
          · by_cases hk' : k = node
            · rw [hk']
              exact update_self _ _ _
            · have hb : (v.enter node).state k = .done := by
                rw [← hk]
                exact update_of_ne hk' _ _
              rw [← hmono k hb]
              exact update_of_ne hk' _ _
          · rw [hk]
            exact update_self _ _ _

-- ==== the critical path

namespace Dependencies

variable {d : Dependencies K}

def Chain (d : Dependencies K) (chain : List K) : Prop :=
  ∃ a ∈ d.nodes, Layers.ChainTo (known d.of d.nodes) a chain

theorem mem_nodes {a : K} : a ∈ d.nodes ↔ a ∈ d.entries.map Prod.fst :=
  mem_insertionSort _

theorem answers : Answers d.of d.nodes [] ⟨fun _ => .unvisited, fun _ => []⟩ d.Chain (· ∈ d.nodes)
    (visitAll (chainEndingAt d.of d.nodes (d.nodes.length + 1)) d.nodes d.nodes []
      ⟨fun _ => .unvisited, fun _ => []⟩) := by
  have hs : Visiting d.of d.nodes ⟨fun _ => .unvisited, fun _ => []⟩ [] :=
    ⟨fun k => iff_of_false nofun not_mem_nil, nodup_nil, nofun, isChain_nil, nofun⟩
  have hnone : Layers.Leads (fun _ : List K => False) [] := .inl ⟨rfl, fun _ h => h⟩
  have hp : ∀ q ∈ d.nodes, q ∈ d.nodes → Next d.of d.nodes [] q := fun q _ hin => ⟨hin, nofun⟩
  have hloop := visitAll_answers
    (fun q v hq hv => chainEndingAt_answers hq hv (by simp : d.nodes.length <
      d.nodes.length + 1 + [].length)) hp hs hnone
  refine hloop.from (fun _ hk => hk) (fun e => ?_) fun k hk => .inl ⟨hk, hk⟩
  simp only [false_or, and_self]
  exact Iff.rfl

theorem acyclic_of_settled {v : Visits K} (h : Visiting d.of d.nodes v [])
    (hall : ∀ k ∈ d.nodes, v.state k = .done) : Layers.Acyclic (known d.of d.nodes) := by
  have hrank : Layers.Rank (known d.of d.nodes) d.nodes fun k => (v.best k).length := by
    intro a ha b hb
    have hbest := (h.settled a (hall a ha)).1.resolve_left fun hnone => hnone.2 _ (.root a)
    have hbelow := (h.settled b ((h.settled a (hall a ha)).2 b hb)).1.resolve_left
      fun hnone => hnone.2 _ (.root b)
    have hl := hbest.2 _ (.next a b _ hb hbelow.1)
    simp only [Layers.Precedes, length_append, length_singleton] at hl
    show (v.best b).length < (v.best a).length
    omega
  refine hrank.acyclic (fun a _ b hb => (mem_known.1 hb).2) fun a ha => ?_
  have hnone : d.of a = [] := Keyed.edges_of_not_mem fun hin => ha (mem_nodes.2 hin)
  simp [known, hnone]

/-- The first of the longest chains over the known ids, and nothing exactly for an empty map or
a cycle. -/
theorem longestDependencyChain_first (d : Dependencies K) : (d.longestDependencyChain = [] ↔
      d.entries = [] ∨ ¬ Layers.Acyclic (known d.of d.nodes)) ∧
    (d.entries ≠ [] → Layers.Acyclic (known d.of d.nodes) →
      d.Chain d.longestDependencyChain ∧
        ∀ chain, d.Chain chain → Layers.Precedes d.longestDependencyChain chain) := by
  have hanswers := d.answers
  have hempty : d.entries = [] ↔ d.nodes = [] := by
    unfold nodes
    rw [← length_eq_zero_iff, ← length_eq_zero_iff, length_insertionSort, length_map]
  unfold longestDependencyChain
  cases hran : visitAll (chainEndingAt d.of d.nodes (d.nodes.length + 1)) d.nodes d.nodes []
      ⟨fun _ => .unvisited, fun _ => []⟩ with
  | mk answer after =>
    rw [hran] at hanswers
    cases answer with
    | none =>
      exact ⟨iff_of_true rfl (Or.inr hanswers), fun _ hacyclic => absurd hacyclic hanswers⟩
    | some overall =>
      obtain ⟨hinv, hleads, -, hall⟩ := hanswers
      have hacyclic := acyclic_of_settled hinv hall
      rcases hleads with ⟨rfl, hnone⟩ | ⟨⟨a, ha, hchain⟩, hfirst⟩
      · have hnodes : d.nodes = [] :=
          eq_nil_iff_forall_not_mem.2 fun a ha => hnone [a] ⟨a, ha, .root a⟩
        exact ⟨iff_of_true rfl (Or.inl (hempty.2 hnodes)),
          fun hne => absurd (hempty.2 hnodes) hne⟩
      · have hne : d.entries ≠ [] := fun hnil => by
          simp [hempty.1 hnil] at ha
        exact ⟨iff_of_false hchain.ne_nil fun h => h.elim hne fun hcycle => hcycle hacyclic,
          fun _ _ => ⟨⟨a, ha, hchain⟩, hfirst⟩⟩

end Dependencies

end Synthorg.Initiative
