/-
Chains of dependencies, and the two orders an acyclic graph has.

A chain to `a` runs from a root to `a`, each node waiting on the one before it.
The layers of a graph count chains: the node of layer `i` is the end of a chain
of `i + 1` nodes and of no longer one (`Layered.longest`).

`LeastFirst` is the order that takes the least of the ready nodes, again and again.

`peel` drops what waits on nothing still pending, a layer at a time. A KNOT, a nonempty list each
of whose members waits on another, contradicts acyclicity (`no_knot`), and a layer waits only on
earlier ones (`peel_layered`). `Settled` is that order said of a list.
-/
import Mathlib.Data.List.Lex
import Mathlib.Data.Fintype.Order

namespace Synthorg.Lib

open List

namespace Layers

variable {α : Type*}

-- ==== waiting, cycles

def WaitsOn (deps : α → List α) (a b : α) : Prop := b ∈ deps a

/-- `a` waits on `b` through any number of nodes, one at least. -/
def After (deps : α → List α) : α → α → Prop :=
  Relation.TransGen (WaitsOn deps)

def Acyclic (deps : α → List α) : Prop := ∀ a, ¬ After deps a a

/-- Dependencies never lead out of `nodes`. -/
def Closed (deps : α → List α) (nodes : List α) : Prop :=
  ∀ a ∈ nodes, ∀ d ∈ deps a, d ∈ nodes

/-- A number that falls along every dependency of `nodes`. -/
def Rank (deps : α → List α) (nodes : List α) (rank : α → Nat) : Prop :=
  ∀ a ∈ nodes, ∀ d ∈ deps a, rank d < rank a

variable {deps : α → List α} {nodes pending done order : List α} {a : α} {fuel : Nat}
  {layers : List (List α)}

theorem After.mem (hc : Closed deps nodes) {b : α} (h : After deps a b) (ha : a ∈ nodes) :
    b ∈ nodes := by
  induction h with
  | single hab => exact hc a ha _ hab
  | tail _ hbc ih => exact hc _ ih _ hbc

theorem Rank.after_lt {rank : α → Nat} (hrank : Rank deps nodes rank) (hc : Closed deps nodes)
    {b : α} (h : After deps a b) (ha : a ∈ nodes) : rank b < rank a := by
  induction h with
  | single hab => exact hrank a ha _ hab
  | tail hab hbc ih =>
    have hb := After.mem hc hab ha
    have hlt := hrank _ hb _ hbc
    omega

theorem Rank.acyclic {rank : α → Nat} (hrank : Rank deps nodes rank) (hc : Closed deps nodes)
    (hrest : ∀ a, a ∉ nodes → deps a = []) : Acyclic deps := by
  intro a ha
  by_cases hmem : a ∈ nodes
  · exact Nat.lt_irrefl _ (hrank.after_lt hc ha hmem)
  · have hnone : ∀ b, ¬ WaitsOn deps a b := by
      intro b hb
      simp [WaitsOn, hrest a hmem] at hb
    obtain ⟨b, hb, -⟩ := Relation.TransGen.head'_iff.1 ha
    exact hnone b hb

theorem no_knot (hacyclic : Acyclic deps) {knot : List α}
    (hk : ∀ a ∈ knot, ∃ d ∈ deps a, d ∈ knot) : knot = [] := by
  classical
  by_contra hne
  obtain ⟨a, ha⟩ := exists_mem_of_ne_nil knot hne
  -- "comes before" is a strict order on a finite set, so it has a minimum
  let before : { a // a ∈ knot } → { a // a ∈ knot } → Prop :=
    fun x y => After deps y.1 x.1
  have ht : IsTrans _ before := ⟨fun x y z hxy hyz => hyz.trans hxy⟩
  have hi : Std.Irrefl before := ⟨fun x hx => hacyclic x.1 hx⟩
  have hwf : WellFounded before := Finite.wellFounded_of_trans_of_irrefl before
  obtain ⟨m, -, hmin⟩ := hwf.has_min Set.univ ⟨⟨a, ha⟩, Set.mem_univ _⟩
  obtain ⟨d, hd, hmem⟩ := hk m.1 m.2
  exact hmin ⟨d, hmem⟩ (Set.mem_univ _) (Relation.TransGen.single hd)

-- ==== peeling

variable [DecidableEq α]

def ready (deps : α → List α) (pending : List α) : List α :=
  pending.filter fun a => ∀ d ∈ deps a, d ∉ pending

def without (pending layer : List α) : List α :=
  pending.filter fun a => a ∉ layer

/-- Peel at most `fuel` layers off; the second part is what is left. -/
def peel (deps : α → List α) : Nat → List α → List (List α) × List α
  | 0, pending => ([], pending)
  | fuel + 1, pending =>
    if ready deps pending = [] then ([], pending)
    else
      let below := peel deps fuel (without pending (ready deps pending))
      (ready deps pending :: below.1, below.2)

theorem mem_ready : a ∈ ready deps pending ↔ a ∈ pending ∧ ∀ d ∈ deps a, d ∉ pending := by
  simp [ready]

theorem mem_without {layer : List α} : a ∈ without pending layer ↔ a ∈ pending ∧ a ∉ layer := by
  simp [without]

theorem length_without_lt (hne : ready deps pending ≠ []) :
    (without pending (ready deps pending)).length < pending.length := by
  obtain ⟨a, ha⟩ := exists_mem_of_ne_nil _ hne
  unfold without
  rw [length_filter_lt_length_iff_exists]
  exact ⟨a, (mem_ready.1 ha).1, by simpa using ha⟩

theorem mem_layer_or_without (layer : List α) (ha : a ∈ pending) :
    a ∈ layer ∨ a ∈ without pending layer := by
  by_cases h : a ∈ layer
  · exact .inl h
  · exact .inr (mem_without.2 ⟨ha, h⟩)

theorem peel_rest (deps : α → List α) (hfuel : pending.length ≤ fuel) :
    (∀ a ∈ (peel deps fuel pending).2, a ∈ pending) ∧
      ready deps (peel deps fuel pending).2 = [] := by
  induction fuel generalizing pending with
  | zero =>
    have hnil : pending = [] := length_eq_zero_iff.1 (Nat.le_zero.1 hfuel)
    subst hnil
    exact ⟨fun a ha => ha, rfl⟩
  | succ fuel ih =>
    unfold peel
    split
    next hr => exact ⟨fun a ha => ha, hr⟩
    next hr =>
      have hlt := length_without_lt hr
      have hfuel' : (without pending (ready deps pending)).length ≤ fuel := by omega
      obtain ⟨hsub, hk⟩ := ih hfuel'
      exact ⟨fun a ha => (mem_without.1 (hsub a ha)).1, hk⟩

theorem eq_nil_of_ready_eq_nil (hacyclic : Acyclic deps) (hr : ready deps pending = []) :
    pending = [] := by
  apply no_knot hacyclic
  intro a ha
  have hnot : a ∉ ready deps pending := by
    rw [hr]
    exact not_mem_nil
  rw [mem_ready] at hnot
  push Not at hnot
  obtain ⟨d, hd, hmem⟩ := hnot ha
  exact ⟨d, hd, hmem⟩

theorem peel_rest_of_acyclic (ha : Acyclic deps) (hfuel : pending.length ≤ fuel) :
    (peel deps fuel pending).2 = [] :=
  eq_nil_of_ready_eq_nil ha (peel_rest deps hfuel).2

theorem peel_rest_of_rank {rank : α → Nat} (hrank : Rank deps pending rank)
    (hfuel : pending.length ≤ fuel) : (peel deps fuel pending).2 = [] := by
  obtain ⟨hsub, hk⟩ := peel_rest deps hfuel
  have hnone : ∀ n, ∀ a ∈ (peel deps fuel pending).2, rank a ≠ n := by
    intro n
    induction n using Nat.strong_induction_on with
    | _ n ih =>
      intro a ha hn
      have hnot : a ∉ ready deps (peel deps fuel pending).2 := by
        rw [hk]
        exact not_mem_nil
      rw [mem_ready] at hnot
      push Not at hnot
      obtain ⟨d, hd, hmem⟩ := hnot ha
      have hlt := hrank a (hsub a ha) d hd
      exact ih (rank d) (by omega) d hmem rfl
  rw [eq_nil_iff_forall_not_mem]
  exact fun a ha => hnone (rank a) a ha rfl

-- ==== layering

/-- `layers` arranges `pending`, each layer waiting only on earlier ones. -/
inductive Layered (deps : α → List α) : List α → List (List α) → Prop
  | done : Layered deps [] []
  | layer (pending layer : List α) (below : List (List α))
      (hlayer : ∀ a, a ∈ layer ↔ a ∈ ready deps pending)
      (hnodup : layer.Nodup)
      (hbelow : Layered deps (without pending layer) below) :
      Layered deps pending (layer :: below)

theorem peel_layered (hn : pending.Nodup) (hrest : (peel deps fuel pending).2 = []) :
    Layered deps pending (peel deps fuel pending).1 := by
  induction fuel generalizing pending with
  | zero =>
    have hnil : pending = [] := hrest
    subst hnil
    exact .done
  | succ fuel ih =>
    unfold peel at hrest ⊢
    split at hrest
    next hr =>
      have hnil : pending = [] := hrest
      subst hnil
      exact .done
    next hr =>
      rw [if_neg hr]
      exact .layer pending _ _ (fun a => Iff.rfl) (hn.filter _) (ih (hn.filter _) hrest)

def layerOf (layers : List (List α)) (a : α) : Nat :=
  layers.findIdx fun layer => a ∈ layer

theorem Layered.mem_flatten (h : Layered deps pending layers) (a : α) :
    a ∈ layers.flatten ↔ a ∈ pending := by
  induction h with
  | done => simp
  | layer pending layer below hl hn hb ih =>
    rw [flatten_cons, mem_append, ih, hl]
    constructor
    · rintro (hr | hrest)
      · exact (mem_ready.1 hr).1
      · exact (mem_without.1 hrest).1
    · intro ha
      rw [← hl]
      exact mem_layer_or_without layer ha

theorem Layered.nodup (h : Layered deps pending layers) : layers.flatten.Nodup := by
  induction h with
  | done => simp
  | layer pending layer below hl hn hb ih =>
    rw [flatten_cons, nodup_append']
    refine ⟨hn, ih, ?_⟩
    intro a ha hrest
    rw [hb.mem_flatten] at hrest
    exact (mem_without.1 hrest).2 ha

theorem Layered.perm (h : Layered deps pending layers) (hn : pending.Nodup) :
    layers.flatten.Perm pending :=
  (perm_ext_iff_of_nodup h.nodup hn).2 h.mem_flatten

theorem layerOf_cons (layer : List α) (below : List (List α)) (a : α) :
    layerOf (layer :: below) a = if a ∈ layer then 0 else layerOf below a + 1 := by
  unfold layerOf
  rw [findIdx_cons]
  by_cases h : a ∈ layer <;> simp [h]

/-- THE ORDER: a dependency's layer comes strictly first. -/
theorem Layered.layerOf_lt (h : Layered deps pending layers) {d : α} (ha : a ∈ pending)
    (hd : d ∈ deps a) (hmem : d ∈ pending) : layerOf layers d < layerOf layers a := by
  induction h with
  | done => cases ha
  | layer pending layer below hl hp hb ih =>
    have hnot : a ∉ layer := by
      rw [hl, mem_ready]
      rintro ⟨-, hfree⟩
      exact hfree d hd hmem
    rw [layerOf_cons, layerOf_cons]
    split
    next => omega
    next hn =>
      have hlt := ih (mem_without.2 ⟨ha, hnot⟩) (mem_without.2 ⟨hmem, hn⟩)
      omega

theorem Layered.rank (h : Layered deps pending layers) (hc : Closed deps pending) :
    Rank deps pending (layerOf layers) := by
  intro a ha d hd
  exact h.layerOf_lt ha hd (hc a ha d hd)

-- ==== settled orders

/-- Each member's dependencies stand before it, or are `done` already. -/
def Settled (deps : α → List α) : List α → List α → Prop
  | _, [] => True
  | done, a :: rest => (∀ d ∈ deps a, d ∈ done) ∧ Settled deps (a :: done) rest

omit [DecidableEq α] in
theorem Settled.mono {done' : List α} (h : Settled deps done order) (hsub : ∀ a ∈ done, a ∈ done') :
    Settled deps done' order := by
  induction order generalizing done done' with
  | nil => trivial
  | cons a rest ih =>
    refine ⟨fun d hd => hsub d (h.1 d hd), ih h.2 ?_⟩
    intro b hb
    rw [mem_cons] at hb ⊢
    rcases hb with rfl | hb
    · exact .inl rfl
    · exact .inr (hsub b hb)

omit [DecidableEq α] in
theorem Settled.append {xs ys : List α} (hxs : Settled deps done xs)
    (hys : Settled deps (xs ++ done) ys) : Settled deps done (xs ++ ys) := by
  induction xs generalizing done with
  | nil => exact hys
  | cons a rest ih =>
    refine ⟨hxs.1, ih hxs.2 (hys.mono ?_)⟩
    intro b hb
    simp only [cons_append, mem_cons, mem_append] at hb ⊢
    tauto

theorem Settled.idxOf_lt (h : Settled deps done order) {d : α} (ha : a ∈ order) (hd : d ∈ deps a)
    (hdone : d ∉ done) : order.idxOf d < order.idxOf a := by
  induction order generalizing done with
  | nil => cases ha
  | cons b rest ih =>
    by_cases hab : a = b
    · subst hab
      exact absurd (h.1 d hd) hdone
    · have hr : a ∈ rest := (mem_cons.1 ha).resolve_left hab
      rw [idxOf_cons_ne _ (fun heq => hab heq.symm)]
      by_cases hdb : d = b
      · subst hdb
        rw [idxOf_cons_self]
        omega
      · rw [idxOf_cons_ne _ (fun heq => hdb heq.symm)]
        have hlt := ih h.2 hr (by simp [hdb, hdone])
        omega

theorem Settled.rank (h : Settled deps [] order) : Rank deps order fun a => order.idxOf a := by
  intro a ha d hd
  exact h.idxOf_lt ha hd not_mem_nil

omit [DecidableEq α] in
theorem Settled.closed (h : Settled deps done order) :
    ∀ a ∈ order, ∀ d ∈ deps a, d ∈ order ∨ d ∈ done := by
  induction order generalizing done with
  | nil =>
    intro a ha
    cases ha
  | cons b rest ih =>
    intro a ha d hd
    rw [mem_cons] at ha
    rcases ha with rfl | ha
    · exact .inr (h.1 d hd)
    · rcases ih h.2 a ha d hd with hrest | hdone
      · exact .inl (mem_cons_of_mem b hrest)
      · rw [mem_cons] at hdone
        rcases hdone with rfl | hdone
        · exact .inl mem_cons_self
        · exact .inr hdone

theorem Layered.settled (h : Layered deps pending layers) (done : List α)
    (hdone : ∀ a ∈ pending, ∀ d ∈ deps a, d ∉ pending → d ∈ done) :
    Settled deps done layers.flatten := by
  induction h generalizing done with
  | done => trivial
  | layer pending layer below hl hn hb ih =>
    apply Settled.append
    · -- a layer waits on nothing of its own, so its order does not matter
      have hr : ∀ a ∈ layer, ∀ d ∈ deps a, d ∈ done := by
        intro a ha d hd
        obtain ⟨hp, hfree⟩ := mem_ready.1 ((hl a).1 ha)
        exact hdone a hp d hd (hfree d hd)
      clear hl hn hb ih hdone
      induction layer generalizing done with
      | nil => trivial
      | cons b rest ih =>
        refine ⟨hr b mem_cons_self, ih _ ?_⟩
        intro a ha d hd
        exact mem_cons_of_mem b (hr a (mem_cons_of_mem b ha) d hd)
    · apply ih
      intro a ha d hd hout
      obtain ⟨hp, -⟩ := mem_without.1 ha
      rw [mem_append]
      by_cases hmem : d ∈ pending
      · rcases mem_layer_or_without layer hmem with hin | hin
        · exact .inl hin
        · exact absurd hin hout
      · exact .inr (hdone a hp d hd hmem)

theorem exists_rank_of_peel (hn : pending.Nodup) (hrest : (peel deps fuel pending).2 = []) :
    ∃ rank : α → Nat, (∀ a, rank a ≤ pending.length) ∧ Rank deps pending rank := by
  have hl := peel_layered hn hrest
  have hperm := hl.perm hn
  have hs := hl.settled ((pending.flatMap deps).filter (· ∉ pending))
    (by
      intro a ha d hd hout
      rw [mem_filter, mem_flatMap]
      exact ⟨⟨a, ha, hd⟩, by simpa using hout⟩)
  let order := (peel deps fuel pending).1.flatten
  refine ⟨fun a => if a ∈ order then order.idxOf a + 1 else 0, ?_, ?_⟩
  · intro a
    show (if a ∈ order then order.idxOf a + 1 else 0) ≤ pending.length
    split
    next ha =>
      rw [← hperm.length_eq]
      exact idxOf_lt_length_of_mem ha
    next => exact Nat.zero_le _
  · intro a ha d hd
    have ho : a ∈ order := hperm.mem_iff.2 ha
    show (if d ∈ order then order.idxOf d + 1 else 0) < if a ∈ order then order.idxOf a + 1 else 0
    split
    next hin =>
      have hout : d ∉ (pending.flatMap deps).filter (· ∉ pending) := by
        rw [mem_filter]
        rintro ⟨-, hnot⟩
        exact absurd (hperm.mem_iff.1 hin) (by simpa using hnot)
      have hlt := hs.idxOf_lt ho hd hout
      exact Nat.succ_lt_succ hlt
    next => omega

theorem exists_settled (hacyclic : Acyclic deps) (hn : nodes.Nodup)
    (hc : Closed deps nodes) : ∃ order, order.Perm nodes ∧ Settled deps [] order := by
  have hrest := peel_rest_of_acyclic hacyclic (Nat.le_refl nodes.length)
  have hl := peel_layered hn hrest
  refine ⟨_, hl.perm hn, hl.settled [] ?_⟩
  intro a ha d hd hout
  exact absurd (hc a ha d hd) hout

end Layers

namespace Layers

variable {α : Type*} {deps : α → List α}

-- ==== the chains

/-- The nodes of a chain that ends at `a`, in dependency order. -/
inductive ChainTo (deps : α → List α) : α → List α → Prop
  | root (a : α) : ChainTo deps a [a]
  | next (a b : α) (chain : List α) (hb : b ∈ deps a) (hchain : ChainTo deps b chain) :
      ChainTo deps a (chain ++ [a])

variable {a : α} {layers : List (List α)}

variable {chain pending : List α} {i : Nat}

theorem ChainTo.ne_nil (h : ChainTo deps a chain) : chain ≠ [] := by
  cases h <;> simp

theorem after_head {k : α} {rest : List α}
    (h : (a :: rest).IsChain fun before after => before ∈ deps after) (hk : k ∈ rest) :
    After deps k a := by
  induction rest generalizing a with
  | nil => cases hk
  | cons next rest ih =>
    obtain ⟨hedge, hrest⟩ := isChain_cons_cons.1 h
    rcases mem_cons.1 hk with rfl | hk
    · exact Relation.TransGen.single hedge
    · exact Relation.TransGen.tail (ih hrest hk) hedge

theorem Rank.length_le {nodes : List α} {rank : α → Nat} (hrank : Rank deps nodes rank)
    (hc : Closed deps nodes) (h : ChainTo deps a chain) (ha : a ∈ nodes) :
    chain.length ≤ rank a + 1 := by
  induction h with
  | root a => simp
  | next a b chain hb hchain ih =>
    have hlen := ih (hc a ha b hb)
    have hlt := hrank a ha b hb
    rw [length_append, length_singleton]
    omega

variable [DecidableEq α]

theorem layerOf_eq_of_mem (hn : layers.flatten.Nodup) {layer : List α}
    (hi : layers[i]? = some layer) (ha : a ∈ layer) : layerOf layers a = i := by
  induction layers generalizing i with
  | nil => simp at hi
  | cons first below ih =>
    rw [flatten_cons, nodup_append'] at hn
    rw [layerOf_cons]
    cases i with
    | zero =>
      obtain rfl : first = layer := by simpa using hi
      exact if_pos ha
    | succ i =>
      have hmem : a ∈ below.flatten :=
        mem_flatten.2 ⟨layer, mem_of_getElem? (by simpa using hi), ha⟩
      rw [if_neg fun hf => hn.2.2 hf hmem, ih hn.2.1 (by simpa using hi)]

theorem Layered.exists_below (h : Layered deps pending layers) (ha : a ∈ pending)
    (hi : layerOf layers a = i + 1) : ∃ d ∈ deps a, d ∈ pending ∧ layerOf layers d = i := by
  induction h generalizing i with
  | done => cases ha
  | layer pending layer below hl hk hb ih =>
    rw [layerOf_cons] at hi
    split at hi
    · cases hi
    next hnot =>
      have hrest : a ∈ without pending layer := mem_without.2 ⟨ha, hnot⟩
      have hbelow : layerOf below a = i := by omega
      cases i with
      | succ i =>
        obtain ⟨d, hd, hmem, hlayer⟩ := ih hrest hbelow
        obtain ⟨hp, hn⟩ := mem_without.1 hmem
        refine ⟨d, hd, hp, ?_⟩
        rw [layerOf_cons, if_neg hn, hlayer]
      | zero =>
        -- `a` is free in the second layer and not in the first
        have hf : ∀ d ∈ deps a, d ∉ without pending layer := by
          intro d hd hmem
          have hlt := hb.layerOf_lt hrest hd hmem
          omega
        have hw : a ∉ ready deps pending := fun hr => hnot ((hl a).2 hr)
        rw [mem_ready] at hw
        push Not at hw
        obtain ⟨d, hd, hmem⟩ := hw ha
        have hin : d ∈ layer := by
          by_contra hout
          exact hf d hd (mem_without.2 ⟨hmem, hout⟩)
        refine ⟨d, hd, hmem, ?_⟩
        rw [layerOf_cons, if_pos hin]

def Longest (deps : α → List α) (a : α) (chain : List α) : Prop :=
  ChainTo deps a chain ∧ ∀ other, ChainTo deps a other → other.length ≤ chain.length

theorem Layered.longest (h : Layered deps pending layers) (hclosed : Closed deps pending)
    (ha : a ∈ pending) : ∃ chain, Longest deps a chain ∧ chain.length = layerOf layers a + 1 := by
  have hrank := h.rank hclosed
  have hc : ∀ i a, a ∈ pending → layerOf layers a = i →
      ∃ chain, ChainTo deps a chain ∧ chain.length = i + 1 := by
    intro i
    induction i with
    | zero => exact fun a _ _ => ⟨[a], .root a, rfl⟩
    | succ i ih =>
      intro a ha hi
      obtain ⟨d, hd, hmem, hl⟩ := h.exists_below ha hi
      obtain ⟨chain, hc, hlen⟩ := ih d hmem hl
      exact ⟨chain ++ [a], .next a d chain hd hc, by simp [hlen]⟩
  obtain ⟨chain, hto, hlen⟩ := hc _ a ha rfl
  refine ⟨chain, ⟨hto, fun other ho => ?_⟩, hlen⟩
  rw [hlen]
  exact hrank.length_le hclosed ho ha

-- ==== least first

variable [LE α]

inductive LeastFirst (deps : α → List α) : List α → List α → Prop
  | done : LeastFirst deps [] []
  | take (pending : List α) (a : α) (order : List α) (ha : a ∈ ready deps pending)
      (hleast : ∀ b ∈ ready deps pending, a ≤ b)
      (hrest : LeastFirst deps (without pending [a]) order) :
      LeastFirst deps pending (a :: order)

end Layers

-- ==== the best chains

namespace Layers

variable {α : Type*} [LinearOrder α]

/-- `c` comes before `d`: it is longer, or as long and not after it in order. -/
def Precedes (c d : List α) : Prop :=
  d.length < c.length ∨ d.length = c.length ∧ c ≤ d

theorem Precedes.refl (c : List α) : Precedes c c := .inr ⟨rfl, le_refl c⟩

theorem Precedes.trans {c d e : List α} (h : Precedes c d) (h' : Precedes d e) : Precedes c e := by
  rcases h with h | ⟨h, hle⟩
  · rcases h' with h' | ⟨h', -⟩
    · exact .inl (h'.trans h)
    · exact .inl (h' ▸ h)
  · rcases h' with h' | ⟨h', hle'⟩
    · exact .inl (h ▸ h')
    · exact .inr ⟨h'.trans h, hle.trans hle'⟩

theorem concat_lt {c d : List α} (h : c < d) (hlen : c.length = d.length) (s : List α) :
    c ++ s < d ++ s := by
  induction h with
  | nil => cases hlen
  | rel hlt => exact List.Lex.rel hlt
  | cons hlt ih => exact List.Lex.cons (ih (Nat.succ.inj hlen))

theorem Precedes.concat {c d : List α} (h : Precedes c d) (a : α) :
    Precedes (c ++ [a]) (d ++ [a]) := by
  rcases h with h | ⟨hlen, hle⟩
  · refine .inl ?_
    simpa using h
  · refine .inr ⟨by simpa using hlen, ?_⟩
    rcases hle.lt_or_eq with hlt | rfl
    · exact (concat_lt hlt hlen.symm [a]).le
    · exact le_refl _

/-- Of the lists in `S` the first is `c`; of none it is the empty one. -/
def Leads (S : List α → Prop) (c : List α) : Prop :=
  (c = [] ∧ ∀ d, ¬ S d) ∨ S c ∧ ∀ d, S d → Precedes c d

theorem Leads.concat {deps : α → List α} {a : α} {c : List α}
    (h : Leads (fun d => ∃ b ∈ deps a, ChainTo deps b d) c) :
    Leads (ChainTo deps a) (c ++ [a]) := by
  rcases h with ⟨rfl, hnone⟩ | ⟨⟨b, hb, hc⟩, hf⟩
  · refine .inr ⟨.root a, fun d hd => ?_⟩
    cases hd with
    | root => exact Precedes.refl _
    | next _ b chain hb hc => exact absurd ⟨b, hb, hc⟩ (hnone chain)
  · refine .inr ⟨.next a b c hb hc, fun d hd => ?_⟩
    cases hd with
    | root =>
      have hpos : 0 < c.length := length_pos_iff.2 hc.ne_nil
      refine .inl ?_
      simpa using hpos
    | next _ b' chain hb' hc' => exact (hf chain ⟨b', hb', hc'⟩).concat a

end Layers

end Synthorg.Lib
