/-
Forests kept as a flat list of members that name their parents.

A member names at most one parent, and nothing else says where it sits. The walks up take fuel; on
a forest (`IsForest`: distinct keys, known parents, and no cycle) any fuel past a member's rank
gives the same answer.

`preorder_perm` is the point: the top-down enumeration lists every member
exactly once.
-/
import Synthorg.Lib.Keyed
import Synthorg.Lib.Layers
import Mathlib.Data.List.Flatten

namespace Synthorg.Lib

open List

namespace Forest

variable {ι κ : Type*} [DecidableEq κ] (key : ι → κ) (parent : ι → Option κ)

-- ==== the walks

/-- The members directly under `p`; the roots under `none`. -/
def childrenOf (items : List ι) (p : Option κ) : List ι :=
  items.filter fun x => parent x = p

def up (items : List ι) (k : κ) : Option κ :=
  (Keyed.lookup key items k).bind parent

/-- How many members stand on the way up from `p`, `p` included. -/
def depthFrom (items : List ι) : Nat → Option κ → Nat
  | 0, _ => 0
  | _ + 1, none => 0
  | fuel + 1, some k => depthFrom items fuel (up key parent items k) + 1

def depth (items : List ι) (k : κ) : Nat :=
  depthFrom key parent items (items.length + 1) (up key parent items k)

/-- The members on the way down to `p`, root first, `p` included. -/
def chainFrom (items : List ι) : Nat → Option κ → List ι
  | 0, _ => []
  | _ + 1, none => []
  | fuel + 1, some k =>
    match Keyed.lookup key items k with
    | none => []
    | some x => chainFrom items fuel (parent x) ++ [x]

def chain (items : List ι) (k : κ) : List ι :=
  chainFrom key parent items (items.length + 2) (some k)

/-- A level, then each of its members' subtrees. -/
def preorder (items : List ι) : Nat → Option κ → List ι
  | 0, _ => []
  | fuel + 1, p =>
    childrenOf parent items p ++
      (childrenOf parent items p).flatMap fun x => preorder items fuel (some (key x))

-- ==== the forest

structure IsForest (items : List ι) : Prop where
  distinct : Keyed.Distinct key items
  known : ∀ x ∈ items, ∀ p, parent x = some p → p ∈ items.map key
  ranked : ∃ rank : κ → Nat, (∀ k, rank k ≤ items.length) ∧
    ∀ x ∈ items, ∀ p, parent x = some p → rank p < rank (key x)

variable {key parent} {items : List ι}

variable {p : Option κ} {x y : ι} {rank : κ → Nat} {fuel n : Nat}

theorem mem_childrenOf : x ∈ childrenOf parent items p ↔ x ∈ items ∧ parent x = p := by
  simp [childrenOf]

omit [DecidableEq κ] in
theorem IsForest.parent_mem (h : IsForest key parent items) (hx : x ∈ items) {p : κ}
    (hp : parent x = some p) : ∃ y ∈ items, key y = p := by
  have hmem := h.known x hx p hp
  rw [mem_map] at hmem
  exact hmem

theorem IsForest.up_key (h : IsForest key parent items) (hx : x ∈ items) :
    up key parent items (key x) = parent x := by
  unfold up
  rw [Keyed.lookup_key h.distinct hx]
  rfl

theorem depthFrom_stable (hrank : ∀ x ∈ items, ∀ p, parent x = some p → rank p < rank (key x))
    {k : κ} (hfuel : rank k < fuel) : depthFrom key parent items (fuel + 1) (some k) =
      depthFrom key parent items fuel (some k) := by
  induction fuel generalizing k with
  | zero => exact absurd hfuel (Nat.not_lt_zero _)
  | succ fuel ih =>
    rw [depthFrom]
    congr 1
    cases hup : up key parent items k with
    | none => cases fuel <;> rfl
    | some p =>
      obtain ⟨x, hx, hp⟩ := Option.bind_eq_some_iff.1 hup
      obtain ⟨hmem, rfl⟩ := Keyed.lookup_mem hx
      have hlt := hrank x hmem p hp
      exact ih (by omega)

theorem IsForest.depth_root (h : IsForest key parent items) (hx : x ∈ items)
    (hroot : parent x = none) : depth key parent items (key x) = 0 := by
  unfold depth
  rw [h.up_key hx, hroot]
  rfl

theorem IsForest.depth_child (h : IsForest key parent items) (hx : x ∈ items) (hy : y ∈ items)
    (hparent : parent x = some (key y)) :
    depth key parent items (key x) = depth key parent items (key y) + 1 := by
  obtain ⟨rank, hb, hrank⟩ := h.ranked
  unfold depth
  rw [h.up_key hx, hparent, depthFrom, h.up_key hy]
  congr 1
  cases hp : parent y with
  | none => cases items.length <;> rfl
  | some p =>
    have hlt := hrank y hy p hp
    have hle := hb (key y)
    exact (depthFrom_stable hrank (by omega)).symm

theorem chainFrom_stable (hrank : ∀ x ∈ items, ∀ p, parent x = some p → rank p < rank (key x))
    {k : κ} (hfuel : rank k < fuel) : chainFrom key parent items (fuel + 1) (some k) =
      chainFrom key parent items fuel (some k) := by
  induction fuel generalizing k with
  | zero => exact absurd hfuel (Nat.not_lt_zero _)
  | succ fuel ih =>
    rw [chainFrom, chainFrom]
    cases hlook : Keyed.lookup key items k with
    | none => rfl
    | some x =>
      dsimp only
      obtain ⟨hmem, rfl⟩ := Keyed.lookup_mem hlook
      congr 1
      cases hp : parent x with
      | none => cases fuel <;> rfl
      | some p =>
        have hlt := hrank x hmem p hp
        exact ih (by omega)

theorem IsForest.chain_root (h : IsForest key parent items) (hx : x ∈ items)
    (hroot : parent x = none) : chain key parent items (key x) = [x] := by
  unfold chain
  rw [chainFrom, Keyed.lookup_key h.distinct hx]
  dsimp only
  rw [hroot]
  rfl

theorem IsForest.chain_child (h : IsForest key parent items) (hx : x ∈ items)
    (hp : parent x = some (key y)) :
    chain key parent items (key x) = chain key parent items (key y) ++ [x] := by
  obtain ⟨rank, hb, hrank⟩ := h.ranked
  have hs : chainFrom key parent items (items.length + 2) (some (key y)) =
      chainFrom key parent items (items.length + 1) (some (key y)) := by
    apply chainFrom_stable hrank
    have hle := hb (key y)
    omega
  unfold chain
  rw [hs, chainFrom, Keyed.lookup_key h.distinct hx]
  dsimp only
  rw [hp]

theorem IsForest.depth_le (h : IsForest key parent items) (hx : x ∈ items) :
    depth key parent items (key x) ≤ items.length := by
  obtain ⟨rank, hb, hrank⟩ := h.ranked
  have hall : ∀ n, ∀ x ∈ items, rank (key x) = n → depth key parent items (key x) ≤ n := by
    intro n
    induction n using Nat.strong_induction_on with
    | _ n ih =>
      intro x hx hn
      cases hp : parent x with
      | none =>
        rw [h.depth_root hx hp]
        exact Nat.zero_le n
      | some p =>
        obtain ⟨y, hy, rfl⟩ := h.parent_mem hx hp
        have hlt := hrank x hx _ hp
        have hle := ih (rank (key y)) (by omega) y hy rfl
        rw [h.depth_child hx hy hp]
        omega
  exact (hall _ x hx rfl).trans (hb _)

theorem isForest_of_rank (hd : Keyed.Distinct key items)
    (hknown : ∀ x ∈ items, ∀ p, parent x = some p → p ∈ items.map key) (rank : κ → Nat)
    (hrank : ∀ x ∈ items, ∀ p, parent x = some p → rank p < rank (key x)) :
    IsForest key parent items := by
  let above := fun k => (up key parent items k).toList
  have hf : Layers.Rank above (items.map key) rank := by
    intro k hk p hp
    obtain ⟨x, hx, rfl⟩ := mem_map.1 hk
    have hup : up key parent items (key x) = some p := by simpa [above] using hp
    unfold up at hup
    rw [Keyed.lookup_key hd hx] at hup
    exact hrank x hx p hup
  have hrest := Layers.peel_rest_of_rank hf (Nat.le_refl _)
  obtain ⟨own, hb, hown⟩ := Layers.exists_rank_of_peel hd hrest
  refine ⟨hd, hknown, own, fun k => ?_, fun x hx p hp => ?_⟩
  · rw [← length_map key]
    exact hb k
  · apply hown (key x) (mem_map_of_mem hx)
    show p ∈ (up key parent items (key x)).toList
    unfold up
    rw [Keyed.lookup_key hd hx]
    simpa using hp

-- ==== the enumeration

theorem preorder_mem_items (h : x ∈ preorder key parent items fuel p) : x ∈ items := by
  induction fuel generalizing p with
  | zero => cases h
  | succ fuel ih =>
    rw [preorder, mem_append, mem_flatMap] at h
    rcases h with h | ⟨y, -, h⟩
    · exact (mem_childrenOf.1 h).1
    · exact ih h

theorem preorder_mono (h : x ∈ preorder key parent items fuel p) :
    x ∈ preorder key parent items (fuel + 1) p := by
  induction fuel generalizing p with
  | zero => cases h
  | succ fuel ih =>
    rw [preorder, mem_append, mem_flatMap] at h ⊢
    rcases h with h | ⟨y, hy, h⟩
    · exact .inl h
    · exact .inr ⟨y, hy, ih h⟩

theorem preorder_mono_le {fuel' : Nat} (hle : fuel ≤ fuel')
    (h : x ∈ preorder key parent items fuel p) : x ∈ preorder key parent items fuel' p := by
  induction hle with
  | refl => exact h
  | step _ ih => exact preorder_mono ih

theorem preorder_of_childless (h : childrenOf parent items p = []) :
    preorder key parent items fuel p = [] := by
  cases fuel with
  | zero => rfl
  | succ fuel => rw [preorder, h, flatMap_nil, append_nil]

theorem preorder_child {z : ι} (hx : x ∈ preorder key parent items fuel p) (hz : z ∈ items)
    (hp : parent z = some (key x)) : z ∈ preorder key parent items (fuel + 1) p := by
  induction fuel generalizing p with
  | zero => cases hx
  | succ fuel ih =>
    rw [preorder, mem_append, mem_flatMap] at hx ⊢
    rcases hx with hx | ⟨y, hy, hx⟩
    · refine .inr ⟨x, hx, ?_⟩
      rw [preorder, mem_append]
      exact .inl (mem_childrenOf.2 ⟨hz, hp⟩)
    · exact .inr ⟨y, hy, ih hx⟩

theorem IsForest.mem_preorder (h : IsForest key parent items) (hx : x ∈ items) :
    x ∈ preorder key parent items (items.length + 1) none := by
  obtain ⟨rank, hb, hrank⟩ := h.ranked
  have hall : ∀ n, ∀ x ∈ items, rank (key x) ≤ n → x ∈ preorder key parent items (n + 1) none := by
    intro n
    induction n with
    | zero =>
      intro x hx hle
      cases hp : parent x with
      | none =>
        rw [preorder, mem_append]
        exact .inl (mem_childrenOf.2 ⟨hx, hp⟩)
      | some p =>
        have hlt := hrank x hx p hp
        omega
    | succ n ih =>
      intro x hx hle
      cases hp : parent x with
      | none =>
        rw [preorder, mem_append]
        exact .inl (mem_childrenOf.2 ⟨hx, hp⟩)
      | some p =>
        obtain ⟨y, hy, rfl⟩ := h.parent_mem hx hp
        have hlt := hrank x hx _ hp
        exact preorder_child (ih y hy (by omega)) hx hp
  exact hall items.length x hx (hb (key x))

def Hangs (key : ι → κ) (parent : ι → Option κ) (items : List ι) : Nat → Option κ → ι → Prop
  | 0, p, x => parent x = p
  | n + 1, p, x => ∃ y ∈ items, parent x = some (key y) ∧ Hangs key parent items n p y

theorem hangs_of_mem_preorder (h : x ∈ preorder key parent items fuel p) :
    ∃ n, Hangs key parent items n p x := by
  induction fuel generalizing p with
  | zero => cases h
  | succ fuel ih =>
    rw [preorder, mem_append, mem_flatMap] at h
    rcases h with h | ⟨y, hy, h⟩
    · exact ⟨0, (mem_childrenOf.1 h).2⟩
    · obtain ⟨n, hn⟩ := ih h
      obtain ⟨hmem, hp⟩ := mem_childrenOf.1 hy
      refine ⟨n + 1, ?_⟩
      -- lengthen the chain by the step from `y` up to `p`
      have hl : ∀ m z, Hangs key parent items m (some (key y)) z →
          Hangs key parent items (m + 1) p z := by
        intro m
        induction m with
        | zero =>
          intro z hz
          exact ⟨y, hmem, hz, hp⟩
        | succ m ihm =>
          rintro z ⟨w, hw, hzw, hrest⟩
          exact ⟨w, hw, hzw, ihm w hrest⟩
      exact hl n x hn

section
variable (h : IsForest key parent items)
include h

/-- What hangs `n` steps under a member sits `n + 1` deeper. -/
theorem IsForest.depth_hangs (hx : x ∈ items) (hy : y ∈ items)
    (hh : Hangs key parent items n (some (key y)) x) :
    depth key parent items (key x) = depth key parent items (key y) + n + 1 := by
  induction n generalizing x with
  | zero => exact h.depth_child hx hy hh
  | succ n ih =>
    obtain ⟨z, hz, hxz, hrest⟩ := hh
    have hdz := ih hz hrest
    rw [h.depth_child hx hz hxz]
    omega

theorem IsForest.hangs_unique {q : Option κ} (hx : x ∈ items)
    (hp : Hangs key parent items n p x) (hq : Hangs key parent items n q x) : p = q := by
  induction n generalizing x with
  | zero => exact hp.symm.trans hq
  | succ n ih =>
    obtain ⟨y, hy, hxy, hp⟩ := hp
    obtain ⟨z, hz, hxz, hq⟩ := hq
    have hkey : key y = key z := Option.some.inj (hxy.symm.trans hxz)
    have hyz : y = z := Keyed.eq_of_key h.distinct hy hz hkey
    subst hyz
    exact ih hy hp hq

theorem IsForest.nodup_preorder (fuel : Nat)
    (p : Option κ) : (preorder key parent items fuel p).Nodup := by
  induction fuel generalizing p with
  | zero => exact nodup_nil
  | succ fuel ih =>
    have hitems := Keyed.nodup_of_distinct h.distinct
    have hl : (childrenOf parent items p).Nodup := hitems.filter _
    -- members of one level sit at one depth
    have hd : ∀ a ∈ childrenOf parent items p, ∀ b ∈ childrenOf parent items p,
        depth key parent items (key a) = depth key parent items (key b) := by
      intro a ha b hb
      obtain ⟨hamem, hap⟩ := mem_childrenOf.1 ha
      obtain ⟨hbmem, hbp⟩ := mem_childrenOf.1 hb
      cases hp : p with
      | none => rw [h.depth_root hamem (hap.trans hp), h.depth_root hbmem (hbp.trans hp)]
      | some k =>
        obtain ⟨y, hy, rfl⟩ := h.parent_mem hamem (hap.trans hp)
        rw [h.depth_child hamem hy (hap.trans hp), h.depth_child hbmem hy (hbp.trans hp)]
    have hbelow : ∀ a ∈ childrenOf parent items p, ∀ x,
        x ∈ preorder key parent items fuel (some (key a)) →
        ∃ n, Hangs key parent items n (some (key a)) x ∧
          depth key parent items (key x) = depth key parent items (key a) + n + 1 := by
      intro a ha x hx
      obtain ⟨n, hn⟩ := hangs_of_mem_preorder hx
      exact ⟨n, hn, h.depth_hangs (preorder_mem_items hx) (mem_childrenOf.1 ha).1 hn⟩
    rw [preorder, nodup_append']
    refine ⟨hl, ?_, ?_⟩
    · rw [nodup_flatMap]
      refine ⟨fun a _ => ih (some (key a)), ?_⟩
      apply hl.pairwise_of_forall_ne
      intro a ha b hb hne x hxa hxb
      obtain ⟨n, hn, hdn⟩ := hbelow a ha x hxa
      obtain ⟨m, hm, hdm⟩ := hbelow b hb x hxb
      have hnm : n = m := by
        have hab := hd a ha b hb
        omega
      subst hnm
      have hkeys := h.hangs_unique (preorder_mem_items hxa) hn hm
      exact hne (Keyed.eq_of_key h.distinct (mem_childrenOf.1 ha).1
        (mem_childrenOf.1 hb).1 (Option.some.inj hkeys))
    · intro x hx hxbel
      rw [mem_flatMap] at hxbel
      obtain ⟨a, ha, hxa⟩ := hxbel
      obtain ⟨n, -, hdn⟩ := hbelow a ha x hxa
      have hsame := hd x hx a ha
      omega

/-- THE ENUMERATION lists every member of a forest exactly once. -/
theorem IsForest.preorder_perm :
    (preorder key parent items (items.length + 1) none).Perm items := by
  rw [perm_ext_iff_of_nodup (h.nodup_preorder _ _) (Keyed.nodup_of_distinct h.distinct)]
  intro x
  exact ⟨preorder_mem_items, h.mem_preorder⟩

end

-- ==== children first

/-- A level's members, each after its own subtree. -/
def postorder (key : ι → κ) (parent : ι → Option κ) (items : List ι) : Nat → Option κ → List ι
  | 0, _ => []
  | fuel + 1, p =>
    (childrenOf parent items p).flatMap fun x =>
      postorder key parent items fuel (some (key x)) ++ [x]

theorem postorder_perm_preorder (fuel : Nat) (p : Option κ) :
    (postorder key parent items fuel p).Perm (preorder key parent items fuel p) := by
  induction fuel generalizing p with
  | zero => exact .refl _
  | succ fuel ih =>
    rw [postorder, preorder]
    generalize childrenOf parent items p = level
    induction level with
    | nil => exact .refl _
    | cons x rest ihl =>
      rw [flatMap_cons, flatMap_cons, cons_append]
      refine (Perm.append ((ih _).append_right [x]) ihl).trans ?_
      rw [append_assoc, singleton_append]
      refine perm_middle.trans (Perm.cons x ?_)
      rw [← append_assoc, ← append_assoc]
      exact perm_append_comm.append_right _

theorem IsForest.postorder_perm (h : IsForest key parent items) :
    (postorder key parent items (items.length + 1) none).Perm items :=
  (postorder_perm_preorder _ _).trans h.preorder_perm

theorem exists_of_flatMap_eq {β : Type*} {xs : List ι} {f : ι → List β} {pre post : List β}
    {b : β} (h : xs.flatMap f = pre ++ b :: post) :
    ∃ x ∈ xs, ∃ before after, f x = before ++ b :: after ∧ ∀ y ∈ before, y ∈ pre := by
  induction xs generalizing pre with
  | nil => simp at h
  | cons x rest ih =>
    rw [flatMap_cons] at h
    rcases append_eq_append_iff.1 h with ⟨more, hpre, hrest⟩ | ⟨more, hx, hpost⟩
    · obtain ⟨y, hy, before, after, hfy, hsub⟩ := ih hrest
      refine ⟨y, mem_cons_of_mem _ hy, before, after, hfy, fun z hz => ?_⟩
      rw [hpre]
      exact mem_append_right _ (hsub z hz)
    · cases more with
      | nil =>
        have hnil : rest.flatMap f = [] ++ b :: post := by simpa using hpost.symm
        obtain ⟨y, hy, before, after, hfy, hsub⟩ := ih hnil
        exact ⟨y, mem_cons_of_mem _ hy, before, after, hfy,
          fun z hz => absurd (hsub z hz) not_mem_nil⟩
      | cons c more =>
        obtain ⟨rfl, -⟩ := cons.inj hpost
        exact ⟨x, mem_cons_self, pre, more, hx, fun y hy => hy⟩

theorem children_first (hbind : ∀ k, rank k ≤ items.length)
    (hrank : ∀ x ∈ items, ∀ p, parent x = some p → rank p < rank (key x))
    (hfuel : ∀ x ∈ childrenOf parent items p, items.length < fuel + rank (key x))
    {pre post : List ι} (h : postorder key parent items fuel p = pre ++ x :: post)
    (hy : y ∈ childrenOf parent items (some (key x))) : y ∈ pre := by
  induction fuel generalizing p pre post with
  | zero => simp [postorder] at h
  | succ fuel ih =>
    have hb : ∀ c ∈ childrenOf parent items p,
        ∀ z ∈ childrenOf parent items (some (key c)), items.length < fuel + rank (key z) := by
      intro c hc z hz
      obtain ⟨hz, hp⟩ := mem_childrenOf.1 hz
      have hlt := hrank z hz (key c) hp
      have hc := hfuel c hc
      omega
    obtain ⟨c, hc, before, after, hblank, hsub⟩ := exists_of_flatMap_eq h
    rcases append_eq_append_iff.1 hblank with ⟨more, hpre, hlast⟩ | ⟨more, hpost, hlast⟩
    · -- `x` is the member the block is about
      have hx : c = x := by
        cases more with
        | nil => exact (cons.inj hlast).1
        | cons z more => simp at hlast
      subst hx
      refine hsub y ?_
      rw [hpre]
      refine mem_append_left _ ?_
      cases fuel with
      | zero =>
        have hnone := hb c hc y hy
        have hle := hbind (key y)
        omega
      | succ fuel => exact mem_flatMap.2 ⟨y, hy, by simp⟩
    · cases more with
      | nil =>
        have hx : c = x := (cons.inj hlast).1.symm
        subst hx
        refine hsub y ?_
        have hw : postorder key parent items fuel (some (key c)) = before := by
          simpa using hpost
        rw [← hw]
        cases fuel with
        | zero =>
          have hnone := hb c hc y hy
          have hle := hbind (key y)
          omega
        | succ fuel => exact mem_flatMap.2 ⟨y, hy, by simp⟩
      | cons z more =>
        obtain ⟨rfl, -⟩ := cons.inj hlast
        exact hsub y (ih (hb c hc) hpost)

/-- CHILDREN FIRST: whatever hangs under a member stands before it. -/
theorem IsForest.below_first (h : IsForest key parent items) {pre post : List ι}
    (ho : postorder key parent items (items.length + 1) none = pre ++ x :: post)
    (hy : y ∈ items) (hh : Hangs key parent items n (some (key x)) y) : y ∈ pre := by
  obtain ⟨rank, hb, hrank⟩ := h.ranked
  have hfuel : ∀ x ∈ childrenOf parent items none,
      items.length < items.length + 1 + rank (key x) := fun _ _ => by omega
  induction n generalizing y with
  | zero => exact children_first hb hrank hfuel ho (mem_childrenOf.2 ⟨hy, hh⟩)
  | succ n ih =>
    obtain ⟨z, hz, hp, hrest⟩ := hh
    obtain ⟨before, after, hs⟩ := append_of_mem (ih hz hrest)
    have hcut : postorder key parent items (items.length + 1) none =
        before ++ z :: (after ++ x :: post) := by
      rw [ho, hs]
      simp
    have hbefore := children_first hb hrank hfuel hcut (mem_childrenOf.2 ⟨hy, hp⟩)
    rw [hs]
    exact mem_append_left _ hbefore

end Forest

end Synthorg.Lib
