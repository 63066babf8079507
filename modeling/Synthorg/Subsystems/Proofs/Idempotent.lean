/-
A second pass.

After a pass in which nothing raised, every enabled subsystem whose requirements are there is
`Settled`: if it is up it has not drifted, and if it is down its last attempt was over what it
would read again. It became so in its own turn, and no later turn reaches it (`Within`). What is
left for a second pass are the subsystems that are up while disabled or short of a requirement.
-/
import Mathlib.Data.List.Induction
import Synthorg.Subsystems.Reconciler

namespace Synthorg.Subsystems

open List

section
open Function (update_of_ne)

variable {Cap A : Type} [DecidableEq Cap] (env : Surroundings Cap A)

-- ==== the followers

def Captures (specs : List (Spec Cap A)) (a : A) (t u : Spec Cap A) : Prop :=
  t ∈ specs ∧ env.isActive t a = true ∧ u.provides ∈ t.requires

/-- `t` is active and requires `spec`, through active ones. -/
def Through (specs : List (Spec Cap A)) (a : A) : Spec Cap A → Spec Cap A → Prop :=
  Relation.TransGen (Captures env specs a)

/-- `t` goes down with `u`: behind one that comes back, only to be rebuilt with it. -/
def Follows (specs : List (Spec Cap A)) (a : A) (returning : Bool) (t u : Spec Cap A) : Prop :=
  Captures env specs a t u ∧ (returning = true → t.rebuildOnChange = true)

variable {env}

variable {done rest specs : List (Spec Cap A)} {t spec : Spec Cap A} {a : A}
  {returning retryDeclined : Bool} {s : State Cap A}

omit [DecidableEq Cap] in
theorem Ordered.provider_before (h : Ordered (done ++ t :: rest)) {need : Cap}
    (hneed : need ∈ t.requires) : ∀ u ∈ t :: rest, u.provides ≠ need := by
  induction done with
  | nil => exact h.1 need hneed
  | cons d done ih => exact ih h.2

omit [DecidableEq Cap] in
theorem Ordered.consumer_behind {v : Spec Cap A} (h : Ordered (done ++ spec :: rest))
    (ht : t ∈ done ++ spec :: rest) (hv : v ∈ spec :: rest) (hneed : v.provides ∈ t.requires) :
    t ∈ rest := by
  rcases mem_append.1 ht with ht | ht
  · obtain ⟨as, bs, hdone⟩ := append_of_mem ht
    rw [hdone, append_assoc, cons_append] at h
    exact absurd rfl (h.provider_before hneed v (mem_cons_of_mem _ (mem_append_right _ hv)))
  · rcases mem_cons.1 ht with heq | ht
    · rw [heq] at hneed
      exact absurd rfl (h.provider_before hneed v hv)
    · exact ht

variable (env) in
/-- WHAT THE SWEEP KEEPS: the capabilities of the spec and its followers, these in order. -/
theorem sweep_inv (spec : Spec Cap A) (a : A) (returning : Bool) (xs : List (Spec Cap A)) :
    (∀ cap, cap ∈ (xs.foldl (follow env a returning) ([spec.provides], [])).1 ↔
      cap = spec.provides ∨ ∃ u ∈ followers env xs spec a returning, u.provides = cap) ∧
    Sublist (followers env xs spec a returning) xs := by
  induction xs using List.reverseRecOn with
  | nil => simp [followers]
  | append_singleton xs t ih =>
    obtain ⟨hg, hsub⟩ := ih
    unfold followers at hg hsub ⊢
    rw [foldl_append, foldl_cons, foldl_nil]
    generalize xs.foldl (follow env a returning) ([spec.provides], []) = going at hg hsub
    rw [follow]
    split
    next => exact ⟨hg, hsub.trans (sublist_append_left _ _)⟩
    next =>
      split
      next => exact ⟨hg, hsub.trans (sublist_append_left _ _)⟩
      next =>
        split
        next => exact ⟨hg, hsub.trans (sublist_append_left _ _)⟩
        next =>
          refine ⟨fun cap => ?_, hsub.append (Sublist.refl _)⟩
          rw [mem_cons, hg]
          constructor
          · rintro (heq | heq | ⟨u, hu, heq⟩)
            · exact .inr ⟨t, mem_append_right _ mem_cons_self, heq.symm⟩
            · exact .inl heq
            · exact .inr ⟨u, mem_append_left _ hu, heq⟩
          · rintro (heq | ⟨u, hu, heq⟩)
            · exact .inr (.inl heq)
            · rcases mem_append.1 hu with hu | hu
              · exact .inr (.inr ⟨u, hu, heq⟩)
              · exact .inl (by rw [← heq, mem_singleton.1 hu])

variable {xs zone : List (Spec Cap A)} {s' : State Cap A}

theorem mem_followers_snoc {x : Spec Cap A} : x ∈ followers env (xs ++ [t]) spec a returning ↔
      x ∈ followers env xs spec a returning ∨
        (x = t ∧ env.isActive t a = true ∧ (returning = true → t.rebuildOnChange = true) ∧
          (spec.provides ∈ t.requires ∨
            ∃ u ∈ followers env xs spec a returning, u.provides ∈ t.requires)) := by
  have hg := (sweep_inv env spec a returning xs).1
  have hreq : t.requires.any (fun need => need ∈
        (xs.foldl (follow env a returning) ([spec.provides], [])).1) = true ↔
      (spec.provides ∈ t.requires ∨
        ∃ u ∈ followers env xs spec a returning, u.provides ∈ t.requires) := by
    rw [any_eq_true]
    constructor
    · rintro ⟨need, hneed, hmem⟩
      rcases (hg need).1 (of_decide_eq_true hmem) with heq | ⟨u, hu, heq⟩
      · exact .inl (heq ▸ hneed)
      · exact .inr ⟨u, hu, heq ▸ hneed⟩
    · rintro (hneed | ⟨u, hu, hneed⟩)
      · exact ⟨_, hneed, decide_eq_true ((hg _).2 (.inl rfl))⟩
      · exact ⟨_, hneed, decide_eq_true ((hg _).2 (.inr ⟨u, hu, rfl⟩))⟩
  rw [← hreq]
  unfold followers
  rw [foldl_append, foldl_cons]
  generalize xs.foldl (follow env a returning) ([spec.provides], []) = going
  rw [follow]
  by_cases hany : t.requires.any (fun need => need ∈ going.1) = true
  · by_cases hr : (returning && !t.rebuildOnChange) = true
    · have hnot : ¬ (returning = true → t.rebuildOnChange = true) := by
        simpa using hr
      simp [hr, hnot]
    · have hyes : returning = true → t.rebuildOnChange = true := by
        simpa using hr
      by_cases hact : env.isActive t a = true
      · have hsame : x = t ↔ x = t ∧ (returning = true → t.rebuildOnChange = true) :=
          (and_iff_left hyes).symm
        simpa [hany, hr, hact] using or_congr_right hsame
      · simp [hact]
  · simp [hany]

/-- THE FOLLOWERS are the active subsystems that go down with it, directly or through others. -/
theorem mem_followers (hord : Ordered specs) : t ∈ followers env specs spec a returning ↔
      Relation.TransGen (Follows env specs a returning) t spec := by
  have hmem : ∀ x, Relation.TransGen (Follows env specs a returning) x spec → x ∈ specs := by
    intro x hx
    obtain ⟨w, ⟨⟨hx, -⟩, -⟩, -⟩ := Relation.TransGen.head'_iff.1 hx
    exact hx
  -- along the sweep: what a prefix of the specs yields is what that prefix
  -- holds of them
  have he : ∀ xs ys, specs = xs ++ ys → ∀ x, x ∈ followers env xs spec a returning ↔
        x ∈ xs ∧ Relation.TransGen (Follows env specs a returning) x spec := by
    intro xs
    induction xs using List.reverseRecOn with
    | nil =>
      intro ys _ x
      simp [followers]
    | append_singleton xs u ih =>
      intro ys hs x
      rw [append_assoc] at hs
      have hpro : ∀ v ∈ specs, v.provides ∈ u.requires → v ∈ xs := by
        intro v hv hneed
        rw [hs, mem_append] at hv
        refine hv.resolve_right fun hl => ?_
        exact (hs ▸ hord).provider_before hneed v hl rfl
      have hu : u ∈ specs := by simp [hs]
      rw [mem_followers_snoc, mem_append, mem_singleton, ih _ hs]
      constructor
      · rintro (⟨hx, ht⟩ | ⟨heq, hact, hflag, hneed | ⟨v, hv, hneed⟩⟩)
        · exact ⟨.inl hx, ht⟩
        · rw [heq]
          exact ⟨.inr rfl, .single ⟨⟨hu, hact, hneed⟩, hflag⟩⟩
        · rw [heq]
          exact ⟨.inr rfl, .head ⟨⟨hu, hact, hneed⟩, hflag⟩ ((ih _ hs v).1 hv).2⟩
      · rintro ⟨hx | heq, ht⟩
        · exact .inl ⟨hx, ht⟩
        · right
          rw [heq] at ht ⊢
          obtain ⟨v, ⟨⟨-, hact, hneed⟩, hflag⟩, hrest⟩ := Relation.TransGen.head'_iff.1 ht
          refine ⟨rfl, hact, hflag, ?_⟩
          rcases Relation.reflTransGen_iff_eq_or_transGen.1 hrest with heq | hrest
          · exact .inl (heq ▸ hneed)
          · exact .inr ⟨v, (ih _ hs v).2 ⟨hpro v (hmem v hrest) hneed, hrest⟩, hneed⟩
  rw [he specs [] (by simp), and_iff_right_iff_imp]
  exact hmem t

theorem mem_followers_iff (hord : Ordered specs) :
    t ∈ followers env specs spec a false ↔ Through env specs a t spec := by
  rw [mem_followers hord]
  have hsame : Follows env specs a false = Captures env specs a := by
    funext t u
    simp [Follows]
  rw [hsame, Through]

theorem followers_behind (hord : Ordered (done ++ spec :: rest)) :
    ∀ t ∈ followers env (done ++ spec :: rest) spec a returning, t ∈ rest := by
  have he : ∀ xs ys, done ++ spec :: rest = xs ++ ys →
      ∀ x ∈ followers env xs spec a returning, x ∈ rest := by
    intro xs
    induction xs using List.reverseRecOn with
    | nil =>
      intro ys _ x hx
      simp [followers] at hx
    | append_singleton xs u ih =>
      intro ys hs x hx
      rw [append_assoc] at hs
      rcases mem_followers_snoc.1 hx with hx | ⟨heq, -, -, hneed⟩
      · exact ih _ hs x hx
      · rw [heq]
        -- it requires something at or behind the spec, so it is behind
        have hb : ∃ v ∈ spec :: rest, v.provides ∈ u.requires := by
          rcases hneed with hneed | ⟨v, hv, hneed⟩
          · exact ⟨spec, mem_cons_self, hneed⟩
          · exact ⟨v, mem_cons_of_mem _ (ih _ hs v hv), hneed⟩
        obtain ⟨v, hv, hneed⟩ := hb
        exact hord.consumer_behind (by simp [hs]) hv hneed
  exact he _ [] (by simp)

-- ==== what a turn touches

variable (env) in
/-- The state is another only in this capability. -/
structure SameOutside (provides : Cap) (a a' : A) : Prop where
  present : ∀ cap, cap ≠ provides → env.isPresent cap a' = env.isPresent cap a
  config : ∀ entry, env.config a' entry = env.config a entry
  setting : ∀ key, env.setting a' key = env.setting a key

variable (env) in
structure ActsOnOwn (spec : Spec Cap A) : Prop where
  activate : ∀ a, SameOutside env spec.provides a (spec.activate a).1
  deactivate : ∀ teardown, spec.deactivate = some teardown →
    ∀ a, SameOutside env spec.provides a (teardown a).1

variable (env) in
structure Within (zone : List (Spec Cap A)) (s s' : State Cap A) : Prop where
  present : ∀ cap, (∀ u ∈ zone, u.provides ≠ cap) →
    env.isPresent cap s'.app = env.isPresent cap s.app
  config : ∀ entry, env.config s'.app entry = env.config s.app entry
  setting : ∀ key, env.setting s'.app key = env.setting s.app key
  generation : ∀ cap, (∀ u ∈ zone, u.provides ≠ cap) →
    s'.book.generations cap = s.book.generations cap
  fingerprints : ∀ name, (∀ u ∈ zone, u.name ≠ name) →
    s'.book.fingerprints name = s.book.fingerprints name
  settings : ∀ name, (∀ u ∈ zone, u.name ≠ name) →
    s'.book.settings name = s.book.settings name
  attempted : ∀ name, (∀ u ∈ zone, u.name ≠ name) →
    s'.book.attempted name = s.book.attempted name
  calls : s.calls <+: s'.calls

namespace Within

omit [DecidableEq Cap] in
theorem refl (zone : List (Spec Cap A)) (s : State Cap A) : Within env zone s s :=
  ⟨fun _ _ => rfl, fun _ => rfl, fun _ => rfl, fun _ _ => rfl, fun _ _ => rfl, fun _ _ => rfl,
    fun _ _ => rfl, prefix_refl _⟩

omit [DecidableEq Cap] in
theorem trans {zone : List (Spec Cap A)} {s t u : State Cap A} (h : Within env zone s t)
    (h' : Within env zone t u) : Within env zone s u where
  present cap hcap := (h'.present cap hcap).trans (h.present cap hcap)
  config entry := (h'.config entry).trans (h.config entry)
  setting key := (h'.setting key).trans (h.setting key)
  generation cap hcap := (h'.generation cap hcap).trans (h.generation cap hcap)
  fingerprints name hname := (h'.fingerprints name hname).trans (h.fingerprints name hname)
  settings name hname := (h'.settings name hname).trans (h.settings name hname)
  attempted name hname := (h'.attempted name hname).trans (h.attempted name hname)
  calls := h.calls.trans h'.calls

omit [DecidableEq Cap] in
theorem mono {zone zone' : List (Spec Cap A)} {s t : State Cap A} (h : Within env zone s t)
    (hsub : ∀ u ∈ zone, u ∈ zone') : Within env zone' s t :=
  { h with
    present cap hcap := h.present cap fun u hu => hcap u (hsub u hu)
    generation cap hcap := h.generation cap fun u hu => hcap u (hsub u hu)
    fingerprints name hname := h.fingerprints name fun u hu => hname u (hsub u hu)
    settings name hname := h.settings name fun u hu => hname u (hsub u hu)
    attempted name hname := h.attempted name fun u hu => hname u (hsub u hu) }

omit [DecidableEq Cap] in
theorem of_book {spec : Spec Cap A} {s : State Cap A} {book : Book Cap}
    (hgen : book.generations = s.book.generations)
    (hf : ∀ name, spec.name ≠ name →
      book.fingerprints name = s.book.fingerprints name)
    (hs : ∀ name, spec.name ≠ name → book.settings name = s.book.settings name)
    (ha : ∀ name, spec.name ≠ name → book.attempted name = s.book.attempted name) :
    Within env [spec] s { s with book := book } where
  present _ _ := rfl
  config _ := rfl
  setting _ := rfl
  generation cap _ := congrFun hgen cap
  fingerprints name hname := hf name (hname spec mem_cons_self)
  settings name hname := hs name (hname spec mem_cons_self)
  attempted name hname := ha name (hname spec mem_cons_self)
  calls := prefix_refl _

end Within

omit [DecidableEq Cap] in
theorem within_deactivate (hown : ActsOnOwn env spec) :
    Within env [spec] s (deactivate s spec).1 := by
  rw [deactivate]
  split
  next => exact Within.refl _ _
  next teardown htear =>
    have hsame := hown.deactivate teardown htear s.app
    dsimp only
    split
    next detail _ =>
      exact
        { present := fun cap hcap => hsame.present cap (hcap spec mem_cons_self).symm
          config := hsame.config
          setting := hsame.setting
          generation := fun _ _ => rfl
          fingerprints := fun _ _ => rfl
          settings := fun _ _ => rfl
          attempted := fun _ _ => rfl
          calls := prefix_append _ _ }
    next =>
      have hne : ∀ name, (∀ u ∈ [spec], u.name ≠ name) → name ≠ spec.name :=
        fun name hname => (hname spec mem_cons_self).symm
      exact
        { present := fun cap hcap => hsame.present cap (hcap spec mem_cons_self).symm
          config := hsame.config
          setting := hsame.setting
          generation := fun _ _ => rfl
          fingerprints := fun name hname => update_of_ne (hne name hname) _ _
          settings := fun name hname => update_of_ne (hne name hname) _ _
          attempted := fun name hname => update_of_ne (hne name hname) _ _
          calls := prefix_append _ _ }

omit [DecidableEq Cap] in
theorem within_deactivateAll (hown : ∀ u ∈ zone, ActsOnOwn env u) (hsub : ∀ u ∈ xs, u ∈ zone) :
    Within env zone s (xs.foldl (fun s consumer => (deactivate s consumer).1) s) := by
  induction xs generalizing s with
  | nil => exact Within.refl _ _
  | cons u xs ih =>
    rw [forall_mem_cons] at hsub
    refine Within.trans ?_ (ih hsub.2)
    refine (within_deactivate (hown u hsub.1)).mono fun v hv => ?_
    rw [mem_singleton.1 hv]
    exact hsub.1

theorem within_takeDown (hord : Ordered (done ++ spec :: rest))
    (hown : ∀ u ∈ spec :: rest, ActsOnOwn env u) : Within env (spec :: rest) s
      (takeDown env (done ++ spec :: rest) s spec returning).1 := by
  refine (within_deactivateAll hown fun u hu => ?_).trans
    ((within_deactivate (hown spec mem_cons_self)).mono fun u hu => ?_)
  · exact mem_cons_of_mem _ (followers_behind hord u (mem_reverse.1 hu))
  · rw [mem_singleton.1 hu]
    exact mem_cons_self

theorem within_activate (hown : ActsOnOwn env spec) :
    Within env [spec] s (activate env s spec).1 := by
  have hsame := hown.activate s.app
  have hname : ∀ name, (∀ u ∈ [spec], u.name ≠ name) → name ≠ spec.name :=
    fun name h => (h spec mem_cons_self).symm
  have hcap : ∀ cap, (∀ u ∈ [spec], u.provides ≠ cap) → cap ≠ spec.provides :=
    fun cap h => (h spec mem_cons_self).symm
  have hattempted : ∀ t : State Cap A, t.app = (spec.activate s.app).1 →
      t.book.generations = s.book.generations → t.book.fingerprints = s.book.fingerprints →
      t.book.settings = s.book.settings →
      (∀ name, name ≠ spec.name → t.book.attempted name = s.book.attempted name) →
      s.calls <+: t.calls → Within env [spec] s t := by
    intro t ha hgen hf hs hattempt hc
    exact
      { present := fun cap h => ha ▸ hsame.present cap (hcap cap h)
        config := fun entry => ha ▸ hsame.config entry
        setting := fun key => ha ▸ hsame.setting key
        generation := fun cap _ => congrFun hgen cap
        fingerprints := fun name _ => congrFun hf name
        settings := fun name _ => congrFun hs name
        attempted := fun name h => hattempt name (hname name h)
        calls := hc }
  rw [activate]
  dsimp only
  split
  next => exact hattempted _ rfl rfl rfl rfl (fun name h => update_of_ne h _ _) (prefix_append _ _)
  next =>
    split
    next =>
      exact
        { present := fun cap h => hsame.present cap (hcap cap h)
          config := hsame.config
          setting := hsame.setting
          generation := fun cap h => update_of_ne (hcap cap h) _ _
          fingerprints := fun name h => update_of_ne (hname name h) _ _
          settings := fun name h => update_of_ne (hname name h) _ _
          attempted := fun name h => update_of_ne (hname name h) _ _
          calls := prefix_append _ _ }
    next =>
      exact hattempted _ rfl rfl rfl rfl (fun name h => update_of_ne h _ _) (prefix_append _ _)

omit [DecidableEq Cap] in
theorem within_attemptWorthwhile : Within env [spec] s
      { s with book := (s.book.attemptWorthwhile env spec s.app).2 } := by
  rw [Book.attemptWorthwhile]
  split
  next => exact Within.refl _ _
  next =>
    split
    next => exact Within.refl _ _
    next =>
      exact Within.of_book rfl (fun _ _ => rfl) (fun _ _ => rfl)
        fun name hname => update_of_ne hname.symm _ _

omit [DecidableEq Cap] in
theorem within_drifted :
    Within env [spec] s { s with book := (s.book.drifted env spec s.app).2 } := by
  rw [Book.drifted]
  split
  next => exact Within.refl _ _
  next =>
    split
    next => exact Within.refl _ _
    next =>
      split
      next => exact Within.refl _ _
      next =>
        exact Within.of_book rfl (fun _ _ => rfl)
          (fun name hname => update_of_ne hname.symm _ _) fun _ _ => rfl

theorem within_attempt (hown : ActsOnOwn env spec) :
    Within env [spec] s (attempt env retryDeclined s spec).1 := by
  rw [attempt]
  split
  next => exact Within.refl _ _
  next =>
    split
    next => exact within_activate hown
    next =>
      dsimp only
      split
      next => exact within_attemptWorthwhile.trans (within_activate hown)
      next => exact within_attemptWorthwhile

omit [DecidableEq Cap] in
theorem Within.gate (h : Within env (spec :: rest) s s') (hord : Ordered (done ++ spec :: rest)) :
    env.enabled spec s'.app = env.enabled spec s.app ∧
    env.missingCapabilities spec s'.app = env.missingCapabilities spec s.app := by
  constructor
  · unfold Surroundings.enabled
    split
    next => rfl
    next => rw [h.config]
  · unfold Surroundings.missingCapabilities
    exact filter_congr fun need hneed => by
      rw [h.present _ (hord.provider_before hneed)]

variable (env) in
inductive Converged (specs : List (Spec Cap A)) (retryDeclined : Bool) (s : State Cap A)
    (spec : Spec Cap A) : State Cap A → Prop
  | takenDown (hactive : env.isActive spec s.app = true)
      (hu : env.enabled spec s.app = false ∨ env.missingCapabilities spec s.app ≠ []) :
      Converged specs retryDeclined s spec (takeDown env specs s spec false).1
  | leftDown (hactive : env.isActive spec s.app = false)
      (hu : env.enabled spec s.app = false ∨ env.missingCapabilities spec s.app ≠ []) :
      Converged specs retryDeclined s spec s
  | rebuilt (henabled : env.enabled spec s.app = true)
      (hall : env.missingCapabilities spec s.app = []) (hactive : env.isActive spec s.app = true)
      (hrebuild : spec.rebuildOnChange = true)
      (hdrifted : (s.book.drifted env spec s.app).1 = true) :
      Converged specs retryDeclined s spec (attempt env retryDeclined (takeDown env specs
        { s with book := (s.book.drifted env spec s.app).2 } spec true).1 spec).1
  | kept (henabled : env.enabled spec s.app = true)
      (hall : env.missingCapabilities spec s.app = []) (hactive : env.isActive spec s.app = true)
      (hrebuild : spec.rebuildOnChange = true)
      (hdrifted : (s.book.drifted env spec s.app).1 = false) :
      Converged specs retryDeclined s spec { s with book := (s.book.drifted env spec s.app).2 }
  | attempted (henabled : env.enabled spec s.app = true)
      (hall : env.missingCapabilities spec s.app = [])
      (hrebuild : env.isActive spec s.app = true → spec.rebuildOnChange = false) :
      Converged specs retryDeclined s spec (attempt env retryDeclined s spec).1

variable (env) in
theorem converged (specs : List (Spec Cap A)) (retryDeclined : Bool) (s : State Cap A)
    (spec : Spec Cap A) :
    Converged env specs retryDeclined s spec (converge env specs retryDeclined s spec).1 := by
  have hu : (env.enabled spec s.app = false ∨ env.missingCapabilities spec s.app ≠ []) →
      (converge env specs retryDeclined s spec).1 =
        if env.isActive spec s.app then (takeDown env specs s spec false).1 else s := by
    intro h
    by_cases hon : env.enabled spec s.app = true
    · have hmiss := h.resolve_left (by simp [hon])
      by_cases hup : env.isActive spec s.app = true <;> simp [converge, hon, hmiss, hup]
    · by_cases hup : env.isActive spec s.app = true <;> simp [converge, hon, hup]
  by_cases hwant : env.enabled spec s.app = true ∧ env.missingCapabilities spec s.app = []
  · obtain ⟨hon, hall⟩ := hwant
    by_cases hr : env.isActive spec s.app = true ∧ spec.rebuildOnChange = true
    · obtain ⟨hup, hflag⟩ := hr
      by_cases hd : (s.book.drifted env spec s.app).1 = true
      · simp only [converge, hon, hall, hup, hflag, hd, Bool.not_true, Bool.false_eq_true,
          if_false, ne_eq, not_true_eq_false, Bool.and_self, if_true]
        exact .rebuilt hon hall hup hflag hd
      · simp only [converge, hon, hall, hup, hflag, hd, Bool.not_true, Bool.false_eq_true,
          if_false, ne_eq, not_true_eq_false, Bool.and_self, if_true]
        exact .kept hon hall hup hflag (Bool.not_eq_true _ ▸ hd)
    · have hboth : (env.isActive spec s.app && spec.rebuildOnChange) = false := by
        by_cases hup : env.isActive spec s.app = true
        · simpa [hup] using hr
        · simp [hup]
      simp only [converge, hon, hall, hboth, Bool.not_true, Bool.false_eq_true, if_false, ne_eq,
        not_true_eq_false]
      exact .attempted hon hall fun hup => by simpa [hup] using hboth
  · have h : env.enabled spec s.app = false ∨ env.missingCapabilities spec s.app ≠ [] := by
      rwa [not_and_or, Bool.not_eq_true] at hwant
    rw [hu h]
    split
    next hup => exact .takenDown hup h
    next hup => exact .leftDown (Bool.not_eq_true _ ▸ hup) h

/-- STEP LEMMA: a turn touches its own spec and those behind it. -/
theorem within_converge (hord : Ordered (done ++ spec :: rest))
    (hown : ∀ u ∈ spec :: rest, ActsOnOwn env u) : Within env (spec :: rest) s
      (converge env (done ++ spec :: rest) retryDeclined s spec).1 := by
  have hone : ∀ u ∈ [spec], u ∈ spec :: rest := by simp
  have hspec := hown spec mem_cons_self
  have h := converged env (done ++ spec :: rest) retryDeclined s spec
  generalize (converge env (done ++ spec :: rest) retryDeclined s spec).1 = t at h
  cases h with
  | takenDown hact hu => exact within_takeDown hord hown
  | leftDown hact hu => exact Within.refl _ _
  | rebuilt he hall hact hr hd =>
    exact ((within_drifted.mono hone).trans (within_takeDown hord hown)).trans
      ((within_attempt hspec).mono hone)
  | kept he hall hact hr hd => exact within_drifted.mono hone
  | attempted he hall hr => exact (within_attempt hspec).mono hone

theorem within_turn (hord : Ordered (done ++ spec :: rest))
    (hown : ∀ u ∈ spec :: rest, ActsOnOwn env u) :
    Within env (spec :: rest) s (turn env (done ++ spec :: rest) retryDeclined s spec) := by
  have h : Within env (spec :: rest) s
      (converge env (done ++ spec :: rest) retryDeclined s spec).1 :=
    within_converge hord hown
  rw [turn]
  dsimp only
  split
  next =>
    exact ⟨h.present, h.config, h.setting, h.generation, h.fingerprints, h.settings,
      h.attempted, h.calls⟩
  next => exact h

theorem within_turns (hord : Ordered (done ++ rest)) (hown : ∀ u ∈ rest, ActsOnOwn env u) :
    Within env rest s (rest.foldl (turn env (done ++ rest) retryDeclined) s) := by
  induction rest generalizing done s with
  | nil => exact Within.refl _ _
  | cons spec rest ih =>
    have hs : done ++ spec :: rest = (done ++ [spec]) ++ rest := by simp
    have hturn : Within env (spec :: rest) s
        (turn env (done ++ spec :: rest) retryDeclined s spec) := within_turn hord hown
    refine hturn.trans ?_
    rw [hs] at hord ⊢
    exact (ih hord fun u hu => hown u (mem_cons_of_mem _ hu)).mono fun u hu => mem_cons_of_mem _ hu

-- ==== what a turn reads

variable (env) in
/-- All a turn of `spec` reads is the same in both states. -/
structure SameFor (spec : Spec Cap A) (s s' : State Cap A) : Prop where
  enabled : env.enabled spec s'.app = env.enabled spec s.app
  active : env.isActive spec s'.app = env.isActive spec s.app
  missing : env.missingCapabilities spec s'.app = env.missingCapabilities spec s.app
  snapshot : s'.book.capabilitySnapshot env spec s'.app =
    s.book.capabilitySnapshot env spec s.app
  readings : env.settingsFingerprint spec.settings s'.app =
    env.settingsFingerprint spec.settings s.app
  fingerprints : s'.book.fingerprints spec.name = s.book.fingerprints spec.name
  settings : s'.book.settings spec.name = s.book.settings spec.name
  attempted : s'.book.attempted spec.name = s.book.attempted spec.name

omit [DecidableEq Cap] in
theorem Within.sameFor (h : Within env zone s s') (hname : ∀ u ∈ zone, u.name ≠ spec.name)
    (hp : ∀ u ∈ zone, u.provides ≠ spec.provides)
    (hreq : ∀ need ∈ spec.requires, ∀ u ∈ zone, u.provides ≠ need) :
    SameFor env spec s s' where
  enabled := by
    unfold Surroundings.enabled
    split
    next => rfl
    next entry _ => rw [h.config]
  active := h.present _ hp
  missing := by
    unfold Surroundings.missingCapabilities
    exact filter_congr fun need hneed => by rw [h.present _ (hreq need hneed)]
  snapshot := by
    unfold Book.capabilitySnapshot Surroundings.capabilityFingerprint
    apply map_congr_left
    intro need hneed
    rw [h.present _ (hreq need hneed), h.generation _ (hreq need hneed)]
  readings := by
    unfold Surroundings.settingsFingerprint
    exact map_congr_left fun key _ => h.setting key
  fingerprints := h.fingerprints _ hname
  settings := h.settings _ hname
  attempted := h.attempted _ hname

omit [DecidableEq Cap] in
theorem Accepted.apart (h : Accepted (done ++ rest)) {d : Spec Cap A} (hd : d ∈ done) :
    (∀ u ∈ rest, u.name ≠ d.name) ∧ (∀ u ∈ rest, u.provides ≠ d.provides) ∧
      ∀ need ∈ d.requires, ∀ u ∈ rest, u.provides ≠ need := by
  have hn := h.names
  have hp := h.provides
  rw [map_append, nodup_append'] at hn hp
  refine ⟨fun u hu heq => ?_, fun u hu heq => ?_, fun need hneed u hu => ?_⟩
  · exact hn.2.2 (mem_map_of_mem hd) (heq ▸ mem_map_of_mem hu)
  · exact hp.2.2 (mem_map_of_mem hd) (heq ▸ mem_map_of_mem hu)
  · obtain ⟨as, bs, hs⟩ := append_of_mem hd
    have hord := h.ordered
    rw [hs, append_assoc, cons_append] at hord
    exact hord.provider_before hneed u (mem_cons_of_mem _ (mem_append_right _ hu))

variable (env) in
theorem turn_eq (specs : List (Spec Cap A)) (retryDeclined : Bool) (s : State Cap A)
    (spec : Spec Cap A) :
    (turn env specs retryDeclined s spec).app = (converge env specs retryDeclined s spec).1.app ∧
    (turn env specs retryDeclined s spec).book =
      (converge env specs retryDeclined s spec).1.book ∧
    (turn env specs retryDeclined s spec).calls =
      (converge env specs retryDeclined s spec).1.calls := by
  rw [turn]
  dsimp only
  split <;> exact ⟨rfl, rfl, rfl⟩

/-- THE RULE OF A PASS: what each turn establishes of its own spec, and depends only on what it
reads, holds of every spec when the pass ends. -/
theorem pass_establishes (hacc : Accepted specs) (hown : ∀ u ∈ specs, ActsOnOwn env u)
    {P : State Cap A → Spec Cap A → Prop} {C : Call Cap A → Prop}
    (hsame : ∀ s s' spec, SameFor env spec s s' → P s spec → P s' spec)
    (hturn : ∀ done spec rest s, specs = done ++ spec :: rest →
      (∀ call ∈ (turn env specs retryDeclined s spec).calls, C call) →
      P (turn env specs retryDeclined s spec) spec) {app : A} {book : Book Cap}
    (hc : ∀ call ∈ (pass env specs retryDeclined app book).calls, C call) :
    ∀ d ∈ specs, P (pass env specs retryDeclined app book) d := by
  -- over the specs that have had their turn
  have hfold : ∀ rest done s, specs = done ++ rest → (∀ d ∈ done, P s d) →
      (∀ call ∈ (rest.foldl (turn env specs retryDeclined) s).calls, C call) →
      ∀ d ∈ specs, P (rest.foldl (turn env specs retryDeclined) s) d := by
    intro rest
    induction rest with
    | nil =>
      intro done s hs hdone _ d hd
      rw [hs, append_nil] at hd
      exact hdone d hd
    | cons spec rest ih =>
      intro done s hs hdone hc
      have hnext : specs = (done ++ [spec]) ++ rest := by simp [hs]
      have hzone : ∀ u ∈ spec :: rest, ActsOnOwn env u := by
        intro u hu
        exact hown u (hs ▸ mem_append_right _ hu)
      have hwith : Within env (spec :: rest) s (turn env specs retryDeclined s spec) := by
        rw [hs]
        exact within_turn (hs ▸ hacc.ordered) hzone
      have hl : Within env rest (turn env specs retryDeclined s spec)
          (rest.foldl (turn env specs retryDeclined) (turn env specs retryDeclined s spec)) := by
        rw [hnext]
        exact within_turns (hnext ▸ hacc.ordered) fun u hu => hzone u (mem_cons_of_mem _ hu)
      refine ih (done ++ [spec]) _ hnext (fun d hd => ?_) hc
      rcases mem_append.1 hd with hd | hd
      · obtain ⟨hname, hp, hreq⟩ := (hs ▸ hacc).apart hd
        exact hsame _ _ _ (hwith.sameFor hname hp hreq) (hdone d hd)
      · rw [mem_singleton.1 hd]
        exact hturn done spec rest s hs fun call hcall =>
          hc call (hl.calls.subset hcall)
  exact hfold specs [] _ rfl (forall_mem_nil _) hc

end

open Function (update update_self)

variable {Cap A : Type} [DecidableEq Cap] {env : Surroundings Cap A}

variable {spec : Spec Cap A}

omit [DecidableEq Cap] in
theorem SameFor.drifted {s s' : State Cap A} (h : SameFor env spec s s') :
    (s'.book.drifted env spec s'.app).1 = (s.book.drifted env spec s.app).1 := by
  unfold Book.drifted
  rw [h.fingerprints, h.snapshot, h.settings, h.readings]
  split
  next => rfl
  next =>
    split
    next => rfl
    next => split <;> rfl

omit [DecidableEq Cap] in
theorem SameFor.attemptWorthwhile {s s' : State Cap A}
    (h : SameFor env spec s s') : (s'.book.attemptWorthwhile env spec s'.app).1 =
      (s.book.attemptWorthwhile env spec s.app).1 := by
  unfold Book.attemptWorthwhile
  rw [h.attempted, h.snapshot, h.readings]
  split
  next => rfl
  next => split <;> rfl

-- ==== settled

variable (env) in
/-- Nothing is left to do for an enabled subsystem whose requirements are
there. -/
structure Settled (s : State Cap A) (spec : Spec Cap A) : Prop where
  undrifted : env.enabled spec s.app = true → env.missingCapabilities spec s.app = [] →
    env.isActive spec s.app = true → spec.rebuildOnChange = true →
      (s.book.drifted env spec s.app).1 = false
  tried : env.enabled spec s.app = true → env.missingCapabilities spec s.app = [] →
    env.isActive spec s.app = false → (s.book.attemptWorthwhile env spec s.app).1 = false

omit [DecidableEq Cap] in
theorem SameFor.settled {s s' : State Cap A} (h : SameFor env spec s s')
    (hs : Settled env s spec) : Settled env s' spec where
  undrifted := by
    rw [h.enabled, h.missing, h.active, h.drifted]
    exact hs.undrifted
  tried := by
    rw [h.enabled, h.missing, h.active, h.attemptWorthwhile]
    exact hs.tried

omit [DecidableEq Cap] in
theorem drifted_again {book : Book Cap} {a : A} (h : (book.drifted env spec a).1 = false) :
    (((book.drifted env spec a).2).drifted env spec a).1 = false := by
  unfold Book.drifted at h
  split at h
  next hnone => simp only [Book.drifted, hnone]
  next previous hsome =>
    split at h
    next => cases h
    next hs =>
      split at h
      next hsettings => simp only [Book.drifted, hsome, if_neg hs, hsettings]
      next settings hsettings =>
        have hf : (book.drifted env spec a).2 = { book with
            settings := update book.settings spec.name (some
              (settingsDrift settings (env.settingsFingerprint spec.settings a)).2) } := by
          simp only [Book.drifted, hsome, if_neg hs, hsettings]
        have hsame : Book.capabilitySnapshot env (book.drifted env spec a).2 spec a = previous := by
          rw [hf]
          exact not_not.1 hs
        rw [hf] at hsame ⊢
        simp only [Book.drifted, hsome, hsame, ne_eq, not_true_eq_false, if_false, update_self]
        exact settingsDrift_retained _ _

omit [DecidableEq Cap] in
theorem attemptWorthwhile_again {book : Book Cap} {a : A}
    (h : (book.attemptWorthwhile env spec a).1 = false) :
    (((book.attemptWorthwhile env spec a).2).attemptWorthwhile env spec a).1 = false := by
  unfold Book.attemptWorthwhile at h
  split at h
  next => cases h
  next capabilities settings hsome =>
    split at h
    next => cases h
    next hs =>
      have hf : (book.attemptWorthwhile env spec a).2 = { book with
          attempted := update book.attempted spec.name (some (capabilities,
            (settingsDrift settings (env.settingsFingerprint spec.settings a)).2)) } := by
        simp only [Book.attemptWorthwhile, hsome, if_neg hs]
      have hsame : Book.capabilitySnapshot env (book.attemptWorthwhile env spec a).2 spec a =
          capabilities := by
        rw [hf]
        exact not_not.1 hs
      rw [hf] at hsame ⊢
      simp only [Book.attemptWorthwhile, update_self, hsame, ne_eq, not_true_eq_false, if_false]
      exact settingsDrift_retained _ _

omit [DecidableEq Cap] in
theorem drifted_of_none {book : Book Cap} {a : A}
    (h : book.fingerprints spec.name = none) : (book.drifted env spec a).1 = false := by
  simp only [Book.drifted, h]

theorem drifted_recordActivation (book : Book Cap) (spec : Spec Cap A) (a : A) :
    ((book.recordActivation env spec a).drifted env spec a).1 = false := by
  simp only [Book.drifted, Book.recordActivation, update_self,
    Book.capabilitySnapshot, ne_eq, not_true_eq_false, if_false, settingsDrift_self]

omit [DecidableEq Cap] in
theorem attemptWorthwhile_recordAttempt (book : Book Cap) (spec : Spec Cap A) (a : A) :
    ((book.recordAttempt env spec a).attemptWorthwhile env spec a).1 = false := by
  simp only [Book.attemptWorthwhile, Book.recordAttempt, update_self,
    Book.capabilitySnapshot, ne_eq, not_true_eq_false, if_false, settingsDrift_self]

omit [DecidableEq Cap] in
theorem generations_drifted (book : Book Cap) (spec : Spec Cap A) (a : A) :
    (book.drifted env spec a).2.generations = book.generations := by
  unfold Book.drifted
  split
  next => rfl
  next =>
    split
    next => rfl
    next => split <;> rfl

omit [DecidableEq Cap] in
theorem generations_attemptWorthwhile (book : Book Cap) (spec : Spec Cap A) (a : A) :
    (book.attemptWorthwhile env spec a).2.generations = book.generations := by
  unfold Book.attemptWorthwhile
  split
  next => rfl
  next => split <;> rfl

-- ==== the first pass

omit [DecidableEq Cap] in
def Unraised (s : State Cap A) : Prop := ∀ call ∈ s.calls, call.raised = false

omit [DecidableEq Cap] in
theorem Unraised.of_earlier {s s' : State Cap A} (h : Unraised s') (he : s.calls <+: s'.calls) :
    Unraised s :=
  fun call hcall => h call (he.subset hcall)

omit [DecidableEq Cap] in
theorem unraised_of_map {s : State Cap A} {l : List Bool} (h : s.calls.map Call.raised = l)
    (hl : ∀ raised ∈ l, raised = false) : Unraised s := by
  intro call hcall
  exact hl _ (h ▸ mem_map_of_mem hcall)

theorem settled_activate {s : State Cap A}
    (h : Unraised (activate env s spec).1) : Settled env (activate env s spec).1 spec := by
  rw [activate] at h ⊢
  dsimp only at h ⊢
  split at h
  next detail _ =>
    have hr := h _ (mem_append_right _ mem_cons_self)
    cases hr
  next =>
    split
    next hact =>
      exact
        { undrifted := fun _ _ _ _ => drifted_recordActivation _ _ _
          tried := fun _ _ hdown => by
            rw [hact] at hdown
            cases hdown }
    next hdown =>
      exact
        { undrifted := fun _ _ hact => absurd hact hdown
          tried := fun _ _ _ => attemptWorthwhile_recordAttempt _ _ _ }

theorem settled_attempt {s : State Cap A} {retryDeclined : Bool}
    (hact : env.isActive spec s.app = true → spec.rebuildOnChange = true →
      (s.book.drifted env spec s.app).1 = false)
    (h : Unraised (attempt env retryDeclined s spec).1) :
    Settled env (attempt env retryDeclined s spec).1 spec := by
  unfold attempt at h ⊢
  split at h
  next hup =>
    rw [if_pos hup]
    exact
      { undrifted := fun _ _ _ => hact hup
        tried := fun _ _ hdown => by
          rw [hup] at hdown
          cases hdown }
  next hdown =>
    rw [if_neg hdown]
    split at h
    next hr =>
      rw [if_pos hr]
      exact settled_activate h
    next hr =>
      rw [if_neg hr]
      dsimp only at h ⊢
      split at h
      next hw =>
        rw [if_pos hw]
        exact settled_activate h
      next hw =>
        rw [if_neg hw]
        exact
          { undrifted := fun _ _ hup => absurd hup hdown
            tried := fun _ _ _ =>
              attemptWorthwhile_again (Bool.not_eq_true _ ▸ hw) }

omit [DecidableEq Cap] in
theorem fingerprints_deactivate {s : State Cap A} (htear : spec.deactivate.isSome = true)
    (h : Unraised (deactivate s spec).1) :
    (deactivate s spec).1.book.fingerprints spec.name = none := by
  rw [deactivate] at h ⊢
  split
  next hnone => simp [hnone] at htear
  next teardown hsome =>
    rw [hsome] at h
    dsimp only at h ⊢
    split
    next detail he =>
      rw [he] at h
      have hr := h _ (mem_append_right _ mem_cons_self)
      cases hr
    next => exact update_self _ _ _

/-- STEP LEMMA: a turn in which nothing raised settles its spec. -/
theorem settled_converge {done rest : List (Spec Cap A)} (hord : Ordered (done ++ spec :: rest))
    (hown : ∀ u ∈ spec :: rest, ActsOnOwn env u) {s : State Cap A} {retryDeclined : Bool}
    (h : Unraised (converge env (done ++ spec :: rest) retryDeclined s spec).1) :
    Settled env (converge env (done ++ spec :: rest) retryDeclined s spec).1 spec := by
  have hwith : Within env (spec :: rest) s
      (converge env (done ++ spec :: rest) retryDeclined s spec).1 :=
    within_converge hord hown
  obtain ⟨he, hmiss⟩ := hwith.gate hord
  have hc := converged env (done ++ spec :: rest) retryDeclined s spec
  generalize (converge env (done ++ spec :: rest) retryDeclined s spec).1 = t
    at h hc he hmiss ⊢
  -- a subsystem that is unwanted before its turn is so after it
  have hu : env.enabled spec s.app = false ∨ env.missingCapabilities spec s.app ≠ [] →
      Settled env t spec := by
    intro hu
    rw [← he, ← hmiss] at hu
    refine ⟨fun hon hall => absurd hu ?_, fun hon hall => absurd hu ?_⟩ <;> simp [hon, hall]
  cases hc with
  | takenDown hact hnot | leftDown hact hnot => exact hu hnot
  | rebuilt hon hall hact hr hd =>
    refine settled_attempt (fun _ _ => ?_) h
    -- the teardown of the rebuild forgot what was captured
    have hdown := h.of_earlier (within_attempt (hown spec mem_cons_self)).calls
    have hf : (takeDown env (done ++ spec :: rest) { s with
        book := (s.book.drifted env spec s.app).2 } spec true).1.book.fingerprints
          spec.name = none :=
      fingerprints_deactivate (spec.rebuild_ok hr) hdown
    exact drifted_of_none hf
  | kept hon hall hact hr hd =>
    exact
      { undrifted := fun _ _ _ _ => drifted_again hd
        tried := fun _ _ hdown => by
          rw [hact] at hdown
          cases hdown }
  | attempted hon hall hr =>
    exact settled_attempt (fun hup hflag => by
      rw [hr hup] at hflag
      cases hflag) h

omit [DecidableEq Cap] in
theorem Settled.congr {s s' : State Cap A} (h : Settled env s spec) (ha : s'.app = s.app)
    (hbook : s'.book = s.book) : Settled env s' spec where
  undrifted := by
    rw [ha, hbook]
    exact h.undrifted
  tried := by
    rw [ha, hbook]
    exact h.tried

/-- RUN LEMMA: a pass in which nothing raised settles every spec. -/
theorem settled_pass {specs : List (Spec Cap A)} (hacc : Accepted specs)
    (hown : ∀ u ∈ specs, ActsOnOwn env u) {app : A} {book : Book Cap} {retryDeclined : Bool}
    (h : Unraised (pass env specs retryDeclined app book)) :
    ∀ d ∈ specs, Settled env (pass env specs retryDeclined app book) d := by
  refine pass_establishes hacc hown (C := fun call => call.raised = false)
    (fun s s' spec hsame hs => hsame.settled hs) ?_ h
  intro done spec rest s hsplit hc
  obtain ⟨ha, hbook, hturn⟩ := turn_eq env specs retryDeclined s spec
  subst hsplit
  have hzone : ∀ u ∈ spec :: rest, ActsOnOwn env u := fun u hu => hown u (mem_append_right _ hu)
  refine (settled_converge hacc.ordered hzone ?_).congr ha hbook
  intro call hcall
  exact hc call (hturn ▸ hcall)

-- ==== the second pass

variable (env) in
def Unwanted (spec : Spec Cap A) (a : A) : Prop :=
  env.isActive spec a = true ∧
    (env.enabled spec a = false ∨ env.missingCapabilities spec a ≠ [])

variable (env) in
/-- Unwanted, neither it nor an active subsystem that requires it has a teardown. -/
def Restful (specs : List (Spec Cap A)) (a : A) (spec : Spec Cap A) : Prop :=
  Unwanted env spec a → ∀ t, t = spec ∨ Through env specs a t spec → t.deactivate = none

omit [DecidableEq Cap] in
theorem calls_deactivateAll (xs : List (Spec Cap A)) (s : State Cap A) :
    ∃ new, (xs.foldl (fun s consumer => (deactivate s consumer).1) s).calls = s.calls ++ new ∧
      new.map Call.spec = xs.filter (fun u => u.deactivate.isSome) ∧
      ∀ call ∈ new, call.act = .deactivate := by
  induction xs generalizing s with
  | nil => exact ⟨[], by simp⟩
  | cons u xs ih =>
    rw [foldl_cons]
    obtain ⟨new, hnew, hs, hacts⟩ := ih (deactivate s u).1
    cases htear : u.deactivate with
    | none =>
      have hsame : (deactivate s u).1 = s := by simp only [deactivate, htear]
      rw [hsame] at hnew
      refine ⟨new, by rw [hsame]; exact hnew, ?_, hacts⟩
      rw [filter_cons_of_neg (by simp [htear]), hs]
    | some teardown =>
      have hc : ∃ raised, (deactivate s u).1.calls =
          s.calls ++ [⟨u, .deactivate, s.app, raised⟩] := by
        simp only [deactivate, htear]
        split <;> exact ⟨_, rfl⟩
      obtain ⟨raised, hc⟩ := hc
      refine ⟨⟨u, .deactivate, s.app, raised⟩ :: new, ?_, ?_, ?_⟩
      · rw [hnew, hc, append_assoc]
        rfl
      · rw [filter_cons_of_pos (by simp [htear]), map_cons, hs]
      · exact forall_mem_cons.2 ⟨rfl, hacts⟩

variable (env) in
theorem calls_takeDown (specs : List (Spec Cap A)) (s : State Cap A) (spec : Spec Cap A)
    (returning : Bool) :
    ∃ new, (takeDown env specs s spec returning).1.calls = s.calls ++ new ∧
      new.map Call.spec = ((followers env specs spec s.app returning).reverse ++ [spec]).filter
        (fun u => u.deactivate.isSome) ∧
      ∀ call ∈ new, call.act = .deactivate := by
  have h := calls_deactivateAll ((followers env specs spec s.app returning).reverse ++ [spec]) s
  rwa [foldl_append] at h

omit [DecidableEq Cap] in
theorem deactivateAll_none {xs : List (Spec Cap A)} (s : State Cap A)
    (h : ∀ u ∈ xs, u.deactivate = none) :
    xs.foldl (fun s consumer => (deactivate s consumer).1) s = s := by
  induction xs with
  | nil => rfl
  | cons u xs ih =>
    rw [forall_mem_cons] at h
    have hsame : (deactivate s u).1 = s := by simp only [deactivate, h.1]
    rw [foldl_cons, hsame, ih h.2]

theorem takeDown_idle_iff {specs : List (Spec Cap A)} (hord : Ordered specs) {s : State Cap A} :
    (takeDown env specs s spec false).1.calls = s.calls ↔
      ∀ t, t = spec ∨ Through env specs s.app t spec → t.deactivate = none := by
  obtain ⟨new, hnew, hs, -⟩ := calls_takeDown env specs s spec false
  have hnil : new = [] ↔ new.map Call.spec = [] := map_eq_nil_iff.symm
  rw [hnew, append_right_eq_self, hnil, hs, filter_eq_nil_iff]
  simp only [mem_append, mem_reverse, mem_singleton, mem_followers_iff hord,
    Option.not_isSome_iff_eq_none]
  exact forall_congr' fun t => by rw [or_comm]

variable (env) in
/-- The turn changes nothing but what the book remembers of the settled spec. -/
structure Idle (spec : Spec Cap A) (s s' : State Cap A) : Prop where
  app : s'.app = s.app
  calls : s'.calls = s.calls
  generations : s'.book.generations = s.book.generations
  within : Within env [spec] s s'

/-- STEP LEMMA: over a settled spec a turn calls nothing exactly where the spec is restful. -/
theorem turn_idle_iff {specs : List (Spec Cap A)} (hord : Ordered specs) {s : State Cap A}
    (hs : Settled env s spec) :
    ((turn env specs false s spec).calls = s.calls ↔ Restful env specs s.app spec) ∧
      (Restful env specs s.app spec → Idle env spec s (turn env specs false s spec)) := by
  obtain ⟨ha, hbook, hc⟩ := turn_eq env specs false s spec
  have hidle : ∀ t : State Cap A, (converge env specs false s spec).1 = t → t.app = s.app →
      t.calls = s.calls → t.book.generations = s.book.generations → Within env [spec] s t →
        Idle env spec s (turn env specs false s spec) := by
    intro t ht hp hl hg hi
    have hw : Within env [spec] t (turn env specs false s spec) := by
      rw [← ht]
      exact ⟨fun _ _ => by rw [ha], fun _ => by rw [ha], fun _ => by rw [ha],
        fun _ _ => by rw [hbook], fun _ _ => by rw [hbook], fun _ _ => by rw [hbook],
        fun _ _ => by rw [hbook], hc ▸ prefix_refl _⟩
    refine ⟨ha.trans (ht ▸ hp), hc.trans (ht ▸ hl), ?_, hi.trans hw⟩
    rw [hbook, ht, hg]
  rw [hc]
  by_cases hn : Unwanted env spec s.app
  · have hcon : (converge env specs false s spec).1 = (takeDown env specs s spec false).1 := by
      obtain ⟨hup, hoff | hmiss⟩ := hn
      · simp only [converge, hoff, hup, Bool.not_false, if_true]
      · by_cases hon : env.enabled spec s.app = true
        · simp only [converge, hon, Bool.not_true, Bool.false_eq_true, if_false, hmiss,
            ne_eq, not_false_eq_true, if_true, hup]
        · simp only [converge, hon, Bool.not_false, if_true, hup]
    have hres : Restful env specs s.app spec ↔
        ∀ t, t = spec ∨ Through env specs s.app t spec → t.deactivate = none :=
      ⟨fun h => h hn, fun h _ => h⟩
    rw [hres, hcon]
    refine ⟨takeDown_idle_iff hord, fun hnone => ?_⟩
    have hsame : (takeDown env specs s spec false).1 = s := by
      have hall : ∀ u ∈ (followers env specs spec s.app false).reverse ++ [spec],
          u.deactivate = none := by
        intro u hu
        rcases mem_append.1 hu with hu | hu
        · exact hnone u (.inr ((mem_followers_iff hord).1 (mem_reverse.1 hu)))
        · exact hnone u (.inl (mem_singleton.1 hu))
      have hfold := deactivateAll_none s hall
      rwa [foldl_append] at hfold
    exact hidle s (hcon.trans hsame) rfl rfl rfl (Within.refl _ _)
  · have hres : Restful env specs s.app spec := fun h => absurd h hn
    have hdone : Idle env spec s (turn env specs false s spec) := by
      rw [Unwanted, not_and_or, not_or] at hn
      by_cases hup : env.isActive spec s.app = true
      · obtain ⟨hon, hall⟩ := hn.resolve_left (not_not_intro hup)
        rw [Bool.not_eq_false] at hon
        rw [not_not] at hall
        by_cases hflag : spec.rebuildOnChange = true
        · have hd := hs.undrifted hon hall hup hflag
          refine hidle { s with book := (s.book.drifted env spec s.app).2 } ?_ rfl rfl
            (generations_drifted _ _ _) within_drifted
          simp only [converge, hon, hall, hup, hflag, hd, Bool.not_true, Bool.false_eq_true,
            if_false, ne_eq, not_true_eq_false, Bool.and_self, if_true]
        · refine hidle s ?_ rfl rfl rfl (Within.refl _ _)
          simp only [converge, hon, hall, hup, hflag, attempt, Bool.not_true,
            Bool.false_eq_true, if_false, ne_eq, not_true_eq_false, Bool.and_false, if_true]
      · rw [Bool.not_eq_true] at hup
        by_cases hrun : env.enabled spec s.app = true ∧ env.missingCapabilities spec s.app = []
        · obtain ⟨hon, hall⟩ := hrun
          have htried := hs.tried hon hall hup
          refine hidle { s with book := (s.book.attemptWorthwhile env spec s.app).2 } ?_ rfl rfl
            (generations_attemptWorthwhile _ _ _) within_attemptWorthwhile
          simp only [converge, hon, hall, hup, htried, attempt, Bool.not_true,
            Bool.false_eq_true, if_false, ne_eq, not_true_eq_false, Bool.false_and]
        · refine hidle s ?_ rfl rfl rfl (Within.refl _ _)
          by_cases hon : env.enabled spec s.app = true
          · have hall : env.missingCapabilities spec s.app ≠ [] := fun hall => hrun ⟨hon, hall⟩
            simp only [converge, hon, hall, hup, Bool.not_true, Bool.false_eq_true, if_false,
              ne_eq, not_false_eq_true, if_true]
          · simp only [converge, hon, hup, Bool.not_false, Bool.false_eq_true, if_false, if_true]
    exact ⟨⟨fun _ => hres, fun _ => hc ▸ hdone.calls⟩, fun _ => hdone⟩

/-- RUN LEMMA: over settled specs the turns call nothing exactly where each is restful. -/
theorem turns_idle_iff {done rest : List (Spec Cap A)} (hacc : Accepted (done ++ rest))
    (hown : ∀ u ∈ rest, ActsOnOwn env u) {s : State Cap A}
    (hsettled : ∀ u ∈ rest, Settled env s u) :
    (rest.foldl (turn env (done ++ rest) false) s).calls = s.calls ↔
      ∀ spec ∈ rest, Restful env (done ++ rest) s.app spec := by
  induction rest generalizing done s with
  | nil => simp
  | cons spec rest ih =>
    have hs : done ++ spec :: rest = (done ++ [spec]) ++ rest := by simp
    rw [foldl_cons, forall_mem_cons]
    obtain ⟨hiff, hidle⟩ := turn_idle_iff hacc.ordered (hsettled spec mem_cons_self)
    have hrest : ∀ u ∈ rest, ActsOnOwn env u := fun u hu => hown u (mem_cons_of_mem _ hu)
    have hturn : Within env (spec :: rest) s (turn env (done ++ spec :: rest) false s spec) :=
      within_turn hacc.ordered hown
    have hl : Within env rest (turn env (done ++ spec :: rest) false s spec)
        (rest.foldl (turn env (done ++ spec :: rest) false)
          (turn env (done ++ spec :: rest) false s spec)) := by
      have hord := hacc.ordered
      rw [hs] at hord ⊢
      exact within_turns hord hrest
    -- once the first turn is idle, the rest stands as it stood
    have hg : Restful env (done ++ spec :: rest) s.app spec →
        ((rest.foldl (turn env (done ++ spec :: rest) false)
          (turn env (done ++ spec :: rest) false s spec)).calls = s.calls ↔
          ∀ u ∈ rest, Restful env (done ++ spec :: rest) s.app u) := by
      intro hres
      obtain ⟨ha, hc, hgen, hwith⟩ := hidle hres
      have hacc' := hs ▸ hacc
      have hspec : spec ∈ done ++ [spec] := by simp
      have hnext : ∀ u ∈ rest, Settled env (turn env (done ++ spec :: rest) false s spec) u := by
        intro u hu
        have hu' := hsettled u (mem_cons_of_mem _ hu)
        obtain ⟨hname, hp, -⟩ := hacc'.apart hspec
        -- the idle turn refreshed at most what is remembered of its spec
        have hsame : SameFor env u s (turn env (done ++ spec :: rest) false s spec) :=
          { enabled := by rw [ha]
            active := by rw [ha]
            missing := by rw [ha]
            snapshot := by
              rw [ha]
              apply map_congr_left
              intro need _
              rw [hgen]
            readings := by rw [ha]
            fingerprints := hwith.fingerprints _ (by simpa using (hname u hu).symm)
            settings := hwith.settings _ (by simpa using (hname u hu).symm)
            attempted := hwith.attempted _ (by simpa using (hname u hu).symm) }
        exact hsame.settled hu'
      have hih := ih hacc' hrest hnext
      rw [← hs, hc, ha] at hih
      exact hih
    constructor
    · intro h
      have he := hl.calls
      rw [h] at he
      have hone : (turn env (done ++ spec :: rest) false s spec).calls = s.calls :=
        (hturn.calls.eq_of_length_le he.length_le).symm
      have hres := hiff.1 hone
      exact ⟨hres, (hg hres).1 h⟩
    · intro h
      exact (hg h.1).2 h.2

/-- A SECOND PASS calls nothing exactly where no subsystem that is then up while disabled or
short of a requirement has a teardown, nor any active one that requires it through active
ones. -/
theorem reconcile_idempotent_iff {registry : SettingsRegistry} {declared specs : List (Spec Cap A)}
    (hspecs : orderSubsystems registry (fun cap => (env.probe cap).isSome) declared = .ok specs)
    (hown : ∀ spec ∈ specs, ActsOnOwn env spec) (retryDeclined : Bool) (app : A)
    (book : Book Cap) (hraise : Unraised (pass env specs retryDeclined app book)) :
    (pass env specs false (pass env specs retryDeclined app book).app
        (pass env specs retryDeclined app book).book).calls = [] ↔
      ∀ spec ∈ specs, Restful env specs (pass env specs retryDeclined app book).app spec := by
  obtain ⟨haccepted, -⟩ := accepted_of_orderSubsystems hspecs
  have hsettled := settled_pass haccepted hown hraise
  have hnext : ∀ d ∈ specs, Settled env (begin (pass env specs retryDeclined app book).app
      (pass env specs retryDeclined app book).book) d :=
    fun d hd => (hsettled d hd).congr rfl rfl
  exact turns_idle_iff (show Accepted ([] ++ specs) from haccepted) hown hnext

-- ==== a stream switched off

section EventStream

inductive Part where
  | stream
  | narrator
  deriving DecidableEq

/-- The gate of the stream, and which of the two are up. -/
structure Studio where
  streamEnabled : Bool
  stream : Bool
  narrator : Bool

def studio : Surroundings Part Studio where
  probe
    | .stream => some fun a => some a.stream
    | .narrator => some fun a => some a.narrator
  config a _ := some a.streamEnabled
  setting _ _ := none

/-- A stream an operator can switch off, without a teardown. -/
def streamSpec : Spec Part Studio where
  name := "event_stream"
  provides := .stream
  activate a := ({ a with stream := true }, .returned)
  requires := []
  deactivate := none
  enabledBy := some "stream.enabled"
  settings := []
  rebuildOnChange := false
  rebuild_ok h := by cases h

/-- Its one consumer, which can be taken down and rebuilt. -/
def narratorSpec : Spec Part Studio where
  name := "narrator"
  provides := .narrator
  activate a := ({ a with narrator := true }, .returned)
  requires := [.stream]
  deactivate := some fun a => ({ a with narrator := false }, none)
  enabledBy := none
  settings := []
  rebuildOnChange := true
  rebuild_ok _ := rfl

def allRegistered : SettingsRegistry where
  registered _ := true
  boolean _ := true
  bootField _ := true

def emptyBook : Book Part where
  failures _ := none
  declined _ := false
  declineReasons _ := none
  fingerprints _ := none
  settings _ := none
  generations _ := 0
  attempted _ := none

theorem studio_accepted : orderSubsystems allRegistered (fun cap => (studio.probe cap).isSome)
      [streamSpec, narratorSpec] = .ok [streamSpec, narratorSpec] := rfl

theorem studio_own : ∀ spec ∈ [streamSpec, narratorSpec], ActsOnOwn studio spec := by
  have hstr : ActsOnOwn studio streamSpec :=
    { activate := fun a => ⟨fun cap hcap => by cases cap <;> first | rfl | exact absurd rfl hcap,
        fun _ => rfl, fun _ => rfl⟩
      deactivate := nofun }
  have hn : ActsOnOwn studio narratorSpec :=
    { activate := fun a => ⟨fun cap hcap => by cases cap <;> first | rfl | exact absurd rfl hcap,
        fun _ => rfl, fun _ => rfl⟩
      deactivate := fun teardown h a => by
        cases h
        exact ⟨fun cap hcap => by cases cap <;> first | rfl | exact absurd rfl hcap,
          fun _ => rfl, fun _ => rfl⟩ }
  simp [hstr, hn]

/-- With the stream switched on both stay as they are. -/
theorem reconcile_idempotent_iff_studio : (pass studio [streamSpec, narratorSpec] false
        (pass studio [streamSpec, narratorSpec] false ⟨true, false, false⟩ emptyBook).app
        (pass studio [streamSpec, narratorSpec] false ⟨true, false, false⟩ emptyBook).book).calls
      = [] ↔
    ∀ spec ∈ [streamSpec, narratorSpec], Restful studio [streamSpec, narratorSpec]
      (pass studio [streamSpec, narratorSpec] false ⟨true, false, false⟩ emptyBook).app spec :=
  reconcile_idempotent_iff studio_accepted studio_own false ⟨true, false, false⟩ emptyBook
    (unraised_of_map (l := [false, false]) rfl (by simp))

/-- With the stream switched off, every pass takes the narrator down and brings it back. -/
theorem narrator_rebuilt_every_pass :
    ¬ ∀ (Cap A : Type) (_ : DecidableEq Cap) (env : Surroundings Cap A)
      (registry : SettingsRegistry) (declared specs : List (Spec Cap A)),
      orderSubsystems registry (fun cap => (env.probe cap).isSome) declared = .ok specs →
      (∀ spec ∈ specs, ActsOnOwn env spec) → ∀ (retryDeclined : Bool) (app : A)
        (book : Book Cap), Unraised (pass env specs retryDeclined app book) →
        (pass env specs false (pass env specs retryDeclined app book).app
          (pass env specs retryDeclined app book).book).calls = [] := by
  intro h
  have hnil := h Part Studio inferInstance studio allRegistered [streamSpec, narratorSpec]
    [streamSpec, narratorSpec] studio_accepted studio_own false ⟨false, true, true⟩ emptyBook
    (unraised_of_map (l := [false, false]) rfl (by simp))
  have hcalls : (pass studio [streamSpec, narratorSpec] false
      (pass studio [streamSpec, narratorSpec] false ⟨false, true, true⟩ emptyBook).app
      (pass studio [streamSpec, narratorSpec] false ⟨false, true, true⟩
        emptyBook).book).calls.map Call.act = [.deactivate, .activate] := rfl
  simp [hnil] at hcalls

end EventStream

end Synthorg.Subsystems
