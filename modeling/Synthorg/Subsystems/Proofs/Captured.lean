/-
Nothing outlives what it captured.

A turn calls the teardowns of some followers, the last first, then its own spec's, and at most one
activation. `torn_before` is about the order: the teardowns called in a turn, read backwards, are
a part of the specs in their order, so whoever requires one of them was called before it.
-/
import Synthorg.Subsystems.Proofs.Idempotent

namespace Synthorg.Subsystems

open List

variable {Cap A : Type} [DecidableEq Cap] {env : Surroundings Cap A}

-- ==== consumers come behind

variable {xs : List (Spec Cap A)} {t : Spec Cap A} {before after : List (Call Cap A)}
  {c : Call Cap A}

omit [DecidableEq Cap] in
theorem Ordered.sublist {ys : List (Spec Cap A)} (h : Ordered ys) (hsub : xs.Sublist ys) :
    Ordered xs := by
  induction hsub with
  | slnil => exact trivial
  | cons y hsub ih => exact ih h.2
  | cons_cons y hsub ih =>
    refine ⟨fun need hneed u hu => ?_, ih h.2⟩
    exact h.1 need hneed u ((hsub.cons_cons y).subset hu)

variable {specs done rest : List (Spec Cap A)} {a app : A} {u spec : Spec Cap A}
  {returning retryDeclined : Bool} {s s' : State Cap A} {book : Book Cap}

omit [DecidableEq Cap] in
/-- Whoever requires a subsystem with a teardown has one too and follows it down. -/
theorem Through.follows (hacc : Accepted specs) (h : Through env specs a t u) (hu : u ∈ specs)
    (htear : u.deactivate.isSome = true) (returning : Bool) :
    Relation.TransGen (Follows env specs a returning) t u ∧ t.deactivate.isSome = true := by
  have hstep : ∀ {v w : Spec Cap A}, Captures env specs a v w → w ∈ specs →
      w.deactivate.isSome = true →
        Follows env specs a returning v w ∧ v.deactivate.isSome = true := by
    intro v w hcap hw hdown
    obtain ⟨hdown', hflag⟩ := hacc.tearable w hw hdown v hcap.1 hcap.2.2
    exact ⟨⟨hcap, fun _ => hflag⟩, hdown'⟩
  induction h using Relation.TransGen.head_induction_on with
  | single hcap =>
    obtain ⟨hf, hdown⟩ := hstep hcap hu htear
    exact ⟨.single hf, hdown⟩
  | head hcap hrest ih =>
    obtain ⟨v, ⟨hv, -⟩, -⟩ := Relation.TransGen.head'_iff.1 hrest
    obtain ⟨hf, hdown⟩ := hstep hcap hv ih.2
    exact ⟨ih.1.head hf, hdown⟩

theorem ordered_followers (hord : Ordered specs) (hspec : spec ∈ specs) :
    Ordered (spec :: followers env specs spec a returning) := by
  refine ⟨fun need hneed u hu => ?_, hord.sublist (sweep_inv env spec a returning specs).2⟩
  obtain ⟨done, rest, hs⟩ := append_of_mem hspec
  rw [hs] at hord hu
  refine hord.provider_before hneed u ?_
  rcases mem_cons.1 hu with heq | hu
  · exact mem_cons.2 (.inl heq)
  · exact mem_cons_of_mem _ (followers_behind hord u hu)

theorem mem_of_goingDown (hspec : spec ∈ specs)
    (hu : u ∈ (followers env specs spec a returning).reverse ++ [spec]) : u ∈ specs := by
  rcases mem_append.1 hu with hu | hu
  · exact (sweep_inv env spec a returning specs).2.subset (mem_reverse.1 hu)
  · rw [mem_singleton.1 hu]
    exact hspec

theorem nodup_goingDown (hacc : Accepted specs) (hspec : spec ∈ specs) :
    (((followers env specs spec a returning).reverse ++ [spec]).map Spec.provides).Nodup := by
  have hf : ((followers env specs spec a returning).map Spec.provides).Nodup :=
    hacc.provides.sublist ((sweep_inv env spec a returning specs).2.map _)
  have ha : spec.provides ∉ (followers env specs spec a returning).map Spec.provides := by
    obtain ⟨done, rest, hs⟩ := append_of_mem hspec
    have hp := hacc.provides
    have hord := hacc.ordered
    rw [hs] at hp hord ⊢
    rw [map_append, nodup_append, map_cons, nodup_cons] at hp
    intro hmem
    obtain ⟨u, hu, heq⟩ := mem_map.1 hmem
    exact hp.2.1.1 (heq ▸ mem_map_of_mem (followers_behind hord u hu))
  have hcons : ((spec :: followers env specs spec a returning).map Spec.provides).Nodup :=
    nodup_cons.2 ⟨ha, hf⟩
  rw [← nodup_reverse] at hcons
  simpa using hcons

def teardowns (env : Surroundings Cap A) (specs : List (Spec Cap A)) (spec : Spec Cap A) (a : A)
    (returning : Bool) : List (Spec Cap A) :=
  ((followers env specs spec a returning).reverse ++ [spec]).filter
    fun u => u.deactivate.isSome

/-- CONSUMERS BEFORE PROVIDERS: a subsystem's teardown comes after those of all that require it. -/
theorem torn_before (hacc : Accepted specs) (hspec : spec ∈ specs)
    {before after : List (Spec Cap A)}
    (hs : teardowns env specs spec a returning = before ++ u :: after)
    (h : Through env specs a t u) : t ∈ before := by
  -- read backwards, the teardowns are in order
  have hback : Ordered (after.reverse ++ u :: before.reverse) := by
    have hrev : after.reverse ++ u :: before.reverse =
        (spec :: followers env specs spec a returning).filter fun v => v.deactivate.isSome := by
      have h := congrArg List.reverse hs
      rw [teardowns, ← filter_reverse] at h
      simpa using h.symm
    rw [hrev]
    exact (ordered_followers hacc.ordered hspec).sublist filter_sublist
  have hu : u ∈ specs ∧ u.deactivate.isSome = true ∧ (u = spec ∨
      Relation.TransGen (Follows env specs a returning) u spec) := by
    have hmem : u ∈ teardowns env specs spec a returning := by simp [hs]
    obtain ⟨hmem, hdown⟩ := mem_filter.1 hmem
    rcases mem_append.1 hmem with hmem | hmem
    · have hf := (mem_followers hacc.ordered).1 (mem_reverse.1 hmem)
      obtain ⟨v, ⟨⟨hu, -⟩, -⟩, -⟩ := Relation.TransGen.head'_iff.1 hf
      exact ⟨hu, hdown, .inr hf⟩
    · rw [mem_singleton.1 hmem] at hdown ⊢
      exact ⟨hspec, hdown, .inl rfl⟩
  obtain ⟨hu, hdown, hspec'⟩ := hu
  -- whoever requires it is among the teardowns as well
  have hmem : ∀ {v : Spec Cap A}, Through env specs a v u →
      v ∈ after.reverse ++ u :: before.reverse := by
    intro v hv
    obtain ⟨hf, hdown'⟩ := hv.follows hacc hu hdown returning
    have hb : Relation.TransGen (Follows env specs a returning) v spec := by
      rcases hspec' with heq | hspec'
      · exact heq ▸ hf
      · exact hf.trans hspec'
    have htear : v ∈ teardowns env specs spec a returning := by
      refine mem_filter.2 ⟨mem_append_left _ (mem_reverse.2 ?_), hdown'⟩
      exact (mem_followers hacc.ordered).2 hb
    rw [hs] at htear
    simpa [or_comm, or_assoc, or_left_comm] using htear
  rw [← mem_reverse]
  -- along the chain of requirements, from the last one
  induction h using Relation.TransGen.head_induction_on with
  | single hcap => exact hback.consumer_behind (hmem (.single hcap)) mem_cons_self hcap.2.2
  | head hcap hrest ih =>
    exact hback.consumer_behind (hmem (.head hcap hrest)) (mem_cons_of_mem _ ih) hcap.2.2

-- ==== the calls of a turn

variable (env) in
def TakesDown (spec : Spec Cap A) : Prop :=
  ∀ teardown, spec.deactivate = some teardown → ∀ a, (teardown a).2 = none →
    env.isActive spec (teardown a).1 = false

def CleanTeardowns (s : State Cap A) : Prop :=
  ∀ call ∈ s.calls, call.act = .deactivate → call.raised = false

omit [DecidableEq Cap] in
theorem CleanTeardowns.of_earlier (h : CleanTeardowns s') (he : s.calls <+: s'.calls) :
    CleanTeardowns s :=
  fun call hcall => h call (he.subset hcall)

omit [DecidableEq Cap] in
theorem deactivate_of_some {teardown : A → A × Option String} (h : spec.deactivate = some teardown)
    (s : State Cap A) : (deactivate s spec).1.app = (teardown s.app).1 ∧
    (deactivate s spec).1.calls =
      s.calls ++ [⟨spec, .deactivate, s.app, (teardown s.app).2.isSome⟩] := by
  simp only [deactivate, h]
  split <;> exact ⟨rfl, by simp_all⟩

omit [DecidableEq Cap] in
theorem inactive_deactivate (hdown : TakesDown env spec) (hsome : spec.deactivate.isSome = true)
    (h : CleanTeardowns (deactivate s spec).1) :
    env.isActive spec (deactivate s spec).1.app = false := by
  obtain ⟨teardown, htear⟩ := Option.isSome_iff_exists.1 hsome
  obtain ⟨ha, hc⟩ := deactivate_of_some htear s
  rw [ha]
  apply hdown teardown htear
  have hr := h ⟨spec, .deactivate, s.app, (teardown s.app).2.isSome⟩ (by simp [hc]) rfl
  simpa using hr

omit [DecidableEq Cap] in
theorem before_deactivateAll (hown : ∀ u ∈ xs, ActsOnOwn env u) (hdown : ∀ u ∈ xs, TakesDown env u)
    (hp : (xs.map Spec.provides).Nodup)
    (hc : CleanTeardowns (xs.foldl (fun s consumer => (deactivate s consumer).1) s))
    (h : (xs.foldl (fun s consumer => (deactivate s consumer).1) s).calls =
      s.calls ++ (before ++ c :: after)) :
    (∀ cap, (∀ d ∈ before, d.spec.provides ≠ cap) →
      env.isPresent cap c.before = env.isPresent cap s.app) ∧
    ∀ d ∈ before, env.isActive d.spec c.before = false := by
  induction xs generalizing s before with
  | nil =>
    have hlen := congrArg List.length h
    simp at hlen
  | cons u xs ih =>
    rw [forall_mem_cons] at hown hdown
    rw [map_cons, nodup_cons] at hp
    rw [foldl_cons] at h hc
    obtain ⟨new, hnew, hs, -⟩ := calls_deactivateAll xs (deactivate s u).1
    cases htear : u.deactivate with
    | none =>
      have hsame : (deactivate s u).1 = s := by simp only [deactivate, htear]
      rw [hsame] at h hc
      exact ih hown.2 hdown.2 hp.2 hc h
    | some teardown =>
      obtain ⟨-, hcalls⟩ := deactivate_of_some htear s
      rw [hnew, hcalls, append_assoc, append_cancel_left_eq, singleton_append] at h
      cases before with
      | nil =>
        rw [nil_append, cons.injEq] at h
        exact ⟨fun cap _ => by rw [← h.1], forall_mem_nil _⟩
      | cons first before =>
        rw [cons_append, cons.injEq] at h
        obtain ⟨hf, hrest⟩ := h
        rw [hrest] at hnew hs
        obtain ⟨hpresent, ha⟩ := ih hown.2 hdown.2 hp.2 hc hnew
        have hwith : Within env [u] s (deactivate s u).1 := within_deactivate hown.1
        rw [← hf]
        -- those called later provide something else
        have hl : ∀ d ∈ before, d.spec.provides ≠ u.provides := by
          intro d hd heq
          have hmem : d.spec ∈ (before ++ c :: after).map Call.spec :=
            mem_map_of_mem (mem_append_left _ hd)
          rw [hs] at hmem
          exact hp.1 (heq ▸ mem_map_of_mem (mem_filter.1 hmem).1)
        refine ⟨fun cap hcap => ?_, ?_⟩
        · rw [forall_mem_cons] at hcap
          rw [hpresent cap hcap.2]
          exact hwith.present cap (by simpa using hcap.1)
        · rw [forall_mem_cons]
          refine ⟨?_, ha⟩
          show env.isPresent u.provides c.before = false
          rw [hpresent _ hl]
          refine inactive_deactivate hdown.1 (by simp [htear]) (hc.of_earlier ?_)
          rw [hnew]
          exact prefix_append _ _

variable (env) in
structure SafeCall (specs : List (Spec Cap A)) (a : A) (before : List (Call Cap A))
    (c : Call Cap A) : Prop where
  required : c.act = .activate → env.missingCapabilities c.spec c.before = []
  tornBefore : c.act = .deactivate → ∀ t, Through env specs a t c.spec →
    ∃ d ∈ before, d.act = .deactivate ∧ d.spec = t
  unrequired : c.act = .deactivate → ∀ t, ¬ Captures env specs c.before t c.spec

variable (env) in
def SafeCalls (specs : List (Spec Cap A)) (a : A) (s s' : State Cap A) : Prop :=
  ∃ new, s'.calls = s.calls ++ new ∧
    ∀ before c after, new = before ++ c :: after → SafeCall env specs a before c

omit [DecidableEq Cap] in
theorem SafeCalls.of_eq (h : s'.calls = s.calls) : SafeCalls env specs a s s' := by
  refine ⟨[], by simpa using h, fun before c after hnil => ?_⟩
  simp at hnil

omit [DecidableEq Cap] in
theorem SafeCalls.activation {s'' : State Cap A} (h : SafeCalls env specs a s s') {b : A}
    {raised : Bool} (hcalls : s''.calls = s'.calls ++ [⟨spec, .activate, b, raised⟩])
    (hall : env.missingCapabilities spec b = []) : SafeCalls env specs a s s'' := by
  obtain ⟨new, hnew, hsafe⟩ := h
  refine ⟨new ++ [⟨spec, .activate, b, raised⟩], by rw [hcalls, hnew, append_assoc], ?_⟩
  intro before c after hs
  rcases eq_nil_or_concat after with hnil | ⟨after', last, hlast⟩
  · rw [hnil] at hs
    obtain ⟨-, hc⟩ := append_inj' hs rfl
    rw [cons.injEq] at hc
    rw [← hc.1]
    exact
      { required := fun _ => hall
        tornBefore := nofun
        unrequired := nofun }
  · rw [hlast, concat_eq_append, ← cons_append, ← append_assoc] at hs
    exact hsafe before c after' (append_inj' hs rfl).1

theorem safeCalls_takeDown (hacc : Accepted specs) (hown : ∀ u ∈ specs, ActsOnOwn env u)
    (hdown : ∀ u ∈ specs, TakesDown env u) (hspec : spec ∈ specs)
    (hclean : CleanTeardowns (takeDown env specs s spec returning).1) :
    SafeCalls env specs s.app s (takeDown env specs s spec returning).1 := by
  obtain ⟨new, hnew, hspecs, hacts⟩ := calls_takeDown env specs s spec returning
  refine ⟨new, hnew, fun before c after hs => ?_⟩
  have hact : c.act = .deactivate := hacts c (by simp [hs])
  have htorn : ∀ t, Through env specs s.app t c.spec →
      ∃ d ∈ before, d.act = .deactivate ∧ d.spec = t := by
    intro t ht
    have hteardowns : teardowns env specs spec s.app returning =
        before.map Call.spec ++ c.spec :: after.map Call.spec := by
      rw [teardowns, ← hspecs, hs, map_append, map_cons]
    obtain ⟨d, hd, heq⟩ := mem_map.1 (torn_before hacc hspec hteardowns ht)
    exact ⟨d, hd, hacts d (by simp [hs, hd]), heq⟩
  have hsub : ∀ u ∈ (followers env specs spec s.app returning).reverse ++ [spec], u ∈ specs :=
    fun u hu => mem_of_goingDown hspec hu
  have hrow : (((followers env specs spec s.app returning).reverse ++ [spec]).foldl
      (fun s consumer => (deactivate s consumer).1) s) =
        (takeDown env specs s spec returning).1 := by
    rw [foldl_append]
    rfl
  rw [hs, ← hrow] at hnew
  -- what was there when this teardown was called
  obtain ⟨hp, habsent⟩ := before_deactivateAll (fun u hu => hown u (hsub u hu))
    (fun u hu => hdown u (hsub u hu)) (nodup_goingDown hacc hspec) (hrow ▸ hclean) hnew
  exact
    { required := fun h => by
        simp [hact] at h
      tornBefore := fun _ => htorn
      unrequired := fun _ t ht => by
        obtain ⟨hmem, ha, hneed⟩ := ht
        by_cases hc : ∃ d ∈ before, d.spec.provides = t.provides
        · obtain ⟨d, hd, heq⟩ := hc
          have hgone := habsent d hd
          rw [Surroundings.isActive, heq] at hgone
          simp [Surroundings.isActive, hgone] at ha
        · rw [Surroundings.isActive, hp _ fun d hd heq => hc ⟨d, hd, heq⟩] at ha
          obtain ⟨d, hd, -, heq⟩ := htorn t (.single ⟨hmem, ha, hneed⟩)
          exact hc ⟨d, hd, by rw [heq]⟩ }

variable (env) in
theorem calls_attempt (retryDeclined : Bool) (s : State Cap A) (spec : Spec Cap A) :
    (attempt env retryDeclined s spec).1.calls = s.calls ∨
      ∃ raised, (attempt env retryDeclined s spec).1.calls =
        s.calls ++ [⟨spec, .activate, s.app, raised⟩] := by
  have ha : ∀ t : State Cap A, ∃ raised, (activate env t spec).1.calls =
      t.calls ++ [⟨spec, .activate, t.app, raised⟩] := by
    intro t
    rw [activate]
    dsimp only
    split
    next => exact ⟨_, rfl⟩
    next => split <;> exact ⟨_, rfl⟩
  rw [attempt]
  split
  next => exact .inl rfl
  next =>
    split
    next => exact .inr (ha s)
    next =>
      dsimp only
      split
      next => exact .inr (ha _)
      next => exact .inl rfl

theorem SafeCalls.attempt (h : SafeCalls env specs a s s')
    (hall : env.missingCapabilities spec s'.app = []) (retryDeclined : Bool) :
    SafeCalls env specs a s (attempt env retryDeclined s' spec).1 := by
  rcases calls_attempt env retryDeclined s' spec with hc | ⟨raised, hc⟩
  · obtain ⟨new, hnew, hsafe⟩ := h
    exact ⟨new, by rw [hc, hnew], hsafe⟩
  · exact h.activation hc hall

/-- STEP LEMMA: the calls of a turn are safe. -/
theorem safeCalls_converge (hacc : Accepted (done ++ spec :: rest))
    (hown : ∀ u ∈ done ++ spec :: rest, ActsOnOwn env u)
    (hdown : ∀ u ∈ done ++ spec :: rest, TakesDown env u)
    (hc : CleanTeardowns (converge env (done ++ spec :: rest) retryDeclined s spec).1) :
    SafeCalls env (done ++ spec :: rest) s.app s
      (converge env (done ++ spec :: rest) retryDeclined s spec).1 := by
  have hspec : spec ∈ done ++ spec :: rest := by simp
  have hzone : ∀ u ∈ spec :: rest, ActsOnOwn env u := fun u hu => hown u (mem_append_right _ hu)
  have h := converged env (done ++ spec :: rest) retryDeclined s spec
  generalize (converge env (done ++ spec :: rest) retryDeclined s spec).1 = t at h hc ⊢
  cases h with
  | takenDown ha hn => exact safeCalls_takeDown hacc hown hdown hspec hc
  | leftDown ha hn => exact SafeCalls.of_eq rfl
  | rebuilt he hall ha hr hd =>
    -- what is taken down first stands behind its requirements
    let s₁ : State Cap A := { s with book := (s.book.drifted env spec s.app).2 }
    have hwith : Within env (spec :: rest) s₁
        (takeDown env (done ++ spec :: rest) s₁ spec true).1 :=
      within_takeDown hacc.ordered hzone
    have hcalls : SafeCalls env (done ++ spec :: rest) s.app s
        (takeDown env (done ++ spec :: rest) s₁ spec true).1 :=
      safeCalls_takeDown hacc hown hdown hspec
        (hc.of_earlier (within_attempt (hown spec hspec)).calls)
    exact hcalls.attempt ((hwith.gate hacc.ordered).2.trans hall) retryDeclined
  | kept he hall ha hr hd => exact SafeCalls.of_eq rfl
  | attempted he hall hr => exact SafeCalls.attempt (SafeCalls.of_eq rfl) hall retryDeclined

-- ==== the calls of a pass

/-- RUN LEMMA: every call of a pass was made in some turn, after calls of it alone, and safe. -/
theorem safeCalls_pass (hacc : Accepted specs) (hown : ∀ u ∈ specs, ActsOnOwn env u)
    (hdown : ∀ u ∈ specs, TakesDown env u)
    (hc : CleanTeardowns (pass env specs retryDeclined app book))
    (h : (pass env specs retryDeclined app book).calls = before ++ c :: after) :
    ∃ done spec rest s inTurn, specs = done ++ spec :: rest ∧
      s = done.foldl (turn env specs retryDeclined) (begin app book) ∧
      before = s.calls ++ inTurn ∧ SafeCall env specs s.app inTurn c := by
  -- over the turns made so far
  have ht : ∀ rest done, specs = done ++ rest → ∀ before c after,
      (done.foldl (turn env specs retryDeclined) (begin app book)).calls =
        before ++ c :: after →
      CleanTeardowns (done.foldl (turn env specs retryDeclined) (begin app book)) →
      ∃ done spec rest s inTurn, specs = done ++ spec :: rest ∧
        s = done.foldl (turn env specs retryDeclined) (begin app book) ∧
        before = s.calls ++ inTurn ∧ SafeCall env specs s.app inTurn c := by
    intro rest done
    induction done using List.reverseRecOn generalizing rest with
    | nil =>
      intro _ before c after hnil
      simp [begin] at hnil
    | append_singleton done spec ih =>
      intro hsplit before c after hcalls hc
      rw [append_assoc] at hsplit
      rw [foldl_append, foldl_cons, foldl_nil] at hcalls hc
      generalize hs : done.foldl (turn env specs retryDeclined) (begin app book) = s
        at hcalls hc
      have hturn := turn_eq env specs retryDeclined s spec
      have hsafe : SafeCalls env specs s.app s (turn env specs retryDeclined s spec) := by
        have hconverge : SafeCalls env specs s.app s
            (converge env specs retryDeclined s spec).1 := by
          subst hsplit
          refine safeCalls_converge hacc hown hdown fun call hcall => ?_
          exact hc call (hturn.2.2 ▸ hcall)
        obtain ⟨new, hnew, hsafe⟩ := hconverge
        exact ⟨new, hturn.2.2.trans hnew, hsafe⟩
      obtain ⟨new, hnew, hsafe⟩ := hsafe
      rw [hnew] at hcalls
      rcases append_eq_append_iff.1 hcalls with
        ⟨inTurn, hb, hi⟩ | ⟨earlier, he, hrest⟩
      · exact ⟨done, spec, rest, s, inTurn, hsplit, hs.symm, hb, hsafe inTurn c after hi⟩
      · cases earlier with
        | nil =>
          rw [append_nil] at he
          exact ⟨done, spec, rest, s, [], hsplit, hs.symm, by rw [he, append_nil],
            hsafe [] c after hrest.symm⟩
        | cons first earlier =>
          rw [cons_append, cons.injEq] at hrest
          rw [← hrest.1, ← hs] at he
          refine ih (spec :: rest) hsplit before c earlier he ?_
          rw [hs]
          exact hc.of_earlier (hnew ▸ prefix_append _ _)
  exact ht [] specs (append_nil specs).symm before c after h hc

-- ==== when a pass has ended

variable (env) in
def HoldsReplaced (s : State Cap A) (spec : Spec Cap A) : Prop :=
  ∃ captured, s.book.fingerprints spec.name = some captured ∧
    captured ≠ s.book.capabilitySnapshot env spec s.app

theorem inactive_takeDown (hdown : TakesDown env spec) (hsome : spec.deactivate.isSome = true)
    (hc : CleanTeardowns (takeDown env specs s spec returning).1) :
    env.isActive spec (takeDown env specs s spec returning).1.app = false :=
  inactive_deactivate hdown hsome hc

/-- STEP LEMMA: after its turn an active subsystem with a teardown has its
requirements. -/
theorem required_converge (hord : Ordered (done ++ spec :: rest))
    (hown : ∀ u ∈ spec :: rest, ActsOnOwn env u) (hdown : TakesDown env spec)
    (hc : CleanTeardowns (converge env (done ++ spec :: rest) retryDeclined s spec).1)
    (hsome : spec.deactivate.isSome = true) (ha : env.isActive spec
      (converge env (done ++ spec :: rest) retryDeclined s spec).1.app = true) :
    env.missingCapabilities spec
      (converge env (done ++ spec :: rest) retryDeclined s spec).1.app = [] := by
  have hwith : Within env (spec :: rest) s
      (converge env (done ++ spec :: rest) retryDeclined s spec).1 := within_converge hord hown
  rw [(hwith.gate hord).2]
  have h := converged env (done ++ spec :: rest) retryDeclined s spec
  generalize (converge env (done ++ spec :: rest) retryDeclined s spec).1 = t at h hc ha
  cases h with
  | takenDown hup hu =>
    have hgone := inactive_takeDown hdown hsome hc
    simp [hgone] at ha
  | leftDown hup hu => simp [hup] at ha
  | rebuilt he hall hup hr hd | kept he hall hup hr hd | attempted he hall hr => exact hall

theorem app_activate (s : State Cap A) (spec : Spec Cap A) :
    (activate env s spec).1.app = (spec.activate s.app).1 := by
  rw [activate]
  dsimp only
  split
  next => rfl
  next => split <;> rfl

theorem current_activate
    (hr : ∀ call ∈ (activate env s spec).1.calls, call.spec = spec → call.raised = false)
    (ha : env.isActive spec (activate env s spec).1.app = true) :
    ¬ HoldsReplaced env (activate env s spec).1 spec := by
  rw [app_activate] at ha
  rw [activate] at hr ⊢
  dsimp only at hr ⊢
  split at hr
  next detail hres =>
    have hraised := hr _ (mem_append_right _ mem_cons_self) rfl
    cases hraised
  next hres =>
    split
    next hup =>
      rintro ⟨captured, hc, ho⟩
      simp only [Book.recordActivation, Function.update_self, Option.some.injEq] at hc
      exact ho hc.symm
    next hup => exact absurd ha hup

theorem current_attempt (hidle : env.isActive spec s.app = false)
    (hr : ∀ call ∈ (attempt env retryDeclined s spec).1.calls,
      call.spec = spec → call.raised = false)
    (ha : env.isActive spec (attempt env retryDeclined s spec).1.app = true) :
    ¬ HoldsReplaced env (attempt env retryDeclined s spec).1 spec := by
  rw [attempt, if_neg (by simp [hidle])] at hr ha ⊢
  split at hr
  next hretry =>
    rw [if_pos hretry] at ha ⊢
    exact current_activate hr ha
  next hretry =>
    rw [if_neg hretry] at ha ⊢
    dsimp only at hr ha ⊢
    split at hr
    next hw =>
      rw [if_pos hw] at ha ⊢
      exact current_activate hr ha
    next hw =>
      rw [if_neg hw] at ha
      simp [hidle] at ha

omit [DecidableEq Cap] in
theorem current_of_undrifted (h : (s.book.drifted env spec s.app).1 = false) :
    ¬ HoldsReplaced env { s with book := (s.book.drifted env spec s.app).2 } spec := by
  rintro ⟨captured, hc, ho⟩
  have hsame : (s.book.drifted env spec s.app).2.fingerprints = s.book.fingerprints := by
    unfold Book.drifted
    split
    next => rfl
    next =>
      split
      next => rfl
      next => split <;> rfl
  have hc' : s.book.fingerprints spec.name = some captured := hsame ▸ hc
  have hd : (s.book.drifted env spec s.app).1 = true := by
    have hm : s.book.capabilitySnapshot env spec s.app ≠ captured := by
      intro heq
      apply ho
      show captured = (s.book.drifted env spec s.app).2.capabilitySnapshot env spec s.app
      rw [← heq, Book.capabilitySnapshot, Book.capabilitySnapshot, generations_drifted]
    simp only [Book.drifted, hc', if_pos hm]
  simp [hd] at h

/-- STEP LEMMA: after its turn a subsystem to be rebuilt holds nothing replaced, if no call
raised. -/
theorem current_converge (hdown : TakesDown env spec)
    (hc : CleanTeardowns (converge env (done ++ spec :: rest) retryDeclined s spec).1)
    (hown : ActsOnOwn env spec)
    (hr : ∀ call ∈ (converge env (done ++ spec :: rest) retryDeclined s spec).1.calls,
      call.spec = spec → call.raised = false) (hrebuild : spec.rebuildOnChange = true)
    (ha : env.isActive spec
      (converge env (done ++ spec :: rest) retryDeclined s spec).1.app = true) :
    ¬ HoldsReplaced env (converge env (done ++ spec :: rest) retryDeclined s spec).1 spec := by
  have h := converged env (done ++ spec :: rest) retryDeclined s spec
  generalize (converge env (done ++ spec :: rest) retryDeclined s spec).1 = t
    at h hc hr ha ⊢
  have hsome := spec.rebuild_ok hrebuild
  cases h with
  | takenDown hup hu =>
    have hgone := inactive_takeDown hdown hsome hc
    simp [hgone] at ha
  | leftDown hup hu => simp [hup] at ha
  | rebuilt he hall hup hflag hd =>
    have hgone := inactive_takeDown hdown hsome (hc.of_earlier (within_attempt hown).calls)
    exact current_attempt hgone hr ha
  | kept he hall hup hflag hd => exact current_of_undrifted hd
  | attempted he hall hflag =>
    by_cases hup : env.isActive spec s.app = true
    · rw [hrebuild] at hflag
      cases hflag hup
    · exact current_attempt (Bool.not_eq_true _ ▸ hup) hr ha

/-- RUN LEMMA: after a pass the active subsystems with a teardown have their requirements. -/
theorem required_pass (hacc : Accepted specs) (hown : ∀ u ∈ specs, ActsOnOwn env u)
    (hdown : ∀ u ∈ specs, TakesDown env u)
    (hclean : CleanTeardowns (pass env specs retryDeclined app book)) :
    ∀ d ∈ specs, d.deactivate.isSome = true →
      env.isActive d (pass env specs retryDeclined app book).app = true →
      env.missingCapabilities d (pass env specs retryDeclined app book).app = [] := by
  let P : State Cap A → Spec Cap A → Prop := fun s d =>
    d.deactivate.isSome = true → env.isActive d s.app = true →
      env.missingCapabilities d s.app = []
  have hsame : ∀ s s' d, SameFor env d s s' → P s d → P s' d := by
    intro s s' d hsame h hsome ha
    rw [hsame.missing]
    exact h hsome (hsame.active ▸ ha)
  refine pass_establishes hacc hown (P := P) hsame ?_ hclean
  intro done spec rest s hs hc hsome ha
  obtain ⟨happend, -, hturn⟩ := turn_eq env specs retryDeclined s spec
  rw [happend] at ha ⊢
  rw [hturn] at hc
  have hspec := hdown spec (by simp [hs])
  subst hs
  exact required_converge hacc.ordered
    (fun u hu => hown u (mem_append_right _ hu)) hspec hc hsome ha

/-- RUN LEMMA: and those that ask to be rebuilt hold nothing replaced. -/
theorem current_pass (hacc : Accepted specs) (hown : ∀ u ∈ specs, ActsOnOwn env u)
    (hdown : ∀ u ∈ specs, TakesDown env u)
    (hclean : CleanTeardowns (pass env specs retryDeclined app book)) {d : Spec Cap A}
    (hd : d ∈ specs) (hr : ∀ call ∈ (pass env specs retryDeclined app book).calls,
      call.spec = d → call.raised = false) (hrebuild : d.rebuildOnChange = true)
    (hactive : env.isActive d (pass env specs retryDeclined app book).app = true) :
    ¬ HoldsReplaced env (pass env specs retryDeclined app book) d := by
  let P : State Cap A → Spec Cap A → Prop := fun s spec =>
    spec = d → spec.rebuildOnChange = true → env.isActive spec s.app = true →
      ¬ HoldsReplaced env s spec
  let C : Call Cap A → Prop := fun call =>
    (call.act = .deactivate → call.raised = false) ∧ (call.spec = d → call.raised = false)
  have hsame : ∀ s s' spec, SameFor env spec s s' → P s spec → P s' spec := by
    intro s s' spec hsame h heq hflag hup
    rw [HoldsReplaced, hsame.fingerprints, hsame.snapshot]
    exact h heq hflag (hsame.active ▸ hup)
  refine pass_establishes hacc hown (P := P) (C := C) hsame ?_
    (fun call hcall => ⟨hclean call hcall, hr call hcall⟩) d hd rfl hrebuild hactive
  intro done spec rest s hs hc heq hflag hup
  obtain ⟨ha, hbook, hturn⟩ := turn_eq env specs retryDeclined s spec
  rw [HoldsReplaced, ha, hbook]
  rw [ha] at hup
  rw [hturn] at hc
  have hspec : spec ∈ specs := by simp [hs]
  subst hs
  exact current_converge (hdown spec hspec) (fun call hcall => (hc call hcall).1)
    (hown spec hspec) (fun call hcall => heq ▸ (hc call hcall).2) hflag hup

/-- NO SUBSYSTEM OUTLIVES WHAT IT CAPTURED, in a pass in which no teardown raised: an activation
has its requirements; a teardown is called after those of all that required its subsystem when
its turn began, when nothing active requires it any more; and at the end an active subsystem
with a teardown has its requirements, and one that asks to be rebuilt holds none that was
replaced, if no call of it raised. -/
theorem no_subsystem_outlives_captured {registry : SettingsRegistry}
    {declared specs : List (Spec Cap A)}
    (hspecs : orderSubsystems registry (fun cap => (env.probe cap).isSome) declared = .ok specs)
    (hown : ∀ spec ∈ specs, ActsOnOwn env spec) (hdown : ∀ spec ∈ specs, TakesDown env spec)
    (retryDeclined : Bool) (app : A) (book : Book Cap)
    (hclean : CleanTeardowns (pass env specs retryDeclined app book)) :
    (∀ before c after, (pass env specs retryDeclined app book).calls = before ++ c :: after →
      ∃ done spec rest s inTurn, specs = done ++ spec :: rest ∧
        s = done.foldl (turn env specs retryDeclined) (begin app book) ∧
        before = s.calls ++ inTurn ∧ SafeCall env specs s.app inTurn c) ∧
    ∀ spec ∈ specs, env.isActive spec (pass env specs retryDeclined app book).app = true →
      (spec.deactivate.isSome = true →
        env.missingCapabilities spec (pass env specs retryDeclined app book).app = []) ∧
      (spec.rebuildOnChange = true →
        (∀ call ∈ (pass env specs retryDeclined app book).calls,
          call.spec = spec → call.raised = false) →
        ¬ HoldsReplaced env (pass env specs retryDeclined app book) spec) := by
  obtain ⟨haccepted, -⟩ := accepted_of_orderSubsystems hspecs
  refine ⟨fun before c after h => safeCalls_pass haccepted hown hdown hclean h,
    fun d hd hactive => ⟨fun hsome => ?_, fun hrebuild hraise => ?_⟩⟩
  · exact required_pass haccepted hown hdown hclean d hd hsome hactive
  · exact current_pass haccepted hown hdown hclean hd hraise hrebuild hactive

theorem studio_takesDown : ∀ spec ∈ [streamSpec, narratorSpec], TakesDown studio spec := by
  have hstr : TakesDown studio streamSpec := nofun
  have hn : TakesDown studio narratorSpec := fun teardown h a _ => by
    cases h
    rfl
  simp [hstr, hn]

/-- The narrator, taken down and brought back, is left over the stream it finds. -/
theorem no_subsystem_outlives_captured_studio : studio.missingCapabilities narratorSpec
      (pass studio [streamSpec, narratorSpec] false ⟨false, true, true⟩ emptyBook).app = [] ∧
    ¬ HoldsReplaced studio
      (pass studio [streamSpec, narratorSpec] false ⟨false, true, true⟩ emptyBook)
      narratorSpec := by
  have hraised : Unraised
      (pass studio [streamSpec, narratorSpec] false ⟨false, true, true⟩ emptyBook) :=
    unraised_of_map (l := [false, false]) rfl (by simp)
  obtain ⟨-, hend⟩ := no_subsystem_outlives_captured studio_accepted studio_own
    studio_takesDown false ⟨false, true, true⟩ emptyBook fun call hcall _ => hraised call hcall
  obtain ⟨hrequired, hcurrent⟩ := hend narratorSpec (by simp) rfl
  exact ⟨hrequired rfl, hcurrent rfl fun call hcall _ => hraised call hcall⟩

-- ==== a reader that is not rebuilt

section Reader

inductive Piece where
  | index
  | reader
  deriving DecidableEq

structure Library where
  index : Option Nat
  reader : Option Nat
  next : Nat

def library : Surroundings Piece Library where
  probe
    | .index => some fun a => some a.index.isSome
    | .reader => some fun a => some a.reader.isSome
  config _ _ := none
  setting _ _ := none

def indexSpec : Spec Piece Library where
  name := "index"
  provides := .index
  activate a := ({ a with index := some a.next, next := a.next + 1 }, .returned)
  requires := []
  deactivate := none
  enabledBy := none
  settings := []
  rebuildOnChange := false
  rebuild_ok h := by cases h

/-- Built over the open index. It has a teardown, but does not ask to be
rebuilt. -/
def readerSpec : Spec Piece Library where
  name := "reader"
  provides := .reader
  activate a := ({ a with reader := a.index }, .returned)
  requires := [.index]
  deactivate := some fun a => ({ a with reader := none }, none)
  enabledBy := none
  settings := []
  rebuildOnChange := false
  rebuild_ok h := by cases h

def blankBook : Book Piece where
  failures _ := none
  declined _ := false
  declineReasons _ := none
  fingerprints _ := none
  settings _ := none
  generations _ := 0
  attempted _ := none

def firstPass : State Piece Library :=
  pass library [indexSpec, readerSpec] false ⟨none, none, 0⟩ blankBook

def secondPass : State Piece Library :=
  pass library [indexSpec, readerSpec] false { firstPass.app with index := none } firstPass.book

theorem library_own : ∀ spec ∈ [indexSpec, readerSpec], ActsOnOwn library spec := by
  -- a piece other than the one a function sets reads the same field as before
  have hi : ActsOnOwn library indexSpec :=
    { activate := fun a => ⟨fun cap hcap => by cases cap <;> first | rfl | exact absurd rfl hcap,
        fun _ => rfl, fun _ => rfl⟩
      deactivate := nofun }
  have hread : ActsOnOwn library readerSpec :=
    { activate := fun a => ⟨fun cap hcap => by cases cap <;> first | rfl | exact absurd rfl hcap,
        fun _ => rfl, fun _ => rfl⟩
      deactivate := fun teardown h a => by
        cases h
        exact ⟨fun cap hcap => by cases cap <;> first | rfl | exact absurd rfl hcap,
          fun _ => rfl, fun _ => rfl⟩ }
  simp [hi, hread]

theorem library_takesDown : ∀ spec ∈ [indexSpec, readerSpec], TakesDown library spec := by
  have hi : TakesDown library indexSpec := nofun
  have hread : TakesDown library readerSpec := fun teardown h a _ => by
    cases h
    rfl
  simp [hi, hread]

/-- The second pass opens a new index and leaves the reader over the old
one. -/
theorem reader_keeps_replaced : secondPass.app = ⟨some 1, some 0, 2⟩ ∧
    ¬ ∀ (Cap A : Type) (_ : DecidableEq Cap) (env : Surroundings Cap A)
      (registry : SettingsRegistry) (declared specs : List (Spec Cap A)),
      orderSubsystems registry (fun cap => (env.probe cap).isSome) declared = .ok specs →
      (∀ spec ∈ specs, ActsOnOwn env spec) → (∀ spec ∈ specs, TakesDown env spec) →
      ∀ (retryDeclined : Bool) (app : A) (book : Book Cap),
        CleanTeardowns (pass env specs retryDeclined app book) →
        ∀ spec ∈ specs, env.isActive spec (pass env specs retryDeclined app book).app = true →
          spec.deactivate.isSome = true →
          ¬ HoldsReplaced env (pass env specs retryDeclined app book) spec := by
  refine ⟨rfl, fun h => ?_⟩
  have hclean : CleanTeardowns secondPass := by
    have hacts : secondPass.calls.map Call.act = [.activate] := rfl
    intro call hcall hact
    have hmem : call.act ∈ [Act.activate] := hacts ▸ mem_map_of_mem hcall
    rw [hact] at hmem
    simp at hmem
  refine h Piece Library inferInstance library allRegistered [indexSpec, readerSpec]
    [indexSpec, readerSpec] rfl library_own library_takesDown false
    { firstPass.app with index := none } firstPass.book hclean readerSpec (by simp) rfl rfl ?_
  exact ⟨[(true, 1)], rfl, by decide⟩

end Reader

end Synthorg.Subsystems
