/-
What was handed over had been judged.

The gate of a wave writes down, for each subtask it lets through, what the
engine held for its declared dependencies, and the executor is given no
subtask that its wave's gate has not let through. A subtask is let through
when all of them stand, each with a row in no non-delivering status; or when
one has died and the engine has refused the subtask's park.
-/
import Synthorg.Coordination.Proofs.Stranded

namespace Synthorg.Coordination

open Synthorg.Core Lib Lib.Program TaskEngine Decomposition
open List

-- ==== the invariant

structure Sensible (dependencies : DependencyMap) (w : World) (j : Judgement) : Prop where
  declared : j.states.map Prod.fst = dependencies.get j.taskId
  found : ∀ d ∈ j.states, (d.1, d.2.status) ∈ w.found
  runnable : j.verdict = .runnable →
    ∀ d ∈ j.states, ∃ status, d.2.status = some status ∧ status ∉ nonDeliveringStatuses
  kept : j.verdict = .kept → j.taskId ∈ w.refused ∧ ∃ d ∈ j.states, d.2.dead = true

def LetThrough (w : World) (waveIdx : Nat) (taskId : String) : Prop :=
  ∃ j ∈ w.judged, j.waveIdx = waveIdx ∧ j.taskId = taskId ∧
    (j.verdict = .runnable ∨ j.verdict = .kept)

/-- THE INVARIANT: every judgement is sensible, and nothing is handed over that
was not let through. -/
structure Gated (dependencies : DependencyMap) (w : World) : Prop where
  sensible : ∀ j ∈ w.judged, Sensible dependencies w j
  handed : ∀ h ∈ w.handed, LetThrough w h.1 h.2

variable {dependencies : DependencyMap}

theorem Gated.start (engine : EngineState) : Gated dependencies (World.start engine) where
  sensible _ h := by cases h
  handed _ h := by cases h

def Operation.plain : Operation → Prop
  | .judge _ => False
  | .executeGroup .. => False
  | _ => True

variable {w t : World} {α : Type} {p : Call α}

theorem Gated.grows {w' : World} (h : Gated dependencies w) (hjudged : w'.judged = w.judged)
    (hhand : w'.handed = w.handed) (hf : ∀ f ∈ w.found, f ∈ w'.found)
    (href : ∀ x ∈ w.refused, x ∈ w'.refused) : Gated dependencies w' where
  sensible j hj := by
    rw [hjudged] at hj
    have hold := h.sensible j hj
    exact ⟨hold.declared, fun d hd => hf _ (hold.found d hd), hold.runnable,
      fun hv => ⟨href _ (hold.kept hv).1, (hold.kept hv).2⟩⟩
  handed x hx := by
    rw [hhand] at hx
    obtain ⟨j, hj, hwhy⟩ := h.handed x hx
    exact ⟨j, hjudged ▸ hj, hwhy⟩

theorem Gated.parking (h : Gated dependencies w) (taskId : String) (landed : Bool) :
    Gated dependencies (w.parking taskId landed) := by
  unfold World.parking
  split
  · exact h.grows rfl rfl (fun _ hf => hf) fun _ hx => hx
  · exact h.grows rfl rfl (fun _ hf => hf) fun _ hx => mem_cons_of_mem _ hx

variable {op : Operation} {keys : List String} {known : Known}

/-- STEP LEMMA: a plain operation keeps it, whoever interferes. -/
theorem Gated.exec (h : Gated dependencies w) (hop : op.plain) (env : Environment) :
    Gated dependencies (exec w op env).1 := by
  have ho : Gated dependencies (w.interfered env.others) :=
    h.grows rfl rfl (fun _ hf => hf) fun _ hx => hx
  have hoperate : Gated dependencies (operate (w.interfered env.others) op env).1 := by
    cases op with
    | getTask taskId =>
      simp only [operate]
      split
      · exact ho
      · exact ho.grows rfl rfl (fun _ hf => mem_cons_of_mem _ hf) fun _ hx => hx
    | submit taskId target overrides =>
      simp only [operate]
      split
      · refine Gated.parking ?_ taskId _
        exact ho.grows rfl rfl (fun _ hf => mem_cons_of_mem _ hf) fun _ hx => hx
      · exact ho.grows rfl rfl (fun _ hf => hf) fun _ hx => hx
    | judge judgement | executeGroup waveIdx group => exact absurd hop id
    | _ => exact ho.grows rfl rfl (fun _ hf => hf) fun _ hx => hx
  unfold Coordination.exec
  split
  · split
    · exact absurd hop id
    · exact ho.parking _ false
    · exact ho
  · exact hoperate

-- ==== the plain programs

abbrev Plain {α : Type} (p : Call α) : Prop :=
  p.Meets Operation.plain (fun _ _ => True) fun _ => True

theorem Plain.bind {β : Type} {f : α → Call β} (hp : Plain p) (hf : ∀ a, Plain (f a)) :
    Plain (p >>= f) :=
  Meets.bind hp fun a _ => hf a

theorem Plain.attempt (hp : Plain p) : Plain p.attempt :=
  Meets.handle (Meets.bind hp fun _ _ => trivial) fun _ => trivial

theorem plain_perform (hop : op.plain) : Plain (perform op : Call (Reply op)) :=
  ⟨hop, fun _ _ => trivial, fun _ => trivial⟩

theorem plain_getTask (taskId : String) : Plain (getTask taskId) := plain_perform trivial

theorem plain_submit (taskId : String) (target : TaskStatus) (overrides : FieldUpdates) :
    Plain (submit taskId target overrides) := plain_perform trivial

theorem plain_appendPhase (phase : CoordinationPhaseResult) : Plain (appendPhase phase) :=
  plain_perform trivial

theorem plain_parkRow (taskId : String) (reason : BlockedReason) :
    Plain (parkRow taskId reason) := by
  refine (plain_submit _ _ _).attempt.bind ?_
  intro result
  cases result <;> trivial

theorem plain_parkAll (reason : BlockedReason) (taskIds : List String) :
    Plain (parkAll reason taskIds) := by
  induction taskIds with
  | nil => trivial
  | cons taskId rest ih =>
    refine Plain.bind ?_ fun _ => ih.bind fun _ => trivial
    refine (plain_getTask _).attempt.bind ?_
    intro live
    cases live with
    | error e => trivial
    | ok live =>
      cases live with
      | none => trivial
      | some task =>
        dsimp only
        split
        · trivial
        · exact plain_parkRow taskId reason

theorem plain_parkGroups (stoppedLevel : Int) (groups : List ParallelExecutionGroup) :
    Plain (parkGroups stoppedLevel groups) := by
  induction groups with
  | nil => trivial
  | cons group rest ih => exact (plain_parkAll _ _).bind fun _ => ih.bind fun _ => trivial

theorem plain_abandonAfter (groups : List ParallelExecutionGroup) (waveIdx : Nat) :
    Plain (abandonAfter groups waveIdx) :=
  (plain_parkGroups _ _).bind fun _ => trivial

theorem plain_narrowFrom (assignments : List AgentAssignment) : Plain (narrowFrom assignments) := by
  induction assignments with
  | nil => trivial
  | cons a rest ih =>
    refine (plain_getTask _).bind fun live => ih.bind ?_
    intro r
    dsimp only
    split <;> trivial

theorem plain_readDependencies (known : Known) (declared : List String) :
    Plain (readDependencies known declared) := by
  induction declared generalizing known with
  | nil => trivial
  | cons dependencyId rest ih =>
    unfold readDependencies
    split
    · exact ih _
    · exact (plain_getTask _).bind fun _ => ih _

theorem plain_release (moved : List AgentAssignment) : Plain (release moved) := by
  induction moved with
  | nil => trivial
  | cons a rest ih => exact (plain_parkRow _ _).bind fun _ => ih

theorem plain_persistOne (a : AgentAssignment) : Plain (persistOne a) := by
  refine (plain_getTask _).bind ?_
  intro live
  cases live with
  | none => trivial
  | some live =>
    dsimp only
    split
    · trivial
    · refine (plain_submit _ _ _).bind ?_
      intro result
      split <;> trivial

theorem plain_persist (group : ParallelExecutionGroup) : Plain (persist group) := by
  have hfrom : ∀ moved assignments, Plain (persistFrom moved assignments) := by
    intro moved assignments
    induction assignments generalizing moved with
    | nil => trivial
    | cons candidate rest ih =>
      refine (plain_persistOne candidate).attempt.bind ?_
      intro one
      cases one with
      | error e => exact (plain_release moved).bind fun _ => trivial
      | ok r => exact (ih _).bind fun _ => trivial
  exact (hfrom _ _).bind fun _ => trivial

theorem plain_appendWave (waveIdx : Nat) (subtaskIds : List String)
    (executionResult : Option ParallelExecutionResult) :
    Plain (appendWave waveIdx subtaskIds executionResult) := by
  unfold appendWave
  split
  · exact plain_perform trivial
  · trivial

theorem plain_settleWave (waveIdx : Nat) (verdict : WaveVerdict) :
    Plain (settleWave waveIdx verdict) := by
  have hs : Plain (settle waveIdx verdict) := plain_perform trivial
  refine hs.attempt.bind ?_
  intro settled
  cases settled with
  | ok _ => trivial
  | error e => exact plain_appendPhase _

theorem plain_recordWaveError (waveIdx : Nat) (group : ParallelExecutionGroup) (e : Error) :
    Plain (recordWaveError waveIdx group e) :=
  (plain_appendWave _ _ _).bind fun _ => plain_appendPhase _

-- ==== whatever comes

abbrev Anyhow (_ : Environment) : Prop := True

theorem Anyhow.spares (env : Environment) (_ : Anyhow env) : Spares [] env :=
  fun _ _ _ hx => absurd hx not_mem_nil

structure Kept (dependencies : DependencyMap) (w t : World) : Prop where
  gated : Gated dependencies t
  onward : Onward [] w t

theorem Plain.kept (hp : Plain p) (h : Gated dependencies w) (hw : w.engine.Sound) :
    Comes Anyhow p (fun _ t => Kept dependencies w t) w := by
  have hg : Comes Anyhow p (fun _ t => Gated dependencies t) w :=
    hp.ensures (fun _ _ env _ hop hs => hs.exec hop env) h
  exact (Comes.onward hg Anyhow.spares hw).mono fun _ _ hout => ⟨hout.1, hout.2⟩

theorem LetThrough.onward {waveIdx : Nat} {taskId : String} (h : LetThrough w waveIdx taskId)
    (hon : Onward keys w t) : LetThrough t waveIdx taskId := by
  obtain ⟨j, hj, hwhy⟩ := h
  exact ⟨j, hon.judged j hj, hwhy⟩

-- ==== the gate

def Told (known : Known) (w : World) : Prop :=
  ∀ d state, known d = some state → (d, state.status) ∈ w.found

theorem Told.onward (h : Told known w) (hon : Onward keys w t) : Told known t :=
  fun d state hs => hon.found _ (h d state hs)

theorem DependencyState.of_status (live : Option Task) :
    (DependencyState.of live).status = live.map fun l : Task => l.status := by
  cases live <;> rfl

theorem comes_readDependencies (known : Known) (declared : List String) (h : Gated dependencies w)
    (hw : w.engine.Sound) (hknown : Told known w) :
    Comes Anyhow (readDependencies known declared) (fun out t => Kept dependencies w t ∧
      ∀ known', out = .ok known' → Told known' t ∧ (∀ d ∈ declared, (known' d).isSome) ∧
        ∀ d, (known d).isSome → (known' d).isSome) w := by
  refine Ensures.and ((plain_readDependencies known declared).kept h hw) ?_
  clear h
  induction declared generalizing known w with
  | nil =>
    intro known' hk
    cases hk
    exact ⟨hknown, by simp, fun _ hd => hd⟩
  | cons dependencyId rest ih =>
    unfold readDependencies
    split
    · next hsome =>
      refine (ih known hw hknown).mono ?_
      intro out t hout known' hk
      obtain ⟨htold, hrest, hkept⟩ := hout known' hk
      refine ⟨htold, ?_, hkept⟩
      intro d hd
      cases mem_cons.1 hd with
      | inl heq => exact hkept d (heq ▸ hsome)
      | inr hd => exact hrest d hd
    · refine (Comes.onward (comes_read dependencyId w) Anyhow.spares hw).bind ?_
        (fun _ _ _ _ hk => by cases hk)
      intro live t hout
      have hseen := hout.1 live rfl
      have hnext : Told (Function.update known dependencyId
          (some (DependencyState.of live))) t := by
        intro d state hs
        by_cases hd : d = dependencyId
        · rw [hd, Function.update_self] at hs
          rw [hd, ← Option.some.inj hs, DependencyState.of_status]
          exact hseen.found
        · rw [Function.update_of_ne hd] at hs
          exact hknown.onward hout.2 d state hs
      refine (ih _ hout.2.sound hnext).mono ?_
      intro out u hu known' hk
      obtain ⟨htold, hrest, hkept⟩ := hu known' hk
      refine ⟨htold, ?_, ?_⟩
      · intro d hd
        cases mem_cons.1 hd with
        | inl heq => exact hkept d (by rw [heq]; simp)
        | inr hd => exact hrest d hd
      · intro d hd
        refine hkept d ?_
        by_cases heq : d = dependencyId
        · rw [heq]
          simp
        · rwa [Function.update_of_ne heq]

theorem statesOf_found {declared : List String} (htold : Told known w)
    (hall : ∀ d ∈ declared, (known d).isSome) :
    ∀ d ∈ statesOf known declared, (d.1, d.2.status) ∈ w.found := by
  intro d hd
  obtain ⟨dependencyId, hin, rfl⟩ := mem_map.1 hd
  obtain ⟨state, hs⟩ := Option.isSome_iff_exists.1 (hall dependencyId hin)
  simp only [hs]
  exact htold dependencyId state hs

theorem statesOf_fst (known : Known) (declared : List String) :
    (statesOf known declared).map Prod.fst = declared := by
  simp [statesOf, Function.comp_def]

theorem comes_judge_kept {j : Judgement} (h : Gated dependencies w) (hw : w.engine.Sound)
    (hj : ∀ t, Onward [] w t → (∀ x ∈ w.refused, x ∈ t.refused) →
      Sensible dependencies t j) :
    Comes Anyhow (judge j) (fun _ t => Kept dependencies w t ∧ j ∈ t.judged) w := by
  have hjudge : Comes Anyhow (judge j) (fun _ t => Gated dependencies t ∧ j ∈ t.judged) w := by
    intro env _
    simp only [exec, Operation.awaited, Bool.and_false]
    have ho : Onward [] w (w.interfered env.others) :=
      interfered_onward hw (Anyhow.spares env trivial)
    refine ⟨⟨?_, ?_⟩, mem_cons_self⟩
    · intro k hk
      have hs : Sensible dependencies (w.interfered env.others) k := by
        cases mem_cons.1 hk with
        | inl heq => exact heq ▸ hj _ ho fun _ hx => hx
        | inr hk =>
          have hold := h.sensible k hk
          exact ⟨hold.declared, hold.found, hold.runnable, hold.kept⟩
      exact ⟨hs.declared, hs.found, hs.runnable, hs.kept⟩
    · intro x hx
      obtain ⟨k, hk, hwhy⟩ := h.handed x hx
      exact ⟨k, mem_cons_of_mem _ hk, hwhy⟩
  exact (Comes.onward hjudge Anyhow.spares hw).mono fun _ _ hout => ⟨⟨hout.1.1, hout.2⟩, hout.1.2⟩

theorem comes_parkRow_refused (taskId : String) (reason : BlockedReason) (w : World) :
    Comes Anyhow (parkRow taskId reason) (fun out t => out = .ok false → taskId ∈ t.refused) w := by
  have hs : Comes Anyhow (submit taskId .blocked (blockedOverrides reason))
      (fun out t => (∀ e, out = .error e → taskId ∈ t.refused) ∧
        ∀ result, out = .ok result → result.succeeded = false → taskId ∈ t.refused) w := by
    intro env _
    by_cases hr : env.raises (.submit taskId .blocked (blockedOverrides reason)) = true
    · simp only [exec, hr]
      exact ⟨fun _ _ => mem_cons_self, fun _ hres => by cases hres⟩
    · simp only [exec, hr, Bool.false_and, Bool.false_eq_true, if_false, operate, if_true]
      refine ⟨fun _ he => (by cases he), ?_⟩
      intro result hres hfail
      cases hres
      unfold World.parking
      rw [if_neg (by simp [hfail])]
      exact mem_cons_self
  refine (Ensures.attempt (Q := fun out t =>
    (∀ e, out = .ok (.error e) → taskId ∈ t.refused) ∧ ∀ result, out = .ok (.ok result) →
      result.succeeded = false → taskId ∈ t.refused) (hs.mono ?_)).bind ?_ ?_
  · intro out t hout
    exact ⟨fun e he => hout.1 e (Except.ok.inj he),
      fun result hres => hout.2 result (Except.ok.inj hres)⟩
  · intro out t hout
    cases out with
    | error e => exact fun _ => hout.1 e rfl
    | ok result => exact fun hf => hout.2 result rfl (Except.ok.inj hf)
  · intro e t _ hf
    cases hf

theorem comes_gateFrom_kept (waveIdx : Nat) (known : Known) (assignments : List AgentAssignment)
    (h : Gated dependencies w) (hw : w.engine.Sound) (hk : Told known w) :
    Comes Anyhow (gateFrom waveIdx dependencies known assignments) (fun out t =>
      Kept dependencies w t ∧ ∀ r, out = .ok r → ∀ a ∈ r.1, LetThrough t waveIdx a.taskId) w := by
  induction assignments generalizing known w with
  | nil =>
    refine ⟨⟨h, Onward.refl hw⟩, ?_⟩
    intro r hr
    cases hr
    simp
  | cons a rest ih =>
    refine (comes_readDependencies known (dependencies.get a.taskId) h hw hk).bind ?_
      (fun _ _ hout => ⟨hout.1, fun _ hr => by cases hr⟩)
    intro known' t hout
    obtain ⟨hkept, hread⟩ := hout
    obtain ⟨htold, hall, -⟩ := hread known' rfl
    have hf := statesOf_found htold hall
    have hon := hkept.onward
    -- the rest of the wave, once this judgement is on the record
    have hrest : ∀ u (j : Judgement), Kept dependencies t u → j ∈ u.judged →
        j.waveIdx = waveIdx → j.taskId = a.taskId →
        (j.verdict = .runnable ∨ j.verdict = .kept) →
        Comes Anyhow (do
            let gated ← gateFrom waveIdx dependencies known' rest
            pure (a :: gated.1, gated.2))
          (fun out v => Kept dependencies w v ∧
            ∀ r, out = .ok r → ∀ b ∈ r.1, LetThrough v waveIdx b.taskId) u := by
      intro u j hu hj hwave htask hverdict
      refine (ih known' hu.gated hu.onward.sound (htold.onward hu.onward)).bind ?_
        (fun _ _ hv => ⟨⟨hv.1.gated, (hon.trans hu.onward).trans hv.1.onward⟩,
          fun _ hr => by cases hr⟩)
      intro r v hv
      refine ⟨⟨hv.1.gated, (hon.trans hu.onward).trans hv.1.onward⟩, ?_⟩
      intro r' hr b hb
      cases hr
      cases mem_cons.1 hb with
      | inl heq => exact ⟨j, hv.1.onward.judged j hj, hwave, heq ▸ htask, hverdict⟩
      | inr hb => exact hv.2 r rfl b hb
    dsimp only
    split
    · next hunmet =>
      split
      · next ha =>
        have hs : ∀ u, Onward [] t u → (∀ x ∈ t.refused, x ∈ u.refused) →
            Sensible dependencies u ⟨waveIdx, a.taskId,
              statesOf known' (dependencies.get a.taskId), .runnable⟩ := by
          intro u hu _
          refine ⟨statesOf_fst _ _, fun d hd => hu.found _ (hf d hd), ?_, by simp⟩
          intro _ d hd
          exact (d.2).standing (unmetDependencies_eq_nil_iff.1 hunmet d hd)
            (awaitedDependencies_eq_nil_iff.1 ha d hd)
        refine (comes_judge_kept hkept.gated hon.sound hs).bind ?_
          (fun _ _ hu => ⟨⟨hu.1.gated, hon.trans hu.1.onward⟩, fun _ hr => by cases hr⟩)
        intro _ u hu
        exact hrest u _ hu.1 hu.2 rfl rfl (.inl rfl)
      · refine (comes_judge_kept hkept.gated hon.sound ?_).bind ?_
          (fun _ _ hu => ⟨⟨hu.1.gated, hon.trans hu.1.onward⟩, fun _ hr => by cases hr⟩)
        · intro u hu _
          exact ⟨statesOf_fst _ _, fun d hd => hu.found _ (hf d hd), by simp, by simp⟩
        · intro _ u hu
          refine (ih known' hu.1.gated hu.1.onward.sound (htold.onward hu.1.onward)).bind ?_
            (fun _ _ hv => ⟨⟨hv.1.gated, (hon.trans hu.1.onward).trans hv.1.onward⟩,
              fun _ hr => by cases hr⟩)
          intro r v hv
          refine ⟨⟨hv.1.gated, (hon.trans hu.1.onward).trans hv.1.onward⟩, ?_⟩
          intro r' hr
          cases hr
          exact hv.2 r rfl
    · next hunmet =>
      have hdead : ∃ d ∈ statesOf known' (dependencies.get a.taskId), d.2.dead = true := by
        simpa [unmetDependencies_eq_nil_iff] using hunmet
      refine (Ensures.and ((plain_parkRow a.taskId .dependencyFailed).kept hkept.gated
        hon.sound) (comes_parkRow_refused a.taskId .dependencyFailed t)).bind ?_
        (fun _ _ hu => ⟨⟨hu.1.gated, hon.trans hu.1.onward⟩, fun _ hr => by cases hr⟩)
      intro landed u hu
      obtain ⟨hpark, href⟩ := hu
      have hs : ∀ verdict, verdict ≠ .runnable → (verdict = .kept → a.taskId ∈ u.refused) →
          ∀ v, Onward [] u v → (∀ x ∈ u.refused, x ∈ v.refused) →
            Sensible dependencies v ⟨waveIdx, a.taskId,
              statesOf known' (dependencies.get a.taskId), verdict⟩ := by
        intro verdict hne hin v hv hmore
        exact ⟨statesOf_fst _ _, fun d hd => hv.found _ (hpark.onward.found _ (hf d hd)),
          fun hr => absurd hr hne, fun hr => ⟨hmore _ (hin hr), hdead⟩⟩
      split
      · refine (comes_judge_kept hpark.gated hpark.onward.sound
          (hs .parked (by simp) (by simp))).bind ?_
          (fun _ _ hv => ⟨⟨hv.1.gated, (hon.trans hpark.onward).trans hv.1.onward⟩,
            fun _ hr => by cases hr⟩)
        intro _ v hv
        have ho := hpark.onward.trans hv.1.onward
        refine (ih known' hv.1.gated hv.1.onward.sound (htold.onward ho)).mono ?_
        intro out x hx
        exact ⟨⟨hx.1.gated, (hon.trans ho).trans hx.1.onward⟩, hx.2⟩
      · next hnot =>
        have hfalse : landed = false := Bool.eq_false_iff.2 hnot
        refine (comes_judge_kept hpark.gated hpark.onward.sound
          (hs .kept (by simp) fun _ => href (by rw [hfalse]))).bind ?_
          (fun _ _ hv => ⟨⟨hv.1.gated, (hon.trans hpark.onward).trans hv.1.onward⟩,
            fun _ hr => by cases hr⟩)
        intro _ v hv
        exact hrest v _ ⟨hv.1.gated, hpark.onward.trans hv.1.onward⟩ hv.2 rfl rfl (.inr rfl)

theorem Kept.trans {u : World} (h : Kept dependencies w t) (h' : Kept dependencies t u) :
    Kept dependencies w u :=
  ⟨h'.gated, h.onward.trans h'.onward⟩

/-- GATE LEMMA: all a wave keeps has been let through. -/
theorem comes_gateWave_kept (waveIdx : Nat) (group : ParallelExecutionGroup)
    (h : Gated dependencies w) (hw : w.engine.Sound) :
    Comes Anyhow (gateWave waveIdx dependencies group) (fun out t => Kept dependencies w t ∧
      ∀ g, out = .ok g → ∀ gated ∈ g.group, ∀ x ∈ gated.taskIds, LetThrough t waveIdx x) w := by
  have hn : Plain (narrowToAwaitingDispatch group) := (plain_narrowFrom _).bind fun _ => trivial
  refine (hn.kept h hw).bind ?_ (fun _ _ ht => ⟨ht, fun _ hg => by cases hg⟩)
  intro unsettled t ht
  have hgate : Comes Anyhow (gateOnDependencies waveIdx unsettled.1 dependencies)
      (fun out u => Kept dependencies t u ∧ ∀ r, out = .ok r →
        ∀ x ∈ r.1.taskIds, LetThrough u waveIdx x) t := by
    refine (comes_gateFrom_kept waveIdx (fun _ => none) unsettled.1.assignments ht.gated
      ht.onward.sound (fun _ _ hd => by cases hd)).bind ?_
      (fun _ _ hu => ⟨hu.1, fun _ hr => by cases hr⟩)
    intro r u hu
    refine ⟨hu.1, ?_⟩
    intro r' hr x hx
    cases hr
    obtain ⟨a, ha, rfl⟩ := mem_map.1 hx
    exact hu.2 r rfl a ha
  refine hgate.bind ?_ (fun _ _ hu => ⟨ht.trans hu.1, fun _ hg => by cases hg⟩)
  intro gated u hu
  dsimp only
  split
  · refine ⟨ht.trans hu.1, ?_⟩
    intro g hg kept hkept
    cases hg
    rw [← Option.some.inj hkept]
    exact hu.2 gated rfl
  · refine ((plain_appendPhase _).kept hu.1.gated hu.1.onward.sound).bind ?_
      (fun _ _ hv => ⟨(ht.trans hu.1).trans hv, fun _ hg => by cases hg⟩)
    intro _ v hv
    refine ⟨(ht.trans hu.1).trans hv, ?_⟩
    intro g hg kept hkept
    cases hg
    cases hkept

-- ==== the dispatch

/-- HAND-OVER LEMMA: what was let through may be handed over. -/
theorem comes_executeGroup_kept (waveIdx : Nat) (group : ParallelExecutionGroup)
    (h : Gated dependencies w) (hw : w.engine.Sound)
    (ht : ∀ x ∈ group.taskIds, LetThrough w waveIdx x) :
    Comes Anyhow (executeGroup waveIdx group) (fun _ t => Kept dependencies w t) w := by
  have hexecute : Comes Anyhow (executeGroup waveIdx group)
      (fun _ t => Gated dependencies t) w := by
    intro env _
    have ho : Gated dependencies (w.interfered env.others) :=
      h.grows rfl rfl (fun _ hf => hf) fun _ hx => hx
    have hhand : Gated dependencies
        (operate (w.interfered env.others) (.executeGroup waveIdx group) env).1 := by
      constructor
      · intro j hj
        have hold := ho.sensible j hj
        exact ⟨hold.declared, hold.found, hold.runnable, hold.kept⟩
      · intro x hx
        cases mem_append.1 hx with
        | inl hx =>
          obtain ⟨taskId, hin, rfl⟩ := mem_map.1 hx
          exact ht taskId hin
        | inr hx => exact ho.handed x hx
    by_cases hr : env.raises (.executeGroup waveIdx group) = true
    · simp only [exec, hr]
      exact hhand
    · simp only [exec, hr]
      exact hhand
  exact (Comes.onward hexecute Anyhow.spares hw).mono fun _ _ hout => ⟨hout.1, hout.2⟩

theorem comes_dispatchGatedWave_kept (run : WaveRun) (waveIdx : Nat)
    (gated : ParallelExecutionGroup) (h : Gated dependencies w) (hw : w.engine.Sound)
    (hthrough : ∀ x ∈ gated.taskIds, LetThrough w waveIdx x) :
    Comes Anyhow (dispatchGatedWave run waveIdx gated)
      (fun _ t => Kept dependencies w t) w := by
  refine (Ensures.and ((plain_persist gated).kept h hw)
    (comes_persist Anyhow.spares gated hw)).bind ?_ (fun _ _ ht => ht.1)
  intro assigned t ht
  obtain ⟨hkept, hp⟩ := ht
  obtain ⟨hids, -⟩ := hp assigned rfl
  have hassigned : ∀ x ∈ assigned.taskIds, LetThrough t waveIdx x := by
    rw [hids]
    exact fun x hx => (hthrough x hx).onward hkept.onward
  refine (comes_executeGroup_kept waveIdx assigned hkept.gated hkept.onward.sound
    hassigned).bind ?_ (fun _ _ hu => hkept.trans hu)
  intro result u hu
  have hplain : ∀ stop : Bool, Plain (do
      appendWave waveIdx gated.taskIds (some result)
      appendPhase ⟨.executeWave waveIdx, (classifyWave result).error⟩
      if (classifyWave result).failed && run.failFast then pure (true, classifyWave result)
      else if (classifyWave result).parkedTaskIds ≠ [] then pure (true, classifyWave result)
      else pure (false, classifyWave result) : Call (Bool × WaveVerdict)) := by
    intro _
    refine (plain_appendWave _ _ _).bind fun _ => (plain_appendPhase _).bind fun _ => ?_
    split
    · trivial
    · split <;> trivial
  exact ((hplain true).kept hu.gated hu.onward.sound).mono fun _ _ hv => (hkept.trans hu).trans hv

theorem comes_prepareAndDispatch_kept (run : WaveRun) (waveIdx : Nat)
    (gated : ParallelExecutionGroup) (h : Gated dependencies w) (hw : w.engine.Sound)
    (hthrough : ∀ x ∈ gated.taskIds, LetThrough w waveIdx x) :
    Comes Anyhow (prepareAndDispatch run waveIdx gated)
      (fun _ t => Kept dependencies w t) w := by
  have hpre : Comes Anyhow (prepare waveIdx gated) (fun out _ => ∀ prepared,
      out = .ok (some prepared) → ∀ x ∈ prepared.taskIds, x ∈ gated.taskIds) w := by
    intro env _
    by_cases hr : env.raises (.prepare waveIdx gated) = true
    · simp only [exec, hr]
      intro prepared hp
      cases hp
    · simp only [exec, hr]
      intro prepared hp x hx
      cases hprepare : env.prepared with
      | declined =>
        rw [hprepare] at hp
        cases hp
      | rebuilt leftOut =>
        rw [hprepare] at hp
        cases hp
        obtain ⟨a, ha, rfl⟩ := mem_map.1 hx
        exact mem_map_of_mem (mem_of_mem_filter ha)
  have hplain : Plain (prepare waveIdx gated) := plain_perform trivial
  refine (Ensures.and (hplain.kept h hw) hpre).bind ?_ (fun _ _ ht => ht.1)
  intro prepared t ht
  obtain ⟨hkept, hsome⟩ := ht
  cases prepared with
  | none =>
    have hstr : Plain (do
        let _ ← abandonStranded gated
        pure (run.failFast, ⟨some .didNotFinish, []⟩) : Call (Bool × WaveVerdict)) :=
      (plain_parkAll _ _).bind fun _ => trivial
    exact (hstr.kept hkept.gated hkept.onward.sound).mono fun _ _ hu => hkept.trans hu
  | some prepared =>
    refine (comes_dispatchGatedWave_kept run waveIdx prepared hkept.gated hkept.onward.sound
      ?_).mono fun _ _ hu => hkept.trans hu
    intro x hx
    exact (hthrough x (hsome prepared rfl x hx)).onward hkept.onward

-- ==== the loop

/-- WAVE LEMMA: a wave, however it goes. -/
theorem comes_runOneWave_kept (run : WaveRun) (waveIdx : Nat) (group : ParallelExecutionGroup)
    (h : Gated run.dependencies w) (hw : w.engine.Sound) :
    Comes Anyhow (runOneWave run waveIdx group)
      (fun _ t => Kept run.dependencies w t) w := by
  refine (comes_gateWave_kept waveIdx group h hw).bind ?_ (fun _ _ ht => ht.1)
  intro outcome t ht
  obtain ⟨hkept, hg⟩ := ht
  have hsnd := hkept.onward.sound
  cases hgroup : outcome.group with
  | none =>
    dsimp only
    split
    · exact hkept
    · exact hkept
  | some gated =>
    have hthrough := hg outcome rfl gated hgroup
    dsimp only
    split
    · refine (comes_dispatchGatedWave_kept run waveIdx gated hkept.gated hsnd
        hthrough).bind ?_ (fun _ _ hu => hkept.trans hu)
      intro r u hu
      exact hkept.trans hu
    · have hd : Comes Anyhow (prepareAndDispatch run waveIdx gated).attempt
          (fun _ u => Kept run.dependencies t u) t :=
        Ensures.attempt (comes_prepareAndDispatch_kept run waveIdx gated hkept.gated hsnd
          hthrough)
      refine hd.bind ?_ (fun _ _ hu => hkept.trans hu)
      intro dispatched u hu
      have hs : ∀ verdict, Comes Anyhow (settleWave waveIdx verdict)
          (fun _ v => Kept run.dependencies w v) u := by
        intro verdict
        exact ((plain_settleWave waveIdx verdict).kept hu.gated hu.onward.sound).mono
          fun _ _ hv => (hkept.trans hu).trans hv
      cases dispatched with
      | error e | ok r => exact (hs _).bind (fun _ _ hv => hv) fun _ _ hv => hv

/-- RUN LEMMA: the waves that are left. -/
theorem comes_wavesFrom_kept (run : WaveRun) (groups : List ParallelExecutionGroup) (waveIdx : Nat)
    (rest : List ParallelExecutionGroup) (h : Gated run.dependencies w) (hw : w.engine.Sound) :
    Comes Anyhow (wavesFrom run groups waveIdx rest)
      (fun _ t => Kept run.dependencies w t) w := by
  induction rest generalizing waveIdx w with
  | nil => exact ⟨h, Onward.refl hw⟩
  | cons group rest ih =>
    have hone : Comes Anyhow (runOneWave run waveIdx group).attempt
        (fun _ t => Kept run.dependencies w t) w :=
      Ensures.attempt (comes_runOneWave_kept run waveIdx group h hw)
    refine hone.bind ?_ (fun _ _ ht => ht)
    intro outcome t ht
    have hstop : ∀ u, Kept run.dependencies t u → Comes Anyhow (abandonAfter groups waveIdx)
        (fun _ v => Kept run.dependencies w v) u := by
      intro u hu
      exact ((plain_abandonAfter groups waveIdx).kept hu.gated hu.onward.sound).mono
        fun _ _ hv => (ht.trans hu).trans hv
    have hnext : ∀ u, Kept run.dependencies t u →
        Comes Anyhow (wavesFrom run groups (waveIdx + 1) rest)
          (fun _ v => Kept run.dependencies w v) u := by
      intro u hu
      exact (ih (waveIdx + 1) hu.gated hu.onward.sound).mono fun _ _ hv => (ht.trans hu).trans hv
    cases outcome with
    | error e =>
      refine ((plain_recordWaveError waveIdx group e).kept ht.gated ht.onward.sound).bind ?_
        (fun _ _ hu => ht.trans hu)
      intro _ u hu
      have hstr : Plain (abandonStranded group) := plain_parkAll _ _
      refine (hstr.kept hu.gated hu.onward.sound).bind ?_ (fun _ _ hv => (ht.trans hu).trans hv)
      intro _ v hv
      split
      · exact hstop v (hu.trans hv)
      · exact hnext v (hu.trans hv)
    | ok stop =>
      have hhere : Kept run.dependencies t t := ⟨ht.gated, Onward.refl ht.onward.sound⟩
      dsimp only
      split
      · exact hstop t hhere
      · exact hnext t hhere

theorem comes_executeWaves_kept (run : WaveRun) (groups : List ParallelExecutionGroup)
    (h : Gated run.dependencies w) (hw : w.engine.Sound) :
    Comes Anyhow (executeWaves run groups) (fun _ t => Kept run.dependencies w t) w := by
  have hunroutable : Plain (parkUnreachable groups run.dependencies.keys) :=
    (plain_parkAll _ _).bind fun _ => trivial
  refine (hunroutable.kept h hw).bind ?_ (fun _ _ ht => ht)
  intro _ t ht
  exact (comes_wavesFrom_kept run groups 0 groups ht.gated ht.onward.sound).mono
    fun _ _ hu => ht.trans hu

-- ==== what is promised

def Stood (d : String × DependencyState) : Prop :=
  ∃ status, d.2.status = some status ∧ status ∉ nonDeliveringStatuses

instance (d : String × DependencyState) : Decidable (Stood d) :=
  match h : d.2.status with
  | none => .isFalse (by simp [Stood, h])
  | some status =>
    decidable_of_iff (status ∉ nonDeliveringStatuses) (by simp [Stood, h])

def LetThroughBy (dependencies : DependencyMap) (w : World) (waveIdx : Nat) (taskId : String)
    (j : Judgement) : Prop :=
  j.waveIdx = waveIdx ∧ j.taskId = taskId ∧ j.states.map Prod.fst = dependencies.get taskId ∧
    (∀ d ∈ j.states, (d.1, d.2.status) ∈ w.found) ∧
    ((∀ d ∈ j.states, Stood d) ∨
      (j.verdict = .kept ∧ taskId ∈ w.refused ∧ ∃ d ∈ j.states, d.2.dead = true))

/-- RUN LEMMA: nothing is handed over but what the gate of its wave let through. -/
theorem executeWaves_gated (run : WaveRun) (groups : List ParallelExecutionGroup)
    (engine : EngineState) (hengine : engine.Sound) (envs : Nat → Environment) :
    let w := ((executeWaves run groups).run exec (World.start engine) envs).2
    ∀ h ∈ w.handed, ∃ j ∈ w.judged, LetThroughBy run.dependencies w h.1 h.2 j := by
  intro w h hh
  have hgated : Gated run.dependencies w :=
    ((comes_executeWaves_kept run groups (w := World.start engine) (Gated.start engine)
      hengine).run fun _ => trivial).gated
  obtain ⟨j, hj, hwave, htask, hverdict⟩ := hgated.handed h hh
  have hsensible := hgated.sensible j hj
  refine ⟨j, hj, hwave, htask, htask ▸ hsensible.declared, hsensible.found, ?_⟩
  cases hverdict with
  | inl hrunnable => exact Or.inl (hsensible.runnable hrunnable)
  | inr hkept =>
    obtain ⟨href, hdead⟩ := hsensible.kept hkept
    exact Or.inr ⟨hkept, htask ▸ href, hdead⟩

-- ==== a chain of three

def chainRouting : RoutingResult where
  decisions := [⟨DecompositionResult.outlineId.text, "ada"⟩,
    ⟨DecompositionResult.draftId.text, "ada"⟩, ⟨DecompositionResult.reviewId.text, "ada"⟩]
  distinct := by unfold Keyed.Distinct; decide

def chainGroup (level : Nat) (id : Uuid) : ParallelExecutionGroup where
  groupId := "wave-" ++ toString level
  assignments := [⟨"ada", { DecompositionResult.sampleFields id with
    status := .assigned, assignedTo := some "ada" }, []⟩]
  maxConcurrency := none
  failFast := false
  dagLevel := level

def chainGroups : List ParallelExecutionGroup :=
  [chainGroup 0 DecompositionResult.outlineId, chainGroup 1 DecompositionResult.draftId,
    chainGroup 2 DecompositionResult.reviewId]

def chainRun : WaveRun :=
  ⟨false, dependencyMap DecompositionResult.sampleTree.dispatchSubtasks, false⟩

/-- The outline waits for a person; the draft and the review are CREATED. -/
def awaitedEngine : EngineState :=
  storing [{ DecompositionResult.sampleFields DecompositionResult.outlineId with
      status := .blocked, blockedReason := some .oracleEscalated },
    DecompositionResult.sampleFields DecompositionResult.draftId,
    DecompositionResult.sampleFields DecompositionResult.reviewId]

/-- The outline failed; the draft was interrupted, and INTERRUPTED has no hop
to BLOCKED. -/
def interruptedEngine : EngineState :=
  storing [{ DecompositionResult.sampleFields DecompositionResult.outlineId with
      status := .failed },
    { DecompositionResult.sampleFields DecompositionResult.draftId with status := .interrupted },
    DecompositionResult.sampleFields DecompositionResult.reviewId]

def chainOutcome (engine : EngineState) : World :=
  ((executeWaves chainRun chainGroups).run exec (World.start engine)
    fun _ => quiet (.rebuilt [])).2

theorem awaitedEngine_sound : awaitedEngine.Sound := storing_sound (by decide)

theorem interruptedEngine_sound : interruptedEngine.Sound := storing_sound (by decide)

/-- The review is handed over over a CREATED draft, and the interrupted draft over a failed
outline. -/
theorem executeWaves_dispatches_undelivered :
    (¬ ∀ (r : DecompositionResult) (routing : RoutingResult) (config : CoordinationConfig)
        (groups : List ParallelExecutionGroup) (run : WaveRun) (engine : EngineState)
        (envs : Nat → Environment), r.DispatchOrdered →
        buildExecutionWaves r routing [] config = .ok groups →
        run.dependencies = dependencyMap r.dispatchSubtasks → engine.Sound →
        let w := ((executeWaves run groups).run exec (World.start engine) envs).2
        ∀ h ∈ w.handed, ∀ j ∈ w.judged, j.waveIdx = h.1 → j.taskId = h.2 → ∀ d ∈ j.states,
          d.2.status = some .created →
          ∀ k ∈ w.judged, k.waveIdx < h.1 → k.taskId = d.1 → k.verdict ≠ .awaiting) ∧
    ¬ ∀ (r : DecompositionResult) (routing : RoutingResult) (config : CoordinationConfig)
        (groups : List ParallelExecutionGroup) (run : WaveRun) (engine : EngineState)
        (envs : Nat → Environment), r.DispatchOrdered →
        buildExecutionWaves r routing [] config = .ok groups →
        run.dependencies = dependencyMap r.dispatchSubtasks → engine.Sound →
        let w := ((executeWaves run groups).run exec (World.start engine) envs).2
        ∀ h ∈ w.handed, ∀ j ∈ w.judged, j.waveIdx = h.1 → j.taskId = h.2 →
          ∀ d ∈ j.states, Stood d := by
  have hordered := DecompositionResult.sampleTree_valid.dispatchOrdered
    DecompositionResult.sampleTree_acyclic (by decide)
  have hbuilt : buildExecutionWaves DecompositionResult.sampleTree chainRouting []
      ⟨none, false⟩ = .ok chainGroups := by decide +kernel
  constructor
  · intro h
    have hall := h _ chainRouting _ _ chainRun awaitedEngine (fun _ => quiet (.rebuilt []))
      hordered hbuilt rfl awaitedEngine_sound
    exact absurd hall (by decide +kernel)
  · intro h
    have hall := h _ chainRouting _ _ chainRun interruptedEngine (fun _ => quiet (.rebuilt []))
      hordered hbuilt rfl interruptedEngine_sound
    exact absurd hall (by decide +kernel)

/-- The chain over the failed outline: the draft is kept, its park refused, and
the review is let through behind it. -/
theorem executeWaves_gated_chain :
    (chainOutcome interruptedEngine).handed =
        [(2, DecompositionResult.reviewId.text), (1, DecompositionResult.draftId.text)] ∧
      (chainOutcome interruptedEngine).refused = [DecompositionResult.draftId.text] ∧
      ∀ h ∈ (chainOutcome interruptedEngine).handed,
        ∃ j ∈ (chainOutcome interruptedEngine).judged,
          LetThroughBy chainRun.dependencies (chainOutcome interruptedEngine) h.1 h.2 j :=
  ⟨by decide +kernel, by decide +kernel, executeWaves_gated chainRun chainGroups
    interruptedEngine interruptedEngine_sound fun _ => quiet (.rebuilt [])⟩

end Synthorg.Coordination
