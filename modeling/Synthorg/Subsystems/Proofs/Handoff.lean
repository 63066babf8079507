/-
No trigger is lost.

A deferred call's request lives in exactly one of three places: in the
queued follow-up, in the hands of the owner that has just taken the
follow-up and is about to run it, or in a pass that has started since. The
owner gives the claim back only over an empty queue, or because its pass
raised, and then the queue stays as it is for the next claim. `Inv` is that
sentence, and every step of every call keeps it.
-/
import Synthorg.Subsystems.PassGuard

namespace Synthorg.Subsystems.PassGuard

open Lib
open Function (update update_self update_of_ne)
open List

-- ==== the property

def Served (s : State) (d : Deferral) : Prop :=
  ∃ i retryDeclined, d.startsBefore ≤ i ∧ s.starts[i]? = some retryDeclined ∧
    (d.retryDeclined = true → retryDeclined = true)

def TakenUp (s : State) (d : Deferral) : Prop :=
  ∃ c lock retryDeclined, s.stages c = .claimed lock retryDeclined ∧
    (d.retryDeclined = true → retryDeclined = true)

/-- Queued behind the call that owned the claim, or after a pass of that call raised. -/
def Pending (s : State) (d : Deferral) : Prop :=
  (∃ retryDeclined, s.followUp = some retryDeclined ∧
    (d.retryDeclined = true → retryDeclined = true)) ∧
    (s.owner = some d.owner ∨ (s.stages d.owner).hasRaised = true)

def ClaimedSince (s : State) (j : Nat) (d : Deferral) (c : CallId) : Prop :=
  c = d.owner ∨ ∃ m, (c, m) ∈ s.claims ∧ j < m

/-- The owner of the claim can go on to a pass that carries the request, and none raises. -/
def InReach (s : State) (d : Deferral) : Prop :=
  ∃ c events, s.owner = some c ∧
    (∀ event ∈ events, event.call = c ∧ event ≠ .endPass c true) ∧
    Served (Run.final step s events) d

def LeftBehind (s : State) (d : Deferral) : Prop :=
  (s.stages d.owner).hasRaised = true ∧
    ∀ c, s.owner = some c → (s.stages c).hasRaised = true

/-- What `reconcile` promises in one state of a run. -/
structure NoneLost (s : State) : Prop where
  single : ∀ c c' lock lock', s.stages c = .inPass lock → s.stages c' = .inPass lock' → c = c'
  carried : ∀ d ∈ s.deferrals, Served s d ∨ TakenUp s d ∨ Pending s d
  answered : ∀ j d, s.deferrals[j]? = some d → ∀ c, ClaimedSince s j d c →
    s.stages c = .returned → Served s d
  reached : ∀ d ∈ s.deferrals, Served s d ∨ InReach s d ∨ LeftBehind s d

-- ==== the invariant

/-- THE INVARIANT. -/
structure Inv (s : State) : Prop where
  flag : s.passInFlight = s.owner.isSome
  owns : ∀ c, (s.stages c).owning = true ↔ s.owner = some c
  marks : ∀ c m, (c, m) ∈ s.claims → m ≤ s.deferrals.length
  started : ∀ d ∈ s.deferrals, d.startsBefore ≤ s.starts.length
  carried : ∀ d ∈ s.deferrals, Served s d ∨ TakenUp s d ∨ Pending s d
  answered : ∀ j d, s.deferrals[j]? = some d → ∀ c, ClaimedSince s j d c →
    s.stages c = .returned → Served s d

theorem inv_start : Inv start where
  flag := rfl
  owns c := by simp [start, Stage.owning]
  marks c m h := by simp [start] at h
  started d h := by simp [start] at h
  carried d h := by simp [start] at h
  answered j d h := by simp [start] at h

variable {s t : State} {c : CallId} {stage : Stage} {lock : LockId} {d : Deferral}
  {retryDeclined : Bool}

theorem Inv.owner_eq (h : Inv s) (hs : s.stages c = stage) (howning : stage.owning = true) :
    s.owner = some c := by
  rw [← h.owns, hs]
  exact howning

theorem Inv.all_served (h : Inv s) (hs : s.stages c = .passed lock)
    (hf : s.followUp = none) : ∀ d ∈ s.deferrals, Served s d := by
  intro d hd
  rcases h.carried d hd with hserved | ⟨c', lock', retryDeclined, hc, -⟩ | hp
  · exact hserved
  · have howner := h.owner_eq hs rfl
    have howner' := h.owner_eq hc rfl
    rw [howner, Option.some.injEq] at howner'
    simp [← howner', hs] at hc
  · obtain ⟨⟨retryDeclined, hsome, -⟩, -⟩ := hp
    simp [hf] at hsome

theorem stages_ne {c' : CallId} {stage' : Stage} (h : s.stages c = stage)
    (h' : s.stages c' = stage') (hne : stage ≠ stage') : c' ≠ c := by
  intro heq
  rw [heq, h] at h'
  exact hne h'

/-- A call that neither owns, claims nor has ended changes nothing of this. -/
theorem Inv.move (h : Inv s) (hold : (s.stages c).owning = false ∧ (s.stages c).hasRaised = false)
    (hnew : stage.owning = false ∧ stage ≠ .returned)
    (hs : t.stages = update s.stages c stage)
    (hflag : t.passInFlight = s.passInFlight) (howner : t.owner = s.owner)
    (hf : t.followUp = s.followUp) (hstarts : t.starts = s.starts)
    (hclaims : t.claims = s.claims) (hdef : t.deferrals = s.deferrals) : Inv t where
  flag := by rw [hflag, howner, h.flag]
  owns c' := by
    rw [hs, howner, ← h.owns]
    by_cases hc : c' = c
    · rw [hc, update_self, hnew.1, hold.1]
    · rw [update_of_ne hc]
  marks := by
    rw [hclaims, hdef]
    exact h.marks
  started := by
    rw [hdef, hstarts]
    exact h.started
  carried d hd := by
    rw [hdef] at hd
    rcases h.carried d hd with hserved | ⟨c', lock, retryDeclined, hclaimed, hr⟩ | hp
    · left
      rwa [Served, hstarts]
    · right
      left
      refine ⟨c', lock, retryDeclined, ?_, hr⟩
      have hne : c' ≠ c := by
        intro heq
        rw [← heq, hclaimed] at hold
        exact absurd hold.1 (by simp [Stage.owning])
      rw [hs, update_of_ne hne, hclaimed]
    · right
      right
      refine ⟨hf ▸ hp.1, ?_⟩
      rw [howner]
      refine hp.2.imp_right fun hraised => ?_
      have hne : d.owner ≠ c := by
        intro heq
        simp [heq, hold.2] at hraised
      rwa [hs, update_of_ne hne]
  answered j d hd c' hsince hret := by
    rw [hdef] at hd
    have hne : c' ≠ c := by
      intro heq
      rw [heq, hs, update_self] at hret
      exact hnew.2 hret
    rw [hs, update_of_ne hne] at hret
    rw [ClaimedSince, hclaims] at hsince
    rw [Served, hstarts]
    exact h.answered j d hd c' hsince hret

theorem Inv.advance (h : Inv s) (hold : (s.stages c).owning = true) (hnew : stage.owning = true)
    (hs : t.stages = update s.stages c stage)
    (hflag : t.passInFlight = s.passInFlight) (howner : t.owner = s.owner)
    (hclaims : t.claims = s.claims) (hdef : t.deferrals = s.deferrals)
    (hstarts : s.starts <+: t.starts)
    (hcarried : ∀ d ∈ s.deferrals, Served t d ∨ TakenUp t d ∨ Pending t d) : Inv t where
  flag := by rw [hflag, howner, h.flag]
  owns c' := by
    rw [hs, howner, ← h.owns]
    by_cases hc : c' = c
    · rw [hc, update_self, hnew, hold]
    · rw [update_of_ne hc]
  marks := by
    rw [hclaims, hdef]
    exact h.marks
  started d hd := by
    rw [hdef] at hd
    exact Nat.le_trans (h.started d hd) hstarts.length_le
  carried d hd := hcarried d (hdef ▸ hd)
  answered j d hd c' hsince hret := by
    rw [hdef] at hd
    have hne : c' ≠ c := by
      intro heq
      rw [heq, hs, update_self] at hret
      rw [hret] at hnew
      cases hnew
    rw [hs, update_of_ne hne] at hret
    rw [ClaimedSince, hclaims] at hsince
    obtain ⟨i, retryDeclined, hi, hget, hr⟩ := h.answered j d hd c' hsince hret
    obtain ⟨rest, hrest⟩ := hstarts
    refine ⟨i, retryDeclined, hi, ?_, hr⟩
    rw [← hrest]
    exact getElem?_append_left (List.getElem?_eq_some_iff.1 hget).1 ▸ hget

theorem Served.mono (h : Served s d) (hs : s.starts <+: t.starts) : Served t d := by
  obtain ⟨i, retryDeclined, hi, hget, hr⟩ := h
  obtain ⟨rest, hrest⟩ := hs
  refine ⟨i, retryDeclined, hi, ?_, hr⟩
  rw [← hrest]
  exact getElem?_append_left (List.getElem?_eq_some_iff.1 hget).1 ▸ hget

-- ==== the steps

structure Deferred (s t : State) (c : CallId) (d : Deferral) : Prop where
  stages : t.stages = update s.stages c .deferred
  flag : t.passInFlight = s.passInFlight
  owner : t.owner = s.owner
  followUp : t.followUp = some (d.retryDeclined || s.followUp.getD false)
  starts : t.starts = s.starts
  claims : t.claims = s.claims
  deferrals : t.deferrals = s.deferrals ++ [d]

theorem deferred_claimPass {owner : CallId} (hf : s.passInFlight = true)
    (howner : s.owner = some owner) :
    Deferred s (s.claimPass c lock retryDeclined) c
      { call := c, retryDeclined := retryDeclined, startsBefore := s.starts.length,
        owner := owner } := by
  rw [State.claimPass, if_pos hf]
  exact
    { stages := rfl
      flag := rfl
      owner := rfl
      followUp := rfl
      starts := rfl
      claims := rfl
      deferrals := by
        show s.deferrals ++ s.owner.toList.map _ = _
        rw [howner]
        rfl }

theorem Inv.defer (h : Inv s) (hstages : s.stages c = .entered lock retryDeclined)
    (hstarts : d.startsBefore = s.starts.length) (howner : s.owner = some d.owner)
    (ht : Deferred s t c d) : Inv t := by
  have hcall : s.owner ≠ some c := by
    intro heq
    have howning := (h.owns c).2 heq
    rw [hstages] at howning
    cases howning
  have hs : ∀ c', c' ≠ c → t.stages c' = s.stages c' := by
    intro c' hne
    rw [ht.stages, update_of_ne hne]
  have hself : t.stages c = .deferred := by
    rw [ht.stages, update_self]
  have hraised : ∀ c', (s.stages c').hasRaised = true → (t.stages c').hasRaised = true := by
    intro c' hc'
    by_cases heq : c' = c
    · rw [heq, hstages] at hc'
      cases hc'
    · rwa [hs c' heq]
  exact
    { flag := by rw [ht.flag, ht.owner, h.flag]
      owns := fun c' => by
        rw [ht.owner]
        by_cases heq : c' = c
        · rw [heq, hself]
          exact ⟨nofun, fun hsome => absurd hsome hcall⟩
        · rw [hs c' heq]
          exact h.owns c'
      marks := fun c' m hm => by
        have hle := h.marks c' m (ht.claims ▸ hm)
        rw [ht.deferrals, length_append]
        omega
      started := fun d' hd' => by
        rw [ht.starts]
        rw [ht.deferrals, mem_append, mem_singleton] at hd'
        rcases hd' with hd' | hd'
        · exact h.started d' hd'
        · rw [hd', hstarts]
      carried := fun d' hd' => by
        rw [ht.deferrals, mem_append, mem_singleton] at hd'
        rcases hd' with hd' | hd'
        · rcases h.carried d' hd' with hserved | ⟨c', lock', r, hc, hr⟩ |
            ⟨⟨r, hf, hr⟩, hwho⟩
          · left
            rwa [Served, ht.starts]
          · right
            left
            refine ⟨c', lock', r, ?_, hr⟩
            rw [hs c' (stages_ne hstages hc (by simp)), hc]
          · right
            right
            refine ⟨⟨_, ht.followUp, fun hd'' => ?_⟩, ?_⟩
            · rw [hf, Option.getD_some, hr hd'', Bool.or_true]
            · rw [ht.owner]
              exact hwho.imp_right (hraised _)
        · right
          right
          rw [hd']
          refine ⟨⟨_, ht.followUp, fun hd'' => ?_⟩, .inl (ht.owner.trans howner)⟩
          rw [hd'', Bool.true_or]
      answered := fun j d' hd' c' hsince hret => by
        have hne : c' ≠ c := by
          intro heq
          rw [heq, hself] at hret
          cases hret
        rw [hs c' hne] at hret
        rw [ClaimedSince, ht.claims] at hsince
        rw [Served, ht.starts]
        rw [ht.deferrals] at hd'
        by_cases hj : j < s.deferrals.length
        · rw [getElem?_append_left hj] at hd'
          exact h.answered j d' hd' c' hsince hret
        · -- the new deferral: its owner has not returned, and nobody has
          -- claimed after it
          exfalso
          rw [getElem?_append_right (by omega), List.getElem?_singleton] at hd'
          split at hd'
          next =>
            rcases hsince with heq | ⟨m, hm, hjm⟩
            · have howning := (h.owns d.owner).2 howner
              rw [Option.some.inj hd', ← heq, hret] at howning
              cases howning
            · have hle := h.marks c' m hm
              omega
          next => cases hd' }

theorem Inv.take (h : Inv s) (hs : s.stages c = .entered lock retryDeclined)
    (hf : ¬ s.passInFlight = true) : Inv (s.claimPass c lock retryDeclined) := by
  have hfree : s.owner = none := by
    rw [h.flag] at hf
    exact Option.not_isSome_iff_eq_none.1 hf
  rw [State.claimPass, if_neg hf]
  exact
    { flag := rfl
      owns := fun c' => by
        show (update s.stages c (.claimed lock retryDeclined) c').owning = true ↔ some c = some c'
        by_cases hc : c' = c
        · rw [hc]
          simp [Stage.owning]
        · rw [update_of_ne hc, h.owns c', hfree, Option.some.injEq]
          exact ⟨nofun, fun heq => absurd heq.symm hc⟩
      marks := fun c' m hm => by
        rcases mem_append.1 hm with hm | hm
        · exact h.marks c' m hm
        · obtain ⟨-, hlen⟩ := Prod.mk.injEq .. ▸ mem_singleton.1 hm
          exact Nat.le_of_eq hlen
      started := h.started
      carried := fun d hd => by
        rcases h.carried d hd with hserved | ⟨c', lock', r, hclaimed, -⟩ | hp
        · exact .inl hserved
        · have howner := h.owner_eq hclaimed rfl
          simp [hfree] at howner
        · right
          right
          obtain ⟨hfollow, hwho⟩ := hp
          refine ⟨hfollow, .inr ?_⟩
          rw [hfree] at hwho
          have hr := hwho.resolve_left (by simp)
          show (update s.stages c _ d.owner).hasRaised = true
          have hdone : d.owner ≠ c := by
            intro heq
            rw [heq, hs] at hr
            cases hr
          rwa [update_of_ne hdone]
      answered := fun j d hd c' hsince hret => by
        have hne : c' ≠ c := by
          intro heq
          rw [heq] at hret
          replace hret : update s.stages c (.claimed lock retryDeclined) c = .returned := hret
          rw [Function.update_self] at hret
          cases hret
        replace hret : update s.stages c (.claimed lock retryDeclined) c' = .returned := hret
        rw [update_of_ne hne] at hret
        refine h.answered j d hd c' (hsince.imp_right ?_) hret
        intro ⟨m, hm, hjm⟩
        rcases mem_append.1 hm with hm | hm
        · exact ⟨m, hm, hjm⟩
        · exact absurd (Prod.mk.inj (mem_singleton.1 hm)).1 hne }

theorem Inv.giveBack (h : Inv s) (howning : (s.stages c).owning = true)
    (hstage : stage.owning = false) (hs : t.stages = update s.stages c stage)
    (hflag : t.passInFlight = false) (howner : t.owner = none) (hf : t.followUp = s.followUp)
    (hstarts : t.starts = s.starts) (hclaims : t.claims = s.claims)
    (hdef : t.deferrals = s.deferrals) (hclaimed : ∀ lock r, s.stages c ≠ .claimed lock r)
    (hend : stage.hasRaised = true ∨ ∀ d ∈ s.deferrals, Served s d) : Inv t where
  flag := by
    rw [hflag, howner]
    rfl
  owns c' := by
    rw [howner, hs]
    by_cases hc : c' = c
    · rw [hc, update_self, hstage]
      simp
    · rw [update_of_ne hc, h.owns, (h.owns c).1 howning, Option.some.injEq]
      exact ⟨fun heq => absurd heq.symm hc, nofun⟩
  marks := by
    rw [hclaims, hdef]
    exact h.marks
  started := by
    rw [hdef, hstarts]
    exact h.started
  carried d hd := by
    rw [hdef] at hd
    rcases hend with hr | hserved
    · rcases h.carried d hd with hserved | ⟨c', lock, r, hc', -⟩ | ⟨hq, hwho⟩
      · left
        rwa [Served, hstarts]
      · have heq := h.owner_eq hc' rfl
        rw [(h.owns c).1 howning, Option.some.injEq] at heq
        exact absurd (heq ▸ hc') (hclaimed lock r)
      · right
        right
        refine ⟨hf ▸ hq, .inr ?_⟩
        rw [hs]
        by_cases hc : d.owner = c
        · rw [hc, update_self]
          exact hr
        · rw [update_of_ne hc]
          refine hwho.resolve_left fun heq => hc ?_
          rw [(h.owns c).1 howning, Option.some.injEq] at heq
          exact heq.symm
    · left
      rw [Served, hstarts]
      exact hserved d hd
  answered j d hd c' hsince hret := by
    rw [hdef] at hd
    rw [Served, hstarts]
    rcases hend with hr | hserved
    · have hne : c' ≠ c := by
        intro heq
        rw [heq, hs, update_self] at hret
        rw [hret] at hr
        cases hr
      rw [hs, update_of_ne hne] at hret
      rw [ClaimedSince, hclaims] at hsince
      exact h.answered j d hd c' hsince hret
    · exact hserved d (mem_of_getElem? hd)

/-- STEP LEMMA: every step of every call keeps the invariant. -/
theorem Inv.step (h : Inv s) (event : Event) : Inv (step s event) := by
  cases event with
  | enter c loop retryDeclined =>
    rw [PassGuard.step]
    split
    next hs =>
      have hlock : ∀ t, t = (s.lockForLoop loop).2 → t.stages = s.stages ∧
          t.passInFlight = s.passInFlight ∧ t.owner = s.owner ∧ t.followUp = s.followUp ∧
          t.starts = s.starts ∧ t.claims = s.claims ∧ t.deferrals = s.deferrals := by
        intro t ht
        rw [ht, State.lockForLoop]
        split
        next => split <;> exact ⟨rfl, rfl, rfl, rfl, rfl, rfl, rfl⟩
        next => exact ⟨rfl, rfl, rfl, rfl, rfl, rfl, rfl⟩
      obtain ⟨hstages, hflag, howner, hf, hstarts, hclaims, hdef⟩ := hlock _ rfl
      exact h.move (c := c) (by rw [hs]; exact ⟨rfl, rfl⟩) ⟨rfl, by simp⟩
        (congrArg (update · c _) hstages) hflag howner hf hstarts hclaims
        hdef
    next => exact h
  | acquire c =>
    rw [PassGuard.step]
    split
    next lock retryDeclined hs =>
      split
      next => exact h.move (c := c) (by rw [hs]; exact ⟨rfl, rfl⟩) ⟨rfl, by simp⟩ rfl rfl
                rfl rfl rfl rfl rfl
      next => exact h
    next => exact h
  | cancel c =>
    rw [PassGuard.step]
    split
    next lock retryDeclined hs =>
      exact h.move (c := c) (by rw [hs]; exact ⟨rfl, rfl⟩) ⟨rfl, by simp⟩ rfl rfl rfl rfl
        rfl rfl rfl
    next => exact h
  | claim c =>
    rw [PassGuard.step]
    split
    next lock retryDeclined hs =>
      by_cases hflight : s.passInFlight = true
      · obtain ⟨owner, howner⟩ : ∃ owner, s.owner = some owner := by
          rw [h.flag] at hflight
          exact Option.isSome_iff_exists.1 hflight
        exact h.defer hs rfl howner (deferred_claimPass hflight howner)
      · exact h.take hs hflight
    next => exact h
  | startPass c =>
    rw [PassGuard.step]
    split
    next lock retryDeclined hs =>
      refine h.advance (c := c) (by rw [hs]; rfl) rfl rfl rfl rfl rfl rfl (prefix_append _ _) ?_
      intro d hd
      rcases h.carried d hd with hserved | ⟨c', lock', r, hclaimed, hr⟩ | ⟨hq, hwho⟩
      · exact .inl (hserved.mono (prefix_append _ _))
      · -- the owner that took the request up starts its pass
        left
        have hc : c = c' := by
          have howner := h.owner_eq hclaimed rfl
          rw [h.owner_eq hs rfl, Option.some.injEq] at howner
          exact howner
        rw [← hc, hs, Stage.claimed.injEq] at hclaimed
        refine ⟨s.starts.length, retryDeclined, h.started d hd, ?_, hclaimed.2 ▸ hr⟩
        exact getElem?_concat_length
      · right
        right
        refine ⟨hq, hwho.imp_right fun hraises => ?_⟩
        show (update s.stages c _ d.owner).hasRaised = true
        have hdone : d.owner ≠ c := by
          intro heq
          rw [heq, hs] at hraises
          cases hraises
        rwa [update_of_ne hdone]
    next => exact h
  | endPass c raises =>
    rw [PassGuard.step]
    split
    next lock hs =>
      refine h.advance (c := c) (by rw [hs]; rfl) (by cases raises <;> rfl) rfl rfl rfl
        rfl rfl (prefix_refl _) ?_
      intro d hd
      rcases h.carried d hd with hserved | ⟨c', lock', r, hclaimed, hr⟩ | ⟨hq, hwho⟩
      · exact .inl hserved
      · right
        left
        refine ⟨c', lock', r, ?_, hr⟩
        show update s.stages c _ c' = _
        rw [update_of_ne (stages_ne hs hclaimed (by simp)), hclaimed]
      · right
        right
        refine ⟨hq, hwho.imp_right fun hraises => ?_⟩
        show (update s.stages c _ d.owner).hasRaised = true
        have hdone : d.owner ≠ c := by
          intro heq
          rw [heq, hs] at hraises
          cases hraises
        rwa [update_of_ne hdone]
    next => exact h
  | continueOrRelease c =>
    rw [PassGuard.step]
    split
    next lock hs =>
      rw [State.continueOrRelease]
      split
      next hnone =>
        exact h.giveBack (c := c) (by rw [hs]; rfl) rfl rfl rfl rfl
          rfl rfl rfl rfl (by simp [hs]) (.inr (h.all_served hs hnone))
      next requested hsome =>
        refine h.advance (c := c) (by rw [hs]; rfl) rfl rfl rfl rfl rfl rfl (prefix_refl _) ?_
        intro d hd
        rcases h.carried d hd with hserved | ⟨c', lock', r, hclaimed, hr⟩ | ⟨⟨r, hf, hr⟩, -⟩
        · exact .inl hserved
        · right
          left
          refine ⟨c', lock', r, ?_, hr⟩
          show update s.stages c _ c' = _
          rw [update_of_ne (stages_ne hs hclaimed (by simp)), hclaimed]
        · -- what was queued is what the owner takes up
          right
          left
          rw [hsome, Option.some.injEq] at hf
          refine ⟨c, lock, requested, ?_, hf ▸ hr⟩
          exact update_self _ _ _
    next => exact h
  | release c =>
    rw [PassGuard.step]
    split
    next lock hs =>
      exact h.giveBack (c := c) (by rw [hs]; rfl) rfl rfl rfl rfl
        rfl rfl rfl rfl (by simp [hs]) (.inl rfl)
    next => exact h

/-- RUN LEMMA. -/
theorem inv_run (events : List Event) : Inv (run events) :=
  Run.kept (P := Inv) (fun _ event h => h.step event) inv_start events

-- ==== the progress

theorem Inv.reach_of_takenUp (h : Inv s) (hd : d ∈ s.deferrals)
    (hs : s.stages c = .claimed lock retryDeclined)
    (hr : d.retryDeclined = true → retryDeclined = true) : InReach s d := by
  refine ⟨c, [.startPass c], h.owner_eq hs rfl, by simp [Event.call], ?_⟩
  have hstep : (PassGuard.step s (.startPass c)).starts = s.starts ++ [retryDeclined] := by
    simp only [PassGuard.step, hs]
    rfl
  refine ⟨s.starts.length, retryDeclined, h.started d hd, ?_, hr⟩
  rw [Run.final_cons, Run.final_nil, hstep]
  exact getElem?_concat_length

theorem InReach.of_step (event : Event) (howner : s.owner = some event.call)
    (hsame : (step s event).owner = s.owner) (hevent : event ≠ .endPass event.call true)
    (h : InReach (step s event) d) : InReach s d := by
  obtain ⟨c, events, hc, heven, hs⟩ := h
  rw [hsame, howner, Option.some.injEq] at hc
  refine ⟨c, event :: events, hc ▸ howner, ?_, hs⟩
  intro e he
  rcases mem_cons.1 he with heq | he
  · rw [heq, ← hc]
    exact ⟨rfl, hevent⟩
  · exact heven e he

theorem Inv.reach_of_queued (h : Inv s) (hd : d ∈ s.deferrals) {r : Bool}
    (hf : s.followUp = some r) (hretry : d.retryDeclined = true → r = true)
    (howner : s.owner = some c) (hr : (s.stages c).hasRaised = false) : InReach s d := by
  -- from the end of its pass the owner takes the queue up
  have hpass : ∀ t : State, Inv t → d ∈ t.deferrals → t.followUp = some r →
      ∀ lock, t.stages c = .passed lock → InReach t d := by
    intro t ht hdt hf lock hs
    have hstep : PassGuard.step t (.continueOrRelease c) =
        State.setStage { t with followUp := none } c (.claimed lock r) := by
      simp only [PassGuard.step, hs, State.continueOrRelease, hf]
    refine InReach.of_step (.continueOrRelease c) (ht.owner_eq hs rfl)
      (by rw [hstep]; rfl) (by simp) ?_
    have hc : (PassGuard.step t (.continueOrRelease c)).stages c = .claimed lock r := by
      rw [hstep]
      exact update_self _ _ _
    exact (ht.step (.continueOrRelease c)).reach_of_takenUp (by rw [hstep]; exact hdt) hc hretry
  have hi : ∀ t : State, Inv t → d ∈ t.deferrals → t.followUp = some r →
      ∀ lock, t.stages c = .inPass lock → InReach t d := by
    intro t ht hdt hf lock hs
    have hstep : PassGuard.step t (.endPass c false) = t.setStage c (.passed lock) := by
      simp only [PassGuard.step, hs]
      rfl
    refine InReach.of_step (.endPass c false) (ht.owner_eq hs rfl)
      (by rw [hstep]; rfl) (by simp) ?_
    refine hpass _ (ht.step _) (by rw [hstep]; exact hdt) (by rw [hstep]; exact hf) lock ?_
    rw [hstep]
    exact update_self _ _ _
  have howning := (h.owns c).2 howner
  cases hs : s.stages c with
  | claimed lock retryDeclined =>
    have hstep : PassGuard.step s (.startPass c) =
        State.setStage { s with starts := s.starts ++ [retryDeclined] } c (.inPass lock) := by
      simp only [PassGuard.step, hs]
    refine InReach.of_step (.startPass c) howner (by rw [hstep]; rfl) (by simp) ?_
    refine hi _ (h.step _) (by rw [hstep]; exact hd) (by rw [hstep]; exact hf) lock ?_
    rw [hstep]
    exact update_self _ _ _
  | inPass lock => exact hi s h hd hf lock hs
  | passed lock => exact hpass s h hd hf lock hs
  | failed lock =>
    rw [hs] at hr
    cases hr
  | _ =>
    rw [hs] at howning
    cases howning

theorem Inv.reached (h : Inv s) (hd : d ∈ s.deferrals) :
    Served s d ∨ InReach s d ∨ LeftBehind s d := by
  rcases h.carried d hd with hs | ⟨c, lock, r, hclaimed, hr⟩ | ⟨⟨r, hf, hr⟩, hwho⟩
  · exact .inl hs
  · exact .inr (.inl (h.reach_of_takenUp hd hclaimed hr))
  · right
    cases howner : s.owner with
    | none =>
      rw [howner] at hwho
      refine .inr ⟨hwho.resolve_left (by simp), fun c hc => ?_⟩
      simp [howner] at hc
    | some c =>
      cases hraised : (s.stages c).hasRaised with
      | false => exact .inl (h.reach_of_queued hd hf hr howner hraised)
      | true =>
        have hall : ∀ c', s.owner = some c' → (s.stages c').hasRaised = true := by
          intro c' hc'
          rw [howner, Option.some.injEq] at hc'
          rw [← hc', hraised]
        exact .inr ⟨hwho.elim (hall d.owner) id, hall⟩

/-- NO TRIGGER IS LOST: in every state of every run at most one call is inside a pass; a
deferred request has been carried by a pass started since, is taken up, or is queued behind its
owner or after that owner's pass raised; an owner, then or since, returns only once the request
has been carried; and whoever owns the claim is on the way to the pass that carries it, unless
its own pass raised. -/
theorem none_lost (events : List Event) : NoneLost (run events) := by
  have h := inv_run events
  exact
    { single := fun c c' lock lock' hc hc' => by
        have howner := h.owner_eq hc rfl
        rw [h.owner_eq hc' rfl, Option.some.injEq] at howner
        exact howner.symm
      carried := h.carried
      answered := h.answered
      reached := fun d hd => h.reached hd }

end Synthorg.Subsystems.PassGuard
