/-
A sandbox container in use is not torn down, as long as an acquire returns a
handle that nothing a release started can still reach.

What the strategies do to one owner comes to a few operations on its entries (`Key`), each of
which keeps the invariant. What a step needs of the state is that whatever can still call
`destroy_fn` for a release has returned nothing since that release began (`Key.Inv.pending`).
-/
import Synthorg.Lib.Run
import Synthorg.Sandbox.Strategies

namespace Synthorg.Sandbox

open Lib
open List

-- ==== what the record says

/-- Of the calls of `destroy_fn` on the handle the latest, if any, has failed. -/
def Free (handle : Nat) : List Event → Prop
  | [] => True
  | .destroyed other _ :: older => other ≠ handle ∧ Free handle older
  | .failed other :: older => other = handle ∨ Free handle older
  | _ :: older => Free handle older

structure Key.Safe (k : Key) : Prop where
  /-- A release that began earlier does not destroy the handle, unless it was found dead. -/
  inUse : ∀ n r h, [.returned n h, .began r].Sublist k.log →
    .destroyed h (.release r) ∈ k.log → .foundDead h ∈ k.log
  /-- A release of an old generation starts no teardown of a key acquired since. -/
  current : ∀ r g n h m,
    ¬ [.teardown r (some g), .taken n h m, .tracked g].Sublist k.log
  once : ∀ h cause older, (.destroyed h cause :: older) <:+ k.log → Free h older
  kept : ∀ h < k.made, k.container = some h ∨ ∃ cause, .destroyed h cause ∈ k.log

/-- What an event needs of the record before it. -/
def Fits (older : List Event) : Event → Prop
  | .destroyed h cause => Free h older ∧ ∀ r, cause = .release r → ∀ n,
      [.returned n h, .began r].Sublist older → .foundDead h ∈ older
  | .returned _ h => ∀ r, .began r ∈ older → .destroyed h (.release r) ∈ older →
      .foundDead h ∈ older
  | .teardown _ expected => ∀ g, expected = some g → ∀ n h m,
      ¬ [.taken n h m, .tracked g].Sublist older
  | _ => True

def Fitting : List Event → Prop
  | [] => True
  | event :: older => Fits older event ∧ Fitting older

variable {log : List Event} {h : Nat}

theorem Fitting.inUse (hlog : Fitting log) {n r : Nat}
    (hpair : [.returned n h, .began r].Sublist log) (hcall : .destroyed h (.release r) ∈ log) :
    .foundDead h ∈ log := by
  induction log with
  | nil => cases hcall
  | cons event older ih =>
    apply mem_cons_of_mem
    rcases cons_sublist_cons'.1 hpair with hold | ⟨rfl, hb⟩
    · rcases mem_cons.1 hcall with rfl | hcall
      · exact hlog.1.2 r rfl n hold
      · exact ih hlog.2 hold hcall
    · rcases mem_cons.1 hcall with heq | hcall
      · cases heq
      · exact hlog.1 r (singleton_sublist.1 hb) hcall

theorem Fitting.current (hlog : Fitting log) {r g n m : Nat} :
    ¬ [.teardown r (some g), .taken n h m, .tracked g].Sublist log := by
  induction log with
  | nil => exact nofun
  | cons event older ih =>
    intro hsub
    rcases cons_sublist_cons'.1 hsub with hold | ⟨rfl, hpair⟩
    · exact ih hlog.2 hold
    · exact hlog.1 g rfl n h m hpair

theorem Fitting.once (hlog : Fitting log) {cause : Cause} {older : List Event}
    (hs : (.destroyed h cause :: older) <:+ log) : Free h older := by
  induction log with
  | nil => exact absurd (suffix_nil.1 hs) (cons_ne_nil _ _)
  | cons event rest ih =>
    rcases suffix_cons_iff.1 hs with heq | hold
    · obtain ⟨rfl, rfl⟩ := cons.inj heq
      exact hlog.1.1
    · exact ih hlog.2 hold

theorem Free.of_not_destroyed (hnone : ∀ cause, .destroyed h cause ∉ log) : Free h log := by
  induction log with
  | nil => trivial
  | cons event older ih =>
    have hfree := ih fun cause hmem => hnone cause (mem_cons_of_mem _ hmem)
    cases event with
    | destroyed other cause => exact ⟨fun heq => hnone cause (heq ▸ mem_cons_self), hfree⟩
    | failed other => exact .inr hfree
    | _ => exact hfree

-- ==== the entries

/-- THE INVARIANT of an owner; `reaches` are the releases that can still destroy. -/
structure Key.Inv (next : Nat) (reaches : Nat → Prop) (k : Key) : Prop where
  fitting : Fitting k.log
  drawn : ∀ h cause, .destroyed h cause ∈ k.log → h < k.made
  cached : ∀ h, k.container = some h → h < k.made ∧ Free h k.log
  kept : ∀ h < k.made, k.container = some h ∨ ∃ cause, .destroyed h cause ∈ k.log
  begun : ∀ r, .began r ∈ k.log → r < k.releases
  numbered : ∀ g, .tracked g ∈ k.log ∨ k.generation = some g → g < next
  latest : ∀ n h m, .taken n h m ∈ k.log → m < next ∧ ∀ g, k.generation = some g → m ≤ g
  later : ∀ g n h m, [.taken n h m, .tracked g].Sublist k.log → g < m
  pending : ∀ n r h, [.returned n h, .began r].Sublist k.log → reaches r → .foundDead h ∈ k.log

def Key.Undisturbed (reaches : Nat → Prop) (k : Key) (h : Nat) : Prop :=
  .foundDead h ∈ k.log ∨ ∀ r, ¬ reaches r ∧ .destroyed h (.release r) ∉ k.log

@[simp]
theorem Key.tracked_container (k : Key) : k.tracked.container = k.container := by
  unfold Key.tracked
  split <;> rfl

theorem Key.mem_tracked {k : Key} {event : Event} (hmem : event ∈ k.log) :
    event ∈ k.tracked.log := by
  unfold Key.tracked
  split
  · exact mem_cons_of_mem _ hmem
  · exact hmem

namespace Key.Inv

variable {next next' : Nat} {reaches reaches' : Nat → Prop} {k : Key}

theorem safe (h : k.Inv next reaches) : k.Safe where
  inUse := fun _ _ _ => h.fitting.inUse
  current := fun _ _ _ _ _ => h.fitting.current
  once := fun _ _ _ => h.fitting.once
  kept := h.kept

theorem new : Key.Inv next (fun _ => False) {} where
  fitting := trivial
  drawn := nofun
  cached := nofun
  kept := nofun
  begun := nofun
  numbered := by simp
  latest := nofun
  later := nofun
  pending := fun _ _ _ _ => nofun

theorem mono (h : k.Inv next reaches) (hnext : next ≤ next')
    (hreaches : ∀ r, reaches' r → reaches r) : k.Inv next' reaches' :=
  { h with
    numbered := fun g hg => (h.numbered g hg).trans_le hnext
    latest := fun n x m hm => (h.latest n x m hm).imp_left fun hlt => hlt.trans_le hnext
    pending := fun n r x hpair hr => h.pending n r x hpair (hreaches r hr) }

/-- An event that takes nothing, and is no call of `destroy_fn`. -/
def Quiet : Event → Prop
  | .taken _ _ _ | .destroyed _ _ => False
  | _ => True

/-- STEP LEMMA of the quiet events. -/
theorem note {event : Event} (h : k.Inv next reaches) (hqt : Quiet event)
    (hfits : Fits k.log event) (hb : ∀ r, event = .began r → r < k.releases)
    (htracked : ∀ g, event = .tracked g → g < next)
    (hret : ∀ n x, event = .returned n x → ∀ r, reaches r → .began r ∈ k.log →
      .foundDead x ∈ k.log) : (k.note event).Inv next reaches := by
  have hd : ∀ {x cause}, .destroyed x cause ∈ event :: k.log →
      .destroyed x cause ∈ k.log := fun hmem =>
    (mem_cons.1 hmem).resolve_left (by rintro rfl; exact hqt)
  have ht : ∀ {n x m}, .taken n x m ∈ event :: k.log → .taken n x m ∈ k.log := fun hmem =>
    (mem_cons.1 hmem).resolve_left (by rintro rfl; exact hqt)
  have hfree : ∀ x, Free x k.log → Free x (event :: k.log) := by
    intro x hx
    cases event <;> first | exact hx | exact .inr hx | cases hqt
  exact {
    fitting := ⟨hfits, h.fitting⟩
    drawn := fun x cause hmem => h.drawn x cause (hd hmem)
    cached := fun x hx => (h.cached x hx).imp_right (hfree x)
    kept := fun x hx => (h.kept x hx).imp_right fun ⟨cause, hmem⟩ =>
      ⟨cause, mem_cons_of_mem _ hmem⟩
    begun := fun r hmem => (mem_cons.1 hmem).elim (fun heq => hb r heq.symm) (h.begun r)
    numbered := fun g hg => by
      rcases hg with hmem | hg
      · exact (mem_cons.1 hmem).elim (fun heq => htracked g heq.symm) fun hold =>
          h.numbered g (.inl hold)
      · exact h.numbered g (.inr hg)
    latest := fun n x m hmem => h.latest n x m (ht hmem)
    later := fun g n x m hsub => by
      rcases cons_sublist_cons'.1 hsub with hold | ⟨rfl, -⟩
      · exact h.later g n x m hold
      · cases hqt
    pending := fun n r x hsub hr => by
      refine mem_cons_of_mem _ ?_
      rcases cons_sublist_cons'.1 hsub with hold | ⟨heq, hb⟩
      · exact h.pending n r x hold hr
      · exact hret n x heq.symm r hr (singleton_sublist.1 hb) }

theorem begin (h : k.Inv next reaches) :
    k.begin.Inv next (fun r => reaches r ∨ r = k.releases) := by
  have hg : Key.Inv next (fun r => reaches r ∨ r = k.releases)
      { k with releases := k.releases + 1 } :=
    { h with
      begun := fun r hmem => (h.begun r hmem).trans (Nat.lt_succ_self _)
      pending := fun n r x hsub hr => by
        rcases hr with hr | rfl
        · exact h.pending n r x hsub hr
        · exact absurd (h.begun _ (hsub.subset (by simp))) (lt_irrefl _) }
  refine hg.note trivial trivial (fun r heq => ?_) (fun _ => nofun) fun _ _ => nofun
  cases heq
  exact Nat.lt_succ_self _

theorem teardown (r : Nat) {expected : Option Nat} (h : k.Inv next reaches)
    (hc : ∀ g, expected = some g → ∀ n x m, .taken n x m ∈ k.log → m ≤ g) :
    (k.note (.teardown r expected)).Inv next reaches := by
  refine h.note trivial (fun g hg n x m hsub => ?_) (fun _ => nofun) (fun _ => nofun)
    fun _ _ => nofun
  have hl := h.later g n x m hsub
  have hle := hc g hg n x m (hsub.subset (by simp))
  omega

theorem not_reacquired {expected : Option Nat} (h : k.Inv next reaches)
    (hkept : k.reacquired expected = false) :
    ∀ g, expected = some g → ∀ n x m, .taken n x m ∈ k.log → m ≤ g := by
  rintro g rfl n x m hmem
  exact (h.latest n x m hmem).2 g (by simpa [Key.reacquired] using hkept)

theorem tracked (h : k.Inv next reaches) : k.tracked.Inv next reaches := by
  unfold Key.tracked
  split
  next generation _ hg =>
    refine h.note trivial trivial (fun _ => nofun) (fun g' heq => ?_) fun _ _ => nofun
    cases heq
    exact h.numbered _ (.inr hg)
  · exact h

variable {x n : Nat}

theorem foundDead (h : k.Inv next reaches) : (k.note (.foundDead x)).Inv next reaches :=
  h.note trivial trivial (fun _ => nofun) (fun _ => nofun) fun _ _ => nofun

theorem returned (h : k.Inv next reaches) (hu : k.Undisturbed reaches x) :
    (k.note (.returned n x)).Inv next reaches := by
  refine h.note trivial (fun r _ hcall => ?_) (fun _ => nofun) (fun _ => nofun) ?_
  · exact hu.resolve_right fun hnone => (hnone r).2 hcall
  · intro n' x' heq r hr _
    cases heq
    exact hu.resolve_right fun hnone => (hnone r).1 hr

theorem take (h : k.Inv next reaches) : (k.take n x next).Inv (next + 1) reaches := by
  exact {
    fitting := ⟨trivial, h.fitting⟩
    drawn := fun y cause hmem => h.drawn y cause ((mem_cons.1 hmem).resolve_left nofun)
    cached := h.cached
    kept := fun y hy => (h.kept y hy).imp_right fun ⟨cause, hmem⟩ =>
      ⟨cause, mem_cons_of_mem _ hmem⟩
    begun := fun r hmem => h.begun r ((mem_cons.1 hmem).resolve_left nofun)
    numbered := fun g hg => by
      rcases hg with hmem | hg
      · exact (h.numbered g (.inl ((mem_cons.1 hmem).resolve_left nofun))).trans
          (Nat.lt_succ_self _)
      · cases hg
        exact Nat.lt_succ_self _
    latest := fun m y g hmem => by
      rcases mem_cons.1 hmem with heq | hold
      · cases heq
        exact ⟨Nat.lt_succ_self _, fun g hg => by cases hg; exact le_rfl⟩
      · have hlt := (h.latest m y g hold).1
        exact ⟨hlt.trans (Nat.lt_succ_self _), fun g' hg => by cases hg; exact hlt.le⟩
    later := fun g m y g' hsub => by
      rcases cons_sublist_cons'.1 hsub with hold | ⟨heq, htracked⟩
      · exact h.later g m y g' hold
      · cases heq
        exact h.numbered g (.inl (singleton_sublist.1 htracked))
    pending := fun m r y hsub hr => by
      rcases cons_sublist_cons'.1 hsub with hold | ⟨heq, -⟩
      · exact mem_cons_of_mem _ (h.pending m r y hold hr)
      · cases heq }

theorem put (h : k.Inv next reaches) (he : k.container = none) : k.put.Inv next reaches :=
  { h with
    drawn := fun x cause hmem => (h.drawn x cause hmem).trans (Nat.lt_succ_self _)
    cached := fun x hx => by
      cases hx
      refine ⟨Nat.lt_succ_self _, Free.of_not_destroyed fun cause hmem => ?_⟩
      exact absurd (h.drawn _ cause hmem) (lt_irrefl _)
    kept := fun x hx => by
      rcases Nat.lt_succ_iff_lt_or_eq.1 hx with hold | rfl
      · exact .inr ((h.kept x hold).resolve_left (by simp [he]))
      · exact .inl rfl }

/-- `destroy_fn` is called on a free handle, and the cache has it no longer. -/
theorem called {made : Nat} {cause : Cause} {container generation : Option Nat}
    (h : k.Inv next reaches) (hfree : Free x k.log) (hmade : x < made) (hle : k.made ≤ made)
    (hc : ∀ y, container = some y → k.container = some y ∧ y ≠ x)
    (hgeneration : ∀ g, generation = some g → k.generation = some g)
    (hkept : ∀ y < made, y ≠ x → y < k.made ∧ (k.container = some y → container = some y))
    (hreaches : ∀ r, cause = .release r → reaches r) :
    Key.Inv next reaches { k.note (.destroyed x cause) with
      container := container
      generation := generation
      made := made } where
  fitting := ⟨⟨hfree, fun r hr n hsub => h.pending n r x hsub (hreaches r hr)⟩, h.fitting⟩
  drawn := fun y why hmem => by
    rcases mem_cons.1 hmem with heq | hold
    · cases heq
      exact hmade
    · exact (h.drawn y why hold).trans_le hle
  cached := fun y hy => by
    obtain ⟨hcached, hne⟩ := hc y hy
    obtain ⟨hlt, hy'⟩ := h.cached y hcached
    exact ⟨hlt.trans_le hle, hne.symm, hy'⟩
  kept := fun y hy => by
    by_cases hyx : y = x
    · exact .inr ⟨cause, hyx ▸ mem_cons_self⟩
    · obtain ⟨hlt, hs⟩ := hkept y hy hyx
      exact (h.kept y hlt).imp hs fun ⟨why, hmem⟩ => ⟨why, mem_cons_of_mem _ hmem⟩
  begun := fun r hmem => h.begun r ((mem_cons.1 hmem).resolve_left nofun)
  numbered := fun g hg => by
    rcases hg with hmem | hg
    · exact h.numbered g (.inl ((mem_cons.1 hmem).resolve_left nofun))
    · exact h.numbered g (.inr (hgeneration g hg))
  latest := fun n y m hmem =>
    (h.latest n y m ((mem_cons.1 hmem).resolve_left nofun)).imp_right fun hle g hg =>
      hle g (hgeneration g hg)
  later := fun g n y m hsub =>
    h.later g n y m ((cons_sublist_cons'.1 hsub).resolve_right (by simp))
  pending := fun n r y hsub hr => mem_cons_of_mem _
    (h.pending n r y ((cons_sublist_cons'.1 hsub).resolve_right (by simp)) hr)

theorem destroy (cause : Cause) (h : k.Inv next reaches) (hc : k.container = some x)
    (hr : ∀ r, cause = .release r → reaches r) : (k.destroy x cause).Inv next reaches := by
  obtain ⟨hmade, hfree⟩ := h.cached x hc
  refine h.called hfree hmade le_rfl nofun nofun (fun y hy hne => ⟨hy, fun hyc => ?_⟩) hr
  rw [hc] at hyc
  exact absurd (Option.some.inj hyc).symm hne

theorem lose (h : k.Inv next reaches) : (k.lose n).Inv next reaches := by
  refine h.called (Free.of_not_destroyed fun cause hmem => ?_) (Nat.lt_succ_self _)
    (Nat.le_succ _) (fun y hy => ⟨hy, ((h.cached y hy).1).ne⟩) (fun _ hg => hg)
    (fun y hy hne => ⟨by omega, id⟩) fun _ => nofun
  exact absurd (h.drawn _ cause hmem) (lt_irrefl _)

/-- A call of `destroy_fn` has failed, and the handle is put back if the cache is
empty. -/
theorem reinstate {cause : Cause} (h : k.Inv next reaches) (hcall : .destroyed x cause ∈ k.log) :
    (k.reinstate x next).Inv (if k.container = none then next + 1 else next) reaches := by
  have hle : next ≤ if k.container = none then next + 1 else next := by split <;> omega
  have hn : (k.note (.failed x)).Inv next reaches :=
    h.note trivial trivial (fun _ => nofun) (fun _ => nofun) fun _ _ => nofun
  have hfail := hn.mono hle fun _ hr => hr
  unfold Key.reinstate
  cases he : k.container with
  | some y =>
    simp only [he] at hfail ⊢
    exact hfail
  | none =>
    simp only [he, if_true] at hfail ⊢
    exact { hfail with
      cached := fun y hy => by
        cases hy
        exact ⟨h.drawn x cause hcall, .inl rfl⟩
      kept := fun y hy => .inr ((hfail.kept y hy).resolve_left (by simp [Key.note, he]))
      numbered := fun g hg => by
        rcases hg with hmem | hg
        · exact hfail.numbered g (.inl hmem)
        · cases hgen : k.generation with
          | none =>
            simp only [hgen, Option.getD_none, Option.some.injEq] at hg
            omega
          | some g' =>
            simp only [hgen, Option.some.injEq] at hg
            exact hg ▸ hfail.numbered g' (.inr hgen)
      latest := fun n y m hmem => by
        obtain ⟨hlt, hle⟩ := h.latest n y m ((mem_cons.1 hmem).resolve_left nofun)
        refine ⟨hlt.trans (Nat.lt_succ_self _), fun g hg => ?_⟩
        cases hgen : k.generation with
        | none =>
          simp only [hgen, Option.getD_none, Option.some.injEq] at hg
          omega
        | some g' =>
          simp only [hgen, Option.some.injEq] at hg
          exact hg ▸ hle g' hgen }

theorem fresh (h : k.Inv next reaches) (he : k.container = none)
    (hu : k.Undisturbed reaches k.made) :
    ((k.put.take n k.made next).note (.returned n k.made)).Inv (next + 1) reaches := by
  refine (h.put he).take.returned (hu.imp (mem_cons_of_mem _) fun hnone r => ?_)
  exact ⟨(hnone r).1, fun hcall => (hnone r).2 ((mem_cons.1 hcall).resolve_left nofun)⟩

end Key.Inv

-- ==== per agent

namespace PerAgent.Owner

variable {env : Surroundings} {next : Nat} {o : Owner}

def Reaches (o : Owner) (r : Nat) : Prop :=
  (∃ wait, o.timer = some ⟨r, wait⟩) ∨ ∃ wait, o.idleTimer = some ⟨r, wait⟩

/-- An acquire returns a handle found dead, or that no release has destroyed, and no timer runs. -/
def Careful (o : Owner) : Move → Prop
  | .probed n true => ∀ h, o.acquires n = .probing h → o.toKey.Undisturbed o.Reaches h
  | .created n true =>
    o.acquires n = .creating → o.container = none → o.toKey.Undisturbed o.Reaches o.made
  | .discarded n => ∀ h, o.acquires n = .discarding h → o.toKey.Undisturbed o.Reaches h
  | _ => True

/-- THE INVARIANT of an owner. -/
structure Inv (next : Nat) (o : Owner) : Prop where
  key : o.toKey.Inv next o.Reaches
  callback : o.container ≠ none → o.destroyFn = true

theorem not_reaches {reaches : Nat → Prop} (ht : o.timer = none) (hidle : o.idleTimer = none)
    (r : Nat) (hr : o.Reaches r) : reaches r := by
  rcases hr with ⟨wait, hwait⟩ | ⟨wait, hwait⟩
  · simp [ht] at hwait
  · simp [hidle] at hwait

variable {n x r : Nat} {kind : TimerKind}

theorem Inv.setAcquire {stage : Acquire} (h : o.Inv next) : (o.setAcquire n stage).Inv next :=
  ⟨h.key, h.callback⟩

theorem Inv.cancelTimers (h : o.Inv next) : o.cancelTimers.Inv next where
  key := h.key.mono le_rfl (not_reaches rfl rfl)
  callback := h.callback

theorem Inv.setTimer (kind : TimerKind) {timer : Option Timer} (h : o.Inv next)
    (ht : ∀ r wait, timer = some ⟨r, wait⟩ → o.Reaches r) : (o.setTimer kind timer).Inv next := by
  have hreaches : ∀ r, (o.setTimer kind timer).Reaches r → o.Reaches r := by
    intro r hr
    cases kind with
    | grace => exact hr.elim (fun ⟨_, hwait⟩ => ht _ _ hwait) fun hidle => .inr hidle
    | idle => exact hr.elim (fun hg => .inl hg) fun ⟨_, hwait⟩ => ht _ _ hwait
  cases kind with
  | grace | idle => exact ⟨h.key.mono le_rfl hreaches, h.callback⟩

theorem Inv.acquire (h : o.Inv next) : (o.acquire env next n).1.Inv (o.acquire env next n).2 := by
  unfold Owner.acquire
  split
  · exact h.cancelTimers.setAcquire
  next x hc => exact ⟨h.key.take.mono le_rfl (not_reaches rfl rfl), h.callback⟩

theorem Inv.probed {alive : Bool} (h : o.Inv next) (hcall : o.acquires n = .probing x)
    (hcare : o.Careful (.probed n alive)) : (o.probed n x alive).Inv next := by
  unfold Owner.probed
  cases alive with
  | true => exact ⟨h.key.returned (hcare x hcall), h.callback⟩
  | false =>
    simp only [Bool.false_eq_true, if_false]
    split
    next hc =>
      exact ⟨(h.key.foundDead.destroy (.dead n) hc fun _ => nofun).mono le_rfl
        (not_reaches rfl rfl), absurd rfl⟩
    next => exact ⟨h.key.foundDead, h.callback⟩

theorem Inv.created {ok : Bool} (h : o.Inv next) (hcall : o.acquires n = .creating)
    (hcare : o.Careful (.created n ok)) :
    (o.created env next n ok).1.Inv (o.created env next n ok).2 := by
  unfold Owner.created
  cases ok with
  | false => exact h.setAcquire
  | true =>
    simp only [Bool.not_true, Bool.false_eq_true, if_false]
    split
    next x hc => exact ⟨h.key.take.lose.mono le_rfl (not_reaches rfl rfl), fun _ => rfl⟩
    next he => exact ⟨(h.key.fresh he (hcare hcall he)), fun _ => rfl⟩

theorem Inv.discarded (h : o.Inv next) (hcall : o.acquires n = .discarding x)
    (hcare : o.Careful (.discarded n)) : (o.discarded n x).Inv next := by
  exact ⟨h.key.returned (hcare x hcall), h.callback⟩

theorem Inv.release {expected : Option Nat} (h : o.Inv next) :
    (o.release env expected).Inv next := by
  unfold Owner.release
  split
  · exact ⟨h.key.begin.mono le_rfl (fun _ hr => .inl hr), h.callback⟩
  next hgoes =>
    obtain ⟨-, hkept⟩ := not_or.1 hgoes
    have hc := h.key.not_reacquired (by simpa using hkept)
    refine ⟨(h.key.begin.teardown _ fun g hg n x m hmem => ?_).mono le_rfl (fun r hr => ?_),
      fun _ => rfl⟩
    · exact hc g hg n x m ((mem_cons.1 hmem).resolve_left nofun)
    · refine .inr ?_
      rcases hr with ⟨wait, hwait⟩ | ⟨wait, hwait⟩
      · cases hwait
        rfl
      · split at hwait
        · cases hwait
        · cases hwait
          rfl

theorem Inv.expire (h : o.Inv next) (hreaches : o.Reaches r) : (o.expire kind r x).Inv next := by
  unfold Owner.expire
  split
  · exact h.setTimer kind nofun
  next hc =>
    have hc : o.container = some x := not_not.1 hc
    have hd : (o.toKey.destroy x (.release r)).Inv next o.Reaches :=
      h.key.destroy _ hc fun r' heq => by
        cases heq
        exact hreaches
    cases kind with
    | grace => exact ⟨hd.mono le_rfl (not_reaches rfl rfl), absurd rfl⟩
    | idle =>
      rw [h.callback (by rw [hc]; exact Option.some_ne_none x)]
      exact ⟨hd.mono le_rfl (fun _ hr => hr.imp_right fun ⟨_, hwait⟩ => nomatch hwait),
        absurd rfl⟩

theorem Inv.awaitUnpinned {failures : Nat} (h : o.Inv next) (hr : o.Reaches r) :
    (o.awaitUnpinned env kind r failures).Inv next := by
  unfold Owner.awaitUnpinned
  split
  · exact h.setTimer kind nofun
  · split
    · exact h.setTimer kind fun _ _ heq => by cases heq; exact hr
    · exact h.expire hr

theorem Inv.idleLoop (h : o.Inv next) (hr : o.Reaches r) : (o.idleLoop env r).Inv next := by
  unfold Owner.idleLoop
  split
  · dsimp only
    split
    · exact h.awaitUnpinned hr
    · exact h.setTimer .idle fun _ _ heq => by cases heq; exact hr
  · exact h.setTimer .idle nofun

theorem Inv.timerGoes {answer : Option Bool} (h : o.Inv next) :
    (o.timerGoes env kind answer).Inv next := by
  have hruns : ∀ {kind r wait}, o.getTimer kind = some ⟨r, wait⟩ → o.Reaches r := by
    intro kind r wait ht
    cases kind with
    | grace => exact .inl ⟨wait, ht⟩
    | idle => exact .inr ⟨wait, ht⟩
  unfold Owner.timerGoes
  split
  · exact h
  next htimer => exact h.setTimer .grace fun _ _ heq => by cases heq; exact hruns htimer
  next htimer => exact h.idleLoop (hruns htimer)
  next htimer =>
    split
    · exact h
    · split
      · exact h.awaitUnpinned (hruns htimer)
      · exact h.idleLoop (hruns htimer)
  next htimer =>
    split
    · exact h
    · exact h.awaitUnpinned (hruns htimer)
  next htimer =>
    split
    · exact h.expire (hruns htimer)
    · exact h.setTimer _ fun _ _ heq => by cases heq; exact hruns htimer

/-- STEP LEMMA of an owner. -/
theorem Inv.move {m : Move} (h : o.Inv next) (hcare : o.Careful m) :
    (o.move env next m).1.Inv (o.move env next m).2 := by
  cases m with
  | acquire n =>
    simp only [Owner.move]
    split
    · exact h.acquire
    · exact h
  | probed n alive =>
    simp only [Owner.move]
    split
    next hcall => exact h.probed hcall hcare
    next => exact h
  | reaped n =>
    simp only [Owner.move]
    split
    · exact h.setAcquire
    · exact h
  | created n ok =>
    simp only [Owner.move]
    split
    next hcall => exact h.created hcall hcare
    next => exact h
  | discarded n =>
    simp only [Owner.move]
    split
    next hcall => exact h.discarded hcall hcare
    next => exact h
  | release expected => exact h.release
  | timer kind answer => exact h.timerGoes

theorem move_next_le {m : Move} : next ≤ (o.move env next m).2 := by
  cases m <;> simp only [Owner.move, Owner.acquire, Owner.created] <;> grind

theorem Inv.new : Inv next {} :=
  ⟨Key.Inv.new.mono le_rfl (not_reaches rfl rfl), absurd rfl⟩

end PerAgent.Owner

-- ==== per task

namespace PerTask.Owner

variable {env : Surroundings} {next : Nat} {o : Owner} {reaches : Nat → Prop}

def Reaches (o : Owner) (r : Nat) : Prop :=
  (∃ wait, o.pendingTeardown = some ⟨r, wait⟩) ∨ ∃ h expected, o.stages r = .checking h expected

/-- An acquire returns a handle found dead, or that no release has destroyed, and no release
awaits its pin check or left a deferred teardown. One that finds the container pinned defers the
latest generation's teardown. -/
def Careful (o : Owner) : Move → Prop
  | .probed n true => ∀ h, o.acquires n = .probing h → o.toKey.Undisturbed o.Reaches h
  | .created n true =>
    o.acquires n = .creating → o.container = none → o.toKey.Undisturbed o.Reaches o.made
  | .discarded n => ∀ h, o.acquires n = .discarding h → o.toKey.Undisturbed o.Reaches h
  | .checked r answer => ∀ h g, o.stages r = .checking h (some g) → answer ≠ some false →
    ∀ n x m, .taken n x m ∈ o.log → m ≤ g
  | _ => True

/-- THE INVARIANT of an owner. -/
structure Inv (next : Nat) (o : Owner) : Prop where
  key : o.toKey.Inv next o.Reaches
  destroying : ∀ r h, o.stages r = .destroying h → .destroyed h (.release r) ∈ o.log

variable {r n x : Nat} {expected : Option Nat}

theorem reaches_of_pending {o' : Owner} (hnone : o'.pendingTeardown = none)
    (hs : o'.stages = o.stages) (hr : o'.Reaches r) : o.Reaches r := by
  rcases hr with ⟨wait, hwait⟩ | hr
  · simp [hnone] at hwait
  · exact .inr (hs ▸ hr)

variable {r' : Nat} {ok : Bool} {answer : Option Bool} {m : Move}

theorem stage_update {stages : Nat → Release} {stage stage' : Release}
    (hr : Function.update stages r stage r' = stage') :
    r' = r ∧ stage = stage' ∨ stages r' = stage' := by
  rw [Function.update_apply] at hr
  split at hr
  next hrr => exact .inl ⟨hrr, hr⟩
  next => exact .inr hr

theorem reaches_setStage (stage : Release) (hs : ∀ h expected, stage ≠ .checking h expected)
    (hr : (o.setStage r stage).Reaches r') : o.Reaches r' :=
  hr.imp_right fun ⟨h, expected, hcall⟩ => ⟨h, expected,
    (stage_update hcall).resolve_left fun hnew => hs h expected hnew.2⟩

theorem Inv.setAcquire {stage : Acquire} (h : o.Inv next) : (o.setAcquire n stage).Inv next :=
  ⟨h.key, h.destroying⟩

theorem Inv.setPending {timer : Option Timer} (h : o.Inv next)
    (ht : ∀ r wait, timer = some ⟨r, wait⟩ → o.Reaches r) :
    Inv next { o with pendingTeardown := timer } where
  key := h.key.mono le_rfl (fun r hr => hr.elim (fun ⟨wait, hwait⟩ => ht r wait hwait) Or.inr)
  destroying := h.destroying

theorem Inv.acquire (h : o.Inv next) : (o.acquire next n).1.Inv (o.acquire next n).2 := by
  unfold Owner.acquire
  split
  · exact (h.setAcquire).setPending nofun
  next x hc =>
    exact ⟨h.key.take.mono le_rfl (fun _ => reaches_of_pending rfl rfl),
      fun r y hr => mem_cons_of_mem _ (h.destroying r y hr)⟩

theorem Inv.probed {alive : Bool} (h : o.Inv next) (hcall : o.acquires n = .probing x)
    (hcare : o.Careful (.probed n alive)) : (o.probed n x alive).Inv next := by
  unfold Owner.probed
  cases alive with
  | true =>
    exact ⟨h.key.returned (hcare x hcall), fun r y hr => mem_cons_of_mem _ (h.destroying r y hr)⟩
  | false =>
    simp only [Bool.false_eq_true, if_false]
    split
    next hc =>
      exact ⟨(h.key.foundDead.destroy (.dead n) hc fun _ => nofun), fun r y hr =>
          mem_cons_of_mem _ (mem_cons_of_mem _ (h.destroying r y hr))⟩
    next => exact ⟨h.key.foundDead, fun r y hr => mem_cons_of_mem _ (h.destroying r y hr)⟩

theorem Inv.created (h : o.Inv next) (hcall : o.acquires n = .creating)
    (hcare : o.Careful (.created n ok)) : (o.created next n ok).1.Inv (o.created next n ok).2 := by
  unfold Owner.created
  cases ok with
  | false => exact h.setAcquire
  | true =>
    simp only [Bool.not_true, Bool.false_eq_true, if_false]
    split
    next x hc =>
      exact ⟨h.key.take.lose,
        fun r y hr => mem_cons_of_mem _ (mem_cons_of_mem _ (h.destroying r y hr))⟩
    next he =>
      exact ⟨(h.key.fresh he (hcare hcall he)), fun r y hr =>
          mem_cons_of_mem _ (mem_cons_of_mem _ (h.destroying r y hr))⟩

theorem Inv.discarded (h : o.Inv next) (hcall : o.acquires n = .discarding x)
    (hcare : o.Careful (.discarded n)) : (o.discarded n x).Inv next := by
  exact ⟨h.key.returned (hcare x hcall), fun r y hr => mem_cons_of_mem _ (h.destroying r y hr)⟩

theorem Inv.ended (h : o.Inv next) : (o.setStage r .ended).Inv next where
  key := h.key.mono le_rfl (fun _ => reaches_setStage .ended nofun)
  destroying := fun r' x hr => h.destroying r' x ((stage_update hr).resolve_left nofun)

theorem Inv.destroy (hkey : o.toKey.Inv next reaches) (hreaches : reaches r)
    (hless : ∀ r', o.Reaches r' → reaches r')
    (hdest : ∀ r h, o.stages r = .destroying h → .destroyed h (.release r) ∈ o.log)
    (hc : o.container = some x) :
    Inv next { o.setStage r (.destroying x) with toKey := o.toKey.destroy x (.release r) } where
  key := (hkey.destroy _ hc fun r' heq => by cases heq; exact hreaches).mono le_rfl
    (fun r' hr => hless r' (reaches_setStage (.destroying x) nofun hr))
  destroying := by
    intro r' h hr
    rcases stage_update hr with ⟨rfl, heq⟩ | hold
    · cases heq
      exact mem_cons_self
    · exact mem_cons_of_mem _ (hdest r' h hold)

theorem Inv.takeOut (hkey : o.toKey.Inv next reaches) (hreaches : reaches r)
    (hless : ∀ r', o.Reaches r' → reaches r')
    (hdest : ∀ r h, o.stages r = .destroying h → .destroyed h (.release r) ∈ o.log) :
    (o.takeOut r x expected).Inv next := by
  unfold Owner.takeOut
  split
  · exact Inv.ended ⟨hkey.mono le_rfl hless, hdest⟩
  next hgoes =>
    obtain ⟨hc, hkept⟩ := not_or.1 hgoes
    have hn := hkey.teardown r (hkey.not_reacquired (by simpa using hkept))
    exact Inv.destroy (o := { o with toKey := o.toKey.note (.teardown r expected) }) hn hreaches
      hless (fun r' h hr => mem_cons_of_mem _ (hdest r' h hr)) (not_not.1 hc)

theorem Inv.release (h : o.Inv next) : (o.release env expected).Inv next := by
  have hb : Inv next { o with toKey := o.toKey.begin } :=
    ⟨h.key.begin.mono le_rfl (fun _ hr => .inl hr),
      fun r x hr => mem_cons_of_mem _ (h.destroying r x hr)⟩
  unfold Owner.release
  split
  · exact hb.ended
  next x hc =>
    split
    · exact hb.ended
    · split
      · refine ⟨h.key.begin.mono le_rfl (fun r hr => ?_), fun r y hr =>
          hb.destroying r y ((stage_update hr).resolve_left nofun)⟩
        rcases hr with hr | ⟨y, e, hr⟩
        · exact .inl (.inl hr)
        · rcases stage_update hr with ⟨rfl, -⟩ | hold
          · exact .inr rfl
          · exact .inl (.inr ⟨y, e, hold⟩)
      · exact Inv.takeOut h.key.begin (.inr rfl) (fun _ hr => .inl hr) hb.destroying

theorem Inv.checked (h : o.Inv next) (hcall : o.stages r = .checking x expected)
    (hcare : o.Careful (.checked r answer)) : (o.checked r x expected answer).Inv next := by
  have hreaches : o.Reaches r := .inr ⟨x, expected, hcall⟩
  unfold Owner.checked
  split
  · exact Inv.takeOut h.key hreaches (fun _ hr => hr) h.destroying
  next hp =>
    have hc : ∀ g, expected = some g → ∀ n x m, .taken n x m ∈ o.log → m ≤ g := by
      rintro g rfl
      exact hcare x g hcall hp
    refine ⟨(h.key.teardown r hc).mono le_rfl (fun r' hr => ?_),
      fun r' y hr => mem_cons_of_mem _
        (h.destroying r' y ((stage_update hr).resolve_left nofun))⟩
    rcases hr with ⟨wait, hwait⟩ | hr
    · cases hwait
      exact hreaches
    · exact reaches_setStage .ended nofun (.inr hr)

theorem Inv.expire (h : o.Inv next) (hreaches : o.Reaches r) : (o.expire r x).Inv next := by
  unfold Owner.expire
  split
  · exact h.setPending nofun
  next hc =>
    exact (Inv.destroy h.key hreaches (fun _ hr => hr) h.destroying (not_not.1 hc)).setPending nofun

theorem Inv.waitThenDestroy {failures : Nat} (h : o.Inv next) (hr : o.Reaches r) :
    (o.waitThenDestroy env r failures).Inv next := by
  unfold Owner.waitThenDestroy
  split
  · exact h.setPending nofun
  · split
    · exact h.setPending fun _ _ heq => by cases heq; exact hr
    · exact h.expire hr

theorem Inv.teardownGoes (h : o.Inv next) : (o.teardownGoes env answer).Inv next := by
  unfold Owner.teardownGoes
  split
  · exact h
  next hwait => exact h.waitThenDestroy (.inl ⟨_, hwait⟩)
  next hwait =>
    split
    · exact h
    · exact h.waitThenDestroy (.inl ⟨_, hwait⟩)
  next hwait =>
    split
    · exact h
    · exact h.waitThenDestroy (.inl ⟨_, hwait⟩)
  next hwait =>
    split
    · exact h.expire (.inl ⟨_, hwait⟩)
    · exact h.setPending fun _ _ heq => by cases heq; exact .inl ⟨_, hwait⟩

theorem Inv.destroyed (h : o.Inv next) (hcall : o.stages r = .destroying x) :
    (o.destroyed next r x ok).1.Inv (o.destroyed next r x ok).2 := by
  unfold Owner.destroyed
  cases ok with
  | true => exact h.ended
  | false =>
    refine ⟨(h.key.reinstate (h.destroying r x hcall)).mono le_rfl
      (fun _ hr => reaches_setStage .ended nofun hr), fun r' y hr => ?_⟩
    have hold := h.destroying r' y ((stage_update hr).resolve_left nofun)
    simp only [Bool.false_eq_true, if_false, Key.reinstate]
    split
    · exact mem_cons_of_mem _ hold
    · exact mem_cons_of_mem _ hold

/-- STEP LEMMA of an owner. -/
theorem Inv.move (h : o.Inv next) (hcare : o.Careful m) :
    (o.move env next m).1.Inv (o.move env next m).2 := by
  cases m with
  | acquire n =>
    simp only [Owner.move]
    split
    · exact h.acquire
    · exact h
  | probed n alive =>
    simp only [Owner.move]
    split
    next hcall => exact h.probed hcall hcare
    next => exact h
  | reaped n =>
    simp only [Owner.move]
    split
    · exact h.setAcquire
    · exact h
  | created n ok =>
    simp only [Owner.move]
    split
    next hcall => exact h.created hcall hcare
    next => exact h
  | discarded n =>
    simp only [Owner.move]
    split
    next hcall => exact h.discarded hcall hcare
    next => exact h
  | release expected => exact h.release
  | checked r answer =>
    simp only [Owner.move]
    split
    next hcall => exact h.checked hcall hcare
    next => exact h
  | destroyed r ok =>
    simp only [Owner.move]
    split
    next hcall => exact h.destroyed hcall
    next => exact h
  | teardown answer => exact h.teardownGoes

theorem move_next_le : next ≤ (o.move env next m).2 := by
  cases m <;> simp only [Owner.move, Owner.acquire, Owner.created, Owner.destroyed] <;> grind

theorem Inv.new : Inv next {} :=
  ⟨Key.Inv.new.mono le_rfl fun _ hr => hr.elim nofun nofun, fun _ _ => nofun⟩

end PerTask.Owner

-- ==== the strategies

namespace Strategy

section

variable {κ O M : Type} [DecidableEq κ] {P : Nat → O → Prop} {careful : O → M → Prop}
  {move : Surroundings → O → Nat → M → O × Nat} {tracked : O → O}
  {config : SandboxLifecycleConfig} {s : Strategy κ O}

def AtEvery (P : Nat → O → Prop) (s : Strategy κ O) : Prop :=
  ∀ owner, P s.nextGeneration (s.owners owner)

def Careful (careful : O → M → Prop) (s : Strategy κ O) : Input κ M → Prop
  | .at owner m => careful (s.owners owner) m
  | _ => True

variable
  (hmove : ∀ env next o m, P next o → careful o m → P (move env o next m).2 (move env o next m).1)
  (hnext : ∀ env next o m, next ≤ (move env o next m).2)
  (hmono : ∀ next next' o, next ≤ next' → P next o → P next' o)
  (htracked : ∀ next o, P next o → P next (tracked o))

include hmove hnext hmono htracked

/-- STEP LEMMA: what the careful moves of one owner keep is kept at every owner. -/
theorem AtEvery.step {i : Input κ M} (hcare : s.Careful careful i) (h : s.AtEvery P) :
    (s.step move tracked config i).AtEvery P := by
  cases i with
  | «at» owner m =>
    intro other
    by_cases ho : other = owner
    · subst ho
      simp only [Strategy.step, Function.update_self]
      exact hmove _ _ _ _ (h other) hcare
    · simp only [Strategy.step, Function.update_of_ne ho]
      exact hmono _ _ _ (hnext _ _ _ _) (h other)
  | trackedOwners => exact fun owner => htracked _ _ (h owner)
  | bindPinCheck | tick elapsed => exact h

/-- RUN LEMMA. -/
theorem AtEvery.run {inputs : List (Input κ M)} (h : s.AtEvery P)
    (hcare : Run.Throughout (Strategy.step move tracked config) (Careful careful) s inputs) :
    ∀ t ∈ Run.states (Strategy.step move tracked config) s inputs, t.AtEvery P :=
  Run.throughout_states (fun _ _ hok => AtEvery.step hmove hnext hmono htracked hok) hcare h

end

end Strategy

section

variable {κ : Type} [DecidableEq κ] {config : SandboxLifecycleConfig} {now : Int} {pinCheck : Bool}

/-- RUN LEMMA of the per-agent strategy. -/
theorem PerAgent.inv_of_careful {inputs : List (Input κ PerAgent.Move)}
    (hcare : Run.Throughout (PerAgent.step config) (Strategy.Careful PerAgent.Owner.Careful)
      (.new {} now pinCheck) inputs) :
    ∀ t ∈ Run.states (PerAgent.step config) (.new {} now pinCheck) inputs,
      t.AtEvery PerAgent.Owner.Inv :=
  Strategy.AtEvery.run (fun _ _ _ _ => PerAgent.Owner.Inv.move)
    (fun _ _ _ _ => PerAgent.Owner.move_next_le)
    (fun _ _ _ hle h => ⟨h.key.mono hle fun _ hr => hr, h.callback⟩)
    (fun _ _ h => ⟨h.key.tracked, by simpa only [Key.tracked_container] using h.callback⟩)
    (fun _ => PerAgent.Owner.Inv.new) hcare

/-- RUN LEMMA of the per-task strategy. -/
theorem PerTask.inv_of_careful {inputs : List (Input κ PerTask.Move)}
    (hcare : Run.Throughout (PerTask.step config) (Strategy.Careful PerTask.Owner.Careful)
      (.new {} now pinCheck) inputs) :
    ∀ t ∈ Run.states (PerTask.step config) (.new {} now pinCheck) inputs,
      t.AtEvery PerTask.Owner.Inv :=
  Strategy.AtEvery.run (fun _ _ _ _ => PerTask.Owner.Inv.move)
    (fun _ _ _ _ => PerTask.Owner.move_next_le)
    (fun _ _ _ hle h => ⟨h.key.mono hle fun _ hr => hr, h.destroying⟩)
    (fun _ _ h => ⟨h.key.tracked, fun r x hr => Key.mem_tracked (h.destroying r x hr)⟩)
    (fun _ => PerTask.Owner.Inv.new) hcare

end

theorem containers_safe {κ : Type} [DecidableEq κ] (config : SandboxLifecycleConfig) (now : Int)
    (pinCheck : Bool) :
    (∀ inputs : List (Input κ PerAgent.Move),
      Run.Throughout (PerAgent.step config) (Strategy.Careful PerAgent.Owner.Careful)
        (.new {} now pinCheck) inputs →
      ∀ t ∈ Run.states (PerAgent.step config) (.new {} now pinCheck) inputs,
        ∀ owner, (t.owners owner).Safe) ∧
    ∀ inputs : List (Input κ PerTask.Move),
      Run.Throughout (PerTask.step config) (Strategy.Careful PerTask.Owner.Careful)
        (.new {} now pinCheck) inputs →
      ∀ t ∈ Run.states (PerTask.step config) (.new {} now pinCheck) inputs,
        ∀ owner, (t.owners owner).Safe :=
  ⟨fun _ hcare t ht owner => (PerAgent.inv_of_careful hcare t ht owner).key.safe,
    fun _ hcare t ht owner => (PerTask.inv_of_careful hcare t ht owner).key.safe⟩

def PerAgent.inTurn : List (Input Unit PerAgent.Move) :=
  [.at () (.acquire 0), .at () (.created 0 true), .at () (.release none),
    .at () (.timer .grace none), .at () (.acquire 1), .at () (.probed 1 true), .trackedOwners,
    .at () (.release (some 2)), .at () (.timer .grace none), .at () (.timer .grace none)]

def PerTask.inTurn : List (Input Unit PerTask.Move) :=
  [.at () (.acquire 0), .at () (.created 0 true), .at () (.release none),
    .at () (.checked 0 (some true)), .at () (.acquire 1), .at () (.probed 1 true), .trackedOwners,
    .at () (.release (some 2)), .at () (.checked 1 (some false)), .at () (.destroyed 1 false)]

theorem containers_safe_inTurn :
    (∀ t ∈ Run.states (PerAgent.step ⟨0, 0, 1⟩) (.new {} 0 false) PerAgent.inTurn,
      ∀ owner, (t.owners owner).Safe) ∧
    ∀ t ∈ Run.states (PerTask.step ⟨0, 0, 1⟩) (.new {} 0 true) PerTask.inTurn,
      ∀ owner, (t.owners owner).Safe := by
  refine ⟨(containers_safe ⟨0, 0, 1⟩ 0 false).1 _
      ⟨trivial, ?_, trivial, trivial, trivial, ?_, trivial, trivial, trivial, trivial, trivial⟩,
    (containers_safe ⟨0, 0, 1⟩ 0 true).2 _
      ⟨trivial, ?_, trivial, nofun, trivial, ?_, trivial, trivial, ?_, trivial, trivial⟩⟩
  · exact fun _ _ => Or.inr fun r => ⟨fun hr => hr.elim nofun nofun, nofun⟩
  · exact fun h heq => Or.inr fun r => ⟨fun hr => hr.elim nofun nofun, nofun⟩
  · exact fun _ _ => Or.inr fun r => ⟨nofun, nofun⟩
  · refine fun h heq => Or.inr fun r => ⟨fun hr => ?_, nofun⟩
    rcases r with _ | r <;> exact hr.elim nofun nofun
  · exact fun _ _ _ hpinned => absurd rfl hpinned

def PerAgent.heldOver : List (Input Unit PerAgent.Move) :=
  [.at () (.acquire 0), .at () (.created 0 true), .at () (.acquire 1), .at () (.release none),
    .at () (.probed 1 true), .at () (.timer .grace none), .at () (.timer .grace none)]

def PerTask.heldOver : List (Input Unit PerTask.Move) :=
  [.at () (.acquire 0), .at () (.created 0 true), .at () (.release none), .at () (.acquire 1),
    .at () (.probed 1 true), .at () (.checked 0 (some false))]

def PerTask.deferredAnew : List (Input Unit PerTask.Move) :=
  [.at () (.acquire 0), .at () (.created 0 true), .trackedOwners, .at () (.release (some 1)),
    .at () (.acquire 1), .at () (.checked 0 (some true))]

/-- Both strategies destroy a container in use, and the second starts a late teardown. -/
theorem containers_unsafe :
    (∃ t ∈ Run.states (PerAgent.step ⟨0, 0, 1⟩) (.new {} 0 false) PerAgent.heldOver,
      ¬ (t.owners ()).Safe) ∧
    (∃ t ∈ Run.states (PerTask.step ⟨0, 0, 1⟩) (.new {} 0 true) PerTask.heldOver,
      ¬ (t.owners ()).Safe) ∧
    ∃ t ∈ Run.states (PerTask.step ⟨0, 0, 1⟩) (.new {} 0 true) PerTask.deferredAnew,
      ¬ (t.owners ()).Safe := by
  refine ⟨⟨_, Run.final_mem_states _ _ _, fun h => ?_⟩,
    ⟨_, Run.final_mem_states _ _ _, fun h => ?_⟩, ⟨_, Run.final_mem_states _ _ _, fun h => ?_⟩⟩
  · exact absurd (h.inUse 1 0 0 (by decide) (by decide)) (by decide)
  · exact absurd (h.inUse 1 0 0 (by decide) (by decide)) (by decide)
  · exact h.current 0 1 1 0 2 (by decide)

end Synthorg.Sandbox
