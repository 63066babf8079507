/-
The limiter admits within its limits, as long as nobody waits for the semaphore
with a minute slot in hand while the world moves on.

Two things hold in every run. The slots of the semaphore are only passed around; and the time
stamps the window keeps are the ones among all ever made that still count, so the stamps are
paced.
-/
import Synthorg.Providers.RateLimiter
import Mathlib.Data.List.Nodup
import Mathlib.Data.List.Perm.Subperm
import Mathlib.Tactic.Linarith

namespace Synthorg.Providers

open Lib
open Function (update update_self update_of_ne)
open List

namespace RateLimiter

variable {config : RateLimiterConfig} {s : RateLimiter} {n : Nat}

-- ==== the condition

/-- Past the pause: the call sleeps for its minute or queues for the semaphore. -/
def Underway (s : RateLimiter) (n : Nat) : Prop :=
  s.calls n = .queued ∨ ∃ wait, s.calls n = .sleeping wait

/-- Under a limit per minute no time passes while a call queues and none is cancelled there; no
pause is set while a call is underway. -/
def Careful (config : RateLimiterConfig) (s : RateLimiter) : Input → Prop
  | .tick seconds =>
    seconds ≤ 0 ∨ config.maxRequestsPerMinute = 0 ∨ ∀ n, s.calls n ≠ .queued
  | .cancel n => config.maxRequestsPerMinute = 0 ∨ s.calls n ≠ .queued
  | .pause seconds | .endCall _ (some seconds) => seconds ≤ 0 ∨ ∀ n, ¬ s.Underway n
  | _ => True

-- ==== the invariant

def Before : Stage → Prop
  | .absent | .pausing | .sleeping _ => True
  | _ => False

def Passed : Stage → Prop
  | .queued | .returned | .released => True
  | _ => False

/-- THE INVARIANT; the call `but`, in the middle of a step, may have its stamp already. -/
structure Inv (config : RateLimiterConfig) (but : Option Nat) (s : RateLimiter) : Prop where
  slots : 0 < config.maxConcurrent → s.semaphore.slots + s.held.length = config.maxConcurrent
  once : s.semaphore.members.Nodup
  members : ∀ n ∈ s.semaphore.members, s.calls n = .queued
  heldOnce : s.held.Nodup
  held : ∀ n ∈ s.held, s.calls n = .returned
  returnsOnce : (s.returns.map fun r => r.stamp.call).Nodup
  returns : ∀ r ∈ s.returns, s.calls r.stamp.call = .returned ∨ s.calls r.stamp.call = .released
  window : ∀ cutoff, s.clock - rpmWindowSeconds ≤ cutoff →
    (s.stamped.filter fun stamp => cutoff < stamp.time) =
      (s.requestTimestamps.filter fun stamp => cutoff < stamp.time).reverse
  kept : ∀ stamp ∈ s.requestTimestamps, stamp ∈ s.stamped
  stampedPast : ∀ stamp ∈ s.stamped, stamp.time ≤ s.clock
  paced : Window.Paced config.maxRequestsPerMinute rpmWindowSeconds
    (s.stamped.map TimeStamp.time)
  stamped : ∀ stamp ∈ s.stamped, some stamp.call = but ∨ Passed (s.calls stamp.call)
  onTime : 0 < config.maxRequestsPerMinute →
    (∀ n, s.calls n = .queued → ⟨n, s.clock⟩ ∈ s.stamped) ∧
      ∀ r ∈ s.returns, r.stamp ∈ s.stamped
  rested : ∀ n, s.Underway n → s.pauseUntil ≤ s.clock
  paused : ∀ r ∈ s.returns, r.pauseUntil ≤ r.stamp.time

variable {but : Option Nat} {seconds : ℚ}

theorem Inv.outside (h : s.Inv config but) (hb : Before (s.calls n)) :
    n ∉ s.semaphore.members ∧ n ∉ s.held ∧ (∀ r ∈ s.returns, r.stamp.call ≠ n) ∧
      ∀ stamp ∈ s.stamped, stamp.call = n → but = some n := by
  refine ⟨fun hmem => ?_, fun hmem => ?_, fun r hr heq => ?_, fun stamp hs heq => ?_⟩
  · rw [h.members n hmem] at hb
    exact hb
  · rw [h.held n hmem] at hb
    exact hb
  · rcases h.returns r hr with hcall | hcall
    · rw [← heq, hcall] at hb
      exact hb
    · rw [← heq, hcall] at hb
      exact hb
  · rcases h.stamped stamp hs with hbut | hpass
    · rw [← hbut, heq]
    · cases hcall : s.calls n <;> simp_all [Before, Passed]

theorem Inv.setCall {stage : Stage} (h : s.Inv config none) (hb : Before (s.calls n))
    (hs : stage ≠ .queued) (hrest : (∃ wait, stage = .sleeping wait) → s.pauseUntil ≤ s.clock) :
    (s.setCall n stage).Inv config none := by
  obtain ⟨hmembers, hheld, hrets, hstamp⟩ := h.outside hb
  have hc : ∀ m, m ≠ n → (s.setCall n stage).calls m = s.calls m := fun m hm => by
    simp [RateLimiter.setCall, hm]
  have hself : (s.setCall n stage).calls n = stage := by simp [RateLimiter.setCall]
  refine ⟨h.slots, h.once, fun m hm => ?_, h.heldOnce, fun m hm => ?_, h.returnsOnce,
    fun r hr => ?_, h.window, h.kept, h.stampedPast, h.paced, fun stamp hstamped => ?_,
    fun hp => ⟨fun m hm => ?_, (h.onTime hp).2⟩, fun m hm => ?_, h.paused⟩
  · rw [hc m fun heq => hmembers (heq ▸ hm)]
    exact h.members m hm
  · rw [hc m fun heq => hheld (heq ▸ hm)]
    exact h.held m hm
  · rw [hc _ (hrets r hr)]
    exact h.returns r hr
  · right
    rw [hc _ fun heq => by cases hstamp stamp hstamped heq]
    exact (h.stamped stamp hstamped).resolve_left fun hbut => by cases hbut
  · by_cases heq : m = n
    · subst heq
      exact absurd (hself.symm.trans hm) hs
    · exact (h.onTime hp).1 m ((hc m heq).symm.trans hm)
  · by_cases heq : m = n
    · subst heq
      rcases hm with hm | ⟨wait, hm⟩
      · exact absurd (hself.symm.trans hm) hs
      · exact hrest ⟨wait, hself.symm.trans hm⟩
    · refine h.rested m ?_
      unfold Underway at hm
      rwa [hc m heq] at hm

theorem Inv.weaken (h : s.Inv config none) (n : Nat) : s.Inv config (some n) :=
  ⟨h.slots, h.once, h.members, h.heldOnce, h.held, h.returnsOnce, h.returns, h.window, h.kept,
    h.stampedPast, h.paced,
    fun stamp hs => .inr ((h.stamped stamp hs).resolve_left nofun),
    h.onTime, h.rested, h.paused⟩

-- ==== admission

theorem Inv.letIn (semaphore : Semaphore Nat) (h : s.Inv config (some n))
    (hbefore : Before (s.calls n) ∨ s.calls n = .queued)
    (hslots : 0 < config.maxConcurrent → semaphore.slots + 1 = s.semaphore.slots)
    (hmembers : semaphore.members = s.semaphore.members.erase n)
    (hs : 0 < config.maxRequestsPerMinute → ⟨n, s.clock⟩ ∈ s.stamped)
    (hrest : s.pauseUntil ≤ s.clock) :
    (({ s with semaphore := semaphore } : RateLimiter).letIn n).Inv config none := by
  have hheld : n ∉ s.held := fun hmem => by
    rcases hbefore with hb | hb
    · exact (h.outside hb).2.1 hmem
    · simp [h.held n hmem] at hb
  have hrets : ∀ r ∈ s.returns, r.stamp.call ≠ n := fun r hr heq => by
    rcases hbefore with hb | hb
    · exact (h.outside hb).2.2.1 r hr heq
    · rcases h.returns r hr with hcall | hcall
      · simp [heq, hb] at hcall
      · simp [heq, hb] at hcall
  have hc : ∀ m, m ≠ n →
      (({ s with semaphore := semaphore } : RateLimiter).letIn n).calls m = s.calls m :=
    fun m hm => by simp [RateLimiter.letIn, RateLimiter.setCall, hm]
  have hself : (({ s with semaphore := semaphore } : RateLimiter).letIn n).calls n = .returned := by
    simp [RateLimiter.letIn, RateLimiter.setCall]
  refine ⟨fun hmax => ?_, ?_, fun m hm => ?_, ?_, fun m hm => ?_, ?_, fun r hr => ?_, h.window,
    h.kept, h.stampedPast, h.paced, fun stamp hs => ?_, fun hp => ⟨fun m hm => ?_, ?_⟩,
    fun m hm => ?_, fun r hr => ?_⟩
  · have := h.slots hmax
    simp only [RateLimiter.letIn, RateLimiter.setCall, length_cons]
    omega
  · show semaphore.members.Nodup
    rw [hmembers]
    exact h.once.erase n
  · change m ∈ semaphore.members at hm
    rw [hmembers, h.once.mem_erase_iff] at hm
    rw [hc m hm.1]
    exact h.members m hm.2
  · exact nodup_cons.2 ⟨hheld, h.heldOnce⟩
  · rcases mem_cons.1 hm with rfl | hm
    · exact hself
    · rw [hc m fun heq => hheld (heq ▸ hm)]
      exact h.held m hm
  · refine nodup_cons.2 ⟨fun hmem => ?_, h.returnsOnce⟩
    obtain ⟨r, hr, heq⟩ := mem_map.1 hmem
    exact hrets r hr heq
  · rcases mem_cons.1 hr with rfl | hr
    · exact .inl hself
    · rw [hc _ (hrets r hr)]
      exact h.returns r hr
  · right
    by_cases heq : stamp.call = n
    · rw [heq, hself]
      trivial
    · rw [hc _ heq]
      exact (h.stamped stamp hs).resolve_left fun hbut => heq (Option.some.inj hbut)
  · have heq : m ≠ n := by
      rintro rfl
      simp [hself] at hm
    exact (h.onTime hp).1 m ((hc m heq).symm.trans hm)
  · intro r hr
    rcases mem_cons.1 hr with rfl | hr
    · exact hs hp
    · exact (h.onTime hp).2 r hr
  · exact hrest
  · rcases mem_cons.1 hr with rfl | hr
    · exact hrest
    · exact h.paused r hr

theorem Inv.enqueue (h : s.Inv config (some n)) (hbefore : Before (s.calls n))
    (hs : 0 < config.maxRequestsPerMinute → ⟨n, s.clock⟩ ∈ s.stamped)
    (hrest : s.pauseUntil ≤ s.clock) :
    ({ s.setCall n .queued with semaphore := s.semaphore.enqueue n } : RateLimiter).Inv
      config none := by
  obtain ⟨hmembers, hheld, hrets, -⟩ := h.outside hbefore
  have hc : ∀ m, m ≠ n → update s.calls n Stage.queued m = s.calls m := fun m hm =>
    update_of_ne hm _ _
  refine ⟨h.slots, ?_, fun m hm => ?_, h.heldOnce, fun m hm => ?_, h.returnsOnce, fun r hr => ?_,
    h.window, h.kept, h.stampedPast, h.paced, fun stamp hs => ?_,
    fun hp => ⟨fun m hm => ?_, (h.onTime hp).2⟩, fun m hm => hrest, h.paused⟩
  · show (s.semaphore.enqueue n).members.Nodup
    rw [Semaphore.members_enqueue]
    refine nodup_append.2 ⟨h.once, by simp, fun a ha b hb hab => ?_⟩
    rw [mem_singleton.1 hb] at hab
    exact hmembers (hab ▸ ha)
  · change m ∈ (s.semaphore.enqueue n).members at hm
    rw [Semaphore.members_enqueue, mem_append, mem_singleton] at hm
    by_cases heq : m = n
    · subst heq
      exact update_self _ _ _
    · exact (hc m heq).trans (h.members m (hm.resolve_right heq))
  · exact (hc m fun heq => hheld (heq ▸ hm)).trans (h.held m hm)
  · show update s.calls n Stage.queued r.stamp.call = _ ∨
      update s.calls n Stage.queued r.stamp.call = _
    rw [hc _ (hrets r hr)]
    exact h.returns r hr
  · right
    show Passed (update s.calls n Stage.queued stamp.call)
    by_cases heq : stamp.call = n
    · rw [heq, update_self]
      trivial
    · rw [hc _ heq]
      exact (h.stamped stamp hs).resolve_left fun hbut => heq (Option.some.inj hbut)
  · by_cases heq : m = n
    · subst heq
      exact hs hp
    · exact (h.onTime hp).1 m ((hc m heq).symm.trans hm)

theorem Inv.enterSemaphore (h : s.Inv config (some n)) (hb : Before (s.calls n))
    (hs : 0 < config.maxRequestsPerMinute → ⟨n, s.clock⟩ ∈ s.stamped)
    (hrest : s.pauseUntil ≤ s.clock) : (s.enterSemaphore config n).Inv config none := by
  have hout := (h.outside hb).1
  unfold RateLimiter.enterSemaphore
  split
  next hzero =>
    exact h.letIn s.semaphore (.inl hb) (fun hmax => by omega)
      (erase_of_not_mem hout).symm hs hrest
  · split
    · exact h.enqueue hb hs hrest
    next hfree =>
      refine h.letIn _ (.inl hb) (fun _ => ?_) ?_ hs hrest
      · exact Semaphore.slots_take (Bool.eq_false_iff.2 hfree)
      · rw [Semaphore.members_take, erase_of_not_mem hout]

-- ==== the window

theorem Inv.window_unexpired (h : s.Inv config but) (cutoff : ℚ)
    (hcut : s.clock - rpmWindowSeconds ≤ cutoff) :
    (s.stamped.filter fun stamp => cutoff < stamp.time) =
      (s.unexpired.filter fun stamp => cutoff < stamp.time).reverse := by
  rw [h.window cutoff hcut, unexpired, filter_filter]
  congr 1
  refine filter_congr fun stamp _ => ?_
  by_cases hlt : cutoff < stamp.time
  · simp [lt_of_le_of_lt hcut hlt]
  · simp [hlt]

theorem Inv.prune (h : s.Inv config but) :
    ({ s with requestTimestamps := s.unexpired } : RateLimiter).Inv config but :=
  ⟨h.slots, h.once, h.members, h.heldOnce, h.held, h.returnsOnce, h.returns, h.window_unexpired,
    fun stamp hs => h.kept stamp (mem_of_mem_filter hs), h.stampedPast, h.paced,
    h.stamped, h.onTime, h.rested, h.paused⟩

theorem Inv.stamp (h : s.Inv config none)
    (hroom : s.unexpired.length < config.maxRequestsPerMinute) :
    (s.stamp n).Inv config (some n) := by
  refine ⟨h.slots, h.once, h.members, h.heldOnce, h.held, h.returnsOnce, h.returns,
    fun cutoff hcut => ?_, fun stamp hs => ?_, fun stamp hs => ?_, ?_,
    fun stamp hs => ?_, fun hp => ⟨fun m hm => ?_, fun r hr => ?_⟩, h.rested, h.paused⟩
  · simp only [RateLimiter.stamp, filter_append, filter_cons]
    rw [h.window_unexpired cutoff hcut]
    split <;> simp
  · rcases mem_append.1 hs with hold | hnew
    · exact mem_cons_of_mem _ (h.kept stamp (mem_of_mem_filter hold))
    · rw [mem_singleton.1 hnew]
      exact mem_cons_self
  · rcases mem_cons.1 hs with rfl | hold
    · exact le_rfl
    · exact h.stampedPast stamp hold
  · refine ⟨fun u hu => ?_, ?_, h.paced⟩
    · obtain ⟨stamp, hs, rfl⟩ := mem_map.1 hu
      exact h.stampedPast stamp hs
    · -- the earlier stamps in the window are the ones it keeps
      have hcnt := congrArg List.length (h.window_unexpired (s.clock - rpmWindowSeconds) le_rfl)
      rw [length_reverse] at hcnt
      have hmap : ((s.stamped.map TimeStamp.time).filter fun u =>
          s.clock - rpmWindowSeconds < u).length =
          (s.stamped.filter fun stamp => s.clock - rpmWindowSeconds < stamp.time).length := by
        rw [filter_map, length_map]
        rfl
      show ((s.stamped.map TimeStamp.time).filter fun u =>
        s.clock - rpmWindowSeconds < u).length < _
      rw [hmap, hcnt]
      exact lt_of_le_of_lt (length_filter_le _ _) hroom
  · rcases mem_cons.1 hs with rfl | hold
    · exact .inl rfl
    · exact .inr ((h.stamped stamp hold).resolve_left nofun)
  · exact mem_cons_of_mem _ ((h.onTime hp).1 m hm)
  · exact mem_cons_of_mem _ ((h.onTime hp).2 r hr)

theorem Inv.waitForRpmSlot (h : s.Inv config none) (hb : Before (s.calls n))
    (hrest : s.pauseUntil ≤ s.clock) : (s.waitForRpmSlot config n).Inv config none := by
  unfold RateLimiter.waitForRpmSlot
  split
  next hroom => exact (h.stamp hroom).enterSemaphore hb (fun _ => mem_cons_self) hrest
  · split
    · exact h.setCall hb nofun fun ⟨_, heq⟩ => nomatch heq
    · show Inv config none (if _ then _ else _)
      split
      · exact h.prune.setCall hb nofun fun ⟨_, heq⟩ => nomatch heq
      · exact h.prune.setCall hb nofun fun _ => hrest

theorem Inv.waitForPause (h : s.Inv config none) (hb : Before (s.calls n)) :
    (s.waitForPause config n).Inv config none := by
  unfold RateLimiter.waitForPause
  split
  · exact h.setCall hb nofun fun ⟨_, heq⟩ => nomatch heq
  next hp =>
    have hrest := le_of_not_gt hp
    split
    · exact h.waitForRpmSlot hb hrest
    next hr => exact (h.weaken n).enterSemaphore hb (fun hpos => absurd hpos hr) hrest

-- ==== the steps

section
variable (h : s.Inv config none)
include h

theorem Inv.acquire (hcall : s.calls n = .absent) : (s.acquire config n).Inv config none := by
  have hb : Before (s.calls n) := by
    rw [hcall]
    trivial
  unfold RateLimiter.acquire
  split
  next hfree =>
    exact (h.weaken n).letIn s.semaphore (.inl hb) (fun hmax => by omega)
      (erase_of_not_mem (h.outside hb).1).symm (fun hr => by omega) hfree.2.2
  · exact h.waitForPause hb

theorem Inv.wake : (s.wake config n).Inv config none := by
  unfold RateLimiter.wake
  split
  next hcall => exact h.waitForPause (by rw [hcall]; trivial)
  next wait hcall =>
    exact h.waitForRpmSlot (by rw [hcall]; trivial) (h.rested n (.inr ⟨wait, hcall⟩))
  next hcall =>
    split
    next hg =>
      exact (h.weaken n).letIn _ (.inr hcall) (fun _ => Semaphore.slots_resume hg)
        (Semaphore.members_resume hg) (fun hr => (h.onTime hr).1 n hcall)
        (h.rested n (.inl hcall))
    · exact h
  · exact h

theorem Inv.cancelQueued (hcall : s.calls n = .queued) (hk : config.maxRequestsPerMinute = 0) :
    ({ s.setCall n .cancelled with
      semaphore := if n ∈ s.semaphore.granted then s.semaphore.giveBack n
        else s.semaphore.leave n } : RateLimiter).Inv config none := by
  have hslots : (if n ∈ s.semaphore.granted then s.semaphore.giveBack n
      else s.semaphore.leave n).slots = s.semaphore.slots := by
    split
    next hg => exact Semaphore.slots_giveBack hg
    · exact Semaphore.slots_leave _ _
  have hmembers : (if n ∈ s.semaphore.granted then s.semaphore.giveBack n
      else s.semaphore.leave n).members = s.semaphore.members.erase n := by
    split
    next hg => exact Semaphore.members_giveBack hg
    next hg => exact Semaphore.members_leave hg
  have hc : ∀ m, m ≠ n → update s.calls n Stage.cancelled m = s.calls m :=
    fun m hm => update_of_ne hm _ _
  have hnone : s.stamped = [] := by
    cases hs : s.stamped with
    | nil => rfl
    | cons stamp rest =>
      have hp := h.paced
      rw [hs, hk] at hp
      exact absurd hp.2.1 (Nat.not_lt_zero _)
  refine ⟨fun hmax => ?_, ?_, fun m hm => ?_, h.heldOnce, fun m hm => ?_, h.returnsOnce,
    fun r hr => ?_, h.window, h.kept, h.stampedPast, h.paced, fun stamp hstamped => ?_,
    fun hpos => by omega, fun m hm => ?_, h.paused⟩
  · exact (congrArg (· + s.held.length) hslots).trans (h.slots hmax)
  · exact hmembers ▸ h.once.erase n
  · have hm' : m ∈ s.semaphore.members.erase n := hmembers ▸ hm
    rw [h.once.mem_erase_iff] at hm'
    exact (hc m hm'.1).trans (h.members m hm'.2)
  · refine (hc m fun heq => ?_).trans (h.held m hm)
    simp [← heq, h.held m hm] at hcall
  · have hne : r.stamp.call ≠ n := fun heq => by
      have hr' := h.returns r hr
      rw [heq, hcall] at hr'
      rcases hr' with hr' | hr' <;> cases hr'
    show update s.calls n Stage.cancelled r.stamp.call = _ ∨
      update s.calls n Stage.cancelled r.stamp.call = _
    rw [hc _ hne]
    exact h.returns r hr
  · have hstamped' : stamp ∈ s.stamped := hstamped
    simp [hnone] at hstamped'
  · refine h.rested m ?_
    have hm' : update s.calls n Stage.cancelled m = .queued ∨
        ∃ wait, update s.calls n Stage.cancelled m = .sleeping wait := hm
    by_cases heq : m = n
    · subst heq
      rw [update_self] at hm'
      rcases hm' with hm' | ⟨wait, hm'⟩ <;> cases hm'
    · rwa [hc m heq] at hm'

theorem Inv.cancel (hcare : Careful config s (.cancel n)) : (s.cancel n).Inv config none := by
  unfold RateLimiter.cancel
  split
  next hcall => exact h.setCall (by rw [hcall]; trivial) nofun fun ⟨_, heq⟩ => nomatch heq
  next wait hcall => exact h.setCall (by rw [hcall]; trivial) nofun fun ⟨_, heq⟩ => nomatch heq
  next hcall =>
    rcases hcare with hr | hnot
    · exact h.cancelQueued hcall hr
    · exact absurd hcall hnot
  · exact h

theorem Inv.release : (s.release config n).Inv config none := by
  unfold RateLimiter.release
  split
  next hheld =>
    have hcall := h.held n hheld
    have hc : ∀ m, m ≠ n → update s.calls n Stage.released m = s.calls m :=
      fun m hm => update_of_ne hm _ _
    have hmembers : (if config.maxConcurrent = 0 then s.semaphore
        else s.semaphore.release).members = s.semaphore.members := by
      split
      · rfl
      · exact Semaphore.members_release _
    refine ⟨fun hmax => ?_, ?_, fun m hm => ?_, h.heldOnce.erase n, fun m hm => ?_,
      h.returnsOnce, fun r hr => ?_, h.window, h.kept, h.stampedPast, h.paced,
      fun stamp hs => ?_, fun hp => ⟨fun m hm => ?_, (h.onTime hp).2⟩, fun m hm => ?_,
      h.paused⟩
    · have hpos := length_pos_of_mem hheld
      have hslots := h.slots hmax
      simp only [length_erase_of_mem hheld, if_neg (Nat.pos_iff_ne_zero.1 hmax)]
      rw [Semaphore.slots_release]
      omega
    · exact hmembers ▸ h.once
    · have hm' : m ∈ s.semaphore.members := hmembers ▸ hm
      refine (hc m fun heq => ?_).trans (h.members m hm')
      simp [← heq, h.members m hm'] at hcall
    · obtain ⟨hne, hm⟩ := h.heldOnce.mem_erase_iff.1 hm
      exact (hc m hne).trans (h.held m hm)
    · show update s.calls n Stage.released r.stamp.call = _ ∨
        update s.calls n Stage.released r.stamp.call = _
      by_cases heq : r.stamp.call = n
      · rw [heq, update_self]
        exact .inr rfl
      · rw [hc _ heq]
        exact h.returns r hr
    · right
      show Passed (update s.calls n Stage.released stamp.call)
      by_cases heq : stamp.call = n
      · rw [heq, update_self]
        trivial
      · rw [hc _ heq]
        exact (h.stamped stamp hs).resolve_left nofun
    · have hm' : update s.calls n Stage.released m = .queued := hm
      by_cases heq : m = n
      · subst heq
        simp [update_self] at hm'
      · exact (h.onTime hp).1 m ((hc m heq).symm.trans hm')
    · refine h.rested m ?_
      have hm' : update s.calls n Stage.released m = .queued ∨
          ∃ wait, update s.calls n Stage.released m = .sleeping wait := hm
      by_cases heq : m = n
      · subst heq
        rw [update_self] at hm'
        rcases hm' with hm' | ⟨wait, hm'⟩ <;> cases hm'
      · rwa [hc m heq] at hm'
  · exact h

theorem Inv.pause (hcare : seconds ≤ 0 ∨ ∀ n, ¬ s.Underway n) :
    (s.pause seconds).Inv config none := by
  unfold RateLimiter.pause
  split
  · exact h
  · split
    · refine ⟨h.slots, h.once, h.members, h.heldOnce, h.held, h.returnsOnce, h.returns, h.window,
        h.kept, h.stampedPast, h.paced, h.stamped, h.onTime, fun m hm => ?_, h.paused⟩
      rcases hcare with hzero | hnone
      · show s.clock + seconds ≤ s.clock
        linarith
      · exact absurd hm (hnone m)
    · exact h

theorem Inv.tick (hcare : Careful config s (.tick seconds)) :
    (RateLimiter.step config s (.tick seconds)).Inv config none := by
  simp only [RateLimiter.step]
  split
  · exact h
  next hf =>
    have hle : s.clock ≤ s.clock + seconds := by linarith
    refine ⟨h.slots, h.once, h.members, h.heldOnce, h.held, h.returnsOnce, h.returns,
      fun cutoff hcut => h.window cutoff ?_, h.kept,
      fun stamp hs => (h.stampedPast stamp hs).trans hle, h.paced, h.stamped,
      fun hr => ⟨fun m hm => ?_, (h.onTime hr).2⟩, fun m hm => (h.rested m hm).trans hle,
      h.paused⟩
    · linarith
    · rcases hcare with hzero | hnone | hnone
      · have heq : s.clock + seconds = s.clock := by linarith
        show (⟨m, s.clock + seconds⟩ : TimeStamp) ∈ s.stamped
        rw [heq]
        exact (h.onTime hr).1 m hm
      · omega
      · exact absurd hm (hnone m)

/-- STEP LEMMA. -/
theorem Inv.step {input : Input} (hcare : Careful config s input) :
    (RateLimiter.step config s input).Inv config none := by
  cases input with
  | acquire n =>
    simp only [RateLimiter.step]
    split
    next hcall => exact h.acquire hcall
    · exact h
  | wake n => exact h.wake
  | cancel n => exact h.cancel hcare
  | release n => exact h.release
  | pause seconds => exact h.pause hcare
  | endCall n retryAfter =>
    cases retryAfter with
    | none => exact h.release
    | some seconds => exact (h.pause hcare).release
  | tick seconds => exact h.tick hcare

end

-- ==== whole runs

/-- What the limits say of the calls that were let through. -/
structure Within (config : RateLimiterConfig) (s : RateLimiter) : Prop where
  minute : 0 < config.maxRequestsPerMinute → ∀ start : ℚ,
    (s.returns.filter fun r =>
      start ≤ r.stamp.time ∧ r.stamp.time < start + rpmWindowSeconds).length ≤
        config.maxRequestsPerMinute
  concurrent : 0 < config.maxConcurrent →
    s.semaphore.slots + s.held.length = config.maxConcurrent
  paused : ∀ r ∈ s.returns, r.pauseUntil ≤ r.stamp.time
  cancelled : ∀ n, s.calls n = .cancelled →
    n ∉ s.held ∧ n ∉ s.semaphore.members ∧ ∀ stamp ∈ s.requestTimestamps, stamp.call ≠ n

theorem Inv.returns_le (h : s.Inv config none) (hp : 0 < config.maxRequestsPerMinute)
    (stretch : ℚ → Bool) :
    (s.returns.filter fun r => stretch r.stamp.time).length ≤
      ((s.stamped.map TimeStamp.time).filter stretch).length := by
  have hn : (s.returns.map Return.stamp).Nodup := by
    have honce : ((s.returns.map Return.stamp).map TimeStamp.call).Nodup := by
      rw [map_map]
      exact h.returnsOnce
    exact honce.of_map TimeStamp.call
  have hsub : ((s.returns.map Return.stamp).filter fun stamp => stretch stamp.time) ⊆
      s.stamped.filter fun stamp => stretch stamp.time := by
    intro stamp hs
    obtain ⟨hmem, hin⟩ := mem_filter.1 hs
    obtain ⟨r, hr, rfl⟩ := mem_map.1 hmem
    exact mem_filter.2 ⟨(h.onTime hp).2 r hr, hin⟩
  have hle := (subperm_of_subset (hn.filter _) hsub).length_le
  rw [filter_map, length_map] at hle ⊢
  exact hle

theorem Inv.within (h : s.Inv config none) : s.Within config := by
  refine ⟨fun hr start => ?_, h.slots, h.paused, fun n hcall => ⟨fun hheld => ?_, fun hmem => ?_,
    fun stamp hs heq => ?_⟩⟩
  · exact (h.returns_le hr fun t => start ≤ t ∧ t < start + rpmWindowSeconds).trans
      (h.paced.length_le (Window.narrow_Ico _ _))
  · simp [h.held n hheld] at hcall
  · simp [h.members n hmem] at hcall
  · have hpass := (h.stamped stamp (h.kept stamp hs)).resolve_left nofun
    rw [heq, hcall] at hpass
    exact hpass

/-- In every state of a careful run the limiter is within its limits. -/
theorem admits_within_limits (config : RateLimiterConfig) (clock : ℚ) (inputs : List Input)
    (hcare : Run.Throughout (RateLimiter.step config) (Careful config) (new config clock) inputs) :
    ∀ s ∈ Run.states (RateLimiter.step config) (new config clock) inputs, s.Within config := by
  intro s hs
  refine (Run.throughout_states (P := Inv config none) (fun _ _ hok h => h.step hok) hcare ?_
    s hs).within
  refine ⟨fun _ => Nat.add_zero _, nodup_nil, nofun, nodup_nil,
    nofun, nodup_nil, nofun, fun _ _ => rfl,
    nofun, nofun, trivial, nofun,
    fun _ => ⟨nofun, nofun⟩, fun m hm => ?_,
    nofun⟩
  rcases hm with hm | ⟨wait, hm⟩ <;> cases hm

/-- One request a minute: the second call sleeps out its minute. -/
theorem admits_within_limits_two : (Run.final (RateLimiter.step ⟨1, 1⟩) (new ⟨1, 1⟩ 0)
      [.acquire 0, .acquire 1, .release 0, .tick 60, .wake 1]).Within ⟨1, 1⟩ := by
  refine admits_within_limits ⟨1, 1⟩ 0 [.acquire 0, .acquire 1, .release 0, .tick 60, .wake 1]
    ⟨trivial, trivial, trivial, Or.inr (Or.inr fun n => ?_), trivial, trivial⟩ _
    (Run.final_mem_states _ _ _)
  rcases n with _ | _ | n
  · decide +kernel
  · decide +kernel
  · norm_num [RateLimiter.step, RateLimiter.acquire, waitForPause, waitForRpmSlot,
      enterSemaphore, RateLimiter.setCall, RateLimiter.letIn, RateLimiter.stamp, unexpired, new,
      Semaphore.new, Semaphore.locked, rpmWindowSeconds]
    rintro ⟨⟩

/-- With one request a minute, two calls that queued return at the same moment, a pause does not
hold a queued call, and the request of a call cancelled there stays counted. -/
theorem admits_too_many : (1 < ((Run.final (RateLimiter.step ⟨1, 1⟩) (new ⟨1, 1⟩ 0)
        [.acquire 0, .tick 60, .acquire 1, .tick 60, .acquire 2, .tick 1, .release 0, .wake 1,
          .release 1, .wake 2]).returns.filter fun r =>
        121 ≤ r.stamp.time ∧ r.stamp.time < 121 + rpmWindowSeconds).length) ∧
      (∃ r ∈ (Run.final (RateLimiter.step ⟨0, 1⟩) (new ⟨0, 1⟩ 0)
          [.acquire 0, .acquire 1, .pause 10, .release 0, .wake 1]).returns,
        r.stamp.time < r.pauseUntil) ∧
      ∃ stamp ∈ (Run.final (RateLimiter.step ⟨1, 1⟩) (new ⟨1, 1⟩ 0)
          [.acquire 0, .tick 60, .acquire 1, .cancel 1]).requestTimestamps, stamp.call = 1 := by
  refine ⟨by decide +kernel, by decide +kernel, by decide +kernel⟩

end RateLimiter

end Synthorg.Providers
