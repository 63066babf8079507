/-
Two limiters that count the events of a key inside a sliding window
(core/resilience/sliding_window.py, api/rate_limits/in_memory.py).

Both forget: one drops what its fixed window has left behind, the other what
the largest window a bucket has seen has left behind, and its sweep drops whole
buckets with the window they had seen. Beside each stands what really happened,
which nothing forgets.

A decision, a release and the work of a sweep run without an `await` under
their locks, so each is one step here, in any order; a call that is cancelled
either has decided or does nothing.
-/
import Synthorg.Lib.Run
import Synthorg.Lib.Window
import Mathlib.Tactic.Linarith

namespace Synthorg.SlidingWindow

open Lib Lib.Window
open Function (update update_self update_of_ne update_apply)
open List

variable {κ : Type*} [DecidableEq κ] {α : Type*} {time : α → ℚ} {window clock bound now : ℚ}
  {log kept : List α}

-- ==== SlidingWindowEventLimiter

structure Entry where
  handle : Nat
  time : ℚ
  deriving DecidableEq

/-- The handles minted so far are the numbers below `minted`. -/
structure Limiter (κ : Type*) where
  events : κ → Option (List Entry)
  minted : Nat

def within {α : Type*} (time : α → ℚ) (window now : ℚ) (log : List α) : List α :=
  log.filter fun entry => now - window < time entry ∧ time entry ≤ now

theorem within_eq (h : Kept time clock bound log kept) (hnow : clock ≤ now) :
    within time window now log = since time (now - window) log := by
  refine filter_congr fun entry he => ?_
  simp [(h.past entry he).trans hnow]

theorem within_kept (h : Kept time clock bound log kept) (hb : bound ≤ now - window) :
    within time window now kept = within time window now log := by
  obtain ⟨cutoff, hle, rfl⟩ := h.cut
  rw [within, since, filter_filter]
  refine filter_congr fun entry _ => ?_
  rw [Bool.eq_iff_iff, Bool.and_eq_true, decide_eq_true_eq, decide_eq_true_eq]
  exact and_iff_left_of_imp fun hin => hle.trans_lt (hb.trans_lt hin.1)

namespace Limiter

def entries (l : Limiter κ) (key : κ) : List Entry := (l.events key).getD []

/-- The key's latest admission lies outside the window. -/
def stale (l : Limiter κ) (cutoff : ℚ) (key : κ) : Bool :=
  (l.entries key).getLast?.all (·.time ≤ cutoff)

/-- The answer is the admission's handle, `none` where the window is saturated. -/
def take (window : ℚ) (maxEvents : Nat) (l : Limiter κ) (key : κ) (now : ℚ) :
    Limiter κ × Option Nat :=
  let cutoff := now - window
  let events := fun k => if k ≠ key ∧ l.stale cutoff k then none else l.events k
  let entries := since Entry.time cutoff (l.entries key)
  if maxEvents ≤ entries.length then ({ l with events := update events key (some entries) }, none)
  else
    ({ events := update events key (some (entries ++ [⟨l.minted, now⟩]))
       minted := l.minted + 1 }, some l.minted)

def release (l : Limiter κ) (key : κ) (handle : Nat) : Limiter κ :=
  if l.entries key = [] then l
  else
    let remaining := (l.entries key).filter (·.handle ≠ handle)
    { l with events := update l.events key (if remaining.isEmpty then none else some remaining) }

end Limiter

inductive Call (κ : Type*)
  | take (key : κ) (now : ℚ)
  | release (key : κ) (handle : Nat)

def Call.key : Call κ → κ
  | .take key _ | .release key _ => key

structure Takes (κ : Type*) where
  limiter : Limiter κ
  admitted : κ → List Entry
  clock : ℚ

namespace Takes

def new (clock : ℚ) : Takes κ := ⟨⟨fun _ => none, 0⟩, fun _ => [], clock⟩

def step (window : ℚ) (maxEvents : Nat) (s : Takes κ) : Call κ → Takes κ
  | .take key now =>
    let (limiter, handle) := s.limiter.take window maxEvents key now
    let admission := handle.toList.map fun handle => ⟨handle, now⟩
    ⟨limiter, update s.admitted key (s.admitted key ++ admission), now⟩
  | .release key handle =>
    { s with
      limiter := s.limiter.release key handle
      admitted := update s.admitted key ((s.admitted key).filter (·.handle ≠ handle)) }

/-- The clock never goes back. -/
def Timely (s : Takes κ) : Call κ → Prop
  | .take _ now => s.clock ≤ now
  | .release .. => True

def count (window : ℚ) (s : Takes κ) (key : κ) (now : ℚ) : Nat :=
  (within Entry.time window now (s.admitted key)).length

/-- What is promised of the limiter at a moment of a run. -/
structure Exact (window : ℚ) (maxEvents : Nat) (s : Takes κ) : Prop where
  bounded : ∀ key now, s.clock ≤ now → s.count window key now ≤ maxEvents
  refused : ∀ key now, s.clock ≤ now →
    ((s.limiter.take window maxEvents key now).2 = none ↔ s.count window key now = maxEvents)
  counted : ∀ key now, s.clock ≤ now →
    within Entry.time window now (s.limiter.entries key) =
      within Entry.time window now (s.admitted key)
  others : ∀ call key now, s.Timely call → key ≠ call.key →
    (s.step window maxEvents call).clock ≤ now →
    within Entry.time window now ((s.step window maxEvents call).limiter.entries key) =
      within Entry.time window now (s.limiter.entries key)
  released : ∀ key handle now,
    within Entry.time window now ((s.limiter.release key handle).entries key) =
      (within Entry.time window now (s.limiter.entries key)).filter (·.handle ≠ handle)

-- ==== the invariant

/-- THE INVARIANT, of one key: nothing inside the window is dropped. -/
structure Inv (window : ℚ) (maxEvents : Nat) (clock : ℚ) (admitted entries : List Entry) :
    Prop where
  kept : Kept Entry.time clock (clock - window) admitted entries
  room : (since Entry.time (clock - window) admitted).length ≤ maxEvents

variable {window clock now : ℚ} {maxEvents : Nat} {entries admitted : List Entry} {s : Takes κ}
  {l : Limiter κ} {key key' : κ} {call : Call κ}

section
variable (h : Inv window maxEvents clock admitted entries)
include h

theorem Inv.room_later (hnow : clock ≤ now) :
    (since Entry.time (now - window) admitted).length ≤ maxEvents := by
  have hmax : max (now - window) (clock - window) = now - window :=
    max_eq_left (sub_le_sub_right hnow _)
  rw [← hmax, ← since_since]
  exact (length_filter_le _ _).trans h.room

theorem Inv.later (hnow : clock ≤ now) : Inv window maxEvents now admitted entries :=
  ⟨h.kept.later hnow (sub_le_sub_right hnow _), h.room_later hnow⟩

theorem Inv.prune :
    Inv window maxEvents clock admitted (since Entry.time (clock - window) entries) :=
  ⟨h.kept.prune le_rfl, h.room⟩

end

theorem Inv.taken (h : Inv window maxEvents now admitted entries) (hwin : 0 < window)
    (hroom : (since Entry.time (now - window) entries).length < maxEvents) (handle : Nat) :
    Inv window maxEvents now (admitted ++ [⟨handle, now⟩])
      (since Entry.time (now - window) entries ++ [⟨handle, now⟩]) := by
  refine ⟨h.prune.kept.snoc rfl (sub_lt_self _ hwin), ?_⟩
  rw [since_append, length_append, ← h.kept.since_eq le_rfl]
  exact (Nat.add_le_add_left (length_filter_le _ [_]) _).trans hroom

theorem Inv.release (h : Inv window maxEvents clock admitted entries) (handle : Nat) :
    Inv window maxEvents clock (admitted.filter (·.handle ≠ handle))
      (entries.filter (·.handle ≠ handle)) := by
  refine ⟨h.kept.filter _, le_trans ?_ h.room⟩
  exact (filter_sublist.filter _).length_le

-- ==== what a call does

theorem entries_release (handle : Nat) : (l.release key handle).entries key' =
    if key' = key then (l.entries key).filter (·.handle ≠ handle) else l.entries key' := by
  by_cases hkey : key' = key
  · subst hkey
    cases hnil : l.entries key' with
    | nil => simp [Limiter.release, hnil]
    | cons => cases hr : (l.entries key').filter (·.handle ≠ handle) <;>
      simp_all [Limiter.release, Limiter.entries]
  · rw [Limiter.release, if_neg hkey]
    split
    next => rfl
    next => simp only [Limiter.entries, update_of_ne hkey]

theorem entries_take_other (hkey : key' ≠ key) (now : ℚ) :
    (l.take window maxEvents key now).1.entries key' =
      if l.stale (now - window) key' then [] else l.entries key' := by
  by_cases hs : l.stale (now - window) key' = true <;> rw [Limiter.take] <;> split <;>
    simp [Limiter.entries, hkey, hs]

theorem take_self (window : ℚ) (maxEvents : Nat) (l : Limiter κ) (key : κ) (now : ℚ) :
    let entries := since Entry.time (now - window) (l.entries key)
    (maxEvents ≤ entries.length ∧ (l.take window maxEvents key now).2 = none ∧
      (l.take window maxEvents key now).1.entries key = entries) ∨
    (entries.length < maxEvents ∧ (l.take window maxEvents key now).2 = some l.minted ∧
      (l.take window maxEvents key now).1.entries key = entries ++ [⟨l.minted, now⟩]) := by
  by_cases hfull : maxEvents ≤ (since Entry.time (now - window) (l.entries key)).length
  · rw [Limiter.take, if_pos hfull]
    exact .inl ⟨hfull, rfl, by simp only [Limiter.entries, update_self, Option.getD_some]⟩
  · rw [Limiter.take, if_neg hfull]
    exact .inr ⟨not_le.1 hfull, rfl,
      by simp only [Limiter.entries, update_self, Option.getD_some]⟩

def Sound (window : ℚ) (maxEvents : Nat) (s : Takes κ) : Prop :=
  ∀ key, Inv window maxEvents s.clock (s.admitted key) (s.limiter.entries key)

/-- STEP LEMMA. -/
theorem Sound.step (h : Sound window maxEvents s) (hwin : 0 < window) (htime : s.Timely call) :
    Sound window maxEvents (s.step window maxEvents call) := by
  intro key
  cases call with
  | take own now =>
    have hl := (h key).later htime
    by_cases hkey : key = own
    · subst hkey
      rcases take_self window maxEvents s.limiter key now with
        ⟨-, ha, he⟩ | ⟨hroom, ha, he⟩
      · simp only [Takes.step, ha, he, update_self, Option.toList_none, map_nil, append_nil]
        exact hl.prune
      · simp only [Takes.step, ha, he, update_self, Option.toList_some, map_singleton]
        exact hl.taken hwin hroom _
    · simp only [Takes.step, update_of_ne hkey, entries_take_other hkey]
      split
      next hs => exact hl.kept.inOrder.since_eq_nil hs ▸ hl.prune
      next => exact hl
  | release own handle =>
    simp only [Takes.step, entries_release, update_apply]
    split
    next hkey => exact hkey ▸ (h key).release handle
    next => exact h key

omit [DecidableEq κ] in
theorem Sound.counted (h : Sound window maxEvents s) (key : κ) (hnow : s.clock ≤ now) :
    within Entry.time window now (s.limiter.entries key) =
      within Entry.time window now (s.admitted key) :=
  within_kept (h key).kept (sub_le_sub_right hnow _)

theorem Sound.exact (hwin : 0 < window) (h : Sound window maxEvents s) :
    Exact window maxEvents s where
  bounded := fun key now hnow => by
    rw [count, within_eq (h key).kept hnow]
    exact (h key).room_later hnow
  refused := fun key now hnow => by
    have hl := (h key).later hnow
    have hroom := hl.room
    rw [count, within_eq (h key).kept hnow]
    rw [← hl.kept.since_eq le_rfl] at hroom ⊢
    rcases take_self window maxEvents s.limiter key now with ⟨hfull, ha, -⟩ | ⟨hfew, ha, -⟩
    · exact iff_of_true ha (Nat.le_antisymm hroom hfull)
    · rw [ha]
      exact iff_of_false nofun hfew.ne
  counted := fun key now hnow => h.counted key hnow
  others := fun call key now htime hkey hnow => by
    have hc : s.clock ≤ (s.step window maxEvents call).clock := by
      cases call with
      | take => exact htime
      | release => exact le_rfl
    rw [(h.step hwin htime).counted key hnow, h.counted key (hc.trans hnow)]
    cases call <;> exact congrArg _ (update_of_ne hkey _ _)
  released := fun key handle now => by
    rw [entries_release, if_pos rfl]
    simp only [within, filter_filter, Bool.and_comm]

end Takes

-- ==== InMemorySlidingWindowStore

def minGcHorizonSeconds : Nat := 60

structure Bucket where
  timestamps : List ℚ
  windowSeconds : Nat

structure Outcome where
  allowed : Bool
  retryAfterSeconds : Option ℚ
  remaining : Nat

namespace Bucket

def new : Bucket := ⟨[], minGcHorizonSeconds⟩

def apply (bucket : Bucket) (now : ℚ) (maxRequests windowSeconds : Nat) : Bucket × Outcome :=
  let largest := max bucket.windowSeconds windowSeconds
  let timestamps := bucket.timestamps.dropWhile fun ts => ts ≤ now - largest
  let inWindow := timestamps.reverse.takeWhile fun ts => now - windowSeconds < ts
  match inWindow.getLast?.filter fun _ => maxRequests ≤ inWindow.length with
  | some oldest =>
    (⟨timestamps, largest⟩, ⟨false, some (max (oldest + windowSeconds - now) (1 / 1000)), 0⟩)
  | none =>
    (⟨timestamps ++ [now], largest⟩, ⟨true, none, maxRequests - inWindow.length - 1⟩)

def cold (bucket : Bucket) (now : ℚ) : Bool :=
  let horizon := max (bucket.windowSeconds * 2) minGcHorizonSeconds
  bucket.timestamps.getLast?.all (· ≤ now - horizon)

end Bucket

inductive Event (κ : Type*)
  /-- An `acquire` decides. -/
  | acquire (key : κ) (maxRequests windowSeconds : Nat) (now : ℚ)
  /-- `_gc_cold_buckets`. -/
  | sweep (now : ℚ)

structure Store (κ : Type*) where
  buckets : κ → Option Bucket
  allowed : κ → List ℚ
  clock : ℚ

namespace Store

def new (clock : ℚ) : Store κ := ⟨fun _ => none, fun _ => [], clock⟩

def bucket (s : Store κ) (key : κ) : Bucket := (s.buckets key).getD .new

def answer (s : Store κ) (key : κ) (maxRequests windowSeconds : Nat) (now : ℚ) : Outcome :=
  ((s.bucket key).apply now maxRequests windowSeconds).2

def step (s : Store κ) : Event κ → Store κ
  | .acquire key maxRequests windowSeconds now =>
    let (bucket, outcome) := (s.bucket key).apply now maxRequests windowSeconds
    { buckets := update s.buckets key (some bucket)
      allowed := update s.allowed key
        (s.allowed key ++ if outcome.allowed then [now] else [])
      clock := now }
  | .sweep now =>
    { s with
      buckets := fun key => (s.buckets key).filter fun bucket => !bucket.cold now
      clock := now }

-- ==== the condition

/-- No step has pruned or swept what lies in the window. -/
abbrev Remembered (s : Store κ) (key : κ) (window now : ℚ) : Prop :=
  ∀ ts ∈ s.allowed key, now - window < ts → ts ∈ (s.bucket key).timestamps

/-- Fewer than `maxRequests` in the window came after the oldest there. -/
abbrev Unlowered (s : Store κ) (key : κ) (maxRequests : Nat) (window now : ℚ) : Prop :=
  ∀ oldest ∈ (within id window now (s.allowed key)).head?,
    ((within id window now (s.allowed key)).filter (oldest < ·)).length < maxRequests

/-- The limits are positive and the clock does not go back, as the store may
expect; and it has not forgotten what this decision is about. -/
def Meets (s : Store κ) : Event κ → Prop
  | .acquire key maxRequests windowSeconds now =>
    (s.clock ≤ now ∧ 0 < maxRequests ∧ 0 < windowSeconds) ∧
      s.Remembered key windowSeconds now ∧ s.Unlowered key maxRequests windowSeconds now
  | .sweep now => s.clock ≤ now

instance (s : Store κ) : DecidablePred s.Meets
  | .acquire key maxRequests windowSeconds now =>
    inferInstanceAs (Decidable ((s.clock ≤ now ∧ 0 < maxRequests ∧ 0 < windowSeconds) ∧
      s.Remembered key windowSeconds now ∧ s.Unlowered key maxRequests windowSeconds now))
  | .sweep now => inferInstanceAs (Decidable (s.clock ≤ now))

structure Promise (s : Store κ) (key : κ) (maxRequests windowSeconds : Nat) (now : ℚ)
    (after : List (Event κ)) : Prop where
  decided : (s.answer key maxRequests windowSeconds now).allowed = true ↔
    (within id windowSeconds now (s.allowed key)).length < maxRequests
  retried : ∀ retry ∈ (s.answer key maxRequests windowSeconds now).retryAfterSeconds,
    ∀ between now' rest, after = between ++ .acquire key maxRequests windowSeconds now' :: rest →
      let s' := Run.final step (s.step (.acquire key maxRequests windowSeconds now)) between
      now + retry ≤ now' → s'.allowed key = s.allowed key →
        (s'.answer key maxRequests windowSeconds now').allowed = true

variable {s : Store κ} {key : κ} {clock now : ℚ} {maxRequests windowSeconds : Nat}
  {event : Event κ}

-- ==== what an event does

/-- What a decision does, with the loops of `apply` read as filters. -/
theorem apply_spec (windowSeconds : Nat) (now : ℚ) {bucket : Bucket}
    (hord : InOrder id bucket.timestamps) (hpos : 0 < maxRequests) :
    let largest := max bucket.windowSeconds windowSeconds
    let timestamps := since id (now - largest) bucket.timestamps
    let inWindow := since id (now - windowSeconds) timestamps
    (maxRequests ≤ inWindow.length ∧ ∃ oldest ∈ inWindow.head?,
      bucket.apply now maxRequests windowSeconds = (⟨timestamps, largest⟩,
        ⟨false, some (max (oldest + windowSeconds - now) (1 / 1000)), 0⟩)) ∨
    (inWindow.length < maxRequests ∧ bucket.apply now maxRequests windowSeconds =
      (⟨timestamps ++ [now], largest⟩, ⟨true, none, maxRequests - inWindow.length - 1⟩)) := by
  intro largest timestamps inWindow
  have hdrop : bucket.timestamps.dropWhile (fun ts => ts ≤ now - largest) = timestamps :=
    hord.dropWhile_eq
  have htake : timestamps.reverse.takeWhile (fun ts => now - windowSeconds < ts) =
      inWindow.reverse := InOrder.takeWhile_reverse_eq (hord.sublist filter_sublist)
  have happly : bucket.apply now maxRequests windowSeconds =
      match inWindow.head?.filter fun _ => maxRequests ≤ inWindow.length with
      | some oldest => (⟨timestamps, largest⟩,
          ⟨false, some (max (oldest + windowSeconds - now) (1 / 1000)), 0⟩)
      | none =>
        (⟨timestamps ++ [now], largest⟩, ⟨true, none, maxRequests - inWindow.length - 1⟩) := by
    rw [Bucket.apply]
    simp only [hdrop, htake, getLast?_reverse, length_reverse, largest]
  rw [happly]
  by_cases hfull : maxRequests ≤ inWindow.length
  · obtain ⟨oldest, hold⟩ := Option.isSome_iff_exists.1
      (isSome_head?.2 (ne_nil_of_length_pos (hpos.trans_le hfull)))
    exact .inl ⟨hfull, oldest, hold, by simp [hold, hfull, Option.filter]⟩
  · refine .inr ⟨not_le.1 hfull, ?_⟩
    cases inWindow.head? <;> simp [hfull]

theorem bucket_acquire (key' : κ) :
    (s.step (.acquire key maxRequests windowSeconds now)).bucket key' =
      if key' = key then ((s.bucket key).apply now maxRequests windowSeconds).1
      else s.bucket key' := by
  simp only [bucket, step, update_apply]
  split <;> rfl

theorem bucket_sweep (key : κ) : (s.step (.sweep now)).bucket key =
    if (s.bucket key).cold now then .new else s.bucket key := by
  simp only [bucket, step]
  obtain hnone | ⟨bucket, hsome⟩ := (s.buckets key).eq_none_or_eq_some
  · simp [hnone]
  · cases hcold : bucket.cold now <;> simp [hsome, hcold, Option.filter]

/-- THE INVARIANT: a bucket holds what came after some moment, and has forgotten
nothing of the last sixty seconds. -/
def Sound (s : Store κ) : Prop :=
  ∀ key, minGcHorizonSeconds ≤ (s.bucket key).windowSeconds ∧
    Kept id s.clock (s.clock - minGcHorizonSeconds) (s.allowed key) (s.bucket key).timestamps

/-- STEP LEMMA. -/
theorem Sound.step (h : Sound s) (hmeets : s.Meets event) : Sound (s.step event) := by
  intro key
  cases event with
  | acquire own maxRequests windowSeconds now =>
    obtain ⟨⟨hnow, hpos, -⟩, -, -⟩ := hmeets
    have hl := (h key).2.later hnow (sub_le_sub_right hnow _)
    rw [bucket_acquire]
    simp only [Store.step, update_apply]
    split
    next hown =>
      subst hown
      have hwide := le_max_of_le_left (c := windowSeconds) (h key).1
      have hp := hl.prune (sub_le_sub_left (Nat.cast_le.2 hwide) _)
      rcases apply_spec windowSeconds now hl.inOrder hpos with
        ⟨-, _, -, happly⟩ | ⟨-, happly⟩
      · simpa only [happly, Bool.false_eq_true, if_false, append_nil] using ⟨hwide, hp⟩
      · simp only [happly, if_true]
        exact ⟨hwide, hp.snoc rfl (sub_lt_self _ (by norm_num [minGcHorizonSeconds]))⟩
    next => exact ⟨(h key).1, hl⟩
  | sweep now =>
    have hl := (h key).2.later hmeets (sub_le_sub_right hmeets _)
    rw [bucket_sweep]
    split
    next hcold =>
      rw [Bucket.cold] at hcold
      refine ⟨le_rfl, ?_⟩
      have hp := hl.prune (sub_le_sub_left (Nat.cast_le.2 (le_max_right
        ((s.bucket key).windowSeconds * 2) _)) _)
      rwa [hl.inOrder.since_eq_nil hcold] at hp
    next => exact ⟨(h key).1, hl⟩

section
variable (h : Sound s)
  (hmeets : s.Meets (.acquire key maxRequests windowSeconds now))
omit [DecidableEq κ]
include h hmeets

theorem Sound.inWindow_eq : since id (now - windowSeconds) (since id
      (now - (max (s.bucket key).windowSeconds windowSeconds : Nat)) (s.bucket key).timestamps) =
      within id windowSeconds now (s.allowed key) := by
  obtain ⟨⟨hnow, -, -⟩, hr, -⟩ := hmeets
  have hcut : now - (max (s.bucket key).windowSeconds windowSeconds : Nat) ≤
      now - windowSeconds :=
    sub_le_sub_left (Nat.cast_le.2 (le_max_right _ _)) _
  rw [since_since, max_eq_left hcut, within_eq (h key).2 hnow]
  obtain ⟨cutoff, -, hts⟩ := (h key).2.cut
  rw [Remembered, hts] at hr
  rw [hts]
  rw [since_since]
  refine filter_congr fun ts hin => decide_eq_decide.2 ⟨fun hlt => (max_lt_iff.1 hlt).1, ?_⟩
  exact fun hlt => max_lt hlt (by simpa using of_mem_filter (hr ts hin hlt))

theorem Sound.decided : (s.answer key maxRequests windowSeconds now).allowed = true ↔
      (within id windowSeconds now (s.allowed key)).length < maxRequests := by
  rw [← h.inWindow_eq hmeets, answer]
  rcases apply_spec windowSeconds now (h key).2.inOrder hmeets.1.2.1 with
    ⟨hfull, _, -, happly⟩ | ⟨hroom, happly⟩
  · rw [happly]
    exact iff_of_false Bool.false_ne_true (not_lt.2 hfull)
  · rw [happly]
    exact iff_of_true rfl hroom

theorem Sound.room {retry later : ℚ}
    (hretry : (s.answer key maxRequests windowSeconds now).retryAfterSeconds = some retry)
    (hl : now + retry ≤ later) :
    (within id windowSeconds later (s.allowed key)).length < maxRequests := by
  have hwin := h.inWindow_eq hmeets
  rcases apply_spec windowSeconds now (h key).2.inOrder hmeets.1.2.1 with
    ⟨-, oldest, hold, happly⟩ | ⟨-, happly⟩ <;> rw [answer, happly] at hretry
  · rw [hwin] at hold
    rw [← Option.some.inj hretry, ← max_add_add_left, max_le_iff] at hl
    have hgone : oldest ≤ later - windowSeconds := by linarith [hl.1]
    have hnow : now ≤ later := by linarith [hl.2]
    refine lt_of_le_of_lt ?_ (hmeets.2.2 oldest hold)
    rw [within_eq (h key).2 hmeets.1.1, within_eq (h key).2 (hmeets.1.1.trans hnow)]
    refine Sublist.length_le ?_
    have hmax : max (later - windowSeconds) (now - windowSeconds) = later - windowSeconds :=
      max_eq_left (sub_le_sub_right hnow _)
    rw [← hmax, ← since_since]
    refine monotone_filter_right _ fun ts hts => ?_
    rw [decide_eq_true_eq] at hts ⊢
    exact hgone.trans_lt hts
  · cases hretry

end

theorem store_exact (clock : ℚ) {before after : List (Event κ)}
    (hmeets : Run.Throughout step Meets (new clock)
      (before ++ .acquire key maxRequests windowSeconds now :: after)) :
    (Run.final step (new clock) before).Promise key maxRequests windowSeconds now after := by
  have hsnd := Run.throughout_states (fun _ _ hmeets hsnd => Sound.step hsnd hmeets) hmeets
    fun _ => ⟨le_rfl, Kept.nil⟩
  have hb := hsnd _ ((Run.mem_states_iff ..).2 ⟨before, _, rfl, rfl⟩)
  obtain ⟨hown, hrest⟩ := Run.throughout_append hmeets
  refine ⟨hb.decided hown, fun retry hretry between now' rest ha => ?_⟩
  subst ha
  intro s' hl hsame
  have hlast : s' ∈ Run.states step (new clock) (before ++
      .acquire key maxRequests windowSeconds now ::
        (between ++ .acquire key maxRequests windowSeconds now' :: rest)) := by
    refine (Run.mem_states_iff ..).2 ⟨before ++ .acquire key maxRequests windowSeconds now ::
      between, _, by rw [append_assoc, cons_append], ?_⟩
    rw [Run.final_append, Run.final_cons]
  rw [(hsnd s' hlast).decided (Run.throughout_append hrest).1, hsame]
  exact hb.room hown hretry hl

theorem store_exact_onceInSixty :
    (Run.final step (new 0) [.acquire () 1 60 0]).Promise () 1 60 30
      [.sweep 40, .acquire () 1 60 60] := by
  exact store_exact 0 ⟨by decide +kernel, by decide +kernel, by decide +kernel,
    by decide +kernel, trivial⟩

/-- A larger window asks about what a smaller one pruned. -/
def widened : List (Event Unit) := [.acquire () 1 60 0, .acquire () 1 60 100]

/-- Three were allowed where now only one may be. -/
def lowered : List (Event Unit) := [.acquire () 3 60 0, .acquire () 3 60 1, .acquire () 3 60 2]

theorem store_forgets : ¬ (Run.final step (new 0) widened).Promise () 2 3600 101 [] ∧
    ¬ (Run.final step (new 0) lowered).Promise () 1 60 3 [.acquire () 1 60 60] := by
  constructor
  · intro h
    have hfew := h.decided.1 (by decide +kernel)
    revert hfew
    decide +kernel
  · intro h
    have hl := h.retried 57 (by decide +kernel) [] 60 [] rfl (by norm_num) (by decide +kernel)
    revert hl
    decide +kernel

end Store
end Synthorg.SlidingWindow
