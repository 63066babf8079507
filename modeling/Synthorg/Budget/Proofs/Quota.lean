/-
Quotas by the calendar (budget/quota.py, budget/quota_tracker.py).

A moment is read by its fields, and `stamp` puts the fields in one number, so
that the order of moments is arithmetic. A window is the moments between two
starts (`windowStart_of_within`); the counters of a window are what was used
since its start, once the stored start is compared with the reader's
(`counted_eq`).
-/
import Mathlib.Algebra.BigOperators.Group.List.Basic
import Mathlib.Tactic.IntervalCases
import Synthorg.Core.Validation
import Synthorg.Lib.Keyed
import Synthorg.Lib.Run

namespace Synthorg.Budget

open Synthorg.Core Lib
open List

-- ==== the calendar

/-- A `datetime` in UTC; the time of day is its microseconds, 86400000000 a day. -/
structure Moment where
  year : Nat
  month : Nat
  day : Nat
  time : Nat
  month_ok : 1 ≤ month ∧ month ≤ 12
  day_ok : 1 ≤ day ∧ day ≤ daysInMonth year month
  time_lt : time < 86400000000
  deriving DecidableEq

theorem daysInMonth_bounds {y m : Nat} (h : 1 ≤ m ∧ m ≤ 12) :
    28 ≤ daysInMonth y m ∧ daysInMonth y m ≤ 31 := by
  obtain ⟨hle, hle'⟩ := h
  interval_cases m <;> simp only [daysInMonth] <;> first | omega | (split <;> omega)

namespace Moment

/-! The fields as one number, from the year down: moments are compared field by field. -/

def months (t : Moment) : Nat := t.year * 13 + t.month

def days (t : Moment) : Nat := t.months * 32 + t.day

def stamp (t : Moment) : Nat := t.days * 86400000000 + t.time

instance : LE Moment := ⟨fun t u => t.stamp ≤ u.stamp⟩

instance : LT Moment := ⟨fun t u => t.stamp < u.stamp⟩

instance (t u : Moment) : Decidable (t ≤ u) := inferInstanceAs (Decidable (t.stamp ≤ u.stamp))

variable {t u : Moment}

theorem day_lt (t : Moment) : t.day < 32 :=
  t.day_ok.2.trans_lt (Nat.lt_succ_of_le (daysInMonth_bounds t.month_ok).2)

theorem days_mono (h : t ≤ u) : t.days ≤ u.days := by
  have hs : t.stamp ≤ u.stamp := h
  have htime := u.time_lt
  unfold stamp at hs
  omega

theorem months_mono (h : t.days ≤ u.days) : t.months ≤ u.months := by
  have hday := u.day_lt
  unfold days at h
  omega

theorem date_of_months (h : t.months = u.months) : t.year = u.year ∧ t.month = u.month := by
  have hm := t.month_ok
  have hm' := u.month_ok
  unfold months at h
  omega

theorem stamp_inj (h : t.stamp = u.stamp) : t = u := by
  have hdays : t.days = u.days :=
    Nat.le_antisymm (days_mono (Nat.le_of_eq h)) (days_mono (Nat.le_of_eq h.symm))
  have hm : t.months = u.months := Nat.le_antisymm (months_mono hdays.le) (months_mono hdays.ge)
  have hdate := date_of_months hm
  have hday : t.day = u.day := by
    unfold days at hdays
    omega
  have htime : t.time = u.time := by
    unfold stamp at h
    omega
  cases t
  simp_all

theorem le_antisymm (h : t ≤ u) (h' : u ≤ t) : t = u :=
  stamp_inj (Nat.le_antisymm h h')

def firstOf (year month : Nat) (h : 1 ≤ month ∧ month ≤ 12) : Moment where
  year := year
  month := month
  day := 1
  time := 0
  month_ok := h
  day_ok := ⟨Nat.le_refl 1, Nat.le_trans (by decide) (daysInMonth_bounds h).1⟩
  time_lt := by decide

end Moment

inductive QuotaWindow where
  | perMinute
  | perHour
  | perDay
  | perMonth
  deriving DecidableEq

open Moment

def truncated (unit : Nat) (now : Moment) : Moment :=
  { now with
    time := now.time / unit * unit
    time_lt := (Nat.div_mul_le_self _ _).trans_lt now.time_lt }

def windowStart (window : QuotaWindow) (now : Moment) : Moment :=
  match window with
  | .perMinute => truncated 60000000 now
  | .perHour => truncated 3600000000 now
  | .perDay => truncated 86400000000 now
  | .perMonth => firstOf now.year now.month now.month_ok

/-- `start.replace(year=..., month=...)` of a first: the first of the next month. -/
def nextMonth (start : Moment) : Moment :=
  firstOf (start.year + if start.month = 12 then 1 else 0) (start.month % 12 + 1)
    ⟨Nat.le_add_left 1 _, Nat.succ_le_of_lt (Nat.mod_lt _ (by decide))⟩

def nextDay (start : Moment) : Moment :=
  if h : start.day + 1 ≤ daysInMonth start.year start.month then
    { start with
      day := start.day + 1
      time := 0
      day_ok := ⟨Nat.le_add_left 1 _, h⟩
      time_lt := by decide }
  else nextMonth start

/-- `start + delta`, of a start from which at most the rest of its day is added. -/
def plus (delta : Nat) (start : Moment) : Moment :=
  if h : start.time + delta < 86400000000 then
    { start with time := start.time + delta, time_lt := h }
  else nextDay start

def windowEnd (window : QuotaWindow) (start : Moment) : Moment :=
  match window with
  | .perMinute => plus 60000000 start
  | .perHour => plus 3600000000 start
  | .perDay => plus 86400000000 start
  | .perMonth => nextMonth start

-- ==== the windows

def QuotaWindow.index : QuotaWindow → Moment → Nat
  | .perMinute, t => t.stamp / 60000000
  | .perHour, t => t.stamp / 3600000000
  | .perDay, t => t.stamp / 86400000000
  | .perMonth, t => t.months

def QuotaWindow.base : QuotaWindow → Nat → Nat
  | .perMinute, i => i * 60000000
  | .perHour, i => i * 3600000000
  | .perDay, i => i * 86400000000
  | .perMonth, i => (i * 32 + 1) * 86400000000

variable {window : QuotaWindow} {t u : Moment}

theorem stamp_windowStart : (windowStart window t).stamp = window.base (window.index t) := by
  cases window <;>
    simp only [windowStart, truncated, stamp, firstOf, QuotaWindow.base, QuotaWindow.index, days,
      months] <;> omega

theorem base_mono {i j : Nat} (h : i ≤ j) : window.base i ≤ window.base j := by
  cases window <;> simp only [QuotaWindow.base] <;> omega

theorem index_mono (h : t ≤ u) : window.index t ≤ window.index u := by
  cases window with
  | perMonth => exact months_mono (days_mono h)
  | _ => exact Nat.div_le_div_right h

theorem windowStart_le : windowStart window t ≤ t := by
  have hday := t.day_ok
  show (windowStart window t).stamp ≤ t.stamp
  rw [stamp_windowStart]
  cases window <;> simp only [stamp, QuotaWindow.base, QuotaWindow.index, days] <;> omega

theorem windowStart_of_index (h : window.index t = window.index u) :
    windowStart window t = windowStart window u :=
  stamp_inj (by rw [stamp_windowStart, stamp_windowStart, h])

theorem windowStart_mono (h : t ≤ u) : windowStart window t ≤ windowStart window u := by
  show (windowStart window t).stamp ≤ (windowStart window u).stamp
  rw [stamp_windowStart, stamp_windowStart]
  exact base_mono (index_mono h)

theorem index_windowStart : window.index (windowStart window t) = window.index t := by
  cases window with
  | perMonth => rfl
  | _ => simp only [QuotaWindow.index, stamp_windowStart, QuotaWindow.base]; omega

@[simp]
theorem windowStart_windowStart :
    windowStart window (windowStart window t) = windowStart window t :=
  windowStart_of_index index_windowStart

theorem windowStart_of_within (h : windowStart window t ≤ u) (h' : u ≤ t) :
    windowStart window u = windowStart window t := by
  apply le_antisymm (windowStart_mono h')
  have hmono : windowStart window (windowStart window t) ≤ _ := windowStart_mono h
  rwa [windowStart_windowStart] at hmono

-- ==== the next window

/-- `next` starts the next window: it is later, and nothing later is earlier than it. -/
structure Follows (window : QuotaWindow) (t next : Moment) : Prop where
  whole : next.stamp = window.base (window.index next)
  later : window.index t < window.index next
  first : ∀ u, window.index t < window.index u → next ≤ u

structure QuotaLimit where
  window : QuotaWindow
  maxRequests : Nat := 0
  maxTokens : Nat := 0
  limited : maxRequests ≠ 0 ∨ maxTokens ≠ 0

structure SubscriptionConfig where
  quotas : List QuotaLimit
  unique : (quotas.map QuotaLimit.window).Nodup

structure WindowUsage where
  requests : Nat
  tokens : Nat
  windowStart : Moment

/-- Nothing for a provider without quotas. -/
abbrev Usage := String → List (QuotaWindow × WindowUsage)

structure QuotaSnapshot where
  window : QuotaWindow
  requestsUsed : Nat
  requestsLimit : Nat
  tokensUsed : Nat
  tokensLimit : Nat
  windowResetsAt : Moment
  capturedAt : Moment

def QuotaSnapshot.isExhausted (snapshot : QuotaSnapshot) : Bool :=
  (0 < snapshot.requestsLimit && snapshot.requestsLimit ≤ snapshot.requestsUsed) ||
    (0 < snapshot.tokensLimit && snapshot.tokensLimit ≤ snapshot.tokensUsed)

structure QuotaCheckResult where
  allowed : Bool
  exhaustedWindows : List QuotaWindow

variable (subscriptions : String → Option SubscriptionConfig)

def quotasOf (provider : String) : List QuotaLimit :=
  ((subscriptions provider).map SubscriptionConfig.quotas).getD []

/-- `quota_map.get`. -/
def quotaOf (provider : String) (window : QuotaWindow) : Option QuotaLimit :=
  (quotasOf subscriptions provider).find? fun quota => quota.window = window

def created (clock : String → QuotaWindow → Moment) : Usage := fun provider =>
  (quotasOf subscriptions provider).map fun quota =>
    (quota.window, ⟨0, 0, windowStart quota.window (clock provider quota.window)⟩)

structure UsageCall where
  provider : String
  requests : Int
  tokens : Int
  time : Moment

/-- One window in `record_usage`. -/
def recordWindow (usage : WindowUsage) (window : QuotaWindow) (call : UsageCall) : WindowUsage :=
  if windowStart window call.time ≠ usage.windowStart then
    ⟨call.requests.toNat, call.tokens.toNat, windowStart window call.time⟩
  else
    ⟨usage.requests + call.requests.toNat, usage.tokens + call.tokens.toNat, usage.windowStart⟩

/-- A negative amount is a `ValueError`. -/
def recordUsage (s : Usage) (call : UsageCall) : Usage :=
  if call.requests < 0 ∨ call.tokens < 0 then s
  else Function.update s call.provider
    ((s call.provider).map fun (window, usage) => (window, recordWindow usage window call))

def isWindowExhausted (usage : WindowUsage) (quota : QuotaLimit) (estimatedTokens : Nat) : Bool :=
  (0 < quota.maxRequests && quota.maxRequests ≤ usage.requests) ||
    (0 < quota.maxTokens && quota.maxTokens < usage.tokens + estimatedTokens)

/-- A negative estimate is a `ValueError`. -/
def checkQuota (s : Usage) (now : Moment) (provider : String) (estimatedTokens : Nat) :
    QuotaCheckResult :=
  let exhausted := ((s provider).filter fun (window, usage) =>
    windowStart window now = usage.windowStart &&
      (quotaOf subscriptions provider window).any fun quota =>
        isWindowExhausted usage quota estimatedTokens).map Prod.fst
  ⟨exhausted = [], exhausted⟩

def getSnapshot (s : Usage) (now : Moment) (provider : String) (window? : Option QuotaWindow) :
    List QuotaSnapshot :=
  (s provider).filterMap fun (window, usage) =>
    if window? ≠ none ∧ window? ≠ some window then none
    else (quotaOf subscriptions provider window).map fun quota =>
      let expectedStart := windowStart window now
      let rotated := expectedStart ≠ usage.windowStart
      { window := window
        requestsUsed := if rotated then 0 else usage.requests
        requestsLimit := quota.maxRequests
        tokensUsed := if rotated then 0 else usage.tokens
        tokensLimit := quota.maxTokens
        windowResetsAt := windowEnd window expectedStart
        capturedAt := now }

def peekQuotaAvailable (s : Usage) (now : Moment) (provider : String) : Option Bool :=
  if s provider = [] then none
  else if subscriptions provider = none then none
  else some !(s provider).any fun (window, usage) =>
    windowStart window now = usage.windowStart &&
      (quotaOf subscriptions provider window).any fun quota => isWindowExhausted usage quota 1

-- ==== the counters

def recorded (calls : List UsageCall) (provider : String) : List UsageCall :=
  calls.filter fun call => call.provider = provider ∧ ¬(call.requests < 0 ∨ call.tokens < 0)

def amountSince (amount : UsageCall → Nat) (calls : List UsageCall) (start : Moment) : Nat :=
  ((calls.filter fun call => start ≤ call.time).map amount).sum

def usedSince (calls : List UsageCall) (window : QuotaWindow) (now : Moment) : WindowUsage where
  requests := amountSince (fun call => call.requests.toNat) calls (windowStart window now)
  tokens := amountSince (fun call => call.tokens.toNat) calls (windowStart window now)
  windowStart := windowStart window now

def Tallied (window : QuotaWindow) (calls : List UsageCall) (now : Moment) (usage : WindowUsage) :
    Prop :=
  ∃ last ≤ now, (∀ call ∈ calls, call.time ≤ last) ∧ usage = usedSince calls window last

variable {subscriptions} {calls : List UsageCall} {call : UsageCall} {now reader : Moment}
  {usage : WindowUsage} {quota : QuotaLimit}

theorem amountSince_concat (amount : UsageCall → Nat) (start : Moment) :
    amountSince amount (calls ++ [call]) start =
      amountSince amount calls start + if start ≤ call.time then amount call else 0 := by
  unfold amountSince
  split
  next h => simp [h]
  next h => simp [h]

theorem amountSince_later (amount : UsageCall → Nat) (hc : ∀ call ∈ calls, call.time ≤ now)
    (hle : now ≤ reader) (h : windowStart window reader ≠ windowStart window now) :
    amountSince amount calls (windowStart window reader) = 0 := by
  have hnone : (calls.filter fun call => windowStart window reader ≤ call.time) = [] := by
    rw [filter_eq_nil_iff]
    intro call hcall hs
    refine h (windowStart_of_within ?_ hle).symm
    exact Nat.le_trans (of_decide_eq_true hs) (hc call hcall)
  simp [amountSince, hnone]

/-- STEP LEMMA of the counters: whether the window is the old one or a new one. -/
theorem Tallied.record (h : Tallied window calls now usage) (hle : now ≤ call.time) :
    Tallied window (calls ++ [call]) call.time (recordWindow usage window call) := by
  obtain ⟨last, hlast, hc, rfl⟩ := h
  have hlate : last ≤ call.time := Nat.le_trans hlast hle
  have hin : windowStart window call.time ≤ call.time := windowStart_le
  refine ⟨call.time, Nat.le_refl _, fun other ho => ?_, ?_⟩
  · rcases mem_append.1 ho with ho | ho
    · exact Nat.le_trans (hc other ho) hlate
    · cases mem_singleton.1 ho
      exact Nat.le_refl _
  · unfold recordWindow
    split
    next hr => simp [usedSince, amountSince_concat, hin, amountSince_later _ hc hlate hr]
    next hsame =>
      have hsame : windowStart window call.time = windowStart window last := of_not_not hsame
      simp [usedSince, amountSince_concat, hsame, hsame ▸ hin]

theorem Tallied.read (h : Tallied window calls now usage) (hle : now ≤ reader) :
    (windowStart window reader = usage.windowStart → usage = usedSince calls window reader) ∧
      (windowStart window reader ≠ usage.windowStart →
        usedSince calls window reader = ⟨0, 0, windowStart window reader⟩) := by
  obtain ⟨last, hlast, hc, rfl⟩ := h
  refine ⟨fun hsame => ?_, fun hr => ?_⟩
  · simp only [usedSince] at hsame ⊢
    rw [hsame]
  · simp only [usedSince, amountSince_later _ hc (Nat.le_trans hlast hle) hr]

theorem recorded_concat {provider : String} : recorded (calls ++ [call]) provider =
    recorded calls provider ++
      if call.provider = provider ∧ ¬(call.requests < 0 ∨ call.tokens < 0) then [call] else [] := by
  unfold recorded
  rw [filter_append, filter_singleton]
  simp only [Bool.cond_decide]

def Booked (subscriptions : String → Option SubscriptionConfig) (calls : List UsageCall)
    (now : Moment) (s : Usage) : Prop :=
  ∀ provider, ∃ usage : QuotaWindow → WindowUsage,
    s provider = (quotasOf subscriptions provider).map
      (fun quota => (quota.window, usage quota.window)) ∧
        ∀ window, Tallied window (recorded calls provider) now (usage window)

/-- STEP LEMMA of the tracker. -/
theorem Booked.record {s : Usage} (h : Booked subscriptions calls now s) (hle : now ≤ call.time) :
    Booked subscriptions (calls ++ [call]) call.time (recordUsage s call) := by
  intro provider
  obtain ⟨usage, hs, hc⟩ := h provider
  have hl : ∀ window, Tallied window (recorded calls provider) call.time (usage window) :=
    fun window => (hc window).imp fun _ h => ⟨Nat.le_trans h.1 hle, h.2⟩
  unfold recordUsage
  rw [recorded_concat]
  by_cases href : call.requests < 0 ∨ call.tokens < 0
  · rw [if_pos href, if_neg fun h => h.2 href, append_nil]
    exact ⟨usage, hs, hl⟩
  · rw [if_neg href]
    by_cases hp : call.provider = provider
    · rw [if_pos ⟨hp, href⟩]
      subst hp
      exact ⟨fun window => recordWindow (usage window) window call, by simp [hs],
        fun window => (hc window).record hle⟩
    · rw [if_neg fun h => hp h.1, append_nil, Function.update_of_ne (Ne.symm hp)]
      exact ⟨usage, hs, hl⟩

theorem quotaOf_mem {provider : String} (h : quota ∈ quotasOf subscriptions provider) :
    quotaOf subscriptions provider quota.window = some quota := by
  unfold quotaOf quotasOf at *
  cases hc : subscriptions provider with
  | none => simp [hc] at h
  | some config =>
    rw [hc] at h
    exact Keyed.lookup_key config.unique h

def QuotaLimit.snapshot (quota : QuotaLimit) (used : WindowUsage) (now : Moment) :
    QuotaSnapshot where
  window := quota.window
  requestsUsed := used.requests
  requestsLimit := quota.maxRequests
  tokensUsed := used.tokens
  tokensLimit := quota.maxTokens
  windowResetsAt := windowEnd quota.window (windowStart quota.window now)
  capturedAt := now

theorem isExhausted_snapshot :
    (quota.snapshot usage now).isExhausted = isWindowExhausted usage quota 1 := by
  rw [Bool.eq_iff_iff]
  simp only [QuotaSnapshot.isExhausted, isWindowExhausted, Bool.or_eq_true, Bool.and_eq_true,
    decide_eq_true_eq]
  simp only [QuotaLimit.snapshot]
  omega

structure Reads (subscriptions : String → Option SubscriptionConfig) (calls : List UsageCall)
    (now : Moment) (s : Usage) (provider : String) : Prop where
  snapshot : ∀ window?, getSnapshot subscriptions s now provider window? =
    ((quotasOf subscriptions provider).filter fun quota =>
      window? = none ∨ window? = some quota.window).map fun quota =>
        quota.snapshot (usedSince (recorded calls provider) quota.window now) now
  check : ∀ estimatedTokens, (∀ quota ∈ quotasOf subscriptions provider, quota.maxTokens ≠ 0 →
      estimatedTokens ≤ quota.maxTokens) →
    (checkQuota subscriptions s now provider estimatedTokens).exhaustedWindows =
      ((quotasOf subscriptions provider).filter fun quota => isWindowExhausted
        (usedSince (recorded calls provider) quota.window now) quota estimatedTokens).map
          QuotaLimit.window
  exhausted : ∀ estimatedTokens, ∀ window ∈
      (checkQuota subscriptions s now provider estimatedTokens).exhaustedWindows,
    ∃ quota ∈ quotasOf subscriptions provider, quota.window = window ∧ isWindowExhausted
      (usedSince (recorded calls provider) window now) quota estimatedTokens = true
  peek : peekQuotaAvailable subscriptions s now provider =
    if quotasOf subscriptions provider = [] then none
    else some (checkQuota subscriptions s now provider 1).allowed
  agree : (checkQuota subscriptions s now provider 1).allowed = true ↔
    ∀ snapshot ∈ getSnapshot subscriptions s now provider none, snapshot.isExhausted = false

variable {s : Usage} {provider : String}

theorem not_exhausted_unused {n : Nat} (h : quota.maxTokens ≠ 0 → n ≤ quota.maxTokens) :
    isWindowExhausted ⟨0, 0, now⟩ quota n = false := by
  simp only [isWindowExhausted, Bool.or_eq_false_iff, Bool.and_eq_false_iff,
    decide_eq_false_iff_not]
  omega

theorem Booked.reads (h : Booked subscriptions calls now s) (hle : now ≤ reader) :
    Reads subscriptions calls reader s provider := by
  obtain ⟨usage, hs, hcount⟩ := h provider
  have hread := fun window => (hcount window).read hle
  have hc : ∀ n, (checkQuota subscriptions s reader provider n).exhaustedWindows =
      ((quotasOf subscriptions provider).filter fun quota =>
        windowStart quota.window reader = (usage quota.window).windowStart &&
          isWindowExhausted (usage quota.window) quota n).map QuotaLimit.window := by
    intro n
    simp only [checkQuota, hs, filter_map, map_map]
    refine congrArg _ (filter_congr fun quota hq => ?_)
    simp [quotaOf_mem hq]
  have hseen : ∀ n, (∀ quota ∈ quotasOf subscriptions provider, quota.maxTokens ≠ 0 →
      n ≤ quota.maxTokens) → (checkQuota subscriptions s reader provider n).exhaustedWindows =
        ((quotasOf subscriptions provider).filter fun quota => isWindowExhausted
          (usedSince (recorded calls provider) quota.window reader) quota n).map
            QuotaLimit.window := by
    intro n hn
    rw [hc, filter_congr fun quota hq => ?_]
    by_cases hsame : windowStart quota.window reader = (usage quota.window).windowStart
    · simp [hsame, ← (hread quota.window).1 hsame]
    · simp [hsame, (hread quota.window).2 hsame, not_exhausted_unused (hn quota hq)]
  have hsnapshot : ∀ window?, getSnapshot subscriptions s reader provider window? =
      ((quotasOf subscriptions provider).filter fun quota =>
        window? = none ∨ window? = some quota.window).map fun quota =>
          quota.snapshot (usedSince (recorded calls provider) quota.window reader) reader := by
    intro window?
    rw [← filterMap_eq_filter, map_filterMap, getSnapshot, hs, filterMap_map]
    refine filterMap_congr fun quota hq => ?_
    by_cases hwant : window? = none ∨ window? = some quota.window
    · by_cases hsame : windowStart quota.window reader = (usage quota.window).windowStart
      · simp [Option.guard, quotaOf_mem hq, hsame, QuotaLimit.snapshot,
          ← (hread quota.window).1 hsame, ← not_or]
      · simp [Option.guard, quotaOf_mem hq, hsame, QuotaLimit.snapshot,
          (hread quota.window).2 hsame, ← not_or]
    · simp [not_or.1 hwant]
  have hpeek : peekQuotaAvailable subscriptions s reader provider =
      if quotasOf subscriptions provider = [] then none
      else some (checkQuota subscriptions s reader provider 1).allowed := by
    by_cases hnone : quotasOf subscriptions provider = []
    · simp [peekQuotaAvailable, hs, hnone]
    · have hsome : s provider ≠ [] := by simp [hs, hnone]
      have hsubscriber : subscriptions provider ≠ none := fun heq => hnone (by simp [quotasOf, heq])
      rw [peekQuotaAvailable, if_neg hsome, if_neg hsubscriber, if_neg hnone, Option.some_inj,
        Bool.eq_iff_iff]
      simp [checkQuota]
  refine ⟨hsnapshot, hseen, fun n window hwin => ?_, hpeek, ?_⟩
  · rw [hc] at hwin
    obtain ⟨quota, hmem, rfl⟩ := mem_map.1 hwin
    obtain ⟨hq, hsame, hexhausted⟩ := by simpa using hmem
    exact ⟨quota, hq, rfl, (hread quota.window).1 hsame ▸ hexhausted⟩
  · have hone := hseen 1 fun _ _ hne => Nat.one_le_iff_ne_zero.2 hne
    rw [checkQuota, decide_eq_true_eq]
    change (checkQuota subscriptions s reader provider 1).exhaustedWindows = [] ↔ _
    rw [hone, hsnapshot none]
    simp [isExhausted_snapshot]

end Synthorg.Budget
