/-
Lockouts survive restarts.

The answer of `is_locked` is compared with the history of the name: its
failures since its last success. What is kept in memory is the end of the
newest lock, what is kept in the table is every failure that can still matter,
and both say the same as long as a restart finds the newest failure among those
that lock.
-/
import Synthorg.Auth.Lockout
import Mathlib.Data.List.Perm.Basic

namespace Synthorg.Auth

open Lib
open Function (update update_self update_of_ne)
open List

namespace Lockout

variable {config : AuthConfig} {names : Identifiers} {s : Lockout}

-- ==== what a lockout is

def failures (username : String) : List Event → List Int
  | [] => []
  | .failure name moment :: earlier =>
    if name = username then moment :: failures username earlier else failures username earlier
  | .success name :: earlier => if name = username then [] else failures username earlier

/-- As many failures as the threshold in the window that ends at `moment`. -/
def Reaches (config : AuthConfig) (times : List Int) (moment : Int) : Prop :=
  config.lockoutThreshold ≤ times.countP fun t => moment - config.window ≤ t ∧ t ≤ moment

/-- Some failure within the last `duration` reached the threshold. -/
def LocksOut (config : AuthConfig) (times : List Int) (now : Int) : Prop :=
  ∃ moment ∈ times, now < moment + config.duration ∧ Reaches config times moment

def Careful (config : AuthConfig) (s : Lockout) : Input → Prop
  | .commitFailure n ok => ok = true → ∀ username now,
      s.failureCalls n = .waiting username now → now = s.clock
  | .restart _ latency => ∀ username,
      LocksOut config (failures username s.history) (s.clock + latency) →
        ∃ newest ∈ (failures username s.history).head?,
          Reaches config (failures username s.history) newest
  | _ => True

instance (times : List Int) (moment : Int) : Decidable (Reaches config times moment) :=
  inferInstanceAs (Decidable (_ ≤ _))

-- ==== the invariant

def HeldAt (s : Lockout) (username : String) (now : Int) : Prop :=
  ∃ lockedUntil, s.locked username = some lockedUntil ∧ now - s.boot < lockedUntil

/-- THE INVARIANT. -/
structure Inv (config : AuthConfig) (names : Identifiers) (s : Lockout) : Prop where
  past : ∀ username, ∀ moment ∈ failures username s.history, moment ≤ s.clock
  ordered : ∀ username, (failures username s.history).Pairwise (· ≥ ·)
  /-- The table has the failures from some horizon on. -/
  rows : ∃ horizon, horizon ≤ s.clock - (config.window + config.duration) ∧ ∀ username,
    (s.rows.filter fun row => row.username = username).map Attempt.attemptedAt =
      (failures username s.history).filter fun moment => horizon ≤ moment
  normal : ∀ row ∈ s.rows, names.normalize row.username = row.username
  calls : ∀ n username now, s.failureCalls n = .waiting username now →
    names.normalize username = username
  /-- From now on, memory and history agree. -/
  locked : ∀ username now, s.clock ≤ now →
    (s.HeldAt username now ↔ LocksOut config (failures username s.history) now)

theorem isLocked_heldAt (names : Identifiers) (s : Lockout) (username : String) :
    (s.isLocked names username).1 = true ↔ s.HeldAt (names.normalize username) s.clock := by
  unfold Lockout.isLocked HeldAt
  simp only [monotonic]
  split
  next hnone => simp [hnone]
  next lockedUntil hsome =>
    by_cases hle : lockedUntil ≤ s.clock - s.boot
    · simp [hsome, hle]
    · simp [hsome, hle, not_le.1 hle]

-- ==== counting

theorem duration_nonneg (config : AuthConfig) : 0 ≤ config.duration := by
  unfold AuthConfig.duration minute
  omega

theorem window_nonneg (config : AuthConfig) : 0 ≤ config.window := by
  unfold AuthConfig.window minute
  omega

variable {times : List Int} {now : Int} {username : String} {ok : Bool}

theorem countP_from {horizon windowStart : Int} (hle : horizon ≤ windowStart) :
    (times.filter fun t => horizon ≤ t).countP (fun t => windowStart ≤ t) =
      times.countP fun t => windowStart ≤ t := by
  rw [countP_filter]
  refine countP_congr fun t _ => ?_
  simp only [Bool.and_eq_true, decide_eq_true_eq]
  omega

variable {moment newest boot : Int} {latency n : Nat}

theorem reaches_iff (hle : ∀ t ∈ times, t ≤ moment) : Reaches config times moment ↔
      config.lockoutThreshold ≤ times.countP fun t => moment - config.window ≤ t := by
  unfold Reaches
  rw [countP_congr fun t ht => ?_]
  simp [hle t ht]

theorem locksOut_cons (hle : ∀ t ∈ times, t ≤ newest) : LocksOut config (newest :: times) now ↔
      Reaches config (newest :: times) newest ∧ now < newest + config.duration ∨
        LocksOut config times now := by
  constructor
  · intro ⟨moment, hmem, hnow, hr⟩
    by_cases heq : moment = newest
    · subst heq
      exact .inl ⟨hr, hnow⟩
    · have hmem := (mem_cons.1 hmem).resolve_left heq
      have hlt := lt_of_le_of_ne (hle moment hmem) heq
      refine .inr ⟨moment, hmem, hnow, ?_⟩
      rwa [Reaches, countP_cons_of_neg (by simp [hlt])] at hr
  · intro hor
    rcases hor with ⟨hr, hnow⟩ | ⟨moment, hmem, hnow, hr⟩
    · exact ⟨newest, mem_cons_self, hnow, hr⟩
    · refine ⟨moment, mem_cons_of_mem _ hmem, hnow, le_trans hr ?_⟩
      rw [countP_cons]
      exact Nat.le_add_right _ _

theorem not_locksOut_nil (now : Int) : ¬ LocksOut config [] now :=
  fun ⟨_, hmem, _⟩ => nomatch hmem

-- ==== what is restored

theorem times_filter (rows : List Attempt) (stretch : Int → Bool) (isName : Attempt → Bool) :
    ((rows.filter fun row => stretch row.attemptedAt).filter isName).map Attempt.attemptedAt =
      ((rows.filter isName).map Attempt.attemptedAt).filter stretch := by
  rw [filter_map, filter_filter, filter_filter]
  exact congrArg _ (filter_congr fun row _ => Bool.and_comm _ _)

theorem countP_times (rows : List Attempt) (username : String) (windowStart : Int) :
    (rows.countP fun row => row.username = username && windowStart ≤ row.attemptedAt) =
      ((rows.filter fun row => row.username = username).map Attempt.attemptedAt).countP
        fun t => windowStart ≤ t := by
  rw [countP_map, countP_filter]
  exact countP_congr fun row _ => by simp [and_comm]

theorem comesFirst_trans (a b c : Attempt) (hab : comesFirst a b = true)
    (hbc : comesFirst b c = true) : comesFirst a c = true := by
  simp only [comesFirst, Bool.or_eq_true, Bool.and_eq_true, decide_eq_true_eq] at hab hbc ⊢
  rcases hab with hab | ⟨hab, hat⟩
  · rcases hbc with hbc | ⟨hbc, -⟩
    · exact .inl (hab.trans hbc)
    · exact .inl (hbc ▸ hab)
  · rcases hbc with hbc | ⟨hbc, hbt⟩
    · exact .inl (hab ▸ hbc)
    · exact .inr ⟨hab.trans hbc, hbt.trans hat⟩

theorem comesFirst_total (a b : Attempt) : (comesFirst a b || comesFirst b a) = true := by
  simp only [comesFirst, Bool.or_eq_true, Bool.and_eq_true, decide_eq_true_eq]
  rcases lt_trichotomy a.username b.username with hlt | heq | hlt
  · exact .inl (.inl hlt)
  · rcases le_total b.attemptedAt a.attemptedAt with hle | hle
    · exact .inl (.inr ⟨heq, hle⟩)
    · exact .inr (.inr ⟨heq.symm, hle⟩)
  · exact .inr (.inl hlt)

/-- `load_locked` sees the failures of a name since the scan's start, the newest first. -/
theorem Inv.attempts_eq (h : s.Inv config names) (username : String) :
    attempts names s.rows (s.clock - (config.window + config.duration)) username =
      (failures username s.history).filter fun moment =>
        s.clock - (config.window + config.duration) ≤ moment := by
  obtain ⟨horizon, hh, hrows⟩ := h.rows
  have hname : ∀ row ∈ s.rows, names.normalize row.username = username ↔ row.username = username :=
    fun row hrow => by rw [h.normal row hrow]
  have hsort : (attempts names s.rows (s.clock - (config.window + config.duration))
      username).Pairwise (· ≥ ·) := by
    refine Pairwise.map _ (fun _ _ hge => hge) (R := fun a b : Attempt =>
      a.attemptedAt ≥ b.attemptedAt) ?_
    refine ((pairwise_mergeSort comesFirst_trans comesFirst_total _).filter _).imp_of_mem ?_
    intro a b ha hb hf
    have hof : ∀ row, row ∈ ((s.rows.filter fun row => s.clock - (config.window + config.duration) ≤
        row.attemptedAt).mergeSort comesFirst).filter (fun row =>
          names.normalize row.username = username) → row.username = username := by
      intro row hrow
      obtain ⟨hrow, hn⟩ := mem_filter.1 hrow
      have hrow := mem_of_mem_filter (mem_mergeSort.1 hrow)
      exact (hname row hrow).1 (by simpa using hn)
    simp only [comesFirst, hof a ha, hof b hb, lt_irrefl, decide_false, decide_true,
      Bool.false_or, Bool.true_and, decide_eq_true_eq] at hf
    exact hf
  have hperm : (attempts names s.rows (s.clock - (config.window + config.duration)) username).Perm
      ((failures username s.history).filter fun moment =>
        s.clock - (config.window + config.duration) ≤ moment) := by
    refine (((mergeSort_perm _ _).filter _).map _).trans (Perm.of_eq ?_)
    rw [times_filter s.rows fun moment => s.clock - (config.window + config.duration) ≤ moment,
      filter_congr fun row hrow => decide_eq_decide.2 (hname row hrow), hrows,
      filter_filter]
    refine filter_congr fun moment _ => ?_
    rw [Bool.eq_iff_iff]
    simp only [Bool.and_eq_true, decide_eq_true_eq]
    omega
  exact hperm.eq_of_pairwise (fun _ _ _ _ hab hba => le_antisymm hba hab) hsort
    ((h.ordered username).filter _)

theorem restoredLock_iff {clock : Int} (hord : times.Pairwise (· ≥ ·))
    (hnow : clock + latency ≤ now) :
    (∃ lockedUntil, restoredLock config (clock + latency) (clock + latency - boot)
        (times.filter fun t => clock - (config.window + config.duration) ≤ t) = some lockedUntil ∧
          now - boot < lockedUntil) ↔
      ∃ newest ∈ times.head?, Reaches config times newest ∧ now < newest + config.duration := by
  have hwin := window_nonneg config
  cases times with
  | nil => simp [restoredLock]
  | cons newest earlier =>
    have hle := (pairwise_cons.1 hord).1
    simp only [head?_cons, Option.mem_def, Option.some.injEq, exists_eq_left']
    by_cases hscan : clock - (config.window + config.duration) ≤ newest
    · have hc : now < newest + config.duration → ((newest :: earlier).filter fun t =>
            clock - (config.window + config.duration) ≤ t).countP
              (fun t => newest - config.window ≤ t) =
          (newest :: earlier).countP fun t => newest - config.window ≤ t :=
        fun hlt => countP_from (by omega)
      rw [reaches_iff (forall_mem_cons.2 ⟨le_rfl, hle⟩)]
      rw [filter_cons_of_pos (by simpa using hscan)] at hc ⊢
      simp only [restoredLock]
      constructor
      · intro ⟨lockedUntil, hsome, hlt⟩
        split at hsome
        · cases hsome
        next hcnt =>
          split at hsome
          · cases hsome
            have hlt : now < newest + config.duration := by omega
            rw [hc hlt, not_lt] at hcnt
            exact ⟨hcnt, hlt⟩
          · cases hsome
      · intro ⟨hcnt, hlt⟩
        rw [← hc hlt] at hcnt
        refine ⟨clock + latency - boot + (newest + config.duration - (clock + latency)), ?_, ?_⟩
        · rw [if_neg (not_lt.2 hcnt), if_pos (by omega)]
        · omega
    · have hnone : (newest :: earlier).filter (fun t =>
          clock - (config.window + config.duration) ≤ t) = [] := by
        refine filter_eq_nil_iff.2 fun t ht => ?_
        have htn : t ≤ newest := by
          rcases mem_cons.1 ht with rfl | ht
          · exact le_rfl
          · exact hle t ht
        simp only [decide_eq_true_eq]
        omega
      rw [hnone]
      constructor
      · exact fun ⟨_, hsome, _⟩ => nomatch hsome
      · intro ⟨_, hlt⟩
        omega

theorem Inv.le_newest (h : s.Inv config names) (hmem : moment ∈ failures username s.history)
    (hnew : newest ∈ (failures username s.history).head?) : moment ≤ newest := by
  cases ht : failures username s.history with
  | nil => simp [ht] at hmem
  | cons first earlier =>
    have hord := h.ordered username
    rw [ht] at hmem hnew hord
    cases hnew
    rcases mem_cons.1 hmem with rfl | hmem
    · exact le_rfl
    · exact (pairwise_cons.1 hord).1 moment hmem

theorem Inv.restart_heldAt_iff (h : s.Inv config names) (boot : Int) (latency : Nat)
    (username : String) (hnow : s.clock + latency ≤ now) :
    (s.restart config names boot latency).HeldAt username now ↔
      ∃ newest ∈ (failures username s.history).head?,
        Reaches config (failures username s.history) newest ∧ now < newest + config.duration := by
  rw [← restoredLock_iff (h.ordered username) hnow, ← h.attempts_eq username]
  rfl

theorem Inv.restart (h : s.Inv config names) (hcare : Careful config s (.restart boot latency)) :
    (s.restart config names boot latency).Inv config names := by
  refine ⟨fun username moment hm => ?_, h.ordered, ?_, h.normal, nofun, fun username now hnow => ?_⟩
  · have hle := h.past username moment hm
    show moment ≤ s.clock + latency
    omega
  · obtain ⟨horizon, hh, hrows⟩ := h.rows
    refine ⟨horizon, ?_, hrows⟩
    show horizon ≤ s.clock + latency - _
    omega
  · rw [h.restart_heldAt_iff boot latency username hnow]
    show _ ↔ LocksOut config (failures username s.history) now
    constructor
    · intro ⟨newest, hnew, hr, hlt⟩
      exact ⟨newest, mem_of_mem_head? hnew, hlt, hr⟩
    · intro ⟨moment, hmem, hlt, hr⟩
      have hnow' : s.clock + latency ≤ now := hnow
      obtain ⟨newest, hnew, hn⟩ := hcare username ⟨moment, hmem, by omega, hr⟩
      have hle := h.le_newest hmem hnew
      exact ⟨newest, hnew, hn, by omega⟩

-- ==== the writers

theorem Inv.beginFailure (h : s.Inv config names) :
    (s.beginFailure names n username).Inv config names := by
  refine ⟨h.past, h.ordered, h.rows, h.normal, fun m name now hcall => ?_, h.locked⟩
  by_cases hm : m = n
  · subst hm
    simp only [Lockout.beginFailure, update_self] at hcall
    cases hcall
    exact names.normalize_normalize username
  · simp only [Lockout.beginFailure, update_of_ne hm] at hcall
    exact h.calls m name now hcall

theorem Inv.setCall (n : Nat) (call : FailureCall) (h : s.Inv config names)
    (hcall : ∀ username now, call ≠ .waiting username now) :
    Inv config names { s with failureCalls := update s.failureCalls n call } := by
  refine ⟨h.past, h.ordered, h.rows, h.normal, fun m username now hm => ?_, h.locked⟩
  by_cases hmn : m = n
  · subst hmn
    simp only [update_self] at hm
    exact absurd hm (hcall username now)
  · simp only [update_of_ne hmn] at hm
    exact h.calls m username now hm

theorem Inv.cleanupExpired {waited : Nat} (h : s.Inv config names) :
    (s.cleanupExpired config waited ok).Inv config names := by
  unfold Lockout.cleanupExpired
  split
  · refine ⟨h.past, h.ordered, ?_, fun row hrow => h.normal row (mem_of_mem_filter hrow),
      h.calls, h.locked⟩
    obtain ⟨horizon, hh, hrows⟩ := h.rows
    refine ⟨max horizon (s.clock - waited - (config.window + config.duration)), ?_,
      fun username => ?_⟩
    · show max horizon _ ≤ s.clock - (config.window + config.duration)
      omega
    · refine (times_filter s.rows (fun moment => s.clock - waited -
        (config.window + config.duration) ≤ moment) _).trans ?_
      rw [hrows, filter_filter]
      refine filter_congr fun moment _ => ?_
      rw [Bool.eq_iff_iff]
      simp only [Bool.and_eq_true, decide_eq_true_eq]
      omega
  · exact h

theorem Inv.recordSuccess (h : s.Inv config names) :
    (s.recordSuccess names username ok).Inv config names := by
  unfold Lockout.recordSuccess
  split
  · have hsame : ∀ name, names.normalize username ≠ name →
        failures name (.success (names.normalize username) :: s.history) =
          failures name s.history := fun name hne => if_neg hne
    have hself : failures (names.normalize username)
        (.success (names.normalize username) :: s.history) = [] := if_pos rfl
    refine ⟨fun name => ?_, fun name => ?_, ?_,
      fun row hrow => h.normal row (mem_of_mem_filter hrow), h.calls, fun name now hnow => ?_⟩
    · by_cases hname : names.normalize username = name
      · subst hname
        rw [hself]
        exact nofun
      · rw [hsame name hname]
        exact h.past name
    · by_cases hname : names.normalize username = name
      · subst hname
        rw [hself]
        exact Pairwise.nil
      · rw [hsame name hname]
        exact h.ordered name
    · obtain ⟨horizon, hh, hrows⟩ := h.rows
      refine ⟨horizon, hh, fun name => ?_⟩
      rw [filter_filter]
      by_cases hname : names.normalize username = name
      · subst hname
        rw [hself, filter_eq_nil_iff.2 fun row _ => by simp]
        rfl
      · rw [hsame name hname, ← hrows name]
        refine congrArg _ (filter_congr fun row _ => ?_)
        by_cases hrow : row.username = name
        · simp [hrow, Ne.symm hname]
        · simp [hrow]
    · by_cases hname : names.normalize username = name
      · subst hname
        rw [hself]
        refine iff_of_false (fun ⟨_, hsome, _⟩ => ?_) (not_locksOut_nil now)
        simp at hsome
      · rw [hsame name hname, ← h.locked name now hnow]
        unfold HeldAt
        simp only [update_of_ne (Ne.symm hname)]
  · exact h

theorem Inv.commitFailure (h : s.Inv config names)
    (hcare : Careful config s (.commitFailure n ok)) :
    (s.commitFailure config n ok).Inv config names := by
  unfold Lockout.commitFailure
  split
  next username now hcall =>
    split
    next hok =>
      obtain rfl := hcare hok username now hcall
      have hn := h.calls n username s.clock hcall
      have hwin := window_nonneg config
      have hd := duration_nonneg config
      have hself : failures username (.failure username s.clock :: s.history) =
          s.clock :: failures username s.history := if_pos rfl
      have hsame : ∀ name, username ≠ name →
          failures name (.failure username s.clock :: s.history) = failures name s.history :=
        fun name hne => if_neg hne
      have hr : ((⟨username, s.clock⟩ :: s.rows).filter fun row =>
          row.username = username).map Attempt.attemptedAt =
            s.clock :: (s.rows.filter fun row => row.username = username).map
              Attempt.attemptedAt := by
        simp
      have hc : (config.lockoutThreshold ≤ (⟨username, s.clock⟩ :: s.rows).countP fun row =>
          row.username = username && s.clock - config.window ≤ row.attemptedAt) ↔
          Reaches config (s.clock :: failures username s.history) s.clock := by
        obtain ⟨horizon, hh, hrows⟩ := h.rows
        rw [countP_times, hr, hrows username, reaches_iff
          (forall_mem_cons.2 ⟨le_rfl, h.past username⟩), countP_cons,
          countP_cons, countP_from (by omega)]
      have hcalls := (h.setCall n (.done (config.lockoutThreshold ≤
        (⟨username, s.clock⟩ :: s.rows).countP fun row =>
          row.username = username && s.clock - config.window ≤ row.attemptedAt))
        nofun).calls
      refine ⟨fun name => ?_, fun name => ?_, ?_, forall_mem_cons.2 ⟨hn, h.normal⟩,
        hcalls, fun name now hnow => ?_⟩
      · by_cases hname : username = name
        · subst hname
          rw [hself]
          exact forall_mem_cons.2 ⟨le_rfl, h.past username⟩
        · rw [hsame name hname]
          exact h.past name
      · by_cases hname : username = name
        · subst hname
          rw [hself]
          exact pairwise_cons.2 ⟨h.past username, h.ordered username⟩
        · rw [hsame name hname]
          exact h.ordered name
      · obtain ⟨horizon, hh, hrows⟩ := h.rows
        refine ⟨horizon, hh, fun name => ?_⟩
        by_cases hname : username = name
        · subst hname
          rw [hself, hr, hrows username, filter_cons_of_pos]
          simp only [decide_eq_true_eq]
          omega
        · rw [hsame name hname, ← hrows name, filter_cons_of_neg (by simpa using hname)]
      · by_cases hname : username = name
        · subst hname
          rw [hself, locksOut_cons (h.past username), ← hc]
          unfold HeldAt
          dsimp only
          split
          next hreaches =>
            simp only [update_self, Option.some.injEq, exists_eq_left', monotonic]
            constructor
            · intro hlt
              exact .inl ⟨hreaches, by omega⟩
            · intro hor
              rcases hor with ⟨-, hlt⟩ | ⟨moment, hmem, hlt, -⟩
              · omega
              · have hle := h.past username moment hmem
                omega
          next hnot =>
            rw [← h.locked username now hnow]
            exact ⟨fun hheld => .inr hheld, fun hor => hor.resolve_left fun hand => hnot hand.1⟩
        · rw [hsame name hname, ← h.locked name now hnow]
          unfold HeldAt
          dsimp only
          split
          · simp only [update_of_ne (Ne.symm hname)]
          · rfl
    · exact h.setCall _ _ nofun
  · exact h

-- ==== whole runs

theorem Inv.isLocked (h : s.Inv config names) : (s.isLocked names username).2.Inv config names := by
  unfold Lockout.isLocked
  dsimp only
  split
  · exact h
  next lockedUntil hsome =>
    split
    next hle =>
      refine ⟨h.past, h.ordered, h.rows, h.normal, h.calls, fun name now hnow => ?_⟩
      rw [← h.locked name now hnow]
      unfold HeldAt
      by_cases hname : name = names.normalize username
      · subst hname
        simp only [monotonic] at hle
        have hnow' : s.clock ≤ now := hnow
        simp only [update_self, hsome, Option.some.injEq]
        refine iff_of_false (fun ⟨_, hnone, _⟩ => nomatch hnone) ?_
        omega
      · simp only [update_of_ne hname]
    · exact h

theorem Inv.tick {elapsed : Nat} (h : s.Inv config names) :
    Inv config names { s with clock := s.clock + elapsed } := by
  refine ⟨fun username moment hm => ?_, h.ordered, ?_, h.normal, h.calls,
    fun username now hnow => ?_⟩
  · have hle := h.past username moment hm
    show moment ≤ s.clock + elapsed
    omega
  · obtain ⟨horizon, hh, hrows⟩ := h.rows
    refine ⟨horizon, ?_, hrows⟩
    show horizon ≤ s.clock + elapsed - _
    omega
  · have hnow' : s.clock + elapsed ≤ now := hnow
    exact h.locked username now (by omega)

/-- STEP LEMMA. -/
theorem Inv.step {input : Input} (h : s.Inv config names) (hcare : Careful config s input) :
    (Lockout.step config names s input).Inv config names := by
  cases input with
  | beginFailure n username =>
    simp only [Lockout.step]
    split
    · exact h.beginFailure
    · exact h
  | commitFailure n ok => exact h.commitFailure hcare
  | recordSuccess username ok => exact h.recordSuccess
  | cleanupExpired waited ok => exact h.cleanupExpired
  | isLocked username => exact h.isLocked
  | restart boot latency => exact h.restart hcare
  | tick elapsed => exact h.tick

theorem new_inv (config : AuthConfig) (names : Identifiers) (clock boot : Int) :
    (new clock boot).Inv config names := by
  refine ⟨nofun, fun _ => Pairwise.nil, ?_, nofun, nofun, fun username now _ => ?_⟩
  · exact ⟨clock - (config.window + config.duration), le_rfl, fun _ => rfl⟩
  · exact iff_of_false (fun ⟨_, hsome, _⟩ => nomatch hsome) (not_locksOut_nil now)

/-- In every state of a careful run `is_locked` answers what the history of the name says. -/
theorem lockout_survives (config : AuthConfig) (names : Identifiers) (clock boot : Int)
    (inputs : List Input)
    (hcare : Run.Throughout (Lockout.step config names) (Careful config) (new clock boot) inputs) :
    ∀ s ∈ Run.states (Lockout.step config names) (new clock boot) inputs, ∀ username,
      (s.isLocked names username).1 = true ↔
        LocksOut config (failures (names.normalize username) s.history) s.clock := by
  intro s hs username
  have h := Run.throughout_states (P := Inv config names) (fun _ _ hok h => h.step hok) hcare
    (new_inv config names clock boot) s hs
  rw [isLocked_heldAt]
  exact h.locked (names.normalize username) s.clock le_rfl

/-- After a careful run a restart restores the locks the history asks for exactly when it is careful
too: of no name with a failure still locking it out did the newest fall short of the threshold. -/
theorem restart_right_iff (config : AuthConfig) (names : Identifiers) (clock boot : Int)
    (inputs : List Input)
    (hcare : Run.Throughout (Lockout.step config names) (Careful config) (new clock boot) inputs)
    (again : Int) (latency : Nat) :
    let s := Run.final (Lockout.step config names) (new clock boot) inputs
    (∀ username, (s.restart config names again latency).HeldAt username (s.clock + latency) ↔
        LocksOut config (failures username s.history) (s.clock + latency)) ↔
      Careful config s (.restart again latency) := by
  intro s
  have h : s.Inv config names := Run.throughout_states (fun _ _ hok h => h.step hok) hcare
    (new_inv config names clock boot) s (Run.final_mem_states _ _ _)
  constructor
  · intro hright username hl
    obtain ⟨newest, hnew, hr, -⟩ :=
      (h.restart_heldAt_iff again latency username le_rfl).1 ((hright username).2 hl)
    exact ⟨newest, hnew, hr⟩
  · intro hcare username
    rw [h.restart_heldAt_iff again latency username le_rfl]
    constructor
    · intro ⟨newest, hnew, hr, hlt⟩
      exact ⟨newest, mem_of_mem_head? hnew, hlt, hr⟩
    · intro hl
      obtain ⟨newest, hnew, hr⟩ := hcare username hl
      obtain ⟨moment, hmem, hlt, -⟩ := hl
      have hle := h.le_newest hmem hnew
      exact ⟨newest, hnew, hr, by omega⟩

def twoAMinute : AuthConfig := ⟨2, 1, 5, by decide, by decide, by decide⟩

def trimmed : Identifiers where
  normalize := fun name => if name = "Alice " then "alice" else name
  normalize_normalize := fun name => by
    by_cases hname : name = "Alice "
    · simp [hname]
    · simp [hname]

/-- Two failures lock "alice" out; a minute later expired rows are cleaned up. -/
def lockedRun : List Input :=
  [.beginFailure 0 "Alice ", .commitFailure 0 true, .tick 1000000, .beginFailure 1 "alice",
    .commitFailure 1 true, .tick 60000000, .cleanupExpired 5 true]

theorem lockedRun_careful :
    Run.Throughout (Lockout.step twoAMinute trimmed) (Careful twoAMinute) (new 0 0) lockedRun := by
  refine ⟨trivial, fun _ _ _ hcall => ?_, trivial, trivial, fun _ _ _ hcall => ?_, trivial,
    trivial, trivial⟩
  all_goals
    cases hcall
    rfl

theorem lockedRun_restart :
    Careful twoAMinute (Run.final (Lockout.step twoAMinute trimmed) (new 0 0) lockedRun)
      (.restart 7 3) := by
  intro username hlocks
  by_cases hname : "alice" = username
  · subst hname
    exact ⟨1000000, rfl, by decide⟩
  · have hnone : failures username [.failure "alice" 1000000, .failure "alice" 0] = [] := by
      simp [failures, hname]
    exact absurd hlocks (hnone ▸ not_locksOut_nil _)

/-- A lock survives a cleanup and a restart. -/
theorem lockout_survives_restart :
    ((Run.final (Lockout.step twoAMinute trimmed) (new 0 0)
      (lockedRun ++ [.restart 7 3])).isLocked trimmed "alice").1 = true ↔
      LocksOut twoAMinute [1000000, 0] 61000003 :=
  lockout_survives twoAMinute trimmed 0 0 (lockedRun ++ [.restart 7 3])
    (Run.throughout_concat lockedRun_careful ⟨lockedRun_restart, trivial⟩) _
    (Run.final_mem_states _ _ _) "alice"

/-- "alice" is locked out when the restart reads the rows, and it restores the lock. -/
theorem restart_right_iff_locked :
    let s := Run.final (Lockout.step twoAMinute trimmed) (new 0 0) lockedRun
    LocksOut twoAMinute (failures "alice" s.history) (s.clock + 3) ∧
    (s.restart twoAMinute trimmed 7 3).HeldAt "alice" (s.clock + 3) ∧
    ((∀ username, (s.restart twoAMinute trimmed 7 3).HeldAt username (s.clock + 3) ↔
        LocksOut twoAMinute (failures username s.history) (s.clock + 3)) ↔
      Careful twoAMinute s (.restart 7 3)) := by
  have hiff := restart_right_iff twoAMinute trimmed 0 0 lockedRun lockedRun_careful 7 3
  have hlocks : LocksOut twoAMinute [1000000, 0] 61000003 :=
    ⟨1000000, by decide, by decide, by decide⟩
  exact ⟨hlocks, (hiff.2 lockedRun_restart "alice").2 hlocks, hiff⟩

/-- A later failure does not renew the lock, and the restart forgets it. -/
theorem restart_unlocks :
    ∃ s, s = Run.final (Lockout.step twoAMinute trimmed) (new 0 0) [.beginFailure 0 "alice",
        .commitFailure 0 true, .tick 1000000, .beginFailure 1 "alice", .commitFailure 1 true,
        .tick 120000000, .beginFailure 2 "alice", .commitFailure 2 true] ∧
      LocksOut twoAMinute (failures "alice" s.history) s.clock ∧
      (s.isLocked trimmed "alice").1 = true ∧
      ((s.restart twoAMinute trimmed 0 0).isLocked trimmed "alice").1 = false := by
  refine ⟨_, rfl, ⟨1000000, by decide, by decide, by decide⟩, by decide, ?_⟩
  have hcare : Run.Throughout (Lockout.step twoAMinute trimmed) (Careful twoAMinute) (new 0 0)
      [.beginFailure 0 "alice", .commitFailure 0 true, .tick 1000000, .beginFailure 1 "alice",
        .commitFailure 1 true, .tick 120000000, .beginFailure 2 "alice",
        .commitFailure 2 true] := by
    refine ⟨trivial, fun _ _ _ hcall => ?_, trivial, trivial, fun _ _ _ hcall => ?_,
      trivial, trivial, fun _ _ _ hcall => ?_, trivial⟩
    all_goals
      cases hcall
      rfl
  have h := Run.throughout_states (P := Inv twoAMinute trimmed) (fun _ _ hok h => h.step hok) hcare
    (new_inv twoAMinute trimmed 0 0) _ (Run.final_mem_states _ _ _)
  rw [← Bool.not_eq_true, isLocked_heldAt]
  intro hheld
  obtain ⟨newest, hnewest, hreaches, -⟩ :=
    (h.restart_heldAt_iff 0 0 "alice" le_rfl).1 hheld
  cases hnewest
  revert hreaches
  decide

end Lockout

end Synthorg.Auth
