/-
Permits are counted exactly.

No block under a lock of the store gives up control, so whoever gives it up
holds none of the locks and a caller that comes to a lock finds it free: nobody
ever queues, and an acquire runs from its start to its guarded block, or to its
refusal, with no other caller in between. That is the invariant `Inv`, beside
the count itself: a bucket's counter is the number of the callers that hold one
of its permits. A sweep drops only counters that stand at zero.
-/
import Mathlib.Data.List.Nodup
import Mathlib.Data.List.Perm.Subperm
import Synthorg.RateLimits.InMemoryInflight

namespace Synthorg.RateLimits

open Lib
open Function (update update_self update_of_ne)
open List

variable {κ ι : Type*}

-- ==== who holds what

/-- The caller has a permit: after the increment, and before the decrement. -/
def Point.Holding : Point → Prop
  | .bump | .sweep | .dropRef .returned | .getLockBack | .lower _ => True
  | _ => False

def Stage.Holding : Stage → Prop
  | .coming point | .queued point | .inside point => point.Holding
  | .body => True
  | _ => False

def Caller.Holds (caller : Caller κ) (key : κ) : Prop :=
  caller.key = key ∧ caller.stage.Holding

def Stage.Resting : Stage → Prop
  | .idle | .body | .done _ => True
  | _ => False

/-- THE COUNT: every counter is the number of the callers with a permit. -/
def Tally (count : κ → Int) (callers : ι → Caller κ) : Prop :=
  ∀ key, ∃ holders : List ι, holders.Nodup ∧
    (∀ id, id ∈ holders ↔ (callers id).Holds key) ∧ count key = holders.length

namespace Tally

variable {count count' : κ → Int} {callers : ι → Caller κ} {caller : Caller κ} {id : ι}

variable (h : Tally count callers)
include h

theorem nonneg (key : κ) : 0 ≤ count key := by
  obtain ⟨holders, -, -, hcnt⟩ := h key
  omega

theorem length_le {key : κ} {some : List ι} (hn : some.Nodup)
    (hh : ∀ id ∈ some, (callers id).Holds key) : (some.length : Int) ≤ count key := by
  obtain ⟨holders, -, hmem, hcnt⟩ := h key
  have hsub : some ⊆ holders := fun id hid => (hmem id).2 (hh id hid)
  have hle := (hn.subperm hsub).length_le
  omega

variable [DecidableEq ι]

theorem same (hcnt : ∀ key, count' key = count key)
    (hh : ∀ key, caller.Holds key ↔ (callers id).Holds key) :
    Tally count' (update callers id caller) := by
  intro key
  obtain ⟨holders, hn, hmem, hlen⟩ := h key
  refine ⟨holders, hn, fun other => ?_, (hcnt key).trans hlen⟩
  rw [hmem]
  by_cases ho : other = id
  · rw [ho, update_self]
    exact (hh key).symm
  · rw [update_of_ne ho]

theorem more (hb : ¬ (callers id).stage.Holding)
    (ha : caller.stage.Holding) (hown : count' caller.key = count caller.key + 1)
    (hcnt : ∀ key, key ≠ caller.key → count' key = count key) :
    Tally count' (update callers id caller) := by
  intro key
  obtain ⟨holders, hn, hmem, hlen⟩ := h key
  have hout : id ∉ holders := fun hin => hb ((hmem id).1 hin).2
  by_cases hkey : key = caller.key
  · subst hkey
    refine ⟨id :: holders, nodup_cons.2 ⟨hout, hn⟩, fun other => ?_, ?_⟩
    · rw [mem_cons, hmem]
      by_cases ho : other = id
      · rw [ho, update_self]
        exact iff_of_true (.inl rfl) ⟨rfl, ha⟩
      · simp [ho]
    · rw [length_cons]
      omega
  · refine ⟨holders, hn, fun other => ?_, (hcnt key hkey).trans hlen⟩
    by_cases ho : other = id
    · rw [ho, update_self]
      exact iff_of_false hout fun hh => hkey hh.1.symm
    · rw [update_of_ne ho, hmem]

theorem less (hb : (callers id).stage.Holding) (ha : ¬ caller.stage.Holding)
    (hown : count' (callers id).key = count (callers id).key - 1)
    (hcnt : ∀ key, key ≠ (callers id).key → count' key = count key) :
    Tally count' (update callers id caller) := by
  intro key
  obtain ⟨holders, hn, hmem, hlen⟩ := h key
  by_cases hkey : key = (callers id).key
  · subst hkey
    have hin : id ∈ holders := (hmem id).2 ⟨rfl, hb⟩
    refine ⟨holders.erase id, hn.erase id, fun other => ?_, ?_⟩
    · rw [hn.mem_erase_iff, hmem]
      by_cases ho : other = id
      · rw [ho, update_self]
        exact iff_of_false (fun h => h.1 rfl) fun hh => ha hh.2
      · rw [update_of_ne ho]
        exact and_iff_right ho
    · have hpos := length_pos_of_mem hin
      rw [length_erase_of_mem hin]
      omega
  · have hout : id ∉ holders := fun hin => hkey ((hmem id).1 hin).1.symm
    refine ⟨holders, hn, fun other => ?_, (hcnt key hkey).trans hlen⟩
    by_cases ho : other = id
    · rw [ho, update_self]
      exact iff_of_false hout fun hh => ha hh.2
    · rw [update_of_ne ho, hmem]

end Tally

-- ==== the invariant

def Stage.holds (name : LockName) : Stage → Bool
  | .inside point => point.lock = name
  | _ => false

/-- There was room for the permit of the caller in control, or none. -/
def Point.Judged (count maxInflight : Int) : Point → Prop
  | .bump | .sweep | .dropRef .returned => count ≤ maxInflight
  | .dropRef .refused => maxInflight ≤ count
  | .dropRefBack .refused => False
  | _ => True

def Stage.Judged (count maxInflight : Int) : Stage → Prop
  | .coming point | .inside point => point.Judged count maxInflight
  | _ => True

def State.count (s : State κ ι) (key : κ) : Int := (s.store.counters key).getD 0

def State.heldBy (s : State κ ι) (name : LockName) : Option ι :=
  s.current.filter fun id => (s.callers id).stage.holds name

/-- THE INVARIANT: only the caller in control holds a lock, nobody queues, the counters are
exact. -/
structure Inv (s : State κ ι) : Prop where
  resting : ∀ id, s.current ≠ some id → (s.callers id).stage.Resting
  running : ∀ id, s.current = some id → (s.callers id).stage.control id = some id
  objects : ∀ name, s.store.objects name = ⟨s.heldBy name, []⟩
  tally : Tally s.count s.callers
  judged : ∀ id, s.current = some id →
    (s.callers id).stage.Judged (s.count (s.callers id).key) (s.callers id).maxInflight

variable {s s' : State κ ι} {id : ι} {caller : Caller κ}

theorem Stage.eq_of_control {id id' : ι} {stage : Stage} (h : stage.control id = some id') :
    id' = id := by
  cases stage <;> simp_all [Stage.control]

theorem inv_start (key : κ) : Inv (start key : State κ ι) where
  resting := fun _ _ => trivial
  running := nofun
  objects := fun _ => rfl
  tally := fun _ => ⟨[], nodup_nil, fun _ => by simp [Caller.Holds, Stage.Holding, start], rfl⟩
  judged := nofun

theorem Inv.free (h : Inv s) {name : LockName}
    (hs : ∀ id, s.current = some id → (s.callers id).stage.holds name = false) :
    s.store.objects name = .fresh := by
  rw [h.objects, State.heldBy]
  cases hc : s.current with
  | none => rfl
  | some id => simp [hs id hc, AsyncLock.fresh]

variable [DecidableEq ι]

theorem Inv.of_stage (h : Inv s) (hb : s.current = none ∨ s.current = some id)
    (hcall : s'.callers = update s.callers id caller)
    (hc : s'.current = caller.stage.control id)
    (hs : caller.stage.Resting ∨ caller.stage.control id = some id)
    (hobj : ∀ name, s'.store.objects name =
      ⟨if caller.stage.holds name then some id else none, []⟩)
    (ht : Tally s'.count (update s.callers id caller))
    (hj : caller.stage.Judged (s'.count caller.key) caller.maxInflight) : Inv s' := by
  have hsome : ∀ {id'}, s'.current = some id' → id' = id := fun hid' =>
    Stage.eq_of_control (hc.symm.trans hid')
  have hself : s'.callers id = caller := by rw [hcall, update_self]
  refine ⟨fun id' hnot => ?_, fun id' hid' => ?_, fun name => ?_, ?_, fun id' hid' => ?_⟩
  · by_cases hid : id' = id
    · rw [hid, hself]
      refine hs.resolve_right fun hcontrol => hnot ?_
      rw [hc, hcontrol, hid]
    · rw [hcall, update_of_ne hid]
      refine h.resting id' fun hc => ?_
      rcases hb with hnone | hown
      · simp [hnone] at hc
      · rw [hown, Option.some.injEq] at hc
        exact hid hc.symm
  · obtain rfl := hsome hid'
    rw [hself, ← hc, hid']
  · rw [hobj]
    have hheld : s'.heldBy name = if caller.stage.holds name then some id else none := by
      rw [State.heldBy, hc]
      cases hcaller : caller.stage <;> simp [Stage.control, Stage.holds, Option.filter,
        hself, hcaller]
    rw [hheld]
  · rw [hcall]
    exact ht
  · obtain rfl := hsome hid'
    rw [hself]
    exact hj

-- ==== steps

variable {point : Point} {store : Store κ ι} {key : κ}

omit [DecidableEq ι] in
theorem Inv.free_coming (h : Inv s) (hc : s.current = some id)
    (hs : (s.callers id).stage = .coming point) (name : LockName) :
    s.store.objects name = .fresh := by
  refine h.free fun id' hid' => ?_
  obtain rfl := Option.some.inj (hc.symm.trans hid')
  rw [hs]
  rfl

theorem Inv.come_eq (h : Inv s) (hc : s.current = some id)
    (hs : (s.callers id).stage = .coming point) :
    s.come id point = (s.setObject point.lock (AsyncLock.fresh.take id)).at id (.inside point) := by
  rw [State.come, h.free_coming hc hs, if_pos AsyncLock.open?_fresh]

theorem Inv.come (h : Inv s) (hc : s.current = some id)
    (hs : (s.callers id).stage = .coming point) : Inv (s.come id point) := by
  have hfree := h.free_coming hc hs
  have hj := h.judged id hc
  rw [hs] at hj
  rw [h.come_eq hc hs]
  refine h.of_stage (.inr hc) rfl rfl (.inr rfl) (fun name => ?_) ?_ hj
  · show update s.store.objects point.lock (AsyncLock.fresh.take id) name = _
    by_cases hname : name = point.lock
    · rw [hname]
      simp [Stage.holds, AsyncLock.take, AsyncLock.fresh]
    · rw [update_of_ne hname, hfree]
      simp [Stage.holds, AsyncLock.fresh, Ne.symm hname]
  · refine h.tally.same (fun _ => rfl) fun key => ?_
    show _ ∧ point.Holding ↔ _ ∧ (s.callers id).stage.Holding
    rw [hs]
    exact Iff.rfl

variable [DecidableEq κ]

omit [DecidableEq ι] in
theorem admit_eq_none_iff {maxInflight : Int} :
    store.admit key maxInflight = none ↔ maxInflight ≤ (store.counters key).getD 0 := by
  unfold Store.admit
  dsimp only
  split
  next hfull => exact iff_of_true rfl hfull
  next hroom => exact iff_of_false nofun hroom

omit [DecidableEq ι] in
theorem admit_eq_some {store' : Store κ ι} {maxInflight : Int}
    (h : store.admit key maxInflight = some store') :
    (store.counters key).getD 0 < maxInflight ∧ store' = { store with
      counters := update store.counters key
        (some ((store.counters key).getD 0 + 1)) } := by
  unfold Store.admit at h
  dsimp only at h
  split at h
  · cases h
  next hroom => exact ⟨by omega, (Option.some.inj h).symm⟩

omit [DecidableEq κ] [DecidableEq ι] in
theorem gcColdBuckets_count (hn : 0 ≤ (store.counters key).getD 0) :
    (store.gcColdBuckets.counters key).getD 0 = (store.counters key).getD 0 := by
  unfold Store.gcColdBuckets
  dsimp only
  split
  next hdead =>
    obtain ⟨hcold, -⟩ := Bool.and_eq_true_iff.1 hdead
    cases hcnt : store.counters key with
    | none => rfl
    | some count =>
      rw [hcnt] at hcold hn
      have hle : count ≤ 0 := by simpa using hcold
      have hge : 0 ≤ count := hn
      show 0 = count
      omega
  next => rfl

theorem Inv.finish_to (h : Inv s) (hc : s.current = some id)
    (hs : (s.callers id).stage = .inside point) {store' : Store κ ι} {stage' : Stage}
    (hsubject : s.store.section (s.callers id) point = (store', stage'))
    (hobj : store'.objects = s.store.objects)
    (hshaped : stage'.Resting ∨ stage'.control id = some id)
    (houts : ∀ name, stage'.holds name = false)
    (ht : Tally (fun key => (store'.counters key).getD 0)
      (update s.callers id { s.callers id with stage := stage' }))
    (hj : stage'.Judged ((store'.counters (s.callers id).key).getD 0)
      (s.callers id).maxInflight) : Inv (s.finish id point) := by
  rw [State.finish, hsubject]
  refine h.of_stage (.inr hc) rfl rfl hshaped (fun name => ?_) ht hj
  show update store'.objects point.lock (store'.objects point.lock).release name = _
  rw [hobj, if_neg (by rw [houts]; exact Bool.false_ne_true)]
  by_cases hname : name = point.lock
  · rw [hname, update_self, h.objects]
    rfl
  · rw [update_of_ne hname, h.objects, State.heldBy, hc]
    have ho : (Stage.inside point).holds name = false := by
      simp [Stage.holds, Ne.symm hname]
    simp [hs, ho]

/-- STEP LEMMA: a block under a lock keeps the count exact. -/
theorem Inv.finish (h : Inv s) (hc : s.current = some id)
    (hs : (s.callers id).stage = .inside point) : Inv (s.finish id point) := by
  have hj := h.judged id hc
  rw [hs] at hj
  -- a caller that keeps what it has leaves the count alone
  have hk : ∀ {count' : κ → Int} {stage' : Stage}, (∀ key, count' key = s.count key) →
      (stage'.Holding ↔ point.Holding) →
        Tally count' (update s.callers id { s.callers id with stage := stage' }) := by
    intro count' stage' hcnt hhold
    refine h.tally.same hcnt fun key => ?_
    show _ ∧ stage'.Holding ↔ _ ∧ (s.callers id).stage.Holding
    rw [hs, hhold]
    exact Iff.rfl
  cases point with
  | getLock =>
    exact h.finish_to hc hs rfl rfl (.inr rfl) (fun _ => rfl)
      (hk (fun _ => rfl) Iff.rfl) trivial
  | check lock =>
    cases ha : s.store.admit (s.callers id).key (s.callers id).maxInflight with
    | none =>
      have hfull := admit_eq_none_iff.1 ha
      have hsubject : s.store.section (s.callers id) (.check lock) =
          (s.store, .coming (.dropRef .refused)) := by
        simp only [Store.section, ha]
      exact h.finish_to hc hs hsubject rfl (.inr rfl) (fun _ => rfl)
        (hk (fun _ => rfl) Iff.rfl) hfull
    | some store' =>
      have hsubject : s.store.section (s.callers id) (.check lock) = (store', .coming .bump) := by
        simp only [Store.section, ha]
      obtain ⟨hroom, rfl⟩ := admit_eq_some ha
      refine h.finish_to hc hs hsubject rfl (.inr rfl) (fun _ => rfl) ?_ ?_
      · refine h.tally.more ?_ trivial ?_ fun key hkey => ?_
        · rw [hs]
          exact not_false
        · show (update s.store.counters _ _ _).getD 0 = _
          rw [update_self]
          rfl
        · show (update s.store.counters _ _ _).getD 0 = _
          rw [update_of_ne hkey]
          rfl
      · show (update s.store.counters _ _ _).getD 0 ≤ _
        rw [update_self]
        show (s.store.counters (s.callers id).key).getD 0 + 1 ≤ (s.callers id).maxInflight
        omega
  | bump =>
    by_cases hdue : s.store.acquiresSinceGc + 1 ≥ gcEveryNAcquires
    · have hsubject : s.store.section (s.callers id) .bump =
          ({ s.store with acquiresSinceGc := 0 }, .coming .sweep) := if_pos hdue
      exact h.finish_to hc hs hsubject rfl (.inr rfl) (fun _ => rfl)
        (hk (fun _ => rfl) Iff.rfl) hj
    · have hsubject : s.store.section (s.callers id) .bump =
          ({ s.store with acquiresSinceGc := s.store.acquiresSinceGc + 1 },
            .coming (.dropRef .returned)) := if_neg hdue
      exact h.finish_to hc hs hsubject rfl (.inr rfl) (fun _ => rfl)
        (hk (fun _ => rfl) Iff.rfl) hj
  | sweep =>
    have hcnt : ∀ key, (s.store.gcColdBuckets.counters key).getD 0 = s.count key :=
      fun key => gcColdBuckets_count (h.tally.nonneg key)
    refine h.finish_to hc hs rfl rfl (.inr rfl) (fun _ => rfl) (hk hcnt Iff.rfl) ?_
    show (s.store.gcColdBuckets.counters _).getD 0 ≤ _
    rw [hcnt]
    exact hj
  | dropRef ending =>
    cases ending with
    | returned =>
      exact h.finish_to hc hs rfl rfl (.inl trivial) (fun _ => rfl)
        (hk (fun _ => rfl) Iff.rfl) trivial
    | refused | cancelled =>
      exact h.finish_to hc hs rfl rfl (.inl trivial) (fun _ => rfl)
        (hk (fun _ => rfl) Iff.rfl) trivial
  | getLockBack =>
    exact h.finish_to hc hs rfl rfl (.inr rfl) (fun _ => rfl)
      (hk (fun _ => rfl) Iff.rfl) trivial
  | lower lock =>
    have hone : 1 ≤ s.count (s.callers id).key := by
      have hh : ∀ id' ∈ [id], (s.callers id').Holds (s.callers id).key := by
        intro id' hid'
        obtain rfl := mem_singleton.1 hid'
        exact ⟨rfl, by rw [hs]; trivial⟩
      simpa using h.tally.length_le (nodup_singleton id) hh
    refine h.finish_to hc hs rfl rfl (.inr rfl) (fun _ => rfl) ?_ trivial
    refine h.tally.less (by rw [hs]; trivial) not_false ?_ fun key hkey => ?_
    · show (update s.store.counters _ _ _).getD 0 = _
      rw [update_self]
      show (if s.count (s.callers id).key ≤ 0 then 0 else s.count (s.callers id).key - 1) = _
      rw [if_neg (by omega)]
    · show (update s.store.counters _ _ _).getD 0 = _
      rw [update_of_ne hkey]
      rfl
  | dropRefBack ending =>
    exact h.finish_to hc hs rfl rfl (.inl trivial) (fun _ => rfl)
      (hk (fun _ => rfl) Iff.rfl) trivial

/-- STEP LEMMA: whatever happens, the invariant goes on. -/
theorem Inv.step (h : Inv s) (event : Event κ ι) : Inv (step s event) := by
  cases hc : s.current with
  | some id =>
    cases event with
    | run =>
      rw [RateLimits.step, hc]
      show Inv (s.go id)
      unfold State.go
      cases hs : (s.callers id).stage with
      | coming point => exact h.come hc hs
      | inside point => exact h.finish hc hs
      | _ => exact h
    | _ =>
      unfold RateLimits.step
      rw [hc]
      exact h
  | none =>
    have hres : ∀ id, (s.callers id).stage.Resting := fun id =>
      h.resting id (by simp [hc])
    have hfree : ∀ name, s.store.objects name = .fresh := fun name =>
      h.free (by simp [hc])
    have hstep : RateLimits.step s event = s.resume event := by
      unfold RateLimits.step
      rw [hc]
    rw [hstep]
    cases event with
    | start id key maxInflight =>
      rw [State.resume]
      split
      next hidle =>
        refine h.of_stage (.inl hc) rfl rfl (.inr rfl) hfree ?_ trivial
        refine h.tally.same (fun _ => rfl) fun key => ?_
        refine iff_of_false (fun hh => hh.2) fun hh => ?_
        have hheld := hh.2
        rw [hidle.1] at hheld
        exact hheld
      next => exact h
    | run => exact h
    | wake id =>
      rw [State.resume]
      split
      next point hq =>
        have hrest := hres id
        rw [hq] at hrest
        exact hrest.elim
      next => exact h
    | leave id =>
      rw [State.resume]
      split
      next hbody =>
        refine h.of_stage (.inl hc) rfl rfl (.inr rfl) hfree ?_ trivial
        refine h.tally.same (fun _ => rfl) fun key => ?_
        show _ ∧ True ↔ _ ∧ (s.callers id).stage.Holding
        rw [hbody]
        exact Iff.rfl
      next => exact h
    | cancel id =>
      rw [State.resume]
      split
      next point hq =>
        have hrest := hres id
        rw [hq] at hrest
        exact hrest.elim
      next => exact h

-- ==== permits are exact

/-- INVERSION: a caller stays where it is, goes on in control, or ends a block. -/
theorem Inv.way (h : Inv s) (event : Event κ ι) (id : ι) :
    (RateLimits.step s event).callers id = s.callers id ∨
      ((RateLimits.step s event).callers id).stage.control id = some id ∨
        ∃ point, s.current = some id ∧ (s.callers id).stage = .inside point ∧
          RateLimits.step s event = s.finish id point := by
  have hnext := h.step event
  by_cases hc : (RateLimits.step s event).current = some id
  · exact .inr (.inl (hnext.running id hc))
  cases hb : s.current with
  | none =>
    have hstep : RateLimits.step s event = s.resume event := by
      unfold RateLimits.step
      rw [hb]
    have hres := fun id => h.resting id (by rw [hb]; exact nofun)
    rw [hstep] at hc ⊢
    -- a caller that gets control has it, and the others stay
    have ho : ∀ {id' : ι} {stage : Stage}, (stage.control id' = some id') →
        (s.at id' stage).current ≠ some id → (s.at id' stage).callers id = s.callers id := by
      intro id' stage hcontrol hnot
      have hne : id ≠ id' := by
        rintro rfl
        exact hnot hcontrol
      exact update_of_ne hne _ _
    left
    cases event with
    | start id' key maxInflight =>
      rw [State.resume] at hc ⊢
      split at hc
      next hidle =>
        have hne : id ≠ id' := by
          rintro rfl
          exact hc rfl
        rw [if_pos hidle]
        exact update_of_ne hne _ _
      next hnot => rw [if_neg hnot]
    | run => rfl
    | leave id' =>
      rw [State.resume] at hc ⊢
      split at hc
      next hbody =>
        rw [if_pos hbody]
        exact ho rfl hc
      next hnot => rw [if_neg hnot]
    | wake id' | cancel id' =>
      rw [State.resume]
      split
      next point hq =>
        have hrest := hres id'
        rw [hq] at hrest
        exact hrest.elim
      next => rfl
  | some id' =>
    cases event with
    | run =>
      have hstep : RateLimits.step s .run = s.go id' := by
        unfold RateLimits.step
        rw [hb]
      by_cases hid : id = id'
      · subst hid
        right
        right
        have hr := h.running id hb
        rw [hstep] at hc ⊢
        unfold State.go at hc ⊢
        cases hs : (s.callers id).stage with
        | inside point => exact ⟨point, rfl, rfl, rfl⟩
        | coming point =>
          rw [hs] at hc
          refine absurd ?_ hc
          show (s.come id point).current = some id
          rw [h.come_eq hb hs]
          rfl
        | _ =>
          rw [hs] at hr
          cases hr
      · left
        rw [hstep]
        unfold State.go
        split
        · rw [State.come]
          split
          · exact update_of_ne hid _ _
          · exact update_of_ne hid _ _
        · exact update_of_ne hid _ _
        · rfl
    | _ =>
      left
      unfold RateLimits.step
      rw [hb]

omit [DecidableEq ι] in
theorem section_answers {caller : Caller κ}
    (hj : point.Judged ((store.counters caller.key).getD 0) caller.maxInflight) :
    ((store.section caller point).2 = .body →
        ((store.section caller point).1.counters caller.key).getD 0 ≤ caller.maxInflight) ∧
      ((store.section caller point).2 = .done .refused →
        caller.maxInflight ≤ ((store.section caller point).1.counters caller.key).getD 0) := by
  cases point with
  | check lock =>
    cases ha : store.admit caller.key caller.maxInflight <;>
      simp only [Store.section, ha] <;> exact ⟨nofun, nofun⟩
  | bump =>
    simp only [Store.section]
    split <;> exact ⟨nofun, nofun⟩
  | dropRef ending =>
    cases ending with
    | returned => exact ⟨fun _ => hj, nofun⟩
    | refused => exact ⟨nofun, fun _ => hj⟩
    | cancelled => exact ⟨nofun, nofun⟩
  | dropRefBack ending =>
    cases ending with
    | refused => exact hj.elim
    | returned | cancelled => exact ⟨nofun, nofun⟩
  | _ => exact ⟨nofun, nofun⟩

structure Exact (s : State κ ι) : Prop where
  room : ∀ event id, (s.callers id).stage ≠ .body →
    ((step s event).callers id).stage = .body → ∀ others : List ι, others.Nodup →
      (∀ other ∈ others, other ≠ id ∧
        ((step s event).callers other).Holds ((step s event).callers id).key) →
          (others.length : Int) ≤ ((step s event).callers id).maxInflight - 1
  full : ∀ event id, (s.callers id).stage ≠ .done .refused →
    ((step s event).callers id).stage = .done .refused → ∃ holders : List ι, holders.Nodup ∧
      (∀ holder ∈ holders,
        ((step s event).callers holder).Holds ((step s event).callers id).key) ∧
          ((step s event).callers id).maxInflight ≤ holders.length
  one_lock : ∀ id id' point point' lock lock', (s.callers id).stage = .inside point →
    (s.callers id').stage = .inside point' → point.lock = .bucket lock →
      point'.lock = .bucket lock' → (s.callers id).key = (s.callers id').key → lock = lock'
  /-- Nothing is left of a permit once everybody is gone. -/
  returned : (∀ id, (s.callers id).stage = .idle ∨ ∃ ending, (s.callers id).stage = .done ending) →
    ∀ key, s.store.counters key = none ∨ s.store.counters key = some 0

theorem Inv.exact (h : Inv s) : Exact s := by
  -- the step that answers a caller is the end of a block of its own
  have hanswers : ∀ event id stage, stage.control id = none → (s.callers id).stage ≠ stage →
      ((RateLimits.step s event).callers id).stage = stage → ∃ point,
        (s.callers id).stage = .inside point ∧ s.current = some id ∧
          RateLimits.step s event = s.finish id point := by
    intro event id stage hcontrol hb ha
    rcases h.way event id with hsame | hr | ⟨point, hc, hs, hstep⟩
    · rw [hsame] at ha
      exact absurd ha hb
    · simp [ha, hcontrol] at hr
    · exact ⟨point, hs, hc, hstep⟩
  have hf : ∀ id point, (s.finish id point).callers id =
      { s.callers id with stage := (s.store.section (s.callers id) point).2 } := by
    intro id point
    exact update_self _ _ _
  refine ⟨?_, ?_, ?_, ?_⟩
  · intro event id hb ha others hn hh
    obtain ⟨point, hs, hc, hstep⟩ := hanswers event id _ rfl hb ha
    have hj := h.judged id hc
    rw [hs] at hj
    have hnext := h.step event
    have hcall : ((RateLimits.step s event).callers id) =
        { s.callers id with stage := (s.store.section (s.callers id) point).2 } := by
      rw [hstep, hf]
    have hle : (RateLimits.step s event).count ((RateLimits.step s event).callers id).key ≤
        ((RateLimits.step s event).callers id).maxInflight := by
      rw [hcall, hstep]
      rw [hcall] at ha
      exact (section_answers hj).1 ha
    have hall : ∀ other ∈ id :: others, ((RateLimits.step s event).callers other).Holds
        ((RateLimits.step s event).callers id).key := by
      rw [forall_mem_cons]
      exact ⟨⟨rfl, by rw [ha]; trivial⟩, fun other ho => (hh other ho).2⟩
    have hlen := hnext.tally.length_le (nodup_cons.2 ⟨fun hin => (hh id hin).1 rfl, hn⟩) hall
    rw [length_cons] at hlen
    omega
  · intro event id hb ha
    obtain ⟨point, hs, hc, hstep⟩ := hanswers event id _ rfl hb ha
    have hj := h.judged id hc
    rw [hs] at hj
    have hcall : ((RateLimits.step s event).callers id) =
        { s.callers id with stage := (s.store.section (s.callers id) point).2 } := by
      rw [hstep, hf]
    obtain ⟨holders, hn, hmem, hcnt⟩ :=
      (h.step event).tally ((RateLimits.step s event).callers id).key
    refine ⟨holders, hn, fun holder hin => (hmem holder).1 hin, ?_⟩
    rw [← hcnt, hcall, hstep]
    rw [hcall] at ha
    exact (section_answers hj).2 ha
  · intro id id' point point' lock lock' hs hs' hlock hlock' _
    have hin : ∀ {id point}, (s.callers id).stage = .inside point → s.current = some id := by
      intro id point hins
      by_contra hout
      have hrest := h.resting id hout
      rw [hins] at hrest
      exact hrest
    obtain rfl := Option.some.inj ((hin hs).symm.trans (hin hs'))
    obtain rfl := Stage.inside.inj (hs.symm.trans hs')
    exact LockName.bucket.inj (hlock.symm.trans hlock')
  · intro hgone key
    obtain ⟨holders, -, hmem, hcnt⟩ := h.tally key
    have hnone : holders = [] := by
      rw [eq_nil_iff_forall_not_mem]
      intro id hid
      have hhold := ((hmem id).1 hid).2
      rcases hgone id with hidle | ⟨ending, hdone⟩
      · rw [hidle] at hhold
        exact hhold
      · rw [hdone] at hhold
        exact hhold
    rw [hnone] at hcnt
    cases hcount : s.store.counters key with
    | none => exact .inl rfl
    | some count =>
      rw [State.count, hcount] at hcnt
      exact .inr (congrArg some hcnt)

/-- PERMITS ARE EXACT: in every run, with callers cancelled anywhere, an acquire that succeeds
leaves the bucket within its limit, one that is refused met a full one, a bucket has one lock,
and nothing is left of a permit once everybody is gone. -/
theorem permits_exact (key : κ) (events : List (Event κ ι)) :
    ∀ s ∈ Run.states step (start key : State κ ι) events, Exact s := by
  intro s hs
  obtain ⟨before, after, -, rfl⟩ := (Run.mem_states_iff step _ s events).1 hs
  exact (Run.kept (fun _ event h => h.step event) (inv_start key) before).exact

/-- Two callers of a bucket of one: the second is refused, and the first leaves. -/
def refusedMeanwhile : List (Event Nat Nat) :=
  [.start 0 0 1] ++ replicate 8 .run ++ [.start 1 0 1] ++ replicate 6 .run ++
    [.leave 0] ++ replicate 6 .run

theorem permits_exact_two : let s := Run.final step (start 0) refusedMeanwhile
    Exact s ∧ (s.callers 0).stage = .done .returned ∧ (s.callers 1).stage = .done .refused :=
  ⟨permits_exact 0 _ _ (Run.final_mem_states _ _ _), by decide, by decide⟩

end Synthorg.RateLimits
