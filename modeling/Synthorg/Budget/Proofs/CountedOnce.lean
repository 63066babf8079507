/-
What is counted once.

Two invariants. `Reserved` holds in every run: a claim is reserved exactly while a call for it is
under way, there is one such call at most, and every increment stands behind its dedup row.
`Admits` and `Known` are about the window: a claim whose append was dropped stays out of the LRU,
and a call cancelled after its increment leaves a claim the window never gets. `Sound` says of a
step that it does neither.
-/
import Synthorg.Budget.Tracker

namespace Synthorg.Budget

open Lib
open List

variable {Claim Project : Type}

-- ==== calls under way

variable {id : CallId} {record : CostRecord Claim Project} {stage : Stage Claim Project}
  {config : Config} {s : State Claim Project}

theorem underWay_of_record (h : (s.calls id).record? = some record) : UnderWay s record.claimId :=
  ⟨id, record, h, rfl⟩

theorem underWay_setCall (hsame : stage.record? = (s.calls id).record?)
    (claim : Claim) : UnderWay (s.setCall id stage) claim ↔ UnderWay s claim := by
  have hc : ∀ i, ((s.setCall id stage).calls i).record? = (s.calls i).record? := by
    intro i
    by_cases hi : i = id
    · rw [hi, State.setCall_self, hsame]
    · rw [State.setCall_of_ne _ _ hi]
  unfold UnderWay
  simp only [hc]

theorem underWay_enter (h : s.calls id = .idle) (hs : stage.record? = some record)
    (claim : Claim) :
    UnderWay (s.setCall id stage) claim ↔ UnderWay s claim ∨ record.claimId = claim := by
  constructor
  · rintro ⟨i, r, hr, hc⟩
    by_cases hi : i = id
    · rw [hi, State.setCall_self, hs, Option.some.injEq] at hr
      exact .inr (hr ▸ hc)
    · rw [State.setCall_of_ne _ _ hi] at hr
      exact .inl ⟨i, r, hr, hc⟩
  · rintro (⟨i, r, hr, hc⟩ | hc)
    · refine ⟨i, r, ?_, hc⟩
      have hi : i ≠ id := by
        intro hi
        rw [hi, h] at hr
        cases hr
      rwa [State.setCall_of_ne _ _ hi]
    · exact ⟨id, record, by rw [State.setCall_self, hs], hc⟩

def Alone (s : State Claim Project) : Prop :=
  ∀ i j r r', (s.calls i).record? = some r → (s.calls j).record? = some r' →
    r.claimId = r'.claimId → i = j

theorem underWay_exit (ha : Alone s) (h : (s.calls id).record? = some record) (claim : Claim) :
    UnderWay (s.setCall id .exited) claim ↔ UnderWay s claim ∧ claim ≠ record.claimId := by
  constructor
  · rintro ⟨i, r, hr, hc⟩
    by_cases hi : i = id
    · rw [hi, State.setCall_self] at hr
      cases hr
    · rw [State.setCall_of_ne _ _ hi] at hr
      refine ⟨⟨i, r, hr, hc⟩, fun heq => hi ?_⟩
      exact ha i id r record hr h (hc.trans heq)
  · rintro ⟨⟨i, r, hr, hc⟩, hne⟩
    refine ⟨i, r, ?_, hc⟩
    have hi : i ≠ id := by
      intro hi
      rw [hi, h, Option.some.injEq] at hr
      exact hne (by rw [← hc, hr])
    rwa [State.setCall_of_ne _ _ hi]

theorem Alone.of_calls {s s' : State Claim Project} (h : Alone s)
    (hc : ∀ i r, (s'.calls i).record? = some r → (s.calls i).record? = some r) : Alone s' :=
  fun i j r r' hr hr' => h i j r r' (hc i r hr) (hc j r' hr')

theorem Alone.setCall (h : Alone s)
    (hs : ∀ r, stage.record? = some r → (s.calls id).record? = some r) :
    Alone (s.setCall id stage) := by
  refine h.of_calls fun i r hr => ?_
  by_cases hi : i = id
  · rw [hi, State.setCall_self] at hr
    rw [hi]
    exact hs r hr
  · rwa [State.setCall_of_ne _ _ hi] at hr

-- ==== reserved, in every run

variable [DecidableEq Claim]

/-- WHAT EVERY RUN KEEPS. -/
structure Reserved (s : State Claim Project) : Prop where
  billed : ∀ r ∈ s.increments, r.claimId ∈ s.claimSeen
  billedOnce : (s.increments.map CostRecord.claimId).Nodup
  inflight : ∀ claim, claim ∈ s.inflightClaims ↔ UnderWay s claim
  alone : Alone s

namespace Reserved

variable {s : State Claim Project}

omit [DecidableEq Claim] in
theorem congr {s' : State Claim Project} (h : Reserved s) (hc : s'.calls = s.calls)
    (hinflight : s'.inflightClaims = s.inflightClaims)
    (hi : s'.increments = s.increments) (hseen : s'.claimSeen = s.claimSeen) :
    Reserved s' where
  billed := by
    rw [hi, hseen]
    exact h.billed
  billedOnce := by
    rw [hi]
    exact h.billedOnce
  inflight claim := by
    rw [hinflight, h.inflight]
    unfold UnderWay
    rw [hc]
  alone := by
    unfold Alone
    rw [hc]
    exact h.alone

variable {id : CallId} {record : CostRecord Claim Project} {config : Config}

variable (h : Reserved s) {stage : Stage Claim Project}
include h

omit [DecidableEq Claim] in
theorem goOn (hsame : stage.record? = (s.calls id).record?) : Reserved (s.setCall id stage) :=
  { h with
    inflight claim := by
      rw [underWay_setCall hsame]
      exact h.inflight claim
    alone := h.alone.setCall fun r hr => by rwa [← hsame] }

theorem exit (hrec : (s.calls id).record? = some record) :
    Reserved ((s.release record.claimId).setCall id .exited) where
  billed := h.billed
  billedOnce := h.billedOnce
  inflight claim := by
    have hexit : UnderWay ((s.release record.claimId).setCall id .exited) claim ↔
        UnderWay s claim ∧ claim ≠ record.claimId := underWay_exit h.alone hrec claim
    rw [hexit, ← h.inflight]
    simp [State.release, State.setCall]
  alone := h.alone.setCall nofun

omit [DecidableEq Claim] in
theorem enter (hidle : s.calls id = .idle) (hs : stage.record? = some record)
    (hfree : record.claimId ∉ s.inflightClaims) :
    Reserved ({ s with inflightClaims := s.inflightClaims ++ [record.claimId] }.setCall id
      stage) where
  billed := h.billed
  billedOnce := h.billedOnce
  inflight claim := by
    have he : UnderWay ({ s with
        inflightClaims := s.inflightClaims ++ [record.claimId] }.setCall id stage) claim ↔
          UnderWay s claim ∨ record.claimId = claim := underWay_enter hidle hs claim
    rw [he, ← h.inflight]
    simp [State.setCall, eq_comm]
  alone := by
    -- nobody else is under way for the claim: it was not reserved
    have hnone : ∀ j r, (s.calls j).record? = some r → r.claimId ≠ record.claimId := by
      intro j r hr heq
      exact hfree ((h.inflight _).2 (heq ▸ underWay_of_record hr))
    intro i j r r' hr hr' heq
    by_cases hi : i = id <;> by_cases hj : j = id
    · rw [hi, hj]
    · rw [hi, State.setCall_self, hs, Option.some.injEq] at hr
      rw [State.setCall_of_ne _ _ hj] at hr'
      exact absurd (heq.symm.trans (congrArg _ hr.symm)) (hnone j r' hr')
    · rw [State.setCall_of_ne _ _ hi] at hr
      rw [hj, State.setCall_self, hs, Option.some.injEq] at hr'
      exact absurd (heq.trans (congrArg _ hr'.symm)) (hnone i r hr)
    · rw [State.setCall_of_ne _ _ hi] at hr
      rw [State.setCall_of_ne _ _ hj] at hr'
      exact h.alone i j r r' hr hr' heq

theorem deliver (hidle : s.calls id = .idle) : Reserved (deliver config s id record) := by
  rw [Budget.deliver]
  split
  next => exact h.goOn (by rw [hidle]; rfl)
  next =>
    split
    next =>
      have hc : ∀ seen, Reserved { s with seenClaims := seen } :=
        fun _ => h.congr rfl rfl rfl rfl
      exact (hc _).goOn (by rw [hidle]; rfl)
    next hfree =>
      refine h.enter hidle ?_ (not_or.1 hfree).1
      split <;> rfl

theorem commit (id : CallId) : Reserved (commit s id) := by
  rw [Budget.commit]
  split
  next record hcall =>
    have hsame : ∀ answer, (Stage.incrementing record answer).record? = (s.calls id).record? :=
      fun _ => by rw [hcall]; rfl
    by_cases hseen : record.claimId ∈ s.claimSeen
    · simp only [State.incrementIfUnseen, if_pos hseen]
      exact h.goOn (hsame _)
    · simp only [State.incrementIfUnseen, if_neg hseen]
      have hbill : Reserved { s with
          claimSeen := s.claimSeen ++ [record.claimId]
          increments := s.increments ++ [record] } :=
        { billed := fun r hr => by
            rw [mem_append, mem_singleton] at hr ⊢
            rcases hr with hr | hr
            · exact .inl (h.billed r hr)
            · exact .inr (by rw [hr])
          billedOnce := by
            rw [map_append, map_singleton, nodup_append_comm, singleton_append, nodup_cons]
            refine ⟨fun hmem => hseen ?_, h.billedOnce⟩
            obtain ⟨r, hr, heq⟩ := mem_map.1 hmem
            exact heq ▸ h.billed r hr
          inflight := h.inflight
          alone := h.alone }
      exact hbill.goOn (hsame _)
  next => exact h

omit [DecidableEq Claim] in
theorem incremented (id : CallId) : Reserved (incremented s id) := by
  rw [Budget.incremented]
  split
  next record hcall => exact h.goOn (by rw [hcall]; rfl)
  next record hcall => exact h.goOn (by rw [hcall]; rfl)
  next => exact h

omit [DecidableEq Claim] in
theorem incrementFailed (id : CallId) : Reserved (incrementFailed s id) := by
  rw [Budget.incrementFailed]
  split
  next record _ hcall => exact h.goOn (by rw [hcall]; rfl)
  next => exact h

theorem insertRow (record : CostRecord Claim Project) : Reserved (s.insertRow record) := by
  rw [State.insertRow]
  split
  next => exact h
  next => exact h.congr rfl rfl rfl rfl

theorem finalise {recorded : Bool} (hrec : (s.calls id).record? = some record) :
    Reserved (finalise config s id record recorded) := by
  rw [Budget.finalise]
  split <;> exact (h.exit hrec).congr rfl rfl rfl rfl

theorem complete {recorded : Bool} (hrec : (s.calls id).record? = some record) :
    Reserved (complete config s id record recorded) := by
  rw [Budget.complete]
  split <;> exact (h.exit hrec).congr rfl rfl rfl rfl

theorem absorbRows (config : Config) (rows : List (CostRecord Claim Project)) :
    Reserved (rows.foldl (absorb config) s) := by
  induction rows generalizing s with
  | nil => exact h
  | cons row rows ih =>
    refine ih ?_
    rw [absorb]
    split
    next => exact h
    next => exact h.congr rfl rfl rfl rfl

omit [DecidableEq Claim] in
theorem readPage (config : Config) (id : CallId) : Reserved (readPage config s id) := by
  rw [Budget.readPage]
  split
  next =>
    dsimp only
    split
    next => exact h.congr rfl rfl rfl rfl
    next => split <;> exact h.congr rfl rfl rfl rfl
  next => exact h

omit [DecidableEq Claim] in
theorem restart : Reserved (restart s) :=
  { h with
    inflight claim := by
      refine ⟨fun hmem => (by cases hmem), fun hcall => ?_⟩
      obtain ⟨id, r, hr, -⟩ := hcall
      cases hr
    alone i j r r' hr := by cases hr }

/-- STEP LEMMA. -/
theorem step (config : Config) (event : Event Claim Project) : Reserved (step config s event) := by
  cases event with
  | deliver id record =>
    rw [Budget.step]
    split
    next hidle => exact h.deliver hidle
    next => exact h
  | commit id => exact h.commit id
  | incremented id => exact h.incremented id
  | incrementFailed id => exact h.incrementFailed id
  | write id =>
    rw [Budget.step, write]
    split
    next record _ => exact h.insertRow record
    next record _ => exact h.insertRow record
    next => exact h
  | appended id =>
    rw [Budget.step, appended]
    split
    next record hcall =>
      split
      next => exact h.finalise (by rw [hcall]; rfl)
      next => exact h
    next record hcall =>
      split
      next => exact h.complete (by rw [hcall]; rfl)
      next => exact h
    next => exact h
  | dropped id =>
    rw [Budget.step, dropped]
    split
    next record hcall => exact h.finalise (by rw [hcall]; rfl)
    next record hcall => exact h.complete (by rw [hcall]; rfl)
    next => exact h
  | cancelled id =>
    rw [Budget.step, cancelled]
    split
    next record hcall => exact h.exit hcall
    next => exact h
  | hydrate id now =>
    rw [Budget.step]
    split
    next => exact h.congr rfl rfl rfl rfl
    next => exact h
  | readPage id => exact h.readPage config id
  | hydrationFailed id =>
    rw [Budget.step]
    split
    next => exact h.congr rfl rfl rfl rfl
    next => exact h
  | absorb id =>
    rw [Budget.step]
    split
    next pages _ =>
      have hw : Reserved { s with written := s.written ++ oldestFirst pages } :=
        h.congr rfl rfl rfl rfl
      exact (hw.absorbRows config (oldestFirst pages)).congr rfl rfl rfl rfl
    next => exact h
  | prune now => exact h.congr rfl rfl rfl rfl
  | restart => exact h.restart

end Reserved

omit [DecidableEq Claim] in
theorem reserved_start : Reserved (start : State Claim Project) where
  billed := forall_mem_nil _
  billedOnce := nodup_nil
  inflight claim := by
    refine ⟨fun hmem => (by cases hmem), fun hcall => ?_⟩
    obtain ⟨id, r, hr, -⟩ := hcall
    cases hr
  alone i j r r' hr := by cases hr

/-- RUN LEMMA: no run bills a claim twice or strands a reservation. -/
theorem reserved_run (config : Config) (events : List (Event Claim Project)) :
    Reserved (Run.final (step config) start events) :=
  Run.kept (fun _ event hs => hs.step config event) reserved_start events

-- ==== the window of a process

omit [DecidableEq Claim] in
def HeldHere (s : State Claim Project) (claim : Claim) : Prop :=
  claim ∈ s.admitted.map CostRecord.claimId

omit [DecidableEq Claim] in
structure Admits (s : State Claim Project) : Prop where
  fresh : ∀ id record, s.calls id = .finalising record → ¬ HeldHere s record.claimId
  admittedOnce : (s.admitted.map CostRecord.claimId).Nodup
  seen : ∀ claim ∈ s.seenClaims, HeldHere s claim
  window : s.records.Sublist s.admitted
  kept : ∀ record ∈ s.admitted, record ∈ s.records ∨
    ∃ cutoff ∈ s.cutoffs, record.timestamp < cutoff

omit [DecidableEq Claim] in
/-- A row this process wrote or hydrated was let in, or a call may still do
so. -/
def Known (s : State Claim Project) : Prop :=
  ∀ row ∈ s.written, HeldHere s row.claimId ∨ UnderWay s row.claimId

theorem mem_promoteSeenClaim {claim c : Claim}
    (h : c ∈ (s.promoteSeenClaim config claim).seenClaims) : c ∈ s.seenClaims ∨ c = claim := by
  have hmem := mem_of_mem_drop h
  rw [mem_append, mem_singleton] at hmem
  exact hmem.imp (fun hc => (mem_filter.1 hc).1) id

/-- Where nothing is dropped from the LRU, they are all in it. -/
theorem promoteSeenClaim_of_fits {claim : Claim}
    (h : (s.promoteSeenClaim config claim).evicted = []) :
    ∀ c, c ∈ s.seenClaims ∨ c = claim → c ∈ (s.promoteSeenClaim config claim).seenClaims := by
  intro c hc
  have htake := (append_eq_nil_iff.1 h).2
  rw [take_eq_nil_iff] at htake
  have hfits := htake.resolve_right (by simp)
  show c ∈ List.drop _ _
  rw [hfits, drop_zero, mem_append, mem_singleton]
  by_cases heq : c = claim
  · exact .inr heq
  · exact .inl (mem_filter.2 ⟨hc.resolve_right heq, by simpa using heq⟩)

namespace Admits

variable {s : State Claim Project}

omit [DecidableEq Claim] in
theorem congr {s' : State Claim Project} (h : Admits s) (hc : s'.calls = s.calls)
    (ha : s'.admitted = s.admitted) (hrecs : s'.records = s.records)
    (hseen : ∀ claim ∈ s'.seenClaims, claim ∈ s.seenClaims)
    (hcut : s'.cutoffs = s.cutoffs) : Admits s' where
  fresh := by
    unfold HeldHere
    rw [hc, ha]
    exact h.fresh
  admittedOnce := by
    rw [ha]
    exact h.admittedOnce
  seen claim hclaim := by
    unfold HeldHere
    rw [ha]
    exact h.seen claim (hseen claim hclaim)
  window := by
    rw [ha, hrecs]
    exact h.window
  kept := by
    rw [ha, hrecs, hcut]
    exact h.kept

variable {id : CallId} {record : CostRecord Claim Project} {config : Config}

omit [DecidableEq Claim] in
theorem setCall (h : Admits s) {stage : Stage Claim Project}
    (hs : ∀ record, stage = .finalising record → ¬ HeldHere s record.claimId) :
    Admits (s.setCall id stage) :=
  { h with
    fresh i record hcall := by
      by_cases hi : i = id
      · rw [hi, State.setCall_self] at hcall
        exact hs record hcall
      · rw [State.setCall_of_ne _ _ hi] at hcall
        exact h.fresh i record hcall }

omit [DecidableEq Claim] in
theorem admitRecord (h : Admits s) (hnew : ¬ HeldHere s record.claimId)
    (hc : ∀ id r, s.calls id = .finalising r → r.claimId ≠ record.claimId) :
    Admits (s.admitRecord record) where
  fresh id r hcall := by
    rw [HeldHere, State.admitRecord, map_append, mem_append, not_or]
    exact ⟨h.fresh id r hcall, by simpa using hc id r hcall⟩
  admittedOnce := by
    rw [State.admitRecord, map_append, map_singleton, nodup_append_comm,
      singleton_append, nodup_cons]
    exact ⟨hnew, h.admittedOnce⟩
  seen claim hclaim := by
    rw [HeldHere, State.admitRecord, map_append]
    exact mem_append_left _ (h.seen claim hclaim)
  window := h.window.append (Sublist.refl _)
  kept r hr := by
    rw [State.admitRecord, mem_append, mem_singleton] at hr ⊢
    rcases hr with hr | hr
    · exact (h.kept r hr).imp_left Or.inl
    · exact .inl (.inr hr)

theorem promote (h : Admits s) {claim : Claim} (hheld : HeldHere s claim) :
    Admits (s.promoteSeenClaim config claim) :=
  { h with
    seen c hc := by
      rcases mem_promoteSeenClaim hc with hc | hc
      · exact h.seen c hc
      · exact hc ▸ hheld }

theorem finalise (h : Admits s) (halone : Alone s) {recorded : Bool}
    (hcall : s.calls id = .finalising record) : Admits (finalise config s id record recorded) := by
  have hrec : (s.calls id).record? = some record := by rw [hcall]; rfl
  -- the call has let go of the claim when it lets it in
  have hgone : Admits (s.setCall id .exited) := h.setCall nofun
  have ha : Admits (((s.setCall id .exited).release record.claimId).admitRecord record) := by
    have hrel : Admits ((s.setCall id .exited).release record.claimId) :=
      hgone.congr rfl rfl rfl (fun _ hc => hc) rfl
    refine hrel.admitRecord (h.fresh id record hcall) ?_
    intro i r hr heq
    have hr' : (s.setCall id .exited).calls i = .finalising r := hr
    by_cases hi : i = id
    · simp [hi] at hr'
    · rw [State.setCall_of_ne _ _ hi] at hr'
      exact hi (halone i id r record (by rw [hr']; rfl) hrec heq)
  rw [Budget.finalise]
  split
  next =>
    have hheld : HeldHere (((s.setCall id .exited).release record.claimId).admitRecord record)
        record.claimId := by simp [HeldHere, State.admitRecord]
    have hp : Admits ((((s.setCall id .exited).release record.claimId).admitRecord
        record).promoteSeenClaim config record.claimId) := ha.promote hheld
    exact hp.congr rfl rfl rfl (fun _ hc => hc) rfl
  next => exact ha.congr rfl rfl rfl (fun _ hc => hc) rfl

theorem complete (h : Admits s) {recorded : Bool}
    (hheld : recorded = true → HeldHere s record.claimId) :
    Admits (complete config s id record recorded) := by
  cases recorded with
  | false =>
    have hrel : Admits (s.release record.claimId) := h.congr rfl rfl rfl (fun _ hc => hc) rfl
    exact hrel.setCall fun r hr => by cases hr
  | true =>
    have hp : Admits ((s.promoteSeenClaim config record.claimId).release record.claimId) :=
      (h.promote (hheld rfl)).congr rfl rfl rfl (fun _ hc => hc) rfl
    exact hp.setCall nofun

end Admits

namespace Known

variable {s : State Claim Project}

omit [DecidableEq Claim] in
theorem mono {s' : State Claim Project} (h : Known s) (hw : s'.written = s.written)
    (hheld : ∀ claim, HeldHere s claim → HeldHere s' claim)
    (hu : ∀ claim, UnderWay s claim → HeldHere s' claim ∨ UnderWay s' claim) : Known s' := by
  intro row hrow
  rw [hw] at hrow
  rcases h row hrow with hrow | hrow
  · exact .inl (hheld _ hrow)
  · exact hu _ hrow

variable {id : CallId} {record : CostRecord Claim Project} {config : Config} {recorded : Bool}

omit [DecidableEq Claim] in
theorem exit (h : Known s) (ha : Alone s) (hrec : (s.calls id).record? = some record)
    (hheld : record.claimId ∈ s.written.map CostRecord.claimId → HeldHere s record.claimId) :
    Known (s.setCall id .exited) := by
  intro row hrow
  have hw : row ∈ s.written := hrow
  rw [underWay_exit ha hrec]
  by_cases heq : row.claimId = record.claimId
  · left
    rw [heq]
    exact hheld (heq ▸ mem_map_of_mem hw)
  · exact (h row hw).imp_right fun hu => ⟨hu, heq⟩

theorem finalise (h : Known s) (ha : Alone s)
    (hcall : s.calls id = .finalising record) : Known (finalise config s id record recorded) := by
  have hadmitted : Known (s.admitRecord record) :=
    h.mono rfl (fun _ hc => by
      rw [HeldHere, State.admitRecord, map_append]
      exact mem_append_left _ hc) fun _ => Or.inr
  have hexit : Known ((s.admitRecord record).setCall id .exited) :=
    hadmitted.exit ha (by rw [State.admitRecord, hcall]; rfl) fun _ => by
      simp [HeldHere, State.admitRecord]
  rw [Budget.finalise]
  split <;> exact hexit.mono rfl (fun _ hc => hc) fun _ => Or.inr

theorem complete (h : Known s) (ha : Alone s) (hcall : s.calls id = .completing record)
    (hheld : record.claimId ∈ s.written.map CostRecord.claimId → HeldHere s record.claimId) :
    Known (complete config s id record recorded) := by
  have hexit : Known (s.setCall id .exited) := h.exit ha (by rw [hcall]; rfl) hheld
  rw [Budget.complete]
  split <;> exact hexit.mono rfl (fun _ hc => hc) fun _ => Or.inr

theorem insertRow (h : Known s) (hu : UnderWay s record.claimId) :
    Known (s.insertRow record) := by
  rw [State.insertRow]
  split
  next => exact h
  next =>
    intro row hrow
    rcases mem_append.1 hrow with hrow | hrow
    · exact h row hrow
    · rw [mem_singleton.1 hrow]
      exact .inr hu

end Known

-- ==== a hydration

theorem evicted_absorb (config : Config) (s : State Claim Project)
    (row : CostRecord Claim Project) : s.evicted <+: (absorb config s row).evicted := by
  rw [absorb]
  split
  next => exact prefix_refl _
  next => exact prefix_append _ _

theorem evicted_absorbRows (config : Config) (rows : List (CostRecord Claim Project))
    (s : State Claim Project) : s.evicted <+: (rows.foldl (absorb config) s).evicted := by
  induction rows generalizing s with
  | nil => exact prefix_refl _
  | cons row rows ih => exact (evicted_absorb config s row).trans (ih _)

theorem calls_absorbRows (config : Config) (rows : List (CostRecord Claim Project))
    (s : State Claim Project) : (rows.foldl (absorb config) s).calls = s.calls ∧
    (rows.foldl (absorb config) s).written = s.written := by
  induction rows generalizing s with
  | nil => exact ⟨rfl, rfl⟩
  | cons row rows ih =>
    have hone : (absorb config s row).calls = s.calls ∧
        (absorb config s row).written = s.written := by
      rw [absorb]
      split <;> exact ⟨rfl, rfl⟩
    rw [foldl_cons, (ih _).1, (ih _).2]
    exact hone

/-- A hydration lets in what is neither in the LRU nor under way, once each. -/
theorem admits_absorbRows {rows : List (CostRecord Claim Project)} (ha : Admits s)
    (hres : Reserved s) (hrows : ∀ row ∈ rows, HeldHere s row.claimId →
      row.claimId ∈ s.seenClaims ∨ row.claimId ∈ s.inflightClaims)
    (hfits : (rows.foldl (absorb config) s).evicted = []) : Admits (rows.foldl (absorb config) s) ∧
    (∀ claim, HeldHere s claim → HeldHere (rows.foldl (absorb config) s) claim) ∧
    ∀ row ∈ rows, HeldHere (rows.foldl (absorb config) s) row.claimId ∨
      UnderWay s row.claimId := by
  induction rows generalizing s with
  | nil => exact ⟨ha, fun _ => id, forall_mem_nil _⟩
  | cons row rows ih =>
    rw [forall_mem_cons] at hrows
    rw [foldl_cons] at hfits ⊢
    by_cases hskip : row.claimId ∈ s.seenClaims ∨ row.claimId ∈ s.inflightClaims
    · have hsame : absorb config s row = s := by rw [absorb, if_pos hskip]
      rw [hsame] at hfits ⊢
      obtain ⟨ha', hmono, hdone⟩ := ih ha hres hrows.2 hfits
      refine ⟨ha', hmono, forall_mem_cons.2 ⟨?_, hdone⟩⟩
      rcases hskip with hskip | hskip
      · exact .inl (hmono _ (ha.seen _ hskip))
      · exact .inr ((hres.inflight _).1 hskip)
    · have hin : absorb config s row =
          (s.admitRecord row).promoteSeenClaim config row.claimId := by rw [absorb, if_neg hskip]
      have hnone : (absorb config s row).evicted = [] := by
        have he := evicted_absorbRows config rows (absorb config s row)
        rw [hfits] at he
        exact prefix_nil.1 he
      rw [hin] at hfits hnone ⊢
      rw [not_or] at hskip
      have hnew : ¬ HeldHere s row.claimId := fun hheld =>
        (hrows.1 hheld).elim hskip.1 hskip.2
      have hn : ∀ id r, s.calls id = .finalising r → r.claimId ≠ row.claimId := by
        intro id r hr heq
        refine hskip.2 ((hres.inflight _).2 ?_)
        exact heq ▸ underWay_of_record (by rw [hr]; rfl)
      have hheld : HeldHere (s.admitRecord row) row.claimId := by simp [HeldHere, State.admitRecord]
      have hmono : ∀ claim, HeldHere s claim → HeldHere (s.admitRecord row) claim := by
        intro claim hc
        rw [HeldHere, State.admitRecord, map_append]
        exact mem_append_left _ hc
      have hseen := promoteSeenClaim_of_fits hnone
      obtain ⟨ha', hmono', hdone⟩ := ih ((ha.admitRecord hnew hn).promote hheld)
        (hres.congr rfl rfl rfl rfl) (by
          intro r hr hheld'
          have hb : HeldHere s r.claimId ∨ r.claimId = row.claimId := by
            have hmem : r.claimId ∈ (s.admitted ++ [row]).map CostRecord.claimId := hheld'
            rwa [map_append, mem_append, map_singleton, mem_singleton] at hmem
          rcases hb with hb | hb
          · exact (hrows.2 r hr hb).imp_left fun hc => hseen _ (.inl hc)
          · exact .inl (hseen _ (.inr hb))) hfits
      refine ⟨ha', fun claim hc => hmono' claim (hmono claim hc), ?_⟩
      exact forall_mem_cons.2 ⟨.inl (hmono' _ hheld), hdone⟩

-- ==== the sound runs

omit [DecidableEq Claim] in
/-- WHAT A STEP MAY NOT DO: take a claim the window has held for a first delivery, finish a
duplicate it lacks, end a call between its row and the window, or hydrate a claim whose append
was dropped. -/
def Sound (s : State Claim Project) : Event Claim Project → Prop
  | .deliver _ record => record.projectId = none → HeldHere s record.claimId →
      record.claimId ∈ s.inflightClaims ∨ record.claimId ∈ s.seenClaims
  | .incremented id => ∀ record, s.calls id = .incrementing record (some true) →
      ¬ HeldHere s record.claimId
  | .incrementFailed id => ∀ record answer, s.calls id = .incrementing record answer →
      ¬ HeldHere s record.claimId
  | .appended id => ∀ record, s.calls id = .completing record → HeldHere s record.claimId
  | .dropped id => ∀ record, s.calls id = .completing record →
      record.claimId ∈ s.written.map CostRecord.claimId → HeldHere s record.claimId
  | .cancelled id => ∀ record, (s.calls id).record? = some record →
      record.claimId ∈ s.written.map CostRecord.claimId → HeldHere s record.claimId
  | .absorb id => ∀ pages, s.hydrations id = .drained pages → ∀ row ∈ oldestFirst pages,
      HeldHere s row.claimId → row.claimId ∈ s.seenClaims ∨ row.claimId ∈ s.inflightClaims
  | _ => True

/-- The LRU drops nothing in this step. -/
def WithinCapacity (config : Config) (s : State Claim Project) (event : Event Claim Project) :
    Prop :=
  (step config s event).evicted = []

/-- The two invariants of the window. -/
structure Counts (s : State Claim Project) : Prop where
  reserved : Reserved s
  admits : Admits s
  known : Known s

namespace Counts

variable {s : State Claim Project}

omit [DecidableEq Claim] in
theorem congr {s' : State Claim Project} (h : Counts s) (hres : Reserved s')
    (hc : s'.calls = s.calls) (ha : s'.admitted = s.admitted)
    (hrecs : s'.records = s.records) (hseen : ∀ claim ∈ s'.seenClaims, claim ∈ s.seenClaims)
    (hcut : s'.cutoffs = s.cutoffs) (hw : s'.written = s.written) : Counts s' where
  reserved := hres
  admits := h.admits.congr hc ha hrecs hseen hcut
  known := by
    unfold Known HeldHere UnderWay
    rw [hw, ha, hc]
    exact h.known

variable {id : CallId} {config : Config} {record : CostRecord Claim Project}

variable (h : Counts s)
include h

omit [DecidableEq Claim] in
theorem goOn {stage : Stage Claim Project} (hsame : stage.record? = (s.calls id).record?)
    (hnew : ∀ r, stage = .finalising r → ¬ HeldHere s r.claimId) : Counts (s.setCall id stage) where
  reserved := h.reserved.goOn hsame
  admits := h.admits.setCall hnew
  known := h.known.mono rfl (fun _ hc => hc)
    fun claim hc => .inr ((underWay_setCall hsame claim).2 hc)

theorem deliver (hidle : s.calls id = .idle) (hsnd : Sound s (.deliver id record)) :
    Counts (deliver config s id record) := by
  have hexited : (Stage.exited : Stage Claim Project).record? = (s.calls id).record? := by
    rw [hidle]
    rfl
  have hres : Reserved (Budget.deliver config s id record) := h.reserved.deliver hidle
  rw [Budget.deliver] at hres ⊢
  split at hres
  next ho =>
    rw [if_pos ho]
    exact h.goOn hexited fun r hr => by cases hr
  next ho =>
    rw [if_neg ho]
    split at hres
    next hd =>
      rw [if_pos hd]
      have hm : ∀ seen, (∀ claim ∈ seen, claim ∈ s.seenClaims) →
          Counts { s with seenClaims := seen } := fun seen hseen =>
        h.congr (h.reserved.congr rfl rfl rfl rfl) rfl rfl rfl hseen rfl rfl
      refine (hm _ fun claim hclaim => ?_).goOn hexited nofun
      split at hclaim
      next hseen =>
        rcases mem_append.1 hclaim with hclaim | hclaim
        · exact (mem_filter.1 hclaim).1
        · exact mem_singleton.1 hclaim ▸ hseen
      next => exact hclaim
    next hfree =>
      rw [if_neg hfree]
      exact
        { reserved := hres
          admits := by
            have ha : Admits { s with inflightClaims := s.inflightClaims ++ [record.claimId] } :=
              h.admits.congr rfl rfl rfl (fun _ hc => hc) rfl
            refine ha.setCall fun r hr hheld => hfree ?_
            split at hr
            next => cases hr
            next hproj =>
              injection hr with hr
              rw [← hr] at hheld
              exact hsnd (by simpa using hproj) hheld
          known := by
            refine h.known.mono rfl (fun _ hc => hc) fun claim hc => .inr ?_
            obtain ⟨i, r, hr, hclaim⟩ := hc
            refine ⟨i, r, ?_, hclaim⟩
            have hi : i ≠ id := by
              intro hi
              rw [hi, hidle] at hr
              cases hr
            rwa [State.setCall_of_ne _ _ hi] }

theorem commit (id : CallId) : Counts (commit s id) := by
  rw [Budget.commit]
  split
  next record hcall =>
    have hsame : ∀ answer, (Stage.incrementing record answer).record? = (s.calls id).record? :=
      fun _ => by rw [hcall]; rfl
    have hcommit := h.reserved.commit id
    rw [Budget.commit, hcall] at hcommit
    by_cases hseen : record.claimId ∈ s.claimSeen
    · simp only [State.incrementIfUnseen, if_pos hseen]
      exact h.goOn (hsame _) fun r hr => by cases hr
    · simp only [State.incrementIfUnseen, if_neg hseen] at hcommit ⊢
      exact (h.goOn (hsame (some true)) nofun).congr hcommit rfl rfl rfl (fun _ hc => hc) rfl rfl
  next => exact h

omit [DecidableEq Claim] in
theorem incremented (hsnd : Sound s (.incremented id)) : Counts (incremented s id) := by
  rw [Budget.incremented]
  split
  next record hcall =>
    refine h.goOn (by rw [hcall]; rfl) fun r hr => ?_
    injection hr with hr
    exact hr ▸ hsnd record hcall
  next record hcall => exact h.goOn (by rw [hcall]; rfl) fun r hr => by cases hr
  next => exact h

omit [DecidableEq Claim] in
theorem incrementFailed (hsnd : Sound s (.incrementFailed id)) : Counts (incrementFailed s id) := by
  rw [Budget.incrementFailed]
  split
  next record answer hcall =>
    refine h.goOn (by rw [hcall]; rfl) fun r hr => ?_
    injection hr with hr
    exact hr ▸ hsnd record answer hcall
  next => exact h

theorem insertRow (hu : UnderWay s record.claimId) : Counts (s.insertRow record) where
  reserved := h.reserved.insertRow record
  admits := by
    rw [State.insertRow]
    split
    next => exact h.admits
    next => exact h.admits.congr rfl rfl rfl (fun _ hc => hc) rfl
  known := h.known.insertRow hu

theorem finalise {recorded : Bool} (hcall : s.calls id = .finalising record) :
    Counts (finalise config s id record recorded) where
  reserved := h.reserved.finalise (by rw [hcall]; rfl)
  admits := h.admits.finalise h.reserved.alone hcall
  known := h.known.finalise h.reserved.alone hcall

theorem complete {recorded : Bool} (hcall : s.calls id = .completing record)
    (hr : recorded = true → HeldHere s record.claimId)
    (hheld : record.claimId ∈ s.written.map CostRecord.claimId → HeldHere s record.claimId) :
    Counts (complete config s id record recorded) where
  reserved := h.reserved.complete (by rw [hcall]; rfl)
  admits := h.admits.complete hr
  known := h.known.complete h.reserved.alone hcall hheld

theorem cancelled (hsnd : Sound s (.cancelled id)) : Counts (cancelled s id) := by
  rw [Budget.cancelled]
  split
  next record hrec =>
    exact
      { reserved := h.reserved.exit hrec
        admits := by
          have hrel : Admits (s.release record.claimId) :=
            h.admits.congr rfl rfl rfl (fun _ hc => hc) rfl
          exact hrel.setCall nofun
        known := by
          have hrel : Known (s.release record.claimId) := h.known
          exact hrel.exit h.reserved.alone hrec (hsnd record hrec) }
  next => exact h

theorem absorbHydratedPages {pages : List (List (CostRecord Claim Project))}
    (hrows : ∀ row ∈ oldestFirst pages, HeldHere s row.claimId →
      row.claimId ∈ s.seenClaims ∨ row.claimId ∈ s.inflightClaims)
    (hfits : (absorbHydratedPages config s pages).evicted = []) :
    Counts (absorbHydratedPages config s pages) := by
  let s₁ : State Claim Project := { s with written := s.written ++ oldestFirst pages }
  have hres : Reserved s₁ := h.reserved.congr rfl rfl rfl rfl
  have ha : Admits s₁ := h.admits.congr rfl rfl rfl (fun _ hc => hc) rfl
  obtain ⟨ha', hmono, hdone⟩ := admits_absorbRows ha hres hrows hfits
  obtain ⟨hcalls, hw⟩ := calls_absorbRows config (oldestFirst pages) s₁
  have hu : ∀ claim, UnderWay s claim →
      UnderWay (Budget.absorbHydratedPages config s pages) claim := by
    intro claim hclaim
    unfold UnderWay Budget.absorbHydratedPages
    rw [hcalls]
    exact hclaim
  refine ⟨hres.absorbRows config (oldestFirst pages), ha', fun row hrow => ?_⟩
  have hrow' : row ∈ s₁.written := by
    rw [← hw]
    exact hrow
  rcases mem_append.1 hrow' with hrow' | hrow'
  · exact (h.known row hrow').imp (hmono _) (hu _)
  · exact (hdone row hrow').imp_right (hu _)

omit [DecidableEq Claim] in
theorem pruneBefore (cutoff : Int) : Counts (pruneBefore s cutoff) where
  reserved := h.reserved.congr rfl rfl rfl rfl
  admits :=
    { fresh := h.admits.fresh
      admittedOnce := h.admits.admittedOnce
      seen := h.admits.seen
      window := filter_sublist.trans h.admits.window
      kept := fun record hrec => by
        rcases h.admits.kept record hrec with hin | ⟨c, hc, hlt⟩
        · by_cases hold : cutoff ≤ record.timestamp
          · exact .inl (mem_filter.2 ⟨hin, by simpa using hold⟩)
          · exact .inr ⟨cutoff, by simp [Budget.pruneBefore], by omega⟩
        · exact .inr ⟨c, mem_append_left _ hc, hlt⟩ }
  known := h.known

omit [DecidableEq Claim] in
theorem restart : Counts (restart s) where
  reserved := h.reserved.restart
  admits :=
    { fresh := nofun
      admittedOnce := nodup_nil
      seen := forall_mem_nil _
      window := Sublist.refl _
      kept := forall_mem_nil _ }
  known := forall_mem_nil _

/-- STEP LEMMA: a sound step within capacity keeps the count. -/
theorem step {event : Event Claim Project} (hfits : WithinCapacity config s event)
    (hsnd : Sound s event) : Counts (step config s event) := by
  have hidle : ∀ {s' : State Claim Project} {id hydration}, Counts s' →
      Counts (setHydration s' id hydration) := fun h' =>
    h'.congr (h'.reserved.congr rfl rfl rfl rfl) rfl rfl rfl (fun _ hc => hc) rfl rfl
  cases event with
  | deliver id record =>
    rw [Budget.step]
    split
    next hcall => exact h.deliver hcall hsnd
    next => exact h
  | commit id => exact h.commit id
  | incremented id => exact h.incremented hsnd
  | incrementFailed id => exact h.incrementFailed hsnd
  | write id =>
    rw [Budget.step, write]
    split
    next record hcall => exact h.insertRow (underWay_of_record (by rw [hcall]; rfl))
    next record hcall => exact h.insertRow (underWay_of_record (by rw [hcall]; rfl))
    next => exact h
  | appended id =>
    rw [Budget.step, appended]
    split
    next record hcall =>
      split
      next => exact h.finalise hcall
      next => exact h
    next record hcall =>
      split
      next => exact h.complete hcall (fun _ => hsnd record hcall) fun _ => hsnd record hcall
      next => exact h
    next => exact h
  | dropped id =>
    rw [Budget.step, dropped]
    split
    next record hcall => exact h.finalise hcall
    next record hcall => exact h.complete hcall nofun (hsnd record hcall)
    next => exact h
  | cancelled id => exact h.cancelled hsnd
  | hydrate id now =>
    rw [Budget.step]
    split
    next => exact hidle h
    next => exact h
  | readPage id =>
    rw [Budget.step, readPage]
    split
    next =>
      dsimp only
      split
      next => exact hidle h
      next => split <;> exact hidle h
    next => exact h
  | hydrationFailed id =>
    rw [Budget.step]
    split
    next => exact hidle h
    next => exact h
  | absorb id =>
    rw [WithinCapacity, Budget.step] at hfits
    rw [Budget.step]
    split
    next pages hp =>
      rw [hp] at hfits
      exact hidle (h.absorbHydratedPages (hsnd pages hp) hfits)
    next => exact h
  | prune now => exact h.pruneBefore _
  | restart => exact h.restart

omit [DecidableEq Claim] in
theorem countedOnce : CountedOnce s where
  billedOnce := h.reserved.billedOnce
  heldOnce := h.admits.admittedOnce.sublist (h.admits.window.map _)
  held row hrow hnot := by
    rcases h.known row hrow with hheld | hu
    · obtain ⟨record, hrec, heq⟩ := mem_map.1 hheld
      exact ⟨record, hrec, heq, h.admits.kept record hrec⟩
    · exact absurd hu hnot
  released claim hc := (h.reserved.inflight claim).1 hc

end Counts

omit [DecidableEq Claim] in
theorem counts_start : Counts (start : State Claim Project) where
  reserved := reserved_start
  admits :=
    { fresh := nofun
      admittedOnce := nodup_nil
      seen := forall_mem_nil _
      window := Sublist.refl _
      kept := forall_mem_nil _ }
  known := forall_mem_nil _

/-- EVERY CLAIM IS COUNTED ONCE in every state of a run whose steps are
sound and stay within the capacity of the LRU. -/
theorem counted_once (config : Config) (events : List (Event Claim Project))
    (h : Run.Throughout (step config)
      (fun s event => WithinCapacity config s event ∧ Sound s event) start events) :
    ∀ s ∈ Run.states (step config) start events, CountedOnce s := by
  have hcounts := Run.throughout_states (P := Counts)
    (fun s event hok hs => hs.step hok.1 hok.2) h counts_start
  exact fun s hs => (hcounts s hs).countedOnce

-- ==== two runs that are not

section Twice

def ample : Config := { currency := none, claimLruCapacity := 10, pageSize := 100 }

def call : CostRecord Nat Nat where
  claimId := 1
  projectId := some 1
  cost := 1
  inputTokens := 10
  outputTokens := 10
  currency := "EUR"
  timestamp := 0

def plainRun : List (Event Nat Nat) :=
  [.deliver 0 call, .commit 0, .incremented 0, .write 0, .appended 0, .deliver 1 call]

theorem counted_once_plain : CountedOnce (Run.final (step ample) start plainRun) := by
  have hall : ∀ s ∈ Run.states (step ample) start plainRun, CountedOnce s :=
    counted_once ample plainRun
      ⟨⟨rfl, nofun⟩, ⟨rfl, trivial⟩,
        ⟨rfl, nofun⟩, ⟨rfl, trivial⟩,
        ⟨rfl, nofun⟩, ⟨rfl, nofun⟩,
        trivial⟩
  exact hall _ ((Run.mem_states_iff _ _ _ _).2 ⟨plainRun, [], by simp, rfl⟩)

/-- Both stores fail the first delivery, and the redelivery finds no dedup row. -/
def failingRun : List (Event Nat Nat) :=
  [.deliver 0 call, .incrementFailed 0, .dropped 0,
    .deliver 1 call, .commit 1, .incremented 1, .write 1, .appended 1]

def cancelledRun : List (Event Nat Nat) :=
  [.deliver 0 call, .commit 0, .incremented 0, .cancelled 0,
    .deliver 1 call, .commit 1, .incremented 1, .write 1, .appended 1]

/-- One run counts the claim twice, the other not at all. -/
theorem counted_twice_or_lost : (¬ ∀ (config : Config) (events : List (Event Nat Nat)),
      Run.Throughout (step config) (WithinCapacity config) start events →
      ∀ s ∈ Run.states (step config) start events, (s.records.map CostRecord.claimId).Nodup) ∧
    ¬ ∀ (config : Config) (events : List (Event Nat Nat)),
      Run.Throughout (step config) (WithinCapacity config) start events →
      ∀ s ∈ Run.states (step config) start events, ∀ row ∈ s.written,
        ¬ UnderWay s row.claimId → HeldHere s row.claimId := by
  have hlast : ∀ (config : Config) (events : List (Event Nat Nat)),
      Run.final (step config) start events ∈ Run.states (step config) start events :=
    fun config events =>
      (Run.mem_states_iff _ _ _ _).2 ⟨events, [], (append_nil _).symm, rfl⟩
  constructor
  · intro h
    have hnodup := h ample failingRun ⟨rfl, rfl, rfl, rfl, rfl, rfl, rfl, rfl, trivial⟩ _
      (hlast ample failingRun)
    have htwice : (Run.final (step ample) start failingRun).records.map CostRecord.claimId =
        [1, 1] := rfl
    rw [htwice] at hnodup
    simp at hnodup
  · intro h
    have hfree : (Run.final (step ample) start cancelledRun).inflightClaims = [] := rfl
    have hreserved := reserved_run ample cancelledRun
    have hheld := h ample cancelledRun
      ⟨rfl, rfl, rfl, rfl, rfl, rfl, rfl, rfl, rfl, trivial⟩ _ (hlast ample cancelledRun) call
      (by exact mem_cons_self) fun hunder => by
        have hmem := (hreserved.inflight call.claimId).2 hunder
        simp [hfree] at hmem
    cases hheld

end Twice

end Synthorg.Budget
