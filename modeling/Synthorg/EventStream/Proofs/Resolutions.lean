/-
A resolution that was accepted, and who gets it.

# Once

Creations are numbered, and no step accepts a second resolution of one (`Numbered`), careful or
not.

# For whom

An accepted resolution lies in the store until a wait takes it. It reaches the wait it is meant
for if that wait is the one that takes it: nobody else takes or clears it first, and the wait
itself does not come back expired. That is what a careful run is (`Careful`), with some wait there
when a resolution is accepted.
-/
import Synthorg.EventStream.Interrupts

namespace Synthorg.EventStream

open Lib
open Function (update update_self update_of_ne)
open List

namespace InterruptStore

variable {s : InterruptStore}

-- ==== the properties

/-- `wait` sleeps on the event of creation `number`. -/
def WaitsOn (s : InterruptStore) (wait number : Nat) : Prop :=
  ∃ interruptId expired, s.waits wait = .waiting interruptId number expired

def Awaited (s : InterruptStore) (interruptId : String) : Prop :=
  ∃ wait event expired, s.waits wait = .waiting interruptId event expired

structure Promise (inputs : List Input) : Prop where
  kept : ∀ before resolution after, inputs = before ++ .resolve resolution :: after →
    ∀ found, (run before).resolved resolution = some found →
      ∀ wait, (run before).WaitsOn wait found.number →
        ∀ result, (run inputs).waits wait = .returned result → result = some resolution
  /-- No creation is resolved twice. -/
  once : ((run inputs).accepted.map Prod.fst).Nodup
  /-- Where nobody waits and nothing is pending nothing is kept. -/
  clean : ∀ v ∈ Run.states step new inputs, ∀ interruptId, ¬ v.Awaited interruptId →
    v.pending interruptId = none → v.events interruptId = none ∧ v.results interruptId = none

def removes (s : InterruptStore) : Input → Option (Nat × String × Bool)
  | .wait wait interruptId prompt =>
    match s.waits wait, s.events interruptId with
    | .absent, some event =>
      if s.signalled event && !prompt then some (wait, interruptId, true) else none
    | _, _ => none
  | .wake wait =>
    match s.waits wait with
    | .waiting interruptId event expired =>
      if expired then some (wait, interruptId, false)
      else if s.signalled event then some (wait, interruptId, true)
      else none
    | _ => none
  | _ => none

def Careful (s : InterruptStore) (input : Input) : Prop :=
  (∀ resolution, input = .resolve resolution → (s.resolved resolution).isSome →
    s.Awaited resolution.interruptId) ∧
  ∀ wait interruptId takes, s.removes input = some (wait, interruptId, takes) →
    ∀ stored, s.results interruptId = some stored →
      ∀ wait', (takes = true → wait' ≠ wait) → ¬ s.WaitsOn wait' stored.number

-- ==== resolved at most once

structure Numbered (s : InterruptStore) : Prop where
  pending : ∀ interruptId found, s.pending interruptId = some found →
    found.number < s.nextEvent ∧ found.number ∉ s.accepted.map Prod.fst
  apart : ∀ interruptId interruptId' found found', s.pending interruptId = some found →
    s.pending interruptId' = some found' → found.number = found'.number →
      interruptId = interruptId'
  accepted : ∀ number ∈ s.accepted.map Prod.fst, number < s.nextEvent
  once : (s.accepted.map Prod.fst).Nodup

theorem new_numbered : Numbered new := by
  refine ⟨?_, ?_, ?_, nodup_nil⟩
  · intro interruptId found hf
    cases hf
  · intro interruptId interruptId' found found' hf
    cases hf
  · intro number hnum
    cases hnum

variable {s' : InterruptStore} {found : PendingInterrupt} {result : Option InterruptResolution}
  {event : Nat} {input : Input} {stored : StoredResult}

theorem Numbered.fewer (h : Numbered s)
    (hp : ∀ interruptId found, s'.pending interruptId = some found →
      s.pending interruptId = some found) (hacc : s'.accepted = s.accepted)
    (hnext : s'.nextEvent = s.nextEvent) : Numbered s' := by
  refine ⟨?_, ?_, ?_, ?_⟩
  · intro interruptId found hf
    rw [hacc, hnext]
    exact h.pending interruptId found (hp _ _ hf)
  · intro interruptId interruptId' found found' hf hf' heq
    exact h.apart _ _ _ _ (hp _ _ hf) (hp _ _ hf') heq
  · rw [hacc, hnext]
    exact h.accepted
  · rw [hacc]
    exact h.once

/-- Entries told apart by their numbers still are with one of a new number. -/
theorem apart_update {β : Type} {f : String → Option β} {number : β → Nat} {new : β} {id : String}
    (h : ∀ i i' v v', f i = some v → f i' = some v' → number v = number v' → i = i')
    (hnew : ∀ i v, f i = some v → number v ≠ number new) {i i' : String} {v v' : β}
    (hi : update f id (some new) i = some v) (hi' : update f id (some new) i' = some v')
    (heq : number v = number v') : i = i' := by
  rw [Function.update_apply, ite_eq_iff, Option.some.injEq] at hi hi'
  rcases hi with ⟨rfl, rfl⟩ | ⟨-, hi⟩ <;> rcases hi' with ⟨rfl, rfl⟩ | ⟨-, hi'⟩
  · rfl
  · exact absurd heq.symm (hnew i' v' hi')
  · exact absurd heq (hnew i v hi)
  · exact h i i' v v' hi hi' heq

theorem Numbered.create (h : Numbered s) (interrupt : Interrupt) :
    Numbered (s.create interrupt) := by
  rw [InterruptStore.create]
  split
  · exact h
  · refine ⟨?_, ?_, ?_, h.once⟩
    · intro interruptId found hf
      by_cases hid : interruptId = interrupt.id
      · simp only [hid, update_self, Option.some.injEq] at hf
        rw [← hf]
        refine ⟨Nat.lt_succ_self _, ?_⟩
        intro hmem
        exact absurd (h.accepted _ hmem) (Nat.lt_irrefl _)
      · simp only [update_of_ne hid] at hf
        obtain ⟨hlt, hnot⟩ := h.pending interruptId found hf
        exact ⟨Nat.lt_succ_of_lt hlt, hnot⟩
    · intro interruptId interruptId' found found' hf hf' heq
      refine apart_update h.apart (fun other held hheld => ?_) hf hf' heq
      exact Nat.ne_of_lt (h.pending other held hheld).1
    · intro number hnum
      exact Nat.lt_succ_of_lt (h.accepted number hnum)

variable {resolution : InterruptResolution} {wait : Nat} {interruptId : String}

theorem pending_of_resolved (h : s.resolved resolution = some found) :
    s.pending resolution.interruptId = some found := by
  rw [resolved] at h
  split at h
  · cases h
  next found' hp =>
    split at h
    · cases h
    · rw [hp, h]

theorem Numbered.resolve (h : Numbered s) (resolution : InterruptResolution) :
    Numbered (s.resolve resolution) := by
  rw [InterruptStore.resolve]
  split
  · exact h
  next found hr =>
    have hp := pending_of_resolved hr
    obtain ⟨hlt, hnot⟩ := h.pending _ _ hp
    have hs : ∀ interruptId held,
        update s.pending resolution.interruptId none interruptId = some held →
          interruptId ≠ resolution.interruptId ∧ s.pending interruptId = some held := by
      intro interruptId held hheld
      simpa [Function.update_apply, ite_eq_iff] using hheld
    refine ⟨?_, ?_, ?_, ?_⟩
    · intro interruptId held hheld
      obtain ⟨hid, hheld'⟩ := hs interruptId held hheld
      obtain ⟨hlt', hnot'⟩ := h.pending interruptId held hheld'
      refine ⟨hlt', ?_⟩
      simp only [map_append, map_cons, map_nil, mem_append, mem_singleton, not_or]
      exact ⟨hnot', fun heq => hid (h.apart _ _ _ _ hheld' hp heq)⟩
    · intro interruptId interruptId' held held' hheld hheld' heq
      exact h.apart _ _ _ _ (hs _ _ hheld).2 (hs _ _ hheld').2 heq
    · intro number hnum
      simp only [map_append, map_cons, map_nil, mem_append, mem_singleton] at hnum
      cases hnum with
      | inl hb => exact h.accepted number hb
      | inr hnow =>
        rw [hnow]
        exact hlt
    · simp only [map_append]
      rw [nodup_append]
      refine ⟨h.once, by simp, ?_⟩
      intro number hnum number' hnum' heq
      rw [mem_singleton.1 hnum'] at heq
      rw [heq] at hnum
      exact hnot hnum

theorem Numbered.pickUp (h : Numbered s) (wait : Nat) (interruptId : String) :
    Numbered (s.pickUp wait interruptId) :=
  h.fewer (fun _ _ hf => hf) rfl rfl

theorem Numbered.expireCleanup (h : Numbered s) (wait : Nat) (interruptId : String) :
    Numbered (s.expireCleanup wait interruptId) := by
  refine h.fewer ?_ rfl rfl
  intro other found hf
  by_cases hid : other = interruptId
  · simp only [InterruptStore.expireCleanup, hid, update_self] at hf
    cases hf
  · simpa only [InterruptStore.expireCleanup, update_of_ne hid] using hf

/-- STEP LEMMA: no step resolves a creation a second time. -/
theorem Numbered.step (h : Numbered s) (input : Input) : Numbered (s.step input) := by
  cases input with
  | create interrupt => exact h.create interrupt
  | resolve resolution => exact h.resolve resolution
  | wait wait interruptId prompt =>
    rw [InterruptStore.step]
    split
    · rw [beginWait]
      split
      · exact h.fewer (fun _ _ hf => hf) rfl rfl
      · split
        · exact h.pickUp _ _
        · exact h.fewer (fun _ _ hf => hf) rfl rfl
    · exact h
  | expire wait =>
    rw [InterruptStore.step]
    split
    · exact h.fewer (fun _ _ hf => hf) rfl rfl
    · exact h
  | wake wait =>
    rw [InterruptStore.step]
    split
    · rw [endWait]
      split
      · exact h.expireCleanup _ _
      · split
        · exact h.pickUp _ _
        · exact h
    · exact h

/-- RUN LEMMA: in every run each creation is resolved at most once. -/
theorem resolved_once (inputs : List Input) : ((run inputs).accepted.map Prod.fst).Nodup := by
  have hn : Numbered (run inputs) :=
    Run.kept (P := Numbered) (fun _ input h => h.step input) new_numbered inputs
  exact hn.once

-- ==== careful runs

/-- THE INVARIANT of careful runs: an event belongs to a pending interrupt or a stored
resolution, which is awaited, and a wait whose event is set finds its resolution. -/
structure Inv (s : InterruptStore) : Prop where
  pending : ∀ interruptId found, s.pending interruptId = some found →
    s.events interruptId = some found.number ∧ s.signalled found.number = false ∧
      s.results interruptId = none
  stored : ∀ interruptId stored, s.results interruptId = some stored →
    s.events interruptId = some stored.number ∧ s.signalled stored.number = true ∧
      s.Awaited interruptId
  held : ∀ interruptId event, s.events interruptId = some event →
    s.pending interruptId ≠ none ∨ s.results interruptId ≠ none
  fresh : ∀ interruptId event, s.events interruptId = some event → event < s.nextEvent
  apart : ∀ interruptId interruptId' event, s.events interruptId = some event →
    s.events interruptId' = some event → interruptId = interruptId'
  waits : ∀ wait interruptId event expired, s.waits wait = .waiting interruptId event expired →
    event < s.nextEvent ∧
      (∀ interruptId', s.events interruptId' = some event → interruptId' = interruptId) ∧
      (s.signalled event = true →
        ∃ stored, s.results interruptId = some stored ∧ stored.number = event)

theorem new_inv : Inv new := by
  refine ⟨?_, ?_, ?_, ?_, ?_, ?_⟩
  · intro interruptId found hf
    cases hf
  · intro interruptId stored hs
    cases hs
  · intro interruptId event he
    cases he
  · intro interruptId event he
    cases he
  · intro interruptId interruptId' event he
    cases he
  · intro wait interruptId event expired hwait
    cases hwait

/-- STEP LEMMA (`create`): a new creation finds nothing under its id. -/
theorem Inv.create (h : Inv s) (interrupt : Interrupt) : Inv (s.create interrupt) := by
  rw [InterruptStore.create]
  split
  · exact h
  next hfree =>
    simp only [Bool.or_eq_true, not_or, Bool.not_eq_true, Option.isSome_eq_false_iff,
      Option.isNone_iff_eq_none] at hfree
    obtain ⟨⟨hp, heven⟩, hres⟩ := hfree
    have hs : ∀ event, event < s.nextEvent →
        update s.signalled s.nextEvent false event = s.signalled event := by
      intro event hlt
      rw [update_of_ne (by omega)]
    refine ⟨?_, ?_, ?_, ?_, ?_, ?_⟩
    · intro interruptId found hf
      by_cases hid : interruptId = interrupt.id
      · simp only [hid, update_self, Option.some.injEq] at hf ⊢
        rw [← hf]
        exact ⟨rfl, update_self _ _ _, hres⟩
      · simp only [update_of_ne hid] at hf ⊢
        obtain ⟨he, hsilent, hnone⟩ := h.pending interruptId found hf
        exact ⟨he, (hs _ (h.fresh _ _ he)).trans hsilent, hnone⟩
    · intro interruptId stored hstored
      have hid : interruptId ≠ interrupt.id := by
        intro heq
        simp [heq, hres] at hstored
      simp only [update_of_ne hid]
      obtain ⟨he, hset, ha⟩ := h.stored interruptId stored hstored
      exact ⟨he, (hs _ (h.fresh _ _ he)).trans hset, ha⟩
    · intro interruptId event he
      by_cases hid : interruptId = interrupt.id
      · left
        simp [hid]
      · simp only [update_of_ne hid] at he ⊢
        exact h.held interruptId event he
    · intro interruptId event he
      by_cases hid : interruptId = interrupt.id
      · simp only [hid, update_self, Option.some.injEq] at he
        rw [← he]
        exact Nat.lt_succ_self _
      · simp only [update_of_ne hid] at he
        exact Nat.lt_succ_of_lt (h.fresh interruptId event he)
    · intro interruptId interruptId' event he he'
      have hapart : ∀ i i' e e', s.events i = some e → s.events i' = some e' → id e = id e' →
          i = i' := by
        rintro i i' e - hi hi' rfl
        exact h.apart i i' e hi hi'
      exact apart_update hapart (fun other e ho => Nat.ne_of_lt (h.fresh other e ho)) he he' rfl
    · intro wait interruptId event expired hwait
      obtain ⟨hlt, hown, hset⟩ := h.waits wait interruptId event expired hwait
      refine ⟨Nat.lt_succ_of_lt hlt, ?_, ?_⟩
      · intro interruptId' he
        by_cases hid : interruptId' = interrupt.id
        · simp only [hid, update_self, Option.some.injEq] at he
          omega
        · simp only [update_of_ne hid] at he
          exact hown interruptId' he
      · intro hsign
        simp only [hs event hlt] at hsign
        exact hset hsign

/-- STEP LEMMA (`resolve`): a resolution is stored for somebody who waits. -/
theorem Inv.resolve (h : Inv s)
    (ha : (s.resolved resolution).isSome → s.Awaited resolution.interruptId) :
    Inv (s.resolve resolution) := by
  rw [InterruptStore.resolve]
  split
  · exact h
  next found hr =>
    rw [hr] at ha
    have hp := pending_of_resolved hr
    obtain ⟨he, hsilent, hnone⟩ := h.pending _ _ hp
    simp only [he]
    have hsignalled : ∀ event, event ≠ found.number →
        update s.signalled found.number true event = s.signalled event := by
      intro event hne
      rw [update_of_ne hne]
    refine ⟨?_, ?_, ?_, h.fresh, h.apart, ?_⟩
    · intro interruptId held hheld
      by_cases hid : interruptId = resolution.interruptId
      · simp only [hid, update_self] at hheld
        cases hheld
      · simp only [update_of_ne hid] at hheld ⊢
        obtain ⟨he', hsilent', hnone'⟩ := h.pending interruptId held hheld
        have hne : held.number ≠ found.number := by
          intro heq
          rw [heq] at he'
          exact hid (h.apart _ _ _ he' he)
        exact ⟨he', (hsignalled _ hne).trans hsilent', hnone'⟩
    · intro interruptId stored hs
      by_cases hid : interruptId = resolution.interruptId
      · simp only [hid, update_self, Option.some.injEq] at hs
        rw [hid, ← hs]
        exact ⟨he, update_self _ _ _, ha rfl⟩
      · simp only [update_of_ne hid] at hs
        obtain ⟨he', hset', ha'⟩ := h.stored interruptId stored hs
        have hne : stored.number ≠ found.number := by
          intro heq
          rw [heq] at he'
          exact hid (h.apart _ _ _ he' he)
        exact ⟨he', (hsignalled _ hne).trans hset', ha'⟩
    · intro interruptId event he'
      by_cases hid : interruptId = resolution.interruptId
      · right
        simp [hid]
      · simp only [update_of_ne hid]
        exact h.held interruptId event he'
    · intro wait interruptId event expired hwait
      obtain ⟨hlt, hown, hset⟩ := h.waits wait interruptId event expired hwait
      refine ⟨hlt, hown, ?_⟩
      intro hsign
      by_cases heq : event = found.number
      · have hid : resolution.interruptId = interruptId := by
          apply hown
          rw [heq]
          exact he
        rw [← hid]
        exact ⟨⟨resolution, found.number⟩, update_self _ _ _, heq.symm⟩
      · simp only [hsignalled event heq] at hsign
        obtain ⟨stored, hs, hnum⟩ := hset hsign
        have hid : interruptId ≠ resolution.interruptId := by
          intro hsame
          simp [hsame, hnone] at hs
        exact ⟨stored, by simpa only [update_of_ne hid] using hs, hnum⟩

/-- STEP LEMMA: an id is emptied for nobody who waits there, by a wait that is over. -/
theorem Inv.emptied (h : Inv s) (hw : s'.waits = update s.waits wait (.returned result))
    (hself : ∀ other event expired, s.waits wait = .waiting other event expired →
      other = interruptId) (hs : ∀ stored, s.results interruptId = some stored →
      ∀ wait', wait' ≠ wait → ¬ s.WaitsOn wait' stored.number)
    (hp : s'.pending = update s.pending interruptId none)
    (heven : s'.events = update s.events interruptId none)
    (hres : s'.results = update s.results interruptId none)
    (hsign : s'.signalled = s.signalled) (hnext : s'.nextEvent = s.nextEvent) : Inv s' := by
  have he : ∀ other event, s'.events other = some event →
      other ≠ interruptId ∧ s.events other = some event := by
    intro other event ho
    simpa [heven, Function.update_apply, ite_eq_iff] using ho
  refine ⟨?_, ?_, ?_, ?_, ?_, ?_⟩
  · intro other found hf
    rw [hp] at hf
    by_cases hid : other = interruptId
    · simp [hid] at hf
    · rw [update_of_ne hid] at hf
      rw [heven, hsign, hres, update_of_ne hid, update_of_ne hid]
      exact h.pending other found hf
  · intro other stored ho
    rw [hres] at ho
    by_cases hid : other = interruptId
    · simp [hid] at ho
    · rw [update_of_ne hid] at ho
      rw [heven, hsign, update_of_ne hid]
      obtain ⟨he', hset, wait', event', expired', hwait'⟩ := h.stored other stored ho
      refine ⟨he', hset, wait', event', expired', ?_⟩
      have hne : wait' ≠ wait := by
        intro heq
        rw [heq] at hwait'
        exact hid (hself _ _ _ hwait')
      rw [hw, update_of_ne hne]
      exact hwait'
  · intro other event ho
    obtain ⟨hid, ho'⟩ := he other event ho
    rw [hp, hres, update_of_ne hid, update_of_ne hid]
    exact h.held other event ho'
  · intro other event ho
    rw [hnext]
    exact h.fresh other event (he other event ho).2
  · intro other other' event ho ho'
    exact h.apart other other' event (he _ _ ho).2 (he _ _ ho').2
  · intro wait' other event expired hwait'
    rw [hw] at hwait'
    have hne : wait' ≠ wait := by
      intro heq
      simp [heq] at hwait'
    rw [update_of_ne hne] at hwait'
    obtain ⟨hlt, hown, hset⟩ := h.waits wait' other event expired hwait'
    refine ⟨hnext ▸ hlt, fun other' ho => hown other' (he _ _ ho).2, ?_⟩
    intro hsig
    rw [hsign] at hsig
    obtain ⟨stored, hkept, hnum⟩ := hset hsig
    have hid : other ≠ interruptId := by
      intro heq
      rw [heq] at hkept
      exact hs stored hkept wait' hne ⟨other, expired, by rw [hnum]; exact hwait'⟩
    exact ⟨stored, by rw [hres, update_of_ne hid]; exact hkept, hnum⟩

/-- STEP LEMMA (a resolution is picked up). -/
theorem Inv.pickUp (h : Inv s)
    (hself : ∀ other event expired, s.waits wait = .waiting other event expired →
      other = interruptId) (hres : s.results interruptId ≠ none)
    (hs : ∀ stored, s.results interruptId = some stored →
      ∀ wait', wait' ≠ wait → ¬ s.WaitsOn wait' stored.number) :
    Inv (s.pickUp wait interruptId) := by
  have hnone : s.pending interruptId = none := by
    cases hp : s.pending interruptId with
    | none => rfl
    | some found => exact absurd (h.pending _ _ hp).2.2 hres
  refine h.emptied rfl hself hs ?_ rfl rfl rfl rfl
  rw [← hnone, Function.update_eq_self]
  rfl

theorem Inv.asleep (h : Inv s) {expired : Bool} (hw : event < s.nextEvent ∧
      (∀ interruptId', s.events interruptId' = some event → interruptId' = interruptId) ∧
      (s.signalled event = true →
        ∃ stored, s.results interruptId = some stored ∧ stored.number = event))
    (hb : ∀ other event' expired', s.waits wait = .waiting other event' expired' →
      other = interruptId) :
    Inv { s with waits := update s.waits wait (.waiting interruptId event expired) } := by
  refine ⟨h.pending, ?_, h.held, h.fresh, h.apart, ?_⟩
  · intro other stored hs
    obtain ⟨he, hset, wait', event', expired', hwait'⟩ := h.stored other stored hs
    refine ⟨he, hset, ?_⟩
    by_cases hid : wait' = wait
    · rw [hid] at hwait'
      have ho := hb other event' expired' hwait'
      exact ⟨wait, event, expired, by simp [ho]⟩
    · exact ⟨wait', event', expired', by simpa [hid] using hwait'⟩
  · intro wait' other event' expired' hwait'
    by_cases hid : wait' = wait
    · simp only [hid, update_self, WaitStage.waiting.injEq] at hwait'
      obtain ⟨ho, he, _⟩ := hwait'
      rw [← ho, ← he]
      exact hw
    · simp only [update_of_ne hid] at hwait'
      exact h.waits wait' other event' expired' hwait'

/-- A call that was not asleep returns `None` for want of an event. -/
theorem Inv.refused (h : Inv s) (ha : s.waits wait = .absent) :
    Inv { s with waits := update s.waits wait (.returned none) } := by
  refine ⟨h.pending, ?_, h.held, h.fresh, h.apart, ?_⟩
  · intro other stored hs
    obtain ⟨he, hset, wait', event', expired', hwait'⟩ := h.stored other stored hs
    refine ⟨he, hset, wait', event', expired', ?_⟩
    have hid : wait' ≠ wait := by
      intro heq
      simp [heq, ha] at hwait'
    simpa [hid] using hwait'
  · intro wait' other event' expired' hwait'
    have hid : wait' ≠ wait := by
      intro heq
      simp [heq] at hwait'
    simp only [update_of_ne hid] at hwait'
    exact h.waits wait' other event' expired' hwait'

theorem Inv.results_of_signalled (h : Inv s) (he : s.events interruptId = some event)
    (hset : s.signalled event = true) : s.results interruptId ≠ none := by
  refine (h.held interruptId event he).resolve_left ?_
  intro hp
  cases hf : s.pending interruptId with
  | none => exact hp hf
  | some found =>
    obtain ⟨he', hs, _⟩ := h.pending interruptId found hf
    rw [he, Option.some.injEq] at he'
    simp [← he', hset] at hs

/-- STEP LEMMA: a careful step keeps the invariant. -/
theorem Inv.step (h : Inv s) (hok : s.Careful input) : Inv (s.step input) := by
  cases input with
  | create interrupt => exact h.create interrupt
  | resolve resolution => exact h.resolve (hok.1 resolution rfl)
  | wait wait interruptId prompt =>
    have hr := hok.2 wait interruptId true
    rw [InterruptStore.step]
    rw [removes] at hr
    cases hwait : s.waits wait with
    | absent =>
      rw [beginWait]
      cases he : s.events interruptId with
      | none => exact h.refused hwait
      | some event =>
        simp only [hwait, he] at hr
        dsimp only
        split
        next hset =>
          rw [if_pos hset] at hr
          rw [Bool.and_eq_true] at hset
          refine h.pickUp ?_ (h.results_of_signalled he hset.1) ?_
          · intro other event' expired' hasleep
            simp [hwait] at hasleep
          · intro stored hs wait' hne
            exact hr rfl stored hs wait' (fun _ => hne)
        next =>
          refine h.asleep ⟨h.fresh _ _ he, ?_, ?_⟩ ?_
          · intro interruptId' he'
            exact h.apart _ _ _ he' he
          · intro hset
            cases hs : s.results interruptId with
            | none => exact absurd hs (h.results_of_signalled he hset)
            | some stored =>
              have hnum := (h.stored _ _ hs).1
              rw [he, Option.some.injEq] at hnum
              exact ⟨stored, rfl, hnum.symm⟩
          · intro other event' expired' hasleep
            simp [hwait] at hasleep
    | waiting other event expired | returned result => exact h
  | expire wait =>
    rw [InterruptStore.step]
    cases hwait : s.waits wait with
    | waiting interruptId event expired =>
      refine h.asleep (h.waits _ _ _ _ hwait) ?_
      intro other event' expired' hasleep
      rw [hwait, WaitStage.waiting.injEq] at hasleep
      exact hasleep.1.symm
    | absent | returned result => exact h
  | wake wait =>
    rw [InterruptStore.step]
    cases hwait : s.waits wait with
    | waiting interruptId event expired =>
      have hself : ∀ other event' expired', s.waits wait = .waiting other event' expired' →
          other = interruptId := by
        intro other event' expired' hasleep
        rw [hwait, WaitStage.waiting.injEq] at hasleep
        exact hasleep.1.symm
      dsimp only
      rw [endWait]
      by_cases hexpired : expired = true
      · rw [if_pos hexpired]
        refine h.emptied rfl hself ?_ rfl rfl rfl rfl rfl
        intro stored hs wait' _
        refine hok.2 wait interruptId false ?_ stored hs wait' ?_
        · rw [removes, hwait]
          simp [hexpired]
        · intro ht
          cases ht
      · rw [if_neg hexpired]
        split
        next hset =>
          obtain ⟨stored, hs, _⟩ := (h.waits _ _ _ _ hwait).2.2 hset
          refine h.pickUp hself (by rw [hs]; simp) ?_
          intro stored' hs' wait' hne
          refine hok.2 wait interruptId true ?_ stored' hs' wait' (fun _ => hne)
          rw [removes, hwait]
          simp [hexpired, hset]
        next => exact h
    | absent | returned result => exact h

-- ==== what an accepted resolution does

/-- `wait` has the resolution, or sleeps with it stored for it. -/
def Owed (s : InterruptStore) (wait : Nat) (interruptId : String) (stored : StoredResult) : Prop :=
  (∃ expired, s.waits wait = .waiting interruptId stored.number expired ∧
    s.results interruptId = some stored) ∨
  s.waits wait = .returned (some stored.resolution)

theorem returned_step (h : s.waits wait = .returned result) (input : Input) :
    (s.step input).waits wait = .returned result := by
  have ho : ∀ {wait' : Nat} {stage : WaitStage}, wait' ≠ wait →
      update s.waits wait' stage wait = .returned result := by
    intro wait' stage hne
    rw [update_of_ne hne.symm]
    exact h
  have hne : ∀ {wait' : Nat}, (∀ result', s.waits wait' ≠ .returned result') → wait' ≠ wait := by
    intro wait' hnot heq
    rw [heq] at hnot
    exact hnot result h
  cases input with
  | create interrupt =>
    rw [step, create]
    split <;> exact h
  | resolve resolution =>
    rw [step, resolve]
    split <;> exact h
  | wait wait' interruptId prompt =>
    rw [step]
    split
    next ha =>
      have hwait := hne (by rw [ha]; intro result' heq; cases heq)
      rw [beginWait]
      split
      · exact ho hwait
      · split
        · exact ho hwait
        · exact ho hwait
    next => exact h
  | expire wait' =>
    rw [step]
    split
    next other event expired hasleep =>
      exact ho (hne (by rw [hasleep]; intro result' heq; cases heq))
    next => exact h
  | wake wait' =>
    rw [step]
    split
    next other event expired hasleep =>
      have hwait := hne (by rw [hasleep]; intro result' heq; cases heq)
      rw [endWait]
      split
      · exact ho hwait
      · split
        · exact ho hwait
        · exact h
    next => exact h

/-- STEP LEMMA: what is owed to a wait stays owed to it. -/
theorem Inv.owed_step (h : Inv s) (hok : s.Careful input) (howed : s.Owed wait interruptId stored) :
    (s.step input).Owed wait interruptId stored := by
  cases howed with
  | inr hret => exact .inr (returned_step hret input)
  | inl hasleep =>
    obtain ⟨expired, hwait, hs⟩ := hasleep
    have hw : s.WaitsOn wait stored.number := ⟨interruptId, expired, hwait⟩
    -- nobody else empties the id, for this wait would lose what it is owed
    have hk : ∀ wait' other takes, s.removes input = some (wait', other, takes) →
        (takes = true → wait ≠ wait') → other ≠ interruptId := by
      intro wait' other takes hr ht heq
      rw [heq] at hr
      exact hok.2 wait' interruptId takes hr stored hs wait ht hw
    have hsame : ∀ {s' : InterruptStore}, s'.waits wait = s.waits wait →
        s'.results interruptId = s.results interruptId → s'.Owed wait interruptId stored := by
      intro s' hwaits hres
      exact .inl ⟨expired, hwaits.trans hwait, hres.trans hs⟩
    cases input with
    | create interrupt =>
      rw [InterruptStore.step, InterruptStore.create]
      split
      · exact hsame rfl rfl
      · exact hsame rfl rfl
    | resolve resolution =>
      rw [InterruptStore.step, InterruptStore.resolve]
      split
      · exact hsame rfl rfl
      next found hresolution =>
        refine hsame rfl (update_of_ne ?_ _ _)
        intro heq
        have hnone := (h.pending _ _ (pending_of_resolved hresolution)).2.2
        simp [← heq, hs] at hnone
    | wait wait' other prompt =>
      rw [InterruptStore.step]
      rw [removes] at hk
      cases ha : s.waits wait' with
      | absent =>
        have hne : wait ≠ wait' := by
          intro heq
          simp [← heq, hwait] at ha
        simp only [ha] at hk
        rw [beginWait]
        cases he : s.events other with
        | none => exact hsame (update_of_ne hne _ _) rfl
        | some event =>
          simp only [he] at hk
          dsimp only
          split
          next hset =>
            rw [if_pos hset] at hk
            exact hsame (update_of_ne hne _ _)
              (update_of_ne (hk wait' other true rfl (fun _ => hne)).symm _ _)
          next => exact hsame (update_of_ne hne _ _) rfl
      | waiting other' event' expired' => exact hsame rfl rfl
      | returned result => exact hsame rfl rfl
    | expire wait' =>
      rw [InterruptStore.step]
      cases ho : s.waits wait' with
      | waiting other' event' expired' =>
        by_cases hid : wait = wait'
        · rw [← hid, hwait, WaitStage.waiting.injEq] at ho
          rw [← hid, ← ho.1, ← ho.2.1]
          exact .inl ⟨true, update_self _ _ _, hs⟩
        · exact hsame (update_of_ne hid _ _) rfl
      | absent | returned result => exact hsame rfl rfl
    | wake wait' =>
      rw [InterruptStore.step]
      rw [removes] at hk
      cases ho : s.waits wait' with
      | waiting other' event' expired' =>
        simp only [ho] at hk
        dsimp only
        rw [endWait]
        by_cases hid : wait = wait'
        · rw [← hid, hwait, WaitStage.waiting.injEq] at ho
          obtain ⟨ho, he, _⟩ := ho
          by_cases hexpired : expired' = true
          · rw [if_pos hexpired] at hk
            exact absurd ho.symm (hk wait' other' false rfl (by intro heq; cases heq))
          · rw [if_neg hexpired, ← he, if_pos (h.stored _ _ hs).2.1, ← hid, ← ho]
            right
            simp [InterruptStore.pickUp, hs]
        · by_cases hexpired : expired' = true
          · rw [if_pos hexpired] at hk ⊢
            have hne := hk wait' other' false rfl (by intro heq; cases heq)
            exact hsame (update_of_ne hid _ _) (update_of_ne hne.symm _ _)
          · rw [if_neg hexpired] at hk ⊢
            split
            next hset =>
              rw [if_pos hset] at hk
              have hne := hk wait' other' true rfl (fun _ => hid)
              exact hsame (update_of_ne hid _ _) (update_of_ne hne.symm _ _)
            next => exact hsame rfl rfl
      | absent | returned result => exact hsame rfl rfl

/-- RUN LEMMA: what is owed to a wait stays owed to it along a careful run. -/
theorem Inv.owed_run (h : Inv s) {inputs : List Input}
    (hok : Run.Throughout InterruptStore.step Careful s inputs)
    (howed : s.Owed wait interruptId stored) :
    (Run.final InterruptStore.step s inputs).Owed wait interruptId stored := by
  induction inputs generalizing s with
  | nil => exact howed
  | cons input rest ih => exact ih (h.step hok.1) hok.2 (h.owed_step hok.1 howed)

theorem Inv.owed_resolve (h : Inv s) (hr : s.resolved resolution = some found)
    (hw : s.WaitsOn wait found.number) :
    (s.resolve resolution).Owed wait resolution.interruptId ⟨resolution, found.number⟩ := by
  obtain ⟨interruptId, expired, hwait⟩ := hw
  have he := (h.pending _ _ (pending_of_resolved hr)).1
  have hid := (h.waits _ _ _ _ hwait).2.1 _ he
  left
  refine ⟨expired, ?_, ?_⟩
  · rw [hid]
    simpa [InterruptStore.resolve, hr] using hwait
  · simp [InterruptStore.resolve, hr]

/-- AN ACCEPTED RESOLUTION IS NOT LOST: a careful run keeps what the store
promises. -/
theorem resolutions_promised (inputs : List Input)
    (hcareful : Run.Throughout step Careful new inputs) : Promise inputs := by
  have hinv : ∀ v ∈ Run.states step new inputs, Inv v :=
    Run.throughout_states (fun _ _ hok h => Inv.step h hok) hcareful new_inv
  refine ⟨?_, resolved_once inputs, ?_⟩
  · intro before resolution after hsplit found hresolved wait hwaits result hresult
    have hbefore : Inv (run before) :=
      hinv _ ((Run.mem_states_iff _ _ _ _).2 ⟨before, _, hsplit, rfl⟩)
    have hrest : Run.Throughout step Careful (run before) (.resolve resolution :: after) := by
      apply Run.throughout_append
      rwa [← hsplit]
    have howed := (hbefore.step hrest.1).owed_run hrest.2 (hbefore.owed_resolve hresolved hwaits)
    rw [hsplit, run, Run.final_append, Run.final_cons] at hresult
    cases howed with
    | inl hasleep =>
      obtain ⟨expired, hwait, _⟩ := hasleep
      simp [hresult] at hwait
    | inr hreturned =>
      rw [hresult] at hreturned
      injection hreturned
  · intro v hv interruptId hnobody hpending
    have hresults : v.results interruptId = none := by
      cases hstored : v.results interruptId with
      | none => rfl
      | some stored => exact absurd ((hinv v hv).stored _ _ hstored).2.2 hnobody
    refine ⟨?_, hresults⟩
    cases hevent : v.events interruptId with
    | none => rfl
    | some event =>
      cases (hinv v hv).held _ _ hevent with
      | inl hleft => exact absurd hpending hleft
      | inr hright => exact absurd hresults hright

def deployAsked : Interrupt := ⟨"deploy", .toolApproval⟩

def deployApproved : InterruptResolution where
  interruptId := "deploy"
  decision := some .approve
  feedback := none
  response := none
  resolvedBy := "operator"
  payload := rfl

theorem resolutions_promised_approved : Promise
    [.create deployAsked, .wait 0 "deploy" false, .resolve deployApproved, .wake 0] := by
  refine resolutions_promised _ ⟨?_, ?_, ?_, ?_, trivial⟩
  · refine ⟨?_, ?_⟩
    · intro resolution heq
      cases heq
    · intro wait interruptId takes hremoves
      cases hremoves
  · refine ⟨?_, ?_⟩
    · intro resolution heq
      cases heq
    · intro wait interruptId takes hremoves
      cases hremoves
  · refine ⟨?_, ?_⟩
    · intro resolution heq _
      injection heq with heq
      rw [← heq]
      exact ⟨0, 0, false, rfl⟩
    · intro wait interruptId takes hremoves
      cases hremoves
  · refine ⟨?_, ?_⟩
    · intro resolution heq
      cases heq
    · intro wait interruptId takes hremoves stored _ wait' hne hwaits
      have hall : (0, "deploy", true) = (wait, interruptId, takes) := Option.some.inj hremoves
      simp only [Prod.mk.injEq] at hall
      -- nobody but the wait that takes it ever began
      have hother : wait' ≠ 0 := by
        rw [hall.1]
        exact hne hall.2.2.symm
      obtain ⟨interruptId', expired, hwait⟩ := hwaits
      have habsent : (update (fun _ => WaitStage.absent) 0
          (.waiting "deploy" 0 false) : Nat → WaitStage) wait' =
            .waiting interruptId' stored.number expired := hwait
      simp [update_of_ne hother] at habsent

/-- The first of two waits to wake takes the approval, and the second returns nothing. -/
def askedTwice : List Input :=
  [.create deployAsked, .wait 0 "deploy" false, .wait 1 "deploy" false,
    .resolve deployApproved, .wake 0, .wake 1]

theorem resolution_taken_from_second : ¬ ∀ inputs, Promise inputs := by
  intro h
  have hkept := (h askedTwice).kept
    [.create deployAsked, .wait 0 "deploy" false, .wait 1 "deploy" false] deployApproved
    [.wake 0, .wake 1] rfl ⟨deployAsked, 0⟩ (by decide) 1 ⟨"deploy", false, by decide⟩ none
    (by decide)
  cases hkept

end InterruptStore

end Synthorg.EventStream
