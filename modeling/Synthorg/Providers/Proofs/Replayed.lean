/-
A replay of a run that was recorded with care returns what was recorded.

The replay takes a task's lane when it makes a call and the recording when the
outcome is there, so the two are compared where the recording is over: by then
its lanes are in the order of the first calls, and the replay has the first few
of them (`Follows.lanes`). The number of a call among those of its task with the
same hash is the cursor of the replay (`Follows.cursor`), and what the recording
has under that number is the outcome of the same call (`Recorder.Inv.filed`).
-/
import Mathlib.Data.List.Nodup
import Mathlib.Data.List.Perm.Subperm
import Synthorg.Providers.Cassette

namespace Synthorg.Cassettes

open Lib
open List

-- ==== the lists

section Lists

variable {α β : Type*}

variable {f : α → Option β} {l : List α} {i : Nat} {a b : α}

theorem filterMap_set (hi : l[i]? = some a) : (l.set i b).filterMap f =
    (l.take i).filterMap f ++ ((f b).toList ++ (l.drop (i + 1)).filterMap f) := by
  obtain ⟨hlen, -⟩ := List.getElem?_eq_some_iff.1 hi
  rw [set_eq_take_append_cons_drop, if_pos hlen, filterMap_append, filterMap_cons]
  cases f b <;> rfl

theorem filterMap_set_same (hi : l[i]? = some a) (hab : f b = f a) :
    (l.set i b).filterMap f = l.filterMap f := by
  obtain ⟨hlen, rfl⟩ := List.getElem?_eq_some_iff.1 hi
  rw [filterMap_set hi, hab, ← filterMap_set hi, set_getElem_self]

theorem filterMap_set_concat {v : β} (hi : l[i]? = some a) (ha : f a = none) (hb : f b = some v)
    (hl : ∀ j c, i < j → l[j]? = some c → f c = none) :
    (l.set i b).filterMap f = l.filterMap f ++ [v] := by
  have hnil : (l.drop (i + 1)).filterMap f = [] := by
    rw [filterMap_eq_nil_iff]
    intro c hc
    obtain ⟨j, hj⟩ := getElem?_of_mem hc
    rw [getElem?_drop] at hj
    exact hl _ c (by omega) hj
  have hsame := filterMap_set (b := a) (f := f) hi
  rw [filterMap_set_same hi rfl, ha, hnil] at hsame
  rw [filterMap_set hi, hb, hnil, hsame]
  simp

theorem getElem?_filterMap_length {n : Nat} {v : β} (hn : l[n]? = some a) (ha : f a = some v) :
    (l.filterMap f)[((l.take n).filterMap f).length]? = some v := by
  rw [← filterMap_set_same hn rfl, filterMap_set hn, ha, getElem?_append_right le_rfl]
  simp

theorem getElem?_set_cases {j : Nat} {c : α} (h : (l.set i b)[j]? = some c) :
    (i = j ∧ c = b) ∨ (i ≠ j ∧ l[j]? = some c) := by
  rw [getElem?_set] at h
  split at h
  next hij => exact .inl ⟨hij, Option.some.inj (Option.ite_none_right_eq_some.1 h).2.symm⟩
  next hij => exact .inr ⟨hij, h⟩

end Lists

-- ==== the lanes

theorem laneForCurrentTask_mem (lanes : Lanes) (t : Nat) : t ∈ (laneForCurrentTask lanes t).2 := by
  unfold laneForCurrentTask
  split <;> simp_all

theorem laneForCurrentTask_idxOf (lanes : Lanes) (t : Nat) :
    (laneForCurrentTask lanes t).1 = (laneForCurrentTask lanes t).2.idxOf t := by
  unfold laneForCurrentTask
  split
  · rfl
  next hnew =>
    rw [idxOf_append_of_notMem hnew]
    simp

theorem laneForCurrentTask_keeps {lanes : Lanes} {t t' : Nat} (h : t' ∈ lanes) :
    t' ∈ (laneForCurrentTask lanes t).2 ∧
      (laneForCurrentTask lanes t).2.idxOf t' = lanes.idxOf t' := by
  unfold laneForCurrentTask
  split
  · exact ⟨h, rfl⟩
  · exact ⟨mem_append_left _ h, idxOf_append_of_mem h⟩

theorem laneForCurrentTask_others {lanes : Lanes} {t t' : Nat}
    (h : t' ∈ (laneForCurrentTask lanes t).2) (hne : t' ≠ t) : t' ∈ lanes := by
  unfold laneForCurrentTask at h
  split at h
  · exact h
  · simpa [hne] using h

theorem laneForCurrentTask_length (lanes : Lanes) (t : Nat) :
    lanes.length ≤ (laneForCurrentTask lanes t).2.length := by
  unfold laneForCurrentTask
  split <;> simp

theorem laneForCurrentTask_extends {lanes order : List Nat} {t : Nat} (h : lanes <+: order)
    (hnext : t ∈ lanes ∨ order[lanes.length]? = some t) :
    (laneForCurrentTask lanes t).2 <+: order := by
  unfold laneForCurrentTask
  split
  · exact h
  next hnew =>
    obtain ⟨rest, rfl⟩ := h
    have hrest := hnext.resolve_left hnew
    rw [getElem?_append_right (Nat.le_refl _), Nat.sub_self] at hrest
    cases rest with
    | nil => cases hrest
    | cons x rest =>
      cases hrest
      exact ⟨rest, by simp⟩

-- ==== the interactions

section Buckets

variable {η ρ χ κ : Type} [DecidableEq η]

theorem bucket_concat (recorded : List (CassetteInteraction η ρ χ κ))
    (x : CassetteInteraction η ρ χ κ) (h : η) (l : Nat) :
    bucket (recorded ++ [x]) h l =
      bucket recorded h l ++ if x.requestHash = h ∧ x.lane = l then [x] else [] := by
  unfold bucket
  rw [filter_append]
  congr 1
  by_cases hx : x.requestHash = h ∧ x.lane = l
  · simp [hx.1, hx.2]
  · rw [if_neg hx, filter_cons_of_neg (by simpa using fun h1 h2 => hx ⟨h1, h2⟩)]
    rfl

theorem bucket_eq_nil {recorded : List (CassetteInteraction η ρ χ κ)} {l : Nat}
    (h : ∀ x ∈ recorded, x.lane < l) (hash : η) : bucket recorded hash l = [] := by
  unfold bucket
  rw [filter_eq_nil_iff]
  intro x hx
  have := h x hx
  simp only [Bool.and_eq_true, decide_eq_true_eq]
  omega

end Buckets

-- ==== what is careful

section Recording

variable {α η ρ χ κ : Type} [DecidableEq η] {requestHash : Request α → η}

def Stage.outcome? : Stage ρ χ κ → Option (CassetteOutcome ρ χ κ)
  | .locking outcome | .writing outcome | .returned outcome => some outcome
  | _ => none

def selected (requestHash : Request α → η) (hash : η) (c : Call α ρ χ κ) :
    Option (CassetteOutcome ρ χ κ) :=
  if requestHash c.request = hash then c.stage.outcome? else none

def careful (requestHash : Request α → η) (s : Recorder α η ρ χ κ)
    (input : Recorder.Input α ρ χ κ) : Bool :=
  match input.place with
  | none => true
  | some (t, i) =>
    match (s.calls t)[i]? with
    | none => true
    | some c =>
      match Recorder.outcomeOf c input with
      | some outcome =>
        (t ∈ s.lanes || s.firsts[s.lanes.length]? = some t) &&
          ((s.calls t).take i).all (fun c' =>
            requestHash c'.request ≠ requestHash c.request || c'.stage.outcome?.isSome) &&
          outcome.errorClass.all (fun e => e ∈ replayableProviderErrors)
      | none =>
        match c.stage, input with
        | .reading _, .close _ _ => false
        | _, _ => true

-- ==== the invariant

def Recorder.Waiting (s : Recorder α η ρ χ κ) : Prop :=
  ∃ t i : Nat, ∃ c : Call α ρ χ κ, ∃ outcome, (s.calls t)[i]? = some c ∧ c.stage = .locking outcome

structure Recorder.Persisted (s : Recorder α η ρ χ κ) : Prop where
  free : s.writer = none → s.file = s.recorded ∨ s.Waiting
  held : ∀ t i snapshot, s.writer = some (t, i, snapshot) →
    (∃ c : Call α ρ χ κ, ∃ outcome, (s.calls t)[i]? = some c ∧ c.stage = .writing outcome) ∧
      (snapshot = s.recorded ∨ s.Waiting)

structure Recorder.Inv (requestHash : Request α → η) (s : Recorder α η ρ χ κ) : Prop where
  inOrder : s.lanes <+: s.firsts
  nodup : s.firsts.Nodup
  called : ∀ t, t ∈ s.firsts ↔ s.calls t ≠ []
  filed : ∀ t ∈ s.lanes, ∀ hash, (bucket s.recorded hash (s.lanes.idxOf t)).map
    CassetteInteraction.outcome = (s.calls t).filterMap (selected requestHash hash)
  unfiled : ∀ t, t ∉ s.lanes → ∀ c ∈ s.calls t, c.stage.outcome? = none
  numbered : ∀ hash lane, (bucket s.recorded hash lane).map CassetteInteraction.seq =
    List.range (s.seqCounter hash lane)
  within : ∀ x ∈ s.recorded, x.lane < s.lanes.length
  /-- No call is recorded before an earlier one with its hash. -/
  inTurn : ∀ t i j : Nat, ∀ ci cj : Call α ρ χ κ, i < j →
    (s.calls t)[i]? = some ci → (s.calls t)[j]? = some cj →
    requestHash ci.request = requestHash cj.request → cj.stage.outcome? ≠ none →
      ci.stage.outcome? ≠ none
  sound : ∀ t, ∀ c ∈ s.calls t, ∀ outcome, c.stage.outcome? = some outcome →
    outcome.fits c.request.method = true ∧ ∀ e ∈ outcome.errorClass, e ∈ replayableProviderErrors
  streams : ∀ t, ∀ c ∈ s.calls t, ∀ chunks, c.stage = .reading chunks →
    c.request.method = .stream
  unclosed : ∀ t, ∀ c ∈ s.calls t, ∀ chunks, c.stage ≠ .closed chunks

end Recording

-- ==== what a step changes

section Places

variable {α η ρ χ κ : Type} {s : Recorder α η ρ χ κ}

theorem Recorder.setCall_calls (s : Recorder α η ρ χ κ) (t i : Nat) (c : Call α ρ χ κ)
    (stage : Stage ρ χ κ) (t' : Nat) : (s.setCall t i c stage).calls t' =
      if t' = t then (s.calls t).set i ⟨c.request, stage⟩ else s.calls t' := rfl

variable {t i t' : Nat} {c c' : Call α ρ χ κ} {i' : Nat} {stage : Stage ρ χ κ}

theorem Recorder.setCall_cases (h : ((s.setCall t i c stage).calls t')[i']? = some c') :
    (t' = t ∧ i' = i ∧ c' = ⟨c.request, stage⟩) ∨
      (¬ (t' = t ∧ i' = i) ∧ (s.calls t')[i']? = some c') := by
  rw [Recorder.setCall_calls] at h
  split at h
  next ht =>
    subst ht
    rcases getElem?_set_cases h with ⟨hi, hc⟩ | ⟨hi, hc⟩
    · exact .inl ⟨rfl, hi.symm, hc⟩
    · exact .inr ⟨fun heq => hi heq.2.symm, hc⟩
  next ht => exact .inr ⟨fun heq => ht heq.1, h⟩

theorem Recorder.setCall_mem (h : c' ∈ (s.setCall t i c stage).calls t') :
    (t' = t ∧ c' = ⟨c.request, stage⟩) ∨ c' ∈ s.calls t' := by
  obtain ⟨i', hi'⟩ := getElem?_of_mem h
  rcases Recorder.setCall_cases hi' with ⟨ht, -, hc⟩ | ⟨-, hold⟩
  · exact .inl ⟨ht, hc⟩
  · exact .inr (mem_of_getElem? hold)

theorem Recorder.setCall_self (hc : (s.calls t)[i]? = some c) (stage : Stage ρ χ κ) :
    ((s.setCall t i c stage).calls t)[i]? = some ⟨c.request, stage⟩ := by
  obtain ⟨hi, -⟩ := List.getElem?_eq_some_iff.1 hc
  rw [Recorder.setCall_calls, if_pos rfl]
  exact getElem?_set_self hi

theorem Recorder.setCall_other (c : Call α ρ χ κ) (stage : Stage ρ χ κ)
    (hne : ¬ (t' = t ∧ i' = i)) (hc : (s.calls t')[i']? = some c') :
    ((s.setCall t i c stage).calls t')[i']? = some c' := by
  rw [Recorder.setCall_calls]
  split
  next ht =>
    subst ht
    rw [getElem?_set_ne fun hi => hne ⟨rfl, hi.symm⟩]
    exact hc
  · exact hc

theorem Recorder.setCall_ne_nil (s : Recorder α η ρ χ κ) (t i : Nat) (c : Call α ρ χ κ)
    (stage : Stage ρ χ κ) (t' : Nat) : (s.setCall t i c stage).calls t' ≠ [] ↔ s.calls t' ≠ [] := by
  rw [Recorder.setCall_calls]
  split
  next ht =>
    subst ht
    simp
  · rfl

end Places

-- ==== the steps

section Steps

variable {α η ρ χ κ : Type} [DecidableEq η] {requestHash : Request α → η}
  {s : Recorder α η ρ χ κ}

variable {t i : Nat} {c : Call α ρ χ κ} {input : Recorder.Input α ρ χ κ}

/-- STEP LEMMA of a call that goes on without being recorded. -/
theorem Recorder.Inv.setCall (h : s.Inv requestHash) {stage : Stage ρ χ κ}
    (hc : (s.calls t)[i]? = some c) (hsame : stage.outcome? = c.stage.outcome?)
    (hread : ∀ chunks, stage = .reading chunks → c.request.method = .stream)
    (hclosed : ∀ chunks, stage ≠ .closed chunks) : (s.setCall t i c stage).Inv requestHash := by
  have hmem := mem_of_getElem? hc
  refine { h with called := fun t' => ?_, filed := fun t' ht' hash => ?_,
                  unfiled := fun t' ht' c' hc' => ?_,
                  inTurn := fun t' a b ca cb hab ha hb heq hcb => ?_,
                  sound := fun t' c' hc' outcome hout => ?_,
                  streams := fun t' c' hc' chunks hs => ?_,
                  unclosed := fun t' c' hc' chunks => ?_ }
  · rw [Recorder.setCall_ne_nil]
    exact h.called t'
  · refine (h.filed t' ht' hash).trans ?_
    rw [Recorder.setCall_calls]
    split
    next ht =>
      subst ht
      refine (filterMap_set_same hc ?_).symm
      simp only [selected, hsame]
    · rfl
  · rcases Recorder.setCall_mem hc' with ⟨rfl, rfl⟩ | hold
    · exact hsame.trans (h.unfiled _ ht' c hmem)
    · exact h.unfiled t' ht' c' hold
  · have hof : ∀ (k : Nat) (ck : Call α ρ χ κ), ((s.setCall t i c stage).calls t')[k]? = some ck →
        ∃ ck' : Call α ρ χ κ, (s.calls t')[k]? = some ck' ∧ ck'.request = ck.request ∧
          ck'.stage.outcome? = ck.stage.outcome? := by
      intro k ck hk
      rcases Recorder.setCall_cases hk with ⟨rfl, rfl, rfl⟩ | ⟨-, hold⟩
      · exact ⟨c, hc, rfl, hsame.symm⟩
      · exact ⟨ck, hold, rfl, rfl⟩
    obtain ⟨ca', ha', hra, hoa⟩ := hof a ca ha
    obtain ⟨cb', hb', hrb, hob⟩ := hof b cb hb
    rw [← hoa]
    exact h.inTurn t' a b ca' cb' hab ha' hb' (by rw [hra, hrb, heq]) (by rwa [hob])
  · rcases Recorder.setCall_mem hc' with ⟨rfl, rfl⟩ | hold
    · exact h.sound _ c hmem outcome (hsame.symm.trans hout)
    · exact h.sound t' c' hold outcome hout
  · rcases Recorder.setCall_mem hc' with ⟨rfl, rfl⟩ | hold
    · exact hread chunks hs
    · exact h.streams t' c' hold chunks hs
  · rcases Recorder.setCall_mem hc' with ⟨rfl, rfl⟩ | hold
    · exact hclosed chunks
    · exact h.unclosed t' c' hold chunks

variable {outcome : CassetteOutcome ρ χ κ} {request : Request α}

/-- STEP LEMMA of a call that is recorded in its turn. -/
theorem Recorder.Inv.recordInteraction (h : s.Inv requestHash) (hc : (s.calls t)[i]? = some c)
    (hnone : c.stage.outcome? = none) (hfits : outcome.fits c.request.method = true)
    (hclass : ∀ e ∈ outcome.errorClass, e ∈ replayableProviderErrors)
    (hnext : t ∈ s.lanes ∨ s.firsts[s.lanes.length]? = some t)
    (he : ∀ j c', j < i → (s.calls t)[j]? = some c' →
      requestHash c'.request = requestHash c.request → c'.stage.outcome? ≠ none) :
    (s.recordInteraction requestHash t i c outcome).Inv requestHash := by
  have hlane := laneForCurrentTask_idxOf s.lanes t
  have hmem := laneForCurrentTask_mem s.lanes t
  -- the entries of the task so far, whether it had a lane or not
  have hbefore : ∀ hash, (bucket s.recorded hash (laneForCurrentTask s.lanes t).1).map
      CassetteInteraction.outcome = (s.calls t).filterMap (selected requestHash hash) := by
    intro hash
    by_cases hold : t ∈ s.lanes
    · rw [hlane, (laneForCurrentTask_keeps hold).2]
      exact h.filed t hold hash
    · have hlen : (laneForCurrentTask s.lanes t).1 = s.lanes.length := by
        simp [laneForCurrentTask, hold]
      rw [hlen, bucket_eq_nil h.within, map_nil, eq_comm, filterMap_eq_nil_iff]
      intro c' hc'
      simp [selected, h.unfiled t hold c' hc']
  have hl : ∀ hash j c', i < j → (s.calls t)[j]? = some c' → requestHash c.request = hash →
      selected requestHash hash c' = none := by
    intro hash j c' hij hj hhash
    by_contra hsome
    have hreq : requestHash c'.request = hash := by
      by_contra hne
      exact hsome (if_neg hne)
    rw [selected, if_pos hreq] at hsome
    exact h.inTurn t i j c c' hij hc hj (hhash.trans hreq.symm) hsome hnone
  refine ⟨laneForCurrentTask_extends h.inOrder hnext, h.nodup, fun t' => ?_, fun t' ht' hash => ?_,
    fun t' ht' c' hc' => ?_, fun hash lane => ?_, fun x hx => ?_,
    fun t' a b ca cb hab ha hb heq hcb => ?_, fun t' c' hc' o hout => ?_,
    fun t' c' hc' chunks hs => ?_, fun t' c' hc' chunks => ?_⟩
  · exact (h.called t').trans (Recorder.setCall_ne_nil s t i c (.locking outcome) t').symm
  · show (bucket (s.recorded ++ [_]) hash ((laneForCurrentTask s.lanes t).2.idxOf t')).map _ =
      ((s.setCall t i c (.locking outcome)).calls t').filterMap _
    rw [bucket_concat, Recorder.setCall_calls, map_append]
    by_cases ht : t' = t
    · subst ht
      rw [if_pos rfl, ← hlane, hbefore hash]
      by_cases hhash : requestHash c.request = hash
      · rw [if_pos ⟨hhash, rfl⟩, filterMap_set_concat (v := outcome) hc (by simp [selected, hnone])
          (by simp [selected, hhash, Stage.outcome?])
          fun j c' hij hj => hl hash j c' hij hj hhash]
        rfl
      · rw [if_neg fun hboth => hhash hboth.1, filterMap_set_same hc (by simp [selected, hhash])]
        simp
    · have hold := laneForCurrentTask_others ht' ht
      have ho : ¬ (laneForCurrentTask s.lanes t).1 =
          (laneForCurrentTask s.lanes t).2.idxOf t' := by
        rw [hlane]
        intro heq
        exact ht ((idxOf_inj hmem).1 heq).symm
      rw [if_neg ht, if_neg fun hboth => ho hboth.2, map_nil, append_nil,
        (laneForCurrentTask_keeps hold).2]
      exact h.filed t' hold hash
  · have hnot : t' ∉ s.lanes := fun hold => ht' (laneForCurrentTask_keeps hold).1
    rcases Recorder.setCall_mem hc' with ⟨rfl, -⟩ | hold
    · exact absurd hmem ht'
    · exact h.unfiled t' hnot c' hold
  · show (bucket (s.recorded ++ [_]) hash lane).map _ = List.range (setCount _ _ _ _ hash lane)
    rw [bucket_concat, map_append, h.numbered hash lane]
    unfold setCount
    by_cases hkey : hash = requestHash c.request ∧ lane = (laneForCurrentTask s.lanes t).1
    · obtain ⟨rfl, rfl⟩ := hkey
      rw [if_pos ⟨rfl, rfl⟩, if_pos ⟨rfl, rfl⟩, range_succ]
      rfl
    · rw [if_neg hkey, if_neg fun hboth => hkey ⟨hboth.1.symm, hboth.2.symm⟩]
      simp
  · rcases mem_append.1 hx with hold | hnew
    · exact Nat.lt_of_lt_of_le (h.within x hold) (laneForCurrentTask_length _ _)
    · rw [mem_singleton.1 hnew]
      show (laneForCurrentTask s.lanes t).1 < _
      rw [hlane]
      exact idxOf_lt_length_of_mem hmem
  · rcases Recorder.setCall_cases ha with ⟨-, -, rfl⟩ | ⟨hn, hao⟩
    · exact nofun
    · rcases Recorder.setCall_cases hb with ⟨rfl, rfl, rfl⟩ | ⟨-, hbo⟩
      · exact he a ca hab hao heq
      · exact h.inTurn t' a b ca cb hab hao hbo heq hcb
  · rcases Recorder.setCall_mem hc' with ⟨rfl, rfl⟩ | hold
    · cases hout
      exact ⟨hfits, hclass⟩
    · exact h.sound t' c' hold o hout
  · rcases Recorder.setCall_mem hc' with ⟨-, rfl⟩ | hold
    · cases hs
    · exact h.streams t' c' hold chunks hs
  · rcases Recorder.setCall_mem hc' with ⟨-, rfl⟩ | hold
    · nofun
    · exact h.unclosed t' c' hold chunks

omit [DecidableEq η] in
theorem Recorder.call_cases {t' i' : Nat} {c' : Call α ρ χ κ}
    (h : ((s.call t request).calls t')[i']? = some c') : (s.calls t')[i']? = some c' ∨
      (t' = t ∧ i' = (s.calls t).length ∧ c'.stage.outcome? = none ∧
        (∀ chunks, c'.stage = .reading chunks → c'.request.method = .stream) ∧
        ∀ chunks, c'.stage ≠ .closed chunks) := by
  have hc : (s.call t request).calls t' = if t' = t then s.calls t ++
      [⟨request, if request.method = .stream then .reading [] else .inner⟩] else s.calls t' := rfl
  rw [hc] at h
  split at h
  next ht =>
    subst ht
    by_cases hi : i' < (s.calls t').length
    · rw [getElem?_append_left hi] at h
      exact .inl h
    · rw [getElem?_append_right (Nat.le_of_not_lt hi)] at h
      obtain ⟨hlt, rfl⟩ := List.getElem?_eq_some_iff.1 h
      have hi' : i' = (s.calls t').length := by
        simp only [length_singleton] at hlt
        omega
      subst hi'
      simp only [Nat.sub_self, getElem_cons_zero]
      refine .inr ⟨trivial, trivial, ?_⟩
      by_cases hmeth : request.method = .stream
      · rw [if_pos hmeth]
        exact ⟨rfl, fun _ _ => hmeth, nofun⟩
      · rw [if_neg hmeth]
        exact ⟨rfl, nofun, nofun⟩
  · exact .inl h

omit [DecidableEq η] in
theorem Recorder.call_mem {t' : Nat} {c' : Call α ρ χ κ} (h : c' ∈ (s.call t request).calls t') :
    c' ∈ s.calls t' ∨ (c'.stage.outcome? = none ∧
      (∀ chunks, c'.stage = .reading chunks → c'.request.method = .stream) ∧
      ∀ chunks, c'.stage ≠ .closed chunks) := by
  obtain ⟨i', hi'⟩ := getElem?_of_mem h
  rcases Recorder.call_cases hi' with hold | ⟨-, -, hnew⟩
  · exact .inl (mem_of_getElem? hold)
  · exact .inr hnew

/-- STEP LEMMA of a new call. -/
theorem Recorder.Inv.call (h : s.Inv requestHash) (t : Nat) (request : Request α) :
    (s.call t request).Inv requestHash := by
  refine { h with inOrder := ?_, nodup := ?_, called := fun t' => ?_,
                  filed := fun t' ht' hash => ?_,
                  unfiled := fun t' ht' c' hc' => ?_,
                  inTurn := fun t' a b ca cb hab ha hb heq hcb => ?_,
                  sound := fun t' c' hc' outcome hout => ?_,
                  streams := fun t' c' hc' chunks hs => ?_,
                  unclosed := fun t' c' hc' chunks => ?_ }
  · show s.lanes <+: if t ∈ s.firsts then s.firsts else s.firsts ++ [t]
    split
    · exact h.inOrder
    · exact h.inOrder.trans (prefix_append _ _)
  · show (if t ∈ s.firsts then s.firsts else s.firsts ++ [t]).Nodup
    split
    · exact h.nodup
    next hnew =>
      rw [nodup_append]
      exact ⟨h.nodup, nodup_singleton t, fun x hx y hy => by
        rw [mem_singleton.1 hy]
        rintro rfl
        exact hnew hx⟩
  · show t' ∈ (if t ∈ s.firsts then s.firsts else s.firsts ++ [t]) ↔
      (if t' = t then s.calls t ++ [_] else s.calls t') ≠ []
    by_cases ht : t' = t
    · subst ht
      rw [if_pos rfl]
      simp only [ne_eq, append_eq_nil_iff, cons_ne_nil, and_false, not_false_eq_true, iff_true]
      split
      · assumption
      · simp
    · rw [if_neg ht, ← h.called t']
      split
      · rfl
      · simp [ht]
  · refine (h.filed t' ht' hash).trans ?_
    show _ = (if t' = t then s.calls t ++ [_] else s.calls t').filterMap _
    split
    next ht =>
      subst ht
      unfold selected
      split <;> simp [Stage.outcome?]
    · rfl
  · rcases Recorder.call_mem hc' with hold | ⟨hnone, -⟩
    · exact h.unfiled t' ht' c' hold
    · exact hnone
  · rcases Recorder.call_cases hb with hbo | ⟨-, -, hnone, -⟩
    · rcases Recorder.call_cases ha with hao | ⟨ht, hlast, -, -⟩
      · exact h.inTurn t' a b ca cb hab hao hbo heq hcb
      · subst ht
        obtain ⟨hlt, -⟩ := List.getElem?_eq_some_iff.1 hbo
        omega
    · exact absurd hnone hcb
  · rcases Recorder.call_mem hc' with hold | ⟨hnone, -⟩
    · exact h.sound t' c' hold outcome hout
    · exact nomatch hnone.symm.trans hout
  · rcases Recorder.call_mem hc' with hold | ⟨-, hstreams, -⟩
    · exact h.streams t' c' hold chunks hs
    · exact hstreams chunks hs
  · rcases Recorder.call_mem hc' with hold | ⟨-, -, hc⟩
    · exact h.unclosed t' c' hold chunks
    · exact hc chunks

omit [DecidableEq η] in
theorem Recorder.outcomeOf_fits (hmeth : ∀ chunks, c.stage = .reading chunks →
      c.request.method = .stream) (h : Recorder.outcomeOf c input = some outcome) :
    c.stage.outcome? = none ∧ outcome.fits c.request.method = true := by
  unfold Recorder.outcomeOf at h
  split at h
  · split at h
    next hs =>
      split at h
      next hfits =>
        cases h
        exact ⟨by rw [hs]; rfl, hfits⟩
      · cases h
    · cases h
  · split at h
    next chunks hs =>
      cases h
      rw [hmeth chunks hs]
      exact ⟨by rw [hs]; rfl, rfl⟩
    · cases h
  · cases h

/-- STEP LEMMA of a call that goes on with care. -/
theorem Recorder.Inv.goOn (h : s.Inv requestHash) (hp : input.place = some (t, i))
    (hc : (s.calls t)[i]? = some c) (hcare : careful requestHash s input = true) :
    (s.goOn requestHash t i c input).Inv requestHash := by
  have hstr := h.streams t c (mem_of_getElem? hc)
  simp only [careful, hp, hc] at hcare
  unfold Recorder.goOn
  split
  next outcome hout =>
    rw [hout] at hcare
    simp only [Bool.and_eq_true, Bool.or_eq_true, decide_eq_true_eq, all_eq_true] at hcare
    obtain ⟨⟨hnext, hearlier⟩, hclass⟩ := hcare
    obtain ⟨hnone, hfits⟩ := Recorder.outcomeOf_fits hstr hout
    refine h.recordInteraction hc hnone hfits ?_ hnext fun j c' hj hc' heq => ?_
    · intro e he
      simpa using (Option.all_eq_true _ _).1 hclass e he
    · have hmem : c' ∈ (s.calls t).take i :=
        mem_of_getElem? ((getElem?_take_of_lt hj).trans hc')
      have hsome := (hearlier c' hmem).resolve_left (by simp [heq])
      exact Option.isSome_iff_ne_none.1 hsome
  · split
    next hs _ =>
      exact h.setCall hc (by rw [hs]; rfl) (fun _ _ => hstr _ hs) (by rintro _ ⟨⟩)
    next hs hnone => simp [hnone, hs] at hcare
    next outcome _ _ hs _ =>
      split
      · exact h
      · have hset : (s.setCall t i c (.writing outcome)).Inv requestHash :=
          h.setCall hc (by rw [hs]; rfl) (by rintro _ ⟨⟩) (by rintro _ ⟨⟩)
        exact { hset with }
    next outcome _ _ hs _ =>
      split
      · split
        · have hset : (s.setCall t i c (.returned outcome)).Inv requestHash :=
            h.setCall hc (by rw [hs]; rfl) (by rintro _ ⟨⟩) (by rintro _ ⟨⟩)
          exact { hset with }
        · exact h
      · exact h
    · exact h

/-- STEP LEMMA. -/
theorem Recorder.Inv.step (h : s.Inv requestHash) (hcare : careful requestHash s input = true) :
    (s.step requestHash input).Inv requestHash := by
  unfold Recorder.step
  split
  · exact h.call _ _
  all_goals
    split
    next hc => exact h.goOn rfl hc hcare
    · exact h

theorem Recorder.Inv.new : (Recorder.new : Recorder α η ρ χ κ).Inv requestHash where
  inOrder := prefix_rfl
  nodup := nodup_nil
  called := fun _ => ⟨nofun, fun h => absurd rfl h⟩
  filed := nofun
  unfiled := nofun
  numbered := fun _ _ => rfl
  within := nofun
  inTurn := fun _ _ _ _ _ _ ha => nomatch ha
  sound := fun _ _ hc => nomatch hc
  streams := fun _ _ hc => nomatch hc
  unclosed := fun _ _ hc => nomatch hc

-- ==== the file

omit [DecidableEq η] in
theorem Recorder.Waiting.setCall (h : s.Waiting) (hc : (s.calls t)[i]? = some c)
    (hnot : ∀ outcome, c.stage ≠ .locking outcome) (stage : Stage ρ χ κ) :
    (s.setCall t i c stage).Waiting := by
  obtain ⟨t', i', c', outcome, hc', hs⟩ := h
  refine ⟨t', i', c', outcome, Recorder.setCall_other c stage ?_ hc', hs⟩
  rintro ⟨rfl, rfl⟩
  cases hc.symm.trans hc'
  exact hnot outcome hs

omit [DecidableEq η] in
theorem Recorder.Persisted.setCall (h : s.Persisted) (hc : (s.calls t)[i]? = some c)
    (hn : ∀ outcome, c.stage ≠ .locking outcome)
    (ho : ∀ outcome, c.stage ≠ .writing outcome) (stage : Stage ρ χ κ) :
    (s.setCall t i c stage).Persisted where
  free := fun hw => (h.free hw).imp id fun hwait => hwait.setCall hc hn stage
  held := fun t' i' snapshot hw => by
    obtain ⟨⟨c', outcome, hc', hs⟩, hsnapshot⟩ := h.held t' i' snapshot hw
    refine ⟨⟨c', outcome, Recorder.setCall_other c stage ?_ hc', hs⟩,
      hsnapshot.imp id fun hwait => hwait.setCall hc hn stage⟩
    rintro ⟨rfl, rfl⟩
    cases hc.symm.trans hc'
    exact ho outcome hs

theorem Recorder.Persisted.goOn (h : s.Persisted) (hc : (s.calls t)[i]? = some c)
    (hstr : ∀ chunks, c.stage = .reading chunks → c.request.method = .stream) :
    (s.goOn requestHash t i c input).Persisted := by
  unfold Recorder.goOn
  split
  next outcome hout =>
    -- the call itself waits for the lock now
    have hwait : (s.recordInteraction requestHash t i c outcome).Waiting :=
      ⟨t, i, _, outcome, Recorder.setCall_self hc (.locking outcome), rfl⟩
    have hnone := (Recorder.outcomeOf_fits hstr hout).1
    refine ⟨fun _ => .inr hwait, fun t' i' snapshot hw => ⟨?_, .inr hwait⟩⟩
    obtain ⟨⟨c', outcome', hc', hs⟩, -⟩ := h.held t' i' snapshot hw
    refine ⟨c', outcome', Recorder.setCall_other c _ ?_ hc', hs⟩
    rintro ⟨rfl, rfl⟩
    cases hc.symm.trans hc'
    rw [hs] at hnone
    cases hnone
  · split
    next hs _ => exact h.setCall hc (by rw [hs]; nofun) (by rw [hs]; nofun) _
    next hs _ => exact h.setCall hc (by rw [hs]; nofun) (by rw [hs]; nofun) _
    next outcome _ _ hs _ =>
      split
      · exact h
      · refine ⟨nofun, fun t' i' snapshot hw => ?_⟩
        cases hw
        exact ⟨⟨_, outcome, Recorder.setCall_self hc _, rfl⟩, .inl rfl⟩
    next outcome _ _ hs _ =>
      split
      next t' i' snapshot hwriting =>
        split
        · -- what was recorded since is still to be written
          refine ⟨fun _ => ?_, nofun⟩
          obtain ⟨-, hsnapshot⟩ := h.held t' i' snapshot hwriting
          exact hsnapshot.imp id fun hwait => hwait.setCall hc (by rw [hs]; nofun) _
        · exact h
      · exact h
    · exact h

omit [DecidableEq η] in
theorem Recorder.Persisted.call (h : s.Persisted) (t : Nat) (request : Request α) :
    (s.call t request).Persisted := by
  -- a call that was made is still there
  have hkept : ∀ (t' i' : Nat) (c' : Call α ρ χ κ), (s.calls t')[i']? = some c' →
      ((s.call t request).calls t')[i']? = some c' := by
    intro t' i' c' hc'
    show (if t' = t then s.calls t ++ [_] else s.calls t')[i']? = some c'
    split
    next ht =>
      subst ht
      rw [getElem?_append_left (List.getElem?_eq_some_iff.1 hc').1]
      exact hc'
    · exact hc'
  have hwait : s.Waiting → (s.call t request).Waiting := by
    rintro ⟨t', i', c', outcome, hc', hs⟩
    exact ⟨t', i', c', outcome, hkept t' i' c' hc', hs⟩
  refine ⟨fun hw => (h.free hw).imp id hwait, fun t' i' snapshot hw => ?_⟩
  obtain ⟨⟨c', outcome, hc', hs⟩, hsnapshot⟩ := h.held t' i' snapshot hw
  exact ⟨⟨c', outcome, hkept t' i' c' hc', hs⟩, hsnapshot.imp id hwait⟩

/-- STEP LEMMA of the file. -/
theorem Recorder.Persisted.step (h : s.Persisted) (hinv : s.Inv requestHash)
    (input : Recorder.Input α ρ χ κ) : (s.step requestHash input).Persisted := by
  unfold Recorder.step
  split
  · exact h.call _ _
  all_goals
    split
    next hc => exact h.goOn hc (hinv.streams _ _ (mem_of_getElem? hc))
    · exact h

omit [DecidableEq η] in
theorem Recorder.Persisted.new : (Recorder.new : Recorder α η ρ χ κ).Persisted where
  free := fun _ => .inl rfl
  held := nofun

end Steps

-- ==== the run

section Runs

variable {α η ρ χ κ : Type} [DecidableEq η] {requestHash : Request α → η}

/-- RUN LEMMA of a recording with care. -/
theorem Recorder.carefully {inputs : List (Recorder.Input α ρ χ κ)}
    (hcare : Run.Throughout (Recorder.step requestHash)
      (fun s input => careful requestHash s input = true) Recorder.new inputs) :
    (Run.final (Recorder.step requestHash) Recorder.new inputs).Inv requestHash ∧
      (Run.final (Recorder.step requestHash) Recorder.new inputs).Persisted :=
  Run.throughout_states (P := fun s => s.Inv requestHash ∧ s.Persisted)
    (fun _ input hok hs => ⟨hs.1.step hok, hs.2.step hs.1 input⟩) hcare
    ⟨Recorder.Inv.new, Recorder.Persisted.new⟩ _ (Run.final_mem_states _ _ _)

def Stage.ended : Stage ρ χ κ → Bool
  | .returned _ | .closed _ => true
  | _ => false

def Recorder.Over (s : Recorder α η ρ χ κ) : Prop :=
  ∀ t, ∀ c ∈ s.calls t, c.stage.ended = true

variable {s : Recorder α η ρ χ κ}

theorem Recorder.Inv.returned (h : s.Inv requestHash) (hover : s.Over) {t : Nat}
    {c : Call α ρ χ κ} (hc : c ∈ s.calls t) : ∃ outcome, c.stage = .returned outcome := by
  have hend := hover t c hc
  cases hs : c.stage with
  | returned outcome => exact ⟨outcome, rfl⟩
  | closed chunks => exact absurd hs (h.unclosed t c hc chunks)
  | inner | reading _ | locking _ | writing _ =>
    rw [hs] at hend
    cases hend

omit [DecidableEq η] in
theorem Recorder.Persisted.file_eq (h : s.Persisted) (hover : s.Over) : s.file = s.recorded := by
  cases hw : s.writer with
  | none =>
    refine (h.free hw).resolve_right ?_
    rintro ⟨t, i, c, outcome, hc, hs⟩
    have hend := hover t c (mem_of_getElem? hc)
    rw [hs] at hend
    cases hend
  | some held =>
    obtain ⟨t, i, snapshot⟩ := held
    obtain ⟨⟨c, outcome, hc, hs⟩, -⟩ := h.held t i snapshot hw
    have hend := hover t c (mem_of_getElem? hc)
    rw [hs] at hend
    cases hend

theorem Recorder.Inv.lanes_eq (h : s.Inv requestHash) (hover : s.Over) : s.lanes = s.firsts := by
  have hall : s.firsts ⊆ s.lanes := by
    intro t ht
    by_contra hnot
    obtain ⟨c, hc⟩ := exists_mem_of_ne_nil _ ((h.called t).1 ht)
    obtain ⟨outcome, hs⟩ := h.returned hover hc
    have hnone := h.unfiled t hnot c hc
    rw [hs] at hnone
    cases hnone
  exact h.inOrder.eq_of_length_le (subperm_of_subset h.nodup hall).length_le

end Runs

-- ==== the file

section Load

variable {α η ρ χ κ : Type} [LinearOrder η]

theorem bucket_load {file : List (CassetteInteraction η ρ χ κ)} {hash : η} {lane n : Nat}
    (hseq : (bucket file hash lane).map CassetteInteraction.seq = List.range n) :
    bucket (Player.load file : Player α η ρ χ κ).replay hash lane = bucket file hash lane := by
  have hkey : ∀ x ∈ bucket file hash lane, x.requestHash = hash ∧ x.lane = lane := by
    intro x hx
    simpa [bucket] using (mem_filter.1 hx).2
  have hperm : (bucket (Player.load file : Player α η ρ χ κ).replay hash lane).Perm
      (bucket file hash lane) := (mergeSort_perm file _).filter _
  have hsort : (bucket (Player.load file : Player α η ρ χ κ).replay hash lane).Pairwise
      fun i j => Player.sortKey i ≤ Player.sortKey j := by
    refine Pairwise.filter _ ?_
    refine (pairwise_mergeSort ?_ ?_ file).imp fun h => by simpa using h
    · intro a b c hab hbc
      simp only [decide_eq_true_eq] at hab hbc ⊢
      exact le_trans hab hbc
    · intro a b
      simpa using le_total (Player.sortKey a) (Player.sortKey b)
  have hr : (bucket file hash lane).Pairwise fun i j => Player.sortKey i ≤ Player.sortKey j := by
    have hlt : ((bucket file hash lane).map CassetteInteraction.seq).Pairwise (· < ·) := by
      rw [hseq]
      exact pairwise_lt_range
    refine (pairwise_map.1 hlt).imp_of_mem fun hi hj hij => ?_
    obtain ⟨hi1, hi2⟩ := hkey _ hi
    obtain ⟨hj1, hj2⟩ := hkey _ hj
    simp only [Player.sortKey, hi1, hi2, hj1, hj2, Prod.Lex.toLex_le_toLex]
    right
    refine ⟨trivial, .inr ⟨trivial, Nat.le_of_lt hij⟩⟩
  have hn : ((bucket file hash lane).map CassetteInteraction.seq).Nodup := by
    rw [hseq]
    exact nodup_range
  refine hperm.eq_of_pairwise (fun a b ha hb hab hba => ?_) hsort hr
  have hs : a.seq = b.seq := by
    have heq := le_antisymm hab hba
    exact congrArg (fun k => (ofLex (ofLex k).2).2) heq
  exact inj_on_of_nodup_map hn (hperm.mem_iff.1 ha) hb hs

end Load

-- ==== what is received

section Receiving

variable {ρ χ κ : Type}

def Receives (recorded : CassetteOutcome ρ χ κ) : Received ρ χ κ → Prop
  | .answered outcome => outcome = recorded
  | .streaming chunks error read finished =>
    recorded = .stream chunks error ∧ read ≤ chunks.length ∧
      (finished = true → read = chunks.length)
  | .missed | .exhausted | .malformed => False

theorem providerErrorFor_eq {errorClass : String} (h : errorClass ∈ replayableProviderErrors) :
    providerErrorFor errorClass = errorClass := if_pos h

theorem receive_receives {outcome : CassetteOutcome ρ χ κ} {method : CassetteMethod}
    (hfits : outcome.fits method = true)
    (hc : ∀ e ∈ outcome.errorClass, e ∈ replayableProviderErrors) :
    Receives outcome (Player.receive method outcome) := by
  cases outcome with
  | response r | capabilities k => cases method <;> first | rfl | cases hfits
  | error name =>
    have hname := providerErrorFor_eq (hc name rfl)
    cases method with
    | stream => cases hfits
    | complete | capabilities => exact congrArg CassetteOutcome.error hname
  | stream chunks error =>
    have he : error.map providerErrorFor = error := by
      cases error with
      | none => rfl
      | some name => exact congrArg some (providerErrorFor_eq (hc name rfl))
    cases method with
    | stream => exact ⟨by rw [he], Nat.zero_le _, nofun⟩
    | complete | capabilities => cases hfits

theorem readOn_receives {recorded : CassetteOutcome ρ χ κ} {received : Received ρ χ κ}
    (h : Receives recorded received) : Receives recorded (Player.readOn received) := by
  unfold Player.readOn
  split
  next chunks error read =>
    obtain ⟨hrec, hread, -⟩ := h
    split
    next hlt => exact ⟨hrec, hlt, nofun⟩
    · exact ⟨hrec, hread, fun _ => by omega⟩
  · exact h

end Receiving

-- ==== the recorded entry

section Entry

variable {α η ρ χ κ : Type} [DecidableEq η] {requestHash : Request α → η}
  {rec : Recorder α η ρ χ κ}

theorem Recorder.Inv.entry (h : rec.Inv requestHash) (hover : rec.Over) {t n : Nat}
    {c : Call α ρ χ κ} (hc : (rec.calls t)[n]? = some c) :
    ∃ x ∈ (bucket rec.recorded (requestHash c.request) (rec.lanes.idxOf t))[
        ((rec.calls t).take n).countP fun c' => requestHash c'.request = requestHash c.request]?,
      c.stage = .returned x.outcome := by
  obtain ⟨outcome, hs⟩ := h.returned hover (mem_of_getElem? hc)
  have hlane : t ∈ rec.lanes := by
    rw [h.lanes_eq hover, h.called t]
    exact ne_nil_of_mem (mem_of_getElem? hc)
  have hsel : selected requestHash (requestHash c.request) c = some outcome := by
    rw [selected, if_pos rfl, hs]
    rfl
  have hcnt : (((rec.calls t).take n).filterMap
      (selected requestHash (requestHash c.request))).length =
      ((rec.calls t).take n).countP fun c' => requestHash c'.request = requestHash c.request := by
    rw [length_filterMap_eq_countP]
    refine countP_congr fun c' hc' => ?_
    obtain ⟨outcome', hs'⟩ := h.returned hover (mem_of_mem_take hc')
    simp [selected, hs', Stage.outcome?]
  have he := getElem?_filterMap_length hc hsel
  rw [hcnt, ← h.filed t hlane, getElem?_map] at he
  obtain ⟨x, hx, rfl⟩ := Option.map_eq_some_iff.1 he
  exact ⟨x, hx, hs⟩

end Entry

-- ==== the two runs

theorem prefix_concat_map {α β : Type*} {f : α → β} {l : List β} {b : β} {m : List α}
    (h : l ++ [b] <+: m.map f) :
    ∃ a, m[l.length]? = some a ∧ f a = b ∧ (m.take l.length).map f = l := by
  obtain ⟨rest, hrest⟩ := h
  have hnext : (m.map f)[l.length]? = some b := by
    rw [← hrest]
    simp
  rw [getElem?_map] at hnext
  obtain ⟨a, ha, hb⟩ := Option.map_eq_some_iff.1 hnext
  refine ⟨a, ha, hb, ?_⟩
  rw [map_take, ← hrest, append_assoc, take_left]

section Follow

variable {α η ρ χ κ : Type} [LinearOrder η] {requestHash : Request α → η}

structure SameRun (rec : Recorder α η ρ χ κ) (play : Player α η ρ χ κ) : Prop where
  calls : ∀ t, (play.calls t).map Replayed.request <+: (rec.calls t).map Call.request
  firsts : play.firsts <+: rec.firsts

/-- THE SIMULATION. -/
structure Follows (requestHash : Request α → η) (rec : Recorder α η ρ χ κ)
    (play : Player α η ρ χ κ) : Prop where
  replay : ∀ hash lane, bucket play.replay hash lane = bucket rec.recorded hash lane
  lanes : play.lanes = play.firsts
  called : ∀ t, t ∈ play.firsts ↔ play.calls t ≠ []
  cursor : ∀ t ∈ play.lanes, ∀ hash, play.cursor hash (play.lanes.idxOf t) =
    (play.calls t).countP fun c => requestHash c.request = hash
  beyond : ∀ hash lane, play.lanes.length ≤ lane → play.cursor hash lane = 0
  receives : ∀ t i : Nat, ∀ c : Replayed α ρ χ κ, (play.calls t)[i]? = some c →
    ∃ c' : Call α ρ χ κ, ∃ outcome, (rec.calls t)[i]? = some c' ∧ c'.request = c.request ∧
      c'.stage = .returned outcome ∧ Receives outcome c.received

variable {rec : Recorder α η ρ χ κ} {play : Player α η ρ χ κ}

theorem Player.call_requests (play : Player α η ρ χ κ) (t : Nat) (request : Request α) (t' : Nat) :
    ((play.call requestHash t request).calls t').map Replayed.request =
      if t' = t then (play.calls t).map Replayed.request ++ [request]
      else (play.calls t').map Replayed.request := by
  unfold Player.call
  by_cases ht : t' = t
  · dsimp only
    split
    · simp [ht]
    · split <;> simp [ht]
  · dsimp only
    split
    · simp [ht]
    · split <;> simp [ht]

theorem Player.call_firsts (play : Player α η ρ χ κ) (t : Nat) (request : Request α) :
    (play.call requestHash t request).firsts =
      if t ∈ play.firsts then play.firsts else play.firsts ++ [t] := by
  unfold Player.call
  dsimp only
  split
  · rfl
  · split <;> rfl

variable {t : Nat} {request : Request α} {inputs : List (Player.Input α)}

theorem Player.call_found {x : CassetteInteraction η ρ χ κ}
    (hx : x ∈ (bucket play.replay (requestHash request) (laneForCurrentTask play.lanes t).1)[
      play.cursor (requestHash request) (laneForCurrentTask play.lanes t).1]?) :
    play.call requestHash t request =
      { lanes := (laneForCurrentTask play.lanes t).2
        replay := play.replay
        cursor := setCount play.cursor (requestHash request) (laneForCurrentTask play.lanes t).1
          (play.cursor (requestHash request) (laneForCurrentTask play.lanes t).1 + 1)
        calls := fun t' => if t' = t then
          play.calls t ++ [⟨request, Player.receive request.method x.outcome⟩] else play.calls t'
        firsts := if t ∈ play.firsts then play.firsts else play.firsts ++ [t] } := by
  have hne : bucket play.replay (requestHash request) (laneForCurrentTask play.lanes t).1 ≠ [] := by
    intro hnil
    simp [hnil] at hx
  unfold Player.call
  rw [if_neg hne, Option.mem_def.1 hx]

omit [LinearOrder η] in
theorem Player.read_cases {i t' i' : Nat} {c' : Replayed α ρ χ κ}
    (h : ((play.read t i).calls t')[i']? = some c') : ∃ c : Replayed α ρ χ κ,
      (play.calls t')[i']? = some c ∧ c'.request = c.request ∧
        (c'.received = c.received ∨ c'.received = Player.readOn c.received) := by
  unfold Player.read at h
  split at h
  next c hc =>
    dsimp only at h
    split at h
    next ht =>
      subst ht
      rcases getElem?_set_cases h with ⟨rfl, rfl⟩ | ⟨-, hold⟩
      · exact ⟨c, hc, rfl, .inr rfl⟩
      · exact ⟨c', hold, rfl, .inl rfl⟩
    · exact ⟨c', h, rfl, .inl rfl⟩
  · exact ⟨c', h, rfl, .inl rfl⟩

omit [LinearOrder η] in
theorem Player.read_requests (play : Player α η ρ χ κ) (t i t' : Nat) :
    ((play.read t i).calls t').map Replayed.request = (play.calls t').map Replayed.request := by
  unfold Player.read
  split
  next c hc =>
    dsimp only
    split
    next ht =>
      subst ht
      obtain ⟨hi, rfl⟩ := List.getElem?_eq_some_iff.1 hc
      rw [map_set, ← getElem_map Replayed.request (h := by simpa using hi)]
      exact set_getElem_self _
    · rfl
  · rfl

omit [LinearOrder η] in
theorem Player.read_firsts (play : Player α η ρ χ κ) (t i : Nat) :
    (play.read t i).firsts = play.firsts ∧ (play.read t i).lanes = play.lanes ∧
      (play.read t i).cursor = play.cursor ∧ (play.read t i).replay = play.replay := by
  unfold Player.read
  split
  · exact ⟨rfl, rfl, rfl, rfl⟩
  · exact ⟨rfl, rfl, rfl, rfl⟩

theorem SameRun.before {input : Player.Input α}
    (h : SameRun rec (play.step requestHash input)) : SameRun rec play := by
  cases input with
  | call t request =>
    refine ⟨fun t' => List.IsPrefix.trans ?_ (h.calls t'), List.IsPrefix.trans ?_ h.firsts⟩
    · show _ <+: ((play.call requestHash t request).calls t').map Replayed.request
      rw [Player.call_requests]
      split
      next ht =>
        subst ht
        exact prefix_append _ _
      · exact prefix_rfl
    · show _ <+: (play.call requestHash t request).firsts
      rw [Player.call_firsts]
      split
      · exact prefix_rfl
      · exact prefix_append _ _
  | read t i =>
    refine ⟨fun t' => ?_, ?_⟩
    · rw [← Player.read_requests play t i t']
      exact h.calls t'
    · rw [← (Player.read_firsts play t i).1]
      exact h.firsts

theorem SameRun.of_final (h : SameRun rec (Run.final (Player.step requestHash) play inputs)) :
    SameRun rec play := by
  induction inputs generalizing play with
  | nil => exact h
  | cons input rest ih => exact (ih h).before

/-- STEP LEMMA of a call. -/
theorem Follows.call (hrec : rec.Inv requestHash) (hover : rec.Over)
    (h : Follows requestHash rec play) (hsame : SameRun rec (play.call requestHash t request)) :
    Follows requestHash rec (play.call requestHash t request) := by
  -- the call is the recorded one with its number
  obtain ⟨c, hc, hreq, htake⟩ : ∃ c : Call α ρ χ κ,
      (rec.calls t)[(play.calls t).length]? = some c ∧ c.request = request ∧
        ((rec.calls t).take (play.calls t).length).map Call.request =
          (play.calls t).map Replayed.request := by
    have hp := hsame.calls t
    rw [Player.call_requests, if_pos rfl] at hp
    simpa using prefix_concat_map hp
  obtain ⟨x, hx, hs⟩ := hrec.entry hover hc
  have hl : (laneForCurrentTask play.lanes t).2 = (play.call requestHash t request).firsts := by
    rw [Player.call_firsts, ← h.lanes]
    unfold laneForCurrentTask
    split <;> rfl
  have hmem := laneForCurrentTask_mem play.lanes t
  have hlane : (laneForCurrentTask play.lanes t).1 = rec.lanes.idxOf t := by
    obtain ⟨rest, hrest⟩ := hsame.firsts
    rw [laneForCurrentTask_idxOf, hrec.lanes_eq hover, ← hrest, ← hl, idxOf_append_of_mem hmem]
  have hcursor : ∀ hash, play.cursor hash (laneForCurrentTask play.lanes t).1 =
      (play.calls t).countP fun c => requestHash c.request = hash := by
    intro hash
    by_cases hold : t ∈ play.lanes
    · rw [laneForCurrentTask_idxOf, (laneForCurrentTask_keeps hold).2]
      exact h.cursor t hold hash
    · have hnil : play.calls t = [] := by
        by_contra hne
        exact hold (h.lanes ▸ (h.called t).2 hne)
      rw [hnil]
      exact h.beyond hash _ (by simp [laneForCurrentTask, hold])
  have hcnt : ((rec.calls t).take (play.calls t).length).countP
      (fun c' => requestHash c'.request = requestHash c.request) =
      play.cursor (requestHash request) (laneForCurrentTask play.lanes t).1 := by
    rw [hcursor, hreq]
    have := congrArg (List.countP fun r => requestHash r = requestHash request) htake
    simpa only [countP_map, Function.comp_def] using this
  rw [hcnt, ← hlane, hreq, ← h.replay] at hx
  have hr : Receives x.outcome (Player.receive request.method x.outcome) := by
    have hsnd := hrec.sound t c (mem_of_getElem? hc) x.outcome (by rw [hs]; rfl)
    exact receive_receives (hreq ▸ hsnd.1) hsnd.2
  rw [Player.call_found hx] at hl ⊢
  refine ⟨h.replay, hl, fun t' => ?_, fun t' ht' hash => ?_, fun hash lane hlen => ?_,
    fun t' i c' hc' => ?_⟩
  · show t' ∈ (if t ∈ play.firsts then play.firsts else play.firsts ++ [t]) ↔
      (if t' = t then play.calls t ++ [_] else play.calls t') ≠ []
    by_cases ht : t' = t
    · subst ht
      by_cases hold : t' ∈ play.firsts <;> simp [hold]
    · rw [if_neg ht, ← h.called t']
      by_cases hold : t ∈ play.firsts <;> simp [hold, ht]
  · show setCount _ _ _ _ hash ((laneForCurrentTask play.lanes t).2.idxOf t') =
      (if t' = t then play.calls t ++ [_] else play.calls t').countP _
    unfold setCount
    by_cases ht : t' = t
    · subst ht
      rw [← laneForCurrentTask_idxOf]
      by_cases hhash : hash = requestHash request
      · subst hhash
        rw [hcursor]
        simp
      · rw [if_neg fun hboth => hhash hboth.1, hcursor]
        simp [Ne.symm hhash]
    · have hold := laneForCurrentTask_others ht' ht
      have ho : (laneForCurrentTask play.lanes t).2.idxOf t' ≠
          (laneForCurrentTask play.lanes t).1 := by
        rw [laneForCurrentTask_idxOf]
        exact fun heq => ht ((idxOf_inj ht').1 heq)
      rw [if_neg ht, if_neg fun hboth => ho hboth.2, (laneForCurrentTask_keeps hold).2]
      exact h.cursor t' hold hash
  · show setCount _ _ _ _ hash lane = 0
    have hlt : (laneForCurrentTask play.lanes t).1 <
        (laneForCurrentTask play.lanes t).2.length := by
      rw [laneForCurrentTask_idxOf]
      exact idxOf_lt_length_of_mem hmem
    have hle := laneForCurrentTask_length play.lanes t
    have hlen' : (laneForCurrentTask play.lanes t).2.length ≤ lane := hlen
    rw [setCount, if_neg fun hboth => by omega]
    exact h.beyond hash lane (by omega)
  · by_cases ht : t' = t
    · subst ht
      dsimp only at hc'
      rw [if_pos rfl] at hc'
      by_cases hi : i < (play.calls t').length
      · rw [getElem?_append_left hi] at hc'
        exact h.receives t' i c' hc'
      · rw [getElem?_append_right (by omega)] at hc'
        obtain ⟨hlt, rfl⟩ := List.getElem?_eq_some_iff.1 hc'
        have hi' : i = (play.calls t').length := by
          simp only [length_singleton] at hlt
          omega
        subst hi'
        simp only [Nat.sub_self]
        exact ⟨c, x.outcome, hc, hreq, hs, hr⟩
    · dsimp only at hc'
      rw [if_neg ht] at hc'
      exact h.receives t' i c' hc'

/-- STEP LEMMA of a read. -/
theorem Follows.read (h : Follows requestHash rec play) (t i : Nat) :
    Follows requestHash rec (play.read t i) := by
  obtain ⟨hf, hl, hcursor, hreplay⟩ := Player.read_firsts play t i
  have hr := Player.read_requests play t i
  refine ⟨hreplay ▸ h.replay, by rw [hl, hf, h.lanes], fun t' => ?_, fun t' ht' hash => ?_,
    by rw [hcursor, hl]; exact h.beyond, fun t' i' c' hc' => ?_⟩
  · rw [hf, h.called t']
    have hmap := congrArg (· = []) (hr t')
    simp only [map_eq_nil_iff] at hmap
    rw [ne_eq, ne_eq, hmap]
  · rw [hl] at ht' ⊢
    rw [hcursor, h.cursor t' ht' hash]
    have hmap := congrArg (List.countP fun r => requestHash r = hash) (hr t')
    simp only [countP_map] at hmap
    exact hmap.symm
  · obtain ⟨c, hc, hreq, hreceive⟩ := Player.read_cases hc'
    obtain ⟨c₀, outcome, hc₀, hrequest₀, hs, hreceives⟩ := h.receives t' i' c hc
    refine ⟨c₀, outcome, hc₀, hrequest₀.trans hreq.symm, hs, ?_⟩
    rcases hreceive with hsame | hon
    · rw [hsame]
      exact hreceives
    · rw [hon]
      exact readOn_receives hreceives

/-- RUN LEMMA. -/
theorem Follows.final (hrec : rec.Inv requestHash) (hover : rec.Over)
    (h : Follows requestHash rec play)
    (hsame : SameRun rec (Run.final (Player.step requestHash) play inputs)) :
    Follows requestHash rec (Run.final (Player.step requestHash) play inputs) := by
  induction inputs generalizing play with
  | nil => exact h
  | cons input rest ih =>
    refine ih ?_ hsame
    cases input with
    | call t request =>
      have hnext : SameRun rec (play.step requestHash (.call t request)) := SameRun.of_final hsame
      exact h.call hrec hover hnext
    | read t i => exact h.read t i

theorem Follows.load (hrec : rec.Inv requestHash) (hfile : rec.file = rec.recorded) :
    Follows requestHash rec (Player.load rec.file) where
  replay := fun hash lane => by
    rw [hfile]
    exact bucket_load (hrec.numbered hash lane)
  lanes := rfl
  called := fun _ => ⟨nofun, fun hne => absurd rfl hne⟩
  cursor := nofun
  beyond := fun _ _ _ => rfl
  receives := nofun

/-- In a replay of a run recorded with care every call receives its recorded outcome; none
misses and none is exhausted. -/
theorem Player.replay_returns {recording : List (Recorder.Input α ρ χ κ)}
    {replay : List (Player.Input α)}
    (hcare : Run.Throughout (Recorder.step requestHash)
      (fun s input => careful requestHash s input = true) Recorder.new recording)
    (hover : (Run.final (Recorder.step requestHash) Recorder.new recording).Over)
    (hsame : SameRun (Run.final (Recorder.step requestHash) Recorder.new recording)
      (Run.final (Player.step requestHash) (Player.load
        (Run.final (Recorder.step requestHash) Recorder.new recording).file) replay))
    (t i : Nat) (c : Replayed α ρ χ κ)
    (hc : ((Run.final (Player.step requestHash) (Player.load
      (Run.final (Recorder.step requestHash) Recorder.new recording).file)
      replay).calls t)[i]? = some c) :
    ∃ c' outcome,
      ((Run.final (Recorder.step requestHash) Recorder.new recording).calls t)[i]? = some c' ∧
        c'.request = c.request ∧ c'.stage = .returned outcome ∧ Receives outcome c.received := by
  obtain ⟨hinv, hpersisted⟩ := Recorder.carefully hcare
  exact ((Follows.load hinv (hpersisted.file_eq hover)).final hinv hover hsame).receives t i c hc

end Follow

def twoTasks : List (Recorder.Input Nat Nat Nat Nat) :=
  [.call 0 ⟨.complete, 1⟩, .call 1 ⟨.complete, 2⟩,
    .answers 0 0 (.response 5), .snapshot 0 0,
    .answers 1 0 (.error "RateLimitError"), .written 0 0, .snapshot 1 0, .written 1 0,
    .call 0 ⟨.stream, 3⟩, .chunk 0 1 7, .ends 0 1 none, .snapshot 0 1, .written 0 1]

def twoTasksAgain : List (Player.Input Nat) :=
  [.call 0 ⟨.complete, 1⟩, .call 1 ⟨.complete, 2⟩, .call 0 ⟨.stream, 3⟩, .read 0 1]

example : (Run.final (Recorder.step Request.key) Recorder.new twoTasks).file.map
    CassetteInteraction.lane = [0, 1, 0] := by decide

theorem twoTasks_careful : Run.Throughout (Recorder.step Request.key)
    (fun s input => careful Request.key s input = true) Recorder.new twoTasks :=
  ⟨rfl, rfl, rfl, rfl, rfl, rfl, rfl, rfl, rfl, rfl, rfl, rfl, rfl, trivial⟩

theorem twoTasks_over : (Run.final (Recorder.step Request.key) Recorder.new twoTasks).Over
  | 0 => by decide
  | 1 => by decide
  | _ + 2 => nofun

theorem twoTasks_loaded :
    (Player.load (Run.final (Recorder.step Request.key) Recorder.new twoTasks).file :
      Player Nat Nat Nat Nat Nat) =
      ⟨[], (Run.final (Recorder.step Request.key) Recorder.new twoTasks).file,
        fun _ _ => 0, fun _ => [], []⟩ := by
  unfold Player.load
  rw [mergeSort_of_pairwise (by decide)]

theorem twoTasks_sameRun : SameRun (Run.final (Recorder.step Request.key) Recorder.new twoTasks)
    (Run.final (Player.step Request.key)
      (Player.load (Run.final (Recorder.step Request.key) Recorder.new twoTasks).file)
      twoTasksAgain) := by
  rw [twoTasks_loaded]
  exact ⟨fun | 0 => by decide | 1 => by decide | _ + 2 => prefix_rfl, by decide⟩

theorem Player.twoTasks_return : ∃ c' outcome,
      ((Run.final (Recorder.step Request.key) Recorder.new twoTasks).calls 0)[1]? = some c' ∧
        c'.request = ⟨.stream, 3⟩ ∧ c'.stage = .returned outcome ∧
          Receives outcome (.streaming [7] none 1 false) :=
  Player.replay_returns
    twoTasks_careful
    twoTasks_over twoTasks_sameRun 0 1 ⟨⟨.stream, 3⟩, .streaming [7] none 1 false⟩
    (by rw [twoTasks_loaded]; rfl)

-- ==== without care

def closedEarly : List (Recorder.Input Nat Nat Nat Nat) :=
  [.call 0 ⟨.stream, 1⟩, .chunk 0 0 7, .close 0 0]

def answeredInReverse : List (Recorder.Input Nat Nat Nat Nat) :=
  [.call 0 ⟨.complete, 2⟩, .call 1 ⟨.complete, 1⟩,
    .answers 1 0 (.response 5), .snapshot 1 0, .written 1 0,
    .answers 0 0 (.response 6), .snapshot 0 0, .written 0 0]

/-- The calls of either run, made again in the same order, miss. -/
theorem Player.misses : ((Run.final (Recorder.step Request.key) Recorder.new closedEarly).Over ∧
      SameRun (Run.final (Recorder.step Request.key) Recorder.new closedEarly)
        (Run.final (Player.step Request.key)
          (Player.load (Run.final (Recorder.step Request.key) Recorder.new closedEarly).file)
          [.call 0 ⟨.stream, 1⟩]) ∧
      ((Run.final (Player.step Request.key)
          (Player.load (Run.final (Recorder.step Request.key) Recorder.new closedEarly).file)
          [.call 0 ⟨.stream, 1⟩]).calls 0).map Replayed.received = [.missed]) ∧
    ((Run.final (Recorder.step Request.key) Recorder.new answeredInReverse).Over ∧
      SameRun (Run.final (Recorder.step Request.key) Recorder.new answeredInReverse)
        (Run.final (Player.step Request.key)
          (Player.load (Run.final (Recorder.step Request.key) Recorder.new answeredInReverse).file)
          [.call 0 ⟨.complete, 2⟩, .call 1 ⟨.complete, 1⟩]) ∧
      ((Run.final (Player.step Request.key)
          (Player.load (Run.final (Recorder.step Request.key) Recorder.new answeredInReverse).file)
          [.call 0 ⟨.complete, 2⟩, .call 1 ⟨.complete, 1⟩]).calls 0).map Replayed.received =
        [.missed]) := by
  have hclosed : (Player.load
      (Run.final (Recorder.step Request.key) Recorder.new closedEarly).file :
      Player Nat Nat Nat Nat Nat) = ⟨[], [], fun _ _ => 0, fun _ => [], []⟩ := by
    unfold Player.load
    rw [mergeSort_of_pairwise (by decide)]
    rfl
  have hreverse : (Player.load
      (Run.final (Recorder.step Request.key) Recorder.new answeredInReverse).file :
      Player Nat Nat Nat Nat Nat) =
      ⟨[], (Run.final (Recorder.step Request.key) Recorder.new answeredInReverse).file,
        fun _ _ => 0, fun _ => [], []⟩ := by
    unfold Player.load
    rw [mergeSort_of_pairwise (by decide)]
  rw [hclosed, hreverse]
  refine ⟨⟨fun | 0 => by decide | _ + 1 => nofun, ⟨?_, by decide⟩, by decide⟩,
    fun | 0 => by decide | 1 => by decide | _ + 2 => nofun, ⟨?_, by decide⟩, by decide⟩
  · exact fun | 0 => by decide | _ + 1 => prefix_rfl
  · exact fun | 0 => by decide | 1 => by decide | _ + 2 => prefix_rfl

end Synthorg.Cassettes
