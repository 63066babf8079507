/-
Who runs a callback, and whose answer a call returns.

For any readings of any clocks: two callbacks never both run under leases that have not lapsed, a
call whose lease was rotated changes nothing, and a recorded completion gives way to a FRESH claim
only once the end of its own claim has been read. Two things do not hold. The TTL is counted from
the claim, so a response may be gone sooner than the TTL after it was recorded. And a call that
polls takes whatever response it finds in the row, with another fingerprint too.

The row is under the lease drawn last, and two calls never hold one token.
-/
import Mathlib.Tactic.Cases
import Synthorg.Idempotency.Service

namespace Synthorg.Idempotency

open Lib

section

variable {Value : Type} {svc : IdempotencyService Value}
  {fingerprints : CallId → Option String}

-- ==== the invariant

def InFlight (w : World Value) (t : Token) : Prop :=
  ∃ r, w.row = some r ∧ r.claimToken = t ∧ r.progress = .inFlight

def Recorded (w : World Value) (t : Token) : Prop :=
  ∃ r digest body, w.row = some r ∧ r.claimToken = t ∧ r.progress = .completed digest body

/-- THE INVARIANT. -/
structure Inv (w : World Value) : Prop where
  drawn : ∀ id t, (w.calls id).token? = some t → t < w.drawn
  single : ∀ a b t, (w.calls a).token? = some t → (w.calls b).token? = some t → a = b
  newest : ∀ r, w.row = some r → r.claimToken + 1 = w.drawn
  leased : ∀ r, w.row = some r →
    r.requestFingerprint = (w.leases r.claimToken).requestFingerprint ∧
      r.expiresAt = (w.leases r.claimToken).expiresAt
  live : ∀ id t, w.calls id = .running t → (w.leases t).lapsed ∨ InFlight w t
  working : ∀ id t, w.calls id = .running t → (w.leases t).produced = none
  recording : ∀ id t body, w.calls id = .recording t body → (w.leases t).produced = some body
  recorded : ∀ r digest body, w.row = some r → r.progress = .completed digest body →
    (w.leases r.claimToken).produced = some body
  settled : ∀ r, w.row = some r → r.progress ≠ .inFlight →
    ∀ id, (w.calls id).token? ≠ some r.claimToken
  kept : ∀ t, (w.leases t).completedAt.isSome → (w.leases t).lapsed ∨ Recorded w t
  blank : ∀ t, w.drawn ≤ t → (w.leases t).completedAt = none

theorem Inv.start : Inv (start : World Value) where
  drawn _ _ h := by simp [Idempotency.start, Stage.token?] at h
  single _ _ _ h := by simp [Idempotency.start, Stage.token?] at h
  newest _ h := by simp [Idempotency.start] at h
  leased _ h := by simp [Idempotency.start] at h
  live _ _ h := by simp [Idempotency.start] at h
  working _ _ h := by simp [Idempotency.start] at h
  recording _ _ _ h := by simp [Idempotency.start] at h
  recorded _ _ _ h := by simp [Idempotency.start] at h
  settled _ h := by simp [Idempotency.start] at h
  kept _ h := by simp [Idempotency.start] at h
  blank _ _ := rfl

-- ==== what a call leaves

variable {w : World Value} {id : CallId} {stage : Stage Value} {ttl now : Int} {r : Row} {t : Token}

theorem forall_setCall {P : CallId → Stage Value → Prop} (hs : P id stage)
    (ho : ∀ a, a ≠ id → P a (w.calls a)) : ∀ a, P a ((setCall w id stage).calls a) := by
  intro a
  by_cases ha : a = id
  · subst ha
    simpa [setCall] using hs
  · simpa [setCall, ha] using ho a ha

theorem calls_of_ne {a : CallId} (stage : Stage Value) (h : a ≠ id) :
    (setCall w id stage).calls a = w.calls a := by
  simp [setCall, h]

@[simp]
theorem calls_self (w : World Value) (id : CallId) (stage : Stage Value) :
    (setCall w id stage).calls id = stage := by
  simp [setCall]

theorem Inv.setCall (h : Inv w) (id : CallId) (stage : Stage Value)
    (htoken : ∀ t, stage.token? = some t → (w.calls id).token? = some t)
    (hrunning : ∀ t, stage ≠ .running t) (hrecording : ∀ t body, stage = .recording t body →
      (w.leases t).produced = some body) : Inv (setCall w id stage) where
  drawn a t := by
    by_cases ha : a = id
    · subst ha
      intro ht
      exact h.drawn a t (htoken t (by simpa using ht))
    · rw [calls_of_ne stage ha]
      exact h.drawn a t
  single a b t := by
    have hold : ∀ c, ((Idempotency.setCall w id stage).calls c).token? = some t →
        (w.calls c).token? = some t := by
      intro c hc
      by_cases hchild : c = id
      · subst hchild
        exact htoken t (by simpa using hc)
      · rwa [calls_of_ne stage hchild] at hc
    intro ha hb
    exact h.single a b t (hold a ha) (hold b hb)
  newest := h.newest
  leased := h.leased
  live := forall_setCall (P := fun _ s => ∀ t, s = .running t → (w.leases t).lapsed ∨ InFlight w t)
    (fun t ht => absurd ht (hrunning t)) (fun a _ => h.live a)
  working := forall_setCall (P := fun _ s => ∀ t, s = .running t → (w.leases t).produced = none)
    (fun t ht => absurd ht (hrunning t)) (fun a _ => h.working a)
  recording := forall_setCall (P := fun _ s => ∀ t body, s = .recording t body →
      (w.leases t).produced = some body)
    hrecording (fun a _ => h.recording a)
  recorded := h.recorded
  settled r hr hp := forall_setCall (P := fun _ s => s.token? ≠ some r.claimToken)
    (fun ht => h.settled r hr hp id (htoken _ ht)) (fun a _ => h.settled r hr hp a)
  kept := h.kept
  blank := h.blank

theorem Inv.leave (h : Inv w) (id : CallId) (hs : stage.token? = none) :
    Inv (Idempotency.setCall w id stage) := by
  refine h.setCall id stage ?_ ?_ ?_
  · intro t ht
    simp [hs] at ht
  · intro t ht
    rw [ht] at hs
    cases hs
  · intro t body ht
    rw [ht] at hs
    cases hs

-- ==== the clock

theorem lapsed_observe {l : Lease} :
    (l.observe ttl now).lapsed = true ↔ l.lapsed ∨ l.expiresAt ≤ now := by
  simp [Lease.observe]

theorem Inv.observe (h : Inv w) (ttl now : Int) : Inv (observe ttl now w) :=
  { h with
    live id t ht := (h.live id t ht).imp_left fun hl => lapsed_observe.2 (.inl hl)
    kept t ht := (h.kept t ht).imp_left fun hl => lapsed_observe.2 (.inl hl) }

-- ==== the grants

def Free (w : World Value) : Prop :=
  ∀ r, w.row = some r → r.progress = .failed ∨ (w.leases r.claimToken).lapsed

theorem Inv.grant (h : Inv w) (hfree : Free w) {requestFingerprint : Option String}
    (htoken : r.claimToken = w.drawn) (hprogress : r.progress = .inFlight)
    (hf : r.requestFingerprint = requestFingerprint) :
    Inv (Idempotency.grant requestFingerprint r w) := by
  have hold : ∀ t, t < w.drawn →
      (Idempotency.grant requestFingerprint r w).leases t = w.leases t := by
    intro t ht
    simp [Idempotency.grant, ht.ne]
  refine ⟨?_, h.single, ?_, ?_, ?_, ?_, ?_, ?_, ?_, ?_, ?_⟩
  · intro id t ht
    exact Nat.lt_succ_of_lt (h.drawn id t ht)
  · intro r' hr'
    cases hr'
    show r.claimToken + 1 = w.drawn + 1
    rw [htoken]
  · intro r' hr'
    cases hr'
    simp [Idempotency.grant, htoken, hf]
  · intro id t ht
    have htd : t < w.drawn := h.drawn id t (by rw [show w.calls id = .running t from ht]; rfl)
    rw [hold t htd]
    refine .inl ((h.live id t ht).elim (fun hl => hl) fun hflight => ?_)
    obtain ⟨r₀, hr₀, rfl, hp⟩ := hflight
    exact (hfree r₀ hr₀).resolve_left (by simp [hp])
  · intro id t ht
    have htd : t < w.drawn := h.drawn id t (by rw [show w.calls id = _ from ht]; rfl)
    rw [hold t htd]
    exact h.working id t ht
  · intro id t body ht
    have htd : t < w.drawn := h.drawn id t (by rw [show w.calls id = _ from ht]; rfl)
    rw [hold t htd]
    exact h.recording id t body ht
  · intro r' digest body hr' hp
    cases hr'
    simp [hprogress] at hp
  · intro r' hr' hp
    cases hr'
    exact absurd hprogress hp
  · intro t ht
    by_cases htd : t < w.drawn
    · rw [hold t htd] at ht ⊢
      refine .inl ((h.kept t ht).elim (fun hl => hl) fun hrec => ?_)
      obtain ⟨r₀, digest, body, hr₀, rfl, hp⟩ := hrec
      exact (hfree r₀ hr₀).resolve_left (by simp [hp])
    · by_cases hte : t = w.drawn
      · simp [Idempotency.grant, hte] at ht
      · have hb := h.blank t (Nat.not_lt.1 htd)
        simp [Idempotency.grant, hte, hb] at ht
  · intro t ht
    have hlt : w.drawn < t := ht
    simpa [Idempotency.grant, hlt.ne'] using h.blank t hlt.le

theorem Inv.hand (h : Inv w) (id : CallId) (hd : t < w.drawn)
    (hn : ∀ a, (w.calls a).token? ≠ some t) (hf : InFlight w t)
    (hproduced : (w.leases t).produced = none) : Inv (Idempotency.setCall w id (.running t)) := by
  have ho : ∀ a u, a ≠ id → ((Idempotency.setCall w id (.running t)).calls a).token? = some u →
      (w.calls a).token? = some u := by
    intro a u ha hu
    rwa [calls_of_ne _ ha] at hu
  have hself : ∀ u, ((Idempotency.setCall w id (.running t)).calls id).token? = some u → u = t := by
    intro u hu
    simpa [Stage.token?, eq_comm] using hu
  refine ⟨?_, ?_, h.newest, h.leased, ?_, ?_, ?_, h.recorded, ?_, h.kept, h.blank⟩
  · intro a u hu
    by_cases ha : a = id
    · rw [ha] at hu
      rwa [hself u hu]
    · exact h.drawn a u (ho a u ha hu)
  · intro a b u ha hb
    by_cases hawaited : a = id
    · by_cases hbid : b = id
      · rw [hawaited, hbid]
      · rw [hawaited] at ha
        rw [hself u ha] at hb
        exact absurd (ho b t hbid hb) (hn b)
    · by_cases hbid : b = id
      · rw [hbid] at hb
        rw [hself u hb] at ha
        exact absurd (ho a t hawaited ha) (hn a)
      · exact h.single a b u (ho a u hawaited ha) (ho b u hbid hb)
  · refine forall_setCall (P := fun _ s => ∀ u, s = .running u →
        (w.leases u).lapsed ∨ InFlight w u) ?_ (fun a _ => h.live a)
    intro u hu
    cases hu
    exact .inr hf
  · refine forall_setCall (P := fun _ s => ∀ u, s = .running u →
        (w.leases u).produced = none) ?_ (fun a _ => h.working a)
    intro u hu
    cases hu
    exact hproduced
  · refine forall_setCall (P := fun _ s => ∀ u body, s = .recording u body →
        (w.leases u).produced = some body) ?_ (fun a _ => h.recording a)
    intro u body hu
    cases hu
  · intro r hr hp
    refine forall_setCall (P := fun _ s => s.token? ≠ some r.claimToken) ?_
      (fun a _ => h.settled r hr hp a)
    intro ht
    obtain ⟨r₀, hr₀, hk, hp₀⟩ := hf
    rw [show w.row = some r from hr] at hr₀
    cases hr₀
    exact hp hp₀

-- ==== the callbacks

theorem produce_leases (w : World Value) (t : Token) (body : String) (u : Token) :
    (produce t body w).leases u =
      { w.leases u with produced := if u = t then some body else (w.leases u).produced } := by
  by_cases hu : u = t
  · subst hu
    simp [produce]
  · simp [produce, hu]

theorem Inv.produce (h : Inv w) (body : String) (hs : w.calls id = .marking t) :
    Inv (Idempotency.produce t body w) := by
  have hid : (w.calls id).token? = some t := by
    rw [hs]
    rfl
  have ho : ∀ a u, (w.calls a).token? = some u → w.calls a ≠ .marking t → u ≠ t := by
    intro a u hu hne hut
    exact hne (h.single a id t (hut ▸ hu) hid ▸ hs)
  refine ⟨h.drawn, h.single, h.newest, ?_, ?_, ?_, ?_, ?_, h.settled, ?_, ?_⟩
  · intro r hr
    rw [produce_leases]
    exact h.leased r hr
  · intro a u hu
    rw [produce_leases]
    exact h.live a u hu
  · intro a u hu
    have hold : w.calls a = .running u := hu
    have hne : u ≠ t := ho a u (by rw [hold]; rfl) (by simp [hold])
    rw [produce_leases]
    simpa [hne] using h.working a u hold
  · intro a u b hu
    have hold : w.calls a = .recording u b := hu
    have hne : u ≠ t := ho a u (by rw [hold]; rfl) (by simp [hold])
    rw [produce_leases]
    simpa [hne] using h.recording a u b hold
  · intro r digest b hr hp
    have hne : r.claimToken ≠ t := by
      intro hrt
      exact h.settled r hr (by simp [hp]) id (by rw [hid, hrt])
    rw [produce_leases]
    simpa [hne] using h.recorded r digest b hr hp
  · intro u hu
    rw [produce_leases] at hu ⊢
    exact h.kept u hu
  · intro u hu
    rw [produce_leases]
    exact h.blank u hu

-- ==== the outcome

theorem Inv.settle (h : Inv w) (hr : w.row = some r) (hflight : r.progress = .inFlight)
    (hn : ∀ a, (w.calls a).token? ≠ some r.claimToken) {p : Progress}
    (hbody : ∀ digest body, p = .completed digest body →
      (w.leases r.claimToken).produced = some body) :
    Inv { w with row := some { r with progress := p } } := by
  refine ⟨h.drawn, h.single, ?_, ?_, ?_, h.working, h.recording, ?_, ?_, ?_, h.blank⟩
  · intro r' hr'
    cases hr'
    exact h.newest r hr
  · intro r' hr'
    cases hr'
    exact h.leased r hr
  · intro a u hu
    refine .inl ((h.live a u hu).elim (fun hl => hl) fun hf => ?_)
    obtain ⟨r₀, hr₀, rfl, _⟩ := hf
    rw [hr] at hr₀
    cases hr₀
    exact absurd (by rw [show w.calls a = _ from hu]; rfl) (hn a)
  · intro r' digest body hr' hp
    cases hr'
    exact hbody digest body hp
  · intro r' hr' _ a
    cases hr'
    exact hn a
  · intro u hu
    refine .inl ((h.kept u hu).elim (fun hl => hl) fun hrec => ?_)
    obtain ⟨r₀, digest, body, hr₀, _, hp⟩ := hrec
    rw [hr] at hr₀
    cases hr₀
    simp [hflight] at hp

theorem note_leases (w : World Value) (t : Token) (now : Int) (u : Token) :
    (note t now w).leases u =
      { w.leases u with
        completedAt := if u = t then some now else (w.leases u).completedAt } := by
  by_cases hu : u = t
  · subst hu
    simp [note]
  · simp [note, hu]

theorem Inv.note (h : Inv w) (now : Int) (hrec : Recorded w t) :
    Inv (Idempotency.note t now w) := by
  refine ⟨h.drawn, h.single, h.newest, ?_, ?_, ?_, ?_, ?_, h.settled, ?_, ?_⟩
  · intro r hr
    rw [note_leases]
    exact h.leased r hr
  · intro a u hu
    rw [note_leases]
    exact h.live a u hu
  · intro a u hu
    rw [note_leases]
    exact h.working a u hu
  · intro a u b hu
    rw [note_leases]
    exact h.recording a u b hu
  · intro r digest b hr hp
    rw [note_leases]
    exact h.recorded r digest b hr hp
  · intro u hu
    by_cases hut : u = t
    · exact .inr (hut ▸ hrec)
    · rw [note_leases] at hu ⊢
      exact h.kept u (by simpa [hut] using hu)
  · intro u hu
    obtain ⟨r, _, _, hr, hrt, _⟩ := hrec
    have hut : u ≠ t := by
      intro hut
      have hlast : t + 1 = w.drawn := hrt ▸ h.newest r hr
      have hd : w.drawn ≤ t := hut ▸ hu
      exact absurd hd (by rw [← hlast]; exact Nat.not_succ_le_self t)
    rw [note_leases]
    simpa [hut] using h.blank u hu

theorem Inv.delete (h : Inv w) (hlapsed : ∀ r, w.row = some r → (w.leases r.claimToken).lapsed) :
    Inv { w with row := none } := by
  refine ⟨h.drawn, h.single, ?_, ?_, ?_, h.working, h.recording, ?_, ?_, ?_, h.blank⟩
  · intro r hr
    cases hr
  · intro r hr
    cases hr
  · intro a u hu
    refine .inl ((h.live a u hu).elim (fun hl => hl) fun hf => ?_)
    obtain ⟨r, hr, rfl, _⟩ := hf
    exact hlapsed r hr
  · intro r _ _ hr
    cases hr
  · intro r hr
    cases hr
  · intro u hu
    refine .inl ((h.kept u hu).elim (fun hl => hl) fun hrec => ?_)
    obtain ⟨r, _, _, hr, rfl, _⟩ := hrec
    exact hlapsed r hr

-- ==== the events

variable {fingerprint : Option String} {retries : Nat} {monotonic : Int}

/-- A claim heard or lost leaves the call without a lease, unless it has written one. -/
theorem token?_react {c : IdempotencyClaim} (h : ∀ t, c ≠ .fresh t) :
    (react svc fingerprint retries monotonic c).token? = none := by
  cases c with
  | fresh t => exact absurd rfl (h t)
  | inFlight existing =>
    simp only [react]
    split <;> rfl
  | completed body existing =>
    simp only [react]
    split <;> rfl

theorem token?_leaderFailed (retries : Nat) : (leaderFailed svc retries).token? = none := by
  simp only [leaderFailed]
  split <;> rfl

theorem token?_look (retries : Nat) (deadline : Int) (record : Option Row) :
    (look svc retries deadline record).token? = none := by
  simp only [look]
  split
  · exact token?_leaderFailed retries
  · rfl
  · exact token?_leaderFailed retries
  · rfl

section
variable (h : Inv w)
include h

theorem free_observe (hrow : ∀ r, w.row = some r → r.progress = .failed ∨ r.expiresAt ≤ now) :
    Free (observe ttl now w) := by
  intro r hr
  refine (hrow r hr).imp_right fun hend => ?_
  exact lapsed_observe.2 (.inr ((h.leased r hr).2 ▸ hend))

/-- A FRESH claim, heard of or not. -/
theorem Inv.fresh (id : CallId) (reply : Reply)
    (hrow : ∀ r, w.row = some r → r.progress = .failed ∨ r.expiresAt ≤ now)
    (ht : r.claimToken = w.drawn) (hp : r.progress = .inFlight)
    (hf : r.requestFingerprint = fingerprint) :
    Inv (Idempotency.setCall (Idempotency.grant fingerprint r (Idempotency.observe ttl now w)) id
      (if reply = .lost then .raised
        else react svc fingerprint retries monotonic (.fresh w.drawn))) := by
  have hg := (h.observe ttl now).grant (free_observe h hrow) ht hp hf
  by_cases hlost : reply = .lost
  · rw [if_pos hlost]
    exact hg.leave id rfl
  · rw [if_neg hlost]
    refine hg.hand id (Nat.lt_succ_self _) ?_ ⟨r, rfl, ht, hp⟩ ?_
    · intro a ha
      exact absurd (h.drawn a w.drawn ha) (Nat.lt_irrefl _)
    · simp [Idempotency.grant, Idempotency.observe]

theorem Inv.stepClaim (fingerprint : Option String) (id : CallId) (now monotonic : Int)
    (reply : Reply) : Inv (stepClaim svc fingerprint id now monotonic reply w) := by
  simp only [Idempotency.stepClaim]
  split
  · next retries _ =>
    split
    · exact h.leave id rfl
    · split
      · exact h.leave id rfl
      · next c r hclaim =>
        have hs : ∀ (c : IdempotencyClaim), (∀ t, c ≠ .fresh t) →
            Inv (Idempotency.setCall (Idempotency.observe svc.ttlSeconds now w) id
              (if reply = .lost then .raised
                else react svc fingerprint retries monotonic c)) := by
          intro c hc
          refine (h.observe svc.ttlSeconds now).leave id ?_
          by_cases hlost : reply = .lost
          · simp [hlost, Stage.token?]
          · simpa [hlost] using token?_react hc
        obtain ⟨_, _, _, _, _, rfl⟩ | ⟨_, rfl⟩ | ⟨rfl, hp, ht, hf, _, hrow⟩ :=
          claim_cases hclaim
        · exact hs _ (by simp)
        · exact hs _ (by simp)
        · exact h.fresh id reply hrow ht hp hf
  · exact h

theorem Inv.stepPoll (id : CallId) (before after : Int) (reply : Reply) :
    Inv (stepPoll svc id before after reply w) := by
  simp only [Idempotency.stepPoll]
  split
  · split
    · exact h.leave id rfl
    · split
      · exact h.leave id (token?_look _ _ _)
      · exact h.leave id rfl
  · exact h

theorem Inv.end (hs : w.calls id = .running t) : Inv (Idempotency.setCall w id (.marking t)) := by
  refine h.setCall id (.marking t) ?_ ?_ ?_
  · intro u hu
    rw [hs]
    exact hu
  · intro u hu
    cases hu
  · intro u b hu
    cases hu

theorem Inv.stepCallback (id : CallId) (outcome : Outcome Value) :
    Inv (stepCallback svc id outcome w) := by
  simp only [Idempotency.stepCallback]
  split
  · next token hs =>
    cases outcome with
    | value result =>
      cases hbody : svc.dumps result with
      | none =>
        simp only [hbody]
        exact h.leave id rfl
      | some body =>
        have hp := (h.end hs).produce body (calls_self w id _)
        have hr := hp.setCall id (.recording token body)
          (fun t ht => by rw [← ht]; simp [Idempotency.produce, Stage.token?])
          nofun
          (fun t b ht => by cases ht; simp [produce_leases])
        simp only [hbody]
        simpa [Idempotency.setCall, Idempotency.produce] using hr
    | error => exact h.end hs
    | systemError =>
      show Inv (Idempotency.setCall w id .raised)
      exact h.leave id rfl
  · exact h

theorem Inv.nobody (hid : (w.calls id).token? = some t) (hs : stage.token? = none) :
    ∀ a, ((Idempotency.setCall w id stage).calls a).token? ≠ some t := by
  refine forall_setCall (P := fun _ s => s.token? ≠ some t) (by simp [hs]) ?_
  intro a ha hat
  exact ha (h.single a id t hat hid)

theorem Inv.stepComplete (id : CallId) (now : Int) (reply : Reply) :
    Inv (stepComplete svc id now reply w) := by
  simp only [Idempotency.stepComplete]
  split
  · next token body hs =>
    split
    · exact h.leave id rfl
    · generalize hout : (if reply = Reply.lost then Stage.raised
        else .returned ⟨svc.loads body, true, false⟩ : Stage Value) = stage
      have hnone : stage.token? = none := by
        rw [← hout]
        split <;> rfl
      have hid : (w.calls id).token? = some token := by
        rw [hs]
        rfl
      have hleft := h.leave id hnone
      obtain hnot | ⟨r, hr, rfl, hp, hyes⟩ :=
        settle_cases w.row token (.completed (svc.sha256 body) body)
      · simp only [complete, hnot]
        exact hleft
      · simp only [complete, hyes]
        refine Inv.note (w := { Idempotency.setCall w id stage with
          row := some { r with progress := .completed (svc.sha256 body) body } })
          (hleft.settle hr hp (h.nobody hid hnone) ?_) now ⟨_, _, _, rfl, rfl, rfl⟩
        intro digest b hc
        cases hc
        exact h.recording id r.claimToken body hs
  · exact h

theorem Inv.stepFail (id : CallId) (reply : Reply) : Inv (stepFail id reply w) := by
  simp only [Idempotency.stepFail]
  split
  · next token hs =>
    have hid : (w.calls id).token? = some token := by
      rw [hs]
      rfl
    have hleft : Inv (Idempotency.setCall w id .raised) := h.leave id rfl
    split
    · exact hleft
    · obtain hnot | ⟨r, hr, rfl, hp, hyes⟩ := settle_cases w.row token .failed
      · simp only [fail, hnot]
        exact hleft
      · simp only [fail, hyes]
        refine hleft.settle hr hp (h.nobody hid rfl) ?_
        intro digest b hc
        cases hc
  · exact h

theorem Inv.stepCleanup (now : Int) (reply : Reply) : Inv (stepCleanup svc now reply w) := by
  simp only [Idempotency.stepCleanup]
  split
  · exact h
  · have hseen := h.observe svc.ttlSeconds now
    obtain hs | ⟨hgone, hend⟩ := cleanupExpired_cases w.row now
    · rw [hs]
      exact hseen
    · rw [hgone]
      refine hseen.delete ?_
      intro r hr
      refine lapsed_observe.2 (.inr ?_)
      rw [← (h.leased r hr).2]
      exact hend r hr

/-- STEP LEMMA: every event keeps the invariant. -/
theorem Inv.step (e : Event Value) : Inv (step svc fingerprints w e) := by
  cases e with
  | claim id now monotonic reply => exact h.stepClaim _ id now monotonic reply
  | poll id before after reply => exact h.stepPoll id before after reply
  | callback id outcome => exact h.stepCallback id outcome
  | complete id now reply => exact h.stepComplete id now reply
  | fail id reply => exact h.stepFail id reply
  | cancel id =>
    simp only [Idempotency.step, stepCancel]
    split
    · exact h
    · exact h.leave id rfl
  | cleanup now reply => exact h.stepCleanup now reply

end

/-- RUN LEMMA. -/
theorem Inv.run (events : List (Event Value)) : Inv (run svc fingerprints events) :=
  Run.kept (fun _ e h => h.step e) Inv.start events

end

variable {Value : Type} {svc : IdempotencyService Value}
  {fingerprints : CallId → Option String}

-- ==== what is promised

/-- Of two callbacks that run, one's lease has lapsed: a clock was read at its end or past it. -/
def Exclusive (w : World Value) : Prop :=
  ∀ a b t u, w.calls a = .running t → w.calls b = .running u →
    (w.leases t).lapsed = false → (w.leases u).lapsed = false → a = b

/-- A call whose lease is not the one granted last changes the row by nothing
it does. -/
def Fenced (svc : IdempotencyService Value) (fingerprints : CallId → Option String)
    (w : World Value) : Prop :=
  ∀ id t, (w.calls id).token? = some t → t + 1 ≠ w.drawn →
    ∀ e : Event Value, e.caller = some id → (step svc fingerprints w e).row = w.row

def RetainedFromClaim (w : World Value) : Prop :=
  ∀ t, t + 1 < w.drawn → (w.leases t).completedAt.isSome → (w.leases t).lapsed

/-- A completed lease is the one granted last, or the TTL from its completion has been read over. -/
def Retained (w : World Value) : Prop :=
  ∀ t, t + 1 < w.drawn → (w.leases t).completedAt.isSome → (w.leases t).outlived

def Origin (svc : IdempotencyService Value) (w : World Value) (fingerprint : String)
    (value : Value) : Prop :=
  ∃ t body, t < w.drawn ∧ (w.leases t).produced = some body ∧ value = cached svc body ∧
    ((w.leases t).requestFingerprint = none ∨
      (w.leases t).requestFingerprint = some fingerprint)

def Matched (svc : IdempotencyService Value) (fingerprints : CallId → Option String)
    (w : World Value) : Prop :=
  ∀ id fingerprint value, fingerprints id = some fingerprint →
    w.calls id = .returned ⟨value, false, false⟩ → Origin svc w fingerprint value

-- ==== the condition

def InTime (svc : IdempotencyService Value) (w : World Value) (now : Int) : Prop :=
  ∀ r digest body completedAt, w.row = some r → r.progress = .completed digest body →
    (w.leases r.claimToken).completedAt = some completedAt → r.expiresAt ≤ now →
    completedAt + microseconds svc.ttlSeconds ≤ now

def OwnAnswer (fingerprints : CallId → Option String) (w : World Value) (id : CallId)
    (before after : Int) : Prop :=
  ∀ retries deadline r digest body fingerprint, w.calls id = .polling retries deadline →
    before < deadline → after < deadline → w.row = some r →
    r.progress = .completed digest body → fingerprints id = some fingerprint →
    r.requestFingerprint = none ∨ r.requestFingerprint = some fingerprint

/-- What an event has to meet for the two promises that do not hold as such. -/
def Sound (svc : IdempotencyService Value) (fingerprints : CallId → Option String)
    (w : World Value) : Event Value → Prop
  | .claim _ now _ _ => InTime svc w now
  | .cleanup now _ => InTime svc w now
  | .poll id before after _ => OwnAnswer fingerprints w id before after
  | _ => True

-- ==== what always holds

variable {w w' : World Value} {t : Token} {fingerprint : String}

theorem exclusive (h : Inv w) : Exclusive w := by
  intro a b t u ha hb hta hub
  have hf : ∀ id t, w.calls id = .running t → (w.leases t).lapsed = false → InFlight w t := by
    intro id t hid hlive
    exact (h.live id t hid).resolve_left (by simp [hlive])
  obtain ⟨r, hr, rfl, _⟩ := hf a t ha hta
  obtain ⟨r', hr', rfl, _⟩ := hf b u hb hub
  rw [hr] at hr'
  cases hr'
  exact h.single a b r.claimToken (by rw [ha]; rfl) (by rw [hb]; rfl)

theorem settle_stale (h : Inv w) (hs : t + 1 ≠ w.drawn) (p : Progress) :
    settle w.row t p = (w.row, false) := by
  refine settle_of_not p ?_
  intro r hr hboth
  exact hs (hboth.1 ▸ h.newest r hr)

theorem fenced (h : Inv w) : Fenced svc fingerprints w := by
  intro id t hid hstale e he
  cases e with
  | claim id' now monotonic reply =>
    cases he
    simp only [step, stepClaim]
    split
    next hs => simp [hs, Stage.token?] at hid
    · rfl
  | poll id' before after reply =>
    cases he
    simp only [step, stepPoll]
    split
    next hs => simp [hs, Stage.token?] at hid
    · rfl
  | callback id' outcome =>
    simp only [step, stepCallback]
    split
    · cases outcome with
      | value result => cases hbody : svc.dumps result <;> simp [hbody, setCall, produce]
      | error | systemError => rfl
    · rfl
  | complete id' now reply =>
    cases he
    simp only [step, stepComplete]
    split
    · next token body hs =>
      have ht : token = t := by simpa [hs, Stage.token?] using hid
      split
      · rfl
      · simp [complete, ht, settle_stale h hstale, setCall]
    · rfl
  | fail id' reply =>
    cases he
    simp only [step, stepFail]
    split
    · next token hs =>
      have ht : token = t := by simpa [hs, Stage.token?] using hid
      split
      · rfl
      · simp [fail, ht, settle_stale h hstale, setCall]
    · rfl
  | cancel id' =>
    simp only [step, stepCancel]
    split <;> rfl
  | cleanup now reply => cases he

theorem not_recorded (h : Inv w) (hold : t + 1 < w.drawn) : ¬ Recorded w t := by
  intro hrec
  obtain ⟨r, _, _, hr, rfl, _⟩ := hrec
  exact absurd (h.newest r hr) hold.ne

theorem retainedFromClaim (h : Inv w) : RetainedFromClaim w := by
  intro t hold hc
  exact (h.kept t hc).resolve_right (not_recorded h hold)

-- ==== the TTL of a response

/-- A completed lease still has its response in the row, or its TTL has been read over. -/
def Sustained (w : World Value) : Prop :=
  ∀ t, (w.leases t).completedAt.isSome → (w.leases t).outlived ∨ Recorded w t

variable {now : Int} {r : Row} {value : Value} {stage : Stage Value}

theorem outlived_observe {ttl : Int} {l : Lease} : (l.observe ttl now).outlived = true ↔
      l.outlived ∨ ∃ c, l.completedAt = some c ∧ c + microseconds ttl ≤ now := by
  simp [Lease.observe, Option.any_eq_true]

theorem Sustained.observe (hs : Sustained w) (ttl now : Int) : Sustained (observe ttl now w) := by
  intro t ht
  exact (hs t ht).imp_left fun hl => outlived_observe.2 (.inl hl)

theorem Sustained.over (hs : Sustained w) (htime : InTime svc w now)
    (hrow : ∀ r, w.row = some r → r.progress = .failed ∨ r.expiresAt ≤ now) (t : Token)
    (ht : (w.leases t).completedAt.isSome) :
    ((Idempotency.observe svc.ttlSeconds now w).leases t).outlived := by
  refine outlived_observe.2 ((hs t ht).imp_right fun hrec => ?_)
  obtain ⟨r, digest, body, hr, rfl, hp⟩ := hrec
  obtain ⟨c, hc⟩ := Option.isSome_iff_exists.1 ht
  have hend : r.expiresAt ≤ now := (hrow r hr).resolve_left (by simp [hp])
  exact ⟨c, hc, htime r digest body c hr hp hc hend⟩

theorem Sustained.grant (hover : ∀ t, (w.leases t).completedAt.isSome → (w.leases t).outlived)
    (requestFingerprint : Option String) (r : Row) : Sustained (grant requestFingerprint r w) := by
  intro t ht
  by_cases hte : t = w.drawn
  · simp [Idempotency.grant, hte] at ht
  · have hsame : (Idempotency.grant requestFingerprint r w).leases t = w.leases t := by
      simp [Idempotency.grant, hte]
    rw [hsame] at ht ⊢
    exact .inl (hover t ht)

theorem Sustained.produce (hs : Sustained w) (t : Token) (body : String) :
    Sustained (produce t body w) := by
  intro u hu
  rw [produce_leases] at hu ⊢
  exact hs u hu

theorem Sustained.settle (hs : Sustained w) (hr : w.row = some r) (hf : r.progress = .inFlight)
    (p : Progress) : Sustained { w with row := some { r with progress := p } } := by
  intro t ht
  refine .inl ((hs t ht).resolve_right ?_)
  intro hrec
  obtain ⟨r', digest, body, hr', _, hp⟩ := hrec
  rw [hr] at hr'
  cases hr'
  simp [hf] at hp

theorem Sustained.note (hs : Sustained w) (now : Int) (hrec : Recorded w t) :
    Sustained (note t now w) := by
  intro u hu
  by_cases hut : u = t
  · exact .inr (hut ▸ hrec)
  · rw [note_leases] at hu ⊢
    exact hs u (by simpa [hut] using hu)

/-- STEP LEMMA: an event that reads its clock in time. -/
theorem Sustained.step (hs : Sustained w) (e : Event Value) (hsnd : Sound svc fingerprints w e) :
    Sustained (step svc fingerprints w e) := by
  cases e with
  | claim id now monotonic reply =>
    have htime : InTime svc w now := hsnd
    simp only [Idempotency.step, stepClaim]
    split
    · split
      · exact hs
      · split
        · exact hs
        · next c r hc =>
          obtain ⟨_, _, _, _, _, rfl⟩ | ⟨_, rfl⟩ | ⟨rfl, _, _, _, _, hrow⟩ := claim_cases hc
          · exact hs.observe _ _
          · exact hs.observe _ _
          · exact Sustained.grant (hs.over htime hrow) (fingerprints id) r
    · exact hs
  | poll id before after reply =>
    simp only [Idempotency.step, stepPoll]
    split
    · split
      · exact hs
      · split <;> exact hs
    · exact hs
  | callback id outcome =>
    simp only [Idempotency.step, stepCallback]
    split
    · next token hstage =>
      cases outcome with
      | value result =>
        cases hbody : svc.dumps result with
        | none =>
          simp only [hbody]
          exact hs
        | some body =>
          simp only [hbody]
          exact hs.produce token body
      | error | systemError => exact hs
    · exact hs
  | complete id now reply =>
    simp only [Idempotency.step, stepComplete]
    split
    · next token body hstage =>
      split
      · exact hs
      · obtain hnot | ⟨r, hr, rfl, hp, hyes⟩ :=
          settle_cases w.row token (.completed (svc.sha256 body) body)
        · simp only [complete, hnot]
          exact hs
        · simp only [complete, hyes]
          exact (hs.settle hr hp (.completed (svc.sha256 body) body)).note now
            ⟨_, _, _, rfl, rfl, rfl⟩
    · exact hs
  | fail id reply =>
    simp only [Idempotency.step, stepFail]
    split
    · next token hstage =>
      split
      · exact hs
      · obtain hnot | ⟨r, hr, rfl, hp, hyes⟩ := settle_cases w.row token .failed
        · simp only [fail, hnot]
          exact hs
        · simp only [fail, hyes]
          exact hs.settle hr hp .failed
    · exact hs
  | cancel id =>
    simp only [Idempotency.step, stepCancel]
    split <;> exact hs
  | cleanup now reply =>
    have htime : InTime svc w now := hsnd
    simp only [Idempotency.step, stepCleanup]
    split
    · exact hs
    · obtain hstays | ⟨hgone, hend⟩ := cleanupExpired_cases w.row now
      · rw [hstays]
        exact hs.observe _ _
      · intro t ht
        exact .inl (hs.over htime (fun r hr => .inr (hend r hr)) t ht)

theorem retained (h : Inv w) (hs : Sustained w) : Retained w := by
  intro t hold hc
  exact (hs t hc).resolve_right (not_recorded h hold)

-- ==== the answers

structure Grows (w w' : World Value) : Prop where
  drawn : w.drawn ≤ w'.drawn
  requestFingerprint : ∀ t, t < w.drawn →
    (w'.leases t).requestFingerprint = (w.leases t).requestFingerprint
  produced : ∀ t body, t < w.drawn → (w.leases t).produced = some body →
    (w'.leases t).produced = some body

theorem Origin.grow (hgrow : Grows w w') (h : Origin svc w fingerprint value) :
    Origin svc w' fingerprint value := by
  obtain ⟨t, body, ht, hp, hval, hf⟩ := h
  refine ⟨t, body, lt_of_lt_of_le ht hgrow.drawn, hgrow.produced t body ht hp, hval, ?_⟩
  rwa [hgrow.requestFingerprint t ht]

theorem Grows.rfl (w : World Value) : Grows w w :=
  ⟨le_refl _, fun _ _ => Eq.refl _, fun _ _ _ h => h⟩

theorem Grows.grant (w : World Value) (requestFingerprint : Option String) (r : Row) :
    Grows w (Idempotency.grant requestFingerprint r w) := by
  have hold : ∀ t, t < w.drawn →
      (Idempotency.grant requestFingerprint r w).leases t = w.leases t := by
    intro t ht
    simp [Idempotency.grant, ht.ne]
  refine ⟨Nat.le_succ _, ?_, ?_⟩
  · intro t ht
    rw [hold t ht]
  · intro t body ht hp
    rwa [hold t ht]

theorem Grows.produce (hnone : (w.leases t).produced = none) (body : String) :
    Grows w (Idempotency.produce t body w) := by
  refine ⟨le_refl _, ?_, ?_⟩
  · intro u _
    rw [produce_leases]
  · intro u b _ hb
    have hut : u ≠ t := by
      intro hut
      simp [hut, hnone] at hb
    rw [produce_leases]
    simpa [hut] using hb

theorem Matched.move (hm : Matched svc fingerprints w) (hgrow : Grows w w')
    (hc : w'.calls = w.calls) (id : CallId)
    (hstage : ∀ fingerprint value, fingerprints id = some fingerprint →
      stage = .returned ⟨value, false, false⟩ → Origin svc w fingerprint value) :
    Matched svc fingerprints (setCall w' id stage) := by
  refine forall_setCall (P := fun a s => ∀ fingerprint value,
    fingerprints a = some fingerprint → s = .returned ⟨value, false, false⟩ →
      Origin svc (setCall w' id stage) fingerprint value) ?_ ?_
  · intro fingerprint value hf hs
    exact (hstage fingerprint value hf hs).grow ⟨hgrow.1, hgrow.2, hgrow.3⟩
  · intro a _ fingerprint value hf hs
    rw [hc] at hs
    exact (hm a fingerprint value hf hs).grow ⟨hgrow.1, hgrow.2, hgrow.3⟩

theorem Matched.plain (hm : Matched svc fingerprints w) (hgrow : Grows w w')
    (hc : w'.calls = w.calls) (id : CallId)
    (hstage : ∀ value, stage ≠ .returned ⟨value, false, false⟩) :
    Matched svc fingerprints (setCall w' id stage) := by
  refine hm.move hgrow hc id ?_
  intro fingerprint value _ hs
  exact absurd hs (hstage value)

theorem origin_of_row (h : Inv w) {digest body : String} (hr : w.row = some r)
    (hp : r.progress = .completed digest body)
    (hown : r.requestFingerprint = none ∨ r.requestFingerprint = some fingerprint) :
    Origin svc w fingerprint (cached svc body) := by
  have hd : r.claimToken < w.drawn := by
    rw [← h.newest r hr]
    exact Nat.lt_succ_self _
  refine ⟨r.claimToken, body, hd, h.recorded r digest body hr hp, rfl, ?_⟩
  rwa [(h.leased r hr).1] at hown

theorem own_of_not_mismatch {existing : Option String}
    (h : mismatch (some fingerprint) existing = false) :
    existing = none ∨ existing = some fingerprint := by
  cases existing with
  | none => exact .inl rfl
  | some e =>
    refine .inr ?_
    simpa [mismatch] using h

theorem look_cached {retries : Nat} {deadline : Int} {record : Option Row}
    (h : look svc retries deadline record = .returned ⟨value, false, false⟩) :
    ∃ r digest body, record = some r ∧ r.progress = .completed digest body ∧
      value = cached svc body := by
  cases record with
  | none =>
    simp only [look, Option.map_none, leaderFailed] at h
    split at h <;> simp at h
  | some r =>
    cases hp : r.progress with
    | inFlight => simp [look, hp] at h
    | completed digest body =>
      simp only [look, Option.map_some, hp, Stage.returned.injEq, IdempotencyResult.mk.injEq] at h
      exact ⟨r, digest, body, rfl, hp, h.1.symm⟩
    | failed =>
      simp only [look, Option.map_some, hp, leaderFailed] at h
      split at h <;> simp at h

/-- STEP LEMMA: an event whose poll reads its own answer. -/
theorem Matched.step (h : Inv w) (hm : Matched svc fingerprints w) (e : Event Value)
    (hsnd : Sound svc fingerprints w e) : Matched svc fingerprints (step svc fingerprints w e) := by
  cases e with
  | claim id now monotonic reply =>
    simp only [Idempotency.step, stepClaim]
    split
    · next retries _ =>
      split
      · exact hm.plain (Grows.rfl w) rfl id (by simp)
      · split
        · exact hm.plain (Grows.rfl w) rfl id (by simp)
        · next c r hc =>
          have hseen : Grows w (observe svc.ttlSeconds now w) :=
            ⟨le_refl _, fun _ _ => rfl, fun _ _ _ hb => hb⟩
          obtain ⟨digest, body, hr, _, hp, rfl⟩ | ⟨_, rfl⟩ | ⟨rfl, _⟩ := claim_cases hc
          · refine hm.move hseen rfl id ?_
            intro fingerprint value hf hs
            simp only [react, hf] at hs
            split at hs
            · cases hs
            · split at hs
              · cases hs
              · next hmatched =>
                cases hs
                exact origin_of_row h hr hp (own_of_not_mismatch (by simpa using hmatched))
          · refine hm.plain hseen rfl id ?_
            intro v
            simp only [react]
            split
            · simp
            · split <;> simp
          · have hg := Grows.grant (observe svc.ttlSeconds now w) (fingerprints id) r
            refine hm.plain ⟨hg.1, hg.2, hg.3⟩ rfl id ?_
            intro v
            simp only [react]
            split <;> simp
    · exact hm
  | poll id before after reply =>
    have hown : OwnAnswer fingerprints w id before after := hsnd
    simp only [Idempotency.step, stepPoll]
    split
    · next retries deadline hstage =>
      split
      · exact hm.plain (Grows.rfl w) rfl id (by simp)
      · next htime =>
        obtain ⟨hbefore, ha⟩ := not_or.1 htime
        split
        · refine hm.move (Grows.rfl w) rfl id ?_
          intro fingerprint value hf hs
          obtain ⟨r, digest, body, hr, hp, rfl⟩ := look_cached hs
          exact origin_of_row h hr hp (hown retries deadline r digest body fingerprint hstage
            (Int.not_le.1 hbefore) (Int.not_le.1 ha) hr hp hf)
        · exact hm.plain (Grows.rfl w) rfl id (by simp)
    · exact hm
  | callback id outcome =>
    simp only [Idempotency.step, stepCallback]
    split
    · next token hstage =>
      cases outcome with
      | value result =>
        cases hbody : svc.dumps result with
        | none =>
          simp only [hbody]
          exact hm.plain (Grows.rfl w) rfl id (by simp)
        | some body =>
          simp only [hbody]
          exact hm.plain (Grows.produce (h.working id token hstage) body) rfl id (by simp)
      | error | systemError => exact hm.plain (Grows.rfl w) rfl id (by simp)
    · exact hm
  | complete id now reply =>
    simp only [Idempotency.step, stepComplete]
    split
    · next token body hstage =>
      have hfresh : ∀ v, (if reply = Reply.lost then Stage.raised
          else .returned ⟨svc.loads body, true, false⟩ : Stage Value) ≠
            .returned ⟨v, false, false⟩ := by
        intro v
        split <;> simp
      split
      · exact hm.plain (Grows.rfl w) rfl id (by simp)
      · split
        · have hn : Grows w { note token now w with
              row := (complete w.row body (svc.sha256 body) token).1 } := by
            refine ⟨le_refl _, ?_, ?_⟩
            · intro t _
              show ((note token now w).leases t).requestFingerprint = _
              rw [note_leases]
            · intro t b _ hb
              show ((note token now w).leases t).produced = _
              rwa [note_leases]
          exact hm.plain hn rfl id hfresh
        · exact hm.plain ⟨le_refl _, fun _ _ => rfl, fun _ _ _ hb => hb⟩ rfl id hfresh
    · exact hm
  | fail id reply =>
    simp only [Idempotency.step, stepFail]
    split
    · split
      · exact hm.plain (Grows.rfl w) rfl id (by simp)
      · exact hm.plain ⟨le_refl _, fun _ _ => rfl, fun _ _ _ hb => hb⟩ rfl id (by simp)
    · exact hm
  | cancel id =>
    simp only [Idempotency.step, stepCancel]
    split
    · exact hm
    · exact hm.plain (Grows.rfl w) rfl id (by simp)
  | cleanup now reply =>
    simp only [Idempotency.step, stepCleanup]
    split
    · exact hm
    · intro id fingerprint value hf hs
      exact (hm id fingerprint value hf hs).grow ⟨le_refl _, fun _ _ => rfl, fun _ _ _ hb => hb⟩

-- ==== the promises

structure Promised (svc : IdempotencyService Value) (fingerprints : CallId → Option String)
    (w : World Value) : Prop where
  exclusive : Exclusive w
  fenced : Fenced svc fingerprints w
  retained : Retained w
  matched : Matched svc fingerprints w

/-- In every run two callbacks do not run under live leases, stale calls change nothing, and a
completion outlives its claim's TTL. Where claims and sweeps read their clocks in time and polls
their own answers, the TTL may be counted from the completion and a cached result is of the
fingerprint asked for. -/
theorem runIdempotent_promised (svc : IdempotencyService Value)
    (fingerprints : CallId → Option String) (events : List (Event Value)) :
    (∀ w ∈ Run.states (step svc fingerprints) start events,
      Exclusive w ∧ Fenced svc fingerprints w ∧ RetainedFromClaim w) ∧
    (Run.Throughout (step svc fingerprints) (Sound svc fingerprints) start events →
      ∀ w ∈ Run.states (step svc fingerprints) start events,
        Promised svc fingerprints w) := by
  constructor
  · intro w hw
    obtain ⟨xs, _, _, rfl⟩ := (Run.mem_states_iff _ _ _ _).1 hw
    have h : Inv (run svc fingerprints xs) := Inv.run xs
    exact ⟨exclusive h, fenced h, retainedFromClaim h⟩
  · intro hsound w hw
    have hall : Inv w ∧ Sustained w ∧ Matched svc fingerprints w := by
      refine Run.throughout_states (P := fun w => Inv w ∧ Sustained w ∧
        Matched svc fingerprints w) ?_ hsound ?_ w hw
      · intro w e he h
        exact ⟨h.1.step e, h.2.1.step e he, h.2.2.step h.1 e he⟩
      · refine ⟨Inv.start, ?_, ?_⟩
        · intro t ht
          cases ht
        · intro id fingerprint value _ hs
          cases hs
    exact ⟨exclusive hall.1, fenced hall.1, retained hall.1 hall.2.1, hall.2.2⟩

/-- JSON that writes every text as itself; a TTL of a minute. -/
def minuteService : IdempotencyService String where
  ttlSeconds := 60
  outlives := by decide
  dumps := some
  loads text := text
  null := "null"
  sha256 text := text

def twoPayloads : CallId → Option String
  | 2 => some "y"
  | _ => some "x"

def crossed : List (Event String) :=
  [.claim 0 0 0 .done, .claim 1 1 0 .done, .callback 0 .error, .fail 0 .done,
    .claim 2 2 2 .done, .callback 2 (.value "for y"), .complete 2 3 .done, .poll 1 4 5 .done]

/-- A callback takes fifty seconds of its minute; ten seconds later its response is gone. -/
def early : List (Event String) :=
  [.claim 0 0 0 .done, .callback 0 (.value "done"), .complete 0 50000000 .done,
    .claim 1 60000000 0 .done]

theorem runIdempotent_not_promised :
    ¬ Promised minuteService twoPayloads (run minuteService twoPayloads crossed) ∧
      ¬ Promised minuteService (fun _ => none) (run minuteService (fun _ => none) early) := by
  constructor
  · intro h
    obtain ⟨t, body, ht, hproduced, _, hfingerprint⟩ := h.matched 1 "x" "for y" rfl rfl
    match t, ht with
    | 0, _ =>
      have hnone : ((run minuteService twoPayloads crossed).leases 0).produced = none := rfl
      simp [hnone] at hproduced
    | 1, _ => exact absurd hfingerprint (by decide)
  · intro h
    exact absurd (h.retained 0 (by decide) (by decide)) (by decide)

/-- A run in time, with a poll that reads its own answer. -/
theorem runIdempotent_promised_polled : (run minuteService twoPayloads
        [.claim 0 0 0 .done, .claim 1 1 0 .done, .callback 0 (.value "for x"),
          .complete 0 2 .done, .poll 1 3 4 .done]).calls 1 =
      .returned ⟨"for x", false, false⟩ ∧
    Promised minuteService twoPayloads (run minuteService twoPayloads
        [.claim 0 0 0 .done, .claim 1 1 0 .done, .callback 0 (.value "for x"),
          .complete 0 2 .done, .poll 1 3 4 .done]) := by
  refine ⟨rfl, (runIdempotent_promised minuteService twoPayloads
    [.claim 0 0 0 .done, .claim 1 1 0 .done, .callback 0 (.value "for x"),
      .complete 0 2 .done, .poll 1 3 4 .done]).2 ?_ _
      ((Run.mem_states_iff _ _ _ _).2 ⟨_, [], (List.append_nil _).symm, rfl⟩)⟩
  refine ⟨?_, ?_, trivial, trivial, ?_, trivial⟩
  · intro r _ _ _ hr
    cases hr
  · intro r _ _ _ hr hp
    cases hr
    cases hp
  · intro _ _ r _ _ _ _ _ _ hr _ hf
    cases hr
    cases hf
    exact Or.inr rfl

end Synthorg.Idempotency
