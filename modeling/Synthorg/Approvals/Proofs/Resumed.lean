/-
A parked run is continued once, with its decision, and is not left behind.

The first half holds of every run: the row is deleted before its context goes anywhere, and a
delete that finds it gone goes nowhere, so there is one token that passes from the park to the
row, to the resume that deleted it, to the engine (`Inv.once`). The second half does not. Then the
approval is PENDING, its marker is in the outbox, a call has not signalled yet, or a resume has
not deleted yet. `careful` says of a step that it does not lose the last of these; a run of such
steps leaves nothing behind (`Kept`).
-/
import Synthorg.Approvals.Parking

namespace Synthorg.Parking

open Lib
open List

variable {s : World}

-- ==== at most once, or left behind

namespace ResumeStage

def waiting : ResumeStage → Bool
  | .loading | .deleting _ => true
  | _ => false

/-- The resume has deleted the row and the engine does not have its context. -/
def owning : ResumeStage → Bool
  | .resolving | .authorizing | .provisioning => true
  | _ => false

/-- The same, or the task is being driven to FAILED. -/
def holding : ResumeStage → Bool
  | .resolving | .authorizing | .provisioning | .failing => true
  | _ => false

end ResumeStage

namespace World

def waiting (s : World) : Nat := s.resumes.countP fun r => r.stage.waiting

def owning (s : World) : Nat := s.resumes.countP fun r => r.stage.owning

def holding (s : World) : Nat := s.resumes.countP fun r => r.stage.holding

def signalling (s : World) : Nat := s.calls.countP fun c => c.stage.signalling

def moot (s : World) : Bool := s.row.isNone && !s.park.underway

def LaterResumed (s : World) : Prop :=
  ∃ inputs : List Input,
    (∀ i ∈ inputs, i ≠ .redispatch) ∧ (Run.final step s inputs).continued ≠ []

/-- The run was continued, or is stored and resumed later, or its task was driven to FAILED. -/
def Settled (s : World) : Prop :=
  (∃ decision, s.item = some decision ∧ s.continued = [decision]) ∨
    (s.row.isSome ∧ s.LaterResumed) ∨ s.failed

/-- A way to the row is left, or none is needed, when all this is lost. -/
def spares (s : World) (resumes calls : Nat) (marker : Bool) : Bool :=
  s.moot || s.item.isNone || (s.marker && !marker) || resumes < s.waiting ||
    calls < s.signalling

/-- What ends leaves another way to the row, unless it took the row itself; a resume that took
it is neither cancelled nor failed; and the FAILED of a run that could not go on reaches its
task. -/
def careful (s : World) : Input → Bool
  | .park ok => s.park ≠ .recovering || (ok && !s.taskless)
  | .resume j ok =>
    match (s.resumes[j]?).map Resume.stage with
    | some .loading | some (.deleting _) => (ok && s.row.isSome) || s.spares 1 0 false
    | some .authorizing | some .failing => ok
    | _ => true
  | .cancel j landed =>
    match (s.resumes[j]?).map Resume.stage with
    | some .loading => s.spares 1 0 false
    | some (.deleting _) => if landed then s.row.isNone else s.spares 1 0 false
    | some .resolving | some .authorizing | some .provisioning => false
    | some .failing => landed
    | _ => true
  | .call k o =>
    match s.calls[k]? with
    | none => true
    | some c =>
      match c.stage.signal s.row o with
      | some .returned => s.spares 0 1 false
      | some .raised => c.kind = .deciding || s.spares 0 1 false
      | some _ => true
      | none =>
        match c.stage, o with
        | .restoring, .restored ok => ok || s.spares 0 1 false
        | .clearing, .cleared ok => !ok || s.spares 0 0 true
        | _, _ => true
  | _ => true

end World

-- ==== the lists

variable {α : Type*} {l : List α} {a : α} {e : ResumeEffect} {row : Option ParkedContext}

theorem countP_set_add (p : α → Bool) {i : Nat} (h : l[i]? = some a) (b : α) :
    (l.set i b).countP p + (p a).toNat = l.countP p + (p b).toNat := by
  obtain ⟨hi, rfl⟩ := List.getElem?_eq_some_iff.1 h
  have hpos : p l[i] = true → 0 < l.countP p := fun hp =>
    countP_pos_iff.2 ⟨l[i], getElem_mem hi, hp⟩
  rw [countP_set hi]
  cases hpa : p l[i] <;> cases p b <;> simp only [hpa] at hpos ⊢
  · rfl
  · rfl
  · have := hpos trivial
    show l.countP p - 1 + 0 + 1 = l.countP p + 0
    omega
  · have := hpos trivial
    show l.countP p - 1 + 1 + 1 = l.countP p + 1
    omega

theorem countP_pos_of_getElem? {p : α → Bool} {i : Nat} (h : l[i]? = some a) (hp : p a = true) :
    0 < l.countP p :=
  countP_pos_iff.2 ⟨a, mem_of_getElem? h, hp⟩

-- ==== the token, every run

structure CallsOk (item : Option Decision) (resumes : List Resume) (calls : List Call) : Prop where
  current : ∀ c ∈ calls, c.stage.signalling = true → item = some c.decision
  alone : (∃ c ∈ calls, c.kind = .deciding ∧ c.stage.signalling = true) →
    calls.countP (fun c => c.stage.signalling) ≤ 1
  /-- Once something was dispatched, no decision can be taken back. -/
  fixed : resumes ≠ [] → ∀ c ∈ calls, c.kind = .deciding → c.stage.signalling = false
  /-- Only a decision is taken back. -/
  restoring : ∀ c ∈ calls, c.stage = .restoring → c.kind = .deciding

structure World.Inv (s : World) : Prop where
  once : s.park.underway.toNat + s.row.isSome.toNat + s.owning + s.continued.length ≤ 1
  saved : (∃ r ∈ s.resumes, ∃ parked, r.stage = .deleting parked) → s.park.underway = false
  agreed : ∀ r ∈ s.resumes, s.item = some r.decision
  continued : ∀ decision ∈ s.continued, ∃ r ∈ s.resumes, r.decision = decision
  calls : CallsOk s.item s.resumes s.calls

variable {item : Option Decision} {resumes : List Resume} {calls : List Call} {k j : Nat} {c : Call}
  {r : Resume} {stage : CallStage} {o : CallStep} {ok : Bool} {i : Input}

theorem CallsOk.set (h : CallsOk item resumes calls) (stage : CallStage) (hk : calls[k]? = some c)
    (hstage : stage.signalling = true → c.stage.signalling = true)
    (hrest : stage = .restoring → c.kind = .deciding) :
    CallsOk item resumes (calls.set k { c with stage := stage }) := by
  have hmem := mem_of_getElem? hk
  have hof : ∀ c' ∈ calls.set k { c with stage := stage }, c'.stage.signalling = true →
      ∃ c'' ∈ calls, c''.kind = c'.kind ∧ c''.decision = c'.decision ∧
        c''.stage.signalling = true := by
    intro c' hc' hsig
    rcases mem_or_eq_of_mem_set hc' with hold | rfl
    · exact ⟨c', hold, rfl, rfl, hsig⟩
    · exact ⟨c, hmem, rfl, rfl, hstage hsig⟩
  have hcnt := countP_set_add (fun c : Call => c.stage.signalling) hk { c with stage := stage }
  refine ⟨fun c' hc' hsig => ?_, fun hex => ?_, fun hne c' hc' hkind => ?_, fun c' hc' heq => ?_⟩
  · obtain ⟨c'', hc'', -, hdec, hsig''⟩ := hof c' hc' hsig
    rw [← hdec]
    exact h.current c'' hc'' hsig''
  · obtain ⟨c', hc', hkind, hsig⟩ := hex
    obtain ⟨c'', hc'', hkind', -, hsig''⟩ := hof c' hc' hsig
    have ha := h.alone ⟨c'', hc'', hkind'.trans hkind, hsig''⟩
    cases hs : stage.signalling with
    | true => simp only [hs, hstage hs] at hcnt; omega
    | false => simp only [hs, Bool.toNat_false] at hcnt; omega
  · cases hsig : c'.stage.signalling with
    | false => rfl
    | true =>
      obtain ⟨c'', hc'', hkind', -, hsig''⟩ := hof c' hc' hsig
      exact absurd hsig'' (by simp [h.fixed hne c'' hc'' (hkind'.trans hkind)])
  · rcases mem_or_eq_of_mem_set hc' with hold | rfl
    · exact h.restoring c' hold heq
    · exact hrest heq

theorem CallsOk.silent (h : CallsOk item resumes calls) (stage : CallStage)
    (hk : calls[k]? = some c) (hc : c.stage.signalling = true) (hs : stage.signalling = false)
    (hex : ∃ c' ∈ calls, c'.kind = .deciding ∧ c'.stage.signalling = true) :
    ∀ c' ∈ calls.set k { c with stage := stage }, c'.stage.signalling = false := by
  have hcnt := countP_set_add (fun c : Call => c.stage.signalling) hk { c with stage := stage }
  have ha := h.alone hex
  simp only [hc, hs, Bool.toNat_true, Bool.toNat_false] at hcnt
  have hzero : (calls.set k { c with stage := stage }).countP
      (fun c => c.stage.signalling) = 0 := by omega
  intro c' hc'
  simpa using countP_eq_zero.1 hzero c' hc'

theorem CallsOk.append (h : CallsOk item resumes calls) (hitem : item = some c.decision)
    (hr : c.stage = .routing) (hkind :
      c.kind ≠ .deciding ∧ (∀ c' ∈ calls, c'.kind = .deciding → c'.stage.signalling = false) ∨
      resumes = [] ∧ ∀ c' ∈ calls, c'.stage.signalling = false) :
    CallsOk item resumes (calls ++ [c]) := by
  refine ⟨fun c' hc' hsig => ?_, fun hex => ?_, fun hne c' hc' hdec => ?_, fun c' hc' heq => ?_⟩
  · rcases mem_append.1 hc' with hold | hnew
    · exact h.current c' hold hsig
    · rw [mem_singleton.1 hnew]
      exact hitem
  · rcases hkind with ⟨hnot, hs⟩ | ⟨-, hs⟩
    · obtain ⟨c', hc', hdec, hsig⟩ := hex
      rcases mem_append.1 hc' with hold | hnew
      · exact absurd hsig (by simp [hs c' hold hdec])
      · exact absurd hdec (by rw [mem_singleton.1 hnew]; exact hnot)
    · have hzero : calls.countP (fun c => c.stage.signalling) = 0 :=
        countP_eq_zero.2 fun c' hc' => by simp [hs c' hc']
      rw [countP_append, hzero, Nat.zero_add]
      exact countP_le_length
  · rcases hkind with ⟨hnot, hs⟩ | ⟨hnil, -⟩
    · rcases mem_append.1 hc' with hold | hnew
      · exact hs c' hold hdec
      · exact absurd hdec (by rw [mem_singleton.1 hnew]; exact hnot)
    · exact absurd hnil hne
  · rcases mem_append.1 hc' with hold | hnew
    · exact h.restoring c' hold heq
    · simp [mem_singleton.1 hnew, hr] at heq

namespace ResumeStage

theorem goOn_token (taskless : Bool) (row : Option ParkedContext) (stage : ResumeStage)
    (ok : Bool) :
    (if (stage.goOn taskless row ok).deletes then false else row.isSome).toNat +
      (stage.goOn taskless row ok).stage.owning.toNat +
      (stage.goOn taskless row ok).continues.toNat ≤ row.isSome.toNat + stage.owning.toNat := by
  cases stage <;> cases ok <;> cases row <;> cases taskless <;> simp [goOn, owning]
  all_goals split <;> simp

theorem cancel_token (row : Option ParkedContext) (stage : ResumeStage) (landed : Bool) :
    (if (stage.cancel landed).deletes then false else row.isSome).toNat +
      (stage.cancel landed).stage.owning.toNat +
      (stage.cancel landed).continues.toNat ≤ row.isSome.toNat + stage.owning.toNat := by
  cases stage <;> cases landed <;> cases row <;> simp [cancel, owning]

variable {stage : ResumeStage} {parked : ParkedContext}

theorem goOn_deleting {taskless : Bool} {row : Option ParkedContext} {ok : Bool}
    (h : (stage.goOn taskless row ok).stage = .deleting parked) : row = some parked := by
  cases stage <;> cases ok <;> cases row <;> cases taskless <;> simp [goOn] at h
  all_goals first
    | exact congrArg some h
    | (split at h <;> cases h)

theorem cancel_deleting {landed : Bool}
    (h : (stage.cancel landed).stage = .deleting parked) : False := by
  cases stage <;> cases h

end ResumeStage

/-- STEP LEMMA of a resume: one that passes the token on keeps the invariant. -/
theorem World.Inv.enact (h : s.Inv) (hr : s.resumes[j]? = some r)
    (ht : (if e.deletes then false else s.row.isSome).toNat + e.stage.owning.toNat +
      e.continues.toNat ≤ s.row.isSome.toNat + r.stage.owning.toNat)
    (hd : ∀ parked, e.stage = .deleting parked → s.row.isSome = true) :
    (s.enact j r e).Inv := by
  have hmem := mem_of_getElem? hr
  have hown : (s.enact j r e).owning + r.stage.owning.toNat = s.owning + e.stage.owning.toNat :=
    countP_set_add (fun r : Resume => r.stage.owning) hr ⟨r.decision, e.stage⟩
  have honce := h.once
  have hof : ∀ r' ∈ (s.enact j r e).resumes, r' ∈ s.resumes ∨ r' = ⟨r.decision, e.stage⟩ :=
    fun r' hr' => mem_or_eq_of_mem_set hr'
  have hk : ∀ r' ∈ s.resumes, ∃ r'' ∈ (s.enact j r e).resumes, r''.decision = r'.decision := by
    intro r' hr'
    obtain ⟨i, hi⟩ := getElem?_of_mem hr'
    obtain ⟨hj, -⟩ := List.getElem?_eq_some_iff.1 hr
    by_cases hij : j = i
    · subst hij
      cases hr.symm.trans hi
      exact ⟨_, mem_of_getElem? (getElem?_set_self hj), rfl⟩
    · exact ⟨r', mem_of_getElem? ((getElem?_set_ne hij).trans hi), rfl⟩
  refine ⟨?_, ?_, ?_, ?_, ?_⟩
  · have hlen : (s.enact j r e).continued.length = s.continued.length + e.continues.toNat := by
      cases hc : e.continues <;> simp [World.enact, hc]
    have hrow : (s.enact j r e).row.isSome = if e.deletes then false else s.row.isSome := by
      cases hdeletes : e.deletes <;> simp [World.enact, hdeletes]
    rw [hrow]
    show s.park.underway.toNat + _ + _ + _ ≤ 1
    omega
  · rintro ⟨r', hr', parked, hs⟩
    show s.park.underway = false
    rcases hof r' hr' with hold | rfl
    · exact h.saved ⟨r', hold, parked, hs⟩
    · have hrow := hd parked hs
      rw [hrow] at honce
      cases hpark : s.park.underway with
      | false => rfl
      | true => rw [hpark, Bool.toNat_true] at honce; omega
  · intro r' hr'
    rcases hof r' hr' with hold | rfl
    · exact h.agreed r' hold
    · exact h.agreed r hmem
  · intro decision hdec
    have hcassette : decision ∈ s.continued ∨ decision = r.decision := by
      simp only [World.enact] at hdec
      split at hdec
      · rcases mem_append.1 hdec with hold | hnew
        · exact .inl hold
        · exact .inr (mem_singleton.1 hnew)
      · exact .inl hdec
    rcases hcassette with hold | rfl
    · obtain ⟨r', hr', rfl⟩ := h.continued decision hold
      exact hk r' hr'
    · exact hk r hmem
  · refine { h.calls with fixed := fun hne => h.calls.fixed fun hnil => ?_ }
    exact absurd (hnil ▸ hmem) (not_mem_nil)

-- ---------------------------------------------------------------- the other steps

theorem World.Inv.goOnPark (h : s.Inv) (ok : Bool) : (s.goOnPark ok).Inv := by
  have honce := h.once
  unfold World.goOnPark
  cases hpark : s.park with
  | creating =>
    have hu : s.park.underway = true := by rw [hpark]; rfl
    cases ok
    all_goals exact { h with
      once := by rw [hu] at honce; exact honce
      saved := fun hex => absurd (h.saved hex) (by simp [hu]) }
  | publishing =>
    have hu : s.park.underway = true := by rw [hpark]; rfl
    exact { h with
      once := by rw [hu] at honce; exact honce
      saved := fun hex => absurd (h.saved hex) (by simp [hu]) }
  | saving hasInterrupt =>
    -- the token is the row's now, or nobody's
    have hu : s.park.underway = true := by rw [hpark]; rfl
    rw [hu, Bool.toNat_true] at honce
    cases ok with
    | true =>
      refine { h with once := ?_, saved := fun _ => rfl }
      show 0 + 1 + s.owning + s.continued.length ≤ 1
      omega
    | false =>
      have hstop : (if hasInterrupt then ParkStage.compensating else .recovering).underway =
          false := by cases hasInterrupt <;> rfl
      refine { h with once := ?_, saved := fun _ => hstop }
      show (if hasInterrupt then ParkStage.compensating else .recovering).underway.toNat +
        s.row.isSome.toNat + s.owning + s.continued.length ≤ 1
      rw [hstop, Bool.toNat_false]
      omega
  | notifying => exact { h with once := by rw [hpark] at honce; exact honce, saved := fun _ => rfl }
  | compensating =>
    exact { h with once := by rw [hpark] at honce; exact honce, saved := fun _ => rfl }
  | recovering =>
    exact { h with once := by rw [hpark] at honce; exact honce, saved := fun _ => rfl }
  | parked | stopped => exact h

theorem World.Inv.refusePark (h : s.Inv) : s.refusePark.Inv := by
  unfold World.refusePark
  split
  · refine { h with once := ?_, saved := fun _ => rfl }
    have honce := h.once
    show 0 + s.row.isSome.toNat + s.owning + s.continued.length ≤ 1
    omega
  · exact h

/-- While the approval is PENDING nothing signals, and nothing was dispatched. -/
theorem World.Inv.pending (h : s.Inv) (hitem : s.item = none) :
    s.resumes = [] ∧ ∀ c ∈ s.calls, c.stage.signalling = false := by
  constructor
  · rw [eq_nil_iff_forall_not_mem]
    intro r hr
    exact nomatch hitem.symm.trans (h.agreed r hr)
  · intro c hc
    cases hsig : c.stage.signalling with
    | false => rfl
    | true => exact nomatch hitem.symm.trans (h.calls.current c hc hsig)

theorem World.Inv.decide (h : s.Inv) (decision : Decision) (recorded : Bool) :
    (s.decide decision recorded).Inv := by
  unfold World.decide
  split
  next hopen =>
    obtain ⟨hnil, hs⟩ := h.pending hopen.1
    have hcalls : CallsOk (some decision) s.resumes s.calls :=
      { h.calls with current := fun c hc hsig => absurd hsig (by simp [hs c hc]) }
    exact { h with
      agreed := fun r hr => absurd (hnil ▸ hr) (not_mem_nil)
      calls := hcalls.append rfl rfl (.inr ⟨hnil, hs⟩) }
  · exact h

theorem World.Inv.redispatch (h : s.Inv) : s.redispatch.Inv := by
  unfold World.redispatch
  split
  next decision hitem =>
    split
    · exact h
    next hne =>
      exact { h with
        calls := h.calls.append hitem rfl (.inl ⟨nofun, h.calls.fixed hne⟩) }
  · exact h

theorem World.Inv.startup (h : s.Inv) (ok : Bool) : (s.startup ok).Inv := by
  unfold World.startup
  split
  next hopen =>
    have hs : ∀ c ∈ s.calls, c.kind = .deciding → c.stage.signalling = false :=
      fun c hc _ => by rw [hopen.1.2.1 c hc]; rfl
    split
    next decision hitem => exact { h with calls := h.calls.append hitem rfl (.inl ⟨nofun, hs⟩) }
    · exact { h with }
  · exact h

theorem World.Inv.setCall (h : s.Inv) (hk : s.calls[k]? = some c)
    (hs : stage.signalling = true → c.stage.signalling = true)
    (hrest : stage = .restoring → c.kind = .deciding) : (s.setCall k c stage).Inv :=
  { h with calls := h.calls.set stage hk hs hrest }

theorem CallStage.signalling_of_signal {r : Signal} (h : stage.signal row o = some r) :
    stage.signalling = true := by
  cases stage <;> cases o <;> first | rfl | cases h

theorem CallStage.signalling_of_goesOn {stage' : CallStage}
    (h : stage.signal row o = some (.goesOn stage')) :
    stage'.signalling = true ∧ stage' ≠ .restoring := by
  cases stage <;> cases o <;> simp [CallStage.signal] at h
  case routing.unclaimed => subst h; exact ⟨rfl, nofun⟩
  case rereading.found dispatch => cases dispatch <;> cases h
  case rereading.missing => subst h; exact ⟨rfl, nofun⟩
  case probing.probed dispatch transitioned =>
    cases dispatch <;> cases row <;> cases transitioned <;> simp [Dispatch.signal] at h

@[simp]
theorem CallKind.signalling_returned (kind : CallKind) : kind.returned.signalling = false := by
  cases kind <;> rfl

theorem CallKind.returned_ne_restoring (kind : CallKind) : kind.returned ≠ .restoring := by
  cases kind <;> exact nofun

theorem CallKind.eq_deciding_of_raised {kind : CallKind} (h : kind.raised = .restoring) :
    kind = .deciding := by
  cases kind <;> first | rfl | cases h

theorem World.Inv.goOnCall (h : s.Inv) (k : Nat) (o : CallStep) : (s.goOnCall k o).Inv := by
  unfold World.goOnCall
  split
  · exact h
  next c hk =>
    have hmem := mem_of_getElem? hk
    split
    next stage hsign =>
      exact h.setCall hk (fun _ => CallStage.signalling_of_signal hsign)
        fun heq => absurd heq (CallStage.signalling_of_goesOn hsign).2
    next hsign =>
      -- the resume carries the decision of the approval, which is now there to stay
      have hsig := CallStage.signalling_of_signal hsign
      have hset := h.calls.set c.kind.returned hk (by simp)
        fun heq => absurd heq c.kind.returned_ne_restoring
      refine ⟨?_, ?_, ?_, ?_, { hset with fixed := fun _ c' hc' hkind => ?_ }⟩
      · have honce := h.once
        show _ + _ + (s.resumes ++ [_]).countP _ + _ ≤ 1
        rw [countP_append]
        exact honce
      · rintro ⟨r, hr, parked, hs⟩
        rcases mem_append.1 hr with hold | hnew
        · exact h.saved ⟨r, hold, parked, hs⟩
        · simp [mem_singleton.1 hnew] at hs
      · intro r hr
        rcases mem_append.1 hr with hold | hnew
        · exact h.agreed r hold
        · rw [mem_singleton.1 hnew]
          exact h.calls.current c hmem hsig
      · intro decision hdec
        obtain ⟨r, hr, rfl⟩ := h.continued decision hdec
        exact ⟨r, mem_append_left _ hr, rfl⟩
      · rcases mem_or_eq_of_mem_set hc' with hold | rfl
        · cases hsig' : c'.stage.signalling with
          | false => rfl
          | true =>
            rw [← hsig']
            exact h.calls.silent _ hk hsig (CallKind.signalling_returned c.kind)
              ⟨c', hold, hkind, hsig'⟩ c' hc'
        · exact CallKind.signalling_returned c.kind
    · exact h.setCall hk (by simp) fun heq => absurd heq c.kind.returned_ne_restoring
    next hsign =>
      exact h.setCall hk (fun _ => CallStage.signalling_of_signal hsign)
        CallKind.eq_deciding_of_raised
    · split
      next hs _ =>
        have hsig : c.stage.signalling = true := by rw [hs]; rfl
        have hkind := h.calls.restoring c hmem hs
        split
        · -- only a decision that was never dispatched is taken back
          have hnil : s.resumes = [] := by
            by_contra hne
            exact absurd hsig (by simp [h.calls.fixed hne c hmem hkind])
          have hset := h.calls.set .clearing hk nofun nofun
          have hsilent := h.calls.silent .clearing hk hsig rfl ⟨c, hmem, hkind, hsig⟩
          exact { h with
            agreed := fun r hr => absurd (hnil ▸ hr) (not_mem_nil)
            calls := { hset with
              current := fun c' hc' hsig' => absurd hsig' (by simp [hsilent c' hc']) } }
        · exact h.setCall hk nofun nofun
      · exact { h with calls := h.calls.set .ended hk nofun nofun }
      · exact h

/-- STEP LEMMA. -/
theorem World.Inv.step (h : s.Inv) (i : Input) : (s.step i).Inv := by
  cases i with
  | park ok => exact h.goOnPark ok
  | refusePark => exact h.refusePark
  | decide decision recorded => exact h.decide decision recorded
  | redispatch => exact h.redispatch
  | startup ok => exact h.startup ok
  | call k o => exact h.goOnCall k o
  | resume j ok =>
    show (s.goOnResume j ok).Inv
    unfold World.goOnResume
    split
    next r hr =>
      exact h.enact hr (ResumeStage.goOn_token _ _ _ _) fun parked hs => by
        rw [ResumeStage.goOn_deleting hs]
        rfl
    · exact h
  | cancel j landed =>
    show (s.cancelResume j landed).Inv
    unfold World.cancelResume
    split
    next r hr =>
      exact h.enact hr (ResumeStage.cancel_token _ _ _) fun parked hs =>
        (ResumeStage.cancel_deleting hs).elim
    · exact h

theorem World.Inv.start (taskless : Bool) : (World.start taskless).Inv where
  once := le_rfl
  saved := fun ⟨_, hr, _⟩ => nomatch hr
  agreed := nofun
  continued := nofun
  calls := ⟨nofun, fun ⟨_, hc, _⟩ => (nomatch hc), nofun,
    nofun⟩

-- ==== a way to the row is left

structure World.Kept (s : World) : Prop where
  way : s.moot = true ∨ s.item = none ∨ s.marker = true ∨ 0 < s.waiting ∨ 0 < s.signalling
  taken : s.moot = true →
    s.continued ≠ [] ∨ s.failed = true ∨ 0 < s.holding ∨ s.park.stopping = true

theorem World.way_of_spares {resumes calls : Nat} {marker : Bool}
    (h : s.spares resumes calls marker = true) :
    s.moot = true ∨ s.item = none ∨ (s.marker = true ∧ marker = false) ∨ resumes < s.waiting ∨
      calls < s.signalling := by
  simpa only [World.spares, Bool.or_eq_true, Bool.and_eq_true, Option.isNone_iff_eq_none,
    decide_eq_true_eq, Bool.not_eq_true', or_assoc] using h

/-- STEP LEMMA of a resume that leaves another way to what it does not take. -/
theorem World.Kept.enact (h : s.Kept) (hr : s.resumes[j]? = some r)
    (hdeletes : e.deletes = true → s.park.underway = false ∧
      (s.row = none ∨ e.stage.holding = true))
    (hwaiting : r.stage.waiting = true → e.stage.waiting = false → e.deletes = false →
      s.spares 1 0 false = true) (hholding : r.stage.holding = true →
      e.stage.holding = true ∨ e.continues = true ∨ e.fails = true) : (s.enact j r e).Kept := by
  have hwait : (s.enact j r e).waiting + r.stage.waiting.toNat =
      s.waiting + e.stage.waiting.toNat :=
    countP_set_add (fun r : Resume => r.stage.waiting) hr ⟨r.decision, e.stage⟩
  have hhold : (s.enact j r e).holding + r.stage.holding.toNat =
      s.holding + e.stage.holding.toNat :=
    countP_set_add (fun r : Resume => r.stage.holding) hr ⟨r.decision, e.stage⟩
  constructor
  · cases hd : e.deletes with
    | true =>
      left
      simp [World.moot, World.enact, hd, (hdeletes hd).1]
    | false =>
      have hmoot : (s.enact j r e).moot = s.moot := by simp [World.moot, World.enact, hd]
      rw [hmoot]
      show _ ∨ s.item = none ∨ s.marker = true ∨ _ ∨ 0 < s.signalling
      cases hw : r.stage.waiting with
      | false =>
        rw [hw, Bool.toNat_false] at hwait
        rcases h.way with hway | hway | hway | hway | hway
        · exact .inl hway
        · exact .inr (.inl hway)
        · exact .inr (.inr (.inl hway))
        · exact .inr (.inr (.inr (.inl (by omega))))
        · exact .inr (.inr (.inr (.inr hway)))
      | true =>
        cases hw' : e.stage.waiting with
        | true =>
          rw [hw'] at hwait
          exact .inr (.inr (.inr (.inl (by
            rw [hw, Bool.toNat_true] at hwait
            have := countP_pos_of_getElem? (p := fun r : Resume => r.stage.waiting) hr hw
            show 0 < (s.enact j r e).waiting
            have : 0 < s.waiting := this
            omega))))
        | false =>
          have hs := hwaiting hw hw' hd
          rw [hw, Bool.toNat_true] at hwait
          rcases World.way_of_spares hs with hmoot | hitem | hmark | hmore | hcalls
          · exact .inl hmoot
          · exact .inr (.inl hitem)
          · exact .inr (.inr (.inl hmark.1))
          · exact .inr (.inr (.inr (.inl (by omega))))
          · exact .inr (.inr (.inr (.inr hcalls)))
  · intro hmoot'
    cases hh : r.stage.holding with
    | true =>
      rcases hholding hh with hgoes | hc | hf
      · rw [hh, hgoes] at hhold
        have := countP_pos_of_getElem? (p := fun r : Resume => r.stage.holding) hr hh
        have : 0 < s.holding := this
        exact .inr (.inr (.inl (by omega)))
      · left
        simp [World.enact, hc]
      · right; left
        simp [World.enact, hf]
    | false =>
      rw [hh, Bool.toNat_false] at hhold
      have hnow : s.moot = true ∨ e.stage.holding = true := by
        cases hd : e.deletes with
        | true =>
          obtain ⟨hpark, hrow | hgoes⟩ := hdeletes hd
          · exact .inl (by simp [World.moot, hpark, hrow])
          · exact .inr hgoes
        | false => exact .inl (by simpa [World.moot, World.enact, hd] using hmoot')
      rcases hnow with hmoot | hgoes
      · rcases h.taken hmoot with hc | hfail | hholds | hstop
        · left
          simp only [World.enact]
          split
          · simp
          · exact hc
        · right; left
          simp [World.enact, hfail]
        · exact .inr (.inr (.inl (by omega)))
        · exact .inr (.inr (.inr hstop))
      · rw [hgoes, Bool.toNat_true] at hhold
        exact .inr (.inr (.inl (by omega)))

theorem World.Kept.goOnResume (hinv : s.Inv) (h : s.Kept)
    (hcare : s.careful (.resume j ok) = true) : (s.goOnResume j ok).Kept := by
  unfold World.goOnResume
  split
  next r hr =>
    have hsaved : ∀ parked, r.stage = .deleting parked → s.park.underway = false :=
      fun parked hs => hinv.saved ⟨r, mem_of_getElem? hr, parked, hs⟩
    simp only [World.careful, hr, Option.map_some] at hcare
    apply h.enact hr
    · cases hs : r.stage with
      | deleting parked =>
        intro hd
        refine ⟨hsaved parked hs, .inr ?_⟩
        simp only [ResumeStage.goOn] at hd ⊢
        split at hd
        next ht =>
          rw [if_pos ht]
          cases parked.hasInterrupt <;> rfl
        · cases hd
      | loading => cases ok <;> cases s.row <;> exact nofun
      | authorizing => cases ok <;> cases s.taskless <;> exact nofun
      | provisioning => cases ok <;> exact nofun
      | resolving | failing | running | ended => exact nofun
    · cases hs : r.stage with
      | loading =>
        cases hrow : s.row <;> cases ok <;> simp_all [ResumeStage.goOn, ResumeStage.waiting]
      | deleting parked =>
        cases hrow : s.row <;> cases ok <;> simp_all [ResumeStage.goOn]
      | authorizing | provisioning | resolving | failing | running | ended => exact nofun
    · cases hs : r.stage with
      | authorizing =>
        rw [hs] at hcare
        rw [show ok = true from hcare]
        intro _
        cases s.taskless
        · exact .inl rfl
        · exact .inr (.inl rfl)
      | provisioning =>
        intro _
        cases ok
        · exact .inl rfl
        · exact .inr (.inl rfl)
      | resolving => exact fun _ => .inl rfl
      | failing =>
        rw [hs] at hcare
        exact fun _ => .inr (.inr hcare)
      | loading | deleting parked | running | ended => exact nofun
  · exact h

theorem World.Kept.cancelResume (hinv : s.Inv) (h : s.Kept) {landed : Bool}
    (hcare : s.careful (.cancel j landed) = true) : (s.cancelResume j landed).Kept := by
  unfold World.cancelResume
  split
  next r hr =>
    simp only [World.careful, hr, Option.map_some] at hcare
    apply h.enact hr
    · cases hs : r.stage with
      | deleting parked =>
        intro hd
        rw [hs] at hcare
        simp only [ResumeStage.cancel] at hd
        simp only [hd, if_true, Option.isNone_iff_eq_none] at hcare
        exact ⟨hinv.saved ⟨r, mem_of_getElem? hr, parked, hs⟩, .inl hcare⟩
      | loading | authorizing | provisioning | resolving | failing | running | ended => exact nofun
    · cases hs : r.stage with
      | loading =>
        rw [hs] at hcare
        exact fun _ _ _ => hcare
      | deleting parked =>
        intro _ _ hd
        rw [hs] at hcare
        simp only [ResumeStage.cancel] at hd
        simpa [hd] using hcare
      | authorizing | provisioning | resolving | failing | running | ended => exact nofun
    · cases hs : r.stage with
      | failing =>
        rw [hs] at hcare
        exact fun _ => .inr (.inr hcare)
      | authorizing | provisioning | resolving => rw [hs] at hcare; cases hcare
      | loading | deleting parked | running | ended => exact nofun
  · exact h

/-- STEP LEMMA of a call: one that falls silent leaves another way. -/
theorem World.Kept.setCall (h : s.Kept) (hk : s.calls[k]? = some c)
    (hsilent : c.stage.signalling = true → stage.signalling = false →
      s.spares 0 1 false = true) : (s.setCall k c stage).Kept := by
  have hcnt : (s.setCall k c stage).signalling + c.stage.signalling.toNat =
      s.signalling + stage.signalling.toNat :=
    countP_set_add (fun c : Call => c.stage.signalling) hk { c with stage := stage }
  refine { h with way := ?_ }
  show s.moot = true ∨ s.item = none ∨ s.marker = true ∨ 0 < s.waiting ∨
    0 < (s.setCall k c stage).signalling
  cases hs : stage.signalling with
  | true =>
    have hpos : 0 < (s.setCall k c stage).signalling := by
      rw [hs, Bool.toNat_true] at hcnt
      have := Bool.toNat_le c.stage.signalling
      by_cases hzero : s.signalling = 0
      · cases hc : c.stage.signalling with
        | false => rw [hc, Bool.toNat_false] at hcnt; omega
        | true =>
          have : 0 < s.signalling :=
            countP_pos_of_getElem? (p := fun c : Call => c.stage.signalling) hk hc
          omega
      · omega
    exact .inr (.inr (.inr (.inr hpos)))
  | false =>
    cases hc : c.stage.signalling with
    | false =>
      rw [hc, Bool.toNat_false] at hcnt
      rcases h.way with hway | hway | hway | hway | hway
      · exact .inl hway
      · exact .inr (.inl hway)
      · exact .inr (.inr (.inl hway))
      · exact .inr (.inr (.inr (.inl hway)))
      · exact .inr (.inr (.inr (.inr (by omega))))
    | true =>
      rw [hc, Bool.toNat_true] at hcnt
      rcases World.way_of_spares (hsilent hc hs) with hway | hway | hway | hway | hway
      · exact .inl hway
      · exact .inr (.inl hway)
      · exact .inr (.inr (.inl hway.1))
      · exact .inr (.inr (.inr (.inl hway)))
      · exact .inr (.inr (.inr (.inr (by omega))))

theorem World.Kept.goOnCall (h : s.Kept) (hcare : s.careful (.call k o) = true) :
    (s.goOnCall k o).Kept := by
  unfold World.goOnCall
  split
  · exact h
  next c hk =>
    simp only [World.careful, hk] at hcare
    split
    next hsign =>
      have hsig := (CallStage.signalling_of_goesOn hsign).1
      exact h.setCall hk fun _ hnot => absurd hsig (by simp [hnot])
    · -- the new resume is the way
      refine { h with way := .inr (.inr (.inr (.inl ?_))), taken := fun hmoot => ?_ }
      · show 0 < (s.resumes ++ [_]).countP fun r : Resume => r.stage.waiting
        rw [countP_append]
        exact Nat.lt_of_lt_of_le Nat.zero_lt_one (Nat.le_add_left _ _)
      · rcases h.taken hmoot with hc | hfail | hh | hstop
        · exact .inl hc
        · exact .inr (.inl hfail)
        · refine .inr (.inr (.inl ?_))
          show 0 < (s.resumes ++ [_]).countP fun r : Resume => r.stage.holding
          rw [countP_append]
          exact Nat.lt_of_lt_of_le hh (Nat.le_add_right _ _)
        · exact .inr (.inr (.inr hstop))
    next hsign =>
      rw [hsign] at hcare
      exact h.setCall hk fun _ _ => hcare
    next hsign =>
      rw [hsign] at hcare
      refine h.setCall hk fun _ hnot => ?_
      rcases Bool.or_eq_true_iff.1 hcare with hkind | hspares
      · rw [of_decide_eq_true hkind] at hnot
        cases hnot
      · exact hspares
    next hnone =>
      rw [hnone] at hcare
      split
      next ok hs =>
        split
        · exact { h with way := .inr (.inl rfl) }
        next hok =>
          rw [hs] at hcare
          exact h.setCall hk fun _ _ => by simpa [hok] using hcare
      next ok hs =>
        have hkept : (s.setCall k c .ended).Kept := h.setCall hk fun hsig _ => by
          rw [hs] at hsig
          cases hsig
        cases ok with
        | false => exact hkept
        | true =>
          rw [hs] at hcare
          have hcnt : (s.setCall k c .ended).signalling + c.stage.signalling.toNat =
              s.signalling + 0 :=
            countP_set_add (fun c : Call => c.stage.signalling) hk
              { c with stage := .ended }
          rw [hs] at hcnt
          refine { hkept with way := ?_ }
          rcases World.way_of_spares hcare with hway | hway | hway | hway | hway
          · exact .inl hway
          · exact .inr (.inl hway)
          · cases hway.2
          · exact .inr (.inr (.inr (.inl hway)))
          · refine .inr (.inr (.inr (.inr ?_)))
            show 0 < (s.setCall k c .ended).signalling
            simp only [CallStage.signalling, Bool.toNat_false] at hcnt
            omega
      · exact h

theorem World.Kept.goOnPark (h : s.Kept) (hcare : s.careful (.park ok) = true) :
    (s.goOnPark ok).Kept := by
  have hway := h.way
  have ht := h.taken
  unfold World.goOnPark
  cases hpark : s.park with
  | creating =>
    have hmoot : s.moot = false := by simp [World.moot, hpark, ParkStage.underway]
    rw [hmoot] at hway
    cases ok
    all_goals exact
      { way := .inr (hway.resolve_left nofun)
        taken := fun hmoot' => absurd hmoot' (by simp [World.moot, ParkStage.underway]) }
  | publishing =>
    have hmoot : s.moot = false := by simp [World.moot, hpark, ParkStage.underway]
    rw [hmoot] at hway
    exact
      { way := .inr (hway.resolve_left nofun)
        taken := fun hmoot' => absurd hmoot' (by simp [World.moot, ParkStage.underway]) }
  | saving hasInterrupt =>
    have hmoot : s.moot = false := by simp [World.moot, hpark, ParkStage.underway]
    rw [hmoot] at hway
    cases ok with
    | true =>
      exact
        { way := .inr (hway.resolve_left nofun)
          taken := fun hmoot' => absurd hmoot' (by simp [World.moot]) }
    | false =>
      exact
        { way := .inr (hway.resolve_left nofun)
          taken := fun _ => .inr (.inr (.inr (by cases hasInterrupt <;> rfl))) }
  | notifying =>
    rw [World.moot, hpark] at hway ht
    refine { way := hway, taken := fun hmoot' => ?_ }
    rcases ht hmoot' with hc | hfail | hh | hstop
    · exact .inl hc
    · exact .inr (.inl hfail)
    · exact .inr (.inr (.inl hh))
    · exact absurd hstop nofun
  | compensating =>
    rw [World.moot, hpark] at hway
    exact { way := hway, taken := fun _ => .inr (.inr (.inr rfl)) }
  | recovering =>
    rw [World.moot, hpark] at hway
    refine { way := hway, taken := fun _ => .inr (.inl ?_) }
    simp only [World.careful, hpark] at hcare
    simpa using Or.inr hcare
  | parked | stopped => exact h

theorem World.Kept.refusePark (h : s.Kept) : s.refusePark.Kept := by
  unfold World.refusePark
  split
  next hpark =>
    have hmoot : s.moot = false := by simp [World.moot, hpark, ParkStage.underway]
    have hway := h.way
    rw [hmoot] at hway
    exact
      { way := .inr (hway.resolve_left nofun)
        taken := fun _ => .inr (.inr (.inr rfl)) }
  · exact h

theorem World.signalling_append (s : World) (kind : CallKind) (decision : Decision) :
    0 < (s.calls ++ [(⟨kind, decision, .routing⟩ : Call)]).countP fun c => c.stage.signalling := by
  rw [countP_append]
  exact Nat.lt_of_lt_of_le Nat.zero_lt_one (Nat.le_add_left _ _)

/-- STEP LEMMA. -/
theorem World.Kept.step (hinv : s.Inv) (h : s.Kept) (hcare : s.careful i = true) :
    (s.step i).Kept := by
  cases i with
  | park ok => exact h.goOnPark hcare
  | refusePark => exact h.refusePark
  | decide decision recorded =>
    show (s.decide decision recorded).Kept
    unfold World.decide
    split
    · exact { h with way := .inr (.inr (.inr (.inr (s.signalling_append _ _)))) }
    · exact h
  | redispatch =>
    show s.redispatch.Kept
    unfold World.redispatch
    split
    · split
      · exact h
      · exact { h with way := .inr (.inr (.inr (.inr (s.signalling_append _ _)))) }
    · exact h
  | startup ok =>
    show (s.startup ok).Kept
    unfold World.startup
    split
    · split
      · exact { h with way := .inr (.inr (.inr (.inr (s.signalling_append _ _)))) }
      next hitem => exact { h with way := .inr (.inl hitem) }
    · exact h
  | call k o => exact h.goOnCall hcare
  | resume j ok => exact h.goOnResume hinv hcare
  | cancel j landed => exact h.cancelResume hinv hcare

theorem World.Kept.start (taskless : Bool) : (World.start taskless).Kept where
  way := .inr (.inl rfl)
  taken := nofun

-- ==== afterwards

theorem World.LaterResumed.of_step (hi : i ≠ .redispatch) (h : (s.step i).LaterResumed) :
    s.LaterResumed := by
  obtain ⟨inputs, hcode, hc⟩ := h
  refine ⟨i :: inputs, ?_, hc⟩
  rw [forall_mem_cons]
  exact ⟨hi, hcode⟩

theorem World.getElem?_enact (hr : s.resumes[j]? = some r) (e : ResumeEffect) :
    (s.enact j r e).resumes[j]? = some ⟨r.decision, e.stage⟩ := by
  obtain ⟨hj, -⟩ := List.getElem?_eq_some_iff.1 hr
  exact getElem?_set_self hj

theorem World.step_resume (hr : s.resumes[j]? = some r) :
    s.step (.resume j ok) = s.enact j r (r.stage.goOn s.taskless s.row ok) := by
  show s.goOnResume j ok = _
  simp only [World.goOnResume, hr]

theorem World.later_of_provisioning (j : Nat) (decision : Decision)
    (hr : s.resumes[j]? = some ⟨decision, .provisioning⟩) : s.LaterResumed := by
  refine ⟨[.resume j true], by simp, ?_⟩
  rw [Run.final_cons, World.step_resume hr]
  simp [World.enact, ResumeStage.goOn]

theorem World.later_of_authorizing (j : Nat) (decision : Decision)
    (hr : s.resumes[j]? = some ⟨decision, .authorizing⟩) : s.LaterResumed := by
  cases htask : s.taskless with
  | true =>
    refine ⟨[.resume j true], by simp, ?_⟩
    rw [Run.final_cons, World.step_resume hr]
    simp [World.enact, ResumeStage.goOn, htask]
  | false =>
    apply World.LaterResumed.of_step (i := .resume j true) nofun
    apply World.later_of_provisioning j decision
    rw [World.step_resume hr, World.getElem?_enact hr]
    simp [ResumeStage.goOn, htask]

theorem World.later_of_deleting (j : Nat) (decision : Decision) (parked : ParkedContext)
    (hr : s.resumes[j]? = some ⟨decision, .deleting parked⟩) (hrow : s.row.isSome = true) :
    s.LaterResumed := by
  have hnext := World.getElem?_enact hr ((ResumeStage.deleting parked).goOn s.taskless s.row true)
  apply World.LaterResumed.of_step (i := .resume j true) nofun
  rw [World.step_resume hr]
  cases hint : parked.hasInterrupt with
  | false =>
    apply World.later_of_authorizing j decision
    rw [hnext]
    simp [ResumeStage.goOn, hrow, hint]
  | true =>
    have hresolving : (s.enact j ⟨decision, .deleting parked⟩
        ((ResumeStage.deleting parked).goOn s.taskless s.row true)).resumes[j]? =
        some ⟨decision, .resolving⟩ := by
      rw [hnext]
      simp [ResumeStage.goOn, hrow, hint]
    apply World.LaterResumed.of_step (i := .resume j true) nofun
    apply World.later_of_authorizing j decision
    rw [World.step_resume hresolving, World.getElem?_enact hresolving]
    rfl

theorem World.later_of_loading (j : Nat) (decision : Decision)
    (hr : s.resumes[j]? = some ⟨decision, .loading⟩) (hrow : s.row.isSome = true) :
    s.LaterResumed := by
  obtain ⟨parked, hp⟩ := Option.isSome_iff_exists.1 hrow
  apply World.LaterResumed.of_step (i := .resume j true) nofun
  rw [World.step_resume hr]
  apply World.later_of_deleting j decision parked
  · rw [World.getElem?_enact hr]
    simp [ResumeStage.goOn, hp]
  · simp [World.enact, ResumeStage.goOn, hp]

theorem World.later_of_routing (hk : s.calls[k]? = some c) (hs : c.stage = .routing)
    (hrow : s.row.isSome = true) : s.LaterResumed := by
  obtain ⟨hlt, -⟩ := List.getElem?_eq_some_iff.1 hk
  have hf : s.step (.call k .unclaimed) = s.setCall k c .rereading := by
    show s.goOnCall k .unclaimed = _
    simp only [World.goOnCall, hk, hs, CallStage.signal]
  have hk' : (s.setCall k c .rereading).calls[k]? = some { c with stage := .rereading } :=
    getElem?_set_self hlt
  apply World.LaterResumed.of_step (i := .call k .unclaimed) nofun
  rw [hf]
  apply World.LaterResumed.of_step (i := .call k (.found .spawned)) nofun
  apply World.later_of_loading s.resumes.length c.decision
  · show ((s.setCall k c .rereading).goOnCall k (.found .spawned)).resumes[s.resumes.length]? = _
    simp only [World.goOnCall, hk']
    exact getElem?_concat_length
  · show ((s.setCall k c .rereading).goOnCall k (.found .spawned)).row.isSome = true
    simp only [World.goOnCall, hk']
    exact hrow

theorem World.later_of_quiet (hqt : s.Quiet) (hrow : s.row.isSome = true)
    (hway : s.item = none ∨ s.marker = true) : s.LaterResumed := by
  cases hitem : s.item with
  | none =>
    have hopen : (s.calls.all fun c => c.kind ≠ .draining || c.stage = .ended) = true :=
      all_eq_true.2 fun c hc => by simp [hqt.2.1 c hc]
    have hstep : s.step (.decide ⟨true, "", none⟩ true) = _ := if_pos ⟨hitem, hopen⟩
    apply World.LaterResumed.of_step (i := .decide ⟨true, "", none⟩ true) nofun
    rw [hstep]
    exact World.later_of_routing (k := s.calls.length) getElem?_concat_length rfl hrow
  | some decision =>
    have hmark := hway.resolve_left (by simp [hitem])
    have hstep : s.step (.startup true) =
        { s with calls := s.calls ++ [⟨.draining, decision, .routing⟩] } := by
      show s.startup true = _
      rw [World.startup, if_pos ⟨hqt, hmark, rfl⟩, hitem]
    apply World.LaterResumed.of_step (i := .startup true) nofun
    rw [hstep]
    exact World.later_of_routing (k := s.calls.length) getElem?_concat_length rfl hrow

theorem World.Kept.settled (hinv : s.Inv) (h : s.Kept) (hqt : s.Quiet) : s.Settled := by
  obtain ⟨hpark, hcalls, hres⟩ := hqt
  have hu : s.park.underway = false := by
    cases hp : s.park <;> first | rfl | (rw [hp] at hpark; cases hpark)
  have hstop : s.park.stopping = false := by
    cases hp : s.park <;> first | rfl | (rw [hp] at hpark; cases hpark)
  cases hmoot : s.moot with
  | true =>
    rcases h.taken hmoot with hcontinued | hfail | hh | hs
    · left
      obtain ⟨decision, hone⟩ : ∃ decision, s.continued = [decision] := by
        have honce := hinv.once
        cases hlist : s.continued with
        | nil => exact absurd hlist hcontinued
        | cons decision rest =>
          rw [hlist, length_cons] at honce
          have hnil : rest = [] := eq_nil_of_length_eq_zero (by omega)
          exact ⟨decision, by rw [hnil]⟩
      obtain ⟨r, hr, hdec⟩ := hinv.continued decision (by simp [hone])
      exact ⟨decision, hdec ▸ hinv.agreed r hr, hone⟩
    · exact .inr (.inr hfail)
    · obtain ⟨r, hr, hhold⟩ := countP_pos_iff.1 hh
      rw [hres r hr] at hhold
      cases hhold
    · rw [hstop] at hs
      cases hs
  | false =>
    right; left
    have hrow : s.row.isSome = true := by
      cases hrow : s.row with
      | some parked => rfl
      | none => simp [World.moot, hrow, hu] at hmoot
    refine ⟨hrow, World.later_of_quiet ⟨hpark, hcalls, hres⟩ hrow ?_⟩
    rcases h.way with hway | hway | hway | hway | hway
    · rw [hmoot] at hway
      cases hway
    · exact .inl hway
    · exact .inr hway
    · obtain ⟨r, hr, hwait⟩ := countP_pos_iff.1 hway
      rw [hres r hr] at hwait
      cases hwait
    · obtain ⟨c, hc, hsig⟩ := countP_pos_iff.1 hway
      rw [hcalls c hc] at hsig
      cases hsig

/-- In every run the context is handed to one continued run at most, and a run of careful steps
leaves nothing behind. -/
theorem World.resumed_once (taskless : Bool) (inputs : List Input) :
    (∀ s ∈ Run.states World.step (World.start taskless) inputs, s.continued.length ≤ 1) ∧
      (Run.Throughout World.step (fun s i => s.careful i = true) (World.start taskless) inputs →
        ∀ s ∈ Run.states World.step (World.start taskless) inputs, s.Quiet → s.Settled) := by
  constructor
  · intro s hs
    obtain ⟨xs, ys, -, rfl⟩ := (Run.mem_states_iff _ _ _ _).1 hs
    have hinv := Run.kept (P := World.Inv) (fun _ i h => h.step i) (World.Inv.start taskless) xs
    have honce := hinv.once
    omega
  · intro hcare s hs hquiet
    obtain ⟨hinv, hkept⟩ := Run.throughout_states (P := fun s => s.Inv ∧ s.Kept)
      (fun _ i hi h => ⟨h.1.step i, h.2.step h.1 hi⟩) hcare
      ⟨World.Inv.start taskless, World.Kept.start taskless⟩ s hs
    exact hkept.settled hinv hquiet

def approved : List Input :=
  [.park true, .park true, .park true, .decide ⟨true, "operator", none⟩ true,
    .call 0 .unclaimed, .call 0 (.found .spawned), .resume 0 true, .call 0 (.cleared true),
    .resume 0 true, .park true, .resume 0 true, .resume 0 true, .resume 0 true, .resume 0 true]

theorem World.resumed_once_approved : (Run.final World.step (World.start false) approved).Settled :=
  (World.resumed_once false approved).2
    ⟨rfl, rfl, rfl, rfl, rfl, rfl, rfl, rfl, rfl, rfl, rfl, rfl, rfl, rfl, trivial⟩ _
    (Run.final_mem_states _ _ _) (by decide)

-- ==== left behind

theorem World.step_stranded (hqt : s.Quiet) (hitem : s.item ≠ none) (hmark : s.marker = false)
    (hi : i ≠ .redispatch) : s.step i = s := by
  obtain ⟨hpark, hc, hres⟩ := hqt
  have hends : ∀ {j : Nat} {r : Resume} {e : ResumeEffect}, s.resumes[j]? = some r →
      e = { stage := .ended } → s.enact j r e = s := by
    intro j r e hr he
    have hset : s.resumes.set j ⟨r.decision, .ended⟩ = s.resumes := by
      obtain ⟨hj, hget⟩ := List.getElem?_eq_some_iff.1 hr
      rw [← hres r (mem_of_getElem? hr), ← hget]
      exact set_getElem_self hj
    simp [World.enact, he, hset]
  cases i with
  | park ok =>
    show s.goOnPark ok = s
    unfold World.goOnPark
    cases hp : s.park with
    | parked | stopped => rfl
    | _ => rw [hp] at hpark; cases hpark
  | refusePark => exact if_neg fun hp => by rw [hp] at hpark; cases hpark
  | decide decision recorded => exact if_neg fun hopen => hitem hopen.1
  | redispatch => exact absurd rfl hi
  | startup ok => exact if_neg fun hopen => by rw [hmark] at hopen; cases hopen.2.1
  | call k o =>
    show s.goOnCall k o = s
    unfold World.goOnCall
    split
    · rfl
    next c hk =>
      rw [hc c (mem_of_getElem? hk)]
      cases o <;> rfl
  | resume j ok =>
    show s.goOnResume j ok = s
    unfold World.goOnResume
    split
    next r hr => exact hends hr (by rw [hres r (mem_of_getElem? hr)]; rfl)
    · rfl
  | cancel j landed =>
    show s.cancelResume j landed = s
    unfold World.cancelResume
    split
    next r hr => exact hends hr (by rw [hres r (mem_of_getElem? hr)]; rfl)
    · rfl

theorem World.not_later (hqt : s.Quiet) (hitem : s.item ≠ none) (hmark : s.marker = false)
    (hc : s.continued = []) : ¬ s.LaterResumed := by
  rintro ⟨inputs, hcode, hl⟩
  apply hl
  have hs : Run.final World.step s inputs = s := by
    induction inputs with
    | nil => rfl
    | cons i rest ih =>
      rw [forall_mem_cons] at hcode
      rw [Run.final_cons, World.step_stranded hqt hitem hmark hcode.1] at hl ⊢
      exact ih hcode.2 hl
  rw [hs, hc]

/-- The decision is dispatched while the park has still to save. -/
def decidedEarly : List Input :=
  [.park true, .decide ⟨true, "operator", none⟩ true, .call 0 .unclaimed,
    .call 0 (.found .spawned), .resume 0 true, .call 0 (.cleared true), .park true, .park true,
    .park true]

def cancelledAfterDelete : List Input :=
  [.park true, .park true, .park true, .park true, .decide ⟨true, "operator", none⟩ true,
    .call 0 .unclaimed, .call 0 (.found .spawned), .call 0 (.cleared true), .resume 0 true,
    .resume 0 true, .cancel 0 false]

/-- The decision stands and nothing is under way; one row is stored for good, one is gone
without a trace. -/
theorem World.left_behind : (let s := Run.final World.step (World.start false) decidedEarly;
      s.Quiet ∧ s.item.isSome ∧ s.row.isSome ∧ ¬ s.Settled) ∧
    (let s := Run.final World.step (World.start false) cancelledAfterDelete;
      s.Quiet ∧ s.item.isSome ∧ s.row = none ∧ ¬ s.Settled) := by
  refine ⟨⟨by decide, rfl, rfl, ?_⟩, ⟨by decide, rfl, rfl, ?_⟩⟩
  · rintro (⟨decision, -, hc⟩ | ⟨-, hlater⟩ | hfailed)
    · cases hc
    · exact World.not_later (by decide) (by decide) rfl rfl hlater
    · cases hfailed
  · rintro (⟨decision, -, hc⟩ | ⟨hrow, -⟩ | hfailed)
    · cases hc
    · cases hrow
    · cases hfailed

end Synthorg.Parking
