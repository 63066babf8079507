/-
Who works for a session, and what is known of a dead one.

For each session there is one baton: a call that works for it, or an unused refresh token.

A dead session is known to be dead, from the set in memory, or it is forgotten:
its access tokens are expired, its refresh tokens are spent or expired, and
nobody works for it.
-/
import Synthorg.Auth.Sessions

namespace Synthorg.Auth

open Lib

section
open List

-- ==== who works for whom

def Next.grant? : Next → Option Grant
  | .cookies grant => some grant
  | _ => none

def After.grant? : After → Option Grant
  | .revoke _ next => next.grant?
  | .limit grant | .cookies grant => some grant

/-- The grant of a call whose session row is written. -/
def Stage.kept? : Stage → Option Grant
  | .limiting grant | .creatingRefresh grant _ => some grant
  | .revoking _ _ next => next.grant?
  | .committed after => after.grant?
  | _ => none

def Stage.grant? : Stage → Option Grant
  | .savingSession grant _ _ _ => some grant
  | stage => stage.kept?

def Stage.session? : Stage → Option Nat
  | .loadingUser _ (.refresh session _) => some session
  | stage => stage.grant?.map fun grant => grant.token.jti

namespace Sessions

variable {config : SessionConfig} {digest : String → String} {strict : Prop}
  {s : Sessions} {n : Nat}

def Covered (s : Sessions) (grant : Grant) : Prop :=
  match s.rows grant.token.jti with
  | none => grant.token.exp ≤ s.clock
  | some row => grant.token.exp ≤ row.expiresAt

/-- Nothing of a session is good any more. -/
def Forgotten (s : Sessions) (session : Nat) : Prop :=
  (∀ grant ∈ s.issued, grant.token.jti = session → grant.token.exp ≤ s.clock) ∧
    (∀ token row, s.refreshRows token = some row → row.session = session → row.used = false →
      row.expiresAt ≤ s.clock ∧ ∀ n now, s.calls n = .consuming token now → row.expiresAt ≤ now) ∧
      (s.rows session = none ∨ ∀ n, (s.calls n).session? ≠ some session)

/-- THE INVARIANT. What requests got past is part of it when their steps are
asked for care, too. -/
structure Inv (config : SessionConfig) (strict : Prop) (s : Sessions) : Prop where
  -- what was not drawn yet
  freshRow : ∀ j, s.sessionsDrawn ≤ j → s.rows j = none
  freshCall : ∀ j, s.sessionsDrawn ≤ j → ∀ n, (s.calls n).session? ≠ some j
  freshIssued : ∀ j, s.sessionsDrawn ≤ j → ∀ grant ∈ s.issued, grant.token.jti ≠ j
  freshDead : ∀ j, s.sessionsDrawn ≤ j → s.dead j = false
  freshToken : ∀ h, s.tokensDrawn ≤ h → s.refreshRows h = none ∧ h ∉ s.rotations
  -- the baton
  alone : ∀ n m j, (s.calls n).session? = some j → (s.calls m).session? = some j → n = m
  spent : ∀ n j h row, (s.calls n).session? = some j → s.refreshRows h = some row →
    row.session = j → row.used = true
  single : ∀ h i row other, s.refreshRows h = some row → s.refreshRows i = some other →
    row.session = other.session → row.used = false → other.used = false → h = i
  owned : ∀ h row, s.refreshRows h = some row → s.rows row.session ≠ none
  rotatedOnce : s.rotations.Nodup
  rotated : ∀ h ∈ s.rotations, ∀ row, s.refreshRows h = some row → row.used = true
  -- the rows outlive the tokens
  issuedCovered : ∀ grant ∈ s.issued, s.Covered grant
  keptCovered : ∀ n grant, (s.calls n).kept? = some grant → s.Covered grant
  saving : ∀ n grant now expiresAt limited, s.calls n = .savingSession grant now expiresAt limited →
    grant.token.exp ≤ expiresAt ∧
      ∀ other ∈ s.issued, other.token.jti = grant.token.jti → other.token.exp ≤ expiresAt
  issuedMax : ∀ grant ∈ s.issued, grant.token.exp ≤ s.clock + config.expirySeconds
  grantMax : ∀ n grant, (s.calls n).grant? = some grant →
    grant.token.exp ≤ s.clock + config.expirySeconds
  cleaning : ∀ n now, s.calls n = .cleaningSessions now → now ≤ s.clock
  -- the dead
  deadRow : ∀ j row, s.dead j = true → s.rows j = some row → row.revoked = true
  deadKnown : ∀ j, s.dead j = true → s.revoked j = true ∨
    (∃ js m, s.pending = some (.add js, m) ∧ j ∈ js) ∨ s.Forgotten j
  discarding : ∀ js m, s.pending = some (.discard js, m) → ∀ j ∈ js, s.dead j = true → s.Forgotten j
  deadStart : ∀ n j, s.deadAtStart n j = true → s.dead j = true
  late : ∀ n j, (s.calls n).session? = some j → s.deadAtStart n j = false
  passedAlive : strict → ∀ entry ∈ s.passed, entry.2 = false
  returnedAlive : ∀ entry ∈ s.returned, entry.2 = false

-- ==== the calls

variable {stage : Stage} {grant : Grant} {t : Sessions} {j userId : Nat} {user : User}
  {limited : Bool} {expiresAt now : Int}

theorem kept_grant (hkept : stage.kept? = some grant) : stage.grant? = some grant := by
  cases stage <;> first | exact hkept | cases hkept

theorem grant_session (hg : stage.grant? = some grant) :
    stage.session? = some grant.token.jti := by
  cases stage with
  | loadingUser userId purpose => cases hg
  | _ => simp [Stage.session?, hg]

structure Calmer (s t : Sessions) : Prop where
  session : ∀ m j, (t.calls m).session? = some j → (s.calls m).session? = some j
  kept : ∀ m grant, (t.calls m).kept? = some grant → (s.calls m).kept? = some grant
  grant : ∀ m grant, (t.calls m).grant? = some grant → (s.calls m).grant? = some grant
  saving : ∀ m grant now expiresAt limited, t.calls m = .savingSession grant now expiresAt limited →
    s.calls m = .savingSession grant now expiresAt limited
  consuming : ∀ m token now, t.calls m = .consuming token now → s.calls m = .consuming token now
  cleaning : ∀ m now, t.calls m = .cleaningSessions now → s.calls m = .cleaningSessions now

def Timed : Stage → Prop
  | .consuming _ _ | .cleaningSessions _ => True
  | _ => False

/-- A call goes on to a stage in which it holds what it held, or nothing. -/
structure Quiet (before after : Stage) : Prop where
  session : ∀ j, after.session? = some j → before.session? = some j
  kept : ∀ grant, after.kept? = some grant → before.kept? = some grant
  grant : ∀ grant, after.grant? = some grant → before.grant? = some grant
  saving : ∀ grant now expiresAt limited, after ≠ .savingSession grant now expiresAt limited
  untimed : ¬ Timed after

theorem Quiet.of_none {before after : Stage} (hs : after.session? = none)
    (hunt : ¬ Timed after) : Quiet before after where
  session := fun j hj => by
    simp [hs] at hj
  kept := fun grant hkept => by
    simp [grant_session (kept_grant hkept)] at hs
  grant := fun grant hg => by
    simp [grant_session hg] at hs
  saving := fun grant now expiresAt limited heq => by
    rw [heq] at hs
    cases hs
  untimed := hunt

theorem Quiet.of_kept {before after : Stage} (hkept : after.kept? = before.kept?)
    (hs : after.session? = after.kept?.map fun grant => grant.token.jti)
    (hg : after.grant? = after.kept?)
    (hunt : ¬ Timed after) : Quiet before after where
  session := fun j hj => by
    rw [hs, hkept] at hj
    cases hb : before.kept? with
    | none => simp [hb] at hj
    | some grant =>
      rw [hb] at hj
      cases hj
      exact grant_session (kept_grant hb)
  kept := fun grant h => hkept ▸ h
  grant := fun grant h => kept_grant (by rw [← hkept, ← hg, h])
  saving := fun grant now expiresAt limited heq => by
    rw [heq] at hg
    cases hg
  untimed := hunt

theorem calls_setCall (stage : Stage) (m : Nat) :
    (s.setCall n stage).calls m = if m = n then stage else s.calls m := by
  simp [setCall, Function.update_apply]

theorem Quiet.calmer (h : Quiet (s.calls n) stage)
    (hc : t.calls = Function.update s.calls n stage) : s.Calmer t := by
  have hat : ∀ m, t.calls m = if m = n then stage else s.calls m := fun m => by
    rw [hc, Function.update_apply]
  refine ⟨fun m j => ?_, fun m grant => ?_, fun m grant => ?_,
    fun m grant now expiresAt limited => ?_,
    fun m token now => ?_, fun m now => ?_⟩
  all_goals
    rw [hat m]
    by_cases hm : m = n
    · subst hm
      rw [if_pos rfl]
      first
        | exact h.session j
        | exact h.kept grant
        | exact h.grant grant
        | exact fun heq => absurd heq (h.saving grant now expiresAt limited)
        | exact fun heq => absurd (show Timed stage by rw [heq]; trivial) h.untimed
    · rw [if_neg hm]
      exact id

-- ==== the forgotten

theorem Forgotten.mono (h : s.Forgotten j) (hiss : ∀ grant ∈ t.issued,
      grant.token.jti = j → grant ∈ s.issued ∨ grant.token.exp ≤ t.clock)
      (hclock : s.clock ≤ t.clock)
    (hr : ∀ token row, t.refreshRows token = some row → row.session = j → row.used = false →
      s.refreshRows token = some row) (hcons : ∀ m token now, t.calls m = .consuming token now →
      s.calls m = .consuming token now ∨ s.clock ≤ now) (hrows : s.rows j = none → t.rows j = none)
    (hc : ∀ m, (t.calls m).session? = some j → (s.calls m).session? = some j) :
    t.Forgotten j := by
  obtain ⟨hexpired, hs, hleft⟩ := h
  refine ⟨fun grant hg hj => ?_, fun token row hrow hj hused => ?_,
    hleft.imp hrows fun hnone m hm => hnone m (hc m hm)⟩
  · rcases hiss grant hg hj with hold | hnew
    · exact (hexpired grant hold hj).trans hclock
    · exact hnew
  · obtain ⟨hexpired, hc⟩ := hs token row (hr token row hrow hj hused) hj hused
    refine ⟨hexpired.trans hclock, fun m now hm => ?_⟩
    rcases hcons m token now hm with hold | hle
    · exact hc m now hold
    · exact hexpired.trans hle

theorem Forgotten.calmer (h : s.Forgotten j) (hc : s.Calmer t) (hiss : t.issued = s.issued)
    (hclock : t.clock = s.clock) (hr : t.refreshRows = s.refreshRows)
    (hrows : t.rows = s.rows) : t.Forgotten j :=
  h.mono (fun _ hg _ => .inl (hiss ▸ hg)) hclock.ge (fun _ _ hrow _ _ => hr ▸ hrow)
    (fun m token now hm => .inl (hc.consuming m token now hm)) (fun hnone => hrows ▸ hnone)
      fun m hm => hc.session m j hm

theorem Inv.forgotten (h : s.Inv config strict) (hdead : s.dead j = true)
    (hrev : s.revoked j = false) (hp : s.pending = none) : s.Forgotten j := by
  rcases h.deadKnown j hdead with hk | ⟨_, _, hsome, _⟩ | hf
  · simp [hrev] at hk
  · simp [hp] at hsome
  · exact hf

-- ==== calls go on

theorem Inv.calmer (h : s.Inv config strict) (hc : s.Calmer t)
    (ht : t = { s with calls := t.calls }) : t.Inv config strict := by
  have hf : ∀ j, s.Forgotten j → t.Forgotten j := fun j hj =>
    hj.calmer hc (by rw [ht]) (by rw [ht]) (by rw [ht]) (by rw [ht])
  generalize t.calls = calls at hc ht
  subst ht
  exact { h with
    freshCall := fun j hj m hm => h.freshCall j hj m (hc.session m j hm)
    alone := fun m i j hm hi => h.alone m i j (hc.session m j hm) (hc.session i j hi)
    spent := fun m j token row hm => h.spent m j token row (hc.session m j hm)
    keptCovered := fun m grant hm => h.keptCovered m grant (hc.kept m grant hm)
    saving := fun m grant now expiresAt limited hm =>
      h.saving m grant now expiresAt limited (hc.saving m grant now expiresAt limited hm)
    grantMax := fun m grant hm => h.grantMax m grant (hc.grant m grant hm)
    cleaning := fun m now hm => h.cleaning m now (hc.cleaning m now hm)
    deadKnown := fun j hj => (h.deadKnown j hj).imp_right (Or.imp_right (hf j))
    discarding := fun js m hm j hj hdead => hf j (h.discarding js m hm j hj hdead)
    late := fun m j hm => h.late m j (hc.session m j hm) }

theorem Inv.setCall (h : s.Inv config strict) (hqt : Quiet (s.calls n) stage) :
    (s.setCall n stage).Inv config strict :=
  h.calmer (hqt.calmer rfl) rfl

theorem wholeSeconds_le (t : Int) : wholeSeconds t ≤ t := by
  unfold wholeSeconds
  omega

section
variable (h : s.Inv config strict)
include h

theorem Inv.createToken {drawn : Nat} {origin : Option Nat}
    (hd : s.sessionsDrawn ≤ drawn) (hlt : j < drawn)
    (hw : (s.calls n).session? = some j ∨ s.sessionsDrawn ≤ j) :
    ({ s with sessionsDrawn := drawn }.createToken config digest n userId user j origin
      limited).Inv config strict := by
  set expiresAt := s.clock + config.expirySeconds with hexpires
  set grant : Grant := ⟨⟨j, userId, wholeSeconds expiresAt, digest user.passwordHash⟩,
    user.passwordHash, origin⟩ with hgrant
  obtain ⟨calls, hc⟩ : ∃ calls, calls =
      Function.update s.calls n (.savingSession grant s.clock expiresAt limited) := ⟨_, rfl⟩
  show Inv config strict { s with
    sessionsDrawn := drawn
    calls := Function.update s.calls n (.savingSession grant s.clock expiresAt limited) }
  rw [← hc]
  have hself : calls n = .savingSession grant s.clock expiresAt limited := by simp [hc]
  have ho : ∀ m, m ≠ n → calls m = s.calls m := fun m hm => by simp [hc, hm]
  -- who works for which session: as before, but for `n`
  have hs : ∀ m i, (calls m).session? = some i →
      m = n ∧ i = j ∨ m ≠ n ∧ (s.calls m).session? = some i := by
    intro m i hm
    by_cases hmn : m = n
    · subst hmn
      rw [hself] at hm
      cases hm
      exact .inl ⟨rfl, rfl⟩
    · exact .inr ⟨hmn, ho m hmn ▸ hm⟩
  have ha : ∀ m, (s.calls m).session? = some j → m = n := by
    intro m hm
    rcases hw with hn | hf
    · exact h.alone m n j hm hn
    · exact absurd hm (h.freshCall j hf m)
  have he : grant.token.exp ≤ expiresAt := wholeSeconds_le expiresAt
  have hforgotten : ∀ i, s.dead i = true → s.Forgotten i →
      Forgotten { s with sessionsDrawn := drawn, calls := calls } i := by
    intro i hi hold
    refine hold.mono (fun _ hg _ => .inl hg) le_rfl (fun _ _ hrow _ _ => hrow)
      (fun m token now hm => .inl ?_) id fun m hm => ?_
    · by_cases hmn : m = n
      · subst hmn
        cases hself.symm.trans hm
      · exact (ho m hmn).symm.trans hm
    · rcases hs m i hm with ⟨rfl, rfl⟩ | ⟨-, hm⟩
      · rcases hw with hn | hf
        · exact hn
        · simp [h.freshDead i hf] at hi
      · exact hm
  exact { h with
    freshRow := fun i hi => h.freshRow i (hd.trans hi)
    freshCall := fun i hi m hm => by
      rcases hs m i hm with ⟨-, rfl⟩ | ⟨-, hm⟩
      · exact absurd hlt (not_lt.2 hi)
      · exact h.freshCall i (hd.trans hi) m hm
    freshIssued := fun i hi => h.freshIssued i (hd.trans hi)
    freshDead := fun i hi => h.freshDead i (hd.trans hi)
    alone := fun m i k hm hi => by
      rcases hs m k hm with ⟨rfl, rfl⟩ | ⟨hmn, hm⟩
      · rcases hs i k hi with ⟨rfl, -⟩ | ⟨-, hi⟩
        · rfl
        · exact (ha i hi).symm
      · rcases hs i k hi with ⟨rfl, rfl⟩ | ⟨-, hi⟩
        · exact ha m hm
        · exact h.alone m i k hm hi
    spent := fun m k token row hm hrow hk => by
      rcases hs m k hm with ⟨rfl, rfl⟩ | ⟨-, hm⟩
      · rcases hw with hn | hf
        · exact h.spent m k token row hn hrow hk
        · exact absurd (h.freshRow k hf) (hk ▸ h.owned token row hrow)
      · exact h.spent m k token row hm hrow hk
    keptCovered := fun m other hm => by
      by_cases hmn : m = n
      · subst hmn
        cases (congrArg Stage.kept? hself).symm.trans hm
      · exact h.keptCovered m other (ho m hmn ▸ hm)
    saving := fun m other now expires limited hm => by
      by_cases hmn : m = n
      · subst hmn
        cases hself.symm.trans hm
        exact ⟨he, fun other ho _ => h.issuedMax other ho⟩
      · exact h.saving m other now expires limited ((ho m hmn).symm.trans hm)
    grantMax := fun m other hm => by
      by_cases hmn : m = n
      · subst hmn
        cases (congrArg Stage.grant? hself).symm.trans hm
        exact he
      · exact h.grantMax m other (ho m hmn ▸ hm)
    cleaning := fun m now hm => by
      by_cases hmn : m = n
      · subst hmn
        cases hself.symm.trans hm
      · exact h.cleaning m now ((ho m hmn).symm.trans hm)
    deadKnown := fun i hi => (h.deadKnown i hi).imp_right (Or.imp_right (hforgotten i hi))
    discarding := fun js m hm i hi hdead => hforgotten i hdead (h.discarding js m hm i hi hdead)
    late := fun m i hm => by
      rcases hs m i hm with ⟨rfl, rfl⟩ | ⟨-, hm⟩
      · rcases hw with hn | hf
        · exact h.late m i hn
        · by_contra hstart
          have hdead := h.deadStart m i (by simpa using hstart)
          simp [h.freshDead i hf] at hdead
      · exact h.late m i hm }

theorem Inv.drawn (hw : (s.calls n).session? = some j) : j < s.sessionsDrawn :=
  not_le.1 fun hle => h.freshCall j hle n hw

theorem Inv.respond (hkept : (s.calls n).kept? = some grant) :
    (s.respond n grant).Inv config strict := by
  have hw := grant_session (kept_grant hkept)
  have hqt : Quiet (s.calls n) .finished := .of_none rfl id
  have ha : s.Calmer (s.setCall n .finished) := hqt.calmer rfl
  have hc := h.keptCovered n grant hkept
  have h' := h.setCall hqt
  have hf : ∀ i, s.Forgotten i → (s.respond n grant).Forgotten i := by
    intro i hold
    refine hold.mono (fun other ho hi => ?_) le_rfl (fun _ _ hrow _ _ => hrow)
      (fun m token now hm => .inl (ha.consuming m token now hm)) id
      fun m hm => ha.session m i hm
    rcases mem_cons.1 ho with rfl | ho
    · subst hi
      rcases hold.2.2 with hnone | hleft
      · unfold Covered at hc
        rw [hnone] at hc
        exact .inr hc
      · exact absurd hw (hleft n)
    · exact .inl ho
  exact { h' with
    freshIssued := fun j hj other ho => by
      rcases mem_cons.1 ho with rfl | ho
      · exact fun heq => absurd (h.drawn hw) (not_lt.2 (heq ▸ hj))
      · exact h.freshIssued j hj other ho
    issuedCovered := forall_mem_cons.2 ⟨hc, h.issuedCovered⟩
    saving := fun m other now expiresAt limited hm => by
      obtain ⟨he, hothers⟩ := h'.saving m other now expiresAt limited hm
      refine ⟨he, forall_mem_cons.2 ⟨fun heq => ?_, hothers⟩⟩
      have hs := ha.saving m other now expiresAt limited hm
      have hmn : m = n := h.alone m n grant.token.jti (by rw [hs, heq]; rfl) hw
      rw [hmn] at hs
      rw [hs] at hkept
      cases hkept
    issuedMax := forall_mem_cons.2 ⟨h.grantMax n grant (kept_grant hkept), h.issuedMax⟩
    deadKnown := fun j hj => (h.deadKnown j hj).imp_right (Or.imp_right (hf j))
    discarding := fun js m hm j hj hdead => hf j (h.discarding js m hm j hj hdead)
    returnedAlive := forall_mem_cons.2 ⟨h.late n _ hw, h.returnedAlive⟩ }

theorem Inv.insertRefresh (hfree : ∀ m, (s.calls m).session? ≠ some j)
    (hspent : ∀ token row, s.refreshRows token = some row → row.session = j → row.used = true)
    (hrow : s.rows j ≠ none) (hknown : s.dead j = true → s.revoked j = true)
    (hp : s.pending = none) : Inv config strict { s with
      tokensDrawn := s.tokensDrawn + 1
      refreshRows := Function.update s.refreshRows s.tokensDrawn
        (some ⟨j, userId, expiresAt, false⟩) } := by
  obtain ⟨refreshRows, hr⟩ : ∃ refreshRows, refreshRows = Function.update s.refreshRows
      s.tokensDrawn (some ⟨j, userId, expiresAt, false⟩) := ⟨_, rfl⟩
  rw [← hr]
  have hrows : ∀ token row, refreshRows token = some row →
      token = s.tokensDrawn ∧ row = ⟨j, userId, expiresAt, false⟩ ∨
        token ≠ s.tokensDrawn ∧ s.refreshRows token = some row := by
    intro token row ht
    rw [hr, Function.update_apply, ite_eq_iff, Option.some.injEq] at ht
    exact ht.imp_left (And.imp_right Eq.symm)
  have hf : ∀ i, i ≠ j → s.Forgotten i →
      Forgotten { s with tokensDrawn := s.tokensDrawn + 1, refreshRows := refreshRows } i := by
    intro i hi hold
    refine hold.mono (fun _ hg _ => .inl hg) le_rfl (fun token row ht hs _ => ?_)
      (fun _ _ _ hm => .inl hm) id fun _ hm => hm
    rcases hrows token row ht with ⟨-, rfl⟩ | ⟨-, hold⟩
    · exact absurd hs.symm hi
    · exact hold
  exact { h with
    freshToken := fun token hle => by
      have hne : token ≠ s.tokensDrawn := by
        have hle' : s.tokensDrawn + 1 ≤ token := hle
        omega
      refine ⟨?_, (h.freshToken token (Nat.le_of_succ_le hle)).2⟩
      show refreshRows token = none
      rw [hr, Function.update_of_ne hne]
      exact (h.freshToken token (Nat.le_of_succ_le hle)).1
    spent := fun m k token row hm ht hk => by
      rcases hrows token row ht with ⟨-, rfl⟩ | ⟨-, hold⟩
      · exact absurd (hm.trans (congrArg some hk.symm)) (hfree m)
      · exact h.spent m k token row hm hold hk
    single := fun a b row other ha hb hs hrow ho => by
      rcases hrows a row ha with ⟨hanew, rfl⟩ | ⟨-, hold⟩
      · rcases hrows b other hb with ⟨hn, rfl⟩ | ⟨-, hold⟩
        · exact hanew.trans hn.symm
        · simp [hspent b other hold hs.symm] at ho
      · rcases hrows b other hb with ⟨-, rfl⟩ | ⟨-, hold'⟩
        · simp [hspent a row hold hs] at hrow
        · exact h.single a b row other hold hold' hs hrow ho
    owned := fun token row ht => by
      rcases hrows token row ht with ⟨-, rfl⟩ | ⟨-, hold⟩
      · exact hrow
      · exact h.owned token row hold
    rotated := fun token hmem row ht => by
      rcases hrows token row ht with ⟨rfl, -⟩ | ⟨-, hold⟩
      · exact absurd hmem (h.freshToken _ le_rfl).2
      · exact h.rotated token hmem row hold
    deadKnown := fun i hi => by
      by_cases hij : i = j
      · exact .inl (hij ▸ hknown (hij ▸ hi))
      · exact (h.deadKnown i hi).imp_right (Or.imp_right (hf i hij))
    discarding := fun js m hm => by
      rw [show s.pending = _ from hm] at hp
      cases hp }

theorem Inv.createRefresh
    (hcall : s.calls n = .creatingRefresh grant expiresAt) (hp : s.pending = none) :
    (s.createRefresh n grant expiresAt).Inv config strict := by
  have hkept : (s.calls n).kept? = some grant := by rw [hcall]; rfl
  have hw := grant_session (kept_grant hkept)
  have h' := h.respond hkept
  have hfree : ∀ m, ((s.respond n grant).calls m).session? ≠ some grant.token.jti := by
    intro m hm
    have hm : ((s.setCall n .finished).calls m).session? = some grant.token.jti := hm
    rw [calls_setCall] at hm
    split at hm
    · cases hm
    next hmn => exact hmn (h.alone m n _ hm hw)
  unfold Sessions.createRefresh
  by_cases hrow : (s.rows grant.token.jti).isSome
  · rw [if_pos hrow]
    refine h'.insertRefresh hfree (fun token row ht hs => ?_) ?_ (fun hdead => ?_) hp
    · exact h.spent n _ token row hw ht hs
    · exact Option.isSome_iff_ne_none.1 hrow
    · show s.revoked grant.token.jti = true
      by_contra hrev
      have hf := h.forgotten hdead (by simpa using hrev) hp
      rcases hf.2.2 with hnone | hleft
      · simp [hnone] at hrow
      · exact hleft n hw
  · rw [if_neg hrow]
    exact { h' with
      freshToken := fun token hle => h'.freshToken token (Nat.le_of_succ_le hle) }

end

-- ==== the handlers go on

section
variable (h : s.Inv config strict)
include h

theorem Inv.makeSessionCookies (hkept : (s.calls n).kept? = some grant) :
    (s.makeSessionCookies config n grant).Inv config strict := by
  unfold Sessions.makeSessionCookies
  split
  · exact h.setCall (.of_kept (hkept ▸ rfl) rfl rfl id)
  · exact h.respond hkept

theorem Inv.createSession :
    (s.createSession config digest n userId user limited).Inv config strict :=
  h.createToken (Nat.le_succ _) (Nat.lt_succ_self _) (.inr le_rfl)

theorem Inv.revokeEach {next : Next} (hkept : (s.calls n).kept? = next.grant?)
    (sessions : List Nat) : (s.revokeEach config digest n sessions next).Inv config strict := by
  cases sessions with
  | cons session rest => exact h.setCall (.of_kept (hkept ▸ rfl) rfl rfl id)
  | nil =>
    cases next with
    | finish => exact h.setCall (.of_none rfl id)
    | rotate userId user => exact h.createSession
    | cookies grant => exact h.makeSessionCookies hkept

theorem Inv.goOn {after : After} (hkept : (s.calls n).kept? = after.grant?) :
    (s.goOn config digest n after).Inv config strict := by
  cases after with
  | revoke sessions next => exact h.revokeEach hkept sessions
  | cookies grant => exact h.makeSessionCookies hkept
  | limit grant =>
    simp only [Sessions.goOn]
    split
    · exact h.makeSessionCookies hkept
    · exact h.setCall (.of_kept (hkept ▸ rfl) rfl rfl id)

theorem Inv.note : (s.note config digest).Inv config strict := by
  unfold Sessions.note
  split
  · exact h
  next note m hp =>
    dsimp only
    have hu : Inv config strict { s with pending := none, revoked := update s.revoked note } :=
      { h with
        deadKnown := fun j hdead => by
          have hk := h.deadKnown j hdead
          cases note with
          | add js =>
            rcases hk with hrev | ⟨is, i, hsome, hj⟩ | hf
            · exact .inl (by simp [update, hrev])
            · rw [hp] at hsome
              cases hsome
              exact .inl (by simp [update, hj])
            · exact .inr (.inr hf)
          | discard js =>
            rcases hk with hrev | ⟨is, i, hsome, -⟩ | hf
            · by_cases hj : j ∈ js
              · exact .inr (.inr (h.discarding js m hp j hj hdead))
              · exact .inl (by simp [update, hrev, hj])
            · simp [hp] at hsome
            · exact .inr (.inr hf)
        discarding := nofun }
    split
    next after hcall => exact hu.goOn (by rw [hcall]; rfl)
    · exact hu

end

-- ==== the writes

section
variable (h : s.Inv config strict)
include h

theorem Inv.saveSession
    (hcall : s.calls n = .savingSession grant now expiresAt limited) (hp : s.pending = none)
    (ha : s.dead grant.token.jti = false) :
    (s.saveSession n grant now expiresAt limited).Inv config strict := by
  have hw : (s.calls n).session? = some grant.token.jti := by rw [hcall]; rfl
  obtain ⟨he, hothers⟩ := h.saving n grant now expiresAt limited hcall
  set t := s.saveSession n grant now expiresAt limited with ht
  set after : After := if limited then .limit grant else .cookies grant with hafter
  have hstages : (Stage.committed after).session? = some grant.token.jti ∧
      (Stage.committed after).kept? = some grant ∧ (Stage.committed after).grant? = some grant := by
    cases limited <;> exact ⟨rfl, rfl, rfl⟩
  have hself : t.calls n = .committed after := by simp [ht, Sessions.saveSession, hafter]
  have ho : ∀ m, m ≠ n → t.calls m = s.calls m := fun m hm => by
    simp [ht, Sessions.saveSession, hm]
  have hrow : t.rows grant.token.jti = some ⟨grant.token.sub,
      ((s.rows grant.token.jti).map SessionRow.createdAt).getD now, expiresAt, false⟩ := by
    simp [ht, Sessions.saveSession]
  have hrows : ∀ j, j ≠ grant.token.jti → t.rows j = s.rows j := fun j hj => by
    simp [ht, Sessions.saveSession, hj]
  have hs : ∀ m j, (t.calls m).session? = some j → (s.calls m).session? = some j := by
    intro m j hm
    by_cases hmn : m = n
    · subst hmn
      rw [hself, hstages.1] at hm
      rwa [hw]
    · exact ho m hmn ▸ hm
  have hc : ∀ other : Grant, other.token.jti ≠ grant.token.jti → s.Covered other →
      t.Covered other := fun other hne hold => by
    unfold Covered at hold ⊢
    rw [hrows _ hne]
    exact hold
  have hchosen : ∀ other : Grant, other.token.jti = grant.token.jti →
      other.token.exp ≤ expiresAt → t.Covered other := fun other heq hle => by
    unfold Covered
    rw [heq, hrow]
    exact hle
  have hf : ∀ j, s.dead j = true → s.Forgotten j → t.Forgotten j := by
    intro j hdead hold
    have hne : j ≠ grant.token.jti := fun heq => by
      simp [heq, ha] at hdead
    refine hold.mono (fun _ hg _ => .inl hg) le_rfl (fun _ _ hrow _ _ => hrow)
      (fun m token now hm => .inl ?_) (fun hnone => (hrows j hne).trans hnone) fun m => hs m j
    by_cases hmn : m = n
    · subst hmn
      cases hself.symm.trans hm
    · exact (ho m hmn).symm.trans hm
  exact { h with
    freshRow := fun j hj => by
      have hne : j ≠ grant.token.jti := fun heq => absurd (h.drawn hw) (not_lt.2 (heq ▸ hj))
      rw [hrows j hne]
      exact h.freshRow j hj
    freshCall := fun j hj m hm => h.freshCall j hj m (hs m j hm)
    alone := fun m i j hm hi => h.alone m i j (hs m j hm) (hs i j hi)
    spent := fun m j token row hm => h.spent m j token row (hs m j hm)
    owned := fun token row htoken => by
      by_cases hj : row.session = grant.token.jti
      · rw [hj, hrow]
        exact Option.some_ne_none _
      · rw [hrows _ hj]
        exact h.owned token row htoken
    issuedCovered := fun other hmem => by
      by_cases hj : other.token.jti = grant.token.jti
      · exact hchosen other hj (hothers other hmem hj)
      · exact hc other hj (h.issuedCovered other hmem)
    keptCovered := fun m other hm => by
      by_cases hmn : m = n
      · subst hmn
        rw [hself, hstages.2.1] at hm
        cases hm
        exact hchosen grant rfl he
      · rw [ho m hmn] at hm
        refine hc other (fun heq => hmn ?_) (h.keptCovered m other hm)
        exact h.alone m n _ (heq ▸ grant_session (kept_grant hm)) hw
    saving := fun m other now' expires limited' hm => by
      by_cases hmn : m = n
      · subst hmn
        cases hself.symm.trans hm
      · exact h.saving m other now' expires limited' ((ho m hmn).symm.trans hm)
    grantMax := fun m other hm => by
      by_cases hmn : m = n
      · subst hmn
        rw [hself, hstages.2.2] at hm
        cases hm
        exact h.grantMax m grant (by rw [hcall]; rfl)
      · exact h.grantMax m other (ho m hmn ▸ hm)
    cleaning := fun m now' hm => by
      by_cases hmn : m = n
      · subst hmn
        cases hself.symm.trans hm
      · exact h.cleaning m now' ((ho m hmn).symm.trans hm)
    deadRow := fun j row hdead hj => by
      have hne : j ≠ grant.token.jti := fun heq => by
        simp [heq, show t.dead grant.token.jti = false from ha] at hdead
      exact h.deadRow j row hdead ((hrows j hne).symm.trans hj)
    deadKnown := fun j hdead => by
      rcases h.deadKnown j hdead with hrev | ⟨_, _, hsome, _⟩ | hold
      · exact .inl hrev
      · simp [hp] at hsome
      · exact .inr (.inr (hf j hdead hold))
    discarding := fun js m hm j hj hdead => by
      cases hm
      simp [mem_singleton.1 hj, show t.dead grant.token.jti = false from ha] at hdead
    late := fun m j hm => h.late m j (hs m j hm) }

theorem Inv.markRevoked (chosen : Nat → Bool) (js : List Nat)
    (after : After) (hpending : s.pending = none)
    (hchosen : ∀ j, chosen j = true → j ∈ js ∧ s.rows j ≠ none)
    (hkept : (s.calls n).kept? = after.grant?) (ht : t = { s with
      rows := fun j =>
        if chosen j then (s.rows j).map fun row => { row with revoked := true } else s.rows j
      dead := fun j => s.dead j || chosen j
      pending := some (.add js, n)
      calls := Function.update s.calls n (.committed after) }) : t.Inv config strict := by
  have hqt : Quiet (s.calls n) (.committed after) := .of_kept (hkept ▸ rfl) rfl rfl id
  have ha : s.Calmer t := hqt.calmer (by rw [ht])
  have h' := h.setCall hqt
  have hnone : ∀ j, t.rows j = none ↔ s.rows j = none := by
    intro j
    rw [ht]
    dsimp only
    split
    · exact Option.map_eq_none_iff
    · exact Iff.rfl
  have hcovered : ∀ grant, s.Covered grant → t.Covered grant := by
    intro grant hold
    rw [ht]
    unfold Covered at hold ⊢
    by_cases hc : chosen grant.token.jti
    · cases hrow : s.rows grant.token.jti with
      | none => simpa [hrow] using hold
      | some row => simpa [hc, hrow] using hold
    · simpa [hc] using hold
  have hf : ∀ j, s.Forgotten j → t.Forgotten j := fun j hold =>
    hold.mono (fun _ hg _ => .inl (by rwa [ht] at hg)) (by rw [ht])
      (fun _ _ hrow _ _ => by rwa [ht] at hrow)
      (fun m token now hm => .inl (ha.consuming m token now hm)) (hnone j).2
      fun m hm => ha.session m j hm
  have hdead : ∀ j, t.dead j = true → s.dead j = true ∨ chosen j = true := fun j hj => by
    rw [ht] at hj
    simpa using hj
  have hr : ∀ j row, t.rows j = some row → chosen j = true ∧ row.revoked = true ∨
      chosen j = false ∧ s.rows j = some row := by
    intro j row hj
    rw [ht] at hj
    by_cases hc : chosen j
    · simp only [hc] at hj
      obtain ⟨old, -, rfl⟩ := Option.map_eq_some_iff.1 hj
      exact .inl ⟨hc, rfl⟩
    · simp only [hc] at hj
      exact .inr ⟨by simpa using hc, hj⟩
  have hp : t.pending = some (.add js, n) := by rw [ht]
  have ho : ∀ j, t.sessionsDrawn ≤ j → t.rows j = none := fun j hj =>
    (hnone j).2 (h.freshRow j (by rwa [ht] at hj))
  have hd : ∀ j, t.sessionsDrawn ≤ j → t.dead j = false := fun j hj => by
    have hj' : s.sessionsDrawn ≤ j := by rwa [ht] at hj
    by_contra hnot
    rcases hdead j (by simpa using hnot) with hold | hc
    · simp [h.freshDead j hj'] at hold
    · exact (hchosen j hc).2 (h.freshRow j hj')
  have howned : ∀ token row, t.refreshRows token = some row → t.rows row.session ≠ none :=
    fun token row htoken heq => h.owned token row (by rwa [ht] at htoken) ((hnone _).1 heq)
  have hi : ∀ grant ∈ t.issued, t.Covered grant := fun grant hmem =>
    hcovered grant (h.issuedCovered grant (by rwa [ht] at hmem))
  have hk : ∀ m grant, (t.calls m).kept? = some grant → t.Covered grant :=
    fun m grant hm => hcovered grant (h.keptCovered m grant (ha.kept m grant hm))
  have hdestroy : ∀ j row, t.dead j = true → t.rows j = some row → row.revoked = true := by
    intro j row hj hrow
    rcases hr j row hrow with ⟨-, hrev⟩ | ⟨hnot, hold⟩
    · exact hrev
    · rcases hdead j hj with hdead | hc
      · exact h.deadRow j row hdead hold
      · simp [hnot] at hc
  have he : ∀ j, t.dead j = true → t.revoked j = true ∨
      (∃ is m, t.pending = some (.add is, m) ∧ j ∈ is) ∨ t.Forgotten j := by
    intro j hj
    rcases hdead j hj with hold | hc
    · rcases h.deadKnown j hold with hrev | ⟨_, _, hsome, _⟩ | hold
      · exact .inl (by rwa [ht])
      · simp [hpending] at hsome
      · exact .inr (.inr (hf j hold))
    · exact .inr (.inl ⟨js, n, hp, (hchosen j hc).1⟩)
  have hdiscard : ∀ is m, t.pending = some (.discard is, m) → ∀ j ∈ is, t.dead j = true →
      t.Forgotten j := fun is m hm => by
    simp [hp] at hm
  have hdigest : ∀ m j, t.deadAtStart m j = true → t.dead j = true := fun m j hm => by
    rw [ht] at hm ⊢
    simp [h.deadStart m j hm]
  subst ht
  exact { h' with
    freshRow := ho
    freshDead := hd
    owned := howned
    issuedCovered := hi
    keptCovered := hk
    deadRow := hdestroy
    deadKnown := he
    discarding := hdiscard
    deadStart := hdigest }

theorem Inv.revoke {session : Nat} {rest : List Nat} {next : Next}
    (hcall : s.calls n = .revoking session rest next) (hp : s.pending = none) :
    (s.revoke config digest n session rest next).Inv config strict := by
  have hkept : (s.calls n).kept? = next.grant? := by rw [hcall]; rfl
  unfold Sessions.revoke
  split
  · exact h.revokeEach hkept rest
  next row hrow =>
    split
    · exact h.revokeEach hkept rest
    · have hrows : Function.update s.rows session (some { row with revoked := true }) =
          fun j => if decide (j = session) then
            (s.rows j).map fun row => { row with revoked := true } else s.rows j := by
        funext j
        by_cases hj : j = session
        · simp [hj, hrow]
        · simp [hj]
      have hdead : Function.update s.dead session true =
          fun j => s.dead j || decide (j = session) := by
        funext j
        by_cases hj : j = session
        · simp [hj]
        · simp [hj]
      rw [hrows, hdead]
      refine h.markRevoked (fun j => decide (j = session)) [session] (.revoke rest next) hp
        (fun j hj => ?_) hkept rfl
      obtain rfl : j = session := by simpa using hj
      exact ⟨mem_singleton_self j, by simp [hrow]⟩

theorem Inv.drawn_of_row (hrow : s.rows j ≠ none) : j ∈ List.range s.sessionsDrawn :=
  mem_range.2 (not_le.1 fun hle => hrow (h.freshRow j hle))

theorem Inv.revokeAllForUser (hcall : s.calls n = .revokingAll userId now)
    (hp : s.pending = none) : (s.revokeAllForUser n userId now).Inv config strict := by
  unfold Sessions.revokeAllForUser
  split
  · exact h.setCall (.of_none rfl id)
  · refine h.markRevoked _ _ (.revoke [] .finish) hp (fun j hj => ?_) (by rw [hcall]; rfl) rfl
    have hrow : s.rows j ≠ none := fun hnone => by simp [isActive, hnone] at hj
    exact ⟨mem_filter.2 ⟨h.drawn_of_row hrow, hj⟩, hrow⟩

theorem Inv.cleanupSessions (hcall : s.calls n = .cleaningSessions now)
    (hp : s.pending = none) : (s.cleanupSessions n now).Inv config strict := by
  unfold Sessions.cleanupSessions
  split
  · exact h.setCall (.of_none rfl id)
  obtain ⟨gone, hgone⟩ : ∃ gone, gone = s.isExpired now := ⟨_, rfl⟩
  rw [← hgone]
  have hnow := h.cleaning n now hcall
  have hqt : Quiet (s.calls n) (.committed (.revoke [] .finish)) := .of_none rfl id
  obtain ⟨t, ht⟩ : ∃ t : Sessions, t = { s with
    rows := fun session => if gone session then none else s.rows session
    refreshRows := fun token => (s.refreshRows token).filter fun row => !gone row.session
    pending := some (.discard ((List.range s.sessionsDrawn).filter gone), n)
    calls := Function.update s.calls n (.committed (.revoke [] .finish)) } := ⟨_, rfl⟩
  have hc : s.Calmer t := hqt.calmer (by rw [ht])
  have h' := h.setCall hqt
  have ho : ∀ j, gone j = true → ∃ row, s.rows j = some row ∧ row.expiresAt ≤ now := by
    intro j hj
    rw [hgone] at hj
    cases hrow : s.rows j with
    | none => simp [isExpired, hrow] at hj
    | some row => exact ⟨row, rfl, by simpa [isExpired, hrow] using hj⟩
  have hrows : ∀ j row, t.rows j = some row → gone j = false ∧ s.rows j = some row := by
    intro j row hj
    rw [ht] at hj
    by_cases hg : gone j
    · simp [hg] at hj
    · exact ⟨by simpa using hg, by simpa [hg] using hj⟩
  have hr : ∀ token row, t.refreshRows token = some row →
      s.refreshRows token = some row ∧ gone row.session = false := by
    intro token row htoken
    rw [ht] at htoken
    obtain ⟨hold, hnot⟩ := Option.filter_eq_some_iff.1 htoken
    exact ⟨hold, by simpa using hnot⟩
  have hcovered : ∀ grant, s.Covered grant → t.Covered grant := by
    intro grant hold
    rw [ht]
    unfold Covered at hold ⊢
    by_cases hg : gone grant.token.jti
    · obtain ⟨row, hrow, hle⟩ := ho _ hg
      rw [hrow] at hold
      simp only [hg]
      exact hold.trans (hle.trans hnow)
    · simpa [hg] using hold
  have hf : ∀ j, s.Forgotten j → t.Forgotten j := fun j hold =>
    hold.mono (fun _ hg _ => .inl (by rwa [ht] at hg)) (by rw [ht])
      (fun token row htoken _ _ => (hr token row htoken).1)
      (fun m token now hm => .inl (hc.consuming m token now hm))
      (fun hnone => by rw [ht]; simp [hnone]) fun m hm => hc.session m j hm
  have he : t.pending =
      some (.discard ((List.range s.sessionsDrawn).filter gone), n) := by rw [ht]
  have hi : ∀ grant ∈ t.issued, t.Covered grant := fun grant hmem =>
    hcovered grant (h.issuedCovered grant (by rwa [ht] at hmem))
  have hd : ∀ j, t.dead j = true → t.revoked j = true ∨
      (∃ is m, t.pending = some (.add is, m) ∧ j ∈ is) ∨ t.Forgotten j := by
    intro j hj
    rcases h.deadKnown j (by rwa [ht] at hj) with hrev | ⟨_, _, hsome, _⟩ | hold
    · exact .inl (by rwa [ht])
    · simp [hp] at hsome
    · exact .inr (.inr (hf j hold))
  have hdiscard : ∀ is m, t.pending = some (.discard is, m) → ∀ j ∈ is, t.dead j = true →
      t.Forgotten j := by
    intro is m hm j hj _
    rw [he] at hm
    cases hm
    have hg := (mem_filter.1 hj).2
    have hnone : t.rows j = none := by
      rw [ht]
      simp [hg]
    refine ⟨fun grant hgrant hs => ?_, fun token row htoken hs _ => ?_, .inl hnone⟩
    · have hcovers := hi grant hgrant
      unfold Covered at hcovers
      rwa [hs, hnone] at hcovers
    · have hnot := (hr token row htoken).2
      simp [hs, hg] at hnot
  have hk : ∀ j, t.sessionsDrawn ≤ j → t.rows j = none := fun j hj => by
    rw [ht] at hj ⊢
    simp [h.freshRow j hj]
  have hfraction : ∀ token, t.tokensDrawn ≤ token →
      t.refreshRows token = none ∧ token ∉ t.rotations := fun token hle => by
    rw [ht] at hle ⊢
    obtain ⟨hnone, hnot⟩ := h.freshToken token hle
    exact ⟨by simp [hnone], hnot⟩
  have howned : ∀ token row, t.refreshRows token = some row → t.rows row.session ≠ none := by
    intro token row htoken
    obtain ⟨hold, hnot⟩ := hr token row htoken
    rw [ht]
    simpa [hnot] using h.owned token row hold
  have hspent : ∀ m j token row, (t.calls m).session? = some j → t.refreshRows token = some row →
      row.session = j → row.used = true := fun m j token row hm htoken =>
    h.spent m j token row (hc.session m j hm) (hr token row htoken).1
  have hsingle : ∀ a b row other, t.refreshRows a = some row → t.refreshRows b = some other →
      row.session = other.session → row.used = false → other.used = false → a = b :=
    fun a b row other ha hb => h.single a b row other (hr a row ha).1 (hr b other hb).1
  have hrotated : ∀ token ∈ t.rotations, ∀ row, t.refreshRows token = some row → row.used = true :=
    fun token hmem row htoken => h.rotated token (by rwa [ht] at hmem) row (hr token row htoken).1
  have hx : ∀ m grant, (t.calls m).kept? = some grant → t.Covered grant :=
    fun m grant hm => hcovered grant (h.keptCovered m grant (hc.kept m grant hm))
  have hdestroy : ∀ j row, t.dead j = true → t.rows j = some row → row.revoked = true :=
    fun j row hj hrow => h.deadRow j row (by rwa [ht] at hj) (hrows j row hrow).2
  subst ht
  exact { h' with
    freshRow := hk
    freshToken := hfraction
    spent := hspent
    single := hsingle
    owned := howned
    rotated := hrotated
    issuedCovered := hi
    keptCovered := hx
    deadRow := hdestroy
    deadKnown := hd
    discarding := hdiscard }

theorem Inv.cleanupRefresh : (s.cleanupRefresh n now).Inv config strict := by
  have hqt : Quiet (s.calls n) .finished := .of_none rfl id
  have hc : s.Calmer (s.cleanupRefresh n now) := hqt.calmer rfl
  have h' := h.setCall hqt
  have hr : ∀ token row, (s.cleanupRefresh n now).refreshRows token = some row →
      s.refreshRows token = some row := fun token row ht =>
    (Option.filter_eq_some_iff.1 ht).1
  have hf : ∀ j, s.Forgotten j → (s.cleanupRefresh n now).Forgotten j := fun j hold =>
    hold.mono (fun _ hg _ => .inl hg) le_rfl (fun token row ht _ _ => hr token row ht)
      (fun m token now hm => .inl (hc.consuming m token now hm)) id
      fun m hm => hc.session m j hm
  exact { h' with
    freshToken := fun token hle => by
      obtain ⟨hnone, hnot⟩ := h.freshToken token hle
      exact ⟨by simp [Sessions.cleanupRefresh, hnone], hnot⟩
    spent := fun m j token row hm ht =>
      h.spent m j token row (hc.session m j hm) (hr token row ht)
    single := fun a b row other ha hb => h.single a b row other (hr a row ha) (hr b other hb)
    owned := fun token row ht => h.owned token row (hr token row ht)
    rotated := fun token hmem row ht => h.rotated token hmem row (hr token row ht)
    deadKnown := fun j hj => (h.deadKnown j hj).imp_right (Or.imp_right (hf j))
    discarding := fun js m hm j hj hdead => hf j (h.discarding js m hm j hj hdead) }

theorem Inv.consume {token : Nat}
    (hcall : s.calls n = .consuming token now) (hp : s.pending = none) :
    (s.consume n token now).Inv config strict := by
  unfold Sessions.consume
  split
  · exact h.setCall (.of_none rfl id)
  next row hrow =>
  split
  · exact h.setCall (.of_none rfl id)
  next hgood =>
  split
  · exact h.setCall (.of_none rfl id)
  next hn =>
  obtain ⟨hu, hunexpected⟩ := not_or.1 hgood
  have hu : row.used = false := by simpa using hu
  have halive : s.dead row.session = false := by
    by_contra hdead
    have hf := h.forgotten (by simpa using hdead) (by simpa using hn) hp
    exact hunexpected ((hf.2.1 token row hrow rfl hu).2 n now hcall)
  have hfree : ∀ m, (s.calls m).session? ≠ some row.session := fun m hm => by
    simp [h.spent m _ token row hm hrow rfl] at hu
  obtain ⟨calls, hc⟩ : ∃ calls, calls = Function.update s.calls n
      (.loadingUser row.userId (.refresh row.session token)) := ⟨_, rfl⟩
  obtain ⟨refreshRows, hr⟩ : ∃ refreshRows, refreshRows =
      Function.update s.refreshRows token (some { row with used := true }) := ⟨_, rfl⟩
  show Inv config strict { s with
    calls := Function.update s.calls n (.loadingUser row.userId (.refresh row.session token))
    refreshRows := Function.update s.refreshRows token (some { row with used := true })
    rotations := token :: s.rotations }
  rw [← hc, ← hr]
  have hself : calls n = .loadingUser row.userId (.refresh row.session token) := by simp [hc]
  have ho : ∀ m, m ≠ n → calls m = s.calls m := fun m hm => by simp [hc, hm]
  have hrows : ∀ i other, refreshRows i = some other →
      i = token ∧ other = { row with used := true } ∨ i ≠ token ∧ s.refreshRows i = some other := by
    intro i other hi
    rw [hr, Function.update_apply, ite_eq_iff, Option.some.injEq] at hi
    exact hi.imp_left (And.imp_right Eq.symm)
  have hs : ∀ m j, (calls m).session? = some j →
      m = n ∧ j = row.session ∨ m ≠ n ∧ (s.calls m).session? = some j := by
    intro m j hm
    by_cases hmn : m = n
    · subst hmn
      rw [hself] at hm
      cases hm
      exact .inl ⟨rfl, rfl⟩
    · exact .inr ⟨hmn, ho m hmn ▸ hm⟩
  -- a stage with a grant is no news
  have hstage : ∀ m stage, calls m = stage → stage.session? = none ∨ stage.grant? ≠ none →
      s.calls m = stage := by
    intro m stage hm hor
    by_cases hmn : m = n
    · subst hmn
      rw [hself] at hm
      subst hm
      rcases hor with hnone | hsome
      · cases hnone
      · exact absurd rfl hsome
    · exact (ho m hmn).symm.trans hm
  have hf : ∀ j, s.dead j = true → s.Forgotten j → Forgotten { s with
      calls := calls, refreshRows := refreshRows, rotations := token :: s.rotations } j := by
    intro j hdead hold
    refine hold.mono (fun _ hg _ => .inl hg) le_rfl (fun i other hi _ hused => ?_)
      (fun m i now hm => .inl (hstage m _ hm (.inl rfl))) id fun m hm => ?_
    · rcases hrows i other hi with ⟨-, rfl⟩ | ⟨-, hold⟩
      · cases hused
      · exact hold
    · rcases hs m j hm with ⟨-, rfl⟩ | ⟨-, hm⟩
      · simp [halive] at hdead
      · exact hm
  have hgrant : ∀ m grant, (calls m).grant? = some grant → s.calls m = calls m :=
    fun m grant hm => hstage m _ rfl (.inr (by rw [hm]; exact Option.some_ne_none _))
  exact { h with
    freshCall := fun j hj m hm => by
      rcases hs m j hm with ⟨-, rfl⟩ | ⟨-, hm⟩
      · exact h.owned token row hrow (h.freshRow _ hj)
      · exact h.freshCall j hj m hm
    freshToken := fun i hi => by
      obtain ⟨hnone, hnot⟩ := h.freshToken i hi
      have hne : i ≠ token := fun heq => by
        simp [heq, hrow] at hnone
      refine ⟨?_, fun hmem => (mem_cons.1 hmem).elim hne hnot⟩
      show refreshRows i = none
      rwa [hr, Function.update_of_ne hne]
    alone := fun m i j hm hi => by
      rcases hs m j hm with ⟨rfl, rfl⟩ | ⟨-, hm⟩
      · rcases hs i _ hi with ⟨rfl, -⟩ | ⟨-, hi⟩
        · rfl
        · exact absurd hi (hfree i)
      · rcases hs i j hi with ⟨rfl, rfl⟩ | ⟨-, hi⟩
        · exact absurd hm (hfree m)
        · exact h.alone m i j hm hi
    spent := fun m j i other hm hi hj => by
      rcases hrows i other hi with ⟨-, rfl⟩ | ⟨hne, hold⟩
      · rfl
      · rcases hs m j hm with ⟨-, rfl⟩ | ⟨-, hm⟩
        · by_contra hnot
          exact hne (h.single i token other row hold hrow hj (by simpa using hnot) hu)
        · exact h.spent m j i other hm hold hj
    single := fun a b one two ha hb hs hone htwo => by
      rcases hrows a one ha with ⟨-, rfl⟩ | ⟨-, ha⟩
      · cases hone
      · rcases hrows b two hb with ⟨-, rfl⟩ | ⟨-, hb⟩
        · cases htwo
        · exact h.single a b one two ha hb hs hone htwo
    owned := fun i other hi => by
      rcases hrows i other hi with ⟨-, rfl⟩ | ⟨-, hold⟩
      · exact h.owned token row hrow
      · exact h.owned i other hold
    rotatedOnce := by
      refine nodup_cons.2 ⟨fun hmem => ?_, h.rotatedOnce⟩
      simp [h.rotated token hmem row hrow] at hu
    rotated := fun i hmem other hi => by
      rcases hrows i other hi with ⟨-, rfl⟩ | ⟨hne, hold⟩
      · rfl
      · exact h.rotated i ((mem_cons.1 hmem).resolve_left hne) other hold
    keptCovered := fun m grant hm =>
      h.keptCovered m grant ((hgrant m grant (kept_grant hm)).symm ▸ hm)
    saving := fun m grant now expiresAt limited hm =>
      h.saving m grant now expiresAt limited (hstage m _ hm (.inr (Option.some_ne_none _)))
    grantMax := fun m grant hm => h.grantMax m grant ((hgrant m grant hm).symm ▸ hm)
    cleaning := fun m now hm => h.cleaning m now (hstage m _ hm (.inl rfl))
    deadKnown := fun j hj => (h.deadKnown j hj).imp_right (Or.imp_right (hf j hj))
    discarding := fun js m hm j hj hdead => hf j hdead (h.discarding js m hm j hj hdead)
    late := fun m j hm => by
      rcases hs m j hm with ⟨rfl, rfl⟩ | ⟨-, hm⟩
      · by_contra hstart
        have hdead := h.deadStart m _ (by simpa using hstart)
        simp [halive] at hdead
      · exact h.late m j hm }

theorem Inv.accounts (users : Nat → Option User) (replaced : Nat → List String)
    (changes : Nat → Option Change) :
    Inv config strict { s with users := users, replaced := replaced, changes := changes } :=
  { h with freshRow := h.freshRow }

theorem Inv.saveUser {jti : Option Nat} (hcall : s.calls n = .savingUser userId user jti) :
    (s.saveUser config digest n userId user jti).Inv config strict := by
  unfold Sessions.saveUser
  split
  · exact h.setCall (.of_none rfl id)
  next latest hl =>
    refine (h.accounts _ _ _).revokeEach ?_ jti.toList
    show (s.calls n).kept? = none
    rw [hcall]
    rfl

end

-- ==== the rest of the steps

section
variable (h : s.Inv config strict)
include h

theorem Inv.call {operation : Operation} (hcall : s.calls n = .absent) :
    Inv config strict { s.setCall n (s.begin operation) with
      deadAtStart := Function.update s.deadAtStart n s.dead } := by
  obtain ⟨calls, hc⟩ : ∃ calls, calls = Function.update s.calls n (s.begin operation) := ⟨_, rfl⟩
  show Inv config strict { s with
    calls := Function.update s.calls n (s.begin operation)
    deadAtStart := Function.update s.deadAtStart n s.dead }
  rw [← hc]
  have hself : calls n = s.begin operation := by simp [hc]
  have ho : ∀ m, m ≠ n → calls m = s.calls m := fun m hm => by simp [hc, hm]
  have hb : (s.begin operation).session? = none := by cases operation <;> rfl
  have hs : ∀ m j, (calls m).session? = some j → m ≠ n ∧ (s.calls m).session? = some j := by
    intro m j hm
    by_cases hmn : m = n
    · subst hmn
      simp [hself, hb] at hm
    · exact ⟨hmn, ho m hmn ▸ hm⟩
  have hgrant : ∀ m grant, (calls m).grant? = some grant → s.calls m = calls m := by
    intro m grant hm
    exact (ho m (hs m _ (grant_session hm)).1).symm
  have hf : ∀ j, s.Forgotten j → Forgotten { s with
      calls := calls, deadAtStart := Function.update s.deadAtStart n s.dead } j := by
    intro j hold
    refine hold.mono (fun _ hg _ => .inl hg) le_rfl (fun _ _ hrow _ _ => hrow)
      (fun m token now hm => ?_) id fun m hm => (hs m j hm).2
    by_cases hmn : m = n
    · subst hmn
      have hm : s.begin operation = .consuming token now := hself.symm.trans hm
      cases operation <;> cases hm
      exact .inr le_rfl
    · exact .inl ((ho m hmn).symm.trans hm)
  exact { h with
    freshCall := fun j hj m hm => h.freshCall j hj m (hs m j hm).2
    alone := fun m i j hm hi => h.alone m i j (hs m j hm).2 (hs i j hi).2
    spent := fun m j token row hm => h.spent m j token row (hs m j hm).2
    keptCovered := fun m grant hm =>
      h.keptCovered m grant ((hgrant m grant (kept_grant hm)).symm ▸ hm)
    saving := fun m grant now expiresAt limited hm => by
      have hm : calls m = _ := hm
      exact h.saving m grant now expiresAt limited ((hgrant m grant (by rw [hm]; rfl)).trans hm)
    grantMax := fun m grant hm => h.grantMax m grant ((hgrant m grant hm).symm ▸ hm)
    cleaning := fun m now hm => by
      by_cases hmn : m = n
      · subst hmn
        have hm : s.begin operation = .cleaningSessions now := hself.symm.trans hm
        cases operation <;> cases hm
        exact le_rfl
      · exact h.cleaning m now ((ho m hmn).symm.trans hm)
    deadKnown := fun j hj => (h.deadKnown j hj).imp_right (Or.imp_right (hf j))
    discarding := fun js m hm j hj hdead => hf j (h.discarding js m hm j hj hdead)
    deadStart := fun m j hm => by
      by_cases hmn : m = n
      · subst hmn
        simpa using hm
      · exact h.deadStart m j (by simpa [hmn] using hm)
    late := fun m j hm => by
      obtain ⟨hmn, hm⟩ := hs m j hm
      simp [hmn, h.late m j hm] }

def Restartable (s : Sessions) : Prop :=
  ∀ j row, s.dead j = true → s.rows j = some row → row.expiresAt ≤ s.clock →
    ∀ token refresh, s.refreshRows token = some refresh → refresh.session = j →
      refresh.used = true ∨ refresh.expiresAt ≤ s.clock

theorem Inv.restart (hrest : s.Restartable) : s.restart.Inv config strict := by
  have hcalls : ∀ m, s.restart.calls m = .absent ∨ s.restart.calls m = .finished := by
    intro m
    simp only [Sessions.restart]
    split
    · exact .inl rfl
    · exact .inr rfl
  have ha : s.Calmer { s with calls := s.restart.calls } := by
    refine ⟨fun m j hm => ?_, fun m grant hm => ?_, fun m grant hm => ?_,
      fun m grant now expiresAt limited hm => ?_, fun m token now hm => ?_, fun m now hm => ?_⟩
    all_goals
      rcases hcalls m with heq | heq
      all_goals
        rw [heq] at hm
        cases hm
  have h' := h.calmer ha rfl
  have hleft : ∀ m, (s.restart.calls m).session? = none := fun m => by
    rcases hcalls m with heq | heq <;> rw [heq] <;> rfl
  have hd : ∀ j, s.dead j = true → s.restart.revoked j = true ∨ s.restart.Forgotten j := by
    intro j hdead
    cases hrow : s.rows j with
    | none =>
      refine .inr ⟨fun grant hg hj => ?_, fun token row ht hj _ => ?_, .inl hrow⟩
      · have hc := h.issuedCovered grant hg
        unfold Covered at hc
        rwa [hj, hrow] at hc
      · exact absurd hrow (hj ▸ h.owned token row ht)
    | some row =>
      by_cases hlive : s.clock < row.expiresAt
      · left
        simp [Sessions.restart, hrow, hlive, h.deadRow j row hdead hrow]
      · have hle := not_lt.1 hlive
        refine .inr ⟨fun grant hg hj => ?_, fun token refresh ht hj hu => ⟨?_, ?_⟩,
          Or.inr fun m hm => ?_⟩
        · have hc := h.issuedCovered grant hg
          unfold Covered at hc
          rw [hj, hrow] at hc
          exact hc.trans hle
        · rcases hrest j row hdead hrow hle token refresh ht hj with hused | hexpired
          · rw [hu] at hused
            cases hused
          · exact hexpired
        · intro m now hm
          rcases hcalls m with heq | heq <;> rw [heq] at hm <;> cases hm
        · rw [hleft m] at hm
          cases hm
  exact { h' with
    deadKnown := fun j hdead => (hd j hdead).imp_right Or.inr
    discarding := nofun }

theorem Inv.tick {elapsed : Nat} : Inv config strict { s with clock := s.clock + elapsed } := by
  have hle : s.clock ≤ s.clock + elapsed := by omega
  have hc : ∀ grant, s.Covered grant → Covered { s with clock := s.clock + elapsed } grant := by
    intro grant hold
    unfold Covered at hold ⊢
    split
    next hnone =>
      rw [hnone] at hold
      exact hold.trans hle
    next row hrow =>
      rw [hrow] at hold
      exact hold
  have hf : ∀ j, s.Forgotten j → Forgotten { s with clock := s.clock + elapsed } j :=
    fun j hold => hold.mono (fun _ hg _ => .inl hg) hle (fun _ _ hrow _ _ => hrow)
      (fun _ _ _ hm => .inl hm) id fun _ hm => hm
  exact { h with
    issuedCovered := fun grant hmem => hc grant (h.issuedCovered grant hmem)
    keptCovered := fun m grant hm => hc grant (h.keptCovered m grant hm)
    issuedMax := fun grant hmem => (h.issuedMax grant hmem).trans (by dsimp only; omega)
    grantMax := fun m grant hm => (h.grantMax m grant hm).trans (by dsimp only; omega)
    cleaning := fun m now hm => (h.cleaning m now hm).trans hle
    deadKnown := fun j hj => (h.deadKnown j hj).imp_right (Or.imp_right (hf j))
    discarding := fun js m hm j hj hdead => hf j (h.discarding js m hm j hj hdead) }

theorem Inv.request {token : AccessToken}
    (hmem : token ∈ s.issued.map Grant.token) (hp : s.passes token = true)
    (htold : ∀ js m, s.pending = some (.add js, m) → token.jti ∉ js) :
    s.dead token.jti = false := by
  obtain ⟨grant, hg, rfl⟩ := mem_map.1 hmem
  simp only [passes, Bool.and_eq_true, decide_eq_true_eq, Bool.not_eq_true'] at hp
  by_contra hdead
  rcases h.deadKnown _ (by simpa using hdead) with hrev | ⟨js, m, hpending, hj⟩ | hf
  · simp [hp.2] at hrev
  · exact htold js m hpending hj
  · exact absurd hp.1 (not_lt.2 (hf.1 grant hg rfl))

-- ==== whole runs

def savesAlive (s : Sessions) (n : Nat) : Bool :=
  match s.calls n with
  | .savingSession grant _ _ _ => !s.dead grant.token.jti
  | _ => true

/-- The set in memory knows of the revocations of a session. -/
def told (s : Sessions) (session : Nat) : Bool :=
  match s.pending with
  | some (.add sessions, _) => decide (session ∉ sessions)
  | _ => true

/-- A session row is saved only while the session is not revoked, and a restart finds no expired
dead session that could be refreshed; where the care is `strict`, no request is checked between
a revocation and its note in memory. -/
def CarefulIf (strict : Prop) (s : Sessions) : Input → Prop
  | .write n => s.savesAlive n = true
  | .restart => s.Restartable
  | .request token => strict → s.told token.jti = true
  | _ => True

theorem Inv.go {reply : Reply} : (s.go config digest n reply).Inv config strict := by
  unfold Sessions.go
  split
  next userId purpose hcall =>
    unfold Sessions.userLoaded
    cases purpose with
    | refresh session origin =>
      dsimp only
      split
      · exact h.setCall (.of_none rfl id)
      · have hw : (s.calls n).session? = some session := by rw [hcall]; rfl
        exact h.createToken le_rfl (h.drawn hw) (.inl hw)
    | login =>
      dsimp only
      split
      · exact h.setCall (.of_none rfl id)
      · exact h.setCall (.of_none rfl id)
    | change jti =>
      dsimp only
      split
      · exact h.setCall (.of_none rfl id)
      · exact h.setCall (.of_none rfl id)
  next userId user purpose ok hcall =>
    cases purpose with
    | refresh session origin => exact h
    | login | change jti => exact h.setCall (by cases ok <;> exact .of_none rfl id)
  · exact h.createSession
  · exact h.setCall (.of_none rfl id)
  next grant hcall => exact h.revokeEach (by rw [hcall]; rfl) _
  · exact h

theorem Inv.write (hcare : CarefulIf strict s (.write n)) :
    (s.write config digest n).Inv config strict := by
  unfold Sessions.write
  split
  · exact h
  next hcall => exact h.saveUser hcall
  next hp hcall => exact h.consume hcall hp
  next hp hcall =>
    exact h.saveSession hcall hp (by simpa [CarefulIf, savesAlive, hcall] using hcare)
  next hp hcall => exact h.revoke hcall hp
  next hp hcall => exact h.createRefresh hcall hp
  next hp hcall => exact h.revokeAllForUser hcall hp
  next hp hcall => exact h.cleanupSessions hcall hp
  · exact h.cleanupRefresh
  · exact h

/-- STEP LEMMA. -/
theorem Inv.step {input : Input} (hcare : CarefulIf strict s input) :
    (Sessions.step config digest s input).Inv config strict := by
  cases input with
  | call n operation =>
    simp only [Sessions.step]
    split
    next hcall => exact h.call hcall
    · exact h
  | go n reply => exact h.go
  | write n => exact h.write hcare
  | note => exact h.note
  | restart => exact h.restart hcare
  | tick elapsed => exact h.tick
  | request token =>
    simp only [Sessions.step]
    split
    next hpass =>
      have ha : strict → s.dead token.jti = false := fun hstr =>
        h.request hpass.1 hpass.2 fun js m hp => by
          simpa [told, hp] using hcare hstr
      exact { h with
        passedAlive := fun hstr =>
          forall_mem_cons.2 ⟨ha hstr, h.passedAlive hstr⟩ }
    · exact h

end

theorem new_inv (config : SessionConfig) (strict : Prop) (clock : Int) (users : Nat → Option User) :
    (new clock users).Inv config strict where
  freshRow := fun _ _ => rfl
  freshCall := nofun
  freshIssued := nofun
  freshDead := fun _ _ => rfl
  freshToken := fun _ _ => ⟨rfl, not_mem_nil⟩
  alone := nofun
  spent := nofun
  single := nofun
  owned := nofun
  rotatedOnce := nodup_nil
  rotated := nofun
  issuedCovered := nofun
  keptCovered := nofun
  saving := nofun
  issuedMax := nofun
  grantMax := nofun
  cleaning := nofun
  deadRow := nofun
  deadKnown := nofun
  discarding := nofun
  deadStart := nofun
  late := nofun
  passedAlive := nofun
  returnedAlive := nofun

end Sessions

end

namespace Sessions

def Careful : Sessions → Input → Prop := CarefulIf True

/-- What a revocation is for. -/
structure StaysDead (s : Sessions) : Prop where
  passed : ∀ entry ∈ s.passed, entry.2 = false
  returned : ∀ entry ∈ s.returned, entry.2 = false
  rotatedOnce : s.rotations.Nodup

/-- In every state of a careful run, no request and no refresh got past the
revocation of its session. -/
theorem revoked_stays_dead (config : SessionConfig) (digest : String → String) (clock : Int)
    (users : Nat → Option User) (inputs : List Input)
    (hcare : Run.Throughout (Sessions.step config digest) Careful (new clock users) inputs) :
    ∀ s ∈ Run.states (Sessions.step config digest) (new clock users) inputs, s.StaysDead := by
  intro s hs
  have h := Run.throughout_states (P := Inv config True) (fun _ _ hok h => h.step hok) hcare
    (new_inv config True clock users) s hs
  exact ⟨h.passedAlive trivial, h.returnedAlive, h.rotatedOnce⟩

def anHour : SessionConfig := ⟨60, true, 10080, 5, by decide, fun _ => by decide⟩

def oneUser : Nat → Option User
  | 0 => some ⟨"alice", "hash", "ceo", false, [.owner], [], 0, 0⟩
  | _ => none

def loggedIn : List Input :=
  [.call 0 (.login 0), .go 0 .nothing, .go 0 (.verified true), .go 0 .nothing, .write 0, .note,
    .go 0 .nothing, .write 0]

def firstToken : AccessToken := ⟨0, 0, 3600000000, "hash"⟩

def loggedOut : List Input :=
  loggedIn ++ [.call 1 (.revoke 0), .write 1, .note, .request firstToken, .call 2 (.refresh 0),
    .write 2]

theorem revoked_stays_dead_loggedOut :
    (Run.final (Sessions.step anHour id) (new 0 oneUser) loggedOut).StaysDead := by
  have hcare : Run.Throughout (Sessions.step anHour id) Careful (new 0 oneUser) loggedOut := by
    refine ⟨trivial, trivial, trivial, trivial, ?_, trivial, trivial, ?_, trivial, ?_, trivial, ?_,
      trivial, ?_, trivial⟩
    all_goals
      unfold Careful CarefulIf
      decide +kernel
  exact revoked_stays_dead anHour id 0 oneUser loggedOut hcare _
    (Run.final_mem_states (Sessions.step anHour id) (new 0 oneUser) loggedOut)

/-- A refresh under way brings the session back, so does a restart after its row expired, and a
request comes before the note in memory. -/
theorem revoked_comes_back :
    (firstToken, true) ∈ (Run.final (Sessions.step anHour id) (new 0 oneUser) (loggedIn ++
        [.call 1 (.refresh 0), .write 1, .call 2 (.revoke 0), .write 2, .note, .go 1 .nothing,
          .write 1, .note, .request firstToken])).passed ∧
      (∃ entry ∈ (Run.final (Sessions.step anHour id) (new 0 oneUser) (loggedIn ++
        [.call 1 (.revoke 0), .write 1, .note, .tick 3600000000, .restart, .call 2 (.refresh 0),
          .write 2, .go 2 .nothing, .write 2, .note, .write 2])).returned, entry.2 = true) ∧
      (firstToken, true) ∈ (Run.final (Sessions.step anHour id) (new 0 oneUser) (loggedIn ++
        [.call 1 (.revoke 0), .write 1, .request firstToken])).passed := by
  refine ⟨by decide +kernel, by decide +kernel, by decide +kernel⟩

end Sessions

end Synthorg.Auth
