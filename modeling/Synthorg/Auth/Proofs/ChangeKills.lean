/-
A password change kills every earlier credential.

An access token of a replaced hash has another signature than the user's hash, and is dead
whenever it was minted. A refresh token drawn before the change mints from the new hash: it is
dead only with its session, and a change revokes no session but the one of the request. So the
other sessions of the user must have none left; and the one that is revoked must not be brought
back by a refresh that is under way.

A change is clear when every refresh token drawn before it, and every refresh under way with one,
is of a revoked session.
-/
import Synthorg.Auth.Proofs.Sessions

namespace Synthorg.Auth

open Lib

section
open List

/-- The records differ in what a password change writes, at most. -/
def SameProfile (a b : User) : Prop :=
  b = { a with
    passwordHash := b.passwordHash
    mustChangePassword := b.mustChangePassword
    updatedAt := b.updatedAt }

theorem SameProfile.refl (a : User) : SameProfile a a := rfl

theorem SameProfile.trans {a b c : User} (hab : SameProfile a b) (hbc : SameProfile b c) :
    SameProfile a c := by
  rw [hab] at hbc
  exact hbc

theorem SameProfile.symm {a b : User} (hab : SameProfile a b) : SameProfile b a := by
  unfold SameProfile at *
  rw [hab]

/-- The record of a call on its way to a token. -/
def Stage.minting? : Stage → Option (Nat × User)
  | .verifying userId user _ | .clearingLockout userId user | .hashing userId user _ _
  | .revoking _ _ (.rotate userId user) | .committed (.revoke _ (.rotate userId user)) =>
    some (userId, user)
  | _ => none

/-- The record that a change will save. -/
def Stage.edited? : Stage → Option (Nat × User)
  | .verifying userId user _ | .hashing userId user _ _ | .savingUser userId user _ =>
    some (userId, user)
  | _ => none

def Stage.Cleans : Stage → Prop
  | .cleaningSessions _ | .cleaningRefresh _ => True
  | _ => False

/-- The session that a change has still to revoke. -/
def Stage.owes? : Stage → Option Nat
  | .savingUser _ _ jti => jti
  | .revoking session [] (.rotate _ _) => some session
  | _ => none

def Stage.Rotates : Stage → Prop
  | .committed (.revoke [] (.rotate _ _)) => True
  | _ => False

namespace Sessions

variable {config : SessionConfig} {digest : String → String} {s : Sessions} {n : Nat}

-- ==== definitions

/-- The user's hash, or one it has replaced. -/
def Knows (s : Sessions) (userId : Nat) (hash : String) : Prop :=
  hash ∈ s.replaced userId ∨ ∃ user, s.users userId = some user ∧ user.passwordHash = hash

/-- The token is handed out, or in the hands of a call. -/
def Holds (s : Sessions) (grant : Grant) : Prop :=
  grant ∈ s.issued ∨ ∃ n, (s.calls n).grant? = some grant

/-- A session that is revoked, and the set in memory told; or the one `held`. -/
def Idle (s : Sessions) (held : Option Nat) (session : Nat) : Prop :=
  held = some session ∨
    s.dead session = true ∧ ∀ js m, s.pending = some (.add js, m) → session ∉ js

/-- No call can consume the refresh token any more: each reads a clock past its expiry. -/
def Lapsed (s : Sessions) (token : Nat) (row : RefreshRow) : Prop :=
  row.expiresAt ≤ s.clock ∧ ∀ n now, s.calls n = .consuming token now → row.expiresAt ≤ now

structure Clear (s : Sessions) (change : Change) (held : Option Nat) : Prop where
  rows : ∀ h row, h < change.tokensBefore → s.refreshRows h = some row →
    row.userId = change.userId → row.used = false → s.Idle held row.session ∨ s.Lapsed h row
  loading : ∀ n j h, s.calls n = .loadingUser change.userId (.refresh j h) →
    h < change.tokensBefore → s.Idle held j
  grants : ∀ grant h, s.Holds grant → grant.origin = some h → h < change.tokensBefore →
    grant.token.sub = change.userId →
      s.Idle held grant.token.jti ∨ grant.passwordHash ∈ s.replaced change.userId

def Owes (s : Sessions) (n session : Nat) : Prop :=
  (s.calls n).owes? = some session ∨
    s.dead session = true ∧ s.pending = some (.add [session], n) ∧ (s.calls n).Rotates

def Settled (s : Sessions) (n : Nat) : Prop :=
  ∀ change, s.changes n = some change → s.Clear change none

/-- THE INVARIANT. -/
structure Credentials (digest : String → String) (s : Sessions) : Prop where
  renewed : ∀ u user, s.users u = some user →
    ∀ old ∈ s.replaced u, digest old ≠ digest user.passwordHash
  signed : ∀ grant, s.Holds grant → grant.token.pwdSig = digest grant.passwordHash ∧
    s.Knows grant.token.sub grant.passwordHash
  anchored : ∀ grant, s.Holds grant → grant.origin ≠ none → s.rows grant.token.jti ≠ none
  loading : ∀ n u j h, s.calls n = .loadingUser u (.refresh j h) → s.rows j ≠ none
  minting : ∀ n u user, (s.calls n).minting? = some (u, user) → s.Knows u user.passwordHash
  edited : ∀ n u user, (s.calls n).edited? = some (u, user) →
    ∃ current, s.users u = some current ∧ SameProfile current user
  unclean : ∀ n, ¬ (s.calls n).Cleans
  revokedDead : ∀ j row, s.rows j = some row → row.revoked = true → s.dead j = true
  saved : ∀ n change, s.changes n = some change → SameProfile change.latest change.saved ∧
    change.latest.passwordHash ∈ s.replaced change.userId ∧ change.tokensBefore ≤ s.tokensDrawn
  cleared : ∀ n change, s.changes n = some change → s.Clear change none ∨
    ∃ j, s.Clear change (some j) ∧ s.Owes n j ∧ change.returned = false

-- ==== clear changes

variable {t : Sessions} {stage : Stage} {userId : Nat} {user : User} {limited : Bool}
  {grant : Grant} {now : Int}

variable {change : Change} {j : Nat} {expiresAt : Int} {next : Next} {after : After}
  {purpose : Purpose}

theorem Clear.mono {held held' : Option Nat} (h : s.Clear change held)
    (hd : change.tokensBefore ≤ s.tokensDrawn) (hidle : ∀ j, s.Idle held j → t.Idle held' j)
    (hc : s.clock ≤ t.clock)
    (hrows : ∀ i row, i < s.tokensDrawn → t.refreshRows i = some row → row.used = false →
      s.refreshRows i = some row) (hcons : ∀ m i now, t.calls m = .consuming i now →
      s.calls m = .consuming i now ∨ s.clock ≤ now)
    (hload : ∀ m u j i, t.calls m = .loadingUser u (.refresh j i) →
      s.calls m = .loadingUser u (.refresh j i) ∨ ∃ row, s.refreshRows i = some row ∧
        row.userId = u ∧ row.session = j ∧ row.used = false ∧ ¬ s.Lapsed i row)
    (hg : ∀ grant i, t.Holds grant → grant.origin = some i → s.Holds grant ∨
      ∃ m, s.calls m = .loadingUser grant.token.sub (.refresh grant.token.jti i))
    (hr : ∀ hash ∈ s.replaced change.userId, hash ∈ t.replaced change.userId) :
    t.Clear change held' where
  rows := fun i row hi hrow huser hu => by
    have hold := hrows i row (hi.trans_le hd) hrow hu
    rcases h.rows i row hi hold huser hu with hidle' | ⟨hexpired, hcalls⟩
    · exact .inl (hidle _ hidle')
    · refine .inr ⟨hexpired.trans hc, fun m now hm => ?_⟩
      rcases hcons m i now hm with hsame | hl
      · exact hcalls m now hsame
      · exact hexpired.trans hl
  loading := fun m j i hm hi => by
    rcases hload m _ j i hm with hsame | ⟨row, hrow, huser, rfl, hu, hlive⟩
    · exact hidle j (h.loading m j i hsame hi)
    · exact hidle _ ((h.rows i row hi hrow huser hu).resolve_right hlive)
  grants := fun grant i hh horigin hi huser => by
    rcases hg grant i hh horigin with hsame | ⟨m, hm⟩
    · exact (h.grants grant i hsame horigin hi huser).imp (hidle _) (hr _)
    · exact .inl (hidle _ (h.loading m _ i (huser ▸ hm) hi))

theorem Clear.drop (h : s.Clear change (some j)) (hbase : s.Credentials digest)
    (howned : ∀ i row, s.refreshRows i = some row →
      s.rows row.session ≠ none) (hrow : s.rows j = none) : s.Clear change none := by
  have hidle : ∀ i, s.rows i ≠ none → s.Idle (some j) i → s.Idle none i := by
    intro i hi hold
    rcases hold with heq | hdead
    · cases heq
      exact absurd hrow hi
    · exact .inr hdead
  refine ⟨fun i row hi hrow huser hu => ?_, fun m i h' hm hi => ?_,
    fun grant i hh horigin hi huser => ?_⟩
  · exact (h.rows i row hi hrow huser hu).imp_left (hidle _ (howned i row hrow))
  · exact hidle i (hbase.loading m _ i h' hm) (h.loading m i h' hm hi)
  · exact (h.grants grant i hh horigin hi huser).imp_left
      (hidle _ (hbase.anchored grant hh (by rw [horigin]; exact Option.some_ne_none i)))

theorem Credentials.settled (h : s.Credentials digest) (howes : (s.calls n).owes? = none)
    (hr : s.pending = none ∨ ¬ (s.calls n).Rotates) : s.Settled n := by
  intro change hc
  rcases h.cleared n change hc with hcleared | ⟨j, -, howed | ⟨-, hp, hs⟩, -⟩
  · exact hcleared
  · simp [howes] at howed
  · rcases hr with hnone | hnot
    · simp [hnone] at hp
    · exact absurd hs hnot

-- ==== calls go on

structure Leads (s : Sessions) (n : Nat) (stage : Stage) : Prop where
  grant : ∀ grant, stage.grant? = some grant → (s.calls n).grant? = some grant
  loading : ∀ u j h, stage ≠ .loadingUser u (.refresh j h)
  consuming : ∀ h now, stage = .consuming h now → s.clock ≤ now
  minting : ∀ u user, stage.minting? = some (u, user) → s.Knows u user.passwordHash
  edited : ∀ u user, stage.edited? = some (u, user) →
    ∃ current, s.users u = some current ∧ SameProfile current user
  unclean : ¬ stage.Cleans

theorem Leads.of_grant
    (hg : ∀ grant, stage.grant? = some grant → (s.calls n).grant? = some grant)
    (hload : ∀ u j h, stage ≠ .loadingUser u (.refresh j h))
    (hcons : ∀ h now, stage = .consuming h now → s.clock ≤ now)
    (hmint : stage.minting? = none) (hedit : stage.edited? = none)
    (hu : ¬ stage.Cleans) :
    s.Leads n stage where
  grant := hg
  loading := hload
  consuming := hcons
  minting := fun u user hm => by
    simp [hmint] at hm
  edited := fun u user hm => by
    simp [hedit] at hm
  unclean := hu

theorem Leads.finished : s.Leads n .finished :=
  .of_grant nofun (fun _ _ _ => nofun) (fun _ _ => nofun) rfl rfl id

theorem Leads.refused : s.Leads n .refused :=
  .of_grant nofun (fun _ _ _ => nofun) (fun _ _ => nofun) rfl rfl id

def Mints (digest : String → String) (s : Sessions) (n : Nat) (grant : Grant) : Prop :=
  (grant.token.pwdSig = digest grant.passwordHash ∧ s.Knows grant.token.sub grant.passwordHash) ∧
    ∀ i, grant.origin = some i →
      s.calls n = .loadingUser grant.token.sub (.refresh grant.token.jti i)

def Consumable (s : Sessions) (userId session token : Nat) : Prop :=
  s.rows session ≠ none ∧ ∃ row, s.refreshRows token = some row ∧ row.userId = userId ∧
    row.session = session ∧ row.used = false ∧ ¬ s.Lapsed token row

section
variable (h : s.Credentials digest)
include h

/-- STEP LEMMA of one call: it goes on to `stage`, and writes rows on the way. -/
theorem Credentials.move (ht : t = { s with
      rows := t.rows
      dead := t.dead
      pending := t.pending
      issued := t.issued
      refreshRows := t.refreshRows
      rotations := t.rotations
      sessionsDrawn := t.sessionsDrawn
      calls := Function.update s.calls n stage }) (hiss : ∀ grant ∈ t.issued, s.Holds grant)
    (hg : ∀ grant, stage.grant? = some grant →
      (s.calls n).grant? = some grant ∨ s.Mints digest n grant)
    (hload : ∀ u j i, stage = .loadingUser u (.refresh j i) → s.Consumable u j i)
    (hcons : ∀ i now, stage = .consuming i now → s.clock ≤ now)
    (hmint : ∀ u user, stage.minting? = some (u, user) → s.Knows u user.passwordHash)
    (hedit : ∀ u user, stage.edited? = some (u, user) →
      ∃ current, s.users u = some current ∧ SameProfile current user) (hu : ¬ stage.Cleans)
    (hrows : ∀ j, s.rows j ≠ none → t.rows j ≠ none)
    (hrev : ∀ j row, t.rows j = some row → row.revoked = true → t.dead j = true)
    (hunused : ∀ i row, t.refreshRows i = some row → row.used = false → s.refreshRows i = some row)
    (hdead : ∀ j, s.dead j = true → t.dead j = true)
    (hp : t.pending = s.pending ∨ s.pending = none ∧
      ∀ js m, t.pending = some (.add js, m) → ∀ j ∈ js, s.dead j ≠ true)
    (hs : ∀ change, s.changes n = some change → s.Clear change none ∨
      ∃ j, s.Clear change (some j) ∧ t.Owes n j ∧ change.returned = false) :
    t.Credentials digest := by
  have hself : t.calls n = stage := by rw [ht]; simp
  have ho : ∀ m, m ≠ n → t.calls m = s.calls m := fun m hm => by rw [ht]; simp [hm]
  have hh : ∀ grant, t.Holds grant → s.Holds grant ∨ s.Mints digest n grant := by
    intro grant hh
    rcases hh with hmem | ⟨m, hm⟩
    · exact .inl (hiss grant hmem)
    · by_cases hmn : m = n
      · subst hmn
        exact (hg grant (hself ▸ hm)).imp_left fun hold => .inr ⟨m, hold⟩
      · exact .inl (.inr ⟨m, ho m hmn ▸ hm⟩)
  have hl : ∀ m u j i, t.calls m = .loadingUser u (.refresh j i) →
      s.calls m = .loadingUser u (.refresh j i) ∨ s.Consumable u j i := by
    intro m u j i hm
    by_cases hmn : m = n
    · subst hmn
      exact .inr (hload u j i (hself.symm.trans hm))
    · exact .inl ((ho m hmn).symm.trans hm)
  have hidle : ∀ held j, s.Idle held j → t.Idle held j := fun held j hidle => by
    refine hidle.imp_right fun hgone => ⟨hdead j hgone.1, fun js m hm hmem => ?_⟩
    rcases hp with hsame | ⟨-, hnew⟩
    · exact hgone.2 js m (hsame.symm.trans hm) hmem
    · exact hnew js m hm j hmem hgone.1
  have howes : ∀ m j, m ≠ n → s.Owes m j → t.Owes m j := fun m j hmn howes => by
    unfold Owes at howes ⊢
    rw [ho m hmn]
    refine howes.imp_right fun hgone => ⟨hdead j hgone.1, ?_, hgone.2.2⟩
    rcases hp with hsame | ⟨hnone, -⟩
    · exact hsame.trans hgone.2.1
    · rw [hnone] at hgone
      exact nomatch hgone.2.1
  have hclear : ∀ change held, change.tokensBefore ≤ s.tokensDrawn → s.Clear change held →
      t.Clear change held := by
    intro change held hd hold
    refine hold.mono hd (hidle held) (by rw [ht]) (fun i row _ => hunused i row)
      (fun m i now hm => ?_) (fun m u j i hm => (hl m u j i hm).imp_right And.right)
      (fun grant i hm hi => (hh grant hm).imp_right fun hnew => ⟨n, hnew.2 i hi⟩)
      (by rw [ht]; exact fun _ hmem => hmem)
    by_cases hmn : m = n
    · subst hmn
      exact .inr (hcons i now (hself.symm.trans hm))
    · exact .inl ((ho m hmn).symm.trans hm)
  have hcleared : ∀ m change, s.changes m = some change → t.Clear change none ∨
      ∃ j, t.Clear change (some j) ∧ t.Owes m j ∧ change.returned = false := by
    intro m change hc
    have hd := (h.saved m change hc).2.2
    by_cases hmn : m = n
    · subst hmn
      exact (hs change hc).imp (hclear change none hd) fun ⟨j, hheld, hrest⟩ =>
        ⟨j, hclear change _ hd hheld, hrest⟩
    · exact (h.cleared m change hc).imp (hclear change none hd) fun ⟨j, hheld, hold, hret⟩ =>
          ⟨j, hclear change _ hd hheld, howes m j hmn hold, hret⟩
  have ha : ∀ grant, t.Holds grant → grant.origin ≠ none →
      t.rows grant.token.jti ≠ none := fun grant hm hsome => by
    rcases hh grant hm with hold | hnew
    · exact hrows _ (h.anchored grant hold hsome)
    · obtain ⟨i, hi⟩ := Option.ne_none_iff_exists'.1 hsome
      exact hrows _ (h.loading n _ _ i (hnew.2 i hi))
  have hsign : ∀ grant, t.Holds grant → grant.token.pwdSig = digest grant.passwordHash ∧
      s.Knows grant.token.sub grant.passwordHash := fun grant hm =>
    (hh grant hm).elim (h.signed grant) And.left
  have hkept : ∀ m, t.calls m = s.calls m ∨ m = n := fun m =>
    (eq_or_ne m n).symm.imp_left (ho m)
  exact {
    renewed := by rw [ht]; exact h.renewed
    signed := by rw [ht] at hsign ⊢; exact hsign
    anchored := ha
    loading := fun m u j i hm => by
      rcases hl m u j i hm with hold | hnew
      · exact hrows j (h.loading m u j i hold)
      · exact hrows j hnew.1
    minting := fun m u user hm => by
      rcases hkept m with hsame | rfl
      · rw [ht]; exact h.minting m u user (hsame ▸ hm)
      · rw [ht]; exact hmint u user (hself ▸ hm)
    edited := fun m u user hm => by
      rcases hkept m with hsame | rfl
      · rw [ht]; exact h.edited m u user (hsame ▸ hm)
      · rw [ht]; exact hedit u user (hself ▸ hm)
    unclean := fun m hm => by
      rcases hkept m with hsame | rfl
      · exact h.unclean m (hsame ▸ hm)
      · exact hu (hself ▸ hm)
    revokedDead := hrev
    saved := by rw [ht]; exact h.saved
    cleared := fun m change hc => hcleared m change (by rwa [ht] at hc) }

theorem Credentials.setCall {issued : List Grant}
    (hl : s.Leads n stage) (hiss : ∀ grant ∈ issued, s.Holds grant)
    (hs : ∀ change, s.changes n = some change → s.Clear change none ∨
      ∃ j, s.Clear change (some j) ∧ stage.owes? = some j ∧ change.returned = false) :
    Credentials digest { s.setCall n stage with issued := issued } := by
  refine h.move rfl hiss (fun grant hm => .inl (hl.grant grant hm))
    (fun u j i hm => absurd hm (hl.loading u j i)) hl.consuming hl.minting hl.edited
    hl.unclean (fun _ hj => hj) h.revokedDead (fun _ _ hrow _ => hrow) (fun _ hj => hj)
    (.inl rfl) fun change hc => (hs change hc).imp_right ?_
  rintro ⟨j, hheld, howes, hret⟩
  exact ⟨j, hheld, .inl (by simpa [Sessions.setCall] using howes), hret⟩

theorem Credentials.goes (hl : s.Leads n stage)
    (hs : s.Settled n) : (s.setCall n stage).Credentials digest :=
  h.setCall hl (fun _ hmem => .inl hmem) fun change hc => .inl (hs change hc)

theorem Credentials.createToken {drawn : Nat} {origin : Option Nat}
    (hs : s.Settled n) (hk : s.Knows userId user.passwordHash)
    (horigin : ∀ i, origin = some i → s.calls n = .loadingUser userId (.refresh j i)) :
    ({ s with sessionsDrawn := drawn }.createToken config digest n userId user j origin
      limited).Credentials digest := by
  refine h.move rfl (fun grant hm => .inl hm) (fun grant hm => .inr ?_) (fun _ _ _ => nofun)
    (fun _ _ => nofun) (fun _ _ => nofun) (fun _ _ => nofun) id (fun _ hj => hj) h.revokedDead
    (fun _ _ hrow _ => hrow) (fun _ hj => hj) (.inl rfl)
    fun change hc => .inl (hs change hc)
  cases hm
  exact ⟨⟨rfl, hk⟩, horigin⟩

theorem Credentials.createSession (hs : s.Settled n) (hk : s.Knows userId user.passwordHash) :
    (s.createSession config digest n userId user limited).Credentials digest :=
  h.createToken hs hk nofun

end

section
variable (h : s.Credentials digest)
include h

theorem Credentials.returns {entries : List (Grant × Bool)} (hs : s.Settled n) :
    Credentials digest { s with
      returned := entries
      changes := Function.update s.changes n
        ((s.changes n).map fun change => { change with returned := true }) } := by
  obtain ⟨changes, hchanges⟩ : ∃ changes, changes = Function.update s.changes n
      ((s.changes n).map fun change => { change with returned := true }) := ⟨_, rfl⟩
  rw [← hchanges]
  have ho : ∀ m, m ≠ n → changes m = s.changes m := fun m hm => by simp [hchanges, hm]
  have hself : ∀ change, changes n = some change →
      ∃ old, s.changes n = some old ∧ change = { old with returned := true } := by
    intro change hchange
    rw [hchanges, Function.update_self] at hchange
    obtain ⟨old, hold, rfl⟩ := Option.map_eq_some_iff.1 hchange
    exact ⟨old, hold, rfl⟩
  exact { h with
    saved := fun m change hchange => by
      by_cases hmn : m = n
      · subst hmn
        obtain ⟨old, hold, rfl⟩ := hself change hchange
        exact h.saved m old hold
      · exact h.saved m change ((ho m hmn).symm.trans hchange)
    cleared := fun m change hchange => by
      by_cases hmn : m = n
      · subst hmn
        obtain ⟨old, hold, rfl⟩ := hself change hchange
        have hc := hs old hold
        exact .inl ⟨hc.rows, hc.loading, hc.grants⟩
      · rcases h.cleared m change ((ho m hmn).symm.trans hchange) with hc | ⟨j, hc, howes, hret⟩
        · exact .inl ⟨hc.rows, hc.loading, hc.grants⟩
        · exact .inr ⟨j, ⟨hc.rows, hc.loading, hc.grants⟩, howes, hret⟩ }

theorem Credentials.respond (hg : (s.calls n).grant? = some grant)
    (hs : s.Settled n) : (s.respond n grant).Credentials digest := by
  have hiss : ∀ other ∈ grant :: s.issued, s.Holds other := fun other hmem =>
    (mem_cons.1 hmem).elim (fun heq => heq ▸ Or.inr ⟨n, hg⟩) Or.inl
  have h' := h.setCall .finished hiss fun change hc => .inl (hs change hc)
  refine h'.returns (h'.settled ?_ (.inr ?_))
  · simp [Sessions.setCall, Stage.owes?]
  · simp [Sessions.setCall, Stage.Rotates]

theorem Credentials.insertRefresh {refreshRows : Nat → Option RefreshRow}
    (hrows : ∀ i, i < s.tokensDrawn → refreshRows i = s.refreshRows i) : Credentials digest { s with
      tokensDrawn := s.tokensDrawn + 1
      refreshRows := refreshRows } := by
  have hclear : ∀ change held, change.tokensBefore ≤ s.tokensDrawn → s.Clear change held →
      Clear { s with tokensDrawn := s.tokensDrawn + 1, refreshRows := refreshRows } change held :=
    fun change held hd hold => hold.mono hd (fun _ hidle => hidle) le_rfl
      (fun i row hi hrow _ => (hrows i hi).symm.trans hrow) (fun _ _ _ hm => .inl hm)
      (fun _ _ _ _ hm => .inl hm) (fun _ _ hm _ => .inl hm) fun _ hmem => hmem
  exact { h with
    saved := fun m change hc => by
      obtain ⟨hp, hr, hd⟩ := h.saved m change hc
      exact ⟨hp, hr, Nat.le_succ_of_le hd⟩
    cleared := fun m change hc => by
      have hd := (h.saved m change hc).2.2
      exact (h.cleared m change hc).imp (hclear change none hd) fun hpart => by
        obtain ⟨j, hheld, howes⟩ := hpart
        exact ⟨j, hclear change _ hd hheld, howes⟩ }

theorem Credentials.createRefresh (hcall : s.calls n = .creatingRefresh grant expiresAt) :
    (s.createRefresh n grant expiresAt).Credentials digest := by
  have hg : (s.calls n).grant? = some grant := by rw [hcall]; rfl
  have hs : (s.calls n).owes? = none ∧ ¬ (s.calls n).Rotates := by
    rw [hcall]
    exact ⟨rfl, id⟩
  have h' : Credentials digest { s with
      tokensDrawn := s.tokensDrawn + 1
      refreshRows :=
        if (s.rows grant.token.jti).isSome then
          Function.update s.refreshRows s.tokensDrawn
            (some ⟨grant.token.jti, grant.token.sub, expiresAt, false⟩)
        else s.refreshRows } := by
    refine h.insertRefresh fun i hi => ?_
    split
    · exact Function.update_of_ne (Nat.ne_of_lt hi) _ _
    · rfl
  exact h'.respond hg (h'.settled hs.1 (.inr hs.2))

-- ==== the handlers go on

theorem Credentials.makeSessionCookies
    (hg : (s.calls n).grant? = some grant) (hs : s.Settled n) :
    (s.makeSessionCookies config n grant).Credentials digest := by
  unfold Sessions.makeSessionCookies
  split
  · exact h.goes (.of_grant (fun other ho => hg.trans ho) (fun _ _ _ => nofun)
      (fun _ _ => nofun) rfl rfl id) hs
  · exact h.respond hg hs

theorem Credentials.revokeEach (hs : s.Settled n)
    (hg : ∀ grant, next.grant? = some grant → (s.calls n).grant? = some grant)
    (hk : ∀ u user, next = .rotate u user → s.Knows u user.passwordHash) (sessions : List Nat) :
    (s.revokeEach config digest n sessions next).Credentials digest := by
  cases sessions with
  | cons session rest =>
    refine h.goes ⟨fun grant hm => hg grant hm, fun _ _ _ => nofun, fun _ _ => nofun,
      fun u user hm => ?_, nofun, id⟩ hs
    cases next with
    | rotate userId other =>
      cases hm
      exact hk u user rfl
    | finish | cookies grant => cases hm
  | nil =>
    cases next with
    | finish => exact h.goes .finished hs
    | rotate userId user => exact h.createSession hs (hk userId user rfl)
    | cookies grant => exact h.makeSessionCookies (hg grant rfl) hs

theorem Credentials.goOn (hcall : s.calls n = .committed after)
    (hs : s.Settled n) : (s.goOn config digest n after).Credentials digest := by
  cases after with
  | revoke sessions next =>
    refine h.revokeEach hs (fun grant hm => ?_) (fun u user hm => ?_) sessions
    · rw [hcall]
      exact hm
    · refine h.minting n u user ?_
      rw [hcall, hm]
      rfl
  | cookies grant => exact h.makeSessionCookies (by rw [hcall]; rfl) hs
  | limit grant =>
    have hg : (s.calls n).grant? = some grant := by rw [hcall]; rfl
    simp only [Sessions.goOn]
    split
    · exact h.makeSessionCookies hg hs
    · exact h.goes (.of_grant (fun other ho => hg.trans ho) (by rintro _ _ _ ⟨⟩)
        (by rintro _ _ ⟨⟩) rfl rfl id) hs

theorem Credentials.note : (s.note config digest).Credentials digest := by
  unfold Sessions.note
  split
  · exact h
  next note m hp =>
    dsimp only
    obtain ⟨revoked, hrev⟩ : ∃ revoked, revoked = update s.revoked note := ⟨_, rfl⟩
    rw [← hrev]
    have hc : ∀ change held held', change.tokensBefore ≤ s.tokensDrawn →
        s.Clear change held → (∀ j, held = some j → held' = some j ∨ s.dead j = true) →
          Clear { s with pending := none, revoked := revoked } change held' := by
      intro change held held' hd hold hheld
      refine hold.mono hd (fun j hidle => ?_) le_rfl (fun _ _ _ hrow _ => hrow)
        (fun _ _ _ hm => .inl hm) (fun _ _ _ _ hm => .inl hm) (fun _ _ hm _ => .inl hm)
        fun _ hmem => hmem
      rcases hidle with heq | ⟨hdead, -⟩
      · exact (hheld j heq).imp_right fun hdead => ⟨hdead, nofun⟩
      · exact .inr ⟨hdead, nofun⟩
    have htold : Credentials digest { s with pending := none, revoked := revoked } :=
      { h with
        cleared := fun i change hchange => by
          have hd := (h.saved i change hchange).2.2
          rcases h.cleared i change hchange with hdone | ⟨j, hpart, howes, hret⟩
          · exact .inl (hc change none none hd hdone nofun)
          · rcases howes with howed | ⟨hdead, -, -⟩
            · exact .inr ⟨j, hc change _ _ hd hpart fun _ => Or.inl, .inl howed, hret⟩
            · refine .inl (hc change _ none hd hpart fun i hi => ?_)
              cases hi
              exact .inr hdead }
    split
    next after hcall => exact htold.goOn hcall (htold.settled (by rw [hcall]; rfl) (.inl rfl))
    · exact htold

end

-- ==== the writes

section
variable (h : s.Credentials digest)
include h

/-- A step that keeps the accounts, the refresh tokens and what is minted. -/
theorem Credentials.commits (rows : Nat → Option SessionRow)
    (dead : Nat → Bool) (note : Note) (hp : s.pending = none) (ht : t = { s with
      rows := rows
      dead := dead
      pending := some (note, n)
      calls := Function.update s.calls n (.committed after) })
    (hg : ∀ grant, after.grant? = some grant → (s.calls n).grant? = some grant)
    (hmint : ∀ u user, (Stage.committed after).minting? = some (u, user) →
      s.Knows u user.passwordHash) (hrows : ∀ j, s.rows j ≠ none → rows j ≠ none)
    (hrev : ∀ j row, rows j = some row → row.revoked = true → dead j = true)
    (hdead : ∀ j, s.dead j = true → dead j = true ∧ ∀ js, note = .add js → j ∉ js)
    (hs : ∀ change, s.changes n = some change → s.Clear change none ∨
      ∃ j, s.Clear change (some j) ∧ dead j = true ∧ note = .add [j] ∧
        (Stage.committed after).Rotates ∧ change.returned = false) : t.Credentials digest := by
  subst ht
  refine h.move rfl (fun _ hm => .inl hm) (fun grant hm => .inl (hg grant hm))
    (fun _ _ _ => nofun) (fun _ _ => nofun) hmint (fun _ _ => nofun) id hrows hrev
    (fun _ _ hrow _ => hrow) (fun j hj => (hdead j hj).1)
    (.inr ⟨hp, fun js m hm j hmem hj => ?_⟩)
    fun change hc => (hs change hc).imp_right ?_
  · cases hm
    exact (hdead j hj).2 js rfl hmem
  · rintro ⟨j, hheld, hgone, hnote, hr, hret⟩
    exact ⟨j, hheld, .inr ⟨hgone, by rw [hnote], by simpa using hr⟩, hret⟩

theorem Credentials.saveSession
    (hcall : s.calls n = .savingSession grant now expiresAt limited) (hp : s.pending = none) :
    (s.saveSession n grant now expiresAt limited).Credentials digest := by
  refine h.commits _ s.dead _ hp rfl (fun other hm => ?_) (fun u user hm => ?_)
    (fun j hj => ?_) (fun j row hrow hrev => ?_) (fun j hdead => ⟨hdead, fun js => nofun⟩)
    fun change hc => .inl (h.settled (by rw [hcall]; rfl) (.inl hp) change hc)
  · rw [hcall]
    cases limited <;> exact hm
  · cases limited <;> cases hm
  · by_cases hsame : j = grant.token.jti
    · simp [hsame]
    · simpa [hsame] using hj
  · by_cases hsame : j = grant.token.jti
    · rw [hsame, Function.update_self] at hrow
      cases hrow
      cases hrev
    · rw [Function.update_of_ne hsame] at hrow
      exact h.revokedDead j row hrow hrev

theorem Credentials.markRevoked
    (hd : ∀ j row, s.dead j = true → s.rows j = some row → row.revoked = true)
    (chosen : Nat → Bool) (js : List Nat) (after : After) (hp : s.pending = none)
    (hchosen : ∀ j, chosen j = true → ∃ row, s.rows j = some row ∧ row.revoked = false)
    (hjs : ∀ j ∈ js, chosen j = true)
    (hg : ∀ grant, after.grant? = some grant → (s.calls n).grant? = some grant)
    (hmint : ∀ u user, (Stage.committed after).minting? = some (u, user) →
      s.Knows u user.passwordHash)
    (hs : ∀ change, s.changes n = some change → s.Clear change none ∨
      ∃ j, s.Clear change (some j) ∧ js = [j] ∧ (Stage.committed after).Rotates ∧
        change.returned = false) (ht : t = { s with
      rows := fun j =>
        if chosen j then (s.rows j).map fun row => { row with revoked := true } else s.rows j
      dead := fun j => s.dead j || chosen j
      pending := some (.add js, n)
      calls := Function.update s.calls n (.committed after) }) : t.Credentials digest := by
  refine h.commits _ _ _ hp ht hg hmint (fun j hj => ?_) (fun j row hrow hrev => ?_)
    (fun j hdead => ⟨by simp [hdead], fun is his hmem => ?_⟩) fun change hchange => ?_
  · by_cases hc : chosen j
    · simpa [hc] using hj
    · simpa [hc] using hj
  · by_cases hc : chosen j
    · simp [hc]
    · simp only [hc] at hrow
      simp [h.revokedDead j row hrow hrev]
  · cases his
    obtain ⟨row, hrow, hlive⟩ := hchosen j (hjs j hmem)
    simp [hd j row hdead hrow] at hlive
  · refine (hs change hchange).imp_right fun hpart => ?_
    obtain ⟨j, hheld, rfl, hr, hret⟩ := hpart
    exact ⟨j, hheld, by simp [hjs j (mem_singleton_self j)], rfl, hr, hret⟩

theorem Credentials.revoke {session : Nat} {rest : List Nat}
    (hbase : s.Inv config False) (hcall : s.calls n = .revoking session rest next)
    (hp : s.pending = none) :
    (s.revoke config digest n session rest next).Credentials digest := by
  have hg : ∀ grant, next.grant? = some grant → (s.calls n).grant? = some grant := by
    intro grant hm
    rw [hcall]
    exact hm
  have hk : ∀ u user, next = .rotate u user → s.Knows u user.passwordHash := by
    rintro u user rfl
    exact h.minting n u user (by rw [hcall]; rfl)
  -- what the change of `n` owes is the revocation of `session`
  have howed : ∀ change, s.changes n = some change → s.Clear change none ∨
      s.Clear change (some session) ∧ (Stage.committed (.revoke rest next)).Rotates ∧
        change.returned = false := by
    intro change hc
    refine (h.cleared n change hc).imp_right fun hpart => ?_
    obtain ⟨j, hheld, howed | ⟨-, hsome, -⟩, hret⟩ := hpart
    · rw [hcall] at howed
      cases rest with
      | cons _ _ => cases howed
      | nil =>
        cases next with
        | rotate userId user =>
          cases howed
          exact ⟨hheld, trivial, hret⟩
        | finish | cookies grant => cases howed
    · simp [hp] at hsome
  unfold Sessions.revoke
  split
  next hnone =>
    refine h.revokeEach (fun change hc => ?_) hg hk rest
    rcases howed change hc with hclear | ⟨hheld, -⟩
    · exact hclear
    · exact hheld.drop h hbase.owned hnone
  next row hrow =>
    split
    next hrev =>
      have hdead := h.revokedDead session row hrow hrev
      refine h.revokeEach (fun change hc => ?_) hg hk rest
      rcases howed change hc with hclear | ⟨hheld, -⟩
      · exact hclear
      · refine hheld.mono (h.saved n change hc).2.2 (fun j hidle => ?_) le_rfl
          (fun _ _ _ hi _ => hi) (fun _ _ _ hm => .inl hm) (fun _ _ _ _ hm => .inl hm)
          (fun _ _ hm _ => .inl hm) fun _ hmem => hmem
        rcases hidle with heq | hgone
        · cases heq
          exact .inr ⟨hdead, fun js m hm => by rw [hp] at hm; cases hm⟩
        · exact .inr hgone
    next hlive =>
      have hrows : Function.update s.rows session (some { row with revoked := true }) =
          fun j => if decide (j = session) then
            (s.rows j).map fun row => { row with revoked := true } else s.rows j := by
        funext j
        by_cases hj : j = session
        · simp [hj, hrow]
        · simp [hj]
      have hdead : Function.update s.dead session true =
          fun j => s.dead j || decide (j = session) := by
        funext j
        by_cases hj : j = session
        · simp [hj]
        · simp [hj]
      rw [hrows, hdead]
      refine h.markRevoked hbase.deadRow (fun j => decide (j = session)) [session]
        (.revoke rest next) hp (fun j hj => ?_) (fun j hj => ?_) hg
        (fun u user hm => ?_) (fun change hc => ?_) rfl
      · obtain rfl : j = session := by simpa using hj
        exact ⟨row, hrow, by simpa using hlive⟩
      · simpa using hj
      · cases next with
        | rotate userId other =>
          cases hm
          exact hk u user rfl
        | finish | cookies grant => cases hm
      · exact (howed change hc).imp_right fun hpart =>
          ⟨session, hpart.1, rfl, hpart.2⟩

theorem Credentials.revokeAllForUser (hbase : s.Inv config False)
    (hcall : s.calls n = .revokingAll userId now) (hp : s.pending = none) :
    (s.revokeAllForUser n userId now).Credentials digest := by
  have hs : s.Settled n := h.settled (by rw [hcall]; rfl) (.inl hp)
  unfold Sessions.revokeAllForUser
  split
  · exact h.goes .finished hs
  · refine h.markRevoked hbase.deadRow (s.isActive userId now) _ (.revoke [] .finish) hp
      (fun j hj => ?_) (fun j hj => (mem_filter.1 hj).2) nofun
      nofun (fun change hc => .inl (hs change hc)) rfl
    cases hrow : s.rows j with
    | none => simp [isActive, hrow] at hj
    | some row =>
      simp only [isActive, hrow, Bool.and_eq_true, Bool.not_eq_true'] at hj
      exact ⟨row, rfl, hj.1.2⟩

theorem Credentials.consume {token : Nat}
    (howned : ∀ i row, s.refreshRows i = some row → s.rows row.session ≠ none)
    (hcall : s.calls n = .consuming token now) (hp : s.pending = none) :
    (s.consume n token now).Credentials digest := by
  have hs : s.Settled n := h.settled (by rw [hcall]; rfl) (.inl hp)
  unfold Sessions.consume
  split
  · exact h.goes .refused hs
  next row hrow =>
  split
  · exact h.goes .refused hs
  next hgood =>
  split
  · exact h.goes .refused hs
  obtain ⟨hu, hunexpected⟩ := not_or.1 hgood
  have hu : row.used = false := by simpa using hu
  have hlive : ¬ s.Lapsed token row := fun hl => hunexpected (hl.2 n now hcall)
  refine h.move rfl (fun _ hm => .inl hm) nofun (fun u j i hm => ?_)
    (fun _ _ => nofun) (fun _ _ => nofun) (fun _ _ => nofun) id (fun _ hj => hj) h.revokedDead
    (fun i other hi hnew => ?_) (fun _ hj => hj) (.inl rfl)
    fun change hc => .inl (hs change hc)
  · cases hm
    exact ⟨howned token row hrow, row, hrow, rfl, rfl, hu, hlive⟩
  · by_cases ht : i = token
    · simp only [ht, Function.update_self] at hi
      cases hi
      cases hnew
    · simpa [ht] using hi

end

/-- THE CONDITION: the user has no refresh token left, used or lapsed ones apart, but of revoked
sessions and the request's; and the new hash has a digest of its own. -/
structure Changeable (digest : String → String) (s : Sessions) (userId : Nat) (user : User)
    (jti : Option Nat) : Prop where
  rows : ∀ h row, s.refreshRows h = some row → row.userId = userId → row.used = false →
    (jti = some row.session ∨ s.dead row.session = true) ∨ s.Lapsed h row
  loading : ∀ n j h, s.calls n = .loadingUser userId (.refresh j h) →
    jti = some j ∨ s.dead j = true
  fresh : ∀ old, s.Knows userId old → digest old ≠ digest user.passwordHash

theorem Credentials.saveUser {jti : Option Nat} (h : s.Credentials digest)
    (hcall : s.calls n = .savingUser userId user jti) (hpending : s.pending = none)
    (hcare : Changeable digest s userId user jti) :
    (s.saveUser config digest n userId user jti).Credentials digest := by
  obtain ⟨latest, hl, hp⟩ := h.edited n userId user (by rw [hcall]; rfl)
  unfold Sessions.saveUser
  rw [hl]
  dsimp only
  obtain ⟨saved, hs⟩ : ∃ saved : User, saved = { user with createdAt := latest.createdAt } :=
    ⟨_, rfl⟩
  rw [← hs]
  have hhash : saved.passwordHash = user.passwordHash := by rw [hs]
  have hsame : SameProfile latest saved := by
    rw [hs]
    unfold SameProfile at hp ⊢
    rw [hp]
  obtain ⟨users, husers⟩ : ∃ users, users = Function.update s.users userId (some saved) := ⟨_, rfl⟩
  obtain ⟨replaced, hr⟩ : ∃ replaced, replaced =
      Function.update s.replaced userId (latest.passwordHash :: s.replaced userId) := ⟨_, rfl⟩
  obtain ⟨changes, hchanges⟩ : ∃ changes, changes = Function.update s.changes n
      (some ⟨userId, jti, latest, saved, s.tokensDrawn, false⟩) := ⟨_, rfl⟩
  rw [← husers, ← hr, ← hchanges]
  have huser : users userId = some saved := by simp [husers]
  have ho : ∀ u, u ≠ userId → users u = s.users u := fun u hu => by simp [husers, hu]
  have hrefused : replaced userId = latest.passwordHash :: s.replaced userId := by
    simp [hr]
  have hresolution : ∀ u, u ≠ userId → replaced u = s.replaced u := fun u hu => by
    simp [hr, hu]
  have hg : ∀ u hash, hash ∈ s.replaced u → hash ∈ replaced u := by
    intro u hash hmem
    by_cases hu : u = userId
    · rw [hu, hrefused]
      exact mem_cons_of_mem _ (hu ▸ hmem)
    · rwa [hresolution u hu]
  -- what was known of the user is replaced now
  have hold : ∀ hash, s.Knows userId hash → hash ∈ replaced userId := by
    intro hash hk
    rw [hrefused]
    rcases hk with hmem | ⟨current, hcurrent, rfl⟩
    · exact mem_cons_of_mem _ hmem
    · rw [hl] at hcurrent
      cases hcurrent
      exact mem_cons_self
  have hk : ∀ u hash, s.Knows u hash →
      Knows { s with users := users, replaced := replaced, changes := changes } u hash := by
    intro u hash hk
    by_cases hu : u = userId
    · exact .inl (hu ▸ hold hash (hu ▸ hk))
    · refine hk.imp (hg u hash) fun hcurrent => ?_
      dsimp only
      rwa [ho u hu]
  have hclear : ∀ change held, change.tokensBefore ≤ s.tokensDrawn → s.Clear change held →
      Clear { s with users := users, replaced := replaced, changes := changes } change held :=
    fun change held hd hclear => hclear.mono hd (fun _ hidle => hidle) le_rfl
      (fun _ _ _ hrow _ => hrow) (fun _ _ _ hm => .inl hm) (fun _ _ _ _ hm => .inl hm)
      (fun _ _ hm _ => .inl hm) (hg _)
  have hdead : ∀ j, jti = some j ∨ s.dead j = true → s.Idle jti j := fun j hj =>
    hj.imp_right fun hdead => ⟨hdead, fun js m hm => by rw [hpending] at hm; cases hm⟩
  have hnew : Clear { s with users := users, replaced := replaced, changes := changes }
      ⟨userId, jti, latest, saved, s.tokensDrawn, false⟩ jti := by
    refine ⟨fun i row _ hrow hu hunused => ?_, fun m j i hm _ => hdead j (hcare.loading m j i hm),
      fun grant i hm _ _ hu => .inr ?_⟩
    · exact (hcare.rows i row hrow hu hunused).imp_left (hdead _)
    · obtain rfl : grant.token.sub = userId := hu
      exact hold _ (h.signed grant hm).2
  have hb : Credentials digest
      { s with users := users, replaced := replaced, changes := changes } :=
    { h with
      renewed := fun u current hcurrent old hmem => by
        have hcurrent : users u = some current := hcurrent
        have hmem : old ∈ replaced u := hmem
        by_cases hu : u = userId
        · subst hu
          rw [huser] at hcurrent
          cases hcurrent
          rw [hrefused] at hmem
          rw [hhash]
          refine hcare.fresh old ?_
          rcases mem_cons.1 hmem with rfl | hmem
          · exact .inr ⟨latest, hl, rfl⟩
          · exact .inl hmem
        · rw [ho u hu] at hcurrent
          rw [hresolution u hu] at hmem
          exact h.renewed u current hcurrent old hmem
      signed := fun grant hm => (h.signed grant hm).imp_right (hk _ _)
      minting := fun m u user hm => hk _ _ (h.minting m u user hm)
      edited := fun m u user hm => by
        obtain ⟨current, hcurrent, hp⟩ := h.edited m u user hm
        by_cases hu : u = userId
        · subst hu
          rw [hl] at hcurrent
          cases hcurrent
          exact ⟨saved, huser, hsame.symm.trans hp⟩
        · exact ⟨current, (ho u hu).trans hcurrent, hp⟩
      saved := fun m change hc => by
        have hc : changes m = some change := hc
        rw [hchanges, Function.update_apply] at hc
        split at hc
        · cases hc
          exact ⟨hsame, hold _ (.inr ⟨latest, hl, rfl⟩), le_rfl⟩
        · obtain ⟨hsame, hmem, hd⟩ := h.saved m change hc
          exact ⟨hsame, hg _ _ hmem, hd⟩
      cleared := fun m change hc => by
        have hc : changes m = some change := hc
        rw [hchanges, Function.update_apply] at hc
        split at hc
        next hmn =>
          subst hmn
          cases hc
          cases jti with
          | none => exact .inl hnew
          | some j => exact .inr ⟨j, hnew, .inl (by rw [hcall]; rfl), rfl⟩
        · have hd := (h.saved m change hc).2.2
          refine (h.cleared m change hc).imp (hclear change none hd) fun hpart => ?_
          obtain ⟨j, hheld, howes⟩ := hpart
          exact ⟨j, hclear change _ hd hheld, howes⟩ }
  have hknown : Knows { s with users := users, replaced := replaced, changes := changes } userId
      user.passwordHash := .inr ⟨saved, huser, hhash⟩
  cases jti with
  | none => exact hb.createSession (hb.settled (by rw [hcall]; rfl) (.inl hpending)) hknown
  | some j =>
    refine hb.setCall ⟨nofun, fun _ _ _ => nofun, fun _ _ => nofun,
      fun u other hm => ?_, nofun, id⟩ (fun _ hmem => .inl hmem)
      fun change hc => ?_
    · cases hm
      exact hknown
    · refine (hb.cleared n change hc).imp_right fun hpart => ?_
      obtain ⟨i, hheld, howed | ⟨-, hsome, -⟩, hret⟩ := hpart
      · rw [hcall] at howed
        exact ⟨i, hheld, howed, hret⟩
      · simp [hpending] at hsome

-- ==== the rest of the steps

def Input.Requested : Input → Prop
  | .restart | .call _ .cleanupSessions | .call _ .cleanupRefresh => False
  | _ => True

section
variable (h : s.Credentials digest)
include h

theorem Credentials.call {operation : Operation}
    (hcall : s.calls n = .absent) (hreq : (Input.call n operation).Requested) :
    Credentials digest { s.setCall n (s.begin operation) with
      deadAtStart := Function.update s.deadAtStart n s.dead } := by
  have hs : s.Settled n := h.settled (by rw [hcall]; rfl) (.inr (by rw [hcall]; exact id))
  have hl : s.Leads n (s.begin operation) := by
    refine .of_grant ?_ ?_ ?_ ?_ ?_ ?_
    · cases operation <;> exact nofun
    · cases operation <;> exact fun _ _ _ => nofun
    · cases operation with
      | refresh token =>
        intro i now hm
        cases hm
        exact le_rfl
      | _ => exact fun _ _ => nofun
    · cases operation <;> rfl
    · cases operation <;> rfl
    · cases operation with
      | cleanupSessions | cleanupRefresh => cases hreq
      | _ => exact id
  have h' := h.goes hl hs
  exact { h' with
    cleared := fun m change hchange => by
      rcases h'.cleared m change hchange with hc | ⟨j, hc, howes, hret⟩
      · exact .inl ⟨hc.rows, hc.loading, hc.grants⟩
      · exact .inr ⟨j, ⟨hc.rows, hc.loading, hc.grants⟩, howes, hret⟩ }

theorem Credentials.tick {elapsed : Nat} :
    Credentials digest { s with clock := s.clock + elapsed } := by
  have hc : ∀ change held, change.tokensBefore ≤ s.tokensDrawn → s.Clear change held →
      Clear { s with clock := s.clock + elapsed } change held := fun change held hd hold =>
    hold.mono hd (fun _ hidle => hidle) (by dsimp only; omega) (fun _ _ _ hrow _ => hrow)
      (fun _ _ _ hm => .inl hm) (fun _ _ _ _ hm => .inl hm) (fun _ _ hm _ => .inl hm)
      fun _ hmem => hmem
  exact { h with
    cleared := fun m change hchange => by
      have hd := (h.saved m change hchange).2.2
      refine (h.cleared m change hchange).imp (hc change none hd) fun hpart => ?_
      obtain ⟨j, hheld, howes⟩ := hpart
      exact ⟨j, hc change _ hd hheld, howes⟩ }

theorem Credentials.request {entries : List (AccessToken × Bool)} :
    Credentials digest { s with passed := entries } :=
  { h with
    cleared := fun m change hchange => by
      rcases h.cleared m change hchange with hc | ⟨j, hc, howes, hret⟩
      · exact .inl ⟨hc.rows, hc.loading, hc.grants⟩
      · exact .inr ⟨j, ⟨hc.rows, hc.loading, hc.grants⟩, howes, hret⟩ }

theorem Credentials.userLoaded (hcall : s.calls n = .loadingUser userId purpose) :
    (s.userLoaded config digest n userId purpose).Credentials digest := by
  have hs : s.Settled n := h.settled (by rw [hcall]; rfl) (.inr (by rw [hcall]; exact id))
  have hv : ∀ user purpose, s.users userId = some user →
      s.Leads n (.verifying userId user purpose) := fun user purpose huser =>
    ⟨nofun, fun _ _ _ => nofun, fun _ _ => nofun,
      fun u other hm => by cases hm; exact .inr ⟨user, huser, rfl⟩,
      fun u other hm => by cases hm; exact ⟨user, huser, .refl user⟩, id⟩
  unfold Sessions.userLoaded
  cases purpose with
  | refresh session origin =>
    dsimp only
    split
    · exact h.goes .refused hs
    next user huser =>
      refine h.createToken hs (.inr ⟨user, huser, rfl⟩) fun i hi => ?_
      cases hi
      exact hcall
  | login =>
    dsimp only
    split
    · exact h.goes .refused hs
    next user huser => exact h.goes (hv user _ huser) hs
  | change jti =>
    dsimp only
    split
    · exact h.goes .refused hs
    next user huser => exact h.goes (hv user _ huser) hs

theorem Credentials.passwordVerified {ok : Bool}
    (hcall : s.calls n = .verifying userId user purpose) :
    (s.passwordVerified n userId user ok purpose).Credentials digest := by
  have hs : s.Settled n := h.settled (by rw [hcall]; rfl) (.inr (by rw [hcall]; exact id))
  have hk := h.minting n userId user (by rw [hcall]; rfl)
  have hedit := h.edited n userId user (by rw [hcall]; rfl)
  cases purpose with
  | refresh session origin => exact h
  | login =>
    cases ok with
    | false => exact h.goes .refused hs
    | true =>
      exact h.goes ⟨nofun, fun _ _ _ => nofun, fun _ _ => nofun,
        fun u other hm => by cases hm; exact hk, nofun, id⟩ hs
  | change jti =>
    cases ok with
    | false => exact h.goes .refused hs
    | true =>
      exact h.goes ⟨nofun, fun _ _ _ => nofun, fun _ _ => nofun,
        fun u other hm => by cases hm; exact hk,
        fun u other hm => by cases hm; exact hedit, id⟩ hs

theorem Credentials.go {reply : Reply} : (s.go config digest n reply).Credentials digest := by
  unfold Sessions.go
  split
  next hcall => exact h.userLoaded hcall
  next hcall => exact h.passwordVerified hcall
  next userId user hcall =>
    exact h.createSession (h.settled (by rw [hcall]; rfl) (.inr (by rw [hcall]; exact id)))
      (h.minting n userId user (by rw [hcall]; rfl))
  next userId user jti now newHash hcall =>
    obtain ⟨current, hc, hp⟩ := h.edited n userId user (by rw [hcall]; rfl)
    refine h.goes ⟨nofun, fun _ _ _ => nofun, fun _ _ => nofun,
      nofun, fun u other hm => ?_, id⟩
      (h.settled (by rw [hcall]; rfl) (.inr (by rw [hcall]; exact id)))
    cases hm
    exact ⟨current, hc, hp.trans rfl⟩
  next grant hcall =>
    refine h.revokeEach (h.settled (by rw [hcall]; rfl) (.inr (by rw [hcall]; exact id)))
      (fun other hm => ?_) (fun u user hm => by cases hm) _
    rw [hcall]
    exact hm
  · exact h

def ChangesCarefully (digest : String → String) (s : Sessions) (n : Nat) : Prop :=
  ∀ userId user jti, s.calls n = .savingUser userId user jti → Changeable digest s userId user jti

theorem Credentials.write (hbase : s.Inv config False)
    (hcare : s.ChangesCarefully digest n) : (s.write config digest n).Credentials digest := by
  unfold Sessions.write
  split
  · exact h
  next userId user jti hp hcall => exact h.saveUser hcall hp (hcare userId user jti hcall)
  next hp hcall => exact h.consume hbase.owned hcall hp
  next hp hcall => exact h.saveSession hcall hp
  next hp hcall => exact h.revoke hbase hcall hp
  next hp hcall => exact h.createRefresh hcall
  next hp hcall => exact h.revokeAllForUser hbase hcall hp
  next hp hcall => exact absurd (by rw [hcall]; trivial) (h.unclean n)
  next hp hcall => exact absurd (by rw [hcall]; trivial) (h.unclean n)
  · exact h

/-- STEP LEMMA. -/
theorem Credentials.step {input : Input} (hbase : s.Inv config False)
    (hreq : input.Requested) (hcare : ∀ n, input = .write n → s.ChangesCarefully digest n) :
    (Sessions.step config digest s input).Credentials digest := by
  cases input with
  | call n operation =>
    simp only [Sessions.step]
    split
    next hcall => exact h.call hcall hreq
    · exact h
  | go n reply => exact h.go
  | write n => exact h.write hbase (hcare n rfl)
  | note => exact h.note
  | restart => cases hreq
  | tick elapsed => exact h.tick
  | request token =>
    simp only [Sessions.step]
    split
    · exact h.request
    · exact h

end

theorem new_credentials (digest : String → String) (clock : Int) (users : Nat → Option User) :
    (new clock users).Credentials digest where
  renewed := nofun
  signed := fun _ hm => hm.elim nofun fun ⟨_, hm⟩ => nomatch hm
  anchored := fun _ hm => hm.elim nofun fun ⟨_, hm⟩ => nomatch hm
  loading := nofun
  minting := nofun
  edited := nofun
  unclean := fun _ hm => hm
  revokedDead := nofun
  saved := nofun
  cleared := nofun

end Sessions

end

namespace Sessions

def CarefulChange (digest : String → String) (s : Sessions) : Input → Prop
  | .write n => s.savesAlive n = true ∧ s.ChangesCarefully digest n
  | _ => True

/-- Once a change has returned, no earlier token authenticates; the profile stays. -/
structure KillsEarlier (digest : String → String) (s : Sessions) : Prop where
  access : ∀ n change, s.changes n = some change → change.returned = true → ∀ grant ∈ s.issued,
    grant.token.sub = change.userId → grant.passwordHash = change.latest.passwordHash →
      s.authenticates digest grant.token = false
  refresh : ∀ n change, s.changes n = some change → change.returned = true → ∀ grant ∈ s.issued,
    grant.token.sub = change.userId → ∀ h < change.tokensBefore, grant.origin = some h →
      s.authenticates digest grant.token = false
  profile : ∀ n change, s.changes n = some change → SameProfile change.latest change.saved

variable {config : SessionConfig} {digest : String → String} {s : Sessions}

theorem Credentials.stale {grant : Grant} (h : s.Credentials digest) (hiss : grant ∈ s.issued)
    (hr : grant.passwordHash ∈ s.replaced grant.token.sub) :
    s.authenticates digest grant.token = false := by
  obtain ⟨hsign, -⟩ := h.signed grant (.inl hiss)
  unfold authenticates
  split
  · exact Bool.and_false _
  next user huser =>
    have hne := h.renewed _ user huser grant.passwordHash hr
    rw [hsign, beq_false_of_ne hne.symm, Bool.and_false]

theorem Inv.idle {grant : Grant} (h : s.Inv config False) (hiss : grant ∈ s.issued)
    (hidle : s.Idle none grant.token.jti) : s.authenticates digest grant.token = false := by
  rcases hidle with hnone | ⟨hdead, htold⟩
  · cases hnone
  have hpass : s.passes grant.token = false := by
    rcases h.deadKnown _ hdead with hrev | ⟨js, m, hp, hmem⟩ | hf
    · simp [passes, hrev]
    · exact absurd hmem (htold js m hp)
    · simp [passes, not_lt.2 (hf.1 grant hiss rfl)]
  rw [authenticates, hpass, Bool.false_and]

theorem Credentials.clear {n : Nat} {change : Change} (h : s.Credentials digest)
    (hc : s.changes n = some change) (hret : change.returned = true) : s.Clear change none := by
  rcases h.cleared n change hc with hclear | ⟨_, -, -, hnot⟩
  · exact hclear
  · simp [hret] at hnot

/-- In every state of a careful run the changes so far have killed what came before them. -/
theorem change_kills (config : SessionConfig) (digest : String → String) (clock : Int)
    (users : Nat → Option User) (inputs : List Input)
    (hcare : Run.Throughout (Sessions.step config digest)
      (fun s input => input.Requested ∧ s.CarefulChange digest input) (new clock users) inputs) :
    ∀ s ∈ Run.states (Sessions.step config digest) (new clock users) inputs,
      s.KillsEarlier digest := by
  have hstep : ∀ s input, input.Requested ∧ s.CarefulChange digest input →
      s.Inv config False ∧ s.Credentials digest →
        (Sessions.step config digest s input).Inv config False ∧
          (Sessions.step config digest s input).Credentials digest := by
    intro s input hok h
    obtain ⟨hrequested, hcare⟩ := hok
    have hcareful : s.CarefulIf False input := by
      cases input with
      | write n => exact hcare.1
      | restart => cases hrequested
      | request token => exact False.elim
      | _ => trivial
    refine ⟨h.1.step hcareful, h.2.step h.1 hrequested fun n hn => ?_⟩
    subst hn
    exact hcare.2
  intro s hs
  obtain ⟨hbase, h⟩ := Run.throughout_states
    (P := fun s => s.Inv config False ∧ s.Credentials digest) hstep hcare
    ⟨new_inv config False clock users, new_credentials digest clock users⟩ s hs
  refine ⟨fun n change hchange _ grant hgrant huser hhash => ?_,
    fun n change hchange hreturned grant hgrant huser i hi horigin => ?_,
    fun n change hchange => (h.saved n change hchange).1⟩
  · refine h.stale hgrant ?_
    rw [huser, hhash]
    exact (h.saved n change hchange).2.1
  · have hclear := h.clear hchange hreturned
    rcases hclear.grants grant i (Or.inl hgrant) horigin hi huser with hidle | hreplaced
    · exact hbase.idle hgrant hidle
    · exact h.stale hgrant (huser ▸ hreplaced)

theorem changesCarefully_of_edited {n : Nat} (hedit : (s.calls n).edited? = none) :
    s.ChangesCarefully digest n := by
  intro userId user jti hcall
  rw [hcall] at hedit
  cases hedit

def changing : List Input :=
  loggedIn ++ [.call 2 (.changePassword 0 (some 0)), .go 2 .nothing, .go 2 (.verified true),
    .go 2 (.hashed "new hash")]

def changed : List Input :=
  changing ++ [.write 2, .write 2, .note, .write 2, .note, .write 2, .call 3 (.refresh 0), .write 3]

theorem changing_changeable : (Run.final (Sessions.step anHour id) (new 0 oneUser)
    changing).ChangesCarefully id 2 := by
  intro userId user jti hcall
  have hs : (Run.final (Sessions.step anHour id) (new 0 oneUser) changing).calls 2 =
      .savingUser 0 ⟨"alice", "new hash", "ceo", false, [.owner], [], 0, 0⟩ (some 0) := by
    decide +kernel
  cases hs.symm.trans hcall
  have hrows : (Run.final (Sessions.step anHour id) (new 0 oneUser) changing).refreshRows =
      Function.update (fun _ => none) 0 (some ⟨0, 0, 604800000000, false⟩) := rfl
  refine ⟨fun h row hrow _ _ => ?_, fun n j h hn => ?_, fun old hold => ?_⟩
  · rw [hrows, Function.update_apply] at hrow
    split at hrow
    · cases hrow
      exact .inl (.inl rfl)
    · cases hrow
  · match n with
    | 0 | 1 | 2 | n + 3 => cases hn
  · rcases hold with hmem | ⟨user, huser, rfl⟩
    · cases hmem
    · cases huser
      decide

theorem change_kills_changed :
    (Run.final (Sessions.step anHour id) (new 0 oneUser) changed).KillsEarlier id := by
  have hcare : Run.Throughout (Sessions.step anHour id)
      (fun s input => input.Requested ∧ s.CarefulChange id input) (new 0 oneUser) changed := by
    have hother : ∀ (s : Sessions) n, s.savesAlive n = true ∧ (s.calls n).edited? = none →
        s.CarefulChange id (.write n) := fun s n h => ⟨h.1, changesCarefully_of_edited h.2⟩
    refine ⟨⟨trivial, trivial⟩, ⟨trivial, trivial⟩, ⟨trivial, trivial⟩, ⟨trivial, trivial⟩,
      ⟨trivial, hother _ _ ?_⟩, ⟨trivial, trivial⟩, ⟨trivial, trivial⟩, ⟨trivial, hother _ _ ?_⟩,
      ⟨trivial, trivial⟩, ⟨trivial, trivial⟩, ⟨trivial, trivial⟩, ⟨trivial, trivial⟩,
      ⟨trivial, rfl, changing_changeable⟩, ⟨trivial, hother _ _ ?_⟩, ⟨trivial, trivial⟩,
      ⟨trivial, hother _ _ ?_⟩, ⟨trivial, trivial⟩, ⟨trivial, hother _ _ ?_⟩, ⟨trivial, trivial⟩,
      ⟨trivial, hother _ _ ?_⟩, trivial⟩
    all_goals decide +kernel
  exact change_kills anHour id 0 oneUser changed hcare _
    (Run.final_mem_states (Sessions.step anHour id) (new 0 oneUser) changed)

def loggedInTwice : List Input :=
  loggedIn ++ [.call 1 (.login 0), .go 1 .nothing, .go 1 (.verified true), .go 1 .nothing,
    .write 1, .note, .go 1 .nothing, .write 1]

def refreshedAfterwards : List Input :=
  loggedInTwice ++ [.call 2 (.changePassword 0 (some 0)), .go 2 .nothing, .go 2 (.verified true),
    .go 2 (.hashed "new hash"), .write 2, .write 2, .note, .write 2, .note, .write 2,
    .call 3 (.refresh 1), .write 3, .go 3 .nothing, .write 3, .note, .write 3]

def refreshedMeanwhile : List Input :=
  loggedIn ++ [.call 3 (.refresh 0), .write 3, .call 2 (.changePassword 0 (some 0)),
    .go 2 .nothing, .go 2 (.verified true), .go 2 (.hashed "new hash"), .write 2, .go 3 .nothing,
    .write 2, .note, .write 2, .note, .write 2, .write 3, .note, .write 3]

/-- Both return a token that authenticates. -/
theorem earlier_refreshes :
    (∃ grant ∈ (Run.final (Sessions.step anHour id) (new 0 oneUser) refreshedAfterwards).issued,
      grant.origin = some 1 ∧ (Run.final (Sessions.step anHour id) (new 0 oneUser)
        refreshedAfterwards).authenticates id grant.token = true) ∧
    ((Run.final (Sessions.step anHour id) (new 0 oneUser) refreshedAfterwards).changes 2).map
      (fun change => (change.userId, change.tokensBefore, change.returned)) = some (0, 2, true) ∧
    (∃ grant ∈ (Run.final (Sessions.step anHour id) (new 0 oneUser) refreshedMeanwhile).issued,
      grant.origin = some 0 ∧ (Run.final (Sessions.step anHour id) (new 0 oneUser)
        refreshedMeanwhile).authenticates id grant.token = true) ∧
    ((Run.final (Sessions.step anHour id) (new 0 oneUser) refreshedMeanwhile).changes 2).map
      (fun change => (change.userId, change.tokensBefore, change.returned)) =
        some (0, 1, true) := by
  refine ⟨by decide +kernel, by decide +kernel, by decide +kernel, by decide +kernel⟩

end Sessions

end Synthorg.Auth
