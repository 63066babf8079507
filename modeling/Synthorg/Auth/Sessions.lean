/-
Sessions, refresh tokens and passwords: the request handlers of the
authentication API, over the session, refresh token and user repositories.

A handler runs from one await to the next. A repository write is one step, and the writes take
turns; one that also updates the set of revoked sessions kept in memory does so in a step of its
own after its commit, and keeps the others waiting until then. A restart ends every call and loads
the set anew.
-/
import Synthorg.Lib.Run
import Mathlib.Data.List.Sort

namespace Synthorg.Auth

/-- The fields of `AuthConfig` about sessions and refresh tokens. -/
structure SessionConfig where
  jwtExpiryMinutes : Nat
  jwtRefreshEnabled : Bool
  jwtRefreshExpiryMinutes : Nat
  maxConcurrentSessions : Nat
  expiry_bounds : 1 ≤ jwtExpiryMinutes ∧ jwtExpiryMinutes ≤ 43200
  refresh_outlives : jwtRefreshEnabled = true → jwtExpiryMinutes < jwtRefreshExpiryMinutes

namespace SessionConfig

def expirySeconds (config : SessionConfig) : Int := config.jwtExpiryMinutes * 60 * 1000000

def refreshMaxAge (config : SessionConfig) : Int := config.jwtRefreshExpiryMinutes * 60 * 1000000

end SessionConfig

inductive OrgRole
  | owner
  | departmentAdmin
  | editor
  | viewer
  deriving DecidableEq

structure User where
  username : String
  passwordHash : String
  role : String
  mustChangePassword : Bool
  orgRoles : List OrgRole
  scopedDepartments : List String
  createdAt : Int
  updatedAt : Int
  deriving DecidableEq

structure SessionRow where
  userId : Nat
  createdAt : Int
  expiresAt : Int
  revoked : Bool

structure RefreshRow where
  session : Nat
  userId : Nat
  expiresAt : Int
  used : Bool

structure AccessToken where
  jti : Nat
  sub : Nat
  exp : Int
  pwdSig : String
  deriving DecidableEq

structure Grant where
  token : AccessToken
  passwordHash : String
  origin : Option Nat
  deriving DecidableEq

/-- Why a user record is loaded. -/
inductive Purpose
  | login
  | refresh (session : Nat) (origin : Nat)
  | change (jti : Option Nat)
  deriving DecidableEq

/-- What a handler does after the revocations it waits for. -/
inductive Next
  | finish
  | rotate (userId : Nat) (user : User)
  | cookies (grant : Grant)
  deriving DecidableEq

inductive After
  | revoke (sessions : List Nat) (next : Next)
  | limit (grant : Grant)
  | cookies (grant : Grant)
  deriving DecidableEq

/-- What a handler waits for. -/
inductive Stage
  | absent
  | loadingUser (userId : Nat) (purpose : Purpose)
  | verifying (userId : Nat) (user : User) (purpose : Purpose)
  | clearingLockout (userId : Nat) (user : User)
  | hashing (userId : Nat) (user : User) (jti : Option Nat) (now : Int)
  | savingUser (userId : Nat) (user : User) (jti : Option Nat)
  | consuming (token : Nat) (now : Int)
  | savingSession (grant : Grant) (now : Int) (expiresAt : Int) (limited : Bool)
  | limiting (grant : Grant)
  | revoking (session : Nat) (rest : List Nat) (next : Next)
  | creatingRefresh (grant : Grant) (expiresAt : Int)
  | revokingAll (userId : Nat) (now : Int)
  | cleaningSessions (now : Int)
  | cleaningRefresh (now : Int)
  /-- The write is committed, and the set in memory not yet updated. -/
  | committed (after : After)
  | finished
  | refused
  deriving DecidableEq

/-- An update of the set in memory that is due. -/
inductive Note
  | add (sessions : List Nat)
  | discard (sessions : List Nat)

structure Change where
  userId : Nat
  jti : Option Nat
  /-- The record that was replaced, and the one that replaced it. -/
  latest : User
  saved : User
  tokensBefore : Nat
  returned : Bool

structure Sessions where
  clock : Int
  users : Nat → Option User
  rows : Nat → Option SessionRow
  refreshRows : Nat → Option RefreshRow
  revoked : Nat → Bool
  pending : Option (Note × Nat)
  calls : Nat → Stage
  sessionsDrawn : Nat
  tokensDrawn : Nat
  issued : List Grant
  /-- The sessions a revocation was committed of. -/
  dead : Nat → Bool
  deadAtStart : Nat → Nat → Bool
  passed : List (AccessToken × Bool)
  /-- The tokens that calls returned, and whether their session was dead when
  the call began. -/
  returned : List (Grant × Bool)
  /-- The refresh tokens that were rotated. -/
  rotations : List Nat
  replaced : Nat → List String
  changes : Nat → Option Change

namespace Sessions

def new (clock : Int) (users : Nat → Option User) : Sessions where
  clock := clock
  users := users
  rows := fun _ => none
  refreshRows := fun _ => none
  revoked := fun _ => false
  pending := none
  calls := fun _ => .absent
  sessionsDrawn := 0
  tokensDrawn := 0
  issued := []
  dead := fun _ => false
  deadAtStart := fun _ _ => false
  passed := []
  returned := []
  rotations := []
  replaced := fun _ => []
  changes := fun _ => none

def setCall (s : Sessions) (n : Nat) (stage : Stage) : Sessions :=
  { s with calls := Function.update s.calls n stage }

-- ==== tokens and cookies

/-- `int(timestamp)`. -/
def wholeSeconds (t : Int) : Int := t / 1000000 * 1000000

/-- `create_token`, and `create_session_record` up to its write. -/
def createToken (config : SessionConfig) (digest : String → String) (s : Sessions) (n userId : Nat)
    (user : User) (session : Nat) (origin : Option Nat) (limited : Bool) : Sessions :=
  let expiresAt := s.clock + config.expirySeconds
  let token := ⟨session, userId, wholeSeconds expiresAt, digest user.passwordHash⟩
  s.setCall n (.savingSession ⟨token, user.passwordHash, origin⟩ s.clock expiresAt limited)

/-- `create_token` with a new session id. -/
def createSession (config : SessionConfig) (digest : String → String) (s : Sessions)
    (n userId : Nat) (user : User) (limited : Bool) : Sessions :=
  { s with sessionsDrawn := s.sessionsDrawn + 1 }.createToken config digest n userId user
    s.sessionsDrawn none limited

def respond (s : Sessions) (n : Nat) (grant : Grant) : Sessions :=
  { s.setCall n .finished with
    issued := grant :: s.issued
    returned := (grant, s.deadAtStart n grant.token.jti) :: s.returned
    changes := Function.update s.changes n
      ((s.changes n).map fun c => { c with returned := true }) }

/-- Up to its write. -/
def makeSessionCookies (config : SessionConfig) (s : Sessions) (n : Nat) (grant : Grant) :
    Sessions :=
  if config.jwtRefreshEnabled then
    s.setCall n (.creatingRefresh grant (s.clock + config.refreshMaxAge))
  else s.respond n grant

def revokeEach (config : SessionConfig) (digest : String → String) (s : Sessions) (n : Nat) :
    List Nat → Next → Sessions
  | session :: rest, next => s.setCall n (.revoking session rest next)
  | [], .finish => s.setCall n .finished
  | [], .rotate userId user => s.createSession config digest n userId user false
  | [], .cookies grant => s.makeSessionCookies config n grant

/-- The handler goes on after a write. -/
def goOn (config : SessionConfig) (digest : String → String) (s : Sessions) (n : Nat) :
    After → Sessions
  | .revoke sessions next => s.revokeEach config digest n sessions next
  | .limit grant =>
    if config.maxConcurrentSessions = 0 then s.makeSessionCookies config n grant
    else s.setCall n (.limiting grant)
  | .cookies grant => s.makeSessionCookies config n grant

def update (revoked : Nat → Bool) : Note → Nat → Bool
  | .add sessions, session => revoked session || decide (session ∈ sessions)
  | .discard sessions, session => revoked session && !decide (session ∈ sessions)

/-- The set in memory is updated, and the writer goes on. -/
def note (config : SessionConfig) (digest : String → String) (s : Sessions) : Sessions :=
  match s.pending with
  | none => s
  | some (note, n) =>
    let s := { s with pending := none, revoked := update s.revoked note }
    match s.calls n with
    | .committed after => s.goOn config digest n after
    | _ => s

-- ==== the repositories

def saveSession (s : Sessions) (n : Nat) (grant : Grant) (now expiresAt : Int) (limited : Bool) :
    Sessions :=
  let createdAt := ((s.rows grant.token.jti).map SessionRow.createdAt).getD now
  { s with
    rows := Function.update s.rows grant.token.jti
      (some ⟨grant.token.sub, createdAt, expiresAt, false⟩)
    pending := some (.discard [grant.token.jti], n)
    calls := Function.update s.calls n
      (.committed (if limited then .limit grant else .cookies grant)) }

def revoke (config : SessionConfig) (digest : String → String) (s : Sessions) (n session : Nat)
    (rest : List Nat) (next : Next) : Sessions :=
  match s.rows session with
  | none => s.revokeEach config digest n rest next
  | some row =>
    if row.revoked then s.revokeEach config digest n rest next
    else
      { s with
        rows := Function.update s.rows session (some { row with revoked := true })
        dead := Function.update s.dead session true
        pending := some (.add [session], n)
        calls := Function.update s.calls n (.committed (.revoke rest next)) }

def defaultListLimit : Nat := 100

def listByUser (s : Sessions) (userId : Nat) : List Nat :=
  let active := (List.range s.sessionsDrawn).filterMap fun session =>
    match s.rows session with
    | some row =>
      if row.userId = userId ∧ row.revoked = false ∧ s.clock < row.expiresAt then
        some (session, row.createdAt)
      else none
    | none => none
  ((active.insertionSort fun a b => b.2 < a.2 ∨ a.2 = b.2 ∧ a.1 ≤ b.1).map Prod.fst).take
    defaultListLimit

/-- Up to its first revocation. -/
def enforceSessionLimit (config : SessionConfig) (digest : String → String) (s : Sessions)
    (n : Nat) (grant : Grant) : Sessions :=
  let active := s.listByUser grant.token.sub
  s.revokeEach config digest n (active.drop config.maxConcurrentSessions) (.cookies grant)

/-- `user_id = ? AND revoked = 0 AND expires_at > ?`. -/
def isActive (s : Sessions) (userId : Nat) (now : Int) (session : Nat) : Bool :=
  match s.rows session with
  | some row => decide (row.userId = userId) && !row.revoked && decide (now < row.expiresAt)
  | none => false

def revokeAllForUser (s : Sessions) (n userId : Nat) (now : Int) : Sessions :=
  if (List.range s.sessionsDrawn).all fun session => !s.isActive userId now session then
    s.setCall n .finished
  else
    { s with
      rows := fun session =>
        if s.isActive userId now session then
          (s.rows session).map fun row => { row with revoked := true }
        else s.rows session
      dead := fun session => s.dead session || s.isActive userId now session
      pending := some (.add ((List.range s.sessionsDrawn).filter (s.isActive userId now)), n)
      calls := Function.update s.calls n (.committed (.revoke [] .finish)) }

/-- `expires_at <= ?`. -/
def isExpired (s : Sessions) (now : Int) (session : Nat) : Bool :=
  match s.rows session with
  | some row => decide (row.expiresAt ≤ now)
  | none => false

/-- `SessionRepository.cleanup_expired`. -/
def cleanupSessions (s : Sessions) (n : Nat) (now : Int) : Sessions :=
  if (List.range s.sessionsDrawn).all fun session => !s.isExpired now session then
    s.setCall n .finished
  else
    { s with
      rows := fun session => if s.isExpired now session then none else s.rows session
      refreshRows := fun token =>
        (s.refreshRows token).filter fun row => !s.isExpired now row.session
      pending := some (.discard ((List.range s.sessionsDrawn).filter (s.isExpired now)), n)
      calls := Function.update s.calls n (.committed (.revoke [] .finish)) }

/-- `RefreshTokenRepository.cleanup_expired`. -/
def cleanupRefresh (s : Sessions) (n : Nat) (now : Int) : Sessions :=
  { s.setCall n .finished with
    refreshRows := fun token => (s.refreshRows token).filter fun row => now < row.expiresAt }

def consume (s : Sessions) (n token : Nat) (now : Int) : Sessions :=
  match s.refreshRows token with
  | none => s.setCall n .refused
  | some row =>
    if row.used ∨ row.expiresAt ≤ now then s.setCall n .refused
    else if s.revoked row.session then s.setCall n .refused
    else
      { s.setCall n (.loadingUser row.userId (.refresh row.session token)) with
        refreshRows := Function.update s.refreshRows token (some { row with used := true })
        rotations := token :: s.rotations }

def createRefresh (s : Sessions) (n : Nat) (grant : Grant) (expiresAt : Int) : Sessions :=
  { s with
    tokensDrawn := s.tokensDrawn + 1
    refreshRows :=
      if (s.rows grant.token.jti).isSome then
        Function.update s.refreshRows s.tokensDrawn
          (some ⟨grant.token.jti, grant.token.sub, expiresAt, false⟩)
      else s.refreshRows }.respond n grant

/-- `UserRepository.save` of a new password, which keeps the time of creation. -/
def saveUser (config : SessionConfig) (digest : String → String) (s : Sessions) (n userId : Nat)
    (user : User) (jti : Option Nat) : Sessions :=
  match s.users userId with
  | none => s.setCall n .refused
  | some latest =>
    let saved := { user with createdAt := latest.createdAt }
    { s with
      users := Function.update s.users userId (some saved)
      replaced := Function.update s.replaced userId (latest.passwordHash :: s.replaced userId)
      changes := Function.update s.changes n
        (some ⟨userId, jti, latest, saved, s.tokensDrawn, false⟩) }.revokeEach config digest n
      jti.toList (.rotate userId user)

-- ==== the steps

inductive Reply
  | nothing
  | verified (ok : Bool)
  | hashed (newHash : String)

/-- `users.get` returns. -/
def userLoaded (config : SessionConfig) (digest : String → String) (s : Sessions) (n userId : Nat) :
    Purpose → Sessions
  | .refresh session origin =>
    match s.users userId with
    | none => s.setCall n .refused
    | some user => s.createToken config digest n userId user session (some origin) false
  | purpose =>
    match s.users userId with
    | none => s.setCall n .refused
    | some user => s.setCall n (.verifying userId user purpose)

/-- `verify_password` returns. -/
def passwordVerified (s : Sessions) (n userId : Nat) (user : User) (ok : Bool) : Purpose → Sessions
  | .login => s.setCall n (if ok then .clearingLockout userId user else .refused)
  | .change jti => s.setCall n (if ok then .hashing userId user jti s.clock else .refused)
  | .refresh _ _ => s

/-- `hash_password` returns. -/
def passwordHashed (s : Sessions) (n userId : Nat) (user : User) (jti : Option Nat) (now : Int)
    (newHash : String) : Sessions :=
  s.setCall n (.savingUser userId
    { user with passwordHash := newHash, mustChangePassword := false, updatedAt := now } jti)

/-- A call whose await is over goes on. -/
def go (config : SessionConfig) (digest : String → String) (s : Sessions) (n : Nat)
    (reply : Reply) : Sessions :=
  match s.calls n, reply with
  | .loadingUser userId purpose, .nothing => s.userLoaded config digest n userId purpose
  | .verifying userId user purpose, .verified ok => s.passwordVerified n userId user ok purpose
  | .clearingLockout userId user, .nothing => s.createSession config digest n userId user true
  | .hashing userId user jti now, .hashed newHash => s.passwordHashed n userId user jti now newHash
  | .limiting grant, .nothing => s.enforceSessionLimit config digest n grant
  | _, _ => s

def write (config : SessionConfig) (digest : String → String) (s : Sessions) (n : Nat) : Sessions :=
  match s.pending, s.calls n with
  | some _, _ => s
  | none, .savingUser userId user jti => s.saveUser config digest n userId user jti
  | none, .consuming token now => s.consume n token now
  | none, .savingSession grant now expiresAt limited => s.saveSession n grant now expiresAt limited
  | none, .revoking session rest next => s.revoke config digest n session rest next
  | none, .creatingRefresh grant expiresAt => s.createRefresh n grant expiresAt
  | none, .revokingAll userId now => s.revokeAllForUser n userId now
  | none, .cleaningSessions now => s.cleanupSessions n now
  | none, .cleaningRefresh now => s.cleanupRefresh n now
  | none, _ => s

def passes (s : Sessions) (token : AccessToken) : Bool :=
  decide (s.clock < token.exp) && !s.revoked token.jti

def authenticates (digest : String → String) (s : Sessions) (token : AccessToken) : Bool :=
  s.passes token &&
    match s.users token.sub with
    | none => false
    | some user => digest user.passwordHash == token.pwdSig

inductive Operation
  | login (userId : Nat)
  | refresh (token : Nat)
  | changePassword (userId : Nat) (jti : Option Nat)
  /-- `logout` and `revoke_session`. -/
  | revoke (session : Nat)
  | revokeAllForUser (userId : Nat)
  | cleanupSessions
  | cleanupRefresh

/-- An operation up to its first await. -/
def begin (s : Sessions) : Operation → Stage
  | .login userId => .loadingUser userId .login
  | .refresh token => .consuming token s.clock
  | .changePassword userId jti => .loadingUser userId (.change jti)
  | .revoke session => .revoking session [] .finish
  | .revokeAllForUser userId => .revokingAll userId s.clock
  | .cleanupSessions => .cleaningSessions s.clock
  | .cleanupRefresh => .cleaningRefresh s.clock

/-- A new process: `load_revoked`. -/
def restart (s : Sessions) : Sessions :=
  { s with
    revoked := fun session => match s.rows session with
      | some row => row.revoked && decide (s.clock < row.expiresAt)
      | none => false
    pending := none
    calls := fun n => match s.calls n with
      | .absent => .absent
      | _ => .finished }

inductive Input
  | call (n : Nat) (operation : Operation)
  | go (n : Nat) (reply : Reply)
  | write (n : Nat)
  | note
  | request (token : AccessToken)
  | restart
  | tick (elapsed : Nat)

def step (config : SessionConfig) (digest : String → String) (s : Sessions) : Input → Sessions
  | .call n operation =>
    match s.calls n with
    | .absent =>
      { s.setCall n (s.begin operation) with
        deadAtStart := Function.update s.deadAtStart n s.dead }
    | _ => s
  | .go n reply => s.go config digest n reply
  | .write n => s.write config digest n
  | .note => s.note config digest
  | .request token =>
    if token ∈ s.issued.map Grant.token ∧ s.passes token then
      { s with passed := (token, s.dead token.jti) :: s.passed }
    else s
  | .restart => s.restart
  | .tick elapsed => { s with clock := s.clock + elapsed }

end Sessions

end Synthorg.Auth
