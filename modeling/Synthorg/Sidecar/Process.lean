/-
The sidecar process: its admin requests, its resolver and its connections.

Three kinds of goroutines share one allowlist. A `PUT /rules` request writes
the admin server's copy, then the maps and then the allow-all flag; a pass of
the resolver rebuilds the maps of the rules in force; a connection asks
whether it may pass, dials, and asks once more which path prefixes its
destination is narrowed to. Each locked section is one step, and between two
steps of a goroutine any step of another may fall.

The maps of the allowlist are resolved from its host and path rules; what the Go library says of
names and addresses is `Library`, and `dns` remembers the answers the maps were built from.
-/
import Synthorg.Lib.Run
import Mathlib.Algebra.Ring.Nat

namespace Synthorg.Sidecar

section
open List

section
open Function (update update_of_ne)

/-- The parts of the Go library the sidecar asks about names. -/
structure Library where
  /-- `strings.ToLower`. -/
  toLower : String → String
  /-- `strings.TrimSpace`. -/
  trimSpace : String → String
  /-- `net.ParseIP`: the 128-bit address an address literal stands for. -/
  parseIP : String → Option Nat

def plainLibrary : Library :=
  ⟨id, id, fun text => if text = "10.0.0.5" then some 0xffff0a000005 else none⟩

-- ==== the rules

structure HostPort where
  host : String
  port : Nat
  deriving DecidableEq

structure PathRule where
  host : String
  port : Nat
  pathPrefix : String

/-- The value of `strconv.ParseUint(s, 10, 16)`. -/
def parseUint16 (digits : List Char) : Option Nat :=
  if digits.isEmpty || !digits.all Char.isDigit then none
  else
    let value := digits.foldl (fun acc c => acc * 10 + (c.toNat - '0'.toNat)) 0
    if value ≤ 65535 then some value else none

def lastColon (entry : List Char) : Option Nat :=
  if ':' ∈ entry then some (entry.length - 1 - entry.reverse.idxOf ':') else none

/-- One entry of `allowed_hosts`. -/
def parseEntry (lib : Library) (entry : String) : Option HostPort :=
  match lastColon entry.toList with
  | none => none
  | some idx =>
    if idx < 1 then none
    else
      let host := lib.toLower (lib.trimSpace (String.ofList (entry.toList.take idx)))
      match parseUint16 (lib.trimSpace (String.ofList (entry.toList.drop (idx + 1)))).toList with
      | none => none
      | some port => if port < 1 then none else some ⟨host, port⟩

-- ==== the maps

/-- An address and port, as the keys `"ip:port"` have them. -/
structure Destination where
  ip : String
  port : Nat
  deriving DecidableEq

/-- What `resolveHosts` returns. -/
structure Resolution where
  resolved : Destination → Bool
  hostnames : String → Bool
  answers : String → Option (List String)

/-- `answers[host]`, empty for a name that was not looked up. -/
def Resolution.answersOf (r : Resolution) (host : String) : List String :=
  (r.answers host).getD []

/-- The body of the loop of `resolveHosts`; a resolver does not tell upper from lower case. -/
def resolveHost (lib : Library) (dns : String → List String) (r : Resolution) (hp : HostPort) :
    Resolution :=
  let host := lib.toLower hp.host
  let r := { r with hostnames := update r.hostnames host true }
  if (lib.parseIP hp.host).isSome then
    { r with resolved := update r.resolved ⟨hp.host, hp.port⟩ true }
  else
    let r :=
      match r.answers host with
      | some _ => r
      | none => { r with answers := update r.answers host (some (dns host)) }
    { r with
      resolved := (r.answersOf host).foldl
        (fun resolved ip => update resolved ⟨ip, hp.port⟩ true) r.resolved }

def resolveHosts (lib : Library) (dns : String → List String) (hosts : List HostPort) :
    Resolution :=
  hosts.foldl (resolveHost lib dns) ⟨fun _ => false, fun _ => false, fun _ => none⟩

/-- `paths[key] = append(paths[key], prefix)`. -/
def appendPath (paths : Destination → Option (List String)) (key : Destination)
    (pathPrefix : String) : Destination → Option (List String) :=
  update paths key (some ((paths key).getD [] ++ [pathPrefix]))

/-- The body of the loop of `resolvePaths`. -/
def resolvePath (lib : Library) (r : Resolution) (paths : Destination → Option (List String))
    (rule : PathRule) : Destination → Option (List String) :=
  if (lib.parseIP rule.host).isSome then appendPath paths ⟨rule.host, rule.port⟩ rule.pathPrefix
  else
    (r.answersOf (lib.toLower rule.host)).foldl
      (fun paths ip => appendPath paths ⟨ip, rule.port⟩ rule.pathPrefix) paths

def resolvePaths (lib : Library) (rules : List PathRule) (r : Resolution) :
    Destination → Option (List String) :=
  rules.foldl (resolvePath lib r) fun _ => none

-- ==== the allowlist

structure Allowlist where
  resolved : Destination → Bool
  hostnames : String → Bool
  paths : Destination → Option (List String)
  raw : List HostPort
  rawPaths : List PathRule
  loopback : Bool
  allowAll : Bool
  dns : String → List String

namespace Allowlist

/-- The maps of some hosts, swapped in under one lock. -/
def swap (lib : Library) (a : Allowlist) (hosts : List HostPort) (dns : String → List String) :
    Allowlist :=
  let r := resolveHosts lib dns hosts
  { a with
    resolved := r.resolved
    hostnames := r.hostnames
    paths := resolvePaths lib a.rawPaths r
    dns := dns }

/-- `NewWithPaths`, its first resolution included. -/
def new (lib : Library) (hosts : List HostPort) (paths : List PathRule) (loopback allowAll : Bool)
    (dns : String → List String) : Allowlist :=
  Allowlist.swap lib
    { resolved := fun _ => false
      hostnames := fun _ => false
      paths := fun _ => none
      raw := hosts
      rawPaths := paths
      loopback
      allowAll
      dns } hosts dns

/-- The maps are those of the raw rules under the remembered answers. -/
structure Built (lib : Library) (a : Allowlist) : Prop where
  resolved : a.resolved = (resolveHosts lib a.dns a.raw).resolved
  hostnames : a.hostnames = (resolveHosts lib a.dns a.raw).hostnames
  paths : a.paths = resolvePaths lib a.rawPaths (resolveHosts lib a.dns a.raw)

theorem new_built (lib : Library) (hosts : List HostPort) (paths : List PathRule)
    (loopback allowAll : Bool) (dns : String → List String) :
    (new lib hosts paths loopback allowAll dns).Built lib :=
  ⟨rfl, rfl, rfl⟩

theorem swap_built (lib : Library) (a : Allowlist) (dns : String → List String) :
    (a.swap lib a.raw dns).Built lib :=
  ⟨rfl, rfl, rfl⟩

end Allowlist

/-- 127.0.0.0/8 in its mapped form, or `::1`. -/
def Library.isLoopback (lib : Library) (ip : String) : Bool :=
  match lib.parseIP ip with
  | none => false
  | some address => address / 2 ^ 24 = 0xffff7f || address = 1

/-- Its address is the literal's own, or one the name is answered with. -/
def Resolves (lib : Library) (dns : String → List String) (host ip : String) : Prop :=
  match lib.parseIP host with
  | some address => lib.parseIP ip = some address
  | none => ip ∈ dns (lib.toLower host)

-- ==== what the path rules key

variable {lib : Library} {r : Resolution} {d : Destination}

theorem answersOf_subset (dns : String → List String) (hosts : List HostPort) {host ip : String}
    (h : ip ∈ (resolveHosts lib dns hosts).answersOf host) : ip ∈ dns host := by
  have hstep : ∀ (r : Resolution) (hp : HostPort), (∀ ip ∈ r.answersOf host, ip ∈ dns host) →
      ∀ ip ∈ (resolveHost lib dns r hp).answersOf host, ip ∈ dns host := by
    intro r hp hr ip hip
    simp only [resolveHost] at hip
    split at hip
    · exact hr ip hip
    · simp only [Resolution.answersOf] at hip
      split at hip
      · exact hr ip hip
      · by_cases hhost : host = lib.toLower hp.host
        · rw [hhost] at hip ⊢
          simpa using hip
        · simp only [update_of_ne hhost] at hip
          exact hr ip hip
  have hfold : ∀ (hosts : List HostPort) (r : Resolution),
      (∀ ip ∈ r.answersOf host, ip ∈ dns host) →
        ∀ ip ∈ (hosts.foldl (resolveHost lib dns) r).answersOf host, ip ∈ dns host := by
    intro hosts
    induction hosts with
    | nil => exact fun _ hr => hr
    | cons hp rest ih => exact fun r hr => ih _ (hstep r hp hr)
  refine hfold hosts _ ?_ ip h
  intro ip hip
  cases hip

def KeyedBy (lib : Library) (r : Resolution) (rule : PathRule) (d : Destination) : Prop :=
  d.port = rule.port ∧
    if (lib.parseIP rule.host).isSome then d.ip = rule.host
    else d.ip ∈ r.answersOf (lib.toLower rule.host)

theorem KeyedBy.resolves {dns : String → List String} {hosts : List HostPort} {rule : PathRule}
    (h : KeyedBy lib (resolveHosts lib dns hosts) rule d) :
    d.port = rule.port ∧ Resolves lib dns rule.host d.ip := by
  obtain ⟨hport, hip⟩ := h
  refine ⟨hport, ?_⟩
  rw [Resolves]
  cases hp : lib.parseIP rule.host with
  | some address =>
    rw [hp] at hip
    rw [hip]
    exact hp
  | none =>
    rw [hp] at hip
    exact answersOf_subset dns hosts hip

theorem appendPath_self (paths : Destination → Option (List String)) (key : Destination)
    (pathPrefix : String) :
    (appendPath paths key pathPrefix key).getD [] = (paths key).getD [] ++ [pathPrefix] ∧
      appendPath paths key pathPrefix key ≠ none := by
  simp [appendPath]

theorem appendPath_other (paths : Destination → Option (List String)) {key : Destination}
    (pathPrefix : String) (h : d ≠ key) : appendPath paths key pathPrefix d = paths d :=
  update_of_ne h _ _

/-- A prefix stands under a destination that had it, or under an answer if it is the rule's own. -/
theorem mem_foldl_appendPath (ips : List String) (port : Nat) (pathPrefix : String)
    (paths : Destination → Option (List String)) (p : String) :
    p ∈ (ips.foldl (fun paths ip => appendPath paths ⟨ip, port⟩ pathPrefix) paths d).getD [] ↔
      p ∈ (paths d).getD [] ∨ (d.port = port ∧ d.ip ∈ ips ∧ p = pathPrefix) := by
  induction ips generalizing paths with
  | nil => simp
  | cons ip rest ih =>
    rw [foldl_cons, ih]
    by_cases hkey : d = ⟨ip, port⟩
    · subst hkey
      rw [(appendPath_self paths ⟨ip, port⟩ pathPrefix).1]
      simp only [mem_append, mem_cons, not_mem_nil, or_false, true_and, true_or]
      constructor
      · intro h
        rcases h with (hold | hp) | ⟨-, hp⟩
        · exact .inl hold
        · exact .inr hp
        · exact .inr hp
      · intro h
        rcases h with hold | hp
        · exact .inl (.inl hold)
        · exact .inl (.inr hp)
    · rw [appendPath_other paths pathPrefix hkey]
      have hip : d.port = port → d.ip ≠ ip := by
        intro hport heq
        apply hkey
        rw [← hport, ← heq]
      constructor
      · intro h
        rcases h with hold | ⟨hport, hmem, hp⟩
        · exact .inl hold
        · exact .inr ⟨hport, mem_cons_of_mem ip hmem, hp⟩
      · intro h
        rcases h with hold | ⟨hport, hmem, hp⟩
        · exact .inl hold
        · exact .inr ⟨hport, (mem_cons.1 hmem).resolve_left (hip hport), hp⟩

theorem mem_resolvePath (paths : Destination → Option (List String)) (rule : PathRule)
    (p : String) : p ∈ (resolvePath lib r paths rule d).getD [] ↔
      p ∈ (paths d).getD [] ∨ (KeyedBy lib r rule d ∧ p = rule.pathPrefix) := by
  rw [resolvePath, KeyedBy]
  split
  next hlit =>
    by_cases hkey : d = ⟨rule.host, rule.port⟩
    · subst hkey
      rw [(appendPath_self paths ⟨rule.host, rule.port⟩ rule.pathPrefix).1]
      simp
    · rw [appendPath_other paths rule.pathPrefix hkey]
      constructor
      · exact Or.inl
      · intro h
        rcases h with hold | ⟨⟨hport, hip⟩, -⟩
        · exact hold
        · refine absurd ?_ hkey
          rw [← hport, ← hip]
  next hname =>
    rw [mem_foldl_appendPath]
    simp only [and_assoc]

theorem mem_resolvePaths (rules : List PathRule) (p : String) :
    p ∈ (resolvePaths lib rules r d).getD [] ↔
      ∃ rule ∈ rules, KeyedBy lib r rule d ∧ p = rule.pathPrefix := by
  have hfold : ∀ (rules : List PathRule) (paths : Destination → Option (List String)),
      p ∈ ((rules.foldl (resolvePath lib r) paths) d).getD [] ↔
        p ∈ (paths d).getD [] ∨ ∃ rule ∈ rules, KeyedBy lib r rule d ∧ p = rule.pathPrefix := by
    intro rules
    induction rules with
    | nil => simp
    | cons rule rest ih =>
      intro paths
      rw [foldl_cons, ih, mem_resolvePath]
      simp only [mem_cons, exists_eq_or_imp, or_assoc]
  rw [resolvePaths, hfold]
  simp

end

-- ==== `path.Clean`

def keepElement (rooted : Bool) (kept : List (List Char)) (element : List Char) :
    List (List Char) :=
  if element = [] ∨ element = ['.'] then kept
  else if element = ['.', '.'] then
    match kept with
    | [] => if rooted then [] else [element]
    | last :: rest => if last = ['.', '.'] then element :: kept else rest
  else element :: kept

def cleanElements (path : List Char) : List (List Char) :=
  ((path.splitOn '/').foldl (keepElement (path.head? = some '/')) []).reverse

def clean (path : List Char) : List Char :=
  let joined := ['/'].intercalate (cleanElements path)
  let out := if path.head? = some '/' then '/' :: joined else joined
  if out = [] then ['.'] else out

-- ==== `pathAllowed`

/-- `strings.TrimSuffix(prefix, "/")`. -/
def trimSlash (pathPrefix : List Char) : List Char :=
  if pathPrefix.getLast? = some '/' then pathPrefix.dropLast else pathPrefix

def matchesPrefix (cleaned pathPrefix : List Char) : Bool :=
  pathPrefix.head? = some '/' &&
    (cleaned = trimSlash pathPrefix || (trimSlash pathPrefix ++ ['/']).isPrefixOf cleaned)

def pathAllowed (reqPath : String) (prefixes : List String) : Bool :=
  let path := reqPath.toList
  if path = [] then false
  else if path ≠ clean path ∧ path ≠ clean path ++ ['/'] then false
  else prefixes.any fun pathPrefix => matchesPrefix (clean path) pathPrefix.toList

-- ==== what it lets through

def Under (path pathPrefix : List Char) : Prop :=
  path = trimSlash pathPrefix ∨ ∃ rest, path = trimSlash pathPrefix ++ '/' :: rest

def Plain (path : List Char) : Prop :=
  ∀ element ∈ path.splitOn '/', element ≠ ['.'] ∧ element ≠ ['.', '.']

variable {path pathPrefix : List Char}

theorem matchesPrefix_under (h : matchesPrefix path pathPrefix = true) :
    pathPrefix.head? = some '/' ∧ Under path pathPrefix := by
  simp only [matchesPrefix, Bool.and_eq_true, Bool.or_eq_true, decide_eq_true_eq,
    isPrefixOf_iff_prefix] at h
  obtain ⟨hroot, hm⟩ := h
  refine ⟨hroot, ?_⟩
  cases hm with
  | inl heq => exact .inl heq
  | inr hb =>
    obtain ⟨rest, hrest⟩ := hb
    right
    refine ⟨rest, ?_⟩
    rw [← hrest, append_assoc, singleton_append]

theorem Under.slash (h : Under path pathPrefix) : Under (path ++ ['/']) pathPrefix := by
  cases h with
  | inl heq =>
    right
    exact ⟨[], by rw [heq]⟩
  | inr hb =>
    obtain ⟨rest, hrest⟩ := hb
    right
    exact ⟨rest ++ ['/'], by rw [hrest, append_assoc, cons_append]⟩

theorem Under.rooted (h : Under path pathPrefix) (hm : pathPrefix.head? = some '/')
    (hpath : path ≠ []) : path.head? = some '/' := by
  have htrim : trimSlash pathPrefix = [] ∨ (trimSlash pathPrefix).head? = some '/' := by
    cases pathPrefix with
    | nil => cases hm
    | cons c rest =>
      rw [head?_cons] at hm
      rw [trimSlash]
      split
      · cases rest with
        | nil => exact .inl rfl
        | cons d rest =>
          right
          rw [dropLast_cons_cons, head?_cons, hm]
      · right
        rw [head?_cons, hm]
  cases h with
  | inl heq =>
    rw [heq] at hpath ⊢
    exact htrim.resolve_left hpath
  | inr hb =>
    obtain ⟨rest, hrest⟩ := hb
    rw [hrest]
    cases htrim with
    | inl hnil =>
      rw [hnil]
      rfl
    | inr hhead =>
      rw [List.head?_append, hhead]
      rfl

/-- The elements kept: none is empty, made of dots, or has a slash in it. -/
def Solid (element : List Char) : Prop :=
  element ≠ [] ∧ element ≠ ['.'] ∧ element ≠ ['.', '.'] ∧ '/' ∉ element

theorem keepElement_solid {kept : List (List Char)} {element : List Char}
    (hkept : ∀ e ∈ kept, Solid e) (helement : '/' ∉ element) :
    ∀ e ∈ keepElement true kept element, Solid e := by
  unfold keepElement
  split
  · exact hkept
  next hsome =>
    split
    · split
      · intro e he
        simp at he
      next last rest =>
        split
        next hdots => exact absurd hdots (hkept last mem_cons_self).2.2.1
        next => exact fun e he => hkept e (mem_cons_of_mem last he)
    next hdots =>
      rw [not_or] at hsome
      intro e he
      rw [mem_cons] at he
      cases he with
      | inl heq =>
        rw [heq]
        exact ⟨hsome.1, hsome.2, hdots, helement⟩
      | inr hmem => exact hkept e hmem

theorem notMem_of_mem_splitOn {element : List Char} (h : element ∈ path.splitOn '/') :
    '/' ∉ element := by
  induction path generalizing element with
  | nil =>
    rw [splitOn_nil, mem_singleton] at h
    rw [h]
    decide
  | cons c rest ih =>
    rw [splitOn_cons_eq_if_modifyHead] at h
    split at h
    · cases mem_cons.1 h with
      | inl hnil =>
        rw [hnil]
        decide
      | inr hmem => exact ih hmem
    next hc =>
      cases hs : rest.splitOn '/' with
      | nil => exact absurd hs (splitOn_ne_nil '/' rest)
      | cons first others =>
        rw [hs] at h
        cases mem_cons.1 h with
        | inl hf =>
          have hrest : '/' ∉ first := ih (by rw [hs]; exact mem_cons_self)
          rw [hf, mem_cons, not_or]
          refine ⟨?_, hrest⟩
          intro heq
          exact hc (beq_iff_eq.2 heq.symm)
        | inr hmem =>
          apply ih
          rw [hs]
          exact mem_cons_of_mem first hmem

theorem cleanElements_solid (hroot : path.head? = some '/') :
    ∀ e ∈ cleanElements path, Solid e := by
  have hfold : ∀ (elements kept : List (List Char)), (∀ e ∈ elements, '/' ∉ e) →
      (∀ e ∈ kept, Solid e) → ∀ e ∈ elements.foldl (keepElement true) kept, Solid e := by
    intro elements
    induction elements with
    | nil => exact fun _ _ hkept => hkept
    | cons element rest ih =>
      intro kept helem hkept
      exact ih _ (fun e he => helem e (mem_cons_of_mem element he))
        (keepElement_solid hkept (helem element mem_cons_self))
  intro e he
  rw [cleanElements, mem_reverse] at he
  simp only [hroot] at he
  exact hfold _ [] (fun e he => notMem_of_mem_splitOn he) (by simp) e he

theorem clean_plain (hroot : path.head? = some '/') :
    Plain (clean path) ∧ Plain (clean path ++ ['/']) := by
  have hs := cleanElements_solid hroot
  have hc : clean path = [] ++ '/' :: ['/'].intercalate (cleanElements path) := by
    simp [clean, hroot]
  have helem : ∀ e ∈ (['/'].intercalate (cleanElements path)).splitOn '/',
      e ≠ ['.'] ∧ e ≠ ['.', '.'] := by
    intro e he
    by_cases hnone : cleanElements path = []
    · rw [hnone] at he
      have hnil : e = [] := by simpa using he
      rw [hnil]
      decide
    · rw [splitOn_intercalate '/' (fun l hl => (hs l hl).2.2.2) hnone] at he
      exact ⟨(hs e he).2.1, (hs e he).2.2.1⟩
  have hp : Plain (clean path) := by
    intro e he
    rw [hc, splitOn_append_cons_self, mem_append] at he
    cases he with
    | inl hnil =>
      rw [splitOn_nil, mem_singleton] at hnil
      rw [hnil]
      decide
    | inr hmem => exact helem e hmem
  refine ⟨hp, ?_⟩
  intro e he
  rw [splitOn_append_cons_self, mem_append] at he
  cases he with
  | inl hmem => exact hp e hmem
  | inr hnil =>
    rw [splitOn_nil, mem_singleton] at hnil
    rw [hnil]
    decide

/-- THE PATH CHECK: what is let through is under a prefix, without dot elements. -/
theorem pathAllowed_under {reqPath : String} {prefixes : List String}
    (h : pathAllowed reqPath prefixes = true) : Plain reqPath.toList ∧
      ∃ pathPrefix ∈ prefixes, Under reqPath.toList pathPrefix.toList := by
  simp only [pathAllowed] at h
  split at h
  · cases h
  next hpath =>
    split at h
    · cases h
    next hcan =>
      obtain ⟨pathPrefix, hmem, hm⟩ := any_eq_true.1 h
      obtain ⟨hmatches, hu⟩ := matchesPrefix_under hm
      have hself : reqPath.toList = clean reqPath.toList ∨
          reqPath.toList = clean reqPath.toList ++ ['/'] := by
        by_contra hn
        rw [not_or] at hn
        exact hcan hn
      have ht : Under reqPath.toList pathPrefix.toList := by
        cases hself with
        | inl heq =>
          rw [heq]
          exact hu
        | inr heq =>
          rw [heq]
          exact hu.slash
      have hp := clean_plain (ht.rooted hmatches hpath)
      refine ⟨?_, pathPrefix, hmem, ht⟩
      cases hself with
      | inl heq =>
        rw [heq]
        exact hp.1
      | inr heq =>
        rw [heq]
        exact hp.2

example : pathAllowed "/api/v1/gateway-admin" ["/api/v1/gateway"] = false := by decide

end

open Lib
open Function (update)

structure RuleSet where
  hosts : List HostPort
  allowAll : Bool
  deriving DecidableEq

/-- How rules are reported: the entries as `host:port`, and the flag. -/
def RuleSet.report (rules : RuleSet) : List String × Bool :=
  (rules.hosts.map fun hp => hp.host ++ ":" ++ toString hp.port, rules.allowAll)

-- ==== the goroutines

/-- How far a `PUT /rules` request has come. -/
inductive PutPhase
  /-- The server's copy is written. -/
  | copied
  /-- `UpdateRules` holds `resolveMu`. -/
  | locked
  | swapped
  /-- `resolveMu` is given back; the flag is not stored yet. -/
  | unlocked
  | returned
  deriving DecidableEq

def PutPhase.applied : PutPhase → Bool
  | .copied | .locked => false
  | .swapped | .unlocked | .returned => true

/-- A request; `turn` is the place of its rules among all rule sets. -/
inductive PutStage
  | absent
  | refused
  | going (phase : PutPhase) (turn : Nat) (rules : RuleSet)

/-- A pass of `resolve`. -/
inductive PassStage
  | absent
  | locked
  | copied (raw : List HostPort)
  | swapped
  | ended
  deriving DecidableEq

/-- Who holds `resolveMu`. -/
inductive Holder
  | put (n : Nat)
  | pass (n : Nat)

/-- A connection in `handleConn`. -/
inductive ConnStage
  | absent
  | accepted
  /-- `IsAllowedIP` found the flag down and has yet to read the map. -/
  | asked
  | admitted
  | dialed
  /-- `relayGuarded` has yet to look at the first bytes. -/
  | guarded (prefixes : List String)
  | relaying (prefixes : List String)
  | raw
  | closed

structure Admission where
  allowAll : Bool
  dns : String → List String
  prefixes : Option (List String)

structure Process where
  al : Allowlist
  /-- `Server.rawRules` and `Server.allowAll`. -/
  server : RuleSet
  resolveMu : Option Holder
  puts : Nat → PutStage
  passes : Nat → PassStage
  conns : Nat → ConnStage
  dest : Nat → Destination
  history : List RuleSet
  admissions : Nat → Option Admission
  relayedRaw : Nat → Bool
  /-- The paths of the requests that went upstream, with their connection. -/
  forwarded : List (Nat × String)

namespace Process

/-- A sidecar that starts to serve. -/
def new (lib : Library) (hosts : List HostPort) (paths : List PathRule) (loopback allowAll : Bool)
    (dns : String → List String) : Process where
  al := Allowlist.new lib hosts paths loopback allowAll dns
  server := ⟨hosts, allowAll⟩
  resolveMu := none
  puts := fun _ => .absent
  passes := fun _ => .absent
  conns := fun _ => .absent
  dest := fun _ => ⟨"", 0⟩
  history := [⟨hosts, allowAll⟩]
  admissions := fun _ => none
  relayedRaw := fun _ => false
  forwarded := []

inductive Input
  /-- An authenticated `PUT /rules` with a decoded body. -/
  | put (n : Nat) (allowedHosts : List String) (allowAll : Bool)
  | lockPut (n : Nat)
  | swapPut (n : Nat) (dns : String → List String)
  | unlockPut (n : Nat)
  | storePut (n : Nat)
  | lockPass (n : Nat)
  | copyPass (n : Nat)
  | swapPass (n : Nat) (dns : String → List String)
  | unlockPass (n : Nat)
  | accept (k : Nat) (dest : Destination)
  /-- `IsAllowedIP` loads the flag, and looks at no map for a loopback
  address. -/
  | loadFlag (k : Nat)
  | readMap (k : Nat)
  | dial (k : Nat) (ok : Bool)
  /-- `PathPrefixes`. -/
  | lookUp (k : Nat)
  /-- `looksLikeTLS`. -/
  | peek (k : Nat) (tls : Bool)
  /-- A request is read; `goesOn` when the connection may carry a further one. -/
  | request (k : Nat) (path : String) (goesOn : Bool)
  | hangUp (k : Nat)

-- ==== admin

/-- `handlePutRules` up to `UpdateRules`. -/
def beginPut (lib : Library) (s : Process) (n : Nat) (allowedHosts : List String)
    (allowAll : Bool) : Process :=
  match allowedHosts.mapM (parseEntry lib) with
  | none => { s with puts := update s.puts n .refused }
  | some hosts =>
    let rules : RuleSet := ⟨hosts, allowAll⟩
    { s with
      server := rules
      history := s.history ++ [rules]
      puts := update s.puts n (.going .copied s.history.length rules) }

/-- `handleGetRules`. -/
def getRules (s : Process) : List String × Bool := s.server.report

-- ==== connections

/-- The rules in force, remembered as what a connection was admitted
under. -/
def admission (s : Process) (k : Nat) (allowAll : Bool) : Admission :=
  ⟨allowAll, s.al.dns, s.al.paths (s.dest k)⟩

def admitConn (s : Process) (k : Nat) (allowAll : Bool) : Process :=
  { s with
    conns := update s.conns k .admitted
    admissions := update s.admissions k (some (s.admission k allowAll)) }

def closeConn (s : Process) (k : Nat) : Process :=
  { s with conns := update s.conns k .closed }

/-- The first read of `IsAllowedIP`. -/
def loadFlag (lib : Library) (s : Process) (k : Nat) : Process :=
  if s.al.allowAll then s.admitConn k true
  else if lib.isLoopback (s.dest k).ip then
    if s.al.loopback then s.admitConn k false else s.closeConn k
  else { s with conns := update s.conns k .asked }

/-- One turn of the loop of `relayHTTPGuarded`. -/
def relayRequest (s : Process) (k : Nat) (prefixes : List String) (path : String)
    (goesOn : Bool) : Process :=
  if pathAllowed path prefixes then
    { s with
      forwarded := s.forwarded ++ [(k, path)]
      conns := update s.conns k (if goesOn then .relaying prefixes else .closed) }
  else s.closeConn k

-- ==== steps

def step (lib : Library) (s : Process) : Input → Process
  | .put n allowedHosts allowAll =>
    match s.puts n with
    | .absent => s.beginPut lib n allowedHosts allowAll
    | _ => s
  | .lockPut n =>
    match s.puts n, s.resolveMu with
    | .going .copied turn rules, none =>
      { s with
        resolveMu := some (.put n)
        puts := update s.puts n (.going .locked turn rules) }
    | _, _ => s
  | .swapPut n dns =>
    match s.puts n with
    | .going .locked turn rules =>
      { s with
        al := { s.al.swap lib rules.hosts dns with raw := rules.hosts }
        puts := update s.puts n (.going .swapped turn rules) }
    | _ => s
  | .unlockPut n =>
    match s.puts n with
    | .going .swapped turn rules =>
      { s with
        resolveMu := none
        puts := update s.puts n (.going .unlocked turn rules) }
    | _ => s
  | .storePut n =>
    match s.puts n with
    | .going .unlocked turn rules =>
      { s with
        al := { s.al with allowAll := rules.allowAll }
        puts := update s.puts n (.going .returned turn rules) }
    | _ => s
  | .lockPass n =>
    match s.passes n, s.resolveMu with
    | .absent, none =>
      { s with
        resolveMu := some (.pass n)
        passes := update s.passes n .locked }
    | _, _ => s
  | .copyPass n =>
    match s.passes n with
    | .locked => { s with passes := update s.passes n (.copied s.al.raw) }
    | _ => s
  | .swapPass n dns =>
    match s.passes n with
    | .copied raw =>
      { s with
        al := s.al.swap lib raw dns
        passes := update s.passes n .swapped }
    | _ => s
  | .unlockPass n =>
    match s.passes n with
    | .swapped =>
      { s with
        resolveMu := none
        passes := update s.passes n .ended }
    | _ => s
  | .accept k dest =>
    match s.conns k with
    | .absent =>
      { s with
        conns := update s.conns k .accepted
        dest := update s.dest k dest }
    | _ => s
  | .loadFlag k =>
    match s.conns k with
    | .accepted => s.loadFlag lib k
    | _ => s
  | .readMap k =>
    match s.conns k with
    | .asked => if s.al.resolved (s.dest k) then s.admitConn k false else s.closeConn k
    | _ => s
  | .dial k ok =>
    match s.conns k with
    | .admitted =>
      if ok then { s with conns := update s.conns k .dialed } else s.closeConn k
    | _ => s
  | .lookUp k =>
    match s.conns k with
    | .dialed =>
      match s.al.paths (s.dest k) with
      | some prefixes => { s with conns := update s.conns k (.guarded prefixes) }
      | none =>
        { s with
          conns := update s.conns k .raw
          relayedRaw := update s.relayedRaw k true }
    | _ => s
  | .peek k tls =>
    match s.conns k with
    | .guarded prefixes =>
      if tls then s.closeConn k
      else { s with conns := update s.conns k (.relaying prefixes) }
    | _ => s
  | .request k path goesOn =>
    match s.conns k with
    | .relaying prefixes => s.relayRequest k prefixes path goesOn
    | _ => s
  | .hangUp k =>
    match s.conns k with
    | .absent => s
    | _ => s.closeConn k

end Process

end Synthorg.Sidecar
