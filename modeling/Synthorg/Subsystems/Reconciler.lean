/-
One reconcile pass (api/subsystems/reconciler.py `_pass` to `_deactivate`,
and bookkeeping.py).

A pass takes the subsystems in their order, one turn each, and a turn is `converge`: take down
what is disabled or short of a requirement, rebuild what drifted, activate what is down and worth
another attempt.

`calls` is a ghost: every activation and teardown that was called, on which
state, and whether it raised.
-/
import Synthorg.Core.Validation

namespace Synthorg.Subsystems

open Synthorg.Core

section
open List

-- ==== declarations

inductive Activation where
  | returned
  /-- `SubsystemDeclinedError(reason)`. -/
  | declined (reason : String)
  /-- Any other error, described. -/
  | raised (detail : String)

/-- A teardown gives the state it leaves and, where it raised, the error's description. -/
structure Spec (Cap A : Type) where
  name : String
  provides : Cap
  activate : A → A × Activation
  requires : List Cap
  deactivate : Option (A → A × Option String)
  enabledBy : Option String
  settings : List String
  rebuildOnChange : Bool
  /-- `__post_init__`: a rebuild needs a teardown to rebuild from. -/
  rebuild_ok : rebuildOnChange = true → deactivate.isSome = true

/-- What a pass reads of the application state. -/
structure Surroundings (Cap A : Type) where
  probe : Cap → Option (A → Option Bool)
  /-- The boot config's value of a `namespace.key`, where it has one. -/
  config : A → String → Option Bool
  /-- The resolver's value of a `namespace.key`, where it can be read. -/
  setting : A → String → Option String

variable {Cap A : Type}

namespace Surroundings

variable (env : Surroundings Cap A)

/-- An undeclared capability is there, one whose probe raises is not. -/
def isPresent (cap : Cap) (a : A) : Bool :=
  match env.probe cap with
  | none => true
  | some present => (present a).getD false

def missingCapabilities (spec : Spec Cap A) (a : A) : List Cap :=
  spec.requires.filter fun need => !env.isPresent need a

def isActive (spec : Spec Cap A) (a : A) : Bool := env.isPresent spec.provides a

def enabled (spec : Spec Cap A) (a : A) : Bool :=
  match spec.enabledBy with
  | none => true
  | some entry => (env.config a entry).getD true

def capabilityFingerprint (needs : List Cap) (a : A) (generations : Cap → Nat) :
    List (Bool × Nat) :=
  needs.map fun need => (env.isPresent need a, generations need)

def settingsFingerprint (keys : List String) (a : A) : List (Option String) :=
  keys.map fun key => env.setting a key

end Surroundings

/-- Whether a key both snapshots read came back different, and the readings to keep; both are
over one spec's settings, so `strict` never raises. -/
def settingsDrift (previous current : List (Option String)) : Bool × List (Option String) :=
  ((previous.zip current).any fun (was, now) =>
      was.isSome && now.isSome && was != now,
    (previous.zip current).map fun (was, now) => if now.isSome then now else was)

theorem settingsDrift_retained (previous current : List (Option String)) :
    (settingsDrift (settingsDrift previous current).2 current).1 = false := by
  simp only [settingsDrift]
  induction previous generalizing current with
  | nil => simp
  | cons was previous ih =>
    cases current with
    | nil => simp
    | cons now current =>
      simp only [zip_cons_cons, map_cons, any_cons, ih]
      cases now <;> simp

theorem settingsDrift_self (current : List (Option String)) :
    (settingsDrift current current).1 = false := by
  simp only [settingsDrift]
  induction current with
  | nil => rfl
  | cons now current ih => simp [ih]

-- ==== the graph

inductive GraphInvalid (Cap : Type) where
  | duplicateName (name : String)
  | duplicateProvides (cap : Cap) (name : String)
  | noDeactivate (name : String)
  | noRebuildOnChange (name : String)
  | unregisteredSetting (name entry : String)
  | invalidEnabledBy (name entry : String)
  | unprobedRequirement (name : String) (cap : Cap)
  | cycle (names : List String)

/-- The registered `namespace.key`s, the booleans, and those the boot config has a field for. -/
structure SettingsRegistry where
  registered : String → Bool
  boolean : String → Bool
  bootField : String → Bool

section Ordering

variable [DecidableEq Cap]

/-- The loop over names and owners. -/
def checkDistinct (names : List String) (provided : List Cap) :
    List (Spec Cap A) → Except (GraphInvalid Cap) Unit
  | [] => .ok ()
  | spec :: rest =>
    if spec.name ∈ names then .error (.duplicateName spec.name)
    else if spec.provides ∈ provided then
      .error (.duplicateProvides spec.provides spec.name)
    else checkDistinct (spec.name :: names) (spec.provides :: provided) rest

def tearable (specs : List (Spec Cap A)) (cap : Cap) : Bool :=
  specs.any fun spec => spec.provides = cap ∧ spec.deactivate.isSome

/-- `_reject_unteardownable_consumers`, of one spec. -/
def checkTeardown (all : List (Spec Cap A)) (spec : Spec Cap A) : Except (GraphInvalid Cap) Unit :=
  if spec.requires.any (tearable all) then
    if spec.deactivate.isNone then .error (.noDeactivate spec.name)
    else if !spec.rebuildOnChange then .error (.noRebuildOnChange spec.name)
    else .ok ()
  else .ok ()

omit [DecidableEq Cap] in
/-- `_reject_unregistered_settings`, of one spec. -/
def checkSettings (registry : SettingsRegistry) (spec : Spec Cap A) :
    Except (GraphInvalid Cap) Unit :=
  match spec.settings.find? fun entry => !registry.registered entry with
  | some entry => .error (.unregisteredSetting spec.name entry)
  | none => .ok ()

omit [DecidableEq Cap] in
/-- `_reject_invalid_enabled_by`, of one spec. -/
def checkEnabledBy (registry : SettingsRegistry) (spec : Spec Cap A) :
    Except (GraphInvalid Cap) Unit :=
  match spec.enabledBy with
  | none => .ok ()
  | some entry =>
    if registry.registered entry && registry.boolean entry && registry.bootField entry then
      .ok ()
    else .error (.invalidEnabledBy spec.name entry)

/-- `_reject_unprobed_requirements`, of one spec. -/
def checkRequirements (owned : List Cap) (probed : Cap → Bool) (spec : Spec Cap A) :
    Except (GraphInvalid Cap) Unit :=
  match spec.requires.find? fun need => need ∉ owned && !probed need with
  | some need => .error (.unprobedRequirement spec.name need)
  | none => .ok ()

/-- The rounds of `order_subsystems`; each takes one subsystem at least. -/
def orderRounds (owned : List Cap) : Nat → List Cap → List (Spec Cap A) →
    Except (GraphInvalid Cap) (List (Spec Cap A))
  | 0, _, remaining =>
    if remaining.isEmpty then .ok [] else .error (.cycle (remaining.map Spec.name))
  | fuel + 1, satisfied, remaining =>
    if remaining.isEmpty then .ok [] else
    let ready := remaining.filter fun spec =>
      spec.requires.all fun need => need ∈ satisfied || need ∉ owned
    if ready.isEmpty then .error (.cycle (remaining.map Spec.name))
    else do
      let below ← orderRounds owned fuel (satisfied ++ ready.map Spec.provides)
        (remaining.filter fun spec => spec.name ∉ ready.map Spec.name)
      return ready ++ below

def orderSubsystems (registry : SettingsRegistry) (probed : Cap → Bool)
    (specs : List (Spec Cap A)) : Except (GraphInvalid Cap) (List (Spec Cap A)) := do
  checkDistinct [] [] specs
  requireAll (checkTeardown specs) specs
  requireAll (checkSettings registry) specs
  requireAll (checkEnabledBy registry) specs
  requireAll (checkRequirements (specs.map Spec.provides) probed) specs
  orderRounds (specs.map Spec.provides) specs.length [] specs

end Ordering

-- ==== accepted and sorted

def Ordered : List (Spec Cap A) → Prop
  | [] => True
  | spec :: rest =>
    (∀ need ∈ spec.requires, ∀ u ∈ spec :: rest, u.provides ≠ need) ∧ Ordered rest

/-- What a pass may rely on of its specs. -/
structure Accepted (specs : List (Spec Cap A)) : Prop where
  ordered : Ordered specs
  names : (specs.map Spec.name).Nodup
  provides : (specs.map Spec.provides).Nodup
  /-- Who requires what can be torn down can be torn down and rebuilt. -/
  tearable : ∀ u ∈ specs, u.deactivate.isSome = true → ∀ t ∈ specs, u.provides ∈ t.requires →
    t.deactivate.isSome = true ∧ t.rebuildOnChange = true

section Ordering

variable [DecidableEq Cap]

theorem checkDistinct_ok {names : List String} {provided : List Cap}
    {specs : List (Spec Cap A)} (h : checkDistinct names provided specs = .ok ()) :
    (specs.map Spec.name).Nodup ∧ (∀ spec ∈ specs, spec.name ∉ names) ∧
      (specs.map Spec.provides).Nodup ∧ ∀ spec ∈ specs, spec.provides ∉ provided := by
  induction specs generalizing names provided with
  | nil => simp
  | cons spec rest ih =>
    rw [checkDistinct] at h
    split at h
    next => cases h
    next hname =>
      split at h
      next => cases h
      next hp =>
        obtain ⟨hn, hf, hpro, hnew⟩ := ih h
        simp only [mem_cons, not_or] at hf hnew
        simp only [map_cons, nodup_cons, mem_map, not_exists, not_and, forall_mem_cons]
        exact ⟨⟨fun u hu heq => (hf u hu).1 heq, hn⟩,
          ⟨hname, fun u hu => (hf u hu).2⟩,
          ⟨fun u hu heq => (hnew u hu).1 heq, hpro⟩,
          ⟨hp, fun u hu => (hnew u hu).2⟩⟩

theorem checkTeardown_ok {all : List (Spec Cap A)} {t : Spec Cap A}
    (h : checkTeardown all t = .ok ()) (hany : t.requires.any (tearable all) = true) :
    t.deactivate.isSome = true ∧ t.rebuildOnChange = true := by
  rw [checkTeardown, if_pos hany] at h
  split at h
  next => cases h
  next hd =>
    split at h
    next => cases h
    next hr =>
      refine ⟨?_, by simpa using hr⟩
      simpa [Option.isSome_iff_ne_none] using hd

omit [DecidableEq Cap] in
theorem ordered_append {xs ys : List (Spec Cap A)}
    (hfree : ∀ spec ∈ xs, ∀ need ∈ spec.requires, ∀ u ∈ xs ++ ys, u.provides ≠ need)
    (hys : Ordered ys) : Ordered (xs ++ ys) := by
  induction xs with
  | nil => exact hys
  | cons spec xs ih =>
    refine ⟨hfree spec mem_cons_self, ih fun v hv need hneed u hu => ?_⟩
    exact hfree v (mem_cons_of_mem _ hv) need hneed u (mem_cons_of_mem _ hu)

omit [DecidableEq Cap] in
theorem filter_name_eq {pending : List (Spec Cap A)} (hn : (pending.map Spec.name).Nodup)
    (p : Spec Cap A → Bool) :
    (pending.filter fun u => u.name ∉ (pending.filter p).map Spec.name) =
      pending.filter fun u => !p u := by
  apply filter_congr
  intro u hu
  have hiff : u.name ∈ (pending.filter p).map Spec.name ↔ p u = true := by
    rw [mem_map]
    constructor
    · rintro ⟨v, hv, heq⟩
      obtain ⟨hv, hp⟩ := mem_filter.1 hv
      rwa [inj_on_of_nodup_map hn hv hu heq] at hp
    · intro hp
      exact ⟨u, mem_filter.2 ⟨hu, hp⟩, rfl⟩
  by_cases hp : p u = true <;> simp [hiff, hp]

theorem orderRounds_ok {owned : List Cap} {fuel : Nat} {satisfied : List Cap}
    {remaining ordered : List (Spec Cap A)}
    (h : orderRounds owned fuel satisfied remaining = .ok ordered)
    (hn : (remaining.map Spec.name).Nodup) (hprovides : (remaining.map Spec.provides).Nodup)
    (howned : ∀ u ∈ remaining, u.provides ∈ owned)
    (hsat : ∀ u ∈ remaining, u.provides ∉ satisfied) :
    Ordered ordered ∧ ordered.Perm remaining := by
  induction fuel generalizing satisfied remaining ordered with
  | zero =>
    rw [orderRounds] at h
    split at h
    next hnil =>
      cases h
      rw [isEmpty_iff.1 hnil]
      exact ⟨trivial, Perm.refl _⟩
    next => cases h
  | succ fuel ih =>
    rw [orderRounds] at h
    split at h
    next hnil =>
      cases h
      rw [isEmpty_iff.1 hnil]
      exact ⟨trivial, Perm.refl _⟩
    let p : Spec Cap A → Bool := fun spec =>
      spec.requires.all fun need => need ∈ satisfied || need ∉ owned
    replace h : (if (remaining.filter p).isEmpty then
          Except.error (GraphInvalid.cycle (remaining.map Spec.name))
        else do
          let below ← orderRounds owned fuel
            (satisfied ++ (remaining.filter p).map Spec.provides)
            (remaining.filter fun u => u.name ∉ (remaining.filter p).map Spec.name)
          return remaining.filter p ++ below) = Except.ok ordered := h
    split at h
    next => cases h
    next =>
      rw [filter_name_eq hn] at h
      cases hb : orderRounds owned fuel (satisfied ++ (remaining.filter p).map Spec.provides)
          (remaining.filter fun u => !p u) with
      | error e => simp [hb] at h
      | ok below =>
        rw [hb] at h
        cases h
        have hsub : ∀ u ∈ remaining.filter fun u => !p u, u ∈ remaining :=
          fun u hu => (mem_filter.1 hu).1
        obtain ⟨hord, hperm⟩ := ih hb (hn.sublist (filter_sublist.map _))
          (hprovides.sublist (filter_sublist.map _)) (fun u hu => howned u (hsub u hu))
          (by
            intro u hu hmem
            rcases mem_append.1 hmem with hmem | hmem
            · exact hsat u (hsub u hu) hmem
            · obtain ⟨v, hv, heq⟩ := mem_map.1 hmem
              obtain ⟨hv, hp⟩ := mem_filter.1 hv
              have hnot := (mem_filter.1 hu).2
              rw [← inj_on_of_nodup_map hprovides hv (hsub u hu) heq, hp] at hnot
              cases hnot)
        have hw : (remaining.filter p ++ below).Perm remaining :=
          (hperm.append_left _).trans (filter_append_perm p remaining)
        refine ⟨ordered_append ?_ hord, hw⟩
        intro spec hspec need hneed u hu heq
        have hu' := hw.mem_iff.1 hu
        have hr := all_eq_true.1 (mem_filter.1 hspec).2 need hneed
        rw [← heq] at hr
        simp [howned u hu', hsat u hu'] at hr

theorem accepted_of_orderSubsystems {registry : SettingsRegistry} {probed : Cap → Bool}
    {specs ordered : List (Spec Cap A)} (h : orderSubsystems registry probed specs = .ok ordered) :
    Accepted ordered ∧ ordered.Perm specs := by
  rw [orderSubsystems, bind_unit_ok_iff, bind_unit_ok_iff, bind_unit_ok_iff,
    bind_unit_ok_iff, bind_unit_ok_iff, requireAll_ok_iff] at h
  obtain ⟨hd, htear, -, -, -, hr⟩ := h
  obtain ⟨hn, -, hp, -⟩ := checkDistinct_ok hd
  obtain ⟨hord, hperm⟩ := orderRounds_ok hr hn hp (fun u hu => mem_map_of_mem hu) (by simp)
  refine ⟨⟨hord, (hperm.map _).nodup_iff.2 hn, (hperm.map _).nodup_iff.2 hp, ?_⟩, hperm⟩
  intro u hu hdeactivate t ht hneed
  refine checkTeardown_ok (htear t (hperm.mem_iff.1 ht)) ?_
  rw [any_eq_true]
  refine ⟨u.provides, hneed, ?_⟩
  rw [tearable, any_eq_true]
  exact ⟨u, hperm.mem_iff.1 hu, by simp [hdeactivate]⟩

end Ordering

end

open Function (update)

variable {Cap A : Type} [DecidableEq Cap]

-- ==== the book

/-- `ReconcileBook`, what is remembered between passes. -/
structure Book (Cap : Type) where
  failures : String → Option String
  declined : String → Bool
  declineReasons : String → Option String
  fingerprints : String → Option (List (Bool × Nat))
  settings : String → Option (List (Option String))
  generations : Cap → Nat
  attempted : String → Option (List (Bool × Nat) × List (Option String))

namespace Book

variable (env : Surroundings Cap A)

def capabilitySnapshot (book : Book Cap) (spec : Spec Cap A) (a : A) : List (Bool × Nat) :=
  env.capabilityFingerprint spec.requires a book.generations

def attemptWorthwhile (book : Book Cap) (spec : Spec Cap A) (a : A) : Bool × Book Cap :=
  match book.attempted spec.name with
  | none => (true, book)
  | some (capabilities, settings) =>
    if book.capabilitySnapshot env spec a ≠ capabilities then (true, book)
    else
      let drift := settingsDrift settings (env.settingsFingerprint spec.settings a)
      (drift.1, { book with
        attempted := update book.attempted spec.name (some (capabilities, drift.2)) })

def recordAttempt (book : Book Cap) (spec : Spec Cap A) (a : A) : Book Cap :=
  { book with
    attempted := update book.attempted spec.name
      (some (book.capabilitySnapshot env spec a, env.settingsFingerprint spec.settings a)) }

def recordActivation (book : Book Cap) (spec : Spec Cap A) (a : A) : Book Cap :=
  let generations :=
    update book.generations spec.provides (book.generations spec.provides + 1)
  { book with
    declined := update book.declined spec.name false
    declineReasons := update book.declineReasons spec.name none
    attempted := update book.attempted spec.name none
    generations := generations
    fingerprints := update book.fingerprints spec.name
      (some (env.capabilityFingerprint spec.requires a generations))
    settings := update book.settings spec.name
      (some (env.settingsFingerprint spec.settings a)) }

def forget (book : Book Cap) (spec : Spec Cap A) : Book Cap :=
  { book with
    fingerprints := update book.fingerprints spec.name none
    settings := update book.settings spec.name none
    attempted := update book.attempted spec.name none
    failures := update book.failures spec.name none
    declined := update book.declined spec.name false
    declineReasons := update book.declineReasons spec.name none }

def drifted (book : Book Cap) (spec : Spec Cap A) (a : A) : Bool × Book Cap :=
  match book.fingerprints spec.name with
  | none => (false, book)
  | some previous =>
    if book.capabilitySnapshot env spec a ≠ previous then (true, book)
    else
      match book.settings spec.name with
      | none => (false, book)
      | some settings =>
        let drift := settingsDrift settings (env.settingsFingerprint spec.settings a)
        (drift.1, { book with
          settings := update book.settings spec.name (some drift.2) })

end Book

-- ==== the pass

inductive Act where
  | activate
  | deactivate

structure Call (Cap A : Type) where
  spec : Spec Cap A
  act : Act
  before : A
  raised : Bool

/-- What a pass carries from turn to turn. -/
structure State (Cap A : Type) where
  app : A
  book : Book Cap
  tornDown : List String
  activated : List String
  calls : List (Call Cap A)

inductive Outcome where
  | none
  | activated
  | deactivated
  deriving DecidableEq

variable (env : Surroundings Cap A)

def declineReason (spec : Spec Cap A) (a : A) : String :=
  let undeclared := "declined on a condition it does not declare; see the " ++ spec.name ++
    " wiring log for the branch it returned on"
  let readings := env.settingsFingerprint spec.settings a
  let blank := ((spec.settings.zip readings).filter fun (_, value) =>
    match value with
    | some value => !notBlank value
    | Option.none => false).map Prod.fst
  if blank.isEmpty then undeclared else "unset: " ++ String.intercalate ", " blank

/-- One candidate of `_followers`: the capabilities going down and the
followers so far. -/
def follow (a : A) (returning : Bool) (going : List Cap × List (Spec Cap A))
    (candidate : Spec Cap A) : List Cap × List (Spec Cap A) :=
  if !candidate.requires.any (· ∈ going.1) then going
  else if returning && !candidate.rebuildOnChange then going
  else if !env.isActive candidate a then going
  else (candidate.provides :: going.1, going.2 ++ [candidate])

/-- One sweep over the ordered specs. -/
def followers (specs : List (Spec Cap A)) (spec : Spec Cap A) (a : A) (returning : Bool) :
    List (Spec Cap A) :=
  (specs.foldl (follow env a returning) ([spec.provides], [])).2

omit [DecidableEq Cap] in
def deactivate (s : State Cap A) (spec : Spec Cap A) : State Cap A × Outcome :=
  match spec.deactivate with
  | none => (s, .none)
  | some teardown =>
    let (app, error) := teardown s.app
    let called : State Cap A := { s with
      app := app
      calls := s.calls ++ [⟨spec, .deactivate, s.app, error.isSome⟩] }
    match error with
    | some detail =>
      ({ called with book := { s.book with
            failures := update s.book.failures spec.name (some detail) } }, .none)
    | none =>
      ({ called with book := s.book.forget spec, tornDown := s.tornDown ++ [spec.name] },
        .deactivated)

def takeDown (specs : List (Spec Cap A)) (s : State Cap A) (spec : Spec Cap A)
    (returning : Bool) : State Cap A × Outcome :=
  deactivate ((followers env specs spec s.app returning).reverse.foldl
    (fun s consumer => (deactivate s consumer).1) s) spec

def activate (s : State Cap A) (spec : Spec Cap A) : State Cap A × Outcome :=
  let (app, activation) := spec.activate s.app
  let raised := match activation with
    | .raised _ => true
    | _ => false
  let called : State Cap A := { s with
    app := app
    calls := s.calls ++ [⟨spec, .activate, s.app, raised⟩] }
  match activation with
  | .raised detail =>
    let book := { s.book with
      failures := update s.book.failures spec.name (some detail) }
    ({ called with book := book.recordAttempt env spec app }, .none)
  | activation =>
    let book := { s.book with failures := update s.book.failures spec.name none }
    if env.isActive spec app then
      ({ called with book := book.recordActivation env spec app }, .activated)
    else
      let reason := match activation with
        | .declined reason => if reason = "" then declineReason env spec app else reason
        | _ => declineReason env spec app
      let book := { book with
        declined := update book.declined spec.name true
        declineReasons := update book.declineReasons spec.name (some reason) }
      ({ called with book := book.recordAttempt env spec app }, .none)

/-- The last part of `_converge`: what is down is activated, where that is worthwhile. -/
def attempt (retryDeclined : Bool) (s : State Cap A) (spec : Spec Cap A) : State Cap A × Outcome :=
  if env.isActive spec s.app then (s, .none)
  else if retryDeclined then activate env s spec
  else
    let (worthwhile, book) := s.book.attemptWorthwhile env spec s.app
    if worthwhile then activate env { s with book := book } spec
    else ({ s with book := book }, .none)

def converge (specs : List (Spec Cap A)) (retryDeclined : Bool) (s : State Cap A)
    (spec : Spec Cap A) : State Cap A × Outcome :=
  let active := env.isActive spec s.app
  if !env.enabled spec s.app then
    if active then takeDown env specs s spec false else (s, .none)
  else if env.missingCapabilities spec s.app ≠ [] then
    if active then takeDown env specs s spec false else (s, .none)
  else if active && spec.rebuildOnChange then
    let (drifted, book) := s.book.drifted env spec s.app
    if drifted then
      attempt env retryDeclined (takeDown env specs { s with book := book } spec true).1 spec
    else ({ s with book := book }, .none)
  else attempt env retryDeclined s spec

/-- One turn of the loop of `_pass`. -/
def turn (specs : List (Spec Cap A)) (retryDeclined : Bool) (s : State Cap A)
    (spec : Spec Cap A) : State Cap A :=
  let (s', outcome) := converge env specs retryDeclined s spec
  if outcome = .activated then { s' with activated := s'.activated ++ [spec.name] } else s'

/-- The start of `_pass`, over what an earlier one left. -/
def begin (app : A) (book : Book Cap) : State Cap A :=
  { app := app, book := book, tornDown := [], activated := [], calls := [] }

def pass (specs : List (Spec Cap A)) (retryDeclined : Bool) (app : A) (book : Book Cap) :
    State Cap A :=
  specs.foldl (turn env specs retryDeclined) (begin app book)

end Synthorg.Subsystems
