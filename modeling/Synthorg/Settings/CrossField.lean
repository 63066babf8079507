/-
The rules that span several settings, and the calls of `SettingsService` that
are to keep them.

A write is checked before its statement: the rules one of its keys belongs to
are asked about the values that will be in force, its own and for the other keys
what a `get` says. These reads are awaits, and so is the statement after them. A
delete asks no rule.
-/
import Synthorg.Settings.Service

namespace Synthorg.Settings

open Lib
open List

-- ==== the rules

/-- `int` and `float` of a text, and `<` of two floats. -/
structure Numbers (F : Type) where
  int : String → Option Int
  float : String → Option F
  lt : F → F → Bool

abbrev Values := SettingRowKey → Option String

def effectiveRaw (written getCurrent getDefault : Values) : Values := fun target =>
  match written target with
  | some raw => some raw
  | none =>
    match getCurrent target with
    | some raw => some raw
    | none => getDefault target

section Rules

variable {F : Type} (numbers : Numbers F)

def floorKey : SettingRowKey := ("api", "rate_limit_floor_max_requests")

def tierKeys : List SettingRowKey :=
  [("api", "rate_limit_unauth_max_requests"), ("api", "rate_limit_auth_max_requests")]

def enforceRateLimitFloor (values : Values) : Bool :=
  match (values floorKey).bind numbers.int with
  | none => true
  | some floor =>
    tierKeys.all fun key =>
      match (values key).bind numbers.int with
      | none => true
      | some cap => cap ≤ floor

def expertPercentileKey : SettingRowKey := ("providers", "capability_evidence_expert_percentile")

def capablePercentileKey : SettingRowKey := ("providers", "capability_evidence_capable_percentile")

/-- `capable` is strictly below `expert`. -/
def enforceCapabilityPercentileBand (values : Values) : Bool :=
  match (values expertPercentileKey).bind numbers.float,
    (values capablePercentileKey).bind numbers.float with
  | some expert, some capable => numbers.lt capable expert
  | _, _ => true

def capabilityFloorKeys : List SettingRowKey :=
  [("engine", "capability_floor_low"), ("engine", "capability_floor_normal"),
    ("engine", "capability_floor_high"), ("engine", "capability_floor_critical")]

def reasoningEffortKeys : List SettingRowKey :=
  [("engine", "reasoning_effort_low"), ("engine", "reasoning_effort_normal"),
    ("engine", "reasoning_effort_high"), ("engine", "reasoning_effort_critical")]

def capabilityLadder : List String := ["basic", "capable", "expert"]

def reasoningEffortOrder : List String := ["minimal", "low", "medium", "high"]

def capabilityLadderRank (value : String) : Option Int :=
  (capabilityLadder.idxOf? value).map Int.ofNat

def reasoningLadderRank (value : String) : Option Int :=
  if value = "none" then some (-1) else (reasoningEffortOrder.idxOf? value).map Int.ofNat

/-- No rung is below the one before it. A rung without a rank ends the check. -/
def enforceLadderRises (keys : List SettingRowKey) (rankOf : String → Option Int)
    (values : Values) : Bool :=
  match keys.mapM fun key => (values key).bind rankOf with
  | none => true
  | some ranks => (ranks.zip ranks.tail).all fun pair => pair.1 ≤ pair.2

def enforceEngineLadders (values : Values) : Bool :=
  enforceLadderRises capabilityFloorKeys capabilityLadderRank values &&
    enforceLadderRises reasoningEffortKeys reasoningLadderRank values

def stagnationWindowKey : SettingRowKey := ("engine", "stagnation_window_size")

def stagnationMinTurnsKey : SettingRowKey := ("engine", "stagnation_min_tool_turns")

def enforceStagnationFloorFitsWindow (values : Values) : Bool :=
  match (values stagnationWindowKey).bind numbers.int,
    (values stagnationMinTurnsKey).bind numbers.int with
  | some window, some floor => floor ≤ window
  | _, _ => true

structure Rule where
  keys : List SettingRowKey
  accepts : Values → Bool
  of_keys : ∀ v w : Values, (∀ key ∈ keys, v key = w key) → accepts v = accepts w

def rules : List Rule :=
  [{ keys := floorKey :: tierKeys
     accepts := enforceRateLimitFloor numbers
     of_keys := fun v w h => by
       simp only [forall_mem_cons, tierKeys] at h
       simp only [enforceRateLimitFloor, tierKeys, all_cons, all_nil, h.1, h.2.1, h.2.2.1] },
   { keys := [expertPercentileKey, capablePercentileKey]
     accepts := enforceCapabilityPercentileBand numbers
     of_keys := fun v w h => by
       simp only [forall_mem_cons] at h
       simp only [enforceCapabilityPercentileBand, h.1, h.2.1] },
   { keys := capabilityFloorKeys ++ reasoningEffortKeys
     accepts := enforceEngineLadders
     of_keys := fun v w h => by
       simp only [capabilityFloorKeys, reasoningEffortKeys, cons_append, nil_append,
         forall_mem_cons] at h
       obtain ⟨h1, h2, h3, h4, h5, h6, h7, h8, -⟩ := h
       simp only [enforceEngineLadders, enforceLadderRises, capabilityFloorKeys,
         reasoningEffortKeys, mapM_cons, mapM_nil, h1, h2, h3, h4, h5, h6, h7, h8] },
   { keys := [stagnationWindowKey, stagnationMinTurnsKey]
     accepts := enforceStagnationFloorFitsWindow numbers
     of_keys := fun v w h => by
       simp only [forall_mem_cons] at h
       simp only [enforceStagnationFloorFitsWindow, h.1, h.2.1] }]

def Rule.touched (rule : Rule) (written : Values) : Bool :=
  rule.keys.any fun key => (written key).isSome

def enforceCrossFieldRules (written getCurrent getDefault : Values) : Bool :=
  (rules numbers).all fun rule =>
    !rule.touched written || rule.accepts (effectiveRaw written getCurrent getDefault)

end Rules

-- ==== the calls

abbrev Items := List (SettingRowKey × String)

def effective (env : Surroundings) (rows : Values) (key : SettingRowKey) : String :=
  if (env.definition key).any SettingDefinition.composeSet then env.fallback key
  else (rows key).getD (env.fallback key)

/-- `{(namespace, key): value}` of the items. -/
def written (items : Items) : Values := fun key => items.reverse.lookup key

/-- What is refused at the latest by `_prepare_set_many`. -/
def prepared (env : Surroundings) (items : Items) : Bool :=
  (items.map Prod.fst).Nodup && items.all fun item =>
    (env.definition item.1).any fun definition => !definition.composeSet

structure Checking (F : Type) extends Surroundings where
  numbers : Numbers F
  validateValue : SettingRowKey → String → Bool
  default : Values

/-- Where a call stands. A `get` has no items. -/
inductive CheckStage
  | absent
  | reading (items : Option Items) (key : SettingRowKey) (left : List SettingRowKey)
      (read : Items)
  | answered (items : Option Items) (key : SettingRowKey) (left : List SettingRowKey)
      (read : Items) (row : Option String)
  /-- The statement is awaited. -/
  | writing (items read : Items)
  | deleting (meant : SettingRowKey → Bool)
  | evicting (evictions : List (SettingRowKey → Bool))
  | ended

structure Checked where
  rows : Values
  cache : Values
  calls : Nat → CheckStage

namespace Checked

variable {F : Type} (env : Checking F)

def start (rows : Values) : Checked := ⟨rows, fun _ => none, fun _ => .absent⟩

def setCall (s : Checked) (n : Nat) (stage : CheckStage) : Checked :=
  { s with calls := Function.update s.calls n stage }

def keep (s : Checked) (key : SettingRowKey) (value : String) : Checked :=
  { s with cache := Function.update s.cache key (some value) }

def pending (items : Items) : List SettingRowKey :=
  (((rules env.numbers).filter fun rule => rule.touched (written items)).flatMap Rule.keys).filter
    fun key => (written items key).isNone

/-- The reads are done. -/
def conclude (s : Checked) (n : Nat) (items : Option Items) (read : Items) : Checked :=
  match items with
  | none => s.setCall n .ended
  | some items =>
    if enforceCrossFieldRules env.numbers (written items) (fun key => read.lookup key) env.default
        && prepared env.toSurroundings items then s.setCall n (.writing items read)
    else s.setCall n .ended

/-- The next reads, up to one that awaits its row: `get` for each key. -/
def proceed (s : Checked) (n : Nat) (items : Option Items) (read : Items) :
    List SettingRowKey → Checked
  | [] => s.conclude env n items read
  | key :: left =>
    match env.definition key with
    | none => s.setCall n .ended
    | some definition =>
      match (if definition.sensitive then none else s.cache key) with
      | some value => s.proceed n items (read ++ [(key, value)]) left
      | none =>
        if definition.composeSet then
          (if definition.sensitive then s else s.keep key (env.fallback key)).proceed n items
            (read ++ [(key, env.fallback key)]) left
        else s.setCall n (.reading items key left read)

/-- `get`, once the row is there. -/
def fill (s : Checked) (n : Nat) (items : Option Items) (key : SettingRowKey)
    (left : List SettingRowKey) (read : Items) (row : Option String) : Checked :=
  match row with
  | none => s.proceed env n items (read ++ [(key, env.fallback key)]) left
  | some value =>
    (if (env.definition key).any SettingDefinition.sensitive then s else s.keep key value).proceed
      env n items (read ++ [(key, value)]) left

def valid (items : Items) : Bool :=
  items.all fun item => (env.definition item.1).isSome && env.validateValue item.1 item.2

/-- Up to its first await. -/
def set (s : Checked) (n : Nat) (key : SettingRowKey) (value : String) : Checked :=
  if (env.definition key).any (fun definition => !definition.composeSet) &&
      valid env [(key, value)] then
    s.proceed env n (some [(key, value)]) [] (pending env [(key, value)])
  else s.setCall n .ended

def setMany (s : Checked) (n : Nat) (items : Items) : Checked :=
  if items ≠ [] && valid env items then
    s.proceed env n (some items) [] (pending env items)
  else s.setCall n .ended

def delete (s : Checked) (n : Nat) (key : SettingRowKey) : Checked :=
  if (env.definition key).any fun definition => !definition.composeSet then
    s.setCall n (.deleting fun k => k = key)
  else s.setCall n .ended

def statement (s : Checked) (n : Nat) (conflict : Bool) : Checked :=
  match s.calls n with
  | .reading items key left read => s.setCall n (.answered items key left read (s.rows key))
  | .writing items _ =>
    if conflict then s.setCall n .ended
    else
      { s.setCall n (.evicting (items.map fun item => fun k => k = item.1)) with
        rows := fun key => (written items key).orElse fun _ => s.rows key }
  | .deleting meant =>
    { s.setCall n (.evicting [meant]) with
      rows := fun key => if meant key then none else s.rows key }
  | _ => s

def resume (s : Checked) (n : Nat) : Checked :=
  match s.calls n with
  | .answered items key left read row => s.fill env n items key left read row
  | .evicting (eviction :: evictions) =>
    { s.setCall n (.evicting evictions) with
      cache := fun key => if eviction key then none else s.cache key }
  | .evicting [] => s.setCall n .ended
  | _ => s

inductive Input
  | get (n : Nat) (key : SettingRowKey)
  | set (n : Nat) (key : SettingRowKey) (value : String)
  | setMany (n : Nat) (items : Items)
  | delete (n : Nat) (key : SettingRowKey)
  | deleteNamespace (n : Nat) (namespaceName : String)
  | execute (n : Nat) (conflict : Bool)
  | resume (n : Nat)
  | drop (n : Nat)

def begins (s : Checked) (n : Nat) (begun : Checked) : Checked :=
  match s.calls n with
  | .absent => begun
  | _ => s

def step (s : Checked) : Input → Checked
  | .get n key => s.begins n (s.proceed env n none [] [key])
  | .set n key value => s.begins n (s.set env n key value)
  | .setMany n items => s.begins n (s.setMany env n items)
  | .delete n key => s.begins n (s.delete env n key)
  | .deleteNamespace n namespaceName =>
    s.begins n (s.setCall n (.deleting fun key => key.1 = namespaceName))
  | .execute n conflict => s.statement n conflict
  | .resume n => s.resume env n
  | .drop n => s.setCall n .ended

end Checked

end Synthorg.Settings
