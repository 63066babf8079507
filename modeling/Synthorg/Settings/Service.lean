/-
`SettingsService` on one process: the cached reads and the writes.

A statement of the repository is one step, and so is what a call does between
two awaits. A write that reaches the repository has passed its checks and its
guards before; what these read goes through `get` and is a `get` of its own
here.

The place of the last entry of a key's log is how often the key changed.
-/
import Synthorg.Lib.Run
import Mathlib.Data.List.Nodup

namespace Synthorg.Settings

open Lib
open Function (update)

abbrev SettingRowKey := String × String

instance : LawfulBEq SettingRowKey := inferInstance

structure SettingRow where
  value : String
  updatedAt : String

structure SettingDefinition where
  sensitive : Bool
  composeSet : Bool

/-- What a process has around the service. The encryptor may fail. -/
structure Surroundings where
  definition : SettingRowKey → Option SettingDefinition
  /-- `_resolve_fallback`: the environment variable, or the default. -/
  fallback : SettingRowKey → String
  encrypt : String → Option String
  decrypt : String → Option String

/-- A value read, with how often its key had changed then. -/
structure Sighting where
  value : String
  version : Nat

-- ==== the repository

structure Repository where
  rows : SettingRowKey → Option SettingRow
  log : SettingRowKey → List (Option SettingRow)

namespace Repository

def version (r : Repository) (key : SettingRowKey) : Nat := (r.log key).length - 1

/-- The `updated_at` a `get_versioned` sees: `""` without a row. -/
def stamp (r : Repository) (key : SettingRowKey) : String :=
  match r.rows key with
  | none => ""
  | some row => row.updatedAt

/-- `save`, and the upsert without an expected stamp. -/
def save (r : Repository) (key : SettingRowKey) (row : SettingRow) : Repository where
  rows := update r.rows key (some row)
  log := update r.log key (r.log key ++ [some row])

/-- An update of the row with the expected stamp, and for `""` an insert where there is none. -/
def setIfUnchanged (r : Repository) (key : SettingRowKey) (row : SettingRow)
    (expected : String) : Option Repository :=
  match r.rows key with
  | some stored => if stored.updatedAt = expected then some (r.save key row) else none
  | none => if expected = "" then some (r.save key row) else none

/-- For `""` only inserts. -/
def upsertOne (r : Repository) (key : SettingRowKey) (row : SettingRow) :
    Option String → Option Repository
  | none => some (r.save key row)
  | some expected =>
    match r.rows key with
    | some stored =>
      if expected ≠ "" ∧ stored.updatedAt = expected then some (r.save key row) else none
    | none => if expected = "" then some (r.save key row) else none

/-- One transaction, rolled back at the first conflict. -/
def setMany (r : Repository) (stamp : String) :
    List (SettingRowKey × String × Option String) → Option Repository
  | [] => some r
  | (key, value, expected) :: items =>
    match r.upsertOne key ⟨value, stamp⟩ expected with
    | none => none
    | some r' => r'.setMany stamp items

def delete (r : Repository) (meant : SettingRowKey → Bool) : Repository where
  rows := fun key => if meant key then none else r.rows key
  log := fun key =>
    if meant key ∧ (r.rows key).isSome then r.log key ++ [none] else r.log key

end Repository

-- ==== the calls

/-- An expected stamp, with the key's changes when a `get_versioned` saw it, if one did. -/
structure Token where
  stamp : String
  seenAt : Option Nat
  deriving DecidableEq

inductive Statement
  | set (key : SettingRowKey) (row : SettingRow) (token : Option Token)
  | setMany (items : List (SettingRowKey × String × Option Token)) (stamp : String)
  | delete (key : SettingRowKey)
  | deleteNamespace (namespaceName : String)

/-- The cache entries dropped after it: one key after the other, or a namespace at once. -/
def Statement.evictions : Statement → List (SettingRowKey → Bool)
  | .set key _ _ => [fun k => k = key]
  | .setMany items _ => items.map fun item => fun k => k = item.1
  | .delete key => [fun k => k = key]
  | .deleteNamespace namespaceName => [fun k => k.1 = namespaceName]

/-- `floor` is what the writes that had returned when a read began had left of its key. -/
inductive Stage
  | absent
  | reading (key : SettingRowKey) (floor : Nat)
  | read (key : SettingRowKey) (floor : Nat) (row : Option SettingRow) (version : Nat)
  | seeing (key : SettingRowKey)
  | seen (key : SettingRowKey) (token : Token)
  | writing (statement : Statement)
  | refused
  | evicting (evictions : List (SettingRowKey → Bool)) (left : SettingRowKey → Option Nat)
  | ended

/-- A `get` that returned. -/
structure Answer where
  key : SettingRowKey
  floor : Nat
  seen : Sighting

structure Swap where
  key : SettingRowKey
  seenAt : Nat
  before : Nat

structure Process where
  repository : Repository
  cache : SettingRowKey → Option Sighting
  calls : Nat → Stage
  /-- How often a key had changed after the latest write that has dropped its
  cache entry. -/
  evicted : SettingRowKey → Nat
  /-- The same for the writes that have returned. -/
  left : SettingRowKey → Nat
  tokens : List (SettingRowKey × Token)
  answers : List Answer
  swaps : List Swap

namespace Process

/-- Nothing stored by this process yet. -/
def start (rows : SettingRowKey → Option SettingRow) : Process where
  repository := ⟨rows, fun key => [rows key]⟩
  cache := fun _ => none
  calls := fun _ => .absent
  evicted := fun _ => 0
  left := fun _ => 0
  tokens := []
  answers := []
  swaps := []

def setCall (s : Process) (n : Nat) (stage : Stage) : Process :=
  { s with calls := update s.calls n stage }

def answer (s : Process) (n : Nat) (key : SettingRowKey) (floor : Nat) (seen : Sighting) :
    Process :=
  { s.setCall n .ended with answers := ⟨key, floor, seen⟩ :: s.answers }

-- ==== the reads

def get (env : Surroundings) (s : Process) (n : Nat) (key : SettingRowKey) : Process :=
  match env.definition key with
  | none => s.setCall n .ended
  | some definition =>
    match (if definition.sensitive then none else s.cache key) with
    | some seen => s.answer n key (s.left key) seen
    | none =>
      if definition.composeSet then
        let seen : Sighting := ⟨env.fallback key, s.repository.version key⟩
        if definition.sensitive then s.answer n key (s.left key) seen
        else
          { s.answer n key (s.left key) seen with
            cache := update s.cache key (some seen) }
      else s.setCall n (.reading key (s.left key))

/-- `get`, once the repository has answered: `_resolve_db`, and the cache. -/
def fill (env : Surroundings) (s : Process) (n : Nat) (key : SettingRowKey) (floor : Nat)
    (row : Option SettingRow) (version : Nat) : Process :=
  match env.definition key, row with
  | none, _ => s.setCall n .ended
  | some _, none => s.answer n key floor ⟨env.fallback key, version⟩
  | some definition, some row =>
    if definition.sensitive then
      match env.decrypt row.value with
      | none => s.setCall n .ended
      | some value => s.answer n key floor ⟨value, version⟩
    else
      { s.answer n key floor ⟨row.value, version⟩ with
        cache := update s.cache key (some ⟨row.value, version⟩) }

/-- Up to the read. -/
def getVersioned (env : Surroundings) (s : Process) (n : Nat) (key : SettingRowKey) : Process :=
  match env.definition key with
  | none => s.setCall n .ended
  | some definition =>
    if definition.composeSet then s.setCall n .ended else s.setCall n (.seeing key)

-- ==== the writes

/-- A token is a string, or what a `get_versioned` of the key returned. -/
def Issued (s : Process) (key : SettingRowKey) : Option Token → Prop
  | some token => token.seenAt = none ∨ (key, token) ∈ s.tokens
  | none => True

instance (s : Process) (key : SettingRowKey) (token : Option Token) :
    Decidable (s.Issued key token) :=
  match token with
  | some token => inferInstanceAs (Decidable (token.seenAt = none ∨ (key, token) ∈ s.tokens))
  | none => isTrue trivial

/-- A key the service writes: registered, and not fixed by the deployment. -/
def writable (env : Surroundings) (key : SettingRowKey) : Option SettingDefinition :=
  (env.definition key).filter fun definition => !definition.composeSet

/-- `_encrypt_if_sensitive`. -/
def stored (env : Surroundings) (definition : SettingDefinition) (value : String) : Option String :=
  if definition.sensitive then env.encrypt value else some value

/-- With its guards behind it. -/
def set (env : Surroundings) (s : Process) (n : Nat) (key : SettingRowKey) (value now : String)
    (token : Option Token) : Process :=
  match (writable env key).bind fun definition => stored env definition value with
  | none => s.setCall n .ended
  | some value => s.setCall n (.writing (.set key ⟨value, now⟩ token))

def prepareSetMany (env : Surroundings) : List (SettingRowKey × String × Option Token) →
      Option (List (SettingRowKey × String × Option Token))
  | [] => some []
  | (key, value, token) :: items =>
    if key ∈ items.map Prod.fst then none
    else
      match (writable env key).bind fun definition => stored env definition value with
      | none => none
      | some value => (prepareSetMany env items).map fun rest => (key, value, token) :: rest

/-- An empty batch is refused. -/
def setMany (env : Surroundings) (s : Process) (n : Nat)
    (items : List (SettingRowKey × String × Option Token)) (now : String) : Process :=
  if items = [] then s.setCall n .ended
  else
    match prepareSetMany env items with
    | none => s.setCall n .ended
    | some items => s.setCall n (.writing (.setMany items now))

def delete (env : Surroundings) (s : Process) (n : Nat) (key : SettingRowKey) : Process :=
  match writable env key with
  | none => s.setCall n .ended
  | some _ => s.setCall n (.writing (.delete key))

/-- The writes with an expected stamp a statement makes. -/
def swapsOf (r : Repository) : Statement → List Swap
  | .set key _ token =>
    (token.bind Token.seenAt).toList.map fun seenAt => ⟨key, seenAt, r.version key⟩
  | .setMany items _ =>
    items.flatMap fun item =>
      (item.2.2.bind Token.seenAt).toList.map fun seenAt => ⟨item.1, seenAt, r.version item.1⟩
  | _ => []

def Statement.about (statement : Statement) (key : SettingRowKey) : Bool :=
  statement.evictions.any fun eviction => eviction key

def execute (r : Repository) : Statement → Option Repository
  | .set key row token =>
    match token with
    | none => some (r.save key row)
    | some token => r.setIfUnchanged key row token.stamp
  | .setMany items stamp =>
    r.setMany stamp (items.map fun item => (item.1, item.2.1, item.2.2.map Token.stamp))
  | .delete key => some (r.delete fun k => k = key)
  | .deleteNamespace namespaceName => some (r.delete fun k => k.1 = namespaceName)

def statement (s : Process) (n : Nat) : Process :=
  match s.calls n with
  | .reading key floor =>
    s.setCall n (.read key floor (s.repository.rows key) (s.repository.version key))
  | .seeing key =>
    let token : Token := ⟨s.repository.stamp key, some (s.repository.version key)⟩
    { s.setCall n (.seen key token) with tokens := (key, token) :: s.tokens }
  | .writing statement =>
    match execute s.repository statement with
    | none => s.setCall n .refused
    | some r =>
      { s.setCall n (.evicting statement.evictions fun key =>
          if Statement.about statement key then some (r.version key) else none) with
        repository := r
        swaps := swapsOf s.repository statement ++ s.swaps }
  | _ => s

/-- `_invalidate_cache` and `_invalidate_namespace_cache`. -/
def evict (s : Process) (eviction : SettingRowKey → Bool) (left : SettingRowKey → Option Nat) :
    Process :=
  { s with
    cache := fun key => if eviction key then none else s.cache key
    evicted := fun key =>
      if eviction key then max (s.evicted key) ((left key).getD 0) else s.evicted key }

/-- An await returns: a write drops a cache entry, or a namespace's, publishes, and returns at
the end. -/
def resume (env : Surroundings) (s : Process) (n : Nat) : Process :=
  match s.calls n with
  | .read key floor row version => s.fill env n key floor row version
  | .seen _ _ => s.setCall n .ended
  | .refused => s.setCall n .ended
  | .evicting (eviction :: evictions) left =>
    (s.setCall n (.evicting evictions left)).evict eviction left
  | .evicting [] left =>
    { s.setCall n .ended with
      left := fun key => max (s.left key) ((left key).getD 0) }
  | _ => s

inductive Input
  | get (n : Nat) (key : SettingRowKey)
  | getVersioned (n : Nat) (key : SettingRowKey)
  | set (n : Nat) (key : SettingRowKey) (value now : String) (token : Option Token)
  | setMany (n : Nat) (items : List (SettingRowKey × String × Option Token)) (now : String)
  | delete (n : Nat) (key : SettingRowKey)
  | deleteNamespace (n : Nat) (namespaceName : String)
  /-- The repository executes the statement the call awaits. -/
  | execute (n : Nat)
  | resume (n : Nat)
  /-- The call raises at its await, or is cancelled there. -/
  | drop (n : Nat)

def step (env : Surroundings) (s : Process) : Input → Process
  | .get n key => match s.calls n with | .absent => s.get env n key | _ => s
  | .getVersioned n key => match s.calls n with | .absent => s.getVersioned env n key | _ => s
  | .set n key value now token =>
    match s.calls n with
    | .absent => if s.Issued key token then s.set env n key value now token else s
    | _ => s
  | .setMany n items now =>
    match s.calls n with
    | .absent =>
      if ∀ item ∈ items, s.Issued item.1 item.2.2 then s.setMany env n items now else s
    | _ => s
  | .delete n key => match s.calls n with | .absent => s.delete env n key | _ => s
  | .deleteNamespace n namespaceName =>
    match s.calls n with
    | .absent => s.setCall n (.writing (.deleteNamespace namespaceName))
    | _ => s
  | .execute n => s.statement n
  | .resume n => s.resume env n
  | .drop n => match s.calls n with | .absent => s | _ => s.setCall n .ended

end Process

end Synthorg.Settings
