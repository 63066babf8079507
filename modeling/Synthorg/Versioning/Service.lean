/-
`VersioningService` over its repository: calls that snapshot an entity.

A call suspends at its reads and at its inserts, and what it does between two
of them touches nothing shared, so a step executes the statement a call awaits
and goes on to the next. An insert of a version number that is there already
is dropped. Which call made a row is kept beside the row, and every call keeps
what was newest whenever it executed a statement.
-/
import Synthorg.Lib.Run

namespace Synthorg.Versioning

open Lib

variable {α η : Type}

structure VersionSnapshot (α η : Type) where
  entityId : String
  version : Nat
  contentHash : η
  snapshot : α
  savedBy : String
  savedAt : Nat

/-- The arguments of a call, and whether it is a `force_snapshot`. -/
structure Request (α : Type) where
  entityId : String
  snapshot : α
  savedBy : String
  forced : Bool

inductive Way
  | unchanged
  | inserted
  | met
  | retried
  | collidedTwice
  deriving DecidableEq

inductive Stage (α η : Type)
  | absent
  | reading (request : Request α)
  | saving (request : Request α) (version : VersionSnapshot α η)
  | rereading (request : Request α) (version : VersionSnapshot α η)
  | resaving (request : Request α) (version retry : VersionSnapshot α η)
  | refetching (request : Request α) (version : VersionSnapshot α η)
  | returned (request : Request α) (way : Way) (result : Option (VersionSnapshot α η))

structure Stored (α η : Type) where
  row : VersionSnapshot α η
  call : Nat
  forced : Bool

structure History (α η : Type) where
  rows : String → List (Stored α η)
  calls : Nat → Stage α η
  /-- What was newest at the statements a call has executed, the last of them first. -/
  moments : Nat → List (VersionSnapshot α η)

namespace History

def start : History α η := ⟨fun _ => [], fun _ => .absent, fun _ => []⟩

-- ==== the repository

/-- `ORDER BY version DESC LIMIT 1`. -/
def newest (rows : List (Stored α η)) : Option (VersionSnapshot α η) :=
  rows.foldl
    (fun best stored =>
      match best with
      | none => some stored.row
      | some row => if row.version < stored.row.version then some stored.row else some row)
    none

def latest (s : History α η) (entityId : String) : Option (VersionSnapshot α η) :=
  newest (s.rows entityId)

def taken (s : History α η) (version : VersionSnapshot α η) : Bool :=
  (s.rows version.entityId).any fun stored => stored.row.version = version.version

def insert (s : History α η) (n : Nat) (forced : Bool) (version : VersionSnapshot α η) :
    History α η :=
  { s with
    rows := Function.update s.rows version.entityId
      (s.rows version.entityId ++ [⟨version, n, forced⟩]) }

-- ==== the service

def buildSnapshot (contentHash : α → η) (request : Request α)
    (latest : Option (VersionSnapshot α η)) (now : Nat) : VersionSnapshot α η where
  entityId := request.entityId
  version :=
    match latest with
    | none => 1
    | some row => row.version + 1
  contentHash := contentHash request.snapshot
  snapshot := request.snapshot
  savedBy := request.savedBy
  savedAt := now

def setCall (s : History α η) (n : Nat) (stage : Stage α η) : History α η :=
  { s with calls := Function.update s.calls n stage }

def Same (contentHash : α → η) (request : Request α)
    (latest : Option (VersionSnapshot α η)) : Prop :=
  latest.map VersionSnapshot.contentHash = some (contentHash request.snapshot)

instance [DecidableEq η] (contentHash : α → η) (request : Request α)
  (latest : Option (VersionSnapshot α η)) :
    Decidable (Same contentHash request latest) :=
  inferInstanceAs (Decidable (_ = _))

/-- The statement a call awaits is executed, across its three functions. -/
def proceed [DecidableEq η] (contentHash : α → η) (s : History α η) (n now : Nat) : History α η :=
  match s.calls n with
  | .reading request =>
    let latest := s.latest request.entityId
    if request.forced = false ∧ Same contentHash request latest then
      s.setCall n (.returned request .unchanged none)
    else s.setCall n (.saving request (buildSnapshot contentHash request latest now))
  | .saving request version =>
    if s.taken version then s.setCall n (.rereading request version)
    else (s.insert n request.forced version).setCall n (.returned request .inserted (some version))
  | .rereading request version =>
    let persisted := s.latest request.entityId
    if Same contentHash request persisted then s.setCall n (.returned request .met persisted)
    else
      s.setCall n (.resaving request version (buildSnapshot contentHash request persisted now))
  | .resaving request version retry =>
    if s.taken retry then s.setCall n (.refetching request version)
    else (s.insert n request.forced retry).setCall n (.returned request .retried (some retry))
  | .refetching request version =>
    let latest := s.latest request.entityId
    s.setCall n (.returned request .collidedTwice
      (if request.forced then some (latest.getD version) else latest))
  | _ => s

def entityOf : Stage α η → Option String
  | .reading request | .saving request _ | .rereading request _ | .resaving request _ _
  | .refetching request _ => some request.entityId
  | _ => none

def note (s : History α η) (n : Nat) : History α η :=
  { s with
    moments := Function.update s.moments n
      (((entityOf (s.calls n)).bind s.latest).toList ++ s.moments n) }

inductive Input (α : Type)
  | call (n : Nat) (request : Request α)
  | proceed (n now : Nat)

def step [DecidableEq η] (contentHash : α → η) (s : History α η) : Input α → History α η
  | .call n request =>
    match s.calls n with
    | .absent => s.setCall n (.reading request)
    | _ => s
  | .proceed n now => (s.note n).proceed contentHash n now

end History

end Synthorg.Versioning
