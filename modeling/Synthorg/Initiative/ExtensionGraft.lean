/-
Grafting an extension onto a plan
(engine/initiative/extension_graft.py, extension_build.py).

Any number of grafts run beside the plan's other writers. Each re-reads the plan, turns back
unless its leaf still waits, decomposes it, and appends under the version it read.

`appended` is what the appends wrote, each beside the row it replaced.
-/
import Synthorg.Decomposition.Service
import Synthorg.Initiative.PlanAdvance

namespace Synthorg.Initiative.Extension

open Synthorg.Core Lib Decomposition

-- ==== the new items

/-- A fresh root, which declares what its leaf claims. -/
def extensionContext (leaf : PlanItem) : DecompositionContext :=
  { objectiveCriteria := some leaf.satisfies }

/-- The leaf's place and criteria, over the pieces grafted under it. -/
def extensionAssembly (leaf : PlanItem) (newRootItems : List PlanItem) (tree : PlanTree) :
    Assembly :=
  buildAssembly leaf.title (newRootItems.map PlanItem.title) leaf.acceptanceCriteria
    (newRootItems.map PlanItem.stakes) (tree.address leaf.id)

/-- The fields `_extension_assembly_item` builds an item from. -/
def extensionAssemblyFields (leaf : PlanItem) (newRootItems : List PlanItem)
    (tree : PlanTree) (id : Uuid) : PlanItem where
  id := id.text
  title := "Integrate: " ++ leaf.title
  description := (extensionAssembly leaf newRootItems tree).brief
  parentId := some leaf.id
  dependencies := newRootItems.map PlanItem.id
  acceptanceCriteria := leaf.acceptanceCriteria
  expectedArtifacts := (extensionAssembly leaf newRootItems tree).paths.declared
  stakes := (extensionAssembly leaf newRootItems tree).stakes
  satisfies := leaf.satisfies

def extensionAssemblyItem (leaf : PlanItem) (newRootItems : List PlanItem) (tree : PlanTree)
    (id : Uuid) : Except DecompositionError PlanItem := do
  (extensionAssemblyFields leaf newRootItems tree id).check.mapError (.item id.text)
  .ok (extensionAssemblyFields leaf newRootItems tree id)

def allNewItems (plan : Plan) (leaf : PlanItem) (r : DecompositionResult) (id : Uuid) :
    Except DecompositionError (List PlanItem) := do
  let items ← itemsFromDecomposition r
  let newItems := items.map (reparentRoot leaf.id)
  let newRootItems := newItems.filter fun item => item.parentId = some leaf.id
  let assembly ← extensionAssemblyItem leaf newRootItems (PlanTree.of plan.items) id
  .ok (newItems ++ [assembly])

-- ==== the graft

/-- The plan `_append_extension` writes over its candidate. -/
def extended (candidate : Plan) (newItems : List PlanItem) (now : Int) : Plan :=
  { candidate with
    items := candidate.items ++ newItems
    version := candidate.version + 1
    updatedAt := now }

/-- The attempts of `_append_extension`. -/
def appendAttempts : Nat := 2

inductive Grafting
  | idle
  | decomposing (plan : Plan) (leaf : PlanItem)
  /-- In the loop of `_append_extension`. -/
  | appending (leafId : String) (attempt : Nat) (candidate : Plan) (newItems : List PlanItem)
  /-- An append lost its race, and is about to re-read. -/
  | conflicted (leafId : String) (attempt : Nat) (newItems : List PlanItem)

def Grafting.held : Grafting → Option Plan
  | .idle => none
  | .decomposing plan _ => some plan
  | .appending _ _ candidate _ => some candidate
  | .conflicted _ _ _ => none

/-- The head of `_run_extension`: the leaf, unless it is gone, never oversized or extended. -/
def considerLeaf (row : Option Plan) (leafId : String) : Grafting :=
  match row with
  | none => .idle
  | some fresh =>
    match Keyed.lookup PlanItem.id fresh.items leafId with
    | none => .idle
    | some leaf =>
      if leaf.unsplitReason = none || (PlanTree.of fresh.items).isContainer leaf.id then .idle
      else .decomposing fresh leaf

/-- `graft_extension` up to the append; `ran` comes with the fresh id of the assembly. -/
def composeItems (plan : Plan) (leaf : PlanItem) (ran : Option (DecompositionResult × Uuid)) :
    Grafting :=
  match ran with
  | none => .idle
  | some (r, id) =>
    match allNewItems plan leaf r id with
    | .error _ => .idle
    | .ok newItems => .appending leaf.id 1 plan newItems

def rereadPlan (leafId : String) (attempt : Nat) (newItems : List PlanItem) : Option Plan → Grafting
  | none => .idle
  | some fresh =>
    if attempt < appendAttempts then .appending leafId (attempt + 1) fresh newItems else .idle

-- ==== the world

/-- Another writer's step or a graft's; `stop` is a deadline or a fault. -/
inductive Step
  | other (s : Initiative.Step)
  | consider (g : Nat) (leafId : String)
  | decomposed (g : Nat) (ran : Option (DecompositionResult × Uuid))
  | append (g : Nat) (now : Int)
  | reread (g : Nat)
  | stop (g : Nat)

structure Append where
  leafId : String
  newItems : List PlanItem
  before : Plan
  after : Plan

structure World where
  writers : Initiative.World
  grafts : Nat → Grafting
  appended : List Append

def World.row (w : World) : Option Plan := w.writers.row

def World.put (w : World) (g : Nat) (grafting : Grafting) : World :=
  { w with grafts := Function.update w.grafts g grafting }

/-- One `update` of `_append_extension`. -/
def commitAppend (w : World) (g : Nat) (leafId : String) (attempt : Nat) (candidate : Plan)
    (newItems : List PlanItem) (now : Int) : World :=
  match w.row, update w.row (extended candidate newItems now) candidate.version with
  | some before, .ok after =>
    { writers := { w.writers with row := some after }
      grafts := Function.update w.grafts g .idle
      appended := w.appended ++
        [{ leafId := leafId, newItems := newItems, before := before, after := after }] }
  | _, .error .versionConflict => w.put g (.conflicted leafId attempt newItems)
  | _, _ => w.put g .idle

def step (w : World) : Step → World
  | .other s => { w with writers := Initiative.step w.writers s }
  | .consider g leafId =>
    match w.grafts g with
    | .idle => w.put g (considerLeaf w.row leafId)
    | _ => w
  | .decomposed g ran =>
    match w.grafts g with
    | .decomposing plan leaf => w.put g (composeItems plan leaf ran)
    | _ => w
  | .append g now =>
    match w.grafts g with
    | .appending leafId attempt candidate newItems =>
      commitAppend w g leafId attempt candidate newItems now
    | _ => w
  | .reread g =>
    match w.grafts g with
    | .conflicted leafId attempt newItems => w.put g (rereadPlan leafId attempt newItems w.row)
    | _ => w
  | .stop g => w.put g .idle

end Synthorg.Initiative.Extension
