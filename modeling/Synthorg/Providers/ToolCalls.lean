/-
STREAMED TOOL CALLS (providers/drivers/litellm_tool_accumulator.py).

The accumulator of a slot says what its fragments say last, and holds what of their
argument texts fits (`gathered_arguments`); nothing tells that the rest was skipped.
-/
import Mathlib.Algebra.Order.Ring.Int
import Mathlib.Data.List.Induction
import Synthorg.Core.Validation

namespace Synthorg.Providers.ToolCalls

open Synthorg.Core List
open Function (update update_apply update_self update_of_ne)

-- ==== the accumulators

/-- What `build` reads of `json.loads`; `finite` is that `json.dumps` takes the object. -/
inductive Loaded (α : Type) where
  | invalid
  | other
  | object (args : α) (finite : Bool)

structure Json (α : Type) where
  loads : List Char → Loaded α
  empty : α

structure ToolCall (α : Type) where
  id : String
  name : String
  arguments : α
  id_not_blank : notBlank id = true
  name_not_blank : notBlank name = true

/-- A text that is missing is the empty one. -/
structure Delta where
  index : Option Int
  id : String
  name : String
  arguments : List Char

structure Accumulator where
  id : String := ""
  name : String := ""
  arguments : List Char := []
  truncated : Bool := false

def maxArgumentsLen : Nat := 1048576

def Accumulator.update (acc : Accumulator) (delta : Delta) : Accumulator :=
  let acc := if delta.id = "" then acc else { acc with id := delta.id }
  let acc := if delta.name = "" then acc else { acc with name := delta.name }
  if delta.arguments = [] ∨ acc.truncated then acc
  else if maxArgumentsLen < acc.arguments.length + delta.arguments.length then
    { acc with truncated := true }
  else { acc with arguments := acc.arguments ++ delta.arguments }

variable {α : Type} (json : Json α)

def parsed (text : List Char) : Option α :=
  match if text = [] then .object json.empty true else json.loads text with
  | .object args true => some args
  | _ => none

/-- The outer `none` is the `ValidationError` of a blank id or name. -/
def Accumulator.build (acc : Accumulator) : Option (Option (ToolCall α)) :=
  if acc.id = "" ∨ acc.name = "" then some none
  else match parsed json acc.arguments with
    | none => some none
    | some args =>
      if h : notBlank acc.id = true ∧ notBlank acc.name = true then
        some (some ⟨acc.id, acc.name, args, h.1, h.2⟩)
      else none

structure Pending where
  slots : List Int := []
  acc : Int → Accumulator := fun _ => {}

def slotForUnindexed (delta : Delta) (pending : Pending) : Int :=
  if delta.id = "" then pending.slots.max?.getD 0
  else match pending.slots.find? fun idx => (pending.acc idx).id = delta.id with
    | some idx => idx
    | none => pending.slots.max?.getD (-1) + 1

def slot (pending : Pending) (delta : Delta) : Int :=
  delta.index.getD (slotForUnindexed delta pending)

def put (pending : Pending) (idx : Int) (delta : Delta) : Pending where
  slots := if idx ∈ pending.slots then pending.slots else pending.slots ++ [idx]
  acc := update pending.acc idx ((pending.acc idx).update delta)

def accumulateToolCallDeltas (pending : Pending) (rawDeltas : List Delta) : Pending :=
  rawDeltas.foldl (fun pending delta => put pending (slot pending delta) delta) pending

structure EmittedToolCalls (α : Type) where
  chunks : List (ToolCall α)
  dropped : Bool

def emitPendingToolCalls (pending : Pending) : Option (EmittedToolCalls α) :=
  ((pending.slots.mergeSort (· ≤ ·)).mapM fun idx => (pending.acc idx).build json).map fun built =>
    ⟨built.filterMap id, built.any Option.isNone⟩

def stream (chunks : List (List Delta)) : Option (EmittedToolCalls α) :=
  emitPendingToolCalls json (chunks.foldl accumulateToolCallDeltas {})

-- ==== an accumulator and its fragments

def latest (texts : List String) : String := (texts.filter (· ≠ "")).getLast?.getD ""

/-- What fits of the texts, up to the first that does not. -/
def fitting : Nat → List (List Char) → List Char
  | _, [] => []
  | room, text :: rest =>
    if text.length ≤ room then text ++ fitting (room - text.length) rest else []

def whole (part : List Delta) : List Char := (part.map (·.arguments)).flatten

def gathered (part : List Delta) : Accumulator := part.foldl Accumulator.update {}

variable {text : String} {texts : List String} {acc : Accumulator} {delta : Delta}
  {part deltas : List Delta} {pending : Pending} {idx k : Int}

theorem latest_append : latest (texts ++ [text]) = if text = "" then latest texts else text := by
  by_cases h : text = "" <;> simp [latest, h]

theorem latest_eq (hne : text ≠ "") (hmem : text ∈ texts)
    (hall : ∀ other ∈ texts, other = "" ∨ other = text) : latest texts = text := by
  unfold latest
  cases hlast : (texts.filter (· ≠ "")).getLast? with
  | none =>
    have hin : text ∈ texts.filter (· ≠ "") := by simp [hmem, hne]
    rw [getLast?_eq_none_iff.1 hlast] at hin
    cases hin
  | some other =>
    obtain ⟨hin, hgiven⟩ := mem_filter.1 (mem_of_getLast? hlast)
    exact (hall other hin).resolve_left (by simpa using hgiven)

theorem fitting_of_le : ∀ {room : Nat} {texts : List (List Char)},
    texts.flatten.length ≤ room → fitting room texts = texts.flatten
  | _, [], _ => rfl
  | room, text :: rest, h => by
    rw [flatten_cons, length_append] at h
    rw [fitting, if_pos (by omega), fitting_of_le (by omega), flatten_cons]

theorem gathered_append : gathered (part ++ [delta]) = (gathered part).update delta := by
  simp [gathered]

theorem update_names :
    (acc.update delta).id = (if delta.id = "" then acc.id else delta.id) ∧
      (acc.update delta).name = if delta.name = "" then acc.name else delta.name := by
  grind [Accumulator.update]

theorem gathered_names (part : List Delta) : (gathered part).id = latest (part.map (·.id)) ∧
      (gathered part).name = latest (part.map (·.name)) := by
  induction part using reverseRecOn with
  | nil => exact ⟨rfl, rfl⟩
  | append_singleton part delta ih =>
    simp only [gathered_append, update_names, map_append, map_singleton, latest_append, ih,
      and_self]

/-- RUN LEMMA: an accumulator takes the texts up to the first that does not fit. -/
theorem foldl_arguments : ∀ (part : List Delta) {acc : Accumulator},
    acc.arguments.length ≤ maxArgumentsLen →
    (part.foldl Accumulator.update acc).arguments = acc.arguments ++
      if acc.truncated then [] else
        fitting (maxArgumentsLen - acc.arguments.length) (part.map (·.arguments))
  | [], acc, _ => by simp [fitting]
  | delta :: rest, acc, hle => by
    have hle' : (acc.update delta).arguments.length ≤ maxArgumentsLen := by
      grind [Accumulator.update]
    rw [foldl_cons, map_cons, foldl_arguments rest hle', fitting]
    by_cases hfits : acc.truncated = false ∧
        delta.arguments.length ≤ maxArgumentsLen - acc.arguments.length
    · have hu : (acc.update delta).truncated = false ∧
          (acc.update delta).arguments = acc.arguments ++ delta.arguments := by
        grind [Accumulator.update]
      simp [hu, hfits, Nat.sub_add_eq]
    · have hu : (acc.update delta).truncated = true ∧
          (acc.update delta).arguments = acc.arguments := by
        grind [Accumulator.update]
      grind

theorem gathered_arguments (part : List Delta) :
    (gathered part).arguments = fitting maxArgumentsLen (part.map (·.arguments)) :=
  foldl_arguments part (Nat.zero_le _)

-- ==== the slots and their fragments

/-- The fragments of a slot in a stream that goes on from `pending`. -/
def fragments (k : Int) : Pending → List Delta → List Delta
  | _, [] => []
  | pending, delta :: rest =>
    let later := fragments k (put pending (slot pending delta) delta) rest
    if slot pending delta = k then delta :: later else later

theorem accumulate_cons : accumulateToolCallDeltas pending (delta :: deltas) =
    accumulateToolCallDeltas (put pending (slot pending delta) delta) deltas :=
  rfl

theorem accumulate_append : accumulateToolCallDeltas pending (deltas ++ part) =
    accumulateToolCallDeltas (accumulateToolCallDeltas pending deltas) part :=
  foldl_append

theorem mem_slots_put : k ∈ (put pending idx delta).slots ↔ k = idx ∨ k ∈ pending.slots := by
  grind [put]

theorem acc_put : (put pending idx delta).acc k =
    if idx = k then (pending.acc k).update delta else pending.acc k := by
  by_cases h : idx = k
  · subst h
    simp [put]
  · simp [put, h, Ne.symm h]

/-- RUN LEMMA: every slot is given its fragments, and those that have one are open. -/
theorem accumulate_spec : ∀ (deltas : List Delta) (pending : Pending),
    pending.slots.Nodup →
    (accumulateToolCallDeltas pending deltas).slots.Nodup ∧
    ∀ k, (accumulateToolCallDeltas pending deltas).acc k =
        (fragments k pending deltas).foldl Accumulator.update (pending.acc k) ∧
      (k ∈ (accumulateToolCallDeltas pending deltas).slots ↔
        k ∈ pending.slots ∨ fragments k pending deltas ≠ [])
  | [], _, h => ⟨h, fun k => ⟨rfl, by simp [accumulateToolCallDeltas, fragments]⟩⟩
  | delta :: rest, pending, h => by
    have hput : (put pending (slot pending delta) delta).slots.Nodup := by
      grind [put, nodup_append]
    obtain ⟨hnodup, hat⟩ := accumulate_spec rest _ hput
    refine ⟨hnodup, fun k => ?_⟩
    obtain ⟨hacc, hmem⟩ := hat k
    rw [accumulate_cons, hacc, hmem, fragments, acc_put, mem_slots_put]
    by_cases heq : slot pending delta = k
    · simp [heq]
    · simp [heq, Ne.symm heq]

theorem acc_accumulated :
    (accumulateToolCallDeltas {} deltas).acc k = gathered (fragments k {} deltas) :=
  ((accumulate_spec deltas {} nodup_nil).2 k).1

-- ==== the cuts of a call

structure Cut (call : ToolCall α) (part : List Delta) : Prop where
  id : ∃ delta ∈ part, delta.id = call.id
  ids : ∀ delta ∈ part, delta.id = "" ∨ delta.id = call.id
  name : ∃ delta ∈ part, delta.name = call.name
  names : ∀ delta ∈ part, delta.name = "" ∨ delta.name = call.name
  arguments : parsed json (whole part) = some call.arguments
  fits : (whole part).length ≤ maxArgumentsLen

structure Indexed (calls : List (Int × ToolCall α)) (deltas : List Delta) : Prop where
  index : ∀ delta ∈ deltas, ∃ call ∈ calls, delta.index = some call.1
  cut : ∀ call ∈ calls, Cut json call.2 (deltas.filter (·.index = some call.1))

structure Unindexed (call : ToolCall α) (part : List Delta) : Prop
    extends Cut json call part where
  index : ∀ delta ∈ part, delta.index = none
  first : part.head?.map (·.id) = some call.id

variable {json}

theorem ne_of_notBlank {text : String} (h : notBlank text = true) : text ≠ "" := by
  rintro rfl
  exact absurd h (by decide)

variable {call : ToolCall α} {calls : List (ToolCall α)}

theorem Cut.gathered (h : Cut json call part) :
    (gathered part).id = call.id ∧ (gathered part).name = call.name := by
  rw [(gathered_names part).1, (gathered_names part).2]
  exact ⟨latest_eq (ne_of_notBlank call.id_not_blank) (mem_map.2 h.id) (forall_mem_map.2 h.ids),
    latest_eq (ne_of_notBlank call.name_not_blank) (mem_map.2 h.name) (forall_mem_map.2 h.names)⟩

theorem Cut.build (h : Cut json call part) :
    (ToolCalls.gathered part).build json = some (some call) := by
  have hargs := h.arguments
  rw [whole, ← fitting_of_le h.fits, ← gathered_arguments] at hargs
  simp [Accumulator.build, h.gathered, hargs, call.id_not_blank, call.name_not_blank,
    ne_of_notBlank call.id_not_blank, ne_of_notBlank call.name_not_blank]

theorem mapM_eq_some_iff {β γ : Type} {f : β → Option γ} : ∀ {l : List β} {ys : List γ},
    l.mapM f = some ys ↔ l.map f = ys.map some
  | [], ys => by cases ys <;> simp
  | x :: l, ys => by cases ys <;> simp [Option.bind_eq_some_iff, mapM_eq_some_iff]

theorem emit_of_perm {slots : List Int} (hperm : pending.slots ~ slots)
    (hsorted : slots.Pairwise (· < ·))
    (hbuilt : slots.map (fun idx => (pending.acc idx).build json) = calls.map (some ∘ some)) :
    emitPendingToolCalls json pending = some ⟨calls, false⟩ := by
  have heq : pending.slots.mergeSort (· ≤ ·) = slots :=
    ((mergeSort_perm _ _).trans hperm).eq_of_pairwise' (pairwise_mergeSort' _ _)
      (hsorted.imp le_of_lt)
  rw [emitPendingToolCalls, heq, mapM_eq_some_iff.2 (hbuilt.trans (map_map ..).symm)]
  simp

-- ==== reassembly

theorem fragments_indexed (k : Int) : ∀ {deltas : List Delta} {pending : Pending},
    (∀ delta ∈ deltas, delta.index ≠ none) →
    fragments k pending deltas = deltas.filter (·.index = some k)
  | [], _, _ => rfl
  | delta :: _, pending, h => by
    obtain ⟨hdelta, hrest⟩ := forall_mem_cons.1 h
    obtain ⟨idx, hidx⟩ := Option.ne_none_iff_exists'.1 hdelta
    have hslot : slot pending delta = idx := by simp [slot, hidx]
    rw [fragments, hslot, fragments_indexed k hrest]
    by_cases heq : idx = k <;> simp [hidx, heq]

theorem indexed_reassembled {calls : List (Int × ToolCall α)}
    (hsorted : calls.Pairwise (·.1 < ·.1)) (h : Indexed json calls deltas) :
    emitPendingToolCalls json (accumulateToolCallDeltas {} deltas) =
      some ⟨calls.map Prod.snd, false⟩ := by
  have hgiven : ∀ delta ∈ deltas, delta.index ≠ none := fun delta hmem hnone => by
    obtain ⟨call, -, hidx⟩ := h.index delta hmem
    rw [hnone] at hidx
    cases hidx
  have hkeys : (calls.map Prod.fst).Pairwise (· < ·) := pairwise_map.2 hsorted
  obtain ⟨hnodup, hat⟩ := accumulate_spec deltas {} nodup_nil
  refine emit_of_perm ((perm_ext_iff_of_nodup hnodup (hkeys.imp ne_of_lt)).2 fun k => ?_) hkeys ?_
  · rw [(hat k).2, fragments_indexed k hgiven, or_iff_right not_mem_nil, mem_map]
    constructor
    · intro hne
      obtain ⟨delta, hmem⟩ := exists_mem_of_ne_nil _ hne
      obtain ⟨hmem, hidx⟩ := mem_filter.1 hmem
      obtain ⟨call, hcall, hidx'⟩ := h.index delta hmem
      exact ⟨call, hcall, Option.some.inj (hidx'.symm.trans (of_decide_eq_true hidx))⟩
    · rintro ⟨call, hcall, rfl⟩
      obtain ⟨delta, hmem, -⟩ := (h.cut call hcall).id
      exact ne_nil_of_mem hmem
  · rw [map_map, map_map]
    refine map_congr_left fun call hcall => ?_
    simp only [Function.comp_apply, acc_accumulated, fragments_indexed _ hgiven]
    exact (h.cut call hcall).build

section
variable {slots : List Int} {m : Int}

/-- STEP LEMMA: the fragments that follow the first stay in the last slot. -/
theorem accumulate_rest {id : String} (hid : id ≠ "") (hbelow : ∀ k ∈ slots, k < m) :
    ∀ {rest : List Delta} {acc : Int → Accumulator},
    (acc m).id = id → (∀ k ∈ slots, (acc k).id ≠ id) →
    (∀ delta ∈ rest, delta.index = none ∧ (delta.id = "" ∨ delta.id = id)) →
    accumulateToolCallDeltas ⟨slots ++ [m], acc⟩ rest =
      ⟨slots ++ [m], update acc m (rest.foldl Accumulator.update (acc m))⟩
  | [], acc, _, _, _ => by simp [accumulateToolCallDeltas]
  | delta :: rest, acc, hlast, hids, hrest => by
    obtain ⟨⟨hidx, hgiven⟩, hrest⟩ := forall_mem_cons.1 hrest
    have hmax : (slots ++ [m]).max? = some m := by
      refine max?_eq_some_iff.2 ⟨by simp, fun k hk => ?_⟩
      rcases mem_append.1 hk with hold | hnew
      · exact (hbelow k hold).le
      · exact (mem_singleton.1 hnew).le
    have hslot : slot ⟨slots ++ [m], acc⟩ delta = m := by
      rw [slot, hidx, Option.getD_none, slotForUnindexed, hmax]
      rcases hgiven with hnil | hsame
      · rw [if_pos hnil, Option.getD_some]
      · have hnone : slots.find? (fun k => (acc k).id = delta.id) = none := by
          simpa [hsame] using hids
        rw [if_neg (hsame ▸ hid), find?_append, hnone]
        simp [hsame, hlast]
    have hsame : ((acc m).update delta).id = id := by
      rcases hgiven with hnil | hsame <;> simp [update_names, *]
    have hput : put ⟨slots ++ [m], acc⟩ m delta =
        ⟨slots ++ [m], update acc m ((acc m).update delta)⟩ := by
      simp [put]
    rw [accumulate_cons, hslot, hput, accumulate_rest hid hbelow (by rw [update_self, hsame])
      (fun k hk => ?_) hrest]
    · simp
    · rw [update_of_ne (hbelow k hk).ne]
      exact hids k hk

variable {acc : Int → Accumulator}

/-- STEP LEMMA: the fragments of a call open a slot above the others. -/
theorem accumulate_part (hpart : Unindexed json call part)
    (hids : ∀ k ∈ slots, (acc k).id ≠ call.id) (hnew : ∀ k, k ∉ slots → acc k = {}) :
    ∃ m, (∀ k ∈ slots, k < m) ∧
      accumulateToolCallDeltas ⟨slots, acc⟩ part =
        ⟨slots ++ [m], update acc m (gathered part)⟩ := by
  obtain ⟨first, rest, rfl⟩ : ∃ first rest, part = first :: rest := by
    cases part with
    | nil => cases hpart.first
    | cons first rest => exact ⟨first, rest, rfl⟩
  have hne := ne_of_notBlank call.id_not_blank
  have hid : first.id = call.id := Option.some.inj hpart.first
  obtain ⟨m, hm⟩ : ∃ m, m = slots.max?.getD (-1) + 1 := ⟨_, rfl⟩
  have hbelow : ∀ k ∈ slots, k < m := by
    intro k hk
    rw [hm]
    cases hmax : slots.max? with
    | none => simp [max?_eq_none_iff.1 hmax] at hk
    | some top => exact Int.lt_add_one_of_le ((max?_eq_some_iff.1 hmax).2 k hk)
  have hout : m ∉ slots := fun hin => lt_irrefl m (hbelow m hin)
  have hslot : slot ⟨slots, acc⟩ first = m := by
    have hnone : slots.find? (fun k => (acc k).id = call.id) = none := by simpa using hids
    rw [slot, hpart.index first mem_cons_self, Option.getD_none, slotForUnindexed, hid,
      if_neg hne, hnone, hm]
  have hput : put ⟨slots, acc⟩ m first =
      ⟨slots ++ [m], update acc m (Accumulator.update {} first)⟩ := by
    simp [put, hout, hnew m hout]
  have hopen : (Accumulator.update {} first).id = call.id := by simp [update_names, hid, hne]
  refine ⟨m, hbelow, ?_⟩
  rw [accumulate_cons, hslot, hput, accumulate_rest hne hbelow (by rw [update_self, hopen])
    (fun k hk => ?_) fun delta hmem => ?_]
  · simp [gathered]
  · rw [update_of_ne (hbelow k hk).ne]
    exact hids k hk
  · have hmem := mem_cons_of_mem first hmem
    exact ⟨hpart.index delta hmem, hpart.ids delta hmem⟩

end

/-- RUN LEMMA: the calls of a stream without indices open their slots in turn. -/
theorem accumulate_parts {parts : List (List Delta)}
    (h : Forall₂ (Unindexed json) calls parts) : ∀ (slots : List Int) (acc : Int → Accumulator),
    slots.Pairwise (· < ·) → (∀ k, k ∉ slots → acc k = {}) →
    (∀ call ∈ calls, ∀ k ∈ slots, (acc k).id ≠ call.id) → (calls.map (·.id)).Nodup →
    ∃ new acc', accumulateToolCallDeltas ⟨slots, acc⟩ parts.flatten = ⟨slots ++ new, acc'⟩ ∧
      (slots ++ new).Pairwise (· < ·) ∧ (∀ k ∈ slots, acc' k = acc k) ∧
      new.map (fun k => (acc' k).build json) = calls.map (some ∘ some) := by
  induction h with
  | nil =>
    intro slots acc hsorted _ _ _
    exact ⟨[], acc, by simp [accumulateToolCallDeltas], by simpa, fun _ _ => rfl, rfl⟩
  | @cons call part calls parts hpart _ ih =>
    intro slots acc hsorted hnew hids hnodup
    obtain ⟨hcall, hcalls⟩ := forall_mem_cons.1 hids
    obtain ⟨hout, hnodup⟩ := nodup_cons.1 hnodup
    obtain ⟨m, hbelow, hacc⟩ := accumulate_part hpart hcall hnew
    have hold : ∀ k ∈ slots, update acc m (gathered part) k = acc k := fun k hk =>
      update_of_ne (hbelow k hk).ne ..
    obtain ⟨new, acc', heq, hsorted, hkept, hbuilt⟩ :=
      ih (slots ++ [m]) (update acc m (gathered part))
        (pairwise_append.2 ⟨hsorted, pairwise_singleton .., by simpa using hbelow⟩)
        (fun k hk => by
          simp only [mem_append, mem_singleton, not_or] at hk
          exact (update_of_ne hk.2 ..).trans (hnew k hk.1))
        (fun other hmem k hk => by
          rcases mem_append.1 hk with hin | hlast
          · rw [hold k hin]
            exact hcalls other hmem k hin
          · rw [mem_singleton.1 hlast, update_self, hpart.gathered.1]
            exact fun heq => hout (mem_map.2 ⟨other, hmem, heq.symm⟩)) hnodup
    refine ⟨m :: new, acc', ?_, by simpa using hsorted, fun k hk => ?_, ?_⟩
    · rw [flatten_cons, accumulate_append, hacc, heq, append_assoc, singleton_append]
    · exact (hkept k (mem_append_left _ hk)).trans (hold k hk)
    · have hlast := hkept m (by simp)
      rw [update_self] at hlast
      rw [map_cons, map_cons, hbuilt, hlast, hpart.build]
      rfl

-- ==== whatever the deltas

variable (json)

def callOf (part : List Delta) (call : ToolCall α) : Prop :=
  latest (part.map (·.id)) = call.id ∧ latest (part.map (·.name)) = call.name ∧
    parsed json (fitting maxArgumentsLen (part.map (·.arguments))) = some call.arguments

structure Faithful (deltas : List Delta) : Prop where
  built : ∀ k call, ((accumulateToolCallDeltas {} deltas).acc k).build json = some (some call) →
    parsed json (whole (fragments k {} deltas)) = some call.arguments
  told : ∀ emitted, emitPendingToolCalls json (accumulateToolCallDeltas {} deltas) = some emitted →
    (∃ k ∈ (accumulateToolCallDeltas {} deltas).slots,
      ((accumulateToolCallDeltas {} deltas).acc k).build json = some none) →
    emitted.dropped = true

variable {json}

theorem build_gathered : (gathered part).build json = some (some call) ↔ callOf json part call := by
  rw [callOf, ← (gathered_names part).1, ← (gathered_names part).2, ← gathered_arguments]
  have hid := ne_of_notBlank call.id_not_blank
  have hname := ne_of_notBlank call.name_not_blank
  generalize gathered part = acc
  obtain ⟨id, name, args, hid', hname'⟩ := call
  constructor
  · grind [Accumulator.build]
  · rintro ⟨rfl, rfl, hargs⟩
    simp [Accumulator.build, hid, hname, hargs, hid', hname']

theorem emit_dropped {pending : Pending} {emitted : EmittedToolCalls α}
    (h : emitPendingToolCalls json pending = some emitted)
    (hnone : ∃ k ∈ pending.slots, (pending.acc k).build json = some none) :
    emitted.dropped = true := by
  obtain ⟨built, hbuilt, rfl⟩ := Option.map_eq_some_iff.1 h
  obtain ⟨k, hk, hnone⟩ := hnone
  have hin : some none ∈ built.map some :=
    mapM_eq_some_iff.1 hbuilt ▸ mem_map.2 ⟨k, mem_mergeSort.2 hk, hnone⟩
  obtain ⟨x, hx, heq⟩ := mem_map.1 hin
  cases heq
  exact any_eq_true.2 ⟨none, hx, rfl⟩

/-- Whole calls come out whole from every cut; and whatever the deltas, what is built was sent,
unless what fits of a text too long is a call of its own. -/
theorem toolCalls_reassembled_iff (json : Json α) :
    (∀ (calls : List (Int × ToolCall α)) (chunks : List (List Delta)),
      calls.Pairwise (·.1 < ·.1) → Indexed json calls chunks.flatten →
      stream json chunks = some ⟨calls.map Prod.snd, false⟩) ∧
    (∀ (calls : List (ToolCall α)) (parts chunks : List (List Delta)),
      (calls.map (·.id)).Nodup → Forall₂ (Unindexed json) calls parts →
      chunks.flatten = parts.flatten → stream json chunks = some ⟨calls, false⟩) ∧
    ∀ deltas, Faithful json deltas ↔ ∀ k call, callOf json (fragments k {} deltas) call →
      maxArgumentsLen < (whole (fragments k {} deltas)).length →
      parsed json (whole (fragments k {} deltas)) = some call.arguments := by
  have hstream : ∀ chunks, stream json chunks =
      emitPendingToolCalls json (accumulateToolCallDeltas {} chunks.flatten) := fun chunks =>
    congrArg _ foldl_flatten.symm
  refine ⟨fun calls chunks hsorted h => ?_, fun calls parts chunks hnodup h hchunks => ?_,
    fun deltas => ⟨fun h k call hcall _ => ?_, fun h => ⟨fun k call hbuilt => ?_,
      fun emitted => emit_dropped⟩⟩⟩
  · rw [hstream]
    exact indexed_reassembled hsorted h
  · obtain ⟨new, acc, hacc, hsorted, -, hbuilt⟩ := accumulate_parts h [] _
      Pairwise.nil (fun _ _ => rfl) (by simp) hnodup
    rw [hstream, hchunks, hacc]
    exact emit_of_perm (Perm.refl _) hsorted hbuilt
  · refine h.built k call ?_
    rw [acc_accumulated]
    exact build_gathered.2 hcall
  · rw [acc_accumulated] at hbuilt
    have hcall := build_gathered.1 hbuilt
    rcases Nat.lt_or_ge maxArgumentsLen (whole (fragments k {} deltas)).length with hlong | hfits
    · exact h k call hcall hlong
    · exact (congrArg _ (fitting_of_le hfits)).symm.trans hcall.2.2

/-- An object is told by its spelling. -/
def spelled : Json (List Char) := ⟨fun text => .object text true, []⟩

def readCall : ToolCall (List Char) := ⟨"a", "read", "\x7b\x7d".toList, by decide, by decide⟩

def writeCall : ToolCall (List Char) :=
  ⟨"b", "write", "\x7b\"p\":2\x7d".toList, by decide, by decide⟩

def halves (index : Option Int) (call : ToolCall (List Char)) (n : Nat) : List Delta :=
  [⟨index, call.id, call.name, call.arguments.take n⟩, ⟨index, "", "", call.arguments.drop n⟩]

theorem cut_halves (index : Option Int) (call : ToolCall (List Char)) (n : Nat)
    (hgiven : call.arguments ≠ []) (hfits : call.arguments.length ≤ maxArgumentsLen) :
    Cut spelled call (halves index call n) where
  id := ⟨_, mem_cons_self, rfl⟩
  ids := by simp [halves]
  name := ⟨_, mem_cons_self, rfl⟩
  names := by simp [halves]
  arguments := by simp [whole, halves, parsed, spelled, hgiven]
  fits := by simpa [whole, halves] using hfits

/-- Two calls by their slots, crossing, and two without slots, one after the other. -/
theorem toolCalls_reassembled_crossing :
    stream spelled [[⟨some 0, "a", "read", "\x7b".toList⟩, ⟨some 1, "b", "write", "\x7b".toList⟩],
      [⟨some 1, "", "", "\"p\":2\x7d".toList⟩, ⟨some 0, "", "", "\x7d".toList⟩]] =
        some ⟨[readCall, writeCall], false⟩ ∧
    stream spelled [halves none readCall 1 ++ halves none writeCall 4] =
      some ⟨[readCall, writeCall], false⟩ := by
  obtain ⟨hindexed, hunindexed, -⟩ := toolCalls_reassembled_iff spelled
  have hread : ∀ index, Cut spelled readCall (halves index readCall 1) := fun index =>
    cut_halves index readCall 1 (by decide) (by decide)
  constructor
  · refine hindexed [(0, readCall), (1, writeCall)] _ (by decide) ⟨by decide, ?_⟩
    exact forall_mem_cons.2 ⟨hread (some 0),
      forall_mem_singleton.2 (cut_halves (some 1) writeCall 1 (by decide) (by decide))⟩
  · refine hunindexed [readCall, writeCall] [halves none readCall 1, halves none writeCall 4] _
      (by decide) (.cons ⟨hread none, by decide, rfl⟩ (.cons ⟨?_, by decide, rfl⟩ .nil)) rfl
    exact cut_halves none writeCall 4 (by decide) (by decide)

/-- `json.loads` on a text that stands for nothing. -/
def refusing : Json (List (String × String)) := ⟨fun _ => .invalid, []⟩

/-- One fragment over the limit: its call is emitted without arguments. -/
def oversized : Delta := ⟨none, "a", "f", replicate (maxArgumentsLen + 1) 'x'⟩

theorem oversized_emptied :
    stream refusing [[oversized]] = some ⟨[⟨"a", "f", [], by decide, by decide⟩], false⟩ ∧
      ¬ Faithful refusing [oversized] := by
  have hu : Accumulator.update {} oversized = ⟨"a", "f", [], true⟩ := by
    simp [Accumulator.update, oversized]
  have hf : fragments 0 {} [oversized] = [oversized] := rfl
  have hacc : (accumulateToolCallDeltas {} [oversized]).acc 0 = ⟨"a", "f", [], true⟩ := by
    rw [acc_accumulated, hf]
    exact (@gathered_append oversized []).trans hu
  refine ⟨emit_of_perm (Perm.refl [0]) (pairwise_singleton ..) ?_, fun h => ?_⟩
  · exact congrArg (fun acc => [Accumulator.build refusing acc]) hacc
  · have hbuilt := h.built 0 ⟨"a", "f", [], by decide, by decide⟩ (by rw [hacc]; rfl)
    rw [hf] at hbuilt
    simp [whole, oversized, parsed, refusing, replicate_succ] at hbuilt

end Synthorg.Providers.ToolCalls
