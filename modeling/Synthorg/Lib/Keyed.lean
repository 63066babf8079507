/-
Lists read as dictionaries.

A list whose members carry distinct keys is a dictionary, and `lookup` is
its read. With distinct keys a member is what its own key looks up
(`lookup_key`), so a property of the members is a property of the reads.
A member that lists keys has edges to them, and `edges` is that graph.
-/
import Mathlib.Data.List.Nodup

namespace Synthorg.Lib

open List

namespace Keyed

variable {ι κ : Type*} [DecidableEq κ] (key : ι → κ)

def lookup (items : List ι) (k : κ) : Option ι :=
  items.find? fun x => key x = k

def Distinct (items : List ι) : Prop := (items.map key).Nodup

variable {key}

variable {items : List ι} {k : κ} {x : ι} {β : Type*}

theorem lookup_mem (h : lookup key items k = some x) : x ∈ items ∧ key x = k := by
  refine ⟨mem_of_find?_eq_some h, ?_⟩
  simpa using find?_some h

theorem lookup_eq_none_iff : lookup key items k = none ↔ ∀ x ∈ items, key x ≠ k := by
  simp [lookup]

theorem lookup_key (hd : Distinct key items) (hx : x ∈ items) :
    lookup key items (key x) = some x := by
  induction items with
  | nil => cases hx
  | cons y rest ih =>
    unfold Distinct at hd
    rw [map_cons, nodup_cons] at hd
    unfold lookup
    rw [find?_cons]
    by_cases hkey : key y = key x
    · have hxy : x = y := by
        rcases mem_cons.1 hx with heq | hrest
        · exact heq
        · exact absurd (hkey ▸ mem_map_of_mem hrest) hd.1
      simp [hxy]
    · have hrest : x ∈ rest := by
        rcases mem_cons.1 hx with rfl | hrest
        · exact absurd rfl hkey
        · exact hrest
      simp only [hkey]
      exact ih hd.2 hrest

theorem eq_of_key (hd : Distinct key items) {y : ι} (hx : x ∈ items) (hy : y ∈ items)
    (h : key x = key y) : x = y := by
  have hlook := lookup_key hd hx
  rw [h, lookup_key hd hy] at hlook
  exact (Option.some.inj hlook).symm

omit [DecidableEq κ] in
theorem nodup_of_distinct (hd : Distinct key items) : items.Nodup :=
  hd.of_map key

omit [DecidableEq κ] in
theorem filterMap_keys_sublist {entry : ι → Option (κ × β)}
    (he : ∀ x e, entry x = some e → e.1 = key x) (items : List ι) :
    ((items.filterMap entry).map Prod.fst).Sublist (items.map key) := by
  induction items with
  | nil => exact Sublist.slnil
  | cons x rest ih =>
    rw [filterMap_cons, map_cons]
    cases hx : entry x with
    | none => exact ih.cons _
    | some e =>
      rw [map_cons, he x e hx]
      exact ih.cons_cons _

-- ==== dictionaries

/-- A dictionary written member by member, the last first: what each says, under its key. -/
def filed {β : Type*} (key : ι → κ) (out : ι → Option β) : List ι → List (κ × β)
  | [] => []
  | x :: rest => filed key out rest ++ (out x).toList.map (key x, ·)

omit [DecidableEq κ] in
theorem filed_keys {out : ι → Option β} {e : κ × β} (h : e ∈ filed key out items) :
    e.1 ∈ items.map key := by
  induction items with
  | nil => cases h
  | cons x rest ih =>
    rw [filed, mem_append] at h
    rw [map_cons, mem_cons]
    rcases h with h | h
    · exact .inr (ih h)
    · obtain ⟨b, -, rfl⟩ := mem_map.1 h
      exact .inl rfl

theorem lookup_filed (out : ι → Option β) (hd : Distinct key items) (hx : x ∈ items) :
    (lookup Prod.fst (filed key out items) (key x)).map Prod.snd = out x := by
  induction items with
  | nil => cases hx
  | cons y rest ih =>
    unfold Distinct at hd
    rw [map_cons, nodup_cons] at hd
    obtain ⟨hf, hrest⟩ := hd
    unfold lookup
    rw [filed, List.find?_append, Option.map_or]
    rcases mem_cons.1 hx with rfl | hmem
    · -- nothing written later is under the key
      have hnone : (filed key out rest).find? (fun e => e.1 = key x) = none := by
        rw [find?_eq_none]
        intro e he
        rw [decide_eq_true_eq]
        intro heq
        exact hf (heq ▸ filed_keys he)
      rw [hnone]
      cases out x <;> simp
    · have hold := ih hrest hmem
      unfold lookup at hold
      have hne : key y ≠ key x := fun heq => hf (heq ▸ mem_map_of_mem hmem)
      rw [hold]
      cases hout : out x with
      | some b => rfl
      | none => cases out y <;> simp [hne]

theorem filter_groups (out : ι → List β) (hd : Distinct key items) (hx : x ∈ items) :
    (items.flatMap fun y => (out y).map (key y, ·)).filter (fun e => e.1 = key x) =
      (out x).map (key x, ·) := by
  have hself : ∀ y, ((out y).map (key y, ·)).filter (fun e => e.1 = key y) =
      (out y).map (key y, ·) := by
    intro y
    rw [filter_eq_self]
    intro e he
    obtain ⟨b, -, rfl⟩ := mem_map.1 he
    exact decide_eq_true rfl
  have ho : ∀ y, key y ≠ key x → ((out y).map (key y, ·)).filter (fun e => e.1 = key x) = [] := by
    intro y hne
    rw [filter_eq_nil_iff]
    intro e he
    obtain ⟨b, -, rfl⟩ := mem_map.1 he
    rw [decide_eq_true_eq]
    exact hne
  induction items with
  | nil => cases hx
  | cons y rest ih =>
    unfold Distinct at hd
    rw [map_cons, nodup_cons] at hd
    obtain ⟨hf, hrest⟩ := hd
    rw [flatMap_cons, filter_append]
    rcases mem_cons.1 hx with rfl | hmem
    · have hnone : (rest.flatMap fun y => (out y).map (key y, ·)).filter
          (fun e => e.1 = key x) = [] := by
        rw [filter_flatMap, flatMap_eq_nil_iff]
        intro y hy
        exact ho y fun heq => hf (heq ▸ mem_map_of_mem hy)
      rw [hself, hnone, append_nil]
    · have hne : key y ≠ key x := fun heq => hf (heq ▸ mem_map_of_mem hmem)
      rw [ho y hne, ih hrest hmem, nil_append]

-- ==== edges

def edges (key : ι → κ) (out : ι → List κ) (items : List ι) (k : κ) : List κ :=
  ((lookup key items k).map out).getD []

theorem edges_cons (out : ι → List κ) (x : ι) (rest : List ι) (k : κ) :
    edges key out (x :: rest) k = if key x = k then out x else edges key out rest k := by
  unfold edges lookup
  by_cases h : key x = k <;> simp [h]

theorem edges_key {out : ι → List κ} (hd : Distinct key items) (hx : x ∈ items) :
    edges key out items (key x) = out x := by
  unfold edges
  rw [lookup_key hd hx]
  rfl

theorem edges_of_not_mem {out : ι → List κ} (hk : k ∉ items.map key) :
    edges key out items k = [] := by
  have hnone : lookup key items k = none := by
    rw [lookup_eq_none_iff]
    intro x hx hkey
    exact hk (hkey ▸ mem_map_of_mem hx)
  unfold edges
  rw [hnone]
  rfl

end Keyed

end Synthorg.Lib
