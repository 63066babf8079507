/-
Rows written back under the version they were read at.

Every writer reads a row, decides, and writes the row back one version on; the write lands only
where the stored version is still the one that was read. A snapshot is `Current` when the stored
row is the snapshot or a later version of it.
-/
import Synthorg.Lib.Keyed

namespace Synthorg.Lib

namespace Versioned

open Keyed

variable {κ ρ : Type*} [DecidableEq κ] {key : ρ → κ} {version : ρ → Nat}

-- ==== writing

/-- Why a write does not land. -/
inductive Refusal
  | missing
  | conflict

def put (key : ρ → κ) (row : ρ) (rows : List ρ) : List ρ :=
  rows.map fun stored => if key stored = key row then row else stored

/-- The guarded write. -/
def update (key : ρ → κ) (version : ρ → Nat) (row : ρ) (rows : List ρ) : Except Refusal (List ρ) :=
  match lookup key rows (key row) with
  | none => .error .missing
  | some stored =>
    if version stored + 1 = version row then .ok (put key row rows) else .error .conflict

variable {row : ρ} {rows rows' : List ρ}

theorem update_ok_iff : update key version row rows = .ok rows' ↔
      ∃ stored, lookup key rows (key row) = some stored ∧
        version stored + 1 = version row ∧ rows' = put key row rows := by
  unfold update
  cases lookup key rows (key row) with
  | none => simp
  | some stored =>
    simp only [Option.some.injEq]
    split
    next heq => simp [heq, eq_comm]
    next hne => simp [hne]

theorem keys_put (row : ρ) (rows : List ρ) : (put key row rows).map key = rows.map key := by
  unfold put
  rw [List.map_map]
  apply List.map_congr_left
  intro stored _
  rw [Function.comp_apply]
  split
  next h => exact h.symm
  next => rfl

theorem distinct_put (h : Distinct key rows) : Distinct key (put key row rows) := by
  unfold Distinct
  rw [keys_put]
  exact h

theorem lookup_put_self {stored : ρ} (h : lookup key rows (key row) = some stored) :
    lookup key (put key row rows) (key row) = some row := by
  unfold lookup put at *
  rw [List.find?_map]
  induction rows with
  | nil => cases h
  | cons r rest ih =>
    rw [List.find?_cons] at h ⊢
    rw [Function.comp_apply]
    by_cases hr : key r = key row
    · simp [hr]
    · simp only [hr, if_false] at h ⊢
      exact ih h

theorem lookup_put_of_ne {k : κ} (hk : k ≠ key row) :
    lookup key (put key row rows) k = lookup key rows k := by
  unfold lookup put
  induction rows with
  | nil => rfl
  | cons r rest ih =>
    rw [List.map_cons, List.find?_cons, List.find?_cons]
    by_cases hr : key r = key row
    · have hself : decide (key row = k) = false := by simpa using Ne.symm hk
      have hold : decide (key r = k) = false := by simpa [hr] using Ne.symm hk
      rw [if_pos hr, hself, hold]
      exact ih
    · rw [if_neg hr]
      cases decide (key r = k) with
      | true => rfl
      | false => exact ih

theorem mem_put {r : ρ} (h : r ∈ put key row rows) : r = row ∨ r ∈ rows := by
  obtain ⟨stored, hs, rfl⟩ := List.mem_map.1 h
  split
  next => exact .inl rfl
  next => exact .inr hs

-- ==== snapshots

def Current (key : ρ → κ) (version : ρ → Nat) (rows : List ρ) (snapshot : ρ) : Prop :=
  ∃ stored, lookup key rows (key snapshot) = some stored ∧
    version snapshot ≤ version stored ∧ (version snapshot = version stored → snapshot = stored)

theorem current_of_mem (hd : Distinct key rows) (h : row ∈ rows) :
    Current key version rows row :=
  ⟨row, lookup_key hd h, Nat.le_refl _, fun _ => rfl⟩

theorem Current.update {snapshot : ρ} (h : Current key version rows snapshot)
    (hu : update key version row rows = .ok rows') : Current key version rows' snapshot := by
  obtain ⟨stored, hs, hle, hsame⟩ := h
  obtain ⟨old, hold, hv, rfl⟩ := update_ok_iff.1 hu
  by_cases hkey : key snapshot = key row
  · rw [hkey] at hs
    obtain rfl := Option.some.inj (hold.symm.trans hs)
    refine ⟨row, ?_, by omega, fun heq => by omega⟩
    rw [hkey]
    exact lookup_put_self hold
  · exact ⟨stored, (lookup_put_of_ne hkey).trans hs, hle, hsame⟩

/-- A WRITE THAT LANDS, made from a current snapshot, replaces the snapshot. -/
theorem stored_of_update {snapshot : ρ} (h : Current key version rows snapshot)
    (hkey : key row = key snapshot) (hv : version row = version snapshot + 1)
    (hu : update key version row rows = .ok rows') :
    lookup key rows (key snapshot) = some snapshot ∧ rows' = put key row rows := by
  obtain ⟨stored, hs, -, hsame⟩ := h
  obtain ⟨old, hold, hnext, rfl⟩ := update_ok_iff.1 hu
  rw [hkey] at hold
  obtain rfl := Option.some.inj (hold.symm.trans hs)
  have heq := hsame (by omega)
  exact ⟨heq ▸ hs, rfl⟩

end Versioned

end Synthorg.Lib
