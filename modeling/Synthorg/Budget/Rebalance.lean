/-
DEPARTMENT BUDGETS REBALANCED (budget/rebalance.py).

`SCALE_EXISTING` scales the existing departments so that the exact total meets the
ceiling, and rounds each share on its own. What rounding adds to the shares may carry the
total over the ceiling, and a share over the percentage it scales. Neither happens where
nothing is scaled, nor where no share has a fraction that rounds up
(`computeRebalance_keepsCeiling`). The converse fails, since shares that round down make up
for shares that round up: the ceiling is kept exactly where that balance is
(`computeRebalance_keepsCeiling_iff`). Percentages are rationals, rounded half to even.
-/
import Mathlib.Data.Rat.Floor
import Mathlib.Tactic.Positivity
import Mathlib.Algebra.Order.Field.Power

namespace Synthorg.Budget

open List

-- ==== rounding

def roundHalfEven (x : ℚ) : ℤ :=
  if x - ⌊x⌋ < 1 / 2 then ⌊x⌋
  else if 1 / 2 < x - ⌊x⌋ then ⌊x⌋ + 1
  else if Even ⌊x⌋ then ⌊x⌋ else ⌊x⌋ + 1

/-- `x` lies below the boundary from which rounding carries it over `bound`. -/
def RoundsUnder (x bound : ℚ) : Prop :=
  x < ⌊bound⌋ + 1 / 2 ∨ x = ⌊bound⌋ + 1 / 2 ∧ Even ⌊bound⌋

instance {x bound : ℚ} : Decidable (RoundsUnder x bound) := inferInstanceAs (Decidable (_ ∨ _))

theorem RoundsUnder.of_le {x y bound : ℚ} (h : RoundsUnder y bound) (hle : x ≤ y) :
    RoundsUnder x bound := by
  rcases h with hlt | ⟨rfl, heven⟩
  · exact .inl (hle.trans_lt hlt)
  · exact hle.lt_or_eq.imp id fun heq => ⟨heq, heven⟩

theorem roundHalfEven_le_iff {x bound : ℚ} :
    (roundHalfEven x : ℚ) ≤ bound ↔ RoundsUnder x bound := by
  have hle := Int.floor_le x
  have hlt := Int.lt_floor_add_one x
  rw [← Int.le_floor]
  unfold roundHalfEven RoundsUnder
  generalize ⌊bound⌋ = n
  generalize ⌊x⌋ = f at hle hlt ⊢
  split
  next h =>
    constructor
    · intro hfn
      have : (f : ℚ) ≤ n := by exact_mod_cast hfn
      exact .inl (by linarith)
    · intro hx
      have : (f : ℚ) < n + 1 := by rcases hx with hx | ⟨hx, -⟩ <;> linarith
      have : f < n + 1 := by exact_mod_cast this
      omega
  next h =>
    split
    next h' =>
      constructor
      · intro hfn
        have : (f : ℚ) + 1 ≤ n := by exact_mod_cast hfn
        exact .inl (by linarith)
      · intro hx
        have : (f : ℚ) < n := by rcases hx with hx | ⟨hx, -⟩ <;> linarith
        have : f < n := by exact_mod_cast this
        omega
    next h' =>
      have hx : x = f + 1 / 2 := by linarith
      have hcast : (x < n + 1 / 2 ↔ f < n) ∧ (x = n + 1 / 2 ↔ f = n) := by
        rw [hx, add_lt_add_iff_right, add_left_inj]
        exact ⟨Int.cast_lt, Int.cast_inj⟩
      rw [hcast.1, hcast.2]
      split
      next he =>
        constructor
        · intro hfn
          rcases hfn.lt_or_eq with hfn | rfl
          · exact .inl hfn
          · exact .inr ⟨rfl, he⟩
        · rintro (hfn | ⟨rfl, -⟩) <;> omega
      next he =>
        constructor
        · intro hfn
          exact .inl (by omega)
        · rintro (hfn | ⟨rfl, hev⟩)
          · omega
          · exact absurd hev he

/-- Python's `round(x, precision)` on an exact value. -/
def roundTo (x : ℚ) (precision : ℤ) : ℚ := roundHalfEven (x * 10 ^ precision) / 10 ^ precision

theorem roundTo_le_iff {x bound : ℚ} {precision : ℤ} :
    roundTo x precision ≤ bound ↔ RoundsUnder (x * 10 ^ precision) (bound * 10 ^ precision) := by
  rw [← roundHalfEven_le_iff, roundTo, div_le_iff₀ (by positivity)]

-- ==== the computation

/-- A department: its other keys, and a percentage that may be absent or null. -/
structure Department (α : Type) where
  rest : α
  budgetPercent : Option ℚ

variable {α : Type} {existing added maxBudget : ℚ}

def Department.percent (d : Department α) : ℚ := d.budgetPercent.getD 0

def total (departments : List (Department α)) : ℚ := (departments.map (·.percent)).sum

inductive RebalanceMode where
  | none
  | scaleExisting
  | rejectIfOver

structure RebalanceResult (α : Type) where
  departments : List (Department α)
  oldTotal : ℚ
  newTotal : ℚ
  scaleFactor : Option ℚ
  rejected : Bool

def factor (existing added maxBudget : ℚ) : ℚ :=
  if existing ≤ 0 then 0 else max 0 (min 1 ((maxBudget - added) / existing))

def scaled (factor : ℚ) (precision : ℤ) (d : Department α) : Department α :=
  { d with budgetPercent := some (roundTo (d.percent * factor) precision) }

def computeRebalance (existing new : List (Department α)) (mode : RebalanceMode) (maxBudget : ℚ)
    (precision : ℤ) : RebalanceResult α :=
  let combined := total existing + total new
  let kept (scaleFactor : Option ℚ) (rejected : Bool) : RebalanceResult α :=
    { departments := existing ++ new, oldTotal := total existing,
      newTotal := roundTo combined precision, scaleFactor, rejected }
  match mode with
  | .none => kept none false
  | .rejectIfOver => kept none (maxBudget < roundTo combined precision)
  | .scaleExisting =>
    if roundTo combined precision ≤ maxBudget then kept (some 1) false
    else
      let f := factor (total existing) (total new) maxBudget
      let departments := existing.map (scaled f precision) ++ new
      { departments, oldTotal := total existing
        newTotal := roundTo (total departments) precision
        scaleFactor := some (roundTo f precision), rejected := false }

-- ==== the ceiling

def KeepsCeiling (existing new : List (Department α)) (maxBudget : ℚ) (r : RebalanceResult α) :
    Prop :=
  r.newTotal ≤ maxBudget ∧ ∃ scaled, r.departments = scaled ++ new ∧
    Forall₂ (fun d s => s.rest = d.rest ∧ s.percent ≤ d.percent) existing scaled

def share (existing new : List (Department α)) (maxBudget : ℚ) (precision : ℤ)
    (d : Department α) : ℚ :=
  d.percent * min 1 ((maxBudget - total new) / total existing) * 10 ^ precision

def RoundsWithin (existing new : List (Department α)) (maxBudget : ℚ) (precision : ℤ) : Prop :=
  let exact := share existing new maxBudget precision
  RoundsUnder ((total existing + total new) * 10 ^ precision) (maxBudget * 10 ^ precision) ∨
    0 < total existing ∧
    RoundsUnder (min maxBudget (total existing + total new) * 10 ^ precision +
      (existing.map fun d => roundHalfEven (exact d) - exact d).sum) (maxBudget * 10 ^ precision) ∧
    ∀ d ∈ existing, RoundsUnder (exact d) (d.percent * 10 ^ precision)

theorem total_append (l m : List (Department α)) : total (l ++ m) = total l + total m := by
  simp [total]

theorem total_scaled (existing : List (Department α)) (f : ℚ) (precision : ℤ) :
    total (existing.map (scaled f precision)) * 10 ^ precision =
      total existing * f * 10 ^ precision + (existing.map fun d =>
        roundHalfEven (d.percent * f * 10 ^ precision) - d.percent * f * 10 ^ precision).sum := by
  have hu : (10 : ℚ) ^ precision ≠ 0 := by positivity
  induction existing with
  | nil => simp [total]
  | cons d rest ih =>
    have hd : (scaled f precision d).percent * 10 ^ precision =
        roundHalfEven (d.percent * f * 10 ^ precision) := div_mul_cancel₀ _ hu
    simp only [total, map_cons, sum_cons, add_mul] at ih ⊢
    rw [ih, hd]
    ring

/-- Shares of nothing are nothing. -/
theorem total_scaled_zero (existing : List (Department α)) (precision : ℤ) :
    total (existing.map (scaled 0 precision)) = 0 := by
  have hu : (10 : ℚ) ^ precision ≠ 0 := by positivity
  have hround : roundHalfEven 0 = 0 := by simp [roundHalfEven]
  have h := total_scaled existing 0 precision
  simpa [hround, hu] using h

theorem factor_eq (hexist : 0 < existing) (hmax : added ≤ maxBudget) :
    factor existing added maxBudget = min 1 ((maxBudget - added) / existing) := by
  have hq : 0 ≤ (maxBudget - added) / existing := div_nonneg (by linarith) hexist.le
  rw [factor, if_neg hexist.not_ge, max_eq_right (le_min zero_le_one hq)]

/-- Unrounded, the shares and the new departments make up the ceiling, or all there is. -/
theorem exact_total (hexist : 0 < existing) :
    existing * min 1 ((maxBudget - added) / existing) + added =
      min maxBudget (existing + added) := by
  rw [mul_min_of_nonneg _ _ hexist.le, mul_one, mul_div_cancel₀ _ hexist.ne', min_comm,
    ← min_add_add_right, sub_add_cancel]

theorem forall₂_scaled {existing : List (Department α)} {f : ℚ} {precision : ℤ}
    {l : List (Department α)} :
    l = existing.map (scaled f precision) →
    (Forall₂ (fun d s => s.rest = d.rest ∧ s.percent ≤ d.percent) existing l ↔
      ∀ d ∈ existing, RoundsUnder (d.percent * f * 10 ^ precision)
        (d.percent * 10 ^ precision)) := by
  rintro rfl
  simp only [forall₂_map_right_iff, forall₂_same, scaled, true_and, ← roundTo_le_iff]
  rfl

/-- The ceiling is kept, share by share, exactly where rounding stays within the boundaries. -/
theorem computeRebalance_keepsCeiling_iff (existing new : List (Department α)) (maxBudget : ℚ)
    (precision : ℤ) (hexist : ∀ d ∈ existing, 0 ≤ d.percent)
    (hmax : total new ≤ maxBudget) :
    KeepsCeiling existing new maxBudget
        (computeRebalance existing new .scaleExisting maxBudget precision) ↔
      RoundsWithin existing new maxBudget precision := by
  simp only [computeRebalance, RoundsWithin, ← roundTo_le_iff]
  split
  next hfits =>
    refine iff_of_true ⟨hfits, existing, rfl, forall₂_same.2 fun d _ => ⟨rfl, le_rfl⟩⟩ (.inl hfits)
  next hover =>
    rw [or_iff_right hover, KeepsCeiling]
    have hsum : 0 ≤ total existing := sum_nonneg (by simpa using hexist)
    rcases hsum.eq_or_lt with hzero | hpos
    · -- nothing to scale: the new departments alone round over the ceiling
      refine iff_of_false (fun h => hover ?_) (fun h => h.1.ne hzero)
      have h := h.1
      rwa [factor, if_pos hzero.ge, total_append, total_scaled_zero, hzero] at h
    · rw [factor_eq hpos hmax]
      have htotal : total (existing.map (scaled (min 1 ((maxBudget - total new) / total existing))
          precision) ++ new) * 10 ^ precision =
          min maxBudget (total existing + total new) * 10 ^ precision +
          (existing.map fun d => roundHalfEven (share existing new maxBudget precision d) -
            share existing new maxBudget precision d).sum := by
        rw [total_append, add_mul, total_scaled, ← exact_total hpos]
        unfold share
        ring
      simp only [roundTo_le_iff, htotal, append_cancel_right_eq, exists_eq_left',
        forall₂_scaled rfl, hpos, true_and]
      rfl

/-- Nothing is scaled; or no exact share, counted in the last place kept, has a fraction that
rounds up, and neither has the ceiling. -/
def NoneRoundsUp (existing new : List (Department α)) (maxBudget : ℚ) (precision : ℤ) : Prop :=
  roundTo (total existing + total new) precision ≤ maxBudget ∨
    RoundsUnder (maxBudget * 10 ^ precision) (maxBudget * 10 ^ precision) ∧
    ∀ d ∈ existing, RoundsUnder (share existing new maxBudget precision d)
      (share existing new maxBudget precision d)

theorem share_le {existing new : List (Department α)} {precision : ℤ} {d : Department α}
    (hd : 0 ≤ d.percent) :
    share existing new maxBudget precision d ≤ d.percent * 10 ^ precision := by
  have hu : (0 : ℚ) ≤ 10 ^ precision := by positivity
  exact mul_le_mul_of_nonneg_right (mul_le_of_le_one_right hd (min_le_left _ _)) hu

/-- What rounds down adds nothing, so the total stays below the exact one. -/
theorem NoneRoundsUp.roundsWithin {existing new : List (Department α)} {precision : ℤ}
    (h : NoneRoundsUp existing new maxBudget precision) (hexist : ∀ d ∈ existing, 0 ≤ d.percent)
    (hmax : total new ≤ maxBudget) : RoundsWithin existing new maxBudget precision := by
  rcases h with hfits | ⟨hceiling, hshares⟩
  · exact .inl (roundTo_le_iff.1 hfits)
  have hu : (0 : ℚ) ≤ 10 ^ precision := by positivity
  have hsum : 0 ≤ total existing := sum_nonneg (by simpa using hexist)
  rcases hsum.eq_or_lt with hzero | hpos
  · -- the new departments alone are within a ceiling that does not round up
    refine .inl (hceiling.of_le (mul_le_mul_of_nonneg_right ?_ hu))
    rwa [← hzero, zero_add]
  · refine .inr ⟨hpos, hceiling.of_le ?_, fun d hd => ?_⟩
    · have hadded : (existing.map fun d =>
          (roundHalfEven (share existing new maxBudget precision d) : ℚ) -
            share existing new maxBudget precision d).sum ≤ 0 := by
        refine (sum_le_card_nsmul _ 0 fun x hx => ?_).trans_eq (nsmul_zero _)
        obtain ⟨d, hd, rfl⟩ := mem_map.1 hx
        exact sub_nonpos.2 (roundHalfEven_le_iff.2 (hshares d hd))
      have hexact := mul_le_mul_of_nonneg_right
        (min_le_left maxBudget (total existing + total new)) hu
      linarith
    · exact roundHalfEven_le_iff.1
        ((roundHalfEven_le_iff.2 (hshares d hd)).trans (share_le (hexist d hd)))

/-- THE CEILING is kept, and no department is scaled up, where nothing rounds up. -/
theorem computeRebalance_keepsCeiling (existing new : List (Department α)) (maxBudget : ℚ)
    (precision : ℤ) (hexist : ∀ d ∈ existing, 0 ≤ d.percent) (hmax : total new ≤ maxBudget)
    (hnone : NoneRoundsUp existing new maxBudget precision) :
    KeepsCeiling existing new maxBudget
      (computeRebalance existing new .scaleExisting maxBudget precision) :=
  (computeRebalance_keepsCeiling_iff existing new maxBudget precision hexist hmax).2
    (hnone.roundsWithin hexist hmax)

/-- Three departments make room for one of 20, and each share is rounded down. -/
theorem computeRebalance_keepsCeiling_twenty :
    (computeRebalance [⟨(), some 43⟩, ⟨(), some 43⟩, ⟨(), some 39⟩] [⟨(), some 20⟩]
      .scaleExisting 120 0).newTotal = 119 ∧
    KeepsCeiling [(⟨(), some 43⟩ : Department Unit), ⟨(), some 43⟩, ⟨(), some 39⟩]
      [⟨(), some 20⟩] 120 (computeRebalance [⟨(), some 43⟩, ⟨(), some 43⟩, ⟨(), some 39⟩]
        [⟨(), some 20⟩] .scaleExisting 120 0) :=
  ⟨by decide +kernel, computeRebalance_keepsCeiling _ _ 120 0 (by decide +kernel)
    (by decide +kernel) (.inr ⟨by decide +kernel, by decide +kernel⟩)⟩

/-- Six quarters: every share is rounded up, and the total ends above the ceiling. -/
theorem rounded_over_the_ceiling :
    (∀ d ∈ replicate 6 (⟨(), some 25⟩ : Department Unit), 0 ≤ d.percent) ∧
    total ([] : List (Department Unit)) ≤ 100 ∧
    ¬ KeepsCeiling (replicate 6 ⟨(), some 25⟩) ([] : List (Department Unit)) 100
      (computeRebalance (replicate 6 ⟨(), some 25⟩) [] .scaleExisting 100 10) :=
  ⟨by decide +kernel, by decide +kernel, fun h => absurd h.1 (by decide +kernel)⟩

end Synthorg.Budget
