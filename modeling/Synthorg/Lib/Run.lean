/-
Finite runs of a deterministic machine driven by inputs.

Everything that "takes step after step" is one function `step : σ → ι → σ` folded over a list of
inputs. `Run.invariant` carries a predicate that every step keeps; `Run.chain` turns a fact about
ONE step into a fact about every pair of neighbouring states of the whole run.
-/
import Mathlib.Data.List.Chain

namespace Synthorg.Lib

open List

namespace Run

variable {σ ι : Type*}

-- ==== the runs

/-- The state after feeding `inputs` in order. -/
def final (step : σ → ι → σ) (s : σ) (inputs : List ι) : σ :=
  inputs.foldl step s

def states (step : σ → ι → σ) (s : σ) : List ι → List σ
  | [] => [s]
  | i :: rest => s :: states step (step s i) rest

@[simp]
theorem final_nil (step : σ → ι → σ) (s : σ) : final step s [] = s := rfl

@[simp]
theorem final_cons (step : σ → ι → σ) (s : σ) (i : ι) (rest : List ι) :
    final step s (i :: rest) = final step (step s i) rest := rfl

/-- A run over two batches is the second batch run from where the first
ended. -/
theorem final_append (step : σ → ι → σ) (s : σ) (xs ys : List ι) :
    final step s (xs ++ ys) = final step (final step s xs) ys := by
  simp only [final, foldl_append]

theorem mem_states_iff (step : σ → ι → σ) (s t : σ) (inputs : List ι) : t ∈ states step s inputs ↔
      ∃ xs ys, inputs = xs ++ ys ∧ t = final step s xs := by
  induction inputs generalizing s with
  | nil =>
    constructor
    · intro h
      exact ⟨[], [], rfl, by simpa [states] using h⟩
    · rintro ⟨xs, ys, hs, rfl⟩
      obtain ⟨rfl, rfl⟩ := append_eq_nil_iff.1 hs.symm
      simp [states]
  | cons i rest ih =>
    simp only [states, mem_cons]
    constructor
    · rintro (rfl | h)
      · exact ⟨[], i :: rest, rfl, rfl⟩
      · obtain ⟨xs, ys, rfl, rfl⟩ := (ih (step s i)).1 h
        exact ⟨i :: xs, ys, rfl, rfl⟩
    · rintro ⟨xs, ys, hs, rfl⟩
      cases xs with
      | nil => exact .inl rfl
      | cons x xs =>
        obtain ⟨rfl, rfl⟩ := cons.inj hs
        exact .inr ((ih _).2 ⟨xs, ys, rfl, rfl⟩)

theorem final_mem_states (step : σ → ι → σ) (s : σ) (inputs : List ι) :
    final step s inputs ∈ states step s inputs :=
  (mem_states_iff step s _ inputs).2 ⟨inputs, [], (append_nil inputs).symm, rfl⟩

-- ==== the rules

/-- A guard `G` on the state and the inputs to come, handed on by every step. -/
def Guarded (step : σ → ι → σ) (G : σ → List ι → Prop) : Prop :=
  ∀ s i rest, G s (i :: rest) → G (step s i) rest

variable {step : σ → ι → σ} {G : σ → List ι → Prop} {P : σ → Prop} {s : σ} {inputs xs ys : List ι}
  {ok : σ → ι → Prop}

/-- INVARIANT RULE: what every guarded step keeps holds where the run ends. -/
theorem invariant (hg : Guarded step G)
    (hstep : ∀ s i rest, G s (i :: rest) → P s → P (step s i)) (hG : G s inputs) (hP : P s) :
    P (final step s inputs) := by
  induction inputs generalizing s with
  | nil => exact hP
  | cons i rest ih => exact ih (hg s i rest hG) (hstep s i rest hG hP)

theorem kept (hstep : ∀ s i, P s → P (step s i)) (hP : P s) (inputs : List ι) :
    P (final step s inputs) := by
  induction inputs generalizing s with
  | nil => exact hP
  | cons i rest ih => exact ih (hstep s i hP)

theorem guard_of_append (hg : Guarded step G) (hG : G s (xs ++ ys)) : G (final step s xs) ys := by
  induction xs generalizing s with
  | nil => exact hG
  | cons i rest ih => exact ih (hg s i (rest ++ ys) hG)

def Throughout (step : σ → ι → σ) (ok : σ → ι → Prop) : σ → List ι → Prop
  | _, [] => True
  | s, i :: rest => ok s i ∧ Throughout step ok (step s i) rest

theorem throughout_append (h : Throughout step ok s (xs ++ ys)) :
    Throughout step ok (final step s xs) ys := by
  induction xs generalizing s with
  | nil => exact h
  | cons i rest ih => exact ih h.2

theorem throughout_concat (h : Throughout step ok s xs)
    (hys : Throughout step ok (final step s xs) ys) : Throughout step ok s (xs ++ ys) := by
  induction xs generalizing s with
  | nil => exact hys
  | cons i rest ih => exact ⟨h.1, ih h.2 hys⟩

theorem throughout_states (hstep : ∀ s i, ok s i → P s → P (step s i))
    (h : Throughout step ok s inputs) (hP : P s) : ∀ t ∈ states step s inputs, P t := by
  induction inputs generalizing s with
  | nil =>
    intro t ht
    rw [mem_singleton.1 ht]
    exact hP
  | cons i rest ih =>
    rw [states, forall_mem_cons]
    exact ⟨hP, ih h.2 (hstep s i h.1 hP)⟩

/-- CHAIN RULE: what every guarded step respects relates each two neighbouring states. -/
theorem chain {R : σ → σ → Prop} (hg : Guarded step G)
    (hkeep : ∀ s i rest, G s (i :: rest) → P s → P (step s i))
    (hR : ∀ s i rest, G s (i :: rest) → P s → R s (step s i)) (hG : G s inputs) (hP : P s) :
    (states step s inputs).IsChain R := by
  induction inputs generalizing s with
  | nil => simp [states]
  | cons i rest ih =>
    have htail := ih (hg s i rest hG) (hkeep s i rest hG hP)
    have hhead := hR s i rest hG hP
    cases rest with
    | nil | cons j rest => exact IsChain.cons_cons hhead htail

end Run

end Synthorg.Lib
