/-
Computations over a world that may raise.

`EStateM ε σ` is an `async def` seen from its caller: it returns or raises,
and what it had done to the world by then stays done. Three readings of such
a computation are used above. `bind_ok` and `foldlM_ok` follow one that
RETURNED, step by step; `Keeps R` says that it leaves the world `R`-related
to where it found it, whether it returned or RAISED; and `Ends P x Q E` is a
triple with a postcondition for each way to end.
-/
import Mathlib.Data.List.Basic

namespace Synthorg.Lib

open List

namespace Raise

variable {ε σ α β : Type}

-- ==== what returned

def left : EStateM.Result ε σ α → σ
  | .ok _ s => s
  | .error _ s => s

variable {x : EStateM ε σ α} {f : α → EStateM ε σ β} {s s' : σ} {b : β} {e : ε}

theorem bind_ok : (x >>= f) s = .ok b s' ↔ ∃ a t, x s = .ok a t ∧ f a t = .ok b s' := by
  show EStateM.bind x f s = _ ↔ _
  unfold EStateM.bind
  cases x s with
  | ok a t | error e t => simp

theorem bind_error : (x >>= f) s = .error e s' ↔
      x s = .error e s' ∨ ∃ a t, x s = .ok a t ∧ f a t = .error e s' := by
  show EStateM.bind x f s = _ ↔ _
  unfold EStateM.bind
  cases x s with
  | ok a t | error e t => simp

theorem pure_ok {a b : α} : (pure a : EStateM ε σ α) s = .ok b s' ↔ b = a ∧ s' = s := by
  show EStateM.Result.ok a s = .ok b s' ↔ _
  simp [eq_comm]

theorem throw_ok {b : α} : ¬ (throw e : EStateM ε σ α) s = .ok b s' := by
  show ¬ EStateM.Result.error e s = .ok b s'
  simp

/-- LOOP RULE: what holds first, and is kept by every step that returned, holds at the end. -/
theorem foldlM_ok {step : β → α → EStateM ε σ β} {P : List α → β → σ → Prop} {all : List α} {b' : β}
    (hstep : ∀ xs x rest, all = xs ++ x :: rest → ∀ b s b' s', P xs b s →
      step b x s = .ok b' s' → P (xs ++ [x]) b' s') (hs : P [] b s)
    (h : all.foldlM step b s = .ok b' s') : P all b' s' := by
  have hfrom : ∀ rest xs, all = xs ++ rest → ∀ b s, P xs b s →
      rest.foldlM step b s = .ok b' s' → P all b' s' := by
    intro rest
    induction rest with
    | nil =>
      intro xs hall b s hP h
      obtain ⟨rfl, rfl⟩ := h
      rw [hall, append_nil]
      exact hP
    | cons x rest ih =>
      intro xs hall b s hP h
      rw [foldlM_cons, bind_ok] at h
      obtain ⟨c, t, hx, hrest⟩ := h
      have hnext := hstep xs x rest hall b s c t hP hx
      exact ih (xs ++ [x]) (by rw [hall, append_assoc, singleton_append]) c t hnext hrest
  exact hfrom all [] rfl b s hs h

-- ==== what is kept, raised or not

/-- Wherever it ends, the world it leaves is `R`-related to its own. -/
def Keeps (R : σ → σ → Prop) (x : EStateM ε σ α) : Prop := ∀ s, R s (left (x s))

section Keeps

variable {R : σ → σ → Prop}

theorem keeps_pure (hr : ∀ s, R s s) (a : α) : Keeps R (pure a : EStateM ε σ α) :=
  fun s => hr s

theorem keeps_throw (hr : ∀ s, R s s) (e : ε) : Keeps R (throw e : EStateM ε σ α) :=
  fun s => hr s

theorem keeps_bind (ht : ∀ s t u, R s t → R t u → R s u) {x : EStateM ε σ α}
    {f : α → EStateM ε σ β} (hx : Keeps R x) (hf : ∀ a, Keeps R (f a)) : Keeps R (x >>= f) := by
  intro s
  have hfirst := hx s
  show R s (left (EStateM.bind x f s))
  unfold EStateM.bind
  cases hxs : x s with
  | ok a t =>
    rw [hxs] at hfirst
    exact ht s t _ hfirst (hf a t)
  | error e t =>
    rw [hxs] at hfirst
    exact hfirst

theorem keeps_foldlM (hr : ∀ s, R s s) (ht : ∀ s t u, R s t → R t u → R s u)
    {step : β → α → EStateM ε σ β} (hstep : ∀ b x, Keeps R (step b x)) (xs : List α) :
    ∀ b, Keeps R (xs.foldlM step b) := by
  induction xs with
  | nil =>
    intro b
    exact keeps_pure hr b
  | cons x xs ih =>
    intro b
    exact keeps_bind ht (hstep b x) ih

end Keeps

-- ==== before and after

/-- From a world with `P` it returns into `Q` or raises into `E`. -/
def Ends (P : σ → Prop) (x : EStateM ε σ α) (Q : α → σ → Prop) (E : σ → Prop) : Prop :=
  ∀ s, P s → match x s with
    | .ok a t => Q a t
    | .error _ t => E t

section Ends

variable {P P' : σ → Prop} {Q Q' : α → σ → Prop} {E : σ → Prop}

theorem ends_pure {a : α} (h : ∀ s, P s → Q a s) : Ends P (pure a : EStateM ε σ α) Q E := h

theorem ends_throw {e : ε} (h : ∀ s, P s → E s) : Ends P (throw e : EStateM ε σ α) Q E := h

theorem Ends.weaken {x : EStateM ε σ α} (h : Ends P x Q E) (hP : ∀ s, P' s → P s)
    (hQ : ∀ a s, Q a s → Q' a s) : Ends P' x Q' E := by
  intro s hs
  have hx := h s (hP s hs)
  cases hres : x s with
  | ok a t =>
    rw [hres] at hx
    exact hQ a t hx
  | error e t =>
    rw [hres] at hx
    exact hx

theorem ends_bind {R : β → σ → Prop} {x : EStateM ε σ β} {f : β → EStateM ε σ α}
    (hx : Ends P x R E) (hf : ∀ b, Ends (R b) (f b) Q E) : Ends P (x >>= f) Q E := by
  intro s hs
  have hfirst := hx s hs
  show match EStateM.bind x f s with
    | .ok a t => Q a t
    | .error _ t => E t
  unfold EStateM.bind
  cases hres : x s with
  | ok b t =>
    rw [hres] at hfirst
    exact hf b t hfirst
  | error e t =>
    rw [hres] at hfirst
    exact hfirst

/-- LOOP RULE: an invariant that each step keeps. -/
theorem ends_foldlM {I : β → σ → Prop} {step : β → α → EStateM ε σ β}
    (hstep : ∀ b x, Ends (I b) (step b x) I E) (xs : List α) :
    ∀ b, Ends (I b) (xs.foldlM step b) I E := by
  induction xs with
  | nil =>
    intro b
    exact ends_pure fun _ h => h
  | cons x xs ih =>
    intro b
    exact ends_bind (hstep b x) ih

theorem Ends.left {x : EStateM ε σ α} (h : Ends P x (fun _ => E) E) {s : σ} (hs : P s) :
    E (left (x s)) := by
  have hx := h s hs
  cases hres : x s with
  | ok a t =>
    rw [hres] at hx
    exact hx
  | error e t =>
    rw [hres] at hx
    exact hx

end Ends

end Raise

end Synthorg.Lib
