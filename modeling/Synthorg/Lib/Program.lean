/-
Sequential programs over a store, operation by operation.

A program is over, has raised, or asks for one operation and goes on from its answer: a reply, or
an error it may handle.

Two ways to run them, with a rule for each. In a pool programs take turns, one operation at a
time: `Meets` says of a single program that it asks only for operations that are in order, and
`Pool.invariant` carries an invariant through every interleaving. Alone, a program has the store
to itself until it is over: `Ensures` is the condition on the store before under which what it
ends with, and in, is as wanted.
-/
import Synthorg.Lib.Run

namespace Synthorg.Lib

/-- A program that ends in an `α` or raises an `ε`. -/
inductive Program {Op : Type} (Reply : Op → Type) (ε α : Type) : Type where
  | done (a : α)
  | raised (e : ε)
  | call (op : Op) (next : Except ε (Reply op) → Program Reply ε α)

namespace Program

variable {Op : Type} {Reply : Op → Type} {ε α β : Type}

def bind : Program Reply ε α → (α → Program Reply ε β) → Program Reply ε β
  | .done a, f => f a
  | .raised e, _ => .raised e
  | .call op next, f => .call op fun r => (next r).bind f

def handle : Program Reply ε α → (ε → Program Reply ε α) → Program Reply ε α
  | .done a, _ => .done a
  | .raised e, h => h e
  | .call op next, h => .call op fun r => (next r).handle h

def attempt (p : Program Reply ε α) : Program Reply ε (Except ε α) :=
  (p.bind fun a => .done (.ok a)).handle fun e => .done (.error e)

instance : Monad (Program Reply ε) where
  pure := .done
  bind := bind

instance : MonadExceptOf ε (Program Reply ε) where
  throw := .raised
  tryCatch := handle

def perform (op : Op) : Program Reply ε (Reply op) :=
  .call op fun
    | .ok r => .done r
    | .error e => .raised e

/-- A program that takes no further step. -/
def Over : Program Reply ε α → Prop
  | .done _ => True
  | .raised _ => True
  | .call _ _ => False

instance : (p : Program Reply ε α) → Decidable p.Over
  | .done _ => .isTrue trivial
  | .raised _ => .isTrue trivial
  | .call _ _ => .isFalse id

@[simp]
theorem done_bind (a : α) (f : α → Program Reply ε β) :
    (Program.done a : Program Reply ε α) >>= f = f a := rfl

@[simp]
theorem pure_bind (a : α) (f : α → Program Reply ε β) :
    (pure a : Program Reply ε α) >>= f = f a := rfl

-- ==== under interference

section Meets

variable (ok : Op → Prop) (good : (op : Op) → Reply op → Prop)

/-- Every operation asked for is in order and the end is as wanted, if the replies are good. -/
def Meets (Q : α → Prop) : Program Reply ε α → Prop
  | .done a => Q a
  | .raised _ => True
  | .call op next =>
    ok op ∧ (∀ r, good op r → Meets Q (next (.ok r))) ∧ ∀ e, Meets Q (next (.error e))

variable {ok good} {Q : α → Prop} {p : Program Reply ε α}

theorem Meets.bind {R : β → Prop} {f : α → Program Reply ε β} (hp : p.Meets ok good Q)
    (hf : ∀ a, Q a → (f a).Meets ok good R) : (p >>= f).Meets ok good R := by
  induction p with
  | done a => exact hf a hp
  | raised e => trivial
  | call op next ih =>
    obtain ⟨hop, hreply, he⟩ := hp
    exact ⟨hop, fun r hr => ih _ (hreply r hr), fun e => ih _ (he e)⟩

theorem Meets.handle {h : ε → Program Reply ε α} (hp : p.Meets ok good Q)
    (hh : ∀ e, (h e).Meets ok good Q) : (p.handle h).Meets ok good Q := by
  induction p with
  | done a => exact hp
  | raised e => exact hh e
  | call op next ih =>
    obtain ⟨hop, hreply, he⟩ := hp
    exact ⟨hop, fun r hr => ih _ (hreply r hr), fun e => ih _ (he e)⟩

theorem Meets.perform {op : Op} (hop : ok op) :
    (perform op : Program Reply ε (Reply op)).Meets ok good (good op) :=
  ⟨hop, fun _ hr => hr, fun _ => trivial⟩

end Meets

-- ==== alone

section Ensures

variable {σ Env : Type} (exec : σ → (op : Op) → Env → σ × Except ε (Reply op))
  (allowed : Env → Prop)

/-- The condition on the store under which the program, alone with it, ends as wanted. -/
def Ensures (Q : Except ε α → σ → Prop) : Program Reply ε α → σ → Prop
  | .done a, s => Q (.ok a) s
  | .raised e, s => Q (.error e) s
  | .call op next, s => ∀ env, allowed env →
      Ensures Q (next (exec s op env).2) (exec s op env).1

variable {exec allowed}

variable {Q R : Except ε α → σ → Prop} {p : Program Reply ε α} {s : σ}

theorem Ensures.mono (hQR : ∀ a s, Q a s → R a s) (h : p.Ensures exec allowed Q s) :
    p.Ensures exec allowed R s := by
  induction p generalizing s with
  | done a | raised e => exact hQR _ s h
  | call op next ih => exact fun env henv => ih _ (h env henv)

theorem Ensures.and (hQ : p.Ensures exec allowed Q s) (hR : p.Ensures exec allowed R s) :
    p.Ensures exec allowed (fun out t => Q out t ∧ R out t) s := by
  induction p generalizing s with
  | done a | raised e => exact ⟨hQ, hR⟩
  | call op next ih => exact fun env henv => ih _ (hQ env henv) (hR env henv)

theorem Ensures.ends (p : Program Reply ε α) (s : σ) :
    p.Ensures exec allowed (fun _ _ => True) s := by
  induction p generalizing s with
  | done a | raised e => trivial
  | call op next ih => exact fun env _ => ih _ _

theorem Ensures.bind {R : Except ε β → σ → Prop} {f : α → Program Reply ε β}
    (hp : p.Ensures exec allowed Q s) (hf : ∀ a t, Q (.ok a) t → (f a).Ensures exec allowed R t)
    (he : ∀ e t, Q (.error e) t → R (.error e) t) : (p >>= f).Ensures exec allowed R s := by
  induction p generalizing s with
  | done a => exact hf a s hp
  | raised e => exact he e s hp
  | call op next ih => exact fun env henv => ih _ (hp env henv)

theorem Ensures.handle {h : ε → Program Reply ε α} (hp : p.Ensures exec allowed Q s)
    (hdone : ∀ a t, Q (.ok a) t → R (.ok a) t)
    (hh : ∀ e t, Q (.error e) t → (h e).Ensures exec allowed R t) :
    (p.handle h).Ensures exec allowed R s := by
  induction p generalizing s with
  | done a => exact hdone a s hp
  | raised e => exact hh e s hp
  | call op next ih => exact fun env henv => ih _ (hp env henv)

theorem Ensures.over (h : p.Ensures exec allowed Q s) (hover : p.Over) : ∃ out, Q out s := by
  cases p with
  | done a => exact ⟨.ok a, h⟩
  | raised e => exact ⟨.error e, h⟩
  | call op next => exact absurd hover id

theorem Ensures.attempt {Q : Except ε (Except ε α) → σ → Prop}
    (hp : p.Ensures exec allowed (fun out t => Q (.ok out) t) s) :
    p.attempt.Ensures exec allowed Q s := by
  have hdone : (p >>= fun a => Program.done (Except.ok a) : Program Reply ε (Except ε α)).Ensures
      exec allowed (fun out t => match out with
        | .ok a => Q (.ok a) t
        | .error e => Q (.ok (.error e)) t) s :=
    hp.bind (fun _ _ h => h) fun _ _ h => h
  exact hdone.handle (fun _ _ h => h) fun _ _ h => h

theorem Ensures.keeping {M : σ → Prop} (hM : ∀ s op env, allowed env → M s → M (exec s op env).1)
    (h : p.Ensures exec allowed Q s) (hs : M s) :
    p.Ensures exec allowed (fun out t => Q out t ∧ M t) s := by
  induction p generalizing s with
  | done a | raised e => exact ⟨h, hs⟩
  | call op next ih => exact fun env henv => ih _ (h env henv) (hM s op env henv hs)

theorem Ensures.perform_bind {op : Op} {f : Reply op → Program Reply ε α} (h : ∀ env, allowed env →
      match exec s op env with
      | (t, .ok r) => (f r).Ensures exec allowed Q t
      | (t, .error e) => Q (.error e) t) : (Program.perform op >>= f).Ensures exec allowed Q s := by
  intro env henv
  have hone := h env henv
  cases hout : exec s op env with
  | mk t out =>
    rw [hout] at hone
    cases out with
    | ok r | error e => exact hone

theorem Meets.ensures {ok : Op → Prop} {Q : α → Prop} {M : σ → Prop}
    (hM : ∀ s op env, allowed env → ok op → M s → M (exec s op env).1)
    (h : p.Meets ok (fun _ _ => True) Q) (hs : M s) :
    p.Ensures exec allowed (fun _ t => M t) s := by
  induction p generalizing s with
  | done a | raised e => exact hs
  | call op next ih =>
    obtain ⟨hop, hr, he⟩ := h
    intro env henv
    have hnext := hM s op env henv hop hs
    cases hout : (exec s op env).2 with
    | ok r => exact ih _ (hr r trivial) hnext
    | error e => exact ih _ (he e) hnext

variable (exec)

def run : Program Reply ε α → σ → (Nat → Env) → Except ε α × σ
  | .done a, s, _ => (.ok a, s)
  | .raised e, s, _ => (.error e, s)
  | .call op next, s, envs =>
    run (next (exec s op (envs 0)).2) (exec s op (envs 0)).1 fun n => envs (n + 1)

variable {exec}

/-- RUN RULE: what a program ensures holds of all its runs. -/
theorem Ensures.run (h : p.Ensures exec allowed Q s) {envs : Nat → Env}
    (he : ∀ n, allowed (envs n)) : Q (p.run exec s envs).1 (p.run exec s envs).2 := by
  induction p generalizing s envs with
  | done a | raised e => exact h
  | call op next ih => exact ih _ (h (envs 0) (he 0)) fun n => he (n + 1)

end Ensures

end Program

-- ==== the pool

structure Pool (σ : Type) {Op : Type} (Reply : Op → Type) (ε α : Type) where
  store : σ
  calls : Nat → Program Reply ε α

namespace Pool

variable {Op : Type} {Reply : Op → Type} {ε α σ Env : Type}
  (exec : σ → (op : Op) → Env → σ × Except ε (Reply op))

/-- One program takes one step. -/
def move (w : Pool σ Reply ε α) (i : Nat × Env) : Pool σ Reply ε α :=
  match w.calls i.1 with
  | .call op next =>
    { store := (exec w.store op i.2).1
      calls := Function.update w.calls i.1 (next (exec w.store op i.2).2) }
  | _ => w

variable {exec}

variable {Inv : σ → Prop} {w : Pool σ Reply ε α} {id : Nat} {ok : Op → Prop}
  {good : (op : Op) → Reply op → Prop} {Q : Nat → α → Prop}

/-- POOL RULE, one step. -/
theorem move_invariant (hexec : ∀ s op env, Inv s → ok op →
      Inv (exec s op env).1 ∧ ∀ r, (exec s op env).2 = .ok r → good op r) (hstr : Inv w.store)
    (hc : ∀ id, (w.calls id).Meets ok good (Q id)) (i : Nat × Env) :
    Inv (move exec w i).store ∧ ∀ id, ((move exec w i).calls id).Meets ok good (Q id) := by
  obtain ⟨id, env⟩ := i
  have hcall := hc id
  unfold move
  split
  · next op next hnext =>
    rw [show w.calls id = _ from hnext] at hcall
    obtain ⟨hop, hr, he⟩ := hcall
    obtain ⟨hinv, hgood⟩ := hexec w.store op env hstr hop
    refine ⟨hinv, ?_⟩
    intro a
    by_cases ha : a = id
    · subst ha
      simp only [Function.update_self]
      cases hout : (exec w.store op env).2 with
      | ok r => exact hr r (hgood r hout)
      | error e => exact he e
    · simpa [ha] using hc a
  · exact ⟨hstr, hc⟩

/-- POOL RULE: what every operation in order keeps, and answers well under, holds in every state
of every interleaving of programs that ask for no others. -/
theorem invariant (hexec : ∀ s op env, Inv s → ok op →
      Inv (exec s op env).1 ∧ ∀ r, (exec s op env).2 = .ok r → good op r) (hstr : Inv w.store)
    (hc : ∀ id, (w.calls id).Meets ok good (Q id)) (moves : List (Nat × Env)) :
    Inv (Run.final (move exec) w moves).store ∧
      ∀ id, ((Run.final (move exec) w moves).calls id).Meets ok good (Q id) :=
  Run.kept (P := fun w : Pool σ Reply ε α => Inv w.store ∧ ∀ id, (w.calls id).Meets ok good (Q id))
    (fun _ i h => move_invariant hexec h.1 h.2 i) ⟨hstr, hc⟩ moves

theorem unmoved (w : Pool σ Reply ε α) {moves : List (Nat × Env)} (h : ∀ i ∈ moves, i.1 ≠ id) :
    (Run.final (move exec) w moves).calls id = w.calls id := by
  induction moves generalizing w with
  | nil => rfl
  | cons i rest ih =>
    rw [List.forall_mem_cons] at h
    refine (ih _ h.2).trans ?_
    unfold move
    split
    · exact Function.update_of_ne (Ne.symm h.1) _ _
    · rfl

/-- ALONE RULE: while one program moves alone, what it ensures stays so, and is what it wanted
in the end. -/
theorem alone {allowed : Env → Prop} {Q : Except ε α → σ → Prop}
    (h : (w.calls id).Ensures exec allowed Q w.store) {envs : List Env}
    (he : ∀ env ∈ envs, allowed env) :
    ((Run.final (move exec) w (envs.map fun env => (id, env))).calls id).Ensures exec allowed Q
      (Run.final (move exec) w (envs.map fun env => (id, env))).store := by
  induction envs generalizing w with
  | nil => exact h
  | cons env rest ih =>
    rw [List.forall_mem_cons] at he
    refine ih ?_ he.2
    unfold move
    split
    · next op next hnext =>
      rw [show w.calls id = _ from hnext] at h
      simpa using h env he.1
    · exact h

theorem alone_over (w : Pool σ Reply ε α) (id : Nat) (envs : Nat → Env) :
    ∃ n, ((Run.final (move exec) w
      ((List.range n).map fun k => (id, envs k))).calls id).Over := by
  generalize hp : w.calls id = p
  induction p generalizing w envs with
  | done a | raised e => exact ⟨0, by simp [hp, Program.Over]⟩
  | call op next ih =>
    have hmove : (move exec w (id, envs 0)).calls id = next (exec w.store op (envs 0)).2 := by
      simp [move, hp]
    obtain ⟨n, hn⟩ := ih _ (move exec w (id, envs 0)) (fun k => envs (k + 1)) hmove
    refine ⟨n + 1, ?_⟩
    rw [List.range_succ_eq_map]
    simpa [Function.comp_def] using hn

end Pool

end Synthorg.Lib
