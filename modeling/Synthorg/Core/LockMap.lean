/-
Locks by key, kept while somebody wants them
(core/concurrency/refcounted_lock_map.py).

A caller of `acquire` counts itself in and takes the key's lock or queues for
it; it counts itself out when its guarded block is over or it was cancelled in
the queue. No `await` stands in either piece, so each is one step. Lock objects
are numbered as they are made.
-/
import Synthorg.Lib.Mutex
import Synthorg.Lib.Run
import Mathlib.Data.Set.Card

namespace Synthorg.Core

open Lib
open Function (update update_self update_of_ne update_apply)

inductive Caller (κ : Type*)
  | outside
  | waiting (key : κ) (lock : Nat)
  | inside (key : κ) (lock : Nat)

def Caller.wants : Caller κ → Option (κ × Nat)
  | .outside => none
  | .waiting key lock | .inside key lock => some (key, lock)

structure RefcountedLockMap (κ ι : Type*) where
  locks : κ → Option Nat
  refcounts : κ → Option Nat
  objects : Nat → AsyncLock ι
  made : Nat
  callers : ι → Caller κ

namespace RefcountedLockMap

inductive Event (κ ι : Type*)
  | acquire (id : ι) (key : κ)
  /-- The head of a queue takes the lock. -/
  | wake (id : ι)
  /-- A guarded block ends, raises or is cancelled. -/
  | leave (id : ι)
  /-- A queued caller is cancelled. -/
  | cancel (id : ι)

variable {κ ι : Type*} [DecidableEq κ] [DecidableEq ι]

def new : RefcountedLockMap κ ι := ⟨fun _ => none, fun _ => none,
  fun _ => .fresh, 0, fun _ => .outside⟩

variable (s : RefcountedLockMap κ ι)

def setCaller (id : ι) (caller : Caller κ) : RefcountedLockMap κ ι :=
  { s with callers := update s.callers id caller }

def setObject (lock : Nat) (object : AsyncLock ι) : RefcountedLockMap κ ι :=
  { s with objects := update s.objects lock object }

def countIn (key : κ) : RefcountedLockMap κ ι × Nat :=
  let refcounts := update s.refcounts key (some ((s.refcounts key).getD 0 + 1))
  match s.locks key with
  | some lock => ({ s with refcounts }, lock)
  | none =>
    ({ s with
        refcounts
        locks := update s.locks key (some s.made)
        objects := update s.objects s.made .fresh
        made := s.made + 1 }, s.made)

/-- The `finally`. -/
def countOut (key : κ) : RefcountedLockMap κ ι :=
  let remaining := (s.refcounts key).getD 0 - 1
  if remaining ≤ 0 then
    { s with refcounts := update s.refcounts key none, locks := update s.locks key none }
  else { s with refcounts := update s.refcounts key (some remaining) }

def step : Event κ ι → RefcountedLockMap κ ι
  | .acquire id key =>
    match s.callers id with
    | .outside =>
      let (s, lock) := s.countIn key
      if (s.objects lock).open? then
        (s.setObject lock ((s.objects lock).take id)).setCaller id (.inside key lock)
      else (s.setObject lock ((s.objects lock).enqueue id)).setCaller id (.waiting key lock)
    | _ => s
  | .wake id =>
    match s.callers id with
    | .waiting key lock =>
      if (s.objects lock).next? = some id then
        (s.setObject lock (s.objects lock).handOver).setCaller id (.inside key lock)
      else s
    | _ => s
  | .leave id =>
    match s.callers id with
    | .inside key lock =>
      ((s.setObject lock (s.objects lock).release).setCaller id .outside).countOut key
    | _ => s
  | .cancel id =>
    match s.callers id with
    | .waiting key lock =>
      let object := { s.objects lock with waiters := (s.objects lock).waiters.erase id }
      ((s.setObject lock object).setCaller id .outside).countOut key
    | _ => s

-- ==== the invariant

def wanting (callers : ι → Caller κ) (key : κ) : Set ι :=
  {id | (callers id).wants.map Prod.fst = some key}

def Entry (callers : ι → Caller κ) (made : Nat) (key : κ) (lock? count? : Option Nat) : Prop :=
  (lock? = none ∧ count? = none ∧ wanting callers key = ∅) ∨
    ∃ lock < made, lock? = some lock ∧ count? = some (wanting callers key).ncard ∧
      (wanting callers key).Finite ∧ (wanting callers key).Nonempty ∧
        ∀ id ∈ wanting callers key, (callers id).wants = some (key, lock)

def Held (objects : Nat → AsyncLock ι) (callers : ι → Caller κ) : Prop :=
  ∀ id key lock, callers id = .inside key lock → (objects lock).holder = some id

/-- THE INVARIANT. -/
structure Inv (s : RefcountedLockMap κ ι) : Prop where
  entries : ∀ key, Entry s.callers s.made key (s.locks key) (s.refcounts key)
  held : Held s.objects s.callers

variable {s : RefcountedLockMap κ ι} {id : ι} {key key' : κ} {lock : Nat} {caller : Caller κ}
  {object : AsyncLock ι} {objects : Nat → AsyncLock ι} {callers : ι → Caller κ}

omit [DecidableEq κ] [DecidableEq ι] in
theorem Inv.lock_eq (h : Inv s) (hwant : (s.callers id).wants = some (key, lock)) :
    s.locks key = some lock ∧ lock < s.made := by
  have hin : id ∈ wanting s.callers key := by simp [wanting, hwant]
  obtain ⟨-, -, hnil⟩ | ⟨lock', hlt, hlock, -, -, -, hown⟩ := h.entries key
  · rw [hnil] at hin
    cases hin
  · have heq := hown id hin
    rw [hwant, Option.some.injEq, Prod.mk.injEq] at heq
    exact ⟨heq.2 ▸ hlock, heq.2 ▸ hlt⟩

theorem wanting_update (key : κ) : wanting (update callers id caller) key =
    if caller.wants.map Prod.fst = some key then insert id (wanting callers key)
    else wanting callers key \ {id} := by
  ext other
  by_cases ho : other = id
  · subst ho
    split <;> simp_all [wanting]
  · split <;> simp [wanting, ho]

theorem Entry.same {made made' : Nat} {lock? count? : Option Nat}
    (h : Entry callers made key lock? count?) (hle : made ≤ made')
    (hsame : caller.wants = (callers id).wants ∨
      (callers id).wants.map Prod.fst ≠ some key ∧ caller.wants.map Prod.fst ≠ some key) :
    Entry (update callers id caller) made' key lock? count? := by
  have hwant : wanting (update callers id caller) key = wanting callers key := by
    rw [wanting_update]
    split
    next hin =>
      exact Set.insert_eq_of_mem (by
        rcases hsame with hsame | ⟨-, hout⟩
        · rwa [hsame] at hin
        · exact absurd hin hout)
    next hout =>
      refine Set.sdiff_singleton_eq_self ?_
      rcases hsame with hsame | ⟨hout', -⟩
      · rwa [hsame] at hout
      · exact hout'
  rw [Entry, hwant]
  refine h.imp_right fun ⟨lock, hlt, hlock, hcnt, hf, hne, hown⟩ =>
    ⟨lock, hlt.trans_le hle, hlock, hcnt, hf, hne, fun other hin => ?_⟩
  by_cases ho : other = id
  · subst ho
    rw [update_self]
    rcases hsame with hsame | ⟨hout, -⟩
    · exact hsame.trans (hown other hin)
    · exact absurd hin hout
  · rw [update_of_ne ho]
    exact hown other hin

omit [DecidableEq κ] in
theorem Held.update (h : Held objects callers)
    (hself : ∀ key' lock', caller = .inside key' lock' → lock' = lock ∧ object.holder = some id)
    (ho : ∀ other, other ≠ id → (objects lock).holder = some other →
      object.holder = some other) :
    Held (update objects lock object) (update callers id caller) := by
  intro other key' lock' hin
  by_cases heq : other = id
  · subst heq
    rw [update_self] at hin
    obtain ⟨rfl, hhold⟩ := hself key' lock' hin
    rwa [update_self]
  · rw [update_of_ne heq] at hin
    have hhold := h other key' lock' hin
    rw [update_apply]
    split
    next hlock => exact ho other heq (hlock ▸ hhold)
    next => exact hhold

omit [DecidableEq ι] in
theorem Inv.countIn_eq (h : Inv s) (key : κ) : ∃ lock objects made,
    s.countIn key = ({ s with
      refcounts := update s.refcounts key (some ((wanting s.callers key).ncard + 1))
      locks := update s.locks key (some lock), objects, made }, lock) ∧
    lock < made ∧ s.made ≤ made ∧ (wanting s.callers key).Finite ∧
    (∀ id ∈ wanting s.callers key, (s.callers id).wants = some (key, lock)) ∧
    Held objects s.callers := by
  obtain ⟨hlock, hcnt, hnil⟩ | ⟨lock, hlt, hlock, hcnt, hf, -, hown⟩ := h.entries key
  · refine ⟨s.made, update s.objects s.made .fresh, s.made + 1, ?_, Nat.lt_succ_self _,
      Nat.le_succ _, by simp [hnil], by simp [hnil], fun other key' lock' hin => ?_⟩
    · simp [countIn, hlock, hcnt, hnil]
    · have hlt := (h.lock_eq (show (s.callers other).wants = some (key', lock') by rw [hin]; rfl)).2
      rw [update_of_ne hlt.ne]
      exact h.held other key' lock' hin
  · refine ⟨lock, s.objects, s.made, ?_, hlt, le_rfl, hf, hown, h.held⟩
    rw [Function.update_eq_self_iff.2 hlock.symm]
    simp [countIn, hlock, hcnt]

/-- STEP LEMMA: a caller counts itself in. -/
theorem Inv.enters (h : Inv s) (hwas : (s.callers id).wants = none)
    (hnow : caller.wants = some (key, (s.countIn key).2))
    (hheld : Held (s.countIn key).1.objects s.callers →
      Held (update (s.countIn key).1.objects (s.countIn key).2 object)
        (update s.callers id caller)) :
    Inv (((s.countIn key).1.setObject (s.countIn key).2 object).setCaller id caller) := by
  obtain ⟨lock, objects, made, hcount, hlt, hle, hf, hown, hobj⟩ := h.countIn_eq key
  rw [hcount] at hnow hheld ⊢
  refine ⟨fun key' => ?_, hheld hobj⟩
  simp only [setCaller, setObject]
  by_cases hkey : key' = key
  · subst hkey
    have hout : id ∉ wanting s.callers key' := by simp [wanting, hwas]
    have hin : wanting (update s.callers id caller) key' = insert id (wanting s.callers key') := by
      rw [wanting_update, hnow]
      exact if_pos rfl
    rw [update_self, update_self, Entry, hin, Set.ncard_insert_of_notMem hout hf]
    refine .inr ⟨lock, hlt, rfl, rfl, hf.insert id, Set.insert_nonempty _ _, ?_⟩
    rw [Set.forall_mem_insert, update_self]
    refine ⟨hnow, fun other ho => ?_⟩
    rw [update_of_ne (ne_of_mem_of_not_mem ho hout)]
    exact hown other ho
  · rw [update_of_ne hkey, update_of_ne hkey]
    exact (h.entries key').same hle (.inr ⟨by simp [hwas], by simp [hnow, Ne.symm hkey]⟩)

/-- STEP LEMMA: a caller counts itself out. -/
theorem Inv.leaves (h : Inv s) (hwas : (s.callers id).wants = some (key, lock))
    (hheld : Held (update s.objects lock object) (update s.callers id .outside)) :
    Inv (((s.setObject lock object).setCaller id .outside).countOut key) := by
  have hin : id ∈ wanting s.callers key := by simp [wanting, hwas]
  have hout : wanting (update s.callers id .outside) key = wanting s.callers key \ {id} := by
    rw [wanting_update]
    exact if_neg nofun
  obtain ⟨-, -, hnil⟩ | ⟨lock, hlt, hlock, hcnt, hf, hne, hown⟩ := h.entries key
  · rw [hnil] at hin
    cases hin
  have hleft := Set.ncard_sdiff_singleton_of_mem hin
  refine ⟨fun key' => ?_, by rw [countOut]; split <;> exact hheld⟩
  by_cases hkey : key' = key
  · subst hkey
    have hf' := hf.subset (Set.sdiff_subset (t := {id}))
    simp only [countOut, setCaller, setObject, hcnt, Option.getD_some, ← hleft]
    split <;> dsimp only <;> rw [Entry, hout, update_self]
    next hzero =>
      exact .inl ⟨rfl, update_self .., (Set.ncard_eq_zero hf').1 (Nat.le_zero.1 hzero)⟩
    next hpos =>
      refine .inr ⟨lock, hlt, hlock, rfl, hf', ?_, fun other ho => ?_⟩
      · exact Set.nonempty_of_ncard_ne_zero fun hzero => hpos hzero.le
      · exact (congrArg Caller.wants (update_of_ne ho.2 ..)).trans (hown other ho.1)
  · have ho : Entry (update s.callers id .outside) s.made key' (s.locks key')
      (s.refcounts key') :=
      (h.entries key').same le_rfl (.inr ⟨by simp [hwas, Ne.symm hkey], nofun⟩)
    rw [countOut]
    split <;> simpa only [setCaller, setObject, update_of_ne hkey] using ho

theorem Inv.moves (h : Inv s) (hsame : caller.wants = (s.callers id).wants)
    (hheld : Held (update s.objects lock object) (update s.callers id caller)) :
    Inv ((s.setObject lock object).setCaller id caller) :=
  ⟨fun key => (h.entries key).same le_rfl (.inl hsame), hheld⟩

/-- STEP LEMMA. -/
theorem Inv.step (h : Inv s) (event : Event κ ι) : Inv (s.step event) := by
  cases event with
  | acquire id key =>
    simp only [RefcountedLockMap.step]
    split
    next hout =>
      have hwas : (s.callers id).wants = none := by rw [hout]; rfl
      split
      next hopen =>
        refine h.enters hwas rfl fun hobj => hobj.update ?_ ?_
        · rintro key' lock' ⟨⟩
          exact ⟨rfl, rfl⟩
        · intro other _ hhold
          rw [AsyncLock.holder_of_open? hopen] at hhold
          cases hhold
      next => exact h.enters hwas rfl fun hobj => hobj.update nofun fun _ _ hhold => hhold
    next => exact h
  | wake id =>
    simp only [RefcountedLockMap.step]
    split
    next key lock hwait =>
      split
      next hnext =>
        obtain ⟨hfree, hhead⟩ := AsyncLock.holder_of_next? hnext
        refine h.moves (by rw [hwait]; rfl) (h.held.update ?_ ?_)
        · rintro key' lock' ⟨⟩
          exact ⟨rfl, hhead⟩
        · intro other _ hhold
          rw [hfree] at hhold
          cases hhold
      next => exact h
    next => exact h
  | leave id =>
    simp only [RefcountedLockMap.step]
    split
    next key lock hin =>
      refine h.leaves (by rw [hin]; rfl) (h.held.update nofun fun other ho hhold => ?_)
      rw [h.held id key lock hin, Option.some.injEq] at hhold
      exact absurd hhold.symm ho
    next => exact h
  | cancel id =>
    simp only [RefcountedLockMap.step]
    split
    next key lock hwait =>
      exact h.leaves (by rw [hwait]; rfl) (h.held.update nofun fun _ _ hhold => hhold)
    next => exact h

omit [DecidableEq κ] [DecidableEq ι] in
theorem Inv.new : Inv (new : RefcountedLockMap κ ι) :=
  ⟨fun _ => .inl ⟨rfl, rfl, Set.eq_empty_of_forall_notMem fun _ => nofun⟩, nofun⟩

theorem lockMap_exclusive (events : List (Event κ ι)) :
    ∀ s ∈ Run.states step (new : RefcountedLockMap κ ι) events, ∀ key,
      (∀ id id' lock lock', s.callers id = .inside key lock → s.callers id' = .inside key lock' →
        id = id') ∧
      (∀ id lock, (s.callers id).wants = some (key, lock) → s.locks key = some lock) ∧
      ((s.locks key).isSome = true ↔ ∃ id lock, (s.callers id).wants = some (key, lock)) := by
  intro s hs key
  obtain ⟨before, after, rfl, rfl⟩ := (Run.mem_states_iff ..).1 hs
  have h : Inv (Run.final step new before) := Run.kept (fun _ event h => h.step event) .new before
  refine ⟨fun id id' lock lock' hin hin' => ?_, fun id lock hwant => (h.lock_eq hwant).1, ?_⟩
  · have hlock := (h.lock_eq (show Caller.wants _ = some (key, lock) by rw [hin]; rfl)).1
    have hlock' := (h.lock_eq (show Caller.wants _ = some (key, lock') by rw [hin']; rfl)).1
    obtain rfl := Option.some.inj (hlock.symm.trans hlock')
    exact Option.some.inj ((h.held id key lock hin).symm.trans (h.held id' key lock hin'))
  · refine ⟨fun hsome => ?_, fun ⟨id, lock, hwant⟩ => by rw [(h.lock_eq hwant).1]; rfl⟩
    obtain ⟨hnone, -, -⟩ | ⟨lock, -, -, -, -, ⟨id, hin⟩, hown⟩ := h.entries key
    · rw [hnone] at hsome
      cases hsome
    · exact ⟨id, lock, hown id hin⟩

theorem lockMap_exclusive_handedOver :
    let s := Run.final step (new : RefcountedLockMap Nat Nat)
      [.acquire 0 7, .acquire 1 7, .leave 0, .wake 1]
    (∀ id id' lock lock', s.callers id = .inside 7 lock → s.callers id' = .inside 7 lock' →
        id = id') ∧
      (∀ id lock, (s.callers id).wants = some (7, lock) → s.locks 7 = some lock) ∧
      ((s.locks 7).isSome = true ↔ ∃ id lock, (s.callers id).wants = some (7, lock)) :=
  lockMap_exclusive _ _ (Run.final_mem_states _ _ _) 7

end RefcountedLockMap
end Synthorg.Core
