/-
The lock of a cooperative scheduler, and the calls that share one.

`acquire` takes a free lock at once when nobody queues for it and queues
the caller otherwise; `release` frees the lock, and only the head of the
queue may take a lock that others queue for, so a caller that comes in
between a release and the head's own step queues behind it. A lock is a
value: who replaces one while callers queue for it leaves them with the
old one.
-/
import Mathlib.Data.List.Basic

namespace Synthorg.Lib

open Function (update update_self update_of_ne)

structure AsyncLock (ι : Type*) where
  holder : Option ι
  waiters : List ι

namespace AsyncLock

variable {ι : Type*}

def fresh : AsyncLock ι := { holder := none, waiters := [] }

/-- Whether `acquire` succeeds at once. -/
def open? (lock : AsyncLock ι) : Bool :=
  lock.holder.isNone && lock.waiters.isEmpty

def take (lock : AsyncLock ι) (id : ι) : AsyncLock ι := { lock with holder := some id }

def enqueue (lock : AsyncLock ι) (id : ι) : AsyncLock ι :=
  { lock with waiters := lock.waiters ++ [id] }

def next? (lock : AsyncLock ι) : Option ι :=
  if lock.holder.isNone then lock.waiters.head? else none

def handOver (lock : AsyncLock ι) : AsyncLock ι :=
  { holder := lock.waiters.head?, waiters := lock.waiters.tail }

def release (lock : AsyncLock ι) : AsyncLock ι := { lock with holder := none }

@[simp] theorem holder_fresh : (fresh : AsyncLock ι).holder = none := rfl

@[simp] theorem holder_take (lock : AsyncLock ι) (id : ι) : (lock.take id).holder = some id := rfl

@[simp] theorem holder_enqueue (lock : AsyncLock ι) (id : ι) :
    (lock.enqueue id).holder = lock.holder := rfl

@[simp] theorem holder_release (lock : AsyncLock ι) : lock.release.holder = none := rfl

@[simp] theorem open?_fresh : (fresh : AsyncLock ι).open? = true := rfl

theorem holder_of_open? {lock : AsyncLock ι} (h : lock.open? = true) : lock.holder = none := by
  rw [open?, Bool.and_eq_true] at h
  simpa using h.1

theorem holder_of_next? {lock : AsyncLock ι} {id : ι} (h : lock.next? = some id) :
    lock.holder = none ∧ lock.handOver.holder = some id := by
  rw [next?] at h
  split at h
  next hfree => exact ⟨by simpa using hfree, h⟩
  next => cases h

end AsyncLock

section Mutex

variable {ι σ : Type*} [DecidableEq ι] {holds : σ → Prop} {lock : Option ι} {calls : ι → σ}

def Exclusive (holds : σ → Prop) (lock : Option ι) (calls : ι → σ) : Prop :=
  ∀ id, holds (calls id) → lock = some id

namespace Exclusive

omit [DecidableEq ι] in
theorem alone (h : Exclusive holds lock calls) {id id' : ι} (hlock : lock = some id)
    (hne : id' ≠ id) : ¬ holds (calls id') := by
  intro hh
  have ho := h id' hh
  rw [hlock, Option.some.injEq] at ho
  exact hne ho.symm

section
variable (h : Exclusive holds lock calls) {id : ι} {stage : σ}
include h

omit [DecidableEq ι] in
theorem none_inside (hfree : lock = none) (id : ι) : ¬ holds (calls id) := by
  intro hh
  have hlock := h id hh
  simp [hfree] at hlock

theorem outside (hout : ¬ holds stage) : Exclusive holds lock (update calls id stage) := by
  intro id' hh
  by_cases hid : id' = id
  · rw [hid, update_self] at hh
    exact absurd hh hout
  · rw [update_of_ne hid] at hh
    exact h id' hh

theorem inside (hlock : lock = some id) (stage : σ) :
    Exclusive holds lock (update calls id stage) := by
  intro id' hh
  by_cases hid : id' = id
  · rw [hid]
    exact hlock
  · rw [update_of_ne hid] at hh
    exact absurd hh (h.alone hlock hid)

theorem release (hlock : lock = some id)
    (hout : ¬ holds stage) : Exclusive holds none (update calls id stage) := by
  intro id' hh
  by_cases hid : id' = id
  · rw [hid, update_self] at hh
    exact absurd hh hout
  · rw [update_of_ne hid] at hh
    exact absurd hh (h.alone hlock hid)

end

end Exclusive

end Mutex

end Synthorg.Lib
