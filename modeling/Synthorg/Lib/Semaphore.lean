/-
The counting semaphore of a cooperative scheduler.

`acquire` takes a slot at once when one is free and nobody queues, and queues
the caller otherwise. A slot that comes free is granted to the head of the
queue, who has it from then on and goes on later; a granted caller that is
cancelled gives it back. Slots are only passed around: those that are free,
those that are granted and those that are held add up to the same number.
-/
import Mathlib.Data.List.Basic
import Mathlib.Logic.Function.Iterate

namespace Synthorg.Lib

open List

/-- The free slots, who queues, and who was granted a slot and has not gone on
yet. -/
structure Semaphore (ι : Type*) where
  value : Nat
  waiting : List ι
  granted : List ι

namespace Semaphore

variable {ι : Type*}

def new (slots : Nat) : Semaphore ι := ⟨slots, [], []⟩

/-- No slot is free, or somebody is before the caller. -/
def locked (s : Semaphore ι) : Bool :=
  s.value == 0 || !s.waiting.isEmpty || !s.granted.isEmpty

def take (s : Semaphore ι) : Semaphore ι := { s with value := s.value - 1 }

def enqueue (s : Semaphore ι) (i : ι) : Semaphore ι := { s with waiting := s.waiting ++ [i] }

/-- A free slot is granted to the head of the queue. -/
def wakeUpNext (s : Semaphore ι) : Semaphore ι :=
  match s.value, s.waiting with
  | value + 1, i :: waiting => ⟨value, waiting, s.granted ++ [i]⟩
  | _, _ => s

def wakeUpAll (s : Semaphore ι) : Semaphore ι := wakeUpNext^[s.value] s

def release (s : Semaphore ι) : Semaphore ι :=
  wakeUpNext { s with value := s.value + 1 }

section

variable [DecidableEq ι]

def resume (s : Semaphore ι) (i : ι) : Semaphore ι :=
  wakeUpAll { s with granted := s.granted.erase i }

def leave (s : Semaphore ι) (i : ι) : Semaphore ι :=
  wakeUpAll { s with waiting := s.waiting.erase i }

def giveBack (s : Semaphore ι) (i : ι) : Semaphore ι :=
  wakeUpAll { s with value := s.value + 1, granted := s.granted.erase i }

end

-- ==== the slots

def slots (s : Semaphore ι) : Nat := s.value + s.granted.length

@[simp]
theorem slots_enqueue (s : Semaphore ι) (i : ι) : (s.enqueue i).slots = s.slots := rfl

@[simp]
theorem slots_wakeUpNext (s : Semaphore ι) : s.wakeUpNext.slots = s.slots := by
  unfold wakeUpNext slots
  split
  next value i waiting hval hwait => simp [hval, Nat.add_right_comm, Nat.add_assoc]
  · rfl

theorem slots_iterate (k : Nat) (s : Semaphore ι) : (wakeUpNext^[k] s).slots = s.slots := by
  induction k generalizing s with
  | zero => rfl
  | succ k ih => rw [Function.iterate_succ_apply, ih, slots_wakeUpNext]

@[simp]
theorem slots_wakeUpAll (s : Semaphore ι) : s.wakeUpAll.slots = s.slots :=
  slots_iterate s.value s

theorem slots_release (s : Semaphore ι) : s.release.slots = s.slots + 1 := by
  simp only [release, slots_wakeUpNext]
  simp [slots, Nat.add_right_comm]

variable {s : Semaphore ι} {i : ι}

theorem slots_take (h : s.locked = false) : s.take.slots + 1 = s.slots := by
  have hval : s.value ≠ 0 := by
    intro heq
    simp [locked, heq] at h
  simp only [take, slots]
  omega

variable [DecidableEq ι]

theorem slots_resume (h : i ∈ s.granted) : (s.resume i).slots + 1 = s.slots := by
  have := length_pos_of_mem h
  simp only [resume, slots_wakeUpAll]
  simp only [slots, length_erase_of_mem h]
  omega

@[simp]
theorem slots_leave (s : Semaphore ι) (i : ι) : (s.leave i).slots = s.slots := by
  simp only [leave, slots_wakeUpAll]
  rfl

theorem slots_giveBack (h : i ∈ s.granted) : (s.giveBack i).slots = s.slots := by
  have := length_pos_of_mem h
  simp only [giveBack, slots_wakeUpAll]
  simp only [slots, length_erase_of_mem h]
  omega

-- ==== who is there

omit [DecidableEq ι]

def members (s : Semaphore ι) : List ι := s.granted ++ s.waiting

@[simp]
theorem members_take (s : Semaphore ι) : s.take.members = s.members := rfl

@[simp]
theorem members_enqueue (s : Semaphore ι) (i : ι) : (s.enqueue i).members = s.members ++ [i] := by
  simp [members, enqueue]

@[simp]
theorem members_wakeUpNext (s : Semaphore ι) : s.wakeUpNext.members = s.members := by
  unfold wakeUpNext members
  split
  next value i waiting hval hwait => simp [hwait]
  · rfl

theorem members_iterate (k : Nat) (s : Semaphore ι) : (wakeUpNext^[k] s).members = s.members := by
  induction k generalizing s with
  | zero => rfl
  | succ k ih => rw [Function.iterate_succ_apply, ih, members_wakeUpNext]

@[simp]
theorem members_wakeUpAll (s : Semaphore ι) : s.wakeUpAll.members = s.members :=
  members_iterate s.value s

@[simp]
theorem members_release (s : Semaphore ι) : s.release.members = s.members := by
  simp only [release, members_wakeUpNext]
  rfl

variable [DecidableEq ι]

theorem members_resume (h : i ∈ s.granted) : (s.resume i).members = s.members.erase i := by
  simp only [resume, members_wakeUpAll]
  simp [members, erase_append_left _ h]

theorem members_leave (h : i ∉ s.granted) : (s.leave i).members = s.members.erase i := by
  simp only [leave, members_wakeUpAll]
  simp [members, erase_append_right _ h]

theorem members_giveBack (h : i ∈ s.granted) : (s.giveBack i).members = s.members.erase i := by
  simp only [giveBack, members_wakeUpAll]
  simp [members, erase_append_left _ h]

end Semaphore

end Synthorg.Lib
