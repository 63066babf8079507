/-
What the sink's appends keep, and when the bound tail is the right one.

Appends happen one at a time under the lock, so every reachable chain is sound. The tail a job
bound was read outside that lock, some time before the append. A stamp remembers how long the
chain was at that read; the running hash never repeats, so the bound tail is the entry's previous
hash exactly when nothing was appended in between.
-/
import Synthorg.AuditChain.Proofs.Tamper

namespace Synthorg.AuditChain.Sink

open Synthorg.Core Lib HashChain Chained
open List

variable {sha : Sha256}

-- ==== what a stamp is

/-- A stamp taken of a chain: the tail of its first `depth` entries, bound
to this event. -/
structure Taken (sha : Sha256) (chain : HashChain) (data signature : Bytes)
    (stamp : Stamp) : Prop where
  depth_le : stamp.depth ≤ chain.entries.length
  tail_eq : stamp.tailHash =
    tail (link sha) chain.initialHash (chain.entries.take stamp.depth)
  payload_eq : stamp.payload = buildBindingPayload sha stamp.tailHash data signature

variable {chain : HashChain} {data signature : Bytes} {stamp : Stamp} {s : State}

theorem Taken.append (h : Taken sha chain data signature stamp) (data' signature' : Bytes)
    (timestamp : DateTime) :
    Taken sha (chain.append sha data' signature' timestamp) data signature stamp where
  depth_le := by
    rw [HashChain.append, length_append]
    exact Nat.le_add_right_of_le h.depth_le
  tail_eq := by
    rw [HashChain.append, take_append_of_le_length h.depth_le]
    exact h.tail_eq
  payload_eq := h.payload_eq

def Job.stamp? : Job → Option (Bytes × Stamp)
  | .bound signature stamp => some (signature, stamp)
  | .done signature stamp _ => some (signature, stamp)
  | _ => none

def EmitTaken (sha : Sha256) (chain : HashChain) (emit : Emit) : Prop :=
  ∀ signature stamp, emit.job.stamp? = some (signature, stamp) →
    Taken sha chain emit.data signature stamp

-- ==== the invariant

/-- THE INVARIANT of a sink over a chain that starts at genesis. -/
structure Inv (sha : Sha256) (s : State) : Prop where
  sound : HashChain.Sound sha s.chain
  initial : s.chain.initialHash = genesis
  enqueued : s.enqueued.Sublist s.chain.entries
  emits : ∀ emit ∈ s.emits, EmitTaken sha s.chain emit
  appended : ∀ a ∈ s.appended, s.chain.entries[a.entry.position]? = some a.entry ∧
    a.stamp.depth ≤ a.entry.position ∧
    Taken sha s.chain a.entry.canonicalPayload a.entry.signature a.stamp

theorem inv_start (hsnd : HashChain.Sound sha chain) (hinit : chain.initialHash = genesis) :
    Inv sha (start chain) where
  sound := hsnd
  initial := hinit
  enqueued := nil_sublist _
  emits emit h := by cases h
  appended a h := by cases h

theorem Inv.setEmit (h : Inv sha s) (i : Nat) {emit : Emit} (hemit : EmitTaken sha s.chain emit) :
    Inv sha (s.setEmit i emit) :=
  { h with
    emits other ho := by
      rcases mem_or_eq_of_mem_set ho with hold | hnew
      · exact h.emits other hold
      · rw [hnew]
        exact hemit }

/-- STEP LEMMA, the critical section: the chain stays sound and the queue in order. -/
theorem Inv.appendUnderLock (h : Inv sha s) (hs : Taken sha s.chain data signature stamp)
    (timestamp : DateTime) (hasRoom : Bool) :
    Inv sha (s.appendUnderLock sha data signature stamp timestamp hasRoom) where
  sound := h.sound.append sha _ _ _
  initial := h.initial
  enqueued := by
    show (if hasRoom = true then s.enqueued ++ [_] else s.enqueued).Sublist (s.chain.entries ++ [_])
    split
    next => exact h.enqueued.append (Sublist.refl _)
    next => exact h.enqueued.trans (sublist_append_left _ _)
  emits emit hemit signature' stamp' hjob :=
    (h.emits emit hemit signature' stamp' hjob).append _ _ _
  appended a ha := by
    rcases mem_append.1 ha with hold | hnew
    · obtain ⟨he, hd, ht⟩ := h.appended a hold
      refine ⟨?_, hd, ht.append _ _ _⟩
      obtain ⟨hlen, -⟩ := List.getElem?_eq_some_iff.1 he
      show (s.chain.entries ++ [_])[a.entry.position]? = _
      rw [getElem?_append_left hlen, he]
    · rw [mem_singleton] at hnew
      subst hnew
      refine ⟨?_, hs.depth_le, hs.append _ _ _⟩
      exact getElem?_concat_length

/-- STEP LEMMA: every event keeps the invariant. -/
theorem Inv.step (h : Inv sha s) (event : Event) : Inv sha (Sink.step sha s event) := by
  cases event with
  | submit data =>
    refine ⟨h.sound, h.initial, h.enqueued, fun emit hemit => ?_, h.appended⟩
    rcases mem_append.1 hemit with hold | hnew
    · exact h.emits emit hold
    · rw [mem_singleton] at hnew
      subst hnew
      intro signature stamp hjob
      cases hjob
  | sign i signature =>
    simp only [Sink.step]
    split
    next emit hi =>
      split
      next =>
        split
        next => exact h.setEmit i fun _ _ hjob => by cases hjob
        next => exact h.setEmit i fun _ _ hjob => by cases hjob
      next => exact h
    next => exact h
  | bind i =>
    simp only [Sink.step]
    split
    next emit hi =>
      split
      next signature hjob =>
        refine h.setEmit i fun signature' stamp hs => ?_
        cases hs
        refine ⟨Nat.le_refl _, ?_, rfl⟩
        rw [take_length]
        exact h.sound.tail_eq
      next => exact h
    next => exact h
  | stamp i timestamp =>
    simp only [Sink.step]
    split
    next emit hi =>
      split
      next signature stamp _ hjob =>
        refine h.setEmit i fun signature' stamp' hs => ?_
        cases hs
        exact h.emits emit (mem_of_getElem? hi) signature stamp (by rw [hjob]; rfl)
      next => exact h.setEmit i fun _ _ hjob => by cases hjob
      next => exact h
    next => exact h
  | timeout i =>
    simp only [Sink.step]
    split
    next emit hi =>
      split
      next => exact h.setEmit i (h.emits emit (mem_of_getElem? hi))
      next => exact h
    next => exact h
  | deliver i hasRoom =>
    simp only [Sink.step]
    split
    next emit hi =>
      have hemit := h.emits emit (mem_of_getElem? hi)
      split
      next =>
        split
        next signature stamp timestamp hjob =>
          have hcall : EmitTaken sha s.chain { emit with caller := .appended } := hemit
          refine Inv.appendUnderLock (h.setEmit i hcall) ?_ timestamp hasRoom
          exact hemit signature stamp (by rw [hjob]; rfl)
        next => exact h.setEmit i hemit
        next => exact h
      next => exact h
    next => exact h

/-- RUN LEMMA: every reachable state satisfies it. -/
theorem Inv.run (h : Inv sha s) (events : List Event) : Inv sha (run sha s events) :=
  Run.kept (P := Inv sha) (fun _ event hs => hs.step event) h events

-- ==== when the tail is right

/-- Since the job read the tail, its append is the first. -/
def PromptAt (s : State) : Event → Prop
  | .deliver i _ => ∀ emit signature stamp timestamp, s.emits[i]? = some emit →
      emit.caller = .waiting → emit.job = .done signature stamp timestamp →
      stamp.depth = s.chain.entries.length
  | _ => True

def Prompt (sha : Sha256) : State → List Event → Prop
  | _, [] => True
  | s, event :: rest => PromptAt s event ∧ Prompt sha (step sha s event) rest

def OnTime (a : Appended) : Prop := a.stamp.depth = a.entry.position

theorem onTime_step_iff (s : State) (event : Event) :
    (∀ a ∈ (step sha s event).appended, OnTime a) ↔
      (∀ a ∈ s.appended, OnTime a) ∧ PromptAt s event := by
  cases event with
  | submit data => exact (and_iff_left trivial).symm
  | sign i signature =>
    refine Iff.trans ?_ (and_iff_left trivial).symm
    simp only [step]
    split
    next =>
      split
      next => split <;> exact Iff.rfl
      next => exact Iff.rfl
    next => exact Iff.rfl
  | bind i =>
    refine Iff.trans ?_ (and_iff_left trivial).symm
    simp only [step]
    split
    next => split <;> exact Iff.rfl
    next => exact Iff.rfl
  | stamp i timestamp =>
    refine Iff.trans ?_ (and_iff_left trivial).symm
    simp only [step]
    split
    next => split <;> exact Iff.rfl
    next => exact Iff.rfl
  | timeout i =>
    refine Iff.trans ?_ (and_iff_left trivial).symm
    simp only [step]
    split
    next => split <;> exact Iff.rfl
    next => exact Iff.rfl
  | deliver i hasRoom =>
    simp only [step]
    split
    next emit hi =>
      split
      next hwait =>
        split
        next signature stamp timestamp hjob =>
          show (∀ a ∈ s.appended ++ [_], OnTime a) ↔ _
          rw [forall_mem_append, forall_mem_singleton]
          refine and_congr_right' ⟨fun htime => ?_, fun hp => ?_⟩
          · intro emit' signature' stamp' timestamp' hi' _ hjob'
            rw [hi, Option.some.injEq] at hi'
            subst hi'
            rw [hjob] at hjob'
            cases hjob'
            exact htime
          · exact hp emit signature stamp timestamp hi hwait hjob
        next hr =>
          refine (and_iff_left fun emit' signature stamp timestamp hi' _ hjob => ?_).symm
          rw [hi, Option.some.injEq] at hi'
          simp [← hi', hr] at hjob
        next ho _ =>
          refine (and_iff_left fun emit' signature stamp timestamp hi' _ hjob => ?_).symm
          rw [hi, Option.some.injEq] at hi'
          rw [← hi'] at hjob
          exact absurd hjob (ho signature stamp timestamp)
      next hnot =>
        refine (and_iff_left fun emit' signature stamp timestamp hi' hwait _ => ?_).symm
        rw [hi, Option.some.injEq] at hi'
        rw [← hi'] at hwait
        exact absurd hwait hnot
    next hnone =>
      refine (and_iff_left fun emit' signature stamp timestamp hi' _ _ => ?_).symm
      simp [hi'] at hnone

theorem onTime_run_iff (s : State) (events : List Event) :
    (∀ a ∈ (run sha s events).appended, OnTime a) ↔
      (∀ a ∈ s.appended, OnTime a) ∧ Prompt sha s events := by
  induction events generalizing s with
  | nil => exact (and_iff_left trivial).symm
  | cons event rest ih =>
    have hrest := ih (step sha s event)
    rw [onTime_step_iff, and_assoc] at hrest
    exact hrest

theorem Inv.tailHash_eq_iff (hsha : sha.Injective) (h : Inv sha s) {a : Appended}
    (ha : a ∈ s.appended) : a.stamp.tailHash = a.entry.previousHash ↔ OnTime a := by
  obtain ⟨he, hd, ht⟩ := h.appended a ha
  have hp := h.sound.linked.prev_eq he
  obtain ⟨hlen, -⟩ := List.getElem?_eq_some_iff.1 he
  have htail := ht.tail_eq
  rw [h.initial] at hp htail
  rw [hp, htail]
  constructor
  · intro heq
    have hl := length_eq_of_tail_eq hsha heq
    rw [length_take, length_take] at hl
    unfold OnTime
    omega
  · intro htime
    rw [htime]

structure Bound (s : State) : Prop where
  tails : ∀ a ∈ s.appended, a.stamp.tailHash = a.entry.previousHash
  positions : ∀ (i : Nat) (entry : ChainEntry), s.chain.entries[i]? = some entry →
    entry.position = i
  order : s.enqueued.Sublist s.chain.entries

/-- WHEN APPENDS ARE BOUND: exactly when none came between a delivered job's read of the tail
and its own. -/
theorem bound_iff_prompt (hsha : sha.Injective) {chain : HashChain}
    (hsound : HashChain.Sound sha chain) (hinitial : chain.initialHash = genesis)
    (events : List Event) :
    Bound (run sha (start chain) events) ↔ Prompt sha (start chain) events := by
  have hinv := (inv_start hsound hinitial).run events
  have hrun := @onTime_run_iff sha (start chain) events
  rw [and_iff_right (fun a (ha : a ∈ (start chain).appended) => by cases ha)] at hrun
  rw [← hrun]
  constructor
  · intro hbound a ha
    exact (hinv.tailHash_eq_iff hsha ha).1 (hbound.tails a ha)
  · intro htime
    exact ⟨fun a ha => (hinv.tailHash_eq_iff hsha ha).2 (htime a ha),
      hinv.sound.positions, hinv.enqueued⟩

/-- Two emits of one event; the second job runs before the first append. -/
def overtaking : List Event :=
  [.submit [114], .submit [114],
   .sign 0 (some sampleSignature), .bind 0, .stamp 0 (some firstTime),
   .sign 1 (some sampleSignature), .bind 1, .stamp 1 (some secondTime),
   .deliver 0 true, .deliver 1 true]

/-- The run put through the theorem. -/
theorem bound_iff_prompt_overtaking : sampleSha.Injective ∧
      (Bound (run sampleSha (start (new genesis)) overtaking) ↔
        Prompt sampleSha (start (new genesis)) overtaking) :=
  ⟨sampleSha_injective, bound_iff_prompt sampleSha_injective (sound_new _ genesis) rfl _⟩

/-- Its second entry was bound to genesis and follows the first. -/
theorem second_append_bound_to_genesis :
    ¬ ∀ (sha : Sha256) (chain : HashChain) (events : List Event),
        sha.Injective → HashChain.Sound sha chain → chain.initialHash = genesis →
        Bound (run sha (start chain) events) := by
  intro hclaim
  have hbound := hclaim sampleSha (new genesis) overtaking sampleSha_injective
    (sound_new _ genesis) rfl
  obtain ⟨a, ha, htail, hprevious⟩ :
      ∃ a ∈ (run sampleSha (start (new genesis)) overtaking).appended,
        a.stamp.tailHash = genesis ∧ ∃ data, a.entry.previousHash = sampleSha.hexdigest data :=
    ⟨_, mem_cons_of_mem _ mem_cons_self, rfl, _, rfl⟩
  obtain ⟨data, hdata⟩ := hprevious
  have heq := hbound.tails a ha
  rw [htail, hdata] at heq
  exact hexdigest_ne_genesis sampleSha data heq.symm

end Synthorg.AuditChain.Sink
