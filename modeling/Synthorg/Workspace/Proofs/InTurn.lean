/-
The queue of merges serves its callers in turn.

One worker is current, and it is the one whose queue takes requests.

This holds as long as a `start` during a `stop` finds the worker idle, as
nobody waits for what a cancelled worker has in its hands, and as a critical
error is raised only while a `stop` is under way. `strands_callers` has a run
against each.
-/
import Synthorg.Workspace.PushQueue
import Mathlib.Data.List.ReduceOption

namespace Synthorg.Workspace

open Lib
open Function (update update_self update_of_ne)
open List

namespace PushQueue

variable {s : PushQueue} {g n : Nat}

-- ==== the condition

def InHand (lane : Lane) (n : Nat) : Prop := lane.stage = .merging n ∨ lane.stage = .pushing n

/-- The worker is done, or waits on a queue without requests. -/
def Idle (lane : Lane) : Prop :=
  lane.stage = .exited ∨ lane.stage = .getting ∧ ∀ n, some n ∉ lane.queue

/-- What the worker's end leaves unanswered: in its hands, or queued before its first step. -/
def Exposed (lane : Lane) (n : Nat) : Prop :=
  InHand lane n ∨ lane.stage = .created ∧ some n ∈ lane.queue

/-- A `start` during a `stop` finds the worker idle; one is cancelled when nobody waits for what
it would leave unanswered; a critical error is raised only during a `stop`. -/
def Careful (s : PushQueue) : Input → Prop
  | .start => s.closing = true → ∀ g, s.worker = some g → Idle (s.lanes g)
  | .interrupt k _ => ∀ g interrupted, s.stops k = .draining g interrupted →
      ∀ n, Exposed (s.lanes g) n → s.futures n ≠ .pending
  | .mergeEnds _ .critical | .pushEnds _ .critical => s.closing = true
  | _ => True

-- ==== the invariant

structure Fits (s : PushQueue) (g : Nat) (lane : Lane) : Prop where
  absent : s.count ≤ g → lane.stage = .absent
  old : s.worker ≠ some g → lane.stage = .absent ∨ Idle lane
  /-- It serves its own queue. -/
  captured : lane.stage = .getting ∨ (∃ n, InHand lane n) → lane.captured = g
  /-- Its end is only near once no more requests are accepted. -/
  ending : s.worker = some g →
    lane.cancelRequested = true ∨ lane.stage = .exited ∨ none ∈ lane.queue → s.closing = true
  dying : lane.cancelRequested = true → ∀ n, Exposed lane n → s.futures n ≠ .pending
  onQueue : ∀ n, some n ∈ lane.queue ∨ InHand lane n → n ∈ lane.puts
  asked : ∀ n ∈ lane.puts, s.futures n = .pending ∨ ∃ answer, s.futures n = .resolved answer
  pending : ∀ n ∈ lane.puts, s.futures n = .pending →
    lane.stage ≠ .exited ∧ (some n ∈ lane.queue ∨ InHand lane n)

/-- The requests in the worker's queue. -/
def waiting (s : PushQueue) : List Nat :=
  match s.worker with
  | none => []
  | some g => (s.lanes g).queue.reduceOption

/-- What was merged was accepted in that order, before what waits. -/
def InOrder (s : PushQueue) : Prop :=
  ∃ taken, s.accepted = taken ++ s.waiting ∧ s.merges.Sublist taken

/-- THE INVARIANT. -/
structure Inv (s : PushQueue) : Prop where
  same : s.queue = s.worker
  current : ∀ g, s.worker = some g → g < s.count
  fits : ∀ g, s.Fits g (s.lanes g)
  draining : ∀ k g interrupted, s.stops k = .draining g interrupted →
    g < s.count ∧ (s.worker = some g → s.closing = true)
  inOrder : s.InOrder
  pushes : s.pushes = s.mergedWell

-- ==== the frame

/-- A future is left as it was, or a pending one is resolved. -/
def Answers (s t : PushQueue) : Prop :=
  ∀ n, t.futures n = s.futures n ∨ s.futures n = .pending ∧ ∃ answer, t.futures n = .resolved answer

theorem Answers.refl (s : PushQueue) : s.Answers s := fun _ => .inl rfl

theorem answers_resolve (answer : Answer) : s.Answers (s.resolve n answer) := by
  intro m
  unfold resolve
  split
  next hp =>
    by_cases hm : m = n
    · subst hm
      exact .inr ⟨hp, answer, by simp⟩
    · exact .inl (by simp [hm])
  · exact .inl rfl

theorem resolve_self (answer : Answer) : (s.resolve n answer).futures n ≠ .pending := by
  unfold resolve
  split
  · simp
  next hp => exact hp

theorem answers_drain (q : Nat) : s.Answers (s.drain q) := by
  intro m
  by_cases hm : some m ∈ (s.lanes q).queue ∧ s.futures m = .pending
  · exact .inr ⟨hm.2, .stopped, by simp [drain, hm]⟩
  · exact .inl (by simp only [drain, if_neg hm])

variable {t : PushQueue} {k : Nat}

theorem Answers.pending (h : s.Answers t) (hp : t.futures n = .pending) :
    s.futures n = .pending := by
  rcases h n with hsame | ⟨hwas, -⟩
  · rw [← hsame, hp]
  · exact hwas

theorem Fits.frame {lane : Lane} (h : s.Fits g lane) (hcnt : t.count = s.count)
    (hw : t.worker = s.worker) (hc : s.closing = true → t.closing = true)
    (ha : s.Answers t) : t.Fits g lane where
  absent := fun hle => h.absent (hcnt ▸ hle)
  old := fun hne => h.old (hw ▸ hne)
  captured := h.captured
  ending := fun heq hend => hc (h.ending (hw ▸ heq) hend)
  dying := fun hflag n hn hp => h.dying hflag n hn (ha.pending hp)
  onQueue := h.onQueue
  asked := fun n hn => by
    rcases ha n with hsame | ⟨-, hres⟩
    · rw [hsame]
      exact h.asked n hn
    · exact .inr hres
  pending := fun n hn hp => h.pending n hn (ha.pending hp)

theorem InOrder.drop (h : s.InOrder) (hacc : t.accepted = s.accepted)
    (hm : t.merges = s.merges) (dropped : List Nat)
    (hwait : s.waiting = dropped ++ t.waiting) : t.InOrder := by
  obtain ⟨taken, ha, hsub⟩ := h
  refine ⟨taken ++ dropped, ?_, ?_⟩
  · rw [hacc, ha, hwait, append_assoc]
  · rw [hm]
    exact hsub.trans (sublist_append_left _ _)

theorem waiting_current (hw : s.worker = some g) :
    s.waiting = (s.lanes g).queue.reduceOption := by
  simp only [waiting, hw]

theorem waiting_frame (hw : t.worker = s.worker) (hq : ∀ g, s.worker = some g →
      (t.lanes g).queue.reduceOption = (s.lanes g).queue.reduceOption) : t.waiting = s.waiting := by
  cases hs : s.worker with
  | none => simp only [waiting, hw, hs]
  | some g => rw [waiting_current hs, waiting_current (hw.trans hs), hq g hs]

theorem InOrder.frame (h : s.InOrder) (hacc : t.accepted = s.accepted)
    (hm : t.merges = s.merges) (hw : t.worker = s.worker) (hq : ∀ g, s.worker = some g →
      (t.lanes g).queue.reduceOption = (s.lanes g).queue.reduceOption) : t.InOrder :=
  h.drop hacc hm [] (waiting_frame hw hq).symm

@[simp]
theorem waiting_setStage (stage : Stage) : (s.setStage g stage).waiting = s.waiting := by
  refine waiting_frame rfl fun m _ => ?_
  by_cases hm : m = g
  · subst hm
    simp [setStage, setLane]
  · simp [setStage, setLane, hm]

section
variable (h : s.Inv)
include h

theorem Inv.lane (hl : ∀ m, m ≠ g → t.lanes m = s.lanes m)
    (hcnt : t.count = s.count) (hq : t.queue = s.queue) (hw : t.worker = s.worker)
    (hclosing : t.closing = s.closing) (hs : t.stops = s.stops) (ha : s.Answers t)
    (hfits : t.Fits g (t.lanes g)) (hi : t.InOrder) (hp : t.pushes = t.mergedWell) :
    t.Inv where
  same := by rw [hq, hw, h.same]
  current := fun m hm => hcnt ▸ h.current m (hw ▸ hm)
  fits := fun m => by
    by_cases hm : m = g
    · exact hm ▸ hfits
    · rw [hl m hm]
      exact (h.fits m).frame hcnt hw (fun hc => hclosing.trans hc) ha
  draining := fun k m interrupted hk => by
    rw [hcnt, hw, hclosing]
    exact h.draining k m interrupted (hs ▸ hk)
  inOrder := hi
  pushes := hp

theorem Inv.isCurrent (hs : (s.lanes g).stage = .created ∨ ∃ n, InHand (s.lanes g) n) :
    s.worker = some g := by
  by_contra hne
  rcases (h.fits g).old hne with ha | hexited | ⟨hg, -⟩
  all_goals
    rcases hs with hc | ⟨n, hm | hpush⟩
    all_goals simp_all

theorem Inv.resolve (answer : Answer) : (s.resolve n answer).Inv := by
  have ha : s.Answers (s.resolve n answer) := answers_resolve answer
  unfold PushQueue.resolve at ha ⊢
  split
  next hp =>
    rw [if_pos hp] at ha
    exact ⟨h.same, h.current, fun g => (h.fits g).frame rfl rfl id ha, h.draining, h.inOrder,
      h.pushes⟩
  · exact h

-- ==== the worker

theorem Inv.exit (hs : (s.lanes g).stage = .getting ∨ ∃ n, InHand (s.lanes g) n)
    (hhand : ∀ n, InHand (s.lanes g) n → s.futures n ≠ .pending)
    (hc : s.worker = some g → s.closing = true) : (s.exit g).Inv := by
  have hfits := h.fits g
  have hcaptured := hfits.captured hs
  unfold PushQueue.exit
  rw [hcaptured]
  have hanswers : s.Answers (s.drain g) := answers_drain g
  have hlane : ((s.drain g).setStage g .exited).lanes g =
      { s.lanes g with stage := .exited, queue := [] } := by
    simp [setStage, setLane, drain, setQueue]
  refine h.lane (g := g) (fun m hm => ?_) rfl rfl rfl rfl rfl hanswers ?_ ?_ h.pushes
  · simp [setStage, setLane, drain, setQueue, hm]
  · rw [hlane]
    refine ⟨fun hle => ?_, fun _ => .inr (.inl rfl), fun hstage => ?_, fun heq _ => hc heq,
      fun _ n hn => ?_, fun n hn => ?_, fun n hn => ?_, fun n hn hp => ?_⟩
    · have habsent := hfits.absent hle
      rcases hs with hg | ⟨n, hmerge | hpush⟩ <;> simp_all
    · rcases hstage with hg | ⟨n, hmerge | hpush⟩ <;> simp_all
    · rcases hn with (hmerge | hpush) | ⟨hcreated, -⟩ <;> simp_all
    · rcases hn with hmem | hmerge | hpush <;> simp_all
    · rcases hanswers n with hsame | ⟨-, hres⟩
      · exact (hfits.asked n hn).imp (hsame.trans ·) fun ⟨answer, ha⟩ => ⟨answer, hsame.trans ha⟩
      · exact .inr hres
    · have hwas := hanswers.pending hp
      rcases (hfits.pending n hn hwas).2 with hmem | hin
      · have hstop : (s.drain g).futures n = .resolved .stopped := by simp [drain, hmem, hwas]
        rw [show ((s.drain g).setStage g .exited).futures n = (s.drain g).futures n from rfl,
          hstop] at hp
        cases hp
      · exact absurd hwas (hhand n hin)
  · by_cases hw : s.worker = some g
    · refine h.inOrder.drop rfl rfl s.waiting ?_
      rw [waiting_current (s := (s.drain g).setStage g .exited) hw, hlane]
      exact (append_nil _).symm
    · refine h.inOrder.frame rfl rfl rfl fun m hm => ?_
      have hne : m ≠ g := fun heq => hw (heq ▸ hm)
      simp [setStage, drain, setQueue, setLane, hne]

theorem Inv.answer (hhand : InHand (s.lanes g) n) (answer : Answer) :
    (s.answer g n answer).Inv := by
  have hw := h.isCurrent (.inr ⟨n, hhand⟩)
  have hr := h.resolve (n := n) answer
  have hl : (s.resolve n answer).lanes = s.lanes := by
    unfold PushQueue.resolve
    split <;> rfl
  have hw' : (s.resolve n answer).worker = some g := by
    unfold PushQueue.resolve
    split <;> exact hw
  have hself := resolve_self (s := s) (n := n) answer
  unfold PushQueue.answer
  generalize s.resolve n answer = t at hr hl hw' hself
  have hfits := hr.fits g
  rw [← hl] at hhand
  have honly : ∀ m, InHand (t.lanes g) m → m = n := by
    intro m hm
    rcases hhand with hn | hn <;> rcases hm with hm | hm <;> simp_all
  refine hr.lane (g := g) (fun m hm => by simp [setStage, setLane, hm]) rfl rfl rfl rfl rfl
    (Answers.refl t) ?_ ?_ hr.pushes
  · rw [show (t.setStage g .getting).lanes g = { t.lanes g with stage := .getting } by
      simp [setStage, setLane]]
    refine ⟨fun hle => ?_, fun hne => absurd hw' hne, fun _ => hfits.captured (.inr ⟨n, hhand⟩),
      fun heq hend => hfits.ending heq ?_, fun _ m hm => ?_, fun m hm => hfits.onQueue m ?_,
      hfits.asked, fun m hm hp => ⟨by simp, ?_⟩⟩
    · have ha := hfits.absent hle
      rcases hhand with hn | hn <;> simp_all
    · rcases hend with hflag | hexited | hsent
      · exact .inl hflag
      · cases hexited
      · exact .inr (.inr hsent)
    · rcases hm with (hm | hm) | ⟨hm, -⟩ <;> cases hm
    · rcases hm with hm | hm | hm
      · exact .inl hm
      · cases hm
      · cases hm
    · rcases (hfits.pending m hm hp).2 with hmem | hin
      · exact .inl hmem
      · rw [honly m hin] at hp
        exact absurd hp hself
  · exact hr.inOrder.drop rfl rfl [] (waiting_setStage _).symm

theorem Inv.crash (hhand : InHand (s.lanes g) n) (hc : s.closing = true) :
    (s.crash g n).Inv := by
  have hl : (s.resolve n .failed).lanes = s.lanes := by
    unfold PushQueue.resolve
    split <;> rfl
  have hc' : (s.resolve n .failed).closing = true := by
    unfold PushQueue.resolve
    split <;> exact hc
  refine (h.resolve (n := n) .failed).exit (g := g) (.inr ⟨n, hl ▸ hhand⟩) (fun m hm => ?_)
    fun _ => hc'
  have honly : m = n := by
    rcases hhand with hn | hn <;> rcases hm with hm | hm <;> simp_all
  rw [honly]
  exact resolve_self _

theorem Inv.mergeEnds {outcome : MergeOutcome} (hs : (s.lanes g).stage = .merging n)
    (hcare : outcome = .critical → s.closing = true) : (s.mergeEnds g n outcome).Inv := by
  have hhand : InHand (s.lanes g) n := .inl hs
  cases outcome with
  | conflict => exact h.answer hhand .conflict
  | mergeError => exact h.answer hhand .mergeError
  | otherError => exact h.answer hhand .failed
  | critical => exact h.crash hhand (hcare rfl)
  | success =>
    have hw := h.isCurrent (.inr ⟨n, hhand⟩)
    have hfits := h.fits g
    have honly : ∀ m, InHand { s.lanes g with stage := .pushing n } m → InHand (s.lanes g) m := by
      intro m hm
      rcases hm with hm | hm
      · cases hm
      · cases hm
        exact hhand
    refine h.lane (g := g) (t := PushQueue.mergeEnds s g n .success)
      (fun m hm => by simp [PushQueue.mergeEnds, setStage, setLane, hm])
      rfl rfl rfl rfl rfl (Answers.refl s) ?_ ?_ ?_
    · rw [show (PushQueue.mergeEnds s g n .success).lanes g =
        { s.lanes g with stage := .pushing n } by
          simp [PushQueue.mergeEnds, setStage, setLane]]
      refine ⟨fun hle => ?_, fun hne => absurd hw hne, fun _ => hfits.captured (.inr ⟨n, hhand⟩),
        fun heq hend => hfits.ending heq ?_, fun hflag m hm => hfits.dying hflag m ?_,
        fun m hm => hfits.onQueue m (hm.imp_right (honly m)), hfits.asked,
        fun m hm hp => ⟨by simp, ?_⟩⟩
      · simp [hfits.absent hle] at hs
      · rcases hend with hflag | hexited | hsent
        · exact .inl hflag
        · cases hexited
        · exact .inr (.inr hsent)
      · rcases hm with hm | ⟨hm, -⟩
        · exact .inl (honly m hm)
        · cases hm
      · rcases (hfits.pending m hm hp).2 with hmem | hm | hm
        · exact .inl hmem
        · rw [hs] at hm
          cases hm
          exact .inr (.inr rfl)
        · simp [hs] at hm
    · exact h.inOrder.drop rfl rfl [] (waiting_setStage (s := s) (g := g) (.pushing n)).symm
    · show s.pushes ++ [n] = s.mergedWell ++ [n]
      rw [h.pushes]

theorem Inv.pushEnds {outcome : PushOutcome} (hs : (s.lanes g).stage = .pushing n)
    (hcare : outcome = .critical → s.closing = true) : (s.pushEnds g n outcome).Inv := by
  have hhand : InHand (s.lanes g) n := .inr hs
  cases outcome with
  | success => exact h.answer hhand .merged
  | pushError | otherError => exact h.answer hhand .pushError
  | critical => exact h.crash hhand (hcare rfl)

theorem Inv.run (hs : (s.lanes g).stage = .created)
    (hflag : (s.lanes g).cancelRequested = false) : (s.run g).Inv := by
  have hw := h.isCurrent (.inl hs)
  have hfits := h.fits g
  unfold PushQueue.run
  rw [h.same, hw]
  refine h.lane (g := g) (fun m hm => by simp [setLane, hm]) rfl (h.same.symm ▸ rfl) rfl rfl rfl
    (Answers.refl s) ?_ ?_ h.pushes
  · rw [show (s.setLane g { s.lanes g with stage := .getting, captured := g }).lanes g =
      { s.lanes g with stage := .getting, captured := g } by simp [setLane]]
    refine ⟨fun hle => ?_, fun hne => absurd hw hne, fun _ => rfl,
      fun heq hend => hfits.ending heq ?_, fun hyes => ?_, fun m hm => hfits.onQueue m ?_,
      hfits.asked, fun m hm hp => ⟨by simp, ?_⟩⟩
    · simp [hfits.absent hle] at hs
    · rcases hend with hyes | hexited | hsent
      · exact .inl hyes
      · cases hexited
      · exact .inr (.inr hsent)
    · simp [show (s.lanes g).cancelRequested = true from hyes] at hflag
    · rcases hm with hm | hm | hm
      · exact .inl hm
      · cases hm
      · cases hm
    · rcases (hfits.pending m hm hp).2 with hmem | hm | hm
      · exact .inl hmem
      · simp [hs] at hm
      · simp [hs] at hm
  · refine h.inOrder.frame rfl rfl rfl fun m hm => ?_
    rw [hw] at hm
    cases hm
    simp [setLane]

theorem Inv.setQueue {rest : List (Option Nat)}
    (hq : (s.lanes g).queue = none :: rest) : (s.setQueue g rest).Inv := by
  have hfits := h.fits g
  have hmem : ∀ m, some m ∈ (s.lanes g).queue ↔ some m ∈ rest := fun m => by simp [hq]
  refine h.lane (g := g) (fun m hm => by simp [PushQueue.setQueue, setLane, hm]) rfl rfl rfl rfl rfl
    (Answers.refl s) ?_ ?_ h.pushes
  · rw [show (s.setQueue g rest).lanes g = { s.lanes g with queue := rest } by
      simp [PushQueue.setQueue, setLane]]
    refine ⟨hfits.absent, fun hne => (hfits.old hne).imp_right fun hidle => ?_, hfits.captured,
      fun heq hend => hfits.ending heq ?_, fun hflag m hm => hfits.dying hflag m ?_,
      fun m hm => hfits.onQueue m (hm.imp_left (hmem m).2), hfits.asked,
      fun m hm hp => (hfits.pending m hm hp).imp_right (Or.imp_left (hmem m).1)⟩
    · exact hidle.imp_right fun ⟨hg, hnone⟩ => ⟨hg, fun m hm => hnone m ((hmem m).2 hm)⟩
    · refine hend.imp_right (Or.imp_right fun hsent => ?_)
      rw [hq]
      exact mem_cons_of_mem _ hsent
    · exact hm.imp_right fun ⟨hc, hm⟩ => ⟨hc, (hmem m).2 hm⟩
  · refine h.inOrder.frame rfl rfl rfl fun m _ => ?_
    by_cases hm : m = g
    · subst hm
      simp [PushQueue.setQueue, setLane, hq]
    · simp [PushQueue.setQueue, setLane, hm]

theorem Inv.get (hs : (s.lanes g).stage = .getting)
    (hflag : (s.lanes g).cancelRequested = false) : (s.get g).Inv := by
  have hfits := h.fits g
  unfold PushQueue.get
  rw [hfits.captured (.inl hs)]
  split
  · exact h
  next rest hq =>
    have hlane : (s.setQueue g rest).lanes g = { s.lanes g with queue := rest } := by
      simp [PushQueue.setQueue, setLane]
    refine (h.setQueue hq).exit (.inl (hlane ▸ hs)) (fun m hm => ?_) fun hworker =>
      hfits.ending hworker (.inr (.inr (hq ▸ mem_cons_self)))
    rcases hm with hm | hm <;> simp_all
  next n rest hq =>
    have hworker : s.worker = some g := by
      by_contra hne
      rcases hfits.old hne with habsent | hexited | ⟨-, hnone⟩
      · simp_all
      · simp_all
      · exact hnone n (hq ▸ mem_cons_self)
    have hlane : ((s.setQueue g rest).setStage g (.merging n)).lanes g =
        { s.lanes g with stage := .merging n, queue := rest } := by
      simp [PushQueue.setQueue, setStage, setLane]
    have hmem : ∀ m, some m ∈ (s.lanes g).queue ↔ m = n ∨ some m ∈ rest := fun m => by
      simp [hq]
    refine h.lane (g := g) (fun m hm => by simp [PushQueue.setQueue, setStage, setLane, hm]) rfl rfl
      rfl rfl rfl (Answers.refl s) ?_ ?_ h.pushes
    · refine hlane ▸ ⟨fun hle => ?_, fun hne => absurd hworker hne,
        fun _ => hfits.captured (.inl hs), fun heq hend => hfits.ending heq ?_,
        fun hyes => ?_, fun m hm => hfits.onQueue m (.inl ((hmem m).2 ?_)), hfits.asked,
        fun m hm hp => ⟨by simp, ?_⟩⟩
      · simp [hfits.absent hle] at hs
      · rcases hend with hyes | hexited | hsent
        · exact .inl hyes
        · cases hexited
        · exact .inr (.inr (hq ▸ mem_cons_of_mem _ hsent))
      · simp [show (s.lanes g).cancelRequested = true from hyes] at hflag
      · rcases hm with hm | hm | hm
        · exact .inr hm
        · cases hm
          exact .inl rfl
        · cases hm
      · rcases (hfits.pending m hm hp).2 with hm | hm | hm
        · rcases (hmem m).1 hm with rfl | hm
          · exact .inr (.inl rfl)
          · exact .inl hm
        · simp [hs] at hm
        · simp [hs] at hm
    · obtain ⟨taken, ha, hsub⟩ := h.inOrder
      have hwait : ∀ t : PushQueue, t.worker = s.worker →
          t.lanes g = { s.lanes g with stage := .merging n, queue := rest } →
          t.waiting = rest.reduceOption := fun t hw hl => by
        rw [waiting_current (hw.trans hworker), hl]
      refine ⟨taken ++ [n], ?_, hsub.append_right _⟩
      rw [waiting_current hworker, hq] at ha
      refine Eq.trans ?_ (congrArg (taken ++ [n] ++ ·) (hwait _ ?_ ?_).symm)
      · exact ha.trans (by simp)
      · rfl
      · exact hlane

theorem Inv.die (hflag : (s.lanes g).cancelRequested = true) : (s.die g).Inv := by
  have hfits := h.fits g
  have hc : s.worker = some g → s.closing = true := fun hw =>
    hfits.ending hw (.inl hflag)
  have hhand : ∀ n, InHand (s.lanes g) n → s.futures n ≠ .pending := fun n hn =>
    hfits.dying hflag n (.inl hn)
  unfold PushQueue.die
  split
  · exact h
  · exact h
  next hs =>
    refine h.lane (g := g) (fun m hm => by simp [setStage, setLane, hm]) rfl rfl rfl rfl rfl
      (Answers.refl s) ?_ (h.inOrder.drop rfl rfl [] (waiting_setStage (s := s) .exited).symm)
      h.pushes
    rw [show (s.setStage g .exited).lanes g = { s.lanes g with stage := .exited } by
      simp [setStage, setLane]]
    refine ⟨fun hle => ?_, fun _ => .inr (.inl rfl), fun hs => ?_, fun heq _ => hc heq,
      fun _ n hn => ?_, fun n hn => hfits.onQueue n ?_, hfits.asked, fun n hn hp => ?_⟩
    · simp [hfits.absent hle] at hs
    · rcases hs with hm | ⟨n, hm | hm⟩ <;> cases hm
    · rcases hn with (hm | hm) | ⟨hm, -⟩ <;> cases hm
    · rcases hn with hm | hm | hm
      · exact .inl hm
      · cases hm
      · cases hm
    · rcases (hfits.pending n hn hp).2 with hm | hm
      · exact absurd hp (hfits.dying hflag n (.inr ⟨hs, hm⟩))
      · exact absurd hp (hhand n hm)
  next hs => exact h.exit (.inl hs) hhand hc
  next n hs => exact h.exit (.inr ⟨n, .inl hs⟩) hhand hc
  next n hs => exact h.exit (.inr ⟨n, .inr hs⟩) hhand hc

-- ==== start, stop, enqueue

theorem Inv.stops {call : StopCall} {closing : Bool} (hc : s.closing = true → closing = true)
    (hcall : ∀ g interrupted, call = .draining g interrupted →
      g < s.count ∧ (s.worker = some g → closing = true)) :
    Inv { s with closing := closing, stops := update s.stops k call } :=
  { h with
    fits := fun g => (h.fits g).frame rfl rfl hc (Answers.refl s)
    draining := fun j g interrupted hj => by
      by_cases hjk : j = k
      · subst hjk
        simp only [update_self] at hj
        exact hcall g interrupted hj
      · simp only [update_of_ne hjk] at hj
        exact (h.draining j g interrupted hj).imp_right fun hd => hc ∘ hd
    inOrder := h.inOrder.frame rfl rfl rfl fun _ _ => rfl }

theorem Inv.putSentinel (hc : s.closing = true) :
    (s.setQueue g ((s.lanes g).queue ++ [none])).Inv := by
  have hfits := h.fits g
  have hmem : ∀ m, some m ∈ (s.lanes g).queue ++ [none] ↔ some m ∈ (s.lanes g).queue := fun m => by
    simp
  refine h.lane (g := g) (fun m hm => by simp [PushQueue.setQueue, setLane, hm]) rfl rfl rfl rfl rfl
    (Answers.refl s) ?_ ?_ h.pushes
  · rw [show (s.setQueue g ((s.lanes g).queue ++ [none])).lanes g =
      { s.lanes g with queue := (s.lanes g).queue ++ [none] } by
        simp [PushQueue.setQueue, setLane]]
    refine ⟨hfits.absent, fun hne => (hfits.old hne).imp_right fun hidle => ?_, hfits.captured,
      fun _ _ => hc, fun hflag m hm => hfits.dying hflag m ?_,
      fun m hm => hfits.onQueue m (hm.imp_left (hmem m).1), hfits.asked,
      fun m hm hp => (hfits.pending m hm hp).imp_right (Or.imp_left (hmem m).2)⟩
    · exact hidle.imp_right fun ⟨hg, hnone⟩ => ⟨hg, fun m hm => hnone m ((hmem m).1 hm)⟩
    · exact hm.imp_right fun ⟨hcreated, hm⟩ => ⟨hcreated, (hmem m).1 hm⟩
  · refine h.inOrder.frame rfl rfl rfl fun m _ => ?_
    by_cases hm : m = g
    · subst hm
      simp [PushQueue.setQueue, setLane, reduceOption_append]
    · simp [PushQueue.setQueue, setLane, hm]

theorem Inv.stop : (s.stop k).Inv := by
  unfold PushQueue.stop
  split
  · exact h.stops id fun _ _ hcall => by cases hcall
  next g hw =>
    have hc : Inv { s with closing := true, stops := update s.stops k (.draining g none) } :=
      h.stops (fun _ => rfl) fun m _ hcall => by
        cases hcall
        exact ⟨h.current g hw, fun _ => rfl⟩
    dsimp only
    split
    · exact hc
    · exact hc.putSentinel rfl

theorem Inv.interrupt {timedOut : Bool} (hcare : Careful s (.interrupt k timedOut)) :
    (s.interrupt k timedOut).Inv := by
  unfold PushQueue.interrupt
  split
  next g interrupted hcall =>
    have hd := h.draining k g interrupted hcall
    have hs : Inv { s with
        stops := update s.stops k (.draining g (some (timedOut && interrupted.getD true))) } :=
      h.stops id fun m _ heq => by
        cases heq
        exact hd
    have hfits := hs.fits g
    refine hs.lane (g := g) (fun m hm => by simp [setLane, hm]) rfl rfl rfl rfl rfl
      (Answers.refl _) ?_ ?_ h.pushes
    · simp only [setLane, update_self]
      exact ⟨hfits.absent, hfits.old, hfits.captured, fun heq _ => hd.2 heq,
        fun _ => hcare g interrupted hcall, hfits.onQueue, hfits.asked, hfits.pending⟩
    · refine h.inOrder.frame rfl rfl rfl fun m _ => ?_
      by_cases hm : m = g
      · subst hm
        simp [setLane]
      · simp [setLane, hm]
  · exact h

theorem Inv.finishStop : (s.finishStop k).Inv := by
  unfold PushQueue.finishStop
  split
  next g interrupted hcall =>
    split
    next hexited =>
      have hret : ∀ j m again, update s.stops k .returned j = .draining m again →
          s.stops j = .draining m again := by
        intro j m again hj
        by_cases hjk : j = k
        · subst hjk
          simp [update_self] at hj
        · rwa [update_of_ne hjk] at hj
      by_cases hw : s.worker = some g
      · simp only [if_pos hw]
        refine ⟨rfl, nofun, fun m => ?_, fun j m again hj =>
          ⟨(h.draining j m again (hret j m again hj)).1, nofun⟩, ?_, h.pushes⟩
        · have hfits := h.fits m
          refine ⟨hfits.absent, fun _ => ?_, hfits.captured, nofun, hfits.dying,
            hfits.onQueue, hfits.asked, hfits.pending⟩
          by_cases hm : m = g
          · exact .inr (.inl (hm ▸ hexited))
          · exact hfits.old fun heq => hm (Option.some.inj (heq.symm.trans hw))
        · exact h.inOrder.drop rfl rfl s.waiting (append_nil _).symm
      · simp only [if_neg hw]
        exact ⟨h.same, h.current, fun m => (h.fits m).frame rfl rfl id (Answers.refl s),
          fun j m again hj => h.draining j m again (hret j m again hj),
          h.inOrder.frame rfl rfl rfl fun _ _ => rfl, h.pushes⟩
    · exact h
  · exact h

theorem Inv.start (hcare : Careful s .start) : s.start.Inv := by
  unfold PushQueue.start
  split
  · exact h
  split
  next hrest =>
    have hidle : ∀ g, s.worker = some g → Idle (s.lanes g) := by
      intro g hw
      rcases hrest with hdone | hc
      · rw [hw] at hdone
        exact .inl (by simpa using hdone)
      · exact hcare hc g hw
    have hold : ∀ g, g ≠ s.count → (s.setLane s.count ⟨.created, 0, false, [], []⟩).lanes g =
        s.lanes g := fun g hg => by simp [setLane, hg]
    have hnew : (s.setLane s.count ⟨.created, 0, false, [], []⟩).lanes s.count =
        ⟨.created, 0, false, [], []⟩ := by simp [setLane]
    refine ⟨rfl, fun g hg => ?_, fun g => ?_, fun k g interrupted hk => ?_, ?_, h.pushes⟩
    · cases hg
      exact Nat.lt_succ_self _
    · show Fits _ g ((s.setLane s.count ⟨.created, 0, false, [], []⟩).lanes g)
      by_cases hg : g = s.count
      · subst hg
        rw [hnew]
        exact ⟨fun hle => absurd hle (Nat.not_succ_le_self _), fun hne => absurd rfl hne,
          fun hs => (by rcases hs with hm | ⟨_, hm | hm⟩ <;> cases hm),
          fun _ hend => (by rcases hend with hm | hm | hm <;> cases hm),
          nofun,
          fun _ hm => (by rcases hm with hm | hm | hm <;> cases hm),
          nofun, nofun⟩
      · rw [hold g hg]
        have hfits := h.fits g
        refine ⟨fun hle => hfits.absent (Nat.le_of_succ_le hle), fun _ => ?_, hfits.captured,
          fun heq => absurd (Option.some.inj heq).symm hg, hfits.dying, hfits.onQueue,
          hfits.asked, hfits.pending⟩
        by_cases hw : s.worker = some g
        · exact .inr (hidle g hw)
        · exact hfits.old hw
    · have hlt := (h.draining k g interrupted hk).1
      exact ⟨Nat.lt_succ_of_lt hlt, fun hg => absurd (Option.some.inj hg).symm hlt.ne⟩
    · refine h.inOrder.drop rfl rfl s.waiting ?_
      show s.waiting = s.waiting ++
        ((s.setLane s.count ⟨.created, 0, false, [], []⟩).lanes s.count).queue.reduceOption
      rw [hnew]
      exact (append_nil _).symm
  · exact h

theorem Inv.enqueue (habsent : s.futures n = .absent) : (s.enqueue n).Inv := by
  have hnew : ∀ m, n ∉ (s.lanes m).puts := fun m hm => by
    rcases (h.fits m).asked n hm with hp | ⟨answer, hres⟩ <;> simp_all
  have ho : ∀ m future, m ≠ n → update s.futures n future m = s.futures m :=
    fun m future hm => update_of_ne hm _ _
  -- a lane that does not get the request
  have hf : ∀ (t : PushQueue) (future : Future) (m : Nat), t.count = s.count →
      t.worker = s.worker → t.closing = s.closing →
      t.futures = update s.futures n future → t.Fits m (s.lanes m) := by
    intro t future m hcnt hworker hclosing hfuture
    have hfits := h.fits m
    have hsame : ∀ i ∈ (s.lanes m).puts, t.futures i = s.futures i := fun i hi => by
      rw [hfuture]
      exact ho i future fun heq => hnew m (heq ▸ hi)
    refine ⟨hcnt ▸ hfits.absent, hworker ▸ hfits.old, hfits.captured,
      fun heq hend => hclosing.trans (hfits.ending (hworker ▸ heq) hend), fun hflag i hi => ?_,
      hfits.onQueue, fun i hi => ?_, fun i hi hp => ?_⟩
    · rw [hsame i (hfits.onQueue i (hi.elim Or.inr fun hi => .inl hi.2))]
      exact hfits.dying hflag i hi
    · rw [hsame i hi]
      exact hfits.asked i hi
    · exact hfits.pending i hi (hsame i hi ▸ hp)
  unfold PushQueue.enqueue
  split
  · exact ⟨h.same, h.current, fun m => hf _ .refused m rfl rfl rfl rfl, h.draining,
      h.inOrder.frame rfl rfl rfl fun _ _ => rfl, h.pushes⟩
  next q haccess =>
    have hopen : s.closing = false ∧ s.worker = some q := by
      unfold acceptsOn at haccess
      split at haccess
      · cases haccess
      next hclosing => exact ⟨by simpa using hclosing, h.same ▸ haccess⟩
    obtain ⟨hclosing, hworker⟩ := hopen
    have hfits := h.fits q
    have he : ∀ P : Prop, s.closing = true → P := fun P hc => by
      simp [hclosing] at hc
    refine ⟨h.same, h.current, fun m => ?_, h.draining, ?_, h.pushes⟩
    · by_cases hm : m = q
      · subst hm
        simp only [setLane, update_self]
        have hmem : ∀ i, some i ∈ (s.lanes m).queue ++ [some n] ↔
            some i ∈ (s.lanes m).queue ∨ i = n := fun i => by simp
        refine ⟨hfits.absent, fun hne => absurd hworker hne, hfits.captured,
          fun heq hend => hfits.ending heq (hend.imp_right (Or.imp_right fun hmem => ?_)),
          fun hflag => he _ (hfits.ending hworker (.inl hflag)),
          fun i hi => ?_, fun i hi => ?_, fun i hi hp => ?_⟩
        · simpa using hmem
        · rcases hi with hi | hi
          · rcases (hmem i).1 hi with hi | rfl
            · exact mem_append_left _ (hfits.onQueue i (.inl hi))
            · exact mem_append_right _ (mem_singleton_self _)
          · exact mem_append_left _ (hfits.onQueue i (.inr hi))
        · by_cases hin : i = n
          · subst hin
            exact .inl (update_self ..)
          · have hput := (mem_append.1 hi).resolve_right fun hi => hin (by simpa using hi)
            exact (hfits.asked i hput).imp (ho i _ hin).trans fun ⟨answer, ha⟩ =>
              ⟨answer, (ho i _ hin).trans ha⟩
        · by_cases hin : i = n
          · subst hin
            exact ⟨fun hexited => he _ (hfits.ending hworker (.inr (.inl hexited))),
              Or.inl ((hmem i).2 (.inr rfl))⟩
          · have hput := (mem_append.1 hi).resolve_right fun hi => hin (by simpa using hi)
            have hwas := (ho i .pending hin).symm.trans hp
            exact (hfits.pending i hput hwas).imp_right
              (Or.imp_left fun hi => (hmem i).2 (.inl hi))
      · simp only [setLane, update_of_ne hm]
        exact hf _ .pending m rfl rfl rfl rfl
    · obtain ⟨taken, haccepted, hsub⟩ := h.inOrder
      refine ⟨taken, ?_, hsub⟩
      rw [waiting_current hworker] at haccepted
      have hwait : ∀ t : PushQueue, t.worker = s.worker →
          (t.lanes q).queue = (s.lanes q).queue ++ [some n] →
          t.waiting = (s.lanes q).queue.reduceOption ++ [n] := fun t hw hl => by
        rw [waiting_current (hw.trans hworker), hl, reduceOption_append]
        rfl
      refine Eq.trans ?_ (congrArg (taken ++ ·) (hwait _ ?_ ?_).symm)
      · show s.accepted ++ [n] = _
        rw [haccepted, append_assoc]
      · rfl
      · simp [setLane]

end

-- ==== the steps

theorem resumesAt_eq {stage : Stage} (hs : s.resumesAt g = stage) (hlive : stage ≠ .exited) :
    (s.lanes g).stage = stage ∧ (s.lanes g).cancelRequested = false := by
  unfold resumesAt at hs
  split at hs
  · exact absurd hs.symm hlive
  next hflag => exact ⟨hs, by simpa using hflag⟩

/-- STEP LEMMA. -/
theorem Inv.step {input : Input} (h : s.Inv) (hcare : Careful s input) : (s.step input).Inv := by
  cases input with
  | start => exact h.start hcare
  | stop k =>
    simp only [PushQueue.step]
    split
    · exact h.stop
    · exact h
  | interrupt k timedOut => exact h.interrupt hcare
  | finishStop k => exact h.finishStop
  | enqueue n =>
    simp only [PushQueue.step]
    split
    next ha => exact h.enqueue ha
    · exact h
  | cancelCaller n => exact h.resolve .cancelled
  | run g =>
    simp only [PushQueue.step]
    split
    next hat =>
      obtain ⟨hs, hflag⟩ := resumesAt_eq hat (by simp)
      exact h.run hs hflag
    · exact h
  | get g =>
    simp only [PushQueue.step]
    split
    next hat =>
      obtain ⟨hs, hflag⟩ := resumesAt_eq hat (by simp)
      exact h.get hs hflag
    · exact h
  | mergeEnds g outcome =>
    simp only [PushQueue.step]
    split
    next n hat =>
      refine h.mergeEnds (resumesAt_eq hat (by simp)).1 fun hc => ?_
      subst hc
      exact hcare
    · exact h
  | pushEnds g outcome =>
    simp only [PushQueue.step]
    split
    next n hat =>
      refine h.pushEnds (resumesAt_eq hat (by simp)).1 fun hc => ?_
      subst hc
      exact hcare
    · exact h
  | die g =>
    simp only [PushQueue.step]
    split
    next hflag => exact h.die hflag
    · exact h

-- ==== whole runs

structure Serves (s : PushQueue) : Prop where
  /-- One merge or push at a time. -/
  serial : ∀ g h n m, InHand (s.lanes g) n → InHand (s.lanes h) m → g = h ∧ n = m
  inOrder : s.merges.Sublist s.accepted
  pushed : ∀ n ∈ s.pushes, n ∈ s.mergedWell
  /-- A worker that is done leaves nobody waiting. -/
  answered : ∀ g, (s.lanes g).stage = .exited →
    ∀ n ∈ (s.lanes g).puts, ∃ answer, s.futures n = .resolved answer
  /-- The queue that takes requests has a worker. -/
  accepting : ∀ g, s.acceptsOn = some g → (s.lanes g).stage ≠ .exited

theorem Inv.serves (h : s.Inv) : s.Serves where
  serial := fun g m n i hn hi => by
    have hw := h.isCurrent (.inr ⟨n, hn⟩)
    obtain rfl : g = m := Option.some.inj (hw.symm.trans (h.isCurrent (.inr ⟨i, hi⟩)))
    refine ⟨rfl, ?_⟩
    rcases hn with hn | hn <;> rcases hi with hi | hi <;> simp_all
  inOrder := by
    obtain ⟨taken, haccepting, hsub⟩ := h.inOrder
    rw [haccepting]
    exact hsub.trans (sublist_append_left _ _)
  pushed := fun n hn => h.pushes ▸ hn
  answered := fun g hexited n hn =>
    ((h.fits g).asked n hn).resolve_left fun hp => ((h.fits g).pending n hn hp).1 hexited
  accepting := fun g ha hexited => by
    unfold acceptsOn at ha
    split at ha
    · cases ha
    next hc => exact hc ((h.fits g).ending (h.same ▸ ha) (.inr (.inl hexited)))

theorem new_inv : new.Inv := by
  refine ⟨rfl, nofun, fun g => ?_, nofun, ⟨[], rfl, Sublist.refl _⟩, rfl⟩
  exact ⟨fun _ => rfl, fun _ => .inl rfl,
    fun hs => (by rcases hs with hm | ⟨_, hm | hm⟩ <;> cases hm), nofun,
    nofun, fun _ hm => (by rcases hm with hm | hm | hm <;> cases hm),
    nofun, nofun⟩

/-- In every state of a careful run, the queue serves its callers in turn. -/
theorem serves_in_turn (inputs : List Input)
    (hcare : Run.Throughout PushQueue.step Careful new inputs) :
    ∀ s ∈ Run.states PushQueue.step new inputs, s.Serves := by
  intro s hs
  exact (Run.throughout_states (P := Inv) (fun _ _ hok h => h.step hok) hcare new_inv s hs).serves

/-- Two requests, the second in conflict, a `stop` meanwhile, a `start` after it. -/
theorem serves_in_turn_two :
    (Run.final PushQueue.step new [.start, .run 0, .enqueue 0, .get 0, .enqueue 1,
      .mergeEnds 0 .success, .pushEnds 0 .success, .stop 0, .get 0, .mergeEnds 0 .conflict, .get 0,
      .finishStop 0, .start]).Serves :=
  serves_in_turn [.start, .run 0, .enqueue 0, .get 0, .enqueue 1, .mergeEnds 0 .success,
      .pushEnds 0 .success, .stop 0, .get 0, .mergeEnds 0 .conflict, .get 0, .finishStop 0, .start]
    ⟨nofun, trivial, trivial, trivial, trivial, trivial, trivial,
      trivial, trivial, trivial, trivial, trivial, nofun, trivial⟩
    _ (Run.final_mem_states _ _ _)

/-- A `start` during a `stop` lets two merges run; a `stop` out of time leaves a caller waiting;
after a critical error a request is accepted that nobody will serve. -/
theorem strands_callers :
    (let s := Run.final PushQueue.step new [.start, .run 0, .enqueue 0, .get 0, .stop 0, .start,
        .run 1, .enqueue 1, .get 1];
      (s.lanes 0).stage = .merging 0 ∧ (s.lanes 1).stage = .merging 1) ∧
    (let s := Run.final PushQueue.step new [.start, .run 0, .enqueue 0, .get 0, .stop 0,
        .interrupt 0 true, .die 0, .finishStop 0];
      (s.lanes 0).stage = .exited ∧ 0 ∈ (s.lanes 0).puts ∧ s.futures 0 = .pending) ∧
    let s := Run.final PushQueue.step new [.start, .run 0, .enqueue 0, .get 0,
      .mergeEnds 0 .critical, .enqueue 1];
    (s.lanes 0).stage = .exited ∧ s.acceptsOn = some 0 ∧ 1 ∈ (s.lanes 0).puts ∧
      s.futures 1 = .pending := by
  decide

end PushQueue

end Synthorg.Workspace
