/-
A dispatched claim is accounted for, and a standing mark keeps the executor
from starting.

A message is LIVE while the queue may still hand it out, or a party is in the midst of its last
delivery. A claim that was dispatched has a live message on one of the two subjects until it is
SETTLED: the executor reported it, or the consumer found or did something about its task. It is
carried by this: every party past the point of no return with a delivery has a settled claim in
hand, or, for a worker that acknowledges, a live message on the dead subject.
-/
import Synthorg.Workers.Queue

namespace Synthorg.Workers

open Synthorg.Core Lib
open Function (update update_self update_of_ne)
open List

namespace Cluster

variable {config : QueueConfig} {key : String} {s : Cluster}

-- ==== settled and live

def Settled (s : Cluster) (key : String) : Prop :=
  key ∈ s.reported ∨ ∃ how, (key, how) ∈ s.handled

def Alive (config : QueueConfig) (key : String) (s : Cluster) (seq : Nat) (m : Message) : Prop :=
  m.numDelivered < config.maxDeliver ∨
    ∃ p d, pending (s.stages p) = some d ∧ d.seq = seq ∧ IsLast config key d

def Live (config : QueueConfig) (key : String) (s : Cluster) (subject : Subject) : Prop :=
  ∃ seq m, s.stream seq = some m ∧ m.subject = subject ∧ m.claim.idempotencyKey = key ∧
    s.Alive config key seq m

variable {p : Party} {stage : Stage} {seq : Nat} {subject : Subject} {claim : TaskClaim}
  {s' : Cluster} {e : Event}

theorem Alive.setStage {m : Message}
    (hgo : ∀ d, pending (s.stages p) = some d → IsLast config key d → pending stage = some d)
    (h : s.Alive config key seq m) : (s.setStage p stage).Alive config key seq m := by
  rcases h with hcnt | ⟨q, d, hd, hseq, hlast⟩
  · exact .inl hcnt
  · refine .inr ⟨q, d, ?_, hseq, hlast⟩
    by_cases hq : q = p
    · subst hq
      simp only [Cluster.setStage, update_self]
      exact hgo d hd hlast
    · simpa [Cluster.setStage, hq] using hd

theorem Live.setStage
    (hgo : ∀ d, pending (s.stages p) = some d → IsLast config key d → pending stage = some d)
    (h : Live config key s subject) : Live config key (s.setStage p stage) subject := by
  obtain ⟨seq, m, hm, hs, hkey, ha⟩ := h
  exact ⟨seq, m, hm, hs, hkey, ha.setStage hgo⟩

theorem Live.append {subject' : Subject} (hf : ∀ seq m, s.stream seq = some m → seq < s.nextSeq)
    (h : Live config key s subject) : Live config key (s.append subject' claim) subject := by
  obtain ⟨seq, m, hm, hs, hkey, ha⟩ := h
  have hne : seq ≠ s.nextSeq := Nat.ne_of_lt (hf seq m hm)
  exact ⟨seq, m, by simpa [Cluster.append, hne] using hm, hs, hkey, ha⟩

theorem live_append (config : QueueConfig) (s : Cluster) (subject : Subject) (claim : TaskClaim) :
    Live config claim.idempotencyKey (s.append subject claim) subject :=
  ⟨s.nextSeq, ⟨subject, claim, 0⟩, by simp [Cluster.append], rfl, rfl,
    Or.inl config.maxDeliver_pos⟩

theorem Live.remove (ho : ∀ m, s.stream seq = some m → m.subject = subject →
      m.claim.idempotencyKey = key → ¬ s.Alive config key seq m) (h : Live config key s subject) :
    Live config key (s.remove seq) subject := by
  obtain ⟨seq', m, hm, hs, hkey, ha⟩ := h
  have hne : seq' ≠ seq := by
    rintro rfl
    exact ho m hm hs hkey ha
  exact ⟨seq', m, by simpa [Cluster.remove, hne] using hm, hs, hkey, ha⟩

theorem Live.fetch (h : Live config key s subject) :
    Live config key (s.fetch config p seq) subject := by
  unfold Cluster.fetch
  split
  next m' hidle hm' =>
    split
    next hok =>
      obtain ⟨seq', m, hm, hs, hkey, ha⟩ := h
      by_cases hseq : seq' = seq
      · subst hseq
        have hmm : m = m' := Option.some.inj (hm.symm.trans hm')
        subst hmm
        refine ⟨seq', { m with numDelivered := m.numDelivered + 1 }, by simp, hs, hkey, ?_⟩
        by_cases hlast : m.numDelivered + 1 < config.maxDeliver
        · exact .inl hlast
        · exact .inr ⟨p, ⟨seq', m.claim, m.numDelivered + 1⟩, by simp [pending], rfl, hkey,
            Nat.le_of_not_lt hlast⟩
      · refine ⟨seq', m, by simpa [hseq] using hm, hs, hkey, ?_⟩
        refine Alive.setStage (s := s) (p := p) ?_ ha
        intro d hd _
        rw [hidle] at hd
        cases hd
    · exact h
  · exact h

-- ==== the invariant

def StageOk (config : QueueConfig) (key : String) (s : Cluster) (p : Party) : Stage → Prop
  | .looked d seen _ => seen = .present → d.claim.idempotencyKey = key → s.Settled key
  | .marking d => d.claim.idempotencyKey = key → s.Settled key
  | .acking d =>
    d.claim.idempotencyKey = key →
      s.Settled key ∨ (p.subject = .ready ∧ Live config key s .dead)
  | _ => True

def held : Stage → Option Delivery
  | .idle => none
  | .looking d | .looked d _ _ | .working d | .marking d | .publishing d | .acking d
  | .nacking d => some d

def Holds (s : Cluster) (p : Party) (stage : Stage) : Prop :=
  ∀ d, held stage = some d → d.seq < s.nextSeq ∧
    ∀ m, s.stream d.seq = some m → m.subject = p.subject ∧ m.claim = d.claim

/-- Numbers below the next one, parties with the messages they were given. -/
structure Books (s : Cluster) : Prop where
  fresh : ∀ seq m, s.stream seq = some m → seq < s.nextSeq
  holds : ∀ p, s.Holds p (s.stages p)

/-- THE INVARIANT of one key. -/
structure Inv (config : QueueConfig) (key : String) (s : Cluster) : Prop where
  onward : key ∈ s.dispatched →
    s.Settled key ∨ Live config key s .dead ∨ Live config key s .ready
  stages : ∀ p, StageOk config key s p (s.stages p)
  seen : (s.seenClaims key).isSome → s.Settled key

-- ==== the books

theorem Books.congr (hb : s.Books) (hstr : s'.stream = s.stream) (hnext : s'.nextSeq = s.nextSeq)
    (hs : s'.stages = s.stages) : s'.Books := by
  refine ⟨fun seq m hm => ?_, fun p d hd => ?_⟩
  · rw [hnext]
    exact hb.fresh seq m (hstr ▸ hm)
  · rw [hnext, hstr]
    exact hb.holds p d (hs ▸ hd)

theorem Books.setStage (hb : s.Books)
    (hs : ∀ d, held stage = some d → held (s.stages p) = some d) :
    (s.setStage p stage).Books := by
  refine ⟨hb.fresh, fun q => ?_⟩
  by_cases hq : q = p
  · subst hq
    intro d hd
    simp only [Cluster.setStage, update_self] at hd
    exact hb.holds q d (hs d hd)
  · intro d hd
    exact hb.holds q d (by simpa [Cluster.setStage, hq] using hd)

theorem Books.append (hb : s.Books) : (s.append subject claim).Books := by
  constructor
  · intro seq m hm
    by_cases hseq : seq = s.nextSeq
    · exact hseq ▸ Nat.lt_succ_self _
    · have := hb.fresh seq m (by simpa [Cluster.append, hseq] using hm)
      exact Nat.lt_succ_of_lt this
  · intro p d hd
    obtain ⟨hlt, hm⟩ := hb.holds p d hd
    refine ⟨Nat.lt_succ_of_lt hlt, fun m h => hm m ?_⟩
    simpa [Cluster.append, Nat.ne_of_lt hlt] using h

theorem Books.remove (hb : s.Books) : (s.remove seq).Books := by
  have hback : ∀ seq' m, (s.remove seq).stream seq' = some m → s.stream seq' = some m := by
    intro seq' m h
    by_cases hseq : seq' = seq
    · simp [Cluster.remove, hseq] at h
    · simpa [Cluster.remove, hseq] using h
  refine ⟨fun seq' m h => hb.fresh seq' m (hback seq' m h), fun p d hd => ?_⟩
  obtain ⟨hlt, hm⟩ := hb.holds p d hd
  exact ⟨hlt, fun m h => hm m (hback d.seq m h)⟩

theorem Books.fetch (hb : s.Books) : (s.fetch config p seq).Books := by
  unfold Cluster.fetch
  split
  next m hidle hm =>
    split
    next hok =>
      constructor
      · intro seq' m' hm'
        by_cases hseq : seq' = seq
        · exact hseq ▸ hb.fresh seq m hm
        · exact hb.fresh seq' m' (by simpa [hseq] using hm')
      · intro q d hd
        -- the message under any number keeps its subject and its claim
        have hback : ∀ seq' m', update s.stream seq
            (some { m with numDelivered := m.numDelivered + 1 }) seq' = some m' →
            ∃ m₀, s.stream seq' = some m₀ ∧ m'.subject = m₀.subject ∧ m'.claim = m₀.claim := by
          intro seq' m' hm'
          by_cases hseq : seq' = seq
          · subst hseq
            rw [update_self] at hm'
            exact ⟨m, hm, by simp [← Option.some.inj hm'], by simp [← Option.some.inj hm']⟩
          · exact ⟨m', by simpa [hseq] using hm', rfl, rfl⟩
        by_cases hq : q = p
        · subst hq
          simp only [update_self, held, Option.some.injEq] at hd
          subst hd
          refine ⟨hb.fresh seq m hm, fun m' hm' => ?_⟩
          obtain ⟨m₀, hm₀, hs, hc⟩ := hback seq m' hm'
          have : m₀ = m := Option.some.inj (hm₀.symm.trans hm)
          subst this
          exact ⟨hs.trans hok.1, hc⟩
        · obtain ⟨hlt, hm₁⟩ := hb.holds q d (by simpa [hq] using hd)
          refine ⟨hlt, fun m' hm' => ?_⟩
          obtain ⟨m₀, hm₀, hs, hc⟩ := hback d.seq m' hm'
          exact ⟨hs.trans (hm₁ m₀ hm₀).1, hc.trans (hm₁ m₀ hm₀).2⟩
    · exact hb
  · exact hb

/-- STEP LEMMA of the books. -/
theorem Books.step (hb : s.Books) : (Cluster.step config s e).Books := by
  have hidle : ∀ {p}, (s.setStage p .idle).Books := fun {p} => hb.setStage (by simp [held])
  -- a party that goes on with what it holds
  have hgo : ∀ {p stage} stage', s.stages p = stage → held stage' = held stage →
      (s.setStage p stage').Books := fun {p stage} stage' hp hh =>
    hb.setStage fun d hd => by rw [hp, ← hh]; exact hd
  cases e with
  | dispatch claim =>
    simp only [Cluster.step, publishClaim]
    split
    · exact hb
    · exact Books.congr hb.append rfl rfl rfl
  | deliver p seq => exact hb.fetch
  | lookUp p reply =>
    simp only [Cluster.step, lookUp]
    split
    next d hp =>
      cases reply with
      | answered | retryable => exact hgo _ hp rfl
      | permanent => exact hidle
    · exact hb
  | resume p =>
    simp only [Cluster.step, resume]
    split
    next d stood hp => exact hgo _ hp rfl
    next d seen stood hne hp =>
      cases p with
      | worker number => exact Books.congr (hgo (.working d) hp rfl) rfl rfl rfl
      | consumer => exact hgo _ hp rfl
    · exact hb
  | report number status =>
    simp only [Cluster.step, report]
    split
    next d hp =>
      cases status with
      | success | failed => exact Books.congr (hgo (.marking d) hp rfl) rfl rfl rfl
      | retry =>
        show Books (if _ then _ else _)
        split
        · exact hgo _ hp rfl
        · exact hgo _ hp rfl
    · exact hb
  | settle engine =>
    simp only [Cluster.step, settle]
    split
    next d hp =>
      cases engine with
      | running => exact Books.congr (hgo (.marking d) hp rfl) rfl rfl rfl
      | unavailable =>
        show Books (if _ then _ else _)
        split
        · exact hidle
        · exact hgo _ hp rfl
      | unmapped => exact hidle
    · exact hb
  | mark p reply =>
    simp only [Cluster.step, markCompleted]
    split
    next d hp =>
      cases reply with
      | answered =>
        simp only [markSeen]
        split
        · exact hgo _ hp rfl
        · exact Books.congr (hgo (.acking d) hp rfl) rfl rfl rfl
      | retryable => exact hgo _ hp rfl
      | permanent => exact hidle
    · exact hb
  | publishDead number result =>
    simp only [Cluster.step, deadLetter]
    split
    next d hp =>
      cases result with
      | stored => exact (hgo (.acking d) hp rfl).append
      | storedUnseen => exact hidle.append
      | failed => exact hidle
    · exact hb
  | finalize p arrives =>
    simp only [Cluster.step, finalizeClaim]
    split
    next d hp =>
      cases arrives with
      | true => exact hidle.remove
      | false => exact hidle
    · exact hidle
    · exact hb
  | crash p => exact hidle
  | terminate seq =>
    simp only [Cluster.step, terminate]
    split
    · split
      · exact hb.remove
      · exact hb
    · exact hb
  | prune | tick seconds | moveTask taskId status => exact hb.congr rfl rfl rfl

-- ==== one key's way

theorem Settled.mono (hrep : ∀ k ∈ s.reported, k ∈ s'.reported)
    (hhand : ∀ entry ∈ s.handled, entry ∈ s'.handled) (h : s.Settled key) : s'.Settled key := by
  rcases h with h | ⟨how, h⟩
  · exact .inl (hrep key h)
  · exact .inr ⟨how, hhand _ h⟩

theorem Live.congr (h : Live config key s subject) (hstr : s'.stream = s.stream)
    (hs : s'.stages = s.stages) : Live config key s' subject := by
  unfold Live Alive at *
  rw [hstr, hs]
  exact h

theorem StageOk.mono (hset : s.Settled key → s'.Settled key)
    (hdead : Live config key s .dead → s'.Settled key ∨ Live config key s' .dead)
    (h : StageOk config key s p stage) : StageOk config key s' p stage := by
  cases stage with
  | looked d seen stood => exact fun hseen hkey => hset (h hseen hkey)
  | marking d => exact fun hkey => hset (h hkey)
  | acking d =>
    intro hkey
    rcases h hkey with hs | ⟨hp, hlive⟩
    · exact .inl (hset hs)
    · exact (hdead hlive).imp_right fun hl => ⟨hp, hl⟩
  | _ => trivial

theorem StageOk.of_settled (h : s.Settled key) : StageOk config key s p stage := by
  cases stage with
  | looked d seen stood => exact fun _ _ => h
  | marking d => exact fun _ => h
  | acking d => exact fun _ => .inl h
  | _ => trivial

section
variable (h : s.Inv config key)
include h

theorem Inv.move (hstr : s'.stream = s.stream) (hstages : s'.stages = update s.stages p stage)
    (hdispatched : s'.dispatched = s.dispatched) (hset : s.Settled key → s'.Settled key)
    (hseen : (s'.seenClaims key).isSome → (s.seenClaims key).isSome ∨ s'.Settled key)
    (hgo : s'.Settled key ∨
      (∀ d, pending (s.stages p) = some d → IsLast config key d → pending stage = some d) ∧
        StageOk config key s' p stage) : s'.Inv config key := by
  have hlive : ∀ subject, Live config key s subject →
      s'.Settled key ∨ Live config key s' subject := by
    intro subject hl
    refine hgo.imp_right fun hgo => ?_
    exact (hl.setStage hgo.1).congr hstr hstages
  refine ⟨fun hd => ?_, fun q => ?_, fun hs => ?_⟩
  · rcases h.onward (hdispatched ▸ hd) with hs | hl | hl
    · exact .inl (hset hs)
    · exact (hlive _ hl).imp_right Or.inl
    · exact (hlive _ hl).imp_right Or.inr
  · rw [hstages]
    by_cases hq : q = p
    · subst hq
      rw [update_self]
      rcases hgo with hs | ⟨-, hok⟩
      · exact StageOk.of_settled hs
      · exact hok
    · rw [update_of_ne hq]
      exact (h.stages q).mono hset (hlive .dead)
  · rcases hseen hs with hs | hs
    · exact hset (h.seen hs)
    · exact hs

theorem Inv.leave (hnot : ∀ d, pending (s.stages p) = some d → ¬ IsLast config key d)
    (hok : StageOk config key (s.setStage p stage) p stage) : (s.setStage p stage).Inv config key :=
  h.move rfl rfl rfl id Or.inl
    (.inr ⟨fun d hd hlast => absurd hlast (hnot d hd), hok⟩)

theorem Inv.append (hb : s.Books) : (s.append subject claim).Inv config key := by
  refine ⟨fun hd => ?_, fun q => ?_, h.seen⟩
  · exact (h.onward hd).imp_right (Or.imp (Live.append hb.fresh) (Live.append hb.fresh))
  · exact StageOk.mono (s := s) id (fun hl => .inr (hl.append hb.fresh)) (h.stages q)

theorem Inv.remove (ho : s.Settled key ∨
      (∀ m, s.stream seq = some m → m.claim.idempotencyKey = key →
        ¬ s.Alive config key seq m) ∨
      (Live config key s .dead ∧ ∀ m, s.stream seq = some m → m.subject = .ready)) :
    (s.remove seq).Inv config key := by
  have hdead : Live config key s .dead →
      (s.remove seq).Settled key ∨ Live config key (s.remove seq) .dead := by
    intro hl
    rcases ho with hs | hnot | ⟨-, hr⟩
    · exact .inl hs
    · exact .inr (hl.remove fun m hm _ hkey => hnot m hm hkey)
    · refine .inr (hl.remove fun m hm hsubject _ => ?_)
      simp [hr m hm] at hsubject
  refine ⟨fun hd => ?_, fun q => StageOk.mono (s := s) id hdead (h.stages q), h.seen⟩
  rcases h.onward hd with hs | hl | hl
  · exact .inl hs
  · exact (hdead hl).imp_right Or.inl
  · rcases ho with hs | hnot | ⟨hl', -⟩
    · exact .inl hs
    · exact .inr (.inr (hl.remove fun m hm _ hkey => hnot m hm hkey))
    · exact (hdead hl').imp_right Or.inl

theorem Inv.fetch : (s.fetch config p seq).Inv config key := by
  have hlive : ∀ subject, Live config key s subject →
      Live config key (s.fetch config p seq) subject := fun _ hl => hl.fetch
  have hsame : (s.fetch config p seq).dispatched = s.dispatched ∧
      ((s.fetch config p seq).Settled key ↔ s.Settled key) ∧
      (s.fetch config p seq).seenClaims = s.seenClaims ∧
      ∀ q, StageOk config key s q ((s.fetch config p seq).stages q) := by
    unfold Cluster.fetch
    split
    · split
      · refine ⟨rfl, Iff.rfl, rfl, fun q => ?_⟩
        by_cases hq : q = p
        · subst hq
          simp [StageOk]
        · simpa [hq] using h.stages q
      · exact ⟨rfl, Iff.rfl, rfl, h.stages⟩
    · exact ⟨rfl, Iff.rfl, rfl, h.stages⟩
  obtain ⟨hdispatched, hset, hseen, hstages⟩ := hsame
  refine ⟨fun hd => ?_, fun q => ?_, fun hs => ?_⟩
  · rw [hdispatched] at hd
    exact (h.onward hd).imp hset.2 (Or.imp (hlive .dead) (hlive .ready))
  · exact (hstages q).mono hset.2 fun hl => .inr (hlive .dead hl)
  · exact hset.2 (h.seen (hseen ▸ hs))

theorem Inv.publishClaim (hb : s.Books) : (s.publishClaim claim).Inv config key := by
  unfold Cluster.publishClaim
  split
  · exact h
  · have h' : (s.append .ready claim).Inv config key := h.append hb
    refine ⟨fun hd => ?_, h'.stages, h'.seen⟩
    rcases mem_cons.1 hd with rfl | hd
    · exact .inr (.inr ((live_append config s .ready claim).congr rfl rfl))
    · exact h'.onward hd

theorem Inv.deadLetter {number : Nat} {d : Delivery} (hb : s.Books)
    (hp : s.stages (.worker number) = .publishing d) (hs : stage = .idle ∨ stage = .acking d) :
    ((s.setStage (.worker number) stage).append .dead d.claim).Inv config key := by
  have hbooks : (s.setStage (.worker number) stage).Books := by
    refine hb.setStage fun d' hd' => ?_
    rw [hp]
    rcases hs with rfl | rfl
    · cases hd'
    · exact hd'
  by_cases hkey : d.claim.idempotencyKey = key
  · have hlive : Live config key ((s.setStage (.worker number) stage).append .dead d.claim) .dead :=
      hkey ▸ live_append config _ .dead d.claim
    refine ⟨fun _ => .inr (.inl hlive), fun q => ?_, h.seen⟩
    by_cases hq : q = .worker number
    · subst hq
      simp only [Cluster.append, Cluster.setStage, update_self]
      rcases hs with rfl | rfl
      · trivial
      · exact fun _ => .inr ⟨rfl, hlive⟩
    · simp only [Cluster.append, Cluster.setStage, update_of_ne hq]
      exact StageOk.mono (s := s) id (fun _ => .inr hlive) (h.stages q)
  · refine Inv.append (h.leave (fun d' hd' hlast => ?_) ?_) hbooks
    · rw [hp] at hd'
      exact hkey (Option.some.inj hd' ▸ hlast.1)
    · rcases hs with rfl | rfl
      · trivial
      · exact fun hk => absurd hk hkey

/-- STEP LEMMA: no last delivery of the key is cut short. -/
theorem Inv.step (hb : s.Books) (hcut : ¬ CutsShort config key s e) :
    (Cluster.step config s e).Inv config key := by
  -- a party that is in the midst of nothing, or of a delivery that is not the last
  have hl : ∀ {p d} stage, pending (s.stages p) = some d → ¬ IsLast config key d →
      StageOk config key (s.setStage p stage) p stage → (s.setStage p stage).Inv config key := by
    intro p d stage hd hnot hok
    refine h.leave (fun d' hd' => ?_) hok
    rw [hd] at hd'
    exact Option.some.inj hd' ▸ hnot
  have hnone : ∀ {p} stage, pending (s.stages p) = none →
      StageOk config key (s.setStage p stage) p stage → (s.setStage p stage).Inv config key := by
    intro p stage hd hok
    refine h.leave (fun d' hd' => ?_) hok
    simp [hd] at hd'
  -- a party that goes on with its delivery
  have hsame : ∀ {p d} stage, pending (s.stages p) = some d → pending stage = some d →
      StageOk config key (s.setStage p stage) p stage → (s.setStage p stage).Inv config key := by
    intro p d stage hd hd' hok
    exact h.move rfl rfl rfl id Or.inl (.inr ⟨fun d₀ h₀ _ => by rw [hd', ← hd, h₀], hok⟩)
  cases e with
  | dispatch claim => exact h.publishClaim hb
  | deliver p seq => exact h.fetch
  | lookUp p reply =>
    simp only [Cluster.step, lookUp]
    split
    next d hp =>
      have hpd : pending (s.stages p) = some d := by rw [hp]; rfl
      cases reply with
      | answered =>
        by_cases hseen : (s.seenClaims d.claim.idempotencyKey).isSome
        · by_cases hkey : d.claim.idempotencyKey = key
          · exact h.move rfl rfl rfl id Or.inl (.inl (h.seen (hkey ▸ hseen)))
          · exact hl _ hpd (fun hlast => hkey hlast.1) fun _ hk => absurd hk hkey
        · simp only [hseen]
          exact hsame _ hpd rfl fun hseen _ => by cases hseen
      | retryable => exact hsame _ hpd rfl fun hseen _ => by cases hseen
      | permanent => exact hl _ hpd (fun hlast => hcut ⟨rfl, d, hp, hlast⟩) trivial
    · exact h
  | resume p =>
    simp only [Cluster.step, resume]
    have hok := h.stages p
    split
    next d stood hp =>
      rw [hp] at hok
      exact hnone _ (by rw [hp]; rfl) fun hkey => .inl (hok rfl hkey)
    next d seen stood hne hp =>
      have hpd : pending (s.stages p) = some d := by
        rw [hp]
        exact if_neg hne
      cases p with
      | worker number =>
        exact h.move rfl rfl rfl id Or.inl (.inr ⟨fun d₀ h₀ _ => by rw [← h₀, hpd]; rfl, trivial⟩)
      | consumer => exact hsame _ hpd rfl trivial
    · exact h
  | report number status =>
    simp only [Cluster.step, report]
    split
    next d hp =>
      have hpd : pending (s.stages (.worker number)) = some d := by rw [hp]; rfl
      have hdone : ({ s.setStage (.worker number) (.marking d) with
          reported := d.claim.idempotencyKey :: s.reported } : Cluster).Inv config key := by
        by_cases hkey : d.claim.idempotencyKey = key
        · refine h.move rfl rfl rfl ?_ Or.inl (.inl (.inl ?_))
          · exact Settled.mono (fun _ hk => mem_cons_of_mem _ hk) fun _ hk => hk
          · simp [hkey]
        · refine h.move rfl rfl rfl ?_ Or.inl (.inr ⟨fun d₀ h₀ hlast => ?_, ?_⟩)
          · exact Settled.mono (fun _ hk => mem_cons_of_mem _ hk) fun _ hk => hk
          · rw [hpd] at h₀
            exact absurd (Option.some.inj h₀ ▸ hlast.1) hkey
          · exact fun hk => absurd hk hkey
      cases status with
      | success | failed => exact hdone
      | retry =>
        show Inv config key (if _ then _ else _)
        split
        · exact hsame _ hpd rfl trivial
        next hnot => exact hl _ hpd (fun hlast => hnot hlast.2) trivial
    · exact h
  | settle engine =>
    simp only [Cluster.step, settle]
    split
    next d hp =>
      have hpd : pending (s.stages .consumer) = some d := by rw [hp]; rfl
      cases engine with
      | running =>
        have hmono : ∀ entry ∈ s.handled,
            entry ∈ (d.claim.idempotencyKey, s.failTask d.claim.taskId) :: s.handled :=
          fun _ hk => mem_cons_of_mem _ hk
        by_cases hkey : d.claim.idempotencyKey = key
        · refine h.move rfl rfl rfl (Settled.mono (fun _ hk => hk) hmono) Or.inl
            (.inl (.inr ⟨s.failTask d.claim.taskId, ?_⟩))
          simp [hkey]
        · refine h.move rfl rfl rfl (Settled.mono (fun _ hk => hk) hmono) Or.inl
            (.inr ⟨fun d₀ h₀ hlast => ?_, fun hk => absurd hk hkey⟩)
          rw [hpd] at h₀
          exact absurd (Option.some.inj h₀ ▸ hlast.1) hkey
      | unavailable =>
        show Inv config key (if _ then _ else _)
        have hnot : ¬ IsLast config key d := fun hlast =>
          hcut ⟨by decide, d, hp, hlast⟩
        split
        · exact hl _ hpd hnot trivial
        · exact hl _ hpd hnot trivial
      | unmapped => exact hl _ hpd (fun hlast => hcut ⟨by decide, d, hp, hlast⟩) trivial
    · exact h
  | mark p reply =>
    simp only [Cluster.step, markCompleted]
    have hok := h.stages p
    split
    next d hp =>
      rw [hp] at hok
      have hpd : pending (s.stages p) = none := by rw [hp]; rfl
      have hack : (s.setStage p (.acking d)).Inv config key :=
        hnone _ hpd fun hkey => .inl (hok hkey)
      cases reply with
      | answered =>
        simp only [markSeen]
        split
        · exact hack
        · refine ⟨hack.onward, hack.stages, fun hs => ?_⟩
          by_cases hkey : d.claim.idempotencyKey = key
          · exact hok hkey
          · exact hack.seen (by simpa [Ne.symm hkey] using hs)
      | retryable => exact hack
      | permanent => exact hnone _ hpd trivial
    · exact h
  | publishDead number result =>
    simp only [Cluster.step, Cluster.deadLetter]
    split
    next d hp =>
      have hpd : pending (s.stages (.worker number)) = some d := by rw [hp]; rfl
      cases result with
      | stored => exact h.deadLetter hb hp (.inr rfl)
      | storedUnseen => exact h.deadLetter hb hp (.inl rfl)
      | failed => exact hl _ hpd (fun hlast => hcut ⟨rfl, d, hp, hlast⟩) trivial
    · exact h
  | finalize p arrives =>
    simp only [Cluster.step, finalizeClaim]
    have hok := h.stages p
    split
    next d hp =>
      rw [hp] at hok
      have hidle : (s.setStage p .idle).Inv config key := hnone _ (by rw [hp]; rfl) trivial
      cases arrives with
      | false => exact hidle
      | true =>
        refine hidle.remove ?_
        obtain ⟨-, hmsg⟩ := hb.holds p d (by rw [hp]; rfl)
        by_cases hkey : d.claim.idempotencyKey = key
        · rcases hok hkey with hs | ⟨hr, hlive⟩
          · exact .inl hs
          · refine .inr (.inr ⟨hlive.setStage fun d₀ h₀ => ?_, fun m hm => ?_⟩)
            · rw [hp] at h₀
              cases h₀
            · exact (hmsg m hm).1.trans hr
        · refine .inr (.inl fun m hm hk => ?_)
          exact absurd ((hmsg m hm).2 ▸ hk) hkey
    next d hp => exact hnone _ (by rw [hp]; rfl) trivial
    · exact h
  | crash p => exact h.leave (fun d hd hlast => hcut ⟨d, hd, hlast⟩) trivial
  | terminate seq =>
    simp only [Cluster.step, terminate]
    split
    next m hm =>
      split
      next hused =>
        refine h.remove (.inr (.inl fun m' hm' _ ha => ?_))
        rcases ha with hcnt | ⟨p, d, hd, hseq, hlast⟩
        · rw [← Option.some.inj (hm.symm.trans hm')] at hcnt
          omega
        · exact hcut ⟨p, d, hd, hseq, hlast⟩
      · exact h
    · exact h
  | prune =>
    refine ⟨h.onward, h.stages, fun hs => h.seen ?_⟩
    simp only [Cluster.step, pruneExpired] at hs
    cases hrow : s.seenClaims key with
    | none => simp [hrow] at hs
    | some expiresAt => rfl
  | tick seconds | moveTask taskId status => exact ⟨h.onward, h.stages, h.seen⟩

end

-- ==== standing marks

def LookedOk : Stage → Prop
  | .looked _ seen stood => seen = .absent → stood = false
  | _ => True

/-- A status found standing does not allow FAILED; a mark that has not expired has its row, and
no look-up that went through missed one. -/
structure Records (s : Cluster) : Prop where
  handled : ∀ key status, (key, Handling.stands status) ∈ s.handled →
    ¬ taskMachine.Allows status .failed
  rows : ∀ key expiresAt, s.marks key = some expiresAt → s.clock ≤ expiresAt →
    s.seenClaims key = some expiresAt
  looked : ∀ p, LookedOk (s.stages p)
  starts : ∀ st ∈ s.starts, st.seen = .failed ∨ st.stood = false

theorem Records.setStage (p : Party) (stage : Stage) (h : s.Records) (hs : LookedOk stage) :
    (s.setStage p stage).Records := by
  refine ⟨h.handled, h.rows, fun q => ?_, h.starts⟩
  by_cases hq : q = p
  · subst hq
    simpa [Cluster.setStage] using hs
  · simpa [Cluster.setStage, hq] using h.looked q

theorem Records.absent (h : s.Records) (hrow : s.seenClaims key = none) : s.stands key = false := by
  unfold stands
  cases hmark : s.marks key with
  | none => rfl
  | some expiresAt =>
    simp only [Option.any_some, decide_eq_false_iff_not]
    intro hc
    simp [h.rows key expiresAt hmark hc] at hrow

theorem Records.markSeen (h : s.Records) : (s.markSeen config key).Records := by
  unfold Cluster.markSeen
  split
  · exact h
  · refine ⟨h.handled, fun key' expiresAt hmark hc => ?_, h.looked, h.starts⟩
    by_cases hkey : key' = key
    · subst hkey
      simpa using hmark
    · simp only [update_of_ne hkey] at hmark ⊢
      exact h.rows key' expiresAt hmark hc

/-- STEP LEMMA of the records. -/
theorem Records.step (h : s.Records) : (Cluster.step config s e).Records := by
  cases e with
  | dispatch claim =>
    simp only [Cluster.step, Cluster.publishClaim]
    split
    · exact h
    · exact ⟨h.handled, h.rows, h.looked, h.starts⟩
  | deliver p seq =>
    simp only [Cluster.step, Cluster.fetch]
    split
    next m hidle hm =>
      split
      · have h' := h.setStage p (.looking ⟨seq, m.claim, m.numDelivered + 1⟩) trivial
        exact ⟨h.handled, h.rows, h'.looked, h.starts⟩
      · exact h
    · exact h
  | lookUp p reply =>
    simp only [Cluster.step, Cluster.lookUp]
    split
    next d hp =>
      cases reply with
      | answered =>
        refine h.setStage _ _ fun ha => h.absent ?_
        cases hrow : s.seenClaims d.claim.idempotencyKey with
        | none => rfl
        | some expiresAt => simp [hrow] at ha
      | retryable => exact h.setStage _ _ fun ha => by cases ha
      | permanent => exact h.setStage _ _ trivial
    · exact h
  | resume p =>
    simp only [Cluster.step, Cluster.resume]
    have hok := h.looked p
    split
    · exact h.setStage _ _ trivial
    next d seen stood hne hp =>
      rw [hp] at hok
      have hwork := h.setStage p (.working d) trivial
      cases p with
      | worker number =>
        refine ⟨hwork.handled, hwork.rows, hwork.looked, fun st hst => ?_⟩
        rcases mem_cons.1 hst with rfl | hst
        · cases seen with
          | present => exact absurd rfl hne
          | absent => exact .inr (hok rfl)
          | failed => exact .inl rfl
        · exact h.starts st hst
      | consumer => exact hwork
    · exact h
  | report number status =>
    simp only [Cluster.step, Cluster.report]
    split
    next d hp =>
      have hmark := h.setStage (.worker number) (.marking d) trivial
      cases status with
      | success | failed => exact ⟨hmark.handled, hmark.rows, hmark.looked, hmark.starts⟩
      | retry =>
        show Records (if _ then _ else _)
        split
        · exact h.setStage _ _ trivial
        · exact h.setStage _ _ trivial
    · exact h
  | settle engine =>
    simp only [Cluster.step, Cluster.settle]
    split
    next d hp =>
      cases engine with
      | running =>
        have hmark := h.setStage .consumer (.marking d) trivial
        refine ⟨fun key status hmem => ?_, hmark.rows, hmark.looked, hmark.starts⟩
        rcases mem_cons.1 hmem with heq | hmem
        · have hf : s.failTask d.claim.taskId = .stands status := (Prod.ext_iff.1 heq).2.symm
          unfold failTask at hf
          split at hf
          · cases hf
          · split at hf
            · cases hf
            next hnot =>
              cases hf
              exact hnot
        · exact h.handled key status hmem
      | unavailable =>
        show Records (if _ then _ else _)
        split
        · exact h.setStage _ _ trivial
        · exact h.setStage _ _ trivial
      | unmapped => exact h.setStage _ _ trivial
    · exact h
  | mark p reply =>
    simp only [Cluster.step, Cluster.markCompleted]
    split
    next d hp =>
      cases reply with
      | answered => exact (h.setStage p (.acking d) trivial).markSeen
      | retryable | permanent => exact h.setStage _ _ trivial
    · exact h
  | publishDead number result =>
    simp only [Cluster.step, Cluster.deadLetter]
    split
    next d hp =>
      have hack := h.setStage (.worker number) (.acking d) trivial
      have hidle := h.setStage (.worker number) .idle trivial
      cases result with
      | stored => exact ⟨hack.handled, hack.rows, hack.looked, hack.starts⟩
      | storedUnseen => exact ⟨hidle.handled, hidle.rows, hidle.looked, hidle.starts⟩
      | failed => exact hidle
    · exact h
  | finalize p arrives =>
    simp only [Cluster.step, Cluster.finalizeClaim]
    have hidle := h.setStage p .idle trivial
    split
    · cases arrives with
      | true => exact ⟨hidle.handled, hidle.rows, hidle.looked, hidle.starts⟩
      | false => exact hidle
    · exact hidle
    · exact h
  | crash p => exact h.setStage _ _ trivial
  | terminate seq =>
    simp only [Cluster.step, Cluster.terminate]
    split
    · split
      · exact ⟨h.handled, h.rows, h.looked, h.starts⟩
      · exact h
    · exact h
  | prune =>
    refine ⟨h.handled, fun key expiresAt hmark hc => ?_, h.looked, h.starts⟩
    -- a row goes only after its expiry
    simp only [Cluster.step, Cluster.pruneExpired] at hmark hc ⊢
    simp [h.rows key expiresAt hmark hc, hc]
  | tick seconds =>
    refine ⟨h.handled, fun key expiresAt hmark hc => ?_, h.looked, h.starts⟩
    exact h.rows key expiresAt hmark (Nat.le_of_add_right_le hc)
  | moveTask taskId status => exact ⟨h.handled, h.rows, h.looked, h.starts⟩

-- ==== whole runs

/-- RUN LEMMA: whatever happens, the records are kept. -/
theorem records_of_run (config : QueueConfig) (tasks : String → Option TaskStatus)
    (events : List Event) : (Run.final (Cluster.step config) (start tasks) events).Records := by
  refine Run.kept (P := Records) (fun s e h => h.step) ⟨?_, ?_, ?_, ?_⟩ events
  · intro key status hmem
    cases hmem
  · intro key expiresAt hmark
    cases hmark
  · exact fun _ => trivial
  · intro st hst
    cases hst

/-- RUN LEMMA: no last delivery of the key is cut short. -/
theorem inv_of_run {tasks : String → Option TaskStatus} {events : List Event}
    (hu : Run.Throughout (Cluster.step config) (fun s e => ¬ CutsShort config key s e)
      (start tasks) events) :
    (Run.final (Cluster.step config) (start tasks) events).Inv config key := by
  have hstart : (start tasks).Inv config key ∧ (start tasks).Books := by
    refine ⟨⟨fun hd => ?_, fun _ => trivial, fun hs => ?_⟩, ⟨fun _ _ hm => ?_, fun _ _ hd => ?_⟩⟩
    · cases hd
    · cases hs
    · cases hm
    · cases hd
  have hstates := Run.throughout_states (P := fun s => s.Inv config key ∧ s.Books)
    (fun s e hok h => ⟨h.1.step h.2 hok, h.2.step⟩) hu hstart
  exact (hstates _ (Run.final_mem_states _ _ _)).1

theorem Gone.not_live (h : s.Gone key) : ¬ Live config key s subject := by
  rintro ⟨seq, m, hm, -, hkey, -⟩
  exact h seq m hm hkey

/-- A dispatched claim on neither subject was reported by its executor, or the consumer moved
its task to FAILED or found it missing or where FAILED does not follow, provided no last
delivery of it was cut short. Whatever the run, an executor starts only after a look-up that
failed, or one that no standing mark preceded. -/
theorem claim_accounted_for (config : QueueConfig) (tasks : String → Option TaskStatus)
    (events : List Event) (key : String) :
    let s := Run.final (Cluster.step config) (start tasks) events
    (Run.Throughout (Cluster.step config) (fun s e => ¬ CutsShort config key s e)
        (start tasks) events →
      key ∈ s.dispatched → s.Gone key →
      key ∈ s.reported ∨ (key, Handling.moved) ∈ s.handled ∨ (key, Handling.missing) ∈ s.handled ∨
        ∃ status, (key, Handling.stands status) ∈ s.handled ∧
          ¬ taskMachine.Allows status .failed) ∧
    ∀ st ∈ s.starts, st.seen = .failed ∨ st.stood = false := by
  intro s
  have hrecords := records_of_run config tasks events
  refine ⟨fun huncut hdispatched hgone => ?_, hrecords.starts⟩
  rcases (inv_of_run huncut).onward hdispatched with hset | hlive | hlive
  · rcases hset with hreported | ⟨how, hhow⟩
    · exact Or.inl hreported
    · cases how with
      | moved => exact Or.inr (Or.inl hhow)
      | missing => exact Or.inr (Or.inr (Or.inl hhow))
      | stands status =>
        exact Or.inr (Or.inr (Or.inr ⟨status, hhow, hrecords.handled key status hhow⟩))
  · exact absurd hlive hgone.not_live
  · exact absurd hlive hgone.not_live

-- ==== short runs

/-- One worker asks for a retry of its last delivery; the claim is republished and driven. -/
def deadLettered : List Event :=
  [.dispatch ⟨"t", "k"⟩, .deliver (.worker 0) 0, .lookUp (.worker 0) .answered,
    .resume (.worker 0), .report 0 .retry, .publishDead 0 .stored, .finalize (.worker 0) true,
    .deliver .consumer 1, .lookUp .consumer .answered, .resume .consumer, .settle .running,
    .mark .consumer .answered, .finalize .consumer true]

theorem uncut_deadLettered (tasks : String → Option TaskStatus) :
    Run.Throughout (Cluster.step ⟨300, 1, by decide⟩)
      (fun s e => ¬ CutsShort ⟨300, 1, by decide⟩ "k" s e) (start tasks) deadLettered := by
  refine ⟨id, id, fun h => ?_, id, id, fun h => ?_, id, id, fun h => ?_, id, fun h => h.1 rfl,
    id, id, trivial⟩
  · cases h.1
  · cases h.1
  · cases h.1

theorem gone_deadLettered (tasks : String → Option TaskStatus) :
    (Run.final (Cluster.step ⟨300, 1, by decide⟩) (start tasks) deadLettered).Gone "k" := by
  intro seq m hm
  match seq with
  | 0 | 1 => cases hm
  | _ + 2 => cases hm

/-- A dead-lettered claim whose task was assigned ends with its task moved. -/
theorem claim_accounted_for_deadLettered :
    ("k", Handling.moved) ∈ (Run.final (Cluster.step ⟨300, 1, by decide⟩)
      (start fun _ => some .assigned) deadLettered).handled := by
  have h := (claim_accounted_for ⟨300, 1, by decide⟩ (fun _ => some .assigned) deadLettered "k").1
    (uncut_deadLettered _) (mem_singleton.2 rfl) (gone_deadLettered _)
  rcases h with h | h | h | ⟨status, h, -⟩
  · cases h
  · exact h
  · cases h with
    | tail _ h => cases h
  · cases h with
    | tail _ h => cases h

def restarted : List Event :=
  [.dispatch ⟨"t", "k"⟩, .deliver (.worker 0) 0, .lookUp (.worker 0) .answered,
    .resume (.worker 0), .report 0 .success, .mark (.worker 0) .answered,
    .finalize (.worker 0) false, .deliver (.worker 0) 0, .lookUp (.worker 0) .retryable,
    .resume (.worker 0)]

def lost : List Event :=
  [.dispatch ⟨"t", "k"⟩, .deliver (.worker 0) 0, .lookUp (.worker 0) .answered,
    .resume (.worker 0), .crash (.worker 0), .terminate 0]

/-- A task in review is taken for settled; an executor starts under a standing mark; and a claim
whose last delivery crashed is on neither subject. -/
theorem claim_not_accounted_for :
    (∃ s, s = Run.final (Cluster.step ⟨300, 1, by decide⟩) (start fun _ => some .inReview)
        deadLettered ∧
      "k" ∈ s.dispatched ∧ s.Gone "k" ∧ s.reported = [] ∧
      s.handled = [("k", .stands .inReview)]) ∧
    (∃ s, s = Run.final (Cluster.step ⟨300, 2, by decide⟩) (start fun _ => some .assigned)
        restarted ∧
      (⟨"k", .failed, true⟩ : Start) ∈ s.starts) ∧
    (∃ s, s = Run.final (Cluster.step ⟨300, 1, by decide⟩) (start fun _ => some .assigned) lost ∧
      "k" ∈ s.dispatched ∧ s.Gone "k" ∧ s.reported = [] ∧ s.handled = []) := by
  refine ⟨⟨_, rfl, by decide, gone_deadLettered _, rfl, by decide⟩, ⟨_, rfl, by decide⟩,
    ⟨_, rfl, by decide, fun seq m hm => ?_, rfl, rfl⟩⟩
  match seq with
  | 0 => cases hm
  | _ + 1 => cases hm

end Cluster

end Synthorg.Workers
