/-
A latched refusal stands for exactly its lookback.

A latch is COVERED by a latch of its pair that is not older. So every refusal within the window is
to be covered: by a record in memory or by what a restore has still to feed, and by a row of the
store or by a write that is awaited. Nothing that covers a refusal within the window is evicted,
and an upsert only replaces a row by one that covers as much.
-/
import Synthorg.Lib.Run
import Synthorg.Providers.Latches

namespace Synthorg.Providers.Latches

open Lib
open List

-- ==== records and latches

theorem fromRecord_toRecord (latch : LatchedFailure) :
    LatchedFailure.fromRecord latch.toRecord = some latch := by
  simp [LatchedFailure.fromRecord, LatchedFailure.toRecord, latch.outcome_latches]

theorem toRecord_of_fromRecord {record : ProviderHealthRecord} {latch : LatchedFailure}
    (h : LatchedFailure.fromRecord record = some latch) : latch.toRecord = record := by
  unfold LatchedFailure.fromRecord at h
  split at h
  next model message hmodel hm =>
    split at h
    next hl =>
      cases h
      have hf : record.success = false := by
        by_contra hsucc
        have hnone := record.consistent.1.1 (by simpa using hsucc)
        simp [hm] at hnone
      obtain ⟨hs, -⟩ := hl
      obtain ⟨provider, _, timestamp, _, outcomeClass, _, _, hcons⟩ := record
      dsimp only at hmodel hm hf hs
      subst hmodel hm hf hs
      rfl
    · cases h
  · cases h

theorem fromRecord_of_stands {p m : String} {now lookback : Int} {record : ProviderHealthRecord}
    (h : Tracker.stands p m now lookback record = true) :
    ∃ latch : LatchedFailure, latch.toRecord = record ∧ latch.pair = (p, m) := by
  simp only [Tracker.stands, Bool.and_eq_true, beq_iff_eq] at h
  obtain ⟨⟨⟨⟨⟨hp, hm⟩, hs⟩, hl⟩, -⟩, -⟩ := h
  have hf : record.errorMessage ≠ none := by
    intro hnone
    have hc := record.consistent.2.1 (record.consistent.1.2 hnone)
    rw [hc] at hl
    cases hl
  obtain ⟨message, hmessage⟩ := Option.ne_none_iff_exists'.1 hf
  have hlatch : LatchedFailure.fromRecord record =
      some ⟨record.providerName, m, record.outcomeClass, record.timestamp, message, hl⟩ := by
    simp [LatchedFailure.fromRecord, hm, hmessage, hs, hl]
  exact ⟨_, toRecord_of_fromRecord hlatch, by rw [LatchedFailure.pair, hp]⟩

-- ==== covering

/-- A latch of the pair that is as late is stored. -/
def Covers (rows : List LatchedFailure) (latch : LatchedFailure) : Prop :=
  ∃ row ∈ rows, row.pair = latch.pair ∧ latch.occurredAt ≤ row.occurredAt

variable {latch other : LatchedFailure} {rows stored : List LatchedFailure}

theorem Covers.mono (h : Covers rows latch) (hsub : ∀ row ∈ rows, row ∈ stored) :
    Covers stored latch := by
  obtain ⟨row, hrow, hc⟩ := h
  exact ⟨row, hsub row hrow, hc⟩

theorem covers_append :
    Covers (rows ++ stored) latch ↔ Covers rows latch ∨ Covers stored latch := by
  simp only [Covers, mem_append, or_and_right, exists_or]

theorem covers_cons : Covers (other :: rows) latch ↔
    (other.pair = latch.pair ∧ latch.occurredAt ≤ other.occurredAt) ∨ Covers rows latch := by
  simp only [Covers, mem_cons, or_and_right, exists_or, exists_eq_left]

theorem covers_upsert_self (latch : LatchedFailure) (rows : List LatchedFailure) :
    Covers (upsert latch rows) latch := by
  induction rows with
  | nil => exact ⟨latch, mem_singleton_self latch, rfl, le_rfl⟩
  | cons row rest ih =>
    unfold upsert
    split
    next hpair =>
      split
      next hb =>
        have hlt := (IsoText.before_iff _ _).1 hb
        exact covers_cons.2 (.inl ⟨hpair, hlt.le⟩)
      · exact covers_cons.2 (.inl ⟨rfl, le_rfl⟩)
    · split
      · exact covers_cons.2 (.inl ⟨rfl, le_rfl⟩)
      · exact covers_cons.2 (.inr ih)

theorem Covers.upsert (offset : Nat) (h : Covers (rows.drop offset) latch) :
    Covers ((upsert other rows).drop offset) latch := by
  induction rows generalizing offset with
  | nil =>
    rw [drop_nil] at h
    obtain ⟨row, hrow, -⟩ := h
    cases hrow
  | cons row rest ih =>
    unfold Latches.upsert
    cases offset with
    | zero =>
      rcases covers_cons.1 h with ⟨hpair, hle⟩ | hrest
      · split
        next hsame =>
          split
          · exact covers_cons.2 (.inl ⟨hpair, hle⟩)
          next hnot =>
            have hge := not_lt.1 (mt (IsoText.before_iff _ _).2 hnot)
            exact covers_cons.2 (.inl ⟨hsame.symm.trans hpair, hle.trans hge⟩)
        · split
          · exact covers_cons.2 (.inr (covers_cons.2 (.inl ⟨hpair, hle⟩)))
          · exact covers_cons.2 (.inl ⟨hpair, hle⟩)
      · split
        · split
          · exact covers_cons.2 (.inr hrest)
          · exact covers_cons.2 (.inr hrest)
        · split
          · exact covers_cons.2 (.inr (covers_cons.2 (.inr hrest)))
          · exact covers_cons.2 (.inr (ih 0 hrest))
    | succ offset =>
      split
      · split
        · exact h
        · exact h
      · split
        · -- the rows are pushed on by one
          refine h.mono fun row' hrow => ?_
          have hdrop : rest.drop offset = ((row :: rest).drop offset).drop 1 := by
            rw [drop_drop, drop_succ_cons]
          exact mem_of_mem_drop (hdrop ▸ hrow)
        · exact ih offset h

theorem Covers.purge {threshold : Int} (h : Covers rows latch)
    (hle : threshold ≤ latch.occurredAt) :
    Covers (purgeBefore threshold rows) latch := by
  obtain ⟨row, hrow, hpair, hrec⟩ := h
  refine ⟨row, mem_filter.2 ⟨hrow, ?_⟩, hpair, hrec⟩
  have hnot : ¬ IsoText.before row.occurredAt threshold = true := by
    rw [IsoText.before_iff]
    omega
  simpa using hnot

theorem mem_upsert {row : LatchedFailure} (h : row ∈ upsert latch rows) :
    row = latch ∨ row ∈ rows := by
  induction rows with
  | nil => exact .inl (mem_singleton.1 h)
  | cons first rest ih =>
    unfold upsert at h
    split at h
    · split at h
      · exact .inr h
      · rcases mem_cons.1 h with rfl | h
        · exact .inl rfl
        · exact .inr (mem_cons_of_mem _ h)
    · split at h
      · exact mem_cons.1 h
      · rcases mem_cons.1 h with rfl | h
        · exact .inr mem_cons_self
        · exact (ih h).imp_right (mem_cons_of_mem _)

-- ==== the invariant

/-- What a restore has in its hands. -/
def Restore.latches : Restore → List LatchedFailure
  | .loading _ stored => stored
  | .releasing _ live | .feeding live => live
  | .persisting latch live => latch :: live

/-- What a restore will still feed. -/
def Restore.toCome (rows : List LatchedFailure) : Restore → List LatchedFailure
  | .loading offset stored => stored ++ rows.drop offset
  | .releasing _ live | .feeding live | .persisting _ live => live

namespace Tracker

variable {threshold pageSize : Nat} {s : Tracker} {latch : LatchedFailure}

/-- A latch of the pair that is as late is among the records. -/
def Remembers (s : Tracker) (latch : LatchedFailure) : Prop :=
  ∃ other : LatchedFailure, other.toRecord ∈ s.records ∧ other.pair = latch.pair ∧
    latch.occurredAt ≤ other.occurredAt

/-- THE INVARIANT: what is kept of a latch was recorded, and what is recent is covered twice. -/
structure Inv (s : Tracker) : Prop where
  records : ∀ r ∈ s.records, r ∈ s.recorded
  rows : ∀ l ∈ s.rows, l.toRecord ∈ s.recorded
  writes : ∀ l ∈ s.writes, l.toRecord ∈ s.recorded
  restore : ∀ restore, s.restoring = some restore → ∀ l ∈ restore.latches, l.toRecord ∈ s.recorded
  past : ∀ r ∈ s.recorded, r.timestamp ≤ s.clock
  cutoff : ∀ cutoff live, s.restoring = some (.releasing cutoff live) →
    cutoff ≤ s.clock - healthWindow
  durable : ∀ l : LatchedFailure, l.toRecord ∈ s.recorded → s.clock - healthWindow ≤ l.occurredAt →
    Covers s.rows l ∨ l ∈ s.writes
  remembered : ∀ l : LatchedFailure, l.toRecord ∈ s.recorded →
    s.clock - healthWindow ≤ l.occurredAt → s.Remembers l ∨
      ∃ restore, s.restoring = some restore ∧ Covers (restore.toCome s.rows) l

variable {cutoff : Int} {live : List LatchedFailure} {input : Input}

theorem Remembers.prune (h : s.Remembers latch) (hle : cutoff ≤ latch.occurredAt) :
    (s.pruneBefore cutoff).Remembers latch := by
  obtain ⟨other, hmem, hpair, hrec⟩ := h
  refine ⟨other, mem_filter.2 ⟨hmem, ?_⟩, hpair, hrec⟩
  exact decide_eq_true (hle.trans hrec)

theorem Inv.prune (h : s.Inv) (hle : cutoff ≤ s.clock - healthWindow) :
    (s.pruneBefore cutoff).Inv :=
  { h with
    records := fun r hr => h.records r (mem_of_mem_filter hr)
    remembered := fun l hl hrec => (h.remembered l hl hrec).imp_left fun hold =>
      hold.prune (hle.trans hrec) }

theorem append_remembers {record : ProviderHealthRecord} (hpast : record.timestamp ≤ s.clock)
    (hrec : s.clock - healthWindow ≤ latch.occurredAt)
    (h : s.Remembers latch ∨ ∃ other : LatchedFailure, other.toRecord = record ∧
      other.pair = latch.pair ∧ latch.occurredAt ≤ other.occurredAt) :
    (s.append threshold record).Remembers latch := by
  have hb : Remembers { s with
      records := s.records ++ [record]
      appendsSincePrune := s.appendsSincePrune + 1 } latch := by
    rcases h with ⟨other, hmem, hc⟩ | ⟨other, hr, hc⟩
    · exact ⟨other, mem_append_left _ hmem, hc⟩
    · exact ⟨other, mem_append_right _ (mem_singleton.2 hr), hc⟩
  unfold append
  dsimp only
  split
  · exact hb.prune (by omega)
  · exact hb

theorem mem_append {record r : ProviderHealthRecord} (h : r ∈ (s.append threshold record).records) :
    r ∈ s.records ∨ r = record := by
  unfold append at h
  dsimp only at h
  split at h
  · exact (List.mem_append.1 (mem_of_mem_filter h)).imp_right mem_singleton.1
  · exact (List.mem_append.1 h).imp_right mem_singleton.1

theorem append_eq (threshold : Nat) (s : Tracker) (record : ProviderHealthRecord) :
    s.append threshold record = { s with
      records := (s.append threshold record).records
      appendsSincePrune := (s.append threshold record).appendsSincePrune } := by
  unfold append
  dsimp only
  split <;> rfl

-- ==== the steps

theorem Inv.append {record : ProviderHealthRecord} (h : s.Inv) (hrecord : record ∈ s.recorded) :
    (s.append threshold record).Inv := by
  have hpast := h.past record hrecord
  have hrecs : ∀ r ∈ (s.append threshold record).records, r ∈ s.recorded := fun r hr =>
    (mem_append hr).elim (h.records r) fun heq => heq ▸ hrecord
  have hremembers : ∀ l : LatchedFailure, s.clock - healthWindow ≤ l.occurredAt → s.Remembers l →
      (s.append threshold record).Remembers l := fun l hrec hold =>
    append_remembers hpast hrec (.inl hold)
  rw [append_eq] at hremembers hrecs ⊢
  exact { h with
    records := hrecs
    remembered := fun l hl hrec => (h.remembered l hl hrec).imp_left (hremembers l hrec) }

theorem Inv.enroll {records : List ProviderHealthRecord} {appends : Nat}
    {writes : List LatchedFailure} {record : ProviderHealthRecord} (h : s.Inv)
    (hpast : record.timestamp ≤ s.clock) (hrecs : ∀ r ∈ records, r ∈ record :: s.recorded)
    (hr : ∀ l : LatchedFailure, s.clock - healthWindow ≤ l.occurredAt →
      s.Remembers l ∨ l.toRecord = record → Remembers { s with records := records } l)
    (hw : ∀ l ∈ s.writes, l ∈ writes)
    (hnew : ∀ l ∈ writes, l ∈ s.writes ∨ l.toRecord = record)
    (hlatch : ∀ l : LatchedFailure, l.toRecord = record → l ∈ writes) :
    Inv { s with
      records := records
      appendsSincePrune := appends
      writes := writes
      recorded := record :: s.recorded } where
  records := hrecs
  rows := fun l hl => mem_cons_of_mem _ (h.rows l hl)
  writes := fun l hl => by
    rcases hnew l hl with hold | heq
    · exact mem_cons_of_mem _ (h.writes l hold)
    · exact heq ▸ mem_cons_self
  restore := fun restore hrestore l hl => mem_cons_of_mem _ (h.restore restore hrestore l hl)
  past := forall_mem_cons.2 ⟨hpast, h.past⟩
  cutoff := h.cutoff
  durable := fun l hl hrec => by
    rcases mem_cons.1 hl with heq | hold
    · exact .inr (hlatch l heq)
    · exact (h.durable l hold hrec).imp_right (hw l)
  remembered := fun l hl hrec => by
    rcases mem_cons.1 hl with heq | hold
    · exact .inl (hr l hrec (.inr heq))
    · exact (h.remembered l hold hrec).imp_left fun hold => hr l hrec (.inl hold)

theorem Inv.record {record : ProviderHealthRecord} (h : s.Inv)
    (hpast : record.timestamp ≤ s.clock) :
    Inv { s.record threshold record with recorded := record :: s.recorded } := by
  have ha := append_eq threshold s record
  have hrecs : ∀ r ∈ (s.append threshold record).records, r ∈ record :: s.recorded := by
    intro r hr
    rcases mem_append hr with hold | rfl
    · exact mem_cons_of_mem _ (h.records r hold)
    · exact mem_cons_self
  have hremembers : ∀ l : LatchedFailure, s.clock - healthWindow ≤ l.occurredAt →
      s.Remembers l ∨ l.toRecord = record → (s.append threshold record).Remembers l :=
    fun l hrec hor => append_remembers hpast hrec
      (hor.imp_right fun heq => ⟨l, heq, rfl, le_rfl⟩)
  unfold Tracker.record
  rw [ha] at hremembers ⊢
  cases hlatch : LatchedFailure.fromRecord record with
  | none =>
    refine h.enroll hpast hrecs hremembers (fun _ hl => hl) (fun _ => Or.inl) fun l heq => ?_
    simp [← heq, fromRecord_toRecord] at hlatch
  | some latch =>
    refine h.enroll hpast hrecs hremembers (fun _ hl => mem_append_left _ hl)
      (fun l hl => ?_) fun l heq => ?_
    · refine (List.mem_append.1 hl).imp_right fun hl => ?_
      rw [mem_singleton.1 hl]
      exact toRecord_of_fromRecord hlatch
    · rw [← heq, fromRecord_toRecord] at hlatch
      cases hlatch
      exact mem_append_right _ (mem_singleton_self latch)

theorem Inv.upsert (h : s.Inv) (hr : latch.toRecord ∈ s.recorded) :
    Inv { s with rows := Latches.upsert latch s.rows } :=
  { h with
    rows := fun l hl => by
      rcases mem_upsert hl with rfl | hold
      · exact hr
      · exact h.rows l hold
    durable := fun l hl hrec => (h.durable l hl hrec).imp_left fun hold => by
      have hfrom : Covers (s.rows.drop 0) l := hold
      exact hfrom.upsert 0
    remembered := fun l hl hrec => by
      refine (h.remembered l hl hrec).imp_right fun hcome => ?_
      obtain ⟨restore, hrestore, hc⟩ := hcome
      refine ⟨restore, hrestore, ?_⟩
      cases restore with
      | loading offset stored =>
        exact covers_append.2 ((covers_append.1 hc).imp_right fun hold =>
          hold.upsert offset)
      | releasing cutoff live | feeding live => exact hc
      | persisting latch live => exact hc }

theorem Inv.write {index : Nat} (h : s.Inv) : (s.write index).Inv := by
  unfold Tracker.write
  split
  next written hw =>
    have hmem : written ∈ s.writes := mem_of_getElem? hw
    have h' := h.upsert (h.writes written hmem)
    exact { h' with
      writes := fun l hl => h.writes l (mem_of_mem_eraseIdx hl)
      durable := fun l hl hrec => by
        rcases h'.durable l hl hrec with hc | ha
        · exact .inl hc
        · obtain ⟨i, hi⟩ := mem_iff_getElem?.1 ha
          by_cases heq : i = index
          · subst heq
            cases hi.symm.trans hw
            exact .inl (covers_upsert_self written s.rows)
          · refine .inr (mem_eraseIdx_iff_getElem?.2 ⟨i, heq, hi⟩) }
  · exact h

theorem Inv.restoring {next : Option Restore} (h : s.Inv)
    (hlatches : ∀ restore, next = some restore → ∀ l ∈ restore.latches, l.toRecord ∈ s.recorded)
    (hcut : ∀ cutoff live, next = some (.releasing cutoff live) →
      cutoff ≤ s.clock - healthWindow)
    (hcome : ∀ restore, s.restoring = some restore → ∀ l : LatchedFailure,
      s.clock - healthWindow ≤ l.occurredAt → Covers (restore.toCome s.rows) l → s.Remembers l ∨
        ∃ restore', next = some restore' ∧ Covers (restore'.toCome s.rows) l) :
    Inv { s with restoring := next } :=
  { h with
    restore := hlatches
    cutoff := hcut
    remembered := fun l hl hrec => by
      rcases h.remembered l hl hrec with hold | ⟨restore, hr, hc⟩
      · exact .inl hold
      · exact hcome restore hr l hrec hc }

theorem Inv.loaded {offset : Nat} {stored all : List LatchedFailure} (h : s.Inv)
    (hres : s.restoring = some (.loading offset stored)) (hall : ∀ l ∈ all, l.toRecord ∈ s.recorded)
    (hc : ∀ l, Covers (stored ++ s.rows.drop offset) l → Covers all l) : (s.loaded all).Inv := by
  refine h.restoring (fun restore heq l hl => ?_) (fun cutoff live heq => ?_)
    fun restore heq l hrec hcome => ?_
  · cases heq
    exact hall l (mem_of_mem_filter hl)
  · cases heq
    exact le_rfl
  · cases hres.symm.trans heq
    obtain ⟨row, hrow, hpair, hle⟩ := hc l hcome
    refine .inr ⟨_, rfl, row, mem_filter.2 ⟨hrow, ?_⟩, hpair, hle⟩
    exact decide_eq_true (hrec.trans hle)

theorem feed_covers (h : Covers live latch) :
    ∃ restore, feed live = some restore ∧ Covers (restore.toCome rows) latch := by
  cases live with
  | nil =>
    obtain ⟨row, hrow, -⟩ := h
    cases hrow
  | cons first rest => exact ⟨_, rfl, h⟩

theorem mem_feed {restore : Restore} (h : feed live = some restore) : restore.latches = live := by
  cases live with
  | nil => cases h
  | cons first rest =>
    cases h
    rfl

theorem Inv.goOn (h : s.Inv) : (s.goOn threshold pageSize).Inv := by
  unfold Tracker.goOn
  split
  · exact h
  · -- a page is read
    next offset stored hres =>
      have hs := h.restore _ hres
      have hpage : ∀ l ∈ stored ++ (s.rows.drop offset).take pageSize, l.toRecord ∈ s.recorded := by
        intro l hl
        rcases List.mem_append.1 hl with hl | hl
        · exact hs l hl
        · exact h.rows l (mem_of_mem_drop (mem_of_mem_take hl))
      dsimp only
      split
      next hshort =>
        refine h.loaded hres hpage fun l hc => ?_
        have hw : (s.rows.drop offset).take pageSize = s.rows.drop offset :=
          take_of_length_le (by rw [length_take] at hshort; omega)
        rwa [hw]
      · refine h.restoring (fun restore heq l hl => ?_) nofun
          fun restore heq l _ hcome => .inr ⟨_, rfl, ?_⟩
        · cases heq
          exact hpage l hl
        · cases hres.symm.trans heq
          refine hcome.mono fun row hrow => ?_
          show row ∈ stored ++ (s.rows.drop offset).take pageSize ++ s.rows.drop (offset + pageSize)
          rw [append_assoc, ← drop_drop, take_append_drop]
          exact hrow
  · -- what the window has passed is released
    next cutoff live hres =>
      have hcut := h.cutoff cutoff live hres
      have hlive := h.restore _ hres
      have h' : Inv { s with restoring := feed live } := h.restoring
        (fun restore heq l hl => hlive l (mem_feed heq ▸ hl))
        (fun _ _ heq => by cases live <;> cases heq) fun restore heq l _ hcome => by
          cases hres.symm.trans heq
          exact .inr (feed_covers hcome)
      exact { h' with
        rows := fun l hl => h.rows l (mem_of_mem_filter hl)
        durable := fun l hl hrec => (h.durable l hl hrec).imp_left fun hold =>
          hold.purge (hcut.trans hrec)
        remembered := fun l hl hrec => by
          refine (h'.remembered l hl hrec).imp_right fun hcome => ?_
          obtain ⟨restore, hr, hc⟩ := hcome
          refine ⟨restore, hr, ?_⟩
          cases live with
          | nil => cases hr
          | cons first rest =>
            cases hr
            exact hc }
  next hres =>
    refine h.restoring nofun nofun fun restore heq l _ hcome => ?_
    cases hres.symm.trans heq
    obtain ⟨row, hrow, -⟩ := hcome
    cases hrow
  · -- a latch goes through `record`
    next fed live hres =>
      have hfed := h.restore _ hres
      have hrecorded := hfed fed mem_cons_self
      have hpast := h.past _ hrecorded
      have ha : (s.append threshold fed.toRecord).Inv := h.append hrecorded
      have hremembers : ∀ l : LatchedFailure, s.clock - healthWindow ≤ l.occurredAt →
          fed.pair = l.pair ∧ l.occurredAt ≤ fed.occurredAt →
            (s.append threshold fed.toRecord).Remembers l := fun l hrec hc =>
        append_remembers hpast hrec (.inr ⟨fed, rfl, hc⟩)
      rw [append_eq] at ha hremembers ⊢
      refine ha.restoring (fun restore heq l hl => ?_) nofun fun restore heq l hrec hcome => ?_
      · cases heq
        exact hfed l hl
      · cases hres.symm.trans heq
        rcases covers_cons.1 hcome with hc | hrest
        · exact .inl (hremembers l hrec hc)
        · exact .inr ⟨_, rfl, hrest⟩
  next fed live hres =>
    have hlive := h.restore _ hres
    have h' := h.upsert (hlive fed mem_cons_self)
    refine h'.restoring (fun restore heq l hl => ?_) (fun _ _ heq => by cases live <;> cases heq)
      fun restore heq l _ hcome => ?_
    · rw [mem_feed heq] at hl
      exact hlive l (mem_cons_of_mem _ hl)
    · cases hres.symm.trans heq
      exact .inr (feed_covers hcome)

/-- No write is cut off by a restart. -/
def WritesSucceed (s : Tracker) : Input → Prop
  | .restart => s.writes = []
  | _ => True

theorem Inv.restart (h : s.Inv) (hw : s.writes = []) : s.restart.Inv where
  records := nofun
  rows := h.rows
  writes := nofun
  restore := fun restore heq l hl => by
    cases heq
    cases hl
  past := h.past
  cutoff := nofun
  durable := fun l hl hrec => .inl ((h.durable l hl hrec).resolve_right
    (by rw [hw]; exact not_mem_nil))
  remembered := fun l hl hrec => by
    have hrow := (h.durable l hl hrec).resolve_right (by rw [hw]; exact not_mem_nil)
    exact .inr ⟨_, rfl, hrow⟩

theorem Inv.tick {elapsed : Nat} (h : s.Inv) : Inv { s with clock := s.clock + elapsed } :=
  { h with
    past := fun r hr => (h.past r hr).trans (by dsimp only; omega)
    cutoff := fun cutoff live heq => (h.cutoff cutoff live heq).trans (by dsimp only; omega)
    durable := fun l hl hrec => h.durable l hl (by dsimp only at hrec; omega)
    remembered := fun l hl hrec => h.remembered l hl (by dsimp only at hrec; omega) }

theorem Inv.snapshot (h : s.Inv) : (s.snapshot threshold).Inv := by
  unfold Tracker.snapshot
  split
  · exact h.prune le_rfl
  · exact h

/-- STEP LEMMA. -/
theorem Inv.step (h : s.Inv) (hw : s.WritesSucceed input) :
    (Tracker.step threshold pageSize s input).Inv := by
  cases input with
  | record record =>
    simp only [Tracker.step]
    split
    next hpast => exact h.record hpast
    · exact h
  | write index => exact h.write
  | prune => exact h.prune le_rfl
  | read providerName model thresholds => exact h.snapshot
  | restart => exact h.restart hw
  | goOn => exact h.goOn
  | tick elapsed => exact h.tick

theorem new_inv (clock : Int) : (new clock).Inv where
  records := nofun
  rows := nofun
  writes := nofun
  restore := nofun
  past := nofun
  cutoff := nofun
  durable := nofun
  remembered := nofun

-- ==== the answer

/-- The latest latching record of the pair that stands within the look-back. -/
def latchedSince (s : Tracker) (providerName model : String) (lookback : Int) : Option Int :=
  ((s.recorded.filter (stands providerName model s.clock lookback)).map
    ProviderHealthRecord.timestamp).max?

theorem argmax_max? {α : Type*} (f : α → Int) (xs : List α) :
    (@List.argmax _ Int Int.instLinearOrder.toPreorder _ f xs).map f = (xs.map f).max? := by
  cases harg : @List.argmax _ Int Int.instLinearOrder.toPreorder _ f xs with
  | none =>
    rw [argmax_eq_none.1 harg]
    rfl
  | some x =>
    have hmem : x ∈ xs := argmax_mem harg
    refine (max?_eq_some_iff.2 ⟨mem_map_of_mem hmem, fun b hb => ?_⟩).symm
    obtain ⟨y, hy, rfl⟩ := mem_map.1 hb
    exact le_of_mem_argmax hy harg

theorem max?_congr {xs ys : List Int} (hxs : ∀ x ∈ xs, ∃ y ∈ ys, x ≤ y)
    (hys : ∀ y ∈ ys, ∃ x ∈ xs, y ≤ x) : xs.max? = ys.max? := by
  cases hx : xs.max? with
  | none =>
    have hnil := List.max?_eq_none_iff.1 hx
    cases hy : ys.max? with
    | none => rfl
    | some y =>
      obtain ⟨x, hmem, -⟩ := hys y (List.max?_mem hy)
      simp [hnil] at hmem
  | some x =>
    obtain ⟨hmem, hge⟩ := max?_eq_some_iff.1 hx
    obtain ⟨y, hy, hle⟩ := hxs x hmem
    have hge' : ∀ b ∈ ys, b ≤ x := fun b hb => by
      obtain ⟨a, ha, hab⟩ := hys b hb
      exact hab.trans (hge a ha)
    have heq : y = x := le_antisymm (hge' y hy) hle
    exact (max?_eq_some_iff.2 ⟨heq ▸ hy, hge'⟩).symm

theorem Inv.answers (h : s.Inv) (hrestore : s.restoring = none) (providerName model : String)
    (thresholds : ServiceabilityThresholds) :
    (s.getServiceability threshold providerName model thresholds).2.map Prod.snd =
      s.latchedSince providerName model thresholds.latchLookback := by
  have h' : (s.snapshot threshold).Inv := h.snapshot
  have hc : (s.snapshot threshold).clock = s.clock := by
    unfold Tracker.snapshot
    split <;> rfl
  have hrecord : (s.snapshot threshold).recorded = s.recorded := by
    unfold Tracker.snapshot
    split <;> rfl
  have hnone : (s.snapshot threshold).restoring = none := by
    unfold Tracker.snapshot
    split <;> exact hrestore
  have hlook := thresholds.bounds.2
  unfold getServiceability latchedFailure latchedSince
  rw [Option.map_map, hc]
  refine (argmax_max? ProviderHealthRecord.timestamp _).trans (max?_congr ?_ ?_)
  · intro t ht
    obtain ⟨r, hr, rfl⟩ := mem_map.1 ht
    obtain ⟨hmem, hs⟩ := mem_filter.1 hr
    refine ⟨r.timestamp, mem_map_of_mem (mem_filter.2 ⟨?_, hs⟩), le_rfl⟩
    exact hrecord ▸ h'.records r hmem
  · -- a refusal within the lookback is covered by a record in memory
    intro t ht
    obtain ⟨r, hr, rfl⟩ := mem_map.1 ht
    obtain ⟨hmem, hs⟩ := mem_filter.1 hr
    obtain ⟨latch, rfl, hpair⟩ := fromRecord_of_stands hs
    have hwith : s.clock - thresholds.latchLookback ≤ latch.occurredAt := by
      simp only [stands, Bool.and_eq_true, decide_eq_true_eq] at hs
      exact hs.1.2
    have hcovers := h'.remembered latch (hrecord ▸ hmem) (by omega)
    rcases hcovers with ⟨other, ho, hsame, hle⟩ | ⟨restore, he, -⟩
    · refine ⟨other.occurredAt, mem_map.2 ⟨other.toRecord, mem_filter.2 ⟨ho, ?_⟩, rfl⟩, hle⟩
      have hpast := h.past _ (hrecord ▸ h'.records _ ho)
      rw [hpair] at hsame
      obtain ⟨hp, hm⟩ := Prod.mk.inj hsame
      have hwith' := hwith.trans hle
      simp only [stands, LatchedFailure.toRecord, Bool.and_eq_true, beq_iff_eq]
      exact ⟨⟨⟨⟨⟨hp, congrArg some hm⟩, trivial⟩, other.outcome_latches⟩,
        decide_eq_true hwith'⟩, decide_eq_true hpast⟩
    · simp [hnone] at he

/-- Anything but the passing of time and a real call whose outcome latches. -/
def Input.Neutral : Input → Prop
  | .tick _ => False
  | .record r => r.outcomeClass.latches = false ∨ r.source = .probe
  | _ => True

theorem latchedSince_neutral (hn : input.Neutral) (providerName model : String)
    (lookback : Int) : (Tracker.step threshold pageSize s input).latchedSince providerName model
      lookback = s.latchedSince providerName model lookback := by
  have hsame : ∀ t : Tracker, t.recorded = s.recorded → t.clock = s.clock →
      t.latchedSince providerName model lookback = s.latchedSince providerName model lookback := by
    intro t hr hc
    unfold latchedSince
    rw [hr, hc]
  have ha : ∀ record, (s.append threshold record).recorded = s.recorded ∧
      (s.append threshold record).clock = s.clock := by
    intro record
    rw [append_eq]
    exact ⟨rfl, rfl⟩
  cases input with
  | record record =>
    simp only [Tracker.step]
    split
    · -- the record stands for no pair
      have hc : (s.record threshold record).clock = s.clock := by
        unfold Tracker.record
        split <;> exact (ha record).2
      have hnot : stands providerName model s.clock lookback record = false := by
        rcases hn with hl | hp
        · simp [stands, hl]
        · simp [stands, hp]
      unfold latchedSince
      rw [hc, filter_cons, hnot]
      rfl
    · rfl
  | write index =>
    refine hsame _ ?_ ?_ <;> (simp only [Tracker.step, Tracker.write]; split <;> rfl)
  | prune => rfl
  | read providerName model thresholds =>
    refine hsame _ ?_ ?_ <;>
      (simp only [Tracker.step, getServiceability, Tracker.snapshot]; split <;> rfl)
  | restart => rfl
  | goOn =>
    simp only [Tracker.step, Tracker.goOn]
    split
    · rfl
    · split <;> rfl
    · rfl
    · rfl
    next fed live _ => exact hsame _ (ha fed.toRecord).1 (ha fed.toRecord).2
    · rfl
  | tick elapsed => cases hn

/-- In every run whose durable writes succeed, unless a restore is under way, a pair reads as
latched exactly if a recorded call of the lookback says so, and since the latest; no restart,
prune or success changes that. -/
theorem latched_exactly (threshold pageSize : Nat) (clock : Int) (inputs : List Input)
    (hwrites : Run.Throughout (Tracker.step threshold pageSize) WritesSucceed (new clock) inputs) :
    ∀ s ∈ Run.states (Tracker.step threshold pageSize) (new clock) inputs,
      (s.restoring = none → ∀ providerName model thresholds,
        (s.getServiceability threshold providerName model thresholds).2.map Prod.snd =
          s.latchedSince providerName model thresholds.latchLookback) ∧
      ∀ input : Input, input.Neutral → ∀ providerName model lookback,
        (Tracker.step threshold pageSize s input).latchedSince providerName model lookback =
          s.latchedSince providerName model lookback := by
  intro s hs
  have h := Run.throughout_states (P := Inv) (fun _ _ hok h => h.step hok) hwrites (new_inv clock)
    s hs
  exact ⟨h.answers, fun _ => latchedSince_neutral⟩

def refused : ProviderHealthRecord :=
  ⟨"provider", some "model", 0, false, .paymentRequired, some "402", .realCall, by decide⟩

def aDay : ServiceabilityThresholds := ⟨healthWindow, by decide⟩

def restarted : List Input :=
  [.tick 3600000000, .record refused, .write 0, .restart, .goOn, .goOn, .goOn, .goOn]

theorem latched_exactly_restarted : let s := Run.final (Tracker.step 100 100) (new 0) restarted;
    (s.getServiceability 100 "provider" "model" aDay).2.map Prod.snd =
      s.latchedSince "provider" "model" aDay.latchLookback := by
  have hwrites : Run.Throughout (Tracker.step 100 100) WritesSucceed (new 0) restarted :=
    ⟨trivial, trivial, trivial, rfl, trivial, trivial, trivial, trivial, trivial⟩
  exact (latched_exactly 100 100 0 restarted hwrites _
    (Run.final_mem_states (Tracker.step 100 100) (new 0) restarted)).1 rfl "provider" "model" aDay

example : (Run.final (Tracker.step 100 100) (new 0) restarted).latchedSince "provider" "model"
    aDay.latchLookback = some 0 := by
  decide +kernel

end Tracker

end Synthorg.Providers.Latches
