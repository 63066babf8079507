/-
An approval is decided once.

The rows are safe from every statement that compares before it sets. The
upsert of `save_if_pending` is safe where the row is still PENDING, and the
invariant says what that rests on: the cache is behind its rows in no way
the clock does not find out (`Live`), and between the check and the upsert
the row is left alone.

A listing breaks it, whose pages are read and whose rows are flipped beside the lock: its refresh
puts a page back into the cache after a decision (`stale_page_reopens`), or it expires a row
between a check and its upsert, or one the cache still shows as PENDING.
-/
import Synthorg.Approvals.Store

namespace Synthorg.Approvals

section

variable {Body : Type}

-- ==== the statements

structure Follows (t t' : Table Body) : Prop where
  there : ∀ {id row}, t.row id = some row → ∃ row', t'.row id = some row'
  kept : ∀ {id row row'}, t.row id = some row → t'.row id = some row' →
    row.status ≠ .pending → row'.status = row.status ∧ row'.expiresAt = row.expiresAt
  leftAlone : ∀ {id row row'}, t.row id = some row → t'.row id = some row' →
    row'.status = .pending → row.status = .pending ∧ row'.expiresAt = row.expiresAt
  spent : ∀ {id row row'}, t.row id = some row → t'.row id = some row' →
    row.consumedAt ≠ none → row'.consumedAt ≠ none

theorem Follows.refl (t : Table Body) : Follows t t where
  there hrow := ⟨_, hrow⟩
  kept hrow hrow' _ := by
    rw [hrow, Option.some.injEq] at hrow'
    rw [hrow']
    exact ⟨rfl, rfl⟩
  leftAlone hrow hrow' hp := by
    rw [hrow, Option.some.injEq] at hrow'
    rw [hrow']
    exact ⟨hp, rfl⟩
  spent hrow hrow' hs := by
    rw [hrow, Option.some.injEq] at hrow'
    rwa [← hrow']

/-- A row that is PENDING stays so, or lapses at an instant it names. -/
def Lapses (t t' : Table Body) (id : String) : Prop :=
  ∀ row, t.row id = some row → row.status = .pending →
    ∃ row', t'.row id = some row' ∧ row'.expiresAt = row.expiresAt ∧
      (row'.status = .pending ∨ row'.status = .expired ∧ row.expiresAt.isSome)

section Statements

variable (t : Table Body)

/-- An `UPDATE` that only takes rows from PENDING, and unsets nothing. -/
theorem follows_update {f : ApprovalItem Body → ApprovalItem Body}
    (hf : ∀ item, (f item).id = item.id) (hkept : ∀ row, row.status ≠ .pending →
      (f row).status = row.status ∧ (f row).expiresAt = row.expiresAt)
    (hleft : ∀ row, (f row).status = .pending →
      row.status = .pending ∧ (f row).expiresAt = row.expiresAt)
    (hs : ∀ row, row.consumedAt ≠ none → (f row).consumedAt ≠ none) :
    Follows t (t.update f hf) := by
  have hrow : ∀ {id row row'}, t.row id = some row → (t.update f hf).row id = some row' →
      row' = f row := by
    intro id row row' hrow hrow'
    replace hrow' : (t.row id).map f = some row' := hrow'
    rw [hrow] at hrow'
    exact (Option.some.inj hrow').symm
  exact
    { there := fun {id row} h => ⟨f row, by show (t.row id).map f = _; rw [h]; rfl⟩
      kept := fun h h' => by
        rw [hrow h h']
        exact hkept _
      leftAlone := fun h h' => by
        rw [hrow h h']
        exact hleft _
      spent := fun h h' => by
        rw [hrow h h']
        exact hs _ }

variable {ids : List String} {row : ApprovalItem Body} {id : String}

theorem expireRow_of_pending (hid : row.id ∈ ids) (hp : row.status = .pending) :
    Table.expireRow ids row = expire row := if_pos ⟨hid, hp⟩

theorem expireRow_of_decided (hdec : row.status ≠ .pending) : Table.expireRow ids row = row :=
  if_neg fun h => hdec h.2

theorem follows_expireIfPending (ids : List String) : Follows t (t.expireIfPending ids).1 := by
  refine follows_update t (Table.expireRow_id ids) (fun row hdec => ?_)
    (fun row hp => ?_) fun row hs => ?_
  · rw [expireRow_of_decided hdec]
    exact ⟨rfl, rfl⟩
  · unfold Table.expireRow at hp ⊢
    split at hp
    next => cases hp
    next hnot =>
      rw [if_neg hnot]
      exact ⟨hp, rfl⟩
  · unfold Table.expireRow
    split <;> exact hs

theorem lapses_expireIfPending
    (hn : id ∈ ids → ∀ row, t.row id = some row → row.status = .pending →
      row.expiresAt.isSome) : Lapses t (t.expireIfPending ids).1 id := by
  intro row hrow hp
  have hkey := t.keyed id row hrow
  refine ⟨Table.expireRow ids row, ?_, ?_⟩
  · show (t.row id).map (Table.expireRow ids) = _
    rw [hrow]
    rfl
  · by_cases hid : id ∈ ids
    · rw [expireRow_of_pending (hkey ▸ hid) hp]
      exact ⟨rfl, .inr ⟨rfl, hn hid row hrow hp⟩⟩
    · have hnot : Table.expireRow ids row = row := if_neg fun h => hid (hkey ▸ h.1)
      rw [hnot]
      exact ⟨rfl, .inl hp⟩

/-- Afterwards none of the rows is PENDING, and those it returns are EXPIRED. -/
theorem expireIfPending_decides (hid : id ∈ ids)
    (hrow : (t.expireIfPending ids).1.row id = some row) :
    row.status ≠ .pending ∧ (id ∈ (t.expireIfPending ids).2 → row.status = .expired) := by
  obtain ⟨before, hb, heq⟩ := Option.map_eq_some_iff.1 hrow
  have hkey := t.keyed id before hb
  by_cases hp : before.status = .pending
  · rw [expireRow_of_pending (hkey ▸ hid) hp] at heq
    rw [← heq]
    exact ⟨by simp [expire], fun _ => rfl⟩
  · rw [expireRow_of_decided hp] at heq
    rw [← heq]
    refine ⟨hp, fun hret => ?_⟩
    have hwas := (List.mem_filter.1 hret).2
    rw [hb] at hwas
    simp [hp] at hwas

theorem row_expireIfPending_of_notMem (hid : id ∉ ids) :
    (t.expireIfPending ids).1.row id = t.row id := by
  show (t.row id).map (Table.expireRow ids) = _
  cases hrow : t.row id with
  | none => rfl
  | some row =>
    have hnot : Table.expireRow ids row = row := if_neg fun h => hid (t.keyed id row hrow ▸ h.1)
    rw [Option.map_some, hnot]

theorem follows_consumeIfApproved (id : String) (consumedAt : Int) :
    Follows t (t.consumeIfApproved id consumedAt).1 := by
  have hsame : ∀ row : ApprovalItem Body, (Table.consumeRow id consumedAt row).status = row.status ∧
      (Table.consumeRow id consumedAt row).expiresAt = row.expiresAt := by
    intro row
    unfold Table.consumeRow
    split <;> exact ⟨rfl, rfl⟩
  refine follows_update t (Table.consumeRow_id id consumedAt) (fun row _ => hsame row)
    (fun row hp => ⟨(hsame row).1 ▸ hp, (hsame row).2⟩) fun row hs => ?_
  unfold Table.consumeRow
  split
  next => simp
  next => exact hs

theorem lapses_consumeIfApproved (approvalId : String) (consumedAt : Int) (id : String) :
    Lapses t (t.consumeIfApproved approvalId consumedAt).1 id := by
  intro row hrow hp
  have hnot : Table.consumeRow approvalId consumedAt row = row :=
    if_neg fun h => by simp [hp] at h
  refine ⟨row, ?_, rfl, .inl hp⟩
  show (t.row id).map (Table.consumeRow approvalId consumedAt) = _
  rw [hrow, Option.map_some, hnot]

theorem consumeIfApproved_spends {consumedAt : Int}
    (hwon : (t.consumeIfApproved id consumedAt).2 = true) :
    (∃ row, t.row id = some row ∧ row.consumedAt = none) ∧
      ∃ row, (t.consumeIfApproved id consumedAt).1.row id = some row ∧ row.consumedAt ≠ none := by
  replace hwon : ((t.row id).any fun item =>
    item.status = .approved && item.consumedAt = none) = true := hwon
  cases hrow : t.row id with
  | none => simp [hrow] at hwon
  | some row =>
    rw [hrow, Option.any_some, Bool.and_eq_true, decide_eq_true_eq, decide_eq_true_eq] at hwon
    refine ⟨⟨row, rfl, hwon.2⟩, Table.consumeRow id consumedAt row, ?_, ?_⟩
    · show (t.row id).map (Table.consumeRow id consumedAt) = _
      rw [hrow]
      rfl
    · have hs : Table.consumeRow id consumedAt row =
          { row with consumedAt := some consumedAt } :=
        if_pos ⟨t.keyed id row hrow, hwon⟩
      rw [hs]
      simp

theorem row_save (item : ApprovalItem Body) :
    (t.save item).row item.id = some (Table.merged (t.row item.id) item) :=
  Function.update_self _ _ _

theorem row_save_of_ne (item : ApprovalItem Body) (h : id ≠ item.id) :
    (t.save item).row id = t.row id := Function.update_of_ne h _ _

theorem lapses_save_of_ne (item : ApprovalItem Body) (h : id ≠ item.id) :
    Lapses t (t.save item) id := fun row hrow hp =>
  ⟨row, (row_save_of_ne t item h).trans hrow, rfl, .inl hp⟩

theorem follows_save {item : ApprovalItem Body}
    (h : ∀ row, t.row item.id = some row → row.status = .pending ∧ item.status ≠ .pending) :
    Follows t (t.save item) where
  there {id row} hrow := by
    by_cases hid : id = item.id
    · rw [hid]
      exact ⟨_, row_save t item⟩
    · rw [row_save_of_ne t item hid]
      exact ⟨row, hrow⟩
  kept {id row row'} hrow hrow' hdec := by
    by_cases hid : id = item.id
    · rw [hid] at hrow
      exact absurd (h row hrow).1 hdec
    · rw [row_save_of_ne t item hid, hrow, Option.some.injEq] at hrow'
      rw [hrow']
      exact ⟨rfl, rfl⟩
  leftAlone {id row row'} hrow hrow' hp := by
    by_cases hid : id = item.id
    · rw [hid] at hrow hrow'
      rw [row_save, Option.some.injEq] at hrow'
      rw [← hrow', Table.merged_status] at hp
      exact absurd hp (h row hrow).2
    · rw [row_save_of_ne t item hid, hrow, Option.some.injEq] at hrow'
      rw [hrow']
      exact ⟨hp, rfl⟩
  spent {id row row'} hrow hrow' hs := by
    by_cases hid : id = item.id
    · rw [hid] at hrow hrow'
      rw [row_save, hrow, Option.some.injEq] at hrow'
      rw [← hrow']
      show (row.consumedAt <|> item.consumedAt) ≠ none
      cases hcons : row.consumedAt with
      | none => exact absurd hcons hs
      | some at_ => simp
    · rw [row_save_of_ne t item hid, hrow, Option.some.injEq] at hrow'
      rwa [← hrow']

end Statements

-- ==== the copies

def Copy (t : Table Body) (item : ApprovalItem Body) : Prop :=
  ∃ row, t.row item.id = some row ∧ (item.status ≠ .pending → row.status = item.status) ∧
    (item.status = .pending → row.status = .pending → row.expiresAt = item.expiresAt)

variable {item : ApprovalItem Body}

variable {t : Table Body} {id : String}

theorem Copy.of_row (h : t.row id = some item) : Copy t item :=
  ⟨item, t.keyed id item h ▸ h, fun _ => rfl, fun _ _ => rfl⟩

theorem Copy.follow {t t' : Table Body} (h : Copy t item) (hf : Follows t t') :
    Copy t' item := by
  obtain ⟨row, hrow, hdec, hp⟩ := h
  obtain ⟨row', hrow'⟩ := hf.there hrow
  refine ⟨row', hrow', fun hitem => ?_, fun hitem hrow'' => ?_⟩
  · have hs := hdec hitem
    rw [(hf.kept hrow hrow' (hs ▸ hitem)).1, hs]
  · obtain ⟨hr, hexpiry⟩ := hf.leftAlone hrow hrow' hrow''
    rw [hexpiry]
    exact hp hitem hr

/-- A copy that is behind only where its row has lapsed. -/
def Live (t : Table Body) (item : ApprovalItem Body) : Prop :=
  ∃ row, t.row item.id = some row ∧ (item.status ≠ .pending → row.status = item.status) ∧
    (item.status = .pending → row.expiresAt = item.expiresAt ∧
      (row.status = .pending ∨ row.status = .expired ∧ item.expiresAt.isSome))

theorem Live.copy (h : Live t item) : Copy t item := by
  obtain ⟨row, hrow, hdec, hp⟩ := h
  exact ⟨row, hrow, hdec, fun hitem _ => (hp hitem).1⟩

theorem Live.of_row (h : t.row id = some item) : Live t item :=
  ⟨item, t.keyed id item h ▸ h, fun _ => rfl, fun hitem => ⟨rfl, .inl hitem⟩⟩

theorem Copy.live (h : Copy t item) (hdec : item.status ≠ .pending) : Live t item := by
  obtain ⟨row, hrow, hs, -⟩ := h
  exact ⟨row, hrow, hs, fun hp => absurd hp hdec⟩

theorem Live.lapse {t t' : Table Body} (h : Live t item) (hf : Follows t t')
    (hlapses : Lapses t t' item.id) : Live t' item := by
  by_cases hitem : item.status = .pending
  · obtain ⟨row, hrow, -, hp⟩ := h
    obtain ⟨hexpiry, hr | hl⟩ := hp hitem
    · obtain ⟨row', hrow', hsame, hs⟩ := hlapses row hrow hr
      refine ⟨row', hrow', fun hdec => absurd hitem hdec, fun _ => ?_⟩
      rw [hexpiry] at hsame hs
      exact ⟨hsame, hs⟩
    · obtain ⟨row', hrow'⟩ := hf.there hrow
      have hkept := hf.kept hrow hrow' (by simp [hl.1])
      refine ⟨row', hrow', fun hdec => absurd hitem hdec, fun _ => ?_⟩
      rw [hkept.1, hkept.2]
      exact ⟨hexpiry, .inr hl⟩
  · exact (h.copy.follow hf).live hitem

end

open Lib
open Function (update update_self update_of_ne update_apply forall_update_iff)
open List

variable {Body : Type}

-- ==== the sound steps

/-- WHAT A STEP MAY NOT DO. -/
def Sound (s : State Body) : Event Body → Prop
  | .begin _ op now _ =>
    -- a decision is what is saved, and the clock has reached what has lapsed
    (∀ item, op = .saveIfPending item → item.status ≠ .pending) ∧
      ∀ cached row expiry, s.items op.approvalId = some cached → cached.status = .pending →
        s.repo.row op.approvalId = some row → row.status = .expired →
          row.expiresAt = some expiry → expiry ≤ now
  | .listExpire id _ =>
    -- no row is flipped between the check and the upsert of a decision
    ∀ l p, s.calls id = .expiring l p → ∀ other item began,
      s.calls other = .writing item began → item.id ∉ p.toPersist.map ApprovalItem.id
  | .listRefresh id =>
    -- what a page shows as PENDING is so, or has lapsed
    ∀ l p actuallyExpired refetched, s.calls id = .refreshing l p actuallyExpired refetched →
      s.generation = l.capturedGeneration → ∀ item ∈ p.pageCache, item.status = .pending →
        ∀ row, s.repo.row item.id = some row → row.status = .pending ∨
          row.status = .expired ∧ row.expiresAt = item.expiresAt ∧ item.expiresAt.isSome
  | _ => True

-- ==== the invariant

/-- The call is inside `_lock`, over a statement. -/
def Stage.holds : Stage Body → Prop
  | .loading _ _ => True
  | .flipping _ _ _ => True
  | .reloading _ _ _ => True
  | .writing _ _ => True
  | .consuming _ _ _ _ => True
  | .adding _ => True
  | .inserting _ => True
  | _ => False

/-- Where the row is PENDING it was so as the call took the lock. -/
def BeganOk (t : Table Body) (approvalId : String) (began : Option ApprovalStatus) : Prop :=
  ∀ row, t.row approvalId = some row → row.status = .pending → began = some .pending

def OpOk (op : Op Body) : Prop := ∀ item, op = .saveIfPending item → item.status ≠ .pending

structure PageOk (t : Table Body) (p : Page Body) : Prop where
  cache : ∀ item ∈ p.pageCache, item ∈ p.toPersist ∨ Copy t item
  persist : ∀ item ∈ p.toPersist, item.status = .expired ∧ item.expiresAt.isSome ∧
    ∃ row, t.row item.id = some row ∧ (row.status = .pending → row.expiresAt = item.expiresAt)

def FlippedOk (t : Table Body) (p : Page Body) (actuallyExpired : List String) : Prop :=
  ∀ item ∈ p.toPersist, ∃ row, t.row item.id = some row ∧ row.status ≠ .pending ∧
    (item.id ∈ actuallyExpired → row.status = .expired)

/-- What is true of a call. -/
def StageOk (t : Table Body) : Stage Body → Prop
  | .loading op began => OpOk op ∧ BeganOk t op.approvalId began
  | .flipping op began item => OpOk op ∧ BeganOk t op.approvalId began ∧
      item.id = op.approvalId ∧ Live t item ∧ item.status = .pending ∧ item.expiresAt.isSome
  | .reloading op _ item => OpOk op ∧ item.id = op.approvalId ∧
      ∃ row, t.row item.id = some row ∧ row.status ≠ .pending
  | .writing item _ => item.status ≠ .pending ∧
      ∃ row, t.row item.id = some row ∧ row.status = .pending
  | .consuming approvalId _ current _ => current.id = approvalId ∧
      current.status = .approved ∧ Copy t current
  | .inserting item => t.row item.id = none
  | .expiring _ p => PageOk t p
  | .refetching _ p actuallyExpired => PageOk t p ∧ FlippedOk t p actuallyExpired
  | .refreshing _ p actuallyExpired refetched => PageOk t p ∧ FlippedOk t p actuallyExpired ∧
      ∀ item ∈ refetched, item.status ≠ .pending ∧ Copy t item
  | .answered (.get _) began (some item) => item.status = .pending → began = some .pending
  | _ => True

/-- THE INVARIANT, but for the stages of the calls. -/
structure StoreOk (s : State Body) : Prop where
  cached : ∀ approvalId item, s.items approvalId = some item →
    item.id = approvalId ∧ Live s.repo item
  saved : ∀ approvalId, s.saved approvalId = 0 ∨ s.saved approvalId = 1 ∧
    ∃ row, s.repo.row approvalId = some row ∧ row.status ≠ .pending
  granted : ∀ approvalId, s.granted approvalId = 0 ∨ s.granted approvalId = 1 ∧
    ∃ row, s.repo.row approvalId = some row ∧ row.consumedAt ≠ none

/-- THE INVARIANT of the store. -/
structure Inv (s : State Body) : Prop where
  store : StoreOk s
  exclusive : Exclusive Stage.holds s.lock s.calls
  stages : ∀ id, StageOk s.repo (s.calls id)

structure Held (s : State Body) (id : CallId) : Prop where
  store : StoreOk s
  lock : s.lock = some id
  exclusive : Exclusive Stage.holds s.lock s.calls
  others : ∀ id', id' ≠ id → StageOk s.repo (s.calls id')

-- ==== what calls live through

section Follow

variable {t t' : Table Body}

theorem PageOk.follow {p : Page Body} (h : PageOk t p) (hf : Follows t t') : PageOk t' p where
  cache item hitem := (h.cache item hitem).imp_right fun hcopy => hcopy.follow hf
  persist item hitem := by
    obtain ⟨hs, hn, row, hrow, hexpiry⟩ := h.persist item hitem
    obtain ⟨row', hrow'⟩ := hf.there hrow
    refine ⟨hs, hn, row', hrow', fun hp => ?_⟩
    obtain ⟨hb, hsame⟩ := hf.leftAlone hrow hrow' hp
    rw [hsame]
    exact hexpiry hb

theorem FlippedOk.follow {p : Page Body} {actuallyExpired : List String}
    (h : FlippedOk t p actuallyExpired) (hf : Follows t t') :
    FlippedOk t' p actuallyExpired := by
  intro item hitem
  obtain ⟨row, hrow, hdec, hret⟩ := h item hitem
  obtain ⟨row', hrow'⟩ := hf.there hrow
  have hkept := (hf.kept hrow hrow' hdec).1
  refine ⟨row', hrow', hkept ▸ hdec, fun hmem => ?_⟩
  rw [hkept]
  exact hret hmem

theorem StageOk.follow {stage : Stage Body} (h : StageOk t stage) (hout : ¬ stage.holds)
    (hf : Follows t t') : StageOk t' stage := by
  cases stage with
  | expiring l p => exact PageOk.follow h hf
  | refetching l p actuallyExpired => exact ⟨h.1.follow hf, h.2.follow hf⟩
  | refreshing l p actuallyExpired refetched =>
    refine ⟨h.1.follow hf, h.2.1.follow hf, fun item hitem => ?_⟩
    exact ⟨(h.2.2 item hitem).1, (h.2.2 item hitem).2.follow hf⟩
  | answered op began result =>
    cases op with
    | get approvalId =>
      cases result with
      | none => trivial
      | some item => exact h
    | saveIfPending item | consumeIfApproved approvalId => trivial
  | loading | flipping | reloading | writing | consuming => exact absurd trivial hout
  | adding => trivial
  | inserting => exact absurd trivial hout
  | idle | listing | added | listed | raised => trivial

/-- A call inside it lives through the flip of a page, but for a decision
about to be written. -/
theorem StageOk.lapse {stage : Stage Body} (h : StageOk t stage) (hf : Follows t t')
    (hl : ∀ id, Lapses t t' id) (hnone : ∀ id, t.row id = none → t'.row id = none)
    (hw : ∀ item began, stage = .writing item began → t'.row item.id = t.row item.id) :
    StageOk t' stage := by
  have hbegan : ∀ {approvalId began}, BeganOk t approvalId began → BeganOk t' approvalId began := by
    intro approvalId began hb row' hrow' hp
    cases hrow : t.row approvalId with
    | none => simp [hnone approvalId hrow] at hrow'
    | some row => exact hb row hrow (hf.leftAlone hrow hrow' hp).1
  cases stage with
  | loading op began => exact ⟨h.1, hbegan h.2⟩
  | flipping op began item =>
    obtain ⟨hop, hb, hkey, hlive, hrest⟩ := h
    exact ⟨hop, hbegan hb, hkey, hlive.lapse hf (hl item.id), hrest⟩
  | reloading op began item =>
    obtain ⟨hop, hkey, row, hrow, hdec⟩ := h
    obtain ⟨row', hrow'⟩ := hf.there hrow
    exact ⟨hop, hkey, row', hrow', (hf.kept hrow hrow' hdec).1 ▸ hdec⟩
  | writing item began =>
    obtain ⟨hdec, row, hrow, hp⟩ := h
    exact ⟨hdec, row, (hw item began rfl).trans hrow, hp⟩
  | consuming approvalId began current consumedAt => exact ⟨h.1, h.2.1, h.2.2.follow hf⟩
  | adding item => trivial
  | inserting item => exact hnone item.id h
  | _ => exact h.follow id hf

end Follow

-- ==== the call at work

namespace StoreOk

variable {s : State Body}

theorem repo (h : StoreOk s) {t : Table Body} (hf : Follows s.repo t)
    (hl : ∀ approvalId item, s.items approvalId = some item →
      Lapses s.repo t approvalId) : StoreOk { s with repo := t } where
  cached approvalId item hitem := by
    obtain ⟨hkey, hlive⟩ := h.cached approvalId item hitem
    exact ⟨hkey, hlive.lapse hf (hkey ▸ hl approvalId item hitem)⟩
  saved approvalId := by
    refine (h.saved approvalId).imp_right fun hs => ⟨hs.1, ?_⟩
    obtain ⟨row, hrow, hdec⟩ := hs.2
    obtain ⟨row', hrow'⟩ := hf.there hrow
    exact ⟨row', hrow', (hf.kept hrow hrow' hdec).1 ▸ hdec⟩
  granted approvalId := by
    refine (h.granted approvalId).imp_right fun hg => ⟨hg.1, ?_⟩
    obtain ⟨row, hrow, hspent⟩ := hg.2
    obtain ⟨row', hrow'⟩ := hf.there hrow
    exact ⟨row', hrow', hf.spent hrow hrow' hspent⟩

theorem items (h : StoreOk s) {items : String → Option (ApprovalItem Body)}
    (hitems : ∀ approvalId item, items approvalId = some item →
      item.id = approvalId ∧ Live s.repo item) : StoreOk { s with items := items } :=
  ⟨hitems, h.saved, h.granted⟩

theorem cache (h : StoreOk s) {item : ApprovalItem Body} (hlive : Live s.repo item) :
    StoreOk (cache s item) := by
  refine h.items fun approvalId other ho => ?_
  by_cases hid : approvalId = item.id
  · rw [hid, update_self, Option.some.injEq] at ho
    rw [← ho, hid]
    exact ⟨rfl, hlive⟩
  · rw [update_of_ne hid] at ho
    exact h.cached approvalId other ho

theorem evict (h : StoreOk s) (approvalId : String) : StoreOk (evict s approvalId) := by
  refine h.items fun approvalId' other ho => ?_
  by_cases hid : approvalId' = approvalId
  · simp [hid] at ho
  · rw [update_of_ne hid] at ho
    exact h.cached approvalId' other ho

end StoreOk

namespace Held

variable {s : State Body} {id : CallId}

theorem stay (h : Held s id) {stage : Stage Body} (hs : StageOk s.repo stage) :
    Inv (setCall s id stage) where
  store := ⟨h.store.cached, h.store.saved, h.store.granted⟩
  exclusive := h.exclusive.inside h.lock stage
  stages := (forall_update_iff _ fun _ => StageOk s.repo).2 ⟨hs, h.others⟩

theorem leave (h : Held s id) {stage : Stage Body} (hs : StageOk s.repo stage)
    (hout : ¬ stage.holds) : Inv (setCall (release s) id stage) where
  store := ⟨h.store.cached, h.store.saved, h.store.granted⟩
  exclusive := h.exclusive.release h.lock hout
  stages := (forall_update_iff _ fun _ => StageOk s.repo).2 ⟨hs, h.others⟩

theorem run (h : Held s id) {s' : State Body} (hf : Follows s.repo s'.repo)
    (hstr : StoreOk s') (hlock : s'.lock = s.lock) (hc : s'.calls = s.calls) :
    Held s' id where
  store := hstr
  lock := hlock.trans h.lock
  exclusive := by
    rw [hlock, hc]
    exact h.exclusive
  others id' hid := by
    rw [hc]
    exact (h.others id' hid).follow (h.exclusive.alone h.lock hid) hf

theorem settled (h : Held s id) {op : Op Body} (hop : OpOk op)
    {began : Option ApprovalStatus} {current : ApprovalItem Body}
    (hkey : current.id = op.approvalId) (hcopy : Copy s.repo current)
    (hp : current.status = .pending → began = some .pending ∧
      ∃ row, s.repo.row current.id = some row ∧ row.status = .pending) (now : Int) :
    Inv (settled s id op began current now) := by
  unfold Approvals.settled
  cases op with
  | get approvalId => exact h.leave (fun hs => (hp hs).1) (fun hh => hh)
  | saveIfPending item =>
    dsimp only
    split
    next => exact h.leave trivial (fun hh => hh)
    next hs =>
      obtain ⟨-, row, hrow, hr⟩ := hp (not_not.1 hs)
      rw [hkey] at hrow
      exact h.stay ⟨hop item rfl, row, hrow, hr⟩
  | consumeIfApproved approvalId =>
    dsimp only
    split
    next => exact h.leave trivial (fun hh => hh)
    next hs =>
      rw [not_or] at hs
      exact h.stay ⟨hkey, not_not.1 hs.1, hcopy⟩

end Held

variable {s : State Body} {id : CallId}

theorem Inv.held (h : Inv s) {stage : Stage Body} (hcall : s.calls id = stage)
    (hh : stage.holds) : Held s id :=
  ⟨h.store, h.exclusive id (by rw [hcall]; exact hh), h.exclusive, fun id' _ => h.stages id'⟩

/-- A live copy that says PENDING, to a clock that has reached what lapsed. -/
theorem Held.checked (h : Held s id) {op : Op Body} (hop : OpOk op)
    {began : Option ApprovalStatus} (hb : BeganOk s.repo op.approvalId began)
    {item : ApprovalItem Body} (hkey : item.id = op.approvalId) (hlive : Live s.repo item)
    {now : Int} (hc : item.status = .pending → ∀ row expiry,
      s.repo.row op.approvalId = some row → row.status = .expired →
        row.expiresAt = some expiry → expiry ≤ now) (stamp : Int) :
    Inv (checkExpirationLocked s id op began item now stamp) := by
  unfold checkExpirationLocked
  split
  next hexpired =>
    unfold expired at hexpired
    rw [Bool.and_eq_true, decide_eq_true_eq] at hexpired
    refine h.stay ⟨hop, hb, hkey, hlive, hexpired.1, ?_⟩
    cases hexpiry : item.expiresAt with
    | none => simp [hexpiry] at hexpired
    | some expiry => rfl
  next hexpired =>
    refine h.settled hop hkey hlive.copy (fun hp => ?_) stamp
    obtain ⟨row, hrow, -, hrest⟩ := hlive
    obtain ⟨hexpiry, hr | ⟨hl, hn⟩⟩ := hrest hp
    · exact ⟨hb row (hkey ▸ hrow) hr, row, hrow, hr⟩
    · -- the row has lapsed, so the clock has reached the instant
      obtain ⟨expiry, hsome⟩ := Option.isSome_iff_exists.1 hn
      have hreplace := hc hp row expiry (hkey ▸ hrow) hl (hexpiry.trans hsome)
      simp [expired, hp, hsome, hreplace] at hexpired

-- ==== in the lock

namespace Inv

variable {s : State Body}

theorem outside (h : Inv s) (id : CallId) {stage : Stage Body} (hs : StageOk s.repo stage)
    (hout : ¬ stage.holds) : Inv (setCall s id stage) where
  store := ⟨h.store.cached, h.store.saved, h.store.granted⟩
  exclusive := h.exclusive.outside hout
  stages := (forall_update_iff _ fun _ => StageOk s.repo).2 ⟨hs, fun id' _ => h.stages id'⟩

theorem take (h : Inv s) (hfree : s.lock = none) (id : CallId) :
    Held { s with lock := some id } id where
  store := ⟨h.store.cached, h.store.saved, h.store.granted⟩
  lock := rfl
  exclusive id' hh := absurd hh (h.exclusive.none_inside hfree id')
  others id' _ := h.stages id'

theorem begin (h : Inv s) {id : CallId} {op : Op Body} {now stamp : Int}
    (hsnd : Sound s (.begin id op now stamp)) : Inv (begin s id op now stamp) := by
  unfold Approvals.begin
  split
  next hidle hfree =>
    have ht := h.take hfree id
    have hb : BeganOk s.repo op.approvalId
        ((s.repo.row op.approvalId).map ApprovalItem.status) := by
      intro row hrow hp
      rw [hrow, Option.map_some, hp]
    split
    next item hitem =>
      obtain ⟨hkey, hlive⟩ := h.store.cached op.approvalId item hitem
      exact ht.checked hsnd.1 hb hkey hlive
        (fun hp row expiry => hsnd.2 item row expiry hitem hp) stamp
    next => exact ht.stay ⟨hsnd.1, hb⟩
  next => exact h

theorem load (h : Inv s) (id : CallId) (raises : Bool) (now stamp : Int) :
    Inv (load s id raises now stamp) := by
  unfold Approvals.load
  split
  next op began hcall =>
    have hheld := h.held hcall trivial
    obtain ⟨hop, hb⟩ : OpOk op ∧ BeganOk s.repo op.approvalId began := by
      have hs := h.stages id
      rw [hcall] at hs
      exact hs
    split
    next => exact hheld.leave trivial (fun hh => hh)
    next =>
      split
      next =>
        refine hheld.leave ?_ (fun hh => hh)
        cases op <;> trivial
      next item hrow =>
        have hlive := Live.of_row hrow
        have hc : Held (cache s item) id :=
          hheld.run (Follows.refl _) (hheld.store.cache hlive) rfl rfl
        refine hc.checked hop hb (s.repo.keyed _ _ hrow) hlive ?_ stamp
        intro hp row expiry hrow' hl
        replace hrow' : s.repo.row op.approvalId = some row := hrow'
        rw [hrow, Option.some.injEq] at hrow'
        simp [← hrow', hp] at hl
  next => exact h

theorem flip (h : Inv s) (id : CallId) (raises : Bool) (stamp : Int) :
    Inv (flip s id raises stamp) := by
  unfold Approvals.flip
  split
  next op began item hcall =>
    have hheld := h.held hcall trivial
    obtain ⟨hop, -, hkey, hlive, hp, hn⟩ : StageOk s.repo (.flipping op began item) := by
      have hs := h.stages id
      rw [hcall] at hs
      exact hs
    split
    next => exact hheld.leave trivial (fun hh => hh)
    next =>
      have hf := follows_expireIfPending s.repo [item.id]
      have hl : ∀ approvalId, Lapses s.repo (s.repo.expireIfPending [item.id]).1 approvalId := by
        intro approvalId
        refine lapses_expireIfPending s.repo fun hid row hrow hr => ?_
        obtain ⟨current, hc, -, hrest⟩ := hlive
        rw [mem_singleton.1 hid, hc, Option.some.injEq] at hrow
        rw [← hrow, (hrest hp).1]
        exact hn
      have hstr := hheld.store.repo hf fun approvalId _ _ => hl approvalId
      obtain ⟨row, hrow, -⟩ := hlive.copy.follow hf
      obtain ⟨hdec, hret⟩ := expireIfPending_decides s.repo (mem_singleton_self item.id) hrow
      dsimp only
      split
      next ht =>
        have hexpired : expire item = { item with status := .expired } := rfl
        have hcopy : Copy (s.repo.expireIfPending [item.id]).1 (expire item) :=
          ⟨row, hrow, fun _ => hret ht, nofun⟩
        have hcache : Held (cache
            { s with repo := (s.repo.expireIfPending [item.id]).1 } (expire item)) id :=
          hheld.run hf (hstr.cache (hcopy.live (by simp [hexpired]))) rfl rfl
        have hkey' : (expire item).id = op.approvalId := hkey
        exact hcache.settled hop hkey' hcopy nofun stamp
      next =>
        have hrun : Held { s with repo := (s.repo.expireIfPending [item.id]).1 } id :=
          hheld.run hf hstr rfl rfl
        exact hrun.stay ⟨hop, hkey, row, hrow, hdec⟩
  next => exact h

theorem reload (h : Inv s) (id : CallId) (raises : Bool) (stamp : Int) :
    Inv (reload s id raises stamp) := by
  unfold Approvals.reload
  split
  next op began item hcall =>
    have hheld := h.held hcall trivial
    obtain ⟨hop, hkey, row, hrow, hdec⟩ : StageOk s.repo (.reloading op began item) := by
      have hs := h.stages id
      rw [hcall] at hs
      exact hs
    split
    next => exact hheld.leave trivial (fun hh => hh)
    next =>
      split
      next current hc =>
        rw [hrow, Option.some.injEq] at hc
        rw [← hc]
        have hcache : Held (cache s row) id :=
          hheld.run (Follows.refl _) (hheld.store.cache (Live.of_row hrow)) rfl rfl
        exact hcache.settled hop ((s.repo.keyed _ _ hrow).trans hkey) (Copy.of_row hrow)
          (fun hp => absurd hp hdec) stamp
      next hnone => simp [hrow] at hnone
  next => exact h

end Inv

/-- A decision goes over a row that is PENDING. -/
theorem StoreOk.decide (h : StoreOk s) {item row : ApprovalItem Body}
    (hdec : item.status ≠ .pending) (hrow : s.repo.row item.id = some row)
    (hp : row.status = .pending) (items : String → Option (ApprovalItem Body))
    (hitems : ∀ approvalId other, items approvalId = some other →
      (approvalId = item.id ∧ other = item) ∨
        (approvalId ≠ item.id ∧ s.items approvalId = some other)) :
    Follows s.repo (s.repo.save item) ∧
      StoreOk { s with repo := s.repo.save item, items := items } := by
  have hf : Follows s.repo (s.repo.save item) := by
    refine follows_save s.repo fun row' hrow' => ?_
    rw [hrow, Option.some.injEq] at hrow'
    exact ⟨hrow' ▸ hp, hdec⟩
  have he : StoreOk { Approvals.evict s item.id with repo := s.repo.save item } := by
    refine (h.evict item.id).repo hf fun approvalId other ho => ?_
    refine lapses_save_of_ne s.repo item fun hid => ?_
    replace ho : update s.items item.id none approvalId = some other := ho
    simp [hid] at ho
  have hcopy : Copy (s.repo.save item) item :=
    ⟨_, row_save s.repo item, fun _ => Table.merged_status _ _, fun hitem => absurd hitem hdec⟩
  refine ⟨hf, fun approvalId other ho => ?_, he.saved, he.granted⟩
  rcases hitems approvalId other ho with ⟨hid, hsame⟩ | ⟨hid, hold⟩
  · rw [hid, hsame]
    exact ⟨rfl, hcopy.live hdec⟩
  · refine he.cached approvalId other ?_
    show update s.items item.id none approvalId = some other
    rw [update_of_ne hid]
    exact hold

variable {items : String → Option (ApprovalItem Body)}

theorem update_eq_some {id approvalId : String} {entry : Option (ApprovalItem Body)}
    {other : ApprovalItem Body} (h : update items id entry approvalId = some other) :
    (approvalId = id ∧ entry = some other) ∨ (approvalId ≠ id ∧ items approvalId = some other) := by
  rwa [update_apply, ite_eq_iff] at h

namespace Inv

variable {s : State Body}

/-- THE DECISION: it is the first one. -/
theorem write (h : Inv s) (id : CallId) (upsert : Upsert) : Inv (write s id upsert) := by
  unfold Approvals.write
  split
  next item began hcall =>
    have hheld := h.held hcall trivial
    obtain ⟨hdec, row, hrow, hp⟩ : StageOk s.repo (.writing item began) := by
      have hs := h.stages id
      rw [hcall] at hs
      exact hs
    split
    next =>
      obtain ⟨hf, hstr⟩ := hheld.store.decide hdec hrow hp
        (update s.items item.id (some item)) fun approvalId other ho =>
          (update_eq_some ho).imp_left fun hsame => ⟨hsame.1, (Option.some.inj hsame.2).symm⟩
      have hfirst : s.saved item.id = 0 := by
        refine (h.store.saved item.id).resolve_right fun hsaved => ?_
        obtain ⟨row', hrow', hdec'⟩ := hsaved.2
        rw [hrow, Option.some.injEq] at hrow'
        exact hdec' (hrow' ▸ hp)
      have hc : StoreOk (cache { s with
          repo := s.repo.save item
          saved := update s.saved item.id (s.saved item.id + 1) } item) := by
        refine ⟨hstr.cached, fun approvalId => ?_, hstr.granted⟩
        show update s.saved item.id (s.saved item.id + 1) approvalId = 0 ∨ _
        by_cases hid : approvalId = item.id
        · refine .inr ⟨?_, ?_⟩
          · show update s.saved item.id (s.saved item.id + 1) approvalId = 1
            rw [hid, update_self, hfirst]
          · refine ⟨_, by rw [hid]; exact row_save s.repo item, ?_⟩
            rw [Table.merged_status]
            exact hdec
        · have hold := hstr.saved approvalId
          show update s.saved item.id _ approvalId = 0 ∨ update s.saved item.id _ approvalId = 1 ∧ _
          rw [update_of_ne hid]
          exact hold
      exact (hheld.run hf hc rfl rfl).leave trivial (fun hh => hh)
    next => exact hheld.leave trivial (fun hh => hh)
    next committed =>
      cases committed with
      | false =>
        have he : Held (evict s item.id) id :=
          hheld.run (Follows.refl _) (hheld.store.evict item.id) rfl rfl
        exact he.leave trivial (fun hh => hh)
      | true =>
        obtain ⟨hf, hstr⟩ := hheld.store.decide hdec hrow hp
          (update s.items item.id none) fun approvalId other ho =>
            (update_eq_some ho).imp_left fun hsame => by cases hsame.2
        have hrun : Held (evict { s with repo := s.repo.save item } item.id) id :=
          hheld.run hf hstr rfl rfl
        exact hrun.leave trivial (fun hh => hh)
  next => exact h

/-- THE GRANT: it is spent once. -/
theorem consume (h : Inv s) (id : CallId) (raises : Bool) : Inv (consume s id raises) := by
  unfold Approvals.consume
  split
  next approvalId began current consumedAt hcall =>
    have hheld := h.held hcall trivial
    obtain ⟨hkey, ha, hcopy⟩ :
        StageOk s.repo (.consuming approvalId began current consumedAt) := by
      have hstages := h.stages id
      rw [hcall] at hstages
      exact hstages
    split
    next => exact hheld.leave trivial (fun hh => hh)
    next =>
      have hf := follows_consumeIfApproved s.repo approvalId consumedAt
      have hstr := hheld.store.repo hf fun other _ _ =>
        lapses_consumeIfApproved s.repo approvalId consumedAt other
      dsimp only
      split
      next hwon =>
        obtain ⟨⟨row, hrow, hu⟩, row', hrow', hs⟩ := consumeIfApproved_spends s.repo hwon
        have hfirst : s.granted approvalId = 0 := by
          refine (h.store.granted approvalId).resolve_right fun hg => ?_
          obtain ⟨other, ho, hs'⟩ := hg.2
          rw [hrow, Option.some.injEq] at ho
          exact hs' (ho ▸ hu)
        obtain ⟨now, hnow, hstate, -⟩ := hcopy.follow hf
        have hlive : Live (s.repo.consumeIfApproved approvalId consumedAt).1
            { current with consumedAt := some consumedAt } :=
          Copy.live ⟨now, hnow, hstate, fun hp => by simp [ha] at hp⟩
            (by simp [ha])
        have hc : StoreOk { s with
            repo := (s.repo.consumeIfApproved approvalId consumedAt).1
            items := update s.items approvalId
              (some { current with consumedAt := some consumedAt })
            granted := update s.granted approvalId (s.granted approvalId + 1) } := by
          refine ⟨fun other item hitem => ?_, hstr.saved, fun other => ?_⟩
          · rcases update_eq_some hitem with ⟨hid, hsame⟩ | ⟨hid, hold⟩
            · rw [← Option.some.inj hsame]
              exact ⟨hkey.trans hid.symm, hlive⟩
            · exact hstr.cached other item hold
          · by_cases hid : other = approvalId
            · refine .inr ⟨?_, row', hid ▸ hrow', hs⟩
              show update s.granted approvalId _ other = 1
              rw [hid, update_self, hfirst]
            · have hold := hstr.granted other
              show update s.granted approvalId _ other = 0 ∨
                update s.granted approvalId _ other = 1 ∧ _
              rw [update_of_ne hid]
              exact hold
        exact (hheld.run hf hc rfl rfl).leave trivial (fun hh => hh)
      next =>
        exact (hheld.run hf (hstr.evict approvalId) rfl rfl).leave trivial (fun hh => hh)
  next => exact h

theorem add (h : Inv s) (id : CallId) (item : ApprovalItem Body) : Inv (add s id item) := by
  unfold Approvals.add
  split
  next hidle hfree =>
    split
    next => exact h.outside id trivial (fun hh => hh)
    next => exact (h.take hfree id).stay trivial
  next => exact h

theorem addGet (h : Inv s) (id : CallId) (raises : Bool) : Inv (addGet s id raises) := by
  unfold Approvals.addGet
  split
  next item hcall =>
    have hheld := h.held hcall trivial
    split
    next => exact hheld.leave trivial (fun hh => hh)
    next =>
      split
      next existing hrow =>
        have hc : Held (cache s existing) id :=
          hheld.run (Follows.refl _) (hheld.store.cache (Live.of_row hrow)) rfl rfl
        exact hc.leave trivial (fun hh => hh)
      next hnone => exact hheld.stay hnone
  next => exact h

theorem addSave (h : Inv s) (id : CallId) (upsert : Upsert) : Inv (addSave s id upsert) := by
  unfold Approvals.addSave
  split
  next item hcall =>
    have hheld := h.held hcall trivial
    have hnone : s.repo.row item.id = none := by
      have hs := h.stages id
      rw [hcall] at hs
      exact hs
    have hf : Follows s.repo (s.repo.save item) :=
      follows_save s.repo fun row hrow => by simp [hnone] at hrow
    have hstr : StoreOk { s with repo := s.repo.save item } := by
      refine hheld.store.repo hf fun approvalId other ho => ?_
      refine lapses_save_of_ne s.repo item fun hid => ?_
      obtain ⟨hkey, row, hrow, -⟩ := h.store.cached approvalId other ho
      simp [hkey, hid, hnone] at hrow
    have hrow : (s.repo.save item).row item.id = some item := by
      rw [row_save, hnone]
      rfl
    split
    next =>
      have hc : Held (cache { s with repo := s.repo.save item } item) id :=
        hheld.run hf (hstr.cache (Live.of_row hrow)) rfl rfl
      exact hc.leave trivial (fun hh => hh)
    next => exact hheld.leave trivial (fun hh => hh)
    next committed =>
      cases committed with
      | false => exact hheld.leave trivial (fun hh => hh)
      | true =>
        have hrun : Held { s with repo := s.repo.save item } id := hheld.run hf hstr rfl rfl
        exact hrun.leave trivial (fun hh => hh)
  next => exact h

theorem clear (h : Inv s) : Inv (clear s) := by
  unfold Approvals.clear
  split
  next =>
    refine ⟨⟨fun approvalId item hitem => ?_, h.store.saved, h.store.granted⟩, h.exclusive,
      h.stages⟩
    cases hitem
  next => exact h

end Inv

-- ==== the listing

/-- What is past its time is EXPIRED in the page, the rest are copies. -/
theorem pageOk_computePage {t : Table Body} {page : List (ApprovalItem Body)}
    (hpage : ∀ item ∈ page, t.row item.id = some item) (clock : String → Int)
    (status : Option ApprovalStatus) (riskLevel : Option ApprovalRiskLevel) :
    PageOk t (computePage page clock status riskLevel) where
  cache checked hc := by
    obtain ⟨item, hitem, heq⟩ := mem_map.1 hc
    rw [← heq, computeExpiration]
    split
    next hexpired => exact .inl (mem_map_of_mem (mem_filter.2 ⟨hitem, hexpired⟩))
    next => exact .inr (Copy.of_row (hpage item hitem))
  persist checked hc := by
    obtain ⟨item, hitem, heq⟩ := mem_map.1 hc
    obtain ⟨hmem, hexpired⟩ := mem_filter.1 hitem
    rw [← heq]
    refine ⟨rfl, ?_, item, hpage item hmem, fun _ => rfl⟩
    show item.expiresAt.isSome
    cases hexpiry : item.expiresAt with
    | none => simp [expired, hexpiry] at hexpired
    | some expiry => rfl

theorem refresh_live {t : Table Body} {p : Page Body} {actuallyExpired : List String}
    {refetched : List (ApprovalItem Body)}
      (hitems : ∀ approvalId item, items approvalId = some item →
      item.id = approvalId ∧ Live t item)
    (hpage : ∀ item ∈ p.pageCache, item.id ∉ p.lostRace actuallyExpired → Live t item)
    (href : ∀ item ∈ refetched, Live t item) :
    ∀ approvalId item, refresh items p actuallyExpired refetched approvalId = some item →
      item.id = approvalId ∧ Live t item := by
  have hloop : ∀ (xs : List (ApprovalItem Body))
      (entry : ApprovalItem Body → Option (ApprovalItem Body)),
      (∀ x ∈ xs, ∀ item, entry x = some item → item = x ∧ Live t item) →
      ∀ items : String → Option (ApprovalItem Body),
      (∀ approvalId item, items approvalId = some item → item.id = approvalId ∧ Live t item) →
      ∀ approvalId item, xs.foldl (fun items x => update items x.id (entry x)) items
        approvalId = some item → item.id = approvalId ∧ Live t item := by
    intro xs entry
    induction xs with
    | nil => exact fun _ _ hlive => hlive
    | cons x xs ih =>
      intro he items hlive
      refine ih (fun y hy => he y (mem_cons_of_mem x hy)) _ fun approvalId item h => ?_
      rcases update_eq_some h with ⟨hid, hsame⟩ | ⟨hid, hold⟩
      · obtain ⟨heq, hitem⟩ := he x mem_cons_self item hsame
        exact ⟨by rw [heq, hid], hitem⟩
      · exact hlive approvalId item hold
  refine hloop refetched some (fun x hx item hitem => ?_) _ (hloop p.pageCache _ ?_ items hitems)
  · rw [← Option.some.inj hitem]
    exact ⟨rfl, href x hx⟩
  · intro x hx item hitem
    split at hitem
    next => cases hitem
    next hkept =>
      rw [← Option.some.inj hitem]
      exact ⟨rfl, hpage x hx hkept⟩

namespace Inv

variable {s : State Body}

theorem listItems (h : Inv s) (id : CallId) (status : Option ApprovalStatus)
    (riskLevel : Option ApprovalRiskLevel) (actionType : Option String)
    (createdSince : Option Int) :
    Inv (listItems s id status riskLevel actionType createdSince) := by
  unfold Approvals.listItems
  split
  next => exact h.outside id trivial (fun hh => hh)
  next => exact h

theorem listQuery (h : Inv s) (id : CallId) (raises : Bool) (clock : String → Int) :
    Inv (listQuery s id raises clock) := by
  unfold Approvals.listQuery
  split
  next l hcall =>
    split
    next => exact h.outside id trivial (fun hh => hh)
    next =>
      split
      next => exact h.outside id trivial (fun hh => hh)
      next item page hpage =>
        refine h.outside id (pageOk_computePage (fun item hitem => ?_) clock _ _)
          (fun hh => hh)
        rw [← hpage] at hitem
        exact Table.row_of_mem_query hitem
  next => exact h

theorem listExpire (h : Inv s) {id : CallId} {raises : Bool}
    (hsnd : Sound s (.listExpire id raises)) : Inv (listExpire s id raises) := by
  unfold Approvals.listExpire
  split
  next l p hcall =>
    have hpage : PageOk s.repo p := by
      have hs := h.stages id
      rw [hcall] at hs
      exact hs
    split
    next => exact h.outside id trivial (fun hh => hh)
    next =>
      generalize hids : p.toPersist.map ApprovalItem.id = ids
      have hf := follows_expireIfPending s.repo ids
      have hl : ∀ approvalId, Lapses s.repo (s.repo.expireIfPending ids).1 approvalId := by
        intro approvalId
        refine lapses_expireIfPending s.repo fun hid row hrow hp => ?_
        rw [← hids] at hid
        obtain ⟨item, hitem, heq⟩ := mem_map.1 hid
        obtain ⟨-, hn, row', hrow', hexpiry⟩ := hpage.persist item hitem
        rw [heq, hrow, Option.some.injEq] at hrow'
        rw [hrow', hexpiry (hrow' ▸ hp)]
        exact hn
      have hnone : ∀ approvalId, s.repo.row approvalId = none →
          (s.repo.expireIfPending ids).1.row approvalId = none := by
        intro approvalId hrow
        show (s.repo.row approvalId).map _ = none
        rw [hrow]
        rfl
      have hstr := h.store.repo hf fun approvalId _ _ => hl approvalId
      have hflip : FlippedOk (s.repo.expireIfPending ids).1 p (s.repo.expireIfPending ids).2 := by
        intro item hitem
        obtain ⟨-, -, row, hrow, -⟩ := (hpage.follow hf).persist item hitem
        have hid : item.id ∈ ids := hids ▸ mem_map_of_mem hitem
        exact ⟨row, hrow, expireIfPending_decides s.repo hid hrow⟩
      have hnext : ¬ (Stage.refetching l p (s.repo.expireIfPending ids).2).holds :=
        fun hh => hh
      refine ⟨⟨hstr.cached, hstr.saved, hstr.granted⟩, h.exclusive.outside hnext,
        (forall_update_iff _ fun _ => StageOk (s.repo.expireIfPending ids).1).2
          ⟨⟨hpage.follow hf, hflip⟩, fun id' _ => ?_⟩⟩
      refine (h.stages id').lapse hf hl hnone fun item began hw => ?_
      refine row_expireIfPending_of_notMem s.repo ?_
      rw [← hids]
      exact hsnd l p hcall id' item began hw
  next => exact h

theorem listRefetch (h : Inv s) (id : CallId) (raises : Bool) : Inv (listRefetch s id raises) := by
  unfold Approvals.listRefetch
  split
  next l p actuallyExpired hcall =>
    obtain ⟨hpage, hflip⟩ : StageOk s.repo (.refetching l p actuallyExpired) := by
      have hs := h.stages id
      rw [hcall] at hs
      exact hs
    split
    next => exact h.outside id trivial (fun hh => hh)
    next =>
      refine h.outside id ⟨hpage, hflip, fun item hitem => ?_⟩ (fun hh => hh)
      obtain ⟨hlost, hrow⟩ := Table.row_of_mem_getMany (mem_filter.1 hitem).1
      obtain ⟨attempted, ha, heq⟩ := mem_map.1 (mem_filter.1 hlost).1
      obtain ⟨row, hrow', hdec, -⟩ := hflip attempted ha
      rw [heq, hrow, Option.some.injEq] at hrow'
      exact ⟨hrow' ▸ hdec, Copy.of_row hrow⟩
  next => exact h

theorem listRefresh (h : Inv s) {id : CallId} (hsnd : Sound s (.listRefresh id)) :
    Inv (listRefresh s id) := by
  unfold Approvals.listRefresh
  split
  next l p actuallyExpired refetched hcall hfree =>
    obtain ⟨hpage, hflip, href⟩ : StageOk s.repo (.refreshing l p actuallyExpired refetched) := by
      have hs := h.stages id
      rw [hcall] at hs
      exact hs
    have hr : Inv (if s.generation = l.capturedGeneration then
        { s with items := refresh s.items p actuallyExpired refetched } else s) := by
      split
      next hgen =>
        refine ⟨h.store.items (refresh_live h.store.cached (fun item hitem hkept => ?_)
          fun item hitem => (href item hitem).2.live (href item hitem).1),
          h.exclusive, h.stages⟩
        rcases hpage.cache item hitem with hpersist | hcopy
        · -- it was flipped, for the race was not lost
          obtain ⟨row, hrow, -, hret⟩ := hflip item hpersist
          have hexpired := (hpage.persist item hpersist).1
          have hmem : item.id ∈ actuallyExpired := by
            by_contra hnot
            refine hkept (mem_filter.2 ⟨mem_map_of_mem hpersist, ?_⟩)
            simpa using hnot
          refine ⟨row, hrow, fun _ => (hret hmem).trans hexpired.symm, fun hp => ?_⟩
          simp [hexpired] at hp
        · by_cases hp : item.status = .pending
          · obtain ⟨row, hrow, -, hexpiry⟩ := hcopy
            refine ⟨row, hrow, fun hdec => absurd hp hdec, fun _ => ?_⟩
            rcases hsnd l p actuallyExpired refetched hcall hgen item hitem hp row
              hrow with ho | ⟨hl, hsame, hn⟩
            · exact ⟨hexpiry hp ho, .inl ho⟩
            · exact ⟨hsame, .inr ⟨hl, hn⟩⟩
          · exact hcopy.live hp
      next => exact h
    dsimp only
    split
    next => exact hr.outside id trivial (fun hh => hh)
    next => exact hr.outside id trivial (fun hh => hh)
  next => exact h

/-- STEP LEMMA: the invariant is kept. -/
theorem step (h : Inv s) {event : Event Body} (hsnd : Sound s event) : Inv (step s event) := by
  cases event with
  | begin id op now stamp => exact h.begin hsnd
  | load id raises now stamp => exact h.load id raises now stamp
  | flip id raises stamp => exact h.flip id raises stamp
  | reload id raises stamp => exact h.reload id raises stamp
  | write id upsert => exact h.write id upsert
  | consume id raises => exact h.consume id raises
  | add id item => exact h.add id item
  | addGet id raises => exact h.addGet id raises
  | addSave id upsert => exact h.addSave id upsert
  | clear => exact h.clear
  | listItems id status riskLevel actionType createdSince =>
    exact h.listItems id status riskLevel actionType createdSince
  | listQuery id raises clock => exact h.listQuery id raises clock
  | listExpire id raises => exact h.listExpire hsnd
  | listRefetch id raises => exact h.listRefetch id raises
  | listRefresh id => exact h.listRefresh hsnd

end Inv

-- ==== the runs

section Rows

variable (s : State Body) (id : CallId)

theorem repo_settled (op : Op Body) (began : Option ApprovalStatus)
    (current : ApprovalItem Body) (now : Int) :
    (settled s id op began current now).repo = s.repo := by
  cases op with
  | get approvalId => rfl
  | saveIfPending item =>
    rw [settled]
    split <;> rfl
  | consumeIfApproved approvalId =>
    rw [settled]
    split <;> rfl

theorem repo_checkExpirationLocked (op : Op Body) (began : Option ApprovalStatus)
    (item : ApprovalItem Body) (now stamp : Int) :
    (checkExpirationLocked s id op began item now stamp).repo = s.repo := by
  rw [checkExpirationLocked]
  split
  next => rfl
  next => exact repo_settled s id op began item stamp

end Rows

/-- STEP LEMMA: every row follows from the row before. -/
theorem follows_step (h : Inv s) (event : Event Body) : Follows s.repo (step s event).repo := by
  cases event with
  | begin id op now stamp =>
    rw [step, begin]
    split
    next =>
      split
      next => rw [repo_checkExpirationLocked]; exact Follows.refl _
      next => exact Follows.refl _
    next => exact Follows.refl _
  | load id raises now stamp =>
    rw [step, load]
    split
    next =>
      split
      next => exact Follows.refl _
      next =>
        split
        next => exact Follows.refl _
        next => rw [repo_checkExpirationLocked]; exact Follows.refl _
    next => exact Follows.refl _
  | flip id raises stamp =>
    rw [step, flip]
    split
    next op began item hcall =>
      split
      next => exact Follows.refl _
      next =>
        dsimp only
        split
        next => rw [repo_settled]; exact follows_expireIfPending s.repo [item.id]
        next => exact follows_expireIfPending s.repo [item.id]
    next => exact Follows.refl _
  | reload id raises stamp =>
    rw [step, reload]
    split
    next =>
      split
      next => exact Follows.refl _
      next =>
        split
        next => rw [repo_settled]; exact Follows.refl _
        next => rw [repo_settled]; exact Follows.refl _
    next => exact Follows.refl _
  | write id upsert =>
    rw [step, write]
    split
    next item began hcall =>
      have hf : Follows s.repo (s.repo.save item) := by
        have hs := h.stages id
        rw [hcall] at hs
        obtain ⟨hdec, row, hrow, hp⟩ := hs
        refine follows_save s.repo fun row' hrow' => ?_
        rw [hrow, Option.some.injEq] at hrow'
        exact ⟨hrow' ▸ hp, hdec⟩
      split
      next => exact hf
      next => exact Follows.refl _
      next committed =>
        cases committed with
        | false => exact Follows.refl _
        | true => exact hf
    next => exact Follows.refl _
  | consume id raises =>
    rw [step, consume]
    split
    next approvalId began current consumedAt hcall =>
      split
      next => exact Follows.refl _
      next =>
        dsimp only
        split
        next => exact follows_consumeIfApproved s.repo approvalId consumedAt
        next => exact follows_consumeIfApproved s.repo approvalId consumedAt
    next => exact Follows.refl _
  | add id item =>
    rw [step, add]
    split
    next => split <;> exact Follows.refl _
    next => exact Follows.refl _
  | addGet id raises =>
    rw [step, addGet]
    split
    next =>
      split
      next => exact Follows.refl _
      next => split <;> exact Follows.refl _
    next => exact Follows.refl _
  | addSave id upsert =>
    rw [step, addSave]
    split
    next item hcall =>
      have hf : Follows s.repo (s.repo.save item) := by
        have hs := h.stages id
        rw [hcall] at hs
        refine follows_save s.repo fun row hrow => ?_
        simp [show s.repo.row item.id = none from hs] at hrow
      split
      next => exact hf
      next => exact Follows.refl _
      next committed =>
        cases committed with
        | false => exact Follows.refl _
        | true => exact hf
    next => exact Follows.refl _
  | clear =>
    rw [step, clear]
    split <;> exact Follows.refl _
  | listItems id status riskLevel actionType createdSince =>
    rw [step, listItems]
    split <;> exact Follows.refl _
  | listQuery id raises clock =>
    rw [step, listQuery]
    split
    next =>
      split
      next => exact Follows.refl _
      next => split <;> exact Follows.refl _
    next => exact Follows.refl _
  | listExpire id raises =>
    rw [step, listExpire]
    split
    next l p hcall =>
      split
      next => exact Follows.refl _
      next => exact follows_expireIfPending s.repo (p.toPersist.map ApprovalItem.id)
    next => exact Follows.refl _
  | listRefetch id raises =>
    rw [step, listRefetch]
    split
    next => split <;> exact Follows.refl _
    next => exact Follows.refl _
  | listRefresh id =>
    rw [step, listRefresh]
    split
    next =>
      split <;> split <;> exact Follows.refl _
    next => exact Follows.refl _

theorem Inv.decidedOnce (h : Inv s) : DecidedOnce s where
  saved approvalId := by
    have hsaved := h.store.saved approvalId
    omega
  granted approvalId := by
    have hg := h.store.granted approvalId
    omega
  got id approvalId began item hcall := by
    have hs := h.stages id
    rw [hcall] at hs
    exact hs

theorem inv_attached (repo : Table Body) : Inv (attached repo) where
  store := ⟨fun _ _ hitem => (by cases hitem), fun _ => .inl rfl, fun _ => .inl rfl⟩
  exclusive _ hh := absurd hh id
  stages _ := trivial

/-- AN APPROVAL IS DECIDED ONCE in every run whose listings stay out of the way of the decisions. -/
theorem decided_once {repo : Table Body} {events : List (Event Body)}
    (hsound : Run.Throughout step Sound (attached repo) events) :
    (∀ s ∈ Run.states step (attached repo) events, DecidedOnce s) ∧
      (Run.states step (attached repo) events).IsChain StatusKept := by
  have hguard : Run.Guarded step (Run.Throughout (@step Body) Sound) :=
    fun _ _ _ hok => hok.2
  refine ⟨fun s hs => ?_, ?_⟩
  · exact (Run.throughout_states (fun _ _ hok hinv => Inv.step hinv hok) hsound
      (inv_attached repo) s hs).decidedOnce
  · refine Run.chain hguard (fun _ _ _ hok hinv => Inv.step hinv hok.1)
      (fun s event _ _ hinv approvalId row hrow hdecided => ?_) hsound (inv_attached repo)
    obtain ⟨row', hrow'⟩ := (follows_step hinv event).there hrow
    exact ⟨row', hrow', ((follows_step hinv event).kept hrow hrow' hdecided).1⟩

-- ==== a page and a decision

def pendingItem : ApprovalItem Unit where
  id := "a"
  actionType := "deploy"
  riskLevel := .high
  status := .pending
  createdAt := 0
  expiresAt := none
  consumedAt := none
  body := ()

def oneRow (item : ApprovalItem Unit) : Table Unit where
  row id := if id = item.id then some item else none
  ids := [item.id]
  keyed id row hrow := by
    split at hrow
    next hid => rw [← Option.some.inj hrow, hid]
    next => cases hrow
  listed id hrow := by
    split at hrow
    next hid => simp [hid]
    next => exact absurd rfl hrow

def approvedOnce : List (Event Unit) :=
  [.begin 1 (.saveIfPending { pendingItem with status := .approved }) 5 5, .load 1 false 5 5,
    .write 1 .done, .begin 2 (.get "a") 6 6]

def approvedMidPage : List (Event Unit) :=
  [.listItems 0 none none none none, .listQuery 0 false (fun _ => 4)] ++ approvedOnce ++
    [.listExpire 0 false, .listRefetch 0 false, .listRefresh 0, .begin 3 (.get "a") 7 7,
      .begin 4 (.saveIfPending { pendingItem with status := .rejected }) 8 8, .write 4 .done]

/-- Approved, read and then rejected: the rejection meets the approval. -/
def rejectedToo : List (Event Unit) :=
  approvedOnce ++ [.begin 3 (.saveIfPending { pendingItem with status := .rejected }) 7 7]

theorem decided_once_approved :
    Run.Throughout step Sound (attached (oneRow pendingItem)) rejectedToo ∧
      (∀ s ∈ Run.states step (attached (oneRow pendingItem)) rejectedToo, DecidedOnce s) ∧
      (Run.states step (attached (oneRow pendingItem)) rejectedToo).IsChain StatusKept ∧
      (Run.final step (attached (oneRow pendingItem)) rejectedToo).saved "a" = 1 := by
  have hsound : Run.Throughout step Sound (attached (oneRow pendingItem)) rejectedToo := by
    refine ⟨⟨fun item heq => ?_, fun cached row expiry hcached => ?_⟩, trivial, trivial,
      ⟨fun item heq => ?_, fun cached row expiry hcached hpending => ?_⟩,
      ⟨fun item heq => ?_, fun cached row expiry hcached hpending => ?_⟩, trivial⟩
    · cases heq
      decide
    · cases hcached
    · cases heq
    · -- the decision is in the cache
      cases hcached
      cases hpending
    · cases heq
      decide
    · cases hcached
      cases hpending
  exact ⟨hsound, (decided_once hsound).1, (decided_once hsound).2, rfl⟩

/-- The page read before the decision undoes it in the cache, and the approval is decided again. -/
theorem stale_page_reopens :
    ¬ DecidedOnce (Run.final step (attached (oneRow pendingItem)) approvedMidPage) := by
  intro hdecided
  have htwice :
      (Run.final step (attached (oneRow pendingItem)) approvedMidPage).saved "a" = 2 := rfl
  have hsaved := hdecided.saved "a"
  omega

end Synthorg.Approvals
