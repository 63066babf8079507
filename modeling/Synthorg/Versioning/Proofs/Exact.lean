/-
The stored versions of an entity are numbered without gaps, and what a call
returns is stored.

A row is inserted under the number after a row that was newest when it was
read. The number is free only while that row still is the newest, so the rows
grow one by one; and since the call compared its content to that very row, a
`snapshot_if_changed` never puts equal content on top of it.
-/
import Synthorg.Versioning.Service

namespace Synthorg.Versioning

open Lib
open List

variable {α η : Type}

namespace History

-- ==== the numbering

def Numbered (rows : List (Stored α η)) : Prop :=
  rows.map (fun stored => stored.row.version) = List.range' 1 rows.length

variable {rows : List (Stored α η)} {row version : VersionSnapshot α η} {s' : History α η} {n : Nat}
  {entityId : String} {request : Request α}

theorem numbered_concat {stored : Stored α η} :
    Numbered (rows ++ [stored]) ↔ Numbered rows ∧ stored.row.version = rows.length + 1 := by
  simp only [Numbered, map_append, map_cons, map_nil, length_append,
    length_singleton, List.range'_1_concat]
  constructor
  · intro h
    obtain ⟨hrows, hlast⟩ := append_inj h (by simp)
    exact ⟨hrows, by simpa [Nat.add_comm] using hlast⟩
  · rintro ⟨hrows, hlast⟩
    rw [hrows, hlast, Nat.add_comm]

theorem newest_eq (h : Numbered rows) : newest rows = rows.getLast?.map Stored.row := by
  induction rows using List.reverseRecOn with
  | nil => rfl
  | append_singleton rows stored ih =>
    obtain ⟨hrows, hv⟩ := numbered_concat.1 h
    rw [newest] at ih ⊢
    rw [foldl_append, ih hrows, getLast?_concat]
    cases hlast : rows.getLast? with
    | none => rfl
    | some last =>
      have hmem : last.row.version ∈ rows.map fun stored => stored.row.version :=
        mem_map_of_mem (mem_of_getLast? hlast)
      rw [hrows, mem_range'_1] at hmem
      have hlt : last.row.version < stored.row.version := by omega
      simp [hlt]

theorem version_newest (h : Numbered rows) (hrow : newest rows = some row) :
    row.version = rows.length := by
  induction rows using List.reverseRecOn with
  | nil => cases hrow
  | append_singleton rows stored ih =>
    rw [newest_eq h, getLast?_concat, Option.map_some, Option.some.injEq] at hrow
    rw [← hrow, (numbered_concat.1 h).2, length_append, length_singleton]

theorem not_taken {s : History α η} (h : Numbered (s.rows version.entityId))
    (hfree : s.taken version = false) (hpos : 0 < version.version) :
    (s.rows version.entityId).length < version.version := by
  by_contra hle
  have hmem : version.version ∈ (s.rows version.entityId).map fun stored => stored.row.version := by
    rw [h, mem_range'_1]
    omega
  obtain ⟨stored, hs, heq⟩ := mem_map.1 hmem
  have ht : s.taken version = true := any_eq_true.2 ⟨stored, hs, by simpa using heq⟩
  simp [hfree] at ht

-- ==== the invariant

variable {contentHash : α → η} {s : History α η}

def ownRows (s : History α η) (n : Nat) (entityId : String) : List (Stored α η) :=
  (s.rows entityId).filter fun stored => stored.call = n

/-- Built on the first rows of its entity, `snapshot_if_changed` differing from the last. -/
def Built (contentHash : α → η) (s : History α η) (request : Request α)
    (version : VersionSnapshot α η) : Prop :=
  version.entityId = request.entityId ∧ version.snapshot = request.snapshot ∧
    version.contentHash = contentHash request.snapshot ∧
    ∃ k, k ≤ (s.rows request.entityId).length ∧ version.version = k + 1 ∧
      (request.forced = false → ∀ below, ((s.rows request.entityId).take k).getLast? = some below →
        below.row.contentHash ≠ version.contentHash)

def Held (s : History α η) (entityId : String) (row : VersionSnapshot α η) : Prop :=
  ∃ stored ∈ s.rows entityId, stored.row = row

/-- What a call has come to. -/
def ReturnedOk (contentHash : α → η) (s : History α η) (n : Nat) (request : Request α)
    (result : Option (VersionSnapshot α η)) : Way → Prop
  | .unchanged => result = none ∧ request.forced = false ∧ s.ownRows n request.entityId = [] ∧
      ∃ row ∈ s.moments n, row.contentHash = contentHash request.snapshot
  | .inserted | .retried => ∃ row, result = some row ∧ row.snapshot = request.snapshot ∧
      row.contentHash = contentHash request.snapshot ∧
      s.ownRows n request.entityId = [⟨row, n, request.forced⟩]
  | .met => ∃ row, result = some row ∧ s.Held request.entityId row ∧
      row.contentHash = contentHash request.snapshot ∧ s.ownRows n request.entityId = []
  | .collidedTwice => ∃ row, result = some row ∧ s.Held request.entityId row ∧
      (s.moments n).head? = some row ∧ s.ownRows n request.entityId = []

def StageOk (contentHash : α → η) (s : History α η) (n : Nat) : Stage α η → Prop
  | .absent => ∀ entityId, s.ownRows n entityId = []
  | .reading request => s.ownRows n request.entityId = []
  | .saving request version =>
    s.ownRows n request.entityId = [] ∧ Built contentHash s request version
  | .rereading request _ =>
    s.ownRows n request.entityId = [] ∧ s.rows request.entityId ≠ []
  | .resaving request _ retry =>
    s.ownRows n request.entityId = [] ∧ s.rows request.entityId ≠ [] ∧
      Built contentHash s request retry
  | .refetching request _ =>
    s.ownRows n request.entityId = [] ∧ s.rows request.entityId ≠ []
  | .returned request way result => ReturnedOk contentHash s n request result way

/-- `snapshot_if_changed` put nothing on top of its own content. -/
def Differs (below above : Stored α η) : Prop :=
  above.forced = false → below.row.contentHash ≠ above.row.contentHash

/-- THE INVARIANT. -/
structure Inv (contentHash : α → η) (s : History α η) : Prop where
  numbered : ∀ entityId, Numbered (s.rows entityId)
  hashed : ∀ entityId, ∀ stored ∈ s.rows entityId,
    stored.row.contentHash = contentHash stored.row.snapshot
  differs : ∀ entityId, (s.rows entityId).IsChain Differs
  calls : ∀ n, StageOk contentHash s n (s.calls n)

-- ==== going on

structure GoesOn (n : Nat) (s s' : History α η) : Prop where
  rows : ∀ entityId, ∃ more, s'.rows entityId = s.rows entityId ++ more ∧
    ∀ stored ∈ more, stored.call = n
  moments : ∀ m, m ≠ n → s'.moments m = s.moments m

theorem GoesOn.ownRows {m : Nat} (h : GoesOn n s s') (hm : m ≠ n) (entityId : String) :
    s'.ownRows m entityId = s.ownRows m entityId := by
  obtain ⟨more, hrows, hmore⟩ := h.rows entityId
  have hnone : more.filter (fun stored => stored.call = m) = [] := by
    refine filter_eq_nil_iff.2 fun stored hs => ?_
    have := hmore stored hs
    simp only [decide_eq_true_eq]
    omega
  simp only [History.ownRows, hrows, filter_append, hnone, append_nil]

theorem GoesOn.held (h : GoesOn n s s') (hheld : s.Held entityId row) : s'.Held entityId row := by
  obtain ⟨stored, hs, heq⟩ := hheld
  obtain ⟨more, hrows, -⟩ := h.rows entityId
  exact ⟨stored, hrows ▸ mem_append_left _ hs, heq⟩

theorem GoesOn.nonempty (h : GoesOn n s s') (hrows : s.rows entityId ≠ []) :
    s'.rows entityId ≠ [] := by
  obtain ⟨more, heq, -⟩ := h.rows entityId
  simp [heq, hrows]

theorem GoesOn.built (h : GoesOn n s s') (hb : Built contentHash s request version) :
    Built contentHash s' request version := by
  obtain ⟨he, hs, hhash, k, hk, hv, hbelow⟩ := hb
  obtain ⟨more, hrows, -⟩ := h.rows request.entityId
  refine ⟨he, hs, hhash, k, ?_, hv, ?_⟩
  · rw [hrows, length_append]
    omega
  · rw [hrows, take_append_of_le_length hk]
    exact hbelow

theorem GoesOn.stage {m : Nat} {stage : Stage α η} (h : GoesOn n s s') (hm : m ≠ n)
    (hs : StageOk contentHash s m stage) : StageOk contentHash s' m stage := by
  have hown := h.ownRows hm
  cases stage with
  | absent => exact fun entityId => (hown entityId).trans (hs entityId)
  | reading request => exact (hown _).trans hs
  | saving request version => exact ⟨(hown _).trans hs.1, h.built hs.2⟩
  | rereading request version => exact ⟨(hown _).trans hs.1, h.nonempty hs.2⟩
  | resaving request version retry =>
    exact ⟨(hown _).trans hs.1, h.nonempty hs.2.1, h.built hs.2.2⟩
  | refetching request version => exact ⟨(hown _).trans hs.1, h.nonempty hs.2⟩
  | returned request way result =>
    cases way with
    | unchanged =>
      obtain ⟨hnone, hf, hrows, row, hrow, hhash⟩ := hs
      exact ⟨hnone, hf, (hown _).trans hrows, row, (h.moments m hm).symm ▸ hrow, hhash⟩
    | inserted =>
      obtain ⟨row, hrow, hsnapshot, hhash, hrows⟩ := hs
      exact ⟨row, hrow, hsnapshot, hhash, (hown _).trans hrows⟩
    | retried =>
      obtain ⟨row, hrow, hsnapshot, hhash, hrows⟩ := hs
      exact ⟨row, hrow, hsnapshot, hhash, (hown _).trans hrows⟩
    | met =>
      obtain ⟨row, hrow, hheld, hhash, hrows⟩ := hs
      exact ⟨row, hrow, h.held hheld, hhash, (hown _).trans hrows⟩
    | collidedTwice =>
      obtain ⟨row, hrow, hheld, hlast, hrows⟩ := hs
      exact ⟨row, hrow, h.held hheld, h.moments m hm ▸ hlast, (hown _).trans hrows⟩

theorem GoesOn.setCall (s : History α η) (n : Nat) (stage : Stage α η) :
    GoesOn n s (s.setCall n stage) :=
  ⟨fun _ => ⟨[], by simp [History.setCall]⟩, fun _ _ => rfl⟩

theorem GoesOn.note (s : History α η) (n : Nat) : GoesOn n s (s.note n) := by
  refine ⟨fun _ => ⟨[], by simp [History.note]⟩, fun m hm => ?_⟩
  simp [History.note, hm]

theorem Inv.setCall (n : Nat) (stage : Stage α η) (h : s.Inv contentHash)
    (hs : StageOk contentHash s n stage) : (s.setCall n stage).Inv contentHash := by
  refine ⟨h.numbered, h.hashed, h.differs, fun m => ?_⟩
  by_cases hm : m = n
  · subst hm
    have heq : (s.setCall m stage).calls m = stage := by simp [History.setCall]
    rw [heq]
    cases stage with
    | returned request way result => cases way <;> exact hs
    | _ => exact hs
  · have heq : (s.setCall n stage).calls m = s.calls m := by simp [History.setCall, hm]
    rw [heq]
    exact (GoesOn.setCall s n stage).stage hm (h.calls m)

theorem Inv.insert {way : Way} (hway : way = .inserted ∨ way = .retried) (h : s.Inv contentHash)
    (hown : s.ownRows n request.entityId = []) (hb : Built contentHash s request version)
    (hfree : s.taken version = false) : ((s.insert n request.forced version).setCall n
      (.returned request way (some version))).Inv contentHash := by
  obtain ⟨he, hsnapshot, hhash, k, hk, hv, hbelow⟩ := hb
  have hlen := not_taken (h.numbered version.entityId) hfree (by omega)
  rw [he] at hlen
  -- the number is free, so the row it was built on still is the last
  have hkeq : k = (s.rows request.entityId).length := by omega
  have hat : (s.insert n request.forced version).rows request.entityId =
      s.rows request.entityId ++ [⟨version, n, request.forced⟩] := by
    simp [History.insert, he]
  have ho : ∀ entityId, entityId ≠ request.entityId →
      (s.insert n request.forced version).rows entityId = s.rows entityId := by
    intro entityId hne
    simp [History.insert, he, hne]
  have hgoes : GoesOn n s (s.insert n request.forced version) := by
    refine ⟨fun entityId => ?_, fun _ _ => rfl⟩
    by_cases hne : entityId = request.entityId
    · subst hne
      exact ⟨_, hat, fun stored hs => by rw [mem_singleton.1 hs]⟩
    · exact ⟨[], by simp [ho entityId hne]⟩
  have hret : StageOk contentHash (s.insert n request.forced version) n
      (.returned request way (some version)) := by
    have hrows : (s.insert n request.forced version).ownRows n request.entityId =
        [⟨version, n, request.forced⟩] := by
      simp only [History.ownRows] at hown
      simp [History.ownRows, hat, hown]
    rcases hway with rfl | rfl
    · exact ⟨version, rfl, hsnapshot, hhash, hrows⟩
    · exact ⟨version, rfl, hsnapshot, hhash, hrows⟩
  refine ⟨fun entityId => ?_, fun entityId stored hs => ?_, fun entityId => ?_, fun m => ?_⟩
  · show Numbered ((s.insert n request.forced version).rows entityId)
    by_cases hne : entityId = request.entityId
    · rw [hne, hat]
      exact numbered_concat.2 ⟨h.numbered _, hv.trans (by rw [hkeq])⟩
    · rw [ho entityId hne]
      exact h.numbered entityId
  · change stored ∈ (s.insert n request.forced version).rows entityId at hs
    by_cases hne : entityId = request.entityId
    · rw [hne, hat] at hs
      rcases mem_append.1 hs with hold | hnew
      · exact h.hashed _ stored hold
      · rw [mem_singleton.1 hnew, hsnapshot]
        exact hhash
    · rw [ho entityId hne] at hs
      exact h.hashed entityId stored hs
  · show ((s.insert n request.forced version).rows entityId).IsChain Differs
    by_cases hne : entityId = request.entityId
    · rw [hne, hat, isChain_append]
      refine ⟨h.differs _, isChain_singleton _, fun below hlast above ha => ?_⟩
      simp only [head?_cons, Option.mem_def, Option.some.injEq] at ha
      subst ha
      intro hf
      refine hbelow hf below ?_
      rw [hkeq, take_length]
      exact hlast
    · rw [ho entityId hne]
      exact h.differs entityId
  · by_cases hm : m = n
    · subst hm
      simp only [History.setCall, Function.update_self]
      rcases hway with rfl | rfl
      · exact hret
      · exact hret
    · simp only [History.setCall, Function.update_of_ne hm]
      have hstage := hgoes.stage hm (h.calls m)
      exact (GoesOn.setCall _ n _).stage hm hstage

-- ==== the steps

theorem Inv.built {now : Nat} (h : s.Inv contentHash) (hdiff : request.forced = false →
      ¬ Same contentHash request (s.latest request.entityId)) : Built contentHash s request
      (buildSnapshot contentHash request (s.latest request.entityId) now) := by
  have hn := h.numbered request.entityId
  refine ⟨rfl, rfl, rfl, (s.rows request.entityId).length, le_rfl, ?_, fun hf below hb => ?_⟩
  · cases hl : s.latest request.entityId with
    | none =>
      have hlast := newest_eq hn
      rw [show newest (s.rows request.entityId) = none from hl] at hlast
      simp [buildSnapshot, getLast?_eq_none_iff.1 (Option.map_eq_none_iff.1 hlast.symm)]
    | some row => simp [buildSnapshot, version_newest hn hl]
  · rw [take_length] at hb
    intro heq
    refine hdiff hf ?_
    have hl : s.latest request.entityId = some below.row := by
      rw [History.latest, newest_eq hn, hb, Option.map_some]
    rw [Same, hl, Option.map_some, heq]
    rfl

theorem Inv.held (h : s.Inv contentHash) (hl : s.latest entityId = some row) :
    s.Held entityId row := by
  rw [History.latest, newest_eq (h.numbered entityId)] at hl
  obtain ⟨stored, hlast, rfl⟩ := Option.map_eq_some_iff.1 hl
  exact ⟨stored, mem_of_getLast? hlast, rfl⟩

theorem Inv.exists_latest (h : s.Inv contentHash) (hrows : s.rows entityId ≠ []) :
    ∃ row, s.latest entityId = some row := by
  rw [History.latest, newest_eq (h.numbered entityId)]
  obtain ⟨stored, hlast⟩ := Option.ne_none_iff_exists'.1 (mt getLast?_eq_none_iff.1 hrows)
  exact ⟨stored.row, by rw [hlast, Option.map_some]⟩

theorem rows_of_taken (h : s.taken version = true) : s.rows version.entityId ≠ [] := by
  obtain ⟨stored, hs, -⟩ := any_eq_true.1 h
  exact ne_nil_of_mem hs

theorem Inv.note (h : s.Inv contentHash) : (s.note n).Inv contentHash := by
  refine ⟨h.numbered, h.hashed, h.differs, fun m => ?_⟩
  by_cases hm : m = n
  · subst hm
    have hs := h.calls m
    show StageOk contentHash (s.note m) m (s.calls m)
    cases hcall : s.calls m with
    | returned request way result =>
      -- a call that has returned executes nothing more
      have hsame : (s.note m).moments m = s.moments m := by simp [History.note, hcall, entityOf]
      rw [hcall] at hs
      cases way with
      | unchanged =>
        obtain ⟨hnone, hf, hrows, row, hrow, hhash⟩ := hs
        exact ⟨hnone, hf, hrows, row, hsame.symm ▸ hrow, hhash⟩
      | collidedTwice =>
        obtain ⟨row, hrow, hheld, hlast, hrows⟩ := hs
        exact ⟨row, hrow, hheld, hsame ▸ hlast, hrows⟩
      | _ => exact hs
    | _ =>
      rw [hcall] at hs
      exact hs
  · exact (GoesOn.note s n).stage hm (h.calls m)

variable [DecidableEq η]

/-- STEP LEMMA of a statement. The call has noted what is newest. -/
theorem Inv.proceed {now : Nat} (h : s.Inv contentHash)
    (hnoted : ∀ entityId row, entityOf (s.calls n) = some entityId →
      s.latest entityId = some row → (s.moments n).head? = some row) :
    (s.proceed contentHash n now).Inv contentHash := by
  have hok := h.calls n
  unfold History.proceed
  split
  next request hn =>
    rw [hn] at hok
    show Inv contentHash (if _ then _ else _)
    split
    next hsame =>
      refine h.setCall n _ ⟨rfl, hsame.1, hok, ?_⟩
      obtain ⟨row, hrow, hhash⟩ := Option.map_eq_some_iff.1 hsame.2
      exact ⟨row, mem_of_head? (hnoted _ row (by rw [hn]; rfl) hrow), hhash⟩
    next hsame => exact h.setCall n _ ⟨hok, h.built fun hf hs => hsame ⟨hf, hs⟩⟩
  next request version hn =>
    rw [hn] at hok
    split
    next ht =>
      refine h.setCall n _ ⟨hok.1, ?_⟩
      rw [← hok.2.1]
      exact rows_of_taken ht
    next ht => exact h.insert (.inl rfl) hok.1 hok.2 (Bool.eq_false_iff.2 ht)
  next request version hn =>
    rw [hn] at hok
    show Inv contentHash (if _ then _ else _)
    split
    next hsame =>
      obtain ⟨row, hrow, hhash⟩ := Option.map_eq_some_iff.1 hsame
      exact h.setCall n _ ⟨row, hrow, h.held hrow, hhash, hok.1⟩
    next hsame => exact h.setCall n _ ⟨hok.1, hok.2, h.built fun _ => hsame⟩
  next request version retry hn =>
    rw [hn] at hok
    split
    next ht => exact h.setCall n _ ⟨hok.1, hok.2.1⟩
    next ht => exact h.insert (.inr rfl) hok.1 hok.2.2 (Bool.eq_false_iff.2 ht)
  next request version hn =>
    rw [hn] at hok
    obtain ⟨row, hrow⟩ := h.exists_latest hok.2
    refine h.setCall n _ ⟨row, ?_, h.held hrow, hnoted _ row (by rw [hn]; rfl) hrow, hok.1⟩
    simp [hrow]
  · exact h

/-- STEP LEMMA. -/
theorem Inv.step {input : Input α} (h : s.Inv contentHash) :
    (History.step contentHash s input).Inv contentHash := by
  cases input with
  | call n request =>
    have hok := h.calls n
    simp only [History.step]
    split
    next hn =>
      rw [hn] at hok
      exact h.setCall n _ (hok request.entityId)
    · exact h
  | proceed n now =>
    refine h.note.proceed fun entityId row hn hrow => ?_
    have hn' : entityOf (s.calls n) = some entityId := hn
    have hrow' : s.latest entityId = some row := hrow
    simp [History.note, hn', hrow']

-- ==== whole runs

/-- In every state of every run the versions of each entity are numbered from one on; no
`snapshot_if_changed` stored the content of the version below it; what a call returned is
stored, with the content given unless both its inserts collided, and then it was the newest at
the call's last statement; a call that inserted made one row, the one it returned, and any other
none; and `None` was returned where the content was that of the newest version at one of its
statements. -/
theorem history_exact (contentHash : α → η) (inputs : List (Input α)) :
    ∀ s ∈ Run.states (History.step contentHash) (start : History α η) inputs,
      (∀ entityId, Numbered (s.rows entityId) ∧ (s.rows entityId).IsChain Differs) ∧
      ∀ n request way result, s.calls n = .returned request way result →
        (∀ row, result = some row → s.Held request.entityId row ∧
          (way ≠ .collidedTwice →
            contentHash row.snapshot = contentHash request.snapshot)) ∧
        (way = .collidedTwice → (s.moments n).head? = result) ∧
        s.ownRows n request.entityId =
          (if way = .inserted ∨ way = .retried then
            result.toList.map fun row => ⟨row, n, request.forced⟩ else []) ∧
        ((way = .inserted ∨ way = .retried) → result.isSome) ∧
        (result = none → request.forced = false ∧
          ∃ row ∈ s.moments n, row.contentHash = contentHash request.snapshot) := by
  intro s hs
  obtain ⟨xs, -, -, rfl⟩ := (Run.mem_states_iff _ _ _ _).1 hs
  have h : (Run.final (History.step contentHash) start xs).Inv contentHash := by
    refine Run.kept (P := Inv contentHash) (fun _ _ h => h.step) ?_ xs
    exact ⟨fun _ => rfl, nofun, fun _ => isChain_nil, fun _ _ => rfl⟩
  refine ⟨fun entityId => ⟨h.numbered entityId, h.differs entityId⟩, ?_⟩
  intro n request way result hn
  have hok := h.calls n
  rw [hn] at hok
  -- what is held under its own hash
  have hcontent : ∀ row, (Run.final (History.step contentHash) start xs).Held request.entityId row →
      row.contentHash = contentHash row.snapshot := by
    rintro row ⟨stored, hstored, rfl⟩
    exact h.hashed _ stored hstored
  have hown : ∀ row, (Run.final (History.step contentHash) start xs).ownRows n request.entityId =
      [⟨row, n, request.forced⟩] →
      (Run.final (History.step contentHash) start xs).Held request.entityId row := by
    intro row hrows
    have hmem : (⟨row, n, request.forced⟩ : Stored α η) ∈
        (Run.final (History.step contentHash) start xs).ownRows n request.entityId := by
      rw [hrows]
      exact mem_singleton_self _
    exact ⟨_, mem_of_mem_filter hmem, rfl⟩
  cases way with
  | unchanged =>
    obtain ⟨rfl, hforced, hrows, hmoment⟩ := hok
    refine ⟨fun _ hrow => ?_, nofun, hrows, fun hway => ?_, fun _ => ⟨hforced, hmoment⟩⟩
    · cases hrow
    · simp at hway
  | inserted =>
    obtain ⟨row, rfl, hsnapshot, -, hrows⟩ := hok
    refine ⟨fun row' hrow => ?_, nofun, hrows, fun _ => rfl, nofun⟩
    obtain rfl := Option.some.inj hrow
    exact ⟨hown row hrows, fun _ => by rw [hsnapshot]⟩
  | retried =>
    obtain ⟨row, rfl, hsnapshot, -, hrows⟩ := hok
    refine ⟨fun row' hrow => ?_, nofun, hrows, fun _ => rfl, nofun⟩
    obtain rfl := Option.some.inj hrow
    exact ⟨hown row hrows, fun _ => by rw [hsnapshot]⟩
  | met =>
    obtain ⟨row, rfl, hheld, hhash, hrows⟩ := hok
    refine ⟨fun row' hrow => ?_, nofun, hrows, fun hway => ?_, nofun⟩
    · obtain rfl := Option.some.inj hrow
      exact ⟨hheld, fun _ => (hcontent row hheld).symm.trans hhash⟩
    · simp at hway
  | collidedTwice =>
    obtain ⟨row, rfl, hheld, hlast, hrows⟩ := hok
    refine ⟨fun row' hrow => ?_, fun _ => hlast, hrows, fun hway => ?_, nofun⟩
    · obtain rfl := Option.some.inj hrow
      exact ⟨hheld, fun hne => absurd rfl hne⟩
    · simp at hway

/-- Three callers with different contents read an empty history. -/
def threeAtOnce : List (Input Nat) :=
  [.call 0 ⟨"e", 0, "a", false⟩, .call 1 ⟨"e", 1, "b", false⟩, .call 2 ⟨"e", 2, "c", false⟩,
    .proceed 0 0, .proceed 1 0, .proceed 2 0, .proceed 0 0, .proceed 1 0, .proceed 1 0,
    .proceed 2 0, .proceed 2 0, .proceed 1 0, .proceed 2 0, .proceed 2 0]

def twoForced : List (Input Nat) :=
  [.call 0 ⟨"e", 0, "a", true⟩, .call 1 ⟨"e", 0, "b", true⟩, .proceed 0 0, .proceed 1 0,
    .proceed 0 0, .proceed 1 0, .proceed 1 0]

/-- The row the second forced call returns is stored. -/
theorem history_exact_twoForced :
    (Run.final (History.step id) start twoForced).Held "e" ⟨"e", 1, 0, 0, "a", 0⟩ := by
  have h := (history_exact id twoForced _ (Run.final_mem_states _ _ _)).2 1 ⟨"e", 0, "b", true⟩
    .met (some ⟨"e", 1, 0, 0, "a", 0⟩) rfl
  exact (h.1 _ rfl).1

/-- One call collides twice and returns the row of another; so does a forced call that made none. -/
theorem history_not_exact : (Run.final (History.step id) start threeAtOnce).calls 2 =
        .returned ⟨"e", 2, "c", false⟩ .collidedTwice (some ⟨"e", 2, 1, 1, "b", 0⟩) ∧
      (Run.final (History.step id) start twoForced).calls 1 =
        .returned ⟨"e", 0, "b", true⟩ .met (some ⟨"e", 1, 0, 0, "a", 0⟩) ∧
      (Run.final (History.step id) start twoForced).ownRows 1 "e" = [] :=
  ⟨rfl, rfl, rfl⟩

end History

end Synthorg.Versioning
