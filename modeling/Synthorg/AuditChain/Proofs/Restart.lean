/-
The chain across restarts.

`append` numbers an entry by how many entries the chain holds, and after a
restart the chain holds the rows that were stored. So the numbering goes
on above the stored positions exactly when no position below the last is
missing among them: `restarts_kept_iff`.

Two invariants carry it: `Inv` is what every run keeps, and `Lined` what a
gapless restart opens and every other step keeps.
-/
import Synthorg.AuditChain.Durable
import Synthorg.AuditChain.Proofs.Tamper

namespace Synthorg.AuditChain.Durable

open Synthorg.Core Lib HashChain
open List

variable (sha : Sha256) (cfg : Config)

-- ==== the property

def Gapless (table : Table) : Prop :=
  ∀ (i : Nat) (row : ChainEntry), table.rows[i]? = some row → row.position = i

structure Kept (s : State) : Prop where
  /-- The next entry stands above every stored position. -/
  above : s.phase ≠ .booting → ∀ row ∈ s.table.rows, ∀ eventData signature timestamp,
    row.position < (s.chain.nextEntry sha eventData signature timestamp).position
  unrefused : s.refused = []
  /-- Where nothing was dropped, the restored chain verifies and has the tail of the last one. -/
  same : s.phase = .booting → s.dropped = [] →
    (step sha cfg s .restore).chain.verifyIntegrity sha = true ∧
      (step sha cfg s .restore).chain.tailHash = s.ended.tailHash

def GaplessFrom (s : State) (events : List Event) : Prop :=
  ∀ xs ys, events = xs ++ .restore :: ys →
    (Run.final (step sha cfg) s xs).phase = .booting →
      Gapless (Run.final (step sha cfg) s xs).table

theorem gaplessFrom_guarded : Run.Guarded (step sha cfg) (GaplessFrom sha cfg) := by
  intro s event rest hG xs ys hs
  exact hG (event :: xs) ys (congrArg (event :: ·) hs)

-- ==== the rows

theorem gapless_of_below {table : Table}
    (h : ∀ row ∈ table.rows, row.position < table.rows.length) : Gapless table := by
  intro i row hrow
  obtain ⟨hi, hget⟩ := List.getElem?_eq_some_iff.1 hrow
  have hs : ∀ k, (hk : i + k < table.rows.length) →
      row.position + k ≤ table.rows[i + k].position := by
    intro k
    induction k with
    | zero =>
      intro hk
      rw [← hget]
      exact Nat.le_refl _
    | succ k ih =>
      intro hk
      have hp := ih (by omega)
      have hlt := pairwise_iff_getElem.1 table.ascending (i + k) (i + (k + 1))
        (by omega) hk (by omega)
      omega
  have hlast := hs (table.rows.length - 1 - i) (by omega)
  have hb := h _ (getElem_mem (show i + (table.rows.length - 1 - i) < table.rows.length by omega))
  have hlow := Table.le_position hrow
  omega

theorem Gapless.below {table : Table} (h : Gapless table) {row : ChainEntry}
    (hrow : row ∈ table.rows) : row.position < table.rows.length := by
  obtain ⟨i, hi, hget⟩ := getElem_of_mem hrow
  rw [h i row (hget ▸ getElem?_eq_getElem hi)]
  exact hi

theorem restore_of_sound {chain live : HashChain} (hsnd : Sound sha chain)
    (hinit : live.initialHash = chain.initialHash) : live.restore sha chain.entries = chain := by
  have htail := hsnd.tail_eq
  have hl := hsnd.linked
  obtain ⟨entries, initialHash, tailHash⟩ := chain
  dsimp only at hinit htail hl ⊢
  rw [restore, hinit, htail]
  congr 1
  cases entries using List.reverseRecOn with
  | nil => rfl
  | append_singleton xs last =>
    obtain ⟨-, hp, -⟩ := Chained.linked_append.1 hl
    rw [getLast?_concat, Chained.tail_append]
    show link sha last.previousHash last = link sha _ last
    rw [hp]

-- ==== what every run keeps

/-- WHAT EVERY RUN KEEPS. -/
structure Inv (s : State) : Prop where
  utc : ∀ entry ∈ s.pending, entry.timestamp.utcoffset = 0
  idle : s.phase = .booting → s.pending = []
  initial : s.chain.initialHash = cfg.initialHash
  ended : s.dropped = [] → s.phase = .booting →
    Sound sha s.ended ∧ s.ended.initialHash = cfg.initialHash ∧
      s.ended.entries = s.table.rows
  live : s.dropped = [] → s.phase ≠ .booting →
    Sound sha s.chain ∧ s.chain.entries = s.table.rows ++ s.pending

variable {sha cfg}

theorem inv_start : Inv sha cfg (start cfg) where
  utc := by simp [start, State.pending]
  idle _ := rfl
  initial := rfl
  ended _ _ := ⟨sound_new sha _, rfl, rfl⟩
  live _ h := absurd rfl h

variable {s : State} {entry : ChainEntry}

theorem Inv.gapless (h : Inv sha cfg s) (hp : s.phase = .booting) (hdrop : s.dropped = []) :
    Gapless s.table := by
  obtain ⟨hsnd, -, he⟩ := h.ended hdrop hp
  intro i row hrow
  exact hsnd.positions i row (he ▸ hrow)

theorem pending_of_writing (h : s.writing = some entry) : s.pending = entry :: s.queue := by
  rw [State.pending, h]
  rfl

section
variable (h : Inv sha cfg s)
include h

theorem Inv.above_rows (hdrop : s.dropped = [])
    (hw : s.writing = some entry) : ∀ row ∈ s.table.rows, row.position < entry.position := by
  have hp : s.phase ≠ .booting := by
    intro hp
    have hpending := h.idle hp
    simp [pending_of_writing hw] at hpending
  obtain ⟨hsnd, he⟩ := h.live hdrop hp
  rw [pending_of_writing hw] at he
  have hentry : entry.position = s.table.rows.length := hsnd.positions _ entry (by simp [he])
  intro row hrow
  obtain ⟨i, hi, hget⟩ := getElem_of_mem hrow
  have hpos : row.position = i :=
    hsnd.positions i row (by rw [he, getElem?_append_left hi, ← hget]; simp)
  omega

theorem Inv.lose {t : State} (hdrop : t.dropped = s.dropped ++ [entry])
    (hphase : t.phase = s.phase) (hinit : t.chain.initialHash = s.chain.initialHash)
    (hpending : Sublist t.pending s.pending) : Inv sha cfg t where
  utc e he := h.utc e (hpending.subset he)
  idle hp := sublist_nil.1 (h.idle (hphase ▸ hp) ▸ hpending)
  initial := hinit.trans h.initial
  ended hnil := by simp [hdrop] at hnil
  live hnil := by simp [hdrop] at hnil

theorem Inv.hand (hphase : s.phase = .attached) (eventData signature : Bytes)
    (timestamp : UtcDateTime) : Inv sha cfg ({ s with
      chain := s.chain.append sha eventData signature timestamp.val }.enqueue cfg
        (s.chain.nextEntry sha eventData signature timestamp.val)) := by
  unfold State.enqueue
  split
  next => exact h.lose rfl rfl rfl (Sublist.refl _)
  next =>
    have hpending : State.pending { s with
        chain := s.chain.append sha eventData signature timestamp.val
        queue := s.queue ++ [s.chain.nextEntry sha eventData signature timestamp.val] } =
        s.pending ++ [s.chain.nextEntry sha eventData signature timestamp.val] :=
      (append_assoc _ _ _).symm
    exact
      { utc := by
          rw [hpending]
          intro e he
          rcases mem_append.1 he with he | he
          · exact h.utc e he
          · rw [mem_singleton.1 he]
            exact timestamp.property
        idle := fun hp => by
          simp [hphase] at hp
        initial := h.initial
        ended := fun _ hp => by
          simp [hphase] at hp
        live := fun hnil hp => by
          obtain ⟨hsnd, hevents⟩ := h.live hnil hp
          refine ⟨hsnd.append sha _ _ _, ?_⟩
          rw [hpending, ← append_assoc, ← hevents]
          rfl }

theorem Inv.write (hw : s.writing = some entry) (fails : Bool) :
    Inv sha cfg ({ s with writing := none }.insert entry fails) := by
  have hline := pending_of_writing hw
  have hu : entry.timestamp.utcoffset = 0 := h.utc entry (hline ▸ mem_cons_self)
  have hq : Sublist s.queue s.pending := hline ▸ sublist_cons_self _ _
  rw [State.insert, readBack_eq hu]
  dsimp only
  by_cases hf : fails = true
  · rw [if_pos hf]
    exact h.lose rfl rfl rfl hq
  rw [if_neg hf]
  by_cases hs : s.table.Stored entry.position
  · rw [if_pos hs]
    exact h.lose rfl rfl rfl hq
  rw [if_neg hs]
  exact
    { utc := fun e he => h.utc e (hq.subset he)
      idle := fun hp => sublist_nil.1 (h.idle hp ▸ hq)
      initial := h.initial
      ended := fun _ hp => by
        have hnil := h.idle hp
        simp [hline] at hnil
      live := fun hnil hp => by
        obtain ⟨hsnd, hevents⟩ := h.live hnil hp
        refine ⟨hsnd, hevents.trans ?_⟩
        show s.table.rows ++ s.pending = (s.table.insert entry).rows ++ s.queue
        rw [Table.rows_insert_of_above (h.above_rows hnil hw), hline, append_assoc]
        rfl }

theorem Inv.restore_eq (hp : s.phase = .booting) (hdrop : s.dropped = []) :
    (step sha cfg s .restore).chain = s.ended := by
  obtain ⟨hsnd, hinit, he⟩ := h.ended hdrop hp
  rw [step, if_pos hp]
  show s.chain.restore sha (hydrate sha s.table (HashChain.new s.chain.initialHash)).entries = _
  rw [entries_hydrate, ← he]
  exact restore_of_sound sha hsnd (h.initial.trans hinit.symm)

/-- STEP LEMMA. -/
theorem Inv.step (event : Event) : Inv sha cfg (step sha cfg s event) := by
  cases event with
  | append eventData signature timestamp =>
    rw [Durable.step]
    split
    next hphase =>
      exact
        { utc := h.utc
          idle := fun hp => h.idle hp
          initial := h.initial
          ended := fun hnil hp => h.ended hnil hp
          live := fun _ hp => absurd hphase hp }
    next hphase => exact h.hand hphase eventData signature timestamp
    next => exact h.lose rfl rfl rfl (Sublist.refl _)
    next => exact h.lose rfl rfl rfl (Sublist.refl _)
  | take =>
    rw [Durable.step]
    split
    next entry queue hw hq =>
      have hpending : State.pending { s with writing := some entry, queue := queue } =
          s.pending := by
        rw [State.pending, State.pending, hw, hq]
        rfl
      exact
        { utc := hpending ▸ h.utc
          idle := fun hp => hpending.trans (h.idle hp)
          initial := h.initial
          ended := h.ended
          live := fun hnil hp => hpending ▸ h.live hnil hp }
    next => exact h
  | write fails =>
    rw [Durable.step]
    split
    next entry hw => exact h.write hw fails
    next => exact h
  | restore =>
    by_cases hphase : s.phase = .booting
    · have hlive := h.restore_eq hphase
      have hstep : (Durable.step sha cfg s .restore).phase = .restored ∧
          (Durable.step sha cfg s .restore).pending = s.pending ∧
          (Durable.step sha cfg s .restore).dropped = s.dropped ∧
          (Durable.step sha cfg s .restore).table = s.table ∧
          (Durable.step sha cfg s .restore).chain.initialHash = s.chain.initialHash := by
        rw [Durable.step, if_pos hphase]
        exact ⟨rfl, rfl, rfl, rfl, rfl⟩
      obtain ⟨hrest, hpending, hdrop, ht, hinit⟩ := hstep
      exact
        { utc := hpending ▸ h.utc
          idle := fun _ => hpending.trans (h.idle hphase)
          initial := hinit.trans h.initial
          ended := fun _ hp => by
            simp [hrest] at hp
          live := fun hnil _ => by
            rw [hdrop] at hnil
            obtain ⟨hsnd, -, he⟩ := h.ended hnil hphase
            rw [hlive hnil, hpending, h.idle hphase, ht, append_nil]
            exact ⟨hsnd, he⟩ }
    · rw [Durable.step, if_neg hphase]
      exact h
  | publish =>
    rw [Durable.step]
    split
    next hphase =>
      have hne : s.phase ≠ .booting := by simp [hphase]
      exact
        { utc := h.utc
          idle := nofun
          initial := h.initial
          ended := nofun
          live := fun hnil _ => h.live hnil hne }
    next => exact h
  | close =>
    rw [Durable.step]
    split
    next hphase =>
      have hne : s.phase ≠ .booting := by simp [hphase]
      exact
        { utc := h.utc
          idle := nofun
          initial := h.initial
          ended := nofun
          live := fun hnil _ => h.live hnil hne }
    next => exact h
  | restart =>
    exact
      { utc := by simp [Durable.step, State.pending]
        idle := fun _ => rfl
        initial := rfl
        ended := fun hnil _ => by
          obtain ⟨hdrop, hpending⟩ := append_eq_nil_iff.1 hnil
          by_cases hphase : s.phase = .booting
          · rw [Durable.step, if_pos hphase]
            exact h.ended hdrop hphase
          · obtain ⟨hsnd, he⟩ := h.live hdrop hphase
            rw [hpending, append_nil] at he
            rw [Durable.step, if_neg hphase]
            exact ⟨hsnd, h.initial, he⟩
        live := fun _ hp => absurd rfl hp }

end

/-- RUN LEMMA. -/
theorem inv_run (events : List Event) : Inv sha cfg (run sha cfg events) :=
  Run.kept (P := Inv sha cfg) (fun _ event h => h.step event) inv_start events

-- ==== after a gapless restart

/-- WHAT A GAPLESS RESTART OPENS: rows and queue stand in one ascending line below the next
position. -/
structure Lined (s : State) : Prop where
  ascending : s.phase ≠ .booting →
    (s.table.rows ++ s.pending).Pairwise fun a b => a.position < b.position
  below : s.phase ≠ .booting → ∀ entry ∈ s.table.rows ++ s.pending,
    entry.position < s.chain.entries.length
  unrefused : s.refused = []

theorem lined_start : Lined (start cfg) where
  ascending h := absurd rfl h
  below h := absurd rfl h
  unrefused := rfl

theorem Lined.shrink {t : State} (h : Lined s) (hphase : t.phase = s.phase)
    (ht : t.table = s.table) (hpending : Sublist t.pending s.pending)
    (hlen : s.chain.entries.length ≤ t.chain.entries.length) (href : t.refused = s.refused) :
    Lined t where
  ascending hp := by
    rw [ht]
    exact (h.ascending (hphase ▸ hp)).sublist ((Sublist.refl _).append hpending)
  below hp entry he := by
    rw [ht] at he
    have hlt := h.below (hphase ▸ hp) entry (((Sublist.refl _).append hpending).subset he)
    omega
  unrefused := href.trans h.unrefused

/-- STEP LEMMA: every step but a restart over a gap keeps the line. -/
theorem Lined.step (h : Lined s) (hinv : Inv sha cfg s) (event : Event)
    (hgap : event = .restore → s.phase = .booting → Gapless s.table) :
    Lined (step sha cfg s event) := by
  cases event with
  | append eventData signature timestamp =>
    have hlen : s.chain.entries.length ≤
        (s.chain.append sha eventData signature timestamp.val).entries.length := by
      simp [HashChain.append]
    rw [Durable.step]
    split
    next => exact h.shrink rfl rfl (Sublist.refl _) hlen rfl
    next hphase =>
      unfold State.enqueue
      split
      next => exact h.shrink rfl rfl (Sublist.refl _) hlen rfl
      next =>
        have hne : s.phase ≠ .booting := by simp [hphase]
        have hline : s.table.rows ++ State.pending { s with
            chain := s.chain.append sha eventData signature timestamp.val
            queue := s.queue ++ [s.chain.nextEntry sha eventData signature timestamp.val] } =
            (s.table.rows ++ s.pending) ++
              [s.chain.nextEntry sha eventData signature timestamp.val] := by
          simp [State.pending]
        have hbelow := h.below hne
        exact
          { ascending := fun _ => by
              show Pairwise _ (s.table.rows ++ _)
              rw [hline, pairwise_append]
              refine ⟨h.ascending hne, pairwise_singleton _ _, ?_⟩
              intro a ha b hb
              rw [mem_singleton.1 hb]
              exact hbelow a ha
            below := fun _ entry hentry => by
              rw [HashChain.append, length_append]
              rw [hline, mem_append, mem_singleton] at hentry
              rcases hentry with hentry | hentry
              · have hlt := hbelow entry hentry
                omega
              · rw [hentry]
                exact Nat.lt_succ_self _
            unrefused := h.unrefused }
    next => exact h.shrink rfl rfl (Sublist.refl _) hlen rfl
    next => exact h.shrink rfl rfl (Sublist.refl _) hlen rfl
  | take =>
    rw [Durable.step]
    split
    next entry queue hw hq =>
      refine h.shrink rfl rfl ?_ (Nat.le_refl _) rfl
      rw [State.pending, State.pending, hw, hq]
      exact Sublist.refl _
    next => exact h
  | write fails =>
    rw [Durable.step]
    split
    next entry hw =>
      have hline := pending_of_writing hw
      have hu : entry.timestamp.utcoffset = 0 := hinv.utc entry (hline ▸ mem_cons_self)
      have hne : s.phase ≠ .booting := by
        intro hphase
        have hnil := hinv.idle hphase
        simp [hline] at hnil
      have hq : Sublist s.queue s.pending := hline ▸ sublist_cons_self _ _
      have hascending := h.ascending hne
      rw [hline, pairwise_append] at hascending
      have habove : ∀ row ∈ s.table.rows, row.position < entry.position :=
        fun row hrow => hascending.2.2 row hrow entry mem_cons_self
      have hfresh : ¬ s.table.Stored entry.position := by
        rintro ⟨row, hrow, heq⟩
        have hlt := habove row hrow
        omega
      rw [State.insert, readBack_eq hu]
      dsimp only
      by_cases hf : fails = true
      · rw [if_pos hf]
        exact h.shrink rfl rfl hq (Nat.le_refl _) rfl
      · rw [if_neg hf, if_neg hfresh]
        have hsame : (s.table.insert entry).rows ++ s.queue = s.table.rows ++ s.pending := by
          rw [Table.rows_insert_of_above habove, hline, append_assoc]
          rfl
        exact
          { ascending := fun hp => by
              show Pairwise _ ((s.table.insert entry).rows ++ s.queue)
              rw [hsame]
              exact h.ascending hp
            below := fun hp e he => by
              replace he : e ∈ (s.table.insert entry).rows ++ s.queue := he
              rw [hsame] at he
              exact h.below hp e he
            unrefused := h.unrefused }
    next => exact h
  | restore =>
    by_cases hphase : s.phase = .booting
    · have hg := hgap rfl hphase
      have hpending := hinv.idle hphase
      rw [Durable.step, if_pos hphase]
      exact
        { ascending := fun _ => by
            show Pairwise _ (s.table.rows ++ s.pending)
            rw [hpending, append_nil]
            exact s.table.ascending
          below := fun _ entry hentry => by
            replace hentry : entry ∈ s.table.rows ++ s.pending := hentry
            rw [hpending, append_nil] at hentry
            show entry.position <
              (hydrate sha s.table (HashChain.new s.chain.initialHash)).entries.length
            rw [entries_hydrate]
            exact hg.below hentry
          unrefused := h.unrefused }
    · rw [Durable.step, if_neg hphase]
      exact h
  | publish =>
    rw [Durable.step]
    split
    next hphase =>
      have hne : s.phase ≠ .booting := by simp [hphase]
      exact ⟨fun _ => h.ascending hne, fun _ => h.below hne, h.unrefused⟩
    next => exact h
  | close =>
    rw [Durable.step]
    split
    next hphase =>
      have hne : s.phase ≠ .booting := by simp [hphase]
      exact ⟨fun _ => h.ascending hne, fun _ => h.below hne, h.unrefused⟩
    next => exact h
  | restart => exact ⟨fun hp => absurd rfl hp, fun hp => absurd rfl hp, h.unrefused⟩

/-- RUN LEMMA. -/
theorem lined_run {events : List Event} (hG : GaplessFrom sha cfg (start cfg) events) :
    Lined (run sha cfg events) := by
  have hboth : Inv sha cfg (run sha cfg events) ∧ Lined (run sha cfg events) := by
    refine Run.invariant (G := GaplessFrom sha cfg)
      (P := fun s => Inv sha cfg s ∧ Lined s) (gaplessFrom_guarded sha cfg) ?_ hG
      ⟨inv_start, lined_start⟩
    intro s event rest hG h
    refine ⟨h.1.step event, h.2.step h.1 event fun heq hp => ?_⟩
    rw [heq] at hG
    exact hG [] rest rfl hp
  exact hboth.2

-- ==== the theorem

/-- ACROSS RESTARTS: positions go on, no write is a duplicate and nothing kept is lost, exactly
when every restart reads gapless positions. -/
theorem restarts_kept_iff (sha : Sha256) (cfg : Config) (events : List Event) :
    (∀ s ∈ Run.states (step sha cfg) (start cfg) events, Kept sha cfg s) ↔
      GaplessFrom sha cfg (start cfg) events := by
  constructor
  · intro hkept xs ys hsplit hphase
    have hreached : Run.final (step sha cfg) (start cfg) (xs ++ [.restore]) ∈
        Run.states (step sha cfg) (start cfg) events :=
      (Run.mem_states_iff _ _ _ _).2 ⟨xs ++ [.restore], ys, by simp [hsplit], rfl⟩
    have habove := (hkept _ hreached).above
    rw [Run.final_append, Run.final_cons, step, if_pos hphase] at habove
    refine gapless_of_below fun row hrow => ?_
    have hlt := habove (by simp) row hrow [] [] row.timestamp
    rw [entries_hydrate] at hlt
    exact hlt
  · intro hgapless s hs
    obtain ⟨xs, ys, hsplit, hs⟩ := (Run.mem_states_iff _ _ _ _).1 hs
    have hG : GaplessFrom sha cfg (start cfg) xs := by
      intro as bs hxs hphase
      exact hgapless as (bs ++ ys) (by simp [hsplit, hxs]) hphase
    have hinv : Inv sha cfg s := hs ▸ inv_run xs
    have hl : Lined s := hs ▸ lined_run hG
    exact
      { above := fun hp row hrow _ _ _ => hl.below hp row (mem_append_left _ hrow)
        unrefused := hl.unrefused
        same := fun hphase hdropped => by
          rw [hinv.restore_eq hphase hdropped]
          obtain ⟨hsound, -, -⟩ := hinv.ended hdropped hphase
          refine ⟨?_, rfl⟩
          rw [verifyIntegrity, beq_iff_eq, replay_iff]
          exact ⟨hsound.linked, hsound.tail_eq⟩ }

/-- A restart reads gapless positions unless an entry was dropped since the first start. -/
theorem gapless_of_undropped {xs : List Event} (hp : (run sha cfg xs).phase = .booting)
    (hdrop : (run sha cfg xs).dropped = []) : Gapless (run sha cfg xs).table :=
  (inv_run xs).gapless hp hdrop

-- ==== one failed write

def markedSha : Sha256 where
  digest data := 0 :: data
  digest_ne _ := by simp

def midnight : UtcDateTime :=
  ⟨{ firstTime with month := 3, day := 2, date_ok := by decide }, rfl⟩

def failedWrite : List Event :=
  [.restore, .publish, .append [1] [] midnight, .append [2] [] midnight,
    .take, .write true, .take, .write false, .restart,
    .restore, .publish, .append [3] [] midnight, .take, .write false]

/-- Two rows, a restart, a third row and a restart. -/
def writtenTwice : List Event :=
  [.restore, .publish, .append [1] [] midnight, .append [2] [] midnight,
    .take, .write false, .take, .write false, .restart,
    .restore, .publish, .append [3] [] midnight, .take, .write false, .restart]

theorem gapless_of_undropped_restart :
    let s := run markedSha { initialHash := genesis, queueMaxsize := 10000 } writtenTwice
    Gapless s.table ∧ s.table.rows.length = 3 :=
  ⟨gapless_of_undropped (by decide +kernel) (by decide +kernel), by decide +kernel⟩

/-- One failed write costs another entry its row. -/
theorem write_refused_after_restart : ¬ ∀ (sha : Sha256) (cfg : Config) (events : List Event),
      ∀ s ∈ Run.states (step sha cfg) (start cfg) events, Kept sha cfg s := by
  intro h
  have hrefused := (h markedSha { initialHash := genesis, queueMaxsize := 10000 } failedWrite
    (run markedSha { initialHash := genesis, queueMaxsize := 10000 } failedWrite)
    ((Run.mem_states_iff _ _ _ _).2 ⟨failedWrite, [], by simp, rfl⟩)).unrefused
  have hcount : (run markedSha { initialHash := genesis, queueMaxsize := 10000 }
      failedWrite).refused.length = 1 := by decide +kernel
  simp [hrefused] at hcount

end Synthorg.AuditChain.Durable
