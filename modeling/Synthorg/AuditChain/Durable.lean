/-
The durable writer across restarts (audit_chain/durable_writer.py
`enqueue`, `_drain` and `stop`, sink.py `attach_persistence` and
`aclose_persistence`, the write side of
persistence/sqlite/audit_chain_repo.py, and core/iso_datetime.py).

One process after another boots with a new chain over one table, restores it from the rows,
publishes the writer, appends, closes, and ends, at any moment; what its queue still held then is
lost. The drain task takes one entry at a time off the queue and inserts its row, which the
primary key refuses for a stored position.

`ended`, `dropped` and `refused` are ghosts.
-/
import Synthorg.AuditChain.Chain

namespace Synthorg.AuditChain

open Synthorg.Core Lib HashChain Numeral
open List

-- ==== stored timestamps

/-- A timestamp in UTC, as every provider gives it (timestamping.py). -/
abbrev UtcDateTime := { t : DateTime // t.utcoffset = 0 }

/-- `+00:00`. -/
def utcSuffix : List Char := ['+', '0', '0', ':', '0', '0']

/-- Of a timestamp in UTC, which `astimezone(UTC)` leaves as it is. -/
def formatIsoUtc (t : DateTime) : Option (List Char) :=
  if t.utcoffset = 0 then some (isoformat t) else none

def expect (c : Char) : List Char → Option (List Char)
  | head :: rest => if head = c then some rest else none
  | [] => none

def readFraction : List Char → Option (Nat × List Char)
  | '.' :: rest => readDecimal 0 6 rest
  | text => some (0, text)

/-- Of the texts `format_iso_utc` writes. -/
def parseIsoUtc (text : List Char) : Option DateTime := do
  let (year, rest) ← readDecimal 0 4 text
  let (month, rest) ← readDecimal 0 2 (← expect '-' rest)
  let (day, rest) ← readDecimal 0 2 (← expect '-' rest)
  let (hour, rest) ← readDecimal 0 2 (← expect 'T' rest)
  let (minute, rest) ← readDecimal 0 2 (← expect ':' rest)
  let (second, rest) ← readDecimal 0 2 (← expect ':' rest)
  let (microsecond, rest) ← readFraction rest
  if h : dateInRange year month day = true ∧ hour < 24 ∧ minute < 60 ∧ second < 60 ∧
      microsecond < 1000000 ∧ rest = utcSuffix then
    some { year := year, month := month, day := day, hour := hour, minute := minute,
           second := second, microsecond := microsecond, utcoffset := 0,
           date_ok := h.1, hour_lt := h.2.1, minute_lt := h.2.2.1, second_lt := h.2.2.2.1,
           microsecond_lt := h.2.2.2.2.1, utcoffset_lt := utc_lt }
  else none

@[simp]
theorem expect_cons (c : Char) (rest : List Char) : expect c (c :: rest) = some rest := by
  simp [expect]

theorem readDecimal_of_lt {w n : Nat} (h : n < 10 ^ w) (rest : List Char) :
    readDecimal 0 w (numeral 10 w n ++ rest) = some (n, rest) := by
  rw [readDecimal_numeral, Nat.zero_mul, Nat.zero_add, Nat.mod_eq_of_lt h]

theorem readFraction_fraction {n : Nat} (h : n < 1000000) :
    readFraction (fraction n ++ utcSuffix) = some (n, utcSuffix) := by
  unfold fraction
  split
  next hzero =>
    rw [hzero]
    rfl
  next => exact readDecimal_of_lt h utcSuffix

/-- ROUND TRIP: the stored text of a UTC timestamp reads back as it. -/
theorem parseIsoUtc_isoformat {t : DateTime} (hu : t.utcoffset = 0) :
    parseIsoUtc (isoformat t) = some t := by
  have hr := t.date_ok
  simp only [dateInRange, Bool.and_eq_true, decide_eq_true_eq] at hr
  have hm : daysInMonth t.year t.month ≤ 31 ∧
      (12 < t.month → daysInMonth t.year t.month = 0) := by
    unfold daysInMonth
    split <;> (try split) <;> omega
  have hhour := t.hour_lt
  have hmin := t.minute_lt
  have hsec := t.second_lt
  have hoffs : formatOffset t.utcoffset = utcSuffix := by
    rw [hu]
    rfl
  unfold parseIsoUtc isoformat
  rw [hoffs]
  simp only [readDecimal_of_lt (show t.year < 10 ^ 4 by omega),
    readDecimal_of_lt (show t.month < 10 ^ 2 by omega),
    readDecimal_of_lt (show t.day < 10 ^ 2 by omega),
    readDecimal_of_lt (show t.hour < 10 ^ 2 by omega),
    readDecimal_of_lt (show t.minute < 10 ^ 2 by omega),
    readDecimal_of_lt (show t.second < 10 ^ 2 by omega),
    readFraction_fraction t.microsecond_lt, expect_cons, Option.bind_eq_bind,
    Option.bind_some]
  rw [dif_pos ⟨t.date_ok, t.hour_lt, t.minute_lt, t.second_lt, t.microsecond_lt, trivial⟩]
  simp only [← hu]

-- ==== inserting

namespace Table

def Stored (table : Table) (position : Nat) : Prop :=
  ∃ row ∈ table.rows, row.position = position

instance (table : Table) (position : Nat) : Decidable (table.Stored position) :=
  inferInstanceAs (Decidable (∃ row ∈ table.rows, row.position = position))

def insert (table : Table) (row : ChainEntry) : Table where
  rows := table.rows.filter (fun r => r.position < row.position) ++
    row :: table.rows.filter (fun r => row.position < r.position)
  ascending := by
    rw [pairwise_append, pairwise_cons]
    refine ⟨table.ascending.filter _, ⟨?_, table.ascending.filter _⟩, ?_⟩
    · intro r hr
      exact of_decide_eq_true (mem_filter.1 hr).2
    · intro r hr r' hr'
      have hlt := of_decide_eq_true (mem_filter.1 hr).2
      rcases mem_cons.1 hr' with heq | hr'
      · rw [heq]
        exact hlt
      · exact Nat.lt_trans hlt (of_decide_eq_true (mem_filter.1 hr').2)

theorem rows_insert_of_above {table : Table} {row : ChainEntry}
    (h : ∀ r ∈ table.rows, r.position < row.position) :
    (table.insert row).rows = table.rows ++ [row] := by
  have hb : table.rows.filter (fun r => r.position < row.position) = table.rows := by
    rw [filter_eq_self]
    exact fun r hr => decide_eq_true (h r hr)
  have ha : table.rows.filter (fun r => row.position < r.position) = [] := by
    rw [filter_eq_nil_iff]
    intro r hr
    have hlt := h r hr
    simp only [decide_eq_true_eq]
    omega
  show table.rows.filter _ ++ row :: table.rows.filter _ = _
  rw [hb, ha]

end Table

/-- An entry as its row reads back (`_row_to_entry` of the inserted texts). -/
def readBack (entry : ChainEntry) : Option ChainEntry := do
  let text ← formatIsoUtc entry.timestamp
  let timestamp ← parseIsoUtc text
  return { entry with timestamp := timestamp }

theorem readBack_eq {entry : ChainEntry} (hu : entry.timestamp.utcoffset = 0) :
    readBack entry = some entry := by
  simp [readBack, formatIsoUtc, hu, parseIsoUtc_isoformat hu]

-- ==== the writer

namespace Durable

inductive Phase where
  /-- No writer; the chain is this process's own. -/
  | booting
  /-- The rows are restored; the writer is not published yet. -/
  | restored
  | attached
  /-- `aclose_persistence`: detached, the queue being flushed. -/
  | closing
  deriving DecidableEq

/-- What every process is configured with; `queueMaxsize = 0` sets no bound. -/
structure Config where
  initialHash : NotBlankStr
  queueMaxsize : Nat

structure State where
  phase : Phase
  chain : HashChain
  queue : List ChainEntry
  writing : Option ChainEntry
  table : Table
  ended : HashChain
  dropped : List ChainEntry
  refused : List ChainEntry

inductive Event where
  /-- `AuditChainSink.emit` appends, and hands the entry to a published
  writer. -/
  | append (eventData signature : Bytes) (timestamp : UtcDateTime)
  /-- The drain task takes the next entry. -/
  | take
  /-- Its write comes to an end; `fails` is a database error. -/
  | write (fails : Bool)
  /-- `attach_persistence` up to the restored chain. -/
  | restore
  /-- The rest of `attach_persistence`. -/
  | publish
  | close
  /-- The process ends, and the next one boots. -/
  | restart

namespace State

def pending (s : State) : List ChainEntry := s.writing.toList ++ s.queue

def full (cfg : Config) (s : State) : Bool :=
  0 < cfg.queueMaxsize ∧ cfg.queueMaxsize ≤ s.queue.length

def enqueue (cfg : Config) (s : State) (entry : ChainEntry) : State :=
  if s.full cfg then { s with dropped := s.dropped ++ [entry] }
  else { s with queue := s.queue ++ [entry] }

/-- `repo.append`, and the drain's handling of its error. -/
def insert (s : State) (entry : ChainEntry) (fails : Bool) : State :=
  match readBack entry with
  | some row =>
    if fails then { s with dropped := s.dropped ++ [entry] }
    else if s.table.Stored entry.position then
      { s with dropped := s.dropped ++ [entry], refused := s.refused ++ [entry] }
    else { s with table := s.table.insert row }
  | none => { s with dropped := s.dropped ++ [entry] }

end State

/-- The first process, over an empty table. -/
def start (cfg : Config) : State :=
  { phase := .booting
    chain := HashChain.new cfg.initialHash
    queue := []
    writing := none
    table := { rows := [], ascending := Pairwise.nil }
    ended := HashChain.new cfg.initialHash
    dropped := []
    refused := [] }

variable (sha : Sha256) (cfg : Config)

def step (s : State) : Event → State
  | .append eventData signature timestamp =>
    let entry := s.chain.nextEntry sha eventData signature timestamp.val
    let appended := { s with chain := s.chain.append sha eventData signature timestamp.val }
    match s.phase with
    | .booting => appended
    | .attached => appended.enqueue cfg entry
    | .restored => { appended with dropped := s.dropped ++ [entry] }
    | .closing => { appended with dropped := s.dropped ++ [entry] }
  | .take =>
    match s.writing, s.queue with
    | none, entry :: queue => { s with writing := some entry, queue := queue }
    | _, _ => s
  | .write fails =>
    match s.writing with
    | some entry => { s with writing := none }.insert entry fails
    | none => s
  | .restore =>
    if s.phase = .booting then
      { s with
        phase := .restored
        chain := s.chain.restore sha
          (hydrate sha s.table (HashChain.new s.chain.initialHash)).entries }
    else s
  | .publish => if s.phase = .restored then { s with phase := .attached } else s
  | .close => if s.phase = .attached then { s with phase := .closing } else s
  | .restart =>
    { phase := .booting
      chain := HashChain.new cfg.initialHash
      queue := []
      writing := none
      table := s.table
      ended := if s.phase = .booting then s.ended else s.chain
      dropped := s.dropped ++ s.pending
      refused := s.refused }

def run (events : List Event) : State := Run.final (step sha cfg) (start cfg) events

end Durable

end Synthorg.AuditChain
