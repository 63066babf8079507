/-
The sink's concurrent appends (audit_chain/sink.py `emit` from
`_sign_append_notify` on, `_sign_and_timestamp`, and
_record_extraction.py `build_binding_payload`).

An emitting thread submits a signing job to the executor and waits for its
result for a while; the one worker runs the jobs in the order of their
submission; the thread that got its result takes the lock and appends.
Every event is one thread's next atomic step. `Stamp.depth` is a ghost.

The chain itself (chain.py): `append` links a new entry on, `restore` recomputes the tail from the
LAST entry read back (durable_writer.py `hydrate`), and `verifyIntegrity` replays the links.
`Sha256` is any function from bytes to a digest that is not empty.
-/
import Synthorg.Lib.Run
import Synthorg.Lib.Chained
import Synthorg.Core.Validation
import Synthorg.Lib.Numeral
import Synthorg.Lib.Segments

namespace Synthorg.AuditChain

section
open List

section
open Synthorg.Core Lib Numeral

-- ==== bytes

abbrev Bytes := List UInt8

/-- UTF-8. -/
def encode (s : String) : Bytes := s.toByteArray.data.toList

theorem encode_inj {s t : String} (h : encode s = encode t) : s = t := by
  apply String.toByteArray_inj.1
  apply ByteArray.ext
  exact Array.toList_inj.1 h

def hex (bytes : Bytes) : List Char :=
  bytes.flatMap fun byte => numeral 16 2 byte.toNat

theorem hex_inj {xs ys : Bytes} (h : hex xs = hex ys) : xs = ys := by
  induction xs generalizing ys with
  | nil =>
    cases ys with
    | nil => rfl
    | cons y ys =>
      have hlen := congrArg List.length h
      simp [hex] at hlen
      omega
  | cons x xs ih =>
    cases ys with
    | nil =>
      have hlen := congrArg List.length h
      simp [hex] at hlen
    | cons y ys =>
      have hb := x.toNat_lt
      have hb' := y.toNat_lt
      obtain ⟨hhead, htail⟩ := numeral_append_inj (by decide) (by decide) (by omega) (by omega) h
      rw [UInt8.toNat_inj.1 hhead, ih htail]

variable {bytes s s' : Bytes} {n : Nat} {t t' : DateTime} {p p' e e' : String}

theorem isHexDigit_of_mem_hex {c : Char} (h : c ∈ hex bytes) : isHexDigit c = true := by
  obtain ⟨byte, -, hc⟩ := mem_flatMap.1 h
  obtain ⟨d, hd, rfl⟩ := digit_of_mem (by decide) hc
  have hall : ∀ d : Fin 16, isHexDigit (Nat.digitChar d) = true := by decide
  exact hall ⟨d, hd⟩

theorem bar_notMem_hex (bytes : Bytes) : '|' ∉ hex bytes := by
  intro h
  have hd := isHexDigit_of_mem_hex h
  revert hd
  decide

theorem notBlank_hex (h : bytes ≠ []) : notBlank (String.ofList (hex bytes)) = true := by
  obtain ⟨byte, rest, rfl⟩ := exists_cons_of_ne_nil h
  unfold notBlank
  rw [String.toList_ofList, any_eq_true]
  have hlen : 0 < (hex (byte :: rest)).length := by
    rw [hex, flatMap_cons, length_append, length_numeral]
    omega
  refine ⟨(hex (byte :: rest))[0], getElem_mem hlen, ?_⟩
  rw [isHexDigit_not_space (isHexDigit_of_mem_hex (getElem_mem hlen))]
  rfl

-- ==== timestamps

/-- One day in microseconds, the strict bound of a `utcoffset`. -/
def dayMicroseconds : Nat := 86400000000

/-- An aware `datetime`: its fields and its offset from UTC in
microseconds. -/
structure DateTime where
  year : Nat
  month : Nat
  day : Nat
  hour : Nat
  minute : Nat
  second : Nat
  microsecond : Nat
  utcoffset : Int
  date_ok : dateInRange year month day = true
  hour_lt : hour < 24
  minute_lt : minute < 60
  second_lt : second < 60
  microsecond_lt : microsecond < 1000000
  utcoffset_lt : utcoffset.natAbs < dayMicroseconds
  deriving DecidableEq

theorem utc_lt : Int.natAbs 0 < dayMicroseconds := by decide

/-- `.ffffff`, left out where it is zero. -/
def fraction (microsecond : Nat) : List Char :=
  if microsecond = 0 then [] else '.' :: numeral 10 6 microsecond

/-- `+HH:MM[:SS[.ffffff]]`. -/
def formatOffset (utcoffset : Int) : List Char :=
  let off := utcoffset.natAbs
  (if utcoffset < 0 then '-' else '+') ::
    (numeral 10 2 (off / 3600000000) ++ ':' :: (numeral 10 2 (off / 60000000 % 60) ++
      (if off % 60000000 = 0 then []
       else ':' :: (numeral 10 2 (off / 1000000 % 60) ++ fraction (off % 1000000)))))

def isoformat (t : DateTime) : List Char :=
  numeral 10 4 t.year ++ '-' :: (numeral 10 2 t.month ++ '-' :: (numeral 10 2 t.day ++
    'T' :: (numeral 10 2 t.hour ++ ':' :: (numeral 10 2 t.minute ++
      ':' :: (numeral 10 2 t.second ++ (fraction t.microsecond ++
        formatOffset t.utcoffset))))))

/-- A fraction read off the front of a text that does not go on with a
dot. -/
theorem fraction_append_inj {m : Nat} (hm : m < 1000000) (hn : n < 1000000) {xs ys : List Char}
    (hxs : xs.head? ≠ some '.') (hys : ys.head? ≠ some '.')
    (h : fraction m ++ xs = fraction n ++ ys) : m = n ∧ xs = ys := by
  unfold fraction at h
  split at h
  next hzero =>
    split at h
    next hzero' => exact ⟨hzero.trans hzero'.symm, h⟩
    next =>
      rw [nil_append] at h
      rw [h] at hxs
      exact absurd rfl hxs
  next =>
    split at h
    next =>
      rw [nil_append] at h
      rw [← h] at hys
      exact absurd rfl hys
    next =>
      rw [cons_append, cons_append, cons.injEq] at h
      exact numeral_append_inj (by decide) (by decide) hm hn h.2

theorem formatOffset_inj {m n : Int} (hm : m.natAbs < dayMicroseconds)
    (hn : n.natAbs < dayMicroseconds) (h : formatOffset m = formatOffset n) : m = n := by
  unfold dayMicroseconds at hm hn
  unfold formatOffset at h
  rw [cons.injEq] at h
  obtain ⟨hsign, h⟩ := h
  obtain ⟨hh, h⟩ := numeral_append_inj (by decide) (by decide) (by omega) (by omega) h
  rw [cons.injEq] at h
  obtain ⟨hminute, h⟩ := numeral_append_inj (by decide) (by decide) (by omega) (by omega) h.2
  have hrest : m.natAbs % 60000000 = n.natAbs % 60000000 := by
    split at h
    next hzero =>
      split at h
      next hzero' => rw [hzero, hzero']
      next => cases h
    next =>
      split at h
      next => cases h
      next =>
        rw [cons.injEq] at h
        obtain ⟨hs, hfrac⟩ := numeral_append_inj (by decide) (by decide)
          (by omega) (by omega) h.2
        rw [← append_nil (fraction _), ← append_nil (fraction (n.natAbs % 1000000))] at hfrac
        have hi := (fraction_append_inj (by omega) (by omega) (by simp) (by simp) hfrac).1
        omega
  have hsigns : m < 0 ↔ n < 0 := by
    split at hsign
    next hneg =>
      split at hsign
      next hneg' => exact ⟨fun _ => hneg', fun _ => hneg⟩
      next => exact absurd hsign (by decide)
    next hpos =>
      split at hsign
      next => exact absurd hsign (by decide)
      next hpos' => exact ⟨fun h => absurd h hpos, fun h => absurd h hpos'⟩
  omega

theorem formatOffset_head (m : Int) : (formatOffset m).head? ≠ some '.' := by
  unfold formatOffset
  split <;> simp

theorem isoformat_inj {s : DateTime} (h : isoformat s = isoformat t) : s = t := by
  obtain ⟨sy, smo, sd, sh, smi, ss, sus, so, sdate, shour, smin, ssec, smic, soff⟩ := s
  obtain ⟨ty, tmo, td, th, tmi, ts, tus, tof, tdate, thour, tmin, tsec, tmic, toff⟩ := t
  have hdate : ∀ {y m d : Nat}, dateInRange y m d = true →
      y < 10 ^ 4 ∧ m < 10 ^ 2 ∧ d < 10 ^ 2 := by
    intro y m d hr
    simp only [dateInRange, Bool.and_eq_true, decide_eq_true_eq] at hr
    have hm : daysInMonth y m ≤ 31 ∧ (12 < m → daysInMonth y m = 0) := by
      unfold daysInMonth
      split <;> (try split) <;> omega
    omega
  obtain ⟨hsy, hs, hsd⟩ := hdate sdate
  obtain ⟨hty, ht, htd⟩ := hdate tdate
  unfold isoformat at h
  dsimp only at h
  obtain ⟨hyear, h⟩ := numeral_append_inj (by decide) (by decide) hsy hty h
  obtain ⟨hm, h⟩ := numeral_append_inj (by decide) (by decide) hs ht (cons.inj h).2
  obtain ⟨hday, h⟩ := numeral_append_inj (by decide) (by decide) hsd htd (cons.inj h).2
  obtain ⟨hhour, h⟩ := numeral_append_inj (by decide) (by decide) (by omega) (by omega)
    (cons.inj h).2
  obtain ⟨hmin, h⟩ := numeral_append_inj (by decide) (by decide) (by omega) (by omega)
    (cons.inj h).2
  obtain ⟨hsec, h⟩ := numeral_append_inj (by decide) (by decide) (by omega) (by omega)
    (cons.inj h).2
  obtain ⟨hc, h⟩ := fraction_append_inj smic tmic (formatOffset_head so) (formatOffset_head tof) h
  rw [DateTime.mk.injEq]
  exact ⟨hyear, hm, hday, hhour, hmin, hsec, hc, formatOffset_inj soff toff h⟩

-- ==== a link's input

theorem bar_notMem_numeral {b w : Nat} (hb : 0 < b) (hbase : b ≤ 16) : '|' ∉ numeral b w n := by
  intro h
  obtain ⟨d, hd, hbar⟩ := digit_of_mem hb h
  have hall : ∀ d : Fin 16, '|' ≠ Nat.digitChar d := by decide
  exact hall ⟨d, by omega⟩ hbar

theorem bar_notMem_fraction (n : Nat) : '|' ∉ fraction n := by
  unfold fraction
  split
  next => simp
  next => simp [bar_notMem_numeral]

theorem bar_notMem_isoformat (t : DateTime) : '|' ∉ isoformat t := by
  have hoffs : '|' ∉ formatOffset t.utcoffset := by
    unfold formatOffset
    dsimp only
    split <;> split <;> simp [bar_notMem_numeral, bar_notMem_fraction]
  simp [isoformat, bar_notMem_numeral, bar_notMem_fraction, hoffs]

/-- The four texts `_link_hash` joins, as one text. -/
def linkInput (previousHash eventHash : String) (signature : Bytes)
    (timestamp : DateTime) : String :=
  String.ofList (previousHash.toList ++ '|' :: (eventHash.toList ++
    '|' :: (hex signature ++ '|' :: isoformat timestamp)))

theorem linkInput_inj (h : linkInput p e s t = linkInput p' e' s' t') :
    p.toList ++ '|' :: e.toList = p'.toList ++ '|' :: e'.toList ∧ s = s' ∧ t = t' := by
  have hl := congrArg String.toList h
  simp only [linkInput, String.toList_ofList] at hl
  rw [← cons_append, ← cons_append, ← append_assoc, ← append_assoc,
    ← cons_append, ← append_assoc, ← cons_append,
    ← append_assoc] at hl
  obtain ⟨hf, htime⟩ := Segments.cut_unique_last (bar_notMem_isoformat t)
    (bar_notMem_isoformat t') hl
  obtain ⟨hf, hsig⟩ := Segments.cut_unique_last (bar_notMem_hex s) (bar_notMem_hex s') hf
  exact ⟨hf, hex_inj hsig, isoformat_inj htime⟩

/-- Where the previous hashes are free of the separator, it says all
four. -/
theorem linkInput_hash_inj (hp : '|' ∉ p.toList) (hp' : '|' ∉ p'.toList)
    (h : linkInput p e s t = linkInput p' e' s' t') : p = p' ∧ e = e' ∧ s = s' ∧ t = t' := by
  obtain ⟨hf, hs, ht⟩ := linkInput_inj h
  obtain ⟨hprevious, he⟩ := Segments.cut_unique hp hp' hf
  exact ⟨String.toList_injective hprevious, String.toList_injective he, hs, ht⟩

end

open Synthorg.Core Lib

-- ==== the hash

abbrev NotBlankStr := { s : String // notBlank s = true }

/-- `hashlib.sha256(data).digest()`. -/
structure Sha256 where
  digest : Bytes → Bytes
  digest_ne : ∀ data, digest data ≠ []

namespace Sha256

/-- `hashlib.sha256(data).hexdigest()`. -/
def hexdigest (sha : Sha256) (data : Bytes) : NotBlankStr :=
  ⟨String.ofList (hex (sha.digest data)), notBlank_hex (sha.digest_ne data)⟩

def Injective (sha : Sha256) : Prop := Function.Injective sha.digest

theorem hexdigest_inj {sha : Sha256} (hsha : sha.Injective) {xs ys : Bytes}
    (h : sha.hexdigest xs = sha.hexdigest ys) : xs = ys := by
  have ht := congrArg (fun s : NotBlankStr => s.val.toList) h
  simp only [hexdigest, String.toList_ofList] at ht
  exact hsha (hex_inj ht)

theorem bar_notMem_hexdigest (sha : Sha256) (data : Bytes) :
    '|' ∉ (sha.hexdigest data).val.toList := by
  rw [hexdigest, String.toList_ofList]
  exact bar_notMem_hex _

end Sha256

-- ==== the chain

structure ChainEntry where
  position : Nat
  eventHash : NotBlankStr
  previousHash : NotBlankStr
  canonicalPayload : Bytes
  signature : Bytes
  timestamp : DateTime
  deriving DecidableEq

structure HashChain where
  entries : List ChainEntry
  initialHash : NotBlankStr
  tailHash : NotBlankStr

def genesis : NotBlankStr := ⟨"genesis", by decide⟩

namespace HashChain

variable (sha : Sha256)

/-- `HashChain(initial_hash)`. -/
def new (initialHash : NotBlankStr) : HashChain :=
  { entries := [], initialHash := initialHash, tailHash := initialHash }

def linkHash (previousHash eventHash : NotBlankStr) (signature : Bytes)
    (timestamp : DateTime) : NotBlankStr :=
  sha.hexdigest (encode (linkInput previousHash.val eventHash.val signature timestamp))

def link (previousHash : NotBlankStr) (entry : ChainEntry) : NotBlankStr :=
  linkHash sha previousHash entry.eventHash entry.signature entry.timestamp

def restore (chain : HashChain) (entries : List ChainEntry) : HashChain :=
  { chain with
    entries := entries
    tailHash := match entries.getLast? with
      | some last => link sha last.previousHash last
      | none => chain.initialHash }

/-- The entry `append` makes. -/
def nextEntry (chain : HashChain) (eventData signature : Bytes) (timestamp : DateTime) :
    ChainEntry :=
  { position := chain.entries.length
    eventHash := sha.hexdigest eventData
    previousHash := chain.tailHash
    canonicalPayload := eventData
    signature := signature
    timestamp := timestamp }

def append (chain : HashChain) (eventData signature : Bytes) (timestamp : DateTime) : HashChain :=
  { chain with
    entries := chain.entries ++ [chain.nextEntry sha eventData signature timestamp]
    tailHash := linkHash sha chain.tailHash (sha.hexdigest eventData) signature timestamp }

/-- The loop of `verify_integrity`: the hash expected before each entry. -/
def replay (expectedPrev : NotBlankStr) : List ChainEntry → Option NotBlankStr
  | [] => some expectedPrev
  | entry :: rest =>
    if entry.previousHash ≠ expectedPrev then none
    else replay (link sha expectedPrev entry) rest

def verifyIntegrity (chain : HashChain) : Bool :=
  replay sha chain.initialHash chain.entries == some chain.tailHash

theorem link_inj {sha : Sha256} (hsha : sha.Injective) {h : NotBlankStr}
    {a b : ChainEntry} (heq : link sha h a = link sha h b) :
    a.eventHash = b.eventHash ∧ a.signature = b.signature ∧ a.timestamp = b.timestamp := by
  obtain ⟨hf, hsign, ht⟩ := linkInput_inj (encode_inj (Sha256.hexdigest_inj hsha heq))
  rw [append_cancel_left_eq, cons.injEq] at hf
  exact ⟨Subtype.ext (String.toList_injective hf.2), hsign, ht⟩

theorem hexdigest_ne_genesis (sha : Sha256) (data : Bytes) : sha.hexdigest data ≠ genesis := by
  intro h
  have hmem : 'g' ∈ (sha.hexdigest data).val.toList := by
    rw [h]
    decide
  rw [Sha256.hexdigest, String.toList_ofList] at hmem
  have hd := isHexDigit_of_mem_hex hmem
  revert hd
  decide

theorem previousHash_inj {sha : Sha256} (hsha : sha.Injective) {h h' : NotBlankStr}
    (hbar : '|' ∉ h.val.toList) (hbar' : '|' ∉ h'.val.toList) {a b : ChainEntry}
    (heq : link sha h a = link sha h' b) : h = h' :=
  Subtype.ext (linkInput_hash_inj hbar hbar'
    (encode_inj (Sha256.hexdigest_inj hsha heq))).1

theorem length_eq_of_tail_eq {sha : Sha256} (hsha : sha.Injective) {xs ys : List ChainEntry}
    (heq : Chained.tail (link sha) genesis xs = Chained.tail (link sha) genesis ys) :
    xs.length = ys.length :=
  Chained.length_eq_of_tail_eq (P := fun h : NotBlankStr => '|' ∉ h.val.toList) (by decide)
    (fun _ _ => Sha256.bar_notMem_hexdigest sha _)
    (fun _ _ _ _ hbar hbar' => previousHash_inj hsha hbar hbar')
    (fun _ _ => hexdigest_ne_genesis sha _) heq

-- ==== its invariant

theorem replay_iff {h t : NotBlankStr} {entries : List ChainEntry} : replay sha h entries = some t ↔
      Chained.Linked ChainEntry.previousHash (link sha) h entries ∧
        t = Chained.tail (link sha) h entries := by
  induction entries generalizing h with
  | nil => simp [replay, Chained.Linked, eq_comm]
  | cons entry rest ih =>
    rw [replay, Chained.Linked, Chained.tail_cons, ite_not]
    split
    next heq => rw [ih, and_iff_right heq]
    next hne => simp [hne]

/-- WHAT A CHAIN KEEPS: every link holds, the tail is the running hash, and
positions count from zero. -/
structure Sound (chain : HashChain) : Prop where
  linked : Chained.Linked ChainEntry.previousHash (link sha) chain.initialHash chain.entries
  tail_eq : chain.tailHash = Chained.tail (link sha) chain.initialHash chain.entries
  positions : ∀ (i : Nat) (entry : ChainEntry), chain.entries[i]? = some entry →
    entry.position = i

theorem sound_new (initialHash : NotBlankStr) : Sound sha (new initialHash) where
  linked := trivial
  tail_eq := rfl
  positions i entry h := by simp [new] at h

/-- STEP LEMMA: an append keeps it. -/
theorem Sound.append {chain : HashChain} (h : Sound sha chain) (eventData signature : Bytes)
    (timestamp : DateTime) : Sound sha (chain.append sha eventData signature timestamp) where
  linked := h.linked.snoc h.tail_eq
  tail_eq := by
    show linkHash sha chain.tailHash _ _ _ = _
    rw [HashChain.append, Chained.tail_append, ← h.tail_eq]
    rfl
  positions i entry he := by
    rw [HashChain.append, List.getElem?_append] at he
    split at he
    next => exact h.positions i entry he
    next hi =>
      rw [List.getElem?_singleton] at he
      split at he
      next hzero =>
        have heq := Option.some.inj he
        rw [← heq]
        show chain.entries.length = i
        omega
      next => cases he

-- ==== runs

structure Append where
  eventData : Bytes
  signature : Bytes
  timestamp : DateTime

def appends (initialHash : NotBlankStr) (events : List Append) : HashChain :=
  events.foldl (fun chain e => chain.append sha e.eventData e.signature e.timestamp)
    (new initialHash)

theorem appends_snoc (initialHash : NotBlankStr) (events : List Append) (e : Append) :
    appends sha initialHash (events ++ [e]) =
      (appends sha initialHash events).append sha e.eventData e.signature e.timestamp := by
  rw [appends, foldl_append]
  rfl

@[simp]
theorem initialHash_appends (initialHash : NotBlankStr) (events : List Append) :
    (appends sha initialHash events).initialHash = initialHash := by
  induction events using List.reverseRecOn with
  | nil => rfl
  | append_singleton events e ih =>
    rw [appends_snoc]
    exact ih

/-- RUN LEMMA: every chain that appends made is sound. -/
theorem sound_appends (initialHash : NotBlankStr) (events : List Append) :
    Sound sha (appends sha initialHash events) := by
  induction events using List.reverseRecOn with
  | nil => exact sound_new sha initialHash
  | append_singleton events e ih =>
    rw [appends_snoc]
    exact ih.append sha _ _ _

theorem mem_appends {initialHash : NotBlankStr} {events : List Append} {entry : ChainEntry}
    (h : entry ∈ (appends sha initialHash events).entries) :
    ∃ e ∈ events, entry.canonicalPayload = e.eventData ∧
      entry.eventHash = sha.hexdigest e.eventData ∧ entry.signature = e.signature ∧
      entry.timestamp = e.timestamp := by
  induction events using List.reverseRecOn with
  | nil => cases h
  | append_singleton events e ih =>
    rw [appends_snoc, HashChain.append, mem_append, mem_singleton] at h
    rcases h with h | h
    · obtain ⟨e', he', hf⟩ := ih h
      exact ⟨e', mem_append_left _ he', hf⟩
    · rw [h]
      exact ⟨e, mem_append_right _ mem_cons_self, rfl, rfl, rfl, rfl⟩

end HashChain

open Synthorg.Core Lib HashChain

-- ==== the store

/-- `audit_chain_entries`, by its primary key. -/
structure Table where
  rows : List ChainEntry
  ascending : rows.Pairwise fun a b => a.position < b.position

namespace Table

def query (table : Table) (minPosition : Option Nat) (limit : Nat) : List ChainEntry :=
  (table.rows.filter fun row =>
    match minPosition with
    | some low => low ≤ row.position
    | none => true).take limit

theorem filter_after_prefix {xs ys : List ChainEntry} {last : ChainEntry}
    (h : (xs ++ last :: ys).Pairwise fun a b => a.position < b.position) :
    (xs ++ last :: ys).filter (fun row => last.position + 1 ≤ row.position) = ys := by
  rw [pairwise_append, pairwise_cons] at h
  obtain ⟨-, ⟨hlast, -⟩, ha⟩ := h
  rw [filter_append, filter_cons_of_neg (by simp)]
  have hb : xs.filter (fun row => last.position + 1 ≤ row.position) = [] := by
    rw [filter_eq_nil_iff]
    intro row hrow
    have hlt := ha row hrow last mem_cons_self
    simp only [decide_eq_true_eq]
    omega
  have hafter : ys.filter (fun row => last.position + 1 ≤ row.position) = ys := by
    rw [filter_eq_self]
    intro row hrow
    have hlt := hlast row hrow
    simp only [decide_eq_true_eq]
    omega
  rw [hb, hafter, nil_append]

theorem le_position {table : Table} {i : Nat} {row : ChainEntry}
    (h : table.rows[i]? = some row) : i ≤ row.position := by
  induction i generalizing row with
  | zero => exact Nat.zero_le _
  | succ i ih =>
    obtain ⟨hi, hrow⟩ := List.getElem?_eq_some_iff.1 h
    have hp : table.rows[i]? = some table.rows[i] := getElem?_eq_getElem (by omega)
    have hlt := pairwise_iff_getElem.1 table.ascending i (i + 1) (by omega) hi (by omega)
    rw [hrow] at hlt
    have hle := ih hp
    omega

end Table

-- ==== durable writer

def hydratePageSize : Nat := 500

/-- The paging loop of `hydrate`; one page a unit of fuel. -/
def readPages (table : Table) (pageSize : Nat) : Nat → Option Nat → List ChainEntry
  | 0, _ => []
  | fuel + 1, minPosition =>
    let page := table.query minPosition pageSize
    if page.length < pageSize then page
    else
      match page.getLast? with
      | some last => page ++ readPages table pageSize fuel (some (last.position + 1))
      | none => page

def hydrate (sha : Sha256) (table : Table) (chain : HashChain) : HashChain :=
  chain.restore sha (readPages table hydratePageSize (table.rows.length + 1) none)

theorem readPages_eq_of_query {table : Table} {pageSize : Nat} (hsize : 0 < pageSize)
    (fuel : Nat) (minPosition : Option Nat) (xs ys : List ChainEntry)
    (hrows : table.rows = xs ++ ys) (hfuel : ys.length < fuel)
    (hq : ∀ limit, table.query minPosition limit = ys.take limit) :
    readPages table pageSize fuel minPosition = ys := by
  induction fuel generalizing minPosition xs ys with
  | zero => omega
  | succ fuel ih =>
    rw [readPages, hq]
    split
    next hshort =>
      rw [length_take] at hshort
      exact take_of_length_le (by omega)
    next hfull =>
      rw [length_take] at hfull
      have hne : ys.take pageSize ≠ [] := by
        intro hnil
        have hlen := congrArg List.length hnil
        rw [length_take, length_nil] at hlen
        omega
      rw [List.getLast?_eq_some_getLast hne]
      have hpage : ys.take pageSize =
          (ys.take pageSize).dropLast ++ [(ys.take pageSize).getLast hne] :=
        (dropLast_append_getLast hne).symm
      have hs : table.rows = (xs ++ (ys.take pageSize).dropLast) ++
          (ys.take pageSize).getLast hne :: ys.drop pageSize := by
        calc table.rows = xs ++ (ys.take pageSize ++ ys.drop pageSize) := by
              rw [take_append_drop, hrows]
          _ = _ := by
              rw [append_assoc, ← singleton_append, ← append_assoc _ [_], ← hpage]
      have hrest := ih (some (((ys.take pageSize).getLast hne).position + 1))
        (xs ++ ys.take pageSize) (ys.drop pageSize)
        (by rw [append_assoc, take_append_drop, hrows])
        (by rw [length_drop]; omega)
        (by
          intro limit
          have hascending := table.ascending
          rw [hs] at hascending
          show (table.rows.filter fun row =>
            ((ys.take pageSize).getLast hne).position + 1 ≤ row.position).take limit = _
          rw [hs, Table.filter_after_prefix hascending])
      dsimp only
      rw [hrest, take_append_drop]

theorem readPages_eq (table : Table) {pageSize : Nat} (hsize : 0 < pageSize) :
    readPages table pageSize (table.rows.length + 1) none = table.rows := by
  apply readPages_eq_of_query hsize _ _ [] _ rfl (Nat.lt_succ_self _)
  intro limit
  show (table.rows.filter fun _ => true).take limit = _
  rw [filter_true]

-- ==== the verifier

/-- With the consistency its validator asks. -/
structure ChainVerificationResult where
  valid : Bool
  entriesChecked : Nat
  firstBreakPosition : Option Nat
  consistent : valid = firstBreakPosition.isNone

namespace ChainVerificationResult

def intact (entriesChecked : Nat) : ChainVerificationResult :=
  { valid := true, entriesChecked := entriesChecked, firstBreakPosition := none,
    consistent := rfl }

def broken (entriesChecked position : Nat) : ChainVerificationResult :=
  { valid := false, entriesChecked := entriesChecked, firstBreakPosition := some position,
    consistent := rfl }

end ChainVerificationResult

open ChainVerificationResult

variable (sha : Sha256) (verify : Bytes → Bytes → Bool)

/-- The loop of `_find_hash_continuity_break`: the first entry that names another previous hash. -/
def findBreak (expectedPrev : NotBlankStr) : List ChainEntry → Option ChainEntry
  | [] => none
  | entry :: rest =>
    if entry.previousHash ≠ expectedPrev then some entry
    else findBreak (link sha expectedPrev entry) rest

def findHashContinuityBreak (chain : HashChain) (last : ChainEntry) : ChainVerificationResult :=
  match findBreak sha chain.initialHash chain.entries with
  | some entry => broken entry.position entry.position
  | none => broken chain.entries.length (last.position + 1)

def verifyEntrySignatures (entries : List ChainEntry) : Option ChainVerificationResult :=
  (entries.find? fun entry => !verify entry.canonicalPayload entry.signature).map
    fun entry => broken entry.position entry.position

def verifyChain (chain : HashChain) : ChainVerificationResult :=
  match chain.entries.getLast? with
  | none => intact 0
  | some last =>
    if !chain.verifyIntegrity sha then findHashContinuityBreak sha chain last
    else
      match verifyEntrySignatures verify chain.entries with
      | some signatureBreak => signatureBreak
      | none => intact chain.entries.length

end

open Synthorg.Core Lib HashChain

variable (sha : Sha256)

def buildBindingPayload (tailHash : NotBlankStr) (eventData signature : Bytes) : Bytes :=
  sha.digest (encode tailHash.val ++ 0 :: (eventData ++ 0 :: signature))

namespace Sink

-- ==== the state

structure Stamp where
  tailHash : NotBlankStr
  depth : Nat
  payload : Bytes
  deriving DecidableEq

/-- How far the worker is with a job of `_sign_and_timestamp`. -/
inductive Job where
  | queued
  | signed (signature : Bytes)
  | bound (signature : Bytes) (stamp : Stamp)
  | done (signature : Bytes) (stamp : Stamp) (timestamp : DateTime)
  | raised
  deriving DecidableEq

def Job.isFinished : Job → Bool
  | .done _ _ _ => true
  | .raised => true
  | _ => false

/-- Where the emitting thread stands: waiting, past its timeout or the job's exception, or done. -/
inductive Caller where
  | waiting
  | timedOut
  | failed
  | appended
  deriving DecidableEq

/-- One `emit` call, its payload already assembled. -/
structure Emit where
  data : Bytes
  job : Job
  caller : Caller

structure Appended where
  entry : ChainEntry
  stamp : Stamp

structure State where
  emits : List Emit
  chain : HashChain
  /-- The entries the durable queue took, in the order it took them. -/
  enqueued : List ChainEntry
  appended : List Appended

def start (chain : HashChain) : State :=
  { emits := [], chain := chain, enqueued := [], appended := [] }

-- ==== the events

inductive Event where
  | submit (data : Bytes)
  /-- The worker takes the job and signs, or the signer raises. -/
  | sign (i : Nat) (signature : Option Bytes)
  /-- It reads the tail hash and builds the binding payload. -/
  | bind (i : Nat)
  /-- The timestamp comes back, or its provider raises. -/
  | stamp (i : Nat) (timestamp : Option DateTime)
  /-- The thread gives up waiting; the job stays with the executor. -/
  | timeout (i : Nat)
  /-- The thread takes the job's result and, under the lock, appends and enqueues. -/
  | deliver (i : Nat) (hasRoom : Bool)

def State.setEmit (s : State) (i : Nat) (emit : Emit) : State :=
  { s with emits := s.emits.set i emit }

def State.workerFree (s : State) (i : Nat) : Bool :=
  (s.emits.take i).all fun emit => emit.job.isFinished

/-- The critical section of `_sign_append_notify`. -/
def State.appendUnderLock (s : State) (data signature : Bytes) (stamp : Stamp)
    (timestamp : DateTime) (hasRoom : Bool) : State :=
  let entry := s.chain.nextEntry sha data signature timestamp
  { s with
    chain := s.chain.append sha data signature timestamp
    enqueued := if hasRoom then s.enqueued ++ [entry] else s.enqueued
    appended := s.appended ++ [{ entry := entry, stamp := stamp }] }

def step (s : State) : Event → State
  | .submit data =>
    { s with emits := s.emits ++ [{ data := data, job := .queued, caller := .waiting }] }
  | .sign i signature =>
    match s.emits[i]? with
    | some emit =>
      if s.workerFree i ∧ emit.job = .queued then
        match signature with
        | some signature => s.setEmit i { emit with job := .signed signature }
        | none => s.setEmit i { emit with job := .raised }
      else s
    | none => s
  | .bind i =>
    match s.emits[i]? with
    | some emit =>
      match emit.job with
      | .signed signature =>
        s.setEmit i { emit with
          job := .bound signature
            { tailHash := s.chain.tailHash
              depth := s.chain.entries.length
              payload := buildBindingPayload sha s.chain.tailHash emit.data signature } }
      | _ => s
    | none => s
  | .stamp i timestamp =>
    match s.emits[i]? with
    | some emit =>
      match emit.job, timestamp with
      | .bound signature stamp, some timestamp =>
        s.setEmit i { emit with job := .done signature stamp timestamp }
      | .bound _ _, none => s.setEmit i { emit with job := .raised }
      | _, _ => s
    | none => s
  | .timeout i =>
    match s.emits[i]? with
    | some emit =>
      if emit.caller = .waiting then s.setEmit i { emit with caller := .timedOut } else s
    | none => s
  | .deliver i hasRoom =>
    match s.emits[i]? with
    | some emit =>
      if emit.caller = .waiting then
        match emit.job with
        | .done signature stamp timestamp =>
          (s.setEmit i { emit with caller := .appended }).appendUnderLock sha emit.data
            signature stamp timestamp hasRoom
        | .raised => s.setEmit i { emit with caller := .failed }
        | _ => s
      else s
    | none => s

def run (s : State) (events : List Event) : State := Run.final (step sha) s events

end Sink

end Synthorg.AuditChain
