/-
What a verification sees of an altered copy.

A stored copy is compared with the chain it was taken from at the FIRST ALTERED ENTRY, the place
where the two lists part. Restoring recomputes the tail from the last entry, so the tail is never
wrong on a restored chain and two checks are left: the links, which bind an entry's previous hash,
event hash, signature and timestamp to the entry AFTER it, and the signatures, which bind a
payload to its signature.
-/
import Synthorg.AuditChain.Chain

namespace Synthorg.AuditChain

open Synthorg.Core Lib HashChain Chained
open List

variable {sha : Sha256} {verify : Bytes → Bytes → Bool}

-- ==== the two loops

variable {entries : List ChainEntry} {entry : ChainEntry}

theorem findBreak_eq_none_iff {h : NotBlankStr} : findBreak sha h entries = none ↔
      Linked ChainEntry.previousHash (link sha) h entries := by
  induction entries generalizing h with
  | nil => simp [findBreak, Linked]
  | cons entry rest ih =>
    rw [findBreak, Linked, ite_not]
    split
    next heq => rw [ih, and_iff_right heq]
    next hne => simp [hne]

theorem findBreak_eq_some {h : NotBlankStr} (hfind : findBreak sha h entries = some entry) :
    ∃ i : Nat, entries[i]? = some entry ∧
      LinkBroken ChainEntry.previousHash (link sha) h entries i ∧
      ∀ j < i, ¬ LinkBroken ChainEntry.previousHash (link sha) h entries j := by
  induction entries generalizing h with
  | nil => cases hfind
  | cons first rest ih =>
    rw [findBreak, ite_not] at hfind
    split at hfind
    next heq =>
      obtain ⟨i, hi, hb, hbefore⟩ := ih hfind
      refine ⟨i + 1, hi, linkBroken_succ.2 hb, fun j hj => ?_⟩
      cases j with
      | zero =>
        rw [linkBroken_zero]
        exact not_not_intro heq
      | succ j => exact hbefore j (by omega)
    next hne =>
      rw [Option.some.injEq] at hfind
      refine ⟨0, congrArg some hfind, linkBroken_zero.2 hne, fun j hj => ?_⟩
      exact absurd hj (Nat.not_lt_zero j)

def unsigned (verify : Bytes → Bytes → Bool) (entry : ChainEntry) : Bool :=
  !verify entry.canonicalPayload entry.signature

theorem find_unsigned_eq_some (hfind : entries.find? (unsigned verify) = some entry) :
    ∃ i : Nat, entries[i]? = some entry ∧ unsigned verify entry = true ∧
      ∀ j < i, ∀ other, entries[j]? = some other → unsigned verify other = false := by
  rw [List.find?_eq_some_iff_getElem] at hfind
  obtain ⟨hu, i, hi, he, hb⟩ := hfind
  refine ⟨i, by rw [getElem?_eq_getElem hi, he], hu, ?_⟩
  intro j hj other ho
  obtain ⟨hjlen, rfl⟩ := List.getElem?_eq_some_iff.1 ho
  have hsig := hb j hj
  rwa [Bool.not_eq_true'] at hsig

-- ==== a restored chain

@[simp]
theorem entries_hydrate (table : Table) (chain : HashChain) :
    (hydrate sha table chain).entries = table.rows :=
  readPages_eq table (by decide)

/-- RESTORING HIDES THE TAIL: the integrity of a restored chain is that of its links. -/
theorem verifyIntegrity_hydrate (table : Table) (initialHash : NotBlankStr) :
    (hydrate sha table (new initialHash)).verifyIntegrity sha = true ↔
      Linked ChainEntry.previousHash (link sha) initialHash table.rows := by
  rw [verifyIntegrity, beq_iff_eq, replay_iff, entries_hydrate]
  refine and_iff_left_of_imp fun hl => ?_
  replace hl : Linked ChainEntry.previousHash (link sha) initialHash table.rows := hl
  rw [hydrate, readPages_eq table (by decide), restore]
  cases hrows : table.rows using List.reverseRecOn with
  | nil => rfl
  | append_singleton rows last =>
    rw [hrows] at hl
    have hlast : (rows ++ [last])[rows.length]? = some last := getElem?_concat_length
    have hp := hl.prev_eq hlast
    rw [take_left] at hp
    dsimp only
    rw [getLast?_concat, Chained.tail_append]
    exact congrArg (link sha · last) hp

theorem firstBreakPosition_hydrate (table : Table) (initialHash : NotBlankStr) :
    (verifyChain sha verify (hydrate sha table (new initialHash))).firstBreakPosition =
      ((findBreak sha initialHash table.rows).or
        (table.rows.find? (unsigned verify))).map ChainEntry.position := by
  have hint := @verifyIntegrity_hydrate sha table initialHash
  rw [← findBreak_eq_none_iff] at hint
  unfold verifyChain
  rw [entries_hydrate]
  cases hrows : table.rows.getLast? with
  | none =>
    rw [getLast?_eq_none_iff] at hrows
    rw [hrows]
    rfl
  | some last =>
    dsimp only
    cases hb : findBreak sha initialHash table.rows with
    | some entry =>
      have hf : (hydrate sha table (new initialHash)).verifyIntegrity sha = false := by
        rw [← Bool.not_eq_true, hint, hb]
        exact Option.some_ne_none entry
      rw [hf, findHashContinuityBreak, entries_hydrate]
      rw [show (hydrate sha table (new initialHash)).initialHash = initialHash from rfl, hb]
      rfl
    | none =>
      rw [hint.2 hb]
      have hs : verifyEntrySignatures verify table.rows =
          (table.rows.find? (unsigned verify)).map fun entry =>
            ChainVerificationResult.broken entry.position entry.position := rfl
      cases hfind : table.rows.find? (unsigned verify) with
      | none =>
        rw [hfind] at hs
        simp only [hs]
        rfl
      | some entry =>
        rw [hfind] at hs
        simp only [hs]
        rfl

-- ==== the altered entry

def Signed (verify : Bytes → Bytes → Bool) (events : List Append) : Prop :=
  ∀ e ∈ events, verify e.eventData e.signature = true

def Reported (result : ChainVerificationResult) (firstAltered : Nat) : Prop :=
  result.valid = false ∧
    ∃ position, result.firstBreakPosition = some position ∧ position ≤ firstAltered + 1

/-- WHERE AN ALTERATION SHOWS: in the previous hash of the first altered entry, in that of the
entry after it, or, all links holding, in a signature of the two; at a place no later than one
past the altered one. -/
def Exposed (sha : Sha256) (verify : Bytes → Bytes → Bool) (original : HashChain)
    (stored : List ChainEntry) : Prop :=
  let k := agreement original.entries stored
  let h := tail (link sha) original.initialHash (original.entries.take k)
  ∃ altered, stored[k]? = some altered ∧
    ((altered.previousHash ≠ h ∧ altered.position ≤ k + 1) ∨
      (altered.previousHash = h ∧ ∃ next, stored[k + 1]? = some next ∧
        next.position = k + 1 ∧ next.previousHash ≠ link sha h altered) ∨
      (Linked ChainEntry.previousHash (link sha) original.initialHash stored ∧
        ((unsigned verify altered = true ∧ altered.position ≤ k + 1) ∨
          (unsigned verify altered = false ∧ ∃ next, stored[k + 1]? = some next ∧
            next.position = k + 1 ∧ unsigned verify next = true))))

theorem reported_iff {result : ChainVerificationResult} {k : Nat} : Reported result k ↔
      ∃ position, result.firstBreakPosition = some position ∧ position ≤ k + 1 := by
  refine and_iff_right_of_imp fun h => ?_
  obtain ⟨position, hpos, -⟩ := h
  rw [result.consistent, hpos]
  rfl

theorem not_unsigned_of_signed {initialHash : NotBlankStr} {events : List Append}
    (hsig : Signed verify events) (hentry : entry ∈ (appends sha initialHash events).entries) :
    unsigned verify entry = false := by
  obtain ⟨e, he, hp, -, hs, -⟩ := mem_appends sha hentry
  rw [unsigned, hp, hs, hsig e he]
  rfl

section Copies

variable {initialHash : NotBlankStr} {events : List Append} {table : Table}

variable {k : Nat} {entry edited : ChainEntry} {behind : List ChainEntry}

variable {original stored : List ChainEntry} {altered next : ChainEntry}

theorem linkBroken_agreement_iff (hk : agreement original stored = k)
    (haltered : stored[k]? = some altered) :
    LinkBroken ChainEntry.previousHash (link sha) initialHash stored k ↔
      altered.previousHash ≠ tail (link sha) initialHash (original.take k) := by
  have htake : stored.take k = original.take k := by
    rw [← hk]
    exact take_agreement original stored
  constructor
  · intro h
    obtain ⟨entry, he, hne⟩ := h
    rw [haltered, Option.some.injEq] at he
    rwa [htake, ← he] at hne
  · intro hne
    exact ⟨altered, haltered, by rwa [htake]⟩

theorem linkBroken_agreement_succ_iff (hk : agreement original stored = k)
    (haltered : stored[k]? = some altered) (hnext : stored[k + 1]? = some next) :
    LinkBroken ChainEntry.previousHash (link sha) initialHash stored (k + 1) ↔
      next.previousHash ≠
        link sha (tail (link sha) initialHash (original.take k)) altered := by
  have htake : stored.take k = original.take k := by
    rw [← hk]
    exact take_agreement original stored
  have htail := tail_take_succ (link sha) (h := initialHash) haltered
  rw [htake] at htail
  constructor
  · intro h
    obtain ⟨entry, he, hne⟩ := h
    rw [hnext, Option.some.injEq] at he
    rwa [htail, ← he] at hne
  · intro hne
    exact ⟨next, hnext, by rwa [htail]⟩

/-- A broken link shows the alteration in time exactly when it is that of
the altered entry or of the next. -/
theorem position_le_iff_of_findBreak (hfind : findBreak sha initialHash table.rows = some entry) :
    entry.position ≤ agreement (appends sha initialHash events).entries table.rows + 1 ↔
      Exposed sha verify (appends sha initialHash events) table.rows := by
  obtain ⟨i, hi, hb, hbefore⟩ := findBreak_eq_some hfind
  have hsnd := (sound_appends sha initialHash events).linked
  rw [initialHash_appends] at hsnd
  have hlow : agreement (appends sha initialHash events).entries table.rows ≤ i := by
    by_contra hlt
    exact not_linkBroken_of_lt hsnd (Nat.lt_of_not_le hlt) hb
  have hplaced := Table.le_position hi
  unfold Exposed
  rw [initialHash_appends]
  generalize hk : agreement (appends sha initialHash events).entries table.rows = k
    at hlow ⊢
  constructor
  · intro hle
    rcases Nat.eq_or_lt_of_le hlow with heq | hlt
    · rw [← heq] at hi hb
      exact ⟨entry, hi, .inl ⟨(linkBroken_agreement_iff hk hi).1 hb, hle⟩⟩
    · have hnext : i = k + 1 := by omega
      subst hnext
      obtain ⟨hlen, -⟩ := List.getElem?_eq_some_iff.1 hi
      have haltered : table.rows[k]? = some table.rows[k] := getElem?_eq_getElem (by omega)
      have hhere := hbefore k (Nat.lt_succ_self k)
      rw [linkBroken_agreement_iff hk haltered, not_not] at hhere
      exact ⟨_, haltered, .inr (.inl ⟨hhere, entry, hi, by omega,
        (linkBroken_agreement_succ_iff hk haltered hi).1 hb⟩)⟩
  · intro hexposed
    obtain ⟨altered, haltered, hc⟩ := hexposed
    rcases hc with ⟨hne, hle⟩ | ⟨hp, next, hnext, hpos, hne⟩ | ⟨hl, -⟩
    · have hhere := (linkBroken_agreement_iff hk haltered).2 hne
      have heq : i = k := by
        by_contra hneq
        exact hbefore k (by omega) hhere
      subst heq
      rw [haltered, Option.some.injEq] at hi
      rwa [← hi]
    · have ht := (linkBroken_agreement_succ_iff hk haltered hnext).2 hne
      have hhere : ¬ LinkBroken ChainEntry.previousHash (link sha) initialHash table.rows k := by
        rw [linkBroken_agreement_iff hk haltered, not_not]
        exact hp
      have heq : i = k + 1 := by
        by_contra hneq
        rcases Nat.lt_or_ge (k + 1) i with hlt | hge
        · exact hbefore (k + 1) hlt ht
        · have hik : i = k := by omega
          rw [hik] at hb
          exact hhere hb
      subst heq
      rw [hnext, Option.some.injEq] at hi
      rw [← hi]
      omega
    · simp [← findBreak_eq_none_iff, hfind] at hl

theorem position_le_iff_of_unsigned (hsig : Signed verify events)
    (hnone : findBreak sha initialHash table.rows = none)
    (hfind : table.rows.find? (unsigned verify) = some entry) :
    entry.position ≤ agreement (appends sha initialHash events).entries table.rows + 1 ↔
      Exposed sha verify (appends sha initialHash events) table.rows := by
  obtain ⟨i, hi, hu, hb⟩ := find_unsigned_eq_some hfind
  have hl := findBreak_eq_none_iff.1 hnone
  have hlow : agreement (appends sha initialHash events).entries table.rows ≤ i := by
    by_contra hlt
    have hsame := getElem?_of_lt_agreement (Nat.lt_of_not_le hlt)
    rw [hi] at hsame
    have hmem := mem_of_getElem? hsame.symm
    simp [not_unsigned_of_signed hsig hmem] at hu
  have hp := Table.le_position hi
  unfold Exposed
  rw [initialHash_appends]
  generalize hk : agreement (appends sha initialHash events).entries table.rows = k
    at hlow ⊢
  constructor
  · intro hle
    rcases Nat.eq_or_lt_of_le hlow with heq | hlt
    · rw [← heq] at hi
      exact ⟨entry, hi, .inr (.inr ⟨hl, .inl ⟨hu, hle⟩⟩)⟩
    · have hnext : i = k + 1 := by omega
      subst hnext
      obtain ⟨hlen, -⟩ := List.getElem?_eq_some_iff.1 hi
      have haltered : table.rows[k]? = some table.rows[k] := getElem?_eq_getElem (by omega)
      exact ⟨_, haltered, .inr (.inr ⟨hl, Or.inr
        ⟨hb k (Nat.lt_succ_self k) _ haltered, entry, hi, by omega, hu⟩⟩)⟩
  · intro hexposed
    obtain ⟨altered, haltered, hc⟩ := hexposed
    rcases hc with ⟨hne, -⟩ | ⟨-, next, hnext, -, hne⟩ | ⟨-, hc⟩
    · exact absurd ((linkBroken_agreement_iff hk haltered).2 hne) (linked_iff.1 hl k)
    · exact absurd ((linkBroken_agreement_succ_iff hk haltered hnext).2 hne)
        (linked_iff.1 hl (k + 1))
    · rcases hc with ⟨hbad, hle⟩ | ⟨hgood, next, hnext, hpos, hbad⟩
      · have heq : i = k := by
          by_contra hneq
          have hclient := hb k (by omega) altered haltered
          simp [hbad] at hclient
        subst heq
        rw [haltered, Option.some.injEq] at hi
        rwa [← hi]
      · have heq : i = k + 1 := by
          by_contra hneq
          rcases Nat.lt_or_ge (k + 1) i with hlt | hge
          · have hclient := hb (k + 1) hlt next hnext
            simp [hbad] at hclient
          · have hik : i = k := by omega
            subst hik
            rw [haltered, Option.some.injEq] at hi
            simp [← hi, hgood] at hu
        subst heq
        rw [hnext, Option.some.injEq] at hi
        rw [← hi]
        omega

theorem reported_iff_exposed (hsig : Signed verify events) :
    Reported (verifyChain sha verify (hydrate sha table (new initialHash)))
        (agreement (appends sha initialHash events).entries table.rows) ↔
      Exposed sha verify (appends sha initialHash events) table.rows := by
  rw [reported_iff, firstBreakPosition_hydrate]
  cases hb : findBreak sha initialHash table.rows with
  | some entry =>
    rw [← @position_le_iff_of_findBreak sha verify initialHash events table entry hb]
    simp
  | none =>
    cases hfind : table.rows.find? (unsigned verify) with
    | some entry =>
      rw [← position_le_iff_of_unsigned hsig hb hfind]
      simp
    | none =>
      have hl := linked_iff.1 (findBreak_eq_none_iff.1 hb)
      have hs := find?_eq_none.1 hfind
      refine iff_of_false (fun h => ?_) fun hexposed => ?_
      · obtain ⟨position, hpos, -⟩ := h
        cases hpos
      · unfold Exposed at hexposed
        rw [initialHash_appends] at hexposed
        obtain ⟨altered, haltered, hc⟩ := hexposed
        rcases hc with ⟨hne, -⟩ | ⟨-, next, hnext, -, hne⟩ | ⟨-, hc⟩
        · exact hl _ ((linkBroken_agreement_iff rfl haltered).2 hne)
        · exact hl _ ((linkBroken_agreement_succ_iff rfl haltered hnext).2 hne)
        · rcases hc with ⟨hbad, -⟩ | ⟨-, next, hnext, -, hbad⟩
          · exact hs _ (mem_of_getElem? haltered) hbad
          · exact hs _ (mem_of_getElem? hnext) hbad

/-- WHICH ALTERATIONS ARE REPORTED: those exposed at the first altered entry. -/
theorem tamper_reported_iff (hsigned : Signed verify events) :
    Reported (verifyChain sha verify (hydrate sha table (new initialHash)))
        (agreement (appends sha initialHash events).entries table.rows) ↔
      Exposed sha verify (appends sha initialHash events) table.rows :=
  reported_iff_exposed hsigned

-- ==== by kind of alteration

def ExactSignatures (verify : Bytes → Bytes → Bool) : Prop :=
  ∀ payload other signature, verify payload signature = true →
    verify other signature = true → payload = other

theorem entry_facts (he : (appends sha initialHash events).entries[k]? = some entry) :
    entry.position = k ∧
      entry.previousHash =
        tail (link sha) initialHash ((appends sha initialHash events).entries.take k) := by
  have hsnd := sound_appends sha initialHash events
  refine ⟨hsnd.positions k entry he, ?_⟩
  have hp := hsnd.linked.prev_eq he
  rwa [initialHash_appends] at hp

/-- TRUNCATION IS NEVER SEEN: a copy cut short anywhere verifies. -/
theorem truncated_valid (hsig : Signed verify events) {n : Nat}
    (hrows : table.rows = (appends sha initialHash events).entries.take n) :
    (verifyChain sha verify (hydrate sha table (new initialHash))).valid = true := by
  have hl := (sound_appends sha initialHash events).linked.take n
  rw [initialHash_appends] at hl
  have hb : findBreak sha initialHash table.rows = none := by
    rw [hrows]
    exact findBreak_eq_none_iff.2 hl
  have hfind : table.rows.find? (unsigned verify) = none := by
    rw [hrows, find?_eq_none]
    intro entry he
    rw [not_unsigned_of_signed hsig (mem_of_mem_take he)]
    exact Bool.false_ne_true
  rw [ChainVerificationResult.consistent, firstBreakPosition_hydrate, hb, hfind]
  rfl

theorem position_of_next (hedit : table.rows[k]? = some edited)
    (hnext : table.rows[k + 1]? = some next) (hpos : next.position = k + 1) :
    edited.position = k := by
  have hlow := Table.le_position hedit
  obtain ⟨hk, rfl⟩ := List.getElem?_eq_some_iff.1 hedit
  obtain ⟨hk', rfl⟩ := List.getElem?_eq_some_iff.1 hnext
  have hlt := pairwise_iff_getElem.1 table.ascending k (k + 1) hk hk' (by omega)
  omega

theorem agreement_set (hk : k < original.length) (hne : original[k]? ≠ some edited) :
    agreement original (original.set k edited) = k := by
  apply agreement_eq (take_set_of_le (Nat.le_refl k))
  rw [getElem?_set_self hk]
  exact hne.symm

/-- AN EDIT BEFORE THE LAST ENTRY IS SEEN, whichever field it is of. -/
theorem edit_reported (hsha : sha.Injective) (hexact : ExactSignatures verify)
    (hsig : Signed verify events) (hlast : k + 1 < (appends sha initialHash events).entries.length)
    (hrows : table.rows = (appends sha initialHash events).entries.set k edited)
    (hne : (appends sha initialHash events).entries[k]? ≠ some edited) :
    Reported (verifyChain sha verify (hydrate sha table (new initialHash))) k := by
  have hl := (sound_appends sha initialHash events).linked
  have hf := @entry_facts sha initialHash events
  have hs := fun entry => @not_unsigned_of_signed sha verify entry initialHash events hsig
  have hrep := @reported_iff_exposed sha verify initialHash events table hsig
  unfold Exposed at hrep
  rw [initialHash_appends] at hl hrep
  generalize (appends sha initialHash events).entries = entries
    at hlast hrows hne hl hf hs hrep
  have hk := agreement_set (by omega) hne
  rw [← hrows] at hk
  rw [hk] at hrep
  have hedit : table.rows[k]? = some edited := by
    rw [hrows, getElem?_set_self (by omega)]
  have horiginal : entries[k]? = some entries[k] := getElem?_eq_getElem (by omega)
  obtain ⟨next, hnext⟩ : ∃ next, entries[k + 1]? = some next := ⟨_, getElem?_eq_getElem hlast⟩
  have hnext' : table.rows[k + 1]? = some next := by
    rw [hrows, getElem?_set_ne (by omega), hnext]
  obtain ⟨hpos', hp'⟩ := hf hnext
  rw [tail_take_succ (link sha) horiginal] at hp'
  have hp := position_of_next hedit hnext' hpos'
  refine hrep.2 ⟨edited, hedit, ?_⟩
  by_cases hsame : edited.previousHash = tail (link sha) initialHash (entries.take k)
  · by_cases hlink : next.previousHash =
        link sha (tail (link sha) initialHash (entries.take k)) edited
    · refine .inr (.inr ⟨?_, .inl ⟨?_, by omega⟩⟩)
      · rw [hrows, set_eq_take_append_cons_drop, if_pos (by omega), linked_append]
        rw [← take_append_drop k entries, linked_append, drop_eq_getElem_cons (by omega)] at hl
        refine ⟨hl.1, hsame, ?_⟩
        rw [← hlink, hp']
        exact hl.2.2
      · -- the link is blind to the payload, and the payload is all that differs
        rw [hlink] at hp'
        obtain ⟨he, hsignatures, ht⟩ := link_inj hsha hp'
        have hc := hs _ (mem_of_getElem? horiginal)
        unfold unsigned at hc ⊢
        rw [Bool.not_eq_false', ← hsignatures] at hc
        rw [Bool.not_eq_true']
        by_contra hv
        rw [Bool.not_eq_false] at hv
        apply hne
        rw [horiginal, Option.some.injEq, ChainEntry.mk.injEq]
        exact ⟨(hf horiginal).1.trans hp.symm, he.symm,
          (hf horiginal).2.trans hsame.symm, hexact _ _ _ hc hv, hsignatures.symm, ht.symm⟩
    · exact .inr (.inl ⟨hsame, next, hnext', hpos', hlink⟩)
  · exact .inl ⟨hsame, by omega⟩

/-- OF THE LAST ENTRY only the previous hash and the payload are seen. -/
theorem edit_last_reported_iff (hsig : Signed verify events)
    (hlast : k + 1 = (appends sha initialHash events).entries.length)
    (hrows : table.rows = (appends sha initialHash events).entries.set k edited)
    (hne : (appends sha initialHash events).entries[k]? ≠ some edited) :
    Reported (verifyChain sha verify (hydrate sha table (new initialHash))) k ↔
      edited.position ≤ k + 1 ∧
        (edited.previousHash ≠
            tail (link sha) initialHash ((appends sha initialHash events).entries.take k) ∨
          unsigned verify edited = true) := by
  have hl := (sound_appends sha initialHash events).linked.take k
  have hrep := @reported_iff_exposed sha verify initialHash events table hsig
  unfold Exposed at hrep
  rw [initialHash_appends] at hl hrep
  generalize (appends sha initialHash events).entries = entries
    at hlast hrows hne hl hrep ⊢
  have hk := agreement_set (by omega) hne
  rw [hrows, hk] at hrep
  dsimp only at hrep
  rw [getElem?_set_self (by omega),
    List.getElem?_eq_none (by rw [length_set]; omega), set_eq_take_append_cons_drop,
    if_pos (by omega), drop_of_length_le (by omega)] at hrep
  rw [hrep]
  by_cases hp : edited.previousHash = tail (link sha) initialHash (entries.take k)
  · simp [hp, hl.snoc hp, and_comm]
  · simp only [Option.some.injEq, exists_eq_left', hp]
    tauto

/-- A REMOVAL BEFORE THE LAST ENTRY IS SEEN, whatever stands behind the last (the entry itself,
where its position was edited): from genesis no running hash comes twice. -/
theorem removed_reported (hsha : sha.Injective) (hsig : Signed verify events)
    (hlast : k + 1 < (appends sha genesis events).entries.length)
    (hrows : table.rows = (appends sha genesis events).entries.eraseIdx k ++ behind) :
    Reported (verifyChain sha verify (hydrate sha table (new genesis))) k := by
  obtain ⟨next, hnext⟩ : ∃ next, (appends sha genesis events).entries[k + 1]? = some next :=
    ⟨_, getElem?_eq_getElem hlast⟩
  obtain ⟨hpos, hp⟩ := entry_facts hnext
  have hs : table.rows[k]? = some next := by
    rw [hrows, getElem?_append_left (by rw [length_eraseIdx_of_lt (by omega)]; omega),
      List.getElem?_eraseIdx, if_neg (Nat.lt_irrefl k), hnext]
  have hk : agreement (appends sha genesis events).entries table.rows = k := by
    apply agreement_eq
    · rw [hrows, eraseIdx_eq_take_drop_succ, append_assoc,
        take_left' (by rw [length_take]; omega)]
    · rw [hs]
      intro heq
      have hsame := (entry_facts heq.symm).1
      omega
  have hrep := @reported_iff_exposed sha verify genesis events table hsig
  unfold Exposed at hrep
  rw [hk, initialHash_appends] at hrep
  refine hrep.2 ⟨next, hs, .inl ⟨fun hsame => ?_, by omega⟩⟩
  rw [hp] at hsame
  have hl := length_eq_of_tail_eq hsha hsame
  rw [length_take, length_take] at hl
  omega

end Copies

-- ==== a sample

def sampleSignature : Bytes :=
  [146, 160, 9, 169, 240, 212, 202, 184, 114, 14, 130, 11, 95, 100, 37, 64, 162, 178, 123,
   84, 22, 80, 63, 143, 179, 118, 34, 35, 235, 219, 105, 218, 8, 90, 193, 228, 62, 21, 153,
   110, 69, 143, 54, 19, 208, 241, 29, 140, 56, 123, 46, 174, 180, 48, 42, 238, 176, 13,
   41, 22, 18, 187, 12, 0]

def sampleVerify (payload signature : Bytes) : Bool :=
  payload == [114] && signature == sampleSignature

/-- Midnight of 2026-01-01, UTC, and the given second. -/
def sampleTime (second : Nat) (h : second < 60) : DateTime :=
  { year := 2026, month := 1, day := 1, hour := 0, minute := 0, second := second,
    microsecond := 0, utcoffset := 0, date_ok := by decide, hour_lt := by decide,
    minute_lt := by decide, second_lt := h, microsecond_lt := by decide,
    utcoffset_lt := utc_lt }

def firstTime : DateTime := sampleTime 0 (by decide)

def secondTime : DateTime := sampleTime 1 (by decide)

/-- Two appends of the byte `r`, one second apart. -/
def sampleEvents : List Append :=
  [⟨[114], sampleSignature, firstTime⟩, ⟨[114], sampleSignature, secondTime⟩]

/-- The digests SHA-256 gives of the inputs below, in order. -/
def sampleDigest : Fin 4 → Bytes
  | 0 => [69, 67, 73, 228, 34, 240, 82, 151, 25, 30, 173, 19, 226, 29, 61, 181, 32, 229, 171,
    239, 82, 5, 94, 73, 100, 184, 47, 178, 19, 245, 147, 161]
  | 1 => [251, 207, 65, 167, 189, 31, 147, 35, 48, 71, 220, 110, 102, 64, 168, 63, 101, 241,
    51, 164, 161, 78, 48, 100, 235, 138, 104, 140, 33, 136, 110, 55]
  | 2 => [186, 47, 118, 182, 129, 109, 64, 131, 177, 97, 163, 171, 186, 96, 187, 114, 182, 15,
    82, 187, 204, 20, 234, 96, 130, 143, 131, 175, 200, 143, 200, 192]
  | 3 => [1, 252, 74, 114, 135, 194, 191, 42, 208, 115, 189, 183, 27, 159, 38, 186, 1,
    145, 107, 97, 195, 235, 119, 167, 153, 36, 248, 121, 231, 91, 71, 178]

def sampleInput : Fin 4 → Bytes
  | 0 => [114]
  | 1 => encode (linkInput "genesis" (String.ofList (hex (sampleDigest 0))) sampleSignature
      firstTime)
  | 2 => encode (linkInput (String.ofList (hex (sampleDigest 1)))
      (String.ofList (hex (sampleDigest 0))) sampleSignature secondTime)
  | 3 => encode "genesis" ++ 0 :: ([114] ++ 0 :: sampleSignature)

def sampleIndex (data : Bytes) : Option (Fin 4) :=
  [0, 1, 2, 3].find? fun i => data = sampleInput i

def sampleSha : Sha256 where
  digest data :=
    match sampleIndex data with
    | some i => sampleDigest i
    | none => 0 :: List.replicate 32 0 ++ data
  digest_ne data := by
    split
    next i _ =>
      have hall : ∀ i : Fin 4, sampleDigest i ≠ [] := by decide
      exact hall i
    next => exact cons_ne_nil _ _

theorem sampleSha_injective : sampleSha.Injective := by
  have hi : ∀ {data i}, sampleIndex data = some i → data = sampleInput i := by
    intro data i h
    have hf := find?_some h
    exact of_decide_eq_true hf
  have hlong : ∀ (i : Fin 4) (data : Bytes), sampleDigest i ≠ 0 :: List.replicate 32 0 ++ data := by
    intro i data h
    have hl : ∀ i : Fin 4, (sampleDigest i).length = 32 := by decide
    have hlen := hl i
    rw [h, length_append, length_cons, length_replicate] at hlen
    omega
  have hd : ∀ i j : Fin 4, sampleDigest i = sampleDigest j → i = j := by decide
  intro x y h
  simp only [sampleSha] at h
  cases hx : sampleIndex x with
  | some i =>
    cases hy : sampleIndex y with
    | some j =>
      rw [hx, hy] at h
      rw [hi hx, hi hy, hd i j h]
    | none =>
      rw [hx, hy] at h
      exact absurd h (hlong i y)
  | none =>
    cases hy : sampleIndex y with
    | some j =>
      rw [hx, hy] at h
      exact absurd h.symm (hlong j x)
    | none =>
      rw [hx, hy] at h
      exact append_cancel_left h

theorem sampleEvents_signed : Signed sampleVerify sampleEvents := by
  unfold Signed
  decide

theorem sampleVerify_exact : ExactSignatures sampleVerify := by
  intro payload other signature hp ho
  simp only [sampleVerify, Bool.and_eq_true, beq_iff_eq] at hp ho
  rw [hp.1, ho.1]

/-- An entry of the sample forged: neither its hashes nor its signature are kept. -/
def sampleForged (k : Fin 2) : Table where
  rows := (appends sampleSha genesis sampleEvents).entries.set k
    ⟨k, genesis, genesis, [], [], sampleTime 2 (by decide)⟩
  ascending := by
    revert k
    decide

theorem edit_reported_forged : Reported (verifyChain sampleSha sampleVerify
    (hydrate sampleSha (sampleForged 0) (new genesis))) 0 :=
  edit_reported sampleSha_injective sampleVerify_exact sampleEvents_signed (by decide) rfl
    (by decide)

theorem edit_last_reported_iff_forged : Reported (verifyChain sampleSha sampleVerify
    (hydrate sampleSha (sampleForged 1) (new genesis))) 1 :=
  (edit_last_reported_iff sampleEvents_signed (by decide) rfl (by decide)).2
    ⟨by decide, .inr (by decide)⟩

/-- The first entry stored under a position behind the last. -/
def sampleMoved : Table where
  rows := (appends sampleSha genesis sampleEvents).entries.eraseIdx 0 ++
    ((appends sampleSha genesis sampleEvents).entries.take 1).map fun e => { e with position := 2 }
  ascending := by decide

theorem removed_reported_first : Reported (verifyChain sampleSha sampleVerify
    (hydrate sampleSha sampleMoved (new genesis))) 0 :=
  removed_reported sampleSha_injective sampleEvents_signed (by decide) rfl

def sampleTruncated : Table where
  rows := (appends sampleSha genesis sampleEvents).entries.take 1
  ascending := pairwise_singleton _ _

theorem sampleTruncated_ne :
    sampleTruncated.rows ≠ (appends sampleSha genesis sampleEvents).entries := by
  intro h
  have hlen := congrArg List.length h
  exact absurd hlen (by decide)

/-- The sample's cut copy, put through the theorem. -/
theorem tamper_reported_iff_truncated : Signed sampleVerify sampleEvents ∧ (Reported
          (verifyChain sampleSha sampleVerify
            (hydrate sampleSha sampleTruncated (new genesis)))
          (agreement (appends sampleSha genesis sampleEvents).entries sampleTruncated.rows) ↔
        Exposed sampleSha sampleVerify (appends sampleSha genesis sampleEvents)
          sampleTruncated.rows) :=
  ⟨sampleEvents_signed, tamper_reported_iff sampleEvents_signed⟩

/-- The last entry of the sample deleted from the store: a copy that differs
and verifies. -/
theorem truncated_copy_not_reported :
    ¬ ∀ (sha : Sha256) (verify : Bytes → Bytes → Bool) (events : List Append) (table : Table),
      sha.Injective → ExactSignatures verify → Signed verify events →
      table.rows ≠ (appends sha genesis events).entries →
      Reported (verifyChain sha verify (hydrate sha table (new genesis)))
        (agreement (appends sha genesis events).entries table.rows) := by
  intro hclaim
  have hreported := hclaim sampleSha sampleVerify sampleEvents sampleTruncated
    sampleSha_injective sampleVerify_exact sampleEvents_signed sampleTruncated_ne
  have hvalid := @truncated_valid sampleSha sampleVerify genesis sampleEvents sampleTruncated
    sampleEvents_signed 1 rfl
  simp [hreported.1] at hvalid

end Synthorg.AuditChain
