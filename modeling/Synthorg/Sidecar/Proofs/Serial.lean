/-
Which rules are in force while requests replace them.

A request writes the admin server's copy, the maps and the flag one after
the other, so what is in force between the last two is a mix. Where the maps
are swapped only once every earlier request has stored its flag (`Serial`)
the rule sets come into force one by one, in the order the admin server took
them: the invariant counts how many have, and the mix is of two neighbours.
-/
import Synthorg.Sidecar.Proofs.Maps

namespace Synthorg.Sidecar

open Lib
open Function (update update_self update_of_ne)

/-- A rule set lets a `host:port` through. -/
def RuleSet.Allows (rules : RuleSet) (hp : HostPort) : Prop :=
  rules.allowAll = true ∨ hp ∈ rules.hosts

def RuleSet.Mixes (rules A B : RuleSet) : Prop :=
  (rules.hosts = A.hosts ∨ rules.hosts = B.hosts) ∧
    (rules.allowAll = A.allowAll ∨ rules.allowAll = B.allowAll)

theorem RuleSet.Mixes.allows {rules A B : RuleSet} (h : rules.Mixes A B) {hp : HostPort}
    (hall : rules.Allows hp) : A.Allows hp ∨ B.Allows hp := by
  obtain ⟨hh, hflag⟩ := h
  cases hall with
  | inl hopen =>
    cases hflag with
    | inl hA =>
      left
      left
      rw [← hA, hopen]
    | inr hB =>
      right
      left
      rw [← hB, hopen]
  | inr hmem =>
    cases hh with
    | inl hA =>
      left
      right
      rwa [← hA]
    | inr hB =>
      right
      right
      rwa [← hB]

namespace Process

variable {lib : Library} {s : Process}

-- ==== the properties

def inForce (s : Process) : RuleSet := ⟨s.al.raw, s.al.allowAll⟩

def Idle (s : Process) : Prop :=
  ∀ n phase turn rules, s.puts n = .going phase turn rules → phase = .returned

structure Atomic (lib : Library) (s : Process) : Prop where
  /-- The maps are those of the host set in force. -/
  built : s.al.Built lib
  /-- one rule set, or a mix of two successive ones which allows nothing neither of them allows. -/
  moment : s.inForce ∈ s.history ∨
    ∃ i A B, s.history[i]? = some A ∧ s.history[i + 1]? = some B ∧ s.inForce.Mixes A B ∧
      ∀ hp, s.inForce.Allows hp → A.Allows hp ∨ B.Allows hp
  settled : s.Idle → s.inForce ∈ s.history ∧ s.getRules = s.inForce.report

/-- The maps are swapped when every earlier request of the server's copy has returned. -/
def Serial (s : Process) : Input → Prop
  | .swapPut n _ =>
    ∀ turn rules, s.puts n = .going .locked turn rules →
      ∀ m phase turn' rules', s.puts m = .going phase turn' rules' → turn' < turn →
        phase = .returned
  | _ => True

-- ==== the invariant

structure Books (s : Process) : Prop where
  turns : ∀ n phase turn rules, s.puts n = .going phase turn rules →
    0 < turn ∧ s.history[turn]? = some rules
  apart : ∀ n m phase phase' turn rules rules', s.puts n = .going phase turn rules →
    s.puts m = .going phase' turn rules' → n = m
  every : ∀ turn, 0 < turn → turn < s.history.length →
    ∃ n phase rules, s.puts n = .going phase turn rules
  server : s.history.getLast? = some s.server

/-- The first `m` requests have their hosts in force, and all but the last have returned; until
that has, the flag may be the one before. -/
structure Applied (s : Process) (m : Nat) : Prop where
  order : ∀ n phase turn rules, s.puts n = .going phase turn rules →
    (phase.applied = true ↔ turn ≤ m) ∧ (turn < m → phase = .returned)
  hosts : ∃ rules, s.history[m]? = some rules ∧ s.al.raw = rules.hosts
  flag : (∃ rules, s.history[m]? = some rules ∧ s.al.allowAll = rules.allowAll) ∨
    ∃ k rules n phase own, m = k + 1 ∧ s.history[k]? = some rules ∧
      s.al.allowAll = rules.allowAll ∧ s.puts n = .going phase m own ∧ phase ≠ .returned

/-- THE INVARIANT: the rule sets come into force one by one, in order. -/
structure Ordered (s : Process) : Prop where
  books : Books s
  applied : ∃ m, Applied s m

theorem Ordered.atomic (h : Ordered s) (hsnd : Sound lib s) : Atomic lib s := by
  obtain ⟨m, ha⟩ := h.applied
  obtain ⟨rules, hr, hh⟩ := ha.hosts
  have hmem : ∀ {i : Nat} {rules : RuleSet}, s.history[i]? = some rules → rules ∈ s.history :=
    fun hget => List.mem_of_getElem? hget
  have hw : ∀ own, s.history[m]? = some own → s.al.allowAll = own.allowAll →
      s.inForce = rules := by
    intro own hown hflag
    rw [hr, Option.some.injEq] at hown
    rw [inForce, hh, hflag, ← hown]
  refine ⟨hsnd.built, ?_, ?_⟩
  · cases ha.flag with
    | inl hlast =>
      obtain ⟨own, hown, hflag⟩ := hlast
      left
      rw [hw own hown hflag]
      exact hmem hr
    | inr hb =>
      obtain ⟨k, before, n, phase, own, hm, hk, hflag, -, -⟩ := hb
      have hmixes : s.inForce.Mixes before rules := ⟨.inr hh, .inl hflag⟩
      right
      refine ⟨k, before, rules, hk, ?_, hmixes, fun hp hall => hmixes.allows hall⟩
      rw [← hm]
      exact hr
  · intro hidle
    have hflag : ∃ own, s.history[m]? = some own ∧ s.al.allowAll = own.allowAll := by
      cases ha.flag with
      | inl hlast => exact hlast
      | inr hb =>
        obtain ⟨k, before, n, phase, own, -, -, -, hput, hphase⟩ := hb
        exact absurd (hidle n phase m own hput) hphase
    obtain ⟨own, hown, hflag⟩ := hflag
    have hf := hw own hown hflag
    rw [hf]
    refine ⟨hmem hr, ?_⟩
    -- no request waits behind the last one in force
    have hlast : m + 1 = s.history.length := by
      have hlt := (List.getElem?_eq_some_iff.1 hr).1
      by_contra hne
      obtain ⟨n, phase, late, hput⟩ := h.books.every (m + 1) (by omega) (by omega)
      have hret := hidle n phase (m + 1) late hput
      rw [hret] at hput
      have hle := (ha.order n _ (m + 1) late hput).1.1 rfl
      omega
    have hs := h.books.server
    rw [List.getLast?_eq_getElem?, ← hlast, Nat.add_sub_cancel, hr, Option.some.injEq] at hs
    rw [getRules, ← hs]

theorem new_ordered (lib : Library) (hosts : List HostPort) (paths : List PathRule)
    (loopback allowAll : Bool) (dns : String → List String) :
    Ordered (new lib hosts paths loopback allowAll dns) := by
  refine ⟨⟨?_, ?_, ?_, rfl⟩, 0, ?_, ?_, ?_⟩
  · intro n phase turn rules hput
    cases hput
  · intro n m phase phase' turn rules rules' hput
    cases hput
  · intro turn hpos hlt
    exact absurd hlt (by simp [new]; omega)
  · intro n phase turn rules hput
    cases hput
  · exact ⟨⟨hosts, allowAll⟩, rfl, rfl⟩
  · exact .inl ⟨⟨hosts, allowAll⟩, rfl, rfl⟩

-- ==== one request moves

section Moves

variable {s' : Process} {n turn : Nat} {phase phase' : PutPhase} {rules : RuleSet}

theorem Books.moved (h : Books s) (hputs : s'.puts = update s.puts n (.going phase' turn rules))
    (hput : s.puts n = .going phase turn rules) (hhist : s'.history = s.history)
    (hs : s'.server = s.server) : Books s' := by
  have hback : ∀ k p t own, s'.puts k = .going p t own → ∃ q, s.puts k = .going q t own := by
    intro k p t own hk
    cases going_moved hputs hk with
    | inl hself =>
      obtain ⟨rfl, -, rfl, rfl⟩ := hself
      exact ⟨phase, hput⟩
    | inr ho => exact ⟨p, ho.2⟩
  refine ⟨?_, ?_, ?_, ?_⟩
  · intro k p t own hk
    obtain ⟨q, hq⟩ := hback k p t own hk
    rw [hhist]
    exact h.turns k q t own hq
  · intro k k' p p' t own own' hk hk'
    obtain ⟨q, hq⟩ := hback k p t own hk
    obtain ⟨q', hq'⟩ := hback k' p' t own' hk'
    exact h.apart k k' q q' t own own' hq hq'
  · intro t hpos hlt
    rw [hhist] at hlt
    obtain ⟨k, p, own, hk⟩ := h.every t hpos hlt
    by_cases hkn : k = n
    · subst hkn
      rw [hput] at hk
      injection hk with hp ht hown
      refine ⟨k, phase', rules, ?_⟩
      rw [hputs, update_self, ht]
    · refine ⟨k, p, own, ?_⟩
      rw [hputs, update_of_ne hkn]
      exact hk
  · rw [hhist, hs]
    exact h.server

/-- A request that neither swaps nor stores changes nothing of what is in
force. -/
theorem Applied.moved {m : Nat} (h : Applied s m)
    (hputs : s'.puts = update s.puts n (.going phase' turn rules))
    (hput : s.puts n = .going phase turn rules) (ha : phase'.applied = phase.applied)
    (hphase : phase ≠ .returned) (hphase' : phase' ≠ .returned)
    (hhist : s'.history = s.history) (hraw : s'.al.raw = s.al.raw)
    (hflag : s'.al.allowAll = s.al.allowAll) : Applied s' m := by
  refine ⟨?_, ?_, ?_⟩
  · intro k p t own hk
    cases going_moved hputs hk with
    | inl hself =>
      obtain ⟨-, rfl, rfl, -⟩ := hself
      obtain ⟨hle, hlt⟩ := h.order n phase t rules hput
      rw [ha]
      exact ⟨hle, fun hb => absurd (hlt hb) hphase⟩
    | inr ho => exact h.order k p t own ho.2
  · rw [hhist, hraw]
    exact h.hosts
  · rw [hhist, hflag]
    cases h.flag with
    | inl hlast => exact .inl hlast
    | inr hb =>
      obtain ⟨k, before, k', p, own, hm, hk, hb, hg, hp⟩ := hb
      right
      by_cases hkn : k' = n
      · subst hkn
        rw [hput] at hg
        injection hg with hp' ht hown
        refine ⟨k, before, k', phase', rules, hm, hk, hb, ?_, hphase'⟩
        rw [hputs, update_self, ht]
      · refine ⟨k, before, k', p, own, hm, hk, hb, ?_, hp⟩
        rw [hputs, update_of_ne hkn]
        exact hg

theorem Applied.swapped {m : Nat} (h : Applied s m) (hb : Books s)
    (hputs : s'.puts = update s.puts n (.going .swapped turn rules))
    (hput : s.puts n = .going .locked turn rules) (hhist : s'.history = s.history)
    (hraw : s'.al.raw = rules.hosts) (hflag : s'.al.allowAll = s.al.allowAll)
    (hs : ∀ k p t own, s.puts k = .going p t own → t < turn → p = .returned) :
    Applied s' (m + 1) := by
  obtain ⟨hpos, hr⟩ := hb.turns n _ turn rules hput
  have hlate : m < turn := by
    by_contra hle
    have ha := (h.order n _ turn rules hput).1.2 (by omega)
    cases ha
  have hturn : turn = m + 1 := by
    by_contra hne
    have hlt := (List.getElem?_eq_some_iff.1 hr).1
    obtain ⟨k, p, own, hk⟩ := hb.every (m + 1) (by omega) (by omega)
    rw [hs k p (m + 1) own hk (by omega)] at hk
    have hle := (h.order k _ (m + 1) own hk).1.1 rfl
    omega
  subst hturn
  refine ⟨?_, ?_, ?_⟩
  · intro k p t own hk
    cases going_moved hputs hk with
    | inl hself =>
      obtain ⟨-, rfl, rfl, -⟩ := hself
      refine ⟨?_, fun hlt => absurd hlt (Nat.lt_irrefl _)⟩
      simp [PutPhase.applied]
    | inr ho =>
      obtain ⟨hkn, hk⟩ := ho
      have hne : t ≠ m + 1 := by
        rintro rfl
        exact hkn (hb.apart k n p _ (m + 1) own rules hk hput)
      refine ⟨?_, fun hlt => hs k p t own hk hlt⟩
      rw [(h.order k p t own hk).1]
      omega
  · exact ⟨rules, by rw [hhist, hr], hraw⟩
  · cases h.flag with
    | inl hlast =>
      obtain ⟨own, hown, hflag'⟩ := hlast
      right
      refine ⟨m, own, n, .swapped, rules, rfl, by rw [hhist, hown], by rw [hflag, hflag'], ?_,
        by decide⟩
      rw [hputs, update_self]
    | inr hbefore =>
      obtain ⟨k, before, k', p, own, -, -, -, hg, hp⟩ := hbefore
      exact absurd (hs k' p m own hg (by omega)) hp

theorem Applied.stored {m : Nat} (h : Applied s m) (hb : Books s)
    (hputs : s'.puts = update s.puts n (.going .returned turn rules))
    (hput : s.puts n = .going .unlocked turn rules) (hhist : s'.history = s.history)
    (hraw : s'.al.raw = s.al.raw) (hflag : s'.al.allowAll = rules.allowAll) : Applied s' m := by
  obtain ⟨hle, hlt⟩ := h.order n _ turn rules hput
  have hturn : turn = m := by
    have hnot : ¬ turn < m := by
      intro hbefore
      cases hlt hbefore
    have htop := hle.1 rfl
    omega
  subst hturn
  refine ⟨?_, ?_, ?_⟩
  · intro k p t own hk
    cases going_moved hputs hk with
    | inl hself =>
      obtain ⟨-, rfl, rfl, -⟩ := hself
      refine ⟨?_, fun _ => rfl⟩
      simp [PutPhase.applied]
    | inr ho => exact h.order k p t own ho.2
  · rw [hhist, hraw]
    exact h.hosts
  · left
    refine ⟨rules, ?_, hflag⟩
    rw [hhist]
    exact (hb.turns n _ turn rules hput).2

end Moves

-- ==== the steps

section
variable (h : Ordered s)
include h

/-- A step that touches no request, no rule set and nothing in force keeps the order. -/
theorem Ordered.still {s' : Process} (hraw : s'.al.raw = s.al.raw)
    (hflag : s'.al.allowAll = s.al.allowAll) (hs : s'.server = s.server)
    (hputs : s'.puts = s.puts) (hhist : s'.history = s.history) : Ordered s' := by
  obtain ⟨hb, m, ha⟩ := h
  refine ⟨⟨?_, ?_, ?_, ?_⟩, m, ?_, ?_, ?_⟩
  · rw [hputs, hhist]
    exact hb.turns
  · rw [hputs]
    exact hb.apart
  · rw [hputs, hhist]
    exact hb.every
  · rw [hhist, hs]
    exact hb.server
  · rw [hputs]
    exact ha.order
  · rw [hhist, hraw]
    exact ha.hosts
  · rw [hhist, hflag, hputs]
    exact ha.flag

theorem Ordered.beginPut {n : Nat} (habsent : s.puts n = .absent)
    (allowedHosts : List String) (allowAll : Bool) :
    Ordered (s.beginPut lib n allowedHosts allowAll) := by
  obtain ⟨hb, m, ha⟩ := h
  have ho : ∀ k phase turn rules, s.puts k = .going phase turn rules → k ≠ n := by
    intro k phase turn rules hk hkn
    simp [hkn, habsent] at hk
  rw [Process.beginPut]
  split
  next =>
    -- a refused request changes nothing
    have hg : ∀ k phase turn rules, update s.puts n .refused k = .going phase turn rules ↔
          s.puts k = .going phase turn rules := by
      intro k phase turn rules
      by_cases hkn : k = n
      · rw [hkn, update_self, habsent]
        constructor
        · intro heq
          cases heq
        · intro heq
          cases heq
      · rw [update_of_ne hkn]
    refine ⟨⟨?_, ?_, ?_, hb.server⟩, m, ?_, ha.hosts, ?_⟩
    · intro k phase turn rules hk
      exact hb.turns k phase turn rules ((hg _ _ _ _).1 hk)
    · intro k k' phase phase' turn rules rules' hk hk'
      exact hb.apart k k' phase phase' turn rules rules' ((hg _ _ _ _).1 hk)
        ((hg _ _ _ _).1 hk')
    · intro turn hpos hlt
      obtain ⟨k, phase, rules, hk⟩ := hb.every turn hpos hlt
      exact ⟨k, phase, rules, (hg _ _ _ _).2 hk⟩
    · intro k phase turn rules hk
      exact ha.order k phase turn rules ((hg _ _ _ _).1 hk)
    · cases ha.flag with
      | inl hlast => exact .inl hlast
      | inr hbefore =>
        obtain ⟨k, before, k', phase, own, hm, hk, hflag, hgo, hp⟩ := hbefore
        exact .inr ⟨k, before, k', phase, own, hm, hk, hflag, (hg _ _ _ _).2 hgo, hp⟩
  next hosts hparse =>
    have hpos : 0 < s.history.length := by
      obtain ⟨rules, hr, -⟩ := ha.hosts
      have hlt := (List.getElem?_eq_some_iff.1 hr).1
      omega
    have hg : ∀ k phase turn rules,
        update s.puts n (.going .copied s.history.length ⟨hosts, allowAll⟩) k =
            .going phase turn rules →
          (k = n ∧ phase = .copied ∧ turn = s.history.length ∧ rules = ⟨hosts, allowAll⟩) ∨
            s.puts k = .going phase turn rules := by
      intro k phase turn rules hk
      by_cases hkn : k = n
      · rw [hkn, update_self] at hk
        injection hk with hp hturn hr
        exact .inl ⟨hkn, hp.symm, hturn.symm, hr.symm⟩
      · rw [update_of_ne hkn] at hk
        exact .inr hk
    have hkept : ∀ {i : Nat} {rules : RuleSet}, s.history[i]? = some rules →
        (s.history ++ [⟨hosts, allowAll⟩])[i]? = some rules := by
      intro i rules hget
      have hlt := (List.getElem?_eq_some_iff.1 hget).1
      rwa [List.getElem?_append_left hlt]
    have hbind : ∀ k phase turn rules, s.puts k = .going phase turn rules →
        turn < s.history.length := by
      intro k phase turn rules hk
      exact (List.getElem?_eq_some_iff.1 (hb.turns k phase turn rules hk).2).1
    have hm : m < s.history.length := by
      obtain ⟨rules, hr, -⟩ := ha.hosts
      exact (List.getElem?_eq_some_iff.1 hr).1
    refine ⟨⟨?_, ?_, ?_, ?_⟩, m, ?_, ?_, ?_⟩
    · intro k phase turn rules hk
      cases hg k phase turn rules hk with
      | inl hself =>
        obtain ⟨-, -, rfl, rfl⟩ := hself
        exact ⟨hpos, by simp⟩
      | inr hk =>
        obtain ⟨hturn, hr⟩ := hb.turns k phase turn rules hk
        exact ⟨hturn, hkept hr⟩
    · intro k k' phase phase' turn rules rules' hk hk'
      cases hg k phase turn rules hk with
      | inl hself =>
        cases hg k' phase' turn rules' hk' with
        | inl hself' => rw [hself.1, hself'.1]
        | inr hk' =>
          have hlt := hbind k' phase' turn rules' hk'
          omega
      | inr hk =>
        cases hg k' phase' turn rules' hk' with
        | inl hself' =>
          have hlt := hbind k phase turn rules hk
          omega
        | inr hk' => exact hb.apart k k' phase phase' turn rules rules' hk hk'
    · intro turn hturn hlt
      simp only [List.length_append, List.length_cons, List.length_nil] at hlt
      by_cases hnew : turn = s.history.length
      · rw [hnew]
        exact ⟨n, .copied, ⟨hosts, allowAll⟩, update_self ..⟩
      · obtain ⟨k, phase, rules, hk⟩ := hb.every turn hturn (by omega)
        refine ⟨k, phase, rules, ?_⟩
        simp only [update_of_ne (ho k phase turn rules hk)]
        exact hk
    · simp
    · intro k phase turn rules hk
      cases hg k phase turn rules hk with
      | inl hself =>
        obtain ⟨-, rfl, rfl, -⟩ := hself
        refine ⟨?_, fun hlt => absurd hlt (by omega)⟩
        simp only [PutPhase.applied, Bool.false_eq_true, false_iff]
        omega
      | inr hk => exact ha.order k phase turn rules hk
    · obtain ⟨rules, hr, hh⟩ := ha.hosts
      exact ⟨rules, hkept hr, hh⟩
    · cases ha.flag with
      | inl hlast =>
        obtain ⟨rules, hr, hflag⟩ := hlast
        exact .inl ⟨rules, hkept hr, hflag⟩
      | inr hbefore =>
        obtain ⟨k, before, k', phase, own, hmk, hk, hflag, hgo, hp⟩ := hbefore
        refine .inr ⟨k, before, k', phase, own, hmk, hkept hk, hflag, ?_, hp⟩
        simp only [update_of_ne (ho k' phase m own hgo)]
        exact hgo

theorem Ordered.lockPut (n : Nat) : Ordered (s.step lib (.lockPut n)) := by
  simp only [Process.step]
  split
  next turn rules hput hmu =>
    obtain ⟨hb, m, ha⟩ := h
    exact ⟨hb.moved rfl hput rfl rfl, m,
      ha.moved rfl hput rfl (by decide) (by decide) rfl rfl rfl⟩
  next => exact h

theorem Ordered.swapPut {n : Nat} {dns : String → List String}
    (hs : s.Serial (.swapPut n dns)) : Ordered (s.step lib (.swapPut n dns)) := by
  simp only [Process.step]
  split
  next turn rules hput =>
    obtain ⟨hb, m, ha⟩ := h
    refine ⟨hb.moved rfl hput rfl rfl, m + 1, ha.swapped hb rfl hput rfl rfl rfl ?_⟩
    intro k p t own hk hlt
    exact hs turn rules hput k p t own hk hlt
  next => exact h

theorem Ordered.unlockPut (n : Nat) : Ordered (s.step lib (.unlockPut n)) := by
  simp only [Process.step]
  split
  next turn rules hput =>
    obtain ⟨hb, m, ha⟩ := h
    exact ⟨hb.moved rfl hput rfl rfl, m,
      ha.moved rfl hput rfl (by decide) (by decide) rfl rfl rfl⟩
  next => exact h

theorem Ordered.storePut (n : Nat) : Ordered (s.step lib (.storePut n)) := by
  simp only [Process.step]
  split
  next turn rules hput =>
    obtain ⟨hb, m, ha⟩ := h
    exact ⟨hb.moved rfl hput rfl rfl, m, ha.stored hb rfl hput rfl rfl rfl⟩
  next => exact h

theorem Ordered.pass (n : Nat) (dns : String → List String) :
    Ordered (s.step lib (.lockPass n)) ∧ Ordered (s.step lib (.copyPass n)) ∧
      Ordered (s.step lib (.swapPass n dns)) ∧ Ordered (s.step lib (.unlockPass n)) := by
  refine ⟨?_, ?_, ?_, ?_⟩
  · simp only [Process.step]
    split
    · exact h.still rfl rfl rfl rfl rfl
    · exact h
  · simp only [Process.step]
    split
    · exact h.still rfl rfl rfl rfl rfl
    · exact h
  · simp only [Process.step]
    split
    · exact h.still rfl rfl rfl rfl rfl
    · exact h
  · simp only [Process.step]
    split
    · exact h.still rfl rfl rfl rfl rfl
    · exact h

/-- STEP LEMMA: the order survives every serial step. -/
theorem Ordered.step {input : Input} (hs : s.Serial input) : Ordered (s.step lib input) := by
  by_cases hconn : input.ofConn = true
  · obtain ⟨hal, hserver, -, hputs, -, hhist⟩ := untouched_step lib s hconn
    exact h.still (by rw [hal]) (by rw [hal]) hserver hputs hhist
  · cases input with
    | put n allowedHosts allowAll =>
      simp only [Process.step]
      split
      next ha => exact h.beginPut ha allowedHosts allowAll
      next => exact h
    | lockPut n => exact h.lockPut n
    | swapPut n dns => exact h.swapPut hs
    | unlockPut n => exact h.unlockPut n
    | storePut n => exact h.storePut n
    | lockPass n => exact (h.pass n fun _ => []).1
    | copyPass n => exact (h.pass n fun _ => []).2.1
    | swapPass n dns => exact (h.pass n dns).2.2.1
    | unlockPass n => exact (h.pass n fun _ => []).2.2.2
    | _ => exact absurd rfl hconn

end

/-- ATOMIC UPDATES: a run whose requests swap their maps in turn keeps them atomic. -/
theorem atomic_of_serial (lib : Library) (hosts : List HostPort) (paths : List PathRule)
    (loopback allowAll : Bool) (dns : String → List String) (inputs : List Input)
    (hserial : Run.Throughout (step lib) Serial
      (new lib hosts paths loopback allowAll dns) inputs) :
    ∀ v ∈ Run.states (step lib) (new lib hosts paths loopback allowAll dns) inputs,
      v.Atomic lib := by
  intro v hv
  have hinv := Run.throughout_states (P := fun v => Sound lib v ∧ Ordered v)
    (fun _ input hok h => ⟨h.1.step input, h.2.step hok⟩) hserial
    ⟨new_sound lib hosts paths loopback allowAll dns,
      new_ordered lib hosts paths loopback allowAll dns⟩ v hv
  exact hinv.2.atomic hinv.1

/-- The second request comes in between the first one's maps and its flag. -/
def overlapping : List Input :=
  [.put 0 [] true, .lockPut 0, .swapPut 0 fun _ => [], .put 1 ["backend:8000"] false,
    .unlockPut 0, .storePut 0, .lockPut 1, .swapPut 1 fun _ => [], .unlockPut 1, .storePut 1]

theorem atomic_overlapping :
    (∀ v ∈ Run.states (step plainLibrary) (new plainLibrary [] [] true false fun _ => [])
      overlapping, v.Atomic plainLibrary) ∧
    (Run.final (step plainLibrary) (new plainLibrary [] [] true false fun _ => [])
      overlapping).inForce = ⟨[⟨"backend", 8000⟩], false⟩ := by
  refine ⟨atomic_of_serial plainLibrary [] [] true false (fun _ => []) overlapping ?_, by decide⟩
  refine ⟨trivial, trivial, ?_, trivial, trivial, trivial, trivial, ?_, trivial, trivial, trivial⟩
  · intro turn rules hput m phase turn' rules' hm hlt
    cases hput
    match m with
    | 0 =>
      cases hm
      omega
    | m + 1 => cases hm
  · intro turn rules hput m phase turn' rules' hm hlt
    cases hput
    match m with
    | 0 =>
      cases hm
      rfl
    | 1 =>
      cases hm
      omega
    | m + 2 => cases hm

/-- Both requests write the server's copy before either swaps its maps. -/
def crossed : List Input :=
  [.put 0 [] true, .put 1 [] false,
    .lockPut 1, .swapPut 1 fun _ => [], .unlockPut 1, .storePut 1,
    .lockPut 0, .swapPut 0 fun _ => [], .unlockPut 0, .storePut 0]

/-- The sandbox is open while the admin API reports it closed. -/
theorem open_while_reported_closed :
    ¬ ∀ (lib : Library) (hosts : List HostPort) (paths : List PathRule) (loopback allowAll : Bool)
      (dns : String → List String) (inputs : List Input),
      ∀ v ∈ Run.states (step lib) (new lib hosts paths loopback allowAll dns) inputs,
        v.Atomic lib := by
  intro h
  have hatomic := h plainLibrary [] [] true false (fun _ => []) crossed _
    ((Run.mem_states_iff _ _ _ _).2 ⟨crossed, [], (List.append_nil _).symm, rfl⟩)
  have hidle : (Run.final (step plainLibrary)
      (new plainLibrary [] [] true false fun _ => []) crossed).Idle := by
    intro n phase turn rules hput
    match n with
    | 0 =>
      cases hput
      rfl
    | 1 =>
      cases hput
      rfl
    | n + 2 => cases hput
  have hreport := (hatomic.settled hidle).2
  exact absurd hreport (by decide)

end Process

end Synthorg.Sidecar
