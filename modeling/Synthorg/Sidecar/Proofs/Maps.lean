/-
The maps of the allowlist, whoever is in the middle of a change.

The resolve lock has one holder (`Locked`), and everything that writes the maps
writes them under it, so between two writes they are what the last one resolved:
the raw rules with the addresses found for them (`Sound`). A connection writes
none of them (`Untouched`).
-/
import Synthorg.Sidecar.Process

namespace Synthorg.Sidecar

open Lib
open Function (update update_self update_of_ne)

namespace Process

variable {lib : Library} {s : Process}

-- ==== one goroutine moves

section Moves

variable {s' : Process} {n turn : Nat} {phase' : PutPhase} {rules : RuleSet}

theorem going_moved (hputs : s'.puts = update s.puts n (.going phase' turn rules))
    {k t : Nat} {p : PutPhase} {own : RuleSet} (hk : s'.puts k = .going p t own) :
    (k = n ∧ p = phase' ∧ t = turn ∧ own = rules) ∨ (k ≠ n ∧ s.puts k = .going p t own) := by
  rw [hputs] at hk
  by_cases hkn : k = n
  · rw [hkn, update_self] at hk
    injection hk with hp ht hown
    exact .inl ⟨hkn, hp.symm, ht.symm, hown.symm⟩
  · rw [update_of_ne hkn] at hk
    exact .inr ⟨hkn, hk⟩

theorem pass_moved {n k : Nat} {stage stage' : PassStage}
    (hk : update s.passes n stage k = stage') :
    (k = n ∧ stage' = stage) ∨ (k ≠ n ∧ s.passes k = stage') := by
  rw [Function.update_apply, ite_eq_iff] at hk
  exact hk.imp_left (And.imp_right Eq.symm)

end Moves

-- ==== the resolve lock

/-- `resolveMu` is held between lock and unlock, and a pass works on the rules in force. -/
structure Locked (s : Process) : Prop where
  put : ∀ n phase turn rules, s.puts n = .going phase turn rules →
    phase = .locked ∨ phase = .swapped → s.resolveMu = some (.put n)
  locked : ∀ n, s.passes n = .locked → s.resolveMu = some (.pass n)
  copied : ∀ n raw, s.passes n = .copied raw → s.resolveMu = some (.pass n) ∧ raw = s.al.raw
  swapped : ∀ n, s.passes n = .swapped → s.resolveMu = some (.pass n)

theorem Locked.free (h : Locked s) (hmu : s.resolveMu = none) :
    (∀ n phase turn rules, s.puts n = .going phase turn rules →
      phase ≠ .locked ∧ phase ≠ .swapped) ∧
    ∀ n, s.passes n ≠ .locked ∧ (∀ raw, s.passes n ≠ .copied raw) ∧ s.passes n ≠ .swapped := by
  refine ⟨?_, ?_⟩
  · intro n phase turn rules hput
    refine ⟨?_, ?_⟩
    · intro hp
      have hheld := h.put n phase turn rules hput (.inl hp)
      simp [hmu] at hheld
    · intro hp
      have hheld := h.put n phase turn rules hput (.inr hp)
      simp [hmu] at hheld
  · intro n
    refine ⟨?_, ?_, ?_⟩
    · intro hpass
      have hheld := h.locked n hpass
      simp [hmu] at hheld
    · intro raw hpass
      have hheld := (h.copied n raw hpass).1
      simp [hmu] at hheld
    · intro hpass
      have hheld := h.swapped n hpass
      simp [hmu] at hheld

theorem Locked.insidePut (h : Locked s) {n : Nat} (hmu : s.resolveMu = some (.put n)) :
    (∀ k phase turn rules, s.puts k = .going phase turn rules →
      phase = .locked ∨ phase = .swapped → k = n) ∧
    ∀ k, s.passes k ≠ .locked ∧ (∀ raw, s.passes k ≠ .copied raw) ∧ s.passes k ≠ .swapped := by
  refine ⟨?_, ?_⟩
  · intro k phase turn rules hput hp
    have hheld := h.put k phase turn rules hput hp
    rw [hmu] at hheld
    injection hheld with hheld
    injection hheld with hheld
    exact hheld.symm
  · intro k
    refine ⟨?_, ?_, ?_⟩
    · intro hpass
      have hheld := h.locked k hpass
      simp [hmu] at hheld
    · intro raw hpass
      have hheld := (h.copied k raw hpass).1
      simp [hmu] at hheld
    · intro hpass
      have hheld := h.swapped k hpass
      simp [hmu] at hheld

theorem Locked.insidePass (h : Locked s) {n : Nat} (hmu : s.resolveMu = some (.pass n)) :
    (∀ k phase turn rules, s.puts k = .going phase turn rules →
      phase ≠ .locked ∧ phase ≠ .swapped) ∧
    ∀ k, s.passes k = .locked ∨ (∃ raw, s.passes k = .copied raw) ∨ s.passes k = .swapped →
      k = n := by
  refine ⟨?_, ?_⟩
  · intro k phase turn rules hput
    refine ⟨?_, ?_⟩
    · intro hp
      have hheld := h.put k phase turn rules hput (.inl hp)
      simp [hmu] at hheld
    · intro hp
      have hheld := h.put k phase turn rules hput (.inr hp)
      simp [hmu] at hheld
  · intro k hpass
    have hheld : s.resolveMu = some (.pass k) := by
      rcases hpass with hpass | ⟨raw, hpass⟩ | hpass
      · exact h.locked k hpass
      · exact (h.copied k raw hpass).1
      · exact h.swapped k hpass
    rw [hmu] at hheld
    injection hheld with hheld
    injection hheld with hheld
    exact hheld.symm

-- ==== connections

/-- What a connection's step leaves alone. -/
structure Untouched (s s' : Process) : Prop where
  al : s'.al = s.al
  server : s'.server = s.server
  resolveMu : s'.resolveMu = s.resolveMu
  puts : s'.puts = s.puts
  passes : s'.passes = s.passes
  history : s'.history = s.history

theorem untouched_rfl (s : Process) : Untouched s s := ⟨rfl, rfl, rfl, rfl, rfl, rfl⟩

theorem untouched_closeConn (s : Process) (k : Nat) : Untouched s (s.closeConn k) :=
  ⟨rfl, rfl, rfl, rfl, rfl, rfl⟩

theorem untouched_admitConn (s : Process) (k : Nat) (allowAll : Bool) :
    Untouched s (s.admitConn k allowAll) :=
  ⟨rfl, rfl, rfl, rfl, rfl, rfl⟩

theorem untouched_loadFlag (s : Process) (k : Nat) : Untouched s (s.loadFlag lib k) := by
  rw [Process.loadFlag]
  split
  · exact untouched_admitConn s k true
  · split
    · split
      · exact untouched_admitConn s k false
      · exact untouched_closeConn s k
    · exact ⟨rfl, rfl, rfl, rfl, rfl, rfl⟩

theorem untouched_relayRequest (s : Process) (k : Nat) (prefixes : List String) (path : String)
    (goesOn : Bool) : Untouched s (s.relayRequest k prefixes path goesOn) := by
  rw [Process.relayRequest]
  split
  · exact ⟨rfl, rfl, rfl, rfl, rfl, rfl⟩
  · exact untouched_closeConn s k

def Input.ofConn : Input → Bool
  | .accept .. | .loadFlag _ | .readMap _ | .dial .. | .lookUp _ | .peek .. | .request ..
  | .hangUp _ => true
  | _ => false

theorem untouched_step (lib : Library) (s : Process) {input : Input} (h : input.ofConn = true) :
    Untouched s (s.step lib input) := by
  cases input with
  | accept k dest =>
    simp only [Process.step]
    split
    · exact ⟨rfl, rfl, rfl, rfl, rfl, rfl⟩
    · exact untouched_rfl s
  | loadFlag k =>
    simp only [Process.step]
    split
    · exact untouched_loadFlag s k
    · exact untouched_rfl s
  | readMap k =>
    simp only [Process.step]
    split
    · split
      · exact untouched_admitConn s k false
      · exact untouched_closeConn s k
    · exact untouched_rfl s
  | dial k ok =>
    simp only [Process.step]
    split
    · split
      · exact ⟨rfl, rfl, rfl, rfl, rfl, rfl⟩
      · exact untouched_closeConn s k
    · exact untouched_rfl s
  | lookUp k =>
    simp only [Process.step]
    split
    · split
      · exact ⟨rfl, rfl, rfl, rfl, rfl, rfl⟩
      · exact ⟨rfl, rfl, rfl, rfl, rfl, rfl⟩
    · exact untouched_rfl s
  | peek k tls =>
    simp only [Process.step]
    split
    · split
      · exact untouched_closeConn s k
      · exact ⟨rfl, rfl, rfl, rfl, rfl, rfl⟩
    · exact untouched_rfl s
  | request k path goesOn =>
    simp only [Process.step]
    split
    · exact untouched_relayRequest s k _ path goesOn
    · exact untouched_rfl s
  | hangUp k =>
    simp only [Process.step]
    split
    · exact untouched_rfl s
    · exact untouched_closeConn s k
  | _ => cases h

-- ==== the maps

/-- The maps are those of the rules in force. -/
structure Sound (lib : Library) (s : Process) : Prop where
  built : s.al.Built lib
  mutex : Locked s

theorem new_sound (lib : Library) (hosts : List HostPort) (paths : List PathRule)
    (loopback allowAll : Bool) (dns : String → List String) :
    Sound lib (new lib hosts paths loopback allowAll dns) := by
  refine ⟨Allowlist.new_built lib hosts paths loopback allowAll dns, ⟨?_, ?_, ?_, ?_⟩⟩
  · intro n phase turn rules hput
    cases hput
  · intro n hpass
    cases hpass
  · intro n raw hpass
    cases hpass
  · intro n hpass
    cases hpass

theorem Locked.outside (h : Locked s) {s' : Process} {n : Nat} {stage : PutStage}
    (hs : ∀ phase turn rules, stage = .going phase turn rules →
      phase ≠ .locked ∧ phase ≠ .swapped)
    (hputs : s'.puts = update s.puts n stage) (hmu : s'.resolveMu = s.resolveMu)
    (hp : s'.passes = s.passes) (hraw : s'.al.raw = s.al.raw) : Locked s' := by
  refine ⟨?_, ?_, ?_, ?_⟩
  · intro k phase t own hk hphase
    rw [hmu]
    rw [hputs] at hk
    by_cases hkn : k = n
    · rw [hkn, update_self] at hk
      obtain ⟨hlock, hswap⟩ := hs phase t own hk
      exact absurd hphase (not_or.2 ⟨hlock, hswap⟩)
    · rw [update_of_ne hkn] at hk
      exact h.put k phase t own hk hphase
  · rw [hp, hmu]
    exact h.locked
  · rw [hp, hmu, hraw]
    exact h.copied
  · rw [hp, hmu]
    exact h.swapped

section
variable (h : Sound lib s)
include h

theorem Sound.beginPut (n : Nat) (allowedHosts : List String)
    (allowAll : Bool) : Sound lib (s.beginPut lib n allowedHosts allowAll) := by
  rw [Process.beginPut]
  split
  · refine ⟨h.built, h.mutex.outside ?_ rfl rfl rfl rfl⟩
    intro phase turn rules hg
    cases hg
  · refine ⟨h.built, h.mutex.outside ?_ rfl rfl rfl rfl⟩
    intro phase turn rules hg
    cases hg
    exact ⟨by decide, by decide⟩

theorem Sound.lockPut (n : Nat) : Sound lib (s.step lib (.lockPut n)) := by
  simp only [Process.step]
  split
  next turn rules hput hmu =>
    obtain ⟨hputs, hp⟩ := h.mutex.free hmu
    refine ⟨h.built, ⟨?_, ?_, ?_, ?_⟩⟩
    · intro k phase t own hk hphase
      cases going_moved rfl hk with
      | inl hself => rw [hself.1]
      | inr ho =>
        obtain ⟨hlock, hswap⟩ := hputs k phase t own ho.2
        exact absurd hphase (not_or.2 ⟨hlock, hswap⟩)
    · intro k hk
      exact absurd hk (hp k).1
    · intro k raw hk
      exact absurd hk ((hp k).2.1 raw)
    · intro k hk
      exact absurd hk (hp k).2.2
  next => exact h

theorem Sound.swapPut (n : Nat) (dns : String → List String) :
    Sound lib (s.step lib (.swapPut n dns)) := by
  simp only [Process.step]
  split
  next turn rules hput =>
    have hmu := h.mutex.put n _ turn rules hput (.inl rfl)
    obtain ⟨hputs, hp⟩ := h.mutex.insidePut hmu
    refine ⟨⟨rfl, rfl, rfl⟩, ⟨?_, ?_, ?_, ?_⟩⟩
    · intro k phase t own hk hphase
      cases going_moved rfl hk with
      | inl hself =>
        rw [hself.1]
        exact hmu
      | inr ho => exact absurd (hputs k phase t own ho.2 hphase) ho.1
    · intro k hk
      exact absurd hk (hp k).1
    · intro k raw hk
      exact absurd hk ((hp k).2.1 raw)
    · intro k hk
      exact absurd hk (hp k).2.2
  next => exact h

theorem Sound.unlockPut (n : Nat) : Sound lib (s.step lib (.unlockPut n)) := by
  simp only [Process.step]
  split
  next turn rules hput =>
    obtain ⟨hputs, hphase⟩ := h.mutex.insidePut (h.mutex.put n _ turn rules hput (.inr rfl))
    refine ⟨h.built, ⟨?_, ?_, ?_, ?_⟩⟩
    · intro k phase t own hk hp
      cases going_moved rfl hk with
      | inl hself =>
        obtain ⟨-, rfl, -, -⟩ := hself
        rcases hp with hp | hp <;> cases hp
      | inr ho => exact absurd (hputs k phase t own ho.2 hp) ho.1
    · intro k hk
      exact absurd hk (hphase k).1
    · intro k raw hk
      exact absurd hk ((hphase k).2.1 raw)
    · intro k hk
      exact absurd hk (hphase k).2.2
  next => exact h

theorem Sound.storePut (n : Nat) : Sound lib (s.step lib (.storePut n)) := by
  simp only [Process.step]
  split
  next turn rules hput =>
    refine ⟨⟨h.built.resolved, h.built.hostnames, h.built.paths⟩,
      h.mutex.outside ?_ rfl rfl rfl rfl⟩
    intro phase t own hg
    cases hg
    exact ⟨by decide, by decide⟩
  next => exact h

theorem Sound.lockPass (n : Nat) : Sound lib (s.step lib (.lockPass n)) := by
  simp only [Process.step]
  split
  next hpass hmu =>
    obtain ⟨hputs, hp⟩ := h.mutex.free hmu
    refine ⟨h.built, ⟨?_, ?_, ?_, ?_⟩⟩
    · intro k phase t own hk hphase
      obtain ⟨hlock, hswap⟩ := hputs k phase t own hk
      exact absurd hphase (not_or.2 ⟨hlock, hswap⟩)
    · intro k hk
      cases pass_moved hk with
      | inl hself => rw [hself.1]
      | inr ho => exact absurd ho.2 (hp k).1
    · intro k raw hk
      cases pass_moved hk with
      | inl hself => cases hself.2
      | inr ho => exact absurd ho.2 ((hp k).2.1 raw)
    · intro k hk
      cases pass_moved hk with
      | inl hself => cases hself.2
      | inr ho => exact absurd ho.2 (hp k).2.2
  next => exact h

theorem Sound.copyPass (n : Nat) : Sound lib (s.step lib (.copyPass n)) := by
  simp only [Process.step]
  split
  next hpass =>
    have hmu := h.mutex.locked n hpass
    refine ⟨h.built, ⟨h.mutex.put, ?_, ?_, ?_⟩⟩
    · intro k hk
      cases pass_moved hk with
      | inl hself => cases hself.2
      | inr ho => exact h.mutex.locked k ho.2
    · intro k raw hk
      cases pass_moved hk with
      | inl hself =>
        injection hself.2 with hraw
        rw [hself.1]
        exact ⟨hmu, hraw⟩
      | inr ho => exact h.mutex.copied k raw ho.2
    · intro k hk
      cases pass_moved hk with
      | inl hself => cases hself.2
      | inr ho => exact h.mutex.swapped k ho.2
  next => exact h

theorem Sound.swapPass (n : Nat) (dns : String → List String) :
    Sound lib (s.step lib (.swapPass n dns)) := by
  simp only [Process.step]
  split
  next raw hpass =>
    obtain ⟨hmu, hraw⟩ := h.mutex.copied n raw hpass
    refine ⟨?_, ⟨h.mutex.put, ?_, ?_, ?_⟩⟩
    · rw [hraw]
      exact s.al.swap_built lib dns
    · intro k hk
      cases pass_moved hk with
      | inl hself => cases hself.2
      | inr ho => exact h.mutex.locked k ho.2
    · intro k raw' hk
      cases pass_moved hk with
      | inl hself => cases hself.2
      | inr ho => exact h.mutex.copied k raw' ho.2
    · intro k hk
      cases pass_moved hk with
      | inl hself =>
        rw [hself.1]
        exact hmu
      | inr ho => exact h.mutex.swapped k ho.2
  next => exact h

theorem Sound.unlockPass (n : Nat) : Sound lib (s.step lib (.unlockPass n)) := by
  simp only [Process.step]
  split
  next hpass =>
    obtain ⟨hputs, hp⟩ := h.mutex.insidePass (h.mutex.swapped n hpass)
    refine ⟨h.built, ⟨?_, ?_, ?_, ?_⟩⟩
    · intro k phase t own hk hphase
      obtain ⟨hlock, hswap⟩ := hputs k phase t own hk
      exact absurd hphase (not_or.2 ⟨hlock, hswap⟩)
    · intro k hk
      cases pass_moved hk with
      | inl hself => cases hself.2
      | inr ho => exact absurd (hp k (.inl ho.2)) ho.1
    · intro k raw hk
      cases pass_moved hk with
      | inl hself => cases hself.2
      | inr ho => exact absurd (hp k (.inr (.inl ⟨raw, ho.2⟩))) ho.1
    · intro k hk
      cases pass_moved hk with
      | inl hself => cases hself.2
      | inr ho => exact absurd (hp k (.inr (.inr ho.2))) ho.1
  next => exact h

/-- STEP LEMMA: the maps stay those of the rules in force. -/
theorem Sound.step (input : Input) : Sound lib (s.step lib input) := by
  by_cases hconn : input.ofConn = true
  · obtain ⟨hal, -, hmu, hputs, hp, -⟩ := untouched_step lib s hconn
    refine ⟨?_, ⟨?_, ?_, ?_, ?_⟩⟩
    · rw [hal]
      exact h.built
    · rw [hputs, hmu]
      exact h.mutex.put
    · rw [hp, hmu]
      exact h.mutex.locked
    · rw [hp, hmu, hal]
      exact h.mutex.copied
    · rw [hp, hmu]
      exact h.mutex.swapped
  · cases input with
    | put n allowedHosts allowAll =>
      simp only [Process.step]
      split
      · exact h.beginPut n allowedHosts allowAll
      · exact h
    | lockPut n => exact h.lockPut n
    | swapPut n dns => exact h.swapPut n dns
    | unlockPut n => exact h.unlockPut n
    | storePut n => exact h.storePut n
    | lockPass n => exact h.lockPass n
    | copyPass n => exact h.copyPass n
    | swapPass n dns => exact h.swapPass n dns
    | unlockPass n => exact h.unlockPass n
    | _ => exact absurd rfl hconn

end

end Process

end Synthorg.Sidecar
