/-
The cross-setting rules hold in every state, where each commit is judged by what
it meets.

# Commits

A commit keeps the rules if and only if the check accepts it, made of the values
that are in force when it lands (`Good.written_iff`). A batch is checked against
the rows it read, which is the same where nobody else has touched a key of the
same rule since (`allowed_of_read`).

# Deletes

A delete is not judged at all, so `Careful` asks about the fallbacks of the
overrides that go: `rules_broken` deletes one half of a valid pair.
-/
import Synthorg.Settings.CrossField

namespace Synthorg.Settings

open Lib
open List

-- ==== the values in force

section Values

variable {env : Surroundings} {rows : Values}

theorem mem_of_written {items : Items} {key : SettingRowKey} {value : String}
    (h : written items key = some value) : (key, value) ∈ items := by
  obtain ⟨before, after, heq, -⟩ := lookup_eq_some_iff.1 h
  rw [← mem_reverse, heq]
  simp

theorem effective_write {items : Items} (hp : prepared env items = true) (key : SettingRowKey) :
    effective env (fun key => (written items key).orElse fun _ => rows key) key =
      (written items key).getD (effective env rows key) := by
  cases hw : written items key with
  | none => simp [effective, hw]
  | some value =>
    simp only [prepared, Bool.and_eq_true, all_eq_true] at hp
    have hitem := hp.2 _ (mem_of_written hw)
    cases hdef : env.definition key with
    | none => simp [hdef] at hitem
    | some definition =>
      have hc : definition.composeSet = false := by simpa [hdef] using hitem
      simp [effective, hw, hdef, hc]

def reverted (env : Surroundings) (rows : Values) (meant : SettingRowKey → Bool) : Values :=
  fun key => if meant key && (rows key).isSome then some (env.fallback key) else none

theorem effective_delete (meant : SettingRowKey → Bool) (key : SettingRowKey) :
    effective env (fun key => if meant key then none else rows key) key =
      (reverted env rows meant key).getD (effective env rows key) := by
  unfold effective reverted
  split
  · split <;> rfl
  · cases hm : meant key with
    | false => simp [hm]
    | true => cases hrow : rows key <;> simp [hm]

end Values

-- ==== the commits

section Commits

variable {F : Type} (env : Checking F)

def inForce (rows : Values) : Values := fun key => some (effective env.toSurroundings rows key)

def Good (rows : Values) : Prop :=
  ∀ rule ∈ rules env.numbers, rule.accepts (inForce env rows) = true

def allowed (written rows : Values) : Bool :=
  enforceCrossFieldRules env.numbers written (inForce env rows) env.default

variable {env} {rows rows' written : Values}

theorem effectiveRaw_inForce (key : SettingRowKey) :
    effectiveRaw written (inForce env rows) env.default key =
      some ((written key).getD (effective env.toSurroundings rows key)) := by
  unfold effectiveRaw inForce
  cases written key <;> rfl

/-- A commit keeps the rules if and only if the check accepts, made of the values in force. -/
theorem Good.written_iff (h : Good env rows)
    (ha : ∀ key, effective env.toSurroundings rows' key =
      (written key).getD (effective env.toSurroundings rows key)) :
    Good env rows' ↔ allowed env written rows = true := by
  have hval : effectiveRaw written (inForce env rows) env.default = inForce env rows' := by
    funext key
    rw [effectiveRaw_inForce, inForce, ha key]
  unfold allowed enforceCrossFieldRules
  rw [hval, all_eq_true]
  constructor
  · intro hgood rule hrule
    rw [hgood rule hrule, Bool.or_true]
  · intro hc rule hrule
    cases ht : rule.touched written with
    | true => simpa [ht] using hc rule hrule
    | false =>
      -- no key of the rule changed
      rw [← h rule hrule]
      refine rule.of_keys _ _ fun key hkey => ?_
      have hnone : written key = none := by
        have hall := any_eq_false.1 ht key hkey
        simpa using hall
      rw [inForce, ha key, hnone]
      rfl

end Commits

-- ==== the invariant

namespace Checked

section Invariant

variable {F : Type} (env : Checking F)

def StageOk : CheckStage → Prop
  | .reading (some items) key left read | .answered (some items) key left read _ =>
    read.map Prod.fst ++ key :: left = pending env items
  | .writing items read =>
    read.map Prod.fst = pending env items ∧ prepared env.toSurroundings items = true ∧
      enforceCrossFieldRules env.numbers (written items) (fun key => read.lookup key)
        env.default = true
  | _ => True

def Inv (s : Checked) : Prop := ∀ n, StageOk env (s.calls n)

def Careful (s : Checked) : Input → Prop
  | .execute n conflict =>
    match s.calls n with
    | .writing _ read =>
      conflict = false → ∀ item ∈ read, item.2 = effective env.toSurroundings s.rows item.1
    | .deleting meant => allowed env (reverted env.toSurroundings s.rows meant) s.rows = true
    | _ => True
  | _ => True

variable {env} {s : Checked}

theorem Inv.setCall (h : s.Inv env) (n : Nat) {stage : CheckStage} (hs : StageOk env stage) :
    (s.setCall n stage).Inv env :=
  (Function.forall_update_iff _ fun _ => StageOk env).2 ⟨hs, fun n' _ => h n'⟩

theorem Inv.conclude (h : s.Inv env) (n : Nat) (items : Option Items) (read : Items)
    (hread : ∀ its ∈ items, read.map Prod.fst = pending env its) :
    (s.conclude env n items read).Inv env ∧ (s.conclude env n items read).rows = s.rows := by
  unfold Checked.conclude
  split
  · exact ⟨h.setCall n trivial, rfl⟩
  · split
    next hok =>
      simp only [Bool.and_eq_true] at hok
      exact ⟨h.setCall n ⟨hread _ rfl, hok.2, hok.1⟩, rfl⟩
    · exact ⟨h.setCall n trivial, rfl⟩

/-- STEP LEMMA of the reads. -/
theorem Inv.proceed (h : s.Inv env) (n : Nat) (items : Option Items) (read : Items)
    (left : List SettingRowKey)
    (hread : ∀ its ∈ items, read.map Prod.fst ++ left = pending env its) :
    (s.proceed env n items read left).Inv env ∧
      (s.proceed env n items read left).rows = s.rows := by
  induction left generalizing s read with
  | nil => exact h.conclude n items read fun its hits => by simpa using hread its hits
  | cons key left ih =>
    have hnext : ∀ value, ∀ its ∈ items,
        (read ++ [(key, value)]).map Prod.fst ++ left = pending env its := by
      intro value its hits
      simpa using hread its hits
    unfold Checked.proceed
    split
    · exact ⟨h.setCall n trivial, rfl⟩
    · split
      · exact ih h _ (hnext _)
      · split
        · split
          · exact ih h _ (hnext _)
          · exact ih (s := s.keep key _) h _ (hnext _)
        · refine ⟨h.setCall n ?_, rfl⟩
          cases items with
          | none => trivial
          | some its => exact hread its rfl

theorem Inv.fill (h : s.Inv env) (n : Nat) (items : Option Items) (key : SettingRowKey)
    (left : List SettingRowKey) (read : Items) (row : Option String)
    (hread : ∀ its ∈ items, read.map Prod.fst ++ key :: left = pending env its) :
    (s.fill env n items key left read row).Inv env ∧
      (s.fill env n items key left read row).rows = s.rows := by
  have hnext : ∀ value, ∀ its ∈ items,
      (read ++ [(key, value)]).map Prod.fst ++ left = pending env its := by
    intro value its hits
    simpa using hread its hits
  unfold Checked.fill
  split
  · exact h.proceed n items _ left (hnext _)
  · split
    · exact h.proceed n items _ left (hnext _)
    · exact Inv.proceed (s := s.keep key _) h n items _ left (hnext _)

theorem allowed_of_read {items read : Items} (hkeys : read.map Prod.fst = pending env items)
    (hc : enforceCrossFieldRules env.numbers (written items) (fun key => read.lookup key)
      env.default = true)
    (hread : ∀ item ∈ read, item.2 = effective env.toSurroundings s.rows item.1) :
    allowed env (written items) s.rows = true := by
  unfold allowed enforceCrossFieldRules at *
  rw [all_eq_true] at hc ⊢
  intro rule hrule
  cases ht : rule.touched (written items) with
  | false => rfl
  | true =>
    have ha := hc rule hrule
    rw [ht] at ha
    refine (rule.of_keys _ _ fun key hkey => ?_).trans ha
    unfold effectiveRaw
    cases hw : written items key with
    | some value => rfl
    | none =>
      have hp : key ∈ read.map Prod.fst := by
        rw [hkeys, pending, mem_filter, mem_flatMap]
        refine ⟨⟨rule, mem_filter.2 ⟨hrule, ht⟩, hkey⟩, by simp [hw]⟩
      obtain ⟨item, hitem, rfl⟩ := mem_map.1 hp
      cases hlook : read.lookup item.1 with
      | none =>
        have := List.lookup_eq_none_iff.1 hlook item hitem
        simp at this
      | some value =>
        obtain ⟨before, after, heq, -⟩ := lookup_eq_some_iff.1 hlook
        have hv := hread (item.1, value) (by rw [heq]; simp)
        simp only [hlook]
        exact congrArg some hv.symm

/-- STEP LEMMA of a statement. -/
theorem Inv.statement (h : s.Inv env) (hgood : Good env s.rows) (n : Nat) (conflict : Bool)
    (hcare : Careful env s (.execute n conflict)) :
    (s.statement n conflict).Inv env ∧ Good env (s.statement n conflict).rows := by
  have hn := h n
  unfold Checked.statement
  split
  next items key left read hs =>
    rw [hs] at hn
    cases items with
    | none => exact ⟨h.setCall n trivial, hgood⟩
    | some items => exact ⟨h.setCall n hn, hgood⟩
  next items read hs =>
    rw [hs] at hn
    split
    · exact ⟨h.setCall n trivial, hgood⟩
    next hc =>
      simp only [Careful, hs] at hcare
      refine ⟨h.setCall n trivial, (hgood.written_iff (effective_write hn.2.1)).2 ?_⟩
      exact allowed_of_read hn.1 hn.2.2 (hcare (by simpa using hc))
  next meant hs =>
    simp only [Careful, hs] at hcare
    exact ⟨h.setCall n trivial, (hgood.written_iff (effective_delete meant)).2 hcare⟩
  · exact ⟨h, hgood⟩

/-- STEP LEMMA of a call that goes on. -/
theorem Inv.resume (h : s.Inv env) (n : Nat) :
    (s.resume env n).Inv env ∧ (s.resume env n).rows = s.rows := by
  have hn := h n
  unfold Checked.resume
  split
  next items key left read row hs =>
    rw [hs] at hn
    refine h.fill n items key left read row fun its hits => ?_
    cases items with
    | none => cases hits
    | some items =>
      cases hits
      exact hn
  · exact ⟨h.setCall n trivial, rfl⟩
  · exact ⟨h.setCall n trivial, rfl⟩
  · exact ⟨h, rfl⟩

theorem Inv.set (h : s.Inv env) (n : Nat) (key : SettingRowKey) (value : String) :
    (s.set env n key value).Inv env ∧ (s.set env n key value).rows = s.rows := by
  unfold Checked.set
  split
  · exact h.proceed n _ [] _ fun its hits => by cases hits; rfl
  · exact ⟨h.setCall n trivial, rfl⟩

theorem Inv.setMany (h : s.Inv env) (n : Nat) (items : Items) :
    (s.setMany env n items).Inv env ∧ (s.setMany env n items).rows = s.rows := by
  unfold Checked.setMany
  split
  · exact h.proceed n _ [] _ fun its hits => by cases hits; rfl
  · exact ⟨h.setCall n trivial, rfl⟩

theorem Inv.delete (h : s.Inv env) (n : Nat) (key : SettingRowKey) :
    (s.delete env n key).Inv env ∧ (s.delete env n key).rows = s.rows := by
  unfold Checked.delete
  split
  · exact ⟨h.setCall n trivial, rfl⟩
  · exact ⟨h.setCall n trivial, rfl⟩

/-- STEP LEMMA. -/
theorem Inv.step (h : s.Inv env) (hgood : Good env s.rows) {input : Input}
    (hcare : Careful env s input) :
    (s.step env input).Inv env ∧ Good env (s.step env input).rows := by
  have hb : ∀ (n : Nat) {begun : Checked}, begun.Inv env ∧ begun.rows = s.rows →
      (s.begins n begun).Inv env ∧ Good env (s.begins n begun).rows := by
    intro n begun hbegun
    unfold Checked.begins
    split
    · exact ⟨hbegun.1, hbegun.2 ▸ hgood⟩
    · exact ⟨h, hgood⟩
  cases input with
  | get n key => exact hb n (h.proceed n none [] [key] nofun)
  | set n key value => exact hb n (h.set n key value)
  | setMany n items => exact hb n (h.setMany n items)
  | delete n key => exact hb n (h.delete n key)
  | deleteNamespace n namespaceName => exact hb n ⟨h.setCall n trivial, rfl⟩
  | execute n conflict => exact h.statement hgood n conflict hcare
  | resume n =>
    obtain ⟨hinv, hrows⟩ := h.resume n
    exact ⟨hinv, hrows ▸ hgood⟩
  | drop n => exact ⟨h.setCall n trivial, hgood⟩

/-- The rules hold in every state of a run whose commits are made with care, if first. -/
theorem rules_hold {rows : Values} (hgood : Good env rows) {inputs : List Input}
    (hcare : Run.Throughout (Checked.step env) (Careful env) (start rows) inputs) :
    ∀ t ∈ Run.states (Checked.step env) (start rows) inputs, Good env t.rows := by
  intro t ht
  exact (Run.throughout_states (P := fun s => s.Inv env ∧ Good env s.rows)
    (fun _ _ hok hs => hs.1.step hs.2 hok) hcare ⟨fun _ => trivial, hgood⟩ t ht).2

end Invariant

-- ==== the runs

/-- The registered defaults of the rules' keys. -/
def shipped : Items :=
  [(floorKey, "10000"), (("api", "rate_limit_unauth_max_requests"), "20"),
    (("api", "rate_limit_auth_max_requests"), "6000"), (expertPercentileKey, "0.75"),
    (capablePercentileKey, "0.35"), (("engine", "capability_floor_low"), "basic"),
    (("engine", "capability_floor_normal"), "capable"),
    (("engine", "capability_floor_high"), "expert"),
    (("engine", "capability_floor_critical"), "expert"),
    (("engine", "reasoning_effort_low"), "low"), (("engine", "reasoning_effort_normal"), "low"),
    (("engine", "reasoning_effort_high"), "medium"),
    (("engine", "reasoning_effort_critical"), "high"), (stagnationWindowKey, "5"),
    (stagnationMinTurnsKey, "2")]

/-- No environment variables; floats in hundredths. -/
def plainDeployment : Checking Nat where
  definition := fun key => if (shipped.lookup key).isSome then some ⟨false, false⟩ else none
  fallback := fun key => (shipped.lookup key).getD ""
  encrypt := some
  decrypt := some
  numbers := {
    int := fun raw => [("10000", 10000), ("20", 20), ("6000", 6000), ("5", 5), ("2", 2),
      ("7000", 7000), ("9000", 9000), ("15000", 15000), ("20000", 20000)].lookup raw
    float := fun raw => [("0.75", 75), ("0.35", 35)].lookup raw
    lt := fun x y => x < y }
  validateValue := fun _ _ => true
  default := fun key => shipped.lookup key

instance (rows : Values) : Decidable (Good plainDeployment rows) :=
  inferInstanceAs (Decidable (∀ rule ∈ rules plainDeployment.numbers, _ = true))

def floorAndBack : List Input :=
  [.set 0 floorKey "7000", .execute 0 false, .resume 0, .execute 0 false, .resume 0,
    .execute 0 false, .resume 0, .resume 0, .delete 1 floorKey, .execute 1 false]

theorem rules_hold_floorAndBack : (Run.final (step plainDeployment) (start fun _ => none)
        (floorAndBack.take 6)).rows floorKey = some "7000" ∧
      ∀ t ∈ Run.states (step plainDeployment) (start fun _ => none) floorAndBack,
        Good plainDeployment t.rows :=
  ⟨by decide, rules_hold (by decide)
    ⟨trivial, trivial, trivial, trivial, trivial, fun _ => by decide, trivial, trivial, trivial,
      rfl, trivial⟩⟩

def authKey : SettingRowKey := ("api", "rate_limit_auth_max_requests")

def raisedPair : Values := fun key =>
  ([(floorKey, "20000"), (authKey, "15000")] : Items).lookup key

/-- Two writers, one for the floor and one for the cap; both read, then both
commit. -/
def oneHalfEach : List Input :=
  [.set 0 floorKey "7000", .execute 0 false, .resume 0, .execute 0 false, .resume 0,
    .set 1 authKey "9000", .execute 1 false, .resume 1, .execute 1 false, .resume 1,
    .execute 0 false, .execute 1 false]

/-- Deleting one half of a pair breaks its rule, and so do two writers that move a half each. -/
theorem rules_broken : (Good plainDeployment raisedPair ∧
      ¬ Good plainDeployment (Run.final (step plainDeployment) (start raisedPair)
        [.delete 0 floorKey, .execute 0 false]).rows) ∧
    (Good plainDeployment (fun _ => none) ∧
      ¬ Good plainDeployment (Run.final (step plainDeployment) (start fun _ => none)
        oneHalfEach).rows) := by
  refine ⟨⟨by decide, by decide⟩, by decide, by decide⟩

end Checked

end Synthorg.Settings
