/-
Settings are read fresh, and a compare-and-swap loses nothing.

What keeps the reads fresh is that the cache never lags behind the evictions:
an entry was read no earlier than the latest write that has dropped the key. A
write drops its entries before it returns, so what a read finds in the cache is
at least what every returned write left. The one way to break this is a slow
read that fills the cache with a row from before an eviction.
-/
import Synthorg.Settings.Service

namespace Synthorg.Settings

open Lib
open Function (update update_self update_of_ne)
open List

-- ==== the repository

namespace Repository

variable {r r' : Repository} {key : SettingRowKey}

/-- The log ends with the row that stands. -/
def Logged (r : Repository) : Prop :=
  ∀ key, (r.log key).getLast? = some (r.rows key)

def Extends (r r' : Repository) : Prop :=
  ∀ key, r.log key <+: r'.log key

theorem Extends.refl (r : Repository) : r.Extends r := fun _ => prefix_refl _

theorem Extends.trans {r'' : Repository} (h : r.Extends r') (h' : r'.Extends r'') :
    r.Extends r'' := fun key => (h key).trans (h' key)

theorem Extends.version (h : r.Extends r') (key : SettingRowKey) :
    r.version key ≤ r'.version key := by
  have := (h key).length_le
  unfold Repository.version
  omega

theorem Extends.at (h : r.Extends r') {version : Nat} {row : Option SettingRow}
    (hrow : (r.log key)[version]? = some row) : (r'.log key)[version]? = some row := by
  obtain ⟨rest, hrest⟩ := h key
  rw [← hrest, getElem?_append_left (List.getElem?_eq_some_iff.1 hrow).1]
  exact hrow

theorem Logged.current (h : r.Logged) (key : SettingRowKey) :
    (r.log key)[r.version key]? = some (r.rows key) := by
  rw [← h key, List.getLast?_eq_getElem?]
  rfl

variable {row : SettingRow} {meant : SettingRowKey → Bool}

theorem logged_save (h : r.Logged) : (r.save key row).Logged := by
  intro k
  by_cases hk : k = key
  · subst hk
    simp [save]
  · simpa [save, hk] using h k

theorem extends_save : r.Extends (r.save key row) := by
  intro k
  by_cases hk : k = key
  · subst hk
    simp [save]
  · simp [save, hk]

theorem stamp_save_of_ne {k : SettingRowKey} (hk : k ≠ key) :
    (r.save key row).stamp k = r.stamp k := by
  simp [save, stamp, hk]

theorem upsertOne_some {expected : Option String} (h : r.upsertOne key row expected = some r') :
    r' = r.save key row ∧ ∀ e, expected = some e → r.stamp key = e := by
  unfold upsertOne at h
  split at h
  · exact ⟨(Option.some.inj h).symm, nofun⟩
  next expected =>
    unfold stamp
    split at h
    next stored hrow =>
      split at h
      next heq =>
        refine ⟨(Option.some.inj h).symm, fun e he => ?_⟩
        rw [← Option.some.inj he, hrow]
        exact heq.2
      · cases h
    next hrow =>
      split at h
      next heq =>
        refine ⟨(Option.some.inj h).symm, fun e he => ?_⟩
        rw [← Option.some.inj he, hrow, heq]
      · cases h

theorem setIfUnchanged_some {expected : String} (h : r.setIfUnchanged key row expected = some r') :
    r' = r.save key row ∧ r.stamp key = expected := by
  unfold setIfUnchanged at h
  unfold stamp
  split at h
  next stored hrow =>
    split at h
    next heq => exact ⟨(Option.some.inj h).symm, by rw [hrow]; exact heq⟩
    · cases h
  next hrow =>
    split at h
    next heq => exact ⟨(Option.some.inj h).symm, by rw [hrow, heq]⟩
    · cases h

/-- A batch that goes through met the stamps of its keys, each named once. -/
theorem setMany_some {stamp : String} {items : List (SettingRowKey × String × Option String)}
    (hn : (items.map Prod.fst).Nodup) (h : r.setMany stamp items = some r') (hl : r.Logged) :
    r'.Logged ∧ r.Extends r' ∧
      ∀ item ∈ items, ∀ e, item.2.2 = some e → r.stamp item.1 = e := by
  induction items generalizing r with
  | nil =>
    cases h
    exact ⟨hl, Extends.refl _, nofun⟩
  | cons item items ih =>
    obtain ⟨key, value, expected⟩ := item
    simp only [setMany] at h
    split at h
    · cases h
    next r₁ hone =>
      obtain ⟨rfl, hmet⟩ := upsertOne_some hone
      rw [map_cons, nodup_cons] at hn
      obtain ⟨hl', hext, hrest⟩ := ih hn.2 h (logged_save hl)
      refine ⟨hl', extends_save.trans hext, fun item hitem e he => ?_⟩
      rcases mem_cons.1 hitem with rfl | hitem
      · exact hmet e he
      · have hne : item.1 ≠ key := by
          intro heq
          exact hn.1 (mem_map.2 ⟨item, hitem, heq⟩)
        rw [← stamp_save_of_ne hne]
        exact hrest item hitem e he

theorem logged_delete (h : r.Logged) : (r.delete meant).Logged := by
  intro k
  have hk := h k
  unfold delete
  by_cases hm : meant k
  · cases hrow : r.rows k with
    | none => simp [hrow, hk]
    | some row => simp [hm, hrow]
  · simp [hm, hk]

theorem extends_delete : r.Extends (r.delete meant) := by
  intro k
  simp only [delete]
  split
  · exact prefix_append _ _
  · exact prefix_refl _

end Repository

-- ==== the statements

namespace Process

def tokensOf : Statement → List (SettingRowKey × Token)
  | .set key _ token => token.toList.map fun token => (key, token)
  | .setMany items _ => items.flatMap fun item => item.2.2.toList.map fun token => (item.1, token)
  | _ => []

def KeysOnce : Statement → Prop
  | .setMany items _ => (items.map Prod.fst).Nodup
  | _ => True

theorem execute_some {r r' : Repository} {statement : Statement} (honce : KeysOnce statement)
    (h : execute r statement = some r') (hl : r.Logged) : r'.Logged ∧ r.Extends r' ∧
      ∀ entry ∈ tokensOf statement, r.stamp entry.1 = entry.2.stamp := by
  cases statement with
  | set key row token =>
    cases token with
    | none =>
      cases h
      exact ⟨Repository.logged_save hl, Repository.extends_save, fun _ he => by
        cases he⟩
    | some token =>
      obtain ⟨rfl, hmet⟩ := Repository.setIfUnchanged_some h
      refine ⟨Repository.logged_save hl, Repository.extends_save, fun entry he => ?_⟩
      rw [mem_singleton.1 he]
      exact hmet
  | setMany items stamp =>
    have hkeys : ((items.map fun item =>
        (item.1, item.2.1, item.2.2.map Token.stamp)).map Prod.fst).Nodup := by
      rw [map_map]
      exact honce
    obtain ⟨hl', hext, hmet⟩ := Repository.setMany_some hkeys h hl
    refine ⟨hl', hext, fun entry he => ?_⟩
    obtain ⟨item, hitem, he⟩ := mem_flatMap.1 he
    obtain ⟨token, ht, rfl⟩ := mem_map.1 he
    exact hmet _ (mem_map_of_mem hitem) token.stamp (by simp [Option.mem_toList.1 ht])
  | delete key =>
    cases h
    exact ⟨Repository.logged_delete hl, Repository.extends_delete, fun _ he => by
      cases he⟩
  | deleteNamespace namespaceName =>
    cases h
    exact ⟨Repository.logged_delete hl, Repository.extends_delete, fun _ he => by
      cases he⟩

theorem mem_swapsOf {r : Repository} {statement : Statement} {swap : Swap}
    (h : swap ∈ swapsOf r statement) : swap.before = r.version swap.key ∧
      ∃ token, (swap.key, token) ∈ tokensOf statement ∧ token.seenAt = some swap.seenAt := by
  cases statement with
  | set key row token =>
    obtain ⟨seenAt, hseen, rfl⟩ := mem_map.1 h
    obtain ⟨token, rfl, hat⟩ := Option.bind_eq_some_iff.1 (Option.mem_toList.1 hseen)
    exact ⟨rfl, token, by simp [tokensOf], hat⟩
  | setMany items stamp =>
    obtain ⟨item, hitem, h⟩ := mem_flatMap.1 h
    obtain ⟨seenAt, hseen, rfl⟩ := mem_map.1 h
    obtain ⟨token, ht, hat⟩ := Option.bind_eq_some_iff.1 (Option.mem_toList.1 hseen)
    refine ⟨rfl, token, mem_flatMap.2 ⟨item, hitem, ?_⟩, hat⟩
    simp [ht]
  | delete key | deleteNamespace namespaceName => cases h

-- ==== the condition

/-- The key changed, and was written again at the same reading of the clock, or is gone again. -/
def Repeats (r : Repository) (key : SettingRowKey) (token : Token) : Prop :=
  (∃ version, token.seenAt = some version ∧ version ≠ r.version key) ∧
    r.stamp key = token.stamp

/-- A read comes back to a row no older than the last eviction; no token meets a repeated stamp.
-/
def Careful (env : Surroundings) (s : Process) : Input → Prop
  | .resume n =>
    match s.calls n with
    | .read key _ (some _) version =>
      (∃ definition, env.definition key = some definition ∧ definition.sensitive = false) →
        s.evicted key ≤ version
    | _ => True
  | .execute n =>
    match s.calls n with
    | .writing statement =>
      ∀ entry ∈ tokensOf statement, ¬ Repeats s.repository entry.1 entry.2
    | _ => True
  | _ => True

-- ==== the invariant

/-- What a read makes of a row. -/
def shown (env : Surroundings) (key : SettingRowKey) (row : Option SettingRow) : String :=
  match env.definition key, row with
  | some definition, some row =>
    if definition.composeSet then env.fallback key else row.value
  | _, _ => env.fallback key

/-- The sighting is of the row that stood at its version. -/
def Genuine (env : Surroundings) (r : Repository) (key : SettingRowKey) (seen : Sighting) : Prop :=
  (∀ definition, env.definition key = some definition → definition.sensitive = false) →
    ∃ row, (r.log key)[seen.version]? = some row ∧ seen.value = shown env key row

def Stored (env : Surroundings) (key : SettingRowKey) : Prop :=
  ∀ definition, env.definition key = some definition → definition.composeSet = false

def StageOk (env : Surroundings) (s : Process) : Stage → Prop
  | .reading key floor => floor ≤ s.evicted key ∧ Stored env key
  | .read key floor row version =>
    floor ≤ version ∧ (s.repository.log key)[version]? = some row ∧ Stored env key
  | .writing statement => KeysOnce statement
  | .evicting evictions left => ∀ key version, left key = some version →
    version ≤ s.repository.version key ∧
      (version ≤ s.evicted key ∨ ∃ eviction ∈ evictions, eviction key = true)
  | _ => True

/-- THE INVARIANT. -/
structure Inv (env : Surroundings) (s : Process) : Prop where
  logged : s.repository.Logged
  evicted : ∀ key, s.evicted key ≤ s.repository.version key
  left : ∀ key, s.left key ≤ s.evicted key
  cache : ∀ key seen, s.cache key = some seen →
    s.evicted key ≤ seen.version ∧ Genuine env s.repository key seen
  calls : ∀ n, StageOk env s (s.calls n)
  answers : ∀ a ∈ s.answers, a.floor ≤ a.seen.version ∧ Genuine env s.repository a.key a.seen
  swaps : ∀ swap ∈ s.swaps, swap.seenAt = swap.before

variable {env : Surroundings} {s : Process}

variable {seen : Sighting} {n : Nat} {key : SettingRowKey}

theorem Genuine.mono {r r' : Repository} (hext : r.Extends r')
    (h : Genuine env r key seen) : Genuine env r' key seen := by
  intro hp
  obtain ⟨row, hrow, hval⟩ := h hp
  exact ⟨row, hext.at hrow, hval⟩

theorem StageOk.mono {s' : Process} {stage : Stage}
    (hext : s.repository.Extends s'.repository) (he : ∀ key, s.evicted key ≤ s'.evicted key)
    (h : StageOk env s stage) : StageOk env s' stage := by
  cases stage with
  | reading key floor => exact ⟨h.1.trans (he key), h.2⟩
  | read key floor row version => exact ⟨h.1, hext.at h.2.1, h.2.2⟩
  | writing statement => exact h
  | evicting evictions left =>
    intro key version hleft
    obtain ⟨hv, hdone⟩ := h key version hleft
    exact ⟨hv.trans (hext.version key), hdone.imp_left fun hd => hd.trans (he key)⟩
  | _ => trivial

theorem Inv.setCall (n : Nat) (stage : Stage) (h : s.Inv env) (hs : StageOk env s stage) :
    (s.setCall n stage).Inv env := by
  refine ⟨h.logged, h.evicted, h.left, h.cache, fun m => ?_, h.answers, h.swaps⟩
  have hmono : ∀ {stage'}, StageOk env s stage' → StageOk env (s.setCall n stage) stage' :=
    StageOk.mono (s := s) (Repository.Extends.refl _) fun _ => le_rfl
  by_cases hm : m = n
  · subst hm
    simpa only [Process.setCall, update_self] using hmono hs
  · simpa only [Process.setCall, update_of_ne hm] using hmono (h.calls m)

theorem Inv.answer {floor : Nat} (h : s.Inv env) (hf : floor ≤ seen.version)
    (hgen : Genuine env s.repository key seen) : (s.answer n key floor seen).Inv env := by
  have h' := h.setCall n .ended trivial
  refine ⟨h'.logged, h'.evicted, h'.left, h'.cache, h'.calls, fun a ha => ?_, h'.swaps⟩
  rcases mem_cons.1 ha with rfl | ha
  · exact ⟨hf, hgen⟩
  · exact h.answers a ha

theorem Inv.keep (h : s.Inv env) (he : s.evicted key ≤ seen.version)
    (hgen : Genuine env s.repository key seen) :
    ({ s with cache := update s.cache key (some seen) } : Process).Inv env := by
  refine ⟨h.logged, h.evicted, h.left, fun k seen' hk => ?_, h.calls, h.answers, h.swaps⟩
  by_cases hkey : k = key
  · subst hkey
    simp only [update_self, Option.some.injEq] at hk
    exact hk ▸ ⟨he, hgen⟩
  · simp only [update_of_ne hkey] at hk
    exact h.cache k seen' hk

-- ==== the steps

theorem Inv.genuine_fallback (h : s.Inv env)
    (hfall : shown env key (s.repository.rows key) = env.fallback key) :
    Genuine env s.repository key ⟨env.fallback key, s.repository.version key⟩ := fun _ =>
  ⟨s.repository.rows key, h.logged.current key, hfall.symm⟩

theorem Inv.get (h : s.Inv env) : (s.get env n key).Inv env := by
  have hleft := h.left key
  have he := h.evicted key
  unfold Process.get
  split
  · exact h.setCall n .ended trivial
  next definition hdef =>
    split
    next seen hseen =>
      have hcache : s.cache key = some seen := by
        split at hseen
        · cases hseen
        · exact hseen
      obtain ⟨hf, hgen⟩ := h.cache key seen hcache
      exact h.answer (hleft.trans hf) hgen
    · split
      next hc =>
        have hgen : Genuine env s.repository key ⟨env.fallback key, s.repository.version key⟩ := by
          refine h.genuine_fallback ?_
          cases hrow : s.repository.rows key <;> simp [shown, hdef, hc]
        have ha := h.answer (n := n) (hleft.trans he) hgen
        show Inv env (if _ then _ else _)
        split
        · exact ha
        · exact ha.keep he hgen
      next hc =>
        refine h.setCall n _ ⟨hleft, fun d hd => ?_⟩
        rw [hdef] at hd
        rw [← Option.some.inj hd]
        simpa using hc

theorem Inv.fill {floor : Nat} {row : Option SettingRow} {version : Nat} (h : s.Inv env)
    (hok : StageOk env s (.read key floor row version))
    (hcare : row.isSome → (∃ definition, env.definition key = some definition ∧
      definition.sensitive = false) → s.evicted key ≤ version) :
    (s.fill env n key floor row version).Inv env := by
  obtain ⟨hf, hrow, hstored⟩ := hok
  unfold Process.fill
  split
  · exact h.setCall n .ended trivial
  next definition hdef =>
    refine h.answer hf fun _ => ⟨none, hrow, ?_⟩
    simp [shown]
  next definition row hdef =>
    split
    next hs =>
      split
      · exact h.setCall n .ended trivial
      next value hval =>
        refine h.answer hf fun hp => ?_
        simp [hp definition hdef] at hs
    next hs =>
      have hgen : Genuine env s.repository key ⟨row.value, version⟩ := by
        refine fun _ => ⟨some row, hrow, ?_⟩
        simp [shown, hdef, hstored definition hdef]
      exact (h.answer hf hgen).keep (hcare rfl ⟨definition, hdef, by simpa using hs⟩) hgen

theorem keysOnce_prepareSetMany {items items' : List (SettingRowKey × String × Option Token)}
    (h : prepareSetMany env items = some items') :
    items'.map Prod.fst = items.map Prod.fst ∧ (items.map Prod.fst).Nodup := by
  induction items generalizing items' with
  | nil =>
    cases h
    exact ⟨rfl, nodup_nil⟩
  | cons item items ih =>
    simp only [prepareSetMany] at h
    split at h
    · cases h
    next hnew =>
      split at h
      · cases h
      · obtain ⟨rest, hrest, rfl⟩ := Option.map_eq_some_iff.1 h
        obtain ⟨hkeys, hn⟩ := ih hrest
        refine ⟨?_, nodup_cons.2 ⟨hnew, hn⟩⟩
        rw [map_cons, map_cons, hkeys]

theorem Inv.write {statement : Statement} (h : s.Inv env) (honce : KeysOnce statement) :
    (s.setCall n (.writing statement)).Inv env :=
  h.setCall n _ honce

theorem Inv.statement (h : s.Inv env) (hcare : Careful env s (.execute n)) :
    (s.statement n).Inv env := by
  have hok := h.calls n
  unfold Process.statement
  split
  next key floor hn =>
    rw [hn] at hok
    exact h.setCall n _ ⟨hok.1.trans (h.evicted key), h.logged.current key, hok.2⟩
  next key hn =>
    have h' := h.setCall n (.seen key ⟨s.repository.stamp key, some (s.repository.version key)⟩)
      trivial
    exact ⟨h'.logged, h'.evicted, h'.left, h'.cache, h'.calls, h'.answers, h'.swaps⟩
  next statement hn =>
    rw [hn] at hok
    simp only [Careful, hn] at hcare
    split
    · exact h.setCall n .refused trivial
    next r hr =>
      obtain ⟨hl, hext, hmet⟩ := execute_some hok hr h.logged
      refine ⟨hl, fun key => (h.evicted key).trans (hext.version key), h.left,
        fun key seen hseen => ?_, fun m => ?_, fun a ha => ?_, fun swap hswap => ?_⟩
      · exact (h.cache key seen hseen).imp_right (Genuine.mono hext)
      · by_cases hm : m = n
        · subst hm
          simp only [Process.setCall, update_self]
          intro key version hleft
          simp only at hleft
          split at hleft
          next habout =>
            cases hleft
            exact ⟨le_rfl, .inr (by simpa [Statement.about] using habout)⟩
          · cases hleft
        · simp only [Process.setCall, update_of_ne hm]
          exact StageOk.mono (s := s) hext (fun _ => le_rfl) (h.calls m)
      · exact (h.answers a ha).imp_right (Genuine.mono hext)
      · rcases mem_append.1 hswap with hnew | hold
        · obtain ⟨hb, token, ht, hseen⟩ := mem_swapsOf hnew
          -- the stamp was met, so the key did not change
          by_contra hne
          refine hcare _ ht ⟨⟨swap.seenAt, hseen, ?_⟩, hmet _ ht⟩
          exact fun heq => hne (heq.trans hb.symm)
        · exact h.swaps swap hold
  · exact h

theorem Inv.evict {eviction : SettingRowKey → Bool} {evictions : List (SettingRowKey → Bool)}
    {left : SettingRowKey → Option Nat} (h : s.Inv env)
    (hok : StageOk env s (.evicting (eviction :: evictions) left)) :
    ((s.setCall n (.evicting evictions left)).evict eviction left).Inv env := by
  have hgrow : ∀ key, s.evicted key ≤
      ((s.setCall n (.evicting evictions left)).evict eviction left).evicted key := by
    intro key
    simp only [Process.evict]
    split
    · exact le_max_left _ _
    · exact le_rfl
  refine ⟨h.logged, fun key => ?_, fun key => (h.left key).trans (hgrow key),
    fun key seen hseen => ?_, fun m => ?_, h.answers, h.swaps⟩
  · simp only [Process.evict]
    split
    · refine max_le (h.evicted key) ?_
      cases hleft : left key with
      | none => exact Nat.zero_le _
      | some version => exact (hok key version hleft).1
    · exact h.evicted key
  · simp only [Process.evict] at hseen ⊢
    split at hseen
    · cases hseen
    next hkey =>
      rw [if_neg hkey]
      exact h.cache key seen hseen
  · by_cases hm : m = n
    · subst hm
      simp only [Process.evict, Process.setCall, update_self]
      intro key version hleft
      obtain ⟨hv, hdone⟩ := hok key version hleft
      refine ⟨hv, ?_⟩
      by_cases hkey : eviction key
      · refine .inl ?_
        simp only [hkey, hleft]
        exact le_max_right _ _
      · rcases hdone with hdone | ⟨e, he, hmatch⟩
        · exact .inl (by simpa [hkey] using hdone)
        · rcases mem_cons.1 he with rfl | he
          · exact absurd hmatch hkey
          · exact .inr ⟨e, he, hmatch⟩
    · simp only [Process.evict, Process.setCall, update_of_ne hm]
      exact StageOk.mono (s := s) (Repository.Extends.refl _) hgrow (h.calls m)

theorem Inv.resume (h : s.Inv env) (hcare : Careful env s (.resume n)) :
    (s.resume env n).Inv env := by
  have hok := h.calls n
  unfold Process.resume
  split
  next key floor row version hn =>
    rw [hn] at hok
    simp only [Careful, hn] at hcare
    refine h.fill hok fun hsome => ?_
    cases row with
    | none => cases hsome
    | some row => exact hcare
  · exact h.setCall n .ended trivial
  · exact h.setCall n .ended trivial
  next eviction evictions left hn =>
    rw [hn] at hok
    exact h.evict hok
  next left hn =>
    rw [hn] at hok
    have h' := h.setCall n .ended trivial
    refine ⟨h'.logged, h'.evicted, fun key => ?_, h'.cache, h'.calls, h'.answers, h'.swaps⟩
    refine max_le (h.left key) ?_
    cases hleft : left key with
    | none => exact Nat.zero_le _
    | some version =>
      rcases (hok key version hleft).2 with hdone | ⟨e, he, -⟩
      · exact hdone
      · cases he
  · exact h

/-- STEP LEMMA. -/
theorem Inv.step {input : Input} (h : s.Inv env) (hcare : Careful env s input) :
    (Process.step env s input).Inv env := by
  cases input with
  | get n key =>
    simp only [Process.step]
    split
    · exact h.get
    · exact h
  | getVersioned n key =>
    simp only [Process.step, Process.getVersioned]
    split
    · split
      · exact h.setCall n .ended trivial
      · split
        · exact h.setCall n .ended trivial
        · exact h.setCall n _ trivial
    · exact h
  | set n key value now token =>
    simp only [Process.step, Process.set]
    split
    · split
      · split
        · exact h.setCall n .ended trivial
        · exact h.write trivial
      · exact h
    · exact h
  | setMany n items now =>
    simp only [Process.step, Process.setMany]
    split
    · split
      · split
        · exact h.setCall n .ended trivial
        · split
          · exact h.setCall n .ended trivial
          next items' hitems =>
            obtain ⟨hkeys, hn⟩ := keysOnce_prepareSetMany hitems
            refine h.write ?_
            show (items'.map Prod.fst).Nodup
            rw [hkeys]
            exact hn
      · exact h
    · exact h
  | delete n key =>
    simp only [Process.step, Process.delete]
    split
    · split
      · exact h.setCall n .ended trivial
      · exact h.write trivial
    · exact h
  | deleteNamespace n namespaceName =>
    simp only [Process.step]
    split
    · exact h.write trivial
    · exact h
  | execute n => exact h.statement hcare
  | resume n => exact h.resume hcare
  | drop n =>
    simp only [Process.step]
    split
    · exact h
    · exact h.setCall n .ended trivial

theorem inv_start (env : Surroundings) (rows : SettingRowKey → Option SettingRow) :
    (start rows).Inv env := by
  refine ⟨fun _ => rfl, fun _ => Nat.zero_le _, fun _ => le_rfl, fun _ _ hseen => ?_,
    fun _ => trivial, fun _ ha => ?_, fun _ hs => ?_⟩
  · cases hseen
  · cases ha
  · cases hs

-- ==== whole runs

/-- In every state of a careful run a read of a key that is not sensitive returned a value no
older than the writes that had returned before it; a write with an expected stamp was made at
that version; and a refused batch leaves every row. -/
theorem settings_consistent (env : Surroundings) (rows : SettingRowKey → Option SettingRow)
    (inputs : List Input)
    (hcare : Run.Throughout (Process.step env) (Careful env) (start rows) inputs) :
    ∀ s ∈ Run.states (Process.step env) (start rows) inputs,
      (∀ a ∈ s.answers, a.floor ≤ a.seen.version ∧ Genuine env s.repository a.key a.seen) ∧
      (∀ swap ∈ s.swaps, swap.seenAt = swap.before) ∧
      ∀ n, (s.statement n).calls n = .refused → (s.statement n).repository = s.repository := by
  intro s hs
  have h := Run.throughout_states (P := Inv env) (fun _ _ hok h => h.step hok) hcare
    (inv_start env rows) s hs
  refine ⟨h.answers, h.swaps, fun n hrefused => ?_⟩
  unfold Process.statement at hrefused ⊢
  split
  · rfl
  · rfl
  next statement hn =>
    split
    · rfl
    next r hr => simp [hn, hr, Process.setCall] at hrefused
  · rfl

-- ==== short runs

def plainSettings : Surroundings where
  definition := fun _ => some ⟨false, false⟩
  fallback := fun _ => "default"
  encrypt := some
  decrypt := some

def oneOverride : SettingRowKey → Option SettingRow :=
  update (fun _ => none) ("api", "host") (some ⟨"old", "09:00"⟩)

def swapThenRead : List Process.Input :=
  [.getVersioned 0 ("api", "host"), .execute 0, .resume 0,
    .set 1 ("api", "host") "new" "09:01" (some ⟨"09:00", some 0⟩), .execute 1, .resume 1, .resume 1,
    .get 2 ("api", "host"), .execute 2, .resume 2]

theorem settings_consistent_swapThenRead :
    (Run.final (step plainSettings) (start oneOverride) swapThenRead).swaps =
        [⟨("api", "host"), 0, 0⟩] ∧
      ∀ swap ∈ (Run.final (step plainSettings) (start oneOverride) swapThenRead).swaps,
        swap.seenAt = swap.before := by
  refine ⟨rfl, (settings_consistent plainSettings oneOverride swapThenRead ?_ _
    (Run.final_mem_states _ _ _)).2.1⟩
  refine ⟨trivial, trivial, trivial, trivial, ?_, trivial, trivial, trivial, trivial, ?_, trivial⟩
  · intro entry hentry
    cases mem_singleton.1 hentry
    rintro ⟨⟨version, hseen, hne⟩, -⟩
    cases hseen
    exact hne rfl
  · exact fun _ => le_rfl

/-- A read fills the cache with its row after the write has returned. -/
def slowRead : List Process.Input :=
  [.get 0 ("api", "host"), .execute 0,
    .set 1 ("api", "host") "new" "09:01" none, .execute 1, .resume 1, .resume 1,
    .resume 0, .get 2 ("api", "host")]

def oneReading : List Process.Input :=
  [.getVersioned 0 ("api", "host"), .execute 0, .resume 0,
    .set 1 ("api", "host") "new" "09:00" none, .execute 1, .resume 1, .resume 1,
    .set 2 ("api", "host") "newer" "09:00" (some ⟨"09:00", some 0⟩), .execute 2]

/-- A read hands the replaced value on, and a write of the same reading overwrites the first. -/
theorem settings_inconsistent :
    (Run.final (step plainSettings) (start oneOverride) slowRead).answers =
        [⟨("api", "host"), 1, ⟨"old", 0⟩⟩, ⟨("api", "host"), 0, ⟨"old", 0⟩⟩] ∧
      (Run.final (step plainSettings) (start oneOverride) oneReading).swaps =
        [⟨("api", "host"), 0, 1⟩] :=
  ⟨rfl, rfl⟩

end Process

end Synthorg.Settings
