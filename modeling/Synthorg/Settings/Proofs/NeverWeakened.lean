/-
A guarded setting is not weakened by a call without governance, where the guard's
reading of the value is its consumer's.

The judgement of a key comes to the judgement of its kind (`isWeakening_kind`), and
a kind's judgement is right about values that pass their validators, with three
exceptions (`Agrees`): a toggle spelled `1` is on for its consumer and not for the
guard, two pack names can fold to one and still be two for the loader, and two
entries of the routes can declare one pair.
-/
import Synthorg.Settings.Proofs.RulesHold
import Synthorg.Settings.WriteGovernance

namespace Synthorg.Settings

open Lib
open List

variable {J : Type}

-- ==== the kinds

def weakens [DecidableEq J] (texts : Texts J) : Kind → Option String → String → Bool
  | .protection _ => turnsOff texts
  | .capability _ => turnsOn texts
  | .minStakes => raisesStakes
  | .capabilityFloor => lowersCapability
  | .tokenBytes => intMoves texts (fun current new => new < current) "32"
  | .cap default _ => intMoves texts (fun current new => current < new) default
  | .window => shortensWindow texts
  | .retention => intMoves texts shortensRetention "0"
  | .network => relaxesNetwork texts
  | .cpus => liftsQuota texts
  | .targets => isCapabilityWidening texts
  | .exemptions => broadensExemptions texts
  | .directives => hasNewDirective texts
  | .routes => declaresRoute texts
  | .pack => swapsPack texts
  | .scanPolicy => permitsScan texts
  | .selfConsumer => opensBridge texts

theorem isWeakening_kind [DecidableEq J] (texts : Texts J) (current : Option String)
    (new : String) : ∀ entry ∈ guardedSettings,
      isWeakening texts entry.1 current new = weakens texts entry.2 current new := by
  unfold guardedSettings
  simp only [forall_mem_cons]
  repeat' constructor
  rintro _ ⟨⟩

variable {key : SettingRowKey} {kind : Kind}

theorem mem_of_kindOf (h : kindOf key = some kind) : (key, kind) ∈ guardedSettings := by
  obtain ⟨before, after, heq, -⟩ := lookup_eq_some_iff.1 h
  rw [heq]
  simp

theorem isGuarded_kind (h : isGuarded key = true) : ∃ kind, kindOf key = some kind := by
  obtain ⟨name, key⟩ := key
  rw [← Option.isSome_iff_exists]
  have hof : ∀ (name : String) (keys : List String),
      (∀ key ∈ keys, (kindOf (name, key)).isSome = true) → decide (key ∈ keys) = true →
        (kindOf (name, key)).isSome = true :=
    fun _ _ hall hkey => hall key (of_decide_eq_true hkey)
  unfold isGuarded at h
  dsimp only at h
  split at h
  next hname =>
    subst hname
    rcases (Bool.or_eq_true _ _).mp h with h | h
    · exact hof _ _ (by decide) h
    · exact hof _ _ (by decide) h
  split at h
  next hname => subst hname; exact hof _ _ (by decide) h
  split at h
  next hname => subst hname; exact hof _ _ (by decide) h
  split at h
  next hname => subst hname; exact hof _ _ (by decide) h
  split at h
  next hname => subst hname; exact hof _ _ (by decide) h
  split at h
  next hname =>
    subst hname
    rw [of_decide_eq_true h]
    rfl
  split at h
  next hname => subst hname; exact hof _ _ (by decide) h
  split at h
  next hname =>
    subst hname
    rw [of_decide_eq_true h]
    rfl
  · cases h

theorem isGuarded_of_kindOf (h : kindOf key = some kind) : isGuarded key = true := by
  have hall : ∀ entry ∈ guardedSettings, isGuarded entry.1 = true := by decide
  exact hall _ (mem_of_kindOf h)

/-- `after` does not hold less than `before`, as the setting's consumer reads them. -/
def NoWeaker (texts : Texts J) (before after : String) : Kind → Prop
  | .protection reader =>
    reader.read texts before = some true → reader.read texts after = some true
  | .capability reader =>
    reader.read texts after = some true → reader.read texts before = some true
  | .minStakes => ∀ b ∈ stakesOrder.idxOf? after, ∃ a ∈ stakesOrder.idxOf? before, b ≤ a
  | .capabilityFloor =>
    ∀ b ∈ capabilityLadder.idxOf? after, ∃ a ∈ capabilityLadder.idxOf? before, a ≤ b
  | .tokenBytes => ∀ b ∈ texts.int after, ∃ a ∈ texts.int before, a ≤ b
  | .cap _ _ => ∀ b ∈ texts.int after, ∃ a ∈ texts.int before, b ≤ a
  | .window =>
    ∀ b ∈ rateLimitWindowSeconds.lookup after, ∃ a ∈ rateLimitWindowSeconds.lookup before, a ≤ b
  | .retention =>
    ∀ b ∈ texts.int after, ∃ a ∈ texts.int before, b = 0 ∨ (a ≠ 0 ∧ a ≤ b)
  | .network =>
    ∀ b ∈ mcpSandboxNetworkIsolation.lookup after,
      ∃ a ∈ mcpSandboxNetworkIsolation.lookup before, a ≤ b
  | .cpus => texts.floatIsZero after = true → texts.floatIsZero before = true
  | .targets => ∀ x ∈ parseTargets texts after, x ∈ parseTargets texts before
  | .exemptions => ∀ x ∈ parseExemptions texts after, x ∈ parseExemptions texts before
  | .directives => ∀ x ∈ parseExtraDirectives texts after, x ∈ parseExtraDirectives texts before
  | .routes =>
    ∀ declared, ∀ alternate ∈ alternateFor texts after declared,
      alternate ∈ alternateFor texts before declared
  | .pack => packName texts after = packName texts before
  | .scanPolicy => after = "log_only" → before = "log_only"
  | .selfConsumer => before = "disabled" → after = "disabled"

theorem NoWeaker.refl (texts : Texts J) (value : String) (kind : Kind) :
    NoWeaker texts value value kind := by
  cases kind with
  | protection reader | capability reader | cpus | scanPolicy | selfConsumer => exact id
  | minStakes | capabilityFloor | window | network => exact fun b hb => ⟨b, hb, Nat.le_refl b⟩
  | tokenBytes | cap _ _ => exact fun b hb => ⟨b, hb, Int.le_refl b⟩
  | retention => exact fun b hb => ⟨b, hb, by omega⟩
  | targets | exemptions | directives => exact fun _ hx => hx
  | routes => exact fun _ _ ha => ha
  | pack => exact rfl

theorem NoWeaker.trans {texts : Texts J} {a b c : String} (hab : NoWeaker texts a b kind)
    (hbc : NoWeaker texts b c kind) : NoWeaker texts a c kind := by
  cases kind with
  | protection reader | selfConsumer => exact fun h => hbc (hab h)
  | capability reader | cpus | scanPolicy => exact fun h => hab (hbc h)
  | minStakes | cap _ _ | capabilityFloor | tokenBytes | window | network | retention =>
    intro z hz
    obtain ⟨y, hy, hyz⟩ := hbc z hz
    obtain ⟨x, hx, hxy⟩ := hab y hy
    exact ⟨x, hx, by omega⟩
  | targets | exemptions | directives => exact fun x hx => hab x (hbc x hx)
  | routes => exact fun declared x hx => hab declared x (hbc declared x hx)
  | pack => exact Eq.trans hbc hab

-- ==== the judgements

section Judged

variable (texts : Texts J)

/-- The guard reads a change as the consumer does; a toggle spelled `1` may stay on or have been
on. -/
def Agrees (current new : String) : Kind → Prop
  | .protection .asBool | .capability .asBool => True
  | .protection reader => texts.lower current = "1" → reader.read texts new = some true
  | .capability reader => texts.lower new = "1" → reader.read texts current = some true
  | .pack =>
    normalizeIdentifier texts current = normalizeIdentifier texts new →
      packName texts new = packName texts current
  | .routes => ((parseFailoverRoutes texts current).map Prod.fst).Nodup
  | _ => True

variable {texts} {current new : String}

theorem compareCi_true (hs : texts.lower new ∈ booleanSpellings) :
    compareCi texts new "true" = true ↔ texts.lower new = "true" := by
  have htrue : texts.lower "true" = "true" := texts.spellings "true" (by decide)
  have hn : ∀ v, texts.lower v ∈ booleanSpellings →
      normalizeIdentifier texts v = texts.lower v := by
    intro v hv
    obtain ⟨hstrip, hfold⟩ := texts.spelled v hv
    rw [normalizeIdentifier, hstrip, hfold]
  rw [compareCi, decide_eq_true_eq, hn new hs, hn "true" (by rw [htrue]; decide), htrue]

variable {reader : BoolReader} {x : String × String × String} {entries : List J}

theorem read_true (hs : texts.lower new ∈ booleanSpellings) (hread : reader ≠ .asBool) :
    reader.read texts new = some true ↔ texts.lower new = "true" ∨ texts.lower new = "1" := by
  cases reader with
  | asBool => exact absurd rfl hread
  | parseBool =>
    simp only [BoolReader.read, mem_cons, not_mem_nil, or_false]
    split
    next h => simp [h]
    next h =>
      split
      · simp [h]
      · simp [h]
  | trueTokens =>
    obtain ⟨hstrip, -⟩ := texts.spelled new hs
    simp only [booleanSpellings, mem_cons, not_mem_nil, or_false] at hs
    simp only [BoolReader.read, hstrip]
    rcases hs with h | h | h | h <;> rw [h] <;> decide

theorem read_asBool (value : String) :
    BoolReader.asBool.read texts value = some true ↔ compareCi texts value "true" = true := by
  have htrue : normalizeIdentifier texts "true" = "true" := by
    have hl : texts.lower "true" = "true" := texts.spellings "true" (by decide)
    obtain ⟨hs, hfold⟩ := texts.spelled "true" (by rw [hl]; decide)
    rw [normalizeIdentifier, hs, hfold, hl]
  simp only [BoolReader.read, compareCi, htrue, Option.some.injEq]

theorem noWeaker_protection (hc : texts.lower current ∈ booleanSpellings)
    (hnew : texts.lower new ∈ booleanSpellings)
    (ha : Agrees texts current new (.protection reader))
    (hj : turnsOff texts (some current) new = false) :
    NoWeaker texts current new (.protection reader) := by
  intro hon
  have hs : compareCi texts current "true" = true → compareCi texts new "true" = true := by
    intro hcurrent
    simpa [turnsOff, hcurrent] using hj
  by_cases hread : reader = .asBool
  · subst hread
    rw [read_asBool] at hon ⊢
    exact hs hon
  · rcases (read_true hc hread).1 hon with htrue | hone
    · rw [compareCi_true hc, compareCi_true hnew] at hs
      exact (read_true hnew hread).2 (.inl (hs htrue))
    · cases reader with
      | asBool => exact absurd rfl hread
      | parseBool | trueTokens => exact ha hone

theorem noWeaker_capability (hc : texts.lower current ∈ booleanSpellings)
    (hnew : texts.lower new ∈ booleanSpellings)
    (ha : Agrees texts current new (.capability reader))
    (hj : turnsOn texts (some current) new = false) :
    NoWeaker texts current new (.capability reader) := by
  intro hon
  have hwas : compareCi texts new "true" = true → compareCi texts current "true" = true := by
    intro hcurrent
    simpa [turnsOn, hcurrent] using hj
  by_cases hread : reader = .asBool
  · subst hread
    rw [read_asBool] at hon ⊢
    exact hwas hon
  · rcases (read_true hnew hread).1 hon with htrue | hone
    · rw [compareCi_true hc, compareCi_true hnew] at hwas
      exact (read_true hc hread).2 (.inl (hwas htrue))
    · cases reader with
      | asBool => exact absurd rfl hread
      | parseBool | trueTokens => exact ha hone

theorem noWeaker_minStakes (hc : current ∈ stakesOrder)
    (hj : raisesStakes (some current) new = false) : NoWeaker texts current new .minStakes := by
  intro b hb
  obtain ⟨a, ha⟩ := Option.isSome_iff_exists.1 (isSome_idxOf?.2 hc)
  refine ⟨a, ha, ?_⟩
  simp only [raisesStakes, Option.mem_def.1 hb, Option.bind_some, ha, Option.getD_some,
    decide_eq_false_iff_not] at hj
  omega

theorem noWeaker_capabilityFloor (hc : current ∈ capabilityLadder)
    (hj : lowersCapability (some current) new = false) :
    NoWeaker texts current new .capabilityFloor := by
  intro b hb
  obtain ⟨a, ha⟩ := Option.isSome_iff_exists.1 (isSome_idxOf?.2 hc)
  refine ⟨a, ha, ?_⟩
  simp only [lowersCapability, Option.mem_def.1 hb, Option.bind_some, ha, Option.getD_some,
    decide_eq_false_iff_not] at hj
  omega

theorem intMoves_false {moves : Int → Int → Bool} {default : String} {a b : Int}
    (ha : texts.int current = some a) (hb : texts.int new = some b)
    (hj : intMoves texts moves default (some current) new = false) : moves a b = false := by
  simpa only [intMoves, Option.getD_some, ha, hb] using hj

theorem normalizeIdentifier_word {value : String}
    (h : value ∈ rateLimitWindowSeconds.map Prod.fst ++ mcpSandboxNetworkIsolation.map Prod.fst ++
      outputScanPolicies ++ mcpSelfConsumerModes) : normalizeIdentifier texts value = value :=
  texts.words value h

theorem lookup_isSome {β : Type} {table : List (String × β)} {value : String}
    (h : value ∈ table.map Prod.fst) : ∃ rank, table.lookup value = some rank := by
  obtain ⟨entry, he, rfl⟩ := mem_map.1 h
  exact Option.isSome_iff_exists.1 (lookup_isSome_iff.2 ⟨entry, he, beq_self_eq_true _⟩)

theorem noWeaker_window (hc : current ∈ rateLimitWindowSeconds.map Prod.fst)
    (hnew : new ∈ rateLimitWindowSeconds.map Prod.fst)
    (hj : shortensWindow texts (some current) new = false) :
    NoWeaker texts current new .window := by
  intro b hb
  obtain ⟨a, ha⟩ := lookup_isSome hc
  refine ⟨a, ha, ?_⟩
  have hwas : normalizeIdentifier texts current = current :=
    normalizeIdentifier_word (by simp [hc])
  have his : normalizeIdentifier texts new = new := normalizeIdentifier_word (by simp [hnew])
  simp only [shortensWindow, Option.getD_some, hwas, his, ha, Option.mem_def.1 hb,
    decide_eq_false_iff_not] at hj
  omega

theorem noWeaker_network (hc : current ∈ mcpSandboxNetworkIsolation.map Prod.fst)
    (hnew : new ∈ mcpSandboxNetworkIsolation.map Prod.fst)
    (hj : relaxesNetwork texts (some current) new = false) :
    NoWeaker texts current new .network := by
  intro b hb
  obtain ⟨a, ha⟩ := lookup_isSome hc
  refine ⟨a, ha, ?_⟩
  have hwas : normalizeIdentifier texts current = current :=
    normalizeIdentifier_word (by simp [hc])
  have his : normalizeIdentifier texts new = new := normalizeIdentifier_word (by simp [hnew])
  simp only [relaxesNetwork, networkIsolationRank, Option.getD_some, hwas, his, ha,
    Option.mem_def.1 hb, decide_eq_false_iff_not] at hj
  omega

theorem noWeaker_cpus (hj : liftsQuota texts (some current) new = false) :
    NoWeaker texts current new .cpus := by
  intro hzero
  simpa [liftsQuota, hzero] using hj

theorem capabilityPatterns_some (value : String) :
    capabilityPatterns texts (some value) = parseTargets texts value := by
  unfold capabilityPatterns parseTargets
  split
  next heq => cases heq
  next raw heq =>
    obtain rfl := Option.some.inj heq
    split
    next he =>
      subst he
      have hs : split "" ',' = [""] := by decide
      rw [hs]
      simp [texts.empty]
    · rfl

theorem noWeaker_targets (hj : isCapabilityWidening texts (some current) new = false) :
    NoWeaker texts current new .targets := by
  intro x hx
  rw [← capabilityPatterns_some] at hx ⊢
  simpa using any_eq_false.1 hj x hx

theorem sanctionedExemption_key {value : J} (h : sanctionedExemption texts value = some x) :
    ∃ entry, texts.dict? value = some entry ∧
      (fieldText texts entry "rule_id", fieldText texts entry "scope_kind",
        fieldText texts entry "match") = x := by
  have hf : ∀ {entry : List (String × J)} {name text : String},
      notBlankField texts entry name = some text → fieldText texts entry name = text := by
    intro entry name text h
    obtain ⟨hbind, -⟩ := Option.filter_eq_some_iff.1 h
    obtain ⟨field, hlook, htext⟩ := Option.bind_eq_some_iff.1 hbind
    simp only [fieldText, hlook, htext, Option.getD_some]
  unfold sanctionedExemption at h
  split at h
  · cases h
  next entry hdict =>
    refine ⟨entry, hdict, ?_⟩
    split at h
    · split at h
      next rule kind pattern _ hrule hkind hm _ =>
        obtain ⟨hkind, -⟩ := Option.filter_eq_some_iff.1 hkind
        rw [hf hrule, hf hkind, hf hm]
        exact Option.some.inj h
      · cases h
    · cases h

theorem mem_exemptionKeys (hx : x ∈ parseExemptions texts new) :
    x ∈ exemptionKeys texts (some new) := by
  unfold parseExemptions at hx
  unfold exemptionKeys
  split at hx
  · cases hx
  next hne =>
    obtain ⟨value, hval, he⟩ := mem_filterMap.1 hx
    obtain ⟨entry, hdict, hkey⟩ := sanctionedExemption_key he
    cases hlist : (texts.loads new).bind texts.list? with
    | none => simp [hlist] at hval
    | some entries =>
      rw [hlist] at hval
      simp only [hne, hlist]
      exact mem_map.2 ⟨entry, mem_filterMap.2 ⟨value, hval, hdict⟩, hkey⟩

theorem mem_parseExemptions (hlist : (texts.loads current).bind texts.list? = some entries)
    (hv : ∀ entry ∈ entries, (sanctionedExemption texts entry).isSome = true)
    (hx : x ∈ exemptionKeys texts (some current)) : x ∈ parseExemptions texts current := by
  simp only [exemptionKeys, hlist] at hx
  unfold parseExemptions
  split at hx
  · cases hx
  next hne =>
    rw [if_neg hne, hlist]
    obtain ⟨entry, he, hkey⟩ := mem_map.1 hx
    obtain ⟨value, hval, hdict⟩ := mem_filterMap.1 he
    obtain ⟨y, hy⟩ := Option.isSome_iff_exists.1 (hv value hval)
    obtain ⟨entry', hdict', hkey'⟩ := sanctionedExemption_key hy
    obtain rfl : entry = entry' := Option.some.inj (hdict.symm.trans hdict')
    rw [← hkey, hkey']
    exact mem_filterMap.2 ⟨value, hval, hy⟩

theorem noWeaker_exemptions (hlist : (texts.loads current).bind texts.list? = some entries)
    (hv : ∀ entry ∈ entries, (sanctionedExemption texts entry).isSome = true)
    (hj : broadensExemptions texts (some current) new = false) :
    NoWeaker texts current new .exemptions := by
  intro x hx
  have hkey := any_eq_false.1 hj x (mem_exemptionKeys hx)
  exact mem_parseExemptions hlist hv (by simpa using hkey)

theorem strip_ne_of_loads (hlist : (texts.loads new).bind texts.list? = some entries) :
    texts.strip new ≠ "" := by
  intro hb
  simp [texts.blank new hb] at hlist

theorem parseExtraDirectives_eq (hlist : (texts.loads new).bind texts.list? = some entries) :
    parseExtraDirectives texts new = entries := by
  have hne : new ≠ "" := by
    rintro rfl
    exact strip_ne_of_loads hlist texts.empty
  rw [parseExtraDirectives, if_neg hne, hlist, Option.getD_some]

section Equal

variable [DecidableEq J]

theorem noWeaker_directives {entries : List J}
    (hlist : (texts.loads current).bind texts.list? = some entries)
    (hj : hasNewDirective texts (some current) new = false) :
    NoWeaker texts current new .directives := by
  intro x hx
  cases hnew : (texts.loads new).bind texts.list? with
  | none => simp [parseExtraDirectives, hnew] at hx
  | some after =>
    rw [parseExtraDirectives_eq hnew] at hx
    simp only [hasNewDirective, directiveEntries, strip_ne_of_loads hlist,
      strip_ne_of_loads hnew, hlist, hnew] at hj
    rw [parseExtraDirectives_eq hlist]
    simpa using any_eq_false.1 hj x hx

theorem lookup_reverse_of_mem {β : Type} {table : List (String × β)} {key : String} {value : β}
    (hn : (table.map Prod.fst).Nodup) (hmem : (key, value) ∈ table) :
    table.reverse.lookup key = some value := by
  obtain ⟨before, after, heq⟩ := append_of_mem (mem_reverse.2 hmem)
  rw [lookup_eq_some_iff]
  refine ⟨before, after, heq, fun entry he => ?_⟩
  have hrev : ((table.reverse).map Prod.fst).Nodup := by
    rw [map_reverse]
    exact nodup_reverse.2 hn
  rw [heq, map_append, nodup_append] at hrev
  have hne : entry.1 ≠ key := hrev.2.2 _ (mem_map_of_mem he) _ (by simp)
  exact bne_iff_ne.2 hne.symm

theorem noWeaker_routes (ha : Agrees texts current new .routes)
    (hj : declaresRoute texts (some current) new = false) :
    NoWeaker texts current new .routes := by
  intro declared alternate halternate
  unfold alternateFor at halternate ⊢
  split at halternate
  · next hb =>
    obtain ⟨hlook, ho⟩ := Option.filter_eq_some_iff.1 halternate
    have hmem : (routeKey texts declared, alternate) ∈ parseFailoverRoutes texts new := by
      obtain ⟨before, after, heq, -⟩ := lookup_eq_some_iff.1 hlook
      exact mem_reverse.1 (by rw [heq]; simp)
    obtain ⟨entry, he, hd⟩ := mem_filterMap.1 hmem
    have hs : entry ∈ declaredRouteKeys texts (some current) := by
      simpa using any_eq_false.1 hj entry he
    have hwas : (routeKey texts declared, alternate) ∈ parseFailoverRoutes texts current :=
      mem_filterMap.2 ⟨entry, hs, hd⟩
    rw [if_pos hb, lookup_reverse_of_mem ha hwas]
    exact Option.filter_eq_some_iff.2 ⟨rfl, ho⟩
  · cases halternate

end Equal

theorem noWeaker_pack (ha : Agrees texts current new .pack)
    (hj : swapsPack texts (some current) new = false) : NoWeaker texts current new .pack := by
  simp only [swapsPack, Bool.not_eq_false', compareCi, decide_eq_true_eq] at hj
  exact ha hj

theorem noWeaker_scanPolicy (hc : current ∈ outputScanPolicies)
    (hj : permitsScan texts (some current) new = false) :
    NoWeaker texts current new .scanPolicy := by
  rintro rfl
  have hwas : normalizeIdentifier texts current = current :=
    normalizeIdentifier_word (by simp [hc])
  have hlog : normalizeIdentifier texts "log_only" = "log_only" :=
    normalizeIdentifier_word (by decide)
  simpa [permitsScan, compareCi, hwas, hlog] using hj

theorem noWeaker_selfConsumer (hnew : new ∈ mcpSelfConsumerModes)
    (hj : opensBridge texts (some current) new = false) :
    NoWeaker texts current new .selfConsumer := by
  rintro rfl
  have his : normalizeIdentifier texts new = new := normalizeIdentifier_word (by simp [hnew])
  have hoff : normalizeIdentifier texts "disabled" = "disabled" :=
    normalizeIdentifier_word (by decide)
  simpa [opensBridge, compareCi, his, hoff] using hj

end Judged

-- ==== one change

section Changes

variable [DecidableEq J] (env : Governed J)

/-- One that passed its validator; anything is read as routes. -/
def Readable (value : String) (kind : Kind) : Prop :=
  kind = .routes ∨ kind.validate env value = true

variable {env} {current new : String}

theorem noWeaker_of_judged {kind : Kind} (hc : Readable env current kind)
    (hnew : Readable env new kind) (hagrees : Agrees env.texts current new kind)
    (hj : weakens env.texts kind (some current) new = false) :
    NoWeaker env.texts current new kind := by
  have hv : ∀ {value}, Readable env value kind → kind ≠ .routes →
      kind.validate env value = true := fun h hne => h.resolve_left hne
  cases kind with
  | routes => exact noWeaker_routes hagrees hj
  | protection reader =>
    exact noWeaker_protection (of_decide_eq_true (hv hc nofun))
      (of_decide_eq_true (hv hnew nofun)) hagrees hj
  | capability reader =>
    exact noWeaker_capability (of_decide_eq_true (hv hc nofun))
      (of_decide_eq_true (hv hnew nofun)) hagrees hj
  | minStakes => exact noWeaker_minStakes (of_decide_eq_true (hv hc nofun)) hj
  | capabilityFloor => exact noWeaker_capabilityFloor (of_decide_eq_true (hv hc nofun)) hj
  | window =>
    exact noWeaker_window (of_decide_eq_true (hv hc nofun))
      (of_decide_eq_true (hv hnew nofun)) hj
  | network =>
    exact noWeaker_network (of_decide_eq_true (hv hc nofun))
      (of_decide_eq_true (hv hnew nofun)) hj
  | tokenBytes =>
    intro b hb
    obtain ⟨a, ha, -⟩ := (Option.any_eq_true _ _).1 (hv hc nofun)
    exact ⟨a, ha, by simpa using intMoves_false ha hb hj⟩
  | cap default maxValue =>
    intro b hb
    obtain ⟨a, ha, -⟩ := (Option.any_eq_true _ _).1 (hv hc nofun)
    exact ⟨a, ha, by simpa using intMoves_false ha hb hj⟩
  | retention =>
    intro b hb
    obtain ⟨a, ha, -⟩ := (Option.any_eq_true _ _).1 (hv hc nofun)
    refine ⟨a, ha, ?_⟩
    have hm := intMoves_false ha hb hj
    unfold shortensRetention at hm
    split at hm
    next hzero => exact .inl hzero
    · simp only [Bool.or_eq_false_iff, decide_eq_false_iff_not] at hm
      exact .inr ⟨hm.1, by omega⟩
  | cpus => exact noWeaker_cpus hj
  | targets => exact noWeaker_targets hj
  | exemptions =>
    obtain ⟨entries, hlist, hall⟩ := (Option.any_eq_true _ _).1 (hv hc nofun)
    exact noWeaker_exemptions hlist (all_eq_true.1 hall) hj
  | directives =>
    obtain ⟨entries, hlist, -⟩ := (Option.any_eq_true _ _).1 (hv hc nofun)
    exact noWeaker_directives hlist hj
  | pack => exact noWeaker_pack hagrees hj
  | scanPolicy => exact noWeaker_scanPolicy (of_decide_eq_true (hv hc nofun)) hj
  | selfConsumer => exact noWeaker_selfConsumer (of_decide_eq_true (hv hnew nofun)) hj

end Changes

-- ==== the run

section Runs

variable [DecidableEq J] (env : Governed J)

def lands (rows : Values) : GovernedCall → Values
  | .set key value _ => written [(key, value)]
  | .setMany items _ => written items
  | .delete key => reverted env.toSurroundings rows fun k => k = key
  | .deleteNamespace namespaceName =>
    reverted env.toSurroundings rows fun key => key.1 = namespaceName

/-- The guard and the consumers read alike what a call brings and what it meets. -/
def Careful (rows : Values) (call : GovernedCall) : Prop :=
  ∀ key kind value, kindOf key = some kind → lands env rows call key = some value →
    Agrees env.texts (effective env.toSurroundings rows key) value kind

/-- THE INVARIANT: the overrides of guarded settings can be read. -/
def Valid (rows : Values) : Prop :=
  ∀ key kind value, kindOf key = some kind → rows key = some value → Readable env value kind

/-- What stands under the overrides can be read too, of every guarded setting. -/
def ValidFallbacks : Prop :=
  ∀ key kind, kindOf key = some kind → Readable env (env.fallback key) kind

variable {env} {rows : Values} {call : GovernedCall}

variable {key : SettingRowKey} {kind : Kind} {governance : Option SettingsWriteGovernance}
  {items : Items} {value : String}

omit [DecidableEq J] in
theorem Valid.effective (h : Valid env rows) (hfall : ValidFallbacks env)
    (hkind : kindOf key = some kind) :
    Readable env (effective env.toSurroundings rows key) kind := by
  unfold Settings.effective
  split
  · exact hfall key kind hkind
  · cases hrow : rows key with
    | none => exact hfall key kind hkind
    | some value => exact h key kind value hkind hrow

theorem not_weakens {getCurrent : Values} (hg : governance.any (·.isSatisfied env.texts) = false)
    (hpass : enforceSecurityWriteGovernance env.texts items governance getCurrent = true)
    (hkind : kindOf key = some kind) (hitem : (key, value) ∈ items) :
    weakens env.texts kind (getCurrent key) value = false := by
  have hall := all_eq_true.1 hpass _ hitem
  rw [hg, Bool.or_false, isGuarded_of_kindOf hkind, Bool.not_true, Bool.false_or,
    Bool.not_eq_true', isWeakening_kind _ _ _ _ (mem_of_kindOf hkind)] at hall
  exact hall

/-- What a change of the rows brings into force, judged harmless and readable. -/
def Lands (env : Governed J) (rows rows' landed : Values) : Prop :=
  (∀ key, effective env.toSurroundings rows' key =
      (landed key).getD (effective env.toSurroundings rows key)) ∧
    (∀ key, rows' key = rows key ∨ rows' key = none ∨ rows' key = landed key) ∧
    ∀ key kind value, kindOf key = some kind → landed key = some value →
      Readable env value kind ∧ ((env.definition key).isSome = true →
        weakens env.texts kind (some (effective env.toSurroundings rows key)) value = false)

theorem write_lands (hg : governance.any (·.isSatisfied env.texts) = false) :
    write env rows items governance = rows ∨
      Lands env rows (write env rows items governance) (written items) := by
  unfold write
  split
  next hpass =>
    simp only [Bool.and_eq_true, all_eq_true] at hpass
    obtain ⟨⟨hvalidate, hguarded⟩, hp⟩ := hpass
    refine .inr ⟨effective_write hp, fun key => ?_, ?_⟩
    · cases hw : written items key with
      | none => exact .inl (by simp [hw])
      | some value => exact .inr (.inr (by simp [hw]))
    · intro key kind value hkind hw
      have hitem := mem_of_written hw
      have hv := (hvalidate _ hitem).2
      rw [validateValue, hkind] at hv
      exact ⟨.inr hv, fun _ => not_weakens hg hguarded hkind hitem⟩
  · exact .inl rfl

theorem guardSecurityDelete_lands (hfall : ValidFallbacks env) {keys : List SettingRowKey}
    {meant : SettingRowKey → Bool}
    (hkeys : ∀ key, (env.definition key).isSome = true → meant key = true → key ∈ keys) :
    guardSecurityDelete env rows keys meant = rows ∨
      Lands env rows (guardSecurityDelete env rows keys meant)
        (reverted env.toSurroundings rows meant) := by
  unfold guardSecurityDelete
  split
  next hg =>
    refine .inr ⟨effective_delete meant, fun key => ?_, ?_⟩
    · cases hm : meant key with
      | true => exact .inr (.inl (by simp [hm]))
      | false => exact .inl (by simp [hm])
    · intro key kind value hkind hr
      unfold reverted at hr
      split at hr
      next hm =>
        obtain rfl := Option.some.inj hr
        rw [Bool.and_eq_true] at hm
        refine ⟨hfall key kind hkind, fun hdef => ?_⟩
        exact not_weakens rfl hg hkind (mem_map.2 ⟨key, hkeys key hdef hm.1, rfl⟩)
      · cases hr
  · exact .inl rfl

theorem governedStep_lands (hfall : ValidFallbacks env)
    (hg : call.governance.any (·.isSatisfied env.texts) = false) :
    governedStep env rows call = rows ∨
      Lands env rows (governedStep env rows call) (lands env rows call) := by
  cases call with
  | set key value governance => exact write_lands hg
  | setMany items governance =>
    simp only [governedStep]
    split
    · exact .inl rfl
    · exact write_lands hg
  | delete key =>
    simp only [governedStep]
    split
    · refine guardSecurityDelete_lands hfall fun k _ hk => ?_
      rw [of_decide_eq_true hk]
      exact mem_singleton_self key
    · exact .inl rfl
  | deleteNamespace namespaceName =>
    refine guardSecurityDelete_lands hfall fun k hdef hk => ?_
    exact mem_filter.2 ⟨env.registered k hdef, hk⟩

/-- STEP LEMMA: the overrides stay readable. -/
theorem Valid.step (h : Valid env rows) (hfall : ValidFallbacks env)
    (hg : call.governance.any (·.isSatisfied env.texts) = false) :
    Valid env (governedStep env rows call) := by
  have hcall := @governedStep_lands J _ env rows call hfall hg
  rcases hcall with hsame | hl
  · rwa [hsame]
  · obtain ⟨-, hrows, hland⟩ := hl
    intro key kind value hkind hrow
    rcases hrows key with hkept | hgone | hnew
    · exact h key kind value hkind (hkept ▸ hrow)
    · simp [hgone] at hrow
    · exact (hland key kind value hkind (hnew ▸ hrow)).1

/-- The values in force of the registered guarded settings are not weaker in `after`. -/
def Holds (env : Governed J) (before after : Values) : Prop :=
  ∀ key, isGuarded key = true → (env.definition key).isSome = true →
    ∃ kind, kindOf key = some kind ∧ NoWeaker env.texts
      (effective env.toSurroundings before key) (effective env.toSurroundings after key) kind

/-- STEP LEMMA: a call without governance weakens nothing where guard and consumers read alike. -/
theorem Valid.holds (h : Valid env rows) (hfall : ValidFallbacks env)
    (hg : call.governance.any (·.isSatisfied env.texts) = false)
    (hc : Careful env rows call) : Holds env rows (governedStep env rows call) := by
  intro key hguarded hdef
  obtain ⟨kind, hkind⟩ := isGuarded_kind hguarded
  refine ⟨kind, hkind, ?_⟩
  have hcall := @governedStep_lands J _ env rows call hfall hg
  rcases hcall with hsame | hl
  · rw [hsame]
    exact NoWeaker.refl _ _ _
  · obtain ⟨he, -, hland⟩ := hl
    rw [he key]
    cases hval : lands env rows call key with
    | none => exact NoWeaker.refl _ _ _
    | some value =>
      obtain ⟨hr, hj⟩ := hland key kind value hkind hval
      exact noWeaker_of_judged (h.effective hfall hkind) hr
        (hc key kind value hkind hval) (hj hdef)

omit [DecidableEq J] in
theorem Holds.trans {a b c : Values} (hab : Holds env a b) (hbc : Holds env b c) :
    Holds env a c := by
  intro key hg hdef
  obtain ⟨kind, hkind, hf⟩ := hab key hg hdef
  obtain ⟨kind', hkind', hsec⟩ := hbc key hg hdef
  obtain rfl : kind = kind' := Option.some.inj (hkind.symm.trans hkind')
  exact ⟨kind, hkind, hf.trans hsec⟩

/-- RUN LEMMA: without governance no later state of a run has a guarded setting weaker, as long
as the guard reads what it is shown as the consumers do. -/
theorem never_weakened {rows : Values} {calls : List GovernedCall} (hrows : Valid env rows)
    (hfallback : ValidFallbacks env)
    (hungoverned : ∀ call ∈ calls, call.governance.any (·.isSatisfied env.texts) = false)
    (hcareful : Run.Throughout (governedStep env) (Careful env) rows calls) :
    (Run.states (governedStep env) rows calls).Pairwise (Holds env) := by
  have hchain := Run.chain (R := Holds env) (P := Valid env)
    (G := fun rows calls =>
      (∀ call ∈ calls, call.governance.any (·.isSatisfied env.texts) = false) ∧
        Run.Throughout (governedStep env) (Careful env) rows calls)
    (fun s call rest h => ⟨fun c hc => h.1 c (mem_cons_of_mem _ hc), h.2.2⟩)
    (fun s call rest h hs => hs.step hfallback (h.1 call (by simp)))
    (fun s call rest h hs => hs.holds hfallback (h.1 call (by simp)) h.2.1)
    ⟨hungoverned, hcareful⟩ hrows
  have : IsTrans Values (Holds env) := ⟨fun _ _ _ => Holds.trans⟩
  exact isChain_iff_pairwise.1 hchain

omit [DecidableEq J] in
theorem careful_set {rows : Values} (hkind : kindOf key = some kind)
    (h : Agrees env.texts (effective env.toSurroundings rows key) value kind) :
    Careful env rows (.set key value governance) := by
  intro key' kind' value' hkind' hl
  have hitem : (key', value') = (key, value) := mem_singleton.1 (mem_of_written hl)
  obtain ⟨rfl, rfl⟩ := Prod.mk.inj hitem
  obtain rfl : kind = kind' := Option.some.inj (hkind.symm.trans hkind')
  exact h

end Runs

-- ==== the office

def lowerCase (value : String) : String := String.ofList (value.toList.map Char.toLower)

/-- Texts without blanks around them, in ASCII; the JSON is the empty list. -/
def plainTexts : Texts Unit where
  strip := id
  lower := lowerCase
  casefold := lowerCase
  int := fun value => [("32", 32), ("10000", 10000), ("20", 20), ("6000", 6000), ("10", 10),
    ("0", 0)].lookup value
  floatIsZero := fun value => value ∈ ["0", "0.0"]
  loads := fun value => if value = "[]" then some () else none
  list? := fun _ => some []
  dict? := fun _ => none
  text? := fun _ => none
  repr := fun _ => "[]"
  spelled := fun _ _ => ⟨rfl, rfl⟩
  spellings := by decide
  words := by decide
  empty := rfl
  blank := by
    rintro v rfl
    rfl

def plainDefault : Kind → String
  | .protection _ => "true"
  | .capability _ => "false"
  | .minStakes => "high"
  | .capabilityFloor => "basic"
  | .tokenBytes => "32"
  | .cap default _ => default
  | .window => "minute"
  | .retention => "0"
  | .network => "bridge"
  | .cpus => "1.0"
  | .exemptions | .directives => "[]"
  | .targets | .routes => ""
  | .pack => "default"
  | .scanPolicy => "redact"
  | .selfConsumer => "disabled"

/-- A deployment without environment variables. -/
def plainOffice : Governed Unit where
  definition := fun key => if (kindOf key).isSome then some ⟨false, false⟩ else none
  fallback := fun key => ((kindOf key).map plainDefault).getD ""
  encrypt := some
  decrypt := some
  texts := plainTexts
  registry := guardedSettings.map Prod.fst
  registered := by
    intro key hdef
    obtain ⟨kind, hkind⟩ : ∃ kind, kindOf key = some kind := by
      rw [← Option.isSome_iff_exists]
      split at hdef
      · assumption
      · cases hdef
    exact mem_map_of_mem (mem_of_kindOf hkind)
  cpusPattern := fun value => value = "1.0"
  askPolicyConfig := fun directives => directives = []
  validateOther := fun _ _ => true

theorem plainOffice_fallbacks : ValidFallbacks plainOffice := by
  intro key kind hkind
  have hall : ∀ entry ∈ guardedSettings,
      entry.2 = .routes ∨ entry.2.validate plainOffice (plainDefault entry.2) = true := by decide
  have hfall : plainOffice.fallback key = plainDefault kind := by
    show ((kindOf key).map plainDefault).getD "" = _
    rw [hkind, Option.map_some, Option.getD_some]
  rw [hfall]
  exact hall _ (mem_of_kindOf hkind)

def oracleKey : SettingRowKey := ("engine", "completion_oracle_enabled")

def gatewayKey : SettingRowKey := ("providers", "gateway_enabled")

def storedAs (key : SettingRowKey) (value : String) : Values :=
  fun k => if k = key then some value else none

theorem storedAs_valid {value : String}
    (h : ∀ kind, kindOf key = some kind → Readable plainOffice value kind) :
    Valid plainOffice (storedAs key value) := by
  intro k kind v hkind hrow
  unfold storedAs at hrow
  split at hrow
  next heq =>
    subst heq
    obtain rfl := Option.some.inj hrow
    exact h kind hkind
  · cases hrow

/-- The oracle, stored as `1`, is spelled out, and then not turned off. -/
theorem never_weakened_oracle : (Run.states (governedStep plainOffice) (storedAs oracleKey "1")
      [.set oracleKey "true" none, .set oracleKey "FALSE" none]).Pairwise (Holds plainOffice) := by
  refine never_weakened (storedAs_valid ?_) plainOffice_fallbacks (by decide)
    ⟨careful_set rfl (fun _ => rfl), careful_set rfl (fun h => ?_), trivial⟩
  · intro kind hkind
    obtain rfl := Option.some.inj hkind
    exact Or.inr (by decide)
  · exact absurd h (by decide)

/-- Without governance the oracle, stored as `1`, is turned off, and the gateway is turned on. -/
theorem weakened_spelledOne : ValidFallbacks plainOffice ∧
    (Valid plainOffice (storedAs oracleKey "1") ∧
      ¬ (Run.states (governedStep plainOffice) (storedAs oracleKey "1")
        [.set oracleKey "false" none]).Pairwise (Holds plainOffice)) ∧
    (Valid plainOffice (fun _ => none) ∧
      ¬ (Run.states (governedStep plainOffice) (fun _ => none)
        [.set gatewayKey "1" none]).Pairwise (Holds plainOffice)) := by
  refine ⟨plainOffice_fallbacks, ⟨storedAs_valid ?_, ?_⟩, nofun, ?_⟩
  · intro kind hkind
    obtain rfl := Option.some.inj hkind
    exact Or.inr (by decide)
  · intro hpairs
    have hholds := rel_of_pairwise_cons hpairs (mem_singleton_self _)
    obtain ⟨kind, hkind, hstays⟩ := hholds oracleKey (by decide) (by decide)
    obtain rfl := Option.some.inj hkind
    exact absurd (hstays (by decide)) (by decide)
  · intro hpairs
    have hholds := rel_of_pairwise_cons hpairs (mem_singleton_self _)
    obtain ⟨kind, hkind, hstays⟩ := hholds gatewayKey (by decide) (by decide)
    obtain rfl := Option.some.inj hkind
    exact absurd (hstays (by decide)) (by decide)

end Synthorg.Settings
