/-
The guardrail for settings writes that weaken the running posture: which keys it
covers and in which direction (`write_governance_policy`), the check a write or a
delete passes (`write_governance`), the validators of the covered keys, and how
their consumers read them.

A call is one step: nothing else runs beside it, and the reads of the guard succeed.
-/
import Synthorg.Settings.CrossField

namespace Synthorg.Settings

-- ==== the texts

def stakesOrder : List String := ["low", "normal", "high", "critical"]

def rateLimitWindowSeconds : List (String × Nat) :=
  [("second", 1), ("minute", 60), ("hour", 3600), ("day", 86400)]

def mcpSandboxNetworkIsolation : List (String × Nat) := [("none", 2), ("bridge", 1), ("host", 0)]

def outputScanPolicies : List String := ["redact", "withhold", "log_only", "autonomy_tiered"]

def mcpSelfConsumerModes : List String := ["disabled", "trust_scoped"]

/-- The boolean spellings `_validate_boolean` accepts, in lower case. -/
def booleanSpellings : List String := ["true", "false", "1", "0"]

/-- Python's text functions, and `json.loads` with its value as a list, a dict, a text and `str`. -/
structure Texts (J : Type) where
  strip : String → String
  lower : String → String
  casefold : String → String
  int : String → Option Int
  /-- `float(value) == 0`, and not where it does not parse. -/
  floatIsZero : String → Bool
  loads : String → Option J
  list? : J → Option (List J)
  dict? : J → Option (List (String × J))
  text? : J → Option String
  /-- `str` of a value that is no text. -/
  repr : J → String
  spelled : ∀ v, lower v ∈ booleanSpellings → strip v = v ∧ casefold v = lower v
  spellings : ∀ v ∈ booleanSpellings, lower v = v
  words : ∀ v ∈ rateLimitWindowSeconds.map Prod.fst ++ mcpSandboxNetworkIsolation.map Prod.fst ++
    outputScanPolicies ++ mcpSelfConsumerModes, casefold (strip v) = v
  empty : strip "" = ""
  blank : ∀ v, strip v = "" → loads v = none

/-- At a character. -/
def split (value : String) (separator : Char) : List String :=
  (value.toList.splitOn separator).map String.ofList

variable {J : Type} [DecidableEq J] (texts : Texts J)

def normalizeIdentifier (value : String) : String := texts.casefold (texts.strip value)

def compareCi (a b : String) : Bool := normalizeIdentifier texts a = normalizeIdentifier texts b

-- ==== the policy

/-- A toggle that is on, or unset with the default `"true"`, goes off. -/
def turnsOff (current : Option String) (new : String) : Bool :=
  current.all (compareCi texts · "true") && !compareCi texts new "true"

/-- A toggle that is off, or unset with the default `"false"`, goes on. -/
def turnsOn (current : Option String) (new : String) : Bool :=
  current.all (fun value => !compareCi texts value "true") && compareCi texts new "true"

def capabilityPatterns (raw : Option String) : List String :=
  match raw with
  | none => []
  | some raw => if raw = "" then [] else ((split raw ',').map texts.strip).filter (· ≠ "")

def isCapabilityWidening (current : Option String) (new : String) : Bool :=
  (capabilityPatterns texts (some new)).any (· ∉ capabilityPatterns texts current)

def networkIsolationRank (value : String) : Option Nat :=
  mcpSandboxNetworkIsolation.lookup (normalizeIdentifier texts value)

def relaxesNetwork (current : Option String) (new : String) : Bool :=
  match networkIsolationRank texts new, networkIsolationRank texts (current.getD "bridge") with
  | some newRank, some currentRank => newRank < currentRank
  | _, _ => false

def liftsQuota (current : Option String) (new : String) : Bool :=
  texts.floatIsZero new && !current.any texts.floatIsZero

def isToolsWeakening (key : String) (current : Option String) (new : String) : Bool :=
  if key ∈ ["deploy_tools_enabled", "publish_tools_enabled"] then turnsOn texts current new
  else if key ∈ ["deploy_tools_targets", "publish_tools_targets"] then
    isCapabilityWidening texts current new
  else if key = "mcp_sandbox_enabled" then turnsOff texts current new
  else if key = "mcp_sandbox_network" then relaxesNetwork texts current new
  else if key = "mcp_sandbox_cpus" then liftsQuota texts current new
  else false

/-- `str(entry.get(name, ""))`. -/
def fieldText (entry : List (String × J)) (name : String) : String :=
  match entry.lookup name with
  | none => ""
  | some value => (texts.text? value).getD (texts.repr value)

def exemptionKeys (raw : Option String) : List (String × String × String) :=
  match raw with
  | none => []
  | some raw =>
    if raw = "" then []
    else
      match (texts.loads raw).bind texts.list? with
      | none => []
      | some entries =>
        (entries.filterMap texts.dict?).map fun entry =>
          (fieldText texts entry "rule_id", fieldText texts entry "scope_kind",
            fieldText texts entry "match")

def broadensExemptions (current : Option String) (new : String) : Bool :=
  (exemptionKeys texts (some new)).any (· ∉ exemptionKeys texts current)

def swapsPack (current : Option String) (new : String) : Bool :=
  !compareCi texts (current.getD "default") new

def isOutputStyleWeakening (key : String) (current : Option String) (new : String) : Bool :=
  if key = "enabled" then turnsOff texts current new
  else if key = "shadow_mode" then turnsOn texts current new
  else if key = "exemptions" then broadensExemptions texts current new
  else if key = "pack" then swapsPack texts current new
  else false

def shortensWindow (current : Option String) (new : String) : Bool :=
  match rateLimitWindowSeconds.lookup (normalizeIdentifier texts (current.getD "minute")),
    rateLimitWindowSeconds.lookup (normalizeIdentifier texts new) with
  | some currentWindow, some newWindow => newWindow < currentWindow
  | _, _ => false

/-- `_as_int` of both, compared. -/
def intMoves (moves : Int → Int → Bool) (default : String) (current : Option String)
    (new : String) : Bool :=
  match texts.int (current.getD default), texts.int new with
  | some currentInt, some newInt => moves currentInt newInt
  | _, _ => false

def rateLimitCapDefaults : List (String × String) :=
  [("rate_limit_floor_max_requests", "10000"), ("rate_limit_unauth_max_requests", "20"),
    ("rate_limit_auth_max_requests", "6000"), ("rate_limit_auth_endpoint_max_requests", "10")]

def isApiWeakening (key : String) (current : Option String) (new : String) : Bool :=
  if key = "rate_limiter_enabled" then turnsOff texts current new
  else if key = "rate_limit_time_unit" then shortensWindow texts current new
  else
    match rateLimitCapDefaults.lookup key with
    | some default => intMoves texts (fun current new => current < new) default current new
    | none => false

def isSelfImprovementWeakening (key : String) (current : Option String) (new : String) : Bool :=
  if key ≠ "code_modification_enabled" then false else turnsOn texts current new

/-- `_entries` of `_has_new_directive`. -/
def directiveEntries (raw : Option String) : Option (List J) :=
  match raw with
  | none => some []
  | some raw =>
    if texts.strip raw = "" then some [] else (texts.loads raw).bind texts.list?

def hasNewDirective (current : Option String) (new : String) : Bool :=
  match directiveEntries texts current, directiveEntries texts (some new) with
  | some before, some after => after.any (· ∉ before)
  | _, _ => false

def raisesStakes (current : Option String) (new : String) : Bool :=
  match stakesOrder.idxOf? new with
  | none => false
  | some newStakes => (current.bind stakesOrder.idxOf?).getD 0 < newStakes

def lowersCapability (current : Option String) (new : String) : Bool :=
  match capabilityLadder.idxOf? new with
  | none => false
  | some newRank =>
    newRank < (current.bind capabilityLadder.idxOf?).getD (capabilityLadder.length - 1)

def engineAskKeys : List String :=
  ["ask_policy_enabled", "clarification_enabled", "scoping_enabled"]

def engineMinStakesKeys : List String :=
  ["completion_oracle_min_stakes", "red_team_min_stakes", "capability_park_min_stakes"]

def engineCapabilityFloorKeys : List String :=
  ["capability_floor_low", "capability_floor_normal", "capability_floor_high",
    "capability_floor_critical"]

def isEngineWeakening (key : String) (current : Option String) (new : String) : Bool :=
  if key = "ask_policy_extra_directives" then hasNewDirective texts current new
  else if key ∈ engineAskKeys then turnsOff texts current new
  else if key = "enable_agent_middleware" then turnsOff texts current new
  else if key = "completion_oracle_enabled" then turnsOff texts current new
  else if key = "completion_oracle_shadow_mode" then turnsOn texts current new
  else if key ∈ engineMinStakesKeys then raisesStakes current new
  else if key ∈ engineCapabilityFloorKeys then lowersCapability current new
  else false

/-- The retention window is shortened; `0` days are never swept. -/
def shortensRetention (current new : Int) : Bool :=
  if new = 0 then false else current = 0 || new < current

def isIntegrationsWeakening (key : String) (current : Option String) (new : String) : Bool :=
  if key ≠ "webhook_receipt_retention_days" then false
  else intMoves texts shortensRetention "0" current new

/-- A `declared -> alternate` key as the pair. -/
def declaredRouteKeys (raw : Option String) : List (String × J) :=
  match raw with
  | none => []
  | some raw =>
    if texts.strip raw = "" then [] else ((texts.loads raw).bind texts.dict?).getD []

def declaresRoute (current : Option String) (new : String) : Bool :=
  (declaredRouteKeys texts (some new)).any (· ∉ declaredRouteKeys texts current)

def isProvidersWeakening (key : String) (current : Option String) (new : String) : Bool :=
  if key = "gateway_enabled" then turnsOn texts current new
  else if key = "failover_enabled" then turnsOn texts current new
  else if key = "failover_routes" then declaresRoute texts current new
  else false

def weakeningBoolKeys : List String :=
  ["enabled", "audit_enabled", "post_tool_scanning_enabled", "tls_verify"]

def permitsScan (current : Option String) (new : String) : Bool :=
  compareCi texts new "log_only" && !current.any (compareCi texts · "log_only")

def opensBridge (current : Option String) (new : String) : Bool :=
  current.all (compareCi texts · "disabled") && !compareCi texts new "disabled"

def isSecurityWeakening (key : String) (current : Option String) (new : String) : Bool :=
  if key = "auth_token_bytes" then
    intMoves texts (fun current new => new < current) "32" current new
  else if key ∈ weakeningBoolKeys then turnsOff texts current new
  else if key = "output_scan_policy_type" then permitsScan texts current new
  else if key = "mcp_self_consumer_mode" then opensBridge texts current new
  else false

def isGuarded (key : SettingRowKey) : Bool :=
  if key.1 = "security" then
    key.2 ∈ weakeningBoolKeys ||
      key.2 ∈ ["output_scan_policy_type", "auth_token_bytes", "mcp_self_consumer_mode"]
  else if key.1 = "engine" then
    key.2 ∈ ["completion_oracle_enabled", "completion_oracle_shadow_mode",
      "enable_agent_middleware", "ask_policy_extra_directives"] ++ engineAskKeys ++
      engineMinStakesKeys ++ engineCapabilityFloorKeys
  else if key.1 = "tools" then
    key.2 ∈ ["mcp_sandbox_enabled", "mcp_sandbox_network", "mcp_sandbox_cpus",
      "deploy_tools_enabled", "deploy_tools_targets", "publish_tools_enabled",
      "publish_tools_targets"]
  else if key.1 = "output_style" then
    key.2 ∈ ["enabled", "shadow_mode", "exemptions", "pack"]
  else if key.1 = "providers" then
    key.2 ∈ ["gateway_enabled", "failover_enabled", "failover_routes"]
  else if key.1 = "integrations" then key.2 = "webhook_receipt_retention_days"
  else if key.1 = "api" then
    key.2 ∈ ["rate_limiter_enabled", "rate_limit_time_unit"] ++ rateLimitCapDefaults.map Prod.fst
  else if key.1 = "self_improvement" then key.2 = "code_modification_enabled"
  else false

def isWeakening (key : SettingRowKey) (current : Option String) (new : String) : Bool :=
  if key.1 = "providers" then isProvidersWeakening texts key.2 current new
  else if key.1 = "integrations" then isIntegrationsWeakening texts key.2 current new
  else if key.1 = "engine" then isEngineWeakening texts key.2 current new
  else if key.1 = "tools" then isToolsWeakening texts key.2 current new
  else if key.1 = "output_style" then isOutputStyleWeakening texts key.2 current new
  else if key.1 = "api" then isApiWeakening texts key.2 current new
  else if key.1 = "self_improvement" then isSelfImprovementWeakening texts key.2 current new
  else isSecurityWeakening texts key.2 current new

-- ==== the guard

structure SettingsWriteGovernance where
  confirm : Bool
  reason : String
  actor : String

def SettingsWriteGovernance.isSatisfied (governance : SettingsWriteGovernance) : Bool :=
  governance.confirm && texts.strip governance.reason ≠ "" && texts.strip governance.actor ≠ ""

def enforceSecurityWriteGovernance (items : Items) (governance : Option SettingsWriteGovernance)
    (getCurrent : Values) : Bool :=
  items.all fun item =>
    !isGuarded item.1 || !isWeakening texts item.1 (getCurrent item.1) item.2 ||
      governance.any (SettingsWriteGovernance.isSatisfied texts)

-- ==== the consumers

/-- `_parse_bool`, `_as_bool` of the output style and the ask policy, or the overlay's true
tokens. -/
inductive BoolReader
  | parseBool
  | asBool
  | trueTokens
  deriving DecidableEq

def BoolReader.read : BoolReader → String → Option Bool
  | .parseBool, value =>
    if texts.lower value ∈ ["true", "1"] then some true
    else if texts.lower value ∈ ["false", "0"] then some false
    else none
  | .asBool, value => some (normalizeIdentifier texts value = "true")
  | .trueTokens, value =>
    some (texts.lower (texts.strip value) ∈ ["true", "1", "yes", "on"])

def parseTargets (raw : String) : List String :=
  ((split raw ',').map texts.strip).filter (· ≠ "")

def exemptionScopeKinds : List String :=
  ["path", "task_type", "project", "department", "role", "deliverable_tag"]

def notBlankField (entry : List (String × J)) (name : String) : Option String :=
  ((entry.lookup name).bind texts.text?).filter fun value => texts.strip value ≠ ""

/-- `SanctionedExemption.model_validate`: the rule, the scope and the match. -/
def sanctionedExemption (value : J) : Option (String × String × String) :=
  match texts.dict? value with
  | none => none
  | some entry =>
    if entry.all fun field => field.1 ∈ ["rule_id", "scope_kind", "match", "reason"] then
      match notBlankField texts entry "rule_id",
        (notBlankField texts entry "scope_kind").filter (· ∈ exemptionScopeKinds),
        notBlankField texts entry "match", notBlankField texts entry "reason" with
      | some rule, some kind, some pattern, some _ => some (rule, kind, pattern)
      | _, _, _, _ => none
    else none

def parseExemptions (raw : String) : List (String × String × String) :=
  if raw = "" then []
  else (((texts.loads raw).bind texts.list?).getD []).filterMap (sanctionedExemption texts)

/-- Up to the validation of the entries. -/
def parseExtraDirectives (raw : String) : List J :=
  if raw = "" then [] else ((texts.loads raw).bind texts.list?).getD []

structure ModelRef where
  provider : String
  modelId : String

def ModelRef.isBound (ref : ModelRef) : Bool :=
  texts.strip ref.provider ≠ "" && texts.strip ref.modelId ≠ ""

def parseModelRef (value : String) : ModelRef :=
  if texts.strip value = "" then ⟨"", ""⟩
  else if (texts.strip value).startsWith "\x7b" then
    match (texts.loads (texts.strip value)).bind texts.dict? with
    | some data =>
      ⟨(((data.lookup "provider").bind texts.text?).map texts.strip).getD "",
        ((data.lookup "model_id").bind texts.text?).getD ""⟩
    | none => ⟨"", value⟩
  else ⟨"", value⟩

def asRef (value : J) : Option ModelRef :=
  match texts.text? value with
  | some text => some (parseModelRef texts text)
  | none =>
    match texts.dict? value with
    | none => none
    | some entry =>
      match (entry.lookup "provider").bind texts.text?,
        (entry.lookup "model_id").bind texts.text? with
      | some provider, some modelId => some ⟨provider, modelId⟩
      | _, _ => none

def routeKey (ref : ModelRef) : String :=
  texts.strip ref.provider ++ "/" ++ texts.strip ref.modelId

def parseRouteKey (key : String) : ModelRef :=
  match split (texts.strip key) '/' with
  | provider :: first :: rest =>
    ⟨texts.strip provider, texts.strip ("/".intercalate (first :: rest))⟩
  | _ => ⟨"", ""⟩

def declaredRoute (entry : String × J) : Option (String × ModelRef) :=
  match (asRef texts entry.2).filter (ModelRef.isBound texts) with
  | none => none
  | some alternate =>
    if (parseRouteKey texts entry.1).isBound texts then
      some (routeKey texts (parseRouteKey texts entry.1), alternate)
    else none

def parseFailoverRoutes (raw : String) : List (String × ModelRef) :=
  (declaredRouteKeys texts (some raw)).filterMap (declaredRoute texts)

/-- Of two entries for a pair the later counts. -/
def alternateFor (raw : String) (declared : ModelRef) : Option ModelRef :=
  if declared.isBound texts then
    ((parseFailoverRoutes texts raw).reverse.lookup (routeKey texts declared)).filter
      fun alternate => routeKey texts alternate ≠ routeKey texts declared
  else none

def packName (raw : String) : String :=
  let pack := if texts.strip raw = "" then "default" else texts.strip raw
  texts.lower (texts.strip pack)

-- ==== the settings

/-- What a guarded setting is. -/
inductive Kind
  | protection (reader : BoolReader)
  | capability (reader : BoolReader)
  | minStakes
  | capabilityFloor
  | tokenBytes
  | cap (default : String) (maxValue : Int)
  | window
  | retention
  | network
  | cpus
  | targets
  | exemptions
  | directives
  | routes
  | pack
  | scanPolicy
  | selfConsumer
  deriving DecidableEq

def guardedSettings : List (SettingRowKey × Kind) :=
  [(("security", "enabled"), .protection .parseBool),
    (("security", "audit_enabled"), .protection .parseBool),
    (("security", "post_tool_scanning_enabled"), .protection .parseBool),
    (("security", "tls_verify"), .protection .parseBool),
    (("security", "output_scan_policy_type"), .scanPolicy),
    (("security", "auth_token_bytes"), .tokenBytes),
    (("security", "mcp_self_consumer_mode"), .selfConsumer),
    (("engine", "completion_oracle_enabled"), .protection .parseBool),
    (("engine", "completion_oracle_shadow_mode"), .capability .parseBool),
    (("engine", "enable_agent_middleware"), .protection .parseBool),
    (("engine", "ask_policy_extra_directives"), .directives),
    (("engine", "ask_policy_enabled"), .protection .asBool),
    (("engine", "clarification_enabled"), .protection .parseBool),
    (("engine", "scoping_enabled"), .protection .parseBool),
    (("engine", "completion_oracle_min_stakes"), .minStakes),
    (("engine", "red_team_min_stakes"), .minStakes),
    (("engine", "capability_park_min_stakes"), .minStakes),
    (("engine", "capability_floor_low"), .capabilityFloor),
    (("engine", "capability_floor_normal"), .capabilityFloor),
    (("engine", "capability_floor_high"), .capabilityFloor),
    (("engine", "capability_floor_critical"), .capabilityFloor),
    (("tools", "mcp_sandbox_enabled"), .protection .parseBool),
    (("tools", "mcp_sandbox_network"), .network),
    (("tools", "mcp_sandbox_cpus"), .cpus),
    (("tools", "deploy_tools_enabled"), .capability .parseBool),
    (("tools", "deploy_tools_targets"), .targets),
    (("tools", "publish_tools_enabled"), .capability .parseBool),
    (("tools", "publish_tools_targets"), .targets),
    (("output_style", "enabled"), .protection .asBool),
    (("output_style", "shadow_mode"), .capability .asBool),
    (("output_style", "exemptions"), .exemptions),
    (("output_style", "pack"), .pack),
    (("providers", "gateway_enabled"), .capability .parseBool),
    (("providers", "failover_enabled"), .capability .parseBool),
    (("providers", "failover_routes"), .routes),
    (("integrations", "webhook_receipt_retention_days"), .retention),
    (("api", "rate_limiter_enabled"), .protection .parseBool),
    (("api", "rate_limit_time_unit"), .window),
    (("api", "rate_limit_floor_max_requests"), .cap "10000" 1000000),
    (("api", "rate_limit_unauth_max_requests"), .cap "20" 10000),
    (("api", "rate_limit_auth_max_requests"), .cap "6000" 100000),
    (("api", "rate_limit_auth_endpoint_max_requests"), .cap "10" 1000),
    (("self_improvement", "code_modification_enabled"), .capability .trueTokens)]

def kindOf (key : SettingRowKey) : Option Kind := guardedSettings.lookup key

structure Governed (J : Type) extends Surroundings where
  texts : Texts J
  registry : List SettingRowKey
  registered : ∀ key, (definition key).isSome → key ∈ registry
  /-- `validator_pattern` of the cpu quota, and the model of the directives. -/
  cpusPattern : String → Bool
  askPolicyConfig : List J → Bool
  validateOther : SettingRowKey → String → Bool

section Calls

variable (env : Governed J)

def validateInteger (minValue maxValue : Int) (value : String) : Bool :=
  (env.texts.int value).any fun n => minValue ≤ n && n ≤ maxValue

def Kind.validate (value : String) : Kind → Bool
  | .protection _ | .capability _ => env.texts.lower value ∈ booleanSpellings
  | .minStakes => value ∈ stakesOrder
  | .capabilityFloor => value ∈ capabilityLadder
  | .tokenBytes => validateInteger env 16 64 value
  | .cap _ maxValue => validateInteger env 1 maxValue value
  | .window => value ∈ rateLimitWindowSeconds.map Prod.fst
  | .retention => validateInteger env 0 36500 value
  | .network => value ∈ mcpSandboxNetworkIsolation.map Prod.fst
  | .cpus => env.cpusPattern value
  | .targets | .pack => true
  | .exemptions =>
    ((env.texts.loads value).bind env.texts.list?).any fun entries =>
      entries.all fun entry => (sanctionedExemption env.texts entry).isSome
  | .directives =>
    ((env.texts.loads value).bind env.texts.list?).any env.askPolicyConfig
  | .routes => (env.texts.loads value).isSome
  | .scanPolicy => value ∈ outputScanPolicies
  | .selfConsumer => value ∈ mcpSelfConsumerModes

def validateValue (key : SettingRowKey) (value : String) : Bool :=
  match kindOf key with
  | some kind => kind.validate env value
  | none => env.validateOther key value

inductive GovernedCall
  | set (key : SettingRowKey) (value : String) (governance : Option SettingsWriteGovernance)
  | setMany (items : Items) (governance : Option SettingsWriteGovernance)
  | delete (key : SettingRowKey)
  | deleteNamespace (namespaceName : String)

def GovernedCall.governance : GovernedCall → Option SettingsWriteGovernance
  | .set _ _ governance | .setMany _ governance => governance
  | .delete _ | .deleteNamespace _ => none

def write (rows : Values) (items : Items) (governance : Option SettingsWriteGovernance) : Values :=
  if (items.all fun item => (env.definition item.1).isSome && validateValue env item.1 item.2) &&
      enforceSecurityWriteGovernance env.texts items governance
        (fun key => some (effective env.toSurroundings rows key)) &&
      prepared env.toSurroundings items then
    fun key => (written items key).orElse fun _ => rows key
  else rows

def guardSecurityDelete (rows : Values) (keys : List SettingRowKey)
    (meant : SettingRowKey → Bool) : Values :=
  if enforceSecurityWriteGovernance env.texts (keys.map fun key => (key, env.fallback key)) none
      (fun key => some (effective env.toSurroundings rows key)) then
    fun key => if meant key then none else rows key
  else rows

def governedStep (rows : Values) : GovernedCall → Values
  | .set key value governance => write env rows [(key, value)] governance
  | .setMany items governance => if items = [] then rows else write env rows items governance
  | .delete key =>
    if (env.definition key).any fun definition => !definition.composeSet then
      guardSecurityDelete env rows [key] fun k => k = key
    else rows
  | .deleteNamespace namespaceName =>
    guardSecurityDelete env rows (env.registry.filter fun key => key.1 = namespaceName)
      fun key => key.1 = namespaceName

end Calls

end Synthorg.Settings
