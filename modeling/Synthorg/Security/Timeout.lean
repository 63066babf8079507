/-
Approval timeouts (security/timeout/policies.py, config.py, timeout_checker.py).

The configurations carry what their validators checked, keys as the risk levels they name.
The tiered policy alone refuses to approve a high risk, and judges by the tier an explicit
list puts the action type in; an exhausted chain applies its action to any risk. Where
neither happens no timeout approves what the classifier rates HIGH or above.
-/
import Mathlib.Algebra.Order.BigOperators.Group.List
import Mathlib.Data.Rat.Floor
import Synthorg.Approvals.Store

namespace Synthorg.Security.Timeout

open Synthorg.Approvals List

-- ==== configurations

inductive TimeoutActionType where
  | wait
  | approve
  | deny
  | escalate
  deriving DecidableEq

structure TierConfig where
  timeoutMinutes : ℚ
  onTimeout : TimeoutActionType
  actions : List String
  positive : 0 < timeoutMinutes
  noEscalate : onTimeout ≠ .escalate

structure EscalationStep where
  role : String
  timeoutMinutes : ℚ
  positive : 0 < timeoutMinutes

inductive TimeoutConfig where
  | waitForever
  | denyOnTimeout (timeoutMinutes : ℚ) (positive : 0 < timeoutMinutes)
  | tiered (tiers : List (ApprovalRiskLevel × TierConfig)) (keyed : (tiers.map (·.1)).Nodup)
  | escalation (chain : List EscalationStep) (onChainExhausted : TimeoutActionType)
    (nonempty : chain ≠ []) (noEscalate : onChainExhausted ≠ .escalate)

-- ==== policies

structure TimeoutAction where
  action : TimeoutActionType
  escalateTo : Option String

def TimeoutActionType.plain (action : TimeoutActionType) : TimeoutAction := ⟨action, none⟩

def tierOf (tiers : List (ApprovalRiskLevel × TierConfig)) (rated : ApprovalRiskLevel)
    (actionType : String) : ApprovalRiskLevel × Option TierConfig :=
  match tiers.find? (actionType ∈ ·.2.actions) with
  | some (key, cfg) => (key, some cfg)
  | none => (rated, tiers.lookup rated)

def tieredAction (tiers : List (ApprovalRiskLevel × TierConfig)) (rated : ApprovalRiskLevel)
    (actionType : String) (elapsed : ℚ) : TimeoutActionType :=
  match tierOf tiers rated actionType with
  | (_, none) => .wait
  | (riskLevel, some cfg) =>
    if elapsed < cfg.timeoutMinutes * 60 then .wait
    else if cfg.onTimeout = .approve ∧ (riskLevel = .high ∨ riskLevel = .critical) then .deny
    else cfg.onTimeout

/-- The loop over the chain; `none` once every step is exhausted. -/
def chainAction (elapsed : ℚ) : Nat → ℚ → List EscalationStep → Option TimeoutAction
  | _, _, [] => none
  | idx, cumulative, step :: rest =>
    let stepEnd := cumulative + step.timeoutMinutes * 60
    if elapsed < stepEnd then
      some (if idx = 0 then TimeoutActionType.wait.plain else ⟨.escalate, some step.role⟩)
    else chainAction elapsed (idx + 1) stepEnd rest

/-- `determine_action` of the four policies; `none` is a classifier that raised. -/
def determineAction (classify : String → Option ApprovalRiskLevel) (actionType : String)
    (elapsed : ℚ) : TimeoutConfig → Option TimeoutAction
  | .waitForever => some TimeoutActionType.wait.plain
  | .denyOnTimeout minutes _ =>
    some (if elapsed < minutes * 60 then TimeoutActionType.wait else .deny).plain
  | .tiered tiers _ => do
    let rated ← classify actionType
    some (tieredAction tiers rated actionType elapsed).plain
  | .escalation chain onChainExhausted _ _ =>
    some ((chainAction elapsed 0 0 chain).getD onChainExhausted.plain)

variable {Body : Type} {elapsed : ℚ}

def elapsedSeconds (item : ApprovalItem Body) (now : Int) : ℚ := (now - item.createdAt) / 1000000

def check (config : TimeoutConfig) (classify : String → Option ApprovalRiskLevel)
    (item : ApprovalItem Body) (now : Int) : Option TimeoutAction :=
  if item.status ≠ .pending then none
  else
    some ((determineAction classify item.actionType (elapsedSeconds item now) config).getD
      TimeoutActionType.wait.plain)

def decisionStatus : TimeoutActionType → Option ApprovalStatus
  | .approve => some .approved
  | .deny => some .rejected
  | _ => none

/-- The update of `check_and_resolve`; without a decision the item stays as it is. -/
def resolved (item : ApprovalItem Body) (action : TimeoutAction) : ApprovalItem Body :=
  match decisionStatus action.action with
  | none => item
  | some status => { item with status }

def checkAndResolve (config : TimeoutConfig) (classify : String → Option ApprovalRiskLevel)
    (item : ApprovalItem Body) (now : Int) : Option (ApprovalItem Body × TimeoutAction) :=
  (check config classify item now).map fun action => (resolved item action, action)

-- ==== the chain

def stepsEnd (chain : List EscalationStep) (i : Nat) : ℚ :=
  ((chain.take i).map (·.timeoutMinutes * 60)).sum

def BelowHigh (rated : Option ApprovalRiskLevel) : Prop :=
  rated = some .low ∨ rated = some .medium

def StepAt (elapsed : ℚ) (role : String) : TimeoutConfig → Prop
  | .escalation chain _ _ _ => ∃ i step, chain[i]? = some step ∧ i ≠ 0 ∧ step.role = role ∧
      stepsEnd chain i ≤ elapsed ∧ elapsed < stepsEnd chain (i + 1)
  | _ => False

section
variable {config : TimeoutConfig} {classify : String → Option ApprovalRiskLevel}
  {actionType : String} {elapsed : ℚ}

end

/-- An item is approved only below HIGH, and escalated to the step it has come to. -/
def Sound (config : TimeoutConfig) (classify : String → Option ApprovalRiskLevel)
    (item : ApprovalItem Body) (now : Int) : Prop :=
  (∀ updated action, checkAndResolve config classify item now = some (updated, action) →
    updated.status = .approved → BelowHigh (classify item.actionType)) ∧
  ∀ role, (∃ updated, checkAndResolve config classify item now =
    some (updated, ⟨.escalate, some role⟩)) ↔ StepAt (elapsedSeconds item now) role config

end Synthorg.Security.Timeout
