/-
The ceiling on who may join the bus (communication/bus/memory.py,
quadratic_enforcement.py).

A call that brings in agents is checked against a projected count before it
changes anything. Admission and joining walk the same agents, so what one
counted is what the other adds (`length_join`); everything else the bus does
leaves the known agents as they are.
-/
import Synthorg.Communication.MemoryBus

namespace Synthorg.Communication

open Lib
open List

-- ==== the enforcer

inductive QuadraticEnforcementStrategy where
  | disabled
  | alertOnly
  | softThrottle
  | hardBlock
  deriving DecidableEq

def QuadraticEnforcementStrategy.admitAgent (strategy : QuadraticEnforcementStrategy)
    (maxAgentConnections currentAgentCount : Nat) : Bool :=
  if strategy ≠ .hardBlock then true else currentAgentCount < maxAgentConnections

/-- The agent that the error of `_reject_new_agents_if_blocked` names. -/
def rejected (admits : Nat → Bool) (known : List String) :
    List String → Nat → List String → Option String
  | [], _, _ => none
  | agent :: rest, projected, staged =>
    if agent ∈ known ∨ agent ∈ staged then rejected admits known rest projected staged
    else if admits projected then rejected admits known rest (projected + 1) (agent :: staged)
    else some agent

variable {admits : Nat → Bool} {known agents staged : List String} {projected : Nat}

theorem admitAll_iff_rejected : admitAll admits known agents projected staged = true ↔
      rejected admits known agents projected staged = none := by
  induction agents generalizing projected staged with
  | nil => simp [admitAll, rejected]
  | cons agent rest ih =>
    simp only [admitAll, rejected]
    split
    · exact ih
    · cases admits projected <;> simp [ih]

theorem rejected_unknown {agent : String}
    (h : rejected admits known agents projected staged = some agent) :
    agent ∈ agents ∧ agent ∉ known := by
  induction agents generalizing projected staged with
  | nil => cases h
  | cons first rest ih =>
    simp only [rejected] at h
    split at h
    · exact (ih h).imp_left (mem_cons_of_mem _)
    next hnew =>
      split at h
      · exact (ih h).imp_left (mem_cons_of_mem _)
      · cases h
        exact ⟨mem_cons_self, fun hk => hnew (.inl hk)⟩

/-- `_known_agents.add`, of one agent after the other. -/
def join (known agents : List String) : List String :=
  agents.foldl (fun known agent => if agent ∈ known then known else known ++ [agent]) known

/-- Whoever is admitted fits: `joined` is what is known when so many are staged. -/
theorem length_join {max : Nat} {joined : List String}
    (ha : admitAll (QuadraticEnforcementStrategy.hardBlock.admitAgent max) known agents
      projected staged = true) (hj : ∀ agent, agent ∈ joined ↔ agent ∈ known ∨ agent ∈ staged)
    (hlen : joined.length = projected) (hle : projected ≤ max) :
    (join joined agents).length ≤ max := by
  induction agents generalizing projected staged joined with
  | nil => exact hlen.trans_le hle
  | cons agent rest ih =>
    simp only [admitAll] at ha
    simp only [join, foldl_cons, hj]
    split at ha
    next hold =>
      rw [if_pos hold]
      exact ih ha hj hlen hle
    next hnew =>
      rw [if_neg hnew]
      simp only [Bool.and_eq_true, QuadraticEnforcementStrategy.admitAgent, ne_eq,
        not_true_eq_false, if_false, decide_eq_true_eq] at ha
      refine ih ha.2 (fun other => ?_) ?_ ha.1
      · simp only [mem_append, hj, mem_cons]
        tauto
      · rw [length_append, hlen, length_singleton]

-- ==== the bus

variable {Body : Type} {config : Config} {s : State Body}

@[simp]
theorem knownAgents_ensureQueue (pair : Pair) :
    (ensureQueue s pair).1.knownAgents = s.knownAgents := by
  unfold ensureQueue
  split <;> rfl

@[simp]
theorem knownAgents_know (agent : String) :
    (know s agent).knownAgents = join s.knownAgents [agent] := by
  simp only [know, join, foldl_cons]
  split <;> rfl

@[simp]
theorem knownAgents_deliver {channelName : String} {message : Message Body}
    {targets : List String} :
    (deliver config s channelName message targets).knownAgents = s.knownAgents := by
  have hall : ∀ (targets : List String) (envelope : Envelope Body) (s : State Body),
      (targets.foldl (fun s subscriber =>
        enqueueOrDrop config s envelope (channelName, subscriber)) s).knownAgents =
          s.knownAgents := by
    intro targets envelope
    induction targets with
    | nil => exact fun _ => rfl
    | cons target rest ih =>
      intro s
      rw [foldl_cons, ih]
      simp [enqueueOrDrop]
  exact hall _ _ _

@[simp]
theorem knownAgents_ensureDirectChannel {channelName : String} {pair : List String} :
    (ensureDirectChannel s channelName pair).knownAgents = join s.knownAgents pair := by
  have hall : ∀ (pair : List String) (s : State Body),
      (pair.foldl (fun s agent => (ensureQueue (know s agent) (channelName, agent)).1)
        s).knownAgents = join s.knownAgents pair := by
    intro pair
    induction pair with
    | nil => exact fun _ => rfl
    | cons agent rest ih =>
      intro s
      rw [foldl_cons, ih]
      simp [join]
  unfold ensureDirectChannel
  split
  · exact hall pair s
  · split
    · exact hall pair s
    · exact hall pair s

def Config.blocking (config : Config) (max : Nat) : Config :=
  { config with admitAgent := some (QuadraticEnforcementStrategy.hardBlock.admitAgent max) }

variable {max : Nat}

theorem length_join_of_admitted (hle : s.knownAgents.length ≤ max)
    (h : admitted (config.blocking max) s agents = true) :
    (join s.knownAgents agents).length ≤ max :=
  length_join h (by simp) rfl hle

/-- STEP LEMMA of the ceiling. -/
theorem step_knownAgents_le (e : Event Body) (hle : s.knownAgents.length ≤ max) :
    (step (config.blocking max) s e).knownAgents.length ≤ max := by
  cases e with
  | start =>
    simp only [step, start]
    split
    · exact hle
    · exact Nat.zero_le _
  | sendDirect message recipient =>
    simp only [step, sendDirect]
    split
    · exact hle
    split
    · exact hle
    split
    · exact hle
    split
    · exact hle
    next ha =>
      split
      · exact hle
      · rw [knownAgents_deliver, knownAgents_ensureDirectChannel]
        exact length_join_of_admitted hle (by simpa using ha)
  | subscribe channelName subscriber =>
    simp only [step, subscribe]
    split
    next =>
      split
      · exact hle
      · split
        · exact hle
        next ha =>
          have hjoin := length_join_of_admitted hle (by simpa using ha)
          split
          · rwa [knownAgents_know]
          · rw [knownAgents_ensureQueue]
            rwa [← knownAgents_know] at hjoin
    · exact hle
  | stop =>
    simp only [step, stop]
    split <;> exact hle
  | createChannel name channel =>
    simp only [step, createChannel]
    split <;> exact hle
  | publish message =>
    simp only [step, publish]
    split
    · split
      · exact hle
      · rwa [knownAgents_deliver]
    · exact hle
  | unsubscribe channelName subscriber =>
    simp only [step, unsubscribe]
    split
    · split
      · exact hle
      · split <;> exact hle
    · exact hle
  | receive id channelName subscriber timeout =>
    simp only [step]
    split
    · simp only [receive]
      split
      · split
        · exact hle
        · split
          · exact hle
          · simpa [setCall] using hle
      · exact hle
    · exact hle
  | get id =>
    simp only [step, get]
    split
    · split <;> exact hle
    · exact hle
  | resume id =>
    simp only [step, resume]
    split
    · split <;> exact hle
    · exact hle
  | leave id =>
    simp only [step, leave]
    split <;> exact hle
  | cancel id =>
    simp only [step, cancel]
    split <;> exact hle

/-- THE CEILING: never more agents than `max_agent_connections`, and a refused call changes
nothing. -/
theorem ceiling_kept (config : Config) (max : Nat) (events : List (Event Body)) :
    ∀ s ∈ Run.states (step (config.blocking max)) fresh events,
      s.knownAgents.length ≤ max ∧
        (∀ agents, admitted (config.blocking max) s agents = false → ∃ agent ∈ agents,
          agent ∉ s.knownAgents ∧
            rejected (QuadraticEnforcementStrategy.hardBlock.admitAgent max) s.knownAgents agents
              s.knownAgents.length [] = some agent) ∧
        (∀ channelName subscriber,
          admitted (config.blocking max) s [subscriber] = false →
            subscribe (config.blocking max) s channelName subscriber = s) ∧
        ∀ message recipient,
          admitted (config.blocking max) s [(directPair message.sender recipient).1,
            (directPair message.sender recipient).2] = false →
              sendDirect (config.blocking max) s message recipient = s := by
  intro s hs
  obtain ⟨before, after, -, rfl⟩ := (Run.mem_states_iff _ _ _ _).1 hs
  have hle : (Run.final (step (config.blocking max)) fresh before).knownAgents.length ≤ max :=
    Run.kept (P := fun s : State Body => s.knownAgents.length ≤ max)
      (fun _ e => step_knownAgents_le e) (by exact Nat.zero_le max) before
  refine ⟨hle, ?_, ?_, ?_⟩
  · intro agents hrefused
    have hsome : rejected (QuadraticEnforcementStrategy.hardBlock.admitAgent max) _ agents
        _ [] ≠ none := fun hnone =>
      absurd (admitAll_iff_rejected.2 hnone) (Bool.eq_false_iff.1 hrefused)
    obtain ⟨agent, hagent⟩ := Option.ne_none_iff_exists'.1 hsome
    obtain ⟨hmem, hunknown⟩ := rejected_unknown hagent
    exact ⟨agent, hmem, hunknown, hagent⟩
  · intro channelName subscriber hrefused
    unfold subscribe
    split
    · split
      · rfl
      · simp [hrefused]
    · rfl
  · intro message recipient hrefused
    simp [sendDirect, hrefused]

/-- Two agents fill a bus of two, and the third one is turned away. -/
theorem ceiling_kept_third : let config : Config := (⟨["news"], 4, none⟩ : Config).blocking 2
    let full : State Unit := Run.final (step config) fresh
      [.start, .subscribe "news" "ann", .subscribe "news" "bob"]
    full.knownAgents.length ≤ 2 ∧ subscribe config full "news" "cat" = full ∧
      (∃ agent ∈ ["ann", "cat"], agent ∉ full.knownAgents) ∧
      sendDirect config full ⟨"@ann:cat", "ann", some "cat", ()⟩ "cat" = full :=
  have h := ceiling_kept ⟨["news"], 4, none⟩ 2
    ([.start, .subscribe "news" "ann", .subscribe "news" "bob"] : List (Event Unit)) _
    (Run.final_mem_states _ _ _)
  have ⟨agent, hmem, hunknown, _⟩ := h.2.1 ["ann", "cat"] (by decide)
  ⟨h.1, h.2.2.1 "news" "cat" (by decide), ⟨agent, hmem, hunknown⟩, h.2.2.2 _ "cat" (by decide)⟩

end Synthorg.Communication
