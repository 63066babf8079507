/-
When a session's conversation stays well formed.

A conversation that was only appended to is a row of blocks: SYSTEM and USER messages, and turns,
each an assistant message with the results of its calls behind it. A compaction keeps it one where
the window does not open inside a turn; where it does, the results at its head have lost their
assistant. And it keeps every earlier summary where no SYSTEM message stands in the span it
archives.
-/
import Mathlib.Data.List.TakeWhile
import Synthorg.Compaction.Conversation
import Synthorg.Lib.Pick

namespace Synthorg.Compaction

open Lib
open List

section

-- ==== the three parts

/-- The leading SYSTEM run, the span and the window, with what of the span is archived and what
is rescued. -/
structure Cut (config : CompactionConfig) (ctx : AgentContext) (split : ConversationSplit)
    (span : List ChatMessage) : Prop where
  parts : ctx.conversation = split.head ++ span ++ split.recent
  head_system : ∀ m ∈ split.head, m.role = .system
  span_first : ∀ m, span.head? = some m → m.role ≠ .system
  recent_length : split.recent.length = preserveCount config ctx.conversation
  archivable_eq : split.archivable =
    pick (fun i => i ∉ ctx.pinnedMessageIndices) split.head.length span
  rescued_eq : split.rescued =
    pick (fun i => i ∈ ctx.pinnedMessageIndices) split.head.length span
  archivable_ne : split.archivable ≠ []
  pinnedHead_eq : split.pinnedHead =
    ctx.pinnedMessageIndices.filter (· < split.head.length)
  pinnedRecent_eq : split.pinnedRecent =
    (ctx.pinnedMessageIndices.filter (split.head.length + span.length ≤ ·)).image
      (· - (split.head.length + span.length))

theorem take_startIdx (conversation : List ChatMessage) :
    conversation.take (startIdx conversation) =
      conversation.takeWhile fun message => message.role = .system := by
  have h := takeWhile_append_dropWhile (p := fun m : ChatMessage => m.role = .system)
    (l := conversation)
  exact (congrArg (List.take _) h).symm.trans take_left

theorem drop_startIdx (conversation : List ChatMessage) :
    conversation.drop (startIdx conversation) =
      conversation.dropWhile fun message => message.role = .system := by
  have h := takeWhile_append_dropWhile (p := fun m : ChatMessage => m.role = .system)
    (l := conversation)
  exact (congrArg (List.drop _) h).symm.trans drop_left

/-- SPLIT SPEC: a split is a cut. -/
theorem splitConversation_some {ctx : AgentContext} {config : CompactionConfig}
    {split : ConversationSplit} (h : splitConversation ctx config = some split) :
    ∃ span, Cut config ctx split span := by
  unfold splitConversation at h
  dsimp only at h
  split at h
  next => cases h
  next hroom =>
    split at h
    next => cases h
    next hsome =>
      rw [Option.some.injEq] at h
      generalize hc : ctx.conversation = conv at h hroom hsome
      have hs : startIdx conv ≤ conv.length := by
        exact (takeWhile_sublist _).length_le
      generalize hpreserve : preserveCount config conv = preserve at h hroom hsome
      have hrec : startIdx conv ≤ conv.length - preserve := by omega
      -- the three parts, with the lengths the source counts
      have hhead : (conv.take (startIdx conv)).length = startIdx conv := by
        rw [length_take, Nat.min_eq_left hs]
      have hspan : ((conv.take (conv.length - preserve)).drop (startIdx conv)).length =
          conv.length - preserve - startIdx conv := by
        rw [length_drop, length_take, Nat.min_eq_left (Nat.sub_le _ _)]
      have hp : conv = conv.take (startIdx conv) ++
          (conv.take (conv.length - preserve)).drop (startIdx conv) ++
          conv.drop (conv.length - preserve) := by
        have htake : conv.take (startIdx conv) ++
            (conv.take (conv.length - preserve)).drop (startIdx conv) =
              conv.take (conv.length - preserve) := by
          have hmin : conv.take (startIdx conv) =
              (conv.take (conv.length - preserve)).take (startIdx conv) := by
            rw [take_take, Nat.min_eq_left hrec]
          rw [hmin, take_append_drop]
        rw [htake, take_append_drop]
      have hpick : ∀ (p : Nat → Prop) [DecidablePred p],
          ((List.range' (startIdx conv) (conv.length - preserve - startIdx conv)).filter
            fun i => decide (p i)).filterMap (conv[·]?) =
          pick p (startIdx conv)
            ((conv.take (conv.length - preserve)).drop (startIdx conv)) := by
        intro p _
        have hcut := @filterMap_range' _ p _ (conv.take (startIdx conv))
          ((conv.take (conv.length - preserve)).drop (startIdx conv))
          (conv.drop (conv.length - preserve))
        rwa [← hp, hhead, hspan] at hcut
      refine ⟨(conv.take (conv.length - preserve)).drop (startIdx conv), ?_⟩
      subst h
      exact
        { parts := by
            rw [hc]
            exact hp
          head_system := by
            intro m hm
            rw [take_startIdx] at hm
            have hrole := mem_takeWhile_imp hm
            exact of_decide_eq_true hrole
          span_first := by
            intro m hm
            rw [drop_take, List.head?_take, drop_startIdx] at hm
            split at hm
            next => cases hm
            next =>
              have hnot := List.head?_dropWhile_not
                (fun message : ChatMessage => decide (message.role = .system)) conv
              rw [hm] at hnot
              exact of_decide_eq_false hnot
          recent_length := by
            rw [hc, length_drop]
            omega
          archivable_eq := by
            rw [hhead]
            exact hpick (fun i => i ∉ ctx.pinnedMessageIndices)
          rescued_eq := by
            rw [hhead]
            exact hpick (fun i => i ∈ ctx.pinnedMessageIndices)
          archivable_ne := by
            intro hnil
            dsimp only at hnil
            rw [hnil] at hsome
            exact hsome rfl
          pinnedHead_eq := by
            rw [hhead]
          pinnedRecent_eq := by
            rw [hhead, hspan, Nat.add_sub_cancel' hrec] }

-- ==== the pins

variable {config : CompactionConfig} {ctx : AgentContext} {split : ConversationSplit}
  {span : List ChatMessage} {summary : ChatMessage}

def AgentContext.pinnedMessages (ctx : AgentContext) : List ChatMessage :=
  pick (fun i => i ∈ ctx.pinnedMessageIndices) 0 ctx.conversation

def AgentContext.PinsInRange (ctx : AgentContext) : Prop :=
  ∀ i ∈ ctx.pinnedMessageIndices, i < ctx.conversation.length

theorem Cut.mem_pins_iff (hcut : Cut config ctx split span) (i : Nat) :
    i ∈ (rewrite split summary).2 ↔
      (i ∈ ctx.pinnedMessageIndices ∧ i < split.head.length) ∨
      (split.head.length ≤ i ∧ i < split.head.length + split.rescued.length) ∨
      ∃ k, split.head.length + span.length + k ∈ ctx.pinnedMessageIndices ∧
        i = split.head.length + split.rescued.length + 1 + k := by
  rw [rewrite]
  rw [hcut.pinnedHead_eq, hcut.pinnedRecent_eq, Finset.mem_union, Finset.mem_union,
    Finset.mem_filter, Finset.mem_image, Finset.mem_image, or_assoc]
  refine or_congr Iff.rfl (or_congr ⟨?_, ?_⟩ ⟨?_, ?_⟩)
  · intro h
    obtain ⟨j, hj, rfl⟩ := h
    rw [Finset.mem_range] at hj
    omega
  · intro h
    exact ⟨i - split.head.length, Finset.mem_range.2 (by omega), by omega⟩
  · intro h
    obtain ⟨offset, hoffs, rfl⟩ := h
    obtain ⟨j, hj, rfl⟩ := Finset.mem_image.1 hoffs
    obtain ⟨hp, hle⟩ := Finset.mem_filter.1 hj
    exact ⟨j - (split.head.length + span.length), by rwa [Nat.add_sub_cancel' hle], rfl⟩
  · intro h
    obtain ⟨k, hk, rfl⟩ := h
    refine ⟨k, Finset.mem_image.2 ⟨_, Finset.mem_filter.2 ⟨hk, by omega⟩, by omega⟩, rfl⟩

/-- THE PINS MOVE ALONG: they name the messages they named before, in order. -/
theorem Cut.pinned_rewrite (hcut : Cut config ctx split span) :
    pick (fun i => i ∈ (rewrite split summary).2) 0 (rewrite split summary).1 =
      ctx.pinnedMessages := by
  unfold AgentContext.pinnedMessages
  rw [hcut.parts, rewrite]
  rw [pick_append, pick_append, pick_append, pick_append, pick_append]
  have hhead : pick (fun i => i ∈ (rewrite split summary).2) 0 split.head =
      pick (fun i => i ∈ ctx.pinnedMessageIndices) 0 split.head := by
    apply pick_congr
    intro i hi
    rw [hcut.mem_pins_iff]
    constructor
    · intro h
      rcases h with ⟨hp, -⟩ | h | ⟨k, -, h⟩
      · exact hp
      · omega
      · omega
    · intro hp
      exact .inl ⟨hp, by omega⟩
  have hr : pick (fun i => i ∈ (rewrite split summary).2) (0 + split.head.length)
      split.rescued = pick (fun i => i ∈ ctx.pinnedMessageIndices) (0 + split.head.length)
        span := by
    rw [Nat.zero_add, ← hcut.rescued_eq]
    apply pick_all
    intro i hi
    rw [hcut.mem_pins_iff]
    exact .inr (.inl ⟨by omega, by omega⟩)
  have hs : pick (fun i => i ∈ (rewrite split summary).2)
      (0 + (split.head ++ split.rescued).length) [summary] = [] := by
    apply pick_none
    intro i hi
    rw [length_singleton] at hi
    rw [hcut.mem_pins_iff, length_append]
    intro h
    rcases h with ⟨-, h⟩ | h | ⟨k, -, h⟩ <;> omega
  have hrec : pick (fun i => i ∈ (rewrite split summary).2)
      (0 + (split.head ++ split.rescued ++ [summary]).length) split.recent =
        pick (fun i => i ∈ ctx.pinnedMessageIndices) (0 + (split.head ++ span).length)
          split.recent := by
    apply pick_congr
    intro i hi
    rw [hcut.mem_pins_iff]
    simp only [length_append, length_singleton]
    constructor
    · intro h
      rcases h with ⟨-, h⟩ | h | ⟨k, hk, h⟩
      · omega
      · omega
      · have hki : k = i := by omega
        rw [← hki, Nat.zero_add]
        exact hk
    · intro hp
      rw [Nat.zero_add] at hp
      exact .inr (.inr ⟨i, hp, by omega⟩)
  rw [rewrite] at hhead hr hs hrec
  rw [hhead, hr, hs, hrec, append_nil]

theorem Cut.pins_in_range (hcut : Cut config ctx split span) (hr : ctx.PinsInRange) :
    ∀ i ∈ (rewrite split summary).2, i < (rewrite split summary).1.length := by
  intro i hi
  rw [hcut.mem_pins_iff] at hi
  rw [rewrite]
  simp only [length_append, length_singleton]
  rcases hi with ⟨-, h⟩ | h | ⟨k, hk, h⟩
  · omega
  · omega
  · have hlt := hr _ hk
    rw [hcut.parts, length_append, length_append] at hlt
    omega

-- ==== length and window

/-- NEVER LONGER: what is archived makes room for the summary. -/
theorem Cut.length_rewrite_le (hcut : Cut config ctx split span) :
    (rewrite split summary).1.length ≤ ctx.conversation.length := by
  have hsum := length_pick_add_length_pick_not (p := fun i => i ∈ ctx.pinnedMessageIndices)
    split.head.length span
  have hpos := length_pos_iff.2 hcut.archivable_ne
  rw [hcut.archivable_eq] at hpos
  rw [← hcut.rescued_eq] at hsum
  rw [hcut.parts, rewrite]
  simp only [length_append, length_singleton]
  omega

theorem walk_fst_le_snd (messages : List ChatMessage) :
    (walkCorrectionTail messages).1 ≤ (walkCorrectionTail messages).2 := by
  induction messages with
  | nil => exact Nat.le_refl _
  | cons message older ih =>
    rw [walkCorrectionTail]
    split
    next =>
      split
      next => exact Nat.le_refl _
      next => exact Nat.succ_le_succ ih
    next =>
      split
      next => exact Nat.le_succ_of_le ih
      next => exact Nat.le_refl _

theorem walk_append {newest older other : List ChatMessage}
    (ho : walkCorrectionTail other = (0, 0))
    (hle : (walkCorrectionTail (newest ++ older)).2 ≤ newest.length) :
    walkCorrectionTail (newest ++ other) = walkCorrectionTail (newest ++ older) := by
  induction newest with
  | nil =>
    have hfst := walk_fst_le_snd older
    rw [nil_append] at hle ⊢
    rw [nil_append, ho]
    rw [length_nil] at hle
    exact Prod.ext (by show 0 = _; omega) (by show 0 = _; omega)
  | cons message newest ih =>
    rw [cons_append, walkCorrectionTail] at hle
    rw [cons_append, cons_append, walkCorrectionTail, walkCorrectionTail]
    split at hle
    next huser =>
      rw [if_pos huser, if_pos huser]
      split at hle
      next hp => rw [if_pos hp, if_pos hp]
      next hn => rw [if_neg hn, if_neg hn, ih (Nat.le_of_succ_le_succ hle)]
    next huser =>
      rw [if_neg huser, if_neg huser]
      split at hle
      next hcall => rw [if_pos hcall, if_pos hcall, ih (Nat.le_of_succ_le_succ hle)]
      next hcall => rw [if_neg hcall, if_neg hcall]

/-- A SYSTEM message stops the walk. -/
theorem walk_system {message : ChatMessage} (h : message.role = .system)
    (older : List ChatMessage) : walkCorrectionTail (message :: older) = (0, 0) := by
  rw [walkCorrectionTail, h, if_neg (by decide), if_neg (fun hrole => by cases hrole.1)]

/-- THE WINDOW KEEPS THE COUNT: the correction tail lies within it, and the
summary before it stops the walk. -/
theorem Cut.walk_rewrite (hcut : Cut config ctx split span) (hs : summary.role = .system) :
    walkCorrectionTail (rewrite split summary).1.reverse =
      walkCorrectionTail ctx.conversation.reverse := by
  have hle : correctionTailMessages ctx.conversation ≤ split.recent.length := by
    rw [hcut.recent_length]
    exact Nat.le_max_right _ _
  unfold correctionTailMessages at hle
  rw [hcut.parts, reverse_append, ← length_reverse] at hle
  rw [hcut.parts, rewrite]
  rw [reverse_append, reverse_append, @reverse_append _ (split.head ++ span) split.recent]
  refine walk_append ?_ hle
  exact walk_system hs _

-- ==== the callback

theorem prepareCompaction_some {force : Bool}
    (h : prepareCompaction ctx config force = some split) :
    splitConversation ctx config = some split := by
  unfold prepareCompaction at h
  dsimp only at h
  generalize (if config.agentControlled = true then config.safetyThresholdPercent
    else config.fillThresholdPercent) = threshold at h
  split at h
  next => cases h
  next =>
    split at h
    next => cases h
    next => exact h

/-- COMPACTION SPEC: with pins in range the context is left alone, or rewritten by a split. -/
theorem compact_cases (env : Surroundings) (config : CompactionConfig) (hr : ctx.PinsInRange)
    (force : Bool) (summaryText : String) (usage : TokenUsage) (uid : Nat) :
    (prepareCompaction ctx config force = none ∧
      compact env config ctx force summaryText usage uid = .ok none) ∨
    ∃ split span ctx', prepareCompaction ctx config force = some split ∧
      Cut config ctx split span ∧
      compact env config ctx force summaryText usage uid = .ok (some ctx') ∧
      (ctx'.conversation, ctx'.pinnedMessageIndices) =
        rewrite split (ChatMessage.systemText uid (env.wrapUntrusted summaryText)) := by
  unfold compact
  cases hp : prepareCompaction ctx config force with
  | none => exact .inl ⟨rfl, rfl⟩
  | some split =>
    obtain ⟨span, hcut⟩ := splitConversation_some (prepareCompaction_some hp)
    generalize hs : ChatMessage.systemText uid (env.wrapUntrusted summaryText) = summary
    have hpins := @Cut.pins_in_range config ctx split span summary hcut hr
    refine .inr ⟨split, span,
      { ctx with
        conversation := (rewrite split summary).1
        compressionMetadata :=
          some (compressMetadata ctx split (env.estimateTokens summaryText) usage)
        contextFillTokens := env.estimateConversationTokens (rewrite split summary).1
        pinnedMessageIndices := (rewrite split summary).2 }, rfl, hcut, ?_, rfl⟩
    show (finalise env ctx split summaryText usage uid).map some = _
    unfold finalise AgentContext.withCompression
    dsimp only
    rw [hs, if_neg]
    · rfl
    · intro h
      obtain ⟨i, hi, hle⟩ := h
      exact Nat.not_le_of_lt (hpins i hi) hle

end

-- ==== messages

variable {m : ChatMessage} {xs conv : List ChatMessage}

theorem ChatMessage.role_of_toolResult {result : ToolResult} (h : m.toolResult = some result) :
    m.role = .tool := by
  have ha := m.allowed
  rw [h] at ha
  cases hrole : m.role <;> rw [hrole] at ha <;> simp [roleAllows] at ha

theorem ChatMessage.toolResult_of_role (h : m.role = .tool) :
    ∃ result, m.toolResult = some result := by
  have ha := m.allowed
  rw [h, roleAllows, Bool.and_eq_true] at ha
  exact Option.isSome_iff_exists.1 ha.1

theorem ChatMessage.toolCalls_of_role (h : m.role ≠ .assistant) : m.toolCalls = [] := by
  have ha := m.allowed
  cases hrole : m.role <;> rw [hrole] at ha
  · simp [roleAllows] at ha
    exact ha.1.1
  · simp [roleAllows] at ha
    exact ha.1.1
  · exact absurd hrole h
  · simp [roleAllows] at ha
    exact ha.2

-- ==== blocks

/-- A TOOL message under a call's id. -/
def Answers (m : ChatMessage) (call : ToolCall) : Prop :=
  ∃ result, m.toolResult = some result ∧ result.toolCallId = call.id

variable {results ys messages : List ChatMessage} {calls : List ToolCall} {s : Session}

theorem exists_call_of_mem (h : Forall₂ Answers results calls) (hm : m ∈ results) :
    ∃ call ∈ calls, Answers m call := by
  induction h with
  | nil => cases hm
  | cons hf _ ih =>
    rcases mem_cons.1 hm with rfl | hm
    · exact ⟨_, mem_cons_self, hf⟩
    · obtain ⟨call, hcall, ha⟩ := ih hm
      exact ⟨call, mem_cons_of_mem _ hcall, ha⟩

theorem exists_answer_of_mem (h : Forall₂ Answers results calls) {call : ToolCall}
    (hcall : call ∈ calls) : ∃ m ∈ results, Answers m call := by
  induction h with
  | nil => cases hcall
  | cons hf _ ih =>
    rcases mem_cons.1 hcall with rfl | hcall
    · exact ⟨_, mem_cons_self, hf⟩
    · obtain ⟨m, hm, ha⟩ := ih hcall
      exact ⟨m, mem_cons_of_mem _ hm, ha⟩

inductive Blocks : List ChatMessage → Prop where
  | nil : Blocks []
  | plain {m : ChatMessage} {rest : List ChatMessage} :
      m.role = .system ∨ m.role = .user → Blocks rest → Blocks (m :: rest)
  | turn {a : ChatMessage} {results rest : List ChatMessage} :
      a.role = .assistant → Forall₂ Answers results a.toolCalls → Blocks rest →
      Blocks (a :: (results ++ rest))

theorem Blocks.append (hx : Blocks xs) (hy : Blocks ys) : Blocks (xs ++ ys) := by
  induction hx with
  | nil => exact hy
  | plain hrole _ ih => exact Blocks.plain hrole ih
  | turn hrole hres _ ih =>
    rw [cons_append, append_assoc]
    exact Blocks.turn hrole hres ih

theorem blocks_of_plain (h : ∀ m ∈ xs, m.role = .system ∨ m.role = .user) : Blocks xs := by
  induction xs with
  | nil => exact Blocks.nil
  | cons x xs ih =>
    exact Blocks.plain (h x mem_cons_self) (ih fun m hm => h m (mem_cons_of_mem x hm))

/-- A row of blocks cut in front of anything but a TOOL message is cut
between blocks. -/
theorem Blocks.suffix (h : Blocks conv) (hcut : conv = xs ++ ys)
    (hf : ∀ m, ys.head? = some m → m.role ≠ .tool) : Blocks ys := by
  induction h generalizing xs with
  | nil =>
    rw [(append_eq_nil_iff.1 hcut.symm).2]
    exact Blocks.nil
  | plain hrole hrest ih =>
    cases xs with
    | nil =>
      rw [nil_append] at hcut
      rw [← hcut]
      exact Blocks.plain hrole hrest
    | cons x xs =>
      rw [cons_append, cons.injEq] at hcut
      exact ih hcut.2
  | turn hrole hres hrest ih =>
    cases xs with
    | nil =>
      rw [nil_append] at hcut
      rw [← hcut]
      exact Blocks.turn hrole hres hrest
    | cons x xs =>
      rw [cons_append, cons.injEq] at hcut
      rcases append_eq_append_iff.1 hcut.2 with ⟨c, -, hc⟩ | ⟨c, hc, hys⟩
      · exact ih hc
      · -- the cut falls among the turn's results
        cases c with
        | nil => rwa [hys]
        | cons t c =>
          have hmem : t ∈ xs ++ t :: c := mem_append_right _ mem_cons_self
          rw [← hc] at hmem
          obtain ⟨call, -, result, hr, -⟩ := exists_call_of_mem hres hmem
          have hf' := hf t (by rw [hys]; rfl)
          exact absurd (ChatMessage.role_of_toolResult hr) hf'

-- ==== well formed

/-- Every TOOL message follows an assistant message that carries its call
id. -/
def ToolsPreceded (conv : List ChatMessage) : Prop :=
  ∀ before m after, conv = before ++ m :: after → ∀ result, m.toolResult = some result →
    ∃ a ∈ before, a.role = .assistant ∧ result.toolCallId ∈ a.toolCalls.map (·.id)

def CallsAnswered (conv : List ChatMessage) : Prop :=
  ∀ before a after, conv = before ++ a :: after → ∀ call ∈ a.toolCalls,
    ∃ m ∈ after, Answers m call

theorem Blocks.toolsPreceded (h : Blocks conv) : ToolsPreceded conv := by
  intro before m after hcut result hr
  have htool := ChatMessage.role_of_toolResult hr
  induction h generalizing before with
  | nil => exact absurd hcut.symm (by simp)
  | plain hrole hrest ih =>
    cases before with
    | nil =>
      rw [nil_append, cons.injEq] at hcut
      rw [hcut.1, htool] at hrole
      rcases hrole with h | h <;> cases h
    | cons x before =>
      rw [cons_append, cons.injEq] at hcut
      obtain ⟨a, ha, hassistant⟩ := ih before hcut.2
      exact ⟨a, mem_cons_of_mem x ha, hassistant⟩
  | turn hrole hres hrest ih =>
    cases before with
    | nil =>
      rw [nil_append, cons.injEq] at hcut
      simp [hcut.1, htool] at hrole
    | cons x before =>
      rw [cons_append, cons.injEq] at hcut
      obtain ⟨rfl, hrow⟩ := hcut
      rcases append_eq_append_iff.1 hrow with ⟨c, hc, hrest'⟩ | ⟨c, hc, hm⟩
      · obtain ⟨a, ha, hassistant⟩ := ih c hrest'
        rw [hc]
        exact ⟨a, mem_cons_of_mem _ (mem_append_right _ ha), hassistant⟩
      · cases c with
        | nil =>
          obtain ⟨a, ha, -⟩ := ih [] hm.symm
          cases ha
        | cons t c =>
          rw [cons_append, cons.injEq] at hm
          have hmem : t ∈ before ++ t :: c := mem_append_right _ mem_cons_self
          rw [← hc, ← hm.1] at hmem
          obtain ⟨call, hcall, result', hr', hid⟩ := exists_call_of_mem hres hmem
          rw [hr, Option.some.injEq] at hr'
          subst hr'
          exact ⟨_, mem_cons_self, hrole, mem_map.2 ⟨call, hcall, hid.symm⟩⟩

theorem Blocks.callsAnswered (h : Blocks conv) : CallsAnswered conv := by
  intro before a after hcut call hcall
  have hassistant : a.role = .assistant := by
    by_contra hrole
    simp [ChatMessage.toolCalls_of_role hrole] at hcall
  induction h generalizing before with
  | nil => exact absurd hcut.symm (by simp)
  | plain hrole hrest ih =>
    cases before with
    | nil =>
      rw [nil_append, cons.injEq] at hcut
      rw [hcut.1, hassistant] at hrole
      rcases hrole with h | h <;> cases h
    | cons x before =>
      rw [cons_append, cons.injEq] at hcut
      exact ih before hcut.2
  | turn hrole hres hrest ih =>
    cases before with
    | nil =>
      obtain ⟨rfl, rfl⟩ := hcut
      obtain ⟨m, hm, ha⟩ := exists_answer_of_mem hres hcall
      exact ⟨m, mem_append_left _ hm, ha⟩
    | cons x before =>
      rw [cons_append, cons.injEq] at hcut
      rcases append_eq_append_iff.1 hcut.2 with ⟨c, -, hrest'⟩ | ⟨c, hc, hm⟩
      · exact ih c hrest'
      · cases c with
        | nil => exact ih [] hm.symm
        | cons t c =>
          rw [cons_append, cons.injEq] at hm
          have hmem : t ∈ before ++ t :: c := mem_append_right _ mem_cons_self
          rw [← hc, ← hm.1] at hmem
          obtain ⟨call', -, result, hr, -⟩ := exists_call_of_mem hres hmem
          simp [ChatMessage.role_of_toolResult hr] at hassistant

-- ==== what is promised

structure WellFormed (s : Session) : Prop where
  tools_preceded : ToolsPreceded s.ctx.conversation
  calls_answered : CallsAnswered s.ctx.conversation
  pins_named : s.ctx.pinnedMessages = s.pinned
  pins_in_range : s.ctx.PinsInRange
  summaries_kept : ∀ m ∈ s.summaries, m ∈ s.ctx.conversation

def window (config : CompactionConfig) (conv : List ChatMessage) : List ChatMessage :=
  conv.drop (conv.length - preserveCount config conv)

structure Kept (config : CompactionConfig) (before after : AgentContext) : Prop where
  window_kept : window config before.conversation <:+ after.conversation
  corrections_kept : after.consecutiveCorrections = before.consecutiveCorrections
  not_longer : after.conversation.length ≤ before.conversation.length

def StepKept (env : Surroundings) (config : CompactionConfig) (s : Session) : Event → Prop
  | .compact force summaryText usage =>
    Kept config s.ctx (step env config s (.compact force summaryText usage)).ctx
  | _ => True

def WellRun (env : Surroundings) (config : CompactionConfig) : Session → List Event → Prop
  | s, [] => WellFormed s
  | s, event :: rest =>
    WellFormed s ∧ StepKept env config s event ∧
      WellRun env config (step env config s event) rest

/-- Its window does not open on a TOOL message, and no SYSTEM message stands in the span. -/
def CleanCut (config : CompactionConfig) (s : Session) : Event → Prop
  | .compact force _ _ =>
    prepareCompaction s.ctx config force ≠ none →
      (∀ m, (window config s.ctx.conversation).head? = some m → m.role ≠ .tool) ∧
      ∀ i m, startIdx s.ctx.conversation ≤ i →
        i < s.ctx.conversation.length - preserveCount config s.ctx.conversation →
        s.ctx.conversation[i]? = some m → m.role ≠ .system
  | _ => True

def CleanRun (env : Surroundings) (config : CompactionConfig) : Session → List Event → Prop
  | _, [] => True
  | s, event :: rest => CleanCut config s event ∧ CleanRun env config (step env config s event) rest

-- ==== the invariant

/-- THE INVARIANT of a session whose compactions all cut cleanly. -/
structure Inv (s : Session) : Prop where
  blocks : Blocks s.ctx.conversation
  pins_named : s.ctx.pinnedMessages = s.pinned
  pins_in_range : s.ctx.PinsInRange
  pinned_user : ∀ m ∈ s.pinned, m.role = .user
  uids : (s.ctx.conversation.map (·.uid)).Nodup
  uids_lt : ∀ m ∈ s.ctx.conversation, m.uid < s.created
  opening_first : s.opening <+: s.ctx.conversation
  opening_system : ∀ m ∈ s.opening, m.role = .system
  systems : ∀ m ∈ s.ctx.conversation, m.role = .system → m ∈ s.opening ∨ m ∈ s.summaries
  summaries_system : ∀ m ∈ s.summaries, m.role = .system
  summaries_kept : ∀ m ∈ s.summaries, m ∈ s.ctx.conversation

theorem Inv.wellFormed (h : Inv s) : WellFormed s :=
  { h with
    tools_preceded := h.blocks.toolsPreceded
    calls_answered := h.blocks.callsAnswered }

theorem openingMessages_facts (uid : Nat) (texts : List String) :
    (∀ m ∈ openingMessages uid texts, m.role = .system ∧ uid ≤ m.uid ∧
      m.uid < uid + texts.length) ∧
    ((openingMessages uid texts).map (·.uid)).Nodup := by
  induction texts generalizing uid with
  | nil => exact ⟨fun m hm => (by cases hm), nodup_nil⟩
  | cons text texts ih =>
    obtain ⟨hall, hn⟩ := ih (uid + 1)
    constructor
    · intro m hm
      rw [length_cons]
      rcases mem_cons.1 hm with rfl | hm
      · exact ⟨rfl, Nat.le_refl _, by show uid < _; omega⟩
      · obtain ⟨hrole, hlow, hhigh⟩ := hall m hm
        exact ⟨hrole, by omega, by omega⟩
    · rw [openingMessages, map_cons, nodup_cons]
      refine ⟨fun hmem => ?_, hn⟩
      obtain ⟨m, hm, huid⟩ := mem_map.1 hmem
      have hlow := (hall m hm).2.1
      have heq : m.uid = uid := huid
      omega

theorem inv_start (texts : List String) (capacity : Option Nat) : Inv (start texts capacity) := by
  obtain ⟨hall, hn⟩ := openingMessages_facts 0 texts
  exact
    { blocks := blocks_of_plain fun m hm => .inl (hall m hm).1
      pins_named := pick_none nofun
      pins_in_range := nofun
      pinned_user := nofun
      uids := hn
      uids_lt := fun m hm => by
        have hhigh := (hall m hm).2.2
        show m.uid < texts.length
        omega
      opening_first := prefix_refl _
      opening_system := fun m hm => (hall m hm).1
      systems := fun m hm _ => .inl hm
      summaries_system := nofun
      summaries_kept := nofun }

-- ==== appending

/-- What an append adds to a session: new message objects, no SYSTEM ones,
that are blocks of their own. -/
structure Addition (created : Nat) (messages : List ChatMessage) (created' : Nat) : Prop where
  blocks : Blocks messages
  uids : (messages.map (·.uid)).Nodup
  uids_ge : ∀ m ∈ messages, created ≤ m.uid
  uids_lt : ∀ m ∈ messages, m.uid < created'
  not_system : ∀ m ∈ messages, m.role ≠ .system

theorem addition_user (created : Nat) (content : String) :
    Addition created [ChatMessage.userText created content] (created + 1) where
  blocks := Blocks.plain (.inr rfl) Blocks.nil
  uids := nodup_singleton _
  uids_ge m hm := by
    rw [mem_singleton.1 hm]
    exact Nat.le_refl created
  uids_lt m hm := by
    rw [mem_singleton.1 hm]
    exact Nat.lt_succ_self created
  not_system m hm := by
    rw [mem_singleton.1 hm]
    exact nofun

theorem toolMessages_facts (uid : Nat) (runs : List ToolRun) :
    Forall₂ Answers (toolMessages uid runs) (runs.map (·.call)) ∧
    (∀ m ∈ toolMessages uid runs, m.role = .tool ∧ uid ≤ m.uid ∧ m.uid < uid + runs.length) ∧
    ((toolMessages uid runs).map (·.uid)).Nodup := by
  induction runs generalizing uid with
  | nil => exact ⟨Forall₂.nil, fun m hm => (by cases hm), nodup_nil⟩
  | cons run runs ih =>
    obtain ⟨ha, hall, hn⟩ := ih (uid + 1)
    refine ⟨Forall₂.cons ⟨run.result, rfl, rfl⟩ ha, ?_, ?_⟩
    · intro m hm
      rw [length_cons]
      rcases mem_cons.1 hm with rfl | hm
      · exact ⟨rfl, Nat.le_refl _, by show uid < _; omega⟩
      · obtain ⟨hrole, hlow, hhigh⟩ := hall m hm
        exact ⟨hrole, by omega, by omega⟩
    · rw [toolMessages, map_cons, nodup_cons]
      refine ⟨fun hmem => ?_, hn⟩
      obtain ⟨m, hm, huid⟩ := mem_map.1 hmem
      have hlow := (hall m hm).2.1
      have heq : m.uid = uid := huid
      omega

theorem addition_turn (created : Nat) (content : Option String) (runs : List ToolRun)
    (spoken : (content.isSome || !runs.isEmpty) = true) : Addition created
      (assistantMessage created content runs spoken :: toolMessages (created + 1) runs)
      (created + 1 + runs.length) := by
  obtain ⟨ha, hall, hn⟩ := toolMessages_facts (created + 1) runs
  refine ⟨?_, ?_, ?_, ?_, ?_⟩
  · have hb := Blocks.turn (a := assistantMessage created content runs spoken) rfl ha
      Blocks.nil
    rwa [append_nil] at hb
  · rw [map_cons, nodup_cons]
    refine ⟨fun hmem => ?_, hn⟩
    obtain ⟨m, hm, huid⟩ := mem_map.1 hmem
    have hlow := (hall m hm).2.1
    have heq : m.uid = created := huid
    omega
  · intro m hm
    rcases mem_cons.1 hm with rfl | hm
    · exact Nat.le_refl created
    · have hlow := (hall m hm).2.1
      omega
  · intro m hm
    rcases mem_cons.1 hm with rfl | hm
    · show created < _
      omega
    · have hhigh := (hall m hm).2.2
      omega
  · intro m hm
    rcases mem_cons.1 hm with rfl | hm
    · exact fun h => by cases h
    · rw [(hall m hm).1]
      exact nofun

theorem nodup_append_newer {created : Nat} (hc : (conv.map (·.uid)).Nodup)
    (hlt : ∀ m ∈ conv, m.uid < created) (hmessages : (messages.map (·.uid)).Nodup)
    (hge : ∀ m ∈ messages, created ≤ m.uid) : ((conv ++ messages).map (·.uid)).Nodup := by
  rw [map_append, nodup_append]
  refine ⟨hc, hmessages, fun uid hold uid' hnew => ?_⟩
  obtain ⟨m, hm, rfl⟩ := mem_map.1 hold
  obtain ⟨m', hm', rfl⟩ := mem_map.1 hnew
  have h1 := hlt m hm
  have h2 := hge m' hm'
  omega

/-- STEP LEMMA, an append: unpinned messages keep the invariant. -/
theorem Inv.append (h : Inv s) {created' : Nat} (hadd : Addition s.created messages created')
    (hle : s.created ≤ created') {ctx' : AgentContext}
    (hc : ctx'.conversation = s.ctx.conversation ++ messages)
    (hpins : ctx'.pinnedMessageIndices = s.ctx.pinnedMessageIndices) :
    Inv { s with ctx := ctx', created := created' } where
  blocks := by
    show Blocks ctx'.conversation
    rw [hc]
    exact h.blocks.append hadd.blocks
  pins_named := by
    show pick (fun i => i ∈ ctx'.pinnedMessageIndices) 0 ctx'.conversation = s.pinned
    rw [hc, pick_append, ← h.pins_named]
    have hnew : pick (fun i => i ∈ ctx'.pinnedMessageIndices)
        (0 + s.ctx.conversation.length) messages = [] := by
      apply pick_none
      intro i _ hi
      rw [hpins] at hi
      have hlt := h.pins_in_range _ hi
      omega
    rw [hnew, append_nil]
    apply pick_congr
    intro i _
    rw [hpins]
  pins_in_range := fun i hi => by
    show i < ctx'.conversation.length
    rw [hc, length_append]
    rw [hpins] at hi
    exact Nat.lt_add_right _ (h.pins_in_range i hi)
  pinned_user := h.pinned_user
  uids := by
    show (ctx'.conversation.map (·.uid)).Nodup
    rw [hc]
    exact nodup_append_newer h.uids h.uids_lt hadd.uids hadd.uids_ge
  uids_lt := fun m hm => by
    show m.uid < created'
    rw [hc, mem_append] at hm
    rcases hm with hm | hm
    · exact Nat.lt_of_lt_of_le (h.uids_lt m hm) hle
    · exact hadd.uids_lt m hm
  opening_first := by
    show s.opening <+: ctx'.conversation
    rw [hc]
    exact h.opening_first.trans (prefix_append _ _)
  opening_system := h.opening_system
  systems := fun m hm hrole => by
    rw [hc, mem_append] at hm
    rcases hm with hm | hm
    · exact h.systems m hm hrole
    · exact absurd hrole (hadd.not_system m hm)
  summaries_system := h.summaries_system
  summaries_kept := fun m hm => by
    show m ∈ ctx'.conversation
    rw [hc]
    exact mem_append_left _ (h.summaries_kept m hm)

/-- STEP LEMMA, a pin. -/
theorem Inv.pin (h : Inv s) (content : String) : Inv { s with
      ctx := s.ctx.withPinnedMessage (ChatMessage.userText s.created content)
      pinned := s.pinned ++ [ChatMessage.userText s.created content]
      created := s.created + 1 } := by
  have ha : Inv { s with
      ctx := s.ctx.withMessage (ChatMessage.userText s.created content)
      created := s.created + 1 } :=
    h.append (addition_user s.created content) (Nat.le_succ _) rfl rfl
  refine ⟨ha.blocks, ?_, ?_, ?_, ha.uids, ha.uids_lt, ha.opening_first,
    ha.opening_system, ha.systems, ha.summaries_system,
    ha.summaries_kept⟩
  · show pick (fun i => i ∈ insert s.ctx.conversation.length s.ctx.pinnedMessageIndices) 0
      (s.ctx.conversation ++ [_]) = s.pinned ++ [_]
    rw [pick_append, ← h.pins_named]
    congr 1
    · apply pick_congr
      intro i hi
      rw [Finset.mem_insert]
      refine or_iff_right fun heq => ?_
      omega
    · apply pick_all
      intro i hi
      rw [length_singleton] at hi
      rw [Finset.mem_insert]
      omega
  · intro i hi
    show i < (s.ctx.conversation ++ [_]).length
    rw [length_append]
    rcases Finset.mem_insert.1 hi with rfl | hi
    · exact Nat.lt_succ_self _
    · exact Nat.lt_succ_of_lt (h.pins_in_range i hi)
  · intro m hm
    rcases mem_append.1 hm with hm | hm
    · exact h.pinned_user m hm
    · rw [mem_singleton.1 hm]
      rfl

-- ==== compacting

section Compacting

variable {config : CompactionConfig} {s : Session} {split : ConversationSplit}
  {span : List ChatMessage} {ctx' : AgentContext} {content : String}

variable {ctx : AgentContext} {m : ChatMessage}

section
variable (hcut : Cut config ctx split span)
include hcut

theorem Cut.window_eq : window config ctx.conversation = split.recent := by
  have hlen : ctx.conversation.length - preserveCount config ctx.conversation =
      (split.head ++ span).length := by
    rw [← hcut.recent_length]
    conv_lhs => rw [hcut.parts]
    rw [@length_append _ _ split.recent, Nat.add_sub_cancel]
  unfold window
  rw [hlen]
  conv_lhs => rw [hcut.parts]
  exact drop_left

theorem Cut.recentStart_eq : ctx.conversation.length - preserveCount config ctx.conversation =
      split.head.length + span.length := by
  rw [← hcut.recent_length, hcut.parts]
  simp only [length_append]
  omega

theorem Cut.span_ne : span ≠ [] := by
  intro hnil
  have harch := hcut.archivable_eq
  rw [hnil] at harch
  exact hcut.archivable_ne harch

/-- The leading SYSTEM run is the head. -/
theorem Cut.startIdx_eq : startIdx ctx.conversation = split.head.length := by
  obtain ⟨first, rest, rfl⟩ := exists_cons_of_ne_nil hcut.span_ne
  rw [startIdx, hcut.parts, append_assoc,
    takeWhile_append_of_pos (fun m hm => decide_eq_true (hcut.head_system m hm)),
    cons_append, takeWhile_cons_of_neg, append_nil]
  simpa using hcut.span_first first rfl

end

/-- A CLEAN CUT in terms of the parts. -/
theorem Cut.clean_iff (hcut : Cut config s.ctx split span) {force : Bool}
    (hp : prepareCompaction s.ctx config force = some split) (summaryText : String)
    (usage : TokenUsage) : CleanCut config s (.compact force summaryText usage) ↔
      (∀ m, split.recent.head? = some m → m.role ≠ .tool) ∧
        ∀ m ∈ span, m.role ≠ .system := by
  simp only [CleanCut]
  rw [hcut.window_eq, hcut.startIdx_eq, hcut.recentStart_eq, hp]
  constructor
  · intro h
    obtain ⟨hf, hs⟩ := h (Option.some_ne_none split)
    refine ⟨hf, fun m hm => ?_⟩
    obtain ⟨i, hi⟩ := getElem?_of_mem hm
    obtain ⟨hlt, -⟩ := List.getElem?_eq_some_iff.1 hi
    refine hs (split.head.length + i) m (Nat.le_add_right _ _) (by omega) ?_
    rw [hcut.parts, append_assoc, getElem?_append_right (by omega),
      Nat.add_sub_cancel_left, getElem?_append_left hlt, hi]
  · intro h _
    refine ⟨h.1, fun i m hlow hhigh hi => ?_⟩
    rw [hcut.parts, append_assoc, getElem?_append_right hlow,
      getElem?_append_left (by omega)] at hi
    exact h.2 m (mem_of_getElem? hi)

theorem Cut.kept (hcut : Cut config s.ctx split span)
    (hctx : (ctx'.conversation, ctx'.pinnedMessageIndices) =
      rewrite split (ChatMessage.systemText s.created content)) :
    Kept config s.ctx ctx' where
  window_kept := by
    have hc := congrArg Prod.fst hctx
    rw [hcut.window_eq]
    dsimp only at hc
    rw [hc]
    exact suffix_append _ _
  corrections_kept := by
    have hc := congrArg Prod.fst hctx
    dsimp only at hc
    unfold AgentContext.consecutiveCorrections
    rw [hc, hcut.walk_rewrite rfl]
  not_longer := by
    have hc := congrArg Prod.fst hctx
    dsimp only at hc
    rw [hc]
    exact hcut.length_rewrite_le

/-- Rescued messages were pinned, so they are USER messages. -/
theorem Inv.rescued_user (h : Inv s) (hcut : Cut config s.ctx split span) :
    ∀ m ∈ split.rescued, m.role = .user := by
  intro m hm
  apply h.pinned_user
  rw [← h.pins_named, AgentContext.pinnedMessages, hcut.parts, pick_append, pick_append,
    Nat.zero_add, ← hcut.rescued_eq]
  exact mem_append_left _ (mem_append_right _ hm)

theorem Cut.mem_rewrite (hcut : Cut config s.ctx split span) {summary : ChatMessage}
    (hm : m ∈ (rewrite split summary).1) : m = summary ∨ m ∈ s.ctx.conversation := by
  rw [rewrite] at hm
  rw [hcut.parts]
  simp only [mem_append, mem_singleton] at hm ⊢
  rcases hm with ((hm | hm) | hm) | hm
  · exact .inr (.inl (.inl hm))
  · rw [hcut.rescued_eq] at hm
    exact .inr (.inl (.inr ((pick_sublist _ _).subset hm)))
  · exact .inl hm
  · exact .inr (.inr hm)

theorem Inv.uids_rewrite (h : Inv s) (hcut : Cut config s.ctx split span) :
    ((rewrite split (ChatMessage.systemText s.created content)).1.map (·.uid)).Nodup := by
  have hperm : (rewrite split (ChatMessage.systemText s.created content)).1.Perm
      ((split.head ++ split.rescued ++ split.recent) ++
        [ChatMessage.systemText s.created content]) := by
    show (split.head ++ split.rescued ++ [_] ++ split.recent).Perm _
    rw [append_assoc _ [_]]
    exact (perm_append_comm.append_left _).trans (by simp only [append_assoc]; rfl)
  have hsub : (split.head ++ split.rescued ++ split.recent).Sublist s.ctx.conversation := by
    rw [hcut.parts, hcut.rescued_eq]
    exact ((Sublist.refl _).append (pick_sublist _ _)).append (Sublist.refl _)
  rw [(hperm.map _).nodup_iff]
  apply nodup_append_newer ((hsub.map _).nodup h.uids)
  · exact fun m hm => h.uids_lt m (hsub.subset hm)
  · exact nodup_singleton _
  · intro m hm
    rw [mem_singleton.1 hm]
    exact Nat.le_refl s.created

theorem Inv.opening_head (h : Inv s) (hcut : Cut config s.ctx split span) :
    s.opening <+: split.head := by
  have hf' := h.opening_first
  rw [hcut.parts, append_assoc] at hf'
  rcases prefix_or_prefix_of_prefix hf' (prefix_append split.head _) with hle | hge
  · exact hle
  · obtain ⟨more, hmore⟩ := hge
    cases more with
    | nil =>
      rw [append_nil] at hmore
      rw [hmore]
    | cons m more =>
      -- the opening reaches into the span, which begins with no SYSTEM message
      rw [← hmore, prefix_append_right_inj] at hf'
      obtain ⟨first, rest, rfl⟩ := exists_cons_of_ne_nil hcut.span_ne
      obtain ⟨hm, -⟩ := cons_prefix_cons.1 hf'
      have hrole := h.opening_system m (by
        rw [← hmore]
        exact mem_append_right _ mem_cons_self)
      exact absurd (hm ▸ hrole) (hcut.span_first first rfl)

/-- STEP LEMMA, a clean compaction keeps the invariant. -/
theorem Inv.compact (h : Inv s) (hcut : Cut config s.ctx split span)
    (hctx : (ctx'.conversation, ctx'.pinnedMessageIndices) =
      rewrite split (ChatMessage.systemText s.created content))
    (hf : ∀ m, split.recent.head? = some m → m.role ≠ .tool)
    (hs : ∀ m ∈ span, m.role ≠ .system) :
    Inv { s with
      ctx := ctx'
      summaries := s.summaries ++ [ChatMessage.systemText s.created content]
      created := s.created + 1 } := by
  have hc : ctx'.conversation = _ := congrArg Prod.fst hctx
  have hpins : ctx'.pinnedMessageIndices = _ := congrArg Prod.snd hctx
  refine ⟨?_, ?_, ?_, h.pinned_user, ?_, ?_, ?_, h.opening_system, ?_, ?_, ?_⟩
  · show Blocks ctx'.conversation
    rw [hc]
    show Blocks (split.head ++ split.rescued ++ [_] ++ split.recent)
    refine Blocks.append (blocks_of_plain fun m hm => ?_) (h.blocks.suffix hcut.parts hf)
    simp only [mem_append, mem_singleton] at hm
    rcases hm with (hm | hm) | hm
    · exact .inl (hcut.head_system m hm)
    · exact .inr (h.rescued_user hcut m hm)
    · exact .inl (hm ▸ rfl)
  · show pick (fun i => i ∈ ctx'.pinnedMessageIndices) 0 ctx'.conversation = s.pinned
    rw [← h.pins_named, ← @Cut.pinned_rewrite config s.ctx split span
      (ChatMessage.systemText s.created content) hcut, hc]
    apply pick_congr
    intro i _
    rw [hpins]
  · intro i hi
    show i < ctx'.conversation.length
    rw [hc]
    apply hcut.pins_in_range h.pins_in_range
    rw [← hpins]
    exact hi
  · show (ctx'.conversation.map (·.uid)).Nodup
    rw [hc]
    exact h.uids_rewrite hcut
  · intro m hm
    rw [hc] at hm
    show m.uid < s.created + 1
    rcases hcut.mem_rewrite hm with rfl | hm
    · exact Nat.lt_succ_self s.created
    · exact Nat.lt_succ_of_lt (h.uids_lt m hm)
  · show s.opening <+: ctx'.conversation
    rw [hc]
    refine (h.opening_head hcut).trans ?_
    show split.head <+: split.head ++ split.rescued ++ [_] ++ split.recent
    rw [append_assoc, append_assoc]
    exact prefix_append _ _
  · intro m hm hrole
    rw [hc] at hm
    rcases hcut.mem_rewrite hm with rfl | hm
    · exact .inr (mem_append_right _ mem_cons_self)
    · rcases h.systems m hm hrole with hm | hm
      · exact .inl hm
      · exact .inr (mem_append_left _ hm)
  · intro m hm
    rcases mem_append.1 hm with hm | hm
    · exact h.summaries_system m hm
    · rw [mem_singleton.1 hm]
      rfl
  · intro m hm
    show m ∈ ctx'.conversation
    rw [hc]
    show m ∈ split.head ++ split.rescued ++ [_] ++ split.recent
    simp only [mem_append, mem_singleton]
    rcases mem_append.1 hm with hm | hm
    · have hkept := h.summaries_kept m hm
      rw [hcut.parts, mem_append, mem_append] at hkept
      rcases hkept with (hkept | hkept) | hkept
      · exact .inl (.inl (.inl hkept))
      · exact absurd (h.summaries_system m hm) (hs m hkept)
      · exact .inr hkept
    · exact .inl (.inr (mem_singleton.1 hm))

/-- A window that opens on a TOOL message leaves it without its call. -/
theorem Inv.not_toolsPreceded (h : Inv s) (hcut : Cut config s.ctx split span)
    (hctx : (ctx'.conversation, ctx'.pinnedMessageIndices) =
      rewrite split (ChatMessage.systemText s.created content))
    (hf : split.recent.head? = some m) (htool : m.role = .tool) :
    ¬ ToolsPreceded ctx'.conversation := by
  intro hp
  obtain ⟨result, hr⟩ := ChatMessage.toolResult_of_role htool
  obtain ⟨rest, hrest⟩ := List.head?_eq_some_iff.1 hf
  have hc : ctx'.conversation = _ := congrArg Prod.fst hctx
  obtain ⟨a, ha, hrole, -⟩ := hp
    (split.head ++ split.rescued ++ [ChatMessage.systemText s.created content]) m rest
    (by rw [hc, ← hrest]; rfl) result hr
  simp only [mem_append, mem_singleton] at ha
  rcases ha with (ha | ha) | ha
  · simp [hcut.head_system a ha] at hrole
  · simp [h.rescued_user hcut a ha] at hrole
  · rw [ha] at hrole
    cases hrole

/-- A SYSTEM message in the span is an earlier summary, and is lost. -/
theorem Inv.not_summaries_kept (h : Inv s) (hcut : Cut config s.ctx split span)
    (hctx : (ctx'.conversation, ctx'.pinnedMessageIndices) =
      rewrite split (ChatMessage.systemText s.created content)) (hm : m ∈ span)
    (hrole : m.role = .system) : m ∈ s.summaries ∧ m ∉ ctx'.conversation := by
  have hu := h.uids
  rw [hcut.parts, map_append, map_append, nodup_append, nodup_append] at hu
  obtain ⟨⟨-, -, he⟩, -, hrec⟩ := hu
  have hmem : m ∈ s.ctx.conversation := by
    rw [hcut.parts]
    exact mem_append_left _ (mem_append_right _ hm)
  have hhead : m ∉ split.head := fun hh =>
    he _ (mem_map_of_mem hh) _ (mem_map_of_mem hm) rfl
  have hwin : m ∉ split.recent := fun hh =>
    hrec _ (mem_append_right _ (mem_map_of_mem hm)) _
      (mem_map_of_mem hh) rfl
  constructor
  · refine (h.systems m hmem hrole).resolve_left fun hopening => ?_
    exact hhead ((h.opening_head hcut).subset hopening)
  · have hc : ctx'.conversation = _ := congrArg Prod.fst hctx
    rw [hc]
    show m ∉ split.head ++ split.rescued ++ [_] ++ split.recent
    simp only [mem_append, mem_singleton, not_or]
    refine ⟨⟨⟨hhead, fun hr => ?_⟩, fun hs => ?_⟩, hwin⟩
    · simp [h.rescued_user hcut m hr] at hrole
    · have hlt := h.uids_lt m hmem
      rw [hs] at hlt
      exact Nat.lt_irrefl _ hlt

end Compacting

-- ==== runs

/-- STEP LEMMA: the promise is kept, and the state stays good exactly where the cut is clean. -/
theorem Inv.step_cases (env : Surroundings) (config : CompactionConfig) (h : Inv s)
    (event : Event) : StepKept env config s event ∧
      (CleanCut config s event → Inv (step env config s event)) ∧
      (¬ CleanCut config s event → ¬ WellFormed (step env config s event)) := by
  cases event with
  | turn content runs spoken =>
    refine ⟨trivial, fun _ => ?_, fun hd => absurd trivial hd⟩
    exact h.append (addition_turn s.created content runs spoken) (by omega) rfl rfl
  | user content =>
    refine ⟨trivial, fun _ => ?_, fun hd => absurd trivial hd⟩
    exact h.append (addition_user s.created content) (Nat.le_succ _) rfl rfl
  | pin content => exact ⟨trivial, fun _ => h.pin content, fun hd => absurd trivial hd⟩
  | fill tokens =>
    refine ⟨trivial, fun _ => ?_, fun hd => absurd trivial hd⟩
    exact ⟨h.blocks, h.pins_named, h.pins_in_range, h.pinned_user, h.uids, h.uids_lt,
      h.opening_first, h.opening_system, h.systems, h.summaries_system, h.summaries_kept⟩
  | compact force summaryText usage =>
    rcases compact_cases env config h.pins_in_range force summaryText usage s.created with
      ⟨hp, hc⟩ | ⟨split, span, ctx', hp, hcut, hc, hctx⟩
    · have hstep : step env config s (.compact force summaryText usage) = s := by
        simp only [step, hc]
      refine ⟨?_, fun _ => by rwa [hstep], fun hd => absurd ?_ hd⟩
      · show Kept config s.ctx (step env config s (.compact force summaryText usage)).ctx
        rw [hstep]
        exact ⟨drop_suffix _ _, rfl, Nat.le_refl _⟩
      · exact fun hsome => absurd hp hsome
    · have hstep : step env config s (.compact force summaryText usage) =
          { s with
            ctx := ctx'
            summaries := s.summaries ++
              [ChatMessage.systemText s.created (env.wrapUntrusted summaryText)]
            created := s.created + 1 } := by
        simp only [step, hc]
      refine ⟨?_, fun hclean => ?_, fun hd hwell => hd ?_⟩
      · show Kept config s.ctx (step env config s (.compact force summaryText usage)).ctx
        rw [hstep]
        exact hcut.kept hctx
      · rw [hstep]
        obtain ⟨hf, hs⟩ := (hcut.clean_iff hp summaryText usage).1 hclean
        exact h.compact hcut hctx hf hs
      · rw [hstep] at hwell
        refine (hcut.clean_iff hp summaryText usage).2 ⟨fun m hm htool => ?_,
          fun m hm hrole => ?_⟩
        · exact h.not_toolsPreceded hcut hctx hm htool hwell.tools_preceded
        · obtain ⟨hsummaries, hlost⟩ := h.not_summaries_kept hcut hctx hm hrole
          exact hlost (hwell.summaries_kept m (mem_append_left _ hsummaries))

/-- RUN LEMMA: the whole promise is kept exactly when every compaction cuts cleanly. -/
theorem Inv.wellRun_iff (env : Surroundings) (config : CompactionConfig) (h : Inv s)
    (events : List Event) : WellRun env config s events ↔ CleanRun env config s events := by
  induction events generalizing s with
  | nil => exact iff_of_true h.wellFormed trivial
  | cons event rest ih =>
    obtain ⟨hkept, hc, hd⟩ := h.step_cases env config event
    constructor
    · intro hrun
      obtain ⟨-, -, hrest⟩ := hrun
      have hcut : CleanCut config s event := by
        by_contra hnot
        refine hd hnot ?_
        cases rest with
        | nil => exact hrest
        | cons _ _ => exact hrest.1
      exact ⟨hcut, (ih (hc hcut)).1 hrest⟩
    · intro hrun
      exact ⟨h.wellFormed, hkept, (ih (hc hrun.1)).2 hrun.2⟩

/-- WHEN COMPACTION KEEPS THE CONVERSATION WELL FORMED: exactly when every compaction that goes
ahead cuts cleanly. -/
theorem wellRun_iff_cleanRun (env : Surroundings) (config : CompactionConfig)
    (texts : List String) (capacity : Option Nat) (events : List Event) :
    WellRun env config (start texts capacity) events ↔
      CleanRun env config (start texts capacity) events :=
  (inv_start texts capacity).wellRun_iff env config events

def smallWindow : CompactionConfig :=
  { fillThresholdPercent := 80, minMessagesToCompact := 2, preserveRecentTurns := 1,
    agentControlled := false, safetyThresholdPercent := 95, fill_range := by decide,
    min_messages := by decide, recent_turns := Nat.zero_lt_one,
    safety_range := by decide, safety_above_fill := by simp }

def twoCalls : List Event :=
  [.turn none
    [⟨⟨"call-1", "read", "{}"⟩, "one", false, false, false⟩,
      ⟨⟨"call-2", "read", "{}"⟩, "two", false, false, false⟩] rfl,
   .compact true "[Archived 1 messages.]" ⟨0, 0, 0⟩]

/-- Both results outlive the assistant message that asked for them. -/
theorem window_opens_inside_turn :
    ¬ ∀ (env : Surroundings) (config : CompactionConfig) (texts : List String)
        (capacity : Option Nat) (events : List Event),
        WellRun env config (start texts capacity) events := by
  intro hclaim
  have hrun := hclaim
    { estimateTokens := fun text => text.length / 4
      estimateConversationTokens := fun messages => messages.length
      wrapUntrusted := fun text =>
        "<compaction-summary>\n" ++ text ++ "\n</compaction-summary>" }
    smallWindow ["system"] none twoCalls
  have hpreceded := hrun.2.2.2.2.tools_preceded
  obtain ⟨a, ha, hrole, -⟩ := hpreceded
    [ChatMessage.systemText 0 "system", ChatMessage.systemText 4 _] _ _ rfl _ rfl
  simp only [mem_cons, not_mem_nil, or_false] at ha
  rcases ha with rfl | rfl <;> cases hrole

end Synthorg.Compaction
