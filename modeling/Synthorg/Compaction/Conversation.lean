/-
A conversation and its compaction (providers/models.py `ChatMessage`,
engine/context.py and context_transitions.py, loop_correction_budget.py,
compaction/models.py, _conversation.py and summarizer.py).

`splitConversation` cuts a conversation into the leading SYSTEM run, the span a summary may
replace and the trailing window kept as it is; `compress` lifts the pinned messages of the span
out, splices the summary in and moves the pins along. Which text the summary is decides nothing
here. A message carries which message object it is, which only proofs read.

In a session a turn is the assistant's message and one TOOL message a call, appended before
any compaction. `opening`, `summaries`, `pinned` and `created` are ghosts.
-/
import Mathlib.Data.Finset.Image
import Mathlib.Data.Rat.Defs

namespace Synthorg.Compaction

-- ==== messages

inductive MessageRole where
  | system
  | user
  | assistant
  | tool
  deriving DecidableEq

structure ToolCall where
  id : String
  name : String
  arguments : String
  deriving DecidableEq

structure ToolResult where
  toolCallId : String
  content : String
  isError : Bool
  isTimeout : Bool
  isUnresolved : Bool
  deriving DecidableEq

/-- `_validate_role_constraints` (image parts apart). -/
def roleAllows (role : MessageRole) (content : Option String) (toolCalls : List ToolCall)
    (toolResult : Option ToolResult) : Bool :=
  match role with
  | .tool => toolResult.isSome && toolCalls.isEmpty
  | .assistant => toolResult.isNone && (content.isSome || !toolCalls.isEmpty)
  | .system | .user => toolCalls.isEmpty && toolResult.isNone && content.isSome

/-- `ChatMessage`; `uid` says which message object it is. -/
structure ChatMessage where
  uid : Nat
  role : MessageRole
  content : Option String
  toolCalls : List ToolCall
  toolResult : Option ToolResult
  allowed : roleAllows role content toolCalls toolResult = true
  deriving DecidableEq

namespace ChatMessage

/-- A SYSTEM or USER message of a text. -/
def text (uid : Nat) (role : MessageRole) (content : String)
    (h : role = .system ∨ role = .user) : ChatMessage :=
  { uid := uid, role := role, content := some content, toolCalls := [], toolResult := none,
    allowed := by rcases h with rfl | rfl <;> rfl }

def systemText (uid : Nat) (content : String) : ChatMessage :=
  text uid .system content (Or.inl rfl)

def userText (uid : Nat) (content : String) : ChatMessage :=
  text uid .user content (Or.inr rfl)

/-- The TOOL message of a result. -/
def toolMessage (uid : Nat) (result : ToolResult) : ChatMessage :=
  { uid := uid, role := .tool, content := none, toolCalls := [], toolResult := some result,
    allowed := rfl }

end ChatMessage

-- ==== the correction budget

def silentTurnNudge : String :=
  "Your last turn produced no visible output: its whole token budget went " ++
  "to reasoning. Think briefly, then either call a tool or state your " ++
  "result in the reply itself."

def droppedCallNudge : String :=
  "Your last turn asked to call a tool but the call did not arrive in a " ++
  "usable form: it was missing the name or id that identifies it, or its " ++
  "arguments were not a well-formed JSON object. Re-issue it as one " ++
  "well-formed call with complete arguments, or state your result in the " ++
  "reply itself."

def noCallNudge : String :=
  "Your last turn ended as a tool call but carried no call at all, so " ++
  "nothing ran. Send exactly one tool call now, or answer in the reply " ++
  "itself if you have what you need."

def correctionNudges : List String := [silentTurnNudge, droppedCallNudge, noCallNudge]

def walkCorrectionTail : List ChatMessage → Nat × Nat
  | [] => (0, 0)
  | message :: older =>
    if message.role = .user then
      if message.content.all (· ∉ correctionNudges) then (0, 0)
      else
        let (nudges, messages) := walkCorrectionTail older
        (nudges + 1, messages + 1)
    else if message.role = .assistant ∧ message.toolCalls = [] then
      let (nudges, messages) := walkCorrectionTail older
      (nudges, messages + 1)
    else (0, 0)

def correctionTailMessages (conversation : List ChatMessage) : Nat :=
  (walkCorrectionTail conversation.reverse).2

-- ==== the config

structure CompactionConfig where
  fillThresholdPercent : ℚ
  minMessagesToCompact : Nat
  preserveRecentTurns : Nat
  agentControlled : Bool
  safetyThresholdPercent : ℚ
  fill_range : 0 < fillThresholdPercent ∧ fillThresholdPercent ≤ 100
  min_messages : 2 ≤ minMessagesToCompact
  recent_turns : 1 ≤ preserveRecentTurns
  safety_range : 0 < safetyThresholdPercent ∧ safetyThresholdPercent ≤ 100
  safety_above_fill : agentControlled = true → fillThresholdPercent < safetyThresholdPercent

/-- `TokenUsage` of a summary. -/
structure TokenUsage where
  inputTokens : Nat
  outputTokens : Nat
  cost : ℚ

structure CompressionMetadata where
  compressionPoint : Nat
  archivedTurns : Nat
  summaryTokens : Nat
  compactionsPerformed : Nat
  summaryCost : ℚ
  summaryInputTokens : Nat
  summaryOutputTokens : Nat
  deriving DecidableEq

-- ==== the context

/-- As far as a compaction reads and writes it. -/
structure AgentContext where
  conversation : List ChatMessage
  pinnedMessageIndices : Finset Nat
  turnCount : Nat
  contextFillTokens : Nat
  contextCapacityTokens : Option Nat
  compressionMetadata : Option CompressionMetadata

namespace AgentContext

def contextFillPercent (ctx : AgentContext) : Option ℚ :=
  ctx.contextCapacityTokens.map fun capacity =>
    (ctx.contextFillTokens : ℚ) / (capacity : ℚ) * 100

def withMessage (ctx : AgentContext) (msg : ChatMessage) : AgentContext :=
  { ctx with conversation := ctx.conversation ++ [msg] }

def withPinnedMessage (ctx : AgentContext) (msg : ChatMessage) : AgentContext :=
  { ctx with
    conversation := ctx.conversation ++ [msg]
    pinnedMessageIndices := insert ctx.conversation.length ctx.pinnedMessageIndices }

def consecutiveCorrections (ctx : AgentContext) : Nat :=
  (walkCorrectionTail ctx.conversation.reverse).1

/-- Refused when a pin falls outside. -/
def withCompression (ctx : AgentContext) (metadata : CompressionMetadata)
    (compressed : List ChatMessage) (fillTokens : Nat) (pinned : Finset Nat) :
    Except String AgentContext :=
  if ∃ i ∈ pinned, compressed.length ≤ i then
    .error "pinned indices outside the compressed conversation"
  else
    .ok { ctx with
      conversation := compressed
      compressionMetadata := some metadata
      contextFillTokens := fillTokens
      pinnedMessageIndices := pinned }

end AgentContext

-- ==== the compaction

structure Surroundings where
  estimateTokens : String → Nat
  estimateConversationTokens : List ChatMessage → Nat
  wrapUntrusted : String → String

structure ConversationSplit where
  head : List ChatMessage
  archivable : List ChatMessage
  recent : List ChatMessage
  pinnedHead : Finset Nat
  rescued : List ChatMessage
  pinnedRecent : Finset Nat

def preserveCount (config : CompactionConfig) (conversation : List ChatMessage) : Nat :=
  max (config.preserveRecentTurns * 2) (correctionTailMessages conversation)

/-- The length of the leading SYSTEM run. -/
def startIdx (conversation : List ChatMessage) : Nat :=
  (conversation.takeWhile fun message => message.role = .system).length

def splitConversation (ctx : AgentContext) (config : CompactionConfig) : Option ConversationSplit :=
  let conversation := ctx.conversation
  let pinned := ctx.pinnedMessageIndices
  let start := startIdx conversation
  let preserve := preserveCount config conversation
  if conversation.length - start ≤ preserve then none
  else
    let recentStart := conversation.length - preserve
    let span := List.range' start (recentStart - start)
    let archivable := (span.filter fun i => decide (i ∉ pinned)).filterMap (conversation[·]?)
    let rescued := (span.filter fun i => decide (i ∈ pinned)).filterMap (conversation[·]?)
    if archivable.isEmpty then none
    else
      some
        { head := conversation.take start
          archivable := archivable
          recent := conversation.drop recentStart
          pinnedHead := pinned.filter (· < start)
          rescued := rescued
          pinnedRecent := (pinned.filter (recentStart ≤ ·)).image (· - recentStart) }

def prepareCompaction (ctx : AgentContext) (config : CompactionConfig) (force : Bool) :
    Option ConversationSplit :=
  let effectiveThreshold :=
    if config.agentControlled then config.safetyThresholdPercent
    else config.fillThresholdPercent
  if !force && ctx.contextFillPercent.all (· < effectiveThreshold) then none
  else if ctx.conversation.length < config.minMessagesToCompact then none
  else splitConversation ctx config

/-- The compacted conversation and where its pins are, of `_compress`. -/
def rewrite (split : ConversationSplit) (summary : ChatMessage) : List ChatMessage × Finset Nat :=
  let recentBase := split.head.length + split.rescued.length + 1
  (split.head ++ split.rescued ++ [summary] ++ split.recent,
    split.pinnedHead ∪
      (Finset.range split.rescued.length).image (split.head.length + ·) ∪
      split.pinnedRecent.image (recentBase + ·))

def compressMetadata (ctx : AgentContext) (split : ConversationSplit) (summaryTokens : Nat)
    (usage : TokenUsage) : CompressionMetadata :=
  let prior := ctx.compressionMetadata
  { compressionPoint := ctx.turnCount
    archivedTurns := (prior.map (·.archivedTurns)).getD 0 +
      (split.archivable.filter fun m => m.role = .assistant).length
    summaryTokens := summaryTokens
    compactionsPerformed := match prior with
      | some prior => prior.compactionsPerformed + 1
      | none => 1
    summaryCost := (prior.map (·.summaryCost)).getD 0 + usage.cost
    summaryInputTokens := (prior.map (·.summaryInputTokens)).getD 0 + usage.inputTokens
    summaryOutputTokens := (prior.map (·.summaryOutputTokens)).getD 0 + usage.outputTokens }

/-- `finalise` with `_compress`; `uid` is the new summary message's. -/
def finalise (env : Surroundings) (ctx : AgentContext) (split : ConversationSplit)
    (summaryText : String) (usage : TokenUsage) (uid : Nat) : Except String AgentContext :=
  let summary := ChatMessage.systemText uid (env.wrapUntrusted summaryText)
  let (compressed, pins) := rewrite split summary
  ctx.withCompression
    (compressMetadata ctx split (env.estimateTokens summaryText) usage)
    compressed (env.estimateConversationTokens compressed) pins

def compact (env : Surroundings) (config : CompactionConfig) (ctx : AgentContext)
    (force : Bool) (summaryText : String) (usage : TokenUsage) (uid : Nat) :
    Except String (Option AgentContext) :=
  match prepareCompaction ctx config force with
  | none => .ok none
  | some split => (finalise env ctx split summaryText usage uid).map some

structure ToolRun where
  call : ToolCall
  content : String
  isError : Bool
  isTimeout : Bool
  isUnresolved : Bool

def ToolRun.result (run : ToolRun) : ToolResult :=
  { toolCallId := run.call.id, content := run.content, isError := run.isError,
    isTimeout := run.isTimeout, isUnresolved := run.isUnresolved }

structure Session where
  ctx : AgentContext
  opening : List ChatMessage
  summaries : List ChatMessage
  pinned : List ChatMessage
  created : Nat

inductive Event where
  /-- The assistant's message and the results of its calls. -/
  | turn (content : Option String) (runs : List ToolRun)
      (spoken : (content.isSome || !runs.isEmpty) = true)
  /-- A USER message: a nudge, or anything else. -/
  | user (content : String)
  /-- A pinned USER message. -/
  | pin (content : String)
  /-- The loop's estimate of how full the context is. -/
  | fill (tokens : Nat)
  | compact (force : Bool) (summaryText : String) (usage : TokenUsage)

def assistantMessage (uid : Nat) (content : Option String) (runs : List ToolRun)
    (spoken : (content.isSome || !runs.isEmpty) = true) : ChatMessage :=
  { uid := uid, role := .assistant, content := content, toolCalls := runs.map (·.call),
    toolResult := none,
    allowed := by
      rw [roleAllows, List.isEmpty_map]
      exact spoken }

/-- Its TOOL messages. -/
def toolMessages : Nat → List ToolRun → List ChatMessage
  | _, [] => []
  | uid, run :: runs => ChatMessage.toolMessage uid run.result :: toolMessages (uid + 1) runs

/-- A session opened with SYSTEM messages. -/
def openingMessages : Nat → List String → List ChatMessage
  | _, [] => []
  | uid, text :: texts => ChatMessage.systemText uid text :: openingMessages (uid + 1) texts

def start (texts : List String) (capacity : Option Nat) : Session :=
  { ctx :=
      { conversation := openingMessages 0 texts
        pinnedMessageIndices := ∅
        turnCount := 0
        contextFillTokens := 0
        contextCapacityTokens := capacity
        compressionMetadata := none }
    opening := openingMessages 0 texts
    summaries := []
    pinned := []
    created := texts.length }

def step (env : Surroundings) (config : CompactionConfig) (s : Session) : Event → Session
  | .turn content runs spoken =>
    let messages := assistantMessage s.created content runs spoken ::
      toolMessages (s.created + 1) runs
    { s with
      ctx :=
        { s.ctx with
          conversation := s.ctx.conversation ++ messages
          turnCount := s.ctx.turnCount + 1 }
      created := s.created + 1 + runs.length }
  | .user content =>
    { s with
      ctx := s.ctx.withMessage (ChatMessage.userText s.created content)
      created := s.created + 1 }
  | .pin content =>
    { s with
      ctx := s.ctx.withPinnedMessage (ChatMessage.userText s.created content)
      pinned := s.pinned ++ [ChatMessage.userText s.created content]
      created := s.created + 1 }
  | .fill tokens => { s with ctx := { s.ctx with contextFillTokens := tokens } }
  | .compact force summaryText usage =>
    match compact env config s.ctx force summaryText usage s.created with
    | .ok (some ctx) =>
      { s with
        ctx := ctx
        summaries := s.summaries ++
          [ChatMessage.systemText s.created (env.wrapUntrusted summaryText)]
        created := s.created + 1 }
    | _ => s

end Synthorg.Compaction
