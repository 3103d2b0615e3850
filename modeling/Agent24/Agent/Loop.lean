import Agent24.Agent.World

/-! A run's task: the completion loop, its tool calls, and the approvals they wait for. -/

set_option autoImplicit false
namespace Agent24.Agent
open Library

def maxIterations : Nat := 10

def maxToolCallsPerTurn : Nat := 16

def proposePlan : String := "propose_plan"

def sourceUnprovenCode : String := "source_unproven"

def sourceUnprovenMessage : String :=
  "无法证明本线程已落盘消息的来源，已停止发送。请新建会话。不要自动复制旧 recall 或待执行工具。"

def providerRoleMessage : String := "模型返回的角色不是 assistant，已停止。不会执行这一轮的工具。"

def planApprovedContent : String :=
  "Plan approved. The full tool set is now available — carry out the plan."

def planDeniedContent : String :=
  "denied: plan mode is read-only — call propose_plan and have it approved before using this tool"

def skippedContent : String := "skipped: per-turn tool call limit (16) exceeded"

/-- A tool call's answer to the model, with the tool and call whose source tag must be stored first. -/
structure ToolAnswer where
  content : String
  source : Option (String × String)
  deriving DecidableEq, Repr

def ToolAnswer.fixed (content : String) : ToolAnswer := ⟨content, none⟩

inductive ParkedCallStop where
  | cancelRun
  | recoveryStopped
  deriving DecidableEq, Repr

inductive PlanOutcome where
  | approved (content : String)
  | rejected (content : String)
  | cancelled
  deriving DecidableEq, Repr

section Finish

/-- Lands the failed state. The usage column keeps what it held. -/
def finishFailed (code message : String) : Task Unit := do
  let _ ← perform (.transition .failed { error := some ⟨code, message⟩ })

def finishCancelled : Task Unit := do
  let _ ← perform (.transition .cancelled {})

def finishCompleted (text : String) (usage : Usage) : Task Unit := do
  let _ ← perform (.transition .completed { output := some text, usage := some usage })

def persistForNextSend (msg : Msg) : Task Bool := do
  match ← perform (.appendMessage msg) with
  | some err => do
    finishFailed "internal" ("failed to persist run message: " ++ err)
    pure false
  | none => pure true

/-- `persist_for_next_send`, then the push to the messages of the next request. -/
def pushForNextSend (messages : List Msg) (msg : Msg) : Task (Option (List Msg)) := do
  if ← persistForNextSend msg then pure (some (messages ++ [msg])) else pure none

def tagSource : Option (String × String) → Task (Option String)
  | none => pure none
  | some (tool, toolCallId) => perform (.tagToolResult tool toolCallId)

/-- `none` where the run ended. -/
def answerToolCall (messages : List Msg) (call : ToolCallRequest) (answer : ToolAnswer) :
    Task (Option (List Msg)) := do
  match ← tagSource answer.source with
  | some err => do
    finishFailed "source_policy_unavailable" ("failed to persist a tool result's source: " ++ err)
    pure none
  | none => pushForNextSend messages (.toolResult call.id answer.content)

end Finish

section Approval

/-- `apply_decision`. -/
def Decision.verdict (decision : Decision) : GateDecision :=
  if decision.kind = "approve" ∨ decision.kind = "approve_for_session" ∨
      decision.kind = "approve_for_target" then .allow
  else if decision.kind = "deny" then
    .deny ("denied by user: " ++ decision.reason.getD "no reason given")
  else if decision.kind = "abort" then .abortRun "aborted by user"
  else .deny ("unknown decision type " ++ decision.kind ++ " (fail-closed)")

def verdictFromRow (decision : Option Decision) : ApprovalStatus → GateDecision
  | .approved => decision.elim .allow Decision.verdict
  | .denied => .deny ("denied by user: " ++ (decision.bind Decision.reason).getD "no reason given")
  | .aborted => .abortRun "aborted by user"
  | .timedOut => .deny "approval timed out (fail-closed)"
  | .pending => .deny "approval in inconsistent state (fail-closed)"

def Resolution.verdict : Resolution → GateDecision
  | .decided decision => decision.verdict
  | .timedOut => .deny "approval timed out (fail-closed)"
  | .lost status decision => verdictFromRow decision status
  | .cancelled => .abortRun "run cancelled while approval pending"
  | .channelDropped => .abortRun "approval channel dropped"
  | .storeError => .deny "approval store error (fail-closed)"

def runPendingApproval (toolCallId : String) (payload : Json) (plan : Bool) : Task GateDecision := do
  match ← perform (.requestApproval toolCallId payload plan) with
  | none => pure (.deny "approval could not be recorded (fail-closed)")
  | some offer => do
    let resolution ← perform (.awaitResolution offer.id)
    pure resolution.verdict

end Approval

section Dispatch
variable (tools : ToolRegistry)

/-- The installed gate's `check`. Grants and the guardian approve without a row. -/
def check (info : ToolInfo) (risk : RiskClass) (toolCallId : String) (input : Json) :
    Task GateDecision := do
  if tools.interactiveGate then
    if ← perform (.preapproved info.name risk input) then pure .allow
    else runPendingApproval toolCallId input false
  else pure (.deny ("tool " ++ info.name ++
    " requires approval and no approval channel is installed (fail-closed)"))

def requestPlan (toolCallId : String) (payload : Json) : Task GateDecision := do
  if tools.interactiveGate then runPendingApproval toolCallId payload true
  else pure (.deny "plan mode requires an interactive approval channel (fail-closed)")

def auditRefusal (name : String) (refusal : ToolError) : Task (Option ToolError) := do
  match ← perform (.auditDenied name) with
  | some err => pure (some err)
  | none => pure (some refusal)

def gateRefusal (info : ToolInfo) (name toolCallId : String) (input : Json) :
    Task (Option ToolError) := do
  match ← perform (.bindApproval name) with
  | some err => pure (some err)
  | none => do
    match ← check tools info (tools.effectiveRisk info) toolCallId input with
    | .allow => pure none
    | .deny reason => auditRefusal name (.denied reason)
    | .abortRun reason => auditRefusal name (.abortRun reason)

def roundRefusal (info : ToolInfo) (name toolCallId : String) (input : Json) :
    Task (Option ToolError) :=
  if (tools.effectiveRisk info).requiresApproval then gateRefusal tools info name toolCallId input
  else pure none

def dispatchRounds (info : ToolInfo) (name toolCallId : String) (input : Json) :
    Nat → Task (Except ToolError String)
  | 0 => pure (.error (.denied ("the grant for " ++ name ++ " kept changing while it was being approved")))
  | rounds + 1 => do
    match ← roundRefusal tools info name toolCallId input with
    | some err => pure (.error err)
    | none => do
      match ← perform (.execute name (tools.effectiveRisk info) input) with
      | .error .approvalStale =>
        if (tools.effectiveRisk info).requiresApproval then
          dispatchRounds info name toolCallId input rounds
        else pure (.error (.denied ("tool " ++ name ++ " was never approved")))
      | outcome => pure outcome

def dispatch (requested toolCallId : String) (input : Json) : Task (Except ToolError String) := do
  let name := trim requested
  match tools.tools name with
  | none => pure (.error (.invalid ("unknown tool: " ++ name)))
  | some info =>
    if info.outbound && !tools.outboundGate then pure (.error (.denied "outbound policy unavailable"))
    else if !tools.allowed name then do
      match ← perform (.auditDenied name) with
      | some err => pure (.error err)
      | none => pure (.error (.denied ("tool " ++ name ++ " is not in the capability whitelist")))
    else dispatchRounds tools info name toolCallId input maxApprovalRounds

/-- Runs a call whose approval is at hand: the gate is not asked. -/
def executePreapproved (requested : String) (input : Json) : Task (Except ToolError String) := do
  let name := trim requested
  match tools.tools name with
  | none => pure (.error (.invalid ("unknown tool: " ++ name)))
  | some info =>
    if !tools.allowed name then
      pure (.error (.denied ("tool " ++ name ++ " is not in the capability whitelist")))
    else if info.outbound && !tools.outboundGate then
      pure (.error (.denied "outbound policy unavailable"))
    else perform (.execute name (tools.effectiveRisk info) input)

end Dispatch

section ToolCall
variable (P : Platform) (tools : ToolRegistry) (run : Run)

def parseArguments (arguments : String) : Json × Option String :=
  if isBlank arguments then (.obj [], none)
  else match P.parseJson arguments with
    | some (.obj fields) => (.obj fields, none)
    | some other => (.obj [("_raw", other)], some "tool arguments must be a JSON object")
    | none => (.obj [("_raw", .str arguments)],
        some ("tool arguments are not valid JSON: " ++ P.jsonError arguments))

def terminalCallStatus : Except ToolError String → ToolCallStatus
  | .ok _ => .completed
  | .error (.denied _) | .error (.abortRun _) => .denied
  | .error _ => .failed

def outcomeContent : Except ToolError String → String
  | .ok output => output
  | .error (.denied message) | .error (.abortRun message) => "denied by policy: " ++ message
  | .error .cancelled => "cancelled"
  | .error err => "tool error: " ++ err.display

def stops : Except ToolError String → Bool
  | .ok _ => false
  | .error err => err.stopsRun

def produced : Except ToolError String → Bool
  | .ok _ | .error (.failed _) => true
  | .error _ => false

section
variable (call : ToolCallRequest)

def dispatchInContext (toolCallId : String) (input : Json) :
    Task (Except ToolError String) := do
  match ← perform .toolContext with
  | some err => pure (.error (.denied ("workspace authority unavailable: " ++ err)))
  | none => dispatch tools call.name toolCallId input

/-- The body of a stored call. While a gate may ask a human, the run is shown as waiting. -/
def dispatchAwaiting (toolCallId : String) (inContext : Bool) :
    Task (Except ToolError String) := do
  match parseArguments P call.arguments with
  | (_, some rejected) => pure (.error (.invalid rejected))
  | (input, none) =>
    let body := if inContext then dispatch tools call.name toolCallId input
      else dispatchInContext tools call toolCallId input
    if tools.interactiveGate && tools.toolRequiresApproval call.name then do
      let _ ← perform (.transition .awaitingApproval {})
      let outcome ← body
      if stops outcome then pure outcome
      else do
        let _ ← perform (.transition .running {})
        pure outcome
    else body

/-- The stored part of `run_tool_call`. -/
def runStoredCall (inContext : Bool) :
    Task (Except ParkedCallStop ToolAnswer) := do
  match ← perform (.insertToolCall call.name) with
  | none => pure (.ok (.fixed "tool error: internal persistence failure"))
  | some toolCallId => do
    let outcome ← dispatchAwaiting P tools call toolCallId inContext
    perform (.finishToolCall toolCallId (terminalCallStatus outcome))
    if stops outcome then pure (.error .cancelRun)
    else pure (.ok ⟨outcomeContent outcome,
      if (parseArguments P call.arguments).2.isNone && produced outcome then
        some (call.name, toolCallId) else none⟩)

/-- `run_tool_call`. A resumed workspace run needs its authority before the call is stored. -/
def runToolCall (recoveryResume : Bool) :
    Task (Except ParkedCallStop ToolAnswer) := do
  if recoveryResume && run.workspaceBound && (parseArguments P call.arguments).2.isNone then do
    match ← perform .toolContext with
    | some _ => do
      let _ ← perform .recoverWorkspaceRun
      pure (.error .recoveryStopped)
    | none => runStoredCall P tools call true
  else runStoredCall P tools call false

/-- The `plan` argument, empty where it cannot be read. -/
def planArgument (arguments : String) : String :=
  (((P.parseJson arguments).bind fun value => value.get? "plan").bind Json.asStr?).getD ""

def GateDecision.planOutcome : GateDecision → PlanOutcome
  | .allow => .approved planApprovedContent
  | .deny reason => .rejected ("Plan rejected: " ++ reason)
  | .abortRun _ => .cancelled

def GateDecision.planCallStatus : GateDecision → ToolCallStatus
  | .allow => .completed
  | .deny _ | .abortRun _ => .denied

def GateDecision.abortsRun : GateDecision → Bool
  | .abortRun _ => true
  | _ => false

def runPlanProposal : Task PlanOutcome := do
  match ← perform (.insertToolCall proposePlan) with
  | none => pure (.rejected "plan could not be recorded (fail-closed)")
  | some toolCallId => do
    let _ ← perform (.transition .awaitingApproval {})
    let decision ← requestPlan tools toolCallId (.obj [("plan", .str (planArgument P call.arguments))])
    if decision.abortsRun then do
      perform (.finishToolCall toolCallId decision.planCallStatus)
      pure decision.planOutcome
    else do
      let _ ← perform (.transition .running {})
      perform (.finishToolCall toolCallId decision.planCallStatus)
      pure decision.planOutcome

end

end ToolCall

section Turn
variable (P : Platform) (tools : ToolRegistry) (run : Run)

inductive Treatment where
  | skipped | plan | planDenied | dispatched
  deriving DecidableEq, Repr

def liveTreatment (planMode : Bool) (idx : Nat) (call : ToolCallRequest) : Treatment :=
  if maxToolCallsPerTurn ≤ idx then .skipped
  else if trim call.name = proposePlan then .plan
  else if planMode ∧ tools.toolRiskClass call.name ≠ some .read then .planDenied
  else .dispatched

/-- What goes on after a call: the plan mode and the messages. `none` where the run ended. -/
abbrev Continuation : Type := Option (Bool × List Msg)

def continueWith (planMode : Bool) (messages : Option (List Msg)) : Continuation :=
  messages.map (Prod.mk planMode)

/-- A `propose_plan` call of the turn. -/
def treatPlan (usage : Usage) (messages : List Msg) (call : ToolCallRequest) : Task Continuation := do
  match ← runPlanProposal P tools call with
  | .approved content => do
    let pushed ← pushForNextSend messages (.toolResult call.id content)
    pure (continueWith false pushed)
  | .rejected content => do
    let _ ← perform (.appendMessage (.toolResult call.id content))
    finishCompleted content usage
    pure none
  | .cancelled => do
    finishCancelled
    pure none

def treatDispatched (planMode recoveryResume : Bool) (messages : List Msg) (call : ToolCallRequest) :
    Task Continuation := do
  match ← runToolCall P tools run call recoveryResume with
  | .ok answer => do
    let pushed ← answerToolCall messages call answer
    pure (continueWith planMode pushed)
  | .error .cancelRun => do
    finishCancelled
    pure none
  | .error .recoveryStopped => pure none

def treatCall (planMode : Bool) (usage : Usage) (messages : List Msg) (call : ToolCallRequest) :
    Treatment → Task Continuation
  | .skipped => do
    let pushed ← pushForNextSend messages (.toolResult call.id skippedContent)
    pure (continueWith planMode pushed)
  | .plan => treatPlan P tools usage messages call
  | .planDenied => do
    let pushed ← pushForNextSend messages (.toolResult call.id planDeniedContent)
    pure (continueWith planMode pushed)
  | .dispatched => treatDispatched P tools run planMode false messages call

def fanOut (usage : Usage) : Bool → List Msg → List (ToolCallRequest × Nat) → Task Continuation
  | planMode, messages, [] => pure (some (planMode, messages))
  | planMode, messages, (call, idx) :: rest => do
    if ← perform .isCancelled then do
      finishCancelled
      pure none
    else do
      match ← treatCall P tools run planMode usage messages call (liveTreatment tools planMode idx call)
        with
      | none => pure none
      | some (planMode, messages) => fanOut usage planMode messages rest

end Turn

section Loop
variable (P : Platform) (tools : ToolRegistry) (run : Run)

def finishModelError : ModelError → Task Unit
  | .cancelled => finishCancelled
  | .unavailable message =>
    finishFailed "provider_unavailable" ("No provider could serve this request. " ++ message)
  | .provider message | .rejected message => finishFailed "provider_error" message
  | .headroomConfirmationRequired text => finishFailed "idoris_headroom_confirmation_required" text
  | .supervisorBusy text => finishFailed "idoris_supervisor_busy" text

/-- The closing turn. A cancellation seen before the transition still wins. -/
def finishAnswer (usage : Usage) (answer : Msg) : Task Unit := do
  let _ ← perform (.appendMessage answer)
  match ← perform (.remember (answer.content.getD "")) with
  | none => finishCancelled
  | some _ => do
    if ← perform .isCancelled then finishCancelled
    else finishCompleted (answer.content.getD "") usage

/-- `run_loop` with some iterations left. Usage adds up over the iterations of this activation. -/
def runLoop : Nat → Bool → Usage → List Msg → Task Unit
  | 0, _, _, _ =>
    finishFailed "max_iterations" "run exceeded 10 completion iterations without a final answer"
  | iterations + 1, planMode, usage, messages => do
    if !(← perform .originsAllowSend) then finishFailed sourceUnprovenCode sourceUnprovenMessage
    else if !(← perform (.sendCopy messages)) then
      finishFailed sourceUnprovenCode sourceUnprovenMessage
    else do
      match ← perform (.complete planMode messages) with
      | .error err => finishModelError err
      | .ok ⟨answer, used⟩ =>
        let usage := addUsage usage used
        if answer.role ≠ "assistant" then finishFailed "provider_error" providerRoleMessage
        else if answer.toolCalls = [] then finishAnswer usage answer
        else do
          -- the turn is stored before any of its calls runs
          match ← pushForNextSend messages answer with
          | none => pure ()
          | some messages => do
            match ← fanOut P tools run usage planMode messages answer.toolCalls.zipIdx with
            | none => pure ()
            | some (planMode, messages) => runLoop iterations planMode usage messages

def execute : Task Unit := do
  if ← perform .isCancelled then finishCancelled
  else if ← perform (.transition .running {}) then do
    match ← perform .prepare with
    | .cancelled => finishCancelled
    | .failed code message => finishFailed code message
    | .ready snapshot => runLoop P tools run maxIterations (run.mode == .plan) zeroUsage snapshot
  else pure ()

end Loop

end Agent24.Agent
