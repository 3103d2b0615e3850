import Agent24.Agent.Loop

/-! The task of a resumed run: the parked turn is settled from the decided approval, then the loop goes on. -/

set_option autoImplicit false
namespace Agent24.Agent
open Library

section Settle
variable (P : Platform) (tools : ToolRegistry) (run : Run)

def restoredDecisionIsConsistent (approval : Approval) (decision : Decision) : Bool :=
  approval.availableDecisions.contains decision.kind &&
    match approval.status with
    | .approved => decision.kind == "approve" || decision.kind == "approve_for_session" ||
        decision.kind == "approve_for_target"
    | .denied => decision.kind == "deny"
    | .aborted => decision.kind == "abort"
    | .pending | .timedOut => false

/-- `reask_parked_call`. The approval it asks for names the provider's id, and no stored call. -/
def reaskParkedCall (call : ToolCallRequest) (input : Json) : Task (Except ToolError String) := do
  let _ ← perform (.transition .awaitingApproval {})
  let outcome ← dispatch tools call.name call.id input
  if stops outcome then pure outcome
  else do
    let _ ← perform (.transition .running {})
    pure outcome

def runApprovedCall (call : ToolCallRequest) (input : Json) : Task (Except ToolError String) := do
  match ← executePreapproved tools call.name input with
  | .error .approvalStale => reaskParkedCall tools call input
  | outcome => pure outcome

def settledContent : Except ToolError String → String
  | .ok output => output
  | .error err => "tool error: " ++ err.display

/-- `settle_parked_call`: the recorded decision is applied, and nobody is asked again. -/
def settleParkedCall (approval : Approval) (call : ToolCallRequest) :
    Task (Except ParkedCallStop ToolAnswer) := do
  let decision := approval.decision.getD ⟨"deny", some "no decision was recorded"⟩
  if !restoredDecisionIsConsistent approval decision then pure (.error .cancelRun)
  else if decision.kind = "approve" ∨ decision.kind = "approve_for_session" ∨
      decision.kind = "approve_for_target" then do
    match ← perform .toolContext with
    | some err =>
      if run.workspaceBound then do
        let _ ← perform .recoverWorkspaceRun
        pure (.error .recoveryStopped)
      else pure (.ok (.fixed ("tool error: workspace authority unavailable: " ++ err)))
    | none => do
      let outcome ← runApprovedCall tools call approval.payload
      if stops outcome then pure (.error .cancelRun)
      else pure (.ok ⟨settledContent outcome,
        if produced outcome then some (call.name, approval.toolCallId) else none⟩)
  else if decision.kind = "deny" then
    pure (.ok (.fixed ("denied by user: " ++ decision.reason.getD "no reason given")))
  else pure (.error .cancelRun)

end Settle

section Turn
variable (P : Platform) (tools : ToolRegistry) (run : Run)

/-- What a resumed task does with an unanswered call of the parked turn. -/
inductive ResumeStep where
  | settlePlan | settleCall | runCall
  deriving DecidableEq, Repr

def resumeStep (toolCallId : String) (settled : Bool) (call : ToolCallRequest) : ResumeStep :=
  if settled = false ∧ call.id = toolCallId then
    if trim call.name = proposePlan then .settlePlan else .settleCall
  else .runCall

/-- The parked `propose_plan` call. Anything but an approval ends the run. -/
def settlePlanCall (approval : Approval) (messages : List Msg) (call : ToolCallRequest) :
    Task (Option (List Msg)) := do
  if approval.status = .approved then answerToolCall messages call (.fixed planApprovedContent)
  else do
    let _ ← perform (.appendMessage (.toolResult call.id "Plan rejected."))
    finishCompleted "Plan rejected." run.usage
    pure none

def answerOrStop (messages : List Msg) (call : ToolCallRequest) :
    Except ParkedCallStop ToolAnswer → Task (Option (List Msg))
  | .ok answer => answerToolCall messages call answer
  | .error .cancelRun => do
    finishCancelled
    pure none
  | .error .recoveryStopped => pure none

def resumeCall (approval : Approval) (messages : List Msg) (call : ToolCallRequest) :
    ResumeStep → Task (Option (List Msg))
  | .settlePlan => settlePlanCall run approval messages call
  | .settleCall => do
    let answer ← settleParkedCall tools run approval call
    answerOrStop messages call answer
  | .runCall => do
    let answer ← runToolCall P tools run call true
    answerOrStop messages call answer

def resumeCalls (approval : Approval) (toolCallId : String) :
    Bool → List Msg → List ToolCallRequest → Task (Option (List Msg))
  | _, messages, [] => pure (some messages)
  | settled, messages, call :: rest => do
    if ← perform .isCancelled then do
      finishCancelled
      pure none
    else do
      match ← resumeCall P tools run approval messages call (resumeStep toolCallId settled call) with
      | none => pure none
      | some messages =>
        resumeCalls approval toolCallId (settled || call.id == toolCallId) messages rest

end Turn

section Drive
variable (P : Platform) (tools : ToolRegistry) (run : Run)

def Approval.approvedCall (approval : Approval) (tool : Option String) : ApprovedCall :=
  ⟨approval.payload, approval.toolCallId, tool⟩

def toolExists (name : String) : Bool := (tools.toolRiskClass name).isSome

def continueResumed (thread : List RunMessage) (approval : Approval) (toolCallId : String) :
    Task Unit := do
  if ← perform (.transition .running {}) then do
    match unansweredCallsOfLastTurn (threadToMessages thread) with
    | none => finishCancelled
    | some unanswered => do
      match ← resumeCalls P tools run approval toolCallId false (threadToMessages thread) unanswered with
      | none => pure ()
      | some messages => runLoop P tools run maxIterations false zeroUsage messages
  else pure ()

def refuseResume : Task Unit := do
  if ← perform (.transition .running {}) then finishFailed sourceUnprovenCode sourceUnprovenMessage
  else pure ()

def resumeProven (thread : List RunMessage) (approval : Approval) (toolCallId : String) :
    Task Unit := do
  if !(← perform .originsAllowSend) then refuseResume
  else if !(← perform .resumeSourcesProven) then refuseResume
  else continueResumed P tools run thread approval toolCallId

def resumeRestored (thread : List RunMessage) (approval : Approval) (toolCallId : String) :
    Task Unit := do
  if run.workspaceBound then do
    match ← perform .toolContext with
    | some _ => do
      let _ ← perform .recoverWorkspaceRun
      pure ()
    | none => resumeProven P tools run thread approval toolCallId
  else resumeProven P tools run thread approval toolCallId

/-- `drive_resume`, from the rows read when the resume was asked for. -/
def driveResume (cutoff : String) (thread : List RunMessage) (approval : Approval) : Task Unit := do
  match ← perform (.approvedTool approval) with
  | none => finishCancelled
  | some tool =>
    match assessRestore P (approval.approvedCall tool) approval.createdAt run.status thread
        (toolExists tools) cutoff with
    | .abort _ => finishCancelled
    | .restore toolCallId => resumeRestored P tools run thread approval toolCallId

end Drive

end Agent24.Agent
