import Agent24.Agent.Resume

/-! The effects that the parts of a task can ask for. -/

set_option autoImplicit false
namespace Agent24.Agent
open Library Prog

def CallEffect (risk : Option RiskClass) : Effect → Prop
  | .execute _ r _ => risk = some r
  | .requestApproval .. => ∃ r, risk = some r ∧ r.requiresApproval = true
  | .transition target patch => (target = .awaitingApproval ∨ target = .running) ∧ patch = {}
  | .insertToolCall _ | .finishToolCall .. | .toolContext | .awaitResolution _ | .bindApproval _
  | .auditDenied _ | .preapproved .. => True
  | _ => False

def AnswerEffect : Effect → Prop
  | .transition .. | .appendMessage _ | .tagToolResult .. | .remember _ | .isCancelled => True
  | _ => False

section Answers

theorem finishFailed_only (code message : String) : (finishFailed code message).Only AnswerEffect :=
  .ask trivial fun _ => .done ()

theorem finishCancelled_only : finishCancelled.Only AnswerEffect := .ask trivial fun _ => .done ()

theorem finishCompleted_only (text : String) (usage : Usage) :
    (finishCompleted text usage).Only AnswerEffect := .ask trivial fun _ => .done ()

theorem persistForNextSend_only (msg : Msg) : (persistForNextSend msg).Only AnswerEffect := by
  refine .ask trivial fun answer => ?_
  cases answer with
  | none => exact .done true
  | some err => exact .bind (finishFailed_only ..) fun _ => .done false

theorem pushForNextSend_only (messages : List Msg) (msg : Msg) :
    (pushForNextSend messages msg).Only AnswerEffect := by
  refine .bind (persistForNextSend_only msg) fun stored => ?_
  cases stored with
  | false => exact .done none
  | true => exact .done _

theorem answerToolCall_only (messages : List Msg) (call : ToolCallRequest) (answer : ToolAnswer) :
    (answerToolCall messages call answer).Only AnswerEffect := by
  have tags : (tagSource answer.source).Only AnswerEffect := by
    cases answer.source with
    | none => exact .done none
    | some tagged => exact .perform trivial
  refine .bind tags fun failed => ?_
  cases failed with
  | none => exact pushForNextSend_only ..
  | some err => exact .bind (finishFailed_only ..) fun _ => .done none

theorem finishModelError_only (err : ModelError) : (finishModelError err).Only AnswerEffect := by
  cases err with
  | cancelled => exact finishCancelled_only
  | _ => exact finishFailed_only ..

theorem finishAnswer_only (usage : Usage) (answer : Msg) :
    (finishAnswer usage answer).Only AnswerEffect := by
  refine .ask trivial fun _ => .ask trivial fun remembered => ?_
  cases remembered with
  | none => exact finishCancelled_only
  | some persisted =>
    refine .ask trivial fun cancelled => ?_
    cases cancelled with
    | false => exact finishCompleted_only ..
    | true => exact finishCancelled_only

end Answers

section Calls
variable {tools : ToolRegistry} {risk : Option RiskClass}

theorem runPendingApproval_only (toolCallId : String) (payload : Json) (plan : Bool)
    (gated : ∃ r, risk = some r ∧ r.requiresApproval = true) :
    (runPendingApproval toolCallId payload plan).Only (CallEffect risk) := by
  refine .ask gated fun offer => ?_
  cases offer with
  | none => exact .done _
  | some offer => exact .ask trivial fun resolution => .done _

theorem check_only (info : ToolInfo) (class' : RiskClass) (toolCallId : String) (input : Json)
    (gated : ∃ r, risk = some r ∧ r.requiresApproval = true) :
    (check tools info class' toolCallId input).Only (CallEffect risk) := by
  unfold check
  split
  · refine .ask trivial fun approved => ?_
    cases approved with
    | false => exact runPendingApproval_only _ _ _ gated
    | true => exact .done _
  · exact .done _

theorem auditRefusal_only (name : String) (refusal : ToolError) :
    (auditRefusal name refusal).Only (CallEffect risk) := by
  refine .ask trivial fun err => ?_
  cases err <;> exact .done _

theorem gateRefusal_only (info : ToolInfo) (name toolCallId : String) (input : Json)
    (gated : ∃ r, risk = some r ∧ r.requiresApproval = true) :
    (gateRefusal tools info name toolCallId input).Only (CallEffect risk) := by
  refine .ask trivial fun bound => ?_
  cases bound with
  | some err => exact .done _
  | none =>
    refine .bind (check_only info _ toolCallId input gated) fun decision => ?_
    cases decision with
    | allow => exact .done _
    | deny reason => exact auditRefusal_only ..
    | abortRun reason => exact auditRefusal_only ..

theorem dispatchRounds_only (info : ToolInfo) (name toolCallId : String) (input : Json) (rounds : Nat) :
    (dispatchRounds tools info name toolCallId input rounds).Only
      (CallEffect (some (tools.effectiveRisk info))) := by
  induction rounds with
  | zero => exact .done _
  | succ rounds ih =>
    have refusals : (roundRefusal tools info name toolCallId input).Only
        (CallEffect (some (tools.effectiveRisk info))) := by
      unfold roundRefusal
      split
      · next gated => exact gateRefusal_only info name toolCallId input ⟨_, rfl, gated⟩
      · exact .done none
    refine .bind refusals fun refusal => ?_
    cases refusal with
    | some err => exact .done _
    | none =>
      refine .ask rfl fun outcome => ?_
      split
      · split
        · exact ih
        · exact .done _
      · exact .done _

theorem dispatch_only (requested toolCallId : String) (input : Json) :
    (dispatch tools requested toolCallId input).Only (CallEffect (tools.toolRiskClass requested)) := by
  unfold dispatch ToolRegistry.toolRiskClass
  dsimp only
  cases tools.tools (trim requested) with
  | none => exact .done _
  | some info =>
    dsimp only [Option.map_some]
    split
    · exact .done _
    split
    · refine .ask trivial fun err => ?_
      cases err <;> exact .done _
    · exact dispatchRounds_only info _ toolCallId input maxApprovalRounds

theorem executePreapproved_only (requested : String) (input : Json) :
    (executePreapproved tools requested input).Only (CallEffect (tools.toolRiskClass requested)) := by
  unfold executePreapproved ToolRegistry.toolRiskClass
  dsimp only
  cases tools.tools (trim requested) with
  | none => exact .done _
  | some info =>
    dsimp only [Option.map_some]
    split
    · exact .done _
    split
    · exact .done _
    · exact .perform rfl

theorem dispatchAwaiting_only (P : Platform) (call : ToolCallRequest) (toolCallId : String)
    (inContext : Bool) :
    (dispatchAwaiting P tools call toolCallId inContext).Only
      (CallEffect (tools.toolRiskClass call.name)) := by
  unfold dispatchAwaiting
  split
  · exact .done _
  next input parsed =>
  have body : (if inContext then dispatch tools call.name toolCallId input
      else dispatchInContext tools call toolCallId input).Only
        (CallEffect (tools.toolRiskClass call.name)) := by
    split
    · exact dispatch_only ..
    refine .ask trivial fun failed => ?_
    cases failed with
    | some err => exact .done _
    | none => exact dispatch_only ..
  dsimp only
  split
  · refine .ask ⟨.inl rfl, rfl⟩ fun _ => .bind body fun outcome => ?_
    split
    · exact .done _
    · exact .ask ⟨.inr rfl, rfl⟩ fun _ => .done _
  · exact body

theorem runStoredCall_only (P : Platform) (call : ToolCallRequest) (inContext : Bool) :
    (runStoredCall P tools call inContext).Only (CallEffect (tools.toolRiskClass call.name)) := by
  refine .ask trivial fun stored => ?_
  cases stored with
  | none => exact .done _
  | some toolCallId =>
    refine .bind (dispatchAwaiting_only P call toolCallId inContext) fun outcome =>
      .ask trivial fun _ => ?_
    split <;> exact .done _

end Calls

end Agent24.Agent
