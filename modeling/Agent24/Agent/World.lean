import Agent24.Agent.Tools
import Agent24.Library.Effect
import Agent24.Library.Runs

/-! What a run leaves in the store, and the effects by which its task reads and changes it. -/

set_option autoImplicit false
namespace Agent24.Agent
open Library

structure Usage where
  promptTokens : Nat
  completionTokens : Nat
  totalTokens : Nat
  deriving DecidableEq, Repr

/-- `saturating_add` of `u64`. -/
def saturatingAdd (a b : Nat) : Nat := min (a + b) (2 ^ 64 - 1)

def zeroUsage : Usage := ⟨0, 0, 0⟩

def addUsage (total delta : Usage) : Usage where
  promptTokens := saturatingAdd total.promptTokens delta.promptTokens
  completionTokens := saturatingAdd total.completionTokens delta.completionTokens
  totalTokens := saturatingAdd total.totalTokens delta.totalTokens

inductive RunMode where
  | normal | plan
  deriving DecidableEq, Repr

structure ErrorBody where
  code : String
  message : String
  deriving DecidableEq, Repr

/-- The columns of a `runs` row that its task reads or changes. -/
structure Run where
  id : String
  status : RunStatus
  output : Option String
  error : Option ErrorBody
  usage : Usage
  mode : RunMode
  -- the row names a workspace
  workspaceBound : Bool
  deriving DecidableEq, Repr

structure RunPatch where
  output : Option String := none
  error : Option ErrorBody := none
  usage : Option Usage := none
  deriving DecidableEq, Repr

def Run.patched (run : Run) (target : RunStatus) (patch : RunPatch) : Run :=
  { run with
    status := target
    output := patch.output.or run.output
    error := patch.error.or run.error
    usage := patch.usage.getD run.usage }

def runTransitionAllowed : RunStatus → RunStatus → Bool
  | .queued, .running | .queued, .cancelled | .running, .completed | .running, .failed
  | .running, .cancelled | .running, .awaitingApproval | .awaitingApproval, .running
  | .awaitingApproval, .cancelled => true
  | _, _ => false

/-- `run_is_terminal`. -/
def RunStatus.isTerminal : RunStatus → Bool
  | .completed | .failed | .cancelled => true
  | _ => false

inductive ToolCallStatus where
  | running | completed | failed | denied
  deriving DecidableEq, Repr

structure ToolCallRow where
  id : String
  runId : String
  tool : String
  status : ToolCallStatus
  deriving DecidableEq, Repr

inductive ApprovalStatus where
  | pending | approved | denied | aborted | timedOut
  deriving DecidableEq, Repr

structure Decision where
  kind : String
  reason : Option String
  deriving DecidableEq, Repr

def Decision.status (decision : Decision) : Option ApprovalStatus :=
  if decision.kind = "approve" ∨ decision.kind = "approve_for_session" ∨
      decision.kind = "approve_for_target" then some .approved
  else if decision.kind = "deny" then some .denied
  else if decision.kind = "abort" then some .aborted
  else none

structure Approval where
  id : String
  runId : String
  toolCallId : String
  payload : Json
  availableDecisions : List String
  status : ApprovalStatus
  decision : Option Decision
  expiresAt : String
  createdAt : String
  deriving DecidableEq

inductive TraceEvent where
  | completion (usage : Usage)
  | executed (tool : String) (risk : RiskClass)
  | resumed
  deriving DecidableEq, Repr

structure World where
  run : Run
  thread : List RunMessage
  toolCalls : List ToolCallRow
  approvals : List Approval
  trace : List TraceEvent
  deriving DecidableEq

namespace World

/-- The tool named by the first `tool_calls` row of a run with an id. -/
def calledTool (w : World) (runId id : String) : Option String :=
  ((w.toolCalls.filter fun call => call.runId == runId).find? fun call => call.id == id).map
    ToolCallRow.tool

def approvedTool (w : World) (approval : Approval) : Option String :=
  w.calledTool approval.runId approval.toolCallId

def approval? (w : World) (id : String) : Option Approval := w.approvals.find? fun a => a.id == id

def completions (w : World) : List Usage := w.trace.filterMap fun
  | .completion usage => some usage
  | .executed .. | .resumed => none

def totalUsage (w : World) : Usage := w.completions.foldl addUsage zeroUsage

/-- `transition_run`; `false` where the transition is illegal. -/
def transition (target : RunStatus) (patch : RunPatch) (w : World) : Bool × World :=
  if runTransitionAllowed w.run.status target then
    (true, { w with run := w.run.patched target patch })
  else (false, w)

def append (w : World) (msg : Msg) : World :=
  { w with thread := w.thread ++ [msg.persisted w.thread.length] }

/-- `insert_tool_call` under a new id; the primary key refuses a stored one. -/
def insertToolCall (id tool : String) (w : World) : Option World :=
  if w.toolCalls.any fun call => call.id == id then none
  else some { w with toolCalls := w.toolCalls ++ [⟨id, w.run.id, tool, .running⟩] }

def finishToolCall (id : String) (status : ToolCallStatus) (w : World) : World :=
  { w with toolCalls := w.toolCalls.map fun call =>
      if call.id = id ∧ call.status = .running then { call with status := status } else call }

def insertApproval (approval : Approval) (w : World) : Option World :=
  if w.approvals.any fun a => a.id == approval.id then none
  else some { w with approvals := w.approvals ++ [approval] }

/-- `resolve_approval`: only a pending row is resolved. -/
def resolveApproval (id : String) (status : ApprovalStatus) (decision : Option Decision)
    (w : World) : World :=
  { w with approvals := w.approvals.map fun a =>
      if a.id = id ∧ a.status = .pending then { a with
        status := status
        decision := decision } else a }

/-- `ApprovalBroker::resolve`: a decision that is offered, on a pending approval in time. -/
def decide (id : String) (decision : Decision) (now : String) (w : World) : Option World :=
  match w.approval? id, decision.status with
  | some approval, some status =>
    if approval.status ≠ .pending ∨ decision.kind ∉ approval.availableDecisions ∨
        (decision.kind = "deny" ∧ decision.reason.getD "" = "") ∨ approval.expiresAt < now then none
    else some (w.resolveApproval id status (some decision))
  | _, _ => none

/-- `timeout_expired_approvals`. -/
def timeoutExpired (now : String) (w : World) : World :=
  { w with approvals := w.approvals.map fun a =>
      if a.status = .pending ∧ a.expiresAt < now then { a with status := .timedOut } else a }

end World

/-- What others do to the rows of a run whose task is live. -/
inductive Interference where
  | decide (id : String) (decision : Decision) (now : String)
  | timeoutExpired (now : String)
  -- the watchdog of an approval whose waiter is gone
  | watchdog (id : String)

def interfere (w : World) : Interference → World
  | .decide id decision now => (w.decide id decision now).getD w
  | .timeoutExpired now => w.timeoutExpired now
  | .watchdog id => w.resolveApproval id .timedOut none

inductive Resolution where
  | decided (decision : Decision)
  | timedOut
  -- another resolution won the race against the timeout
  | lost (status : ApprovalStatus) (decision : Option Decision)
  | cancelled
  | channelDropped
  | storeError
  deriving DecidableEq, Repr

inductive ModelError where
  | unavailable (message : String)
  | provider (message : String)
  | rejected (message : String)
  | headroomConfirmationRequired (text : String)
  | supervisorBusy (text : String)
  | cancelled
  deriving DecidableEq, Repr

structure Completion where
  message : Msg
  usage : Usage
  deriving DecidableEq, Repr

inductive Preparation where
  | ready (snapshot : List Msg)
  | cancelled
  | failed (code message : String)
  deriving DecidableEq, Repr

/-- The parts of a new approval that the task does not choose. -/
structure Offer where
  id : String
  availableDecisions : List String
  expiresAt : String
  createdAt : String
  deriving DecidableEq, Repr

inductive Effect where
  | isCancelled
  -- before a provider is called
  | originsAllowSend
  | sendCopy (messages : List Msg)
  | complete (planMode : Bool) (messages : List Msg)
  -- the run's own rows
  | prepare
  | appendMessage (msg : Msg)
  | transition (target : RunStatus) (patch : RunPatch)
  | recoverWorkspaceRun
  | insertToolCall (tool : String)
  | finishToolCall (id : String) (status : ToolCallStatus)
  | tagToolResult (tool toolCallId : String)
  | remember (text : String)
  | resumeSourcesProven
  -- one tool call and its approval
  | toolContext
  | bindApproval (tool : String)
  | auditDenied (tool : String)
  | preapproved (tool : String) (risk : RiskClass) (input : Json)
  | requestApproval (toolCallId : String) (payload : Json) (plan : Bool)
  | awaitResolution (approvalId : String)
  | approvedTool (approval : Approval)
  | execute (tool : String) (risk : RiskClass) (input : Json)

@[reducible] def Effect.Reply : Effect → Type
  | .isCancelled | .originsAllowSend | .sendCopy _ | .transition .. | .resumeSourcesProven
  | .preapproved .. | .recoverWorkspaceRun => Bool
  | .complete .. => Except ModelError Completion
  | .prepare => Preparation
  | .finishToolCall .. => Unit
  | .insertToolCall _ => Option String
  -- none: the run was cancelled meanwhile
  | .remember _ => Option Bool
  -- some: the error
  | .appendMessage _ | .tagToolResult .. | .toolContext => Option String
  | .bindApproval _ | .auditDenied _ => Option ToolError
  | .requestApproval .. => Option Offer
  | .awaitResolution _ => Resolution
  -- none: the rows cannot be read
  | .approvedTool _ => Option (Option String)
  | .execute .. => Except ToolError String

abbrev Task (α : Type) : Type := Prog Effect Effect.Reply α

abbrev perform (effect : Effect) : Task effect.Reply := Prog.perform effect

/-- Settle an effect. The store has the last word: what it refuses is refused whatever is proposed, and
what it holds is what is read. -/
def respond : (effect : Effect) → effect.Reply → World → effect.Reply × World
  | .isCancelled, reply, w => (reply, w)
  | .originsAllowSend, reply, w => (reply, w)
  | .sendCopy messages, readable, w => (readable && threadToMessages w.thread == messages, w)
  | .complete .., .ok completion, w =>
    (.ok completion, { w with trace := w.trace ++ [.completion completion.usage] })
  | .complete .., .error err, w => (.error err, w)
  | .prepare, .ready snapshot, w => (.ready snapshot, snapshot.foldl World.append w)
  | .prepare, reply, w => (reply, w)
  | .appendMessage msg, none, w => (none, w.append msg)
  | .appendMessage _, some err, w => (some err, w)
  | .transition target patch, stored, w => if stored then w.transition target patch else (false, w)
  | .recoverWorkspaceRun, applied, w =>
    if applied then w.transition .cancelled ⟨none, none, none⟩ else (false, w)
  | .insertToolCall tool, some id, w =>
    match w.insertToolCall id tool with
    | some w' => (some id, w')
    | none => (none, w)
  | .insertToolCall _, none, w => (none, w)
  | .finishToolCall id status, _, w => ((), w.finishToolCall id status)
  | .tagToolResult .., reply, w => (reply, w)
  | .remember _, reply, w => (reply, w)
  | .resumeSourcesProven, reply, w => (reply, w)
  | .toolContext, reply, w => (reply, w)
  | .bindApproval _, reply, w => (reply, w)
  | .auditDenied _, reply, w => (reply, w)
  | .preapproved .., reply, w => (reply, w)
  | .requestApproval toolCallId payload plan, some offer, w =>
    let offer := if plan then { offer with availableDecisions := ["approve", "deny"] } else offer
    match w.insertApproval ⟨offer.id, w.run.id, toolCallId, payload, offer.availableDecisions, .pending,
        none, offer.expiresAt, offer.createdAt⟩ with
    | some w' => (some offer, w')
    | none => (none, w)
  | .requestApproval .., none, w => (none, w)
  | .awaitResolution id, proposed, w =>
    match w.approval? id with
    | none => (.storeError, w)
    | some approval =>
      match proposed with
      -- the decision that `resolve` sends is the one it wrote on the row
      | .decided _ => (approval.decision.elim .channelDropped .decided, w)
      | .timedOut | .lost .. =>
        if approval.status = .pending then (.timedOut, w.resolveApproval id .timedOut none)
        else (.lost approval.status approval.decision, w)
      | .cancelled => (.cancelled, w.resolveApproval id .aborted none)
      | .channelDropped => (.channelDropped, w)
      | .storeError => (.storeError, w)
  | .approvedTool approval, readable, w => (readable.map fun _ => w.approvedTool approval, w)
  -- an approval found stale stops the call before the tool
  | .execute .., .error .approvalStale, w => (.error .approvalStale, w)
  | .execute tool risk _, reply, w => (reply, { w with trace := w.trace ++ [.executed tool risk] })

end Agent24.Agent
