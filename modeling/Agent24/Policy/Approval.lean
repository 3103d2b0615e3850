import Agent24.Agent.World
import Agent24.Library.Table

/-! Approvals: what a gated call is offered, what a grant of it would cover, and the transitions of the
`approvals` table. -/

set_option autoImplicit false
namespace Agent24.Policy
open Library
open Agent (RiskClass ToolInfo ApprovalStatus Decision)

structure Approval where
  id : String
  runId : String
  toolCallId : String
  kind : String
  summary : String
  payload : Json
  availableDecisions : List String
  standingTarget : Option String
  status : ApprovalStatus
  decision : Option Decision
  expiresAt : String
  createdAt : String
  decidedAt : Option String
  deriving DecidableEq

abbrev Approvals := Table Approval.id

section Offers

def standingGrantEligible : RiskClass → Bool
  | .external => true
  | _ => false

def sessionWideGrantAllowed : RiskClass → Bool
  | .read => true
  | _ => false

def decisionsFor (risk : RiskClass) (standingTarget : Option String) (source : String)
    (perCallApproval : Bool) : List String :=
  let standing :=
    if source = "module" ∧ perCallApproval = true then []
    else if standingGrantEligible risk then
      if standingTarget.isSome then ["approve_for_target"] else []
    else if sessionWideGrantAllowed risk then ["approve_for_session"]
    else []
  ["approve"] ++ standing ++ ["deny", "abort"]

def writeDecisions (offered : List String) (risk : RiskClass) (tool : String) (directory : Option String) :
    List String :=
  if risk = .writeLocal ∧ tool = "fs_write" ∧ directory.isSome = true ∧ "approve_for_target" ∉ offered then
    offered.insertIdx 1 "approve_for_target"
  else offered

inductive WriteLocation where
  | insideConfirmedRoot
  | outside (directory : String)
  | askWithoutDirectoryGrant
  deriving DecidableEq

/-- What resolving paths on the disk answers at the time of a call. -/
structure Disk where
  directoryGrantForbidden : String → Bool
  classifyBuiltinWrite : Option String → String → WriteLocation

structure ApprovalRequest where
  runId : String
  sessionId : Option String
  scheduleId : Option String
  toolCallId : String
  tool : String
  source : String
  kind : String
  risk : RiskClass
  perCallApproval : Bool
  standingTarget : Option String
  summary : String
  payload : Json
  workspaceRoot : Option String
  capturedWriteDirectory : Option (Option String)

def classifyWrite (disk : Disk) (req : ApprovalRequest) : Option WriteLocation :=
  if req.source ≠ "builtin" ∨ req.tool ≠ "fs_write" ∨ req.risk ≠ .writeLocal then none
  else match req.capturedWriteDirectory with
  | some none => some .askWithoutDirectoryGrant
  | some (some directory) =>
    if disk.directoryGrantForbidden directory then some .askWithoutDirectoryGrant
    else some (.outside directory)
  | none => ((req.payload.get? "path").bind Json.asStr?).map (disk.classifyBuiltinWrite req.workspaceRoot)

structure GrantCtx where
  scope : String
  tool : String
  /-- `scope_kind` and `scope_id`, which are set together. -/
  durable : Option (String × String)
  target : Option String
  deriving DecidableEq

def grantScope (sessionId scheduleId : Option String) : Option (String × String) :=
  match scheduleId with
  | some id => some ("schedule", id)
  | none => sessionId.map fun id => ("session", id)

def grantCtx (runId : String) (sessionId scheduleId : Option String) (tool : String) (risk : RiskClass)
    (standingTarget : Option String) : GrantCtx :=
  let durable := grantScope sessionId scheduleId
  { scope := sessionId.getD runId
    tool := tool
    durable := durable
    target := if standingGrantEligible risk && durable.isSome then standingTarget else none }

def ApprovalRequest.modulePerCall (req : ApprovalRequest) : Bool := req.source == "module" && req.perCallApproval

def ApprovalRequest.grantCtx (disk : Disk) (req : ApprovalRequest) : GrantCtx :=
  let ctx := Policy.grantCtx req.runId req.sessionId req.scheduleId req.tool req.risk
    (if req.modulePerCall then none else req.standingTarget)
  match classifyWrite disk req with
  | some (.outside directory) => if ctx.durable.isSome then { ctx with target := some directory } else ctx
  | _ => ctx

def ApprovalRequest.available (disk : Disk) (req : ApprovalRequest) : List String :=
  let target := (req.grantCtx disk).target
  writeDecisions (decisionsFor req.risk target req.source req.perCallApproval) req.risk req.tool target

def ApprovalRequest.approval (disk : Disk) (req : ApprovalRequest) (id expiresAt createdAt : String) : Approval where
  id := id
  runId := req.runId
  toolCallId := req.toolCallId
  kind := req.kind
  summary := req.summary
  payload := req.payload
  availableDecisions := req.available disk
  standingTarget := (req.grantCtx disk).target
  status := .pending
  decision := none
  expiresAt := expiresAt
  createdAt := createdAt
  decidedAt := none

/-- `BrokerGate::check`, by the tool's effective entry and the call's context. -/
structure GateCall where
  info : ToolInfo
  runId : String
  sessionId : Option String
  scheduleId : Option String
  toolCallId : String
  input : Json
  /-- `summarize_input`. -/
  inputSummary : String
  standingTarget : Option String
  confirmedWriteRoot : Option String
  approvedOutsideDirectory : Option (Option String)

def GateCall.request (call : GateCall) : ApprovalRequest where
  runId := call.runId
  sessionId := call.sessionId
  scheduleId := call.scheduleId
  toolCallId := call.toolCallId
  tool := call.info.name
  source := call.info.source
  kind :=
    if call.info.name = "shell_exec" then "exec"
    else if call.info.name = "fs_write" then "fs_write"
    else if call.info.name = "http_fetch" then "network"
    else "module"
  risk := call.info.riskClass
  perCallApproval := call.info.source == "module" && call.info.riskClass.requiresApproval
  standingTarget := call.standingTarget
  summary := call.info.name ++ ": " ++ call.inputSummary
  payload := call.input
  workspaceRoot := call.confirmedWriteRoot
  capturedWriteDirectory := call.approvedOutsideDirectory

/-- `request_plan`. -/
structure PlanCall where
  runId : String
  sessionId : Option String
  toolCallId : String
  summary : String
  payload : Json

def PlanCall.approval (call : PlanCall) (id expiresAt createdAt : String) : Approval where
  id := id
  runId := call.runId
  toolCallId := call.toolCallId
  kind := "plan"
  summary := call.summary
  payload := call.payload
  availableDecisions := ["approve", "deny"]
  standingTarget := none
  status := .pending
  decision := none
  expiresAt := expiresAt
  createdAt := createdAt
  decidedAt := none

def PlanCall.grantCtx (call : PlanCall) : GrantCtx where
  scope := call.sessionId.getD call.runId
  tool := "propose_plan"
  durable := none
  target := none

end Offers

section Transitions

inductive StoreError where
  | transition
  | notFound
  | conflict
  | constraint
  deriving DecidableEq

def approvalTransitionAllowed (from_ target : ApprovalStatus) : Bool :=
  from_ == .pending && target != .pending

def Approval.resolve (target : ApprovalStatus) (decision : Option Decision) (decidedAt : String)
    (row : Approval) : Approval :=
  { row with status := target, decision := decision, decidedAt := some decidedAt }

section
variable (t : Approvals)

def insertApproval (row : Approval) : Except StoreError Approvals :=
  if (t.find row.id).isSome then .error .constraint else .ok (t.put row)

/-- An `UPDATE` of one pending row under a further condition, with the answers of the two resolving
transactions. -/
def resolveWhere (id : String) (open_ : Approval → Bool) (target : ApprovalStatus) (decision : Option Decision)
    (decidedAt : String) : Except StoreError (Approval × Approvals) :=
  if approvalTransitionAllowed .pending target then
    match t.find id with
    | none => .error .notFound
    | some row =>
      if row.status == .pending && open_ row then
        let resolved := row.resolve target decision decidedAt
        .ok (resolved, t.set resolved)
      else .error .conflict
  else .error .transition

def resolveApproval (id : String) (target : ApprovalStatus) (decision : Option Decision) (decidedAt : String) : Except StoreError (Approval × Approvals) :=
  resolveWhere t id (fun _ => true) target decision decidedAt

/-- `resolve_approval_client_decision`; the decision may come at the expiry itself. -/
def resolveApprovalClientDecision (id : String) (target : ApprovalStatus) (decision : Decision) (now : String) : Except StoreError (Approval × Approvals) :=
  resolveWhere t id (fun row => decide (now ≤ row.expiresAt)) target (some decision) now

/-- `timeout_expired_approvals`: the rows it timed out, and the table. -/
def timeoutExpiredApprovals (now : String) : List Approval × Approvals :=
  let due := fun row : Approval => row.status == .pending && decide (row.expiresAt < now)
  (t.rows.filter due, t.update due (fun row => { row with status := .timedOut, decidedAt := some now })
    fun _ => rfl)

end

end Transitions

section Decisions

inductive ResolveError where
  | notFound (id : String)
  | alreadyResolved (id : String)
  | invalid (message : String)
  | store (error : StoreError)
  deriving DecidableEq

/-- The checks of `resolve` on the row it read. -/
def checkDecision (row : Approval) (decision : Decision) : Except ResolveError ApprovalStatus :=
  if row.status ≠ .pending then .error (.alreadyResolved row.id)
  else if decision.kind ∉ row.availableDecisions then
    .error (.invalid ("decision type " ++ decision.kind ++ " is not offered (available: " ++
      String.intercalate ", " row.availableDecisions ++ ")"))
  else if decision.kind = "deny" ∧ decision.reason.getD "" = "" then
    .error (.invalid "deny requires a non-empty reason")
  else match decision.status with
  | some status => .ok status
  | none => .error (.invalid ("unknown decision " ++ decision.kind))

end Decisions

section Lemmas
variable {t t' : Approvals} {id now decidedAt : String} {row resolved : Approval} {target : ApprovalStatus}
  {decision : Option Decision} {d : Decision} {disk : Disk} {req : ApprovalRequest}

def Approval.asked (row : Approval) : Approval :=
  { row with status := .pending, decision := none, decidedAt := none }

theorem resolveWhere_eq_ok {open_ : Approval → Bool}
    (landed : resolveWhere t id open_ target decision decidedAt = .ok (resolved, t')) :
    ∃ row, t.find id = some row ∧ row.status = .pending ∧ open_ row = true ∧ target ≠ .pending ∧
      resolved = row.resolve target decision decidedAt ∧ t' = t.set resolved := by
  unfold resolveWhere at landed
  split at landed
  next allowed =>
    split at landed
    · cases landed
    rename_i row found
    split at landed
    next open' =>
      obtain ⟨rfl, rfl⟩ := Prod.mk.inj (Except.ok.inj landed)
      rw [Bool.and_eq_true, beq_iff_eq] at open'
      exact ⟨row, found, open'.1, open'.2, by simpa [approvalTransitionAllowed] using allowed, rfl, rfl⟩
    · cases landed
  · cases landed

theorem checkDecision_eq_ok (checked : checkDecision row d = .ok target) :
    row.status = .pending ∧ d.kind ∈ row.availableDecisions ∧ d.status = some target := by
  unfold checkDecision at checked
  split at checked
  · exact nomatch checked
  rename_i pending
  split at checked
  · exact nomatch checked
  rename_i offered
  split at checked
  · exact nomatch checked
  split at checked
  next status shape =>
    obtain rfl := Except.ok.inj checked
    exact ⟨not_not.mp pending, not_not.mp offered, shape⟩
  · exact nomatch checked

theorem mem_writeDecisions {offered : List String} {risk : RiskClass} {tool : String} {directory : Option String}
    {kind : String} (member : kind ∈ writeDecisions offered risk tool directory) :
    kind ∈ offered ∨ (kind = "approve_for_target" ∧ directory.isSome = true) := by
  unfold writeDecisions at member
  split at member
  next outside =>
    obtain rfl | listed := List.eq_or_mem_of_mem_insertIdx member
    · exact .inr ⟨rfl, outside.2.2.1⟩
    · exact .inl listed
  next => exact .inl member

theorem decisionsFor_standing {risk : RiskClass} {standingTarget : Option String} {source : String}
    {perCallApproval : Bool} :
    ("approve_for_session" ∈ decisionsFor risk standingTarget source perCallApproval →
      ¬ (source = "module" ∧ perCallApproval = true)) ∧
    ("approve_for_target" ∈ decisionsFor risk standingTarget source perCallApproval →
      ¬ (source = "module" ∧ perCallApproval = true) ∧ standingTarget.isSome = true) := by
  unfold decisionsFor
  by_cases perCall : source = "module" ∧ perCallApproval = true
  · simp [perCall]
  · cases risk <;> cases standingTarget <;> simp [perCall, standingGrantEligible, sessionWideGrantAllowed]

theorem modulePerCall_eq_false (apart : ¬ (req.source = "module" ∧ req.perCallApproval = true)) :
    req.modulePerCall = false := by
  rwa [ApprovalRequest.modulePerCall, Bool.eq_false_iff, ne_eq, Bool.and_eq_true, beq_iff_eq]

theorem target_perCall (perCall : req.modulePerCall = true) : (req.grantCtx disk).target = none := by
  have source : req.source = "module" := by
    rw [ApprovalRequest.modulePerCall, Bool.and_eq_true, beq_iff_eq] at perCall
    exact perCall.1
  have elsewhere : classifyWrite disk req = none := by
    unfold classifyWrite
    rw [if_pos (.inl (by rw [source]; decide))]
  simp [ApprovalRequest.grantCtx, elsewhere, Policy.grantCtx, perCall]

theorem session_offered (offered : "approve_for_session" ∈ req.available disk) : req.modulePerCall = false := by
  obtain listed | ⟨other, -⟩ := mem_writeDecisions offered
  · exact modulePerCall_eq_false (decisionsFor_standing.1 listed)
  · exact nomatch other

/-- A target grant is offered only with a target, and never to a module call that is asked about every
time. -/
theorem target_offered (offered : "approve_for_target" ∈ req.available disk) :
    req.modulePerCall = false ∧ (req.grantCtx disk).target.isSome = true := by
  have some : (req.grantCtx disk).target.isSome = true := by
    obtain listed | ⟨-, directory⟩ := mem_writeDecisions offered
    · exact (decisionsFor_standing.2 listed).2
    · exact directory
  refine ⟨?_, some⟩
  by_contra perCall
  rw [target_perCall (Bool.not_eq_false _ ▸ perCall)] at some
  exact nomatch some

theorem grantCtx_eq :
    (req.grantCtx disk).scope = req.sessionId.getD req.runId ∧ (req.grantCtx disk).tool = req.tool ∧
      (req.grantCtx disk).durable = grantScope req.sessionId req.scheduleId := by
  unfold ApprovalRequest.grantCtx
  generalize (if req.modulePerCall then none else req.standingTarget) = standing
  dsimp only
  split
  · split <;> exact ⟨rfl, rfl, rfl⟩
  · exact ⟨rfl, rfl, rfl⟩

end Lemmas

end Agent24.Policy
