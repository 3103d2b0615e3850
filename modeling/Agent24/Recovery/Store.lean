import Agent24.Agent.World
import Agent24.Library.Table
import Mathlib.Algebra.Ring.Nat
import Mathlib.Data.List.Infix

/-! Recovery holds of runs from before workspaces: the rows, and what every transaction reads of them. -/

set_option autoImplicit false
namespace Agent24.Recovery
open Library Agent

/-- `WorkspaceInstant`: canonical text, ordered as the milliseconds it stands for. -/
abbrev Instant := Nat

inductive RecoveryState where
  | awaitingDecision | ready | active | needsAttention | released
  deriving DecidableEq

def RecoveryState.asStr : RecoveryState → String
  | awaitingDecision => "awaiting_decision"
  | ready => "ready"
  | active => "active"
  | needsAttention => "needs_attention"
  | released => "released"

/-- `LegacyRecoveryHold`. -/
structure Hold where
  runId : String
  cohortId : String
  workspaceId : String
  rootGeneration : String
  originalStatus : RunStatus
  recoveryState : RecoveryState
  approvalId : Option String
  readyAt : Option Instant
  reasonCode : Option String
  releasedAt : Option Instant
  activeResumeApprovalId : Option String
  deriving DecidableEq

structure RunRow where
  id : String
  status : RunStatus
  createdAt : Instant
  startedAt : Option Instant
  endedAt : Option Instant
  workspaceId : Option String
  /-- The other columns, which no call here changes. -/
  rest : String
  deriving DecidableEq

structure ApprovalRow where
  id : String
  runId : String
  status : ApprovalStatus
  decision : Option Decision
  availableDecisions : List String
  createdAt : Instant
  expiresAt : Instant
  decidedAt : Option Instant
  workspaceId : Option String
  /-- The other columns, which no call here changes. -/
  rest : String
  deriving DecidableEq

structure CohortRow where
  cohortId : String
  migrationVersion : Nat
  workspaceId : String
  rootGeneration : String
  createdAt : Instant
  completedAt : Option Instant
  deriving DecidableEq

inductive WorkspaceKind where
  | orchestratorScratch | legacyCompat
  deriving DecidableEq

inductive WorkspaceState where
  | active | expired | releasing | released | cleanupFailed
  deriving DecidableEq

structure WorkspaceRow where
  id : String
  kind : WorkspaceKind
  state : WorkspaceState
  rootGeneration : String
  createdAt : Instant
  expiresAt : Instant
  revision : Nat
  deriving DecidableEq

inductive LeaseKind where
  | run | host
  deriving DecidableEq

structure LeaseRow where
  id : String
  workspaceId : String
  rootGeneration : String
  ownerId : String
  kind : LeaseKind
  acquiredAt : Instant
  renewedAt : Option Instant
  releasedAt : Option Instant
  deriving DecidableEq

/-- An entry of the audit log without its number and its hashes. -/
structure AuditEntry where
  ts : Instant
  actor : String
  action : String
  detail : List (String × String)
  deriving DecidableEq

structure Db where
  runs : Table RunRow.id
  approvals : Table ApprovalRow.id
  cohorts : Table CohortRow.cohortId
  holds : Table Hold.runId
  workspaces : Table WorkspaceRow.id
  leases : Table LeaseRow.id
  auditLog : List AuditEntry

inductive WorkspaceStoreError where
  | database
  | notFound
  | corruptRow (table field : String)
  | invalidValue (field : String)
  deriving DecidableEq

def bad {α : Type} (field : String) : Except WorkspaceStoreError α :=
  .error (.corruptRow "legacy_recovery_holds" field)

def badTable {α : Type} (table field : String) : Except WorkspaceStoreError α := .error (.corruptRow table field)

namespace Db
variable (db : Db)

/-- `read_hold_tx`. -/
def readHold (runId : String) : Except WorkspaceStoreError Hold :=
  match db.holds.find runId with
  | none => .error .notFound
  | some hold => .ok hold

def older (a b : Hold) : Hold :=
  if a.readyAt.getD 0 < b.readyAt.getD 0 ∨ (a.readyAt.getD 0 = b.readyAt.getD 0 ∧ a.runId < b.runId) then a else b

def oldest : List Hold → Option Hold
  | [] => none
  | hold :: rest =>
    match oldest rest with
    | none => some hold
    | some other => some (older hold other)

/-- `read_next_ready_tx`. -/
def readNextReady : Option Hold := oldest (db.holds.rows.filter fun h => h.recoveryState == .ready)

/-- `append_audit_tx`. -/
def appendAudit (entry : AuditEntry) : Db := { db with auditLog := db.auditLog ++ [entry] }

def isOpenRun (lease : LeaseRow) : Bool := lease.kind == .run && lease.releasedAt.isNone

end Db

/-! The resolution of an approval, with the hold that waits for it. -/

/-- `resolve_approval_tx`: once, and only while it is pending. -/
inductive StoreError where
  | transition | notFound | conflict
  deriving DecidableEq

inductive ResolveError where
  | store (error : StoreError)
  | recovery (error : WorkspaceStoreError)
  | recoveryUnavailable
  deriving DecidableEq

inductive Resolution where
  | approvalOnly (approval : ApprovalRow)
  | ready (approval : ApprovalRow)
  deriving DecidableEq

/-- `approval_transition_allowed` from pending. -/
def isResolved : ApprovalStatus → Bool
  | .pending => false
  | _ => true

def resolveApproval (db : Db) (id : String) (status : ApprovalStatus) (decision : Option Decision) (decidedAt : Instant) :
    Except StoreError (ApprovalRow × Db) :=
  if isResolved status = false then .error .transition
  else match db.approvals.find id with
    | none => .error .notFound
    | some approval =>
      if approval.status ≠ .pending then .error .conflict
      else
        let resolved := { approval with status := status, decision := decision, decidedAt := some decidedAt }
        .ok (resolved, { db with approvals := db.approvals.set resolved })

inductive RecoveryDecisionEffect where
  | unchanged | markReady | markActiveResume
  deriving DecidableEq

def recoveryDecisionEffect (status : RunStatus) (recoveryState : RecoveryState) (approvalResolved : Bool) :
    RecoveryDecisionEffect :=
  if status.isTerminal || !approvalResolved then .unchanged
  else match recoveryState with
    | .awaitingDecision => .markReady
    | .active => .markActiveResume
    | .ready | .needsAttention | .released => .unchanged

/-- `apply_ready_tx`: the hold whose approval was resolved becomes ready, whatever was decided. -/
def applyReady (db : Db) (runId approvalId : String) (readyAt : Instant) :
    Except WorkspaceStoreError (Option Db) :=
  match db.readHold runId with
  | .error e => .error e
  | .ok hold =>
    if hold.approvalId ≠ some approvalId then .error (.invalidValue "approval_id")
    else match db.runs.find hold.runId with
      | none => bad "run_id"
      | some run =>
        match db.approvals.find approvalId with
        | none => bad "approval_id"
        | some approval =>
          if approval.runId ≠ run.id then badTable "approvals" "run_id"
          else if recoveryDecisionEffect run.status hold.recoveryState (isResolved approval.status) ≠ .markReady then
            .ok none
          else if hold.readyAt.isSome || hold.releasedAt.isSome || hold.activeResumeApprovalId.isSome then
            -- The guards of the UPDATE leave no row to change.
            .error .database
          else
            .ok (some ({ db with
              holds := db.holds.set { hold with recoveryState := .ready, readyAt := some readyAt } }.appendAudit
                { ts := readyAt
                  actor := "legacy_recovery"
                  action := "legacy_recovery.ready"
                  detail := [("approval_id", approvalId), ("cohort_id", hold.cohortId),
                    ("result_state", RecoveryState.ready.asStr), ("run_id", hold.runId),
                    ("workspace_id", hold.workspaceId)] }))

/-- `resolve_approval_with_legacy_ready`: both rows change together, or neither does. -/
def resolveWithLegacyReady (db : Db) (id : String) (status : ApprovalStatus) (decision : Option Decision)
    (resolvedAt : Instant) : Except ResolveError (Resolution × Db) :=
  match resolveApproval db id status decision resolvedAt with
  | .error e => .error (.store e)
  | .ok (approval, db') =>
    match db'.holds.find approval.runId with
    | none => .ok (.approvalOnly approval, db')
    | some _ =>
      match applyReady db' approval.runId id resolvedAt with
      | .error e => .error (.recovery e)
      | .ok none => .error .recoveryUnavailable
      | .ok (some db'') => .ok (.ready approval, db'')

/-! The promotion of the oldest ready hold to the one run lease of its workspace. -/

structure RunFacts where
  id : String
  status : RunStatus
  createdAt : Instant
  deriving DecidableEq

def RunRow.facts (run : RunRow) : RunFacts := ⟨run.id, run.status, run.createdAt⟩

structure PromotionFacts where
  run : RunFacts
  approvalId : String
  decision : Decision
  workspace : WorkspaceRow
  approvalCreatedAt : Instant
  approvalExpiresAt : Instant
  approvalDecidedAt : Instant
  cohortCreatedAt : Instant
  cohortMigrationVersion : Nat
  deriving DecidableEq

/-- The kinds of decision that a promotion takes for a permission. -/
def promotes (kind : String) : Bool := kind == "approve" || kind == "approve_for_session"

def approvalPermits (hold : Hold) (run : RunRow) (approval : ApprovalRow) (decision : Decision)
    (decidedAt now : Instant) : Bool :=
  approval.workspaceId == some hold.workspaceId && run.workspaceId == some hold.workspaceId &&
    approval.status == .approved && promotes decision.kind &&
    approval.availableDecisions.contains decision.kind && decide (approval.createdAt ≤ decidedAt) &&
    decide (decidedAt ≤ now) && decide (decidedAt ≤ approval.expiresAt)

def cohortPermits (hold : Hold) (run : RunRow) (cohort : CohortRow) (decidedAt readyAt now : Instant) : Bool :=
  cohort.workspaceId == hold.workspaceId && cohort.rootGeneration == hold.rootGeneration &&
    decide (cohort.createdAt ≤ now) && decide (cohort.createdAt ≤ readyAt) && decide (run.createdAt ≤ readyAt) &&
    decide (decidedAt ≤ readyAt) && cohort.completedAt.isNone

def workspacePermits (hold : Hold) (workspace : WorkspaceRow) (readyAt now : Instant) : Bool :=
  workspace.kind == .legacyCompat && workspace.rootGeneration == hold.rootGeneration && workspace.state == .active &&
    decide (workspace.createdAt ≤ now) && decide (workspace.createdAt ≤ readyAt) && decide (readyAt ≤ now)

section
variable (db : Db)

/-- `promotion_facts_tx`. -/
def promotionFacts (hold : Hold) (readyAt now : Instant) :
    Except WorkspaceStoreError (Option PromotionFacts) :=
  match db.runs.find hold.runId with
  | none => bad "run_id"
  | some run =>
    if run.status.isTerminal then .ok none
    else match hold.approvalId with
      | none => bad "approval_id"
      | some approvalId =>
        match db.approvals.find approvalId with
        | none => bad "approval_id"
        | some approval =>
          if approval.runId ≠ hold.runId then bad "approval_id"
          else match approval.decision with
            | none => .ok none
            | some decision =>
              match approval.decidedAt with
              | none => badTable "approvals" "decided_at"
              | some decidedAt =>
                if approvalPermits hold run approval decision decidedAt now = false then .ok none
                else match db.cohorts.find hold.cohortId with
                  | none => bad "cohort_id"
                  | some cohort =>
                    if cohort.migrationVersion = 0 then badTable "legacy_recovery_cohorts" "migration_version"
                    else if cohortPermits hold run cohort decidedAt readyAt now = false then .ok none
                    else match db.workspaces.find hold.workspaceId with
                      | none => bad "workspace_id"
                      | some workspace =>
                        if workspacePermits hold workspace readyAt now = false then .ok none
                        else .ok (some
                          { run := run.facts
                            approvalId := approvalId
                            decision := decision
                            workspace := workspace
                            approvalCreatedAt := approval.createdAt
                            approvalExpiresAt := approval.expiresAt
                            approvalDecidedAt := decidedAt
                            cohortCreatedAt := cohort.createdAt
                            cohortMigrationVersion := cohort.migrationVersion })

structure PromotionAttempt where
  hint : Hold
  leaseId : String
  acquiredAt : Instant

structure Admission where
  hold : Hold
  lease : LeaseRow
  deriving DecidableEq

inductive PromotionOutcome where
  | admitted (admission : Admission)
  | observedCommitted (admission : Admission)
  | staleHint
  | terminal
  | busy
  | workspaceUnavailable
  deriving DecidableEq

section
variable (attempt : PromotionAttempt)

/-- `expected_promotion_lease`. -/
def PromotionAttempt.lease : LeaseRow where
  id := attempt.leaseId
  workspaceId := attempt.hint.workspaceId
  rootGeneration := attempt.hint.rootGeneration
  ownerId := attempt.hint.runId
  kind := .run
  acquiredAt := attempt.acquiredAt
  renewedAt := none
  releasedAt := none

def Hold.promoted (hold : Hold) : Hold :=
  { hold with recoveryState := .active, readyAt := none, activeResumeApprovalId := hold.approvalId }

/-- `open_run_lease_exists_tx`. -/
def openRunLeaseExists (workspaceId runId : String) : Bool :=
  db.leases.rows.any fun l => Db.isOpenRun l && (l.workspaceId == workspaceId || l.ownerId == runId)

/-- `admission_reread_tx`. -/
def admissionReread (hold : Hold) (lease : LeaseRow) : Except WorkspaceStoreError Admission :=
  match db.readHold hold.runId with
  | .error e => .error e
  | .ok stored =>
    match db.leases.find lease.id with
    | none => badTable "workspace_leases" "lease_id"
    | some row => if stored ≠ hold ∨ row ≠ lease then bad "row" else .ok ⟨hold, lease⟩

/-- `i64::MAX`, the last revision a row can have. -/
def revisionMax : Nat := 9223372036854775807

/-- `expire_workspace_tx` on the row just read. -/
def expireWorkspace (now : Instant) (workspace : WorkspaceRow) : Except WorkspaceStoreError Db :=
  if revisionMax ≤ workspace.revision then .error .database
  else
    .ok ({ db with
      workspaces := db.workspaces.set { workspace with state := .expired, revision := workspace.revision + 1 } }.appendAudit
        { ts := now
          actor := "workspace_lifecycle"
          action := "workspace.expired"
          detail := [("id", workspace.id), ("kind", "legacy_compat"), ("reason", "ttl"), ("result_state", "expired")] })

def observePromotion : Except WorkspaceStoreError PromotionOutcome :=
  match db.readHold attempt.hint.runId with
  | .error e => .error e
  | .ok active =>
    if active ≠ attempt.hint.promoted then .ok .busy
    else match attempt.hint.readyAt with
      | none => bad "ready_at"
      | some readyAt =>
        match promotionFacts db active readyAt attempt.acquiredAt with
        | .error e => .error e
        | .ok none => .ok .busy
        | .ok (some _) => (admissionReread db active attempt.lease).map .observedCommitted

def commitAdmission (readyAt : Instant) (facts : PromotionFacts) :
    Except WorkspaceStoreError (PromotionOutcome × Db) :=
  if attempt.hint.releasedAt.isSome || attempt.hint.activeResumeApprovalId.isSome then
    -- The guards of the UPDATE leave no row to change.
    .error .database
  else
    let active := attempt.hint.promoted
    let after := { db with
      leases := db.leases.put attempt.lease
      holds := db.holds.set active }.appendAudit
        { ts := attempt.acquiredAt
          actor := "legacy_recovery"
          action := "legacy_recovery.active"
          detail := [("cohort_id", active.cohortId), ("result_state", "active"), ("run_id", active.runId),
            ("workspace_id", active.workspaceId)] }
    match promotionFacts after active readyAt attempt.acquiredAt with
    | .error e => .error e
    | .ok again =>
      if again ≠ some facts then bad "row"
      else match admissionReread after active attempt.lease with
        | .error e => .error e
        | .ok admission => .ok (.admitted admission, after)

def promoteLegacyRecovery :
    Except WorkspaceStoreError (PromotionOutcome × Db) :=
  match db.leases.find attempt.leaseId with
  | some existing =>
    if existing ≠ attempt.lease then .ok (.busy, db)
    else (observePromotion db attempt).map fun outcome => (outcome, db)
  | none =>
    if db.readNextReady ≠ some attempt.hint then .ok (.staleHint, db)
    else match db.runs.find attempt.hint.runId with
      | none => bad "run_id"
      | some run =>
        if run.status.isTerminal then .ok (.terminal, db)
        else match attempt.hint.readyAt with
          | none => bad "ready_at"
          | some readyAt =>
            if attempt.acquiredAt < readyAt then .ok (.workspaceUnavailable, db)
            else match promotionFacts db attempt.hint readyAt attempt.acquiredAt with
              | .error e => .error e
              | .ok none => .ok (.workspaceUnavailable, db)
              | .ok (some facts) =>
                if facts.run.id ≠ attempt.hint.runId ∨ some facts.approvalId ≠ attempt.hint.approvalId then
                  .ok (.workspaceUnavailable, db)
                else if facts.workspace.expiresAt ≤ attempt.acquiredAt then
                  (expireWorkspace db attempt.acquiredAt facts.workspace).map fun after =>
                    (.workspaceUnavailable, after)
                else if openRunLeaseExists db attempt.hint.workspaceId attempt.hint.runId then .ok (.busy, db)
                else commitAdmission db attempt readyAt facts

end

end

end Agent24.Recovery
