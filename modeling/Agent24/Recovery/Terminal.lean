import Agent24.Recovery.Store

/-! The end of a held run: its row, its approvals, its lease, its hold and its cohort change together. -/

set_option autoImplicit false
namespace Agent24.Recovery
open Library Agent

/-! What is read, and what is refused as corrupt. -/

structure TerminalRunFacts where
  run : RunRow
  workspaceId : String
  deriving DecidableEq

def decodeRun (row : RunRow) : Except WorkspaceStoreError TerminalRunFacts :=
  if row.startedAt.any (· < row.createdAt) || row.endedAt.any (· < row.createdAt) ||
      row.startedAt.any (fun started => row.endedAt.any (· < started)) then badTable "runs" "timestamp"
  else match row.workspaceId with
    | none => badTable "runs" "workspace_id"
    | some workspaceId => .ok ⟨row, workspaceId⟩

section
variable (db : Db)

/-- `read_terminal_run_tx`. -/
def readTerminalRun (runId : String) : Except WorkspaceStoreError TerminalRunFacts :=
  match db.runs.find runId with
  | none => .error .notFound
  | some row => decodeRun row

/-- `read_cohort_tx`. -/
def readCohort (hold : Hold) : Except WorkspaceStoreError CohortRow :=
  match db.cohorts.find hold.cohortId with
  | none => bad "cohort_id"
  | some cohort =>
    if cohort.migrationVersion = 0 then badTable "legacy_recovery_cohorts" "migration_version"
    else if cohort.workspaceId ≠ hold.workspaceId ∨ cohort.rootGeneration ≠ hold.rootGeneration ∨
        cohort.completedAt.any (· < cohort.createdAt) then badTable "legacy_recovery_cohorts" "row"
    else .ok cohort

def decodeApproval (row : ApprovalRow) : Except WorkspaceStoreError ApprovalRow :=
  if row.expiresAt < row.createdAt ∨ row.decidedAt.any (· < row.createdAt) ∨
      (row.status = .pending ∧ (row.decision.isSome ∨ row.decidedAt.isSome)) ∨
      (row.status ≠ .pending ∧ row.decidedAt = none) then badTable "approvals" "timestamp"
  else if row.workspaceId = none then badTable "approvals" "workspace_id"
  else .ok row

/-- `read_approval_tx`. -/
def readApproval (id : String) : Except WorkspaceStoreError ApprovalRow :=
  match db.approvals.find id with
  | none => badTable "approvals" "id"
  | some row => decodeApproval row

/-- `read_all_approvals_tx`; the table's order stands for the order by time and id. -/
def readAllApprovals (runId : String) : Except WorkspaceStoreError (List ApprovalRow) :=
  (db.approvals.rows.filter fun a => a.runId == runId).mapM decodeApproval

/-- `read_pending_approvals_tx`. -/
def readPendingApprovals (runId : String) : Except WorkspaceStoreError (List ApprovalRow) :=
  (db.approvals.rows.filter fun a => a.runId == runId && a.status == .pending).mapM decodeApproval

/-- `read_workspace_tx`. -/
def readWorkspace (hold : Hold) : Except WorkspaceStoreError WorkspaceRow :=
  match db.workspaces.find hold.workspaceId with
  | none => bad "workspace_id"
  | some workspace =>
    if workspace.kind ≠ .legacyCompat ∨ workspace.rootGeneration ≠ hold.rootGeneration then badTable "workspaces" "row"
    else .ok workspace

/-- `read_run_lease_tx`. -/
def readRunLease (hold : Hold) (run : TerminalRunFacts) (workspace : WorkspaceRow) :
    Except WorkspaceStoreError (Option LeaseRow) :=
  match db.leases.rows.filter fun l => Db.isOpenRun l && l.ownerId == hold.runId with
  | [] => .ok none
  | [lease] =>
    if lease.workspaceId ≠ hold.workspaceId ∨ lease.rootGeneration ≠ hold.rootGeneration ∨
        lease.acquiredAt < run.run.createdAt ∨ lease.acquiredAt < workspace.createdAt then
      badTable "workspace_leases" "row"
    else .ok (some lease)
  | _ => badTable "workspace_leases" "row"

/-- `read_run_lease_history_tx`. -/
def readRunLeaseHistory (hold : Hold) : List LeaseRow :=
  db.leases.rows.filter fun l => l.kind == .run && l.ownerId == hold.runId

/-- `TerminalReleaseSnapshot`. -/
structure Snapshot where
  run : TerminalRunFacts
  hold : Hold
  cohort : CohortRow
  workspace : WorkspaceRow
  lease : Option LeaseRow
  holdApproval : Option ApprovalRow
  pendingApprovals : List ApprovalRow
  latestAudit : Option AuditEntry × Nat
  deriving DecidableEq

/-- `snapshot_tx`. -/
def snapshot (runId : String) : Except WorkspaceStoreError Snapshot := do
  let hold ← db.readHold runId
  let run ← readTerminalRun db runId
  if run.workspaceId ≠ hold.workspaceId then badTable "runs" "workspace_id"
  let workspace ← readWorkspace db hold
  let lease ← readRunLease db hold run workspace
  let cohort ← readCohort db hold
  let holdApproval ← hold.approvalId.mapM (readApproval db)
  let pendingApprovals ← readPendingApprovals db runId
  pure
    { run := run
      hold := hold
      cohort := cohort
      workspace := workspace
      lease := lease
      holdApproval := holdApproval
      pendingApprovals := pendingApprovals
      latestAudit := (db.auditLog.getLast?, db.auditLog.length) }

end

/-! The plan. -/

structure TerminalAttempt where
  result : RunStatus
  endedAt : Instant
  deriving DecidableEq

inductive TerminalPlan where
  | release | observe
  deriving DecidableEq

def timeIsValid (s : Snapshot) (attempt : TerminalAttempt) : Bool :=
  decide (s.run.run.createdAt ≤ attempt.endedAt) && decide (s.cohort.createdAt ≤ attempt.endedAt) &&
    decide (s.workspace.createdAt ≤ attempt.endedAt) && s.run.run.startedAt.all (fun t => decide (t ≤ attempt.endedAt)) &&
    s.hold.readyAt.all (fun t => decide (t ≤ attempt.endedAt)) &&
    s.pendingApprovals.all (fun a => decide (a.createdAt ≤ attempt.endedAt)) &&
    s.lease.all fun l => decide (l.acquiredAt ≤ attempt.endedAt) && l.renewedAt.all fun t => decide (t ≤ attempt.endedAt)

def matchingLease (s : Snapshot) : Bool :=
  s.lease.all fun l =>
    l.ownerId == s.hold.runId && l.workspaceId == s.hold.workspaceId && l.rootGeneration == s.hold.rootGeneration

def releasable (s : Snapshot) (result : RunStatus) : Bool :=
  let leased := s.lease.isSome
  let active := s.hold.recoveryState == .active
  ((result == .completed || result == .failed) && active && leased) || (result == .cancelled && (!active || leased))

def planTerminal (s : Snapshot) (attempt : TerminalAttempt) : Except WorkspaceStoreError TerminalPlan :=
  if attempt.result.isTerminal = false ∨ timeIsValid s attempt = false ∨ matchingLease s = false then bad "terminal"
  else if s.hold.recoveryState = .released then
    if s.run.run.status = attempt.result ∧ s.run.run.endedAt = some attempt.endedAt ∧
        s.hold.releasedAt = some attempt.endedAt ∧ s.lease = none then .ok .observe
    else bad "released_at"
  else if runTransitionAllowed s.run.run.status attempt.result = false then bad "terminal"
  else if releasable s attempt.result then .ok .release
  else bad "terminal"

/-! The composition. -/

inductive CompositionOutcome where
  | applied | observedApplied | conflict
  deriving DecidableEq

structure CompositionAttempt where
  terminal : TerminalAttempt
  /-- `ExpectedLease`. -/
  lease : Option LeaseRow

def RunStatus.text : RunStatus → String
  | .completed => "completed"
  | .failed => "failed"
  | .cancelled => "cancelled"
  | .queued => "queued"
  | .running => "running"
  | .awaitingApproval => "awaiting_approval"

/-- `audit_parts`: the one entry that a terminal result leaves. -/
def terminalAudit (hold : Hold) (attempt : TerminalAttempt) : AuditEntry where
  ts := attempt.endedAt
  actor := "legacy_recovery"
  action := "legacy_recovery." ++ RunStatus.text attempt.result
  detail := [("cohort_id", hold.cohortId), ("result_state", RunStatus.text attempt.result), ("run_id", hold.runId),
    ("workspace_id", hold.workspaceId)]

/-- `expected_released_hold`. -/
def Hold.releasedHold (hold : Hold) (endedAt : Instant) : Hold :=
  { hold with recoveryState := .released, readyAt := none, activeResumeApprovalId := none, releasedAt := some endedAt }

/-- `released_attempt_lease_tx`: every run lease is released, and the attempt's own at the end. -/
def releasedAttemptLease (db : Db) (hold : Hold) (attempt : CompositionAttempt) : Option (Option LeaseRow) :=
  let leases := readRunLeaseHistory db hold
  if leases.any fun l => l.releasedAt.isNone then none
  else match attempt.lease with
    | some lease =>
      let released := { lease with releasedAt := some attempt.terminal.endedAt }
      if lease.releasedAt.isNone && leases.contains released then some (some released) else none
    | none => if attempt.terminal.result = .cancelled then some none else none

def unreleased (db : Db) (cohortId : String) : Nat :=
  db.holds.rows.countP fun h => h.cohortId == cohortId && h.releasedAt.isNone

def latestRelease (db : Db) (cohortId : String) : Option Instant :=
  ((db.holds.rows.filter fun h => h.cohortId == cohortId).filterMap Hold.releasedAt).max?

/-- `closed_cohort_tx`. -/
def closedCohort (db : Db) (hold : Hold) (ended : Instant) : Except WorkspaceStoreError Bool := do
  let cohort ← readCohort db hold
  let openHolds := unreleased db hold.cohortId
  match cohort.completedAt with
  | none => pure (decide (0 < openHolds))
  | some done =>
    pure (openHolds == 0 && decide (ended ≤ done) && (latestRelease db hold.cohortId).any fun at_ => decide (at_ ≤ done))

/-- `observe_released_terminal_tx`. -/
def observeReleasedTerminal (db : Db) (hold : Hold) (ended : Instant) (leaseId : Option String) :
    Except WorkspaceStoreError Bool := do
  let current ← db.readHold hold.runId
  if current ≠ hold.releasedHold ended then return false
  let leases := readRunLeaseHistory db hold
  if leases.any fun l => l.releasedAt.isNone then return false
  let exact_ := leaseId.all fun id => leases.any fun l =>
    l.id == id && l.workspaceId == hold.workspaceId && l.rootGeneration == hold.rootGeneration &&
      l.releasedAt == some ended
  if exact_ = false then return false
  let cohort ← readCohort db current
  if unreleased db current.cohortId = 0 then pure (cohort.completedAt.any fun at_ => decide (ended ≤ at_))
  else pure cohort.completedAt.isNone

/-- `observe_tx`. -/
def observe (db : Db) (attempt : CompositionAttempt) (s : Snapshot) : Except WorkspaceStoreError CompositionOutcome := do
  let all ← readAllApprovals db s.hold.runId
  if all.any fun a => a.status == .pending then return .conflict
  match releasedAttemptLease db s.hold attempt with
  | none => pure .conflict
  | some lease =>
    if db.auditLog.countP (· == terminalAudit s.hold attempt.terminal) ≠ 1 then return .conflict
    if (← closedCohort db s.hold attempt.terminal.endedAt) = false then return .conflict
    if ← observeReleasedTerminal db s.hold attempt.terminal.endedAt (lease.map LeaseRow.id) then pure .observedApplied
    else pure .conflict

def aborted (endedAt : Instant) (a : ApprovalRow) : ApprovalRow :=
  if a.status = .pending then { a with status := .aborted, decision := none, decidedAt := some endedAt } else a

namespace Db
variable (db : Db)

def isPendingOf (runId : String) (a : ApprovalRow) : Bool :=
  a.runId == runId && a.status == .pending && a.decision.isNone && a.decidedAt.isNone

def abortPending (runId : String) (endedAt : Instant) : Db :=
  { db with
    approvals := db.approvals.update (isPendingOf runId)
      ({ · with status := .aborted, decision := none, decidedAt := some endedAt }) fun _ => rfl }

/-- `transition_run_tx` with an end. -/
def finishRun (runId : String) (from_ to_ : RunStatus) (endedAt : Instant) : Db :=
  { db with
    runs := db.runs.update (fun r => r.id == runId && r.status == from_)
      ({ · with status := to_, endedAt := some endedAt }) fun _ => rfl }

/-- `release_exact_terminal_lease_tx` on the lease just read. -/
def releaseLease (lease : Option LeaseRow) (endedAt : Instant) : Db :=
  match lease with
  | none => db
  | some lease => { db with leases := db.leases.set { lease with releasedAt := some endedAt } }

def setHold (hold : Hold) : Db := { db with holds := db.holds.set hold }

def setCohort (cohort : CohortRow) : Db := { db with cohorts := db.cohorts.set cohort }

end Db

/-- `abort_all_pending_terminal_approvals_tx`. -/
def abortAllPending (db : Db) (runId : String) (endedAt : Instant) :
    Except WorkspaceStoreError (List ApprovalRow × Db) :=
  match readAllApprovals db runId with
  | .error e => .error e
  | .ok before =>
    if db.approvals.rows.countP (Db.isPendingOf runId) ≠ before.countP (fun a => a.status == .pending) then
      badTable "approvals" "row"
    else match readAllApprovals (db.abortPending runId endedAt) runId with
      | .error e => .error e
      | .ok actual =>
        if actual ≠ before.map (aborted endedAt) then badTable "approvals" "row"
        else .ok (actual, db.abortPending runId endedAt)

/-- `close_terminal_cohort_if_last_tx`; `none` is a conflict. -/
def closeCohortIfLast (db : Db) (held : Hold) (endedAt : Instant) : Except WorkspaceStoreError (Option Db) :=
  match readCohort db held with
  | .error e => .error e
  | .ok cohort =>
    if cohort.completedAt.isSome then .ok none
    else if unreleased db held.cohortId ≠ 0 then .ok (some db)
    else if (latestRelease db held.cohortId).any fun at_ => decide (endedAt < at_) then .ok none
    else .ok (some (db.setCohort { cohort with completedAt := some endedAt }))

def Snapshot.ended (s : Snapshot) (attempt : TerminalAttempt) (approvals : List ApprovalRow) (last : Bool) : Snapshot :=
  { s with
    run := { s.run with run := { s.run.run with status := attempt.result, endedAt := some attempt.endedAt } }
    hold := s.hold.releasedHold attempt.endedAt
    holdApproval := s.hold.approvalId.bind fun id => approvals.find? fun a => a.id == id
    pendingApprovals := approvals.filter fun a => a.status == .pending
    cohort := if last then { s.cohort with completedAt := some attempt.endedAt } else s.cohort
    lease := none }

/-- The writes of `fresh_apply_tx`, in the order of the source; `none` is a conflict. -/
def writeEnd (db : Db) (terminal : TerminalAttempt) (s expected : Snapshot) (approvals : List ApprovalRow) :
    Except WorkspaceStoreError (Option Db) :=
  match (if terminal.result = .cancelled then abortAllPending db s.hold.runId terminal.endedAt
      else .ok (approvals, db)) with
  | .error e => .error e
  | .ok (actual, db₁) =>
    if actual ≠ approvals then .ok none
    else if runTransitionAllowed s.run.run.status terminal.result = false then .error .database
    else
      let db₂ := db₁.finishRun s.hold.runId s.run.run.status terminal.result terminal.endedAt
      match readTerminalRun db₂ s.hold.runId with
      | .error e => .error e
      | .ok run =>
        if run ≠ expected.run ∨ s.hold.releasedAt.isSome then .ok none
        else
          let released := s.hold.releasedHold terminal.endedAt
          closeCohortIfLast ((db₂.releaseLease s.lease terminal.endedAt).setHold released) released terminal.endedAt

/-- What `fresh_apply_tx` reads again after its writes, and after its audit entry. -/
def checkEnd (after : Db) (attempt : CompositionAttempt) (s expected : Snapshot) (approvals : List ApprovalRow)
    (history : List LeaseRow) : Except WorkspaceStoreError (Option Db) :=
  let terminal := attempt.terminal
  let entry := terminalAudit s.hold terminal
  let expectedLease := attempt.lease.map fun l => { l with releasedAt := some terminal.endedAt }
  let expectedHistory := history.map fun l =>
    if some l = s.lease then { l with releasedAt := some terminal.endedAt } else l
  let final := after.appendAudit entry
  match snapshot after s.hold.runId, readAllApprovals after s.hold.runId, snapshot final s.hold.runId,
    closedCohort final expected.hold terminal.endedAt with
  | .ok seen, .ok read, .ok seen', .ok closed =>
    if seen = expected ∧ read = approvals ∧ releasedAttemptLease after expected.hold attempt = some expectedLease ∧
        final.auditLog.countP (· == entry) = 1 ∧
        seen' = { expected with latestAudit := (some entry, after.auditLog.length + 1) } ∧
        readRunLeaseHistory final s.hold = expectedHistory ∧ closed = true then .ok (some final)
    else .ok none
  | .error e, _, _, _ => .error e
  | _, .error e, _, _ => .error e
  | _, _, .error e, _ => .error e
  | _, _, _, .error e => .error e

/-- `fresh_apply_tx`. -/
def freshApply (db : Db) (attempt : CompositionAttempt) (s : Snapshot) :
    Except WorkspaceStoreError (CompositionOutcome × Db) :=
  let terminal := attempt.terminal
  let completes := terminal.result == .completed || terminal.result == .failed
  if (completes && attempt.lease.isNone) ∨ attempt.lease ≠ s.lease then .ok (.conflict, db)
  else match readAllApprovals db s.hold.runId with
    | .error e => .error e
    | .ok before =>
      if completes && before.any (fun a => a.status == .pending) then .ok (.conflict, db)
      else
        let approvals := if terminal.result = .cancelled then before.map (aborted terminal.endedAt) else before
        let last := unreleased db s.hold.cohortId == 1
        let expected := s.ended terminal approvals last
        if s.hold.approvalId.any fun id => approvals.all fun a => a.id != id then badTable "approvals" "id"
        else if (last && s.cohort.completedAt.isSome) ∨ terminalAudit s.hold terminal ∈ db.auditLog then
          .ok (.conflict, db)
        else match writeEnd db terminal s expected approvals with
          | .error e => .error e
          | .ok none => .ok (.conflict, db)
          | .ok (some after) =>
            match checkEnd after attempt s expected approvals (readRunLeaseHistory db s.hold) with
            | .error e => .error e
            | .ok none => .ok (.conflict, db)
            | .ok (some final) => .ok (.applied, final)

/-- `compose_terminal_tx`: on a conflict the savepoint is rolled back. -/
def composeTerminal (db : Db) (attempt : CompositionAttempt) (s : Snapshot) :
    Except WorkspaceStoreError (CompositionOutcome × Db) :=
  match snapshot db s.hold.runId with
  | .error e => .error e
  | .ok fresh =>
    if fresh ≠ s then .ok (.conflict, db)
    else match planTerminal fresh attempt.terminal with
      | .error _ => .ok (.conflict, db)
      | .ok .observe => (observe db attempt fresh).map fun outcome => (outcome, db)
      | .ok .release => freshApply db attempt fresh

end Agent24.Recovery
