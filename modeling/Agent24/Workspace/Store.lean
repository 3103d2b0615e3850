import Agent24.Recovery.Terminal
import Mathlib.Data.List.Sort

/-! Runs in workspaces: what admits one, what ends it, and the rows that are written together. -/

set_option autoImplicit false
namespace Agent24.Workspace
open Library Agent Recovery

/-! The tables and columns that the recovery of held runs does not read. -/

structure SessionRow where
  id : String
  workspaceId : Option String
  deriving DecidableEq

inductive AllocationPhase where
  | reserved | materialized | committed | retained
  deriving DecidableEq

structure AllocationRow where
  workspaceId : String
  rootGeneration : String
  rootIdentity : Option String
  phase : AllocationPhase
  deriving DecidableEq

structure RunColumns where
  sessionId : Option String
  inputWorkspaceId : Option String
  output : Option String
  error : Option String
  usage : String
  deriving DecidableEq

structure WorkspaceColumns where
  rootIdentity : String
  lifecycleOwnerRef : String
  renewedAt : Option Instant
  deriving DecidableEq

/-- The recovery's tables, with the other columns of their rows by key. -/
structure Store extends Db where
  sessions : Table SessionRow.id
  allocations : Table AllocationRow.workspaceId
  runColumns : String → RunColumns
  workspaceColumns : String → WorkspaceColumns
  /-- `expires_at` of a lease, which only a host's has. -/
  leaseExpiry : String → Option Instant

/-- A whole row of `runs`. -/
structure Run where
  row : RunRow
  columns : RunColumns
  deriving DecidableEq

structure RunPatch where
  output : Option String := none
  error : Option String := none
  usage : Option String := none
  startedAt : Option Instant := none
  endedAt : Option Instant := none

/-- `COALESCE` of the patch over the row. -/
def Run.patched (run : Run) (to_ : RunStatus) (patch : RunPatch) : Run where
  row := { run.row with
    status := to_
    startedAt := patch.startedAt.or run.row.startedAt
    endedAt := patch.endedAt.or run.row.endedAt }
  columns := { run.columns with
    output := patch.output.or run.columns.output
    error := patch.error.or run.columns.error
    usage := patch.usage.getD run.columns.usage }

namespace Store
variable (s : Store)

def findRun (id : String) : Option Run := (s.runs.find id).map fun row => ⟨row, s.runColumns id⟩

def putRun (run : Run) : Store :=
  { s with
    runs := s.runs.put run.row
    runColumns := Function.update s.runColumns run.row.id run.columns }

def setRun (run : Run) : Store :=
  { s with
    runs := s.runs.set run.row
    runColumns := Function.update s.runColumns run.row.id run.columns }

def putLease (lease : LeaseRow) : Store :=
  { s with
    leases := s.leases.put lease
    leaseExpiry := Function.update s.leaseExpiry lease.id none }

/-- `release_exact_terminal_lease_tx` on a lease that is open. -/
def release (lease : LeaseRow) (endedAt : Instant) : Store :=
  { s with leases := s.leases.set { lease with releasedAt := some endedAt } }

def putWorkspace (workspace : WorkspaceRow) (entry : AuditEntry) : Store :=
  { s with workspaces := s.workspaces.set workspace, auditLog := s.auditLog ++ [entry] }

end Store

/-! Admission. -/

inductive RunAdmissionDenial where
  | sessionNotFound | workspaceNotFound | bindingConflict | workspaceExpired | workspaceReleased
  | workspaceUnavailable | workspaceBusy
  deriving DecidableEq

inductive RunAdmission where
  | admitted (leaseId : Option String)
  | denied (denial : RunAdmissionDenial)
  deriving DecidableEq

inductive SessionScope where
  | missing
  | unbound
  | bound (workspaceId : String)
  deriving DecidableEq

section
variable (s : Store)

/-- `session_scope_tx`. -/
def sessionScope (run : Run) : Option SessionScope :=
  run.columns.sessionId.map fun id =>
    match s.sessions.find id with
    | none => .missing
    | some session => session.workspaceId.elim .unbound .bound

/-- `workspace_facts_tx`. -/
def workspaceFacts (id : String) : Except WorkspaceStoreError (Option (WorkspaceRow × AllocationRow)) :=
  match s.workspaces.find id with
  | none => .ok none
  | some workspace =>
    match s.allocations.find id with
    | none => badTable "workspace_allocations" "workspace_id"
    | some allocation =>
      if allocation.phase ≠ .committed ∨ allocation.rootGeneration ≠ workspace.rootGeneration ∨
          allocation.rootIdentity ≠ some (s.workspaceColumns id).rootIdentity then
        badTable "workspace_allocations" "root_binding"
      else .ok (some (workspace, allocation))

def expiryEntry (now : Instant) (workspace : WorkspaceRow) : AuditEntry where
  ts := now
  actor := "workspace_lifecycle"
  action := "workspace.expired"
  detail := [("id", workspace.id),
    ("kind", match workspace.kind with
      | .orchestratorScratch => "orchestrator_scratch"
      | .legacyCompat => "legacy_compat"),
    ("reason", "ttl"), ("result_state", "expired")]

def Store.expired (now : Instant) (workspace : WorkspaceRow) : Store :=
  s.putWorkspace { workspace with state := .expired, revision := workspace.revision + 1 } (expiryEntry now workspace)

/-- `expire_workspace_tx` on an active row just read, whose time is over. -/
def expireWorkspaceTx (now : Instant) (workspace : WorkspaceRow) : Except WorkspaceStoreError Store :=
  if revisionMax ≤ workspace.revision then .error .database else .ok (s.expired now workspace)

def insertRunTx (run : Run) : Except WorkspaceStoreError Store :=
  if (s.runs.find run.row.id).isSome then .error .database else .ok (s.putRun run)

def insertLeaseTx (lease : LeaseRow) : Except WorkspaceStoreError Store :=
  if (s.leases.find lease.id).isSome ∨ lease.ownerId.toList.all (· = ' ') = true ∨ '\x00' ∈ lease.ownerId.toList then
    .error .database
  else if trim lease.ownerId = "" then badTable "workspace_leases" "owner_id"
  else .ok (s.putLease lease)

def runLease (run : RunRow) (workspace : WorkspaceRow) (leaseId : String) : LeaseRow where
  id := leaseId
  workspaceId := workspace.id
  rootGeneration := workspace.rootGeneration
  ownerId := run.id
  kind := .run
  acquiredAt := run.createdAt
  renewedAt := none
  releasedAt := none

def admitTo (run : Run) (workspace : WorkspaceRow) (leaseId : String) :
    Except WorkspaceStoreError RunAdmission × Store :=
  match insertRunTx s run with
  | .error e => (.error e, s)
  | .ok inserted =>
    match insertLeaseTx inserted (runLease run.row workspace leaseId) with
    | .error e => (.error e, s)
    | .ok leased => (.ok (.admitted (some leaseId)), leased)

def admitBound (run : Run) (workspace : WorkspaceRow) (leaseId : String) (acquiredAt : Instant) :
    Except WorkspaceStoreError RunAdmission × Store :=
  if workspace.kind ≠ .orchestratorScratch then (.ok (.denied .workspaceUnavailable), s)
  else if acquiredAt < workspace.createdAt ∨
      (s.workspaceColumns workspace.id).renewedAt.any (acquiredAt < ·) = true then
    (.ok (.denied .workspaceUnavailable), s)
  else if workspace.state = .active ∧ workspace.expiresAt ≤ acquiredAt then
    match expireWorkspaceTx s acquiredAt workspace with
    | .error e => (.error e, s)
    | .ok expired => (.ok (.denied .workspaceExpired), expired)
  else match workspace.state with
    | .expired => (.ok (.denied .workspaceExpired), s)
    | .releasing | .released => (.ok (.denied .workspaceReleased), s)
    | .cleanupFailed => (.ok (.denied .workspaceUnavailable), s)
    | .active =>
      if openRunLeaseExists s.toDb workspace.id run.row.id then (.ok (.denied .workspaceBusy), s)
      else admitTo s run workspace leaseId

def Run.fresh (run : Run) : Bool :=
  run.row.status == .queued && run.columns.output.isNone && run.columns.error.isNone && run.row.startedAt.isNone &&
    run.row.endedAt.isNone

def insertRunWithWorkspaceAdmission (run : Run) (leaseId : Option String) (acquiredAt : Instant) :
    Except WorkspaceStoreError RunAdmission × Store :=
  if run.row.workspaceId ≠ run.columns.inputWorkspaceId then (.error (.invalidValue "workspace_id"), s)
  else if run.fresh = false then (.error (.invalidValue "run"), s)
  else if run.row.createdAt ≠ acquiredAt then (.error (.invalidValue "acquired_at"), s)
  else if sessionScope s run = some .missing then (.ok (.denied .sessionNotFound), s)
  else match run.row.workspaceId with
    | none =>
      if (sessionScope s run).any (· ≠ .unbound) then (.ok (.denied .bindingConflict), s)
      else if leaseId.isSome then (.error (.invalidValue "lease_id"), s)
      else match insertRunTx s run with
        | .error e => (.error e, s)
        | .ok inserted => (.ok (.admitted none), inserted)
    | some workspaceId =>
      match leaseId with
      | none => (.error (.invalidValue "lease_id"), s)
      | some leaseId =>
        if sessionScope s run ≠ some (.bound workspaceId) then (.ok (.denied .bindingConflict), s)
        else match workspaceFacts s workspaceId with
          | .error e => (.error e, s)
          | .ok none => (.ok (.denied .workspaceNotFound), s)
          | .ok (some (workspace, _)) => admitBound s run workspace leaseId acquiredAt

end

/-! Transitions. -/

section
variable (s : Store)

/-- `transition_run`: a bound run does not end here. -/
def transitionRun (id : String) (to_ : RunStatus) (patch : RunPatch) : Except StoreError Run × Store :=
  match s.findRun id with
  | none => (.error .notFound, s)
  | some run =>
    if run.row.workspaceId.isSome && to_.isTerminal then (.error .conflict, s)
    else if runTransitionAllowed run.row.status to_ = false then (.error .transition, s)
    else (.ok (run.patched to_ patch), s.setRun (run.patched to_ patch))

inductive RunTerminalTransition where
  | applied (run : Run)
  | conflict
  deriving DecidableEq

def leaseMatches (run : Run) (workspaceId : String) (workspace : WorkspaceRow) (lease : LeaseRow) (endedAt : Instant) :
    Bool :=
  lease.kind == .run && lease.ownerId == run.row.id && lease.workspaceId == workspaceId &&
    lease.rootGeneration == workspace.rootGeneration && decide (run.row.createdAt ≤ lease.acquiredAt) &&
    decide (lease.acquiredAt ≤ endedAt)

def endWith (run : Run) (to_ : RunStatus) (patch : RunPatch) (lease : LeaseRow) (endedAt : Instant) : Store :=
  (s.setRun (run.patched to_ patch)).release lease endedAt

def transitionWorkspaceRunTerminal (id : String) (to_ : RunStatus) (patch : RunPatch) (leaseId : String)
    (endedAt : Instant) : Except WorkspaceStoreError RunTerminalTransition × Store :=
  if to_.isTerminal = false ∨ patch.endedAt ≠ some endedAt then (.error (.invalidValue "run"), s)
  else match s.findRun id with
    | none => (.error .notFound, s)
    | some run =>
      match run.row.workspaceId with
      | none => (.ok .conflict, s)
      | some workspaceId =>
        if run.columns.inputWorkspaceId ≠ some workspaceId ∨ runTransitionAllowed run.row.status to_ = false then
          (.ok .conflict, s)
        else match s.workspaces.find workspaceId with
          | none => (badTable "workspaces" "id", s)
          | some workspace =>
            match s.leases.find leaseId with
            | none => (.ok .conflict, s)
            | some lease =>
              if leaseMatches run workspaceId workspace lease endedAt = false ∨ lease.releasedAt.isSome then
                (.ok .conflict, s)
              else (.ok (.applied (run.patched to_ patch)), endWith s run to_ patch lease endedAt)

def sessionAgrees (run : Run) (workspaceId : String) : Bool :=
  run.columns.sessionId.all fun id => (s.sessions.find id).bind SessionRow.workspaceId == some workspaceId

/-- `run_lease_history_tx` of the recovery: the leases of every kind that name the run. -/
def ownedLeases (runId : String) : List LeaseRow :=
  (s.leases.rows.filter fun lease => lease.ownerId == runId).insertionSort fun a b => a.id ≤ b.id

/-- `cancel_workspace_run_recovery`: a lease that is already released, or lost, does not stop it. -/
def cancelWorkspaceRunRecovery (id : String) (endedAt : Instant) :
    Except WorkspaceStoreError RunTerminalTransition × Store :=
  match s.findRun id with
  | none => (.error .notFound, s)
  | some run =>
    match run.row.workspaceId with
    | none => (.ok .conflict, s)
    | some workspaceId =>
      let cancelled := run.patched .cancelled { endedAt := some endedAt }
      if run.columns.inputWorkspaceId ≠ some workspaceId ∨ runTransitionAllowed run.row.status .cancelled = false then
        (.ok .conflict, s)
      else if sessionAgrees s run workspaceId = false then (badTable "sessions" "workspace_id", s)
      else if endedAt < run.row.createdAt then (badTable "runs" "ended_at", s)
      else match s.workspaces.find workspaceId with
        | none => (badTable "workspaces" "id", s)
        | some workspace =>
          let history := ownedLeases s id
          if history.all (fun lease => leaseMatches run workspaceId workspace lease endedAt &&
              lease.releasedAt.all fun released => decide (released ≤ endedAt)) = false then
            (badTable "workspace_leases" "row", s)
          else match history.filter fun lease => lease.releasedAt.isNone with
            | [] => (.ok (.applied cancelled), s.setRun cancelled)
            | [lease] => (.ok (.applied cancelled), endWith s run .cancelled { endedAt := some endedAt } lease endedAt)
            | _ => (badTable "workspace_leases" "row", s)

end

end Agent24.Workspace
