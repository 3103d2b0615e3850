import Agent24.Workspace.Store

/-! The lifecycle of a workspace on its owner's request, and the sweep of the runs that nobody executes. -/

set_option autoImplicit false
namespace Agent24.Workspace
open Library Agent Recovery

/-! Expiry, release and renewal. -/

structure WorkspaceRecord where
  row : WorkspaceRow
  columns : WorkspaceColumns
  deriving DecidableEq

def Store.findWorkspace (s : Store) (id : String) : Option WorkspaceRecord :=
  (s.workspaces.find id).map fun row => ⟨row, s.workspaceColumns id⟩

/-- `select_workspace`: a workspace from before workspaces has no lifecycle. -/
def selectWorkspace (s : Store) (id : String) : Except WorkspaceStoreError WorkspaceRecord :=
  match s.findWorkspace id with
  | none => .error .notFound
  | some workspace =>
    if workspace.row.kind = .legacyCompat then .error (.invalidValue "workspace_kind") else .ok workspace

def expireWorkspace (s : Store) (id : String) (now : Instant) : Except WorkspaceStoreError WorkspaceRecord × Store :=
  match selectWorkspace s id with
  | .error e => (.error e, s)
  | .ok workspace =>
    if workspace.row.state ≠ .active ∨ now < workspace.row.expiresAt then (.ok workspace, s)
    else match expireWorkspaceTx s now workspace.row with
      | .error e => (.error e, s)
      | .ok expired =>
        (.ok { workspace with
          row := { workspace.row with state := .expired, revision := workspace.row.revision + 1 } }, expired)

def ownerEntry (action : String) (now : Instant) (id owner : String) (state : String) : AuditEntry where
  ts := now
  actor := "workspace_lifecycle"
  action := action
  detail := [("id", id), ("kind", "orchestrator_scratch"), ("owner_ref", owner), ("reason", "owner_requested"),
    ("result_state", state)]

def releaseWorkspace (s : Store) (id authorizedOwner : String) (now : Instant) :
    Except WorkspaceStoreError WorkspaceRecord × Store :=
  match selectWorkspace s id with
  | .error e => (.error e, s)
  | .ok workspace =>
    if workspace.columns.lifecycleOwnerRef ≠ authorizedOwner then (.error (.invalidValue "lifecycle_owner_ref"), s)
    else if workspace.row.state ≠ .active ∧ workspace.row.state ≠ .expired then (.ok workspace, s)
    else if revisionMax ≤ workspace.row.revision then (.error .database, s)
    else
      let row := { workspace.row with state := .releasing, revision := workspace.row.revision + 1 }
      (.ok { workspace with row := row },
        s.putWorkspace row (ownerEntry "workspace.release_requested" now id authorizedOwner "releasing"))

def maxWorkspaceMs : Nat := 7 * 86400000

def instantMax : Instant := 315569519999999

abbrev WorkspaceTtl := { milliseconds : Nat // 1 ≤ milliseconds ∧ milliseconds ≤ maxWorkspaceMs }

def checkedAddWorkspaceTtl (now : Instant) (ttl : WorkspaceTtl) : Except WorkspaceStoreError Instant :=
  if now + ttl.val ≤ instantMax then .ok (now + ttl.val) else .error (.invalidValue "expires_at")

def Store.renewed (s : Store) (workspace : WorkspaceRecord) (expiry now : Instant) : WorkspaceRecord × Store :=
  let renewed : WorkspaceRecord :=
    { row := { workspace.row with expiresAt := expiry, revision := workspace.row.revision + 1 }
      columns := { workspace.columns with renewedAt := some now } }
  let entry := ownerEntry "workspace.renewed" now workspace.row.id workspace.columns.lifecycleOwnerRef "active"
  (renewed, { s.putWorkspace renewed.row entry with
    workspaceColumns := Function.update s.workspaceColumns workspace.row.id renewed.columns })

/-- `renew_workspace` of an active workspace whose time is not over. -/
def renewActive (s : Store) (workspace : WorkspaceRecord) (ttl : WorkspaceTtl) (now : Instant) :
    Except WorkspaceStoreError WorkspaceRecord × Store :=
  if now < workspace.columns.renewedAt.getD workspace.row.createdAt then (.error (.invalidValue "renewed_at"), s)
  else match checkedAddWorkspaceTtl now ttl with
    | .error e => (.error e, s)
    | .ok expiry =>
      if workspace.columns.renewedAt = some now ∧ workspace.row.expiresAt = expiry then (.ok workspace, s)
      else if expiry ≤ workspace.row.expiresAt then (.error (.invalidValue "expires_at"), s)
      else if revisionMax ≤ workspace.row.revision then (.error .database, s)
      else
        let written := s.renewed workspace expiry now
        (.ok written.1, written.2)

/-- `renew_workspace`; a workspace whose time is over is expired, and the request refused. -/
def renewWorkspace (s : Store) (id authorizedOwner : String) (ttl : WorkspaceTtl) (now : Instant) :
    Except WorkspaceStoreError WorkspaceRecord × Store :=
  match selectWorkspace s id with
  | .error e => (.error e, s)
  | .ok workspace =>
    if workspace.columns.lifecycleOwnerRef ≠ authorizedOwner then (.error (.invalidValue "lifecycle_owner_ref"), s)
    else if workspace.row.kind ≠ .orchestratorScratch then (.error (.invalidValue "workspace_kind"), s)
    else if workspace.row.state = .active ∧ workspace.row.expiresAt ≤ now then
      match expireWorkspaceTx s now workspace.row with
      | .error e => (.error e, s)
      | .ok expired => (.error (.invalidValue "workspace_state"), expired)
    else if workspace.row.state ≠ .active then (.error (.invalidValue "workspace_state"), s)
    else renewActive s workspace ttl now

/-! The sweep. -/

/-- `has_pending_approval_tx`. -/
def hasPendingApproval (s : Store) (runId : String) : Bool :=
  s.approvals.rows.any fun a => a.runId == runId && a.status == .pending

def hostLives (s : Store) (workspaceId : String) (now : Instant) : Bool :=
  s.leases.rows.any fun lease =>
    lease.workspaceId == workspaceId && lease.kind == .host && lease.releasedAt.isNone &&
      (s.leaseExpiry lease.id).any fun expiry => decide (now < expiry)

def isOrphan (s : Store) (endedAt : Instant) (run : RunRow) : Bool :=
  (run.workspaceId.any fun workspaceId => !hostLives s workspaceId endedAt) &&
    (run.status == .queued || run.status == .running ||
      (run.status == .awaitingApproval && !hasPendingApproval s run.id))

/-- `run_lease_history_tx` of the sweep. -/
def runLeases (s : Store) (runId : String) : List LeaseRow :=
  s.leases.rows.filter fun lease => lease.kind == .run && lease.ownerId == runId

/-- `cancel_with_lease_tx` on a run as it was selected. -/
def cancelWithLease (s : Store) (run : Run) (lease : LeaseRow) (endedAt : Instant) : Except WorkspaceStoreError Store :=
  match run.row.workspaceId with
  | none => badTable "runs" "workspace_id"
  | some workspaceId =>
    match s.workspaces.find workspaceId with
    | none => badTable "workspaces" "id"
    | some workspace =>
      if run.columns.inputWorkspaceId ≠ some workspaceId ∨ leaseMatches run workspaceId workspace lease endedAt = false ∨
          lease.releasedAt.isSome then badTable "workspace_leases" "row"
      else if (s.runs.find run.row.id).map RunRow.status ≠ some run.row.status then badTable "runs" "status"
      else .ok (endWith s run .cancelled { endedAt := some endedAt } lease endedAt)

def sweepRun (endedAt : Instant) (s : Store) (run : Run) : Except WorkspaceStoreError Store :=
  if hasPendingApproval s run.row.id then
    if run.row.status = .awaitingApproval then .ok s else badTable "approvals" "status"
  else match runLeases s run.row.id with
    | [lease] =>
      if lease.releasedAt.isSome then badTable "workspace_leases" "row" else cancelWithLease s run lease endedAt
    | _ => badTable "workspace_leases" "row"

def orphans (s : Store) (endedAt : Instant) : List Run :=
  ((s.runs.rows.filter (isOrphan s endedAt)).insertionSort fun a b => a.id ≤ b.id).map fun row =>
    ⟨row, s.runColumns row.id⟩

/-- `sweep_workspace_orphan_runs`: all of them, or none. -/
def sweepWorkspaceOrphanRuns (s : Store) (endedAt : Instant) : Except WorkspaceStoreError Nat × Store :=
  match (orphans s endedAt).foldlM (sweepRun endedAt) s with
  | .error e => (.error e, s)
  | .ok swept =>
    if swept.runs.rows.any (isOrphan swept endedAt) then (badTable "runs" "status", s)
    else (.ok (orphans s endedAt).length, swept)

end Agent24.Workspace
