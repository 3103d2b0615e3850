import Agent24.Workspace.Lifecycle
import Agent24.Library.Outcome

/-! What each transaction on runs and their workspaces can write. -/

set_option autoImplicit false
namespace Agent24.Workspace
open Library Agent Recovery List

inductive Move where
  | insertRun (run : Run) (leaseId : Option String) (acquiredAt : Instant)
  | transition (id : String) (to_ : RunStatus) (patch : RunPatch)
  | finish (id : String) (to_ : RunStatus) (patch : RunPatch) (leaseId : String) (endedAt : Instant)
  | cancel (id : String) (endedAt : Instant)
  | sweep (endedAt : Instant)
  | expire (id : String) (now : Instant)
  | release (id owner : String) (now : Instant)
  | renew (id owner : String) (ttl : WorkspaceTtl) (now : Instant)

def Move.instant : Move → Option Instant
  | .insertRun _ _ acquiredAt => some acquiredAt
  | .transition .. => none
  | .finish _ _ _ _ endedAt | .cancel _ endedAt | .sweep endedAt => some endedAt
  | .expire _ now | .release _ _ now | .renew _ _ _ now => some now

def isAdmitted : Except WorkspaceStoreError RunAdmission → Bool
  | .ok (.admitted _) => true
  | _ => false

def isApplied : Except WorkspaceStoreError RunTerminalTransition → Bool
  | .ok (.applied _) => true
  | _ => false

/-- Whether a call did what it was asked for, and the store that it leaves. -/
def outcome {α : Type} (granted : α → Bool) (result : α × Store) : Bool × Store := (granted result.1, result.2)

def perform (s : Store) : Move → Bool × Store
  | .insertRun run leaseId acquiredAt => outcome isAdmitted (insertRunWithWorkspaceAdmission s run leaseId acquiredAt)
  | .transition id to_ patch => outcome Except.isOk (transitionRun s id to_ patch)
  | .finish id to_ patch leaseId endedAt =>
    outcome isApplied (transitionWorkspaceRunTerminal s id to_ patch leaseId endedAt)
  | .cancel id endedAt => outcome isApplied (cancelWorkspaceRunRecovery s id endedAt)
  | .sweep endedAt => outcome Except.isOk (sweepWorkspaceOrphanRuns s endedAt)
  | .expire id now => outcome Except.isOk (expireWorkspace s id now)
  | .release id owner now => outcome Except.isOk (releaseWorkspace s id owner now)
  | .renew id owner ttl now => outcome Except.isOk (renewWorkspace s id owner ttl now)

def step (s : Store) (move : Move) : Store := (perform s move).2

/-! What a call writes. -/

structure Room (s : Store) (run : Run) (workspace : WorkspaceRow) (acquiredAt : Instant) : Prop where
  home : run.row.workspaceId = some workspace.id
  session : sessionScope s run = some (.bound workspace.id)
  found : s.workspaces.find workspace.id = some workspace
  scratch : workspace.kind = .orchestratorScratch
  since : workspace.createdAt ≤ acquiredAt
  active : workspace.state = .active
  unexpired : acquiredAt < workspace.expiresAt
  idle : openRunLeaseExists s.toDb workspace.id run.row.id = false

structure Newcomer (s : Store) (run : Run) (acquiredAt : Instant) : Prop where
  input : run.columns.inputWorkspaceId = run.row.workspaceId
  fresh : run.fresh = true
  created : run.row.createdAt = acquiredAt
  unused : s.runs.find run.row.id = none

structure Elapsed (s : Store) (now : Instant) (workspace : WorkspaceRow) : Prop where
  found : s.workspaces.find workspace.id = some workspace
  active : workspace.state = .active
  elapsed : workspace.expiresAt ≤ now

structure Ends (s : Store) (run : Run) (to_ : RunStatus) (patch : RunPatch) (lease : LeaseRow) (endedAt : Instant) :
    Prop where
  found : s.findRun run.row.id = some run
  allowed : runTransitionAllowed run.row.status to_ = true
  terminal : to_.isTerminal = true
  ended : patch.endedAt = some endedAt
  leased : s.leases.find lease.id = some lease
  unreleased : lease.releasedAt = none
  matching : ∃ workspaceId workspace, run.row.workspaceId = some workspaceId ∧
    run.columns.inputWorkspaceId = some workspaceId ∧ s.workspaces.find workspaceId = some workspace ∧
    leaseMatches run workspaceId workspace lease endedAt = true

def CancelsRun (endedAt : Instant) (run : Run) (s s' : Store) : Prop :=
  ∃ lease, Ends s run .cancelled { endedAt := some endedAt } lease endedAt ∧
    s' = endWith s run .cancelled { endedAt := some endedAt } lease endedAt

def Cancels (endedAt : Instant) (s s' : Store) : Prop := ∃ run, CancelsRun endedAt run s s'

structure Forward (before after : WorkspaceRecord) : Prop where
  id : after.row.id = before.row.id
  kind : after.row.kind = before.row.kind
  root : after.row.rootGeneration = before.row.rootGeneration
  created : after.row.createdAt = before.row.createdAt
  revision : after.row.revision = before.row.revision + 1
  expiry : before.row.expiresAt ≤ after.row.expiresAt
  state : after.row.state = before.row.state ∨ before.row.state = .active ∧ after.row.state = .expired ∨
    (before.row.state = .active ∨ before.row.state = .expired) ∧ after.row.state = .releasing

def Store.advance (s : Store) (after : WorkspaceRecord) (entry : AuditEntry) : Store :=
  { s.putWorkspace after.row entry with
    workspaceColumns := Function.update s.workspaceColumns after.row.id after.columns }

/-- What a call may write at its instant, by whether it did what it was asked for. -/
inductive Written (s : Store) (now : Option Instant) : Bool → Store → Prop
  | refused : Written s now false s
  | unchanged : Written s now true s
  | expired {at_ : Instant} {workspace : WorkspaceRow} (granted : Bool) (timed : now = some at_)
    (over_ : Elapsed s at_ workspace) : Written s now granted (s.expired at_ workspace)
  | inserted {run : Run} {acquiredAt : Instant} (unbound : run.row.workspaceId = none)
    (newcomer : Newcomer s run acquiredAt) : Written s now true (s.putRun run)
  | admitted {run : Run} {workspace : WorkspaceRow} {leaseId : String} {acquiredAt : Instant}
    (newcomer : Newcomer s run acquiredAt) (room : Room s run workspace acquiredAt)
    (unused : s.leases.find leaseId = none) :
    Written s now true ((s.putRun run).putLease (runLease run.row workspace leaseId))
  | transitioned {run : Run} {to_ : RunStatus} {patch : RunPatch} (found : s.findRun run.row.id = some run)
    (allowed : runTransitionAllowed run.row.status to_ = true)
    (open_ : run.row.workspaceId ≠ none → to_.isTerminal = false) : Written s now true (s.setRun (run.patched to_ patch))
  | ended {run : Run} {to_ : RunStatus} {patch : RunPatch} {lease : LeaseRow} {endedAt : Instant}
    (ends : Ends s run to_ patch lease endedAt) : Written s now true (endWith s run to_ patch lease endedAt)
  | cancelled {run : Run} {endedAt : Instant} (found : s.findRun run.row.id = some run)
    (home : run.row.workspaceId ≠ none) (allowed : runTransitionAllowed run.row.status .cancelled = true)
    (lost : ∀ lease ∈ s.leases.rows, lease.ownerId = run.row.id → lease.releasedAt ≠ none) :
    Written s now true (s.setRun (run.patched .cancelled { endedAt := some endedAt }))
  | swept {endedAt : Instant} {s' : Store} (cancels : Relation.ReflTransGen (Cancels endedAt) s s') : Written s now true s'
  | advanced {before after : WorkspaceRecord} {entry : AuditEntry} (found : s.findWorkspace before.row.id = some before)
    (forward : Forward before after) : Written s now true (s.advance after entry)

abbrev WrittenBy {α : Type} (s : Store) (now : Option Instant) (granted : α → Bool) (result : α × Store) : Prop :=
  Written s now (outcome granted result).1 (outcome granted result).2

/-! Admission. -/

section
variable {s : Store}

variable {run : Run} {after : Store} {lease : LeaseRow} {workspace : WorkspaceRow}
  {acquiredAt endedAt : Instant} {id : String}

theorem insertRunTx_ok (ok : insertRunTx s run = .ok after) :
    s.runs.find run.row.id = none ∧ after = s.putRun run := by
  unfold insertRunTx at ok
  split at ok
  · cases ok
  rename_i unused
  cases ok
  exact ⟨Option.not_isSome_iff_eq_none.mp unused, rfl⟩

theorem insertLeaseTx_ok (ok : insertLeaseTx s lease = .ok after) :
    s.leases.find lease.id = none ∧ after = s.putLease lease := by
  unfold insertLeaseTx at ok
  split at ok
  · cases ok
  rename_i unused
  split at ok
  · cases ok
  · cases ok
    exact ⟨Option.not_isSome_iff_eq_none.mp fun taken => unused (.inl taken), rfl⟩

theorem expireWorkspaceTx_ok {now : Instant} (ok : expireWorkspaceTx s now workspace = .ok after) :
    after = s.expired now workspace := by
  unfold expireWorkspaceTx at ok
  split at ok
  · cases ok
  · cases ok
    rfl

inductive Admission (s : Store) (run : Run) (acquiredAt : Instant) :
    Except WorkspaceStoreError RunAdmission × Store → Prop
  | refused {result : Except WorkspaceStoreError RunAdmission} (no : isAdmitted result = false) :
    Admission s run acquiredAt (result, s)
  | expired {workspace : WorkspaceRow} (over_ : Elapsed s acquiredAt workspace) :
    Admission s run acquiredAt (.ok (.denied .workspaceExpired), s.expired acquiredAt workspace)
  | inserted (unbound : run.row.workspaceId = none) (newcomer : Newcomer s run acquiredAt) :
    Admission s run acquiredAt (.ok (.admitted none), s.putRun run)
  | admitted {workspace : WorkspaceRow} {leaseId : String} (newcomer : Newcomer s run acquiredAt)
    (room : Room s run workspace acquiredAt) (unused : s.leases.find leaseId = none) :
    Admission s run acquiredAt
      (.ok (.admitted (some leaseId)), (s.putRun run).putLease (runLease run.row workspace leaseId))

theorem admitTo_cases {leaseId : String} (newcomer : s.runs.find run.row.id = none → Newcomer s run acquiredAt)
    (room : Room s run workspace acquiredAt) :
    Admission s run acquiredAt (admitTo s run workspace leaseId) := by
  unfold admitTo
  split
  · exact .refused rfl
  rename_i inserted ok
  obtain ⟨unused, rfl⟩ := insertRunTx_ok ok
  split
  · exact .refused rfl
  rename_i leased ok'
  obtain ⟨free, rfl⟩ := insertLeaseTx_ok ok'
  exact .admitted (newcomer unused) room free

theorem admitBound_cases {leaseId : String}
    (newcomer : s.runs.find run.row.id = none → Newcomer s run acquiredAt)
    (home : run.row.workspaceId = some workspace.id) (session : sessionScope s run = some (.bound workspace.id))
    (found : s.workspaces.find workspace.id = some workspace) :
    Admission s run acquiredAt (admitBound s run workspace leaseId acquiredAt) := by
  unfold admitBound
  split
  · exact .refused rfl
  rename_i scratch
  split
  · exact .refused rfl
  rename_i since
  split
  next elapsed =>
    split
    · exact .refused rfl
    rename_i after ok
    rw [expireWorkspaceTx_ok ok]
    exact .expired ⟨found, elapsed.1, elapsed.2⟩
  next unexpired =>
    split
    · exact .refused rfl
    · exact .refused rfl
    · exact .refused rfl
    · exact .refused rfl
    rename_i active
    split
    · exact .refused rfl
    rename_i idle
    rw [not_or] at since
    exact admitTo_cases newcomer
      { home := home
        session := session
        found := found
        scratch := not_not.mp scratch
        since := Nat.le_of_not_lt since.1
        active := active
        unexpired := Nat.lt_of_not_le fun late => unexpired ⟨active, late⟩
        idle := eq_false_of_ne_true idle }

theorem workspaceFacts_ok {allocation : AllocationRow}
    (ok : workspaceFacts s id = .ok (some (workspace, allocation))) :
    s.workspaces.find id = some workspace ∧ workspace.id = id := by
  unfold workspaceFacts at ok
  split at ok
  · cases ok
  rename_i row found
  split at ok
  · cases ok
  split at ok
  · cases ok
  · cases ok
    exact ⟨found, Table.find_key found⟩

theorem admission_cases (run : Run) (leaseId : Option String) (acquiredAt : Instant) :
    Admission s run acquiredAt (insertRunWithWorkspaceAdmission s run leaseId acquiredAt) := by
  unfold insertRunWithWorkspaceAdmission
  split
  · exact .refused rfl
  rename_i input
  split
  · exact .refused rfl
  rename_i fresh
  split
  · exact .refused rfl
  rename_i created
  have newcomer (unused : s.runs.find run.row.id = none) : Newcomer s run acquiredAt :=
    ⟨(not_not.mp input).symm, eq_true_of_ne_false fresh, not_not.mp created, unused⟩
  split
  · exact .refused rfl
  split
  next unbound =>
    split
    · exact .refused rfl
    split
    · exact .refused rfl
    split
    · exact .refused rfl
    rename_i inserted ok
    obtain ⟨unused, rfl⟩ := insertRunTx_ok ok
    exact .inserted unbound (newcomer unused)
  next workspaceId home =>
    split
    · exact .refused rfl
    split
    · exact .refused rfl
    rename_i session
    split
    · exact .refused rfl
    · exact .refused rfl
    rename_i workspace allocation facts
    obtain ⟨found, rfl⟩ := workspaceFacts_ok facts
    exact admitBound_cases newcomer home (not_not.mp session) found

/-! Transitions. -/

theorem findRun_id (found : s.findRun id = some run) : run.row.id = id := by
  obtain ⟨row, here, rfl⟩ := Option.map_eq_some_iff.mp found
  exact Table.find_key here

theorem written_transition (id : String) (to_ : RunStatus) (patch : RunPatch) :
    WrittenBy s none Except.isOk (transitionRun s id to_ patch) := by
  unfold transitionRun
  split
  · exact .refused
  rename_i run found
  obtain rfl := findRun_id found
  split
  · exact .refused
  rename_i ends
  split
  · exact .refused
  rename_i allowed
  refine .transitioned found (eq_true_of_ne_false allowed) fun bound => ?_
  rw [Bool.and_eq_true, not_and] at ends
  exact eq_false_of_ne_true (ends (Option.isSome_iff_ne_none.mpr bound))

theorem written_finish (id : String) (to_ : RunStatus) (patch : RunPatch) (leaseId : String) (endedAt : Instant) :
    WrittenBy s (some endedAt) isApplied (transitionWorkspaceRunTerminal s id to_ patch leaseId endedAt) := by
  unfold transitionWorkspaceRunTerminal
  split
  · exact .refused
  rename_i terminal
  rw [not_or, not_not] at terminal
  split
  · exact .refused
  rename_i run found
  obtain rfl := findRun_id found
  split
  · exact .refused
  rename_i workspaceId home
  split
  · exact .refused
  rename_i allowed
  rw [not_or, not_not] at allowed
  split
  · exact .refused
  rename_i workspace here
  split
  · exact .refused
  rename_i lease leased
  obtain rfl := Table.find_key leased
  split
  · exact .refused
  rename_i matching
  rw [not_or] at matching
  exact .ended
    { found := found
      allowed := eq_true_of_ne_false allowed.2
      terminal := eq_true_of_ne_false terminal.1
      ended := terminal.2
      leased := leased
      unreleased := Option.not_isSome_iff_eq_none.mp matching.2
      matching := ⟨workspaceId, workspace, home, allowed.1, here, eq_true_of_ne_false matching.1⟩ }

theorem mem_ownedLeases {runId : String} :
    lease ∈ ownedLeases s runId ↔ lease ∈ s.leases.rows ∧ lease.ownerId = runId := by
  rw [ownedLeases, mem_insertionSort, mem_filter, beq_iff_eq]

theorem written_cancel (id : String) (endedAt : Instant) :
    WrittenBy s (some endedAt) isApplied (cancelWorkspaceRunRecovery s id endedAt) := by
  unfold cancelWorkspaceRunRecovery
  split
  · exact .refused
  rename_i run found
  obtain rfl := findRun_id found
  split
  · exact .refused
  rename_i workspaceId home
  dsimp only
  split
  · exact .refused
  rename_i allowed
  rw [not_or, not_not] at allowed
  split
  · exact .refused
  split
  · exact .refused
  split
  · exact .refused
  rename_i workspace here
  split
  · exact .refused
  rename_i whole
  rw [Bool.not_eq_false, all_eq_true] at whole
  split
  next lost =>
    refine .cancelled found (home ▸ Option.some_ne_none _) (eq_true_of_ne_false allowed.2) ?_
    intro lease member owner unreleased
    have kept : lease ∈ (ownedLeases s run.row.id).filter fun lease => lease.releasedAt.isNone :=
      mem_filter.mpr ⟨mem_ownedLeases.mpr ⟨member, owner⟩, by rw [unreleased, Option.isNone_none]⟩
    rw [lost] at kept
    exact absurd kept not_mem_nil
  next lease only =>
    have kept : lease ∈ (ownedLeases s run.row.id).filter fun lease => lease.releasedAt.isNone :=
      only ▸ mem_singleton_self lease
    obtain ⟨owned, open_⟩ := mem_filter.mp kept
    have right := whole lease owned
    rw [Bool.and_eq_true] at right
    exact .ended
      { found := found
        allowed := eq_true_of_ne_false allowed.2
        terminal := rfl
        ended := rfl
        leased := Table.mem_rows_iff.mp (mem_ownedLeases.mp owned).1
        unreleased := Option.isNone_iff_eq_none.mp open_
        matching := ⟨workspaceId, workspace, home, allowed.1, here, right.1⟩ }
  · exact .refused

/-! The sweep. -/

theorem runTransitionAllowed_cancelled {status : RunStatus} (open_ : status.isTerminal = false) :
    runTransitionAllowed status .cancelled = true := by
  cases status <;> first | rfl | cases open_

theorem cancelWithLease_ok (found : s.findRun run.row.id = some run) (leased : lease ∈ s.leases.rows)
    (open_ : run.row.status.isTerminal = false) (ok : cancelWithLease s run lease endedAt = .ok after) :
    CancelsRun endedAt run s after := by
  unfold cancelWithLease at ok
  split at ok
  · cases ok
  rename_i workspaceId home
  split at ok
  · cases ok
  rename_i workspace here
  split at ok
  · cases ok
  rename_i matching
  split at ok
  · cases ok
  cases ok
  simp only [not_or, not_not] at matching
  exact ⟨lease,
    { found := found
      allowed := runTransitionAllowed_cancelled open_
      terminal := rfl
      ended := rfl
      leased := Table.mem_rows_iff.mp leased
      unreleased := Option.not_isSome_iff_eq_none.mp matching.2.2
      matching := ⟨workspaceId, workspace, home, matching.1, here, eq_true_of_ne_false matching.2.1⟩ }, rfl⟩

theorem sweepRun_ok (found : s.findRun run.row.id = some run) (open_ : run.row.status.isTerminal = false)
    (ok : sweepRun endedAt s run = .ok after) :
    after = s ∨ CancelsRun endedAt run s after := by
  unfold sweepRun at ok
  split at ok
  · split at ok
    · cases ok
      exact .inl rfl
    · cases ok
  · split at ok
    next lease only =>
      have member : lease ∈ runLeases s run.row.id := only ▸ mem_singleton_self lease
      split at ok
      · cases ok
      · exact .inr (cancelWithLease_ok found (mem_filter.mp member).1 open_ ok)
    · cases ok

theorem findRun_endWith {to_ : RunStatus} {patch : RunPatch} (apart : id ≠ run.row.id) :
    (endWith s run to_ patch lease endedAt).findRun id = s.findRun id := by
  have columns : (endWith s run to_ patch lease endedAt).runColumns id = s.runColumns id :=
    Function.update_of_ne apart _ _
  have row : (endWith s run to_ patch lease endedAt).runs.find id = s.runs.find id :=
    Table.find_set.trans (if_neg apart)
  rw [Store.findRun, Store.findRun, row, columns]

theorem swept_runs {runs : List Run} (distinct : (runs.map (·.row.id)).Nodup)
    (found : ∀ run ∈ runs, s.findRun run.row.id = some run)
    (open_ : ∀ run ∈ runs, run.row.status.isTerminal = false)
    (ok : runs.foldlM (sweepRun endedAt) s = .ok after) : Relation.ReflTransGen (Cancels endedAt) s after := by
  induction runs generalizing s with
  | nil =>
    cases ok
    exact .refl
  | cons run rest ih =>
    rw [foldlM_cons, bind_eq_ok] at ok
    obtain ⟨mid, first, ok'⟩ := ok
    obtain ⟨fresh, distinct'⟩ := nodup_cons.mp distinct
    have open' : ∀ other ∈ rest, other.row.status.isTerminal = false :=
      fun other member => open_ other (mem_cons_of_mem _ member)
    obtain rfl | cancels := sweepRun_ok (found run (mem_cons_self ..)) (open_ run (mem_cons_self ..)) first
    · exact ih distinct' (fun other member => found other (mem_cons_of_mem _ member)) open' ok'
    obtain ⟨lease, ends, rfl⟩ := cancels
    refine .head ⟨run, lease, ends, rfl⟩ (ih distinct' ?_ open' ok')
    intro other member
    have apart : other.row.id ≠ run.row.id := fun same => fresh (mem_map.mpr ⟨other, member, same⟩)
    exact (findRun_endWith apart).trans (found other (mem_cons_of_mem _ member))

theorem mem_orphans :
    run ∈ orphans s endedAt ↔ s.findRun run.row.id = some run ∧ isOrphan s endedAt run.row = true := by
  simp only [orphans, mem_map, mem_insertionSort, mem_filter]
  constructor
  · rintro ⟨row, ⟨member, orphan⟩, rfl⟩
    exact ⟨by rw [Store.findRun, Table.mem_rows_iff.mp member, Option.map_some], orphan⟩
  · rintro ⟨found, orphan⟩
    obtain ⟨row, here, same⟩ := Option.map_eq_some_iff.mp found
    have row_ : row = run.row := congrArg Run.row same
    obtain ⟨member, key⟩ := Table.find_eq_some.mp here
    exact ⟨row, ⟨member, row_ ▸ orphan⟩, by rw [key, same]⟩

theorem orphans_distinct (s : Store) (endedAt : Instant) : ((orphans s endedAt).map (·.row.id)).Nodup := by
  rw [orphans, map_map]
  have sorted : List.Perm (((s.runs.rows.filter (isOrphan s endedAt)).insertionSort fun a b => a.id ≤ b.id).map RunRow.id)
      ((s.runs.rows.filter (isOrphan s endedAt)).map RunRow.id) := (perm_insertionSort _ _).map _
  exact sorted.nodup_iff.mpr (s.runs.distinct.sublist (filter_sublist.map _))

theorem isOrphan_open {row : RunRow} (orphan : isOrphan s endedAt row = true) :
    row.status.isTerminal = false := by
  rw [isOrphan, Bool.and_eq_true] at orphan
  cases status : row.status with
  | queued => rfl
  | running => rfl
  | awaitingApproval => rfl
  | _ =>
    rw [status] at orphan
    cases orphan.2

theorem written_sweep (endedAt : Instant) : WrittenBy s (some endedAt) Except.isOk (sweepWorkspaceOrphanRuns s endedAt) := by
  unfold sweepWorkspaceOrphanRuns
  split
  · exact .refused
  rename_i swept ok
  split
  · exact .refused
  · exact .swept (swept_runs (orphans_distinct s endedAt) (fun run member => (mem_orphans.mp member).1)
      (fun run member => isOrphan_open (mem_orphans.mp member).2) ok)

/-! The lifecycle. -/

theorem selectWorkspace_ok {workspace : WorkspaceRecord} (ok : selectWorkspace s id = .ok workspace) :
    s.findWorkspace id = some workspace ∧ workspace.row.id = id := by
  unfold selectWorkspace at ok
  split at ok
  · cases ok
  rename_i found
  split at ok
  · cases ok
  cases ok
  obtain ⟨row, here, rfl⟩ := Option.map_eq_some_iff.mp found
  exact ⟨found, Table.find_key here⟩

theorem findWorkspace_some {workspace : WorkspaceRecord} (found : s.findWorkspace id = some workspace) :
    s.workspaces.find id = some workspace.row ∧ s.workspaceColumns id = workspace.columns := by
  obtain ⟨row, here, rfl⟩ := Option.map_eq_some_iff.mp found
  exact ⟨here, rfl⟩

theorem written_expire (id : String) (now : Instant) : WrittenBy s (some now) Except.isOk (expireWorkspace s id now) := by
  unfold expireWorkspace
  split
  · exact .refused
  rename_i workspace selected
  obtain ⟨found, rfl⟩ := selectWorkspace_ok selected
  split
  · exact .unchanged
  rename_i elapsed
  split
  · exact .refused
  rename_i after ok
  rw [expireWorkspaceTx_ok ok]
  rw [not_or, not_not] at elapsed
  exact .expired true rfl ⟨(findWorkspace_some found).1, elapsed.1, Nat.le_of_not_lt elapsed.2⟩

theorem written_row {now : Option Instant} {before : WorkspaceRecord} {row : WorkspaceRow} {entry : AuditEntry}
    (found : s.findWorkspace before.row.id = some before) (forward : Forward before { before with row := row }) :
    Written s now true (s.putWorkspace row entry) := by
  have columns : Function.update s.workspaceColumns row.id before.columns = s.workspaceColumns := by
    rw [show row.id = before.row.id from forward.id, ← (findWorkspace_some found).2, Function.update_eq_self]
  have written : Written s now true (s.advance { before with row := row } entry) := .advanced found forward
  rw [Store.advance, columns] at written
  exact written

theorem written_release (id owner : String) (now : Instant) :
    WrittenBy s (some now) Except.isOk (releaseWorkspace s id owner now) := by
  unfold releaseWorkspace
  split
  · exact .refused
  rename_i workspace selected
  obtain ⟨found, rfl⟩ := selectWorkspace_ok selected
  split
  · exact .refused
  split
  · exact .unchanged
  rename_i may
  split
  · exact .refused
  have state : workspace.row.state = .active ∨ workspace.row.state = .expired := by
    rwa [not_and_or, not_not, not_not] at may
  exact written_row found ⟨rfl, rfl, rfl, rfl, rfl, le_refl _, .inr (.inr ⟨state, rfl⟩)⟩

theorem written_renewActive {workspace : WorkspaceRecord} (ttl : WorkspaceTtl) (now : Instant)
    (found : s.findWorkspace workspace.row.id = some workspace) :
    WrittenBy s (some now) Except.isOk (renewActive s workspace ttl now) := by
  unfold renewActive
  split
  · exact .refused
  split
  · exact .refused
  split
  · exact .unchanged
  split
  · exact .refused
  rename_i longer
  split
  · exact .refused
  · exact .advanced found ⟨rfl, rfl, rfl, rfl, rfl, Nat.le_of_not_le longer, .inl rfl⟩

theorem written_renew (id owner : String) (ttl : WorkspaceTtl) (now : Instant) :
    WrittenBy s (some now) Except.isOk (renewWorkspace s id owner ttl now) := by
  unfold renewWorkspace
  split
  · exact .refused
  rename_i workspace selected
  obtain ⟨found, rfl⟩ := selectWorkspace_ok selected
  split
  · exact .refused
  split
  · exact .refused
  split
  next elapsed =>
    split
    · exact .refused
    rename_i after ok
    rw [expireWorkspaceTx_ok ok]
    exact .expired false rfl ⟨(findWorkspace_some found).1, elapsed.1, elapsed.2⟩
  · split
    · exact .refused
    · exact written_renewActive ttl now found

theorem Admission.written {result : Except WorkspaceStoreError RunAdmission × Store}
    (admission : Admission s run acquiredAt result) : WrittenBy s (some acquiredAt) isAdmitted result := by
  cases admission with
  | refused no =>
    unfold WrittenBy outcome
    rw [no]
    exact .refused
  | expired over_ => exact .expired false rfl over_
  | inserted unbound newcomer => exact .inserted unbound newcomer
  | admitted newcomer room unused => exact .admitted newcomer room unused

theorem perform_written (s : Store) (move : Move) : Written s move.instant (perform s move).1 (perform s move).2 := by
  cases move with
  | insertRun run leaseId acquiredAt => exact (admission_cases run leaseId acquiredAt).written
  | transition id to_ patch => exact written_transition id to_ patch
  | finish id to_ patch leaseId endedAt => exact written_finish id to_ patch leaseId endedAt
  | cancel id endedAt => exact written_cancel id endedAt
  | sweep endedAt => exact written_sweep endedAt
  | expire id now => exact written_expire id now
  | release id owner now => exact written_release id owner now
  | renew id owner ttl now => exact written_renew id owner ttl now

end

end Agent24.Workspace
