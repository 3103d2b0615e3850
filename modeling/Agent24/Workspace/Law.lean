import Agent24.Workspace.Pairing

/-! Runs in workspaces through any calls: the leases in step with the runs, and the workspaces' lifecycles. -/

set_option autoImplicit false
namespace Agent24.Workspace
open Library Agent Recovery

/-! What the pairing says. -/

def openLeases (s : Store) (workspaceId : String) : List LeaseRow :=
  s.leases.rows.filter fun lease => Db.isOpenRun lease && lease.workspaceId == workspaceId

def openLeasesOf (s : Store) (runId : String) : List LeaseRow :=
  s.leases.rows.filter fun lease => Db.isOpenRun lease && lease.ownerId == runId

structure InStep (s : Store) : Prop where
  single : ∀ workspaceId, (openLeases s workspaceId).length ≤ 1
  going : ∀ id run workspaceId, s.runs.find id = some run → run.workspaceId = some workspaceId →
    run.status.isTerminal = false → ∃ lease workspace, openLeasesOf s id = [lease] ∧
      s.workspaces.find workspaceId = some workspace ∧ lease.workspaceId = workspaceId ∧
      lease.rootGeneration = workspace.rootGeneration
  over_ : ∀ id run workspaceId, s.runs.find id = some run → run.workspaceId = some workspaceId →
    run.status.isTerminal = true → openLeasesOf s id = [] ∧ ∃ lease, runLeases s id = [lease] ∧
      lease.workspaceId = workspaceId ∧ lease.releasedAt = run.endedAt ∧ run.endedAt ≠ none

variable {s s' : Store}

theorem Tied.going {run : RunRow} {workspaceId : String} {lease : LeaseRow} (tied : Tied s run workspaceId lease)
    (going : run.status.isTerminal = false) : openLeasesOf s run.id = [lease] := by
  have unreleased := tied.released
  rw [going, if_neg Bool.false_ne_true] at unreleased
  refine s.leases.filter_eq_singleton tied.leased ?_ fun other member counts => ?_
  · rw [Bool.and_eq_true, beq_iff_eq]
    exact ⟨isOpenRun_iff.mpr ⟨tied.kind, unreleased⟩, tied.owner⟩
  · rw [Bool.and_eq_true, beq_iff_eq] at counts
    exact tied.only other member (isOpenRun_iff.mp counts.1).1 counts.2

theorem Tied.over_ {run : RunRow} {workspaceId : String} {lease : LeaseRow} (tied : Tied s run workspaceId lease)
    (over_ : run.status.isTerminal = true) : openLeasesOf s run.id = [] := by
  refine List.filter_eq_nil_iff.mpr fun other member counts => ?_
  rw [Bool.and_eq_true, beq_iff_eq] at counts
  obtain ⟨kind, unreleased⟩ := isOpenRun_iff.mp counts.1
  have released := tied.released
  rw [over_, if_pos rfl, ← tied.only other member kind counts.2, unreleased] at released
  exact tied.ended over_ released.symm

theorem Paired.inStep (paired : Paired s) (unheld : ∀ id, s.holds.find id = none) : InStep s where
  single workspaceId := by
    refine s.leases.length_filter_le_one fun a memberA b memberB countsA countsB => ?_
    rw [Bool.and_eq_true, beq_iff_eq] at countsA countsB
    exact paired.single a memberA b memberB countsA.1 countsB.1 (countsA.2.trans countsB.2.symm)
  going id run workspaceId found home going := by
    obtain ⟨lease, tied⟩ := paired.tied id run workspaceId found (unheld id) home
    obtain ⟨workspace, here, root⟩ := tied.root
    obtain rfl := Table.find_key found
    exact ⟨lease, workspace, tied.going going, here, tied.home, root.symm⟩
  over_ id run workspaceId found home over_ := by
    obtain ⟨lease, tied⟩ := paired.tied id run workspaceId found (unheld id) home
    obtain rfl := Table.find_key found
    refine ⟨tied.over_ over_, lease, tied.runLeases_eq, tied.home, ?_, tied.ended over_⟩
    rw [tied.released, if_pos over_]

/-! The stores that calls reach. -/

/-- Before the first call no run is held or bound and no run has a lease; the rest is as it may be. -/
structure Seeded (s : Store) : Prop where
  unheld : ∀ id, s.holds.find id = none
  unbound : ∀ id run, s.runs.find id = some run → run.workspaceId = none ∧ (s.runColumns id).inputWorkspaceId = none
  hosts : ∀ lease ∈ s.leases.rows, lease.kind = .host

/-- What other calls change between: sessions, allocations, approvals, hosts' leases and the audit log. -/
structure Elsewhere (s s' : Store) : Prop where
  runs : s'.runs = s.runs
  runColumns : s'.runColumns = s.runColumns
  holds : s'.holds = s.holds
  workspaces : s'.workspaces = s.workspaces
  workspaceColumns : s'.workspaceColumns = s.workspaceColumns
  leases : ∀ lease : LeaseRow, lease.kind = .run → (lease ∈ s'.leases.rows ↔ lease ∈ s.leases.rows)

inductive Reachable : Store → Prop
  | start {s : Store} (seeded : Seeded s) : Reachable s
  | call {s : Store} (reachable : Reachable s) (move : Move) : Reachable (step s move)
  | elsewhere {s s' : Store} (reachable : Reachable s) (other : Elsewhere s s') : Reachable s'

theorem Seeded.paired (seeded : Seeded s) : Paired s where
  tied id run workspaceId found _ home := by
    rw [(seeded.unbound id run found).1] at home
    cases home
  owned lease member kind := by
    rw [seeded.hosts lease member] at kind
    cases kind
  single a member _ _ open_ _ _ := by
    have kind := (isOpenRun_iff.mp open_).1
    rw [seeded.hosts a member] at kind
    cases kind
  named id run found _ := by
    obtain ⟨unbound, input⟩ := seeded.unbound id run found
    rw [input, unbound]

theorem Elsewhere.paired (other : Elsewhere s s') (paired : Paired s) : Paired s' := by
  refine paired.keep ⟨other.leases, fun id workspace found => ⟨workspace, ?_, rfl⟩⟩ other.runs other.holds other.runColumns
  rw [other.workspaces]
  exact found

theorem written_holds {now : Option Instant} {granted : Bool} (written : Written s now granted s') :
    s'.holds = s.holds := by
  cases written with
  | swept cancels =>
    induction cancels with
    | refl => rfl
    | tail _ cancel ih =>
      obtain ⟨_, _, _, rfl⟩ := cancel
      exact ih
  | _ => rfl

theorem Reachable.paired (reachable : Reachable s) : Paired s ∧ ∀ id, s.holds.find id = none := by
  induction reachable with
  | start seeded => exact ⟨seeded.paired, seeded.unheld⟩
  | call _ move ih =>
    refine ⟨ih.1.step move, fun id => ?_⟩
    rw [step, written_holds (perform_written _ move)]
    exact ih.2 id
  | elsewhere _ other ih =>
    refine ⟨other.paired ih.1, fun id => ?_⟩
    rw [other.holds]
    exact ih.2 id

/-! The lifecycle of one workspace through any calls. -/

def WorkspaceState.Onward (before after : WorkspaceState) : Prop :=
  after = before ∨ before = .active ∧ after = .expired ∨ (before = .active ∨ before = .expired) ∧ after = .releasing

theorem WorkspaceState.Onward.trans {a b c : WorkspaceState} (first : Onward a b) (second : Onward b c) :
    Onward a c := by
  obtain rfl | ⟨rfl, rfl⟩ | ⟨begun, rfl⟩ := first
  · exact second
  · obtain rfl | ⟨active, -⟩ | ⟨-, rfl⟩ := second
    · exact .inr (.inl ⟨rfl, rfl⟩)
    · cases active
    · exact .inr (.inr ⟨.inl rfl, rfl⟩)
  · obtain rfl | ⟨active, -⟩ | ⟨begun', -⟩ := second
    · exact .inr (.inr ⟨begun, rfl⟩)
    · cases active
    cases begun' with
    | inl active => cases active
    | inr expired => cases expired

structure Aged (count : Nat) (before after : WorkspaceRecord) : Prop where
  id : after.row.id = before.row.id
  kind : after.row.kind = before.row.kind
  root : after.row.rootGeneration = before.row.rootGeneration
  revision : after.row.revision = before.row.revision + count
  expiry : before.row.expiresAt ≤ after.row.expiresAt
  state : WorkspaceState.Onward before.row.state after.row.state

theorem Aged.refl (workspace : WorkspaceRecord) : Aged 0 workspace workspace :=
  ⟨rfl, rfl, rfl, rfl, Nat.le_refl _, .inl rfl⟩

theorem Aged.trans {first second : Nat} {a b c : WorkspaceRecord} (earlier : Aged first a b) (later : Aged second b c) :
    Aged (first + second) a c where
  id := later.id.trans earlier.id
  kind := later.kind.trans earlier.kind
  root := later.root.trans earlier.root
  revision := by rw [later.revision, earlier.revision, Nat.add_assoc]
  expiry := earlier.expiry.trans later.expiry
  state := earlier.state.trans later.state

theorem Forward.aged {before after : WorkspaceRecord} (forward : Forward before after) : Aged 1 before after :=
  ⟨forward.id, forward.kind, forward.root, forward.revision, forward.expiry, forward.state⟩

theorem findWorkspace_advance {before after : WorkspaceRecord} {entry : AuditEntry} {id : String}
    (found : s.findWorkspace before.row.id = some before) (same : after.row.id = before.row.id) :
    (s.advance after entry).findWorkspace id = if id = before.row.id then some after else s.findWorkspace id := by
  have row : (s.advance after entry).workspaces.find id =
      if id = after.row.id then (s.workspaces.find id).map fun _ => after.row else s.workspaces.find id := Table.find_set
  rw [Store.findWorkspace, row, same]
  split
  next here =>
    have columns : (s.advance after entry).workspaceColumns after.row.id = after.columns := Function.update_self ..
    rw [here, (findWorkspace_some found).1, Option.map_some, Option.map_some, ← same, columns]
  next apart =>
    have columns : (s.advance after entry).workspaceColumns id = s.workspaceColumns id :=
      Function.update_of_ne (same ▸ apart) ..
    rw [columns]
    rfl

theorem advance_aged {before after workspace : WorkspaceRecord} {entry : AuditEntry} {id : String}
    (found : s.findWorkspace before.row.id = some before) (forward : Forward before after)
    (here : s.findWorkspace id = some workspace) :
    ∃ workspace', (s.advance after entry).findWorkspace id = some workspace' ∧
      (workspace' = workspace ∨ Aged 1 workspace workspace') := by
  rw [findWorkspace_advance found forward.id]
  split
  next same =>
    rw [same, found] at here
    cases here
    exact ⟨after, rfl, .inr forward.aged⟩
  · exact ⟨workspace, here, .inl rfl⟩

theorem written_aged {now : Option Instant} {granted : Bool} (written : Written s now granted s') {id : String}
    {workspace : WorkspaceRecord} (here : s.findWorkspace id = some workspace) :
    ∃ workspace', s'.findWorkspace id = some workspace' ∧ (workspace' = workspace ∨ Aged 1 workspace workspace') := by
  cases written with
  | @expired at_ row _ _ over_ =>
    have found : s.findWorkspace row.id = some ⟨row, s.workspaceColumns row.id⟩ := by
      rw [Store.findWorkspace, over_.found, Option.map_some]
    let after : WorkspaceRecord :=
      ⟨{ row with state := .expired, revision := row.revision + 1 }, s.workspaceColumns row.id⟩
    have forward : Forward ⟨row, s.workspaceColumns row.id⟩ after :=
      ⟨rfl, rfl, rfl, rfl, rfl, Nat.le_refl _, .inr (.inl ⟨over_.active, rfl⟩)⟩
    have aged : ∃ workspace', (s.advance after (expiryEntry at_ row)).findWorkspace id = some workspace' ∧
        (workspace' = workspace ∨ Aged 1 workspace workspace') := advance_aged found forward here
    rw [Store.advance, Function.update_eq_self] at aged
    exact aged
  | advanced found forward => exact advance_aged found forward here
  | swept cancels =>
    refine ⟨workspace, ?_, .inl rfl⟩
    induction cancels with
    | refl => exact here
    | tail _ cancel ih =>
      obtain ⟨_, _, _, rfl⟩ := cancel
      exact ih
  | _ => exact ⟨workspace, here, .inl rfl⟩

theorem run_aged (moves : List Move) {id : String} {workspace : WorkspaceRecord}
    (here : s.findWorkspace id = some workspace) :
    ∃ workspace', (Library.run step moves s).findWorkspace id = some workspace' ∧
      Aged (changes step (·.findWorkspace id) moves s) workspace workspace' := by
  induction moves generalizing s workspace with
  | nil => exact ⟨workspace, here, .refl workspace⟩
  | cons move rest ih =>
    obtain ⟨mid, found, aged⟩ := written_aged (perform_written s move) here
    obtain ⟨last, found', later⟩ := ih found
    refine ⟨last, found', ?_⟩
    rw [changes]
    split
    next same =>
      rw [here] at same
      obtain rfl := Option.some.inj (found.symm.trans same)
      rw [Nat.zero_add]
      exact later
    next changed =>
      obtain rfl | aged := aged
      · exact absurd (found.trans here.symm) changed
      · exact aged.trans later

/-! Runs and workspaces together. -/

/-- An admission of a bound run is for the workspace of its session, which is active, in time and free. -/
theorem admitted_room {run : Run} {leaseId : Option String} {acquiredAt : Instant} {given : Option String}
    (ok : insertRunWithWorkspaceAdmission s run leaseId acquiredAt = (.ok (.admitted given), s')) :
    (run.row.workspaceId = none ∧ given = none ∧ s' = s.putRun run) ∨
      ∃ workspace id, Room s run workspace acquiredAt ∧ given = some id ∧
        s' = (s.putRun run).putLease (runLease run.row workspace id) := by
  have admission := @admission_cases s run leaseId acquiredAt
  rw [ok] at admission
  cases admission with
  | refused no => cases no
  | inserted unbound => exact .inl ⟨unbound, rfl, rfl⟩
  | admitted _ room => exact .inr ⟨_, _, room, rfl, rfl⟩

theorem refused_writes (s : Store) (move : Move) (refused : (perform s move).1 = false) :
    step s move = s ∨ ∃ at_ workspace, move.instant = some at_ ∧ Elapsed s at_ workspace ∧
      step s move = s.expired at_ workspace := by
  have written := perform_written s move
  rw [refused] at written
  rw [step]
  generalize (perform s move).2 = after at written
  cases written with
  | refused => exact .inl rfl
  | expired _ timed over_ => exact .inr ⟨_, _, timed, over_, rfl⟩

/-- What holds of the runs in workspaces, their leases and the workspaces, in any order of calls. -/
structure Orderly : Prop where
  inStep : ∀ s, Reachable s → InStep s
  admits : ∀ s s' run leaseId acquiredAt given,
    insertRunWithWorkspaceAdmission s run leaseId acquiredAt = (.ok (.admitted given), s') →
      (run.row.workspaceId = none ∧ given = none ∧ s' = s.putRun run) ∨
        ∃ workspace id, Room s run workspace acquiredAt ∧ given = some id ∧
          s' = (s.putRun run).putLease (runLease run.row workspace id)
  refuses : ∀ s move, (perform s move).1 = false → step s move = s ∨ ∃ at_ workspace, move.instant = some at_ ∧
    Elapsed s at_ workspace ∧ step s move = s.expired at_ workspace
  ages : ∀ s moves id workspace, s.findWorkspace id = some workspace →
    ∃ workspace', (Library.run step moves s).findWorkspace id = some workspace' ∧
      Aged (changes step (·.findWorkspace id) moves s) workspace workspace'

theorem workspaces_orderly : Orderly where
  inStep _ reachable := reachable.paired.1.inStep reachable.paired.2
  admits _ _ _ _ _ _ ok := admitted_room ok
  refuses s move refused := refused_writes s move refused
  ages _ moves _ _ here := run_aged moves here

end Agent24.Workspace
