import Agent24.Workspace.Pairing
import Agent24.Recovery.Head

/-! The sweep of orphans among the runs that a recovery holds: what each call keeps, and when a sweep is right. -/

set_option autoImplicit false
namespace Agent24.Workspace
open Library Agent Recovery List

/-! The calls. -/

inductive JointMove where
  | insertRun (run : Run) (leaseId : Option String) (acquiredAt : Instant)
  | recovery (move : Recovery.Move)
  | sweep (endedAt : Instant)

/-- A transaction of the recovery: the columns that it does not read are as they were. -/
def recover (s : Store) (move : Recovery.Move) : Store := { s with toDb := Recovery.step s.toDb move }

def jointStep (s : Store) : JointMove → Store
  | .insertRun run leaseId acquiredAt => (insertRunWithWorkspaceAdmission s run leaseId acquiredAt).2
  | .recovery move => recover s move
  | .sweep endedAt => (sweepWorkspaceOrphanRuns s endedAt).2

/-! The invariant. -/

def HoldLeased (s : Store) (hold : Hold) : Prop :=
  ∃ lease ∈ s.leases.rows, Db.isOpenRun lease = true ∧ lease.ownerId = hold.runId ∧
    lease.workspaceId = hold.workspaceId ∧ lease.rootGeneration = hold.rootGeneration

structure Sound (s : Store) : Prop where
  paired : Paired s
  standing : Standing s.toDb
  leased : ∀ runId hold, s.holds.find runId = some hold → hold.recoveryState = .active → HoldLeased s hold
  /-- Only a run that waits for one has a pending approval. -/
  parked : ∀ a ∈ s.approvals.rows, a.status = .pending →
    ∃ run, s.runs.find a.runId = some run ∧ run.status = .awaitingApproval
  closed : ∀ runId hold run, s.holds.find runId = some hold → hold.releasedAt ≠ none →
    s.runs.find runId = some run → run.status.isTerminal = true

variable {s s' : Store}

/-! What leaves the runs that no hold is for alone. -/

structure Spares (s s' : Store) : Prop where
  columns : s'.runColumns = s.runColumns
  holds : ∀ id, s'.holds.find id = none → s.holds.find id = none
  runs : ∀ id, s.holds.find id = none → s'.runs.find id = s.runs.find id
  homes : ∀ id run, s.runs.find id = some run →
    ∃ run', s'.runs.find id = some run' ∧ run'.workspaceId = run.workspaceId
  roots : ∀ id workspace, s.workspaces.find id = some workspace →
    ∃ workspace', s'.workspaces.find id = some workspace' ∧ workspace'.rootGeneration = workspace.rootGeneration
  kept : ∀ lease ∈ s.leases.rows, s.holds.find lease.ownerId = none → lease ∈ s'.leases.rows
  gained : ∀ lease ∈ s'.leases.rows, lease ∈ s.leases.rows ∨ s.holds.find lease.ownerId ≠ none

theorem Spares.paired (spares : Spares s s') (paired : Paired s)
    (owned : ∀ lease ∈ s'.leases.rows, lease ∉ s.leases.rows → lease.kind = .run →
      ∃ run, s'.runs.find lease.ownerId = some run ∧ run.workspaceId = some lease.workspaceId)
    (single : ∀ a ∈ s'.leases.rows, ∀ b ∈ s'.leases.rows, Db.isOpenRun a = true → Db.isOpenRun b = true →
      a.workspaceId = b.workspaceId → a = b) : Paired s' where
  tied id run workspaceId found unheld home := by
    have free := spares.holds id unheld
    rw [spares.runs id free] at found
    obtain ⟨lease, tied⟩ := paired.tied id run workspaceId found free home
    have mine : s.holds.find run.id = none := (Table.find_key found).symm ▸ free
    refine ⟨lease, { tied with leased := spares.kept lease tied.leased (tied.owner ▸ mine), only := ?_, root := ?_ }⟩
    · intro other member kind owner
      obtain before | held := spares.gained other member
      · exact tied.only other before kind owner
      · rw [owner] at held
        exact absurd mine held
    · obtain ⟨workspace, here, root⟩ := tied.root
      obtain ⟨workspace', here', root'⟩ := spares.roots _ _ here
      exact ⟨workspace', here', root'.trans root⟩
  owned lease member kind := by
    by_cases before : lease ∈ s.leases.rows
    · obtain ⟨run, found, home⟩ := paired.owned lease before kind
      obtain ⟨run', found', home'⟩ := spares.homes _ _ found
      exact ⟨run', found', home'.trans home⟩
    · exact owned lease member before kind
  single := single
  named id run found unheld := by
    have free := spares.holds id unheld
    rw [spares.columns]
    exact paired.named id run (spares.runs id free ▸ found) free

variable {db db' : Db} {id runId : String} {hold : Hold} {endedAt : Instant} {run : Run}

theorem evolves_homes (evolves : Evolves db db') {run : RunRow} (found : db.runs.find id = some run) :
    ∃ run', db'.runs.find id = some run' ∧ run'.workspaceId = run.workspaceId := by
  obtain ⟨run', found', kept⟩ := Evolves.found (evolves.runs id) found
  exact ⟨run', found', (congrArg RunRow.workspaceId kept :)⟩

theorem evolves_roots (evolves : Evolves db db') {workspace : WorkspaceRow}
    (found : db.workspaces.find id = some workspace) :
    ∃ workspace', db'.workspaces.find id = some workspace' ∧ workspace'.rootGeneration = workspace.rootGeneration := by
  obtain ⟨workspace', found', kept⟩ := Evolves.found (evolves.workspaces id) found
  exact ⟨workspace', found', (congrArg WorkspaceRow.rootGeneration kept :)⟩

theorem evolves_unheld (evolves : Evolves db db') (unheld : db'.holds.find id = none) :
    db.holds.find id = none := by
  have same := evolves.holds id
  rw [unheld, Option.map_none] at same
  exact Option.map_eq_none_iff.mp same.symm

theorem spares_of (evolves : Evolves s.toDb db')
    (runs : ∀ id, s.holds.find id = none → db'.runs.find id = s.runs.find id)
    (kept : ∀ lease ∈ s.leases.rows, s.holds.find lease.ownerId = none → lease ∈ db'.leases.rows)
    (gained : ∀ lease ∈ db'.leases.rows, lease ∈ s.leases.rows ∨ s.holds.find lease.ownerId ≠ none) :
    Spares s { s with toDb := db' } where
  columns := rfl
  holds _ unheld := evolves_unheld evolves unheld
  runs := runs
  homes _ _ found := evolves_homes evolves found
  roots _ _ found := evolves_roots evolves found
  kept := kept
  gained := gained

/-! A resolution. -/

theorem HoldLeased.mono (leased : HoldLeased s hold)
    (kept : ∀ lease ∈ s.leases.rows, Db.isOpenRun lease = true → lease.ownerId = hold.runId → lease ∈ s'.leases.rows) :
    HoldLeased s' hold := by
  obtain ⟨lease, member, open_, owner, rest⟩ := leased
  exact ⟨lease, kept lease member open_ owner, open_, owner, rest⟩

theorem Sound.resolved (sound : Sound s) {status : ApprovalStatus} {decision : Option Decision} {at_ : Instant}
    {resolution : Recovery.Resolution}
    (ok : resolveWithLegacyReady s.toDb id status decision at_ = .ok (resolution, db')) :
    Sound { s with toDb := db' } := by
  have evolves := evolves_resolved ok
  have standing := standing_resolved sound.standing ok
  obtain ⟨row, mid, resolved, cases_⟩ := resolve_cases ok
  obtain ⟨a, found, pending, settles, rfl, rfl⟩ := resolveApproval_ok resolved
  -- A pending row after is a pending row before.
  have parked : ∀ b ∈ (s.approvals.set (a.resolved status decision at_)).rows, b.status = .pending →
      ∃ run, s.runs.find b.runId = some run ∧ run.status = .awaitingApproval := by
    intro b member waits
    obtain ⟨rfl, -⟩ | ⟨before, -⟩ := Table.mem_set.mp member
    · have settled : isResolved .pending = true := waits ▸ settles
      cases settled
    · exact sound.parked b before waits
  obtain ⟨rfl, -⟩ | ⟨hold, _, held, -, -, -, -, -, unreleased, -, _, rfl⟩ := cases_
  · have spares : Spares s { s with approvals := s.approvals.set (a.resolved status decision at_) } :=
      spares_of evolves (fun _ _ => rfl) (fun _ member _ => member) fun _ member => .inl member
    exact
      { paired := spares.paired sound.paired (fun lease member fresh => absurd member fresh) sound.paired.single
        standing := standing
        leased := sound.leased
        parked := parked
        closed := sound.closed }
  · have spares := spares_of evolves (fun _ _ => rfl) (fun _ member _ => member) fun _ member => .inl member
    refine
      { paired := spares.paired sound.paired (fun lease member fresh => absurd member fresh) sound.paired.single
        standing := standing
        leased := fun runId other here active => ?_
        parked := parked
        closed := fun runId other run here released foundRun => ?_ }
    · obtain ⟨rfl, -⟩ | ⟨-, before⟩ := found_setHold here
      · cases active
      · exact sound.leased runId other before active
    · obtain ⟨rfl, -⟩ | ⟨-, before⟩ := found_setHold here
      · exact absurd unreleased released
      · exact sound.closed runId other run before released foundRun

/-! A promotion. -/

theorem Sound.promoted (sound : Sound s) {attempt : PromotionAttempt} (made : Promotes s.toDb attempt db') :
    Sound { s with toDb := db' } := by
  have evolves := evolves_promoted made
  have standing := standing_promoted sound.standing made
  cases made with
  | same => exact sound
  | expired =>
    have spares := spares_of evolves (fun _ _ => rfl) (fun _ member _ => member) fun _ member => .inl member
    exact
      { paired := spares.paired sound.paired (fun lease member fresh => absurd member fresh) sound.paired.single
        standing := standing
        leased := sound.leased
        parked := sound.parked
        closed := sound.closed }
  | admitted readyAt facts entry next_ unused alone =>
    obtain ⟨held, isReady⟩ := readNextReady_some next_
    obtain ⟨bound, state⟩ := sound.standing _ _ held
    obtain ⟨run, foundRun, home⟩ := bound.run
    have rows {lease : LeaseRow} : lease ∈ (s.leases.put attempt.lease).rows ↔
        lease = attempt.lease ∨ lease ∈ s.leases.rows := by
      rw [Table.mem_put]
      exact or_congr_right (and_iff_left_of_imp fun member => Table.find_eq_none.mp unused lease member)
    have spares := spares_of evolves (fun _ _ => rfl) (fun _ member _ => rows.mpr (.inr member)) fun lease member => by
      obtain rfl | before := rows.mp member
      · exact .inr fun none_ => (by rw [show s.holds.find attempt.lease.ownerId = _ from held] at none_; cases none_)
      · exact .inl before
    refine
      { paired := spares.paired sound.paired ?_ ?_
        standing := standing
        leased := fun runId hold here active => ?_
        parked := sound.parked
        closed := fun runId hold run' here released foundRun' => ?_ }
    · intro lease member fresh _
      obtain rfl := (rows.mp member).resolve_right fresh
      exact ⟨run, foundRun, home⟩
    · intro x memberX y memberY openX openY together
      have apart {lease : LeaseRow} (member : lease ∈ s.leases.rows) (open_ : Db.isOpenRun lease = true) :
          lease.workspaceId ≠ attempt.lease.workspaceId := openRunLeaseExists_none alone member open_
      obtain rfl | oldX := rows.mp memberX
      · obtain rfl | oldY := rows.mp memberY
        · rfl
        · exact absurd together.symm (apart oldY openY)
      · obtain rfl | oldY := rows.mp memberY
        · exact absurd together (apart oldX openX)
        · exact sound.paired.single x oldX y oldY openX openY together
    · obtain ⟨rfl, -⟩ | ⟨-, before⟩ := found_setHold here
      · exact ⟨attempt.lease, rows.mpr (.inl rfl), rfl, rfl, rfl, rfl⟩
      · exact (sound.leased runId hold before active).mono fun lease member _ _ => rows.mpr (.inr member)
    · obtain ⟨rfl, -⟩ | ⟨-, before⟩ := found_setHold here
      · have unreleased : ¬ attempt.hint.releasedAt.isSome = true :=
          fun over_ => (by rw [state.released.mpr over_] at isReady; cases isReady)
        exact absurd (Option.isSome_iff_ne_none.mpr released) unreleased
      · exact sound.closed runId hold run' before released foundRun'

/-! The end of a held run. -/

theorem readRunLease_some {run : TerminalRunFacts} {workspace : WorkspaceRow} {lease : LeaseRow}
    (ok : readRunLease db hold run workspace = .ok (some lease)) :
    lease ∈ db.leases.rows ∧ Db.isOpenRun lease = true ∧ lease.ownerId = hold.runId := by
  unfold readRunLease at ok
  split at ok
  · cases ok
  next found only =>
    split at ok
    · cases ok
    cases ok
    have kept : lease ∈ db.leases.rows.filter fun l => Db.isOpenRun l && l.ownerId == hold.runId :=
      only ▸ mem_singleton_self lease
    obtain ⟨member, selected⟩ := mem_filter.mp kept
    rw [Bool.and_eq_true, beq_iff_eq] at selected
    exact ⟨member, selected⟩
  · cases ok

theorem snapshot_lease {snap : Snapshot} (ok : snapshot db runId = .ok snap) :
    readRunLease db snap.hold snap.run snap.workspace = .ok snap.lease := by
  unfold snapshot at ok
  dsimp only [bind, Except.bind] at ok
  split at ok
  · cases ok
  split at ok
  · cases ok
  split at ok
  · cases ok
  split at ok
  · cases ok
  split at ok
  · cases ok
  rename_i lease read
  iterate 3
    split at ok
    · cases ok
  cases ok
  exact read

theorem endWritten_rows (attempt : TerminalAttempt) (snap : Snapshot) :
    (endWritten db attempt snap).leases = (db.releaseLease snap.lease attempt.endedAt).leases ∧
      (endWritten db attempt snap).workspaces = db.workspaces ∧
      ((endWritten db attempt snap).approvals = db.approvals ∨
        (endWritten db attempt snap).approvals = (db.abortPending snap.hold.runId attempt.endedAt).approvals) := by
  unfold endWritten
  by_cases cancelled : attempt.result = .cancelled
  · rw [if_pos cancelled]
    cases snap.lease with
    | none => exact ⟨rfl, rfl, .inr rfl⟩
    | some lease => exact ⟨rfl, rfl, .inr rfl⟩
  · rw [if_neg cancelled]
    cases snap.lease with
    | none => exact ⟨rfl, rfl, .inl rfl⟩
    | some lease => exact ⟨rfl, rfl, .inl rfl⟩

theorem closed_rows {held : Hold} (ok : closeCohortIfLast db held endedAt = .ok (some db')) :
    db'.leases = db.leases ∧ db'.workspaces = db.workspaces ∧ db'.approvals = db.approvals := by
  obtain ⟨cohort, found, -, ⟨-, rfl⟩ | ⟨all, -, rfl⟩⟩ := closeCohortIfLast_ok ok
  · exact ⟨rfl, rfl, rfl⟩
  · exact ⟨rfl, rfl, rfl⟩

structure EndRows (db db' : Db) (attempt : CompositionAttempt) (snap : Snapshot) : Prop where
  holds : db'.holds = db.holds.set (snap.hold.releasedHold attempt.terminal.endedAt)
  runs : db'.runs =
    (db.finishRun snap.hold.runId snap.run.run.status attempt.terminal.result attempt.terminal.endedAt).runs
  leases : db'.leases = (db.releaseLease snap.lease attempt.terminal.endedAt).leases
  workspaces : db'.workspaces = db.workspaces
  approvals : db'.approvals = db.approvals ∨
    db'.approvals = (db.abortPending snap.hold.runId attempt.terminal.endedAt).approvals

theorem ends_rows {attempt : CompositionAttempt} {snap : Snapshot} (ends : Recovery.Ends db db' attempt snap) :
    EndRows db db' attempt snap := by
  obtain ⟨after, closes, rfl⟩ := ends.writes
  obtain ⟨holds, runs, -⟩ := closed_frame closes
  obtain ⟨leases, workspaces, approvals⟩ := closed_rows closes
  obtain ⟨setHolds, -, endedRuns⟩ := @endWritten_tables db attempt.terminal snap
  obtain ⟨setLeases, setWorkspaces, setApprovals⟩ := @endWritten_rows db attempt.terminal snap
  exact
    { holds := holds.trans setHolds
      runs := runs.trans endedRuns
      leases := leases.trans setLeases
      workspaces := workspaces.trans setWorkspaces
      approvals := setApprovals.imp approvals.trans approvals.trans }

theorem mem_releaseLease {lease : Option LeaseRow} {row : LeaseRow}
    (member : row ∈ (db.releaseLease lease endedAt).leases.rows) :
    row ∈ db.leases.rows ∨ ∃ own, lease = some own ∧ row = { own with releasedAt := some endedAt } := by
  cases lease with
  | none => exact .inl member
  | some own =>
    obtain ⟨rfl, -⟩ | ⟨before, -⟩ := Table.mem_set.mp member
    · exact .inr ⟨own, rfl, rfl⟩
    · exact .inl before

theorem mem_releaseLease_of {lease : Option LeaseRow} {row : LeaseRow} (member : row ∈ db.leases.rows)
    (apart : ∀ own, lease = some own → row.id ≠ own.id) :
    row ∈ (db.releaseLease lease endedAt).leases.rows := by
  cases lease with
  | none => exact member
  | some own => exact Table.mem_set.mpr (.inr ⟨member, apart own rfl⟩)

theorem mem_abortPending {b : ApprovalRow} (member : b ∈ (db.abortPending runId endedAt).approvals.rows)
    (waits : b.status = .pending) :
    b ∈ db.approvals.rows := by
  simp only [Db.abortPending, Table.mem_update] at member
  obtain ⟨a, old, edited⟩ := member
  split at edited
  · rw [← edited] at waits
    cases waits
  · exact edited ▸ old

theorem Sound.composed (sound : Sound s) {attempt : CompositionAttempt} {snap : Snapshot}
    (ends : Recovery.Ends s.toDb db' attempt snap) : Sound { s with toDb := db' } := by
  have evolves := evolves_ends ends
  have standing := standing_ends sound.standing ends
  have rows := ends_rows ends
  obtain ⟨-, held, foundRun, -⟩ := snapshot_ok ends.fresh
  have terminal := (planTerminal_release ends.plan).1
  -- The lease that is released is the held run's own.
  have own {lease : LeaseRow} (mine : snap.lease = some lease) :
      lease ∈ s.leases.rows ∧ Db.isOpenRun lease = true ∧ lease.ownerId = snap.hold.runId := by
    have read := snapshot_lease ends.fresh
    rw [mine] at read
    exact readRunLease_some read
  have apart {row : LeaseRow} (member : row ∈ s.leases.rows) (other : row.ownerId ≠ snap.hold.runId) (lease : LeaseRow)
      (mine : snap.lease = some lease) : row.id ≠ lease.id := by
    intro same
    obtain ⟨here, -, owner⟩ := own mine
    have row_ : row = lease := Option.some.inj
      ((Table.mem_rows_iff.mp member).symm.trans (same ▸ Table.mem_rows_iff.mp here))
    exact other (row_ ▸ owner)
  have kept {row : LeaseRow} (member : row ∈ s.leases.rows) (other : row.ownerId ≠ snap.hold.runId) :
      row ∈ db'.leases.rows := by
    rw [rows.leases]
    exact mem_releaseLease_of member (apart member other)
  have runs {id : String} (other : id ≠ snap.hold.runId) : db'.runs.find id = s.runs.find id := by
    rw [rows.runs]
    exact finishRun_other other
  have spares : Spares s { s with toDb := db' } := by
    refine spares_of evolves ?_ ?_ ?_
    · intro id unheld
      refine runs ?_
      rintro rfl
      rw [held] at unheld
      cases unheld
    · intro row member unheld
      refine kept member ?_
      intro owner
      rw [owner, held] at unheld
      cases unheld
    · intro row member
      rw [rows.leases] at member
      obtain before | ⟨lease, mine, rfl⟩ := mem_releaseLease member
      · exact .inl before
      refine .inr fun unheld => ?_
      rw [show s.holds.find lease.ownerId = some snap.hold from (own mine).2.2 ▸ held] at unheld
      cases unheld
  refine
    { paired := spares.paired sound.paired ?_ ?_
      standing := standing
      leased := fun runId hold here active => ?_
      parked := ?_
      closed := fun runId hold run here released found => ?_ }
  · intro row member fresh kind
    rw [rows.leases] at member
    obtain before | ⟨lease, mine, rfl⟩ := mem_releaseLease member
    · exact absurd before fresh
    obtain ⟨here, open_, -⟩ := own mine
    obtain ⟨run, found, home⟩ := sound.paired.owned lease here (isOpenRun_iff.mp open_).1
    obtain ⟨run', found', home'⟩ := spares.homes _ _ found
    exact ⟨run', found', home'.trans home⟩
  · have open_ {row : LeaseRow} (member : row ∈ db'.leases.rows) (unreleased : Db.isOpenRun row = true) :
        row ∈ s.leases.rows := by
      rw [rows.leases] at member
      obtain before | ⟨lease, -, rfl⟩ := mem_releaseLease member
      · exact before
      · cases (isOpenRun_iff.mp unreleased).2
    intro a memberA b memberB openA openB together
    exact sound.paired.single a (open_ memberA openA) b (open_ memberB openB) openA openB together
  · have found : (s.holds.set (snap.hold.releasedHold attempt.terminal.endedAt)).find runId = some hold :=
      rows.holds ▸ here
    obtain ⟨rfl, -⟩ | ⟨other, before⟩ := found_setHold found
    · cases active
    refine (sound.leased runId hold before active).mono fun lease member _ owner => kept member ?_
    rw [owner, Table.find_key before]
    exact other
  · intro b member waits
    obtain ⟨read, all, settled⟩ := ends.approvals
    have other : b.runId ≠ snap.hold.runId := by
      intro same
      have listed : b ∈ read := by
        rw [readAllApprovals_pending all]
        exact mem_filter.mpr ⟨member, beq_iff_eq.mpr same⟩
      exact bne_iff_ne.mp (all_eq_true.mp settled b listed) waits
    have before : b ∈ s.approvals.rows := by
      obtain same | same := rows.approvals
      · exact same ▸ member
      · exact mem_abortPending (same ▸ member) waits
    obtain ⟨run, found, status⟩ := sound.parked b before waits
    exact ⟨run, (runs other).trans found, status⟩
  · have stored : (s.holds.set (snap.hold.releasedHold attempt.terminal.endedAt)).find runId = some hold :=
      rows.holds ▸ here
    obtain ⟨rfl, same⟩ | ⟨other, before⟩ := found_setHold stored
    · have ended : db'.runs.find snap.hold.runId = some { snap.run.run with
          status := attempt.terminal.result
          endedAt := some attempt.terminal.endedAt } := by
        rw [rows.runs, Db.finishRun, Table.find_update, foundRun, Option.map_some, if_pos]
        rw [Table.find_key foundRun, beq_self_eq_true, beq_self_eq_true, Bool.and_self]
      obtain rfl := Option.some.inj ((same ▸ found).symm.trans ended)
      exact terminal
    · exact sound.closed runId hold run before released ((runs other).symm.trans found)

/-! An admission. -/

theorem standing_keep (standing : Standing db) (holds : db'.holds = db.holds)
    (approvals : db'.approvals = db.approvals) (cohorts : db'.cohorts = db.cohorts)
    (workspaces : db'.workspaces = db.workspaces)
    (runs : ∀ id, db.holds.find id ≠ none → db'.runs.find id = db.runs.find id) : Standing db' := by
  intro runId hold found
  rw [holds] at found
  obtain ⟨bound, held⟩ := standing runId hold found
  have same : db'.runs.find hold.runId = db.runs.find hold.runId :=
    runs _ (by rw [Table.find_key found, found]; exact Option.some_ne_none _)
  refine ⟨⟨?_, ?_, ?_, ?_⟩, held.keep same fun _ => by rw [cohorts]⟩
  · rw [same]
    exact bound.run
  · rw [cohorts]
    exact bound.cohort
  · rw [workspaces]
    exact bound.workspace
  · rw [approvals]
    exact bound.approval

theorem Sound.admission (sound : Sound s) (run : Run) (leaseId : Option String) (acquiredAt : Instant) :
    Sound (insertRunWithWorkspaceAdmission s run leaseId acquiredAt).2 := by
  have admission := @admission_cases s run leaseId acquiredAt
  have paired := sound.paired.written admission.written
  revert admission paired
  unfold outcome
  generalize insertRunWithWorkspaceAdmission s run leaseId acquiredAt = result
  intro admission paired
  -- The newcomer's id is no other run's, and no hold's.
  have other (newcomer : Newcomer s run acquiredAt) {id : String} {row : RunRow} (found : s.runs.find id = some row) :
      (s.putRun run).runs.find id = s.runs.find id := by
    refine find_putRun.trans (if_neg ?_)
    rintro rfl
    rw [newcomer.unused] at found
    cases found
  have heldRun {id : String} (held : s.holds.find id ≠ none) : ∃ row, s.runs.find id = some row := by
    obtain ⟨hold, found⟩ := Option.ne_none_iff_exists'.mp held
    obtain ⟨row, here, -⟩ := (sound.standing id hold found).1.run
    exact ⟨row, Table.find_key found ▸ here⟩
  have parked (newcomer : Newcomer s run acquiredAt) : ∀ a ∈ s.approvals.rows, a.status = .pending →
      ∃ row, (s.putRun run).runs.find a.runId = some row ∧ row.status = .awaitingApproval := by
    intro a member waits
    obtain ⟨row, found, status⟩ := sound.parked a member waits
    exact ⟨row, (other newcomer found).trans found, status⟩
  have closed (newcomer : Newcomer s run acquiredAt) : ∀ runId hold row, s.holds.find runId = some hold →
      hold.releasedAt ≠ none → (s.putRun run).runs.find runId = some row → row.status.isTerminal = true := by
    intro runId hold row found released here
    obtain ⟨before, old⟩ := heldRun (found ▸ Option.some_ne_none hold)
    exact sound.closed runId hold row found released ((other newcomer old).symm.trans here)
  cases admission with
  | refused no => exact sound
  | expired over_ =>
    have evolves : Evolves s.toDb (s.expired acquiredAt _).toDb :=
      { Evolves.refl s.toDb with workspaces := frozen_set over_.found rfl }
    refine
      { paired := paired
        standing := fun runId hold found => ?_
        leased := sound.leased
        parked := sound.parked
        closed := sound.closed }
    obtain ⟨bound, held⟩ := sound.standing runId hold found
    exact ⟨bound.evolve evolves rfl, held.keep rfl fun _ => rfl⟩
  | inserted unbound newcomer =>
    exact
      { paired := paired
        standing := standing_keep sound.standing rfl rfl rfl rfl fun id held => by
          obtain ⟨row, found⟩ := heldRun held
          exact other newcomer found
        leased := sound.leased
        parked := parked newcomer
        closed := closed newcomer }
  | @admitted workspace id newcomer room unused =>
    refine
      { paired := paired
        standing := standing_keep sound.standing rfl rfl rfl rfl fun id held => by
          obtain ⟨row, found⟩ := heldRun held
          exact other newcomer found
        leased := fun runId hold found active => ?_
        parked := parked newcomer
        closed := closed newcomer }
    refine (sound.leased runId hold found active).mono fun lease member _ _ => ?_
    exact Table.mem_put.mpr (.inr ⟨member, Table.find_eq_none.mp unused lease member⟩)

/-! The sweep. -/

def Clear (s : Store) (endedAt : Instant) : Prop :=
  ∀ run ∈ orphans s endedAt, (∀ hold, s.holds.find run.row.id = some hold → hold.releasedAt ≠ none) ∧
    run.row.createdAt ≤ endedAt

structure Swept (endedAt : Instant) (runs : List Run) (s s' : Store) : Prop where
  paired : Paired s'
  over_ : ∀ run ∈ runs, s'.findRun run.row.id = some (run.patched .cancelled { endedAt := some endedAt })
  others : ∀ id, (∀ run ∈ runs, run.row.id ≠ id) → s'.findRun id = s.findRun id
  kept : ∀ lease ∈ s.leases.rows, (∀ run ∈ runs, run.row.id ≠ lease.ownerId) → lease ∈ s'.leases.rows

structure SameElse (s s' : Store) : Prop where
  holds : s'.holds = s.holds
  approvals : s'.approvals = s.approvals
  cohorts : s'.cohorts = s.cohorts
  workspaces : s'.workspaces = s.workspaces
  leaseExpiry : s'.leaseExpiry = s.leaseExpiry
  hosts : ∀ lease : LeaseRow, lease.kind = .host → (lease ∈ s'.leases.rows ↔ lease ∈ s.leases.rows)

theorem SameElse.refl (s : Store) : SameElse s s := ⟨rfl, rfl, rfl, rfl, rfl, fun _ _ => Iff.rfl⟩

theorem SameElse.trans {a b c : Store} (first : SameElse a b) (second : SameElse b c) : SameElse a c where
  holds := second.holds.trans first.holds
  approvals := second.approvals.trans first.approvals
  cohorts := second.cohorts.trans first.cohorts
  workspaces := second.workspaces.trans first.workspaces
  leaseExpiry := second.leaseExpiry.trans first.leaseExpiry
  hosts lease kind := (second.hosts lease kind).trans (first.hosts lease kind)

theorem mem_endWith {to_ : RunStatus} {patch : RunPatch} {lease : LeaseRow} (leased : lease ∈ s.leases.rows)
    {row : LeaseRow} : row ∈ (endWith s run to_ patch lease endedAt).leases.rows ↔
      row = { lease with releasedAt := some endedAt } ∨ row ∈ s.leases.rows ∧ row ≠ lease := by
  refine Table.mem_set.trans (or_congr (and_iff_left ⟨lease, leased, rfl⟩) (and_congr_right fun member => ?_))
  constructor
  · rintro apart rfl
    exact apart rfl
  · intro apart same
    exact apart (Option.some.inj ((Table.mem_rows_iff.mp member).symm.trans (same ▸ Table.mem_rows_iff.mp leased)))

theorem sameElse_endWith {to_ : RunStatus} {patch : RunPatch} {lease : LeaseRow}
    (leased : lease ∈ s.leases.rows) (kind : lease.kind = .run) :
    SameElse s (endWith s run to_ patch lease endedAt) where
  holds := rfl
  approvals := rfl
  cohorts := rfl
  workspaces := rfl
  leaseExpiry := rfl
  hosts row host := by
    rw [mem_endWith leased]
    constructor
    · rintro (rfl | ⟨member, -⟩)
      · rw [show lease.kind = .host from host] at kind
        cases kind
      · exact member
    · intro member
      refine .inr ⟨member, ?_⟩
      rintro rfl
      rw [host] at kind
      cases kind

theorem sameElse_sweep (cancels : Relation.ReflTransGen (Cancels endedAt) s s') : SameElse s s' := by
  induction cancels with
  | refl => exact .refl s
  | tail _ cancel ih =>
    obtain ⟨run, lease, ends, rfl⟩ := cancel
    obtain ⟨_, _, _, _, _, matching⟩ := ends.matching
    exact ih.trans (sameElse_endWith (Table.mem_rows_iff.mpr ends.leased) (leaseMatches_iff.mp matching).1)

theorem hostLives_same (same : SameElse s s') (workspaceId : String) (now : Instant) :
    hostLives s' workspaceId now = hostLives s workspaceId now := by
  rw [Bool.eq_iff_iff, hostLives, hostLives, any_eq_true, any_eq_true, same.leaseExpiry]
  refine exists_congr fun lease => and_congr_left fun lives => ?_
  simp only [Bool.and_eq_true, beq_iff_eq] at lives
  exact same.hosts lease lives.1.1.2

theorem hasPendingApproval_same (same : SameElse s s') (runId : String) :
    hasPendingApproval s' runId = hasPendingApproval s runId := by
  rw [hasPendingApproval, hasPendingApproval, same.approvals]

theorem isOrphan_same (same : SameElse s s') (endedAt : Instant) (run : RunRow) :
    isOrphan s' endedAt run = isOrphan s endedAt run := by
  simp only [isOrphan, hostLives_same same, hasPendingApproval_same same]

structure Taken (s : Store) (endedAt : Instant) (run : Run) : Prop where
  found : s.findRun run.row.id = some run
  unheld : s.holds.find run.row.id = none
  bound : run.row.workspaceId ≠ none
  going : run.row.status.isTerminal = false
  unasked : hasPendingApproval s run.row.id = false
  created : run.row.createdAt ≤ endedAt

theorem sweepRun_taken (paired : Paired s) (taken : Taken s endedAt run) :
    ∃ lease, Ends s run .cancelled { endedAt := some endedAt } lease endedAt ∧
      sweepRun endedAt s run = .ok (endWith s run .cancelled { endedAt := some endedAt } lease endedAt) := by
  obtain ⟨workspaceId, home⟩ := Option.ne_none_iff_exists'.mp taken.bound
  obtain ⟨row, columns⟩ := findRun_some taken.found
  obtain ⟨lease, tied⟩ := paired.tied _ _ workspaceId row taken.unheld home
  obtain ⟨workspace, here, root⟩ := tied.root
  have unreleased : lease.releasedAt = none := by
    rw [tied.released, taken.going, if_neg Bool.false_ne_true]
  have input : run.columns.inputWorkspaceId = some workspaceId := by
    rw [← columns, paired.named _ _ row taken.unheld, home]
  have matching : leaseMatches run workspaceId workspace lease endedAt = true :=
    leaseMatches_iff.mpr ⟨tied.kind, tied.owner, tied.home, root.symm, tied.since.ge, tied.since.trans_le taken.created⟩
  refine ⟨lease,
    { found := taken.found
      allowed := runTransitionAllowed_cancelled taken.going
      terminal := rfl
      ended := rfl
      leased := Table.mem_rows_iff.mp tied.leased
      unreleased := unreleased
      matching := ⟨workspaceId, workspace, home, input, here, matching⟩ }, ?_⟩
  unfold sweepRun
  rw [taken.unasked, if_neg Bool.false_ne_true, tied.runLeases_eq]
  dsimp only
  rw [unreleased, Option.isSome_none, if_neg Bool.false_ne_true]
  unfold cancelWithLease
  rw [home]
  dsimp only
  rw [here]
  dsimp only
  rw [if_neg, if_neg]
  · rw [row, Option.map_some]
    exact not_not.mpr rfl
  · rw [input, matching, unreleased]
    simp

theorem sweep_taken {runs : List Run} (paired : Paired s) (distinct : (runs.map (·.row.id)).Nodup)
    (taken : ∀ run ∈ runs, Taken s endedAt run) :
    ∃ swept, runs.foldlM (sweepRun endedAt) s = .ok swept ∧ Swept endedAt runs s swept := by
  induction runs generalizing s with
  | nil =>
    exact ⟨s, rfl, paired, fun _ member => absurd member not_mem_nil, fun _ _ => rfl, fun _ member _ => member⟩
  | cons run rest ih =>
    obtain ⟨fresh, distinct'⟩ := nodup_cons.mp distinct
    have first := taken run (mem_cons_self ..)
    obtain ⟨lease, ends, done⟩ := sweepRun_taken paired first
    have leased : lease ∈ s.leases.rows := Table.mem_rows_iff.mpr ends.leased
    obtain ⟨_, _, -, -, -, matching⟩ := ends.matching
    obtain ⟨kind, owner, -⟩ := leaseMatches_iff.mp matching
    have same : SameElse s (endWith s run .cancelled { endedAt := some endedAt } lease endedAt) :=
      sameElse_endWith leased kind
    have apart {other : Run} (member : other ∈ rest) : other.row.id ≠ run.row.id :=
      fun same => fresh (mem_map.mpr ⟨other, member, same⟩)
    have later : ∀ other ∈ rest, Taken (endWith s run .cancelled { endedAt := some endedAt } lease endedAt) endedAt other := by
      intro other member
      have before := taken other (mem_cons_of_mem _ member)
      exact { before with
        found := (findRun_endWith (apart member)).trans before.found
        unasked := (hasPendingApproval_same same _).trans before.unasked }
    obtain ⟨swept, rest_, after⟩ := ih (paired.ended ends) distinct' later
    refine ⟨swept, ?_, after.paired, ?_, ?_, ?_⟩
    · rw [foldlM_cons, done, ok_bind]
      exact rest_
    · intro other member
      obtain rfl | member := mem_cons.mp member
      · rw [after.others _ fun later member same => apart member same]
        exact findRun_setRun first.found rfl
      · exact after.over_ other member
    · intro id none_
      rw [after.others id fun other member => none_ other (mem_cons_of_mem _ member)]
      exact findRun_endWith (none_ run (mem_cons_self ..)).symm
    · intro row member none_
      refine after.kept row ?_ fun other listed => none_ other (mem_cons_of_mem _ listed)
      refine (mem_endWith leased).mpr (.inr ⟨member, ?_⟩)
      rintro rfl
      exact none_ run (mem_cons_self ..) owner.symm

/-! When a sweep is right. -/

def isAbandoned (s : Store) (endedAt : Instant) (run : RunRow) : Bool :=
  !run.status.isTerminal && (run.workspaceId.any fun workspaceId => !hostLives s workspaceId endedAt) &&
    !hasPendingApproval s run.id && (s.holds.find run.id).all fun hold => hold.releasedAt.isSome

structure SweepRight (s : Store) (endedAt : Instant) : Prop where
  succeeds : ∃ count, (sweepWorkspaceOrphanRuns s endedAt).1 = .ok count
  exact_ : ∀ id, (sweepWorkspaceOrphanRuns s endedAt).2.findRun id = (s.findRun id).map fun run =>
    if isAbandoned s endedAt run.row then run.patched .cancelled { endedAt := some endedAt } else run
  active : ∀ runId hold, (sweepWorkspaceOrphanRuns s endedAt).2.holds.find runId = some hold →
    hold.recoveryState = .active → HoldLeased (sweepWorkspaceOrphanRuns s endedAt).2 hold
  ready : ∀ runId hold, (sweepWorkspaceOrphanRuns s endedAt).2.holds.find runId = some hold →
    hold.recoveryState = .ready → Promotable s.toDb hold → Promotable (sweepWorkspaceOrphanRuns s endedAt).2.toDb hold

theorem hasPendingApproval_iff :
    hasPendingApproval s runId = true ↔ ∃ a ∈ s.approvals.rows, a.runId = runId ∧ a.status = .pending := by
  simp only [hasPendingApproval, any_eq_true, Bool.and_eq_true, beq_iff_eq]

theorem isOrphan_iff {run : RunRow} : isOrphan s endedAt run = true ↔
    (∃ workspaceId, run.workspaceId = some workspaceId ∧ hostLives s workspaceId endedAt = false) ∧
      run.status.isTerminal = false ∧ (run.status = .awaitingApproval → hasPendingApproval s run.id = false) := by
  rw [isOrphan, Bool.and_eq_true, Option.any_eq_true]
  refine and_congr (exists_congr fun workspaceId => and_congr_right fun _ => ?_) ?_
  · rw [Bool.not_eq_true']
  · cases run.status <;> simp [RunStatus.isTerminal]

theorem Sound.taken (sound : Sound s) (clear : Clear s endedAt) (orphan : run ∈ orphans s endedAt) :
    Taken s endedAt run := by
  obtain ⟨released, created⟩ := clear run orphan
  obtain ⟨found, selected⟩ := mem_orphans.mp orphan
  obtain ⟨⟨workspaceId, home, -⟩, going, unasked⟩ := isOrphan_iff.mp selected
  obtain ⟨row, -⟩ := findRun_some found
  refine
    { found := found
      unheld := ?_
      bound := home ▸ Option.some_ne_none _
      going := going
      unasked := ?_
      created := created }
  · cases held : s.holds.find run.row.id with
    | none => rfl
    | some hold =>
      have over_ := sound.closed _ hold _ held (released hold held) row
      rw [going] at over_
      cases over_
  · by_contra asked
    obtain ⟨a, member, mine, waits⟩ := hasPendingApproval_iff.mp (eq_true_of_ne_false asked)
    obtain ⟨other, found', status⟩ := sound.parked a member waits
    rw [mine, row] at found'
    cases found'
    exact asked (unasked status)

theorem Sound.swept (sound : Sound s) (clear : Clear s endedAt) :
    ∃ swept, sweepWorkspaceOrphanRuns s endedAt = (.ok (orphans s endedAt).length, swept) ∧
      Swept endedAt (orphans s endedAt) s swept ∧ SameElse s swept := by
  obtain ⟨swept, done, after⟩ :=
    sweep_taken sound.paired (orphans_distinct s endedAt) fun run orphan => sound.taken clear orphan
  have same : SameElse s swept := sameElse_sweep (swept_runs (orphans_distinct s endedAt)
    (fun run member => (mem_orphans.mp member).1) (fun run member => isOrphan_open (mem_orphans.mp member).2) done)
  refine ⟨swept, ?_, after, same⟩
  have none_ : swept.runs.rows.any (isOrphan swept endedAt) = false := by
    refine any_eq_false.mpr fun row member orphan => ?_
    rw [isOrphan_same same] at orphan
    have found : swept.findRun row.id = some ⟨row, swept.runColumns row.id⟩ := by
      rw [Store.findRun, Table.mem_rows_iff.mp member, Option.map_some]
    by_cases taken : ∃ run ∈ orphans s endedAt, run.row.id = row.id
    · -- A run that was swept is over.
      obtain ⟨run, listed, here⟩ := taken
      have ended := after.over_ run listed
      rw [here, found] at ended
      have row_ := congrArg Run.row (Option.some.inj ended)
      have going := (isOrphan_iff.mp orphan).2.1
      rw [show row = _ from row_] at going
      cases going
    · -- Any other is the row that it was.
      rw [after.others row.id fun run listed here => taken ⟨run, listed, here⟩] at found
      exact taken ⟨⟨row, swept.runColumns row.id⟩, mem_orphans.mpr ⟨found, orphan⟩, rfl⟩
  unfold sweepWorkspaceOrphanRuns
  rw [done]
  dsimp only
  rw [none_, if_neg Bool.false_ne_true]

theorem Sound.abandoned_iff (sound : Sound s) (clear : Clear s endedAt)
    (found : s.findRun run.row.id = some run) :
    isAbandoned s endedAt run.row = true ↔ run ∈ orphans s endedAt := by
  rw [isAbandoned, Bool.and_eq_true, Bool.and_eq_true, Bool.and_eq_true, Option.any_eq_true]
  simp only [Bool.not_eq_true']
  constructor
  · rintro ⟨⟨⟨going, bound⟩, unasked⟩, -⟩
    exact mem_orphans.mpr ⟨found, isOrphan_iff.mpr ⟨bound, going, fun _ => unasked⟩⟩
  · intro orphan
    have taken := sound.taken clear orphan
    obtain ⟨bound, going, -⟩ := isOrphan_iff.mp (mem_orphans.mp orphan).2
    refine ⟨⟨⟨going, bound⟩, taken.unasked⟩, ?_⟩
    rw [taken.unheld, Option.all_none]

theorem Sound.spared (sound : Sound s) (clear : Clear s endedAt) (held : s.holds.find runId = some hold) :
    ∀ run ∈ orphans s endedAt, run.row.id ≠ runId := by
  rintro run orphan rfl
  have unheld := (sound.taken clear orphan).unheld
  rw [held] at unheld
  cases unheld

theorem Swept.run_same {runs : List Run} (swept : Swept endedAt runs s s')
    (spared : ∀ run ∈ runs, run.row.id ≠ id) : s'.runs.find id = s.runs.find id := by
  have same := congrArg (Option.map Run.row) (swept.others id spared)
  simpa [Store.findRun, Function.comp_def] using same

theorem promotionFacts_same (same : SameElse s s') (run : s'.runs.find hold.runId = s.runs.find hold.runId)
    (readyAt now : Instant) :
    promotionFacts s'.toDb hold readyAt now = promotionFacts s.toDb hold readyAt now := by
  unfold promotionFacts
  rw [run, same.approvals, same.cohorts, same.workspaces]

theorem promotable_of_facts (standing : Standing db) (found : db.holds.find runId = some hold)
    (ready : hold.recoveryState = .ready)
    (facts : ∃ readyAt, hold.readyAt = some readyAt ∧ ∀ now, readyAt ≤ now → ∃ facts, promotionFacts db hold readyAt now = .ok (some facts)) :
    Promotable db hold := by
  refine ⟨facts, ?_⟩
  rintro next_ alone attempt rfl unused later before
  obtain ⟨readyAt, since, permits⟩ := facts
  obtain ⟨-, held⟩ := standing runId attempt.hint found
  rw [since, Option.all_some, decide_eq_true_eq] at later
  obtain ⟨facts, read⟩ := permits attempt.acquiredAt later
  obtain ⟨run, id, _, _, _, _, workspace, foundRun, running, mine, -, -, -, -, -, -, -, -, foundW, -, rfl⟩ :=
    promotionFacts_some read
  have sameRun : run.facts.id = attempt.hint.runId := (Table.find_key foundRun : run.id = attempt.hint.runId)
  have unreleased : attempt.hint.releasedAt = none := by
    have open_ := (not_congr held.released).mp (by rw [ready]; exact fun same => (by cases same))
    simpa using open_
  rw [foundW, Option.all_some, decide_eq_true_eq] at before
  unfold promoteLegacyRecovery
  rw [unused]
  dsimp only
  rw [if_neg (not_not.mpr next_), foundRun]
  dsimp only
  rw [if_neg (by rw [running]; exact Bool.false_ne_true), since]
  dsimp only
  rw [if_neg (Nat.not_lt.mpr later), read]
  dsimp only
  rw [if_neg (not_or.mpr ⟨not_not.mpr sameRun, not_not.mpr mine.symm⟩), if_neg (Nat.not_le.mpr before),
    if_neg (by rw [alone]; exact Bool.false_ne_true)]
  exact commitAdmission_admits (readNextReady_some next_).1 unreleased
    (held.resumed (by rw [ready]; exact fun same => (by cases same))) read

theorem Sound.sweep (sound : Sound s) (clear : Clear s endedAt) {swept : Store}
    (after : Swept endedAt (orphans s endedAt) s swept) (same : SameElse s swept) : Sound swept where
  paired := after.paired
  standing := standing_keep sound.standing same.holds same.approvals same.cohorts same.workspaces fun id held => by
    obtain ⟨hold, found⟩ := Option.ne_none_iff_exists'.mp held
    exact after.run_same (sound.spared clear found)
  leased runId hold held active := by
    rw [same.holds] at held
    refine (sound.leased runId hold held active).mono fun lease member _ owner => after.kept lease member ?_
    rw [owner, Table.find_key held]
    exact sound.spared clear held
  parked a member waits := by
    rw [same.approvals] at member
    obtain ⟨run, found, status⟩ := sound.parked a member waits
    refine ⟨run, (after.run_same fun other orphan mine => ?_).trans found, status⟩
    have unasked := (sound.taken clear orphan).unasked
    rw [hasPendingApproval_iff.mpr ⟨a, member, mine.symm, waits⟩] at unasked
    cases unasked
  closed runId hold run held released found := by
    rw [same.holds] at held
    rw [after.run_same (sound.spared clear held)] at found
    exact sound.closed runId hold run held released found

theorem Sound.sweepRight (sound : Sound s) (clear : Clear s endedAt) : SweepRight s endedAt := by
  obtain ⟨swept, done, after, same⟩ := sound.swept clear
  have sound' := sound.sweep clear after same
  constructor
  case succeeds => exact ⟨_, congrArg Prod.fst done⟩
  case exact_ =>
    intro id
    rw [done]
    cases found : s.findRun id with
    | none =>
      rw [after.others id, found, Option.map_none]
      rintro run orphan rfl
      rw [(mem_orphans.mp orphan).1] at found
      cases found
    | some run =>
      obtain rfl := findRun_id found
      rw [Option.map_some]
      by_cases orphan : run ∈ orphans s endedAt
      · rw [after.over_ run orphan, if_pos ((sound.abandoned_iff clear found).mpr orphan)]
      rw [if_neg fun abandoned => orphan ((sound.abandoned_iff clear found).mp abandoned), after.others _ ?_, found]
      intro other listed here
      have listed' := (mem_orphans.mp listed).1
      rw [here, found] at listed'
      exact orphan (Option.some.inj listed' ▸ listed)
  case active =>
    rw [done]
    exact sound'.leased
  case ready =>
    rw [done]
    intro runId hold held ready promotable
    obtain ⟨readyAt, since, permits⟩ := promotable.facts
    refine promotable_of_facts sound'.standing held ready ⟨readyAt, since, fun now later => ?_⟩
    have held' : s.holds.find runId = some hold := same.holds ▸ held
    have run := after.run_same (sound.spared clear held')
    rw [promotionFacts_same same (by rw [Table.find_key held]; exact run)]
    exact permits now later

/-! A sweep that is right met no hold. -/

theorem sweepRun_created {after : Store} (ok : sweepRun endedAt s run = .ok after) :
    run.row.status = .awaitingApproval ∧ hasPendingApproval s run.row.id = true ∨ run.row.createdAt ≤ endedAt := by
  unfold sweepRun at ok
  split at ok
  next asked =>
    split at ok
    next waits => exact .inl ⟨waits, asked⟩
    · cases ok
  · split at ok
    · split at ok
      · cases ok
      unfold cancelWithLease at ok
      split at ok
      · cases ok
      split at ok
      · cases ok
      split at ok
      · cases ok
      rename_i matching
      rw [not_or, not_or] at matching
      obtain ⟨-, -, -, -, since, until_⟩ := leaseMatches_iff.mp (eq_true_of_ne_false matching.2.1)
      exact .inr (since.trans until_)
    · cases ok

theorem swept_each {runs : List Run} {swept : Store} (distinct : (runs.map (·.row.id)).Nodup)
    (found : ∀ run ∈ runs, s.findRun run.row.id = some run)
    (open_ : ∀ run ∈ runs, run.row.status.isTerminal = false)
    (ok : runs.foldlM (sweepRun endedAt) s = .ok swept) (member : run ∈ runs) :
    ∃ mid after, SameElse s mid ∧ sweepRun endedAt mid run = .ok after := by
  obtain ⟨earlier, later, rfl⟩ := append_of_mem member
  rw [foldlM_append, bind_eq_ok] at ok
  obtain ⟨mid, before, ok'⟩ := ok
  rw [foldlM_cons, bind_eq_ok] at ok'
  obtain ⟨after, here, -⟩ := ok'
  rw [map_append] at distinct
  have cancels := swept_runs (nodup_append.mp distinct).1
    (fun other listed => found other (mem_append_left _ listed))
    (fun other listed => open_ other (mem_append_left _ listed)) before
  exact ⟨mid, after, sameElse_sweep cancels, here⟩

theorem sweep_ok {count : Nat} (ok : (sweepWorkspaceOrphanRuns s endedAt).1 = .ok count) :
    ∃ swept, (orphans s endedAt).foldlM (sweepRun endedAt) s = .ok swept ∧
      (sweepWorkspaceOrphanRuns s endedAt).2 = swept ∧ ∀ row ∈ swept.runs.rows, isOrphan swept endedAt row = false := by
  unfold sweepWorkspaceOrphanRuns at ok ⊢
  split at ok
  · cases ok
  rename_i swept done
  split at ok
  · cases ok
  rename_i none_
  refine ⟨swept, done, ?_, fun row member => ?_⟩
  · rw [if_neg none_]
  · exact eq_false_of_ne_true (any_eq_false.mp (eq_false_of_ne_true none_) row member)

theorem SweepRight.clear (right : SweepRight s endedAt) : Clear s endedAt := by
  intro run orphan
  obtain ⟨count, ok⟩ := right.succeeds
  obtain ⟨swept, done, after, none_⟩ := sweep_ok ok
  have found : ∀ run ∈ orphans s endedAt, s.findRun run.row.id = some run := fun _ listed => (mem_orphans.mp listed).1
  have open_ : ∀ run ∈ orphans s endedAt, run.row.status.isTerminal = false :=
    fun _ listed => isOrphan_open (mem_orphans.mp listed).2
  obtain ⟨here, selected⟩ := mem_orphans.mp orphan
  constructor
  · -- A run that is held is left, and then it is left over.
    intro hold held unreleased
    have same := sameElse_sweep (swept_runs (orphans_distinct s endedAt) found open_ done)
    have left := right.exact_ run.row.id
    have kept : isAbandoned s endedAt run.row = false := by
      rw [isAbandoned, held, Option.all_some, unreleased, Option.isSome_none, Bool.and_false]
    rw [here, Option.map_some, kept, if_neg Bool.false_ne_true, after] at left
    have member : run.row ∈ swept.runs.rows := (Table.find_eq_some.mp (findRun_some left).1).1
    have over_ := none_ run.row member
    rw [isOrphan_same same, selected] at over_
    cases over_
  · obtain ⟨mid, _, same, met⟩ := swept_each (orphans_distinct s endedAt) found open_ done orphan
    obtain ⟨waits, asked⟩ | created := sweepRun_created met
    · rw [hasPendingApproval_same same, (isOrphan_iff.mp selected).2.2 waits] at asked
      cases asked
    · exact created

/-- A sweep is right exactly where no run that it would take is held, or younger than its instant. -/
theorem Sound.sweepRight_iff (sound : Sound s) : SweepRight s endedAt ↔ Clear s endedAt :=
  ⟨SweepRight.clear, sound.sweepRight⟩

/-! Every run of calls. -/

def MeetsNone (s : Store) : JointMove → Prop
  | .sweep endedAt => Clear s endedAt
  | .insertRun .. | .recovery _ => True

theorem Sound.step {move : JointMove} (meets : MeetsNone s move) (sound : Sound s) : Sound (jointStep s move) := by
  cases move with
  | insertRun run leaseId acquiredAt => exact sound.admission run leaseId acquiredAt
  | recovery move =>
    unfold jointStep recover Recovery.step
    cases move with
    | resolve =>
      dsimp only
      split
      · exact sound
      next made => exact sound.resolved made
    | promote attempt =>
      dsimp only
      split
      · exact sound
      next made => exact sound.promoted (promote_cases made).1
    | compose attempt snap =>
      dsimp only
      split
      · exact sound
      rename_i made
      obtain ⟨rfl, -⟩ | ⟨ends, -⟩ := compose_cases made
      · exact sound
      · exact sound.composed ends
  | sweep endedAt =>
    obtain ⟨swept, done, after, same⟩ := sound.swept meets
    have after_ : jointStep s (.sweep endedAt) = swept := congrArg Prod.snd done
    rw [after_]
    exact sound.sweep meets after same

/-- The stores that are reached while no sweep meets a hold. -/
inductive Apart : Store → Prop
  | start {s : Store} (sound : Sound s) : Apart s
  | call {s : Store} (apart : Apart s) (move : JointMove) (meets : MeetsNone s move) : Apart (jointStep s move)

theorem Apart.sound (apart : Apart s) : Sound s := by
  induction apart with
  | start sound => exact sound
  | call _ _ meets ih => exact ih.step meets

/-- Of every sweep of a run of calls whose sweeps so far met no hold: it is right exactly where it meets none. -/
structure SweepsApart (s : Store) : Prop where
  sound : Apart s → Sound s
  right : Apart s → ∀ endedAt, SweepRight s endedAt ↔ Clear s endedAt

theorem sweeps_apart (s : Store) : SweepsApart s where
  sound apart := apart.sound
  right apart _ := apart.sound.sweepRight_iff

/-! Two held runs of one workspace, as the migration leaves them. -/

def migrated : Store where
  toDb := twoHeld
  sessions := .empty
  allocations := .empty
  runColumns _ := ⟨none, some "ws", none, none, ""⟩
  workspaceColumns _ := ⟨"root", "owner", none⟩
  leaseExpiry _ := none

theorem migrated_sound : Sound migrated := by
  have held : ∀ run ∈ migrated.runs.rows, (migrated.holds.find run.id).isSome = true := by decide +kernel
  have covered {id : String} {run : RunRow} (found : migrated.runs.find id = some run) :
      migrated.holds.find id ≠ none := by
    obtain ⟨member, rfl⟩ := Table.find_eq_some.mp found
    exact Option.isSome_iff_ne_none.mp (held run member)
  have waiting : ∀ hold ∈ migrated.holds.rows,
      hold.recoveryState = .awaitingDecision ∧ hold.releasedAt = none := by decide +kernel
  have asked : ∀ a ∈ migrated.approvals.rows,
      (migrated.runs.find a.runId).map RunRow.status = some .awaitingApproval := by decide +kernel
  constructor
  case paired =>
    exact
      { tied := fun id run _ found unheld _ => absurd unheld (covered found)
        owned := fun _ member _ => absurd member not_mem_nil
        single := fun _ member _ _ _ _ _ => absurd member not_mem_nil
        named := fun id run found unheld => absurd unheld (covered found) }
  case standing => exact twoHeld_seeded.standing
  case leased =>
    intro runId hold found active
    rw [(waiting hold (Table.find_eq_some.mp found).1).1] at active
    cases active
  case parked => exact fun a member _ => Option.map_eq_some_iff.mp (asked a member)
  case closed =>
    intro runId hold run found released _
    exact absurd (waiting hold (Table.find_eq_some.mp found).1).2 released

/-- The second hold's approval is granted: it is ready, and has no lease. -/
def readied : Store :=
  jointStep migrated (.recovery (.resolve "approval-2" .approved (some ⟨"approve", none⟩) 10))

def promoted : Store :=
  jointStep readied (.recovery (.promote ⟨(waitingHold "run-2" "approval-2").readied 10, "lease", 15⟩))

/-- One ready hold stops the whole sweep, and an active one loses its lease to it. -/
theorem sweep_meets_hold :
    Sound migrated ∧ ¬ SweepRight readied 20 ∧ ¬ SweepRight promoted 20 ∧
      (sweepWorkspaceOrphanRuns readied 20).1 = .error (.corruptRow "workspace_leases" "row") ∧
      (sweepWorkspaceOrphanRuns promoted 20).1 = .ok 1 := by
  have refused : (sweepWorkspaceOrphanRuns readied 20).1 = .error (.corruptRow "workspace_leases" "row") := by
    decide +kernel
  refine ⟨migrated_sound, ?_, ?_, refused, by decide +kernel⟩
  · intro right
    obtain ⟨count, ok⟩ := right.succeeds
    rw [refused] at ok
    cases ok
  · intro right
    have held : (sweepWorkspaceOrphanRuns promoted 20).2.holds.find "run-2" =
        some ((waitingHold "run-2" "approval-2").readied 10).promoted := by decide +kernel
    have none_ : (sweepWorkspaceOrphanRuns promoted 20).2.leases.rows.any Db.isOpenRun = false := by decide +kernel
    obtain ⟨lease, member, open_, -⟩ := right.active "run-2" _ held rfl
    exact any_eq_false.mp none_ lease member open_

end Agent24.Workspace
