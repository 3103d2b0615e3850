import Agent24.Workspace.Moves

/-! A bound run and its lease: one open lease while the run goes on, released when the run ends. -/

set_option autoImplicit false
namespace Agent24.Workspace
open Library Agent Recovery

/-! The invariant. -/

structure Tied (s : Store) (run : RunRow) (workspaceId : String) (lease : LeaseRow) : Prop where
  leased : lease ∈ s.leases.rows
  kind : lease.kind = .run
  owner : lease.ownerId = run.id
  only : ∀ other ∈ s.leases.rows, other.kind = .run → other.ownerId = run.id → other = lease
  home : lease.workspaceId = workspaceId
  root : ∃ workspace, s.workspaces.find workspaceId = some workspace ∧ workspace.rootGeneration = lease.rootGeneration
  since : lease.acquiredAt = run.createdAt
  released : lease.releasedAt = if run.status.isTerminal then run.endedAt else none
  ended : run.status.isTerminal = true → run.endedAt ≠ none

structure Paired (s : Store) : Prop where
  tied : ∀ id run workspaceId, s.runs.find id = some run → s.holds.find id = none → run.workspaceId = some workspaceId →
    ∃ lease, Tied s run workspaceId lease
  owned : ∀ lease ∈ s.leases.rows, lease.kind = .run →
    ∃ run, s.runs.find lease.ownerId = some run ∧ run.workspaceId = some lease.workspaceId
  single : ∀ a ∈ s.leases.rows, ∀ b ∈ s.leases.rows, Db.isOpenRun a = true → Db.isOpenRun b = true →
    a.workspaceId = b.workspaceId → a = b
  named : ∀ id run, s.runs.find id = some run → s.holds.find id = none →
    (s.runColumns id).inputWorkspaceId = run.workspaceId

structure SameTies (s s' : Store) : Prop where
  leases : ∀ lease : LeaseRow, lease.kind = .run → (lease ∈ s'.leases.rows ↔ lease ∈ s.leases.rows)
  roots : ∀ id workspace, s.workspaces.find id = some workspace →
    ∃ workspace', s'.workspaces.find id = some workspace' ∧ workspace'.rootGeneration = workspace.rootGeneration

variable {s s' : Store}

variable {lease : LeaseRow} {workspaceId id : String} {run : Run} {to_ : RunStatus} {patch : RunPatch}
  {endedAt : Instant}

theorem isOpenRun_iff : Db.isOpenRun lease = true ↔ lease.kind = .run ∧ lease.releasedAt = none := by
  rw [Db.isOpenRun, Bool.and_eq_true, beq_iff_eq, Option.isNone_iff_eq_none]

theorem Tied.runLeases_eq {run : RunRow} (tied : Tied s run workspaceId lease) :
    runLeases s run.id = [lease] := by
  refine s.leases.filter_eq_singleton tied.leased ?_ fun other member counts => ?_
  · rw [tied.kind, tied.owner, beq_self_eq_true, beq_self_eq_true, Bool.and_self]
  · rw [Bool.and_eq_true, beq_iff_eq, beq_iff_eq] at counts
    exact tied.only other member counts.1 counts.2

theorem Tied.keep {run : RunRow} (tied : Tied s run workspaceId lease) (same : SameTies s s') :
    Tied s' run workspaceId lease :=
  { tied with
    leased := (same.leases lease tied.kind).mpr tied.leased
    only := fun other member kind => tied.only other ((same.leases other kind).mp member) kind
    root := by
      obtain ⟨workspace, found, root⟩ := tied.root
      obtain ⟨workspace', found', root'⟩ := same.roots _ _ found
      exact ⟨workspace', found', root'.trans root⟩ }

theorem Paired.keep (paired : Paired s) (same : SameTies s s') (runs : s'.runs = s.runs) (holds : s'.holds = s.holds)
    (columns : s'.runColumns = s.runColumns) : Paired s' where
  tied id run workspaceId found unheld home := by
    obtain ⟨lease, tied⟩ := paired.tied id run workspaceId (runs ▸ found) (holds ▸ unheld) home
    exact ⟨lease, tied.keep same⟩
  owned lease member kind := by
    rw [runs]
    exact paired.owned lease ((same.leases lease kind).mp member) kind
  single a memberA b memberB openA openB together := by
    have kept {lease : LeaseRow} (member : lease ∈ s'.leases.rows) (open_ : Db.isOpenRun lease = true) :
        lease ∈ s.leases.rows := (same.leases lease (isOpenRun_iff.mp open_).1).mp member
    exact paired.single a (kept memberA openA) b (kept memberB openB) openA openB together
  named id run found unheld := by
    rw [columns]
    exact paired.named id run (runs ▸ found) (holds ▸ unheld)

theorem sameTies_putWorkspace {before after : WorkspaceRow} {entry : AuditEntry}
    (found : s.workspaces.find after.id = some before) (root : after.rootGeneration = before.rootGeneration) :
    SameTies s (s.putWorkspace after entry) where
  leases _ _ := Iff.rfl
  roots id workspace here := by
    rw [Store.putWorkspace, Table.find_set]
    split
    next same =>
      rw [same] at here
      obtain rfl := Option.some.inj (found.symm.trans here)
      rw [same, found]
      exact ⟨after, rfl, root⟩
    · exact ⟨workspace, here, rfl⟩

/-! Each write keeps it. -/

theorem Paired.owner_ne (paired : Paired s) (unused : s.runs.find id = none) (member : lease ∈ s.leases.rows)
    (kind : lease.kind = .run) : lease.ownerId ≠ id := by
  rintro rfl
  obtain ⟨run, found, -⟩ := paired.owned lease member kind
  rw [unused] at found
  cases found

theorem find_putRun :
    (s.putRun run).runs.find id = if id = run.row.id then some run.row else s.runs.find id := Table.find_put

theorem named_putRun (paired : Paired s) (input : run.columns.inputWorkspaceId = run.row.workspaceId)
    {row : RunRow} (found : (s.putRun run).runs.find id = some row) (unheld : s.holds.find id = none) :
    ((s.putRun run).runColumns id).inputWorkspaceId = row.workspaceId := by
  rw [find_putRun] at found
  split at found
  next same =>
    cases found
    exact (congrArg RunColumns.inputWorkspaceId (same ▸ Function.update_self ..)).trans input
  next apart =>
    exact (congrArg RunColumns.inputWorkspaceId (Function.update_of_ne apart ..)).trans
      (paired.named id row found unheld)

theorem Paired.inserted (paired : Paired s) {acquiredAt : Instant} (unbound : run.row.workspaceId = none)
    (newcomer : Newcomer s run acquiredAt) : Paired (s.putRun run) where
  tied id row workspaceId found unheld home := by
    rw [find_putRun] at found
    split at found
    · cases found
      rw [unbound] at home
      cases home
    · obtain ⟨lease, tied⟩ := paired.tied id row workspaceId found unheld home
      exact ⟨lease, tied.keep ⟨fun _ _ => Iff.rfl, fun _ workspace here => ⟨workspace, here, rfl⟩⟩⟩
  owned lease member kind := by
    rw [find_putRun, if_neg (paired.owner_ne newcomer.unused member kind)]
    exact paired.owned lease member kind
  single := paired.single
  named _ _ found unheld := named_putRun paired newcomer.input found unheld

theorem openRunLeaseExists_none {db : Db} {runId : String}
    (idle : openRunLeaseExists db workspaceId runId = false) (member : lease ∈ db.leases.rows)
    (open_ : Db.isOpenRun lease = true) : lease.workspaceId ≠ workspaceId := by
  have apart := List.any_eq_false.mp idle lease member
  rw [open_, Bool.true_and, Bool.or_eq_true, not_or, beq_iff_eq] at apart
  exact apart.1

theorem Paired.admitted (paired : Paired s) {workspace : WorkspaceRow} {leaseId : String} {acquiredAt : Instant}
    (newcomer : Newcomer s run acquiredAt) (room : Room s run workspace acquiredAt)
    (unused : s.leases.find leaseId = none) :
    Paired ((s.putRun run).putLease (runLease run.row workspace leaseId)) := by
  have rows {lease : LeaseRow} : lease ∈ (s.leases.put (runLease run.row workspace leaseId)).rows ↔
      lease = runLease run.row workspace leaseId ∨ lease ∈ s.leases.rows := by
    rw [Table.mem_put]
    exact or_congr_right (and_iff_left_of_imp fun member => Table.find_eq_none.mp unused lease member)
  constructor
  case tied =>
    intro id row workspaceId found unheld home
    replace found := find_putRun.symm.trans found
    split at found
    · -- The run that was admitted, with the lease that it was given.
      cases found
      obtain rfl := Option.some.inj (room.home.symm.trans home)
      have fresh := newcomer.fresh
      simp only [Run.fresh, Bool.and_eq_true, beq_iff_eq] at fresh
      have going : run.row.status.isTerminal = false := by
        rw [fresh.1.1.1.1]
        rfl
      refine ⟨runLease run.row workspace leaseId,
        { leased := rows.mpr (.inl rfl)
          kind := rfl
          owner := rfl
          only := ?_
          home := rfl
          root := ⟨workspace, room.found, rfl⟩
          since := rfl
          released := by rw [going]; rfl
          ended := fun over_ => absurd over_ (Bool.eq_false_iff.mp going) }⟩
      intro other member kind owner
      obtain rfl | old := rows.mp member
      · rfl
      · exact absurd owner (paired.owner_ne newcomer.unused old kind)
    next apart =>
      obtain ⟨lease, tied⟩ := paired.tied id row workspaceId found unheld home
      refine ⟨lease, { tied with leased := rows.mpr (.inr tied.leased), only := ?_ }⟩
      intro other member kind owner
      obtain rfl | old := rows.mp member
      · exact absurd (owner.trans (Table.find_key found)).symm apart
      · exact tied.only other old kind owner
  case owned =>
    intro lease member kind
    obtain rfl | old := rows.mp member
    · exact ⟨run.row, find_putRun.trans (if_pos rfl), room.home⟩
    · obtain ⟨row, found, home⟩ := paired.owned lease old kind
      exact ⟨row, find_putRun.trans ((if_neg (paired.owner_ne newcomer.unused old kind)).trans found), home⟩
  case single =>
    intro a memberA b memberB openA openB together
    obtain rfl | oldA := rows.mp memberA
    · obtain rfl | oldB := rows.mp memberB
      · rfl
      · exact absurd together.symm (openRunLeaseExists_none room.idle oldB openB)
    · obtain rfl | oldB := rows.mp memberB
      · exact absurd together (openRunLeaseExists_none room.idle oldA openA)
      · exact paired.single a oldA b oldB openA openB together
  case named => exact fun id row found unheld => named_putRun paired newcomer.input found unheld

/-! A run that changes its status. -/

theorem allowed_open {from_ : RunStatus} (allowed : runTransitionAllowed from_ to_ = true) :
    from_.isTerminal = false := by
  cases from_ <;> first | rfl | (cases to_ <;> cases allowed)

theorem findRun_some (found : s.findRun id = some run) :
    s.runs.find id = some run.row ∧ s.runColumns id = run.columns := by
  obtain ⟨row, here, rfl⟩ := Option.map_eq_some_iff.mp found
  exact ⟨here, rfl⟩

theorem find_setRun {run' : Run} (found : s.findRun run.row.id = some run) (same : run'.row.id = run.row.id) :
    (s.setRun run').runs.find id = if id = run.row.id then some run'.row else s.runs.find id := by
  rw [Store.setRun, Table.find_set, same]
  split
  next here => rw [here, (findRun_some found).1, Option.map_some]
  · rfl

theorem findRun_setRun {run' : Run} (found : s.findRun run.row.id = some run) (same : run'.row.id = run.row.id) :
    (s.setRun run').findRun run.row.id = some run' := by
  have columns : (s.setRun run').runColumns run.row.id = run'.columns := same ▸ Function.update_self ..
  rw [Store.findRun, find_setRun found same, if_pos rfl, Option.map_some, columns]

section
variable (paired : Paired s)
include paired

section
variable (found : s.findRun run.row.id = some run)
include found

theorem named_setRun {row : RunRow} (found' : (s.setRun (run.patched to_ patch)).runs.find id = some row)
    (unheld : s.holds.find id = none) :
    ((s.setRun (run.patched to_ patch)).runColumns id).inputWorkspaceId = row.workspaceId := by
  have same : (run.patched to_ patch).row.id = run.row.id := rfl
  rw [find_setRun found same] at found'
  obtain ⟨here, columns⟩ := findRun_some found
  split at found'
  next hit =>
    cases found'
    have named := paired.named _ _ here (hit ▸ unheld)
    rw [columns] at named
    have written : (s.setRun (run.patched to_ patch)).runColumns run.row.id = (run.patched to_ patch).columns :=
      Function.update_self ..
    rw [hit, written]
    exact named
  next apart =>
    exact (congrArg RunColumns.inputWorkspaceId (Function.update_of_ne apart ..)).trans
      (paired.named id row found' unheld)

theorem owned_setRun (member : lease ∈ s.leases.rows) (kind : lease.kind = .run) :
    ∃ row, (s.setRun (run.patched to_ patch)).runs.find lease.ownerId = some row ∧
      row.workspaceId = some lease.workspaceId := by
  obtain ⟨row, here, home⟩ := paired.owned lease member kind
  have same : (run.patched to_ patch).row.id = run.row.id := rfl
  rw [find_setRun found same]
  split
  next hit =>
    have row_ : row = run.row := Option.some.inj ((hit ▸ here).symm.trans (findRun_some found).1)
    exact ⟨_, rfl, (congrArg RunRow.workspaceId row_).symm.trans home⟩
  · exact ⟨row, here, home⟩

theorem Paired.setRun
    (keeps : ∀ workspaceId lease, run.row.workspaceId = some workspaceId → Tied s run.row workspaceId lease → Tied s (run.patched to_ patch).row workspaceId lease) :
    Paired (s.setRun (run.patched to_ patch)) where
  tied id row workspaceId found' unheld home := by
    have same : (run.patched to_ patch).row.id = run.row.id := rfl
    rw [find_setRun found same] at found'
    have all : SameTies s (s.setRun (run.patched to_ patch)) :=
      ⟨fun _ _ => Iff.rfl, fun _ workspace here => ⟨workspace, here, rfl⟩⟩
    split at found'
    next hit =>
      cases found'
      subst hit
      obtain ⟨lease, tied⟩ := paired.tied _ _ workspaceId (findRun_some found).1 unheld home
      exact ⟨lease, (keeps workspaceId lease home tied).keep all⟩
    · obtain ⟨lease, tied⟩ := paired.tied id row workspaceId found' unheld home
      exact ⟨lease, tied.keep all⟩
  owned _ member kind := owned_setRun paired found member kind
  single := paired.single
  named _ _ found' unheld := named_setRun paired found found' unheld

theorem Paired.transitioned (allowed : runTransitionAllowed run.row.status to_ = true)
    (open_ : run.row.workspaceId ≠ none → to_.isTerminal = false) :
    Paired (s.setRun (run.patched to_ patch)) := by
  refine paired.setRun found fun workspaceId lease home tied => ?_
  have going : to_.isTerminal = false := open_ (home ▸ Option.some_ne_none _)
  refine { tied with released := ?_, ended := fun over_ => absurd over_ (Bool.eq_false_iff.mp going) }
  have unreleased := tied.released
  rw [allowed_open allowed, if_neg Bool.false_ne_true] at unreleased
  rw [unreleased]
  exact (if_neg (Bool.eq_false_iff.mp going)).symm

theorem Paired.cancelled (allowed : runTransitionAllowed run.row.status .cancelled = true)
    (lost : ∀ lease ∈ s.leases.rows, lease.ownerId = run.row.id → lease.releasedAt ≠ none) :
    Paired (s.setRun (run.patched .cancelled { endedAt := some endedAt })) := by
  refine paired.setRun found fun workspaceId lease _ tied => absurd ?_ (lost lease tied.leased tied.owner)
  rw [tied.released, allowed_open allowed, if_neg Bool.false_ne_true]

end

end

/-! A run that ends with its lease. -/

theorem leaseMatches_iff {workspace : WorkspaceRow} :
    leaseMatches run workspaceId workspace lease endedAt = true ↔ lease.kind = .run ∧
      lease.ownerId = run.row.id ∧ lease.workspaceId = workspaceId ∧
      lease.rootGeneration = workspace.rootGeneration ∧ run.row.createdAt ≤ lease.acquiredAt ∧
      lease.acquiredAt ≤ endedAt := by
  simp only [leaseMatches, Bool.and_eq_true, beq_iff_eq, decide_eq_true_eq, and_assoc]

theorem Paired.ended (paired : Paired s) (ends : Ends s run to_ patch lease endedAt) :
    Paired (endWith s run to_ patch lease endedAt) := by
  obtain ⟨workspaceId, workspace, home, input, here, matching⟩ := ends.matching
  obtain ⟨kind, owner, place, root, -, -⟩ := leaseMatches_iff.mp matching
  have same : (run.patched to_ patch).row.id = run.row.id := rfl
  have rows {other : LeaseRow} : other ∈ (endWith s run to_ patch lease endedAt).leases.rows ↔
      other = { lease with releasedAt := some endedAt } ∨ other ∈ s.leases.rows ∧ other.id ≠ lease.id := by
    refine Table.mem_set.trans (or_congr_left (and_iff_left ?_))
    exact ⟨lease, Table.mem_rows_iff.mpr ends.leased, rfl⟩
  -- A row of another key is another row, and a row of the lease's key is the lease.
  have apart {other : LeaseRow} (member : other ∈ s.leases.rows) (ne : other ≠ lease) : other.id ≠ lease.id := by
    intro key
    exact ne (Option.some.inj ((Table.mem_rows_iff.mp member).symm.trans (key ▸ ends.leased)))
  constructor
  case tied =>
    intro id row workspaceId' found' unheld home'
    replace found' := (find_setRun ends.found same).symm.trans found'
    split at found'
    next hit =>
      cases found'
      subst hit
      obtain ⟨old, tied⟩ := paired.tied _ _ workspaceId' (findRun_some ends.found).1 unheld home'
      obtain rfl := tied.only lease (Table.mem_rows_iff.mpr ends.leased) kind owner
      have stamp : (run.patched to_ patch).row.endedAt = some endedAt := by
        rw [Run.patched, ends.ended, Option.some_or]
      refine ⟨{ lease with releasedAt := some endedAt },
        { leased := rows.mpr (.inl rfl)
          kind := kind
          owner := owner
          only := ?_
          home := tied.home
          root := tied.root
          since := tied.since
          released := stamp.symm.trans (if_pos ends.terminal).symm
          ended := fun _ => stamp ▸ Option.some_ne_none _ }⟩
      intro other member kind' owner'
      obtain rfl | ⟨old, ne⟩ := rows.mp member
      · rfl
      · exact absurd (congrArg LeaseRow.id (tied.only other old kind' owner')) ne
    next other =>
      obtain ⟨old, tied⟩ := paired.tied id row workspaceId' found' unheld home'
      have elsewhere : old ≠ lease := by
        rintro rfl
        exact other (((Table.find_key found').symm.trans tied.owner.symm).trans owner)
      refine ⟨old, { tied with leased := rows.mpr (.inr ⟨tied.leased, apart tied.leased elsewhere⟩), only := ?_ }⟩
      intro lease' member kind' owner'
      obtain rfl | ⟨before, -⟩ := rows.mp member
      · exact absurd (((Table.find_key found').symm.trans owner'.symm).trans owner) other
      · exact tied.only lease' before kind' owner'
  case owned =>
    intro other member kind'
    obtain rfl | ⟨before, -⟩ := rows.mp member
    · have leased : lease ∈ s.leases.rows := Table.mem_rows_iff.mpr ends.leased
      have kept : ∃ row, (s.setRun (run.patched to_ patch)).runs.find lease.ownerId = some row ∧
          row.workspaceId = some lease.workspaceId := owned_setRun paired ends.found leased kind
      exact kept
    · exact owned_setRun paired ends.found before kind'
  case single =>
    have open_ {other : LeaseRow} (member : other ∈ (endWith s run to_ patch lease endedAt).leases.rows)
        (unreleased : Db.isOpenRun other = true) : other ∈ s.leases.rows := by
      obtain rfl | ⟨before, -⟩ := rows.mp member
      · cases (isOpenRun_iff.mp unreleased).2
      · exact before
    intro a memberA b memberB openA openB together
    exact paired.single a (open_ memberA openA) b (open_ memberB openB) openA openB together
  case named => exact fun id row found' unheld => named_setRun paired ends.found found' unheld

theorem Paired.swept (paired : Paired s) (cancels : Relation.ReflTransGen (Cancels endedAt) s s') :
    Paired s' := by
  induction cancels with
  | refl => exact paired
  | tail _ cancel ih =>
    obtain ⟨run, lease, ends, rfl⟩ := cancel
    exact ih.ended ends

/-! Every call, and every run of calls. -/

theorem sameTies_advance {before after : WorkspaceRecord} {entry : AuditEntry}
    (found : s.findWorkspace before.row.id = some before) (forward : Forward before after) :
    SameTies s (s.advance after entry) := by
  have here : s.workspaces.find after.row.id = some before.row := forward.id ▸ (findWorkspace_some found).1
  have row : SameTies s (s.putWorkspace after.row entry) := sameTies_putWorkspace here forward.root
  exact ⟨row.leases, row.roots⟩

theorem Paired.written (paired : Paired s) {now : Option Instant} {granted : Bool} (written : Written s now granted s') : Paired s' := by
  cases written with
  | refused => exact paired
  | unchanged => exact paired
  | @expired at_ workspace _ _ over_ =>
    have same : SameTies s (s.expired at_ workspace) := sameTies_putWorkspace over_.found rfl
    exact paired.keep same rfl rfl rfl
  | inserted unbound newcomer => exact paired.inserted unbound newcomer
  | admitted newcomer room unused => exact paired.admitted newcomer room unused
  | transitioned found allowed open_ => exact paired.transitioned found allowed open_
  | ended ends => exact paired.ended ends
  | cancelled found _ allowed lost => exact paired.cancelled found allowed lost
  | swept cancels => exact paired.swept cancels
  | advanced found forward => exact paired.keep (sameTies_advance found forward) rfl rfl rfl

theorem Paired.step (paired : Paired s) (move : Move) : Paired (step s move) := paired.written (perform_written s move)

end Agent24.Workspace
