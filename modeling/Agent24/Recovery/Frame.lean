import Agent24.Recovery.Moves

/-! The columns that no transaction changes, and the approvals that are settled. -/

set_option autoImplicit false
namespace Agent24.Recovery
open Library Agent

/-! A row with the columns reset that the transactions write. -/

def RunRow.frozen (run : RunRow) : RunRow := { run with status := .queued, endedAt := none }

def ApprovalRow.frozen (a : ApprovalRow) : ApprovalRow :=
  { a with status := .pending, decision := none, decidedAt := none }

def CohortRow.frozen (cohort : CohortRow) : CohortRow := { cohort with completedAt := none }

def WorkspaceRow.frozen (workspace : WorkspaceRow) : WorkspaceRow := { workspace with state := .active, revision := 0 }

def Hold.frozen (hold : Hold) : Hold :=
  { hold with recoveryState := .ready, readyAt := none, releasedAt := none, activeResumeApprovalId := none }

/-- What a transaction, and so a run of them, leaves as it was. -/
structure Evolves (db db' : Db) : Prop where
  runs : ∀ id, (db'.runs.find id).map RunRow.frozen = (db.runs.find id).map RunRow.frozen
  approvals : ∀ id, (db'.approvals.find id).map ApprovalRow.frozen = (db.approvals.find id).map ApprovalRow.frozen
  cohorts : ∀ id, (db'.cohorts.find id).map CohortRow.frozen = (db.cohorts.find id).map CohortRow.frozen
  workspaces : ∀ id, (db'.workspaces.find id).map WorkspaceRow.frozen = (db.workspaces.find id).map WorkspaceRow.frozen
  holds : ∀ id, (db'.holds.find id).map Hold.frozen = (db.holds.find id).map Hold.frozen
  settled : ∀ id a, db.approvals.find id = some a → a.status ≠ .pending → db'.approvals.find id = some a

namespace Evolves
variable {db db' db'' : Db}

theorem refl (db : Db) : Evolves db db :=
  ⟨fun _ => rfl, fun _ => rfl, fun _ => rfl, fun _ => rfl, fun _ => rfl, fun _ _ found _ => found⟩

theorem trans (first : Evolves db db') (second : Evolves db' db'') : Evolves db db'' where
  runs id := (second.runs id).trans (first.runs id)
  approvals id := (second.approvals id).trans (first.approvals id)
  cohorts id := (second.cohorts id).trans (first.cohorts id)
  workspaces id := (second.workspaces id).trans (first.workspaces id)
  holds id := (second.holds id).trans (first.holds id)
  settled id a found apart := second.settled id a (first.settled id a found apart) apart

theorem appendAudit {entry : AuditEntry} (evolves : Evolves db db') : Evolves db (db'.appendAudit entry) :=
  ⟨evolves.runs, evolves.approvals, evolves.cohorts, evolves.workspaces, evolves.holds, evolves.settled⟩

theorem found {α : Type} {freeze : α → α} {before after : Option α} {a : α}
    (same : after.map freeze = before.map freeze) (here : before = some a) :
    ∃ b, after = some b ∧ freeze b = freeze a := by
  rw [here, Option.map_some, Option.map_eq_some_iff] at same
  exact same

end Evolves

section
variable {α κ : Type} [DecidableEq κ] {key : α → κ} {t : Table key}

theorem frozen_set {freeze : α → α} {old new : α} (here : t.find (key new) = some old)
    (same : freeze new = freeze old) (k : κ) : ((t.set new).find k).map freeze = (t.find k).map freeze := by
  rw [Table.find_set]
  split
  next hit =>
    rw [hit, here, Option.map_some, Option.map_some, Option.map_some, same]
  next => rfl

theorem frozen_update {freeze : α → α} {select : α → Bool} {edit : α → α} (keeps : ∀ a, key (edit a) = key a)
    (same : ∀ a, freeze (edit a) = freeze a) (k : κ) :
    ((t.update select edit keeps).find k).map freeze = (t.find k).map freeze := by
  rw [Table.find_update, Option.map_map]
  congr 1
  funext a
  rw [Function.comp_apply]
  split
  · exact same a
  · rfl

end

variable {db db' : Db}

theorem evolves_setHold {old new : Hold} (here : db.holds.find new.runId = some old) (same : new.frozen = old.frozen) :
    Evolves db (db.setHold new) :=
  { Evolves.refl db with holds := frozen_set here same }

theorem evolves_setCohort {old new : CohortRow} (here : db.cohorts.find new.cohortId = some old)
    (same : new.frozen = old.frozen) : Evolves db (db.setCohort new) :=
  { Evolves.refl db with cohorts := frozen_set here same }

theorem evolves_resolve {id : String} {status : ApprovalStatus} {decision : Option Decision} {at_ : Instant}
    {row : ApprovalRow} (ok : resolveApproval db id status decision at_ = .ok (row, db')) : Evolves db db' := by
  obtain ⟨a, found, pending, -, rfl, rfl⟩ := resolveApproval_ok ok
  have here : db.approvals.find a.id = some a := by rw [Table.find_key found]; exact found
  refine { Evolves.refl db with approvals := frozen_set here rfl, settled := ?_ }
  intro k b held apart
  rw [Table.find_set, if_neg]
  · exact held
  · rintro rfl
    rw [show db.approvals.find a.id = some b from held] at here
    cases here
    exact apart pending

theorem evolves_abortPending (runId : String) (endedAt : Instant) : Evolves db (db.abortPending runId endedAt) := by
  refine { Evolves.refl db with approvals := ?_, settled := ?_ }
  · exact frozen_update (by exact fun _ => rfl) fun _ => rfl
  intro k a found apart
  rw [Db.abortPending, Table.find_update, found, Option.map_some, if_neg]
  simp [Db.isPendingOf, apart]

theorem evolves_finishRun (runId : String) (from_ to_ : RunStatus) (endedAt : Instant) :
    Evolves db (db.finishRun runId from_ to_ endedAt) := by
  refine { Evolves.refl db with runs := ?_ }
  exact frozen_update (by exact fun _ => rfl) fun _ => rfl

theorem evolves_releaseLease (lease : Option LeaseRow) (endedAt : Instant) :
    Evolves db (db.releaseLease lease endedAt) := by
  cases lease with
  | none => exact Evolves.refl db
  | some lease => exact { Evolves.refl db with }

/-! The rows that an attempt's snapshot was read from. -/

theorem decodeRun_ok {row : RunRow} {run : TerminalRunFacts} (ok : decodeRun row = .ok run) :
    run.run = row ∧ row.workspaceId = some run.workspaceId := by
  unfold decodeRun at ok
  split at ok
  · cases ok
  split at ok
  · cases ok
  rename_i workspaceId bound
  cases ok
  exact ⟨rfl, bound⟩

theorem snapshot_ok {runId : String} {s : Snapshot} (ok : snapshot db runId = .ok s) :
    s.hold.runId = runId ∧ db.holds.find s.hold.runId = some s.hold ∧ db.runs.find s.hold.runId = some s.run.run ∧
      readPendingApprovals db runId = .ok s.pendingApprovals := by
  unfold snapshot Db.readHold at ok
  cases held : db.holds.find runId with
  | none =>
    rw [held] at ok
    cases ok
  | some hold =>
    obtain rfl := Table.find_key held
    rw [held] at ok
    dsimp only [bind, Except.bind] at ok
    split at ok
    · cases ok
    rename_i run read
    have row : db.runs.find hold.runId = some run.run := by
      unfold readTerminalRun at read
      split at read
      · cases read
      next found =>
        rw [found, (decodeRun_ok read).1]
    split at ok
    · cases ok
    iterate 4
      split at ok
      · cases ok
    split at ok
    · cases ok
    rename_i pending all
    cases ok
    exact ⟨rfl, held, row, all⟩

/-! Each move evolves the rows. -/

theorem oldest_mem {holds : List Hold} {hold : Hold} (first : Db.oldest holds = some hold) : hold ∈ holds := by
  induction holds generalizing hold with
  | nil => cases first
  | cons h rest ih =>
    unfold Db.oldest at first
    split at first
    · cases first
      exact List.mem_cons_self ..
    rename_i other later
    cases first
    unfold Db.older
    split
    · exact List.mem_cons_self ..
    · exact List.mem_cons_of_mem h (ih later)

theorem readNextReady_some {hold : Hold} (next_ : db.readNextReady = some hold) :
    db.holds.find hold.runId = some hold ∧ hold.recoveryState = .ready := by
  obtain ⟨member, ready⟩ := List.mem_filter.mp (oldest_mem next_)
  exact ⟨Table.mem_rows_iff.mp member, beq_iff_eq.mp ready⟩

theorem resolve_cases {id : String} {status : ApprovalStatus} {decision : Option Decision} {at_ : Instant}
    {resolution : Resolution} (ok : resolveWithLegacyReady db id status decision at_ = .ok (resolution, db')) :
    ∃ row mid, resolveApproval db id status decision at_ = .ok (row, mid) ∧
      ((db' = mid ∧ mid.holds.find row.runId = none) ∨ ∃ hold run, db.holds.find row.runId = some hold ∧
        hold.approvalId = some id ∧ db.runs.find hold.runId = some run ∧ run.status.isTerminal = false ∧
        hold.recoveryState = .awaitingDecision ∧ hold.readyAt = none ∧ hold.releasedAt = none ∧
        hold.activeResumeApprovalId = none ∧ ∃ entry, db' = (mid.setHold (hold.readied at_)).appendAudit entry) := by
  unfold resolveWithLegacyReady at ok
  split at ok
  · cases ok
  rename_i row mid resolved
  refine ⟨row, mid, resolved, ?_⟩
  split at ok
  next unheld =>
    cases ok
    exact .inl ⟨rfl, unheld⟩
  next hold _ =>
    split at ok
    · cases ok
    · cases ok
    rename_i after applied
    cases ok
    obtain ⟨a, -, -, -, -, rfl⟩ := resolveApproval_ok resolved
    obtain ⟨hold, run, _, found, mine, foundRun, -, -, running, awaiting, unready, unreleased, unresumed, entry,
      rfl⟩ := applyReady_ok applied
    exact .inr ⟨hold, run, found, mine, foundRun, running, awaiting, unready, unreleased, unresumed, entry, rfl⟩

theorem evolves_resolved {id : String} {status : ApprovalStatus} {decision : Option Decision} {at_ : Instant}
    {resolution : Resolution} (ok : resolveWithLegacyReady db id status decision at_ = .ok (resolution, db')) :
    Evolves db db' := by
  obtain ⟨row, mid, resolved, ⟨rfl, -⟩ | ⟨hold, _, found, -, -, -, -, -, -, -, _, rfl⟩⟩ := resolve_cases ok
  · exact evolves_resolve resolved
  have first := evolves_resolve resolved
  obtain ⟨a, -, -, -, -, rfl⟩ := resolveApproval_ok resolved
  rw [← Table.find_key found] at found
  have here : db.holds.find (hold.readied at_).runId = some hold := found
  exact (first.trans (evolves_setHold here rfl)).appendAudit

theorem evolves_promoted {attempt : PromotionAttempt} (made : Promotes db attempt db') : Evolves db db' := by
  cases made with
  | same => exact Evolves.refl db
  | expired workspace entry found =>
    rw [← Table.find_key found] at found
    have same : WorkspaceRow.frozen { workspace with state := .expired, revision := workspace.revision + 1 } =
        workspace.frozen := rfl
    exact Evolves.appendAudit { Evolves.refl db with workspaces := frozen_set found same }
  | admitted readyAt facts entry next_ =>
    have here : db.holds.find attempt.hint.promoted.runId = some attempt.hint := (readNextReady_some next_).1
    exact Evolves.appendAudit { Evolves.refl db with holds := frozen_set here rfl }

theorem evolves_endWritten {attempt : TerminalAttempt} {s : Snapshot} (found : db.holds.find s.hold.runId = some s.hold) :
    Evolves db (endWritten db attempt s) := by
  have aborts : Evolves db (if attempt.result = .cancelled then db.abortPending s.hold.runId attempt.endedAt else db) := by
    split
    · exact evolves_abortPending _ _
    · exact Evolves.refl db
  have leased := (aborts.trans (evolves_finishRun s.hold.runId s.run.run.status attempt.result attempt.endedAt)).trans
    (evolves_releaseLease s.lease attempt.endedAt)
  obtain ⟨hold, here, same⟩ := Evolves.found (leased.holds s.hold.runId) found
  exact leased.trans (evolves_setHold here same.symm)

theorem evolves_closed {held : Hold} {endedAt : Instant} (ok : closeCohortIfLast db held endedAt = .ok (some db')) :
    Evolves db db' := by
  obtain ⟨cohort, found, -, ⟨-, rfl⟩ | ⟨-, -, rfl⟩⟩ := closeCohortIfLast_ok ok
  · exact Evolves.refl db'
  rw [← Table.find_key found] at found
  have same : CohortRow.frozen { cohort with completedAt := some endedAt } = cohort.frozen := rfl
  exact evolves_setCohort found same

theorem evolves_ends {attempt : CompositionAttempt} {s : Snapshot} (ends : Ends db db' attempt s) : Evolves db db' := by
  obtain ⟨after, closes, rfl⟩ := ends.writes
  obtain ⟨-, found, -⟩ := snapshot_ok ends.fresh
  exact ((evolves_endWritten found).trans (evolves_closed closes)).appendAudit

theorem evolves_step (db : Db) (move : Move) : Evolves db (step db move) := by
  unfold step
  cases move with
  | resolve =>
    dsimp only
    split
    · exact Evolves.refl db
    next made => exact evolves_resolved made
  | promote attempt =>
    dsimp only
    split
    · exact Evolves.refl db
    next made => exact evolves_promoted (promote_cases made).1
  | compose attempt s =>
    dsimp only
    split
    · exact Evolves.refl db
    rename_i made
    obtain ⟨rfl, -⟩ | ⟨ends, -⟩ := compose_cases made
    · exact Evolves.refl _
    · exact evolves_ends ends

theorem evolves_run (moves : List Move) (db : Db) : Evolves db (run step moves db) :=
  run_relates step (fun _ => True) (fun _ => True) Evolves Evolves.refl (fun _ _ _ => Evolves.trans)
    (fun _ _ _ _ => trivial) (fun db move _ _ => evolves_step db move) (fun _ _ => trivial) trivial

end Agent24.Recovery
