import Agent24.Recovery.Frame

/-! The queue of the ready holds: which of them a promotion admits. -/

set_option autoImplicit false
namespace Agent24.Recovery
open Library Agent

/-! The rows that a hold refers to. -/

structure Bound (db : Db) (hold : Hold) : Prop where
  run : ∃ run, db.runs.find hold.runId = some run ∧ run.workspaceId = some hold.workspaceId
  cohort : ∃ cohort, db.cohorts.find hold.cohortId = some cohort ∧ cohort.migrationVersion ≠ 0 ∧
    cohort.workspaceId = hold.workspaceId ∧ cohort.rootGeneration = hold.rootGeneration
  workspace : ∃ workspace, db.workspaces.find hold.workspaceId = some workspace ∧ workspace.kind = .legacyCompat ∧
    workspace.rootGeneration = hold.rootGeneration
  approval : ∀ id, hold.approvalId = some id → ∃ a, db.approvals.find id = some a ∧ a.runId = hold.runId ∧
    a.workspaceId = some hold.workspaceId

/-- The checks on a hold's own columns, and what is not over while it is not released. -/
structure Held (db : Db) (hold : Hold) : Prop where
  released : hold.recoveryState = .released ↔ hold.releasedAt.isSome = true
  asked : hold.recoveryState = .awaitingDecision ∨ hold.recoveryState = .ready → hold.approvalId ≠ none
  since : hold.recoveryState = .ready → hold.readyAt ≠ none
  resumed : hold.recoveryState ≠ .active → hold.activeResumeApprovalId = none
  running : hold.releasedAt = none → ∀ run, db.runs.find hold.runId = some run → run.status.isTerminal = false
  unfinished : hold.releasedAt = none → ∀ cohort, db.cohorts.find hold.cohortId = some cohort →
    cohort.completedAt = none

def Standing (db : Db) : Prop :=
  ∀ runId hold, db.holds.find runId = some hold → Bound db hold ∧ Held db hold

variable {db db' : Db} {hold hold' : Hold}

theorem Hold.frozen_eq (same : hold'.frozen = hold.frozen) : hold'.runId = hold.runId ∧
    hold'.cohortId = hold.cohortId ∧ hold'.workspaceId = hold.workspaceId ∧
    hold'.rootGeneration = hold.rootGeneration ∧ hold'.approvalId = hold.approvalId := by
  simp only [Hold.frozen, Hold.mk.injEq, true_and] at same
  obtain ⟨runId, cohortId, workspaceId, rootGeneration, -, approvalId, -⟩ := same
  exact ⟨runId, cohortId, workspaceId, rootGeneration, approvalId⟩

theorem Bound.evolve (bound : Bound db hold) (evolves : Evolves db db') (same : hold'.frozen = hold.frozen) :
    Bound db' hold' := by
  obtain ⟨runId, cohortId, workspaceId, rootGeneration, approvalId⟩ := Hold.frozen_eq same
  constructor
  case run =>
    obtain ⟨run, found, home⟩ := bound.run
    obtain ⟨run', found', kept⟩ := Evolves.found (evolves.runs _) found
    rw [runId, workspaceId]
    exact ⟨run', found', (congrArg RunRow.workspaceId kept).trans home⟩
  case cohort =>
    obtain ⟨cohort, found, version, home, root⟩ := bound.cohort
    obtain ⟨cohort', found', kept⟩ := Evolves.found (evolves.cohorts _) found
    rw [cohortId, workspaceId, rootGeneration]
    refine ⟨cohort', found', ?_, (congrArg CohortRow.workspaceId kept).trans home,
      (congrArg CohortRow.rootGeneration kept).trans root⟩
    exact fun zero => version ((congrArg CohortRow.migrationVersion kept).symm.trans zero)
  case workspace =>
    obtain ⟨workspace, found, kind, root⟩ := bound.workspace
    obtain ⟨workspace', found', kept⟩ := Evolves.found (evolves.workspaces _) found
    rw [workspaceId, rootGeneration]
    exact ⟨workspace', found', (congrArg WorkspaceRow.kind kept).trans kind,
      (congrArg WorkspaceRow.rootGeneration kept).trans root⟩
  case approval =>
    intro id mine
    rw [approvalId] at mine
    obtain ⟨a, found, run, home⟩ := bound.approval id mine
    obtain ⟨a', found', kept⟩ := Evolves.found (evolves.approvals _) found
    rw [runId, workspaceId]
    exact ⟨a', found', (congrArg ApprovalRow.runId kept).trans run, (congrArg ApprovalRow.workspaceId kept).trans home⟩

/-- The rows that stay the same for a hold: those no end of its run and no close of its cohort wrote. -/
theorem Held.keep (held : Held db hold) (runs : db'.runs.find hold.runId = db.runs.find hold.runId)
    (cohorts : hold.releasedAt = none → db'.cohorts.find hold.cohortId = db.cohorts.find hold.cohortId) :
    Held db' hold :=
  { held with
    running := fun open_ run found => held.running open_ run (runs ▸ found)
    unfinished := fun open_ cohort found => held.unfinished open_ cohort (cohorts open_ ▸ found) }

theorem found_setHold {new : Hold} {runId : String} (found : (db.setHold new).holds.find runId = some hold) :
    (hold = new ∧ runId = new.runId) ∨ (runId ≠ new.runId ∧ db.holds.find runId = some hold) := by
  rw [Db.setHold, Table.find_set] at found
  split at found
  next hit =>
    obtain ⟨_, -, rfl⟩ := Option.map_eq_some_iff.mp found
    exact .inl ⟨rfl, hit⟩
  next apart => exact .inr ⟨apart, found⟩

theorem standing_resolved {id : String} {status : ApprovalStatus} {decision : Option Decision} {at_ : Instant}
    {resolution : Resolution} (standing : Standing db)
    (ok : resolveWithLegacyReady db id status decision at_ = .ok (resolution, db')) : Standing db' := by
  have evolves := evolves_resolved ok
  obtain ⟨row, mid, resolved, cases_⟩ := resolve_cases ok
  obtain ⟨a, -, -, -, -, rfl⟩ := resolveApproval_ok resolved
  obtain ⟨rfl, -⟩ | ⟨old, _, found, mine, -, -, awaiting, -, unreleased, unresumed, _, rfl⟩ := cases_
  · intro runId hold here
    obtain ⟨bound, held⟩ := standing runId hold here
    exact ⟨bound.evolve evolves rfl, held.keep rfl fun _ => rfl⟩
  · intro runId hold here
    obtain ⟨rfl, -⟩ | ⟨-, before⟩ := found_setHold here
    · obtain ⟨bound, held⟩ := standing _ old found
      refine ⟨bound.evolve evolves rfl, ?_, ?_, ?_, ?_, ?_, ?_⟩
      · rw [Hold.readied, unreleased]
        exact ⟨fun same => (by cases same), fun same => (by cases same)⟩
      · exact fun _ => held.asked (.inl awaiting)
      · exact fun _ => Option.some_ne_none _
      · exact fun _ => unresumed
      · exact fun _ => held.running unreleased
      · exact fun _ => held.unfinished unreleased
    · obtain ⟨bound, held⟩ := standing runId hold before
      exact ⟨bound.evolve evolves rfl, held.keep rfl fun _ => rfl⟩

theorem standing_promoted {attempt : PromotionAttempt} (standing : Standing db) (made : Promotes db attempt db') :
    Standing db' := by
  have evolves := evolves_promoted made
  cases made with
  | same => exact standing
  | expired =>
    intro runId hold here
    obtain ⟨bound, held⟩ := standing runId hold here
    exact ⟨bound.evolve evolves rfl, held.keep rfl fun _ => rfl⟩
  | admitted readyAt facts entry next_ =>
    obtain ⟨found, isReady⟩ := readNextReady_some next_
    intro runId hold here
    obtain ⟨rfl, -⟩ | ⟨-, before⟩ := found_setHold here
    · obtain ⟨bound, held⟩ := standing _ _ found
      refine ⟨bound.evolve evolves rfl, ?_, ?_, ?_, ?_, held.running, held.unfinished⟩
      · have unreleased := (not_congr held.released).mp (by rw [isReady]; exact fun same => (by cases same))
        exact ⟨fun same => (by cases same), fun released => absurd released unreleased⟩
      · rintro (same | same) <;> cases same
      · intro same
        cases same
      · exact fun apart => absurd rfl apart
    · obtain ⟨bound, held⟩ := standing runId hold before
      exact ⟨bound.evolve evolves rfl, held.keep rfl fun _ => rfl⟩

theorem endWritten_tables (attempt : TerminalAttempt) (s : Snapshot) :
    (endWritten db attempt s).holds = db.holds.set (s.hold.releasedHold attempt.endedAt) ∧
      (endWritten db attempt s).cohorts = db.cohorts ∧ (endWritten db attempt s).runs =
        (db.finishRun s.hold.runId s.run.run.status attempt.result attempt.endedAt).runs := by
  unfold endWritten
  by_cases cancelled : attempt.result = .cancelled
  · rw [if_pos cancelled]
    cases s.lease with
    | none => exact ⟨rfl, rfl, rfl⟩
    | some lease => exact ⟨rfl, rfl, rfl⟩
  · rw [if_neg cancelled]
    cases s.lease with
    | none => exact ⟨rfl, rfl, rfl⟩
    | some lease => exact ⟨rfl, rfl, rfl⟩

theorem finishRun_other {runId id : String} {from_ to_ : RunStatus} {endedAt : Instant} (apart : id ≠ runId) :
    (db.finishRun runId from_ to_ endedAt).runs.find id = db.runs.find id := by
  rw [Db.finishRun, Table.find_update]
  cases found : db.runs.find id with
  | none => rfl
  | some run =>
    rw [Option.map_some, if_neg]
    rw [Table.find_key found, Bool.and_eq_true, beq_iff_eq]
    exact fun hit => apart hit.1

theorem unreleased_ne_zero {runId : String} (found : db.holds.find runId = some hold) (open_ : hold.releasedAt = none) :
    unreleased db hold.cohortId ≠ 0 := by
  have counted : 0 < unreleased db hold.cohortId := by
    refine List.countP_pos_iff.mpr ⟨hold, (Table.find_eq_some.mp found).1, ?_⟩
    rw [open_, beq_self_eq_true]
    rfl
  exact Nat.ne_of_gt counted

/-- What the last step of an end leaves: the holds are as written, and only a cohort without open holds changes. -/
theorem closed_frame {held : Hold} {endedAt : Instant} (ok : closeCohortIfLast db held endedAt = .ok (some db')) :
    db'.holds = db.holds ∧ db'.runs = db.runs ∧ ∀ cohortId, unreleased db cohortId ≠ 0 →
      db'.cohorts.find cohortId = db.cohorts.find cohortId := by
  obtain ⟨cohort, found, -, ⟨-, rfl⟩ | ⟨all, -, rfl⟩⟩ := closeCohortIfLast_ok ok
  · exact ⟨rfl, rfl, fun _ _ => rfl⟩
  refine ⟨rfl, rfl, fun cohortId some_ => ?_⟩
  rw [Db.setCohort, Table.find_set, if_neg]
  rintro rfl
  rw [Table.find_key found] at some_
  exact some_ all

theorem standing_ends {attempt : CompositionAttempt} {s : Snapshot} (standing : Standing db)
    (ends : Ends db db' attempt s) : Standing db' := by
  have evolves := evolves_ends ends
  obtain ⟨after, closes, rfl⟩ := ends.writes
  obtain ⟨-, found, -⟩ := snapshot_ok ends.fresh
  obtain ⟨holds, runs, cohorts⟩ := closed_frame closes
  obtain ⟨setHolds, sameCohorts, endedRuns⟩ := @endWritten_tables db attempt.terminal s
  intro runId hold here
  have written : (endWritten db attempt.terminal s).holds.find runId = some hold := by
    rw [← show after.holds = (endWritten db attempt.terminal s).holds from holds]
    exact here
  have set_ := written
  rw [setHolds] at set_
  obtain ⟨rfl, -⟩ | ⟨apart, before⟩ := found_setHold (by exact set_)
  · obtain ⟨bound, -⟩ := standing _ _ found
    refine ⟨bound.evolve evolves rfl, ⟨fun _ => rfl, fun _ => rfl⟩, ?_, ?_, fun _ => rfl, ?_, ?_⟩
    · rintro (same | same) <;> cases same
    · intro same
      cases same
    · intro same
      cases same
    · intro same
      cases same
  · obtain ⟨bound, held⟩ := standing runId hold before
    refine ⟨bound.evolve evolves rfl, held.keep ?_ fun open_ => ?_⟩
    · rw [show (after.appendAudit _).runs = (endWritten db attempt.terminal s).runs from runs, endedRuns]
      exact finishRun_other (by rw [Table.find_key before]; exact apart)
    · rw [show (after.appendAudit _).cohorts.find hold.cohortId = _ from
        cohorts hold.cohortId (unreleased_ne_zero written open_)]
      exact congrArg (·.find hold.cohortId) sameCohorts

theorem standing_step (move : Move) (standing : Standing db) : Standing (step db move) := by
  unfold step
  cases move with
  | resolve =>
    dsimp only
    split
    · exact standing
    next made => exact standing_resolved standing made
  | promote attempt =>
    dsimp only
    split
    · exact standing
    next made => exact standing_promoted standing (promote_cases made).1
  | compose attempt s =>
    dsimp only
    split
    · exact standing
    rename_i made
    obtain ⟨rfl, -⟩ | ⟨ends, -⟩ := compose_cases made
    · exact standing
    · exact standing_ends standing ends

theorem standing_run (moves : List Move) (standing : Standing db) : Standing (run step moves db) :=
  run_invariant step (fun _ => True) Standing (fun _ move _ => standing_step move) (fun _ _ => trivial) standing

/-! The resolutions that a promotion takes for a permission. -/

structure Permits (db : Db) (hold : Hold) (a : ApprovalRow) (status : ApprovalStatus) (decision : Option Decision)
    (at_ : Instant) : Prop where
  approved : status = .approved
  offered : ∃ d, decision = some d ∧ promotes d.kind = true ∧ a.availableDecisions.contains d.kind = true
  asked : a.createdAt ≤ at_
  intime : at_ ≤ a.expiresAt
  run : ∀ run, db.runs.find hold.runId = some run → run.createdAt ≤ at_
  cohort : ∀ cohort, db.cohorts.find hold.cohortId = some cohort → cohort.createdAt ≤ at_
  workspace : ∀ workspace, db.workspaces.find hold.workspaceId = some workspace → workspace.createdAt ≤ at_

structure Waits (db : Db) (id : String) (a : ApprovalRow) (hold : Hold) : Prop where
  approval : db.approvals.find id = some a
  pending : a.status = .pending
  held : db.holds.find a.runId = some hold
  mine : hold.approvalId = some id
  awaiting : hold.recoveryState = .awaitingDecision
  unready : hold.readyAt = none

def Meets (db : Db) : Move → Prop
  | .resolve id status decision at_ => isResolved status = true →
      ∀ a hold, Waits db id a hold → Permits db hold a status decision at_
  | .promote _ | .compose _ _ => True

def Granted (db : Db) (hold : Hold) : Prop :=
  ∃ readyAt id a, hold.readyAt = some readyAt ∧ hold.approvalId = some id ∧ db.approvals.find id = some a ∧
    a.decidedAt = some readyAt ∧ Permits db hold a a.status a.decision readyAt

def Queued (db : Db) : Prop :=
  ∀ runId hold, db.holds.find runId = some hold → hold.recoveryState = .ready → Granted db hold

theorem Evolves.before {α : Type} {freeze : α → α} {before after : Option α} {b : α}
    (same : after.map freeze = before.map freeze) (here : after = some b) : ∃ a, before = some a ∧ freeze b = freeze a := by
  obtain ⟨a, found, kept⟩ := Evolves.found same.symm here
  exact ⟨a, found, kept.symm⟩

theorem Permits.evolve {a : ApprovalRow} {status : ApprovalStatus} {decision : Option Decision} {at_ : Instant}
    (permits : Permits db hold a status decision at_) (evolves : Evolves db db') :
    Permits db' hold a status decision at_ where
  approved := permits.approved
  offered := permits.offered
  asked := permits.asked
  intime := permits.intime
  run run' found' := by
    obtain ⟨run, found, kept⟩ := Evolves.before (evolves.runs _) found'
    exact (congrArg RunRow.createdAt kept).trans_le (permits.run run found)
  cohort cohort' found' := by
    obtain ⟨cohort, found, kept⟩ := Evolves.before (evolves.cohorts _) found'
    exact (congrArg CohortRow.createdAt kept).trans_le (permits.cohort cohort found)
  workspace workspace' found' := by
    obtain ⟨workspace, found, kept⟩ := Evolves.before (evolves.workspaces _) found'
    exact (congrArg WorkspaceRow.createdAt kept).trans_le (permits.workspace workspace found)

theorem Granted.evolve (granted : Granted db hold) (evolves : Evolves db db') : Granted db' hold := by
  obtain ⟨readyAt, id, a, ready, mine, found, decidedAt, permits⟩ := granted
  have settled : a.status ≠ .pending := by rw [permits.approved]; exact fun same => (by cases same)
  exact ⟨readyAt, id, a, ready, mine, evolves.settled id a found settled, decidedAt, permits.evolve evolves⟩

theorem queued_resolved {id : String} {status : ApprovalStatus} {decision : Option Decision} {at_ : Instant}
    {resolution : Resolution} (meets : Meets db (.resolve id status decision at_)) (queued : Queued db)
    (ok : resolveWithLegacyReady db id status decision at_ = .ok (resolution, db')) : Queued db' := by
  have evolves := evolves_resolved ok
  obtain ⟨row, mid, resolved, cases_⟩ := resolve_cases ok
  obtain ⟨a, foundA, pending, settles, rfl, rfl⟩ := resolveApproval_ok resolved
  obtain ⟨rfl, -⟩ | ⟨old, _, found, mine, -, -, awaiting, unready, -, -, _, rfl⟩ := cases_
  · intro runId hold here ready
    exact (queued runId hold here ready).evolve evolves
  intro runId hold here ready
  obtain ⟨rfl, -⟩ | ⟨-, before⟩ := found_setHold here
  · -- The hold that was waiting: its resolution permits.
    have permits := meets settles a old ⟨foundA, pending, found, mine, awaiting, unready⟩
    have row : (db.approvals.set (a.resolved status decision at_)).find id =
        some (a.resolved status decision at_) := by
      rw [Table.find_set, if_pos (by exact (Table.find_key foundA).symm), foundA, Option.map_some]
    have kept : Permits db (old.readied at_) (a.resolved status decision at_) status decision at_ := { permits with }
    exact ⟨at_, id, a.resolved status decision at_, rfl, mine, row, rfl, kept.evolve evolves⟩
  · exact (queued runId hold before ready).evolve evolves

theorem queued_step {move : Move} (meets : Meets db move) (queued : Queued db) : Queued (step db move) := by
  have evolves := evolves_step db move
  revert evolves
  unfold step
  cases move with
  | resolve =>
    dsimp only
    split
    · exact fun _ => queued
    next made => exact fun _ => queued_resolved meets queued made
  | promote attempt =>
    dsimp only
    split
    · exact fun _ => queued
    rename_i made
    intro evolves runId hold here ready
    cases (promote_cases made).1 with
    | same => exact queued runId hold here ready
    | expired => exact (queued runId hold here ready).evolve evolves
    | admitted =>
      obtain ⟨rfl, -⟩ | ⟨-, before⟩ := found_setHold here
      · cases ready
      · exact (queued runId hold before ready).evolve evolves
  | compose attempt s =>
    dsimp only
    split
    · exact fun _ => queued
    rename_i made
    intro evolves runId hold here ready
    obtain ⟨rfl, -⟩ | ⟨ends, -⟩ := compose_cases made
    · exact queued runId hold here ready
    obtain ⟨after, closes, rfl⟩ := ends.writes
    obtain ⟨holds, -⟩ := closed_frame closes
    have written : after.holds.find runId = some hold := here
    rw [holds, (@endWritten_tables db attempt.terminal s).1] at written
    obtain ⟨rfl, -⟩ | ⟨-, before⟩ := found_setHold (by exact written)
    · cases ready
    · exact (queued runId hold before ready).evolve evolves

/-! What a promotion answers. -/

/-- The facts of a granted hold in an active workspace permit its promotion from the time it became ready. -/
theorem granted_facts (standing : Standing db) {runId : String} (found : db.holds.find runId = some hold)
    (ready : hold.recoveryState = .ready) (granted : Granted db hold)
    (active : ∀ w, db.workspaces.find hold.workspaceId = some w → w.state = .active) :
    ∃ readyAt workspace, hold.readyAt = some readyAt ∧ db.workspaces.find hold.workspaceId = some workspace ∧
      ∀ now, readyAt ≤ now → ∃ facts, promotionFacts db hold readyAt now = .ok (some facts) ∧
        facts.run.id = hold.runId ∧ some facts.approvalId = hold.approvalId ∧ facts.workspace = workspace := by
  obtain ⟨bound, held⟩ := standing runId hold found
  obtain ⟨readyAt, id, a, since, mine, foundA, decidedAt, permits⟩ := granted
  obtain ⟨run, foundRun, homeRun⟩ := bound.run
  obtain ⟨cohort, foundC, version, homeC, rootC⟩ := bound.cohort
  obtain ⟨workspace, foundW, kind, rootW⟩ := bound.workspace
  obtain ⟨a', foundA', ofRun, homeA⟩ := bound.approval id mine
  obtain rfl := Option.some.inj (foundA'.symm.trans foundA)
  obtain ⟨decision, decided, promoting, offered⟩ := permits.offered
  have open_ : hold.releasedAt = none := by
    have unreleased := (not_congr held.released).mp (by rw [ready]; exact fun same => (by cases same))
    simpa using unreleased
  have permitsA : ∀ now, readyAt ≤ now → approvalPermits hold run a' decision readyAt now = true := by
    intro now later
    simp only [approvalPermits, homeA, homeRun, permits.approved, promoting, offered, permits.asked, permits.intime,
      later, beq_self_eq_true, decide_true, Bool.and_self]
  have permitsC : ∀ now, readyAt ≤ now → cohortPermits hold run cohort readyAt readyAt now = true := by
    intro now later
    have created := permits.cohort cohort foundC
    simp only [cohortPermits, homeC, rootC, created, created.trans later, permits.run run foundRun,
      held.unfinished open_ cohort foundC, beq_self_eq_true, decide_true, le_refl, Option.isNone_none, Bool.and_self]
  have permitsW : ∀ now, readyAt ≤ now → workspacePermits hold workspace readyAt now = true := by
    intro now later
    have created := permits.workspace workspace foundW
    simp only [workspacePermits, kind, rootW, active workspace foundW, created, created.trans later, later,
      beq_self_eq_true, decide_true, Bool.and_self]
  have sameRun : run.id = hold.runId := Table.find_key foundRun
  refine ⟨readyAt, workspace, since, foundW, fun now later => ?_⟩
  exact ⟨_, promotionFacts_of foundRun (held.running open_ run foundRun) mine foundA ofRun decided decidedAt
    (permitsA now later) foundC version (permitsC now later) foundW (permitsW now later),
    sameRun, mine.symm, rfl⟩

theorem commitAdmission_admits {attempt : PromotionAttempt} {readyAt : Instant} {facts : PromotionFacts}
    (found : db.holds.find attempt.hint.runId = some attempt.hint) (unreleased : attempt.hint.releasedAt = none)
    (unresumed : attempt.hint.activeResumeApprovalId = none)
    (permits : promotionFacts db attempt.hint readyAt attempt.acquiredAt = .ok (some facts)) :
    ∃ after, commitAdmission db attempt readyAt facts = .ok (.admitted ⟨attempt.hint.promoted, attempt.lease⟩, after) := by
  unfold commitAdmission
  rw [if_neg (by rw [unreleased, unresumed]; exact Bool.false_ne_true)]
  dsimp only
  -- The facts are read from rows that the admission does not write.
  have again : ∀ entry, promotionFacts (Db.appendAudit { db with
      leases := db.leases.put attempt.lease
      holds := db.holds.set attempt.hint.promoted } entry) attempt.hint.promoted readyAt attempt.acquiredAt =
        .ok (some facts) := fun _ => permits
  rw [again]
  dsimp only
  rw [if_neg (not_not.mpr rfl)]
  have hold : (db.holds.set attempt.hint.promoted).find attempt.hint.promoted.runId = some attempt.hint.promoted := by
    rw [Table.find_set, if_pos rfl]
    exact (congrArg (Option.map fun _ => attempt.hint.promoted) found).trans rfl
  have lease : (db.leases.put attempt.lease).find attempt.lease.id = some attempt.lease := Table.find_put_self
  unfold admissionReread Db.readHold Db.appendAudit
  rw [hold]
  rw [lease]
  dsimp only
  rw [if_neg (by simp)]
  exact ⟨_, rfl⟩

/-- A hold can leave the queue: nothing that was decided about it is in the way of its promotion. -/
structure Promotable (db : Db) (hold : Hold) : Prop where
  facts : ∃ readyAt, hold.readyAt = some readyAt ∧ ∀ now, readyAt ≤ now →
    ∃ facts, promotionFacts db hold readyAt now = .ok (some facts)
  /-- As the oldest one, with no competing lease, it is admitted while its workspace is not expired. -/
  admitted : db.readNextReady = some hold → openRunLeaseExists db hold.workspaceId hold.runId = false →
    ∀ attempt : PromotionAttempt, attempt.hint = hold → db.leases.find attempt.leaseId = none →
      hold.readyAt.all (· ≤ attempt.acquiredAt) = true →
      (db.workspaces.find hold.workspaceId).all (attempt.acquiredAt < ·.expiresAt) = true →
      ∃ after, promoteLegacyRecovery db attempt = .ok (.admitted ⟨hold.promoted, attempt.lease⟩, after)

theorem granted_promotable (standing : Standing db) {runId : String} (found : db.holds.find runId = some hold)
    (ready : hold.recoveryState = .ready) (granted : Granted db hold)
    (active : ∀ w, db.workspaces.find hold.workspaceId = some w → w.state = .active) : Promotable db hold := by
  obtain ⟨readyAt, workspace, since, foundW, permits⟩ := granted_facts standing found ready granted active
  constructor
  case facts =>
    refine ⟨readyAt, since, fun now later => ?_⟩
    obtain ⟨facts, read, -⟩ := permits now later
    exact ⟨facts, read⟩
  case admitted =>
    rintro next_ alone attempt rfl unused later before
    obtain ⟨bound, held⟩ := standing runId attempt.hint found
    obtain ⟨run, foundRun, -⟩ := bound.run
    have open_ : attempt.hint.releasedAt = none := by
      have unreleased := (not_congr held.released).mp (by rw [ready]; exact fun same => (by cases same))
      simpa using unreleased
    rw [since, Option.all_some, decide_eq_true_eq] at later
    rw [foundW, Option.all_some, decide_eq_true_eq] at before
    obtain ⟨facts, read, sameRun, sameApproval, rfl⟩ := permits attempt.acquiredAt later
    unfold promoteLegacyRecovery
    rw [unused]
    rw [if_neg (not_not.mpr next_), foundRun]
    dsimp only
    rw [if_neg (by rw [held.running open_ run foundRun]; exact Bool.false_ne_true), since]
    dsimp only
    rw [if_neg (Nat.not_lt.mpr later), read]
    dsimp only
    rw [if_neg (not_or.mpr ⟨not_not.mpr sameRun, not_not.mpr sameApproval⟩), if_neg (Nat.not_le.mpr before),
      if_neg (by rw [alone]; exact Bool.false_ne_true)]
    exact commitAdmission_admits (readNextReady_some next_).1 open_
      (held.resumed (by rw [ready]; exact fun same => (by cases same))) read

end Agent24.Recovery
