import Agent24.Recovery.Terminal

/-! What each transaction on the recovery holds can do, and what none of them touches. -/

set_option autoImplicit false
namespace Agent24.Recovery
open Library Agent

inductive Move where
  | resolve (id : String) (status : ApprovalStatus) (decision : Option Decision) (resolvedAt : Instant)
  | promote (attempt : PromotionAttempt)
  | compose (attempt : CompositionAttempt) (snapshot : Snapshot)

def step (db : Db) : Move → Db
  | .resolve id status decision resolvedAt =>
    match resolveWithLegacyReady db id status decision resolvedAt with
    | .error _ => db
    | .ok (_, after) => after
  | .promote attempt =>
    match promoteLegacyRecovery db attempt with
    | .error _ => db
    | .ok (_, after) => after
  | .compose attempt snapshot =>
    match composeTerminal db attempt snapshot with
    | .error _ => db
    | .ok (_, after) => after

/-! The transactions by what they write. -/

def ApprovalRow.resolved (a : ApprovalRow) (status : ApprovalStatus) (decision : Option Decision) (at_ : Instant) :
    ApprovalRow :=
  { a with status := status, decision := decision, decidedAt := some at_ }

variable {db db' : Db} {readyAt : Instant} {s : Snapshot} {attempt : CompositionAttempt}

theorem resolveApproval_ok {id : String} {status : ApprovalStatus} {decision : Option Decision} {at_ : Instant}
    {row : ApprovalRow} (ok : resolveApproval db id status decision at_ = .ok (row, db')) :
    ∃ a, db.approvals.find id = some a ∧ a.status = .pending ∧ isResolved status = true ∧
      row = a.resolved status decision at_ ∧ db' = { db with approvals := db.approvals.set row } := by
  unfold resolveApproval at ok
  split at ok
  · cases ok
  rename_i resolved
  split at ok
  · cases ok
  rename_i a found
  split at ok
  · cases ok
  rename_i pending
  cases ok
  exact ⟨a, found, not_not.mp pending, eq_true_of_ne_false resolved, rfl, rfl⟩

def Hold.readied (hold : Hold) (readyAt : Instant) : Hold :=
  { hold with recoveryState := .ready, readyAt := some readyAt }

theorem recoveryDecisionEffect_markReady {status : RunStatus} {recoveryState : RecoveryState} {resolved : Bool}
    (ready : recoveryDecisionEffect status recoveryState resolved = .markReady) :
    status.isTerminal = false ∧ resolved = true ∧ recoveryState = .awaitingDecision := by
  unfold recoveryDecisionEffect at ready
  split at ready
  · cases ready
  rename_i may
  rw [Bool.or_eq_true, not_or] at may
  cases recoveryState with
  | awaitingDecision => exact ⟨eq_false_of_ne_true may.1, by simpa using may.2, rfl⟩
  | _ => cases ready

theorem applyReady_ok {runId id : String} (ok : applyReady db runId id readyAt = .ok (some db')) :
    ∃ hold run a, db.holds.find runId = some hold ∧ hold.approvalId = some id ∧ db.runs.find hold.runId = some run ∧
      db.approvals.find id = some a ∧ a.runId = run.id ∧ run.status.isTerminal = false ∧
      hold.recoveryState = .awaitingDecision ∧ hold.readyAt = none ∧ hold.releasedAt = none ∧
      hold.activeResumeApprovalId = none ∧ ∃ entry, db' = (db.setHold (hold.readied readyAt)).appendAudit entry := by
  unfold applyReady Db.readHold at ok
  split at ok
  next => cases ok
  rename_i hold read
  split at read
  · cases read
  rename_i found
  cases read
  split at ok
  · cases ok
  rename_i mine
  split at ok
  · cases ok
  rename_i run foundRun
  split at ok
  · cases ok
  rename_i a foundA
  split at ok
  · cases ok
  rename_i same
  split at ok
  · cases ok
  rename_i ready
  split at ok
  · cases ok
  rename_i guards
  cases ok
  simp only [Bool.or_eq_true, not_or, Option.not_isSome_iff_eq_none] at guards
  obtain ⟨running, -, awaiting⟩ := recoveryDecisionEffect_markReady (not_not.mp ready)
  exact ⟨hold, run, a, found, not_not.mp mine, foundRun, foundA, not_not.mp same, running, awaiting,
    guards.1.1, guards.1.2, guards.2, _, rfl⟩

theorem promotionFacts_some {hold : Hold} {now : Instant} {facts : PromotionFacts}
    (ok : promotionFacts db hold readyAt now = .ok (some facts)) :
    ∃ run id a decision decidedAt cohort workspace, db.runs.find hold.runId = some run ∧ run.status.isTerminal = false ∧
      hold.approvalId = some id ∧ db.approvals.find id = some a ∧ a.runId = hold.runId ∧ a.decision = some decision ∧
      a.decidedAt = some decidedAt ∧ approvalPermits hold run a decision decidedAt now = true ∧
      db.cohorts.find hold.cohortId = some cohort ∧ cohort.migrationVersion ≠ 0 ∧
      cohortPermits hold run cohort decidedAt readyAt now = true ∧
      db.workspaces.find hold.workspaceId = some workspace ∧ workspacePermits hold workspace readyAt now = true ∧
      facts = ⟨run.facts, id, decision, workspace, a.createdAt, a.expiresAt, decidedAt, cohort.createdAt,
        cohort.migrationVersion⟩ := by
  unfold promotionFacts at ok
  split at ok
  · cases ok
  rename_i run foundRun
  split at ok
  · cases ok
  rename_i running
  split at ok
  · cases ok
  rename_i id mine
  split at ok
  · cases ok
  rename_i a foundA
  split at ok
  · cases ok
  rename_i same
  split at ok
  · cases ok
  rename_i decision decided
  split at ok
  · cases ok
  rename_i decidedAt at_
  split at ok
  · cases ok
  rename_i permits
  split at ok
  · cases ok
  rename_i cohort foundC
  split at ok
  · cases ok
  rename_i version
  split at ok
  · cases ok
  rename_i permitsC
  split at ok
  · cases ok
  rename_i workspace foundW
  split at ok
  · cases ok
  rename_i permitsW
  cases ok
  exact ⟨run, id, a, decision, decidedAt, cohort, workspace, foundRun,
    eq_false_of_ne_true running, mine, foundA, not_not.mp same, decided, at_,
    eq_true_of_ne_false permits, foundC, version, eq_true_of_ne_false permitsC, foundW,
    eq_true_of_ne_false permitsW, rfl⟩

theorem promotionFacts_of {hold : Hold} {now : Instant} {run : RunRow} {id : String} {a : ApprovalRow}
    {decision : Decision} {decidedAt : Instant} {cohort : CohortRow} {workspace : WorkspaceRow}
    (foundRun : db.runs.find hold.runId = some run) (running : run.status.isTerminal = false)
    (mine : hold.approvalId = some id) (foundA : db.approvals.find id = some a) (same : a.runId = hold.runId)
    (decided : a.decision = some decision) (at_ : a.decidedAt = some decidedAt)
    (permits : approvalPermits hold run a decision decidedAt now = true)
    (foundC : db.cohorts.find hold.cohortId = some cohort) (version : cohort.migrationVersion ≠ 0)
    (permitsC : cohortPermits hold run cohort decidedAt readyAt now = true)
    (foundW : db.workspaces.find hold.workspaceId = some workspace)
    (permitsW : workspacePermits hold workspace readyAt now = true) :
    promotionFacts db hold readyAt now = .ok (some ⟨run.facts, id, decision, workspace, a.createdAt, a.expiresAt,
      decidedAt, cohort.createdAt, cohort.migrationVersion⟩) := by
  unfold promotionFacts
  rw [foundRun]
  dsimp only
  rw [if_neg (by rw [running]; exact Bool.false_ne_true), mine]
  dsimp only
  rw [foundA]
  dsimp only
  rw [if_neg (not_not.mpr same), decided, at_]
  dsimp only
  rw [if_neg (by rw [permits]; exact Bool.noConfusion), foundC]
  dsimp only
  rw [if_neg version, if_neg (by rw [permitsC]; exact Bool.noConfusion), foundW]
  dsimp only
  rw [if_neg (by rw [permitsW]; exact Bool.noConfusion)]

inductive Promotes (db : Db) (attempt : PromotionAttempt) : Db → Prop
  | same : Promotes db attempt db
  | expired (workspace : WorkspaceRow) (entry : AuditEntry)
      (found : db.workspaces.find attempt.hint.workspaceId = some workspace) :
      Promotes db attempt ({ db with
        workspaces := db.workspaces.set
          { workspace with state := .expired, revision := workspace.revision + 1 } }.appendAudit entry)
  | admitted (readyAt : Instant) (facts : PromotionFacts) (entry : AuditEntry)
      (next : db.readNextReady = some attempt.hint)
      (unused : db.leases.find attempt.leaseId = none)
      (alone : openRunLeaseExists db attempt.hint.workspaceId attempt.hint.runId = false)
      (ready : attempt.hint.readyAt = some readyAt)
      (permits : promotionFacts db attempt.hint readyAt attempt.acquiredAt = .ok (some facts)) :
      Promotes db attempt ({ db with
        leases := db.leases.put attempt.lease
        holds := db.holds.set attempt.hint.promoted }.appendAudit entry)

theorem commitAdmission_ok {attempt : PromotionAttempt} {facts : PromotionFacts} {outcome : PromotionOutcome}
    (ok : commitAdmission db attempt readyAt facts = .ok (outcome, db')) :
    outcome = .admitted ⟨attempt.hint.promoted, attempt.lease⟩ ∧ ∃ entry, db' = { db with
      leases := db.leases.put attempt.lease
      holds := db.holds.set attempt.hint.promoted }.appendAudit entry := by
  unfold commitAdmission at ok
  split at ok
  · cases ok
  dsimp only at ok
  split at ok
  · cases ok
  rename_i again _
  split at ok
  · cases ok
  split at ok
  · cases ok
  rename_i admission reread
  cases ok
  refine ⟨?_, _, rfl⟩
  unfold admissionReread at reread
  split at reread
  · cases reread
  split at reread
  · cases reread
  split at reread
  · cases reread
  · cases reread
    rfl

theorem expireWorkspace_ok {now : Instant} {workspace : WorkspaceRow}
    (ok : expireWorkspace db now workspace = .ok db') :
    ∃ entry, db' = { db with
      workspaces := db.workspaces.set
        { workspace with state := .expired, revision := workspace.revision + 1 } }.appendAudit entry := by
  unfold expireWorkspace at ok
  split at ok
  · cases ok
  · cases ok
    exact ⟨_, rfl⟩

theorem promote_cases {attempt : PromotionAttempt} {outcome : PromotionOutcome}
    (ok : promoteLegacyRecovery db attempt = .ok (outcome, db')) :
    Promotes db attempt db' ∧ (db' = db ∨ outcome = .workspaceUnavailable ∨
      outcome = .admitted ⟨attempt.hint.promoted, attempt.lease⟩) := by
  unfold promoteLegacyRecovery at ok
  split at ok
  next existing found =>
    split at ok
    · cases ok
      exact ⟨.same, .inl rfl⟩
    cases seen : observePromotion db attempt with
    | error e =>
      rw [seen] at ok
      cases ok
    | ok outcome' =>
      rw [seen] at ok
      cases ok
      exact ⟨.same, .inl rfl⟩
  next unused =>
    split at ok
    · cases ok
      exact ⟨.same, .inl rfl⟩
    rename_i next_
    split at ok
    · cases ok
    rename_i run foundRun
    split at ok
    · cases ok
      exact ⟨.same, .inl rfl⟩
    split at ok
    · cases ok
    rename_i readyAt ready
    split at ok
    · cases ok
      exact ⟨.same, .inl rfl⟩
    split at ok
    · cases ok
    · cases ok
      exact ⟨.same, .inl rfl⟩
    rename_i facts permits
    split at ok
    · cases ok
      exact ⟨.same, .inl rfl⟩
    split at ok
    · cases expires : expireWorkspace db attempt.acquiredAt facts.workspace with
      | error e =>
        rw [expires] at ok
        cases ok
      | ok after =>
        rw [expires] at ok
        cases ok
        obtain ⟨entry, rfl⟩ := expireWorkspace_ok expires
        obtain ⟨_, _, _, _, _, _, workspace, -, -, -, -, -, -, -, -, -, -, -, foundW, -, rfl⟩ :=
          promotionFacts_some permits
        exact ⟨.expired workspace entry foundW, .inr (.inl rfl)⟩
    · split at ok
      · cases ok
        exact ⟨.same, .inl rfl⟩
      rename_i alone
      obtain ⟨made, entry, rfl⟩ := commitAdmission_ok ok
      exact ⟨.admitted readyAt facts entry (not_not.mp next_) unused (eq_false_of_ne_true alone) ready
        permits, .inr (.inr made)⟩

def endWritten (db : Db) (attempt : TerminalAttempt) (s : Snapshot) : Db :=
  (((if attempt.result = .cancelled then db.abortPending s.hold.runId attempt.endedAt else db).finishRun s.hold.runId
    s.run.run.status attempt.result attempt.endedAt).releaseLease s.lease attempt.endedAt).setHold
      (s.hold.releasedHold attempt.endedAt)

structure Ends (db db' : Db) (attempt : CompositionAttempt) (s : Snapshot) : Prop where
  fresh : snapshot db s.hold.runId = .ok s
  plan : planTerminal s attempt.terminal = .ok .release
  lease : attempt.lease = s.lease
  unaudited : terminalAudit s.hold attempt.terminal ∉ db.auditLog
  unreleased : s.hold.releasedAt = none
  writes : ∃ after, closeCohortIfLast (endWritten db attempt.terminal s) (s.hold.releasedHold attempt.terminal.endedAt)
      attempt.terminal.endedAt = .ok (some after) ∧
    db' = after.appendAudit (terminalAudit s.hold attempt.terminal)
  approvals : ∃ read, readAllApprovals db' s.hold.runId = .ok read ∧ read.all (fun a => a.status != .pending) = true

theorem closeCohortIfLast_ok {after : Db} {held : Hold} {endedAt : Instant}
    (ok : closeCohortIfLast db held endedAt = .ok (some after)) :
    ∃ cohort, db.cohorts.find held.cohortId = some cohort ∧ cohort.completedAt = none ∧
      ((unreleased db held.cohortId ≠ 0 ∧ after = db) ∨
        (unreleased db held.cohortId = 0 ∧ (∀ at_, latestRelease db held.cohortId = some at_ → at_ ≤ endedAt) ∧
          after = db.setCohort { cohort with completedAt := some endedAt })) := by
  unfold closeCohortIfLast readCohort at ok
  split at ok
  · cases ok
  rename_i cohort read
  split at read
  · cases read
  rename_i found
  split at read
  · cases read
  split at read
  · cases read
  cases read
  split at ok
  · cases ok
  rename_i open_
  have none_ : cohort.completedAt = none := by simpa using open_
  split at ok
  next some_ =>
    cases ok
    exact ⟨cohort, found, none_, .inl ⟨some_, rfl⟩⟩
  next all =>
    split at ok
    · cases ok
    rename_i latest
    cases ok
    refine ⟨cohort, found, none_, .inr ⟨not_not.mp all, ?_, rfl⟩⟩
    intro at_ same
    rw [same, Option.any_some, decide_eq_true_eq, Nat.not_lt] at latest
    exact latest

theorem writeEnd_ok {after : Db} {terminal : TerminalAttempt} {expected : Snapshot}
    {approvals : List ApprovalRow} (ok : writeEnd db terminal s expected approvals = .ok (some after)) :
    s.hold.releasedAt = none ∧ closeCohortIfLast (endWritten db terminal s) (s.hold.releasedHold terminal.endedAt)
      terminal.endedAt = .ok (some after) := by
  unfold writeEnd at ok
  split at ok
  · cases ok
  rename_i actual db₁ begun
  have first : db₁ = if terminal.result = .cancelled then db.abortPending s.hold.runId terminal.endedAt else db := by
    split at begun
    next cancelled =>
      rw [if_pos cancelled]
      unfold abortAllPending at begun
      split at begun
      · cases begun
      split at begun
      · cases begun
      split at begun
      · cases begun
      split at begun
      · cases begun
      · cases begun
        rfl
    next other =>
      rw [if_neg other]
      cases begun
      rfl
  split at ok
  · cases ok
  split at ok
  · cases ok
  dsimp only at ok
  split at ok
  · cases ok
  split at ok
  · cases ok
  rename_i guards
  rw [not_or, Option.not_isSome_iff_eq_none] at guards
  rw [endWritten, ← first]
  exact ⟨guards.2, ok⟩

theorem readAllApprovals_pending {runId : String} {read : List ApprovalRow}
    (ok : readAllApprovals db runId = .ok read) :
    read = db.approvals.rows.filter fun a => a.runId == runId := by
  unfold readAllApprovals at ok
  generalize (db.approvals.rows.filter fun a => a.runId == runId) = rows at ok
  induction rows generalizing read with
  | nil =>
    cases ok
    rfl
  | cons a rest ih =>
    rw [List.mapM_cons] at ok
    cases first : decodeApproval a with
    | error e =>
      rw [first] at ok
      cases ok
    | ok row =>
      have same : row = a := by
        unfold decodeApproval at first
        split at first
        · cases first
        split at first
        · cases first
        · cases first
          rfl
      rw [first] at ok
      cases others : rest.mapM decodeApproval with
      | error e =>
        rw [others] at ok
        cases ok
      | ok tail =>
        rw [others] at ok
        cases ok
        rw [same, ih others]

theorem checkEnd_ok {after final : Db} {expected : Snapshot} {approvals : List ApprovalRow}
    {history : List LeaseRow} (ok : checkEnd after attempt s expected approvals history = .ok (some final)) :
    readAllApprovals after s.hold.runId = .ok approvals ∧
      final = after.appendAudit (terminalAudit s.hold attempt.terminal) := by
  unfold checkEnd at ok
  dsimp only at ok
  split at ok
  next seen read seen' closed _ all _ _ =>
    split at ok
    next checks =>
      cases ok
      rw [all, checks.2.1]
      exact ⟨rfl, rfl⟩
    next => cases ok
  all_goals cases ok

theorem planTerminal_release {attempt : TerminalAttempt} (plan : planTerminal s attempt = .ok .release) :
    attempt.result.isTerminal = true ∧ timeIsValid s attempt = true ∧ s.hold.recoveryState ≠ .released ∧
      runTransitionAllowed s.run.run.status attempt.result = true ∧ releasable s attempt.result = true := by
  unfold planTerminal at plan
  split at plan
  · cases plan
  rename_i valid
  rw [not_or, not_or] at valid
  split at plan
  · split at plan <;> cases plan
  rename_i held
  split at plan
  · cases plan
  rename_i allowed
  split at plan
  next may =>
    exact ⟨eq_true_of_ne_false valid.1, eq_true_of_ne_false valid.2.1, held, eq_true_of_ne_false allowed, may⟩
  next => cases plan

theorem observe_ne_applied (seen : observe db attempt s = .ok .applied) : False := by
  unfold observe at seen
  cases all : readAllApprovals db s.hold.runId with
  | error e =>
    rw [all] at seen
    cases seen
  | ok read =>
    rw [all] at seen
    dsimp only [bind, Except.bind] at seen
    split at seen
    · cases seen
    split at seen
    · cases seen
    split at seen
    · cases seen
    cases closes : closedCohort db s.hold attempt.terminal.endedAt with
    | error e =>
      rw [closes] at seen
      cases seen
    | ok closed =>
      rw [closes] at seen
      dsimp only at seen
      split at seen
      · cases seen
      split at seen
      · cases seen
      · split at seen <;> cases seen

theorem completes_of_terminal {result : RunStatus} (terminal : result.isTerminal = true)
    (other : result ≠ .cancelled) : (result == .completed || result == .failed) = true := by
  cases result with
  | completed => rfl
  | failed => rfl
  | cancelled => exact absurd rfl other
  | _ => cases terminal

theorem ended_settled {before : List ApprovalRow} {attempt : TerminalAttempt}
    (terminal : attempt.result.isTerminal = true)
    (settled : ¬((attempt.result == .completed || attempt.result == .failed) &&
      before.any fun a => a.status == .pending) = true) :
    (if attempt.result = .cancelled then before.map (aborted attempt.endedAt) else before).all
      (fun a => a.status != .pending) = true := by
  rw [List.all_eq_true]
  intro a listed
  rw [bne_iff_ne]
  intro pending
  split at listed
  · -- A cancellation aborts what was pending.
    obtain ⟨b, -, rfl⟩ := List.mem_map.mp listed
    unfold aborted at pending
    split at pending
    · cases pending
    next apart => exact apart pending
  next other =>
    -- A completion was refused while an approval was pending.
    rw [completes_of_terminal terminal other, Bool.true_and] at settled
    exact settled (List.any_eq_true.mpr ⟨a, listed, beq_iff_eq.mpr pending⟩)

theorem freshApply_cases {outcome : CompositionOutcome} (fresh : snapshot db s.hold.runId = .ok s)
    (plan : planTerminal s attempt.terminal = .ok .release) (ok : freshApply db attempt s = .ok (outcome, db')) :
    (db' = db ∧ outcome ≠ .applied) ∨ (Ends db db' attempt s ∧ outcome = .applied) := by
  unfold freshApply at ok
  dsimp only at ok
  split at ok
  · cases ok
    exact .inl ⟨rfl, fun same => (by cases same)⟩
  rename_i lease
  rw [not_or] at lease
  split at ok
  · cases ok
  rename_i before read
  split at ok
  · cases ok
    exact .inl ⟨rfl, fun same => (by cases same)⟩
  rename_i settled
  have none_ := ended_settled (planTerminal_release plan).1 settled
  revert none_ ok
  generalize (if attempt.terminal.result = .cancelled then before.map (aborted attempt.terminal.endedAt)
    else before) = approvals
  intro ok none_
  split at ok
  · cases ok
  split at ok
  · cases ok
    exact .inl ⟨rfl, fun same => (by cases same)⟩
  rename_i unaudited
  rw [not_or] at unaudited
  split at ok
  · cases ok
  · cases ok
    exact .inl ⟨rfl, fun same => (by cases same)⟩
  rename_i after wrote
  split at ok
  · cases ok
  · cases ok
    exact .inl ⟨rfl, fun same => (by cases same)⟩
  rename_i final checked
  cases ok
  obtain ⟨all, rfl⟩ := checkEnd_ok checked
  obtain ⟨unreleased, closes⟩ := writeEnd_ok wrote
  exact .inr ⟨⟨fresh, plan, not_not.mp lease.2, unaudited.2, unreleased,
    ⟨after, closes, rfl⟩, ⟨_, all, none_⟩⟩, rfl⟩

theorem compose_cases {outcome : CompositionOutcome} (ok : composeTerminal db attempt s = .ok (outcome, db')) :
    (db' = db ∧ outcome ≠ .applied) ∨ (Ends db db' attempt s ∧ outcome = .applied) := by
  unfold composeTerminal at ok
  split at ok
  · cases ok
  rename_i fresh read
  split at ok
  · cases ok
    exact .inl ⟨rfl, fun same => (by cases same)⟩
  rename_i same
  obtain rfl := not_not.mp same
  split at ok
  · cases ok
    exact .inl ⟨rfl, fun same => (by cases same)⟩
  next plan =>
    cases seen : observe db attempt fresh with
    | error e =>
      rw [seen] at ok
      cases ok
    | ok outcome' =>
      rw [seen] at ok
      cases ok
      refine .inl ⟨rfl, ?_⟩
      rintro rfl
      exact observe_ne_applied seen
  next plan => exact freshApply_cases read plan ok

end Agent24.Recovery
