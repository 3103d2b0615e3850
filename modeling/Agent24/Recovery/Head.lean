import Agent24.Recovery.Queue

/-! The head of the queue: when it is admitted, and when it never is. -/

set_option autoImplicit false
namespace Agent24.Recovery
open Library Agent

variable {db : Db} {hold : Hold}

structure Refuses (a : ApprovalRow) : Prop where
  resolved : a.status ≠ .pending
  decidedAt : a.decidedAt ≠ none
  kind : a.status = .approved → ∀ d, a.decision = some d → promotes d.kind = false

theorem Refuses.permits {a : ApprovalRow} {decision : Decision} (refuses : Refuses a) (decided : a.decision = some decision)
    (hold : Hold) (run : RunRow) (decidedAt now : Instant) :
    approvalPermits hold run a decision decidedAt now = false := by
  by_cases approved : a.status = .approved
  · simp [approvalPermits, refuses.kind approved decision decided]
  · simp [approvalPermits, approved]

theorem refused_facts (standing : Standing db) {runId id : String} {a : ApprovalRow}
    (found : db.holds.find runId = some hold) (ready : hold.recoveryState = .ready) (mine : hold.approvalId = some id)
    (foundA : db.approvals.find id = some a) (refuses : Refuses a) (readyAt now : Instant) :
    promotionFacts db hold readyAt now = .ok none := by
  obtain ⟨bound, held⟩ := standing runId hold found
  obtain ⟨run, foundRun, -⟩ := bound.run
  obtain ⟨a', foundA', ofRun, -⟩ := bound.approval id mine
  obtain rfl := Option.some.inj (foundA'.symm.trans foundA)
  have open_ : hold.releasedAt = none := by
    have unreleased := (not_congr held.released).mp (by rw [ready]; exact fun same => (by cases same))
    simpa using unreleased
  unfold promotionFacts
  rw [foundRun]
  dsimp only
  rw [if_neg (by rw [held.running open_ run foundRun]; exact Bool.false_ne_true), mine]
  dsimp only
  rw [foundA]
  dsimp only
  rw [if_neg (not_not.mpr ofRun)]
  cases decided : a'.decision with
  | none => rfl
  | some decision =>
    obtain ⟨decidedAt, at_⟩ := Option.ne_none_iff_exists'.mp refuses.decidedAt
    rw [at_]
    dsimp only
    rw [if_pos (refuses.permits decided hold run decidedAt now)]

/-- While it is the head of the queue, no attempt is admitted: not on it, and not on a younger one. -/
theorem refused_head (standing : Standing db) {id : String} {a : ApprovalRow} (next_ : db.readNextReady = some hold)
    (mine : hold.approvalId = some id) (foundA : db.approvals.find id = some a) (refuses : Refuses a)
    (attempt : PromotionAttempt) (unused : db.leases.find attempt.leaseId = none) :
    promoteLegacyRecovery db attempt =
      .ok (if attempt.hint = hold then .workspaceUnavailable else .staleHint, db) := by
  obtain ⟨found, ready⟩ := readNextReady_some next_
  obtain ⟨bound, held⟩ := standing hold.runId hold found
  obtain ⟨run, foundRun, -⟩ := bound.run
  have open_ : hold.releasedAt = none := by
    have unreleased := (not_congr held.released).mp (by rw [ready]; exact fun same => (by cases same))
    simpa using unreleased
  obtain ⟨readyAt, since⟩ := Option.ne_none_iff_exists'.mp (held.since ready)
  unfold promoteLegacyRecovery
  rw [unused, next_]
  by_cases hint : attempt.hint = hold
  · rw [hint, if_neg (not_not.mpr rfl), if_pos rfl, foundRun]
    dsimp only
    rw [if_neg (by rw [held.running open_ run foundRun]; exact Bool.false_ne_true), since]
    dsimp only
    split
    · rfl
    · rw [refused_facts standing found ready mine foundA refuses]
  · rw [if_neg hint, if_pos fun same => hint (Option.some.inj same).symm]

/-- What was decided stays decided: the head is refused in every later state in which it is the head. -/
theorem refused_run (standing : Standing db) {id : String} {a : ApprovalRow} (foundA : db.approvals.find id = some a)
    (refuses : Refuses a) (mine : hold.approvalId = some id) (moves : List Move) (attempt : PromotionAttempt)
    (next_ : (run step moves db).readNextReady = some hold)
    (unused : (run step moves db).leases.find attempt.leaseId = none) :
    promoteLegacyRecovery (run step moves db) attempt =
      .ok (if attempt.hint = hold then .workspaceUnavailable else .staleHint, run step moves db) :=
  refused_head (standing_run moves standing) next_ mine
    ((evolves_run moves db).settled id a foundA refuses.resolved) refuses attempt unused

/-! The start, as the schema has it. -/

/-- The rows of a hold are joined, and its own columns pass the schema's checks. -/
def Db.joined (db : Db) (hold : Hold) : Bool :=
  ((db.runs.find hold.runId).any fun run =>
    run.workspaceId == some hold.workspaceId && (hold.releasedAt.isSome || !run.status.isTerminal)) &&
  ((db.cohorts.find hold.cohortId).any fun cohort =>
    cohort.migrationVersion != 0 && cohort.workspaceId == hold.workspaceId &&
      cohort.rootGeneration == hold.rootGeneration && (hold.releasedAt.isSome || cohort.completedAt.isNone)) &&
  ((db.workspaces.find hold.workspaceId).any fun workspace =>
    workspace.kind == .legacyCompat && workspace.rootGeneration == hold.rootGeneration) &&
  (hold.approvalId.all fun id => (db.approvals.find id).any fun a =>
    a.runId == hold.runId && a.workspaceId == some hold.workspaceId) &&
  ((hold.recoveryState == .released) == hold.releasedAt.isSome) &&
  (!(hold.recoveryState == .awaitingDecision || hold.recoveryState == .ready) || hold.approvalId.isSome) &&
  (hold.recoveryState != .ready || hold.readyAt.isSome) &&
  (hold.recoveryState == .active || hold.activeResumeApprovalId.isNone)

theorem standing_of_joined (joined : ∀ hold ∈ db.holds.rows, db.joined hold = true) : Standing db := by
  intro runId hold found
  have all := joined hold (Table.find_eq_some.mp found).1
  simp only [Db.joined, Bool.and_eq_true, Option.any_eq_true, beq_iff_eq, bne_iff_ne, Bool.or_eq_true,
    Bool.not_eq_true', Option.isSome_iff_ne_none, Option.isNone_iff_eq_none] at all
  obtain ⟨⟨⟨⟨⟨⟨⟨⟨run, foundRun, homeRun, running⟩, ⟨cohort, foundC, ⟨⟨version, homeC⟩, rootC⟩, unfinished⟩⟩,
    ⟨workspace, foundW, kind, rootW⟩⟩, approval⟩, released⟩, asked⟩, since⟩, resumed⟩ := all
  refine ⟨⟨⟨run, foundRun, homeRun⟩, ⟨cohort, foundC, version, homeC, rootC⟩, ⟨workspace, foundW, kind, rootW⟩, ?_⟩,
    ⟨?_, ?_, ?_, ?_, ?_, ?_⟩⟩
  · intro id mine
    rw [mine, Option.all_some, Option.any_eq_true] at approval
    simpa only [Bool.and_eq_true, beq_iff_eq] using approval
  · rw [← released, beq_iff_eq]
  · intro waits
    refine asked.resolve_left fun apart => ?_
    simp only [Bool.or_eq_false_iff, beq_eq_false_iff_ne] at apart
    exact waits.elim apart.1 apart.2
  · exact fun ready => since.resolve_left (not_not.mpr ready)
  · exact fun apart => resumed.resolve_left apart
  · intro open_ run' found'
    rw [foundRun] at found'
    cases found'
    exact running.resolve_left (not_not.mpr open_)
  · intro open_ cohort' found'
    rw [foundC] at found'
    cases found'
    exact unfinished.resolve_left (not_not.mpr open_)

structure Seeded (db : Db) : Prop where
  standing : Standing db
  unready : ∀ runId hold, db.holds.find runId = some hold → hold.recoveryState ≠ .ready

theorem Seeded.queued (seeded : Seeded db) : Queued db :=
  fun runId hold found ready => absurd ready (seeded.unready runId hold found)

/-- Every hold that becomes ready through resolutions that permit its promotion can be promoted. -/
theorem ready_promotable {start : Db} (seeded : Seeded start) (moves : List Move)
    (meets : Along step Meets moves start) :
    ∀ runId hold, (run step moves start).holds.find runId = some hold → hold.recoveryState = .ready →
      (∀ w, (run step moves start).workspaces.find hold.workspaceId = some w → w.state = .active) →
      Promotable (run step moves start) hold := by
  have standing := standing_run moves seeded.standing
  have queued : Queued (run step moves start) :=
    along_invariant step Queued (fun _ _ meets => queued_step meets) meets seeded.queued
  intro runId hold found ready active
  exact granted_promotable standing found ready (queued runId hold found ready) active

theorem found_checked {α : Type} {found : Option α} {p : α → Prop} [DecidablePred p]
    (checked : found.all (fun a => decide (p a)) = true) (a : α) (here : found = some a) : p a := by
  rw [here, Option.all_some] at checked
  exact of_decide_eq_true checked

/-! Two holds of one cohort that wait for a decision. -/

def heldRun (id : String) : RunRow := ⟨id, .awaitingApproval, 1, some 2, none, some "ws", ""⟩

def heldApproval (id runId : String) (available : List String) : ApprovalRow :=
  ⟨id, runId, .pending, none, available, 3, 100, none, some "ws", ""⟩

def waitingHold (runId approvalId : String) : Hold :=
  ⟨runId, "cohort", "ws", "g1", .awaitingApproval, .awaitingDecision, some approvalId, none, none, none, none⟩

def twoHeld : Db where
  runs := ⟨[heldRun "run-1", heldRun "run-2"], by decide⟩
  approvals := ⟨[heldApproval "approval-1" "run-1" ["approve", "approve_for_target", "deny"],
    heldApproval "approval-2" "run-2" ["approve", "deny"]], by decide⟩
  cohorts := ⟨[⟨"cohort", 12, "ws", "g1", 5, none⟩], by decide⟩
  holds := ⟨[waitingHold "run-1" "approval-1", waitingHold "run-2" "approval-2"], by decide⟩
  workspaces := ⟨[⟨"ws", .legacyCompat, .active, "g1", 4, 1000, 0⟩], by decide⟩
  leases := ⟨[], by decide⟩
  auditLog := []

theorem twoHeld_seeded : Seeded twoHeld where
  standing := standing_of_joined (by decide +kernel)
  unready runId hold found := by
    have listed : ∀ h ∈ twoHeld.holds.rows, h.recoveryState ≠ .ready := by decide +kernel
    exact listed hold (Table.find_eq_some.mp found).1

/-- The second hold's approval is granted, and the hold is promotable. -/
theorem ready_promotable_granted :
    Promotable (run step [.resolve "approval-2" .approved (some ⟨"approve", none⟩) 10] twoHeld)
      ((waitingHold "run-2" "approval-2").readied 10) := by
  have foundA : twoHeld.approvals.find "approval-2" = some (heldApproval "approval-2" "run-2" ["approve", "deny"]) := by
    decide +kernel
  have foundH : twoHeld.holds.find "run-2" = some (waitingHold "run-2" "approval-2") := by decide +kernel
  have runs : (twoHeld.runs.find "run-2").all (fun r => r.createdAt ≤ 10) = true := by decide +kernel
  have cohorts : (twoHeld.cohorts.find "cohort").all (fun c => c.createdAt ≤ 10) = true := by decide +kernel
  have workspaces : (twoHeld.workspaces.find "ws").all (fun w => w.createdAt ≤ 10) = true := by decide +kernel
  have active : ((run step [.resolve "approval-2" .approved (some ⟨"approve", none⟩) 10] twoHeld).workspaces.find
      "ws").all (fun w => w.state = .active) = true := by decide +kernel
  refine ready_promotable twoHeld_seeded [.resolve "approval-2" .approved (some ⟨"approve", none⟩) 10] ⟨?_, trivial⟩
    "run-2" ((waitingHold "run-2" "approval-2").readied 10) (by decide +kernel) rfl (found_checked active)
  intro _ a hold waits
  obtain rfl := Option.some.inj (foundA.symm.trans waits.approval)
  obtain rfl := Option.some.inj (foundH.symm.trans waits.held)
  exact ⟨rfl, ⟨_, rfl, rfl, by decide +kernel⟩, by decide, by decide,
    found_checked runs,
    found_checked cohorts,
    found_checked workspaces⟩

def grantedForTarget : List Move :=
  [.resolve "approval-1" .approved (some ⟨"approve_for_target", none⟩) 10,
    .resolve "approval-2" .approved (some ⟨"approve", none⟩) 11]

/-- The first hold blocks the queue: no run and no attempt after it ever admits it, or the one behind it. -/
theorem head_blocks_queue :
    Seeded twoHeld ∧
    (run step grantedForTarget twoHeld).readNextReady = some ((waitingHold "run-1" "approval-1").readied 10) ∧
    (run step grantedForTarget twoHeld).holds.find "run-2" = some ((waitingHold "run-2" "approval-2").readied 11) ∧
    openRunLeaseExists (run step grantedForTarget twoHeld) "ws" "run-1" = false ∧
    (run step grantedForTarget twoHeld).workspaces.find "ws" = some ⟨"ws", .legacyCompat, .active, "g1", 4, 1000, 0⟩ ∧
    ∀ (moves : List Move) (attempt : PromotionAttempt),
      (run step moves (run step grantedForTarget twoHeld)).readNextReady =
        some ((waitingHold "run-1" "approval-1").readied 10) →
      (run step moves (run step grantedForTarget twoHeld)).leases.find attempt.leaseId = none →
      promoteLegacyRecovery (run step moves (run step grantedForTarget twoHeld)) attempt =
        .ok (if attempt.hint = (waitingHold "run-1" "approval-1").readied 10 then .workspaceUnavailable else .staleHint,
          run step moves (run step grantedForTarget twoHeld)) := by
  refine ⟨twoHeld_seeded, by decide +kernel, by decide +kernel, by decide +kernel, by decide +kernel, ?_⟩
  intro moves attempt next_ unused
  have found : (run step grantedForTarget twoHeld).approvals.find "approval-1" =
      some ((heldApproval "approval-1" "run-1" ["approve", "approve_for_target", "deny"]).resolved .approved
        (some ⟨"approve_for_target", none⟩) 10) := by decide +kernel
  refine refused_run (standing_run grantedForTarget twoHeld_seeded.standing) found ⟨?_, Option.some_ne_none _, ?_⟩ rfl
    moves attempt next_ unused
  · exact fun same => (by cases same)
  · intro _ d decided
    cases decided
    decide +kernel

end Agent24.Recovery
