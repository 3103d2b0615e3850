import Agent24.Scheduler.NextFire

/-! A row of `schedules`, with the statements that the tick and the REST paths run on it. A statement
answers the row it leaves, or `none` where its `WHERE` matches nothing. -/

set_option autoImplicit false
namespace Agent24.Scheduler

inductive ScheduleAction where
  | agentRun (prompt : String) (sessionId modelOverride : Option String)

structure DeliveryTarget where
  kind : String
  extra : List (String × Json)

structure ScheduleRow where
  id : String
  name : String
  enabled : Bool
  spec : ScheduleSpec
  /-- `none` for the sentinel a module row carries. -/
  action : Option ScheduleAction
  delivery : List DeliveryTarget
  lastRunAt : Option String
  nextRunAt : Option String
  consecutiveFailures : Nat
  /-- `owner_module` and `module_key`. -/
  owner : Option (String × String)
  revision : Nat
  userSuspended : Bool
  systemDisabledReason : Option String

def ScheduleRow.Active (row : ScheduleRow) : Prop :=
  row.enabled = true ∧ row.userSuspended = false ∧ row.systemDisabledReason = none

instance (row : ScheduleRow) : Decidable row.Active := inferInstanceAs (Decidable (_ ∧ _))

/-- The `UPDATE` of `advance_and_record_fire`. -/
def ScheduleRow.advance (row : ScheduleRow) (seenRevision : Nat) (due : String)
    (advancedNext : Option String) (now : String) : Option ScheduleRow :=
  if row.revision = seenRevision ∧ row.nextRunAt = some due ∧ row.Active then
    some { row with lastRunAt := some now, nextRunAt := advancedNext }
  else none

/-- `UPDATE_USER_SCHEDULE_CAS_SQL`. -/
def ScheduleRow.updateUserScheduleCas (row schedule : ScheduleRow) (seenRevision : Nat)
    (seenNextRunAt seenLastRunAt : Option String) : Option ScheduleRow :=
  if row.owner = none ∧ row.revision = seenRevision ∧ row.nextRunAt = seenNextRunAt ∧
      row.lastRunAt = seenLastRunAt then
    some { row with
      name := schedule.name
      enabled := schedule.enabled
      spec := schedule.spec
      action := schedule.action
      delivery := schedule.delivery
      nextRunAt := schedule.nextRunAt
      consecutiveFailures := schedule.consecutiveFailures
      revision := row.revision + 1 }
  else none

/-- `UPDATE_SCHEDULE_RUNTIME_CAS_SQL`. -/
def ScheduleRow.updateScheduleRuntimeCas (row : ScheduleRow) (seenRevision : Nat)
    (seenNextRunAt seenLastRunAt : Option String) (consecutiveFailures : Nat) (enabled disable : Bool) :
    Option ScheduleRow :=
  if row.owner = none ∧ row.revision = seenRevision ∧ row.nextRunAt = seenNextRunAt ∧
      row.lastRunAt = seenLastRunAt then
    some { row with
      consecutiveFailures := consecutiveFailures
      enabled := enabled
      nextRunAt := if disable then none else row.nextRunAt
      revision := row.revision + if disable then 1 else 0 }
  else none

inductive DeferReason where
  | mountPending | notRunning | notReady | draining | stopping | neverSent | kernelTransient
  deriving DecidableEq

def DeferReason.text : DeferReason → String
  | .mountPending => "mount_pending"
  | .notRunning => "not_running"
  | .notReady => "not_ready"
  | .draining => "draining"
  | .stopping => "stopping"
  | .neverSent => "never_sent"
  | .kernelTransient => "kernel_transient"

/-- What `RunTrigger::trigger` answers. -/
inductive FireOutcome where
  | agentRun (runId : String)
  | moduleDelivered (fireId : String)
  | deferred (reason : DeferReason)
  | failed (reason : String)
  deriving DecidableEq

/-- `agent_run_result`; what else the trigger says goes to the log. -/
def agentRunResult : FireOutcome → Option String
  | .agentRun runId => some runId
  | _ => none

def maxConsecutiveFailures : Nat := 5

/-- `record_schedule_result` of a failure: the counter, a `u32`, and whether the schedule must stop. -/
def recordFailure (consecutiveFailures : Nat) : Nat × Bool :=
  let counted := min (consecutiveFailures + 1) (2 ^ 32 - 1)
  (counted, decide (maxConsecutiveFailures ≤ counted))

theorem ScheduleRow.advance_eq_some {row after : ScheduleRow} {seenRevision : Nat} {due now : String}
    {advancedNext : Option String} (landed : row.advance seenRevision due advancedNext now = some after) :
    row.revision = seenRevision ∧ row.nextRunAt = some due ∧ row.Active ∧
      after = { row with lastRunAt := some now, nextRunAt := advancedNext } := by
  unfold advance at landed
  split at landed
  next seen => exact ⟨seen.1, seen.2.1, seen.2.2, (Option.some.inj landed).symm⟩
  next => exact nomatch landed

/-- A write-back that lands leaves the slot of the schedule it was given, over the slot it had seen. -/
theorem ScheduleRow.updateUserScheduleCas_slots {row schedule after : ScheduleRow} {seenRevision : Nat}
    {seenNextRunAt seenLastRunAt : Option String}
    (landed : row.updateUserScheduleCas schedule seenRevision seenNextRunAt seenLastRunAt = some after) :
    row.nextRunAt = seenNextRunAt ∧ after.nextRunAt = schedule.nextRunAt := by
  unfold updateUserScheduleCas at landed
  split at landed
  next seen =>
    obtain rfl := Option.some.inj landed
    exact ⟨seen.2.2.1, rfl⟩
  next => exact nomatch landed

theorem ScheduleRow.updateScheduleRuntimeCas_slot {row after : ScheduleRow}
    {seenRevision consecutiveFailures : Nat} {seenNextRunAt seenLastRunAt : Option String}
    {enabled disable : Bool}
    (landed : row.updateScheduleRuntimeCas seenRevision seenNextRunAt seenLastRunAt consecutiveFailures
      enabled disable = some after) :
    after.nextRunAt = row.nextRunAt ∨ after.nextRunAt = none := by
  unfold updateScheduleRuntimeCas at landed
  split at landed
  next =>
    obtain rfl := Option.some.inj landed
    cases disable
    · exact .inl rfl
    · exact .inr rfl
  next => exact nomatch landed

end Agent24.Scheduler
