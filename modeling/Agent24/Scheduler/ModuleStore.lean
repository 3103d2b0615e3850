import Agent24.Scheduler.Deliveries

/-! The transactions on module schedules: `schedules` and `schedule_deliveries` together. Each runs
under `BEGIN IMMEDIATE`, so it is one step. -/

set_option autoImplicit false
namespace Agent24.Scheduler
open Library

structure Store where
  schedules : Table ScheduleRow.id
  deliveries : Deliveries

structure ModuleScheduleDesired where
  spec : ScheduleSpec
  enabled : Bool
  label : String

inductive UpsertOutcome where
  | created | updated | unchanged
  deriving DecidableEq

inductive StoreError where
  | quotaExceeded
  | constraint

inductive SuspendOutcome where
  | changed | noOp | conflict
  deriving DecidableEq

namespace ScheduleRow

def created (id owner key : String) (desired : ModuleScheduleDesired) (next : Option String) : ScheduleRow where
  id := id
  name := desired.label
  enabled := desired.enabled
  spec := desired.spec
  action := none
  delivery := []
  lastRunAt := none
  nextRunAt := if desired.enabled then next else none
  consecutiveFailures := 0
  owner := some (owner, key)
  revision := 1
  userSuspended := false
  systemDisabledReason := none

section
variable (row : ScheduleRow)

section
variable (desired : ModuleScheduleDesired)

def specChanged : Bool :=
  decide (row.spec ≠ desired.spec)

def enabledChanged : Bool :=
  row.enabled != desired.enabled

def recomputed : Bool :=
  row.specChanged desired || row.enabledChanged desired || row.systemDisabledReason.isSome

def upserted (next : Option String) : ScheduleRow :=
  { row with
    name := desired.label
    enabled := desired.enabled
    spec := desired.spec
    nextRunAt :=
      if !row.recomputed desired then row.nextRunAt
      else if desired.enabled && !row.userSuspended then next
      else none
    consecutiveFailures := if row.recomputed desired then 0 else row.consecutiveFailures
    systemDisabledReason := none
    revision := row.revision + 1 }

end

/-- The `WHERE` of `SET_USER_SUSPENDED_SQL`; only a resume pins the revision. -/
def switches (suspended : Bool) (seenRevision : Nat) : Bool :=
  row.owner.isSome && if suspended then !row.userSuspended
    else (row.userSuspended || row.systemDisabledReason.isSome) && row.revision == seenRevision

/-- `SET_USER_SUSPENDED_SQL`. -/
def setUserSuspended (suspended : Bool) (next : Option String) (seenRevision : Nat) :
    Option ScheduleRow :=
  if row.switches suspended seenRevision then
    some { row with
      userSuspended := suspended
      systemDisabledReason := if suspended then row.systemDisabledReason else none
      nextRunAt := if !suspended && row.enabled then next else none
      consecutiveFailures := if suspended then row.consecutiveFailures else 0
      revision := row.revision + 1 }
  else none

def unswitched (suspended : Bool) (seenRevision : Nat) : SuspendOutcome :=
  let already := if suspended then row.userSuspended
    else !row.userSuspended && row.systemDisabledReason.isNone
  if row.owner.isNone || already then .noOp
  else if !suspended && row.revision != seenRevision then .conflict
  else .noOp

/-- The failure counter and the fail-safe of `apply_delivery_outcome`. -/
def countFailure (disableAt : Nat) : ScheduleRow × Bool :=
  let counted := { row with consecutiveFailures := row.consecutiveFailures + 1 }
  if disableAt ≤ counted.consecutiveFailures ∧ row.systemDisabledReason = none then
    ({ counted with
      systemDisabledReason := some "consecutive_failures"
      nextRunAt := none
      revision := row.revision + 1 }, true)
  else (counted, false)

end

end ScheduleRow

namespace Store

section
variable (s : Store)

def owned (owner key : String) : Option ScheduleRow :=
  s.schedules.rows.find? fun row => row.owner == some (owner, key)

def setRow (row : ScheduleRow) : Store := { s with schedules := s.schedules.set row }

def upsertModuleSchedule (newId owner key : String) (desired : ModuleScheduleDesired)
    (nextIfRecomputed : Option String) (now : String) (quota : Nat) :
    Except StoreError (UpsertOutcome × Store) :=
  match s.owned owner key with
  | none =>
    if quota ≤ s.schedules.rows.countP (fun row => row.owner.any fun at_ => at_.1 == owner) then
      .error .quotaExceeded
    else if (s.schedules.find newId).isSome then .error .constraint
    else .ok (.created,
      { s with schedules := s.schedules.put (.created newId owner key desired nextIfRecomputed) })
  | some row =>
    if !row.recomputed desired && row.name == desired.label then .ok (.unchanged, s)
    else
      let s := s.setRow (row.upserted desired nextIfRecomputed)
      if row.specChanged desired || row.enabledChanged desired && !desired.enabled then
        .ok (.updated, { s with
          deliveries := s.deliveries.expireOutstanding "superseded_by_upsert" now row.id })
      else .ok (.updated, s)

/-- `DELETE FROM schedules`; the deliveries go with the rows. -/
def deleteSchedules (drop : ScheduleRow → Bool) : Store :=
  let gone := (s.schedules.rows.filter drop).map ScheduleRow.id
  ⟨s.schedules.deleteWhere drop, s.deliveries.deleteWhere fun d => decide (d.scheduleId ∈ gone)⟩

/-- `advance_and_record_fire`; `none` is `Advance::Lost`. -/
def advanceAndRecordFire (id : String) (seenRevision : Nat) (due : String) (advancedNext : Option String)
    (now : String) (fire : Option NewFire) : Option Store :=
  match s.schedules.find id with
  | none => none
  | some row =>
    match row.advance seenRevision due advancedNext now with
    | none => none
    | some after =>
      let s := s.setRow after
      match row.owner, fire with
      | some (owner, key), some fire =>
        let corrected := { fire with scheduleId := id, ownerModule := owner, moduleKey := key }
        some { s with deliveries := s.deliveries.recordFire corrected now }
      | _, _ => some s

/-- `record_run_now_fire`; `none` where the id is no module row's. -/
def recordRunNowFire (id fireId now expiresAt : String) : Option Store :=
  match (s.schedules.find id).bind ScheduleRow.owner with
  | none => none
  | some (owner, key) =>
    some { s with deliveries := s.deliveries.recordFire ⟨fireId, id, owner, key, now, now, .runNow, expiresAt⟩ now }

def setUserSuspended (id : String) (suspended : Bool) (next : Option String) (seenRevision : Nat) (now : String) : Store × SuspendOutcome :=
  match s.schedules.find id with
  | none => (s, .noOp)
  | some row =>
    match row.setUserSuspended suspended next seenRevision with
    | some after =>
      let s := s.setRow after
      (if suspended then { s with deliveries := s.deliveries.expireOutstanding "suspended" now id } else s,
        .changed)
    | none => (s, row.unswitched suspended seenRevision)

def resetFailures (id : String) : Store :=
  match s.schedules.find id with
  | some row => s.setRow { row with consecutiveFailures := 0 }
  | none => s

def countFailure (id : String) (disableAt : Nat) : Store × Bool :=
  match s.schedules.find id with
  | some row => (s.setRow (row.countFailure disableAt).1, (row.countFailure disableAt).2)
  | none => (s, false)

/-- The schedule side of `apply_delivery_outcome`. -/
def countOutcome (id : String) (w : Applied) (disableAt : Nat) : Store × Bool :=
  let s := if w.resetScheduleFailures then s.resetFailures id else s
  if w.countScheduleFailure then s.countFailure id disableAt else (s, false)

end

/-- `apply_delivery_outcome`: the store, and whether the schedule was newly disabled; `none` where the
row had moved. -/
def applyDeliveryOutcome (cal : Calendar) (s : Store) (fireId : String) (seenAttempts : Nat) (w : Applied)
    (now : String) (disableAt : Nat) : Option (Store × Bool) :=
  match s.deliveries.applyWrite cal fireId seenAttempts w now with
  | none => none
  | some (d, deliveries) => some ({ s with deliveries := deliveries }.countOutcome d.scheduleId w disableAt)

end Store

end Agent24.Scheduler
