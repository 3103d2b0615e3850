import Agent24.Library.Breaker
import Agent24.Library.Runs
import Agent24.Scheduler.ModuleStore

/-! Module schedules under upserts, deletes, suspend and resume, ticks, `run_now`, the delivery pump
and restarts. Whatever reads before it writes is caught between the two. -/

set_option autoImplicit false
namespace Agent24.Scheduler
open Library

structure Kernel extends Calendar where
  /-- The first 32 hexadecimal digits of the SHA-256 of a text. -/
  digest : String → String
  digest_injective : Function.Injective digest
  fmt_clean : ∀ t, '\x00' ∉ (fmt t).toList

/-- `FireId::derive`. -/
def Kernel.fireId (kernel : Kernel) (trigger : FireTrigger) (scheduleId : String) (scheduledFor : Instant) :
    String :=
  "fire_" ++ kernel.digest ("agent24-fire-v2\x00" ++ trigger.text ++ "\x00" ++ scheduleId ++ "\x00" ++
    kernel.fmt scheduledFor)

def moduleScheduleQuota : Nat := 256

def deliveryTtl : Nat := 24 * 3600

inductive EventBody where
  | scheduleDelivered (scheduleId module key fireId scheduledFor : String)
  | scheduleDisabled (scheduleId reason : String)
  deriving DecidableEq

inductive ModuleEvent where
  | delivered (scheduleId fireId : String)
  | failed (scheduleId fireId : String)
  /-- A resume or a recomputing upsert cleared the failures. -/
  | reset (scheduleId : String)
  | dropped (fireId : String)
  | emitted (body : EventBody)
  | lost (body : EventBody)
  deriving DecidableEq

structure ModuleTick where
  schedule : ScheduleRow
  rawNextRunAt : String
  due : Instant
  now : Instant

/-- A resume in its retry loop; `seen` is empty after a conflict. -/
structure Resume where
  id : String
  now : Instant
  conflicts : Nat
  seen : Option ScheduleRow

structure Attempt where
  row : Delivery
  outcome : Option FireOutcome

structure ModuleState where
  store : Store
  /-- The schedule ids drawn so far; a ulid is never drawn twice. -/
  drawn : List String
  ticks : Nat → Option ModuleTick
  resumes : Nat → Option Resume
  attempts : Nat → Option Attempt
  /-- Events of committed transactions that the pump has still to emit. -/
  pending : List EventBody
  log : List ModuleEvent

def ModuleState.start : ModuleState where
  store := ⟨.empty, .empty⟩
  drawn := []
  ticks := fun _ => none
  resumes := fun _ => none
  attempts := fun _ => none
  pending := []
  log := []

inductive ModuleStep where
  | upserts (newId owner key : String) (desired : ModuleScheduleDesired) (now : Instant)
  | deletesKey (owner key : String)
  | deletes (id : String)
  | suspends (id : String) (now : Instant)
  | resumeReads (k : Nat) (id : String) (now : Instant)
  | resumeRereads (k : Nat)
  | resumeWrites (k : Nat)
  | tickReads (k : Nat) (id : String) (now : Instant)
  | tickAdvances (k : Nat) (installed : Bool)
  | runsNow (id : String) (now : Instant)
  | pumpReads (k : Nat) (fireId : String) (now : Instant)
  | pumpTriggers (k : Nat) (outcome : FireOutcome)
  | pumpApplies (k : Nat) (now : Instant)
  | emits
  | sweeps (now : Instant)
  | restarts

namespace ModuleState
variable (kernel : Kernel)

section
variable (s : ModuleState)

def withStore (store : Store) : ModuleState := { s with store := store }

def note (events : List ModuleEvent) : ModuleState := { s with log := s.log ++ events }

section
variable (k : Nat)

def setTick (tick : Option ModuleTick) : ModuleState :=
  { s with ticks := Function.update s.ticks k tick }

def setResume (resume : Option Resume) : ModuleState :=
  { s with resumes := Function.update s.resumes k resume }

def setAttempt (attempt : Option Attempt) : ModuleState :=
  { s with attempts := Function.update s.attempts k attempt }

/-- The upsert handler, from the slot it computes to the transaction. -/
def upserts (newId owner key : String) (desired : ModuleScheduleDesired) (now : Instant) :
    ModuleState :=
  if newId ∈ s.drawn then s
  else match nextFire kernel.toCalendar desired.spec now with
  | .error _ => s
  | .ok next =>
    let drawn := { s with drawn := newId :: s.drawn }
    match s.store.upsertModuleSchedule newId owner key desired (next.map kernel.fmt) (kernel.fmt now)
        moduleScheduleQuota with
    | .error _ => drawn
    | .ok (_, store) => (drawn.withStore store).note
        (match s.store.owned owner key with
          | some row => if row.recomputed desired then [.reset row.id] else []
          | none => [])

/-- `suspend`: the read before the write only asks for the owner, which never changes. -/
def suspends (id : String) (now : Instant) : ModuleState :=
  match s.store.schedules.find id with
  | none => s
  | some row => s.withStore (s.store.setUserSuspended id true none row.revision (kernel.fmt now)).1

/-- One attempt of `resume`. -/
def resumeWrites (resume : Resume) (seen : ScheduleRow) : ModuleState :=
  match if seen.enabled then nextFire kernel.toCalendar seen.spec resume.now else .ok none with
  | .error _ => s.setResume k none
  | .ok next =>
    match s.store.setUserSuspended resume.id false (next.map kernel.fmt) seen.revision
        (kernel.fmt resume.now) with
    | (store, .changed) => ((s.withStore store).setResume k none).note [.reset resume.id]
    | (store, .noOp) => (s.withStore store).setResume k none
    | (store, .conflict) => (s.withStore store).setResume k
        (if resume.conflicts + 1 < 3 then
          some { resume with conflicts := resume.conflicts + 1, seen := none } else none)

/-- The selection of `tick`. -/
def tickReads (id : String) (now : Instant) : ModuleState :=
  match s.store.schedules.find id with
  | none => s
  | some row =>
    match row.nextRunAt with
    | none => s
    | some raw =>
      match kernel.parse raw with
      | .error _ => s
      | .ok due =>
        if row.enabled = true ∧ row.owner.isSome = true ∧ due ≤ now then s.setTick k (some ⟨row, raw, due, now⟩)
        else s

/-- `fire_module`. -/
def tickAdvances (tick : ModuleTick) (installed : Bool) : ModuleState :=
  let schedule := tick.schedule
  match schedule.owner, nextFire kernel.toCalendar schedule.spec tick.now with
  | some (owner, key), .ok next =>
    let fire : NewFire :=
      ⟨kernel.fireId .tick schedule.id tick.due, schedule.id, owner, key, kernel.fmt tick.due,
        kernel.fmt tick.now, .tick, kernel.fmt (tick.now.plus deliveryTtl)⟩
    match s.store.advanceAndRecordFire schedule.id schedule.revision tick.rawNextRunAt
        (next.map kernel.fmt) (kernel.fmt tick.now) (if installed then some fire else none) with
    | none => s.setTick k none
    | some store => (s.withStore store).setTick k none
  | _, _ => s.setTick k none

def runsNow (id : String) (now : Instant) : ModuleState :=
  match s.store.recordRunNowFire id (kernel.fireId .runNow id now) (kernel.fmt now)
      (kernel.fmt (now.plus deliveryTtl)) with
  | none => s
  | some store => s.withStore store

/-- One row of `due_deliveries`; which of them are tried, the pump decides. -/
def pumpReads (fireId : String) (now : Instant) : ModuleState :=
  match s.store.deliveries.find fireId with
  | none => s
  | some d =>
    if d.outstanding ∧ (d.nextAttemptAt.any fun due => decide (due ≤ kernel.fmt now)) ∧
        kernel.fmt now < d.expiresAt then s.setAttempt k (some ⟨d, none⟩)
    else s

def eventsOf (row : Delivery) (w : Applied) (disabled : Bool) : List EventBody :=
  (if w.emitDelivered then
    [.scheduleDelivered row.scheduleId row.ownerModule row.moduleKey row.fireId row.scheduledFor] else []) ++
  if disabled then [.scheduleDisabled row.scheduleId "consecutive_failures"] else []

/-- `apply_attempt`. -/
def pumpApplies (row : Delivery) (outcome : FireOutcome) (now : Instant) :
    ModuleState :=
  match applyOutcome row.status row.attempts outcome now with
  | .error _ => s.setAttempt k none
  | .ok w =>
    match s.store.applyDeliveryOutcome kernel.toCalendar row.fireId row.attempts w (kernel.fmt now)
        maxConsecutiveFailures with
    | none => s.setAttempt k none
    | some (store, disabled) =>
      let s := (s.withStore store).setAttempt k none
      { s with pending := s.pending ++ eventsOf row w disabled }.note
        (if w.resetScheduleFailures then [.delivered row.scheduleId row.fireId]
          else if w.countScheduleFailure then [.failed row.scheduleId row.fireId] else [])

end

def act : ModuleStep → ModuleState
  | .upserts newId owner key desired now => s.upserts kernel newId owner key desired now
  | .deletesKey owner key =>
    s.withStore (s.store.deleteSchedules fun row => row.owner == some (owner, key))
  | .deletes id => s.withStore (s.store.deleteSchedules fun row => row.id == id)
  | .suspends id now => s.suspends kernel id now
  | .resumeReads k id now =>
    match s.store.schedules.find id with
    | some row => if row.owner.isSome then s.setResume k (some ⟨id, now, 0, some row⟩) else s
    | none => s
  | .resumeRereads k =>
    match s.resumes k with
    | some resume =>
      match resume.seen with
      | some _ => s
      | none =>
        match s.store.schedules.find resume.id with
        | some row => s.setResume k (some { resume with seen := some row })
        | none => s.setResume k none
    | none => s
  | .resumeWrites k =>
    match s.resumes k with
    | some resume =>
      match resume.seen with
      | some seen => s.resumeWrites kernel k resume seen
      | none => s
    | none => s
  | .tickReads k id now => s.tickReads kernel k id now
  | .tickAdvances k installed =>
    match s.ticks k with
    | some tick => s.tickAdvances kernel k tick installed
    | none => s
  | .runsNow id now => s.runsNow kernel id now
  | .pumpReads k fireId now => s.pumpReads kernel k fireId now
  | .pumpTriggers k outcome =>
    match s.attempts k with
    | some ⟨row, none⟩ => s.setAttempt k (some ⟨row, some outcome⟩)
    | _ => s
  | .pumpApplies k now =>
    match s.attempts k with
    | some ⟨row, some outcome⟩ => s.pumpApplies kernel k row outcome now
    | _ => s
  | .emits =>
    match s.pending with
    | body :: rest => { s with pending := rest }.note [.emitted body]
    | [] => s
  | .sweeps now => s.withStore { s.store with deliveries := s.store.deliveries.expireDue (kernel.fmt now) }
  | .restarts =>
    { s with ticks := fun _ => none, resumes := fun _ => none, attempts := fun _ => none, pending := [] }.note
      (s.pending.map .lost)

def droppedRows (before after : Deliveries) : List ModuleEvent :=
  (before.rows.filter fun d => decide (d.status = .delivered) && (after.find d.fireId).isNone).map
    fun d => .dropped d.fireId

def step (i : ModuleStep) : ModuleState :=
  let s' := s.act kernel i
  s'.note (droppedRows s.store.deliveries s'.store.deliveries)

end

end ModuleState

section Switches
variable {s : Store} {cal : Calendar} {row after : ScheduleRow} {now : String}

structure ScheduleRow.Agrees (row : ScheduleRow) : Prop where
  slot : row.nextRunAt.isSome = true → row.Active
  period : ∀ secs, row.spec = .every secs → row.Active → row.nextRunAt.isSome = true

def ScheduleRow.Open (row : ScheduleRow) : Prop := row.enabled = true ∧ row.userSuspended = false

structure Store.Agrees (s : Store) : Prop where
  rows : ∀ id row, s.schedules.find id = some row → row.Agrees
  fires : ∀ d ∈ s.deliveries.rows, d.outstanding = true → d.fireTrigger = .tick →
    ∃ row, s.schedules.find d.scheduleId = some row ∧ row.Open

/-- A later row of the same id; while the revision stands, so do the spec and the module's switch. -/
def ScheduleRow.Before (row after : ScheduleRow) : Prop :=
  row.revision ≤ after.revision ∧
    (after.revision = row.revision → after.spec = row.spec ∧ after.enabled = row.enabled)

def Store.Follows (s s' : Store) (fresh : String → Prop) : Prop :=
  ∀ id after, s'.schedules.find id = some after →
    (∃ row, s.schedules.find id = some row ∧ row.Before after) ∨ fresh id

theorem ScheduleRow.Before.refl : row.Before row := ⟨le_rfl, fun _ => ⟨rfl, rfl⟩⟩

theorem ScheduleRow.Before.trans {last : ScheduleRow} (first : row.Before after) (second : after.Before last) :
    row.Before last := by
  refine ⟨first.1.trans second.1, fun same => ?_⟩
  have still : after.revision = row.revision := le_antisymm (second.1.trans same.le) first.1
  obtain ⟨spec, enabled⟩ := second.2 (same.trans still.symm)
  obtain ⟨spec', enabled'⟩ := first.2 still
  exact ⟨spec.trans spec', enabled.trans enabled'⟩

theorem Store.Follows.of_schedules {s' : Store} {fresh : String → Prop} (same : s'.schedules = s.schedules) :
    s.Follows s' fresh :=
  fun _ after found => .inl ⟨after, same ▸ found, .refl⟩

theorem Store.find_setRow {id : String} :
    (s.setRow after).schedules.find id =
      if id = after.id then (s.schedules.find id).map fun _ => after else s.schedules.find id :=
  Table.find_set

variable {deliveries : Deliveries}

theorem Store.Follows.setRow {fresh : String → Prop} (found : s.schedules.find after.id = some row)
    (before : row.Before after) :
    s.Follows { s.setRow after with deliveries := deliveries } fresh := by
  intro id last hit
  dsimp only at hit
  rw [Store.find_setRow] at hit
  split at hit
  next here =>
    rw [here, found, Option.map_some] at hit
    obtain rfl := Option.some.inj hit
    exact .inl ⟨row, here ▸ found, before⟩
  next => exact .inl ⟨last, hit, .refl⟩

/-- A row that is written over one of its id, with deliveries whose open tick fires its switches allow. -/
theorem Store.Agrees.setRow (agrees : s.Agrees) (found : s.schedules.find after.id = some row)
    (own : after.Agrees)
    (fires : ∀ d ∈ deliveries.rows, d.outstanding = true → d.fireTrigger = .tick → if d.scheduleId = after.id then after.Open else ∃ row, s.schedules.find d.scheduleId = some row ∧ row.Open) :
    Store.Agrees { s.setRow after with deliveries := deliveries } where
  rows id row' hit := by
    dsimp only at hit
    rw [Store.find_setRow] at hit
    split at hit
    next here =>
      rw [here, found, Option.map_some] at hit
      rwa [← Option.some.inj hit]
    next => exact agrees.rows id row' hit
  fires d member outstanding tick := by
    have allowed := fires d member outstanding tick
    dsimp only
    rw [Store.find_setRow]
    split at allowed
    next here => exact ⟨after, by rw [if_pos here, here, found, Option.map_some], allowed⟩
    rename_i apart
    rw [if_neg apart]
    exact allowed

theorem Store.Agrees.fewer (agrees : s.Agrees)
    (fewer : ∀ d ∈ deliveries.rows, d.outstanding = true → ∃ d' ∈ s.deliveries.rows, d'.outstanding = true ∧ d'.fireTrigger = d.fireTrigger ∧ d'.scheduleId = d.scheduleId) :
    Store.Agrees { s with deliveries := deliveries } where
  rows := agrees.rows
  fires d member outstanding tick := by
    obtain ⟨d', listed, outstanding', trigger, schedule⟩ := fewer d member outstanding
    rw [← schedule]
    exact agrees.fires d' listed outstanding' (trigger.trans tick)

theorem Store.Agrees.setRow_open (agrees : s.Agrees) (found : s.schedules.find after.id = some row)
    (own : after.Agrees) (stays : row.Open → after.Open) : (s.setRow after).Agrees := by
  refine agrees.setRow found own ?_
  intro d member outstanding tick
  obtain ⟨row', hit, opened⟩ := agrees.fires d member outstanding tick
  split
  next here =>
    rw [here, found] at hit
    obtain rfl := Option.some.inj hit
    exact stays opened
  next => exact ⟨row', hit, opened⟩

theorem mem_expireOutstanding {t : Deliveries} {d : Delivery} {reason scheduleId : String}
    (member : d ∈ (t.expireOutstanding reason now scheduleId).rows) (outstanding : d.outstanding = true) :
    d ∈ t.rows ∧ d.scheduleId ≠ scheduleId := by
  obtain ⟨before, listed, rfl⟩ := Table.mem_update.mp member
  split at outstanding
  · exact nomatch outstanding
  rename_i still
  rw [if_neg still]
  refine ⟨listed, ?_⟩
  rintro rfl
  simp [outstanding] at still

theorem Store.Agrees.setRow_expire (agrees : s.Agrees) (found : s.schedules.find after.id = some row)
    (own : after.Agrees) (reason : String) :
    Store.Agrees { s.setRow after with
      deliveries := s.deliveries.expireOutstanding reason now after.id } := by
  refine agrees.setRow found own ?_
  intro d member outstanding tick
  obtain ⟨listed, apart⟩ := mem_expireOutstanding member outstanding
  rw [if_neg apart]
  exact agrees.fires d listed outstanding tick

theorem Store.Agrees.empty : Store.Agrees ⟨.empty, .empty⟩ where
  rows _ _ found := nomatch found
  fires _ member := nomatch member

def SlotFor (spec : ScheduleSpec) (next : Option String) : Prop :=
  ∀ secs, spec = .every secs → next.isSome = true

theorem nextFire_slotFor {spec : ScheduleSpec} {at_ : Instant} {next : Option Instant}
    (answers : nextFire cal spec at_ = .ok next) : SlotFor spec (next.map cal.fmt) := by
  rintro secs rfl
  simp only [nextFire, bind, Except.bind] at answers
  split at answers
  · cases answers
  · rw [← Except.ok.inj answers]
    rfl

namespace ScheduleRow
variable {desired : ModuleScheduleDesired} {next : Option String}

theorem created_agrees {id owner key : String} (slots : SlotFor desired.spec next) :
    (created id owner key desired next).Agrees where
  slot some := by
    refine ⟨?_, rfl, rfl⟩
    by_contra disabled
    simp [created, show desired.enabled = false by simpa [created] using disabled] at some
  period secs spec active := by
    have enabled : desired.enabled = true := active.1
    simp only [created, enabled, if_true]
    exact slots secs spec

theorem not_recomputed (still : row.recomputed desired = false) :
    row.spec = desired.spec ∧ row.enabled = desired.enabled ∧ row.systemDisabledReason = none := by
  simp only [recomputed, specChanged, enabledChanged, Bool.or_eq_false_iff, decide_eq_false_iff_not,
    not_not, bne_eq_false_iff_eq, Option.isSome_eq_false_iff, Option.isNone_iff_eq_none] at still
  exact ⟨still.1.1, still.1.2, still.2⟩

theorem upserted_agrees (agrees : row.Agrees) (slots : SlotFor desired.spec next) :
    (row.upserted desired next).Agrees := by
  cases shape : row.recomputed desired with
  | false =>
    obtain ⟨spec, enabled, system⟩ := not_recomputed shape
    have slot : (row.upserted desired next).nextRunAt = row.nextRunAt := by simp [upserted, shape]
    have active : (row.upserted desired next).Active ↔ row.Active := by
      simp [Active, upserted, enabled, system]
    refine ⟨fun some => active.mpr (agrees.slot (slot ▸ some)), fun secs every on => ?_⟩
    rw [slot]
    exact agrees.period secs (spec.trans every) (active.mp on)
  | true =>
    have slot : (row.upserted desired next).nextRunAt =
        if desired.enabled && !row.userSuspended then next else none := by simp [upserted, shape]
    refine ⟨fun some => ?_, fun secs every on => ?_⟩
    · rw [slot] at some
      split at some
      next on =>
        rw [Bool.and_eq_true, Bool.not_eq_true'] at on
        exact ⟨on.1, on.2, rfl⟩
      next => exact nomatch some
    · have enabled : desired.enabled = true := on.1
      have free : row.userSuspended = false := on.2.1
      rw [slot, enabled, free]
      exact slots secs every

variable {seenRevision : Nat}

theorem setUserSuspended_eq_some {suspended : Bool}
    (landed : row.setUserSuspended suspended next seenRevision = some after) :
    (suspended = false → row.revision = seenRevision) ∧
      after = { row with
        userSuspended := suspended
        systemDisabledReason := if suspended then row.systemDisabledReason else none
        nextRunAt := if !suspended && row.enabled then next else none
        consecutiveFailures := if suspended then row.consecutiveFailures else 0
        revision := row.revision + 1 } := by
  unfold setUserSuspended at landed
  split at landed
  next holds =>
    refine ⟨?_, (Option.some.inj landed).symm⟩
    rintro rfl
    simp only [switches, Bool.false_eq_true, if_false, Bool.and_eq_true, beq_iff_eq] at holds
    exact holds.2.2
  next => exact nomatch landed

theorem suspended_agrees (landed : row.setUserSuspended true next seenRevision = some after) :
    after.Agrees := by
  obtain ⟨-, rfl⟩ := setUserSuspended_eq_some landed
  exact ⟨nofun, fun _ _ active => nomatch active.2.1⟩

theorem resumed_agrees (slots : row.enabled = true → SlotFor row.spec next)
    (landed : row.setUserSuspended false next seenRevision = some after) : after.Agrees := by
  obtain ⟨-, rfl⟩ := setUserSuspended_eq_some landed
  cases on : row.enabled with
  | false => exact ⟨nofun, fun _ _ active => nomatch active.1⟩
  | true => exact ⟨fun _ => ⟨rfl, rfl, rfl⟩, fun secs every _ => slots on secs every⟩

theorem advance_agrees {due : String} (slots : SlotFor row.spec next)
    (landed : row.advance seenRevision due next now = some after) : after.Agrees := by
  obtain ⟨-, -, active, rfl⟩ := advance_eq_some landed
  exact ⟨fun _ => active, fun secs every _ => slots secs every⟩

theorem countFailure_agrees (agrees : row.Agrees) (disableAt : Nat) : (row.countFailure disableAt).1.Agrees := by
  unfold countFailure
  dsimp only
  split
  · exact ⟨nofun, fun _ _ active => nomatch active.2.2⟩
  · exact ⟨agrees.slot, agrees.period⟩

theorem countFailure_before (disableAt : Nat) : row.Before (row.countFailure disableAt).1 := by
  unfold countFailure
  dsimp only
  split
  · exact ⟨Nat.le_succ _, fun _ => ⟨rfl, rfl⟩⟩
  · exact .refl

theorem bump_before (bumped : after.revision = row.revision + 1) : row.Before after :=
  ⟨by omega, fun same => by omega⟩

end ScheduleRow

end Switches

section Transactions
variable {s s' : Store} {cal : Calendar} {row : ScheduleRow} {now : String} {fresh : String → Prop}

theorem Store.owned_find {owner key : String} (found : s.owned owner key = some row) :
    s.schedules.find row.id = some row :=
  Table.mem_rows_iff.mp (List.mem_of_find?_eq_some found)

theorem Store.upsert_agrees {newId owner key : String} {desired : ModuleScheduleDesired}
    {next : Option String} {quota : Nat} {outcome : UpsertOutcome} (agrees : s.Agrees)
    (slots : SlotFor desired.spec next)
    (done : s.upsertModuleSchedule newId owner key desired next now quota = .ok (outcome, s')) :
    s'.Agrees ∧ s.Follows s' (· = newId) := by
  unfold upsertModuleSchedule at done
  split at done
  · split at done
    · cases done
    split at done
    · cases done
    rename_i absent
    obtain ⟨-, rfl⟩ := Prod.mk.inj (Except.ok.inj done)
    refine ⟨⟨?_, ?_⟩, ?_⟩
    · intro id row hit
      dsimp only at hit
      rw [Table.find_put] at hit
      split at hit
      · rw [← Option.some.inj hit]
        exact ScheduleRow.created_agrees slots
      · exact agrees.rows id row hit
    · intro d member outstanding tick
      obtain ⟨row, hit, opened⟩ := agrees.fires d member outstanding tick
      refine ⟨row, ?_, opened⟩
      dsimp only
      rw [Table.find_put, if_neg]
      · exact hit
      · intro same
        rw [show newId = d.scheduleId from same.symm, hit] at absent
        exact absent rfl
    · intro id after hit
      dsimp only at hit
      rw [Table.find_put] at hit
      split at hit
      next here => exact .inr here
      next => exact .inl ⟨after, hit, .refl⟩
  next row owns =>
    have found : s.schedules.find (row.upserted desired next).id = some row := owned_find owns
    have own := ScheduleRow.upserted_agrees (agrees.rows _ row found) slots
    have before : row.Before (row.upserted desired next) := ScheduleRow.bump_before rfl
    split at done
    · obtain ⟨-, rfl⟩ := Prod.mk.inj (Except.ok.inj done)
      exact ⟨agrees, .of_schedules rfl⟩
    dsimp only at done
    split at done
    next =>
      obtain ⟨-, rfl⟩ := Prod.mk.inj (Except.ok.inj done)
      exact ⟨agrees.setRow_expire found own _, .setRow found before⟩
    next unswitched =>
      obtain ⟨-, rfl⟩ := Prod.mk.inj (Except.ok.inj done)
      refine ⟨agrees.setRow_open found own ?_, .setRow found before⟩
      rintro ⟨enabled, free⟩
      refine ⟨?_, free⟩
      -- an upsert that leaves the fires alone does not switch the schedule off
      cases on : desired.enabled with
      | true => exact on
      | false => simp [ScheduleRow.enabledChanged, enabled, on] at unswitched

theorem Store.delete_agrees (agrees : s.Agrees) (drop : ScheduleRow → Bool) :
    (s.deleteSchedules drop).Agrees ∧ s.Follows (s.deleteSchedules drop) fresh := by
  have kept : ∀ id row, (s.deleteSchedules drop).schedules.find id = some row →
      s.schedules.find id = some row := by
    intro id row hit
    dsimp only [deleteSchedules] at hit
    rw [Table.find_deleteWhere, Option.filter_eq_some_iff] at hit
    exact hit.1
  refine ⟨⟨fun id row hit => agrees.rows id row (kept id row hit), ?_⟩,
    fun id row hit => .inl ⟨row, kept id row hit, .refl⟩⟩
  intro d member outstanding tick
  obtain ⟨listed, stays⟩ := Table.mem_deleteWhere.mp member
  obtain ⟨row, hit, opened⟩ := agrees.fires d listed outstanding tick
  refine ⟨row, ?_, opened⟩
  dsimp only [deleteSchedules]
  rw [Table.find_deleteWhere, hit, Option.filter_some, if_pos]
  obtain ⟨member', same⟩ := Table.find_eq_some.mp hit
  by_contra dropped
  refine of_decide_eq_false stays (List.mem_map.mpr ⟨row, List.mem_filter.mpr ⟨member', ?_⟩, same⟩)
  simpa using dropped

theorem mem_recordFire_outstanding {t : Deliveries} {f : NewFire} {d : Delivery}
    (member : d ∈ (t.recordFire f now).rows) (outstanding : d.outstanding = true) :
    d = f.delivery now ∨ d ∈ t.rows := by
  obtain rfl | superseded := Deliveries.mem_insertNew (Table.mem_deleteWhere.mp member).1
  · exact .inl rfl
  unfold Deliveries.supersede at superseded
  obtain ⟨before, listed, rfl⟩ := Table.mem_update.mp superseded
  split at outstanding
  · exact nomatch outstanding
  rename_i still
  rw [if_neg still]
  exact .inr (Table.mem_deleteWhere.mp listed).1

variable {id : String} {seenRevision : Nat}

theorem Store.advance_agrees {due : String} {next : Option String} {fire : Option NewFire} (agrees : s.Agrees)
    (slots : ∀ row, s.schedules.find id = some row → row.revision = seenRevision → SlotFor row.spec next)
    (done : s.advanceAndRecordFire id seenRevision due next now fire = some s') :
    s'.Agrees ∧ s.Follows s' fresh := by
  unfold advanceAndRecordFire at done
  split at done
  · exact nomatch done
  rename_i row hit
  split at done
  · exact nomatch done
  rename_i after landed
  obtain ⟨seen, -, active, shape⟩ := ScheduleRow.advance_eq_some landed
  have same : after.id = id := by rw [shape]; exact (Table.find_eq_some.mp hit).2
  have found : s.schedules.find after.id = some row := same ▸ hit
  have own : after.Agrees := ScheduleRow.advance_agrees (slots row hit seen) landed
  have opened : after.Open := by rw [shape]; exact ⟨active.1, active.2.1⟩
  have before : row.Before after := by rw [shape]; exact .refl
  dsimp only at done
  split at done
  · obtain rfl := Option.some.inj done
    refine ⟨agrees.setRow found own ?_, .setRow found before⟩
    intro d member outstanding tick
    split
    · exact opened
    rename_i apart
    obtain rfl | listed := mem_recordFire_outstanding member outstanding
    · exact absurd same.symm apart
    · exact agrees.fires d listed outstanding tick
  · obtain rfl := Option.some.inj done
    exact ⟨agrees.setRow_open found own fun _ => opened, .setRow found before⟩

theorem Store.runNow_agrees {fireId expiresAt : String} (agrees : s.Agrees)
    (done : s.recordRunNowFire id fireId now expiresAt = some s') : s'.Agrees ∧ s.Follows s' fresh := by
  unfold recordRunNowFire at done
  split at done
  · exact nomatch done
  obtain rfl := Option.some.inj done
  refine ⟨⟨agrees.rows, ?_⟩, .of_schedules rfl⟩
  intro d member outstanding tick
  obtain rfl | listed := mem_recordFire_outstanding member outstanding
  · exact nomatch tick
  · exact agrees.fires d listed outstanding tick

theorem Store.suspend_agrees {next : Option String} (agrees : s.Agrees) :
    (s.setUserSuspended id true next seenRevision now).1.Agrees ∧
      s.Follows (s.setUserSuspended id true next seenRevision now).1 fresh := by
  unfold setUserSuspended
  split
  · exact ⟨agrees, .of_schedules rfl⟩
  rename_i row hit
  split
  next after landed =>
    have own := ScheduleRow.suspended_agrees landed
    obtain ⟨-, shape⟩ := ScheduleRow.setUserSuspended_eq_some landed
    have same : after.id = id := by rw [shape]; exact (Table.find_eq_some.mp hit).2
    have found : s.schedules.find after.id = some row := same ▸ hit
    have before : row.Before after := ScheduleRow.bump_before (by rw [shape])
    dsimp only
    rw [if_pos rfl, ← same]
    exact ⟨agrees.setRow_expire found own _, .setRow found before⟩
  next => exact ⟨agrees, .of_schedules rfl⟩

theorem Store.resume_agrees {next : Option String} (agrees : s.Agrees)
    (slots : ∀ row, s.schedules.find id = some row → row.revision = seenRevision → row.enabled = true → SlotFor row.spec next) :
    (s.setUserSuspended id false next seenRevision now).1.Agrees ∧
      s.Follows (s.setUserSuspended id false next seenRevision now).1 fresh := by
  unfold setUserSuspended
  split
  · exact ⟨agrees, .of_schedules rfl⟩
  rename_i row hit
  split
  next after landed =>
    obtain ⟨seen, shape⟩ := ScheduleRow.setUserSuspended_eq_some landed
    have own := ScheduleRow.resumed_agrees (slots row hit (seen rfl)) landed
    have same : after.id = id := by rw [shape]; exact (Table.find_eq_some.mp hit).2
    have found : s.schedules.find after.id = some row := same ▸ hit
    have before : row.Before after := ScheduleRow.bump_before (by rw [shape])
    dsimp only
    rw [if_neg Bool.false_ne_true]
    refine ⟨agrees.setRow_open found own ?_, .setRow found before⟩
    rintro ⟨enabled, -⟩
    rw [shape]
    exact ⟨enabled, rfl⟩
  next => exact ⟨agrees, .of_schedules rfl⟩

theorem Store.Follows.trans {last : Store} (first : s.Follows s' fresh) (second : s'.Follows last fresh) :
    s.Follows last fresh := by
  intro id row hit
  obtain ⟨middle, hit', later⟩ | new := second id row hit
  · obtain ⟨first', hit'', earlier⟩ | new := first id middle hit'
    · exact .inl ⟨first', hit'', earlier.trans later⟩
    · exact .inr new
  · exact .inr new

section
variable (agrees : s.Agrees)
include agrees

theorem Store.resetFailures_agrees :
    (s.resetFailures id).Agrees ∧ s.Follows (s.resetFailures id) fresh := by
  unfold resetFailures
  split
  next row hit =>
    let cleared : ScheduleRow := { row with consecutiveFailures := 0 }
    have same : row.id = id := Table.find_key hit
    have found : s.schedules.find cleared.id = some row := by rw [show cleared.id = id from same, hit]
    have own : cleared.Agrees := ⟨(agrees.rows _ row hit).slot, (agrees.rows _ row hit).period⟩
    have before : row.Before cleared := ⟨le_rfl, fun _ => ⟨rfl, rfl⟩⟩
    exact ⟨agrees.setRow_open found own fun opened => opened, .setRow found before⟩
  next => exact ⟨agrees, .of_schedules rfl⟩

theorem Store.countFailure_agrees {disableAt : Nat} :
    (s.countFailure id disableAt).1.Agrees ∧ s.Follows (s.countFailure id disableAt).1 fresh := by
  unfold countFailure
  split
  next row hit =>
    have same : (row.countFailure disableAt).1.id = row.id := by
      unfold ScheduleRow.countFailure
      dsimp only
      split <;> rfl
    have found : s.schedules.find (row.countFailure disableAt).1.id = some row := by
      rwa [same, Table.find_key hit]
    have own := ScheduleRow.countFailure_agrees (agrees.rows _ row hit) disableAt
    refine ⟨agrees.setRow_open found own ?_, .setRow found (ScheduleRow.countFailure_before disableAt)⟩
    intro opened
    unfold ScheduleRow.countFailure
    dsimp only
    split
    · exact opened
    · exact opened
  next => exact ⟨agrees, .of_schedules rfl⟩

theorem Store.countOutcome_agrees {w : Applied} {disableAt : Nat} :
    (s.countOutcome id w disableAt).1.Agrees ∧ s.Follows (s.countOutcome id w disableAt).1 fresh := by
  unfold countOutcome
  dsimp only
  have reset : (if w.resetScheduleFailures then s.resetFailures id else s).Agrees ∧
      s.Follows (if w.resetScheduleFailures then s.resetFailures id else s) fresh := by
    split
    · exact resetFailures_agrees agrees
    · exact ⟨agrees, .of_schedules rfl⟩
  split
  · obtain ⟨counted, follows⟩ := countFailure_agrees reset.1
    exact ⟨counted, reset.2.trans follows⟩
  · exact reset

theorem Store.outcome_agrees {fireId : String} {seenAttempts disableAt : Nat} {w : Applied} {disabled : Bool}
    (done : s.applyDeliveryOutcome cal fireId seenAttempts w now disableAt = some (s', disabled)) :
    s'.Agrees ∧ s.Follows s' fresh := by
  unfold applyDeliveryOutcome at done
  split at done
  · exact nomatch done
  rename_i d deliveries landed
  obtain ⟨hit, open_, -, shape⟩ := Deliveries.applyWrite_eq_some landed
  have written : Store.Agrees { s with deliveries := deliveries } := by
    refine agrees.fewer ?_
    intro d' member outstanding
    rw [shape] at member
    obtain ⟨before, listed, rfl⟩ := Table.mem_update.mp member
    refine ⟨before, listed, ?_⟩
    split
    next same =>
      have here := Table.mem_rows_iff.mp listed
      rw [beq_iff_eq.mp same, hit] at here
      exact ⟨Option.some.inj here ▸ open_, rfl, rfl⟩
    next still =>
      rw [if_neg still] at outstanding
      exact ⟨outstanding, rfl, rfl⟩
  obtain ⟨counted, follows⟩ := countOutcome_agrees written
  rw [Option.some.inj done] at counted follows
  exact ⟨counted, follows⟩

theorem Store.sweep_agrees :
    Store.Agrees { s with deliveries := s.deliveries.expireDue now } := by
  refine agrees.fewer ?_
  intro d member outstanding
  unfold Deliveries.expireDue at member
  obtain ⟨before, listed, rfl⟩ := Table.mem_update.mp member
  split at outstanding
  · exact nomatch outstanding
  rename_i still
  rw [if_neg still]
  exact ⟨before, listed, outstanding, rfl, rfl⟩

end

end Transactions

section Machine
variable {kernel : Kernel} {s : ModuleState}

def ModuleState.Seen (s : ModuleState) (read : ScheduleRow) : Prop :=
  read.id ∈ s.drawn ∧ ∀ row, s.store.schedules.find read.id = some row → read.Before row

structure ModuleState.Steady (s : ModuleState) : Prop where
  agrees : s.store.Agrees
  drawn : ∀ id row, s.store.schedules.find id = some row → id ∈ s.drawn
  ticks : ∀ k tick, s.ticks k = some tick → s.Seen tick.schedule
  resumes : ∀ k resume read, s.resumes k = some resume → resume.seen = some read →
    read.id = resume.id ∧ s.Seen read

namespace ModuleState

theorem Seen.follows {s' : ModuleState} {read : ScheduleRow} (seen : s.Seen read) {fresh : String → Prop}
    (follows : s.store.Follows s'.store fresh) (new : ∀ id, fresh id → id ∉ s.drawn)
    (drawn : s.drawn ⊆ s'.drawn) : s'.Seen read := by
  refine ⟨drawn seen.1, fun last hit => ?_⟩
  obtain ⟨row, hit', later⟩ | unknown := follows read.id last hit
  · exact (seen.2 row hit').trans later
  · exact absurd seen.1 (new read.id unknown)

section
variable (steady : s.Steady)
include steady

theorem Steady.withStore {store : Store} (agrees : store.Agrees)
    (follows : s.store.Follows store fun _ => False) : (s.withStore store).Steady where
  agrees := agrees
  drawn id row hit := by
    obtain ⟨row', hit', -⟩ | impossible := follows id row hit
    · exact steady.drawn id row' hit'
    · exact impossible.elim
  ticks k tick flying :=
    (steady.ticks k tick flying).follows follows (fun _ impossible => impossible.elim) (List.Subset.refl _)
  resumes k resume read flying seen := by
    obtain ⟨same, here⟩ := steady.resumes k resume read flying seen
    exact ⟨same, here.follows follows (fun _ impossible => impossible.elim) (List.Subset.refl _)⟩

theorem Steady.note (events : List ModuleEvent) : (s.note events).Steady :=
  ⟨steady.agrees, steady.drawn, steady.ticks, steady.resumes⟩

theorem Steady.setTick (k : Nat) {tick : Option ModuleTick}
    (seen : ∀ flying, tick = some flying → s.Seen flying.schedule) : (s.setTick k tick).Steady where
  agrees := steady.agrees
  drawn := steady.drawn
  ticks other flying listed := by
    dsimp only [ModuleState.setTick] at listed
    by_cases here : other = k
    · rw [here, Function.update_self] at listed
      exact seen flying listed
    · rw [Function.update_of_ne here] at listed
      exact steady.ticks other flying listed
  resumes := steady.resumes

theorem Steady.setResume (k : Nat) {resume : Option Resume}
    (seen : ∀ flying read, resume = some flying → flying.seen = some read → read.id = flying.id ∧ s.Seen read) : (s.setResume k resume).Steady where
  agrees := steady.agrees
  drawn := steady.drawn
  ticks := steady.ticks
  resumes other flying read listed found := by
    dsimp only [ModuleState.setResume] at listed
    by_cases here : other = k
    · rw [here, Function.update_self] at listed
      exact seen flying read listed found
    · rw [Function.update_of_ne here] at listed
      exact steady.resumes other flying read listed found

theorem Steady.setAttempt (k : Nat) (attempt : Option Attempt) :
    (s.setAttempt k attempt).Steady :=
  ⟨steady.agrees, steady.drawn, steady.ticks, steady.resumes⟩

theorem Steady.queue (pending : List EventBody) : Steady { s with pending := pending } :=
  ⟨steady.agrees, steady.drawn, steady.ticks, steady.resumes⟩

theorem Steady.read {id : String} {row : ScheduleRow} (hit : s.store.schedules.find id = some row) : row.id = id ∧ s.Seen row := by
  have same := Table.find_key hit
  refine ⟨same, ?_, ?_⟩
  · rw [same]
    exact steady.drawn id row hit
  · intro row' hit'
    rw [same, hit] at hit'
    rw [← Option.some.inj hit']
    exact .refl

theorem Steady.upserts {newId owner key : String} {desired : ModuleScheduleDesired} {now : Instant} : (s.upserts kernel newId owner key desired now).Steady := by
  unfold ModuleState.upserts
  split
  · exact steady
  rename_i unused
  split
  · exact steady
  rename_i next answers
  dsimp only
  have drawing : { s with drawn := newId :: s.drawn }.Steady := by
    refine ⟨steady.agrees, fun id row hit => List.mem_cons_of_mem _ (steady.drawn id row hit), ?_, ?_⟩
    · intro k tick flying
      obtain ⟨drawn, later⟩ := steady.ticks k tick flying
      exact ⟨List.mem_cons_of_mem _ drawn, later⟩
    · intro k resume read flying seen
      obtain ⟨same, drawn, later⟩ := steady.resumes k resume read flying seen
      exact ⟨same, List.mem_cons_of_mem _ drawn, later⟩
  split
  · exact drawing
  rename_i outcome store done
  obtain ⟨agrees, follows⟩ := Store.upsert_agrees steady.agrees (nextFire_slotFor answers) done
  have new : ∀ id, id = newId → id ∉ s.drawn := by
    rintro id rfl
    exact unused
  refine Steady.note ⟨agrees, ?_, ?_, ?_⟩ _
  · intro id row hit
    obtain ⟨row', hit', -⟩ | rfl := follows id row hit
    · exact List.mem_cons_of_mem _ (steady.drawn id row' hit')
    · exact List.mem_cons_self
  · intro k tick flying
    exact (steady.ticks k tick flying).follows follows new (List.subset_cons_self _ _)
  · intro k resume read flying seen
    obtain ⟨same, here⟩ := steady.resumes k resume read flying seen
    exact ⟨same, here.follows follows new (List.subset_cons_self _ _)⟩

theorem Steady.resumeWrites {k : Nat} {resume : Resume} {seen : ScheduleRow} (same : seen.id = resume.id)
    (known : s.Seen seen) :
    (s.resumeWrites kernel k resume seen).Steady := by
  unfold ModuleState.resumeWrites
  split
  · exact steady.setResume k (by simp)
  rename_i next answers
  have slots : ∀ row, s.store.schedules.find resume.id = some row → row.revision = seen.revision →
      row.enabled = true → SlotFor row.spec (next.map kernel.fmt) := by
    intro row hit unmoved enabled
    obtain ⟨spec, switch⟩ := (known.2 row (same ▸ hit)).2 unmoved
    rw [← switch, enabled, if_pos rfl] at answers
    rw [spec]
    exact nextFire_slotFor answers
  let resumed := s.store.setUserSuspended resume.id false (next.map kernel.fmt) seen.revision
    (kernel.fmt resume.now)
  have both : resumed.1.Agrees ∧ s.store.Follows resumed.1 fun _ => False :=
    Store.resume_agrees steady.agrees slots
  obtain ⟨agrees, follows⟩ := both
  dsimp only [resumed] at agrees follows
  split
  next store done =>
    rw [done] at agrees follows
    exact ((steady.withStore agrees follows).setResume k (by simp)).note _
  next store done =>
    rw [done] at agrees follows
    exact (steady.withStore agrees follows).setResume k (by simp)
  next store done =>
    rw [done] at agrees follows
    refine (steady.withStore agrees follows).setResume k ?_
    intro flying read shape found
    split at shape
    · rw [← Option.some.inj shape] at found
      exact nomatch found
    · exact nomatch shape

theorem Steady.tickAdvances {k : Nat} {tick : ModuleTick} {installed : Bool} (known : s.Seen tick.schedule) : (s.tickAdvances kernel k tick installed).Steady := by
  unfold ModuleState.tickAdvances
  dsimp only
  split
  next owner key next _ answers =>
    have slots : ∀ row, s.store.schedules.find tick.schedule.id = some row →
        row.revision = tick.schedule.revision → SlotFor row.spec (next.map kernel.fmt) := by
      intro row hit unmoved
      rw [((known.2 row hit).2 unmoved).1]
      exact nextFire_slotFor answers
    split
    · exact steady.setTick k (by simp)
    rename_i store done
    obtain ⟨agrees, follows⟩ := Store.advance_agrees steady.agrees slots done
    exact (steady.withStore agrees follows).setTick k (by simp)
  next => exact steady.setTick k (by simp)

theorem Steady.pumpApplies {k : Nat} {row : Delivery} {outcome : FireOutcome} {now : Instant} : (s.pumpApplies kernel k row outcome now).Steady := by
  unfold ModuleState.pumpApplies
  split
  · exact steady.setAttempt k none
  split
  · exact steady.setAttempt k none
  rename_i store disabled done
  obtain ⟨agrees, follows⟩ := Store.outcome_agrees steady.agrees done
  exact (((steady.withStore agrees follows).setAttempt k none).queue _).note _

theorem Steady.act (i : ModuleStep) : (s.act kernel i).Steady := by
  cases i with
  | upserts => exact steady.upserts
  | deletesKey owner key =>
    obtain ⟨agrees, follows⟩ := Store.delete_agrees steady.agrees fun row => row.owner == some (owner, key)
    exact steady.withStore agrees follows
  | deletes id =>
    obtain ⟨agrees, follows⟩ := Store.delete_agrees steady.agrees fun row => row.id == id
    exact steady.withStore agrees follows
  | suspends id now =>
    simp only [ModuleState.act, ModuleState.suspends]
    split
    · exact steady
    · obtain ⟨agrees, follows⟩ := Store.suspend_agrees steady.agrees
      exact steady.withStore agrees follows
  | resumeReads k =>
    simp only [ModuleState.act]
    split
    next row hit =>
      split
      · refine steady.setResume k ?_
        rintro _ read ⟨⟩ ⟨⟩
        exact steady.read hit
      · exact steady
    · exact steady
  | resumeRereads k =>
    simp only [ModuleState.act]
    split
    next resume flying =>
      split
      · exact steady
      split
      next row hit =>
        refine steady.setResume k ?_
        rintro _ read ⟨⟩ ⟨⟩
        exact steady.read hit
      · exact steady.setResume k (by simp)
    · exact steady
  | resumeWrites k =>
    simp only [ModuleState.act]
    split
    next resume flying =>
      split
      next seen found =>
        obtain ⟨same, known⟩ := steady.resumes k resume seen flying found
        exact steady.resumeWrites same known
      · exact steady
    · exact steady
  | tickReads k =>
    simp only [ModuleState.act, ModuleState.tickReads]
    split
    · exact steady
    rename_i row hit
    split
    · exact steady
    split
    · exact steady
    split
    · refine steady.setTick k ?_
      rintro _ ⟨⟩
      exact (steady.read hit).2
    · exact steady
  | tickAdvances k installed =>
    simp only [ModuleState.act]
    split
    next tick flying => exact steady.tickAdvances (steady.ticks k tick flying)
    · exact steady
  | runsNow id now =>
    simp only [ModuleState.act, ModuleState.runsNow]
    split
    · exact steady
    rename_i store done
    obtain ⟨agrees, follows⟩ := Store.runNow_agrees steady.agrees done
    exact steady.withStore agrees follows
  | pumpReads k =>
    simp only [ModuleState.act, ModuleState.pumpReads]
    split
    · exact steady
    split
    · exact steady.setAttempt k _
    · exact steady
  | pumpTriggers k outcome =>
    simp only [ModuleState.act]
    split
    · exact steady.setAttempt k _
    · exact steady
  | pumpApplies k now =>
    simp only [ModuleState.act]
    split
    · exact steady.pumpApplies
    · exact steady
  | emits =>
    simp only [ModuleState.act]
    split
    · exact (steady.queue _).note _
    · exact steady
  | sweeps now => exact steady.withStore (Store.sweep_agrees steady.agrees) (.of_schedules rfl)
  | restarts =>
    refine ⟨steady.agrees, steady.drawn, ?_, ?_⟩
    · intro k tick flying
      cases Option.some_ne_none tick flying.symm
    · intro k resume read flying
      cases Option.some_ne_none resume flying.symm

theorem Steady.step (i : ModuleStep) : (s.step kernel i).Steady := (steady.act i).note _

end

theorem Steady.start : ModuleState.start.Steady where
  agrees := .empty
  drawn _ row found := nomatch (Option.some_ne_none row found.symm)
  ticks _ tick flying := nomatch (Option.some_ne_none tick flying.symm)
  resumes _ resume _ flying := nomatch (Option.some_ne_none resume flying.symm)

end ModuleState
end Machine

end Agent24.Scheduler
