import Agent24.Library.Runs
import Agent24.Scheduler.Row

/-! One user schedule under ticks, PATCHes and restarts, each caught between its reads and writes. -/

set_option autoImplicit false
namespace Agent24.Scheduler
open Library List

structure ScheduleUpdate where
  name : Option String
  enabled : Option Bool
  spec : Option ScheduleSpec
  action : Option ScheduleAction
  delivery : Option (List DeliveryTarget)

structure ScheduleCreate where
  name : String
  enabled : Bool
  spec : ScheduleSpec
  action : ScheduleAction
  delivery : List DeliveryTarget

structure UserSchedule where
  row : ScheduleRow
  user : row.owner = none

def ScheduleSpec.isAt : ScheduleSpec → Bool
  | .atTs _ => true
  | _ => false

variable (cal : Calendar)

/-- `create`, with the id it draws. -/
def create (id : String) (create : ScheduleCreate) (now : Instant) : Except SpecError UserSchedule := do
  validate cal create.spec
  validateAtTime cal create.spec now
  let next ← if create.enabled then initialFire cal create.spec now else .ok none
  .ok ⟨{
    id := id
    name := create.name
    enabled := create.enabled
    spec := create.spec
    action := some create.action
    delivery := create.delivery
    lastRunAt := none
    nextRunAt := next.map cal.fmt
    consecutiveFailures := 0
    owner := none
    revision := 0
    userSuspended := false
    systemDisabledReason := none }, rfl⟩

def ScheduleUpdate.recomputes (update : ScheduleUpdate) (schedule : ScheduleRow) : Bool :=
  update.spec.isSome || update.enabled.getD schedule.enabled != schedule.enabled

def recomputedSlot (changed : ScheduleRow) (update : ScheduleUpdate) (now : Instant) :
    Except SpecError (Option String) :=
  if !changed.enabled then .ok none
  else if update.spec.isSome then (initialFire cal changed.spec now).map fun next => next.map cal.fmt
  -- a failed one-shot that is switched on again is retried at once
  else if changed.spec.isAt && decide (0 < changed.consecutiveFailures) then .ok (some (cal.fmt now))
  else (nextFire cal changed.spec now).map fun next => next.map cal.fmt

def checkSpec (update : ScheduleUpdate) (now : Instant) : Except SpecError Unit :=
  match update.spec with
  | none => .ok ()
  | some spec => do
    validate cal spec
    validateAtTime cal spec now

def applyUserUpdate (schedule : ScheduleRow) (update : ScheduleUpdate) (now : Instant) :
    Except SpecError ScheduleRow := do
  checkSpec cal update now
  let changed := { schedule with
    name := update.name.getD schedule.name
    spec := update.spec.getD schedule.spec
    action := update.action.or schedule.action
    delivery := update.delivery.getD schedule.delivery
    enabled := update.enabled.getD schedule.enabled }
  if update.recomputes schedule then
    let next ← recomputedSlot cal changed update now
    .ok { changed with
      nextRunAt := next
      consecutiveFailures :=
        if update.spec.isSome || !changed.spec.isAt then 0 else changed.consecutiveFailures }
  else .ok changed

/-- A slot that a tick has taken, with what the tick went by. -/
structure Fire where
  spec : ScheduleSpec
  slot : Instant
  now : Instant
  stored : Option String

inductive UserEvent where
  | fired (fire : Fire)
  | triggered (slot : Instant)
  | rearmed
  | scheduleFired (runId : String)
  | scheduleDisabled (reason : String)

inductive TickStage where
  | read
  | advanced (next : Option String)
  | answered (next : Option String) (runId : Option String)

structure TickFlight where
  schedule : ScheduleRow
  rawNextRunAt : String
  due : Instant
  now : Instant
  stage : TickStage

/-- A PATCH in its retry loop; `seen` is empty after a lost write. -/
structure PatchFlight where
  update : ScheduleUpdate
  now : Instant
  attempts : Nat
  seen : Option ScheduleRow

structure UserState where
  row : Option ScheduleRow
  ticks : Nat → Option TickFlight
  patches : Nat → Option PatchFlight
  log : List UserEvent

def UserState.start (schedule : UserSchedule) : UserState :=
  ⟨some schedule.row, fun _ => none, fun _ => none, []⟩

inductive UserStep where
  | tickReads (k : Nat) (now : Instant)
  | tickAdvances (k : Nat)
  | tickTriggers (k : Nat) (outcome : FireOutcome)
  | tickRecords (k : Nat)
  | patchReads (k : Nat) (update : ScheduleUpdate) (now : Instant)
  | patchWrites (k : Nat)
  | patchRereads (k : Nat)
  | deletes
  | restarts

namespace UserState

section
variable (s : UserState)

section
variable (events : List UserEvent)

def emit : UserState := { s with log := s.log ++ events }

def setTick (k : Nat) (flight : Option TickFlight) : UserState :=
  { s with ticks := Function.update s.ticks k flight }

def setPatch (k : Nat) (flight : Option PatchFlight) : UserState :=
  { s with patches := Function.update s.patches k flight }

/-- The selection of `tick`: an enabled row whose slot can be read and has come. -/
def tickReads (k : Nat) (now : Instant) : UserState :=
  match s.row with
  | none => s
  | some row =>
    match row.nextRunAt with
    | none => s
    | some raw =>
      match cal.parse raw with
      | .error _ => s
      | .ok due =>
        if row.enabled = true ∧ due ≤ now then s.setTick k (some ⟨row, raw, due, now, .read⟩) else s

/-- `fire_agent_run_inner` up to the pre-advance. -/
def tickAdvances (k : Nat) (tick : TickFlight) : UserState :=
  let schedule := tick.schedule
  match nextFire cal schedule.spec tick.now with
  | .error _ =>
    match s.row.bind fun row => row.updateScheduleRuntimeCas schedule.revision (some tick.rawNextRunAt)
        schedule.lastRunAt schedule.consecutiveFailures false true with
    | none => s.setTick k none
    | some row => ({ s with row := some row }.setTick k none).emit [.scheduleDisabled "next_fire_error"]
  | .ok next =>
    let advanced := next.map cal.fmt
    match schedule.action with
    | none => s.setTick k none
    | some _ =>
      match s.row.bind fun row => row.advance schedule.revision tick.rawNextRunAt advanced
          (cal.fmt tick.now) with
      | none => s.setTick k none
      | some row =>
        ({ s with row := some row }.setTick k (some { tick with stage := .advanced advanced })).emit
          [.fired ⟨schedule.spec, tick.due, tick.now, advanced⟩]

/-- What `fire_agent_run_inner` writes once the trigger has answered. -/
def tickRecords (k : Nat) (tick : TickFlight) (next runId : Option String) : UserState :=
  let schedule := tick.schedule
  let write := fun failures enabled disable => s.row.bind fun row =>
    row.updateScheduleRuntimeCas schedule.revision next (some (cal.fmt tick.now)) failures enabled disable
  match runId with
  | some runId =>
    let row := if schedule.consecutiveFailures ≠ 0 then (write 0 true false).or s.row else s.row
    ({ s with row := row }.setTick k none).emit [.scheduleFired runId]
  | none =>
    let (failures, disable) := recordFailure schedule.consecutiveFailures
    match write failures (!disable) disable with
    | none => s.setTick k none
    | some row => ({ s with row := some row }.setTick k none).emit
        (if disable then [.scheduleDisabled "consecutive_failures"] else [])

/-- One attempt of `update_inner`. -/
def patchWrites (k : Nat) (patch : PatchFlight) (seen : ScheduleRow) : UserState :=
  match applyUserUpdate cal seen patch.update patch.now with
  | .error _ => s.setPatch k none
  | .ok schedule =>
    match s.row.bind fun row => row.updateUserScheduleCas schedule seen.revision seen.nextRunAt
        seen.lastRunAt with
    | none => s.setPatch k (some { patch with attempts := patch.attempts + 1, seen := none })
    | some row => ({ s with row := some row }.setPatch k none).emit
        (if patch.update.recomputes seen && schedule.enabled then [.rearmed] else [])

def step : UserStep → UserState
  | .tickReads k now => s.tickReads cal k now
  | .tickAdvances k =>
    match s.ticks k with
    | some tick =>
      match tick.stage with
      | .read => s.tickAdvances cal k tick
      | _ => s
    | none => s
  | .tickTriggers k outcome =>
    match s.ticks k with
    | some tick =>
      match tick.stage with
      | .advanced next =>
        (s.setTick k (some { tick with stage := .answered next (agentRunResult outcome) })).emit
          [.triggered tick.due]
      | _ => s
    | none => s
  | .tickRecords k =>
    match s.ticks k with
    | some tick =>
      match tick.stage with
      | .answered next runId => s.tickRecords cal k tick next runId
      | _ => s
    | none => s
  | .patchReads k update now =>
    match s.row with
    | some row => if row.owner = none then s.setPatch k (some ⟨update, now, 0, some row⟩) else s
    | none => s
  | .patchWrites k =>
    match s.patches k with
    | some patch =>
      match patch.seen with
      | some seen => s.patchWrites cal k patch seen
      | none => s
    | none => s
  | .patchRereads k =>
    match s.patches k with
    | some patch =>
      match patch.seen with
      | some _ => s
      | none =>
        match s.row with
        -- not found, or lost for the third time
        | none => s.setPatch k none
        | some row => s.setPatch k (if patch.attempts < 3 then some { patch with seen := some row } else none)
    | none => s
  | .deletes => { s with row := none }
  | .restarts => { s with ticks := fun _ => none, patches := fun _ => none }

def slot : Option String := s.row.bind ScheduleRow.nextRunAt

@[simp] theorem emit_row : (s.emit events).row = s.row := rfl
@[simp] theorem emit_ticks : (s.emit events).ticks = s.ticks := rfl
@[simp] theorem emit_log : (s.emit events).log = s.log ++ events := rfl

end
@[simp] theorem setTick_row (k : Nat) (tick : Option TickFlight) :
    (s.setTick k tick).row = s.row := rfl
@[simp] theorem setTick_log (k : Nat) (tick : Option TickFlight) :
    (s.setTick k tick).log = s.log := rfl
@[simp] theorem setPatch_row (k : Nat) (patch : Option PatchFlight) :
    (s.setPatch k patch).row = s.row := rfl
@[simp] theorem setPatch_log (k : Nat) (patch : Option PatchFlight) :
    (s.setPatch k patch).log = s.log := rfl

end

end UserState

def firedSince (log : List UserEvent) : List Instant :=
  log.foldl (fun slots event =>
    match event with
    | .fired fire => fire.slot :: slots
    | .rearmed => []
    | _ => slots) []

def FiresOnce (log : List UserEvent) : Prop :=
  ∀ before fire after, log = before ++ .fired fire :: after →
    fire.slot ∉ firedSince before ∧ LaterSlot cal fire.slot fire.stored

def FiresMoveOn (log : List UserEvent) : Prop :=
  ∀ fire, .fired fire ∈ log → fire.spec.MovesOn cal fire.slot fire.now

section Logs

theorem firedSince_append (log : List UserEvent) (event : UserEvent) :
    firedSince (log ++ [event]) =
      match event with
      | .fired fire => fire.slot :: firedSince log
      | .rearmed => []
      | _ => firedSince log := by
  rw [firedSince, foldl_append]
  rfl

def UserEvent.Quiet : UserEvent → Prop
  | .fired _ | .rearmed => False
  | _ => True

variable {log : List UserEvent}

theorem firedSince_append_quiet {added : List UserEvent} (quiet : ∀ event ∈ added, event.Quiet) :
    firedSince (log ++ added) = firedSince log := by
  induction added using List.reverseRecOn with
  | nil => rw [append_nil]
  | append_singleton added event ih =>
    rw [← append_assoc, firedSince_append]
    have last := quiet event (mem_append_right _ (mem_singleton_self event))
    have rest := ih fun other member => quiet other (mem_append_left _ member)
    cases event <;> first | exact rest | exact last.elim

variable {cal}

theorem FiresOnce.append {event : UserEvent} (once : FiresOnce cal log)
    (next : ∀ fire, event = .fired fire → fire.slot ∉ firedSince log ∧ LaterSlot cal fire.slot fire.stored) :
    FiresOnce cal (log ++ [event]) := by
  intro before fire after same
  obtain ⟨-, rfl, last⟩ | ⟨rest, -, inside⟩ := append_singleton_split same
  · exact next fire last
  · exact once before fire rest inside

theorem FiresOnce.append_quiet {added : List UserEvent} (once : FiresOnce cal log)
    (quiet : ∀ event ∈ added, event.Quiet) : FiresOnce cal (log ++ added) := by
  induction added using List.reverseRecOn with
  | nil => rwa [append_nil]
  | append_singleton added event ih =>
    rw [← append_assoc]
    refine (ih fun other member => quiet other (mem_append_left _ member)).append ?_
    rintro fire rfl
    exact (quiet _ (mem_append_right _ (mem_singleton_self _))).elim

theorem FiresOnce.later (once : FiresOnce cal log) {fire : Fire} (listed : .fired fire ∈ log) :
    LaterSlot cal fire.slot fire.stored := by
  obtain ⟨before, after, same⟩ := append_of_mem listed
  exact (once before fire after same).2

end Logs

section Steps
variable {cal} {s : UserState}

/-- A fire went by a slot that had come, and stored what `next_fire` said. -/
def Fire.Recorded (cal : Calendar) (fire : Fire) : Prop :=
  fire.slot ≤ fire.now ∧ ∃ next, nextFire cal fire.spec fire.now = .ok next ∧
    fire.stored = next.map cal.fmt

inductive Moved (cal : Calendar) (s s' : UserState) : Prop where
  | quiet (added : List UserEvent) (logged : s'.log = s.log ++ added)
      (quiet : ∀ event ∈ added, event.Quiet) (kept : s'.slot = s.slot ∨ s'.slot = none)
  | fired (fire : Fire) (raw : String) (logged : s'.log = s.log ++ [.fired fire])
      (taken : s.slot = some raw) (reads : cal.parse raw = .ok fire.slot) (recorded : fire.Recorded cal)
      (stored : s'.slot = fire.stored)
  | rearmed (logged : s'.log = s.log ++ [.rearmed])

theorem Moved.same {s' : UserState} (row : s'.row = s.row) (log : s'.log = s.log) : Moved cal s s' :=
  .quiet [] (by rw [log, append_nil]) (by simp) (.inl (by rw [UserState.slot, row, UserState.slot]))

/-- Ticks in flight hold a slot that had come when they read it. -/
def UserState.Due (cal : Calendar) (s : UserState) : Prop :=
  ∀ k tick, s.ticks k = some tick → cal.parse tick.rawNextRunAt = .ok tick.due ∧ tick.due ≤ tick.now

theorem runtimeCas_slot {row : Option ScheduleRow} {after : ScheduleRow}
    {write : ScheduleRow → Option ScheduleRow}
    (runtime : ∀ before, row = some before → write before = some after →
      after.nextRunAt = before.nextRunAt ∨ after.nextRunAt = none)
    (landed : row.bind write = some after) :
    after.nextRunAt = row.bind ScheduleRow.nextRunAt ∨ after.nextRunAt = none := by
  obtain ⟨before, rfl, landed⟩ := Option.bind_eq_some_iff.mp landed
  exact runtime before rfl landed

variable {k : Nat} {tick : TickFlight}

theorem tickAdvances_moved (reads : cal.parse tick.rawNextRunAt = .ok tick.due) (due : tick.due ≤ tick.now) :
    Moved cal s (s.tickAdvances cal k tick) := by
  unfold UserState.tickAdvances
  dsimp only
  split
  · split
    · exact .same rfl rfl
    rename_i row landed
    refine .quiet [.scheduleDisabled "next_fire_error"] rfl (by simp [UserEvent.Quiet]) ?_
    exact runtimeCas_slot (fun _ _ wrote => ScheduleRow.updateScheduleRuntimeCas_slot wrote) landed
  next next answer =>
    split
    · exact .same rfl rfl
    split
    · exact .same rfl rfl
    rename_i row landed
    obtain ⟨before, stored, landed⟩ := Option.bind_eq_some_iff.mp landed
    obtain ⟨-, taken, -, rfl⟩ := ScheduleRow.advance_eq_some landed
    exact .fired ⟨tick.schedule.spec, tick.due, tick.now, next.map cal.fmt⟩ tick.rawNextRunAt rfl
      (by rw [UserState.slot, stored]; exact taken) reads ⟨due, next, answer, rfl⟩ rfl

theorem tickRecords_moved {next runId : Option String} :
    Moved cal s (s.tickRecords cal k tick next runId) := by
  unfold UserState.tickRecords
  cases runId with
  | some runId =>
    refine .quiet [.scheduleFired runId] rfl (by simp [UserEvent.Quiet]) ?_
    dsimp only [UserState.slot, UserState.emit_row, UserState.setTick_row]
    split
    · cases landed : s.row.bind fun row => row.updateScheduleRuntimeCas tick.schedule.revision next
          (some (cal.fmt tick.now)) 0 true false with
      | none => exact .inl rfl
      | some row =>
        exact runtimeCas_slot (fun _ _ wrote => ScheduleRow.updateScheduleRuntimeCas_slot wrote) landed
    · exact .inl rfl
  | none =>
    dsimp only
    split
    · exact .same rfl rfl
    rename_i row landed
    refine .quiet _ rfl ?_
      (runtimeCas_slot (fun _ _ wrote => ScheduleRow.updateScheduleRuntimeCas_slot wrote) landed)
    split <;> simp [UserEvent.Quiet]

theorem applyUserUpdate_slot {schedule changed : ScheduleRow} {update : ScheduleUpdate} {now : Instant}
    (applied : applyUserUpdate cal schedule update now = .ok changed) :
    (update.recomputes schedule = true ∧ (changed.enabled = true ∨ changed.nextRunAt = none)) ∨
      update.recomputes schedule = false ∧ changed.nextRunAt = schedule.nextRunAt := by
  simp only [applyUserUpdate, bind, Except.bind] at applied
  split at applied
  · exact nomatch applied
  split at applied
  next recomputes =>
    refine .inl ⟨recomputes, ?_⟩
    split at applied
    · exact nomatch applied
    rename_i slot computed
    obtain rfl := Except.ok.inj applied
    cases enabled : update.enabled.getD schedule.enabled with
    | true => exact .inl rfl
    | false =>
      simp only [recomputedSlot, enabled, Bool.not_false, if_true, Except.ok.injEq] at computed
      exact .inr computed.symm
  next still =>
    obtain rfl := Except.ok.inj applied
    exact .inr ⟨Bool.eq_false_iff.mpr still, rfl⟩

theorem patchWrites_moved {patch : PatchFlight} {seen : ScheduleRow} :
    Moved cal s (s.patchWrites cal k patch seen) := by
  unfold UserState.patchWrites
  split
  · exact .same rfl rfl
  rename_i schedule applied
  split
  · exact .same rfl rfl
  rename_i row landed
  obtain ⟨before, stored, landed⟩ := Option.bind_eq_some_iff.mp landed
  obtain ⟨pinned, written⟩ := ScheduleRow.updateUserScheduleCas_slots landed
  have slot : s.slot = seen.nextRunAt := by rw [UserState.slot, stored]; exact pinned
  obtain ⟨recomputes, enabled | cleared⟩ | ⟨still, kept⟩ := applyUserUpdate_slot applied
  · refine .rearmed ?_
    simp [recomputes, enabled]
  · cases on : schedule.enabled with
    | true =>
      refine .rearmed ?_
      simp [recomputes]
    | false =>
      refine .quiet [] ?_ (by simp) (.inr (written.trans cleared))
      simp
  · refine .quiet [] ?_ (by simp) (.inl ?_)
    · simp [still]
    · rw [slot, ← kept, ← written]
      rfl

section
variable (due : s.Due cal)
include due

theorem step_moved (i : UserStep) : Moved cal s (s.step cal i) := by
  cases i with
  | tickReads k now =>
    simp only [UserState.step, UserState.tickReads]
    repeat' split
    all_goals exact .same rfl rfl
  | tickAdvances k =>
    simp only [UserState.step]
    split
    next tick flying =>
      split
      · exact tickAdvances_moved (due k tick flying).1 (due k tick flying).2
      · exact .same rfl rfl
    · exact .same rfl rfl
  | tickTriggers k outcome =>
    simp only [UserState.step]
    split
    next tick flying =>
      split
      · exact .quiet [.triggered tick.due] rfl (by simp [UserEvent.Quiet]) (.inl rfl)
      · exact .same rfl rfl
    · exact .same rfl rfl
  | tickRecords k =>
    simp only [UserState.step]
    split
    next tick flying =>
      split
      · exact tickRecords_moved
      · exact .same rfl rfl
    · exact .same rfl rfl
  | patchReads =>
    simp only [UserState.step]
    repeat' split
    all_goals exact .same rfl rfl
  | patchWrites k =>
    simp only [UserState.step]
    split
    next patch flying =>
      split
      · exact patchWrites_moved
      · exact .same rfl rfl
    · exact .same rfl rfl
  | patchRereads k =>
    simp only [UserState.step]
    repeat' split
    all_goals exact .same rfl rfl
  | deletes => exact .quiet [] (append_nil _).symm (by simp) (.inr rfl)
  | restarts => exact .same rfl rfl

theorem UserState.Due.setTick (k : Nat) {flight : Option TickFlight}
    (flying : ∀ tick, flight = some tick → cal.parse tick.rawNextRunAt = .ok tick.due ∧ tick.due ≤ tick.now) :
    (s.setTick k flight).Due cal := by
  intro other tick listed
  dsimp only [UserState.setTick] at listed
  by_cases here : other = k
  · rw [here, Function.update_self] at listed
    exact flying tick listed
  · rw [Function.update_of_ne here] at listed
    exact due other tick listed

theorem UserState.Due.tickAdvances (reads : cal.parse tick.rawNextRunAt = .ok tick.due ∧ tick.due ≤ tick.now) :
    (s.tickAdvances cal k tick).Due cal := by
  unfold UserState.tickAdvances
  dsimp only
  have lands : (s.setTick k none).Due cal := due.setTick k (by simp)
  split
  · split
    · exact lands
    · exact lands
  · split
    · exact lands
    split
    · exact lands
    refine due.setTick k ?_
    rintro _ ⟨⟩
    exact reads

theorem UserState.Due.tickRecords {next runId : Option String} :
    (s.tickRecords cal k tick next runId).Due cal := by
  unfold UserState.tickRecords
  have lands : (s.setTick k none).Due cal := due.setTick k (by simp)
  cases runId with
  | some runId => exact lands
  | none =>
    dsimp only
    split
    · exact lands
    · exact lands

theorem UserState.Due.patchWrites {patch : PatchFlight} {seen : ScheduleRow} :
    (s.patchWrites cal k patch seen).Due cal := by
  unfold UserState.patchWrites
  split
  · exact due
  split
  · exact due
  · exact due

theorem UserState.Due.step (i : UserStep) : (s.step cal i).Due cal := by
  cases i with
  | tickReads k now =>
    simp only [UserState.step, UserState.tickReads]
    split
    · exact due
    split
    · exact due
    split
    · exact due
    rename_i read reads
    split
    next come =>
      refine due.setTick k ?_
      rintro _ ⟨⟩
      exact ⟨reads, come.2⟩
    · exact due
  | tickAdvances k =>
    simp only [UserState.step]
    split
    next tick flying =>
      split
      · exact due.tickAdvances (due k tick flying)
      · exact due
    · exact due
  | tickTriggers k outcome =>
    simp only [UserState.step]
    split
    next tick flying =>
      split
      · refine due.setTick k ?_
        rintro _ ⟨⟩
        exact due k tick flying
      · exact due
    · exact due
  | tickRecords k =>
    simp only [UserState.step]
    split
    next tick flying =>
      split
      · exact due.tickRecords
      · exact due
    · exact due
  | patchReads =>
    simp only [UserState.step]
    repeat' split
    all_goals exact due
  | patchWrites k =>
    simp only [UserState.step]
    split
    next patch flying =>
      split
      · exact due.patchWrites
      · exact due
    · exact due
  | patchRereads k =>
    simp only [UserState.step]
    repeat' split
    all_goals exact due
  | deletes => exact due
  | restarts =>
    intro k tick flying
    exact nomatch flying

end

end Steps

section Runs
variable {cal} {s : UserState}

structure UserState.Sound (cal : Calendar) (s : UserState) : Prop where
  due : s.Due cal
  recorded : ∀ fire, .fired fire ∈ s.log → fire.Recorded cal
  /-- While every fire moves on, the stored slot lies past every slot taken since the last re-arming. -/
  ahead : FiresMoveOn cal s.log →
    FiresOnce cal s.log ∧ ∀ slot ∈ firedSince s.log, LaterSlot cal slot s.slot

theorem Fire.Recorded.later_iff {fire : Fire} (recorded : fire.Recorded cal) :
    LaterSlot cal fire.slot fire.stored ↔ fire.spec.MovesOn cal fire.slot fire.now := by
  obtain ⟨due, next, answers, stored⟩ := recorded
  rw [stored]
  exact nextFire_later_iff due answers

theorem FiresMoveOn.of_append {log added : List UserEvent} (moves : FiresMoveOn cal (log ++ added)) :
    FiresMoveOn cal log :=
  fun fire listed => moves fire (mem_append_left _ listed)

theorem UserState.Sound.step (sound : s.Sound cal) (i : UserStep) : (s.step cal i).Sound cal := by
  have due := sound.due.step i
  cases step_moved sound.due i with
  | quiet added logged quiet kept =>
    refine ⟨due, ?_, ?_⟩
    · intro fire listed
      rw [logged, mem_append] at listed
      obtain earlier | now := listed
      · exact sound.recorded fire earlier
      · exact (quiet _ now).elim
    · rw [logged, firedSince_append_quiet quiet]
      intro moves
      obtain ⟨once, ahead⟩ := sound.ahead moves.of_append
      refine ⟨once.append_quiet quiet, ?_⟩
      intro slot taken text stored
      obtain same | gone := kept
      · exact ahead slot taken text (same ▸ stored)
      · exact nomatch gone.symm.trans stored
  | fired fire raw logged taken reads recorded stored =>
    refine ⟨due, ?_, ?_⟩
    · intro other listed
      rw [logged, mem_append, mem_singleton] at listed
      obtain earlier | now := listed
      · exact sound.recorded other earlier
      · cases now
        exact recorded
    · rw [logged, firedSince_append]
      intro moves
      obtain ⟨once, ahead⟩ := sound.ahead moves.of_append
      have later := recorded.later_iff.mpr
        (moves fire (mem_append_right _ (mem_singleton_self _)))
      -- the slot being taken was the stored one, so it lies past all that were taken before
      have past : ∀ slot ∈ firedSince s.log, slot < fire.slot := by
        intro slot member
        obtain ⟨read, reads', before⟩ := ahead slot member raw taken
        rwa [Except.ok.inj (reads.symm.trans reads')]
      refine ⟨once.append ?_, ?_⟩
      · rintro _ ⟨⟩
        exact ⟨fun member => lt_irrefl _ (past _ member), later⟩
      · rw [stored]
        intro slot member
        obtain rfl | earlier := mem_cons.mp member
        · exact later
        intro text found
        obtain ⟨next, reads', after⟩ := later text found
        exact ⟨next, reads', (past slot earlier).trans after⟩
  | rearmed logged =>
    refine ⟨due, ?_, ?_⟩
    · intro fire listed
      rw [logged, mem_append, mem_singleton] at listed
      obtain earlier | now := listed
      · exact sound.recorded fire earlier
      · exact nomatch now
    · rw [logged, firedSince_append]
      intro moves
      refine ⟨(sound.ahead moves.of_append).1.append ?_, ?_⟩
      · rintro _ ⟨⟩
      · simp

theorem UserState.Sound.start (schedule : UserSchedule) : (UserState.start schedule).Sound cal where
  due _ _ flying := nomatch flying
  recorded _ listed := nomatch listed
  ahead _ := ⟨fun before _ _ same => by simp [UserState.start] at same, fun _ member => nomatch member⟩

theorem UserState.Sound.run (steps : List UserStep) (schedule : UserSchedule) :
    (Library.run (UserState.step cal) steps (UserState.start schedule)).Sound cal :=
  run_invariant (UserState.step cal) (fun _ => True) (UserState.Sound cal)
    (fun _ i _ sound => sound.step i) (fun _ _ => trivial) (.start schedule)

end Runs

/-- A schedule's slots fire once in exactly the runs whose fires all move on. -/
theorem slots_fire_once_iff (schedule : UserSchedule) (steps : List UserStep) :
    FiresOnce cal (run (UserState.step cal) steps (.start schedule)).log ↔
      FiresMoveOn cal (run (UserState.step cal) steps (.start schedule)).log := by
  have sound : (run (UserState.step cal) steps (.start schedule)).Sound cal := .run steps schedule
  constructor
  · intro once fire listed
    exact (sound.recorded fire listed).later_iff.mp (once.later listed)
  · intro moves
    exact (sound.ahead moves).1

section Fraction
open UserState

def tickInstants (steps : List UserStep) : List Instant :=
  steps.filterMap fun step =>
    match step with
    | .tickReads _ now => some now
    | _ => none

def halfSecondPastTen : ScheduleCreate where
  name := "standup"
  enabled := true
  spec := .atTs "2026-07-24T10:00:00.500Z"
  action := .agentRun "post the standup" none none
  delivery := []

def twoTicks : List UserStep :=
  [.tickReads 0 ⟨1_784_887_200, 200_000_000, by decide⟩, .tickAdvances 0, .tickTriggers 0 (.agentRun "run_1"),
    .tickRecords 0,
    .tickReads 1 ⟨1_784_887_201, 200_000_000, by decide⟩, .tickAdvances 1, .tickTriggers 1 (.agentRun "run_2"),
    .tickRecords 1]

def refiresAt (log : List UserEvent) (n : Nat) : Bool :=
  match log[n]? with
  | some (.fired fire) => decide (fire.slot ∈ firedSince (log.take n))
  | _ => false

theorem not_firesOnce {log : List UserEvent} (n : Nat) (again : refiresAt log n = true) :
    ¬ FiresOnce cal log := by
  intro once
  unfold refiresAt at again
  split at again
  next fire found =>
    obtain ⟨short, here⟩ := List.getElem?_eq_some_iff.mp found
    have same : log = log.take n ++ .fired fire :: log.drop (n + 1) := by
      rw [← here, getElem_cons_drop, take_append_drop]
    exact (once _ fire _ same).1 (of_decide_eq_true again)
  next => exact nomatch again

theorem fraction_fires_twice :
    ∃ (now : Instant) (schedule : UserSchedule),
      create sampleCalendar "sch_1" halfSecondPastTen now = .ok schedule ∧
      (tickInstants twoTicks).Pairwise (· ≤ ·) ∧
      ¬ FiresOnce sampleCalendar (run (UserState.step sampleCalendar) twoTicks (.start schedule)).log := by
  refine ⟨⟨1_784_887_000, 0, by decide⟩, ⟨_, rfl⟩, rfl, by decide, ?_⟩
  -- the second tick still finds the slot of the first
  exact not_firesOnce sampleCalendar 3 (by decide +kernel)

end Fraction

end Agent24.Scheduler
