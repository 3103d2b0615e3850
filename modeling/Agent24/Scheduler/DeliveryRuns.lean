import Agent24.Scheduler.ModuleSchedules

/-! Whole runs of the delivery table: its rows, the events that follow from them, and the failure count
of a schedule as a circuit breaker. -/

set_option autoImplicit false
namespace Agent24.Scheduler
open Library List

section Counting

section
variable (id : String)

def ModuleEvent.signal : ModuleEvent → Option Signal
  | .failed scheduleId _ => if scheduleId = id then some .failure else none
  | .delivered scheduleId _ => if scheduleId = id then some .success else none
  | .reset scheduleId => if scheduleId = id then some .reset else none
  | _ => none

def signals (log : List ModuleEvent) : List Signal := log.filterMap (ModuleEvent.signal id)

def EventBody.disables : EventBody → Bool
  | .scheduleDisabled scheduleId _ => scheduleId == id
  | _ => false

def EventBody.delivers (fireId : String) : EventBody → Bool
  | .scheduleDelivered _ _ _ fire _ => fire == fireId
  | _ => false

def ModuleEvent.emits (p : EventBody → Bool) : ModuleEvent → Bool
  | .emitted body => p body
  | _ => false

def ModuleEvent.loses (p : EventBody → Bool) : ModuleEvent → Bool
  | .lost body => p body
  | _ => false

def ModuleEvent.lands (fireId : String) : ModuleEvent → Bool
  | .delivered _ fire => fire == fireId
  | _ => false

def ModuleEvent.drops (fireId : String) : ModuleEvent → Bool
  | .dropped fire => fire == fireId
  | _ => false

/-- How often the failures of a schedule reached the limit while it was not system-disabled. -/
def transitions (log : List ModuleEvent) : Nat :=
  Breaker.trips maxConsecutiveFailures (signals id log)

/-- The failed fires of a schedule since its last delivered fire or reset. -/
def failuresSince (log : List ModuleEvent) : Nat := Breaker.sinceLast (signals id log)

end

/-- Events emitted, lost to a restart, or still to be emitted. -/
def ModuleState.out (s : ModuleState) (p : EventBody → Bool) : Nat :=
  s.log.countP (ModuleEvent.emits p) + s.log.countP (ModuleEvent.loses p) + s.pending.countP p

def Deliveries.holds (t : Deliveries) (fireId : String) : Nat :=
  if (t.find fireId).any fun d => decide (d.status = .delivered) then 1 else 0

end Counting

def ScheduleRow.Mirrors (row : ScheduleRow) (b : Breaker) : Prop :=
  row.consecutiveFailures = b.failures ∧ row.systemDisabledReason.isSome = b.tripped

section Fires
variable (kernel : Kernel)

def Kernel.Names (d : Delivery) : Prop := ∃ trigger slot, d.fireId = kernel.fireId trigger d.scheduleId slot

theorem FireTrigger.text_clean (trigger : FireTrigger) : '\x00' ∉ trigger.text.toList := by
  cases trigger <;> decide

variable {kernel}

theorem fireId_schedule {trigger trigger' : FireTrigger} {id id' : String} {slot slot' : Instant}
    (same : kernel.fireId trigger id slot = kernel.fireId trigger' id' slot') : id = id' := by
  have digests := congrArg String.toList same
  simp only [Kernel.fireId, String.toList_append] at digests
  have texts := kernel.digest_injective (String.toList_inj.mp (append_cancel_left digests))
  have chars := congrArg String.toList texts
  simp only [String.toList_append, append_assoc] at chars
  have nul : "\x00".toList = ['\x00'] := rfl
  rw [nul] at chars
  have rest := append_cancel_left chars
  simp only [singleton_append] at rest
  have inner := (Text.append_cons_inj_first trigger.text_clean trigger'.text_clean rest).2
  exact String.toList_inj.mp (Text.append_cons_inj_last (kernel.fmt_clean slot) (kernel.fmt_clean slot') inner).1

theorem Kernel.Names.schedule {d d' : Delivery} (names : kernel.Names d) (names' : kernel.Names d')
    (same : d.fireId = d'.fireId) : d.scheduleId = d'.scheduleId := by
  obtain ⟨trigger, slot, shape⟩ := names
  obtain ⟨trigger', slot', shape'⟩ := names'
  exact fireId_schedule (shape.symm.trans (same.trans shape'))

end Fires

section Logs
variable {log added : List ModuleEvent} {id fireId : String}

theorem signals_append : signals id (log ++ added) = signals id log ++ signals id added := filterMap_append

section
variable {t t' : Deliveries}

theorem signals_dropped : signals id (ModuleState.droppedRows t t') = [] := by
  simp [signals, ModuleState.droppedRows, ModuleEvent.signal]

theorem countP_dropped {p : ModuleEvent → Bool} (none : ∀ fire, p (.dropped fire) = false) :
    (ModuleState.droppedRows t t').countP p = 0 := by
  simp [ModuleState.droppedRows, none]

theorem drops_dropped :
    (ModuleState.droppedRows t t').countP (ModuleEvent.drops fireId) =
      if (t.find fireId).any (fun d => decide (d.status = .delivered) && (t'.find fireId).isNone) then 1 else 0 := by
  rw [ModuleState.droppedRows, countP_map, countP_filter,
    ← Table.countP_key t fireId]
  apply countP_congr
  intro d _
  simp only [Function.comp, ModuleEvent.drops, Bool.and_eq_true, beq_iff_eq, decide_eq_true_eq]
  constructor
  · rintro ⟨same, delivered, gone⟩
    exact ⟨same, delivered, same ▸ gone⟩
  · rintro ⟨same, delivered, gone⟩
    exact ⟨same, delivered, same ▸ gone⟩

theorem Deliveries.Calm.holds (calm : Deliveries.Calm t t') :
    t'.holds fireId + (ModuleState.droppedRows t t').countP (ModuleEvent.drops fireId) = t.holds fireId := by
  rw [drops_dropped]
  unfold Deliveries.holds
  have later : (t'.find fireId).any (fun d => decide (d.status = .delivered)) = true →
      (t'.find fireId) = t.find fireId := by
    intro delivered
    cases found : t'.find fireId with
    | none =>
      rw [found] at delivered
      cases delivered
    | some d =>
      rw [found] at delivered
      have same := Table.find_key found
      subst same
      exact (calm.2 d found (of_decide_eq_true delivered)).symm
  cases hit : t.find fireId with
  | none =>
    cases hit' : t'.find fireId with
    | none => rfl
    | some d =>
      have none : (t'.find fireId).any (fun d => decide (d.status = .delivered)) = false := by
        by_contra delivered
        rw [later (by simpa using delivered), hit] at hit'
        cases hit'
      rw [hit'] at none
      simp [none]
  | some d =>
    by_cases delivered : d.status = .delivered
    · have same := Table.find_key hit
      obtain stays | gone := calm.1 d (same ▸ hit) (by simp [Delivery.outstanding, delivered, DeliveryStatus.isTerminal])
      · rw [same] at stays
        simp [stays, delivered]
      · rw [same] at gone
        simp [gone, delivered]
    · have none : (t'.find fireId).any (fun d => decide (d.status = .delivered)) = false := by
        by_contra held
        have same := later (by simpa using held)
        rw [same, hit] at held
        simp [delivered] at held
      simp [none, delivered]

end

end Logs

section Accounts
variable {kernel : Kernel} {s s' : ModuleState}

def Store.Mirrored (s s' : Store) (added : List ModuleEvent) (fresh : String → Prop) : Prop :=
  ∀ id after, s'.schedules.find id = some after →
    (∃ row, s.schedules.find id = some row ∧
      ∀ b, row.Mirrors b → after.Mirrors ((signals id added).foldl (Breaker.signal maxConsecutiveFailures) b)) ∨
    (fresh id ∧ signals id added = [] ∧ after.Mirrors .closed)

structure ModuleState.Accounted (kernel : Kernel) (s : ModuleState) : Prop where
  sound : s.store.deliveries.Sound
  rows : ∀ d ∈ s.store.deliveries.rows,
    kernel.Names d ∧ (s.store.schedules.find d.scheduleId).isSome = true
  tried : ∀ k attempt, s.attempts k = some attempt → kernel.Names attempt.row
  drawn : ∀ id, (s.store.schedules.find id).isSome = true → id ∈ s.drawn
  silent : ∀ id, id ∉ s.drawn → signals id s.log = []
  mirrors : ∀ id row, s.store.schedules.find id = some row →
    row.Mirrors (.after maxConsecutiveFailures (signals id s.log))
  announced : ∀ id, s.out (EventBody.disables id) = transitions id s.log
  reported : ∀ fireId, s.out (EventBody.delivers fireId) = s.log.countP (ModuleEvent.lands fireId)
  once : ∀ fireId,
    s.log.countP (ModuleEvent.lands fireId) = s.log.countP (ModuleEvent.drops fireId) + s.store.deliveries.holds fireId

structure ModuleState.Accounts (kernel : Kernel) (s s' : ModuleState) (added : List ModuleEvent)
    (bodies lost : List EventBody) : Prop where
  sound : s'.store.deliveries.Sound
  rows : ∀ d ∈ s'.store.deliveries.rows,
    kernel.Names d ∧ (s'.store.schedules.find d.scheduleId).isSome = true
  tried : ∀ k attempt, s'.attempts k = some attempt → kernel.Names attempt.row
  drawn : s.drawn ⊆ s'.drawn ∧ ∀ id, (s'.store.schedules.find id).isSome = true → id ∈ s'.drawn
  logged : s'.log = s.log ++ added
  lost : ∀ p, added.countP (ModuleEvent.loses p) = lost.countP p
  frozen : Deliveries.Frozen s.store.deliveries s'.store.deliveries
  mirrored : s.store.Mirrored s'.store added (· ∉ s.drawn)
  /-- A step signals at most once, and only for a schedule that exists before it and after. -/
  single : ∀ id, (signals id added).length ≤ 1
  heard : ∀ id, (s.store.schedules.find id).isSome = false ∨ (s'.store.schedules.find id).isSome = false →
    signals id added = []
  out : ∀ p, s'.out p = s.out p + bodies.countP p
  trips : ∀ id b, (∀ row, s.store.schedules.find id = some row → row.Mirrors b) →
    bodies.countP (EventBody.disables id) = Breaker.tripsFrom maxConsecutiveFailures b (signals id added)
  landed : ∀ fireId, added.countP (ModuleEvent.lands fireId) = bodies.countP (EventBody.delivers fireId)
  held : ∀ fireId, added.countP (ModuleEvent.drops fireId) = 0 ∧ s'.store.deliveries.holds fireId +
    (droppedRows s.store.deliveries s'.store.deliveries).countP (ModuleEvent.drops fireId) =
      s.store.deliveries.holds fireId + added.countP (ModuleEvent.lands fireId)

theorem ModuleState.Accounted.settle (acc : s.Accounted kernel) {added : List ModuleEvent}
    {bodies lost : List EventBody} (owed : s.Accounts kernel s' added bodies lost) :
    (s'.note (droppedRows s.store.deliveries s'.store.deliveries)).Accounted kernel := by
  let dropped := droppedRows s.store.deliveries s'.store.deliveries
  have heard : ∀ id, signals id (s'.log ++ dropped) = signals id s.log ++ signals id added := by
    intro id
    rw [signals_append, signals_dropped, append_nil, owed.logged, signals_append]
  have out : ∀ p, (s'.note dropped).out p = s.out p + bodies.countP p := by
    intro p
    rw [← owed.out p]
    simp only [ModuleState.out, ModuleState.note, countP_append]
    rw [countP_dropped fun _ => rfl, countP_dropped fun _ => rfl]
    rfl
  have lands : ∀ fireId, (s'.log ++ dropped).countP (ModuleEvent.lands fireId) =
      s.log.countP (ModuleEvent.lands fireId) + added.countP (ModuleEvent.lands fireId) := by
    intro fireId
    rw [countP_append, countP_dropped fun _ => rfl, owed.logged, countP_append]
    rfl
  refine ⟨owed.sound, owed.rows, owed.tried, owed.drawn.2, ?_, ?_, ?_, ?_, ?_⟩
  · intro id unknown
    have before : id ∉ s.drawn := fun member => unknown (owed.drawn.1 member)
    have absent : (s.store.schedules.find id).isSome = false := by
      by_contra exists_
      rw [Bool.not_eq_false] at exists_
      exact before (acc.drawn id exists_)
    exact (heard id).trans (by rw [acc.silent id before, owed.heard id (.inl absent)]; rfl)
  · intro id after hit
    show after.Mirrors (.after _ (signals id (s'.log ++ dropped)))
    rw [heard, Breaker.after_append_list]
    obtain ⟨row, found, moves⟩ | ⟨fresh, quiet, closed⟩ := owed.mirrored id after hit
    · exact moves _ (acc.mirrors id row found)
    · rw [quiet, acc.silent id fresh]
      exact closed
  · intro id
    rw [out, acc.announced id]
    show _ = Breaker.trips _ (signals id (s'.log ++ dropped))
    rw [heard, Breaker.trips_append, owed.trips id _ fun row found => acc.mirrors id row found]
    rfl
  · intro fireId
    rw [out, acc.reported fireId, ← owed.landed fireId]
    exact (lands fireId).symm
  · intro fireId
    obtain ⟨none, held⟩ := owed.held fireId
    have earlier := acc.once fireId
    show (s'.log ++ dropped).countP _ = (s'.log ++ dropped).countP _ + s'.store.deliveries.holds fireId
    rw [lands, countP_append, owed.logged, countP_append, none]
    dsimp only [dropped]
    omega

/-- Every row of a statement's result has a row of before behind it, or is a new one. -/
def Deliveries.From (t t' : Deliveries) (new : Delivery → Prop) : Prop :=
  ∀ d ∈ t'.rows, (∃ d' ∈ t.rows, d'.fireId = d.fireId ∧ d'.scheduleId = d.scheduleId) ∨ new d

theorem Deliveries.From.update {t : Deliveries} {new : Delivery → Prop} {select : Delivery → Bool}
    {edit : Delivery → Delivery} {keeps : ∀ d, (edit d).fireId = d.fireId}
    (schedule : ∀ d, (edit d).scheduleId = d.scheduleId) :
    Deliveries.From t (Table.update t select edit keeps) new := by
  intro d member
  obtain ⟨before, listed, rfl⟩ := Table.mem_update.mp member
  refine .inl ⟨before, listed, ?_⟩
  split
  · exact ⟨(keeps before).symm, (schedule before).symm⟩
  · exact ⟨rfl, rfl⟩

theorem Deliveries.From.expire {t : Deliveries} {new : Delivery → Prop} {select : Delivery → Bool}
    {reason now : String} :
    Deliveries.From t (Table.update t select (Delivery.expire reason now) (Delivery.expire_fireId _ _)) new :=
  .update fun _ => rfl

theorem Deliveries.From.recordFire {t : Deliveries} {f : NewFire} {now : String} :
    Deliveries.From t (t.recordFire f now) (· = f.delivery now) := by
  intro d member
  obtain rfl | superseded := Deliveries.mem_insertNew (Table.mem_deleteWhere.mp member).1
  · exact .inr rfl
  unfold Deliveries.supersede at superseded
  obtain ⟨before, listed, rfl⟩ := Table.mem_update.mp superseded
  refine .inl ⟨before, (Table.mem_deleteWhere.mp listed).1, ?_⟩
  split <;> exact ⟨rfl, rfl⟩

theorem Deliveries.From.refl {t : Deliveries} {new : Delivery → Prop} : Deliveries.From t t new :=
  fun d member => .inl ⟨d, member, rfl, rfl⟩

theorem ModuleState.Accounted.rows_of (acc : s.Accounted kernel) {schedules : Table ScheduleRow.id}
    {deliveries : Deliveries} {new : Delivery → Prop} (source : Deliveries.From s.store.deliveries deliveries new)
    (stay : ∀ id, (s.store.schedules.find id).isSome = true → (schedules.find id).isSome = true)
    (named : ∀ d, new d → kernel.Names d ∧ (schedules.find d.scheduleId).isSome = true) :
    ∀ d ∈ deliveries.rows, kernel.Names d ∧ (schedules.find d.scheduleId).isSome = true := by
  intro d member
  obtain ⟨before, listed, fire, schedule⟩ | new := source d member
  · obtain ⟨⟨trigger, slot, shape⟩, exists_⟩ := acc.rows before listed
    rw [schedule] at exists_
    refine ⟨⟨trigger, slot, ?_⟩, stay _ exists_⟩
    rw [← fire, shape, schedule]
  · exact named d new

theorem Store.setRow_isSome {store : Store} {after : ScheduleRow} {id : String} :
    ((store.setRow after).schedules.find id).isSome = (store.schedules.find id).isSome := by
  rw [Store.find_setRow]
  split
  · rw [Option.isSome_map]
  · rfl

def Store.Still (s s' : Store) : Prop :=
  ∀ id after, s'.schedules.find id = some after →
    ∃ row, s.schedules.find id = some row ∧ ∀ b, row.Mirrors b → after.Mirrors b

theorem Store.Still.refl {s s' : Store} (same : s'.schedules = s.schedules) : s.Still s' :=
  fun _ after hit => ⟨after, same ▸ hit, fun _ shows => shows⟩

theorem Store.Mirrored.setRow {s : Store} {row after : ScheduleRow} {added : List ModuleEvent}
    {fresh : String → Prop} {deliveries : Deliveries} (found : s.schedules.find after.id = some row)
    (own : ∀ b, row.Mirrors b →
      after.Mirrors ((signals after.id added).foldl (Breaker.signal maxConsecutiveFailures) b))
    (others : ∀ id, id ≠ after.id → signals id added = []) :
    s.Mirrored { s.setRow after with deliveries := deliveries } added fresh := by
  intro id last hit
  dsimp only at hit
  rw [Store.find_setRow] at hit
  left
  split at hit
  next here =>
    subst here
    rw [found, Option.map_some] at hit
    obtain rfl := Option.some.inj hit
    exact ⟨row, found, own⟩
  next apart =>
    refine ⟨last, hit, fun b shows => ?_⟩
    rw [others id apart]
    exact shows

theorem Store.Still.setRow {s : Store} {row after : ScheduleRow} {deliveries : Deliveries}
    (found : s.schedules.find after.id = some row) (own : ∀ b, row.Mirrors b → after.Mirrors b) :
    s.Still { s.setRow after with deliveries := deliveries } := by
  intro id last hit
  dsimp only at hit
  rw [Store.find_setRow] at hit
  split at hit
  next here =>
    subst here
    rw [found, Option.map_some] at hit
    obtain rfl := Option.some.inj hit
    exact ⟨row, found, own⟩
  next => exact ⟨last, hit, fun _ shows => shows⟩

theorem ModuleState.Accounts.quiet (steady : s'.Steady) (sound : s'.store.deliveries.Sound)
    (rows : ∀ d ∈ s'.store.deliveries.rows,
      kernel.Names d ∧ (s'.store.schedules.find d.scheduleId).isSome = true)
    (tried : ∀ k attempt, s'.attempts k = some attempt → kernel.Names attempt.row)
    (drawn : s.drawn ⊆ s'.drawn) (logged : s'.log = s.log) (pending : s'.pending = s.pending)
    (mirrored : s.store.Mirrored s'.store [] (· ∉ s.drawn))
    (calm : Deliveries.Calm s.store.deliveries s'.store.deliveries) : s.Accounts kernel s' [] [] [] where
  sound := sound
  rows := rows
  tried := tried
  drawn := by
    refine ⟨drawn, fun id exists_ => ?_⟩
    obtain ⟨row, hit⟩ := Option.isSome_iff_exists.mp exists_
    exact steady.drawn id row hit
  logged := by rw [logged, append_nil]
  lost _ := rfl
  frozen := calm.1
  mirrored := mirrored
  single _ := Nat.zero_le _
  heard _ _ := rfl
  out p := by
    simp only [ModuleState.out, logged, pending]
    rfl
  trips _ _ _ := rfl
  landed _ := rfl
  held _ := ⟨rfl, calm.holds⟩

theorem Store.Still.mirrored {s s' : Store} (still : s.Still s') (fresh : String → Prop) :
    s.Mirrored s' [] fresh :=
  fun id after hit => .inl (still id after hit)

end Accounts

section Quiet
variable {kernel : Kernel} {s : ModuleState} {store : Store} {row after : ScheduleRow} {now : String}

/-- What a transaction with nothing to signal does to the two tables. -/
structure Store.Quiet (s s' : Store) (new : Delivery → Prop) : Prop where
  sound : s.deliveries.Sound → s'.deliveries.Sound
  calm : Deliveries.Calm s.deliveries s'.deliveries
  source : Deliveries.From s.deliveries s'.deliveries new
  still : s.Still s'
  stay : ∀ id, (s.schedules.find id).isSome = true → (s'.schedules.find id).isSome = true

theorem Store.Quiet.refl {new : Delivery → Prop} : store.Quiet store new :=
  ⟨fun sound => sound, .refl, .refl, .refl rfl, fun _ here => here⟩

theorem ModuleState.Accounted.withStore (acc : s.Accounted kernel) {new : Delivery → Prop}
    (quiet : s.store.Quiet store new) (steady : (s.withStore store).Steady)
    (named : ∀ d, new d → kernel.Names d ∧ (store.schedules.find d.scheduleId).isSome = true) :
    s.Accounts kernel (s.withStore store) [] [] [] :=
  .quiet steady (quiet.sound acc.sound) (acc.rows_of quiet.source quiet.stay named) acc.tried
    (List.Subset.refl _) rfl rfl (quiet.still.mirrored _) quiet.calm

theorem Store.setUserSuspended_unchanged {id : String} {suspended : Bool} {next : Option String}
    {seenRevision : Nat} (unchanged : (store.setUserSuspended id suspended next seenRevision now).2 ≠ .changed) :
    (store.setUserSuspended id suspended next seenRevision now).1 = store := by
  unfold setUserSuspended at unchanged ⊢
  split
  · rfl
  rename_i row hit
  rw [hit] at unchanged
  dsimp only at unchanged
  split
  next after landed =>
    rw [landed] at unchanged
    exact absurd rfl unchanged
  next => rfl

theorem ScheduleRow.unswitched_ne_changed {suspended : Bool} {seenRevision : Nat} (row : ScheduleRow) :
    row.unswitched suspended seenRevision ≠ .changed := by
  simp only [unswitched]
  split_ifs <;> simp

theorem Store.setUserSuspended_changed {id : String} {suspended : Bool} {next : Option String}
    {seenRevision : Nat} (changed : (store.setUserSuspended id suspended next seenRevision now).2 = .changed) :
    ∃ row after, store.schedules.find id = some row ∧
      row.setUserSuspended suspended next seenRevision = some after ∧
      (store.setUserSuspended id suspended next seenRevision now).1 =
        { store.setRow after with deliveries :=
            if suspended then store.deliveries.expireOutstanding "suspended" now id else store.deliveries } := by
  unfold setUserSuspended at changed ⊢
  split
  next absent =>
    rw [absent] at changed
    cases changed
  next row hit =>
    rw [hit] at changed
    dsimp only at changed
    split
    next after landed =>
      refine ⟨row, after, hit, landed, ?_⟩
      cases suspended <;> rfl
    next missed =>
      rw [missed] at changed
      exact absurd changed row.unswitched_ne_changed

theorem Store.suspend_quiet {id : String} {next : Option String} {seenRevision : Nat} {new : Delivery → Prop} :
    store.Quiet (store.setUserSuspended id true next seenRevision now).1 new := by
  by_cases changed : (store.setUserSuspended id true next seenRevision now).2 = .changed
  · obtain ⟨row, after, hit, landed, shape⟩ := setUserSuspended_changed changed
    obtain ⟨-, same⟩ := ScheduleRow.setUserSuspended_eq_some landed
    have found : store.schedules.find after.id = some row := by
      rw [same]
      exact (Table.find_key hit) ▸ hit
    rw [shape, if_pos rfl]
    refine ⟨fun sound => sound.expireOutstanding _ _, .expireOutstanding _ _, .expire,
      .setRow found ?_, fun id here => setRow_isSome.trans here⟩
    intro b shows
    rw [same]
    exact shows
  · rw [setUserSuspended_unchanged changed]
    exact .refl

theorem Store.advance_quiet {id due : String} {seenRevision : Nat} {next : Option String}
    {fire : Option NewFire} {store' : Store}
    (done : store.advanceAndRecordFire id seenRevision due next now fire = some store') :
    store.Quiet store' fun d => ∃ f, fire = some f ∧ d.fireId = f.fireId ∧ d.scheduleId = id ∧
      (store.schedules.find id).isSome = true := by
  unfold advanceAndRecordFire at done
  split at done
  · cases done
  rename_i row hit
  split at done
  · cases done
  rename_i after landed
  obtain ⟨-, -, -, shape⟩ := ScheduleRow.advance_eq_some landed
  have found : store.schedules.find after.id = some row := by
    rw [shape]
    exact (Table.find_key hit) ▸ hit
  have shows : ∀ b, row.Mirrors b → after.Mirrors b := by
    intro b shows
    rw [shape]
    exact shows
  dsimp only at done
  split at done
  next owner key f owned =>
    obtain rfl := Option.some.inj done
    refine ⟨Deliveries.Sound.recordFire, .recordFire, ?_, .setRow found shows,
      fun id here => setRow_isSome.trans here⟩
    intro d member
    refine (Deliveries.From.recordFire d member).imp_right ?_
    rintro rfl
    exact ⟨f, rfl, rfl, rfl, by rw [hit]; rfl⟩
  next =>
    obtain rfl := Option.some.inj done
    exact ⟨fun sound => sound, .refl, .refl, .setRow found shows, fun id here => setRow_isSome.trans here⟩

theorem Store.runNow_quiet {id fireId expiresAt : String} {store' : Store}
    (done : store.recordRunNowFire id fireId now expiresAt = some store') :
    store.Quiet store' fun d => d.fireId = fireId ∧ d.scheduleId = id ∧
      (store.schedules.find id).isSome = true := by
  unfold recordRunNowFire at done
  split at done
  · cases done
  rename_i owner key owned
  obtain rfl := Option.some.inj done
  obtain ⟨row, hit, -⟩ := Option.bind_eq_some_iff.mp owned
  refine ⟨Deliveries.Sound.recordFire, .recordFire, ?_, .refl rfl, fun _ here => here⟩
  intro d member
  refine (Deliveries.From.recordFire d member).imp_right ?_
  rintro rfl
  exact ⟨rfl, rfl, by rw [hit]; rfl⟩

theorem Store.sweep_quiet {new : Delivery → Prop} :
    store.Quiet { store with deliveries := store.deliveries.expireDue now } new :=
  ⟨Deliveries.Sound.expireDue, .expireDue, .expire, .refl rfl, fun _ here => here⟩

theorem ModuleState.Accounted.delete (acc : s.Accounted kernel) (drop : ScheduleRow → Bool)
    (steady : (s.withStore (s.store.deleteSchedules drop)).Steady) :
    s.Accounts kernel (s.withStore (s.store.deleteSchedules drop)) [] [] [] := by
  have kept : ∀ id row, (s.store.deleteSchedules drop).schedules.find id = some row →
      s.store.schedules.find id = some row := by
    intro id row hit
    dsimp only [Store.deleteSchedules] at hit
    rw [Table.find_deleteWhere, Option.filter_eq_some_iff] at hit
    exact hit.1
  have still : s.store.Still (s.store.deleteSchedules drop) := fun id row hit =>
    ⟨row, kept id row hit, fun _ shows => shows⟩
  refine .quiet steady (acc.sound.deleteWhere _) ?_ acc.tried (List.Subset.refl _) rfl rfl
    (still.mirrored _) (.deleteWhere _)
  intro d member
  obtain ⟨listed, stays⟩ := Table.mem_deleteWhere.mp member
  obtain ⟨names, exists_⟩ := acc.rows d listed
  obtain ⟨row, hit⟩ := Option.isSome_iff_exists.mp exists_
  refine ⟨names, ?_⟩
  show ((s.store.schedules.deleteWhere drop).find d.scheduleId).isSome = true
  rw [Table.find_deleteWhere, hit, Option.filter_some, if_pos]
  · rfl
  · obtain ⟨member', same⟩ := Table.find_eq_some.mp hit
    by_contra dropped
    refine of_decide_eq_false stays (mem_map.mpr ⟨row, mem_filter.mpr ⟨member', ?_⟩, same⟩)
    simpa using dropped

end Quiet

section Signalling
variable {kernel : Kernel} {s s' : ModuleState} {store : Store} {row after : ScheduleRow} {now : String}

theorem signals_reset {id scheduleId : String} :
    signals id [.reset scheduleId] = if scheduleId = id then [.reset] else [] := by
  by_cases here : scheduleId = id <;> simp [signals, ModuleEvent.signal, here]

theorem signals_delivered {id scheduleId fireId : String} :
    signals id [.delivered scheduleId fireId] = if scheduleId = id then [.success] else [] := by
  by_cases here : scheduleId = id <;> simp [signals, ModuleEvent.signal, here]

theorem signals_failed {id scheduleId fireId : String} :
    signals id [.failed scheduleId fireId] = if scheduleId = id then [.failure] else [] := by
  by_cases here : scheduleId = id <;> simp [signals, ModuleEvent.signal, here]

theorem ModuleState.Accounts.signalled {event : ModuleEvent} {bodies : List EventBody} {deliveries : Deliveries}
    (steady : s'.Steady) (found : s.store.schedules.find after.id = some row)
    (shape : s'.store = { s.store.setRow after with deliveries := deliveries })
    (own : ∀ b, row.Mirrors b →
      after.Mirrors ((signals after.id [event]).foldl (Breaker.signal maxConsecutiveFailures) b) ∧
      bodies.countP (EventBody.disables after.id) =
        Breaker.tripsFrom maxConsecutiveFailures b (signals after.id [event]))
    (others : ∀ id, id ≠ after.id → signals id [event] = [] ∧ bodies.countP (EventBody.disables id) = 0)
    (spoken : ∀ p, event.emits p = false ∧ event.loses p = false)
    (sound : deliveries.Sound)
    (rows : ∀ d ∈ deliveries.rows, kernel.Names d ∧ (s'.store.schedules.find d.scheduleId).isSome = true)
    (tried : ∀ k attempt, s'.attempts k = some attempt → kernel.Names attempt.row)
    (drawn : s.drawn ⊆ s'.drawn) (logged : s'.log = s.log ++ [event]) (pending : s'.pending = s.pending ++ bodies)
    (frozen : Deliveries.Frozen s.store.deliveries deliveries)
    (landed : ∀ fireId, [event].countP (ModuleEvent.lands fireId) = bodies.countP (EventBody.delivers fireId))
    (held : ∀ fireId, [event].countP (ModuleEvent.drops fireId) = 0 ∧ deliveries.holds fireId +
      (droppedRows s.store.deliveries deliveries).countP (ModuleEvent.drops fireId) =
        s.store.deliveries.holds fireId + [event].countP (ModuleEvent.lands fireId)) :
    s.Accounts kernel s' [event] bodies [] where
  sound := by rw [shape]; exact sound
  rows := by
    intro d member
    rw [shape] at member
    exact rows d member
  tried := tried
  drawn := by
    refine ⟨drawn, fun id exists_ => ?_⟩
    obtain ⟨row, hit⟩ := Option.isSome_iff_exists.mp exists_
    exact steady.drawn id row hit
  logged := logged
  lost p := by rw [countP_singleton, (spoken p).2]; rfl
  frozen := by rw [shape]; exact frozen
  mirrored := by
    rw [shape]
    exact .setRow found (fun b shows => (own b shows).1) fun id apart => (others id apart).1
  single _ := length_filterMap_le ..
  heard id absent := by
    by_cases here : id = after.id
    · rw [shape, Store.setRow_isSome, or_self, here, found] at absent
      exact nomatch absent
    · exact (others id here).1
  out p := by
    simp only [ModuleState.out, logged, pending, countP_append, countP_singleton, (spoken p).1,
      (spoken p).2]
    rw [if_neg Bool.false_ne_true]
    omega
  trips id b shows := by
    by_cases here : id = after.id
    · subst here
      exact (own b (shows row found)).2
    · rw [(others id here).1, (others id here).2]
      rfl
  landed := landed
  held := by
    rw [shape]
    exact held

theorem ModuleState.Accounts.resets {deliveries : Deliveries} (steady : s'.Steady)
    (found : s.store.schedules.find after.id = some row) (closed : after.Mirrors .closed)
    (shape : s'.store = { s.store.setRow after with deliveries := deliveries })
    (sound : deliveries.Sound)
    (rows : ∀ d ∈ deliveries.rows, kernel.Names d ∧ (s'.store.schedules.find d.scheduleId).isSome = true)
    (tried : ∀ k attempt, s'.attempts k = some attempt → kernel.Names attempt.row)
    (drawn : s.drawn ⊆ s'.drawn) (logged : s'.log = s.log ++ [.reset after.id])
    (pending : s'.pending = s.pending) (calm : Deliveries.Calm s.store.deliveries deliveries) :
    s.Accounts kernel s' [.reset after.id] [] [] := by
  refine .signalled steady found shape ?_ ?_ (fun _ => ⟨rfl, rfl⟩) sound rows tried drawn logged ?_
    calm.1 (fun _ => rfl) (fun _ => ⟨rfl, calm.holds⟩)
  · intro b _
    rw [signals_reset, if_pos rfl]
    refine ⟨closed, ?_⟩
    simp [Breaker.tripsFrom, Breaker.signal, Breaker.closed]
  · intro id apart
    rw [signals_reset, if_neg apart.symm]
    exact ⟨rfl, rfl⟩
  · rw [pending, append_nil]

theorem Store.upsert_cases {newId owner key : String} {desired : ModuleScheduleDesired}
    {next : Option String} {quota : Nat} {outcome : UpsertOutcome} {store' : Store}
    (done : store.upsertModuleSchedule newId owner key desired next now quota = .ok (outcome, store')) :
    (store.owned owner key = none ∧ store.schedules.find newId = none ∧
      store' = { store with schedules := store.schedules.put (.created newId owner key desired next) }) ∨
    ∃ row, store.owned owner key = some row ∧ (row.recomputed desired = false ∧ store' = store ∨
      ∃ deliveries, store' = { store.setRow (row.upserted desired next) with deliveries := deliveries } ∧
        (deliveries = store.deliveries ∨
          deliveries = store.deliveries.expireOutstanding "superseded_by_upsert" now row.id)) := by
  unfold upsertModuleSchedule at done
  split at done
  next absent =>
    split at done
    · cases done
    split at done
    · cases done
    rename_i free
    obtain ⟨-, rfl⟩ := Prod.mk.inj (Except.ok.inj done)
    rw [Bool.not_eq_true, Option.isSome_eq_false_iff, Option.isNone_iff_eq_none] at free
    exact .inl ⟨absent, free, rfl⟩
  next row owns =>
    refine .inr ⟨row, owns, ?_⟩
    split at done
    next same =>
      obtain ⟨-, rfl⟩ := Prod.mk.inj (Except.ok.inj done)
      rw [Bool.and_eq_true, Bool.not_eq_true'] at same
      exact .inl ⟨same.1, rfl⟩
    next =>
      dsimp only at done
      split at done
      · obtain ⟨-, rfl⟩ := Prod.mk.inj (Except.ok.inj done)
        exact .inr ⟨_, rfl, .inr rfl⟩
      · obtain ⟨-, rfl⟩ := Prod.mk.inj (Except.ok.inj done)
        exact .inr ⟨_, rfl, .inl rfl⟩

namespace ModuleState

section
variable (acc : s.Accounted kernel)
include acc

theorem Accounted.idle (steady : s'.Steady) (store : s'.store = s.store)
    (tried : ∀ k attempt, s'.attempts k = some attempt → kernel.Names attempt.row) (drawn : s.drawn ⊆ s'.drawn)
    (logged : s'.log = s.log) (pending : s'.pending = s.pending) :
    s.Accounts kernel s' [] [] [] := by
  refine .quiet steady ?_ ?_ tried drawn logged pending ?_ ?_
  · rw [store]
    exact acc.sound
  · rw [store]
    exact acc.rows
  · exact Store.Still.mirrored (.refl (congrArg _ store)) _
  · rw [store]
    exact .refl

theorem Accounted.stays (steady : s.Steady) : s.Accounts kernel s [] [] [] :=
  acc.idle steady rfl acc.tried (List.Subset.refl _) rfl rfl

theorem Accounted.upserts {newId owner key : String} {desired : ModuleScheduleDesired} {at_ : Instant}
    (steady : (s.upserts kernel newId owner key desired at_).Steady) :
    ∃ added, s.Accounts kernel (s.upserts kernel newId owner key desired at_) added [] [] := by
  generalize reached : s.upserts kernel newId owner key desired at_ = s' at steady ⊢
  unfold ModuleState.upserts at reached
  split at reached
  · subst reached
    exact ⟨[], acc.stays steady⟩
  rename_i unused
  split at reached
  · subst reached
    exact ⟨[], acc.stays steady⟩
  rename_i next answer
  dsimp only at reached
  split at reached
  · subst reached
    exact ⟨[], acc.idle steady rfl acc.tried (subset_cons_self _ _) rfl rfl⟩
  rename_i outcome store done
  obtain ⟨absent, free, shape⟩ | ⟨row, owns, ⟨still, shape⟩ | ⟨deliveries, shape, which⟩⟩ :=
    Store.upsert_cases done
  · -- a new row
    simp only [absent] at reached
    subst reached shape
    refine ⟨[], .quiet steady acc.sound ?_ acc.tried (subset_cons_self _ _)
      (append_nil _) rfl ?_ .refl⟩
    · have source : Deliveries.From s.store.deliveries s.store.deliveries fun _ => False := .refl
      refine acc.rows_of source (fun id here => ?_) fun _ => False.elim
      dsimp only [ModuleState.withStore, ModuleState.note]
      rw [Table.find_put]
      split
      · rfl
      · exact here
    · intro id after hit
      dsimp only [ModuleState.withStore, ModuleState.note] at hit
      rw [Table.find_put] at hit
      split at hit
      next here =>
        obtain rfl := Option.some.inj hit
        obtain rfl : newId = id := here.symm
        exact .inr ⟨unused, rfl, rfl, rfl⟩
      next => exact .inl ⟨after, hit, fun _ shows => shows⟩
  · simp only [owns, still, Bool.false_eq_true, if_false] at reached
    subst reached shape
    exact ⟨[], acc.idle steady rfl acc.tried (subset_cons_self _ _) (append_nil _) rfl⟩
  · have found : s.store.schedules.find (row.upserted desired (next.map kernel.fmt)).id = some row :=
      Store.owned_find owns
    have sound : deliveries.Sound := by
      obtain rfl | rfl := which
      · exact acc.sound
      · exact acc.sound.expireOutstanding _ _
    have calm : Deliveries.Calm s.store.deliveries deliveries := by
      obtain rfl | rfl := which
      · exact .refl
      · exact .expireOutstanding _ _
    have rows : ∀ d ∈ deliveries.rows, kernel.Names d ∧ (store.schedules.find d.scheduleId).isSome = true := by
      have source : Deliveries.From s.store.deliveries deliveries fun _ => False := by
        obtain rfl | rfl := which
        · exact .refl
        · exact .expire
      subst shape
      exact acc.rows_of source (fun id here => Store.setRow_isSome.trans here) fun _ => False.elim
    simp only [owns] at reached
    cases cleared : row.recomputed desired with
    | false =>
      rw [cleared, if_neg Bool.false_ne_true] at reached
      obtain ⟨-, -, system⟩ := ScheduleRow.not_recomputed cleared
      subst reached shape
      refine ⟨[], .quiet steady sound rows acc.tried (subset_cons_self _ _) (append_nil _) rfl
        (Store.Still.mirrored (.setRow found ?_) _) calm⟩
      intro b shows
      simpa [ScheduleRow.Mirrors, ScheduleRow.upserted, cleared, system] using shows
    | true =>
      rw [cleared, if_pos rfl] at reached
      have closed : (row.upserted desired (next.map kernel.fmt)).Mirrors .closed := by
        simp [ScheduleRow.Mirrors, ScheduleRow.upserted, cleared, Breaker.closed]
      subst reached shape
      exact ⟨_, .resets steady found closed rfl sound rows acc.tried (subset_cons_self _ _) rfl rfl calm⟩

theorem Accounted.tried_update {k : Nat} {attempt : Option Attempt}
    (named : ∀ flying, attempt = some flying → kernel.Names flying.row) :
    ∀ other flying, Function.update s.attempts k attempt other = some flying → kernel.Names flying.row := by
  intro other flying listed
  by_cases here : other = k
  · rw [here, Function.update_self] at listed
    exact named flying listed
  · rw [Function.update_of_ne here] at listed
    exact acc.tried other flying listed

theorem Accounted.setAttempt {k : Nat} {attempt : Option Attempt} (steady : (s.setAttempt k attempt).Steady)
    (named : ∀ flying, attempt = some flying → kernel.Names flying.row) :
    s.Accounts kernel (s.setAttempt k attempt) [] [] [] := by
  exact acc.idle steady rfl (acc.tried_update named) (List.Subset.refl _) rfl rfl

theorem Accounted.resumeWrites {k : Nat} {resume : Resume} {seen : ScheduleRow}
    (steady : (s.resumeWrites kernel k resume seen).Steady) :
    ∃ added, s.Accounts kernel (s.resumeWrites kernel k resume seen) added [] [] := by
  generalize reached : s.resumeWrites kernel k resume seen = s' at steady ⊢
  unfold ModuleState.resumeWrites at reached
  split at reached
  · subst reached
    exact ⟨[], acc.idle steady rfl acc.tried (List.Subset.refl _) rfl rfl⟩
  rename_i next answer
  have unchanged := @Store.setUserSuspended_unchanged s.store (kernel.fmt resume.now) resume.id false
    (next.map kernel.fmt) seen.revision
  split at reached
  next store switched =>
    obtain ⟨row, after, hit, landed, shape⟩ := Store.setUserSuspended_changed (congrArg Prod.snd switched)
    rw [switched, if_neg Bool.false_ne_true] at shape
    obtain ⟨-, same⟩ := ScheduleRow.setUserSuspended_eq_some landed
    have key : after.id = resume.id := by
      have found := Table.find_key hit
      rw [same]
      exact found
    have found : s.store.schedules.find after.id = some row := key ▸ hit
    have closed : after.Mirrors .closed := by
      rw [same]
      exact ⟨rfl, rfl⟩
    have rows : ∀ d ∈ s.store.deliveries.rows,
        kernel.Names d ∧ (store.schedules.find d.scheduleId).isSome = true := by
      have stay : ∀ id, (s.store.schedules.find id).isSome = true → (store.schedules.find id).isSome = true := by
        intro id here
        dsimp only at shape
        rw [shape]
        exact Store.setRow_isSome.trans here
      have source : Deliveries.From s.store.deliveries s.store.deliveries fun _ => False := .refl
      exact acc.rows_of source stay fun _ => False.elim
    rw [← key] at reached
    subst reached
    exact ⟨_, .resets steady found closed shape acc.sound rows acc.tried (List.Subset.refl _) rfl rfl .refl⟩
  next store missed =>
    rw [missed] at unchanged
    subst reached
    exact ⟨[], acc.idle steady (unchanged (by simp)) acc.tried (List.Subset.refl _) rfl rfl⟩
  next store missed =>
    rw [missed] at unchanged
    subst reached
    exact ⟨[], acc.idle steady (unchanged (by simp)) acc.tried (List.Subset.refl _) rfl rfl⟩

theorem Accounted.tickAdvances {k : Nat} {tick : ModuleTick} {installed : Bool}
    (steady : (s.tickAdvances kernel k tick installed).Steady) :
    s.Accounts kernel (s.tickAdvances kernel k tick installed) [] [] [] := by
  generalize reached : s.tickAdvances kernel k tick installed = s' at steady ⊢
  unfold ModuleState.tickAdvances at reached
  dsimp only at reached
  split at reached
  next owner key next _ answers =>
    split at reached
    · subst reached
      exact acc.idle steady rfl acc.tried (List.Subset.refl _) rfl rfl
    rename_i store done
    have quiet := Store.advance_quiet done
    subst reached
    refine .quiet steady (quiet.sound acc.sound) (acc.rows_of quiet.source quiet.stay ?_) acc.tried
      (List.Subset.refl _) rfl rfl (quiet.still.mirrored _) quiet.calm
    rintro d ⟨f, given, fire, schedule, exists_⟩
    split at given
    · obtain rfl := Option.some.inj given
      rw [schedule]
      exact ⟨⟨.tick, tick.due, fire.trans (by rw [schedule])⟩, quiet.stay _ exists_⟩
    · exact nomatch given
  next =>
    subst reached
    exact acc.idle steady rfl acc.tried (List.Subset.refl _) rfl rfl

end

end ModuleState
end Signalling

section Outcomes
variable {kernel : Kernel} {s s' : ModuleState} {row : ScheduleRow} {now : String} {b : Breaker}

theorem applyOutcome_delivered {status : DeliveryStatus} {attempts : Nat} {outcome : FireOutcome} {at_ : Instant}
    {w : Applied} (applied : applyOutcome status attempts outcome at_ = .ok w) :
    (w.status = .delivered ∧ w.resetScheduleFailures = true ∧ w.countScheduleFailure = false ∧
      w.emitDelivered = true) ∨
    (w.status ≠ .delivered ∧ w.resetScheduleFailures = false ∧ w.emitDelivered = false) := by
  have failed : ∀ reason, failedAttempt attempts reason at_ = w →
      w.status ≠ .delivered ∧ w.resetScheduleFailures = false ∧ w.emitDelivered = false := by
    rintro reason rfl
    unfold failedAttempt
    dsimp only
    split <;> simp
  unfold applyOutcome at applied
  split at applied
  · exact nomatch applied
  cases outcome with
  | agentRun runId => exact .inr (failed _ (Except.ok.inj applied))
  | moduleDelivered fireId =>
    rw [← Except.ok.inj applied]
    exact .inl ⟨rfl, rfl, rfl, rfl⟩
  | deferred reason =>
    dsimp only at applied
    split at applied
    · exact nomatch applied
    · rw [← Except.ok.inj applied]
      exact .inr ⟨nofun, rfl, rfl⟩
  | failed reason => exact .inr (failed _ (Except.ok.inj applied))

theorem Deliveries.holds_applyWrite {cal : Calendar} {t t' : Deliveries} {fireId : String} {seenAttempts : Nat}
    {w : Applied} {d : Delivery} (landed : t.applyWrite cal fireId seenAttempts w now = some (d, t'))
    (fire : String) :
    t'.holds fire + (ModuleState.droppedRows t t').countP (ModuleEvent.drops fire) =
      t.holds fire + if w.status = .delivered ∧ fireId = fire then 1 else 0 := by
  obtain ⟨found, outstanding, -, rfl⟩ := applyWrite_eq_some landed
  rw [drops_dropped]
  unfold Deliveries.holds
  rw [Table.find_update]
  by_cases here : fireId = fire
  · subst here
    have key := Table.find_key found
    have open_ : d.status ≠ .delivered := by
      rintro delivered
      simp [Delivery.outstanding, delivered, DeliveryStatus.isTerminal] at outstanding
    simp [found, key, open_, Delivery.write]
  · cases hit : t.find fire with
    | none => simp [here]
    | some other =>
      have key := Table.find_key hit
      have apart : other.fireId ≠ fireId := fun same => here (same.symm.trans key)
      simp [apart, here]

theorem ScheduleRow.countFailure_id (limit : Nat) : (row.countFailure limit).1.id = row.id := by
  unfold countFailure
  dsimp only
  split <;> rfl

theorem ScheduleRow.countFailure_mirrors (limit : Nat) (shows : row.Mirrors b) :
    (row.countFailure limit).1.Mirrors (b.signal limit .failure) ∧
      (row.countFailure limit).2 = (!b.tripped && (b.signal limit .failure).tripped) := by
  obtain ⟨failures, disabled⟩ := shows
  cases tripped : b.tripped with
  | true =>
    rw [tripped, Option.isSome_iff_ne_none] at disabled
    have counted : row.countFailure limit = ({ row with consecutiveFailures := row.consecutiveFailures + 1 }, false) :=
      if_neg fun both => disabled both.2
    rw [counted]
    exact ⟨⟨congrArg (· + 1) failures, by simp [Breaker.signal, tripped, Option.isSome_iff_ne_none, disabled]⟩, rfl⟩
  | false =>
    rw [tripped, Option.isSome_eq_false_iff, Option.isNone_iff_eq_none] at disabled
    unfold countFailure
    dsimp only
    by_cases reached : limit ≤ row.consecutiveFailures + 1
    · rw [if_pos ⟨reached, disabled⟩]
      rw [failures] at reached
      exact ⟨⟨congrArg (· + 1) failures, by simp [Breaker.signal, reached]⟩, by simp [Breaker.signal, reached]⟩
    · rw [if_neg fun both => reached both.1]
      rw [failures] at reached
      exact ⟨⟨congrArg (· + 1) failures, by simp [Breaker.signal, reached, tripped, disabled]⟩,
        by simp [Breaker.signal, reached, tripped]⟩

theorem ModuleState.Accounted.pumpApplies (acc : s.Accounted kernel) {k : Nat} {read : Delivery}
    {outcome : FireOutcome} {at_ : Instant} (named : kernel.Names read)
    (steady : (s.pumpApplies kernel k read outcome at_).Steady) :
    ∃ added bodies, s.Accounts kernel (s.pumpApplies kernel k read outcome at_) added bodies [] := by
  have clear : ∀ flying, (none : Option Attempt) = some flying → kernel.Names flying.row := by
    intro flying never
    cases never
  have tried := acc.tried_update (k := k) clear
  generalize reached : s.pumpApplies kernel k read outcome at_ = s' at steady ⊢
  unfold ModuleState.pumpApplies at reached
  split at reached
  · subst reached
    exact ⟨[], [], acc.setAttempt steady clear⟩
  rename_i w applied
  split at reached
  · subst reached
    exact ⟨[], [], acc.setAttempt steady clear⟩
  rename_i store disabled done
  unfold Store.applyDeliveryOutcome at done
  split at done
  · exact nomatch done
  rename_i d deliveries landed
  obtain ⟨found, -, -, shape⟩ := Deliveries.applyWrite_eq_some landed
  obtain ⟨names, exists_⟩ := acc.rows d (Table.find_eq_some.mp found).1
  obtain ⟨row, hit⟩ := Option.isSome_iff_exists.mp exists_
  -- the row that was read may have changed, but not the schedule it belongs to
  have schedule : d.scheduleId = read.scheduleId := names.schedule named (Table.find_key found)
  have key : row.id = read.scheduleId := (Table.find_key hit).trans schedule
  have sound : deliveries.Sound := acc.sound.applyWrite applied landed
  have source : Deliveries.From s.store.deliveries deliveries fun _ => False := by
    rw [shape]
    exact .update fun _ => rfl
  have held := Deliveries.holds_applyWrite landed
  rw [schedule] at done hit
  obtain ⟨delivered, resets, counts, announces⟩ | ⟨undelivered, resets, silent⟩ :=
    applyOutcome_delivered applied
  · simp only [Store.countOutcome, Store.resetFailures, resets, counts, hit, if_true, Bool.false_eq_true,
      if_false] at done
    obtain ⟨rfl, rfl⟩ := Prod.mk.inj (Option.some.inj done)
    rw [resets, if_pos rfl] at reached
    let cleared : ScheduleRow := { row with consecutiveFailures := 0 }
    have here : cleared.id = read.scheduleId := key
    have found' : s.store.schedules.find cleared.id = some row := here ▸ hit
    have rows : ∀ d ∈ deliveries.rows,
        kernel.Names d ∧ ((s.store.setRow cleared).schedules.find d.scheduleId).isSome = true :=
      acc.rows_of source (fun _ here => Store.setRow_isSome.trans here) fun _ => False.elim
    subst reached
    refine ⟨_, eventsOf read w false, .signalled steady found' rfl ?_ ?_
      (fun _ => ⟨rfl, rfl⟩) sound rows tried (List.Subset.refl _) rfl rfl (.applyWrite landed) ?_ ?_⟩
    · intro b shows
      rw [signals_delivered, if_pos here.symm, eventsOf, announces, if_pos rfl]
      refine ⟨⟨rfl, shows.2⟩, ?_⟩
      simp [EventBody.disables, Breaker.tripsFrom, Breaker.signal]
    · intro id apart
      rw [signals_delivered, if_neg fun same => apart (same.symm.trans here.symm), eventsOf, announces,
        if_pos rfl]
      exact ⟨rfl, rfl⟩
    · intro fire
      rw [eventsOf, announces, if_pos rfl]
      rfl
    · intro fire
      refine ⟨rfl, (held fire).trans ?_⟩
      by_cases same : read.fireId = fire <;> simp [ModuleEvent.lands, delivered, same]
  · have calm : Deliveries.Calm s.store.deliveries deliveries := .applyWrite landed undelivered
    cases counts : w.countScheduleFailure with
    | false =>
      simp only [Store.countOutcome, resets, counts, Bool.false_eq_true, if_false] at done
      obtain ⟨rfl, rfl⟩ := Prod.mk.inj (Option.some.inj done)
      simp only [eventsOf, silent, resets, counts, Bool.false_eq_true, if_false] at reached
      subst reached
      exact ⟨[], [], .quiet steady sound (acc.rows_of source (fun _ here => here) fun _ => False.elim) tried
        (List.Subset.refl _) (append_nil _) (append_nil _) (Store.Still.mirrored (.refl rfl) _) calm⟩
    | true =>
      simp only [Store.countOutcome, Store.countFailure, resets, counts, hit, if_true, Bool.false_eq_true,
        if_false] at done
      obtain ⟨rfl, rfl⟩ := Prod.mk.inj (Option.some.inj done)
      rw [resets, counts, if_neg Bool.false_ne_true, if_pos rfl] at reached
      let counted := (row.countFailure maxConsecutiveFailures).1
      have here : counted.id = read.scheduleId :=
        (ScheduleRow.countFailure_id _).trans key
      have found' : s.store.schedules.find counted.id = some row := here ▸ hit
      have rows : ∀ d ∈ deliveries.rows,
          kernel.Names d ∧ ((s.store.setRow counted).schedules.find d.scheduleId).isSome = true :=
        acc.rows_of source (fun _ here => Store.setRow_isSome.trans here) fun _ => False.elim
      subst reached
      refine ⟨_, eventsOf read w _, .signalled steady found' rfl ?_ ?_
        (fun _ => ⟨rfl, rfl⟩) sound rows tried (List.Subset.refl _) rfl rfl (.applyWrite landed) ?_
        (fun _ => ⟨rfl, calm.holds⟩)⟩
      · intro b shows
        obtain ⟨moves, answer⟩ := ScheduleRow.countFailure_mirrors maxConsecutiveFailures shows
        rw [signals_failed, if_pos here.symm, eventsOf, silent, if_neg Bool.false_ne_true, answer]
        refine ⟨moves, ?_⟩
        cases tripped : !b.tripped && (b.signal maxConsecutiveFailures .failure).tripped <;>
          simp [EventBody.disables, Breaker.tripsFrom, tripped, here]
      · intro id apart
        have other : read.scheduleId ≠ id := fun same => apart (same.symm.trans here.symm)
        rw [signals_failed, if_neg other, eventsOf, silent, if_neg Bool.false_ne_true]
        refine ⟨rfl, ?_⟩
        split <;> simp [EventBody.disables, other]
      · intro fire
        rw [eventsOf, silent, if_neg Bool.false_ne_true]
        split <;> rfl

theorem ModuleState.Accounted.emits (acc : s.Accounted kernel) {body : EventBody} {rest : List EventBody}
    (queued : s.pending = body :: rest) :
    s.Accounts kernel ({ s with pending := rest }.note [.emitted body]) [.emitted body] [] [] where
  sound := acc.sound
  rows := acc.rows
  tried := acc.tried
  drawn := ⟨List.Subset.refl _, acc.drawn⟩
  logged := rfl
  lost _ := rfl
  frozen := .refl
  mirrored := Store.Still.mirrored (.refl rfl) _
  single _ := Nat.zero_le _
  heard _ _ := rfl
  out p := by
    cases counts : p body <;>
      simp only [ModuleState.out, ModuleState.note, queued, countP_append, countP_cons, countP_nil,
        ModuleEvent.emits, ModuleEvent.loses, counts, if_true, Bool.false_eq_true, if_false] <;>
      omega
  trips _ _ _ := rfl
  landed _ := rfl
  held _ := ⟨rfl, Deliveries.Calm.refl.holds⟩

theorem countP_lost {p : ModuleEvent → Bool} {bodies : List EventBody} :
    (bodies.map ModuleEvent.lost).countP p = bodies.countP fun body => p (.lost body) := by
  rw [countP_map]
  rfl

theorem signals_lost {id : String} {bodies : List EventBody} : signals id (bodies.map ModuleEvent.lost) = [] := by
  rw [signals, filterMap_map]
  exact filterMap_eq_nil_iff.mpr fun _ _ => rfl

theorem countP_nothing {bodies : List EventBody} : bodies.countP (fun _ => false) = 0 :=
  countP_eq_zero.mpr fun _ _ => Bool.false_ne_true

theorem ModuleState.Accounted.restarts (acc : s.Accounted kernel) :
    s.Accounts kernel (s.act kernel .restarts) (s.pending.map .lost) [] s.pending where
  sound := acc.sound
  rows := acc.rows
  tried _ attempt flying := absurd flying.symm (Option.some_ne_none attempt)
  drawn := ⟨List.Subset.refl _, acc.drawn⟩
  logged := rfl
  lost _ := countP_lost
  frozen := .refl
  mirrored := by
    intro id after hit
    refine .inl ⟨after, hit, fun b shows => ?_⟩
    rw [signals_lost]
    exact shows
  single _ := by
    rw [signals_lost]
    exact Nat.zero_le _
  heard _ _ := signals_lost
  out p := by
    have emitted : (s.pending.map .lost).countP (ModuleEvent.emits p) = 0 := countP_lost.trans countP_nothing
    have lost : (s.pending.map .lost).countP (ModuleEvent.loses p) = s.pending.countP p := countP_lost
    simp only [ModuleState.act, ModuleState.out, ModuleState.note, countP_append, emitted, lost,
      countP_nil]
    omega
  trips _ _ _ := by
    rw [signals_lost]
    rfl
  landed _ := countP_lost.trans countP_nothing
  held fireId := by
    have landed : (s.pending.map .lost).countP (ModuleEvent.lands fireId) = 0 := countP_lost.trans countP_nothing
    rw [landed]
    exact ⟨countP_lost.trans countP_nothing, Deliveries.Calm.refl.holds⟩

def ModuleState.losing (s : ModuleState) : ModuleStep → List EventBody
  | .restarts => s.pending
  | _ => []

def ModuleState.Beside (s s' : ModuleState) : Prop :=
  ∃ ticks resumes, s' = { s with ticks := ticks, resumes := resumes }

theorem ModuleState.Accounted.beside (acc : s.Accounted kernel) (steady : s'.Steady) (beside : s.Beside s') :
    s.Accounts kernel s' [] [] [] := by
  obtain ⟨ticks, resumes, rfl⟩ := beside
  exact acc.idle steady rfl acc.tried (List.Subset.refl _) rfl rfl

theorem ModuleState.Accounted.act (acc : s.Accounted kernel) (steady : s.Steady) (i : ModuleStep) :
    ∃ added bodies, s.Accounts kernel (s.act kernel i) added bodies (s.losing i) := by
  have after : (s.act kernel i).Steady := steady.act i
  have stays : s.Beside s := ⟨_, _, rfl⟩
  cases i with
  | upserts =>
    obtain ⟨added, owed⟩ := acc.upserts after
    exact ⟨added, [], owed⟩
  | deletesKey owner key => exact ⟨[], [], acc.delete _ after⟩
  | deletes id => exact ⟨[], [], acc.delete _ after⟩
  | suspends id now =>
    simp only [ModuleState.act, ModuleState.suspends] at after ⊢
    split at after
    · exact ⟨[], [], acc.stays steady⟩
    rename_i row _
    have quiet := @Store.suspend_quiet s.store (kernel.fmt now) id none row.revision fun _ => False
    exact ⟨[], [], acc.withStore quiet after fun _ => False.elim⟩
  | resumeReads =>
    refine ⟨[], [], acc.beside after ?_⟩
    simp only [ModuleState.act]
    split
    · split
      · exact ⟨_, _, rfl⟩
      · exact stays
    · exact stays
  | resumeRereads k =>
    refine ⟨[], [], acc.beside after ?_⟩
    simp only [ModuleState.act]
    split
    · split
      · exact stays
      · split <;> exact ⟨_, _, rfl⟩
    · exact stays
  | resumeWrites k =>
    simp only [ModuleState.act] at after ⊢
    split at after
    next resume flying =>
      split at after
      next seen _ =>
        obtain ⟨added, owed⟩ := acc.resumeWrites after
        exact ⟨added, [], owed⟩
      · exact ⟨[], [], acc.stays steady⟩
    · exact ⟨[], [], acc.stays steady⟩
  | tickReads =>
    refine ⟨[], [], acc.beside after ?_⟩
    simp only [ModuleState.act, ModuleState.tickReads]
    split
    · exact stays
    split
    · exact stays
    split
    · exact stays
    split
    · exact ⟨_, _, rfl⟩
    · exact stays
  | tickAdvances k installed =>
    simp only [ModuleState.act] at after ⊢
    split at after
    · exact ⟨[], [], acc.tickAdvances after⟩
    · exact ⟨[], [], acc.stays steady⟩
  | runsNow id now =>
    simp only [ModuleState.act, ModuleState.runsNow] at after ⊢
    split at after
    · exact ⟨[], [], acc.stays steady⟩
    rename_i store done
    have quiet := Store.runNow_quiet done
    refine ⟨[], [], acc.withStore quiet after ?_⟩
    rintro d ⟨fire, schedule, exists_⟩
    rw [schedule]
    exact ⟨⟨.runNow, now, fire.trans (by rw [schedule])⟩, quiet.stay _ exists_⟩
  | pumpReads =>
    simp only [ModuleState.act, ModuleState.pumpReads] at after ⊢
    split at after
    · exact ⟨[], [], acc.stays steady⟩
    rename_i d hit
    split at after
    next ready =>
      rw [if_pos ready]
      refine ⟨[], [], acc.setAttempt after ?_⟩
      rintro _ ⟨⟩
      exact (acc.rows d (Table.find_eq_some.mp hit).1).1
    next waits =>
      rw [if_neg waits]
      exact ⟨[], [], acc.stays steady⟩
  | pumpTriggers k outcome =>
    simp only [ModuleState.act] at after ⊢
    split at after
    next row flying =>
      have named := acc.tried k _ flying
      exact ⟨[], [], acc.setAttempt after fun _ same => by rwa [← Option.some.inj same]⟩
    · exact ⟨[], [], acc.stays steady⟩
  | pumpApplies k now =>
    simp only [ModuleState.act] at after ⊢
    split at after
    next row outcome flying => exact acc.pumpApplies (acc.tried k _ flying) after
    · exact ⟨[], [], acc.stays steady⟩
  | emits =>
    simp only [ModuleState.act] at after ⊢
    split at after
    next body rest queued => exact ⟨_, [], acc.emits queued⟩
    · exact ⟨[], [], acc.stays steady⟩
  | sweeps now =>
    have quiet := @Store.sweep_quiet s.store (kernel.fmt now) fun _ => False
    exact ⟨[], [], acc.withStore quiet after fun _ => False.elim⟩
  | restarts => exact ⟨_, [], acc.restarts⟩

theorem ModuleState.Accounted.step (acc : s.Accounted kernel) (steady : s.Steady) (i : ModuleStep) :
    (s.step kernel i).Accounted kernel := by
  obtain ⟨added, bodies, owed⟩ := acc.act steady i
  exact acc.settle owed

theorem ModuleState.Accounted.start : ModuleState.start.Accounted kernel where
  sound := ⟨fun _ _ => Nat.zero_le _, fun _ _ => Nat.zero_le _, fun _ member => absurd member not_mem_nil⟩
  rows _ member := absurd member not_mem_nil
  tried _ attempt flying := absurd flying.symm (Option.some_ne_none attempt)
  drawn _ exists_ := by cases exists_
  silent _ _ := rfl
  mirrors _ row hit := absurd hit.symm (Option.some_ne_none row)
  announced _ := rfl
  reported _ := rfl
  once _ := rfl

end Outcomes

section Disabling
variable {kernel : Kernel} {s s' : ModuleState}

def ModuleState.disabled (s : ModuleState) (id : String) : Bool :=
  (s.store.schedules.find id).any fun row => row.systemDisabledReason.isSome

def disablements (kernel : Kernel) (id : String) : ModuleState → List ModuleStep → Nat
  | _, [] => 0
  | s, i :: rest =>
    let s' := s.step kernel i
    (if !s.disabled id && s'.disabled id then 1 else 0) + disablements kernel id s' rest

theorem ModuleState.Accounts.disables {added : List ModuleEvent} {bodies lost : List EventBody}
    {b : Breaker} (owed : s.Accounts kernel s' added bodies lost) (id : String)
    (shows : ∀ row, s.store.schedules.find id = some row → row.Mirrors b) :
    Breaker.tripsFrom maxConsecutiveFailures b (signals id added) =
      if !s.disabled id && s'.disabled id then 1 else 0 := by
  unfold ModuleState.disabled
  cases hit : s'.store.schedules.find id with
  | none =>
    rw [owed.heard id (.inr (by rw [hit]; rfl))]
    simp [Breaker.tripsFrom]
  | some after =>
    obtain ⟨row, found, moves⟩ | ⟨-, quiet, closed⟩ := owed.mirrored id after hit
    · have before := shows row found
      rw [Breaker.tripsFrom_short (owed.single id), found, Option.any_some, Option.any_some, before.2,
        (moves b before).2]
    · rw [quiet, Option.any_some, closed.2]
      simp [Breaker.tripsFrom, Breaker.closed]

theorem ModuleState.Accounted.transitions_step (acc : s.Accounted kernel) (steady : s.Steady) (i : ModuleStep)
    (id : String) :
    transitions id (s.step kernel i).log =
      transitions id s.log + if !s.disabled id && (s.step kernel i).disabled id then 1 else 0 := by
  obtain ⟨added, bodies, owed⟩ := acc.act steady i
  have disables := owed.disables id (acc.mirrors id)
  unfold transitions ModuleState.step ModuleState.note
  dsimp only
  rw [signals_append, signals_dropped, append_nil, owed.logged, signals_append, Breaker.trips_append]
  exact congrArg _ disables

theorem ModuleState.Accounted.transitions_run (steps : List ModuleStep) (acc : s.Accounted kernel)
    (steady : s.Steady) (id : String) :
    transitions id (run (ModuleState.step kernel) steps s).log =
      transitions id s.log + disablements kernel id s steps := by
  induction steps generalizing s with
  | nil => rfl
  | cons i rest ih =>
    rw [run_cons, ih (acc.step steady i) (steady.step i), acc.transitions_step steady i id]
    exact Nat.add_assoc ..

theorem ModuleState.Accounted.disabled_iff (acc : s.Accounted kernel) (steady : s.Steady) (i : ModuleStep)
    {id : String} {row : ScheduleRow} (found : s.store.schedules.find id = some row)
    (standing : row.systemDisabledReason = none) :
    (s.step kernel i).disabled id = true ↔
      failuresSince id (s.step kernel i).log = maxConsecutiveFailures := by
  obtain ⟨added, bodies, owed⟩ := acc.act steady i
  have closed : (Breaker.after maxConsecutiveFailures (signals id s.log)).tripped = false := by
    rw [← (acc.mirrors id row found).2, standing]
    rfl
  have heard : signals id (s.step kernel i).log = signals id s.log ++ signals id added := by
    unfold ModuleState.step ModuleState.note
    dsimp only
    rw [signals_append, signals_dropped, append_nil, owed.logged, signals_append]
  unfold failuresSince
  rw [heard, ← Breaker.trips_iff_short (by decide) closed (owed.single id)]
  show ((s.act kernel i).store.schedules.find id).any _ = true ↔ _
  cases hit : (s.act kernel i).store.schedules.find id with
  | none =>
    rw [owed.heard id (.inr (by rw [hit]; rfl)), append_nil, closed]
    exact Iff.rfl
  | some after =>
    have later := (acc.step steady i).mirrors id after hit
    rw [heard] at later
    rw [Option.any_some, later.2]

theorem ModuleState.Accounted.loses_run (steps : List ModuleStep) (acc : s.Accounted kernel) (steady : s.Steady)
    (stays : ModuleStep.restarts ∉ steps) (p : EventBody → Bool) :
    (run (ModuleState.step kernel) steps s).log.countP (ModuleEvent.loses p) =
      s.log.countP (ModuleEvent.loses p) := by
  induction steps generalizing s with
  | nil => rfl
  | cons i rest ih =>
    obtain ⟨later, here⟩ : ModuleStep.restarts ∉ rest ∧ i ≠ .restarts :=
      ⟨fun member => stays (mem_cons_of_mem i member), fun same => stays (same ▸ mem_cons_self)⟩
    obtain ⟨added, bodies, owed⟩ := acc.act steady i
    have nothing : s.losing i = [] := by
      cases i <;> first | rfl | exact absurd rfl here
    have lost := owed.lost p
    rw [nothing, countP_nil] at lost
    rw [run_cons, ih (acc.step steady i) (steady.step i) later]
    unfold ModuleState.step ModuleState.note
    dsimp only
    rw [owed.logged, countP_append, countP_append, countP_dropped fun _ => rfl, lost]
    rfl

end Disabling

section Sources
variable {kernel : Kernel} {s : ModuleState}

def ModuleStep.source : ModuleStep → Option FireTrigger
  | .tickAdvances .. => some .tick
  | .runsNow .. => some .runNow
  | _ => none

theorem Store.mem_advance_apart {store store' : Store} {id due now : String} {seenRevision : Nat}
    {next : Option String} {fire : Option NewFire} {d : Delivery}
    (done : store.advanceAndRecordFire id seenRevision due next now fire = some store')
    (apart : ∀ f, fire = some f → d.fireTrigger ≠ f.trigger) :
    d ∈ store'.deliveries.rows ↔ d ∈ store.deliveries.rows := by
  unfold advanceAndRecordFire at done
  split at done
  · exact nomatch done
  split at done
  · exact nomatch done
  dsimp only at done
  split at done
  next owner key f _ =>
    rw [← Option.some.inj done]
    refine Deliveries.mem_recordFire_apart (Bool.eq_false_iff.mpr fun same => apart f rfl ?_)
    exact (Delivery.of_eq.mp same).2
  next =>
    rw [← Option.some.inj done]
    exact Iff.rfl

theorem ModuleState.mem_step_apart {i : ModuleStep} {trigger : FireTrigger} {d : Delivery}
    (records : i.source = some trigger) (apart : d.fireTrigger ≠ trigger) :
    d ∈ (s.step kernel i).store.deliveries.rows ↔ d ∈ s.store.deliveries.rows := by
  show d ∈ (s.act kernel i).store.deliveries.rows ↔ _
  cases i with
  | tickAdvances k installed =>
    obtain rfl := Option.some.inj records
    simp only [ModuleState.act]
    split
    next tick flying =>
      unfold ModuleState.tickAdvances
      dsimp only
      split
      · split
        · exact Iff.rfl
        rename_i store done
        refine Store.mem_advance_apart done ?_
        intro f given
        split at given
        · rw [← Option.some.inj given]
          exact apart
        · cases given
      · exact Iff.rfl
    · exact Iff.rfl
  | runsNow id now =>
    obtain rfl := Option.some.inj records
    simp only [ModuleState.act, ModuleState.runsNow, Store.recordRunNowFire]
    split
    · exact Iff.rfl
    rename_i store done
    split at done
    · cases done
    · rw [← Option.some.inj done]
      exact Deliveries.mem_recordFire_apart (Bool.eq_false_iff.mpr fun same => apart (Delivery.of_eq.mp same).2)
  | _ => cases records

end Sources

section Samples

theorem digit_ne_nul : ∀ n < 10, '\x00' ≠ digit n := by decide

theorem sampleCalendar_clean (t : Instant) : '\x00' ∉ (sampleCalendar.fmt t).toList := by
  dsimp only [sampleCalendar]
  split
  next near =>
    rw [String.toList_ofList]
    have day : 4 + (t.secs - dayStart).toNat / 86_400 < 10 := by omega
    have digits : ∀ n, '\x00' ≠ digit (n % 60 / 10) ∧ '\x00' ≠ digit (n % 10) ∧
        '\x00' ≠ digit (n % 24 / 10) ∧ '\x00' ≠ digit (n % 24 % 10) := by
      intro n
      exact ⟨digit_ne_nul _ (by omega), digit_ne_nul _ (by omega), digit_ne_nul _ (by omega),
        digit_ne_nul _ (by omega)⟩
    simp [clockText, digits, digit_ne_nul _ day]
  · split
    · simp only [unary, String.toList_ofList, mem_cons, mem_replicate, not_or]
      refine ⟨?_, fun both => absurd both.2 (by decide)⟩
      split <;> split <;> decide
    · simp

def sampleKernel : Kernel where
  toCalendar := sampleCalendar
  digest := id
  digest_injective := Function.injective_id
  fmt_clean := sampleCalendar_clean

/-- So many seconds into the first day of the sample calendar. -/
def morning (n : Nat) : Instant := ⟨dayStart + n, 0, .inl (by decide)⟩

def hourly : ModuleScheduleDesired := ⟨.every 3600, true, "hourly"⟩

def sampleFire (n : Nat) : String := sampleKernel.fireId .runNow "sch_1" (morning n)

def attemptAt (fire n : Nat) (outcome : FireOutcome) : List ModuleStep :=
  [.pumpReads 0 (sampleFire fire) (morning n), .pumpTriggers 0 outcome, .pumpApplies 0 (morning n)]

/-- A `run_now` whose three attempts fail. -/
def failingFire (n : Nat) : List ModuleStep :=
  .runsNow "sch_1" (morning n) ::
    (attemptAt n n (.failed "down") ++ attemptAt n (n + 5) (.failed "down") ++ attemptAt n (n + 20) (.failed "down"))

/-- A `run_now` that is delivered and announced. -/
def deliveredFire (n : Nat) : List ModuleStep :=
  .runsNow "sch_1" (morning n) :: (attemptAt n n (.moduleDelivered (sampleFire n)) ++ [.emits])

def installing : ModuleStep := .upserts "sch_1" "mail" "digest" hourly (morning 0)

def restartBeforeEmit : List ModuleStep :=
  installing :: ([100, 200, 300, 400, 500].flatMap failingFire ++ [.restarts, .emits])

/-- A delivered fire that later ones prune, and a second `run_now` of the same instant that is slow to
record its own. -/
def slowRunNow : List ModuleStep :=
  installing :: ([100, 200, 300, 400, 500].flatMap deliveredFire ++
    [.runsNow "sch_1" (morning 600), .runsNow "sch_1" (morning 100)] ++
    attemptAt 100 700 (.moduleDelivered (sampleFire 100)) ++ [.emits])

end Samples

end Agent24.Scheduler
