import Mathlib.Data.List.Sort
import Agent24.Library.Table
import Agent24.Scheduler.Row

/-! `schedule_deliveries`: what one attempt's outcome means, and the statements that record, retire
and prune fires. -/

set_option autoImplicit false
namespace Agent24.Scheduler
open Library

inductive FireTrigger where
  | tick | runNow
  deriving DecidableEq

def FireTrigger.text : FireTrigger → String
  | .tick => "tick"
  | .runNow => "run_now"

inductive DeliveryStatus where
  | pending | deferred | delivered | failed | expired
  deriving DecidableEq

def DeliveryStatus.isTerminal : DeliveryStatus → Bool
  | .pending | .deferred => false
  | .delivered | .failed | .expired => true

structure Delivery where
  fireId : String
  scheduleId : String
  ownerModule : String
  moduleKey : String
  scheduledFor : String
  firedAt : String
  fireTrigger : FireTrigger
  status : DeliveryStatus
  attempts : Nat
  nextAttemptAt : Option String
  expiresAt : String
  lastError : Option String
  createdAt : String
  updatedAt : String

abbrev Deliveries := Table Delivery.fireId

/-- `status IN ('pending', 'deferred')`. -/
def Delivery.outstanding (d : Delivery) : Bool := !d.status.isTerminal

/-- `schedule_id = ? AND fire_trigger = ?`. -/
def Delivery.of (d : Delivery) (scheduleId : String) (trigger : FireTrigger) : Bool :=
  d.scheduleId == scheduleId && d.fireTrigger == trigger

def maxSentAttempts : Nat := 3

/-- `RETRY_BACKOFF`, in seconds. -/
def retryBackoff : List Nat := [5, 15]

structure Applied where
  status : DeliveryStatus
  attempts : Nat
  nextAttemptAt : Option Instant
  lastError : Option String
  countScheduleFailure : Bool
  resetScheduleFailures : Bool
  emitDelivered : Bool

inductive NotApplied where
  | alreadyTerminal | noChange

/-- The wait before the next attempt, when `sent` have been made. -/
def backoff (sent : Nat) : Nat := (retryBackoff[sent - 1]?).getD (retryBackoff.getLastD 0)

/-- `saturating_add(1)` on a `u32`. -/
def countAttempt (attempts : Nat) : Nat := min (attempts + 1) (2 ^ 32 - 1)

def failedAttempt (attempts : Nat) (reason : String) (now : Instant) : Applied :=
  let sent := countAttempt attempts
  if maxSentAttempts ≤ sent then ⟨.failed, sent, none, some reason, true, false, false⟩
  else ⟨.pending, sent, some (now.plus (backoff sent)), some reason, false, false, false⟩

def applyOutcome (status : DeliveryStatus) (attempts : Nat) (outcome : FireOutcome) (now : Instant) :
    Except NotApplied Applied :=
  if status.isTerminal then .error .alreadyTerminal
  else match outcome with
  | .moduleDelivered _ => .ok ⟨.delivered, countAttempt attempts, none, none, false, true, true⟩
  | .deferred reason =>
    if status = .deferred then .error .noChange
    -- nothing was sent, so no attempt is counted
    else .ok ⟨.deferred, attempts, some now, some reason.text, false, false, false⟩
  | .failed reason => .ok (failedAttempt attempts reason now)
  | .agentRun _ =>
    .ok (failedAttempt attempts "kernel bug: agent-run outcome for a module delivery" now)

structure NewFire where
  fireId : String
  scheduleId : String
  ownerModule : String
  moduleKey : String
  scheduledFor : String
  firedAt : String
  trigger : FireTrigger
  expiresAt : String

/-- The row that the `INSERT` of `record_fire_in` makes. -/
def NewFire.delivery (f : NewFire) (now : String) : Delivery where
  fireId := f.fireId
  scheduleId := f.scheduleId
  ownerModule := f.ownerModule
  moduleKey := f.moduleKey
  scheduledFor := f.scheduledFor
  firedAt := f.firedAt
  fireTrigger := f.trigger
  status := .pending
  attempts := 0
  nextAttemptAt := some now
  expiresAt := f.expiresAt
  lastError := none
  createdAt := now
  updatedAt := now

def Delivery.expire (reason now : String) (d : Delivery) : Delivery :=
  { d with status := .expired, nextAttemptAt := none, lastError := some reason, updatedAt := now }

theorem Delivery.expire_fireId (reason now : String) (d : Delivery) :
    (d.expire reason now).fireId = d.fireId := rfl

def keepTerminalPerSource : Nat := 4

namespace Deliveries

section
variable (t : Deliveries)

/-- Terminal rows of one source, the newest first; rows stand in the order of their `rowid`. -/
def newest (scheduleId : String) (trigger : FireTrigger) : List Delivery :=
  (t.rows.reverse.filter fun d => d.of scheduleId trigger && !d.outstanding).insertionSort
    fun a b => b.updatedAt ≤ a.updatedAt

/-- What `PRUNE_TERMINAL_SQL` deletes. -/
def pruned (scheduleId : String) (trigger : FireTrigger) (d : Delivery) : Bool :=
  let kept := ((t.newest scheduleId trigger).take keepTerminalPerSource).map Delivery.fireId
  d.of scheduleId trigger && !d.outstanding && decide (d.fireId ∉ kept)

def prune (scheduleId : String) (trigger : FireTrigger) : Deliveries :=
  t.deleteWhere (t.pruned scheduleId trigger)

/-- The two statements of `record_fire_in` that retire older fires of the same source. -/
def supersede (f : NewFire) (now : String) : Deliveries :=
  let older := fun d : Delivery => d.of f.scheduleId f.trigger && d.outstanding && d.fireId != f.fireId
  (t.deleteWhere fun d => older d && d.attempts == 0).update older (Delivery.expire "superseded" now)
    (Delivery.expire_fireId _ _)

/-- `INSERT .. ON CONFLICT (fire_id) DO NOTHING`. -/
def insertNew (d : Delivery) : Deliveries :=
  if (t.find d.fireId).isSome then t else t.put d

def recordFire (f : NewFire) (now : String) : Deliveries :=
  ((t.supersede f now).insertNew (f.delivery now)).prune f.scheduleId f.trigger

/-- `EXPIRE_OUTSTANDING_SQL`. -/
def expireOutstanding (reason now scheduleId : String) : Deliveries :=
  t.update (fun d => d.scheduleId == scheduleId && d.outstanding) (Delivery.expire reason now)
    (Delivery.expire_fireId _ _)

/-- `EXPIRE_SQL`. -/
def expireDue (now : String) : Deliveries :=
  t.update (fun d => d.outstanding && decide (d.expiresAt ≤ now)) (Delivery.expire "ttl" now)
    (Delivery.expire_fireId _ _)

end

end Deliveries

def Delivery.write (cal : Calendar) (w : Applied) (now : String) (d : Delivery) : Delivery :=
  { d with
    status := w.status
    attempts := w.attempts
    nextAttemptAt := w.nextAttemptAt.map cal.fmt
    lastError := w.lastError
    updatedAt := now }

theorem Delivery.write_fireId (cal : Calendar) (w : Applied) (now : String) (d : Delivery) :
    (d.write cal w now).fireId = d.fireId := rfl

/-- The row-side `UPDATE` of `apply_delivery_outcome`, a compare-and-swap on the attempts. -/
def Deliveries.applyWrite (cal : Calendar) (t : Deliveries) (fireId : String) (seenAttempts : Nat)
    (w : Applied) (now : String) : Option (Delivery × Deliveries) :=
  match t.find fireId with
  | none => none
  | some d =>
    if d.outstanding && d.attempts == seenAttempts then
      some (d, t.update (fun d => d.fireId == fireId) (Delivery.write cal w now)
        (Delivery.write_fireId cal w now))
    else none

section Statements
variable {t : Deliveries} {d : Delivery} {f : NewFire} {now : String}

@[simp] theorem Delivery.expire_outstanding (reason : String) : (d.expire reason now).outstanding = false := rfl
@[simp] theorem Delivery.expire_of (reason scheduleId : String) (trigger : FireTrigger) :
    (d.expire reason now).of scheduleId trigger = d.of scheduleId trigger := rfl
@[simp] theorem Delivery.write_of (cal : Calendar) (w : Applied) (scheduleId : String) (trigger : FireTrigger) :
    (d.write cal w now).of scheduleId trigger = d.of scheduleId trigger := rfl

theorem Delivery.of_eq {scheduleId : String} {trigger : FireTrigger} :
    d.of scheduleId trigger = true ↔ d.scheduleId = scheduleId ∧ d.fireTrigger = trigger := by
  simp [Delivery.of]

structure Delivery.WellKept (d : Delivery) : Prop where
  awaited : d.nextAttemptAt.isSome = d.outstanding
  tried : d.attempts ≤ maxSentAttempts
  open_ : d.outstanding = true → d.attempts < maxSentAttempts

/-- What holds of the whole table between any two statements. -/
structure Deliveries.Sound (t : Deliveries) : Prop where
  one : ∀ scheduleId trigger, t.rows.countP (fun d => d.of scheduleId trigger && d.outstanding) ≤ 1
  few : ∀ scheduleId trigger,
    t.rows.countP (fun d => d.of scheduleId trigger) ≤ keepTerminalPerSource + 1
  kept : ∀ d ∈ t.rows, d.WellKept

def Deliveries.Frozen (t t' : Deliveries) : Prop :=
  ∀ d, t.find d.fireId = some d → d.outstanding = false →
    t'.find d.fireId = some d ∨ t'.find d.fireId = none

theorem Delivery.WellKept.expire (kept : d.WellKept) (reason : String) : (d.expire reason now).WellKept :=
  ⟨rfl, kept.tried, fun outstanding => nomatch outstanding⟩

theorem NewFire.delivery_wellKept : (f.delivery now).WellKept := ⟨rfl, Nat.zero_le _, fun _ => Nat.zero_lt_succ _⟩

namespace Deliveries

section
variable (sound : t.Sound)
include sound

theorem Sound.deleteWhere (drop : Delivery → Bool) : Sound (t.deleteWhere drop) where
  one scheduleId trigger := Table.countP_deleteWhere.trans (sound.one scheduleId trigger)
  few scheduleId trigger := Table.countP_deleteWhere.trans (sound.few scheduleId trigger)
  kept d member := sound.kept d (Table.mem_deleteWhere.mp member).1

theorem Sound.update {select : Delivery → Bool} {edit : Delivery → Delivery}
    {keeps : ∀ d, (edit d).fireId = d.fireId}
    (source : ∀ d scheduleId trigger, (edit d).of scheduleId trigger = d.of scheduleId trigger)
    (retires : ∀ d ∈ t.rows, select d = true → (edit d).outstanding = true → d.outstanding = true)
    (kept : ∀ d ∈ t.rows, select d = true → (edit d).WellKept) :
    Sound (Table.update t select edit keeps) where
  one scheduleId trigger := by
    refine (Table.countP_update ?_).trans (sound.one scheduleId trigger)
    intro d member selected counts
    rw [Bool.and_eq_true] at counts ⊢
    exact ⟨(source d scheduleId trigger).symm.trans counts.1, retires d member selected counts.2⟩
  few scheduleId trigger := by
    refine (Table.countP_update ?_).trans (sound.few scheduleId trigger)
    intro d _ _ counts
    exact (source d scheduleId trigger).symm.trans counts
  kept d member := by
    obtain ⟨before, listed, rfl⟩ := Table.mem_update.mp member
    split
    next selected => exact kept before listed selected
    next => exact sound.kept before listed

theorem Sound.expire (select : Delivery → Bool) (reason : String) :
    Sound (Table.update t select (Delivery.expire reason now) (Delivery.expire_fireId _ _)) :=
  sound.update (fun _ _ _ => rfl) (fun _ _ _ outstanding => nomatch outstanding)
    fun d listed _ => (sound.kept d listed).expire reason

theorem Sound.expireOutstanding (reason scheduleId : String) :
    (t.expireOutstanding reason now scheduleId).Sound := sound.expire _ _

theorem Sound.expireDue : (t.expireDue now).Sound := sound.expire _ _

end

theorem supersede_outstanding (member : d ∈ (t.supersede f now).rows)
    (source : d.of f.scheduleId f.trigger = true) (outstanding : d.outstanding = true) :
    d.fireId = f.fireId := by
  unfold supersede at member
  obtain ⟨before, listed, rfl⟩ := Table.mem_update.mp member
  split at outstanding
  · exact nomatch outstanding
  rename_i still
  rw [if_neg still] at source ⊢
  simpa [source, outstanding] using still

theorem Sound.supersede (sound : t.Sound) : (t.supersede f now).Sound :=
  (sound.deleteWhere _).expire _ _

theorem mem_insertNew {added : Delivery} (member : d ∈ (t.insertNew added).rows) :
    d = added ∨ d ∈ t.rows := by
  unfold insertNew at member
  split at member
  · exact .inr member
  · exact (Table.mem_put.mp member).imp_right And.left

theorem countP_insertNew {added : Delivery} {p : Delivery → Bool} (apart : p added = false) :
    (t.insertNew added).rows.countP p ≤ t.rows.countP p := by
  unfold insertNew
  split
  · exact le_rfl
  · have bound := t.countP_put added (p := p)
    rwa [apart, if_neg Bool.false_ne_true] at bound

theorem countP_prune {scheduleId : String} {trigger : FireTrigger} :
    (t.prune scheduleId trigger).rows.countP
      (fun d => d.of scheduleId trigger && !d.outstanding) ≤ keepTerminalPerSource := by
  let kept := ((t.newest scheduleId trigger).take keepTerminalPerSource).map Delivery.fireId
  have short : kept.length ≤ keepTerminalPerSource := by simp [kept]
  refine ((t.prune scheduleId trigger).countP_le_length kept ?_).trans short
  intro d member terminal
  obtain ⟨-, stays⟩ := Table.mem_deleteWhere.mp member
  rw [pruned, terminal, Bool.true_and, decide_eq_false_iff_not, not_not] at stays
  exact stays

theorem countP_source (t : Deliveries) (scheduleId : String) (trigger : FireTrigger) :
    t.rows.countP (fun d => d.of scheduleId trigger) =
      t.rows.countP (fun d => d.of scheduleId trigger && d.outstanding) +
      t.rows.countP (fun d => d.of scheduleId trigger && !d.outstanding) := by
  induction t.rows with
  | nil => rfl
  | cons d rest ih =>
    simp only [List.countP_cons, ih]
    cases d.of scheduleId trigger <;> cases d.outstanding <;> simp <;> omega

theorem Sound.recordFire (sound : t.Sound) : (t.recordFire f now).Sound := by
  let inserted := (t.supersede f now).insertNew (f.delivery now)
  have superseded : (t.supersede f now).Sound := sound.supersede
  have one : ∀ scheduleId trigger,
      inserted.rows.countP (fun d => d.of scheduleId trigger && d.outstanding) ≤ 1 := by
    intro scheduleId trigger
    by_cases here : scheduleId = f.scheduleId ∧ trigger = f.trigger
    · obtain ⟨rfl, rfl⟩ := here
      refine inserted.countP_le_one f.fireId ?_
      intro d member counts
      rw [Bool.and_eq_true] at counts
      obtain rfl | listed := mem_insertNew member
      · rfl
      · exact supersede_outstanding listed counts.1 counts.2
    · refine (countP_insertNew ?_).trans (superseded.one scheduleId trigger)
      rw [Bool.and_eq_false_iff]
      refine .inl (Bool.eq_false_iff.mpr fun same => here ?_)
      obtain ⟨rfl, rfl⟩ := Delivery.of_eq.mp same
      exact ⟨rfl, rfl⟩
  have pruned : (inserted.prune f.scheduleId f.trigger).Sound := by
    refine ⟨fun scheduleId trigger => Table.countP_deleteWhere.trans (one scheduleId trigger), ?_, ?_⟩
    · intro scheduleId trigger
      by_cases here : scheduleId = f.scheduleId ∧ trigger = f.trigger
      · obtain ⟨rfl, rfl⟩ := here
        rw [countP_source, Nat.add_comm keepTerminalPerSource]
        exact Nat.add_le_add (Table.countP_deleteWhere.trans (one _ _)) countP_prune
      · refine (Table.countP_deleteWhere.trans (countP_insertNew ?_)).trans (superseded.few scheduleId trigger)
        refine Bool.eq_false_iff.mpr fun same => here ?_
        obtain ⟨rfl, rfl⟩ := Delivery.of_eq.mp same
        exact ⟨rfl, rfl⟩
    · intro d member
      obtain rfl | listed := mem_insertNew (Table.mem_deleteWhere.mp member).1
      · exact NewFire.delivery_wellKept
      · exact superseded.kept d listed
  exact pruned

theorem applyWrite_eq_some {cal : Calendar} {fireId : String} {seenAttempts : Nat} {w : Applied}
    {t' : Deliveries} (landed : t.applyWrite cal fireId seenAttempts w now = some (d, t')) :
    t.find fireId = some d ∧ d.outstanding = true ∧ d.attempts = seenAttempts ∧
      t' = t.update (fun d => d.fireId == fireId) (Delivery.write cal w now) (Delivery.write_fireId cal w now) := by
  unfold applyWrite at landed
  split at landed
  · cases landed
  rename_i found hit
  split at landed
  next matched =>
    obtain ⟨rfl, rfl⟩ := Prod.mk.inj (Option.some.inj landed)
    rw [Bool.and_eq_true, beq_iff_eq] at matched
    exact ⟨hit, matched.1, matched.2, rfl⟩
  next => cases landed

end Deliveries

/-- An outcome that is applied leaves a row well kept, if the attempts it went by were few enough. -/
theorem applyOutcome_wellKept {cal : Calendar} {status : DeliveryStatus} {attempts : Nat}
    {outcome : FireOutcome} {at_ : Instant} {w : Applied}
    (applied : applyOutcome status attempts outcome at_ = .ok w) (few : attempts < maxSentAttempts) :
    (d.write cal w now).WellKept := by
  have counted : countAttempt attempts = attempts + 1 := by
    unfold countAttempt maxSentAttempts at *
    omega
  have failed : ∀ reason, (d.write cal (failedAttempt attempts reason at_) now).WellKept := by
    intro reason
    unfold failedAttempt
    simp only [counted]
    split
    next last => exact ⟨rfl, few, fun outstanding => nomatch outstanding⟩
    next more => exact ⟨rfl, few, fun _ => not_le.mp more⟩
  unfold applyOutcome at applied
  split at applied
  · exact nomatch applied
  cases outcome with
  | agentRun runId =>
    obtain rfl := Except.ok.inj applied
    exact failed _
  | moduleDelivered fireId =>
    obtain rfl := Except.ok.inj applied
    refine ⟨rfl, ?_, fun outstanding => nomatch outstanding⟩
    simp only [Delivery.write, counted]
    exact few
  | deferred reason =>
    dsimp only at applied
    split at applied
    · exact nomatch applied
    · obtain rfl := Except.ok.inj applied
      exact ⟨rfl, few.le, fun _ => few⟩
  | failed reason =>
    obtain rfl := Except.ok.inj applied
    exact failed _

theorem Deliveries.Sound.applyWrite {cal : Calendar} {fireId : String} {status : DeliveryStatus} {seenAttempts : Nat}
    {outcome : FireOutcome} {at_ : Instant} {w : Applied} {t' : Deliveries} (sound : t.Sound)
    (applied : applyOutcome status seenAttempts outcome at_ = .ok w)
    (landed : t.applyWrite cal fireId seenAttempts w now = some (d, t')) : t'.Sound := by
  obtain ⟨found, outstanding, rfl, rfl⟩ := applyWrite_eq_some landed
  have only : ∀ other ∈ t.rows, (other.fireId == fireId) = true → other = d := by
    intro other listed same
    have here := Table.mem_rows_iff.mp listed
    rw [beq_iff_eq.mp same, found] at here
    exact (Option.some.inj here).symm
  have few := (sound.kept d (Table.find_eq_some.mp found).1).open_ outstanding
  refine sound.update (fun _ _ _ => rfl) ?_ ?_
  · intro other listed same _
    rwa [only other listed same]
  · intro other listed same
    exact applyOutcome_wellKept applied few

namespace Deliveries

section
variable {select : Delivery → Bool}

theorem find_update_terminal {edit : Delivery → Delivery} {keeps : ∀ d, (edit d).fireId = d.fireId}
    (found : t.find d.fireId = some d) (terminal : d.outstanding = false)
    (selects : ∀ d, select d = true → d.outstanding = true) :
    (Table.update t select edit keeps).find d.fireId = some d := by
  have still : ¬ select d = true := fun selected => by simp [selects d selected] at terminal
  rw [Table.find_update, found, Option.map_some, if_neg still]

theorem Frozen.update {edit : Delivery → Delivery} {keeps : ∀ d, (edit d).fireId = d.fireId}
    (selects : ∀ d, select d = true → d.outstanding = true) :
    Frozen t (Table.update t select edit keeps) :=
  fun _ found terminal => .inl (find_update_terminal found terminal selects)

theorem Frozen.refl : Frozen t t := fun _ found _ => .inl found

theorem Frozen.deleteWhere (drop : Delivery → Bool) : Frozen t (Table.deleteWhere t drop) := by
  intro d found _
  rw [Table.find_deleteWhere, found, Option.filter_some]
  split
  · exact .inl rfl
  · exact .inr rfl

theorem Frozen.expireOutstanding (reason scheduleId : String) :
    Frozen t (t.expireOutstanding reason now scheduleId) :=
  .update fun d selected => by
    rw [Bool.and_eq_true] at selected
    exact selected.2

theorem Frozen.expireDue : Frozen t (t.expireDue now) :=
  .update fun d selected => by
    rw [Bool.and_eq_true] at selected
    exact selected.1

theorem Frozen.recordFire : Frozen t (t.recordFire f now) := by
  intro d found terminal
  have superseded : (t.supersede f now).find d.fireId = some d := by
    unfold supersede
    refine find_update_terminal ?_ terminal ?_
    · rw [Table.find_deleteWhere, found, Option.filter_some, if_pos]
      simp [terminal]
    · intro d selected
      simp only [Bool.and_eq_true] at selected
      exact selected.1.2
  have inserted : ((t.supersede f now).insertNew (f.delivery now)).find d.fireId = some d := by
    unfold insertNew
    split
    · exact superseded
    rename_i absent
    rw [Table.find_put, if_neg]
    · exact superseded
    · intro same
      rw [← same, superseded] at absent
      exact absent rfl
  exact Frozen.deleteWhere _ d inserted terminal

theorem Frozen.applyWrite {cal : Calendar} {fireId : String} {seenAttempts : Nat} {w : Applied}
    {row : Delivery} {t' : Deliveries} (landed : t.applyWrite cal fireId seenAttempts w now = some (row, t')) :
    Frozen t t' := by
  obtain ⟨hit, outstanding, -, rfl⟩ := applyWrite_eq_some landed
  intro d found terminal
  left
  rw [Table.find_update, found, Option.map_some, if_neg]
  intro same
  rw [← beq_iff_eq.mp same, found] at hit
  rw [← Option.some.inj hit, terminal] at outstanding
  exact nomatch outstanding

/-- What is delivered afterwards was so before, and what was terminal stays as it was or goes. -/
def Calm (t t' : Deliveries) : Prop :=
  Frozen t t' ∧ ∀ d, t'.find d.fireId = some d → d.status = .delivered → t.find d.fireId = some d

theorem Calm.refl : Calm t t := ⟨.refl, fun _ found _ => found⟩

theorem Calm.deleteWhere (drop : Delivery → Bool) : Calm t (Table.deleteWhere t drop) := by
  refine ⟨.deleteWhere drop, fun d found _ => ?_⟩
  rw [Table.find_deleteWhere, Option.filter_eq_some_iff] at found
  exact found.1

theorem find_of_update_expire {reason : String}
    (found : (Table.update t select (Delivery.expire reason now) (Delivery.expire_fireId _ _)).find d.fireId = some d)
    (delivered : d.status = .delivered) : t.find d.fireId = some d := by
  rw [Table.find_update, Option.map_eq_some_iff] at found
  obtain ⟨before, hit, shape⟩ := found
  split at shape
  · rw [← shape] at delivered
    exact nomatch delivered
  · rw [hit, shape]

end

theorem Calm.expireOutstanding (reason scheduleId : String) :
    Calm t (t.expireOutstanding reason now scheduleId) :=
  ⟨.expireOutstanding reason scheduleId, fun _ found delivered => find_of_update_expire found delivered⟩

theorem Calm.expireDue : Calm t (t.expireDue now) :=
  ⟨.expireDue, fun _ found delivered => find_of_update_expire found delivered⟩

theorem Calm.recordFire : Calm t (t.recordFire f now) := by
  refine ⟨.recordFire, fun d found delivered => ?_⟩
  unfold Deliveries.recordFire prune at found
  rw [Table.find_deleteWhere, Option.filter_eq_some_iff] at found
  have superseded : (t.supersede f now).find d.fireId = some d := by
    have inserted := found.1
    unfold insertNew at inserted
    split at inserted
    · exact inserted
    rw [Table.find_put] at inserted
    split at inserted
    · rw [← Option.some.inj inserted] at delivered
      cases delivered
    · exact inserted
  have kept := find_of_update_expire superseded delivered
  rw [Table.find_deleteWhere, Option.filter_eq_some_iff] at kept
  exact kept.1

theorem Calm.applyWrite {cal : Calendar} {fireId : String} {seenAttempts : Nat} {w : Applied} {row : Delivery}
    {t' : Deliveries} (landed : t.applyWrite cal fireId seenAttempts w now = some (row, t'))
    (undelivered : w.status ≠ .delivered) : Calm t t' := by
  refine ⟨.applyWrite landed, fun d found delivered => ?_⟩
  obtain ⟨-, -, -, rfl⟩ := applyWrite_eq_some landed
  rw [Table.find_update, Option.map_eq_some_iff] at found
  obtain ⟨before, hit, shape⟩ := found
  split at shape
  · rw [← shape] at delivered
    exact absurd delivered undelivered
  · rw [hit, shape]

theorem mem_recordFire_apart (apart : d.of f.scheduleId f.trigger = false) :
    d ∈ (t.recordFire f now).rows ↔ d ∈ t.rows := by
  have superseded : d ∈ (t.supersede f now).rows ↔ d ∈ t.rows := by
    unfold supersede
    rw [Table.mem_update]
    constructor
    · rintro ⟨before, listed, same⟩
      split at same
      next selected =>
        rw [← same, Delivery.expire_of] at apart
        simp [apart] at selected
      next =>
        rw [← same]
        exact (Table.mem_deleteWhere.mp listed).1
    · intro listed
      refine ⟨d, Table.mem_deleteWhere.mpr ⟨listed, by simp [apart]⟩, ?_⟩
      simp [apart]
  have other : d ≠ f.delivery now := by
    rintro rfl
    simp [Delivery.of, NewFire.delivery] at apart
  have inserted : d ∈ ((t.supersede f now).insertNew (f.delivery now)).rows ↔ d ∈ t.rows := by
    unfold insertNew
    split
    · exact superseded
    rename_i absent
    rw [Table.mem_put, superseded]
    refine ⟨fun kept => (kept.resolve_left other).1, fun listed => .inr ⟨listed, ?_⟩⟩
    intro same
    rw [← same, Table.mem_rows_iff.mp (superseded.mpr listed)] at absent
    exact absent rfl
  unfold recordFire prune
  rw [Table.mem_deleteWhere, inserted]
  simp [pruned, apart]

end Deliveries

end Statements

end Agent24.Scheduler
