import Agent24.Approvals.Iso
import Agent24.Library.Outcome
import Agent24.Library.Runs
import Agent24.Library.Table

/-! Module approvals: gate rows, their decision, and the scan that executes them. -/

set_option autoImplicit false
namespace Agent24.Approvals
open Library

/-- A parsed RFC 3339 time. In a leap second `nanos` runs past 10^9. -/
structure Parsed where
  secs : Int
  nanos : Nat

/-- What `chrono` does: a parser, and the UTC year and `%Y-%m-%dT%H:%M:%SZ` text of an instant. -/
structure Chrono where
  parse : String → Except String Parsed
  year : Int → Int
  format : Int → String

structure Chrono.Gregorian (C : Chrono) : Prop where
  year : ∀ {text instant date h m s}, C.parse text = .ok instant → Shows instant.secs date h m s →
    C.year instant.secs = date.year
  format : ∀ {text instant date h m s}, C.parse text = .ok instant → Shows instant.secs date h m s →
    0 ≤ date.year → date.year ≤ 9999 → C.format instant.secs = stamp date h m s

inductive ApprovalRequestError where
  | actionNotInClosedSet
  | invalidTarget (why : String)
  | backendUnavailable (why : String)
  deriving DecidableEq

inductive ModuleApprovalKind where
  | gate | advise
  deriving DecidableEq

inductive ModuleApprovalDecision where
  | pending | approved | denied | timedOut
  deriving DecidableEq

structure ModuleApproval where
  id : String
  module_ : String
  requestId : String
  kind : ModuleApprovalKind
  binding : Bool
  action : String
  target : Option String
  decision : ModuleApprovalDecision
  createdAt : String
  decidedAt : Option String
  expiresAt : String
  executedAt : Option String

abbrev ModuleApprovals := Table ModuleApproval.id

inductive StoreError where
  | notFound (what : String)
  | conflict (what : String)
  deriving DecidableEq

section
variable (C : Chrono)

def canonicalizeScheduleTarget (target : String) : Except ApprovalRequestError String :=
  match C.parse target with
  | .error e => .error (.invalidTarget ("target is not a valid RFC3339 timestamp: " ++ e))
  | .ok parsed =>
    if 1000000000 ≤ parsed.nanos then .error (.invalidTarget "leap seconds are not accepted in a target")
    else
      let year := C.year parsed.secs
      -- a fifth digit or a sign would put the text out of the order of time
      if 0 ≤ year ∧ year ≤ 9999 then .ok (C.format parsed.secs)
      else .error (.invalidTarget "target year must be within 0000..=9999 (fixed 4-digit-year comparison)")

def validateGateAction (action : String) (target : Option String) : Except ApprovalRequestError (String × String) :=
  if action ≠ "schedule_callback" then .error .actionNotInClosedSet
  else match target with
    | none => .error (.invalidTarget "schedule_callback requires a target timestamp")
    | some target => (canonicalizeScheduleTarget C target).map fun target => (action, target)

/-- `MODULE_APPROVAL_TTL_SECS`. -/
def ttlSecs : Nat := 300

/-- `u64::MAX`. -/
def maxSecs : Nat := 18446744073709551615

/-- `insert_module_approval`: both the id and the request are unique. -/
def insertModuleApproval (row : ModuleApproval) (t : ModuleApprovals) : Except ApprovalRequestError ModuleApprovals :=
  if t.rows.any fun r => r.id == row.id ||
      (r.module_ == row.module_ && r.requestId == row.requestId && r.kind == row.kind)
  then .error (.backendUnavailable "UNIQUE constraint failed")
  else .ok (t.put row)

/-- `insert`, after `find_existing` found nothing. -/
def insert (id module_ requestId : String) (kind : ModuleApprovalKind) (action : String) (target : Option String)
    (clock : Nat) (t : ModuleApprovals) : Except ApprovalRequestError ModuleApprovals :=
  insertModuleApproval
    { id, module_, requestId, kind, binding := kind == .gate, action, target, decision := .pending,
      createdAt := iso8601At clock, decidedAt := none, expiresAt := iso8601At (min (clock + ttlSecs) maxSecs),
          executedAt := none } t

def gate (id module_ requestId action : String) (target : Option String) (clock : Nat) (t : ModuleApprovals) :
    Except ApprovalRequestError ModuleApprovals :=
  match validateGateAction C action target with
  | .error e => .error e
  | .ok canonical => insert id module_ requestId .gate canonical.1 (some canonical.2) clock t

end

section
variable (row : ModuleApproval)

/-- The `SET` of a decision. -/
def ModuleApproval.decided (to_ : ModuleApprovalDecision) (now : String) : ModuleApproval :=
  { row with decision := to_, decidedAt := some now }

theorem ModuleApproval.decided_id (to_ : ModuleApprovalDecision) (now : String) :
    (row.decided to_ now).id = row.id := rfl

/-- The `WHERE` of a decision, but for the id. -/
def ModuleApproval.open_ (now : String) : Bool :=
  row.decision == .pending && decide (now ≤ row.expiresAt)

def ModuleApproval.expired (now : String) : Bool :=
  row.decision == .pending && decide (row.expiresAt < now)

def ModuleApproval.due (now : String) : Bool :=
  row.kind == .gate && row.decision == .approved && row.executedAt.isNone && row.action == "schedule_callback" &&
    row.target.any fun target => decide (target ≤ now)

end

def decideModuleApproval (id : String) (to_ : ModuleApprovalDecision) (now : String) (t : ModuleApprovals) :
    Except StoreError ModuleApprovals :=
  if t.rows.any fun r => r.id == id && r.open_ now then
    .ok (t.update (fun r => r.id == id && r.open_ now) (·.decided to_ now) fun r => r.decided_id to_ now)
  else match t.find id with
    | none => .error (.notFound ("module approval " ++ id))
    | some _ => .error (.conflict ("module approval " ++ id ++ " already resolved or expired"))

/-- `timeout_expired_module_approvals`. -/
def timeoutExpired (now : String) (t : ModuleApprovals) : ModuleApprovals :=
  t.update (·.expired now) (·.decided .timedOut now) fun r => r.decided_id .timedOut now

/-- `execute_due_schedule_callbacks`. -/
def executeDue (now : String) (t : ModuleApprovals) : ModuleApprovals :=
  t.update (·.due now) (fun r => { r with executedAt := some now }) fun _ => rfl

/-! ## Runs -/

inductive Op where
  | gate (id module_ requestId action : String) (target : Option String) (clock : Nat)
  | advise (id module_ requestId action : String) (target : Option String) (clock : Nat)
  /-- The REST decision; only `approved` and `denied` are taken. -/
  | decide (id : String) (to_ : ModuleApprovalDecision) (clock : Nat)
  | timeoutScan (clock : Nat)
  | executeScan (clock : Nat)

namespace Op

def clock : Op → Nat
  | .gate _ _ _ _ _ clock | .advise _ _ _ _ _ clock | .decide _ _ clock | .timeoutScan clock | .executeScan clock => clock

def scanClock : Op → Option Nat
  | .executeScan clock => some clock
  | _ => none

end Op

def step (C : Chrono) (t : ModuleApprovals) : Op → ModuleApprovals
  | .gate id module_ requestId action target clock =>
    (gate C id module_ requestId action target clock t).toOption.getD t
  | .advise id module_ requestId action target clock =>
    (insert id module_ requestId .advise action target clock t).toOption.getD t
  | .decide id to_ clock =>
    if to_ = .approved ∨ to_ = .denied then (decideModuleApproval id to_ (iso8601At clock) t).toOption.getD t else t
  | .timeoutScan clock => timeoutExpired (iso8601At clock) t
  | .executeScan clock => executeDue (iso8601At clock) t

def scansAfterApproval (C : Chrono) (id : String) : ModuleApprovals → List Op → List Nat
  | _, [] => []
  | t, op :: rest =>
    if (t.find id).any (·.decision == .approved) then (op :: rest).filterMap Op.scanClock
    else scansAfterApproval C id (step C t op) rest

def firstDue (due : Int) (clocks : List Nat) : Option Nat := clocks.find? fun now => decide (due ≤ (now : Int))

def ModuleApproval.after (row : ModuleApproval) : Op → ModuleApproval
  | .gate .. | .advise .. => row
  | .decide id to_ clock =>
    if (to_ = .approved ∨ to_ = .denied) ∧ row.id = id ∧ row.open_ (iso8601At clock) = true
    then row.decided to_ (iso8601At clock) else row
  | .timeoutScan clock => if row.expired (iso8601At clock) then row.decided .timedOut (iso8601At clock) else row
  | .executeScan clock =>
    if row.due (iso8601At clock) then { row with executedAt := some (iso8601At clock) } else row

section
variable {C : Chrono} {t : ModuleApprovals} {row : ModuleApproval}

variable {id : String} {clock : Nat} {due : Int} {ops : List Op}

section
variable {module_ requestId action : String}

theorem insert_cases {kind : ModuleApprovalKind} {target : Option String} {t' : ModuleApprovals}
    (inserted : insert id module_ requestId kind action target clock t = .ok t') :
    t.find id = none ∧ ∃ row, t' = t.put row ∧ row.id = id ∧ row.module_ = module_ ∧ row.requestId = requestId ∧
      row.kind = kind ∧ row.action = action ∧ row.target = target ∧ row.decision = .pending ∧
          row.executedAt = none := by
  unfold insert insertModuleApproval at inserted
  split at inserted
  · cases inserted
  next free =>
  cases inserted
  refine ⟨Table.find_eq_none.mpr fun r member same => free ?_, _, rfl, rfl, rfl, rfl, rfl, rfl, rfl, rfl, rfl⟩
  exact List.any_eq_true.mpr ⟨r, member, by simp [same]⟩

theorem find_insert {kind : ModuleApprovalKind} {target : Option String} {k : String} (found : t.find k = some row) :
    ((insert id module_ requestId kind action target clock t).toOption.getD t).find k = some row := by
  cases inserted : insert id module_ requestId kind action target clock t with
  | error e => exact found
  | ok t' =>
    obtain ⟨free, new, rfl, named, -⟩ := insert_cases inserted
    have apart : k ≠ new.id := by
      rintro rfl
      rw [named, free] at found
      cases found
    exact (Table.find_put_of_ne apart).trans found

theorem find_step {k : String} (found : t.find k = some row) (op : Op) :
    (step C t op).find k = some (row.after op) := by
  cases op with
  | gate =>
    rw [step, gate]
    split
    · exact found
    · exact find_insert found
  | advise => exact find_insert found
  | decide id to_ clock =>
    rw [step, ModuleApproval.after]
    by_cases allowed : to_ = .approved ∨ to_ = .denied
    · rw [if_pos allowed, decideModuleApproval]
      split
      · next some_ =>
        dsimp only [Except.toOption, Option.getD_some]
        rw [Table.find_update, found]
        by_cases hit : row.id = id ∧ row.open_ (iso8601At clock) = true
        · simp [allowed, hit]
        · simp [hit]
      · next none_ =>
        have missed : ¬ (row.id = id ∧ row.open_ (iso8601At clock) = true) := fun hit =>
          none_ (List.any_eq_true.mpr ⟨row, (Table.find_eq_some.mp found).1, by simp [hit.1, hit.2]⟩)
        rw [if_neg fun all => missed all.2]
        split <;> exact found
    · rw [if_neg allowed, if_neg fun all => allowed all.1]
      exact found
  | timeoutScan clock =>
    rw [step, timeoutExpired, Table.find_update, found]
    rfl
  | executeScan clock =>
    rw [step, executeDue, Table.find_update, found]
    rfl

theorem find_run {k : String} (ops : List Op) (found : t.find k = some row) :
    (run (step C) ops t).find k = some (ops.foldl ModuleApproval.after row) := by
  induction ops generalizing t row with
  | nil => exact found
  | cons op rest ih => exact ih (find_step found op)

theorem gate_cases {target : Option String} {t' : ModuleApprovals} (gregorian : C.Gregorian)
    (submitted : gate C id module_ requestId action target clock t = .ok t') :
    action = "schedule_callback" ∧ ∃ text parsed, target = some text ∧ C.parse text = .ok parsed ∧
      parsed.nanos < 1000000000 ∧ FourDigits parsed.secs ∧
      insert id module_ requestId .gate action (some (utcText parsed.secs)) clock t = .ok t' := by
  unfold gate at submitted
  split at submitted
  · cases submitted
  next canonical validated =>
  unfold validateGateAction at validated
  split at validated
  · cases validated
  next known =>
  split at validated
  · cases validated
  next text =>
  obtain ⟨shown, canonicalized, rfl⟩ := map_eq_ok.mp validated
  unfold canonicalizeScheduleTarget at canonicalized
  split at canonicalized
  · cases canonicalized
  next parsed read =>
  split at canonicalized
  · cases canonicalized
  next whole =>
  dsimp only at canonicalized
  split at canonicalized
  · next year =>
    cases canonicalized
    have shows_ := shows_utc parsed.secs
    rw [gregorian.year read shows_] at year
    rw [gregorian.format read shows_ year.1 year.2, shows_.stamp_eq] at submitted
    exact ⟨not_not.mp known, text, parsed, rfl, read, not_le.mp whole, year, submitted⟩
  · cases canonicalized

end

/-- The row of a gate that waits for `due`. -/
structure ModuleApproval.Waits (row : ModuleApproval) (due : Int) : Prop where
  kind : row.kind = .gate
  action : row.action = "schedule_callback"
  target : row.target = some (utcText due)

def ModuleApproval.fixed (row : ModuleApproval) :
    (String × String × String) × (ModuleApprovalKind × Bool × String × Option String) × String × String :=
  ((row.id, row.module_, row.requestId), (row.kind, row.binding, row.action, row.target), row.createdAt,
      row.expiresAt)

theorem after_fixed (op : Op) : (row.after op).fixed = row.fixed := by
  cases op with
  | gate | advise => rfl
  | decide | timeoutScan | executeScan =>
    dsimp only [ModuleApproval.after]
    split <;> rfl

theorem foldl_fixed (ops : List Op) : (ops.foldl ModuleApproval.after row).fixed = row.fixed := by
  induction ops generalizing row with
  | nil => rfl
  | cons op rest ih => rw [List.foldl_cons, ih, after_fixed]

theorem after_id (op : Op) : (row.after op).id = row.id := congrArg (·.1.1) (after_fixed op)

theorem ModuleApproval.Waits.after (waits : row.Waits due) (op : Op) : (row.after op).Waits due where
  kind := (congrArg (·.2.1.1) (after_fixed op)).trans waits.kind
  action := (congrArg (·.2.1.2.2.1) (after_fixed op)).trans waits.action
  target := (congrArg (·.2.1.2.2.2) (after_fixed op)).trans waits.target

def Clocks (ops : List Op) : Prop := ∀ op ∈ ops, (dateAt op.clock).year ≤ 9999

theorem reached_iff (four : FourDigits due) (year : (dateAt clock).year ≤ 9999) :
    utcText due ≤ iso8601At clock ↔ due ≤ clock := by
  rw [iso8601At_eq, utcText_le_iff four (fourDigits_clock year)]

theorem due_iff_reached {now : String} (waits : row.Waits due) (approved : row.decision = .approved) :
    row.due now = true ↔ row.executedAt = none ∧ utcText due ≤ now := by
  rw [ModuleApproval.due, waits.kind, waits.action, waits.target, approved]
  generalize utcText due = target
  simp

theorem due_iff (four : FourDigits due) (year : (dateAt clock).year ≤ 9999) (waits : row.Waits due)
    (approved : row.decision = .approved) :
    row.due (iso8601At clock) = true ↔ row.executedAt = none ∧ due ≤ (clock : Int) :=
  (due_iff_reached waits approved).trans (and_congr_right' (reached_iff four year))

theorem firstDue_cons (due : Int) (clock : Nat) (clocks : List Nat) :
    firstDue due (clock :: clocks) = if due ≤ (clock : Int) then some clock else firstDue due clocks := by
  by_cases reached : due ≤ (clock : Int) <;> simp [firstDue, reached]

theorem filterMap_scan (clock : Nat) (rest : List Op) :
    (Op.executeScan clock :: rest).filterMap Op.scanClock = clock :: rest.filterMap Op.scanClock := rfl

/-- Once approved, the first scan that has reached the target executes the row, and no later one again. -/
theorem foldl_approved (four : FourDigits due) (clocks : Clocks ops) (waits : row.Waits due)
    (approved : row.decision = .approved) :
    (ops.foldl ModuleApproval.after row).executedAt =
      row.executedAt.or ((firstDue due (ops.filterMap Op.scanClock)).map iso8601At) := by
  induction ops generalizing row with
  | nil => simp [firstDue]
  | cons op rest ih =>
    have later : Clocks rest := fun other member => clocks other (List.mem_cons_of_mem _ member)
    have year := clocks op (List.mem_cons_self ..)
    rw [List.foldl_cons]
    cases op with
    | gate | advise => exact ih later waits approved
    | decide id to_ clock =>
      have closed : row.open_ (iso8601At clock) = false := by simp [ModuleApproval.open_, approved]
      have same : row.after (.decide id to_ clock) = row := by simp [ModuleApproval.after, closed]
      rw [same]
      exact ih later waits approved
    | timeoutScan clock =>
      have closed : row.expired (iso8601At clock) = false := by simp [ModuleApproval.expired, approved]
      have same : row.after (.timeoutScan clock) = row := by simp [ModuleApproval.after, closed]
      rw [same]
      exact ih later waits approved
    | executeScan clock =>
      have due_ := due_iff four (show (dateAt clock).year ≤ 9999 from year) waits approved
      rw [filterMap_scan, firstDue_cons, ModuleApproval.after]
      by_cases hit : row.due (iso8601At clock) = true
      · obtain ⟨unmarked, reached⟩ := due_.mp hit
        have marked : ({ row with executedAt := some (iso8601At clock) } : ModuleApproval).Waits due :=
          ⟨waits.kind, waits.action, waits.target⟩
        rw [if_pos hit, if_pos reached, ih later marked approved, unmarked, Option.some_or, Option.none_or,
          Option.map_some]
      · rw [if_neg hit, ih later waits approved]
        cases executed : row.executedAt with
        | some at_ => rw [Option.some_or, Option.some_or]
        | none => rw [if_neg fun reached => hit (due_.mpr ⟨executed, reached⟩)]

theorem after_unapproved (op : Op) (unapproved : row.decision ≠ .approved) :
    (row.after op).executedAt = row.executedAt := by
  cases op with
  | gate | advise => rfl
  | decide | timeoutScan =>
    dsimp only [ModuleApproval.after]
    split <;> rfl
  | executeScan clock =>
    have idle : row.due (iso8601At clock) = false := by simp [ModuleApproval.due, unapproved]
    rw [ModuleApproval.after, idle, if_neg Bool.false_ne_true]

theorem foldl_executed (four : FourDigits due) (clocks : Clocks ops) (waits : row.Waits due)
    (found : t.find row.id = some row) (unmarked : row.decision ≠ .approved → row.executedAt = none) :
    (ops.foldl ModuleApproval.after row).executedAt =
      row.executedAt.or ((firstDue due (scansAfterApproval C row.id t ops)).map iso8601At) := by
  induction ops generalizing t row with
  | nil => simp [scansAfterApproval, firstDue]
  | cons op rest ih =>
    by_cases approved : row.decision = .approved
    · rw [foldl_approved four clocks waits approved, scansAfterApproval, found]
      simp [approved]
    have later : Clocks rest := fun other member => clocks other (List.mem_cons_of_mem _ member)
    have kept := after_unapproved op approved
    have here : (step C t op).find (row.after op).id = some (row.after op) := by
      rw [after_id]
      exact find_step found op
    rw [List.foldl_cons, ih later (waits.after op) here fun _ => by rw [kept, unmarked approved], kept, after_id,
      scansAfterApproval, found]
    simp [approved]

theorem find_created {op : Op} (free : t.find id = none) (found : (step C t op).find id = some row) :
    (∃ module_ requestId action target clock, op = .gate id module_ requestId action target clock ∧
      gate C id module_ requestId action target clock t = .ok (step C t op)) ∨
    ∃ module_ requestId action target clock, op = .advise id module_ requestId action target clock ∧
      insert id module_ requestId .advise action target clock t = .ok (step C t op) := by
  have named : ∀ {id' module_ requestId action : String} {kind : ModuleApprovalKind} {target : Option String}
      {clock : Nat} {t' : ModuleApprovals},
      insert id' module_ requestId kind action target clock t = .ok t' → t'.find id = some row → id' = id := by
    intro id' module_ requestId action kind target clock t' inserted found
    obtain ⟨-, new, rfl, rfl, -⟩ := insert_cases inserted
    by_contra other
    rw [Table.find_put_of_ne (Ne.symm other), free] at found
    cases found
  cases op with
  | gate id' module_ requestId action target clock =>
    rw [step] at found ⊢
    cases submitted : gate C id' module_ requestId action target clock t with
    | error e =>
      rw [submitted] at found
      exact absurd (free.symm.trans found) (Option.some_ne_none row).symm
    | ok t' =>
      rw [submitted] at found
      have same : id' = id := by
        unfold gate at submitted
        split at submitted
        · cases submitted
        · exact named submitted found
      subst same
      exact .inl ⟨module_, requestId, action, target, clock, rfl, submitted⟩
  | advise id' module_ requestId action target clock =>
    rw [step] at found ⊢
    cases inserted : insert id' module_ requestId .advise action target clock t with
    | error e =>
      rw [inserted] at found
      exact absurd (free.symm.trans found) (Option.some_ne_none row).symm
    | ok t' =>
      rw [inserted] at found
      have same : id' = id := named inserted found
      subst same
      exact .inr ⟨module_, requestId, action, target, clock, rfl, inserted⟩
  | decide =>
    exfalso
    rw [step] at found
    split at found
    · rw [decideModuleApproval] at found
      split at found
      · dsimp only [Except.toOption, Option.getD_some] at found
        rw [Table.find_update, free] at found
        cases found
      · split at found <;> exact Option.some_ne_none row (found.symm.trans free)
    · exact Option.some_ne_none row (found.symm.trans free)
  | timeoutScan clock =>
    rw [step, timeoutExpired, Table.find_update, free] at found
    cases found
  | executeScan clock =>
    rw [step, executeDue, Table.find_update, free] at found
    cases found

theorem find_origin (free : t.find id = none) (found : (run (step C) ops t).find id = some row) :
    ∃ before op later first, ops = before ++ op :: later ∧ (run (step C) before t).find id = none ∧
      (step C (run (step C) before t) op).find id = some first ∧ row = later.foldl ModuleApproval.after first := by
  induction ops using List.reverseRecOn generalizing row with
  | nil => exact absurd (free.symm.trans found) (Option.some_ne_none row).symm
  | append_singleton ops op ih =>
    rw [run_append, run_cons, run_nil] at found
    cases earlier : (run (step C) ops t).find id with
    | none => exact ⟨ops, op, [], row, rfl, earlier, found, rfl⟩
    | some old =>
      obtain ⟨before, first_, later, first, rfl, none_, created, rfl⟩ := ih earlier
      rw [find_step earlier op, Option.some_inj] at found
      exact ⟨before, first_, later ++ [op], first, by simp, none_, created, by simp [← found]⟩

theorem scans_before {before rest : List Op} (free : (run (step C) before t).find id = none) :
    scansAfterApproval C id t (before ++ rest) = scansAfterApproval C id (run (step C) before t) rest := by
  induction before generalizing t with
  | nil => rfl
  | cons op before ih =>
    have here : t.find id = none := by
      cases found : t.find id with
      | none => rfl
      | some old => exact absurd (free.symm.trans (find_run (op :: before) found)) (Option.some_ne_none _).symm
    rw [List.cons_append, scansAfterApproval, here]
    exact ih free

/-- A gate row of a run was submitted once, and is marked by the first scan that finds it approved and due. -/
theorem executed_origin (gregorian : C.Gregorian) (clocks : Clocks ops)
    (found : (run (step C) ops .empty).find id = some row) (kind : row.kind = .gate) :
    ∃ before text parsed clock later,
      ops = before ++ .gate id row.module_ row.requestId row.action (some text) clock :: later ∧
      (run (step C) before .empty).find id = none ∧ C.parse text = .ok parsed ∧ parsed.nanos < 1000000000 ∧
      row.executedAt = (firstDue parsed.secs (scansAfterApproval C id .empty ops)).map iso8601At := by
  obtain ⟨before, op, later, first, rfl, free, created, rfl⟩ := find_origin Table.find_empty found
  have laterClocks : Clocks later := fun other member => clocks other (by simp [member])
  have kept : (later.foldl ModuleApproval.after first).fixed = first.fixed := foldl_fixed later
  have firstKind : first.kind = .gate := (congrArg (·.2.1.1) kept).symm.trans kind
  rcases find_created free created with ⟨module_, requestId, action, target, clock, rfl, submitted⟩ |
    ⟨module_, requestId, action, target, clock, rfl, inserted⟩
  · obtain ⟨known, text, parsed, rfl, read, whole, four, inserted⟩ := gate_cases gregorian submitted
    obtain ⟨-, new, put, newId, newModule, newRequest, newKind, newAction, newTarget, pending, unmarked⟩ :=
      insert_cases inserted
    have same : new = first := by
      rw [put, ← newId, Table.find_put_self] at created
      exact Option.some_inj.mp created
    subst same
    subst newId newModule newRequest newAction
    have waits : new.Waits parsed.secs := ⟨newKind, known, newTarget⟩
    have scans : scansAfterApproval C new.id .empty (before ++ .gate new.id new.module_ new.requestId new.action
          (some text) clock :: later) =
        scansAfterApproval C new.id (step C (run (step C) before .empty)
          (.gate new.id new.module_ new.requestId new.action (some text) clock)) later := by
      rw [scans_before free, scansAfterApproval, free]
      rfl
    have moduleKept : (later.foldl ModuleApproval.after new).module_ = new.module_ := congrArg (·.1.2.1) kept
    have requestKept : (later.foldl ModuleApproval.after new).requestId = new.requestId := congrArg (·.1.2.2) kept
    have actionKept : (later.foldl ModuleApproval.after new).action = new.action := congrArg (·.2.1.2.2.1) kept
    rw [moduleKept, requestKept, actionKept, scans,
      foldl_executed four laterClocks waits created fun _ => unmarked, unmarked, Option.none_or]
    exact ⟨before, text, parsed, clock, later, rfl, free, read, whole, rfl⟩
  · obtain ⟨-, new, put, newId, -, -, newKind, -⟩ := insert_cases inserted
    rw [put, ← newId, Table.find_put_self, Option.some_inj] at created
    rw [created, firstKind] at newKind
    cases newKind

/-- At every instant a pending row is either still open to a decision or already due to time out. -/
theorem pending_taken_once {to_ : ModuleApprovalDecision} (allowed : to_ = .approved ∨ to_ = .denied)
    (found : t.find id = some row) (pending : row.decision = .pending) :
    ((step C t (.decide id to_ clock)).find id = some (row.decided to_ (iso8601At clock)) ∧
      (step C t (.timeoutScan clock)).find id = some row) ∨
    ((step C t (.decide id to_ clock)).find id = some row ∧
      (step C t (.timeoutScan clock)).find id = some (row.decided .timedOut (iso8601At clock))) := by
  have key : row.id = id := Table.find_key found
  rw [find_step found, find_step found, ModuleApproval.after, ModuleApproval.after]
  by_cases live : iso8601At clock ≤ row.expiresAt
  · have open_ : row.open_ (iso8601At clock) = true := by simp [ModuleApproval.open_, pending, live]
    have kept : row.expired (iso8601At clock) = false := by
      rw [ModuleApproval.expired, decide_eq_false (String.not_lt.mpr live), Bool.and_false]
    rw [if_pos ⟨allowed, key, open_⟩, kept, if_neg Bool.false_ne_true]
    exact .inl ⟨rfl, rfl⟩
  · have closed : row.open_ (iso8601At clock) = false := by simp [ModuleApproval.open_, live]
    have expired : row.expired (iso8601At clock) = true := by
      simp [ModuleApproval.expired, pending, String.not_le.mp live]
    rw [closed, if_neg fun all => Bool.false_ne_true all.2.2, if_pos expired]
    exact .inr ⟨rfl, rfl⟩

end

/-- The texts of the clock are ordered as the seconds are, so the scans execute each gate when its time has come,
and no pending row escapes. -/
theorem text_order_is_time_order (C : Chrono) (gregorian : C.Gregorian) :
    (∀ secs : Nat, secs < 2 ^ 64 → ∃ date h m s, Shows secs date h m s ∧ iso8601At secs = stamp date h m s) ∧
    (∀ a b : Nat, (dateAt a).year ≤ 9999 → (dateAt b).year ≤ 9999 → (iso8601At a < iso8601At b ↔ a < b)) ∧
    (∀ ops id row, Clocks ops → (run (step C) ops .empty).find id = some row → row.kind = .gate →
      ∃ before text parsed clock later,
        ops = before ++ .gate id row.module_ row.requestId row.action (some text) clock :: later ∧
        (run (step C) before .empty).find id = none ∧ C.parse text = .ok parsed ∧ parsed.nanos < 1000000000 ∧
        row.executedAt = (firstDue parsed.secs (scansAfterApproval C id .empty ops)).map iso8601At) ∧
    (∀ t id row to_ clock, to_ = .approved ∨ to_ = .denied → t.find id = some row → row.decision = .pending →
      ((step C t (.decide id to_ clock)).find id = some (row.decided to_ (iso8601At clock)) ∧
        (step C t (.timeoutScan clock)).find id = some row) ∨
      ((step C t (.decide id to_ clock)).find id = some row ∧
        (step C t (.timeoutScan clock)).find id = some (row.decided .timedOut (iso8601At clock)))) := by
  refine ⟨?_, ?_, ?_, ?_⟩
  · intro secs _
    have shows_ := shows_utc secs
    exact ⟨_, _, _, _, shows_, (iso8601At_eq secs).trans shows_.stamp_eq.symm⟩
  · intro a b yearA yearB
    rw [iso8601At_eq, iso8601At_eq, utcText_lt_iff (fourDigits_clock yearA) (fourDigits_clock yearB)]
    exact Int.ofNat_lt
  · intro ops id row clocks found kind
    exact executed_origin gregorian clocks found kind
  · intro t id row to_ clock allowed found pending
    exact pending_taken_once allowed found pending

/-- A parser that knows one text, nine tenths into the first second of 2026. -/
def newYear : Chrono where
  parse text := if text = "2026-01-01T01:00:00.9+01:00" then .ok ⟨1767225600,
      900000000⟩ else .error "premature end of input"
  year instant := (dateAt instant).year
  format := utcText

theorem newYear_gregorian : newYear.Gregorian where
  year _ shows_ := congrArg (·.year) shows_.date_eq.symm
  format _ shows_ _ _ := shows_.stamp_eq.symm

def newYearOps : List Op :=
  [.gate "a" "kin24" "r" "schedule_callback" (some "2026-01-01T01:00:00.9+01:00") 1767225500,
    .executeScan 1767225501, .decide "a" .approved 1767225502, .executeScan 1767225599, .executeScan 1767225600]

theorem newYear_executed :
    ((run (step newYear) newYearOps .empty).find "a").map (·.executedAt) = some (some (iso8601At 1767225600)) := by
  have gate_ : ((run (step newYear) newYearOps .empty).find "a").map (·.kind) = some .gate := by decide +kernel
  have scans : scansAfterApproval newYear "a" .empty newYearOps = [1767225599, 1767225600] := by decide +kernel
  have clocks : Clocks newYearOps := by
    have all : newYearOps.all (fun op => decide ((dateAt op.clock).year ≤ 9999)) = true := by decide +kernel
    exact fun op member => of_decide_eq_true (List.all_eq_true.mp all op member)
  obtain ⟨row, found, kind⟩ := Option.map_eq_some_iff.mp gate_
  obtain ⟨before, text, parsed, clock, later, -, -, read, -, executed⟩ :=
    (text_order_is_time_order newYear newYear_gregorian).2.2.1 newYearOps "a" row clocks found kind
  have due : parsed.secs = 1767225600 := by
    unfold newYear at read
    dsimp only at read
    split at read
    · cases read
      rfl
    · cases read
  rfl

end Agent24.Approvals
