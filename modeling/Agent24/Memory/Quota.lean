import Agent24.Memory.Ledger

/-! Admission: what the quota gate bounds, what it lets through, and how often it can be bypassed. -/

set_option autoImplicit false
namespace Agent24.Memory
open Library

namespace EventTables
variable {P : Platform}

structure Within (t : EventTables) : Prop where
  fallback : (t.quota "*").isSome = true
  rows : ∀ owner m, t.limit QuotaRow.maxRows owner = some m → (t.used owner).rowCount ≤ m
  bytes : ∀ owner m, t.limit QuotaRow.maxBytes owner = some m → (t.used owner).byteCount ≤ m

theorem limit_some {t : EventTables} (fallback : (t.quota "*").isSome = true) (bound : QuotaRow → Int)
    (owner : String) : ∃ m, t.limit bound owner = some m := by
  unfold limit
  cases t.quota owner with
  | some row => exact ⟨_, rfl⟩
  | none =>
    obtain ⟨row, stored⟩ := Option.isSome_iff_exists.mp fallback
    exact ⟨bound row, by rw [stored]; rfl⟩

theorem exceeds_some (amount m : Int) : exceeds amount (some m) = false ↔ amount ≤ m := by
  simp [exceeds, ThreeValued.selects, ThreeValued.compare]

theorem used_of_usage {t t' : EventTables} (usage : t'.usage = t.usage) (owner : String) :
    t'.used owner = t.used owner := by
  simp only [used, usage]

theorem quotaGate_none {t : EventTables} {row : EventColumns} (admitted : t.quotaGate P row = none)
    (fresh : t.hasId row.id = false) (counted : t.exemptNow P row = false) :
    exceeds ((t.used row.scopeOwner).rowCount + 1) (t.limit QuotaRow.maxRows row.scopeOwner) = false ∧
      exceeds ((t.used row.scopeOwner).byteCount + row.payload.byteLength)
        (t.limit QuotaRow.maxBytes row.scopeOwner) = false := by
  simp only [quotaGate, fresh, counted, Bool.not_false, ThreeValued.not_known,
    ThreeValued.coalesce_known, Bool.and_self, if_true] at admitted
  split at admitted
  · cases admitted
  next rows =>
  split at admitted
  · cases admitted
  · next bytes => exact ⟨by simpa using rows, by simpa using bytes⟩

theorem store_used (t : EventTables) (seq : Int) (row : EventColumns) (owner : String) :
    (t.store P seq row).used owner = (t.used owner).plus
      (.onlyIf (row.scopeOwner = owner) (.charge (t.exemptNow P row) row.payload.byteLength)) :=
  addUsage_used ..

theorem Within.store {t : EventTables} (within : t.Within) {row : EventColumns} (seq : Int)
    (admitted : t.quotaGate P row = none) (fresh : t.hasId row.id = false) :
    (t.store P seq row).Within := by
  refine ⟨within.fallback, fun owner m bound => ?_, fun owner m bound => ?_⟩
  · change t.limit QuotaRow.maxRows owner = some m at bound
    have before := within.rows owner m bound
    rw [store_used]
    by_cases here : row.scopeOwner = owner
    · subst here
      cases class_ : t.exemptNow P row with
      | true => simpa [UsageRow.plus, UsageRow.charge] using before
      | false =>
        have room := (quotaGate_none admitted fresh class_).1
        rw [bound, exceeds_some] at room
        simpa [UsageRow.plus, UsageRow.charge] using room
    · rw [UsageRow.onlyIf_false here, UsageRow.plus_zero]
      exact before
  · change t.limit QuotaRow.maxBytes owner = some m at bound
    have before := within.bytes owner m bound
    rw [store_used]
    by_cases here : row.scopeOwner = owner
    · subst here
      cases class_ : t.exemptNow P row with
      | true => simpa [UsageRow.plus, UsageRow.charge] using before
      | false =>
        have room := (quotaGate_none admitted fresh class_).2
        rw [bound, exceeds_some] at room
        simpa [UsageRow.plus, UsageRow.charge] using room
    · rw [UsageRow.onlyIf_false here, UsageRow.plus_zero]
      exact before

theorem insert_stored {t : EventTables} {row : EventColumns} (stored : t.hasId row.id = true)
    (clause : Clause) (seq : Option Int) : t.insert P clause seq row = .ok (t, none) := by
  simp [insert, quotaGate, stored]

def IsRetraction (P : Platform) (payload : Payload) : Prop :=
  (∃ id, payload.sqliteView P = some (.obj [("assertion_id", .str id)])) ∧ payload.byteLength ≤ 256

theorem sqliteType_text {value : Json} (text : sqliteType value = "text") : ∃ s, value = .str s := by
  cases value with
  | str s => exact ⟨s, rfl⟩
  | bool b => cases b <;> simp [sqliteType] at text
  | null | int | float | arr | obj => simp [sqliteType] at text

theorem sqliteType_object {value : Json} (object : sqliteType value = "object") :
    ∃ fields, value = .obj fields := by
  cases value with
  | obj fields => exact ⟨fields, rfl⟩
  | bool b => cases b <;> simp [sqliteType] at object
  | null | int | float | arr | str => simp [sqliteType] at object

theorem retractionPayload_iff (payload : Payload) :
    ThreeValued.coalesce (retractionPayload P payload) false = true ↔ IsRetraction P payload := by
  unfold retractionPayload IsRetraction
  cases view : payload.sqliteView P with
  | none => simp
  | some value =>
    simp only [ThreeValued.coalesce_and_false, ThreeValued.coalesce_known, beq_iff_eq,
      decide_eq_true_eq, Option.some.injEq]
    refine and_congr_left fun _ => ?_
    constructor
    · rintro ⟨⟨object, single⟩, text⟩
      obtain ⟨fields, rfl⟩ := sqliteType_object object
      obtain ⟨⟨key, entry⟩, rfl⟩ := List.length_eq_one_iff.mp single
      by_cases named : key = "assertion_id"
      · subst named
        simp only [Json.get?, List.find?_cons, beq_self_eq_true, Option.map_some,
          ThreeValued.compare, ThreeValued.coalesce, Option.getD_some, beq_iff_eq] at text
        obtain ⟨id, rfl⟩ := sqliteType_text text
        exact ⟨id, rfl⟩
      · simp [Json.get?, named, ThreeValued.compare] at text
    · rintro ⟨id, rfl⟩
      exact ⟨⟨rfl, rfl⟩, rfl⟩

theorem exemptNow_iff (t : EventTables) (row : EventColumns) :
    t.exemptNow P row = true ↔ row.kind = "assertion.retracted" ∧
      t.partitions row.scopeOwner = some .personal ∧ IsRetraction P row.payload := by
  unfold exemptNow
  simp only [ThreeValued.coalesce_and_false, ThreeValued.coalesce_known, retractionPayload_iff,
    beq_iff_eq, isPersonal, and_assoc]

def OnlyRetractions (P : Platform) (t : EventTables) : Prop :=
  ∀ row ∈ t.events, t.exempt row.id = true →
    row.kind = "assertion.retracted" ∧ IsRetraction P row.payload

theorem unowned_fields {row old : EventRow} (same : unowned row = unowned old) :
    row.id = old.id ∧ row.kind = old.kind ∧ row.payload = old.payload := by
  simp only [unowned, EventRow.setOwner, EventRow.mk.injEq, EventColumns.mk.injEq] at same
  obtain ⟨⟨id, -, -, -, kind, payload, -⟩, -⟩ := same
  exact ⟨id, kind, payload⟩

theorem Kept.onlyRetractions {t t' : EventTables} (kept : Kept P t t') (before : OnlyRetractions P t) :
    OnlyRetractions P t' := by
  intro row member exempt
  rcases kept.rows row member with ⟨old, stored, same⟩ | decided
  · obtain ⟨id, kind, payload⟩ := unowned_fields same
    have class_ := kept.classes row.id ((hasId_iff t row.id).mpr ⟨old, stored, id.symm⟩)
      ((hasId_iff t' row.id).mpr ⟨row, member, rfl⟩)
    rw [class_, id] at exempt
    rw [kind, payload]
    exact before old stored exempt
  · rw [decided] at exempt
    obtain ⟨kind, -, payload⟩ := (exemptNow_iff t row.toEventColumns).mp exempt
    exact ⟨kind, payload⟩

end EventTables

namespace Statement
open EventTables
variable {P : Platform}

def isAdmission : Statement → Prop
  | .insert .. | .setPartition .. | .setQuota .. | .deleteQuota _ | .renameQuota .. => True
  | _ => False

def RaisesLimits (before after : EventTables) : Prop :=
  ∀ bound ∈ [QuotaRow.maxRows, QuotaRow.maxBytes], ∀ owner m m',
    before.limit bound owner = some m → after.limit bound owner = some m' → m ≤ m'

/-- The triggers on `mem_owner_quota` keep the default row. -/
theorem exec_fallback {t t' : EventTables} (fallback : (t.quota "*").isSome = true) {s : Statement}
    (admission : s.isAdmission) (done : s.exec P t = .ok t') : (t'.quota "*").isSome = true := by
  cases s with
  | insert =>
    obtain ⟨⟨after, stored⟩, inserted, rfl⟩ := map_ok done
    simp only [EventTables.insert] at inserted
    split at inserted
    · cases inserted
    split at inserted
    · obtain ⟨rfl, -⟩ := Prod.mk.inj (Except.ok.inj inserted)
      exact fallback
    split at inserted
    · cases inserted
    split at inserted
    · cases inserted
    · obtain ⟨rfl, -⟩ := Prod.mk.inj (Except.ok.inj inserted)
      exact fallback
    next cleared resolved =>
    obtain ⟨rfl, -⟩ := Prod.mk.inj (Except.ok.inj inserted)
    simp only [resolve] at resolved
    split at resolved
    · split at resolved
      · cases resolved
      · split at resolved <;> cases resolved
      · obtain rfl := Option.some.inj (Except.ok.inj resolved)
        exact fallback
    · obtain rfl := Option.some.inj (Except.ok.inj resolved)
      exact fallback
  | setPartition owner kind => obtain rfl := Except.ok.inj done; exact fallback
  | setQuota owner row =>
    obtain rfl := Except.ok.inj done
    by_cases here : owner = "*"
    · subst here; simp
    · simpa [Function.update_of_ne (Ne.symm here)] using fallback
  | deleteQuota owner =>
    simp only [exec] at done
    split at done
    · cases done
    next allowed =>
    obtain rfl := Except.ok.inj done
    by_cases here : owner = "*"
    · subst here; simp [fallback] at allowed
    · simpa [Function.update_of_ne (Ne.symm here)] using fallback
  | renameQuota owner newOwner =>
    simp only [exec] at done
    split at done
    · obtain rfl := Except.ok.inj done; exact fallback
    next row stored =>
    split at done
    · cases done
    next allowed =>
    split at done
    · obtain rfl := Except.ok.inj done; exact fallback
    next moved =>
    split at done
    · cases done
    obtain rfl := Except.ok.inj done
    by_cases target : newOwner = "*"
    · subst target; simp
    by_cases source : owner = "*"
    · subst source; simp [target] at allowed
    · simpa [Function.update_of_ne (Ne.symm target),
        Function.update_of_ne (Ne.symm source)] using fallback
  | moveOwner | delete | setPayload | setId => exact absurd admission (fun h => h)

theorem apply_within {t : EventTables} (sound : t.Sound) (within : t.Within) {s : Statement}
    (admission : s.isAdmission) (raises : RaisesLimits t (s.apply P t)) : (s.apply P t).Within := by
  unfold apply at raises ⊢
  cases done : s.exec P t with
  | error error => exact within
  | ok t' =>
    simp only [done] at raises ⊢
    have fallback := exec_fallback within.fallback admission done
    -- a statement that leaves the counters alone can only have changed the limits
    have quiet : t'.usage = t.usage → t'.Within := by
      intro usage
      refine ⟨fallback, fun owner m bound => ?_, fun owner m bound => ?_⟩ <;>
        rw [used_of_usage usage]
      · obtain ⟨old, before⟩ := limit_some within.fallback QuotaRow.maxRows owner
        exact (within.rows owner old before).trans
          (raises _ (by simp) owner old m before bound)
      · obtain ⟨old, before⟩ := limit_some within.fallback QuotaRow.maxBytes owner
        exact (within.bytes owner old before).trans
          (raises _ (by simp) owner old m before bound)
    cases s with
    | insert =>
      obtain ⟨⟨after, stored⟩, inserted, rfl⟩ := map_ok done
      obtain ⟨admitted, ⟨-, same, -⟩ | ⟨newSeq, -, -, fresh, -, -, same⟩⟩ := insert_cases sound inserted
      · rw [same]
        exact within
      · rw [same]
        exact within.store newSeq admitted fresh
    | setPartition => obtain rfl := Except.ok.inj done; exact quiet rfl
    | setQuota => obtain rfl := Except.ok.inj done; exact quiet rfl
    | deleteQuota =>
      simp only [exec] at done
      split at done
      · cases done
      · obtain rfl := Except.ok.inj done; exact quiet rfl
    | renameQuota =>
      simp only [exec] at done
      split at done
      · obtain rfl := Except.ok.inj done; exact quiet rfl
      split at done
      · cases done
      split at done
      · obtain rfl := Except.ok.inj done; exact quiet rfl
      split at done
      · cases done
      · obtain rfl := Except.ok.inj done; exact quiet rfl
    | moveOwner | delete | setPayload | setId => exact absurd admission (fun h => h)

def NeverLowers (P : Platform) : List Statement → EventTables → Prop
  | [], _ => True
  | s :: rest, t => s.isAdmission ∧ RaisesLimits t (s.apply P t) ∧ NeverLowers P rest (s.apply P t)

theorem run_within {statements : List Statement} {t : EventTables} (sound : t.Sound)
    (within : t.Within) (legal : NeverLowers P statements t) :
    (run (fun t (s : Statement) => s.apply P t) statements t).Within := by
  induction statements generalizing t with
  | nil => exact within
  | cons s rest ih =>
    obtain ⟨admission, raises, legal⟩ := legal
    exact ih (apply_kept sound s).sound (apply_within sound within admission raises) legal

end Statement

section
variable (P : Platform)

def verdictOf (row : EventRow) : Option Json := (row.payload.value P).bind fun body => body.get? "verdict"

def isActivation (row : EventRow) : Bool :=
  row.kind == "assertion.reasserted" || (row.kind == "mem.write_decision" &&
    (verdictOf P row == some (.str "commit") || verdictOf P row == some (.str "hold")))

def activates (owner : String) (row : EventRow) : Bool := row.scopeOwner == owner && isActivation P row

def retracts (owner : String) (row : EventRow) : Bool :=
  row.scopeOwner == owner && row.kind == "assertion.retracted"

def isLive (owner : String) (row : AssertionRow) : Bool := row.scopeOwner == owner && row.recordedTo == none

def count {α : Type} (select : α → Bool) (items : List α) : Int := tally (fun _ => 1) select items

/-- Every current assertion and every retraction is paid for by an activation of its own. -/
structure PaidFor (db : MemoryDb) : Prop where
  distinct : db.Distinct
  exempted : ∀ row ∈ db.log.events, db.log.exempt row.id = true → row.kind = "assertion.retracted"
  covered : ∀ owner, count (retracts owner) db.log.events + count (isLive owner) db.assertions ≤
    count (activates P owner) db.log.events

variable {P}

theorem count_nonneg {α : Type} (select : α → Bool) (items : List α) : 0 ≤ count select items :=
  tally_nonneg _ _ fun _ _ => by omega

theorem Appended.count {e : MemEvent} {log log' : EventTables} (appended : Appended P e log log')
    (select : EventRow → Bool) :
    count select log'.events = count select log.events +
      if select ⟨e.columns, log.lastSeq + 1⟩ then 1 else 0 := by
  rw [appended.events]
  simp [Memory.count]

theorem Appended.exempted {e : MemEvent} {log log' : EventTables} (appended : Appended P e log log')
    (before : ∀ row ∈ log.events, log.exempt row.id = true → row.kind = "assertion.retracted") :
    ∀ row ∈ log'.events, log'.exempt row.id = true → row.kind = "assertion.retracted" := by
  intro row member exempt
  rw [appended.stored, EventTables.store_exempt] at exempt
  rw [appended.events, List.mem_append, List.mem_singleton] at member
  rcases member with member | rfl
  · rw [Function.update_of_ne] at exempt
    · exact before row member exempt
    · intro same
      have stored := (EventTables.hasId_iff log e.id).mpr ⟨row, member, same⟩
      rw [appended.unused] at stored
      cases stored
  · rw [Function.update_self] at exempt
    exact ((EventTables.exemptNow_iff log e.columns).mp exempt).1

theorem auditEvent_counts (owner now : String) (seq : Int) (c : Candidate) (verdict : String)
    (reason : Option String) :
    retracts owner ⟨(WriteGate.auditEvent P now c verdict reason).columns, seq⟩ = false ∧
      (verdict = "commit" ∨ verdict = "hold" →
        activates P owner ⟨(WriteGate.auditEvent P now c verdict reason).columns, seq⟩ =
          (c.scope.owner == owner)) := by
  refine ⟨?_, ?_⟩
  · simp [retracts, WriteGate.auditEvent, MemEvent.new, MemEvent.columns]
  · rintro (rfl | rfl) <;>
      simp [activates, isActivation, verdictOf, WriteGate.auditEvent, MemEvent.new, MemEvent.columns,
        WriteGate.auditBody, Payload.value, Json.get?]

theorem count_closeOpen (id owner recordedAt other : String) (rows : List AssertionRow) :
    count (isLive other) (rows.map fun row =>
        if MemoryDb.isOpenRow id owner row then MemoryDb.close recordedAt row else row) +
      (if rows.any (MemoryDb.isOpenRow id owner) = true ∧ owner = other then 1 else 0) ≤
    count (isLive other) rows := by
  induction rows with
  | nil => simp [count]
  | cons row rest ih =>
    simp only [count, List.map_cons, tally_cons, List.any_cons] at ih ⊢
    rcases Bool.eq_false_or_eq_true (MemoryDb.isOpenRow id owner row) with current | current
    · have closed : isLive other (MemoryDb.close recordedAt row) = false := by
        simp [isLive, MemoryDb.close]
      have lively : isLive other row = (owner == other) := by
        simp only [MemoryDb.isOpenRow, Bool.and_eq_true, beq_iff_eq] at current
        simp [isLive, current.1.2, current.2]
      simp only [current, if_true, closed, lively, Bool.true_or, true_and, Bool.false_eq_true, if_false,
        beq_iff_eq]
      split at ih <;> split <;> omega
    · simp only [current, Bool.false_eq_true, if_false, Bool.false_or]
      omega

theorem PaidFor.accepted {reads : Reads} {c : Candidate} {db db' : MemoryDb} {decision : WriteDecision}
    (paid : PaidFor P db) (accepted : WriteGate.Accepted P reads c db decision db') :
    PaidFor P db' := by
  have distinct := accepted.distinct paid.distinct
  cases accepted with
  | rejectedUnowned => exact paid
  | paused => exact paid
  | rejected reason decided log appended =>
    refine ⟨distinct, appended.exempted paid.exempted, fun owner => ?_⟩
    have before := paid.covered owner
    have silent := (auditEvent_counts (P := P) owner reads.audited (db.log.lastSeq + 1) c "reject"
      (some reason)).1
    have active := appended.count (activates P owner)
    have retracted := appended.count (retracts owner)
    rw [silent] at retracted
    simp only [Bool.false_eq_true, if_false] at retracted
    dsimp only
    split at active <;> omega
  | inserted qualified decided unused log appended =>
    refine ⟨distinct, appended.exempted paid.exempted, fun owner => ?_⟩
    have before := paid.covered owner
    have counts := auditEvent_counts (P := P) owner reads.audited (db.log.lastSeq + 1) c
      (if qualified then "commit" else "hold") none
    have active := appended.count (activates P owner)
    have retracted := appended.count (retracts owner)
    rw [counts.1] at retracted
    rw [counts.2 (by cases qualified <;> simp)] at active
    have live : count (isLive owner) (db.assertions ++
        [⟨WriteGate.toAssertion reads.created c qualified, c.scope.owner⟩]) =
        count (isLive owner) db.assertions + if (c.scope.owner == owner) then 1 else 0 := by
      simp [count, isLive, WriteGate.toAssertion, Assertion.new]
    simp only [Bool.false_eq_true, if_false] at retracted
    simp only
    omega
  | reused decided remember row =>
    refine ⟨distinct, by simpa using paid.exempted, fun owner => ?_⟩
    have before := paid.covered owner
    have live : count (isLive owner) (WriteGate.tightenSourceRef c row db).assertions =
        count (isLive owner) db.assertions := by
      rcases WriteGate.tightenSourceRef_rows c row db with same | rows
      · rw [same]
      · rw [rows]
        exact tally_rewriteKey_same (WriteGate.withSourceRef c.sourceRef) (fun _ => rfl) (fun _ => rfl) _
    rw [live, WriteGate.tightenSourceRef_log]
    exact before
  | reactivated decided remember room enabled row found same closed audited log audit appended =>
    -- the audit may be stored already, so the reassert event is what pays
    have first : (∀ owner, count (retracts owner) audited.events = count (retracts owner) db.log.events) ∧
        (∀ owner, count (activates P owner) db.log.events ≤ count (activates P owner) audited.events) ∧
        ∀ row ∈ audited.events, audited.exempt row.id = true → row.kind = "assertion.retracted" := by
      rcases WriteGate.ensureAudit_cases audit with ⟨rfl, -⟩ | stored
      · exact ⟨fun _ => rfl, fun _ => le_refl _, paid.exempted⟩
      refine ⟨fun owner => ?_, fun owner => ?_, stored.exempted paid.exempted⟩
      · have counted := stored.count (retracts owner)
        rw [(auditEvent_counts (P := P) owner reads.audited _ c "commit" none).1] at counted
        simpa using counted
      · have counted := stored.count (activates P owner)
        split at counted <;> omega
    obtain ⟨retractions, activations, exempted⟩ := first
    refine ⟨distinct, appended.exempted exempted, fun owner => ?_⟩
    have before := paid.covered owner
    obtain ⟨member, named⟩ := MemoryDb.find_some found
    have owned : row.scopeOwner = c.scope.owner := by
      simp only [WriteGate.contentMatches, Bool.and_eq_true, beq_iff_eq] at same
      exact same.1.1.1.1
    have live : count (isLive owner) (rewriteKey AssertionRow.key c.id (WriteGate.reopen c) db.assertions) =
        count (isLive owner) db.assertions + if (c.scope.owner == owner) then 1 else 0 := by
      have edited := tally_rewriteKey paid.distinct member (WriteGate.reopen c) (fun _ => 1)
        (isLive owner)
      have dead : isLive owner row = false := by
        rw [isLive, beq_eq_false_iff_ne.mpr closed, Bool.and_false]
      have alive : isLive owner (WriteGate.reopen c row) = (c.scope.owner == owner) := by
        simp [isLive, WriteGate.reopen, owned]
      have keyed : row.key = c.id := named
      rw [keyed, dead, alive] at edited
      simpa [count] using edited
    have active := appended.count (activates P owner)
    have retracted := appended.count (retracts owner)
    have pays : activates P owner ⟨(WriteGate.reassertEvent P reads.now c audited).columns,
        audited.lastSeq + 1⟩ = (c.scope.owner == owner) := by
      simp [activates, isActivation, WriteGate.reassertEvent, MemEvent.new, MemEvent.columns]
    have silent : retracts owner ⟨(WriteGate.reassertEvent P reads.now c audited).columns,
        audited.lastSeq + 1⟩ = false := by
      simp [retracts, WriteGate.reassertEvent, MemEvent.new, MemEvent.columns]
    have same := retractions owner
    have grown := activations owner
    rw [pays] at active
    rw [silent] at retracted
    simp only [Bool.false_eq_true, if_false] at retracted
    simp only
    omega

theorem PaidFor.forgot {owner id recordedAt : String} {db db' : MemoryDb} {outcome : MemoryDb.Forget}
    (paid : PaidFor P db) (forgot : MemoryDb.Forgot P owner id recordedAt db outcome db') :
    PaidFor P db' := by
  cases forgot with
  | already => exact paid
  | notFound => exact paid
  | forgotten log current appended =>
    have distinct := paid.distinct.closeOpen id owner recordedAt
    refine ⟨distinct, appended.exempted paid.exempted, fun other => ?_⟩
    have before := paid.covered other
    have live := count_closeOpen id owner recordedAt other db.assertions
    have active := appended.count (activates P other)
    have retracted := appended.count (retracts other)
    have once : retracts other ⟨(MemoryDb.retractEvent owner id recordedAt
        (Text.fresh (MemoryDb.retractIds db.log (MemoryDb.retractBase P owner id))
          (Text.suffixed (MemoryDb.retractBase P owner id)))).columns, db.log.lastSeq + 1⟩ =
        (owner == other) := by
      simp [retracts, MemoryDb.retractEvent, MemEvent.new, MemEvent.columns, Scope.ofOwner]
    rw [once] at retracted
    simp only [current, true_and, beq_iff_eq] at live retracted
    simp only [MemoryDb.closeOpen]
    split at active <;> omega

theorem PaidFor.apply {db : MemoryDb} (paid : PaidFor P db) {op : LedgerOp} (gated : op.isGated) :
    PaidFor P (op.apply P db) := by
  cases op with
  | forget disk owner id recordedAt =>
    simp only [LedgerOp.apply]
    cases done : db.forget P disk owner id recordedAt with
    | error error => exact paid
    | ok result => exact paid.forgot (MemoryDb.forget_cases done)
  | propose batch =>
    exact WriteGate.propose_invariant (fun _ _ _ _ _ _ holds accepted => holds.accepted accepted) paid
  | configure => exact ⟨paid.distinct, paid.exempted, paid.covered⟩
  | assertFact | retract => exact absurd gated (fun h => h)

theorem fresh_paidFor (partitions : String → Option SpaceKind) (settings : String → Option Payload) :
    PaidFor P (MemoryDb.fresh partitions settings) :=
  ⟨List.nodup_nil, (fun _ absent => nomatch absent), fun _ => by simp [MemoryDb.fresh, History.empty, History.migrated, count]⟩

theorem exempt_le_activations (partitions : String → Option SpaceKind)
    (settings : String → Option Payload) {ops : List LedgerOp} (gated : ∀ op ∈ ops, op.isGated)
    (owner : String) :
    let log := ((MemoryDb.fresh partitions settings).after P ops).log
    (log.events.filter fun row => row.scopeOwner == owner && log.exempt row.id).length ≤
      (log.events.filter (activates P owner)).length := by
  intro log
  have paid : PaidFor P ((MemoryDb.fresh partitions settings).after P ops) :=
    run_invariant (LedgerOp.apply P) LedgerOp.isGated (PaidFor P)
      (fun _ _ gated paid => paid.apply gated) gated
      (fresh_paidFor partitions settings)
  have live := count_nonneg (isLive owner) ((MemoryDb.fresh partitions settings).after P ops).assertions
  have covered : count (retracts owner) log.events ≤ count (activates P owner) log.events :=
    (Int.le_add_of_nonneg_right live).trans (paid.covered owner)
  have exempted : count (fun row => row.scopeOwner == owner && log.exempt row.id) log.events ≤
      count (retracts owner) log.events := by
    refine tally_le_of_imp _ _ _ (fun _ _ => by omega) fun row member exempt => ?_
    rw [Bool.and_eq_true] at exempt
    rw [retracts, exempt.1, paid.exempted row member exempt.2]
    rfl
  have bound : count (fun row => row.scopeOwner == owner && log.exempt row.id) log.events ≤
      count (activates P owner) log.events := by omega
  simp only [count, tally_unit] at bound
  exact_mod_cast bound

theorem append_stored {log : EventTables} {e : MemEvent} (stored : log.hasId e.id = true)
    (disk : Option DiskSample) (owner dimension : String) :
    append P disk e log ≠ .error (.quotaExceeded owner dimension) := by
  intro refused
  simp only [append] at refused
  split at refused
  · cases refused
  rw [EventTables.insert_stored (show log.hasId e.columns.id = true from stored)] at refused
  dsimp only at refused
  split at refused
  · cases refused
  · split at refused <;> cases refused

end

namespace History
open EventTables Statement
variable {P : Platform}

theorem empty_within (partitions : String → Option SpaceKind) :
    (History.empty partitions).migrated.Within := by
  refine ⟨rfl, fun owner m bound => ?_, fun owner m bound => ?_⟩
  · have default : (History.empty partitions).migrated.limit QuotaRow.maxRows owner = some 200000 := by
      by_cases star : owner = "*" <;> simp [limit, migrated, star]
    obtain rfl := Option.some.inj (default.symm.trans bound)
    simp [used, migrated, History.empty, UsageRow.zero]
  · have default : (History.empty partitions).migrated.limit QuotaRow.maxBytes owner =
        some 268435456 := by
      by_cases star : owner = "*" <;> simp [limit, migrated, star]
    obtain rfl := Option.some.inj (default.symm.trans bound)
    simp [used, migrated, History.empty, UsageRow.zero]

theorem after_onlyRetractions (P : Platform) (h : History) (statements : List Statement) :
    OnlyRetractions P (h.after P statements) := by
  have both : (h.after P statements).Sound ∧ OnlyRetractions P (h.after P statements) :=
    run_invariant _ (fun _ => True) (fun t => t.Sound ∧ OnlyRetractions P t)
      (fun t s _ holds =>
        have kept := Statement.apply_kept holds.1 s
        ⟨kept.sound, kept.onlyRetractions holds.2⟩)
      (fun _ _ => trivial) ⟨h.migrated_sound, fun _ _ exempt => nomatch exempt⟩
  exact both.2

theorem added_exempt_iff (P : Platform) (h : History) (statements : List Statement) (s : Statement)
    {row : EventRow} (member : row ∈ (s.apply P (h.after P statements)).events)
    (added : (h.after P statements).hasId row.id = false) :
    (s.apply P (h.after P statements)).exempt row.id = true ↔ row.kind = "assertion.retracted" ∧
      (h.after P statements).partitions row.scopeOwner = some .personal ∧
      IsRetraction P row.payload := by
  have kept := Statement.apply_kept (P := P) (h.after_sound P statements) s
  rcases kept.rows row member with ⟨old, stored, same⟩ | decided
  · have present := (hasId_iff _ row.id).mpr ⟨old, stored, (unowned_fields same).1.symm⟩
    rw [added] at present
    cases present
  · rw [decided]
    exact exemptNow_iff ..

/-- A store within its limits stays so while no limit is lowered; only personal retractions are exempt, and the gate
appends no more of them than activations. -/
theorem quota_admission (P : Platform) :
    (∀ partitions, (History.empty partitions).migrated.Within) ∧
    (∀ (h : History) statements, h.migrated.Within → NeverLowers P statements h.migrated →
      ∀ owner, ∃ maxRows maxBytes,
        (h.after P statements).limit QuotaRow.maxRows owner = some maxRows ∧
        (h.after P statements).limit QuotaRow.maxBytes owner = some maxBytes ∧
        ((h.after P statements).used owner).rowCount ≤ maxRows ∧
        ((h.after P statements).used owner).byteCount ≤ maxBytes) ∧
    (∀ (t : EventTables) clause seq row, t.hasId row.id = true →
      t.insert P clause seq row = .ok (t, none)) ∧
    (∀ (t : EventTables) disk (e : MemEvent) owner dimension, t.hasId e.id = true →
      append P disk e t ≠ .error (.quotaExceeded owner dimension)) ∧
    (∀ (h : History) statements (s : Statement), ∀ row ∈ (s.apply P (h.after P statements)).events,
      (h.after P statements).hasId row.id = false →
      ((s.apply P (h.after P statements)).exempt row.id = true ↔ row.kind = "assertion.retracted" ∧
        (h.after P statements).partitions row.scopeOwner = some .personal ∧
        IsRetraction P row.payload)) ∧
    (∀ (h : History) statements, OnlyRetractions P (h.after P statements)) ∧
    (∀ partitions settings ops, (∀ op ∈ ops, LedgerOp.isGated op) → ∀ owner,
      let log := ((MemoryDb.fresh partitions settings).after P ops).log
      (log.events.filter fun row => row.scopeOwner == owner && log.exempt row.id).length ≤
        (log.events.filter (activates P owner)).length) := by
  refine ⟨empty_within, fun h statements start legal owner => ?_,
    fun t clause seq row stored => insert_stored stored clause seq,
    fun t disk e owner dimension stored => append_stored stored disk owner dimension,
    fun h statements s row member added => h.added_exempt_iff P statements s member added,
    after_onlyRetractions P,
    fun partitions settings ops gated owner => exempt_le_activations partitions settings gated owner⟩
  have within : (h.after P statements).Within := run_within h.migrated_sound start legal
  obtain ⟨maxRows, rows⟩ := limit_some within.fallback QuotaRow.maxRows owner
  obtain ⟨maxBytes, bytes⟩ := limit_some within.fallback QuotaRow.maxBytes owner
  exact ⟨maxRows, maxBytes, rows, bytes, within.rows owner maxRows rows,
    within.bytes owner maxBytes bytes⟩

def firstEvent : EventColumns where
  id := "e1"
  scopeOwner := "alice"
  scopeSession := none
  scope := Scope.ofOwner "alice"
  kind := "note"
  payload := .body (.obj [])
  originSource := "host"
  originTrust := "user_said"
  causal := []
  recordedAt := "2026-01-01T00:00:00Z"

theorem quota_admission_firstEvent :
    (∃ maxRows maxBytes,
      ((History.empty fun _ => none).after (.ofDigests []) [.insert .plain none firstEvent]).limit
        QuotaRow.maxRows "alice" = some maxRows ∧
      ((History.empty fun _ => none).after (.ofDigests []) [.insert .plain none firstEvent]).limit
        QuotaRow.maxBytes "alice" = some maxBytes ∧
      (((History.empty fun _ => none).after (.ofDigests []) [.insert .plain none firstEvent]).used
        "alice").rowCount ≤ maxRows ∧
      (((History.empty fun _ => none).after (.ofDigests []) [.insert .plain none firstEvent]).used
        "alice").byteCount ≤ maxBytes) ∧
    (((History.empty fun _ => none).after (.ofDigests []) [.insert .plain none firstEvent]).insert
      (.ofDigests []) .orReplace none firstEvent).isOk = true := by
  refine ⟨(quota_admission (.ofDigests [])).2.1 (History.empty fun _ => none)
    [.insert .plain none firstEvent] (empty_within _) ⟨trivial, ?_, trivial⟩ "alice", ?_⟩
  · intro bound _ owner m m' before after
    have same : (apply (.ofDigests []) (.insert .plain none firstEvent)
        (History.empty fun _ => none).migrated).quota = (History.empty fun _ => none).migrated.quota := rfl
    simp only [limit, same] at before after
    rw [before] at after
    exact le_of_eq (Option.some.inj after)
  · rw [(quota_admission (.ofDigests [])).2.2.1 _ .orReplace none firstEvent (by decide)]
    rfl

end History
end Agent24.Memory
