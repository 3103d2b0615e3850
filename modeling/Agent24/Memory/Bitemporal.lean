import Agent24.Library.Interval
import Agent24.Memory.Ledger

/-! What later operations may show of an earlier recorded time. -/

set_option autoImplicit false
namespace Agent24.Memory
open Library MemoryDb WriteGate

def AssertionRow.recorded (row : AssertionRow) : Span String := ⟨row.recordedFrom, row.recordedTo⟩

/-- An assertion without the three columns the ledger maintains in place. -/
def Assertion.enduring (a : Assertion) : Assertion :=
  { a with recordedTo := none, evidence := [], sourceRef := none }

def SameBeliefs (now : String) (q : BeliefQuery) (before after : MemoryDb) : Prop :=
  (∀ a ∈ before.beliefsAsOf now q, ∃ b ∈ after.beliefsAsOf now q,
    b.enduring = a.enduring ∧ a.evidence ⊆ b.evidence) ∧
  ∀ b ∈ after.beliefsAsOf now q, ∃ a ∈ before.beliefsAsOf now q, b.enduring = a.enduring

/-- Every query at a recorded time before `t` still gets the answer it got. -/
def HistoryKept (t : String) (before after : MemoryDb) : Prop :=
  ∀ now q r, q.recordedAt = some r → r < t → SameBeliefs now q before after

section
variable (t : String)

/-- A row and its later self, as far as times before `t` can tell. -/
structure SameBefore (row later : AssertionRow) : Prop where
  owner : later.scopeOwner = row.scopeOwner
  content : later.enduring = row.enduring
  evidence : row.evidence ⊆ later.evidence
  recorded : Span.AgreeBelow t row.recorded later.recorded

/-- The rows recorded before `t` are there before and after. -/
structure RowsKept (before after : MemoryDb) : Prop where
  forward : ∀ row ∈ before.assertions, row.recordedFrom < t →
    ∃ later ∈ after.assertions, SameBefore t row later
  backward : ∀ later ∈ after.assertions, later.recordedFrom < t →
    ∃ row ∈ before.assertions, SameBefore t row later

variable {t}

theorem SameBefore.refl (row : AssertionRow) : SameBefore t row row :=
  ⟨rfl, rfl, fun _ member => member, .refl t _⟩

theorem SameBefore.trans {a b c : AssertionRow} (first : SameBefore t a b) (second : SameBefore t b c) :
    SameBefore t a c :=
  ⟨second.owner.trans first.owner, second.content.trans first.content,
    fun _ member => second.evidence (first.evidence member), first.recorded.trans second.recorded⟩

variable {row : AssertionRow} {before after : MemoryDb}

theorem SameBefore.start {later : AssertionRow} (same : SameBefore t row later) :
    later.recordedFrom = row.recordedFrom := by
  simpa [Assertion.enduring] using congrArg Assertion.recordedFrom same.content

theorem RowsKept.refl (db : MemoryDb) : RowsKept t db db :=
  ⟨fun row member _ => ⟨row, member, .refl row⟩, fun row member _ => ⟨row, member, .refl row⟩⟩

theorem RowsKept.trans {a b c : MemoryDb} (first : RowsKept t a b) (second : RowsKept t b c) :
    RowsKept t a c := by
  constructor
  · intro row member early
    obtain ⟨middle, inside, one⟩ := first.forward row member early
    obtain ⟨later, present, two⟩ := second.forward middle inside (one.start.symm ▸ early)
    exact ⟨later, present, one.trans two⟩
  · intro later member early
    obtain ⟨middle, inside, two⟩ := second.backward later member early
    obtain ⟨row, present, one⟩ := first.backward middle inside (two.start ▸ early)
    exact ⟨row, present, one.trans two⟩

/-- A row-wise edit that no time before `t` can see. -/
theorem RowsKept.of_map {edit : AssertionRow → AssertionRow}
    (rows : after.assertions = before.assertions.map edit)
    (starts : ∀ row ∈ before.assertions, (edit row).recordedFrom = row.recordedFrom)
    (same : ∀ row ∈ before.assertions, row.recordedFrom < t → SameBefore t row (edit row)) :
    RowsKept t before after := by
  constructor
  · intro row member early
    exact ⟨edit row, rows ▸ List.mem_map_of_mem member, same row member early⟩
  · intro later member early
    rw [rows] at member
    obtain ⟨row, present, rfl⟩ := List.mem_map.mp member
    exact ⟨row, present, same row present (starts row present ▸ early)⟩

/-- A row recorded from `t` on is invisible before it. -/
theorem RowsKept.of_append (rows : after.assertions = before.assertions ++ [row]) (late : t ≤ row.recordedFrom) :
    RowsKept t before after := by
  constructor
  · intro old member _
    exact ⟨old, rows ▸ List.mem_append_left _ member, .refl old⟩
  · intro later member early
    rw [rows, List.mem_append, List.mem_singleton] at member
    rcases member with member | rfl
    · exact ⟨later, member, .refl later⟩
    · exact absurd early (not_lt.mpr late)

theorem RowsKept.of_rows (rows : after.assertions = before.assertions) :
    RowsKept t before after :=
  ⟨fun row member _ => ⟨row, rows ▸ member, .refl row⟩,
    fun row member _ => ⟨row, rows ▸ member, .refl row⟩⟩

/-- Closing belief intervals at `t` or later. -/
theorem rowsKept_closeOpen (id owner : String) {recordedAt : String} (late : t ≤ recordedAt)
    (db : MemoryDb) : RowsKept t db (db.closeOpen id owner recordedAt) := by
  refine .of_map rfl (fun row _ => ?_) fun row _ _ => ?_
  · split <;> rfl
  · split
    · next current =>
      simp only [isOpenRow, Bool.and_eq_true, beq_iff_eq] at current
      exact ⟨rfl, rfl, fun _ member => member, Span.agree_close current.2 late⟩
    · exact .refl row

theorem rowsKept_tighten (c : Candidate) (row : AssertionRow) (db : MemoryDb) :
    RowsKept t db (tightenSourceRef c row db) := by
  rcases tightenSourceRef_rows c row db with same | rows
  · exact .of_rows same
  refine .of_map rows (fun old _ => ?_) fun old _ _ => ?_
  · split <;> rfl
  · split
    · exact ⟨rfl, rfl, fun _ member => member, .refl t _⟩
    · exact .refl old

theorem holds_congr {later : AssertionRow} (same : SameBefore t row later) {q : BeliefQuery} (validAt : String)
    {r : String} (early : r < t) :
    q.holds validAt r later = q.holds validAt r row := by
  have recorded : (decide (later.recordedFrom ≤ r) &&
      (later.recordedTo.all fun stop => decide (r < stop))) =
      (decide (row.recordedFrom ≤ r) && (row.recordedTo.all fun stop => decide (r < stop))) := by
    have agree := same.recorded r early
    rw [Bool.eq_iff_iff]
    simpa [AssertionRow.recorded, Span.Covers, Option.all_eq_true] using agree.symm
  have subject : later.subject = row.subject := by
    simpa [Assertion.enduring] using congrArg Assertion.subject same.content
  have validFrom : later.validFrom = row.validFrom := by
    simpa [Assertion.enduring] using congrArg Assertion.validFrom same.content
  have validTo : later.validTo = row.validTo := by
    simpa [Assertion.enduring] using congrArg Assertion.validTo same.content
  have qualified : later.qualified = row.qualified := by
    simpa [Assertion.enduring] using congrArg Assertion.qualified same.content
  simp only [BeliefQuery.holds, recorded, same.owner, subject, validFrom, validTo, qualified]

/-- A row that a query at `r` returns was recorded before `t`. -/
theorem recorded_before {q : BeliefQuery} {validAt r : String} (holds : q.holds validAt r row = true)
    (early : r < t) : row.recordedFrom < t := by
  simp only [BeliefQuery.holds, Bool.and_eq_true, decide_eq_true_eq] at holds
  exact lt_of_le_of_lt holds.1.1.2.1 early

theorem RowsKept.historyKept (kept : RowsKept t before after) :
    HistoryKept t before after := by
  intro now q r asked early
  constructor
  · intro a believed
    obtain ⟨row, member, rfl, holds⟩ := mem_beliefsAsOf.mp believed
    rw [asked, Option.getD_some] at holds
    obtain ⟨later, present, same⟩ := kept.forward row member (recorded_before holds early)
    refine ⟨later.toAssertion, mem_beliefsAsOf.mpr ⟨later, present, rfl, ?_⟩, same.content,
      same.evidence⟩
    rw [asked, Option.getD_some, holds_congr same _ early]
    exact holds
  · intro b believed
    obtain ⟨later, member, rfl, holds⟩ := mem_beliefsAsOf.mp believed
    rw [asked, Option.getD_some] at holds
    obtain ⟨row, present, same⟩ := kept.backward later member (recorded_before holds early)
    refine ⟨row.toAssertion, mem_beliefsAsOf.mpr ⟨row, present, rfl, ?_⟩, same.content⟩
    rw [asked, Option.getD_some, ← holds_congr same _ early]
    exact holds

end

section
variable (P : Platform) (t : String)

/-- An explicit remember that meets a withdrawn row of the same statement. -/
def Reopens (reads : Reads) (c : Candidate) (db : MemoryDb) (row : AssertionRow) : Prop :=
  policy c = .commit ∧ isRemember c "commit" = true ∧ diskRefuses .content reads.disk = false ∧
    memoryEnabled P db c.scope.owner = true ∧ db.find c.id = some row ∧
    contentMatches c row = true ∧ row.recordedTo ≠ none

/-- The candidate reopens no row that was recorded before `t`, unless the row was withdrawn at `t` or
later, was qualified, and has no evidence beyond the candidate's own. -/
def SparesHistory (reads : Reads) (c : Candidate) (db : MemoryDb) : Prop :=
  ∀ row, Reopens P reads c db row → row.recordedFrom < t →
    row.recorded.stop.all (fun stop => decide (t ≤ stop)) = true ∧ row.qualified = true ∧
      row.evidence ⊆ c.evidence

/-- Every candidate of a batch, in the state it meets, is recorded from `t` on and spares history. -/
def BatchSpares : List (Reads × Candidate) → MemoryDb → Prop
  | [], _ => True
  | (reads, c) :: rest, db => t ≤ reads.created ∧ SparesHistory P t reads c db ∧
    ∀ decision db', proposeOne P reads c db = .ok (decision, db') → BatchSpares rest db'

/-- The operation happens at a recorded time from `t` on, and its remembers spare history. -/
def OpSpares (db : MemoryDb) : LedgerOp → Prop
  | .assertFact _ a => t ≤ a.recordedFrom
  | .retract _ _ _ recordedAt => t ≤ recordedAt
  | .forget _ _ _ recordedAt => t ≤ recordedAt
  | .propose batch => BatchSpares P t batch db
  | .configure .. => True

def RunSpares : List LedgerOp → MemoryDb → Prop
  | [], _ => True
  | op :: rest, db => OpSpares P t db op ∧ RunSpares rest (op.apply P db)

variable {P t}

variable {db : MemoryDb}

theorem Accepted.rowsKept {reads : Reads} {c : Candidate} {db' : MemoryDb} {decision : WriteDecision}
    (accepted : Accepted P reads c db decision db') (distinct : db.Distinct) (late : t ≤ reads.created)
    (spares : SparesHistory P t reads c db) :
    RowsKept t db db' := by
  cases accepted with
  | rejectedUnowned => exact .refl db
  | rejected => exact .of_rows rfl
  | paused => exact .refl db
  | inserted => exact .of_append rfl late
  | reused decided remember row => exact rowsKept_tighten c row db
  | reactivated decided remember room enabled row found same closed =>
    obtain ⟨member, named⟩ := find_some found
    refine .of_map rfl (fun old _ => ?_) fun old inside early => ?_
    · split <;> rfl
    · split
      · next hit =>
        -- the id is unique, so the edited row is the one the remember met
        have only : old = row := List.inj_on_of_nodup_map distinct inside member (hit.trans named.symm)
        subst only
        obtain ⟨withdrawn, wasQualified, covered⟩ :=
          spares old ⟨decided, remember, room, enabled, found, same, closed⟩ early
        obtain ⟨stop, ended⟩ := Option.ne_none_iff_exists'.mp closed
        simp only [AssertionRow.recorded, ended, Option.all_some, decide_eq_true_eq] at withdrawn
        refine ⟨rfl, ?_, covered, Span.agree_reopen ended withdrawn⟩
        simp [reopen, Assertion.enduring, wasQualified]
      · exact .refl old

theorem propose_rowsKept {batch : List (Reads × Candidate)} (distinct : db.Distinct)
    (spares : BatchSpares P t batch db) : RowsKept t db (propose P batch db).1 := by
  induction batch generalizing db with
  | nil => exact .refl db
  | cons item rest ih =>
    obtain ⟨reads, c⟩ := item
    obtain ⟨late, here, later⟩ := spares
    simp only [propose]
    cases done : proposeOne P reads c db with
    | error error => exact .refl db
    | ok accepted =>
      obtain ⟨decision, db'⟩ := accepted
      have step := proposeOne_cases done
      exact (Accepted.rowsKept step distinct late here).trans
        (ih (step.distinct distinct) (later decision db' done))

theorem apply_rowsKept {op : LedgerOp} (distinct : db.Distinct) (spares : OpSpares P t db op) :
    RowsKept t db (op.apply P db) := by
  cases op with
  | assertFact disk a =>
    simp only [LedgerOp.apply]
    cases done : db.assertFact P disk a with
    | error error => exact .refl db
    | ok result =>
      obtain ⟨before, source, -, rows, -⟩ := LedgerOp.assertFact_ok done
      have superseded : RowsKept t db before := by
        rcases source with rfl | ⟨old, rfl⟩
        · exact .refl _
        · exact rowsKept_closeOpen old a.scope.owner spares db
      exact superseded.trans (.of_append rows spares)
  | retract disk id owner recordedAt =>
    simp only [LedgerOp.apply, MemoryDb.retract]
    split
    · next done =>
      split at done
      · cases done
      · obtain ⟨-, rfl⟩ := Prod.mk.inj (Except.ok.inj done)
        exact rowsKept_closeOpen id owner spares db
    · exact .refl db
  | forget disk owner id recordedAt =>
    simp only [LedgerOp.apply]
    cases done : db.forget P disk owner id recordedAt with
    | error error => exact .refl db
    | ok result =>
      obtain ⟨outcome, db'⟩ := result
      cases forget_cases done with
      | already => exact .refl db
      | notFound => exact .refl db
      | forgotten =>
        exact (rowsKept_closeOpen id owner spares db).trans (.of_rows rfl)
  | propose batch => exact propose_rowsKept distinct spares
  | configure => exact .of_rows rfl

theorem run_rowsKept {ops : List LedgerOp} (distinct : db.Distinct) (spares : RunSpares P t ops db) :
    RowsKept t db (db.after P ops) := by
  induction ops generalizing db with
  | nil => exact .refl db
  | cons op rest ih =>
    exact (apply_rowsKept distinct spares.1).trans
      (ih (LedgerOp.apply_distinct distinct op) spares.2)

end
end Agent24.Memory
