import Agent24.Memory.Ledger

/-! Cycles of remembering and forgetting one statement, as steps of a machine with three states. -/

set_option autoImplicit false
namespace Agent24.Memory
open Library MemoryDb WriteGate List

inductive Status where
  | absent | remembered | forgotten
  deriving DecidableEq, Repr

namespace Status

def rememberAppends (audited : Bool) : Status → List String
  | .absent => ["mem.write_decision"]
  | .remembered => []
  | .forgotten =>
    if audited then ["assertion.reasserted"] else ["mem.write_decision", "assertion.reasserted"]

def forgetAppends : Status → List String
  | .remembered => ["assertion.retracted"]
  | .absent | .forgotten => []

def afterForget : Status → Status
  | .absent => .absent
  | .remembered | .forgotten => .forgotten

def forgetOutcome : Status → Forget
  | .absent => .notFound
  | .remembered => .forgotten
  | .forgotten => .alreadyForgotten

end Status

def MemoryDb.status (db : MemoryDb) (id : String) : Status :=
  match db.find id with
  | none => .absent
  | some row => if row.recordedTo = none then .remembered else .forgotten

def MemoryError.isRefusal : MemoryError → Bool
  | .quotaExceeded .. | .diskLow | .retractIdTooLong => true
  | .sqlx _ | .conflict _ => false

/-- Sequence numbers are within the highest one given out. -/
structure EventTables.Numbered (log : EventTables) : Prop where
  last : 0 ≤ log.lastSeq
  seqs : ∀ row ∈ log.events, 0 ≤ row.seq ∧ row.seq ≤ log.lastSeq

/-- Events of the given kinds are appended, under ids of their own. -/
def Adds (log log' : EventTables) (kinds : List String) : Prop :=
  ∃ new : List EventRow, log'.events = log.events ++ new ∧ new.map (fun event => event.kind) = kinds ∧
    (new.map fun event => event.id).Nodup ∧ ∀ event ∈ new, log.hasId event.id = false

inductive CycleOp where
  | remember (reads : Reads) (evidence : String) (origin : Origin) (sourceRef : AssertionSourceRef)
  | forget (disk : Option DiskSample) (recordedAt : String)

namespace CycleOp

def readings : CycleOp → List String
  | .remember reads .. => [reads.created, reads.audited, reads.now]
  | .forget _ recordedAt => [recordedAt]

def evidences : CycleOp → List String
  | .remember _ evidence .. => [evidence]
  | .forget .. => []

/-- `retain::persist` acts for direct statements of the user only. -/
def isDirect : CycleOp → Prop
  | .remember _ _ origin _ => origin.trust = .userSaid
  | .forget .. => True

end CycleOp

section
variable (P : Platform) (owner object : String)

def statementId : String := P.checksum (owner ++ object)

def statement (evidence : String) : Candidate :=
  rememberCandidate P owner object evidence ⟨"", .userSaid⟩ (.fromSources [])

def statementAudit (evidence : String) : String := auditId P (statement P owner object evidence) "commit"

namespace CycleOp

def apply (db : MemoryDb) : CycleOp → MemoryDb
  | .remember reads evidence origin sourceRef =>
    (persist P reads owner object evidence origin sourceRef db).1
  | .forget disk recordedAt =>
    match db.forget P disk owner (statementId P owner object) recordedAt with
    | .ok (_, db') => db'
    | .error _ => db

/-- An operation is refused and changes nothing, or does what the status of the statement says. -/
def Lawful (db : MemoryDb) : CycleOp → Prop
  | .remember reads evidence origin sourceRef =>
    let id := statementId P owner object
    let outcome := persist P reads owner object evidence origin sourceRef db
    (∃ error, error.isRefusal = true ∧ outcome = (db, .error error)) ∨
      outcome.2 = .ok .saved ∧ outcome.1.status id = .remembered ∧
      Adds db.log outcome.1.log
        ((db.status id).rememberAppends (db.log.hasId (statementAudit P owner object evidence))) ∧
      -- a repeated remember at most tightens the stored provenance
      (db.status id = .remembered → ∃ row ∈ db.assertions, row.id = id ∧
        outcome.1 = tightenSourceRef
          (rememberCandidate P owner object evidence origin sourceRef) row db)
  | .forget disk recordedAt =>
    let id := statementId P owner object
    let outcome := db.forget P disk owner id recordedAt
    (∃ error, error.isRefusal = true ∧ outcome = .error error) ∨
      ∃ db', outcome = .ok ((db.status id).forgetOutcome, db') ∧
        db'.status id = (db.status id).afterForget ∧
        Adds db.log db'.log (db.status id).forgetAppends ∧ (db.status id ≠ .remembered → db' = db)

end CycleOp

def MemoryDb.cycled (db : MemoryDb) (ops : List CycleOp) : MemoryDb :=
  run (CycleOp.apply P owner object) ops db

/-- The sixteen digits of an audit id tell pieces of evidence apart. -/
def Apart (used : List String) : Prop := ∀ first ∈ used, ∀ second ∈ used,
  statementAudit P owner object first = statementAudit P owner object second → first = second

structure CycleRun (ops : List CycleOp) (db : MemoryDb) : Prop where
  visible : isBlank owner = false
  enabled : memoryEnabled P db owner = true
  distinct : db.Distinct
  numbered : db.log.Numbered
  unknown : ∀ row ∈ db.assertions, row.id ≠ statementId P owner object
  unaudited : ∀ evidence ∈ ops.flatMap CycleOp.evidences,
    db.log.hasId (statementAudit P owner object evidence) = false
  apart : Apart P owner object (ops.flatMap CycleOp.evidences)
  direct : ∀ op ∈ ops, op.isDirect
  clock : (ops.flatMap CycleOp.readings).Pairwise (· ≤ ·)

structure IsAudit (evidence : String) (event : EventRow) : Prop where
  owned : event.scopeOwner = owner
  scope : event.scope = Scope.ofOwner owner
  kind : event.kind = "mem.write_decision"
  source : event.originSource = "write_gate"
  trust : event.originTrust = "system"
  body : event.payload.value P =
    some (auditBody (statement P owner object evidence) "commit" none "UserSaid" true)

structure IsStatement (later : List String) (row : AssertionRow) : Prop where
  owned : row.scopeOwner = owner
  scope : row.scope = Scope.ofOwner owner
  subject : row.subject = "user"
  predicate : row.predicate = "said_to_remember"
  stated : row.object = .str object
  qualified : row.qualified = true
  validTo : row.validTo = none
  begun : ∀ reading ∈ later, row.validFrom ≤ reading ∧ row.recordedFrom ≤ reading

def AuditsKept (used : List String) (log : EventTables) : Prop :=
  ∀ event ∈ log.events, ∀ evidence ∈ used,
    event.id = statementAudit P owner object evidence → IsAudit P owner object evidence event

/-- What every state of a run keeps, while the listed evidences and readings are still to come. -/
structure Cycling (used later : List String) (db : MemoryDb) : Prop where
  enabled : memoryEnabled P db owner = true
  distinct : db.Distinct
  numbered : db.log.Numbered
  rows : ∀ row ∈ db.assertions, row.id = statementId P owner object →
    IsStatement owner object later row ∧ ∃ evidence ∈ used, row.evidence = [evidence] ∧
      db.log.hasId (statementAudit P owner object evidence) = true
  audits : AuditsKept P owner object used db.log
  unaudited : db.status (statementId P owner object) = .absent → ∀ evidence ∈ used,
    db.log.hasId (statementAudit P owner object evidence) = false

/-- What an accepted remember has done to a run's database. -/
structure Remembered (used later : List String) (evidence : String) (origin : Origin)
    (sourceRef : AssertionSourceRef) (db db' : MemoryDb) : Prop where
  status : db'.status (statementId P owner object) = .remembered
  adds : Adds db.log db'.log ((db.status (statementId P owner object)).rememberAppends
    (db.log.hasId (statementAudit P owner object evidence)))
  repeated : db.status (statementId P owner object) = .remembered →
    ∃ row ∈ db.assertions, row.id = statementId P owner object ∧
      db' = tightenSourceRef (rememberCandidate P owner object evidence origin sourceRef) row db
  cycling : Cycling P owner object used later db'

variable {P owner object}

theorem Adds.refl (log : EventTables) : Adds log log [] :=
  ⟨[], (append_nil _).symm, rfl, nodup_nil, fun _ absent => absurd absent not_mem_nil⟩

theorem Appended.adds {e : MemEvent} {log log' : EventTables} (appended : Appended P e log log') :
    Adds log log' [e.kind] :=
  ⟨[EventRow.mk e.columns (log.lastSeq + 1)], appended.events, rfl, nodup_singleton _,
    fun _ only => mem_singleton.mp only ▸ appended.unused⟩

theorem Adds.trans {first second third : EventTables} {kinds more : List String}
    (front : Adds first second kinds) (back : Adds second third more) :
    Adds first third (kinds ++ more) := by
  obtain ⟨new, events, named, distinct, unused⟩ := front
  obtain ⟨newer, events', named', distinct', unused'⟩ := back
  have stored : ∀ event ∈ first.events ++ new, second.hasId event.id = true := by
    intro event member
    rw [EventTables.hasId, events, any_eq_true]
    exact ⟨event, member, beq_self_eq_true _⟩
  refine ⟨new ++ newer, by rw [events', events, append_assoc],
    by rw [map_append, named, named'], ?_, fun event member => ?_⟩
  · rw [map_append, nodup_append]
    refine ⟨distinct, distinct', ?_⟩
    rintro id one _ two rfl
    obtain ⟨old, member, rfl⟩ := mem_map.mp one
    obtain ⟨event, later, same⟩ := mem_map.mp two
    have clash := unused' event later
    rw [same, stored old (mem_append_right _ member)] at clash
    cases clash
  · rcases mem_append.mp member with early | late
    · exact unused event early
    by_contra present
    rw [Bool.not_eq_false, EventTables.hasId, any_eq_true] at present
    obtain ⟨old, member, same⟩ := present
    have clash := unused' event late
    rw [← beq_iff_eq.mp same, stored old (mem_append_left _ member)] at clash
    cases clash

theorem Appended.numbered {e : MemEvent} {log log' : EventTables} (appended : Appended P e log log')
    (numbered : log.Numbered) : log'.Numbered := by
  have last : log'.lastSeq = max log.lastSeq (log.lastSeq + 1) := by rw [appended.stored]; rfl
  have start := numbered.last
  constructor
  · omega
  · intro row member
    rw [appended.events] at member
    rcases mem_append.mp member with old | new
    · have bound := numbered.seqs row old
      omega
    obtain rfl := mem_singleton.mp new
    dsimp only
    omega

theorem appendTx_error {e : MemEvent} {log : EventTables} {error : MemoryError}
    (unused : log.hasId e.id = false) (owned : ownerCheck e.scope.owner = true)
    (numbered : log.Numbered) (refused : appendTx P e log = .error error) :
    ∃ owner dimension, error = .quotaExceeded owner dimension := by
  cases gate : log.quotaGate P e.columns with
  | none =>
    rw [appendTx_of_appendable ⟨gate, unused, owned, numbered.seqs⟩] at refused
    cases refused
  | some raised =>
    simp only [appendTx, EventTables.insert, gate, Except.error.injEq] at refused
    subst refused
    unfold EventTables.quotaGate at gate
    split at gate
    · split at gate
      · cases gate
        exact ⟨_, "rows", rfl⟩
      split at gate
      · cases gate
        exact ⟨_, "bytes", rfl⟩
      · cases gate
    · cases gate

theorem hexDigit_ne_u (value : Nat) : Json.hexDigit value ≠ 'u' := by
  by_cases small : value < 16
  · have table : ∀ digit < 16, Json.hexDigit digit ≠ 'u' := by decide
    exact table value small
  have beyond : Json.hexDigit value = '0' := by
    have outside : 16 ≤ value := by omega
    simp [Json.hexDigit, getD_eq_getElem?_getD, outside]
  rw [beyond]
  decide

/-- No retraction has the id of an audit: the second character of a digest is no `u`. -/
theorem retract_ne_audit (owner id : String) (generation : Nat) (rest : String) :
    Text.suffixed (retractBase P owner id) generation ≠ "audit-" ++ rest := by
  have second : (Text.suffixed (retractBase P owner id) generation).toList[1]? ≠ some 'u' := by
    have digits : ∃ first second more,
        (retractBase P owner id).toList = first :: Json.hexDigit second :: more :=
      ⟨_, _, _, by rw [retractBase, Platform.checksum, String.toList_ofList]; rfl⟩
    obtain ⟨first, second, more, digits⟩ := digits
    cases generation <;> simp [Text.suffixed, digits, hexDigit_ne_u]
  intro same
  rw [same] at second
  exact second (by simp [String.toList_append])

theorem ownerCheck_of_visible (visible : isBlank owner = false) : ownerCheck owner = true := by
  rw [ownerCheck, sqliteBlank_of_visible (by decide) visible]
  rfl

section
variable {evidence : String} {origin : Origin} {sourceRef : AssertionSourceRef}

theorem policy_remember (visible : isBlank owner = false) (direct : origin.trust = .userSaid) :
    policy (rememberCandidate P owner object evidence origin sourceRef) = .commit := by
  have named : isBlank "user" = false ∧ isBlank "said_to_remember" = false := by decide
  simp [policy, trustOutcome, rememberCandidate, Scope.ofOwner, visible, direct, named]

theorem isRemember_remember (direct : origin.trust = .userSaid) :
    isRemember (rememberCandidate P owner object evidence origin sourceRef) "commit" = true := by
  simp [isRemember, rememberCandidate, direct]

theorem IsAudit.matches {event : EventRow} (audit : IsAudit P owner object evidence event)
    (origin : Origin) (sourceRef : AssertionSourceRef) (now : String) :
    matchesCommitAudit P event (Scope.ofOwner owner)
      (auditEvent P now (rememberCandidate P owner object evidence origin sourceRef) "commit" none) =
        true := by
  have same : auditBody (statement P owner object evidence) "commit" none "UserSaid" true =
      ((auditBody (rememberCandidate P owner object evidence origin sourceRef) "commit" none
        origin.trust.debug true).set "trust" (.str "UserSaid")).set "explicit_remember" (.bool true) :=
    (auditBody_set _ "commit" none _ _ _ _).symm
  simp [matchesCommitAudit, audit.body, audit.owned, audit.scope, audit.kind, audit.source,
    audit.trust, same, auditEvent, MemEvent.new, rememberCandidate, Scope.ofOwner]

theorem isAudit_of_append (direct : origin.trust = .userSaid) (now : String) (seq : Int) :
    IsAudit P owner object evidence (EventRow.mk (auditEvent P now
      (rememberCandidate P owner object evidence origin sourceRef) "commit" none).columns seq) := by
  refine ⟨rfl, rfl, rfl, rfl, rfl, ?_⟩
  simp [auditEvent, MemEvent.new, MemEvent.columns, Payload.value, rememberCandidate, direct,
    Trust.debug, auditBody, statement]

theorem IsStatement.contentMatches {later : List String} {row : AssertionRow}
    (stated : IsStatement owner object later row) :
    contentMatches (rememberCandidate P owner object evidence origin sourceRef) row = true := by
  simp [WriteGate.contentMatches, rememberCandidate, stated.owned, stated.scope, stated.subject,
    stated.predicate, stated.stated, Scope.ofOwner]

theorem IsStatement.matching {later : List String} {row : AssertionRow} {now : String}
    (stated : IsStatement owner object later row) (current : row.recordedTo = none)
    (coming : now ∈ later) :
    matching now (rememberCandidate P owner object evidence origin sourceRef) row = true := by
  obtain ⟨valid, recorded⟩ := stated.begun now coming
  simp [WriteGate.matching, stated.contentMatches, stated.qualified, stated.validTo, current, valid,
    recorded]

namespace Cycling
variable {used later : List String} {db : MemoryDb}

theorem byId_audit (cycling : Cycling P owner object used later db) (due : evidence ∈ used)
    (stored : db.log.hasId (statementAudit P owner object evidence) = true) :
    ∃ event, db.log.byId (statementAudit P owner object evidence) = some event ∧
      IsAudit P owner object evidence event := by
  obtain ⟨event, found⟩ := EventTables.byId_isSome stored
  obtain ⟨member, named⟩ := EventTables.byId_some found
  exact ⟨event, found, cycling.audits event member evidence due named⟩

theorem auditedCurrent (cycling : Cycling P owner object used later db) {row : AssertionRow}
    (member : row ∈ db.assertions) (named : row.id = statementId P owner object) :
    auditedCurrent P db.log (rememberCandidate P owner object evidence origin sourceRef) row =
      true := by
  obtain ⟨-, attached, due, only, stored⟩ := cycling.rows row member named
  obtain ⟨event, found, audit⟩ := cycling.byId_audit due stored
  have checked := audit.matches origin sourceRef ""
  simp only [WriteGate.auditedCurrent, only, bne_iff_ne, ne_eq, cons_ne_self, not_false_eq_true,
    Bool.and_eq_true, true_and]
  let c := rememberCandidate P owner object evidence origin sourceRef
  have there : db.log.byId (auditEvent P "" { c with evidence := [attached] } "commit" none).id = some event := found
  rw [there]
  exact checked

theorem status_absent {id : String} (missing : db.find id = none) :
    db.status id = .absent := by
  rw [MemoryDb.status, missing]

theorem status_found {row : AssertionRow} {id : String} (found : db.find id = some row) :
    db.status id = if row.recordedTo = none then .remembered else .forgotten := by
  rw [MemoryDb.status, found]

variable {error : MemoryError}

theorem appendAudit_error (visible : isBlank owner = false) {log : EventTables}
    (unused : log.hasId (statementAudit P owner object evidence) = false) (numbered : log.Numbered)
    {now : String}
    (refused : appendTx P (auditEvent P now (rememberCandidate P owner object evidence origin sourceRef) "commit" none) log = .error error) :
    error.isRefusal = true := by
  have owned : ownerCheck (auditEvent P now
      (rememberCandidate P owner object evidence origin sourceRef) "commit" none).scope.owner = true :=
    ownerCheck_of_visible visible
  have unused : log.hasId (auditEvent P now
      (rememberCandidate P owner object evidence origin sourceRef) "commit" none).id = false := unused
  obtain ⟨partition, dimension, rfl⟩ := appendTx_error unused owned numbered refused
  rfl

theorem hasId_fresh (log : EventTables) (base : String) :
    log.hasId (Text.fresh (log.events.map fun row => row.id) (Text.suffixed base)) = false := by
  have free : Text.fresh (log.events.map fun row => row.id) (Text.suffixed base) ∉
      log.events.map fun row => row.id := Text.fresh_not_mem (Text.suffixed_injective base)
  rw [Bool.eq_false_iff, ne_eq, EventTables.hasId, any_eq_true]
  rintro ⟨row, member, same⟩
  exact free (mem_map.mpr ⟨row, member, beq_iff_eq.mp same⟩)

theorem appendReassert_error (visible : isBlank owner = false) {log : EventTables} (numbered : log.Numbered)
    {now : String}
    (refused : appendTx P (reassertEvent P now (rememberCandidate P owner object evidence origin sourceRef) log) log = .error error) :
    error.isRefusal = true := by
  have owned : ownerCheck (reassertEvent P now
      (rememberCandidate P owner object evidence origin sourceRef) log).scope.owner = true :=
    ownerCheck_of_visible visible
  obtain ⟨partition, dimension, rfl⟩ := appendTx_error (hasId_fresh log _) owned numbered refused
  rfl

/-- An audit in the log is the one this candidate asks for, and otherwise only the quota is in the way. -/
theorem ensureAudit_error (cycling : Cycling P owner object used later db) (visible : isBlank owner = false)
    (due : evidence ∈ used) {now : String}
    (refused : ensureAudit P (auditEvent P now (rememberCandidate P owner object evidence origin sourceRef) "commit" none) (rememberCandidate P owner object evidence origin sourceRef) db.log = .error error) :
    error.isRefusal = true := by
  unfold ensureAudit at refused
  cases found : db.log.byId (statementAudit P owner object evidence) with
  | some event =>
    obtain ⟨member, named⟩ := EventTables.byId_some found
    have checked := (cycling.audits event member evidence due named).matches origin sourceRef now
    split at refused
    · next other same =>
      obtain rfl : event = other := Option.some.inj (found.symm.trans same)
      split at refused
      · cases refused
      · next failed => exact absurd checked failed
    · next missing => exact nomatch found.symm.trans missing
  | none =>
    split at refused
    · next other same => exact nomatch found.symm.trans same
    · exact appendAudit_error visible (EventTables.byId_none found) cycling.numbered refused

theorem ensureAudit_numbered {audit : MemEvent} {c : Candidate} {log log' : EventTables}
    (numbered : log.Numbered) (done : ensureAudit P audit c log = .ok log') : log'.Numbered := by
  rcases ensureAudit_cases done with ⟨rfl, -⟩ | appended
  · exact numbered
  · exact appended.numbered numbered

theorem remember_error (cycling : Cycling P owner object used later db) (visible : isBlank owner = false)
    (direct : origin.trust = .userSaid) (due : evidence ∈ used) {reads : Reads} (coming : reads.now ∈ later)
    (refused : proposeOne P reads (rememberCandidate P owner object evidence origin sourceRef) db = .error error) :
    error.isRefusal = true := by
  simp only [proposeOne, policy_remember visible direct] at refused
  have refused := map_error refused
  simp only [commitWithAudit, isRemember_remember direct, if_true] at refused
  split at refused
  · obtain rfl := Except.error.inj refused
    rfl
  have enabled : memoryEnabled P db
      (rememberCandidate P owner object evidence origin sourceRef).scope.owner = true := cycling.enabled
  simp only [enabled, Bool.not_true, Bool.false_eq_true, if_false] at refused
  cases found : db.find (rememberCandidate P owner object evidence origin sourceRef).id with
  | none =>
    simp only [found] at refused
    rcases bind_error refused with taken | ⟨inserted, first, refused⟩
    · simp only [insertTx] at taken
      split at taken
      · next blank =>
        have clear : sqliteBlank [' '] owner = false := sqliteBlank_of_visible (by decide) visible
        cases clear.symm.trans blank
      · split at taken
        · next used =>
          obtain ⟨row, member, same⟩ := any_eq_true.mp used
          exact absurd (beq_iff_eq.mp same) (find_none found row member)
        · cases taken
    · obtain ⟨-, rfl⟩ := insertTx_ok first
      rcases bind_error refused with full | ⟨log, -, done⟩
      · exact appendAudit_error visible (cycling.unaudited (status_absent found) evidence due)
          cycling.numbered full
      · cases done
  | some row =>
    simp only [found] at refused
    obtain ⟨member, named⟩ := find_some found
    obtain ⟨stated, -⟩ := cycling.rows row member named
    simp only [recommit] at refused
    split at refused
    · cases refused
    next unmatched =>
    split at refused
    · rcases bind_error refused with full | ⟨audited, audit, refused⟩
      · exact cycling.ensureAudit_error visible due full
      rcases bind_error refused with full | ⟨log, -, done⟩
      · exact appendReassert_error visible (ensureAudit_numbered cycling.numbered audit) full
      · cases done
    · next current =>
      -- a current row matches, so it cannot come to the conflict
      rw [stated.contentMatches, Bool.true_and, bne_iff_ne, not_not] at current
      refine absurd ?_ unmatched
      rw [stated.matching current coming, cycling.auditedCurrent member named]
      rfl

theorem status_of_mem {db : MemoryDb} (distinct : db.Distinct) {row : AssertionRow}
    (member : row ∈ db.assertions) :
    db.status row.id = if row.recordedTo = none then .remembered else .forgotten :=
  status_found (distinct.find_of_mem member)

theorem sooner (cycling : Cycling P owner object used later db) {rest : List String}
    (fewer : ∀ reading ∈ rest, reading ∈ later) : Cycling P owner object used rest db where
  enabled := cycling.enabled
  distinct := cycling.distinct
  numbered := cycling.numbered
  rows row member named := by
    obtain ⟨stated, attached⟩ := cycling.rows row member named
    exact ⟨{ stated with begun := fun reading coming => stated.begun reading (fewer reading coming) },
      attached⟩
  audits := cycling.audits
  unaudited := cycling.unaudited

end Cycling

variable {log log' : EventTables}

theorem Appended.hasId {e : MemEvent} (appended : Appended P e log log') :
    log'.hasId e.id = true := by
  rw [EventTables.hasId, any_eq_true]
  exact ⟨_, appended.present, beq_self_eq_true _⟩

theorem Appended.hasId_mono {e : MemEvent} (appended : Appended P e log log') {id : String}
    (stored : log.hasId id = true) : log'.hasId id = true := by
  rw [EventTables.hasId, any_eq_true] at stored ⊢
  obtain ⟨row, member, same⟩ := stored
  exact ⟨row, appended.subset row member, same⟩

theorem AuditsKept.appended {used : List String} {e : MemEvent} (kept : AuditsKept P owner object used log)
    (appended : Appended P e log log')
    (own : ∀ evidence ∈ used, e.id = statementAudit P owner object evidence → ∀ seq, IsAudit P owner object evidence (EventRow.mk e.columns seq)) :
    AuditsKept P owner object used log' := by
  intro event member evidence due named
  rw [appended.events] at member
  rcases mem_append.mp member with old | new
  · exact kept event old evidence due named
  · obtain rfl := mem_singleton.mp new
    exact own evidence due named _

theorem AuditsKept.audited {used : List String} {now : String} (kept : AuditsKept P owner object used log)
    (direct : origin.trust = .userSaid) (due : evidence ∈ used) (apart : Apart P owner object used)
    (appended : Appended P (auditEvent P now (rememberCandidate P owner object evidence origin sourceRef) "commit" none) log log') :
    AuditsKept P owner object used log' := by
  refine kept.appended appended fun other listed named seq => ?_
  obtain rfl : evidence = other := apart evidence due other listed named
  exact isAudit_of_append direct now seq

theorem statementAudit_lead (owner object evidence : String) :
    ∃ rest, statementAudit P owner object evidence = "audit-" ++ rest :=
  ⟨_, by rw [statementAudit, auditId, String.append_assoc, String.append_assoc]⟩

theorem reassert_ne_audit (id base : String) (generation : Nat) (rest : String) :
    Text.suffixed ("reassert-" ++ id ++ "-" ++ base) generation ≠ "audit-" ++ rest := by
  have first : (Text.suffixed ("reassert-" ++ id ++ "-" ++ base) generation).toList[0]? = some 'r' := by
    cases generation <;> simp [Text.suffixed]
  intro same
  rw [same] at first
  simp at first

namespace Cycling
variable {used later : List String} {db : MemoryDb} {reads : Reads}

theorem remember_inserted (cycling : Cycling P owner object used later db)
    (direct : origin.trust = .userSaid) (due : evidence ∈ used)
    (apart : Apart P owner object used)
    (clock : ∀ reading ∈ later, reads.created ≤ reading)
    (unused : ∀ row ∈ db.assertions,
      row.id ≠ (rememberCandidate P owner object evidence origin sourceRef).id)
    {log : EventTables} (appended : Appended P (auditEvent P reads.audited
      (rememberCandidate P owner object evidence origin sourceRef) "commit" none) db.log log)
    {fts : List FtsRow} {db' : MemoryDb}
    (same : db' = { db with
      log := log
      assertions := db.assertions ++ [⟨toAssertion reads.created
        (rememberCandidate P owner object evidence origin sourceRef) true, owner⟩]
      fts := fts }) :
    Remembered P owner object used later evidence origin sourceRef db db' := by
  have absent : db.status (statementId P owner object) = .absent := by
    cases found : db.find (statementId P owner object) with
    | none => exact status_absent found
    | some row => exact absurd (find_some found).2 (unused row (find_some found).1)
  have distinct : db'.Distinct := cycling.distinct.insert (by rw [same]) unused
  have stored : ⟨toAssertion reads.created (rememberCandidate P owner object evidence origin sourceRef)
      true, owner⟩ ∈ db'.assertions := by
    rw [same]
    exact mem_append_right _ (mem_singleton_self _)
  have status : db'.status (statementId P owner object) = .remembered := status_of_mem distinct stored
  refine ⟨status, ?_, fun held => (nomatch absent.symm.trans held), ?_⟩
  · rw [absent, same]
    exact appended.adds
  · exact {
      enabled := by rw [same]; exact cycling.enabled
      distinct := distinct
      numbered := by rw [same]; exact appended.numbered cycling.numbered
      rows := by
        intro row member named
        rw [same] at member ⊢
        rcases mem_append.mp member with old | new
        · exact absurd named (unused row old)
        obtain rfl := mem_singleton.mp new
        exact ⟨⟨rfl, rfl, rfl, rfl, rfl, rfl, rfl, fun reading coming =>
          ⟨clock reading coming, clock reading coming⟩⟩, evidence, due, rfl, appended.hasId⟩
      audits := by rw [same]; exact cycling.audits.audited direct due apart appended
      unaudited := fun gone => nomatch status.symm.trans gone }

theorem remember_reused (cycling : Cycling P owner object used later db) {now : String}
    {row : AssertionRow}
    (found : db.find (rememberCandidate P owner object evidence origin sourceRef).id = some row)
    (current : WriteGate.matching now
      (rememberCandidate P owner object evidence origin sourceRef) row = true) :
    Remembered P owner object used later evidence origin sourceRef db
      (tightenSourceRef (rememberCandidate P owner object evidence origin sourceRef) row db) := by
  obtain ⟨member, named⟩ := find_some found
  have unended : row.recordedTo = none := by
    simp only [WriteGate.matching, Bool.and_eq_true, beq_iff_eq] at current
    exact current.2
  have held : db.status (statementId P owner object) = .remembered :=
    (status_found found).trans (if_pos unended)
  have distinct : (tightenSourceRef (rememberCandidate P owner object evidence origin sourceRef) row
      db).Distinct := tightenSourceRef_distinct cycling.distinct
  obtain ⟨ref, inside⟩ := mem_tightenSourceRef member
  have status := status_of_mem distinct inside
  rw [show (withSourceRef ref row).id = statementId P owner object from named,
    show (withSourceRef ref row).recordedTo = row.recordedTo from rfl, unended, if_pos rfl] at status
  refine ⟨status, ?_, fun _ => ⟨row, member, named, rfl⟩, ?_⟩
  · rw [held, tightenSourceRef_log]
    exact .refl _
  · exact {
      enabled := by rw [memoryEnabled, tightenSourceRef_settings]; exact cycling.enabled
      distinct := distinct
      numbered := by rw [tightenSourceRef_log]; exact cycling.numbered
      rows := by
        intro edited member named
        rw [tightenSourceRef_log]
        obtain ⟨old, present, same⟩ := tightenSourceRef_mem member
        obtain ⟨stated, attached⟩ := cycling.rows old present
          ((congrArg (fun row : AssertionRow => row.id) same).symm.trans named)
        rw [same]
        exact ⟨⟨stated.owned, stated.scope, stated.subject, stated.predicate, stated.stated,
          stated.qualified, stated.validTo, stated.begun⟩, attached⟩
      audits := by rw [tightenSourceRef_log]; exact cycling.audits
      unaudited := fun gone => nomatch status.symm.trans gone }

theorem remember_reopened (cycling : Cycling P owner object used later db)
    (direct : origin.trust = .userSaid) (due : evidence ∈ used) (apart : Apart P owner object used)
    {row : AssertionRow}
    (found : db.find (rememberCandidate P owner object evidence origin sourceRef).id = some row)
    (closed : row.recordedTo ≠ none) {audited log : EventTables}
    (audit : ensureAudit P (auditEvent P reads.audited
      (rememberCandidate P owner object evidence origin sourceRef) "commit" none)
      (rememberCandidate P owner object evidence origin sourceRef) db.log = .ok audited)
    (appended : Appended P (reassertEvent P reads.now
      (rememberCandidate P owner object evidence origin sourceRef) audited) audited log)
    {db' : MemoryDb}
    (same : db' = { db with
      log := log
      assertions := rewriteKey AssertionRow.key (statementId P owner object)
        (reopen (rememberCandidate P owner object evidence origin sourceRef)) db.assertions }) :
    Remembered P owner object used later evidence origin sourceRef db db' := by
  obtain ⟨member, named⟩ := find_some found
  have held : db.status (statementId P owner object) = .forgotten :=
    (status_found found).trans (if_neg closed)
  have distinct : db'.Distinct := cycling.distinct.rewrite
    (reopen (rememberCandidate P owner object evidence origin sourceRef)) (fun _ => rfl)
    (congrArg MemoryDb.assertions same)
  have stored : reopen (rememberCandidate P owner object evidence origin sourceRef) row ∈
      db'.assertions := by
    rw [same]
    exact mem_map.mpr ⟨row, member, if_pos named⟩
  have status : db'.status (statementId P owner object) = .remembered := by
    have current := status_of_mem distinct stored
    rwa [show (reopen (rememberCandidate P owner object evidence origin sourceRef) row).id =
      statementId P owner object from named] at current
  -- the commit audit is stored already, or comes before the reassert
  have audits : AuditsKept P owner object used audited ∧
      audited.hasId (statementAudit P owner object evidence) = true ∧
      Adds db.log audited (if db.log.hasId (statementAudit P owner object evidence) then []
        else ["mem.write_decision"]) := by
    rcases ensureAudit_cases audit with ⟨rfl, event, present, same, -⟩ | new
    · have old : db.log.hasId (statementAudit P owner object evidence) = true :=
        any_eq_true.mpr ⟨event, present, beq_iff_eq.mpr same⟩
      exact ⟨cycling.audits, old, by rw [if_pos old]; exact .refl _⟩
    · have unused : db.log.hasId (statementAudit P owner object evidence) = false := new.unused
      refine ⟨cycling.audits.audited direct due apart new, new.hasId, ?_⟩
      rw [unused]
      exact new.adds
  obtain ⟨kept, present, adds⟩ := audits
  refine ⟨status, ?_, fun remembered => (nomatch held.symm.trans remembered), ?_⟩
  · rw [held, same]
    have whole := adds.trans appended.adds
    cases known : db.log.hasId (statementAudit P owner object evidence) <;> rw [known] at whole <;>
      exact whole
  · exact {
      enabled := by rw [same]; exact cycling.enabled
      distinct := distinct
      numbered := by
        rw [same]
        exact appended.numbered (ensureAudit_numbered cycling.numbered audit)
      rows := by
        intro edited member named
        rw [same] at member ⊢
        obtain ⟨old, inside, rfl⟩ := mem_map.mp member
        by_cases hit : old.key = statementId P owner object
        · obtain ⟨stated, -⟩ := cycling.rows old inside hit
          rw [if_pos hit]
          exact ⟨⟨stated.owned, stated.scope, stated.subject, stated.predicate, stated.stated, rfl,
            stated.validTo, stated.begun⟩, evidence, due, rfl, appended.hasId_mono present⟩
        · rw [if_neg hit] at named
          exact absurd named hit
      audits := by
        rw [same]
        refine kept.appended appended fun other _ named => ?_
        obtain ⟨generation, fresh⟩ := Text.fresh_index (audited.events.map fun event => event.id)
          (Text.suffixed (reassertBase P reads.now
            (rememberCandidate P owner object evidence origin sourceRef)))
        obtain ⟨rest, lead⟩ := statementAudit_lead (P := P) owner object other
        exact absurd ((fresh.symm.trans named).trans lead) (reassert_ne_audit _ _ generation rest)
      unaudited := fun gone => nomatch status.symm.trans gone }

theorem remember_ok (cycling : Cycling P owner object used later db) (visible : isBlank owner = false)
    (direct : origin.trust = .userSaid) (due : evidence ∈ used) (apart : Apart P owner object used)
    (clock : ∀ reading ∈ later, reads.created ≤ reading) {decision : WriteDecision} {db' : MemoryDb}
    (accepted : Accepted P reads (rememberCandidate P owner object evidence origin sourceRef) db
      decision db') :
    decision = .committed (statementId P owner object) ∧
      Remembered P owner object used later evidence origin sourceRef db db' := by
  have commits : policy (rememberCandidate P owner object evidence origin sourceRef) = .commit :=
    policy_remember visible direct
  cases accepted with
  | rejectedUnowned reason decided => exact nomatch commits.symm.trans decided
  | rejected reason decided => exact nomatch commits.symm.trans decided
  | paused decided off => exact nomatch cycling.enabled.symm.trans off
  | inserted qualified decided unused log appended =>
    cases qualified with
    | false => exact nomatch commits.symm.trans decided
    | true => exact ⟨rfl, cycling.remember_inserted direct due apart clock unused appended rfl⟩
  | reused decided remember row found current =>
    exact ⟨rfl, cycling.remember_reused found current⟩
  | reactivated decided remember room enabled row found same closed audited log audit appended =>
    exact ⟨rfl, cycling.remember_reopened direct due apart found closed audit appended rfl⟩

end Cycling

theorem persist_error {reads : Reads} {db : MemoryDb} (direct : origin.trust = .userSaid)
    {error : MemoryError}
    (refused : proposeOne P reads (rememberCandidate P owner object evidence origin sourceRef) db =
      .error error) :
    persist P reads owner object evidence origin sourceRef db = (db, .error error) := by
  simp [persist, direct, propose, refused, Except.map]

theorem persist_ok {reads : Reads} {db db' : MemoryDb} (direct : origin.trust = .userSaid) {id : String}
    (done : proposeOne P reads (rememberCandidate P owner object evidence origin sourceRef) db =
      .ok (.committed id, db')) :
    persist P reads owner object evidence origin sourceRef db = (db', .ok .saved) := by
  simp [persist, direct, propose, done, Except.map]

theorem Cycling.remember {used later : List String} {db : MemoryDb} {reads : Reads}
    (cycling : Cycling P owner object used (reads.created :: reads.audited :: reads.now :: later) db)
    (visible : isBlank owner = false) (direct : origin.trust = .userSaid) (due : evidence ∈ used)
    (apart : Apart P owner object used) (clock : ∀ reading ∈ later, reads.created ≤ reading) :
    (CycleOp.remember reads evidence origin sourceRef).Lawful P owner object db ∧
      Cycling P owner object used later
        ((CycleOp.remember reads evidence origin sourceRef).apply P owner object db) := by
  have rest : Cycling P owner object used later db := cycling.sooner fun reading coming => by
    simp [coming]
  simp only [CycleOp.Lawful, CycleOp.apply]
  cases done : proposeOne P reads (rememberCandidate P owner object evidence origin sourceRef) db with
  | error error =>
    have refusal := cycling.remember_error visible direct due (by simp) done
    rw [persist_error direct done]
    exact ⟨.inl ⟨error, refusal, rfl⟩, rest⟩
  | ok result =>
    obtain ⟨decision, db'⟩ := result
    obtain ⟨rfl, after⟩ := rest.remember_ok visible direct due apart clock (proposeOne_cases done)
    rw [persist_ok direct done]
    exact ⟨.inr ⟨rfl, after.status, after.adds, after.repeated⟩, after.cycling⟩

end

theorem retract_unused (log : EventTables) (base : String) :
    log.hasId (Text.fresh (retractIds log base) (Text.suffixed base)) = false := by
  have free : Text.fresh (retractIds log base) (Text.suffixed base) ∉ retractIds log base :=
    Text.fresh_not_mem (Text.suffixed_injective base)
  obtain ⟨generation, fresh⟩ := Text.fresh_index (retractIds log base) (Text.suffixed base)
  rw [Bool.eq_false_iff, ne_eq, EventTables.hasId, any_eq_true]
  rintro ⟨row, member, same⟩
  refine free (mem_map.mpr ⟨row, mem_filter.mpr ⟨member, ?_⟩, beq_iff_eq.mp same⟩)
  rw [Bool.or_eq_true, beq_iff_eq.mp same, fresh]
  cases generation with
  | zero => exact .inl (beq_self_eq_true _)
  | succ generation =>
    refine .inr ?_
    simp [Text.suffixed, likeDashed, isPrefixOf_iff_prefix]

theorem forget_error {db : MemoryDb} (visible : isBlank owner = false) (numbered : db.log.Numbered)
    {disk : Option DiskSample} {id recordedAt : String} {error : MemoryError}
    (refused : db.forget P disk owner id recordedAt = .error error) : error.isRefusal = true := by
  simp only [forget] at refused
  split at refused
  · obtain rfl := Except.error.inj refused
    rfl
  split at refused
  · split at refused <;> cases refused
  split at refused
  · split at refused
    · obtain rfl := Except.error.inj refused
      rfl
    · obtain rfl := Except.error.inj refused
      rfl
  · next other _ full =>
    have owned : ownerCheck (retractEvent owner id recordedAt (Text.fresh
        (retractIds db.log (retractBase P owner id))
        (Text.suffixed (retractBase P owner id)))).scope.owner = true :=
      ownerCheck_of_visible visible
    have unused : db.log.hasId (retractEvent owner id recordedAt (Text.fresh
        (retractIds db.log (retractBase P owner id))
        (Text.suffixed (retractBase P owner id)))).id = false := retract_unused db.log _
    obtain ⟨partition, dimension, rfl⟩ := appendTx_error unused owned numbered full
    obtain rfl := Except.error.inj refused
    rfl
  · cases refused

namespace Cycling
variable {used later : List String} {db : MemoryDb}

section
variable (cycling : Cycling P owner object used later db)
include cycling

theorem remembered_iff :
    db.assertions.any (isOpenRow (statementId P owner object) owner) = true ↔
      db.status (statementId P owner object) = .remembered := by
  rw [any_eq_true]
  constructor
  · rintro ⟨row, member, current⟩
    simp only [isOpenRow, Bool.and_eq_true, beq_iff_eq] at current
    have status := status_of_mem cycling.distinct member
    rwa [current.1.1, if_pos current.2] at status
  · intro held
    cases found : db.find (statementId P owner object) with
    | none => exact nomatch (status_absent found).symm.trans held
    | some row =>
      obtain ⟨member, named⟩ := find_some found
      have current : row.recordedTo = none := by
        by_contra closed
        exact nomatch ((status_found found).trans (if_neg closed)).symm.trans held
      obtain ⟨stated, -⟩ := cycling.rows row member named
      exact ⟨row, member, by simp [isOpenRow, named, stated.owned, current]⟩

theorem known_iff :
    (db.assertions.any fun row => row.id == statementId P owner object && row.scopeOwner == owner) =
      true ↔ db.status (statementId P owner object) ≠ .absent := by
  rw [any_eq_true]
  constructor
  · rintro ⟨row, member, same⟩
    simp only [Bool.and_eq_true, beq_iff_eq] at same
    have status := status_of_mem cycling.distinct member
    rw [same.1] at status
    rw [status]
    split <;> exact fun absent => nomatch absent
  · intro known
    cases found : db.find (statementId P owner object) with
    | none => exact absurd (status_absent found) known
    | some row =>
      obtain ⟨member, named⟩ := find_some found
      obtain ⟨stated, -⟩ := cycling.rows row member named
      exact ⟨row, member, by simp [named, stated.owned]⟩

theorem forgotten {recordedAt : String}
    (current : db.assertions.any (isOpenRow (statementId P owner object) owner) = true) {log : EventTables}
    (appended : Appended P (retractEvent owner (statementId P owner object) recordedAt (Text.fresh (retractIds db.log (retractBase P owner (statementId P owner object))) (Text.suffixed (retractBase P owner (statementId P owner object))))) db.log log)
    {db' : MemoryDb}
    (same : db' = { db.closeOpen (statementId P owner object) owner recordedAt with log := log }) :
    db'.status (statementId P owner object) = .forgotten ∧ Cycling P owner object used later db' := by
  have distinct : db'.Distinct := by
    rw [same]
    exact cycling.distinct.closeOpen _ owner recordedAt
  have status : db'.status (statementId P owner object) = .forgotten := by
    obtain ⟨row, member, isOpen⟩ := any_eq_true.mp current
    have stored : close recordedAt row ∈ db'.assertions := by
      rw [same]
      exact mem_map.mpr ⟨row, member, if_pos isOpen⟩
    simp only [isOpenRow, Bool.and_eq_true, beq_iff_eq] at isOpen
    have closed := status_of_mem distinct stored
    rwa [show (close recordedAt row).id = statementId P owner object from isOpen.1.1, if_neg] at closed
    exact fun absent => nomatch absent
  refine ⟨status, ?_⟩
  exact {
    enabled := by rw [same]; exact cycling.enabled
    distinct := distinct
    numbered := by rw [same]; exact appended.numbered cycling.numbered
    rows := by
      intro edited member named
      rw [same] at member ⊢
      obtain ⟨old, present, rfl⟩ := mem_map.mp member
      have known : old.id = statementId P owner object := by
        split at named <;> exact named
      obtain ⟨stated, evidence, due, only, stored⟩ := cycling.rows old present known
      split
      · exact ⟨⟨stated.owned, stated.scope, stated.subject, stated.predicate, stated.stated,
          stated.qualified, stated.validTo, stated.begun⟩, evidence, due, only,
          appended.hasId_mono stored⟩
      · exact ⟨stated, evidence, due, only, appended.hasId_mono stored⟩
    audits := by
      rw [same]
      refine cycling.audits.appended appended fun evidence _ named => ?_
      obtain ⟨generation, fresh⟩ := Text.fresh_index
        (retractIds db.log (retractBase P owner (statementId P owner object)))
        (Text.suffixed (retractBase P owner (statementId P owner object)))
      obtain ⟨rest, lead⟩ := statementAudit_lead (P := P) owner object evidence
      exact absurd ((fresh.symm.trans named).trans lead) (retract_ne_audit _ _ generation rest)
    unaudited := fun gone => nomatch status.symm.trans gone }

theorem forget (visible : isBlank owner = false) (disk : Option DiskSample) (recordedAt : String) :
    (CycleOp.forget disk recordedAt).Lawful P owner object db ∧
      Cycling P owner object used later
        ((CycleOp.forget disk recordedAt).apply P owner object db) := by
  simp only [CycleOp.Lawful, CycleOp.apply]
  cases done : db.forget P disk owner (statementId P owner object) recordedAt with
  | error error =>
    exact ⟨.inl ⟨error, forget_error visible cycling.numbered done, rfl⟩, cycling⟩
  | ok result =>
    obtain ⟨outcome, db'⟩ := result
    cases forget_cases done with
    | already closed stored =>
      have known := cycling.known_iff.mp stored
      have ended : db.status (statementId P owner object) ≠ .remembered := fun held =>
        nomatch closed.symm.trans (cycling.remembered_iff.mpr held)
      have status : db.status (statementId P owner object) = .forgotten := by
        cases found : db.status (statementId P owner object) with
        | absent => exact absurd found known
        | remembered => exact absurd found ended
        | forgotten => rfl
      refine ⟨.inr ⟨db, ?_, ?_, ?_, fun _ => rfl⟩, cycling⟩ <;> rw [status]
      · rfl
      · rfl
      · exact .refl db.log
    | notFound closed missing =>
      have status : db.status (statementId P owner object) = .absent := by
        by_contra known
        exact nomatch missing.symm.trans (cycling.known_iff.mpr known)
      refine ⟨.inr ⟨db, ?_, ?_, ?_, fun _ => rfl⟩, cycling⟩ <;> rw [status]
      · rfl
      · rfl
      · exact .refl db.log
    | forgotten log current appended =>
      have status := cycling.remembered_iff.mp current
      obtain ⟨ended, after⟩ := cycling.forgotten current appended rfl
      refine ⟨.inr ⟨{ db.closeOpen (statementId P owner object) owner recordedAt with log := log },
        ?_, ?_, ?_, fun other => absurd status other⟩, after⟩ <;> rw [status]
      · rfl
      · exact ended
      · exact appended.adds

end

theorem step {op : CycleOp} (cycling : Cycling P owner object used (op.readings ++ later) db)
    (visible : isBlank owner = false) (direct : op.isDirect)
    (due : ∀ evidence ∈ op.evidences, evidence ∈ used) (apart : Apart P owner object used)
    (clock : (op.readings ++ later).Pairwise (· ≤ ·)) :
    op.Lawful P owner object db ∧ Cycling P owner object used later (op.apply P owner object db) := by
  cases op with
  | remember reads evidence =>
    have ordered : ∀ reading ∈ later, reads.created ≤ reading := fun reading coming =>
      (pairwise_cons.mp clock).1 reading (by simp [coming])
    exact cycling.remember visible direct (due evidence (mem_singleton_self _)) apart ordered
  | forget disk recordedAt =>
    exact Cycling.forget (cycling.sooner fun reading coming => mem_append_right _ coming) visible
      disk recordedAt

theorem run {ops : List CycleOp}
    (cycling : Cycling P owner object used (ops.flatMap CycleOp.readings ++ later) db)
    (visible : isBlank owner = false) (direct : ∀ op ∈ ops, op.isDirect)
    (due : ∀ evidence ∈ ops.flatMap CycleOp.evidences, evidence ∈ used)
    (apart : Apart P owner object used)
    (clock : (ops.flatMap CycleOp.readings ++ later).Pairwise (· ≤ ·)) :
    Cycling P owner object used later (db.cycled P owner object ops) := by
  induction ops generalizing db with
  | nil => exact cycling
  | cons op rest ih =>
    rw [flatMap_cons, append_assoc] at cycling clock
    have first := cycling.step visible (direct op (mem_cons_self ..))
      (fun evidence listed => due evidence (mem_append_left _ listed)) apart clock
    exact ih first.2 (fun other listed => direct other (mem_cons_of_mem _ listed))
      (fun evidence listed => due evidence (mem_append_right _ listed))
      (pairwise_append.mp clock).2.1

end Cycling

theorem CycleRun.cycling {ops : List CycleOp} {db : MemoryDb} (legal : CycleRun P owner object ops db) :
    Cycling P owner object (ops.flatMap CycleOp.evidences) (ops.flatMap CycleOp.readings) db where
  enabled := legal.enabled
  distinct := legal.distinct
  numbered := legal.numbered
  rows row member named := absurd named (legal.unknown row member)
  audits event member evidence due named := by
    have stored : db.log.hasId (statementAudit P owner object evidence) = true :=
      any_eq_true.mpr ⟨event, member, beq_iff_eq.mpr named⟩
    exact nomatch (legal.unaudited evidence due).symm.trans stored
  unaudited _ := legal.unaudited

end

def teaDigests : List (String × BitVec 256) :=
  [("aliceI like tea",
      0xa11504eac11943efc337a78c23f6e7cce0185070ea8ec97c44f28c34e2e446e1#256),
    ("commit|a11504eac11943efc337a78c23f6e7cce0185070ea8ec97c44f28c34e2e446e1|user|said_to_remember|\"I like tea\"|[\"e1\"]",
      0x2209f42dd1ba0dcbdf36bdbe71583e17ac04c28ce06f932ca2cce8c71f9c1ac6#256),
    ("commit|a11504eac11943efc337a78c23f6e7cce0185070ea8ec97c44f28c34e2e446e1|user|said_to_remember|\"I like tea\"|[\"e2\"]",
      0xa15860c973e51d8ea0546b8bbe44ff1d429402568e4ff79dd55a8476138cb1de#256),
    ("[\"retract\",\"alice\",\"a11504eac11943efc337a78c23f6e7cce0185070ea8ec97c44f28c34e2e446e1\"]",
      0xe755bdddd3bac7cc88fc66017d28e27261f9085b130d817121054bf003a2fa1e#256),
    ("2026-03-01T00:00:00Z|[\"e2\"]",
      0x181cc1a7c38e5197be802f4641d76c5c7ebdcbaefdab96490172cb504592213b#256)]

def teaPlatform : Platform := .ofDigests teaDigests

def rememberTea (time evidence : String) : CycleOp :=
  .remember (readsAt time) evidence ⟨"chat", .userSaid⟩ (.fromSources [("user_input:r1", .ordinary)])

def teaCycle : List CycleOp :=
  [rememberTea "2026-01-01T00:00:00Z" "e1", .forget none "2026-02-01T00:00:00Z"]

def teaDb : MemoryDb := MemoryDb.fresh (fun _ => none) fun _ => none

end Agent24.Memory
