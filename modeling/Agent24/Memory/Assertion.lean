import Agent24.Memory.Event
import Agent24.Memory.Index
import Mathlib.Data.List.Sort

/-! The bi-temporal assertion ledger, and the memory database it shares with the event log. -/

set_option autoImplicit false
namespace Agent24.Memory
open Library

inductive Modality where
  | said | observed | derived
  deriving DecidableEq, Repr

/-- One bi-temporal belief. The confidence, a float that no operation reads, is left out. -/
structure Assertion where
  id : String
  scope : Scope
  subject : String
  predicate : String
  object : Json
  validFrom : String
  validTo : Option String
  recordedFrom : String
  recordedTo : Option String
  evidence : List String
  sourceRef : Option Json
  modality : Modality
  speaker : Option String
  writerVersion : String
  supersedes : Option String
  qualified : Bool
  deriving DecidableEq

def Assertion.new (now id : String) (scope : Scope) (subject predicate : String) (object : Json)
    (evidence : List String) : Assertion where
  id := id
  scope := scope
  subject := subject
  predicate := predicate
  object := object
  validFrom := now
  validTo := none
  recordedFrom := now
  recordedTo := none
  evidence := evidence
  sourceRef := none
  modality := .said
  speaker := none
  writerVersion := "md3a"
  supersedes := none
  qualified := true

/-- A row of `mem_assertions`. Columns of JSON text are kept as the value they print. -/
structure AssertionRow extends Assertion where
  scopeOwner : String
  deriving DecidableEq

def AssertionRow.key (row : AssertionRow) : String := row.id

structure MemoryDb where
  log : EventTables
  assertions : List AssertionRow
  fts : List FtsRow
  /-- The `kv` rows of the personal-memory switch, by owner. -/
  settings : String → Option Payload

inductive MemoryError where
  | sqlx (error : SqlError)
  | conflict (message : String)
  | quotaExceeded (owner dimension : String)
  | diskLow
  | retractIdTooLong
  deriving DecidableEq, Repr

def mapQuotaError (owner : String) : SqlError → MemoryError
  | .raised message =>
    if Text.startsWith "mem_quota:rows" message then .quotaExceeded owner "rows"
    else if Text.startsWith "mem_quota:bytes" message then .quotaExceeded owner "bytes"
    else .sqlx (.raised message)
  | other => .sqlx other

inductive WriteClass where
  | content | retract
  deriving DecidableEq, Repr

structure DiskSample where
  freeBytes : Nat
  walBytes : Nat
  deriving DecidableEq, Repr

def threshold (class_ : WriteClass) (walBytes : Nat) : Nat :=
  match class_ with
  | .content => max (512 * 1024 * 1024) (walBytes * 2)
  | .retract => 16 * 1024 * 1024

/-- `DiskGate::check` on the sample it has; a disabled gate and a failed probe give none. -/
def diskRefuses (class_ : WriteClass) : Option DiskSample → Bool
  | some sample => sample.freeBytes < threshold class_ sample.walBytes
  | none => false

def MemEvent.columns (e : MemEvent) : EventColumns where
  id := e.id
  scopeOwner := e.scope.owner
  scopeSession := e.scope.session
  scope := e.scope
  kind := e.kind
  payload := .body e.body
  originSource := e.origin.source
  originTrust := e.origin.trust.asStr
  causal := e.causal
  recordedAt := e.recordedAt

section
variable (P : Platform)

/-- `EventLog::append_tx`: an insert that stored nothing is a conflict. -/
def appendTx (e : MemEvent) (log : EventTables) : Except MemoryError EventTables :=
  match log.insert P .plain none e.columns with
  | .error error => .error (mapQuotaError e.scope.owner error)
  | .ok (_, none) =>
    .error (.conflict ("event already exists (id or seq conflict): " ++ P.debugStr e.id))
  | .ok (log', some _) => .ok log'

/-- `EventLog::append`: a stored id with the same owner and payload is a replay. -/
def append (disk : Option DiskSample) (e : MemEvent) (log : EventTables) :
    Except MemoryError (Int × EventTables) :=
  if diskRefuses .content disk then .error .diskLow
  else match log.insert P .onConflictIdDoNothing none e.columns with
    | .error error => .error (mapQuotaError e.scope.owner error)
    | .ok (log', some seq) => .ok (seq, log')
    | .ok (log', none) =>
      match log'.byId e.id with
      | none => .error (.sqlx .uniqueFailed)
      | some stored =>
        if stored.scopeOwner ≠ e.scope.owner ∨ stored.payload.text ≠ e.body.render then
          .error (.conflict ("event id " ++ e.id ++
            " already exists with a different owner/payload — refusing to alias it"))
        else .ok (stored.seq, log')

namespace MemoryDb

def find (db : MemoryDb) (id : String) : Option AssertionRow :=
  db.assertions.find? fun row => row.id == id

/-- The rows `WHERE id = ? AND scope_owner = ? AND recorded_to IS NULL`. -/
def isOpenRow (id owner : String) (row : AssertionRow) : Bool :=
  row.id == id && row.scopeOwner == owner && row.recordedTo == none

def close (recordedAt : String) (row : AssertionRow) : AssertionRow :=
  { row with recordedTo := some recordedAt }

/-- `UPDATE mem_assertions SET recorded_to = ?` on the open rows of an id. -/
def closeOpen (id owner recordedAt : String) (db : MemoryDb) : MemoryDb :=
  { db with assertions := db.assertions.map fun row =>
      if isOpenRow id owner row then close recordedAt row else row }

/-- `AssertionLedger::insert_tx` and its full-text row. -/
def insertTx (a : Assertion) (db : MemoryDb) : Except MemoryError MemoryDb :=
  if sqliteBlank [' '] a.scope.owner then .error (.sqlx .checkFailed)
  else if db.assertions.any fun row => row.id == a.id then .error (.sqlx .uniqueFailed)
  else .ok { db with
    assertions := db.assertions ++ [⟨a, a.scope.owner⟩]
    fts := db.fts ++ [ftsRow P a.id a.scope.owner a.subject a.predicate a.object.render] }

/-- `AssertionStore::assert`: a superseded row is closed when the new one is recorded. -/
def assertFact (disk : Option DiskSample) (a : Assertion) (db : MemoryDb) :
    Except MemoryError (String × MemoryDb) :=
  if diskRefuses .content disk then .error .diskLow
  else
    let superseded := match a.supersedes with
      | some old => db.closeOpen old a.scope.owner a.recordedFrom
      | none => db
    match superseded.insertTx P a with
    | .error error => .error error
    | .ok db' => .ok (a.id, db')

def retract (disk : Option DiskSample) (id owner recordedAt : String) (db : MemoryDb) :
    Except MemoryError (Unit × MemoryDb) :=
  if diskRefuses .retract disk then .error .diskLow
  else .ok ((), db.closeOpen id owner recordedAt)

inductive Forget where
  | forgotten | alreadyForgotten | notFound
  deriving DecidableEq, Repr

def retractBase (owner id : String) : String :=
  P.checksum (Json.strs ["retract", owner, id]).render

/-- `id LIKE lead-%`, which compares ASCII letters without case. -/
def likeDashed (lead id : String) : Bool :=
  ((lead ++ "-").toList.map Char.toLower).isPrefixOf (id.toList.map Char.toLower)

def retractIds (log : EventTables) (base : String) : List String :=
  (log.events.filter fun row => row.id == base || likeDashed base row.id).map fun row => row.id

/-- The `assertion.retracted` event of `forget`. -/
def retractEvent (owner id recordedAt eventId : String) : MemEvent :=
  .new recordedAt eventId (Scope.ofOwner owner) "assertion.retracted"
    (.obj [("assertion_id", .str id)]) ⟨"memory.forget", .userSaid⟩

/-- `KvStore::forget`: close the belief and append its retraction event in one transaction. -/
def forget (disk : Option DiskSample) (owner id recordedAt : String) (db : MemoryDb) :
    Except MemoryError (Forget × MemoryDb) :=
  if diskRefuses .retract disk then .error .diskLow
  else if !db.assertions.any (isOpenRow id owner) then
    if db.assertions.any fun row => row.id == id && row.scopeOwner == owner then
      .ok (.alreadyForgotten, db)
    else .ok (.notFound, db)
  else
    let base := retractBase P owner id
    let eventId := Text.fresh (retractIds db.log base) (Text.suffixed base)
    let event := retractEvent owner id recordedAt eventId
    match appendTx P event db.log with
    | .error (.quotaExceeded owner' dimension) =>
      if event.body.render.utf8ByteSize > 256 then .error .retractIdTooLong
      else .error (.quotaExceeded owner' dimension)
    | .error error => .error error
    | .ok log' => .ok (.forgotten, { db.closeOpen id owner recordedAt with log := log' })

end MemoryDb

structure BeliefQuery where
  owner : String
  subject : Option String
  validAt : Option String
  recordedAt : Option String
  includeUnqualified : Bool

/-- The `WHERE` clause of the belief query at two times. -/
def BeliefQuery.holds (q : BeliefQuery) (validAt recordedAt : String) (row : AssertionRow) : Bool :=
  row.scopeOwner == q.owner &&
    (decide (row.validFrom ≤ validAt) && (row.validTo.all fun stop => decide (validAt < stop))) &&
    (decide (row.recordedFrom ≤ recordedAt) &&
      (row.recordedTo.all fun stop => decide (recordedAt < stop))) &&
    (q.includeUnqualified || row.qualified) &&
    q.subject.all fun subject => row.subject == subject

/-- `ORDER BY subject, recorded_from, id`. -/
def beliefOrder (a b : AssertionRow) : Prop :=
  a.subject < b.subject ∨ a.subject = b.subject ∧
    (a.recordedFrom < b.recordedFrom ∨ a.recordedFrom = b.recordedFrom ∧ a.id ≤ b.id)

instance : DecidableRel beliefOrder := fun a b => by unfold beliefOrder; infer_instance

/-- `AssertionStore::beliefs_as_of`; the clock stands for the times the query leaves open. -/
def MemoryDb.beliefsAsOf (now : String) (q : BeliefQuery) (db : MemoryDb) : List Assertion :=
  ((db.assertions.filter (q.holds (q.validAt.getD now) (q.recordedAt.getD now))).insertionSort
    beliefOrder).map AssertionRow.toAssertion

theorem mem_beliefsAsOf {now : String} {q : BeliefQuery} {db : MemoryDb} {a : Assertion} :
    a ∈ db.beliefsAsOf now q ↔ ∃ row ∈ db.assertions, row.toAssertion = a ∧
      q.holds (q.validAt.getD now) (q.recordedAt.getD now) row = true := by
  simp only [MemoryDb.beliefsAsOf, List.mem_map, List.mem_insertionSort, List.mem_filter]
  constructor
  · rintro ⟨row, ⟨member, holds⟩, rfl⟩
    exact ⟨row, member, rfl, holds⟩
  · rintro ⟨row, member, rfl, holds⟩
    exact ⟨row, ⟨member, holds⟩, rfl⟩

end
end Agent24.Memory
