import Agent24.Library.Tally
import Agent24.Library.ThreeValued
import Agent24.Platform

/-!
The event log `mem_events` with the tables its triggers maintain: `mem_owner_usage`,
`mem_event_quota_exempt`, and the two they read, `mem_owner_quota` and `mem_os_partitions`.
-/

set_option autoImplicit false
namespace Agent24.Memory
open Library

structure Scope where
  owner : String
  agent : Option String
  session : Option String
  run : Option String
  deriving DecidableEq, Repr

/-- `Scope::owner`. -/
def Scope.ofOwner (owner : String) : Scope := ⟨owner, none, none, none⟩

inductive Trust where
  | userSaid | toolOutput | webFetch | model | system | unknown
  deriving DecidableEq, Repr

namespace Trust

def asStr : Trust → String
  | .userSaid => "user_said"
  | .toolOutput => "tool_output"
  | .webFetch => "web_fetch"
  | .model => "model"
  | .system => "system"
  | .unknown => "unknown"

def parse (s : String) : Trust :=
  if s = "user_said" then .userSaid
  else if s = "tool_output" then .toolOutput
  else if s = "web_fetch" then .webFetch
  else if s = "model" then .model
  else if s = "system" then .system
  else .unknown

def debug : Trust → String
  | .userSaid => "UserSaid"
  | .toolOutput => "ToolOutput"
  | .webFetch => "WebFetch"
  | .model => "Model"
  | .system => "System"
  | .unknown => "Unknown"

end Trust

structure Origin where
  source : String
  trust : Trust
  deriving DecidableEq, Repr

structure MemEvent where
  id : String
  scope : Scope
  kind : String
  body : Json
  origin : Origin
  causal : List String
  recordedAt : String

/-- `MemEvent::new`, stamped with a reading of the clock. -/
def MemEvent.new (now id : String) (scope : Scope) (kind : String) (body : Json)
    (origin : Origin) : MemEvent :=
  ⟨id, scope, kind, body, origin, [], now⟩

inductive Payload where
  | body (value : Json)
  | raw (text : String)
  deriving DecidableEq

namespace Payload

def text : Payload → String
  | .body value => value.render
  | .raw text => text

/-- `LENGTH(CAST(payload AS BLOB))`. -/
def byteLength (payload : Payload) : Int := payload.text.utf8ByteSize

/-- `serde_json::from_str` of the column. -/
def value (P : Platform) : Payload → Option Json
  | .body value => some value
  | .raw text => P.parseJson text

/-- SQLite's view of the column; `none` where `json_valid` is false. -/
def sqliteView (P : Platform) : Payload → Option Json
  | .body value => some value
  | .raw text => P.sqliteJson text

theorem byteLength_nonneg (payload : Payload) : 0 ≤ payload.byteLength :=
  Int.natCast_nonneg _

end Payload

/-- The columns of `mem_events` that an insert supplies. -/
structure EventColumns where
  id : String
  scopeOwner : String
  scopeSession : Option String
  scope : Scope
  kind : String
  payload : Payload
  originSource : String
  originTrust : String
  causal : List String
  recordedAt : String
  deriving DecidableEq

structure EventRow extends EventColumns where
  seq : Int
  deriving DecidableEq

def EventRow.setOwner (owner : String) (row : EventRow) : EventRow := { row with scopeOwner := owner }

structure UsageRow where
  rowCount : Int
  byteCount : Int
  exemptRowCount : Int
  exemptByteCount : Int
  deriving DecidableEq, Repr

namespace UsageRow

def zero : UsageRow := ⟨0, 0, 0, 0⟩

def plus (u v : UsageRow) : UsageRow :=
  ⟨u.rowCount + v.rowCount, u.byteCount + v.byteCount, u.exemptRowCount + v.exemptRowCount,
    u.exemptByteCount + v.exemptByteCount⟩

def minus (u v : UsageRow) : UsageRow :=
  ⟨u.rowCount - v.rowCount, u.byteCount - v.byteCount, u.exemptRowCount - v.exemptRowCount,
    u.exemptByteCount - v.exemptByteCount⟩

/-- What one event of the given class adds to its owner's counters. -/
def charge (exempt : Bool) (bytes : Int) : UsageRow :=
  if exempt then ⟨0, 0, 1, bytes⟩ else ⟨1, bytes, 0, 0⟩

def isNonneg (u : UsageRow) : Bool :=
  0 ≤ u.rowCount && 0 ≤ u.byteCount && 0 ≤ u.exemptRowCount && 0 ≤ u.exemptByteCount

end UsageRow

structure QuotaRow where
  maxRows : Int
  maxBytes : Int
  deriving DecidableEq, Repr

inductive SpaceKind where
  | module | personal
  deriving DecidableEq, Repr

structure EventTables where
  /-- `mem_events`, in insertion order. -/
  events : List EventRow
  /-- The highest `seq` ever given out (`AUTOINCREMENT`). -/
  lastSeq : Int
  /-- `mem_owner_usage`. -/
  usage : String → Option UsageRow
  /-- `mem_event_quota_exempt`. -/
  exempt : String → Bool
  /-- `mem_owner_quota`. -/
  quota : String → Option QuotaRow
  /-- `mem_os_partitions`: the space kind of an owner key. -/
  partitions : String → Option SpaceKind

inductive SqlError where
  /-- `RAISE(ABORT, message)`. -/
  | raised (message : String)
  | checkFailed
  | uniqueFailed
  deriving DecidableEq, Repr

/-- What an insert does about a stored row with the same key. -/
inductive Clause where
  | plain | onConflictIdDoNothing | orReplace
  deriving DecidableEq, Repr

/-- `json_type` of a value. -/
def sqliteType : Json → String
  | .null => "null"
  | .bool true => "true"
  | .bool false => "false"
  | .int _ => "integer"
  | .float _ => "real"
  | .str _ => "text"
  | .arr _ => "array"
  | .obj _ => "object"

/-- Rows of `json_each`. -/
def eachCount : Json → Nat
  | .arr items => items.length
  | .obj fields => fields.length
  | _ => 1

def retractionPayload (P : Platform) (payload : Payload) : ThreeValued.Truth :=
  match payload.sqliteView P with
  | some value =>
    ThreeValued.and
      (ThreeValued.and
        (ThreeValued.and (ThreeValued.known (sqliteType value == "object"))
          (ThreeValued.known (eachCount value == 1)))
        (ThreeValued.compare (· == ·) ((value.get? "assertion_id").map sqliteType) (some "text")))
      (ThreeValued.known (decide (payload.byteLength ≤ 256)))
  | none => ThreeValued.known false

/-- The owner `CHECK` strips space, tab, line feed and carriage return. -/
def ownerCheck (owner : String) : Bool := !sqliteBlank [' ', '\t', '\n', '\r'] owner

namespace EventTables
variable (P : Platform)

section
variable (t : EventTables)

def hasId (id : String) : Bool := t.events.any fun row => row.id == id

def hasSeq (seq : Int) : Bool := t.events.any fun row => row.seq == seq

def byId (id : String) : Option EventRow :=
  t.events.find? fun row => row.id == id

def isPersonal (owner : String) : Bool :=
  t.partitions owner == some .personal

/-- The exemption expression of both triggers, `COALESCE(.., 0)` included. -/
def exemptNow (row : EventColumns) : Bool :=
  ThreeValued.coalesce
    (ThreeValued.and
      (ThreeValued.and (ThreeValued.known (row.kind == "assertion.retracted"))
        (ThreeValued.known (t.isPersonal row.scopeOwner)))
      (retractionPayload P row.payload)) false

/-- `COALESCE` of an owner's own limit and the default one. -/
def limit (bound : QuotaRow → Int) (owner : String) : Option Int :=
  match t.quota owner with
  | some row => some (bound row)
  | none => (t.quota "*").map bound

/-- `COALESCE((SELECT counter FROM mem_owner_usage WHERE owner = ..), 0)`. -/
def used (owner : String) : UsageRow := (t.usage owner).getD .zero

/-- `WHERE amount > limit`, false where the limit is `NULL`. -/
def exceeds (amount : Int) (bound : Option Int) : Bool :=
  ThreeValued.selects (ThreeValued.compare (fun a b => decide (a > b)) (some amount) bound)

/-- `mem_events_bi_quota`. -/
def quotaGate (row : EventColumns) : Option SqlError :=
  if !t.hasId row.id && ThreeValued.coalesce
      (ThreeValued.not (ThreeValued.known (t.exemptNow P row))) true then
    if exceeds ((t.used row.scopeOwner).rowCount + 1) (t.limit QuotaRow.maxRows row.scopeOwner) then
      some (.raised "mem_quota:rows")
    else if exceeds ((t.used row.scopeOwner).byteCount + row.payload.byteLength)
        (t.limit QuotaRow.maxBytes row.scopeOwner) then
      some (.raised "mem_quota:bytes")
    else none
  else none

def addUsage (owner : String) (charge : UsageRow) : EventTables :=
  { t with
    usage := Function.update t.usage owner
      (some (match t.usage owner with | some row => row.plus charge | none => charge)) }

/-- Store one row; then `mem_events_ai_usage`. -/
def store (seq : Int) (row : EventColumns) : EventTables :=
  let exempt := t.exemptNow P row
  let stored := { t with
    events := t.events ++ [EventRow.mk row seq]
    lastSeq := max t.lastSeq seq
    exempt := Function.update t.exempt row.id exempt }
  stored.addUsage row.scopeOwner (.charge exempt row.payload.byteLength)

end

/-- Conflict resolution on `id` and `seq`: `none` skips the row, and a replaced row is deleted
without a trigger of its own (`recursive_triggers` is off). -/
def resolve (clause : Clause) (seq : Int) (row : EventColumns) (t : EventTables) :
    Except SqlError (Option EventTables) :=
  if t.hasId row.id || t.hasSeq seq then
    match clause with
    | .plain => .error .uniqueFailed
    | .onConflictIdDoNothing => if t.hasSeq seq then .error .uniqueFailed else .ok none
    | .orReplace =>
      .ok (some { t with events := t.events.filter fun old => !(old.id == row.id || old.seq == seq) })
  else .ok (some t)

/-- One `INSERT` into `mem_events` with its triggers, the newest `BEFORE` trigger first. The second
component is the stored `seq`, or `none` when no row was inserted. An absent `seq` reads as `-1`
inside a `BEFORE` trigger. -/
def insert (clause : Clause) (seq : Option Int) (row : EventColumns) (t : EventTables) :
    Except SqlError (EventTables × Option Int) :=
  match t.quotaGate P row with
  | some error => .error error
  | none =>
    -- `mem_events_bi_no_replace`
    if t.hasId row.id || t.hasSeq (seq.getD (-1)) then .ok (t, none)
    else if !ownerCheck row.scopeOwner then .error .checkFailed
    else
      let newSeq := seq.getD (t.lastSeq + 1)
      match t.resolve clause newSeq row with
      | .error error => .error error
      | .ok none => .ok (t, none)
      | .ok (some cleared) => .ok (cleared.store P newSeq row, some newSeq)

def chargeOf (t : EventTables) (row : EventColumns) : UsageRow :=
  .charge (t.exempt row.id) row.payload.byteLength

def release (t : EventTables) (owner : String) (charge : UsageRow) : Except SqlError EventTables :=
  let usage := (t.usage owner).map fun row => row.minus charge
  if usage.any UsageRow.isNonneg then .ok { t with usage := Function.update t.usage owner usage }
  else .error (.raised "mem_quota:underflow")

/-- `UPDATE mem_events SET scope_owner = newOwner` on one row; then `mem_events_au_owner_usage`. -/
def moveRow (newOwner : String) (t : EventTables) (row : EventRow) : Except SqlError EventTables :=
  if !ownerCheck newOwner then .error .checkFailed
  else
    let moved := { t with events := rewriteKey EventRow.seq row.seq (.setOwner newOwner) t.events }
    if row.scopeOwner = newOwner then .ok moved
    else do
      let released ← moved.release row.scopeOwner (moved.chargeOf row.toEventColumns)
      pure (released.addUsage newOwner (released.chargeOf row.toEventColumns))

/-- `DELETE` of one row; then `mem_events_ad_usage`. -/
def deleteRow (t : EventTables) (row : EventRow) : Except SqlError EventTables := do
  let deleted := { t with events := eraseKey EventRow.seq row.seq t.events }
  let released ← deleted.release row.scopeOwner (deleted.chargeOf row.toEventColumns)
  pure { released with exempt := Function.update released.exempt row.id false }

end EventTables

/-- A statement on the event tables. `delete` and `moveOwner` act on the rows a condition selects. -/
inductive Statement where
  | insert (clause : Clause) (seq : Option Int) (row : EventColumns)
  | moveOwner (newOwner : String) (which : EventRow → Bool)
  | delete (which : EventRow → Bool)
  | setPayload (payload : Payload) (which : EventRow → Bool)
  | setId (id : String) (which : EventRow → Bool)
  | setPartition (owner : String) (kind : Option SpaceKind)
  | setQuota (owner : String) (row : QuotaRow)
  | deleteQuota (owner : String)
  | renameQuota (owner newOwner : String)

namespace Statement
variable (P : Platform)

def exec : Statement → EventTables → Except SqlError EventTables
  | .insert clause seq row, t => (t.insert P clause seq row).map Prod.fst
  | .moveOwner newOwner which, t =>
    (t.events.filter which).foldlM (EventTables.moveRow newOwner) t
  | .delete which, t => (t.events.filter which).foldlM EventTables.deleteRow t
  -- `mem_events_bu_payload_immutable`
  | .setPayload _ which, t =>
    if t.events.any which then .error (.raised "mem_events.payload is immutable") else .ok t
  -- `mem_events_bu_id_immutable`
  | .setId id which, t =>
    if t.events.any fun row => which row && row.id != id then
      .error (.raised "mem_events.id is immutable")
    else .ok t
  | .setPartition owner kind, t => .ok { t with partitions := Function.update t.partitions owner kind }
  | .setQuota owner row, t => .ok { t with quota := Function.update t.quota owner (some row) }
  -- `mem_owner_quota_bd_protect_default`
  | .deleteQuota owner, t =>
    if owner = "*" && (t.quota owner).isSome then .error (.raised "cannot delete default quota")
    else .ok { t with quota := Function.update t.quota owner none }
  -- `mem_owner_quota_bu_protect_default`
  | .renameQuota owner newOwner, t =>
    match t.quota owner with
    | none => .ok t
    | some row =>
      if owner = "*" && newOwner != "*" then .error (.raised "cannot rename default quota")
      else if owner = newOwner then .ok t
      else if (t.quota newOwner).isSome then .error .uniqueFailed
      else .ok { t with
        quota := Function.update (Function.update t.quota owner none) newOwner (some row) }

def apply (s : Statement) (t : EventTables) : EventTables :=
  match s.exec P t with
  | .ok t' => t'
  | .error _ => t

end Statement
end Agent24.Memory
