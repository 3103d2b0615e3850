import Agent24.Documents.Scope
import Agent24.Documents.Claim

/-! Module tools: one call of an operation, from its context to its envelope. -/

set_option autoImplicit false
namespace Agent24.Documents
open Library

def PAYLOAD_BYTES : Nat := 60 * 1024

structure ToolContext where
  runId : String
  toolCallId : String
  operation : String
  authorizedResources : Option Json
  authorizationRef : Option String

abbrev Arguments := List (String × Json)

structure ToolCall where
  context : ToolContext
  arguments : Arguments

inductive Envelope where
  | completed (payload : Json) (replayed : Bool)
  | error (code : String) (retryable : Bool)

inductive Resource where
  | document
  | job
  | extraction
  | listing
  deriving DecidableEq

def resource : String → Option Resource
  | "get" | "read_range" | "find" | "extract" => some .document
  | "job_get" => some .job
  | "extraction_get" => some .extraction
  | "list" => some .listing
  | _ => none

def invalidInput : Envelope := .error "invalid_input" false

def permissionDenied : Envelope := .error "permission_denied" false

def operationUnavailable : Envelope := .error "operation_unavailable" false

def refused (e : ApiError) : Envelope := .error e.code e.retryable

def argument (arguments : Arguments) (key : String) : Option Json :=
  (arguments.find? fun a => a.1 == key).map Prod.snd

def named (arguments : Arguments) (key : String) : Except Envelope String :=
  match argument arguments key with
  | some (.str id) => .ok id
  | _ => .error invalidInput

/-- `admit`: lets an operation run only if what it names is in the scope, before any other argument is checked. -/
def checkScope (store : Store) (scope : Scope) (op : String) (arguments : Arguments) : Except Envelope Unit :=
  let within (kind : IdKind) (id : String) (owner : Option String) (absent : String) : Except Envelope Unit :=
    -- a malformed id passes: nothing has it, and the service refuses it
    if !isId kind id then .ok ()
    else if owner.any scope.allowsDocument then .ok ()
    else .error (refused (.notFound absent))
  match resource op with
  | none => .error operationUnavailable
  | some .listing => .ok ()
  | some .document => do
    let id ← named arguments "document_id"
    within .document id (some id) "no such document"
  | some .job => do
    let id ← named arguments "job_id"
    within .job id (jobDocument store id) "no such job"
  | some .extraction => do
    let id ← named arguments "extraction_id"
    within .extraction id (extractionDocument store id) "no such extraction"

section
variable (arguments : Arguments)

/-- `deny_unknown_fields`. -/
def known (fields : List String) : Except Envelope Unit :=
  if arguments.all fun a => fields.contains a.1 then .ok () else .error invalidInput

/-- An `i64`. -/
def asInteger? : Json → Option Int
  | .int n => if -(2 ^ 63) ≤ n ∧ n < 2 ^ 63 then some n else none
  | _ => none

def required {α : Type} (read : Json → Option α) (key : String) : Except Envelope α :=
  ((argument arguments key).bind read).elim (.error invalidInput) .ok

/-- A field that, when present, must be of its type: an explicit null is refused. -/
def present {α : Type} (read : Json → Option α) (key : String) : Except Envelope (Option α) :=
  match argument arguments key with
  | none => .ok none
  | some value => (read value).elim (.error invalidInput) fun a => .ok (some a)

end

def bounded (limit : Option Int) : Except Envelope (Option Int) :=
  if limit.any fun l => ¬ (1 ≤ l ∧ l ≤ MAX_LIMIT) then .error invalidInput else .ok limit

def completed (answer : Except ApiError Json) : Except Envelope Envelope :=
  match answer with
  | .error e => .error (refused e)
  | .ok payload =>
    if PAYLOAD_BYTES < payload.size then .error (refused (.overBudget PAYLOAD_BYTES))
    else .ok (.completed payload false)

section
variable (m : Module) (store : Store)

def listOp (scope : Scope) (arguments : Arguments) : Except Envelope Envelope := do
  known arguments ["cursor", "limit"]
  let cursor ← present arguments Json.asStr? "cursor"
  let limit ← present arguments asInteger? "limit"
  let limit ← bounded limit
  completed ((listDocuments store (some scope.documents) cursor (limit.getD DEFAULT_LIMIT) PAYLOAD_BYTES).map
    DocumentList.json)

section
variable (arguments : Arguments)

def getOp : Except Envelope Envelope := do
  known arguments ["document_id"]
  let id ← required arguments Json.asStr? "document_id"
  completed (getDocument store id)

def jobGetOp : Except Envelope Envelope := do
  known arguments ["job_id"]
  let id ← required arguments Json.asStr? "job_id"
  completed (getJob m.reader store id)

def readRangeOp : Except Envelope Envelope := do
  known arguments ["document_id", "revision", "block", "cursor", "limit", "require_complete"]
  let id ← required arguments Json.asStr? "document_id"
  let revision ← required arguments asInteger? "revision"
  let block ← present arguments Json.asStr? "block"
  let cursor ← present arguments Json.asStr? "cursor"
  let limit ← present arguments asInteger? "limit"
  let complete ← present arguments Json.asBool? "require_complete"
  let limit ← bounded limit
  completed (readRange m.reader m.engine store id revision
    ⟨block, cursor, limit.map Int.toNat, complete.getD false⟩ PAYLOAD_BYTES)

def findOp : Except Envelope Envelope := do
  known arguments ["document_id", "revision", "query", "cursor", "limit", "require_complete"]
  let id ← required arguments Json.asStr? "document_id"
  let revision ← required arguments asInteger? "revision"
  let query ← required arguments Json.asStr? "query"
  let cursor ← present arguments Json.asStr? "cursor"
  let limit ← present arguments asInteger? "limit"
  let complete ← present arguments Json.asBool? "require_complete"
  let limit ← bounded limit
  completed (search m.reader m.engine store id
    ⟨revision, query, cursor, limit.map Int.toNat, complete.getD false⟩ PAYLOAD_BYTES)

def extractionGetOp : Except Envelope Envelope := do
  known arguments ["extraction_id", "cursor", "limit"]
  let id ← required arguments Json.asStr? "extraction_id"
  let cursor ← present arguments Json.asStr? "cursor"
  let limit ← present arguments asInteger? "limit"
  let limit ← bounded limit
  completed (Extractions.get m.reader store id cursor ((limit.map Int.toNat).getD Extractions.DEFAULT_LIMIT)
    PAYLOAD_BYTES)

end

def readOp (scope : Scope) (op : String) (arguments : Arguments) : Except Envelope Envelope :=
  match op with
  | "list" => listOp store scope arguments
  | "get" => getOp store arguments
  | "job_get" => jobGetOp m store arguments
  | "read_range" => readRangeOp m store arguments
  | "find" => findOp m store arguments
  | "extraction_get" => extractionGetOp m store arguments
  | _ => .error operationUnavailable

def prepareOp (run : OplogRun) (arguments : Arguments) : Except Envelope Prepared :=
  -- the log's check would refuse it inside the claim
  if run.runId.isEmpty || run.toolCallId.isEmpty then .error invalidInput
  else do
    known arguments ["document_id", "revision", "schema"]
    let id ← required arguments Json.asStr? "document_id"
    let revision ← required arguments asInteger? "revision"
    let schema ← required arguments some "schema"
    let fields ← required arguments m.fields "schema"
    let body := Json.obj [("revision", .int revision), ("schema", schema)]
    (prepare m store id revision fields body none).mapError refused

end

/-- What happens around one call: the end of its authorization before it began and while it ran, its processing
budget running out, and then whether the claim it had begun still commits. -/
structure Course where
  endedBefore : Bool
  late : Bool
  claimsLate : Bool
  endedMeanwhile : Bool
  draw : Draw

def extractOp (m : Module) (store : Store) (run : OplogRun) (accepted : Accepted) (draw : Draw) (arguments : Arguments) :
    Envelope × Store :=
  match prepareOp m store run arguments with
  | .error refusal => (refusal, store)
  | .ok prepared =>
    match claim m store prepared (.run run) (some accepted) draw with
    | (.ok (job, started), after) =>
      (.completed (.obj [("job_id", .str job.jobId), ("status", .str job.status.asStr)]) (!started), after)
    | (.error e, after) => (refused e, after)

def work (m : Module) (store : Store) (scope : Scope) (op : String) (call : ToolCall) (course : Course) :
    Envelope × Store :=
  match checkScope store scope op call.arguments with
  | .error refusal => (refusal, store)
  | .ok () =>
    if op = "extract" then
      extractOp m store ⟨call.context.runId, call.context.toolCallId⟩ ⟨op, call.context.authorizationRef⟩ course.draw
        call.arguments
    else
      match readOp m store scope op call.arguments with
      | .ok envelope => (envelope, store)
      | .error refusal => (refusal, store)

def dispatch (m : Module) (store : Store) (op : String) (call : ToolCall) (course : Course) : Envelope × Store :=
  -- the path names the operation; a context naming another is not what the kernel sends
  if op ≠ call.context.operation then (invalidInput, store)
  else if course.endedBefore then (permissionDenied, store)
  else
    match Scope.parse call.context.authorizedResources with
    | none => (permissionDenied, store)
    | some scope =>
      let (outcome, after) := work m store scope op call course
      let envelope := if course.late then .error "internal" true else outcome
      let after := if course.late && !course.claimsLate then store else after
      -- its authorization ended while it ran: what it found is not given
      if course.endedMeanwhile then (permissionDenied, after) else (envelope, after)

end Agent24.Documents
