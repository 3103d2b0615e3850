import Agent24.Documents.Answer
import Agent24.Documents.Reading

/-! Extract requests: their checks, their key, and the one transaction that claims it. -/

set_option autoImplicit false
namespace Agent24.Documents
open Library

def EXTRACTOR_VERSION : String := "6"

def KINDS : List String := ["text", "date", "datetime", "amount", "number", "identifier", "boolean"]

/-- `[a-z][a-z0-9_]{0,63}`. -/
def isFieldKey (k : String) : Bool :=
  match k.toList with
  | [] => false
  | c :: rest =>
    let lower := fun c : Char => 'a'.val ≤ c.val && c.val ≤ 'z'.val
    rest.length < 64 && lower c && (c :: rest).all fun c => lower c || isAsciiDigit c || c == '_'

def badFieldsFrom (seen : List String) : List Field → Option String
  | [] => none
  | f :: rest =>
    if !isFieldKey f.key then some "a field key is [a-z][a-z0-9_]\x7b0,63\x7d"
    else if seen.contains f.key then some "field keys are unique"
    else if ¬ (1 ≤ f.description.toList.length ∧ f.description.toList.length ≤ 500) then
      some "a field description is 1 to 500 characters"
    else if f.kind.any fun k => !KINDS.contains k then
      some "a field type is text, date, datetime, amount, number, identifier or boolean"
    else badFieldsFrom (f.key :: seen) rest

def badFields (fields : List Field) : Option String :=
  if ¬ (1 ≤ fields.length ∧ fields.length ≤ 100) then some "a schema has 1 to 100 fields"
  else badFieldsFrom [] fields

/-- The module as it runs: what it reads with, and what the kernel and the platform offer it. -/
structure Module where
  reader : Reader
  engine : Option Engine
  model : Bool
  /-- `from_value::<Schema>`: the fields of a schema. -/
  fields : Json → Option (List Field)
  fieldJson : Field → Json
  /-- The canonical form's hash; refused for a number it cannot write. -/
  requestSha256 : Json → Except String String

structure Input where
  documentId : String
  revision : Int
  schemaSha256 : String
  fields : List Field

structure Prepared where
  key : String
  request : String
  input : Input

section
variable (m : Module)

/-- The hash a reused key is compared on: of the body less `"rerun": false`. -/
def requestHash (body : Json) : Except String String :=
  match body with
  | .obj fields =>
    m.requestSha256 (.obj (fields.filter fun field => !(field.1 == "rerun" && field.2 == .bool false)))
  | other => m.requestSha256 other

def schemaSha256 (fields : List Field) : Except String String :=
  m.requestSha256 (.obj [("fields", .arr (fields.map m.fieldJson))])

def extractKey (documentId : String) (revision : Int) (schema : String) : Option String → String
  | none => documentId ++ "/" ++ toString revision ++ "/" ++ schema ++ "/" ++ EXTRACTOR_VERSION
  | some rerun => documentId ++ "/rerun/" ++ rerun

def transpose {ε α : Type} : Option (Except ε α) → Except ε (Option α)
  | none => .ok none
  | some read => read.map some

/-- Checks a request and works out its key. `rerun` is what a rerun's header reads as. -/
def prepare (store : Store) (documentId : String) (revision : Int) (fields : List Field) (body : Json)
    (rerun : Option (Except ApiError String)) : Except ApiError Prepared :=
  if !isId .document documentId || revision < 1 then .error (.invalidRequest "not a document id or revision")
  else
    match badFields fields with
    | some why => .error (.invalidRequest why)
    | none => do
      let rerun ← transpose rerun
      let request ← (requestHash m body).mapError .invalidRequest
      let schema ← (schemaSha256 m fields).mapError .invalidRequest
      if !m.model then .error (.engineUnavailable "the kernel offers this module no model")
      else if m.engine.isNone then .error (.engineUnavailable "no read engine on this platform")
      else
        match store.revisions.find (documentId, revision) with
        | none => .error (.notFound "no such document revision")
        | some row =>
          if !FORMATS.contains row.mediaType then
            .error (.unprocessable "unsupported_format" "slice 1 reads PDF, JPEG and PNG")
          else
            .ok ⟨extractKey documentId revision schema rerun, request, ⟨documentId, revision, schema, fields⟩⟩

def inputJson (input : Input) : Json :=
  .obj [("document_id", .str input.documentId), ("fields", .arr (input.fields.map m.fieldJson)),
    ("revision", .int input.revision), ("schema_sha256", .str input.schemaSha256)]

/-- What a claim finds outside the store: the id its randomness gives, if any, and the instant. -/
structure Draw where
  jobId : Option String
  now : String

def requeued (now : String) (job : JobRow) : JobRow :=
  { job with status := .queued, attempt := job.attempt + 1, error := none, progress := none, updatedAt := now }

def newJob (jobId now : String) (input : Input) (origin : Origin) : JobRow :=
  { id := jobId, kind := "extract", documentId := some input.documentId, revision := some input.revision,
    status := .queued, attempt := 1, progress := none, error := none, resultRef := none, origin := origin,
    input := some (inputJson m input), createdAt := now, updatedAt := now }

/-- The rest of a claim's transaction, once the job is the key's: the log, the answer, and the acceptance. -/
def finishClaim (store : Store) (input : Input) (origin : Origin) (accepted : Option Accepted) (jobId : String)
    (started : Bool) : Except ApiError (Job × Bool × Store) :=
  let logged := match origin with
    | .page => store
    | .run run =>
      { store with oplog := store.oplog ++ [OplogRow.mk "extract" input.documentId input.revision run jobId] }
  match logged.jobs.find jobId with
  | none => .error (.internal "the job vanished")
  | some row =>
    match row.checked m.reader.json with
    | none => .error .databaseFailed
    | some job =>
      let recorded := match origin, accepted with
        | .run run, some accepted =>
          if job.status.working then
            { logged with acceptances := logged.acceptances ++ [AcceptanceRow.mk job.jobId job.attempt accepted run] }
          else logged
        | _, _ => logged
      .ok (job, started, recorded)

/-- Claims `key` and writes the job; a key already claimed replays its job instead. Answers the job as this claim
leaves it, and whether a worker starts. -/
def claimed (store : Store) (prepared : Prepared) (origin : Origin) (accepted : Option Accepted) (draw : Draw) : Except ApiError (Job × Bool × Store) :=
  match store.keys.find ("extract", prepared.key) with
  | some hit =>
    if hit.requestSha256 ≠ prepared.request then .error .idempotencyKeyReused
    else
      match (store.jobs.find hit.targetRef).filter fun job => job.status = .failed ∨ job.status = .interrupted with
      | some job =>
        finishClaim m { store with jobs := store.jobs.set (requeued draw.now job) } prepared.input origin accepted
          hit.targetRef true
      | none => finishClaim m store prepared.input origin accepted hit.targetRef false
  | none =>
    match draw.jobId with
    | none => .error (.internal "could not generate a job id")
    | some jobId =>
      -- the primary key refuses an id that is taken
      if (store.jobs.find jobId).isSome then .error .databaseFailed
      else
        finishClaim m { store with
            jobs := store.jobs.put (newJob m jobId draw.now prepared.input origin)
            keys := store.keys.put ⟨"extract", prepared.key, prepared.request, jobId⟩ }
          prepared.input origin accepted jobId true

def claim (store : Store) (prepared : Prepared) (origin : Origin) (accepted : Option Accepted) (draw : Draw) : Except ApiError (Job × Bool) × Store :=
  match claimed m store prepared origin accepted draw with
  | .ok (job, started, after) => (.ok (job, started), after)
  | .error e => (.error e, store)

end

end Agent24.Documents
