import Agent24.Json
import Agent24.Library.Table
import Agent24.Documents.Names

/-! The module's database as its operations read and write it, and the errors they answer. -/

set_option autoImplicit false
namespace Agent24.Documents
open Library

inductive StorageCause where
  | locked
  | busy
  | corrupt
  | notWritable
  | diskFull
  deriving DecidableEq

def StorageCause.asStr : StorageCause → String
  | .locked => "locked"
  | .busy => "busy"
  | .corrupt => "corrupt"
  | .notWritable => "not_writable"
  | .diskFull => "disk_full"

def StorageCause.retryable : StorageCause → Bool
  | .locked | .busy => true
  | _ => false

structure ApiError where
  code : String
  message : String
  retryable : Bool
  deriving DecidableEq

namespace ApiError

def storageUnavailable (cause : StorageCause) : ApiError :=
  ⟨"storage_unavailable", "document storage is unavailable (" ++ cause.asStr ++ ")", cause.retryable⟩

def invalidRequest (message : String) : ApiError := ⟨"invalid_request", message, false⟩

def notFound (message : String) : ApiError := ⟨"not_found", message, false⟩

def overBudget (budget : Nat) : ApiError :=
  ⟨"payload_too_large", "a single entry is over the " ++ toString budget ++ "-byte page budget", false⟩

def engineUnavailable (message : String) : ApiError := ⟨"engine_unavailable", message, true⟩

def unprocessable (code message : String) : ApiError := ⟨code, message, false⟩

def idempotencyKeyReused : ApiError :=
  ⟨"idempotency_key_reused", "this Idempotency-Key was used for a different request", false⟩

def internal (message : String) : ApiError := ⟨"internal", message, false⟩

/-- `db_failure` of a row that breaks the contract: not about storage. -/
def databaseFailed : ApiError := internal "the document database failed"

end ApiError

structure DocumentRow where
  id : String
  title : String
  mediaType : String
  headRevision : Int
  createdAt : String
  updatedAt : String
  deriving DecidableEq

structure RevisionRow where
  documentId : String
  revision : Int
  contentSha256 : String
  size : Int
  mediaType : String
  deriving DecidableEq

def RevisionRow.key (r : RevisionRow) : String × Int := (r.documentId, r.revision)

structure LayerRow where
  contentSha256 : String
  engineId : String
  engineVersion : String
  configSha256 : String
  textLayerSha256 : String
  deriving DecidableEq

def LayerRow.key (r : LayerRow) : String × String × String × String :=
  (r.contentSha256, r.engineId, r.engineVersion, r.configSha256)

inductive JobStatus where
  | queued
  | running
  | cancelling
  | succeeded
  | failed
  | cancelled
  | interrupted
  deriving DecidableEq

def JobStatus.asStr : JobStatus → String
  | .queued => "queued"
  | .running => "running"
  | .cancelling => "cancelling"
  | .succeeded => "succeeded"
  | .failed => "failed"
  | .cancelled => "cancelled"
  | .interrupted => "interrupted"

def JobStatus.working : JobStatus → Bool
  | .queued | .running | .cancelling => true
  | _ => false

structure OplogRun where
  runId : String
  toolCallId : String
  deriving DecidableEq

inductive Origin where
  | page
  | run (run : OplogRun)
  deriving DecidableEq

structure JobRow where
  id : String
  kind : String
  documentId : Option String
  revision : Option Int
  status : JobStatus
  attempt : Nat
  progress : Option String
  error : Option String
  resultRef : Option String
  origin : Origin
  input : Option Json
  createdAt : String
  updatedAt : String
  deriving DecidableEq

structure KeyRow where
  kind : String
  key : String
  requestSha256 : String
  targetRef : String
  deriving DecidableEq

def KeyRow.slot (r : KeyRow) : String × String := (r.kind, r.key)

structure ExtractionRow where
  id : String
  documentId : String
  revision : Int
  schemaSha256 : String
  extractorVersion : String
  modelId : String
  createdAt : String
  deriving DecidableEq

structure ValueRow where
  extractionId : String
  ord : Nat
  value : String
  deriving DecidableEq

def ValueRow.slot (r : ValueRow) : String × Nat := (r.extractionId, r.ord)

structure OplogRow where
  op : String
  documentId : String
  revision : Int
  run : OplogRun
  jobId : String
  deriving DecidableEq

/-- A tool call accepting a job attempt: the operation, and the grant it was made under. -/
structure Accepted where
  operation : String
  authorizationRef : Option String
  deriving DecidableEq

structure AcceptanceRow where
  jobId : String
  attempt : Nat
  accepted : Accepted
  run : OplogRun
  deriving DecidableEq

structure Store where
  documents : Table DocumentRow.id
  revisions : Table RevisionRow.key
  layers : Table LayerRow.key
  jobs : Table JobRow.id
  keys : Table KeyRow.slot
  extractions : Table ExtractionRow.id
  values : Table ValueRow.slot
  oplog : List OplogRow
  acceptances : List AcceptanceRow
  blob : String → Except StorageCause (List UInt8)
  /-- What a text layer build asked for now would come to. -/
  build : String → Except ApiError String

/-- Lowercase `type/subtype` without parameters. -/
def isMediaType (s : String) : Bool :=
  let part := fun p : String => !p.toList.isEmpty && p.toList.all fun c =>
    ('a'.val ≤ c.val && c.val ≤ 'z'.val) || isAsciiDigit c || c == '.' || c == '+' || c == '-'
  (Text.splitOnce '/' s).any fun halves => part halves.1 && part halves.2

def isSha256Address (s : String) : Bool :=
  (Text.strip "sha256:" s).any fun hex => hex.toList.length == 64 && hex.toList.all fun c =>
    isAsciiDigit c || ('a'.val ≤ c.val && c.val ≤ 'f'.val)

def FORMATS : List String := ["application/pdf", "image/jpeg", "image/png"]

end Agent24.Documents
