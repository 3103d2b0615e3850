import Agent24.Documents.Listing

/-! What the read operations answer: a document, a job, an extraction, text and matches. -/

set_option autoImplicit false
namespace Agent24.Documents
open Library

def PAGE_BYTES : Nat := 512 * 1024

structure Revision where
  documentId : String
  revision : Int
  contentSha256 : String
  mediaType : String

structure LayerBlock where
  blockId : String
  page : Nat
  text : String
  lines : Json

/-- What one engine build read from one revision's bytes. -/
structure TextLayer where
  contentSha256 : String
  engine : Json
  pages : Nat
  partialParse : Bool
  unparsedRegions : List (Nat × Json)
  blocks : List LayerBlock

structure Position where
  page : Nat
  block : Nat
  hit : Nat

/-- The engine build and configuration layers are keyed by. -/
structure Engine where
  id : String
  version : String
  configSha256 : String

/-- The JSON library, and the parts of reading that look at nothing but what they are given. -/
structure Reader where
  /-- `from_str::<Value>`. -/
  json : String → Option Json
  /-- Whether a value has no null, deserializes as an extracted value and passes its check. -/
  value : Json → Bool
  layer : List UInt8 → Option TextLayer
  /-- The layer and position a cursor names, if this process signed it for the read, revision and query. -/
  cursor : String → Revision → String → String → Option (String × Position)
  /-- A query compiled: how often it matches in a text. -/
  query : String → Option (String → Nat)
  sha256Address : String → String
  /-- `page_of`, from an address, a layer and a start, within a limit and a budget. -/
  textPage : Revision → String → TextLayer → Position → Nat → Nat → Json
  findPage : Revision → String → TextLayer → String → Position → Nat → Nat → Json

def detailJson (d : DocumentRow) (r : RevisionRow) : Json :=
  .obj [("created_at", .str d.createdAt), ("document_id", .str d.id),
    ("head", .obj [("content_sha256", .str r.contentSha256), ("media_type", .str r.mediaType),
      ("revision", .int r.revision), ("size", .int r.size)]),
    ("head_revision", .int d.headRevision), ("media_type", .str d.mediaType), ("title", .str d.title),
    ("updated_at", .str d.updatedAt)]

def getDocument (store : Store) (id : String) : Except ApiError Json :=
  if !isId .document id then .error (.invalidRequest "not a document id")
  else
    match store.documents.find id with
    | none => .error (.notFound "no such document")
    | some d =>
      -- a document without its head, or a row the contract does not allow, is a bug
      if !d.checked then .error .databaseFailed
      else
        match store.revisions.find (d.id, d.headRevision) with
        | some r =>
          if isSha256Address r.contentSha256 && 0 ≤ r.size && isMediaType r.mediaType then .ok (detailJson d r)
          else .error .databaseFailed
        | none => .error .databaseFailed

def CODES : List String :=
  ["invalid_request", "not_found", "payload_too_large", "unsupported_format", "parse_failed", "partial_parse",
    "idempotency_key_reused", "change_set_incomplete", "upload_checksum_mismatch", "knowledge_disabled",
    "revision_conflict", "change_set_stale", "change_set_committed", "upload_offset_mismatch", "stale_index",
    "permission_denied", "knowledge_unavailable", "engine_unavailable", "storage_unavailable"]

/-- `DocumentsJob`. -/
structure Job where
  jobId : String
  kind : String
  documentId : Option String
  revision : Option Int
  status : JobStatus
  attempt : Nat
  progress : Option Json
  error : Option Json
  result : Option Json
  createdAt : String
  updatedAt : String

def isCount : Json → Bool
  | .int n => 0 ≤ n
  | _ => false

def progressOk (p : Json) : Bool :=
  ((p.get? "stage").bind Json.asStr?).isSome && (p.get? "done").any isCount &&
    ((p.get? "total").any fun total => total == .null || isCount total) && ((p.get? "unit").bind Json.asStr?).isSome

def errorCode (e : Json) : Option String :=
  match (e.get? "code").bind Json.asStr?, e.get? "message" with
  | some code, some (.str _) => some code
  | _, _ => none

def statusFits (status : JobStatus) (code : Option String) : Bool :=
  match status, code with
  | .failed, some c => CODES.contains c
  | .failed, none => false
  | .cancelled, code => code == none || code == some "cancelled"
  | _, code => code == none

def JobRow.result (row : JobRow) : Option (Option Json) :=
  if row.status ≠ .succeeded then some none
  else if row.kind == "import" then
    match row.documentId, row.revision with
    | some document, some 1 => some (some (.obj [("document_id", .str document), ("revision", .int 1)]))
    | _, _ => none
  else if row.kind == "extract" then
    (row.resultRef.filter (isId .extraction)).map fun ext => some (.obj [("extraction_id", .str ext)])
  else some none

def stored (json : String → Option Json) : Option String → Option (Option Json)
  | none => some none
  | some text => (json text).map some

/-- The row as `DocumentsJob`; none for a row that is not one. -/
def JobRow.checked (json : String → Option Json) (row : JobRow) : Option Job :=
  if !isId .job row.id || row.documentId.any fun d => !isId .document d then none
  else if !isTimestamp row.createdAt || !isTimestamp row.updatedAt then none
  else do
    let progress ← stored json row.progress
    let error ← stored json row.error
    if progress.any fun p => !progressOk p then none
    else
      let code := error.map errorCode
      if code == some none then none
      else if !statusFits row.status code.join then none
      else do
        let result ← row.result
        return { jobId := row.id, kind := row.kind, documentId := row.documentId, revision := row.revision,
                 status := row.status, attempt := row.attempt, progress := progress, error := error,
                 result := result, createdAt := row.createdAt, updatedAt := row.updatedAt }

def Job.json (job : Job) : Json :=
  .obj ([("attempt", .int job.attempt), ("created_at", .str job.createdAt)] ++
    (job.documentId.map fun d => ("document_id", Json.str d)).toList ++
    [("error", job.error.getD .null), ("job_id", .str job.jobId), ("kind", .str job.kind),
      ("progress", job.progress.getD .null), ("result", job.result.getD .null)] ++
    (job.revision.map fun r => ("revision", Json.int r)).toList ++
    [("status", .str job.status.asStr), ("updated_at", .str job.updatedAt)])

def getJob (reader : Reader) (store : Store) (id : String) : Except ApiError Json :=
  if !isId .job id then .error (.invalidRequest "not a job id")
  else
    match store.jobs.find id with
    | none => .error (.notFound "no such job")
    | some row => ((row.checked reader.json).map Job.json).elim (.error .databaseFailed) .ok

namespace Extractions

def DEFAULT_LIMIT : Nat := 50

def MAX_LIMIT : Nat := 200

def MAX_VALUES : Nat := 100

/-- The cursor: the next value's place, `v` and one or two digits. -/
def decodeCursor (c : String) : Option Nat := do
  let n ← Text.strip "v" c
  let digits := n.toList
  if 1 ≤ digits.length && digits.length ≤ 2 && digits.all isAsciiDigit then
    let place := digits.foldl (fun n c => n * 10 + (c.toNat - '0'.toNat)) 0
    if place < MAX_VALUES then some place else none
  else none

structure Head where
  extraction : ExtractionRow
  contentSha256 : String

structure Page where
  head : Head
  values : List Json
  nextCursor : Option String

def Page.json (page : Page) : Json :=
  let e := page.head.extraction
  .obj [("content_sha256", .str page.head.contentSha256), ("created_at", .str e.createdAt),
    ("document_id", .str e.documentId), ("extraction_id", .str e.id), ("extractor_version", .str e.extractorVersion),
    ("model_id", .str e.modelId), ("next_cursor", page.nextCursor.elim .null .str), ("revision", .int e.revision),
    ("schema_sha256", .str e.schemaSha256), ("values", .arr page.values)]

def placeOf (row : ValueRow) : String := "v" ++ toString row.ord

section
variable (reader : Reader) (head : Head) (limit budget : Nat)

def fill (used : Nat) (values : List Json) : List ValueRow → Except ApiError Page
  | [] => .ok ⟨head, values, none⟩
  | row :: rest =>
    let broken := ApiError.internal ("extraction " ++ head.extraction.id ++ " value " ++ toString row.ord)
    match reader.json row.value with
    | none => .error broken
    | some value =>
      if !reader.value value then .error broken
      else
        let size := value.size + 1
        if values.length = limit ∨ budget < used + size then
          -- the first value is judged by the body it is sent in, alone on its page
          if values.isEmpty ∧ budget < PAGE_BYTES then
            let alone : Page := ⟨head, [value], rest.head?.map placeOf⟩
            if budget < alone.json.size then .error (.overBudget budget) else .ok alone
          else if values.isEmpty then .error broken
          else .ok ⟨head, values, some (placeOf row)⟩
        else fill (used + size) (values ++ [value]) rest

end

def valuesFrom (store : Store) (id : String) (place : Nat) : List ValueRow :=
  (Keyset.descending ValueRow.ord
    (store.values.rows.filter fun v => v.extractionId == id && place ≤ v.ord)).reverse

/-- The extraction and the page of its values after `cursor`. -/
def get (reader : Reader) (store : Store) (id : String) (cursor : Option String) (limit budget : Nat) :
    Except ApiError Json :=
  match cursor.map decodeCursor with
  | some none => .error (.invalidRequest "an extraction id; limit is 1 to 200; a cursor from the previous page")
  | place =>
    if ¬ (1 ≤ limit ∧ limit ≤ MAX_LIMIT) || !isId .extraction id then
      .error (.invalidRequest "an extraction id; limit is 1 to 200; a cursor from the previous page")
    else
      let head := (store.extractions.find id).bind fun e =>
        (store.revisions.find (e.documentId, e.revision)).map fun r => Head.mk e r.contentSha256
      let rows := (valuesFrom store id (place.join.getD 0)).take (limit + 1)
      match head with
      | none => .error (.notFound "no such extraction")
      | some head => (fill reader head limit budget (Page.json ⟨head, [], some "v99"⟩).size [] rows).map Page.json

end Extractions

def revisionOf (store : Store) (id : String) (rev : Int) : Except ApiError Revision :=
  if !isId .document id || rev < 1 then .error (.invalidRequest "not a document id or revision")
  else
    match store.revisions.find (id, rev) with
    | some row => .ok ⟨id, rev, row.contentSha256, row.mediaType⟩
    | none => .error (.notFound "no such document revision")

section
variable (reader : Reader) (engine : Option Engine) (store : Store)

/-- A pinned layer, re-checked; that it is broken is the module's failure. -/
def loadLayer (address : String) : Except ApiError TextLayer :=
  match store.blob address with
  | .error cause => .error (.storageUnavailable cause)
  | .ok bytes => (reader.layer bytes).elim (.error (.internal ("the text layer " ++ address))) .ok

def layerAddress (r : Revision) : Except ApiError String :=
  match engine with
  | none => .error (.engineUnavailable "no read engine on this platform")
  | some e =>
    match store.layers.find (r.contentSha256, e.id, e.version, e.configSha256) with
    | some row => .ok row.textLayerSha256
    | none => store.build r.contentSha256

def currentLayer (r : Revision) : Except ApiError (String × TextLayer) :=
  if !FORMATS.contains r.mediaType then
    .error (.unprocessable "unsupported_format" "slice 1 reads PDF, JPEG and PNG")
  else do
    let address ← layerAddress engine store r
    let layer ← loadLayer reader store address
    return (address, layer)

def cursorLayer (r : Revision) (address : String) : Except ApiError TextLayer := do
  let layer ← loadLayer reader store address
  if layer.contentSha256 ≠ r.contentSha256 then .error (.invalidRequest "the cursor is not for this revision")
  else return layer

def within (page : Json) (budget : Nat) : Except ApiError Json :=
  if budget < page.size then .error (.overBudget budget) else .ok page

def partialParse : ApiError := .unprocessable "partial_parse" "part of the document could not be read"

def startOf (layer : TextLayer) (id : String) : Option Position := do
  let b ← layer.blocks.find? fun b => b.blockId == id
  let block ← (layer.blocks.filter fun x => x.page == b.page).findIdx? fun x => x.blockId == id
  return ⟨b.page, block, 0⟩

structure TextParams where
  block : Option String
  cursor : Option String
  limit : Option Nat
  requireComplete : Bool

def readRange (id : String) (rev : Int) (p : TextParams) (budget : Nat) : Except ApiError Json :=
  let limit := p.limit.getD 50
  if ¬ (1 ≤ limit ∧ limit ≤ 200) || (p.block.isSome && p.cursor.isSome) || p.block == some "" then
    .error (.invalidRequest "limit is 1 to 200; a block id is not empty; give block or cursor, not both")
  else do
    let r ← revisionOf store id rev
    let (address, layer, start) ← match p.cursor with
      | some c =>
        let bad := ApiError.invalidRequest "not a cursor for this read"
        match reader.cursor "t" r c "" with
        | none => .error bad
        | some (address, at_) => do
          let layer ← cursorLayer reader store r address
          -- a position this layer has: a page, and at most past its last block
          let onPage := (layer.blocks.filter fun b => b.page == at_.page).length
          if layer.pages < at_.page ∨ onPage < at_.block ∨ at_.hit ≠ 0 then .error bad
          else .ok (address, layer, at_)
      | none => do
        let (address, layer) ← currentLayer reader engine store r
        match p.block with
        | none => .ok (address, layer, ⟨1, 0, 0⟩)
        | some b =>
          match startOf layer b with
          | none => .error (.notFound "no such block")
          | some at_ => .ok (address, layer, at_)
    if p.requireComplete && layer.partialParse then .error partialParse
    else within (reader.textPage r address layer start limit budget) budget

def MAX_QUERY_CHARS : Nat := 500

structure FindRequest where
  revision : Int
  query : String
  cursor : Option String
  limit : Option Nat
  requireComplete : Bool

def search (id : String) (req : FindRequest) (budget : Nat) : Except ApiError Json :=
  let limit := req.limit.getD 50
  let chars := req.query.toList.length
  let bad := ApiError.invalidRequest "limit is 1 to 200; the query is 1 to 500 characters, not only spaces"
  if ¬ (1 ≤ limit ∧ limit ≤ 200) || ¬ (1 ≤ chars ∧ chars ≤ MAX_QUERY_CHARS) then .error bad
  else
    match reader.query req.query with
    | none => .error bad
    | some hits => do
      let bound := reader.sha256Address req.query
      let r ← revisionOf store id req.revision
      let (address, layer, start) ← match req.cursor with
        | some c =>
          let bad := ApiError.invalidRequest "not a cursor for this find"
          match reader.cursor "f" r c bound with
          | none => .error bad
          | some (address, at_) => do
            let layer ← cursorLayer reader store r address
            let onPage := layer.blocks.filter fun b => b.page == at_.page
            let found := (onPage[at_.block]?).elim 0 fun b => hits b.text
            if layer.pages < at_.page ∨ onPage.length < at_.block ∨ (0 < at_.hit ∧ found ≤ at_.hit) then .error bad
            else .ok (address, layer, at_)
        | none => do
          let (address, layer) ← currentLayer reader engine store r
          .ok (address, layer, ⟨1, 0, 0⟩)
      if req.requireComplete && layer.partialParse then .error partialParse
      else within (reader.findPage r address layer req.query start limit budget) budget

end

end Agent24.Documents
