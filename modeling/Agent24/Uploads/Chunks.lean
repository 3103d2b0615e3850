import Agent24.Documents.Store
import Agent24.Library.DurableFile
import Agent24.Library.Numeral
import Agent24.Library.Runs

/-! Chunked uploads: an append's checks, its turn, its file write and the transaction that counts it. -/

set_option autoImplicit false
namespace Agent24.Uploads
open Library Documents

/-- Largest chunk body: 768 KiB, under the kernel proxy's 1 MiB limit. -/
def MAX_CHUNK : Nat := 786432

def MAX_SAFE_INTEGER : Nat := 9007199254740991

/-- An upload lives 24 hours past its last chunk, in milliseconds. -/
def LIFETIME : Nat := 86400000

def payloadTooLarge (limit : Nat) : ApiError :=
  ⟨"payload_too_large", "the body is over " ++ toString limit ++ " bytes", false⟩

def uploadOffsetMismatch (received : Nat) : ApiError :=
  ⟨"upload_offset_mismatch", "the upload has " ++ toString received ++ " bytes; send the chunk at that offset", false⟩

inductive Status where
  | receiving
  | complete
  | imported
  | expired
  deriving DecidableEq

/-- A row of `uploads`. -/
structure Row where
  totalSize : Nat
  sha256 : String
  received : Nat
  status : Status
  createdAt : Nat
  lastChunkAt : Option Nat

def Row.expiresAt (r : Row) : Nat := r.lastChunkAt.getD r.createdAt + LIFETIME

def Row.stale (now : Nat) (r : Row) : Bool := r.expiresAt < now

/-- `matches!(status, "receiving" | "complete")`. -/
def Row.live (r : Row) : Bool := r.status == .receiving || r.status == .complete

/-- A row of `upload_chunks`. -/
structure Chunk where
  offset : Nat
  size : Nat
  sha256 : String

/-- `DocumentsUpload`. -/
structure Upload where
  uploadId : String
  totalSize : Nat
  sha256 : String
  received : Nat
  status : Status
  expiresAt : Nat

def Row.upload (id : String) (r : Row) : Upload := ⟨id, r.totalSize, r.sha256, r.received, r.status, r.expiresAt⟩

structure Entry where
  row : Option Row
  chunks : List Chunk
  file : DurableFile UInt8
  /-- The bodies of the chunks, for the record: no code reads it. -/
  bodies : List (List UInt8)

def Entry.received (e : Entry) : Nat := e.row.elim 0 Row.received

def Entry.counted (e : Entry) : List UInt8 := e.file.data.take e.received

/-! ## The request -/

structure Request where
  uploadId : String
  uploadOffset : Option String
  chunkSha256 : Option String
  body : List UInt8

/-- `HeaderValue::to_str`. -/
def isVisible (s : String) : Bool := s.toList.all fun c => c == '\t' || (32 ≤ c.toNat && c.toNat < 127)

def header (value : Option String) (name : String) : Except ApiError String :=
  match value with
  | none => .error (.invalidRequest ("the " ++ name ++ " header is required"))
  | some s => if isVisible s then .ok s else .error (.invalidRequest (name ++ " must be ASCII"))

/-- `Upload-Offset`: decimal digits only, at most 2^53 − 1. -/
def uploadOffset (r : Request) : Except ApiError Nat := do
  let raw ← header r.uploadOffset "upload-offset"
  match (Numeral.number 10 Numeral.decimal raw.toList).filter fun n => n ≤ MAX_SAFE_INTEGER with
  | some n => .ok n
  | none => .error (.invalidRequest ("Upload-Offset must be an integer from 0 to " ++ toString MAX_SAFE_INTEGER))

/-- `append_chunk` until its turn: the offset and the claimed hash. -/
def checked (r : Request) : Except ApiError (Nat × String) :=
  if isId .upload r.uploadId = false then .error (.invalidRequest "not an upload id")
  else do
    let offset ← uploadOffset r
    let claimed ← header r.chunkSha256 "chunk-sha256"
    if isSha256Address claimed = false then
      .error (.invalidRequest "Chunk-Sha256 must be `sha256:` and 64 lowercase hex digits")
    else if MAX_CHUNK < r.body.length then .error (payloadTooLarge MAX_CHUNK)
    else if r.body.isEmpty then .error (.invalidRequest "a chunk has at least one byte")
    else .ok (offset, claimed)

/-- Appends take turns by stripe: those of one upload run one at a time. -/
def stripe (id : String) : Nat :=
  (id.toUTF8.data.toList.foldl (fun h b => (h * 31 + b.toNat) % 2 ^ 64) 0) % 32

/-! ## An append, operation by operation -/

inductive Stage where
  | selecting
  | expiring
  | replaying (received : Nat)
  | refetching
  | opening
  | measuring
  | cutting
  | pouring
  | syncing
  /-- Directories still to sync: the upload's own, and the two above it. -/
  | linking (left : Nat)
  | committing
  | fetching
  deriving DecidableEq

structure Attempt where
  uploadId : String
  offset : Nat
  claimed : String
  body : List UInt8
  stage : Stage
  /-- The upload as it was when the turn was taken, for the record. -/
  found : Entry

abbrev Answer := Except ApiError Upload

inductive Next where
  | goes (stage : Stage)
  | answers (answer : Answer)

inductive Outcome where
  | ok
  /-- It failed, with this answer; a file write may leave anything past its offset. -/
  | failed (e : ApiError) (past : List UInt8)
  /-- The commit went through, and its caller was told it failed. -/
  | lost (e : ApiError)

section
variable (address : List UInt8 → String)

def decision (now : Nat) (a : Attempt) : Option Row → Next
  | none => .answers (.error (.notFound "no such upload"))
  | some r =>
    if r.status = .expired ∨ (r.live && r.stale now) then
      if r.live then .goes .expiring else .answers (.error (.notFound "the upload has expired"))
    else if a.offset < r.received then .goes (.replaying r.received)
    else if r.received < a.offset ∨ r.status ≠ .receiving then .answers (.error (uploadOffsetMismatch r.received))
    else if r.totalSize < a.offset + a.body.length then
      .answers (.error (.invalidRequest ("the chunk runs past total_size (" ++ toString r.totalSize ++ " bytes)")))
    else if address a.body ≠ a.claimed then
      .answers (.error (.invalidRequest "Chunk-Sha256 does not match the body"))
    else .goes .opening

/-- `uploads_status_moves_forward`. -/
def forward : Status → Status → Bool
  | .receiving, .complete | .receiving, .expired | .complete, .imported | .complete, .expired => true
  | old, new => old == new

def endOf (chunks : List Chunk) : Nat := chunks.foldl (fun n c => max n (c.offset + c.size)) 0

def updateRow (e : Entry) (r' : Row) : Option Entry :=
  e.row.bind fun r =>
    if forward r.status r'.status && decide (r'.received ≤ r'.totalSize) &&
        (!(r'.status == .complete || r'.status == .imported) || r'.received == r'.totalSize) &&
        (r'.received == r.received || (r.status == .receiving && r'.received == endOf e.chunks)) then
      some { e with row := some r' }
    else none

/-- `UPDATE uploads SET status = …`. -/
def setStatus (e : Entry) (status : Status) : Option Entry :=
  e.row.bind fun r => updateRow e { r with status := status }

/-- `INSERT INTO upload_chunks`, under its CHECKs and triggers. -/
def insertChunk (e : Entry) (c : Chunk) (body : List UInt8) : Option Entry :=
  if (e.row.any fun r => r.status == .receiving && r.received == c.offset && decide
      (c.offset + c.size ≤ r.totalSize)) &&
      decide (1 ≤ c.size ∧ c.size ≤ MAX_CHUNK) && isSha256Address c.sha256 && e.chunks.all
          (fun c' => c'.offset != c.offset) then
    some { e with chunks := e.chunks ++ [c], bodies := e.bodies ++ [body] }
  else none

def count (now : Nat) (a : Attempt) (e : Entry) : Option Entry := do
  let e ← insertChunk e ⟨a.offset, a.body.length, a.claimed⟩ a.body
  let r ← e.row
  let received := a.offset + a.body.length
  updateRow e { r with
    received := received
    lastChunkAt := some now
    status := if received = r.totalSize then .complete else r.status }

/-- `fetch`: the upload as it is. -/
def fetch (id : String) (e : Entry) : Answer :=
  match e.row with
  | some r => .ok (r.upload id)
  | none => .error .databaseFailed

def succeed (now : Nat) (a : Attempt) (e : Entry) : Entry × Next :=
  match a.stage with
  | .selecting => (e, decision address now a e.row)
  | .expiring =>
    match setStatus e .expired with
    | some e' => (e', .answers (.error (.notFound "the upload has expired")))
    | none => (e, .answers (.error .databaseFailed))
  | .replaying received =>
    if (e.chunks.find? fun c => c.offset == a.offset).any fun c => c.sha256 == a.claimed then (e, .goes .refetching)
    else (e, .answers (.error (uploadOffsetMismatch received)))
  | .refetching | .fetching => (e, .answers (fetch a.uploadId e))
  | .opening => (e, .goes .measuring)
  | .measuring =>
    -- bytes the row counts are gone from the file
    if e.file.data.length < a.offset then (e, .answers (.error (.storageUnavailable .corrupt)))
    else (e, .goes .cutting)
  | .cutting => ({ e with file := e.file.cut a.offset }, .goes .pouring)
  | .pouring => ({ e with file := e.file.write a.offset a.body }, .goes .syncing)
  | .syncing => ({ e with file := e.file.sync }, .goes (.linking 2))
  | .linking (left + 1) => (e, .goes (.linking left))
  | .linking 0 => ({ e with file := e.file.link }, .goes .committing)
  | .committing =>
    match count now a e with
    | some e' => (e', .goes .fetching)
    | none => (e, .answers (.error .databaseFailed))

def disturbed (a : Attempt) (e : Entry) (past : List UInt8) : Entry :=
  match a.stage with
  | .cutting | .pouring | .syncing => { e with file := e.file.disturb a.offset past }
  | _ => e

def perform (now : Nat) (a : Attempt) (e : Entry) : Outcome → Entry × Next
  | .ok => succeed address now a e
  | .failed err past => (disturbed a e past, .answers (.error err))
  | .lost err => (if a.stage = .committing then (count now a e).getD e else e, .answers (.error err))

end

/-! ## The module's uploads -/

structure Done where
  request : Attempt
  left : Entry
  answer : Answer

structure World where
  entries : String → Entry
  turns : Nat → Option Attempt
  now : Nat
  /-- The attempts answered after they took their turn, for the record. -/
  done : List Done

def World.put (w : World) (id : String) (e : Entry) : World :=
  { w with entries := Function.update w.entries id e }

inductive Move where
  /-- `create`, of a new id. -/
  | create (id : String) (totalSize : Nat) (sha256 : String)
  /-- A request that passes its checks takes its turn; it waits while another has it. -/
  | take (r : Request)
  /-- The holder of a stripe's turn is done with an operation. -/
  | go (stripe : Nat) (outcome : Outcome)
  | importUpload (id : String)
  | tick (elapsed : Nat)
  /-- The process or the machine stops, and is started again. -/
  | crash (past : String → List UInt8)

def create (w : World) (id : String) (totalSize : Nat) (sha256 : String) : World :=
  let e := w.entries id
  if isId .upload id && decide (1 ≤ totalSize ∧ totalSize ≤ MAX_SAFE_INTEGER) && isSha256Address sha256 &&
      e.row.isNone then
    w.put id { e with row := some ⟨totalSize, sha256, 0, .receiving, w.now, none⟩ }
  else w

def takeTurn (w : World) (r : Request) : World :=
  match checked r with
  | .error _ => w
  | .ok (offset, claimed) =>
    if (w.turns (stripe r.uploadId)).isSome then w
    else { w with
      turns := Function.update w.turns (stripe r.uploadId)
        (some ⟨r.uploadId, offset, claimed, r.body, .selecting, w.entries r.uploadId⟩) }

def follow (w : World) (s : Nat) (a : Attempt) (left : Entry) : Next → World
  | .goes stage => { w with turns := Function.update w.turns s (some { a with stage := stage }) }
  | .answers answer => { w with turns := Function.update w.turns s none, done := ⟨a, left, answer⟩ :: w.done }

def go (address : List UInt8 → String) (w : World) (s : Nat) (o : Outcome) : World :=
  match w.turns s with
  | none => w
  | some a =>
    let performed := perform address w.now a (w.entries a.uploadId) o
    follow (w.put a.uploadId performed.1) s a performed.1 performed.2

/-- `UPDATE uploads SET status = 'imported' WHERE id = ? AND {UPLOAD_LIVE}`. -/
def importUpload (w : World) (id : String) : World :=
  let e := w.entries id
  if e.row.any fun r => r.status == .complete && !r.stale w.now then
    w.put id ((setStatus e .imported).getD e)
  else w

def step (address : List UInt8 → String) (w : World) : Move → World
  | .create id totalSize sha256 => create w id totalSize sha256
  | .take r => takeTurn w r
  | .go s o => go address w s o
  | .importUpload id => importUpload w id
  | .tick elapsed => { w with now := w.now + elapsed }
  | .crash past => { w with
      turns := fun _ => none
      entries := fun id => { w.entries id with file := (w.entries id).file.survive (past id) } }

def start (now : Nat) : World := ⟨fun _ => ⟨none, [], .absent, []⟩, fun _ => none, now, []⟩

end Agent24.Uploads
