import Agent24.JsonLine
import Agent24.Library.Lines

/-! The callback channel's messages: frames, responses, and what is done with one frame. -/

set_option autoImplicit false
namespace Agent24.Os
open Library

def maxFrameBytes : Nat := 1024 * 1024

/-- What `read_frame_async` hands on: one line without its end. -/
structure Frame where
  bytes : List UInt8
  oneLine : Json.newline ∉ bytes
  short : bytes.length ≤ maxFrameBytes

inductive FrameError where
  | tooLong | eof | io (error : String)
  deriving DecidableEq

/-- `read_frame_async` over the pieces that `fill_buf` shows, up to the end of the stream. -/
def readFrame (pieces : List (List UInt8)) : Except FrameError (Frame × List (List UInt8)) :=
  match read : Lines.scan Json.newline maxFrameBytes [] pieces with
  | .line line rest =>
    have clean := Lines.scan_clean List.not_mem_nil read
    .ok (⟨line, clean.1, clean.2⟩, rest)
  | .tooLong => .error .tooLong
  | .ended _ => .error .eof

def maxIdBytes : Nat := 256

def cancelMethod : String := "$/cancelRequest"

def initializeMethod : String := "initialize"

inductive ErrorKind where
  | forbidden | busy | cancelled | timeout | quotaExceeded | invalidLease | unknownCapability | versionMismatch
  | authFailed | manifestMismatch | notReady | draining | revoked | rateLimited | payloadTooLarge | tokenInvalid
  | notFound | unavailable
  deriving DecidableEq

namespace ErrorKind

def all : List ErrorKind :=
  [.forbidden, .busy, .cancelled, .timeout, .quotaExceeded, .invalidLease, .unknownCapability, .versionMismatch,
    .authFailed, .manifestMismatch, .notReady, .draining, .revoked, .rateLimited, .payloadTooLarge, .tokenInvalid,
    .notFound, .unavailable]

def asStr : ErrorKind → String
  | .forbidden => "forbidden"
  | .busy => "busy"
  | .cancelled => "cancelled"
  | .timeout => "timeout"
  | .quotaExceeded => "quota_exceeded"
  | .invalidLease => "invalid_lease"
  | .unknownCapability => "unknown_capability"
  | .versionMismatch => "version_mismatch"
  | .authFailed => "auth_failed"
  | .manifestMismatch => "manifest_mismatch"
  | .notReady => "not_ready"
  | .draining => "draining"
  | .revoked => "revoked"
  | .rateLimited => "rate_limited"
  | .payloadTooLarge => "payload_too_large"
  | .tokenInvalid => "token_invalid"
  | .notFound => "not_found"
  | .unavailable => "unavailable"

/-- `parse_error_kind`. -/
def parse (text : String) : Option ErrorKind := all.find? fun kind => kind.asStr == text

end ErrorKind

def insertField (key : String) (value : Json) : List (String × Json) → List (String × Json)
  | [] => [(key, value)]
  | (k, v) :: rest =>
    if key < k then (key, value) :: (k, v) :: rest
    else if key = k then (key, value) :: rest
    else (k, v) :: insertField key value rest

structure RpcError where
  code : Int
  message : String
  kind : Option ErrorKind
  data : Option (List (String × Json))
  deriving DecidableEq

def echoLimit : Nat := 128

def maxMessageBytes : Nat := 1024

def clipTo (text : String) (limit : Nat) : String :=
  if text.utf8ByteSize ≤ limit then text else String.ofList (Text.frontWithin limit text.toList) ++ "…"

def clip (text : String) : String := clipTo text echoLimit

namespace RpcError

def protocol (code : Int) (message : String) : RpcError := ⟨code, message, none, none⟩

section
variable (message : String)

def parseError : RpcError := protocol (-32700) message

def invalidRequest : RpcError := protocol (-32600) message

def methodNotFound (method : String) : RpcError :=
  protocol (-32601) ("method not found: this daemon does not provide \x60" ++ clip method ++ "\x60")

def invalidParams : RpcError := protocol (-32602) message

def internal : RpcError := protocol (-32603) message

end

def application (kind : ErrorKind) (message : String) : RpcError := ⟨-32000, message, some kind, none⟩

def withData (e : RpcError) (key : String) (value : Json) : RpcError :=
  { e with data := some (insertField key value (e.data.getD [])) }

def toJson (e : RpcError) : Json :=
  let data := e.data.getD []
  let data := match e.kind with
    | some kind => insertField "kind" (.str kind.asStr) data
    | none => data
  .obj (("code", .int e.code) :: ((if data.isEmpty then [] else [("data", .obj data)]) ++ [("message", .str e.message)]))

end RpcError

structure Response where
  id : Option String
  outcome : Except RpcError Json

namespace Response

def error (id : Option String) (e : RpcError) : Response := ⟨id, .error e⟩

def toJson (response : Response) : Json :=
  let id : Json := match response.id with
    | some id => .str id
    | none => .null
  match response.outcome with
  | .ok value => .obj [("id", id), ("jsonrpc", .str "2.0"), ("result", value)]
  | .error e => .obj [("error", e.toJson), ("id", id), ("jsonrpc", .str "2.0")]

def toLine (response : Response) : List UInt8 := response.toJson.line

def clipped (response : Response) : Response :=
  match response.outcome with
  | .error e =>
    if maxMessageBytes < e.message.utf8ByteSize then
      ⟨response.id, .error { e with message := clipTo e.message (maxMessageBytes - '…'.utf8Size) }⟩
    else response
  | .ok _ => response

def replacement (id : Option String) : Response :=
  .error id (.internal ("the response would exceed the " ++ toString maxFrameBytes ++ "-byte frame limit"))

/-- `response_line`. -/
def line (response : Response) : List UInt8 :=
  let line := response.clipped.toLine
  if line.length ≤ maxFrameBytes + 1 then line else (replacement response.id).toLine

end Response

inductive Check where
  | ok
  | invalid (why : String)
  | panics

structure Handler where
  checkParams : Json → Check
  callTimeout : Option Nat

def Methods : Type := String → Option Handler

inductive Dispatch where
  | respond (response : Response)
  | call (id : String) (params : Json) (handler : Handler)
  | cancel (id : String)
  | ignore

structure ParamsBudget where
  nodes : Nat
  maxDepth : Nat
  stringBytes : Nat
  deriving DecidableEq

mutual
def walkParamsBudget (depth : Nat) (budget : ParamsBudget) : Json → ParamsBudget
  | .str text => ⟨budget.nodes + 1, max budget.maxDepth depth, budget.stringBytes + text.utf8ByteSize⟩
  | .arr items => walkItems (depth + 1) ⟨budget.nodes + 1, max budget.maxDepth depth, budget.stringBytes⟩ items
  | .obj fields => walkFields (depth + 1) ⟨budget.nodes + 1, max budget.maxDepth depth, budget.stringBytes⟩ fields
  | _ => ⟨budget.nodes + 1, max budget.maxDepth depth, budget.stringBytes⟩

def walkItems (depth : Nat) (budget : ParamsBudget) : List Json → ParamsBudget
  | [] => budget
  | item :: rest => walkItems depth (walkParamsBudget depth budget item) rest

def walkFields (depth : Nat) (budget : ParamsBudget) : List (String × Json) → ParamsBudget
  | [] => budget
  | (key, value) :: rest =>
    walkFields depth (walkParamsBudget depth { budget with stringBytes := budget.stringBytes + key.utf8ByteSize } value)
      rest
end

def paramsOverBudget (params : Json) : Bool :=
  let budget := walkParamsBudget 0 ⟨0, 0, 0⟩ params
  decide (5000 < budget.nodes ∨ 32 < budget.maxDepth ∨ 262144 < budget.stringBytes)

structure Found where
  envelope : Option (List String)
  first : Option (List String)

mutual
/-- The visitor of `scan_duplicates`, over a value whose repeated keys were kept. -/
def noDup (path : List String) (found : Found) : Json → Found
  | .arr items => noDupItems path found items
  | .obj fields => noDupFields path [] found fields
  | _ => found

def noDupItems (path : List String) (found : Found) : List Json → Found
  | [] => found
  | item :: rest => noDupItems path (noDup path found item) rest

def noDupFields (path seen : List String) (found : Found) : List (String × Json) → Found
  | [] => found
  | (key, value) :: rest =>
    let found :=
      if key ∈ seen then
        if path = [] ∧ found.envelope = none then { found with envelope := some [key] }
        else if found.first = none then { found with first := some (path ++ [key]) }
        else found
      else found
    noDupFields path (key :: seen) (noDup (path ++ [key]) found value) rest
end

/-- `serde_json` over bytes: a value, and the same text with its repeated keys kept in order. -/
structure JsonReader where
  parse : List UInt8 → Except String Json
  repeats : List UInt8 → Json

variable (R : JsonReader)

def findDuplicateKey (bytes : List UInt8) : Option (List String) :=
  let found := noDup [] ⟨none, none⟩ (R.repeats bytes)
  found.envelope.or found.first

def paramsOnly (allowed : List String) : Json → Bool
  | .obj fields => fields.all fun field => decide (field.1 ∈ allowed)
  | _ => false

def failRequest (id : Option String) (e : RpcError) : Dispatch :=
  match id with
  | some id => .respond (.error (some id) e)
  | none => .ignore

/-- `dispatch` from the envelope's members on. -/
def dispatchMembers (methods : Methods) (duplicateInParams : Option String) (fields : List (String × Json))
    (id : Option String) : Dispatch :=
  let obj := Json.obj fields
  match fields.find? fun field => decide (field.1 ∉ ["jsonrpc", "id", "method", "params"]) with
  | some (extra, _) => failRequest id (.invalidRequest ("unknown member \x60" ++ clip extra ++ "\x60"))
  | none =>
  if (obj.get? "jsonrpc").bind Json.asStr? ≠ some "2.0" then
    failRequest id (.invalidRequest "\x60jsonrpc\x60 must be \"2.0\"")
  else match (obj.get? "method").bind Json.asStr? with
  | none => failRequest id (.invalidRequest "\x60method\x60 must be a string")
  | some method =>
  let params : Except RpcError Json := match obj.get? "params" with
    | none => .ok (.obj [])
    | some (.obj entries) =>
      if paramsOverBudget (.obj entries) then
        .error (.application .payloadTooLarge "params exceed the node count, nesting depth, or string byte budget")
      else .ok (.obj entries)
    | some _ => .error (.invalidParams "params must be an object")
  match params with
  | .error e => failRequest id e
  | .ok params =>
  match id with
  | none =>
    if method = cancelMethod ∧ duplicateInParams = none then
      match (params.get? "id").bind Json.asStr? with
      | some target => if paramsOnly ["id", "_meta"] params then .cancel target else .ignore
      | none => .ignore
    else .ignore
  | some id =>
  if method = initializeMethod then
    .respond (.error (some id) (.invalidRequest "\x60initialize\x60 may be sent only once, as the first message"))
  else if method = cancelMethod then
    .respond (.error (some id)
      (.invalidRequest "\x60$/cancelRequest\x60 is a notification; send it without an id"))
  else match methods method with
  | none => .respond (.error (some id) (.methodNotFound method))
  | some handler =>
  match duplicateInParams with
  | some path =>
    .respond (.error (some id) (.invalidParams ("duplicate key \x60" ++ clip path ++ "\x60 in params")))
  | none =>
  match handler.checkParams params with
  | .invalid why => .respond (.error (some id) (.invalidParams why))
  | .panics => .respond (.error (some id) (.internal "the method's params check failed"))
  | .ok => .call id params handler

def dispatch (frame : List UInt8) (methods : Methods) (inFlight : String → Bool) : Dispatch :=
  let respondNull (e : RpcError) : Dispatch := .respond (.error none e)
  match R.parse frame with
  | .error e => respondNull (.parseError e)
  | .ok (.obj fields) =>
    let duplicate := findDuplicateKey R frame
    let id := (Json.obj fields).get? "id"
    match duplicate with
    | some [key] =>
      if id = none then .ignore
      else respondNull (.invalidRequest ("duplicate key \x60" ++ clip key ++ "\x60 in the request"))
    | _ =>
    let duplicateInParams : Option String := match duplicate with
      | some ("params" :: next :: rest) => some (String.intercalate "." ("params" :: next :: rest))
      | _ => none
    match id with
    | none => dispatchMembers methods duplicateInParams fields none
    | some (.str id) =>
      if maxIdBytes < id.utf8ByteSize then
        respondNull (.invalidRequest ("the id is longer than " ++ toString maxIdBytes ++ " bytes"))
      else if inFlight id then
        respondNull ((RpcError.invalidRequest "this id is already in flight on this connection").withData
          "duplicate_id" (.str id))
      else dispatchMembers methods duplicateInParams fields (some id)
    | some _ => respondNull (.invalidRequest "the id must be a string")
  | .ok (.arr _) => respondNull (.invalidRequest "batch requests are not supported")
  | .ok _ => respondNull (.invalidRequest "a request must be a JSON object")

end Agent24.Os
