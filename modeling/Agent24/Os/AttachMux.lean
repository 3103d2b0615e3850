import Agent24.Library.Runs
import Agent24.Library.Table
import Agent24.Os.Rpc
import Mathlib.Algebra.Ring.Int.Defs

/-! The multiplexer of an attached module: frames to the nested connection or to the kernel's own calls, and
one queue for everything written. Callers, the loop, the relay and the writer interleave step by step. -/

set_option autoImplicit false
namespace Agent24.Os
open Library

abbrev Fields := List (String × Json)

inductive KernelCallFailed where
  | notSent | connectionLost | timeout
  | rpc (error : RpcError)
  | malformed (why : String)
  deriving DecidableEq

def outQueueCapacity : Nat := 32

/-- `i32::try_from(code).unwrap_or(i32::MAX)` of a code that fits `i64`. -/
def errorCode (code : Int) : Int := if -2 ^ 31 ≤ code ∧ code < 2 ^ 31 then code else 2 ^ 31 - 1

def asI64 : Json → Option Int
  | .int value => if -2 ^ 63 ≤ value ∧ value < 2 ^ 63 then some value else none
  | _ => none

def asObject : Json → Option Fields
  | .obj fields => some fields
  | _ => none

def removeField (key : String) (fields : Fields) : Fields := fields.filter fun field => field.1 != key

def interpretKernelResponse (fields : Fields) : Except KernelCallFailed Fields :=
  let obj := Json.obj fields
  match obj.get? "result", obj.get? "error" with
  | some (.obj result), none => .ok result
  | some _, none => .error (.malformed "result is not an object")
  | none, some (.obj err) =>
    let err := Json.obj err
    match (err.get? "code").bind asI64, (err.get? "message").bind Json.asStr? with
    | some code, some message =>
      let data := (err.get? "data").bind asObject
      let kind := data.bind fun data => (((Json.obj data).get? "kind").bind Json.asStr?).bind ErrorKind.parse
      .error (.rpc ⟨errorCode code, message, kind, data.map (removeField "kind")⟩)
    | _, _ => .error (.malformed "malformed response")
  | _, _ => .error (.malformed "malformed response")

/-- One line of the queue to the module, by who put it there. -/
inductive OutLine where
  | call (call : Nat) (bytes : List UInt8)
  | cancel (bytes : List UInt8)
  /-- `enqueue_raw`. -/
  | raw (bytes : List UInt8)
  | relayed (bytes : List UInt8)

def OutLine.bytes : OutLine → List UInt8
  | .call _ bytes => bytes
  | .cancel bytes => bytes
  | .raw bytes => bytes
  | .relayed bytes => bytes

/-- `format!("k{}", …)`. -/
def callId (n : Nat) : String := "k" ++ toString n

def callLine (id method : String) (params : Json) : List UInt8 :=
  (Json.obj [("id", .str id), ("jsonrpc", .str "2.0"), ("method", .str method), ("params", params)]).line

def cancelLine (id : String) : List UInt8 :=
  (Json.obj [("jsonrpc", .str "2.0"), ("method", .str cancelMethod), ("params", .obj [("id", .str id)])]).line

abbrev CallResult := Except KernelCallFailed Fields

/-- How far a `KernelCalls::call` is. -/
inductive CallPhase where
  | begun
  /-- Its frame is queued; it waits for its receiver. -/
  | waiting
  /-- Its time is up; the receiver is dropped, and the cancellation not yet queued. -/
  | elapsed
  /-- The receiver is dropped; the guard is next. Without a result, the caller has dropped it. -/
  | leaving (result : Option CallResult)
  | finished
  deriving DecidableEq

structure KernelCall where
  id : String
  line : List UInt8
  phase : CallPhase
  slot : Option Fields

structure PendingEntry where
  id : String
  call : Nat

/-- Where the loop of `serve_attached` is. -/
inductive MuxPhase where
  | taking
  /-- A response is out of the pending map, and not yet handed over. -/
  | handing (n call : Nat) (fields : Fields)
  /-- A frame is being written to the nested connection. -/
  | piping (left_ : List UInt8)
  | ended

/-- What has happened, for the history. Frames go by their number. -/
inductive MuxEvent where
  | begun (call : Nat) (id : String)
  | queued (call : Nat)
  | closed
  | forwarded (n : Nat)
  | took (n call : Nat) (fields : Fields)
  | stray (n : Nat)
  | missed (n call : Nat)
  | returned (call : Nat) (result : CallResult)
  | dropped (call : Nat)

structure Mux where
  pending : Table PendingEntry.id
  closed : Bool
  nextId : Nat
  strayResponses : Nat
  cancelNotQueued : Nat
  calls : Nat → Option KernelCall
  issued : Nat
  /-- All frames that the reader has read; those not yet taken wait in its channel. -/
  arrived : List Frame
  routed : Nat
  phase : MuxPhase
  piped : List UInt8
  /-- What it has written, and the relay not yet read. -/
  suOut : List UInt8
  suOpen : Bool
  relaying : Bool
  relayLine : List UInt8
  relayReady : Option (List UInt8)
  queue : List OutLine
  writing : List UInt8
  writerAlive : Bool
  wire : List UInt8
  put : List OutLine
  log : List MuxEvent

def Mux.start : Mux where
  pending := .empty
  closed := false
  nextId := 0
  strayResponses := 0
  cancelNotQueued := 0
  calls _ := none
  issued := 0
  arrived := []
  routed := 0
  phase := .taking
  piped := []
  suOut := []
  suOpen := true
  relaying := true
  relayLine := []
  relayReady := none
  queue := []
  writing := []
  writerAlive := true
  wire := []
  put := []
  log := []

/-- What happens next, anywhere. Where it cannot happen, nothing does. -/
inductive MuxMove where
  | call (method : String) (params : Json) (plain : params.Plain)
  /-- The critical section of a call; there may be no permit of the queue for it. -/
  | enqueue (call : Nat) (permit : Bool)
  /-- A call's wait sees its value, or that its sender is gone. -/
  | wake (call : Nat)
  | elapse (call : Nat)
  | cancel (call : Nat) (permit : Bool)
  | drop (call : Nat)
  | dropGuard (call : Nat)
  /-- `close`, by the registry or by the connection's teardown. -/
  | close
  | enqueueRaw (bytes : List UInt8) (permit : Bool)
  | arrive (frame : Frame)
  | route
  | hand
  | pipe (count : Nat)
  | endLoop
  | suWrite (bytes : List UInt8)
  | suEnd
  | relayRead (count : Nat)
  | relaySend
  | takeLine
  | write (count : Nat)
  | stopWriter

variable (R : JsonReader)

/-- The members of a frame that is an object without `method`. -/
def responseFields (bytes : List UInt8) : Option Fields :=
  match R.parse bytes with
  | .ok (.obj fields) => if (Json.obj fields).get? "method" = none then some fields else none
  | _ => none

def responseId (fields : Fields) : Option String := ((Json.obj fields).get? "id").bind Json.asStr?

namespace Mux

def note (event : MuxEvent) (s : Mux) : Mux := { s with log := event :: s.log }

def setCall (call : Nat) (c : KernelCall) (s : Mux) : Mux := { s with calls := Function.update s.calls call (some c) }

def hasRoom (s : Mux) (permit : Bool) : Bool := permit && s.writerAlive && decide (s.queue.length < outQueueCapacity)

def push (line : OutLine) (s : Mux) : Mux := { s with queue := s.queue ++ [line], put := s.put ++ [line] }

def close (s : Mux) : Mux := note .closed { s with closed := true, pending := .empty }

def countStray (n : Nat) (s : Mux) : Mux :=
  note (.stray n) { s with strayResponses := (s.strayResponses + 1) % 2 ^ 64 }

/-- `route_response`, up to the hand-over. -/
def routeResponse (n : Nat) (fields : Fields) (s : Mux) : Mux :=
  match responseId fields with
  | none => s.countStray n
  | some id =>
    match s.pending.find id with
    | none => s.countStray n
    | some entry =>
      { s with
        pending := s.pending.deleteWhere fun other => other.id == id
        phase := .handing n entry.call (removeField "id" fields) }

def senderGone (call : Nat) (s : Mux) : Bool :=
  (s.pending.rows.all fun entry => entry.call != call) && match s.phase with
    | .handing _ other _ => other != call
    | _ => true

end Mux

open Mux in
def muxStep (s : Mux) : MuxMove → Mux
  | .call method params _ =>
    let id := callId s.nextId
    note (.begun s.issued id)
      { s with
        nextId := (s.nextId + 1) % 2 ^ 64
        calls := Function.update s.calls s.issued (some ⟨id, callLine id method params, .begun, none⟩)
        issued := s.issued + 1 }
  | .enqueue call permit =>
    match s.calls call with
    | some ⟨id, line, .begun, slot⟩ =>
      let finished : Mux := note (.returned call (.error .notSent)) (s.setCall call ⟨id, line, .finished, slot⟩)
      if s.closed then finished
      else if s.hasRoom permit then
        let s : Mux := note (.queued call) ((s.push (.call call line)).setCall call ⟨id, line, .waiting, slot⟩)
        { s with pending := s.pending.put ⟨id, call⟩ }
      else finished
    | _ => s
  | .wake call =>
    match s.calls call with
    | some ⟨id, line, .waiting, some fields⟩ =>
      s.setCall call ⟨id, line, .leaving (some (interpretKernelResponse fields)), some fields⟩
    | some ⟨id, line, .waiting, none⟩ =>
      if s.senderGone call then s.setCall call ⟨id, line, .leaving (some (.error .connectionLost)), none⟩ else s
    | _ => s
  | .elapse call =>
    match s.calls call with
    | some ⟨id, line, .waiting, none⟩ => s.setCall call ⟨id, line, .elapsed, none⟩
    | _ => s
  | .cancel call permit =>
    match s.calls call with
    | some ⟨id, line, .elapsed, slot⟩ =>
      let s := s.setCall call ⟨id, line, .leaving (some (.error .timeout)), slot⟩
      if s.closed then s
      else if s.hasRoom permit then s.push (.cancel (cancelLine id))
      else { s with cancelNotQueued := (s.cancelNotQueued + 1) % 2 ^ 64 }
    | _ => s
  | .drop call =>
    match s.calls call with
    | some ⟨id, line, .waiting, slot⟩ => s.setCall call ⟨id, line, .leaving none, slot⟩
    | _ => s
  | .dropGuard call =>
    match s.calls call with
    | some ⟨id, line, .leaving result, slot⟩ =>
      let s := s.setCall call ⟨id, line, .finished, slot⟩
      let s : Mux := { s with pending := s.pending.deleteWhere fun entry => entry.id == id }
      match result with
      | some result => s.note (.returned call result)
      | none => s.note (.dropped call)
    | _ => s
  | .close => s.close
  | .enqueueRaw bytes permit => if s.hasRoom permit then s.push (.raw bytes) else s
  | .arrive frame => { s with arrived := s.arrived ++ [frame] }
  | .route =>
    match s.phase, s.arrived[s.routed]? with
    | .taking, some frame =>
      let n := s.routed
      let s : Mux := { s with routed := s.routed + 1 }
      match responseFields R frame.bytes with
      | some fields => s.routeResponse n fields
      | none => note (.forwarded n) { s with phase := .piping (frame.bytes ++ [Json.newline]) }
    | _, _ => s
  | .hand =>
    match s.phase with
    | .handing n call fields =>
      let s : Mux := { s with phase := .taking }
      match s.calls call with
      | some ⟨id, line, .waiting, _⟩ => note (.took n call fields) (s.setCall call ⟨id, line, .waiting, some fields⟩)
      | _ => s.note (.missed n call)
    | _ => s
  | .pipe count =>
    match s.phase with
    | .piping left_ =>
      let rest := left_.drop count
      { s with piped := s.piped ++ left_.take count, phase := if rest.isEmpty then .taking else .piping rest }
    | _ => s
  | .endLoop =>
    match s.phase with
    | .handing _ _ _ => s
    | _ => { s with phase := .ended }
  | .suWrite bytes => if s.suOpen then { s with suOut := s.suOut ++ bytes } else s
  | .suEnd => { s with suOpen := false }
  | .relayRead count =>
    if s.relaying ∧ s.relayReady = none then
      if maxFrameBytes + 1 ≤ s.relayLine.length then { s with relaying := false }
      else
      let piece := s.suOut.take count
      let behind := s.suOut.drop count
      if piece.isEmpty then
        -- an empty piece is the end of the stream
        if s.suOut.isEmpty ∧ s.suOpen = false then
          { s with
            relayReady := if s.relayLine.isEmpty then none else some s.relayLine
            relayLine := []
            relaying := !s.relayLine.isEmpty }
        else s
      else match Lines.take Json.newline maxFrameBytes s.relayLine piece with
        | .line line rest =>
          { s with relayReady := some (line ++ [Json.newline]), relayLine := [], suOut := rest ++ behind }
        | .more sofar rest => { s with relayLine := sofar, suOut := rest ++ behind }
        | .tooLong => { s with relaying := false }
    else s
  | .relaySend =>
    match s.relayReady with
    | some line =>
      if s.hasRoom true then ({ s with relayReady := none } : Mux).push (.relayed line)
      else if s.writerAlive then s
      else { s with relayReady := none, relaying := false }
    | none => s
  | .takeLine =>
    match s.writing, s.queue with
    | [], line :: rest => if s.writerAlive then { s with writing := line.bytes, queue := rest } else s
    | _, _ => s
  | .write count =>
    if s.writerAlive then { s with wire := s.wire ++ s.writing.take count, writing := s.writing.drop count } else s
  | .stopWriter => { s with writerAlive := false }

-- Its equations, made once for all the proofs below.
section
attribute [local simp] muxStep
end

end Agent24.Os
