import Agent24.Attach.Store
import Agent24.Os.AttachMux
import Agent24.Os.Generation

/-! The registry of attached modules: what a handshake is checked against, the one generation a name runs, and
the reverse commands on its connection. Every function holds the registry's lock for all of its work, so it is
one step; a change to the file is told to the registry while the file lock is held. -/

set_option autoImplicit false
namespace Agent24.Attach
open Library Os

def decodeHex32 (hex : String) : Option (List UInt8) :=
  if hex.toList.all (fun c => c.toNat < 128) && hex.toList.length == 64 then
    (List.range 32).mapM fun i =>
      (Numeral.parseHex 255 (String.ofList ((hex.toList.drop (i * 2)).take 2))).map UInt8.ofNat
  else none

structure ContractMismatch where
  expected : String
  actual : String

/-- What `build_grant` builds from: the offer and the methods of a connection depend on nothing else. -/
structure Grant where
  name : String
  manifest : DomainOsManifest

structure AttachSlot where
  current : Option Nat
  lastNumber : Nat

def AttachSlot.new : AttachSlot := ⟨none, 0⟩

structure LiveCalls where
  generation : Nat

structure Entry where
  name : String
  manifestDigest : String
  tokenSha256 : List UInt8
  tokenId : String
  disabled : Bool
  slot : AttachSlot
  grant : Grant
  hostCommands : List String
  lastGeneration : Option (Nat × Nat)
  version : String
  contractMismatch : Option ContractMismatch
  liveCalls : Option LiveCalls

/-- One connection, from its `commit` on. Its generation and its calls go by the same identity. -/
structure Connection where
  name : String
  generation : Generation
  calls : Mux
  /-- `attach_kernel_calls` has had its calls. -/
  handed : Bool
  inFlight : Nat

namespace Connection

def revoke (connection : Connection) : Connection :=
  match connection.generation.revoke with
  | some (_, revoked) => { connection with generation := revoked }
  | none => connection

def close (connection : Connection) : Connection := { connection with calls := connection.calls.close }

end Connection

structure AttachRegistry where
  entries : Table Entry.name
  /-- `deps` is gone. -/
  closed : Bool

structure AttachedExpectation where
  manifestDigest : String
  tokenSha256 : List UInt8
  tokenId : String
  offer : Grant

/-- What a handshake claims, once its frame has been checked. -/
structure AttachedAccepted where
  module : String
  tokenId : String

inductive HandshakeError where
  | authFailed | forbidden | busy
  deriving DecidableEq

inductive CommitRefused where
  | handshake (error : HandshakeError)
  | closed
  deriving DecidableEq

inductive CommandRefusal where
  | notDeclared | notReady | busy
  deriving DecidableEq

inductive CommandLookupError where
  | unknownModule | commandNotDeclared
  deriving DecidableEq

def maxKernelCallsInFlight : Nat := 8

structure Attached where
  store : AttachedStore
  telling : Option Change
  registry : AttachRegistry
  connections : Nat → Option Connection
  made : Nat
  /-- The command slots that are held, by their connection. -/
  slots : List Nat

section
variable (P : Platform) (fromYaml : String → Except String DomainOsManifest)

/-- `load_all`: records whose manifest does not parse are left out. -/
def loadAll (store : AttachedStore) : List (AttachedRecord × DomainOsManifest) :=
  store.modules.rows.filterMap fun record =>
    match parseManifest P fromYaml record.manifestYaml with
    | .ok manifest => some (record, manifest)
    | .error _ => none

def Entry.vacant (name manifestDigest : String) (tokenSha256 : List UInt8) (tokenId : String) (disabled : Bool)
    (manifest : DomainOsManifest) : Entry where
  name
  manifestDigest
  tokenSha256
  tokenId
  disabled
  slot := .new
  grant := ⟨name, manifest⟩
  hostCommands := manifest.hostCommands
  lastGeneration := none
  version := manifest.version
  contractMismatch := none
  liveCalls := none

def hydrate (store : AttachedStore) : AttachRegistry where
  entries := (loadAll P fromYaml store).foldl (fun entries stored =>
    match decodeHex32 stored.1.tokenSha256 with
    | none => entries
    | some tokenSha256 =>
      entries.put (.vacant stored.1.name stored.1.manifestDigest tokenSha256 stored.1.tokenId stored.1.disabled stored.2))
    .empty
  closed := false

end

namespace Attached
variable (s : Attached)

def expectation (name : String) : Option AttachedExpectation :=
  (s.registry.entries.find name).map fun e => ⟨e.manifestDigest, e.tokenSha256, e.tokenId, e.grant⟩

def setEntry (e : Entry) : Attached := { s with registry := { s.registry with entries := s.registry.entries.put e } }

def edit (c : Nat) (change : Connection → Connection) : Attached :=
  { s with connections := fun other => if other = c then (s.connections c).map change else s.connections other }

/-- `Generation::state` is `Running`. -/
def running (c : Nat) : Bool := (s.connections c).any fun connection => connection.generation.state == .running

def revokeGeneration (c : Nat) : Attached := s.edit c Connection.revoke

def closeCalls (c : Nat) : Attached := s.edit c Connection.close

/-- What becomes of the connection of an entry that is revoked: `slot.revoke()`, and its live calls closed. -/
def cut (e : Entry) : Attached :=
  let s := e.slot.current.elim s s.revokeGeneration
  e.liveCalls.elim s fun live => s.closeCalls live.generation

end Attached

def Entry.cut (e : Entry) : Entry := { e with slot := { e.slot with current := none }, liveCalls := none }

namespace Attached

def commit (s : Attached) (claim : AttachedAccepted) : Except CommitRefused (Nat × Nat) × Attached :=
  if s.registry.closed then (.error .closed, s)
  else match s.registry.entries.find claim.module with
    | none => (.error (.handshake .authFailed), s)
    | some e =>
      if e.tokenId ≠ claim.tokenId then (.error (.handshake .authFailed), s)
      else if e.disabled then (.error (.handshake .forbidden), s.setEntry { e with contractMismatch := none })
      else if e.slot.current.isSome then (.error (.handshake .busy), s)
      else
        let generation := s.made
        let number := e.slot.lastNumber + 1
        let connection : Connection := ⟨e.name, (Generation.new .attached).ready.2, .start, false, 0⟩
        let s : Attached := { s with
          connections := fun c => if c = generation then some connection else s.connections c
          made := s.made + 1 }
        (.ok (number, generation), s.setEntry { e with
          slot := ⟨some generation, number⟩
          lastGeneration := some (number, generation)
          contractMismatch := none })

def release (s : Attached) (name : String) (generation : Nat) : Attached :=
  match s.registry.entries.find name with
  | none => s
  | some e =>
    let mine := e.lastGeneration.any fun last => last.2 == generation
    let live := e.liveCalls.any fun live => live.generation == generation
    let s := if mine then e.slot.current.elim s s.revokeGeneration else s
    let s := if live then s.closeCalls generation else s
    -- `AttachSlot::release` revokes in any case, and clears the slot only of this generation
    let s := s.revokeGeneration generation
    let current := if mine then none else e.slot.current
    s.setEntry { e with
      slot := { e.slot with current := if current = some generation then none else current }
      liveCalls := if live then none else e.liveCalls }

section
variable (s : Attached)

/-- `permit`: the queue takes the success frame. -/
def attachKernelCalls (name : String) (generation : Nat) (successLine : List UInt8) (permit : Bool) :
    Except Unit Unit × Attached :=
  match s.connections generation with
  | none => (.error (), s)
  | some connection =>
    let s := s.edit generation fun connection => { connection with handed := true }
    if connection.calls.hasRoom permit then
      let s := s.edit generation fun connection =>
        { connection with calls := connection.calls.push (.raw successLine) }
      match s.registry.entries.find name with
      | some e =>
        if e.lastGeneration.any fun last => last.2 == generation then
          let s := s.edit generation fun connection => { connection with inFlight := 0 }
          (.ok (), s.setEntry { e with liveCalls := some ⟨generation⟩ })
        else (.ok (), s)
      | none => (.ok (), s)
    else (.error (), s)

def declaredCommand (name command : String) : Except CommandLookupError Unit :=
  match s.registry.entries.find name with
  | none => .error .unknownModule
  | some e => if e.hostCommands.contains command then .ok () else .error .commandNotDeclared

def reserveReady (name command : String) : Except CommandRefusal Nat × Attached :=
  match s.registry.entries.find name with
  | none => (.error .notDeclared, s)
  | some e =>
    if e.hostCommands.contains command then
      match e.liveCalls.filter fun live => s.running live.generation with
      | none => (.error .notReady, s)
      | some live =>
        match s.connections live.generation with
        | none => (.error .notReady, s)
        | some connection =>
          if maxKernelCallsInFlight ≤ connection.inFlight then (.error .busy, s)
          else
            let s := s.edit live.generation fun connection => { connection with inFlight := connection.inFlight + 1 }
            (.ok live.generation, { s with slots := live.generation :: s.slots })
    else (.error .notDeclared, s)

/-- The drop of a `CommandSlot`. -/
def dropSlot (c : Nat) : Attached :=
  if c ∈ s.slots then
    let s := s.edit c fun connection => { connection with inFlight := connection.inFlight - 1 }
    { s with slots := s.slots.erase c }
  else s

def revokeAll : Attached :=
  let s' := s.registry.entries.rows.foldl (fun s e => s.cut e) s
  { s' with registry := ⟨.empty, true⟩ }

def noteContractMismatch (name tokenId expected actual : String) : Attached :=
  if s.registry.closed then s
  else match s.registry.entries.find name with
    | none => s
    | some e =>
      if e.tokenId ≠ tokenId then s
      else if e.lastGeneration.any fun last => s.running last.2 then s
      else s.setEntry { e with contractMismatch := some ⟨expected, actual⟩ }

def onChange (change : Change) : Attached :=
  if s.registry.closed then s
  else match change with
    | .registered name _ manifest digest tokenSha256Hex tokenId disabled =>
      match decodeHex32 tokenSha256Hex with
      | none => s
      | some tokenSha256 =>
        match s.registry.entries.find name with
        | some e =>
          (s.cut e).setEntry { e.cut with
            -- the same digest is a rotation of the token, and keeps the grant
            grant := if e.manifestDigest ≠ digest then ⟨name, manifest⟩ else e.grant
            manifestDigest := digest
            tokenSha256
            tokenId
            hostCommands := manifest.hostCommands
            version := manifest.version
            contractMismatch := none
            disabled }
        | none => s.setEntry (.vacant name digest tokenSha256 tokenId disabled manifest)
    | .revoked name =>
      match s.registry.entries.find name with
      | some e =>
        let s := s.cut e
        { s with registry := { s.registry with entries := s.registry.entries.remove name } }
      | none => s
    | .disabled name disabled =>
      match s.registry.entries.find name with
      | some e => if disabled then (s.cut e).setEntry { e.cut with disabled } else s.setEntry { e with disabled }
      | none => s

end

end Attached

/-- What happens next, anywhere. Where it cannot happen, nothing does. -/
inductive AttachMove where
  /-- The file is written, or the writing fails; the file lock is free. -/
  | write (call : Call)
  /-- `on_change`, with the file lock still held. -/
  | tell
  | commit (claim : AttachedAccepted)
  | attach (c : Nat) (successLine : List UInt8) (permit : Bool)
  | release (c : Nat)
  | reserve (name command : String)
  | call (c : Nat) (method : String) (params : Json) (plain : params.Plain)
  | dropSlot (c : Nat)
  | note (name tokenId expected actual : String)
  | revokeAll
  /-- The calls that have started, and the wire of a connection. -/
  | wire (c : Nat) (move : MuxMove)

/-- Moves that start a call or queue the success frame are the registry's and the slots'. -/
def wireMove : MuxMove → Bool
  | .call _ _ _ => false
  | .enqueueRaw _ _ => false
  | _ => true

section
variable (P : Platform) (fromYaml : String → Except String DomainOsManifest) (R : JsonReader)

def attachStep (s : Attached) : AttachMove → Attached
  | .write call =>
    match s.telling with
    | some _ => s
    | none =>
      let (store, change) := writeFile P fromYaml s.store call
      { s with store, telling := change }
  | .tell =>
    match s.telling with
    | some change => { s.onChange change with telling := none }
    | none => s
  | .commit claim => (s.commit claim).2
  | .attach c successLine permit =>
    match s.connections c with
    | some connection =>
      if connection.handed then s else (s.attachKernelCalls connection.name c successLine permit).2
    | none => s
  | .release c =>
    match s.connections c with
    | some connection => s.release connection.name c
    | none => s
  | .reserve name command => (s.reserveReady name command).2
  | .call c method params plain =>
    if c ∈ s.slots then
      s.edit c fun connection => { connection with calls := muxStep R connection.calls (.call method params plain) }
    else s
  | .dropSlot c => s.dropSlot c
  | .note name tokenId expected actual => s.noteContractMismatch name tokenId expected actual
  | .revokeAll => s.revokeAll
  | .wire c move =>
    if wireMove move then s.edit c fun connection => { connection with calls := muxStep R connection.calls move } else s

-- Its equations, made once for all the proofs below.
section
attribute [local simp] attachStep
end

def Attached.start (store : AttachedStore) : Attached where
  store
  telling := none
  registry := hydrate P fromYaml store
  connections _ := none
  made := 0
  slots := []

end
end Agent24.Attach
