import Agent24.Capability.Operation
import Agent24.Library.Table

/-! The store of bearer capabilities: minting, validation and revocation over one map of records and one of ids. -/

set_option autoImplicit false
namespace Agent24.Capability
open Library

abbrev Token := BitVec 256
abbrev Digest := BitVec 256

def hexNibble (c : Char) : Option Nat :=
  if '0' ≤ c ∧ c ≤ '9' then some (c.toNat - '0'.toNat)
  else if 'a' ≤ c ∧ c ≤ 'f' then some (c.toNat - 'a'.toNat + 10)
  else if 'A' ≤ c ∧ c ≤ 'F' then some (c.toNat - 'A'.toNat + 10)
  else none

def parseBearer (bearer : String) : Option Token :=
  if bearer.toList.length = 64 then
    (bearer.toList.foldlM (fun n c => (hexNibble c).map fun digit => 16 * n + digit) 0).map (BitVec.ofNat 256)
  else none

/-- `UnixSeconds` and the monotone `Instant`, the latter in nanoseconds. -/
structure Clock where
  wall : Nat
  instant : Nat
  deriving DecidableEq

def u64Max : Nat := 18446744073709551615
def seconds (n : Nat) : Nat := n * 1000000000

structure Duration where
  secs : Nat
  nanos : Nat

structure ProcStart where
  sec : Nat
  usec : Nat
  deriving DecidableEq

structure VerifiedIdentity where
  identifier : String
  teamId : String
  executable : String
  auditToken : Option (List Nat)
  deriving DecidableEq

structure EnrolledPeer where
  connId : String
  uid : Nat
  pid : Int
  start : ProcStart
  identity : VerifiedIdentity
  generation : String
  deriving DecidableEq

inductive Audience where
  | productHost | firstPartyShell | creativeRuntime
  deriving DecidableEq

structure Resource where
  workspaceId : Option String
  attachmentId : Option String
  principalId : Option String
  sessionId : Option String
  runId : Option String
  deriving DecidableEq

def Resource.global : Resource := ⟨none, none, none, none, none⟩

structure FirstPartyClaims where
  peer : EnrolledPeer
  deadline : Nat
  deriving DecidableEq

structure CapabilityClaims where
  firstParty : Option FirstPartyClaims
  capabilityId : String
  audience : Audience
  workspaceId : Option String
  attachmentId : Option String
  principalId : Option String
  daemonGeneration : String
  hostGeneration : Option String
  sidecarGeneration : Option String
  createdAt : Nat
  expiresAt : Nat
  allowedOperations : Finset Operation
  deriving DecidableEq

structure Authorization where
  claims : CapabilityClaims
  epoch : Nat
  deriving DecidableEq

inductive CapabilityError where
  | unauthorized | expired | revoked | staleGeneration | operationDenied | resourceDenied | hostRequired | invalidTtl
  deriving DecidableEq

structure Record where
  digest : Digest
  claims : CapabilityClaims
  revoked : Bool
  deriving DecidableEq

def Record.expired (r : Record) (clock : Clock) : Bool :=
  match r.claims.firstParty with
  | none => decide (r.claims.expiresAt ≤ clock.wall)
  | some claims => decide (claims.deadline ≤ clock.instant)

structure Named where
  id : String
  digest : Digest
  deriving DecidableEq

structure State where
  records : Table Record.digest
  ids : Table Named.id
  epoch : Nat

namespace State

def empty : State := ⟨.empty, .empty, 0⟩

/-- `state.ids.get(id)`. -/
def idOf (s : State) (id : String) : Option Digest := (s.ids.find id).map Named.digest

/-- `epoch.wrapping_add(1)`. -/
def changed (s : State) : State := { s with epoch := (s.epoch + 1) % 18446744073709551616 }

def mark (s : State) (select : Record → Bool) : State :=
  { s with records := s.records.update select ({ · with revoked := true }) fun _ => rfl }

def forget (s : State) (digest : Digest) (id : String) : State :=
  { s with records := s.records.remove digest, ids := s.ids.remove id }

end State

structure Draw where
  token : Token
  id : String

section
variable (digest : Token → Digest)

def insertLocked (s : State) (draw : Draw) (claims : CapabilityClaims) :
    Except CapabilityError CapabilityClaims × State :=
  if (s.idOf claims.capabilityId).isSome then (.error .unauthorized, s)
  else
    (.ok claims, { s with
      ids := s.ids.put ⟨claims.capabilityId, digest draw.token⟩
      records := s.records.put ⟨digest draw.token, claims, false⟩ })

abbrev Liveness := EnrolledPeer → Bool

def Record.processLive (r : Record) (alive : Liveness) : Bool :=
  match r.claims.firstParty with
  | none => true
  | some claims => alive claims.peer

def Resource.exact (resource : Resource) (operation : Operation) (claims : CapabilityClaims) : Bool :=
  match operation.scope with
  | .global => resource == Resource.global
  | .principal =>
    resource.workspaceId == claims.workspaceId && resource.attachmentId == claims.attachmentId &&
      resource.principalId == claims.principalId

section
variable (daemon : String)

def validateRecord (r : Record) (operation : Operation) (resource : Resource) (clock : Clock) :
    Except CapabilityError Unit :=
  if r.revoked then .error .revoked
  else if r.claims.daemonGeneration ≠ daemon then .error .staleGeneration
  else if r.expired clock then .error .expired
  else if r.claims.audience ≠ .productHost ∧ operation ∉ r.claims.allowedOperations then .error .operationDenied
  else if r.claims.audience ≠ .productHost ∧ resource.exact operation r.claims = false then .error .resourceDenied
  else .ok ()

def validate (s : State) (token : Token) (operation : Operation) (resource : Resource) (clock : Clock)
    (alive : Liveness) : Except CapabilityError Authorization × State :=
  match s.records.find (digest token) with
  | none => (.error .unauthorized, s)
  | some r =>
    if r.processLive alive then
      match validateRecord daemon r operation resource clock with
      | .error e => (.error e, s)
      | .ok _ => (.ok ⟨r.claims, s.epoch⟩, s)
    else (.error .unauthorized, (s.forget (digest token) r.claims.capabilityId).changed)

/-- The bearer is known and in force; neither operation nor resource is looked at. -/
def requireLiveBearer (s : State) (bearer : String) (clock : Clock) (alive : Liveness) :
    Except CapabilityError Unit × State :=
  match parseBearer bearer with
  | none => (.error .unauthorized, s)
  | some token =>
    match s.records.find (digest token) with
    | none => (.error .unauthorized, s)
    | some r =>
      if r.processLive alive then
        if r.revoked then (.error .revoked, s)
        else if r.claims.daemonGeneration ≠ daemon then (.error .staleGeneration, s)
        else if r.expired clock then (.error .expired, s)
        else (.ok (), s)
      else (.error .unauthorized, (s.forget (digest token) r.claims.capabilityId).changed)

def mintProductHost (s : State) (draw : Draw) (hostGeneration : String) (ttl : Duration) (createdAt : Nat) : Except CapabilityError CapabilityClaims × State :=
  insertLocked digest s draw
    { firstParty := none
      capabilityId := draw.id
      audience := .productHost
      workspaceId := none
      attachmentId := none
      principalId := none
      daemonGeneration := daemon
      hostGeneration := some hostGeneration
      sidecarGeneration := none
      createdAt := createdAt
      expiresAt := min (createdAt + ttl.secs) u64Max
      allowedOperations := ∅ }

/-- `MAX_CREATIVE_TTL_SECONDS`. -/
def maxCreativeTtl : Nat := 3600

structure CreativeMintRequest where
  workspaceId : String
  attachmentId : String
  principalId : String
  sidecarGeneration : String
  ttl : Duration
  createdAt : Nat
  allowedOperations : Finset Operation

def Duration.isZero (d : Duration) : Bool := d.secs == 0 && d.nanos == 0
def Duration.exceeds (d : Duration) (secs : Nat) : Bool := secs < d.secs || (secs == d.secs && d.nanos != 0)

/-- What the new token may do and how long, under the host that asked. -/
def creativeClaims (draw : Draw) (host : CapabilityClaims) (request : CreativeMintRequest) :
    CapabilityClaims where
  firstParty := none
  capabilityId := draw.id
  audience := .creativeRuntime
  workspaceId := some request.workspaceId
  attachmentId := some request.attachmentId
  principalId := some request.principalId
  daemonGeneration := daemon
  hostGeneration := host.hostGeneration
  sidecarGeneration := some request.sidecarGeneration
  createdAt := request.createdAt
  expiresAt := min (request.createdAt + request.ttl.secs) u64Max
  allowedOperations := request.allowedOperations ∩ Operation.creativeAllowlist

def mintCreativeAuthorized (s : State) (draw : Draw) (authorization : Authorization)
    (request : CreativeMintRequest) : Except CapabilityError CapabilityClaims × State :=
  if request.ttl.isZero || request.ttl.exceeds maxCreativeTtl then (.error .invalidTtl, s)
  else if authorization.claims.audience ≠ .productHost ∨ authorization.claims.daemonGeneration ≠ daemon ∨
      authorization.claims.expiresAt ≤ request.createdAt then (.error .hostRequired, s)
  else match s.idOf authorization.claims.capabilityId with
    | none => (.error .hostRequired, s)
    | some hostDigest =>
      match s.records.find hostDigest with
      | none => (.error .hostRequired, s)
      | some r =>
        if r.revoked ∨ r.claims ≠ authorization.claims then (.error .hostRequired, s)
        else insertLocked digest s draw (creativeClaims daemon draw r.claims request)

end

def revoke (s : State) (token : Token) : Bool × State :=
  match s.records.find (digest token) with
  | none => (false, s)
  | some r =>
    if r.revoked then (false, s)
    else (true, (s.mark fun other => other.digest == digest token).changed)

end

def revokeById (s : State) (capabilityId : String) : Bool × State :=
  match s.idOf capabilityId with
  | none => (false, s)
  | some digest =>
    match s.records.find digest with
    | none => (false, s)
    | some r =>
      if r.revoked then (false, s)
      else (true, (s.mark fun other => other.digest == digest).changed)

def revokeWhere (s : State) (predicate : CapabilityClaims → Bool) : Nat × State :=
  let count := s.records.rows.countP fun r => !r.revoked && predicate r.claims
  let marked := s.mark fun r => !r.revoked && predicate r.claims
  (count, if count = 0 then marked else marked.changed)

/-- Which of a token's generations a revocation looks at. -/
inductive Generation where
  | any | daemon | host | sidecar
  deriving DecidableEq

def Generation.names (which : Generation) (generation : String) (claims : CapabilityClaims) : Bool :=
  match which with
  | .any => claims.daemonGeneration == generation || claims.hostGeneration == some generation ||
      claims.sidecarGeneration == some generation
  | .daemon => claims.daemonGeneration == generation
  | .host => claims.hostGeneration == some generation
  | .sidecar => claims.sidecarGeneration == some generation

/-- `revoke_by_generation` and its three narrower forms. -/
def revokeByGeneration (s : State) (which : Generation) (generation : String) : Nat × State :=
  revokeWhere s (which.names generation)

end Agent24.Capability
