import Agent24.Capability.Store
import Mathlib.Algebra.Ring.Nat

/-! Tokens bound to an enrolled process, and the single-use grants that a confirmed elevation hands out. -/

set_option autoImplicit false
namespace Agent24.Capability
open Library

inductive EnrollErrorCode where
  | identityRejected | notEnrolled | presenceDenied | presenceUnavailable | presenceTimeout | notElevatedOperation
  | unknownRoute | internal
  deriving DecidableEq

def tokenTtl : Nat := 3600
def grantTtl : Nat := 60

structure Target where
  operation : Operation
  method : String
  template : String
  path : String
  bodySha256 : String
  deriving DecidableEq

structure Grant where
  digest : Digest
  challengeId : String
  tokenId : String
  target : Target
  expiresAt : Nat
  deriving DecidableEq

abbrev Grants := Table Grant.digest

def livePeer (daemon : String) (s : State) (peer : EnrolledPeer) (id : String) (clock : Clock) (alive : Liveness) :
    Except EnrollErrorCode Unit × State :=
  match s.idOf id with
  | none => (.error .notEnrolled, s)
  | some key =>
    match s.records.find key with
    | none => (.error .notEnrolled, s)
    | some r =>
      if r.claims.firstParty.map FirstPartyClaims.peer ≠ some peer then (.error .notEnrolled, s)
      else if r.revoked ∨ r.expired clock ∨ r.claims.daemonGeneration ≠ daemon ∨ alive peer = false then
        (.error .notEnrolled, (s.forget key id).changed)
      else (.ok (), s)

def firstPartyOperations (docked : Bool) : Finset Operation :=
  if docked then {.healthRead, .diagnosticRead}
  else (((policies.map RoutePolicy.operation).filter fun op : Operation => !op.isPresenceChannel) ++ [Operation.moduleRoute]).toFinset

def firstPartyToken (docked : Bool) (draw : Draw) (peer : EnrolledPeer) (clock : Clock) : CapabilityClaims where
  firstParty := some ⟨peer, clock.instant + seconds tokenTtl⟩
  capabilityId := draw.id
  audience := .firstPartyShell
  workspaceId := none
  attachmentId := none
  principalId := none
  daemonGeneration := peer.generation
  hostGeneration := none
  sidecarGeneration := none
  createdAt := clock.wall
  expiresAt := clock.wall + tokenTtl
  allowedOperations := firstPartyOperations docked

/-- The token that a renewal replaces is known, in force, and the peer's own. -/
def renewable (s : State) (peer : EnrolledPeer) (clock : Clock) (id : String) : Bool :=
  match s.idOf id with
  | none => false
  | some digest =>
    match s.records.find digest with
    | none => false
    | some r => !r.revoked && !r.expired clock && r.claims.firstParty.map FirstPartyClaims.peer == some peer

def State.forgetId (s : State) (id : String) : State :=
  match s.idOf id with
  | none => s
  | some key => (s.forget key id).changed

/-- `mint`: a first token, or one in the place of an old one. -/
def FirstParty.mint (digest : Token → Digest) (daemon : String) (docked : Bool) (s : State) (draw : Draw)
    (peer : EnrolledPeer) (old : Option String) (clock : Clock) (alive : Liveness) :
    Except EnrollErrorCode CapabilityClaims × State :=
  if peer.generation ≠ daemon then (.error .identityRejected, s)
  else if old.all (renewable s peer clock) = false then (.error .notEnrolled, s)
  else if alive peer = false then (.error .identityRejected, old.elim s s.forgetId)
  else match insertLocked digest s draw (firstPartyToken docked draw peer clock) with
    | (.error _, s') => (.error .internal, s')
    | (.ok claims, s') => (.ok claims, old.elim s' s'.forgetId)

def FirstParty.revoke (s : State) (peer : EnrolledPeer) (id : String) : State :=
  match s.idOf id with
  | none => s
  | some key =>
    match (s.records.find key).bind fun r => r.claims.firstParty with
    | none => s
    | some claims => if claims.peer = peer then (s.forget key id).changed else s

/-! An elevation: the first check, the user's answer with the second check, and the grant. -/

structure ElevateRequest where
  method : String
  path : String
  bodySha256 : String

/-- The elevated operations that have a summary of their own to show. -/
def supported (policy : RoutePolicy) : Bool :=
  (policy.operation == .moduleAdmin && policy.method == "POST" &&
      (policy.template == "/api/v1/attached" || policy.template == "/api/v1/os/\x7bname\x7d/delegation")) ||
    (policy.operation == .idorisLifecycle &&
      [("POST", "/api/v1/idoris/install"), ("POST", "/api/v1/idoris/connect"), ("POST", "/api/v1/idoris/start"),
        ("POST", "/api/v1/idoris/stop"), ("POST", "/api/v1/idoris/operations/\x7bid\x7d/cancel"),
        ("GET", "/api/v1/idoris/omlx/candidates")].any fun route =>
          policy.method == route.1 && policy.template == route.2)

def resolveTarget (request : ElevateRequest) : Except EnrollErrorCode Target :=
  if !Text.startsWith "/" request.path || request.path.toList.any fun c => c == '?' || c == '#' then
    .error .unknownRoute
  else match policies.find? fun p => p.method == request.method && templateMatches p.template request.path with
    | none => .error .unknownRoute
    | some policy =>
      if policy.level ≠ .elevated ∨ supported policy = false then .error .notElevatedOperation
      else .ok ⟨policy.operation, request.method, policy.template, request.path, request.bodySha256⟩

/-- `SUMMARY_MAX_UTF16`: what the desktop's dialog shows without clipping. -/
def summaryMaxUtf16 : Nat := 500

def utf16Length (text : String) : Nat := (text.toList.map fun c => if c.toNat < 0x10000 then 1 else 2).sum

structure Elevation where
  task : Nat
  peer : EnrolledPeer
  tokenId : String
  target : Target
  challengeId : String
  deadline : Nat
  /-- The user allowed it, and the peer was live afterwards. -/
  cleared : Bool
  deriving DecidableEq

/-- `elevate` as far as the challenge that is shown; the details come from what the daemon saw of the request. -/
def elevate (daemon : String) (s : State) (task : Nat) (peer : EnrolledPeer) (id : String) (request : ElevateRequest)
    (details : Target → Option String) (challengeId : String) (clock : Clock) (alive : Liveness) :
    Except EnrollErrorCode Elevation × State :=
  match livePeer daemon s peer id clock alive with
  | (.error e, s') => (.error e, s')
  | (.ok _, s') =>
    match resolveTarget request with
    | .error e => (.error e, s')
    | .ok target =>
      match details target with
      | none => (.error .notElevatedOperation, s')
      | some text =>
        if summaryMaxUtf16 <
            utf16Length (peer.identity.identifier ++ " (pid " ++ toString peer.pid ++ ") wants to: " ++ text) then
          (.error .notElevatedOperation, s')
        else (.ok ⟨task, peer, id, target, challengeId, clock.instant + seconds grantTtl, false⟩, s')

inductive PresenceOutcome where
  | allowed | denied | unavailable | timedOut
  deriving DecidableEq

def elevateAnswered (daemon : String) (s : State) (e : Elevation) (outcome : Option PresenceOutcome) (clock : Clock)
    (alive : Liveness) : Except EnrollErrorCode Unit × State :=
  match outcome with
  | none => (.error .presenceTimeout, s)
  | some .denied => (.error .presenceDenied, s)
  | some .unavailable => (.error .presenceUnavailable, s)
  | some .timedOut => (.error .presenceTimeout, s)
  | some .allowed =>
    if e.deadline ≤ clock.instant then (.error .presenceTimeout, s)
    else livePeer daemon s e.peer e.tokenId clock alive

def elevateGranted (grants : Grants) (e : Elevation) (secret : Digest) (clock : Clock) : Grants :=
  (grants.deleteWhere fun g => decide (g.expiresAt ≤ clock.instant)).put
    ⟨secret, e.challengeId, e.tokenId, e.target, clock.instant + seconds grantTtl⟩

/-- What `consume` looks up its grant under: the token, live and allowed the target's operation. -/
def consumable (daemon : String) (r : Record) (target : Target) (clock : Clock) : Bool :=
  r.claims.audience == .firstPartyShell && r.claims.firstParty.isSome &&
    (validateRecord daemon r target.operation Resource.global clock).isOk

def consume (digest : Token → Digest) (daemon : String) (s : State) (grants : Grants) (secret tokenId : String)
    (target : Target) (clock : Clock) (alive : Liveness) : Bool × State × Grants :=
  match parseBearer secret with
  | none => (false, s, grants)
  | some token =>
    match s.idOf tokenId with
    | none => (false, s, grants)
    | some key =>
      match s.records.find key with
      | none => (false, s, grants)
      | some r =>
        if r.processLive alive then
          if consumable daemon r target clock then
            let current := grants.deleteWhere fun g => decide (g.expiresAt ≤ clock.instant)
            match current.find (digest token) with
            | none => (false, s, current)
            | some g =>
              if g.tokenId = tokenId ∧ g.target = target then (true, s, current.remove (digest token))
              else (false, s, current)
          else (false, s, grants)
        else (false, (s.forget key tokenId).changed, grants)

end Agent24.Capability
