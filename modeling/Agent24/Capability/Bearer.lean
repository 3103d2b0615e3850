import Agent24.Capability.FirstParty
import Agent24.Library.Runs

/-! Runs of the bearer store: every call, in any order, with any answers of the liveness test. -/

set_option autoImplicit false
namespace Agent24.Capability
open Library

/-- Everything the calls share, with what has been drawn so far. -/
structure World where
  state : State
  grants : Grants
  elevations : Table Elevation.task
  clock : Clock
  drawn : List (Digest × String)
  secrets : List Digest

def World.start (clock : Clock) : World := ⟨.empty, .empty, .empty, clock, [], []⟩

inductive Move where
  | pass (wall instant : Nat)
  | validate (token : Token) (operation : Operation) (resource : Resource) (alive : Liveness)
  | requireLive (bearer : String) (alive : Liveness)
  | mintProductHost (draw : Draw) (hostGeneration : String) (ttl : Duration) (createdAt : Nat)
  | mintCreative (draw : Draw) (host : Token) (request : CreativeMintRequest) (alive : Liveness)
  | mintCreativeAuthorized (draw : Draw) (authorization : Authorization) (request : CreativeMintRequest)
  | issue (draw : Draw) (peer : EnrolledPeer) (alive : Liveness)
  | renew (draw : Draw) (peer : EnrolledPeer) (id : String) (alive : Liveness)
  | release (peer : EnrolledPeer) (id : String)
  | revoke (token : Token)
  | revokeById (id : String)
  | revokeByGeneration (which : Generation) (generation : String)
  | elevate (task : Nat) (peer : EnrolledPeer) (id : String) (request : ElevateRequest)
      (details : Target → Option String) (challengeId : String) (alive : Liveness)
  | answered (task : Nat) (outcome : Option PresenceOutcome) (alive : Liveness)
  | granted (task : Nat) (secret : Token)
  | consume (secret tokenId : String) (target : Target) (alive : Liveness)

inductive Reply where
  /-- The call is not one that can be made, or answers nothing. -/
  | idle
  | refused
  | authorized (claims : CapabilityClaims)
  | live
  | minted (digest : Digest) (claims : CapabilityClaims)
  | challenged
  | cleared
  | granted (tokenId : String) (target : Target)
  | consumed
  deriving DecidableEq

def Reply.accepted : Reply → Bool
  | idle | refused => false
  | _ => true

section
variable (digest : Token → Digest) (daemon : String) (docked : Bool)

namespace World

def fresh (w : World) (draw : Draw) : Bool :=
  w.drawn.all (fun t => t.1 != digest draw.token && t.2 != draw.id) && !w.secrets.contains (digest draw.token)

def freshSecret (w : World) (secret : Token) : Bool :=
  w.drawn.all (fun t => t.1 != digest secret) && !w.secrets.contains (digest secret)

def mint {ε : Type} (w : World) (draw : Draw) (result : Except ε CapabilityClaims × State) : Reply × World :=
  (match result.1 with
    | .error _ => .refused
    | .ok claims => .minted (digest draw.token) claims,
    { w with state := result.2, drawn := (digest draw.token, draw.id) :: w.drawn })

end World

/-- `mint_creative`: the host's bearer is validated, then the token is minted for what it authorises. -/
def mintCreative (s : State) (draw : Draw) (host : Token) (request : CreativeMintRequest) (instant : Nat)
    (alive : Liveness) : Except CapabilityError CapabilityClaims × State :=
  match validate digest daemon s host .modelsRead .global ⟨request.createdAt, instant⟩ alive with
  | (.error e, s') => (.error e, s')
  | (.ok authorization, s') => mintCreativeAuthorized digest daemon s' draw authorization request

def act (w : World) : Move → Reply × World
  | .pass wall instant => (.idle, { w with clock := ⟨w.clock.wall + wall, w.clock.instant + instant⟩ })
  | .validate token operation resource alive =>
    let result := validate digest daemon w.state token operation resource w.clock alive
    (match result.1 with
      | .error _ => .refused
      | .ok authorization => .authorized authorization.claims, { w with state := result.2 })
  | .requireLive bearer alive =>
    let result := requireLiveBearer digest daemon w.state bearer w.clock alive
    (if result.1.isOk then .live else .refused, { w with state := result.2 })
  | .mintProductHost draw hostGeneration ttl createdAt =>
    if w.fresh digest draw then
      w.mint digest draw (mintProductHost digest daemon w.state draw hostGeneration ttl createdAt)
    else (.idle, w)
  | .mintCreative draw host request alive =>
    if w.fresh digest draw then
      w.mint digest draw (mintCreative digest daemon w.state draw host request w.clock.instant alive)
    else (.idle, w)
  | .mintCreativeAuthorized draw authorization request =>
    if w.fresh digest draw then
      w.mint digest draw (mintCreativeAuthorized digest daemon w.state draw authorization request)
    else (.idle, w)
  | .issue draw peer alive =>
    if w.fresh digest draw then
      w.mint digest draw (FirstParty.mint digest daemon docked w.state draw peer none w.clock alive)
    else (.idle, w)
  | .renew draw peer id alive =>
    if w.fresh digest draw then
      w.mint digest draw (FirstParty.mint digest daemon docked w.state draw peer (some id) w.clock alive)
    else (.idle, w)
  | .release peer id => (.idle, { w with state := FirstParty.revoke w.state peer id })
  | .revoke token => (.idle, { w with state := (revoke digest w.state token).2 })
  | .revokeById id => (.idle, { w with state := (revokeById w.state id).2 })
  | .revokeByGeneration which generation => (.idle, { w with state := (revokeByGeneration w.state which generation).2 })
  | .elevate task peer id request details challengeId alive =>
    if (w.elevations.find task).isSome then (.idle, w)
    else match elevate daemon w.state task peer id request details challengeId w.clock alive with
      | (.error _, s') => (.refused, { w with state := s' })
      | (.ok e, s') => (.challenged, { w with state := s', elevations := w.elevations.put e })
  | .answered task outcome alive =>
    match w.elevations.find task with
    | none => (.idle, w)
    | some e =>
      if e.cleared then (.idle, w)
      else match elevateAnswered daemon w.state e outcome w.clock alive with
        | (.error _, s') => (.refused, { w with state := s', elevations := w.elevations.remove task })
        | (.ok _, s') => (.cleared, { w with state := s', elevations := w.elevations.put { e with cleared := true } })
  | .granted task secret =>
    match w.elevations.find task with
    | none => (.idle, w)
    | some e =>
      if e.cleared && w.freshSecret digest secret then
        (.granted e.tokenId e.target, { w with
          grants := elevateGranted w.grants e (digest secret) w.clock
          elevations := w.elevations.remove task
          secrets := digest secret :: w.secrets })
      else (.idle, w)
  | .consume secret tokenId target alive =>
    let result := consume digest daemon w.state w.grants secret tokenId target w.clock alive
    (if result.1 then .consumed else .refused, { w with state := result.2.1, grants := result.2.2 })

-- Its equations, made once for all the proofs below.
section
attribute [local simp] act
end

def step (w : World) (move : Move) : World := (act digest daemon docked w move).2
def reply (w : World) (move : Move) : Reply := (act digest daemon docked w move).1

end

end Agent24.Capability
