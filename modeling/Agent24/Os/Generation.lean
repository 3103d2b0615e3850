import Agent24.Platform
import Agent24.Library.Runs
import Agent24.Library.Table
import Mathlib.Data.Finset.Basic
import Mathlib.Data.List.Sort

/-! One run of a module process: what it admits, how it drains, and how it is revoked. Every function
holds the generation's lock for all of its work, so it is one step. -/

set_option autoImplicit false
namespace Agent24.Os
open Library

inductive DrainState where
  | starting | running | draining | revoked
  deriving DecidableEq

def DrainState.rank : DrainState → Nat
  | .starting => 0
  | .running => 1
  | .draining => 2
  | .revoked => 3

theorem DrainState.rank_le_revoked (state : DrainState) : state.rank ≤ DrainState.revoked.rank := by
  cases state <;> decide

inductive RequestRefused where
  | notReady | draining | stopping | duplicateId
  deriving DecidableEq

def RequestRefused.code : RequestRefused → String
  | .notReady => "module_not_ready"
  | .draining => "module_draining"
  | .stopping => "module_stopping"
  | .duplicateId => "duplicate_request_id"

inductive CallbackRefused where
  | notReady | drainingWithoutRequest | drainingUnknownRequest | revoked
  deriving DecidableEq

inductive ApprovalCallbackRefused where
  | notReady | revoked | tokenInvalid
  deriving DecidableEq

/-- What `revoke` hands back, besides the one permit to kill. -/
structure Revocation where
  abandoned : List String
  neverSent : List String
  deriving DecidableEq

structure Abandoned where
  dispatched : Bool
  deriving DecidableEq

structure ApprovalToken where
  hash : BitVec 256
  used : Bool
  deriving DecidableEq

structure InFlightEntry where
  id : String
  /-- The channel of `ended`, made for this request. -/
  ended : Nat
  token : ApprovalToken
  deadline : Nat
  deriving DecidableEq

/-- What a callback learns of the request it is bound to. -/
structure RequestLifecycle where
  deadline : Nat
  ended : Nat
  deriving DecidableEq

def InFlightEntry.lifecycle (entry : InFlightEntry) : RequestLifecycle := ⟨entry.deadline, entry.ended⟩

inductive Upstream where
  | process (path : String)
  | attached
  | placeholder
  deriving DecidableEq

structure Generation where
  upstream : Upstream
  state : DrainState
  inFlight : Table InFlightEntry.id
  dispatched : Finset String
  drainDeadline : Option Nat
  /-- The value of the `revoked` watch. -/
  revokedSignal : Bool
  /-- The `ended` channels made so far, and those set to true. -/
  channels : Nat
  endedChannels : Finset Nat

/-- A request admitted into the generation. Whoever holds it finishes or drops it, once. -/
structure InFlight where
  id : String
  ended : Nat
  deriving DecidableEq

/-- The largest instant that the clock can hold, in nanoseconds. -/
def instantMax : Nat := 2 ^ 63 * 1_000_000_000 - 1

def checkedAdd (now span : Nat) : Option Nat := if now + span ≤ instantMax then some (now + span) else none

inductive DrainProgress where
  | notDraining
  | idle
  | waiting (inFlight remaining : Nat)
  | expired (inFlight : Nat)
  deriving DecidableEq

namespace Generation

def new (upstream : Upstream) : Generation := ⟨upstream, .starting, .empty, ∅, none, false, 0, ∅⟩

section
variable (g : Generation)

def ready : Bool × Generation :=
  match g.upstream with
  | .placeholder => (false, g)
  | _ => if g.state = .starting then (true, { g with state := .running }) else (false, g)

def admitRequest (id : String) (tokenHash : BitVec 256) (now budget : Nat) :
    Except RequestRefused (InFlight × Generation) :=
  if g.upstream = .attached then .error .notReady
  else match g.state with
    | .starting => .error .notReady
    | .draining => .error .draining
    | .revoked => .error .stopping
    | .running =>
      if (g.inFlight.find id).isSome then .error .duplicateId
      else
        let deadline := (checkedAdd now budget).getD now
        let entry : InFlightEntry := ⟨id, g.channels, ⟨tokenHash, false⟩, deadline⟩
        .ok (⟨id, g.channels⟩, { g with inFlight := g.inFlight.put entry, channels := g.channels + 1 })

def requestLifecycle (id : String) : Option RequestLifecycle :=
  (g.inFlight.find id).map InFlightEntry.lifecycle

def admitCallbackBound (requestId : Option String) :
    Except CallbackRefused (Option RequestLifecycle) :=
  match g.state with
  | .starting => .error .notReady
  | .revoked => .error .revoked
  | .running => .ok (requestId.bind g.requestLifecycle)
  | .draining => match requestId with
    | none => .error .drainingWithoutRequest
    | some id => match g.requestLifecycle id with
      | some lifecycle => .ok (some lifecycle)
      | none => .error .drainingUnknownRequest

def admitCallback (requestId : Option String) : Except CallbackRefused Unit :=
  (g.admitCallbackBound requestId).map fun _ => ()

end

/-- `admit_approval_callback`, with the entry whose token it used. -/
def admitApprovalCallback (P : Platform) (g : Generation) (requestId token : String) :
    Except ApprovalCallbackRefused (InFlightEntry × Generation) :=
  match g.state with
  | .starting => .error .notReady
  | .revoked => .error .revoked
  | _ => match g.inFlight.find requestId with
    | none => .error .tokenInvalid
    | some entry =>
      if entry.token.used ∨ entry.token.hash ≠ P.sha256 token then .error .tokenInvalid
      else .ok (entry, { g with
        inFlight := g.inFlight.set { entry with token := { entry.token with used := true } } })

section
variable (g : Generation)

def beginDrain (now grace : Nat) : Bool × Generation :=
  match checkedAdd now grace with
  | none => (false, g)
  | some deadline =>
    if g.state = .running then (true, { g with state := .draining, drainDeadline := some deadline })
    else (false, g)

def progress (now : Nat) : DrainProgress :=
  match g.state, g.drainDeadline with
  | .draining, some deadline =>
    let inFlight := g.inFlight.rows.length
    if inFlight = 0 then .idle
    else if deadline ≤ now then .expired inFlight
    else .waiting inFlight (deadline - now)
  | _, _ => .notDraining

def revoke : Option (Revocation × Generation) :=
  if g.state = .revoked then none
  else
    let ids := g.inFlight.rows.map InFlightEntry.id
    let sent := ids.filter fun id => decide (id ∈ g.dispatched)
    let unsent := ids.filter fun id => decide (id ∉ g.dispatched)
    some (⟨sent.insertionSort (· ≤ ·), unsent.insertionSort (· ≤ ·)⟩,
      { g with state := .revoked, revokedSignal := true })

section
variable (request : InFlight)

def dispatch : Bool × Generation :=
  if g.state = .revoked then (false, g)
  else (true, { g with dispatched := insert request.id g.dispatched })

def leave : Generation :=
  { g with
    inFlight := g.inFlight.deleteWhere fun entry => entry.id == request.id
    dispatched := g.dispatched.erase request.id
    endedChannels := match g.inFlight.find request.id with
      | some entry => insert entry.ended g.endedChannels
      | none => g.endedChannels }

def finish : Except Abandoned Unit × Generation :=
  let dispatched := decide (request.id ∈ g.dispatched)
  (if g.state = .revoked then .error ⟨dispatched⟩ else .ok (), g.leave request)

def drop : Generation := g.leave request

end

end

end Generation

inductive DrainCall where
  | ready
  | admitRequest (id : String) (tokenHash : BitVec 256) (now budget : Nat)
  | admitCallback (requestId : Option String)
  | admitApprovalCallback (requestId token : String)
  | beginDrain (now grace : Nat)
  | revoke
  | dispatch (request : InFlight)
  | finish (request : InFlight)
  | drop (request : InFlight)

inductive DrainEvent where
  | admitted (request : InFlight) (tokenHash : BitVec 256)
  | accepted (request : InFlight) (token : String)
  | revoked (revocation : Revocation)
  | dispatched (request : InFlight)
  | finished (request : InFlight) (result : Except Abandoned Unit)
  | dropped (request : InFlight)

/-- A generation, the requests that callers hold, and what has happened, the newest first. -/
structure Drained where
  generation : Generation
  held : List InFlight
  history : List DrainEvent

def Drained.start (upstream : Upstream) : Drained := ⟨.new upstream, [], []⟩

def drainStep (P : Platform) (s : Drained) : DrainCall → Drained
  | .ready => { s with generation := s.generation.ready.2 }
  | .admitRequest id tokenHash now budget =>
    match s.generation.admitRequest id tokenHash now budget with
    | .ok (request, generation) => ⟨generation, request :: s.held, .admitted request tokenHash :: s.history⟩
    | .error _ => s
  | .admitCallback _ => s
  | .admitApprovalCallback requestId token =>
    match s.generation.admitApprovalCallback P requestId token with
    | .ok (entry, generation) => ⟨generation, s.held, .accepted ⟨entry.id, entry.ended⟩ token :: s.history⟩
    | .error _ => s
  | .beginDrain now grace => { s with generation := (s.generation.beginDrain now grace).2 }
  | .revoke =>
    match s.generation.revoke with
    | some (revocation, generation) => ⟨generation, s.held, .revoked revocation :: s.history⟩
    | none => s
  | .dispatch request =>
    if request ∈ s.held then
      match s.generation.dispatch request with
      | (true, generation) => ⟨generation, s.held, .dispatched request :: s.history⟩
      | (false, _) => s
    else s
  | .finish request =>
    if request ∈ s.held then
      let (result, generation) := s.generation.finish request
      ⟨generation, s.held.erase request, .finished request result :: s.history⟩
    else s
  | .drop request =>
    if request ∈ s.held then
      ⟨s.generation.drop request, s.held.erase request, .dropped request :: s.history⟩
    else s

inductive DrainEffect (P : Platform) (s : Drained) : Drained → Prop where
  | none : DrainEffect P s s
  | moved (state : DrainState) (deadline : Option Nat) (up : s.generation.state.rank ≤ state.rank)
      (live : state ≠ .revoked) (real : s.generation.upstream ≠ .placeholder ∨ s.generation.state = .running) :
      DrainEffect P s { s with generation := { s.generation with state := state, drainDeadline := deadline } }
  | admitted (id : String) (tokenHash : BitVec 256) (deadline : Nat) (running : s.generation.state = .running)
      (absent : s.generation.inFlight.find id = Option.none) :
      DrainEffect P s ⟨{ s.generation with
          inFlight := s.generation.inFlight.put ⟨id, s.generation.channels, ⟨tokenHash, false⟩, deadline⟩
          channels := s.generation.channels + 1 },
        ⟨id, s.generation.channels⟩ :: s.held, .admitted ⟨id, s.generation.channels⟩ tokenHash :: s.history⟩
  | accepted (entry : InFlightEntry) (token : String) (live : s.generation.state ≠ .revoked)
      (found : s.generation.inFlight.find entry.id = some entry) (unused : entry.token.used = false)
      (matching : entry.token.hash = P.sha256 token) :
      DrainEffect P s ⟨{ s.generation with
          inFlight := s.generation.inFlight.set { entry with token := { entry.token with used := true } } },
        s.held, .accepted ⟨entry.id, entry.ended⟩ token :: s.history⟩
  | revoked (revocation : Revocation) (live : s.generation.state ≠ .revoked)
      (sent : revocation.abandoned.Perm
        ((s.generation.inFlight.rows.map InFlightEntry.id).filter fun id => decide (id ∈ s.generation.dispatched)))
      (unsent : revocation.neverSent.Perm
        ((s.generation.inFlight.rows.map InFlightEntry.id).filter fun id => decide (id ∉ s.generation.dispatched))) :
      DrainEffect P s ⟨{ s.generation with state := .revoked, revokedSignal := true }, s.held,
        .revoked revocation :: s.history⟩
  | dispatched (request : InFlight) (held : request ∈ s.held) (live : s.generation.state ≠ .revoked) :
      DrainEffect P s ⟨{ s.generation with dispatched := insert request.id s.generation.dispatched }, s.held,
        .dispatched request :: s.history⟩
  | finished (request : InFlight) (held : request ∈ s.held) (result : Except Abandoned Unit)
      (answer : result = if s.generation.state = .revoked then
        .error ⟨decide (request.id ∈ s.generation.dispatched)⟩ else .ok ()) :
      DrainEffect P s ⟨s.generation.leave request, s.held.erase request, .finished request result :: s.history⟩
  | dropped (request : InFlight) (held : request ∈ s.held) :
      DrainEffect P s ⟨s.generation.leave request, s.held.erase request, .dropped request :: s.history⟩

theorem drainStep_effect (P : Platform) (s : Drained) (call : DrainCall) :
    DrainEffect P s (drainStep P s call) := by
  cases call with
  | ready =>
    simp only [drainStep, Generation.ready]
    split
    · exact .none
    rename_i real
    split
    · rename_i starting
      refine .moved .running s.generation.drainDeadline ?_ nofun (.inl real)
      rw [starting]
      decide
    · exact .none
  | admitRequest id tokenHash =>
    simp only [drainStep, Generation.admitRequest]
    split
    · rename_i request generation made
      split at made
      · cases made
      split at made
      · cases made
      · cases made
      · cases made
      rename_i running
      split at made
      · cases made
      rename_i absent
      cases made
      exact .admitted id tokenHash _ running (Option.not_isSome_iff_eq_none.mp absent)
    · exact .none
  | admitCallback requestId => exact .none
  | admitApprovalCallback requestId token =>
    simp only [drainStep, Generation.admitApprovalCallback]
    split
    · rename_i entry generation made
      split at made
      · cases made
      · cases made
      rename_i started live
      split at made
      · cases made
      rename_i entry' found
      split at made
      · cases made
      rename_i valid
      cases made
      simp only [not_or, not_not, Bool.not_eq_true] at valid
      have key : entry.id = requestId := Table.find_key found
      exact .accepted entry token live (key ▸ found) valid.1 valid.2
    · exact .none
  | beginDrain now grace =>
    simp only [drainStep, Generation.beginDrain]
    split
    · exact .none
    rename_i deadline fits
    split
    · rename_i running
      refine .moved .draining (some deadline) ?_ nofun (.inr running)
      rw [running]
      decide
    · exact .none
  | revoke =>
    simp only [drainStep, Generation.revoke]
    split
    · rename_i revocation generation made
      split at made
      · cases made
      rename_i live
      cases made
      exact .revoked _ live (List.perm_insertionSort ..) (List.perm_insertionSort ..)
    · exact .none
  | dispatch request =>
    simp only [drainStep, Generation.dispatch]
    split
    · rename_i held
      split
      · rename_i generation made
        split at made
        · cases made
        rename_i live
        cases made
        exact .dispatched request held live
      · exact .none
    · exact .none
  | finish request =>
    simp only [drainStep]
    split
    · rename_i held
      exact .finished request held _ rfl
    · exact .none
  | drop request =>
    simp only [drainStep]
    split
    · rename_i held
      exact .dropped request held
    · exact .none

end Agent24.Os
