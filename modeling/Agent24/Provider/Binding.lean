import Agent24.Provider.Credential
import Agent24.Provider.Evidence

/-! One binding as a whole: its connection, credential and evidence parts, whether it is activated or
retired, and the events that take it out of the connection phase or back in. -/

set_option autoImplicit false
namespace Agent24.Provider
open Library

/-- An event that takes the binding out of the connection phase. -/
inductive Leave where
  | off
  | disable
  | unselect
  | logout
  | remove
  | retire
  deriving DecidableEq

inductive Activation where
  | reselect
  | relogin
  deriving DecidableEq

inductive Sidecar where
  | starting
  | ready
  | healthy
  | degraded
  | failed
  | stopping
  | stopped
  deriving DecidableEq

inductive Retry where
  | issue (issuance : Issuance)
  | probe (ticket : ProbeTicket)
  deriving DecidableEq

/-- What an event did, with the placeholder rule it placed. -/
structure WithRule (T K : Type) where
  value : T
  rule : Option (Rule K)

structure BindingState (K : Type) extends Access where
  evidence : Evidence K
  activated : Bool
  retired : Bool

namespace BindingState
variable {K : Type} [DecidableEq K]

def new (connection : Connection) (credentials : Credentials) (activated : Bool) : BindingState K :=
  ⟨⟨connection, credentials⟩, .fresh, activated, false⟩

section
variable (b : BindingState K)

def withEvidence (evidence : Evidence K) : BindingState K :=
  { b with evidence := evidence }

def facts : BindingFacts where
  retired := b.retired
  activated := b.activated && b.connection.phase.isSome
  phase := b.connection.phase.getD .loading
  persistPending := b.connection.persistPending
  reverifyPending := b.evidence.reverifyPending

/-- Places a rule over every KB if `placeholder`. -/
def ruled {T : Type} (value : T) (placeholder : Bool) : BindingState K × WithRule T K :=
  if placeholder then
    let placed := b.evidence.place .all
    ({ b with evidence := placed.1 }, ⟨value, some placed.2⟩)
  else (b, ⟨value, none⟩)

def ruledOutcome (out : Access × Outcome) : BindingState K × WithRule Outcome K :=
  { b with toAccess := out.1 }.ruled out.2 (match out.2 with | .done effects => effects.placeholder | _ => false)

def leave (event : Leave) : BindingState K × WithRule Effects K :=
  if b.retired then b.ruled .none false
  else
    let invalidated :=
      match b.connection.phase with
      | some _ => b.connection.invalidate.map id some
      | none => (b.connection, none)
    let left := { b with
      connection := invalidated.1.leave
      credentials := b.credentials.discard
      activated := b.activated && !(event matches .unselect | .logout)
      retired := event matches .remove | .retire }
    left.ruled ⟨invalidated.2, decide (event ≠ .off), none⟩ (decide (event ≠ .off))

def issue : BindingState K × Option Issuance :=
  ({ b with toAccess := b.toAccess.issue.1 }, b.toAccess.issue.2)

def issued (ticket : Issuance) (answer : Issued) (now : Instant) :
    BindingState K × WithRule Outcome K :=
  b.ruledOutcome (b.toAccess.issued ticket answer now)

def revoke (now : Instant) : BindingState K × WithRule Outcome K :=
  b.ruledOutcome (b.toAccess.revocation .signal now)

/-- A revocation signal on a discarded credential registers `asked`; none fails closed. -/
def questioned (asked : Finset K) : BindingState K × WithRule Outcome K :=
  let registered := b.evidence.register asked
  { b with evidence := registered.1 }.ruled .recheck (!registered.2)

/-- The credential class of an accepted response to a request over `asked`. -/
def response (credential : CredentialId) (signal : Signal) (asked : Finset K) (now : Instant) : BindingState K × WithRule Outcome K :=
  let out := b.toAccess.response credential signal now
  if out.2 = .recheck then { b with toAccess := out.1 }.questioned asked else b.ruledOutcome out

/-- The recheck sent with `credential` came back with a revocation signal. -/
def recheckRevoked (credential : CredentialId) (asked : Finset K) (now : Instant) :
    BindingState K × WithRule Outcome K :=
  let out := b.toAccess.response credential .revoked now
  if out.2 = .recheck then { b with toAccess := out.1 }.questioned asked
  else
    let revoked := b.evidence.revoked
    ({ b with toAccess := out.1, evidence := revoked.1 }, ⟨out.2, some revoked.2⟩)

def observe (asked : Finset K) (scope : Visibility K) (admitted : Nat) (credential : CredentialId) (now : Instant) :
    BindingState K × WithRule (Observed K × Option Outcome) K :=
  let current := decide (b.credentials.currentId = some credential)
  let observed := b.evidence.observe asked scope admitted current
  let b := { b with evidence := observed.1 }
  if observed.2.removed = ∅ then (b, ⟨(observed.2, none), none⟩)
  else
    let narrowed := b.ruledOutcome (b.toAccess.revocation .narrowing now)
    (narrowed.1, ⟨(observed.2, some narrowed.2.value), narrowed.2.rule⟩)

/-- The same principal logged in again: both credential reasons may be retried. -/
def relogin : BindingState K :=
  let out :=
    match b.connection.phase with
    -- still in that reason: out first, so `connect` enters `loading`
    | some (.unavailable .accessRevoked) | some (.unavailable .credentialRejected) => b.connection.leave
    | _ => b.connection
  { b with connection := (out.release .credentialRejected).release .accessRevoked }

def activate (how : Activation) : BindingState K :=
  let b := { b with activated := true }
  match how with
  | .reselect => b
  | .relogin => b.relogin

/-- Enters `loading` once activated with neither switch on. -/
def connect (switches : Switches) : BindingState K × Option Round :=
  if b.retired ∨ ¬b.activated ∨ switches.off ∨ switches.profileDisabled ∨ b.connection.phase.isSome then (b, none)
  else ({ b with connection := b.connection.startLoading.1 }, b.connection.startLoading.2)

def probe : BindingState K × Option ProbeTicket :=
  if b.credentials.current = none then (b, none)
  else ({ b with connection := b.connection.probe.1 }, b.connection.probe.2)

/-- A probe with the current credential, or without one a new `loading` round and its issuance. -/
def backoff : BindingState K × Option Retry :=
  match b.connection.phase with
  | some (.unavailable cause) =>
    if cause.retriesAutomatically then
      if b.credentials.current.isSome then (b.probe.1, b.probe.2.map .probe)
      else
        let loading := b.connection.startLoading
        let b := { b with connection := loading.1 }
        match loading.2 with
        | none => (b, none)
        | some _ => (b.issue.1, b.issue.2.map .issue)
    else (b, none)
  | _ => (b, none)

/-- Every kept reason is let go, and an `unavailable` binding enters `loading` in a new round. -/
def retry : BindingState K × Option Round :=
  let b := { b with connection := b.connection.releaseAll }
  match b.connection.phase with
  | some (.unavailable cause) =>
    if cause = .localStorage then (b, none)
    else ({ b with connection := b.connection.startLoading.1 }, b.connection.startLoading.2)
  | _ => (b, none)

end

/-- A sidecar going down makes the binding `unavailable(dependency)`, unless a reason is to stay. -/
def sidecar (b : BindingState K) (sidecar : Sidecar) : BindingState K × Option Round :=
  match sidecar with
  | .starting => b.retry
  | .ready | .healthy => (b, none)
  | .degraded | .failed | .stopping | .stopped =>
    (if b.connection.active then { b with connection := b.connection.fail .dependency } else b, none)

end BindingState
end Agent24.Provider
