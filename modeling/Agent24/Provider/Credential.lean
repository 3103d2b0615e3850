import Agent24.Provider.Connection

/-! The credential part of one binding: the current credential, the issuances owned by `loading` rounds,
and what a revocation does to the connection. -/

set_option autoImplicit false
namespace Agent24.Provider
open Library

abbrev Instant := Nat

def window : Nat := 10 * 60 * 10 ^ 9

def windowLimit : Nat := 3

structure CredentialId where
  number : Nat
  deriving DecidableEq

/-- An issuance or renewal sent; its answer counts only within the round it was sent in. -/
structure Issuance where
  round : Round
  seq : Nat
  afterInvalid : Bool
  deriving DecidableEq

inductive Issued where
  | granted (narrowed : Bool)
  | otherPrincipal
  | refused
  | revoked
  | unreachable
  deriving DecidableEq

inductive Signal where
  | revoked
  | expired
  | invalid
  deriving DecidableEq

structure Effects where
  invalidation : Option Invalidation
  placeholder : Bool
  renew : Option Issuance
  deriving DecidableEq

def Effects.none : Effects := ⟨.none, false, .none⟩

inductive Outcome where
  | done (effects : Effects)
  | ignored
  | otherPrincipal
  | stale
  /-- A revocation signal on a discarded credential. -/
  | recheck
  deriving DecidableEq

abbrev Window := List Instant

/-- Records an event at `now`: whether it is the third within the window. -/
def Window.record (w : Window) (now : Instant) : Window × Bool :=
  let times := w.filter (fun t => decide (now - t < window)) ++ [now]
  (times, decide (windowLimit ≤ times.length))

inductive Revocation where
  | signal
  | narrowing
  deriving DecidableEq

structure Credentials where
  current : Option (CredentialId × Round)
  issuing : Option Issuance
  nextIssuance : Nat
  nextCredential : Nat
  revokedBefore : Bool
  /-- The round renewing after an invalid-class response. -/
  renewal : Option Round
  revocations : Window
  invalids : Window

def Credentials.new (revokedBefore : Bool) : Credentials :=
  ⟨none, none, 0, 0, revokedBefore, none, [], []⟩

def Credentials.currentId (c : Credentials) : Option CredentialId := c.current.map (·.1)

/-- The binding left the connection phase: the credential goes. -/
def Credentials.discard (c : Credentials) : Credentials := { c with current := none }

structure Access where
  connection : Connection
  credentials : Credentials

namespace Access

def issuingIn (a : Access) : Bool := a.credentials.issuing.any fun i => a.connection.isCurrent i.round

/-- Still in the round renewing after an invalid-class response. -/
def renewing (a : Access) : Bool := a.credentials.renewal.any a.connection.isCurrent

/-- Never servable and never revoked, still `loading`. -/
def excepted (a : Access) : Bool :=
  !a.credentials.revokedBefore && !a.connection.everServable && decide (a.connection.phase = some .loading)

def fail (a : Access) (cause : UnavailableCause) : Access := { a with connection := a.connection.fail cause }

def discard (a : Access) : Access := { a with credentials := a.credentials.discard }

def ticket (a : Access) (afterInvalid : Bool) : Access × Issuance :=
  let ticket : Issuance := ⟨a.connection.round, a.credentials.nextIssuance, afterInvalid⟩
  ({ a with credentials := { a.credentials with
      nextIssuance := a.credentials.nextIssuance + 1
      issuing := some ticket } }, ticket)

/-- A `loading` round's issuance: no credential, nothing pending, one at a time. -/
def issue (a : Access) : Access × Option Issuance :=
  let due := a.connection.phase = some .loading ∧ a.credentials.current = none
  if ¬due ∨ a.connection.persistPending ∨ a.issuingIn then (a, none)
  else (a.ticket a.renewing).map id some

/-- A renewal granted in an `unavailable` that retries by itself goes back to `loading`. -/
def adopt (a : Access) : Access :=
  let again := a.connection.unavailable && a.connection.active
  let connection := if again then a.connection.startLoading.1 else a.connection
  { connection := connection
    credentials := { a.credentials with
      current := some (⟨a.credentials.nextCredential⟩, connection.round)
      nextCredential := a.credentials.nextCredential + 1 } }

def rejected (a : Access) : Access × Outcome := (a.discard.fail .credentialRejected, .done .none)

def renewalFailed (a : Access) : Access × Outcome :=
  let gone := a.discard
  (if a.connection.active then gone.fail .credentialRejected else gone, .done ⟨none, true, none⟩)

def revoke (c : Connection) (kind : Revocation) (phase : ConnectionPhase) (third : Bool) : Connection :=
  if third then c.fail .accessRevoked
  else
    match kind, phase with
    | .narrowing, .unavailable cause => if cause.retriesAutomatically then c.startLoading.1 else c
    | .signal, .loading | .signal, .unavailable _ => c.fail .accessRevoked
    | _, _ => c.startLoading.1

/-- A revocation-class event: a placeholder in any state; in the connection phase also an invalidation. -/
def revocation (a : Access) (kind : Revocation) (now : Instant) : Access × Outcome :=
  let recorded := a.credentials.revocations.record now
  let credentials := { a.credentials with
    revokedBefore := true
    current := none
    -- an issuance sent before does not bring a credential back
    issuing := none
    revocations := recorded.1 }
  match a.connection.phase with
  | none => (⟨a.connection, credentials⟩, .done ⟨none, true, none⟩)
  | some phase =>
    let invalidated := a.connection.invalidate
    (⟨revoke invalidated.1 kind phase recorded.2, credentials⟩, .done ⟨some invalidated.2, true, none⟩)

/-- The issuer's answer to `ticket`. -/
def issued (a : Access) (ticket : Issuance) (answer : Issued) (now : Instant) : Access × Outcome :=
  if a.credentials.issuing ≠ some ticket ∨ ¬a.connection.isCurrent ticket.round then (a, .ignored)
  else
    let a := { a with credentials := { a.credentials with issuing := none } }
    match answer with
    | .granted false => (a.adopt, .done .none)
    | .granted true => a.revocation .narrowing now
    | .otherPrincipal => (a, .otherPrincipal)
    | .refused =>
      if ticket.afterInvalid then a.renewalFailed
      else if a.excepted then a.rejected
      else a.revocation .signal now
    | .revoked => a.revocation .signal now
    | .unreachable =>
      let gone := a.discard
      -- a probe may have moved it within the round
      (if a.connection.active then gone.fail .dependency else gone, .done .none)

/-- The first one is no revocation: the credential goes and a new round renews once. -/
def invalid (a : Access) (now : Instant) : Access × Outcome :=
  if ¬a.connection.active then (a, .done .none)
  else
    let recorded := a.credentials.invalids.record now
    let a := { a with credentials := { a.credentials with invalids := recorded.1 } }
    if recorded.2 ∨ a.renewing then a.renewalFailed
    else
      let loading := a.connection.startLoading
      ({ connection := loading.1, credentials := { a.credentials with current := none, renewal := loading.2 } },
        .done .none)

/-- The credential class of an accepted response sent with `credential`. -/
def response (a : Access) (credential : CredentialId) (signal : Signal) (now : Instant) : Access × Outcome :=
  match a.credentials.current.filter fun c => decide (c.1 = credential) with
  | none => (a, match signal with | .revoked => .recheck | .expired | .invalid => .stale)
  | some (_, round) =>
    match signal with
    | .revoked =>
      if a.excepted ∧ a.connection.isCurrent round then a.rejected else a.revocation .signal now
    | .expired =>
      if ¬a.connection.active ∨ a.issuingIn then (a, .done .none)
      else (a.ticket false).map id fun ticket => .done ⟨none, false, some ticket⟩
    | .invalid => a.invalid now

end Access
end Agent24.Provider
