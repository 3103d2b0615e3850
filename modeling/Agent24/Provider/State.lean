/-! A binding's service state, as pure judgements over facts kept elsewhere. -/

set_option autoImplicit false
namespace Agent24.Provider

inductive DataOperation where
  | search
  | read
  deriving DecidableEq

inductive UnavailableCause where
  | dependency
  | notReady
  | incompatible
  | instanceUnidentified
  | credentialRejected
  | accessRevoked
  | localStorage
  deriving DecidableEq

/-- Retried with backoff; the others wait for a manual retry, a new login or a confirmation. -/
def UnavailableCause.retriesAutomatically : UnavailableCause → Bool
  | .dependency | .notReady => true
  | _ => false

inductive ConnectionPhase where
  | loading
  | ready
  | degraded (servable : DataOperation)
  | unavailable (cause : UnavailableCause)
  deriving DecidableEq

def ConnectionPhase.isServable : ConnectionPhase → Bool
  | .ready | .degraded _ => true
  | _ => false

/-- What capability discovery and a readiness probe gave. -/
inductive Probe where
  | noAnswer
  | incompatible
  | answered (live searchReady readReady : Bool)
  deriving DecidableEq

def judgeConnection : Probe → ConnectionPhase
  | .noAnswer => .unavailable .dependency
  | .incompatible => .unavailable .incompatible
  | .answered false _ _ => .unavailable .dependency
  | .answered true true true => .ready
  | .answered true true false => .degraded .search
  | .answered true false true => .degraded .read
  | .answered true false false => .unavailable .notReady

inductive ServiceState where
  | registered
  | disabled
  | connected (phase : ConnectionPhase)
  deriving DecidableEq

structure Switches where
  off : Bool
  profileDisabled : Bool
  deriving DecidableEq

inductive PlaceholderFailure where
  | dependency
  | credentialRejected
  | instanceUnidentified
  deriving DecidableEq

structure BindingFacts where
  retired : Bool
  activated : Bool
  phase : ConnectionPhase
  persistPending : Bool
  reverifyPending : Bool
  deriving DecidableEq

inductive Target where
  | placeholder (failure : Option PlaceholderFailure) (unsavedSettings : Bool)
  | binding (facts : BindingFacts)
  deriving DecidableEq

def derive (switches : Switches) (target : Target) : Option ServiceState :=
  let activated : Option ConnectionPhase :=
    match target with
    | .binding b => if b.activated then some b.phase else none
    | .placeholder _ _ => none
  match target with
  | .binding b => if b.retired then none else some (judge activated)
  | .placeholder _ _ => some (judge activated)
where
  judge (activated : Option ConnectionPhase) : ServiceState :=
    if switches.off ∨ switches.profileDisabled then .disabled
    else
      match activated with
      | none => .registered
      | some phase => .connected phase

end Agent24.Provider
