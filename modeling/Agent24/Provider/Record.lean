import Agent24.Provider.Evidence
import Agent24.Provider.Gate
import Agent24.Provider.Ledger
import Agent24.Provider.State

/-! The records changes are persisted as: the class of each, the tightening that offsets an abandoned
loosening, and whether one that lands on a number given up still counts. -/

set_option autoImplicit false
namespace Agent24.Provider

/-- A reason that does not retry by itself and holds across restarts. -/
inductive StuckCause where
  | incompatible
  | instanceUnidentified
  | credentialRejected
  | accessRevoked
  deriving DecidableEq

def StuckCause.ofUnavailable : UnavailableCause → Option StuckCause
  | .incompatible => some .incompatible
  | .instanceUnidentified => some .instanceUnidentified
  | .credentialRejected => some .credentialRejected
  | .accessRevoked => some .accessRevoked
  | .dependency | .notReady | .localStorage => none

/-- What a profile awaits before its binding is activated. -/
inductive Confirmation where
  | principalChanged
  | unsavedSettings
  deriving DecidableEq

/-- The host's identifiers and values, which are only compared. -/
structure Ids where
  Profile : Type
  Binding : Type
  Run : Type
  Principal : Type
  Identity : Type
  Kb : Type
  [profileEq : DecidableEq Profile]
  [bindingEq : DecidableEq Binding]
  [runEq : DecidableEq Run]
  [principalEq : DecidableEq Principal]
  [identityEq : DecidableEq Identity]
  [kbEq : DecidableEq Kb]

attribute [instance] Ids.profileEq Ids.bindingEq Ids.runEq Ids.principalEq Ids.identityEq Ids.kbEq

abbrev Ids.numbers : Ids := ⟨Nat, Nat, Nat, Nat, Nat, Nat⟩

structure Of (I : Ids) where
  profile : I.Profile
  binding : I.Binding
  deriving DecidableEq

inductive Class where
  | tightening
  | loosening
  | generation
  | lifecycle
  deriving DecidableEq

inductive Change (I : Ids) where
  | off
  | on
  | prompt
  | promptConfirmed
  | disable (profile : I.Profile)
  | enable (profile : I.Profile)
  | unselect (profile : I.Profile)
  | select (profile : I.Profile)
  | await (profile : I.Profile) (awaited : Confirmation)
  | confirm (profile : I.Profile) (principal : I.Principal) (awaited : Confirmation)
  | placeholderFailed (profile : I.Profile) (failure : PlaceholderFailure)
  | placeholderCleared (profile : I.Profile) (failure : PlaceholderFailure)
  | remove (profile : I.Profile)
  | retire (of : Of I)
  | bind (of : Of I) (identity : I.Identity) (generation : Generation) (confirmed : Option I.Principal)
  | generation (of : Of I) (value : Generation)
  | servable (of : Of I)
  | logout (of : Of I)
  | relogin (of : Of I)
  | revoked (of : Of I)
  | stuck (of : Of I) (cause : StuckCause)
  | unstuck (of : Of I) (cause : StuckCause)
  | runUnbound (run : I.Run) (profiles : List I.Profile)
  | runBound (run : I.Run) (bindings : List (Of I)) (candidates : List (I.Profile × I.Identity))
  | runBackfilled (run : I.Run) (of : Of I)
  | placed (of : Of I) (rule : Rule I.Kb)
  | questioned (of : Of I) (kbs : Finset I.Kb) (version : Nat) (timeouts : Option Octet)
  | released (of : Of I) (kbs : Finset I.Kb) (version : Nat)
  | timedOut (of : Of I) (count : Octet)
  | timeoutsCleared (of : Of I) (earlier : Octet)
  | timeoutsRestored (of : Of I) (count : Octet)
  | tombstone (of : Of I) (kb : I.Kb)
  | tombstoneWithdrawn (of : Of I) (kb : I.Kb)
  | seen (of : Of I) (kbs : Finset I.Kb)
  | unseen (of : Of I) (kbs : Finset I.Kb)
  | started
  | shutdown
  deriving DecidableEq

def boundProfiles {I : Ids} (bindings : List (Of I)) (candidates : List (I.Profile × I.Identity)) :
    List I.Profile :=
  (bindings.map (·.profile) ++ candidates.map (·.1)).foldl
    (fun profiles p => if p ∈ profiles then profiles else profiles ++ [p]) []

namespace Change
variable {I : Ids}

def classOf : Change I → Class
  | .off | .prompt | .disable _ | .unselect _ | .await _ _ | .placeholderFailed _ _ | .remove _ | .retire _
  | .logout _ | .revoked _ | .stuck _ _ | .runUnbound _ _ | .placed _ _ | .questioned _ _ _ _ | .timedOut _ _
  | .timeoutsRestored _ _ | .tombstone _ _ | .seen _ _ | .unseen _ _ => .tightening
  | .on | .promptConfirmed | .enable _ | .select _ | .confirm _ _ _ | .placeholderCleared _ _ | .bind _ _ _ _
  | .servable _ | .relogin _ | .unstuck _ _ | .runBound _ _ _ | .runBackfilled _ _ | .released _ _ _
  | .timeoutsCleared _ _ | .tombstoneWithdrawn _ _ => .loosening
  | .generation _ _ => .generation
  | .started | .shutdown => .lifecycle

def scope : Change I → Option (Scope I.Profile)
  | .off | .on | .prompt | .promptConfirmed => some .host
  | .disable p | .enable p | .unselect p | .select p | .remove p | .await p _ | .confirm p _ _
  | .placeholderFailed p _ | .placeholderCleared p _ => some (.profile p)
  | .retire of | .servable of | .logout of | .relogin of | .revoked of | .bind of _ _ _ | .stuck of _
  | .unstuck of _ | .runBackfilled _ of | .placed of _ | .questioned of _ _ _ | .released of _ _ | .timedOut of _
  | .timeoutsCleared of _ | .timeoutsRestored of _ | .tombstone of _ | .tombstoneWithdrawn of _ | .seen of _
  | .unseen of _ => some (.profile of.profile)
  | .runUnbound _ profiles => some (named profiles)
  | .runBound _ bindings candidates => some (named (boundProfiles bindings candidates))
  | .generation _ _ | .started | .shutdown => none
where
  named (profiles : List I.Profile) : Scope I.Profile := if profiles = [] then .host else .profiles profiles

def offset : Change I → Option (Change I)
  | .on => some .off
  | .promptConfirmed => some .prompt
  | .enable p => some (.disable p)
  | .select p => some (.unselect p)
  | .confirm p _ awaited => some (.await p awaited)
  | .placeholderCleared p failure => some (.placeholderFailed p failure)
  | .bind of _ _ _ => some (.retire of)
  | .relogin of => some (.logout of)
  | .unstuck of cause => some (.stuck of cause)
  | .runBound run bindings candidates => some (.runUnbound run (boundProfiles bindings candidates))
  | .runBackfilled run of => some (.runUnbound run [of.profile])
  | .released of kbs version => some (.questioned of kbs (version + 1) none)
  | .timeoutsCleared of earlier => some (.timeoutsRestored of earlier)
  | .tombstoneWithdrawn of kb => some (.tombstone of kb)
  | _ => none

/-- Whether a record that landed late on a number given up still counts: the stricter of the two stands. -/
def outlivesVoid (change : Change I) : Bool :=
  match change.classOf with
  | .loosening => (change matches .servable _)
  | .lifecycle => !(change matches .shutdown)
  | .tightening | .generation => true

end Change
end Agent24.Provider
