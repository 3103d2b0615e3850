import Agent24.Library.First
import Agent24.Provider.Record

/-! Replay: the log's records, in order, give back what was persisted. -/

set_option autoImplicit false
namespace Agent24.Provider
open Library

inductive Entry (I : Ids) where
  | changes (changes : List (Change I))
  /-- The number given up after a write with an unknown outcome. -/
  | void
  deriving DecidableEq

structure Record (I : Ids) where
  seq : Word
  entry : Entry I
  deriving DecidableEq

inductive Damaged where
  | damaged
  deriving DecidableEq

structure ProfileState where
  disabled : Bool
  selected : Bool
  removed : Bool
  awaiting : Option Confirmation
  failure : Option PlaceholderFailure
  deriving DecidableEq

def ProfileState.fresh : ProfileState := ⟨false, false, false, none, none⟩

structure Bound (I : Ids) where
  of : Of I
  identity : I.Identity
  generation : Generation
  retired : Bool
  servable : Bool
  loggedOut : Bool
  revoked : Bool
  stuck : Option StuckCause
  evidence : Saved I.Kb
  /-- What the last release ended, kept up to date by later counts. -/
  released : Option (Pending I.Kb)
  deriving DecidableEq

abbrev RunSet (I : Ids) := Option (List (Of I) × List (I.Profile × I.Identity))

structure Replayed (I : Ids) where
  off : Bool
  prompt : Bool
  profiles : Table (fun row : I.Profile × ProfileState => row.1)
  confirmed : I.Profile → Option I.Principal
  bindings : List (Bound I)
  runs : List (I.Run × RunSet I)
  highest : Generation
  shutDown : Bool
  next : Word

namespace Replayed
variable {I : Ids}

def fresh (start : Word) : Replayed I where
  off := true
  prompt := false
  profiles := .empty
  confirmed _ := none
  bindings := []
  runs := []
  highest := 0
  shutDown := false
  next := start

section
variable (out : Replayed I)

def profile (p : I.Profile) : ProfileState :=
  (out.profiles.find p).elim .fresh (·.2)

def editProfile (p : I.Profile) (edit : ProfileState → ProfileState) : Replayed I :=
  { out with profiles := out.profiles.put (p, edit (out.profile p)) }

def bound (of : Of I) : Option (Bound I) := out.bindings.find? fun b => decide (b.of = of)

/-- A change to a binding whose own record is not there changes nothing. -/
def on (of : Of I) (edit : Bound I → Bound I) : Replayed I :=
  { out with bindings := onFirst (fun b => decide (b.of = of)) edit out.bindings }

end

def evidence (out : Replayed I) (of : Of I) (edit : Saved I.Kb → Saved I.Kb) : Replayed I :=
  out.on of fun b => { b with evidence := edit b.evidence }

def setRun (out : Replayed I) (run : I.Run) (set : RunSet I) : Replayed I :=
  if out.runs.any (fun r => decide (r.1 = run)) then
    { out with runs := onFirst (fun r => decide (r.1 = run)) (fun r => (r.1, set)) out.runs }
  else { out with runs := out.runs ++ [(run, set)] }

end Replayed

/-- The count a timeout or a clearing changes: the pending one's, or the one an offset would bring back. -/
def Bound.counted {I : Ids} (b : Bound I) (edit : Octet → Octet) : Bound I :=
  let count (p : Pending I.Kb) : Pending I.Kb := { p with timeouts := edit p.timeouts }
  match b.evidence.pending with
  | some p => { b with evidence := { b.evidence with pending := some (count p) } }
  | none => { b with released := b.released.map count }

section
variable {I : Ids}

/-- A registration read back: the KBs merge in, the count its own or the one the last release ended. -/
def Bound.question (b : Bound I) (kbs : Finset I.Kb) (version : Nat) (timeouts : Option Octet) : Bound I :=
  let released := b.released.map (·.timeouts)
  let pending := b.evidence.pending.getD ⟨∅, (timeouts.or released).getD 0⟩
  { b with
    released := none
    evidence := { b.evidence with
      pending := some { pending with kbs := pending.kbs ∪ kbs }
      version := max b.evidence.version version } }

def Bound.release (b : Bound I) (version : Nat) : Bound I :=
  if b.evidence.version = version ∧ b.evidence.pending.isSome then
    { b with released := b.evidence.pending, evidence := { b.evidence with pending := none } }
  else b

theorem Bound.counted_of (b : Bound I) (edit : Octet → Octet) : (b.counted edit).of = b.of := by
  unfold Bound.counted
  split <;> rfl

theorem Bound.release_of (b : Bound I) (version : Nat) : (b.release version).of = b.of := by
  unfold Bound.release
  split <;> rfl

def Saved.place {K : Type} [DecidableEq K] (e : Saved K) (rule : Rule K) : Saved K :=
  { e with
    epoch := rule.epoch
    -- a deletion's rule also ends its tombstone
    tombstones := match rule.kbs with
      | .one kb => e.tombstones.erase kb
      | .all => e.tombstones
    rules := e.rules ++ [rule] }

def apply (out : Replayed I) : Change I → Except Damaged (Replayed I)
  | .off => .ok { out with off := true }
  | .on => .ok { out with off := false }
  | .prompt => .ok { out with prompt := true }
  | .promptConfirmed => .ok { out with prompt := false }
  | .disable p => .ok (out.editProfile p fun s => { s with disabled := true })
  | .enable p => .ok (out.editProfile p fun s => { s with disabled := false })
  | .unselect p => .ok (out.editProfile p fun s => { s with selected := false })
  | .select p => .ok (out.editProfile p fun s => { s with selected := true })
  | .remove p => .ok (out.editProfile p fun s => { s with removed := true })
  | .await p awaited =>
    .ok (out.editProfile p fun s =>
      if s.awaiting ≠ some .unsavedSettings then { s with awaiting := some awaited } else s)
  | .confirm p principal awaited =>
    if (out.profile p).awaiting = some awaited then
      let cleared := out.editProfile p fun s => { s with awaiting := none }
      -- unsaved settings only clears: a new principal awaits its own confirmation
      if awaited = .principalChanged then
        .ok { cleared with confirmed := Function.update out.confirmed p (some principal) }
      else .ok cleared
    else .ok (out.editProfile p id)
  | .placeholderFailed p failure => .ok (out.editProfile p fun s => { s with failure := some failure })
  | .placeholderCleared p failure =>
    .ok (out.editProfile p fun s => if s.failure = some failure then { s with failure := none } else s)
  | .bind of identity generation confirmed =>
    let used (b : Bound I) : Bool := decide (b.of.profile = of.profile) && decide (generation ≤ b.generation)
    if generation = 0 ∨ out.bindings.any (fun b => decide (b.of = of) || used b) then .error .damaged
    else .ok { out with
      highest := max out.highest generation
      confirmed := match confirmed with
        | some principal => Function.update out.confirmed of.profile (some principal)
        | none => out.confirmed
      bindings := out.bindings ++ [⟨of, identity, generation, false, false, false, false, none, .fresh, none⟩] }
  | .generation of value =>
    .ok ({ out with highest := max out.highest value }.on of fun b =>
      { b with generation := max b.generation value })
  | .retire of => .ok (out.on of fun b => { b with retired := true })
  | .servable of => .ok (out.on of fun b => { b with servable := true })
  | .logout of => .ok (out.on of fun b => { b with loggedOut := true })
  | .relogin of => .ok (out.on of fun b => { b with loggedOut := false })
  | .revoked of => .ok (out.on of fun b => { b with revoked := true })
  | .stuck of cause => .ok (out.on of fun b => { b with stuck := some cause })
  | .unstuck of cause => .ok (out.on of fun b => if b.stuck = some cause then { b with stuck := none } else b)
  | .placed of rule =>
    match out.bound of with
    | none => .ok out
    | some b => if rule.epoch ≤ b.evidence.epoch then .error .damaged else .ok (out.evidence of (·.place rule))
  | .questioned of kbs version timeouts => .ok (out.on of (·.question kbs version timeouts))
  | .released of _ version => .ok (out.on of (·.release version))
  | .timedOut of count => .ok (out.on of (·.counted fun _ => count))
  | .timeoutsRestored of count => .ok (out.on of (·.counted fun c => max c count))
  | .timeoutsCleared of _ => .ok (out.on of (·.counted fun _ => 0))
  | .tombstone of kb =>
    .ok (out.evidence of fun e => { e with visible := e.visible.erase kb, tombstones := insert kb e.tombstones })
  | .tombstoneWithdrawn of kb => .ok (out.evidence of fun e => { e with tombstones := e.tombstones.erase kb })
  | .seen of kbs => .ok (out.evidence of fun e => { e with visible := e.visible ∪ kbs })
  | .unseen of kbs => .ok (out.evidence of fun e => { e with visible := e.visible \ kbs })
  | .runBound run bindings candidates => .ok (out.setRun run (some (bindings, candidates)))
  | .runBackfilled run of =>
    -- only into a set recorded empty
    match out.runs.find? fun r => decide (r.1 = run) with
    | some (_, some ([], candidates)) => .ok (out.setRun run (some ([of], candidates)))
    | _ => .ok out
  | .runUnbound run _ => .ok (out.setRun run none)
  | .started => .ok out
  | .shutdown => .ok { out with shutDown := true }

structure LogSlot (I : Ids) where
  seq : Word
  write : Option (List (Change I))
  void : Bool

def settleChange (void : Bool) (out : Replayed I) (change : Change I) : Except Damaged (Replayed I) :=
  if !void || change.outlivesVoid then apply out change
  else
    match change with
    -- the binding is not there, but its first value may have been used
    | .bind _ _ generation _ => .ok { out with highest := max out.highest generation }
    | _ => .ok out

def settle (out : Replayed I) (held : LogSlot I) : Except Damaged (Replayed I) :=
  (held.write.getD []).foldlM (settleChange held.void) { out with shutDown := false }

def readRecord (start : Word) (state : Option (LogSlot I) × Replayed I) (record : Record I) :
    Except Damaged (Option (LogSlot I) × Replayed I) :=
  let opened : LogSlot I :=
    match record.entry with
    | .changes c => ⟨record.seq, some c, false⟩
    | .void => ⟨record.seq, none, true⟩
  match state with
  | (none, out) => if record.seq = start then .ok (some opened, out) else .error .damaged
  | (some s, out) =>
    if s.seq = record.seq then
      match record.entry, s.write with
      | .void, _ => .ok (some { s with void := true }, out)
      | .changes c, none => .ok (some { s with write := some c }, out)
      | .changes c, some w => if w = c then .ok (some s, out) else .error .damaged
    else
      match s.seq.checkedNext with
      | none => .error .damaged
      | some expected =>
        if record.seq = expected then (settle out s).map fun settled => (some opened, settled)
        else .error .damaged

def replay (start : Word) (records : List (Record I)) : Except Damaged (Replayed I) := do
  let (slot, out) ← records.foldlM (readRecord start) (none, .fresh start)
  match slot with
  | none => .ok out
  | some done =>
    match done.seq.checkedNext with
    | none => .error .damaged
    | some next => settle { out with next := next } done

end
end Agent24.Provider
