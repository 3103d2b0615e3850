import Agent24.Provider.Gate
import Agent24.Provider.State

/-! The connection part of one binding: its gate, its phase and the rounds probes belong to. -/

set_option autoImplicit false
namespace Agent24.Provider
open Library

/-- A `loading` round: what is sent in it counts only while it is the current one. -/
structure Round where
  number : Nat
  deriving DecidableEq

structure ProbeTicket where
  round : Round
  seq : Nat
  deriving DecidableEq

inductive ProbeApplied where
  | moved (phase : ConnectionPhase)
  | persistOnceServable
  | ignored
  deriving DecidableEq

structure Connection where
  gate : Gate
  phase : Option ConnectionPhase
  round : Round
  nextProbe : Nat
  appliedProbe : Option Nat
  onceServable : Bool
  onceServablePending : Bool
  /-- A reason that does not retry by itself, kept across leaving the connection phase. -/
  held : Option UnavailableCause

namespace Connection

def new (gate : Gate) (onceServable : Bool) : Connection :=
  ⟨gate, none, ⟨0⟩, 0, none, onceServable, false, none⟩

section
variable (c : Connection)

/-- In the connection phase, and in `unavailable` only for a reason that retries by itself. -/
def active : Bool :=
  match c.phase with
  | some (.unavailable cause) => cause.retriesAutomatically
  | some _ => true
  | none => false

def unavailable : Bool := c.phase matches some (.unavailable _)

def persistPending : Bool := c.gate.generationPending || c.onceServablePending

def everServable : Bool := c.onceServable || c.onceServablePending

def isCurrent (round : Round) : Bool := decide (round = c.round)

def newRound : Connection := { c with round := ⟨c.round.number + 1⟩ }

/-- To `unavailable` in a new round, so no result of the round it ends moves it back. -/
def fail (cause : UnavailableCause) : Connection :=
  { c.newRound with phase := some (.unavailable cause) }

/-- Enters `loading`; a reason kept comes back instead, and a change not yet persisted holds it. -/
def startLoading : Connection × Option Round :=
  match c.held with
  | some cause => (c.fail cause, none)
  | none =>
    if c.persistPending then (c.fail .localStorage, none)
    else ({ c.newRound with phase := some .loading }, some c.newRound.round)

def release (cause : UnavailableCause) : Connection :=
  if c.held = some cause then { c with held := none } else c

def releaseAll : Connection := { c with held := none }

def leave : Connection :=
  let held :=
    match c.phase with
    | some (.unavailable cause) =>
      if cause.retriesAutomatically ∨ cause = .localStorage then c.held else some cause
    | _ => c.held
  { { c with held := held }.newRound with phase := none }

def invalidate : Connection × Invalidation :=
  ({ c with gate := c.gate.invalidate.1 }, c.gate.invalidate.2)

/-- A probe may go out from `loading`, a servable phase, or an `unavailable` that retries by itself. -/
def probe : Connection × Option ProbeTicket :=
  if c.active ∧ ¬c.persistPending then ({ c with nextProbe := c.nextProbe + 1 }, some ⟨c.round, c.nextProbe⟩)
  else (c, none)

/-- Moves the phase; never the generation, never the calls in flight. -/
def applyProbe (ticket : ProbeTicket) (probe : Probe) : Connection × ProbeApplied :=
  let current := ticket.round = c.round ∧ c.appliedProbe.all fun s => decide (s < ticket.seq)
  if ¬current ∨ ¬c.active ∨ c.persistPending then (c, .ignored)
  else
    let applied := { c with appliedProbe := some ticket.seq }
    let phase := judgeConnection probe
    if phase.isServable ∧ ¬c.onceServable then
      ({ applied with onceServablePending := true }.fail .localStorage, .persistOnceServable)
    else ({ applied with phase := some phase }, .moved phase)

/-- `local_storage` goes back to `loading` once nothing is pending. -/
def leaveLocalStorage : Connection × Option Round :=
  if c.phase = some (.unavailable .localStorage) then c.startLoading else (c, none)

def confirmOnceServable : Connection × Option Round :=
  if c.onceServablePending then
    { c with onceServable := true, onceServablePending := false }.leaveLocalStorage
  else (c, none)

def confirmGeneration (value : Generation) : Connection × Option Round :=
  { c with gate := (c.gate.confirm value).1 }.leaveLocalStorage

def openCall : Connection × Except Closed (CallId × Generation) :=
  ({ c with gate := c.gate.openCall.1 }, c.gate.openCall.2)

def send (call : CallId) (requestId : String) : Connection × Except Closed Generation :=
  ({ c with gate := (c.gate.send call requestId).1 }, (c.gate.send call requestId).2)

def finishRequest (call : CallId) (requestId : String) : Connection :=
  { c with gate := c.gate.finishRequest call requestId }

def closeCall (call : CallId) : Connection := { c with gate := c.gate.closeCall call }

end

end Connection
end Agent24.Provider
