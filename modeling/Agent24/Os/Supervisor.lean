import Agent24.Os.Drain

/-! The supervisor loop of a module: one slot, its supervisors one after the other, and their runs. A step
of a loop is what it does between two awaits; requests, stops, aborts and panics come in between. -/

set_option autoImplicit false
namespace Agent24.Os
open Library

inductive FailureKind where
  | setup | refused | timeout | io | exited
  deriving DecidableEq

structure RunFailure where
  kind : FailureKind
  detail : String
  deriving DecidableEq

def maxDetailBytes : Nat := 512

/-- `RunFailure::new`: a detail that is too long ends in an ellipsis. -/
def RunFailure.new (kind : FailureKind) (detail : String) : RunFailure :=
  ⟨kind, if maxDetailBytes < detail.utf8ByteSize then
    String.ofList (Text.frontWithin (maxDetailBytes - '…'.utf8Size) detail.toList) ++ "…" else detail⟩

def breakerThreshold : Nat := 5

/-- `HEALTHY_RUN`, in nanoseconds. -/
def healthyRun : Nat := 60 * 1_000_000_000

/-- The longest `Duration`, in nanoseconds. -/
def durationMax : Nat := 2 ^ 64 * 1_000_000_000 - 1

inductive Decision where
  | restartAfter (delay : Nat)
  | giveUp (after within : Nat)
  deriving DecidableEq

structure RestartPolicy where
  consecutive : Nat
  firstFailureAt : Option Nat
  base : Nat
  deriving DecidableEq

namespace RestartPolicy

def withBase (base : Nat) : RestartPolicy := ⟨0, none, base⟩

def ran (policy : RestartPolicy) (started ended : Nat) : RestartPolicy :=
  if healthyRun ≤ ended - started then { policy with consecutive := 0, firstFailureAt := none } else policy

/-- `failed`; why a run failed is not looked at. -/
def failed (policy : RestartPolicy) (now : Nat) : Decision × RestartPolicy :=
  let consecutive := policy.consecutive + 1
  let first := policy.firstFailureAt.getD now
  let policy := { policy with consecutive := consecutive, firstFailureAt := some first }
  if breakerThreshold ≤ consecutive then (.giveUp consecutive (now - first), policy)
  else (.restartAfter (min (policy.base * 2 ^ min (consecutive - 1) 16) durationMax), policy)

end RestartPolicy

inductive Status where
  | starting (attempt : Nat) (after : Option RunFailure)
  | running
  | stopping
  | backoff (failures delay : Nat) (last : RunFailure)
  | gaveUp (failures within : Nat) (last : RunFailure)
  | packageChanged (reason : String)
  | stopped
  | stopFailed (error : String)
  | panicked
  | killed
  deriving DecidableEq

structure ModuleProcess where
  id : Nat
  generation : Nat
  permit : Bool

inductive Ending where
  | stopRequested
  | failed (failure : RunFailure) (readyAt : Option Nat) (endedAt : Nat)

inductive Phase where
  | head
  | spawning
  | handshaking (process : ModuleProcess)
  /-- Ready, and `Running` not yet published. -/
  | readied (process : ModuleProcess) (readyAt : Nat)
  | serving (process : ModuleProcess) (readyAt : Nat)
  | draining (process : ModuleProcess)
  | finishing (process : ModuleProcess) (ending : Ending)
  | flushing (ending : Ending) (stopSeen : Bool)
  | backoff
  | checking
  /-- Given up, or the package has changed: only a stop is waited for. -/
  | waiting
  | stopFailed
  /-- The slot is released, and `Stopped` not yet published. -/
  | leaving
  | returned
  | ended

inductive LoopEvent where
  | started
  | spawned (process : Nat)
  | gone (process : Nat)
  | ready
  | published (status : Status)
  /-- A run failed, so long after it became ready, if it did. -/
  | failed (lasted : Option Nat)
  | backedOff (delay : Nat)
  | released
  | stopRequested (drain : Nat)
  deriving DecidableEq

/-- One call of `supervise` that held the slot: its `Slot`, its status and stop channels, and its loop. -/
structure Supervisor where
  base : Nat
  stop : Option Nat
  status : Status
  phase : Phase
  policy : RestartPolicy
  attempt : Nat
  after : Option RunFailure
  mine : Nat
  released : Bool
  unconfirmed : Bool
  log : List LoopEvent

structure Shared where
  held : Bool
  current : Nat
  generations : Nat → Drained
  next : Nat
  processes : Nat

variable (P : Platform)

def Shared.drain (sh : Shared) (generation : Nat) (call : DrainCall) : Shared :=
  { sh with generations := Function.update sh.generations generation (drainStep P (sh.generations generation) call) }

def Shared.newGeneration (sh : Shared) (upstream : Upstream) : Shared :=
  { sh with generations := Function.update sh.generations sh.next (.start upstream), next := sh.next + 1 }

structure Loop where
  shared : Shared
  own : Supervisor

namespace Loop

def note (event : LoopEvent) (l : Loop) : Loop := { l with own := { l.own with log := event :: l.own.log } }

def publish (status : Status) (l : Loop) : Loop := note (.published status) { l with own := { l.own with status := status } }

def goto (phase : Phase) (l : Loop) : Loop := { l with own := { l.own with phase := phase } }

/-- `Slot::install` of a generation just made. -/
def installNew (upstream : Upstream) (l : Loop) : Loop :=
  { shared := { l.shared.newGeneration upstream with current := l.shared.next }
    own := { l.own with mine := l.shared.next } }

def retire (l : Loop) : Loop := { l with shared := l.shared.drain P l.own.mine .revoke }

def release (l : Loop) : Loop :=
  if l.own.released then l
  else note .released ⟨{ l.shared with held := false }, { l.own with released := true }⟩

/-- `Slot::stopped`, up to the status. -/
def leave (l : Loop) : Loop := (l.retire P).release.goto .leaving

/-- `Exit::drop`. -/
def exit (panicking : Bool) (l : Loop) : Loop :=
  let l := l.retire P
  let l := if panicking then l.publish .panicked
    else match l.own.status with
      | .stopped => l
      | .stopFailed _ => l
      | _ => l.publish .killed
  let l := if l.own.unconfirmed then l else l.release
  l.goto .ended

def dropProcess (l : Loop) : Loop :=
  let dropped (process : ModuleProcess) : Loop := { l with shared := l.shared.drain P process.generation .revoke }
  match l.own.phase with
  | .handshaking process => dropped process
  | .readied process _ => dropped process
  | .serving process _ => dropped process
  | .draining process => dropped process
  | .finishing process _ => dropped process
  | _ => l

/-- `finish`, up to its first await: `begin_stop`, then the status. -/
def beginFinish (process : ModuleProcess) (ending : Ending) (l : Loop) : Loop :=
  let permit := process.permit || (l.shared.generations process.generation).generation.revoke.isSome
  let l : Loop := { l with shared := l.shared.drain P process.generation .revoke }
  (l.publish .stopping).goto (.finishing { process with permit := permit } ending)

/-- What `run_loop` does after a run that failed. -/
def afterRun (failure : RunFailure) (readyAt : Option Nat) (endedAt : Nat) (l : Loop) : Loop :=
  let l := l.note (.failed (readyAt.map fun started => endedAt - started))
  let policy := match readyAt with
    | some started => l.own.policy.ran started endedAt
    | none => l.own.policy
  let (decision, policy) := policy.failed endedAt
  let l : Loop := { l with own := { l.own with policy := policy } }
  match decision with
  | .restartAfter delay =>
    let l := (l.installNew .placeholder).publish (.backoff policy.consecutive delay failure)
    let l : Loop := { l with own := { l.own with after := some failure } }
    (l.note (.backedOff delay)).goto .backoff
  | .giveUp after within => ((l.retire P).publish (.gaveUp after within failure)).goto .waiting

end Loop

inductive LoopInput where
  /-- The sockets of the next run: opened, or how that failed. -/
  | opened (failure : Option RunFailure)
  | seesStop
  | spawned (path : String)
  | spawnFailed (failure : RunFailure)
  | handshaken
  /-- An exit, a broken callback, a refused handshake. -/
  | runFailed (failure : RunFailure)
  | published
  | drained
  /-- The group is empty; how the leader was seen to exit while an `io` failure settled. -/
  | gone (exit : Option String)
  | stopFailed (error : String)
  | flushed
  | slept
  | checked (reason : Option String)
  | returns

/-- An `io` failure is an exit, if one shows before the stop. -/
def Ending.settle (exit : Option String) : Ending → Ending
  | .failed failure readyAt endedAt => match failure.kind, exit with
    | .io, some exit => .failed (.new .exited ("the module " ++ exit ++ " (its callback ended first: " ++
        failure.detail ++ ")")) readyAt endedAt
    | _, _ => .failed failure readyAt endedAt
  | ending => ending

open Loop in
/-- `run_loop` and `run_once`, from one await to the next. An input that the phase does not wait for changes
nothing. -/
def loopStep (now : Nat) (input : LoopInput) (l : Loop) : Loop :=
  match l.own.phase, input with
  | .head, .opened failure =>
    let attempt := (l.own.attempt + 1) % 2 ^ 32
    let l : Loop := { l with own := { l.own with attempt := attempt } }
    let l := (l.note .started).publish (.starting attempt l.own.after)
    match failure with
    | some failure => l.afterRun P failure none now
    | none => l.goto .spawning
  | .spawning, .seesStop => if l.own.stop.isSome then l.leave P else l
  | .spawning, .spawnFailed failure => l.afterRun P failure none now
  | .spawning, .spawned path =>
    let process : ModuleProcess := ⟨l.shared.processes, l.shared.next, false⟩
    let l : Loop := ⟨{ l.shared with processes := l.shared.processes + 1 }, { l.own with unconfirmed := true }⟩
    let l := l.note (.spawned process.id)
    -- the stop is looked at again before the generation goes into the slot
    if l.own.stop.isSome then
      beginFinish P process .stopRequested { l with shared := l.shared.newGeneration (.process path) }
    else (l.installNew (.process path)).goto (.handshaking process)
  | .handshaking process, .seesStop => if l.own.stop.isSome then l.beginFinish P process .stopRequested else l
  | .handshaking process, .runFailed failure => l.beginFinish P process (.failed failure none now)
  | .handshaking process, .handshaken =>
    -- the stop channel is held from its check to `ready`
    if l.own.stop.isSome then l.beginFinish P process .stopRequested
    else match (l.shared.generations process.generation).generation.ready.1 with
      | true =>
        let l : Loop := { l with shared := l.shared.drain P process.generation .ready }
        (l.note .ready).goto (.readied process now)
      | false => l.beginFinish P process (.failed
          (.new .io "the generation was revoked during its handshake (not expected)") none now)
  | .readied process readyAt, .published => (l.publish .running).goto (.serving process readyAt)
  | .serving process _, .seesStop =>
    match l.own.stop with
    | none => l
    | some drain =>
      if drain = 0 then l.beginFinish P process .stopRequested
      else match ((l.shared.generations process.generation).generation.beginDrain now drain).1 with
        | true =>
          let l : Loop := { l with shared := l.shared.drain P process.generation (.beginDrain now drain) }
          l.goto (.draining process)
        | false => l.beginFinish P process .stopRequested
  | .serving process readyAt, .runFailed failure => l.beginFinish P process (.failed failure (some readyAt) now)
  | .draining process, .drained => l.beginFinish P process .stopRequested
  | .finishing process ending, .gone exit =>
    if process.permit then
      let l : Loop := { l with own := { l.own with unconfirmed := false } }
      (l.note (.gone process.id)).goto (.flushing (ending.settle exit) l.own.stop.isSome)
    else l
  | .finishing _ _, .stopFailed error =>
    ((l.retire P).publish (.stopFailed ("the module could not be confirmed stopped: " ++ error))).goto .stopFailed
  | .flushing .stopRequested _, .flushed => l.leave P
  | .flushing (.failed _ _ _) true, .flushed => l.leave P
  | .flushing (.failed failure readyAt endedAt) false, .flushed => l.afterRun P failure readyAt endedAt
  | .backoff, .seesStop => if l.own.stop.isSome then l.leave P else l
  | .backoff, .slept => l.goto .checking
  | .checking, .checked none => l.goto .head
  | .checking, .checked (some reason) => ((l.retire P).publish (.packageChanged reason)).goto .waiting
  | .waiting, .seesStop => if l.own.stop.isSome then l.leave P else l
  | .stopFailed, .seesStop => if l.own.stop.isSome then l.exit P false else l
  | .leaving, .published => (l.publish .stopped).goto .returned
  | .returned, .returns => l.exit P false
  | _, _ => l

-- Its equations, made once for all the proofs below.
section
attribute [local simp] loopStep
end

structure Slots where
  shared : Shared
  supervisors : Nat → Option Supervisor
  claims : Nat

/-- A slot that nobody has supervised, with some generation in it. -/
def Slots.start (upstream : Upstream) : Slots :=
  ⟨⟨false, 0, fun _ => .start upstream, 1, 0⟩, fun _ => none, 0⟩

inductive Move where
  | supervise (base : Nat)
  | requestStop (i drain : Nat)
  | go (i now : Nat) (input : LoopInput)
  /-- The handle is dropped, or the runtime shuts down. -/
  | abort (i : Nat)
  | panic (i : Nat)
  | traffic (generation : Nat) (call : DrainCall)

def DrainCall.isTraffic : DrainCall → Bool
  | .ready => false
  | .beginDrain _ _ => false
  | .revoke => false
  | _ => true

/-- `supervise`: the new supervisor's placeholder goes into a slot that nobody holds. -/
def Slots.supervise (w : Slots) (base : Nat) : Option Slots :=
  if w.shared.held then none
  else some {
    shared := { w.shared.newGeneration .placeholder with held := true, current := w.shared.next }
    supervisors := Function.update w.supervisors w.claims (some {
      base := base
      stop := none
      status := .starting 1 none
      phase := .head
      policy := .withBase base
      attempt := 0
      after := none
      mine := w.shared.next
      released := false
      unconfirmed := false
      log := [] })
    claims := w.claims + 1 }

def Slots.change (w : Slots) (i : Nat) (edit : Loop → Loop) : Slots :=
  match w.supervisors i with
  | none => w
  | some own =>
    let l := edit ⟨w.shared, own⟩
    { w with shared := l.shared, supervisors := Function.update w.supervisors i (some l.own) }

/-- The loop is cut off: its process is dropped, then its `Exit`. -/
def cut (panicking : Bool) (l : Loop) : Loop :=
  match l.own.phase with
  | .ended => l
  | _ => (l.dropProcess P).exit P panicking

def slotStep (w : Slots) : Move → Slots
  | .supervise base => (w.supervise base).getD w
  | .requestStop i drain => w.change i fun l =>
      Loop.note (.stopRequested drain) { l with own := { l.own with stop := some drain } }
  | .go i now input => w.change i (loopStep P now input)
  | .abort i => w.change i (cut P false)
  | .panic i => w.change i (cut P true)
  | .traffic generation call =>
    if call.isTraffic then { w with shared := w.shared.drain P generation call } else w

end Agent24.Os
