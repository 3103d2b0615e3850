import Agent24.Provider.Replay

/-! The journal: the log's records one at a time, by number, each reported back. -/

set_option autoImplicit false
namespace Agent24.Provider

structure Attempt where
  number : Nat
  deriving DecidableEq

/-- What a report of the write in flight gives back: what it was written for. -/
inductive Report (T : Type) where
  | ignored
  | failed (written : T)
  | durable (written : T)
  deriving DecidableEq

structure Queued (I : Ids) (T : Type) where
  seq : Word
  changes : List (Change I)
  goal : T

structure Journal (I : Ids) (T : Type) where
  queue : List (Queued I T)
  inFlight : Option Attempt
  attempts : Nat
  nextSeq : Word

namespace Journal
variable {I : Ids} {T : Type}

def new (nextSeq : Word) : Journal I T := ⟨[], none, 0, nextSeq⟩

/-- One atomic write after every one pushed before it; none where the number overflows. -/
def push (j : Journal I T) (changes : List (Change I)) (goal : T) : Option (Journal I T) :=
  j.nextSeq.checkedNext.map fun next =>
    { j with nextSeq := next, queue := j.queue ++ [⟨j.nextSeq, changes, goal⟩] }

def append (j : Journal I T) (changes : List (Change I)) (goal : T) : Journal I T :=
  { j with nextSeq := j.nextSeq + 1, queue := j.queue ++ [⟨j.nextSeq, changes, goal⟩] }

def take (j : Journal I T) : Journal I T × Option (Attempt × Record I) :=
  match j.inFlight, j.queue with
  | some _, _ | none, [] => (j, none)
  | none, head :: _ =>
    let attempt : Attempt := ⟨j.attempts + 1⟩
    ({ j with attempts := j.attempts + 1, inFlight := some attempt },
      some (attempt, ⟨head.seq, .changes head.changes⟩))

def written (j : Journal I T) (attempt : Attempt) (outcome : Written) : Journal I T × Report T :=
  if j.inFlight = some attempt then
    match outcome, j.queue with
    | _, [] => ({ j with inFlight := none }, .ignored)
    -- still the next to take
    | .failed, head :: _ => ({ j with inFlight := none }, .failed head.goal)
    | .durable, head :: rest => ({ j with inFlight := none, queue := rest }, .durable head.goal)
  else (j, .ignored)

end Journal
end Agent24.Provider
