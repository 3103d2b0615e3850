import Agent24.Library.Table
import Mathlib.Algebra.Ring.Nat
import Mathlib.Data.Finset.Basic
import Mathlib.Order.Fin.Basic

/-! One binding's generation, its admission and its calls in flight. -/

set_option autoImplicit false
namespace Agent24.Provider
open Library

abbrev Word := Fin (2 ^ 64)

instance Word.neZero : @NeZero Nat Zero.ofOfNat0 (2 ^ 64) := ⟨Nat.two_pow_pos 64 |>.ne'⟩

def Word.checkedNext (n : Word) : Option Word :=
  if bound : n.val + 1 < 2 ^ 64 then some ⟨n.val + 1, bound⟩ else none

theorem Word.val_of_checkedNext {n next : Word} (following : n.checkedNext = some next) :
    next.val = n.val + 1 := by
  unfold Word.checkedNext at following
  split at following
  · cases following
    rfl
  · cases following

theorem Word.lt_of_checkedNext {n next : Word} (following : n.checkedNext = some next) : n < next := by
  rw [Fin.lt_def, Word.val_of_checkedNext following]
  exact Nat.lt_succ_self _

abbrev Generation := Word

structure CallId where
  number : Word
  deriving DecidableEq

structure Call where
  id : CallId
  generation : Generation
  requests : Finset String
  invalidated : Bool
  deriving DecidableEq

structure Invalidation where
  toPersist : Option Generation
  aborted : List CallId
  deriving DecidableEq

inductive Closed where
  | closed
  deriving DecidableEq

inductive Dropped where
  | cancelled
  deriving DecidableEq

structure Gate where
  generation : Generation
  pending : Option Generation
  exhausted : Bool
  calls : Table Call.id
  nextCall : Word

namespace Gate

def new (value : Generation) : Gate where
  generation := value
  pending := none
  exhausted := false
  calls := .empty
  nextCall := 0

/-- At start: the value after the last persisted one waits to be persisted. -/
def restored (last : Generation) : Gate :=
  { new last with pending := last.checkedNext, exhausted := last.checkedNext.isNone }

section
variable (g : Gate)

def reported : Generation := g.pending.getD g.generation

def generationPending : Bool := g.pending.isSome || g.exhausted

def admissionOpen : Bool := g.pending.isNone && !g.exhausted

/-- Close admission and mark every call in flight, in one step. -/
def invalidate : Gate × Invalidation :=
  let next := g.reported.checkedNext
  let counted :=
    match next with
    | some value => { g with pending := some value }
    | none => { g with exhausted := true }
  ({ counted with
      calls := g.calls.update (fun c => !c.invalidated) (fun c => { c with invalidated := true }) fun _ => rfl },
    ⟨next, (g.calls.rows.filter fun c => !c.invalidated).map (·.id)⟩)

def confirm (value : Generation) : Gate × Bool :=
  if g.exhausted ∨ g.pending ≠ some value then (g, false)
  else ({ g with generation := value, pending := none, calls := g.calls.deleteWhere (·.invalidated) }, true)

def openCall : Gate × Except Closed (CallId × Generation) :=
  if g.admissionOpen then
    match g.nextCall.checkedNext with
    | none => (g, .error .closed)
    | some next =>
      ({ g with nextCall := next, calls := g.calls.put ⟨⟨g.nextCall⟩, g.generation, ∅, false⟩ },
        .ok (⟨g.nextCall⟩, g.generation))
  else (g, .error .closed)

section
variable (call : CallId)

def edit (requests : Finset String → Finset String) : Gate :=
  { g with
    calls := g.calls.update (fun c => decide (c.id = call))
      (fun c => { c with requests := requests c.requests }) fun _ => rfl }

def send (requestId : String) : Gate × Except Closed Generation :=
  match g.calls.find call with
  | some c => if c.invalidated then (g, .error .closed) else (g.edit call (insert requestId), .ok c.generation)
  | none => (g, .error .closed)

def accept (requestId : String) (echoed : Option Generation) :
    Except Dropped Unit :=
  let live := (g.calls.find call).any fun c => !c.invalidated && decide (requestId ∈ c.requests)
  if live ∧ echoed.all (· = g.generation) then .ok () else .error .cancelled

def finishRequest (requestId : String) : Gate :=
  g.edit call (·.erase requestId)

def mayAppend : Except Dropped Unit :=
  match g.calls.find call with
  | some c => if c.invalidated then .error .cancelled else .ok ()
  | none => .error .cancelled

def closeCall : Gate :=
  { g with calls := g.calls.deleteWhere fun c => decide (c.id = call) }

end

end

section
variable (g : Gate) (call : CallId) (requestId : String)

@[simp] theorem invalidate_generation : g.invalidate.1.generation = g.generation := by
  unfold invalidate
  dsimp only
  split <;> rfl

@[simp] theorem openCall_generation : g.openCall.1.generation = g.generation := by
  unfold openCall
  split
  · split <;> rfl
  · rfl

@[simp] theorem send_generation : (g.send call requestId).1.generation = g.generation := by
  unfold send
  split
  · split <;> rfl
  · rfl

end
end Gate
end Agent24.Provider
