import Mathlib.Data.Option.Basic

/-! Three-valued logic of SQL expressions: a truth value is known or `NULL`. -/

set_option autoImplicit false
namespace Library.ThreeValued

/-- `none` is `NULL`. -/
abbrev Truth := Option Bool

def known (b : Bool) : Truth := some b

/-- `AND`: a false operand decides, otherwise a `NULL` operand makes the result `NULL`. -/
def and : Truth → Truth → Truth
  | some false, _ => some false
  | _, some false => some false
  | some true, some true => some true
  | _, _ => none

def not : Truth → Truth
  | some b => some (!b)
  | none => none

/-- `COALESCE(t, b)` with a known second argument. -/
def coalesce (t : Truth) (b : Bool) : Bool := t.getD b

/-- A comparison of two nullable operands is `NULL` as soon as one of them is. -/
def compare {α : Type} (holds : α → α → Bool) : Option α → Option α → Truth
  | some a, some b => some (holds a b)
  | _, _ => none

/-- A `WHERE` or `WHEN` clause takes effect only where it is true, not where it is `NULL`. -/
def selects (t : Truth) : Bool := t.getD false

@[simp] theorem coalesce_known (a b : Bool) : coalesce (known a) b = a := rfl
@[simp] theorem coalesce_null (b : Bool) : coalesce none b = b := rfl
@[simp] theorem not_known (b : Bool) : not (known b) = known (!b) := rfl
@[simp] theorem selects_known (b : Bool) : selects (known b) = b := rfl
@[simp] theorem selects_null : selects none = false := rfl

theorem coalesce_and_false (s t : Truth) :
    coalesce (and s t) false = true ↔ coalesce s false = true ∧ coalesce t false = true := by
  rcases s with _ | _ | _ <;> rcases t with _ | _ | _ <;> simp [and, coalesce]

end Library.ThreeValued
