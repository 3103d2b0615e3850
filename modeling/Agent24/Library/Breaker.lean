import Mathlib.Data.List.Induction

/-! A circuit breaker: so many failures with no success between them trip it, and a reset closes it. -/

set_option autoImplicit false
namespace Library

inductive Signal where
  | failure | success | reset
  deriving DecidableEq

structure Breaker where
  failures : Nat
  tripped : Bool

namespace Breaker
variable (limit : Nat)

def closed : Breaker := ⟨0, false⟩

def signal (b : Breaker) : Signal → Breaker
  | .failure => ⟨b.failures + 1, b.tripped || decide (limit ≤ b.failures + 1)⟩
  | .success => ⟨0, b.tripped⟩
  | .reset => closed

def after (signals : List Signal) : Breaker := signals.foldl (signal limit) closed

/-- How often a signal trips the breaker that stands at `b`. -/
def tripsFrom (b : Breaker) : List Signal → Nat
  | [] => 0
  | x :: rest =>
    let next := signal limit b x
    (if !b.tripped && next.tripped then 1 else 0) + tripsFrom next rest

def trips (signals : List Signal) : Nat := tripsFrom limit closed signals

def sinceLast (signals : List Signal) : Nat := (signals.reverse.takeWhile (· = .failure)).length

variable {limit} {signals more : List Signal} {x : Signal}

theorem after_append_list : after limit (signals ++ more) = more.foldl (signal limit) (after limit signals) :=
  List.foldl_append

theorem after_append : after limit (signals ++ [x]) = signal limit (after limit signals) x := after_append_list

theorem sinceLast_append :
    sinceLast (signals ++ [x]) = if x = .failure then sinceLast signals + 1 else 0 := by
  simp only [sinceLast, List.reverse_append, List.reverse_singleton, List.singleton_append,
    List.takeWhile_cons]
  split <;> simp_all

theorem after_failures : (after limit signals).failures = sinceLast signals := by
  induction signals using List.reverseRecOn with
  | nil => rfl
  | append_singleton signals x ih =>
    rw [after_append, sinceLast_append]
    cases x <;> simp [signal, ih, closed]

theorem closed_below (positive : 0 < limit) (standing : (after limit signals).tripped = false) :
    sinceLast signals < limit := by
  induction signals using List.reverseRecOn with
  | nil => exact positive
  | append_singleton signals x ih =>
    rw [after_append] at standing
    rw [sinceLast_append]
    cases x with
    | failure =>
      simp only [signal, Bool.or_eq_false_iff, decide_eq_false_iff_not, Nat.not_le, after_failures] at standing
      simpa using standing.2
    | success => simpa using positive
    | reset => simpa using positive

theorem trips_iff (positive : 0 < limit) (standing : (after limit signals).tripped = false) :
    (after limit (signals ++ [x])).tripped = true ↔ sinceLast (signals ++ [x]) = limit := by
  have below := closed_below positive standing
  rw [after_append, sinceLast_append]
  cases x with
  | failure =>
    simp only [signal, standing, Bool.false_or, decide_eq_true_eq, after_failures, if_true]
    omega
  | success =>
    simp only [signal, standing, Bool.false_eq_true, reduceCtorEq, if_false, false_iff]
    omega
  | reset =>
    simp only [signal, closed, Bool.false_eq_true, reduceCtorEq, if_false, false_iff]
    omega

theorem trips_iff_short (positive : 0 < limit) (standing : (after limit signals).tripped = false)
    (short : more.length ≤ 1) :
    (after limit (signals ++ more)).tripped = true ↔ sinceLast (signals ++ more) = limit := by
  match more, short with
  | [], _ =>
    rw [List.append_nil, standing]
    exact ⟨nofun, fun full => absurd full (Nat.ne_of_lt (closed_below positive standing))⟩
  | [x], _ => exact trips_iff positive standing

theorem tripsFrom_short {b : Breaker} (short : more.length ≤ 1) :
    tripsFrom limit b more = if !b.tripped && (more.foldl (signal limit) b).tripped then 1 else 0 := by
  match more, short with
  | [], _ => cases tripped : b.tripped <;> simp [tripsFrom, tripped]
  | [x], _ => rfl

theorem tripsFrom_append {b : Breaker} :
    tripsFrom limit b (signals ++ more) =
      tripsFrom limit b signals + tripsFrom limit (signals.foldl (signal limit) b) more := by
  induction signals generalizing b with
  | nil => simp [tripsFrom]
  | cons y rest ih =>
    simp only [List.cons_append, tripsFrom, ih, List.foldl_cons]
    exact (Nat.add_assoc ..).symm

theorem trips_append :
    trips limit (signals ++ more) = trips limit signals + tripsFrom limit (after limit signals) more :=
  tripsFrom_append

end Breaker
end Library
