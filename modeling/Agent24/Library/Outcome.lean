import Mathlib.Logic.Basic

/-! Postconditions of fallible computations: one predicate on results, one on errors. -/

set_option autoImplicit false
namespace Library

section
variable {ε α β σ : Type}

/-- A result satisfies `post`, an error satisfies `fault`. -/
def Ensures (post : α → Prop) (fault : ε → Prop) : Except ε α → Prop
  | .ok a => post a
  | .error e => fault e

variable {post : α → Prop} {fault : ε → Prop}

@[simp] theorem ensures_ok (a : α) : Ensures post fault (.ok a) ↔ post a := Iff.rfl
@[simp] theorem ensures_error (e : ε) : Ensures post fault (.error e) ↔ fault e := Iff.rfl
@[simp] theorem ensures_pure (a : α) : Ensures post fault (pure a : Except ε α) ↔ post a := Iff.rfl

theorem ok_bind (a : α) (next : α → Except ε β) : (Except.ok a >>= next) = next a := rfl

section
variable {computation : Except ε α}

theorem bind_eq_ok {next : α → Except ε β} {b : β} :
    computation >>= next = .ok b ↔ ∃ a, computation = .ok a ∧ next a = .ok b := by
  cases computation with
  | ok a => exact ⟨fun ok => ⟨a, rfl, ok⟩, fun ⟨_, rfl, ok⟩ => ok⟩
  | error e =>
    constructor
    · intro ok
      cases ok
    · rintro ⟨a, first, -⟩
      cases first

theorem map_eq_ok {f : α → β} {b : β} :
    computation.map f = .ok b ↔ ∃ a, computation = .ok a ∧ f a = b := by
  cases computation <;> simp [Except.map]

theorem Ensures.weaken {stronger : α → Prop} (holds : Ensures stronger fault computation)
    (imp : ∀ a, stronger a → post a) :
    Ensures post fault computation := by
  cases computation with
  | ok a => exact imp a holds
  | error e => exact holds

theorem Ensures.bind {after : β → Prop} {next : α → Except ε β} (first : Ensures post fault computation)
    (rest : ∀ a, post a → Ensures after fault (next a)) :
    Ensures after fault (computation >>= next) := by
  cases computation with
  | ok a => exact rest a first
  | error e => exact first

end

/-- A loop over `items` keeps an invariant that may speak of the items still to come. -/
theorem ensures_foldlM (invariant : List α → σ → Prop) {step : σ → α → Except ε σ}
    (keeps : ∀ a rest s, invariant (a :: rest) s → Ensures (invariant rest) fault (step s a))
    (items : List α) (s : σ) (start : invariant items s) :
    Ensures (invariant []) fault (items.foldlM step s) := by
  induction items generalizing s with
  | nil => exact start
  | cons a rest ih =>
    exact (keeps a rest s start).bind fun next holds => ih next holds

theorem foldlM_keeps (invariant : σ → Prop) {step : σ → α → Except ε σ}
    (keeps : ∀ a s s', invariant s → step s a = .ok s' → invariant s') {items : List α} {s s' : σ}
    (start : invariant s) (done : items.foldlM step s = .ok s') : invariant s' := by
  have kept : Ensures invariant (fun _ => True) (items.foldlM step s) := by
    refine ensures_foldlM (fun _ => invariant) (fun a rest s holds => ?_) items s start
    cases here : step s a with
    | ok next => exact keeps a s next holds here
    | error e => exact trivial
  rw [done] at kept
  exact kept

end
end Library
