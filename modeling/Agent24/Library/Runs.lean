import Mathlib.Data.List.Basic
import Mathlib.Data.List.Induction

/-! Runs of a state machine over a list of inputs: invariants and step-wise frame relations. -/

set_option autoImplicit false
namespace Library

section
variable {σ ι : Type} (step : σ → ι → σ)

def run (inputs : List ι) (start : σ) : σ := inputs.foldl step start

@[simp] theorem run_nil (start : σ) : run step [] start = start := rfl

@[simp] theorem run_cons (i : ι) (inputs : List ι) (start : σ) :
    run step (i :: inputs) start = run step inputs (step start i) := rfl

theorem run_append (first second : List ι) (start : σ) :
    run step (first ++ second) start = run step second (run step first start) :=
  List.foldl_append ..

theorem run_invariant (allowed : ι → Prop) (invariant : σ → Prop)
    (keeps : ∀ s i, allowed i → invariant s → invariant (step s i))
    {inputs : List ι} (legal : ∀ i ∈ inputs, allowed i) {start : σ} (holds : invariant start) :
    invariant (run step inputs start) := by
  induction inputs generalizing start with
  | nil => exact holds
  | cons i rest ih =>
    exact ih (fun j member => legal j (List.mem_cons_of_mem i member))
      (keeps start i (legal i (List.mem_cons_self ..)) holds)

theorem run_relates (allowed : ι → Prop) (invariant : σ → Prop) (relates : σ → σ → Prop)
    (refl : ∀ s, relates s s) (trans : ∀ a b c, relates a b → relates b c → relates a c)
    (keeps : ∀ s i, allowed i → invariant s → invariant (step s i))
    (makes : ∀ s i, allowed i → invariant s → relates s (step s i))
    {inputs : List ι} (legal : ∀ i ∈ inputs, allowed i) {start : σ} (holds : invariant start) :
    relates start (run step inputs start) := by
  induction inputs generalizing start with
  | nil => exact refl start
  | cons i rest ih =>
    have now := legal i (List.mem_cons_self ..)
    exact trans _ _ _ (makes start i now holds)
      (ih (fun j member => legal j (List.mem_cons_of_mem i member)) (keeps start i now holds))

/-- Every step of a run meets a condition on its state and its input. -/
def Along (meets : σ → ι → Prop) : List ι → σ → Prop
  | [], _ => True
  | i :: rest, start => meets start i ∧ Along meets rest (step start i)

theorem along_invariant {meets : σ → ι → Prop} (invariant : σ → Prop)
    (keeps : ∀ s i, meets s i → invariant s → invariant (step s i)) {inputs : List ι} {start : σ}
    (along : Along step meets inputs start) (holds : invariant start) : invariant (run step inputs start) := by
  induction inputs generalizing start with
  | nil => exact holds
  | cons i rest ih => exact ih along.2 (keeps start i along.1 holds)

/-- A flag that is raised where a step does not meet the condition, and stays, tells whether one did not. -/
theorem along_iff_flag {meets : σ → ι → Prop} {flag : σ → Prop}
    (raises : ∀ s i, flag (step s i) ↔ flag s ∨ ¬ meets s i) (inputs : List ι) (start : σ) :
    flag (run step inputs start) ↔ flag start ∨ ¬ Along step meets inputs start := by
  induction inputs generalizing start with
  | nil => simp [Along]
  | cons i rest ih => rw [run_cons, ih, raises, Along, not_and_or, or_assoc]

/-- How many inputs of a run change what is seen of the state. -/
def changes {α : Type} [DecidableEq α] (view : σ → α) : List ι → σ → Nat
  | [], _ => 0
  | i :: rest, start => (if view (step start i) = view start then 0 else 1) + changes view rest (step start i)

theorem append_singleton_split {α : Type} {xs earlier later : List α} {x y : α}
    (same : xs ++ [x] = earlier ++ y :: later) :
    (later = [] ∧ xs = earlier ∧ x = y) ∨ ∃ rest, later = rest ++ [x] ∧ xs = earlier ++ y :: rest := by
  induction later using List.reverseRecOn with
  | nil =>
    obtain ⟨front, last⟩ := List.append_inj' same rfl
    exact .inl ⟨rfl, front, List.singleton_inj.mp last⟩
  | append_singleton rest =>
    rw [← List.cons_append, ← List.append_assoc] at same
    obtain ⟨front, final⟩ := List.append_inj' same rfl
    exact .inr ⟨rest, by rw [List.singleton_inj.mp final], front⟩

theorem first_split_unique {α : Type} {kind : α → Bool} {newer newer' older older' : List α} {x x' : α}
    (same : newer ++ x :: older = newer' ++ x' :: older') (before : ∀ y ∈ newer, kind y = false)
    (before' : ∀ y ∈ newer', kind y = false) (here : kind x = true) (here' : kind x' = true) :
    newer = newer' ∧ x = x' ∧ older = older' := by
  induction newer generalizing newer' with
  | nil =>
    cases newer' with
    | nil =>
      obtain ⟨rfl, rfl⟩ := List.cons.inj same
      exact ⟨rfl, rfl, rfl⟩
    | cons y rest =>
      obtain ⟨rfl, -⟩ := List.cons.inj same
      rw [before' x (List.mem_cons_self ..)] at here
      cases here
  | cons y rest ih =>
    cases newer' with
    | nil =>
      obtain ⟨rfl, -⟩ := List.cons.inj same
      rw [before y (List.mem_cons_self ..)] at here'
      cases here'
    | cons y' rest' =>
      obtain ⟨rfl, tail⟩ := List.cons.inj same
      obtain ⟨rfl, rfl, rfl⟩ := ih tail (fun z member => before z (List.mem_cons_of_mem _ member))
        fun z member => before' z (List.mem_cons_of_mem _ member)
      exact ⟨rfl, rfl, rfl⟩

/-- Every entry of a history, the newest first, is right after those before it. -/
def Justified {ε : Type} (right : List ε → ε → Prop) : List ε → Prop
  | [] => True
  | entry :: earlier => right earlier entry ∧ Justified right earlier

theorem Justified.older {ε : Type} {right : List ε → ε → Prop} {later earlier : List ε}
    (justified : Justified right (later ++ earlier)) : Justified right earlier := by
  induction later with
  | nil => exact justified
  | cons first rest ih => exact ih justified.2

theorem Justified.right {ε : Type} {right : List ε → ε → Prop} {later earlier : List ε} {entry : ε}
    (justified : Justified right (later ++ entry :: earlier)) : right earlier entry :=
  justified.older.1

end
end Library
