import Mathlib.Data.List.Basic

/-! Reading part by part: each part comes with the cursor of the next one,
    and the reader calls until there is none. -/

set_option autoImplicit false
namespace Library.Follow
variable {ε γ π κ α β : Type}

inductive Ending (ε : Type) where
  | done
  | refused (e : ε)
  | cut

section
variable (cursor : π → Option γ) (call : Nat → Option γ → Except ε π)

/-- At most so many calls, from the `k`-th on. -/
def follow : Nat → Nat → Option γ → List π × Ending ε
  | 0, _, _ => ([], .cut)
  | n + 1, k, c =>
    match call k c with
    | .error e => ([], .refused e)
    | .ok part =>
      match cursor part with
      | none => ([part], .done)
      | some c =>
        let later := follow n (k + 1) (some c)
        (part :: later.1, later.2)

end

/-- What a call from a place may come to: the last part, a part and the place after it, or a refusal. -/
structure Answers (ε π κ : Type) where
  last : κ → π → Prop
  next : κ → π → κ → Prop
  refuses : κ → ε → Prop

inductive Walk (answers : Answers ε π κ) : κ → List π → Ending ε → Prop where
  | done {p : κ} {part : π} (last : answers.last p part) : Walk answers p [part] .done
  | refused {p : κ} {e : ε} (refuses : answers.refuses p e) : Walk answers p [] (.refused e)
  | more {p q : κ} {part : π} {parts : List π} {ending : Ending ε} (next : answers.next p part q)
      (later : Walk answers q parts ending) : Walk answers p (part :: parts) ending

structure Serves (cursor : π → Option γ) (call : Nat → Option γ → Except ε π) (names : Nat → Option γ → κ → Prop)
    (answers : Answers ε π κ) : Prop where
  given : ∀ {k c p part}, names k c p → call k c = .ok part → cursor part = none → answers.last p part
  more : ∀ {k c p part c'}, names k c p → call k c = .ok part → cursor part = some c' →
    ∃ q, names (k + 1) (some c') q ∧ answers.next p part q
  refuses : ∀ {k c p e}, names k c p → call k c = .error e → answers.refuses p e

variable {cursor : π → Option γ} {call : Nat → Option γ → Except ε π} {names : Nat → Option γ → κ → Prop}
  {answers : Answers ε π κ}

theorem Serves.walk (serves : Serves cursor call names answers) (rank : κ → Nat)
    (down : ∀ {p part q}, answers.next p part q → rank q < rank p) {n k : Nat} {c : Option γ} {p : κ}
    (named : names k c p) (enough : rank p < n) :
    Walk answers p (follow cursor call n k c).1 (follow cursor call n k c).2 := by
  induction n generalizing k c p with
  | zero => omega
  | succ n ih =>
    rw [follow]
    cases answer : call k c with
    | error e => exact .refused (serves.refuses named answer)
    | ok part =>
      cases on : cursor part with
      | none =>
        simp only [on]
        exact .done (serves.given named answer on)
      | some c' =>
        simp only [on]
        obtain ⟨q, named', next⟩ := serves.more named answer on
        exact .more next (ih named' (by have := down next; omega))

/-- The parts of a reading hold what is left from its place, and tell what is due there, up to where it was refused. -/
theorem Walk.reads (rest : κ → List α) (items : π → List α) (due : κ → β → Prop) (told : π → β → Prop)
    (last : ∀ {p part}, answers.last p part → rest p = items part ∧ ∀ x, due p x → told part x)
    (next : ∀ {p part q}, answers.next p part q →
      rest p = items part ++ rest q ∧ ∀ x, due p x → told part x ∨ due q x)
    {p : κ} {parts : List π} {ending : Ending ε} (walk : Walk answers p parts ending) :
    (ending = .done ∧ rest p = parts.flatMap items ∧ ∀ x, due p x → ∃ part ∈ parts, told part x) ∨
      ∃ e q, ending = .refused e ∧ answers.refuses q e ∧ rest p = parts.flatMap items ++ rest q ∧
        ∀ x, due p x → (∃ part ∈ parts, told part x) ∨ due q x := by
  induction walk with
  | @done p part given =>
    obtain ⟨held, tells⟩ := last given
    refine .inl ⟨rfl, by rw [List.flatMap_singleton, held], fun x owed => ⟨part, List.mem_singleton.mpr rfl,
        tells x owed⟩⟩
  | @refused p e refuses => exact .inr ⟨e, p, rfl, refuses, rfl, fun x owed => .inr owed⟩
  | @more p q part parts ending given later ih =>
    obtain ⟨held, tells⟩ := next given
    rw [List.flatMap_cons, held]
    rcases ih with ⟨rfl, same, all⟩ | ⟨e, q', rfl, refuses, same, all⟩
    · refine .inl ⟨rfl, by rw [same], fun x owed => ?_⟩
      rcases tells x owed with here | still
      · exact ⟨part, List.mem_cons_self, here⟩
      · obtain ⟨part', member, there⟩ := all x still
        exact ⟨part', List.mem_cons_of_mem _ member, there⟩
    · refine .inr ⟨e, q', rfl, refuses, by rw [same, List.append_assoc], fun x owed => ?_⟩
      rcases tells x owed with here | still
      · exact .inl ⟨part, List.mem_cons_self, here⟩
      rcases all x still with ⟨part', member, there⟩ | left
      · exact .inl ⟨part', List.mem_cons_of_mem _ member, there⟩
      · exact .inr left

theorem Walk.each {good : π → Prop} (last : ∀ {p part}, answers.last p part → good part)
    (next : ∀ {p part q}, answers.next p part q → good part) {p : κ} {parts : List π} {ending : Ending ε}
    (walk : Walk answers p parts ending) : ∀ part ∈ parts, good part := by
  induction walk with
  | done given => exact List.forall_mem_singleton.mpr (last given)
  | refused => exact fun part member => absurd member List.not_mem_nil
  | more given later ih => exact List.forall_mem_cons.mpr ⟨next given, ih⟩

end Library.Follow
