import Mathlib.Data.List.Basic

/-! The first element of a list that meets a condition: finding it and editing it in place. -/

set_option autoImplicit false
namespace Library

section
variable {α : Type} {p : α → Bool} {f : α → α}

/-- The list with its first element that meets `p` edited. -/
def onFirst (p : α → Bool) (f : α → α) : List α → List α
  | [] => []
  | a :: rest => if p a then f a :: rest else a :: onFirst p f rest

-- Its equations, made once for the proofs below.
section
attribute [local simp] onFirst
end

theorem onFirst_split {xs : List α} (meets : xs.any p = true) :
    ∃ front a back, xs = front ++ a :: back ∧ p a = true ∧ (∀ b ∈ front, p b = false) ∧
      onFirst p f xs = front ++ f a :: back := by
  induction xs with
  | nil => cases meets
  | cons a rest ih =>
    by_cases here : p a = true
    · exact ⟨[], a, rest, rfl, here, List.forall_mem_nil _, if_pos here⟩
    have unmet : p a = false := by simpa using here
    rw [List.any_cons, unmet, Bool.false_or] at meets
    obtain ⟨front, b, back, rfl, found, before, edited⟩ := ih meets
    refine ⟨a :: front, b, back, rfl, found, List.forall_mem_cons.mpr ⟨unmet, before⟩, ?_⟩
    rw [onFirst, if_neg here, edited]
    rfl

theorem filter_onFirst {q : α → Bool} (inside : ∀ a, p a = true → q a = true) (keeps : ∀ a, q (f a) = q a) (xs : List α) :
    (onFirst p f xs).filter q = onFirst p f (xs.filter q) := by
  induction xs with
  | nil => rfl
  | cons a rest ih =>
    by_cases here : p a = true
    · simp [onFirst, here, inside a here, keeps]
    · by_cases kept : q a = true <;> simp [onFirst, here, kept, ih]

theorem filter_onFirst_of_not {q : α → Bool} (outside : ∀ a, p a = true → q a = false) (keeps : ∀ a, q (f a) = q a)
    (xs : List α) : (onFirst p f xs).filter q = xs.filter q := by
  induction xs with
  | nil => rfl
  | cons a rest ih =>
    by_cases here : p a = true
    · simp [onFirst, here, outside a here, keeps]
    · by_cases kept : q a = true <;> simp [onFirst, here, kept, ih]

theorem onFirst_eq_map {κ : Type} [DecidableEq κ] {key : α → κ} {k : κ} {xs : List α}
    (distinct : (xs.map key).Nodup) :
    onFirst (fun a => decide (key a = k)) f xs = xs.map fun a => if key a = k then f a else a := by
  induction xs with
  | nil => rfl
  | cons a rest ih =>
    rw [List.map_cons, List.nodup_cons] at distinct
    rw [onFirst, List.map_cons]
    by_cases same : key a = k
    · have absent : ∀ b ∈ rest, key b ≠ k := by
        intro b member other
        exact distinct.1 (List.mem_map.mpr ⟨b, member, other.trans same.symm⟩)
      have unchanged : rest.map (fun b => if key b = k then f b else b) = rest := by
        conv_rhs => rw [← List.map_id rest]
        apply List.map_congr_left
        intro b member
        simp [absent b member]
      simp [same, unchanged]
    · simp [same, ih distinct.2]

theorem map_onFirst {κ : Type} {key : α → κ} (keeps : ∀ a, key (f a) = key a) (xs : List α) :
    (onFirst p f xs).map key = xs.map key := by
  induction xs with
  | nil => rfl
  | cons a rest ih =>
    rw [onFirst]
    split
    · simp [keeps]
    · simp [ih]

theorem find_onFirst {xs : List α} {a : α} (found : xs.find? p = some a) (keeps : ∀ b, p b = true → p (f b) = true) :
    (onFirst p f xs).find? p = some (f a) := by
  induction xs with
  | nil => cases found
  | cons b rest ih =>
    rw [onFirst]
    by_cases meets : p b = true
    · rw [List.find?_cons_of_pos meets] at found
      cases found
      rw [if_pos meets, List.find?_cons_of_pos (keeps _ meets)]
    · rw [List.find?_cons_of_neg meets] at found
      rw [if_neg meets, List.find?_cons_of_neg meets]
      exact ih found

end
end Library
