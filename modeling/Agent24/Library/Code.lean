import Mathlib.Data.List.Basic

/-! Codes whose words are read off the front of a text, and sequences of words. -/

set_option autoImplicit false
namespace Library.Code
open List

section
variable {α β : Type} {enc : α → List β}

/-- Two texts that begin with words begin with the same word. -/
def Instant (enc : α → List β) : Prop := ∀ ⦃a b : α⦄ ⦃x y : List β⦄, enc a ++ x = enc b ++ y → a = b ∧ x = y

theorem Instant.of_read {read : List β → Option (α × List β)} (reads : ∀ a x, read (enc a ++ x) = some (a, x)) :
    Instant enc := by
  intro a b x y same
  have both := (reads a x).symm.trans ((congrArg read same).trans (reads b y))
  exact Prod.mk.inj (Option.some.inj both)

/-- Words one after another, up to a letter that starts no word. -/
theorem Instant.ended (code : Instant enc) {stop : β} (apart : ∀ a, ∃ c rest, enc a = c :: rest ∧ c ≠ stop)
    {xs ys : List α} {r s : List β} (same : xs.flatMap enc ++ stop :: r = ys.flatMap enc ++ stop :: s) :
    xs = ys ∧ r = s := by
  induction xs generalizing ys with
  | nil =>
    cases ys with
    | nil => exact ⟨rfl, (List.cons.inj same).2⟩
    | cons b ys =>
      obtain ⟨c, rest, word, other⟩ := apart b
      rw [flatMap_cons, word] at same
      exact absurd (List.cons.inj same).1.symm other
  | cons a xs ih =>
    cases ys with
    | nil =>
      obtain ⟨c, rest, word, other⟩ := apart a
      rw [flatMap_cons, word] at same
      exact absurd (List.cons.inj same).1 other
    | cons b ys =>
      rw [flatMap_cons, flatMap_cons, append_assoc, append_assoc] at same
      obtain ⟨rfl, later⟩ := code same
      obtain ⟨rfl, rest⟩ := ih later
      exact ⟨rfl, rest⟩

/-- A word of letters of one kind, up to a letter of another. -/
theorem token {keep : β → Bool} {front front' rest rest' : List β} (all : ∀ c ∈ front, keep c = true)
    (all' : ∀ c ∈ front', keep c = true) (stops : ∀ c ∈ rest.head?, keep c = false)
    (stops' : ∀ c ∈ rest'.head?, keep c = false) (same : front ++ rest = front' ++ rest') :
    front = front' ∧ rest = rest' := by
  have taken {front rest : List β} (all : ∀ c ∈ front, keep c = true) (stops : ∀ c ∈ rest.head?, keep c = false) :
      (front ++ rest).takeWhile keep = front := by
    rw [takeWhile_append_of_pos all]
    cases rest with
    | nil => rw [takeWhile_nil, append_nil]
    | cons c rest => rw [takeWhile_cons_of_neg (by rw [stops c rfl]; decide), append_nil]
  have fronts : front = front' := by rw [← taken all stops, same, taken all' stops']
  subst fronts
  exact ⟨rfl, append_cancel_left same⟩

/-- Words between separators, where each is read off the front of what `Stops` allows behind it. -/
theorem separated {Stops : List β → Prop} {sep stop : β} {more : List β} (differ : sep ≠ stop)
    (sepStops : ∀ r, Stops (sep :: r)) (stopStops : ∀ r, Stops (stop :: r))
    {xs ys : List α} (apart : ∀ a ∈ xs ++ ys, ∃ c rest, enc a = c :: rest ∧ c ≠ stop)
    (cut : ∀ a ∈ xs, ∀ b ∈ ys, ∀ r s, Stops r → Stops s → enc a ++ r = enc b ++ s → a = b ∧ r = s) {r s : List β}
    (same : (sep :: more).intercalate (xs.map enc) ++ stop :: r =
      (sep :: more).intercalate (ys.map enc) ++ stop :: s) : xs = ys ∧ r = s := by
  induction xs generalizing ys with
  | nil =>
    cases ys with
    | nil => exact ⟨rfl, (List.cons.inj same).2⟩
    | cons b ys =>
      obtain ⟨c, rest, word, other⟩ := apart b (.head _)
      rw [map_cons, word, intercalate_cons_cons_left] at same
      exact absurd (List.cons.inj same).1.symm other
  | cons a xs ih =>
    cases ys with
    | nil =>
      obtain ⟨c, rest, word, other⟩ := apart a (.head _)
      rw [map_cons, word, intercalate_cons_cons_left] at same
      exact absurd (List.cons.inj same).1 other
    | cons b ys =>
      have first := cut a (.head _) b (.head _)
      -- what comes behind the first word is a separator or the end
      cases xs with
      | nil =>
        cases ys with
        | nil =>
          simp only [map_singleton, intercalate_singleton] at same
          obtain ⟨rfl, rest⟩ := first _ _ (stopStops r) (stopStops s) same
          exact ⟨rfl, (List.cons.inj rest).2⟩
        | cons b' ys =>
          simp only [map_cons, map_nil, intercalate_singleton, intercalate_cons_cons,
            append_assoc, cons_append] at same
          exact absurd (List.cons.inj (first _ _ (stopStops r) (sepStops _) same).2).1.symm differ
      | cons a' xs =>
        cases ys with
        | nil =>
          simp only [map_cons, map_nil, intercalate_singleton, intercalate_cons_cons,
            append_assoc, cons_append] at same
          exact absurd (List.cons.inj (first _ _ (sepStops _) (stopStops s) same).2).1 differ
        | cons b' ys =>
          simp only [map_cons, intercalate_cons_cons, append_assoc, cons_append] at same
          obtain ⟨rfl, later⟩ := first _ _ (sepStops _) (sepStops _) same
          have inner : ∀ x ∈ (a' :: xs) ++ (b' :: ys), ∃ c rest, enc x = c :: rest ∧ c ≠ stop := fun x member =>
            apart x ((mem_append.mp member).elim (fun held => .tail _ (mem_append_left _ held))
              fun held => .tail _ (mem_append_right _ (.tail _ held)))
          obtain ⟨tails, rest⟩ := ih inner (fun x held y kept => cut x (.tail _ held) y (.tail _ kept))
            (append_cancel_left (List.cons.inj later).2)
          exact ⟨by rw [tails], rest⟩

end
end Library.Code
