import Mathlib.Data.List.Basic

/-! Texts whose quotes are closed, and that have a bar only between quotes. -/

set_option autoImplicit false
namespace Library.Quoted

/-- Where in a text one is: outside quotes, between them, or behind a backslash there. -/
inductive Place where
  | outside | inside | escaped

open Place

def closed : Place → List Char → Bool
  | outside, [] => true
  | inside, [] => false
  | escaped, [] => false
  | outside, c :: rest => if c = '"' then closed inside rest else c != '\\' && c != '|' && closed outside rest
  | inside, c :: rest => if c = '"' then closed outside rest else closed (if c = '\\' then escaped else inside) rest
  | escaped, _ :: rest => closed inside rest

-- Its equations, made once for the proofs below.
section
attribute [local simp] closed
end

/-- Read from outside and from inside, the same text is not closed both times. -/
theorem not_both {text : List Char} (out : closed outside text = true)
    (within : closed inside text = true) : False := by
  induction text with
  | nil => cases within
  | cons c rest ih =>
    simp only [closed] at out within
    by_cases quote : c = '"'
    · rw [if_pos quote] at out within
      exact ih within out
    rw [if_neg quote, Bool.and_eq_true, Bool.and_eq_true, bne_iff_ne] at out
    rw [if_neg quote, if_neg out.1.1] at within
    exact ih out.2 within

theorem closed_behind {place : Place} {front rest : List Char} (whole : closed place (front ++ '|' :: rest) = true) :
    closed inside rest = true := by
  induction front generalizing place with
  | nil =>
    cases place with
    | outside => simp [closed] at whole
    | inside => simpa [closed] using whole
    | escaped => exact whole
  | cons c front ih =>
    cases place with
    | outside =>
      rw [List.cons_append, closed] at whole
      split at whole
      · exact ih whole
      · exact ih (Bool.and_eq_true_iff.mp whole).2
    | inside =>
      rw [List.cons_append, closed] at whole
      split at whole
      · exact ih whole
      · exact ih whole
    | escaped => exact ih whole

/-- What stands behind the last bar outside quotes is told by the text. -/
theorem cut {x y s t : List Char} (last : closed outside s = true) (last' : closed outside t = true)
    (same : x ++ '|' :: s = y ++ '|' :: t) : x = y ∧ s = t := by
  rcases List.append_eq_append_iff.mp same with ⟨more, rfl, rest⟩ | ⟨more, rfl, rest⟩
  · cases more with
    | nil => exact ⟨(List.append_nil x).symm, (List.cons.inj rest).2⟩
    | cons c more =>
      rw [(List.cons.inj rest).2] at last
      exact (not_both last' (closed_behind last)).elim
  · cases more with
    | nil => exact ⟨List.append_nil y, (List.cons.inj rest).2.symm⟩
    | cons c more =>
      rw [(List.cons.inj rest).2] at last'
      exact (not_both last (closed_behind last')).elim

/-! ## Texts that leave one where one is -/

def Neutral (place : Place) (text : List Char) : Prop := ∀ rest, closed place (text ++ rest) = closed place rest

section
variable {text : List Char}

theorem Neutral.closed (neutral : Neutral outside text) : Quoted.closed outside text = true := by
  rw [← List.append_nil text, neutral]
  rfl

theorem neutral_nil (place : Place) : Neutral place [] := fun _ => rfl

theorem Neutral.append {place : Place} {front rest : List Char} (first : Neutral place front)
    (second : Neutral place rest) : Neutral place (front ++ rest) := by
  intro behind
  rw [List.append_assoc, first, second]

theorem neutral_outside (plain : ∀ c ∈ text, c ≠ '"' ∧ c ≠ '\\' ∧ c ≠ '|') :
    Neutral outside text := by
  intro rest
  induction text with
  | nil => rfl
  | cons c text ih =>
    obtain ⟨quote, backslash, bar⟩ := plain c (.head _)
    rw [List.cons_append, Quoted.closed, if_neg quote, bne_iff_ne.mpr backslash, bne_iff_ne.mpr bar, Bool.true_and,
      Bool.true_and]
    exact ih fun d member => plain d (.tail _ member)

/-- The same for a text whose characters are looked at one by one. -/
theorem neutral_plain (plain : (text.all fun c => c != '"' && c != '\\' && c != '|') = true) :
    Neutral outside text := by
  refine neutral_outside fun c member => ?_
  simpa [and_assoc] using List.all_eq_true.mp plain c member

theorem neutral_inside (plain : ∀ c ∈ text, c ≠ '"' ∧ c ≠ '\\') : Neutral inside text := by
  intro rest
  induction text with
  | nil => rfl
  | cons c text ih =>
    obtain ⟨quote, backslash⟩ := plain c (.head _)
    rw [List.cons_append, Quoted.closed, if_neg quote, if_neg backslash]
    exact ih fun d member => plain d (.tail _ member)

end

theorem neutral_escape (c : Char) : Neutral inside ['\\', c] := fun _ => rfl

theorem neutral_flatMap {α : Type} {place : Place} {enc : α → List Char} {items : List α}
    (each : ∀ a ∈ items, Neutral place (enc a)) : Neutral place (items.flatMap enc) := by
  induction items with
  | nil => exact neutral_nil place
  | cons a items ih =>
    exact (each a (.head _)).append (ih fun b member => each b (.tail _ member))

theorem neutral_quoted {body : List Char} (neutral : Neutral inside body) : Neutral outside
    ('"' :: body ++ ['"']) := by
  intro rest
  rw [List.cons_append, List.cons_append, Quoted.closed, if_pos rfl, List.append_assoc, neutral]
  rfl

theorem neutral_separated {α : Type} {place : Place} {sep : List Char} {enc : α → List Char} {items : List α}
    (between : Neutral place sep) (each : ∀ a ∈ items, Neutral place (enc a)) :
    Neutral place (sep.intercalate (items.map enc)) := by
  induction items with
  | nil => exact neutral_nil place
  | cons a items ih =>
    have later := ih fun b member => each b (.tail _ member)
    cases items with
    | nil =>
      rw [List.map_singleton, List.intercalate_singleton]
      exact each a (.head _)
    | cons b items =>
      rw [List.map_cons, List.map_cons, List.intercalate_cons_cons]
      exact ((each a (.head _)).append between).append later

end Library.Quoted
