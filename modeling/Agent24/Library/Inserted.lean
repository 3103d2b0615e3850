import Mathlib.Data.List.Basic

/-! A list with items of some kind put in: what is left when those are taken out again is the list, in order. -/

set_option autoImplicit false
namespace Library

variable {α : Type} {kind : α → Prop}

inductive Inserted (kind : α → Prop) : List α → List α → Prop where
  | nil : Inserted kind [] []
  | keep {a : α} {xs ys : List α} (rest : Inserted kind xs ys) : Inserted kind (a :: xs) (a :: ys)
  | put {a : α} {xs ys : List α} (ofKind : kind a) (rest : Inserted kind xs ys) : Inserted kind xs (a :: ys)

namespace Inserted

theorem refl (xs : List α) : Inserted kind xs xs := by
  induction xs with
  | nil => exact .nil
  | cons a xs ih => exact .keep ih

theorem mono {other : α → Prop} (more : ∀ a, kind a → other a) {xs ys : List α} (inserted : Inserted kind xs ys) :
    Inserted other xs ys := by
  induction inserted with
  | nil => exact .nil
  | keep _ ih => exact .keep ih
  | put ofKind _ ih => exact .put (more _ ofKind) ih

theorem append {xs ys xs' ys' : List α} (front : Inserted kind xs ys) (back : Inserted kind xs' ys') :
    Inserted kind (xs ++ xs') (ys ++ ys') := by
  induction front with
  | nil => exact back
  | keep _ ih => exact .keep ih
  | put ofKind _ ih => exact .put ofKind ih

theorem between {xs ys xs' ys' : List α} {a : α} (front : Inserted kind xs ys) (ofKind : kind a)
    (back : Inserted kind xs' ys') : Inserted kind (xs ++ xs') (ys ++ a :: ys') :=
  front.append (.put ofKind back)

theorem trans {xs ys zs : List α} (first : Inserted kind xs ys)
    (second : Inserted kind ys zs) : Inserted kind xs zs := by
  induction second generalizing xs with
  | nil => exact first
  | keep _ ih =>
    cases first with
    | keep rest => exact .keep (ih rest)
    | put ofKind rest => exact .put ofKind (ih rest)
  | put ofKind _ ih => exact .put ofKind (ih first)

end Inserted

end Library
