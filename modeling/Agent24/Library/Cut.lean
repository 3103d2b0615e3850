import Agent24.Library.Lines

/-! The pieces of a list that a separator ends, and what is left after the last of them. -/

set_option autoImplicit false
namespace Library.Cut
open Library.Lines

variable {α : Type} [DecidableEq α]

def cut (sep : α) : List α → List (List α) × List α
  | [] => ([], [])
  | a :: rest =>
    let pieces := cut sep rest
    if a = sep then ([] :: pieces.1, pieces.2)
    else
      match pieces.1 with
      | [] => ([], a :: pieces.2)
      | piece :: more => ((a :: piece) :: more, pieces.2)

variable {sep : α}

theorem cut_rest {rest : List α} (clean : sep ∉ rest) : cut sep rest = ([], rest) := by
  induction rest with
  | nil => rfl
  | cons a rest ih =>
    have apart : a ≠ sep := fun same => clean (same ▸ List.mem_cons_self)
    rw [cut, ih fun member => clean (List.mem_cons_of_mem a member)]
    exact if_neg apart

theorem cut_piece {piece : List α} (clean : sep ∉ piece) (rest : List α) :
    cut sep (piece ++ sep :: rest) = (piece :: (cut sep rest).1, (cut sep rest).2) := by
  induction piece with
  | nil => simp [cut]
  | cons a piece ih =>
    have apart : a ≠ sep := fun same => clean (same ▸ List.mem_cons_self)
    rw [List.cons_append, cut, ih fun member => clean (List.mem_cons_of_mem a member)]
    exact if_neg apart

theorem clean_or_piece (sep : α) (xs : List α) :
    sep ∉ xs ∨ ∃ piece rest, xs = piece ++ sep :: rest ∧ sep ∉ piece := by
  by_cases ends : sep ∈ xs
  · exact .inr (List.eq_append_cons_of_mem ends)
  · exact .inl ends

theorem cut_append (sep : α) (xs ys : List α) :
    cut sep (xs ++ ys) =
      ((cut sep xs).1 ++ (cut sep ((cut sep xs).2 ++ ys)).1, (cut sep ((cut sep xs).2 ++ ys)).2) := by
  rcases clean_or_piece sep xs with clean | ⟨piece, rest, rfl, clean⟩
  · rw [cut_rest clean, List.nil_append]
  · rw [List.append_assoc, List.cons_append, cut_piece clean, cut_piece clean, cut_append sep rest ys,
      List.cons_append]
termination_by xs.length
decreasing_by
  subst_vars
  rw [List.length_append, List.length_cons]
  omega

theorem cut_rest_clean (sep : α) (xs : List α) : sep ∉ (cut sep xs).2 := by
  rcases clean_or_piece sep xs with clean | ⟨piece, rest, rfl, clean⟩
  · rwa [cut_rest clean]
  · rw [cut_piece clean]
    exact cut_rest_clean sep rest
termination_by xs.length
decreasing_by
  subst_vars
  rw [List.length_append, List.length_cons]
  omega

theorem cut_suffix (sep : α) (xs : List α) : (cut sep xs).2 <:+ xs := by
  rcases clean_or_piece sep xs with clean | ⟨piece, rest, rfl, clean⟩
  · exact ⟨[], by rw [cut_rest clean, List.nil_append]⟩
  · rw [cut_piece clean]
    exact (cut_suffix sep rest).trans ⟨piece ++ [sep], by simp⟩
termination_by xs.length
decreasing_by
  subst_vars
  rw [List.length_append, List.length_cons]
  omega

end Library.Cut
