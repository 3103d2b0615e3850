import Mathlib.Data.List.Infix

/-! Lists cut at a separator of several items, and with every occurrence of it replaced. -/

set_option autoImplicit false
namespace Library.Pieces

section
variable {α : Type} [DecidableEq α]

/-- The pieces between the separators, taken from the left; so many items of a separator are still to be passed. -/
def splitFrom (sep : List α) : Nat → List α → List (List α)
  | _, [] => [[]]
  | skip + 1, _ :: rest => splitFrom sep skip rest
  | 0, a :: rest =>
    if sep.isPrefixOf (a :: rest) then [] :: splitFrom sep (sep.length - 1) rest
    else
      match splitFrom sep 0 rest with
      | [] => [[a]]
      | piece :: more => (a :: piece) :: more

def split (sep items : List α) : List (List α) := splitFrom sep 0 items

def replace (sep by_ items : List α) : List α := by_.intercalate (split sep items)

def stripSuffix (ends items : List α) : Option (List α) :=
  if ends.isSuffixOf items then some (items.take (items.length - ends.length)) else none

@[simp] theorem stripSuffix_append (front ends : List α) : stripSuffix ends (front ++ ends) = some front := by
  have suffix : ends.isSuffixOf (front ++ ends) = true := List.isSuffixOf_iff_suffix.mpr (List.suffix_append ..)
  rw [stripSuffix, if_pos suffix, List.length_append, Nat.add_sub_cancel, List.take_left]

theorem splitFrom_skip (sep passed rest : List α) : splitFrom sep passed.length (passed ++ rest) =
    splitFrom sep 0 rest := by
  induction passed with
  | nil => rfl
  | cons a passed ih => exact ih

variable {mark : α} {tail : List α}

theorem split_cons {a : α} (other : a ≠ mark) {rest piece : List α} {more : List (List α)}
    (later : split (mark :: tail) rest = piece :: more) :
    split (mark :: tail) (a :: rest) = (a :: piece) :: more := by
  have no_match : ¬ (mark :: tail).isPrefixOf (a :: rest) = true := by
    rw [List.isPrefixOf_iff_prefix, List.cons_prefix_cons]
    exact fun starts => other starts.1.symm
  unfold split at later ⊢
  rw [splitFrom, if_neg no_match, later]

theorem split_append {front : List α} (clean : mark ∉ front) (rest : List α) :
    split (mark :: tail) (front ++ (mark :: tail ++ rest)) = front :: split (mark :: tail) rest := by
  induction front with
  | nil =>
    have found : (mark :: tail).isPrefixOf (mark :: (tail ++ rest)) = true :=
      List.isPrefixOf_iff_prefix.mpr (List.prefix_append (mark :: tail) rest)
    have passed := splitFrom_skip (mark :: tail) tail rest
    rw [List.nil_append, List.cons_append, split, splitFrom, if_pos found, List.length_cons, Nat.add_sub_cancel,
      passed, split]
  | cons a front ih =>
    rw [List.mem_cons, not_or] at clean
    exact split_cons (Ne.symm clean.1) (ih clean.2)

theorem split_clean {items : List α} (clean : mark ∉ items) : split (mark :: tail) items = [items] := by
  induction items with
  | nil => rfl
  | cons a items ih =>
    rw [List.mem_cons, not_or] at clean
    exact split_cons (Ne.symm clean.1) (ih clean.2)

theorem split_entries {front : List α} {entries : List (List α)} (clean : mark ∉ front)
    (each : ∀ entry ∈ entries, mark ∉ entry) :
    split (mark :: tail) (front ++ entries.flatMap fun entry => mark :: tail ++ entry) = front :: entries := by
  induction entries generalizing front with
  | nil => rw [List.flatMap_nil, List.append_nil, split_clean clean]
  | cons entry entries ih =>
    rw [List.forall_mem_cons] at each
    rw [List.flatMap_cons, List.append_assoc, split_append clean, ih each.1 each.2]

end

example : split [1, 2] [5, 1, 2, 6, 1, 1, 2] = [[5], [6, 1], []] := by decide

end Library.Pieces
