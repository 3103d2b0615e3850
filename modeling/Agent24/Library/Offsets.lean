import Mathlib.Algebra.Ring.Nat
import Mathlib.Algebra.BigOperators.Group.List.Basic

/-! Byte offsets into text, as its characters' positions in UTF-8. -/

set_option autoImplicit false
namespace Library.Offsets

def size (text : List Char) : Nat := (text.map Char.utf8Size).sum

/-- `char_indices`, from an offset on. -/
def indices (start : Nat) : List Char → List (Nat × Char)
  | [] => []
  | c :: rest => (start, c) :: indices (start + c.utf8Size) rest

/-- `&text[start..stop]`. -/
def slice (text : List Char) (start stop : Nat) : List Char :=
  ((indices 0 text).filter fun p => decide (start ≤ p.1) && decide (p.1 < stop)).map Prod.snd

/-- `is_char_boundary`. -/
def boundary (text : List Char) (at_ : Nat) : Bool :=
  at_ == size text || (indices 0 text).any fun p => p.1 == at_

@[simp] theorem size_nil : size [] = 0 := rfl

@[simp] theorem size_cons (c : Char) (text : List Char) : size (c :: text) = c.utf8Size + size text := by
  simp [size]

@[simp] theorem size_append (front back : List Char) : size (front ++ back) = size front + size back := by
  simp [size]

theorem size_pos {text : List Char} (some_ : text ≠ []) : 0 < size text := by
  cases text with
  | nil => exact absurd rfl some_
  | cons c rest =>
    exact Nat.add_pos_left c.utf8Size_pos _

theorem size_eq_zero {text : List Char} : size text = 0 ↔ text = [] :=
  ⟨fun zero => by_contra fun some_ => (size_pos some_).ne' zero, fun none_ => none_ ▸ rfl⟩

theorem length_le_of_size {a b a' b' : List Char} (same : a ++ b = a' ++ b') (less : size a ≤ size a') :
    a.length ≤ a'.length := by
  by_contra longer
  obtain ⟨more, rfl⟩ : a' <+: a :=
    List.prefix_of_prefix_length_le ⟨b', same.symm⟩ ⟨b, rfl⟩ (Nat.le_of_not_le longer)
  have some_ : more ≠ [] := by
    rintro rfl
    simp at longer
  have := size_pos some_
  rw [size_append] at less
  omega

theorem indices_append (start : Nat) (front back : List Char) :
    indices start (front ++ back) = indices start front ++ indices (start + size front) back := by
  induction front generalizing start with
  | nil => rfl
  | cons c front ih => rw [List.cons_append, indices, ih, indices, size_cons, ← Nat.add_assoc, List.cons_append]

theorem map_indices (start : Nat) (text : List Char) : (indices start text).map Prod.snd = text := by
  induction text generalizing start with
  | nil => rfl
  | cons c text ih => rw [indices, List.map_cons, ih]

theorem indices_bounds {start : Nat} {text : List Char} {p : Nat × Char} (member : p ∈ indices start text) :
    start ≤ p.1 ∧ p.1 < start + size text := by
  induction text generalizing start with
  | nil => cases member
  | cons c text ih =>
    have positive := c.utf8Size_pos
    rw [size_cons]
    rcases List.mem_cons.mp member with rfl | later
    · exact ⟨le_rfl, by simp only; omega⟩
    · have := ih later
      omega

theorem slice_append (front middle back : List Char) :
    slice (front ++ (middle ++ back)) (size front) (size front + size middle) = middle := by
  have before : (indices 0 front).filter (fun p => decide (size front ≤ p.1) && decide (p.1 < size front + size middle)) = [] := by
    rw [List.filter_eq_nil_iff]
    intro p member
    have := (indices_bounds member).2
    simp only [Bool.and_eq_true, decide_eq_true_eq]
    omega
  have here : (indices (0 + size front) middle).filter
      (fun p => decide (size front ≤ p.1) && decide (p.1 < size front + size middle)) = indices (0 + size front) middle := by
    rw [List.filter_eq_self]
    intro p member
    have := indices_bounds member
    simp only [Bool.and_eq_true, decide_eq_true_eq]
    omega
  have after : (indices (0 + size front + size middle) back).filter
      (fun p => decide (size front ≤ p.1) && decide (p.1 < size front + size middle)) = [] := by
    rw [List.filter_eq_nil_iff]
    intro p member
    have := (indices_bounds member).1
    simp only [Bool.and_eq_true, decide_eq_true_eq]
    omega
  rw [slice, indices_append, indices_append, List.filter_append, List.filter_append, before, here, after, List.nil_append,
    List.append_nil, map_indices]

theorem slice_front (front back : List Char) : slice (front ++ back) 0 (size front) = front := by
  have := slice_append [] front back
  rwa [List.nil_append, size_nil, Nat.zero_add] at this

theorem slice_back (front back : List Char) : slice (front ++ back) (size front) (size (front ++ back)) = back := by
  have := slice_append front back []
  rwa [List.append_nil, ← size_append] at this

theorem mem_indices {start : Nat} {text : List Char} {p : Nat × Char} :
    p ∈ indices start text ↔ ∃ front back, text = front ++ p.2 :: back ∧ p.1 = start + size front := by
  induction text generalizing start with
  | nil => simp [indices]
  | cons c text ih =>
    rw [indices, List.mem_cons, ih]
    constructor
    · rintro (rfl | ⟨front, back, rfl, place⟩)
      · exact ⟨[], text, rfl, rfl⟩
      · exact ⟨c :: front, back, rfl, by rw [place, size_cons, Nat.add_assoc]⟩
    · rintro ⟨front, back, whole, place⟩
      cases front with
      | nil =>
        have here := List.cons.inj whole
        exact .inl (Prod.ext place here.1.symm)
      | cons d front =>
        obtain ⟨rfl, rfl⟩ := List.cons.inj whole
        exact .inr ⟨front, back, rfl, by rw [place, size_cons, Nat.add_assoc]⟩

theorem boundary_iff {text : List Char} {at_ : Nat} :
    boundary text at_ = true ↔ ∃ front back, text = front ++ back ∧ size front = at_ := by
  rw [boundary, Bool.or_eq_true, beq_iff_eq, List.any_eq_true]
  constructor
  · rintro (rfl | ⟨p, member, same⟩)
    · exact ⟨text, [], (List.append_nil text).symm, rfl⟩
    · obtain ⟨front, back, whole, place⟩ := mem_indices.mp member
      rw [Nat.zero_add] at place
      exact ⟨front, p.2 :: back, whole, place.symm.trans (beq_iff_eq.mp same)⟩
  · rintro ⟨front, back, rfl, rfl⟩
    cases back with
    | nil => exact .inl (by rw [List.append_nil])
    | cons c back => exact .inr ⟨(size front, c), mem_indices.mpr ⟨front, back, rfl, (Nat.zero_add _).symm⟩, beq_self_eq_true _⟩

end Library.Offsets
