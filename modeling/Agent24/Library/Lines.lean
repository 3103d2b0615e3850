import Agent24.Library.Text

/-! Lines of bounded length, read from a stream that comes in pieces of any size. -/

set_option autoImplicit false
namespace Library.Lines
open List

variable {α : Type} [DecidableEq α] (sep : α) (limit : Nat)

/-- What one piece of the stream adds to the line so far. -/
inductive Taken (α : Type) where
  | line (line rest : List α)
  | tooLong
  | more (sofar rest : List α)

def take (sofar piece : List α) : Taken α :=
  let room := limit + 1 - sofar.length
  if room = 0 then .tooLong
  else
    let window := piece.take room
    match window.idxOf? sep with
    | some i => .line (sofar ++ window.take i) (piece.drop (i + 1))
    | none => .more (sofar ++ window) (piece.drop window.length)

inductive Scan (α : Type) where
  | line (line : List α) (rest : List (List α))
  | tooLong
  | ended (sofar : List α)

/-- Pieces are taken until a line is whole. A piece that is not used up has filled the room. -/
def scan (sofar : List α) : List (List α) → Scan α
  | [] => if limit + 1 ≤ sofar.length then .tooLong else .ended sofar
  | piece :: pieces =>
    match take sep limit sofar piece with
    | .tooLong => .tooLong
    | .line line rest => .line line (rest :: pieces)
    | .more sofar [] => scan sofar pieces
    | .more _ (_ :: _) => .tooLong

variable {sep limit}

theorem idxOf?_eq_some {xs : List α} {i : Nat} (found : xs.idxOf? sep = some i) :
    ∃ front rest, xs = front ++ sep :: rest ∧ sep ∉ front ∧ front.length = i := by
  induction xs generalizing i with
  | nil => cases found
  | cons x xs ih =>
    rw [List.idxOf?_cons] at found
    by_cases here : x = sep
    · subst here
      simp only [beq_self_eq_true, if_true, Option.some.injEq] at found
      exact ⟨[], xs, rfl, not_mem_nil, found⟩
    · rw [if_neg (by simpa using here)] at found
      obtain ⟨j, later, rfl⟩ := Option.map_eq_some_iff.mp found
      obtain ⟨front, rest, rfl, clean, rfl⟩ := ih later
      exact ⟨x :: front, rest, rfl, by simpa [Ne.symm here] using clean, rfl⟩

theorem take_cases (sep : α) (limit : Nat) (sofar piece : List α) :
    (limit + 1 ≤ sofar.length ∧ take sep limit sofar piece = .tooLong) ∨
    (∃ front rest, sofar.length + front.length ≤ limit ∧ piece = front ++ sep :: rest ∧ sep ∉ front ∧
      take sep limit sofar piece = .line (sofar ++ front) rest) ∨
    (∃ seen rest, piece = seen ++ rest ∧ sep ∉ seen ∧ sofar.length + seen.length ≤ limit + 1 ∧
      (rest = [] ∨ sofar.length + seen.length = limit + 1) ∧
      take sep limit sofar piece = .more (sofar ++ seen) rest) := by
  by_cases room : limit + 1 - sofar.length = 0
  · exact .inl ⟨by omega, by simp only [take, room, if_true]⟩
  have window_length : (piece.take (limit + 1 - sofar.length)).length = min (limit + 1 - sofar.length) piece.length :=
    length_take
  have parts := take_append_drop (limit + 1 - sofar.length) piece
  cases found : (piece.take (limit + 1 - sofar.length)).idxOf? sep with
  | some i =>
    obtain ⟨front, rest, window, clean, rfl⟩ := idxOf?_eq_some found
    have made : piece = front ++ sep :: (rest ++ piece.drop (limit + 1 - sofar.length)) := by
      rw [← cons_append, ← append_assoc, ← window, parts]
    refine .inr (.inl ⟨front, rest ++ piece.drop (limit + 1 - sofar.length), ?_, made, clean, ?_⟩)
    · rw [window, length_append, length_cons] at window_length
      omega
    · have left_ : piece.drop (front.length + 1) = rest ++ piece.drop (limit + 1 - sofar.length) := by
        conv_lhs => rw [made, append_cons]
        exact drop_left' (by simp)
      simp only [take, if_neg room, found, left_]
      rw [window, take_left']
      rfl
  | none =>
    refine .inr (.inr ⟨piece.take (limit + 1 - sofar.length), piece.drop (limit + 1 - sofar.length), parts.symm,
      List.idxOf?_eq_none_iff.mp found, ?_, ?_, ?_⟩)
    · omega
    · by_cases enough : piece.length ≤ limit + 1 - sofar.length
      · exact .inl (drop_eq_nil_of_le enough)
      · exact .inr (by omega)
    · simp only [take, if_neg room, found]
      congr 1
      rw [window_length]
      by_cases enough : piece.length ≤ limit + 1 - sofar.length
      · rw [Nat.min_eq_right enough, drop_length, drop_eq_nil_of_le enough]
      · rw [Nat.min_eq_left (by omega)]

omit [DecidableEq α] in
theorem length_le_of_clean {front more line rest : List α} (clean : sep ∉ front)
    (stream : front ++ more = line ++ sep :: rest) : front.length ≤ line.length := by
  rcases append_eq_append_iff.mp stream with ⟨tail, rfl, -⟩ | ⟨tail, rfl, behind⟩
  · exact length_append ▸ Nat.le_add_right _ _
  cases tail with
  | nil => exact (append_nil line).symm ▸ Nat.le_refl _
  | cons x tail =>
    rw [← (List.cons.inj behind).1] at clean
    exact absurd (mem_append_right _ mem_cons_self) clean

theorem scan_line {sofar line rest : List α} {pieces : List (List α)} (clean : sep ∉ line)
    (short : line.length ≤ limit) (begun : sep ∉ sofar)
    (stream : sofar ++ pieces.flatten = line ++ sep :: rest) :
    ∃ pieces', scan sep limit sofar pieces = .line line pieces' ∧ pieces'.flatten = rest := by
  have before := length_le_of_clean begun stream
  induction pieces generalizing sofar with
  | nil =>
    have length := congrArg List.length stream
    simp only [flatten_nil, append_nil, length_append, length_cons] at length
    omega
  | cons piece pieces ih =>
    rw [flatten_cons] at stream
    rcases take_cases sep limit sofar piece with
      ⟨full, -⟩ | ⟨front, left_, -, rfl, fresh, made⟩ | ⟨seen, left_, rfl, fresh, -, used, made⟩
    · omega
    · -- the first separator of the stream is the line's
      rw [append_assoc, cons_append, ← append_assoc] at stream
      have fresh_line : sep ∉ sofar ++ front := by
        intro member
        exact (mem_append.mp member).elim begun fresh
      obtain ⟨same, behind⟩ := Text.append_cons_inj_first fresh_line clean stream
      refine ⟨left_ :: pieces, ?_, flatten_cons.trans behind⟩
      simp only [scan, made, same]
    · have fresh_line : sep ∉ sofar ++ seen := by
        intro member
        exact (mem_append.mp member).elim begun fresh
      rw [append_assoc, ← append_assoc] at stream
      have still := length_le_of_clean fresh_line stream
      have room : (sofar ++ seen).length ≠ limit + 1 := by omega
      rw [length_append] at room
      obtain rfl := used.resolve_right room
      obtain ⟨pieces', read, flat⟩ := ih fresh_line stream still
      refine ⟨pieces', ?_, flat⟩
      simp only [scan, made]
      exact read

theorem scan_clean {sofar line : List α} {pieces rest : List (List α)} (begun : sep ∉ sofar)
    (read : scan sep limit sofar pieces = .line line rest) : sep ∉ line ∧ line.length ≤ limit := by
  induction pieces generalizing sofar with
  | nil =>
    simp only [scan] at read
    split at read <;> cases read
  | cons piece pieces ih =>
    rcases take_cases sep limit sofar piece with
      ⟨-, made⟩ | ⟨front, left_, short, -, fresh, made⟩ | ⟨seen, left_, -, fresh, -, -, made⟩
    · simp only [scan, made] at read
      cases read
    · simp only [scan, made] at read
      obtain rfl := (Scan.line.inj read).1
      exact ⟨fun member => (mem_append.mp member).elim begun fresh, by rwa [length_append]⟩
    · have fresh_line : sep ∉ sofar ++ seen := fun member => (mem_append.mp member).elim begun fresh
      cases left_ with
      | nil =>
        simp only [scan, made] at read
        exact ih fresh_line read
      | cons x left_ =>
        simp only [scan, made] at read
        cases read

end Library.Lines
