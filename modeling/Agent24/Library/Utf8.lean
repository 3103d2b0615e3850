import Agent24.Library.Bytes

/-! Reading UTF-8 back: a text's bytes are read as that text,
    and where a character's bytes stand the character does. -/

set_option autoImplicit false
namespace Library.Utf8
open List

def read (bytes : List UInt8) : Option String := String.fromUTF8? ⟨bytes.toArray⟩

theorem read_ofText (text : String) : read (Bytes.ofText text) = some text := by
  have valid : ByteArray.mk (Bytes.ofText text).toArray = text.toByteArray := by
    rw [Bytes.ofText, Array.toArray_toList]
  rw [read, valid, String.fromUTF8?, dif_pos text.isValidUTF8]
  rfl

theorem eq_of_read {bytes : List UInt8} {text : String}
    (found : read bytes = some text) : bytes = Bytes.ofText text := by
  unfold read String.fromUTF8? at found
  split at found
  · cases found
    rfl
  · cases found

theorem char_unique {c d : Char} {x y : List UInt8}
    (same : String.utf8EncodeChar c ++ x = String.utf8EncodeChar d ++ y) : c = d := by
  have read (c : Char) (x : List UInt8) :
      ByteArray.utf8DecodeChar? (String.utf8EncodeChar c ++ x).toByteArray 0 = some c := by
    have found := ByteArray.utf8DecodeChar?_utf8EncodeChar_append (b := x.toByteArray) (c := c)
    rwa [← toByteArray_append] at found
  have first := read c x
  rw [same, read d y] at first
  exact (Option.some.inj first).symm

/-- The bytes of a character stand in a text's bytes only where the character stands in the text. -/
theorem mem_of_infix {c : Char} {chars : List Char} {front back : List UInt8}
    (there : chars.flatMap String.utf8EncodeChar = front ++ String.utf8EncodeChar c ++ back) : c ∈ chars := by
  induction chars generalizing front with
  | nil =>
    have sizes := congrArg List.length there
    have some_ := String.length_utf8EncodeChar c
    have positive := c.utf8Size_pos
    simp only [flatMap_nil, length_nil, length_append] at sizes
    omega
  | cons d rest ih =>
    rw [flatMap_cons, append_assoc] at there
    rcases append_eq_append_iff.mp there with ⟨more, split, later⟩ | ⟨more, split, later⟩
    · -- the character stands behind the first one
      rw [← append_assoc] at later
      exact mem_cons_of_mem _ (ih later)
    cases front with
    | nil =>
      rw [nil_append] at split
      rw [← split] at later
      exact char_unique later ▸ mem_cons_self ..
    | cons b front =>
      cases more with
      | nil =>
        exact mem_cons_of_mem _ (@ih [] (by rw [nil_append]; exact later.symm))
      | cons m more =>
        -- no byte but the first of a character begins one
        exfalso
        have first := UInt8.isUTF8FirstByte_getElem_zero_utf8EncodeChar (c := c)
        cases encoded : String.utf8EncodeChar c with
        | nil =>
          have some_ := String.length_utf8EncodeChar c
          have positive := c.utf8Size_pos
          rw [encoded, length_nil] at some_
          omega
        | cons lead tail =>
          simp only [encoded, getElem_cons_zero] at first
          rw [encoded, cons_append, cons_append] at later
          obtain ⟨rfl, -⟩ := List.cons.inj later
          have inside : front.length + 1 < (String.utf8EncodeChar d).length := by
            rw [split]
            simp
          have at_ := @UInt8.isUTF8FirstByte_getElem_utf8EncodeChar d (front.length + 1) inside
          simp only [split, cons_append, getElem_cons_succ, getElem_append_right (Nat.le_refl _),
            Nat.sub_self, getElem_cons_zero] at at_
          exact absurd (at_.mp first) (Nat.succ_ne_zero _)

end Library.Utf8
