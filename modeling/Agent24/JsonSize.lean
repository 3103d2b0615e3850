import Agent24.Json
import Agent24.Library.Bytes
import Mathlib.Data.Bool.AllAny
import Mathlib.Algebra.Ring.Int.Defs
import Mathlib.Algebra.Order.BigOperators.Group.List

/-! How many bytes a JSON value takes. -/

set_option autoImplicit false
namespace Agent24.Json
open Library List

/-- `serde_json::to_vec(..).len()`; the order of an object's fields does not matter to it. -/
def size (value : Json) : Nat := value.render.utf8ByteSize

def bytes (chars : List Char) : Nat := (chars.map Char.utf8Size).sum

@[simp] theorem bytes_nil : bytes [] = 0 := rfl

@[simp] theorem bytes_cons (c : Char) (rest : List Char) : bytes (c :: rest) = c.utf8Size + bytes rest := by
  simp [bytes]

@[simp] theorem bytes_append (front rest : List Char) : bytes (front ++ rest) = bytes front + bytes rest := by
  simp [bytes]

theorem utf8ByteSize_eq (text : String) : text.utf8ByteSize = bytes text.toList := by
  rw [← Bytes.length_ofText, Bytes.ofText_eq, length_flatMap, bytes]
  congr 1
  exact map_congr_left fun c _ => String.length_utf8EncodeChar c

theorem size_eq (value : Json) : value.size = bytes value.renderChars := by
  rw [size, utf8ByteSize_eq, render, String.toList_ofList]

theorem bytes_renderItems (items : List Json) : bytes (renderItems items) ≤
    (items.map fun item => item.size + 1).sum := by
  induction items with
  | nil => exact Nat.le_refl _
  | cons item rest ih =>
    cases rest with
    | nil =>
      rw [renderItems, ← size_eq]
      simp
    | cons next rest =>
      have comma : ','.utf8Size = 1 := by decide
      have unfolded : renderItems (item :: next :: rest) = renderChars item ++ ',' :: renderItems (next :: rest) := by
        rw [renderItems]
        simp
      rw [unfolded, bytes_append, bytes_cons, comma, ← size_eq, map_cons, sum_cons]
      omega

theorem size_arr (items : List Json) : (arr items).size ≤ 2 + (items.map fun item => item.size + 1).sum := by
  have inner := bytes_renderItems items
  have opens : '['.utf8Size = 1 := by decide
  have closes : ']'.utf8Size = 1 := by decide
  rw [size_eq, renderChars]
  simp only [cons_append, bytes_cons, bytes_append, opens, closes, bytes_nil]
  omega

def fieldBytes (field : String × Json) : Nat := bytes (renderStr field.1) + field.2.size + 2

section
variable {fields : List (String × Json)}

theorem bytes_renderFields (some_ : fields ≠ []) :
    bytes (renderFields fields) + 1 = (fields.map fieldBytes).sum := by
  have colon : ':'.utf8Size = 1 := by decide
  have comma : ','.utf8Size = 1 := by decide
  induction fields with
  | nil => exact absurd rfl some_
  | cons field rest ih =>
    obtain ⟨key, value⟩ := field
    cases rest with
    | nil =>
      rw [renderFields]
      simp only [bytes_append, bytes_cons, colon, ← size_eq, map_cons, map_nil, sum_cons, sum_nil,
        fieldBytes]
      omega
    | cons next rest =>
      have later := ih (cons_ne_nil next rest)
      have unfolded : renderFields ((key, value) :: next :: rest) =
          renderStr key ++ ':' :: renderChars value ++ ',' :: renderFields (next :: rest) := by
        rw [renderFields]
        simp
      rw [unfolded, map_cons, sum_cons, ← later]
      simp only [append_assoc, cons_append, bytes_append, bytes_cons, colon, comma, ← size_eq, fieldBytes]
      omega

theorem size_obj (some_ : fields ≠ []) :
    (obj fields).size = 1 + (fields.map fieldBytes).sum := by
  have inner := bytes_renderFields some_
  have opens : '\x7b'.utf8Size = 1 := by decide
  have closes : '\x7d'.utf8Size = 1 := by decide
  rw [size_eq, renderChars]
  simp only [cons_append, bytes_cons, bytes_append, opens, closes, bytes_nil]
  omega

theorem size_le_obj (field : String × Json) (member : field ∈ fields) :
    field.2.size ≤ (obj fields).size := by
  have whole := single_le_sum (fun _ _ => Nat.zero_le _) _ (mem_map_of_mem (f := fieldBytes) member)
  rw [size_obj (ne_nil_of_mem member)]
  rw [fieldBytes] at whole
  omega

end

theorem bytes_renderItems_some {items : List Json} (some_ : items ≠ []) :
    bytes (renderItems items) + 1 = (items.map fun item => item.size + 1).sum := by
  have comma : ','.utf8Size = 1 := by decide
  induction items with
  | nil => exact absurd rfl some_
  | cons item rest ih =>
    cases rest with
    | nil =>
      rw [renderItems, ← size_eq]
      simp
    | cons next rest =>
      have unfolded : renderItems (item :: next :: rest) = renderChars item ++ ',' :: renderItems (next :: rest) := by
        rw [renderItems]
        simp
      rw [unfolded, bytes_append, bytes_cons, comma, ← size_eq, map_cons, sum_cons,
        ← ih (cons_ne_nil next rest)]
      omega

theorem size_arr_eq (items : List Json) : (arr items).size = 2 + bytes (renderItems items) := by
  have opens : '['.utf8Size = 1 := by decide
  have closes : ']'.utf8Size = 1 := by decide
  rw [size_eq, renderChars]
  simp only [cons_append, bytes_cons, bytes_append, opens, closes, bytes_nil]
  omega

theorem size_le_arr {items : List Json} {item : Json} (member : item ∈ items) : item.size ≤ (arr items).size := by
  have whole := single_le_sum (fun _ _ => Nat.zero_le _) _
    (mem_map_of_mem (f := fun item => item.size + 1) member)
  have inner := bytes_renderItems_some (ne_nil_of_mem member)
  rw [size_arr_eq]
  omega

theorem size_arr_sublist {some_ items : List Json} (fewer : some_.Sublist items) : (arr some_).size ≤
    (arr items).size := by
  rw [size_arr_eq, size_arr_eq]
  cases some_ with
  | nil => exact Nat.le_add_right ..
  | cons item rest =>
    have there : items ≠ [] := fun none_ => by
      rw [none_] at fewer
      cases fewer
    have sums := List.Sublist.sum_le_sum (fewer.map fun item => item.size + 1) fun _ _ => Nat.zero_le _
    rw [← bytes_renderItems_some (cons_ne_nil item rest), ← bytes_renderItems_some there] at sums
    omega

theorem size_obj_two (k l : String) (a b : Json) :
    (obj [(k, a), (l, b)]).size = 5 + bytes (renderStr k) + bytes (renderStr l) + a.size + b.size := by
  have opens : '\x7b'.utf8Size = 1 := by decide
  have closes : '\x7d'.utf8Size = 1 := by decide
  have colon : ':'.utf8Size = 1 := by decide
  have comma : ','.utf8Size = 1 := by decide
  rw [size_eq, size_eq a, size_eq b, renderChars]
  simp only [renderFields, cons_append, bytes_cons, bytes_append, opens, closes, colon, comma, bytes_nil]
  omega

theorem bytes_escapeChar (c : Char) : bytes (escapeChar c) ≤ 6 := by
  have hex (value : Nat) : (hexDigit value).utf8Size = 1 := by
    have listed : ∀ d ∈ ['0', '1', '2', '3', '4', '5', '6', '7', '8', '9', 'a', 'b', 'c', 'd', 'e', 'f'],
        d.utf8Size = 1 := all_iff_forall_prop.mp (by decide)
    rw [hexDigit, getD_eq_getElem?_getD]
    cases found : (['0', '1', '2', '3', '4', '5', '6', '7', '8', '9', 'a', 'b', 'c', 'd', 'e',
        'f'] : List Char)[value]? with
    | none => decide
    | some d => exact listed d (mem_of_getElem? found)
  unfold escapeChar
  repeat' split
  any_goals decide
  · simp only [bytes_cons, bytes_nil, hex]
    decide
  · have small := c.utf8Size_le_four
    simp only [bytes_cons, bytes_nil]
    omega

theorem size_str (text : String) : (str text).size ≤ 2 + 6 * text.toList.length := by
  have inner : ∀ chars : List Char, bytes (chars.flatMap escapeChar) ≤ 6 * chars.length := by
    intro chars
    induction chars with
    | nil => exact Nat.le_refl _
    | cons c =>
      have here := bytes_escapeChar c
      rw [flatMap_cons, bytes_append, length_cons]
      omega
  have whole := inner text.toList
  have quote : '"'.utf8Size = 1 := by decide
  rw [size_eq, renderChars, renderStr]
  simp only [cons_append, bytes_cons, bytes_append, quote, bytes_nil]
  omega

theorem size_int {n : Int} {k : Nat} (positive : 0 ≤ n) (some_ : 0 < k) (small : n < 10 ^ k) : (int n).size ≤ k := by
  obtain ⟨m, rfl⟩ := Int.eq_ofNat_of_zero_le positive
  have ascii : ∀ c ∈ (Nat.repr m).toList, c.utf8Size = 1 := by
    intro c member
    have listed : c ∈ Nat.toDigits 10 m := by simpa [Nat.repr] using member
    have digit : c.isDigit = true := Nat.isDigit_of_mem_toDigits (b := 10) (by omega) (by omega) listed
    rw [Char.isDigit, Bool.and_eq_true] at digit
    have high : c.val ≤ 57 := of_decide_eq_true digit.2
    have low : c.val ≤ 127 := UInt32.le_trans high (by decide : (57 : UInt32) ≤ 127)
    exact if_pos low
  have count : ∀ chars : List Char, (∀ c ∈ chars, c.utf8Size = 1) → bytes chars = chars.length := by
    intro chars
    induction chars with
    | nil => exact fun _ => rfl
    | cons c rest ih =>
      intro all
      rw [bytes_cons, ih fun d member => all d (.tail _ member), all c (.head _), length_cons, Nat.add_comm]
  have digits : (Nat.repr m).length ≤ k := (Nat.length_repr_le_iff some_).mpr (by exact_mod_cast small)
  rw [size_eq, renderChars]
  show bytes (Nat.repr m).toList ≤ k
  rwa [count _ ascii, String.length_toList]

end Agent24.Json
