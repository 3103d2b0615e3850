import Agent24.Json
import Agent24.Library.Bytes
import Agent24.Library.Numeral

/-! JSON values on lines of their own. -/

set_option autoImplicit false
namespace Agent24.Json
open Library

mutual
def Plain : Json → Prop
  | .float text => '\n' ∉ text.toList
  | .arr items => PlainItems items
  | .obj fields => PlainFields fields
  | _ => True

def PlainItems : List Json → Prop
  | [] => True
  | item :: rest => Plain item ∧ PlainItems rest

def PlainFields : List (String × Json) → Prop
  | [] => True
  | (_, value) :: rest => Plain value ∧ PlainFields rest
end

theorem hexDigit_mem (value : Nat) :
    hexDigit value ∈ ['0', '1', '2', '3', '4', '5', '6', '7', '8', '9', 'a', 'b', 'c', 'd', 'e', 'f'] := by
  unfold hexDigit
  rw [List.getD_eq_getElem?_getD]
  cases found : (['0', '1', '2', '3', '4', '5', '6', '7', '8', '9', 'a', 'b', 'c', 'd', 'e', 'f'] : List Char)[value]? with
  | none => exact .head _
  | some c => exact List.mem_of_getElem? found

theorem hexDigit_ne {c : Char}
    (other : c ∉ ['0', '1', '2', '3', '4', '5', '6', '7', '8', '9', 'a', 'b', 'c', 'd', 'e', 'f']) (value : Nat) :
    hexDigit value ≠ c :=
  fun same => other (same ▸ hexDigit_mem value)

theorem newline_not_mem_escapeChar (c : Char) : '\n' ∉ escapeChar c := by
  unfold escapeChar
  repeat' split
  any_goals decide
  · simp only [List.mem_cons, List.not_mem_nil, or_false, not_or]
    exact ⟨by decide, by decide, by decide, by decide, (hexDigit_ne (by decide) _).symm,
      (hexDigit_ne (by decide) _).symm⟩
  · rename_i other _ _ _ _ _
    simpa using Ne.symm other

theorem newline_not_mem_renderStr (value : String) : '\n' ∉ renderStr value := by
  simp only [renderStr, List.cons_append, List.mem_cons, List.mem_append, List.mem_flatMap, List.not_mem_nil, or_false,
    not_or]
  refine ⟨by decide, ?_, by decide⟩
  rintro ⟨c, -, member⟩
  exact newline_not_mem_escapeChar c member

theorem newline_not_mem_toString (value : Int) : '\n' ∉ (toString value).toList :=
  Numeral.not_mem_of_parseSigned (by decide) (Numeral.parseSigned_toString (le_refl value) (le_refl value))

mutual
theorem newline_not_mem_renderChars : ∀ {value : Json}, value.Plain → '\n' ∉ value.renderChars
  | .null, _ => by decide
  | .bool true, _ => by decide
  | .bool false, _ => by decide
  | .int value, _ => newline_not_mem_toString value
  | .float _, plain => plain
  | .str value, _ => newline_not_mem_renderStr value
  | .arr items, plain => by
    have inner := newline_not_mem_renderItems plain
    simpa [renderChars] using inner
  | .obj fields, plain => by
    have inner := newline_not_mem_renderFields plain
    simpa [renderChars] using inner

theorem newline_not_mem_renderItems : ∀ {items : List Json}, PlainItems items → '\n' ∉ renderItems items
  | [], _ => List.not_mem_nil
  | [item], plain => newline_not_mem_renderChars plain.1
  | item :: next :: rest, plain => by
    have here := newline_not_mem_renderChars plain.1
    have behind := newline_not_mem_renderItems plain.2
    simp only [renderItems, List.mem_append, List.mem_cons, not_or]
    exact ⟨here, by decide, behind⟩

theorem newline_not_mem_renderFields :
    ∀ {fields : List (String × Json)}, PlainFields fields → '\n' ∉ renderFields fields
  | [], _ => List.not_mem_nil
  | [(key, value)], plain => by
    have here := newline_not_mem_renderChars plain.1
    simp only [renderFields, List.mem_append, List.mem_cons, not_or]
    exact ⟨newline_not_mem_renderStr key, by decide, here⟩
  | (key, value) :: next :: rest, plain => by
    have here := newline_not_mem_renderChars plain.1
    have behind := newline_not_mem_renderFields plain.2
    simp only [renderFields, List.mem_append, List.mem_cons, not_or]
    exact ⟨⟨newline_not_mem_renderStr key, by decide, here⟩, by decide, behind⟩
end

def newline : UInt8 := 10

def line (value : Json) : List UInt8 := Bytes.ofText value.render ++ [newline]

theorem newline_not_mem_render {value : Json} (plain : value.Plain) : newline ∉ Bytes.ofText value.render := by
  refine Bytes.not_mem_ofText (by decide) fun c member same => ?_
  have ends : c = '\n' := Char.toNat_inj.mp same
  rw [ends, render, String.toList_ofList] at member
  exact newline_not_mem_renderChars plain member

end Agent24.Json
