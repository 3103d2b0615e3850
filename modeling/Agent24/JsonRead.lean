import Agent24.Json
import Agent24.Library.Code
import Agent24.Library.Numeral

/-! Printed JSON stands for one value: a text is read back in one way. -/

set_option autoImplicit false
namespace Agent24.Json
open Library List

def SHORT_ESCAPES : List (Char × Char) :=
  [('"', '"'), ('\\', '\\'), ('n', '\n'), ('r', '\r'), ('t', '\t'), ('b', Char.ofNat 8), ('f', Char.ofNat 12)]

/-- The character that a text begins with, escaped or not, and what comes behind it. -/
def unescape : List Char → Option (Char × List Char)
  | '\\' :: 'u' :: _ :: _ :: high :: low :: rest =>
    ((List.range 32).find? fun n => hexDigit (n / 16) == high && hexDigit (n % 16) == low).map fun n =>
      (Char.ofNat n, rest)
  | '\\' :: c :: rest => (SHORT_ESCAPES.lookup c).map fun plain => (plain, rest)
  | c :: rest => some (c, rest)
  | [] => none

theorem find_control : ∀ k < 32, ((List.range 32).find? fun n =>
    hexDigit (n / 16) == hexDigit (k / 16) && hexDigit (n % 16) == hexDigit (k % 16)) = some k := by
  decide +kernel

theorem unescape_escapeChar (c : Char) (rest : List Char) : unescape (escapeChar c ++ rest) = some (c, rest) := by
  unfold escapeChar
  split_ifs with quote backslash newline return_ tab back form control
  · rw [quote]
    rfl
  · rw [backslash]
    rfl
  · rw [newline]
    rfl
  · rw [return_]
    rfl
  · rw [tab]
    rfl
  · rw [← Char.ofNat_toNat c, back]
    rfl
  · rw [← Char.ofNat_toNat c, form]
    rfl
  · have found := find_control c.toNat control
    simp only [cons_append, nil_append, unescape, found, Option.map_some, Char.ofNat_toNat]
  rw [singleton_append]
  unfold unescape
  split
  · next same => exact absurd (List.cons.inj same).1 backslash
  · next same => exact absurd (List.cons.inj same).1 backslash
  · next same =>
    obtain ⟨rfl, rfl⟩ := List.cons.inj same
    rfl
  · next same => cases same

theorem escapeChar_head (c : Char) : ∃ d rest, escapeChar c = d :: rest ∧ d ≠ '"' := by
  unfold escapeChar
  split_ifs with quote
  all_goals first | exact ⟨_, _, rfl, by decide⟩ | exact ⟨_, _, rfl, quote⟩

theorem renderStr_cut {s t : String} {r r' : List Char} (same : renderStr s ++ r = renderStr t ++ r') :
    s = t ∧ r = r' := by
  unfold renderStr at same
  rw [cons_append, cons_append, append_assoc, append_assoc, cons_append] at same
  obtain ⟨chars, rest⟩ := (Code.Instant.of_read unescape_escapeChar).ended escapeChar_head (List.cons.inj same).2
  exact ⟨String.toList_inj.mp chars, rest⟩

/-! ## Numbers -/

def numberChar (c : Char) : Bool := (Numeral.decimal c).isSome || ['+', '-', '.', 'e', 'E'].contains c

/-- How a float is printed: never as an integer is. -/
def FloatText (text : String) : Prop :=
  (∀ c ∈ text.toList, numberChar c = true) ∧ ∃ c ∈ text.toList, c = '.' ∨ c = 'e'

theorem digit_or_sign_of_mem {c : Char} {n : Int} (member : c ∈ (toString n).toList) :
    (Numeral.decimal c).isSome = true ∨ c = '+' ∨ c = '-' := by
  by_contra other
  rw [not_or, not_or, Bool.not_eq_true, Option.isSome_eq_false_iff, Option.isNone_iff_eq_none] at other
  exact Numeral.not_mem_of_parseSigned other (Numeral.parseSigned_toString (le_refl n) (le_refl n)) member

theorem numberChar_of_mem {c : Char} {n : Int} (member : c ∈ (toString n).toList) : numberChar c = true := by
  rcases digit_or_sign_of_mem member with digit | rfl | rfl
  · rw [numberChar, digit, Bool.true_or]
  · decide
  · decide

theorem not_int_of_floatText {text : String} (printed : FloatText text) (n : Int) :
    (toString n).toList ≠ text.toList := by
  intro same
  obtain ⟨c, member, point⟩ := printed.2
  rw [← same] at member
  rcases point with rfl | rfl
  · exact absurd (digit_or_sign_of_mem member) (by decide)
  · exact absurd (digit_or_sign_of_mem member) (by decide)

/-- What may stand behind a value: nothing that could be part of a number. -/
def Stops (rest : List Char) : Prop := ∀ c ∈ rest.head?, numberChar c = false

/-! ## Values -/

mutual
def floats : Json → List String
  | .float text => [text]
  | .arr items => floatsItems items
  | .obj fields => floatsFields fields
  | _ => []

def floatsItems : List Json → List String
  | [] => []
  | item :: rest => floats item ++ floatsItems rest

def floatsFields : List (String × Json) → List String
  | [] => []
  | (_, value) :: rest => floats value ++ floatsFields rest
end

def Printed (value : Json) : Prop := ∀ text ∈ value.floats, FloatText text

theorem Printed.item {items : List Json} (printed : Printed (.arr items)) {item : Json} (member : item ∈ items) :
    item.Printed := by
  intro text held
  refine printed text ?_
  rw [floats]
  induction items with
  | nil => cases member
  | cons first rest ih =>
    rw [floatsItems, mem_append]
    rcases mem_cons.mp member with rfl | later
    · exact .inl held
    · exact .inr (ih (fun t kept => printed t
        (by rw [floats, floatsItems]; exact mem_append_right _ kept)) later)

theorem Printed.field {fields : List (String × Json)} (printed : Printed (.obj fields)) {field : String × Json}
    (member : field ∈ fields) : field.2.Printed := by
  intro text held
  refine printed text ?_
  rw [floats]
  induction fields with
  | nil => cases member
  | cons first rest ih =>
    rw [floatsFields, mem_append]
    rcases mem_cons.mp member with rfl | later
    · exact .inl held
    · exact .inr (ih (fun t kept => printed t
        (by rw [floats, floatsFields]; exact mem_append_right _ kept)) later)

def renderField (field : String × Json) : List Char := renderStr field.1 ++ ':' :: renderChars field.2

theorem renderItems_eq (items : List Json) : renderItems items = [','].intercalate (items.map renderChars) := by
  induction items with
  | nil => rfl
  | cons item rest ih =>
    cases rest with
    | nil => rw [renderItems, map_singleton, intercalate_singleton]
    | cons next rest =>
      rw [map_cons, map_cons, intercalate_cons_cons, ← map_cons, ← ih, append_assoc,
        singleton_append, renderItems]
      exact fun same => by cases same

theorem renderFields_eq (fields : List (String × Json)) :
    renderFields fields = [','].intercalate (fields.map renderField) := by
  induction fields with
  | nil => rfl
  | cons field rest ih =>
    cases rest with
    | nil => rw [renderFields, map_singleton, intercalate_singleton, renderField]
    | cons next rest =>
      rw [map_cons, map_cons, intercalate_cons_cons, ← map_cons, ← ih, append_assoc,
        singleton_append, renderFields, renderField]
      exact fun same => by cases same

/-- What a value's text begins with tells its kind. -/
inductive Kind where
  | null | bool | number | str | arr | obj
  deriving DecidableEq

def kind : Json → Kind
  | .null => .null
  | .bool _ => .bool
  | .int _ | .float _ => .number
  | .str _ => .str
  | .arr _ => .arr
  | .obj _ => .obj

def kindOf (c : Char) : Kind :=
  if c = 'n' then .null else if c = 't' ∨ c = 'f' then .bool
  else if c = '"' then .str else if c = '[' then .arr else if c = '\x7b' then .obj else .number

theorem kindOf_number {c : Char} (number : numberChar c = true) : kindOf c = .number := by
  unfold kindOf
  split_ifs with null bool str arr obj
  · exact absurd (null ▸ number) (by decide)
  · rcases bool with rfl | rfl <;> exact absurd number (by decide)
  · exact absurd (str ▸ number) (by decide)
  · exact absurd (arr ▸ number) (by decide)
  · exact absurd (obj ▸ number) (by decide)
  · rfl

theorem int_ne_nil (n : Int) : (toString n).toList ≠ [] := by
  intro empty
  have read := Numeral.parseSigned_toString (le_refl n) (le_refl n)
  rw [Numeral.parseSigned, empty] at read
  cases read

theorem renderChars_head {value : Json} (printed : value.Printed) :
    ∃ c rest, value.renderChars = c :: rest ∧ kindOf c = value.kind ∧ c ≠ ']' := by
  have token {text : List Char} (all : ∀ c ∈ text, numberChar c = true) (some_ : text ≠ []) :
      ∃ c rest, text = c :: rest ∧ kindOf c = .number ∧ c ≠ ']' := by
    cases text with
    | nil => exact absurd rfl some_
    | cons c rest =>
      have number := all c (.head _)
      exact ⟨c, rest, rfl, kindOf_number number, fun same => absurd (same ▸ number) (by decide)⟩
  cases value with
  | null => exact ⟨'n', ['u', 'l', 'l'], String.toList_ofList, rfl, by decide⟩
  | bool value =>
    cases value with
    | true => exact ⟨'t', ['r', 'u', 'e'], String.toList_ofList, rfl, by decide⟩
    | false => exact ⟨'f', ['a', 'l', 's', 'e'], String.toList_ofList, rfl, by decide⟩
  | int n => exact token (fun c member => numberChar_of_mem member) (int_ne_nil n)
  | float text =>
    have form : FloatText text := printed text (by simp [floats])
    obtain ⟨c, member, -⟩ := form.2
    exact token form.1 (ne_nil_of_mem member)
  | str text => exact ⟨_, _, rfl, rfl, by decide⟩
  | arr items => exact ⟨_, _, rfl, rfl, by decide⟩
  | obj fields => exact ⟨_, _, rfl, rfl, by decide⟩

theorem kind_eq {a b : Json} (printed : a.Printed) (printed' : b.Printed) {r r' : List Char}
    (same : a.renderChars ++ r = b.renderChars ++ r') : a.kind = b.kind := by
  obtain ⟨c, rest, begins, its, -⟩ := renderChars_head printed
  obtain ⟨d, rest', begins', its', -⟩ := renderChars_head printed'
  rw [begins, begins'] at same
  rw [← its, ← its', (List.cons.inj same).1]

theorem renderField_head (field : String × Json) : ∃ c rest, renderField field = c :: rest ∧ c ≠ '\x7d' :=
  ⟨'"', _, rfl, by decide⟩

/-- A value and what stands behind it are told by the text of both. -/
theorem renderChars_cut {a b : Json} (printed : a.Printed) (printed' : b.Printed) {r r' : List Char}
    (stops : Stops r) (stops' : Stops r') (same : a.renderChars ++ r = b.renderChars ++ r') : a = b ∧ r = r' := by
  induction size : sizeOf a using Nat.strong_induction_on generalizing a b r r' with
  | _ n ih =>
  have kinds := kind_eq printed printed' same
  have ints (n : Int) : ∀ c ∈ (toString n).toList, numberChar c = true := fun c member => numberChar_of_mem member
  have form {text : String} (printed : Printed (.float text)) : FloatText text := printed text (by simp [floats])
  have comma (rest : List Char) : Stops (',' :: rest) := fun c first => Option.some.inj first ▸ by decide
  cases a with
  | null =>
    cases b with
    | null => exact ⟨rfl, append_cancel_left same⟩
    | _ => cases kinds
  | bool value =>
    cases b with
    | bool value' =>
      rw [renderChars, renderChars] at same
      have texts : ("true" : String).toList = ['t', 'r', 'u', 'e'] ∧ "false".toList = ['f', 'a', 'l', 's', 'e'] :=
        ⟨String.toList_ofList, String.toList_ofList⟩
      cases value <;> cases value'
      · exact ⟨rfl, append_cancel_left same⟩
      · rw [if_neg Bool.false_ne_true, if_pos rfl, texts.1, texts.2] at same
        exact absurd (List.cons.inj same).1 (by decide)
      · rw [if_neg Bool.false_ne_true, if_pos rfl, texts.1, texts.2] at same
        exact absurd (List.cons.inj same).1 (by decide)
      · exact ⟨rfl, append_cancel_left same⟩
    | _ => cases kinds
  | int n =>
    cases b with
    | int m =>
      obtain ⟨texts, rest⟩ := Code.token (ints n) (ints m) stops stops' same
      have read := Numeral.parseSigned_toString (min_le_left n m) (le_max_left n m)
      rw [String.toList_inj.mp texts, Numeral.parseSigned_toString (min_le_right n m) (le_max_right n m)] at read
      exact ⟨congrArg Json.int (Option.some.inj read).symm, rest⟩
    | float text =>
      exact absurd (Code.token (ints n) (form printed').1 stops stops' same).1 (not_int_of_floatText
          (form printed') n)
    | _ => cases kinds
  | float text =>
    cases b with
    | int m =>
      exact absurd (Code.token (form printed).1 (ints m) stops stops' same).1.symm (not_int_of_floatText
          (form printed) m)
    | float text' =>
      obtain ⟨texts, rest⟩ := Code.token (form printed).1 (form printed').1 stops stops' same
      exact ⟨congrArg Json.float (String.toList_inj.mp texts), rest⟩
    | _ => cases kinds
  | str text =>
    cases b with
    | str text' =>
      obtain ⟨rfl, rest⟩ := renderStr_cut same
      exact ⟨rfl, rest⟩
    | _ => cases kinds
  | arr items =>
    cases b with
    | arr items' =>
      rw [renderChars, renderChars, cons_append, cons_append, renderItems_eq, renderItems_eq,
        append_assoc, append_assoc] at same
      have whole : sizeOf items < sizeOf (Json.arr items) := by
        rw [Json.arr.sizeOf_spec]
        omega
      have heads : ∀ item ∈ items ++ items', ∃ c rest, item.renderChars = c :: rest ∧ c ≠ ']' := by
        intro item member
        have its : item.Printed := (mem_append.mp member).elim printed.item printed'.item
        obtain ⟨c, rest, begins, -, other⟩ := renderChars_head its
        exact ⟨c, rest, begins, other⟩
      obtain ⟨rfl, rest⟩ := Code.separated (by decide) comma
        (fun rest c first => Option.some.inj first ▸ by decide) heads
        (fun item held item' held' r r' stops stops' same =>
          ih _ (size ▸ Nat.lt_trans (sizeOf_lt_of_mem held) whole) (printed.item held)
            (printed'.item held') stops stops' same rfl) (List.cons.inj same).2
      exact ⟨rfl, rest⟩
    | _ => cases kinds
  | obj fields =>
    cases b with
    | obj fields' =>
      rw [renderChars, renderChars, cons_append, cons_append, renderFields_eq, renderFields_eq,
        append_assoc, append_assoc] at same
      obtain ⟨rfl, rest⟩ := Code.separated (by decide) comma
        (fun rest c first => Option.some.inj first ▸ by decide) (fun field _ => renderField_head field)
        (fun field held field' held' r r' stops stops' same => by
          unfold renderField at same
          rw [append_assoc, append_assoc] at same
          obtain ⟨key, behind⟩ := renderStr_cut same
          have inner : sizeOf field.2 < sizeOf fields :=
            Nat.lt_of_le_of_lt (Nat.le_add_left ..) (sizeOf_lt_of_mem held)
          have whole : sizeOf fields < sizeOf (Json.obj fields) := by
            rw [Json.obj.sizeOf_spec]
            omega
          obtain ⟨value, rest⟩ := ih _ (size ▸ Nat.lt_trans inner whole) (printed.field held)
            (printed'.field held') stops stops' (List.cons.inj behind).2 rfl
          exact ⟨Prod.ext key value, rest⟩) (List.cons.inj same).2
      exact ⟨rfl, rest⟩
    | _ => cases kinds

theorem render_injective {a b : Json} (printed : a.Printed) (printed' : b.Printed) (same : a.render = b.render) :
    a = b := by
  have chars := String.ofList_injective same
  rw [← append_nil a.renderChars, ← append_nil b.renderChars] at chars
  exact (renderChars_cut printed printed' (fun c first => by cases first) (fun c first => by cases first) chars).1

end Agent24.Json
