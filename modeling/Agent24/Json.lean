import Agent24.Library.Text

/-! JSON values as `serde_json` holds and prints them. -/

set_option autoImplicit false
namespace Agent24

/-- `serde_json::Value`. The fields of an object are listed in key order, as its map keeps them. -/
inductive Json where
  | null
  | bool (value : Bool)
  | int (value : Int)
  | float (text : String)
  | str (value : String)
  | arr (items : List Json)
  | obj (fields : List (String × Json))

namespace Json

mutual
def same : Json → Json → Bool
  | .null, .null => true
  | .bool a, .bool b => a == b
  | .int a, .int b => a == b
  | .float a, .float b => a == b
  | .str a, .str b => a == b
  | .arr a, .arr b => sameItems a b
  | .obj a, .obj b => sameFields a b
  | _, _ => false

def sameItems : List Json → List Json → Bool
  | [], [] => true
  | a :: as, b :: bs => same a b && sameItems as bs
  | _, _ => false

def sameFields : List (String × Json) → List (String × Json) → Bool
  | [], [] => true
  | (k, a) :: as, (l, b) :: bs => k == l && same a b && sameFields as bs
  | _, _ => false
end

mutual
theorem same_iff (a b : Json) : same a b = true ↔ a = b := by
  cases a <;> cases b <;> simp [same, sameItems_iff, sameFields_iff]

theorem sameItems_iff (a b : List Json) : sameItems a b = true ↔ a = b := by
  cases a with
  | nil => cases b <;> simp [sameItems]
  | cons x xs => cases b <;> simp [sameItems, same_iff, sameItems_iff]

theorem sameFields_iff (a b : List (String × Json)) : sameFields a b = true ↔ a = b := by
  cases a with
  | nil => cases b <;> simp [sameFields]
  | cons x xs =>
    obtain ⟨k, x⟩ := x
    cases b with
    | nil => simp [sameFields]
    | cons y ys =>
      obtain ⟨l, y⟩ := y
      simp [sameFields, same_iff, sameFields_iff]
end

instance : DecidableEq Json := fun a b => decidable_of_iff (same a b = true) (same_iff a b)

def strs (items : List String) : Json := .arr (items.map .str)

def asStr? : Json → Option String
  | .str value => some value
  | _ => none

def asArray? : Json → Option (List Json)
  | .arr items => some items
  | _ => none

def asBool? : Json → Option Bool
  | .bool value => some value
  | _ => none

/-- `Value::get` with a key. -/
def get? (key : String) : Json → Option Json
  | .obj fields => (fields.find? fun field => field.1 == key).map Prod.snd
  | _ => none

def set (object : Json) (key : String) (value : Json) : Json :=
  match object with
  | .obj fields => .obj (fields.map fun field => if field.1 == key then (key, value) else field)
  | other => other

@[simp] theorem asArray_strs (items : List String) :
    (strs items).asArray? = some (items.map .str) := rfl

def hexDigit (value : Nat) : Char :=
  ['0', '1', '2', '3', '4', '5', '6', '7', '8', '9', 'a', 'b', 'c', 'd', 'e', 'f'].getD value '0'

/-- The escapes of `serde_json`'s compact writer. -/
def escapeChar (c : Char) : List Char :=
  if c = '"' then ['\\', '"']
  else if c = '\\' then ['\\', '\\']
  else if c = '\n' then ['\\', 'n']
  else if c = '\r' then ['\\', 'r']
  else if c = '\t' then ['\\', 't']
  else if c.toNat = 8 then ['\\', 'b']
  else if c.toNat = 12 then ['\\', 'f']
  else if c.toNat < 32 then
    ['\\', 'u', '0', '0', hexDigit (c.toNat / 16), hexDigit (c.toNat % 16)]
  else [c]

def renderStr (value : String) : List Char := '"' :: value.toList.flatMap escapeChar ++ ['"']

mutual
/-- `serde_json::to_string`, as characters. -/
def renderChars : Json → List Char
  | .null => "null".toList
  | .bool value => (if value then "true" else "false").toList
  | .int value => (toString value).toList
  | .float text => text.toList
  | .str value => renderStr value
  | .arr items => '[' :: renderItems items ++ [']']
  | .obj fields => '{' :: renderFields fields ++ ['}']

def renderItems : List Json → List Char
  | [] => []
  | [item] => renderChars item
  | item :: rest => renderChars item ++ ',' :: renderItems rest

def renderFields : List (String × Json) → List Char
  | [] => []
  | [(key, value)] => renderStr key ++ ':' :: renderChars value
  | (key, value) :: rest => renderStr key ++ ':' :: renderChars value ++ ',' :: renderFields rest
end

-- Their equations, made once for the proofs about printing.
section
attribute [local simp] renderChars renderItems renderFields
end

/-- `serde_json::to_string`. -/
def render (value : Json) : String := String.ofList value.renderChars

example : render (.obj [("assertion_id", .str "a\"1"), ("n", .arr [.int 1, .null])]) =
    "\x7b\"assertion_id\":\"a\\\"1\",\"n\":[1,null]\x7d" := by decide +kernel

end Json
end Agent24
