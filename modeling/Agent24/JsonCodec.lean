import Agent24.Json
import Agent24.Library.Outcome
import Mathlib.Data.Finset.Image

/-! Two-way mappings between values and JSON, as `serde` derives them: numbers, options, sequences, structs and enums.
What is read is a text's tree, whose objects may repeat a key and list their keys in any order. -/

set_option autoImplicit false
namespace Agent24
open List

/-- A type's `Serialize` and `Deserialize`. -/
structure Codec (α : Type) where
  write : α → Json
  read : Json → Option α

namespace Codec
variable {α β γ : Type}

section
variable (c : Codec α)

def Back (a : α) : Prop := c.read (c.write a) = some a

def natBelow (limit : Nat) : Codec Nat where
  write n := .int n
  read
    | .int n => if 0 ≤ n ∧ n.toNat < limit then some n.toNat else none
    | _ => none

def fin (limit : Nat) : Codec (Fin limit) where
  write n := .int n.val
  read
    | .int n => if fits : 0 ≤ n ∧ n.toNat < limit then some ⟨n.toNat, fits.2⟩ else none
    | _ => none

def option : Codec (Option α) where
  write
    | none => .null
    | some a => c.write a
  read
    | .null => some none
    | tree => (c.read tree).map some

def list : Codec (List α) where
  write items := .arr (items.map c.write)
  read
    | .arr items => items.mapM c.read
    | _ => none

def pair (d : Codec β) : Codec (α × β) where
  write both := .arr [c.write both.1, d.write both.2]
  read
    | .arr [first, second] => do some (← c.read first, ← d.read second)
    | _ => none

def set [DecidableEq α] (sorted : Finset α → List α) : Codec (Finset α) where
  write items := c.list.write (sorted items)
  read tree := (c.list.read tree).map List.toFinset

def mirror (make : α → β) (parts : β → α) : Codec β where
  write b := c.write (parts b)
  read tree := (c.read tree).map make

end

end Codec

/-! ## Structs -/

namespace Json

/-- What a struct's reader finds under each of its names: in an object the one entry of the name, if any; in an array
the entries by position. Other entries of an object are passed over. -/
def fieldsOf (names : List String) : Json → Option (List (Option Json))
  | .obj fields =>
    if names.all fun name => fields.countP (·.1 == name) ≤ 1 then some (names.map fun name => fields.lookup name)
    else none
  | .arr items => if items.length = names.length then some (items.map some) else none
  | _ => none

end Json

structure Fields (α : Type) where
  names : List String
  write : α → List Json
  read : List (Option Json) → Option α

namespace Fields
variable {α β : Type}

def one (name : String) (c : Codec α) : Fields α where
  names := [name]
  write a := [c.write a]
  read
    | [some tree] => c.read tree
    | _ => none

/-- A field of an `Option` type may be missing. -/
def opt (name : String) (c : Codec α) : Fields (Option α) where
  names := [name]
  write a := [c.option.write a]
  read
    | [some tree] => c.option.read tree
    | [none] => some none
    | _ => none

def and (f : Fields α) (g : Fields β) : Fields (α × β) where
  names := f.names ++ g.names
  write both := f.write both.1 ++ g.write both.2
  read found := do some (← f.read (found.take f.names.length), ← g.read (found.drop f.names.length))

def object (f : Fields α) : Codec α where
  write a := .obj (f.names.zip (f.write a))
  read tree := (Json.fieldsOf f.names tree).bind f.read

structure Back (f : Fields α) (a : α) : Prop where
  size : (f.write a).length = f.names.length
  back : f.read ((f.write a).map some) = some a

end Fields

/-! ## Enums -/

namespace Json

def tagged (name : String) (payload : Json) : Json := .obj [(name, payload)]

def variant : Json → Option (String × Option Json)
  | .str name => some (name, none)
  | .obj [(name, payload)] => some (name, some payload)
  | _ => none

end Json

abbrev Variant (α : Type) := Option Json → Option α

namespace Variant
variable {α β : Type}

/-- Without data; `null` counts as none. -/
def unit (a : α) : Variant α
  | none | some .null => some a
  | _ => none

def data (c : Codec β) (make : β → α) : Variant α := fun payload => payload.bind fun tree => (c.read tree).map make

def readEnum (variants : List (String × Variant α)) (tree : Json) : Option α := do
  let (name, payload) ← tree.variant
  (← variants.lookup name) payload

end Variant

def Codec.names {α : Type} (variants : List (String × α)) (write : α → String) : Codec α where
  write a := .str (write a)
  read := Variant.readEnum (variants.map fun v => (v.1, .unit v.2))

/-! ## What reads back -/

section
variable {α β : Type} {c : Codec α} {d : Codec β} {f : Fields α} {g : Fields β} {a : α} {b : β}

theorem mapM_some {α β : Type} {read : α → Option β} {write : β → α} {items : List β}
    (back : ∀ b ∈ items, read (write b) = some b) : (items.map write).mapM read = some items := by
  induction items with
  | nil => rfl
  | cons b rest ih =>
    rw [map_cons, mapM_cons, back b (mem_cons_self ..),
      ih fun other member => back other (mem_cons_of_mem _ member)]
    rfl

theorem lookup_of_mem {β : Type} {entries : List (String × β)} {key : String} {value : β}
    (distinct : (entries.map Prod.fst).Nodup) (member : (key, value) ∈ entries) :
    entries.lookup key = some value := by
  induction entries with
  | nil => exact absurd member not_mem_nil
  | cons entry rest ih =>
    obtain ⟨k, v⟩ := entry
    rw [map_cons, nodup_cons] at distinct
    rw [lookup_cons]
    rcases mem_cons.mp member with same | later
    · cases same
      rw [beq_self_eq_true]
    have listed : key ∈ rest.map Prod.fst := mem_map_of_mem (f := Prod.fst) later
    have apart : (key == k) = false := beq_eq_false_iff_ne.mpr fun same => distinct.1 (same ▸ listed)
    rw [apart]
    exact ih distinct.2 later

namespace Codec

theorem natBelow_back {limit n : Nat} (fits : n < limit) : (natBelow limit).Back n := by
  exact if_pos ⟨Int.natCast_nonneg n, fits⟩

theorem fin_back {limit : Nat} (n : Fin limit) : (fin limit).Back n := by
  exact dif_pos ⟨Int.natCast_nonneg _, n.isLt⟩

def Solid (c : Codec α) (a : α) : Prop := c.write a ≠ .null

theorem option_back {value : Option α} (back : ∀ a ∈ value, c.Back a ∧ c.Solid a) : c.option.Back value := by
  cases value with
  | none => rfl
  | some a =>
    obtain ⟨back, solid⟩ := back a rfl
    have read : ∀ tree, tree ≠ Json.null → c.option.read tree = (c.read tree).map some := by
      intro tree some_
      cases tree with
      | null => exact absurd rfl some_
      | _ => rfl
    exact (read _ solid).trans (congrArg (Option.map some) back)

theorem list_back {items : List α} (back : ∀ a ∈ items, c.Back a) : c.list.Back items := mapM_some back

theorem pair_back (first : c.Back a) (second : d.Back b) : (c.pair d).Back (a, b) := by
  change (do some (← c.read (c.write a), ← d.read (d.write b))) = _
  rw [first, second]
  rfl

theorem set_back [DecidableEq α] {sorted : Finset α → List α} {items : Finset α}
    (same : (sorted items).toFinset = items) (back : ∀ a ∈ items, c.Back a) : (c.set sorted).Back items := by
  have listed : c.list.Back (sorted items) :=
    list_back fun a member => back a (same ▸ mem_toFinset.mpr member)
  exact (congrArg (Option.map List.toFinset) listed).trans (congrArg some same)

theorem mirror_back {make : α → β} {parts : β → α} (inverse : make (parts b) = b) (back : c.Back (parts b)) :
    (c.mirror make parts).Back b :=
  (congrArg (Option.map make) back).trans (congrArg some inverse)

end Codec

namespace Fields

theorem one_back {name : String} (back : c.Back a) : (one name c).Back a := ⟨rfl, back⟩

theorem opt_back {name : String} {value : Option α} (back : ∀ a ∈ value, c.Back a ∧ c.Solid a) :
    (opt name c).Back value := ⟨rfl, Codec.option_back back⟩

theorem and_back (first : f.Back a) (second : g.Back b) : (f.and g).Back (a, b) := by
  refine ⟨?_, ?_⟩
  · rw [and, length_append, length_append, first.size, second.size]
  · have size : ((f.write a).map some).length = f.names.length := by rw [length_map, first.size]
    change (do some (← f.read (((f.write a ++ g.write b).map some).take f.names.length),
      ← g.read (((f.write a ++ g.write b).map some).drop f.names.length))) = _
    rw [map_append, ← size, take_left, drop_left, first.back, second.back]
    rfl

theorem fieldsOf_zip {names : List String} {trees : List Json} (distinct : names.Nodup)
    (size : trees.length = names.length) : Json.fieldsOf names (.obj (names.zip trees)) = some (trees.map some) := by
  have firsts : (names.zip trees).map Prod.fst = names := map_fst_zip (by rw [size])
  have once : (names.all fun name => (names.zip trees).countP (·.1 == name) ≤ 1) = true := by
    rw [all_eq_true]
    intro name _
    have counted : (names.zip trees).countP (·.1 == name) = ((names.zip trees).map Prod.fst).count name := by
      rw [List.count, countP_map]
      rfl
    rw [counted, firsts, decide_eq_true_eq]
    exact nodup_iff_count_le_one.mp distinct name
  rw [Json.fieldsOf, if_pos once]
  refine congrArg some (ext_getElem (by simp [size]) fun i inside other => ?_)
  rw [length_map] at inside other
  rw [getElem_map, getElem_map]
  refine lookup_of_mem (firsts.symm ▸ distinct) ?_
  have member := getElem_mem (l := names.zip trees) (n := i) (by rw [length_zip]; omega)
  rwa [getElem_zip] at member

theorem object_back (distinct : f.names.Nodup) (back : f.Back a) : f.object.Back a := by
  change (Json.fieldsOf f.names (.obj (f.names.zip (f.write a)))).bind f.read = _
  rw [fieldsOf_zip distinct back.size]
  exact back.back

end Fields

namespace Variant
variable {variants : List (String × Variant α)} {name : String} {reader : Variant α}

theorem readEnum_unit (distinct : (variants.map Prod.fst).Nodup) (member : (name, unit a) ∈ variants) :
    readEnum variants (.str name) = some a := by
  change (variants.lookup name).bind (fun reader => reader none) = _
  rw [lookup_of_mem distinct member]
  rfl

theorem readEnum_data {make : β → α} (distinct : (variants.map Prod.fst).Nodup)
    (member : (name, data d make) ∈ variants) (back : d.Back b) :
    readEnum variants (.tagged name (d.write b)) = some (make b) := by
  change (variants.lookup name).bind (fun reader => reader (some (d.write b))) = _
  rw [lookup_of_mem distinct member]
  exact congrArg (Option.map make) back

end Variant

theorem Codec.names_back {entries : List (String × α)} {write : α → String} (distinct : (entries.map Prod.fst).Nodup)
    (listed : (write a, a) ∈ entries) : (Codec.names entries write).Back a := by
  have same : (entries.map fun v => (v.1, Variant.unit v.2)).map Prod.fst = entries.map Prod.fst := by
    rw [map_map]
    rfl
  exact Variant.readEnum_unit (same.symm ▸ distinct) (mem_map_of_mem (f :=
      fun v => (v.1, Variant.unit v.2)) listed)

end

end Agent24
