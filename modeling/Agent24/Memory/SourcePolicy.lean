import Agent24.Json
import Mathlib.Algebra.Ring.Int.Defs

/-! Sensitivity classifications and the provenance stored with an assertion. -/

set_option autoImplicit false
namespace Agent24.Memory

inductive SourceClassification where
  | ordinary | restricted | unknown
  deriving DecidableEq, Repr

namespace SourceClassification

def asStr : SourceClassification → String
  | .ordinary => "ordinary"
  | .restricted => "restricted"
  | .unknown => "unknown"

/-- A variant name as text, or as the only key of an object with a null value. -/
def ofJson : Json → Option SourceClassification
  | .str name | .obj [(name, .null)] =>
    if name = "ordinary" then some .ordinary
    else if name = "restricted" then some .restricted
    else if name = "unknown" then some .unknown
    else none
  | _ => none

/-- Strictness: `Restricted` over `Unknown` over `Ordinary`. -/
def rank : SourceClassification → Nat
  | .ordinary => 0
  | .unknown => 1
  | .restricted => 2

def stricter : Option SourceClassification → SourceClassification → SourceClassification
  | _, .restricted => .restricted
  | some .restricted, _ => .restricted
  | _, .unknown => .unknown
  | some .unknown, _ => .unknown
  | _, _ => .ordinary

theorem rank_injective {a b : SourceClassification} (same : a.rank = b.rank) : a = b := by
  cases a <;> cases b <;> first | rfl | cases same

end SourceClassification

open SourceClassification

/-- An empty input is `Unknown`. -/
def strictestClassification (classifications : List SourceClassification) : SourceClassification :=
  (classifications.foldl (fun strictest c => some (stricter strictest c)) none).getD .unknown

theorem strictest_pair_rank (a b : SourceClassification) :
    (strictestClassification [a, b]).rank = max a.rank b.rank := by
  cases a <;> cases b <;> rfl

structure AssertionSourceRef where
  schemaVersion : Int
  classification : SourceClassification
  sourceIds : List String
  deriving DecidableEq

namespace AssertionSourceRef

def schemaVersionNow : Int := 1

def fromSources (sources : List (String × SourceClassification)) : AssertionSourceRef :=
  ⟨schemaVersionNow, strictestClassification (sources.map Prod.snd), sources.map Prod.fst⟩

def toValue (ref : AssertionSourceRef) : Json :=
  .obj [("classification", .str ref.classification.asStr),
    ("schema_version", .int ref.schemaVersion),
    ("source_ids", Json.strs ref.sourceIds)]

/-- A JSON number that fits an `i64`. -/
def parseI64 : Json → Option Int
  | .int n => if -(2 ^ 63) ≤ n ∧ n < 2 ^ 63 then some n else none
  | _ => none

def parseStrings : Json → Option (List String)
  | .arr items => items.mapM Json.asStr?
  | _ => none

def parseParts (version classification ids : Json) : Option AssertionSourceRef := do
  pure ⟨← parseI64 version, ← ofJson classification, ← parseStrings ids⟩

/-- `serde_json::from_value`: an object with exactly the three fields, or their values in a list. -/
def parse : Json → Option AssertionSourceRef
  | .arr [version, classification, ids] => parseParts version classification ids
  | .obj fields =>
    if fields.all fun field =>
        ["schema_version", "classification", "source_ids"].contains field.1 then do
      parseParts (← (Json.obj fields).get? "schema_version")
        (← (Json.obj fields).get? "classification") (← (Json.obj fields).get? "source_ids")
    else none
  | _ => none

/-- The classification of a stored reference: absent, unreadable or of another version is `Unknown`. -/
def classificationOf (stored : Option Json) : SourceClassification :=
  match (stored.bind parse).filter fun parsed => parsed.schemaVersion == schemaVersionNow with
  | some parsed => parsed.classification
  | none => .unknown

theorem classificationOf_none : classificationOf none = .unknown := rfl

end AssertionSourceRef
end Agent24.Memory
