import Agent24.TextLayer.Layer

/-! An extracted value as the contract has it: its anchors, its candidates and what its status goes with. -/

set_option autoImplicit false
namespace Agent24.Documents
open Agent24.TextLayer

structure TextRange where
  unit : String
  start : Nat
  stop : Nat
  deriving DecidableEq

structure Geometry (κ : Type) where
  frame : String
  unit : String
  origin : String
  rects : List (Rect κ)
  deriving DecidableEq

structure Anchor (κ : Type) where
  documentId : String
  revision : Int
  contentSha256 : String
  mediaType : String
  textLayerSha256 : String
  engine : EngineRef
  blockId : String
  page : Option Nat
  blockTextSha256 : String
  textRange : TextRange
  geometry : Option (Geometry κ)
  quote : String
  deriving DecidableEq

inductive Status where
  | present
  | missing
  | conflict
  deriving DecidableEq

def Status.name : Status → String
  | .present => "present"
  | .missing => "missing"
  | .conflict => "conflict"

inductive MissingReason where
  | blankInTemplate
  | notInDocument
  | referencedButAbsent
  | outsidePageScope
  | unread
  deriving DecidableEq

def MissingReason.name : MissingReason → String
  | .blankInTemplate => "blank_in_template"
  | .notInDocument => "not_in_document"
  | .referencedButAbsent => "referenced_but_absent"
  | .outsidePageScope => "outside_page_scope"
  | .unread => "unread"

structure Candidate (κ : Type) where
  value : String
  normalized : String
  anchors : List (Anchor κ)
  unsourcedReason : Option String

structure ExtractedValue (κ : Type) where
  key : String
  status : Status
  value : Option String
  normalized : Option String
  anchors : Option (List (Anchor κ))
  unsourcedReason : Option String
  missingReason : Option MissingReason
  candidates : Option (List (Candidate κ))

def optional {α : Type} (name : String) (value : Option α) (json : α → Json) : List (String × Json) :=
  (value.map fun v => (name, json v)).toList

section
variable {κ : Type} (print : κ → String)

def rectJson (r : Rect κ) : Json := .arr ([r.x0, r.y0, r.x1, r.y1].map fun v => .float (print v))

def geometryJson (g : Geometry κ) : Json :=
  .obj [("box", .str g.frame), ("unit", .str g.unit), ("origin", .str g.origin),
    ("rects", .arr (g.rects.map (rectJson print)))]

def anchorJson (a : Anchor κ) : Json :=
  .obj ([("document_id", .str a.documentId), ("revision", .int a.revision), ("content_sha256", .str a.contentSha256),
      ("media_type", .str a.mediaType), ("text_layer_sha256", .str a.textLayerSha256),
      ("engine", .obj [("id", .str a.engine.id), ("version", .str a.engine.version)]), ("block_id", .str a.blockId)] ++
    optional "page" a.page (fun page => .int page) ++
    [("block_text_sha256", .str a.blockTextSha256),
      ("text_range", .obj [("unit", .str a.textRange.unit), ("start", .int a.textRange.start),
        ("end", .int a.textRange.stop)])] ++
    optional "geometry" a.geometry (geometryJson print) ++ [("quote", .str a.quote)])

def candidateJson (c : Candidate κ) : Json :=
  .obj ([("value", .str c.value), ("normalized", .str c.normalized),
      ("anchors", .arr (c.anchors.map (anchorJson print)))] ++
    optional "unsourced_reason" c.unsourcedReason .str)

/-- A value as it is serialized: `print` is the shortest decimal text of a coordinate. -/
def ExtractedValue.json (v : ExtractedValue κ) : Json :=
  .obj ([("key", .str v.key), ("status", .str v.status.name)] ++
    optional "value" v.value .str ++ optional "normalized" v.normalized .str ++
    optional "anchors" v.anchors (fun anchors => .arr (anchors.map (anchorJson print))) ++
    optional "unsourced_reason" v.unsourcedReason .str ++
    optional "missing_reason" v.missingReason (fun reason => .str reason.name) ++
    optional "candidates" v.candidates fun candidates => .arr (candidates.map (candidateJson print)))

end

end Agent24.Documents
