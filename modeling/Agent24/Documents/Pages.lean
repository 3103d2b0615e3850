import Agent24.Documents.Cursor
import Agent24.Documents.Matcher
import Agent24.TextLayer.Layer

/-! One response of a read: the blocks of a layer, or a query's matches in them,
    within a limit and a budget of bytes. -/

set_option autoImplicit false
namespace Agent24.Documents
open Library

def PAGES : Nat := 100

def geometry (rects : List Json) : Json :=
  .obj [("box", .str "CropBox"), ("origin", .str "top-left-rotated"), ("rects", .arr rects), ("unit", .str "pt")]

section
variable (layer : TextLayer)

/-- The last page within reach that the regions leave room for, after those counted so far. -/
def lastFrom (start last budget : Nat) : Nat → List (Nat × Json) → Nat
  | _, [] => last
  | used, (page, region) :: rest =>
    if ¬ (start ≤ page ∧ page ≤ last) then lastFrom start last budget used rest
    else
      let used := used + (region.size + 1)
      if budget / 2 < used ∧ start < page then page - 1 else lastFrom start last budget used rest

/-- The last page one response from `start` covers: at most `PAGES`, fewer when their regions take over half of
`budget`. -/
def lastPage (start budget : Nat) : Nat :=
  lastFrom start (min layer.pages (start + (PAGES - 1))) budget 0 layer.unparsedRegions

def regionsBetween (first last : Nat) : List Json :=
  (layer.unparsedRegions.filter fun r => decide (first ≤ r.1 ∧ r.1 ≤ last)).map Prod.snd

end

/-- `parse_status`: partial if some region was not read. -/
def statusJson (regions : List Json) : Json := .str (if regions.isEmpty then "complete" else "partial")

structure Sheet where
  regions : List Json
  entries : List Json
  nextCursor : Option String

def Sheet.json (head : List (String × Json)) (name : String) (sheet : Sheet) : Json :=
  .obj (head ++ [("parse_status", statusJson sheet.regions), ("unparsed_regions", .arr sheet.regions),
    (name, .arr sheet.entries), ("next_cursor", sheet.nextCursor.elim .null .str)])

structure Filling where
  at_ : Position
  first : Position
  used : Nat
  taken : List Json

def Filling.take (s : Filling) (entry : Json) (onward : Position) : Filling :=
  ⟨onward, if s.taken.isEmpty then s.at_ else s.first, s.used + (entry.size + 1), s.taken ++ [entry]⟩

def Filling.turn (s : Filling) (onward : Position) : Filling := { s with at_ := onward }

section
variable (limit budget : Nat)

/-- Whether the next entry is left out: the limit is reached, or it is not the first and there is no room for it. -/
def Filling.full (s : Filling) (entry : Json) : Bool :=
  decide (s.taken.length = limit) || (decide (budget < s.used + (entry.size + 1)) && !s.taken.isEmpty)

/-- Pages one after another, until one is left in the middle or the first entry is past the budget. -/
def takePages (page : Filling → Bool × Filling) (last : Nat) : Nat → Filling → Filling
  | 0, s => s
  | n + 1, s =>
    -- the flag says that the loop was broken out of
    match page s with
    | (true, s) => s
    | (false, s) =>
      let s := s.turn ⟨s.at_.page + 1, 0, 0⟩
      if budget < s.used ∧ s.taken.isEmpty = false then s else takePages page last n s

def takeTextBlocks : List Json → Filling → Bool × Filling
  | [], s => (false, s)
  | entry :: rest, s =>
    if s.full limit budget entry then (true, s)
    else takeTextBlocks rest (s.take entry { s.at_ with block := s.at_.block + 1 })

def takeHits : List Json → Filling → Bool × Filling
  | [], s => (false, s)
  | entry :: rest, s =>
    if s.full limit budget entry then (true, s)
    else takeHits rest (s.take entry { s.at_ with hit := s.at_.hit + 1 })

def takeFindBlocks : List (List Json) → Filling → Bool × Filling
  | [], s => (false, s)
  | found :: rest, s =>
    match takeHits limit budget (found.drop s.at_.hit) s with
    | (true, s) => (true, s)
    | (false, s) => takeFindBlocks rest (s.turn { s.at_ with block := s.at_.block + 1, hit := 0 })

end

section
variable (layer : TextLayer) (json : Sheet → Json) (next : Position → String)

def roomUsed (start : Position) (last : Nat) (full : Position) : Nat :=
  (json ⟨[], [], none⟩).size + (next full).utf8ByteSize + (Json.arr (regionsBetween layer start.page last)).size

/-- The response of a filling; `end_` is the last page it gave entries of or that has none. Past the budget, the first
entry may not fit with the regions of the pages before its own: those go alone. -/
def finish (budget : Nat) (start : Position) (last end_ : Nat) (s : Filling) : Sheet :=
  let out : Sheet := ⟨regionsBetween layer start.page (min end_ last), s.taken,
    if s.at_.page ≤ layer.pages then some (next s.at_) else none⟩
  if budget < s.used ∧ start.page < s.first.page ∧ budget < (json out).size then
    ⟨regionsBetween layer start.page (s.first.page - 1), [], some (next s.first)⟩
  else out

/-- `page_of` of `GET text`, whose blocks are an entry each. -/
def textSheet (entry : LayerBlock → Json) (start : Position) (limit budget : Nat) : Sheet :=
  let last := lastPage layer start.page budget
  let onPage := fun page => (layer.blocks.filter fun b => b.page == page).map entry
  let page := fun s : Filling => takeTextBlocks limit budget ((onPage s.at_.page).drop s.at_.block) s
  let s := takePages budget page last (last + 1 - start.page)
    ⟨start, start, roomUsed layer json next start last ⟨U32_MAX, USIZE_MAX, 0⟩, []⟩
  finish layer json next budget start last (if s.at_.block = 0 then s.at_.page - 1 else s.at_.page) s

/-- `page_of` of `find`, whose blocks have the entries found in them. -/
def findSheet (entries : LayerBlock → List Json) (start : Position) (limit budget : Nat) : Sheet :=
  let last := lastPage layer start.page budget
  let onPage := fun page => (layer.blocks.filter fun b => b.page == page).map entries
  let page := fun s : Filling => takeFindBlocks limit budget ((onPage s.at_.page).drop s.at_.block) s
  let s := takePages budget page last (last + 1 - start.page)
    ⟨start, start, roomUsed layer json next start last ⟨U32_MAX, USIZE_MAX, USIZE_MAX⟩, []⟩
  finish layer json next budget start last
    (if s.at_.block = 0 ∧ s.at_.hit = 0 then s.at_.page - 1 else s.at_.page) s

end

def lineRects (lines : Json) : List Json := (lines.asArray?.getD []).filterMap (Json.get? "rect")

def lineOffset (key : String) (line : Json) : Int :=
  match line.get? key with
  | some (.int n) => n
  | _ => 0

def touchedRects (lines : Json) (start stop : Nat) : List Json :=
  ((lines.asArray?.getD []).filter fun l => decide (lineOffset "start" l < stop) && decide
      (start < lineOffset "end" l)).filterMap
    (Json.get? "rect")

section
variable (signer : Signer) (r : Revision) (address : String) (layer : TextLayer)

def textBlockJson (b : LayerBlock) : Json :=
  .obj [("block_id", .str b.blockId), ("geometry", geometry (lineRects b.lines)), ("page", .int b.page),
    ("text", .str b.text), ("text_sha256", .str (signer.sha256Address b.text))]

/-- The anchor of `text[start..stop]` in a block. -/
def matchAnchor (b : LayerBlock) (range : Nat × Nat) : Json :=
  .obj [("block_id", .str b.blockId), ("block_text_sha256", .str (signer.sha256Address b.text)),
    ("content_sha256", .str r.contentSha256), ("document_id", .str r.documentId), ("engine", layer.engine),
    ("geometry", geometry (touchedRects b.lines range.1 range.2)), ("media_type", .str r.mediaType),
    ("page", .int b.page), ("quote", .str (String.ofList (Offsets.slice b.text.toList range.1 range.2))),
    ("revision", .int r.revision), ("text_layer_sha256", .str address),
    ("text_range", .obj [("end", .int range.2), ("start", .int range.1), ("unit", .str "utf8")])]

def textHead : List (String × Json) :=
  [("document_id", .str r.documentId), ("revision", .int r.revision), ("content_sha256", .str r.contentSha256),
    ("media_type", .str r.mediaType), ("text_layer_sha256", .str address), ("engine", layer.engine)]

/-- `DocumentsTextPage`. -/
def textPageJson : Sheet → Json := Sheet.json (textHead r address layer) "blocks"

/-- `DocumentsFindResult`. -/
def findPageJson : Sheet → Json := Sheet.json [] "matches"

def textPageOf (start : Position) (limit budget : Nat) : Sheet :=
  textSheet layer (textPageJson r address layer) (fun at_ => encodeReadCursor signer "t" r address at_ "")
    (textBlockJson signer) start limit budget

def findRanges (query text : String) : List (Nat × Nat) :=
  match Query.new query with
  | some q => q.find query text
  | none => []

def findPageOf (query : String) (start : Position) (limit budget : Nat) : Sheet :=
  findSheet layer findPageJson (fun at_ => encodeReadCursor signer "f" r address at_ (signer.sha256Address query))
    (fun b => (findRanges query b.text).map (matchAnchor signer r address layer b)) start limit budget

end

section
variable {κ : Type} (number : κ → String)

def layerRectJson (rect : Agent24.TextLayer.Rect κ) : Json :=
  .arr [.float (number rect.x0), .float (number rect.y0), .float (number rect.x1), .float (number rect.y1)]

def regionJson (region : Agent24.TextLayer.Region κ) : Json :=
  .obj [("geometry", geometry (region.rects.map (layerRectJson number))), ("page", .int region.page),
    ("reason", .str region.reason)]

def lineJson (line : Agent24.TextLayer.Line κ) : Json :=
  .obj [("end", .int line.stop), ("rect", layerRectJson number line.rect), ("start", .int line.start)]

/-- A checked layer as the reads see it, its numbers written by `number`. -/
def viewOf (layer : Agent24.TextLayer.Layer κ) : TextLayer where
  contentSha256 := layer.contentSha256
  engine := .obj [("id", .str layer.engine.id), ("version", .str layer.engine.version)]
  pages := layer.pages
  partialParse := decide (layer.parseStatus = .partial_)
  unparsedRegions := layer.unparsedRegions.map fun region => (region.page, regionJson number region)
  blocks := layer.blocks.map fun b => ⟨b.blockId, b.page, b.text, .arr (b.lines.map (lineJson number))⟩

end

structure Process (κ : Type) [LinearOrder κ] [Zero κ] where
  json : String → Option Json
  value : Json → Bool
  signer : Signer
  parse : List UInt8 → Option (Agent24.TextLayer.Pinned κ)
  number : κ → String

def Process.reader {κ : Type} [LinearOrder κ] [Zero κ] (m : Process κ) : Reader where
  json := m.json
  value := m.value
  layer bytes := (m.parse bytes).map fun layer => viewOf m.number layer.toLayer
  cursor kind r cursor query := decodeReadCursor m.signer kind r cursor query
  query query := (Query.new query).map fun q text => (q.find query text).length
  sha256Address := m.signer.sha256Address
  textPage r address layer start limit budget :=
    textPageJson r address layer (textPageOf m.signer r address layer start limit budget)
  findPage r address layer query start limit budget :=
    findPageJson (findPageOf m.signer r address layer query start limit budget)

end Agent24.Documents
