import Agent24.Library.Offsets
import Agent24.Documents.Store
import Agent24.Documents.Window
import Agent24.Library.Numeral

/-! The pinned text layer: what one engine build read from one revision's bytes, and the check it passes before it is
stored and again when it is read. Coordinates are of any ordered type with a zero: the finite numbers JSON has. -/

set_option autoImplicit false
namespace Agent24.TextLayer
open Library Library.Numeral Documents List

def MAX_BLOCK_BYTES : Nat := 16 * 1024
def MAX_LINES : Nat := 64

/-- Rectangles in one page's unparsed region; more become the whole page. -/
def MAX_REGION_RECTS : Nat := 16

def REASONS : List String := ["ocr_failed", "render_failed"]

section
variable (κ : Type)

/-- `[x0, y0, x1, y1]`, origin top-left after `/Rotate`. -/
structure Rect where
  x0 : κ
  y0 : κ
  x1 : κ
  y1 : κ
  deriving DecidableEq

/-- One line of a block: its UTF-8 range in the block text (a line break belongs to the line before it). -/
structure Line where
  start : Nat
  stop : Nat
  rect : Rect κ

structure Block extends Documents.Block where
  lines : List (Line κ)

structure EngineRef where
  id : String
  version : String
  deriving DecidableEq

inductive ParseStatus where
  | complete
  | partial_
  deriving DecidableEq

structure Region where
  page : Nat
  rects : List (Rect κ)
  reason : String

structure Layer where
  v : Nat
  contentSha256 : String
  engine : EngineRef
  config : Json
  pages : Nat
  parseStatus : ParseStatus
  unparsedRegions : List (Region κ)
  blocks : List (Block κ)

end

/-- A flat object of ASCII keys with string, integer or boolean values. -/
def configOk : Json → Bool
  | .obj fields => fields.all fun entry =>
    entry.1 != "" && entry.1.toList.all (fun c => c.toNat < 128) &&
      match entry.2 with
      | .str _ | .bool _ | .int _ => true
      | _ => false
  | _ => false

/-- The `n`-th block of a page. -/
def blockIdOf (page n : Nat) : String := s!"p{page}/b{n}"

section
variable {κ : Type} [LinearOrder κ] [Zero κ]

def rectOk (r : Rect κ) : Bool :=
  decide (0 ≤ r.x0) && decide (0 ≤ r.y0) && decide (0 ≤ r.x1) && decide (0 ≤ r.y1) && decide (r.x0 ≤ r.x1) &&
    decide (r.y0 ≤ r.y1)

/-- `strip_suffix('\n')`, or the line itself. -/
def withoutBreak (line : List Char) : List Char := if line.getLast? = some '\n' then line.dropLast else line

def checkLines (text : List Char) : Nat → List (Line κ) → Except String Unit
  | at_, [] => if at_ = Offsets.size text then .ok () else .error "lines do not cover the text"
  | at_, l :: rest =>
    if l.start ≠ at_ ∨ l.stop ≤ l.start ∨ Offsets.boundary text l.stop = false then
      .error s!"line {l.start}..{l.stop} does not continue at {at_}"
    else if '\n' ∈ withoutBreak (Offsets.slice text l.start l.stop) then
      .error s!"line {l.start}..{l.stop}: a line break inside it"
    else if rectOk l.rect = false then .error s!"line {l.start}..{l.stop}: invalid rect"
    else checkLines text l.stop rest

def checkBlock (b : Block κ) : Except String Unit :=
  let text := b.text.toList
  if text = [] ∨ MAX_BLOCK_BYTES < Offsets.size text then .error s!"text must be 1 to {MAX_BLOCK_BYTES} bytes"
  else if b.lines = [] ∨ MAX_LINES < b.lines.length then .error s!"1 to {MAX_LINES} lines"
  else checkLines text 0 b.lines

def checkRegions (pages : Nat) : Nat → List (Region κ) → Except String Unit
  | _, [] => .ok ()
  | lastPage, r :: rest =>
    if r.page ≤ lastPage ∨ pages < r.page then .error s!"region on page {r.page}: one per page, in order"
    else if r.rects = [] ∨ MAX_REGION_RECTS < r.rects.length ∨ r.rects.all rectOk = false then
      .error s!"region on page {r.page}: 1 to {MAX_REGION_RECTS} valid rects"
    else if REASONS.contains r.reason = false then .error s!"region on page {r.page}: unknown reason"
    else checkRegions pages r.page rest

/-- The blocks after `n` on a page. -/
def checkBlocks (pages : Nat) : Nat → Nat → List (Block κ) → Except String Unit
  | _, _, [] => .ok ()
  | page, n, b :: rest =>
    if b.page < page ∨ b.page = 0 ∨ pages < b.page then .error s!"block {b.blockId}: pages in reading order"
    else
      let n := if b.page = page then n + 1 else 1
      if b.blockId ≠ blockIdOf b.page n then .error s!"block {b.blockId}: expected {blockIdOf b.page n}"
      else
        match checkBlock b with
        | .error why => .error s!"block {b.blockId}: {why}"
        | .ok () => checkBlocks pages b.page n rest

def Layer.check (layer : Layer κ) : Except String Unit :=
  let name := fun s : String => decide (1 ≤ Offsets.size s.toList) && decide (Offsets.size s.toList ≤ 64)
  if layer.v ≠ 1 ∨ name layer.engine.id = false ∨ name layer.engine.version = false then
    .error "not a v1 layer from a named engine"
  else if configOk layer.config = false then .error "config is not a flat object of ASCII keys and plain values"
  else if isSha256Address layer.contentSha256 = false ∨ layer.pages = 0 then .error "no source content or no pages"
  else if decide (layer.parseStatus = .partial_) = layer.unparsedRegions.isEmpty then
    .error "partial if and only if some region was not read"
  else
    match checkRegions layer.pages 0 layer.unparsedRegions with
    | .error why => .error why
    | .ok () => checkBlocks layer.pages 0 0 layer.blocks

/-- Lines that cover a text end to end from an offset on, a break only where one ends. -/
inductive Tiles : Nat → List (Line κ) → List Char → Prop where
  | done (at_ : Nat) : Tiles at_ [] []
  | line {at_ : Nat} {piece rest : List Char} {rect : Rect κ} {lines : List (Line κ)} (some_ : piece ≠ [])
      (whole : '\n' ∉ withoutBreak piece) (valid : rectOk rect = true)
      (on : Tiles (at_ + Offsets.size piece) lines rest) :
      Tiles at_ (⟨at_, at_ + Offsets.size piece, rect⟩ :: lines) (piece ++ rest)

theorem checkLines_cons {text : List Char} {at_ : Nat} {l : Line κ} {rest : List (Line κ)} :
    checkLines text at_ (l :: rest) = .ok () ↔ l.start = at_ ∧ l.start < l.stop ∧
        Offsets.boundary text l.stop = true ∧
      '\n' ∉ withoutBreak (Offsets.slice text l.start l.stop) ∧ rectOk l.rect = true ∧
      checkLines text l.stop rest = .ok () := by
  rw [checkLines]
  by_cases place : l.start ≠ at_ ∨ l.stop ≤ l.start ∨ Offsets.boundary text l.stop = false
  · rw [if_pos place]
    refine ⟨fun ok => (by cases ok), ?_⟩
    rintro ⟨start, long, edge, -⟩
    rcases place with other | short | inside
    · exact absurd start other
    · omega
    · rw [edge] at inside
      cases inside
  · rw [if_neg place]
    simp only [not_or, not_not, Nat.not_le, Bool.not_eq_false] at place
    obtain ⟨start, long, edge⟩ := place
    by_cases inside : '\n' ∈ withoutBreak (Offsets.slice text l.start l.stop)
    · rw [if_pos inside]
      exact ⟨fun ok => (by cases ok), fun all => absurd inside all.2.2.2.1⟩
    rw [if_neg inside]
    cases valid : rectOk l.rect with
    | false =>
      exact ⟨fun ok => (by cases ok), fun all => absurd all.2.2.2.2.1 Bool.false_ne_true⟩
    | true =>
      exact ⟨fun ok => ⟨start, long, edge, inside, rfl, ok⟩, fun all => all.2.2.2.2.2⟩

theorem checkLines_iff (front text : List Char) (lines : List (Line κ)) :
    checkLines (front ++ text) (Offsets.size front) lines = .ok () ↔ Tiles (Offsets.size front) lines text := by
  induction lines generalizing front text with
  | nil =>
    rw [checkLines, Offsets.size_append]
    constructor
    · intro ok
      split at ok
      · rename_i whole
        obtain rfl := Offsets.size_eq_zero.mp (by omega : Offsets.size text = 0)
        exact .done _
      · cases ok
    · intro tiles
      cases tiles
      rw [Offsets.size_nil, Nat.add_zero, if_pos rfl]
  | cons l lines ih =>
    rw [checkLines_cons]
    constructor
    · rintro ⟨start, long, edge, whole, valid, on⟩
      obtain ⟨front', back, same, stop⟩ := Offsets.boundary_iff.mp edge
      rw [start, ← stop] at long
      obtain ⟨piece, rfl⟩ : front <+: front' := by
        refine prefix_of_prefix_length_le ⟨text, rfl⟩ ⟨back, same.symm⟩ ?_
        exact Offsets.length_le_of_size same (Nat.le_of_lt long)
      rw [append_assoc] at same
      obtain rfl := append_cancel_left same
      rw [start, ← stop, Offsets.size_append, Offsets.slice_append] at whole
      rw [← append_assoc, ← stop, ih] at on
      have some_ : piece ≠ [] := by
        rintro rfl
        simp at long
      obtain ⟨first, last, rect⟩ := l
      rw [Offsets.size_append] at stop on
      subst start stop
      exact .line some_ whole valid on
    · intro tiles
      cases tiles with
      | @line _ piece rest rect _ some_ whole valid on =>
        have positive := Offsets.size_pos some_
        refine ⟨rfl, by simp only; omega, ?_, ?_, valid, ?_⟩
        · exact Offsets.boundary_iff.mpr ⟨front ++ piece, rest, (append_assoc ..).symm, Offsets.size_append ..⟩
        · simp only
          rwa [Offsets.slice_append]
        · simp only
          rw [← Offsets.size_append, ← append_assoc, ih, Offsets.size_append]
          exact on

theorem Tiles.filled {at_ : Nat} {lines : List (Line κ)} {text : List Char} (tiles : Tiles at_ lines text) :
    ∀ l ∈ lines, l.start < l.stop := by
  induction tiles with
  | done => exact fun l member => absurd member not_mem_nil
  | line some_ _ _ _ ih =>
    intro l member
    rcases mem_cons.mp member with rfl | later
    · exact Nat.lt_add_of_pos_right (Offsets.size_pos some_)
    · exact ih l later

structure BlockOk (b : Block κ) : Prop where
  some_ : b.text.toList ≠ []
  bytes : Offsets.size b.text.toList ≤ MAX_BLOCK_BYTES
  lines : b.lines.length ≤ MAX_LINES
  tiles : Tiles 0 b.lines b.text.toList

theorem checkBlock_iff (b : Block κ) : checkBlock b = .ok () ↔ BlockOk b := by
  have tiled := checkLines_iff [] b.text.toList b.lines
  rw [nil_append, Offsets.size_nil] at tiled
  unfold checkBlock
  by_cases size : b.text.toList = [] ∨ MAX_BLOCK_BYTES < Offsets.size b.text.toList
  · rw [if_pos size]
    refine ⟨fun ok => (by cases ok), fun ok => ?_⟩
    rcases size with none_ | over_
    · exact absurd none_ ok.some_
    · exact absurd ok.bytes (Nat.not_le.mpr over_)
  · rw [if_neg size]
    by_cases count : b.lines = [] ∨ MAX_LINES < b.lines.length
    · rw [if_pos count]
      refine ⟨fun ok => (by cases ok), fun ok => ?_⟩
      rcases count with none_ | over_
      · have tiles := ok.tiles
        rw [none_] at tiles
        generalize same : b.text.toList = text at tiles
        cases tiles
        exact absurd same ok.some_
      · exact absurd ok.lines (Nat.not_le.mpr over_)
    · rw [if_neg count, tiled]
      simp only [not_or, Nat.not_lt] at size count
      exact ⟨fun tiles => ⟨size.1, size.2, count.2, tiles⟩, fun ok => ok.tiles⟩

def numberOn (page n next : Nat) : Nat := if next = page then n + 1 else 1

/-- Blocks in reading order after the `n`-th of a page, each under its page's next number. -/
inductive Numbered (pages : Nat) : Nat → Nat → List (Block κ) → Prop where
  | done (page n : Nat) : Numbered pages page n []
  | block {page n : Nat} {b : Block κ} {rest : List (Block κ)} (order : page ≤ b.page) (first : 0 < b.page)
      (last : b.page ≤ pages) (named : b.blockId = blockIdOf b.page (numberOn page n b.page)) (ok : BlockOk b)
      (on : Numbered pages b.page (numberOn page n b.page) rest) : Numbered pages page n (b :: rest)

theorem checkBlocks_iff (pages page n : Nat) (blocks : List (Block κ)) :
    checkBlocks pages page n blocks = .ok () ↔ Numbered pages page n blocks := by
  induction blocks generalizing page n with
  | nil => exact ⟨fun _ => .done page n, fun _ => rfl⟩
  | cons b rest ih =>
    rw [checkBlocks]
    simp only
    rw [← numberOn]
    constructor
    · intro ok
      split at ok
      · cases ok
      rename_i order
      simp only [not_or, Nat.not_lt] at order
      split at ok
      · cases ok
      rename_i named
      split at ok
      · cases ok
      rename_i passed
      exact .block order.1 (Nat.pos_of_ne_zero order.2.1) order.2.2 (not_not.mp named)
        ((checkBlock_iff b).mp passed) ((ih ..).mp ok)
    · intro numbered
      cases numbered with
      | block order first last named ok on =>
        rw [if_neg (by omega), if_neg (not_not.mpr named), (checkBlock_iff b).mpr ok]
        exact (ih ..).mpr on

end

theorem toString_injective {m n : Nat} (same : (toString m).toList = (toString n).toList) : m = n := by
  rw [Nat.toString_eq_repr, Nat.toString_eq_repr, Nat.toList_repr, Nat.toList_repr] at same
  have value := number_decimal m
  rw [same, number_decimal] at value
  exact (Option.some.inj value).symm

theorem not_mem_toString {c : Char} (other : c.isDigit = false) (n : Nat) : c ∉ (toString n).toList := by
  intro member
  rw [Nat.toString_eq_repr, Nat.toList_repr] at member
  have digit := Nat.isDigit_of_mem_toDigits (by decide) (by decide) member
  rw [other] at digit
  cases digit

theorem blockIdOf_toList (page n : Nat) :
    (blockIdOf page n).toList = 'p' :: ((toString page).toList ++ '/' :: 'b' :: (toString n).toList) := by
  rw [Nat.toString_eq_repr, Nat.toString_eq_repr, blockIdOf]
  simp only [toString, String.toList_append, append_assoc]
  rfl

theorem blockIdOf_injective {page n page' n' : Nat} (same : blockIdOf page n = blockIdOf page' n') :
    page = page' ∧ n = n' := by
  have chars := congrArg String.toList same
  rw [blockIdOf_toList, blockIdOf_toList, cons_inj_right] at chars
  have clean (k : Nat) : '/' ∉ (toString k).toList := not_mem_toString (by decide) k
  have tail : '/' ∉ 'b' :: (toString n).toList := not_mem_cons_of_ne_of_not_mem (by decide) (clean n)
  obtain ⟨pages, -, rest⟩ := (append_cons_inj_of_notMem (clean page) tail).mp chars
  obtain ⟨-, numbers⟩ := List.cons.inj rest
  exact ⟨toString_injective pages, toString_injective numbers⟩

section
variable {κ : Type} [LinearOrder κ] [Zero κ]

theorem numberOn_moves {page n next : Nat} (order : page ≤ next) :
    page < next ∨ next = page ∧ n < numberOn page n next := by
  rcases Nat.eq_or_lt_of_le order with same | later
  · rw [numberOn, if_pos same.symm]
    exact .inr ⟨same.symm, Nat.lt_succ_self n⟩
  · exact .inl later

theorem Numbered.later {pages page n : Nat} {blocks : List (Block κ)} (numbered : Numbered pages page n blocks) :
    ∀ b ∈ blocks, ∃ k, b.blockId = blockIdOf b.page k ∧ (page < b.page ∨ b.page = page ∧ n < k) := by
  induction numbered with
  | done => exact fun b member => absurd member not_mem_nil
  | @block page n first rest order _ _ named _ _ ih =>
    intro b member
    have moves := numberOn_moves (n := n) order
    rcases mem_cons.mp member with rfl | inRest
    · exact ⟨_, named, moves⟩
    obtain ⟨k, name, place⟩ := ih b inRest
    refine ⟨k, name, ?_⟩
    omega

theorem Numbered.distinct {pages page n : Nat} {blocks : List (Block κ)} (numbered : Numbered pages page n blocks) :
    (blocks.map fun b => b.blockId).Nodup := by
  induction numbered with
  | done => exact nodup_nil
  | @block page n first rest order _ _ named _ on ih =>
    rw [map_cons, nodup_cons]
    refine ⟨fun again => ?_, ih⟩
    obtain ⟨b, member, same⟩ := mem_map.mp again
    obtain ⟨k, name, place⟩ := on.later b member
    rw [name, named] at same
    obtain ⟨samePage, sameNumber⟩ := blockIdOf_injective same
    omega

theorem Numbered.ok {pages page n : Nat} {blocks : List (Block κ)} (numbered : Numbered pages page n blocks) :
    ∀ b ∈ blocks, page ≤ b.page ∧ 0 < b.page ∧ b.page ≤ pages ∧ BlockOk b := by
  induction numbered with
  | done => exact fun b member => absurd member not_mem_nil
  | block order first last named ok on ih =>
    intro b member
    rcases mem_cons.mp member with rfl | inRest
    · exact ⟨order, first, last, ok⟩
    · have := ih b inRest
      exact ⟨order.trans this.1, this.2⟩

theorem Numbered.sorted {pages page n : Nat} {blocks : List (Block κ)} (numbered : Numbered pages page n blocks) :
    blocks.Pairwise fun a b => a.page ≤ b.page := by
  induction numbered with
  | done => exact List.Pairwise.nil
  | block order first last named ok on ih => exact pairwise_cons.mpr ⟨fun b member => (on.ok b member).1, ih⟩

variable (κ) in
structure Pinned extends Layer κ where
  checked : toLayer.check = .ok ()

structure WellFormed (layer : Layer κ) : Prop where
  regions : checkRegions layer.pages 0 layer.unparsedRegions = .ok ()
  blocks : Numbered layer.pages 0 0 layer.blocks
  status : layer.parseStatus = .partial_ ↔ layer.unparsedRegions ≠ []

theorem Layer.wellFormed_of_check {layer : Layer κ} (ok : layer.check = .ok ()) : WellFormed layer := by
  unfold check at ok
  simp only at ok
  split at ok
  · cases ok
  split at ok
  · cases ok
  split at ok
  · cases ok
  split at ok
  · cases ok
  rename_i status
  split at ok
  · cases ok
  rename_i regions
  refine ⟨regions, (checkBlocks_iff ..).mp ok, ?_⟩
  cases unread : layer.unparsedRegions <;> simp_all

theorem Pinned.wellFormed (layer : Pinned κ) : WellFormed layer.toLayer := Layer.wellFormed_of_check layer.checked

theorem Pinned.pages_pos (layer : Pinned κ) : 1 ≤ layer.pages := by
  have ok := layer.checked
  unfold Layer.check at ok
  simp only at ok
  split at ok
  · cases ok
  split at ok
  · cases ok
  split at ok
  · cases ok
  rename_i source
  rw [not_or] at source
  exact Nat.one_le_iff_ne_zero.mpr source.2

theorem checkRegions_bounds {pages before : Nat} {regions : List (Region κ)}
    (ok : checkRegions pages before regions = .ok ()) : ∀ r ∈ regions, before < r.page ∧ r.page ≤ pages := by
  induction regions generalizing before with
  | nil => exact fun r member => absurd member not_mem_nil
  | cons r rest ih =>
    rw [checkRegions] at ok
    split at ok
    · cases ok
    rename_i inOrder
    split at ok
    · cases ok
    split at ok
    · cases ok
    intro r' member
    rcases mem_cons.mp member with rfl | later
    · omega
    · have := ih ok r' later
      omega

theorem Pinned.block_of_id (layer : Pinned κ) {b b' : Block κ} (member : b ∈ layer.blocks)
    (member' : b' ∈ layer.blocks)
    (same : b.blockId = b'.blockId) : b = b' :=
  inj_on_of_nodup_map layer.wellFormed.blocks.distinct member member' same

end

end Agent24.TextLayer
