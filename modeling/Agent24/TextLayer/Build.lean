import Agent24.Library.Inserted
import Agent24.TextLayer.Layer

/-! From the helper's report (each page's lines in reading order) to a text layer: rows joined,
    paragraphs grouped into
blocks within the caps. -/

set_option autoImplicit false
namespace Agent24.TextLayer
open Library Documents List

section
variable (κ : Type)

abbrev Number : Type := Option κ

structure ReadLine where
  text : List Char
  rect : Rect (Number κ)

structure ReadPage where
  page : Nat
  width : Number κ
  height : Number κ
  lines : List (ReadLine κ)

structure ReadRegion where
  page : Nat
  rects : List (Rect (Number κ))
  reason : String

structure Read where
  protocol : Nat
  pages : List (ReadPage κ)
  unparsed : List (ReadRegion κ)

/-- A visual line, and the helper's rectangles for its first and last piece. -/
structure Row where
  text : List Char
  rect : Rect κ
  head : Rect κ
  tail : Rect κ

structure Measures where
  /-- Half a line of overlap, and close to its right. -/
  follows : Rect κ → Rect κ → Bool
  spaced : Rect κ → Rect κ → Bool
  /-- Below it, across from it, near it and about as high. -/
  below : Rect κ → Rect κ → Bool

end

section
variable {κ : Type} [LinearOrder κ] [Zero κ]

/-- `f64::clamp`. -/
def clampTo (low high v : κ) : κ := if v < low then low else if high < v then high else v

def clamp (page : Nat) (width height : κ) (r : Rect (Number κ)) : Except String (Rect κ) :=
  match r with
  | ⟨some x0, some y0, some x1, some y1⟩ =>
    .ok ⟨clampTo 0 width (min x0 x1), clampTo 0 height (min y0 y1), clampTo 0 width (max x0 x1),
      clampTo 0 height (max y0 y1)⟩
  | _ => .error s!"page {page}: a rectangle that is not a number"

def clean (page : Nat) (width height : κ) : List (ReadLine κ) → Except String (List (Row κ))
  | [] => .ok []
  | l :: rest =>
    if l.text.isEmpty then clean page width height rest
    else if '\n' ∈ l.text then .error s!"page {page}: a line with a break in it"
    else
      match clamp page width height l.rect with
      | .error why => .error why
      | .ok rect =>
        match clean page width height rest with
        | .error why => .error why
        | .ok more => .ok (⟨l.text, rect, rect, rect⟩ :: more)

def union (a b : Rect κ) : Rect κ := ⟨min a.x0 b.x0, min a.y0 b.y0, max a.x1 b.x1, max a.y1 b.y1⟩

variable (measures : Measures κ)

/-- Whether a piece joins the row before it, unless a break parts them. -/
def joins (last l : Row κ) : Bool := decide (l.rect ≠ last.tail) && measures.follows last.rect l.rect

def spaceBetween (last l : Row κ) : List Char :=
  let word := fun c : Option Char => c.any Char.isAlphanum
  if measures.spaced last.rect l.rect && (word last.text.getLast? || word l.text.head?) then [' '] else []

def join (last l : Row κ) : Row κ :=
  { last with text := last.text ++ spaceBetween measures last l ++ l.text, rect := union last.rect l.rect, tail :=
      l.rect }

def rowsFrom (last : Row κ) : List (Row κ) → List (Row κ)
  | [] => [last]
  | l :: rest => if joins measures last l then rowsFrom (join measures last l) rest else last :: rowsFrom l rest

def rows : List (Row κ) → List (Row κ)
  | [] => []
  | l :: rest => rowsFrom measures l rest

/-- Whether a row continues the paragraph of the one before it, or is the next part of the same selection. -/
def continues (prev r : Row κ) : Bool := decide (r.head = prev.tail) || measures.below prev.rect r.rect

def paragraphsFrom (sofar : List (Row κ)) (prev : Row κ) : List (Row κ) → List (List (Row κ))
  | [] => [sofar ++ [prev]]
  | r :: rest =>
    if continues measures prev r then paragraphsFrom (sofar ++ [prev]) r rest
    else (sofar ++ [prev]) :: paragraphsFrom [] r rest

def paragraphs : List (Row κ) → List (List (Row κ))
  | [] => []
  | r :: rest => paragraphsFrom measures [] r rest

end

def boundaryBefore (text : List Char) : Nat → Nat
  | 0 => 0
  | cut + 1 => if Offsets.boundary text (cut + 1) then cut + 1 else boundaryBefore text cut

def cutAt (text : List Char) : Nat := boundaryBefore text (min (Offsets.size text) MAX_BLOCK_BYTES)

theorem boundaryBefore_le (text : List Char) (cut : Nat) : boundaryBefore text cut ≤ cut := by
  induction cut with
  | zero => exact le_rfl
  | succ cut ih =>
    rw [boundaryBefore]
    split
    · exact le_rfl
    · exact ih.trans (Nat.le_succ cut)

theorem boundaryBefore_boundary (text : List Char) (cut : Nat) :
    Offsets.boundary text (boundaryBefore text cut) = true := by
  induction cut with
  | zero => exact Offsets.boundary_iff.mpr ⟨[], text, rfl, rfl⟩
  | succ cut ih =>
    rw [boundaryBefore]
    split
    · assumption
    · exact ih

theorem le_boundaryBefore {text : List Char} {at_ cut : Nat} (edge : Offsets.boundary text at_ = true)
    (before : at_ ≤ cut) : at_ ≤ boundaryBefore text cut := by
  induction cut with
  | zero => exact before
  | succ cut ih =>
    rw [boundaryBefore]
    split
    · exact before
    rename_i inside
    have other : at_ ≠ cut + 1 := fun same => inside (same ▸ edge)
    exact ih (by omega)

theorem cutAt_split {text : List Char} (some_ : text ≠ []) :
    ∃ front back, text = front ++ back ∧ front ≠ [] ∧ cutAt text = Offsets.size front ∧
      Offsets.size front ≤ MAX_BLOCK_BYTES := by
  obtain ⟨front, back, whole, size⟩ := Offsets.boundary_iff.mp (boundaryBefore_boundary text (min (Offsets.size text)
    MAX_BLOCK_BYTES))
  refine ⟨front, back, whole, ?_, size.symm, ?_⟩
  · rintro rfl
    obtain ⟨c, rest, rfl⟩ := exists_cons_of_ne_nil some_
    have edge : Offsets.boundary (c :: rest) c.utf8Size = true :=
      Offsets.boundary_iff.mpr ⟨[c], rest, rfl, by simp⟩
    have small : c.utf8Size ≤ min (Offsets.size (c :: rest)) MAX_BLOCK_BYTES := by
      have := c.utf8Size_le_four
      rw [Offsets.size_cons, MAX_BLOCK_BYTES]
      omega
    have cut := le_boundaryBefore edge small
    have := c.utf8Size_pos
    rw [← size, Offsets.size_nil] at cut
    omega
  · rw [size]
    exact (boundaryBefore_le ..).trans (min_le_right ..)

theorem cutAt_rest {text : List Char} (some_ : text ≠ []) :
    (Offsets.slice text (cutAt text) (Offsets.size text)).length < text.length := by
  obtain ⟨front, back, rfl, some_, cut, -⟩ := cutAt_split some_
  rw [cut, Offsets.slice_back, length_append]
  have := length_pos_of_ne_nil some_
  omega

def cutText (rest : List Char) : List (List Char) :=
  if _ : rest = [] then []
  else
    let cut := cutAt rest
    Offsets.slice rest 0 cut :: cutText (Offsets.slice rest cut (Offsets.size rest))
termination_by rest.length
decreasing_by exact cutAt_rest ‹_›

section
variable {κ : Type}

def pieces (r : Row κ) : List (Row κ) :=
  if Offsets.size r.text ≤ MAX_BLOCK_BYTES then [r] else (cutText r.text).map fun text => { r with text }

def withinCapsFrom (b : List (Row κ)) (size : Nat) : List (Row κ) → List (List (Row κ))
  | [] => [b]
  | piece :: rest =>
    -- its text, and the break before it
    let grown := size + 1 + Offsets.size piece.text
    if b.length < MAX_LINES ∧ grown ≤ MAX_BLOCK_BYTES then withinCapsFrom (b ++ [piece]) grown rest
    else b :: withinCapsFrom [piece] (Offsets.size piece.text) rest

/-- Blocks of at most so many rows and bytes, breaks included; a row too long is cut at character boundaries. -/
def withinCaps (rows : List (Row κ)) : List (List (Row κ)) :=
  match rows.flatMap pieces with
  | [] => []
  | piece :: rest => withinCapsFrom [piece] (Offsets.size piece.text) rest

def blockLines (start : Nat) : List (Row κ) → List Char × List (Line κ)
  | [] => ([], [])
  | [r] => (r.text, [⟨start, start + Offsets.size r.text, r.rect⟩])
  | r :: next :: rest =>
    let stop := start + Offsets.size (r.text ++ ['\n'])
    let more := blockLines stop (next :: rest)
    (r.text ++ ['\n'] ++ more.1, ⟨start, stop, r.rect⟩ :: more.2)

/-- Block `n` of a page. -/
def block (page n : Nat) (rows : List (Row κ)) : Block κ :=
  let lines := blockLines 0 rows
  { blockId := blockIdOf page n, page, text := String.ofList lines.1, lines := lines.2 }

def numbered (page n : Nat) : List (List (Row κ)) → List (Block κ)
  | [] => []
  | part :: rest => block page (n + 1) part :: numbered page (n + 1) rest

variable [LinearOrder κ] [Zero κ] (measures : Measures κ)

def pageBlocks (page : Nat) (lines : List (Row κ)) : List (Block κ) :=
  numbered page 0 ((paragraphs measures (rows measures lines)).flatMap withinCaps)

/-- The blocks of the pages from the `i`-th on. -/
def blocksOf (i : Nat) : List (ReadPage κ) → Except String (List (Block κ))
  | [] => .ok []
  | p :: rest =>
    let refused := s!"page {p.page}: out of order or without a size"
    match p.width, p.height with
    | some width, some height =>
      if p.page ≠ i + 1 ∨ ¬ 0 < width ∨ ¬ 0 < height then .error refused
      else
        match clean p.page width height p.lines with
        | .error why => .error why
        | .ok lines =>
          match blocksOf (i + 1) rest with
          | .error why => .error why
          | .ok more => .ok (pageBlocks measures p.page lines ++ more)
    | _, _ => .error refused

def regionsOf (pages : List (ReadPage κ)) : List (ReadRegion κ) → Except String (List (Region κ))
  | [] => .ok []
  | r :: rest =>
    match if r.page = 0 then none else pages[r.page - 1]? with
    | some ⟨page, some width, some height, _⟩ =>
      if REASONS.contains r.reason = false then .error s!"region on page {r.page}: unknown reason"
      else
        -- too many to list, or none: the whole page, wider never narrower
        let rects := if r.rects = [] ∨ MAX_REGION_RECTS < r.rects.length then .ok [⟨0, 0, width, height⟩]
          else r.rects.mapM (clamp page width height)
        match rects with
        | .error why => .error why
        | .ok rects =>
          match regionsOf pages rest with
          | .error why => .error why
          | .ok more => .ok (⟨r.page, rects, r.reason⟩ :: more)
    | _ => .error s!"region on page {r.page}: no such page"

def unchecked (contentSha256 : String) (engine : EngineRef) (config : Json) (read : Read κ) :
    Except String (Layer κ) :=
  if read.protocol ≠ 1 then .error s!"helper protocol {read.protocol}"
  else if 2 ^ 32 ≤ read.pages.length then .error "too many pages"
  else
    match blocksOf measures 0 read.pages with
    | .error why => .error why
    | .ok blocks =>
      match regionsOf read.pages read.unparsed with
      | .error why => .error why
      | .ok unparsedRegions => .ok
        { v := 1
          contentSha256, engine, config
          pages := read.pages.length
          parseStatus := if unparsedRegions.isEmpty then .complete else .partial_
          unparsedRegions, blocks }

def layer (contentSha256 : String) (engine : EngineRef) (config : Json) (read : Read κ) : Except String (Layer κ) :=
  match unchecked measures contentSha256 engine config read with
  | .error why => .error why
  | .ok layer =>
    match layer.check with
    | .error why => .error why
    | .ok () => .ok layer

end

section
variable {κ : Type}

def textOf (rows : List (Row κ)) : List Char := rows.flatMap Row.text

theorem textOf_append (front back : List (Row κ)) : textOf (front ++ back) = textOf front ++ textOf back :=
  flatMap_append

def bytes : List (Row κ) → Nat
  | [] => 0
  | [r] => Offsets.size r.text
  | r :: next :: rest => Offsets.size r.text + 1 + bytes (next :: rest)

theorem bytes_concat (rows : List (Row κ)) (some_ : rows ≠ []) (r : Row κ) :
    bytes (rows ++ [r]) = bytes rows + 1 + Offsets.size r.text := by
  induction rows with
  | nil => exact absurd rfl some_
  | cons first rest ih =>
    cases rest with
    | nil => rfl
    | cons next rest =>
      have more := ih (cons_ne_nil next rest)
      rw [cons_append, cons_append, bytes, ← cons_append, more, bytes]
      omega

theorem cutText_spec (text : List Char) :
    (cutText text).flatten = text ∧ ∀ piece ∈ cutText text, piece ≠ [] ∧ Offsets.size piece ≤ MAX_BLOCK_BYTES := by
  induction text using cutText.induct with
  | case1 =>
    rw [cutText, dif_pos rfl]
    exact ⟨rfl, fun piece member => absurd member not_mem_nil⟩
  | case2 text some_ cut ih =>
    obtain ⟨front, back, whole, filled, size, fits⟩ := cutAt_split some_
    have first : Offsets.slice text 0 (cutAt text) = front := by
      rw [size, whole, Offsets.slice_front]
    have rest : Offsets.slice text (cutAt text) (Offsets.size text) = back := by
      rw [size, whole, Offsets.slice_back]
    rw [cutText, dif_neg some_]
    simp only [cut, rest] at ih ⊢
    rw [first]
    refine ⟨?_, fun piece member => ?_⟩
    · rw [flatten_cons, ih.1, whole]
    · rcases mem_cons.mp member with rfl | later
      · exact ⟨filled, fits⟩
      · exact ih.2 piece later

theorem withoutBreak_clean {text : List Char} (clean : '\n' ∉ text) : '\n' ∉ withoutBreak text := by
  unfold withoutBreak
  split
  · exact fun member => clean (dropLast_subset text member)
  · exact clean

theorem withoutBreak_concat (text : List Char) : withoutBreak (text ++ ['\n']) = text := by
  rw [withoutBreak, if_pos List.getLast?_concat, dropLast_concat]

section
variable [LinearOrder κ] [Zero κ]

structure RowOk (r : Row κ) : Prop where
  some_ : r.text ≠ []
  whole : '\n' ∉ r.text
  valid : rectOk r.rect = true

theorem pieces_spec {r : Row κ} (ok : RowOk r) :
    textOf (pieces r) = r.text ∧ pieces r ≠ [] ∧
      ∀ piece ∈ pieces r, RowOk piece ∧ Offsets.size piece.text ≤ MAX_BLOCK_BYTES := by
  unfold pieces
  split
  · rename_i fits
    exact ⟨append_nil _, cons_ne_nil r [], fun piece member => mem_singleton.mp member ▸ ⟨ok, fits⟩⟩
  obtain ⟨whole, each⟩ := cutText_spec r.text
  have text : textOf ((cutText r.text).map fun text => { r with text }) = r.text := by
    rw [textOf, flatMap_map, flatMap_id', whole]
  refine ⟨text, fun none_ => ?_, fun piece member => ?_⟩
  · rw [none_] at text
    exact ok.some_ text.symm
  · obtain ⟨text, listed, rfl⟩ := mem_map.mp member
    have clean : '\n' ∉ text := fun break_ => ok.whole (whole ▸ mem_flatten.mpr ⟨text, listed, break_⟩)
    exact ⟨⟨(each text listed).1, clean, ok.valid⟩, (each text listed).2⟩

structure PartOk (part : List (Row κ)) : Prop where
  some_ : part ≠ []
  lines : part.length ≤ MAX_LINES
  size : bytes part ≤ MAX_BLOCK_BYTES
  rows : ∀ r ∈ part, RowOk r

theorem withinCapsFrom_spec {b : List (Row κ)} (ok : PartOk b) (rest : List (Row κ))
    (fits : ∀ piece ∈ rest, RowOk piece ∧ Offsets.size piece.text ≤ MAX_BLOCK_BYTES) :
    (withinCapsFrom b (bytes b) rest).flatten = b ++ rest ∧ ∀ part ∈ withinCapsFrom b (bytes b) rest,
        PartOk part := by
  induction rest generalizing b with
  | nil =>
    exact ⟨rfl, fun part member => mem_singleton.mp member ▸ ok⟩
  | cons piece rest ih =>
    have fitsRest := fun later member => fits later (mem_cons_of_mem piece member)
    obtain ⟨pieceOk, small⟩ := fits piece mem_cons_self
    rw [withinCapsFrom]
    split
    · rename_i room
      have grown : PartOk (b ++ [piece]) := by
        refine ⟨by simp, ?_, ?_, ?_⟩
        · rw [length_append, length_singleton]
          exact room.1
        · rw [bytes_concat b ok.some_]
          exact room.2
        · intro r member
          rcases mem_append.mp member with before | last
          · exact ok.rows r before
          · exact mem_singleton.mp last ▸ pieceOk
      have more := ih grown fitsRest
      rw [bytes_concat b ok.some_, append_assoc, singleton_append] at more
      exact more
    · have single : PartOk [piece] :=
        ⟨cons_ne_nil piece [], (by decide : 1 ≤ MAX_LINES), small,
            fun r member => mem_singleton.mp member ▸ pieceOk⟩
      obtain ⟨whole, each⟩ := ih single fitsRest
      have whole : (withinCapsFrom [piece] (Offsets.size piece.text) rest).flatten = piece :: rest := whole
      rw [flatten_cons, whole]
      exact ⟨rfl, forall_mem_cons.mpr ⟨ok, each⟩⟩

theorem withinCaps_spec {rows : List (Row κ)} (ok : ∀ r ∈ rows, RowOk r) :
    textOf (withinCaps rows).flatten = textOf rows ∧ ∀ part ∈ withinCaps rows, PartOk part := by
  have fits : ∀ piece ∈ rows.flatMap pieces, RowOk piece ∧ Offsets.size piece.text ≤ MAX_BLOCK_BYTES := by
    intro piece member
    obtain ⟨r, inRows, inPieces⟩ := mem_flatMap.mp member
    exact (pieces_spec (ok r inRows)).2.2 piece inPieces
  have text : textOf (rows.flatMap pieces) = textOf rows := by
    clear fits
    induction rows with
    | nil => rfl
    | cons r rest ih =>
      rw [flatMap_cons, textOf_append, (pieces_spec (ok r mem_cons_self)).1,
        ih fun r member => ok r (mem_cons_of_mem _ member)]
      rfl
  unfold withinCaps
  cases cut : rows.flatMap pieces with
  | nil =>
    rw [cut] at text
    exact ⟨text, fun part member => absurd member not_mem_nil⟩
  | cons piece rest =>
    rw [cut] at fits text
    obtain ⟨pieceOk, small⟩ := fits piece mem_cons_self
    have single : PartOk [piece] :=
      ⟨cons_ne_nil piece [], (by decide : 1 ≤ MAX_LINES), small,
          fun r member => mem_singleton.mp member ▸ pieceOk⟩
    obtain ⟨whole, each⟩ := withinCapsFrom_spec single rest fun later member => fits later
        (mem_cons_of_mem _ member)
    have whole : (withinCapsFrom [piece] (Offsets.size piece.text) rest).flatten = piece :: rest := whole
    exact ⟨by rw [whole, text], each⟩

theorem clampTo_bounds {high v : κ} (some_ : 0 < high) : 0 ≤ clampTo 0 high v := by
  unfold clampTo
  split
  · exact le_rfl
  split
  · exact some_.le
  · exact le_of_not_gt ‹_›

theorem clampTo_mono {high v w : κ} (some_ : 0 < high) (order : v ≤ w) : clampTo 0 high v ≤ clampTo 0 high w := by
  unfold clampTo
  split
  · exact clampTo_bounds (v := w) some_
  rename_i above
  rw [if_neg (not_lt.mpr ((not_lt.mp above).trans order))]
  split
  · rename_i over_
    rw [if_pos (over_.trans_le order)]
  rename_i within_
  split
  · exact not_lt.mp within_
  · exact order

theorem rectOk_iff {r : Rect κ} :
    rectOk r = true ↔ (0 ≤ r.x0 ∧ 0 ≤ r.y0 ∧ 0 ≤ r.x1 ∧ 0 ≤ r.y1) ∧ r.x0 ≤ r.x1 ∧ r.y0 ≤ r.y1 := by
  simp only [rectOk, Bool.and_eq_true, decide_eq_true_eq, and_assoc]

theorem clamp_ok {page : Nat} {width height : κ} {r : Rect (Number κ)} {rect : Rect κ} (wide : 0 < width)
    (high : 0 < height) (ok : clamp page width height r = .ok rect) : rectOk rect = true := by
  unfold clamp at ok
  split at ok
  · cases ok
    simp only [rectOk, Bool.and_eq_true, decide_eq_true_eq]
    exact ⟨⟨⟨⟨⟨clampTo_bounds wide, clampTo_bounds high⟩, clampTo_bounds wide⟩, clampTo_bounds high⟩,
      clampTo_mono wide min_le_max⟩, clampTo_mono high min_le_max⟩
  · cases ok

theorem union_ok {a b : Rect κ} (valid : rectOk a = true) (valid' : rectOk b = true) : rectOk (union a b) = true := by
  rw [rectOk_iff] at *
  obtain ⟨⟨ax0, ay0, ax1, ay1⟩, ax, ay⟩ := valid
  obtain ⟨⟨bx0, by0, -, -⟩, -, -⟩ := valid'
  exact ⟨⟨le_min ax0 bx0, le_min ay0 by0, le_max_of_le_left ax1, le_max_of_le_left ay1⟩,
    (min_le_left ..).trans (le_max_of_le_left ax), (min_le_left ..).trans (le_max_of_le_left ay)⟩

theorem clean_ok {page : Nat} {width height : κ} {lines : List (ReadLine κ)} {found : List (Row κ)} (wide : 0 < width)
    (high : 0 < height) (ok : clean page width height lines = .ok found) :
    textOf found = lines.flatMap ReadLine.text ∧ ∀ r ∈ found, RowOk r := by
  induction lines generalizing found with
  | nil =>
    cases ok
    exact ⟨rfl, fun r member => absurd member not_mem_nil⟩
  | cons l rest ih =>
    rw [clean] at ok
    rw [flatMap_cons]
    split at ok
    · rename_i none_
      rw [isEmpty_iff.mp none_]
      exact ih ok
    · rename_i some_
      split at ok
      · cases ok
      rename_i whole
      split at ok
      · cases ok
      rename_i rect inside
      split at ok
      · cases ok
      rename_i more found_
      cases ok
      obtain ⟨text, each⟩ := ih found_
      refine ⟨by rw [← text]; rfl, forall_mem_cons.mpr ⟨⟨?_, whole, clamp_ok wide high inside⟩, each⟩⟩
      exact fun none_ => some_ (isEmpty_iff.mpr none_)

def Space (c : Char) : Prop := c = ' '

variable (measures : Measures κ)

theorem join_ok {last l : Row κ} (ok : RowOk last) (ok' : RowOk l) :
    RowOk (join measures last l) ∧ Inserted Space (last.text ++ l.text) (join measures last l).text := by
  have spaces : spaceBetween measures last l = [' '] ∨ spaceBetween measures last l = [] := by
    unfold spaceBetween
    simp only
    split
    · exact .inl rfl
    · exact .inr rfl
  have text : (join measures last l).text = last.text ++ spaceBetween measures last l ++ l.text := rfl
  refine ⟨⟨?_, ?_, union_ok ok.valid ok'.valid⟩, ?_⟩
  · rw [text]
    simp [ok.some_]
  · rw [text]
    rcases spaces with space | none_
    · simp [space, ok.whole, ok'.whole]
    · simp [none_, ok.whole, ok'.whole]
  · rw [text, append_assoc]
    rcases spaces with space | none_
    · rw [space]
      exact (Inserted.refl _).between rfl (Inserted.refl _)
    · rw [none_]
      exact Inserted.refl _

theorem rowsFrom_spec {last : Row κ} (ok : RowOk last) {rest : List (Row κ)} (each : ∀ r ∈ rest, RowOk r) :
    Inserted Space (last.text ++ textOf rest) (textOf (rowsFrom measures last rest)) ∧
      ∀ r ∈ rowsFrom measures last rest, RowOk r := by
  induction rest generalizing last with
  | nil => exact ⟨Inserted.refl _, fun r member => mem_singleton.mp member ▸ ok⟩
  | cons l rest ih =>
    obtain ⟨lOk, restOk⟩ := forall_mem_cons.mp each
    rw [rowsFrom]
    split
    · obtain ⟨joined, put⟩ := join_ok measures ok lOk
      obtain ⟨text, oks⟩ := ih joined restOk
      refine ⟨?_, oks⟩
      have front : Inserted Space (last.text ++ textOf (l :: rest)) ((join measures last l).text ++ textOf rest) := by
        rw [show textOf (l :: rest) = l.text ++ textOf rest from rfl, ← append_assoc]
        exact put.append (Inserted.refl _)
      exact front.trans text
    · obtain ⟨text, oks⟩ := ih lOk restOk
      exact ⟨(Inserted.refl last.text).append text, forall_mem_cons.mpr ⟨ok, oks⟩⟩

theorem rows_spec {lines : List (Row κ)} (each : ∀ r ∈ lines, RowOk r) :
    Inserted Space (textOf lines) (textOf (rows measures lines)) ∧ ∀ r ∈ rows measures lines, RowOk r := by
  cases lines with
  | nil => exact ⟨.nil, fun r member => absurd member not_mem_nil⟩
  | cons l rest =>
    obtain ⟨lOk, restOk⟩ := forall_mem_cons.mp each
    exact rowsFrom_spec measures lOk restOk

omit [Zero κ] in
theorem paragraphsFrom_flatten (sofar : List (Row κ)) (prev : Row κ) (rest : List (Row κ)) :
    (paragraphsFrom measures sofar prev rest).flatten = sofar ++ prev :: rest := by
  induction rest generalizing sofar prev with
  | nil => rw [paragraphsFrom, flatten_singleton]
  | cons r rest ih =>
    rw [paragraphsFrom]
    split
    · rw [ih, append_assoc, singleton_append]
    · rw [flatten_cons, ih, append_assoc, nil_append, singleton_append]

omit [Zero κ] in
theorem paragraphs_flatten (rows : List (Row κ)) : (paragraphs measures rows).flatten = rows := by
  cases rows with
  | nil => rfl
  | cons r rest => exact paragraphsFrom_flatten measures [] r rest

/-- What is put into a page's text: spaces between words, and the breaks between lines. -/
def SpaceOrBreak (c : Char) : Prop := c = ' ' ∨ c = '\n'

theorem blockLines_spec (start : Nat) {part : List (Row κ)} (each : ∀ r ∈ part, RowOk r) :
    Tiles start (blockLines start part).2 (blockLines start part).1 ∧
      Inserted SpaceOrBreak (textOf part) (blockLines start part).1 ∧
        Offsets.size (blockLines start part).1 = bytes part ∧ (blockLines start part).2.length = part.length := by
  induction part generalizing start with
  | nil => exact ⟨.done start, .nil, rfl, rfl⟩
  | cons r rest ih =>
    obtain ⟨ok, restOk⟩ := forall_mem_cons.mp each
    cases rest with
    | nil =>
      have tiles : Tiles start [⟨start, start + Offsets.size r.text, r.rect⟩] (r.text ++ []) :=
        Tiles.line ok.some_ (withoutBreak_clean ok.whole) ok.valid (Tiles.done (start + Offsets.size r.text))
      rw [append_nil] at tiles
      refine ⟨tiles, ?_, rfl, rfl⟩
      rw [textOf, flatMap_singleton]
      exact Inserted.refl _
    | cons next rest =>
      obtain ⟨tiles, text, size, count⟩ := ih (start + Offsets.size (r.text ++ ['\n'])) restOk
      rw [blockLines, bytes]
      have clean : '\n' ∉ withoutBreak (r.text ++ ['\n']) := by
        rw [withoutBreak_concat]
        exact ok.whole
      refine ⟨.line (by simp) clean ok.valid tiles, ?_, ?_, ?_⟩
      · rw [append_assoc]
        exact (Inserted.refl r.text).between (.inr rfl) text
      · rw [Offsets.size_append, size, Offsets.size_append, Offsets.size_cons, Offsets.size_nil]
        rfl
      · rw [length_cons, count]
        rfl

theorem block_ok (page n : Nat) {part : List (Row κ)} (ok : PartOk part) : BlockOk (block page n part) := by
  obtain ⟨tiles, put, size, count⟩ := blockLines_spec 0 ok.rows
  have text : (block page n part).text.toList = (blockLines 0 part).1 := String.toList_ofList
  have lines : (block page n part).lines = (blockLines 0 part).2 := rfl
  refine ⟨?_, ?_, ?_, ?_⟩
  · rw [text]
    intro none_
    rw [none_] at put
    obtain ⟨r, rest, rfl⟩ := exists_cons_of_ne_nil ok.some_
    generalize whole : textOf (r :: rest) = written at put
    cases put
    exact (ok.rows r mem_cons_self).some_ (append_eq_nil_iff.mp whole).1
  · rw [text, size]
    exact ok.size
  · rw [lines, count]
    exact ok.lines
  · rw [text, lines]
    exact tiles

def textOfBlocks (blocks : List (Block κ)) : List Char := blocks.flatMap fun b => b.text.toList

theorem numbered_text (page n : Nat) {parts : List (List (Row κ))} (each : ∀ part ∈ parts, PartOk part) :
    Inserted SpaceOrBreak (textOf parts.flatten) (textOfBlocks (numbered page n parts)) := by
  induction parts generalizing n with
  | nil => exact .nil
  | cons part rest ih =>
    obtain ⟨ok, restOk⟩ := forall_mem_cons.mp each
    have first : Inserted SpaceOrBreak (textOf part) (block page (n + 1) part).text.toList := by
      rw [show (block page (n + 1) part).text.toList = (blockLines 0 part).1 from String.toList_ofList]
      exact (blockLines_spec 0 ok.rows).2.1
    rw [flatten_cons, textOf_append]
    exact first.append (ih (n + 1) restOk)

theorem numbered_numbered {pages page : Nat} (inside : 0 < page ∧ page ≤ pages) {parts : List (List (Row κ))}
    (each : ∀ part ∈ parts, PartOk part) {more : List (Block κ)}
    (later : ∀ cur n, cur ≤ page → Numbered pages cur n more) (cur n m : Nat) (before : cur ≤ page)
    (next : numberOn cur n page = m + 1) : Numbered pages cur n (numbered page m parts ++ more) := by
  induction parts generalizing cur n m with
  | nil => exact later cur n before
  | cons part rest ih =>
    obtain ⟨ok, restOk⟩ := forall_mem_cons.mp each
    have named : (block page (m + 1) part).blockId = blockIdOf page (numberOn cur n page) := by
      rw [next]
      rfl
    refine .block before inside.1 inside.2 named (block_ok page (m + 1) ok) ?_
    apply ih restOk page _ (m + 1) le_rfl
    rw [numberOn, if_pos rfl]
    exact congrArg (· + 1) next

theorem parts_spec {paragraphs : List (List (Row κ))} (each : ∀ r ∈ paragraphs.flatten, RowOk r) :
    textOf (paragraphs.flatMap withinCaps).flatten = textOf paragraphs.flatten ∧
      ∀ part ∈ paragraphs.flatMap withinCaps, PartOk part := by
  induction paragraphs with
  | nil => exact ⟨rfl, fun part member => absurd member not_mem_nil⟩
  | cons rows rest ih =>
    obtain ⟨text, parts⟩ := withinCaps_spec fun r member => each r (mem_append_left _ member)
    obtain ⟨textRest, partsRest⟩ := ih fun r member => each r (mem_append_right _ member)
    rw [flatMap_cons, flatten_append, textOf_append, text, textRest, flatten_cons, textOf_append]
    exact ⟨rfl, forall_mem_append.mpr ⟨parts, partsRest⟩⟩

def partsOf (lines : List (Row κ)) : List (List (Row κ)) :=
    (paragraphs measures (rows measures lines)).flatMap withinCaps

theorem partsOf_spec {lines : List (Row κ)} (each : ∀ r ∈ lines, RowOk r) :
    Inserted SpaceOrBreak (textOf lines) (textOf (partsOf measures lines).flatten) ∧
      ∀ part ∈ partsOf measures lines, PartOk part := by
  obtain ⟨joined, rowsOk⟩ := rows_spec measures each
  have flat := paragraphs_flatten measures (rows measures lines)
  rw [← flat] at rowsOk
  obtain ⟨text, parts⟩ := parts_spec rowsOk
  refine ⟨?_, parts⟩
  rw [flat] at text
  rw [partsOf, text]
  exact joined.mono fun c space => .inl space

omit [LinearOrder κ] [Zero κ] in
theorem numbered_page {page n : Nat} {parts : List (List (Row κ))} {b : Block κ}
    (member : b ∈ numbered page n parts) :
    b.page = page := by
  induction parts generalizing n with
  | nil => exact absurd member not_mem_nil
  | cons part rest ih =>
    rcases mem_cons.mp member with rfl | later
    · rfl
    · exact ih later

/-- What the pages from the `i`-th on are made into. -/
structure BlocksFrom (pages i : Nat) (read : List (ReadPage κ)) (blocks : List (Block κ)) : Prop where
  numbered : ∀ cur n, cur ≤ i → Numbered pages cur n blocks
  after : ∀ b ∈ blocks, i < b.page
  inside : ∀ p ∈ read, i < p.page
  text : ∀ p ∈ read, Inserted SpaceOrBreak (p.lines.flatMap ReadLine.text)
    (textOfBlocks (blocks.filter fun b => decide (b.page = p.page)))

theorem blocksOf_blocksFrom {pages i : Nat} {read : List (ReadPage κ)} {blocks : List (Block κ)}
    (room : i + read.length ≤ pages)
        (ok : blocksOf measures i read = .ok blocks) : BlocksFrom pages i read blocks := by
  induction read generalizing i blocks with
  | nil =>
    cases ok
    exact ⟨fun cur n _ => .done cur n, fun b member => absurd member not_mem_nil,
      fun p member => absurd member not_mem_nil, fun p member => absurd member not_mem_nil⟩
  | cons p rest ih =>
    rw [blocksOf] at ok
    split at ok
    · rename_i width height wide high
      split at ok
      · cases ok
      rename_i valid
      simp only [not_or, not_not] at valid
      obtain ⟨number, wide_, high_⟩ := valid
      split at ok
      · cases ok
      rename_i lines cleaned
      split at ok
      · cases ok
      rename_i more later
      cases ok
      rw [length_cons] at room
      have on := ih (i := i + 1) (by omega) later
      obtain ⟨text, each⟩ := clean_ok wide_ high_ cleaned
      obtain ⟨put, parts⟩ := partsOf_spec measures each
      have pageOf : ∀ b ∈ pageBlocks measures p.page lines, b.page = p.page :=
          fun b member => numbered_page member
      refine ⟨fun cur n before => ?_, fun b member => ?_, ?_, ?_⟩
      · apply numbered_numbered (by omega) parts _ cur n 0 (by omega)
        · rw [numberOn, if_neg (by omega)]
        · intro cur n before
          exact on.numbered cur n (by omega)
      · rcases mem_append.mp member with here | there
        · rw [pageOf b here]
          omega
        · have := on.after b there
          omega
      · refine forall_mem_cons.mpr ⟨by omega, fun q member => ?_⟩
        have := on.inside q member
        omega
      · refine forall_mem_cons.mpr ⟨?_, fun q member => ?_⟩
        · have mine : (pageBlocks measures p.page lines).filter (fun b => decide (b.page = p.page)) =
              pageBlocks measures p.page lines := by
            rw [filter_eq_self]
            exact fun b member => decide_eq_true (pageOf b member)
          have others : more.filter (fun b => decide (b.page = p.page)) = [] := by
            rw [filter_eq_nil_iff]
            intro b member same
            have := on.after b member
            have := of_decide_eq_true same
            omega
          rw [filter_append, mine, others, append_nil, ← text]
          exact put.trans (numbered_text p.page 0 parts)
        · have after := on.inside q member
          have none_ : (pageBlocks measures p.page lines).filter (fun b => decide (b.page = q.page)) = [] := by
            rw [filter_eq_nil_iff]
            intro b listed same
            have := pageOf b listed
            have := of_decide_eq_true same
            omega
          rw [filter_append, none_, nil_append]
          exact on.text q member
    · cases ok

end

end

structure Building {κ : Type} [LinearOrder κ] [Zero κ] (pages : List (ReadPage κ))
    (blocks : List (Block κ)) : Prop where
  /-- Ids in order, and every block as the checker wants it. -/
  checked : checkBlocks pages.length 0 0 blocks = .ok ()
  each : ∀ b ∈ blocks, checkBlock b = .ok ()
  /-- Lines on character boundaries, end to end, a break only at the end of one. -/
  tiles : ∀ b ∈ blocks, Tiles 0 b.lines b.text.toList
  caps : ∀ b ∈ blocks, Offsets.size b.text.toList ≤ MAX_BLOCK_BYTES ∧ b.lines.length ≤ MAX_LINES
  ids : (blocks.map fun b => b.blockId).Nodup
  /-- A page's text is kept in order: only spaces and breaks are put in. -/
  text : ∀ p ∈ pages, Inserted SpaceOrBreak (p.lines.flatMap ReadLine.text)
    (textOfBlocks (blocks.filter fun b => decide (b.page = p.page)))

/-- How a report is built into a layer, however its rectangles compare. -/
structure Buildable {κ : Type} [LinearOrder κ] [Zero κ] (measures : Measures κ) (read : Read κ) : Prop where
  blocks : ∀ blocks, blocksOf measures 0 read.pages = .ok blocks → Building read.pages blocks
  /-- A layer of the report passes its check of the blocks. -/
  layer : ∀ contentSha256 engine config layer, unchecked measures contentSha256 engine config read = .ok layer →
    checkBlocks layer.pages 0 0 layer.blocks = .ok ()
  /-- Cutting a text ends, with the whole of it in pieces that fit. -/
  cut : ∀ text, (cutText text).flatten = text ∧
    ∀ piece ∈ cutText text, piece ≠ [] ∧ Offsets.size piece ≤ MAX_BLOCK_BYTES

theorem building_of_blocks {κ : Type} [LinearOrder κ] [Zero κ] (measures : Measures κ) {read : List (ReadPage κ)}
    {blocks : List (Block κ)} (ok : blocksOf measures 0 read = .ok blocks) : Building read blocks := by
  have from_ : BlocksFrom read.length 0 read blocks := blocksOf_blocksFrom measures (by omega) ok
  have numbered := from_.numbered 0 0 le_rfl
  have oks := fun b member => (numbered.ok b member).2.2.2
  exact
    { checked := (checkBlocks_iff ..).mpr numbered
      each := fun b member => (checkBlock_iff b).mpr (oks b member)
      tiles := fun b member => (oks b member).tiles
      caps := fun b member => ⟨(oks b member).bytes, (oks b member).lines⟩
      ids := numbered.distinct
      text := from_.text }

theorem report_builds {κ : Type} [LinearOrder κ] [Zero κ] (measures : Measures κ) (read : Read κ) :
    Buildable measures read where
  blocks _ ok := building_of_blocks measures ok
  layer contentSha256 engine config layer ok := by
    unfold unchecked at ok
    split at ok
    · cases ok
    split at ok
    · cases ok
    split at ok
    · cases ok
    rename_i blocks built
    split at ok
    · cases ok
    · cases ok
      exact (building_of_blocks measures built).checked
  cut := cutText_spec

end Agent24.TextLayer
