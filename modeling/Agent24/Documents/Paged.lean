import Agent24.Documents.Sheets
import Agent24.Documents.Find
import Agent24.Library.Follow
import Agent24.Library.Grouped

/-! What calls that follow the cursors of a reader come to, from what each of its responses gives. -/

set_option autoImplicit false
namespace Agent24.Documents
open Library List

theorem length_of_apart {ranges : List (Nat × Nat)} (low high : Nat) (apart : ranges.Pairwise fun r r' => r.2 ≤ r'.1)
    (inside : ∀ r ∈ ranges, low ≤ r.1 ∧ r.1 < r.2 ∧ r.2 ≤ high) : ranges.length ≤ high - low := by
  induction ranges generalizing low with
  | nil => exact Nat.zero_le _
  | cons r rest ih =>
    rw [pairwise_cons] at apart
    have here := inside r mem_cons_self
    have later := ih r.2 apart.2 fun r' member =>
      ⟨apart.1 r' member, (inside r' (mem_cons_of_mem _ member)).2⟩
    rw [length_cons]
    omega

theorem findRanges_length (query text : String) : (findRanges query text).length ≤ Offsets.size text.toList := by
  rw [findRanges]
  split
  · rename_i q compiled
    have ranges := (Query.find_eq_reference compiled text).ranges
    have count := length_of_apart 0 (Offsets.size text.toList) ranges.apart fun r member => by
      obtain ⟨a, b, c, whole, rfl, here⟩ := ranges.slices r member
      have some_ : b ≠ [] := by
        rintro rfl
        exact Query.itemsOf_some compiled ((matches_nil _).mp here)
      have positive := Offsets.size_pos some_
      have sizes := congrArg Offsets.size whole
      simp only [Offsets.size_append] at sizes ⊢
      omega
    omega
  · exact Nat.zero_le _

section
variable {κ : Type} [LinearOrder κ] [Zero κ]

def bookOf (number : κ → String) (layer : Agent24.TextLayer.Pinned κ) (entries : LayerBlock → List Json) : Book where
  pages := layer.pages
  onPage page := ((viewOf number layer.toLayer).blocks.filter fun b => b.page == page).map entries
  beyond page past := by
    have none_ : ((viewOf number layer.toLayer).blocks.filter fun b => b.page == page) = [] := by
      rw [filter_eq_nil_iff]
      intro b member same
      obtain ⟨block, listed, rfl⟩ := mem_map.mp member
      have last := (layer.wellFormed.blocks.ok block listed).2.2.1
      rw [beq_iff_eq] at same
      simp only at same
      omega
    rw [none_]
    rfl

variable {number : κ → String} {layer : Agent24.TextLayer.Pinned κ} {entries : LayerBlock → List Json}

theorem bookOf_start (number : κ → String) (layer : Agent24.TextLayer.Pinned κ) (entries : LayerBlock → List Json) :
    (bookOf number layer entries).rest ⟨1, 0, 0⟩ = (viewOf number layer.toLayer).blocks.flatMap entries := by
  have sorted : (viewOf number layer.toLayer).blocks.Pairwise fun a b => a.page ≤ b.page :=
    pairwise_map.mpr layer.wellFormed.blocks.sorted
  have inside : ∀ b ∈ (viewOf number layer.toLayer).blocks, 1 ≤ b.page ∧ b.page < 1 + layer.pages := by
    intro b member
    obtain ⟨block, listed, rfl⟩ := mem_map.mp member
    have ok := layer.wellFormed.blocks.ok block listed
    simp only
    omega
  have pages := Grouped.flatMap_filter_key (fun b : LayerBlock => b.page) layer.pages 1 sorted inside
  rw [Book.rest_start layer.pages_pos]
  conv_rhs => rw [← pages, flatMap_assoc]
  refine flatMap_congr fun page _ => ?_
  rw [bookOf, flatMap_def]

theorem bookOf_block_le {page : Nat} : ((bookOf number layer entries).onPage page).length ≤ layer.blocks.length := by
  rw [bookOf, length_map]
  refine (length_filter_le ..).trans ?_
  rw [viewOf, length_map]

theorem bookOf_entry {p : Position} (there : ((bookOf number layer entries).entry p).isSome = true) :
    ∃ b ∈ (viewOf number layer.toLayer).blocks, p.hit < (entries b).length ∧
      ((viewOf number layer.toLayer).blocks.filter fun b => b.page == p.page)[p.block]? = some b := by
  obtain ⟨e, there⟩ := Option.isSome_iff_exists.mp there
  obtain ⟨listed, block, hit⟩ := Book.entry_eq_some there
  rw [bookOf, List.getElem?_map] at block
  obtain ⟨b, found, rfl⟩ := Option.map_eq_some_iff.mp block
  exact ⟨b, (mem_filter.mp (mem_of_getElem? found)).1, (List.getElem?_eq_some_iff.mp hit).1, found⟩

section
variable {json : Sheet → Json} {next : Position → String} {full p : Position} {limit budget : Nat}

theorem findSheet_given
    (reads : Reads (viewOf number layer.toLayer) (bookOf number layer entries) json next ⟨U32_MAX, USIZE_MAX,
        USIZE_MAX⟩)
    (limited : 1 ≤ limit) (accepts : (bookOf number layer entries).Accepts p) :
    PageGiven (viewOf number layer.toLayer) (bookOf number layer entries) json next limit budget p
      (findSheet (viewOf number layer.toLayer) json next entries p limit budget) := by
  have window := lastPage_bounds (viewOf number layer.toLayer) budget accepts.last
  rw [findSheet]
  refine finish_given reads accepts ?_ window rfl
  refine takePages_filled (fun _ => True) (fun _ => trivial) (fun s inside _ => ?_) ⟨Kept.fresh,
      fun _ some_ => absurd rfl some_⟩
    trivial (.inl window.1) rfl
  exact takeFindBlocks_passed limited inside rfl

theorem single_hit {entry : LayerBlock → Json}
    (there : ((bookOf number layer fun b => [entry b]).entry p).isSome = true) : p.hit = 0 := by
  obtain ⟨b, -, inside, -⟩ := bookOf_entry there
  rw [length_singleton] at inside
  omega

theorem textSheet_given {entry : LayerBlock → Json}
    (reads : Reads (viewOf number layer.toLayer) (bookOf number layer fun b => [entry b]) json next
      ⟨U32_MAX, USIZE_MAX, 0⟩)
    (limited : 1 ≤ limit) (accepts : (bookOf number layer fun b => [entry b]).Accepts p) :
    PageGiven (viewOf number layer.toLayer) (bookOf number layer fun b => [entry b]) json next limit budget p
      (textSheet (viewOf number layer.toLayer) json next entry p limit budget) := by
  have window := lastPage_bounds (viewOf number layer.toLayer) budget accepts.last
  rw [textSheet]
  generalize lastPage (viewOf number layer.toLayer) p.page budget = last at window
  generalize filling : takePages budget _ last (last + 1 - p.page) _ = s
  have filled : Filled (bookOf number layer fun b => [entry b]) p limit budget
      (roomUsed (viewOf number layer.toLayer) json next p last ⟨U32_MAX, USIZE_MAX, 0⟩) last s := by
    rw [← filling]
    refine takePages_filled (fun s => s.at_.hit = 0) (fun _ => rfl) (fun s inside here => ?_)
      ⟨Kept.fresh, fun _ some_ => absurd rfl some_⟩ (accepts.hit.elim id single_hit) (.inl window.1) rfl
    refine takeTextBlocks_passed limited inside here ?_
    rw [bookOf, map_drop, map_map]
    rfl
  refine finish_given reads accepts filled window ?_
  have here : s.at_.hit = 0 := filled.place.elim And.right single_hit
  rw [here]
  simp

end

section
variable {signer : Signer} {kind address query : String} {r : Revision}

theorem accepts_encodable {p : Position} (accepts : (bookOf number layer entries).Accepts p)
    (pages : layer.pages < U32_MAX)
    (blocks : layer.blocks.length ≤ USIZE_MAX) (hits : ∀ b ∈ (viewOf number layer.toLayer).blocks,
      (entries b).length ≤ USIZE_MAX) : p.Encodable := by
  have last := accepts.last
  have block := accepts.block.trans bookOf_block_le
  refine ⟨accepts.first, ?_, block.trans blocks, ?_⟩
  · exact last.trans (Nat.le_of_lt pages)
  · rcases accepts.hit with zero | there
    · rw [zero]
      exact Nat.zero_le _
    · obtain ⟨b, member, inside, -⟩ := bookOf_entry there
      exact (Nat.le_of_lt inside).trans (hits b member)

theorem cursor_small {p full : Position} (page : p.page ≤ full.page) (block : p.block ≤ full.block)
    (hit : p.hit ≤ full.hit) : (Json.str (encodeReadCursor signer kind r address p query)).size ≤
      2 + (encodeReadCursor signer kind r address full query).utf8ByteSize := by
  have mono := encodeReadCursor_mono signer kind r address query page block hit
  rw [size_hex (encodeReadCursor_toList ..), (encodeReadCursor_plain signer kind r address p query).bytes,
    (encodeReadCursor_plain signer kind r address full query).bytes]
  omega

end

theorem ranges_short (query : String) : ∀ b ∈ (viewOf number layer.toLayer).blocks,
    (findRanges query b.text).length ≤ USIZE_MAX := by
  intro b member
  obtain ⟨block, listed, rfl⟩ := mem_map.mp member
  have bytes := (layer.wellFormed.blocks.ok block listed).2.2.2.bytes
  exact (findRanges_length query block.text).trans (bytes.trans (by decide))

end

/-! The calls of a client. -/

/-- `next_cursor` of a response. -/
def nextCursor (page : Json) : Option String := (page.get? "next_cursor").bind Json.asStr?

def listOf (name : String) (page : Json) : List Json := ((page.get? name).bind Json.asArray?).getD []

theorem textPageJson_fields (r : Revision) (address : String) (layer : TextLayer) (sheet : Sheet) :
    nextCursor (textPageJson r address layer sheet) = sheet.nextCursor ∧
      listOf "blocks" (textPageJson r address layer sheet) = sheet.entries ∧
      listOf "unparsed_regions" (textPageJson r address layer sheet) = sheet.regions := by
  refine ⟨?_, rfl, rfl⟩
  cases sheet with
  | mk regions entries next => cases next <;> rfl

theorem findPageJson_fields (sheet : Sheet) : nextCursor (findPageJson sheet) = sheet.nextCursor ∧
    listOf "matches" (findPageJson sheet) = sheet.entries ∧
    listOf "unparsed_regions" (findPageJson sheet) = sheet.regions := by
  refine ⟨?_, rfl, rfl⟩
  cases sheet with
  | mk regions entries next => cases next <;> rfl

structure PagedRead where
  layer : TextLayer
  book : Book
  name : String
  budget : Nat
  place : Option String → Option Position
  page : Position → Json
  call : Nat → Option String → Except ApiError Json

/-- The `k`-th call asks from a place; only the first one is without a cursor. -/
structure PagedRead.Asks (read : PagedRead) (k : Nat) (c : Option String) (p : Position) : Prop where
  placed : read.place c = some p
  accepts : read.book.Accepts p
  first : c = none → k = 0

structure Complete (read : PagedRead) (all : List Json) : Prop where
  /-- Every call from an accepted place is answered: with its page, or that it is over the budget. -/
  answers : ∀ k c p, read.Asks k c p → read.call k c = within (read.page p) read.budget
  /-- The cursor of a page is accepted, and strictly later than the one it came from. -/
  onward : ∀ k c p page c', read.Asks k c p → read.call k c = .ok page → nextCursor page = some c' →
    ∃ q, read.Asks (k + 1) (some c') q ∧ p.Before q
  /-- To the end, each entry is given once and in order; a reading that does not come to its end is refused for a
response over the budget. -/
  walk : ∀ n, read.book.pages + all.length < n →
    let reading := Follow.follow nextCursor read.call n 0 none
    (∀ page ∈ reading.1, page.size ≤ read.budget) ∧
    ((reading.2 = .done ∧ reading.1.flatMap (listOf read.name) = all ∧
      ∀ region ∈ read.layer.unparsedRegions, ∃ page ∈ reading.1, region.2 ∈ listOf "unparsed_regions" page) ∨
    ∃ p, reading.2 = .refused (.overBudget read.budget) ∧ read.book.Accepts p ∧ read.budget < (read.page p).size ∧
      all = reading.1.flatMap (listOf read.name) ++ read.book.rest p ∧
      ∀ region ∈ read.layer.unparsedRegions, region.1 < p.page →
        ∃ page ∈ reading.1, region.2 ∈ listOf "unparsed_regions" page)
  /-- A response over the budget has at most a single entry, with the regions of its own page alone. -/
  refused : ∀ p, read.book.Accepts p → read.budget < (read.page p).size → listOf read.name (read.page p) = [] ∨
    ∃ e later, listOf read.name (read.page p) = [e] ∧ read.book.rest p = e :: later ∧
      listOf "unparsed_regions" (read.page p) = regionsBetween read.layer p.page p.page

structure PagedRead.Sound (read : PagedRead) (json : Sheet → Json) (next : Position → String)
    (limit : Nat) : Prop where
  some_ : 1 ≤ read.book.pages
  regions : ∀ region ∈ read.layer.unparsedRegions, 1 ≤ region.1 ∧ region.1 ≤ read.book.pages
  start : read.place none = some ⟨1, 0, 0⟩
  placed : ∀ q, read.book.Accepts q → read.place (some (next q)) = some q
  fields : ∀ sheet, nextCursor (json sheet) = sheet.nextCursor ∧ listOf read.name (json sheet) = sheet.entries ∧
    listOf "unparsed_regions" (json sheet) = sheet.regions
  page : ∀ p, read.book.Accepts p → ∃ sheet, read.page p = json sheet ∧
    PageGiven read.layer read.book json next limit read.budget p sheet
  answers : ∀ k c p, read.Asks k c p → read.call k c = within (read.page p) read.budget

section
variable {read : PagedRead} {json : Sheet → Json} {next : Position → String} {limit : Nat}

theorem within_ok {page given : Json} {budget : Nat} (ok : within page budget = .ok given) :
    given = page ∧ page.size ≤ budget := by
  rw [within] at ok
  split at ok
  · cases ok
  rename_i fits
  cases ok
  exact ⟨rfl, Nat.not_lt.mp fits⟩

theorem within_error {page : Json} {budget : Nat} {e : ApiError} (refused : within page budget = .error e) :
    e = .overBudget budget ∧ budget < page.size := by
  rw [within] at refused
  split at refused
  · rename_i big
    cases refused
    exact ⟨rfl, big⟩
  · cases refused

namespace PagedRead.Sound

def outcomes (read : PagedRead) : Follow.Answers ApiError Json Position where
  last p page := read.book.Accepts p ∧ page = read.page p ∧ page.size ≤ read.budget ∧ nextCursor page = none
  next p page q := page = read.page p ∧ page.size ≤ read.budget ∧ read.book.Accepts q ∧ p.Before q ∧
    read.book.rest p = listOf read.name page ++ read.book.rest q ∧
    (listOf read.name page = [] → p.page < q.page) ∧
    ∃ end_, q.page ≤ end_ + 1 ∧ listOf "unparsed_regions" page = regionsBetween read.layer p.page end_
  refuses p e := read.book.Accepts p ∧ e = .overBudget read.budget ∧ read.budget < (read.page p).size

theorem next_of (sound : read.Sound json next limit) {p : Position} {c : String} (accepts : read.book.Accepts p)
    (fits : (read.page p).size ≤ read.budget) (more : nextCursor (read.page p) = some c) :
    ∃ q, read.place (some c) = some q ∧ (outcomes read).next p (read.page p) q := by
  obtain ⟨sheet, same, given⟩ := sound.page p accepts
  obtain ⟨cursor, entries, regions⟩ := sound.fields sheet
  rw [same, cursor] at more
  obtain ⟨q, rfl, accepts', before, rest, moves, end_, near, covered⟩ := given.more c more
  refine ⟨q, sound.placed q accepts', rfl, fits, accepts', before, ?_, fun none_ => ?_, end_, near, ?_⟩
  · rw [same, entries, rest]
  · rw [same, entries] at none_
    exact moves none_
  · rw [same, regions, covered]

theorem serves (sound : read.Sound json next limit) :
    Follow.Serves nextCursor read.call read.Asks (outcomes read) where
  given asks ok ends := by
    rw [sound.answers _ _ _ asks] at ok
    obtain ⟨rfl, fits⟩ := within_ok ok
    exact ⟨asks.accepts, rfl, fits, ends⟩
  more asks ok on := by
    rw [sound.answers _ _ _ asks] at ok
    obtain ⟨rfl, fits⟩ := within_ok ok
    obtain ⟨q, placed, next⟩ := sound.next_of asks.accepts fits on
    exact ⟨q, ⟨placed, next.2.2.1, fun none_ => (by cases none_)⟩, next⟩
  refuses asks refused := by
    rw [sound.answers _ _ _ asks] at refused
    obtain ⟨rfl, big⟩ := within_error refused
    exact ⟨asks.accepts, rfl, big⟩

theorem down {p q : Position} {page : Json} (moves : (outcomes read).next p page q) :
    (read.book.pages + 1 - q.page) + (read.book.rest q).length <
      (read.book.pages + 1 - p.page) + (read.book.rest p).length := by
  obtain ⟨-, -, accepts, before, rest, empty, -⟩ := moves
  have last := accepts.last
  rw [rest, length_append]
  unfold Position.Before at before
  cases given : listOf read.name page with
  | nil =>
    have later := empty given
    omega
  | cons e more =>
    simp only [length_cons]
    omega

theorem last_reads (sound : read.Sound json next limit) {p : Position} {page : Json}
    (last : (outcomes read).last p page) : read.book.rest p = listOf read.name page ∧
      ∀ x, x ∈ read.layer.unparsedRegions ∧ p.page ≤ x.1 ∧ x.1 ≤ read.book.pages →
        x.2 ∈ listOf "unparsed_regions" page := by
  obtain ⟨accepts, rfl, -, ends⟩ := last
  obtain ⟨sheet, same, given⟩ := sound.page p accepts
  obtain ⟨cursor, entries, regions⟩ := sound.fields sheet
  rw [same, cursor] at ends
  rw [same, entries, regions, (given.last ends).2]
  exact ⟨(given.last ends).1, fun x owed => mem_regionsBetween owed.1 owed.2⟩

theorem next_reads {p q : Position} {page : Json} (moves : (outcomes read).next p page q) :
    read.book.rest p = listOf read.name page ++ read.book.rest q ∧
      ∀ x, x ∈ read.layer.unparsedRegions ∧ p.page ≤ x.1 ∧ x.1 ≤ read.book.pages →
        x.2 ∈ listOf "unparsed_regions" page ∨
          x ∈ read.layer.unparsedRegions ∧ q.page ≤ x.1 ∧ x.1 ≤ read.book.pages := by
  obtain ⟨-, -, -, -, rest, -, end_, near, covered⟩ := moves
  refine ⟨rest, fun x owed => ?_⟩
  by_cases here : x.1 ≤ end_
  · rw [covered]
    exact .inl (mem_regionsBetween owed.1 ⟨owed.2.1, here⟩)
  · exact .inr ⟨owed.1, by omega, owed.2.2⟩

theorem complete (sound : read.Sound json next limit) : Complete read (read.book.rest ⟨1, 0, 0⟩) where
  answers := sound.answers
  onward k c p page c' asks ok on := by
    obtain ⟨q, asks', next⟩ := sound.serves.more asks ok on
    exact ⟨q, asks', next.2.2.2.1⟩
  walk n enough := by
    have begins : read.Asks 0 none ⟨1, 0, 0⟩ :=
      ⟨sound.start, ⟨Nat.le_refl _, sound.some_, Nat.zero_le _, .inl rfl⟩, fun _ => rfl⟩
    have walk := sound.serves.walk (fun p => (read.book.pages + 1 - p.page) + (read.book.rest p).length) down
      (n := n) begins (by simp only [Nat.add_sub_cancel]; exact enough)
    have reads := walk.reads read.book.rest (listOf read.name)
      (fun p x => x ∈ read.layer.unparsedRegions ∧ p.page ≤ x.1 ∧ x.1 ≤ read.book.pages)
      (fun page x => x.2 ∈ listOf "unparsed_regions" page) sound.last_reads next_reads
    refine ⟨walk.each (fun {p page} (last : (outcomes read).last p page) => last.2.2.1)
      fun {p page q} (next : (outcomes read).next p page q) => next.2.1, ?_⟩
    rcases reads with ⟨done, whole, told⟩ | ⟨e, q, refused, ⟨accepts, rfl, big⟩, whole, told⟩
    · exact .inl ⟨done, whole.symm, fun region member => told region ⟨member, sound.regions region member⟩⟩
    refine .inr ⟨q, refused, accepts, big, whole, fun region member earlier => ?_⟩
    refine (told region ⟨member, sound.regions region member⟩).resolve_right fun still => ?_
    omega
  refused p accepts big := by
    obtain ⟨sheet, same, given⟩ := sound.page p accepts
    obtain ⟨-, entries, regions⟩ := sound.fields sheet
    rw [same] at big
    rw [same, entries, regions]
    rcases given.big big with none_ | ⟨e, one, home⟩
    · exact .inl none_
    refine .inr ⟨e, ?_⟩
    cases on : sheet.nextCursor with
    | none => exact ⟨[], one, by rw [(given.last on).1, one], home⟩
    | some c =>
      obtain ⟨q, -, -, -, rest, -⟩ := given.more c on
      exact ⟨read.book.rest q, one, by rw [rest, one]; rfl, home⟩

end PagedRead.Sound

end

end Agent24.Documents
