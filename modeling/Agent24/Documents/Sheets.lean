import Agent24.Documents.Filling

/-! What one response gives: the entries up to its cursor, the regions of the pages it covers, within its budget. -/

set_option autoImplicit false
namespace Agent24.Documents
open Library

section
variable {layer : TextLayer} {start last : Nat}

theorem lastFrom_bounds (budget used : Nat) (regions : List (Nat × Json)) (within_ : start ≤ last) :
    start ≤ lastFrom start last budget used regions ∧ lastFrom start last budget used regions ≤ last := by
  induction regions generalizing used with
  | nil => exact ⟨within_, Nat.le_refl _⟩
  | cons region rest ih =>
    rw [lastFrom]
    split
    · exact ih used
    rename_i inside
    simp only
    split
    · rename_i far
      omega
    · exact ih _

theorem lastPage_bounds (layer : TextLayer) (budget : Nat) (within_ : start ≤ layer.pages) :
    start ≤ lastPage layer start budget ∧ lastPage layer start budget ≤ layer.pages := by
  have reach : start ≤ min layer.pages (start + (PAGES - 1)) := by omega
  have bounds := lastFrom_bounds budget 0 layer.unparsedRegions reach
  exact ⟨bounds.1, bounds.2.trans (Nat.min_le_left ..)⟩

theorem regionsBetween_sublist (layer : TextLayer) (first : Nat) {last' : Nat} (narrower : last' ≤ last) :
    (regionsBetween layer first last').Sublist (regionsBetween layer first last) := by
  refine (List.monotone_filter_right _ fun r => ?_).map Prod.snd
  simp only [decide_eq_true_eq]
  intro inside
  omega

theorem mem_regionsBetween {first : Nat} {r : Nat × Json} (member : r ∈ layer.unparsedRegions)
    (inside : first ≤ r.1 ∧ r.1 ≤ last) : r.2 ∈ regionsBetween layer first last :=
  List.mem_map_of_mem (List.mem_filter.mpr ⟨member, decide_eq_true inside⟩)

end

def Sheet.bytes (sheet : Sheet) : Nat :=
  (statusJson sheet.regions).size + (Json.arr sheet.regions).size + (Json.arr sheet.entries).size +
    (sheet.nextCursor.elim Json.null Json.str).size

theorem Sheet.json_size (head : List (String × Json)) (name : String) :
    ∃ base, ∀ sheet : Sheet, (sheet.json head name).size = base + sheet.bytes := by
  have filled (sheet : Sheet) : head ++ [("parse_status", statusJson sheet.regions),
      ("unparsed_regions", .arr sheet.regions), (name, .arr sheet.entries),
      ("next_cursor", sheet.nextCursor.elim .null .str)] ≠ [] := by simp
  refine ⟨1 + (head.map Json.fieldBytes).sum + Json.bytes (Json.renderStr "parse_status") +
    Json.bytes (Json.renderStr "unparsed_regions") + Json.bytes (Json.renderStr name) +
    Json.bytes (Json.renderStr "next_cursor") + 8, fun sheet => ?_⟩
  rw [Sheet.json, Json.size_obj (filled sheet), List.map_append, List.sum_append, Sheet.bytes]
  simp only [List.map_cons, List.map_nil, List.sum_cons, List.sum_nil, Json.fieldBytes]
  omega

theorem statusJson_size (regions : List Json) : (statusJson regions).size ≤ (statusJson []).size := by
  rw [statusJson]
  split
  · exact Nat.le_refl _
  · decide +kernel

theorem size_hex {text : String} {bytes : List UInt8} (hex : text.toList = bytes.flatMap hexByte) :
    (Json.str text).size = 2 + text.utf8ByteSize := by
  have known : ∀ c ∈ ['0', '1', '2', '3', '4', '5', '6', '7', '8', '9', 'a', 'b', 'c', 'd', 'e', 'f'],
      Json.escapeChar c = [c] := List.all_iff_forall_prop.mp (by decide)
  have plain : text.toList.flatMap Json.escapeChar = text.toList := by
    rw [hex, List.flatMap_assoc]
    refine List.flatMap_congr fun b _ => ?_
    simp [hexByte, known _ (hexDigitOf_mem _)]
  have quote : '"'.utf8Size = 1 := by decide
  rw [Json.size_eq, Json.utf8ByteSize_eq, Json.renderChars, Json.renderStr, plain]
  simp only [List.cons_append, Json.bytes_cons, Json.bytes_append, quote, Json.bytes_nil]
  omega

/-- A reader of a layer: its entries as a book, its response, and its cursors, none longer than one of the last
place there could be. -/
structure Reads (layer : TextLayer) (book : Book) (json : Sheet → Json) (next : Position → String) (full : Position) :
    Prop where
  pages : layer.pages = book.pages
  sized : ∃ base, ∀ sheet, (json sheet).size = base + sheet.bytes
  small : ∀ q, book.Accepts q → (Json.str (next q)).size ≤ 2 + (next full).utf8ByteSize

structure PageGiven (layer : TextLayer) (book : Book) (json : Sheet → Json) (next : Position → String)
    (limit budget : Nat) (p : Position) (sheet : Sheet) : Prop where
  count : sheet.entries.length ≤ limit
  last : sheet.nextCursor = none → book.rest p = sheet.entries ∧
    sheet.regions = regionsBetween layer p.page book.pages
  /-- With one, everything up to the later place it names. -/
  more : ∀ c, sheet.nextCursor = some c → ∃ q, c = next q ∧ book.Accepts q ∧ p.Before q ∧
    book.rest p = sheet.entries ++ book.rest q ∧ (sheet.entries = [] → p.page < q.page) ∧
      ∃ end_, q.page ≤ end_ + 1 ∧ sheet.regions = regionsBetween layer p.page end_
  /-- Past the budget, no more than a single entry and the regions of its own page. -/
  big : budget < (json sheet).size → sheet.entries = [] ∨
    ∃ e, sheet.entries = [e] ∧ sheet.regions = regionsBetween layer p.page p.page

section
variable {layer : TextLayer} {book : Book} {json : Sheet → Json} {next : Position → String} {full p : Position}
  {limit budget last end_ : Nat} {s : Filling}

theorem Filled.accepts (filled : Filled book p limit budget (roomUsed layer json next p last full) last s)
    (accepts : book.Accepts p) (inside : s.at_.page ≤ book.pages) : book.Accepts s.at_ where
  first := by
    have order := filled.order
    have first := accepts.first
    unfold Position.UpTo at order
    omega
  last := inside
  block := by
    rcases filled.place with corner | there
    · rw [corner.1]
      exact Nat.zero_le _
    obtain ⟨e, there⟩ := Option.isSome_iff_exists.mp there
    obtain ⟨entries, block, -⟩ := Book.entry_eq_some there
    exact Nat.le_of_lt (List.getElem?_eq_some_iff.mp block).1
  hit := filled.place.imp And.right id

theorem Filled.first_accepts (filled : Filled book p limit budget (roomUsed layer json next p last full) last s)
    (accepts : book.Accepts p) (window : last ≤ book.pages) (some_ : s.taken ≠ []) : book.Accepts s.first := by
  obtain ⟨order, before, -, there⟩ := filled.first some_
  obtain ⟨e, entry⟩ := Option.isSome_iff_exists.mp there
  obtain ⟨entries, block, -⟩ := Book.entry_eq_some entry
  refine ⟨?_, ?_, Nat.le_of_lt (List.getElem?_eq_some_iff.mp block).1, .inr there⟩
  · have first := accepts.first
    unfold Position.UpTo at order
    omega
  · unfold Position.Before at before
    rcases filled.page with inside | at_
    · omega
    rw [at_] at before
    simp only at before
    omega

theorem Filled.json_size (filled : Filled book p limit budget (roomUsed layer json next p last full) last s)
    (reads : Reads layer book json next full) (accepts : book.Accepts p) (narrower : end_ ≤ last) :
    (json ⟨regionsBetween layer p.page end_, s.taken,
      if s.at_.page ≤ layer.pages then some (next s.at_) else none⟩).size ≤ s.used := by
  obtain ⟨base, sized⟩ := reads.sized
  have used := filled.used
  rw [roomUsed, sized] at used
  rw [sized]
  have regions := Json.size_arr_sublist (regionsBetween_sublist layer p.page narrower)
  have entries := Json.size_arr s.taken
  have status := statusJson_size (regionsBetween layer p.page end_)
  have empty : (Json.arr []).size = 2 := by decide +kernel
  have null : Json.null.size = 4 := by decide +kernel
  simp only [Sheet.bytes, empty, Option.elim_none, null] at used ⊢
  split
  · rename_i inside
    have small := reads.small s.at_ (filled.accepts accepts (by rw [← reads.pages]; exact inside))
    rw [Option.elim_some]
    omega
  · rw [Option.elim_none, null]
    omega

theorem finish_given (reads : Reads layer book json next full) (accepts : book.Accepts p)
    (filled : Filled book p limit budget (roomUsed layer json next p last full) last s)
    (window : p.page ≤ last ∧ last ≤ book.pages)
    (ends : end_ = if s.at_.block = 0 ∧ s.at_.hit = 0 then s.at_.page - 1 else s.at_.page) :
    PageGiven layer book json next limit budget p (finish layer json next budget p last end_ s) := by
  have some_of (past : p.page < s.first.page) : s.taken ≠ [] := fun none_ => by
    rw [filled.unmoved none_] at past
    omega
  have reach : s.at_ = ⟨last + 1, 0, 0⟩ → end_ = last := by
    intro at_
    rw [ends, at_]
    simp
  unfold finish
  generalize whole_ : (⟨regionsBetween layer p.page (min end_ last), s.taken,
    if s.at_.page ≤ layer.pages then some (next s.at_) else none⟩ : Sheet) = out
  by_cases cleared : budget < s.used ∧ p.page < s.first.page ∧ budget < (json out).size
  · -- the pages before the first entry's alone
    rw [if_pos cleared]
    obtain ⟨-, past, -⟩ := cleared
    obtain ⟨-, -, same, -⟩ := filled.first (some_of past)
    refine ⟨Nat.zero_le _, fun none_ => (by cases none_), fun c given => ?_, fun _ => .inl rfl⟩
    cases given
    refine ⟨s.first, rfl, filled.first_accepts accepts window.2 (some_of past), .inl past, same, fun _ => past, _,
        ?_, rfl⟩
    omega
  · rw [if_neg cleared]
    subst whole_
    refine ⟨filled.count, fun none_ => ?_, fun c given => ?_, fun big => ?_⟩
    · simp only at none_ ⊢
      split at none_
      · cases none_
      rename_i out
      have at_ : s.at_ = ⟨last + 1, 0, 0⟩ := filled.page.resolve_left (by rw [reads.pages] at out; omega)
      have whole := filled.whole
      rw [reads.pages] at out
      rw [Book.rest_end (p := s.at_) (by omega), List.append_nil] at whole
      have all : last = book.pages := by
        rw [at_] at out
        simp only at out
        omega
      refine ⟨whole, ?_⟩
      rw [reach at_, Nat.min_self, all]
    · simp only at given ⊢
      split at given
      · rename_i inside
        rw [reads.pages] at inside
        have later : s.taken = [] → p.page < s.at_.page := fun none_ => by
          rw [filled.empty none_]
          exact Nat.lt_succ_of_le window.1
        refine ⟨s.at_, (Option.some.inj given).symm, filled.accepts accepts inside, ?_, filled.whole, later,
            min end_ last, ?_, rfl⟩
        · by_cases none_ : s.taken = []
          · exact .inl (later none_)
          · obtain ⟨order, before, -, -⟩ := filled.first none_
            exact order.trans_before before
        · rcases filled.page with near | at_
          · split at ends <;> omega
          · rw [reach at_, at_]
            simp
      · cases given
    · simp only at big ⊢
      have size := filled.json_size reads accepts (Nat.min_le_right end_ last)
      have past : budget < s.used := big.trans_le size
      by_cases none_ : s.taken = []
      · exact .inl none_
      refine .inr ?_
      have one : s.taken.length = 1 := by
        have single := filled.single.resolve_left (Nat.not_le.mpr past)
        have := List.length_pos_iff.mpr none_
        omega
      obtain ⟨e, taken⟩ := List.length_eq_one_iff.mp one
      obtain ⟨order, before, -, -⟩ := filled.first none_
      have home : s.first.page = p.page := by
        unfold Position.UpTo at order
        omega
      refine ⟨e, taken, ?_⟩
      have covered : min end_ last = p.page := by
        unfold Position.Before at before
        rcases filled.near past none_ with same | at_
        · split at ends <;> omega
        rw [at_] at ends
        simp only [and_self, if_true] at ends
        omega
      rw [covered]

end

end Agent24.Documents
