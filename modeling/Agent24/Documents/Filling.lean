import Agent24.Documents.Pages

/-! How a response is filled: what is left to read from a place, and what every step of the filling keeps. -/

set_option autoImplicit false
namespace Agent24.Documents
open Library List

structure Book where
  pages : Nat
  onPage : Nat → List (List Json)
  beyond : ∀ page, pages < page → onPage page = []

namespace Position

def Before (a b : Position) : Prop :=
  a.page < b.page ∨ a.page = b.page ∧ (a.block < b.block ∨ a.block = b.block ∧ a.hit < b.hit)

def UpTo (a b : Position) : Prop :=
  a.page < b.page ∨ a.page = b.page ∧ (a.block < b.block ∨ a.block = b.block ∧ a.hit ≤ b.hit)

theorem UpTo.refl (a : Position) : a.UpTo a := .inr ⟨rfl, .inr ⟨rfl, Nat.le_refl _⟩⟩

theorem Before.upTo {a b : Position} (before : a.Before b) : a.UpTo b := by
  unfold Before at before
  unfold UpTo
  omega

theorem UpTo.trans_before {a b c : Position} (first : a.UpTo b) (second : b.Before c) : a.Before c := by
  unfold UpTo at first
  unfold Before at second ⊢
  omega

end Position

namespace Book
variable (book : Book)

def entry (p : Position) : Option Json := ((book.onPage p.page)[p.block]?).bind fun entries => entries[p.hit]?

def leftOf (hit : Nat) : List (List Json) → List Json
  | [] => []
  | entries :: later => entries.drop hit ++ later.flatten

def rest (p : Position) : List Json :=
  leftOf p.hit ((book.onPage p.page).drop p.block) ++
    (List.range' (p.page + 1) (book.pages - p.page)).flatMap fun page => (book.onPage page).flatten

structure Accepts (p : Position) : Prop where
  first : 1 ≤ p.page
  last : p.page ≤ book.pages
  block : p.block ≤ (book.onPage p.page).length
  hit : p.hit = 0 ∨ (book.entry p).isSome = true

variable {book} {p : Position}

theorem leftOf_zero (blocks : List (List Json)) : leftOf 0 blocks = blocks.flatten := by
  cases blocks <;> simp [leftOf]

theorem entry_eq_some {e : Json} (here : book.entry p = some e) :
    ∃ entries, (book.onPage p.page)[p.block]? = some entries ∧ entries[p.hit]? = some e :=
  Option.bind_eq_some_iff.mp here

theorem drop_of_getElem? {α : Type} {xs : List α} {i : Nat} {x : α} (here : xs[i]? = some x) :
    xs.drop i = x :: xs.drop (i + 1) := by
  obtain ⟨inside, rfl⟩ := List.getElem?_eq_some_iff.mp here
  exact drop_eq_getElem_cons inside

theorem rest_hit {e : Json} (here : book.entry p = some e) : book.rest p = e :: book.rest { p with hit :=
    p.hit + 1 } := by
  obtain ⟨entries, block, hit⟩ := entry_eq_some here
  rw [rest, rest, drop_of_getElem? block, leftOf, leftOf, drop_of_getElem? hit]
  rfl

theorem rest_block {entries : List Json} (block : (book.onPage p.page)[p.block]? = some entries)
    (read : entries.length ≤ p.hit) : book.rest p = book.rest ⟨p.page, p.block + 1, 0⟩ := by
  rw [rest, rest, drop_of_getElem? block, leftOf, drop_eq_nil_of_le read, leftOf_zero, nil_append]

theorem rest_page (read : (book.onPage p.page).length ≤ p.block) : book.rest p = book.rest ⟨p.page + 1, 0, 0⟩ := by
  have onward : book.rest ⟨p.page + 1, 0, 0⟩ = (book.onPage (p.page + 1)).flatten ++
      (List.range' (p.page + 2) (book.pages - (p.page + 1))).flatMap fun page => (book.onPage page).flatten := by
    rw [rest, leftOf_zero, drop_zero]
  rw [rest, drop_eq_nil_of_le read, leftOf, nil_append, onward]
  by_cases last : book.pages ≤ p.page
  · rw [book.beyond _ (by omega), Nat.sub_eq_zero_of_le last, Nat.sub_eq_zero_of_le (by omega)]
    rfl
  · have split : book.pages - p.page = (book.pages - (p.page + 1)) + 1 := by omega
    rw [split, List.range'_succ, flatMap_cons]

theorem rest_end (last : book.pages < p.page) : book.rest p = [] := by
  rw [rest, book.beyond _ last, drop_nil, leftOf, Nat.sub_eq_zero_of_le (by omega)]
  rfl

theorem rest_start (some_ : 1 ≤ book.pages) :
    book.rest ⟨1, 0, 0⟩ = (List.range' 1 book.pages).flatMap fun page => (book.onPage page).flatten := by
  have split : book.pages = (book.pages - 1) + 1 := by omega
  rw [rest, leftOf_zero, drop_zero]
  conv_rhs => rw [split, List.range'_succ, flatMap_cons]

end Book

section
variable {book : Book} {start : Position} {limit budget room : Nat} {s : Filling}

structure Kept (book : Book) (start : Position) (limit budget room : Nat) (s : Filling) : Prop where
  order : start.UpTo s.at_
  whole : book.rest start = s.taken ++ book.rest s.at_
  unmoved : s.taken = [] → s.first = start
  first : s.taken ≠ [] → start.UpTo s.first ∧ s.first.Before s.at_ ∧ book.rest start = book.rest s.first ∧
    (book.entry s.first).isSome = true
  used : s.used = room + (s.taken.map fun entry => entry.size + 1).sum
  single : s.used ≤ budget ∨ s.taken.length ≤ 1
  count : s.taken.length ≤ limit

structure Inside (book : Book) (start : Position) (limit budget room : Nat) (s : Filling) : Prop
    extends Kept book start limit budget room s where
  near : budget < s.used → s.taken ≠ [] → s.at_.page = s.first.page

theorem Kept.fresh : Kept book start limit budget room ⟨start, start, room, []⟩ where
  order := .refl start
  whole := rfl
  unmoved _ := rfl
  first some_ := absurd rfl some_
  used := rfl
  single := .inr (Nat.zero_le _)
  count := Nat.zero_le _

theorem Kept.turn (kept : Kept book start limit budget room s) {onward : Position} (later : s.at_.Before onward)
    (same : book.rest s.at_ = book.rest onward) : Kept book start limit budget room (s.turn onward) where
  order := (kept.order.trans_before later).upTo
  whole := kept.whole.trans (congrArg (s.taken ++ ·) same)
  unmoved := kept.unmoved
  first some_ := by
    obtain ⟨order, before, same, there⟩ := kept.first some_
    exact ⟨order, before.upTo.trans_before later, same, there⟩
  used := kept.used
  single := kept.single
  count := kept.count

theorem Inside.turn (inside : Inside book start limit budget room s) {onward : Position} (later : s.at_.Before onward)
    (same : book.rest s.at_ = book.rest onward) (page : onward.page = s.at_.page) :
    Inside book start limit budget room (s.turn onward) where
  toKept := inside.toKept.turn later same
  near past some_ := page.trans (inside.near past some_)

theorem full_eq_false {entry : Json} (here : s.full limit budget entry = false) :
    s.taken.length ≠ limit ∧ (s.taken ≠ [] → s.used + (entry.size + 1) ≤ budget) := by
  rw [Filling.full, Bool.or_eq_false_iff, decide_eq_false_iff_not] at here
  refine ⟨here.1, fun some_ => ?_⟩
  have room := here.2
  rw [Bool.and_eq_false_iff, decide_eq_false_iff_not, Bool.not_eq_false', List.isEmpty_iff] at room
  have := room.resolve_right some_
  omega

theorem full_some {entry : Json} (limited : 1 ≤ limit) (here : s.full limit budget entry = true) : s.taken ≠ [] := by
  rintro none_
  rw [Filling.full, none_] at here
  simp at here
  omega

theorem Inside.take (inside : Inside book start limit budget room s) {e : Json} {onward : Position}
    (later : s.at_.Before onward) (page : onward.page = s.at_.page) (left : book.rest s.at_ = e :: book.rest onward)
    (there : book.entry s.at_ = some e) (fits : s.full limit budget e = false) :
    Inside book start limit budget room (s.take e onward) := by
  obtain ⟨short, space⟩ := full_eq_false fits
  have kept := inside.toKept
  have count := kept.count
  refine ⟨⟨(kept.order.trans_before later).upTo, ?_, fun none_ => absurd none_ (by simp [Filling.take]),
      fun _ => ?_, ?_,
    ?_, ?_⟩, fun past _ => ?_⟩
  · rw [kept.whole, left, Filling.take]
    simp
  · by_cases none_ : s.taken = []
    · have same : (s.take e onward).first = s.at_ := by simp [Filling.take, none_]
      rw [same]
      have whole := kept.whole
      rw [none_, nil_append] at whole
      exact ⟨kept.order, later, whole, by rw [there]; rfl⟩
    · have same : (s.take e onward).first = s.first := by simp [Filling.take, none_]
      rw [same]
      obtain ⟨order, before, same, there⟩ := kept.first none_
      exact ⟨order, before.upTo.trans_before later, same, there⟩
  · have used := kept.used
    simp only [Filling.take, map_append, map_cons, map_nil, sum_append, sum_cons,
        sum_nil]
    omega
  · by_cases none_ : s.taken = []
    · exact .inr (by simp [Filling.take, none_])
    · exact .inl (space none_)
  · simp only [Filling.take, length_append, length_singleton]
    omega
  · by_cases none_ : s.taken = []
    · simp [Filling.take, none_, page]
    · exact absurd (space none_) (Nat.not_le.mpr past)

/-- A loop broken out of: it stands at an entry, after at least one. -/
def Halted (book : Book) (s : Filling) : Prop := (book.entry s.at_).isSome = true ∧ s.taken ≠ []

structure Passed (book : Book) (start : Position) (limit budget room : Nat) (s : Filling) (r : Bool × Filling)
    (over_ : Prop) : Prop where
  inside : Inside book start limit budget room r.2
  page : r.2.at_.page = s.at_.page
  halted : r.1 = true → Halted book r.2
  through : r.1 = false → over_

theorem takeTextBlocks_passed (limited : 1 ≤ limit) {blocks : List Json}
    (inside : Inside book start limit budget room s) (here : s.at_.hit = 0)
    (left : (book.onPage s.at_.page).drop s.at_.block = blocks.map fun e => [e]) :
    Passed book start limit budget room s (takeTextBlocks limit budget blocks s)
      ((book.onPage s.at_.page).length ≤ (takeTextBlocks limit budget blocks s).2.at_.block) := by
  induction blocks generalizing s with
  | nil =>
    refine ⟨inside, rfl, fun stop => ?_, fun _ => ?_⟩
    · cases stop
    · exact drop_eq_nil_iff.mp left
  | cons e rest ih =>
    have block : (book.onPage s.at_.page)[s.at_.block]? = some [e] := by
      rw [← List.head?_drop, left]
      rfl
    have there : book.entry s.at_ = some e := by
      rw [Book.entry, block, here]
      rfl
    rw [takeTextBlocks]
    cases full : s.full limit budget e with
    | true =>
      rw [if_pos rfl]
      refine ⟨inside, rfl, fun _ => ⟨by rw [there]; rfl, full_some limited full⟩, fun on => ?_⟩
      cases on
    | false =>
      have onward : book.rest s.at_ = e :: book.rest { s.at_ with block := s.at_.block + 1 } := by
        have place : (⟨s.at_.page, s.at_.block + 1, 0⟩ : Position) = { s.at_ with block := s.at_.block + 1 } :=
          congrArg (Position.mk s.at_.page (s.at_.block + 1)) here.symm
        rw [Book.rest_hit there, ← place]
        congr 1
        exact Book.rest_block (p := { s.at_ with hit := s.at_.hit + 1 }) block (by simp)
      have later : s.at_.Before { s.at_ with block := s.at_.block + 1 } := .inr ⟨rfl, .inl (Nat.lt_succ_self _)⟩
      have taken := inside.take later rfl onward there full
      have behind : (book.onPage s.at_.page).drop (s.at_.block + 1) = rest.map fun e => [e] := by
        rw [← drop_drop, left]
        rfl
      have passed := ih (s := s.take e { s.at_ with block := s.at_.block + 1 }) taken here behind
      exact ⟨passed.inside, passed.page, passed.halted, passed.through⟩

theorem takeHits_passed (limited : 1 ≤ limit) {entries found : List Json}
    (inside : Inside book start limit budget room s)
    (block : (book.onPage s.at_.page)[s.at_.block]? = some entries) (left : entries.drop s.at_.hit = found) :
    Passed book start limit budget room s (takeHits limit budget found s)
      (entries.length ≤ (takeHits limit budget found s).2.at_.hit) ∧
      (takeHits limit budget found s).2.at_.block = s.at_.block := by
  induction found generalizing s with
  | nil =>
    refine ⟨⟨inside, rfl, fun stop => ?_, fun _ => drop_eq_nil_iff.mp left⟩, rfl⟩
    cases stop
  | cons e rest ih =>
    have hit : entries[s.at_.hit]? = some e := by
      rw [← List.head?_drop, left]
      rfl
    have there : book.entry s.at_ = some e := by
      rw [Book.entry, block]
      exact hit
    rw [takeHits]
    cases full : s.full limit budget e with
    | true =>
      rw [if_pos rfl]
      refine ⟨⟨inside, rfl, fun _ => ⟨by rw [there]; rfl, full_some limited full⟩, fun on => ?_⟩, rfl⟩
      cases on
    | false =>
      have later : s.at_.Before { s.at_ with hit := s.at_.hit + 1 } := .inr ⟨rfl, .inr ⟨rfl, Nat.lt_succ_self _⟩⟩
      have taken := inside.take later rfl (Book.rest_hit there) there full
      have behind : entries.drop (s.at_.hit + 1) = rest := by
        rw [← drop_drop, left]
        rfl
      obtain ⟨passed, same⟩ := ih (s := s.take e { s.at_ with hit := s.at_.hit + 1 }) taken block behind
      exact ⟨⟨passed.inside, passed.page, passed.halted, passed.through⟩, same⟩

theorem takeFindBlocks_passed (limited : 1 ≤ limit) {blocks : List (List Json)}
    (inside : Inside book start limit budget room s) (left : (book.onPage s.at_.page).drop s.at_.block = blocks) :
    Passed book start limit budget room s (takeFindBlocks limit budget blocks s)
      ((book.onPage s.at_.page).length ≤ (takeFindBlocks limit budget blocks s).2.at_.block) := by
  induction blocks generalizing s with
  | nil =>
    refine ⟨inside, rfl, fun stop => ?_, fun _ => drop_eq_nil_iff.mp left⟩
    cases stop
  | cons entries rest ih =>
    have block : (book.onPage s.at_.page)[s.at_.block]? = some entries := by
      rw [← List.head?_drop, left]
      rfl
    obtain ⟨passed, same⟩ := takeHits_passed limited inside block rfl
    rw [takeFindBlocks]
    generalize takeHits limit budget (entries.drop s.at_.hit) s = r at passed same
    obtain ⟨stopped, t⟩ := r
    have page : t.at_.page = s.at_.page := passed.page
    cases stopped with
    | true => exact ⟨passed.inside, page, passed.halted, fun on => by cases on⟩
    | false =>
      have read : entries.length ≤ t.at_.hit := passed.through rfl
      have block' : (book.onPage t.at_.page)[t.at_.block]? = some entries := by rw [page, same, block]
      have later : t.at_.Before { t.at_ with block := t.at_.block + 1, hit := 0 } :=
          .inr ⟨rfl, .inl (Nat.lt_succ_self _)⟩
      have turned := passed.inside.turn later (Book.rest_block block' read) rfl
      have behind : (book.onPage t.at_.page).drop (t.at_.block + 1) = rest := by
        rw [page, same, ← drop_drop, left]
        rfl
      have onward := ih (s := t.turn { t.at_ with block := t.at_.block + 1, hit := 0 }) turned behind
      refine ⟨onward.inside, onward.page.trans page, onward.halted, fun on => ?_⟩
      have through := onward.through on
      rw [← page]
      exact through

structure Filled (book : Book) (start : Position) (limit budget room last : Nat) (s : Filling) : Prop
    extends Kept book start limit budget room s where
  page : s.at_.page ≤ last ∨ s.at_ = ⟨last + 1, 0, 0⟩
  place : s.at_.block = 0 ∧ s.at_.hit = 0 ∨ (book.entry s.at_).isSome = true
  empty : s.taken = [] → s.at_ = ⟨last + 1, 0, 0⟩
  near : budget < s.used → s.taken ≠ [] → s.at_.page = s.first.page ∨ s.at_ = ⟨s.first.page + 1, 0, 0⟩

theorem takePages_filled {page : Filling → Bool × Filling} {last n : Nat} (ahead : Filling → Prop)
    (turned : ∀ s : Filling, ahead (s.turn ⟨s.at_.page + 1, 0, 0⟩))
    (passes : ∀ s, Inside book start limit budget room s → ahead s →
      Passed book start limit budget room s (page s) ((book.onPage s.at_.page).length ≤ (page s).2.at_.block))
    (inside : Inside book start limit budget room s) (ready : ahead s)
    (place : s.at_.page ≤ last ∨ s.at_ = ⟨last + 1, 0, 0⟩) (count : n = last + 1 - s.at_.page) :
    Filled book start limit budget room last (takePages budget page last n s) := by
  induction n generalizing s with
  | zero =>
    have at_ : s.at_ = ⟨last + 1, 0, 0⟩ := place.resolve_left (by omega)
    have corner : s.at_.block = 0 ∧ s.at_.hit = 0 := by
      rw [at_]
      exact ⟨rfl, rfl⟩
    exact ⟨inside.toKept, .inr at_, .inl corner, fun _ => at_, fun past some_ => .inl (inside.near past some_)⟩
  | succ n ih =>
    have before : s.at_.page ≤ last := by
      rcases place with before | at_
      · exact before
      · rw [at_] at count
        simp at count
    have passed := passes s inside ready
    rw [takePages]
    generalize page s = r at passed
    obtain ⟨stopped, t⟩ := r
    have same : t.at_.page = s.at_.page := passed.page
    cases stopped with
    | true =>
      obtain ⟨there, some_⟩ := passed.halted rfl
      refine ⟨passed.inside.toKept, .inl (by rw [same]; exact before), .inr there, fun none_ => absurd none_ some_,
        fun past some_ => .inl (passed.inside.near past some_)⟩
    | false =>
      have read : (book.onPage t.at_.page).length ≤ t.at_.block := by
        rw [same]
        exact passed.through rfl
      have later : t.at_.Before ⟨t.at_.page + 1, 0, 0⟩ := .inl (Nat.lt_succ_self _)
      have kept := passed.inside.toKept.turn later (Book.rest_page read)
      have onward : t.at_.page + 1 ≤ last ∨ (⟨t.at_.page + 1, 0, 0⟩ : Position) = ⟨last + 1, 0, 0⟩ := by
        rw [same]
        rcases Nat.eq_or_lt_of_le before with same | below
        · exact .inr (by rw [same])
        · exact .inl below
      simp only
      split
      · rename_i past
        have some_ : t.taken ≠ [] := by simpa [Filling.turn] using past.2
        refine ⟨kept, onward, .inl ⟨rfl, rfl⟩, fun none_ => absurd none_ some_, fun past' _ => .inr ?_⟩
        have near : t.at_.page = t.first.page := passed.inside.near past' some_
        exact congrArg (fun page => (⟨page + 1, 0, 0⟩ : Position)) near
      · rename_i within_
        refine ih ⟨kept, fun past some_ => ?_⟩ (turned t) onward ?_
        · refine absurd ⟨past, ?_⟩ within_
          rw [isEmpty_eq_false_iff]
          exact some_
        · rw [show (t.turn ⟨t.at_.page + 1, 0, 0⟩).at_.page = t.at_.page + 1 from rfl, same]
          omega

end

end Agent24.Documents
