import Agent24.Documents.Answer
import Agent24.Documents.Extracted
import Agent24.Documents.Find

/-! Turning the model's evidence into anchors. A quote found exactly once in the block named,
    or else exactly once among
the blocks shown, is an anchor; found nowhere, or more than once, it is not. -/

set_option autoImplicit false
namespace Agent24.Documents
open Library Agent24.TextLayer List

/-! Why a value has no anchors: its `unsourced_reason`. -/

def NO_EVIDENCE : String := "the model gave no evidence"
def NOT_SHOWN : String := "a quote names a block the model was not shown, and is in none it was"
def NOT_FOUND : String := "a quote is in no block the model was shown"
def AMBIGUOUS : String := "a quote occurs more than once in the blocks the model was shown"
def VALUE_NOT_QUOTED : String := "the value is in none of its quotes"

/-- `&text[start..]`. -/
def fromOffset (text : String) (start : Nat) : String :=
  String.ofList (Offsets.slice text.toList start (Offsets.size text.toList))

/-- Where a quote is in a text, if exactly once. `find` gives matches that do not overlap, so a second one is looked for
from just after the first one's start. -/
def once (quote text : String) : Except String (Nat × Nat) :=
  match Query.new quote with
  | none => .error NOT_FOUND
  | some q =>
    match q.find quote text with
    | [] => .error NOT_FOUND
    | (start, stop) :: _ =>
      let next := start + (fromOffset text start).toList.head?.elim 1 Char.utf8Size
      if (q.find quote (fromOffset text next)).isEmpty then .ok (start, stop) else .error AMBIGUOUS

section
variable (κ : Type) [LinearOrder κ] [Zero κ]

structure Source where
  documentId : String
  revision : Int
  contentSha256 : String
  mediaType : String
  textLayerSha256 : String
  layer : Pinned κ

end

namespace Source
variable {κ : Type} [LinearOrder κ] [Zero κ] (P : Platform) (src : Source κ)

def shown (window : Window) : List (TextLayer.Block κ) := window.filterMap fun i => src.layer.blocks[i]?

/-- The anchor of `b.text[start..stop]`: the whole lines it touches. -/
def anchor (b : TextLayer.Block κ) (at_ : Nat × Nat) : Anchor κ where
  documentId := src.documentId
  revision := src.revision
  contentSha256 := src.contentSha256
  mediaType := src.mediaType
  textLayerSha256 := src.textLayerSha256
  engine := src.layer.engine
  blockId := b.blockId
  page := some b.page
  blockTextSha256 := "sha256:" ++ P.checksum b.text
  textRange := ⟨"utf8", at_.1, at_.2⟩
  geometry := some ⟨"CropBox", "pt", "top-left-rotated",
    (b.lines.filter fun l => decide (l.start < at_.2) && decide (at_.1 < l.stop)).map Line.rect⟩
  quote := String.ofList (Offsets.slice b.text.toList at_.1 at_.2)

def named (window : Window) (e : Evidence) : Option (TextLayer.Block κ) :=
  if (src.shown window).any fun b => b.blockId == e.blockId then src.layer.blocks.find? fun b => b.blockId == e.blockId
  else none

/-- The one shown block that has a quote, once; `nowhere` says why there is none. -/
def elsewhere (window : Window) (e : Evidence) (nowhere : String) : Except String (TextLayer.Block κ × Nat × Nat) :=
  match Query.new e.quote with
  | none => .error nowhere
  | some q =>
    match (src.shown window).filter fun b => !(q.find e.quote b.text).isEmpty with
    | [] => .error nowhere
    | [b] => (once e.quote b.text).map fun at_ => (b, at_)
    | _ :: _ :: _ => .error AMBIGUOUS

def locate (window : Window) (e : Evidence) : Except String (TextLayer.Block κ × Nat × Nat) :=
  match src.named window e with
  | none => src.elsewhere window e NOT_SHOWN
  | some b =>
    match once e.quote b.text with
    | .ok at_ => .ok (b, at_)
    -- Twice in the block named is ambiguous below as well: that block is one of those shown.
    | .error _ => src.elsewhere window e NOT_FOUND

/-- Every quote's anchor, or why the first that fails has none. -/
def anchors (window : Window) : List Evidence → Except String (List (Anchor κ))
  | [] => .ok []
  | e :: rest =>
    match src.locate window e with
    | .error why => .error why
    | .ok (b, at_) =>
      match anchors window rest with
      | .error why => .error why
      | .ok more => .ok (src.anchor P b at_ :: more)

def ground (window : Window) (value : String) (evidence : List Evidence) : Except String (List (Anchor κ)) :=
  if evidence.isEmpty then .error NO_EVIDENCE
  else
    match src.anchors P window evidence with
    | .error why => .error why
    | .ok anchors =>
      if (Query.new value).any fun q => anchors.any fun a => !(q.find value a.quote).isEmpty then .ok anchors
      else .error VALUE_NOT_QUOTED

end Source

theorem isWhitespace_of_letter {c : Char} (low : 65 ≤ c.toNat) (high : c.toNat ≤ 122) : isWhitespace c = false := by
  unfold isWhitespace
  simp
  omega

theorem isWhitespace_fold (c : Char) : isWhitespace (fold c) = isWhitespace c := by
  by_cases upper : c.val ≥ 'A'.val ∧ c.val ≤ 'Z'.val
  · have low : 65 ≤ c.toNat := upper.1
    have high : c.toNat ≤ 90 := upper.2
    have lower : (fold c).toNat = c.toNat + 32 := by
      unfold fold Char.toLower
      rw [dif_pos upper]
      show (c.val + 32).toNat = c.val.toNat + 32
      show (c.toNat + 32) % _ = c.toNat + 32
      omega
    rw [isWhitespace_of_letter (by omega) (by omega), isWhitespace_of_letter low (by omega)]
  · unfold fold Char.toLower
    rw [dif_neg upper]

def marks (text : List Char) : Nat := text.countP fun c => !isWhitespace c

def Marked (items : List Item) : Prop := ∀ x, .char x ∈ items → isWhitespace x = false

theorem marks_append (front back : List Char) : marks (front ++ back) = marks front + marks back :=
    countP_append ..

theorem marks_eq_zero {text : List Char} : marks text = 0 ↔ ∀ c ∈ text, isWhitespace c = true := by
  simp [marks, countP_eq_zero]

theorem matches_marks {items : List Item} (marked : Marked items) {text : List Char} (here : Matches items text) :
    marks text = items.countP Item.isChar := by
  induction items generalizing text with
  | nil =>
    cases here
    rfl
  | cons item rest ih =>
    have markedRest : Marked rest := fun x member => marked x (mem_cons_of_mem item member)
    cases item with
    | space =>
      obtain ⟨run, more, rfl, -, white, on⟩ := here
      rw [marks_append, marks_eq_zero.mpr white, Nat.zero_add, ih markedRest on, countP_cons_of_neg (by decide)]
    | char x =>
      obtain ⟨c, breaks, more, rfl, same, feeds, -, on⟩ := here
      have mark : isWhitespace c = false := by
        rw [← isWhitespace_fold, same]
        exact marked x mem_cons_self
      have white : marks breaks = 0 := by
        rw [marks_eq_zero]
        intro b member
        rw [feeds b member]
        decide
      have first : marks (c :: (breaks ++ more)) = marks (breaks ++ more) + 1 := by
        rw [marks, countP_cons_of_pos (by simp [mark])]
        rfl
      rw [first, marks_append, white, Nat.zero_add, ih markedRest on, countP_cons_of_pos rfl]

theorem marked_pushItem {items : List Item} (marked : Marked items) (c : Char) : Marked (Query.pushItem items c) := by
  unfold Query.pushItem
  intro x member
  split at member
  · split at member
    · exact marked x member
    rcases mem_append.mp member with before | last
    · exact marked x before
    · cases mem_singleton.mp last
  · rename_i mark
    rcases mem_append.mp member with before | last
    · exact marked x before
    cases mem_singleton.mp last
    rw [isWhitespace_fold]
    exact Bool.eq_false_iff.mpr mark

theorem marked_itemsOf (chars : List Char) : Marked (Query.itemsOf chars) := by
  induction chars using List.reverseRecOn with
  | nil => exact fun x member => absurd member not_mem_nil
  | append_singleton chars c ih =>
    rw [Query.itemsOf_concat]
    exact marked_pushItem ih c

/-- A later start never overtakes an earlier match: a match around another is one that starts earlier and ends with
it. -/
theorem matches_stretch {items : List Item} (marked : Marked items) {gap matched tail : List Char} (some_ : gap ≠ [])
    (inner : Matches items matched) (outer : Matches items (gap ++ (matched ++ tail))) : Matches items
        (gap ++ matched) := by
  have count := (matches_marks marked outer).trans (matches_marks marked inner).symm
  rw [marks_append, marks_append] at count
  have white : ∀ c ∈ gap, isWhitespace c = true := marks_eq_zero.mp (by omega)
  obtain ⟨c, gap', rfl⟩ := exists_cons_of_ne_nil some_
  cases items with
  | nil => cases outer
  | cons item rest =>
    cases item with
    | char x =>
      -- A character item takes no whitespace, which the gap begins with.
      obtain ⟨d, breaks, more, whole, same, -⟩ := outer
      have first := (List.cons.inj whole).1
      have mark := marked x mem_cons_self
      rw [← same, isWhitespace_fold, ← first, white c mem_cons_self] at mark
      cases mark
    | space =>
      obtain ⟨run, more, rfl, -, runWhite, on⟩ := inner
      refine ⟨(c :: gap') ++ run, more, (append_assoc ..).symm, by simp, ?_, on⟩
      intro d member
      rcases mem_append.mp member with before | after
      · exact white d before
      · exact runWhite d after

theorem any_isChar_itemsOf (chars : List Char) :
    (Query.itemsOf chars).any Item.isChar = chars.any fun c => !isWhitespace c := by
  induction chars using List.reverseRecOn with
  | nil => rfl
  | append_singleton chars c ih =>
    rw [Query.itemsOf_concat, any_append, ← ih, any_cons, any_nil, Bool.or_false]
    unfold Query.pushItem
    split
    · rename_i white
      rw [white]
      split
      · simp
      · simp [Item.isChar]
    · rename_i mark
      simp [mark, Item.isChar]

def Occurs (quote text : String) (start stop : Nat) : Prop :=
  (∃ c ∈ quote.toList, isWhitespace c = false) ∧ ∃ a b c, text.toList = a ++ (b ++ c) ∧ start = Offsets.size a ∧
    stop = Offsets.size (a ++ b) ∧ MatchesQuery quote b

theorem marked_iff (quote : String) : (∃ c ∈ quote.toList, isWhitespace c = false) ↔
    ∃ q, Query.new quote = some q := by
  rw [Query.new, Query.of, any_isChar_itemsOf]
  have chars : (∃ c ∈ quote.toList, isWhitespace c = false) ↔ (quote.toList.any fun c => !isWhitespace c) = true :=
      by simp
  rw [chars]
  constructor
  · intro marked
    exact ⟨_, if_pos marked⟩
  · rintro ⟨q, compiled⟩
    split at compiled
    · assumption
    · cases compiled

section
variable {quote text : String} {q : Query}

theorem find_eq_nil_iff (compiled : Query.new quote = some q) :
    q.find quote text = [] ↔ ∀ start stop, ¬ Occurs quote text start stop := by
  have reference := Query.find_eq_reference compiled text
  constructor
  · intro none_
    rw [none_] at reference
    generalize same : text.toList = chars at reference
    cases reference with
    | nothing quiet =>
      rintro start stop ⟨-, a, b, c, whole, -, -, here⟩
      exact quiet a b c (same.symm.trans whole) here
  · intro quiet
    generalize same : text.toList = chars at reference
    generalize ranges : q.find quote text = found at reference
    cases reference with
    | nothing => rfl
    | @found _ before matched after _ here =>
      exact absurd ⟨(marked_iff quote).mpr ⟨q, compiled⟩, before, matched, after, same, rfl, rfl, here⟩ (quiet _ _)

/-- What `find` gives first: a match from the earliest start there is. -/
structure Head (quote : String) (text before matched after : List Char) : Prop where
  whole : text = before ++ (matched ++ after)
  some_ : matched ≠ []
  here : MatchesQuery quote matched
  earliest : ∀ a b c, text = a ++ (b ++ c) → MatchesQuery quote b → before.length ≤ a.length

theorem find_head (compiled : Query.new quote = some q) {start stop : Nat} {more : List (Nat × Nat)}
    (found : q.find quote text = (start, stop) :: more) :
    ∃ before matched after, start = Offsets.size before ∧ stop = Offsets.size (before ++ matched) ∧
      Head quote text.toList before matched after := by
  have reference := Query.find_eq_reference compiled text
  rw [found] at reference
  generalize same : text.toList = chars at reference
  generalize zero : 0 = origin at reference
  cases reference with
  | @found _ before matched after _ here first earliest =>
    rw [← zero, Nat.zero_add, Nat.zero_add]
    have some_ : matched ≠ [] := by
      rintro rfl
      exact Query.itemsOf_some compiled ((matches_nil _).mp here)
    refine ⟨before, matched, after, rfl, rfl, rfl, some_, here, ?_⟩
    intro a b c other here'
    by_contra sooner
    have ends := first a b c other here'
    -- The other match starts before this one and ends no sooner: all of this one lies in it.
    obtain ⟨gap, rfl⟩ : a <+: before :=
      prefix_of_prefix_length_le ⟨b ++ c, other.symm⟩ ⟨matched ++ after, rfl⟩ (Nat.le_of_not_le sooner)
    obtain ⟨tail, inner⟩ : a ++ gap ++ matched <+: a ++ b :=
      prefix_of_prefix_length_le ⟨after, append_assoc ..⟩ ⟨c, (append_assoc ..).trans other.symm⟩ ends
    have gap_ : gap ≠ [] := by
      rintro rfl
      simp at sooner
    rw [append_assoc, append_assoc] at inner
    have outer := append_cancel_left inner
    rw [← outer] at here'
    have stretched := matches_stretch (marked_itemsOf quote.toList) gap_ here here'
    exact sooner (earliest a (gap ++ matched) (append_assoc ..) stretched)

theorem fromOffset_append (front back : List Char) (same : text.toList = front ++ back) :
    fromOffset text (Offsets.size front) = String.ofList back := by
  rw [fromOffset, same, Offsets.slice_back]

theorem occurs_rest {front back : List Char} (same : text.toList = front ++ back) :
    (∃ start stop, Occurs quote (String.ofList back) start stop) ↔
      ∃ start stop, Occurs quote text start stop ∧ Offsets.size front ≤ start := by
  constructor
  · rintro ⟨start, stop, marked, a, b, c, whole, -, -, here⟩
    rw [String.toList_ofList] at whole
    refine ⟨_, _, ⟨marked, front ++ a, b, c, by rw [same, whole, append_assoc], rfl, rfl, here⟩, ?_⟩
    rw [Offsets.size_append]
    exact Nat.le_add_right ..
  · rintro ⟨start, stop, ⟨marked, a, b, c, whole, rfl, -, here⟩, after⟩
    obtain ⟨more, rfl⟩ : front <+: a := by
      refine prefix_of_prefix_length_le ⟨back, same.symm⟩ ⟨b ++ c, whole.symm⟩ ?_
      exact Offsets.length_le_of_size (same.symm.trans whole) after
    rw [same, append_assoc] at whole
    refine ⟨_, _, marked, more, b, c, ?_, rfl, rfl, here⟩
    rw [String.toList_ofList]
    exact append_cancel_left whole

end

inductive Searching (quote text : String) : Except String (Nat × Nat) → Prop where
  | nowhere (none_ : ∀ start stop, ¬ Occurs quote text start stop) : Searching quote text (.error NOT_FOUND)
  | once {start stop : Nat} (here : Occurs quote text start stop)
      (only : ∀ start' stop', Occurs quote text start' stop' → start' = start) : Searching quote text
          (.ok (start, stop))
  | again {start stop start' stop' : Nat} (here : Occurs quote text start stop)
      (there : Occurs quote text start' stop')
      (apart : start ≠ start') : Searching quote text (.error AMBIGUOUS)

theorem once_searching (quote text : String) : Searching quote text (once quote text) := by
  unfold once
  cases compiled : Query.new quote with
  | none =>
    refine .nowhere fun start stop occurs => ?_
    obtain ⟨q, some_⟩ := (marked_iff quote).mp occurs.1
    rw [compiled] at some_
    cases some_
  | some q =>
    have marked := (marked_iff quote).mpr ⟨q, compiled⟩
    simp only
    cases found : q.find quote text with
    | nil => exact .nowhere ((find_eq_nil_iff compiled).mp found)
    | cons range more =>
      obtain ⟨start, stop⟩ := range
      obtain ⟨before, matched, after, rfl, rfl, head⟩ := find_head compiled found
      have here : Occurs quote text (Offsets.size before) (Offsets.size (before ++ matched)) :=
        ⟨marked, before, matched, after, head.whole, rfl, rfl, head.here⟩
      obtain ⟨c, matched', rfl⟩ := exists_cons_of_ne_nil head.some_
      have next : Offsets.size before + c.utf8Size = Offsets.size (before ++ [c]) := by simp
      have rest : text.toList = (before ++ [c]) ++ (matched' ++ after) := by
        rw [head.whole]
        simp
      simp only
      rw [fromOffset_append before _ head.whole, String.toList_ofList, cons_append, List.head?_cons,
          Option.elim_some,
        next, fromOffset_append _ _ rest]
      split
      · rename_i none_
        refine .once here fun start' stop' occurs => ?_
        have quiet := (find_eq_nil_iff compiled).mp (isEmpty_iff.mp none_)
        have whole_ := occurs
        obtain ⟨-, a, b, c', whole, rfl, -, here'⟩ := whole_
        by_contra apart
        obtain ⟨gap, rfl⟩ : before <+: a :=
          prefix_of_prefix_length_le ⟨_, head.whole.symm⟩ ⟨_, whole.symm⟩ (head.earliest a b c' whole here')
        have some_ : gap ≠ [] := by
          rintro rfl
          exact apart (by rw [append_nil])
        obtain ⟨d, gap, rfl⟩ := exists_cons_of_ne_nil some_
        have same := head.whole.symm.trans whole
        rw [append_assoc] at same
        obtain rfl := (List.cons.inj (append_cancel_left same)).1
        obtain ⟨start, stop, again⟩ := (occurs_rest rest).mpr ⟨_, _, occurs, by simp⟩
        exact quiet start stop again
      · rename_i some_
        rw [List.isEmpty_iff, find_eq_nil_iff compiled] at some_
        simp only [not_forall, not_not] at some_
        obtain ⟨start', stop', there, after_⟩ := (occurs_rest rest).mp some_
        have := c.utf8Size_pos
        exact .again here there (by omega)

example : once "ana" "banana" = .error AMBIGUOUS := by decide +kernel

theorem not_found_ne_ambiguous : NOT_FOUND ≠ AMBIGUOUS := by decide

theorem once_ok {quote text : String} {start stop : Nat} (found : once quote text = .ok (start, stop)) :
    Occurs quote text start stop ∧ ∀ start' stop', Occurs quote text start' stop' → start' = start := by
  have searching := once_searching quote text
  rw [found] at searching
  cases searching with
  | once here only => exact ⟨here, only⟩

theorem once_not_found (quote text : String) :
    once quote text = .error NOT_FOUND ↔ ∀ start stop, ¬ Occurs quote text start stop := by
  have searching := once_searching quote text
  generalize once quote text = result at searching
  cases searching with
  | nowhere none_ => exact iff_of_true rfl none_
  | once here only => exact iff_of_false (fun same => (by cases same)) fun none_ => none_ _ _ here
  | again here =>
    exact iff_of_false (fun same => not_found_ne_ambiguous (Except.error.inj same).symm) fun none_ => none_ _ _ here

theorem once_ambiguous (quote text : String) : once quote text = .error AMBIGUOUS ↔
    ∃ start stop start' stop', Occurs quote text start stop ∧ Occurs quote text start' stop' ∧ start ≠ start' := by
  have searching := once_searching quote text
  generalize once quote text = result at searching
  cases searching with
  | nowhere none_ =>
    refine iff_of_false (fun same => not_found_ne_ambiguous (Except.error.inj same)) ?_
    rintro ⟨start, stop, -, -, here, -⟩
    exact none_ start stop here
  | once here only =>
    refine iff_of_false (fun same => (by cases same)) ?_
    rintro ⟨start, stop, start', stop', first, second, apart⟩
    exact apart ((only _ _ first).trans (only _ _ second).symm)
  | again here there apart => exact iff_of_true rfl ⟨_, _, _, _, here, there, apart⟩

theorem Occurs.slice {quote text : String} {start stop : Nat} (occurs : Occurs quote text start stop) :
    start < stop ∧ ∃ front back, text.toList = front ++ (Offsets.slice text.toList start stop ++ back) ∧
      start = Offsets.size front ∧ stop = Offsets.size (front ++ Offsets.slice text.toList start stop) := by
  obtain ⟨marked, a, b, c, whole, rfl, rfl, here⟩ := occurs
  have some_ : b ≠ [] := by
    rintro rfl
    obtain ⟨q, compiled⟩ := (marked_iff quote).mp marked
    exact Query.itemsOf_some compiled ((matches_nil _).mp here)
  have slice : Offsets.slice text.toList (Offsets.size a) (Offsets.size (a ++ b)) = b := by
    rw [whole, Offsets.size_append]
    exact Offsets.slice_append a b c
  rw [slice]
  refine ⟨?_, a, c, whole, rfl, rfl⟩
  rw [Offsets.size_append]
  exact Nat.lt_add_of_pos_right (Offsets.size_pos some_)

namespace Source
variable {κ : Type} [LinearOrder κ] [Zero κ] {P : Platform} {src : Source κ} {window : Window} {e : Evidence}

variable {b : TextLayer.Block κ} {evidence : List Evidence}

theorem shown_mem (shown : b ∈ src.shown window) : b ∈ src.layer.blocks := by
  obtain ⟨i, -, here⟩ := mem_filterMap.mp shown
  exact mem_of_getElem? here

theorem named_shown (named : src.named window e = some b) :
    b ∈ src.shown window ∧ b.blockId = e.blockId := by
  unfold Source.named at named
  split at named
  · rename_i any
    obtain ⟨b', shown, same⟩ := any_eq_true.mp any
    have id' := beq_iff_eq.mp same
    have test := List.find?_some named
    have id : b.blockId = e.blockId := beq_iff_eq.mp test
    have one := src.layer.block_of_id (mem_of_find?_eq_some named) (shown_mem shown) (id.trans id'.symm)
    exact ⟨one ▸ shown, id⟩
  · cases named

structure Placed (src : Source κ) (window : Window) (e : Evidence) (b : TextLayer.Block κ)
    (start stop : Nat) : Prop where
  shown : b ∈ src.shown window
  occurs : Occurs e.quote b.text start stop
  only : b.blockId = e.blockId ∧ (∀ start' stop', Occurs e.quote b.text start' stop' → start' = start) ∨
    ∀ b' ∈ src.shown window, ∀ start' stop', Occurs e.quote b'.text start' stop' → b' = b ∧ start' = start

theorem elsewhere_placed {nowhere : String} {start stop : Nat}
    (found : src.elsewhere window e nowhere = .ok (b, start, stop)) : Placed src window e b start stop := by
  unfold elsewhere at found
  cases compiled : Query.new e.quote with
  | none =>
    rw [compiled] at found
    cases found
  | some q =>
    rw [compiled] at found
    simp only at found
    have has (b' : TextLayer.Block κ) : (!(q.find e.quote b'.text).isEmpty) = true ↔
        ∃ start stop, Occurs e.quote b'.text start stop := by
      rw [Bool.not_eq_true', ← Bool.not_eq_true, List.isEmpty_iff, find_eq_nil_iff compiled]
      simp only [not_forall, not_not]
    cases blocks : (src.shown window).filter fun b => !(q.find e.quote b.text).isEmpty with
    | nil =>
      rw [blocks] at found
      cases found
    | cons b' rest =>
      rw [blocks] at found
      cases rest with
      | cons => cases found
      | nil =>
        simp only at found
        cases place : once e.quote b'.text with
        | error why =>
          rw [place] at found
          cases found
        | ok range =>
          rw [place] at found
          cases found
          obtain ⟨here, only⟩ := once_ok place
          have member : b ∈ (src.shown window).filter fun b => !(q.find e.quote b.text).isEmpty := by
            rw [blocks]
            exact mem_singleton_self b
          refine ⟨(mem_filter.mp member).1, here, .inr fun b' shown start' stop' there => ?_⟩
          have listed : b' ∈ (src.shown window).filter fun b => !(q.find e.quote b.text).isEmpty :=
            mem_filter.mpr ⟨shown, (has b').mpr ⟨start', stop', there⟩⟩
          rw [blocks] at listed
          obtain rfl := mem_singleton.mp listed
          exact ⟨rfl, only start' stop' there⟩

theorem locate_placed {start stop : Nat} (found : src.locate window e = .ok (b, start, stop)) :
    Placed src window e b start stop := by
  unfold locate at found
  cases named : src.named window e with
  | none =>
    rw [named] at found
    exact elsewhere_placed found
  | some b' =>
    rw [named] at found
    simp only at found
    cases place : once e.quote b'.text with
    | error why =>
      rw [place] at found
      exact elsewhere_placed found
    | ok range =>
      rw [place] at found
      cases found
      obtain ⟨shown, id⟩ := named_shown named
      obtain ⟨here, only⟩ := once_ok place
      exact ⟨shown, here, .inl ⟨id, only⟩⟩

structure Anchored (src : Source κ) (window : Window) (e : Evidence) (a : Anchor κ)
    (b : TextLayer.Block κ) : Prop where
  placed : Placed src window e b a.textRange.start a.textRange.stop
  block : a.blockId = b.blockId ∧ a.page = some b.page
  verbatim : ∃ front back, b.text.toList = front ++ (a.quote.toList ++ back) ∧
    a.textRange = ⟨"utf8", Offsets.size front, Offsets.size (front ++ a.quote.toList)⟩
  lines : ∃ geometry ∈ a.geometry, ∃ kept : List (Line κ), kept.Sublist b.lines ∧
      geometry.rects = kept.map Line.rect ∧
    ∀ l ∈ b.lines, l ∈ kept ↔ ∃ i, (l.start ≤ i ∧ i < l.stop) ∧ a.textRange.start ≤ i ∧ i < a.textRange.stop

theorem anchor_anchored {start stop : Nat} (placed : Placed src window e b start stop) :
    Anchored src window e (src.anchor P b (start, stop)) b := by
  obtain ⟨long, front, back, whole, first, last⟩ := placed.occurs.slice
  have ok := (src.layer.wellFormed.blocks.ok b (shown_mem placed.shown)).2.2.2
  refine ⟨placed, ⟨rfl, rfl⟩, ⟨front, back, ?_, ?_⟩, _, rfl, _, filter_sublist, rfl, fun l member => ?_⟩
  · rw [anchor, String.toList_ofList]
    exact whole
  · simp only [anchor, String.toList_ofList]
    rw [← first, ← last]
  · have filled := ok.tiles.filled l member
    simp only [mem_filter, Bool.and_eq_true, decide_eq_true_eq, anchor]
    constructor
    · rintro ⟨-, before, after⟩
      exact ⟨max l.start start, by omega⟩
    · rintro ⟨i, inLine, inRange⟩
      exact ⟨member, by omega⟩

theorem anchors_anchored {found : List (Anchor κ)} (ok : src.anchors P window evidence = .ok found) :
    List.Forall₂ (fun e a => ∃ b, Anchored src window e a b) evidence found := by
  induction evidence generalizing found with
  | nil =>
    cases ok
    exact .nil
  | cons e rest ih =>
    rw [anchors] at ok
    cases place : src.locate window e with
    | error why =>
      rw [place] at ok
      cases ok
    | ok at_ =>
      rw [place] at ok
      cases more : src.anchors P window rest with
      | error why =>
        rw [more] at ok
        cases ok
      | ok anchors =>
        rw [more] at ok
        cases ok
        exact .cons ⟨at_.1, anchor_anchored (locate_placed place)⟩ (ih more)

theorem anchors_error {why : String} (member : e ∈ evidence) (fails : src.locate window e = .error why) :
    ∃ why, src.anchors P window evidence = .error why := by
  induction evidence with
  | nil => cases member
  | cons first rest ih =>
    rw [anchors]
    cases place : src.locate window first with
    | error why => exact ⟨why, rfl⟩
    | ok at_ =>
      rcases mem_cons.mp member with rfl | later
      · rw [fails] at place
        cases place
      obtain ⟨why, error⟩ := ih later
      rw [error]
      exact ⟨why, rfl⟩

theorem ground_ok {value : String} {found : List (Anchor κ)}
    (ok : src.ground P window value evidence = .ok found) :
    src.anchors P window evidence = .ok found ∧ ∃ a ∈ found, ∃ start stop, Occurs value a.quote start stop := by
  unfold ground at ok
  split at ok
  · cases ok
  cases anchored : src.anchors P window evidence with
  | error why =>
    rw [anchored] at ok
    cases ok
  | ok anchors =>
    rw [anchored] at ok
    simp only at ok
    split at ok
    · rename_i quoted
      cases ok
      obtain ⟨q, compiled, any⟩ := (Option.any_eq_true ..).mp quoted
      obtain ⟨a, member, some_⟩ := List.any_eq_true.mp any
      rw [Bool.not_eq_true', ← Bool.not_eq_true, List.isEmpty_iff, find_eq_nil_iff compiled] at some_
      simp only [not_forall, not_not] at some_
      exact ⟨rfl, a, member, some_⟩
    · cases ok

end Source

structure Grounding {κ : Type} [LinearOrder κ] [Zero κ] (P : Platform) (src : Source κ) (window : Window) : Prop where
  found : ∀ quote text start stop, once quote text = .ok (start, stop) →
    Occurs quote text start stop ∧ ∀ start' stop', Occurs quote text start' stop' → start' = start
  notFound : ∀ quote text, once quote text = .error NOT_FOUND ↔ ∀ start stop, ¬ Occurs quote text start stop
  ambiguous : ∀ quote text, once quote text = .error AMBIGUOUS ↔
    ∃ start stop start' stop', Occurs quote text start stop ∧ Occurs quote text start' stop' ∧ start ≠ start'
  anchored : ∀ value evidence anchors, src.ground P window value evidence = .ok anchors →
    List.Forall₂ (fun e a => ∃ b, src.Anchored window e a b) evidence anchors
  valued : ∀ value evidence anchors, src.ground P window value evidence = .ok anchors →
    ∃ a ∈ anchors, ∃ start stop, Occurs value a.quote start stop
  whole : ∀ value evidence, (∃ e ∈ evidence, ∃ why, src.locate window e = .error why) →
    ∃ why, src.ground P window value evidence = .error why

theorem grounding_sound_and_complete {κ : Type} [LinearOrder κ] [Zero κ] (P : Platform) (src : Source κ)
    (window : Window) :
    Grounding P src window where
  found _ _ _ _ := once_ok
  notFound := once_not_found
  ambiguous := once_ambiguous
  anchored _ _ _ ok := Source.anchors_anchored (Source.ground_ok ok).1
  valued _ _ _ ok := (Source.ground_ok ok).2
  whole value evidence failing := by
    obtain ⟨e, member, why, fails⟩ := failing
    obtain ⟨why, error⟩ := Source.anchors_error (P := P) member fails
    rw [Source.ground, error]
    split
    · exact ⟨_, rfl⟩
    · exact ⟨why, rfl⟩

end Agent24.Documents
