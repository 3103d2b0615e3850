import Agent24.Documents.Automaton

/-! What `find` finds: a query read in either direction, the start of a match, and the matches of a text. -/

set_option autoImplicit false
namespace Agent24.Documents
open Library Library.Bitset List

theorem getLast?_cons_some {α : Type} (a : α) {xs : List α} {x : α} (last : xs.getLast? = some x) :
    (a :: xs).getLast? = some x := by
  cases xs with
  | nil => cases last
  | cons b xs => rwa [List.getLast?_cons_cons]

theorem matches_append (front back : List Item) (text : List Char) :
    Matches (front ++ back) text ↔ ∃ a kept b, text = a ++ (kept ++ b) ∧ Matches front a ∧ Matches back b ∧
      (∀ c ∈ kept, c = '\n') ∧
      (kept ≠ [] → (∃ x, front.getLast? = some (.char x)) ∧ ∃ y later, back = .char y :: later) := by
  induction front generalizing text with
  | nil =>
    constructor
    · exact fun here => ⟨[], [], text, rfl, rfl, here, fun c member => absurd member not_mem_nil, fun some_ => absurd rfl some_⟩
    · rintro ⟨a, kept, b, rfl, rfl, here, -, between⟩
      by_cases some_ : kept = []
      · rwa [some_]
      · obtain ⟨⟨x, last⟩, -⟩ := between some_
        cases last
  | cons item front ih =>
    cases item with
    | space =>
      constructor
      · rintro ⟨run, more, rfl, some_, white, here⟩
        obtain ⟨a, kept, b, rfl, first, second, feeds, between⟩ := (ih more).mp here
        refine ⟨run ++ a, kept, b, by simp, ⟨run, a, rfl, some_, white, first⟩, second, feeds, fun kept_ => ?_⟩
        obtain ⟨⟨x, last⟩, later⟩ := between kept_
        exact ⟨⟨x, getLast?_cons_some _ last⟩, later⟩
      · rintro ⟨a, kept, b, rfl, ⟨run, more, rfl, some_, white, first⟩, second, feeds, between⟩
        refine ⟨run, more ++ (kept ++ b), by simp, some_, white, (ih _).mpr ⟨more, kept, b, rfl, first, second, feeds, ?_⟩⟩
        intro kept_
        obtain ⟨⟨x, last⟩, later⟩ := between kept_
        refine ⟨?_, later⟩
        cases front with
        | nil => cases last
        | cons item front => exact ⟨x, by rwa [List.getLast?_cons_cons] at last⟩
    | char x =>
      constructor
      · rintro ⟨c, breaks, more, rfl, same, feeds, between, here⟩
        cases front with
        | nil =>
          refine ⟨[c], breaks, more, rfl, ⟨c, [], [], rfl, same, ?_, fun some_ => absurd rfl some_, rfl⟩, here, feeds, ?_⟩
          · exact fun d member => absurd member not_mem_nil
          · exact fun kept_ => ⟨⟨x, rfl⟩, between kept_⟩
        | cons next front =>
          obtain ⟨a, kept, b, rfl, first, second, feeds', between'⟩ := (ih more).mp here
          refine ⟨c :: (breaks ++ a), kept, b, by simp, ⟨c, breaks, a, rfl, same, feeds, ?_, first⟩, second, feeds', ?_⟩
          · intro some_
            obtain ⟨y, later, whole⟩ := between some_
            exact ⟨y, front, by rw [(List.cons.inj whole).1]⟩
          · intro kept_
            obtain ⟨⟨z, last⟩, later⟩ := between' kept_
            exact ⟨⟨z, by rwa [List.getLast?_cons_cons]⟩, later⟩
      · rintro ⟨a, kept, b, rfl, ⟨c, breaks, more, rfl, same, feeds, between, first⟩, second, feeds', between'⟩
        cases front with
        | nil =>
          cases first
          have none_ : breaks = [] := by
            by_contra some_
            obtain ⟨y, later, whole⟩ := between some_
            cases whole
          subst none_
          exact ⟨c, kept, b, by simp, same, feeds', fun kept_ => (between' kept_).2, second⟩
        | cons next front =>
          refine ⟨c, breaks, more ++ (kept ++ b), by simp, same, feeds, ?_, (ih _).mpr ⟨more, kept, b, rfl, first, second, feeds', ?_⟩⟩
          · intro some_
            obtain ⟨y, later, whole⟩ := between some_
            exact ⟨y, front ++ back, congrArg (· :: (front ++ back)) (List.cons.inj whole).1⟩
          · intro kept_
            obtain ⟨⟨z, last⟩, later⟩ := between' kept_
            exact ⟨⟨z, by rwa [List.getLast?_cons_cons] at last⟩, later⟩

theorem matches_singleton_reverse (item : Item) {text : List Char} (here : Matches [item] text) :
    Matches [item] text.reverse := by
  cases item with
  | space =>
    obtain ⟨run, more, rfl, some_, white, rfl⟩ := here
    refine ⟨run.reverse, [], by simp, by simpa using some_, ?_, rfl⟩
    exact fun c member => white c (mem_reverse.mp member)
  | char x =>
    obtain ⟨c, breaks, more, rfl, same, feeds, between, rfl⟩ := here
    have none_ : breaks = [] := by
      by_contra some_
      obtain ⟨y, later, whole⟩ := between some_
      cases whole
    subst none_
    exact ⟨c, [], [], rfl, same, fun d member => absurd member not_mem_nil, fun some_ => absurd rfl some_, rfl⟩

theorem matches_reverse {items : List Item} {text : List Char} (here : Matches items text) :
    Matches items.reverse text.reverse := by
  induction items generalizing text with
  | nil =>
    cases here
    rfl
  | cons item items ih =>
    obtain ⟨a, kept, b, rfl, first, second, feeds, between⟩ := (matches_append [item] items text).mp here
    rw [reverse_cons]
    refine (matches_append ..).mpr ⟨b.reverse, kept.reverse, a.reverse, by simp, ih second, matches_singleton_reverse item first,
      fun c member => feeds c (mem_reverse.mp member), fun kept_ => ?_⟩
    obtain ⟨⟨x, last⟩, y, later, rfl⟩ := between (by simpa using kept_)
    have last : item = .char x := by simpa using last
    exact ⟨⟨y, by simp⟩, x, [], by rw [last]⟩

theorem matches_reverse_iff (items : List Item) (text : List Char) :
    Matches items.reverse text.reverse ↔ Matches items text := by
  constructor
  · intro here
    have back := matches_reverse here
    rwa [reverse_reverse, reverse_reverse] at back
  · exact matches_reverse

namespace Query

theorem itemsOf_concat (chars : List Char) (c : Char) : itemsOf (chars ++ [c]) = pushItem (itemsOf chars) c := by
  rw [itemsOf, foldl_append]
  rfl

def frontItem (c : Char) (items : List Item) : List Item :=
  if isWhitespace c then
    if items.head? = some .space then items else .space :: items
  else .char (fold c) :: items

theorem reverse_pushItem (items : List Item) (c : Char) : (pushItem items c).reverse = frontItem c items.reverse := by
  unfold pushItem frontItem
  rw [List.head?_reverse]
  split
  · split
    · rfl
    · simp
  · simp

theorem pushItem_frontItem (c d : Char) (items : List Item) :
    pushItem (frontItem c items) d = frontItem c (pushItem items d) := by
  unfold pushItem frontItem
  cases items with
  | nil => cases isWhitespace c <;> cases isWhitespace d <;> simp
  | cons item items =>
    cases item with
    | space =>
      by_cases last : (Item.space :: items).getLast? = some .space <;>
        cases isWhitespace c <;> cases isWhitespace d <;> simp [last]
    | char x =>
      by_cases last : (Item.char x :: items).getLast? = some .space <;>
        cases isWhitespace c <;> cases isWhitespace d <;> simp [last]

theorem itemsOf_cons (c : Char) (chars : List Char) : itemsOf (c :: chars) = frontItem c (itemsOf chars) := by
  induction chars using List.reverseRecOn with
  | nil => simp [itemsOf, pushItem, frontItem]
  | append_singleton chars d ih =>
    rw [← cons_append, itemsOf_concat, ih, pushItem_frontItem, itemsOf_concat]

theorem itemsOf_reverse (chars : List Char) : itemsOf chars.reverse = (itemsOf chars).reverse := by
  induction chars with
  | nil => rfl
  | cons c chars ih =>
    have back := reverse_pushItem (itemsOf chars).reverse c
    rw [reverse_reverse, ← itemsOf_cons] at back
    rw [reverse_cons, itemsOf_concat, ih, ← back, reverse_reverse]

variable {items : List Item} {q back : Query} {d : List Word} {S : Set Nat}

theorem reached_cons (S : Set Nat) (c : Char) (text : List Char) :
    reached items S (c :: text) = reached items ((automaton items).stepSet S c) text := NFA.evalFrom_cons ..

theorem reached_empty (text : List Char) : reached items ∅ text = ∅ := by
  induction text with
  | nil => rfl
  | cons c text ih => rw [reached_cons, NFA.stepSet_empty, ih]

/-- What a search backwards from a set of states finds: the earliest place from which they lead to the last one. -/
structure StartsAt (items : List Item) (S : Set Nat) (text : List Char) (sofar result : Option Nat) : Prop where
  least : ∀ a b, text = a ++ b → b ≠ [] → items.length ∈ reached items S b.reverse → ∃ i ∈ result, i ≤ Offsets.size a
  found : result = sofar ∨ ∃ a b, text = a ++ b ∧ b ≠ [] ∧ result = some (Offsets.size a) ∧
    items.length ∈ reached items S b.reverse

theorem StartsAt.concat {text : List Char} {sofar sofar' result : Option Nat} {c : Char}
    (starts : StartsAt items ((automaton items).stepSet S c) text sofar' result)
    (hit : items.length ∈ (automaton items).stepSet S c → sofar' = some (Offsets.size text))
    (missed : items.length ∉ (automaton items).stepSet S c → sofar' = sofar) :
    StartsAt items S (text ++ [c]) sofar result where
  least a b whole some_ reaches := by
    obtain ⟨b, last, rfl⟩ := (eq_nil_or_concat b).resolve_left some_
    rw [concat_eq_append, ← append_assoc] at whole
    obtain ⟨rfl, same⟩ := append_inj' whole rfl
    obtain rfl := singleton_inj.mp same
    rw [concat_eq_append, reverse_append, reverse_singleton, singleton_append, reached_cons] at reaches
    by_cases empty : b = []
    · subst empty
      have here := hit reaches
      rcases starts.found with same | ⟨a', b', whole, -, same, -⟩
      · exact ⟨_, same.trans here, by simp⟩
      refine ⟨_, same, ?_⟩
      have sizes := congrArg Offsets.size whole
      simp only [Offsets.size_append, Offsets.size_nil] at sizes
      omega
    · exact starts.least a b rfl empty reaches
  found := by
    rcases starts.found with same | ⟨a, b, rfl, some_, same, reaches⟩
    · by_cases here : items.length ∈ (automaton items).stepSet S c
      · exact .inr ⟨text, [c], rfl, cons_ne_nil c [], same.trans (hit here), by rwa [reverse_singleton, reached_cons]⟩
      · exact .inl (same.trans (missed here))
    · refine .inr ⟨a, b ++ [c], append_assoc .., append_ne_nil_of_left_ne_nil some_ [c], same, ?_⟩
      rwa [reverse_append, reverse_singleton, singleton_append, reached_cons]

theorem startFrom_startsAt (built : Built items items.length q) (live : Represents items q d S) (text : List Char)
    (sofar : Option Nat) : StartsAt items S text sofar (q.startFrom d sofar (Offsets.indices 0 text).reverse) := by
  induction text using List.reverseRecOn generalizing d S sofar with
  | nil => exact ⟨fun a b whole some_ => absurd (append_eq_nil_iff.mp whole.symm).2 some_, .inl rfl⟩
  | append_singleton text c ih =>
    have stepped := represents_step built live c
    have last := represents_last built stepped
    rw [Offsets.indices_append, reverse_append]
    simp only [Offsets.indices, reverse_cons, reverse_nil, nil_append, singleton_append, Nat.zero_add,
      startFrom]
    generalize hit : (if get (q.step d c) q.items = true then some (Offsets.size text) else sofar) = sofar'
    have hit_ (here : items.length ∈ (automaton items).stepSet S c) : sofar' = some (Offsets.size text) := by
      rw [← hit, if_pos (last.mpr here)]
    have missed (out : items.length ∉ (automaton items).stepSet S c) : sofar' = sofar := by
      rw [← hit, if_neg fun here => out (last.mp here)]
    refine StartsAt.concat ?_ hit_ missed
    split
    · rename_i zero
      rw [represents_empty stepped zero]
      refine ⟨fun a b whole some_ reaches => ?_, .inl rfl⟩
      rw [reached_empty] at reaches
      cases reaches
    · exact ih stepped _

theorem start_spec {query text : List Char} (compiled : of (itemsOf query.reverse) = some back)
    {a b : List Char} (whole : text = a ++ b) (some_ : b ≠ []) (here : Matches (itemsOf query) b) :
    ∃ a b, text = a ++ b ∧ back.start text = some (Offsets.size a) ∧ Matches (itemsOf query) b ∧
      ∀ a' b', text = a' ++ b' → Matches (itemsOf query) b' → a.length ≤ a'.length := by
  have built := built_of compiled
  have blank : Represents (itemsOf query.reverse) back (set back.none_ 0) ({0} ∪ ∅) :=
    represents_start built represents_none
  have accepts (text : List Char) : (itemsOf query.reverse).length ∈ reached (itemsOf query.reverse) ({0} ∪ ∅) text.reverse ↔
      Matches (itemsOf query) text := by
    rw [Set.union_empty, accepted_iff, itemsOf_reverse, matches_reverse_iff]
  have starts := startFrom_startsAt built blank text none
  obtain ⟨i, found, -⟩ := starts.least a b whole some_ ((accepts b).mpr here)
  rcases starts.found with none_ | ⟨a', b', whole', some_', same, reaches⟩
  · rw [none_] at found
    cases found
  refine ⟨a', b', whole', same, (accepts b').mp reaches, fun a'' b'' whole'' here'' => ?_⟩
  by_cases empty : b'' = []
  · rw [empty] at here''
    rw [(matches_nil _).mp here''] at here
    exact absurd here some_
  · obtain ⟨j, found', below⟩ := starts.least a'' b'' whole'' empty ((accepts b'').mpr here'')
    have place : Offsets.size a' ≤ Offsets.size a'' := by
      rw [same] at found'
      exact (Option.some.inj found').le.trans below
    exact Offsets.length_le_of_size (whole'.symm.trans whole'') place

def Live (items : List Item) (seen : List Char) : Set Nat :=
  {k | ∃ a b, seen = a ++ b ∧ b ≠ [] ∧ k ∈ reached items {0} b}

theorem reached_concat (S : Set Nat) (text : List Char) (c : Char) :
    reached items S (text ++ [c]) = (automaton items).stepSet (reached items S text) c := by
  rw [reached, NFA.evalFrom_append, NFA.evalFrom_singleton]
  rfl

theorem live_nil : Live items [] = ∅ := by
  rw [Set.eq_empty_iff_forall_notMem]
  rintro k ⟨a, b, whole, some_, -⟩
  exact some_ (append_eq_nil_iff.mp whole.symm).2

theorem live_concat (seen : List Char) (c : Char) :
    (automaton items).stepSet ({0} ∪ Live items seen) c = Live items (seen ++ [c]) := by
  ext k
  rw [NFA.mem_stepSet]
  constructor
  · rintro ⟨j, rfl | ⟨a, b, rfl, some_, from_⟩, move⟩
    · refine ⟨seen, [c], rfl, cons_ne_nil c [], ?_⟩
      rw [reached_cons, NFA.stepSet_singleton]
      exact move
    · refine ⟨a, b ++ [c], append_assoc .., append_ne_nil_of_left_ne_nil some_ [c], ?_⟩
      rw [reached_concat]
      exact NFA.mem_stepSet.mpr ⟨j, from_, move⟩
  · rintro ⟨a, b, whole, some_, reaches⟩
    obtain ⟨b, last, rfl⟩ := (eq_nil_or_concat b).resolve_left some_
    rw [concat_eq_append] at whole reaches
    rw [← append_assoc] at whole
    obtain ⟨rfl, same⟩ := append_inj' whole rfl
    obtain rfl := singleton_inj.mp same
    rw [reached_concat] at reaches
    obtain ⟨j, from_, move⟩ := NFA.mem_stepSet.mp reaches
    refine ⟨j, ?_, move⟩
    by_cases empty : b = []
    · subst empty
      exact .inl from_
    · exact .inr ⟨a, b, rfl, empty, from_⟩

theorem live_last (some_ : items ≠ []) (seen : List Char) :
    items.length ∈ Live items seen ↔ ∃ a b, seen = a ++ b ∧ Matches items b := by
  constructor
  · rintro ⟨a, b, whole, -, reaches⟩
    exact ⟨a, b, whole, (accepted_iff items b).mp reaches⟩
  · rintro ⟨a, b, whole, here⟩
    refine ⟨a, b, whole, ?_, (accepted_iff items b).mpr here⟩
    rintro rfl
    exact some_ ((matches_nil items).mp here)

def Quiet (items : List Item) (text : List Char) : Prop := ∀ a b c, text = a ++ (b ++ c) → ¬ Matches items b

theorem Quiet.concat {seen : List Char} {c : Char} (quiet : Quiet items seen)
    (last : ¬ ∃ a b, seen ++ [c] = a ++ b ∧ Matches items b) : Quiet items (seen ++ [c]) := by
  intro a b rest whole here
  by_cases empty : rest = []
  · subst empty
    rw [append_nil] at whole
    exact last ⟨a, b, whole, here⟩
  · obtain ⟨rest, last, rfl⟩ := (eq_nil_or_concat rest).resolve_left empty
    rw [concat_eq_append, ← append_assoc, ← append_assoc] at whole
    obtain ⟨rfl, -⟩ := append_inj' whole rfl
    exact quiet a b rest (append_assoc ..) here

theorem findFrom_reference {query text : List Char} (compiled : of (itemsOf query) = some q)
    (compiled' : of (itemsOf query.reverse) = some back) (some_ : itemsOf query ≠ []) (done seen rest : List Char)
    (whole : text = done ++ (seen ++ rest)) (live : Represents (itemsOf query) q d (Live (itemsOf query) seen))
    (quiet : Quiet (itemsOf query) seen) :
    Reference (itemsOf query) (Offsets.size done) (seen ++ rest) (q.findFrom back text (Offsets.size done) d
      (Offsets.indices (Offsets.size done + Offsets.size seen) rest)) := by
  have built := built_of compiled
  induction rest generalizing done seen d with
  | nil =>
    rw [append_nil]
    exact .nothing quiet
  | cons c rest ih =>
    have stepped := represents_step built (represents_start built live) c
    rw [live_concat] at stepped
    have last := (represents_last built stepped).trans (live_last some_ _)
    have whole_ : seen ++ c :: rest = (seen ++ [c]) ++ rest := by simp
    rw [whole_] at whole ⊢
    rw [Offsets.indices, findFrom, if_neg (by omega)]
    simp only
    split
    · rename_i hit
      obtain ⟨a, b, ends, here⟩ := last.mp hit
      have stop : Offsets.size done + Offsets.size seen + c.utf8Size = Offsets.size done + Offsets.size (seen ++ [c]) := by
        simp [Nat.add_assoc]
      have slice : Offsets.slice text (Offsets.size done) (Offsets.size done + Offsets.size (seen ++ [c])) = seen ++ [c] := by
        rw [whole]
        exact Offsets.slice_append ..
      have filled : b ≠ [] := by
        rintro rfl
        exact some_ ((matches_nil _).mp here)
      obtain ⟨a, b, ends, found, here, earliest⟩ := start_spec compiled' ends filled here
      have on : Represents (itemsOf query) q q.none_ (Live (itemsOf query) []) := by
        rw [live_nil]
        exact represents_none
      have quiet' : Quiet (itemsOf query) [] := by
        intro a b c none_ here
        rw [(append_eq_nil_iff.mp (append_eq_nil_iff.mp none_.symm).2).1] at here
        exact some_ ((matches_nil _).mp here)
      have next := ih (done ++ (seen ++ [c])) [] (by simp [whole]) on quiet'
      rw [Offsets.size_append, Offsets.size_nil, Nat.add_zero, nil_append] at next
      rw [stop, slice, found, Option.map_some, Option.getD_some]
      rw [ends] at next ⊢
      rw [append_assoc]
      refine .found here ?_ (fun a' b' same here' => earliest a' b' (ends.trans same) here') next
      intro a' b' after same here'
      by_contra sooner
      rw [← append_assoc, ← append_assoc, ← ends] at same
      rw [← ends] at sooner
      obtain ⟨more, split_⟩ : a' ++ b' <+: seen := by
        have whole' : a' ++ b' <+: seen ++ [c] ++ rest := ⟨after, same.symm⟩
        refine prefix_of_prefix_length_le whole' ⟨[c] ++ rest, by simp⟩ ?_
        simp only [length_append, length_singleton] at sooner ⊢
        omega
      exact quiet a' b' more (by rw [← split_, append_assoc]) here'
    · rename_i missed
      have quiet' := quiet.concat fun ends => missed (last.mpr ends)
      have next := ih done (seen ++ [c]) whole stepped quiet'
      rwa [Offsets.size_append, ← Nat.add_assoc, Offsets.size_cons, Offsets.size_nil, Nat.add_zero] at next

theorem itemsOf_some {items : List Item} (compiled : of items = some q) : items ≠ [] := by
  rintro rfl
  cases compiled

theorem reversed_some {query : String} (compiled : new query = some q) : ∃ back, reversed query = some back := by
  rw [reversed, itemsOf_reverse, of, any_reverse]
  rw [new, of] at compiled
  split at compiled
  · rename_i chars
    exact ⟨_, if_pos chars⟩
  · cases compiled

theorem find_eq_reference {query : String} (compiled : new query = some q) (text : String) :
    Reference (itemsOf query.toList) 0 text.toList (q.find query text) := by
  obtain ⟨back, compiled'⟩ := reversed_some compiled
  have blank : Represents (itemsOf query.toList) q q.none_ (Live (itemsOf query.toList) []) := by
    rw [live_nil]
    exact represents_none
  have quiet : Quiet (itemsOf query.toList) [] := by
    intro a b c none_ here
    rw [(append_eq_nil_iff.mp (append_eq_nil_iff.mp none_.symm).2).1] at here
    exact itemsOf_some compiled ((matches_nil _).mp here)
  have found := findFrom_reference compiled compiled' (itemsOf_some compiled) [] [] text.toList rfl blank quiet
  rw [find, compiled']
  exact found

def accepts (q : Query) (text : List Char) : Bool := get (text.foldl q.step (set q.none_ 0)) q.items

theorem represents_text (built : Built items items.length q) (live : Represents items q d S) (text : List Char) :
    Represents items q (text.foldl q.step d) (reached items S text) := by
  induction text generalizing d S with
  | nil => exact live
  | cons c text ih =>
    exact ih (represents_step built live c)

theorem accepts_iff (built : Built items items.length q) (text : List Char) :
    q.accepts text = true ↔ Matches items text := by
  have start : Represents items q (set q.none_ 0) ({0} ∪ ∅) := represents_start built represents_none
  rw [Set.union_empty] at start
  exact (represents_last built (represents_text built start text)).trans (accepted_iff items text)

end Query

/-- A reference search's ranges lie on character boundaries, hold their matches and do not overlap. -/
structure Ranges (items : List Item) (from_ : Nat) (text : List Char) (ranges : List (Nat × Nat)) : Prop where
  slices : ∀ r ∈ ranges, ∃ a b c, text = a ++ (b ++ c) ∧ r = (from_ + Offsets.size a, from_ + Offsets.size (a ++ b)) ∧
    Matches items b
  apart : ranges.Pairwise fun r r' => r.2 ≤ r'.1

theorem Reference.ranges {items : List Item} {from_ : Nat} {text : List Char} {ranges : List (Nat × Nat)}
    (reference : Reference items from_ text ranges) : Ranges items from_ text ranges := by
  induction reference with
  | nothing none_ => exact ⟨fun r member => absurd member not_mem_nil, .nil⟩
  | @found from_ before matched after ranges here first earliest rest ih =>
    refine ⟨?_, pairwise_cons.mpr ⟨?_, ih.apart⟩⟩
    · intro r member
      rcases mem_cons.mp member with rfl | later
      · exact ⟨before, matched, after, rfl, rfl, here⟩
      obtain ⟨a, b, c, rfl, rfl, here'⟩ := ih.slices r later
      refine ⟨before ++ (matched ++ a), b, c, by simp, ?_, here'⟩
      simp only [Offsets.size_append]
      congr 1 <;> omega
    · intro r later
      obtain ⟨a, b, c, -, rfl, -⟩ := ih.slices r later
      exact Nat.le_add_right ..

theorem Reference.unique {items : List Item} {from_ : Nat} {text : List Char} {ranges ranges' : List (Nat × Nat)}
    (reference : Reference items from_ text ranges) (other : Reference items from_ text ranges') : ranges = ranges' := by
  induction reference generalizing ranges' with
  | nothing none_ =>
    cases other with
    | nothing => rfl
    | found here => exact absurd here (none_ _ _ _ rfl)
  | @found from_ before matched after ranges here first earliest rest ih =>
    generalize same : before ++ (matched ++ after) = text at other
    cases other with
    | nothing none_ => exact absurd here (none_ _ _ _ same.symm)
    | @found _ before' matched' after' ranges' here' first' earliest' rest' =>
      have ends : before ++ matched = before' ++ matched' ∧ after = after' := by
        have below := first before' matched' after' same here'
        have above := first' before matched after same.symm here
        rw [← append_assoc, ← append_assoc] at same
        exact append_inj same (Nat.le_antisymm below above)
      have starts : before = before' ∧ matched = matched' := by
        have below := earliest before' matched' ends.1 here'
        have above := earliest' before matched ends.1.symm here
        exact append_inj ends.1 (Nat.le_antisymm below above)
      obtain ⟨rfl, rfl⟩ := starts
      obtain rfl := ends.2
      rw [ih rest']

structure Searched (query : String) : Prop where
  /-- What is found is what the reference finds, in any text. -/
  finds : ∀ q, Query.new query = some q → ∀ text : String, Reference (Query.itemsOf query.toList) 0 text.toList (q.find query text)
  unique : ∀ from_ text ranges ranges', Reference (Query.itemsOf query.toList) from_ text ranges →
    Reference (Query.itemsOf query.toList) from_ text ranges' → ranges = ranges'
  ranges : ∀ q, Query.new query = some q → ∀ text : String,
    Ranges (Query.itemsOf query.toList) 0 text.toList (q.find query text)
  /-- Read forwards or backwards, a query accepts the same texts. -/
  mirrored : ∀ q back, Query.new query = some q → Query.reversed query = some back →
    ∀ text, q.accepts text = back.accepts text.reverse
  accepts : ∀ q, Query.new query = some q → ∀ text, q.accepts text = true ↔ MatchesQuery query text

theorem find_matches_reference (query : String) : Searched query where
  finds q compiled := Query.find_eq_reference compiled
  unique _ _ _ _ reference other := reference.unique other
  ranges q compiled text := (Query.find_eq_reference compiled text).ranges
  mirrored q back compiled compiled' text := by
    rw [Bool.eq_iff_iff, Query.accepts_iff (Query.built_of compiled), Query.accepts_iff (Query.built_of compiled'),
      Query.itemsOf_reverse, matches_reverse_iff]
  accepts q compiled text := Query.accepts_iff (Query.built_of compiled) text

end Agent24.Documents
