import Agent24.Memory.Retriever

/-! Han bigrams of a query and of the text it is cut from, and the quotes of a match expression. -/

set_option autoImplicit false
namespace Agent24.Memory
open Library List

theorem mem_pairs {chars : List Char} {term : String} :
    term ∈ pairs chars ↔ ∃ a b, [a, b] <:+: chars ∧ term = String.ofList [a, b] := by
  fun_induction pairs chars with
  | case1 a b rest ih =>
    rw [mem_cons, ih]
    constructor
    · rintro (rfl | ⟨x, y, inside, rfl⟩)
      · exact ⟨a, b, ⟨[], rest, rfl⟩, rfl⟩
      · exact ⟨x, y, inside.trans (suffix_cons a _).isInfix, rfl⟩
    · rintro ⟨x, y, inside, rfl⟩
      rcases infix_cons_iff.mp inside with front | later
      · simp only [cons_prefix_cons] at front
        obtain ⟨rfl, rfl, -⟩ := front
        exact .inl rfl
      · exact .inr ⟨x, y, later, rfl⟩
  | case2 chars short =>
    refine iff_of_false not_mem_nil ?_
    rintro ⟨a, b, ⟨front, back, rfl⟩, -⟩
    cases front with
    | nil => exact short a b back rfl
    | cons c front => cases front <;> exact short _ _ _ rfl

theorem runBigrams_infix {piece : String} {a b : Char} (inside : [a, b] <:+: piece.toList) :
    String.ofList [a, b] ∈ runBigrams piece := by
  unfold runBigrams
  split
  · next only single =>
    rw [single] at inside
    have := inside.length_le
    simp at this
  · exact mem_pairs.mpr ⟨a, b, inside, rfl⟩

/-- Every pair of neighbouring Han characters is a term of the index. -/
theorem cjkTerms_of_infix {text : String} {a b : Char} (inside : [a, b] <:+: text.toList) (first : isHan a = true)
    (second : isHan b = true) : String.ofList [a, b] ∈ cjkTerms text := by
  obtain ⟨piece, listed, within⟩ := @Text.splitList_infix (fun ch => !isHan ch) _ _ _ inside (by simp [first])
      (by simp [second])
  rw [← String.toList_ofList (l := piece)] at within
  refine mem_flatMap.mpr ⟨String.ofList piece, mem_filter.mpr ⟨mem_map_of_mem listed, ?_⟩,
    runBigrams_infix within⟩
  refine decide_eq_true fun empty => ?_
  rw [empty] at within
  have := within.length_le
  simp at this

/-- A text of Han characters is one run. -/
theorem split_han {query : String} (han : ∀ c ∈ query.toList, isHan c = true) :
    Text.split (fun ch => !isHan ch) query = [query] := by
  have whole {chars : List Char} (han : ∀ c ∈ chars, isHan c = true) :
      Text.splitList (fun ch => !isHan ch) chars = [chars] := by
    induction chars with
    | nil => rfl
    | cons c rest ih =>
      rw [forall_mem_cons] at han
      simp [Text.splitList, han.1, ih han.2]
  rw [Text.split, whole han, map_singleton, String.ofList_toList]

theorem cjkTerms_query {query : String} (han : ∀ c ∈ query.toList, isHan c = true) (long : 2 ≤ query.length) :
    cjkTerms query = pairs query.toList := by
  have some_ : query ≠ "" := by
    rintro rfl
    simp at long
  rw [cjkTerms, split_han han, filter_cons_of_pos (by simpa using some_), filter_nil,
    flatMap_singleton, runBigrams]
  split
  · next only single =>
    rw [← String.length_toList, single] at long
    simp at long
  · rfl

def quoteTerm (term : String) : String := "\"" ++ term ++ "\""

structure FtsEngine.Lawful (engine : FtsEngine) : Prop where
  every : ∀ (terms words : List String) (row : FtsRow), terms ≠ [] → row.cjk = String.intercalate " " words →
      (∀ term ∈ terms, term ∈ words) →
    engine.isMatch (String.intercalate " " (terms.map quoteTerm)) row = true
  any : ∀ (terms words : List String) (row : FtsRow), row.cjk = String.intercalate " " words →
      (∃ term ∈ terms, term ∈ words) →
    engine.isMatch (String.intercalate " OR " (terms.map quoteTerm)) row = true

theorem han_of_mem_cjkTerms {text term : String} (listed : term ∈ cjkTerms text) :
    ∀ c ∈ term.toList, isHan c = true := by
  obtain ⟨piece, kept, inside⟩ := mem_flatMap.mp listed
  have han : ∀ c ∈ piece.toList, isHan c = true := fun c member => by
    simpa using (Text.mem_split (mem_of_mem_filter kept) member).2
  unfold runBigrams at inside
  split at inside
  · next only single =>
    rw [mem_singleton.mp inside, String.toList_ofList, ← single]
    exact han
  · obtain ⟨a, b, within, rfl⟩ := mem_pairs.mp inside
    rw [String.toList_ofList]
    exact fun c member => han c (within.subset member)

section
variable {P : Platform} {query joiner expression : String}

/-- No term can close its quotes. -/
theorem matchQuery_terms (plain : P.isAlphanumeric '"' = false)
    (built : toMatchQueryWith P query joiner = some expression) :
    ∃ terms, terms ≠ [] ∧ expression = String.intercalate joiner (terms.map quoteTerm) ∧
      ∀ term ∈ terms, '"' ∉ term.toList := by
  have word {term : String} (listed : term ∈ Text.split (fun ch => !P.isAlphanumeric ch) query) :
      '"' ∉ term.toList := fun member => by
    have kept := (Text.mem_split listed member).2
    rw [plain] at kept
    cases kept
  unfold toMatchQueryWith at built
  dsimp only at built
  split at built
  · cases built
  next some_ =>
  rw [List.isEmpty_iff, List.map_eq_nil_iff] at some_
  refine ⟨_, some_, (Option.some.inj built).symm, fun term listed quote => ?_⟩
  rcases List.mem_append.mp listed with kept | bigram
  · obtain ⟨outer, listed, inner⟩ := List.mem_flatMap.mp (List.mem_of_mem_filter kept)
    have outside := word (mem_of_mem_filter listed)
    rcases mem_cons.mp inner with rfl | piece
    · exact outside quote
    · exact outside (Text.mem_split (mem_of_mem_filter piece) quote).1
  · exact absurd (han_of_mem_cjkTerms (mem_of_mem_filter bigram) _ quote) (by decide)

theorem matchQuery_han (han : ∀ c ∈ query.toList, isHan c = true) :
    toMatchQueryWith P query joiner =
      let terms := (cjkTerms query).filter fun bigram => !(joiner == " OR ") || !isFunctionOnlyBigram bigram
      if (terms.map quoteTerm).isEmpty then none else some (String.intercalate joiner (terms.map quoteTerm)) := by
  have none_other : ((Text.split (fun ch => !P.isAlphanumeric ch) query).filter fun term =>
      term ≠ "" && term.toList.any fun ch => !isHan ch) = [] := by
    refine filter_eq_nil_iff.mpr fun term listed other => ?_
    rw [Bool.and_eq_true, any_eq_true] at other
    obtain ⟨-, c, member, not_han⟩ := other
    rw [han c (Text.mem_split listed member).1] at not_han
    cases not_han
  unfold toMatchQueryWith
  rw [none_other]
  rfl

end
end Agent24.Memory
