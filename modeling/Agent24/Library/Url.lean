import Mathlib.Algebra.Ring.Nat
import Mathlib.Data.List.Basic
import Mathlib.Data.List.Induction
import Mathlib.Order.Lattice

/-! Resolving a reference against an http URL, the way browsers do, and which segments its path keeps. -/

set_option autoImplicit false
namespace Library.Url

abbrev Segment := List UInt8

def slash : UInt8 := 47

def percent : UInt8 := 37

def isSlash (b : UInt8) : Bool := b == slash || b == 92

/-- `?` and `#` end the path. -/
def ends (b : UInt8) : Bool := b == 63 || b == 35

def isAlpha (b : UInt8) : Bool := (65 ≤ b && b ≤ 90) || (97 ≤ b && b ≤ 122)

def lower (b : UInt8) : UInt8 := if 65 ≤ b ∧ b ≤ 90 then b + 32 else b

/-! ## Segments -/

/-- The bytes a path holds only in percent-encoding: controls and all that is not ASCII, the space, the quote, `#`, `<`,
`>`, `?`, `^`, the backquote and the braces. -/
def encodes (b : UInt8) : Bool :=
  b < 33 || 126 < b || b == 34 || b == 35 || b == 60 || b == 62 || b == 63 || b == 94 || b == 96 || b == 123 || b == 125

def hexDigit (n : UInt8) : UInt8 := if n < 10 then 48 + n else 55 + n

def encode (b : UInt8) : Segment := if encodes b then [percent, hexDigit (b / 16), hexDigit (b % 16)] else [b]

/-- `.`, also encoded. -/
def singleDot (s : Segment) : Bool := [[46], [37, 50, 101]].contains (s.map lower)

/-- `..`, also encoded. -/
def doubleDot (s : Segment) : Bool :=
  [[46, 46], [46, 37, 50, 101], [37, 50, 101, 46], [37, 50, 101, 37, 50, 101]].contains (s.map lower)

structure Proper (s : Segment) : Prop where
  whole : slash ∉ s
  single : singleDot s = false
  double : doubleDot s = false

/-! ## The parser -/

def turn (path : List Segment) (buffer : Segment) : List Segment :=
  if doubleDot buffer then path.dropLast else if singleDot buffer then path else path ++ [buffer]

def finish (path : List Segment) (buffer : Segment) : List Segment :=
  if doubleDot buffer then path.dropLast ++ [[]] else if singleDot buffer then path ++ [[]] else path ++ [buffer]

def pathState : List Segment → Segment → List UInt8 → List Segment
  | path, buffer, [] => finish path buffer
  | path, buffer, b :: rest =>
    if isSlash b then pathState (turn path buffer) [] rest
    else if ends b then finish path buffer
    else pathState path (buffer ++ encode b) rest

def relative (base : List Segment) : List UInt8 → Option (List Segment)
  | [] => some base
  | b :: rest =>
    if isSlash b then if rest.head?.any isSlash then none else some (pathState [] [] rest)
    else if ends b then some base
    else some (pathState base.dropLast [] (b :: rest))

def schemeByte (b : UInt8) : Bool := isAlpha b || (48 ≤ b && b ≤ 57) || b == 43 || b == 45 || b == 46

def schemeOf (input : List UInt8) : Option (List UInt8 × List UInt8) :=
  if input.head?.any isAlpha && (input.dropWhile schemeByte).head? == some 58 then
    some (input.takeWhile schemeByte, (input.dropWhile schemeByte).tail)
  else none

/-- Controls and spaces around the input go, and so do tabs and newlines anywhere. -/
def stripped (input : List UInt8) : List UInt8 :=
  (((input.dropWhile (· < 33)).reverse.dropWhile (· < 33)).reverse).filter fun b => !(b == 9 || b == 10 || b == 13)

def resolvePath (scheme_ : List UInt8) (base : List Segment) (reference : List UInt8) : Option (List Segment) :=
  match schemeOf (stripped reference) with
  -- with the base's own scheme the reference still counts as relative
  | some (name, rest) => if name.map lower = scheme_ then relative base rest else none
  | none => relative base (stripped reference)

/-! ## What a path keeps -/

section
variable {path base : List Segment} {s buffer : Segment} {input : List UInt8}

theorem hexDigit_ne_slash {n : UInt8} (small : n < 16) : hexDigit n ≠ slash := by
  have value := UInt8.lt_iff_toNat_lt.mp small
  intro same
  have number := congrArg UInt8.toNat same
  unfold hexDigit slash at number
  split at number
  · rw [UInt8.toNat_add] at number
    simp only [UInt8.reduceToNat] at value number
    omega
  · rw [UInt8.toNat_add] at number
    simp only [UInt8.reduceToNat] at value number
    omega

theorem slash_notMem_encode {b : UInt8} (other : isSlash b = false) : slash ∉ encode b := by
  have apart : slash ≠ b := by
    rintro rfl
    exact absurd other (by decide)
  unfold encode
  split
  · simp only [List.mem_cons, List.not_mem_nil, or_false, not_or]
    refine ⟨by decide, (hexDigit_ne_slash ?_).symm, (hexDigit_ne_slash ?_).symm⟩
    · rw [UInt8.lt_iff_toNat_lt, UInt8.toNat_div]
      have := b.toNat_lt
      simp only [UInt8.reduceToNat]
      omega
    · rw [UInt8.lt_iff_toNat_lt, UInt8.toNat_mod]
      simp only [UInt8.reduceToNat]
      omega
  · exact fun member => apart (List.mem_singleton.mp member)

theorem proper_nil : Proper [] := ⟨List.not_mem_nil, by decide, by decide⟩

theorem proper_turn (proper : ∀ s ∈ path, Proper s) (whole : slash ∉ buffer) : ∀ s ∈ turn path buffer, Proper s := by
  intro s member
  unfold turn at member
  split at member
  · exact proper s ((List.dropLast_sublist _).subset member)
  split at member
  · exact proper s member
  rename_i double single
  rcases List.mem_append.mp member with earlier | last
  · exact proper s earlier
  · rw [List.mem_singleton.mp last]
    exact ⟨whole, Bool.eq_false_iff.mpr single, Bool.eq_false_iff.mpr double⟩

theorem finish_eq (path : List Segment) (buffer : Segment) : finish path buffer = turn path buffer ∨
    finish path buffer = turn path buffer ++ [[]] := by
  unfold finish turn
  split
  · exact .inr rfl
  split
  · exact .inr rfl
  · exact .inl rfl

theorem proper_finish (proper : ∀ s ∈ path, Proper s) (whole : slash ∉ buffer) : ∀ s ∈ finish path buffer,
    Proper s := by
  have turned := proper_turn proper whole
  rcases finish_eq path buffer with same | same
  · rwa [same]
  rw [same]
  intro s member
  rcases List.mem_append.mp member with earlier | last
  · exact turned s earlier
  · rw [List.mem_singleton.mp last]
    exact proper_nil

theorem proper_pathState (proper : ∀ s ∈ path, Proper s) (whole : slash ∉ buffer) :
    ∀ s ∈ pathState path buffer input, Proper s := by
  induction input generalizing path buffer with
  | nil => exact proper_finish proper whole
  | cons b rest ih =>
    rw [pathState]
    split
    · exact ih (proper_turn proper whole) List.not_mem_nil
    rename_i other
    split
    · exact proper_finish proper whole
    refine ih proper fun member => ?_
    rcases List.mem_append.mp member with inside | encoded
    · exact whole inside
    · exact slash_notMem_encode (Bool.eq_false_iff.mpr other) encoded

theorem proper_relative (proper : ∀ s ∈ base, Proper s) (found : relative base input = some path) :
    ∀ s ∈ path, Proper s := by
  have none_ : ∀ s ∈ ([] : List Segment), Proper s := fun s member => absurd member List.not_mem_nil
  cases input with
  | nil =>
    cases found
    exact proper
  | cons b rest =>
    rw [relative] at found
    split at found
    · split at found
      · cases found
      · cases found
        exact proper_pathState none_ List.not_mem_nil
    split at found
    · cases found
      exact proper
    · cases found
      exact proper_pathState (fun s member => proper s ((List.dropLast_sublist _).subset member)) List.not_mem_nil

theorem proper_resolvePath {scheme_ : List UInt8} (proper : ∀ s ∈ base, Proper s)
    (found : resolvePath scheme_ base input = some path) : ∀ s ∈ path, Proper s := by
  unfold resolvePath at found
  split at found
  · split at found
    · exact proper_relative proper found
    · cases found
  · exact proper_relative proper found

end

end Library.Url

namespace Library

structure Url where
  scheme : List UInt8
  authority : List UInt8
  path : List Url.Segment
  proper : ∀ s ∈ path, Url.Proper s

end Library

namespace Library.Url

def resolve (base : Url) (reference : List UInt8) : Option Url :=
  (resolvePath base.scheme base.path reference).attach.map fun found =>
    { base with path := found.1, proper := proper_resolvePath base.proper found.2 }

theorem resolve_of_path {base : Url} {reference : List UInt8} {path : List Segment}
    (found : resolvePath base.scheme base.path reference = some path) :
    ∃ url, resolve base reference = some url ∧ url.scheme = base.scheme ∧ url.authority = base.authority ∧
      url.path = path := by
  have paths : (resolve base reference).map (·.path) = resolvePath base.scheme base.path reference := by
    rw [resolve, Option.map_map]
    exact Option.attach_map_subtype_val _
  rw [found] at paths
  obtain ⟨url, resolved, same⟩ := Option.map_eq_some_iff.mp paths
  obtain ⟨_, -, rfl⟩ := Option.map_eq_some_iff.mp resolved
  exact ⟨_, resolved, rfl, rfl, same⟩

def pathText (path : List Segment) : List UInt8 := path.flatMap fun s => slash :: s

/-! ## Encoding keeps a segment's kind -/

section
variable {b c : UInt8} {s : Segment}

def encoded (s : Segment) : Segment := s.flatMap encode

theorem lower_eq (other : c < 97 ∨ 122 < c) (same : lower b = c) : b = c := by
  unfold lower at same
  split at same
  · next upper =>
    exfalso
    have sum := congrArg UInt8.toNat same
    simp only [UInt8.le_iff_toNat_le, UInt8.lt_iff_toNat_lt, UInt8.reduceToNat] at upper other
    rw [UInt8.toNat_add] at sum
    simp only [UInt8.reduceToNat] at sum
    omega
  · exact same

theorem lower_eq_e (same : lower b = 101) : b = 101 ∨ b = 69 := by
  unfold lower at same
  split at same
  · next upper =>
    have sum := congrArg UInt8.toNat same
    simp only [UInt8.le_iff_toNat_le, UInt8.reduceToNat] at upper
    rw [UInt8.toNat_add] at sum
    simp only [UInt8.reduceToNat] at sum
    exact .inr (UInt8.toNat_inj.mp (by simp only [UInt8.reduceToNat]; omega))
  · exact .inl same

theorem hexDigit_toNat {n : UInt8} (small : n.toNat < 16) :
    (hexDigit n).toNat = if n.toNat < 10 then 48 + n.toNat else 55 + n.toNat := by
  unfold hexDigit
  by_cases digit : n.toNat < 10
  · rw [if_pos (UInt8.lt_iff_toNat_lt.mpr digit), if_pos digit, UInt8.toNat_add]
    simp only [UInt8.reduceToNat]
    omega
  · rw [if_neg fun less => digit (UInt8.lt_iff_toNat_lt.mp less), if_neg digit, UInt8.toNat_add]
    simp only [UInt8.reduceToNat]
    omega

theorem encode_not_dot (held : encodes b = true) (high : hexDigit (b / 16) = 50)
    (low : lower (hexDigit (b % 16)) = 101) : False := by
  have size := b.toNat_lt
  have quotient : (b / 16).toNat = b.toNat / 16 := UInt8.toNat_div ..
  have remainder : (b % 16).toNat = b.toNat % 16 := UInt8.toNat_mod ..
  have first := congrArg UInt8.toNat high
  rw [hexDigit_toNat (by omega), quotient] at first
  have second := lower_eq_e low
  rcases second with same | same
  all_goals
    have second := congrArg UInt8.toNat same
    rw [hexDigit_toNat (by omega), remainder] at second
    simp only [UInt8.reduceToNat] at first second
  · split at second <;> omega
  · have dot : b.toNat = 46 := by
      split at first <;> split at second <;> omega
    have same : b = 46 := UInt8.toNat_inj.mp dot
    subst same
    exact absurd held (by decide)

/-- In a dot segment every `%` begins an encoded dot. -/
theorem dot_escape {t u v : Segment} {x y : UInt8}
    (form : t ∈ [[46], [37, 50, 101], [46, 46], [46, 37, 50, 101], [37, 50, 101, 46], [37, 50, 101, 37, 50, 101]])
    (split : t = u ++ percent :: x :: y :: v) : x = 50 ∧ y = 101 := by
  have all : ∀ t ∈ ([[46], [37, 50, 101], [46, 46], [46, 37, 50, 101], [37, 50, 101, 46],
      [37, 50, 101, 37, 50, 101]] : List Segment), t.length ≤ 6 ∧ ∀ i < 6, t[i]? = some percent →
        t[i + 1]? = some 50 ∧ t[i + 2]? = some 101 := by decide
  obtain ⟨short, escapes⟩ := all t form
  have at_ : t[u.length]? = some percent := by simp [split]
  have inside : u.length < 6 := by
    rw [split] at short
    simp only [List.length_append, List.length_cons] at short
    omega
  have found := escapes u.length inside at_
  have next1 : t[u.length + 1]? = some x := by simp [split]
  have next2 : t[u.length + 2]? = some y := by simp [split]
  rw [next1, next2, Option.some_inj, Option.some_inj] at found
  exact found

theorem map_lower_dot (dot : singleDot s = true ∨ doubleDot s = true) :
    s.map lower ∈ ([[46], [37, 50, 101], [46, 46], [46, 37, 50, 101], [37, 50, 101, 46],
      [37, 50, 101, 37, 50, 101]] : List Segment) := by
  unfold singleDot doubleDot at dot
  simp only [List.contains_iff_mem, List.mem_cons, List.not_mem_nil, or_false] at dot ⊢
  tauto

theorem encoded_dot (dot : singleDot (encoded s) = true ∨ doubleDot (encoded s) = true) : encoded s = s := by
  have plain : ∀ b ∈ s, encode b = [b] := by
    intro b member
    obtain ⟨u, v, rfl⟩ := List.append_of_mem member
    unfold encode
    split
    · next held =>
      exfalso
      have form := map_lower_dot dot
      have shape : (encoded (u ++ b :: v)).map lower = (encoded u).map lower ++
          percent :: lower (hexDigit (b / 16)) :: lower (hexDigit (b % 16)) :: (encoded v).map lower := by
        simp only [encoded, List.flatMap_append, List.flatMap_cons, encode, held, if_true, List.map_append,
            List.map_cons,
          List.cons_append, List.nil_append]
        rfl
      obtain ⟨high, low⟩ := dot_escape form shape
      exact encode_not_dot held (lower_eq (.inl (by decide)) high) low
    · rfl
  unfold encoded
  rw [List.flatMap_congr plain]
  simp

end

/-! ## Which segments a path keeps -/

section
variable {path base segs group rest names : List Segment} {s name : Segment} {n k : Nat}

def walk (path segs : List Segment) : List Segment := segs.foldl turn path

/-- How many segments stand after these; none where a `..` finds nothing to take back. -/
def level : Nat → List Segment → Option Nat
  | n, [] => some n
  | n, s :: rest =>
    if doubleDot s then if n = 0 then none else level (n - 1) rest
    else if singleDot s then level n rest
    else level (n + 1) rest

-- Their equations, made once for the proofs below.
section
attribute [local simp] pathState level
end

/-- The names stand in order, the segments before each cancel out, and after the last a `..` only takes back what
came after it. -/
def Held : List Segment → List Segment → Prop
  | [], segs => (level 0 segs).isSome
  | name :: names, segs => ∃ group rest, segs = group ++ name :: rest ∧ level 0 group = some 0 ∧ Held names rest

def Plain (names : List Segment) : Prop := ∀ name ∈ names, singleDot name = false ∧ doubleDot name = false

@[simp] theorem walk_nil : walk path [] = path := rfl

theorem walk_append : walk path (group ++ rest) = walk (walk path group) rest := List.foldl_append ..

theorem level_append : level n (group ++ rest) = (level n group).bind fun k => level k rest := by
  induction group generalizing n with
  | nil => rfl
  | cons s group ih =>
    rw [List.cons_append, level, level]
    split
    · split
      · rfl
      · exact ih
    split
    · exact ih
    · exact ih

theorem level_add (m : Nat) (found : level n segs = some k) : level (n + m) segs = some (k + m) := by
  induction segs generalizing n with
  | nil =>
    cases found
    rfl
  | cons s segs ih =>
    rw [level] at found ⊢
    split at found
    next double =>
      rw [if_pos double]
      split at found
      · cases found
      rename_i some_
      rw [if_neg (by omega), show n + m - 1 = n - 1 + m by omega]
      exact ih found
    next double =>
      rw [if_neg double]
      split at found
      next single =>
        rw [if_pos single]
        exact ih found
      next single =>
        rw [if_neg single, show n + m + 1 = n + 1 + m by omega]
        exact ih found

theorem walk_above (base : List Segment) (found : level path.length segs = some k) :
    walk (base ++ path) segs = base ++ walk path segs ∧ (walk path segs).length = k := by
  induction segs generalizing path with
  | nil =>
    cases found
    exact ⟨rfl, rfl⟩
  | cons s segs ih =>
    rw [level] at found
    rw [walk, walk, List.foldl_cons, List.foldl_cons, turn, turn]
    split at found
    next double =>
      rw [if_pos double, if_pos double]
      split at found
      · cases found
      rename_i some_
      have filled : path ≠ [] := fun none_ => some_ (congrArg List.length none_)
      rw [List.dropLast_append_of_ne_nil filled]
      exact ih (List.length_dropLast ▸ found)
    next double =>
      rw [if_neg double, if_neg double]
      split at found
      next single =>
        rw [if_pos single, if_pos single]
        exact ih found
      next single =>
        rw [if_neg single, if_neg single, List.append_assoc]
        refine ih ?_
        rw [List.length_append, List.length_singleton]
        exact found

theorem walk_length (found : level 0 segs = some k) : (walk [] segs).length = k :=
  (walk_above [] (show level ([] : List Segment).length segs = some k from found)).2

theorem lowest (found : level 0 segs = some k) (kept : walk [] segs = name :: rest) :
    ∃ group after, segs = group ++ name :: after ∧ level 0 group = some 0 ∧ (level 0 after).isSome ∧
      walk [] after = rest := by
  induction segs using List.reverseRecOn generalizing k rest with
  | nil => cases kept
  | append_singleton segs s ih =>
    rw [level_append] at found
    obtain ⟨m, earlier, last⟩ := Option.bind_eq_some_iff.mp found
    rw [walk_append] at kept
    change turn (walk [] segs) s = name :: rest at kept
    -- a segment that comes later stands on the ones already there
    have later : ∀ {above}, walk [] segs = name :: above → turn above s = rest →
        (∀ j, above.length = j → (level j [s]).isSome) → ∃ group after, segs ++ [s] = group ++ name :: after ∧
          level 0 group = some 0 ∧ (level 0 after).isSome ∧ walk [] after = rest := by
      intro above standing turned stands
      obtain ⟨group, after, rfl, cancels, some_, same⟩ := ih earlier standing
      obtain ⟨j, inner⟩ := Option.isSome_iff_exists.mp some_
      refine ⟨group, after ++ [s], by simp, cancels, ?_, ?_⟩
      · rw [level_append, inner, Option.bind_some]
        exact stands j (same ▸ walk_length inner)
      · rw [walk_append, same]
        exact turned
    rw [turn] at kept
    split at kept
    next double =>
      cases standing : walk [] segs with
      | nil =>
        rw [standing] at kept
        cases kept
      | cons lowest above =>
        cases above with
        | nil =>
          rw [standing] at kept
          cases kept
        | cons second above =>
          rw [standing, List.dropLast_cons_cons] at kept
          obtain ⟨rfl, dropped⟩ := List.cons.inj kept
          refine later standing (by rw [turn, if_pos double, dropped]) fun j size => ?_
          rw [level, if_pos double, if_neg (by rw [← size]; exact Nat.succ_ne_zero _)]
          rfl
    next double =>
      split at kept
      next single =>
        refine later kept (by rw [turn, if_neg double, if_pos single]) fun j _ => ?_
        rw [level, if_neg double, if_pos single]
        rfl
      next single =>
        cases standing : walk [] segs with
        | nil =>
          rw [standing] at kept
          obtain ⟨rfl, rfl⟩ := List.cons.inj kept
          have ground := walk_length earlier
          rw [standing] at ground
          exact ⟨segs, [], rfl, earlier.trans (congrArg some ground.symm), rfl, rfl⟩
        | cons lowest above =>
          rw [standing] at kept
          obtain ⟨rfl, grown⟩ := List.cons.inj kept
          refine later standing (by rw [turn, if_neg double, if_neg single]; exact grown) fun j _ => ?_
          rw [level, if_neg double, if_neg single]
          rfl

theorem Held.level (plain : Plain names) (held : Held names segs) : (level 0 segs).isSome := by
  induction names generalizing segs with
  | nil => exact held
  | cons name names ih =>
    obtain ⟨group, rest, rfl, cancels, held⟩ := held
    obtain ⟨single, double⟩ := plain name (List.mem_cons_self ..)
    obtain ⟨k, inner⟩ := Option.isSome_iff_exists.mp (ih (fun other member => plain other
        (List.mem_cons_of_mem _ member)) held)
    rw [level_append, cancels, Option.bind_some, Url.level, double, single, if_neg Bool.false_ne_true,
      if_neg Bool.false_ne_true, level_add 1 inner]
    rfl

theorem names_kept (plain : Plain names) (found : (level 0 segs).isSome) : names <+: walk [] segs ↔
    Held names segs := by
  induction names generalizing segs with
  | nil => exact ⟨fun _ => found, fun _ => List.nil_prefix⟩
  | cons name names ih =>
    have others : Plain names := fun other member => plain other (List.mem_cons_of_mem _ member)
    obtain ⟨single, double⟩ := plain name (List.mem_cons_self ..)
    obtain ⟨k, level_⟩ := Option.isSome_iff_exists.mp found
    constructor
    · intro begins
      obtain ⟨more, same⟩ := begins
      obtain ⟨group, after, rfl, cancels, some_, above⟩ := lowest level_ same.symm
      exact ⟨group, after, rfl, cancels, (ih others some_).mp (above ▸ List.prefix_append ..)⟩
    · rintro ⟨group, rest, rfl, cancels, held⟩
      have some_ := held.level others
      obtain ⟨j, inner⟩ := Option.isSome_iff_exists.mp some_
      have ground : walk [] group = [] := List.length_eq_zero_iff.mp (walk_length cancels)
      have pushed : walk [] (group ++ name :: rest) = name :: walk [] rest := by
        rw [walk_append, ground, walk, List.foldl_cons, turn, double, single, if_neg Bool.false_ne_true,
          if_neg Bool.false_ne_true]
        exact (walk_above [name] (show Url.level ([] : List Segment).length rest = some j from inner)).1
      rw [pushed]
      exact List.cons_prefix_cons.mpr ⟨rfl, (ih others some_).mpr held⟩

end

/-! ## The path state, segment by segment -/

section
variable {path : List Segment} {s buffer : Segment} {b : UInt8} {input tail : List UInt8}

section
variable (clean : ∀ b ∈ s, isSlash b = false ∧ ends b = false)
include clean

theorem pathState_append :
    pathState path buffer (s ++ input) = pathState path (buffer ++ encoded s) input := by
  induction s generalizing buffer with
  | nil => rw [List.nil_append, encoded, List.flatMap_nil, List.append_nil]
  | cons b s ih =>
    obtain ⟨open_, goes⟩ := clean b (List.mem_cons_self ..)
    rw [List.cons_append, pathState, open_, goes, if_neg Bool.false_ne_true, if_neg Bool.false_ne_true,
      ih fun other member => clean other (List.mem_cons_of_mem _ member), List.append_assoc]
    rfl

theorem pathState_segment :
    pathState path [] (s ++ slash :: input) = pathState (turn path (encoded s)) [] input := by
  rw [pathState_append clean, List.nil_append, pathState, if_pos (by decide)]

theorem pathState_last :
    pathState path [] s = finish path (encoded s) := by
  have whole : pathState path [] (s ++ []) = pathState path ([] ++ encoded s) [] := pathState_append clean
  rwa [List.append_nil, List.nil_append] at whole

end

theorem pathState_cut (stops : tail.head?.all ends = true) : pathState path buffer
    (input ++ tail) = pathState path buffer input := by
  induction input generalizing path buffer with
  | nil =>
    cases tail with
    | nil => rfl
    | cons b rest =>
      have cut : ends b = true := stops
      have open_ : isSlash b = false := by
        simp only [ends, Bool.or_eq_true, beq_iff_eq] at cut
        rcases cut with rfl | rfl <;> rfl
      simp only [List.nil_append, pathState, open_, cut, Bool.false_eq_true, if_false, if_true]
  | cons b rest ih => rw [List.cons_append, pathState, pathState, ih, ih]

end

end Library.Url
