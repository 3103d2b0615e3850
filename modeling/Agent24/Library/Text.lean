import Mathlib.Data.String.Basic
import Mathlib.Data.List.Nodup
import Mathlib.Data.List.Perm.Subperm
import Mathlib.Data.List.TakeWhile

/-! Text as lists of characters: affixes, trimming, splitting, and allocation of unused names. -/

set_option autoImplicit false
namespace Library.Text
open List

/-- `text` begins with `lead`. -/
def startsWith (lead text : String) : Bool := lead.toList.isPrefixOf text.toList

/-- The text after `lead`, where it begins with it. -/
def strip (lead text : String) : Option String :=
  if startsWith lead text then some (String.ofList (text.toList.drop lead.length)) else none

def take (count : Nat) (text : String) : String := String.ofList (text.toList.take count)

def frontWithin : Nat → List Char → List Char
  | _, [] => []
  | room, c :: rest => if c.utf8Size ≤ room then c :: frontWithin (room - c.utf8Size) rest else []

def trim (drop : Char → Bool) (text : String) : String :=
  String.ofList (((text.toList.dropWhile drop).reverse.dropWhile drop).reverse)

def blank (drop : Char → Bool) (text : String) : Bool := text.toList.all drop

def splitList (sep : Char → Bool) : List Char → List (List Char)
  | [] => [[]]
  | c :: rest =>
    if sep c then [] :: splitList sep rest
    else match splitList sep rest with
      | [] => [[c]]
      | piece :: more => (c :: piece) :: more

def split (sep : Char → Bool) (text : String) : List String :=
  (splitList sep text.toList).map String.ofList

def splitOnce (sep : Char) (text : String) : Option (String × String) :=
  let chars := text.toList
  let front := chars.takeWhile (· ≠ sep)
  if front.length < chars.length then
    some (String.ofList front, String.ofList (chars.drop (front.length + 1)))
  else none

theorem startsWith_append (lead rest : String) : startsWith lead (lead ++ rest) = true := by
  simp [startsWith, isPrefixOf_iff_prefix]

theorem startsWith_iff (lead text : String) :
    startsWith lead text = true ↔ ∃ rest, text = lead ++ rest := by
  simp only [startsWith, isPrefixOf_iff_prefix]
  constructor
  · rintro ⟨rest, whole⟩
    exact ⟨String.ofList rest, by rw [← String.toList_inj]; simp [whole]⟩
  · rintro ⟨rest, rfl⟩
    exact ⟨rest.toList, by simp⟩

theorem strip_eq_some (lead text rest : String) : strip lead text = some rest ↔ text = lead ++ rest := by
  have after (more : String) : String.ofList ((lead ++ more).toList.drop lead.length) = more := by
    rw [String.toList_append, ← String.length_toList, drop_left, String.ofList_toList]
  constructor
  · intro found
    unfold strip at found
    split at found
    · rename_i begins
      obtain ⟨more, rfl⟩ := (startsWith_iff lead text).mp begins
      rw [after] at found
      cases found
      rfl
    · cases found
  · rintro rfl
    rw [strip, if_pos (startsWith_append lead rest), after]

theorem splitOnce_eq_some (sep : Char) (text front rest : String) :
    splitOnce sep text = some (front, rest) ↔
      text = front ++ (String.singleton sep ++ rest) ∧ sep ∉ front.toList := by
  constructor
  · intro found
    unfold splitOnce at found
    dsimp only at found
    have whole := takeWhile_append_dropWhile (p := fun c => decide (c ≠ sep)) (l := text.toList)
    have clean : sep ∉ text.toList.takeWhile (fun c => decide (c ≠ sep)) := fun member => by
      simpa using mem_takeWhile_imp member
    have stops : ∀ c more, text.toList.dropWhile (fun c => decide (c ≠ sep)) = c :: more → c = sep := by
      intro c more back
      have nonempty : text.toList.dropWhile (fun c => decide (c ≠ sep)) ≠ [] := by
        rw [back]
        exact cons_ne_nil c more
      have head := head_dropWhile_not (fun c => decide (c ≠ sep)) nonempty
      simp only [back, head_cons] at head
      simpa using head
    generalize text.toList.takeWhile (fun c => decide (c ≠ sep)) = before at found whole clean
    generalize text.toList.dropWhile (fun c => decide (c ≠ sep)) = after at whole stops
    split at found
    · rename_i shorter
      cases found
      rw [String.toList_ofList]
      refine ⟨?_, clean⟩
      rw [← whole] at shorter ⊢
      cases after with
      | nil => simp at shorter
      | cons c more =>
        rw [← String.toList_inj, ← whole, stops c more rfl]
        simp [drop_append]
    · cases found
  · rintro ⟨rfl, clean⟩
    have ends : (front ++ (String.singleton sep ++ rest)).toList.takeWhile (fun c => decide (c ≠ sep)) =
        front.toList := by
      simp only [String.toList_append, String.toList_singleton]
      rw [takeWhile_append_of_pos]
      · simp
      · intro c member
        exact decide_eq_true fun same => clean (same ▸ member)
    unfold splitOnce
    dsimp only
    rw [ends]
    simp [drop_append]

private theorem dropWhile_eq_nil {drop : Char → Bool} {chars : List Char} :
    chars.dropWhile drop = [] ↔ chars.all drop = true := by
  simp

theorem trim_eq_empty (drop : Char → Bool) (text : String) :
    trim drop text = "" ↔ blank drop text = true := by
  have empty : trim drop text = "" ↔
      ((text.toList.dropWhile drop).reverse.dropWhile drop).reverse = [] := by
    rw [trim, ← String.toList_inj]; simp
  rw [empty, reverse_eq_nil_iff, dropWhile_eq_nil, all_reverse]
  constructor
  · intro rest
    refine all_eq_true.mpr fun c member => ?_
    by_contra stays
    have kept : c ∈ text.toList.dropWhile drop := by
      have whole := takeWhile_append_dropWhile (p := drop) (l := text.toList)
      rw [← whole] at member
      rcases mem_append.mp member with front | back
      · exact absurd (mem_takeWhile_imp front) stays
      · exact back
    exact stays (all_eq_true.mp rest c kept)
  · intro all
    rw [dropWhile_eq_nil.mpr all]
    rfl

theorem blank_of_imp {few many : Char → Bool} (wider : ∀ c, few c = true → many c = true)
    {text : String} (empty : blank few text = true) : blank many text = true :=
  all_eq_true.mpr fun c member => wider c (all_eq_true.mp empty c member)

theorem numeral_injective {m n : Nat} (same : toString m = toString n) : m = n := by
  have digits : Nat.toDigits 10 m = Nat.toDigits 10 n := by
    rw [← Nat.toList_repr, ← Nat.toList_repr]
    exact congrArg String.toList same
  rw [← Nat.ofDigitChars_toDigits (b := 10) (n := m) (by decide) (by decide), digits,
    Nat.ofDigitChars_toDigits (by decide) (by decide)]

theorem append_right_injective {lead first second : String}
    (same : lead ++ first = lead ++ second) : first = second := by
  simpa using same

section
variable {Name : Type} [DecidableEq Name]

/-- The first unused name from `start` on. `fuel` bounds the search by the number of used names. -/
def searchFresh (taken : List Name) (name : Nat → Name) : Nat → Nat → Name
  | 0, start => name start
  | fuel + 1, start =>
    if name start ∈ taken then searchFresh taken name fuel (start + 1) else name start

def fresh (taken : List Name) (name : Nat → Name) : Name :=
  searchFresh taken name taken.length 0

private theorem searchFresh_of_taken {taken : List Name} {name : Nat → Name} {fuel start : Nat}
    (used : searchFresh taken name fuel start ∈ taken) :
    ∀ i, i ≤ fuel → name (start + i) ∈ taken := by
  induction fuel generalizing start with
  | zero =>
    intro i bound
    obtain rfl : i = 0 := by omega
    exact used
  | succ fuel ih =>
    simp only [searchFresh] at used
    split at used
    case isTrue first =>
      intro i bound
      cases i with
      | zero => exact first
      | succ i =>
        have next := ih used i (by omega)
        rwa [show start + 1 + i = start + (i + 1) by omega] at next
    case isFalse free => exact absurd used free

theorem fresh_not_mem {taken : List Name} {name : Nat → Name}
    (distinct : ∀ m n, name m = name n → m = n) : fresh taken name ∉ taken := by
  intro used
  have every := searchFresh_of_taken used
  have nodup : ((List.range (taken.length + 1)).map name).Nodup :=
    List.Nodup.map_on (fun m _ n _ same => distinct m n same) nodup_range
  have inside : (List.range (taken.length + 1)).map name ⊆ taken := by
    intro a member
    obtain ⟨i, bound, rfl⟩ := mem_map.mp member
    have ranged := mem_range.mp bound
    simpa using every i (by omega)
  have short := (nodup.subperm inside).length_le
  simp at short

private theorem searchFresh_index (taken : List Name) (name : Nat → Name) (fuel start : Nat) :
    ∃ i, searchFresh taken name fuel start = name i := by
  induction fuel generalizing start with
  | zero => exact ⟨start, rfl⟩
  | succ fuel ih =>
    simp only [searchFresh]
    split
    · exact ih (start + 1)
    · exact ⟨start, rfl⟩

theorem fresh_index (taken : List Name) (name : Nat → Name) : ∃ i, fresh taken name = name i :=
  searchFresh_index taken name taken.length 0

end

/-- `base`, then `base-1`, `base-2` and so on. -/
def suffixed (base : String) : Nat → String
  | 0 => base
  | n + 1 => base ++ "-" ++ toString (n + 1)

theorem suffixed_injective (base : String) (m n : Nat)
    (same : suffixed base m = suffixed base n) : m = n := by
  have length_zero : ∀ k : Nat, base ≠ base ++ "-" ++ toString (k + 1) := by
    intro k equal
    have lengths := congrArg String.length equal
    simp only [String.length_append] at lengths
    have dash : "-".length = 1 := rfl
    omega
  cases m with
  | zero =>
    cases n with
    | zero => rfl
    | succ n => exact absurd same (length_zero n)
  | succ m =>
    cases n with
    | zero => exact absurd same.symm (length_zero m)
    | succ n => exact numeral_injective (append_right_injective same)

theorem append_cons_inj_first {α : Type} {sep : α} {front front' rest rest' : List α} (clean : sep ∉ front)
    (clean' : sep ∉ front') (same : front ++ sep :: rest = front' ++ sep :: rest') :
    front = front' ∧ rest = rest' := by
  induction front generalizing front' with
  | nil =>
    cases front' with
    | nil => exact ⟨rfl, (List.cons.inj same).2⟩
    | cons c front' =>
      rw [(List.cons.inj same).1] at clean'
      exact absurd mem_cons_self clean'
  | cons c front ih =>
    cases front' with
    | nil =>
      rw [← (List.cons.inj same).1] at clean
      exact absurd mem_cons_self clean
    | cons c' front' =>
      obtain ⟨rfl, tail⟩ := List.cons.inj same
      obtain ⟨rfl, rfl⟩ := ih (fun member => clean (mem_cons_of_mem _ member))
        (fun member => clean' (mem_cons_of_mem _ member)) tail
      exact ⟨rfl, rfl⟩

theorem append_cons_inj_last {α : Type} {sep : α} {front front' rest rest' : List α} (clean : sep ∉ rest)
    (clean' : sep ∉ rest') (same : front ++ sep :: rest = front' ++ sep :: rest') :
    front = front' ∧ rest = rest' := by
  have turned : rest.reverse ++ sep :: front.reverse = rest'.reverse ++ sep :: front'.reverse := by
    simpa using congrArg List.reverse same
  obtain ⟨back, lead⟩ := append_cons_inj_first (by simpa using clean) (by simpa using clean') turned
  exact ⟨reverse_injective lead, reverse_injective back⟩

/-- A piece holds characters of the text that do not separate. -/
theorem mem_splitList {sep : Char → Bool} {chars piece : List Char} (listed : piece ∈ splitList sep chars)
    {c : Char} (member : c ∈ piece) : c ∈ chars ∧ sep c = false := by
  induction chars generalizing piece with
  | nil =>
    rw [mem_singleton.mp listed] at member
    cases member
  | cons d rest ih =>
    rw [splitList] at listed
    split at listed
    · rcases mem_cons.mp listed with rfl | later
      · cases member
      · exact (ih later member).imp_left (mem_cons_of_mem _)
    · rename_i other
      have here : sep d = false := by simpa using other
      cases pieces : splitList sep rest with
      | nil =>
        rw [pieces] at listed
        rw [mem_singleton.mp listed, mem_singleton] at member
        subst member
        exact ⟨mem_cons_self .., here⟩
      | cons first more =>
        rw [pieces] at listed
        rcases mem_cons.mp listed with rfl | later
        · rcases mem_cons.mp member with rfl | inside
          · exact ⟨mem_cons_self .., here⟩
          · exact (ih (pieces ▸ mem_cons_self ..) inside).imp_left (mem_cons_of_mem _)
        · exact (ih (pieces ▸ mem_cons_of_mem _ later) member).imp_left (mem_cons_of_mem _)

theorem mem_split {sep : Char → Bool} {text piece : String} (listed : piece ∈ split sep text) {c : Char}
    (member : c ∈ piece.toList) : c ∈ text.toList ∧ sep c = false := by
  obtain ⟨chars, split, rfl⟩ := mem_map.mp listed
  exact mem_splitList split (by simpa using member)

/-- Neighbours that do not separate stand in one piece. -/
theorem splitList_infix {sep : Char → Bool} {chars : List Char} {a b : Char} (inside : [a, b] <:+: chars)
    (first : sep a = false) (second : sep b = false) : ∃ piece ∈ splitList sep chars, [a, b] <:+: piece := by
  obtain ⟨front, back, rfl⟩ := inside
  induction front with
  | nil =>
    cases pieces : splitList sep back with
    | nil => exact ⟨[a, b], by simp [splitList, first, second, pieces], infix_rfl⟩
    | cons piece more =>
      exact ⟨a :: b :: piece, by simp [splitList, first, second, pieces], [], piece, rfl⟩
  | cons c front ih =>
    obtain ⟨piece, listed, within⟩ := ih
    rw [cons_append, cons_append, splitList]
    split
    · exact ⟨piece, mem_cons_of_mem _ listed, within⟩
    · cases pieces : splitList sep (front ++ [a, b] ++ back) with
      | nil =>
        rw [pieces] at listed
        cases listed
      | cons head more =>
        rw [pieces] at listed
        rcases mem_cons.mp listed with rfl | later
        · exact ⟨c :: piece, mem_cons_self .., within.trans (suffix_cons c piece).isInfix⟩
        · exact ⟨piece, mem_cons_of_mem _ later, within⟩

end Library.Text
