import Agent24.Library.Bitset
import Agent24.Library.Offsets
import Agent24.Platform
import Mathlib.Computability.NFA

/-! `find`'s matching, in time linear in the text: an automaton with self-loops, run bit-parallel, forwards to find where
a match ends and then backwards from there to find where it starts. -/

set_option autoImplicit false
namespace Agent24.Documents
open Library Library.Bitset

inductive Item where
  | char (c : Char)
  | space
  deriving DecidableEq

def Item.isChar : Item → Bool
  | .char _ => true
  | .space => false

/-- `to_ascii_lowercase`. -/
def fold (c : Char) : Char := c.toLower

/-- A compiled query: for each state (so many items matched), what moves it on to the next one and what keeps it. -/
structure Query where
  items : Nat
  words : Nat
  takes : Char → Option (List Word)
  space : List Word
  /-- States that a further whitespace keeps: the last item was a run. -/
  spaceLoop : List Word
  /-- States that a line break keeps: between two characters. -/
  breakLoop : List Word

namespace Query

def pushItem (out : List Item) (c : Char) : List Item :=
  if isWhitespace c then
    if out.getLast? = some .space then out else out ++ [.space]
  else out ++ [.char (fold c)]

/-- A query's items: its characters, and its runs of whitespace. -/
def itemsOf (chars : List Char) : List Item := chars.foldl pushItem []

def addItem (items : List Item) (q : Query) (entry : Item × Nat) : Query :=
  let k := entry.2
  let q := match entry.1 with
    | .char c =>
      let taken := set ((q.takes c).getD (List.replicate q.words 0)) k
      { q with takes := fun x => if x = c then some taken else q.takes x }
    | .space => { q with space := set q.space k, spaceLoop := set q.spaceLoop (k + 1) }
  if 0 < k ∧ entry.1.isChar ∧ (items[k - 1]?).any Item.isChar then { q with breakLoop := set q.breakLoop k } else q

/-- `(items + 1).div_ceil(64)`. -/
def wordsFor (items : Nat) : Nat := (items + 1 + 63) / 64

def blank (items : Nat) : Query :=
  let zeros := List.replicate (wordsFor items) 0
  ⟨items, wordsFor items, fun _ => none, zeros, zeros, zeros⟩

def of (items : List Item) : Option Query :=
  if items.any Item.isChar then some (items.zipIdx.foldl (addItem items) (blank items.length)) else none

def new (query : String) : Option Query := of (itemsOf query.toList)

def reversed (query : String) : Option Query := of (itemsOf query.toList.reverse)

variable (q : Query)

def moves (c : Char) (w : Nat) : Word :=
  ((q.takes (fold c)).elim 0 fun taken => taken.getD w 0) ||| (if isWhitespace c then q.space.getD w 0 else 0)

def keeps (c : Char) (w : Nat) : Word :=
  (if isWhitespace c then q.spaceLoop.getD w 0 else 0) ||| (if c = '\n' then q.breakLoop.getD w 0 else 0)

/-- One step on a character: the live states become their successors. -/
def step (d : List Word) (c : Char) : List Word := shift (q.moves c) (q.keeps c) 0 0 d

def none_ : List Word := List.replicate q.words 0

/-- Backwards over a text; the earliest place where all items were matched. -/
def startFrom (d : List Word) (earliest : Option Nat) : List (Nat × Char) → Option Nat
  | [] => earliest
  | (i, c) :: rest =>
    let d := q.step d c
    let earliest := if get d q.items then some i else earliest
    if d.all (· == 0) then earliest else startFrom d earliest rest

/-- The earliest start of a match ending exactly at the end of a text. -/
def start (text : List Char) : Option Nat :=
  q.startFrom (set q.none_ 0) none (Offsets.indices 0 text).reverse

def findFrom (back : Query) (text : List Char) (from_ : Nat) (d : List Word) : List (Nat × Char) → List (Nat × Nat)
  | [] => []
  | (i, c) :: rest =>
    if i < from_ then findFrom back text from_ d rest
    else
      -- A match may start at any character from `from_` on.
      let d := q.step (set d 0) c
      if get d q.items then
        let stop := i + c.utf8Size
        let start := ((back.start (Offsets.slice text from_ stop)).map (from_ + ·)).getD from_
        (start, stop) :: findFrom back text stop q.none_ rest
      else findFrom back text from_ d rest

/-- Byte ranges of the matches in a text, left to right, not overlapping: each the first to end, from its earliest
start. -/
def find (query text : String) : List (Nat × Nat) :=
  match reversed query with
  | none => []
  | some back => q.findFrom back text.toList 0 q.none_ (Offsets.indices 0 text.toList)

end Query

def Item.takes (c : Char) : Item → Prop
  | .char x => fold c = x
  | .space => isWhitespace c = true

def Matches : List Item → List Char → Prop
  | [], text => text = []
  | .space :: rest, text => ∃ run more, text = run ++ more ∧ run ≠ [] ∧ (∀ c ∈ run, isWhitespace c = true) ∧ Matches rest more
  | .char x :: rest, text => ∃ c breaks more, text = c :: (breaks ++ more) ∧ fold c = x ∧ (∀ b ∈ breaks, b = '\n') ∧
      (breaks ≠ [] → ∃ y later, rest = .char y :: later) ∧ Matches rest more

def MatchesQuery (query : String) (text : List Char) : Prop := Matches (Query.itemsOf query.toList) text

inductive Reference (items : List Item) : Nat → List Char → List (Nat × Nat) → Prop where
  | nothing {from_ : Nat} {text : List Char} (none_ : ∀ a b c, text = a ++ (b ++ c) → ¬ Matches items b) :
      Reference items from_ text []
  | found {from_ : Nat} {before matched after : List Char} {ranges : List (Nat × Nat)} (here : Matches items matched)
      (first : ∀ a b c, before ++ (matched ++ after) = a ++ (b ++ c) → Matches items b →
        (before ++ matched).length ≤ (a ++ b).length)
      (earliest : ∀ a b, before ++ matched = a ++ b → Matches items b → before.length ≤ a.length)
      (rest : Reference items (from_ + Offsets.size (before ++ matched)) after ranges) :
      Reference items from_ (before ++ (matched ++ after))
        ((from_ + Offsets.size before, from_ + Offsets.size (before ++ matched)) :: ranges)

end Agent24.Documents
