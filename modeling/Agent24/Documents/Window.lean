import Agent24.Json
import Mathlib.Data.List.Range
import Mathlib.Algebra.Ring.Nat

/-! Windows of a text layer and batches of fields: what one model call reads and answers. -/

set_option autoImplicit false
namespace Agent24.Documents
open List

structure Block where
  blockId : String
  page : Nat
  text : String

/-- A window: indices into the layer's blocks, in reading order. -/
abbrev Window := List Nat

def BUDGET : Nat := 24 * 1024

def BATCH : Nat := 20

def blockJson (block : Block) : Json :=
  .obj [("block_id", .str block.blockId), ("page", .int block.page), ("text", .str block.text)]

def cost (block : Block) : Nat := (blockJson block).render.utf8ByteSize + 1

def halves (window : Window) : Option (Window × Window) :=
  if 1 < window.length then some (window.splitAt (window.length / 2)) else none

/-- The fields in runs of at most `size`, in order. -/
def chunks {α : Type} (size : Nat) : List α → List (List α)
  | [] => []
  | field :: rest => (field :: rest.take (size - 1)) :: chunks size (rest.drop (size - 1))
termination_by fields => fields.length
decreasing_by simp only [length_drop, length_cons]; omega

/-- Fields in batches of at most `size`, in order. -/
def batches {α : Type} (fields : List α) (size : Nat) : List (List α) := chunks (max size 1) fields

section
variable (pageOf size : Nat → Nat) (budget : Nat)

def total (blocks : List Nat) : Nat := (blocks.map size).sum

/-- Whole pages, in order; `page` is the one being read. -/
def wholePages (page : List Nat) : List Nat → List (List Nat)
  | [] => if page.isEmpty then [] else [page]
  | i :: rest =>
    match page with
    | [] => wholePages [i] rest
    | first :: _ =>
      if pageOf first = pageOf i then wholePages (page ++ [i]) rest else page :: wholePages [i] rest

def cutPage (part : List Nat) : List Nat → List (List Nat)
  | [] => [part]
  | i :: rest =>
    if ¬ part.isEmpty ∧ budget < total size part + size i then part :: cutPage [i] rest
    else cutPage (part ++ [i]) rest

def pageParts (all : List Nat) : List (List Nat) :=
  (wholePages pageOf [] all).flatMap fun page =>
    if total size page ≤ budget then [page] else cutPage size budget [] page

/-- A window takes at least one part, and then as many as fit. -/
def fill (blocks : List Nat) : List (List Nat) → List Nat × List (List Nat)
  | [] => (blocks, [])
  | part :: rest =>
    if blocks.isEmpty ∨ total size blocks + total size part ≤ budget then fill (blocks ++ part) rest
    else (blocks, part :: rest)

def endOf (page : Nat) : Nat → Nat → List Nat
  | _, 0 => []
  | room, i + 1 => if pageOf i = page ∧ size i ≤ room then endOf page (room - size i) i ++ [i] else []

def carry (first : Nat) (blocks : List Nat) : List Nat :=
  match blocks with
  | [] => []
  | 0 :: _ => []
  | (i + 1) :: _ =>
    if 0 < first ∧ pageOf i ≠ pageOf (i + 1) then
      endOf pageOf size (pageOf i) (budget - total size blocks) (i + 1)
    else []

theorem fill_length (blocks : List Nat) (parts : List (List Nat)) :
    (fill size budget blocks parts).2.length ≤ parts.length := by
  induction parts generalizing blocks with
  | nil => simp [fill]
  | cons part rest ih =>
    rw [fill]
    split
    · exact (ih _).trans (Nat.le_succ _)
    · exact le_rfl

theorem fill_moves (part : List Nat) (rest : List (List Nat)) :
    (fill size budget [] (part :: rest)).2.length < (part :: rest).length := by
  rw [fill, if_pos (.inl rfl), length_cons]
  exact Nat.lt_succ_of_le (fill_length ..)

/-- The windows as planned: what each carries, and what it is the first to read. -/
def planFrom (first : Nat) : List (List Nat) → List (List Nat × List Nat)
  | [] => []
  | part :: rest =>
    let filled := fill size budget [] (part :: rest)
    (carry pageOf size budget first filled.1, filled.1) ::
      planFrom (first + ((part :: rest).length - filled.2.length)) filled.2
termination_by parts => parts.length
decreasing_by exact fill_moves ..

def plan (count : Nat) : List (List Nat × List Nat) :=
  let all := List.range count
  if total size all ≤ budget then [([], all)]
  else planFrom pageOf size budget 0 (pageParts pageOf size budget all)

end

/-- The windows of a layer within `budget` bytes each. -/
def windows (layer : List Block) (budget : Nat) : List Window :=
  let pageOf := fun i => (layer.map Block.page).getD i 0
  let size := fun i => (layer.map cost).getD i 0
  (plan pageOf size budget layer.length).map fun window => window.1 ++ window.2

theorem halves_spec {window a b : Window} (cut : halves window = some (a, b)) :
    a ++ b = window ∧ a ≠ [] ∧ b ≠ [] := by
  unfold halves at cut
  split at cut
  · rename_i long
    rw [splitAt_eq, Option.some.injEq, Prod.mk.injEq] at cut
    obtain ⟨rfl, rfl⟩ := cut
    refine ⟨take_append_drop .., ?_, ?_⟩
    · rw [ne_eq, take_eq_nil_iff]
      rintro (none | none)
      · omega
      · simp [none] at long
    · rw [ne_eq, drop_eq_nil_iff]
      omega
  · cases cut

theorem halves_length {window a b : Window} (cut : halves window = some (a, b)) :
    a.length + b.length = window.length ∧ 0 < a.length ∧ 0 < b.length := by
  obtain ⟨rfl, some_, some'⟩ := halves_spec cut
  exact ⟨(length_append ..).symm, length_pos_iff.mpr some_, length_pos_iff.mpr some'⟩

theorem flatten_chunks {α : Type} (size : Nat) (fields : List α) : (chunks size fields).flatten = fields := by
  induction fields using chunks.induct size with
  | case1 => simp [chunks]
  | case2 field rest ih => rw [chunks, flatten_cons, ih, cons_append, take_append_drop]

theorem flatten_batches {α : Type} (fields : List α) (size : Nat) : (batches fields size).flatten = fields :=
  flatten_chunks ..

section
variable {pageOf size : Nat → Nat} {budget : Nat}

theorem flatten_wholePages (page rest : List Nat) :
    (wholePages pageOf page rest).flatten = page ++ rest := by
  induction rest generalizing page with
  | nil =>
    cases page with
    | nil => rfl
    | cons first more => simp [wholePages]
  | cons i rest ih =>
    cases page with
    | nil => rw [wholePages, ih, singleton_append, nil_append]
    | cons first more =>
      simp only [wholePages]
      split
      · rw [ih, append_assoc, singleton_append]
      · rw [flatten_cons, ih, singleton_append]

theorem flatten_cutPage (part rest : List Nat) : (cutPage size budget part rest).flatten = part ++ rest := by
  induction rest generalizing part with
  | nil => simp [cutPage]
  | cons i rest ih =>
    simp only [cutPage]
    split
    · rw [flatten_cons, ih, singleton_append]
    · rw [ih, append_assoc, singleton_append]

theorem flatten_pageParts (all : List Nat) : (pageParts pageOf size budget all).flatten = all := by
  have same : ∀ pages : List (List Nat), (pages.flatMap fun page =>
      if total size page ≤ budget then [page] else cutPage size budget [] page).flatten = pages.flatten := by
    intro pages
    induction pages with
    | nil => rfl
    | cons page rest ih =>
      rw [flatMap_cons, flatten_append, ih, flatten_cons]
      congr 1
      split
      · simp
      · rw [flatten_cutPage, nil_append]
  rw [pageParts, same, flatten_wholePages, nil_append]

theorem fill_flatten (blocks : List Nat) (parts : List (List Nat)) :
    (fill size budget blocks parts).1 ++ (fill size budget blocks parts).2.flatten = blocks ++ parts.flatten := by
  induction parts generalizing blocks with
  | nil => simp [fill]
  | cons part rest ih =>
    rw [fill]
    split
    · rw [ih, append_assoc, flatten_cons]
    · rfl

theorem planFrom_fresh (first : Nat) (parts : List (List Nat)) :
    ((planFrom pageOf size budget first parts).map Prod.snd).flatten = parts.flatten := by
  induction first, parts using planFrom.induct size budget with
  | case1 => simp [planFrom]
  | case2 first part rest filled ih =>
    rw [planFrom, map_cons, flatten_cons, ih]
    exact fill_flatten [] (part :: rest)

theorem plan_fresh (count : Nat) :
    ((plan pageOf size budget count).map Prod.snd).flatten = List.range count := by
  simp only [plan]
  split
  · simp
  · rw [planFrom_fresh, flatten_pageParts]

/-- The blocks of one page that stand right before a block. -/
structure EndsAt (pageOf : Nat → Nat) (start : Nat) (carried : List Nat) : Prop where
  range : ∃ from_, carried = List.range' from_ carried.length ∧ from_ + carried.length = start
  page : ∃ page, ∀ i ∈ carried, pageOf i = page

variable (pageOf size) in
theorem endOf_endsAt (page room start : Nat) :
    (∃ from_, endOf pageOf size page room start = List.range' from_ (endOf pageOf size page room start).length ∧
      from_ + (endOf pageOf size page room start).length = start) ∧
    ∀ i ∈ endOf pageOf size page room start, pageOf i = page := by
  induction start generalizing room with
  | zero => simp [endOf]
  | succ i ih =>
    rw [endOf]
    split
    · rename_i here
      obtain ⟨⟨from_, range, at_⟩, same⟩ := ih (room - size i)
      refine ⟨⟨from_, ?_, ?_⟩, ?_⟩
      · rw [length_append, length_singleton, List.range'_concat, ← range, Nat.one_mul, at_]
      · rw [length_append, length_singleton, ← Nat.add_assoc, at_]
      · intro j member
        rcases mem_append.mp member with before | last
        · exact same j before
        · rw [mem_singleton.mp last]
          exact here.1
    · exact ⟨⟨i + 1, rfl, rfl⟩, fun j member => absurd member not_mem_nil⟩

theorem carry_endsAt (first start : Nat) (rest : List Nat) :
    EndsAt pageOf start (carry pageOf size budget first (start :: rest)) := by
  have nothing : EndsAt pageOf start [] :=
    ⟨⟨start, rfl, rfl⟩, 0, fun i member => absurd member not_mem_nil⟩
  cases start with
  | zero => exact nothing
  | succ i =>
    simp only [carry]
    split
    · obtain ⟨range, page⟩ := endOf_endsAt pageOf size (pageOf i)
        (budget - total size ((i + 1) :: rest)) (i + 1)
      exact ⟨range, _, page⟩
    · exact nothing

theorem planFrom_carried (first : Nat) (parts : List (List Nat)) {carried fresh : List Nat}
    (member : (carried, fresh) ∈ planFrom pageOf size budget first parts) :
    ∃ first, carried = carry pageOf size budget first fresh := by
  induction first, parts using planFrom.induct size budget with
  | case1 => simp [planFrom] at member
  | case2 first part rest filled ih =>
    rw [planFrom] at member
    rcases mem_cons.mp member with same | next
    · cases same
      exact ⟨first, rfl⟩
    · exact ih next

theorem plan_carried {count start : Nat} {carried fresh : List Nat}
    (member : (carried, start :: fresh) ∈ plan pageOf size budget count) : EndsAt pageOf start carried := by
  have nothing : EndsAt pageOf start [] :=
    ⟨⟨start, rfl, rfl⟩, 0, fun i inside => absurd inside not_mem_nil⟩
  simp only [plan] at member
  split at member
  · obtain ⟨rfl, -⟩ := Prod.mk.inj (mem_singleton.mp member)
    exact nothing
  · obtain ⟨first, rfl⟩ := planFrom_carried 0 _ member
    exact carry_endsAt ..

end
end Agent24.Documents
