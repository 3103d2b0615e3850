import Agent24.Documents.Window

/-! The plan of the windows: what each one carries and reads, and that it keeps to the budget. -/

set_option autoImplicit false
namespace Agent24.Documents
open List

section
variable {pageOf size : Nat → Nat} {budget : Nat}

def Fits (size : Nat → Nat) (budget : Nat) (blocks : List Nat) : Prop :=
  total size blocks ≤ budget ∨ ∃ i, blocks = [i] ∧ budget < size i

@[simp] theorem total_nil : total size [] = 0 := rfl

@[simp] theorem total_singleton (i : Nat) : total size [i] = size i := by simp [total]

@[simp] theorem total_append (front back : List Nat) : total size
    (front ++ back) = total size front + total size back := by
  simp [total]

theorem fits_singleton (i : Nat) : Fits size budget [i] := by
  exact (Nat.lt_or_ge budget (size i)).symm.imp_right fun over_ => ⟨i, rfl, over_⟩

variable {rest part : List Nat} {start : Nat}

theorem wholePages_some {page : List Nat} (member : part ∈ wholePages pageOf page rest) : part ≠ [] := by
  induction rest generalizing page with
  | nil =>
    rw [wholePages] at member
    split at member
    · cases member
    rename_i some_
    rw [mem_singleton.mp member]
    simpa using some_
  | cons i rest ih =>
    cases page with
    | nil => exact ih member
    | cons first more =>
      simp only [wholePages] at member
      split at member
      · exact ih member
      rcases mem_cons.mp member with rfl | later
      · exact cons_ne_nil first more
      · exact ih later

theorem cutPage_fits {parts : List Nat} (some_ : part ≠ [] ∨ rest ≠ []) (fits : Fits size budget part)
    (member : parts ∈ cutPage size budget part rest) : parts ≠ [] ∧ Fits size budget parts := by
  induction rest generalizing part with
  | nil =>
    rw [mem_singleton.mp member]
    exact ⟨some_.resolve_right fun none_ => none_ rfl, fits⟩
  | cons i rest ih =>
    rw [cutPage] at member
    split at member
    · rename_i full
      rcases mem_cons.mp member with rfl | later
      · exact ⟨by simpa using full.1, fits⟩
      · exact ih (.inl (cons_ne_nil i [])) (fits_singleton i) later
    · rename_i room
      refine ih (.inl (append_ne_nil_of_right_ne_nil part (cons_ne_nil i []))) ?_ member
      by_cases empty : part = []
      · rw [empty]
        exact fits_singleton i
      left
      rw [total_append, total_singleton]
      simp only [List.isEmpty_iff, empty, not_false_eq_true, true_and] at room
      omega

theorem pageParts_fits {all : List Nat} (member : part ∈ pageParts pageOf size budget all) :
    part ≠ [] ∧ Fits size budget part := by
  obtain ⟨page, inside, member⟩ := mem_flatMap.mp member
  have some_ := wholePages_some inside
  split at member
  · rename_i small
    rw [mem_singleton.mp member]
    exact ⟨some_, .inl small⟩
  · exact cutPage_fits (.inr some_) (.inl (Nat.zero_le _)) member

theorem fill_fits {blocks : List Nat} {parts : List (List Nat)} (fits : Fits size budget blocks)
    (each : ∀ part ∈ parts, Fits size budget part) : Fits size budget (fill size budget blocks parts).1 := by
  induction parts generalizing blocks with
  | nil => exact fits
  | cons part rest ih =>
    rw [fill]
    split
    · rename_i room
      refine ih ?_ fun part member => each part (mem_cons_of_mem _ member)
      rcases room with empty | room
      · rw [isEmpty_iff.mp empty]
        exact each part mem_cons_self
      · left
        rwa [total_append]
    · exact fits

variable (size budget) in
theorem fill_prefix (blocks : List Nat) (parts : List (List Nat)) : blocks <+: (fill size budget blocks parts).1 := by
  induction parts generalizing blocks with
  | nil => exact prefix_rfl
  | cons part rest ih =>
    rw [fill]
    split
    · exact (prefix_append ..).trans (ih _)
    · exact prefix_rfl

variable (size budget) in
theorem fill_some (some_ : part ≠ []) (rest : List (List Nat)) :
    (fill size budget [] (part :: rest)).1 ≠ [] := by
  rw [fill, if_pos (.inl rfl), nil_append]
  intro none_
  have lead := fill_prefix size budget part rest
  rw [none_] at lead
  exact some_ (prefix_nil.mp lead)

theorem fill_left {blocks : List Nat} {parts : List (List Nat)}
    (member : part ∈ (fill size budget blocks parts).2) :
    part ∈ parts := by
  induction parts generalizing blocks with
  | nil => exact member
  | cons first rest ih =>
    rw [fill] at member
    split at member
    · exact mem_cons_of_mem _ (ih member)
    · exact member

theorem total_endOf (page room start : Nat) : total size (endOf pageOf size page room start) ≤ room := by
  induction start generalizing room with
  | zero => exact Nat.zero_le _
  | succ i ih =>
    rw [endOf]
    split
    · rename_i here
      have before := ih (room - size i)
      rw [total_append, total_singleton]
      omega
    · exact Nat.zero_le _

structure PlannedWindow (pageOf size : Nat → Nat) (budget : Nat) (carried fresh : List Nat) : Prop where
  contiguous : ∃ from_, carried ++ fresh = List.range' from_ (carried ++ fresh).length
  /-- What is carried ends right before what is read, on the page before. -/
  before : carried ≠ [] → ∃ start page, fresh.head? = some start ∧ pageOf start ≠ page ∧ ∀ i ∈ carried,
      pageOf i = page
  size : total size (carried ++ fresh) ≤ budget ∨ carried = [] ∧ ∃ i, fresh = [i] ∧ budget < size i

theorem eq_nil_of_total {blocks : List Nat} (positive : ∀ i ∈ blocks, 0 < size i) (none_ : total size blocks ≤ 0) :
    blocks = [] := by
  cases blocks with
  | nil => rfl
  | cons i rest =>
    have := positive i mem_cons_self
    rw [← singleton_append, total_append, total_singleton] at none_
    omega

variable (pageOf size budget) in
theorem carry_room (first : Nat) (fresh : List Nat) :
    total size (carry pageOf size budget first fresh) ≤ budget - total size fresh := by
  unfold carry
  split
  · exact Nat.zero_le _
  · exact Nat.zero_le _
  split
  · exact total_endOf ..
  · exact Nat.zero_le _

theorem carry_below {first i : Nat} (member : i ∈ carry pageOf size budget first (start :: rest)) :
    i < start := by
  have ends : EndsAt pageOf start (carry pageOf size budget first (start :: rest)) := carry_endsAt first start rest
  obtain ⟨back, carried, meets⟩ := ends.range
  rw [carried, mem_range'_1] at member
  omega

theorem carry_within (first : Nat) (positive : ∀ i < start, 0 < size i)
    (fits : Fits size budget (start :: rest)) :
    total size (carry pageOf size budget first (start :: rest) ++ start :: rest) ≤ budget ∨
      carry pageOf size budget first (start :: rest) = [] ∧ ∃ i, start :: rest = [i] ∧ budget < size i := by
  have room := carry_room pageOf size budget first (start :: rest)
  rcases fits with small | ⟨i, alone, large⟩
  · left
    rw [total_append]
    omega
  · refine .inr ⟨eq_nil_of_total (fun i member => positive i (carry_below member)) ?_, i, alone, large⟩
    rw [alone, total_singleton] at room
    rw [alone]
    omega

theorem carry_before (first : Nat) (some_ : carry pageOf size budget first (start :: rest) ≠ []) :
    ∃ page, pageOf start ≠ page ∧ ∀ i ∈ carry pageOf size budget first (start :: rest), pageOf i = page := by
  cases start with
  | zero => exact absurd rfl some_
  | succ i =>
    simp only [carry] at some_ ⊢
    split
    · rename_i starts
      exact ⟨pageOf i, Ne.symm starts.2, (endOf_endsAt pageOf size (pageOf i) _ (i + 1)).2⟩
    · rename_i goesOn
      exact absurd (if_neg goesOn) some_

theorem planned_of_fits (first : Nat) (positive : ∀ i < start, 0 < size i)
    (fits : Fits size budget (start :: rest)) (range : start :: rest = List.range' start (start :: rest).length) :
    PlannedWindow pageOf size budget (carry pageOf size budget first (start :: rest)) (start :: rest) := by
  have ends : EndsAt pageOf start (carry pageOf size budget first (start :: rest)) := carry_endsAt first start rest
  obtain ⟨back, carried, meets⟩ := ends.range
  refine ⟨⟨back, ?_⟩, ?_, carry_within first positive fits⟩
  · rw [length_append, ← List.range'_append_1, ← carried, meets, ← range]
  · intro some_
    obtain ⟨page, other, same⟩ := carry_before first some_
    exact ⟨start, page, rfl, other, same⟩

theorem planFrom_planned (first : Nat) {parts : List (List Nat)} {count : Nat}
    (positive : ∀ i < start + count, 0 < size i) (whole : parts.flatten = List.range' start count)
    (each : ∀ part ∈ parts, part ≠ [] ∧ Fits size budget part) {carried fresh : List Nat}
    (member : (carried, fresh) ∈ planFrom pageOf size budget first parts) :
    PlannedWindow pageOf size budget carried fresh := by
  induction first, parts using planFrom.induct size budget generalizing start count with
  | case1 => simp [planFrom] at member
  | case2 first part rest filled =>
    rename_i ih
    have parted : filled.1 ++ filled.2.flatten = List.range' start count :=
        (fill_flatten [] (part :: rest)).trans whole
    obtain ⟨n, short, read, left⟩ := List.range'_eq_append_iff.mp parted.symm
    rw [planFrom] at member
    rcases mem_cons.mp member with same | later
    · cases same
      have starts : filled.1 ≠ [] := fill_some size budget (each part mem_cons_self).1 rest
      have fits : Fits size budget filled.1 := fill_fits (.inl (Nat.zero_le _)) fun part member =>
          (each part member).2
      show PlannedWindow pageOf size budget (carry pageOf size budget first filled.1) filled.1
      rw [read] at starts fits ⊢
      cases n with
      | zero => exact absurd rfl starts
      | succ n =>
        rw [List.range'_succ] at fits ⊢
        exact planned_of_fits first (fun i below => positive i (by omega)) fits (by simp [List.range'_succ])
    · exact ih (fun i below => positive i (by omega)) left (fun part member => each part (fill_left member)) later

end

def pageAt (layer : List Block) (i : Nat) : Nat := (layer.map Block.page).getD i 0

def costAt (layer : List Block) (i : Nat) : Nat := (layer.map cost).getD i 0

structure Planned (layer : List Block) (budget : Nat) (windows : List Window) : Prop where
  parts : ∃ parts : List (List Nat × List Nat), windows = parts.map (fun part => part.1 ++ part.2) ∧
    (parts.map Prod.snd).flatten = List.range layer.length ∧
    ∀ part ∈ parts, PlannedWindow (pageAt layer) (costAt layer) budget part.1 part.2

/-- The windows of a layer partition it, whatever the budget. -/
theorem windows_planned (layer : List Block) (budget : Nat) : Planned layer budget (windows layer budget) := by
  refine ⟨⟨plan (pageAt layer) (costAt layer) budget layer.length, rfl, plan_fresh layer.length, ?_⟩⟩
  intro part member
  unfold plan at member
  simp only at member
  split at member
  · rename_i small
    rw [mem_singleton.mp member]
    refine ⟨⟨0, ?_⟩, fun some_ => absurd rfl some_, .inl small⟩
    rw [nil_append, length_range, range_eq_range']
  · have whole : (pageParts (pageAt layer) (costAt layer) budget (List.range layer.length)).flatten =
        List.range layer.length := flatten_pageParts ..
    rw [range_eq_range'] at whole member
    refine planFrom_planned 0 ?_ whole (fun part inside => pageParts_fits inside) member
    intro i below
    rw [Nat.zero_add] at below
    simp [costAt, below, cost]

end Agent24.Documents
