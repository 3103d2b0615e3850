import Mathlib.Algebra.Order.BigOperators.Group.List
import Mathlib.Algebra.Ring.Int.Defs
import Mathlib.Data.List.Nodup

/-! Totals of a weight over the selected elements of a list, and how one edit changes them. -/

set_option autoImplicit false
namespace Library
open List

section
variable {α : Type}

/-- Total `weight` of the elements of `items` that `select` picks. -/
def tally (weight : α → Int) (select : α → Bool) (items : List α) : Int :=
  ((items.filter select).map weight).sum

variable (weight : α → Int) (select other : α → Bool)

@[simp] theorem tally_nil : tally weight select [] = 0 := rfl

@[simp] theorem tally_cons (a : α) (rest : List α) :
    tally weight select (a :: rest) =
      (if select a then weight a else 0) + tally weight select rest := by
  cases picked : select a <;> simp [tally, picked]

theorem tally_unit (items : List α) :
    tally (fun _ => 1) select items = (items.filter select).length := by
  simp [tally]

@[simp] theorem tally_append (as bs : List α) :
    tally weight select (as ++ bs) = tally weight select as + tally weight select bs := by
  induction as with
  | nil => simp
  | cons a rest ih => simp only [cons_append, tally_cons, ih]; omega

theorem tally_congr {as : List α} (same : ∀ a ∈ as, select a = other a) :
    tally weight select as = tally weight other as := by
  induction as with
  | nil => rfl
  | cons a rest ih =>
    simp only [tally_cons, same a (mem_cons_self ..),
      ih fun b member => same b (mem_cons_of_mem a member)]

theorem tally_nonneg {as : List α} (nonneg : ∀ a ∈ as, 0 ≤ weight a) :
    0 ≤ tally weight select as := by
  induction as with
  | nil => simp
  | cons a rest ih =>
    have head := nonneg a (mem_cons_self ..)
    have tail := ih fun b member => nonneg b (mem_cons_of_mem a member)
    simp only [tally_cons]
    split <;> omega

theorem tally_unit_zero {as : List α} (zero : tally (fun _ => 1) select as = 0) :
    ∀ a ∈ as, select a = false := by
  induction as with
  | nil => simp
  | cons a rest ih =>
    have tail := @tally_nonneg α (fun _ => 1) select rest fun _ _ => by omega
    simp only [tally_cons] at zero
    intro b member
    cases picked : select a with
    | true => simp only [picked, if_true] at zero; omega
    | false =>
      rcases mem_cons.mp member with rfl | member
      · exact picked
      · exact ih (by simpa [picked] using zero) b member

theorem tally_le_of_imp {as : List α} (nonneg : ∀ a ∈ as, 0 ≤ weight a)
    (imp : ∀ a ∈ as, select a = true → other a = true) :
    tally weight select as ≤ tally weight other as := by
  induction as with
  | nil => simp
  | cons a rest ih =>
    have head := nonneg a (mem_cons_self ..)
    have tail := ih (fun b member => nonneg b (mem_cons_of_mem a member))
      fun b member => imp b (mem_cons_of_mem a member)
    have first := imp a (mem_cons_self ..)
    simp only [tally_cons]
    cases picked : select a with
    | true => rw [if_pos rfl, if_pos (first picked)]; omega
    | false =>
      simp only [Bool.false_eq_true, if_false]
      split <;> omega

end

section
variable {α κ : Type} [DecidableEq κ] (key : α → κ)

def rewriteKey (k : κ) (edit : α → α) (as : List α) : List α :=
  as.map fun a => if key a = k then edit a else a

def eraseKey (k : κ) (as : List α) : List α := as.filter fun a => decide (key a ≠ k)

variable {key}

theorem rewriteKey_of_absent {k : κ} (edit : α → α) {as : List α}
    (absent : ∀ a ∈ as, key a ≠ k) : rewriteKey key k edit as = as := by
  induction as with
  | nil => rfl
  | cons a rest ih =>
    have tail := ih fun b member => absent b (mem_cons_of_mem a member)
    simp only [rewriteKey, map_cons, absent a (mem_cons_self ..), if_false] at tail ⊢
    rw [tail]

theorem eraseKey_of_absent {k : κ} {as : List α} (absent : ∀ a ∈ as, key a ≠ k) :
    eraseKey key k as = as :=
  filter_eq_self.mpr fun a member => decide_eq_true (absent a member)

omit [DecidableEq κ] in
theorem split_at_key {as : List α} (distinct : (as.map key).Nodup) {a : α} (member : a ∈ as) :
    ∃ before after, as = before ++ a :: after ∧
      (∀ b ∈ before, key b ≠ key a) ∧ ∀ b ∈ after, key b ≠ key a := by
  obtain ⟨before, after, rfl⟩ := append_of_mem member
  rw [map_append, map_cons, nodup_append] at distinct
  obtain ⟨-, tail, apart⟩ := distinct
  refine ⟨before, after, rfl, fun b inside => ?_, fun b inside same => ?_⟩
  · exact apart _ (mem_map_of_mem inside) _ (mem_cons_self ..)
  · exact (nodup_cons.mp tail).1 (same ▸ mem_map_of_mem inside)

theorem tally_rewriteKey {as : List α} (distinct : (as.map key).Nodup) {a : α} (member : a ∈ as)
    (edit : α → α) (weight : α → Int) (select : α → Bool) :
    tally weight select (rewriteKey key (key a) edit as) =
      tally weight select as - (if select a then weight a else 0) +
        (if select (edit a) then weight (edit a) else 0) := by
  obtain ⟨before, after, rfl, first, last⟩ := split_at_key distinct member
  have front := rewriteKey_of_absent edit first
  have back := rewriteKey_of_absent edit last
  simp only [rewriteKey] at front back
  simp only [rewriteKey, map_append, map_cons, front, back, if_true, tally_append,
    tally_cons]
  omega

theorem tally_eraseKey {as : List α} (distinct : (as.map key).Nodup) {a : α} (member : a ∈ as)
    (weight : α → Int) (select : α → Bool) :
    tally weight select (eraseKey key (key a) as) =
      tally weight select as - (if select a then weight a else 0) := by
  obtain ⟨before, after, rfl, first, last⟩ := split_at_key distinct member
  have front := eraseKey_of_absent first
  have back := eraseKey_of_absent last
  simp only [eraseKey] at front back
  simp only [eraseKey, filter_append, filter_cons, front, back, ne_eq, not_true_eq_false,
    decide_false, Bool.false_eq_true, if_false, tally_append, tally_cons]
  omega

theorem tally_rewriteKey_same {k : κ} (edit : α → α) {weight : α → Int} {select : α → Bool}
    (weights : ∀ a, weight (edit a) = weight a) (selects : ∀ a, select (edit a) = select a)
    (as : List α) : tally weight select (rewriteKey key k edit as) = tally weight select as := by
  induction as with
  | nil => rfl
  | cons a rest ih =>
    simp only [rewriteKey, map_cons, tally_cons] at ih ⊢
    rw [ih]
    split <;> simp only [weights, selects]

theorem rewriteKey_map {β : Type} {f : α → β} {k : κ} (edit : α → α)
    (keeps : ∀ a, f (edit a) = f a) (as : List α) :
    (rewriteKey key k edit as).map f = as.map f := by
  simp only [rewriteKey, map_map]
  refine map_congr_left fun a _ => ?_
  simp only [Function.comp]
  split
  · exact keeps a
  · rfl

theorem eraseKey_sublist (k : κ) (as : List α) :
    ((eraseKey key k as).map key).Sublist (as.map key) :=
  filter_sublist.map key

end

structure Label (α κ : Type) where
  key : α → κ
  write : κ → α → α
  key_write : ∀ k a, key (write k a) = k

section
variable {α κ : Type} [DecidableEq κ]

def Label.relabel (label : Label α κ) (old new : κ) (a : α) : α :=
  if label.key a = old then label.write new a else a

variable {label : Label α κ} {old new : κ}

theorem tally_map (weight : α → Int) (select : α → Bool) (f : α → α) (as : List α) :
    tally weight select (as.map f) = tally (fun a => weight (f a)) (fun a => select (f a)) as := by
  induction as with
  | nil => rfl
  | cons a rest ih => rw [map_cons, tally_cons, tally_cons, ih]

namespace Label

section
variable (label : Label α κ)

theorem filter_relabel_old (differ : old ≠ new) (as : List α) :
    (as.map (label.relabel old new)).filter (fun a => decide (label.key a = old)) = [] := by
  induction as with
  | nil => rfl
  | cons a rest ih =>
    rw [map_cons, filter_cons, ih]
    by_cases here : label.key a = old
    · simp [relabel, here, label.key_write, Ne.symm differ]
    · simp [relabel, here]

theorem filter_relabel_other {other : κ} (apart : other ≠ old) (elsewhere : other ≠ new) (as : List α) :
    (as.map (label.relabel old new)).filter (fun a => decide (label.key a = other)) =
      as.filter fun a => decide (label.key a = other) := by
  induction as with
  | nil => rfl
  | cons a rest ih =>
    rw [map_cons, filter_cons, filter_cons, ih]
    by_cases here : label.key a = old
    · simp [relabel, here, label.key_write, Ne.symm apart, Ne.symm elsewhere]
    · simp [relabel, here]

theorem filter_relabel_new {as : List α} (unused : ∀ a ∈ as, label.key a ≠ new) :
    (as.map (label.relabel old new)).filter (fun a => decide (label.key a = new)) =
      (as.filter fun a => decide (label.key a = old)).map (label.write new) := by
  induction as with
  | nil => rfl
  | cons a rest ih =>
    rw [map_cons, filter_cons, filter_cons,
      ih fun b member => unused b (mem_cons_of_mem a member)]
    by_cases here : label.key a = old
    · simp [relabel, here, label.key_write]
    · simp [relabel, here, unused a (mem_cons_self ..)]

theorem length_filter_relabel (differ : old ≠ new) (as : List α) :
    ((as.map (label.relabel old new)).filter fun a => decide (label.key a = new)).length =
      (as.filter fun a => decide (label.key a = old)).length +
        (as.filter fun a => decide (label.key a = new)).length := by
  induction as with
  | nil => rfl
  | cons a =>
    rw [map_cons, filter_cons, filter_cons, filter_cons]
    by_cases here : label.key a = old
    · simp only [relabel, here, label.key_write, differ, if_true, decide_true, decide_false,
        length_cons, Bool.false_eq_true, if_false]
      omega
    · by_cases there : label.key a = new
      · have apart : new ≠ old := fun same => here (there.trans same)
        simp only [relabel, there, apart, if_true, if_false, decide_true, decide_false,
          length_cons, Bool.false_eq_true]
        omega
      · simp only [relabel, here, there, if_false, decide_false, Bool.false_eq_true]
        omega

end

end Label

omit [DecidableEq κ] in
theorem nodup_of_finer {β : Type} {coarse : α → κ} {fine : α → β} {as : List α}
    (distinct : (as.map coarse).Nodup)
    (finer : ∀ a ∈ as, ∀ b ∈ as, fine a = fine b → coarse a = coarse b) : (as.map fine).Nodup :=
  List.Nodup.map_on (fun a inside b there same =>
    inj_on_of_nodup_map distinct inside there (finer a inside b there same)) (.of_map coarse distinct)

end

end Library
