import Mathlib.Data.List.Nodup
import Mathlib.Data.List.Perm.Subperm

/-! Tables with a primary key. Every statement is described by what it does to a lookup. -/

set_option autoImplicit false
namespace Library
open List

structure Table {α κ : Type} (key : α → κ) where
  rows : List α
  distinct : (rows.map key).Nodup

namespace Table
variable {α κ : Type} [DecidableEq κ] {key : α → κ} {t : Table key} {k : κ} {a b : α}

def empty : Table key := ⟨[], nodup_nil⟩

section
variable (t : Table key)

def find (k : κ) : Option α := t.rows.find? fun a => decide (key a = k)

/-- `DELETE FROM .. WHERE ..`. -/
def deleteWhere (drop : α → Bool) : Table key :=
  ⟨t.rows.filter fun a => !drop a, t.distinct.sublist (filter_sublist.map key)⟩

def remove (k : κ) : Table key := t.deleteWhere fun a => decide (key a = k)

/-- `UPDATE .. SET .. WHERE ..` outside the key. -/
def update (select : α → Bool) (edit : α → α) (keeps : ∀ a, key (edit a) = key a) :
    Table key :=
  ⟨t.rows.map fun a => if select a then edit a else a, by
    have same : (key ∘ fun a => if select a then edit a else a) = key := by
      funext a
      simp only [Function.comp]
      split
      · exact keeps a
      · rfl
    rw [map_map, same]
    exact t.distinct⟩

/-- `INSERT OR REPLACE`: the row takes the place of the one under its key, or comes last. -/
def put (a : α) : Table key :=
  ⟨(t.rows.filter fun b => decide (key b ≠ key a)) ++ [a], by
    rw [map_append, nodup_append]
    refine ⟨t.distinct.sublist (filter_sublist.map key), nodup_singleton _, ?_⟩
    intro k listed k' single same
    obtain ⟨b, kept, rfl⟩ := mem_map.mp listed
    rw [map_singleton, mem_singleton] at single
    exact of_decide_eq_true (mem_filter.mp kept).2 (same.trans single)⟩

/-- `UPDATE` of the row under a key to a given row; nothing where there is none. -/
def set (a : α) : Table key :=
  ⟨t.rows.map fun b => if key b = key a then a else b, by
    have same : (key ∘ fun b => if key b = key a then a else b) = key := by
      funext b
      simp only [Function.comp]
      split
      next here => exact here.symm
      next => rfl
    rw [map_map, same]
    exact t.distinct⟩

end

theorem find_eq_some : t.find k = some a ↔ a ∈ t.rows ∧ key a = k := by
  constructor
  · intro found
    exact ⟨mem_of_find?_eq_some found, by simpa using List.find?_some found⟩
  · rintro ⟨member, rfl⟩
    cases found : t.find (key a) with
    | none =>
      have apart := List.find?_eq_none.mp found a member
      simp at apart
    | some b =>
      have same : key b = key a := by simpa using List.find?_some found
      rw [inj_on_of_nodup_map t.distinct (mem_of_find?_eq_some found) member same]

theorem find_key (found : t.find k = some a) : key a = k := (find_eq_some.mp found).2

theorem mem_rows_iff : a ∈ t.rows ↔ t.find (key a) = some a := by simp [find_eq_some]

theorem find_eq_none : t.find k = none ↔ ∀ a ∈ t.rows, key a ≠ k := by
  simp [find]

theorem find_eq_of {found : Option α} (iff : ∀ a, (a ∈ t.rows ∧ key a = k) ↔ found = some a) :
    t.find k = found := by
  cases found with
  | none =>
    rw [find_eq_none]
    intro a member same
    exact nomatch (iff a).mp ⟨member, same⟩
  | some a => exact find_eq_some.mpr ((iff a).mpr rfl)

theorem find_congr {t' : Table key} (same : ∀ a, key a = k → (a ∈ t.rows ↔ a ∈ t'.rows)) : t.find k = t'.find k := by
  apply find_eq_of
  intro a
  rw [find_eq_some]
  exact and_congr_left fun here => same a here

@[simp] theorem find_empty : (empty : Table key).find k = none := rfl

theorem find_put : (t.put a).find k = if k = key a then some a else t.find k := by
  apply find_eq_of
  intro b
  simp only [put, mem_append, mem_filter, decide_eq_true_eq, mem_singleton]
  by_cases here : k = key a
  · rw [if_pos here, Option.some.injEq]
    constructor
    · rintro ⟨⟨-, apart⟩ | rfl, same⟩
      · exact absurd (same.trans here) apart
      · rfl
    · rintro rfl
      exact ⟨.inr rfl, here.symm⟩
  · rw [if_neg here, find_eq_some]
    constructor
    · rintro ⟨⟨member, -⟩ | rfl, same⟩
      · exact ⟨member, same⟩
      · exact absurd same.symm here
    · rintro ⟨member, same⟩
      exact ⟨.inl ⟨member, fun also => here (same.symm.trans also)⟩, same⟩

theorem find_put_self : (t.put a).find (key a) = some a := by rw [find_put, if_pos rfl]

theorem find_put_of_ne (apart : k ≠ key a) : (t.put a).find k = t.find k := by rw [find_put, if_neg apart]

theorem find_update {select : α → Bool} {edit : α → α} {keeps : ∀ a, key (edit a) = key a} :
    (t.update select edit keeps).find k =
      (t.find k).map fun a => if select a then edit a else a := by
  have keyed : ∀ a, key (if select a then edit a else a) = key a := by
    intro a
    split
    · exact keeps a
    · rfl
  apply find_eq_of
  intro b
  simp only [update, mem_map, Option.map_eq_some_iff, find_eq_some]
  constructor
  · rintro ⟨⟨a, member, rfl⟩, same⟩
    exact ⟨a, ⟨member, (keyed a).symm.trans same⟩, rfl⟩
  · rintro ⟨a, ⟨member, same⟩, rfl⟩
    exact ⟨⟨a, member, rfl⟩, (keyed a).trans same⟩

theorem find_deleteWhere {drop : α → Bool} :
    (t.deleteWhere drop).find k = (t.find k).filter fun a => !drop a := by
  apply find_eq_of
  intro b
  simp only [deleteWhere, mem_filter, Option.filter_eq_some_iff, find_eq_some]
  tauto

theorem find_remove {k' : κ} : (t.remove k).find k' = if k' = k then none else t.find k' := by
  rw [remove, find_deleteWhere]
  cases found : t.find k' with
  | none => simp
  | some a => simp [Option.filter, find_key found]

theorem find_remove_self : (t.remove k).find k = none := by rw [find_remove, if_pos rfl]

theorem find_remove_of_ne {k' : κ} (apart : k' ≠ k) : (t.remove k).find k' = t.find k' := by
  rw [find_remove, if_neg apart]

theorem find_set : (t.set a).find k = if k = key a then (t.find k).map fun _ => a else t.find k := by
  have keyed : ∀ b, key (if key b = key a then a else b) = key b := by
    intro b
    split
    next here => exact here.symm
    next => rfl
  apply find_eq_of
  intro b
  simp only [set, mem_map]
  by_cases here : k = key a
  · rw [if_pos here, Option.map_eq_some_iff]
    constructor
    · rintro ⟨⟨c, member, rfl⟩, same⟩
      rw [keyed] at same
      exact ⟨c, find_eq_some.mpr ⟨member, same⟩, by rw [if_pos (same.trans here)]⟩
    · rintro ⟨c, found, rfl⟩
      obtain ⟨member, same⟩ := find_eq_some.mp found
      exact ⟨⟨c, member, by rw [if_pos (same.trans here)]⟩, here.symm⟩
  · rw [if_neg here, find_eq_some]
    constructor
    · rintro ⟨⟨c, member, rfl⟩, same⟩
      rw [keyed] at same
      rw [if_neg fun also => here (same.symm.trans also)]
      exact ⟨member, same⟩
    · rintro ⟨member, same⟩
      exact ⟨⟨b, member, if_neg fun also => here (same.symm.trans also)⟩, same⟩

theorem find_foldl_put {β : Type} {name : β → κ} {make : β → Option α}
    (keyed : ∀ b a, make b = some a → key a = name b) (sources : List β) (distinct : (sources.map name).Nodup)
    (t : Table key) (k : κ) :
    (sources.foldl (fun t b => (make b).elim t t.put) t).find k =
      ((sources.find? fun b => decide (name b = k)).bind make).or (t.find k) := by
  induction sources generalizing t with
  | nil => rfl
  | cons b rest ih =>
    obtain ⟨fresh, distinct'⟩ := nodup_cons.mp distinct
    rw [foldl_cons, ih distinct']
    by_cases here : name b = k
    · have later : (rest.find? fun b => decide (name b = k)) = none := by
        refine List.find?_eq_none.mpr fun c member same => fresh ?_
        rw [here, ← of_decide_eq_true same]
        exact mem_map_of_mem member
      rw [later, List.find?_cons_of_pos (by exact decide_eq_true here)]
      cases made : make b with
      | none => simp [made]
      | some a => simp [made, find_put, keyed b a made, here]
    · rw [List.find?_cons_of_neg (by simpa using here)]
      cases made : make b with
      | none => rfl
      | some a =>
        have apart : k ≠ key a := fun same => here ((keyed b a made).symm.trans same.symm)
        simp only [Option.elim_some, find_put_of_ne apart]

theorem mem_put : b ∈ (t.put a).rows ↔ b = a ∨ b ∈ t.rows ∧ key b ≠ key a := by
  simp only [put, mem_append, mem_filter, decide_eq_true_eq, mem_singleton]
  tauto

theorem mem_set : b ∈ (t.set a).rows ↔ (b = a ∧ ∃ c ∈ t.rows, key c = key a) ∨ b ∈ t.rows ∧ key b ≠ key a := by
  rw [set, mem_map]
  constructor
  · rintro ⟨c, member, rfl⟩
    by_cases here : key c = key a
    · rw [if_pos here]
      exact .inl ⟨rfl, c, member, here⟩
    · rw [if_neg here]
      exact .inr ⟨member, here⟩
  · rintro (⟨rfl, c, member, same⟩ | ⟨member, apart⟩)
    · exact ⟨c, member, if_pos same⟩
    · exact ⟨b, member, if_neg apart⟩

omit [DecidableEq κ] in
theorem mem_update {select : α → Bool} {edit : α → α} {keeps : ∀ a, key (edit a) = key a} :
    b ∈ (t.update select edit keeps).rows ↔ ∃ a ∈ t.rows, (if select a then edit a else a) = b := by
  simp [update]

omit [DecidableEq κ] in
theorem mem_deleteWhere {drop : α → Bool} :
    b ∈ (t.deleteWhere drop).rows ↔ b ∈ t.rows ∧ drop b = false := by
  simp [deleteWhere]

end Table

namespace Table
variable {α κ : Type} {key : α → κ} {p : α → Bool}

section
variable (t : Table key)

theorem countP_le_length (keys : List κ) (listed : ∀ a ∈ t.rows, p a = true → key a ∈ keys) :
    t.rows.countP p ≤ keys.length := by
  rw [countP_eq_length_filter, ← length_map key]
  have distinct : ((t.rows.filter p).map key).Nodup := t.distinct.sublist (filter_sublist.map key)
  have only : (t.rows.filter p).map key ⊆ keys := by
    intro k found
    obtain ⟨a, member, rfl⟩ := mem_map.mp found
    obtain ⟨here, holds⟩ := mem_filter.mp member
    exact listed a here holds
  exact (distinct.subperm only).length_le

theorem countP_le_one (k : κ) (same : ∀ a ∈ t.rows, p a = true → key a = k) :
    t.rows.countP p ≤ 1 :=
  t.countP_le_length [k] fun a member counts => mem_singleton.mpr (same a member counts)

theorem countP_key [DecidableEq κ] (k : κ) :
    t.rows.countP (fun a => decide (key a = k) && p a) = if (t.find k).any p then 1 else 0 := by
  cases found : t.find k with
  | none =>
    rw [Option.any_none, if_neg Bool.false_ne_true, countP_eq_zero]
    intro a member counts
    rw [Bool.and_eq_true, decide_eq_true_eq] at counts
    exact find_eq_none.mp found a member counts.1
  | some a =>
    obtain ⟨member, same⟩ := find_eq_some.mp found
    have only : ∀ b ∈ t.rows, (decide (key b = k) && p b) = true → b = a ∧ p b = true := by
      intro b listed counts
      rw [Bool.and_eq_true, decide_eq_true_eq] at counts
      have hit := find_eq_some.mpr ⟨listed, counts.1⟩
      exact ⟨Option.some.inj (hit.symm.trans found), counts.2⟩
    rw [Option.any_some]
    split
    next holds =>
      apply Nat.le_antisymm
      · exact t.countP_le_one k fun b listed counts => by
          rw [(only b listed counts).1, same]
      · rw [one_le_countP_iff]
        exact ⟨a, member, by simp [same, holds]⟩
    next fails =>
      rw [countP_eq_zero]
      intro b listed counts
      obtain ⟨rfl, holds⟩ := only b listed counts
      exact fails holds

theorem length_filter_le_one (same : ∀ a ∈ t.rows, ∀ b ∈ t.rows, p a = true → p b = true → a = b) :
    (t.rows.filter p).length ≤ 1 := by
  have distinct : (t.rows.filter p).Nodup := (t.distinct.of_map _).filter _
  cases rows : t.rows.filter p with
  | nil => exact Nat.zero_le _
  | cons a rest =>
    cases rest with
    | nil => exact Nat.le_refl _
    | cons b rest =>
      rw [rows] at distinct
      have first : a ∈ t.rows.filter p := rows ▸ mem_cons_self ..
      have second : b ∈ t.rows.filter p := rows ▸ mem_cons_of_mem _ (mem_cons_self ..)
      obtain ⟨memberA, holdsA⟩ := mem_filter.mp first
      obtain ⟨memberB, holdsB⟩ := mem_filter.mp second
      obtain rfl := same a memberA b memberB holdsA holdsB
      exact absurd (mem_cons_self ..) (nodup_cons.mp distinct).1

theorem filter_eq_singleton {a : α} (member : a ∈ t.rows) (holds : p a = true)
    (only : ∀ b ∈ t.rows, p b = true → b = a) : t.rows.filter p = [a] := by
  have kept : a ∈ t.rows.filter p := mem_filter.mpr ⟨member, holds⟩
  have short : (t.rows.filter p).length ≤ 1 := t.length_filter_le_one fun b memberB c memberC holdsB holdsC =>
    (only b memberB holdsB).trans (only c memberC holdsC).symm
  obtain ⟨b, single⟩ := length_eq_one_iff.mp (Nat.le_antisymm short (length_pos_of_mem kept))
  rw [single, mem_singleton] at kept
  rw [single, kept]

end

theorem countP_deleteWhere {t : Table key} {drop : α → Bool} :
    (t.deleteWhere drop).rows.countP p ≤ t.rows.countP p :=
  filter_sublist.countP_le

theorem countP_update {t : Table key} {select : α → Bool} {edit : α → α}
    {keeps : ∀ a, key (edit a) = key a}
    (fewer : ∀ a ∈ t.rows, select a = true → p (edit a) = true → p a = true) :
    (t.update select edit keeps).rows.countP p ≤ t.rows.countP p := by
  simp only [update, countP_map]
  apply countP_mono_left
  intro a member counts
  simp only [Function.comp] at counts
  split at counts
  next selected => exact fewer a member selected counts
  next => exact counts

theorem countP_put [DecidableEq κ] (t : Table key) (a : α) :
    (t.put a).rows.countP p ≤ t.rows.countP p + if p a then 1 else 0 := by
  simp only [put, countP_append, countP_singleton]
  exact Nat.add_le_add_right filter_sublist.countP_le _

end Table
end Library
