import Mathlib.Data.List.Induction
import Mathlib.Data.List.Sort

/-! Items gathered under their keys, in the order the keys first come, and the groups that stand first. -/

set_option autoImplicit false
namespace Library.Grouped
open List

variable {α γ κ : Type} [DecidableEq κ]

/-- How items are gathered: a group is opened for the first item of a key, and takes every later one. -/
structure Gathering (α γ κ : Type) where
  key : α → κ
  name : γ → κ
  first : α → γ
  add : γ → α → γ
  name_first : ∀ a, name (first a) = key a
  name_add : ∀ g a, name (add g a) = name g

variable (G : Gathering α γ κ)

/-- One more item: into the group of its key, or a group of its own after the others. -/
def insert (a : α) : List γ → List γ
  | [] => [G.first a]
  | g :: rest => if G.name g = G.key a then G.add g a :: rest else g :: insert a rest

def gather (items : List α) : List γ := items.foldl (fun groups a => insert G a groups) []

variable {G}

theorem gather_concat (items : List α) (a : α) : gather G (items ++ [a]) = insert G a (gather G items) :=
  foldl_append ..

theorem mem_insert {a : α} {groups : List γ} (apart : (groups.map G.name).Nodup) {g : γ} :
    g ∈ insert G a groups ↔
      (g ∈ groups ∧ G.name g ≠ G.key a) ∨ (∃ g' ∈ groups, G.name g' = G.key a ∧ g = G.add g' a) ∨
        ((∀ g' ∈ groups, G.name g' ≠ G.key a) ∧ g = G.first a) := by
  induction groups with
  | nil => simp [insert]
  | cons head rest ih =>
    rw [map_cons, nodup_cons] at apart
    rw [insert]
    split
    · rename_i same
      have others : ∀ g' ∈ rest, G.name g' ≠ G.key a := fun g' member same' =>
        apart.1 (mem_map.mpr ⟨g', member, same'.trans same.symm⟩)
      constructor
      · intro member
        rcases mem_cons.mp member with rfl | later
        · exact .inr (.inl ⟨head, mem_cons_self, same, rfl⟩)
        · exact .inl ⟨mem_cons_of_mem _ later, others g later⟩
      · rintro (⟨member, other⟩ | ⟨g', member, same', rfl⟩ | ⟨none_, -⟩)
        · rcases mem_cons.mp member with rfl | later
          · exact absurd same other
          · exact mem_cons_of_mem _ later
        · rcases mem_cons.mp member with rfl | later
          · exact mem_cons_self
          · exact absurd same' (others g' later)
        · exact absurd same (none_ head mem_cons_self)
    · rename_i other
      rw [mem_cons, ih apart.2]
      constructor
      · rintro (rfl | ⟨member, other'⟩ | ⟨g', member, same, rfl⟩ | ⟨none_, rfl⟩)
        · exact .inl ⟨mem_cons_self, other⟩
        · exact .inl ⟨mem_cons_of_mem _ member, other'⟩
        · exact .inr (.inl ⟨g', mem_cons_of_mem _ member, same, rfl⟩)
        · exact .inr (.inr ⟨forall_mem_cons.mpr ⟨other, none_⟩, rfl⟩)
      · rintro (⟨member, other'⟩ | ⟨g', member, same, rfl⟩ | ⟨none_, rfl⟩)
        · rcases mem_cons.mp member with rfl | later
          · exact .inl rfl
          · exact .inr (.inl ⟨later, other'⟩)
        · rcases mem_cons.mp member with rfl | later
          · exact absurd same other
          · exact .inr (.inr (.inl ⟨g', later, same, rfl⟩))
        · exact .inr (.inr (.inr ⟨fun g' member => none_ g' (mem_cons_of_mem _ member), rfl⟩))

theorem names_insert (a : α) (groups : List γ) :
    (insert G a groups).map G.name =
      if G.key a ∈ groups.map G.name then groups.map G.name else groups.map G.name ++ [G.key a] := by
  induction groups with
  | nil => simp [insert, G.name_first]
  | cons head rest ih =>
    rw [insert]
    split
    · rename_i same
      rw [map_cons, G.name_add, ← map_cons, if_pos (mem_map.mpr ⟨head, mem_cons_self, same⟩)]
    rename_i other
    rw [map_cons, ih, map_cons]
    by_cases later : G.key a ∈ rest.map G.name
    · rw [if_pos later, if_pos (mem_cons_of_mem _ later)]
    · rw [if_neg later, if_neg (not_mem_cons_of_ne_of_not_mem (Ne.symm other) later), cons_append]

theorem names_nodup (items : List α) : ((gather G items).map G.name).Nodup := by
  induction items using List.reverseRecOn with
  | nil => exact nodup_nil
  | append_singleton items a ih =>
    rw [gather_concat, names_insert]
    split
    · exact ih
    rename_i new
    exact nodup_append.mpr ⟨ih, nodup_singleton _, fun k member k' last same =>
      new (by rw [← mem_singleton.mp last, ← same]; exact member)⟩

theorem mem_names (items : List α) (k : κ) : k ∈ (gather G items).map G.name ↔ ∃ a ∈ items, G.key a = k := by
  induction items using List.reverseRecOn with
  | nil => simp [gather]
  | append_singleton items a ih =>
    rw [gather_concat, names_insert]
    have split_ : (∃ b ∈ items ++ [a], G.key b = k) ↔ (∃ b ∈ items, G.key b = k) ∨ G.key a = k := by
      simp [or_and_right, exists_or]
    rw [split_, ← ih]
    split
    · rename_i there
      exact ⟨.inl, fun either => either.elim id fun same => same ▸ there⟩
    · rw [mem_append, mem_singleton, eq_comm]

/-- What holds of a group opened for an item, and stays true of it with the items it takes, holds of every group and
its key's items. -/
theorem gather_rule (holds : List α → γ → Prop) (first : ∀ a, holds [a] (G.first a))
    (add : ∀ taken g a, holds taken g → G.name g = G.key a → holds (taken ++ [a]) (G.add g a)) (items : List α) :
    ∀ g ∈ gather G items, holds (items.filter fun a => decide (G.key a = G.name g)) g := by
  induction items using List.reverseRecOn with
  | nil => exact fun g member => absurd member not_mem_nil
  | append_singleton items a ih =>
    intro g member
    rw [gather_concat, mem_insert (names_nodup items)] at member
    rw [filter_append]
    rcases member with ⟨member, other⟩ | ⟨g', member, same, rfl⟩ | ⟨none_, rfl⟩
    · rw [filter_cons_of_neg (by simpa using Ne.symm other), filter_nil, append_nil]
      exact ih g member
    · rw [G.name_add, filter_cons_of_pos (by simpa using same.symm), filter_nil]
      exact add _ _ _ (ih g' member) same
    have new : (items.filter fun b => decide (G.key b = G.key a)) = [] := by
      rw [filter_eq_nil_iff]
      intro b listed same
      obtain ⟨g', member, name⟩ := mem_map.mp ((mem_names items (G.key a)).mpr ⟨b, listed,
          of_decide_eq_true same⟩)
      exact none_ g' member name
    rw [G.name_first, new, filter_cons_of_pos (by simp), filter_nil, nil_append]
    exact first a

theorem flatMap_filter_key (key : α → Nat) (n first : Nat) {items : List α}
    (sorted : items.Pairwise fun a b => key a ≤ key b) (inside : ∀ a ∈ items, first ≤ key a ∧ key a < first + n) :
    (List.range' first n).flatMap (fun k => items.filter fun a => key a == k) = items := by
  induction n generalizing first items with
  | zero =>
    cases items with
    | nil => rfl
    | cons a rest =>
      have := inside a mem_cons_self
      omega
  | succ n ih =>
    have front : items.filter (fun a => key a == first) ++ items.filter (fun a => key a != first) = items := by
      induction items with
      | nil => rfl
      | cons a rest ih =>
        rw [pairwise_cons] at sorted
        have behind := ih sorted.2 fun b member => inside b (mem_cons_of_mem _ member)
        by_cases here : key a = first
        · rw [filter_cons_of_pos (by simpa using here), filter_cons_of_neg (by simpa using here),
            cons_append, behind]
        have none_ : rest.filter (fun b => key b == first) = [] := by
          rw [filter_eq_nil_iff]
          intro b member same
          have above := sorted.1 b member
          have low := (inside a mem_cons_self).1
          rw [beq_iff_eq] at same
          omega
        rw [none_, nil_append] at behind
        rw [filter_cons_of_neg (by simpa using here), none_, nil_append,
          filter_cons_of_pos (by simpa using here), behind]
    have later : (List.range' (first + 1) n).flatMap (fun k => items.filter fun a => key a == k) =
        items.filter fun a => key a != first := by
      rw [← ih (first + 1) (sorted.sublist filter_sublist) fun a member => ?_]
      · refine flatMap_congr fun k member => ?_
        rw [filter_filter]
        refine filter_congr fun a _ => ?_
        have above := (mem_range'_1.mp member).1
        by_cases same : key a = k
        · have other : key a ≠ first := by omega
          simp [same] at other ⊢
          exact other
        · simp [same]
      · obtain ⟨member, other⟩ := mem_filter.mp member
        have bounds := inside a member
        simp only [bne_iff_ne, ne_eq] at other
        omega
    rw [List.range'_succ, flatMap_cons, later, front]

end Library.Grouped
