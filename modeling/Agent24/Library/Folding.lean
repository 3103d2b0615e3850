import Mathlib.Data.List.Nodup
import Mathlib.Order.Lattice

/-! Items in the order of their marks, folded batch by batch from the front up to a covered mark. -/

set_option autoImplicit false
namespace Library.Folding
open List

section
variable {α κ : Type} [LinearOrder κ] (mark : α → κ)

def remaining (covered : κ) (items : List α) : List α := items.filter fun a => covered < mark a

structure Folded (items : List α) (covered : κ) (batches : List (List α)) : Prop where
  ascending : items.Pairwise fun a b => mark a < mark b
  split : items = batches.flatten ++ remaining mark covered items
  reached : ∀ a ∈ batches.flatten, mark a ≤ covered

variable {mark} {items : List α} {covered : κ} {batches : List (List α)} {a : α}

theorem mem_remaining : a ∈ remaining mark covered items ↔ a ∈ items ∧ covered < mark a := by
  simp [remaining]

theorem remaining_sublist (mark : α → κ) (covered : κ) (items : List α) : (remaining mark covered items).Sublist items := filter_sublist

theorem remaining_add (fresh : covered < mark a) :
    remaining mark covered (items ++ [a]) = remaining mark covered items ++ [a] := by
  simp [remaining, fresh]

theorem remaining_advance (ascending : items.Pairwise fun a b => mark a < mark b)
    {front back : List α} {last : α} (split : remaining mark covered items = front ++ last :: back) :
    remaining mark (mark last) items = back := by
  have beyond : covered < mark last :=
    (mem_remaining.mp (split ▸ mem_append_right front (mem_cons_self ..))).2
  have again : remaining mark (mark last) items =
      remaining mark (mark last) (remaining mark covered items) := by
    simp only [remaining, filter_filter]
    apply filter_congr
    intro a _
    by_cases far : mark last < mark a
    · simp [far, beyond.trans far]
    · simp [far]
  have ordered := ascending.sublist (remaining_sublist mark covered _)
  rw [split, pairwise_append, pairwise_cons] at ordered
  obtain ⟨-, ⟨behind, -⟩, before⟩ := ordered
  rw [again, split, remaining, filter_append, filter_cons]
  have none_front : front.filter (fun a => mark last < mark a) = [] := by
    rw [filter_eq_nil_iff]
    intro a member
    simpa using (before a member last (mem_cons_self ..)).le
  have all_back : back.filter (fun a => mark last < mark a) = back := by
    rw [filter_eq_self]
    intro a member
    simpa using behind a member
  simp [none_front, all_back]

namespace Folded

theorem empty (covered : κ) : Folded mark [] covered [] :=
  ⟨List.Pairwise.nil, rfl, fun _ member => nomatch member⟩

section
variable (folded : Folded mark items covered batches)
include folded

theorem add (fresh : covered < mark a) (last : ∀ b ∈ items, mark b < mark a) : Folded mark (items ++ [a]) covered batches where
  ascending := by
    rw [pairwise_append]
    exact ⟨folded.ascending, pairwise_singleton _ _, fun b member c single => by
      rw [mem_singleton.mp single]; exact last b member⟩
  split := by
    rw [remaining_add fresh, ← append_assoc, ← folded.split]
  reached := folded.reached

theorem advance {front back : List α} {last : α} (split : remaining mark covered items = front ++ last :: back) :
    Folded mark items (mark last) (batches ++ [front ++ [last]]) ∧
      remaining mark (mark last) items = back ∧ covered < mark last := by
  have beyond : covered < mark last :=
    (mem_remaining.mp (split ▸ mem_append_right front (mem_cons_self ..))).2
  have left := remaining_advance folded.ascending split
  refine ⟨⟨folded.ascending, ?_, ?_⟩, left, beyond⟩
  · rw [left, flatten_append, flatten_singleton]
    calc items = batches.flatten ++ (front ++ last :: back) := split ▸ folded.split
      _ = batches.flatten ++ (front ++ [last]) ++ back := by simp
  · intro a member
    rw [flatten_append, flatten_singleton, mem_append] at member
    rcases member with old | new
    · exact (folded.reached a old).trans beyond.le
    have ordered := folded.ascending.sublist (remaining_sublist mark covered _)
    rw [split, pairwise_append] at ordered
    rcases mem_append.mp new with inside | final
    · exact (ordered.2.2 a inside last (mem_cons_self ..)).le
    · rw [mem_singleton.mp final]

theorem nodup : items.Nodup :=
  folded.ascending.imp fun less same => absurd (congrArg mark same) less.ne

end

end Folded

/-- `a` is left over, or in one batch. -/
inductive InOnePlace (left : List α) (batches : List (List α)) (a : α) : Prop where
  | remains (kept : a ∈ left) (unfolded : ∀ batch ∈ batches, a ∉ batch)
  | folded (before : List (List α)) (batch : List α) (after : List (List α))
      (split : batches = before ++ batch :: after) (inside : a ∈ batch)
      (elsewhere : ∀ other ∈ before ++ after, a ∉ other) (gone : a ∉ left)

theorem Folded.inOnePlace (folded : Folded mark items covered batches) (member : a ∈ items) :
    InOnePlace (remaining mark covered items) batches a := by
  have distinct := folded.nodup
  rw [folded.split] at member distinct
  obtain ⟨within, -, disjoint⟩ := nodup_append.mp distinct
  rcases mem_append.mp member with taken | kept
  · obtain ⟨batch, listed, inside⟩ := mem_flatten.mp taken
    obtain ⟨before, after, split⟩ := append_of_mem listed
    have gone : a ∉ remaining mark covered items := fun also => disjoint a taken a also rfl
    refine .folded before batch after split inside (fun other among also => ?_) gone
    rw [split, flatten_append, flatten_cons, nodup_append] at within
    obtain ⟨-, rest, apart⟩ := within
    rw [nodup_append] at rest
    rcases mem_append.mp among with early | late
    · exact apart a (mem_flatten.mpr ⟨other, early, also⟩) a (mem_append_left _ inside) rfl
    · exact rest.2.2 a inside a (mem_flatten.mpr ⟨other, late, also⟩) rfl
  · exact .remains kept fun batch listed also =>
      disjoint a (mem_flatten.mpr ⟨batch, listed, also⟩) a kept rfl

end
end Library.Folding
