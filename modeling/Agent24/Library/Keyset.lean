import Mathlib.Data.List.Sort

/-! Paging by a unique key: rows in descending order, each page a front of those below its cursor. -/

set_option autoImplicit false
namespace Library.Keyset
open List
variable {ρ κ : Type} [LinearOrder κ] {key : ρ → κ} {cursor : Option κ} {rows rows' : List ρ}

/-- `ORDER BY key DESC`. -/
def descending (key : ρ → κ) (rows : List ρ) : List ρ := rows.insertionSort fun a b => key b ≤ key a

def after (key : ρ → κ) (cursor : Option κ) (rows : List ρ) : List ρ :=
  descending key (rows.filter fun row => cursor.all fun at_ => decide (key row < at_))

theorem descending_perm (rows : List ρ) : (descending key rows).Perm rows := perm_insertionSort _ rows

@[simp] theorem mem_after {row : ρ} :
    row ∈ after key cursor rows ↔ row ∈ rows ∧ ∀ at_ ∈ cursor, key row < at_ := by
  rw [after, (descending_perm _).mem_iff, mem_filter]
  cases cursor <;> simp

theorem descending_strict (distinct : (rows.map key).Nodup) :
    (descending key rows).Pairwise fun a b => key b < key a := by
  have weak : (descending key rows).Pairwise fun a b => key b ≤ key a :=
    pairwise_insertionSort (fun a b => key b ≤ key a) rows
  have apart : (descending key rows).Pairwise fun a b => key a ≠ key b :=
    pairwise_map.mp (((descending_perm rows).map key).nodup_iff.mpr distinct)
  exact (weak.and apart).imp fun both => lt_of_le_of_ne both.1 both.2.symm

theorem after_strict (distinct : (rows.map key).Nodup) :
    (after key cursor rows).Pairwise fun a b => key b < key a :=
  descending_strict (distinct.sublist (filter_sublist.map key))

theorem descending_congr (distinct : (rows.map key).Nodup) (distinct' : (rows'.map key).Nodup)
    (same : ∀ row, row ∈ rows ↔ row ∈ rows') : descending key rows = descending key rows' := by
  have perm : rows.Perm rows' :=
    (perm_ext_iff_of_nodup distinct.of_map distinct'.of_map).mpr same
  have sorted := descending_strict distinct
  have sorted' := descending_strict distinct'
  exact List.Perm.eq_of_pairwise (fun a b _ _ below above => absurd below above.asymm) sorted sorted'
    ((descending_perm rows).trans (perm.trans (descending_perm rows').symm))

structure Page (key : ρ → κ) (cursor : Option κ) (rows given : List ρ) (next : Option κ) : Prop where
  distinct : (rows.map key).Nodup
  front : given <+: after key cursor rows
  whole : next = none → given = after key cursor rows
  last : ∀ at_ ∈ next, ∃ row, given.getLast? = some row ∧ key row = at_

inductive Walk (key : ρ → κ) : Option κ → List ρ → List ρ → Prop
  | last {cursor rows given} (page : Page key cursor rows given none) : Walk key cursor rows given
  | more {cursor rows given at_ rows' rest} (page : Page key cursor rows given (some at_))
      (grown : ∀ row ∈ rows, key row ∈ rows'.map key) (walk : Walk key (some at_) rows' rest) :
      Walk key cursor rows (given ++ rest)

theorem Page.cut {given : List ρ} {at_ : κ} (page : Page key cursor rows given (some at_)) :
    (∀ row ∈ given, at_ ≤ key row) ∧ ∀ row ∈ after key cursor rows, row ∉ given → key row < at_ := by
  obtain ⟨row, ends, rfl⟩ := page.last at_ rfl
  obtain ⟨tail, whole⟩ := page.front
  have strict : (after key cursor rows).Pairwise fun a b => key b < key a := after_strict page.distinct
  rw [← whole] at strict ⊢
  obtain ⟨fronts, _, across⟩ := pairwise_append.mp strict
  constructor
  · intro other member
    obtain ⟨before, rfl⟩ : ∃ before, given = before ++ [row] :=
      ⟨_, (dropLast_append_getLast? row ends).symm⟩
    rcases mem_append.mp member with earlier | itself
    · exact ((pairwise_append.mp fronts).2.2 other earlier row (mem_singleton.mpr rfl)).le
    · rw [mem_singleton.mp itself]
  · intro other member absent
    have behind : other ∈ tail := (mem_append.mp member).resolve_left absent
    exact across row (mem_of_getLast? ends) other behind

/-- Followed to the end, the pages give the rows of the start once each, in descending order of their keys. -/
theorem Walk.complete {given : List ρ} (walk : Walk key cursor rows given) :
    given.Pairwise (fun a b => key b < key a) ∧ (∀ row ∈ given, ∀ at_ ∈ cursor, key row < at_) ∧
      ∀ row ∈ rows, (∀ at_ ∈ cursor, key row < at_) → key row ∈ given.map key := by
  induction walk with
  | last page =>
    rw [page.whole rfl]
    refine ⟨after_strict page.distinct, fun row member => (mem_after.mp member).2, fun row member below => ?_⟩
    exact mem_map_of_mem (mem_after.mpr ⟨member, below⟩)
  | @more cursor rows given at_ rows' rest page grown walk ih =>
    obtain ⟨strict, below, whole⟩ := ih
    obtain ⟨above, left⟩ := page.cut
    have strict' : (after key cursor rows).Pairwise fun a b => key b < key a := after_strict page.distinct
    have fronts := strict'.sublist page.front.sublist
    refine ⟨pairwise_append.mpr ⟨fronts, strict, fun a inFront b inRest => ?_⟩, fun row member => ?_,
      fun row member under => ?_⟩
    · exact (below b inRest at_ rfl).trans_le (above a inFront)
    · rcases mem_append.mp member with inFront | inRest
      · exact (mem_after.mp (page.front.subset inFront)).2
      intro upper same
      obtain ⟨row', ends, keyed⟩ := page.last at_ rfl
      have last := (mem_after.mp (page.front.subset (mem_of_getLast? ends))).2 upper same
      rw [keyed] at last
      exact (below row inRest at_ rfl).trans last
    · rw [map_append, mem_append]
      by_cases inFront : row ∈ given
      · exact .inl (mem_map_of_mem inFront)
      obtain ⟨row', member', same⟩ := mem_map.mp (grown row member)
      have under' := left row (mem_after.mpr ⟨member, under⟩) inFront
      rw [← same] at under' ⊢
      exact .inr (whole row' member' fun upper here => by cases here; exact under')

end Library.Keyset
