import Agent24.Library.First
import Mathlib.Data.List.Induction
import Mathlib.Data.List.Sort
import Mathlib.Data.String.Basic

/-! The tracked artifacts against the files on disk: every divergence is classified, none applied. -/

set_option autoImplicit false
namespace Agent24.Memory
open Library List

structure ObservedFile where
  path : String
  checksum : String
  deriving DecidableEq

inductive Reconciliation where
  | unchanged (path : String)
  | modifiedOnDisk (path dbChecksum fileChecksum : String)
  | moved (fromPath toPath checksum : String)
  | deletedOnDisk (path dbChecksum : String)
  | newOnDisk (path fileChecksum : String)
  deriving DecidableEq, Repr

namespace Reconciliation

def sortKey : Reconciliation → String × Nat
  | .unchanged path => (path, 0)
  | .modifiedOnDisk path _ _ => (path, 1)
  | .moved fromPath _ _ => (fromPath, 2)
  | .deletedOnDisk path _ => (path, 3)
  | .newOnDisk path _ => (path, 4)

def sortsBefore (a b : Reconciliation) : Prop :=
  a.sortKey.1 < b.sortKey.1 ∨ a.sortKey.1 = b.sortKey.1 ∧ a.sortKey.2 ≤ b.sortKey.2

instance decidableSortsBefore : DecidableRel sortsBefore := fun _ _ => inferInstanceAs (Decidable (_ ∨ _ ∧ _))

def tracked : Reconciliation → Option String
  | .unchanged path | .modifiedOnDisk path _ _ | .moved path _ _ | .deletedOnDisk path _ => some path
  | .newOnDisk _ _ => none

/-- The observed path an entry accounts for. -/
def observed : Reconciliation → Option String
  | .unchanged path | .modifiedOnDisk path _ _ | .moved _ path _ | .newOnDisk path _ => some path
  | .deletedOnDisk _ _ => none

end Reconciliation

/-- A `BTreeMap` of paths: a later entry of a path replaces an earlier one. -/
def byPath (entries : List (String × String)) : List (String × String) :=
  (entries.foldl (fun map e => (map.filter fun old => old.1 != e.1) ++ [e]) []).insertionSort fun a b => a.1 ≤ b.1

def countOf (sum : String) (map : List (String × String)) : Nat := (map.filter fun e => e.2 == sum).length

structure FreshFile where
  path : String
  checksum : String
  used : Bool

def FreshFile.use (file : FreshFile) : FreshFile := { file with used := true }

def landing (sum : String) (file : FreshFile) : Bool := !file.used && file.checksum == sum

def keptEntry (observed : List (String × String)) (e : String × String) : Option Reconciliation :=
  (observed.lookup e.1).map fun fileSum =>
    if fileSum == e.2 then .unchanged e.1 else .modifiedOnDisk e.1 e.2 fileSum

/-- A path that is gone moved to a fresh file of its content, where the content is globally unique. -/
def moveOrDelete (unique : String → Bool) (s : List FreshFile × List Reconciliation) (e : String × String) :
    List FreshFile × List Reconciliation :=
  match if unique e.2 then s.1.find? (landing e.2) else none with
  | some file => (onFirst (landing e.2) FreshFile.use s.1, s.2 ++ [.moved e.1 file.path e.2])
  | none => (s.1, s.2 ++ [.deletedOnDisk e.1 e.2])

section
variable (tracked observed : List (String × String))

def globallyUnique (sum : String) : Bool := countOf sum tracked == 1 && countOf sum observed == 1

def gone : List (String × String) := tracked.filter fun e => (observed.lookup e.1).isNone

def fresh : List (String × String) := observed.filter fun o => (tracked.lookup o.1).isNone

def moves : List FreshFile × List Reconciliation :=
  (gone tracked observed).foldl (moveOrDelete (globallyUnique tracked observed))
    ((fresh tracked observed).map fun o => ⟨o.1, o.2, false⟩, [])

def classify : List Reconciliation :=
  tracked.filterMap (keptEntry observed) ++ (moves tracked observed).2 ++
    ((moves tracked observed).1.filter fun file => !file.used).map fun file => .newOnDisk file.path file.checksum

end

def ObservedFile.entry (file : ObservedFile) : String × String := (file.path, file.checksum)

def reconcile (tracked : List (String × String)) (observed : List ObservedFile) : List Reconciliation :=
  (classify (byPath tracked) (byPath (observed.map ObservedFile.entry))).insertionSort Reconciliation.sortsBefore

/-- A tracked path that disappeared and an observed one that appeared, of a content no other entry has. -/
structure Moves (tracked observed : String → String → Prop) (fromPath toPath sum : String) : Prop where
  was : tracked fromPath sum
  away (other : String) : ¬ observed fromPath other
  is : observed toPath sum
  new (other : String) : ¬ tracked toPath other
  unique (path : String) : tracked path sum → path = fromPath
  unique' (path : String) : observed path sum → path = toPath

/-- What an entry says of the two sides. -/
def Reconciliation.Holds (tracked observed : String → String → Prop) : Reconciliation → Prop
  | .unchanged path => ∃ sum, tracked path sum ∧ observed path sum
  | .modifiedOnDisk path sum fileSum => tracked path sum ∧ observed path fileSum ∧ fileSum ≠ sum
  | .moved fromPath toPath sum => Moves tracked observed fromPath toPath sum
  | .deletedOnDisk path sum => tracked path sum ∧ ∀ other, ¬ observed path other
  | .newOnDisk path sum => observed path sum ∧ ∀ other, ¬ tracked path other

def listed (entries : List (String × String)) (path sum : String) : Prop := (path, sum) ∈ entries

section
variable {tracked observed : List (String × String)} {e : String × String}

theorem byPath_perm (distinct : (tracked.map Prod.fst).Nodup) : (byPath tracked).Perm tracked := by
  refine (perm_insertionSort _ _).trans (List.Perm.of_eq ?_)
  induction tracked using List.reverseRecOn with
  | nil => rfl
  | append_singleton front e ih =>
    rw [map_append, nodup_append] at distinct
    rw [foldl_append, ih distinct.1, foldl_cons, foldl_nil, filter_eq_self.mpr]
    intro old member
    simpa using distinct.2.2 old.1 (mem_map_of_mem member) e.1 (by simp)

/-- The order of the entries is lost. -/
theorem byPath_congr (distinct : (tracked.map Prod.fst).Nodup) (same : observed.Perm tracked) :
    byPath observed = byPath tracked := by
  have distinct' : (observed.map Prod.fst).Nodup := (same.map _).nodup_iff.mpr distinct
  have perm := (byPath_perm distinct').trans (same.trans (byPath_perm distinct).symm)
  have sorted (entries : List (String × String)) : (byPath entries).Pairwise fun a b => a.1 ≤ b.1 :=
    pairwise_insertionSort (fun a b : String × String => a.1 ≤ b.1) _
  refine perm.eq_of_pairwise ?_ (sorted _) (sorted _)
  intro a b listed listed' less more
  have both := (byPath_perm distinct').mem_iff.mp listed
  have both' := same.mem_iff.mpr ((byPath_perm distinct).mem_iff.mp listed')
  exact inj_on_of_nodup_map distinct' both both' (le_antisymm less more)

theorem lookup_eq_none {path : String} : observed.lookup path = none ↔ ∀ sum, ¬ listed observed path sum := by
  rw [lookup_eq_none_iff]
  constructor
  · exact fun apart sum member => bne_iff_ne.mp (apart _ member) rfl
  · exact fun absent o member => bne_iff_ne.mpr fun same => absent o.2 (same ▸ member)

theorem lookup_eq_some (distinct : (observed.map Prod.fst).Nodup) {path sum : String} :
    observed.lookup path = some sum ↔ (path, sum) ∈ observed := by
  cases found : observed.lookup path with
  | none =>
    have absent := lookup_eq_none.mp found
    exact iff_of_false (by simp) (absent sum)
  | some other =>
    obtain ⟨front, back, rfl, -⟩ := lookup_eq_some_iff.mp found
    have listed : (path, other) ∈ front ++ (path, other) :: back := by simp
    refine ⟨fun same => Option.some.inj same ▸ listed, fun member => ?_⟩
    exact congrArg (some ·.2) (inj_on_of_nodup_map distinct listed member rfl)

/-- A content that one entry has alone. -/
theorem countOf_eq_one (distinct : (tracked.map Prod.fst).Nodup) (member : e ∈ tracked) :
    countOf e.2 tracked = 1 ↔ ∀ path, listed tracked path e.2 → path = e.1 := by
  have inside : e ∈ tracked.filter fun other => other.2 == e.2 := mem_filter.mpr ⟨member, beq_self_eq_true _⟩
  rw [countOf, length_eq_one_iff]
  constructor
  · rintro ⟨only, whole⟩ path also
    have also : (path, e.2) ∈ tracked.filter fun other => other.2 == e.2 :=
      mem_filter.mpr ⟨also, beq_self_eq_true _⟩
    rw [whole, mem_singleton] at inside also
    exact congrArg Prod.fst (also.trans inside.symm)
  · intro alone
    refine ⟨e, perm_singleton.mp ?_⟩
    refine (perm_ext_iff_of_nodup ((List.Nodup.of_map _ distinct).filter _) (nodup_singleton _)).mpr fun other => ?_
    rw [mem_singleton]
    refine ⟨fun kept => ?_, fun same => same ▸ inside⟩
    obtain ⟨also, same⟩ := mem_filter.mp kept
    have same := beq_iff_eq.mp same
    exact Prod.ext (alone other.1 (show (other.1, e.2) ∈ tracked from same ▸ also)) same

/-- What the loop over the gone paths has done: each is accounted for, and each fresh file is landed on, or not. -/
structure Landed (tracked observed done : List (String × String))
    (s : List FreshFile × List Reconciliation) : Prop where
  files : s.1.map (fun file => (file.path, file.checksum)) = fresh tracked observed
  traced : s.2.filterMap Reconciliation.tracked = done.map Prod.fst
  placed : (s.2.filterMap Reconciliation.observed ++ (s.1.filter fun file => !file.used).map FreshFile.path).Perm
    ((fresh tracked observed).map Prod.fst)
  sound : ∀ entry ∈ s.2, entry.Holds (listed tracked) (listed observed)
  open_ : ∀ o ∈ fresh tracked observed, (∀ e ∈ done, e.2 ≠ o.2) → ⟨o.1, o.2, false⟩ ∈ s.1
  found : ∀ e ∈ done, ∀ toPath, Moves (listed tracked) (listed observed) e.1 toPath e.2 → .moved e.1 toPath e.2 ∈ s.2

variable {done : List (String × String)} {s : List FreshFile × List Reconciliation}

theorem mem_gone : e ∈ gone tracked observed ↔ e ∈ tracked ∧ ∀ sum, ¬ listed observed e.1 sum := by
  rw [gone, mem_filter, Option.isNone_iff_eq_none, lookup_eq_none]

theorem mem_fresh : e ∈ fresh tracked observed ↔ e ∈ observed ∧ ∀ sum, ¬ listed tracked e.1 sum := by
  rw [fresh, mem_filter, Option.isNone_iff_eq_none, lookup_eq_none]

theorem Landed.step (landed : Landed tracked observed done s) (distinct : (tracked.map Prod.fst).Nodup)
    (distinct' : (observed.map Prod.fst).Nodup) (is_gone : e ∈ gone tracked observed) (next : e ∉ done)
    (within : ∀ old ∈ done, old ∈ tracked) :
    Landed tracked observed (done ++ [e]) (moveOrDelete (globallyUnique tracked observed) s e) := by
  obtain ⟨was, away⟩ := mem_gone.mp is_gone
  have asked : globallyUnique tracked observed e.2 = true ↔
      (∀ path, listed tracked path e.2 → path = e.1) ∧ countOf e.2 observed = 1 := by
    rw [globallyUnique, Bool.and_eq_true, beq_iff_eq, beq_iff_eq, countOf_eq_one distinct was]
  rw [moveOrDelete]
  split
  · next file landed_on =>
    split at landed_on
    · next unique =>
      obtain ⟨alone, once⟩ := asked.mp unique
      obtain ⟨front, a, back, whole, meets, before, edited⟩ :=
        onFirst_split (f := FreshFile.use) (any_eq_true.mpr ⟨file, mem_of_find?_eq_some landed_on,
            List.find?_some landed_on⟩)
      have first : file = a := by
        rw [whole, List.find?_append, List.find?_eq_none.mpr (by simpa using before), Option.none_or,
          List.find?_cons_of_pos meets] at landed_on
        exact (Option.some.inj landed_on).symm
      subst first
      obtain ⟨unused, content⟩ : file.used = false ∧ file.checksum = e.2 := by simpa [landing] using meets
      have free : (file.path, e.2) ∈ fresh tracked observed := by
        rw [← landed.files, ← content]
        exact mem_map_of_mem (whole ▸ mem_append_right _ (mem_cons_self ..))
      obtain ⟨is_, new⟩ := mem_fresh.mp free
      have move : Moves (listed tracked) (listed observed) e.1 file.path e.2 :=
        ⟨was, away, is_, new, alone, (countOf_eq_one distinct' is_).mp once⟩
      refine ⟨(map_onFirst (f := FreshFile.use) (fun _ => rfl) _).trans landed.files,
        by simp [landed.traced, Reconciliation.tracked], ?_, ?_, ?_, ?_⟩
      · have placed := landed.placed
        rw [whole, filter_append, filter_cons_of_pos (by simp [unused]), map_append, map_cons] at placed
        rw [edited, filter_append, filter_cons_of_neg (by simp [FreshFile.use]), map_append,
          filterMap_append, append_assoc,
          show [Reconciliation.moved e.1 file.path e.2].filterMap Reconciliation.observed = [file.path] from rfl,
          singleton_append]
        exact (perm_middle.symm.append_left _).trans placed
      · exact forall_mem_append.mpr ⟨landed.sound, forall_mem_singleton.mpr move⟩
      · intro o member apart
        have free := landed.open_ o member fun old listed => apart old (mem_append_left _ listed)
        rw [whole, mem_append, mem_cons] at free
        rw [edited, mem_append, mem_cons]
        rcases free with before | same | after
        · exact .inl before
        · exact absurd (content.symm.trans (congrArg FreshFile.checksum same.symm)) (apart e (by simp))
        · exact .inr (.inr after)
      · intro old member toPath moves
        rcases mem_append.mp member with before | now
        · exact mem_append_left _ (landed.found old before toPath moves)
        rw [mem_singleton.mp now] at moves ⊢
        rw [← show file.path = toPath from moves.unique' _ is_]
        simp
    · cases landed_on
  · next stays =>
    refine ⟨landed.files, by simp [landed.traced, Reconciliation.tracked], ?_, ?_, ?_, ?_⟩
    · rw [filterMap_append]
      exact (append_nil _).symm ▸ landed.placed
    · exact forall_mem_append.mpr ⟨landed.sound, forall_mem_singleton.mpr ⟨was, away⟩⟩
    · exact fun o member apart => landed.open_ o member fun old listed => apart old (mem_append_left _ listed)
    · intro old member toPath moves
      rcases mem_append.mp member with before | now
      · exact mem_append_left _ (landed.found old before toPath moves)
      rw [mem_singleton.mp now] at moves
      have unique := asked.mpr ⟨moves.unique, (countOf_eq_one distinct' moves.is).mpr moves.unique'⟩
      have free := landed.open_ _ (mem_fresh.mpr ⟨moves.is, moves.new⟩) fun old before same => next <| by
        have same : old.2 = e.2 := same
        rwa [Prod.ext (moves.unique old.1 (show (old.1, e.2) ∈ tracked from same ▸ within old before)) same] at before
      rw [if_pos unique, List.find?_eq_none] at stays
      exact absurd (by simp [landing]) (stays _ free)

theorem landed_moves (distinct : (tracked.map Prod.fst).Nodup) (distinct' : (observed.map Prod.fst).Nodup) :
    Landed tracked observed (gone tracked observed) (moves tracked observed) := by
  have begun : Landed tracked observed [] ((fresh tracked observed).map fun o => ⟨o.1, o.2, false⟩, []) := by
    refine ⟨(map_map ..).trans (map_id _), rfl, ?_, forall_mem_nil _,
      fun o member _ => mem_map_of_mem member, forall_mem_nil _⟩
    rw [filter_eq_self.mpr (forall_mem_map.mpr fun _ _ => rfl), map_map]
    exact List.Perm.refl _
  have nodup : (gone tracked observed).Nodup := (List.Nodup.of_map _ distinct).filter _
  rw [moves]
  suffices run : ∀ items, items.Nodup → (∀ e ∈ items, e ∈ gone tracked observed) →
      Landed tracked observed items (items.foldl (moveOrDelete (globallyUnique tracked observed))
        ((fresh tracked observed).map fun o => ⟨o.1, o.2, false⟩, [])) from run _ nodup fun _ member => member
  intro items distinct_items inside
  induction items using List.reverseRecOn with
  | nil => exact begun
  | append_singleton done e ih =>
    rw [nodup_append] at distinct_items
    rw [foldl_append]
    refine (ih distinct_items.1 fun old member => inside old (mem_append_left _ member)).step distinct distinct'
      (inside e (by simp)) (fun member => distinct_items.2.2 e member e (by simp) rfl) fun old member => ?_
    exact (mem_gone.mp (inside old (mem_append_left _ member))).1

theorem mem_shared {path : String} : path ∈ (tracked.filter fun e => !(observed.lookup e.1).isNone).map Prod.fst ↔
    path ∈ tracked.map Prod.fst ∧ path ∈ observed.map Prod.fst := by
  have seen : (!(observed.lookup path).isNone) = true ↔ path ∈ observed.map Prod.fst := by
    rw [Bool.not_eq_true', ← Bool.not_eq_true, Option.isNone_iff_eq_none, lookup_eq_none]
    simp [listed]
  rw [← seen, mem_map, mem_map]
  constructor
  · rintro ⟨e, kept, rfl⟩
    obtain ⟨member, found⟩ := mem_filter.mp kept
    exact ⟨⟨e, member, rfl⟩, found⟩
  · rintro ⟨⟨e, member, rfl⟩, found⟩
    exact ⟨e, mem_filter.mpr ⟨member, found⟩, rfl⟩

theorem kept_view {view : Reconciliation → Option String} (unchanged : ∀ path, view (.unchanged path) = some path)
    (modified : ∀ path sum fileSum, view (.modifiedOnDisk path sum fileSum) = some path) :
    (tracked.filterMap (keptEntry observed)).filterMap view =
      (tracked.filter fun e => !(observed.lookup e.1).isNone).map Prod.fst := by
  rw [filterMap_filterMap, ← filterMap_eq_map, filterMap_filter]
  refine filterMap_congr fun e _ => ?_
  rw [keptEntry]
  cases observed.lookup e.1 with
  | none => rfl
  | some fileSum => by_cases same : fileSum = e.2 <;> simp [same, unchanged, modified]

theorem keptEntry_holds (distinct' : (observed.map Prod.fst).Nodup) (member : e ∈ tracked) {entry : Reconciliation}
    (kept : keptEntry observed e = some entry) : entry.Holds (listed tracked) (listed observed) := by
  obtain ⟨fileSum, found, rfl⟩ := Option.map_eq_some_iff.mp kept
  have seen := (lookup_eq_some distinct').mp found
  split
  · next same => exact ⟨e.2, member, beq_iff_eq.mp same ▸ seen⟩
  · next other => exact ⟨member, seen, fun same => other (beq_iff_eq.mpr same)⟩

/-- The entries account for every tracked and every observed path once. -/
theorem classify_partition (distinct : (tracked.map Prod.fst).Nodup) (distinct' : (observed.map Prod.fst).Nodup) :
    ((classify tracked observed).filterMap Reconciliation.tracked).Perm (tracked.map Prod.fst) ∧
    ((classify tracked observed).filterMap Reconciliation.observed).Perm (observed.map Prod.fst) ∧
    (∀ entry ∈ classify tracked observed, entry.Holds (listed tracked) (listed observed)) ∧
    ∀ fromPath toPath sum, Moves (listed tracked) (listed observed) fromPath toPath sum →
      .moved fromPath toPath sum ∈ classify tracked observed := by
  have landed := landed_moves distinct distinct'
  refine ⟨?_, ?_, ?_, ?_⟩
  · have none_new : (((moves tracked observed).1.filter fun file => !file.used).map fun file =>
        Reconciliation.newOnDisk file.path file.checksum).filterMap Reconciliation.tracked = [] :=
      filterMap_eq_nil_iff.mpr (forall_mem_map.mpr fun _ _ => rfl)
    rw [classify, filterMap_append, filterMap_append, none_new, append_nil, landed.traced,
      kept_view (fun _ => rfl) fun _ _ _ => rfl, ← map_append, gone]
    exact (perm_append_comm.trans (filter_append_perm ..)).map _
  · have news : (((moves tracked observed).1.filter fun file => !file.used).map fun file =>
        Reconciliation.newOnDisk file.path file.checksum).filterMap Reconciliation.observed =
          ((moves tracked observed).1.filter fun file => !file.used).map FreshFile.path := by
      rw [filterMap_map, ← filterMap_eq_map]
      rfl
    rw [classify, filterMap_append, filterMap_append, news, kept_view (fun _ => rfl) fun _ _ _ => rfl,
      append_assoc]
    have both : ((tracked.filter fun e => !(observed.lookup e.1).isNone).map Prod.fst).Perm
        ((observed.filter fun o => !(tracked.lookup o.1).isNone).map Prod.fst) := by
      refine (perm_ext_iff_of_nodup ((filter_sublist.map _).nodup distinct)
        ((filter_sublist.map _).nodup distinct')).mpr fun path => ?_
      rw [mem_shared, mem_shared, and_comm]
    refine (both.append landed.placed).trans ?_
    rw [← map_append, fresh]
    exact (perm_append_comm.trans (filter_append_perm ..)).map _
  · simp only [classify, forall_mem_append, forall_mem_map]
    refine ⟨⟨fun entry member => ?_, landed.sound⟩, fun file member => ?_⟩
    · obtain ⟨e, listed, kept⟩ := mem_filterMap.mp member
      exact keptEntry_holds distinct' listed kept
    · refine mem_fresh.mp (landed.files ▸ ?_)
      exact mem_map_of_mem (mem_of_mem_filter member)
  · intro fromPath toPath sum move
    rw [classify, mem_append, mem_append]
    exact .inl (.inr (landed.found _ (mem_gone.mpr ⟨move.was, move.away⟩) _ move))

theorem listed_congr (same : observed.Perm tracked) : listed observed = listed tracked :=
  funext₂ fun _ _ => propext same.mem_iff

end

section
variable {tracked : List (String × String)} {observed : List ObservedFile}

/-- Every tracked and every observed path is accounted for once, by a true entry; a move is reported where the
content is unique on both sides. -/
theorem reconcile_partition (distinct : (tracked.map Prod.fst).Nodup)
    (distinct' : (observed.map ObservedFile.path).Nodup) :
    let was := listed tracked
    let is := listed (observed.map ObservedFile.entry)
    ((reconcile tracked observed).filterMap Reconciliation.tracked).Perm (tracked.map Prod.fst) ∧
    ((reconcile tracked observed).filterMap Reconciliation.observed).Perm (observed.map ObservedFile.path) ∧
    (∀ entry ∈ reconcile tracked observed, entry.Holds was is) ∧
    (∀ fromPath toPath sum, .moved fromPath toPath sum ∈ reconcile tracked observed ↔
      Moves was is fromPath toPath sum) ∧
    ∀ tracked' observed', tracked'.Perm tracked → observed'.Perm observed →
      reconcile tracked' observed' = reconcile tracked observed := by
  intro was is
  have paths : (observed.map ObservedFile.entry).map Prod.fst = observed.map ObservedFile.path := map_map ..
  rw [← paths] at distinct' ⊢
  have sides := byPath_perm distinct
  have sides' := byPath_perm distinct'
  obtain ⟨traced, seen, sound, found⟩ := classify_partition ((sides.map _).nodup_iff.mpr distinct)
    ((sides'.map _).nodup_iff.mpr distinct')
  rw [listed_congr sides, listed_congr sides'] at sound found
  have sorted := perm_insertionSort Reconciliation.sortsBefore
    (classify (byPath tracked) (byPath (observed.map ObservedFile.entry)))
  refine ⟨(sorted.filterMap _).trans (traced.trans (sides.map _)), (sorted.filterMap _).trans
      (seen.trans (sides'.map _)),
    fun entry member => sound entry (sorted.mem_iff.mp member), fun fromPath toPath sum => ?_, ?_⟩
  · exact sorted.mem_iff.trans ⟨sound _, found _ _ _⟩
  · intro tracked' observed' same same'
    rw [reconcile, byPath_congr distinct same, byPath_congr distinct' (same'.map _)]
    rfl

end

/-- A copy that is still in place hides the move of another. -/
theorem copy_hides_move :
    reconcile [("a", "c"), ("k", "c")] [⟨"k", "c"⟩, ⟨"b", "c"⟩] =
      [.deletedOnDisk "a" "c", .newOnDisk "b" "c", .unchanged "k"] := by
  decide +kernel

theorem move_reported : Reconciliation.moved "a" "b" "c" ∈ reconcile [("a", "c")] [⟨"b", "c"⟩] :=
  ((reconcile_partition (by decide) (by decide)).2.2.2.1 "a" "b" "c").mpr
    ⟨by simp [listed], by simp [listed, ObservedFile.entry], by simp [listed, ObservedFile.entry], by simp [listed],
      by simp [listed], by simp [listed, ObservedFile.entry]⟩

end Agent24.Memory
