import Agent24.Documents.Ground
import Agent24.Library.Grouped
import Mathlib.Data.Prod.Lex

/-! One field's value from what every window said of it. Claims with the same normal form (or, without one, the same
wording) are one value; one value is `present`, several a `conflict` never resolved, none `missing`. -/

set_option autoImplicit false
namespace Agent24.Documents
open Library Agent24.TextLayer

def MAX_ANCHORS : Nat := 16

/-- Why a value that has evidence shows none: it would not fit a page. -/
def TOO_LARGE : String := "its evidence is too large to keep"

/-- Where in the document a value stands: its first anchor's block and offset, or, without anchors, the end of the first
block the window was shown. -/
abbrev Place : Type := Nat ×ₗ Nat

/-- A value one window asserts, its evidence grounded or why not. -/
structure Claim (κ : Type) where
  value : String
  normalized : String
  anchors : Except String (List (Anchor κ))
  place : Place

inductive Said (κ : Type) where
  | values (claims : List (Claim κ))
  | missing (reason : String)

section
variable {κ : Type} [LinearOrder κ] [Zero κ] (P : Platform) (src : Source κ) (window : Window)

/-- `u64::MAX`. -/
def endOfBlock : Nat := 2 ^ 64 - 1

def claimOf (value normalized : String) (evidence : List Evidence) : Claim κ :=
  let anchors := src.ground P window value evidence
  let anchored := (anchors.toOption.bind List.head?).bind fun a =>
    (src.layer.blocks.findIdx? fun b => b.blockId == a.blockId).map fun block => toLex (block, a.textRange.start)
  ⟨value, normalized, anchors, anchored.getD (toLex (window.head?.getD 0, endOfBlock))⟩

def saidOf (a : AnswerValue) : Said κ :=
  match a.status with
  | .present => .values [claimOf P src window a.value a.normalized a.evidence]
  | .conflict => .values (a.candidates.map fun c => claimOf P src window c.value c.normalized c.evidence)
  | .missing => .missing a.missingReason

end

section
variable {κ : Type}

def comparedOn (claim : Claim κ) : String := if claim.normalized = "" then claim.value else claim.normalized

/-- Claims that are one value: the key they share, the first wording, the first normal form any gave, and evidence from
each window that grounded it, whole, while it fits. -/
structure Group (κ : Type) where
  place : Place
  key : String
  value : String
  normalized : String
  anchors : List (Anchor κ)
  unsourced : Option String

variable [DecidableEq κ]

def fresh (held set : List (Anchor κ)) : List (Anchor κ) :=
  set.foldl (fun new a => if a ∈ held ∨ a ∈ new then new else new ++ [a]) []

def Group.add (g : Group κ) (claim : Claim κ) : Group κ :=
  let g := { g with
    place := min g.place claim.place
    normalized := if g.normalized = "" then claim.normalized else g.normalized }
  match claim.anchors with
  | .ok set =>
    let new := fresh g.anchors set
    if g.anchors.length + new.length ≤ MAX_ANCHORS then { g with anchors := g.anchors ++ new } else g
  | .error why => { g with unsourced := some (g.unsourced.getD why) }

def Group.of (claim : Claim κ) : Group κ :=
  Group.add ⟨claim.place, comparedOn claim, claim.value, "", [], none⟩ claim

def Group.evidence (g : Group κ) : List (Anchor κ) × Option String :=
  if g.anchors.isEmpty then ([], some (g.unsourced.getD TOO_LARGE)) else (g.anchors, none)

/-- A field's merged value, and how many values past the first eight in document order were left out. -/
structure Merged (κ : Type) where
  value : ExtractedValue κ
  dropped : Nat

def Said.claims : Said κ → List (Claim κ)
  | .values claims => claims
  | .missing _ => []

@[simp] theorem Group.add_key (g : Group κ) (claim : Claim κ) : (g.add claim).key = g.key := by
  unfold add
  cases claim.anchors with
  | error => rfl
  | ok set =>
    simp only
    split <;> rfl

def gathering : Grouped.Gathering (Claim κ) (Group κ) String where
  key := comparedOn
  name := Group.key
  first := Group.of
  add := Group.add
  name_first _ := Group.add_key ..
  name_add := Group.add_key

def specific : String → Option MissingReason
  | "blank_in_template" => some .blankInTemplate
  | "referenced_but_absent" => some .referencedButAbsent
  | "outside_page_scope" => some .outsidePageScope
  | _ => none

/-- Why a field is missing: the first specific reason of a window; `unread` where the layer cannot show absence. -/
def missing (said : List (Said κ)) (unreadRegions : Bool) : MissingReason :=
  let given := said.findSome? fun s =>
    match s with
    | .missing r => specific r
    | .values _ => none
  let reason := given.getD .notInDocument
  if unreadRegions && (reason == .notInDocument || reason == .referencedButAbsent) then .unread else reason

def Group.candidate (g : Group κ) : Candidate κ := ⟨g.value, g.key, g.evidence.1, g.evidence.2⟩

def assembled (key : String) (said : List (Said κ)) (unreadRegions : Bool) : List (Group κ) → ExtractedValue κ
  | [] => ⟨key, .missing, none, none, none, none, some (missing said unreadRegions), none⟩
  | [g] =>
    let normalized := if g.normalized = "" then none else some g.normalized
    ⟨key, .present, some g.value, normalized, some g.evidence.1, g.evidence.2, none, none⟩
  | g :: g' :: rest => ⟨key, .conflict, none, none, none, none, none, some ((g :: g' :: rest).map Group.candidate)⟩

def Candidate.dropAnchors (c : Candidate κ) : Candidate κ :=
  if c.anchors.isEmpty then c else { c with anchors := [], unsourcedReason := some TOO_LARGE }

def ExtractedValue.dropAnchors (v : ExtractedValue κ) : ExtractedValue κ :=
  let v := if v.anchors.any fun a => !a.isEmpty then
      { v with anchors := some [], unsourcedReason := some TOO_LARGE } else v
  { v with candidates := v.candidates.map (·.map Candidate.dropAnchors) }

def groups (said : List (Said κ)) : List (Group κ) :=
  -- sorting is stable: values at one place stay in the order they were first said
  (Grouped.gather gathering (said.flatMap Said.claims)).insertionSort fun g g' => g.place ≤ g'.place

variable (print : κ → String)

def fits (maxBytes : Nat) (v : ExtractedValue κ) : Bool := (v.json print).render.utf8ByteSize ≤ maxBytes

/-- The value of field `key` from what each window said. A value over `maxBytes` serialized keeps its values and
candidates but drops their anchors. -/
def merge (key : String) (said : List (Said κ)) (unreadRegions : Bool) (maxBytes : Nat) : Except String (Merged κ) :=
  let all := groups said
  let dropped := all.length - MAX_CANDIDATES
  -- document order: the first eight are kept, the rest counted
  let v := assembled key said unreadRegions (all.take MAX_CANDIDATES)
  if fits print maxBytes v then .ok ⟨v, dropped⟩
  else if fits print maxBytes v.dropAnchors then .ok ⟨v.dropAnchors, dropped⟩
  else .error s!"{key}: over {maxBytes} bytes even without its anchors"

variable {print}

theorem fresh_spec (held set : List (Anchor κ)) : (fresh held set).Nodup ∧ ∀ a ∈ fresh held set, a ∉ held := by
  have step (set new : List (Anchor κ)) (apart : new.Nodup ∧ ∀ a ∈ new, a ∉ held) :
      (set.foldl (fun new a => if a ∈ held ∨ a ∈ new then new else new ++ [a]) new).Nodup ∧
        ∀ a ∈ set.foldl (fun new a => if a ∈ held ∨ a ∈ new then new else new ++ [a]) new, a ∉ held := by
    induction set generalizing new with
    | nil => exact apart
    | cons a set ih =>
      rw [List.foldl_cons]
      apply ih
      split
      · exact apart
      rename_i other
      rw [not_or] at other
      refine ⟨List.nodup_append.mpr ⟨apart.1, List.nodup_singleton a, ?_⟩, fun b member => ?_⟩
      · intro b member c last same
        exact other.2 (List.mem_singleton.mp last ▸ same ▸ member)
      · rcases List.mem_append.mp member with before | last
        · exact apart.2 b before
        · exact List.mem_singleton.mp last ▸ other.1
  exact step set [] ⟨List.nodup_nil, fun a member => absurd member List.not_mem_nil⟩

theorem Group.add_place (g : Group κ) (claim : Claim κ) : (g.add claim).place = min g.place claim.place := by
  unfold add
  cases claim.anchors with
  | error => rfl
  | ok set =>
    simp only
    split <;> rfl

theorem Group.add_value (g : Group κ) (claim : Claim κ) : (g.add claim).value = g.value := by
  unfold add
  cases claim.anchors with
  | error => rfl
  | ok set =>
    simp only
    split <;> rfl

theorem Group.add_normalized (g : Group κ) (claim : Claim κ) :
    (g.add claim).normalized = if g.normalized = "" then claim.normalized else g.normalized := by
  unfold add
  cases claim.anchors with
  | error => rfl
  | ok set =>
    simp only
    split <;> rfl

def Held (anchors : List (Anchor κ)) : Prop := anchors.Nodup ∧ anchors.length ≤ MAX_ANCHORS

variable {g : Group κ}

theorem Group.add_anchors (held : Held g.anchors) (claim : Claim κ) : Held (g.add claim).anchors := by
  unfold add
  cases claim.anchors with
  | error => exact held
  | ok set =>
    simp only
    split
    · rename_i fits
      obtain ⟨distinct, apart⟩ := fresh_spec g.anchors set
      refine ⟨List.nodup_append.mpr ⟨held.1, distinct, ?_⟩, ?_⟩
      · intro a before b after same
        exact apart b after (same ▸ before)
      · rwa [List.length_append]
    · exact held

structure GroupOf (taken : List (Claim κ)) (g : Group κ) : Prop where
  place : IsLeast {p | ∃ c ∈ taken, c.place = p} g.place
  wording : taken.head?.map Claim.value = some g.value
  named : g.key = if g.normalized = "" then g.value else g.normalized
  held : Held g.anchors

theorem groupOf_first (claim : Claim κ) : GroupOf [claim] (Group.of claim) where
  place := by
    rw [Group.of, Group.add_place, min_self]
    exact ⟨⟨claim, List.mem_singleton_self _, rfl⟩, fun p ⟨c, member, same⟩ =>
      same ▸ (List.mem_singleton.mp member ▸ le_rfl)⟩
  wording := by
    rw [Group.of, Group.add_value]
    rfl
  named := by
    rw [Group.of, Group.add_key, Group.add_value, Group.add_normalized, if_pos rfl]
    rfl
  held := Group.add_anchors ⟨List.nodup_nil, Nat.zero_le _⟩ claim

theorem groupOf_add {taken : List (Claim κ)} {claim : Claim κ} (groupOf : GroupOf taken g)
    (same : g.key = comparedOn claim) : GroupOf (taken ++ [claim]) (g.add claim) where
  place := by
    rw [Group.add_place]
    obtain ⟨⟨c, member, least⟩, below⟩ := groupOf.place
    constructor
    · rcases le_total g.place claim.place with before | after
      · exact ⟨c, List.mem_append_left _ member, by rw [min_eq_left before, least]⟩
      · exact ⟨claim, List.mem_append_right _ (List.mem_singleton_self _), by rw [min_eq_right after]⟩
    · rintro p ⟨c', member', rfl⟩
      rcases List.mem_append.mp member' with before | last
      · exact (min_le_left ..).trans (below ⟨c', before, rfl⟩)
      · exact List.mem_singleton.mp last ▸ min_le_right ..
  wording := by
    rw [Group.add_value, ← groupOf.wording]
    cases taken with
    | nil => cases groupOf.wording
    | cons c taken => rfl
  named := by
    rw [Group.add_key, Group.add_value, Group.add_normalized]
    by_cases none_ : g.normalized = ""
    · have named := groupOf.named
      rw [if_pos none_] at named ⊢
      split
      · exact named
      · rename_i some_
        rw [same, comparedOn, if_neg some_]
    · rw [if_neg none_, if_neg none_, groupOf.named, if_neg none_]
  held := Group.add_anchors groupOf.held claim

section
variable (said : List (Said κ))

def claimsOf : List (Claim κ) := said.flatMap Said.claims

def valuesOf : Finset String := ((claimsOf said).map comparedOn).toFinset

def Stands (k : String) (p : Place) : Prop :=
  IsLeast {p | ∃ c ∈ claimsOf said, comparedOn c = k ∧ c.place = p} p

theorem groups_perm : (groups said).Perm (Grouped.gather gathering (claimsOf said)) :=
  List.perm_insertionSort ..

theorem groups_sorted : (groups said).Pairwise fun g g' => g.place ≤ g'.place :=
  List.pairwise_insertionSort (r := fun g g' : Group κ => g.place ≤ g'.place) _

theorem groups_keys : ((groups said).map Group.key).Nodup :=
  ((groups_perm said).map Group.key).nodup_iff.mpr (Grouped.names_nodup (G := gathering) _)

end

omit [DecidableEq κ] in
theorem mem_valuesOf {said : List (Said κ)} {k : String} : k ∈ valuesOf said ↔ ∃ c ∈ claimsOf said,
    comparedOn c = k := by
  rw [valuesOf, List.mem_toFinset, List.mem_map]

theorem mem_groups_keys {said : List (Said κ)} {k : String} : k ∈ (groups said).map Group.key ↔
    k ∈ valuesOf said := by
  rw [mem_valuesOf, ((groups_perm said).map Group.key).mem_iff]
  exact Grouped.mem_names (G := gathering) _ k

theorem length_groups (said : List (Said κ)) : (groups said).length = (valuesOf said).card := by
  have same : ((groups said).map Group.key).toFinset = valuesOf said := by
    ext k
    rw [List.mem_toFinset, mem_groups_keys]
  rw [← same, List.toFinset_card_of_nodup (groups_keys said), List.length_map]

theorem group_groupOf {said : List (Said κ)} (member : g ∈ groups said) :
    GroupOf ((claimsOf said).filter fun c => decide (comparedOn c = g.key)) g :=
  Grouped.gather_rule (G := gathering) GroupOf groupOf_first (fun _ _ _ groupOf same => groupOf_add groupOf same) _ g
    ((groups_perm said).mem_iff.mp member)

theorem group_stands {said : List (Said κ)} (member : g ∈ groups said) : Stands said g.key g.place := by
  have least := (group_groupOf member).place
  have same : {p | ∃ c ∈ (claimsOf said).filter fun c => decide (comparedOn c = g.key), c.place = p} =
      {p | ∃ c ∈ claimsOf said, comparedOn c = g.key ∧ c.place = p} := by
    ext p
    simp [List.mem_filter, and_assoc]
  rwa [same] at least

def kept (said : List (Said κ)) : List (Group κ) := (groups said).take MAX_CANDIDATES

theorem kept_keys (said : List (Said κ)) : ((kept said).map Group.key).Nodup :=
  (groups_keys said).sublist ((List.take_sublist ..).map Group.key)

theorem kept_mem {said : List (Said κ)} (member : g ∈ kept said) : g ∈ groups said :=
  List.mem_of_mem_take member

theorem length_kept (said : List (Said κ)) : (kept said).length = min MAX_CANDIDATES (valuesOf said).card := by
  rw [kept, List.length_take, length_groups]

theorem kept_before {said : List (Said κ)} {g' : Group κ} (here : g ∈ kept said) (there : g' ∈ groups said)
    (out : g' ∉ kept said) : g.place ≤ g'.place := by
  have sorted := groups_sorted said
  rw [← List.take_append_drop MAX_CANDIDATES (groups said), List.pairwise_append] at sorted
  rw [← List.take_append_drop MAX_CANDIDATES (groups said)] at there
  exact sorted.2.2 g here g' ((List.mem_append.mp there).resolve_left out)

end

section
variable {κ : Type}

def ExtractedValue.keys (v : ExtractedValue κ) : List String :=
  match v.status with
  | .present => [v.normalized.getD (v.value.getD "")]
  | .conflict => (v.candidates.getD []).map Candidate.normalized
  | .missing => []

def ExtractedValue.anchorSets (v : ExtractedValue κ) : List (List (Anchor κ)) :=
  v.anchors.toList ++ (v.candidates.getD []).map Candidate.anchors

section
variable (key : String)

section
variable (said : List (Said κ))

theorem assembled_keys (unread : Bool) {gs : List (Group κ)}
    (named : ∀ g ∈ gs, g.key = if g.normalized = "" then g.value else g.normalized) :
    (assembled key said unread gs).keys = gs.map Group.key := by
  cases gs with
  | nil => rfl
  | cons g rest =>
    cases rest with
    | nil =>
      rw [List.map_cons, named g List.mem_cons_self]
      simp only [assembled, ExtractedValue.keys, Option.getD_some, List.map_nil]
      split <;> rfl
    | cons g' rest =>
      simp [assembled, ExtractedValue.keys, Group.candidate]

theorem assembled_status (unread : Bool) (gs : List (Group κ)) :
    (assembled key said unread gs).status =
      if gs.length = 0 then .missing else if gs.length = 1 then .present else .conflict := by
  cases gs with
  | nil => rfl
  | cons g rest =>
    cases rest with
    | nil => rfl
    | cons g' rest => simp [assembled]

theorem Group.evidence_held {g : Group κ} (held : Held g.anchors) : Held g.evidence.1 := by
  unfold evidence
  split
  · exact ⟨List.nodup_nil, Nat.zero_le _⟩
  · exact held

theorem assembled_held (unread : Bool) {gs : List (Group κ)} (held : ∀ g ∈ gs, Held g.anchors) : ∀ set ∈ (assembled key said unread gs).anchorSets, Held set := by
  cases gs with
  | nil => exact fun set member => absurd member List.not_mem_nil
  | cons g rest =>
    cases rest with
    | nil =>
      intro set member
      obtain rfl : set = g.evidence.1 := by simpa [assembled, ExtractedValue.anchorSets] using member
      exact Group.evidence_held (held g List.mem_cons_self)
    | cons g' rest =>
      intro set member
      have listed : set ∈ ((g :: g' :: rest).map Group.candidate).map Candidate.anchors := member
      rw [List.map_map] at listed
      obtain ⟨g, inGroups, rfl⟩ := List.mem_map.mp listed
      exact Group.evidence_held (held g inGroups)

theorem assembled_reason (gs : List (Group κ)) :
    (assembled key said true gs).missingReason ≠ some .notInDocument ∧
      (assembled key said true gs).missingReason ≠ some .referencedButAbsent := by
  cases gs with
  | nil =>
    simp only [assembled, missing, Bool.true_and, Bool.or_eq_true, beq_iff_eq, ne_eq, Option.some.injEq]
    split
    · exact ⟨by decide, by decide⟩
    · rename_i other
      exact not_or.mp other
  | cons g rest => cases rest <;> exact ⟨by simp [assembled], by simp [assembled]⟩

theorem assembled_candidates (unread : Bool) (gs : List (Group κ)) (cs : List (Candidate κ))
    (some_ : (assembled key said unread gs).candidates = some cs) :
    cs.map (fun c => (c.value, c.normalized)) = gs.map fun g => (g.value, g.key) := by
  cases gs with
  | nil => cases some_
  | cons g rest =>
    cases rest with
    | nil => cases some_
    | cons g' rest =>
      cases some_
      simp [Group.candidate]

end

end

theorem Candidate.dropAnchors_value (c : Candidate κ) : c.dropAnchors.value = c.value := by
  unfold dropAnchors
  split <;> rfl

theorem Candidate.dropAnchors_normalized (c : Candidate κ) : c.dropAnchors.normalized = c.normalized := by
  unfold dropAnchors
  split <;> rfl

theorem Candidate.dropAnchors_anchors (c : Candidate κ) : c.dropAnchors.anchors = [] := by
  unfold dropAnchors
  split
  · exact List.isEmpty_iff.mp ‹_›
  · rfl

namespace ExtractedValue
variable (v : ExtractedValue κ)

theorem dropAnchors_status : v.dropAnchors.status = v.status := by
  unfold dropAnchors
  split <;> rfl

theorem dropAnchors_missingReason : v.dropAnchors.missingReason = v.missingReason := by
  unfold dropAnchors
  split <;> rfl

theorem dropAnchors_candidates : v.dropAnchors.candidates = v.candidates.map (·.map Candidate.dropAnchors) := by
  unfold dropAnchors
  split <;> rfl

theorem dropAnchors_keys : v.dropAnchors.keys = v.keys := by
  have value : v.dropAnchors.value = v.value := by
    unfold dropAnchors
    split <;> rfl
  have normalized : v.dropAnchors.normalized = v.normalized := by
    unfold dropAnchors
    split <;> rfl
  unfold keys
  rw [dropAnchors_status, value, normalized, dropAnchors_candidates]
  cases v.candidates with
  | none => rfl
  | some candidates =>
    have same : Candidate.normalized ∘ Candidate.dropAnchors = Candidate.normalized (κ := κ) :=
      funext Candidate.dropAnchors_normalized
    simp [List.map_map, same]

theorem dropAnchors_anchors (set : List (Anchor κ)) (member : set ∈ v.dropAnchors.anchors) : set = [] := by
  unfold dropAnchors at member
  split at member
  · exact (Option.mem_some.mp member).symm
  rename_i none_
  have held : v.anchors = some set := member
  rw [held, Option.any_some, Bool.not_eq_true, Bool.not_eq_false'] at none_
  exact List.isEmpty_iff.mp none_

theorem dropAnchors_anchorSets : ∀ set ∈ v.dropAnchors.anchorSets, set = [] := by
  intro set member
  rcases List.mem_append.mp member with own | candidate
  · exact v.dropAnchors_anchors set (Option.mem_toList.mp own)
  rw [dropAnchors_candidates] at candidate
  cases held : v.candidates with
  | none =>
    rw [held] at candidate
    exact absurd candidate List.not_mem_nil
  | some candidates =>
    rw [held, Option.map_some, Option.getD_some, List.map_map] at candidate
    obtain ⟨c, -, rfl⟩ := List.mem_map.mp candidate
    exact c.dropAnchors_anchors

end ExtractedValue

end

section
variable {κ : Type} [DecidableEq κ] {print : κ → String} {key : String} {said : List (Said κ)} {unread : Bool}
  {maxBytes : Nat}

structure Assembled (print : κ → String) (key : String) (said : List (Said κ)) (unread : Bool) (maxBytes : Nat)
    (m : Merged κ) : Prop where
  dropped : m.dropped = (groups said).length - MAX_CANDIDATES
  fits : fits print maxBytes m.value = true
  status : m.value.status = (assembled key said unread (kept said)).status
  keys : m.value.keys = (kept said).map Group.key
  reason : m.value.missingReason = (assembled key said unread (kept said)).missingReason
  candidates : ∀ cs, m.value.candidates = some cs →
    cs.map (fun c => (c.value, c.normalized)) = (kept said).map fun g => (g.value, g.key)
  held : ∀ set ∈ m.value.anchorSets, Held set

variable {m : Merged κ}

theorem merge_assembled (ok : merge print key said unread maxBytes = .ok m) :
    Assembled print key said unread maxBytes m := by
  have keys : (assembled key said unread (kept said)).keys = (kept said).map Group.key :=
    assembled_keys key said unread fun g member => (group_groupOf (kept_mem member)).named
  unfold merge at ok
  simp only at ok
  split at ok
  · rename_i fits_
    cases ok
    refine ⟨rfl, fits_, rfl, keys, rfl, assembled_candidates key said unread (kept said), ?_⟩
    exact assembled_held key said unread fun g member => (group_groupOf (kept_mem member)).held
  · split at ok
    · rename_i fits_
      cases ok
      refine ⟨rfl, fits_, ExtractedValue.dropAnchors_status _, (ExtractedValue.dropAnchors_keys _).trans keys,
        ExtractedValue.dropAnchors_missingReason _, fun cs some_ => ?_, fun set member => ?_⟩
      · rw [ExtractedValue.dropAnchors_candidates] at some_
        obtain ⟨cs, before, rfl⟩ := Option.map_eq_some_iff.mp some_
        rw [← assembled_candidates key said unread (kept said) cs before, List.map_map]
        exact List.map_congr_left fun c _ => Prod.ext c.dropAnchors_value c.dropAnchors_normalized
      · rw [ExtractedValue.dropAnchors_anchorSets _ set member]
        exact ⟨List.nodup_nil, Nat.zero_le _⟩
    · cases ok

section
variable (assembled : Assembled print key said unread maxBytes m)
include assembled

theorem Assembled.status_eq :
    m.value.status = if (valuesOf said).card = 0 then .missing else if (valuesOf said).card = 1 then .present
      else .conflict := by
  rw [assembled.status, assembled_status, length_kept]
  have eight : MAX_CANDIDATES = 8 := rfl
  split
  · rw [if_pos (by omega)]
  split
  · rw [if_neg (by omega), if_pos (by omega)]
  · rw [if_neg (by omega), if_neg (by omega)]

theorem status_missing_iff :
    m.value.status = .missing ↔ (valuesOf said).card = 0 := by
  rw [assembled.status_eq]
  split
  · simp [*]
  · split <;> simp [*]

theorem status_present_iff :
    m.value.status = .present ↔ (valuesOf said).card = 1 := by
  rw [assembled.status_eq]
  split
  · simp [*]
  · split <;> simp [*]

theorem status_conflict_iff :
    m.value.status = .conflict ↔ 1 < (valuesOf said).card := by
  rw [assembled.status_eq]
  split
  · simp [*]
  split
  · simp [*]
  · exact iff_of_true rfl (by omega)

theorem Assembled.dropped_eq :
    m.dropped = (valuesOf said).card - MAX_CANDIDATES := by rw [assembled.dropped, length_groups]

end

omit [DecidableEq κ] in
theorem valuesOf_perm {said' : List (Said κ)} (order : said.Perm said') : valuesOf said = valuesOf said' := by
  ext k
  have claims : (claimsOf said).Perm (claimsOf said') := order.flatMap_right _
  rw [mem_valuesOf, mem_valuesOf]
  simp only [claims.mem_iff]

omit [DecidableEq κ] in
theorem stands_perm {said' : List (Said κ)} (order : said.Perm said') {k : String} {p : Place} :
    Stands said k p ↔ Stands said' k p := by
  have claims : (claimsOf said).Perm (claimsOf said') := order.flatMap_right _
  unfold Stands
  simp only [claims.mem_iff]

def Apart (said : List (Said κ)) (keys : List String) : Prop :=
  ∀ k ∈ keys, ∀ k' ∈ valuesOf said, k' ∉ keys → ∀ p, ¬ (Stands said k p ∧ Stands said k' p)

theorem kept_order {k k' : String} (here : k ∈ (kept said).map Group.key) (there : k' ∈ valuesOf said)
    (out : k' ∉ (kept said).map Group.key) {p p' : Place} (first : Stands said k p) (first' : Stands said k' p') :
    p ≤ p' := by
  obtain ⟨g, inKept, rfl⟩ := List.mem_map.mp here
  obtain ⟨g', inGroups, rfl⟩ := List.mem_map.mp (mem_groups_keys.mpr there)
  have before := kept_before inKept inGroups fun kept' => out (List.mem_map_of_mem kept')
  rwa [(group_stands (kept_mem inKept)).unique first, (group_stands inGroups).unique first'] at before

theorem kept_perm {said' : List (Said κ)} (order : said.Perm said') (apart : Apart said ((kept said).map Group.key))
    (k : String) : k ∈ (kept said).map Group.key ↔ k ∈ (kept said').map Group.key := by
  have values := valuesOf_perm order
  have count : ((kept said).map Group.key).toFinset.card = ((kept said').map Group.key).toFinset.card := by
    rw [List.toFinset_card_of_nodup (kept_keys said), List.toFinset_card_of_nodup (kept_keys said'), List.length_map,
      List.length_map, length_kept, length_kept, values]
  have inside : ((kept said).map Group.key).toFinset ⊆ ((kept said').map Group.key).toFinset := by
    intro k here
    by_contra out
    -- As many are kept in either order, so another value took its place.
    have other : ∃ k' ∈ ((kept said').map Group.key).toFinset, k' ∉ ((kept said).map Group.key).toFinset := by
      by_contra none_
      simp only [not_exists, not_and, not_not] at none_
      exact out ((Finset.eq_of_subset_of_card_le none_ count.le).symm ▸ here)
    obtain ⟨k', here', out'⟩ := other
    rw [List.mem_toFinset] at here out here' out'
    have value : k ∈ valuesOf said := mem_groups_keys.mp (((List.take_sublist ..).map Group.key).subset here)
    have value' : k' ∈ valuesOf said' := mem_groups_keys.mp (((List.take_sublist ..).map Group.key).subset here')
    obtain ⟨g, inGroups, rfl⟩ := List.mem_map.mp (mem_groups_keys.mpr value)
    obtain ⟨g', inGroups', rfl⟩ := List.mem_map.mp (mem_groups_keys.mpr value')
    have stands := group_stands inGroups
    have stands' := group_stands inGroups'
    have before := kept_order here (values ▸ value') out' stands ((stands_perm order).mpr stands')
    have after := kept_order here' (values ▸ value) out stands' ((stands_perm order).mp stands)
    exact apart _ here _ (values ▸ value') out' _ ⟨stands, le_antisymm before after ▸ (stands_perm order).mpr stands'⟩
  rw [← List.mem_toFinset, Finset.eq_of_subset_of_card_le inside count.ge, List.mem_toFinset]

end

structure Merging {κ : Type} [DecidableEq κ] (print : κ → String) (key : String) (said : List (Said κ))
    (unread : Bool)
    (maxBytes : Nat) : Prop where
  missing : ∀ m, merge print key said unread maxBytes = .ok m → (m.value.status = .missing ↔ claimsOf said = [])
  present : ∀ m, merge print key said unread maxBytes = .ok m → (m.value.status = .present ↔
    claimsOf said ≠ [] ∧ ∀ c ∈ claimsOf said, ∀ c' ∈ claimsOf said, comparedOn c = comparedOn c')
  conflict : ∀ m, merge print key said unread maxBytes = .ok m → (m.value.status = .conflict ↔
    ∃ c ∈ claimsOf said, ∃ c' ∈ claimsOf said, comparedOn c ≠ comparedOn c')
  /-- The values kept are values claimed, each once. -/
  distinct : ∀ m, merge print key said unread maxBytes = .ok m →
    m.value.keys.Nodup ∧ ∀ k ∈ m.value.keys, ∃ c ∈ claimsOf said, comparedOn c = k
  inOrder : ∀ m, merge print key said unread maxBytes = .ok m →
    m.value.keys.Pairwise fun k k' => ∀ p p', Stands said k p → Stands said k' p' → p ≤ p'
  rest : ∀ m, merge print key said unread maxBytes = .ok m → ∀ k ∈ m.value.keys, ∀ k' ∈ valuesOf said,
    k' ∉ m.value.keys → ∀ p p', Stands said k p → Stands said k' p' → p ≤ p'
  counted : ∀ m, merge print key said unread maxBytes = .ok m →
    m.value.keys.length ≤ MAX_CANDIDATES ∧ m.value.keys.length + m.dropped = (valuesOf said).card
  anchors : ∀ m, merge print key said unread maxBytes = .ok m → ∀ set ∈ m.value.anchorSets, Held set
  fits : ∀ m, merge print key said unread maxBytes = .ok m → (m.value.json print).render.utf8ByteSize ≤ maxBytes
  read : ∀ m, merge print key said unread maxBytes = .ok m → unread = true →
    m.value.missingReason ≠ some .notInDocument ∧ m.value.missingReason ≠ some .referencedButAbsent
  /-- The order of the windows is not seen in the verdict, nor in the values kept where none left out stands with one of
  them. -/
  order : ∀ m said' m', merge print key said unread maxBytes = .ok m → said.Perm said' →
    merge print key said' unread maxBytes = .ok m' → m.value.status = m'.value.status ∧ m.dropped = m'.dropped ∧
      (Apart said m.value.keys → ∀ k, k ∈ m.value.keys ↔ k ∈ m'.value.keys)

theorem merge_verdict {κ : Type} [DecidableEq κ] (print : κ → String) (key : String) (said : List (Said κ))
    (unread : Bool)
    (maxBytes : Nat) : Merging print key said unread maxBytes where
  missing m ok := by
    rw [status_missing_iff (merge_assembled ok), Finset.card_eq_zero, Finset.eq_empty_iff_forall_notMem]
    simp only [mem_valuesOf, not_exists, not_and]
    exact ⟨fun none_ => List.eq_nil_iff_forall_not_mem.mpr fun c member => none_ _ c member rfl,
      fun none_ k c member => absurd (none_ ▸ member) List.not_mem_nil⟩
  present m ok := by
    rw [status_present_iff (merge_assembled ok), Finset.card_eq_one]
    constructor
    · rintro ⟨k, one⟩
      have same : ∀ c ∈ claimsOf said, comparedOn c = k := fun c member =>
        Finset.mem_singleton.mp (one ▸ mem_valuesOf.mpr ⟨c, member, rfl⟩)
      refine ⟨fun none_ => ?_, fun c member c' member' => (same c member).trans (same c' member').symm⟩
      obtain ⟨c, member, -⟩ := mem_valuesOf.mp (one.symm ▸ Finset.mem_singleton_self k)
      exact absurd (none_ ▸ member) List.not_mem_nil
    · rintro ⟨some_, same⟩
      obtain ⟨c, member⟩ := List.exists_mem_of_ne_nil _ some_
      refine ⟨comparedOn c, Finset.eq_singleton_iff_unique_mem.mpr ⟨mem_valuesOf.mpr ⟨c, member, rfl⟩,
          fun k value => ?_⟩⟩
      obtain ⟨c', member', rfl⟩ := mem_valuesOf.mp value
      exact same c' member' c member
  conflict m ok := by
    rw [status_conflict_iff (merge_assembled ok), Finset.one_lt_card]
    constructor
    · rintro ⟨k, value, k', value', apart⟩
      obtain ⟨c, member, rfl⟩ := mem_valuesOf.mp value
      obtain ⟨c', member', rfl⟩ := mem_valuesOf.mp value'
      exact ⟨c, member, c', member', apart⟩
    · rintro ⟨c, member, c', member', apart⟩
      exact ⟨_, mem_valuesOf.mpr ⟨c, member, rfl⟩, _, mem_valuesOf.mpr ⟨c', member', rfl⟩, apart⟩
  distinct m ok := by
    rw [(merge_assembled ok).keys]
    exact ⟨kept_keys said, fun k member =>
      mem_valuesOf.mp (mem_groups_keys.mp (((List.take_sublist ..).map Group.key).subset member))⟩
  inOrder m ok := by
    rw [(merge_assembled ok).keys, List.pairwise_map]
    have sorted : (kept said).Pairwise fun g g' => g.place ≤ g'.place := (groups_sorted said).sublist
        (List.take_sublist ..)
    refine sorted.imp_of_mem fun here there before p p' first first' => ?_
    rwa [(group_stands (kept_mem here)).unique first, (group_stands (kept_mem there)).unique first'] at before
  rest m ok k here k' there out p p' first first' := by
    rw [(merge_assembled ok).keys] at here out
    exact kept_order here there out first first'
  counted m ok := by
    rw [(merge_assembled ok).keys, (merge_assembled ok).dropped_eq, List.length_map, length_kept]
    omega
  anchors m ok := (merge_assembled ok).held
  fits m ok := of_decide_eq_true (merge_assembled ok).fits
  read m ok partly := by
    rw [(merge_assembled ok).reason, partly]
    exact assembled_reason key said (kept said)
  order m said' m' ok order_ ok' := by
    have left := merge_assembled ok
    have right := merge_assembled ok'
    refine ⟨?_, ?_, ?_⟩
    · rw [left.status_eq, right.status_eq, valuesOf_perm order_]
    · rw [left.dropped_eq, right.dropped_eq, valuesOf_perm order_]
    · rw [left.keys, right.keys]
      exact kept_perm order_

theorem merge_in {κ : Type} [DecidableEq κ] (print : κ → String) (key : String) (said : List (Said κ)) (unread : Bool)
    {maxBytes : Nat} (room : ((assembled key said unread (kept said)).json print).render.utf8ByteSize ≤ maxBytes) :
    merge print key said unread maxBytes =
      .ok ⟨assembled key said unread (kept said), (groups said).length - MAX_CANDIDATES⟩ := by
  unfold merge
  simp only
  have fits_ : fits print maxBytes (assembled key said unread (kept said)) = true := decide_eq_true room
  rw [← kept, if_pos fits_]

/-- A claim whose evidence is one sentence of a document, the start of its fourth block. -/
def claimFrom (sentence value normalized : String) : Claim Int :=
  let range : TextRange := ⟨"utf8", 0, sentence.utf8ByteSize⟩
  let geometry : Geometry Int := ⟨"CropBox", "pt", "top-left-rotated", [⟨0, 0, 100, 10⟩]⟩
  ⟨value, normalized, .ok [⟨"doc-1", 1, "sha256:c", "application/pdf", "sha256:t", ⟨"pdfkit", "1"⟩, "p1/b4", some 1,
    "sha256:b", range, some geometry, sentence⟩], toLex (3, 0)⟩

def claimWithout (value : String) : Claim Int := ⟨value, "", .error NOT_FOUND, toLex (0, endOfBlock)⟩

/-- The eighth and the ninth value stand at one place: which one is kept is a matter of whose window comes first. -/
theorem kept_by_order : ¬ ∀ (said said' : List (Said Int)) (maxBytes : Nat) (m m' : Merged Int), said.Perm said' →
    merge toString "date" said false maxBytes = .ok m → merge toString "date" said' false maxBytes = .ok m' →
      ∀ k, k ∈ m.value.keys ↔ k ∈ m'.value.keys := by
  intro same
  obtain ⟨first, second, kept_, kept_'⟩ : ∃ first second : Said Int,
      (kept [first, second]).map Group.key = ["1", "2", "3", "4", "5", "6", "7", "8"] ∧
        (kept [second, first]).map Group.key = ["1", "2", "3", "4", "5", "6", "7", "9"] :=
    ⟨.values (["1", "2", "3", "4", "5", "6", "7"].map claimWithout ++ [claimFrom "8 or 9" "8" ""]),
      .values [claimFrom "8 or 9" "9" ""], by decide +kernel, by decide +kernel⟩
  have ok := merge_in toString "date" [first, second] false (le_max_left _
    ((assembled "date" [second, first] false (kept [second, first])).json toString).render.utf8ByteSize)
  have ok' := merge_in toString "date" [second, first] false (le_max_right
    ((assembled "date" [first, second] false (kept [first, second])).json toString).render.utf8ByteSize _)
  have nine := same _ _ _ _ _ (List.Perm.swap ..) ok ok' "9"
  rw [(merge_assembled ok).keys, (merge_assembled ok').keys, kept_, kept_'] at nine
  exact absurd (nine.mpr (by decide)) (by decide)

/-- Where the claims of a field end up among the candidates of a conflict. -/
structure Gathered {κ : Type} [DecidableEq κ] (print : κ → String) (key : String) (said : List (Said κ))
    (unread : Bool)
    (maxBytes : Nat) : Prop where
  /-- A candidate is the claims compared on its normal form, in the first one's wording. -/
  wording : ∀ m cs, merge print key said unread maxBytes = .ok m → m.value.candidates = some cs → ∀ candidate ∈ cs,
    ((claimsOf said).filter fun c => decide (comparedOn c = candidate.normalized)).head?.map Claim.value =
      some candidate.value
  together : ∀ m (cs : List (Candidate κ)), merge print key said unread maxBytes = .ok m →
      m.value.candidates = some cs →
    ∀ c ∈ claimsOf said, ∀ c' ∈ claimsOf said, c.value = c'.value → c.normalized = c'.normalized →
      ∀ i j : Nat, (cs[i]?).map Candidate.normalized = some (comparedOn c) →
        (cs[j]?).map Candidate.normalized = some (comparedOn c') → i = j
  /-- Different normal forms are different values, whatever the wording. -/
  apart : ∀ m (cs : List (Candidate κ)), merge print key said unread maxBytes = .ok m → m.value.candidates = some cs →
    ∀ c ∈ claimsOf said, ∀ c' ∈ claimsOf said, c.normalized ≠ "" → c'.normalized ≠ "" → c.normalized ≠ c'.normalized →
      ∀ i j : Nat, (cs[i]?).map Candidate.normalized = some (comparedOn c) →
        (cs[j]?).map Candidate.normalized = some (comparedOn c') → i ≠ j

theorem equal_claims_together {κ : Type} [DecidableEq κ] (print : κ → String) (key : String) (said : List (Said κ))
    (unread : Bool) (maxBytes : Nat) : Gathered print key said unread maxBytes where
  wording m cs ok some_ candidate member := by
    have pairs := (merge_assembled ok).candidates cs some_
    obtain ⟨g, inKept, same⟩ := List.mem_map.mp (pairs ▸ List.mem_map_of_mem member)
    obtain ⟨value, name⟩ := Prod.mk.inj same
    rw [← value, ← name]
    exact (group_groupOf (kept_mem inKept)).wording
  together m cs ok some_ c _ c' _ sameValue sameForm i j here there := by
    have names : cs.map Candidate.normalized = (kept said).map Group.key := by
      have pairs := congrArg (List.map Prod.snd) ((merge_assembled ok).candidates cs some_)
      rwa [List.map_map, List.map_map] at pairs
    have distinct : (cs.map Candidate.normalized).Nodup := names ▸ kept_keys said
    have one : comparedOn c = comparedOn c' := by rw [comparedOn, comparedOn, sameValue, sameForm]
    rw [← List.getElem?_map] at here there
    have bound := (List.getElem?_eq_some_iff.mp here).1
    exact (List.getElem?_inj bound distinct).mp (here.trans (one ▸ there.symm))
  apart m cs ok some_ c _ c' _ formed formed' other i j here there same := by
    rw [same, there, comparedOn, comparedOn, if_neg formed, if_neg formed'] at here
    exact other (Option.some.inj here).symm

/-- Two claims worded `10/12`, of which a second window gave the normal form 2026-10-12, make two candidates. -/
def Wordings (normalized key : String) : Prop :=
  ∃ maxBytes m cs, merge toString "date" [.values [claimFrom "10/12" "10/12" normalized],
      .values [claimFrom "10/12" "10/12" "2026-10-12"]] false maxBytes = .ok m ∧ m.value.candidates = some cs ∧
        cs.map (fun c => (c.value, c.normalized)) = [("10/12", key), ("10/12", "2026-10-12")]

theorem wordings_of_pairs {normalized key : String}
    (pairs : ((assembled "date" ([] : List (Said Int)) false
      (kept [.values [claimFrom "10/12" "10/12" normalized],
        .values [claimFrom "10/12" "10/12" "2026-10-12"]])).candidates.map fun cs =>
          cs.map fun c => (c.value, c.normalized)) = some [("10/12", key), ("10/12", "2026-10-12")]) :
    Wordings normalized key := by
  obtain ⟨cs, some_, values⟩ := Option.map_eq_some_iff.mp pairs
  exact ⟨_, _, cs, merge_in toString "date" _ false le_rfl, some_, values⟩

/-- One wording, normalized by one window only or by both differently, is two candidates. -/
theorem one_wording_two_candidates : Wordings "" "10/12" ∧ Wordings "2026-12-10" "2026-12-10" :=
  ⟨wordings_of_pairs (by decide +kernel), wordings_of_pairs (by decide +kernel)⟩

end Agent24.Documents
