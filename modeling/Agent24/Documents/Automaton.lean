import Agent24.Documents.Matcher

/-! The automaton of a query: what its bits stand for, and which texts it accepts in either direction. -/

set_option autoImplicit false
namespace Agent24.Documents
open Library Library.Bitset

/-- What keeps a state between the item before and the items left. -/
def Stays (prev : Option Item) (rest : List Item) (c : Char) : Prop :=
  (prev = some .space ∧ isWhitespace c = true) ∨
    (c = '\n' ∧ ∃ a b later, prev = some (.char a) ∧ rest = .char b :: later)

/-- What is left to read after an item: more of its run or line breaks, and the items left. -/
def After (prev : Option Item) (rest : List Item) (text : List Char) : Prop :=
  ∃ kept more, text = kept ++ more ∧ (∀ c ∈ kept, Stays prev rest c) ∧ Matches rest more

section
variable (items : List Item)

theorem matches_nil : Matches items [] ↔ items = [] := by
  cases items with
  | nil => simp [Matches]
  | cons item rest => cases item <;> simp [Matches]

theorem not_stays_none (rest : List Item) (c : Char) : ¬ Stays none rest c := by
  simp [Stays]

theorem after_none (text : List Char) : After none items text ↔ Matches items text := by
  constructor
  · rintro ⟨kept, more, rfl, stays, here⟩
    cases kept with
    | nil => exact here
    | cons c kept => exact absurd (stays c List.mem_cons_self) (not_stays_none items c)
  · exact fun here => ⟨[], text, rfl, fun c member => absurd member List.not_mem_nil, here⟩

theorem stays_space (rest : List Item) (c : Char) : Stays (some .space) rest c ↔ isWhitespace c = true := by
  simp [Stays]

theorem stays_char (x : Char) (rest : List Item) (c : Char) :
    Stays (some (.char x)) rest c ↔ c = '\n' ∧ ∃ y later, rest = .char y :: later := by
  simp [Stays]

theorem matches_cons (item : Item) (rest : List Item) (text : List Char) :
    Matches (item :: rest) text ↔ ∃ c more, text = c :: more ∧ item.takes c ∧ After (some item) rest more := by
  cases item with
  | space =>
    constructor
    · rintro ⟨run, more, rfl, some_, white, here⟩
      obtain ⟨c, run, rfl⟩ := List.exists_cons_of_ne_nil some_
      refine ⟨c, run ++ more, rfl, white c List.mem_cons_self, run, more, rfl, ?_, here⟩
      exact fun d member => (stays_space rest d).mpr (white d (List.mem_cons_of_mem c member))
    · rintro ⟨c, more, rfl, white, run, more, rfl, stays, here⟩
      refine ⟨c :: run, more, rfl, List.cons_ne_nil c run, ?_, here⟩
      intro d member
      rcases List.mem_cons.mp member with rfl | later
      · exact white
      · exact (stays_space rest d).mp (stays d later)
  | char x =>
    constructor
    · rintro ⟨c, breaks, more, rfl, same, feeds, between, here⟩
      refine ⟨c, breaks ++ more, rfl, same, breaks, more, rfl, ?_, here⟩
      exact fun d member => (stays_char x rest d).mpr ⟨feeds d member, between (List.ne_nil_of_mem member)⟩
    · rintro ⟨c, more, rfl, same, breaks, more, rfl, stays, here⟩
      refine ⟨c, breaks, more, rfl, same, fun d member => ((stays_char x rest d).mp (stays d member)).1, ?_, here⟩
      intro some_
      obtain ⟨d, breaks, rfl⟩ := List.exists_cons_of_ne_nil some_
      exact ((stays_char x rest d).mp (stays d List.mem_cons_self)).2

theorem after_nil (prev : Option Item) (rest : List Item) : After prev rest [] ↔ rest = [] := by
  constructor
  · rintro ⟨kept, more, whole, -, here⟩
    obtain ⟨rfl, rfl⟩ := List.append_eq_nil_iff.mp whole.symm
    exact (matches_nil rest).mp here
  · rintro rfl
    exact ⟨[], [], rfl, fun c member => absurd member List.not_mem_nil, rfl⟩

theorem after_cons (prev : Option Item) (rest : List Item) (c : Char) (text : List Char) :
    After prev rest (c :: text) ↔
      (∃ item later, rest = item :: later ∧ item.takes c ∧ After (some item) later text) ∨
        (Stays prev rest c ∧ After prev rest text) := by
  constructor
  · rintro ⟨kept, more, whole, stays, here⟩
    cases kept with
    | nil =>
      subst whole
      cases rest with
      | nil => cases here
      | cons item later =>
        obtain ⟨d, more, same, takes, after⟩ := (matches_cons item later _).mp here
        cases same
        exact .inl ⟨item, later, rfl, takes, after⟩
    | cons d kept =>
      cases whole
      exact .inr ⟨stays c List.mem_cons_self, kept, more, rfl, fun d member => stays d (List.mem_cons_of_mem c member), here⟩
  · rintro (⟨item, later, rfl, takes, after⟩ | ⟨stay, kept, more, rfl, stays, here⟩)
    · refine ⟨[], c :: text, rfl, fun d member => absurd member List.not_mem_nil, ?_⟩
      exact (matches_cons item later _).mpr ⟨c, text, rfl, takes, after⟩
    · refine ⟨c :: kept, more, rfl, ?_, here⟩
      intro d member
      rcases List.mem_cons.mp member with rfl | later
      · exact stay
      · exact stays d later

def before (k : Nat) : Option Item := if k = 0 then none else items[k - 1]?

def automaton : NFA Char Nat where
  step k c := fun j =>
    (j = k + 1 ∧ ∃ item, items[k]? = some item ∧ item.takes c) ∨ (j = k ∧ Stays (before items k) (items.drop k) c)
  start := {0}
  accept := {items.length}

def reached (from_ : Set Nat) (text : List Char) : Set Nat := (automaton items).evalFrom from_ text

end

theorem mem_step {items : List Item} {j k : Nat} {c : Char} : j ∈ (automaton items).step k c ↔
    (j = k + 1 ∧ ∃ item, items[k]? = some item ∧ item.takes c) ∨ (j = k ∧ Stays (before items k) (items.drop k) c) := Iff.rfl

theorem mem_reached {items : List Item} {from_ : Set Nat} {text : List Char} {j : Nat} :
    j ∈ reached items from_ text ↔ ∃ k ∈ from_, j ∈ reached items {k} text := by
  exact NFA.mem_evalFrom_iff_exists

theorem reached_last (items : List Item) (text : List Char) {k : Nat} (inside : k ≤ items.length) :
    items.length ∈ reached items {k} text ↔ After (before items k) (items.drop k) text := by
  induction text generalizing k with
  | nil =>
    rw [after_nil, List.drop_eq_nil_iff]
    simp only [reached, NFA.evalFrom_nil, Set.mem_singleton_iff]
    omega
  | cons c text ih =>
    have head : items.length ∈ reached items {k} (c :: text) ↔
        ∃ j ∈ (automaton items).step k c, items.length ∈ reached items {j} text := by
      rw [reached, NFA.evalFrom_cons, NFA.stepSet_singleton]
      exact mem_reached
    rw [head, after_cons]
    constructor
    · rintro ⟨j, step, later⟩
      rcases mem_step.mp step with ⟨rfl, item, here, takes⟩ | ⟨rfl, stays⟩
      · obtain ⟨bound, value⟩ := List.getElem?_eq_some_iff.mp here
        have after := (ih (by omega)).mp later
        rw [before, if_neg (Nat.succ_ne_zero k), Nat.add_sub_cancel, here] at after
        exact .inl ⟨item, items.drop (k + 1), by rw [← value, List.drop_eq_getElem_cons bound], takes, after⟩
      · exact .inr ⟨stays, (ih inside).mp later⟩
    · rintro (⟨item, later, whole, takes, after⟩ | ⟨stays, after⟩)
      · have here : items[k]? = some item := by
          rw [← List.head?_drop, whole, List.head?_cons]
        have rest : items.drop (k + 1) = later := by
          rw [← List.drop_drop, whole, List.drop_one, List.tail_cons]
        refine ⟨k + 1, mem_step.mpr (.inl ⟨rfl, item, here, takes⟩), (ih ?_).mpr ?_⟩
        · exact (List.getElem?_eq_some_iff.mp here).1
        · rwa [before, if_neg (Nat.succ_ne_zero k), Nat.add_sub_cancel, here, rest]
      · exact ⟨k, mem_step.mpr (.inr ⟨rfl, stays⟩), (ih inside).mpr after⟩

theorem accepted_iff (items : List Item) (text : List Char) :
    items.length ∈ reached items {0} text ↔ Matches items text := by
  rw [reached_last items text (Nat.zero_le _), before, if_pos rfl, after_none, List.drop_zero]

namespace Query

def takesAt (q : Query) (x : Char) (k : Nat) : Bool := (q.takes x).any fun taken => get taken k

structure Built (items : List Item) (m : Nat) (q : Query) : Prop where
  count : q.items = items.length
  words : q.words = wordsFor items.length
  takes_length : ∀ x, ∀ taken ∈ q.takes x, taken.length = q.words
  space_length : q.space.length = q.words
  spaceLoop_length : q.spaceLoop.length = q.words
  breakLoop_length : q.breakLoop.length = q.words
  takes : ∀ x k, q.takesAt x k = true ↔ k < m ∧ items[k]? = some (.char x)
  space : ∀ k, get q.space k = true ↔ k < m ∧ items[k]? = some .space
  spaceLoop : ∀ k, get q.spaceLoop k = true ↔ k ≤ m ∧ before items k = some .space
  breakLoop : ∀ k, get q.breakLoop k = true ↔ k < m ∧ ∃ a b, before items k = some (.char a) ∧ items[k]? = some (.char b)

theorem room (items : Nat) : items < 64 * wordsFor items := by
  rw [wordsFor]
  omega

theorem built_blank (items : List Item) : Built items 0 (blank items.length) where
  count := rfl
  words := rfl
  takes_length x taken member := by cases member
  space_length := List.length_replicate ..
  spaceLoop_length := List.length_replicate ..
  breakLoop_length := List.length_replicate ..
  takes x k := by simp [takesAt, blank]
  space k := by simp only [blank, get_replicate, Bool.false_eq_true, Nat.not_lt_zero, false_and]
  spaceLoop k := by
    simp only [blank, get_replicate, Bool.false_eq_true, false_iff, not_and]
    intro first
    rw [before, if_pos (Nat.le_zero.mp first)]
    exact fun same => by cases same
  breakLoop k := by simp only [blank, get_replicate, Bool.false_eq_true, Nat.not_lt_zero, false_and]

theorem chars_adjacent {items : List Item} {m : Nat} {item : Item} (here : items[m]? = some item) :
    (0 < m ∧ item.isChar ∧ (items[m - 1]?).any Item.isChar) ↔
      ∃ a b, before items m = some (.char a) ∧ items[m]? = some (.char b) := by
  rw [here]
  cases m with
  | zero => simp [before]
  | succ m =>
    rw [before, if_neg (Nat.succ_ne_zero m), Nat.add_sub_cancel]
    cases item with
    | space => simp [Item.isChar]
    | char b =>
      cases items[m]? with
      | none => simp
      | some prev => cases prev <;> simp [Item.isChar]

theorem get_set_iff {bits : List Word} {m j : Nat} {P : Nat → Prop} (inside : m < 64 * bits.length)
    (stands : ∀ k, get bits k = true ↔ k < m ∧ P k) (here : P m) :
    get (set bits m) j = true ↔ j < m + 1 ∧ P j := by
  rw [get_set inside, Bool.or_eq_true, decide_eq_true_iff, stands]
  constructor
  · rintro (rfl | ⟨less, holds⟩)
    · exact ⟨Nat.lt_succ_self j, here⟩
    · exact ⟨Nat.lt_succ_of_lt less, holds⟩
  · rintro ⟨less, holds⟩
    rcases Nat.lt_succ_iff_lt_or_eq.mp less with less | same
    · exact .inr ⟨less, holds⟩
    · exact .inl same

theorem below_succ {m : Nat} {P : Nat → Prop} (out : ¬ P m) (k : Nat) : (k < m ∧ P k) ↔ (k < m + 1 ∧ P k) := by
  constructor
  · exact fun ⟨less, holds⟩ => ⟨Nat.lt_succ_of_lt less, holds⟩
  · rintro ⟨less, holds⟩
    rcases Nat.lt_succ_iff_lt_or_eq.mp less with less | rfl
    · exact ⟨less, holds⟩
    · exact absurd holds out

theorem before_succ (items : List Item) (m : Nat) : before items (m + 1) = items[m]? := by
  rw [before, if_neg (Nat.succ_ne_zero m), Nat.add_sub_cancel]

def breaksWith (items : List Item) (q : Query) (item : Item) (m : Nat) : List Word :=
  if 0 < m ∧ item.isChar ∧ (items[m - 1]?).any Item.isChar then set q.breakLoop m else q.breakLoop

theorem breaksWith_length (items : List Item) (q : Query) (item : Item) (m : Nat) :
    (breaksWith items q item m).length = q.breakLoop.length := by
  unfold breaksWith
  split
  · exact length_set ..
  · rfl

section
variable {items : List Item}

theorem get_breaksWith {m : Nat} {q : Query} {item : Item} (built : Built items m q)
    (here : items[m]? = some item) (inside : m < 64 * q.words) (k : Nat) : get (breaksWith items q item m) k = true ↔
      k < m + 1 ∧ ∃ a b, before items k = some (.char a) ∧ items[k]? = some (.char b) := by
  rw [breaksWith]
  split
  · rename_i adjacent
    exact get_set_iff (by rwa [built.breakLoop_length]) built.breakLoop ((chars_adjacent here).mp adjacent)
  rename_i apart
  rw [built.breakLoop]
  exact below_succ (P := fun k => ∃ a b, before items k = some (.char a) ∧ items[k]? = some (.char b))
    (fun adjacent => apart ((chars_adjacent here).mpr adjacent)) k

theorem built_add {m : Nat} {q : Query} {item : Item} (built : Built items m q) (here : items[m]? = some item) : Built items (m + 1) (addItem items q (item, m)) := by
  have bound : m < items.length := (List.getElem?_eq_some_iff.mp here).1
  have inside : m + 1 < 64 * q.words := by
    rw [built.words]
    have := room items.length
    omega
  have within : m < 64 * q.words := Nat.lt_of_succ_lt inside
  have breaks := get_breaksWith built here within
  have breaks_length := (breaksWith_length items q item m).trans built.breakLoop_length
  cases item with
  | space =>
    have added : addItem items q (.space, m) = { q with
        space := set q.space m, spaceLoop := set q.spaceLoop (m + 1), breakLoop := breaksWith items q .space m } := by
      simp only [addItem, breaksWith]
      split <;> rfl
    rw [added]
    refine ⟨built.count, built.words, built.takes_length, ?_, ?_, breaks_length, ?_, ?_, ?_, breaks⟩
    · exact (length_set ..).trans built.space_length
    · exact (length_set ..).trans built.spaceLoop_length
    · intro x k
      show q.takesAt x k = true ↔ _
      rw [built.takes]
      exact below_succ (P := fun k => items[k]? = some (.char x)) (fun same => by rw [here] at same; cases same) k
    · exact fun k => get_set_iff (by rwa [built.space_length]) built.space here
    · intro k
      show get (set q.spaceLoop (m + 1)) k = true ↔ _
      rw [get_set (by rwa [built.spaceLoop_length]), Bool.or_eq_true, decide_eq_true_iff, built.spaceLoop]
      constructor
      · rintro (rfl | ⟨less, same⟩)
        · exact ⟨le_rfl, (before_succ items m).trans here⟩
        · exact ⟨Nat.le_succ_of_le less, same⟩
      · rintro ⟨less, same⟩
        rcases Nat.le_succ_iff.mp less with less | rfl
        · exact .inr ⟨less, same⟩
        · exact .inl rfl
  | char c =>
    have added : addItem items q (.char c, m) = { q with
        takes := fun x => if x = c then some (set ((q.takes c).getD (List.replicate q.words 0)) m) else q.takes x,
        breakLoop := breaksWith items q (.char c) m } := by
      simp only [addItem, breaksWith]
      split <;> rfl
    have bits : ∀ k, get ((q.takes c).getD (List.replicate q.words 0)) k = q.takesAt c k := by
      intro k
      rw [takesAt]
      cases q.takes c with
      | none => exact get_replicate ..
      | some taken => rfl
    have length : ((q.takes c).getD (List.replicate q.words 0)).length = q.words := by
      cases taken : q.takes c with
      | none => exact List.length_replicate ..
      | some taken' => exact built.takes_length c taken' taken
    rw [added]
    refine ⟨built.count, built.words, ?_, built.space_length, built.spaceLoop_length, breaks_length, ?_, ?_, ?_, breaks⟩
    · intro x taken member
      simp only at member
      split at member
      · cases member
        exact (length_set ..).trans length
      · exact built.takes_length x taken member
    · intro x k
      show (Option.any _ (if x = c then _ else _)) = true ↔ _
      by_cases same : x = c
      · subst same
        rw [if_pos rfl]
        exact get_set_iff (by rwa [length]) (fun k => by rw [bits, built.takes]) here
      · rw [if_neg same]
        refine (built.takes x k).trans (below_succ (P := fun k => items[k]? = some (.char x)) ?_ k)
        intro other
        rw [here] at other
        cases other
        exact same rfl
    · intro k
      rw [built.space]
      exact below_succ (P := fun k => items[k]? = some .space) (fun same => by rw [here] at same; cases same) k
    · intro k
      rw [built.spaceLoop]
      constructor
      · exact fun ⟨less, same⟩ => ⟨Nat.le_succ_of_le less, same⟩
      · rintro ⟨less, same⟩
        rcases Nat.le_succ_iff.mp less with less | rfl
        · exact ⟨less, same⟩
        · rw [before_succ, here] at same
          cases same

theorem built_of {q : Query} (compiled : of items = some q) : Built items items.length q := by
  unfold of at compiled
  split at compiled
  · cases compiled
    have prefix_ : ∀ m ≤ items.length, Built items m ((items.zipIdx.take m).foldl (addItem items) (blank items.length)) := by
      intro m
      induction m with
      | zero => exact fun _ => built_blank items
      | succ m ih =>
        intro bound
        have entry : items.zipIdx[m]? = some (items[m], m) := by simp [List.getElem?_zipIdx]
        rw [List.take_add_one, entry, Option.toList_some, List.foldl_append]
        exact built_add (ih (Nat.le_of_succ_le bound)) (List.getElem?_eq_getElem bound)
    have whole := prefix_ items.length le_rfl
    rwa [List.take_of_length_le (by rw [List.length_zipIdx])] at whole
  · cases compiled

theorem allows_moves {q : Query} (built : Built items items.length q) (c : Char) (k : Nat) :
    allows (q.moves c) k = true ↔ ∃ item, items[k]? = some item ∧ item.takes c := by
  have bits : allows (q.moves c) k = (q.takesAt (fold c) k || (isWhitespace c && get q.space k)) := by
    rw [allows, moves, BitVec.getLsbD_or, takesAt, get_eq]
    congr 1
    · cases q.takes (fold c) with
      | none => simp
      | some taken => simp [get_eq]
    · cases isWhitespace c <;> simp
  rw [bits, Bool.or_eq_true, Bool.and_eq_true, built.takes, built.space]
  constructor
  · rintro (⟨-, here⟩ | ⟨white, -, here⟩)
    · exact ⟨_, here, rfl⟩
    · exact ⟨_, here, white⟩
  · rintro ⟨item, here, takes⟩
    have bound := (List.getElem?_eq_some_iff.mp here).1
    cases item with
    | char x =>
      cases takes
      exact .inl ⟨bound, here⟩
    | space => exact .inr ⟨takes, bound, here⟩

theorem allows_keeps {q : Query} (built : Built items items.length q) (c : Char) (k : Nat)
    (inside : k ≤ items.length) :
    allows (q.keeps c) k = true ↔ Stays (before items k) (items.drop k) c := by
  have bits : allows (q.keeps c) k = ((isWhitespace c && get q.spaceLoop k) || (decide (c = '\n') && get q.breakLoop k)) := by
    rw [allows, keeps, BitVec.getLsbD_or, get_eq, get_eq]
    congr 1
    · cases isWhitespace c <;> simp
    · by_cases feed : c = '\n' <;> simp [feed]
  rw [bits, Bool.or_eq_true, Bool.and_eq_true, Bool.and_eq_true, decide_eq_true_iff, built.spaceLoop, built.breakLoop,
    Stays]
  apply or_congr
  · constructor
    · rintro ⟨white, -, here⟩
      exact ⟨here, white⟩
    · rintro ⟨here, white⟩
      exact ⟨white, inside, here⟩
  · apply and_congr_right
    intro feed
    constructor
    · rintro ⟨bound, a, b, prev, here⟩
      obtain ⟨_, value⟩ := List.getElem?_eq_some_iff.mp here
      exact ⟨a, b, items.drop (k + 1), prev, by rw [← value, List.drop_eq_getElem_cons bound]⟩
    · rintro ⟨a, b, later, prev, whole⟩
      have here : items[k]? = some (.char b) := by rw [← List.head?_drop, whole, List.head?_cons]
      exact ⟨(List.getElem?_eq_some_iff.mp here).1, a, b, prev, here⟩

end

structure Represents (items : List Item) (q : Query) (d : List Word) (S : Set Nat) : Prop where
  length : d.length = q.words
  bits : ∀ k, get d k = true ↔ k ∈ S
  bound : ∀ k ∈ S, k ≤ items.length

variable {items : List Item} {q : Query} {d : List Word} {S : Set Nat}

theorem represents_none : Represents items q q.none_ ∅ where
  length := List.length_replicate ..
  bits k := by simp only [none_, get_replicate, Bool.false_eq_true, Set.mem_empty_iff_false]
  bound k member := by cases member

section
variable (built : Built items items.length q)
include built

theorem represents_start (live : Represents items q d S) :
    Represents items q (set d 0) ({0} ∪ S) where
  length := (length_set ..).trans live.length
  bits k := by
    have inside : 0 < 64 * d.length := by
      rw [live.length, built.words]
      exact (Nat.zero_le _).trans_lt (room items.length)
    rw [get_set inside, Bool.or_eq_true, decide_eq_true_iff, live.bits]
    rfl
  bound k member := by
    rcases member with rfl | member
    · exact Nat.zero_le _
    · exact live.bound k member

theorem represents_step (live : Represents items q d S) (c : Char) :
    Represents items q (q.step d c) ((automaton items).stepSet S c) where
  length := (length_shift ..).trans live.length
  bound k member := by
    obtain ⟨j, from_, move⟩ := NFA.mem_stepSet.mp member
    rcases mem_step.mp move with ⟨rfl, item, here, -⟩ | ⟨rfl, -⟩
    · exact (List.getElem?_eq_some_iff.mp here).1
    · exact live.bound k from_
  bits k := by
    rw [NFA.mem_stepSet]
    by_cases inside : k < 64 * d.length
    · rw [step, get_shift _ _ inside, Bool.or_eq_true, Bool.and_eq_true, Bool.and_eq_true, Bool.and_eq_true,
        decide_eq_true_iff, live.bits, live.bits, allows_moves built]
      constructor
      · rintro (⟨later, from_, item, here, takes⟩ | ⟨from_, kept⟩)
        · have place : k = k - 1 + 1 := by omega
          exact ⟨k - 1, from_, mem_step.mpr (.inl ⟨place, item, here, takes⟩)⟩
        · exact ⟨k, from_, mem_step.mpr (.inr ⟨rfl, (allows_keeps built c k (live.bound k from_)).mp kept⟩)⟩
      · rintro ⟨j, from_, move⟩
        rcases mem_step.mp move with ⟨rfl, item, here, takes⟩ | ⟨rfl, stays⟩
        · exact .inl ⟨Nat.succ_ne_zero j, from_, item, here, takes⟩
        · exact .inr ⟨from_, (allows_keeps built c k (live.bound k from_)).mpr stays⟩
    · have out : get (q.step d c) k = false := get_of_ge (by rw [step, length_shift]; omega)
      rw [out]
      simp only [Bool.false_eq_true, false_iff, not_exists, not_and]
      intro j from_ move
      have bound := live.bound j from_
      have wide := room items.length
      rw [← built.words, ← live.length] at wide
      rcases mem_step.mp move with ⟨rfl, item, here, -⟩ | ⟨rfl, -⟩
      · have := (List.getElem?_eq_some_iff.mp here).1
        omega
      · omega

theorem represents_last (live : Represents items q d S) :
    get d q.items = true ↔ items.length ∈ S := by
  rw [built.count, live.bits]

end

theorem represents_empty (live : Represents items q d S) (zero : d.all (· == 0) = true) : S = ∅ := by
  rw [Set.eq_empty_iff_forall_notMem]
  intro k member
  have bit := (live.bits k).mpr member
  rw [get_eq, List.getD_eq_getElem?_getD] at bit
  cases found : d[k / 64]? with
  | none =>
    rw [found] at bit
    simp at bit
  | some word =>
    have none_ := List.all_eq_true.mp zero word (List.mem_of_getElem? found)
    rw [found, beq_iff_eq.mp none_] at bit
    simp at bit

end Query

end Agent24.Documents
