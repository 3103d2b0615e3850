import Agent24.Memory.Rejections
import Mathlib.Data.List.Pairwise

/-! Session gaps: ranges of turns that were not saved. -/

set_option autoImplicit false
namespace Agent24.Memory
open Library List

structure SessionGap where
  sessionId : String
  turnFrom : Int
  turnTo : Int
  code : MemoryErrorCode
  firstAt : Int
  lastAt : Int
  deriving DecidableEq

structure GapRecord where
  sessionId : String
  turn : Int
  code : MemoryErrorCode
  now : Int

namespace SessionGap

def touches (sessionId : String) (turn : Int) (gap : SessionGap) : Bool :=
  gap.sessionId == sessionId && decide (gap.turnFrom - 1 ≤ turn) && decide (turn ≤ gap.turnTo + 1)

def extend (turn now : Int) (gap : SessionGap) : SessionGap :=
  { gap with turnFrom := min gap.turnFrom turn, turnTo := max gap.turnTo turn, lastAt := now }

/-- Neither overlapping nor adjacent. -/
def Apart (a b : SessionGap) : Prop := a.turnTo + 1 < b.turnFrom ∨ b.turnTo + 1 < a.turnFrom

end SessionGap

open SessionGap

/-- `Rejections::record_session_gap_using_clock`; the rows are newest id first. -/
def recordSessionGap (gaps : List SessionGap) (r : GapRecord) : List SessionGap :=
  if gaps.any (touches r.sessionId r.turn) then
    onFirst (touches r.sessionId r.turn) (extend r.turn r.now) gaps
  else ⟨r.sessionId, r.turn, r.turn, r.code, r.now, r.now⟩ :: gaps

def turnsOf (sessionId : String) (records : List GapRecord) : List Int :=
  (records.filter fun r => r.sessionId == sessionId).map GapRecord.turn

def gapsOf (sessionId : String) (gaps : List SessionGap) : List SessionGap :=
  gaps.filter fun gap => gap.sessionId == sessionId

def MaximalRun (turns : List Int) (low high : Int) : Prop :=
  low ≤ high ∧ (∀ t, low ≤ t → t ≤ high → t ∈ turns) ∧ low - 1 ∉ turns ∧ high + 1 ∉ turns

/-- A turn is recorded for the first time between two recorded ones. -/
def Joins (turns : List Int) : Prop :=
  ∃ before t later, turns = before ++ t :: later ∧ t ∉ before ∧ t - 1 ∈ before ∧ t + 1 ∈ before

/-- One session's rows cover the turns recorded, and nothing else. -/
structure Spans (turns : List Int) (gaps : List SessionGap) : Prop where
  valid : ∀ gap ∈ gaps, gap.turnFrom ≤ gap.turnTo
  spans : ∀ t, (∃ gap ∈ gaps, gap.turnFrom ≤ t ∧ t ≤ gap.turnTo) ↔ t ∈ turns

section
variable {turns : List Int} {gaps : List SessionGap} {sessionId : String} {r : GapRecord}

instance apartSymm : Std.Symm Apart := ⟨fun _ _ apart => apart.symm⟩

/-- Rows that are apart are the maximal runs. -/
theorem Spans.maximal (spans : Spans turns gaps) (apart : gaps.Pairwise Apart) (low high : Int) :
    (∃ gap ∈ gaps, gap.turnFrom = low ∧ gap.turnTo = high) ↔ MaximalRun turns low high := by
  -- a recorded turn is in a row, or not even next to it
  have only : ∀ gap ∈ gaps, ∀ t ∈ turns,
      t < gap.turnFrom - 1 ∨ gap.turnFrom ≤ t ∧ t ≤ gap.turnTo ∨ gap.turnTo + 1 < t := by
    intro gap member t recorded
    obtain ⟨other, listed, within⟩ := (spans.spans t).mpr recorded
    by_cases same : gap = other
    · exact same ▸ .inr (.inl within)
    · rcases apart.forall member listed same with less | less <;> omega
  constructor
  · rintro ⟨gap, member, rfl, rfl⟩
    have valid := spans.valid gap member
    refine ⟨valid, fun t from_ upto => (spans.spans t).mp ⟨gap, member, from_, upto⟩, ?_, ?_⟩ <;> grind
  · rintro ⟨le, all, below, above⟩
    obtain ⟨gap, member, within⟩ := (spans.spans low).mpr (all low le_rfl le)
    have inside (t : Int) (within : gap.turnFrom ≤ t ∧ t ≤ gap.turnTo) : t ∈ turns :=
      (spans.spans t).mp ⟨gap, member, within⟩
    refine ⟨gap, member, by grind, ?_⟩
    by_contra short
    rcases Int.lt_or_gt_of_ne short with less | more
    · have next := all (gap.turnTo + 1) (by omega) (by omega)
      grind
    · exact above (inside _ (by omega))

/-- A record of its session extends one row, or opens one apart from all others. -/
theorem gapsOf_record (own : r.sessionId = sessionId) :
    (∃ front gap back, gapsOf sessionId gaps = front ++ gap :: back ∧
      gap.turnFrom - 1 ≤ r.turn ∧ r.turn ≤ gap.turnTo + 1 ∧
      gapsOf sessionId (recordSessionGap gaps r) = front ++ extend r.turn r.now gap :: back) ∨
    (∀ gap ∈ gapsOf sessionId gaps, r.turn < gap.turnFrom - 1 ∨ gap.turnTo + 1 < r.turn) ∧
      ∃ gap, gap.turnFrom = r.turn ∧ gap.turnTo = r.turn ∧
        gapsOf sessionId (recordSessionGap gaps r) = gap :: gapsOf sessionId gaps := by
  subst own
  unfold recordSessionGap
  split
  · next touched =>
    obtain ⟨front, gap, back, rfl, near, -, edited⟩ := onFirst_split (f := extend r.turn r.now) touched
    simp only [touches, Bool.and_eq_true, beq_iff_eq, decide_eq_true_eq] at near
    refine .inl ⟨gapsOf r.sessionId front, gap, gapsOf r.sessionId back, ?_, near.1.2, near.2, ?_⟩
    · simp [gapsOf, near.1.1]
    · simp [gapsOf, edited, extend, near.1.1]
  · next apart =>
    refine .inr ⟨fun gap member => ?_, ⟨r.sessionId, r.turn, r.turn, r.code, r.now, r.now⟩, rfl, rfl,
        by simp [gapsOf]⟩
    rw [gapsOf, mem_filter] at member
    have away := any_eq_false.mp (by simpa using apart) gap member.1
    simp only [touches, member.2, Bool.true_and, Bool.and_eq_true, decide_eq_true_eq, not_and] at away
    omega

theorem gapsOf_other (other : r.sessionId ≠ sessionId) :
    gapsOf sessionId (recordSessionGap gaps r) = gapsOf sessionId gaps := by
  unfold recordSessionGap
  split
  · refine filter_onFirst_of_not (f := extend r.turn r.now) (fun gap near => ?_) (fun _ => rfl) gaps
    simp only [touches, Bool.and_eq_true, beq_iff_eq] at near
    rw [near.1.1, beq_eq_false_iff_ne]
    exact other
  · exact filter_cons_of_neg (by simpa using other)

theorem joins_append {t : Int} :
    Joins (turns ++ [t]) ↔ Joins turns ∨ t ∉ turns ∧ t - 1 ∈ turns ∧ t + 1 ∈ turns := by
  constructor
  · rintro ⟨before, turn, later, whole, joins⟩
    rcases eq_nil_or_concat' later with rfl | ⟨later, last, rfl⟩
    · obtain ⟨rfl, same⟩ := append_inj' whole rfl
      obtain rfl : t = turn := by simpa using same
      exact .inr joins
    · rw [← cons_append, ← append_assoc] at whole
      exact .inl ⟨before, turn, later, (append_inj' whole rfl).1, joins⟩
  · rintro (⟨before, turn, later, rfl, joins⟩ | joins)
    · exact ⟨before, turn, later ++ [t], by simp, joins⟩
    · exact ⟨turns, t, [], rfl, joins⟩

/-- A row that takes a turn in, or next to it, stays apart from the others unless it now meets one. -/
theorem Spans.extend {front back : List SessionGap} {gap : SessionGap} {t now : Int}
    (spans : Spans turns (front ++ gap :: back)) (from_ : gap.turnFrom - 1 ≤ t) (upto : t ≤ gap.turnTo + 1) :
    Spans (turns ++ [t]) (front ++ gap.extend t now :: back) ∧
      ((front ++ gap.extend t now :: back).Pairwise Apart ↔ (front ++ gap :: back).Pairwise Apart ∧
        ¬ (t ∉ turns ∧ t - 1 ∈ turns ∧ t + 1 ∈ turns)) := by
  have symm : ∀ {a b : SessionGap}, Apart a b → Apart b a := Or.symm
  have low : (gap.extend t now).turnFrom = min gap.turnFrom t := rfl
  have high : (gap.extend t now).turnTo = max gap.turnTo t := rfl
  have placed (a b : SessionGap) : b ∈ front ++ a :: back ↔ b = a ∨ b ∈ front ++ back := by
    simp only [mem_append, mem_cons]
    tauto
  obtain ⟨valid, covered⟩ := spans
  have ordered := valid gap ((placed gap gap).mpr (.inl rfl))
  have inside {u : Int} (within : gap.turnFrom ≤ u ∧ u ≤ gap.turnTo) : u ∈ turns :=
    (covered u).mp ⟨gap, (placed gap gap).mpr (.inl rfl), within⟩
  have elsewhere {u : Int} (recorded : u ∈ turns) (outside : u < gap.turnFrom ∨ gap.turnTo < u) :
      ∃ other ∈ front ++ back, other.turnFrom ≤ u ∧ u ≤ other.turnTo := by
    obtain ⟨other, member, within⟩ := (covered u).mpr recorded
    rcases (placed gap other).mp member with rfl | rest
    · omega
    · exact ⟨other, rest, within⟩
  refine ⟨⟨by grind, fun u => ?_⟩, ?_⟩
  · rw [mem_append, mem_singleton, ← covered u]
    simp only [placed, or_and_right, exists_or, exists_eq_left, low, high]
    by_cases rest : ∃ other ∈ front ++ back, other.turnFrom ≤ u ∧ u ≤ other.turnTo
    · simp only [rest, or_true, true_or]
    · simp only [rest, or_false]
      omega
  rw [pairwise_middle symm, pairwise_middle symm, pairwise_cons, pairwise_cons]
  unfold Apart
  constructor
  · rintro ⟨apart, rest⟩
    refine ⟨⟨fun other member => by grind, rest⟩, ?_⟩
    rintro ⟨new, before, after⟩
    grind
  · rintro ⟨⟨apart, rest⟩, alone⟩
    refine ⟨fun other member => ?_, rest⟩
    grind

/-- A row of its own, apart from all others. -/
theorem Spans.insert {gap : SessionGap} {t : Int} (spans : Spans turns gaps) (from_ : gap.turnFrom = t)
    (upto : gap.turnTo = t) (away : ∀ other ∈ gaps, t < other.turnFrom - 1 ∨ other.turnTo + 1 < t) :
    Spans (turns ++ [t]) (gap :: gaps) ∧ ((gap :: gaps).Pairwise Apart ↔ gaps.Pairwise Apart ∧
      ¬ (t ∉ turns ∧ t - 1 ∈ turns ∧ t + 1 ∈ turns)) := by
  obtain ⟨valid, covered⟩ := spans
  refine ⟨⟨forall_mem_cons.mpr ⟨by omega, valid⟩, fun u => ?_⟩, ?_⟩
  · rw [mem_append, mem_singleton, ← covered u, exists_mem_cons_iff, or_comm]
    exact or_congr_right (by omega)
  · have free : t - 1 ∉ turns := by grind
    have apart : ∀ other ∈ gaps, Apart gap other := fun other member => by
      have := away other member
      unfold Apart
      omega
    rw [pairwise_cons]
    tauto

/-- One session's rows cover its turns, and are apart until a turn joins two of them. -/
theorem gaps_cover (records : List GapRecord) (sessionId : String) :
    let gaps := gapsOf sessionId (run recordSessionGap records [])
    Spans (turnsOf sessionId records) gaps ∧ (gaps.Pairwise Apart ↔ ¬ Joins (turnsOf sessionId records)) := by
  induction records using List.reverseRecOn with
  | nil =>
    refine ⟨⟨forall_mem_nil _, by simp [run, gapsOf, turnsOf]⟩, iff_of_true List.Pairwise.nil ?_⟩
    rintro ⟨before, t, later, whole, -⟩
    simp [turnsOf] at whole
  | append_singleton records r ih =>
    obtain ⟨spans, apart⟩ := ih
    rw [run_append, run_cons, run_nil]
    by_cases own : r.sessionId = sessionId
    · have turns : turnsOf sessionId (records ++ [r]) = turnsOf sessionId records ++ [r.turn] := by
        simp [turnsOf, own]
      rw [turns, joins_append, not_or, ← apart]
      rcases @gapsOf_record (run recordSessionGap records []) _ _ own with
        ⟨front, gap, back, before, from_, upto, after⟩ | ⟨away, gap, from_, upto, after⟩
      · rw [before] at spans ⊢
        rw [after]
        exact spans.extend from_ upto
      · rw [after]
        exact spans.insert from_ upto away
    · rw [gapsOf_other own]
      simpa [turnsOf, own] using And.intro spans apart

/-- The rows of a session are the maximal runs of its recorded turns exactly as long as no turn was first recorded
between two recorded ones. -/
theorem gaps_maximal_iff (records : List GapRecord) (sessionId : String) :
    let gaps := gapsOf sessionId (run recordSessionGap records [])
    let turns := turnsOf sessionId records
    gaps.Pairwise Apart ∧ (∀ low high, (∃ gap ∈ gaps, gap.turnFrom = low ∧ gap.turnTo = high) ↔
      MaximalRun turns low high) ↔ ¬ Joins turns := by
  intro gaps turns
  obtain ⟨spans, apart⟩ := gaps_cover records sessionId
  rw [← apart]
  exact ⟨And.left, fun apart => ⟨apart, spans.maximal apart⟩⟩

end

/-- Turns 1 and 3, then 2: the rows are 1 and 2..3. -/
theorem hole_filled_apart :
    let gaps := gapsOf "s" (run recordSessionGap
      [⟨"s", 1, .diskFull, 0⟩, ⟨"s", 3, .diskFull, 0⟩, ⟨"s", 2, .diskFull, 0⟩] [])
    gaps.map (fun gap => (gap.turnFrom, gap.turnTo)) = [(2, 3), (1, 1)] ∧ ¬ MaximalRun [1, 3, 2] 1 1 := by
  refine ⟨by decide, fun run => run.2.2.2 (by decide)⟩

end Agent24.Memory
