import Agent24.JsonLine
import Agent24.JsonRead
import Agent24.Library.Quoted
import Agent24.Memory.Writer

/-! The ids of audit events: which decisions are told apart by theirs. -/

set_option autoImplicit false
namespace Agent24
open Library List

/-! ## Texts in debug format read back -/

namespace Platform
variable (P : Platform)

def DEBUG_ESCAPES : List (Char × Char) :=
  [('"', '"'), ('\\', '\\'), ('n', '\n'), ('r', '\r'), ('t', '\t'), ('0', Char.ofNat 0)]

/-- The character that a text in debug format begins with, and what comes behind it. -/
def undebug : List Char → Option (Char × List Char)
  | '\\' :: 'u' :: '{' :: rest =>
    (Numeral.number 16 Numeral.hexadecimal (rest.takeWhile (· != '}'))).map fun n =>
      (Char.ofNat n, (rest.dropWhile (· != '}')).drop 1)
  | '\\' :: c :: rest => (DEBUG_ESCAPES.lookup c).map fun plain => (plain, rest)
  | c :: rest => some (c, rest)
  | [] => none

theorem hexadecimal_of_mem {c : Char} {n : Nat} (member : c ∈ Nat.toDigits 16 n) : Numeral.hexadecimal c ≠ none :=
  Numeral.digit_of_mem (Numeral.digits_toDigits n) member

theorem undebug_debugChar (c : Char) (rest : List Char) : undebug (P.debugChar c ++ rest) = some (c, rest) := by
  unfold debugChar
  split_ifs with quote backslash newline return_ tab null verbatim
  · rw [quote]
    rfl
  · rw [backslash]
    rfl
  · rw [newline]
    rfl
  · rw [return_]
    rfl
  · rw [tab]
    rfl
  · rw [← Char.ofNat_toNat c, null]
    rfl
  · rw [singleton_append]
    unfold undebug
    split
    · next same => exact absurd (List.cons.inj same).1 backslash
    · next same => exact absurd (List.cons.inj same).1 backslash
    · next same =>
      obtain ⟨rfl, rfl⟩ := List.cons.inj same
      rfl
    · next same => cases same
  · have digits : ∀ d ∈ Nat.toDigits 16 c.toNat, (d != '}') = true := by
      intro d member
      rw [bne_iff_ne]
      rintro rfl
      exact hexadecimal_of_mem member (by decide)
    simp only [cons_append, nil_append, append_assoc, undebug]
    rw [takeWhile_append_of_pos digits, dropWhile_append_of_pos digits,
      takeWhile_cons_of_neg (by decide), dropWhile_cons_of_neg (by decide), append_nil,
      Numeral.number_hexadecimal, Option.map_some, Char.ofNat_toNat]
    rfl

theorem debugChar_head (c : Char) : ∃ d rest, P.debugChar c = d :: rest ∧ d ≠ '"' := by
  unfold debugChar
  split_ifs with quote
  all_goals first | exact ⟨_, _, rfl, by decide⟩ | exact ⟨_, _, rfl, quote⟩

theorem debugStr_cut {s t : String} {r r' : List Char}
    (same : (P.debugStr s).toList ++ r = (P.debugStr t).toList ++ r') : s = t ∧ r = r' := by
  unfold debugStr at same
  rw [String.toList_ofList, String.toList_ofList, cons_append, cons_append, append_assoc,
    append_assoc, cons_append] at same
  obtain ⟨chars, rest⟩ :=
    (Code.Instant.of_read P.undebug_debugChar).ended P.debugChar_head (List.cons.inj same).2
  exact ⟨String.toList_inj.mp chars, rest⟩

theorem debugStrs_toList (texts : List String) :
    (P.debugStrs texts).toList = '[' :: ([',', ' '].intercalate (texts.map fun t =>
        (P.debugStr t).toList) ++ [']']) := by
  rw [debugStrs, String.toList_append, String.toList_append, String.toList_intercalate, map_map,
    String.toList_ofList (l := ['[']), String.toList_ofList (l := [']']), String.toList_ofList (l := [',', ' '])]
  rfl

theorem debugStrs_injective {texts texts' : List String} (same : P.debugStrs texts = P.debugStrs texts') :
    texts = texts' := by
  have chars := congrArg String.toList same
  rw [debugStrs_toList, debugStrs_toList] at chars
  have head (text : String) : ∃ c rest, (P.debugStr text).toList = c :: rest ∧ c ≠ ']' :=
    ⟨'"', _, by rw [debugStr, String.toList_ofList, List.cons_append], by decide⟩
  exact (Code.separated (by decide) (fun _ => trivial) (fun _ => trivial) (fun text _ => head text)
    (fun s _ t _ r r' (_ : True) (_ : True) same => P.debugStr_cut same) (List.cons.inj chars).2).1

open Quoted Quoted.Place

theorem neutral_debugStr (text : String) : Neutral outside (P.debugStr text).toList := by
  rw [debugStr, String.toList_ofList]
  refine neutral_quoted (neutral_flatMap fun c _ => ?_)
  unfold debugChar
  split_ifs with quote backslash
  · exact neutral_escape _
  · exact neutral_escape _
  · exact neutral_escape _
  · exact neutral_escape _
  · exact neutral_escape _
  · exact neutral_escape _
  · exact neutral_inside fun d member => mem_singleton.mp member ▸ ⟨quote, backslash⟩
  have brace : Neutral inside ['{'] := neutral_inside (forall_mem_singleton.mpr (by decide))
  have close : Neutral inside ['}'] := neutral_inside (forall_mem_singleton.mpr (by decide))
  have digits : Neutral inside (Nat.toDigits 16 c.toNat) := by
    refine neutral_inside fun d member => ⟨?_, ?_⟩
    · rintro rfl
      exact hexadecimal_of_mem member (by decide)
    · rintro rfl
      exact hexadecimal_of_mem member (by decide)
  exact (((neutral_escape 'u').append brace).append digits).append close

theorem closed_debugStrs (texts : List String) : closed outside (P.debugStrs texts).toList = true := by
  rw [debugStrs_toList]
  have front : Neutral outside ['['] := neutral_plain (by decide)
  have between : Neutral outside [',', ' '] := neutral_plain (by decide)
  have back : Neutral outside [']'] := neutral_plain (by decide)
  exact (front.append ((neutral_separated between fun t _ => P.neutral_debugStr t).append back)).closed

end Platform

namespace Json
open Quoted Quoted.Place

theorem neutral_renderStr (text : String) : Neutral outside (renderStr text) := by
  refine neutral_quoted (neutral_flatMap fun c _ => ?_)
  unfold escapeChar
  split_ifs with quote backslash
  · exact neutral_escape _
  · exact neutral_escape _
  · exact neutral_escape _
  · exact neutral_escape _
  · exact neutral_escape _
  · exact neutral_escape _
  · exact neutral_escape _
  · refine (neutral_escape 'u').append (neutral_inside fun d member => ?_)
    simp only [mem_cons, not_mem_nil, or_false] at member
    rcases member with rfl | rfl | rfl | rfl
    · decide
    · decide
    · exact ⟨hexDigit_ne (by decide) _, hexDigit_ne (by decide) _⟩
    · exact ⟨hexDigit_ne (by decide) _, hexDigit_ne (by decide) _⟩
  · exact neutral_inside fun d member => mem_singleton.mp member ▸ ⟨quote, backslash⟩

theorem neutral_renderChars {value : Json} (printed : value.Printed) : Neutral outside value.renderChars := by
  have number {text : List Char} (all : ∀ c ∈ text, numberChar c = true) : Neutral outside text := by
    refine neutral_outside fun c member => ⟨?_, ?_, ?_⟩
    all_goals
      rintro rfl
      exact absurd (all _ member) (by decide)
  have comma : Neutral outside [','] := neutral_plain (by decide)
  induction size : sizeOf value using Nat.strong_induction_on generalizing value with
  | _ n ih =>
  cases value with
  | null =>
    exact neutral_plain (by decide)
  | bool value =>
    cases value with
    | true =>
      exact neutral_plain (by decide)
    | false =>
      exact neutral_plain (by decide)
  | int n => exact number fun c member => numberChar_of_mem member
  | float text => exact number (printed text (by simp [floats])).1
  | str text => exact neutral_renderStr text
  | arr items =>
    have whole : sizeOf items < sizeOf (Json.arr items) := by
      rw [Json.arr.sizeOf_spec]
      omega
    have front : Neutral outside ['['] := neutral_plain (by decide)
    have back : Neutral outside [']'] := neutral_plain (by decide)
    have inner := neutral_separated comma fun item member =>
      ih _ (size ▸ Nat.lt_trans (sizeOf_lt_of_mem member) whole) (printed.item member) rfl
    rw [renderChars, renderItems_eq]
    exact (front.append inner).append back
  | obj fields =>
    have whole : sizeOf fields < sizeOf (Json.obj fields) := by
      rw [Json.obj.sizeOf_spec]
      omega
    have front : Neutral outside ['{'] := neutral_plain (by decide)
    have colon : Neutral outside [':'] := neutral_plain (by decide)
    have back : Neutral outside ['}'] := neutral_plain (by decide)
    have inner := neutral_separated comma fun (field : String × Json) member =>
      have small : sizeOf field.2 < sizeOf fields :=
        Nat.lt_of_le_of_lt (Nat.le_add_left ..) (sizeOf_lt_of_mem member)
      (neutral_renderStr field.1).append
        (colon.append (ih _ (size ▸ Nat.lt_trans small whole) (printed.field member) rfl))
    rw [renderChars, renderFields_eq]
    exact (front.append inner).append back

end Json

namespace Memory.WriteGate
open Quoted Quoted.Place

/-- What an audit event may say of a candidate. -/
def verdicts : List String := ["commit", "hold", "reject"]

theorem bar_not_mem_verdict {verdict : String} (word : verdict ∈ verdicts) : '|' ∉ verdict.toList := by
  simp only [verdicts, mem_cons, not_mem_nil, or_false] at word
  rcases word with rfl | rfl | rfl
  · rw [String.toList_ofList (l := ['c', 'o', 'm', 'm', 'i', 't'])]
    decide
  · rw [String.toList_ofList (l := ['h', 'o', 'l', 'd'])]
    decide
  · rw [String.toList_ofList (l := ['r', 'e', 'j', 'e', 'c', 't'])]
    decide

def joined (c : Candidate) : String := c.subject ++ "|" ++ c.predicate

section
variable (P : Platform) {c d : Candidate} {verdict verdict' : String}

theorem canonical_toList (c : Candidate) (verdict : String) :
    (canonical P c verdict).toList = verdict.toList ++ '|' :: (c.id.toList ++ '|' ::
      ((joined c).toList ++ '|' :: c.object.renderChars) ++ '|' :: (P.debugStrs c.evidence).toList) := by
  have bar : "|".toList = ['|'] := String.toList_ofList
  simp only [canonical, joined, String.toList_append, bar, Json.render, String.toList_ofList, append_assoc,
    nil_append, cons_append]

/-- The digested text tells everything but where the subject ends. -/
theorem canonical_inj (word : verdict ∈ verdicts) (word' : verdict' ∈ verdicts) (sameId : c.id = d.id)
    (printed : c.object.Printed) (printed' : d.object.Printed) :
    canonical P c verdict = canonical P d verdict' ↔
      verdict = verdict' ∧ joined c = joined d ∧ c.object = d.object ∧ c.evidence = d.evidence := by
  constructor
  · intro same
    have chars := congrArg String.toList same
    rw [canonical_toList, canonical_toList] at chars
    have apart {text : String} (free : '|' ∉ text.toList) : ∀ x ∈ text.toList, (x != '|') = true := by
      intro x member
      rw [bne_iff_ne]
      rintro rfl
      exact free member
    have bar (rest : List Char) : ∀ x ∈ ('|' :: rest).head?, (x != '|') = false :=
      fun x first => Option.some.inj first ▸ by decide
    obtain ⟨words, rest⟩ := Code.token (apart (bar_not_mem_verdict word)) (apart (bar_not_mem_verdict word'))
      (bar _) (bar _) chars
    rw [sameId] at rest
    obtain ⟨front, evidence⟩ := cut (P.closed_debugStrs _) (P.closed_debugStrs _) (List.cons.inj rest).2
    obtain ⟨names, objects⟩ := cut (Json.neutral_renderChars printed).closed
        (Json.neutral_renderChars printed').closed
      (List.cons.inj (append_cancel_left front)).2
    exact ⟨String.toList_inj.mp words, String.toList_inj.mp names,
      Json.render_injective printed printed' (congrArg String.ofList objects),
      P.debugStrs_injective (String.toList_inj.mp evidence)⟩
  · rintro ⟨rfl, names, objects, evidence⟩
    refine String.toList_inj.mp ?_
    rw [canonical_toList, canonical_toList, sameId, names, objects, evidence]

theorem auditId_inj (sameId : c.id = d.id) : auditId P c verdict = auditId P d verdict' ↔
    P.checksum16 (canonical P c verdict) = P.checksum16 (canonical P d verdict') := by
  rw [auditId, auditId, sameId, String.append_right_inj]

/-- The two decisions on one candidate id are not the same. -/
def Differ (c : Candidate) (verdict : String) (d : Candidate) (verdict' : String) : Prop :=
  verdict ≠ verdict' ∨ c.subject ≠ d.subject ∨ c.predicate ≠ d.predicate ∨ c.object ≠ d.object ∨
    c.evidence ≠ d.evidence

/-- Decisions that differ have ids that differ, unless only the bar between subject and predicate has moved. -/
theorem auditId_differs_iff (word : verdict ∈ verdicts) (word' : verdict' ∈ verdicts) (sameId : c.id = d.id)
    (printed : c.object.Printed) (printed' : d.object.Printed)
    (free : P.checksum16 (canonical P c verdict) = P.checksum16 (canonical P d verdict') →
      canonical P c verdict = canonical P d verdict') :
    (Differ c verdict d verdict' → auditId P c verdict ≠ auditId P d verdict') ↔
      ¬ (verdict = verdict' ∧ c.object = d.object ∧ c.evidence = d.evidence ∧ joined c = joined d ∧
        c.subject ≠ d.subject) := by
  have same : auditId P c verdict = auditId P d verdict' ↔
      verdict = verdict' ∧ joined c = joined d ∧ c.object = d.object ∧ c.evidence = d.evidence := by
    rw [auditId_inj P sameId, ← canonical_inj P word word' sameId printed printed']
    exact ⟨free, congrArg _⟩
  rw [Ne, same]
  constructor
  · rintro apart ⟨words, objects, evidence, names, moved⟩
    exact apart (.inr (.inl moved)) ⟨words, names, objects, evidence⟩
  · rintro unmoved differ ⟨words, names, objects, evidence⟩
    have subjects : c.subject = d.subject := by
      by_contra moved
      exact unmoved ⟨words, objects, evidence, names, moved⟩
    unfold joined at names
    rw [subjects, String.append_right_inj] at names
    rcases differ with other | other | other | other | other
    · exact other words
    · exact other subjects
    · exact other names
    · exact other objects
    · exact other evidence

end

def barred (subject predicate : String) : Candidate :=
  ⟨"c1", ⟨"alice", none, none, none⟩, subject, predicate, .null, ["e1"], none, ⟨"chat", .userSaid⟩, true⟩

theorem auditId_differs_iff_barred :
    (Differ (barred "a|b" "c") "commit" (barred "a" "b|c") "commit" →
        auditId (.ofDigests []) (barred "a|b" "c") "commit" ≠ auditId (.ofDigests []) (barred "a" "b|c") "commit") ↔
      ¬ ("commit" = "commit" ∧ Json.null = Json.null ∧ ["e1"] = ["e1"] ∧
        joined (barred "a|b" "c") = joined (barred "a" "b|c") ∧ "a|b" ≠ "a") :=
  auditId_differs_iff (.ofDigests []) (.head _) (.head _) rfl (fun _ none => by cases none)
    (fun _ none => by cases none) fun _ => by decide +kernel

/-- A bar moved from the subject to the predicate leaves the id as it was. -/
theorem moved_bar_aliases : ¬ ∀ (P : Platform) (c d : Candidate) (verdict verdict' : String), c.id = d.id →
    Differ c verdict d verdict' → auditId P c verdict ≠ auditId P d verdict' := by
  intro apart
  refine apart (.ofDigests []) (barred "a|b" "c") (barred "a" "b|c") "commit" "commit" rfl
    (.inr (.inl (by decide))) ?_
  have same : canonical (.ofDigests []) (barred "a|b" "c") "commit" =
      canonical (.ofDigests []) (barred "a" "b|c") "commit" := by decide +kernel
  rfl

end Memory.WriteGate
end Agent24
