import Agent24.Proxy.Paths
import Mathlib.Data.Bool.AllAny

/-! What servers may make of a forwarded path, and that none of it begins with the kernel's segment. -/

set_option autoImplicit false
namespace Agent24.Proxy
open Library List

inductive Reading (below : Str) : List Str → Prop where
  | split (rounds : Nat) : Reading below (segments (Percent.decode^[rounds] below))
  | decode {before after : List Str} {segment : Str} (reading : Reading below (before ++ segment :: after)) :
      Reading below (before ++ Percent.decode segment :: after)
  | cut {before after : List Str} {front back : Str} {b : UInt8} (at_ : cuts b = true)
      (reading : Reading below (before ++ (front ++ b :: back) :: after)) : Reading below (before ++ front :: after)
  | strip {before after : List Str} {front back : Str} (trailing : ∀ b ∈ back, trims b = true)
      (reading : Reading below (before ++ (front ++ back) :: after)) : Reading below (before ++ front :: after)
  | dropEmpty {before after : List Str} (reading : Reading below (before ++ [] :: after)) :
      Reading below (before ++ after)
  | dropDot {before after : List Str} (reading : Reading below (before ++ [46] :: after)) :
      Reading below (before ++ after)
  | dropDotDot {before after : List Str} {parent : Str}
      (reading : Reading below (before ++ parent :: [46, 46] :: after)) : Reading below (before ++ after)
  | dropFirstDotDot {after : List Str} (reading : Reading below ([46, 46] :: after)) : Reading below after

theorem cuts_inert {b : UInt8} (at_ : cuts b = true) : Percent.Inert b := by
  simp only [cuts, Bool.or_eq_true, beq_iff_eq] at at_
  rcases at_ with (rfl | rfl) | rfl <;> exact ⟨by decide, by decide⟩

theorem trims_inert {b : UInt8} (trailing : trims b = true) : Percent.Inert b := by
  simp only [trims, Bool.or_eq_true, beq_iff_eq] at trailing
  rcases trailing with rfl | rfl <;> exact ⟨by decide, by decide⟩

theorem slash_inert : Percent.Inert slash := ⟨by decide, by decide⟩

section
variable {a b c f r t w y : Str} {x : UInt8}

theorem cut_append (at_ : cuts x = true) : cut (a ++ x :: b) = cut a := by
  induction a with
  | nil => simp [cut, at_]
  | cons z rest ih =>
    simp only [cut, cons_append, takeWhile_cons] at ih ⊢
    rw [ih]

theorem strip_append (trailing : ∀ b ∈ t, trims b = true) : strip (a ++ t) = strip a := by
  rw [strip, reverse_append, dropWhile_append_of_pos fun b member => trailing b
      (mem_reverse.mp member)]
  rfl

theorem strip_cut_append (trailing : ∀ b ∈ t, trims b = true) : strip (cut (a ++ t)) = strip (cut a) := by
  have kept : ∀ b ∈ t, (!cuts b) = true := by
    intro b member
    have trim := trailing b member
    simp only [trims, Bool.or_eq_true, beq_iff_eq] at trim
    rcases trim with rfl | rfl <;> decide
  by_cases whole : ∀ b ∈ a, (!cuts b) = true
  · have front : cut a = a := takeWhile_eq_self_iff.mpr whole
    have all : cut (a ++ t) = a ++ t := takeWhile_eq_self_iff.mpr fun b member =>
      (mem_append.mp member).elim (whole b) (kept b)
    rw [front, all, strip_append trailing]
  · have shorter : cut (a ++ t) = cut a := by
      induction a with
      | nil => exact absurd (fun b member => by cases member) whole
      | cons z rest ih =>
        simp only [cut, cons_append, takeWhile_cons] at ih ⊢
        cases stays : cuts z with
        | true => simp
        | false =>
          have later : ¬ ∀ b ∈ rest, (!cuts b) = true := fun all =>
            whole fun b member => (mem_cons.mp member).elim (fun same => by simp [same, stays]) (all b)
          simp only [Bool.not_false, if_true, ih later]
    rw [shorter]

/-- `r` is the segment whose canonical form is `f`, however far decoded, cut and stripped. -/
def Reads (f r : Str) : Prop := ∃ y, Percent.Settles r y ∧ y <+: f ∧ strip (cut y) = strip (cut f)

namespace Reads

theorem round (reads : Reads f r) : Reads f (Percent.decode r) := by
  obtain ⟨y, settles, front, same⟩ := reads
  exact ⟨y, settles.decode, front, same⟩

theorem of_cut (at_ : cuts x = true) (reads : Reads f (a ++ x :: b)) : Reads f a := by
  obtain ⟨y, settles, front, same⟩ := reads
  obtain ⟨kept, rest, rfl, there⟩ := settles.split (cuts_inert at_)
  exact ⟨kept, there, (prefix_append ..).trans front, by rw [← same, cut_append at_]⟩

theorem of_strip (trailing : ∀ b ∈ t, trims b = true) (reads : Reads f (a ++ t)) : Reads f a := by
  obtain ⟨y, settles, front, same⟩ := reads
  obtain ⟨kept, rfl, there⟩ := settles.front fun b member => trims_inert (trailing b member)
  exact ⟨kept, there, (prefix_append ..).trans front, by rw [← same, strip_cut_append trailing]⟩

theorem core (reads : Reads f r) (plain : Percent.decode r = r) : strip (cut r) = strip (cut f) := by
  obtain ⟨y, settles, -, same⟩ := reads
  rw [(Percent.settles_fixed plain).unique settles]
  exact same

theorem front (reads : Reads f r) (plain : Percent.decode r = r) : r <+: f := by
  obtain ⟨y, settles, front, -⟩ := reads
  rw [(Percent.settles_fixed plain).unique settles]
  exact front

end Reads

/-- A canonical segment that was not refused: it counts for nothing, or is more than dots and spaces. -/
def Told (f : Str) : Prop := cut f = [] ∨ (cut f).all trims = false

theorem strip_eq_nil : strip a = [] ↔ a.all trims = true := by
  rw [strip, reverse_eq_nil_iff, dropWhile_eq_nil_iff]
  simp

theorem Reads.empty (told : Told f) (reads : Reads f []) : cut f = [] := by
  have core := reads.core rfl
  rcases told with skipped | more
  · exact skipped
  · rw [strip_eq_nil.mpr (by rfl), eq_comm, strip_eq_nil, more] at core
    cases core

theorem Reads.not_dots (told : Told f) {dots : Nat} : ¬ Reads f (List.replicate (dots + 1) 46) := by
  intro reads
  have trailing : ∀ b ∈ List.replicate (dots + 1) (46 : UInt8), trims b = true := fun b member => by
    rw [eq_of_mem_replicate member]
    decide
  have empty := Reads.empty told (reads.of_strip (a := []) trailing)
  obtain ⟨rest, rfl⟩ := reads.front (Percent.decode_inert fun b member => trims_inert (trailing b member))
  simp only [replicate_succ, cons_append, cut, takeWhile_cons] at empty
  have dot : cuts 46 = false := by decide
  simp [dot] at empty

/-- The segments a server has left, against the canonical ones: each is a reading of its own, and only those the
judgement skips are gone. -/
inductive Matches : List Str → List Str → Prop where
  | nil : Matches [] []
  | keep {left canonical : List Str} {r f : Str} (reads : Reads f r) (told : Told f)
      (rest : Matches left canonical) : Matches (r :: left) (f :: canonical)
  | skip {left canonical : List Str} {f : Str} (skipped : cut f = []) (rest : Matches left canonical) :
      Matches left (f :: canonical)

namespace Matches
variable {before after left canonical : List Str} {r' : Str}

theorem edit (same : Matches left canonical) (split : left = before ++ r :: after)
    (edited : ∀ f, Reads f r → Reads f r') : Matches (before ++ r' :: after) canonical := by
  induction same generalizing before with
  | nil => simp at split
  | keep reads told rest ih =>
    cases before with
    | nil =>
      obtain ⟨rfl, rfl⟩ := List.cons.inj split
      exact .keep (edited _ reads) told rest
    | cons first more =>
      obtain ⟨rfl, rest'⟩ := List.cons.inj split
      exact .keep reads told (ih rest')
  | skip skipped rest ih => exact .skip skipped (ih split)

theorem drop (same : Matches left canonical) (split : left = before ++ r :: after)
    (empty : ∀ f, Told f → Reads f r → cut f = []) : Matches (before ++ after) canonical := by
  induction same generalizing before with
  | nil => simp at split
  | keep reads told rest ih =>
    cases before with
    | nil =>
      obtain ⟨rfl, rfl⟩ := List.cons.inj split
      exact .skip (empty _ told reads) rest
    | cons first more =>
      obtain ⟨rfl, rest'⟩ := List.cons.inj split
      exact .keep reads told (ih rest')
  | skip skipped rest ih => exact .skip skipped (ih split)

theorem reads (same : Matches left canonical) (member : r ∈ left) : ∃ f, Told f ∧ Reads f r := by
  induction same with
  | nil => cases member
  | keep here told rest ih =>
    rcases mem_cons.mp member with rfl | later
    · exact ⟨_, told, here⟩
    · exact ih later
  | skip skipped rest ih => exact ih member

theorem reading {below : Str} (start : ∀ k, Matches (segments (Percent.decode^[k] below)) canonical)
    (reading : Reading below left) : Matches left canonical := by
  have dots {left before after : List Str} {n : Nat} (same : Matches left canonical)
      (split : left = before ++ List.replicate (n + 1) 46 :: after) : False := by
    obtain ⟨f, told, reads⟩ := same.reads (r := List.replicate (n + 1) 46) (by rw [split]; simp)
    exact Reads.not_dots told reads
  induction reading with
  | split rounds => exact start rounds
  | decode _ ih => exact ih.edit rfl fun f => Reads.round
  | cut at_ _ ih => exact ih.edit rfl fun f => Reads.of_cut at_
  | strip trailing _ ih => exact ih.edit rfl fun f => Reads.of_strip trailing
  | dropEmpty _ ih => exact ih.drop rfl fun f => Reads.empty
  | dropDot _ ih => exact (dots (n := 0) ih rfl).elim
  | @dropDotDot before after parent _ ih =>
    have split : before ++ parent :: [46, 46] :: after = (before ++ [parent]) ++ List.replicate
        (1 + 1) 46 :: after := by
      simp [replicate_succ]
    exact (dots ih split).elim
  | @dropFirstDotDot after _ ih =>
    have split : [46, 46] :: after = [] ++ List.replicate (1 + 1) (46 : UInt8) :: after := rfl
    exact (dots ih split).elim

theorem first (same : Matches (r :: left) canonical) (plain : Percent.decode r = r) (some_ : strip (cut r) ≠ []) :
    ∃ f rest, (canonical.filter fun f => cut f ≠ []) = f :: rest ∧ strip (cut f) = strip (cut r) := by
  generalize all : r :: left = whole at same
  induction same with
  | nil => cases all
  | @keep _ canonical _ f reads told rest ih =>
    obtain ⟨rfl, rfl⟩ := List.cons.inj all
    have core := reads.core plain
    have counts : cut f ≠ [] := by
      intro none_
      rw [core, none_] at some_
      exact some_ rfl
    exact ⟨f, _, filter_cons_of_pos (by simpa using counts), core.symm⟩
  | skip skipped rest ih =>
    rw [filter_cons_of_neg (by simpa using skipped)]
    exact ih all

end Matches
end

section
variable {raw s f r form w a b : Str} {k : Nat}

/-- A form that is a text without a slash, a backslash or a control character. -/
def Clean (form : Str) : Prop := ∃ text, Utf8.read form = some text ∧ ∀ c ∈ text.toList, structural c = false

theorem utf8EncodeChar_one {c : Char} (low : c.toNat ≤ 127) : String.utf8EncodeChar c = [UInt8.ofNat c.toNat] := by
  rw [Char.toNat] at low
  unfold String.utf8EncodeChar
  rw [if_pos low]
  rfl

theorem utf8EncodeChar_two {c : Char} (low : 127 < c.toNat) (high : c.toNat ≤ 2047) :
    String.utf8EncodeChar c = [UInt8.ofNat (c.toNat / 64 % 32 + 192), UInt8.ofNat (c.toNat % 64 + 128)] := by
  rw [Char.toNat] at low high
  unfold String.utf8EncodeChar
  rw [if_neg (by omega), if_pos (by omega)]
  rfl

theorem structural_inert {c : Char} (bad : structural c = true) : ∀ b ∈ String.utf8EncodeChar c, Percent.Inert b := by
  have range : c.toNat = 47 ∨ c.toNat = 92 ∨ c.toNat < 32 ∨ (127 ≤ c.toNat ∧ c.toNat < 160) := by
    simp only [structural, isControl, Bool.or_eq_true, Bool.and_eq_true, beq_iff_eq, decide_eq_true_eq] at bad
    rcases bad with (rfl | rfl) | control
    · exact .inl rfl
    · exact .inr (.inl rfl)
    · exact .inr (.inr control)
  intro b member
  by_cases small : c.toNat ≤ 127
  · rw [utf8EncodeChar_one small, mem_singleton] at member
    rw [member]
    exact Percent.inert_ofNat (by omega) (by omega) (by omega) (by omega) (by omega)
  · rw [utf8EncodeChar_two (by omega) (by omega)] at member
    simp only [mem_cons, not_mem_nil, or_false] at member
    rcases member with rfl | rfl
    all_goals exact Percent.inert_ofNat (by omega) (by omega) (by omega) (by omega) (by omega)

theorem Clean.no_slash (clean : Clean form) : slash ∉ form := by
  obtain ⟨text, read, clean⟩ := clean
  rw [Utf8.eq_of_read read]
  refine Bytes.not_mem_ofText (by decide) fun c member same => ?_
  have apart := clean c member
  have equal : c = '/' := Char.toNat_inj.mp same
  subst equal
  exact absurd apart (by decide)

theorem decodePercent_some {strict : Bool} (decoded : decodePercent raw strict = some s) :
    s = Percent.decode raw ∧ (Utf8.read s).isSome := by
  unfold decodePercent at decoded
  split at decoded
  · cases decoded
  cases read : Utf8.read (Percent.decode raw) with
  | none => simp [read] at decoded
  | some text =>
    simp only [read, Option.map_some, Option.some.injEq] at decoded
    subst decoded
    exact ⟨rfl, by simp [read]⟩

theorem rejectStructural_some (passed : rejectStructural s = some ()) : Clean s := by
  unfold rejectStructural at passed
  split at passed
  · rename_i text read
    split at passed
    · cases passed
    rename_i clean
    exact ⟨text, read, fun c member => Bool.eq_false_iff.mpr fun bad => clean (any_eq_true.mpr ⟨c, member,
        bad⟩)⟩
  · cases passed

theorem rounds_some {n : Nat} (settled : rounds n s = some f) (clean : Clean s) :
    Percent.Settles s f ∧ ∀ k, Clean (Percent.decode^[k] s) := by
  have still (fixed : Percent.decode s = s) : Percent.Settles s s ∧ ∀ k, Clean (Percent.decode^[k] s) :=
    ⟨Percent.settles_fixed fixed, fun k => by rwa [Percent.iterate_fixed fixed]⟩
  induction n generalizing s with
  | zero =>
    simp only [rounds, Option.bind_eq_bind, Option.bind_eq_some_iff] at settled
    obtain ⟨next, decoded, same⟩ := settled
    split at same
    · rename_i fixed
      cases same
      exact still ((decodePercent_some decoded).1.symm.trans fixed)
    · cases same
  | succ n ih =>
    simp only [rounds, Option.bind_eq_bind, Option.bind_eq_some_iff] at settled
    obtain ⟨next, decoded, same⟩ := settled
    have next_ := (decodePercent_some decoded).1
    split at same
    · rename_i fixed
      cases same
      exact still (next_.symm.trans fixed)
    · rw [Option.bind_eq_some_iff] at same
      obtain ⟨⟨⟩, passed, rest⟩ := same
      have clean' := rejectStructural_some passed
      obtain ⟨⟨m, reached, fixed⟩, forms⟩ := ih rest clean' fun fixed =>
        ⟨Percent.settles_fixed fixed, fun k => by rwa [Percent.iterate_fixed fixed]⟩
      refine ⟨⟨m + 1, ?_, fixed⟩, fun k => ?_⟩
      · rw [Function.iterate_succ_apply, ← next_, reached]
      · cases k with
        | zero => exact clean
        | succ k =>
          rw [Function.iterate_succ_apply, ← next_]
          exact forms k

/-- The canonical segment is the fixed point of decoding, and every decoded form on the way to it is clean. -/
theorem canonicalSegment_some (canonical : canonicalSegment raw = some f) :
    Percent.Settles raw f ∧ backslash ∉ raw ∧ ∀ k, Clean (Percent.decode^[k + 1] raw) := by
  unfold canonicalSegment at canonical
  split at canonical
  · cases canonical
  rename_i straight
  simp only [Option.bind_eq_bind, Option.bind_eq_some_iff] at canonical
  obtain ⟨first, decoded, ⟨⟩, passed, settled⟩ := canonical
  have first_ := (decodePercent_some decoded).1
  obtain ⟨⟨n, reached, fixed⟩, forms⟩ := rounds_some settled (rejectStructural_some passed)
  refine ⟨⟨n + 1, ?_, fixed⟩, fun member => straight (contains_iff_mem.mpr member), fun k => ?_⟩
  · rw [Function.iterate_succ_apply, ← first_, reached]
  · rw [Function.iterate_succ_apply, ← first_]
    exact forms k

theorem segments_clean (clean : slash ∉ a) : segments a = [a] := by
  induction a with
  | nil => rfl
  | cons x rest ih =>
    have other : x ≠ slash := fun same => clean (same ▸ mem_cons_self ..)
    rw [segments, if_neg other, ih fun member => clean (mem_cons_of_mem _ member)]

theorem segments_append (clean : slash ∉ a) : segments (a ++ slash :: b) = a :: segments b := by
  induction a with
  | nil => rw [nil_append, segments, if_pos rfl]
  | cons x rest ih =>
    have other : x ≠ slash := fun same => clean (same ▸ mem_cons_self ..)
    rw [cons_append, segments, if_neg other, ih fun member => clean (mem_cons_of_mem _ member)]

theorem no_slash_of_mem {segment : Str} (member : segment ∈ segments w) : slash ∉ segment := by
  induction w generalizing segment with
  | nil =>
    rw [mem_singleton.mp member]
    exact not_mem_nil
  | cons x rest ih =>
    rw [segments] at member
    split at member
    · rcases mem_cons.mp member with rfl | later
      · exact not_mem_nil
      · exact ih later
    · rename_i other
      cases pieces : segments rest with
      | nil =>
        rw [pieces] at member
        rw [mem_singleton.mp member]
        exact fun inside => other (mem_singleton.mp inside).symm
      | cons first more =>
        rw [pieces] at member
        rcases mem_cons.mp member with rfl | later
        · intro inside
          rcases mem_cons.mp inside with same | inside
          · exact other same.symm
          · exact ih (pieces ▸ mem_cons_self ..) inside
        · exact ih (pieces ▸ mem_cons_of_mem _ later)

theorem segments_cases (w : Str) : slash ∉ w ∨ ∃ a b, slash ∉ a ∧ w = a ++ slash :: b := by
  by_cases member : slash ∈ w
  · obtain ⟨a, b, same, clean⟩ := eq_append_cons_of_mem member
    exact .inr ⟨a, b, clean, same⟩
  · exact .inl member

theorem segments_iterate (forms : ∀ segment ∈ segments w, slash ∉ Percent.decode^[k] segment) :
    segments (Percent.decode^[k] w) = (segments w).map Percent.decode^[k] := by
  induction size : w.length using Nat.strong_induction_on generalizing w with
  | _ n ih =>
    rcases segments_cases w with clean | ⟨a, b, clean, rfl⟩
    · rw [segments_clean clean] at forms ⊢
      exact segments_clean (forms w (mem_singleton_self w))
    rw [segments_append clean] at forms ⊢
    rw [Percent.iterate_append slash_inert, segments_append (forms a (mem_cons_self ..)), map_cons,
      ih b.length (by rw [← size]; simp only [length_append, length_cons]; omega)
        (fun segment member => forms segment (mem_cons_of_mem _ member)) rfl]

theorem stack_some {raws counted : List Str} (passed : stack raws = some counted) :
    ∃ canonical, List.Forall₂ (fun raw f => canonicalSegment raw = some f ∧ Told f) raws canonical ∧
      counted = canonical.filter fun f => cut f ≠ [] := by
  induction raws generalizing counted with
  | nil =>
    cases passed
    exact ⟨[], .nil, rfl⟩
  | cons raw rest ih =>
    simp only [stack, Option.bind_eq_bind, Option.bind_eq_some_iff] at passed
    obtain ⟨seg, canonical, passed⟩ := passed
    split at passed
    · cases passed
    rename_i kept
    rw [Option.bind_eq_some_iff] at passed
    obtain ⟨more, later, same⟩ := passed
    obtain ⟨others, matched, rfl⟩ := ih later
    have told : Told seg := by
      by_cases skipped : cut seg = []
      · exact .inl skipped
      · exact .inr (Bool.eq_false_iff.mpr fun all => kept ⟨skipped, all⟩)
    refine ⟨seg :: others, .cons ⟨canonical, told⟩ matched, ?_⟩
    cases same
    by_cases skipped : cut seg = []
    · rw [if_pos skipped, filter_cons_of_neg (by simpa using skipped)]
    · rw [if_neg skipped, filter_cons_of_pos (by simpa using skipped)]

/-- A slash, a backslash or a control character of a text is still there when an escape of it was decoded. -/
theorem clean_of_round {text : String} (clean : Clean (Percent.decode (Bytes.ofText text))) :
    ∀ c ∈ text.toList, structural c = false := by
  obtain ⟨decoded, read, clean⟩ := clean
  intro c member
  refine Bool.eq_false_iff.mpr fun bad => ?_
  have inert := structural_inert bad
  obtain ⟨front, back, same⟩ := append_of_mem member
  have bytes : Bytes.ofText text = front.flatMap String.utf8EncodeChar ++ String.utf8EncodeChar c ++
      back.flatMap String.utf8EncodeChar := by
    rw [Bytes.ofText_eq, same]
    simp
  cases encoded : String.utf8EncodeChar c with
  | nil =>
    have some_ := String.length_utf8EncodeChar c
    have positive := c.utf8Size_pos
    rw [encoded, length_nil] at some_
    omega
  | cons lead tail =>
    rw [encoded] at inert bytes
    have kept : Percent.decode (Bytes.ofText text) = Percent.decode (front.flatMap String.utf8EncodeChar) ++
        String.utf8EncodeChar c ++ Percent.decode (back.flatMap String.utf8EncodeChar) := by
      rw [bytes, encoded, append_assoc, cons_append,
        Percent.decode_append (inert lead (mem_cons_self ..)),
        Percent.decode_inert_append fun b member => inert b (mem_cons_of_mem _ member)]
      simp
    rw [Utf8.eq_of_read read, Bytes.ofText_eq] at kept
    have apart := clean c (Utf8.mem_of_infix kept)
    rw [bad] at apart
    cases apart

theorem Matches.of_stack {raws canonical : List Str}
    (matched : List.Forall₂ (fun raw f => canonicalSegment raw = some f ∧ Told f) raws canonical) (k : Nat) :
    Matches (raws.map Percent.decode^[k]) canonical := by
  induction matched with
  | nil => exact .nil
  | cons here rest ih =>
    obtain ⟨settles, -, -⟩ := canonicalSegment_some here.1
    refine .keep ⟨_, ?_, prefix_refl _, rfl⟩ here.2 ih
    exact settles.iterate k

theorem told_of_mem {raws canonical : List Str}
    (matched : List.Forall₂ (fun raw f => canonicalSegment raw = some f ∧ Told f) raws canonical) {raw : Str}
    (member : raw ∈ raws) : ∃ f, canonicalSegment raw = some f ∧ Told f := by
  induction matched with
  | nil => cases member
  | cons here rest ih =>
    rcases mem_cons.mp member with rfl | later
    · exact ⟨_, here⟩
    · exact ih later

theorem reserved_plain (kernels : eqIgnoreAsciiCase r (Bytes.ofText RESERVED_SEGMENT) = true) :
    Percent.decode r = r ∧ strip (cut r) = r := by
  have bytes : Bytes.ofText RESERVED_SEGMENT = [95, 97, 50, 52] := by decide
  have lowered : ∀ b ∈ r, lower b ∈ ([95, 97, 50, 52] : Str) := by
    intro b member
    have same : r.map lower = [95, 97, 50, 52] := by
      exact (beq_iff_eq.mp kernels).trans (by decide)
    exact same ▸ mem_map_of_mem member
  have plain : ∀ b ∈ r, b ≠ Percent.sign ∧ (!cuts b) = true ∧ trims b = false := by
    intro b member
    have low := lowered b member
    have apart : ∀ x ∈ ([37, 59, 63, 35, 46, 32] : Str), lower x ∉ ([95, 97, 50, 52] : Str) :=
      all_iff_forall_prop.mp (by decide)
    have other (x : UInt8) (listed : x ∈ ([37, 59, 63, 35, 46, 32] : Str)) : b ≠ x := fun same =>
      apart x listed (same ▸ low)
    have ne (x : UInt8) (listed : x ∈ ([37, 59, 63, 35, 46, 32] : Str)) : (b == x) = false :=
      beq_eq_false_iff_ne.mpr (other x listed)
    refine ⟨other 37 (by decide), ?_, ?_⟩
    · rw [cuts, ne 59 (by decide), ne 63 (by decide), ne 35 (by decide)]
      rfl
    · rw [trims, ne 46 (by decide), ne 32 (by decide)]
      rfl
  have whole : cut r = r := takeWhile_eq_self_iff.mpr fun b member => (plain b member).2.1
  refine ⟨Percent.decode_of_not_mem fun member => (plain _ member).1 rfl, ?_⟩
  rw [whole, strip]
  cases back : r.reverse with
  | nil => rw [reverse_eq_nil_iff.mp back]; rfl
  | cons last rest =>
    have member : last ∈ r := mem_reverse.mp (back ▸ mem_cons_self ..)
    rw [dropWhile_cons, (plain last member).2.2, if_neg Bool.false_ne_true, ← back, reverse_reverse]

theorem judge_forward {namespace_ below : String} (forwarded : judge namespace_ (namespace_ ++
    ("/" ++ below)) = .forward) :
    ∃ canonical, List.Forall₂ (fun raw f => canonicalSegment raw = some f ∧ Told f)
        (segments (Bytes.ofText below)) canonical ∧
      ∀ f rest, (canonical.filter fun f => cut f ≠ []) = f :: rest → isReserved f = false := by
  have stripped : Text.strip namespace_ (namespace_ ++ ("/" ++ below)) = some ("/" ++ below) :=
    (Text.strip_eq_some ..).mpr rfl
  have split : segments (Bytes.ofText ("/" ++ below)) = [] :: segments (Bytes.ofText below) := by
    exact segments_append (a := []) (by simp)
  unfold judge at forwarded
  simp only [stripped, Text.startsWith_append, Bool.not_true, Bool.false_eq_true, and_false, if_false,
      split] at forwarded
  cases passed : stack ([] :: segments (Bytes.ofText below)) with
  | none => simp [passed] at forwarded
  | some counted =>
    obtain ⟨canonical, matched, counted_⟩ := stack_some passed
    cases matched with
    | cons here rest =>
      rename_i first others
      have empty : first = [] := by
        have told : canonicalSegment [] = some [] := by decide
        exact Option.some.inj (here.1.symm.trans told)
      refine ⟨others, rest, fun f more first_ => ?_⟩
      rw [empty, filter_cons_of_neg (by decide), first_] at counted_
      rw [passed, counted_] at forwarded
      dsimp only at forwarded
      split at forwarded
      · cases forwarded
      · rename_i other
        exact Bool.eq_false_iff.mpr other

theorem escaped_of_not_mem (clean : Percent.sign ∉ raw) : escaped raw = true := by
  induction raw with
  | nil => rfl
  | cons b rest ih =>
    have other : (b != Percent.sign) = true := bne_iff_ne.mpr fun same => clean (same ▸ mem_cons_self ..)
    rw [escaped, other, ih fun member => clean (mem_cons_of_mem _ member)]
    rfl

theorem canonicalSegment_plain {text : String} (no_sign : '%' ∉ text.toList)
    (clean : ∀ c ∈ text.toList, structural c = false) :
    canonicalSegment (Bytes.ofText text) = some (Bytes.ofText text) := by
  have absent (c : Char) (b : UInt8) (small : b.toNat < 128) (same : c.toNat = b.toNat) (missing : c ∉ text.toList) :
      b ∉ Bytes.ofText text :=
    Bytes.not_mem_ofText small fun d member equal => missing (Char.toNat_inj.mp (equal.trans same.symm) ▸ member)
  have no_backslash : (Bytes.ofText text).contains backslash = false := by
    refine Bool.eq_false_iff.mpr fun member => ?_
    refine absent '\\' backslash (by decide) rfl (fun there => ?_) (contains_iff_mem.mp member)
    exact absurd (clean _ there) (by decide)
  have no_sign : Percent.sign ∉ Bytes.ofText text := absent '%' Percent.sign (by decide) rfl no_sign
  have decoded (strict : Bool) : decodePercent (Bytes.ofText text) strict = some (Bytes.ofText text) := by
    rw [decodePercent, escaped_of_not_mem no_sign, Percent.decode_of_not_mem no_sign, Utf8.read_ofText]
    cases strict <;> rfl
  have passed : rejectStructural (Bytes.ofText text) = some () := by
    unfold rejectStructural
    rw [Utf8.read_ofText]
    dsimp only
    rw [if_neg]
    intro bad
    obtain ⟨c, member, bad⟩ := any_eq_true.mp bad
    rw [clean c member] at bad
    cases bad
  rw [canonicalSegment, no_backslash]
  simp [decoded, passed, EXTRA_DECODE_ROUNDS, rounds]

theorem segments_ne_nil (w : Str) : segments w ≠ [] := by
  rcases segments_cases w with clean | ⟨a, b, clean, rfl⟩
  · rw [segments_clean clean]
    exact cons_ne_nil w []
  · rw [segments_append clean]
    exact cons_ne_nil a _

theorem segments_prepend (clean : slash ∉ a) {first : Str} {rest : List Str} (split : segments w = first :: rest) :
    segments (a ++ w) = (a ++ first) :: rest := by
  induction a with
  | nil => exact split
  | cons x more ih =>
    have other : x ≠ slash := fun same => clean (same ▸ mem_cons_self ..)
    rw [cons_append, segments, if_neg other, ih fun member => clean (mem_cons_of_mem _ member)]
    rfl

theorem segments_flatMap (chars : List Char) :
    segments (chars.flatMap String.utf8EncodeChar) =
      (Text.splitList (· == '/') chars).map fun piece => piece.flatMap String.utf8EncodeChar := by
  induction chars with
  | nil => rfl
  | cons c rest ih =>
    rw [flatMap_cons, Text.splitList]
    by_cases here : c = '/'
    · subst here
      rw [if_pos (by decide), map_cons, ← ih]
      exact segments_append (a := []) (by simp)
    · rw [if_neg (by simpa using here)]
      have clean : slash ∉ String.utf8EncodeChar c := fun member =>
        here (Char.toNat_inj.mp (Bytes.mem_utf8EncodeChar (by decide) member))
      cases pieces : Text.splitList (· == '/') rest with
      | nil =>
        rw [pieces] at ih
        exact absurd ih (segments_ne_nil _)
      | cons piece more =>
        rw [pieces] at ih
        rw [segments_prepend clean ih, map_cons, flatMap_cons]

theorem segments_ofText (text : String) :
    segments (Bytes.ofText text) = (Text.split (· == '/') text).map Bytes.ofText := by
  rw [Bytes.ofText_eq, segments_flatMap, Text.split, map_map]
  refine map_congr_left fun piece _ => ?_
  rw [Function.comp_apply, Bytes.ofText_eq, String.toList_ofList]

/-- A piece of a path that no rule but the kernel's own segment is about. -/
structure Plain (piece : String) : Prop where
  no_sign : '%' ∉ piece.toList
  clean : ∀ c ∈ piece.toList, structural c = false
  no_cuts : ∀ c ∈ piece.toList, c ≠ ';' ∧ c ≠ '?' ∧ c ≠ '#'
  more : piece ≠ "" → ∃ c ∈ piece.toList, c ≠ '.' ∧ c ≠ ' '

theorem Plain.cut {piece : String} (plain : Plain piece) : cut (Bytes.ofText piece) = Bytes.ofText piece := by
  have absent (c : Char) (b : UInt8) (small : b.toNat < 128) (same : c.toNat = b.toNat) (missing : c ∉ piece.toList) :
      b ∉ Bytes.ofText piece :=
    Bytes.not_mem_ofText small fun d member equal => missing (Char.toNat_inj.mp (equal.trans same.symm) ▸ member)
  refine takeWhile_eq_self_iff.mpr fun b member => ?_
  have ne (c : Char) (x : UInt8) (small : x.toNat < 128) (same : c.toNat = x.toNat) (missing : c ∉ piece.toList) :
      (b == x) = false :=
    beq_eq_false_iff_ne.mpr fun equal => absent c x small same missing (equal ▸ member)
  rw [cuts, ne ';' 59 (by decide) rfl fun there => (plain.no_cuts _ there).1 rfl,
    ne '?' 63 (by decide) rfl fun there => (plain.no_cuts _ there).2.1 rfl,
    ne '#' 35 (by decide) rfl fun there => (plain.no_cuts _ there).2.2 rfl]
  rfl

theorem Plain.not_trims {piece : String} (plain : Plain piece) (some_ : piece ≠ "") :
    (Bytes.ofText piece).all trims = false := by
  obtain ⟨c, member, not_dot, not_space⟩ := plain.more some_
  refine Bool.eq_false_iff.mpr fun all => ?_
  have bytes : ∀ b ∈ String.utf8EncodeChar c, trims b = true := fun b there =>
    all_eq_true.mp all b (by rw [Bytes.ofText_eq]; exact mem_flatMap.mpr ⟨c, member, there⟩)
  cases encoded : String.utf8EncodeChar c with
  | nil =>
    have size := String.length_utf8EncodeChar c
    have positive := c.utf8Size_pos
    rw [encoded, length_nil] at size
    omega
  | cons b rest =>
    have here : b ∈ String.utf8EncodeChar c := encoded ▸ mem_cons_self ..
    have trim := bytes b here
    simp only [trims, Bool.or_eq_true, beq_iff_eq] at trim
    rcases trim with rfl | rfl
    · exact not_dot (Char.toNat_inj.mp (Bytes.mem_utf8EncodeChar (by decide) here))
    · exact not_space (Char.toNat_inj.mp (Bytes.mem_utf8EncodeChar (by decide) here))

theorem ofText_eq_nil {text : String} : Bytes.ofText text = [] ↔ text = "" := by
  constructor
  · intro none_
    exact Bytes.ofText_injective (none_.trans (by decide))
  · rintro rfl
    decide

theorem stack_plain {pieces : List String} (plain : ∀ p ∈ pieces, Plain p) :
    stack (pieces.map Bytes.ofText) = some ((pieces.filter fun p => p ≠ "").map Bytes.ofText) := by
  induction pieces with
  | nil => rfl
  | cons p rest ih =>
    have here := plain p (mem_cons_self ..)
    have told := canonicalSegment_plain here.no_sign here.clean
    have later := ih fun q member => plain q (mem_cons_of_mem _ member)
    by_cases empty : p = ""
    · subst empty
      have bytes : Bytes.ofText "" = [] := by decide
      rw [bytes] at told
      simp [stack, told, bytes, later, Proxy.cut]
    · have some_ : Bytes.ofText p ≠ [] := fun none_ => empty (ofText_eq_nil.mp none_)
      have counts : ¬ ((Bytes.ofText p).all trims = true) := by
        rw [here.not_trims empty]
        exact Bool.false_ne_true
      rw [map_cons, stack, told, filter_cons_of_pos (by simpa using empty), map_cons]
      simp only [Option.bind_eq_bind, Option.bind_some, here.cut, later, some_, ne_eq, not_false_iff, true_and,
        if_neg counts, if_false]

/-- Where no rule but the kernel's own segment is about a path, that segment alone is not forwarded. -/
theorem judge_plain {namespace_ rest : String} (under : rest = "" ∨ ∃ below, rest = "/" ++ below)
    (plain : ∀ p ∈ Text.split (· == '/') rest, Plain p)
    (others : ∀ p, (Text.split (· == '/') rest).find? (fun p => p ≠ "") = some p →
      eqIgnoreAsciiCase (strip (Bytes.ofText p)) (Bytes.ofText RESERVED_SEGMENT) = false) :
    judge namespace_ (namespace_ ++ rest) = .forward := by
  have stripped : Text.strip namespace_ (namespace_ ++ rest) = some rest := (Text.strip_eq_some ..).mpr rfl
  have starts : ¬ (rest ≠ "" ∧ (!Text.startsWith "/" rest) = true) := by
    rintro ⟨some_, apart⟩
    rcases under with rfl | ⟨below, rfl⟩
    · exact some_ rfl
    · rw [Text.startsWith_append] at apart
      cases apart
  simp only [judge, stripped, if_neg starts, segments_ofText, stack_plain plain]
  cases counted : (Text.split (· == '/') rest).filter fun p => p ≠ "" with
  | nil => rfl
  | cons first more =>
    have found : (Text.split (· == '/') rest).find? (fun p => p ≠ "") = some first := by
      rw [← List.head?_filter, counted, List.head?_cons]
    have listed : first ∈ Text.split (· == '/') rest := mem_of_find?_eq_some found
    have other : isReserved (Bytes.ofText first) = false := by
      rw [isReserved, (plain first listed).cut]
      exact others first found
    simp only [map_cons, other, Bool.false_eq_true, if_false]

/-- A server makes nothing of a forwarded path whose first segment is the kernel's; a canonical segment is the fixed
point of decoding. -/
theorem reserved_never_forwarded :
    (∀ (namespace_ raw below : String) (left : List Str), judge namespace_ raw = .forward →
      raw = namespace_ ++ ("/" ++ below) → Reading (Bytes.ofText below) left →
      ∀ first, left.head? = some first → eqIgnoreAsciiCase first (Bytes.ofText RESERVED_SEGMENT) = false) ∧
    (∀ (raw : String) (f : Str), canonicalSegment (Bytes.ofText raw) = some f →
      Percent.decode f = f ∧ (∃ n, Percent.decode^[n] (Bytes.ofText raw) = f) ∧
      ∀ k, ∃ form : String, Percent.decode^[k] (Bytes.ofText raw) = Bytes.ofText form ∧
        ∀ c ∈ form.toList, c ≠ '/' ∧ c ≠ '\\' ∧ isControl c = false) ∧
    (∀ namespace_ rest : String, (rest = "" ∨ ∃ below, rest = "/" ++ below) →
      (∀ c ∈ rest.toList, c ∉ ['%', ';', '?', '#', '\\'] ∧ isControl c = false) →
      (∀ p ∈ Text.split (· == '/') rest, p ≠ "" → ∃ c ∈ p.toList, c ≠ '.' ∧ c ≠ ' ') →
      (∀ p, (Text.split (· == '/') rest).find? (fun p => p ≠ "") = some p →
        eqIgnoreAsciiCase (strip (Bytes.ofText p)) (Bytes.ofText RESERVED_SEGMENT) = false) →
      judge namespace_ (namespace_ ++ rest) = .forward) := by
  refine ⟨fun namespace_ raw below left forwarded same reading first head => ?_, fun raw f canonical => ?_,
    fun namespace_ rest under clean more others => judge_plain under (fun p listed => ?_) others⟩
  · subst same
    obtain ⟨canonical, matched, others⟩ := judge_forward forwarded
    have forms (k : Nat) : ∀ segment ∈ segments (Bytes.ofText below), slash ∉ Percent.decode^[k] segment := by
      intro segment member
      cases k with
      | zero => exact no_slash_of_mem member
      | succ k =>
        obtain ⟨f, told⟩ := told_of_mem matched member
        exact ((canonicalSegment_some told.1).2.2 k).no_slash
    have start (k : Nat) : Matches (segments (Percent.decode^[k] (Bytes.ofText below))) canonical :=
      (segments_iterate (forms k)) ▸ Matches.of_stack matched k
    have matches_ := Matches.reading start reading
    cases left with
    | nil => cases head
    | cons r rest =>
      obtain rfl : r = first := Option.some.inj head
      refine Bool.eq_false_iff.mpr fun kernels => ?_
      obtain ⟨plain, core⟩ := reserved_plain kernels
      have some_ : strip (cut r) ≠ [] := by
        rw [core]
        rintro rfl
        exact absurd kernels (by decide)
      obtain ⟨f, more, counted, same⟩ := matches_.first plain some_
      have apart := others f more counted
      rw [isReserved, same, core, kernels] at apart
      cases apart
  · obtain ⟨⟨n, reached, fixed⟩, -, forms⟩ := canonicalSegment_some canonical
    refine ⟨fixed, ⟨n, reached⟩, fun k => ?_⟩
    have split {c : Char} (clean : structural c = false) : c ≠ '/' ∧ c ≠ '\\' ∧ isControl c = false := by
      simpa [structural, and_assoc] using clean
    cases k with
    | zero => exact ⟨raw, rfl, fun c member => split (clean_of_round (forms 0) c member)⟩
    | succ k =>
      obtain ⟨form, read, clean⟩ := forms k
      exact ⟨form, Utf8.eq_of_read read, fun c member => split (clean c member)⟩
  · obtain ⟨piece, split, rfl⟩ := mem_map.mp listed
    have inside {c : Char} (member : c ∈ (String.ofList piece).toList) : c ∈ rest.toList ∧ c ≠ '/' := by
      rw [String.toList_ofList] at member
      exact (Text.mem_splitList split member).imp_right beq_eq_false_iff_ne.mp
    refine ⟨fun member => (clean _ (inside member).1).1 (by decide), fun c member => ?_, fun c member => ?_,
        more _ listed⟩
    · have here := clean c (inside member).1
      have slash_ := (inside member).2
      simp only [mem_cons, not_mem_nil, or_false, not_or] at here
      simp [structural, slash_, here.1.2.2.2.2, here.2]
    · have here := (clean c (inside member).1).1
      simp only [mem_cons, not_mem_nil, or_false, not_or] at here
      exact ⟨here.2.1, here.2.2.1, here.2.2.2.1⟩

end
end Agent24.Proxy
