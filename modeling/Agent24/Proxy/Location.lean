import Agent24.Library.Url
import Agent24.Platform
import Agent24.Proxy.Readings

/-! Where a module may send a browser: the check of a `Location` header, and the URL a browser makes of it. -/

set_option autoImplicit false
namespace Agent24.Proxy
open Library List

/-! ## The check -/

/-- `replace("%2e", ".")`, with the last byte as a parameter. -/
def dotted (e : UInt8) : Str → Str
  | p :: h :: l :: rest =>
    if p = Url.percent ∧ h = 50 ∧ l = e then 46 :: dotted e rest else p :: dotted e (h :: l :: rest)
  | short => short

def unescaped (path : Str) : Str := dotted 69 (dotted 101 path)

def hasScheme (reference : Str) : Bool :=
  let before := reference.takeWhile (· != 58)
  if before.length = reference.length then false
  -- a colon after the first of these belongs to the path
  else if before.any fun b => b == slash || Url.ends b then false
  else before.head?.any Url.isAlpha && before.tail.all Url.schemeByte

/-- Collapses `.` and `..`; none where `..` escapes the root. -/
def collapse : List Str → List Str → Option (List Str)
  | out, [] => some out
  | out, s :: rest =>
    if s = [] ∨ s = [46] then collapse out rest
    else if s = [46, 46] then if out = [] then none else collapse out.dropLast rest
    else collapse (out ++ [s]) rest

def normaliseDotSegments (path : Str) : Option Str :=
  (collapse [] (segments path)).map fun out => slash :: [slash].intercalate out

def directory (requestPath : Str) : Str :=
  if requestPath.contains slash then (requestPath.reverse.dropWhile (· != slash)).reverse else [slash]

def pathOf (reference : Str) : Str := reference.takeWhile fun b => !Url.ends b

def locationWithin (namespace_ requestPath location : String) : Bool :=
  -- the string judged has to be the string a browser resolves
  if location.toList.any fun c => isControl c || isWhitespace c then false
  else
    let reference := Bytes.ofText location
    if reference.contains backslash || [slash, slash].isPrefixOf reference || hasScheme reference then false
    else
      let path := pathOf reference
      if path = [] then true
      else
        let decoded := unescaped path
        let absolute :=
          if decoded.head? = some slash then decoded else directory (Bytes.ofText requestPath) ++ decoded
        match normaliseDotSegments absolute with
        | none => false
        | some normalised =>
          normalised == Bytes.ofText namespace_ || (Bytes.ofText namespace_ ++ [slash]).isPrefixOf normalised

/-! ## Namespaces -/

def plainByte (b : UInt8) : Bool := Url.isAlpha b || (48 ≤ b && b ≤ 57) || b == 45 || b == 95

/-- A namespace is one or more plain names, such as `/api/v1/<module>`. -/
structure Mounted (namespace_ : String) (names : List Str) : Prop where
  text : Bytes.ofText namespace_ = Url.pathText names
  some_ : names ≠ []
  plain : ∀ name ∈ names, name ≠ [] ∧ ∀ b ∈ name, plainByte b = true

def Below (namespace_ path : Str) : Prop := path = namespace_ ∨ namespace_ ++ [slash] <+: path

def Sound (base : Url) (namespace_ location : String) : Prop :=
  ∃ url, Url.resolve base (Bytes.ofText location) = some url ∧ url.scheme = base.scheme ∧
    url.authority = base.authority ∧ Below (Bytes.ofText namespace_) (Url.pathText url.path)

/-- The segments a browser reads: the request's directory, unless the reference begins with a slash, then the
reference's own. -/
def reads (base : Url) (path : Str) : List Str :=
  if path.head? = some slash then (segments path.tail).map Url.encoded
  else base.path.dropLast ++ (segments path).map Url.encoded

section
variable {e b : UInt8} {a w s t path : Str} {names segs D : List Str}

/-! ## Encoded dots -/

theorem dotted_cons (other : b ≠ Url.percent) : dotted e (b :: w) = b :: dotted e w := by
  rcases w with _ | ⟨h, _ | ⟨l, rest⟩⟩
  · rfl
  · rfl
  · rw [dotted, if_neg fun all => other all.1]

theorem slash_ne_percent : slash ≠ Url.percent := by decide

theorem dotted_append (apart : e ≠ slash) (clean : slash ∉ a) :
    dotted e (a ++ slash :: w) = dotted e a ++ slash :: dotted e w ∧ slash ∉ dotted e a := by
  induction size : a.length using Nat.strong_induction_on generalizing a with
  | _ n ih =>
    have smaller : ∀ a' : Str, a'.length < a.length → slash ∉ a' →
        dotted e (a' ++ slash :: w) = dotted e a' ++ slash :: dotted e w ∧ slash ∉ dotted e a' :=
      fun a' less clean' => ih _ (size ▸ less) clean' rfl
    cases a with
    | nil => exact ⟨dotted_cons slash_ne_percent, not_mem_nil⟩
    | cons p a =>
      have first : slash ≠ p := fun same => clean (same ▸ mem_cons_self ..)
      have tail_ : slash ∉ a := fun member => clean (mem_cons_of_mem _ member)
      obtain ⟨joined, rest⟩ := smaller a (Nat.lt_succ_self _) tail_
      have kept : slash ∉ p :: dotted e a := fun member => (mem_cons.mp member).elim first rest
      rcases a with _ | ⟨h, _ | ⟨l, more⟩⟩
      · refine ⟨?_, kept⟩
        rcases w with _ | ⟨c, w⟩
        · rfl
        rw [cons_append, nil_append, dotted, if_neg fun all => absurd all.2.1 (by decide),
          dotted_cons slash_ne_percent]
        rfl
      · refine ⟨?_, kept⟩
        rw [cons_append, cons_append, nil_append, dotted, if_neg fun all => apart all.2.2.symm]
        exact congrArg (p :: ·) joined
      · rw [cons_append, cons_append, cons_append, dotted, dotted]
        split
        · obtain ⟨joined, rest⟩ := smaller more (by simp only [length_cons]; omega) fun member =>
            tail_ (mem_cons_of_mem _ (mem_cons_of_mem _ member))
          rw [joined]
          exact ⟨rfl, fun member => (mem_cons.mp member).elim (by decide) rest⟩
        · rw [← cons_append, ← cons_append, joined]
          exact ⟨rfl, kept⟩

theorem segments_dotted (apart : e ≠ slash) : segments (dotted e w) = (segments w).map (dotted e) := by
  induction size : w.length using Nat.strong_induction_on generalizing w with
  | _ n ih =>
    rcases segments_cases w with clean | ⟨a, b, clean, rfl⟩
    · rw [segments_clean clean, segments_clean (dotted_append (w := []) apart clean).2]
      rfl
    obtain ⟨joined, whole⟩ := dotted_append (w := b) apart clean
    rw [joined, segments_append whole, segments_append clean, map_cons,
      ih b.length (by rw [← size]; simp only [length_append, length_cons]; omega) rfl]

theorem segments_unescaped : segments (unescaped w) = (segments w).map unescaped := by
  rw [unescaped, segments_dotted (by decide), segments_dotted (by decide), map_map]
  rfl

theorem unescaped_slash : unescaped (slash :: w) = slash :: unescaped w := by
  rw [unescaped, dotted_cons slash_ne_percent, dotted_cons slash_ne_percent]
  rfl

theorem dotted_head : ∃ c rest, dotted e (b :: w) = c :: rest ∧ (c = b ∨ c = 46) := by
  rcases w with _ | ⟨h, _ | ⟨l, rest⟩⟩
  · exact ⟨b, _, rfl, .inl rfl⟩
  · exact ⟨b, _, rfl, .inl rfl⟩
  rw [dotted]
  split
  · exact ⟨46, _, rfl, .inr rfl⟩
  · exact ⟨b, _, rfl, .inl rfl⟩

theorem unescaped_head (other : b ≠ slash) : (unescaped (b :: w)).head? ≠ some slash := by
  obtain ⟨c, rest, first, kept⟩ := @dotted_head 101 b w
  obtain ⟨d, rest', second, kept'⟩ := @dotted_head 69 c rest
  rw [unescaped, first, second, List.head?_cons, Ne, Option.some_inj]
  rintro rfl
  rcases kept' with rfl | dot
  · rcases kept with same | dot
    · exact other same.symm
    · exact absurd dot (by decide)
  · exact absurd dot (by decide)

end

/-! ## Paths as lists of segments -/

section
variable {b : UInt8} {a w s t x y path : Str} {names segs D : List Str}

theorem url_slash : Url.slash = slash := rfl

theorem segments_pathText (first : slash ∉ s) (clean : ∀ d ∈ D, slash ∉ d) :
    segments (s ++ (Url.pathText D ++ slash :: w)) = s :: D ++ segments w := by
  induction D generalizing s with
  | nil => exact segments_append first
  | cons d D ih =>
    have later := ih (clean d (mem_cons_self ..)) fun other member => clean other (mem_cons_of_mem _ member)
    rw [Url.pathText, flatMap_cons, append_assoc, cons_append, url_slash, segments_append first]
    exact congrArg (s :: ·) later

theorem directory_pathText (last : slash ∉ s) : directory (Url.pathText (D ++ [s])) = Url.pathText D ++ [slash] := by
  have text : Url.pathText (D ++ [s]) = Url.pathText D ++ slash :: s := by simp [Url.pathText, url_slash]
  have back : (s.reverse ++ slash :: (Url.pathText D).reverse).dropWhile (· != slash) =
      slash :: (Url.pathText D).reverse := by
    rw [dropWhile_append_of_pos]
    · rw [dropWhile_cons_of_neg (by simp)]
    · intro b member
      have other : b ≠ slash := fun same => last (same ▸ mem_reverse.mp member)
      simpa using other
  unfold directory
  rw [text, if_pos (by simp), reverse_append, reverse_cons, append_assoc, singleton_append, back,
    reverse_cons, reverse_reverse]

theorem eq_of_append (left : slash ∉ s) (right : slash ∉ t) (same : s ++ slash :: x = t ++ slash :: y) :
    s = t ∧ x = y := by
  rcases append_eq_append_iff.mp same with ⟨more, rfl, rest⟩ | ⟨more, rfl, rest⟩
  · cases more with
    | nil => exact ⟨(append_nil s).symm, (List.cons.inj rest).2⟩
    | cons b more => exact absurd (mem_append_right s ((List.cons.inj rest).1 ▸ mem_cons_self ..)) right
  · cases more with
    | nil => exact ⟨append_nil t, (List.cons.inj rest).2.symm⟩
    | cons b more => exact absurd (mem_append_right t ((List.cons.inj rest).1 ▸ mem_cons_self ..)) left

theorem below_iff_front : Below a path ↔ a ++ [slash] <+: path ++ [slash] := by
  rw [Below, prefix_concat_iff, append_left_inj, eq_comm]

theorem pathText_slash : ∃ x, Url.pathText segs ++ [slash] = slash :: x := by
  cases segs with
  | nil => exact ⟨[], rfl⟩
  | cons s segs => exact ⟨_, rfl⟩

theorem below_iff (mine : ∀ s ∈ names, slash ∉ s) (theirs : ∀ s ∈ segs, slash ∉ s) :
    Below (Url.pathText names) (Url.pathText segs) ↔ names <+: segs := by
  rw [below_iff_front]
  induction names generalizing segs with
  | nil =>
    obtain ⟨x, begins⟩ := @pathText_slash segs
    rw [begins]
    exact ⟨fun _ => nil_prefix, fun _ => cons_prefix_cons.mpr ⟨rfl, nil_prefix⟩⟩
  | cons n names ih =>
    have n_ := mine n (mem_cons_self ..)
    obtain ⟨x, nameTail⟩ := @pathText_slash names
    cases segs with
    | nil =>
      constructor
      · rintro ⟨more, same⟩
        have short := congrArg List.length same
        simp only [Url.pathText, flatMap_cons, flatMap_nil, length_append, length_cons,
          length_nil] at short
        omega
      · intro begins
        exact absurd begins (by simp)
    | cons s segs =>
      have s_ := theirs s (mem_cons_self ..)
      have rest : Url.pathText names ++ [slash] <+: Url.pathText segs ++ [slash] ↔ names <+: segs :=
        ih (fun other member => mine other (mem_cons_of_mem _ member))
          fun other member => theirs other (mem_cons_of_mem _ member)
      obtain ⟨y, segTail⟩ := @pathText_slash segs
      have text : ∀ (s : Str) segs, Url.pathText (s :: segs) ++ [slash] = slash ::
          (s ++ (Url.pathText segs ++ [slash])) := by
        intro s segs
        rw [Url.pathText, flatMap_cons, cons_append, cons_append, append_assoc]
        rfl
      rw [text, text, cons_prefix_cons, cons_prefix_cons, ← rest, nameTail, segTail]
      constructor
      · rintro ⟨-, more, same⟩
        rw [append_assoc, cons_append] at same
        obtain ⟨rfl, equal⟩ := eq_of_append n_ s_ same
        exact ⟨rfl, more, by rw [cons_append, equal]⟩
      · rintro ⟨rfl, begins⟩
        exact ⟨rfl, (prefix_append_right_inj n).mpr begins⟩

/-! ## The browser's reading -/

/-- Some bytes of a path: no `?`, no `#`, no backslash. -/
def Pathlike (w : Str) : Prop := ∀ b ∈ w, Url.ends b = false ∧ b ≠ backslash

theorem isSlash_eq_false (other : b ≠ slash) (other' : b ≠ backslash) : Url.isSlash b = false := by
  simp only [Url.isSlash, Bool.or_eq_false_iff, beq_eq_false_iff_ne]
  exact ⟨other, other'⟩

theorem pathState_segments (segs : List Str) (clean : Pathlike w) :
    ∃ dot, (dot = [] ∨ dot = [[]]) ∧
      Url.pathState segs [] w = Url.walk segs ((segments w).map Url.encoded) ++ dot := by
  induction size : w.length using Nat.strong_induction_on generalizing w segs with
  | _ n ih =>
    have bytes : ∀ {s : Str}, slash ∉ s → (∀ b ∈ s, b ∈ w) → ∀ b ∈ s, Url.isSlash b = false ∧ Url.ends b = false := by
      intro s whole part b member
      obtain ⟨goes, back⟩ := clean b (part b member)
      exact ⟨isSlash_eq_false (fun same => whole (same ▸ member)) back, goes⟩
    rcases segments_cases w with whole | ⟨s, rest, whole, rfl⟩
    · rw [segments_clean whole, Url.pathState_last (bytes whole fun _ => id)]
      rcases Url.finish_eq segs (Url.encoded w) with same | same
      · exact ⟨[], .inl rfl, same.trans (append_nil _).symm⟩
      · exact ⟨[[]], .inr rfl, same⟩
    · rw [segments_append whole, ← url_slash, Url.pathState_segment (bytes whole fun b => mem_append_left _),
        map_cons]
      exact ih rest.length (by rw [← size]; simp only [length_append, length_cons]; omega)
        _ (fun b member => clean b (mem_append_right _ (mem_cons_of_mem _ member))) rfl

theorem walk_proper (proper : ∀ s ∈ D, Url.Proper s) : Url.walk segs D = segs ++ D := by
  induction D generalizing segs with
  | nil => exact (append_nil segs).symm
  | cons d D ih =>
    obtain ⟨-, single, double⟩ := proper d (mem_cons_self ..)
    rw [Url.walk, foldl_cons, Url.turn, double, single, if_neg Bool.false_ne_true, if_neg Bool.false_ne_true]
    rw [show (D.foldl Url.turn (segs ++ [d])) = Url.walk (segs ++ [d]) D from rfl,
      ih fun other member => proper other (mem_cons_of_mem _ member), append_assoc, singleton_append]

end

/-! ## The check and the browser -/

section
variable {b : UInt8} {ref path w : Str} {names out D : List Str} {n : Nat} {base : Url}
  {requestPath' : Str} {namespace_ requestPath location : String}

/-- What the check makes of a dot segment, and what a browser does. -/
def Agree (mine theirs : Str) : Prop :=
  (Url.singleDot theirs = true → mine = [46]) ∧ (Url.doubleDot theirs = true → mine = [46, 46])

/-- Where the check does not fall below the root, neither does the browser, who has at least as many segments. -/
theorem collapse_level {mine theirs : List Str} (agree : List.Forall₂ Agree mine theirs) (fewer : out.length ≤ n)
    (stays : (collapse out mine).isSome) : (Url.level n theirs).isSome := by
  induction agree generalizing out n with
  | nil => rfl
  | @cons s t mine theirs same _ ih =>
    rw [collapse] at stays
    rw [Url.level]
    by_cases double : Url.doubleDot t = true
    · have dots := same.2 double
      rw [if_neg (by rw [dots]; decide), if_pos dots] at stays
      split at stays
      · cases stays
      rename_i some_
      have filled := length_pos_iff.mpr some_
      rw [if_pos double, if_neg (by omega)]
      exact ih (by rw [length_dropLast]; omega) stays
    rw [if_neg double]
    by_cases single : Url.singleDot t = true
    · rw [if_pos single]
      rw [if_pos (.inr (same.1 single))] at stays
      exact ih fewer stays
    rw [if_neg single]
    split at stays
    · exact ih (by omega) stays
    split at stays
    · split at stays
      · cases stays
      · exact ih (by rw [length_dropLast]; omega) stays
    · exact ih (by rw [length_append, length_singleton]; omega) stays

theorem dot_bytes {x : UInt8} : (Url.lower x = 46 → x = 46) ∧ (Url.lower x = 37 → x = 37) ∧ (Url.lower x = 50 →
    x = 50) :=
  ⟨Url.lower_eq (.inl (by decide)), Url.lower_eq (.inl (by decide)), Url.lower_eq (.inl (by decide))⟩

theorem agree_encoded (s : Str) : Agree (unescaped s) (Url.encoded s) := by
  constructor
  · intro single
    rw [Url.encoded_dot (.inl single)] at single
    simp only [Url.singleDot, contains_iff_mem, mem_cons, not_mem_nil, or_false, map_eq_cons_iff,
      map_eq_nil_iff] at single
    rcases single with ⟨x, _, rfl, dot, rfl⟩ | ⟨x, _, rfl, p, y, _, rfl, two, z, _, rfl, e, rfl⟩
    · rw [dot_bytes.1 dot]
      rfl
    · rw [dot_bytes.2.1 p, dot_bytes.2.2 two]
      rcases Url.lower_eq_e e with rfl | rfl <;> rfl
  · intro double
    rw [Url.encoded_dot (.inr double)] at double
    simp only [Url.doubleDot, contains_iff_mem, mem_cons, not_mem_nil, or_false, map_eq_cons_iff,
      map_eq_nil_iff] at double
    rcases double with ⟨x, _, rfl, d, y, _, rfl, d', rfl⟩ |
      ⟨x, _, rfl, d, y, _, rfl, p, z, _, rfl, two, u, _, rfl, e, rfl⟩ |
      ⟨x, _, rfl, p, y, _, rfl, two, z, _, rfl, e, u, _, rfl, d, rfl⟩ |
      ⟨x, _, rfl, p, y, _, rfl, two, z, _, rfl, e, u, _, rfl, p', v, _, rfl, two', t, _, rfl, e', rfl⟩
    · rw [dot_bytes.1 d, dot_bytes.1 d']
      rfl
    · rw [dot_bytes.1 d, dot_bytes.2.1 p, dot_bytes.2.2 two]
      rcases Url.lower_eq_e e with rfl | rfl <;> rfl
    · rw [dot_bytes.1 d, dot_bytes.2.1 p, dot_bytes.2.2 two]
      rcases Url.lower_eq_e e with rfl | rfl <;> rfl
    · rw [dot_bytes.2.1 p, dot_bytes.2.2 two, dot_bytes.2.1 p', dot_bytes.2.2 two']
      rcases Url.lower_eq_e e with rfl | rfl <;> rcases Url.lower_eq_e e' with rfl | rfl <;> rfl

theorem agree_proper {s : Str} (proper : Url.Proper s) : Agree s s :=
  ⟨fun single => absurd (proper.single.symm.trans single) Bool.false_ne_true,
    fun double => absurd (proper.double.symm.trans double) Bool.false_ne_true⟩

/-! ## A reference that passes -/

def Printable (ref : Str) : Prop := ∀ b ∈ ref, 33 ≤ b.toNat

theorem printable_of {text : String}
    (clean : (text.toList.any fun c => isControl c || isWhitespace c) = false) : Printable (Bytes.ofText text) := by
  intro b member
  by_contra small
  rw [Bytes.ofText_eq] at member
  obtain ⟨c, listed, encoded⟩ := mem_flatMap.mp member
  have value := Bytes.mem_utf8EncodeChar (by omega) encoded
  have bad : (isControl c || isWhitespace c) = true := by
    simp only [isControl, isWhitespace, Bool.or_eq_true, Bool.and_eq_true, decide_eq_true_eq]
    omega
  have passed := any_eq_false.mp clean c listed
  exact passed bad

theorem stripped_printable (printable : Printable ref) : Url.stripped ref = ref := by
  have keeps : ∀ {w : Str}, Printable w → w.dropWhile (· < 33) = w := by
    intro w printable
    cases w with
    | nil => rfl
    | cons b w =>
      have large := printable b (mem_cons_self ..)
      rw [dropWhile_cons_of_neg]
      rw [decide_eq_true_eq, UInt8.lt_iff_toNat_lt]
      simp only [UInt8.reduceToNat]
      omega
  have back : Printable ref.reverse := fun b member => printable b (mem_reverse.mp member)
  rw [Url.stripped, keeps printable, keeps back, reverse_reverse, filter_eq_self]
  intro b member
  have large := printable b member
  have apart : b ≠ 9 ∧ b ≠ 10 ∧ b ≠ 13 := by
    refine ⟨?_, ?_, ?_⟩ <;>
      · rintro rfl
        exact absurd large (by decide)
  simp [apart]

theorem schemeOf_eq_none (relative : hasScheme ref = false) : Url.schemeOf ref = none := by
  unfold Url.schemeOf
  split
  next found =>
    exfalso
    rw [Bool.and_eq_true, beq_iff_eq] at found
    obtain ⟨alpha, colon⟩ := found
    obtain ⟨rest, after⟩ := List.head?_eq_some_iff.mp colon
    have whole := takeWhile_append_dropWhile (p := Url.schemeByte) (l := ref)
    have bytes : ∀ b ∈ ref.takeWhile Url.schemeByte, Url.schemeByte b = true := fun b => mem_takeWhile_imp
    rw [after] at whole
    generalize ref.takeWhile Url.schemeByte = s at whole bytes
    subst whole
    have not_colon : ∀ b ∈ s, (b != 58) = true := by
      intro b member
      refine bne_iff_ne.mpr ?_
      rintro rfl
      exact absurd (bytes 58 member) (by decide)
    have before : (s ++ 58 :: rest).takeWhile (· != 58) = s := by
      rw [takeWhile_append_of_pos not_colon, takeWhile_cons_of_neg (by decide), append_nil]
    have inside : (s.any fun b => b == slash || Url.ends b) = false := by
      rw [any_eq_false]
      intro b member stop
      simp only [Url.ends, Bool.or_eq_true, beq_iff_eq] at stop
      rcases stop with rfl | rfl | rfl
      all_goals exact absurd (bytes _ member) (by decide)
    cases s with
    | nil => exact absurd (show Url.isAlpha 58 = true from alpha) (by decide)
    | cons c s =>
      have all : s.all Url.schemeByte = true :=
        all_eq_true.mpr fun b member => bytes b (mem_cons_of_mem _ member)
      have first : Url.isAlpha c = true := alpha
      have shorter : ¬ (c :: s).length = (c :: s ++ 58 :: rest).length := by
        rw [length_append, length_cons, length_cons]
        omega
      simp only [hasScheme, before, if_neg shorter, inside, Bool.false_eq_true, if_false, List.head?_cons,
          Option.any_some,
        first, tail_cons, all, Bool.and_self] at relative
      cases relative
  · rfl

structure Passed (requestPath : Str) (ref : Str) : Prop where
  printable : Printable ref
  back : backslash ∉ ref
  authority : ¬ [slash, slash] <+: ref
  scheme : Url.schemeOf ref = none
  stays : pathOf ref ≠ [] →
    (collapse [] (segments (if (unescaped (pathOf ref)).head? = some slash then unescaped (pathOf ref)
      else directory requestPath ++ unescaped (pathOf ref)))).isSome

theorem passed_of_within (within : locationWithin namespace_ requestPath location = true) :
    Passed (Bytes.ofText requestPath) (Bytes.ofText location) := by
  unfold locationWithin at within
  split at within
  · cases within
  rename_i clean
  dsimp only at within
  split at within
  · cases within
  rename_i relative
  simp only [Bool.or_eq_true, isPrefixOf_iff_prefix, contains_iff_mem, not_or,
      Bool.not_eq_true] at relative
  obtain ⟨⟨back, authority⟩, scheme⟩ := relative
  refine ⟨printable_of (Bool.eq_false_iff.mpr clean), back, authority, schemeOf_eq_none scheme, fun some_ => ?_⟩
  rw [if_neg some_] at within
  split at within
  · cases within
  next normalised found =>
    exact Option.isSome_iff_exists.mpr ((Option.map_eq_some_iff.mp found).imp fun out all => all.1)

theorem pathOf_append : ∃ tail, ref = pathOf ref ++ tail ∧ tail.head?.all Url.ends = true := by
  refine ⟨ref.dropWhile fun b => !Url.ends b, takeWhile_append_dropWhile.symm, ?_⟩
  cases rest : ref.dropWhile fun b => !Url.ends b with
  | nil => rfl
  | cons b tail =>
    have stops := head_dropWhile_not (fun b => !Url.ends b) (l := ref) (by rw [rest]; exact cons_ne_nil _ _)
    simp only [rest, head_cons, Bool.not_eq_false'] at stops
    exact stops

theorem pathlike_pathOf (back : backslash ∉ ref) : Pathlike (pathOf ref) := by
  intro b member
  have goes := mem_takeWhile_imp member
  refine ⟨by simpa using goes, ?_⟩
  rintro rfl
  exact back ((takeWhile_sublist _).subset member)

theorem relative_empty (empty : pathOf ref = []) : Url.relative base.path ref = some base.path := by
  obtain ⟨tail, whole, stops⟩ := @pathOf_append ref
  rw [empty, nil_append] at whole
  cases tail with
  | nil =>
    rw [whole]
    rfl
  | cons b tail =>
    have cut : Url.ends b = true := stops
    have open_ : Url.isSlash b = false := by
      simp only [Url.ends, Bool.or_eq_true, beq_iff_eq] at cut
      rcases cut with rfl | rfl <;> rfl
    rw [whole, Url.relative, open_, cut, if_neg Bool.false_ne_true, if_pos rfl]

theorem relative_walk (base : Url) (passed : Passed requestPath' ref) (some_ : pathOf ref ≠ []) :
    ∃ dot, (dot = [] ∨ dot = [[]]) ∧
      Url.relative base.path ref = some (Url.walk [] (reads base (pathOf ref)) ++ dot) := by
  obtain ⟨tail, whole, stops⟩ := @pathOf_append ref
  have clean := pathlike_pathOf passed.back
  generalize pathOf ref = path at *
  cases path with
  | nil => exact absurd rfl some_
  | cons b p =>
    obtain ⟨goes, back⟩ := clean b (mem_cons_self ..)
    rw [whole, cons_append, Url.relative]
    by_cases first : b = slash
    · subst first
      have single : (p ++ tail).head?.any Url.isSlash = false := by
        cases after : p ++ tail with
        | nil => rfl
        | cons c rest =>
          refine isSlash_eq_false ?_ ?_
          · rintro rfl
            refine passed.authority ⟨rest, ?_⟩
            rw [whole]
            exact congrArg (slash :: ·) after.symm
          · rintro rfl
            refine passed.back ?_
            rw [whole, cons_append, after]
            exact mem_cons_of_mem _ (mem_cons_self ..)
      obtain ⟨dot, shape, walked⟩ := pathState_segments [] (w := p) fun c member =>
        clean c (mem_cons_of_mem _ member)
      rw [if_pos (by decide), single, if_neg Bool.false_ne_true, Url.pathState_cut stops, walked, reads,
          List.head?_cons,
        if_pos rfl, tail_cons]
      exact ⟨dot, shape, rfl⟩
    · obtain ⟨dot, shape, walked⟩ := pathState_segments base.path.dropLast clean
      have proper : ∀ s ∈ base.path.dropLast, Url.Proper s := fun s member =>
        base.proper s ((dropLast_sublist _).subset member)
      rw [isSlash_eq_false first back, goes, if_neg Bool.false_ne_true, if_neg Bool.false_ne_true, ← cons_append,
        Url.pathState_cut stops, walked, reads, List.head?_cons,
        if_neg fun same => first (Option.some_inj.mp same), Url.walk_append, walk_proper proper, nil_append]
      exact ⟨dot, shape, rfl⟩

/-- In a location that passes, no `..` takes a browser above the root. -/
theorem reads_level (passed : Passed requestPath' ref) (asked : requestPath' = Url.pathText base.path)
    (filled : base.path ≠ []) (some_ : pathOf ref ≠ []) : (Url.level 0 (reads base (pathOf ref))).isSome := by
  have stays := passed.stays some_
  have own : ∀ w, List.Forall₂ Agree (segments (unescaped w)) ((segments w).map Url.encoded) := by
    intro w
    rw [segments_unescaped, List.forall₂_map_left_iff, List.forall₂_map_right_iff, List.forall₂_same]
    exact fun s _ => agree_encoded s
  generalize pathOf ref = path at *
  cases path with
  | nil => exact absurd rfl some_
  | cons b p =>
    unfold reads
    by_cases first : b = slash
    · subst first
      rw [unescaped_slash, List.head?_cons, if_pos rfl, segments, if_pos rfl, collapse, if_pos (.inl rfl)] at stays
      exact collapse_level (own p) (le_of_eq length_nil) stays
    · have proper : ∀ s ∈ base.path.dropLast, Url.Proper s := fun s member =>
        base.proper s ((dropLast_sublist _).subset member)
      have last := base.proper _ (getLast_mem filled)
      have split := dropLast_append_getLast filled
      rw [if_neg (unescaped_head first), asked, ← split, directory_pathText last.whole, append_assoc,
        singleton_append] at stays
      rw [List.head?_cons, if_neg fun same => first (Option.some_inj.mp same)]
      have shape := segments_pathText (s := []) (w := unescaped (b :: p)) not_mem_nil fun s member =>
        (proper s member).whole
      rw [nil_append] at shape
      rw [shape, cons_append, collapse, if_pos (.inl rfl)] at stays
      refine collapse_level ?_ (le_of_eq length_nil) stays
      refine rel_append ?_ (own (b :: p))
      rw [List.forall₂_same]
      exact fun s member => agree_proper (proper s member)

end

theorem Mounted.names_plain {namespace_ : String} {names : List Str}
    (mounted : Mounted namespace_ names) : Url.Plain names := by
  intro name member
  obtain ⟨some_, plain⟩ := mounted.plain name member
  have no_dot : ¬ (Url.singleDot name = true ∨ Url.doubleDot name = true) := by
    intro dot
    have form := Url.map_lower_dot dot
    cases name with
    | nil => exact some_ rfl
    | cons b rest =>
      have first : Url.lower b = 46 ∨ Url.lower b = 37 := by
        simp only [map_cons, mem_cons, not_mem_nil, or_false, List.cons.injEq] at form
        tauto
      have byte := plain b (mem_cons_self ..)
      rcases first with dot | sign
      · rw [dot_bytes.1 dot] at byte
        exact absurd byte (by decide)
      · rw [dot_bytes.2.1 sign] at byte
        exact absurd byte (by decide)
  exact ⟨Bool.eq_false_iff.mpr fun single => no_dot (.inl single), Bool.eq_false_iff.mpr fun double => no_dot
      (.inr double)⟩

def RESERVED_NAMES : List String :=
  ["con", "prn", "aux", "nul", "com1", "com2", "com3", "com4", "com5", "com6", "com7", "com8", "com9", "lpt1", "lpt2",
    "lpt3", "lpt4", "lpt5", "lpt6", "lpt7", "lpt8", "lpt9"]

def MAX_NAME_BYTES : Nat := 64

def validName (name : String) : Bool :=
  name != "" && name.utf8ByteSize ≤ MAX_NAME_BYTES && name.toList.head?.any (fun c => c.isLower || c.isDigit) &&
    (name.toList.all fun c => c.isLower || c.isDigit || c == '-' || c == '_') && !RESERVED_NAMES.contains name

def declaredNamespace (name : String) : String := "/api/v1/" ++ name

theorem plainByte_of {c : Char} (plain : (c.isLower || c.isDigit || c == '-' || c == '_') = true) :
    ∀ b ∈ String.utf8EncodeChar c, plainByte b = true := by
  have range : (97 ≤ c.toNat ∧ c.toNat ≤ 122) ∨ (48 ≤ c.toNat ∧ c.toNat ≤ 57) ∨ c.toNat = 45 ∨ c.toNat = 95 := by
    simp only [Bool.or_eq_true, beq_iff_eq] at plain
    rcases plain with ((lower | digit) | rfl) | rfl
    · have both : (decide ('a'.val ≤ c.val) && decide (c.val ≤ 'z'.val)) = true := lower
      simp only [Bool.and_eq_true, decide_eq_true_eq, UInt32.le_iff_toNat_le] at both
      exact .inl both
    · simp only [Char.isDigit, Bool.and_eq_true, decide_eq_true_eq, ge_iff_le, UInt32.le_iff_toNat_le] at digit
      exact .inr (.inl digit)
    · exact .inr (.inr (.inl rfl))
    · exact .inr (.inr (.inr rfl))
  intro b member
  rw [utf8EncodeChar_one (by omega), mem_singleton] at member
  have value : b.toNat = c.toNat := by rw [member, UInt8.toNat_ofNat', Nat.mod_eq_of_lt (by omega)]
  simp only [plainByte, Url.isAlpha, Bool.or_eq_true, Bool.and_eq_true, decide_eq_true_eq, beq_iff_eq,
    UInt8.le_iff_toNat_le, ← UInt8.toNat_inj, value, UInt8.reduceToNat]
  omega

theorem mounted_declared {name : String} (valid : validName name = true) :
    Mounted (declaredNamespace name) [Bytes.ofText "api", Bytes.ofText "v1", Bytes.ofText name] where
  text := by
    simp only [Url.pathText, flatMap_cons, flatMap_nil, append_nil]
    rfl
  some_ := cons_ne_nil _ _
  plain := by
    simp only [validName, Bool.and_eq_true, bne_iff_ne] at valid
    obtain ⟨⟨⟨⟨some_, -⟩, -⟩, all⟩, -⟩ := valid
    have fixed : ∀ text ∈ ["api", "v1"], Bytes.ofText text ≠ [] ∧ (Bytes.ofText text).all plainByte = true :=
        by decide
    intro segment member
    rcases mem_cons.mp member with rfl | later
    · exact (fixed "api" (by decide)).imp_right List.all_eq_true.mp
    rcases mem_cons.mp later with rfl | last
    · exact (fixed "v1" (by decide)).imp_right List.all_eq_true.mp
    rw [mem_singleton.mp last]
    refine ⟨fun empty => some_ (ofText_eq_nil.mp empty), ?_⟩
    intro b byte
    rw [Bytes.ofText_eq] at byte
    obtain ⟨c, listed, encoded⟩ := mem_flatMap.mp byte
    exact plainByte_of (all_eq_true.mp all c listed) b encoded

/-! ## A reference that leaves -/

def daemon : Url where
  scheme := Bytes.ofText "http"
  authority := Bytes.ofText "127.0.0.1:8080"
  path := ["api", "v1", "zzmock", "things", "1"].map Bytes.ofText
  proper := by
    have all : (["api", "v1", "zzmock", "things", "1"].map Bytes.ofText).all
        (fun s => !s.contains Url.slash && !Url.singleDot s && !Url.doubleDot s) = true := by decide +kernel
    intro s member
    have each := all_eq_true.mp all s member
    simp only [Bool.and_eq_true, Bool.not_eq_true', contains_eq_mem, decide_eq_false_iff_not] at each
    exact ⟨each.1.1, each.1.2, each.2⟩

end Agent24.Proxy
