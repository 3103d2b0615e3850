import Agent24.Library.Text

/-! Numerals read from text within a range, and written. -/

set_option autoImplicit false
namespace Library.Numeral

def digits (base : Nat) (digit : Char → Option Nat) : List Char → Nat → Option Nat
  | [], sofar => some sofar
  | c :: rest, sofar => (digit c).bind fun value => digits base digit rest (base * sofar + value)

def number (base : Nat) (digit : Char → Option Nat) (chars : List Char) : Option Nat :=
  if chars.isEmpty then none else digits base digit chars 0

def decimal (c : Char) : Option Nat := if c.isDigit then some (c.toNat - '0'.toNat) else none

def hexadecimal (c : Char) : Option Nat :=
  if c.isDigit then some (c.toNat - '0'.toNat)
  else if 'a' ≤ c ∧ c ≤ 'f' then some (c.toNat - 'a'.toNat + 10)
  else if 'A' ≤ c ∧ c ≤ 'F' then some (c.toNat - 'A'.toNat + 10)
  else none

def parseSigned (low high : Int) (text : String) : Option Int :=
  let value := match text.toList with
    | '+' :: rest => (number 10 decimal rest).map Int.ofNat
    | '-' :: rest => (number 10 decimal rest).map fun n => -Int.ofNat n
    | chars => (number 10 decimal chars).map Int.ofNat
  value.filter fun n => low ≤ n && n ≤ high

/-- A decimal numeral with an optional plus sign, within a bound. -/
def parseUnsigned (high : Nat) (text : String) : Option Nat :=
  let value := match text.toList with
    | '+' :: rest => number 10 decimal rest
    | chars => number 10 decimal chars
  value.filter fun n => n ≤ high

/-- A hexadecimal numeral with an optional plus sign, within a bound. -/
def parseHex (high : Nat) (text : String) : Option Nat :=
  let value := match text.toList with
    | '+' :: rest => number 16 hexadecimal rest
    | chars => number 16 hexadecimal chars
  value.filter fun n => n ≤ high

/-- The last `width` hexadecimal digits of a number, the most significant first. -/
def hexDigits : Nat → Nat → List Char
  | 0, _ => []
  | width + 1, n => hexDigits width (n / 16) ++ [Nat.digitChar (n % 16)]

theorem length_hexDigits (width n : Nat) : (hexDigits width n).length = width := by
  induction width generalizing n with
  | zero => rfl
  | succ width ih => rw [hexDigits, List.length_append, ih, List.length_singleton]

theorem exists_of_mem_hexDigits {c : Char} {width n : Nat} (member : c ∈ hexDigits width n) :
    ∃ v < 16, Nat.digitChar v = c := by
  induction width generalizing n with
  | zero => exact absurd member List.not_mem_nil
  | succ width ih =>
    rw [hexDigits, List.mem_append, List.mem_singleton] at member
    rcases member with earlier | rfl
    · exact ih earlier
    · exact ⟨_, Nat.mod_lt n (by decide), rfl⟩

theorem not_mem_hexDigits {c : Char} (other : ∀ v < 16, Nat.digitChar v ≠ c) {width n : Nat} :
    c ∉ hexDigits width n := by
  induction width generalizing n with
  | zero => exact List.not_mem_nil
  | succ width ih =>
    rw [hexDigits, List.mem_append, List.mem_singleton]
    rintro (earlier | rfl)
    · exact ih earlier
    · exact other _ (Nat.mod_lt n (by decide)) rfl

theorem digits_append (base : Nat) (digit : Char → Option Nat) (front rest : List Char) (sofar : Nat) :
    digits base digit (front ++ rest) sofar =
      (digits base digit front sofar).bind (digits base digit rest) := by
  induction front generalizing sofar with
  | nil => rfl
  | cons c front ih =>
    simp only [List.cons_append, digits]
    cases digit c with
    | none => rfl
    | some value => exact ih _

theorem digits_decimal {chars : List Char} (all : ∀ c ∈ chars, c.isDigit = true) (sofar : Nat) :
    digits 10 decimal chars sofar = some (Nat.ofDigitChars 10 chars sofar) := by
  induction chars generalizing sofar with
  | nil => simp [digits]
  | cons c rest ih =>
    simp only [List.mem_cons, forall_eq_or_imp] at all
    simp only [digits, decimal, all.1, ↓reduceIte, Option.bind_some, Nat.ofDigitChars_cons]
    exact ih all.2 _

theorem number_decimal (n : Nat) : number 10 decimal (Nat.toDigits 10 n) = some n := by
  have nonempty : (Nat.toDigits 10 n).isEmpty = false := by
    rw [List.isEmpty_eq_false_iff]
    exact Nat.toDigits_ne_nil
  rw [number, nonempty, digits_decimal fun c member =>
    Nat.isDigit_of_mem_toDigits (by decide) (by decide) member]
  simp only [Bool.false_eq_true, ↓reduceIte]
  rw [Nat.ofDigitChars_toDigits (by decide) (by decide)]

theorem digits_hexDigits (width n sofar : Nat) (fits : n < 16 ^ width) :
    digits 16 hexadecimal (hexDigits width n) sofar = some (16 ^ width * sofar + n) := by
  induction width generalizing n sofar with
  | zero =>
    have zero : n = 0 := by simpa using fits
    simp [digits, hexDigits, zero]
  | succ width ih =>
    have high : n / 16 < 16 ^ width := by
      exact Nat.div_lt_of_lt_mul (by omega)
    have digit : ∀ d : Fin 16, hexadecimal (Nat.digitChar d) = some d.val := by decide
    have last : hexadecimal (Nat.digitChar (n % 16)) = some (n % 16) :=
      digit ⟨n % 16, Nat.mod_lt _ (by decide)⟩
    rw [hexDigits, digits_append, ih _ _ high]
    simp only [Option.bind_some, digits, last, Option.some.injEq, pow_succ]
    have shift : 16 * (16 ^ width * sofar) = 16 ^ width * 16 * sofar := by
      rw [Nat.mul_comm (16 ^ width) 16, Nat.mul_assoc]
    omega

theorem digits_toDigits (n : Nat) : digits 16 hexadecimal (Nat.toDigits 16 n) 0 = some n := by
  have digit : ∀ d : Fin 16, hexadecimal (Nat.digitChar d) = some d.val := by decide
  induction n using Nat.strong_induction_on with
  | _ n ih =>
    by_cases small : n < 16
    · rw [Nat.toDigits_of_lt_base small, digits, digit ⟨n, small⟩]
      simp [digits]
    have last : hexadecimal (Nat.digitChar (n % 16)) = some (n % 16) := digit ⟨n % 16, Nat.mod_lt _ (by decide)⟩
    rw [Nat.toDigits_of_base_le (by decide) (Nat.le_of_not_lt small), digits_append, ih (n / 16) (by omega)]
    simp only [Option.bind_some, digits, last, Option.some.injEq]
    omega

theorem number_hexadecimal (n : Nat) : number 16 hexadecimal (Nat.toDigits 16 n) = some n := by
  rw [number, if_neg (by rw [List.isEmpty_iff]; exact Nat.toDigits_ne_nil), digits_toDigits]

theorem hexDigits_injective {width m n : Nat} (fits : m < 16 ^ width) (fits' : n < 16 ^ width)
    (same : hexDigits width m = hexDigits width n) : m = n := by
  have read := digits_hexDigits width m 0 fits
  rw [same, digits_hexDigits width n 0 fits'] at read
  simpa using read.symm

private theorem unsigned {base : Nat} (digit : Char → Option Nat) {chars : List Char} {value : Nat}
    (plus : digit '+' = none) (minus : digit '-' = none)
    (read : number base digit chars = some value) :
    (∀ rest, chars ≠ '+' :: rest) ∧ ∀ rest, chars ≠ '-' :: rest := by
  constructor
  · rintro rest rfl
    simp [number, digits, plus] at read
  · rintro rest rfl
    simp [number, digits, minus] at read

theorem parseSigned_toString {low high n : Int} (above : low ≤ n) (below : n ≤ high) :
    parseSigned low high (toString n) = some n := by
  rw [Int.toString_eq_repr, Int.repr_eq_if]
  by_cases sign : 0 ≤ n
  · have chars : ((n.toNat).repr).toList = Nat.toDigits 10 n.toNat := Nat.toList_repr
    have clean := unsigned decimal (by decide) (by decide) (number_decimal n.toNat)
    have value : (Int.ofNat n.toNat) = n := Int.toNat_of_nonneg sign
    simp only [sign, ↓reduceIte, parseSigned, chars]
    split
    · rename_i rest plus
      exact absurd plus (clean.1 rest)
    · rename_i rest minus
      exact absurd minus (clean.2 rest)
    · rw [number_decimal, Option.map_some, value]
      simp [Option.filter, above, below]
  · have chars : (("-" ++ ((-n).toNat).repr).toList) = '-' :: Nat.toDigits 10 (-n).toNat := by
      rw [String.toList_append, Nat.toList_repr]
      rfl
    have value : -(Int.ofNat (-n).toNat) = n := by
      rw [Int.ofNat_eq_natCast, Int.toNat_of_nonneg (by omega)]
      omega
    simp only [sign, ↓reduceIte, parseSigned, chars]
    rw [number_decimal, Option.map_some, value]
    simp [Option.filter, above, below]

theorem parseUnsigned_toString {high n : Nat} (below : n ≤ high) : parseUnsigned high (toString n) = some n := by
  have chars : (toString n).toList = Nat.toDigits 10 n := by rw [Nat.toString_eq_repr, Nat.toList_repr]
  have clean := unsigned decimal (by decide) (by decide) (number_decimal n)
  simp only [parseUnsigned, chars]
  split
  · rename_i rest plus
    exact absurd plus (clean.1 rest)
  · rw [number_decimal]
    simp [Option.filter, below]

theorem parseHex_hexDigits {width high n : Nat} (fits : n < 16 ^ (width + 1)) (below : n ≤ high) :
    parseHex high (String.ofList (hexDigits (width + 1) n)) = some n := by
  have value : number 16 hexadecimal (hexDigits (width + 1) n) = some n := by
    have nonempty : (hexDigits (width + 1) n).isEmpty = false := by simp [hexDigits]
    rw [number, nonempty, digits_hexDigits _ _ _ fits]
    simp
  have clean := unsigned hexadecimal (by decide) (by decide) value
  simp only [parseHex, String.toList_ofList]
  split
  · rename_i rest plus
    exact absurd plus (clean.1 rest)
  · rw [value]
    simp [Option.filter, below]

theorem length_toString_mono {m n : Nat} (below : m ≤ n) : (toString m).length ≤ (toString n).length := by
  have some_ : 0 < n.repr.length := Nat.length_repr_pos
  exact (Nat.length_repr_le_iff some_).mpr (below.trans_lt ((Nat.length_repr_le_iff some_).mp (Nat.le_refl _)))

theorem digit_of_mem {base : Nat} {digit : Char → Option Nat} {chars : List Char} {sofar value : Nat}
    (read : digits base digit chars sofar = some value) {c : Char} (member : c ∈ chars) : digit c ≠ none := by
  induction chars generalizing sofar with
  | nil => cases member
  | cons first rest ih =>
    obtain ⟨n, readFirst, readRest⟩ := Option.bind_eq_some_iff.mp read
    rcases List.mem_cons.mp member with rfl | later
    · rw [readFirst]
      exact Option.some_ne_none n
    · exact ih readRest later

theorem not_mem_of_parseSigned {c : Char} (other : decimal c = none ∧ c ≠ '+' ∧ c ≠ '-') {low high n : Int}
    {text : String} (read : parseSigned low high text = some n) : c ∉ text.toList := by
  have clean {chars : List Char} {value : Nat} (read : number 10 decimal chars = some value) : c ∉ chars := by
    intro member
    unfold number at read
    split at read
    · cases read
    · exact digit_of_mem read member other.1
  obtain ⟨unsigned, -⟩ := Option.filter_eq_some_iff.mp read
  split at unsigned
  · rename_i rest plus
    obtain ⟨value, run, -⟩ := Option.map_eq_some_iff.mp unsigned
    rw [plus, List.mem_cons, not_or]
    exact ⟨other.2.1, clean run⟩
  · rename_i rest minus
    obtain ⟨value, run, -⟩ := Option.map_eq_some_iff.mp unsigned
    rw [minus, List.mem_cons, not_or]
    exact ⟨other.2.2, clean run⟩
  · obtain ⟨value, run, -⟩ := Option.map_eq_some_iff.mp unsigned
    exact clean run

end Library.Numeral
