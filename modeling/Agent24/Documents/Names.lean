import Agent24.Library.Text
import Agent24.Library.Bytes
import Mathlib.Data.Bool.AllAny

/-! Ids, timestamps and cursors: the names the module's answers are made of. -/

set_option autoImplicit false
namespace Agent24.Documents
open Library List

inductive IdKind where
  | document
  | upload
  | job
  | extraction
  deriving DecidableEq

def IdKind.lead : IdKind → String
  | .document => "doc"
  | .upload => "upl"
  | .job => "job"
  | .extraction => "ext"

def CROCKFORD : List Char := "0123456789ABCDEFGHJKMNPQRSTVWXYZ".toList

/-- The 26 characters of a ULID: those of 128 bits begin with 0 to 7. -/
def isUlid (chars : List Char) : Bool :=
  chars.length == 26 && (chars.head?.any fun c => '0'.val ≤ c.val && c.val ≤ '7'.val) &&
    chars.all fun c => CROCKFORD.contains c

/-- An id of `kind` in the form `new_id` mints. -/
def isId (kind : IdKind) (s : String) : Bool :=
  ((Text.strip kind.lead s).bind (Text.strip "_")).any fun ulid => isUlid ulid.toList

def isAsciiDigit (c : Char) : Bool := '0'.val ≤ c.val && c.val ≤ '9'.val

/-- The shape `strftime('%Y-%m-%dT%H:%M:%fZ')` writes. -/
def timestampShape (i : Nat) (c : Char) : Bool :=
  if i = 4 ∨ i = 7 then c == '-'
  else if i = 10 then c == 'T'
  else if i = 13 ∨ i = 16 then c == ':'
  else if i = 19 then c == '.'
  else if i = 23 then c == 'Z'
  else isAsciiDigit c

def digits (chars : List Char) (from_ upTo : Nat) : Nat :=
  ((chars.take upTo).drop from_).foldl (fun n c => n * 10 + (c.toNat - '0'.toNat)) 0

def daysOf (leap : Bool) : Nat → Option Nat
  | 1 | 3 | 5 | 7 | 8 | 10 | 12 => some 31
  | 4 | 6 | 9 | 11 => some 30
  | 2 => some (if leap then 29 else 28)
  | _ => none

/-- A timestamp in the one form the module writes, of a real date and time without leap seconds. -/
def isTimestamp (s : String) : Bool :=
  let b := s.toList
  if !(b.length == 24 && b.zipIdx.all fun c => timestampShape c.2 c.1) then false
  else
    let year := digits b 0 4
    let leap := year % 4 = 0 ∧ (year % 100 ≠ 0 ∨ year % 400 = 0)
    match daysOf leap (digits b 5 7) with
    | none => false
    | some days =>
      (1 ≤ digits b 8 10 && digits b 8 10 ≤ days) && digits b 11 13 < 24 && digits b 14 16 < 60 &&
        digits b 17 19 < 60

example : isTimestamp "2028-02-29T00:00:00.000Z" = true ∧ isTimestamp "2026-02-29T00:00:00.000Z" = false := by
  decide +kernel

/-- Every cursor the module issues: hex of a 24-byte timestamp, a space and a 30-byte id. -/
def CURSOR_LEN : Nat := 2 * (24 + 1 + 30)

def hexDigitOf (n : Nat) : Char :=
  ['0', '1', '2', '3', '4', '5', '6', '7', '8', '9', 'a', 'b', 'c', 'd', 'e', 'f'].getD n '0'

/-- `{b:02x}`. -/
def hexByte (b : UInt8) : List Char := [hexDigitOf (b.toNat / 16), hexDigitOf (b.toNat % 16)]

def hexValue (c : Char) : Option Nat :=
  if '0'.val ≤ c.val && c.val ≤ '9'.val then some (c.toNat - '0'.toNat)
  else if 'a'.val ≤ c.val && c.val ≤ 'f'.val then some (c.toNat - 'a'.toNat + 10)
  else if 'A'.val ≤ c.val && c.val ≤ 'F'.val then some (c.toNat - 'A'.toNat + 10)
  else none

/-- `u8::from_str_radix(.., 16)` of two characters: a sign before the last digit is read too. -/
def hexPair (a b : Char) : Option UInt8 :=
  if a = '+' then (hexValue b).map UInt8.ofNat
  else do return UInt8.ofNat ((← hexValue a) * 16 + (← hexValue b))

/-- The bytes of a text cut in twos. A character of more than one byte is never a digit. -/
def unhex : List Char → Option (List UInt8)
  | [] => some []
  | [_] => none
  | a :: b :: rest => do return (← hexPair a b) :: (← unhex rest)

/-- `hex(text.bytes())`. -/
def hexText (text : String) : String := String.ofList ((Bytes.ofText text).flatMap hexByte)

def unhexText (hex : String) : Option String :=
  (unhex hex.toList).bind fun bytes => String.fromUTF8? ⟨bytes.toArray⟩

theorem hexDigitOf_value {n : Nat} (small : n < 16) : hexValue (hexDigitOf n) = some n ∧ hexDigitOf n ≠ '+' := by
  have all : ∀ n : Fin 16, hexValue (hexDigitOf n) = some n.val ∧ hexDigitOf n ≠ '+' := by decide
  exact all ⟨n, small⟩

theorem hexPair_hexByte (b : UInt8) :
    hexPair (hexDigitOf (b.toNat / 16)) (hexDigitOf (b.toNat % 16)) = some b := by
  have bound : b.toNat < 256 := b.toNat_lt
  obtain ⟨high, unsigned⟩ := hexDigitOf_value (n := b.toNat / 16) (by omega)
  obtain ⟨low, -⟩ := hexDigitOf_value (n := b.toNat % 16) (by omega)
  have whole : b.toNat / 16 * 16 + b.toNat % 16 = b.toNat := by omega
  rw [hexPair, if_neg unsigned, high, low]
  show some (UInt8.ofNat (b.toNat / 16 * 16 + b.toNat % 16)) = some b
  rw [whole, UInt8.ofNat_toNat]

theorem unhex_hex (bytes : List UInt8) : unhex (bytes.flatMap hexByte) = some bytes := by
  induction bytes with
  | nil => rfl
  | cons b rest ih =>
    rw [flatMap_cons, hexByte, cons_append, cons_append, nil_append, unhex, hexPair_hexByte, ih]
    rfl

theorem unhexText_hexText (text : String) : unhexText (hexText text) = some text := by
  rw [unhexText, hexText, String.toList_ofList, unhex_hex, Option.bind_some]
  have valid : (⟨(Bytes.ofText text).toArray⟩ : ByteArray) = text.toByteArray := by
    rw [Bytes.ofText, Array.toArray_toList]
  rw [valid, String.fromUTF8?, dif_pos text.isValidUTF8]
  rfl

theorem length_hex (bytes : List UInt8) : (bytes.flatMap hexByte).length = 2 * bytes.length := by
  induction bytes with
  | nil => rfl
  | cons =>
    simp [hexByte]
    omega

def PlainText (chars : List Char) : Prop := ∀ c ∈ chars, c.val ≤ 127 ∧ c ≠ ' '

theorem PlainText.bytes {text : String} (plain : PlainText text.toList) :
    text.utf8ByteSize = text.toList.length := by
  have each : ∀ chars : List Char, PlainText chars → (chars.map Char.utf8Size).sum = chars.length := by
    intro chars
    induction chars with
    | nil => exact fun _ => rfl
    | cons c rest ih =>
      intro all
      have one : c.utf8Size = 1 := if_pos (all c (.head _)).1
      rw [map_cons, sum_cons, one, ih fun d member => all d (.tail _ member), length_cons,
          Nat.add_comm]
  rw [← Bytes.length_ofText, Bytes.ofText_eq, length_flatMap, ← each _ plain]
  congr 1
  exact map_congr_left fun c _ => String.length_utf8EncodeChar c

theorem isAsciiDigit_plain {c : Char} (digit : isAsciiDigit c = true) : c.val ≤ 127 ∧ c ≠ ' ' := by
  rw [isAsciiDigit, Bool.and_eq_true, decide_eq_true_eq, decide_eq_true_eq] at digit
  refine ⟨UInt32.le_trans digit.2 (by decide), fun same => ?_⟩
  rw [same] at digit
  exact absurd digit.1 (by decide)

theorem isTimestamp_plain {s : String} (real : isTimestamp s = true) : s.toList.length = 24 ∧ PlainText s.toList := by
  unfold isTimestamp at real
  dsimp only at real
  split at real
  · cases real
  rename_i shaped
  rw [Bool.not_eq_true', Bool.not_eq_false, Bool.and_eq_true, beq_iff_eq, all_eq_true] at shaped
  refine ⟨shaped.1, fun c member => ?_⟩
  obtain ⟨i, at_, rfl⟩ := getElem_of_mem member
  have shape := shaped.2 (s.toList[i], i) (mem_zipIdx_iff_getElem?.mpr (List.getElem?_eq_getElem at_))
  generalize s.toList[i] = c at shape
  unfold timestampShape at shape
  dsimp only at shape
  repeat' split at shape
  all_goals first
    | exact isAsciiDigit_plain shape
    | rw [eq_of_beq shape]
      decide

theorem isId_plain {kind : IdKind} {s : String} (minted : isId kind s = true) :
    s.toList.length = 30 ∧ PlainText s.toList := by
  rw [isId, Option.any_eq_true] at minted
  obtain ⟨ulid, split, formed⟩ := minted
  obtain ⟨rest, leads, under⟩ := Option.bind_eq_some_iff.mp split
  rw [(Text.strip_eq_some _ _ _).mp leads, (Text.strip_eq_some _ _ _).mp under]
  rw [isUlid, Bool.and_eq_true, Bool.and_eq_true, beq_iff_eq, all_eq_true] at formed
  obtain ⟨⟨size, -⟩, letters⟩ := formed
  have known : ∀ c ∈ CROCKFORD, c.val ≤ 127 ∧ c ≠ ' ' := all_iff_forall_prop.mp (by decide +kernel)
  have lead : kind.lead.toList.length = 3 ∧ ∀ c ∈ kind.lead.toList, c.val ≤ 127 ∧ c ≠ ' ' := by
    cases kind <;> exact ⟨rfl, all_iff_forall_prop.mp (by decide +kernel)⟩
  have underscore : ("_" : String).toList = ['_'] := rfl
  simp only [PlainText, String.toList_append, length_append, mem_append, underscore]
  refine ⟨by rw [size, lead.1]; rfl, ?_⟩
  rintro c (member | member | member)
  · exact lead.2 c member
  · rw [mem_singleton.mp member]
    decide
  · exact known c (contains_iff_mem.mp (letters c member))

theorem hexDigitOf_mem (n : Nat) :
    hexDigitOf n ∈ ['0', '1', '2', '3', '4', '5', '6', '7', '8', '9', 'a', 'b', 'c', 'd', 'e', 'f'] := by
  unfold hexDigitOf
  rw [getD_eq_getElem?_getD]
  cases found : (['0', '1', '2', '3', '4', '5', '6', '7', '8', '9', 'a', 'b', 'c', 'd', 'e',
      'f'] : List Char)[n]? with
  | none => decide
  | some d => exact mem_of_getElem? found

theorem bytes_hexText (text : String) : (hexText text).utf8ByteSize = 2 * text.utf8ByteSize := by
  have plain : PlainText (hexText text).toList := by
    intro c member
    rw [hexText, String.toList_ofList, mem_flatMap] at member
    obtain ⟨b, -, here⟩ := member
    have known : ∀ d ∈ ['0', '1', '2', '3', '4', '5', '6', '7', '8', '9', 'a', 'b', 'c', 'd', 'e', 'f'],
        d.val ≤ 127 ∧ d ≠ ' ' := all_iff_forall_prop.mp (by decide)
    rw [hexByte, mem_cons, mem_singleton] at here
    rcases here with rfl | rfl
    · exact known _ (hexDigitOf_mem _)
    · exact known _ (hexDigitOf_mem _)
  rw [plain.bytes, hexText, String.toList_ofList, length_hex, Bytes.length_ofText]

end Agent24.Documents
