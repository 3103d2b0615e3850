import Agent24.Json
import Agent24.Library.Numeral

/-! What the program takes from outside its own sources: the digest, Unicode tables and parsers. -/

set_option autoImplicit false
namespace Agent24
open Library

structure Platform where
  /-- SHA-256 of the UTF-8 bytes of a text, as one big-endian number. -/
  sha256 : String → BitVec 256
  /-- Characters the debug formatter prints as they are: printable and not grapheme-extending. -/
  debugVerbatim : Char → Bool
  /-- `serde_json::from_str` into a `Value`. -/
  parseJson : String → Option Json
  jsonError : String → String
  /-- SQLite's reading of a JSON text, repeated keys kept; `none` where `json_valid` is false. -/
  sqliteJson : String → Option Json
  /-- `char::is_alphanumeric`. -/
  isAlphanumeric : Char → Bool
  /-- `str::to_lowercase`. -/
  toLowercase : String → String

def Platform.ofDigests (digests : List (String × BitVec 256)) : Platform where
  sha256 text := (digests.lookup text).getD 0
  debugVerbatim c := 32 ≤ c.toNat && c.toNat < 127
  parseJson _ := none
  jsonError _ := "expected value at line 1 column 1"
  sqliteJson _ := none
  isAlphanumeric := Char.isAlphanum
  toLowercase text := String.ofList (text.toList.map Char.toLower)

def isWhitespace (c : Char) : Bool :=
  let n := c.toNat
  (9 ≤ n && n ≤ 13) || n = 32 || n = 0x85 || n = 0xA0 || n = 0x1680 || (0x2000 ≤ n && n ≤ 0x200A) ||
    n = 0x2028 || n = 0x2029 || n = 0x202F || n = 0x205F || n = 0x3000

/-- `s.trim().is_empty()`. -/
def isBlank (text : String) : Bool := Text.trim isWhitespace text == ""

namespace Platform
variable (P : Platform)

/-- `artifact::checksum`: the digest in lowercase hexadecimal. -/
def checksum (body : String) : String :=
  String.ofList ((List.range 32).flatMap fun i =>
    let byte := (P.sha256 body).toNat / 256 ^ (31 - i) % 256
    [Json.hexDigit (byte / 16), Json.hexDigit (byte % 16)])

/-- `&checksum(body)[..16]`. -/
def checksum16 (body : String) : String := Text.take 16 (P.checksum body)

def debugChar (c : Char) : List Char :=
  if c = '"' then ['\\', '"']
  else if c = '\\' then ['\\', '\\']
  else if c = '\n' then ['\\', 'n']
  else if c = '\r' then ['\\', 'r']
  else if c = '\t' then ['\\', 't']
  else if c.toNat = 0 then ['\\', '0']
  else if P.debugVerbatim c then [c]
  else ['\\', 'u', '{'] ++ Nat.toDigits 16 c.toNat ++ ['}']

/-- `{:?}` of a string. -/
def debugStr (text : String) : String :=
  String.ofList ('"' :: text.toList.flatMap P.debugChar ++ ['"'])

/-- `{:?}` of a list of strings. -/
def debugStrs (texts : List String) : String :=
  "[" ++ String.intercalate ", " (texts.map P.debugStr) ++ "]"

theorem checksum_length (body : String) : (P.checksum body).length = 64 := by
  simp [checksum, List.length_flatMap]

private theorem byteDigits (count n : Nat) :
    (List.range count).flatMap (fun i =>
      let byte := n / 256 ^ (count - 1 - i) % 256
      [Json.hexDigit (byte / 16), Json.hexDigit (byte % 16)]) = Numeral.hexDigits (2 * count) n := by
  have digit : ∀ v < 16, Json.hexDigit v = Nat.digitChar v := by decide
  induction count generalizing n with
  | zero => rfl
  | succ count ih =>
    have front : (List.range count).flatMap (fun i =>
        let byte := n / 256 ^ (count + 1 - 1 - i) % 256
        [Json.hexDigit (byte / 16), Json.hexDigit (byte % 16)]) = Numeral.hexDigits (2 * count) (n / 256) := by
      rw [← ih]
      refine List.flatMap_congr fun i listed => ?_
      have below : i < count := List.mem_range.mp listed
      have shift : count + 1 - 1 - i = (count - 1 - i) + 1 := by omega
      rw [shift, Nat.pow_succ', Nat.div_div_eq_div_mul]
    rw [List.range_succ, List.flatMap_append, front, List.flatMap_singleton]
    dsimp only
    rw [show count + 1 - 1 - count = 0 by omega, Nat.pow_zero, Nat.div_one, digit _ (by omega),
      digit _ (by omega), show 2 * (count + 1) = 2 * count + 1 + 1 by omega, Numeral.hexDigits,
      Numeral.hexDigits, Nat.div_div_eq_div_mul, List.append_assoc]
    congr 3
    · omega
    · congr 1
      omega

theorem checksum_eq (body : String) :
    P.checksum body = String.ofList (Numeral.hexDigits 64 (P.sha256 body).toNat) :=
  congrArg String.ofList (byteDigits 32 _)

theorem checksum_injective {a b : String} (same : P.checksum a = P.checksum b) : P.sha256 a = P.sha256 b := by
  rw [checksum_eq, checksum_eq] at same
  have size : (2 : Nat) ^ 256 = 16 ^ 64 := Nat.pow_mul 2 4 64
  exact BitVec.eq_of_toNat_eq (Numeral.hexDigits_injective (size ▸ (P.sha256 a).isLt)
    (size ▸ (P.sha256 b).isLt) (String.ofList_injective same))

theorem not_mem_checksum {c : Char} (other : ∀ v < 16, Nat.digitChar v ≠ c) (body : String) :
    c ∉ (P.checksum body).toList := by
  rw [checksum_eq, String.toList_ofList]
  exact Numeral.not_mem_hexDigits other

end Platform

/-- SQLite's `trim(x, chars)` strips exactly the listed characters. -/
def sqliteBlank (chars : List Char) (text : String) : Bool :=
  Text.trim (fun c => decide (c ∈ chars)) text == ""

/-- An owner with a character that is not whitespace passes either `CHECK` on owners. -/
theorem sqliteBlank_of_visible {chars : List Char} (whitespace : chars.all isWhitespace = true)
    {text : String} (visible : isBlank text = false) : sqliteBlank chars text = false := by
  by_contra empty
  simp only [sqliteBlank, Bool.not_eq_false, beq_iff_eq, Text.trim_eq_empty] at empty
  have blank := Text.blank_of_imp
    (fun c listed => List.all_eq_true.mp whitespace c (of_decide_eq_true listed)) empty
  rw [isBlank, (Text.trim_eq_empty isWhitespace text).mpr blank] at visible
  exact absurd visible (by decide)

end Agent24
