import Mathlib.Data.List.Basic

/-! URL-safe base64 without padding, and canonical: unused bits are zero. -/

set_option autoImplicit false
namespace Library.Base64

def alphabet : List Char :=
  "ABCDEFGHIJKLMNOPQRSTUVWXYZabcdefghijklmnopqrstuvwxyz0123456789-_".toList

def symbol (value : Nat) : Char := alphabet.getD value 'A'

def valueOf (c : Char) : Option Nat :=
  if alphabet.idxOf c < 64 then some (alphabet.idxOf c) else none

/-- Three bytes make four symbols; a shorter tail makes one symbol more than it has bytes. -/
def encodeBytes : List UInt8 → List Char
  | [] => []
  | [a] => [symbol (a.toNat / 4), symbol (a.toNat % 4 * 16)]
  | [a, b] =>
    [symbol (a.toNat / 4), symbol (a.toNat % 4 * 16 + b.toNat / 16), symbol (b.toNat % 16 * 4)]
  | a :: b :: c :: rest =>
    symbol (a.toNat / 4) :: symbol (a.toNat % 4 * 16 + b.toNat / 16) ::
      symbol (b.toNat % 16 * 4 + c.toNat / 64) :: symbol (c.toNat % 64) :: encodeBytes rest

def decodeChars : List Char → Option (List UInt8)
  | [] => some []
  | [_] => none
  | [w, x] => do
    let w ← valueOf w
    let x ← valueOf x
    if x % 16 = 0 then pure [.ofNat (w * 4 + x / 16)] else none
  | [w, x, y] => do
    let w ← valueOf w
    let x ← valueOf x
    let y ← valueOf y
    if y % 4 = 0 then pure [.ofNat (w * 4 + x / 16), .ofNat (x % 16 * 16 + y / 4)] else none
  | w :: x :: y :: z :: rest => do
    let w ← valueOf w
    let x ← valueOf x
    let y ← valueOf y
    let z ← valueOf z
    let bytes ← decodeChars rest
    pure (.ofNat (w * 4 + x / 16) :: .ofNat (x % 16 * 16 + y / 4) :: .ofNat (y % 4 * 64 + z) :: bytes)

def encode (text : String) : String := String.ofList (encodeBytes text.toByteArray.data.toList)

def decode (token : String) : Option String :=
  (decodeChars token.toList).bind fun bytes => String.fromUTF8? ⟨bytes.toArray⟩

-- Their equations, made once for the proofs below.
section
attribute [local simp] encodeBytes decodeChars valueOf
end

theorem valueOf_symbol {value : Nat} (small : value < 64) : valueOf (symbol value) = some value := by
  have all : ∀ value : Fin 64, valueOf (symbol value) = some value.val := by
    decide +kernel
  exact all ⟨value, small⟩

theorem length_alphabet : alphabet.length = 64 := by decide +kernel

theorem symbol_valueOf {c : Char} {value : Nat} (read : valueOf c = some value) :
    symbol value = c ∧ value < 64 := by
  unfold valueOf at read
  split at read
  · rename_i small
    have index := Option.some.inj read
    have inside : alphabet.idxOf c < alphabet.length := by rwa [length_alphabet]
    constructor
    · rw [← index, symbol, List.getD_eq_getElem?_getD, List.getElem?_eq_getElem inside, Option.getD_some]
      exact List.getElem_idxOf inside
    · rw [← index]
      exact small
  · cases read

theorem decodeChars_encodeBytes (bytes : List UInt8) : decodeChars (encodeBytes bytes) = some bytes := by
  fun_induction encodeBytes bytes with
  | case1 => rfl
  | case2 a =>
    have bound := a.toNat_lt
    have high : valueOf (symbol (a.toNat / 4)) = some (a.toNat / 4) := valueOf_symbol (by omega)
    have low : valueOf (symbol (a.toNat % 4 * 16)) = some (a.toNat % 4 * 16) := valueOf_symbol (by omega)
    have first : a.toNat / 4 * 4 + a.toNat % 4 * 16 / 16 = a.toNat := by omega
    simp only [decodeChars, high, low, Option.bind_eq_bind, Option.bind_some, first, Nat.mul_mod_left,
      ↓reduceIte, UInt8.ofNat_toNat, Option.pure_def]
  | case3 a b =>
    have bound := a.toNat_lt
    have bound' := b.toNat_lt
    have high : valueOf (symbol (a.toNat / 4)) = some (a.toNat / 4) := valueOf_symbol (by omega)
    have middle : valueOf (symbol (a.toNat % 4 * 16 + b.toNat / 16)) =
      some (a.toNat % 4 * 16 + b.toNat / 16) := valueOf_symbol (by omega)
    have low : valueOf (symbol (b.toNat % 16 * 4)) = some (b.toNat % 16 * 4) := valueOf_symbol (by omega)
    have first : a.toNat / 4 * 4 + (a.toNat % 4 * 16 + b.toNat / 16) / 16 = a.toNat := by omega
    have second : (a.toNat % 4 * 16 + b.toNat / 16) % 16 * 16 + b.toNat % 16 * 4 / 4 = b.toNat := by omega
    simp only [decodeChars, high, middle, low, Option.bind_eq_bind, Option.bind_some, first, second,
      Nat.mul_mod_left, ↓reduceIte, UInt8.ofNat_toNat, Option.pure_def]
  | case4 a b c rest ih =>
    have bound := a.toNat_lt
    have bound' := b.toNat_lt
    have bound'' := c.toNat_lt
    have one : valueOf (symbol (a.toNat / 4)) = some (a.toNat / 4) := valueOf_symbol (by omega)
    have two : valueOf (symbol (a.toNat % 4 * 16 + b.toNat / 16)) =
      some (a.toNat % 4 * 16 + b.toNat / 16) := valueOf_symbol (by omega)
    have three : valueOf (symbol (b.toNat % 16 * 4 + c.toNat / 64)) =
      some (b.toNat % 16 * 4 + c.toNat / 64) := valueOf_symbol (by omega)
    have four : valueOf (symbol (c.toNat % 64)) = some (c.toNat % 64) := valueOf_symbol (by omega)
    have first : a.toNat / 4 * 4 + (a.toNat % 4 * 16 + b.toNat / 16) / 16 = a.toNat := by omega
    have second : (a.toNat % 4 * 16 + b.toNat / 16) % 16 * 16 +
      (b.toNat % 16 * 4 + c.toNat / 64) / 4 = b.toNat := by omega
    have third : (b.toNat % 16 * 4 + c.toNat / 64) % 4 * 64 + c.toNat % 64 = c.toNat := by omega
    simp only [decodeChars, one, two, three, four, ih, Option.bind_eq_bind, Option.bind_some, first,
      second, third, UInt8.ofNat_toNat, Option.pure_def]

private theorem toNat_ofNat_small {n : Nat} (small : n < 256) : (UInt8.ofNat n).toNat = n :=
  Nat.mod_eq_of_lt small

theorem encodeBytes_of_decodeChars {chars : List Char} {bytes : List UInt8}
    (read : decodeChars chars = some bytes) : encodeBytes bytes = chars := by
  fun_induction decodeChars chars generalizing bytes with
  | case1 => cases read; rfl
  | case2 => cases read
  | case3 w x =>
    simp only [Option.bind_eq_bind, Option.bind_eq_some_iff] at read
    obtain ⟨p, readW, q, readX, read⟩ := read
    obtain ⟨rfl, smallP⟩ := symbol_valueOf readW
    obtain ⟨rfl, smallQ⟩ := symbol_valueOf readX
    split at read
    · cases read
      have byte := toNat_ofNat_small (n := p * 4 + q / 16) (by omega)
      have high : (p * 4 + q / 16) / 4 = p := by omega
      have low : (p * 4 + q / 16) % 4 * 16 = q := by omega
      simp only [encodeBytes, byte, high, low]
    · cases read
  | case4 =>
    simp only [Option.bind_eq_bind, Option.bind_eq_some_iff] at read
    obtain ⟨p, readW, q, readX, r, readY, read⟩ := read
    obtain ⟨rfl, smallP⟩ := symbol_valueOf readW
    obtain ⟨rfl, smallQ⟩ := symbol_valueOf readX
    obtain ⟨rfl, smallR⟩ := symbol_valueOf readY
    split at read
    · cases read
      have byte := toNat_ofNat_small (n := p * 4 + q / 16) (by omega)
      have byte' := toNat_ofNat_small (n := q % 16 * 16 + r / 4) (by omega)
      have high : (p * 4 + q / 16) / 4 = p := by omega
      have middle : (p * 4 + q / 16) % 4 * 16 + (q % 16 * 16 + r / 4) / 16 = q := by omega
      have low : (q % 16 * 16 + r / 4) % 16 * 4 = r := by omega
      simp only [encodeBytes, byte, byte', high, middle, low]
    · cases read
  | case5 w x y z rest ih =>
    simp only [Option.bind_eq_bind, Option.bind_eq_some_iff, Option.pure_def, Option.some.injEq] at read
    obtain ⟨p, readW, q, readX, r, readY, s, readZ, more, readRest, rfl⟩ := read
    obtain ⟨rfl, smallP⟩ := symbol_valueOf readW
    obtain ⟨rfl, smallQ⟩ := symbol_valueOf readX
    obtain ⟨rfl, smallR⟩ := symbol_valueOf readY
    obtain ⟨rfl, smallS⟩ := symbol_valueOf readZ
    have byte := toNat_ofNat_small (n := p * 4 + q / 16) (by omega)
    have byte' := toNat_ofNat_small (n := q % 16 * 16 + r / 4) (by omega)
    have byte'' := toNat_ofNat_small (n := r % 4 * 64 + s) (by omega)
    have one : (p * 4 + q / 16) / 4 = p := by omega
    have two : (p * 4 + q / 16) % 4 * 16 + (q % 16 * 16 + r / 4) / 16 = q := by omega
    have three : (q % 16 * 16 + r / 4) % 16 * 4 + (r % 4 * 64 + s) / 64 = r := by omega
    have four : (r % 4 * 64 + s) % 64 = s := by omega
    simp only [encodeBytes, byte, byte', byte'', one, two, three, four, ih readRest]

theorem decode_encode (text : String) : decode (encode text) = some text := by
  rw [decode, encode, String.toList_ofList, decodeChars_encodeBytes, Option.bind_some]
  exact dif_pos text.isValidUTF8

theorem decode_eq_some (token text : String) : decode token = some text ↔ token = encode text := by
  constructor
  · intro read
    obtain ⟨bytes, chars, valid⟩ := Option.bind_eq_some_iff.mp read
    have same : text.toByteArray.data.toList = bytes := by
      unfold String.fromUTF8? at valid
      split at valid
      · cases valid
        rfl
      · cases valid
    rw [encode, same, encodeBytes_of_decodeChars chars, String.ofList_toList]
  · rintro rfl
    exact decode_encode text

end Library.Base64
