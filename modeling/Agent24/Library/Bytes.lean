import Mathlib.Algebra.Ring.Nat
import Mathlib.Data.List.Basic

/-! Byte strings: big-endian numbers, and fields framed by their lengths. -/

set_option autoImplicit false
namespace Library.Bytes

/-- The last `width` bytes of a number, the most significant first. -/
def bigEndian : Nat → Nat → List UInt8
  | 0, _ => []
  | width + 1, n => bigEndian width (n / 256) ++ [UInt8.ofNat n]

def framed (field : List UInt8) : List UInt8 := bigEndian 8 field.length ++ field

def ofText (text : String) : List UInt8 := text.toByteArray.data.toList

theorem ofText_injective : Function.Injective ofText := by
  intro a b same
  have data : a.toByteArray.data = b.toByteArray.data := Array.toList_inj.mp same
  exact String.toByteArray_inj.mp (ByteArray.ext data)

theorem ofText_eq (text : String) : ofText text = text.toList.flatMap String.utf8EncodeChar := by
  rw [ofText, ← String.utf8Encode_toList, List.utf8Encode]
  simp

theorem mem_utf8EncodeChar {b : UInt8} (ascii : b.toNat < 128) {c : Char} (member : b ∈ String.utf8EncodeChar c) :
    c.toNat = b.toNat := by
  have not_ascii : ∀ n, 128 ≤ n → n < 256 → b ≠ UInt8.ofNat n := by
    intro n large small same
    rw [same, UInt8.toNat_ofNat', Nat.mod_eq_of_lt small] at ascii
    omega
  unfold String.utf8EncodeChar at member
  dsimp only at member
  split at member
  · rename_i small
    rw [List.mem_singleton.mp member, UInt8.toNat_ofNat', Nat.mod_eq_of_lt (by omega)]
    rfl
  · exfalso
    split at member
    · simp only [List.mem_cons, List.not_mem_nil, or_false] at member
      rcases member with same | same
      all_goals exact not_ascii _ (by omega) (by omega) same
    split at member
    · simp only [List.mem_cons, List.not_mem_nil, or_false] at member
      rcases member with same | same | same
      all_goals exact not_ascii _ (by omega) (by omega) same
    · simp only [List.mem_cons, List.not_mem_nil, or_false] at member
      rcases member with same | same | same | same
      all_goals exact not_ascii _ (by omega) (by omega) same

theorem not_mem_ofText {b : UInt8} (ascii : b.toNat < 128) {text : String}
    (absent : ∀ c ∈ text.toList, c.toNat ≠ b.toNat) : b ∉ ofText text := by
  rw [ofText_eq]
  intro member
  obtain ⟨c, listed, encoded⟩ := List.mem_flatMap.mp member
  exact absent c listed (mem_utf8EncodeChar ascii encoded)

theorem length_ofText (text : String) : (ofText text).length = text.utf8ByteSize := rfl

@[simp] theorem length_bigEndian (width n : Nat) : (bigEndian width n).length = width := by
  induction width generalizing n with
  | zero => rfl
  | succ width ih => simp [bigEndian, ih]

theorem bigEndian_injective {width m n : Nat} (fits : m < 256 ^ width) (fits' : n < 256 ^ width)
    (same : bigEndian width m = bigEndian width n) : m = n := by
  induction width generalizing m n with
  | zero => simp at fits fits'; omega
  | succ width ih =>
    obtain ⟨high, low⟩ := List.append_inj' same rfl
    have last : m % 256 = n % 256 := by
      have byte := congrArg UInt8.toNat (List.singleton_inj.mp low)
      simpa using byte
    have rest := ih (Nat.div_lt_of_lt_mul (by omega)) (Nat.div_lt_of_lt_mul (by omega)) high
    omega

theorem framed_append_inj {a b x y : List UInt8} (short : a.length < 2 ^ 64) (short' : b.length < 2 ^ 64)
    (same : framed a ++ x = framed b ++ y) : a = b ∧ x = y := by
  rw [framed, framed, List.append_assoc, List.append_assoc] at same
  obtain ⟨size, rest⟩ := List.append_inj same (by simp)
  exact List.append_inj rest (bigEndian_injective (by omega) (by omega) size)

end Library.Bytes
