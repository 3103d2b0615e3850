import Mathlib.Algebra.Ring.Nat
import Mathlib.Data.String.Basic

/-! Decimal numerals padded to a width: within the width, texts are in the order of the numbers. -/

set_option autoImplicit false
namespace Library.Padded

def padded (width n : Nat) : List Char := (Nat.toDigits 10 n).leftpad width '0'

/-- The last `width` decimal digits, the most significant first. -/
def lastDigits : Nat → Nat → List Char
  | 0, _ => []
  | width + 1, n => lastDigits width (n / 10) ++ [Nat.digitChar (n % 10)]

theorem length_lastDigits (width n : Nat) : (lastDigits width n).length = width := by
  induction width generalizing n with
  | zero => rfl
  | succ width ih => rw [lastDigits, List.length_append, ih, List.length_singleton]

theorem padded_eq {width n : Nat} (fits : n < 10 ^ (width + 1)) : padded (width + 1) n = lastDigits
    (width + 1) n := by
  induction width generalizing n with
  | zero =>
    have small : n < 10 := by simpa using fits
    rw [padded, Nat.toDigits_of_lt_base small, lastDigits, lastDigits, Nat.mod_eq_of_lt small]
    rfl
  | succ width ih =>
    have high : n / 10 < 10 ^ (width + 1) := by
      omega
    rw [lastDigits, ← ih high, padded, padded]
    by_cases small : n < 10
    · have none_ : n / 10 = 0 := by omega
      rw [Nat.toDigits_of_lt_base small, none_, Nat.toDigits_zero, Nat.mod_eq_of_lt small]
      simp [List.leftpad, List.replicate_succ']
    · rw [Nat.toDigits_of_base_le (by decide) (by omega)]
      simp [List.leftpad]

theorem digitChar_lt {m n : Nat} (less : m < n) (digit : n < 10) : Nat.digitChar m < Nat.digitChar n := by
  have all : ∀ n < 10, ∀ m < n, Nat.digitChar m < Nat.digitChar n := by decide
  exact all n digit m less

theorem append_lt_append {a b : List Char} (less : a < b) (same : a.length = b.length) (r s : List Char) :
    a ++ r < b ++ s := by
  induction a generalizing b with
  | nil =>
    cases b with
    | nil => exact absurd less (List.lt_irrefl [])
    | cons y ys => cases same
  | cons x xs ih =>
    cases b with
    | nil => cases same
    | cons y ys =>
      rw [List.cons_lt_cons_iff] at less
      rw [List.cons_append, List.cons_append, List.cons_lt_cons_iff]
      rcases less with first | ⟨here, later⟩
      · exact .inl first
      · exact .inr ⟨here, ih later (Nat.succ.inj same)⟩

theorem lastDigits_lt {width m n : Nat} (less : m < n) (fits : n < 10 ^ width) :
    lastDigits width m < lastDigits width n := by
  induction width generalizing m n with
  | zero =>
    omega
  | succ width ih =>
    have high : n / 10 < 10 ^ width := by
      omega
    rw [lastDigits, lastDigits]
    by_cases front : m / 10 < n / 10
    · exact append_lt_append (ih front high) (by rw [length_lastDigits, length_lastDigits]) _ _
    have same : m / 10 = n / 10 := by omega
    rw [same]
    refine List.append_left_lt ?_
    rw [List.cons_lt_cons_iff]
    exact .inl (digitChar_lt (by omega) (Nat.mod_lt _ (by decide)))

theorem padded_append_lt {width m n : Nat} (mfits : m < 10 ^ (width + 1)) (nfits : n < 10 ^ (width + 1))
    {r s : List Char} (less : m < n ∨ m = n ∧ r < s) : padded (width + 1) m ++ r < padded (width + 1) n ++ s := by
  rw [padded_eq mfits, padded_eq nfits]
  rcases less with first | ⟨rfl, later⟩
  · exact append_lt_append (lastDigits_lt first nfits) (by rw [length_lastDigits, length_lastDigits]) _ _
  · exact List.append_left_lt later

end Library.Padded
