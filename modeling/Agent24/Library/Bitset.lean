import Mathlib.Data.List.Basic
import Mathlib.Algebra.Ring.Nat

/-! Sets of small numbers as lists of 64-bit words. -/

set_option autoImplicit false
namespace Library.Bitset

abbrev Word := BitVec 64

def bit (k : Nat) : Word := 1#64 <<< (k % 64)

def set (bits : List Word) (k : Nat) : List Word := bits.modify (k / 64) fun word => word ||| bit k

def get (bits : List Word) (k : Nat) : Bool := bits.getD (k / 64) 0 &&& bit k != 0

/-- The members that may move go one up, those that may stay also stay; `w` is the first word's place, and `carry`
what moves into it. -/
def shift (moves keeps : Nat → Word) (w : Nat) (carry : Word) : List Word → List Word
  | [] => []
  | word :: rest =>
    let advanced := word &&& moves w
    (advanced <<< 1 ||| carry ||| (word &&& keeps w)) :: shift moves keeps (w + 1) (advanced >>> 63) rest

@[simp] theorem length_set (bits : List Word) (k : Nat) : (set bits k).length = bits.length := List.length_modify ..

section
variable (moves keeps : Nat → Word)

@[simp] theorem length_shift (w : Nat) (carry : Word) (bits : List Word) :
    (shift moves keeps w carry bits).length = bits.length := by
  induction bits generalizing w carry with
  | nil => rfl
  | cons word rest ih => rw [shift, List.length_cons, ih, List.length_cons]

theorem getLsbD_bit (k : Nat) {j : Nat} (small : j < 64) : (bit k).getLsbD j = decide (j = k % 64) := by
  simp only [bit, BitVec.getLsbD_shiftLeft, BitVec.getLsbD_one, small, decide_true, Bool.true_and]
  by_cases same : j = k % 64
  · simp [same]
  by_cases less : j < k % 64
  · simp [less, same]
  · have later : j - k % 64 ≠ 0 := by omega
    simp [less, same, later]

theorem get_eq (bits : List Word) (k : Nat) : get bits k = (bits.getD (k / 64) 0).getLsbD (k % 64) := by
  have small : k % 64 < 64 := Nat.mod_lt _ (by decide)
  rw [get]
  generalize bits.getD (k / 64) 0 = word
  have bits : ∀ j < 64, (word &&& bit k).getLsbD j = (word.getLsbD (k % 64) && decide (j = k % 64)) := by
    intro j inside
    rw [BitVec.getLsbD_and, getLsbD_bit k inside]
    by_cases same : j = k % 64
    · rw [same]
    · simp [same]
  cases here : word.getLsbD (k % 64) with
  | true =>
    rw [bne_iff_ne]
    intro zero
    have some_ := bits (k % 64) small
    simp [zero, here] at some_
  | false =>
    rw [bne_eq_false_iff_eq]
    apply BitVec.eq_of_getLsbD_eq
    intro j inside
    rw [bits j inside, here]
    simp

theorem get_of_ge {bits : List Word} {k : Nat} (past : 64 * bits.length ≤ k) : get bits k = false := by
  have out : bits.length ≤ k / 64 := by omega
  rw [get_eq, List.getD_eq_getElem?_getD, List.getElem?_eq_none out]
  simp

theorem get_replicate (n k : Nat) : get (List.replicate n 0) k = false := by
  have zero : (List.replicate n (0 : Word)).getD (k / 64) 0 = 0 := by
    rw [List.getD_eq_getElem?_getD, List.getElem?_replicate]
    split <;> rfl
  rw [get_eq, zero]
  simp

theorem get_set {bits : List Word} {k : Nat} (inside : k < 64 * bits.length) (j : Nat) :
    get (set bits k) j = (decide (j = k) || get bits j) := by
  have within : k / 64 < bits.length := by omega
  have small : j % 64 < 64 := Nat.mod_lt _ (by decide)
  rw [get_eq, get_eq, set, List.getD_eq_getElem?_getD, List.getElem?_modify, List.getD_eq_getElem?_getD]
  by_cases same : k / 64 = j / 64
  · rw [← same, List.getElem?_eq_getElem within]
    simp only [if_true, Option.map_eq_map, Option.map_some, Option.getD_some, BitVec.getLsbD_or, getLsbD_bit k small]
    have iff : j % 64 = k % 64 ↔ j = k := by omega
    simp only [iff, Bool.or_comm]
  · have other : j ≠ k := fun same' => same (by rw [same'])
    simp [same, other]

theorem getD_shift (w : Nat) (carry : Word) (single : ∀ j, j ≠ 0 → carry.getLsbD j = false) (bits : List Word)
    {i j : Nat} (inside : i < bits.length) (small : j < 64) :
    ((shift moves keeps w carry bits).getD i 0).getLsbD j =
      ((if j = 0 then if i = 0 then carry.getLsbD 0 else (bits.getD (i - 1) 0 &&& moves (w + i - 1)).getLsbD 63
        else (bits.getD i 0 &&& moves (w + i)).getLsbD (j - 1)) ||
      (bits.getD i 0 &&& keeps (w + i)).getLsbD j) := by
  induction bits generalizing w carry i with
  | nil => cases inside
  | cons word rest ih =>
    rw [shift]
    cases i with
    | zero =>
      by_cases first : j = 0
      · simp [first]
      have low : ¬ j < 1 := by omega
      simp only [List.getD_cons_zero, BitVec.getLsbD_or, BitVec.getLsbD_shiftLeft, single j first, if_neg first, small,
        low, decide_true, decide_false, Bool.not_false, Bool.true_and, Bool.or_false, Nat.add_zero]
    | succ i =>
      have over_ : ∀ j, j ≠ 0 → ((word &&& moves w) >>> 63).getLsbD j = false := by
        intro j later
        rw [BitVec.getLsbD_ushiftRight]
        exact BitVec.getLsbD_of_ge _ _ (by omega)
      have next := ih (w + 1) ((word &&& moves w) >>> 63) over_ (Nat.lt_of_succ_lt_succ inside)
      rw [List.getD_cons_succ, next]
      have place : w + 1 + i = w + (i + 1) := by omega
      rw [place, List.getD_cons_succ]
      congr 1
      by_cases first : j = 0
      · rw [if_pos first, if_pos first, if_neg (Nat.succ_ne_zero i)]
        cases i with
        | zero => simp
        | succ i => simp
      · rw [if_neg first, if_neg first]

def allows (rule : Nat → Word) (k : Nat) : Bool := (rule (k / 64)).getLsbD (k % 64)

theorem get_shift {bits : List Word} {k : Nat} (inside : k < 64 * bits.length) :
    get (shift moves keeps 0 0 bits) k =
      ((decide (k ≠ 0) && (get bits (k - 1) && allows moves (k - 1))) || (get bits k && allows keeps k)) := by
  have within : k / 64 < bits.length := by omega
  have small : k % 64 < 64 := Nat.mod_lt _ (by decide)
  rw [get_eq, getD_shift moves keeps 0 0 (by simp) bits within small, get_eq, get_eq, allows, allows, Nat.zero_add]
  simp only [BitVec.getLsbD_and]
  congr 1
  by_cases first : k % 64 = 0
  · rw [if_pos first]
    by_cases start : k = 0
    · simp [start]
    have word : k / 64 ≠ 0 := by omega
    have before : (k - 1) / 64 = k / 64 - 1 ∧ (k - 1) % 64 = 63 := by omega
    simp [word, start, before.1, before.2]
  · have start : k ≠ 0 := fun zero => first (by rw [zero])
    have before : (k - 1) / 64 = k / 64 ∧ (k - 1) % 64 = k % 64 - 1 := by omega
    simp [first, start, before.1, before.2]

end

end Library.Bitset
