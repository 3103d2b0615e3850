import Mathlib.Algebra.Ring.Nat
import Mathlib.Data.List.Basic
import Mathlib.Logic.Function.Iterate

/-! Percent-encoding of bytes: one round of decoding, rounds without end, and where they settle. -/

set_option autoImplicit false
namespace Library.Percent
open List

/-- The byte of `%`. -/
def sign : UInt8 := 37

def digit (b : UInt8) : Option UInt8 :=
  if 48 ≤ b ∧ b ≤ 57 then some (b - 48)
  else if 97 ≤ b ∧ b ≤ 102 then some (b - 97 + 10)
  else if 65 ≤ b ∧ b ≤ 70 then some (b - 65 + 10)
  else none

/-- The byte an escape at the front stands for, and what follows it. -/
def escape : List UInt8 → Option (UInt8 × List UInt8)
  | p :: h :: l :: rest =>
    if p = sign then (digit h).bind fun x => (digit l).map fun y => (x * 16 + y, rest) else none
  | _ => none

/-- One round: every escape becomes its byte, everything else stays. -/
def decode : List UInt8 → List UInt8
  | p :: h :: l :: rest =>
    match escape (p :: h :: l :: rest) with
    | some (b, _) => b :: decode rest
    | none => p :: decode (h :: l :: rest)
  | short => short

def Inert (b : UInt8) : Prop := b ≠ sign ∧ digit b = none

theorem inert_ofNat {n : Nat} (small : n < 256) (not_sign : n ≠ 37) (not_digit : ¬ (48 ≤ n ∧ n ≤ 57))
    (not_lower : ¬ (97 ≤ n ∧ n ≤ 102)) (not_upper : ¬ (65 ≤ n ∧ n ≤ 70)) : Inert (UInt8.ofNat n) := by
  have value : (UInt8.ofNat n).toNat = n := by rw [UInt8.toNat_ofNat', Nat.mod_eq_of_lt small]
  refine ⟨fun same => not_sign ?_, ?_⟩
  · rw [← value, same]
    rfl
  · simp only [digit, UInt8.le_iff_toNat_le, value, UInt8.reduceToNat]
    rw [if_neg not_digit, if_neg not_lower, if_neg not_upper]

section
variable {b v : UInt8} {a rest after t : List UInt8}

theorem escape_some (found : escape (b :: rest) = some (v, after)) :
    ∃ h l, rest = h :: l :: after ∧ decode (b :: rest) = v :: decode after := by
  rcases rest with _ | ⟨h, _ | ⟨l, more⟩⟩
  · cases found
  · cases found
  have same : more = after := by
    simp only [escape] at found
    split at found
    · cases high : digit h with
      | none => simp [high] at found
      | some x =>
        cases low : digit l with
        | none => simp [high, low] at found
        | some y =>
          simp only [high, low, Option.bind_some, Option.map_some, Option.some.injEq, Prod.mk.injEq] at found
          exact found.2
    · cases found
  subst same
  exact ⟨h, l, rfl, by simp only [decode, found]⟩

theorem decode_of_escape (found : escape (b :: rest) = some (v, after)) : decode (b :: rest) = v :: decode after :=
  (escape_some found).choose_spec.choose_spec.2

theorem decode_of_none (none_ : escape (b :: rest) = none) : decode (b :: rest) = b :: decode rest := by
  rcases rest with _ | ⟨h, _ | ⟨l, more⟩⟩
  · rfl
  · rfl
  · simp only [decode, none_]

theorem escape_append (inert : Inert v) (a rest : List UInt8) :
    escape (a ++ v :: rest) = (escape a).map fun found => (found.1, found.2 ++ v :: rest) := by
  obtain ⟨sign_, digit_⟩ := inert
  rcases a with _ | ⟨x, _ | ⟨y, _ | ⟨z, more⟩⟩⟩
  · cases rest with
    | nil => rfl
    | cons x more => cases more <;> simp [escape, sign_]
  · cases rest <;> simp [escape, digit_]
  · simp [escape, digit_]
  · simp only [cons_append, escape]
    split
    · cases digit y with
      | none => rfl
      | some _ => cases digit z <;> rfl
    · rfl

theorem decode_append (inert : Inert v) (a rest : List UInt8) :
    decode (a ++ v :: rest) = decode a ++ v :: decode rest := by
  induction size : a.length using Nat.strong_induction_on generalizing a with
  | _ n ih =>
    have whole := escape_append inert a rest
    cases a with
    | nil => exact decode_of_none whole
    | cons x more =>
      cases found : escape (x :: more) with
      | none =>
        rw [found, cons_append] at whole
        rw [cons_append, decode_of_none whole, decode_of_none found, cons_append,
          ih more.length (by rw [← size, length_cons]; omega) more rfl]
      | some pair =>
        obtain ⟨w, after⟩ := pair
        obtain ⟨h, l, same, decoded⟩ := escape_some found
        rw [found, cons_append] at whole
        rw [cons_append, decode_of_escape whole, decoded, cons_append,
          ih after.length (by rw [← size, same]; simp only [length_cons]; omega) after rfl]

theorem decode_inert (inert : ∀ b ∈ t, Inert b) : decode t = t := by
  induction t with
  | nil => rfl
  | cons b rest ih =>
    have whole := decode_append (inert b (mem_cons_self ..)) [] rest
    rw [nil_append] at whole
    rw [whole, ih fun c member => inert c (mem_cons_of_mem _ member)]
    rfl

theorem escape_of_ne (other : b ≠ sign) : escape (b :: rest) = none := by
  rcases rest with _ | ⟨h, _ | ⟨l, more⟩⟩
  · rfl
  · rfl
  · simp [escape, other]

theorem decode_of_not_mem (clean : sign ∉ t) : decode t = t := by
  induction t with
  | nil => rfl
  | cons b rest ih =>
    have other : b ≠ sign := fun same => clean (same ▸ mem_cons_self ..)
    rw [decode_of_none (escape_of_ne other), ih fun member => clean (mem_cons_of_mem _ member)]

theorem decode_append_inert (inert : ∀ b ∈ t, Inert b) (a : List UInt8) : decode (a ++ t) = decode a ++ t := by
  cases t with
  | nil => simp only [append_nil]
  | cons b rest =>
    rw [decode_append (inert b (mem_cons_self ..)),
      decode_inert fun c member => inert c (mem_cons_of_mem _ member)]

theorem decode_inert_append (inert : ∀ b ∈ t, Inert b) (a : List UInt8) : decode (t ++ a) = t ++ decode a := by
  induction t with
  | nil => rfl
  | cons b rest ih =>
    have whole := decode_append (inert b (mem_cons_self ..)) [] (rest ++ a)
    rw [nil_append] at whole
    rw [cons_append, whole, ih fun c member => inert c (mem_cons_of_mem _ member)]
    rfl

theorem decode_shrinks (a : List UInt8) : (decode a).length < a.length ∨ decode a = a := by
  induction size : a.length using Nat.strong_induction_on generalizing a with
  | _ n ih =>
    cases a with
    | nil => exact .inr rfl
    | cons x more =>
      cases found : escape (x :: more) with
      | none =>
        rw [decode_of_none found]
        rw [length_cons] at size
        rcases ih more.length (by omega) more rfl with less | same
        · exact .inl (by rw [length_cons]; omega)
        · exact .inr (by rw [same])
      | some pair =>
        obtain ⟨w, after⟩ := pair
        obtain ⟨h, l, same, decoded⟩ := escape_some found
        rw [decoded]
        subst same
        simp only [length_cons] at size ⊢
        rcases ih after.length (by omega) after rfl with less | same
        · exact .inl (by omega)
        · exact .inl (by rw [same]; omega)

theorem decode_length_le (a : List UInt8) : (decode a).length ≤ a.length := by
  rcases decode_shrinks a with less | same
  · exact Nat.le_of_lt less
  · rw [same]

def Settles (a y : List UInt8) : Prop := ∃ n, decode^[n] a = y ∧ decode y = y

theorem iterate_fixed {y : List UInt8} (fixed : decode y = y) (n : Nat) : decode^[n] y = y :=
  Function.iterate_fixed fixed n

theorem Settles.unique {y z : List UInt8} (first : Settles a y) (second : Settles a z) : y = z := by
  obtain ⟨m, reached, fixed⟩ := first
  obtain ⟨n, reached', fixed'⟩ := second
  rcases Nat.le_total m n with less | less
  · obtain ⟨k, rfl⟩ := Nat.exists_eq_add_of_le less
    rw [Nat.add_comm, Function.iterate_add_apply, reached, iterate_fixed fixed] at reached'
    exact reached'
  · obtain ⟨k, rfl⟩ := Nat.exists_eq_add_of_le less
    rw [Nat.add_comm, Function.iterate_add_apply, reached', iterate_fixed fixed'] at reached
    exact reached.symm

theorem Settles.decode {y : List UInt8} (settles : Settles a y) : Settles (decode a) y := by
  obtain ⟨n, reached, fixed⟩ := settles
  refine ⟨n, ?_, fixed⟩
  rw [← Function.iterate_succ_apply, Function.iterate_succ_apply', reached, fixed]

theorem Settles.iterate {y : List UInt8} (settles : Settles a y) (k : Nat) : Settles (Percent.decode^[k] a) y := by
  induction k with
  | zero => exact settles
  | succ k ih =>
    rw [Function.iterate_succ_apply']
    exact ih.decode

theorem settles_fixed (fixed : Percent.decode a = a) : Settles a a := ⟨0, rfl, fixed⟩

theorem iterate_append (inert : Inert v) (n : Nat) (a rest : List UInt8) :
    Percent.decode^[n] (a ++ v :: rest) = Percent.decode^[n] a ++ v :: Percent.decode^[n] rest := by
  induction n generalizing a rest with
  | zero => rfl
  | succ n ih => rw [Function.iterate_succ_apply, decode_append inert, ih]; rfl

theorem iterate_append_inert (inert : ∀ b ∈ t, Inert b) (n : Nat) (a : List UInt8) :
    Percent.decode^[n] (a ++ t) = Percent.decode^[n] a ++ t := by
  induction n generalizing a with
  | zero => rfl
  | succ n ih => rw [Function.iterate_succ_apply, decode_append_inert inert, ih]; rfl

theorem Settles.split {y : List UInt8} (inert : Inert v) (settles : Settles (a ++ v :: rest) y) :
    ∃ front back, y = front ++ v :: back ∧ Settles a front := by
  obtain ⟨n, reached, fixed⟩ := settles
  rw [iterate_append inert] at reached
  refine ⟨_, _, reached.symm, n, rfl, ?_⟩
  rw [← reached, decode_append inert] at fixed
  rcases decode_shrinks (Percent.decode^[n] a) with less | same
  · -- a shorter front would leave a longer back
    have sizes := congrArg List.length fixed
    have back := decode_length_le (Percent.decode^[n] rest)
    simp only [length_append, length_cons] at sizes
    omega
  · exact same

theorem Settles.front {y : List UInt8} (inert : ∀ b ∈ t, Inert b) (settles : Settles (a ++ t) y) :
    ∃ front, y = front ++ t ∧ Settles a front := by
  obtain ⟨n, reached, fixed⟩ := settles
  rw [iterate_append_inert inert] at reached
  refine ⟨_, reached.symm, n, rfl, ?_⟩
  rw [← reached, decode_append_inert inert] at fixed
  exact append_cancel_right fixed

end
end Library.Percent
