import Mathlib.Order.Lattice

/-! Half-open intervals of a linear order whose upper end may be open. -/

set_option autoImplicit false
namespace Library

/-- `[start, stop)`, or `[start, ∞)`. -/
structure Span (T : Type) where
  start : T
  stop : Option T

namespace Span
variable {T : Type} [LinearOrder T]

def Covers (span : Span T) (t : T) : Prop :=
  span.start ≤ t ∧ ∀ stop, span.stop = some stop → t < stop

/-- Closed at `stop`. -/
def close (span : Span T) (stop : T) : Span T := ⟨span.start, some stop⟩

def reopen (span : Span T) : Span T := ⟨span.start, none⟩

/-- Two spans cover the same points below `bound`. -/
def AgreeBelow (bound : T) (a b : Span T) : Prop := ∀ t, t < bound → (a.Covers t ↔ b.Covers t)

theorem AgreeBelow.refl (bound : T) (a : Span T) : AgreeBelow bound a a := fun _ _ => Iff.rfl

theorem AgreeBelow.trans {bound : T} {a b c : Span T} (first : AgreeBelow bound a b)
    (second : AgreeBelow bound b c) : AgreeBelow bound a c :=
  fun t below => (first t below).trans (second t below)

theorem agree_close {bound stop : T} {span : Span T} (current : span.stop = none)
    (late : bound ≤ stop) : AgreeBelow bound span (span.close stop) := by
  intro t below
  simp only [Covers, close, current, Option.some.injEq]
  refine and_congr_right fun _ => ⟨fun _ other same => ?_, fun _ _ absent => nomatch absent⟩
  exact same ▸ below.trans_le late

theorem agree_reopen {bound stop : T} {span : Span T} (closed : span.stop = some stop)
    (late : bound ≤ stop) : AgreeBelow bound span span.reopen := by
  intro t below
  simp only [Covers, reopen, closed, Option.some.injEq]
  refine and_congr_right fun _ => ⟨(fun _ _ absent => nomatch absent), fun _ other same => ?_⟩
  exact same ▸ below.trans_le late

end Span
end Library
