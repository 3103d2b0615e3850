import Mathlib.Logic.Basic

/-! Programs that ask a world for effects and may be stopped at any of them, with proof rules for what
they keep while others change the world too. -/

set_option autoImplicit false
namespace Library

inductive Prog (E : Type) (R : E → Type) (α : Type) where
  | done (value : α)
  | ask (effect : E) (next : R effect → Prog E R α)

namespace Prog
variable {E : Type} {R : E → Type} {α β : Type}

def andThen (f : α → Prog E R β) : Prog E R α → Prog E R β
  | .done value => f value
  | .ask effect next => .ask effect fun answer => andThen f (next answer)

instance : Monad (Prog E R) where
  pure := .done
  bind p f := p.andThen f

def perform (effect : E) : Prog E R (R effect) := .ask effect .done

def Only (allowed : E → Prop) : Prog E R α → Prop
  | .done _ => True
  | .ask effect next => allowed effect ∧ ∀ answer, Only allowed (next answer)

variable {allowed : E → Prop}

theorem Only.done (value : α) : (pure value : Prog E R α).Only allowed := trivial

theorem Only.bind {p : Prog E R α} {f : α → Prog E R β} (first : p.Only allowed)
    (rest : ∀ value, (f value).Only allowed) : (p >>= f).Only allowed := by
  induction p with
  | done value => exact rest value
  | ask effect next ih =>
    obtain ⟨here, later⟩ := first
    exact ⟨here, fun answer => ih answer (later answer)⟩

theorem Only.perform {effect : E} (here : allowed effect) :
    (perform effect : Prog E R (R effect)).Only allowed := ⟨here, fun _ => trivial⟩

theorem Only.ask {effect : E} {f : R effect → Prog E R β} (here : allowed effect)
    (rest : ∀ answer, (f answer).Only allowed) : (Prog.perform effect >>= f).Only allowed :=
  Only.bind (Only.perform here) rest

theorem Only.weaken {looser : E → Prop} (loosens : ∀ effect, allowed effect → looser effect) {p : Prog E R α}
    (only : p.Only allowed) : p.Only looser := by
  induction p with
  | done value => trivial
  | ask effect next ih =>
    exact ⟨loosens effect only.1, fun answer => ih answer (only.2 answer)⟩

theorem only_true (p : Prog E R α) : p.Only fun _ => True := by
  induction p with
  | done value => trivial
  | ask effect next ih => exact ⟨trivial, ih⟩

end Prog

structure Discipline (E : Type) (R : E → Type) (W : Type) where
  /-- Settle an answer that the environment proposes. -/
  respond : (effect : E) → R effect → W → R effect × W
  /-- The effects that the rules speak of, by the state they are asked in. -/
  condition : W → E → Prop
  rely : W → W → Prop
  invariant : W → Prop
  refl : ∀ w, rely w w
  trans : ∀ {a b c}, rely a b → rely b c → rely a c
  stable : ∀ {w w'}, rely w w' → invariant w → invariant w'

namespace Discipline
open Prog
variable {E : Type} {R : E → Type} {W α β : Type} (D : Discipline E R W)

/-- The invariant holds wherever the program stops, and the result where it ends, whatever others do. -/
def Safe (result : α → W → Prop) : Prog E R α → W → Prop
  | .done value, w => D.invariant w ∧ ∀ w', D.rely w w' → result value w'
  | .ask effect next, w =>
    D.invariant w ∧ ∀ w', D.rely w w' → D.condition w' effect → ∀ proposal,
      let settled := D.respond effect proposal w'
      Safe result (next settled.1) settled.2

def Permits : Prog E R α → W → Prop
  | .done _, _ => True
  | .ask effect _, w => D.condition w effect

def advance (answers : (effect : E) → R effect) : Prog E R α → W → Prog E R α × W
  | .done value, w => (.done value, w)
  | .ask effect next, w =>
    let settled := D.respond effect (answers effect) w
    (next settled.1, settled.2)

variable {D} {result : α → W → Prop}

variable {p : Prog E R α} {w : W}

theorem Safe.holds (safe : D.Safe result p w) : D.invariant w := by
  cases p with
  | done value => exact safe.1
  | ask effect next => exact safe.1

theorem Safe.interfered {w' : W} (safe : D.Safe result p w) (others : D.rely w w') : D.Safe result p w' := by
  cases p with
  | done value =>
    exact ⟨D.stable others safe.1, fun after later => safe.2 after (D.trans others later)⟩
  | ask effect next =>
    exact ⟨D.stable others safe.1, fun after later => safe.2 after (D.trans others later)⟩

theorem Safe.bind {middle : α → W → Prop} {final : β → W → Prop} {f : α → Prog E R β}
    (first : D.Safe middle p w) (rest : ∀ value w, D.invariant w → middle value w → D.Safe final (f value) w) :
    D.Safe final (p >>= f) w := by
  induction p generalizing w with
  | done value => exact rest value w first.1 (first.2 w (D.refl w))
  | ask effect next ih =>
    exact ⟨first.1, fun w' others meets proposal => ih _ (first.2 w' others meets proposal)⟩

theorem Safe.weaken {looser : α → W → Prop} (safe : D.Safe result p w)
    (ends : ∀ value w, result value w → looser value w) : D.Safe looser p w := by
  induction p generalizing w with
  | done value => exact ⟨safe.1, fun w' others => ends value w' (safe.2 w' others)⟩
  | ask effect next ih =>
    exact ⟨safe.1, fun w' others meets proposal => ih _ (safe.2 w' others meets proposal)⟩

theorem Safe.ask {effect : E} {f : R effect → Prog E R α} (holds : D.invariant w)
    (rest : ∀ w', D.rely w w' → D.condition w' effect → ∀ proposal, D.Safe result (f (D.respond effect proposal w').1) (D.respond effect proposal w').2) :
    D.Safe result (Prog.perform effect >>= f) w := ⟨holds, rest⟩

theorem Safe.ask_kept {kept : W → Prop} {effect : E} {f : R effect → Prog E R α}
    (sound : ∀ w, kept w → D.invariant w) (stable : ∀ w w', D.rely w w' → kept w → kept w')
    (keeps : ∀ w proposal, D.condition w effect → kept w → kept (D.respond effect proposal w).2)
    (holds : kept w) (rest : ∀ reply w, kept w → D.Safe result (f reply) w) :
    D.Safe result (Prog.perform effect >>= f) w :=
  Safe.ask (sound w holds) fun w' others meets proposal =>
    rest _ _ (keeps w' proposal meets (stable w w' others holds))

theorem safe_of_only {allowed : E → Prop} {kept : W → Prop} (only : p.Only allowed)
    (sound : ∀ w, kept w → D.invariant w) (stable : ∀ w w', D.rely w w' → kept w → kept w')
    (keeps : ∀ w effect proposal, allowed effect → D.condition w effect → kept w → kept (D.respond effect proposal w).2)
    (holds : kept w) :
    D.Safe (fun _ => kept) p w := by
  induction p generalizing w with
  | done value => exact ⟨sound w holds, fun w' others => stable w w' others holds⟩
  | ask effect next ih =>
    refine ⟨sound w holds, fun w' others meets proposal => ih _ (only.2 _) ?_⟩
    exact keeps w' effect proposal only.1 meets (stable w w' others holds)

end Discipline
end Library
