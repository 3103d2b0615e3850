import Agent24.Library.Table
import Mathlib.Data.Finset.Union

/-! The evidence one binding delivered, and what the history shows of it: the epoch and its placeholder
rules, pending re-verification, deletion tombstones, the last visible set. -/

set_option autoImplicit false
namespace Agent24.Provider
open Library

abbrev Octet := Fin (2 ^ 8)

instance Octet.neZero : @NeZero Nat Zero.ofOfNat0 (2 ^ 8) := ⟨Nat.two_pow_pos 8 |>.ne'⟩

def Octet.saturatingNext (n : Octet) : Octet :=
  if bound : n.val + 1 < 2 ^ 8 then ⟨n.val + 1, bound⟩ else n

inductive Kbs (K : Type) where
  | all
  | one (kb : K)
  deriving DecidableEq

structure Rule (K : Type) where
  epoch : Nat
  kbs : Kbs K
  deriving DecidableEq

structure Delivered (K : Type) where
  kbs : Finset K
  epoch : Nat
  deriving DecidableEq

inductive Shown where
  | body
  | withheld
  | placeholder
  deriving DecidableEq

structure Recheck (K : Type) where
  kbs : Finset K
  version : Nat
  deriving DecidableEq

inductive Passed (K : Type) where
  | release
  | again (recheck : Recheck K)
  | ignored
  deriving DecidableEq

/-- The KBs questioned so far, and the rechecks in a row that timed out. -/
structure Pending (K : Type) where
  kbs : Finset K
  timeouts : Octet
  deriving DecidableEq

inductive Tombstone where
  | pending
  | unresolved
  deriving DecidableEq

structure Tombstones (K : Type) where
  kbs : Finset K
  unresolved : Finset K
  within : unresolved ⊆ kbs
  deriving DecidableEq

inductive Visibility (K : Type) where
  | listed (kbs : Finset K)
  | empty
  deriving DecidableEq

structure Observed (K : Type) where
  added : Finset K
  removed : Finset K
  deriving DecidableEq

structure Saved (K : Type) where
  epoch : Nat
  rules : List (Rule K)
  version : Nat
  pending : Option (Pending K)
  tombstones : Finset K
  visible : Finset K
  deriving DecidableEq

def Visibility.kbs {K : Type} : Visibility K → Finset K
  | .listed kbs => kbs
  | .empty => ∅

def Saved.fresh {K : Type} : Saved K := ⟨0, [], 0, none, ∅, ∅⟩

def timeoutLimit : Octet := 3

structure Evidence (K : Type) where
  epoch : Nat
  rules : List (Rule K)
  /-- Advances with every registration and never comes back. -/
  version : Nat
  pending : Option (Pending K)
  tombstones : Tombstones K
  visible : Finset K
  /-- Per set of KBs, the latest epoch such evidence was delivered at. -/
  delivered : Table (@Delivered.kbs K)

def Rule.covers {K : Type} [DecidableEq K] (rule : Rule K) (kb : K) : Bool :=
  match rule.kbs with
  | .all => true
  | .one one => decide (one = kb)

namespace Tombstones
variable {K : Type} [DecidableEq K]

def none : Tombstones K := ⟨∅, ∅, Finset.Subset.refl _⟩

def get (t : Tombstones K) (kb : K) : Option Tombstone :=
  if kb ∈ t.unresolved then some .unresolved else if kb ∈ t.kbs then some .pending else Option.none

def remove (t : Tombstones K) (kb : K) : Tombstones K :=
  ⟨t.kbs.erase kb, t.unresolved.erase kb, Finset.erase_subset_erase kb t.within⟩

def record (t : Tombstones K) (kb : K) : Tombstones K :=
  ⟨insert kb t.kbs, t.unresolved, t.within.trans (Finset.subset_insert kb t.kbs)⟩

def restored (kbs : Finset K) : Tombstones K := ⟨kbs, kbs, Finset.Subset.refl _⟩

theorem get_eq_none {t : Tombstones K} {kb : K} : t.get kb = Option.none ↔ kb ∉ t.kbs := by
  unfold get
  split
  · rename_i member
    simp [t.within member]
  · simp

end Tombstones

namespace Evidence
variable {K : Type} [DecidableEq K]

def fresh : Evidence K := ⟨0, [], 0, none, .none, ∅, .empty⟩

/-- What was persisted; the evidence in the history comes back through `deliver`. -/
def restore (saved : Saved K) : Evidence K where
  epoch := saved.epoch
  rules := saved.rules
  version := saved.version
  pending := saved.pending
  tombstones := .restored saved.tombstones
  visible := saved.visible
  delivered := .empty

section
variable (e : Evidence K)

def saved : Saved K :=
  ⟨e.epoch, e.rules, e.version, e.pending, e.tombstones.kbs, e.visible⟩

def place (kbs : Kbs K) : Evidence K × Rule K :=
  let rule : Rule K := ⟨e.epoch + 1, kbs⟩
  ({ e with epoch := e.epoch + 1, rules := e.rules ++ [rule] }, rule)

def placed (kb : K) (epoch : Nat) : Bool :=
  e.rules.any fun r => decide (epoch < r.epoch) && r.covers kb

def deletedSince (kb : K) (epoch : Nat) : Bool :=
  e.rules.any fun r => decide (epoch < r.epoch) && decide (r.kbs = .one kb)

/-- In the set, or of evidence delivered and not covered by a rule. -/
def counted (kb : K) : Bool :=
  decide (kb ∈ e.visible) ||
    e.delivered.rows.any fun d => decide (kb ∈ d.kbs) && decide (∀ k ∈ d.kbs, e.placed k d.epoch = false)

def questioned (kb : K) : Bool := e.pending.any fun p => decide (kb ∈ p.kbs)

def shown (retired : Bool) (delivered : Delivered K) : Shown :=
  if retired ∨ ∃ kb ∈ delivered.kbs, e.placed kb delivered.epoch = true then .placeholder
  -- evidence that names no KB is held back
  else if delivered.kbs = ∅ ∨
      ∃ kb ∈ delivered.kbs, e.questioned kb = true ∨ e.tombstones.get kb = some .unresolved then .withheld
  else .body

def reverifyPending : Bool := e.pending.isSome

def register (kbs : Finset K) : Evidence K × Bool :=
  if kbs = ∅ then (e, false)
  else
    let pending := e.pending.getD ⟨∅, 0⟩
    ({ e with version := e.version + 1, pending := some { pending with kbs := pending.kbs ∪ kbs } }, true)

def covering (pending : Pending K) : Recheck K := ⟨pending.kbs, e.version⟩

def recheck : Option (Recheck K) :=
  (e.pending.filter fun p => decide (p.timeouts < timeoutLimit)).map e.covering

/-- The recheck of `version` passed. -/
def passed (version : Nat) : Passed K :=
  match e.pending with
  | none => .ignored
  | some p => if version = e.version then .release else .again (e.covering p)

/-- The release of `version` is persisted; false if it is no longer current. -/
def release (version : Nat) : Evidence K × Bool :=
  if e.pending.isSome ∧ version = e.version then ({ e with pending := none }, true) else (e, false)

def timedOut : Evidence K :=
  { e with pending := e.pending.map fun p => { p with timeouts := p.timeouts.saturatingNext } }

def retry : Evidence K :=
  { e with pending := e.pending.map fun p => { p with timeouts := 0 } }

def revoked : Evidence K × Rule K := ({ e with pending := none }).place .all

/-- Before the host deletes `kb`. -/
def tombstone (kb : K) : Evidence K :=
  { e with visible := e.visible.erase kb, tombstones := e.tombstones.record kb }

def deleted (kb : K) : Evidence K × Rule K :=
  ({ e with tombstones := e.tombstones.remove kb }).place (.one kb)

/-- The deletion failed; only a tombstone of this run is withdrawn. -/
def kept (kb : K) : Evidence K × Bool :=
  if e.tombstones.get kb = some .pending then ({ e with tombstones := e.tombstones.remove kb }, true)
  else (e, false)

def found (kb : K) : Evidence K := { e with tombstones := e.tombstones.remove kb }

def tombstoneOf (kb : K) : Option Tombstone := e.tombstones.get kb

/-- Evidence of `kbs` admitted at `epoch` was delivered. -/
def deliver (kbs : Finset K) (epoch : Nat) : Evidence K :=
  if kbs = ∅ then e
  else
    let latest := (e.delivered.find kbs).elim epoch fun d => max d.epoch epoch
    { e with delivered := e.delivered.put ⟨kbs, latest⟩ }

/-- An accepted response to a request over `asked`, admitted at epoch `admitted`. -/
def observe (asked : Finset K) (scope : Visibility K) (admitted : Nat) (current : Bool) :
    Evidence K × Observed K :=
  let listed := scope.kbs
  let removed := asked.filter fun kb => current ∧ kb ∉ listed ∧ kb ∉ e.tombstones.kbs ∧ e.counted kb = true
  let added := listed.filter fun kb =>
    kb ∉ e.tombstones.kbs ∧ kb ∉ e.visible ∧ e.deletedSince kb admitted = false
  ({ e with visible := (e.visible \ removed) ∪ added }, ⟨added, removed⟩)

end

end Evidence
end Agent24.Provider
