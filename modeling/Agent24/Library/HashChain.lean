import Mathlib.Data.List.Induction

/-! Chains of entries that each hold the digest of themselves and of the entry before. -/

set_option autoImplicit false
namespace Library.HashChain

structure Link (η β : Type) where
  prev : η
  body : β
  hash : η

variable {η β : Type} (digest : η → β → η)

/-- Every link names the digest before it, the first one the start, and holds its own. -/
def Chained : η → List (Link η β) → Prop
  | _, [] => True
  | before, link :: rest => link.prev = before ∧ digest link.prev link.body = link.hash ∧ Chained link.hash rest

def tip (start : η) (links : List (Link η β)) : η := (links.getLast?.map Link.hash).getD start

@[simp] theorem tip_append_singleton (start : η) (links : List (Link η β)) (link : Link η β) :
    tip start (links ++ [link]) = link.hash := by simp [tip]

theorem tip_cons (start : η) (link : Link η β) (links : List (Link η β)) :
    tip start (link :: links) = tip link.hash links := by
  cases links with
  | nil => rfl
  | cons next rest => simp [tip, List.getLast?_cons]

theorem chained_append_singleton {start : η} {links : List (Link η β)} {link : Link η β} :
    Chained digest start (links ++ [link]) ↔
      Chained digest start links ∧ link.prev = tip start links ∧ digest link.prev link.body = link.hash := by
  induction links generalizing start with
  | nil => simp [Chained, tip]
  | cons first rest ih => simp only [List.cons_append, Chained, ih, tip_cons, and_assoc]

theorem Chained.of_append {start : η} {front back : List (Link η β)}
    (chained : Chained digest start (front ++ back)) : Chained digest start front := by
  induction front generalizing start with
  | nil => trivial
  | cons link rest ih =>
    obtain ⟨linked, made, chained⟩ := chained
    exact ⟨linked, made, ih chained⟩

/-- A property of digests holds of every link's name for the one before, if it holds of the start. -/
theorem prev_of_chained {good : η → Prop} {start : η} {links : List (Link η β)}
    (chained : Chained digest start links) (first : good start) (made : ∀ p b, good (digest p b)) :
    ∀ link ∈ links, good link.prev := by
  induction links generalizing start with
  | nil => exact List.forall_mem_nil _
  | cons link rest ih =>
    obtain ⟨rfl, same, chained⟩ := chained
    refine List.forall_mem_cons.mpr ⟨first, ih chained ?_⟩
    rw [← same]
    exact made _ _

/-- The tip determines the chain, where digests of the two chains do not collide and are not the start. -/
theorem chain_determined {start : η} {first second : List (Link η β)} (chained : Chained digest start first)
    (chained' : Chained digest start second) (apart : ∀ p b, digest p b ≠ start)
    (injective : ∀ a ∈ first, ∀ b ∈ second, digest a.prev a.body = digest b.prev b.body →
      a.prev = b.prev ∧ a.body = b.body)
    (same : tip start first = tip start second) : first = second := by
  induction first using List.reverseRecOn generalizing second with
  | nil =>
    induction second using List.reverseRecOn with
    | nil => rfl
    | append_singleton rest last _ =>
      obtain ⟨-, -, made⟩ := (chained_append_singleton digest).mp chained'
      rw [tip_append_singleton, ← made] at same
      exact absurd same.symm (apart _ _)
  | append_singleton rest last ih =>
    obtain ⟨chainedRest, links, made⟩ := (chained_append_singleton digest).mp chained
    induction second using List.reverseRecOn with
    | nil =>
      rw [tip_append_singleton, ← made] at same
      exact absurd same (apart _ _)
    | append_singleton rest' last' _ =>
      obtain ⟨chainedRest', links', made'⟩ := (chained_append_singleton digest).mp chained'
      simp only [tip_append_singleton] at same
      obtain ⟨prev, body⟩ := injective last (by simp) last' (by simp) (by rw [made, made', same])
      have earlier : rest = rest' := ih chainedRest chainedRest'
        (fun a member b member' => injective a (List.mem_append_left _ member) b (List.mem_append_left _ member'))
        (by rw [← links, ← links', prev])
      have final : last = last' := by
        cases last
        cases last'
        simp_all
      rw [earlier, final]

end Library.HashChain
