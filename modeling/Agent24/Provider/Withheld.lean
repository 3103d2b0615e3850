import Agent24.Library.Runs
import Agent24.Provider.Evidence

/-! Withheld evidence over every run, restarts in between: what a rule covers stays a placeholder, what is
questioned shows no body, and no tombstoned or deleted KB joins the visible set. -/

set_option autoImplicit false
namespace Agent24.Provider
open Library

inductive EvidenceMove (K : Type) where
  | place (kbs : Kbs K)
  | register (kbs : Finset K)
  | release (version : Nat)
  | timedOut
  | retry
  | revoked
  | tombstone (kb : K)
  | deleted (kb : K)
  | kept (kb : K)
  | found (kb : K)
  | deliver (kbs : Finset K) (epoch : Nat)
  | observe (asked : Finset K) (scope : Visibility K) (admitted : Nat) (current : Bool)
  | restart

namespace Evidence
variable {K : Type}

theorem release_of_ne {e : Evidence K} {version : Nat} (other : version ≠ e.version) :
    e.release version = (e, false) := by
  simp [release, other]

section
variable {e : Evidence K}

/-- What one operation adds: rules at the end, the counters only up. -/
structure Grows (e e' : Evidence K) : Prop where
  rules : ∃ more, e'.rules = e.rules ++ more ∧
    (more = [] ∧ e'.epoch = e.epoch ∨ ∃ rule, more = [rule] ∧ rule.epoch = e.epoch + 1 ∧ e'.epoch = e.epoch + 1)
  version : e.version ≤ e'.version

theorem Grows.same {e' : Evidence K} (rules : e'.rules = e.rules) (epoch : e'.epoch = e.epoch)
    (version : e.version ≤ e'.version) : Grows e e' :=
  ⟨⟨[], by simp [rules], .inl ⟨rfl, epoch⟩⟩, version⟩

theorem Grows.placed {e' : Evidence K} (rules : e'.rules = e.rules) (epoch : e'.epoch = e.epoch)
    (version : e'.version = e.version) (kbs : Kbs K) : Grows e (e'.place kbs).1 :=
  ⟨⟨[⟨e'.epoch + 1, kbs⟩], by simp [place, rules], .inr ⟨_, rfl, by simp [epoch], by simp [place, epoch]⟩⟩,
    le_of_eq version.symm⟩

end

variable [DecidableEq K]

def step (e : Evidence K) : EvidenceMove K → Evidence K
  | .place kbs => (e.place kbs).1
  | .register kbs => (e.register kbs).1
  | .release version => (e.release version).1
  | .timedOut => e.timedOut
  | .retry => e.retry
  | .revoked => e.revoked.1
  | .tombstone kb => e.tombstone kb
  | .deleted kb => (e.deleted kb).1
  | .kept kb => (e.kept kb).1
  | .found kb => e.found kb
  | .deliver kbs epoch => e.deliver kbs epoch
  | .observe asked scope admitted current => (e.observe asked scope admitted current).1
  | .restart => .restore e.saved

section
variable {e : Evidence K} {kb : K} {d : Delivered K} {retired : Bool}

theorem register_of_nonempty {kbs : Finset K} (named : kbs ≠ ∅) :
    (e.register kbs).1.version = e.version + 1 ∧
      (e.register kbs).1.pending = some ⟨(e.pending.getD ⟨∅, 0⟩).kbs ∪ kbs, (e.pending.getD ⟨∅, 0⟩).timeouts⟩ := by
  simp [register, named]

theorem placed_of_mem {rule : Rule K} {epoch : Nat} (member : rule ∈ e.rules) (before : epoch < rule.epoch)
    (covers : rule.covers kb = true) : e.placed kb epoch = true :=
  List.any_eq_true.mpr ⟨rule, member, by simp [before, covers]⟩

theorem shown_of_placed (member : kb ∈ d.kbs) (placed : e.placed kb d.epoch = true) :
    e.shown retired d = .placeholder := by
  rw [shown, if_pos (.inr ⟨kb, member, placed⟩)]

theorem shown_ne_body (held : d.kbs = ∅ ∨
    ∃ kb ∈ d.kbs, e.questioned kb = true ∨ e.tombstones.get kb = some .unresolved) :
    e.shown retired d ≠ .body := by
  unfold shown
  split
  · simp
  · simp

theorem mem_observe {asked : Finset K} {scope : Visibility K} {admitted : Nat} {current : Bool}
    (member : kb ∈ (e.observe asked scope admitted current).1.visible) :
    kb ∈ e.visible ∨ kb ∉ e.tombstones.kbs ∧ e.deletedSince kb admitted = false := by
  simp only [observe, Finset.mem_union, Finset.mem_sdiff, Finset.mem_filter] at member
  rcases member with ⟨before, -⟩ | ⟨-, live, -, kept⟩
  · exact .inl before
  · exact .inr ⟨live, kept⟩

theorem grows_step (e : Evidence K) (move : EvidenceMove K) : Grows e (e.step move) := by
  cases move with
  | place kbs => exact .placed rfl rfl rfl kbs
  | register kbs =>
    simp only [step, register]
    split
    · exact .same rfl rfl (Nat.le_refl _)
    · exact .same rfl rfl (Nat.le_succ _)
  | release version =>
    simp only [step, release]
    split <;> exact .same rfl rfl (Nat.le_refl _)
  | timedOut | retry | tombstone kb | found kb | observe asked scope admitted current | restart =>
    exact .same rfl rfl (Nat.le_refl _)
  | revoked => exact @Grows.placed _ e { e with pending := none } rfl rfl rfl .all
  | deleted kb =>
    exact @Grows.placed _ e { e with tombstones := e.tombstones.remove kb } rfl rfl rfl (.one kb)
  | kept kb =>
    simp only [step, kept]
    split <;> exact .same rfl rfl (Nat.le_refl _)
  | deliver kbs epoch =>
    simp only [step, deliver]
    split <;> exact .same rfl rfl (Nat.le_refl _)

theorem epoch_le_step (e : Evidence K) (move : EvidenceMove K) : e.epoch ≤ (e.step move).epoch := by
  obtain ⟨-, -, ⟨-, same⟩ | ⟨-, -, -, next⟩⟩ := (grows_step e move).rules
  · exact le_of_eq same.symm
  · omega

theorem rules_subset_step (e : Evidence K) (move : EvidenceMove K) : e.rules ⊆ (e.step move).rules := by
  obtain ⟨more, rules, -⟩ := (grows_step e move).rules
  rw [rules]
  exact List.subset_append_left _ _

theorem run_grows (e : Evidence K) (moves : List (EvidenceMove K)) :
    e.rules ⊆ (run step moves e).rules ∧ e.epoch ≤ (run step moves e).epoch ∧
      e.version ≤ (run step moves e).version := by
  induction moves generalizing e with
  | nil => exact ⟨List.Subset.refl _, Nat.le_refl _, Nat.le_refl _⟩
  | cons move rest ih =>
    obtain ⟨rules, epoch, version⟩ := ih (e.step move)
    exact ⟨List.Subset.trans (rules_subset_step e move) rules, (epoch_le_step e move).trans epoch,
      (grows_step e move).version.trans version⟩

theorem shown_of_rule {rule : Rule K} (member : rule ∈ e.rules) (before : d.epoch < rule.epoch)
    (inside : kb ∈ d.kbs) (covers : rule.covers kb = true) (later : List (EvidenceMove K)) :
    (run step later e).shown retired d = .placeholder :=
  shown_of_placed inside (placed_of_mem ((run_grows e later).1 member) before covers)

structure Sound (e : Evidence K) : Prop where
  ordered : e.rules.Pairwise fun a b => a.epoch < b.epoch
  within : ∀ rule ∈ e.rules, rule.epoch ≤ e.epoch
  hidden : ∀ kb ∈ e.tombstones.kbs, kb ∉ e.visible

theorem Sound.step (sound : Sound e) (move : EvidenceMove K) : Sound (e.step move) := by
  obtain ⟨more, rules, grown⟩ := (grows_step e move).rules
  have le := epoch_le_step e move
  constructor
  · rw [rules]
    rcases grown with ⟨rfl, -⟩ | ⟨rule, rfl, next, -⟩
    · simpa using sound.ordered
    refine List.pairwise_append.mpr ⟨sound.ordered, List.pairwise_singleton _ _, ?_⟩
    intro old member new last
    obtain rfl := List.mem_singleton.mp last
    have bound := sound.within old member
    omega
  · rw [rules]
    intro rule member
    rcases List.mem_append.mp member with old | new
    · exact (sound.within rule old).trans le
    rcases grown with ⟨rfl, -⟩ | ⟨placed, rfl, next, now⟩
    · cases new
    · obtain rfl := List.mem_singleton.mp new
      omega
  · have erased : ∀ other kb : K, kb ∈ (e.tombstones.remove other).kbs → kb ∉ e.visible :=
      fun other kb member => sound.hidden kb (Finset.mem_of_mem_erase member)
    intro kb member visible
    cases move with
    | tombstone other =>
      obtain ⟨apart, before⟩ := Finset.mem_erase.mp visible
      exact sound.hidden kb ((Finset.mem_insert.mp member).resolve_left apart) before
    | deleted other => exact erased other kb member visible
    | found other => exact erased other kb member visible
    | kept other =>
      simp only [Evidence.step, kept] at member visible
      split at member
      · rename_i withdrawn
        rw [if_pos withdrawn] at visible
        exact erased other kb member visible
      · rename_i standing
        rw [if_neg standing] at visible
        exact sound.hidden kb member visible
    | observe =>
      rcases mem_observe visible with before | ⟨live, -⟩
      · exact sound.hidden kb member before
      · exact live member
    | register kbs =>
      simp only [Evidence.step, register] at member visible
      split at member
      all_goals
        rename_i empty
        simp only [empty, if_true, if_false] at visible
        exact sound.hidden kb member visible
    | release version =>
      simp only [Evidence.step, release] at member visible
      split at member
      all_goals
        rename_i current
        simp only [current, if_true, if_false, and_self] at visible
        exact sound.hidden kb member visible
    | deliver kbs epoch =>
      simp only [Evidence.step, deliver] at member visible
      split at member
      all_goals
        rename_i empty
        simp only [empty, if_true, if_false] at visible
        exact sound.hidden kb member visible
    | place kbs => exact sound.hidden kb member visible
    | timedOut => exact sound.hidden kb member visible
    | retry => exact sound.hidden kb member visible
    | revoked => exact sound.hidden kb member visible
    | restart => exact sound.hidden kb member visible

theorem sound_run (moves : List (EvidenceMove K)) : Sound (run step moves (fresh : Evidence K)) :=
  run_invariant step (fun _ => True) Sound (fun _ move _ sound => sound.step move) (fun _ _ => trivial)
    ⟨List.Pairwise.nil, List.forall_mem_nil _, fun _ member => absurd member (Finset.notMem_empty _)⟩

/-- A questioned KB stays so until the current version is released or the recheck comes back revoked. -/
theorem questioned_step (held : e.questioned kb = true) {move : EvidenceMove K} (unrevoked : move ≠ .revoked)
    (unreleased : move ≠ .release e.version) : (e.step move).questioned kb = true := by
  unfold questioned at held ⊢
  cases pending : e.pending with
  | none => simp [pending] at held
  | some p =>
    have inside : kb ∈ p.kbs := by simpa [pending] using held
    cases move with
    | revoked => exact absurd rfl unrevoked
    | release version =>
      have other : version ≠ e.version := fun same => unreleased (same ▸ rfl)
      simpa [step, release_of_ne other, pending] using inside
    | register kbs =>
      simp only [step, register]
      split
      · simpa [pending] using inside
      · simp [pending, inside]
    | timedOut => simpa [step, timedOut, pending] using inside
    | retry => simpa [step, retry, pending] using inside
    | kept other =>
      simp only [step, kept]
      split <;> simpa [pending] using inside
    | deliver kbs epoch =>
      simp only [step, deliver]
      split <;> simpa [pending] using inside
    | place kbs => simpa [step, place, pending] using inside
    | tombstone other => simpa [step, tombstone, pending] using inside
    | deleted other => simpa [step, deleted, place, pending] using inside
    | found other => simpa [step, found, pending] using inside
    | observe => simpa [step, observe, pending] using inside
    | restart => simpa [step, restore, saved, pending] using inside

theorem questioned_run {later : List (EvidenceMove K)} (held : e.questioned kb = true)
    (along : Along step (fun e move => move ≠ .revoked ∧ move ≠ .release e.version) later e) :
    (run step later e).questioned kb = true := by
  induction later generalizing e with
  | nil => exact held
  | cons move rest ih =>
    obtain ⟨⟨unrevoked, unreleased⟩, tail⟩ := along
    exact ih (questioned_step held unrevoked unreleased) tail

theorem questioned_register {kbs : Finset K} (inside : kb ∈ kbs) :
    (e.step (.register kbs)).questioned kb = true := by
  have named : kbs ≠ ∅ := Finset.ne_empty_of_mem inside
  rw [questioned, step, (register_of_nonempty named).2]
  simp [inside]

/-- The rule of a deletion is there from then on, past every epoch a request was admitted at before. -/
theorem deletedSince_run {later : List (EvidenceMove K)} (deleted : .deleted kb ∈ later) {admitted : Nat}
    (before : admitted ≤ e.epoch) : (run step later e).deletedSince kb admitted = true := by
  obtain ⟨earlier, rest, rfl⟩ := List.append_of_mem deleted
  rw [run_append, run_cons]
  have grown := (run_grows e earlier).2.1
  set now := run step earlier e
  have member : (⟨now.epoch + 1, .one kb⟩ : Rule K) ∈ (now.step (.deleted kb)).rules := by
    simp [step, Evidence.deleted, place]
  refine List.any_eq_true.mpr ⟨_, (run_grows _ rest).1 member, ?_⟩
  simp
  omega

end

/-- In every run of a binding's evidence, with restarts: what a rule covers stays a placeholder, a registered KB
shows no body until its last version's release, versions and epochs only go up, and no buried KB joins the visible
set. -/
theorem withheld_evidence (moves : List (EvidenceMove K)) :
    let e := run step moves fresh
    (∀ (d : Delivered K) (rule : Rule K) (kb : K), rule ∈ e.rules → d.epoch < rule.epoch → kb ∈ d.kbs →
      rule.covers kb = true → ∀ later retired, (run step later e).shown retired d = .placeholder) ∧
    (∀ (kbs : Finset K) (kb : K), kb ∈ kbs → ∀ later,
      Along step (fun e move => move ≠ .revoked ∧ move ≠ .release e.version) later (e.step (.register kbs)) →
      ∀ retired (d : Delivered K), kb ∈ d.kbs →
        (run step later (e.step (.register kbs))).shown retired d ≠ .body) ∧
    (∀ d : Delivered K, d.kbs ≠ ∅ → d.epoch ≤ e.epoch → ∀ later retired,
      (run step later (e.step .revoked)).shown retired d = .placeholder) ∧
    (∀ version, version ≠ e.version → e.release version = (e, false)) ∧
    (∀ kbs : Finset K, kbs ≠ ∅ → ∀ later, e.version < (run step later (e.step (.register kbs))).version) ∧
    (∀ move, (∀ kbs, move ≠ .register kbs) → (e.step move).version = e.version) ∧
    (e.rules.Pairwise fun a b => a.epoch < b.epoch) ∧ (∀ rule ∈ e.rules, rule.epoch ≤ e.epoch) ∧
    (∀ move, (e.step move).rules = e.rules ∨ ∃ rule,
      (e.step move).rules = e.rules ++ [rule] ∧ ∀ later, e.epoch < (run step later (e.step move)).epoch) ∧
    (∀ retired (d : Delivered K), d.kbs = ∅ → e.shown retired d ≠ .body) ∧
    (∀ kb, e.tombstoneOf kb ≠ none → kb ∉ e.visible) ∧
    ∀ kb later, .deleted kb ∈ later → ∀ asked scope current admitted, admitted ≤ e.epoch →
      let e' := run step later e
      kb ∉ e'.visible → kb ∉ (e'.step (.observe asked scope admitted current)).visible := by
  intro e
  have sound : Sound e := sound_run moves
  refine ⟨?_, ?_, ?_, fun version other => release_of_ne other, ?_, ?_, sound.ordered, sound.within, ?_,
    fun retired d empty => shown_ne_body (.inl empty), ?_, ?_⟩
  · exact fun d rule kb member before inside covers later retired =>
      shown_of_rule member before inside covers later
  · intro kbs kb registered later along retired d inside
    apply shown_ne_body
    exact .inr ⟨kb, inside, .inl (questioned_run (questioned_register registered) along)⟩
  · intro d named admitted later retired
    obtain ⟨kb, inside⟩ := Finset.nonempty_iff_ne_empty.mpr named
    have member : (⟨e.epoch + 1, .all⟩ : Rule K) ∈ (e.step .revoked).rules := by
      simp [step, revoked, place]
    exact shown_of_rule member (Nat.lt_succ_of_le admitted) inside rfl later
  · intro kbs named later
    have registered : (e.step (.register kbs)).version = e.version + 1 := (register_of_nonempty named).1
    have grown := (run_grows (e.step (.register kbs)) later).2.2
    omega
  · intro move other
    cases move with
    | register kbs => exact absurd rfl (other kbs)
    | release version =>
      simp only [step, release]
      split <;> rfl
    | kept kb =>
      simp only [step, kept]
      split <;> rfl
    | deliver kbs epoch =>
      simp only [step, deliver]
      split <;> rfl
    | _ => rfl
  · intro move
    obtain ⟨more, rules, ⟨rfl, -⟩ | ⟨rule, rfl, -, next⟩⟩ := (grows_step e move).rules
    · left
      simpa using rules
    right
    refine ⟨rule, rules, fun later => ?_⟩
    have grown := (run_grows (e.step move) later).2.1
    omega
  · intro kb stands
    apply sound.hidden kb
    by_contra absent
    exact stands (Tombstones.get_eq_none.mpr absent)
  · intro kb later deleted asked scope current admitted before e' absent joined
    rcases mem_observe joined with old | ⟨-, kept⟩
    · exact absent old
    · rw [deletedSince_run deleted before] at kept
      cases kept

end Evidence
end Agent24.Provider
