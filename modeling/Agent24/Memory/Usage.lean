import Agent24.Library.Outcome
import Agent24.Library.Runs
import Agent24.Memory.Event
import Mathlib.Algebra.Ring.Nat

/-! The usage counters equal the totals they stand for, after every statement on the event log. -/

set_option autoImplicit false
namespace Agent24.Memory
open Library List

def billed (exempt : String → Bool) (owner : String) (class_ : Bool) (row : EventRow) : Bool :=
  row.scopeOwner == owner && exempt row.id == class_

def payloadBytes (row : EventRow) : Int := row.payload.byteLength

def tallied (exempt : String → Bool) (events : List EventRow) (owner : String) : UsageRow :=
  ⟨tally (fun _ => 1) (billed exempt owner false) events,
    tally payloadBytes (billed exempt owner false) events,
    tally (fun _ => 1) (billed exempt owner true) events,
    tally payloadBytes (billed exempt owner true) events⟩

namespace UsageRow

@[ext] theorem eq_of_fields {u v : UsageRow} (rows : u.rowCount = v.rowCount)
    (bytes : u.byteCount = v.byteCount) (exemptRows : u.exemptRowCount = v.exemptRowCount)
    (exemptBytes : u.exemptByteCount = v.exemptByteCount) : u = v := by
  cases u; cases v; simp_all

@[simp] theorem plus_zero (u : UsageRow) : u.plus zero = u := by
  ext <;> simp [plus, zero]

@[simp] theorem zero_plus (u : UsageRow) : zero.plus u = u := by
  ext <;> simp [plus, zero]

@[simp] theorem minus_zero (u : UsageRow) : u.minus zero = u := by
  ext <;> simp [minus, zero]

def onlyIf (here : Prop) [Decidable here] (charge : UsageRow) : UsageRow :=
  if here then charge else zero

@[simp] theorem onlyIf_true {here : Prop} [Decidable here] (h : here) (charge : UsageRow) :
    onlyIf here charge = charge := if_pos h

@[simp] theorem onlyIf_false {here : Prop} [Decidable here] (h : ¬ here) (charge : UsageRow) :
    onlyIf here charge = zero := if_neg h

end UsageRow

section
variable {exempt : String → Bool} {events : List EventRow}

theorem tallied_congr (other : String → Bool) (same : ∀ row ∈ events, exempt row.id = other row.id)
    (owner : String) : tallied exempt events owner = tallied other events owner := by
  have agree : ∀ class_, ∀ row ∈ events,
      billed exempt owner class_ row = billed other owner class_ row := by
    intro class_ row member
    simp only [billed, same row member]
  ext <;> exact tally_congr _ _ _ (agree _)

theorem tallied_append (owner : String) (row : EventRow) :
    tallied exempt (events ++ [row]) owner =
      (tallied exempt events owner).plus
        (.onlyIf (row.scopeOwner = owner) (.charge (exempt row.id) row.payload.byteLength)) := by
  by_cases here : row.scopeOwner = owner <;> cases kind : exempt row.id <;>
    ext <;> simp [tallied, UsageRow.plus, UsageRow.onlyIf, UsageRow.charge, UsageRow.zero, billed,
      payloadBytes, here, kind]

theorem tallied_erase (exempt : String → Bool) (distinct : (events.map EventRow.seq).Nodup) {row : EventRow}
    (member : row ∈ events) (owner : String) :
    tallied exempt (eraseKey EventRow.seq row.seq events) owner =
      (tallied exempt events owner).minus
        (.onlyIf (row.scopeOwner = owner) (.charge (exempt row.id) row.payload.byteLength)) := by
  by_cases here : row.scopeOwner = owner <;> cases kind : exempt row.id <;>
    ext <;> simp [tallied, tally_eraseKey distinct member, UsageRow.minus, UsageRow.onlyIf,
      UsageRow.charge, UsageRow.zero, billed, payloadBytes, here, kind]

theorem tallied_move (exempt : String → Bool) (distinct : (events.map EventRow.seq).Nodup) {row : EventRow}
    (member : row ∈ events) (newOwner owner : String) :
    tallied exempt (rewriteKey EventRow.seq row.seq (.setOwner newOwner) events) owner =
      ((tallied exempt events owner).minus
        (.onlyIf (row.scopeOwner = owner) (.charge (exempt row.id) row.payload.byteLength))).plus
        (.onlyIf (newOwner = owner) (.charge (exempt row.id) row.payload.byteLength)) := by
  by_cases here : row.scopeOwner = owner <;> by_cases there : newOwner = owner <;>
    cases kind : exempt row.id <;>
    ext <;> simp [tallied, tally_rewriteKey distinct member, UsageRow.minus, UsageRow.plus,
      UsageRow.onlyIf, UsageRow.charge, UsageRow.zero, billed, payloadBytes, EventRow.setOwner, here,
      there, kind]

theorem tallied_covers (distinct : (events.map EventRow.seq).Nodup) {row : EventRow}
    (member : row ∈ events) :
    ((tallied exempt events row.scopeOwner).minus
      (.charge (exempt row.id) row.payload.byteLength)).isNonneg = true := by
  have left := tallied_erase exempt distinct member row.scopeOwner
  rw [UsageRow.onlyIf_true rfl] at left
  rw [← left]
  have unit : ∀ select, 0 ≤ tally (fun _ : EventRow => (1 : Int)) select
      (eraseKey EventRow.seq row.seq events) :=
    fun select => tally_nonneg _ _ fun _ _ => by omega
  have bytes : ∀ select, 0 ≤ tally payloadBytes select (eraseKey EventRow.seq row.seq events) :=
    fun select => tally_nonneg _ _ fun other _ => other.payload.byteLength_nonneg
  simp [UsageRow.isNonneg, tallied, unit, bytes]

theorem tallied_zero {owner : String} (zero : tallied exempt events owner = .zero) :
    ∀ row ∈ events, row.scopeOwner ≠ owner := by
  intro row member here
  have counted := tally_unit_zero _ (congrArg UsageRow.rowCount zero) row member
  have spared := tally_unit_zero _ (congrArg UsageRow.exemptRowCount zero) row member
  cases kind : exempt row.id <;> simp [billed, here, kind] at counted spared

end

namespace EventTables
variable {P : Platform}

section
variable (t : EventTables)

/-- What the constraints and the triggers of `mem_events` maintain together. -/
structure Sound : Prop where
  ids : (t.events.map fun row => row.id).Nodup
  seqs : (t.events.map EventRow.seq).Nodup
  bounded : ∀ row ∈ t.events, row.seq ≤ t.lastSeq
  counted : ∀ owner, t.used owner = tallied t.exempt t.events owner

theorem hasId_iff (id : String) :
    t.hasId id = true ↔ ∃ row ∈ t.events, row.id = id := by
  simp [hasId]

theorem hasSeq_iff (seq : Int) :
    t.hasSeq seq = true ↔ ∃ row ∈ t.events, row.seq = seq := by
  simp [hasSeq]

@[simp] theorem addUsage_events (owner : String) (charge : UsageRow) :
    (t.addUsage owner charge).events = t.events := rfl
@[simp] theorem addUsage_exempt (owner : String) (charge : UsageRow) :
    (t.addUsage owner charge).exempt = t.exempt := rfl
@[simp] theorem addUsage_lastSeq (owner : String) (charge : UsageRow) :
    (t.addUsage owner charge).lastSeq = t.lastSeq := rfl

theorem addUsage_used (owner other : String) (charge : UsageRow) :
    (t.addUsage owner charge).used other =
      (t.used other).plus (.onlyIf (owner = other) charge) := by
  by_cases here : owner = other
  · subst here
    cases stored : t.usage owner <;> simp [used, addUsage, stored]
  · rw [UsageRow.onlyIf_false here, UsageRow.plus_zero]
    simp [used, addUsage, Function.update_of_ne (Ne.symm here)]

end

variable {t : EventTables}

/-- What one insert can do: refuse, skip the row, or store it under a fresh id and `seq`. -/
theorem insert_cases {t' : EventTables} {clause : Clause} {seq stored : Option Int} {row : EventColumns}
    (sound : t.Sound) (done : t.insert P clause seq row = .ok (t', stored)) :
    t.quotaGate P row = none ∧
      ((stored = none ∧ t' = t ∧ (t.hasId row.id = true ∨ t.hasSeq (seq.getD (-1)) = true)) ∨
        ∃ newSeq, newSeq = seq.getD (t.lastSeq + 1) ∧ stored = some newSeq ∧
          t.hasId row.id = false ∧ t.hasSeq newSeq = false ∧ ownerCheck row.scopeOwner = true ∧
          t' = t.store P newSeq row) := by
  simp only [insert] at done
  cases gate : t.quotaGate P row with
  | some error => simp [gate] at done
  | none =>
    refine ⟨rfl, ?_⟩
    simp only [gate] at done
    by_cases present : t.hasId row.id || t.hasSeq (seq.getD (-1))
    · simp only [present, if_true, Except.ok.injEq, Prod.mk.injEq] at done
      exact .inl ⟨done.2.symm, done.1.symm, by simpa using present⟩
    have absent := present
    simp only [Bool.or_eq_true, not_or, Bool.not_eq_true] at absent
    simp only [present, Bool.false_eq_true, if_false] at done
    cases owned : ownerCheck row.scopeOwner with
    | false => simp [owned] at done
    | true =>
      have free : t.hasSeq (seq.getD (t.lastSeq + 1)) = false := by
        cases seq with
        | some given => exact absent.2
        | none =>
          rw [Bool.eq_false_iff, ne_eq, hasSeq_iff]
          rintro ⟨other, member, same⟩
          have below := sound.bounded other member
          simp only [Option.getD_none] at same
          omega
      simp only [owned, Bool.not_true, Bool.false_eq_true, if_false, resolve, absent.1, free,
        Bool.or_self, Except.ok.injEq, Prod.mk.injEq] at done
      exact .inr ⟨_, rfl, done.2.symm, absent.1, free, rfl, done.1.symm⟩

theorem store_exempt (t : EventTables) (seq : Int) (row : EventColumns) :
    (t.store P seq row).exempt = Function.update t.exempt row.id (t.exemptNow P row) := rfl

@[simp] theorem store_events (t : EventTables) (seq : Int) (row : EventColumns) :
    (t.store P seq row).events = t.events ++ [EventRow.mk row seq] := rfl

theorem Sound.store (sound : t.Sound) {seq : Int} {row : EventColumns} (freshId : t.hasId row.id = false)
    (freshSeq : t.hasSeq seq = false) :
    (t.store P seq row).Sound := by
  have otherId : ∀ old ∈ t.events, old.id ≠ row.id := by
    intro old member same
    have stored := (hasId_iff t row.id).mpr ⟨old, member, same⟩
    rw [freshId] at stored
    exact absurd stored (by decide)
  have otherSeq : ∀ old ∈ t.events, old.seq ≠ seq := by
    intro old member same
    have stored := (hasSeq_iff t seq).mpr ⟨old, member, same⟩
    rw [freshSeq] at stored
    exact absurd stored (by decide)
  refine ⟨?_, ?_, ?_, ?_⟩
  · simp only [store_events, map_append, map_cons, map_nil, nodup_append,
      nodup_singleton, true_and, mem_map, mem_singleton]
    refine ⟨sound.ids, ?_⟩
    rintro _ ⟨old, member, rfl⟩ _ rfl
    exact otherId old member
  · simp only [store_events, map_append, map_cons, map_nil, nodup_append,
      nodup_singleton, true_and, mem_map, mem_singleton]
    refine ⟨sound.seqs, ?_⟩
    rintro _ ⟨old, member, rfl⟩ _ rfl
    exact otherSeq old member
  · intro old member
    have last : (t.store P seq row).lastSeq = max t.lastSeq seq := rfl
    rw [store_events, mem_append, mem_singleton] at member
    rcases member with member | rfl
    · have below := sound.bounded old member
      omega
    · simp only [last]
      omega
  · intro owner
    have kept : ∀ old ∈ t.events,
        Function.update t.exempt row.id (t.exemptNow P row) old.id = t.exempt old.id :=
      fun old member => Function.update_of_ne (otherId old member) ..
    rw [store_exempt, store_events, tallied_append, tallied_congr t.exempt kept, ← sound.counted owner]
    simp only [EventTables.store, addUsage_used, Function.update_self]
    rfl

theorem Sound.usage_some (sound : t.Sound) {row : EventRow} (member : row ∈ t.events) :
    t.usage row.scopeOwner = some (t.used row.scopeOwner) := by
  cases stored : t.usage row.scopeOwner with
  | some usage => simp [used, stored]
  | none =>
    have zero : tallied t.exempt t.events row.scopeOwner = .zero := by
      rw [← sound.counted]
      simp [used, stored]
    exact absurd rfl (tallied_zero zero row member)

def NoUnderflow (error : SqlError) : Prop := error ≠ .raised "mem_quota:underflow"

theorem release_ok {owner : String} {charge : UsageRow} {before : UsageRow}
    (stored : t.usage owner = some before) (covers : (before.minus charge).isNonneg = true) :
    t.release owner charge = .ok { t with
      usage := Function.update t.usage owner (some (before.minus charge)) } := by
  simp [release, stored, covers]

/-- Moving a stored event ends in a sound state; only the owner `CHECK` can refuse it. -/
theorem moveRow_ensures (sound : t.Sound) {row : EventRow} (member : row ∈ t.events) (newOwner : String) :
    Ensures (fun t' : EventTables => t'.Sound ∧ t'.exempt = t.exempt ∧
        t'.events = rewriteKey EventRow.seq row.seq (.setOwner newOwner) t.events)
      NoUnderflow (t.moveRow newOwner row) := by
  have seqs : (rewriteKey EventRow.seq row.seq (.setOwner newOwner) t.events).map EventRow.seq =
      t.events.map EventRow.seq := rewriteKey_map (EventRow.setOwner newOwner) (fun _ => rfl) _
  have ids : (rewriteKey EventRow.seq row.seq (.setOwner newOwner) t.events).map (fun old => old.id) =
      t.events.map fun old => old.id := rewriteKey_map (EventRow.setOwner newOwner) (fun _ => rfl) _
  have bounded : ∀ old ∈ rewriteKey EventRow.seq row.seq (.setOwner newOwner) t.events,
      old.seq ≤ t.lastSeq := by
    intro old inside
    have listed : old.seq ∈ t.events.map EventRow.seq := seqs ▸ mem_map_of_mem inside
    obtain ⟨source, present, same⟩ := mem_map.mp listed
    exact same ▸ sound.bounded source present
  have total := tallied_move t.exempt sound.seqs member newOwner
  have usage := sound.usage_some member
  have covers : ((t.used row.scopeOwner).minus
      (.charge (t.exempt row.id) row.payload.byteLength)).isNonneg = true := by
    rw [sound.counted]
    exact tallied_covers sound.seqs member
  unfold moveRow
  cases owned : ownerCheck newOwner with
  | false =>
    intro same
    cases same
  | true =>
    simp only [Bool.not_true, Bool.false_eq_true, if_false]
    by_cases same : row.scopeOwner = newOwner
    · simp only [same, if_true, ensures_ok, and_true]
      refine ⟨ids ▸ sound.ids, seqs ▸ sound.seqs, bounded, fun owner => ?_⟩
      rw [total owner, same]
      have kept := sound.counted owner
      by_cases here : newOwner = owner
      · subst here
        rw [← kept]
        ext <;> simp [UsageRow.plus, UsageRow.minus, used]
      · simp only [UsageRow.onlyIf_false here, UsageRow.minus_zero, UsageRow.plus_zero]
        exact kept
    · simp only [same, if_false]
      simp only [chargeOf]
      rw [release_ok (t := { t with
        events := rewriteKey EventRow.seq row.seq (.setOwner newOwner) t.events }) usage covers]
      refine ⟨⟨ids ▸ sound.ids, seqs ▸ sound.seqs, bounded, fun owner => ?_⟩, rfl, rfl⟩
      rw [addUsage_used]
      simp only [addUsage_exempt, addUsage_events]
      rw [total owner, ← sound.counted owner]
      congr 1
      by_cases here : row.scopeOwner = owner
      · subst here
        simp [used]
      · rw [UsageRow.onlyIf_false here, UsageRow.minus_zero]
        simp [used, Function.update_of_ne (Ne.symm here)]

theorem deleteRow_ensures (sound : t.Sound) {row : EventRow} (member : row ∈ t.events) :
    Ensures (fun t' : EventTables => t'.Sound ∧
        t'.exempt = Function.update t.exempt row.id false ∧
        t'.events = eraseKey EventRow.seq row.seq t.events)
      NoUnderflow (t.deleteRow row) := by
  have usage := sound.usage_some member
  have covers : ((t.used row.scopeOwner).minus
      (.charge (t.exempt row.id) row.payload.byteLength)).isNonneg = true := by
    rw [sound.counted]
    exact tallied_covers sound.seqs member
  have idsLeft : ((eraseKey EventRow.seq row.seq t.events).map fun old => old.id).Nodup :=
    sound.ids.sublist (filter_sublist.map _)
  have gone : ∀ old ∈ eraseKey EventRow.seq row.seq t.events, old.id ≠ row.id := by
    obtain ⟨before, after, whole, first, last⟩ := split_at_key sound.ids member
    intro old inside same
    have kept := mem_filter.mp inside
    rw [whole] at kept
    rcases mem_append.mp kept.1 with front | back
    · exact first old front same
    rcases mem_cons.mp back with rfl | back
    · exact of_decide_eq_true kept.2 rfl
    · exact last old back same
  unfold deleteRow
  simp only [chargeOf]
  rw [release_ok (t := { t with events := eraseKey EventRow.seq row.seq t.events }) usage covers]
  simp only [bind, Except.bind, pure, Except.pure, ensures_ok, true_and]
  refine ⟨⟨idsLeft, sound.seqs.sublist (eraseKey_sublist ..),
    fun old inside => sound.bounded old (mem_of_mem_filter inside), fun owner => ?_⟩, trivial⟩
  rw [tallied_congr t.exempt (fun old inside =>
      Function.update_of_ne (gone old inside) ..),
    tallied_erase t.exempt sound.seqs member owner, ← sound.counted owner]
  by_cases here : row.scopeOwner = owner
  · subst here
    simp [used]
  · rw [UsageRow.onlyIf_false here, UsageRow.minus_zero]
    simp [used, Function.update_of_ne (Ne.symm here)]

/-- Events stored before and after a step keep the class they were billed in. -/
def ClassKept (before after : EventTables) : Prop :=
  ∀ id, before.hasId id = true → after.hasId id = true → after.exempt id = before.exempt id

theorem ClassKept.of_exempt {before after : EventTables} (same : after.exempt = before.exempt) :
    ClassKept before after := fun _ _ _ => by rw [same]

/-- An event without its owner, the one column a statement can rewrite. -/
def unowned (row : EventRow) : EventRow := row.setOwner ""

/-- What a statement keeps: stored events stay as they are but for their owner, with their class, and
a new one gets the class its insert decides. -/
structure Kept (P : Platform) (before after : EventTables) : Prop where
  sound : after.Sound
  classes : ClassKept before after
  rows : ∀ row ∈ after.events, (∃ old ∈ before.events, unowned row = unowned old) ∨
    after.exempt row.id = before.exemptNow P row.toEventColumns

theorem Sound.of_log {t' : EventTables} (sound : t.Sound) (events : t'.events = t.events)
    (lastSeq : t'.lastSeq = t.lastSeq) (usage : t'.usage = t.usage) (exempt : t'.exempt = t.exempt) :
    t'.Sound :=
  ⟨events ▸ sound.ids, events ▸ sound.seqs, by rw [events, lastSeq]; exact sound.bounded,
    by rw [events, exempt]; simp only [used, usage]; exact sound.counted⟩

end EventTables

namespace Statement
open EventTables
variable {P : Platform}

variable {t : EventTables}

section
variable (sound : t.Sound)
include sound

theorem insert_ensures (clause : Clause) (seq : Option Int) (row : EventColumns) :
    Ensures (Kept P t) NoUnderflow
      (exec P (.insert clause seq row) t) := by
  simp only [exec]
  cases done : t.insert P clause seq row with
  | error error =>
    rintro rfl
    -- the gate raises the two quota messages only, and the other refusals are constraint errors
    simp only [EventTables.insert] at done
    cases gate : t.quotaGate P row with
    | some raised =>
      simp only [gate, Except.error.injEq] at done
      subst done
      simp only [quotaGate] at gate
      split at gate
      · split at gate
        · exact absurd gate (by decide)
        split at gate
        · exact absurd gate (by decide)
        · cases gate
      · cases gate
    | none =>
      simp only [gate] at done
      split at done
      · cases done
      split at done
      · cases done
      split at done
      case h_1 refused =>
        simp only [Except.error.injEq] at done
        subst done
        simp only [resolve] at refused
        split at refused
        · split at refused
          · cases refused
          · split at refused <;> cases refused
          · cases refused
        · cases refused
      · cases done
      · cases done
  | ok result =>
    obtain ⟨t', stored⟩ := result
    obtain ⟨-, ⟨-, rfl, -⟩ | ⟨newSeq, -, -, freshId, freshSeq, -, rfl⟩⟩ := insert_cases sound done
    · exact ⟨sound, .of_exempt rfl, fun old member => .inl ⟨old, member, rfl⟩⟩
    refine ⟨sound.store freshId freshSeq, fun id before _ => ?_, fun old member => ?_⟩
    · rw [store_exempt, Function.update_of_ne]
      rintro rfl
      rw [freshId] at before
      exact absurd before (by decide)
    · rw [store_events, mem_append, mem_singleton] at member
      rcases member with member | rfl
      · exact .inl ⟨old, member, rfl⟩
      · exact .inr (by rw [store_exempt, Function.update_self])

theorem moveOwner_ensures (newOwner : String) (which : EventRow → Bool) :
    Ensures (Kept P t) NoUnderflow
      (exec P (.moveOwner newOwner which) t) := by
  -- the rows still to be moved are stored as they were when the statement began
  let invariant (rest : List EventRow) (now : EventTables) : Prop :=
    now.Sound ∧ now.exempt = t.exempt ∧ (rest.map EventRow.seq).Nodup ∧
      (∀ row ∈ rest, row ∈ now.events) ∧
      ∀ row ∈ now.events, ∃ old ∈ t.events, unowned row = unowned old
  have keeps : ∀ row rest now, invariant (row :: rest) now →
      Ensures (invariant rest) NoUnderflow (now.moveRow newOwner row) := by
    rintro row rest now ⟨ok, same, distinct, pending, origin⟩
    refine (moveRow_ensures ok (pending row (mem_cons_self ..)) newOwner).weaken ?_
    rintro after ⟨sound', exempt, events⟩
    rw [map_cons, nodup_cons] at distinct
    refine ⟨sound', exempt.trans same, distinct.2, fun other member => ?_, fun other member => ?_⟩
    · rw [events]
      refine mem_map.mpr ⟨other, pending other (mem_cons_of_mem _ member), if_neg ?_⟩
      exact fun equal => distinct.1 (equal ▸ mem_map_of_mem member)
    · rw [events] at member
      obtain ⟨source, present, rfl⟩ := mem_map.mp member
      obtain ⟨old, stored, content⟩ := origin source present
      refine ⟨old, stored, ?_⟩
      rw [← content]
      split <;> rfl
  have start : invariant (t.events.filter which) t :=
    ⟨sound, rfl, sound.seqs.sublist (filter_sublist.map _),
      fun row member => mem_of_mem_filter member, fun row member => ⟨row, member, rfl⟩⟩
  refine (ensures_foldlM invariant keeps _ t start).weaken ?_
  rintro after ⟨ok, same, -, -, origin⟩
  exact ⟨ok, .of_exempt same, fun row member => .inl (origin row member)⟩

theorem delete_ensures (which : EventRow → Bool) :
    Ensures (Kept P t) NoUnderflow
      (exec P (.delete which) t) := by
  let invariant (rest : List EventRow) (now : EventTables) : Prop :=
    now.Sound ∧ (∀ row ∈ now.events, row ∈ t.events ∧ now.exempt row.id = t.exempt row.id) ∧
      (rest.map EventRow.seq).Nodup ∧ ∀ row ∈ rest, row ∈ now.events
  have keeps : ∀ row rest now, invariant (row :: rest) now →
      Ensures (invariant rest) NoUnderflow (now.deleteRow row) := by
    rintro row rest now ⟨ok, left, distinct, pending⟩
    have present := pending row (mem_cons_self ..)
    refine (deleteRow_ensures ok present).weaken ?_
    rintro after ⟨sound', exempt, events⟩
    rw [map_cons, nodup_cons] at distinct
    refine ⟨sound', fun other member => ?_, distinct.2, fun other member => ?_⟩
    · rw [events] at member
      have kept := mem_filter.mp member
      obtain ⟨old, same⟩ := left other kept.1
      refine ⟨old, ?_⟩
      rw [exempt, Function.update_of_ne, same]
      intro equal
      have one := inj_on_of_nodup_map ok.ids kept.1 present equal
      exact of_decide_eq_true kept.2 (congrArg EventRow.seq one)
    · rw [events]
      refine mem_filter.mpr ⟨pending other (mem_cons_of_mem _ member), decide_eq_true ?_⟩
      exact fun equal => distinct.1 (equal ▸ mem_map_of_mem member)
  have start : invariant (t.events.filter which) t :=
    ⟨sound, fun row member => ⟨member, rfl⟩, sound.seqs.sublist (filter_sublist.map _),
      fun row member => mem_of_mem_filter member⟩
  refine (ensures_foldlM invariant keeps _ t start).weaken ?_
  rintro after ⟨ok, left, -, -⟩
  refine ⟨ok, fun id _ stored => ?_, fun row member => .inl ⟨row, (left row member).1, rfl⟩⟩
  obtain ⟨row, member, rfl⟩ := (hasId_iff after id).mp stored
  exact (left row member).2

theorem exec_ensures (s : Statement) :
    Ensures (Kept P t) NoUnderflow (s.exec P t) := by
  have quiet : ∀ t' : EventTables, t'.events = t.events → t'.lastSeq = t.lastSeq →
      t'.usage = t.usage → t'.exempt = t.exempt → Kept P t t' :=
    fun t' events lastSeq usage exempt =>
      ⟨sound.of_log events lastSeq usage exempt, .of_exempt exempt,
        fun row member => .inl ⟨row, events ▸ member, rfl⟩⟩
  cases s with
  | insert clause seq row => exact insert_ensures sound clause seq row
  | moveOwner newOwner which => exact moveOwner_ensures sound newOwner which
  | delete which => exact delete_ensures sound which
  | setPayload payload which =>
    simp only [exec]
    split
    · exact fun same => absurd same (by decide)
    · exact quiet t rfl rfl rfl rfl
  | setId id which =>
    simp only [exec]
    split
    · exact fun same => absurd same (by decide)
    · exact quiet t rfl rfl rfl rfl
  | setPartition owner kind => exact quiet _ rfl rfl rfl rfl
  | setQuota owner row => exact quiet _ rfl rfl rfl rfl
  | deleteQuota owner =>
    simp only [exec]
    split
    · exact fun same => absurd same (by decide)
    · exact quiet _ rfl rfl rfl rfl
  | renameQuota owner newOwner =>
    simp only [exec]
    split
    · exact quiet t rfl rfl rfl rfl
    split
    · exact fun same => absurd same (by decide)
    split
    · exact quiet t rfl rfl rfl rfl
    split
    · exact fun same => absurd same (by decide)
    · exact quiet _ rfl rfl rfl rfl

theorem apply_kept (s : Statement) : Kept P t (s.apply P t) := by
  have step := exec_ensures (P := P) sound s
  unfold apply
  cases done : s.exec P t with
  | ok t' => rw [done] at step; exact step
  | error error => exact ⟨sound, .of_exempt rfl, fun row member => .inl ⟨row, member, rfl⟩⟩

end

end Statement

structure History where
  events : List EventRow
  lastSeq : Int
  partitions : String → Option SpaceKind
  ids : (events.map fun row => row.id).Nodup
  seqs : (events.map EventRow.seq).Nodup
  bounded : ∀ row ∈ events, row.seq ≤ lastSeq

namespace History

def migrated (h : History) : EventTables where
  events := h.events
  lastSeq := h.lastSeq
  usage owner :=
    let own := h.events.filter fun row => row.scopeOwner == owner
    if own.isEmpty then none else some ⟨own.length, (own.map payloadBytes).sum, 0, 0⟩
  exempt _ := false
  quota owner := if owner = "*" then some ⟨200000, 268435456⟩ else none
  partitions := h.partitions

def empty (partitions : String → Option SpaceKind) : History :=
  ⟨[], 0, partitions, nodup_nil, nodup_nil, fun _ absent => nomatch absent⟩

theorem migrated_sound (h : History) : h.migrated.Sound := by
  refine ⟨h.ids, h.seqs, h.bounded, fun owner => ?_⟩
  have own : billed (fun _ => false) owner false = fun row => row.scopeOwner == owner := by
    funext row
    simp [billed]
  have none_spared : billed (fun _ => false) owner true = fun _ => false := by
    funext row
    simp [billed]
  have totals : tallied (fun _ => false) h.events owner =
      ⟨(h.events.filter fun row => row.scopeOwner == owner).length,
        ((h.events.filter fun row => row.scopeOwner == owner).map payloadBytes).sum, 0, 0⟩ := by
    ext <;> simp [tallied, tally, own, none_spared]
  simp only [EventTables.used, migrated]
  rw [totals]
  cases owned : (h.events.filter fun row => row.scopeOwner == owner) with
  | nil => rfl
  | cons row rest => rfl

def after (P : Platform) (h : History) (statements : List Statement) : EventTables :=
  run (fun t (s : Statement) => s.apply P t) statements h.migrated

theorem after_sound (P : Platform) (h : History) (statements : List Statement) :
    (h.after P statements).Sound :=
  run_invariant _ (fun _ => True) EventTables.Sound
    (fun _ s _ sound => (Statement.apply_kept sound s).sound) (fun _ _ => trivial) h.migrated_sound

theorem after_append (P : Platform) (h : History) (earlier later : List Statement) :
    h.after P (earlier ++ later) = run (fun t (s : Statement) => s.apply P t) later (h.after P earlier) :=
  run_append ..

theorem class_fixed (P : Platform) (h : History) (earlier later : List Statement) (id : String)
    (stored : ∀ between, between <+: later → (h.after P (earlier ++ between)).hasId id = true) :
    (h.after P (earlier ++ later)).exempt id = (h.after P earlier).exempt id := by
  induction later using List.reverseRecOn with
  | nil => rw [append_nil]
  | append_singleton rest s ih =>
    have before := stored rest (prefix_append ..)
    have now := stored (rest ++ [s]) (prefix_refl _)
    rw [← append_assoc, after_append] at now ⊢
    have step := (Statement.apply_kept (P := P) (h.after_sound P (earlier ++ rest)) s).classes id before now
    exact step.trans (ih fun between inside => stored between (inside.trans (prefix_append ..)))

/-- Whatever the statements: the counters are the counts of the events themselves, and no statement trips an
underflow guard. -/
theorem usage_exact (P : Platform) (h : History) (statements : List Statement) :
    (∀ owner,
      let t := h.after P statements
      let counted := t.events.filter fun row => row.scopeOwner == owner && !t.exempt row.id
      let spared := t.events.filter fun row => row.scopeOwner == owner && t.exempt row.id
      t.used owner = ⟨counted.length, (counted.map fun row => row.payload.byteLength).sum,
        spared.length, (spared.map fun row => row.payload.byteLength).sum⟩) ∧
    (∀ s : Statement, s.exec P (h.after P statements) ≠ .error (.raised "mem_quota:underflow")) ∧
    (∀ later id, (∀ between, between <+: later →
        (h.after P (statements ++ between)).hasId id = true) →
      (h.after P (statements ++ later)).exempt id = (h.after P statements).exempt id) := by
  have sound := h.after_sound P statements
  refine ⟨fun owner => ?_, fun s underflow => ?_, fun later id => h.class_fixed P statements later id⟩
  · have counted : billed (h.after P statements).exempt owner false = fun row =>
        row.scopeOwner == owner && !(h.after P statements).exempt row.id := by
      funext row
      simp [billed]
    have spared : billed (h.after P statements).exempt owner true = fun row =>
        row.scopeOwner == owner && (h.after P statements).exempt row.id := by
      funext row
      simp [billed]
    intro t countedRows sparedRows
    have totals := sound.counted owner
    simp only [tallied, tally_unit, counted, spared] at totals
    exact totals
  · have safe := Statement.exec_ensures (P := P) sound s
    rw [underflow] at safe
    exact safe rfl

end History
end Agent24.Memory
