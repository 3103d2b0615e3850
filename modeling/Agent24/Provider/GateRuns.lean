import Agent24.Library.Runs
import Agent24.Provider.Gate

/-! Every run of a gate, by the history it leaves: the values handed out and confirmed, the calls
opened, sent, taken and aborted. -/

set_option autoImplicit false
namespace Agent24.Provider
open Library List

inductive GateMove where
  | invalidate
  | confirm (value : Generation)
  | openCall
  | send (call : CallId) (requestId : String)
  | accept (call : CallId) (requestId : String) (echoed : Option Generation)
  | finishRequest (call : CallId) (requestId : String)
  | mayAppend (call : CallId)
  | closeCall (call : CallId)

inductive GateEvent where
  | handed (value : Generation)
  | spent
  | invalidated
  | aborted (call : CallId)
  | confirmed (value : Generation)
  | opened (call : CallId) (generation : Generation)
  | sent (call : CallId)
  | accepted (call : CallId)
  | appended (call : CallId)
  deriving DecidableEq

def asked : Option Generation → GateEvent
  | some value => .handed value
  | none => .spent

structure GateRun where
  gate : Gate
  log : List GateEvent

namespace GateRun

def started (value : Generation) : GateRun := ⟨.new value, []⟩

def restored (last : Generation) : GateRun := ⟨.restored last, [asked last.checkedNext]⟩

def step (r : GateRun) : GateMove → GateRun
  | .invalidate =>
    let out := r.gate.invalidate
    ⟨out.1, out.2.aborted.map .aborted ++ asked out.2.toPersist :: .invalidated :: r.log⟩
  | .confirm value =>
    let out := r.gate.confirm value
    ⟨out.1, if out.2 then .confirmed value :: r.log else r.log⟩
  | .openCall =>
    match r.gate.openCall with
    | (gate, .ok (call, generation)) => ⟨gate, .opened call generation :: r.log⟩
    | (gate, .error _) => ⟨gate, r.log⟩
  | .send call requestId =>
    match r.gate.send call requestId with
    | (gate, .ok _) => ⟨gate, .sent call :: r.log⟩
    | (gate, .error _) => ⟨gate, r.log⟩
  | .accept call requestId echoed =>
    match r.gate.accept call requestId echoed with
    | .ok _ => ⟨r.gate, .accepted call :: r.log⟩
    | .error _ => r
  | .finishRequest call requestId => ⟨r.gate.finishRequest call requestId, r.log⟩
  | .mayAppend call =>
    match r.gate.mayAppend call with
    | .ok _ => ⟨r.gate, .appended call :: r.log⟩
    | .error _ => r
  | .closeCall call => ⟨r.gate.closeCall call, r.log⟩

-- Its equations, made once for all the proofs below.
section
attribute [local simp] step
end

end GateRun

def inEffect (first : Generation) : List GateEvent → Generation
  | [] => first
  | .confirmed value :: _ => value
  | _ :: earlier => inEffect first earlier

def Live (first : Generation) (log : List GateEvent) (call : CallId) : Prop :=
  ∃ since before, log = since ++ .opened call (inEffect first log) :: before ∧ .invalidated ∉ since

def AllConfirmed (log : List GateEvent) : Prop :=
  ∀ since before value, log = since ++ .handed value :: before →
    ∃ newer, .confirmed newer ∈ since ∧ value ≤ newer

def GateRight (first : Generation) (earlier : List GateEvent) : GateEvent → Prop
  | .handed value => first < value ∧ ∀ other, .handed other ∈ earlier → other < value
  | .spent | .invalidated => True
  | .aborted call => .aborted call ∉ earlier ∧ ∃ generation, .opened call generation ∈ earlier
  | .confirmed value =>
    .handed value ∈ earlier ∧ (∀ other, .handed other ∈ earlier → other ≤ value) ∧
      inEffect first earlier < value
  | .opened call generation =>
    (∀ other, .opened call other ∉ earlier) ∧ generation = inEffect first earlier ∧
      AllConfirmed earlier ∧ .spent ∉ earlier
  | .sent call | .accepted call | .appended call => Live first earlier call

section
variable {first : Generation} {log : List GateEvent} {call : CallId}

theorem inEffect_cons {event : GateEvent} (other : ∀ value, event ≠ .confirmed value) :
    inEffect first (event :: log) = inEffect first log := by
  cases event
  case confirmed value => exact absurd rfl (other value)
  all_goals rfl

theorem inEffect_append {newer : List GateEvent} (other : ∀ value, .confirmed value ∉ newer) :
    inEffect first (newer ++ log) = inEffect first log := by
  induction newer with
  | nil => rfl
  | cons event rest ih =>
    rw [cons_append, inEffect_cons, ih]
    · exact fun value member => other value (mem_cons_of_mem _ member)
    · rintro value rfl
      exact other value (mem_cons_self ..)

theorem Live.cons (live : Live first log call) {event : GateEvent} (kept : event ≠ .invalidated)
    (other : ∀ value, event ≠ .confirmed value) : Live first (event :: log) call := by
  obtain ⟨since, before, same, none⟩ := live
  refine ⟨event :: since, before, ?_, ?_⟩
  · rw [inEffect_cons other, cons_append, ← same]
  intro member
  rcases mem_cons.mp member with same | later
  · exact kept same.symm
  · exact none later

theorem AllConfirmed.cons (all : AllConfirmed log) {event : GateEvent} (other : ∀ value, event ≠ .handed value) :
    AllConfirmed (event :: log) := by
  intro since before value same
  cases since with
  | nil => exact absurd (List.cons.inj same).1 (other value)
  | cons first rest =>
    obtain ⟨rfl, tail⟩ := List.cons.inj same
    obtain ⟨newer, confirmed, le⟩ := all rest before value tail
    exact ⟨newer, mem_cons_of_mem _ confirmed, le⟩

theorem Live.not_invalidated (justified : Justified (GateRight first) log) {since before : List GateEvent}
    (same : log = since ++ .invalidated :: before) {generation : Generation}
    (opened : .opened call generation ∈ before) : ¬ Live first log call := by
  rintro ⟨after, older, split, none⟩
  generalize inEffect first log = value at split
  rw [same] at split
  -- the opening the call is live by is newer than the invalidation, and so a second one
  rcases append_eq_append_iff.mp split with ⟨middle, rfl, tail⟩ | ⟨middle, rfl, tail⟩
  · cases middle with
    | nil => cases tail
    | cons event rest =>
      obtain ⟨rfl, -⟩ := List.cons.inj tail
      exact none (mem_append_right _ (mem_cons_self ..))
  · cases middle with
    | nil => cases tail
    | cons event rest =>
      obtain ⟨rfl, rfl⟩ := List.cons.inj tail
      rw [same, append_assoc] at justified
      refine justified.right.1 generation ?_
      exact mem_append_right _ (mem_cons_of_mem _ opened)

end

structure GateSound (first : Generation) (r : GateRun) : Prop where
  right : Justified (GateRight first) r.log
  effect : r.gate.generation = inEffect first r.log
  least : first ≤ r.gate.generation
  handed : ∀ value, .handed value ∈ r.log → value ≤ r.gate.reported
  waiting : ∀ value, r.gate.pending = some value → r.gate.generation < value ∧ .handed value ∈ r.log
  confirmed : r.gate.pending = none → AllConfirmed r.log
  spent : .spent ∈ r.log → r.gate.exhausted = true
  ids : ∀ call generation, .opened call generation ∈ r.log → call.number < r.gate.nextCall
  aborted : ∀ call, .aborted call ∈ r.log → ∃ generation, .opened call generation ∈ r.log
  calls : ∀ c ∈ r.gate.calls.rows, ∃ generation, .opened c.id generation ∈ r.log
  -- the invariant on a call: not invalidated, it was admitted under the value in effect, with nothing pending
  live : ∀ c ∈ r.gate.calls.rows, c.invalidated = false →
    Live first r.log c.id ∧ .aborted c.id ∉ r.log ∧ c.generation = r.gate.generation ∧
      r.gate.pending = none ∧ r.gate.exhausted = false

section
variable {first : Generation} {r : GateRun}

theorem GateSound.started (value : Generation) : GateSound value (.started value) := by
  constructor
  · trivial
  · rfl
  · exact le_refl _
  · exact fun value member => absurd member not_mem_nil
  · exact fun value pending => by cases pending
  · intro _ since before value same
    cases since <;> cases same
  · exact fun member => absurd member not_mem_nil
  · exact fun call generation member => absurd member not_mem_nil
  · exact fun call member => absurd member not_mem_nil
  · exact forall_mem_nil _
  · exact forall_mem_nil _

theorem GateSound.restored (last : Generation) : GateSound last (.restored last) := by
  cases next : last.checkedNext with
  | none =>
    have run : GateRun.restored last = ⟨{ Gate.new last with exhausted := true }, [.spent]⟩ := by
      simp [GateRun.restored, Gate.restored, next, asked, Gate.new]
    rw [run]
    constructor
    · exact ⟨trivial, trivial⟩
    · rfl
    · exact le_refl _
    · exact fun value member => by simp at member
    · exact fun value pending => by cases pending
    · intro _ since before value same
      cases since with
      | nil => cases same
      | cons event rest => cases rest <;> cases same
    · exact fun _ => rfl
    · exact fun call generation member => by simp at member
    · exact fun call member => by simp at member
    · exact forall_mem_nil _
    · exact forall_mem_nil _
  | some value =>
    have run : GateRun.restored last = ⟨{ Gate.new last with pending := some value }, [.handed value]⟩ := by
      simp [GateRun.restored, Gate.restored, next, asked, Gate.new]
    have later := Word.lt_of_checkedNext next
    rw [run]
    constructor
    · exact ⟨⟨later, fun other member => absurd member not_mem_nil⟩, trivial⟩
    · rfl
    · exact le_refl _
    · intro other member
      obtain rfl : other = value := by simpa using member
      exact le_refl _
    · intro other pending
      cases pending
      exact ⟨later, mem_singleton_self _⟩
    · exact fun none => by cases none
    · exact fun member => by simp at member
    · exact fun call generation member => by simp at member
    · exact fun call member => by simp at member
    · exact forall_mem_nil _
    · exact forall_mem_nil _

theorem GateSound.note (sound : GateSound first r) (event : GateEvent) (right : GateRight first r.log event)
    (calm : ∀ value, event ≠ .handed value ∧ event ≠ .confirmed value)
    (quiet : event ≠ .spent ∧ event ≠ .invalidated ∧ ∀ call, event ≠ .aborted call ∧ ∀ g, event ≠ .opened call g)
    {calls : Table Call.id}
    (kept : ∀ c ∈ calls.rows, ∃ old ∈ r.gate.calls.rows,
      c.id = old.id ∧ c.generation = old.generation ∧ c.invalidated = old.invalidated) :
    GateSound first ⟨{ r.gate with calls := calls }, event :: r.log⟩ := by
  have stays : ∀ {other : GateEvent}, other ∈ event :: r.log → other ≠ event → other ∈ r.log := by
    intro other member apart
    rcases mem_cons.mp member with same | old
    · exact absurd same apart
    · exact old
  constructor
  · exact ⟨right, sound.right⟩
  · rw [inEffect_cons fun value => (calm value).2]
    exact sound.effect
  · exact sound.least
  · exact fun value member => sound.handed value (stays member (calm value).1.symm)
  · intro value pending
    obtain ⟨later, handed⟩ := sound.waiting value pending
    exact ⟨later, mem_cons_of_mem _ handed⟩
  · exact fun none => (sound.confirmed none).cons fun value => (calm value).1
  · exact fun member => sound.spent (stays member quiet.1.symm)
  · exact fun call g member => sound.ids call g (stays member ((quiet.2.2 call).2 g).symm)
  · intro call member
    obtain ⟨g, opened⟩ := sound.aborted call (stays member (quiet.2.2 call).1.symm)
    exact ⟨g, mem_cons_of_mem _ opened⟩
  · intro c member
    obtain ⟨old, inside, id, -⟩ := kept c member
    obtain ⟨g, opened⟩ := sound.calls old inside
    exact ⟨g, mem_cons_of_mem _ (id ▸ opened)⟩
  · intro c member fresh
    obtain ⟨old, inside, id, generation, mark⟩ := kept c member
    obtain ⟨live, unaborted, under, settled⟩ := sound.live old inside (mark ▸ fresh)
    rw [id, generation]
    refine ⟨live.cons quiet.2.1 fun value => (calm value).2, fun member => ?_, under, settled⟩
    exact unaborted (stays member (quiet.2.2 old.id).1.symm)

theorem GateSound.edit (sound : GateSound first r) {calls : Table Call.id}
    (kept : ∀ c ∈ calls.rows, ∃ old ∈ r.gate.calls.rows,
      c.id = old.id ∧ c.generation = old.generation ∧ c.invalidated = old.invalidated) :
    GateSound first ⟨{ r.gate with calls := calls }, r.log⟩ :=
  { sound with
    calls := fun c member => by
      obtain ⟨old, inside, id, -⟩ := kept c member
      exact id ▸ sound.calls old inside
    live := fun c member fresh => by
      obtain ⟨old, inside, id, generation, mark⟩ := kept c member
      rw [id, generation]
      exact sound.live old inside (mark ▸ fresh) }

theorem edited_calls {g : Gate} {call : CallId} {requests : Finset String → Finset String} :
    ∀ c ∈ (g.edit call requests).calls.rows, ∃ old ∈ g.calls.rows,
      c.id = old.id ∧ c.generation = old.generation ∧ c.invalidated = old.invalidated := by
  intro c member
  obtain ⟨old, inside, rfl⟩ := mem_map.mp member
  refine ⟨old, inside, ?_⟩
  split
  · exact ⟨rfl, rfl, rfl⟩
  · exact ⟨rfl, rfl, rfl⟩

theorem GateSound.generation_le (sound : GateSound first r) : r.gate.generation ≤ r.gate.reported := by
  unfold Gate.reported
  cases pending : r.gate.pending with
  | none => exact le_refl _
  | some value => exact le_of_lt (sound.waiting value pending).1

theorem justified_aborted {base : List GateEvent} (justified : Justified (GateRight first) base)
    {ids : List CallId} (distinct : ids.Nodup)
    (right : ∀ id ∈ ids, .aborted id ∉ base ∧ ∃ generation, .opened id generation ∈ base) :
    Justified (GateRight first) (ids.map .aborted ++ base) := by
  induction ids with
  | nil => exact justified
  | cons id rest ih =>
    obtain ⟨apart, distinctRest⟩ := nodup_cons.mp distinct
    obtain ⟨unaborted, generation, opened⟩ := right id (mem_cons_self ..)
    refine ⟨⟨?_, generation, mem_append_right _ opened⟩,
      ih distinctRest fun other member => right other (mem_cons_of_mem _ member)⟩
    intro member
    rcases mem_append.mp member with now | before
    · obtain ⟨other, inside, same⟩ := mem_map.mp now
      cases same
      exact apart inside
    · exact unaborted before

section
variable (sound : GateSound first r)
include sound

theorem GateSound.invalidate : GateSound first (r.step .invalidate) := by
  have le := sound.generation_le
  set aborted := r.gate.invalidate.2.aborted with abortedIs
  have fresh : ∀ id ∈ aborted, .aborted id ∉ r.log ∧ ∃ generation, .opened id generation ∈ r.log := by
    intro id member
    obtain ⟨c, inside, rfl⟩ := mem_map.mp member
    obtain ⟨called, unmarked⟩ := mem_filter.mp inside
    exact ⟨(sound.live c called (by simpa using unmarked)).2.1, sound.calls c called⟩
  have distinct : aborted.Nodup := r.gate.calls.distinct.sublist (filter_sublist.map Call.id)
  have marked : ∀ c ∈ r.gate.invalidate.1.calls.rows,
      c.invalidated = true ∧ ∃ old ∈ r.gate.calls.rows, c.id = old.id := by
    intro c member
    obtain ⟨old, inside, rfl⟩ := mem_map.mp member
    split
    · exact ⟨rfl, old, inside, rfl⟩
    · rename_i already
      exact ⟨by simpa using already, old, inside, rfl⟩
  -- what is in the new history but neither an abort, the value asked for nor the invalidation was there before
  have old : ∀ {event : GateEvent}, event ∈ (r.step .invalidate).log → (∀ id, event ≠ .aborted id) →
      event ≠ asked r.gate.invalidate.2.toPersist → event ≠ .invalidated → event ∈ r.log := by
    intro event member unaborted unasked valid
    rcases mem_append.mp member with now | before
    · obtain ⟨id, -, rfl⟩ := mem_map.mp now
      exact absurd rfl (unaborted id)
    rcases mem_cons.mp before with same | before
    · exact absurd same unasked
    rcases mem_cons.mp before with same | before
    · exact absurd same valid
    · exact before
  have newer : ∀ {event : GateEvent}, event ∈ r.log → event ∈ (r.step .invalidate).log := fun member =>
    mem_append_right _ (mem_cons_of_mem _ (mem_cons_of_mem _ member))
  have effect : inEffect first (r.step .invalidate).log = inEffect first r.log := by
    show inEffect first (aborted.map .aborted ++ asked r.gate.invalidate.2.toPersist :: .invalidated :: r.log) = _
    rw [inEffect_append, inEffect_cons, inEffect_cons]
    · nofun
    · intro value
      cases r.gate.invalidate.2.toPersist <;> nofun
    · intro value member
      obtain ⟨id, -, same⟩ := mem_map.mp member
      cases same
  have shared : Justified (GateRight first) (asked r.gate.invalidate.2.toPersist :: .invalidated :: r.log) →
      Justified (GateRight first) (r.step .invalidate).log := by
    intro base
    apply justified_aborted base distinct
    intro id member
    obtain ⟨unaborted, generation, opened⟩ := fresh id member
    refine ⟨?_, generation, mem_cons_of_mem _ (mem_cons_of_mem _ opened)⟩
    intro before
    rcases mem_cons.mp before with same | before
    · cases asking : r.gate.invalidate.2.toPersist <;> simp [asking, asked] at same
    · exact unaborted (by simpa using before)
  have ids : ∀ call generation, .opened call generation ∈ (r.step .invalidate).log →
      call.number < r.gate.nextCall := by
    intro call generation member
    apply sound.ids call generation (old member (by simp) _ (by simp))
    cases r.gate.invalidate.2.toPersist <;> simp [asked]
  have abortedOpened : ∀ call, .aborted call ∈ (r.step .invalidate).log →
      ∃ generation, .opened call generation ∈ (r.step .invalidate).log := by
    intro call member
    rcases mem_append.mp member with now | before
    · obtain ⟨id, inside, same⟩ := mem_map.mp now
      cases same
      obtain ⟨-, generation, opened⟩ := fresh _ inside
      exact ⟨generation, newer opened⟩
    · have there : .aborted call ∈ r.log := by
        cases asking : r.gate.invalidate.2.toPersist <;> simpa [asking, asked] using before
      obtain ⟨generation, opened⟩ := sound.aborted call there
      exact ⟨generation, newer opened⟩
  have called : ∀ c ∈ r.gate.invalidate.1.calls.rows,
      ∃ generation, .opened c.id generation ∈ (r.step .invalidate).log := by
    intro c member
    obtain ⟨-, before, inside, id⟩ := marked c member
    obtain ⟨generation, opened⟩ := sound.calls before inside
    exact ⟨generation, newer (id ▸ opened)⟩
  have dead : ∀ {P : Call → Prop}, ∀ c ∈ r.gate.invalidate.1.calls.rows, c.invalidated = false → P c :=
    fun c member unmarked => by simp [(marked c member).1] at unmarked
  cases next : r.gate.reported.checkedNext with
  | none =>
    have spentNow : r.gate.invalidate.1.exhausted = true := by simp [Gate.invalidate, next]
    have pending : r.gate.invalidate.1.pending = r.gate.pending := by simp [Gate.invalidate, next]
    have generation : r.gate.invalidate.1.generation = r.gate.generation := by simp [Gate.invalidate, next]
    have asking : r.gate.invalidate.2.toPersist = none := by simp [Gate.invalidate, next]
    have reported : r.gate.invalidate.1.reported = r.gate.reported := by simp [Gate.reported, pending]
    constructor
    · exact shared (by rw [asking]; exact ⟨trivial, trivial, sound.right⟩)
    · rw [effect]
      exact generation.trans sound.effect
    · exact le_of_le_of_eq sound.least generation.symm
    · intro value member
      exact le_of_le_of_eq (sound.handed value (old member (by simp) (by simp [asking, asked]) (by simp))) reported.symm
    · intro value waits
      obtain ⟨later, handed⟩ := sound.waiting value (pending ▸ waits)
      exact ⟨lt_of_eq_of_lt generation later, newer handed⟩
    · intro none
      have all := sound.confirmed (pending ▸ none)
      show AllConfirmed (aborted.map .aborted ++ asked r.gate.invalidate.2.toPersist :: .invalidated :: r.log)
      rw [asking]
      have base : AllConfirmed (asked Option.none :: .invalidated :: r.log) :=
        (all.cons (by simp)).cons (by simp [asked])
      induction aborted with
      | nil => exact base
      | cons id rest ih => exact ih.cons (by simp)
    · exact fun _ => spentNow
    · intro call generation member
      exact lt_of_lt_of_eq (ids call generation member) (by simp [GateRun.step, Gate.invalidate, next])
    · exact abortedOpened
    · exact called
    · exact dead
  | some value =>
    have spent : r.gate.invalidate.1.exhausted = r.gate.exhausted := by simp [Gate.invalidate, next]
    have pending : r.gate.invalidate.1.pending = some value := by simp [Gate.invalidate, next]
    have generation : r.gate.invalidate.1.generation = r.gate.generation := by simp [Gate.invalidate, next]
    have asking : r.gate.invalidate.2.toPersist = some value := by simp [Gate.invalidate, next]
    have reported : r.gate.invalidate.1.reported = value := by simp [Gate.reported, pending]
    have later : r.gate.reported < value := Word.lt_of_checkedNext next
    constructor
    · refine shared ?_
      rw [asking]
      refine ⟨⟨lt_of_le_of_lt (le_trans sound.least le) later, fun other member => ?_⟩, trivial, sound.right⟩
      exact lt_of_le_of_lt (sound.handed other (by simpa using member)) later
    · rw [effect]
      exact generation.trans sound.effect
    · exact le_of_le_of_eq sound.least generation.symm
    · intro other member
      show other ≤ r.gate.invalidate.1.reported
      rw [reported]
      by_cases same : other = value
      · exact le_of_eq same
      · have before := old member (by simp) (by simpa [asking, asked] using same) (by simp)
        exact le_trans (sound.handed other before) (le_of_lt later)
    · intro other waits
      cases pending.symm.trans waits
      refine ⟨lt_of_eq_of_lt generation (lt_of_le_of_lt le later), ?_⟩
      exact mem_append_right _ (by rw [asking]; exact mem_cons_self ..)
    · exact fun none => by cases pending.symm.trans none
    · intro member
      exact spent.trans (sound.spent (old member (by simp) (by simp [asking, asked]) (by simp)))
    · intro call generation member
      exact lt_of_lt_of_eq (ids call generation member) (by simp [GateRun.step, Gate.invalidate, next])
    · exact abortedOpened
    · exact called
    · exact dead

theorem GateSound.confirm (value : Generation) :
    GateSound first (r.step (.confirm value)) := by
  simp only [GateRun.step, Gate.confirm]
  split
  · exact sound
  rename_i current
  rw [not_or, not_not, Bool.not_eq_true] at current
  obtain ⟨open_, pending⟩ := current
  obtain ⟨later, handed⟩ := sound.waiting value pending
  have newest : ∀ other, .handed other ∈ r.log → other ≤ value := by
    intro other member
    simpa [Gate.reported, pending] using sound.handed other member
  have old : ∀ {event : GateEvent}, event ∈ GateEvent.confirmed value :: r.log →
      event ≠ .confirmed value → event ∈ r.log := by
    intro event member apart
    exact (mem_cons.mp member).resolve_left apart
  constructor
  · exact ⟨⟨handed, newest, sound.effect ▸ later⟩, sound.right⟩
  · rfl
  · exact le_of_lt (lt_of_le_of_lt sound.least later)
  · exact fun other member => newest other (old member (by simp))
  · exact fun other waits => by cases waits
  · intro _ since before other same
    cases since with
    | nil => cases same
    | cons event rest =>
      obtain ⟨rfl, tail⟩ := List.cons.inj same
      refine ⟨value, mem_cons_self .., newest other ?_⟩
      rw [tail]
      exact mem_append_right _ (mem_cons_self ..)
  · exact fun member => sound.spent (old member (by simp))
  · exact fun call generation member => sound.ids call generation (old member (by simp))
  · intro call member
    obtain ⟨generation, opened⟩ := sound.aborted call (old member (by simp))
    exact ⟨generation, mem_cons_of_mem _ opened⟩
  · intro c member
    obtain ⟨generation, opened⟩ := sound.calls c (Table.mem_deleteWhere.mp member).1
    exact ⟨generation, mem_cons_of_mem _ opened⟩
  · intro c member unmarked
    -- while a value is pending no call is unmarked
    have settled := (sound.live c (Table.mem_deleteWhere.mp member).1 unmarked).2.2.2.1
    cases settled.symm.trans pending

theorem GateSound.openCall : GateSound first (r.step .openCall) := by
  have closed : GateSound first ⟨r.gate, r.log⟩ := sound
  simp only [GateRun.step, Gate.openCall]
  by_cases admits : r.gate.admissionOpen = true
  · rw [if_pos admits]
    cases next : r.gate.nextCall.checkedNext with
    | none => exact closed
    | some following =>
      have later := Word.lt_of_checkedNext next
      obtain ⟨pending, unspent⟩ : r.gate.pending = none ∧ r.gate.exhausted = false := by
        simpa [Gate.admissionOpen] using admits
      have fresh : ∀ generation, .opened ⟨r.gate.nextCall⟩ generation ∉ r.log := fun generation member =>
        lt_irrefl _ (sound.ids _ generation member)
      have old : ∀ {event : GateEvent}, event ∈ GateEvent.opened ⟨r.gate.nextCall⟩ r.gate.generation :: r.log →
          event ≠ .opened ⟨r.gate.nextCall⟩ r.gate.generation → event ∈ r.log := by
        intro event member apart
        exact (mem_cons.mp member).resolve_left apart
      constructor
      · refine ⟨⟨fresh, sound.effect, sound.confirmed pending, fun spent => ?_⟩, sound.right⟩
        cases unspent.symm.trans (sound.spent spent)
      · exact sound.effect
      · exact sound.least
      · exact fun value member => sound.handed value (old member (by simp))
      · exact fun value waits => by cases pending.symm.trans waits
      · exact fun none => (sound.confirmed none).cons (by simp)
      · exact fun member => sound.spent (old member (by simp))
      · intro call generation member
        rcases mem_cons.mp member with same | before
        · cases same
          exact later
        · exact lt_trans (sound.ids call generation before) later
      · intro call member
        obtain ⟨generation, opened⟩ := sound.aborted call (old member (by simp))
        exact ⟨generation, mem_cons_of_mem _ opened⟩
      · intro c member
        rcases Table.mem_put.mp member with rfl | ⟨kept, -⟩
        · exact ⟨_, mem_cons_self ..⟩
        · obtain ⟨generation, opened⟩ := sound.calls c kept
          exact ⟨generation, mem_cons_of_mem _ opened⟩
      · intro c member unmarked
        rcases Table.mem_put.mp member with rfl | ⟨kept, -⟩
        · refine ⟨⟨[], r.log, ?_, not_mem_nil⟩, fun aborted => ?_, rfl, pending, unspent⟩
          · rw [inEffect_cons (by simp), ← sound.effect]
            rfl
          · obtain ⟨generation, opened⟩ := sound.aborted _ (old aborted (by simp))
            exact fresh generation opened
        · obtain ⟨live, unaborted, under, settled⟩ := sound.live c kept unmarked
          exact ⟨live.cons (by simp) (by simp), fun aborted => unaborted (old aborted (by simp)), under, settled⟩
  · rw [if_neg admits]
    exact closed

theorem GateSound.step (move : GateMove) : GateSound first (r.step move) := by
  have same : ∀ c ∈ r.gate.calls.rows, ∃ old ∈ r.gate.calls.rows,
      c.id = old.id ∧ c.generation = old.generation ∧ c.invalidated = old.invalidated :=
    fun c member => ⟨c, member, rfl, rfl, rfl⟩
  cases move with
  | invalidate => exact sound.invalidate
  | confirm value => exact sound.confirm value
  | openCall => exact sound.openCall
  | send call requestId =>
    simp only [GateRun.step, Gate.send]
    cases found : r.gate.calls.find call with
    | none => exact sound
    | some c =>
      obtain ⟨inside, rfl⟩ := Table.find_eq_some.mp found
      cases mark : c.invalidated with
      | true => simpa [mark] using sound
      | false =>
        simp only [mark, Bool.false_eq_true, if_false]
        exact sound.note (.sent c.id) (sound.live c inside mark).1 (by simp) (by simp) edited_calls
  | accept call =>
    simp only [GateRun.step, Gate.accept]
    cases found : r.gate.calls.find call with
    | none => simpa using sound
    | some c =>
      obtain ⟨inside, rfl⟩ := Table.find_eq_some.mp found
      cases mark : c.invalidated with
      | true => simpa [mark] using sound
      | false =>
        split
        · exact sound.note (.accepted c.id) (sound.live c inside mark).1 (by simp) (by simp) same
        · exact sound
  | finishRequest call requestId =>
    exact sound.edit (@edited_calls r.gate call (·.erase requestId))
  | mayAppend call =>
    simp only [GateRun.step, Gate.mayAppend]
    cases found : r.gate.calls.find call with
    | none => exact sound
    | some c =>
      obtain ⟨inside, rfl⟩ := Table.find_eq_some.mp found
      cases mark : c.invalidated with
      | true => simpa [mark] using sound
      | false =>
        simp only [mark, Bool.false_eq_true, if_false]
        exact sound.note (.appended c.id) (sound.live c inside mark).1 (by simp) (by simp) same
  | closeCall call =>
    exact sound.edit fun c member => ⟨c, (Table.mem_deleteWhere.mp member).1, rfl, rfl, rfl⟩

theorem GateSound.run (moves : List GateMove) :
    GateSound first (Library.run GateRun.step moves r) :=
  run_invariant GateRun.step (fun _ => True) (GateSound first) (fun _ move _ kept => kept.step move)
    (fun _ _ => trivial) sound

theorem GateSound.generation_step (move : GateMove) :
    r.gate.generation ≤ (r.step move).gate.generation := by
  cases move with
  | confirm value =>
    simp only [GateRun.step, Gate.confirm]
    split
    · exact le_refl _
    rename_i current
    rw [not_or, not_not] at current
    exact le_of_lt (sound.waiting value current.2).1
  | invalidate => exact le_of_eq r.gate.invalidate_generation.symm
  | openCall =>
    have same := r.gate.openCall_generation
    simp only [GateRun.step]
    split
    all_goals
      rename_i out
      rw [out] at same
      exact le_of_eq same.symm
  | send call requestId =>
    have same := r.gate.send_generation call requestId
    simp only [GateRun.step]
    split
    all_goals
      rename_i out
      rw [out] at same
      exact le_of_eq same.symm
  | accept =>
    simp only [GateRun.step]
    split <;> exact le_refl r.gate.generation
  | finishRequest call requestId => exact le_refl r.gate.generation
  | mayAppend call =>
    simp only [GateRun.step]
    split <;> exact le_refl r.gate.generation
  | closeCall call => exact le_refl r.gate.generation

end

theorem mem_log_step {event : GateEvent} (member : event ∈ r.log) (move : GateMove) :
    event ∈ (r.step move).log := by
  cases move with
  | invalidate => exact mem_append_right _ (mem_cons_of_mem _ (mem_cons_of_mem _ member))
  | confirm value =>
    simp only [GateRun.step]
    split
    · exact mem_cons_of_mem _ member
    · exact member
  | openCall | send call requestId | accept call requestId echoed | mayAppend call =>
    simp only [GateRun.step]
    split
    · exact mem_cons_of_mem _ member
    · exact member
  | finishRequest call requestId | closeCall call => exact member

end

inductive GateStart where
  | started (value : Generation)
  | restored (last : Generation)

def GateStart.first : GateStart → Generation
  | .started value | .restored value => value

def GateStart.run : GateStart → GateRun
  | .started value => .started value
  | .restored last => .restored last

/-- In every run of a gate the value in effect never decreases, nothing goes out for a call opened before an
invalidation, and admission closes for good once no greater value is found. -/
theorem generation_gate (start : GateStart) (moves : List GateMove) :
    let r := Library.run GateRun.step moves start.run
    Justified (GateRight start.first) r.log ∧ r.gate.generation = inEffect start.first r.log ∧
    (∀ later, r.gate.generation ≤ (Library.run GateRun.step later r).gate.generation) ∧
    (∀ call generation newer older, r.log = newer ++ .invalidated :: older → .opened call generation ∈ older →
      .sent call ∉ newer ∧ .accepted call ∉ newer ∧ .appended call ∉ newer) ∧
    (.spent ∈ r.log → ∀ later, (Library.run GateRun.step later r).gate.admissionOpen = false) := by
  have begun : GateSound start.first start.run := by
    cases start with
    | started value => exact .started value
    | restored last => exact .restored last
  intro r
  have sound : GateSound start.first r := begun.run moves
  refine ⟨sound.right, sound.effect, fun later => ?_, fun call generation newer older same opened => ?_, ?_⟩
  · exact run_relates GateRun.step (fun _ => True) (GateSound start.first)
      (fun a b => a.gate.generation ≤ b.gate.generation) (fun _ => le_refl _) (fun _ _ _ => le_trans)
      (fun _ move _ kept => kept.step move) (fun _ move _ kept => kept.generation_step move)
      (fun _ _ => trivial) sound
  · have dead : ∀ event ∈ newer, ¬ (event = .sent call ∨ event = .accepted call ∨ event = .appended call) := by
      intro event member taken
      obtain ⟨after, before, rfl⟩ := append_of_mem member
      have justified := sound.right
      rw [same, append_assoc, cons_append] at justified
      have live : Live start.first (before ++ .invalidated :: older) call := by
        rcases taken with rfl | rfl | rfl
        all_goals exact justified.right
      have rest : Justified (GateRight start.first) (before ++ .invalidated :: older) :=
        justified.older.2
      exact Live.not_invalidated rest rfl opened live
    exact ⟨fun member => dead _ member (.inl rfl), fun member => dead _ member (.inr (.inl rfl)),
      fun member => dead _ member (.inr (.inr rfl))⟩
  · intro spent later
    have still : .spent ∈ (Library.run GateRun.step later r).log :=
      run_invariant GateRun.step (fun _ => True) (fun r => .spent ∈ r.log)
        (fun _ move _ member => mem_log_step member move) (fun _ _ => trivial) spent
    have closed := (sound.run later).spent still
    simp [Gate.admissionOpen, closed]

end Agent24.Provider
