import Agent24.Os.AttachMux

/-! Runs of the multiplexer: what each call is told, where each frame goes, and what the module reads. -/

set_option autoImplicit false
namespace Agent24.Os
open Library List

def MuxEvent.call? : MuxEvent → Option Nat
  | .begun call _ => some call
  | .queued call => some call
  | .took _ call _ => some call
  | .returned call _ => some call
  | .dropped call => some call
  | _ => none

def MuxEvent.frame? : MuxEvent → Option Nat
  | .forwarded n => some n
  | .took n _ _ => some n
  | .stray n => some n
  | .missed n _ => some n
  | _ => none

def IsAnswer (result : CallResult) : Prop :=
  result ≠ .error .notSent ∧ result ≠ .error .connectionLost ∧ result ≠ .error .timeout

def CallRight (earlier : List MuxEvent) : MuxEvent → Prop
  | .begun call _ => ∀ id, .begun call id ∉ earlier
  | .queued call => (∃ id, .begun call id ∈ earlier) ∧ .queued call ∉ earlier ∧ .closed ∉ earlier ∧
      ∀ result, .returned call result ∉ earlier
  | .took _ call _ => .queued call ∈ earlier ∧ (∀ result, .returned call result ∉ earlier) ∧
      .dropped call ∉ earlier ∧ ∀ n fields, .took n call fields ∉ earlier
  | .returned call result => (∀ other, .returned call other ∉ earlier) ∧ .dropped call ∉ earlier ∧
      (result = .error .notSent ↔ .queued call ∉ earlier) ∧
      (IsAnswer result → ∃ n fields, .took n call fields ∈ earlier ∧ result = interpretKernelResponse fields)
  | _ => True

structure CallOk (log : List MuxEvent) (call : Nat) (c : KernelCall) : Prop where
  begun : .begun call c.id ∈ log
  fresh : c.phase = .begun → .queued call ∉ log ∧ c.slot = none
  sent : c.phase ≠ .begun → c.phase ≠ .finished → .queued call ∈ log
  going : c.phase ≠ .finished → (∀ result, .returned call result ∉ log) ∧ .dropped call ∉ log
  taken : ∀ fields, c.slot = some fields → ∃ n, .took n call fields ∈ log
  empty : c.slot = none → ∀ n fields, .took n call fields ∉ log
  leaving : ∀ result, c.phase = .leaving (some result) → result ≠ .error .notSent ∧
    (IsAnswer result → ∃ n fields, .took n call fields ∈ log ∧ result = interpretKernelResponse fields)

structure CallsKept (s : Mux) : Prop where
  bound : ∀ call c, s.calls call = some c → call < s.issued
  known : ∀ event ∈ s.log, ∀ call, event.call? = some call → ∃ c, s.calls call = some c
  ok : ∀ call c, s.calls call = some c → CallOk s.log call c
  pending : ∀ entry ∈ s.pending.rows, ∃ c, s.calls entry.call = some c ∧ c.id = entry.id ∧
    c.phase ≠ .begun ∧ c.phase ≠ .finished ∧ c.slot = none
  handing : ∀ n call fields, s.phase = .handing n call fields →
    (∃ c, s.calls call = some c ∧ c.phase ≠ .begun ∧ c.slot = none) ∧ ∀ entry ∈ s.pending.rows, entry.call ≠ call
  closed : .closed ∈ s.log ↔ s.closed = true
  justified : Justified CallRight s.log

section Calls

theorem CallOk.other {log : List MuxEvent} {call : Nat} {c : KernelCall} (ok : CallOk log call c)
    {event : MuxEvent} (other : event.call? ≠ some call) : CallOk (event :: log) call c := by
  have absent : ∀ e : MuxEvent, e.call? = some call → e ∉ log → e ∉ event :: log := by
    intro e about absent member
    rcases mem_cons.mp member with rfl | earlier
    · exact other about
    · exact absent earlier
  refine ⟨mem_cons_of_mem _ ok.begun, fun begun => ⟨absent _ rfl (ok.fresh begun).1, (ok.fresh begun).2⟩,
    fun begun finished => mem_cons_of_mem _ (ok.sent begun finished), fun finished => ⟨fun result => ?_, ?_⟩,
    fun fields full => ?_, fun empty n fields => absent _ rfl (ok.empty empty n fields), fun result leaving => ?_⟩
  · exact absent _ rfl ((ok.going finished).1 result)
  · exact absent _ rfl (ok.going finished).2
  · obtain ⟨n, took⟩ := ok.taken fields full
    exact ⟨n, mem_cons_of_mem _ took⟩
  · obtain ⟨sent, answer⟩ := ok.leaving result leaving
    refine ⟨sent, fun answered => ?_⟩
    obtain ⟨n, fields, took, same⟩ := answer answered
    exact ⟨n, fields, mem_cons_of_mem _ took, same⟩

variable {s s' : Mux} {call : Nat} {c : KernelCall}

theorem CallsKept.start : CallsKept .start where
  bound _ _ := nofun
  known := forall_mem_nil _
  ok _ _ := nofun
  pending := forall_mem_nil _
  handing _ _ _ := nofun
  closed := iff_of_false not_mem_nil nofun
  justified := trivial

theorem CallsKept.note (kept : CallsKept s) {event : MuxEvent} (about : event.call? = none) (open_ : event ≠ .closed)
    (right : CallRight s.log event) : CallsKept (s.note event) where
  bound := kept.bound
  known e member call of := by
    rcases mem_cons.mp member with rfl | earlier
    · cases about.symm.trans of
    · exact kept.known e earlier call of
  ok call c found := (kept.ok call c found).other (by rw [about]; exact nofun)
  pending := kept.pending
  handing := kept.handing
  closed := by
    refine Iff.trans ⟨fun member => ?_, mem_cons_of_mem _⟩ kept.closed
    exact (mem_cons.mp member).resolve_left (Ne.symm open_)
  justified := ⟨right, kept.justified⟩

theorem CallsKept.edit (kept : CallsKept s) {b : KernelCall} (found : s.calls call = some c) (sameId : b.id = c.id)
    (calls : s'.calls = Function.update s.calls call (some b)) (issued : s'.issued = s.issued)
    (log : s'.log = s.log ∨ ∃ event, s'.log = event :: s.log ∧ event.call? = some call ∧ CallRight s.log event)
    (closed : s'.closed = s.closed) (ok : CallOk s'.log call b)
    (pending : ∀ entry ∈ s'.pending.rows, (entry ∈ s.pending.rows ∧ entry.call ≠ call) ∨
      (entry.call = call ∧ entry.id = c.id ∧ b.phase ≠ .begun ∧ b.phase ≠ .finished ∧ b.slot = none))
    (handing : ∀ n other fields, s'.phase = .handing n other fields → s.phase = .handing n other fields ∧
      (other = call → b.phase ≠ .begun ∧ b.slot = none ∧ ∀ entry ∈ s'.pending.rows, entry.call ≠ call)) :
    CallsKept s' := by
  have here : s'.calls call = some b := by rw [calls, Function.update_self]
  have there : ∀ other, other ≠ call → s'.calls other = s.calls other := by
    intro other distinct
    rw [calls, Function.update_of_ne distinct]
  have some_call : ∀ other d, s.calls other = some d → ∃ d', s'.calls other = some d' := by
    intro other d found'
    by_cases same : other = call
    · exact ⟨b, same ▸ here⟩
    · exact ⟨d, (there other same).trans found'⟩
  refine ⟨?_, ?_, ?_, ?_, ?_, ?_, ?_⟩
  · intro other d found'
    rw [issued]
    by_cases same : other = call
    · exact same ▸ kept.bound call c found
    · exact kept.bound other d ((there other same).symm.trans found')
  · intro event member other of
    rcases log with same | ⟨new, same, about, -⟩
    · obtain ⟨d, found'⟩ := kept.known event (same ▸ member) other of
      exact some_call other d found'
    rw [same] at member
    rcases mem_cons.mp member with rfl | earlier
    · obtain rfl := Option.some.inj (about.symm.trans of)
      exact ⟨b, here⟩
    · obtain ⟨d, found'⟩ := kept.known event earlier other of
      exact some_call other d found'
  · intro other d found'
    by_cases same : other = call
    · subst same
      rw [here] at found'
      exact Option.some.inj found' ▸ ok
    · rw [there other same] at found'
      rcases log with sameLog | ⟨new, sameLog, about, -⟩
      · exact sameLog ▸ kept.ok other d found'
      · rw [sameLog]
        exact (kept.ok other d found').other (by rw [about]; exact fun eq => same (Option.some.inj eq).symm)
  · intro entry member
    rcases pending entry member with ⟨old, distinct⟩ | ⟨same, id, waits⟩
    · obtain ⟨d, found', rest⟩ := kept.pending entry old
      exact ⟨d, (there _ distinct).trans found', rest⟩
    · exact ⟨b, same ▸ here, sameId.trans id.symm, waits⟩
  · intro n other fields phase
    obtain ⟨before, if_same⟩ := handing n other fields phase
    obtain ⟨⟨d, found', rest⟩, absent⟩ := kept.handing n other fields before
    by_cases same : other = call
    · obtain ⟨begun, empty, gone⟩ := if_same same
      exact ⟨⟨b, same ▸ here, begun, empty⟩, same ▸ gone⟩
    refine ⟨⟨d, (there other same).trans found', rest⟩, fun entry member => ?_⟩
    rcases pending entry member with ⟨old, -⟩ | ⟨here', -⟩
    · exact absent entry old
    · exact here' ▸ Ne.symm same
  · rw [closed]
    refine Iff.trans ?_ kept.closed
    rcases log with same | ⟨new, same, about, -⟩
    · rw [same]
    rw [same]
    refine ⟨fun member => (mem_cons.mp member).resolve_left ?_, mem_cons_of_mem _⟩
    rintro rfl
    cases about
  · rcases log with same | ⟨new, same, -, right⟩
    · exact same ▸ kept.justified
    · exact same ▸ ⟨right, kept.justified⟩

theorem CallsKept.rephase (kept : CallsKept s) (phase : CallPhase) (found : s.calls call = some c)
    (started : c.phase ≠ .begun) (going : c.phase ≠ .finished) (starts : phase ≠ .begun) (goes : phase ≠ .finished)
    (leaving : ∀ result, phase = .leaving (some result) → result ≠ .error .notSent ∧
      (IsAnswer result → ∃ n fields, .took n call fields ∈ s.log ∧ result = interpretKernelResponse fields))
    (calls : s'.calls = Function.update s.calls call (some { c with phase := phase }))
    (same : s'.issued = s.issued ∧ s'.log = s.log ∧ s'.closed = s.closed ∧ s'.pending = s.pending ∧
      s'.phase = s.phase) : CallsKept s' := by
  obtain ⟨issued, log, closed, pending, muxPhase⟩ := same
  have ok := kept.ok call c found
  refine kept.edit (b := { c with phase := phase }) found rfl calls issued (.inl log) closed ?_ ?_ ?_
  · rw [log]
    exact ⟨ok.begun, fun begun => absurd begun starts, fun _ _ => ok.sent started going, fun _ => ok.going going,
      ok.taken, ok.empty, leaving⟩
  · intro entry member
    rw [pending] at member
    by_cases about : entry.call = call
    · obtain ⟨d, found', id, -, -, empty⟩ := kept.pending entry member
      rw [about] at found'
      obtain rfl := Option.some.inj (found.symm.trans found')
      exact .inr ⟨about, id.symm, starts, goes, empty⟩
    · exact .inl ⟨member, about⟩
  · intro n other fields handed
    rw [muxPhase] at handed
    refine ⟨handed, fun about => ?_⟩
    obtain ⟨⟨d, found', -, empty⟩, absent⟩ := kept.handing n other fields handed
    rw [about] at found' absent
    obtain rfl := Option.some.inj (found.symm.trans found')
    exact ⟨starts, empty, pending ▸ absent⟩

variable {id : String} {line : List UInt8} {slot : Option Fields}

section
variable (kept : CallsKept s)
include kept

theorem CallsKept.takeEntry (n : Nat) (fields : Fields) {entry : PendingEntry}
    (found : s.pending.find id = some entry) :
    CallsKept { s with
      pending := s.pending.deleteWhere fun other => other.id == id
      phase := .handing n entry.call fields } where
  bound := kept.bound
  known := kept.known
  ok := kept.ok
  pending other member := kept.pending other (Table.mem_deleteWhere.mp member).1
  handing m other g phase := by
    obtain ⟨listed, rfl⟩ := Table.find_eq_some.mp found
    obtain ⟨-, rfl, -⟩ := MuxPhase.handing.inj phase
    obtain ⟨c, call, id, begun, -, empty⟩ := kept.pending entry listed
    refine ⟨⟨c, call, begun, empty⟩, fun other member same => ?_⟩
    obtain ⟨old, kept_⟩ := Table.mem_deleteWhere.mp member
    obtain ⟨d, call', id', -⟩ := kept.pending other old
    rw [same] at call'
    obtain rfl := Option.some.inj (call.symm.trans call')
    rw [← id', id] at kept_
    simp at kept_
  closed := kept.closed
  justified := kept.justified

theorem CallsKept.routeResponse (n : Nat) (fields : Fields) :
    CallsKept (s.routeResponse n fields) := by
  unfold Mux.routeResponse
  have stray : CallsKept (s.countStray n) :=
    CallsKept.note (s := { s with strayResponses := (s.strayResponses + 1) % 2 ^ 64 }) { kept with } rfl nofun trivial
  split
  · exact stray
  split
  · exact stray
  · rename_i found
    exact kept.takeEntry n _ found

theorem CallsKept.close : CallsKept s.close where
  bound := kept.bound
  known e member call of := by
    rcases mem_cons.mp member with rfl | earlier
    · cases of
    · exact kept.known e earlier call of
  ok call c found := (kept.ok call c found).other nofun
  pending := forall_mem_nil _
  handing n call fields phase := ⟨(kept.handing n call fields phase).1, forall_mem_nil _⟩
  closed := iff_of_true mem_cons_self rfl
  justified := ⟨trivial, kept.justified⟩

theorem CallsKept.issue (id : String) (line : List UInt8) :
    CallsKept (Mux.note (.begun s.issued id) { s with
      nextId := (s.nextId + 1) % 2 ^ 64
      calls := Function.update s.calls s.issued (some ⟨id, line, .begun, none⟩)
      issued := s.issued + 1 }) := by
  have free : s.calls s.issued = none := by
    cases found : s.calls s.issued with
    | none => rfl
    | some c => exact absurd (kept.bound _ c found) (Nat.lt_irrefl _)
  have silent : ∀ event ∈ s.log, event.call? ≠ some s.issued := by
    intro event member of
    obtain ⟨c, found⟩ := kept.known event member _ of
    cases free.symm.trans found
  have old : ∀ call c, s.calls call = some c →
      Function.update s.calls s.issued (some ⟨id, line, .begun, none⟩) call = some c := by
    intro call c found
    rw [Function.update_of_ne (Nat.ne_of_lt (kept.bound call c found)), found]
  refine ⟨?_, ?_, ?_, ?_, ?_, ?_, ?_⟩
  · intro call c found
    by_cases new : call = s.issued
    · exact new ▸ Nat.lt_succ_self _
    · exact Nat.lt_succ_of_lt (kept.bound call c ((Function.update_of_ne new _ _).symm.trans found))
  · intro event member call of
    rcases mem_cons.mp member with rfl | earlier
    · obtain rfl := Option.some.inj of
      exact ⟨_, Function.update_self ..⟩
    · obtain ⟨c, found⟩ := kept.known event earlier call of
      exact ⟨c, old call c found⟩
  · intro call c found
    by_cases new : call = s.issued
    · subst new
      obtain rfl := Option.some.inj ((Function.update_self s.issued _ s.calls).symm.trans found)
      have absent : ∀ event : MuxEvent, event.call? = some s.issued → event ≠ .begun s.issued id →
          event ∉ .begun s.issued id :: s.log := by
        intro event of distinct member
        exact silent event ((mem_cons.mp member).resolve_left distinct) of
      exact ⟨mem_cons_self, fun _ => ⟨absent _ rfl nofun, rfl⟩, fun begun => absurd rfl begun,
        fun _ => ⟨fun _ => absent _ rfl nofun, absent _ rfl nofun⟩, nofun, fun _ _ _ => absent _ rfl nofun, nofun⟩
    · have before : s.calls call = some c := (Function.update_of_ne new _ _).symm.trans found
      exact (kept.ok call c before).other fun same => new (Option.some.inj same).symm
  · intro entry member
    obtain ⟨c, found, rest⟩ := kept.pending entry member
    exact ⟨c, old _ c found, rest⟩
  · intro n call fields phase
    obtain ⟨⟨c, found, rest⟩, absent⟩ := kept.handing n call fields phase
    exact ⟨⟨c, old _ c found, rest⟩, absent⟩
  · refine Iff.trans ⟨fun member => (mem_cons.mp member).resolve_left nofun, mem_cons_of_mem _⟩ kept.closed
  · exact ⟨fun other member => silent _ member rfl, kept.justified⟩

theorem CallsKept.refuse (found : s.calls call = some ⟨id, line, .begun, slot⟩) :
    CallsKept (Mux.note (.returned call (.error .notSent)) (s.setCall call ⟨id, line, .finished, slot⟩)) := by
  have ok := kept.ok call _ found
  have unsent : .queued call ∉ s.log := (ok.fresh rfl).1
  obtain ⟨unreturned, undropped⟩ := ok.going nofun
  have others : ∀ entry ∈ s.pending.rows, entry.call ≠ call := by
    intro entry member same
    obtain ⟨d, found', -, begun, -⟩ := kept.pending entry member
    rw [same, found] at found'
    exact begun (Option.some.inj found' ▸ rfl)
  refine kept.edit (b := ⟨id, line, .finished, slot⟩) found rfl rfl rfl (.inr ⟨_, rfl, rfl, unreturned, undropped,
    iff_of_true rfl unsent, fun answer => absurd rfl answer.1⟩) rfl ?_ (fun entry member => .inl ⟨member, others entry member⟩) ?_
  · refine ⟨mem_cons_of_mem _ ok.begun, nofun, fun _ finished => absurd rfl finished, fun finished => absurd rfl finished,
      fun fields full => ?_, fun empty n fields member => ?_, nofun⟩
    · obtain ⟨n, took⟩ := ok.taken fields full
      exact ⟨n, mem_cons_of_mem _ took⟩
    · exact ok.empty empty n fields ((mem_cons.mp member).resolve_left nofun)
  · intro n other fields phase
    refine ⟨phase, fun same => ?_⟩
    obtain ⟨⟨d, found', begun, -⟩, -⟩ := kept.handing n other fields phase
    rw [same, found] at found'
    exact absurd (Option.some.inj found' ▸ rfl) begun

theorem CallsKept.queue (found : s.calls call = some ⟨id, line, .begun, slot⟩) (running : s.closed = false)
    (calls : s'.calls = Function.update s.calls call (some ⟨id, line, .waiting, slot⟩))
    (log : s'.log = .queued call :: s.log) (pending : s'.pending = s.pending.put ⟨id, call⟩)
    (same : s'.issued = s.issued ∧ s'.closed = s.closed ∧ s'.phase = s.phase) :
    CallsKept s' := by
  obtain ⟨issued, closed, muxPhase⟩ := same
  have ok := kept.ok call _ found
  have unsent : .queued call ∉ s.log := (ok.fresh rfl).1
  obtain ⟨unreturned, undropped⟩ := ok.going nofun
  have unclosed : .closed ∉ s.log := fun member => by
    rw [kept.closed.mp member] at running
    cases running
  refine kept.edit (b := ⟨id, line, .waiting, slot⟩) found rfl calls issued
    (.inr ⟨_, log, rfl, ⟨id, ok.begun⟩, unsent, unclosed, unreturned⟩) closed ?_ ?_ ?_
  · rw [log]
    refine ⟨mem_cons_of_mem _ ok.begun, nofun, fun _ _ => mem_cons_self, fun _ => ⟨fun result member => ?_,
      fun member => ?_⟩, fun fields full => ?_, fun empty n fields member => ?_, nofun⟩
    · exact unreturned result ((mem_cons.mp member).resolve_left nofun)
    · exact undropped ((mem_cons.mp member).resolve_left nofun)
    · obtain ⟨n, took⟩ := ok.taken fields full
      exact ⟨n, mem_cons_of_mem _ took⟩
    · exact ok.empty empty n fields ((mem_cons.mp member).resolve_left nofun)
  · intro entry member
    rw [pending] at member
    rcases Table.mem_put.mp member with rfl | ⟨old, -⟩
    · exact .inr ⟨rfl, rfl, nofun, nofun, (ok.fresh rfl).2⟩
    refine .inl ⟨old, fun same => ?_⟩
    obtain ⟨d, found', -, begun, -⟩ := kept.pending entry old
    rw [same, found] at found'
    exact begun (Option.some.inj found' ▸ rfl)
  · intro n other fields phase
    rw [muxPhase] at phase
    refine ⟨phase, fun same => ?_⟩
    obtain ⟨⟨d, found', begun, -⟩, -⟩ := kept.handing n other fields phase
    rw [same, found] at found'
    exact absurd (Option.some.inj found' ▸ rfl) begun

theorem CallsKept.guard {result : Option CallResult}
    (found : s.calls call = some ⟨id, line, .leaving result, slot⟩) {event : MuxEvent}
    (tells : (∃ told, result = some told ∧ event = .returned call told) ∨ (result = none ∧ event = .dropped call)) :
    CallsKept (Mux.note event { s.setCall call ⟨id, line, .finished, slot⟩ with
      pending := s.pending.deleteWhere fun entry => entry.id == id }) := by
  have ok := kept.ok call _ found
  obtain ⟨unreturned, undropped⟩ := ok.going nofun
  have sent : .queued call ∈ s.log := ok.sent nofun nofun
  have about : event.call? = some call := by
    rcases tells with ⟨told, -, rfl⟩ | ⟨-, rfl⟩ <;> rfl
  have right : CallRight s.log event := by
    rcases tells with ⟨told, rfl, rfl⟩ | ⟨-, rfl⟩
    · obtain ⟨queued, answer⟩ := ok.leaving told rfl
      exact ⟨unreturned, undropped, iff_of_false queued (not_not_intro sent), answer⟩
    · trivial
  have plain : ∀ n fields, event ≠ .took n call fields := by
    intro n fields
    rcases tells with ⟨told, -, rfl⟩ | ⟨-, rfl⟩ <;> exact nofun
  have removed : ∀ entry ∈ (s.pending.deleteWhere fun entry => entry.id == id).rows,
      entry ∈ s.pending.rows ∧ entry.call ≠ call := by
    intro entry member
    obtain ⟨old, kept_⟩ := Table.mem_deleteWhere.mp member
    refine ⟨old, fun same => ?_⟩
    obtain ⟨d, found', same_id, -⟩ := kept.pending entry old
    rw [same, found] at found'
    rw [← same_id, ← Option.some.inj found'] at kept_
    simp at kept_
  refine kept.edit (b := ⟨id, line, .finished, slot⟩) found rfl rfl rfl (.inr ⟨event, rfl, about, right⟩) rfl ?_
    (fun entry member => .inl (removed entry member)) ?_
  · refine ⟨mem_cons_of_mem _ ok.begun, nofun, fun _ finished => absurd rfl finished, fun finished => absurd rfl finished,
      fun fields full => ?_, fun empty n fields member => ?_, nofun⟩
    · obtain ⟨n, took⟩ := ok.taken fields full
      exact ⟨n, mem_cons_of_mem _ took⟩
    · exact ok.empty empty n fields ((mem_cons.mp member).resolve_left (plain n fields).symm)
  · intro n other fields phase
    refine ⟨phase, fun same => ?_⟩
    obtain ⟨⟨d, found', -, empty⟩, -⟩ := kept.handing n other fields phase
    rw [same, found] at found'
    obtain rfl := Option.some.inj found'
    exact ⟨nofun, empty, fun entry member => (removed entry member).2⟩

theorem CallsKept.handOver {n : Nat} {fields : Fields} (phase : s.phase = .handing n call fields)
    (found : s.calls call = some ⟨id, line, .waiting, slot⟩) :
    CallsKept (Mux.note (.took n call fields)
      (Mux.setCall call ⟨id, line, .waiting, some fields⟩ { s with phase := .taking })) := by
  have ok := kept.ok call _ found
  obtain ⟨unreturned, undropped⟩ := ok.going nofun
  have sent : .queued call ∈ s.log := ok.sent nofun nofun
  obtain ⟨⟨d, found', -, empty⟩, absent⟩ := kept.handing n call fields phase
  rw [found] at found'
  obtain rfl := Option.some.inj found'
  refine kept.edit (b := ⟨id, line, .waiting, some fields⟩) found rfl rfl rfl
    (.inr ⟨_, rfl, rfl, sent, unreturned, undropped, ok.empty empty⟩) rfl ?_
    (fun entry member => .inl ⟨member, absent entry member⟩) nofun
  refine ⟨mem_cons_of_mem _ ok.begun, nofun, fun _ _ => mem_cons_of_mem _ sent,
    fun _ => ⟨fun result member => ?_, fun member => ?_⟩, fun other full => ?_, nofun, nofun⟩
  · exact unreturned result ((mem_cons.mp member).resolve_left nofun)
  · exact undropped ((mem_cons.mp member).resolve_left nofun)
  · obtain rfl := Option.some.inj full
    exact ⟨n, mem_cons_self⟩

end

theorem interpretKernelResponse_sent (fields : Fields) : interpretKernelResponse fields ≠ .error .notSent := by
  unfold interpretKernelResponse
  dsimp only
  split
  · exact nofun
  · exact nofun
  · split <;> exact nofun
  · exact nofun

section
variable (kept : CallsKept s)
include kept

section
variable (R : JsonReader)

theorem CallsKept.route : CallsKept (muxStep R s .route) := by
  simp only [muxStep]
  split
  · split
    · exact CallsKept.routeResponse (s := { s with routed := s.routed + 1 }) { kept with } _ _
    · exact CallsKept.note (s := { s with routed := s.routed + 1, phase := .piping _ })
        { kept with handing := fun _ _ _ => nofun } rfl nofun trivial
  · exact kept

theorem CallsKept.hand : CallsKept (muxStep R s .hand) := by
  simp only [muxStep]
  split
  · rename_i n call fields phase
    split
    · rename_i found
      exact kept.handOver phase found
    · exact CallsKept.note (s := { s with phase := .taking }) { kept with handing := fun _ _ _ => nofun } rfl nofun
        trivial
  · exact kept

theorem CallsKept.wake (call : Nat) : CallsKept (muxStep R s (.wake call)) := by
  simp only [muxStep]
  split
  · rename_i id line fields found
    obtain ⟨n, took⟩ := (kept.ok call _ found).taken fields rfl
    refine kept.rephase (.leaving (some (interpretKernelResponse fields))) found nofun nofun nofun nofun (fun result same => ?_) rfl ⟨rfl, rfl, rfl, rfl, rfl⟩
    obtain rfl := Option.some.inj (CallPhase.leaving.inj same)
    exact ⟨interpretKernelResponse_sent fields, fun _ => ⟨n, fields, took, rfl⟩⟩
  · rename_i id line found
    split
    · refine kept.rephase (.leaving (some (.error .connectionLost))) found nofun nofun nofun nofun (fun result same => ?_) rfl ⟨rfl, rfl, rfl, rfl, rfl⟩
      obtain rfl := Option.some.inj (CallPhase.leaving.inj same)
      exact ⟨nofun, fun answer => absurd rfl answer.2.1⟩
    · exact kept
  · exact kept

theorem CallsKept.cancel (call : Nat) (permit : Bool) :
    CallsKept (muxStep R s (.cancel call permit)) := by
  simp only [muxStep]
  split
  · rename_i id line slot found
    have leaving : ∀ result, CallPhase.leaving (some (.error .timeout)) = .leaving (some result) →
        result ≠ .error .notSent ∧ (IsAnswer result → ∃ n fields, .took n call fields ∈ s.log ∧
          result = interpretKernelResponse fields) := by
      intro result same
      obtain rfl := Option.some.inj (CallPhase.leaving.inj same)
      exact ⟨nofun, fun answer => absurd rfl answer.2.2⟩
    split
    · exact kept.rephase (.leaving (some (.error .timeout))) found nofun nofun nofun nofun leaving rfl ⟨rfl, rfl, rfl, rfl, rfl⟩
    split
    · exact kept.rephase (.leaving (some (.error .timeout))) found nofun nofun nofun nofun leaving rfl ⟨rfl, rfl, rfl, rfl, rfl⟩
    · exact kept.rephase (.leaving (some (.error .timeout))) found nofun nofun nofun nofun leaving rfl ⟨rfl, rfl, rfl, rfl, rfl⟩
  · exact kept

theorem CallsKept.enqueue (call : Nat) (permit : Bool) :
    CallsKept (muxStep R s (.enqueue call permit)) := by
  simp only [muxStep]
  split
  · rename_i id line slot found
    split
    · exact kept.refuse found
    rename_i running
    split
    · exact kept.queue found (eq_false_of_ne_true running) rfl rfl rfl ⟨rfl, rfl, rfl⟩
    · exact kept.refuse found
  · exact kept

theorem CallsKept.step (move : MuxMove) : CallsKept (muxStep R s move) := by
  cases move with
  | call => exact kept.issue _ _
  | enqueue call permit => exact kept.enqueue R call permit
  | wake call => exact kept.wake R call
  | elapse call =>
    simp only [muxStep]
    split
    · rename_i found
      exact kept.rephase .elapsed found nofun nofun nofun nofun nofun rfl ⟨rfl, rfl, rfl, rfl, rfl⟩
    · exact kept
  | cancel call permit => exact kept.cancel R call permit
  | drop call =>
    simp only [muxStep]
    split
    · rename_i found
      exact kept.rephase (.leaving none) found nofun nofun nofun nofun nofun rfl ⟨rfl, rfl, rfl, rfl, rfl⟩
    · exact kept
  | dropGuard call =>
    simp only [muxStep]
    split
    · rename_i id line result slot found
      cases result with
      | some told => exact kept.guard found (.inl ⟨told, rfl, rfl⟩)
      | none => exact kept.guard found (.inr ⟨rfl, rfl⟩)
    · exact kept
  | close => exact kept.close
  | enqueueRaw bytes permit =>
    simp only [muxStep]
    split
    · exact { kept with }
    · exact kept
  | arrive frame => exact { kept with }
  | route => exact kept.route R
  | hand => exact kept.hand R
  | pipe count =>
    simp only [muxStep]
    split
    · exact { kept with handing := fun n call fields same => by split at same <;> cases same }
    · exact kept
  | endLoop =>
    simp only [muxStep]
    split
    · exact kept
    · exact { kept with handing := fun _ _ _ => nofun }
  | suWrite bytes =>
    simp only [muxStep]
    split
    · exact { kept with }
    · exact kept
  | suEnd => exact { kept with }
  | relayRead count =>
    simp only [muxStep]
    split
    · split
      · exact { kept with }
      split
      · split
        · exact { kept with }
        · exact kept
      · split
        all_goals exact { kept with }
    · exact kept
  | relaySend =>
    simp only [muxStep]
    split
    · split
      · exact { kept with }
      split
      · exact kept
      · exact { kept with }
    · exact kept
  | takeLine =>
    simp only [muxStep]
    split
    · split
      · exact { kept with }
      · exact kept
    · exact kept
  | write count =>
    simp only [muxStep]
    split
    · exact { kept with }
    · exact kept
  | stopWriter => exact { kept with }

end

end

end Calls

def FrameRight (earlier : List MuxEvent) (event : MuxEvent) : Prop :=
  ∀ n, event.frame? = some n → ∀ other ∈ earlier, other.frame? ≠ some n

def MuxEvent.isStray : MuxEvent → Bool
  | .stray _ => true
  | _ => false

section Routes
variable (R : JsonReader)

def Frame.forwardable (frame : Frame) : Bool := (responseFields R frame.bytes).isNone

def pipeOf (frames : List Frame) : List UInt8 :=
  (frames.filter fun frame => frame.forwardable R).flatMap fun frame => frame.bytes ++ [Json.newline]

/-- Frame `n` is a response with the id of the call, and with these members besides. -/
def Answers (s : Mux) (n call : Nat) (fields : Fields) : Prop :=
  ∃ frame members id, s.arrived[n]? = some frame ∧ responseFields R frame.bytes = some members ∧
    responseId members = some id ∧ fields = removeField "id" members ∧ .begun call id ∈ s.log

def MuxPhase.Left (left_ : List UInt8) : MuxPhase → Prop
  | .piping rest => left_ = rest
  | .ended => True
  | _ => left_ = []

structure RouteKept (s : Mux) : Prop where
  routed : s.routed ≤ s.arrived.length
  settled : ∀ n, (∃ event ∈ s.log, event.frame? = some n) ↔
    n < s.routed ∧ ∀ call fields, s.phase ≠ .handing n call fields
  handing : ∀ n call fields, s.phase = .handing n call fields → n < s.routed ∧ Answers R s n call fields
  kinds : ∀ event ∈ s.log, ∀ n, event.frame? = some n →
    ∃ frame, s.arrived[n]? = some frame ∧ (event = .forwarded n ↔ frame.forwardable R = true)
  took : ∀ n call fields, .took n call fields ∈ s.log → Answers R s n call fields
  piped : ∃ left_, s.piped ++ left_ = pipeOf R (s.arrived.take s.routed) ∧ s.phase.Left left_
  stray : s.strayResponses = s.log.countP MuxEvent.isStray % 2 ^ 64
  justified : Justified FrameRight s.log

variable {R} {s s' : Mux}

theorem RouteKept.start : RouteKept R .start where
  routed := Nat.le_refl _
  settled n := iff_of_false (by rintro ⟨event, member, -⟩; cases member) (fun small => Nat.not_lt_zero _ small.1)
  handing _ _ _ := nofun
  kinds := forall_mem_nil _
  took _ _ _ := nofun
  piped := ⟨[], rfl, rfl⟩
  stray := rfl
  justified := trivial

theorem Answers.mono {n call : Nat} {fields : Fields} (answers : Answers R s n call fields)
    (arrived : ∀ frame, s.arrived[n]? = some frame → s'.arrived[n]? = some frame) (log : s.log ⊆ s'.log) :
    Answers R s' n call fields := by
  obtain ⟨frame, members, id, found, rest⟩ := answers
  exact ⟨frame, members, id, arrived frame found, rest.1, rest.2.1, rest.2.2.1, log rest.2.2.2⟩

theorem RouteKept.keep (kept : RouteKept R s) (same : s'.routed = s.routed ∧ s'.arrived = s.arrived ∧ s'.phase = s.phase ∧
      s'.piped = s.piped ∧ s'.strayResponses = s.strayResponses)
    (log : s'.log = s.log ∨ ∃ event, s'.log = event :: s.log ∧ event.frame? = none) : RouteKept R s' := by
  obtain ⟨routed, arrived, phase, piped, stray⟩ := same
  have grows : s.log ⊆ s'.log := by
    rcases log with same | ⟨event, same, -⟩
    · exact same ▸ List.Subset.refl _
    · exact same ▸ subset_cons_self _ _
  have framed : ∀ event ∈ s'.log, ∀ n, event.frame? = some n → event ∈ s.log := by
    intro event member n of
    rcases log with same | ⟨new, same, none⟩
    · exact same ▸ member
    refine (mem_cons.mp (same ▸ member)).resolve_left ?_
    rintro rfl
    cases none.symm.trans of
  have answers : ∀ {n call fields}, Answers R s n call fields → Answers R s' n call fields :=
    fun old => old.mono (fun frame found => arrived ▸ found) grows
  refine ⟨?_, ?_, ?_, ?_, ?_, ?_, ?_, ?_⟩
  · rw [routed, arrived]
    exact kept.routed
  · intro n
    rw [routed, phase, ← kept.settled n]
    exact ⟨fun ⟨event, member, of⟩ => ⟨event, framed event member n of, of⟩,
      fun ⟨event, member, of⟩ => ⟨event, grows member, of⟩⟩
  · intro n call fields hand
    rw [phase] at hand
    obtain ⟨small, old⟩ := kept.handing n call fields hand
    exact ⟨routed ▸ small, answers old⟩
  · intro event member n of
    rw [arrived]
    exact kept.kinds event (framed event member n of) n of
  · exact fun n call fields member => answers (kept.took n call fields (framed _ member n rfl))
  · rw [piped, arrived, routed, phase]
    exact kept.piped
  · rw [stray, kept.stray]
    rcases log with same | ⟨new, same, none⟩
    · rw [same]
    have plain : new.isStray = false := by
      cases new <;> first | rfl | cases none
    rw [same, countP_cons_of_neg (by simp [plain])]
  · rcases log with same | ⟨new, same, none⟩
    · exact same ▸ kept.justified
    · rw [same]
      exact ⟨fun n of => absurd (none.symm.trans of) nofun, kept.justified⟩

theorem pipeOf_append_singleton (frames : List Frame) (frame : Frame) :
    pipeOf R (frames ++ [frame]) =
      pipeOf R frames ++ if frame.forwardable R = true then frame.bytes ++ [Json.newline] else [] := by
  unfold pipeOf
  rw [filter_append, flatMap_append]
  by_cases forward : frame.forwardable R = true
  · simp [forward]
  · simp [forward]

section
variable (kept : RouteKept R s)
include kept

theorem RouteKept.arrive (frame : Frame) :
    RouteKept R { s with arrived := s.arrived ++ [frame] } := by
  have stays : ∀ {n : Nat} {f : Frame}, s.arrived[n]? = some f → (s.arrived ++ [frame])[n]? = some f := by
    intro n f found
    rw [List.getElem?_append_left (List.getElem?_eq_some_iff.mp found).1, found]
  have answers : ∀ {n call fields}, Answers R s n call fields →
      Answers R { s with arrived := s.arrived ++ [frame] } n call fields :=
    fun old => old.mono (fun f found => stays found) (List.Subset.refl _)
  refine ⟨?_, kept.settled, ?_, ?_, ?_, ?_, kept.stray, kept.justified⟩
  · exact Nat.le_trans kept.routed (by simp)
  · intro n call fields hand
    exact ⟨(kept.handing n call fields hand).1, answers (kept.handing n call fields hand).2⟩
  · intro event member n of
    obtain ⟨f, found, kind⟩ := kept.kinds event member n of
    exact ⟨f, stays found, kind⟩
  · exact fun n call fields member => answers (kept.took n call fields member)
  · obtain ⟨left_, whole, phase⟩ := kept.piped
    exact ⟨left_, by rw [take_append_of_le_length kept.routed, whole], phase⟩

theorem RouteKept.settle (taking : s.phase = .taking) {frame : Frame} {event : MuxEvent}
    (found : s.arrived[s.routed]? = some frame) (of : event.frame? = some s.routed)
    (kind : (event = .stray s.routed ∧ frame.forwardable R = false ∧ s'.phase = .taking ∧ s'.strayResponses = (s.strayResponses + 1) % 2 ^ 64) ∨ (event = .forwarded s.routed ∧ frame.forwardable R = true ∧ s'.phase = .piping (frame.bytes ++ [Json.newline]) ∧ s'.strayResponses = s.strayResponses))
    (same : s'.routed = s.routed + 1 ∧ s'.arrived = s.arrived ∧ s'.piped = s.piped ∧ s'.log = event :: s.log) :
    RouteKept R s' := by
  obtain ⟨routed, arrived, piped, log⟩ := same
  have handless : ∀ n call fields, s'.phase ≠ .handing n call fields := by
    rcases kind with ⟨-, -, phase, -⟩ | ⟨-, -, phase, -⟩
    · rw [phase]
      exact nofun
    · rw [phase]
      exact nofun
  have grows : s.log ⊆ s'.log := log ▸ subset_cons_self _ _
  have unsettled : ∀ other ∈ s.log, other.frame? ≠ some s.routed := by
    intro other member of
    exact Nat.lt_irrefl _ ((kept.settled s.routed).mp ⟨other, member, of⟩).1
  refine ⟨?_, ?_, fun n call fields hand => absurd hand (handless n call fields), ?_, ?_, ?_, ?_, ?_⟩
  · rw [routed, arrived]
    exact (List.getElem?_eq_some_iff.mp found).1
  · intro n
    rw [routed, log]
    constructor
    · rintro ⟨other, member, about⟩
      rcases mem_cons.mp member with rfl | earlier
      · obtain rfl := Option.some.inj (of.symm.trans about)
        exact ⟨Nat.lt_succ_self _, handless _⟩
      · exact ⟨Nat.lt_succ_of_lt ((kept.settled n).mp ⟨other, earlier, about⟩).1, handless n⟩
    · rintro ⟨small, -⟩
      rcases Nat.lt_succ_iff_lt_or_eq.mp small with before | rfl
      · obtain ⟨other, member, about⟩ := (kept.settled n).mpr ⟨before, by rw [taking]; exact nofun⟩
        exact ⟨other, mem_cons_of_mem _ member, about⟩
      · exact ⟨event, mem_cons_self, of⟩
  · intro other member n about
    rw [arrived]
    rcases mem_cons.mp (log ▸ member) with rfl | earlier
    · obtain rfl := Option.some.inj (of.symm.trans about)
      refine ⟨frame, found, ?_⟩
      rcases kind with ⟨rfl, forward, -⟩ | ⟨rfl, forward, -⟩
      · exact iff_of_false nofun (by rw [forward]; exact nofun)
      · exact iff_of_true rfl forward
    · exact kept.kinds other earlier n about
  · intro n call fields member
    refine Answers.mono (kept.took n call fields ((mem_cons.mp (log ▸ member)).resolve_left ?_))
      (fun f old => arrived ▸ old) grows
    rcases kind with ⟨rfl, -⟩ | ⟨rfl, -⟩ <;> exact nofun
  · obtain ⟨left_, whole, phase⟩ := kept.piped
    rw [taking] at phase
    obtain rfl : left_ = [] := phase
    rw [piped, arrived, routed, take_add_one, found, Option.toList_some, pipeOf_append_singleton]
    rw [append_nil] at whole
    rcases kind with ⟨-, forward, phase, -⟩ | ⟨-, forward, phase, -⟩
    · exact ⟨[], by rw [whole, forward]; simp, by rw [phase]; rfl⟩
    · exact ⟨frame.bytes ++ [Json.newline], by rw [whole, if_pos forward], by rw [phase]; rfl⟩
  · rw [log]
    rcases kind with ⟨rfl, -, -, stray⟩ | ⟨rfl, -, -, stray⟩
    · rw [stray, countP_cons_of_pos rfl, kept.stray, Nat.mod_add_mod]
    · rw [stray, countP_cons_of_neg Bool.false_ne_true, kept.stray]
  · rw [log]
    refine ⟨fun n about other member => ?_, kept.justified⟩
    obtain rfl := Option.some.inj (of.symm.trans about)
    exact unsettled other member

theorem RouteKept.grasp (taking : s.phase = .taking) {frame : Frame} {members : Fields} {id : String}
    {call : Nat} (found : s.arrived[s.routed]? = some frame)
    (response : responseFields R frame.bytes = some members) (carries : responseId members = some id)
    (begun : .begun call id ∈ s.log)
    (same : s'.routed = s.routed + 1 ∧ s'.arrived = s.arrived ∧ s'.piped = s.piped ∧ s'.log = s.log ∧ s'.strayResponses = s.strayResponses ∧ s'.phase = .handing s.routed call (removeField "id" members)) :
    RouteKept R s' := by
  obtain ⟨routed, arrived, piped, log, stray, phase⟩ := same
  have grows : s.log ⊆ s'.log := log ▸ List.Subset.refl _
  refine ⟨?_, ?_, ?_, ?_, ?_, ?_, ?_, ?_⟩
  · rw [routed, arrived]
    exact (List.getElem?_eq_some_iff.mp found).1
  · intro n
    rw [routed, log, phase, kept.settled n, taking]
    constructor
    · rintro ⟨small, -⟩
      refine ⟨Nat.lt_succ_of_lt small, fun other fields hand => ?_⟩
      obtain ⟨rfl, -⟩ := MuxPhase.handing.inj hand
      exact Nat.lt_irrefl _ small
    · rintro ⟨small, other⟩
      refine ⟨(Nat.lt_succ_iff_lt_or_eq.mp small).resolve_right fun last => ?_, fun _ _ => nofun⟩
      exact other call (removeField "id" members) (by rw [last])
  · intro n other fields hand
    rw [phase] at hand
    obtain ⟨rfl, rfl, rfl⟩ := MuxPhase.handing.inj hand
    exact ⟨routed ▸ Nat.lt_succ_self _, frame, members, id, arrived ▸ found, response, carries, rfl, grows begun⟩
  · intro event member n of
    rw [arrived]
    exact kept.kinds event (log ▸ member) n of
  · exact fun n other fields member =>
      (kept.took n other fields (log ▸ member)).mono (fun f old => arrived ▸ old) grows
  · obtain ⟨left_, whole, before⟩ := kept.piped
    rw [taking] at before
    obtain rfl : left_ = [] := before
    have back : frame.forwardable R = false := by simp [Frame.forwardable, response]
    rw [piped, arrived, routed, phase, take_add_one, found, Option.toList_some, pipeOf_append_singleton]
    exact ⟨[], by rw [whole, back]; simp, rfl⟩
  · rw [stray, log]
    exact kept.stray
  · rw [log]
    exact kept.justified

theorem RouteKept.route (calls : CallsKept s) : RouteKept R (muxStep R s .route) := by
  simp only [muxStep]
  split
  · rename_i frame taking found
    split
    · rename_i members response
      have back : frame.forwardable R = false := by simp [Frame.forwardable, response]
      have stray : RouteKept R (Mux.countStray s.routed { s with routed := s.routed + 1 }) :=
        kept.settle taking found rfl (.inl ⟨rfl, back, taking, rfl⟩) ⟨rfl, rfl, rfl, rfl⟩
      unfold Mux.routeResponse
      split
      · exact stray
      rename_i id carries
      split
      · exact stray
      rename_i entry pending
      obtain ⟨listed, rfl⟩ := Table.find_eq_some.mp pending
      obtain ⟨c, call, sameId, -⟩ := calls.pending entry listed
      exact kept.grasp taking found response carries (sameId ▸ (calls.ok _ c call).begun) ⟨rfl, rfl, rfl, rfl, rfl, rfl⟩
    · rename_i plain
      exact kept.settle taking found rfl (.inr ⟨rfl, by simp [Frame.forwardable, plain], rfl, rfl⟩) ⟨rfl, rfl, rfl, rfl⟩
  · exact kept

theorem RouteKept.release {n call : Nat} {fields : Fields} (phase : s.phase = .handing n call fields)
    {event : MuxEvent} (kind : event = .took n call fields ∨ event = .missed n call)
    (same : s'.routed = s.routed ∧ s'.arrived = s.arrived ∧ s'.piped = s.piped ∧ s'.log = event :: s.log ∧ s'.strayResponses = s.strayResponses ∧ s'.phase = .taking) : RouteKept R s' := by
  obtain ⟨routed, arrived, piped, log, stray, taking⟩ := same
  obtain ⟨small, answers⟩ := kept.handing n call fields phase
  have of : event.frame? = some n := by rcases kind with rfl | rfl <;> rfl
  have grows : s.log ⊆ s'.log := log ▸ subset_cons_self _ _
  have unsettled : ∀ other ∈ s.log, other.frame? ≠ some n := by
    intro other member about
    exact ((kept.settled n).mp ⟨other, member, about⟩).2 call fields phase
  have moved : ∀ {m d f}, Answers R s m d f → Answers R s' m d f := fun old => old.mono (fun f found => arrived ▸ found) grows
  refine ⟨?_, ?_, ?_, ?_, ?_, ?_, ?_, ?_⟩
  · rw [routed, arrived]
    exact kept.routed
  · intro m
    rw [routed, log, taking]
    constructor
    · rintro ⟨other, member, about⟩
      rcases mem_cons.mp member with rfl | earlier
      · obtain rfl := Option.some.inj (of.symm.trans about)
        exact ⟨small, fun _ _ => nofun⟩
      · exact ⟨((kept.settled m).mp ⟨other, earlier, about⟩).1, fun _ _ => nofun⟩
    · rintro ⟨below, -⟩
      by_cases here : m = n
      · exact ⟨event, mem_cons_self, here ▸ of⟩
      obtain ⟨other, member, about⟩ := (kept.settled m).mpr ⟨below, fun d f hand => by
        rw [phase] at hand
        exact here (MuxPhase.handing.inj hand).1.symm⟩
      exact ⟨other, mem_cons_of_mem _ member, about⟩
  · intro m d f hand
    rw [taking] at hand
    cases hand
  · intro other member m about
    rw [arrived]
    rcases mem_cons.mp (log ▸ member) with rfl | earlier
    · obtain rfl := Option.some.inj (of.symm.trans about)
      obtain ⟨frame, members, id, found, response, -⟩ := answers
      refine ⟨frame, found, iff_of_false ?_ (by simp [Frame.forwardable, response])⟩
      rcases kind with rfl | rfl <;> exact nofun
    · exact kept.kinds other earlier m about
  · intro m d f member
    rcases mem_cons.mp (log ▸ member) with same | earlier
    · rcases kind with rfl | rfl
      · obtain ⟨rfl, rfl, rfl⟩ := MuxEvent.took.inj same
        exact moved answers
      · cases same
    · exact moved (kept.took m d f earlier)
  · obtain ⟨left_, whole, before⟩ := kept.piped
    rw [phase] at before
    rw [piped, arrived, routed, taking]
    exact ⟨left_, whole, before⟩
  · have plain : event.isStray = false := by rcases kind with rfl | rfl <;> rfl
    rw [stray, log, countP_cons_of_neg (by simp [plain])]
    exact kept.stray
  · rw [log]
    refine ⟨fun m about other member => ?_, kept.justified⟩
    obtain rfl := Option.some.inj (of.symm.trans about)
    exact unsettled other member

theorem RouteKept.hand : RouteKept R (muxStep R s .hand) := by
  simp only [muxStep]
  split
  · rename_i n call fields phase
    split
    · exact kept.release phase (.inl rfl) ⟨rfl, rfl, rfl, rfl, rfl, rfl⟩
    · exact kept.release phase (.inr rfl) ⟨rfl, rfl, rfl, rfl, rfl, rfl⟩
  · exact kept

theorem RouteKept.pipe (count : Nat) : RouteKept R (muxStep R s (.pipe count)) := by
  simp only [muxStep]
  split
  · rename_i rest phase
    obtain ⟨left_, whole, before⟩ := kept.piped
    rw [phase] at before
    obtain rfl : left_ = rest := before
    have handless : ∀ n call fields,
        (if (left_.drop count).isEmpty then MuxPhase.taking else .piping (left_.drop count)) ≠ .handing n call fields := by
      intro n call fields
      split <;> exact nofun
    refine ⟨kept.routed, fun n => ?_, fun n call fields hand => absurd hand (handless n call fields), kept.kinds,
      kept.took, ⟨left_.drop count, ?_, ?_⟩, kept.stray, kept.justified⟩
    · refine (kept.settled n).trans (and_congr_right fun _ => ?_)
      exact iff_of_true (fun call fields => by rw [phase]; exact nofun) (handless n)
    · show (s.piped ++ left_.take count) ++ left_.drop count = _
      rw [append_assoc, take_append_drop]
      exact whole
    · show MuxPhase.Left _ (if (left_.drop count).isEmpty then MuxPhase.taking else .piping (left_.drop count))
      split
      · rename_i done
        exact isEmpty_iff.mp done
      · rfl
  · exact kept

theorem RouteKept.endLoop : RouteKept R (muxStep R s .endLoop) := by
  simp only [muxStep]
  split
  · exact kept
  rename_i other
  refine ⟨kept.routed, fun n => ?_, fun _ _ _ => nofun, kept.kinds, kept.took, ?_, kept.stray, kept.justified⟩
  · exact (kept.settled n).trans (and_congr_right fun _ =>
      iff_of_true (fun call fields hand => other n call fields hand) fun _ _ => nofun)
  · obtain ⟨left_, whole, -⟩ := kept.piped
    exact ⟨left_, whole, trivial⟩

theorem RouteKept.step (calls : CallsKept s) (move : MuxMove) :
    RouteKept R (muxStep R s move) := by
  have same : ∀ {s' : Mux}, s'.routed = s.routed ∧ s'.arrived = s.arrived ∧ s'.phase = s.phase ∧
      s'.piped = s.piped ∧ s'.strayResponses = s.strayResponses → s'.log = s.log → RouteKept R s' :=
    fun parts log => kept.keep parts (.inl log)
  cases move with
  | call => exact kept.keep ⟨rfl, rfl, rfl, rfl, rfl⟩ (.inr ⟨_, rfl, rfl⟩)
  | enqueue call permit =>
    simp only [muxStep]
    split
    · split
      · exact kept.keep ⟨rfl, rfl, rfl, rfl, rfl⟩ (.inr ⟨_, rfl, rfl⟩)
      split
      · exact kept.keep ⟨rfl, rfl, rfl, rfl, rfl⟩ (.inr ⟨_, rfl, rfl⟩)
      · exact kept.keep ⟨rfl, rfl, rfl, rfl, rfl⟩ (.inr ⟨_, rfl, rfl⟩)
    · exact kept
  | wake call =>
    simp only [muxStep]
    split
    · exact same ⟨rfl, rfl, rfl, rfl, rfl⟩ rfl
    · split
      · exact same ⟨rfl, rfl, rfl, rfl, rfl⟩ rfl
      · exact kept
    · exact kept
  | elapse call =>
    simp only [muxStep]
    split
    · exact same ⟨rfl, rfl, rfl, rfl, rfl⟩ rfl
    · exact kept
  | cancel call permit =>
    simp only [muxStep]
    split
    · split
      · exact same ⟨rfl, rfl, rfl, rfl, rfl⟩ rfl
      split
      · exact same ⟨rfl, rfl, rfl, rfl, rfl⟩ rfl
      · exact same ⟨rfl, rfl, rfl, rfl, rfl⟩ rfl
    · exact kept
  | drop call =>
    simp only [muxStep]
    split
    · exact same ⟨rfl, rfl, rfl, rfl, rfl⟩ rfl
    · exact kept
  | dropGuard call =>
    simp only [muxStep]
    split
    · split
      · exact kept.keep ⟨rfl, rfl, rfl, rfl, rfl⟩ (.inr ⟨_, rfl, rfl⟩)
      · exact kept.keep ⟨rfl, rfl, rfl, rfl, rfl⟩ (.inr ⟨_, rfl, rfl⟩)
    · exact kept
  | close => exact kept.keep ⟨rfl, rfl, rfl, rfl, rfl⟩ (.inr ⟨_, rfl, rfl⟩)
  | enqueueRaw bytes permit =>
    simp only [muxStep]
    split
    · exact same ⟨rfl, rfl, rfl, rfl, rfl⟩ rfl
    · exact kept
  | arrive frame => exact kept.arrive frame
  | route => exact kept.route calls
  | hand => exact kept.hand
  | pipe count => exact kept.pipe count
  | endLoop => exact kept.endLoop
  | suWrite bytes =>
    simp only [muxStep]
    split
    · exact same ⟨rfl, rfl, rfl, rfl, rfl⟩ rfl
    · exact kept
  | suEnd => exact same ⟨rfl, rfl, rfl, rfl, rfl⟩ rfl
  | relayRead count =>
    simp only [muxStep]
    repeat' split
    all_goals first | exact kept | exact same ⟨rfl, rfl, rfl, rfl, rfl⟩ rfl
  | relaySend =>
    simp only [muxStep]
    repeat' split
    all_goals first | exact kept | exact same ⟨rfl, rfl, rfl, rfl, rfl⟩ rfl
  | takeLine =>
    simp only [muxStep]
    repeat' split
    all_goals first | exact kept | exact same ⟨rfl, rfl, rfl, rfl, rfl⟩ rfl
  | write count =>
    simp only [muxStep]
    split
    · exact same ⟨rfl, rfl, rfl, rfl, rfl⟩ rfl
    · exact kept
  | stopWriter => exact same ⟨rfl, rfl, rfl, rfl, rfl⟩ rfl

end

end Routes

end Agent24.Os
