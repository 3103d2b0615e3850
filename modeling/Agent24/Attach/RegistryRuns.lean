import Agent24.Attach.Registry
import Agent24.Attach.Widening
import Agent24.Os.MuxRuns

/-! Runs of the registry: one generation a name, no command frame once a connection has ended, and entries that
say what the file says. -/

set_option autoImplicit false
namespace Agent24.Attach
open Library Os List

/-! What a connection's own multiplexer does to the frames it has been given. -/

def isCommand : OutLine → Bool
  | .call _ _ => true
  | .cancel _ => true
  | _ => false

def commandLines (m : Mux) : List OutLine := m.put.filter isCommand

section Wire
variable (R : JsonReader) {m : Mux} {move : MuxMove}

theorem put_step (m : Mux) (move : MuxMove) :
    (muxStep R m move).put = m.put ∨ ∃ line, (muxStep R m move).put = m.put ++ [line] ∧
      (isCommand line = true → m.closed = false ∧ ∃ call c, m.calls call = some c) := by
  cases move with
  | enqueue call permit =>
    simp only [muxStep]
    split
    next id line slot found =>
      split
      next => exact .inl rfl
      rename_i open_
      split
      next => exact .inr ⟨_, rfl, fun _ => ⟨eq_false_of_ne_true open_, _, _, found⟩⟩
      next => exact .inl rfl
    next => exact .inl rfl
  | cancel call permit =>
    simp only [muxStep]
    split
    next id line slot found =>
      split
      next => exact .inl rfl
      rename_i open_
      split
      next => exact .inr ⟨_, rfl, fun _ => ⟨eq_false_of_ne_true open_, _, _, found⟩⟩
      next => exact .inl rfl
    next => exact .inl rfl
  | enqueueRaw bytes permit =>
    simp only [muxStep]
    split
    next => exact .inr ⟨_, rfl, fun command => Bool.noConfusion command⟩
    next => exact .inl rfl
  | relaySend =>
    simp only [muxStep]
    split
    next =>
      split
      next => exact .inr ⟨_, rfl, fun command => Bool.noConfusion command⟩
      next => split <;> exact .inl rfl
    next => exact .inl rfl
  | _ =>
    simp only [muxStep, Mux.routeResponse]
    repeat' split
    all_goals first
      | exact .inl rfl
      | exact .inl trivial

theorem closed_step (closed : m.closed = true) : (muxStep R m move).closed = true := by
  cases move
  all_goals
    simp only [muxStep, Mux.routeResponse]
    repeat' split
    all_goals first
      | exact closed
      | rfl

theorem issued_step (wire : wireMove move = true) : (muxStep R m move).issued = m.issued := by
  cases move
  case call => cases wire
  all_goals
    simp only [muxStep, Mux.routeResponse]
    repeat' split
    all_goals rfl

theorem mem_put_step {line : OutLine} (member : line ∈ m.put) : line ∈ (muxStep R m move).put := by
  rcases put_step R m move with same | ⟨last, same, -⟩
  · exact same ▸ member
  · rw [same]
    exact mem_append_left _ member

theorem commandLines_closed (closed : m.closed = true) : commandLines (muxStep R m move) = commandLines m := by
  unfold commandLines
  rcases put_step R m move with same | ⟨line, same, command⟩
  · rw [same]
  have plain : isCommand line = false := eq_false_of_ne_true fun is => by
    rw [(command is).1] at closed
    cases closed
  rw [same, filter_append, filter_singleton, plain]
  exact append_nil _

theorem commandLines_idle (kept : CallsKept m) (idle : m.issued = 0) :
    commandLines (muxStep R m move) = commandLines m := by
  unfold commandLines
  rcases put_step R m move with same | ⟨line, same, command⟩
  · rw [same]
  have plain : isCommand line = false := eq_false_of_ne_true fun is => by
    obtain ⟨-, call, c, found⟩ := command is
    have small := kept.bound call c found
    omega
  rw [same, filter_append, filter_singleton, plain]
  exact append_nil _

end Wire

/-! What holds of every connection. -/

structure ConnectionKept (connection : Connection) (held : Nat) : Prop where
  calls : CallsKept connection.calls
  state : connection.generation.state = .running ∨ connection.generation.state = .revoked
  counted : connection.inFlight = held
  bounded : held ≤ maxKernelCallsInFlight
  unhanded : connection.handed = false → held = 0 ∧ connection.calls.issued = 0

structure AttachKept (s : Attached) : Prop where
  fresh : ∀ c, s.made ≤ c → s.connections c = none
  each : ∀ c connection, s.connections c = some connection → ConnectionKept connection (s.slots.count c)
  known : ∀ c ∈ s.slots, ∃ connection, s.connections c = some connection
  current : ∀ name e c, s.registry.entries.find name = some e → e.slot.current = some c →
    (∃ n, e.lastGeneration = some (n, c)) ∧ ∃ connection, s.connections c = some connection ∧
      connection.name = name ∧ connection.generation.state = .running
  runs : ∀ c connection, s.connections c = some connection → connection.generation.state = .running →
    ∃ e, s.registry.entries.find connection.name = some e ∧ e.slot.current = some c
  live : ∀ name e c, s.registry.entries.find name = some e → e.liveCalls = some ⟨c⟩ →
    ∃ connection, s.connections c = some connection ∧ connection.name = name ∧ connection.handed = true ∧
      ∃ bytes, .raw bytes ∈ connection.calls.put
  /-- Calls that slots can reach are closed, or those of the generation that runs. -/
  used : ∀ c connection, s.connections c = some connection → c ∈ s.slots ∨ connection.calls.issued ≠ 0 →
    connection.calls.closed = true ∨ connection.generation.state = .running ∧
      ∃ e, s.registry.entries.find connection.name = some e ∧ e.liveCalls = some ⟨c⟩

section Steps
variable {s : Attached} {e e' : Entry} {c d : Nat} {connection : Connection}

theorem edit_connections (s : Attached) (c : Nat) (change : Connection → Connection) (d : Nat) :
    (s.edit c change).connections d = if d = c then (s.connections c).map change else s.connections d := rfl

theorem AttachKept.edit (kept : AttachKept s) {change : Connection → Connection} {slots : List Nat}
    (others : ∀ d, d ≠ c → slots.count d = s.slots.count d) (here : (s.connections c).isSome = true)
    (same : ∀ connection, (change connection).name = connection.name ∧
      (change connection).generation = connection.generation)
    (handed : ∀ connection, connection.handed = true → (change connection).handed = true)
    (frames : ∀ connection line, line ∈ connection.calls.put → line ∈ (change connection).calls.put)
    (each : ∀ connection, s.connections c = some connection →
      ConnectionKept (change connection) (slots.count c))
    (used : ∀ connection, s.connections c = some connection → c ∈ slots ∨ (change connection).calls.issued ≠ 0 →
      (change connection).calls.closed = true ∨ connection.generation.state = .running ∧
        ∃ e, s.registry.entries.find connection.name = some e ∧ e.liveCalls = some ⟨c⟩) :
    AttachKept { s.edit c change with slots } := by
  obtain ⟨mine, found⟩ := Option.isSome_iff_exists.mp here
  have at_ : (s.edit c change).connections c = some (change mine) := by rw [edit_connections, if_pos rfl, found]; rfl
  have away : ∀ d, d ≠ c → (s.edit c change).connections d = s.connections d := fun d other => by
    rw [edit_connections, if_neg other]
  have member : ∀ d, d ≠ c → (d ∈ slots ↔ d ∈ s.slots) := fun d other => by
    rw [← count_pos_iff, ← count_pos_iff, others d other]
  have fresh : ∀ d, s.made ≤ d → d ≠ c := by
    rintro d new rfl
    rw [kept.fresh d new] at found
    cases found
  refine ⟨fun d new => ?_, fun d connection at' => ?_, fun d held => ?_, fun name e d listed current => ?_,
    fun d connection at' running => ?_, fun name e d listed live => ?_, fun d connection at' touched => ?_⟩
  · exact (away d (fresh d new)).trans (kept.fresh d new)
  · by_cases self : d = c
    · subst self
      obtain rfl := Option.some.inj (at_.symm.trans at')
      exact each mine found
    · exact (others d self).symm ▸ kept.each d connection ((away d self).symm.trans at')
  · by_cases self : d = c
    · subst self
      exact ⟨_, at_⟩
    · obtain ⟨connection, found⟩ := kept.known d ((member d self).mp held)
      exact ⟨connection, (away d self).trans found⟩
  · obtain ⟨last, connection, known, named, running⟩ := kept.current name e d listed current
    refine ⟨last, ?_⟩
    by_cases self : d = c
    · subst self
      obtain rfl := Option.some.inj (found.symm.trans known)
      exact ⟨_, at_, (same mine).1.trans named, by rw [(same mine).2]; exact running⟩
    · exact ⟨connection, (away d self).trans known, named, running⟩
  · by_cases self : d = c
    · subst self
      obtain rfl := Option.some.inj (at_.symm.trans at')
      rw [(same mine).1]
      rw [(same mine).2] at running
      exact kept.runs d mine found running
    · exact kept.runs d connection ((away d self).symm.trans at') running
  · obtain ⟨connection, known, named, given, bytes, put⟩ := kept.live name e d listed live
    by_cases self : d = c
    · subst self
      obtain rfl := Option.some.inj (found.symm.trans known)
      exact ⟨_, at_, (same mine).1.trans named, handed mine given, bytes, frames mine _ put⟩
    · exact ⟨connection, (away d self).trans known, named, given, bytes, put⟩
  · by_cases self : d = c
    · subst self
      obtain rfl := Option.some.inj (at_.symm.trans at')
      rw [(same mine).1, (same mine).2]
      exact used mine found touched
    · refine kept.used d connection ((away d self).symm.trans at') ?_
      rw [← member d self]
      exact touched

theorem revoke_state (connection : Connection) : connection.revoke.generation.state = .revoked := by
  unfold Connection.revoke Generation.revoke
  by_cases already : connection.generation.state = .revoked
  · simp [already]
  · simp [already]

structure Ended (gone shut : Bool) (before after : Connection) : Prop where
  name : after.name = before.name
  handed : after.handed = before.handed
  inFlight : after.inFlight = before.inFlight
  state : after.generation.state = if gone then .revoked else before.generation.state
  closed : after.calls.closed = (shut || before.calls.closed)
  put : after.calls.put = before.calls.put
  issued : after.calls.issued = before.calls.issued
  calls : CallsKept before.calls → CallsKept after.calls

namespace Ended
variable {gone shut gone' shut' : Bool} {before middle after : Connection}

theorem refl (connection : Connection) : Ended false false connection connection :=
  ⟨rfl, rfl, rfl, rfl, rfl, rfl, rfl, id⟩

theorem revoke (connection : Connection) : Ended true false connection connection.revoke := by
  have state := revoke_state connection
  unfold Connection.revoke at state ⊢
  split at state
  · exact ⟨rfl, rfl, rfl, state, rfl, rfl, rfl, id⟩
  · exact ⟨rfl, rfl, rfl, state, rfl, rfl, rfl, id⟩

theorem close (connection : Connection) : Ended false true connection connection.close :=
  ⟨rfl, rfl, rfl, rfl, rfl, rfl, rfl, CallsKept.close⟩

theorem trans (first : Ended gone shut before middle) (second : Ended gone' shut' middle after) :
    Ended (gone || gone') (shut || shut') before after where
  name := second.name.trans first.name
  handed := second.handed.trans first.handed
  inFlight := second.inFlight.trans first.inFlight
  state := by
    rw [second.state, first.state]
    cases gone <;> cases gone' <;> rfl
  closed := by
    rw [second.closed, first.closed, ← Bool.or_assoc, Bool.or_comm shut' shut]
  put := second.put.trans first.put
  issued := second.issued.trans first.issued
  calls kept := second.calls (first.calls kept)

theorem running (ended : Ended gone shut before after) (runs : after.generation.state = .running) :
    gone = false ∧ before.generation.state = .running := by
  rw [ended.state] at runs
  cases gone with
  | false => exact ⟨rfl, runs⟩
  | true => cases runs

theorem kept {held : Nat} (ended : Ended gone shut before after) (kept : ConnectionKept before held) :
    ConnectionKept after held where
  calls := ended.calls kept.calls
  state := by
    rw [ended.state]
    cases gone with
    | false => exact kept.state
    | true => exact .inr rfl
  counted := ended.inFlight.trans kept.counted
  bounded := kept.bounded
  unhanded := by
    rw [ended.handed, ended.issued]
    exact kept.unhanded

end Ended

structure Ends (gone shut : Nat → Bool) (s s' : Attached) : Prop where
  absent : ∀ d, s.connections d = none → s'.connections d = none
  present : ∀ d connection, s.connections d = some connection →
    ∃ after, s'.connections d = some after ∧ Ended (gone d) (shut d) connection after
  made : s'.made = s.made
  slots : s'.slots = s.slots
  store : s'.store = s.store
  telling : s'.telling = s.telling

namespace Ends
variable {gone shut gone' shut' : Nat → Bool} {s₁ s₂ s₃ : Attached}

theorem back {after : Connection} (ends : Ends gone shut s₁ s₂) (found : s₂.connections c = some after) :
    ∃ connection, s₁.connections c = some connection ∧ Ended (gone c) (shut c) connection after := by
  cases before : s₁.connections c with
  | none =>
    rw [ends.absent c before] at found
    cases found
  | some connection =>
    obtain ⟨after', found', ended⟩ := ends.present c connection before
    obtain rfl := Option.some.inj (found'.symm.trans found)
    exact ⟨connection, rfl, ended⟩

theorem refl (s : Attached) : Ends (fun _ => false) (fun _ => false) s s :=
  ⟨fun _ => id, fun _ connection found => ⟨connection, found, .refl connection⟩, rfl, rfl, rfl, rfl⟩

theorem trans (first : Ends gone shut s₁ s₂) (second : Ends gone' shut' s₂ s₃) :
    Ends (fun d => gone d || gone' d) (fun d => shut d || shut' d) s₁ s₃ where
  absent d before := second.absent d (first.absent d before)
  present d connection found := by
    obtain ⟨middle, found', ended⟩ := first.present d connection found
    obtain ⟨after, found'', ended'⟩ := second.present d middle found'
    exact ⟨after, found'', ended.trans ended'⟩
  made := second.made.trans first.made
  slots := second.slots.trans first.slots
  store := second.store.trans first.store
  telling := second.telling.trans first.telling

theorem setRegistry (ends : Ends gone shut s₁ s₂) (registry : AttachRegistry) :
    Ends gone shut s₁ { s₂ with registry } :=
  ⟨ends.absent, ends.present, ends.made, ends.slots, ends.store, ends.telling⟩

end Ends

theorem edit_ends {gone shut : Bool} {change : Connection → Connection}
    (ends : ∀ connection, Ended gone shut connection (change connection)) (s : Attached) (c : Nat) :
    Ends (fun d => d == c && gone) (fun d => d == c && shut) s (s.edit c change) := by
  refine ⟨fun d absent => ?_, fun d connection found => ?_, rfl, rfl, rfl, rfl⟩
  · rw [edit_connections]
    split
    next here => rw [← here, absent]; rfl
    next => exact absent
  · rw [edit_connections]
    by_cases here : d = c
    · subst here
      rw [if_pos rfl, found, beq_self_eq_true, Bool.true_and, Bool.true_and]
      exact ⟨_, rfl, ends connection⟩
    · rw [if_neg here, beq_false_of_ne here, Bool.false_and, Bool.false_and]
      exact ⟨connection, found, .refl connection⟩

theorem revokeGeneration_ends (s : Attached) (c : Nat) :
    Ends (fun d => d == c) (fun _ => false) s (s.revokeGeneration c) := by
  simpa only [Attached.revokeGeneration, Bool.and_true, Bool.and_false] using edit_ends Ended.revoke s c

theorem closeCalls_ends (s : Attached) (c : Nat) :
    Ends (fun _ => false) (fun d => d == c) s (s.closeCalls c) := by
  simpa only [Attached.closeCalls, Bool.and_true, Bool.and_false] using edit_ends Ended.close s c

theorem revokeCurrent_ends (s : Attached) (current : Option Nat) :
    Ends (fun d => current == some d) (fun _ => false) s (current.elim s s.revokeGeneration) := by
  cases current with
  | none => exact .refl s
  | some c =>
    have ends := revokeGeneration_ends s c
    rwa [show (fun d => d == c) = fun d => some c == some d from funext fun d => by
      rw [Option.some_beq_some, Bool.beq_comm]] at ends

theorem cut_ends (s : Attached) (e : Entry) :
    Ends (fun d => e.slot.current == some d) (fun d => e.liveCalls.any fun live => d == live.generation) s
      (s.cut e) := by
  have first := revokeCurrent_ends s e.slot.current
  unfold Attached.cut
  cases e.liveCalls with
  | none => simpa using first
  | some live => simpa using first.trans (closeCalls_ends _ live.generation)

theorem AttachKept.replace (kept : AttachKept s) {s' : Attached} {gone shut : Nat → Bool} {name : String}
    (ends : Ends gone shut s s')
    (others : ∀ other, other ≠ name → s'.registry.entries.find other = s.registry.entries.find other)
    (named : ∀ d connection, s.connections d = some connection → gone d = true → connection.name = name)
    (current : ∀ e' d, s'.registry.entries.find name = some e' → e'.slot.current = some d → gone d = false ∧
      ∃ e, s.registry.entries.find name = some e ∧ e.slot.current = some d ∧ e'.lastGeneration = e.lastGeneration)
    (stays : ∀ e d, s.registry.entries.find name = some e → e.slot.current = some d → gone d = false →
      ∃ e', s'.registry.entries.find name = some e' ∧ e'.slot.current = some d)
    (live : ∀ e' d, s'.registry.entries.find name = some e' → e'.liveCalls = some ⟨d⟩ →
      ∃ e, s.registry.entries.find name = some e ∧ e.liveCalls = some ⟨d⟩)
    (shuts : ∀ e d, s.registry.entries.find name = some e → e.liveCalls = some ⟨d⟩ → shut d = false →
      gone d = false ∧ ∃ e', s'.registry.entries.find name = some e' ∧ e'.liveCalls = some ⟨d⟩) :
    AttachKept s' := by
  refine ⟨fun d new => ?_, fun d after found => ?_, fun d held => ?_, fun n e' d listed now => ?_,
    fun d after found running => ?_, fun n e' d listed now => ?_, fun d after found touched => ?_⟩
  · exact ends.absent d (kept.fresh d (ends.made ▸ new))
  · obtain ⟨connection, before, ended⟩ := ends.back found
    exact ends.slots ▸ ended.kept (kept.each d connection before)
  · obtain ⟨connection, before⟩ := kept.known d (ends.slots ▸ held)
    obtain ⟨after, found, -⟩ := ends.present d connection before
    exact ⟨after, found⟩
  · by_cases here : n = name
    · subst here
      obtain ⟨stands, e, listed', now', last⟩ := current e' d listed now
      obtain ⟨⟨number, past⟩, connection, before, rfl, running⟩ := kept.current n e d listed' now'
      obtain ⟨after, found, ended⟩ := ends.present d connection before
      refine ⟨⟨number, last.trans past⟩, after, found, ended.name, ?_⟩
      rw [ended.state, stands]
      exact running
    · rw [others n here] at listed
      obtain ⟨past, connection, before, rfl, running⟩ := kept.current n e' d listed now
      obtain ⟨after, found, ended⟩ := ends.present d connection before
      refine ⟨past, after, found, ended.name, ?_⟩
      rw [ended.state, eq_false_of_ne_true fun ended => here (named d connection before ended)]
      exact running
  · obtain ⟨connection, before, ended⟩ := ends.back found
    obtain ⟨stands, runs⟩ := ended.running running
    obtain ⟨e, listed, now⟩ := kept.runs d connection before runs
    rw [ended.name]
    by_cases here : connection.name = name
    · exact here ▸ stays e d (here ▸ listed) now stands
    · exact ⟨e, (others _ here).trans listed, now⟩
  · have was : ∃ e, s.registry.entries.find n = some e ∧ e.liveCalls = some ⟨d⟩ := by
      by_cases here : n = name
      · subst here
        exact live e' d listed now
      · exact ⟨e', (others n here).symm.trans listed, now⟩
    obtain ⟨e, listed', now'⟩ := was
    obtain ⟨connection, before, rfl, handed, bytes, put⟩ := kept.live n e d listed' now'
    obtain ⟨after, found, ended⟩ := ends.present d connection before
    exact ⟨after, found, ended.name, ended.handed.trans handed, bytes, ended.put ▸ put⟩
  · obtain ⟨connection, before, ended⟩ := ends.back found
    rw [ends.slots, ended.issued] at touched
    rw [ended.closed, ended.name, ended.state]
    rcases kept.used d connection before touched with closed | ⟨running, e, listed, now⟩
    · exact .inl (by rw [closed, Bool.or_true])
    cases shutD : shut d with
    | true => exact .inl rfl
    | false =>
      by_cases here : connection.name = name
      · obtain ⟨stands, e', listed', now'⟩ := shuts e d (here ▸ listed) now shutD
        exact .inr ⟨by rw [stands]; exact running, e', here ▸ listed', now'⟩
      refine .inr ⟨?_, e, (others _ here).trans listed, now⟩
      rw [eq_false_of_ne_true fun ended => here (named d connection before ended)]
      exact running

theorem find_setEntry (s : Attached) (e : Entry) (name : String) :
    (s.setEntry e).registry.entries.find name =
      if name = e.name then some e else s.registry.entries.find name := Table.find_put

theorem find_setEntry_self (s : Attached) (e : Entry) : (s.setEntry e).registry.entries.find e.name = some e :=
  Table.find_put_self

theorem AttachKept.put (kept : AttachKept s) {s' : Attached} {gone shut : Nat → Bool} (ends : Ends gone shut s s')
    (same : s'.registry = s.registry) (found : s.registry.entries.find e'.name = some e)
    (named : ∀ d connection, s.connections d = some connection → gone d = true → connection.name = e'.name)
    (current : ∀ d, e'.slot.current = some d ↔ e.slot.current = some d ∧ gone d = false)
    (last : e'.lastGeneration = e.lastGeneration)
    (live : ∀ d, e'.liveCalls = some ⟨d⟩ → e.liveCalls = some ⟨d⟩)
    (shuts : ∀ d, e.liveCalls = some ⟨d⟩ → shut d = false → gone d = false ∧ e'.liveCalls = some ⟨d⟩) :
    AttachKept (s'.setEntry e') := by
  have here : (s'.setEntry e').registry.entries.find e'.name = some e' := by rw [find_setEntry, if_pos rfl]
  refine kept.replace (ends.setRegistry _) (fun other apart => ?_) named ?_ ?_ ?_ ?_
  · rw [← same]
    exact (find_setEntry s' e' other).trans (if_neg apart)
  · intro _ d listed now
    obtain rfl := Option.some.inj (here.symm.trans listed)
    exact ⟨((current d).mp now).2, e, found, ((current d).mp now).1, last⟩
  · intro _ d listed now stands
    obtain rfl := Option.some.inj (found.symm.trans listed)
    exact ⟨e', here, (current d).mpr ⟨now, stands⟩⟩
  · intro _ d listed now
    obtain rfl := Option.some.inj (here.symm.trans listed)
    exact ⟨e, found, live d now⟩
  · intro _ d listed now open_
    obtain rfl := Option.some.inj (found.symm.trans listed)
    exact ⟨(shuts d now open_).1, e', here, (shuts d now open_).2⟩

theorem AttachKept.touch (kept : AttachKept s) (found : s.registry.entries.find e'.name = some e)
    (slot : e'.slot = e.slot) (last : e'.lastGeneration = e.lastGeneration) (live : e'.liveCalls = e.liveCalls) :
    AttachKept (s.setEntry e') :=
  kept.put (.refl s) rfl found (fun _ _ _ gone => Bool.noConfusion gone) (fun d => by simp [slot]) last
    (fun _ now => live ▸ now) fun _ now _ => ⟨rfl, live.trans now⟩

theorem AttachKept.vacant (kept : AttachKept s) (absent : s.registry.entries.find e'.name = none)
    (slot : e'.slot.current = none) (live : e'.liveCalls = none) : AttachKept (s.setEntry e') := by
  have here : (s.setEntry e').registry.entries.find e'.name = some e' := by rw [find_setEntry, if_pos rfl]
  refine kept.replace ((Ends.refl s).setRegistry _) (fun other apart => (find_setEntry s e' other).trans (if_neg apart))
    (fun _ _ _ gone => Bool.noConfusion gone) ?_ ?_ ?_ ?_
  · intro _ d listed now
    obtain rfl := Option.some.inj (here.symm.trans listed)
    rw [slot] at now
    cases now
  · intro _ d listed
    rw [absent] at listed
    cases listed
  · intro _ d listed now
    obtain rfl := Option.some.inj (here.symm.trans listed)
    rw [live] at now
    cases now
  · intro _ d listed
    rw [absent] at listed
    cases listed

theorem AttachKept.named (kept : AttachKept s) {name : String} (found : s.registry.entries.find name = some e)
    (at_ : s.connections d = some connection) (gone : (e.slot.current == some d) = true) : connection.name = name := by
  obtain ⟨-, connection', at', named, -⟩ := kept.current name e d found (beq_iff_eq.mp gone)
  obtain rfl := Option.some.inj (at_.symm.trans at')
  exact named

theorem cut_registry (s : Attached) (e : Entry) : (s.cut e).registry = s.registry := by
  unfold Attached.cut
  cases e.slot.current <;> cases e.liveCalls <;> rfl

theorem live_shut {live : Option LiveCalls} (now : live = some ⟨d⟩) :
    (live.any fun live => d == live.generation) = true := by
  rw [now]
  exact beq_self_eq_true d

theorem AttachKept.cut (kept : AttachKept s) (found : s.registry.entries.find e.name = some e) (name : e'.name = e.name)
    (slot : e'.slot.current = none) (last : e'.lastGeneration = e.lastGeneration) (live : e'.liveCalls = none) :
    AttachKept ((s.cut e).setEntry e') := by
  refine kept.put (cut_ends s e) (cut_registry s e) (name ▸ found)
    (fun d connection at_ gone => name ▸ kept.named found at_ gone) (fun d => ?_) last (fun d now => ?_)
    (fun d now shut => ?_)
  · rw [slot]
    refine iff_of_false (by simp) ?_
    rintro ⟨now, stands⟩
    rw [now, beq_self_eq_true] at stands
    cases stands
  · rw [live] at now
    cases now
  · rw [live_shut now] at shut
    cases shut

theorem AttachKept.cutAway (kept : AttachKept s) (found : s.registry.entries.find e.name = some e) :
    AttachKept { s.cut e with
      registry := { (s.cut e).registry with entries := (s.cut e).registry.entries.remove e.name } } := by
  have absent : ((s.cut e).registry.entries.remove e.name).find e.name = none := Table.find_remove_self
  refine kept.replace ((cut_ends s e).setRegistry _) (fun other apart => ?_)
    (fun d connection at_ gone => kept.named found at_ gone) ?_ ?_ ?_ ?_
  · exact (Table.find_remove_of_ne apart).trans (by rw [cut_registry])
  · intro _ d listed
    rw [absent] at listed
    cases listed
  · intro _ d listed now stands
    obtain rfl := Option.some.inj (found.symm.trans listed)
    rw [now, beq_self_eq_true] at stands
    cases stands
  · intro _ d listed
    rw [absent] at listed
    cases listed
  · intro _ d listed now shut
    obtain rfl := Option.some.inj (found.symm.trans listed)
    rw [live_shut now] at shut
    cases shut

theorem AttachKept.onChange (kept : AttachKept s) (change : Change) : AttachKept (s.onChange change) := by
  unfold Attached.onChange
  split
  · exact kept
  cases change with
  | registered =>
    dsimp only
    split
    · exact kept
    rename_i tokenSha256 decoded
    split
    next e found =>
      have keyed := Table.find_key found
      exact kept.cut (keyed ▸ found) rfl rfl rfl rfl
    next absent => exact kept.vacant absent rfl rfl
  | revoked name =>
    dsimp only
    split
    next e found =>
      obtain rfl := Table.find_key found
      exact kept.cutAway found
    next => exact kept
  | disabled name disabled =>
    dsimp only
    split
    next e found =>
      have keyed := Table.find_key found
      split
      next => exact kept.cut (keyed ▸ found) rfl rfl rfl rfl
      next => exact kept.touch (e := e) (keyed ▸ found) rfl rfl rfl
    next => exact kept

theorem AttachKept.note (kept : AttachKept s) (name tokenId expected actual : String) :
    AttachKept (s.noteContractMismatch name tokenId expected actual) := by
  unfold Attached.noteContractMismatch
  split
  · exact kept
  split
  next => exact kept
  rename_i e found
  have keyed := Table.find_key found
  split
  · exact kept
  split
  · exact kept
  · exact kept.touch (e := e) (keyed ▸ found) rfl rfl rfl

theorem ConnectionKept.new (name : String) :
    ConnectionKept ⟨name, (Generation.new .attached).ready.2, .start, false, 0⟩ 0 where
  calls := .start
  state := .inl rfl
  counted := rfl
  bounded := Nat.zero_le _
  unhanded _ := ⟨rfl, rfl⟩

theorem AttachKept.unheld (kept : AttachKept s) (absent : s.connections c = none) : s.slots.count c = 0 := by
  refine count_eq_zero.mpr fun held => ?_
  obtain ⟨connection, found⟩ := kept.known c held
  rw [absent] at found
  cases found

theorem AttachKept.commit (kept : AttachKept s) (claim : AttachedAccepted) : AttachKept (s.commit claim).2 := by
  unfold Attached.commit
  split
  · exact kept
  split
  next => exact kept
  rename_i e found
  rw [← Table.find_key found] at found
  split
  · exact kept
  split
  · exact kept.touch (e := e) found rfl rfl rfl
  split
  · exact kept
  rename_i free
  have idle : e.slot.current = none := Option.not_isSome_iff_eq_none.mp free
  have unmade := kept.fresh s.made le_rfl
  have old : ∀ d connection, s.connections d = some connection → d ≠ s.made := by
    rintro d connection at_ rfl
    rw [unmade] at at_
    cases at_
  -- the entry has no generation, so none of its name runs
  have still : ∀ d connection, s.connections d = some connection → connection.name = e.name →
      connection.generation.state ≠ .running := by
    intro d connection at_ named running
    obtain ⟨e', listed, now⟩ := kept.runs d connection at_ running
    rw [named, found] at listed
    cases listed
    rw [idle] at now
    cases now
  refine ⟨fun d new => ?_, fun d connection at_ => ?_, fun d held => ?_, fun n e' d listed now => ?_,
    fun d connection at_ running => ?_, fun n e' d listed now => ?_, fun d connection at_ touched => ?_⟩
  · exact (if_neg (Nat.ne_of_gt new)).trans (kept.fresh d (Nat.le_of_succ_le new))
  · by_cases self : d = s.made
    · subst self
      obtain rfl := Option.some.inj ((if_pos rfl).symm.trans at_)
      have none_ : s.slots.count s.made = 0 := kept.unheld unmade
      exact none_.symm ▸ ConnectionKept.new e.name
    · exact kept.each d connection ((if_neg self).symm.trans at_)
  · obtain ⟨connection, at_⟩ := kept.known d held
    exact ⟨connection, (if_neg (old d connection at_)).trans at_⟩
  · rw [find_setEntry] at listed
    split at listed
    next here =>
      cases listed
      cases now
      exact ⟨⟨_, rfl⟩, _, if_pos rfl, here.symm, rfl⟩
    next =>
      obtain ⟨past, connection, at_, named, running⟩ := kept.current n e' d listed now
      exact ⟨past, connection, (if_neg (old d connection at_)).trans at_, named, running⟩
  · by_cases self : d = s.made
    · subst self
      obtain rfl := Option.some.inj ((if_pos rfl).symm.trans at_)
      exact ⟨_, (find_setEntry _ _ _).trans (if_pos rfl), rfl⟩
    · have before := (if_neg self).symm.trans at_
      obtain ⟨e', listed, now⟩ := kept.runs d connection before running
      exact ⟨e', (find_setEntry _ _ _).trans ((if_neg fun same => still d connection before same running).trans listed),
        now⟩
  · have was : ∃ e, s.registry.entries.find n = some e ∧ e.liveCalls = some ⟨d⟩ := by
      rw [find_setEntry] at listed
      split at listed
      next here =>
        cases listed
        exact ⟨e, here ▸ found, now⟩
      next => exact ⟨e', listed, now⟩
    obtain ⟨e', listed', now'⟩ := was
    obtain ⟨connection, at_, rest⟩ := kept.live n e' d listed' now'
    exact ⟨connection, (if_neg (old d connection at_)).trans at_, rest⟩
  · by_cases self : d = s.made
    · subst self
      obtain rfl := Option.some.inj ((if_pos rfl).symm.trans at_)
      rcases touched with held | issued
      · obtain ⟨connection, before⟩ := kept.known s.made held
        exact absurd rfl (old s.made connection before)
      · exact absurd rfl issued
    · have before := (if_neg self).symm.trans at_
      rcases kept.used d connection before touched with closed | ⟨running, e', listed, now⟩
      · exact .inl closed
      · exact .inr ⟨running, e',
          (find_setEntry _ _ _).trans ((if_neg fun same => still d connection before same running).trans listed), now⟩

theorem Ends.when {gone shut : Nat → Bool} {s' : Attached} (ends : Ends gone shut s s') (b : Bool) :
    Ends (fun d => b && gone d) (fun d => b && shut d) s (if b then s' else s) := by
  cases b with
  | false => exact .refl s
  | true => exact ends

theorem AttachKept.release (kept : AttachKept s) {name : String} (at_ : s.connections c = some connection)
    (mine : connection.name = name) : AttachKept (s.release name c) := by
  unfold Attached.release
  split
  next => exact kept
  rename_i e found
  obtain rfl := Table.find_key found
  generalize own : (e.lastGeneration.any fun last => last.2 == c) = owns
  generalize live : (e.liveCalls.any fun live => live.generation == c) = lives
  have current : ∀ d, e.slot.current = some d → owns = true → d = c := by
    intro d now owned
    obtain ⟨⟨n, last⟩, -⟩ := kept.current e.name e d found now
    rw [last, owned] at own
    exact beq_iff_eq.mp own
  have lived : ∀ d, e.liveCalls = some ⟨d⟩ → (lives = true ↔ d = c) := by
    intro d now
    rw [← live, now]
    exact beq_iff_eq
  have first := (revokeCurrent_ends s e.slot.current).when owns
  have second := first.trans ((closeCalls_ends _ c).when lives)
  have ends := second.trans (revokeGeneration_ends _ c)
  have registry : ((if lives then (if owns then e.slot.current.elim s s.revokeGeneration else s).closeCalls c
      else if owns then e.slot.current.elim s s.revokeGeneration else s).revokeGeneration c).registry = s.registry := by
    cases lives <;> cases owns <;> cases e.slot.current <;> rfl
  refine kept.put (e := e) ends registry found ?_ (fun d => ?_) rfl (fun d now => ?_) (fun d now shut => ?_)
  · intro d connection' at_' gone
    simp only [Bool.and_false, Bool.or_false, Bool.or_eq_true, Bool.and_eq_true, beq_iff_eq] at gone
    rcases gone with ⟨owned, now⟩ | rfl
    · exact kept.named found at_' (beq_iff_eq.mpr now)
    · obtain rfl := Option.some.inj (at_.symm.trans at_')
      exact mine
  · cases owns with
    | true =>
      simp only [if_true, reduceCtorEq, if_false, Bool.true_and, Bool.and_false, Bool.or_false, Bool.or_eq_false_iff,
        beq_eq_false_iff_ne, false_iff, not_and, not_not]
      exact fun now stands => absurd now stands
    | false =>
      simp only [Bool.false_eq_true, if_false, Bool.false_and, Bool.and_false, Bool.or_false, Bool.false_or,
        beq_eq_false_iff_ne]
      by_cases here : e.slot.current = some c
      · simp only [here, if_true, reduceCtorEq, Option.some.injEq, false_iff, not_and, not_not]
        exact fun same => same.symm
      · rw [if_neg here]
        refine ⟨fun now => ⟨now, fun same => here (same ▸ now)⟩, And.left⟩
  · cases lives with
    | true => cases now
    | false => exact now
  · have apart : d ≠ c := by
      intro same
      simp [(lived d now).mpr same, same] at shut
    have lives_ : lives = false := eq_false_of_ne_true fun is => apart ((lived d now).mp is)
    subst lives_
    refine ⟨?_, now⟩
    simp only [Bool.and_false, Bool.or_false, Bool.or_eq_false_iff, Bool.and_eq_false_imp, beq_eq_false_iff_ne]
    exact ⟨fun owned current' => apart (current d current' owned), apart⟩

theorem edit_edit (s : Attached) (c : Nat) (first second : Connection → Connection) :
    (s.edit c first).edit c second = s.edit c (second ∘ first) := by
  have same : (fun d => if d = c then (if c = c then (s.connections c).map first else s.connections c).map second
      else if d = c then (s.connections c).map first else s.connections d) =
      fun d => if d = c then (s.connections c).map (second ∘ first) else s.connections d := by
    funext d
    split
    · rw [if_pos rfl, Option.map_map]
    · rfl
  unfold Attached.edit
  dsimp only
  rw [same]

theorem AttachKept.install (kept : AttachKept s) (found : s.registry.entries.find e.name = some e) {n : Nat}
    (last : e.lastGeneration = some (n, c)) (at_ : s.connections c = some connection) (named : connection.name = e.name)
    (handed : connection.handed = true) (framed : ∃ bytes, .raw bytes ∈ connection.calls.put) :
    AttachKept (s.setEntry { e with liveCalls := some ⟨c⟩ }) := by
  refine ⟨kept.fresh, kept.each, kept.known, fun name e' d listed now => ?_, fun d k at' running => ?_,
    fun name e' d listed now => ?_, fun d k at' touched => ?_⟩
  · rw [find_setEntry] at listed
    split at listed
    next here =>
      cases listed
      exact here ▸ kept.current e.name e d found now
    next => exact kept.current name e' d listed now
  · obtain ⟨e', listed, now⟩ := kept.runs d k at' running
    rw [find_setEntry]
    split
    next here =>
      rw [here] at listed
      obtain rfl := Option.some.inj (found.symm.trans listed)
      exact ⟨_, rfl, now⟩
    next => exact ⟨e', listed, now⟩
  · rw [find_setEntry] at listed
    split at listed
    next here =>
      cases listed
      cases now
      exact ⟨connection, at_, named.trans here.symm, handed, framed⟩
    next => exact kept.live name e' d listed now
  · rcases kept.used d k at' touched with closed | ⟨running, e', listed, now⟩
    · exact .inl closed
    refine .inr ⟨running, ?_⟩
    rw [find_setEntry]
    split
    next here =>
      -- the generation that runs is the last one, so this is the connection itself
      obtain ⟨e'', listed', current⟩ := kept.runs d k at' running
      rw [here] at listed'
      obtain rfl := Option.some.inj (found.symm.trans listed')
      obtain ⟨⟨n', last'⟩, -⟩ := kept.current e.name e d found current
      rw [last] at last'
      cases last'
      exact ⟨_, rfl, rfl⟩
    next => exact ⟨e', listed, now⟩

theorem AttachKept.attach (kept : AttachKept s) {name : String} (at_ : s.connections c = some connection)
    (named : connection.name = name) (fresh : connection.handed = false) (line : List UInt8) (permit : Bool) :
    AttachKept (s.attachKernelCalls name c line permit).2 := by
  have each := kept.each c connection at_
  obtain ⟨none_, issued⟩ := each.unhanded fresh
  have unheld : c ∉ s.slots := count_eq_zero.mp none_
  unfold Attached.attachKernelCalls
  rw [at_]
  -- nothing of the connection is in use, so what is put on it changes nothing for the slots
  have step : ∀ change : Connection → Connection,
      (∀ k, (change k).name = k.name ∧ (change k).generation = k.generation) →
      (∀ k, k.handed = true → (change k).handed = true) → (∀ k, ∀ line ∈ k.calls.put, line ∈ (change k).calls.put) →
      CallsKept (change connection).calls → (change connection).calls.issued = connection.calls.issued →
      (change connection).inFlight = connection.inFlight → AttachKept (s.edit c change) := by
    intro change same handed frames calls issued' inFlight
    refine kept.edit (fun _ _ => rfl) (Option.isSome_iff_exists.mpr ⟨_, at_⟩) same handed frames (fun k found => ?_)
      fun k found touched => ?_
    · obtain rfl := Option.some.inj (at_.symm.trans found)
      exact ⟨calls, (same connection).2 ▸ each.state, inFlight.trans each.counted, each.bounded,
        fun _ => ⟨none_, issued'.trans issued⟩⟩
    · obtain rfl := Option.some.inj (at_.symm.trans found)
      rcases touched with held | used
      · exact absurd held unheld
      · exact absurd (issued'.trans issued) used
  have pushed : ∀ k : Connection, ∀ other ∈ k.calls.put, other ∈ (k.calls.push (.raw line)).put :=
    fun _ _ member => mem_append_left _ member
  dsimp only
  split
  next room =>
    rw [edit_edit]
    have calls : CallsKept (connection.calls.push (.raw line)) := { each.calls with }
    split
    next e found =>
      split
      next last =>
        obtain ⟨⟨n, c'⟩, past, same⟩ := (Option.any_eq_true ..).mp last
        obtain rfl : c' = c := beq_iff_eq.mp same
        obtain rfl := Table.find_key found
        rw [edit_edit]
        have held := step (fun k => { k with handed := true, calls := k.calls.push (.raw line), inFlight := 0 })
          (fun _ => ⟨rfl, rfl⟩) (fun _ _ => rfl) pushed calls rfl (none_.symm.trans each.counted.symm)
        have at' := (edit_connections s c' (fun k =>
          { k with handed := true, calls := k.calls.push (.raw line), inFlight := 0 }) c').trans (if_pos rfl)
        rw [at_] at at'
        exact held.install (e := e) found past at' named rfl
          ⟨line, mem_append_right _ (mem_singleton_self _)⟩
      next => exact step _ (fun _ => ⟨rfl, rfl⟩) (fun _ _ => rfl) pushed calls rfl rfl
    next => exact step _ (fun _ => ⟨rfl, rfl⟩) (fun _ _ => rfl) pushed calls rfl rfl
  next => exact step _ (fun _ => ⟨rfl, rfl⟩) (fun _ _ => rfl) (fun _ _ => id) each.calls rfl rfl

structure Reserves (s : Attached) (name command : String) (c : Nat) (e : Entry) (connection : Connection) : Prop where
  listed : s.registry.entries.find name = some e
  declared : e.hostCommands.contains command = true
  live : e.liveCalls = some ⟨c⟩
  found : s.connections c = some connection
  running : connection.generation.state = .running
  free : connection.inFlight < maxKernelCallsInFlight

theorem reserveReady_cases (s : Attached) (name command : String) :
    (∃ refused, s.reserveReady name command = (.error refused, s)) ∨
      ∃ c e connection, Reserves s name command c e connection ∧ s.reserveReady name command =
        (.ok c, { s.edit c fun connection => { connection with inFlight := connection.inFlight + 1 } with
          slots := c :: s.slots }) := by
  unfold Attached.reserveReady
  split
  next => exact .inl ⟨_, rfl⟩
  rename_i e listed
  split
  next declared =>
    split
    next => exact .inl ⟨_, rfl⟩
    rename_i live ready
    obtain ⟨live, runs⟩ := Option.filter_eq_some_iff.mp ready
    split
    next => exact .inl ⟨_, rfl⟩
    rename_i connection found
    split
    next => exact .inl ⟨_, rfl⟩
    rename_i free
    rw [Attached.running, found] at runs
    exact .inr ⟨_, e, connection, ⟨listed, declared, live, found, beq_iff_eq.mp runs, Nat.lt_of_not_le free⟩, rfl⟩
  next => exact .inl ⟨_, rfl⟩

theorem AttachKept.reserve (kept : AttachKept s) (name command : String) :
    AttachKept (s.reserveReady name command).2 := by
  rcases reserveReady_cases s name command with ⟨refused, same⟩ | ⟨c, e, connection, reserves, same⟩
  · rwa [same]
  rw [same]
  obtain ⟨connection', at_', named, handed, -⟩ := kept.live name e c reserves.listed reserves.live
  obtain rfl := Option.some.inj (reserves.found.symm.trans at_')
  have each := kept.each c connection reserves.found
  refine kept.edit (fun d other => count_cons_of_ne other.symm) (Option.isSome_iff_exists.mpr ⟨_, at_'⟩)
    (fun _ => ⟨rfl, rfl⟩) (fun _ => id) (fun _ _ => id) (fun k at' => ?_) fun k at' _ => ?_
  · obtain rfl := Option.some.inj (at_'.symm.trans at')
    rw [count_cons_self]
    refine ⟨each.calls, each.state, congrArg (· + 1) each.counted, ?_, fun fresh => ?_⟩
    · rw [← each.counted]
      exact reserves.free
    · rw [handed] at fresh
      cases fresh
  · obtain rfl := Option.some.inj (at_'.symm.trans at')
    exact .inr ⟨reserves.running, e, named ▸ reserves.listed, reserves.live⟩

theorem AttachKept.dropSlot (kept : AttachKept s) (c : Nat) : AttachKept (s.dropSlot c) := by
  unfold Attached.dropSlot
  split
  next held =>
    obtain ⟨connection, at_⟩ := kept.known c held
    have each := kept.each c connection at_
    refine kept.edit (fun d other => count_erase_of_ne other) (Option.isSome_iff_exists.mpr ⟨_, at_⟩)
      (fun _ => ⟨rfl, rfl⟩) (fun _ => id) (fun _ _ => id) (fun k at' => ?_) fun k at' touched => ?_
    · obtain rfl := Option.some.inj (at_.symm.trans at')
      rw [count_erase_self]
      refine ⟨each.calls, each.state, congrArg (· - 1) each.counted, (Nat.sub_le ..).trans each.bounded, fun fresh => ?_⟩
      obtain ⟨none, issued⟩ := each.unhanded fresh
      exact ⟨Nat.sub_eq_zero_of_le (none.trans_le (Nat.zero_le 1)), issued⟩
    · exact kept.used c k at' (touched.imp_left mem_of_mem_erase)
  next => exact kept

section
variable (R : JsonReader)

theorem AttachKept.call (kept : AttachKept s) (held : c ∈ s.slots) (method : String) (params : Json)
    (plain : params.Plain) :
    AttachKept (s.edit c fun connection =>
      { connection with calls := muxStep R connection.calls (.call method params plain) }) := by
  obtain ⟨connection, at_⟩ := kept.known c held
  have each := kept.each c connection at_
  refine kept.edit (fun _ _ => rfl) (Option.isSome_iff_exists.mpr ⟨_, at_⟩) (fun _ => ⟨rfl, rfl⟩) (fun _ => id)
    (fun k line => mem_put_step R) (fun k at' => ?_) fun k at' _ => ?_
  · obtain rfl := Option.some.inj (at_.symm.trans at')
    refine ⟨each.calls.step R (.call method params plain), each.state, each.counted, each.bounded, fun fresh => ?_⟩
    have none := (each.unhanded fresh).1
    exact absurd held (count_eq_zero.mp none)
  · exact (kept.used c k at' (.inl held)).imp_left (closed_step R)

theorem AttachKept.wire (kept : AttachKept s) (at_ : (s.connections c).isSome = true) {move : MuxMove}
    (wire : wireMove move = true) :
    AttachKept (s.edit c fun connection => { connection with calls := muxStep R connection.calls move }) := by
  refine kept.edit (fun _ _ => rfl) at_ (fun _ => ⟨rfl, rfl⟩) (fun _ => id) (fun k line => mem_put_step R)
    (fun k at' => ?_) fun k at' touched => ?_
  · have each := kept.each c k at'
    refine ⟨each.calls.step R move, each.state, each.counted, each.bounded, fun fresh => ?_⟩
    exact ⟨(each.unhanded fresh).1, (issued_step R wire).trans (each.unhanded fresh).2⟩
  · refine (kept.used c k at' ?_).imp_left (closed_step R)
    rwa [issued_step R wire] at touched

end

theorem cuts_ends (entries : List Entry) (s : Attached) :
    Ends (fun d => entries.any fun e => e.slot.current == some d)
      (fun d => entries.any fun e => e.liveCalls.any fun live => d == live.generation) s
      (entries.foldl (fun s e => s.cut e) s) := by
  induction entries generalizing s with
  | nil => exact .refl s
  | cons e rest ih => exact (cut_ends s e).trans (ih (s.cut e))

theorem AttachKept.revokeAll (kept : AttachKept s) : AttachKept s.revokeAll := by
  have ends := (cuts_ends s.registry.entries.rows s).setRegistry ⟨.empty, true⟩
  refine ⟨fun d new => ?_, fun d after found => ?_, fun d held => ?_, fun _ _ _ listed => ?_,
    fun d after found running => ?_, fun _ _ _ listed => ?_, fun d after found touched => ?_⟩
  · exact ends.absent d (kept.fresh d (ends.made ▸ new))
  · obtain ⟨connection, before, ended⟩ := ends.back found
    exact ends.slots ▸ ended.kept (kept.each d connection before)
  · obtain ⟨connection, before⟩ := kept.known d (ends.slots ▸ held)
    obtain ⟨after, found, -⟩ := ends.present d connection before
    exact ⟨after, found⟩
  · cases listed
  · obtain ⟨connection, before, ended⟩ := ends.back found
    obtain ⟨stands, runs⟩ := ended.running running
    obtain ⟨e, listed, now⟩ := kept.runs d connection before runs
    rw [any_eq_false] at stands
    exact absurd (beq_iff_eq.mpr now) (stands e (Table.find_eq_some.mp listed).1)
  · cases listed
  · obtain ⟨connection, before, ended⟩ := ends.back found
    have slots : s.revokeAll.slots = s.slots := ends.slots
    rw [slots, ended.issued] at touched
    rw [ended.closed]
    rcases kept.used d connection before touched with closed | ⟨-, e, listed, now⟩
    · exact .inl (by rw [closed, Bool.or_true])
    have shut : (s.registry.entries.rows.any fun e => e.liveCalls.any fun live => d == live.generation) = true :=
      any_eq_true.mpr ⟨e, (Table.find_eq_some.mp listed).1, live_shut now⟩
    exact .inl (by rw [shut, Bool.true_or])

variable (P : Platform) (fromYaml : String → Except String DomainOsManifest) (R : JsonReader)

theorem edit_absent (absent : s.connections c = none) (change : Connection → Connection) : s.edit c change = s := by
  have same : (fun d => if d = c then (s.connections c).map change else s.connections d) = s.connections := by
    funext d
    split
    next here => rw [here, absent]; rfl
    next => rfl
  unfold Attached.edit
  rw [same]

theorem AttachKept.step (kept : AttachKept s) (move : AttachMove) : AttachKept (attachStep P fromYaml R s move) := by
  cases move with
  | write call =>
    unfold attachStep
    dsimp only
    split
    next => exact kept
    next => exact ⟨kept.fresh, kept.each, kept.known, kept.current, kept.runs, kept.live, kept.used⟩
  | tell =>
    unfold attachStep
    dsimp only
    split
    next change _ =>
      have told := kept.onChange change
      exact ⟨told.fresh, told.each, told.known, told.current, told.runs, told.live, told.used⟩
    next => exact kept
  | commit claim => exact kept.commit claim
  | attach c line permit =>
    unfold attachStep
    dsimp only
    split
    next connection at_ =>
      split
      next => exact kept
      next fresh => exact kept.attach at_ rfl (eq_false_of_ne_true fresh) line permit
    next => exact kept
  | release c =>
    unfold attachStep
    dsimp only
    split
    next connection at_ => exact kept.release at_ rfl
    next => exact kept
  | reserve name command => exact kept.reserve name command
  | call c method params plain =>
    unfold attachStep
    dsimp only
    split
    next held => exact kept.call R held method params plain
    next => exact kept
  | dropSlot c => exact kept.dropSlot c
  | note name tokenId expected actual => exact kept.note name tokenId expected actual
  | revokeAll => exact kept.revokeAll
  | wire c move =>
    unfold attachStep
    dsimp only
    split
    next wire =>
      cases at_ : s.connections c with
      | none => rwa [edit_absent at_]
      | some connection => exact kept.wire R (by rw [at_]; rfl) wire
    next => exact kept

def hydrated (record : AttachedRecord) : Option Entry :=
  match parseManifest P fromYaml record.manifestYaml, decodeHex32 record.tokenSha256 with
  | .ok manifest, some tokenSha256 =>
    some (.vacant record.name record.manifestDigest tokenSha256 record.tokenId record.disabled manifest)
  | _, _ => none

theorem hydrated_spec {record : AttachedRecord} (made : hydrated P fromYaml record = some e) :
    e.name = record.name ∧ e.slot.current = none ∧ e.liveCalls = none := by
  unfold hydrated at made
  split at made
  next =>
    cases made
    exact ⟨rfl, rfl, rfl⟩
  next => cases made

theorem find_hydrate (store : AttachedStore) (name : String) :
    (hydrate P fromYaml store).entries.find name = (store.modules.find name).bind (hydrated P fromYaml) := by
  have fold : (hydrate P fromYaml store).entries =
      store.modules.rows.foldl (fun t record => (hydrated P fromYaml record).elim t t.put) .empty := by
    unfold hydrate loadAll
    rw [foldl_filterMap]
    refine congrArg (fun f => List.foldl f Table.empty store.modules.rows) (funext fun entries => funext fun record => ?_)
    unfold hydrated
    cases parseManifest P fromYaml record.manifestYaml with
    | error e => rfl
    | ok manifest =>
      cases decoded : decodeHex32 record.tokenSha256 with
      | none => simp only [decoded, Option.elim_none]
      | some tokenSha256 => simp only [decoded, Option.elim_some]
  rw [fold, Table.find_foldl_put (fun record e made => (hydrated_spec P fromYaml made).1) _ store.modules.distinct]
  exact Option.or_none

theorem AttachKept.start (store : AttachedStore) : AttachKept (.start P fromYaml store) where
  fresh _ _ := rfl
  each _ _ found := by cases found
  known _ held := absurd held not_mem_nil
  current name e c listed now := by
    obtain ⟨record, -, made⟩ := Option.bind_eq_some_iff.mp ((find_hydrate P fromYaml store name).symm.trans listed)
    rw [(hydrated_spec P fromYaml made).2.1] at now
    cases now
  runs _ _ found := by cases found
  live name e c listed now := by
    obtain ⟨record, -, made⟩ := Option.bind_eq_some_iff.mp ((find_hydrate P fromYaml store name).symm.trans listed)
    rw [(hydrated_spec P fromYaml made).2.2] at now
    cases now
  used _ _ found := by cases found

end Steps
end Agent24.Attach
