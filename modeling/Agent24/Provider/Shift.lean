import Agent24.Provider.Binding

/-! What each event of a binding can do to its connection, and what follows for the phase, the rounds and
the issuance in flight. -/

set_option autoImplicit false
namespace Agent24.Provider
open Library

/-- A reason kept until a retry, a new login or a sidecar start; `local_storage` waits for its write. -/
def UnavailableCause.stays (cause : UnavailableCause) : Bool :=
  !cause.retriesAutomatically && decide (cause ≠ .localStorage)

/-- What an event is, as far as it decides how the phase may move. -/
inductive Drive where
  | probing
  | leaving
  | letting
  | confirming
  | other
  deriving DecidableEq

namespace Gate
variable (g : Gate)

theorem openCall_pending : g.openCall.1.generationPending = g.generationPending := by
  unfold openCall
  split
  · split <;> rfl
  · rfl

theorem send_pending (call : CallId) (requestId : String) :
    (g.send call requestId).1.generationPending = g.generationPending := by
  unfold send
  split
  · split <;> rfl
  · rfl

theorem invalidate_closed : g.invalidate.1.admissionOpen = false := by
  unfold Gate.invalidate Gate.admissionOpen
  dsimp only
  split <;> simp

theorem invalidate_calls : ∀ call ∈ g.invalidate.1.calls.rows, call.invalidated = true := by
  intro call member
  obtain ⟨old, -, rfl⟩ := List.mem_map.mp member
  cases marked : old.invalidated <;> simp [marked]

end Gate

namespace Connection

def relogin (c : Connection) : Connection :=
  let out :=
    match c.phase with
    | some (.unavailable .accessRevoked) | some (.unavailable .credentialRejected) => c.leave
    | _ => c
  (out.release .credentialRejected).release .accessRevoked

def retry (c : Connection) : Connection :=
  let let_ := c.releaseAll
  match c.phase with
  | some (.unavailable cause) => if cause = .localStorage then let_ else let_.startLoading.1
  | _ => let_

inductive Shift (drive : Drive) (c : Connection) : Connection → Prop
  | kept : Shift drive c c
  | calls (gate : Gate) : gate.generationPending = c.gate.generationPending →
      Shift drive c { c with gate := gate }
  | sent (next : Nat) : c.nextProbe ≤ next → Shift drive c { c with nextProbe := next }
  | moved (phase : ConnectionPhase) (seq : Nat) : drive = .probing → c.active = true →
      c.persistPending = false → (phase.isServable = true → c.onceServable = true) →
      Shift drive c { c with appliedProbe := some seq, phase := some phase }
  | first (seq : Nat) : drive = .probing → c.active = true → c.persistPending = false →
      Shift drive c ({ c with appliedProbe := some seq, onceServablePending := true }.fail .localStorage)
  | failed (cause : UnavailableCause) : c.active = true → Shift drive c (c.fail cause)
  | loading : c.active = true ∨ c.phase = none → Shift drive c c.startLoading.1
  | revoked (kind : Revocation) (phase : ConnectionPhase) (third : Bool) : c.phase = some phase →
      Shift drive c (Access.revoke c.invalidate.1 kind phase third)
  | left : drive = .leaving → c.phase = none → Shift drive c c.leave
  | aborted : drive = .leaving → c.phase ≠ none → Shift drive c c.invalidate.1.leave
  | relogged : drive = .letting → Shift drive c c.relogin
  | retried : drive = .letting → Shift drive c c.retry
  | generation (value : Generation) : drive = .confirming → Shift drive c (c.confirmGeneration value).1
  | servable : drive = .confirming → Shift drive c c.confirmOnceServable.1

/-- What every connection keeps: a change not yet persisted holds the binding, and a reason kept is one that stays. -/
structure Quiet (c : Connection) : Prop where
  pending : c.persistPending = true → c.active = false
  held : ∀ cause, c.held = some cause → cause.stays = true
  kept : c.held ≠ none → c.phase = none ∨ ∃ cause, c.phase = some (.unavailable cause) ∧ cause.stays = true
  served : ∀ phase, c.phase = some phase → phase.isServable = true → c.onceServable = true

section
variable {c c' : Connection} {cause : UnavailableCause}

theorem retries_of_stays (stays : cause.stays = true) : cause.retriesAutomatically = false := by
  simp only [UnavailableCause.stays, Bool.and_eq_true, Bool.not_eq_true'] at stays
  exact stays.1

theorem active_of_unavailable (phase : c.phase = some (.unavailable cause)) :
    c.active = cause.retriesAutomatically := by
  simp [active, phase]

theorem Quiet.unheld (quiet : Quiet c) (active : c.active = true) : c.held = none := by
  by_contra some_
  rcases quiet.kept some_ with none_ | ⟨cause, phase, stays⟩
  · simp [Connection.active, none_] at active
  · rw [active_of_unavailable phase, retries_of_stays stays] at active
    cases active

theorem quiet_new (gate : Gate) (onceServable : Bool) : Quiet (new gate onceServable) where
  pending _ := rfl
  held cause held := by cases held
  kept held := absurd rfl held
  served phase here := by cases here

/-- What does not touch the phase, the pending writes or the reason kept keeps a connection quiet. -/
theorem Quiet.of_same (quiet : Quiet c) (phase : c'.phase = c.phase) (held : c'.held = c.held ∨ c'.held = none)
    (pending : c'.persistPending = true → c.persistPending = true)
    (once : c.onceServable = true → c'.onceServable = true) : Quiet c' where
  pending now := by
    have before := quiet.pending (pending now)
    simpa [active, phase] using before
  held cause here := by
    rcases held with same | gone
    · exact quiet.held cause (same ▸ here)
    · rw [gone] at here
      cases here
  kept some_ := by
    rcases held with same | gone
    · simpa [phase] using quiet.kept (same ▸ some_)
    · exact absurd gone some_
  served p here servable := once (quiet.served p (phase ▸ here) servable)

/-- To `unavailable` for a reason that stays, or for one that the pending writes allow. -/
theorem quiet_fail (held : ∀ kept, c.held = some kept → kept.stays = true)
    (allowed : cause.stays = true ∨
      c.held = none ∧ (c.persistPending = true → cause.retriesAutomatically = false)) :
    Quiet (c.fail cause) where
  pending now := by
    rw [active_of_unavailable rfl]
    rcases allowed with stays | ⟨-, pending⟩
    · exact retries_of_stays stays
    · exact pending now
  held := held
  kept some_ := by
    rcases allowed with stays | ⟨gone, -⟩
    · exact .inr ⟨cause, rfl, stays⟩
    · exact absurd gone some_
  served phase here servable := by
    cases here
    cases servable

theorem startLoading_cases (c : Connection) :
    (∃ cause, c.held = some cause ∧ c.startLoading.1 = c.fail cause) ∨
    (c.held = none ∧ c.persistPending = true ∧ c.startLoading.1 = c.fail .localStorage) ∨
    (c.held = none ∧ c.persistPending = false ∧
      c.startLoading.1 = { c.newRound with phase := some .loading }) := by
  unfold startLoading
  cases held : c.held with
  | some cause => exact .inl ⟨cause, rfl, rfl⟩
  | none =>
    cases pending : c.persistPending with
    | true => exact .inr (.inl ⟨rfl, rfl, rfl⟩)
    | false => exact .inr (.inr ⟨rfl, rfl, rfl⟩)

theorem quiet_startLoading (held : ∀ kept, c.held = some kept → kept.stays = true) :
    Quiet c.startLoading.1 := by
  rcases c.startLoading_cases with ⟨cause, here, same⟩ | ⟨gone, -, same⟩ | ⟨gone, settled, same⟩
  · rw [same]
    exact quiet_fail held (.inl (held cause here))
  · rw [same]
    exact quiet_fail held (.inr ⟨gone, fun _ => rfl⟩)
  rw [same]
  constructor
  · intro pending
    have unsettled : c.persistPending = true := pending
    rw [settled] at unsettled
    cases unsettled
  · exact held
  · exact fun some_ => absurd gone some_
  · intro phase here servable
    cases here
    cases servable

theorem Quiet.leave (quiet : Quiet c) : Quiet c.leave where
  pending _ := rfl
  held cause here := by
    have kept : ∀ kept, c.held = some kept → kept.stays = true := quiet.held
    simp only [Connection.leave, newRound] at here
    cases phase : c.phase with
    | none => exact kept cause (by simpa [phase] using here)
    | some p =>
      cases p with
      | unavailable was =>
        simp only [phase] at here
        split at here
        · exact kept cause here
        cases here
        rename_i neither
        push Not at neither
        simp [UnavailableCause.stays, neither]
      | loading | ready | degraded servable => exact kept cause (by simpa [phase] using here)
  kept _ := .inl rfl
  served phase here := by cases here

@[simp] theorem release_phase (c : Connection) (cause : UnavailableCause) : (c.release cause).phase = c.phase := by
  unfold Connection.release
  split <;> rfl

theorem Quiet.release (quiet : Quiet c) (cause : UnavailableCause) : Quiet (c.release cause) := by
  unfold Connection.release
  split
  · exact quiet.of_same rfl (.inr rfl) id id
  · exact quiet

theorem confirm_pending (g : Gate) (value : Generation)
    (pending : (g.confirm value).1.generationPending = true) : g.generationPending = true := by
  unfold Gate.confirm at pending
  split at pending
  · exact pending
  case isFalse current =>
    push Not at current
    simp [Gate.generationPending, current.1] at pending

theorem Quiet.leaveLocalStorage (quiet : Quiet c) : Quiet c.leaveLocalStorage.1 := by
  unfold Connection.leaveLocalStorage
  split
  · exact quiet_startLoading quiet.held
  · exact quiet

theorem Shift.quiet {drive : Drive} (quiet : Quiet c) (shift : Shift drive c c') : Quiet c' := by
  cases shift with
  | kept => exact quiet
  | calls gate same =>
    refine quiet.of_same rfl (.inl rfl) (fun pending => ?_) id
    simpa only [persistPending, same] using pending
  | sent next _ => exact quiet.of_same rfl (.inl rfl) id id
  | moved phase seq _ active settled once =>
    have unheld := quiet.unheld active
    constructor
    · intro pending
      have unsettled : c.persistPending = true := pending
      rw [settled] at unsettled
      cases unsettled
    · exact quiet.held
    · exact fun some_ => absurd unheld some_
    · intro p here servable
      cases here
      exact once servable
  | first seq _ active settled =>
    exact quiet_fail quiet.held (.inr ⟨quiet.unheld active, fun _ => rfl⟩)
  | failed cause active =>
    refine quiet_fail quiet.held (.inr ⟨quiet.unheld active, fun pending => ?_⟩)
    rw [quiet.pending pending] at active
    cases active
  | loading _ => exact quiet_startLoading quiet.held
  | revoked kind phase third here =>
    have held : ∀ kept, c.invalidate.1.held = some kept → kept.stays = true := quiet.held
    unfold Access.revoke
    split
    · exact quiet_fail held (.inl rfl)
    split
    · split
      · exact quiet_startLoading held
      case isFalse stuck =>
        constructor
        · intro _
          show c.active = false
          rw [active_of_unavailable here]
          simpa using stuck
        · exact held
        · exact quiet.kept
        · exact quiet.served
    · exact quiet_fail held (.inl rfl)
    · exact quiet_fail held (.inl rfl)
    · exact quiet_startLoading held
  | left _ _ => exact quiet.leave
  | aborted _ _ =>
    -- out of the connection phase the pending generation asks nothing
    have left : c.invalidate.1.leave = { c.leave with gate := c.gate.invalidate.1 } := rfl
    have apart := quiet.leave
    rw [left]
    exact ⟨fun _ => rfl, apart.held, apart.kept, apart.served⟩
  | relogged _ =>
    unfold Connection.relogin
    dsimp only
    split <;> exact (Quiet.release (by first | exact quiet.leave | exact quiet) _).release _
  | retried _ =>
    have let_ : Quiet c.releaseAll := quiet.of_same rfl (.inr rfl) id id
    unfold Connection.retry
    dsimp only
    split
    · split
      · exact let_
      · exact quiet_startLoading let_.held
    · exact let_
  | generation value _ =>
    have confirmed : Quiet { c with gate := (c.gate.confirm value).1 } := by
      refine quiet.of_same rfl (.inl rfl) (fun pending => ?_) id
      rcases Bool.or_eq_true_iff.mp pending with generation | once
      · exact Bool.or_eq_true_iff.mpr (.inl (confirm_pending _ _ generation))
      · exact Bool.or_eq_true_iff.mpr (.inr once)
    exact confirmed.leaveLocalStorage
  | servable _ =>
    unfold confirmOnceServable
    split
    · have confirmed : Quiet { c with onceServable := true, onceServablePending := false } := by
        refine quiet.of_same rfl (.inl rfl) (fun pending => ?_) fun _ => rfl
        rcases Bool.or_eq_true_iff.mp pending with generation | once
        · exact Bool.or_eq_true_iff.mpr (.inl generation)
        · cases once
      exact confirmed.leaveLocalStorage
    · exact quiet

/-- A reason that does not retry by itself gives way to another such reason, to leaving, which keeps it,
and to what lets it go; `local_storage` also to its last write's confirmation. -/
theorem Shift.stuck {drive : Drive} (quiet : Quiet c) (shift : Shift drive c c')
    (phase : c.phase = some (.unavailable cause)) (stuck : cause.retriesAutomatically = false) :
    (∃ other, c'.phase = some (.unavailable other) ∧ other.retriesAutomatically = false) ∨
    (drive = .leaving ∧ c'.phase = none ∧ (cause ≠ .localStorage → c'.held = some cause)) ∨
    (drive = .letting ∧ cause ≠ .localStorage) ∨
    (drive = .confirming ∧ cause = .localStorage ∧ c'.phase = some .loading ∧ c'.persistPending = false) := by
  have inactive : c.active = false := (active_of_unavailable phase).trans stuck
  have stored : cause = .localStorage → c.held = none := by
    rintro rfl
    by_contra some_
    rcases quiet.kept some_ with none_ | ⟨other, here, stays⟩
    · rw [phase] at none_
      cases none_
    rw [phase] at here
    cases here
    cases stays
  have confirming : ∀ {d : Connection}, d.phase = c.phase → d.held = c.held →
      (∃ other, d.leaveLocalStorage.1.phase = some (.unavailable other) ∧ other.retriesAutomatically = false) ∨
      (cause = .localStorage ∧ d.leaveLocalStorage.1.phase = some .loading ∧
        d.leaveLocalStorage.1.persistPending = false) := by
    intro d samePhase sameHeld
    unfold Connection.leaveLocalStorage
    split
    case isTrue here =>
      have same : cause = .localStorage := by
        rw [samePhase, phase] at here
        cases here
        rfl
      rcases d.startLoading_cases with ⟨other, held, -⟩ | ⟨-, -, loading⟩ | ⟨-, settled, loading⟩
      · rw [sameHeld, stored same] at held
        cases held
      · exact .inl ⟨.localStorage, by rw [loading]; rfl, rfl⟩
      · exact .inr ⟨same, by rw [loading], by rw [loading]; exact settled⟩
    case isFalse => exact .inl ⟨cause, samePhase.trans phase, stuck⟩
  have same : ∀ {d : Connection}, d.phase = c.phase →
      ∃ other, d.phase = some (.unavailable other) ∧ other.retriesAutomatically = false :=
    fun samePhase => ⟨cause, samePhase.trans phase, stuck⟩
  cases shift with
  | kept | calls gate pending | sent next _ => exact .inl (same rfl)
  | moved p seq _ active => simp [inactive] at active
  | first seq _ active _ => simp [inactive] at active
  | failed other active => simp [inactive] at active
  | loading free => simp [inactive, phase] at free
  | revoked kind p third here =>
    refine .inl ?_
    obtain rfl : ConnectionPhase.unavailable cause = p := Option.some.inj (phase.symm.trans here)
    unfold Access.revoke
    split
    · exact ⟨.accessRevoked, rfl, rfl⟩
    cases kind with
    | signal => exact ⟨.accessRevoked, rfl, rfl⟩
    | narrowing =>
      simp only [stuck, Bool.false_eq_true, if_false]
      exact same rfl
  | left _ out => simp [phase] at out
  | aborted leaving _ =>
    refine .inr (.inl ⟨leaving, rfl, fun kept => ?_⟩)
    simp [Connection.leave, Connection.invalidate, newRound, phase, stuck, kept]
  | relogged letting =>
    by_cases local_ : cause = .localStorage
    · refine .inl ⟨cause, ?_, stuck⟩
      subst local_
      simp [Connection.relogin, phase]
    · exact .inr (.inr (.inl ⟨letting, local_⟩))
  | retried letting =>
    by_cases local_ : cause = .localStorage
    · refine .inl ⟨cause, ?_, stuck⟩
      simp [Connection.retry, phase, local_, Connection.releaseAll]
    · exact .inr (.inr (.inl ⟨letting, local_⟩))
  | generation value drive =>
    rcases confirming (d := { c with gate := (c.gate.confirm value).1 }) rfl rfl with kept | ⟨local_, loading⟩
    · exact .inl kept
    · exact .inr (.inr (.inr ⟨drive, local_, loading⟩))
  | servable drive =>
    unfold confirmOnceServable
    split
    · rcases confirming (d := { c with onceServable := true, onceServablePending := false }) rfl rfl with
        kept | ⟨local_, loading⟩
      · exact .inl kept
      · exact .inr (.inr (.inr ⟨drive, local_, loading⟩))
    · exact .inl (same rfl)

theorem Shift.waiting {drive : Drive} (shift : Shift drive c c') (out : c.phase = none)
    (held : c.held = some cause) :
    (c'.phase = none ∧ c'.held = some cause) ∨ c'.phase = some (.unavailable cause) ∨ drive = .letting := by
  have inactive : c.active = false := by simp [active, out]
  have back : ∀ {d : Connection}, d.phase = none → d.held = some cause →
      (d.leaveLocalStorage.1.phase = none ∧ d.leaveLocalStorage.1.held = some cause) := by
    intro d none_ same
    simp [Connection.leaveLocalStorage, none_, same]
  cases shift with
  | kept | calls gate pending | sent next _ => exact .inl ⟨out, held⟩
  | moved p seq _ active => simp [inactive] at active
  | first seq _ active _ => simp [inactive] at active
  | failed other active => simp [inactive] at active
  | loading _ =>
    refine .inr (.inl ?_)
    simp [startLoading, held, Connection.fail]
  | revoked kind p third here => simp [out] at here
  | left _ _ => exact .inl ⟨rfl, by simp [Connection.leave, newRound, out, held]⟩
  | aborted _ inside => exact absurd out inside
  | relogged letting | retried letting => exact .inr (.inr letting)
  | generation value _ => exact .inl (back out held)
  | servable _ =>
    unfold confirmOnceServable
    split
    · exact .inl (back out held)
    · exact .inl ⟨out, held⟩

theorem Shift.served {drive : Drive} (shift : Shift drive c c') {phase : ConnectionPhase}
    (here : c'.phase = some phase) (servable : phase.isServable = true) :
    c'.phase = c.phase ∨ drive = .probing := by
  have failed : ∀ {d : Connection} {cause : UnavailableCause}, (d.fail cause).phase ≠ some phase := by
    intro d cause same
    cases same
    cases servable
  have loading : ∀ {d : Connection}, d.startLoading.1.phase ≠ some phase := by
    intro d same
    rcases d.startLoading_cases with ⟨cause, -, loads⟩ | ⟨-, -, loads⟩ | ⟨-, -, loads⟩
    · exact failed (loads ▸ same)
    · exact failed (loads ▸ same)
    rw [loads] at same
    cases same
    cases servable
  have stored : ∀ {d : Connection}, d.phase = c.phase → d.leaveLocalStorage.1.phase = some phase →
      d.leaveLocalStorage.1.phase = c.phase := by
    intro d same
    unfold Connection.leaveLocalStorage
    split
    · exact fun now => absurd now loading
    · exact fun _ => same
  cases shift with
  | kept | calls gate pending | sent next _ => exact .inl rfl
  | moved p seq probing => exact .inr probing
  | first seq probing => exact .inr probing
  | failed other _ => exact absurd here failed
  | loading _ => exact absurd here loading
  | revoked =>
    unfold Access.revoke at here ⊢
    split at here
    · exact absurd here failed
    rename_i first
    rw [if_neg first]
    split at here
    · split at here
      · exact absurd here loading
      rename_i stays
      rw [if_neg stays]
      exact .inl rfl
    · exact absurd here failed
    · exact absurd here failed
    · exact absurd here loading
  | left _ _ | aborted _ _ => cases here
  | relogged _ =>
    unfold Connection.relogin at here ⊢
    dsimp only at here ⊢
    rw [release_phase, release_phase] at here ⊢
    split at here
    · cases here
    · cases here
    · exact .inl (by simp_all)
  | retried _ =>
    unfold Connection.retry at here ⊢
    dsimp only at here ⊢
    split at here
    · split at here
      · exact .inl (by simp_all [releaseAll])
      · exact absurd here loading
    · exact .inl (by simp_all [releaseAll])
  | generation value _ => exact .inl (stored rfl here)
  | servable _ =>
    unfold confirmOnceServable at here ⊢
    split at here
    case isTrue pending =>
      rw [if_pos pending]
      exact .inl (stored rfl here)
    case isFalse settled =>
      rw [if_neg settled]
      exact .inl rfl

/-- The counters only grow, silently no result is applied, and servable once is for good. -/
structure Advances (silent : Prop) (c c' : Connection) : Prop where
  probes : c.nextProbe ≤ c'.nextProbe
  rounds : c.round.number ≤ c'.round.number
  applied : silent → c'.appliedProbe = c.appliedProbe
  ever : c.everServable = true → c'.everServable = true

variable {silent : Prop}

theorem Advances.refl (c : Connection) : Advances silent c c := ⟨Nat.le_refl _, Nat.le_refl _, fun _ => rfl, id⟩

theorem Advances.trans {c'' : Connection} (first : Advances silent c c') (second : Advances silent c' c'') :
    Advances silent c c'' :=
  ⟨first.probes.trans second.probes, first.rounds.trans second.rounds,
    fun quiet => (second.applied quiet).trans (first.applied quiet), second.ever ∘ first.ever⟩

section
variable (c : Connection)

theorem advances_fail (cause : UnavailableCause) : Advances silent c (c.fail cause) :=
  ⟨Nat.le_refl _, Nat.le_succ _, fun _ => rfl, id⟩

theorem advances_startLoading : Advances silent c c.startLoading.1 := by
  rcases c.startLoading_cases with ⟨cause, -, same⟩ | ⟨-, -, same⟩ | ⟨-, -, same⟩
  · exact same ▸ advances_fail ..
  · exact same ▸ advances_fail ..
  · exact same ▸ ⟨Nat.le_refl _, Nat.le_succ _, fun _ => rfl, id⟩

theorem advances_leave : Advances silent c c.leave := ⟨Nat.le_refl _, Nat.le_succ _, fun _ => rfl, id⟩

theorem advances_invalidate : Advances silent c c.invalidate.1 :=
  ⟨Nat.le_refl _, Nat.le_refl _, fun _ => rfl, id⟩

theorem advances_release (cause : UnavailableCause) : Advances silent c (c.release cause) := by
  unfold Connection.release
  split
  · exact ⟨Nat.le_refl _, Nat.le_refl _, fun _ => rfl, id⟩
  · exact .refl c

theorem advances_leaveLocalStorage : Advances silent c c.leaveLocalStorage.1 := by
  unfold Connection.leaveLocalStorage
  split
  · exact advances_startLoading c
  · exact .refl c

theorem advances_revoke (kind : Revocation) (phase : ConnectionPhase) (third : Bool) :
    Advances silent c (Access.revoke c kind phase third) := by
  unfold Access.revoke
  split
  · exact advances_fail ..
  split
  · split
    · exact advances_startLoading c
    · exact .refl c
  · exact advances_fail ..
  · exact advances_fail ..
  · exact advances_startLoading c

theorem revoke_gate (kind : Revocation) (phase : ConnectionPhase) (third : Bool) :
    (Access.revoke c kind phase third).gate = c.gate := by
  have loading : c.startLoading.1.gate = c.gate := by
    rcases c.startLoading_cases with ⟨cause, -, same⟩ | ⟨-, -, same⟩ | ⟨-, -, same⟩ <;> rw [same] <;> rfl
  unfold Access.revoke
  split
  · rfl
  split
  · split
    · exact loading
    · rfl
  · rfl
  · rfl
  · exact loading

end

theorem Shift.advances {drive : Drive} (shift : Shift drive c c') : Advances (drive ≠ .probing) c c' := by
  cases shift with
  | kept => exact .refl c
  | calls gate _ => exact ⟨Nat.le_refl _, Nat.le_refl _, fun _ => rfl, id⟩
  | sent next more => exact ⟨more, Nat.le_refl _, fun _ => rfl, id⟩
  | moved p seq probing _ _ _ =>
    exact ⟨Nat.le_refl _, Nat.le_refl _, fun silent => absurd probing silent, id⟩
  | first seq probing _ _ =>
    refine ⟨Nat.le_refl _, Nat.le_succ _, fun silent => absurd probing silent, fun _ => ?_⟩
    exact Bool.or_true _
  | failed cause _ => exact advances_fail ..
  | loading _ => exact advances_startLoading c
  | revoked => exact (advances_invalidate c).trans (advances_revoke ..)
  | left _ _ => exact advances_leave c
  | aborted _ _ => exact (advances_invalidate c).trans (advances_leave _)
  | relogged _ =>
    unfold Connection.relogin
    dsimp only
    split
    · exact ((advances_leave c).trans (advances_release ..)).trans (advances_release ..)
    · exact ((advances_leave c).trans (advances_release ..)).trans (advances_release ..)
    · exact (advances_release ..).trans (advances_release ..)
  | retried _ =>
    have let_ : Advances (drive ≠ .probing) c c.releaseAll := ⟨Nat.le_refl _, Nat.le_refl _, fun _ => rfl, id⟩
    unfold Connection.retry
    dsimp only
    split
    · split
      · exact let_
      · exact let_.trans (advances_startLoading _)
    · exact let_
  | generation value _ =>
    have confirmed : Advances (drive ≠ .probing) c { c with gate := (c.gate.confirm value).1 } :=
      ⟨Nat.le_refl _, Nat.le_refl _, fun _ => rfl, id⟩
    exact confirmed.trans (advances_leaveLocalStorage _)
  | servable _ =>
    unfold confirmOnceServable
    split
    · have confirmed : Advances (drive ≠ .probing) c { c with onceServable := true, onceServablePending := false } :=
        ⟨Nat.le_refl _, Nat.le_refl _, fun _ => rfl, fun _ => rfl⟩
      exact confirmed.trans (advances_leaveLocalStorage _)
    · exact .refl c

end

theorem active_of_loading {c : Connection} (loading : c.phase = some .loading) : c.active = true := by
  simp [active, loading]

theorem Shift.reloading {drive : Drive} {c c' : Connection} (allowed : c.active = true ∨ c.phase = none)
    (same : c' = c.startLoading.1) : Shift drive c c' := same ▸ .loading allowed

end Connection

namespace Access
open Connection
variable {drive : Drive} (a : Access) (now : Instant)

theorem revocation_shift (kind : Revocation) : Shift drive a.connection (a.revocation kind now).1.connection := by
  unfold revocation
  cases phase : a.connection.phase with
  | none => exact .kept
  | some p => exact .revoked kind p _ phase

theorem rejected_shift (active : a.connection.active = true) : Shift drive a.connection a.rejected.1.connection :=
  .failed _ active

theorem renewalFailed_shift : Shift drive a.connection a.renewalFailed.1.connection := by
  unfold renewalFailed
  dsimp only
  split
  case isTrue active => exact .failed _ active
  case isFalse => exact .kept

theorem adopt_shift : Shift drive a.connection a.adopt.connection := by
  unfold adopt
  dsimp only
  split
  case isTrue both =>
    exact .loading (.inl (Bool.and_eq_true_iff.mp both).2)
  case isFalse => exact .kept

theorem active_of_excepted {a : Access} (excepted : a.excepted = true) : a.connection.active = true := by
  unfold Access.excepted at excepted
  simp only [Bool.and_eq_true, decide_eq_true_eq] at excepted
  exact active_of_loading excepted.2

theorem issue_connection : a.issue.1.connection = a.connection := by
  unfold issue
  dsimp only
  split <;> rfl

theorem issued_shift (ticket : Issuance) (answer : Issued) :
    Shift drive a.connection (a.issued ticket answer now).1.connection := by
  unfold issued
  dsimp only
  split
  · exact .kept
  let taken : Access := { a with credentials := { a.credentials with issuing := none } }
  cases answer with
  | granted narrowed =>
    cases narrowed with
    | false => exact taken.adopt_shift
    | true => exact taken.revocation_shift now .narrowing
  | otherPrincipal => exact .kept
  | refused =>
    dsimp only
    split
    · exact taken.renewalFailed_shift
    split
    case isTrue excepted => exact taken.rejected_shift (active_of_excepted (a := taken) excepted)
    case isFalse => exact taken.revocation_shift now .signal
  | revoked => exact taken.revocation_shift now .signal
  | unreachable =>
    dsimp only
    split
    case isTrue active => exact .failed _ active
    case isFalse => exact .kept

theorem invalid_shift : Shift drive a.connection (a.invalid now).1.connection := by
  unfold invalid
  by_cases active : a.connection.active = true
  · simp only [active, not_true, if_false]
    split
    · exact renewalFailed_shift { a with
        credentials := { a.credentials with invalids := (a.credentials.invalids.record now).1 } }
    · exact .loading (.inl active)
  · simp only [active]
    exact .kept

theorem response_shift (credential : CredentialId) (signal : Signal) :
    Shift drive a.connection (a.response credential signal now).1.connection := by
  unfold response
  cases a.credentials.current.filter fun c => decide (c.1 = credential) with
  | none => exact .kept
  | some held =>
    cases signal with
    | revoked =>
      dsimp only
      split
      case isTrue both => exact a.rejected_shift (active_of_excepted both.1)
      case isFalse => exact a.revocation_shift now .signal
    | expired =>
      dsimp only
      split <;> exact .kept
    | invalid => exact a.invalid_shift now

structure Issues (a a' : Access) (sent : Option Issuance) : Prop where
  revoked : a.credentials.revokedBefore = true → a'.credentials.revokedBefore = true
  kept : sent = none → (a'.credentials.issuing = none ∨ a'.credentials.issuing = a.credentials.issuing) ∧
    a'.credentials.nextIssuance = a.credentials.nextIssuance
  sent : ∀ i, sent = some i → i.seq = a.credentials.nextIssuance ∧
    a'.credentials.nextIssuance = a.credentials.nextIssuance + 1 ∧
    a'.credentials.issuing = some i ∧ i.round = a'.connection.round

section
variable {a a' : Access}

theorem Issues.of_credentials (same : a'.credentials = a.credentials) : Issues a a' none :=
  ⟨fun revoked => by rw [same]; exact revoked, fun _ => ⟨.inr (by rw [same]), by rw [same]⟩, nofun⟩

theorem Issues.silent (revoked : a.credentials.revokedBefore = true → a'.credentials.revokedBefore = true)
    (issuing : a'.credentials.issuing = none ∨ a'.credentials.issuing = a.credentials.issuing)
    (next : a'.credentials.nextIssuance = a.credentials.nextIssuance) : Issues a a' none :=
  ⟨revoked, fun _ => ⟨issuing, next⟩, nofun⟩

section
variable (a : Access)

theorem ticket_issues (afterInvalid : Bool) :
    Issues a (a.ticket afterInvalid).1 (some (a.ticket afterInvalid).2) := by
  refine ⟨id, nofun, fun i same => ?_⟩
  cases same
  exact ⟨rfl, rfl, rfl, rfl⟩

theorem issue_issues : Issues a a.issue.1 a.issue.2 := by
  unfold issue
  dsimp only
  split
  · exact .of_credentials rfl
  · exact a.ticket_issues _

theorem revocation_issues (kind : Revocation) (now : Instant) :
    Issues a (a.revocation kind now).1 none := by
  unfold revocation
  split <;> exact .silent (fun _ => rfl) (.inl rfl) rfl

theorem renewalFailed_issues : Issues a a.renewalFailed.1 none := by
  unfold renewalFailed
  dsimp only
  split <;> exact .silent id (.inr rfl) rfl

theorem issued_issues (ticket : Issuance) (answer : Issued) (now : Instant) :
    Issues a (a.issued ticket answer now).1 none := by
  have taken : ∀ {a' : Access},
      Issues { a with credentials := { a.credentials with issuing := none } } a' none → Issues a a' none := by
    intro a' issues
    refine .silent issues.revoked (.inl ?_) (issues.kept rfl).2
    rcases (issues.kept rfl).1 with none_ | same
    · exact none_
    · exact same
  unfold issued
  dsimp only
  split
  · exact .of_credentials rfl
  refine taken ?_
  cases answer with
  | granted narrowed =>
    cases narrowed with
    | false => exact .silent id (.inr rfl) rfl
    | true => exact revocation_issues ..
  | otherPrincipal => exact .of_credentials rfl
  | refused =>
    dsimp only
    split
    · exact renewalFailed_issues _
    split
    · exact .silent id (.inr rfl) rfl
    · exact revocation_issues ..
  | revoked => exact revocation_issues ..
  | unreachable =>
    dsimp only
    split <;> exact .silent id (.inr rfl) rfl

def renewal : Outcome → Option Issuance
  | .done effects => effects.renew
  | _ => none

theorem renewal_revocation (kind : Revocation) (now : Instant) :
    renewal (a.revocation kind now).2 = none := by
  unfold revocation
  split <;> rfl

theorem invalid_issues (now : Instant) :
    Issues a (a.invalid now).1 (renewal (a.invalid now).2) := by
  unfold invalid
  split
  · exact .of_credentials rfl
  dsimp only
  split
  · have failed := renewalFailed_issues { a with
      credentials := { a.credentials with invalids := (a.credentials.invalids.record now).1 } }
    exact .silent failed.revoked (failed.kept rfl).1 (failed.kept rfl).2
  · exact .silent id (.inr rfl) rfl

theorem response_issues (credential : CredentialId) (signal : Signal) (now : Instant) :
    Issues a (a.response credential signal now).1 (renewal (a.response credential signal now).2) := by
  unfold response
  cases a.credentials.current.filter fun c => decide (c.1 = credential) with
  | none => cases signal <;> exact .of_credentials rfl
  | some held =>
    cases signal with
    | revoked =>
      dsimp only
      split
      · exact .silent id (.inr rfl) rfl
      · rw [renewal_revocation]
        exact revocation_issues ..
    | expired =>
      dsimp only
      split
      · exact .of_credentials rfl
      · exact a.ticket_issues false
    | invalid => exact a.invalid_issues now

theorem response_revoked_issues (credential : CredentialId) (now : Instant) :
    Issues a (a.response credential .revoked now).1 none := by
  have issues := a.response_issues credential .revoked now
  have silent : renewal (a.response credential .revoked now).2 = none := by
    unfold response
    cases a.credentials.current.filter fun c => decide (c.1 = credential) with
    | none => rfl
    | some held =>
      dsimp only
      split
      · rfl
      · exact a.renewal_revocation .signal now
  rwa [silent] at issues

end

end

end Access

namespace BindingState
open Connection
variable {K : Type} {drive : Drive} (b : BindingState K) (now : Instant)

@[simp] theorem ruled_access {T : Type} (value : T) (placeholder : Bool) :
    (b.ruled value placeholder).1.toAccess = b.toAccess := by
  unfold ruled
  split <;> rfl

@[simp] theorem ruledOutcome_access (out : Access × Outcome) : (b.ruledOutcome out).1.toAccess = out.1 :=
  ruled_access ..

theorem ruled_value {T : Type} (value : T) (placeholder : Bool) : (b.ruled value placeholder).2.value = value := by
  unfold ruled
  split <;> rfl

theorem ruledOutcome_value (out : Access × Outcome) : (b.ruledOutcome out).2.value = out.2 := ruled_value ..

theorem leave_shift (event : Leave) : Shift .leaving b.connection (b.leave event).1.connection := by
  unfold leave
  split
  · rw [ruled_access]
    exact .kept
  rw [ruled_access]
  cases phase : b.connection.phase with
  | none => exact .left rfl phase
  | some p => exact .aborted rfl (by simp [phase])

theorem issued_shift (ticket : Issuance) (answer : Issued) :
    Shift drive b.connection (b.issued ticket answer now).1.connection := by
  rw [issued, ruledOutcome_access]
  exact b.toAccess.issued_shift now ticket answer

theorem revoke_shift : Shift drive b.connection (b.revoke now).1.connection := by
  rw [revoke, ruledOutcome_access]
  exact b.toAccess.revocation_shift now .signal

theorem relogin_shift : Shift .letting b.connection b.relogin.connection := .relogged rfl

theorem activate_shift (how : Activation) :
    Shift (match how with | .reselect => .other | .relogin => .letting) b.connection
      (b.activate how).connection := by
  cases how with
  | reselect => exact .kept
  | relogin => exact .relogged rfl

theorem connect_shift (switches : Switches) : Shift drive b.connection (b.connect switches).1.connection := by
  unfold connect
  split
  case isTrue => exact .kept
  case isFalse free =>
    push Not at free
    exact .loading (.inr (by simpa using free.2.2.2.2))

theorem probe_shift : Shift drive b.connection b.probe.1.connection := by
  unfold probe Connection.probe
  split
  · exact .kept
  dsimp only
  split
  · exact .sent _ (Nat.le_succ _)
  · exact .kept

theorem backoff_shift : Shift drive b.connection b.backoff.1.connection := by
  unfold backoff
  cases phase : b.connection.phase with
  | none => exact .kept
  | some p =>
    cases p with
    | unavailable cause =>
      dsimp only
      split
      case isTrue retries =>
        have active : b.connection.active = true := by simp [active, phase, retries]
        split
        · exact b.probe_shift
        split
        · exact .loading (.inl active)
        · refine .reloading (.inl active) ?_
          exact Access.issue_connection _
      case isFalse => exact .kept
    | loading | ready | degraded servable => exact .kept

theorem retry_connection : b.retry.1.connection = b.connection.retry := by
  unfold retry Connection.retry
  cases phase : b.connection.phase with
  | none => simp [releaseAll, phase]
  | some p => cases p <;> simp [releaseAll, phase]; split <;> rfl

theorem sidecar_shift (sidecar : Sidecar) :
    Shift (match sidecar with | .starting => .letting | _ => .other) b.connection
      (b.sidecar sidecar).1.connection := by
  have down : Shift .other b.connection
      (if b.connection.active then { b with connection := b.connection.fail .dependency } else b).connection := by
    split
    case isTrue active => exact .failed _ active
    case isFalse => exact .kept
  cases sidecar with
  | starting =>
    show Shift .letting b.connection b.retry.1.connection
    rw [retry_connection]
    exact .retried rfl
  | ready | healthy => exact .kept
  | degraded | failed | stopping | stopped => exact down

theorem leave_issues (event : Leave) : Access.Issues b.toAccess (b.leave event).1.toAccess none := by
  unfold leave
  split
  · rw [ruled_access]
    exact .of_credentials rfl
  · rw [ruled_access]
    exact .silent id (.inr rfl) rfl

theorem probe_sent (ticket : ProbeTicket) (sent : b.probe.2 = some ticket) :
    ticket.seq = b.connection.nextProbe ∧ b.probe.1.connection.nextProbe = b.connection.nextProbe + 1 ∧
      ticket.round = b.probe.1.connection.round ∧ b.probe.1.credentials = b.credentials ∧
      (∃ id, b.credentials.currentId = some id) ∧ b.connection.persistPending = false := by
  unfold probe Connection.probe at sent ⊢
  split at sent
  · cases sent
  rename_i held
  dsimp only at sent
  split at sent
  · cases sent
    rename_i free
    obtain ⟨id, current⟩ := Option.ne_none_iff_exists'.mp held
    simp [free, Credentials.currentId, current]
  · cases sent

theorem probe_credentials : b.probe.1.credentials = b.credentials := by
  unfold probe
  split <;> rfl

theorem connect_credentials (switches : Switches) : (b.connect switches).1.credentials = b.credentials := by
  unfold connect
  split <;> rfl

theorem retry_credentials : b.retry.1.credentials = b.credentials := by
  unfold retry
  dsimp only
  split
  · split <;> rfl
  · rfl

theorem sidecar_credentials (sidecar : Sidecar) : (b.sidecar sidecar).1.credentials = b.credentials := by
  have down : (if b.connection.active then { b with connection := b.connection.fail .dependency } else b).credentials =
      b.credentials := by
    split <;> rfl
  cases sidecar with
  | starting => exact b.retry_credentials
  | ready | healthy => rfl
  | degraded | failed | stopping | stopped => exact down

theorem backoff_cases :
    (b.backoff.2 = none ∧ Access.Issues b.toAccess b.backoff.1.toAccess none) ∨
    (∃ ticket, b.backoff.2 = some (.probe ticket) ∧ b.backoff.1 = b.probe.1 ∧ b.probe.2 = some ticket) ∨
    ∃ issuance, b.backoff.2 = some (.issue issuance) ∧
      Access.Issues b.toAccess b.backoff.1.toAccess (some issuance) := by
  have same : Access.Issues b.toAccess b.toAccess none := .of_credentials rfl
  unfold backoff
  cases b.connection.phase with
  | none => exact .inl ⟨rfl, same⟩
  | some p =>
    cases p with
    | unavailable cause =>
      dsimp only
      split
      · split
        · cases sent : b.probe.2 with
          | none => exact .inl ⟨rfl, .of_credentials b.probe_credentials⟩
          | some ticket => exact .inr (.inl ⟨ticket, rfl, rfl, rfl⟩)
        · split
          · exact .inl ⟨rfl, .of_credentials rfl⟩
          let loaded : BindingState K := { b with connection := b.connection.startLoading.1 }
          have issues : Access.Issues loaded.toAccess loaded.issue.1.toAccess loaded.issue.2 :=
            Access.issue_issues _
          cases sent : loaded.issue.2 with
          | none =>
            rw [sent] at issues
            exact .inl ⟨rfl, issues.revoked, issues.kept, nofun⟩
          | some issuance =>
            rw [sent] at issues
            exact .inr (.inr ⟨issuance, rfl, issues.revoked, nofun, issues.sent⟩)
      · exact .inl ⟨rfl, same⟩
    | loading | ready | degraded servable => exact .inl ⟨rfl, same⟩

variable [DecidableEq K]

theorem questioned_value (asked : Finset K) : (b.questioned asked).2.value = .recheck := ruled_value ..

@[simp] theorem questioned_access (asked : Finset K) : (b.questioned asked).1.toAccess = b.toAccess :=
  ruled_access ..

section
variable (credential : CredentialId)

theorem response_access (signal : Signal) (asked : Finset K) :
    (b.response credential signal asked now).1.toAccess = (b.toAccess.response credential signal now).1 := by
  unfold response
  dsimp only
  split
  · rw [questioned_access]
  · rw [ruledOutcome_access]

theorem response_value (signal : Signal) (asked : Finset K) :
    (b.response credential signal asked now).2.value = (b.toAccess.response credential signal now).2 := by
  unfold response
  dsimp only
  split
  case isTrue recheck => exact (questioned_value ..).trans recheck.symm
  case isFalse => exact ruledOutcome_value ..

theorem recheckRevoked_access (asked : Finset K) :
    (b.recheckRevoked credential asked now).1.toAccess = (b.toAccess.response credential .revoked now).1 := by
  unfold recheckRevoked
  dsimp only
  split
  · rw [questioned_access]
  · rfl

end

theorem observe_shift (asked : Finset K) (scope : Visibility K) (admitted : Nat) (credential : CredentialId) :
    Shift drive b.connection (b.observe asked scope admitted credential now).1.connection := by
  unfold observe
  dsimp only
  split
  · exact .kept
  · rw [ruledOutcome_access]
    exact b.toAccess.revocation_shift now .narrowing

end BindingState

end Agent24.Provider
