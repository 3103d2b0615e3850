import Agent24.Provider.Shift
import Agent24.Provider.Withheld

/-! One binding over a run of its events, with answers that come back in any order. -/

set_option autoImplicit false
namespace Agent24.Provider
open Library

structure ProbeSent where
  ticket : ProbeTicket
  round : Round
  credential : Option CredentialId
  deriving DecidableEq

structure IssuanceSent where
  issuance : Issuance
  round : Round
  deriving DecidableEq

structure BindingWorld (K : Type) where
  state : BindingState K
  probes : List ProbeSent
  issuances : List IssuanceSent
  applied : List ProbeTicket

inductive BindingMove (K : Type) where
  | connect (switches : Switches)
  | leave (event : Leave)
  | activate (how : Activation)
  | relogin
  | issue
  | issued (sent : IssuanceSent) (answer : Issued) (now : Instant)
  | probe
  | probed (sent : ProbeSent) (result : Probe)
  | response (credential : CredentialId) (signal : Signal) (asked : Finset K) (now : Instant)
  | revoke (now : Instant)
  | observe (asked : Finset K) (scope : Visibility K) (admitted : Nat) (credential : CredentialId) (now : Instant)
  | recheckRevoked (credential : CredentialId) (asked : Finset K) (now : Instant)
  | backoff
  | retry
  | sidecar (sidecar : Sidecar)
  | confirmGeneration (value : Generation)
  | confirmOnceServable
  | openCall
  | send (call : CallId) (requestId : String)
  | finishRequest (call : CallId) (requestId : String)
  | closeCall (call : CallId)
  | evidence (move : EvidenceMove K)

def BindingMove.drive {K : Type} : BindingMove K → Drive
  | .probed _ _ => .probing
  | .leave _ => .leaving
  | .relogin | .retry | .activate .relogin | .sidecar .starting => .letting
  | .confirmGeneration _ | .confirmOnceServable => .confirming
  | _ => .other

namespace BindingWorld
variable {K : Type}

def start (gate : Gate) (onceServable revokedBefore activated : Bool) (evidence : Evidence K) : BindingWorld K :=
  ⟨⟨⟨.new gate onceServable, .new revokedBefore⟩, evidence, activated, false⟩, [], [], []⟩

section
variable (w : BindingWorld K)

def probing (state : BindingState K) (sent : Option ProbeTicket) : BindingWorld K :=
  { w with
    state := state
    probes := (sent.map fun t => ⟨t, state.connection.round, state.credentials.currentId⟩).toList ++ w.probes }

def issuing (state : BindingState K) (sent : Option Issuance) : BindingWorld K :=
  { w with
    state := state
    issuances := (sent.map fun i => ⟨i, state.connection.round⟩).toList ++ w.issuances }

def settled (state : BindingState K) : BindingWorld K := { w with state := state }

def connected (connection : Connection) : BindingWorld K :=
  w.settled { w.state with connection := connection }

end

section
variable [DecidableEq K]

def step (w : BindingWorld K) : BindingMove K → BindingWorld K
  | .connect switches => w.settled (w.state.connect switches).1
  | .leave event => w.settled (w.state.leave event).1
  | .activate how => w.settled (w.state.activate how)
  | .relogin => w.settled w.state.relogin
  | .issue => w.issuing w.state.issue.1 w.state.issue.2
  | .issued sent answer now =>
    if sent ∈ w.issuances then w.settled (w.state.issued sent.issuance answer now).1 else w
  | .probe => w.probing w.state.probe.1 w.state.probe.2
  | .probed sent result =>
    if sent ∈ w.probes then
      let out := w.state.connection.applyProbe sent.ticket result
      { w.connected out.1 with
        applied := if out.2 = .ignored then w.applied else sent.ticket :: w.applied }
    else w
  | .response credential signal asked now =>
    let out := w.state.response credential signal asked now
    w.issuing out.1 (Access.renewal out.2.value)
  | .revoke now => w.settled (w.state.revoke now).1
  | .observe asked scope admitted credential now =>
    w.settled (w.state.observe asked scope admitted credential now).1
  | .recheckRevoked credential asked now => w.settled (w.state.recheckRevoked credential asked now).1
  | .backoff =>
    let out := w.state.backoff
    match out.2 with
    | some (.probe ticket) => w.probing out.1 (some ticket)
    | some (.issue issuance) => w.issuing out.1 (some issuance)
    | none => w.settled out.1
  | .retry => w.settled w.state.retry.1
  | .sidecar sidecar => w.settled (w.state.sidecar sidecar).1
  | .confirmGeneration value => w.connected (w.state.connection.confirmGeneration value).1
  | .confirmOnceServable => w.connected w.state.connection.confirmOnceServable.1
  | .openCall => w.connected w.state.connection.openCall.1
  | .send call requestId => w.connected (w.state.connection.send call requestId).1
  | .finishRequest call requestId => w.connected (w.state.connection.finishRequest call requestId)
  | .closeCall call => w.connected (w.state.connection.closeCall call)
  | .evidence move => w.settled (w.state.withEvidence (w.state.evidence.step move))

-- Its equations, made once for all the proofs below.
section
attribute [local simp] step
end

structure Sound (w : BindingWorld K) : Prop where
  quiet : w.state.connection.Quiet
  probesOrdered : w.probes.Pairwise fun later earlier => earlier.ticket.seq < later.ticket.seq
  probes : ∀ s ∈ w.probes, s.ticket.seq < w.state.connection.nextProbe ∧ s.ticket.round = s.round ∧
    ∃ id, s.credential = some id
  applied : ∀ t ∈ w.applied, ∃ seq, w.state.connection.appliedProbe = some seq ∧ t.seq ≤ seq
  issuancesOrdered : w.issuances.Pairwise fun later earlier => earlier.issuance.seq < later.issuance.seq
  issuances : ∀ s ∈ w.issuances, s.issuance.seq < w.state.credentials.nextIssuance ∧ s.issuance.round = s.round
  flying : ∀ i, w.state.credentials.issuing = some i → i.seq + 1 = w.state.credentials.nextIssuance

end

section
variable {w : BindingWorld K} {state : BindingState K}

theorem sound_start (gate : Gate) (onceServable revokedBefore activated : Bool) (evidence : Evidence K) :
    Sound (start gate onceServable revokedBefore activated evidence) where
  quiet := Connection.quiet_new gate onceServable
  probesOrdered := .nil
  probes _ member := absurd member List.not_mem_nil
  applied _ member := absurd member List.not_mem_nil
  issuancesOrdered := .nil
  issuances _ member := absurd member List.not_mem_nil
  flying i here := by cases here

theorem Sound.issuing (sound : Sound w) (drive : Drive) {sent : Option Issuance}
    (shift : Connection.Shift drive w.state.connection state.connection) (silent : drive ≠ .probing)
    (issues : Access.Issues w.state.toAccess state.toAccess sent) : Sound (w.issuing state sent) := by
  have advances := shift.advances
  refine
    { quiet := shift.quiet sound.quiet
      probesOrdered := sound.probesOrdered
      probes := fun s member => ?_
      applied := fun t member => ?_
      issuancesOrdered := ?_
      issuances := ?_
      flying := ?_ }
  · obtain ⟨below, rest⟩ := sound.probes s member
    exact ⟨Nat.lt_of_lt_of_le below advances.probes, rest⟩
  · show ∃ seq, state.connection.appliedProbe = some seq ∧ t.seq ≤ seq
    rw [advances.applied silent]
    exact sound.applied t member
  · cases sent with
    | none => exact sound.issuancesOrdered
    | some i =>
      obtain ⟨seq, -, -, -⟩ := issues.sent i rfl
      refine List.pairwise_cons.mpr ⟨fun s member => ?_, sound.issuancesOrdered⟩
      show s.issuance.seq < i.seq
      rw [seq]
      exact (sound.issuances s member).1
  · intro s member
    cases sent with
    | none =>
      show s.issuance.seq < state.credentials.nextIssuance ∧ _
      rw [(issues.kept rfl).2]
      exact sound.issuances s member
    | some i =>
      obtain ⟨seq, next, -, round⟩ := issues.sent i rfl
      show s.issuance.seq < state.credentials.nextIssuance ∧ _
      rcases List.mem_cons.mp member with rfl | old
      · refine ⟨?_, round⟩
        show i.seq < _
        omega
      · obtain ⟨below, same⟩ := sound.issuances s old
        exact ⟨by omega, same⟩
  · intro i here
    have held : state.credentials.issuing = some i := here
    show i.seq + 1 = state.credentials.nextIssuance
    cases sent with
    | none =>
      obtain ⟨issuing, next⟩ := issues.kept rfl
      rw [next]
      rcases issuing with none_ | same
      · rw [none_] at held
        cases held
      · exact sound.flying i (same ▸ held)
    | some j =>
      obtain ⟨seq, next, issuing, -⟩ := issues.sent j rfl
      rw [issuing] at held
      cases held
      omega

theorem Sound.probe (sound : Sound w) : Sound (w.probing w.state.probe.1 w.state.probe.2) := by
  have settled : Sound (w.issuing w.state.probe.1 none) :=
    sound.issuing .other w.state.probe_shift nofun (.of_credentials w.state.probe_credentials)
  cases sent : w.state.probe.2 with
  | none => exact settled
  | some ticket =>
    obtain ⟨seq, next, round, credentials, current, -⟩ := w.state.probe_sent ticket sent
    refine { settled with probesOrdered := ?_, probes := ?_ }
    · refine List.pairwise_cons.mpr ⟨fun s member => ?_, sound.probesOrdered⟩
      show s.ticket.seq < ticket.seq
      rw [seq]
      exact (sound.probes s member).1
    · intro s member
      rcases List.mem_cons.mp member with rfl | old
      · refine ⟨?_, round, ?_⟩
        · show ticket.seq < w.state.probe.1.connection.nextProbe
          omega
        · show ∃ id, w.state.probe.1.credentials.currentId = some id
          rw [credentials]
          exact current
      · exact settled.probes s old

theorem applyProbe_cases (c : Connection) (ticket : ProbeTicket) (result : Probe) :
    c.applyProbe ticket result = (c, .ignored) ∨
    (ticket.round = c.round ∧ (∀ seq, c.appliedProbe = some seq → seq < ticket.seq) ∧
      (c.applyProbe ticket result).2 ≠ .ignored ∧
      (c.applyProbe ticket result).1.appliedProbe = some ticket.seq ∧
      (c.applyProbe ticket result).1.nextProbe = c.nextProbe ∧ c.persistPending = false ∧
      Connection.Shift .probing c (c.applyProbe ticket result).1) := by
  unfold Connection.applyProbe
  dsimp only
  split
  · exact .inl rfl
  rename_i taken
  push Not at taken
  obtain ⟨⟨round, newest⟩, active, settled⟩ := taken
  simp only [Bool.not_eq_true] at settled
  have newer : ∀ seq, c.appliedProbe = some seq → seq < ticket.seq := by
    intro seq here
    simpa [here] using newest
  split
  · exact .inr ⟨round, newer, nofun, rfl, rfl, settled, .first ticket.seq rfl active settled⟩
  rename_i served
  push Not at served
  refine .inr ⟨round, newer, nofun, rfl, rfl, settled, .moved _ ticket.seq rfl active settled ?_⟩
  intro servable
  simpa using served servable

theorem Sound.applied_below (sound : Sound w) {seq : Nat}
    (newer : ∀ s, w.state.connection.appliedProbe = some s → s < seq) {t : ProbeTicket} (member : t ∈ w.applied) :
    t.seq < seq := by
  obtain ⟨s, applied, below⟩ := sound.applied t member
  exact Nat.lt_of_le_of_lt below (newer s applied)


/-- Every call in flight is invalidated and no new one admitted; the generation waits to be persisted. -/
structure Aborts (c c' : Connection) : Prop where
  gate : c'.gate = c.gate.invalidate.1
  calls : ∀ call ∈ c'.gate.calls.rows, call.invalidated = true
  closed : c'.gate.admissionOpen = false

/-- The epoch advances and a rule covers every KB's evidence so far. -/
structure PlacesAll (e e' : Evidence K) : Prop where
  rules : e'.rules = e.rules ++ [⟨e.epoch + 1, .all⟩]
  epoch : e'.epoch = e.epoch + 1

def excepted (w : BindingWorld K) : Prop :=
  w.state.connection.phase = some .loading ∧ w.state.connection.everServable = false ∧
    w.state.credentials.revokedBefore = false

theorem excepted_iff (w : BindingWorld K) : w.state.toAccess.excepted = true ↔ w.excepted := by
  simp only [Access.excepted, excepted, Bool.and_eq_true, Bool.not_eq_true', decide_eq_true_eq]
  tauto

theorem placesAll_place (e : Evidence K) : PlacesAll e (e.place .all).1 := ⟨rfl, rfl⟩

theorem ruledOutcome_revocation (b : BindingState K) (a : Access) (kind : Revocation) (now : Instant) :
    ((b.ruledOutcome (a.revocation kind now)).1).evidence = (b.evidence.place .all).1 := by
  unfold Access.revocation
  split <;> rfl

theorem revocation_aborts {a : Access} (kind : Revocation) (now : Instant) (inside : a.connection.phase ≠ none) :
    Aborts a.connection (a.revocation kind now).1.connection := by
  obtain ⟨phase, here⟩ := Option.ne_none_iff_exists'.mp inside
  have gate : (a.revocation kind now).1.connection.gate = a.connection.gate.invalidate.1 := by
    simp only [Access.revocation, here]
    exact Connection.revoke_gate ..
  refine ⟨gate, ?_, ?_⟩
  · rw [gate]
    exact Gate.invalidate_calls _
  · rw [gate]
    exact Gate.invalidate_closed _

theorem revocation_revokedBefore (a : Access) (kind : Revocation) (now : Instant) :
    (a.revocation kind now).1.credentials.revokedBefore = true := by
  unfold Access.revocation
  split <;> rfl

variable [DecidableEq K]

theorem shift_step (w : BindingWorld K) (move : BindingMove K) :
    Connection.Shift move.drive w.state.connection (w.step move).state.connection := by
  have calls : ∀ {drive : Drive} (gate : Gate), gate.generationPending = w.state.connection.gate.generationPending →
      Connection.Shift drive w.state.connection { w.state.connection with gate := gate } :=
    fun gate same => .calls gate same
  cases move with
  | connect switches => exact w.state.connect_shift switches
  | leave event => exact w.state.leave_shift event
  | activate how =>
    have shift := w.state.activate_shift how
    cases how <;> exact shift
  | relogin => exact w.state.relogin_shift
  | issue =>
    show Connection.Shift _ _ w.state.toAccess.issue.1.connection
    rw [Access.issue_connection]
    exact .kept
  | issued sent answer now =>
    simp only [step]
    split
    · exact w.state.issued_shift now sent.issuance answer
    · exact .kept
  | probe => exact w.state.probe_shift
  | probed sent result =>
    simp only [step]
    split
    · rcases applyProbe_cases w.state.connection sent.ticket result with same | ⟨-, -, -, -, -, -, shift⟩
      · rw [same]
        exact .kept
      · exact shift
    · exact .kept
  | response credential signal asked now =>
    show Connection.Shift _ _ (w.state.response credential signal asked now).1.connection
    rw [w.state.response_access]
    exact w.state.toAccess.response_shift now credential signal
  | revoke now => exact w.state.revoke_shift now
  | observe asked scope admitted credential now => exact w.state.observe_shift now asked scope admitted credential
  | recheckRevoked credential asked now =>
    show Connection.Shift _ _ (w.state.recheckRevoked credential asked now).1.connection
    rw [w.state.recheckRevoked_access]
    exact w.state.toAccess.response_shift now credential .revoked
  | backoff =>
    have state : (w.step .backoff).state = w.state.backoff.1 := by
      simp only [step]
      split <;> rfl
    rw [state]
    exact w.state.backoff_shift
  | retry =>
    show Connection.Shift _ _ w.state.retry.1.connection
    rw [w.state.retry_connection]
    exact .retried rfl
  | sidecar sidecar =>
    have shift := w.state.sidecar_shift sidecar
    cases sidecar <;> exact shift
  | confirmGeneration value => exact .generation value rfl
  | confirmOnceServable => exact .servable rfl
  | openCall => exact calls _ (Gate.openCall_pending _)
  | send call requestId => exact calls _ (Gate.send_pending ..)
  | finishRequest call requestId => exact calls _ rfl
  | closeCall call => exact calls _ rfl
  | evidence move => exact .kept

theorem step_cases (w : BindingWorld K) (move : BindingMove K) :
    (∃ sent, w.step move = w.issuing (w.step move).state sent ∧
      Access.Issues w.state.toAccess (w.step move).state.toAccess sent) ∨
    w.step move = w.probing w.state.probe.1 w.state.probe.2 ∨ ∃ sent result, move = .probed sent result := by
  have settled : ∀ {state : BindingState K}, w.step move = w.settled state →
      state.credentials = w.state.credentials →
      ∃ sent, w.step move = w.issuing (w.step move).state sent ∧
        Access.Issues w.state.toAccess (w.step move).state.toAccess sent := by
    intro state same credentials
    rw [same]
    exact ⟨none, rfl, .of_credentials credentials⟩
  cases move with
  | connect switches => exact .inl (settled rfl (w.state.connect_credentials switches))
  | leave event => exact .inl ⟨none, rfl, w.state.leave_issues event⟩
  | activate how => exact .inl (settled rfl (by cases how <;> rfl))
  | relogin => exact .inl (settled rfl rfl)
  | issue => exact .inl ⟨_, rfl, Access.issue_issues _⟩
  | issued sent answer now =>
    simp only [step]
    split
    · refine .inl ⟨none, rfl, ?_⟩
      show Access.Issues _ (w.state.issued sent.issuance answer now).1.toAccess none
      rw [BindingState.issued, BindingState.ruledOutcome_access]
      exact Access.issued_issues ..
    · exact .inl ⟨none, rfl, .of_credentials rfl⟩
  | probe => exact .inr (.inl rfl)
  | probed sent result => exact .inr (.inr ⟨sent, result, rfl⟩)
  | response credential signal asked now =>
    refine .inl ⟨_, rfl, ?_⟩
    show Access.Issues _ (w.state.response credential signal asked now).1.toAccess _
    rw [w.state.response_access, w.state.response_value]
    exact w.state.toAccess.response_issues credential signal now
  | revoke now =>
    refine .inl ⟨none, rfl, ?_⟩
    show Access.Issues _ (w.state.revoke now).1.toAccess none
    rw [BindingState.revoke, BindingState.ruledOutcome_access]
    exact Access.revocation_issues ..
  | observe asked scope admitted credential now =>
    refine .inl ⟨none, rfl, ?_⟩
    show Access.Issues _ (w.state.observe asked scope admitted credential now).1.toAccess none
    unfold BindingState.observe
    dsimp only
    split
    · exact .of_credentials rfl
    · rw [BindingState.ruledOutcome_access]
      exact w.state.toAccess.revocation_issues .narrowing now
  | recheckRevoked credential asked now =>
    refine .inl ⟨none, rfl, ?_⟩
    show Access.Issues _ (w.state.recheckRevoked credential asked now).1.toAccess none
    rw [w.state.recheckRevoked_access]
    exact w.state.toAccess.response_revoked_issues credential now
  | backoff =>
    simp only [step]
    rcases w.state.backoff_cases with ⟨sent, issues⟩ | ⟨ticket, sent, state, probe⟩ | ⟨issuance, sent, issues⟩
    · simp only [sent]
      exact .inl ⟨none, rfl, issues⟩
    · simp only [sent, state, probe]
      exact .inr (.inl trivial)
    · simp only [sent]
      exact .inl ⟨some issuance, rfl, issues⟩
  | retry => exact .inl (settled rfl w.state.retry_credentials)
  | sidecar sidecar => exact .inl (settled rfl (w.state.sidecar_credentials sidecar))
  | confirmGeneration value => exact .inl (settled rfl rfl)
  | confirmOnceServable => exact .inl (settled rfl rfl)
  | openCall => exact .inl (settled rfl rfl)
  | send call requestId => exact .inl (settled rfl rfl)
  | finishRequest call requestId => exact .inl (settled rfl rfl)
  | closeCall call => exact .inl (settled rfl rfl)
  | evidence move => exact .inl (settled rfl rfl)

theorem Sound.probed (sound : Sound w) (sent : ProbeSent) (result : Probe) :
    Sound (w.step (.probed sent result)) := by
  simp only [BindingWorld.step]
  split
  · rcases applyProbe_cases w.state.connection sent.ticket result with
      ignored | ⟨-, newer, taken, applied, next, -, shift⟩
    · rw [ignored]
      exact sound
    rw [if_neg taken]
    refine { sound with quiet := shift.quiet sound.quiet, probes := fun s member => ?_, applied := ?_ }
    · show s.ticket.seq < (w.state.connection.applyProbe sent.ticket result).1.nextProbe ∧ _
      rw [next]
      exact sound.probes s member
    · intro t member
      refine ⟨sent.ticket.seq, applied, ?_⟩
      rcases List.mem_cons.mp member with rfl | old
      · exact Nat.le_refl _
      · exact Nat.le_of_lt (sound.applied_below newer old)
  · exact sound

theorem Sound.step (sound : Sound w) (move : BindingMove K) : Sound (w.step move) := by
  have shift := shift_step w move
  rcases step_cases w move with ⟨sent, same, issues⟩ | same | ⟨sent, result, rfl⟩
  · by_cases silent : move.drive = .probing
    · obtain ⟨sent, result, rfl⟩ : ∃ sent result, move = .probed sent result := by
        cases move with
        | probed sent result => exact ⟨sent, result, rfl⟩
        | activate how => cases how <;> cases silent
        | sidecar sidecar => cases sidecar <;> cases silent
        | _ => cases silent
      exact sound.probed sent result
    · rw [same]
      exact sound.issuing move.drive shift silent issues
  · rw [same]
    exact sound.probe
  · exact sound.probed sent result

end

section
variable [DecidableEq K]

section
variable (w : BindingWorld K)

def probeOver (sent : ProbeSent) : Prop :=
  sent.round ≠ w.state.connection.round ∨
    ∃ later earlier, w.probes = later ++ sent :: earlier ∧
      ∃ ticket ∈ w.applied, ticket = sent.ticket ∨ ∃ other ∈ later, other.ticket = ticket

def issuanceOver (sent : IssuanceSent) : Prop :=
  sent.round ≠ w.state.connection.round ∨
    ∃ later earlier, w.issuances = later ++ sent :: earlier ∧ later ≠ []

/-- A revocation signal or a narrowing, taken on the current credential. -/
def revokes : BindingMove K → Prop
  | .issued sent answer _ =>
    sent ∈ w.issuances ∧ w.state.credentials.issuing = some sent.issuance ∧
      sent.issuance.round = w.state.connection.round ∧
      (answer = .revoked ∨ answer = .granted true ∨ answer = .refused ∧ sent.issuance.afterInvalid = false)
  | .response credential .revoked _ _ | .recheckRevoked credential _ _ =>
    w.state.credentials.currentId = some credential
  | .revoke _ => True
  | .observe asked scope admitted credential _ =>
    (w.state.evidence.observe asked scope admitted
      (decide (w.state.credentials.currentId = some credential))).2.removed ≠ ∅
  | _ => False

def discarded : BindingMove K → Option (Finset K)
  | .response credential .revoked asked _ | .recheckRevoked credential asked _ =>
    if w.state.credentials.currentId = some credential then none else some asked
  | _ => none

structure BindingRight (move : BindingMove K) : Prop where
  staleProbe : ∀ sent result, move = .probed sent result → w.probeOver sent → w.step move = w
  staleIssuance : ∀ sent answer now, move = .issued sent answer now → w.issuanceOver sent → w.step move = w
  rounds : w.state.connection.round.number ≤ (w.step move).state.connection.round.number
  /-- A servable phase is reached by a probe's result, sent in this round with the credential then current. -/
  served : ∀ phase, (w.step move).state.connection.phase = some phase → phase.isServable = true →
    w.state.connection.phase = some phase ∨ ∃ sent result, move = .probed sent result ∧ sent ∈ w.probes ∧
      sent.round = w.state.connection.round ∧ ∃ id, sent.credential = some id
  revoked : w.revokes move → w.state.connection.phase ≠ none → ¬w.excepted →
    Aborts w.state.connection (w.step move).state.connection ∧
    PlacesAll w.state.evidence (w.step move).state.evidence
  /-- What the exception asks about is never forgotten. -/
  remembered : (w.state.connection.everServable = true → (w.step move).state.connection.everServable = true) ∧
    (w.state.credentials.revokedBefore = true → (w.step move).state.credentials.revokedBefore = true) ∧
    (w.revokes move → ¬w.excepted → (w.step move).state.credentials.revokedBefore = true) ∧
    ∀ phase, (w.step move).state.connection.phase = some phase → phase.isServable = true →
      (w.step move).state.connection.everServable = true
  discarded : ∀ asked, w.discarded move = some asked →
    (w.step move).state.toAccess = w.state.toAccess ∧
    if asked = ∅ then PlacesAll w.state.evidence (w.step move).state.evidence
    else (w.step move).state.evidence = (w.state.evidence.register asked).1 ∧
      ∃ pending, (w.step move).state.evidence.pending = some pending ∧ asked ⊆ pending.kbs
  /-- A reason that does not retry by itself gives way to another such reason, to leaving, and to what lets it go. -/
  stuck : ∀ cause, w.state.connection.phase = some (.unavailable cause) → cause.retriesAutomatically = false →
    (∃ other, (w.step move).state.connection.phase = some (.unavailable other) ∧
      other.retriesAutomatically = false) ∨
    (move.drive = .leaving ∧ (w.step move).state.connection.phase = none ∧
      (cause ≠ .localStorage → (w.step move).state.connection.held = some cause)) ∨
    (move.drive = .letting ∧ cause ≠ .localStorage) ∨
    (move.drive = .confirming ∧ cause = .localStorage ∧
      (w.step move).state.connection.phase = some .loading ∧
      (w.step move).state.connection.persistPending = false)
  waiting : ∀ cause, w.state.connection.phase = none → w.state.connection.held = some cause →
    ((w.step move).state.connection.phase = none ∧ (w.step move).state.connection.held = some cause) ∨
    (w.step move).state.connection.phase = some (.unavailable cause) ∨ move.drive = .letting
  /-- With a write unconfirmed nothing is sent, the binding is not servable, and no event makes it so. -/
  unconfirmed : w.state.connection.persistPending = true →
    (w.state.connection.phase = none ∨ ∃ cause, w.state.connection.phase = some (.unavailable cause) ∧
      cause.retriesAutomatically = false) ∧
    (w.step move).probes = w.probes ∧ (w.step move).issuances = w.issuances ∧
    ∀ phase, (w.step move).state.connection.phase = some phase → phase.isServable = false

end

section
variable {w : BindingWorld K}

theorem Sound.staleProbe (sound : Sound w) {sent : ProbeSent} (result : Probe) (stale : w.probeOver sent) :
    w.step (.probed sent result) = w := by
  simp only [BindingWorld.step]
  split
  case isFalse => rfl
  case isTrue member =>
    have ignored : w.state.connection.applyProbe sent.ticket result = (w.state.connection, .ignored) := by
      rcases applyProbe_cases w.state.connection sent.ticket result with same | ⟨round, newer, -⟩
      · exact same
      rcases stale with ended | ⟨later, earlier, split, ticket, applied, overtaken⟩
      · exact absurd ((sound.probes sent member).2.1 ▸ round) ended
      have below := sound.applied_below newer applied
      rcases overtaken with rfl | ⟨other, after, rfl⟩
      · exact absurd below (Nat.lt_irrefl _)
      have ordered := sound.probesOrdered
      rw [split] at ordered
      have sentBefore := (List.pairwise_append.mp ordered).2.2 other after sent (List.mem_cons_self ..)
      omega
    rw [ignored]
    rfl

theorem Sound.staleIssuance (sound : Sound w) {sent : IssuanceSent} (answer : Issued) (now : Instant)
    (stale : w.issuanceOver sent) : w.step (.issued sent answer now) = w := by
  simp only [BindingWorld.step]
  split
  case isFalse => rfl
  case isTrue member =>
    have finished : w.state.credentials.issuing ≠ some sent.issuance ∨
        ¬w.state.connection.isCurrent sent.issuance.round = true := by
      rcases stale with ended | ⟨later, earlier, split, some_⟩
      · right
        rw [(sound.issuances sent member).2]
        simpa [Connection.isCurrent] using ended
      · left
        intro flying
        obtain ⟨newest, older, rfl⟩ := List.exists_cons_of_ne_nil some_
        have ordered := sound.issuancesOrdered
        rw [split] at ordered
        have sentBefore := (List.pairwise_append.mp ordered).2.2 newest (List.mem_cons_self ..) sent
          (List.mem_cons_self ..)
        have below := (sound.issuances newest (split ▸ List.mem_append_left _ (List.mem_cons_self ..))).1
        have last := sound.flying _ flying
        omega
    have ignored : w.state.toAccess.issued sent.issuance answer now = (w.state.toAccess, .ignored) := by
      rw [Access.issued, if_pos finished]
    rw [BindingState.issued, ignored]
    rfl

/-- A revoking event outside the exception is a revocation on the connection, and places its rule. -/
theorem revokes_cases {move : BindingMove K} (revokes : w.revokes move) (free : ¬w.excepted) :
    ∃ (a : Access) (kind : Revocation) (now : Instant), a.connection = w.state.connection ∧
      (w.step move).state.toAccess = (a.revocation kind now).1 ∧
      PlacesAll w.state.evidence (w.step move).state.evidence := by
  have unexcepted : w.state.toAccess.excepted = false := by
    simpa using mt (excepted_iff w).mp free
  have onCurrent : ∀ (credential : CredentialId) (now : Instant), w.state.credentials.currentId = some credential →
      w.state.toAccess.response credential .revoked now = w.state.toAccess.revocation .signal now := by
    intro credential now current
    obtain ⟨⟨id, round⟩, here, rfl⟩ := Option.map_eq_some_iff.mp current
    simp [Access.response, here, unexcepted, Option.filter]
  have done : ∀ (kind : Revocation) (now : Instant), (w.state.toAccess.revocation kind now).2 ≠ .recheck := by
    intro kind now
    unfold Access.revocation
    split <;> exact nofun
  cases move with
  | issued sent answer now =>
    obtain ⟨member, flying, round, class_⟩ := revokes
    let taken : Access := { w.state.toAccess with credentials := { w.state.credentials with issuing := none } }
    obtain ⟨kind, same⟩ : ∃ kind, w.state.toAccess.issued sent.issuance answer now = taken.revocation kind now := by
      have current : ¬(w.state.credentials.issuing ≠ some sent.issuance ∨
          ¬w.state.connection.isCurrent sent.issuance.round = true) := by
        simp [flying, round, Connection.isCurrent]
      rw [Access.issued, if_neg current]
      rcases class_ with rfl | rfl | ⟨rfl, fresh⟩
      · exact ⟨.signal, rfl⟩
      · exact ⟨.narrowing, rfl⟩
      refine ⟨.signal, ?_⟩
      have taken_ : taken.excepted = false := unexcepted
      simp only [fresh, Bool.false_eq_true, if_false]
      exact if_neg (by simpa [taken] using taken_)
    have state : w.step (.issued sent answer now) = w.settled (w.state.ruledOutcome (taken.revocation kind now)).1 := by
      simp only [step, if_pos member, BindingState.issued, same]
    rw [state]
    refine ⟨taken, kind, now, rfl, BindingState.ruledOutcome_access .., ?_⟩
    show PlacesAll _ ((w.state.ruledOutcome (taken.revocation kind now)).1).evidence
    rw [ruledOutcome_revocation]
    exact placesAll_place _
  | response credential signal asked now =>
    cases signal with
    | revoked =>
      have same := onCurrent credential now revokes
      have state : (w.state.response credential .revoked asked now).1 =
          (w.state.ruledOutcome (w.state.toAccess.revocation .signal now)).1 := by
        simp only [BindingState.response, same, if_neg (done .signal now)]
      refine ⟨w.state.toAccess, .signal, now, rfl, ?_, ?_⟩
      · show (w.state.response credential .revoked asked now).1.toAccess = _
        rw [state, BindingState.ruledOutcome_access]
      · show PlacesAll _ (w.state.response credential .revoked asked now).1.evidence
        rw [state, ruledOutcome_revocation]
        exact placesAll_place _
    | expired | invalid => exact absurd revokes id
  | revoke now =>
    refine ⟨w.state.toAccess, .signal, now, rfl, BindingState.ruledOutcome_access .., ?_⟩
    show PlacesAll _ (w.state.revoke now).1.evidence
    rw [BindingState.revoke, ruledOutcome_revocation]
    exact placesAll_place _
  | observe asked scope admitted credential now =>
    let observed := w.state.evidence.observe asked scope admitted
      (decide (w.state.credentials.currentId = some credential))
    let seen : BindingState K := { w.state with evidence := observed.1 }
    have state : (w.state.observe asked scope admitted credential now).1 =
        (seen.ruledOutcome (w.state.toAccess.revocation .narrowing now)).1 := by
      simp only [BindingState.observe]
      exact congrArg Prod.fst (if_neg revokes)
    refine ⟨w.state.toAccess, .narrowing, now, rfl, ?_, ?_⟩
    · show (w.state.observe asked scope admitted credential now).1.toAccess = _
      rw [state, BindingState.ruledOutcome_access]
    · show PlacesAll _ (w.state.observe asked scope admitted credential now).1.evidence
      rw [state, ruledOutcome_revocation]
      exact ⟨rfl, rfl⟩
  | recheckRevoked credential asked now =>
    have same := onCurrent credential now revokes
    have state : (w.state.recheckRevoked credential asked now).1 =
        { w.state with
          toAccess := (w.state.toAccess.revocation .signal now).1
          evidence := w.state.evidence.revoked.1 } := by
      simp only [BindingState.recheckRevoked, same, if_neg (done .signal now)]
    refine ⟨w.state.toAccess, .signal, now, rfl, ?_, ?_⟩
    · show (w.state.recheckRevoked credential asked now).1.toAccess = _
      rw [state]
    · show PlacesAll _ (w.state.recheckRevoked credential asked now).1.evidence
      rw [state]
      exact ⟨rfl, rfl⟩
  | _ => exact absurd revokes id

theorem discarded_right {move : BindingMove K} {asked : Finset K} (discarded : w.discarded move = some asked) :
    (w.step move).state.toAccess = w.state.toAccess ∧
    if asked = ∅ then PlacesAll w.state.evidence (w.step move).state.evidence
    else (w.step move).state.evidence = (w.state.evidence.register asked).1 ∧
      ∃ pending, (w.step move).state.evidence.pending = some pending ∧ asked ⊆ pending.kbs := by
  have recheck : ∀ (credential : CredentialId) (now : Instant), w.state.credentials.currentId ≠ some credential →
      w.state.toAccess.response credential .revoked now = (w.state.toAccess, .recheck) := by
    intro credential now other
    have gone : w.state.credentials.current.filter (fun c => decide (c.1 = credential)) = none := by
      cases current : w.state.credentials.current with
      | none => rfl
      | some held =>
        have apart : held.1 ≠ credential := fun same => other (by simp [Credentials.currentId, current, same])
        simp [apart]
    simp [Access.response, gone]
  have questioned : (w.state.questioned asked).1.toAccess = w.state.toAccess ∧
      if asked = ∅ then PlacesAll w.state.evidence (w.state.questioned asked).1.evidence
      else (w.state.questioned asked).1.evidence = (w.state.evidence.register asked).1 ∧
        ∃ pending, (w.state.questioned asked).1.evidence.pending = some pending ∧ asked ⊆ pending.kbs := by
    refine ⟨BindingState.questioned_access .., ?_⟩
    by_cases none_ : asked = ∅
    · rw [if_pos none_]
      simp only [BindingState.questioned, Evidence.register, if_pos none_]
      exact ⟨rfl, rfl⟩
    · rw [if_neg none_]
      simp only [BindingState.questioned, Evidence.register, if_neg none_]
      exact ⟨rfl, _, rfl, Finset.subset_union_right⟩
  suffices same : (w.step move).state = (w.state.questioned asked).1 by
    rw [same]
    exact questioned
  cases move with
  | response credential signal kbs now =>
    cases signal with
    | revoked =>
      simp only [BindingWorld.discarded] at discarded
      split at discarded
      · cases discarded
      case isFalse other =>
        cases discarded
        show (w.state.response credential .revoked asked now).1 = _
        simp only [BindingState.response, recheck credential now other, if_true]
    | expired | invalid => cases discarded
  | recheckRevoked credential kbs now =>
    simp only [BindingWorld.discarded] at discarded
    split at discarded
    · cases discarded
    case isFalse other =>
      cases discarded
      show (w.state.recheckRevoked credential asked now).1 = _
      simp only [BindingState.recheckRevoked, recheck credential now other, if_true]
  | _ => cases discarded

/-- Out of the connection phase, or unavailable for a reason that does not retry, nothing is sent. -/
theorem inactive_silent (inactive : w.state.connection.active = false) (move : BindingMove K) :
    (w.step move).probes = w.probes ∧ (w.step move).issuances = w.issuances := by
  have unprobed : w.state.probe.2 = none := by
    unfold BindingState.probe Connection.probe
    split
    · rfl
    · simp [inactive]
  cases move with
  | probe =>
    simp only [step, unprobed]
    exact ⟨rfl, rfl⟩
  | issue =>
    have unissued : w.state.issue.2 = none := by
      show w.state.toAccess.issue.2 = none
      unfold Access.issue
      dsimp only
      split
      · rfl
      rename_i due
      push Not at due
      rw [Connection.active_of_loading due.1.1] at inactive
      cases inactive
    simp only [step, unissued]
    exact ⟨rfl, rfl⟩
  | issued =>
    simp only [step]
    split <;> exact ⟨rfl, rfl⟩
  | probed sent result =>
    simp only [step]
    split <;> exact ⟨rfl, rfl⟩
  | response credential signal asked now =>
    have unrenewed : Access.renewal (w.state.response credential signal asked now).2.value = none := by
      have value : Access.renewal (w.state.toAccess.response credential signal now).2 = none := by
        unfold Access.response
        cases w.state.credentials.current.filter fun c => decide (c.1 = credential) with
        | none => cases signal <;> rfl
        | some held =>
          cases signal with
          | revoked =>
            dsimp only
            split
            · rfl
            · exact Access.renewal_revocation ..
          | expired => simp [inactive, Access.renewal, Effects.none]
          | invalid => simp [Access.invalid, inactive, Access.renewal, Effects.none]
      rw [w.state.response_value]
      exact value
    simp only [step, unrenewed]
    exact ⟨rfl, rfl⟩
  | backoff =>
    have idle : w.state.backoff.2 = none := by
      unfold BindingState.backoff
      split
      · rename_i cause phase
        rw [Connection.active_of_unavailable phase] at inactive
        simp [inactive]
      · rfl
    simp only [step, idle]
    exact ⟨rfl, rfl⟩
  | _ => exact ⟨rfl, rfl⟩

theorem inactive_cases {c : Connection} (inactive : c.active = false) :
    c.phase = none ∨ ∃ cause, c.phase = some (.unavailable cause) ∧ cause.retriesAutomatically = false := by
  cases phase : c.phase with
  | none => exact .inl rfl
  | some p =>
    cases p with
    | unavailable cause => exact .inr ⟨cause, rfl, by simpa [Connection.active, phase] using inactive⟩
    | loading | ready | degraded servable => simp [Connection.active, phase] at inactive

theorem Sound.served (sound : Sound w) {move : BindingMove K} {phase : ConnectionPhase}
    (here : (w.step move).state.connection.phase = some phase) (servable : phase.isServable = true) :
    w.state.connection.phase = some phase ∨ w.state.connection.persistPending = false ∧
      ∃ sent result, move = .probed sent result ∧ sent ∈ w.probes ∧
        sent.round = w.state.connection.round ∧ ∃ id, sent.credential = some id := by
  rcases (shift_step w move).served here servable with same | probing
  · exact .inl (same ▸ here)
  cases move with
  | probed sent result =>
    simp only [BindingWorld.step] at here
    split at here
    case isFalse => exact .inl here
    case isTrue member =>
      obtain ⟨-, sentRound, credential⟩ := sound.probes sent member
      rcases applyProbe_cases w.state.connection sent.ticket result with ignored | ⟨round, -, -, -, -, settled, -⟩
      · rw [ignored] at here
        exact .inl here
      · exact .inr ⟨settled, sent, result, rfl, member, sentRound ▸ round, credential⟩
  | activate how => cases how <;> cases probing
  | sidecar sidecar => cases sidecar <;> cases probing
  | _ => cases probing

theorem revokedBefore_step (move : BindingMove K) (before : w.state.credentials.revokedBefore = true) :
    (w.step move).state.credentials.revokedBefore = true := by
  rcases step_cases w move with ⟨sent, -, issues⟩ | same | ⟨sent, result, rfl⟩
  · exact issues.revoked before
  · rw [same]
    show w.state.probe.1.credentials.revokedBefore = true
    rw [w.state.probe_credentials]
    exact before
  · simp only [step]
    split <;> exact before

theorem Sound.right (sound : Sound w) (move : BindingMove K) : BindingRight w move where
  staleProbe sent result same stale := same ▸ sound.staleProbe result stale
  staleIssuance sent answer now same stale := same ▸ sound.staleIssuance answer now stale
  rounds := (shift_step w move).advances.rounds
  served phase here servable := (sound.served here servable).imp id And.right
  revoked revokes inside free := by
    obtain ⟨a, kind, now, connection, access, places⟩ := revokes_cases revokes free
    have aborts := revocation_aborts kind now (connection ▸ inside)
    rw [connection, ← access] at aborts
    exact ⟨aborts, places⟩
  remembered := by
    refine ⟨(shift_step w move).advances.ever, revokedBefore_step move, fun revokes free => ?_,
      fun phase here servable => ?_⟩
    · obtain ⟨a, kind, now, -, access, -⟩ := revokes_cases revokes free
      rw [access]
      exact revocation_revokedBefore a kind now
    · have once := ((sound.step move).quiet).served phase here servable
      simp [Connection.everServable, once]
  discarded asked here := discarded_right here
  stuck cause phase stays := (shift_step w move).stuck sound.quiet phase stays
  waiting cause out held := (shift_step w move).waiting out held
  unconfirmed pending := by
    have inactive := sound.quiet.pending pending
    obtain ⟨probes, issuances⟩ := inactive_silent inactive move
    refine ⟨inactive_cases inactive, probes, issuances, fun phase here => ?_⟩
    by_contra servable
    have servable : phase.isServable = true := by simpa using servable
    rcases sound.served here servable with before | ⟨settled, -⟩
    · rcases inactive_cases inactive with none_ | ⟨cause, there, -⟩
      · rw [none_] at before
        cases before
      rw [there] at before
      cases before
      cases servable
    · rw [pending] at settled
      cases settled

theorem sound_run (gate : Gate) (onceServable revokedBefore activated : Bool) (evidence : Evidence K)
    (moves : List (BindingMove K)) :
    Sound (run BindingWorld.step moves (start gate onceServable revokedBefore activated evidence)) :=
  run_invariant BindingWorld.step (fun _ => True) Sound (fun _ move _ sound => sound.step move)
    (fun _ _ => trivial) (sound_start gate onceServable revokedBefore activated evidence)

end
end

section
variable [DecidableEq K]

/-- For every run and every next event: stale answers move nothing, revocations abort and place a rule, and an
unconfirmed write holds everything back. -/
theorem binding_rounds (gate : Gate) (onceServable revokedBefore activated : Bool) (evidence : Evidence K)
    (moves : List (BindingMove K)) (move : BindingMove K) :
    BindingRight (run BindingWorld.step moves (start gate onceServable revokedBefore activated evidence)) move :=
  (sound_run gate onceServable revokedBefore activated evidence moves).right move

end

/-- `local_storage` does not retry by itself, and gives way when the write it waits for is confirmed. -/
theorem local_storage_gives_way :
    ¬ ∀ (moves : List (BindingMove Nat)) (move : BindingMove Nat) (cause : UnavailableCause),
      let w := run BindingWorld.step moves (start (.restored 1) false false true .fresh)
      w.state.connection.phase = some (.unavailable cause) → cause.retriesAutomatically = false →
      move.drive ≠ .letting → move.drive ≠ .leaving →
      ∃ other, (w.step move).state.connection.phase = some (.unavailable other) ∧
        other.retriesAutomatically = false := by
  intro stays
  obtain ⟨other, here, -⟩ := stays [.connect ⟨false, false⟩] (.confirmGeneration 2) .localStorage
    (by decide +kernel) rfl nofun nofun
  have loading : (run BindingWorld.step [.connect ⟨false, false⟩, .confirmGeneration 2]
      (start (.restored 1) false false true (.fresh : Evidence Nat))).state.connection.phase = some .loading := by
    decide +kernel
  cases loading.symm.trans here

end BindingWorld
end Agent24.Provider
