import Agent24.Agent.Loop
import Agent24.Policy.Approval

/-! The approval broker. Waiting dispatches, deciding clients, watchdogs and the expiry sweep race for
the rows of `approvals`, in any order. -/

set_option autoImplicit false
namespace Agent24.Policy
open Library
open Agent (ApprovalStatus Decision GateDecision verdictFromRow)

structure StandingGrant where
  scopeKind : String
  scopeId : String
  tool : String
  target : String
  deriving DecidableEq

inductive Origin where
  | gate (call : GateCall) (disk : Disk)
  | plan (call : PlanCall)

def Origin.approval : Origin → String → String → String → Approval
  | .gate call disk => call.request.approval disk
  | .plan call => call.approval

def Origin.ctx : Origin → GrantCtx
  | .gate call disk => call.request.grantCtx disk
  | .plan call => call.grantCtx

/-- Where a waiting dispatch stands in `run_pending_approval`. -/
inductive Phase where
  /-- The sender is registered, the row is not yet written. -/
  | unsaved
  | waiting
  | deciding (decision : Decision)
  | rereading
  | returned (verdict : GateDecision)
  | dropped
  deriving DecidableEq

structure Waiter where
  origin : Origin
  approval : Approval
  /-- The sender is in the map of pending approvals. -/
  registered : Bool
  inbox : Option Decision
  phase : Phase

/-- A client's decision on its way through `resolve`. -/
inductive Resolver where
  | checked (id : String) (decision : Decision) (status : ApprovalStatus)
  | won (id : String) (decision : Decision)

/-- `ApprovalResolvedPayload`. -/
structure Resolution where
  approvalId : String
  runId : String
  decisionType : String
  deriving DecidableEq

inductive BrokerEvent where
  | required (approval : Approval)
  | resolved (resolution : Resolution)

structure BrokerState where
  approvals : Approvals
  waiters : String → Option Waiter
  grants : List (String × String)
  standing : List StandingGrant
  watchdogs : String → Bool
  resolvers : Nat → Option Resolver
  /-- Resolutions that won and have still to be announced. -/
  owed : List Resolution
  log : List BrokerEvent

def BrokerState.start : BrokerState where
  approvals := .empty
  waiters := fun _ => none
  grants := []
  standing := []
  watchdogs := fun _ => false
  resolvers := fun _ => none
  owed := []
  log := []

structure Surroundings where
  disk : Disk
  audits : Bool
  grantsReadable : Bool
  autoApproves : Bool

inductive BrokerStep where
  | checks (call : GateCall) (around : Surroundings) (id expiresAt createdAt : String)
  | plans (call : PlanCall) (id expiresAt createdAt : String)
  | saves (id : String) (stored : Bool)
  | receives (id : String)
  | timesOut (id now : String) (stored : Bool)
  | rereads (id : String) (readable : Bool)
  | cancels (id now : String) (stored : Bool)
  | decides (id : String) (stored : Bool)
  | drops (id : String)
  | fires (id now : String)
  | sweeps (now : String)
  | resolveReads (k : Nat) (id : String) (decision : Decision)
  | resolveWrites (k : Nat) (now : String)
  | resolveWakes (k : Nat)
  | resolveDrops (k : Nat)
  | announces (n : Nat)
  | forgets (n : Nat)

def maxGrants : Nat := 1024

def grant (grants : List (String × String)) (scope tool : String) : List (String × String) :=
  (if maxGrants ≤ grants.length then [] else grants).insert (scope, tool)

def Waiter.returns (w : Waiter) (verdict : GateDecision) : Waiter :=
  { w with registered := false, phase := .returned verdict }

namespace BrokerState

section
variable (s : BrokerState)

def setWaiter (id : String) (w : Waiter) : BrokerState :=
  { s with waiters := Function.update s.waiters id (some w) }

def setResolver (k : Nat) (resolver : Option Resolver) : BrokerState :=
  { s with resolvers := Function.update s.resolvers k resolver }

def inPhase (id : String) (phase : Phase) : Option Waiter :=
  (s.waiters id).filter fun w => w.phase = phase

/-- The ways of `request` to an approval without a human: a write inside the workspace, a standing
grant, a session grant and the guardian. -/
def preapproved (around : Surroundings) (req : ApprovalRequest) : Bool :=
  let location := classifyWrite around.disk req
  let ctx := req.grantCtx around.disk
  (location = some .insideConfirmedRoot && around.audits) ||
  (!req.modulePerCall && around.grantsReadable && match ctx.durable, ctx.target with
    | some (kind, id), some target => decide (⟨kind, id, req.tool, target⟩ ∈ s.standing)
    | _, _ => false) ||
  (sessionWideGrantAllowed req.risk && !req.modulePerCall && !standingGrantEligible req.risk &&
    decide ((ctx.scope, req.tool) ∈ s.grants)) ||
  (location.isNone && around.autoApproves && !req.modulePerCall && around.audits)

def waits (origin : Origin) (id expiresAt createdAt : String) : BrokerState :=
  s.setWaiter id ⟨origin, origin.approval id expiresAt createdAt, true, none, .unsaved⟩

section
variable (id : String)

def saves (w : Waiter) (stored : Bool) : BrokerState :=
  match if stored then insertApproval s.approvals w.approval else .error .constraint with
  | .ok approvals =>
    { s with
      approvals := approvals
      watchdogs := Function.update s.watchdogs id true
      log := s.log ++ [BrokerEvent.required w.approval] }.setWaiter id { w with phase := .waiting }
  | .error _ => s.setWaiter id (w.returns (.deny "approval could not be recorded (fail-closed)"))

/-- The kernel's own resolution of an approval, which it announces if it wins. -/
def resolveAs (approval : Approval) (target : ApprovalStatus) (text now : String) :
    Except StoreError BrokerState :=
  match resolveApproval s.approvals approval.id target none now with
  | .ok (_, approvals) =>
    .ok { s with approvals := approvals, owed := s.owed ++ [⟨approval.id, approval.runId, text⟩] }
  | .error e => .error e

def receives (w : Waiter) : BrokerState :=
  match w.inbox with
  | some decision => s.setWaiter id { w with inbox := none, phase := .deciding decision }
  | none => if w.registered then s else s.setWaiter id (w.returns (.abortRun "approval channel dropped"))

def timesOut (w : Waiter) (now : String) (stored : Bool) : BrokerState :=
  match if stored then s.resolveAs w.approval .timedOut "timed_out" now else .error .constraint with
  | .ok s => s.setWaiter id (w.returns (.deny "approval timed out (fail-closed)"))
  | .error .conflict => s.setWaiter id { w with phase := .rereading }
  | .error _ => s.setWaiter id (w.returns (.deny "approval store error (fail-closed)"))

/-- `verdict_from_row`; the decision of a row that is approved is applied as if it had been received. -/
def rereads (w : Waiter) (readable : Bool) : BrokerState :=
  match if readable then s.approvals.find id else none with
  | none => s.setWaiter id (w.returns (.deny "approval store error (fail-closed)"))
  | some row =>
    match row.status, row.decision with
    | .approved, some decision => s.setWaiter id { w with phase := .deciding decision }
    | status, decision => s.setWaiter id (w.returns (verdictFromRow decision status))

def cancels (w : Waiter) (now : String) (stored : Bool) : BrokerState :=
  let verdict : GateDecision := .abortRun "run cancelled while approval pending"
  match if stored then s.resolveAs w.approval .aborted "aborted" now else .error .constraint with
  | .ok s => s.setWaiter id (w.returns verdict)
  | .error _ => s.setWaiter id (w.returns verdict)

end

/-- `apply_decision`, up to its verdict. -/
def applyDecision (ctx : GrantCtx) (decision : Decision) (stored : Bool) : BrokerState :=
  if decision.kind = "approve_for_session" then { s with grants := grant s.grants ctx.scope ctx.tool }
  else if decision.kind = "approve_for_target" then
    match ctx.durable, ctx.target with
    | some (kind, id), some target =>
      if stored then { s with standing := s.standing.insert ⟨kind, id, ctx.tool, target⟩ } else s
    | _, _ => s
  else s

def decides (id : String) (w : Waiter) (decision : Decision) (stored : Bool) : BrokerState :=
  (s.applyDecision w.origin.ctx decision stored).setWaiter id (w.returns decision.verdict)

def drops (id : String) (w : Waiter) : BrokerState :=
  match w.phase with
  | .returned _ => s
  | _ => s.setWaiter id { w with registered := false, phase := .dropped }

def fires (id : String) (w : Waiter) (now : String) : BrokerState :=
  let s := { s with watchdogs := Function.update s.watchdogs id false }
  match s.resolveAs w.approval .timedOut "timed_out" now with
  | .ok s => s
  | .error _ => s

/-- `timeout_expired`. -/
def sweeps (now : String) : BrokerState :=
  let (expired, approvals) := timeoutExpiredApprovals s.approvals now
  { s with
    approvals := approvals
    owed := s.owed ++ expired.map fun row => ⟨row.id, row.runId, "timed_out"⟩ }

def resolveReads (k : Nat) (id : String) (decision : Decision) : BrokerState :=
  match s.approvals.find id with
  | none => s
  | some row =>
    match checkDecision row decision with
    | .ok status => s.setResolver k (some (.checked id decision status))
    | .error _ => s

def resolveWrites (k : Nat) (id : String) (decision : Decision) (status : ApprovalStatus) (now : String) : BrokerState :=
  match resolveApprovalClientDecision s.approvals id status decision now with
  | .ok (row, approvals) =>
    { s with approvals := approvals, owed := s.owed ++ [Resolution.mk id row.runId decision.kind] }.setResolver k
      (some (.won id decision))
  | .error _ => s.setResolver k none

def resolveWakes (k : Nat) (id : String) (decision : Decision) : BrokerState :=
  let s := s.setResolver k none
  match s.waiters id with
  | some w => if w.registered then s.setWaiter id { w with registered := false, inbox := some decision } else s
  | none => s

def step : BrokerStep → BrokerState
  | .checks call around id expiresAt createdAt =>
    if (s.waiters id).isSome || s.preapproved around call.request then s
    else s.waits (.gate call around.disk) id expiresAt createdAt
  | .plans call id expiresAt createdAt =>
    if (s.waiters id).isSome then s else s.waits (.plan call) id expiresAt createdAt
  | .saves id stored => (s.inPhase id .unsaved).elim s fun w => s.saves id w stored
  | .receives id => (s.inPhase id .waiting).elim s fun w => s.receives id w
  | .timesOut id now stored => (s.inPhase id .waiting).elim s fun w => s.timesOut id w now stored
  | .rereads id readable => (s.inPhase id .rereading).elim s fun w => s.rereads id w readable
  | .cancels id now stored => (s.inPhase id .waiting).elim s fun w => s.cancels id w now stored
  | .decides id stored =>
    (s.waiters id).elim s fun w =>
      match w.phase with
      | .deciding decision => s.decides id w decision stored
      | _ => s
  | .drops id => (s.waiters id).elim s fun w => s.drops id w
  | .fires id now => if s.watchdogs id then (s.waiters id).elim s fun w => s.fires id w now else s
  | .sweeps now => s.sweeps now
  | .resolveReads k id decision => s.resolveReads k id decision
  | .resolveWrites k now =>
    match s.resolvers k with
    | some (.checked id decision status) => s.resolveWrites k id decision status now
    | _ => s
  | .resolveWakes k =>
    match s.resolvers k with
    | some (.won id decision) => s.resolveWakes k id decision
    | _ => s
  | .resolveDrops k => s.setResolver k none
  | .announces n =>
    match s.owed[n]? with
    | some resolution =>
      { s with owed := s.owed.eraseIdx n, log := s.log ++ [.resolved resolution] }
    | none => s
  -- whoever resolved it was dropped before it announced it
  | .forgets n => { s with owed := s.owed.eraseIdx n }

end

end BrokerState

section Evidence
variable {s s' : BrokerState} {id : String} {w w' : Waiter} {row resolved : Approval} {d : Decision}

def Approval.closed (row : Approval) : Bool := row.status != .pending

structure Approval.Decided (row : Approval) : Prop where
  open_ : row.closed = false → row.decision = none
  offered : ∀ d, row.decision = some d → d.kind ∈ row.availableDecisions ∧ d.status = some row.status ∧
    ∃ at_, row.decidedAt = some at_ ∧ at_ ≤ row.expiresAt
  human : row.status = .approved → row.decision.isSome = true

def BrokerState.Holds (s : BrokerState) (id : String) (d : Decision) : Prop :=
  ∃ row, s.approvals.find id = some row ∧ row.decision = some d

def BrokerEvent.resolves (id : String) : BrokerEvent → Bool
  | .resolved resolution => resolution.approvalId == id
  | .required _ => false

def BrokerState.announcements (s : BrokerState) (id : String) : Nat :=
  s.owed.countP (fun resolution => resolution.approvalId == id) + s.log.countP (BrokerEvent.resolves id)

def BrokerState.resolutions (s : BrokerState) (id : String) : Nat :=
  if (s.approvals.find id).any Approval.closed then 1 else 0

structure BrokerState.Advances (s s' : BrokerState) : Prop where
  rows : ∀ id row, s.approvals.find id = some row → ∃ row', s'.approvals.find id = some row' ∧
    row'.asked = row.asked ∧ (row.closed = true → row' = row)
  waiters : ∀ id w, s.waiters id = some w → ∃ w', s'.waiters id = some w' ∧ w'.origin = w.origin ∧
    w'.approval = w.approval

def BrokerState.Backs (s : BrokerState) (kind : String) (covers : GrantCtx → Prop) : Prop :=
  ∃ id w d, s.waiters id = some w ∧ s.Holds id d ∧ d.kind = kind ∧ covers w.origin.ctx

structure Waiter.Sound (s : BrokerState) (id : String) (w : Waiter) : Prop where
  asked : w.approval = w.origin.approval id w.approval.expiresAt w.approval.createdAt
  sent : ∀ d, w.inbox = some d → s.Holds id d
  deciding : ∀ d, w.phase = .deciding d → s.Holds id d
  allowed : w.phase = .returned .allow → ∃ row, s.approvals.find id = some row ∧ row.status = .approved

def Resolver.Sound (s : BrokerState) : Resolver → Prop
  | .checked id d status => ∃ row, s.approvals.find id = some row ∧ d.kind ∈ row.availableDecisions ∧
    d.status = some status
  | .won id d => s.Holds id d

structure BrokerState.Settled (s : BrokerState) : Prop where
  rows : ∀ id row, s.approvals.find id = some row → row.Decided ∧
    ∃ w, s.waiters id = some w ∧ row.asked = w.approval
  waiters : ∀ id w, s.waiters id = some w → w.Sound s id
  resolvers : ∀ k r, s.resolvers k = some r → r.Sound s
  grants : ∀ g ∈ s.grants, s.Backs "approve_for_session" fun ctx => g = (ctx.scope, ctx.tool)
  standing : ∀ g ∈ s.standing, s.Backs "approve_for_target" fun ctx =>
    ctx.durable = some (g.scopeKind, g.scopeId) ∧ ctx.tool = g.tool ∧ ctx.target = some g.target
  announced : ∀ id, s.announcements id ≤ s.resolutions id

namespace BrokerState

theorem Advances.refl : s.Advances s :=
  ⟨fun _ row found => ⟨row, found, rfl, fun _ => rfl⟩, fun _ w found => ⟨w, found, rfl, rfl⟩⟩

theorem Advances.trans {last : BrokerState} (first : s.Advances s') (second : s'.Advances last) :
    s.Advances last := by
  constructor
  · intro id row found
    obtain ⟨middle, found', asked, still⟩ := first.rows id row found
    obtain ⟨row', found'', asked', still'⟩ := second.rows id middle found'
    refine ⟨row', found'', asked'.trans asked, fun closed => ?_⟩
    obtain rfl := still closed
    exact still' closed
  · intro id w found
    obtain ⟨middle, found', origin, approval⟩ := first.waiters id w found
    obtain ⟨w', found'', origin', approval'⟩ := second.waiters id middle found'
    exact ⟨w', found'', origin'.trans origin, approval'.trans approval⟩

theorem Holds.later (holds : s.Holds id d) (settled : s.Settled) (advances : s.Advances s') : s'.Holds id d := by
  obtain ⟨row, found, decided⟩ := holds
  obtain ⟨row', found', -, still⟩ := advances.rows id row found
  have closed : row.closed = true := by
    by_contra open_
    have none := (settled.rows id row found).1.open_ (Bool.eq_false_iff.mpr open_)
    rw [decided] at none
    exact nomatch none
  exact ⟨row', found', by rw [still closed, decided]⟩

theorem Backs.later {kind : String} {covers : GrantCtx → Prop} (backs : s.Backs kind covers) (settled : s.Settled)
    (advances : s.Advances s') : s'.Backs kind covers := by
  obtain ⟨id, w, d, found, holds, same, covered⟩ := backs
  obtain ⟨w', found', origin, -⟩ := advances.waiters id w found
  exact ⟨id, w', d, found', holds.later settled advances, same, origin ▸ covered⟩

end BrokerState

theorem Waiter.Sound.later (sound : w.Sound s id) (settled : s.Settled) (advances : s.Advances s') :
    w.Sound s' id where
  asked := sound.asked
  sent d sent := (sound.sent d sent).later settled advances
  deciding d deciding := (sound.deciding d deciding).later settled advances
  allowed returned := by
    obtain ⟨row, found, approved⟩ := sound.allowed returned
    obtain ⟨row', found', -, still⟩ := advances.rows id row found
    exact ⟨row', found', by rw [still (by rw [Approval.closed, approved]; rfl), approved]⟩

theorem Resolver.Sound.later {r : Resolver} (sound : r.Sound s) (settled : s.Settled) (advances : s.Advances s') :
    r.Sound s' := by
  cases r with
  | checked id =>
    obtain ⟨row, found, offered, shape⟩ := sound
    obtain ⟨row', found', asked, -⟩ := advances.rows id row found
    have same : row'.asked.availableDecisions = row.asked.availableDecisions := by rw [asked]
    exact ⟨row', found', same ▸ offered, shape⟩
  | won id d => exact BrokerState.Holds.later sound settled advances

end Evidence

section Moves
variable {s s' : BrokerState} {id now : String} {w : Waiter} {row : Approval} {d : Decision}

namespace BrokerState

theorem setWaiter_advances (same : ∀ old, s.waiters id = some old → w.origin = old.origin ∧ w.approval = old.approval) :
    s.Advances (s.setWaiter id w) := by
  refine ⟨fun _ row found => ⟨row, found, rfl, fun _ => rfl⟩, fun other old found => ?_⟩
  dsimp only [setWaiter]
  by_cases here : other = id
  · subst here
    rw [Function.update_self]
    exact ⟨w, rfl, same old found⟩
  · rw [Function.update_of_ne here]
    exact ⟨old, found, rfl, rfl⟩

theorem Settled.setWaiter (settled : s.Settled)
    (same : ∀ old, s.waiters id = some old → w.origin = old.origin ∧ w.approval = old.approval)
    (sound : w.Sound s id) : (s.setWaiter id w).Settled := by
  have advances := setWaiter_advances same
  refine ⟨?_, ?_, ?_, ?_, ?_, settled.announced⟩
  · intro other row found
    obtain ⟨decided, old, hit, asked⟩ := settled.rows other row found
    obtain ⟨w', hit', -, approval⟩ := advances.waiters other old hit
    exact ⟨decided, w', hit', asked.trans approval.symm⟩
  · intro other w' found
    dsimp only [BrokerState.setWaiter] at found
    by_cases here : other = id
    · subst here
      rw [Function.update_self] at found
      obtain rfl := Option.some.inj found
      exact sound.later settled advances
    · rw [Function.update_of_ne here] at found
      exact (settled.waiters other w' found).later settled advances
  · intro k r found
    exact (settled.resolvers k r found).later settled advances
  · intro g member
    exact (settled.grants g member).later settled advances
  · intro g member
    exact (settled.standing g member).later settled advances

theorem Settled.beside (settled : s.Settled) (approvals : s'.approvals = s.approvals)
    (waiters : s'.waiters = s.waiters)
    (resolvers : ∀ k r, s'.resolvers k = some r → s.resolvers k = some r ∨ r.Sound s')
    (grants : ∀ g ∈ s'.grants, g ∈ s.grants ∨
      s'.Backs "approve_for_session" fun ctx => g = (ctx.scope, ctx.tool))
    (standing : ∀ g ∈ s'.standing, g ∈ s.standing ∨ s'.Backs "approve_for_target" fun ctx =>
      ctx.durable = some (g.scopeKind, g.scopeId) ∧ ctx.tool = g.tool ∧ ctx.target = some g.target)
    (announced : ∀ id, s'.announcements id ≤ s.announcements id) : s.Advances s' ∧ s'.Settled := by
  have advances : s.Advances s' := by
    constructor
    · intro id row found
      exact ⟨row, approvals ▸ found, rfl, fun _ => rfl⟩
    · intro id w found
      exact ⟨w, waiters ▸ found, rfl, rfl⟩
  refine ⟨advances, ?_, ?_, ?_, ?_, ?_, ?_⟩
  · intro id row found
    rw [approvals] at found
    rw [waiters]
    exact settled.rows id row found
  · intro id w found
    rw [waiters] at found
    exact (settled.waiters id w found).later settled advances
  · intro k r found
    obtain old | new := resolvers k r found
    · exact (settled.resolvers k r old).later settled advances
    · exact new
  · intro g member
    obtain old | new := grants g member
    · exact (settled.grants g old).later settled advances
    · exact new
  · intro g member
    obtain old | new := standing g member
    · exact (settled.standing g old).later settled advances
    · exact new
  · intro id
    refine (announced id).trans ((settled.announced id).trans ?_)
    rw [resolutions, resolutions, approvals]

theorem Settled.setResolver (settled : s.Settled) {k : Nat} {resolver : Option Resolver}
    (sound : ∀ r, resolver = some r → r.Sound s) :
    s.Advances (s.setResolver k resolver) ∧ (s.setResolver k resolver).Settled := by
  refine settled.beside rfl rfl ?_ (fun _ member => .inl member) (fun _ member => .inl member) fun _ => le_rfl
  intro other r found
  dsimp only [BrokerState.setResolver] at found
  by_cases here : other = k
  · rw [here, Function.update_self] at found
    have here := sound r found
    cases r <;> exact .inr here
  · rw [Function.update_of_ne here] at found
    exact .inl found

theorem Settled.setApprovals (settled : s.Settled) {approvals : Approvals} {owed : List Resolution}
    (advances : s.Advances { s with approvals := approvals, owed := owed })
    (rows : ∀ id row, approvals.find id = some row → row.Decided ∧ ∃ w, s.waiters id = some w ∧ row.asked = w.approval)
    (announced : ∀ id, announcements { s with approvals := approvals, owed := owed } id ≤
      resolutions { s with approvals := approvals, owed := owed } id) :
    Settled { s with approvals := approvals, owed := owed } where
  rows := rows
  waiters id w found := (settled.waiters id w found).later settled advances
  resolvers k r found := (settled.resolvers k r found).later settled advances
  grants g member := (settled.grants g member).later settled advances
  standing g member := (settled.standing g member).later settled advances
  announced := announced

theorem closed_eq_false (pending : row.status = .pending) : row.closed = false := by
  rw [Approval.closed, pending]
  rfl

theorem resolve_closed {target : ApprovalStatus} {decision : Option Decision} (moves : target ≠ .pending) :
    (row.resolve target decision now).closed = true := by
  simp [Approval.closed, Approval.resolve, moves]

section Resolving
variable {target : ApprovalStatus} {decision : Option Decision} {runId text : String}

theorem find_resolved (found : s.approvals.find id = some row) (other : String) :
    (s.approvals.set (row.resolve target decision now)).find other =
      if other = id then some (row.resolve target decision now) else s.approvals.find other := by
  have key : (row.resolve target decision now).id = id := by
    have here := Table.find_key found
    exact here
  rw [Table.find_set, key]
  split
  next here => rw [here, found, Option.map_some]
  next => rfl

theorem resolved_advances (found : s.approvals.find id = some row) (pending : row.status = .pending)
    {owed : List Resolution} :
    s.Advances { s with approvals := s.approvals.set (row.resolve target decision now), owed := owed } := by
  refine ⟨fun other row' hit => ?_, fun _ w hit => ⟨w, hit, rfl, rfl⟩⟩
  dsimp only
  rw [find_resolved found]
  split
  next here =>
    subst here
    rw [found] at hit
    obtain rfl := Option.some.inj hit
    refine ⟨_, rfl, rfl, fun closed => ?_⟩
    rw [closed_eq_false pending] at closed
    cases closed
  next => exact ⟨row', hit, rfl, fun _ => rfl⟩

theorem Settled.resolved (settled : s.Settled) (found : s.approvals.find id = some row)
    (pending : row.status = .pending) (moves : target ≠ .pending)
    (decided : (row.resolve target decision now).Decided) :
    Settled { s with
      approvals := s.approvals.set (row.resolve target decision now)
      owed := s.owed ++ [⟨id, runId, text⟩] } := by
  refine settled.setApprovals (resolved_advances found pending) ?_ ?_
  · intro other row' hit
    rw [find_resolved found] at hit
    split at hit
    next here =>
      subst here
      obtain rfl := Option.some.inj hit
      exact ⟨decided, (settled.rows other row found).2⟩
    next => exact settled.rows other row' hit
  · intro other
    have before := settled.announced other
    unfold announcements resolutions at before ⊢
    dsimp only
    rw [find_resolved found, List.countP_append, List.countP_singleton]
    by_cases here : other = id
    · subst here
      rw [found, Option.any_some, closed_eq_false pending] at before
      simp only [if_true, Option.any_some, resolve_closed moves, beq_self_eq_true]
      rw [if_neg Bool.false_ne_true] at before
      omega
    · have apart : ¬ (id == other) = true := by simpa using Ne.symm here
      rw [if_neg here, if_neg apart]
      omega

end Resolving

section Steps
variable {stored : Bool}

theorem Settled.moves (settled : s.Settled) (found : s.waiters id = some w) {w' : Waiter}
    (origin : w'.origin = w.origin) (approval : w'.approval = w.approval)
    (sent : ∀ d, w'.inbox = some d → s.Holds id d) (deciding : ∀ d, w'.phase = .deciding d → s.Holds id d)
    (allowed : w'.phase = .returned .allow → ∃ row, s.approvals.find id = some row ∧ row.status = .approved) :
    s.Advances (s.setWaiter id w') ∧ (s.setWaiter id w').Settled := by
  have same : ∀ old, s.waiters id = some old → w'.origin = old.origin ∧ w'.approval = old.approval := by
    intro old hit
    rw [found] at hit
    rw [← Option.some.inj hit]
    exact ⟨origin, approval⟩
  refine ⟨setWaiter_advances same, settled.setWaiter same ⟨?_, sent, deciding, allowed⟩⟩
  rw [approval, origin]
  exact (settled.waiters id w found).asked

theorem Settled.returns (settled : s.Settled) (found : s.waiters id = some w) {verdict : GateDecision}
    (refused : verdict ≠ .allow) :
    s.Advances (s.setWaiter id (w.returns verdict)) ∧ (s.setWaiter id (w.returns verdict)).Settled :=
  settled.moves found rfl rfl (settled.waiters id w found).sent nofun
    fun returned => absurd (Phase.returned.inj returned) refused

theorem unhuman_decided {target : ApprovalStatus} (refused : target ≠ .approved) :
    (row.resolve target none now).Decided where
  open_ _ := rfl
  offered _ decided := nomatch decided
  human approved := absurd approved refused

theorem Settled.resolveAs (settled : s.Settled) {approval : Approval} {target : ApprovalStatus} {text : String}
    (moves : target ≠ .pending) (refused : target ≠ .approved)
    (landed : s.resolveAs approval target text now = .ok s') :
    s.Advances s' ∧ s'.Settled ∧ s'.waiters = s.waiters := by
  unfold BrokerState.resolveAs at landed
  split at landed
  next resolved approvals done =>
    obtain ⟨row, found, pending, -, -, rfl, rfl⟩ := resolveWhere_eq_ok done
    obtain rfl := Except.ok.inj landed
    exact ⟨resolved_advances found pending,
      settled.resolved found pending moves (unhuman_decided refused), rfl⟩
  next => exact nomatch landed

theorem Settled.waits (settled : s.Settled) (unused : s.waiters id = none) (origin : Origin)
    (expiresAt createdAt : String) :
    s.Advances (s.waits origin id expiresAt createdAt) ∧ (s.waits origin id expiresAt createdAt).Settled := by
  have same : ∀ {w : Waiter} old, s.waiters id = some old → w.origin = old.origin ∧ w.approval = old.approval := by
    intro w old hit
    rw [unused] at hit
    exact nomatch hit
  refine ⟨setWaiter_advances same, settled.setWaiter same ⟨?_, nofun, nofun, nofun⟩⟩
  cases origin <;> rfl

theorem Origin.approval_id (origin : Origin) (expiresAt createdAt : String) :
    (origin.approval id expiresAt createdAt).id = id := by
  cases origin <;> rfl

theorem Origin.approval_asked (origin : Origin) (expiresAt createdAt : String) :
    (origin.approval id expiresAt createdAt).asked = origin.approval id expiresAt createdAt := by
  cases origin <;> rfl

theorem Origin.approval_pending (origin : Origin) (expiresAt createdAt : String) :
    (origin.approval id expiresAt createdAt).status = .pending ∧
      (origin.approval id expiresAt createdAt).decision = none := by
  cases origin <;> exact ⟨rfl, rfl⟩

theorem Settled.inserts (settled : s.Settled) (found : s.waiters id = some w) {approvals : Approvals}
    (inserted : insertApproval s.approvals w.approval = .ok approvals) :
    s.Advances { s with approvals := approvals } ∧ Settled { s with approvals := approvals } := by
  have asked := (settled.waiters id w found).asked
  have key : w.approval.id = id := by rw [asked]; exact Origin.approval_id ..
  unfold insertApproval at inserted
  split at inserted
  · cases inserted
  rename_i absent
  rw [key, Bool.not_eq_true, Option.isSome_eq_false_iff, Option.isNone_iff_eq_none] at absent
  obtain rfl := Except.ok.inj inserted
  have hits : ∀ other, (s.approvals.put w.approval).find other =
      if other = id then some w.approval else s.approvals.find other := by
    intro other
    rw [Table.find_put, key]
  have advances : s.Advances { s with approvals := s.approvals.put w.approval } := by
    refine ⟨fun other row hit => ?_, fun _ w hit => ⟨w, hit, rfl, rfl⟩⟩
    dsimp only
    rw [hits, if_neg]
    · exact ⟨row, hit, rfl, fun _ => rfl⟩
    · rintro rfl
      rw [absent] at hit
      cases hit
  refine ⟨advances, settled.setApprovals advances ?_ ?_⟩
  · intro other row hit
    rw [hits] at hit
    split at hit
    next here =>
      subst here
      obtain rfl := Option.some.inj hit
      refine ⟨?_, w, found, ?_⟩
      · rw [asked]
        obtain ⟨pending, none⟩ := Origin.approval_pending w.origin w.approval.expiresAt w.approval.createdAt
        refine ⟨fun _ => none, ?_, ?_⟩
        · intro d decided
          cases none.symm.trans decided
        · intro approved
          cases pending.symm.trans approved
      · rw [asked]
        exact Origin.approval_asked ..
    next => exact settled.rows other row hit
  · intro other
    refine (settled.announced other).trans ?_
    unfold resolutions
    dsimp only
    rw [hits]
    split
    next closed =>
      rw [if_pos]
      rw [if_neg]
      · exact closed
      · rintro rfl
        rw [absent] at closed
        cases closed
    next => exact Nat.zero_le _

theorem Settled.saves (settled : s.Settled) (found : s.waiters id = some w) :
    s.Advances (s.saves id w stored) ∧ (s.saves id w stored).Settled := by
  have unrecorded : s.Advances (s.setWaiter id (w.returns (.deny "approval could not be recorded (fail-closed)"))) ∧
      (s.setWaiter id (w.returns (.deny "approval could not be recorded (fail-closed)"))).Settled :=
    settled.returns found nofun
  unfold BrokerState.saves
  split
  next approvals done =>
    split at done
    · obtain ⟨advances, inserted⟩ := settled.inserts found done
      let logged : BrokerState :=
        { s with
          approvals := approvals
          watchdogs := Function.update s.watchdogs id true
          log := s.log ++ [.required w.approval] }
      have beside : Advances { s with approvals := approvals } logged ∧ logged.Settled := by
        refine inserted.beside rfl rfl (fun _ _ hit => .inl hit) (fun _ member => .inl member)
          (fun _ member => .inl member) fun other => ?_
        simp [announcements, logged, BrokerEvent.resolves]
      have still : logged.waiters id = some w := found
      have known := beside.2.waiters id w still
      have moved : logged.Advances (logged.setWaiter id { w with phase := .waiting }) ∧
          (logged.setWaiter id { w with phase := .waiting }).Settled :=
        beside.2.moves still rfl rfl known.sent nofun nofun
      exact ⟨(advances.trans beside.1).trans moved.1, moved.2⟩
    · exact nomatch done
  next => exact unrecorded

theorem Settled.receives (settled : s.Settled) (found : s.waiters id = some w) :
    s.Advances (s.receives id w) ∧ (s.receives id w).Settled := by
  have known := settled.waiters id w found
  unfold BrokerState.receives
  split
  next decision arrived =>
    refine settled.moves found rfl rfl nofun ?_ nofun
    rintro _ ⟨⟩
    exact known.sent decision arrived
  next =>
    split
    · exact ⟨.refl, settled⟩
    · exact settled.returns found nofun

theorem Settled.timesOut (settled : s.Settled) (found : s.waiters id = some w) :
    s.Advances (s.timesOut id w now stored) ∧ (s.timesOut id w now stored).Settled := by
  have known := settled.waiters id w found
  unfold BrokerState.timesOut
  split
  next s' done =>
    split at done
    · obtain ⟨advances, resolved, same⟩ := settled.resolveAs (by decide) (by decide) done
      have refused : GateDecision.deny "approval timed out (fail-closed)" ≠ .allow := nofun
      obtain ⟨returned, after⟩ := resolved.returns (same ▸ found) refused
      exact ⟨advances.trans returned, after⟩
    · exact nomatch done
  next => exact settled.moves found rfl rfl known.sent nofun nofun
  next => exact settled.returns found nofun

theorem verdictFromRow_allow {decision : Option Decision} {status : ApprovalStatus}
    (allows : verdictFromRow decision status = .allow) : status = .approved := by
  cases status with
  | approved => rfl
  | _ => exact nomatch allows

theorem Settled.rereads (settled : s.Settled) (found : s.waiters id = some w) :
    s.Advances (s.rereads id w stored) ∧ (s.rereads id w stored).Settled := by
  have known := settled.waiters id w found
  unfold BrokerState.rereads
  split
  · exact settled.returns found (fun same => by cases same)
  rename_i row done
  split at done
  next =>
    split
    next decision approved decided =>
      refine settled.moves found rfl rfl known.sent ?_ (fun same => by cases same)
      rintro _ ⟨⟩
      exact ⟨row, done, decided⟩
    next =>
      refine settled.moves found rfl rfl known.sent (fun _ same => by cases same) fun returned => ?_
      exact ⟨row, done, verdictFromRow_allow (Phase.returned.inj returned)⟩
  · cases done

theorem Settled.cancels (settled : s.Settled) (found : s.waiters id = some w) :
    s.Advances (s.cancels id w now stored) ∧ (s.cancels id w now stored).Settled := by
  unfold BrokerState.cancels
  dsimp only
  split
  next s' done =>
    split at done
    · obtain ⟨advances, resolved, same⟩ := settled.resolveAs (by decide) (by decide) done
      have refused : GateDecision.abortRun "run cancelled while approval pending" ≠ .allow := nofun
      obtain ⟨returned, after⟩ := resolved.returns (same ▸ found) refused
      exact ⟨advances.trans returned, after⟩
    · exact nomatch done
  next => exact settled.returns found nofun

theorem mem_grant {grants : List (String × String)} {scope tool : String} {g : String × String}
    (member : g ∈ grant grants scope tool) : g ∈ grants ∨ g = (scope, tool) := by
  rw [grant, List.mem_insert_iff] at member
  obtain same | listed := member
  · exact .inr same
  split at listed
  · exact nomatch listed
  · exact .inl listed

theorem Settled.applyDecision (settled : s.Settled) (found : s.waiters id = some w) (holds : s.Holds id d) :
    s.Advances (s.applyDecision w.origin.ctx d stored) ∧ (s.applyDecision w.origin.ctx d stored).Settled ∧
      (s.applyDecision w.origin.ctx d stored).waiters = s.waiters ∧
      (s.applyDecision w.origin.ctx d stored).approvals = s.approvals := by
  unfold BrokerState.applyDecision
  split
  next kind =>
    let granted := { s with grants := grant s.grants w.origin.ctx.scope w.origin.ctx.tool }
    have both : s.Advances granted ∧ granted.Settled := settled.beside rfl rfl (fun _ _ hit => .inl hit)
      (fun g member => (mem_grant member).imp_right fun same => ⟨id, w, d, found, holds, kind, same⟩)
      (fun _ member => .inl member) fun _ => le_rfl
    exact ⟨both.1, both.2, rfl, rfl⟩
  next =>
    split
    next kind =>
      split
      next scopeKind scopeId target durable names =>
        split
        · let granted := { s with standing := s.standing.insert ⟨scopeKind, scopeId, w.origin.ctx.tool, target⟩ }
          have both : s.Advances granted ∧ granted.Settled := by
            refine settled.beside rfl rfl (fun _ _ hit => .inl hit) (fun _ member => .inl member) ?_ fun _ => le_rfl
            intro g member
            obtain rfl | listed := List.mem_insert_iff.mp member
            · exact .inr ⟨id, w, d, found, holds, kind, durable, rfl, names⟩
            · exact .inl listed
          exact ⟨both.1, both.2, rfl, rfl⟩
        · exact ⟨.refl, settled, rfl, rfl⟩
      · exact ⟨.refl, settled, rfl, rfl⟩
    · exact ⟨.refl, settled, rfl, rfl⟩

theorem verdict_allow (allows : d.verdict = .allow) : d.status = some .approved := by
  unfold Decision.verdict at allows
  split at allows
  next approves => exact if_pos approves
  split at allows
  · exact nomatch allows
  · split at allows <;> exact nomatch allows

section
variable (settled : s.Settled)
include settled

theorem Settled.decides (found : s.waiters id = some w) (deciding : w.phase = .deciding d) :
    s.Advances (s.decides id w d stored) ∧ (s.decides id w d stored).Settled := by
  have known := settled.waiters id w found
  have holds := known.deciding d deciding
  let applied := s.applyDecision w.origin.ctx d stored
  have both : s.Advances applied ∧ applied.Settled ∧ applied.waiters = s.waiters ∧
      applied.approvals = s.approvals := settled.applyDecision found holds
  obtain ⟨advances, after, same, rows⟩ := both
  have still : applied.waiters id = some w := same ▸ found
  have moved : applied.Advances (applied.setWaiter id (w.returns d.verdict)) ∧
      (applied.setWaiter id (w.returns d.verdict)).Settled := by
    refine after.moves still rfl rfl (after.waiters id w still).sent nofun fun allows => ?_
    obtain ⟨row, hit, decided⟩ := holds
    have offered := (settled.rows id row hit).1.offered d decided
    refine ⟨row, rows ▸ hit, ?_⟩
    rw [verdict_allow (Phase.returned.inj allows)] at offered
    exact (Option.some.inj offered.2.1).symm
  exact ⟨advances.trans moved.1, moved.2⟩

theorem Settled.drops (found : s.waiters id = some w) :
    s.Advances (s.drops id w) ∧ (s.drops id w).Settled := by
  unfold BrokerState.drops
  split
  · exact ⟨.refl, settled⟩
  · exact settled.moves found rfl rfl (settled.waiters id w found).sent nofun nofun

theorem Settled.setWatchdogs (watchdogs : String → Bool) :
    s.Advances { s with watchdogs := watchdogs } ∧ Settled { s with watchdogs := watchdogs } :=
  settled.beside rfl rfl (fun _ _ hit => .inl hit) (fun _ member => .inl member) (fun _ member => .inl member)
    fun _ => le_rfl

theorem Settled.fires : s.Advances (s.fires id w now) ∧ (s.fires id w now).Settled := by
  obtain ⟨disarmed, after⟩ := settled.setWatchdogs (Function.update s.watchdogs id false)
  unfold BrokerState.fires
  dsimp only
  split
  next s' done =>
    obtain ⟨advances, resolved, -⟩ := after.resolveAs (by decide) (by decide) done
    exact ⟨disarmed.trans advances, resolved⟩
  next => exact ⟨disarmed, after⟩

theorem Settled.sweeps : s.Advances (s.sweeps now) ∧ (s.sweeps now).Settled := by
  let due : Approval → Bool := fun row => row.status == .pending && decide (row.expiresAt < now)
  let expire : Approval → Approval := fun row => { row with status := .timedOut, decidedAt := some now }
  have hits : ∀ id, (s.sweeps now).approvals.find id =
      (s.approvals.find id).map fun row => if due row then expire row else row := by
    intro id
    have keeps : ∀ row, (expire row).id = row.id := fun _ => rfl
    exact @Table.find_update _ _ _ Approval.id s.approvals id due expire keeps
  have pending : ∀ {row}, due row = true → row.status = .pending := by
    intro row selected
    rw [Bool.and_eq_true, beq_iff_eq] at selected
    exact selected.1
  have advances : s.Advances (s.sweeps now) := by
    refine ⟨fun id row found => ?_, fun _ w hit => ⟨w, hit, rfl, rfl⟩⟩
    rw [hits, found, Option.map_some]
    split
    next selected =>
      refine ⟨_, rfl, ?_, fun closed => ?_⟩
      · rfl
      · rw [closed_eq_false (pending selected)] at closed
        exact nomatch closed
    next => exact ⟨row, rfl, rfl, fun _ => rfl⟩
  refine ⟨advances, settled.setApprovals advances ?_ ?_⟩
  · intro id row found
    have hit := (hits id).symm.trans found
    rw [Option.map_eq_some_iff] at hit
    obtain ⟨before, found', shape⟩ := hit
    obtain ⟨decided, w, waits, asked⟩ := settled.rows id before found'
    split at shape
    next selected =>
      have none := decided.open_ (closed_eq_false (pending selected))
      rw [← shape]
      refine ⟨⟨fun _ => none, fun d decided => ?_, nofun⟩, w, waits, asked⟩
      exact nomatch none.symm.trans decided
    next =>
      rw [← shape]
      exact ⟨decided, w, waits, asked⟩
  · intro id
    have before := settled.announced id
    have count : ((s.approvals.rows.filter due).map fun row => Resolution.mk row.id row.runId "timed_out").countP
        (fun resolution => resolution.approvalId == id) = if (s.approvals.find id).any due then 1 else 0 := by
      rw [List.countP_map, List.countP_filter, ← Table.countP_key s.approvals id]
      apply List.countP_congr
      intro row _
      simp [Function.comp]
    have owed : (s.sweeps now).announcements id =
        s.announcements id + if (s.approvals.find id).any due then 1 else 0 := by
      have owes : (s.sweeps now).owed =
          s.owed ++ (s.approvals.rows.filter due).map fun row => ⟨row.id, row.runId, "timed_out"⟩ := rfl
      unfold announcements
      rw [owes, List.countP_append, count]
      exact Nat.add_right_comm ..
    refine le_trans (le_of_eq owed) ?_
    unfold resolutions at before ⊢
    refine le_trans ?_ (le_of_eq (congrArg (fun hit => if Option.any Approval.closed hit then 1 else 0) (hits id).symm))
    cases found : s.approvals.find id with
    | none => simpa [found] using before
    | some row =>
      rw [found, Option.any_some] at before
      simp only [Option.any_some, Option.map_some]
      by_cases selected : due row = true
      · rw [closed_eq_false (pending selected), if_neg Bool.false_ne_true] at before
        simp only [selected, if_true]
        have closed : (expire row).closed = true := rfl
        rw [closed, if_pos rfl]
        omega
      · simp only [selected, Bool.false_eq_true, if_false]
        exact before

theorem Settled.resolveReads {k : Nat} :
    s.Advances (s.resolveReads k id d) ∧ (s.resolveReads k id d).Settled := by
  unfold BrokerState.resolveReads
  split
  · exact ⟨.refl, settled⟩
  rename_i row found
  split
  next status checked =>
    obtain ⟨-, offered, shape⟩ := checkDecision_eq_ok checked
    refine settled.setResolver ?_
    rintro _ ⟨⟩
    exact ⟨row, found, offered, shape⟩
  next => exact ⟨.refl, settled⟩

theorem Settled.resolveWrites {k : Nat} {status : ApprovalStatus} (checked : (Resolver.checked id d status).Sound s) :
    s.Advances (s.resolveWrites k id d status now) ∧ (s.resolveWrites k id d status now).Settled := by
  unfold BrokerState.resolveWrites
  split
  next resolved approvals done =>
    obtain ⟨row, found, pending, timely, moves, rfl, rfl⟩ := resolveWhere_eq_ok done
    obtain ⟨row', found', offered, shape⟩ := checked
    rw [found] at found'
    obtain rfl := Option.some.inj found'
    have decided : (row.resolve status (some d) now).Decided := by
      refine ⟨fun open_ => ?_, ?_, fun _ => rfl⟩
      · rw [resolve_closed moves] at open_
        exact nomatch open_
      · rintro _ ⟨⟩
        exact ⟨offered, shape, now, rfl, of_decide_eq_true timely⟩
    let resolved : BrokerState :=
      { s with
        approvals := s.approvals.set (row.resolve status (some d) now)
        owed := s.owed ++ [⟨id, row.runId, d.kind⟩] }
    have advances : s.Advances resolved := resolved_advances found pending
    have after : resolved.Settled := settled.resolved found pending moves decided
    have won : (Resolver.won id d).Sound resolved := by
      refine ⟨_, (find_resolved found id).trans (if_pos rfl), rfl⟩
    obtain ⟨kept, last⟩ := after.setResolver (k := k) fun r same => (Option.some.inj same) ▸ won
    exact ⟨advances.trans kept, last⟩
  next => exact settled.setResolver nofun

theorem Settled.resolveWakes {k : Nat} (holds : s.Holds id d) :
    s.Advances (s.resolveWakes k id d) ∧ (s.resolveWakes k id d).Settled := by
  have both : s.Advances (s.setResolver k none) ∧ (s.setResolver k none).Settled := settled.setResolver nofun
  obtain ⟨cleared, after⟩ := both
  unfold BrokerState.resolveWakes
  dsimp only
  split
  next w found =>
    split
    · have known := after.waiters id w found
      have moved : (s.setResolver k none).Advances ((s.setResolver k none).setWaiter id
            { w with registered := false, inbox := some d }) ∧
          ((s.setResolver k none).setWaiter id { w with registered := false, inbox := some d }).Settled := by
        refine after.moves found rfl rfl ?_ known.deciding known.allowed
        rintro _ ⟨⟩
        exact holds
      exact ⟨cleared.trans moved.1, moved.2⟩
    · exact ⟨cleared, after⟩
  · exact ⟨cleared, after⟩

theorem Settled.step (i : BrokerStep) : s.Advances (s.step i) ∧ (s.step i).Settled := by
  have stays : s.Advances s ∧ s.Settled := ⟨.refl, settled⟩
  have phased : ∀ id phase (f : Waiter → BrokerState),
      (∀ w, s.waiters id = some w → s.Advances (f w) ∧ (f w).Settled) →
      s.Advances ((s.inPhase id phase).elim s f) ∧ ((s.inPhase id phase).elim s f).Settled := by
    intro id phase f moves
    unfold inPhase
    cases found : s.waiters id with
    | none => exact stays
    | some w =>
      rw [Option.filter_some]
      split
      · exact moves w found
      · exact stays
  have shortened : ∀ n, s.Advances { s with owed := s.owed.eraseIdx n } ∧
      Settled { s with owed := s.owed.eraseIdx n } := by
    intro n
    refine settled.beside rfl rfl (fun _ _ hit => .inl hit) (fun _ member => .inl member)
      (fun _ member => .inl member) fun id => ?_
    exact Nat.add_le_add_right (List.eraseIdx_sublist ..).countP_le _
  cases i with
  | checks =>
    dsimp only [BrokerState.step]
    split
    · exact stays
    rename_i free
    rw [Bool.not_eq_true, Bool.or_eq_false_iff, Option.isSome_eq_false_iff, Option.isNone_iff_eq_none] at free
    exact settled.waits free.1 ..
  | plans =>
    dsimp only [BrokerState.step]
    split
    · exact stays
    rename_i free
    rw [Bool.not_eq_true, Option.isSome_eq_false_iff, Option.isNone_iff_eq_none] at free
    exact settled.waits free ..
  | saves id stored => exact phased id .unsaved _ fun w found => settled.saves found
  | receives id => exact phased id .waiting _ fun w found => settled.receives found
  | timesOut id => exact phased id .waiting _ fun w found => settled.timesOut found
  | rereads id readable => exact phased id .rereading _ fun w found => settled.rereads found
  | cancels id => exact phased id .waiting _ fun w found => settled.cancels found
  | decides id stored =>
    dsimp only [BrokerState.step]
    cases found : s.waiters id with
    | none => exact stays
    | some w =>
      dsimp only [Option.elim]
      split
      next d deciding => exact settled.decides found deciding
      next => exact stays
  | drops id =>
    dsimp only [BrokerState.step]
    cases found : s.waiters id with
    | none => exact stays
    | some w => exact settled.drops found
  | fires id now =>
    dsimp only [BrokerState.step]
    split
    · cases found : s.waiters id with
      | none => exact stays
      | some w => exact settled.fires
    · exact stays
  | sweeps now => exact settled.sweeps
  | resolveReads => exact settled.resolveReads
  | resolveWrites k now =>
    dsimp only [BrokerState.step]
    split
    next id d status held => exact settled.resolveWrites (settled.resolvers k _ held)
    · exact stays
  | resolveWakes k =>
    dsimp only [BrokerState.step]
    split
    next id d held => exact settled.resolveWakes (settled.resolvers k _ held)
    · exact stays
  | resolveDrops k => exact settled.setResolver nofun
  | announces n =>
    dsimp only [BrokerState.step]
    split
    next resolution owed =>
      refine settled.beside rfl rfl (fun _ _ hit => .inl hit) (fun _ member => .inl member)
        (fun _ member => .inl member) fun id => ?_
      obtain ⟨short, here⟩ := List.getElem?_eq_some_iff.mp owed
      have count := (List.getElem_cons_eraseIdx_perm short).countP_eq
        fun resolution => resolution.approvalId == id
      rw [here, List.countP_cons] at count
      unfold announcements
      dsimp only
      rw [List.countP_append, List.countP_singleton, ← count]
      have same : BrokerEvent.resolves id (.resolved resolution) = (resolution.approvalId == id) := rfl
      rw [same]
      omega
    · exact stays
  | forgets n => exact shortened n

end

theorem Settled.start : BrokerState.start.Settled where
  rows _ row found := nomatch (Option.some_ne_none row found.symm)
  waiters _ w found := nomatch (Option.some_ne_none w found.symm)
  resolvers _ r found := nomatch (Option.some_ne_none r found.symm)
  grants _ member := nomatch member
  standing _ member := nomatch member
  announced _ := Nat.le_refl 0

theorem Settled.run (settled : s.Settled) (steps : List BrokerStep) :
    s.Advances (Library.run BrokerState.step steps s) ∧ (Library.run BrokerState.step steps s).Settled := by
  induction steps generalizing s with
  | nil => exact ⟨.refl, settled⟩
  | cons i rest ih =>
    obtain ⟨now, next⟩ := settled.step i
    obtain ⟨later, last⟩ := ih next
    exact ⟨now.trans later, last⟩

end Steps

end BrokerState
end Moves

def Approval.Shows (row : Approval) (call : GateCall) : Prop :=
  row.runId = call.runId ∧ row.toolCallId = call.toolCallId ∧ row.summary = call.info.name ++ ": " ++ call.inputSummary ∧
    row.payload = call.input

def GateCall.PerCall (call : GateCall) : Prop :=
  call.info.source = "module" ∧ call.info.riskClass.requiresApproval = true

section Grants
variable {s : BrokerState} {id : String} {w : Waiter} {row : Approval} {d : Decision}

theorem Origin.standing_offered {origin : Origin} {id expiresAt createdAt : String} :
    ("approve_for_session" ∈ (origin.approval id expiresAt createdAt).availableDecisions →
      ∃ call disk, origin = .gate call disk ∧ ¬ call.PerCall) ∧
    ("approve_for_target" ∈ (origin.approval id expiresAt createdAt).availableDecisions →
      ∃ call disk, origin = .gate call disk ∧ ¬ call.PerCall) := by
  have perCall : ∀ call : GateCall, call.request.modulePerCall = false → ¬ call.PerCall := by
    rintro call free ⟨source, risk⟩
    simp [ApprovalRequest.modulePerCall, GateCall.request, source, risk] at free
  cases origin with
  | plan call =>
    have offered : (Origin.approval (.plan call) id expiresAt createdAt).availableDecisions = ["approve", "deny"] := rfl
    rw [offered]
    exact ⟨fun member => by simp at member, fun member => by simp at member⟩
  | gate call disk =>
    exact ⟨fun member => ⟨call, disk, rfl, perCall call (session_offered member)⟩,
      fun member => ⟨call, disk, rfl, perCall call (target_offered member).1⟩⟩

/-- What stands behind a grant: the row of a gated call, approved by a decision of the grant's kind. -/
theorem BrokerState.Settled.backed (settled : s.Settled) {kind : String} {covers : GrantCtx → Prop}
    (standing : kind = "approve_for_session" ∨ kind = "approve_for_target") (backs : s.Backs kind covers) :
    ∃ row ∈ s.approvals.rows, ∃ call disk d, row.Shows call ∧ ¬ call.PerCall ∧ row.status = .approved ∧
      row.decision = some d ∧ d.kind = kind ∧ row.standingTarget = (call.request.grantCtx disk).target ∧
      covers (call.request.grantCtx disk) := by
  obtain ⟨id, w, d, found, ⟨row, hit, decided⟩, same, covered⟩ := backs
  obtain ⟨made, w', found', asked⟩ := settled.rows id row hit
  rw [found] at found'
  obtain rfl := Option.some.inj found'
  obtain ⟨offered, status, -⟩ := made.offered d decided
  rw [(settled.waiters id w found).asked] at asked
  have shown : ∀ {α} (f : Approval → α), (∀ row : Approval, f row.asked = f row) →
      f row = f (w.origin.approval id w.approval.expiresAt w.approval.createdAt) := by
    intro α f keeps
    rw [← keeps row, asked]
  rw [shown Approval.availableDecisions fun _ => rfl, same] at offered
  have gate : ∃ call disk, w.origin = .gate call disk ∧ ¬ call.PerCall := by
    obtain rfl | rfl := standing
    · exact Origin.standing_offered.1 offered
    · exact Origin.standing_offered.2 offered
  obtain ⟨call, disk, origin, free⟩ := gate
  rw [origin] at covered shown
  refine ⟨row, (Table.find_eq_some.mp hit).1, call, disk, d, ⟨?_, ?_, ?_, ?_⟩, free, ?_, decided, same, ?_, covered⟩
  · exact shown Approval.runId fun _ => rfl
  · exact shown Approval.toolCallId fun _ => rfl
  · exact shown Approval.summary fun _ => rfl
  · exact shown Approval.payload fun _ => rfl
  · have approves : d.status = some .approved := by
      obtain rfl | rfl := standing <;> simp [Decision.status, same]
    exact Option.some.inj (status.symm.trans approves)
  · exact shown Approval.standingTarget fun _ => rfl

end Grants

end Agent24.Policy
