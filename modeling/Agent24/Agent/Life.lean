import Agent24.Agent.Frame
import Agent24.Agent.Resume

/-! The life of a run: its tasks, the daemons they die with, and what others do to its rows meanwhile. -/

set_option autoImplicit false
namespace Agent24.Agent
open Library

/-- A run's rows, and its live task. A cancel token is registered exactly while there is one. -/
structure Daemon where
  world : World
  task : Option (Task Unit)

/-- A run as `start_run` stores it. -/
structure Fresh (w : World) : Prop where
  queued : w.run.status = .queued
  unused : w.run.usage = zeroUsage
  thread : w.thread = []
  trace : w.trace = []
  calls : ∀ call ∈ w.toolCalls, call.runId ≠ w.run.id
  approvals : ∀ approval ∈ w.approvals, approval.runId ≠ w.run.id

instance (w : World) : Decidable (Fresh w) :=
  decidable_of_iff
    (w.run.status = .queued ∧ w.run.usage = zeroUsage ∧ w.thread = [] ∧ w.trace = [] ∧
      (∀ call ∈ w.toolCalls, call.runId ≠ w.run.id) ∧
      ∀ approval ∈ w.approvals, approval.runId ≠ w.run.id)
    ⟨fun ⟨queued, unused, thread, trace, calls, approvals⟩ =>
      ⟨queued, unused, thread, trace, calls, approvals⟩,
    fun fresh => ⟨fresh.queued, fresh.unused, fresh.thread, fresh.trace, fresh.calls, fresh.approvals⟩⟩

inductive Op where
  -- with a registry and a time limit that may differ from one process to the next
  | start (tools : ToolRegistry)
  | resume (tools : ToolRegistry) (cutoff approvalId : String)
  -- the live task
  | advance (answers : (effect : Effect) → effect.Reply)
  | panic
  | crash
  -- others
  | interfere (other : Interference)
  | cancel
  | recoverTimedOut
  -- at startup
  | restore (tools : ToolRegistry) (cutoff : String) (authority : Approval → Bool)
  | sweepOrphans

section Sweeps
variable (P : Platform)

def hasPendingApproval (w : World) : Bool :=
  w.approvals.any fun a => a.runId == w.run.id && a.status == .pending

/-- A run `timed_out_approval_recovery_run_ids` names. -/
def timedOutRecoverable (w : World) : Bool :=
  w.run.status == .awaitingApproval && !hasPendingApproval w &&
    match (w.approvals.filter fun a => a.runId == w.run.id).getLast? with
    | some latest => latest.status == .timedOut
    | none => false

def isOrphan (w : World) : Bool :=
  w.run.status == .queued || w.run.status == .running ||
    (w.run.status == .awaitingApproval && !hasPendingApproval w)

def cancelRow (w : World) : World := (w.transition .cancelled {}).2

def restorable (tools : ToolRegistry) (cutoff : String) (authority : Approval → Bool) (w : World)
    (approval : Approval) : Bool :=
  match assessRestore P (approval.approvedCall (w.approvedTool approval)) approval.createdAt
      w.run.status w.thread (toolExists tools) cutoff with
  | .restore _ => !w.run.workspaceBound || authority approval
  | .abort _ => false

def restorePendingApprovals (tools : ToolRegistry) (cutoff : String) (authority : Approval → Bool)
    (w : World) : World :=
  ((w.approvals.filter fun a => a.runId == w.run.id && a.status == .pending).filter fun a =>
    !restorable P tools cutoff authority w a).foldl (fun w a => w.resolveApproval a.id .aborted none) w

end Sweeps

theorem resolveAll_rows (approvals : List Approval) (status : ApprovalStatus) (w : World) :
    let swept := approvals.foldl (fun w a => w.resolveApproval a.id status none) w
    Evolves w swept ∧ swept.run = w.run ∧ swept.thread = w.thread ∧ swept.trace = w.trace := by
  induction approvals generalizing w with
  | nil => exact ⟨.refl w, rfl, rfl, rfl⟩
  | cons a rest ih =>
    obtain ⟨evolves, run, thread, trace⟩ := ih (w.resolveApproval a.id status none)
    have first : Evolves w (w.resolveApproval a.id status none) :=
      World.evolves_resolveApproval fun _ given => nomatch given
    exact ⟨first.trans evolves, run, thread, trace⟩

theorem restored_rows {P : Platform} (w : World) (tools : ToolRegistry) (cutoff : String)
    (authority : Approval → Bool) :
    let swept := restorePendingApprovals P tools cutoff authority w
    Evolves w swept ∧ swept.run = w.run ∧ swept.thread = w.thread ∧ swept.trace = w.trace :=
  resolveAll_rows _ .aborted w

section Step
variable (P : Platform)

/-- `resume_run`: only a parked run without a task is resumed, by an approval of its own. -/
def resumeRun (tools : ToolRegistry) (cutoff approvalId : String) (w : World) : Daemon :=
  match w.approval? approvalId with
  | none => ⟨w, none⟩
  | some approval =>
    if w.run.status = .awaitingApproval ∧ approval.runId = w.run.id then
      ⟨{ w with trace := w.trace ++ [.resumed] },
        some (driveResume P tools w.run cutoff w.thread approval)⟩
    else ⟨w, none⟩

def advance (answers : (effect : Effect) → effect.Reply) (w : World) : Task Unit → Daemon
  | .done () => ⟨w, none⟩
  | .ask effect next =>
    let settled := respond effect (answers effect) w
    ⟨settled.2, some (next settled.1)⟩

def panicMessage (w : World) : String :=
  if w.trace.contains .resumed then "run resume panicked" else "run execution panicked"

def step (d : Daemon) (op : Op) : Daemon :=
  match d.task, op with
  | some task, .advance answers => advance answers d.world task
  -- the supervisor lands a task that panicked
  | some _, .panic => ⟨d.world, some (finishFailed "internal" (panicMessage d.world))⟩
  | some _, .crash => ⟨d.world, none⟩
  | none, .start tools =>
    if d.world.run.status = .queued then ⟨d.world, some (execute P tools d.world.run)⟩ else d
  | none, .resume tools cutoff approvalId => resumeRun P tools cutoff approvalId d.world
  -- the row of a run without a token is cancelled here
  | none, .cancel => ⟨cancelRow d.world, none⟩
  | none, .recoverTimedOut => if timedOutRecoverable d.world then ⟨cancelRow d.world, none⟩ else d
  | none, .restore tools cutoff authority =>
    ⟨restorePendingApprovals P tools cutoff authority d.world, none⟩
  | none, .sweepOrphans => if isOrphan d.world then ⟨cancelRow d.world, none⟩ else d
  | task, .interfere other => ⟨interfere d.world other, task⟩
  | _, _ => d

def live (w : World) (ops : List Op) : Daemon := run (step P) ops ⟨w, none⟩

inductive Move (d : Daemon) : Op → Daemon → Prop where
  | unmoved {op : Op} : Move d op d
  | started {tools : ToolRegistry} (queued : d.world.run.status = .queued) :
      Move d (.start tools) ⟨d.world, some (execute P tools d.world.run)⟩
  | resumed {tools : ToolRegistry} {cutoff approvalId : String} (idle : d.task = none) (approval : Approval)
      (member : approval ∈ d.world.approvals) (parked : d.world.run.status = .awaitingApproval)
      (own : approval.runId = d.world.run.id) :
      Move d (.resume tools cutoff approvalId) ⟨{ d.world with trace := d.world.trace ++ [.resumed] },
        some (driveResume P tools d.world.run cutoff d.world.thread approval)⟩
  | dropped {op : Op} : Move d op ⟨d.world, none⟩
  | asked {answers : (effect : Effect) → effect.Reply} (effect : Effect)
      (next : effect.Reply → Task Unit) (live : d.task = some (.ask effect next)) :
      Move d (.advance answers) ⟨(respond effect (answers effect) d.world).2,
        some (next (respond effect (answers effect) d.world).1)⟩
  | panicked : Move d .panic ⟨d.world, some (finishFailed "internal" (panicMessage d.world))⟩
  | interfered {other : Interference} : Move d (.interfere other) ⟨interfere d.world other, d.task⟩
  | cancelled {op : Op} (idle : d.task = none)
      (sweeps : op = .cancel ∨ op = .recoverTimedOut ∨ op = .sweepOrphans) :
      Move d op ⟨cancelRow d.world, none⟩
  | restored {tools : ToolRegistry} {cutoff : String} {authority : Approval → Bool} :
      Move d (.restore tools cutoff authority)
        ⟨restorePendingApprovals P tools cutoff authority d.world, none⟩

theorem step_moves (d : Daemon) (op : Op) : Move P d op (step P d op) := by
  obtain ⟨w, task⟩ := d
  cases task with
  | some p =>
    cases op with
    | advance answers =>
      cases p with
      | done value => exact .dropped
      | ask effect next => exact .asked effect next rfl
    | panic => exact .panicked
    | crash => exact .dropped
    | interfere other => exact .interfered
    | _ => exact .unmoved
  | none =>
    cases op with
    | start tools =>
      unfold step
      dsimp only
      split
      · next queued => exact .started queued
      · exact .unmoved
    | resume tools cutoff approvalId =>
      change Move P _ _ (resumeRun P tools cutoff approvalId w)
      unfold resumeRun
      split
      · exact .unmoved
      next approval found =>
      split
      · next parked =>
        exact .resumed rfl approval (List.mem_of_find?_eq_some found) parked.1 parked.2
      · exact .unmoved
    | interfere other => exact .interfered
    | cancel => exact .cancelled rfl (.inl rfl)
    | recoverTimedOut =>
      unfold step
      dsimp only
      split
      · exact .cancelled rfl (.inr (.inl rfl))
      · exact .unmoved
    | restore => exact .restored
    | sweepOrphans =>
      unfold step
      dsimp only
      split
      · exact .cancelled rfl (.inr (.inr rfl))
      · exact .unmoved
    | _ => exact .unmoved

theorem live_append (w : World) (ops : List Op) (op : Op) :
    live P w (ops ++ [op]) = step P (live P w ops) op := by
  unfold live
  rw [run_append, run_cons, run_nil]

end Step

section Samples

def queuedIn (mode : RunMode) : World where
  run := ⟨"run_1", .queued, none, none, zeroUsage, mode, false⟩
  thread := []
  toolCalls := []
  approvals := []
  trace := []

def surroundings (model : Bool → Except ModelError Completion) : (effect : Effect) → effect.Reply
  | .isCancelled => false
  | .originsAllowSend | .sendCopy _ | .resumeSourcesProven | .preapproved .. | .transition .. => true
  | .recoverWorkspaceRun => false
  | .complete planMode _ => model planMode
  | .prepare => .ready [⟨"user", some "tidy up", [], none⟩]
  | .finishToolCall .. => ()
  | .insertToolCall tool => some ("tc_" ++ tool)
  | .remember _ => some true
  | .appendMessage _ | .tagToolResult .. | .toolContext => none
  | .bindApproval _ | .auditDenied _ => none
  | .requestApproval .. =>
    some ⟨"apr_1", ["approve", "deny"], "2026-01-02T00:00:00Z", "2026-01-01T00:00:00Z"⟩
  | .awaitResolution _ => .decided ⟨"approve", none⟩
  | .approvedTool _ => some none
  | .execute .. => .ok "done"

end Samples

end Agent24.Agent
