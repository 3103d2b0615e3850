import Agent24.Agent.Footprint
import Agent24.Agent.Life
import Mathlib.Algebra.Ring.Nat

/-! The completion budget and the usage of a run, over its tasks and their crashes. -/

set_option autoImplicit false
namespace Agent24.Agent
open Library

section Usage

end Usage

section Books
variable {w w' : World}

def Unspent (w : World) : Prop := w.totalUsage = zeroUsage

instance (w : World) : Decidable (Unspent w) := inferInstanceAs (Decidable (_ = _))

/-- What the claim asks of a state: the budget, and the usage stored with a terminal state. -/
structure Accounted (w : World) : Prop where
  budget : w.completions.length ≤ maxIterations
  usage : w.run.status.isTerminal = true → w.run.usage = w.totalUsage

structure Books (w : World) : Prop extends Accounted w where
  unended : w.run.status.isTerminal = false → w.run.usage = zeroUsage
  queued : w.run.status = .queued → w.completions = []

structure Going (iterations : Nat) (usage : Usage) (w : World) : Prop where
  status : w.run.status = .running ∨ w.run.status = .awaitingApproval
  unstored : w.run.usage = zeroUsage
  total : w.totalUsage = usage
  budget : w.completions.length ≤ maxIterations
  fits : .resumed ∈ w.trace ∨ w.completions.length + iterations ≤ maxIterations

theorem Going.books {iterations : Nat} {usage : Usage} (going : Going iterations usage w) : Books w where
  budget := going.budget
  usage ended := by rcases going.status with status | status <;> simp [status, RunStatus.isTerminal] at ended
  unended _ := going.unstored
  queued waiting := by rcases going.status with status | status <;> simp [status] at waiting

def Budgeted (w : World) : Effect → Prop
  | .complete .. => .resumed ∈ w.trace → w.completions.length < maxIterations
  | .transition target _ => target = .failed ∨ target = .cancelled →
      runTransitionAllowed w.run.status target = true → Unspent w
  | .recoverWorkspaceRun => runTransitionAllowed w.run.status .cancelled = true → Unspent w
  | _ => True

theorem Books.same (books : Books w) (run : w'.run = w.run) (trace : w'.trace = w.trace) : Books w' := by
  obtain ⟨_, _, _, _, _⟩ := w'
  cases run
  cases trace
  exact ⟨⟨books.budget, books.usage⟩, books.unended, books.queued⟩

theorem Books.interfere (books : Books w) (other : Interference) : Books (interfere w other) := by
  obtain ⟨approvals, rows⟩ := interfere_rows w other
  rw [rows]
  exact books.same rfl rfl

theorem Going.interferes {iterations : Nat} {usage : Usage} (going : Going iterations usage w)
    (others : Interferes w w') : Going iterations usage w' := by
  obtain ⟨approvals, rfl⟩ := others.rows
  exact ⟨going.status, going.unstored, going.total, going.budget, going.fits⟩

def Steady : Effect → Prop
  | .complete .. | .recoverWorkspaceRun => False
  | .transition target patch => (target = .running ∨ target = .awaitingApproval) ∧ patch = {}
  | _ => True

theorem Going.settled {iterations : Nat} {usage : Usage} {effect : Effect}
    (going : Going iterations usage w) (settled : Settled effect w w') (steady : Steady effect) :
    Going iterations usage w' := by
  cases settled with
  | completed usage => exact steady.elim
  | recovered allowed => exact steady.elim
  | prepared snapshot =>
    obtain ⟨thread, whole⟩ := prepared_eq snapshot w
    rw [whole]
    exact ⟨going.status, going.unstored, going.total, going.budget, going.fits⟩
  | transitioned allowed =>
    obtain ⟨live, rfl⟩ := steady
    exact ⟨live, going.unstored, going.total, going.budget, going.fits⟩
  | @executed tool risk input _ =>
    -- an execution is no completion
    have same : ({ w with trace := w.trace ++ [.executed tool risk] } : World).completions = w.completions := by
      simp [World.completions]
    refine ⟨going.status, going.unstored, ?_, ?_, ?_⟩
    · unfold World.totalUsage
      rw [same]
      exact going.total
    · rw [same]
      exact going.budget
    · rw [same]
      exact going.fits.imp (fun resumed => List.mem_append_left _ resumed) fun fits => fits
  | _ => exact ⟨going.status, going.unstored, going.total, going.budget, going.fits⟩

end Books

def budgeted : Discipline Effect Effect.Reply World :=
  discipline Budgeted Books fun _ other books => books.interfere other

section Rules
variable {α β : Type} {iterations : Nat} {usage : Usage} {w : World}

theorem going_only {p : Task α} (only : p.Only Steady) (going : Going iterations usage w) :
    budgeted.Safe (fun _ => Going iterations usage) p w :=
  Discipline.safe_of_only only (fun _ held => Going.books held) (fun _ _ others held => held.interferes others)
    (fun w effect proposal steady _ held => held.settled (respond_settled effect proposal w) steady) going

section
variable {result : α → World → Prop}

theorem going_ask {effect : Effect} {f : effect.Reply → Task α} (steady : Steady effect)
    (going : Going iterations usage w)
    (rest : ∀ reply w, Going iterations usage w → budgeted.Safe result (f reply) w) :
    budgeted.Safe result (perform effect >>= f) w :=
  Discipline.Safe.ask_kept (fun _ held => Going.books held) (fun _ _ others held => held.interferes others)
    (fun w proposal _ held => held.settled (respond_settled effect proposal w) steady) going rest

theorem going_done {value : α} (going : Going iterations usage w)
    (ends : ∀ w, Going iterations usage w → result value w) :
    budgeted.Safe result (pure value) w :=
  discipline_done going.books fun w' others => ends w' (going.interferes others)

theorem books_done {value : α} (books : Books w) (ends : ∀ w, result value w) : budgeted.Safe result (pure value) w :=
  discipline_done books fun w' _ => ends w'

theorem Books.lost {target : RunStatus} {patch : RunPatch} (books : Books w)
    (allowed : runTransitionAllowed w.run.status target = true) (unused : patch.usage = none)
    (unspent : Unspent w) (notQueued : target ≠ .queued) :
    Books { w with run := w.run.patched target patch } := by
  have open_ : w.run.status.isTerminal = false := by
    cases status : w.run.status <;> rw [status] at allowed <;> first | rfl | cases target <;> cases allowed
  have kept : (w.run.patched target patch).usage = zeroUsage := by
    simp [Run.patched, unused, books.unended open_]
  exact ⟨⟨books.budget, fun _ => kept.trans unspent.symm⟩, fun _ => kept,
    fun waiting => absurd waiting notQueued⟩

theorem Books.transitioned {w' : World} {target : RunStatus} {patch : RunPatch} (books : Books w)
    (ends : target = .failed ∨ target = .cancelled) (unused : patch.usage = none)
    (meets : Budgeted w (.transition target patch)) (settled : Settled (.transition target patch) w w') :
    Books w' := by
  cases settled with
  | unchanged => exact books
  | transitioned allowed =>
    exact books.lost allowed unused (meets ends allowed) (by rcases ends with rfl | rfl <;> decide)

theorem finishLost_safe {target : RunStatus} {patch : RunPatch} {f : Bool → Task α}
    (ends : target = .failed ∨ target = .cancelled) (unused : patch.usage = none)
    (rest : ∀ reply w, Books w → budgeted.Safe result (f reply) w) (books : Books w) :
    budgeted.Safe result (perform (.transition target patch) >>= f) w :=
  discipline_ask books fun w' others meets proposal => rest _ _
    ((budgeted.stable others books : Books w').transitioned ends unused meets
      (respond_settled (.transition target patch) proposal w'))

end

theorem finishFailed_books (code message : String) (books : Books w) :
    budgeted.Safe (fun _ _ => True) (finishFailed code message) w :=
  finishLost_safe (.inl rfl) rfl (fun _ _ books => books_done books fun _ => trivial) books

theorem finishFailed_safe (code message : String) (going : Going iterations usage w) :
    budgeted.Safe (fun _ _ => True) (finishFailed code message) w :=
  finishFailed_books code message going.books

theorem finishCancelled_safe (going : Going iterations usage w) :
    budgeted.Safe (fun _ _ => True) finishCancelled w :=
  finishLost_safe (.inr rfl) rfl (fun _ _ books => books_done books fun _ => trivial) going.books

theorem finishCompleted_safe (text : String) (going : Going iterations usage w) :
    budgeted.Safe (fun _ _ => True) (finishCompleted text usage) w := by
  refine discipline_ask going.books fun w' others _ proposal => books_done ?_ fun _ => trivial
  have going := going.interferes others
  have settled := respond_settled
    (.transition .completed { output := some text, usage := some usage }) proposal w'
  generalize (respond (.transition .completed { output := some text, usage := some usage }) proposal w').2
    = w'' at settled ⊢
  cases settled with
  | unchanged => exact going.books
  | transitioned allowed =>
    exact ⟨⟨going.budget, fun _ => going.total.symm⟩, (fun ended => nomatch ended), fun waiting => nomatch waiting⟩

end Rules

section Footprints

theorem CallEffect.steady {risk : Option RiskClass} (effect : Effect) (calls : CallEffect risk effect) :
    Steady effect := by
  cases effect with
  | transition target patch => exact ⟨calls.1.symm, calls.2⟩
  | complete planMode messages => exact calls.elim
  | recoverWorkspaceRun => exact calls.elim
  | _ => trivial

theorem runPendingApproval_steady (toolCallId : String) (payload : Json) (plan : Bool) :
    (runPendingApproval toolCallId payload plan).Only Steady :=
  (runPendingApproval_only toolCallId payload plan ⟨.exec, rfl, rfl⟩).weaken CallEffect.steady

theorem runPlanProposal_steady (P : Platform) (tools : ToolRegistry) (call : ToolCallRequest) :
    (runPlanProposal P tools call).Only Steady := by
  refine .ask trivial fun stored => ?_
  cases stored with
  | none => exact .done _
  | some toolCallId =>
    have asks (payload : Json) : (requestPlan tools toolCallId payload).Only Steady := by
      unfold requestPlan
      split
      · exact runPendingApproval_steady toolCallId payload true
      · exact .done _
    refine .ask ⟨.inr rfl, rfl⟩ fun _ => .bind (asks _) fun decision => ?_
    split
    · exact .ask trivial fun _ => .done _
    · exact .ask ⟨.inl rfl, rfl⟩ fun _ => .ask trivial fun _ => .done _

theorem reaskParkedCall_steady (tools : ToolRegistry) (call : ToolCallRequest) (input : Json) :
    (reaskParkedCall tools call input).Only Steady := by
  refine .ask ⟨.inr rfl, rfl⟩ fun _ =>
    .bind ((dispatch_only call.name call.id input).weaken CallEffect.steady) fun outcome => ?_
  split
  · exact .done _
  · exact .ask ⟨.inl rfl, rfl⟩ fun _ => .done _

theorem runApprovedCall_steady (tools : ToolRegistry) (call : ToolCallRequest) (input : Json) :
    (runApprovedCall tools call input).Only Steady := by
  refine .bind ((executePreapproved_only call.name input).weaken CallEffect.steady) fun outcome => ?_
  split
  · exact reaskParkedCall_steady tools call input
  · exact .done _

end Footprints

section Answers
variable {iterations : Nat} {usage : Usage} {w : World}

theorem persistForNextSend_safe (msg : Msg) (going : Going iterations usage w) :
    budgeted.Safe (fun stored w => stored = true → Going iterations usage w) (persistForNextSend msg) w := by
  refine going_ask trivial going fun failed w going => ?_
  cases failed with
  | none => exact going_done going fun w going _ => going
  | some err =>
    exact finishLost_safe (.inl rfl) rfl
      (fun _ _ books => books_done books fun _ stored => nomatch stored) going.books

def Carries (iterations : Nat) (usage : Usage) (pushed : Option (List Msg)) (w : World) : Prop :=
  pushed.isSome = true → Going iterations usage w

theorem ended_carries {w : World} : Carries iterations usage none w := fun goes => nomatch goes

theorem pushForNextSend_safe (messages : List Msg) (msg : Msg) (going : Going iterations usage w) :
    budgeted.Safe (Carries iterations usage) (pushForNextSend messages msg) w := by
  refine Discipline.Safe.bind (persistForNextSend_safe msg going) fun stored w books goes => ?_
  cases stored with
  | false => exact books_done books fun _ => ended_carries
  | true => exact going_done (goes rfl) fun w going _ => going

theorem answerToolCall_safe (messages : List Msg) (call : ToolCallRequest) (answer : ToolAnswer)
    (going : Going iterations usage w) :
    budgeted.Safe (Carries iterations usage) (answerToolCall messages call answer) w := by
  have tags : (tagSource answer.source).Only Steady := by
    cases answer.source with
    | none => exact .done none
    | some tagged => exact .perform trivial
  refine Discipline.Safe.bind (going_only tags going) fun failed w books going => ?_
  cases failed with
  | none => exact pushForNextSend_safe messages _ going
  | some err =>
    exact finishLost_safe (.inl rfl) rfl
      (fun _ _ books => books_done books fun _ => ended_carries) going.books

theorem finishModelError_safe (err : ModelError) (going : Going iterations usage w) :
    budgeted.Safe (fun _ _ => True) (finishModelError err) w := by
  cases err with
  | cancelled => exact finishCancelled_safe going
  | _ => exact finishFailed_safe _ _ going

theorem finishAnswer_safe (answer : Msg) (going : Going iterations usage w) :
    budgeted.Safe (fun _ _ => True) (finishAnswer usage answer) w := by
  refine going_ask trivial going fun _ w going => going_ask trivial going fun remembered w going => ?_
  cases remembered with
  | none => exact finishCancelled_safe going
  | some persisted =>
    refine going_ask trivial going fun cancelled w going => ?_
    cases cancelled with
    | false => exact finishCompleted_safe _ going
    | true => exact finishCancelled_safe going

theorem recover_safe {α : Type} {f : Bool → Task α} {result : α → World → Prop}
    (rest : ∀ reply w, Books w → budgeted.Safe result (f reply) w) (going : Going iterations usage w) :
    budgeted.Safe result (perform .recoverWorkspaceRun >>= f) w := by
  refine discipline_ask going.books fun w' others meets proposal => rest _ _ ?_
  have going := going.interferes others
  have settled := respond_settled .recoverWorkspaceRun proposal w'
  generalize (respond .recoverWorkspaceRun proposal w').2 = w'' at settled ⊢
  cases settled with
  | unchanged => exact going.books
  | recovered allowed => exact going.books.lost allowed rfl (meets allowed) (by decide)

/-- A call's answer, or why the run stops: the task goes on unless it was recovered. -/
def Answers (iterations : Nat) (usage : Usage) (answer : Except ParkedCallStop ToolAnswer) (w : World) :
    Prop := answer ≠ .error .recoveryStopped → Going iterations usage w

theorem runToolCall_safe (P : Platform) (tools : ToolRegistry) (run : Run) (call : ToolCallRequest)
    (recoveryResume : Bool) (going : Going iterations usage w) :
    budgeted.Safe (Answers iterations usage) (runToolCall P tools run call recoveryResume) w := by
  have stored {inContext : Bool} {w : World} (going : Going iterations usage w) :
      budgeted.Safe (Answers iterations usage) (runStoredCall P tools call inContext) w :=
    (going_only ((runStoredCall_only P call inContext).weaken CallEffect.steady) going).weaken
      fun _ _ going _ => going
  unfold runToolCall
  split
  · refine going_ask trivial going fun failed w going => ?_
    cases failed with
    | none => exact stored going
    | some err =>
      exact recover_safe (fun _ _ books => books_done books fun _ stays => absurd rfl stays) going
  · exact stored going

theorem settleParkedCall_safe (tools : ToolRegistry) (run : Run) (approval : Approval)
    (call : ToolCallRequest) (going : Going iterations usage w) :
    budgeted.Safe (Answers iterations usage) (settleParkedCall tools run approval call) w := by
  unfold settleParkedCall
  dsimp only
  split
  · exact going_done going fun w going _ => going
  split
  · refine going_ask trivial going fun failed w going => ?_
    cases failed with
    | some err =>
      dsimp only
      split
      · exact recover_safe (fun _ _ books => books_done books fun _ stays => absurd rfl stays) going
      · exact going_done going fun w going _ => going
    | none =>
      refine Discipline.Safe.bind (going_only (runApprovedCall_steady tools call approval.payload) going)
        fun outcome w books going => ?_
      split <;> exact going_done going fun w going _ => going
  split <;> exact going_done going fun w going _ => going

end Answers

section Turn
variable {P : Platform} {tools : ToolRegistry} {run : Run} {iterations : Nat} {usage : Usage} {w : World}

theorem finishNone_safe (going : Going iterations usage w) {β : Type} :
    budgeted.Safe (fun goes w => goes.isSome = true → Going iterations usage w)
      (finishCancelled >>= fun _ => (pure none : Task (Option β))) w :=
  Discipline.Safe.bind (finishCancelled_safe going) fun _ _ books _ =>
    books_done books fun _ goes => nomatch goes

theorem treatCall_carries {mode : Bool} (messages : List Msg) (call : ToolCallRequest) (treatment : Treatment)
    (going : Going iterations usage w) :
    budgeted.Safe (fun goes w => goes.isSome = true → Going iterations usage w)
      (treatCall P tools run mode usage messages call treatment) w := by
  have continues {mode : Bool} {p : Task (Option (List Msg))} {w : World}
      (safe : budgeted.Safe (Carries iterations usage) p w) :
      budgeted.Safe (fun goes w => goes.isSome = true → Going iterations usage w)
        (p >>= fun pushed => (pure (continueWith mode pushed) : Task Continuation)) w := by
    refine Discipline.Safe.bind safe fun pushed w books goes => ?_
    cases pushed with
    | none => exact books_done books fun _ goes => nomatch goes
    | some messages => exact going_done (goes rfl) fun w going _ => going
  cases treatment with
  | skipped => exact continues (pushForNextSend_safe messages _ going)
  | planDenied => exact continues (pushForNextSend_safe messages _ going)
  | plan =>
    refine Discipline.Safe.bind (going_only (runPlanProposal_steady P tools call) going)
      fun outcome w books going => ?_
    cases outcome with
    | approved content => exact continues (pushForNextSend_safe messages _ going)
    | rejected content =>
      refine going_ask trivial going fun _ w going => ?_
      exact Discipline.Safe.bind (finishCompleted_safe content going) fun _ _ books _ =>
        books_done books fun _ goes => nomatch goes
    | cancelled => exact finishNone_safe going
  | dispatched =>
    refine Discipline.Safe.bind (runToolCall_safe P tools run call false going)
      fun answer w books answers => ?_
    rcases answer with stop | answer
    · cases stop with
      | cancelRun => exact finishNone_safe (answers nofun)
      | recoveryStopped => exact books_done books fun _ goes => nomatch goes
    · exact continues (answerToolCall_safe messages call answer (answers nofun))

theorem fanOut_carries (calls : List (ToolCallRequest × Nat)) {mode : Bool} (messages : List Msg)
    (going : Going iterations usage w) :
    budgeted.Safe (fun goes w => goes.isSome = true → Going iterations usage w)
      (fanOut P tools run usage mode messages calls) w := by
  induction calls generalizing w mode messages with
  | nil => exact going_done going fun w going _ => going
  | cons call rest ih =>
    refine going_ask trivial going fun cancelled w going => ?_
    cases cancelled with
    | true => exact finishNone_safe going
    | false =>
      refine Discipline.Safe.bind (treatCall_carries messages call.1 _ going) fun goes w books carries => ?_
      match goes, carries with
      | none, _ => exact books_done books fun _ goes => nomatch goes
      | some (mode, messages), carries => exact ih messages (carries rfl)

theorem Going.completed {used : Usage} (going : Going (iterations + 1) usage w)
    (meets : .resumed ∈ w.trace → w.completions.length < maxIterations) :
    Going iterations (addUsage usage used) { w with trace := w.trace ++ [.completion used] } := by
  have counted : ({ w with trace := w.trace ++ [.completion used] } : World).completions =
      w.completions ++ [used] := by
    simp [World.completions]
  have bound : w.completions.length < maxIterations := by
    rcases going.fits with resumed | fits
    · exact meets resumed
    · omega
  refine ⟨going.status, going.unstored, ?_, ?_, ?_⟩
  · unfold World.totalUsage
    rw [counted, List.foldl_append]
    exact congrArg (addUsage · used) going.total
  · rw [counted, List.length_append]
    exact bound
  · rw [counted, List.length_append]
    refine going.fits.imp (fun resumed => List.mem_append_left _ resumed) fun fits => ?_
    rw [List.length_singleton]
    omega

theorem runLoop_books (iterations : Nat) {mode : Bool} {usage : Usage} (messages : List Msg)
    (going : Going iterations usage w) :
    budgeted.Safe (fun _ _ => True) (runLoop P tools run iterations mode usage messages) w := by
  induction iterations generalizing w mode usage messages with
  | zero => exact finishFailed_safe _ _ going
  | succ iterations ih =>
    refine going_ask trivial going fun allowed w going => ?_
    cases allowed with
    | false => exact finishFailed_safe _ _ going
    | true =>
      refine going_ask trivial going fun same w going => ?_
      cases same with
      | false => exact finishFailed_safe _ _ going
      | true =>
        refine discipline_ask going.books fun w others meets proposal => ?_
        have going := going.interferes others
        rcases proposal with err | ⟨answer, used⟩
        · exact finishModelError_safe err going
        have going : Going iterations (addUsage usage used) { w with trace := w.trace ++ [.completion used] } :=
      going.completed meets
        simp only [respond]
        split
        · exact finishFailed_safe _ _ going
        split
        · exact finishAnswer_safe answer going
        refine Discipline.Safe.bind (pushForNextSend_safe messages answer going) fun pushed w books carries => ?_
        cases pushed with
        | none => exact books_done books fun _ => trivial
        | some messages =>
          refine Discipline.Safe.bind (fanOut_carries answer.toolCalls.zipIdx messages (carries rfl))
            fun goes w books carries => ?_
          cases goes with
          | none => exact books_done books fun _ => trivial
          | some going => exact ih going.2 (carries rfl)

structure Waiting (w : World) : Prop where
  queued : w.run.status = .queued
  unstored : w.run.usage = zeroUsage
  completions : w.completions = []

section
variable (waiting : Waiting w)
include waiting

theorem Waiting.books : Books w where
  budget := by simp [waiting.completions]
  usage ended := by simp [waiting.queued, RunStatus.isTerminal] at ended
  unended _ := waiting.unstored
  queued _ := waiting.completions

theorem Waiting.unspent : Unspent w := by
  unfold Unspent World.totalUsage
  rw [waiting.completions]
  rfl

theorem Waiting.interferes {w' : World} (others : Interferes w w') : Waiting w' := by
  obtain ⟨approvals, rfl⟩ := others.rows
  exact ⟨waiting.queued, waiting.unstored, waiting.completions⟩

theorem Waiting.patched {target : RunStatus} (live : target = .running ∨ target = .cancelled) :
    let after : World := { w with run := w.run.patched target {} }
    Books after ∧ (target = .running → Going maxIterations zeroUsage after) := by
  have used : w.totalUsage = zeroUsage := waiting.unspent
  refine ⟨⟨⟨waiting.books.budget, fun _ => waiting.unstored.trans used.symm⟩, fun _ => waiting.unstored,
    fun _ => waiting.completions⟩, fun running => ?_⟩
  subst running
  exact ⟨.inl rfl, waiting.unstored, used, waiting.books.budget, .inr (by
    rw [show ({ w with run := w.run.patched .running {} } : World).completions = [] from waiting.completions]
    exact Nat.le_of_eq (Nat.zero_add _))⟩

theorem execute_books :
    budgeted.Safe (fun _ _ => True) (execute P tools run) w := by
  refine discipline_ask waiting.books fun w others _ cancelled => ?_
  have waiting := waiting.interferes others
  cases cancelled with
  | true =>
    refine discipline_ask waiting.books fun w others _ proposal => books_done ?_ fun _ => trivial
    have waiting := waiting.interferes others
    have settled := respond_settled (.transition .cancelled {}) proposal w
    generalize (respond (.transition .cancelled {}) proposal w).2 = w'' at settled ⊢
    cases settled with
    | unchanged => exact waiting.books
    | transitioned allowed => exact (waiting.patched (.inr rfl)).1
  | false =>
    refine discipline_ask waiting.books fun w others _ proposal => ?_
    have waiting := waiting.interferes others
    cases proposal with
    | false => exact books_done waiting.books fun _ => trivial
    | true =>
      have started : respond (.transition .running {}) true w =
          (true, { w with run := w.run.patched .running {} }) :=
        World.transition_true .running {} (by rw [waiting.queued]; rfl)
      rw [started]
      have going := (waiting.patched (.inl rfl)).2 rfl
      refine going_ask trivial going fun preparation w going => ?_
      cases preparation with
      | cancelled => exact finishCancelled_safe going
      | failed code message => exact finishFailed_safe _ _ going
      | ready snapshot => exact runLoop_books maxIterations snapshot going

end

end Turn

section Resume
variable {P : Platform} {tools : ToolRegistry} {run : Run} {iterations : Nat} {w : World}

theorem resumeCalls_carries (unstored : run.usage = zeroUsage) (approval : Approval) (toolCallId : String)
    (calls : List ToolCallRequest) {settled : Bool} (messages : List Msg)
    (going : Going iterations zeroUsage w) :
    budgeted.Safe (Carries iterations zeroUsage)
      (resumeCalls P tools run approval toolCallId settled messages calls) w := by
  induction calls generalizing w settled messages with
  | nil => exact going_done going fun w going _ => going
  | cons call rest ih =>
    have answers {answer : Except ParkedCallStop ToolAnswer} {w : World} (books : Books w)
        (going : Answers iterations zeroUsage answer w) :
        budgeted.Safe (Carries iterations zeroUsage) (answerOrStop messages call answer) w := by
      rcases answer with stop | answer
      · cases stop with
        | cancelRun => exact finishNone_safe (going nofun)
        | recoveryStopped => exact books_done books fun _ => ended_carries
      · exact answerToolCall_safe messages call answer (going nofun)
    refine going_ask trivial going fun cancelled w going => ?_
    cases cancelled with
    | true => exact finishNone_safe going
    | false =>
      have handled : budgeted.Safe (Carries iterations zeroUsage)
          (resumeCall P tools run approval messages call (resumeStep toolCallId settled call)) w := by
        cases resumeStep toolCallId settled call with
        | settlePlan =>
          change budgeted.Safe _ (settlePlanCall run approval messages call) w
          unfold settlePlanCall
          split
          · exact answerToolCall_safe messages call _ going
          rw [unstored]
          refine going_ask trivial going fun _ w going => ?_
          exact Discipline.Safe.bind (finishCompleted_safe _ going) fun _ _ books _ =>
            books_done books fun _ => ended_carries
        | settleCall =>
          exact Discipline.Safe.bind (settleParkedCall_safe tools run approval call going)
            fun answer w books going => answers books going
        | runCall =>
          exact Discipline.Safe.bind (runToolCall_safe P tools run call true going)
            fun answer w books going => answers books going
      refine Discipline.Safe.bind handled fun pushed w books carries => ?_
      cases pushed with
      | none => exact books_done books fun _ => ended_carries
      | some messages => exact ih messages (carries rfl)

theorem continueResumed_books (unstored : run.usage = zeroUsage) (thread : List RunMessage)
    (approval : Approval) (toolCallId : String) (going : Going maxIterations zeroUsage w) :
    budgeted.Safe (fun _ _ => True) (continueResumed P tools run thread approval toolCallId) w := by
  refine going_ask ⟨.inl rfl, rfl⟩ going fun started w going => ?_
  cases started with
  | false => exact going_done going fun _ _ => trivial
  | true =>
    cases unansweredCallsOfLastTurn (threadToMessages thread) with
    | none => exact finishCancelled_safe going
    | some unanswered =>
      refine Discipline.Safe.bind (resumeCalls_carries unstored approval toolCallId unanswered _ going)
        fun pushed w books carries => ?_
      cases pushed with
      | none => exact books_done books fun _ => trivial
      | some messages => exact runLoop_books maxIterations messages (carries rfl)

theorem driveResume_books (unstored : run.usage = zeroUsage) (cutoff : String) (thread : List RunMessage)
    (approval : Approval) (going : Going maxIterations zeroUsage w) :
    budgeted.Safe (fun _ _ => True) (driveResume P tools run cutoff thread approval) w := by
  have refuses {w : World} (going : Going maxIterations zeroUsage w) :
      budgeted.Safe (fun _ _ => True) refuseResume w := by
    refine going_ask ⟨.inl rfl, rfl⟩ going fun started w going => ?_
    cases started with
    | false => exact going_done going fun _ _ => trivial
    | true => exact finishFailed_safe _ _ going
  have proven {toolCallId : String} {w : World} (going : Going maxIterations zeroUsage w) :
      budgeted.Safe (fun _ _ => True) (resumeProven P tools run thread approval toolCallId) w := by
    refine going_ask trivial going fun allowed w going => ?_
    cases allowed with
    | false => exact refuses going
    | true =>
      refine going_ask trivial going fun tagged w going => ?_
      cases tagged with
      | false => exact refuses going
      | true => exact continueResumed_books unstored thread approval toolCallId going
  refine going_ask trivial going fun tool w going => ?_
  cases tool with
  | none => exact finishCancelled_safe going
  | some tool =>
    dsimp only
    split
    · exact finishCancelled_safe going
    unfold resumeRestored
    split
    · refine going_ask trivial going fun failed w going => ?_
      cases failed with
      | none => exact proven going
      | some err =>
        exact recover_safe (fun _ _ books => books_done books fun _ => trivial) going
    · exact proven going

end Resume

section Life
variable {P : Platform} {w : World}

def TaskBudgeted (w : World) : Option (Task Unit) → Prop
  | some (.ask effect _) => Budgeted w effect
  | some (.done _) | none => True

def StepBudgeted (d : Daemon) : Op → Prop
  | .advance _ => TaskBudgeted d.world d.task
  | .resume .. => d.task = none → d.world.run.status = .awaitingApproval → Unspent d.world
  | .cancel | .recoverTimedOut | .sweepOrphans =>
    d.task = none → runTransitionAllowed d.world.run.status .cancelled = true → Unspent d.world
  | _ => True

def RunBudgeted (P : Platform) (d : Daemon) : List Op → Prop
  | [] => True
  | op :: rest => StepBudgeted d op ∧ RunBudgeted P (step P d op) rest

structure Balanced (d : Daemon) : Prop where
  books : Books d.world
  task : ∀ p, d.task = some p → budgeted.Safe (fun _ _ => True) p d.world

theorem Fresh.waiting (fresh : Fresh w) : Waiting w :=
  ⟨fresh.queued, fresh.unused, by simp [World.completions, fresh.trace]⟩

theorem Balanced.idle (books : Books w) : Balanced ⟨w, none⟩ := ⟨books, fun _ live => nomatch live⟩

theorem Balanced.step {d : Daemon} (balanced : Balanced d) (op : Op) (meets : StepBudgeted d op) :
    Balanced (step P d op) := by
  obtain ⟨books, safe⟩ := balanced
  have moved := step_moves P d op
  generalize Agent.step P d op = d' at moved ⊢
  cases moved with
  | unmoved => exact ⟨books, safe⟩
  | started queued =>
    have open_ : d.world.run.status.isTerminal = false := by rw [queued]; rfl
    refine ⟨books, fun p live => ?_⟩
    obtain rfl := Option.some.inj live
    exact execute_books ⟨queued, books.unended open_, books.queued queued⟩
  | resumed idle approval member parked own =>
    have open_ : d.world.run.status.isTerminal = false := by rw [parked]; rfl
    have unspent : Unspent d.world := meets idle parked
    have same : ({ d.world with trace := d.world.trace ++ [.resumed] } : World).completions =
        d.world.completions := by simp [World.completions]
    have going : Going maxIterations zeroUsage { d.world with trace := d.world.trace ++ [.resumed] } := by
      refine ⟨.inr parked, books.unended open_, ?_, ?_, .inl (by simp)⟩
      · unfold World.totalUsage
        rw [same]
        exact unspent
      · rw [same]
        exact books.budget
    refine ⟨going.books, fun p live => ?_⟩
    obtain rfl := Option.some.inj live
    exact driveResume_books (books.unended open_) _ _ approval going
  | dropped => exact .idle books
  | @asked answers effect next live =>
    have permits : Budgeted d.world effect := by
      unfold StepBudgeted at meets
      rw [live] at meets
      exact meets
    have after := (safe _ live).2 d.world (.refl _) permits (answers effect)
    refine ⟨after.holds, fun p live => ?_⟩
    obtain rfl := Option.some.inj live
    exact after
  | panicked =>
    refine ⟨books, fun p live => ?_⟩
    obtain rfl := Option.some.inj live
    exact finishFailed_books "internal" _ books
  | interfered =>
    exact ⟨books.interfere _, fun p live => (safe p live).interfered (Interferes.one d.world _)⟩
  | cancelled idle sweeps =>
    have settled : Settled (.transition .cancelled {}) d.world (cancelRow d.world) :=
      respond_settled (.transition .cancelled {}) true d.world
    have permits : runTransitionAllowed d.world.run.status .cancelled = true → Unspent d.world := by
      rcases sweeps with rfl | rfl | rfl <;> exact meets idle
    exact .idle (books.transitioned (.inr rfl) rfl (fun _ => permits) settled)
  | restored =>
    obtain ⟨-, run, -, trace⟩ := restored_rows (P := P) d.world _ _ _
    exact .idle (books.same run trace)

theorem Balanced.run {d : Daemon} (balanced : Balanced d) (ops : List Op) (meets : RunBudgeted P d ops) :
    Balanced (run (Agent.step P) ops d) := by
  induction ops generalizing d with
  | nil => exact balanced
  | cons op rest ih => exact ih (balanced.step op meets.1) meets.2

theorem RunBudgeted.initial {d : Daemon} (first rest : List Op) (meets : RunBudgeted P d (first ++ rest)) :
    RunBudgeted P d first := by
  induction first generalizing d with
  | nil => trivial
  | cons op later ih => exact ⟨meets.1, ih meets.2⟩

end Life

section Samples

instance (w : World) : (effect : Effect) → Decidable (Budgeted w effect)
  | .complete .. => inferInstanceAs (Decidable (_ → _))
  | .transition .. => inferInstanceAs (Decidable (_ → _ → _))
  | .recoverWorkspaceRun => inferInstanceAs (Decidable (_ → _))
  | .isCancelled | .originsAllowSend | .sendCopy _ | .prepare | .appendMessage _ | .insertToolCall _
  | .finishToolCall .. | .tagToolResult .. | .remember _ | .resumeSourcesProven | .toolContext
  | .bindApproval _ | .auditDenied _ | .preapproved .. | .requestApproval .. | .awaitResolution _
  | .approvedTool _ | .execute .. => .isTrue trivial

instance (w : World) : (task : Option (Task Unit)) → Decidable (TaskBudgeted w task)
  | some (.ask effect _) => inferInstanceAs (Decidable (Budgeted w effect))
  | some (.done _) | none => .isTrue trivial

instance (d : Daemon) : (op : Op) → Decidable (StepBudgeted d op)
  | .advance _ => inferInstanceAs (Decidable (TaskBudgeted _ _))
  | .resume .. | .cancel | .recoverTimedOut | .sweepOrphans => inferInstanceAs (Decidable (_ → _ → _))
  | .start _ | .panic | .crash | .interfere _ | .restore .. => .isTrue trivial

instance (P : Platform) : (d : Daemon) → (ops : List Op) → Decidable (RunBudgeted P d ops)
  | _, [] => .isTrue trivial
  | d, op :: rest =>
    have := instDecidableRunBudgeted P (step P d op) rest
    inferInstanceAs (Decidable (_ ∧ _))

def queuedRun : World := queuedIn .normal

def answeredOps : List Op :=
  .start shellRegistry :: List.replicate 10
    (.advance (surroundings fun _ => .ok ⟨.assistant (some "tidy") [], ⟨10, 2, 12⟩⟩))

def failedOps : List Op :=
  .start shellRegistry :: List.replicate 6 (.advance (surroundings fun _ =>
      .ok ⟨.assistant none [shellCall "call_1"], ⟨10, 2, 12⟩⟩)) ++
    List.replicate 20 (.advance (surroundings fun _ => .error (.provider "rate limited")))

def restless : (effect : Effect) → effect.Reply :=
  surroundings fun _ => .ok ⟨.assistant none [shellCall "call_1"], ⟨10, 2, 12⟩⟩

/-- A run that parks in its first turn, dies, is approved, and goes on. -/
def resumedOps : List Op :=
  .start shellRegistry :: List.replicate 12 (.advance restless) ++
    .advance (fun | .preapproved .. => false | effect => restless effect) :: .advance restless ::
      .crash :: .interfere (.decide "apr_1" ⟨"approve", none⟩ "2026-01-01T12:00:00Z") ::
        .resume shellRegistry "2025-12-01T00:00:00Z" "apr_1" :: List.replicate 90 (.advance restless)

end Samples

end Agent24.Agent
