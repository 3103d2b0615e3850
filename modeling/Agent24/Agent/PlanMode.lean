import Agent24.Agent.Footprint
import Agent24.Agent.Life

/-! Plan-mode confinement over whole runs: nothing but reads before an approved plan. -/

set_option autoImplicit false
namespace Agent24.Agent
open Library

/-- The run has an approved `propose_plan`. -/
def PlanApproved (w : World) : Prop :=
  ∃ a ∈ w.approvals, a.runId = w.run.id ∧ a.status = .approved ∧ w.approvedTool a = some proposePlan

structure Confined (w : World) : Prop where
  reads : ∀ tool risk, .executed tool risk ∈ w.trace → risk = .read
  plans : ∀ a ∈ w.approvals, a.runId = w.run.id → w.approvedTool a = some proposePlan
  decided : ∀ a ∈ w.approvals, a.runId = w.run.id → a.Decided
  written : Written w.thread

/-- What holds in every state of a run that started in plan mode. -/
def Held (w : World) : Prop := Confined w ∨ PlanApproved w

section Steps
variable {effect : Effect} {w w' : World}

theorem PlanApproved.keeps (approved : PlanApproved w) (keeps : Keeps w w') : PlanApproved w' := by
  obtain ⟨a, member, own, granted, named⟩ := approved
  obtain ⟨a', there, resolves⟩ := keeps.kept a member
  refine ⟨a', there, ?_, resolves.approved granted, ?_⟩
  · rw [resolves.runId, own, keeps.runId]
  · unfold World.approvedTool at named ⊢
    rw [resolves.runId, resolves.toolCallId]
    exact keeps.calledTool _ _ _ named

theorem Confined.evolves (confined : Confined w) (evolves : Evolves w w')
    (reads : ∀ tool risk, .executed tool risk ∈ w'.trace → .executed tool risk ∈ w.trace ∨ risk = .read)
    (written : Written w'.thread) : Confined w' where
  reads tool risk executed := (reads tool risk executed).elim (confined.reads tool risk) fun read => read
  plans a' member own := by
    obtain ⟨a, there, resolves⟩ := evolves.origin a' member
    rw [evolves.runId, resolves.runId] at own
    unfold World.approvedTool
    rw [resolves.runId, resolves.toolCallId]
    exact evolves.calledTool _ _ _ (confined.plans a there own)
  decided a' member own := by
    obtain ⟨a, there, resolves⟩ := evolves.origin a' member
    rw [evolves.runId, resolves.runId] at own
    exact resolves.decided (confined.decided a there own)
  written := written

theorem Settled.executed_mem {tool : String} {risk : RiskClass} (settled : Settled effect w w')
    (executed : .executed tool risk ∈ w'.trace) :
    .executed tool risk ∈ w.trace ∨ ∃ input, effect = .execute tool risk input := by
  cases settled with
  | prepared snapshot =>
    obtain ⟨thread, whole⟩ := prepared_eq snapshot w
    rw [whole] at executed
    exact .inl executed
  | completed usage => exact .inl (by simpa using executed)
  | executed =>
    rename_i name class' input
    simp only [List.mem_append, List.mem_singleton, TraceEvent.executed.injEq] at executed
    rcases executed with before | ⟨rfl, rfl⟩
    · exact .inl before
    · exact .inr ⟨input, rfl⟩
  | _ => exact .inl executed

theorem Written.append {thread : List RunMessage} (written : Written thread) (seq : Int) (msg : Msg) :
    Written (thread ++ [msg.persisted seq]) := by
  intro row member
  rcases List.mem_append.mp member with before | last
  · exact written row before
  · rw [List.mem_singleton.mp last]
    exact ⟨msg.toolCalls, rfl⟩

theorem Settled.written (settled : Settled effect w w') (written : Written w.thread) :
    Written w'.thread := by
  cases settled with
  | appended => exact written.append _ _
  | prepared snapshot =>
    induction snapshot generalizing w with
    | nil => exact written
    | cons msg rest ih => exact ih (written.append _ _)
  | _ => exact written

def Confining (w : World) : Effect → Prop
  | .execute _ risk _ => risk = .read
  | .requestApproval toolCallId _ _ => w.calledTool w.run.id toolCallId = some proposePlan
  | _ => True

theorem Confined.settled (confined : Confined w) (settled : Settled effect w w')
    (confining : Confining w effect) : Confined w' := by
  have reads : ∀ tool risk, .executed tool risk ∈ w'.trace →
      .executed tool risk ∈ w.trace ∨ risk = .read := by
    intro tool risk executed
    rcases settled.executed_mem executed with before | ⟨input, rfl⟩
    · exact .inl before
    · exact .inr confining
  have written := settled.written confined.written
  cases effect with
  | requestApproval =>
    cases settled with
    | unchanged => exact confined
    | requested offer fresh =>
      refine ⟨confined.reads, fun a member own => ?_, fun a member own => ?_, confined.written⟩
      · rcases List.mem_append.mp member with before | last
        · exact confined.plans a before own
        · rw [List.mem_singleton.mp last]
          exact confining
      · rcases List.mem_append.mp member with before | last
        · exact confined.decided a before own
        · rw [List.mem_singleton.mp last]
          exact fun _ given => nomatch given
  | _ => exact confined.evolves (settled.evolves (by rintro _ _ _ ⟨⟩)) reads written

theorem Held.settled (held : Held w) (settled : Settled effect w w')
    (confining : Confining w effect) : Held w' :=
  held.imp (fun confined => confined.settled settled confining)
    fun approved => approved.keeps settled.keeps

theorem Confined.interfere (confined : Confined w) (other : Interference) :
    Confined (interfere w other) := by
  obtain ⟨approvals, whole⟩ := interfere_rows w other
  refine confined.evolves (interfere_evolves w other) (fun tool risk executed => ?_) ?_
  · rw [whole] at executed
    exact .inl executed
  · rw [whole]
    exact confined.written

theorem Held.interfere (other : Interference) (held : Held w) : Held (interfere w other) :=
  held.imp (fun confined => confined.interfere other)
    fun approved => approved.keeps (interfere_evolves w other).toKeeps

end Steps

def planMode : Discipline Effect Effect.Reply World :=
  discipline (fun _ _ => True) Held fun _ other => Held.interfere other

section Rules
variable {α β : Type} {w : World}

theorem safe_of_approved (p : Task α) (approved : PlanApproved w) :
    planMode.Safe (fun _ => PlanApproved) p w :=
  Discipline.safe_of_only p.only_true (fun _ held => Or.inr held)
    (fun _ _ others held => held.keeps (Interferes.evolves others).toKeeps)
    (fun w effect proposal _ _ held => held.keeps (respond_settled effect proposal w).keeps) approved

theorem safe_of_confined {p : Task α} {result : α → World → Prop} (held : Held w)
    (ends : ∀ value w, PlanApproved w → result value w)
    (confined : Confined w → planMode.Safe result p w) : planMode.Safe result p w := by
  rcases held with inside | approved
  · exact confined inside
  · exact (safe_of_approved p approved).weaken ends

def ReadOnly : Effect → Prop
  | .execute _ risk _ => risk = .read
  | .requestApproval .. => False
  | _ => True

theorem ReadOnly.confining {effect : Effect} (readOnly : ReadOnly effect) (w : World) :
    Confining w effect := by
  cases effect with
  | execute => exact readOnly
  | requestApproval => exact readOnly.elim
  | _ => trivial

theorem safe_of_readOnly {p : Task α} (only : p.Only ReadOnly) (confined : Confined w) :
    planMode.Safe (fun _ => Confined) p w :=
  Discipline.safe_of_only only (fun _ held => Or.inl held)
    (fun _ _ others held =>
      Interferes.induct Confined (fun _ other inside => inside.interfere other) others held)
    (fun w effect proposal readOnly _ held =>
      held.settled (respond_settled effect proposal w) (readOnly.confining w)) confined

theorem safe_readOnly {p : Task α} (only : p.Only ReadOnly) (held : Held w) :
    planMode.Safe (fun _ => Held) p w :=
  safe_of_confined held (fun _ _ => .inr) fun confined =>
    (safe_of_readOnly only confined).weaken fun _ _ => .inl

theorem AnswerEffect.readOnly (effect : Effect) (answers : AnswerEffect effect) : ReadOnly effect := by
  cases effect <;> trivial

theorem CallEffect.readOnly (effect : Effect) (calls : CallEffect (some .read) effect) :
    ReadOnly effect := by
  cases effect with
  | execute => exact (Option.some.inj calls).symm
  | requestApproval =>
    obtain ⟨risk, read, gated⟩ := calls
    cases read
    cases gated
  | _ => trivial

theorem safe_ask {effect : Effect} {f : effect.Reply → Task α} {result : α → World → Prop}
    (readOnly : ReadOnly effect) (held : Held w)
    (rest : ∀ reply w, Held w → planMode.Safe result (f reply) w) :
    planMode.Safe result (perform effect >>= f) w :=
  Discipline.Safe.ask_kept (fun _ holds => holds) (fun _ _ others => planMode.stable others)
    (fun w proposal _ holds => holds.settled (respond_settled effect proposal w) (readOnly.confining w)) held rest

end Rules

section Plan
variable {w : World}

/-- A confined run with a stored `propose_plan` call. -/
def Proposed (toolCallId : String) (w : World) : Prop :=
  Confined w ∧ w.calledTool w.run.id toolCallId = some proposePlan

theorem Proposed.evolves {toolCallId : String} {w' : World} (proposed : Proposed toolCallId w)
    (confined : Confined w') (keeps : Keeps w w') : Proposed toolCallId w' :=
  ⟨confined, keeps.runId ▸ keeps.calledTool _ _ _ proposed.2⟩

theorem Proposed.interferes {toolCallId : String} {w' : World} (proposed : Proposed toolCallId w)
    (others : Interferes w w') : Proposed toolCallId w' :=
  proposed.evolves (others.induct Confined (fun _ other inside => inside.interfere other) proposed.1)
    others.evolves.toKeeps

def Asked (approvalId : String) (w : World) : Prop :=
  Confined w ∧ ∃ a, w.approval? approvalId = some a ∧ a.runId = w.run.id

theorem Asked.interferes {approvalId : String} {w' : World} (asked : Asked approvalId w)
    (others : Interferes w w') : Asked approvalId w' := by
  obtain ⟨confined, a, found, own⟩ := asked
  obtain ⟨a', found', resolves⟩ := others.evolves.found _ _ found
  refine ⟨others.induct Confined (fun _ other inside => inside.interfere other) confined, a', found', ?_⟩
  rw [resolves.runId, own, others.evolves.runId]

theorem awaitResolution_safe {approvalId : String} (asked : Asked approvalId w) :
    planMode.Safe (fun decision w => decision = .allow → PlanApproved w)
      (perform (.awaitResolution approvalId) >>= fun resolution =>
        (pure resolution.verdict : Task GateDecision)) w := by
  refine discipline_ask (.inl asked.1) fun w' others _ proposal => ?_
  obtain ⟨confined, a, found, own⟩ := asked.interferes others
  have settled := respond_settled (.awaitResolution approvalId) proposal w'
  have after := confined.settled settled trivial
  refine discipline_done (.inl after) fun w'' others allows => ?_
  have member : a ∈ w'.approvals := List.mem_of_find?_eq_some found
  obtain ⟨granted, same⟩ := respond_awaitResolution found (confined.decided a member own) proposal allows
  rw [same] at others
  have approved : PlanApproved w' := ⟨a, member, own, granted, confined.plans a member own⟩
  exact approved.keeps others.evolves.toKeeps

theorem requestPlan_safe (tools : ToolRegistry) {toolCallId : String} (payload : Json)
    (proposed : Proposed toolCallId w) :
    planMode.Safe (fun decision w => decision = .allow → PlanApproved w)
      (requestPlan tools toolCallId payload) w := by
  unfold requestPlan
  split
  · refine discipline_ask (.inl proposed.1) fun w' others _ proposal => ?_
    obtain ⟨confined, named⟩ := proposed.interferes others
    have settled := respond_settled (.requestApproval toolCallId payload true) proposal w'
    have after := confined.settled settled named
    rcases respond_requestApproval toolCallId payload true proposal w' with refused | stored
    · rw [refused] at after ⊢
      exact discipline_done (.inl after) fun _ _ allows => nomatch allows
    obtain ⟨offer, w'', a, stored, found, own⟩ := stored
    rw [stored] at after ⊢
    exact awaitResolution_safe ⟨after, a, found, own⟩
  · exact discipline_done (.inl proposed.1) fun _ _ allows => nomatch allows

theorem runPlanProposal_safe (P : Platform) (tools : ToolRegistry) (call : ToolCallRequest)
    (held : Held w) :
    planMode.Safe (fun outcome w => ∀ content, outcome = .approved content → PlanApproved w)
      (runPlanProposal P tools call) w := by
  refine safe_of_confined held (fun _ _ approved _ _ => approved) fun confined => ?_
  refine discipline_ask (.inl confined) fun w' others _ proposal => ?_
  have inside := others.induct Confined (fun _ other inside => inside.interfere other) confined
  have after := inside.settled (respond_settled (.insertToolCall proposePlan) proposal w') trivial
  rcases respond_insertToolCall proposePlan proposal w' with refused | ⟨id, fresh, stored⟩
  · rw [refused] at after ⊢
    exact discipline_done (.inl after) fun _ _ _ approves => nomatch approves
  rw [stored] at after ⊢
  have proposed : Proposed id
      { w' with toolCalls := w'.toolCalls ++ [ToolCallRow.mk id w'.run.id proposePlan .running] } :=
    ⟨after, World.calledTool_new fresh⟩
  -- the run is shown as waiting for a human
  refine discipline_ask (.inl after) fun w' others _ proposal => ?_
  have proposed := proposed.interferes others
  have settled := respond_settled (.transition .awaitingApproval {}) proposal w'
  have proposed := proposed.evolves (proposed.1.settled settled trivial) settled.keeps
  refine Discipline.Safe.bind (requestPlan_safe tools _ proposed) fun decision w held allows => ?_
  cases decision with
  | allow =>
    exact (safe_of_approved _ (allows rfl)).weaken fun _ _ approved _ _ => approved
  | deny reason =>
    refine safe_ask trivial held fun _ w held => safe_ask trivial held fun _ w held => ?_
    exact discipline_done held fun _ _ _ approves => nomatch approves
  | abortRun reason =>
    refine safe_ask trivial held fun _ w held => ?_
    exact discipline_done held fun _ _ _ approves => nomatch approves

end Plan

section Turn
variable {P : Platform} {tools : ToolRegistry} {w : World}

def Unlocks (continuation : Continuation) (w : World) : Prop :=
  ∀ messages, continuation = some (false, messages) → PlanApproved w

theorem unlocks_continueWith {mode : Bool} {messages : Option (List Msg)}
    (approved : mode = false → PlanApproved w) : Unlocks (continueWith mode messages) w := by
  rintro kept goes
  cases messages with
  | none => cases goes
  | some messages =>
    obtain ⟨rfl, -⟩ := Prod.mk.inj (Option.some.inj goes)
    exact approved rfl

theorem pushContinue_safe {messages : List Msg} {msg : Msg} (held : Held w) :
    planMode.Safe Unlocks
      (pushForNextSend messages msg >>= fun pushed => (pure (continueWith true pushed) : Task Continuation))
      w := by
  have only := (pushForNextSend_only messages msg).weaken AnswerEffect.readOnly
  refine Discipline.Safe.bind (safe_readOnly only held) fun pushed w held _ => ?_
  exact discipline_done held fun _ _ => unlocks_continueWith fun locked => nomatch locked

theorem finish_safe {p : Task Unit} (only : p.Only AnswerEffect) (held : Held w) :
    planMode.Safe Unlocks (p >>= fun _ => (pure none : Task Continuation)) w := by
  refine Discipline.Safe.bind (safe_readOnly (only.weaken AnswerEffect.readOnly) held) fun _ w held _ => ?_
  exact discipline_done held fun _ _ _ goes => nomatch goes

theorem treatPlan_safe (usage : Usage) (messages : List Msg) (call : ToolCallRequest) (held : Held w) :
    planMode.Safe Unlocks (treatPlan P tools usage messages call) w := by
  refine Discipline.Safe.bind (runPlanProposal_safe P tools call held) fun outcome w held approves => ?_
  cases outcome with
  | approved content =>
    exact (safe_of_approved _ (approves content rfl)).weaken fun _ _ approved _ _ => approved
  | rejected content => exact safe_ask trivial held fun _ w held => finish_safe (finishCompleted_only ..) held
  | cancelled => exact finish_safe finishCancelled_only held

variable {run : Run}

theorem treatDispatched_safe (messages : List Msg) {call : ToolCallRequest}
    (read : tools.toolRiskClass call.name = some .read) (held : Held w) :
    planMode.Safe Unlocks (treatDispatched P tools run true false messages call) w := by
  have only : (runToolCall P tools run call false).Only ReadOnly := by
    have stored := @runStoredCall_only tools P call false
    rw [read] at stored
    exact stored.weaken CallEffect.readOnly
  refine Discipline.Safe.bind (safe_readOnly only held) fun answer w held _ => ?_
  rcases answer with stop | answer
  · cases stop with
    | cancelRun => exact finish_safe finishCancelled_only held
    | recoveryStopped => exact discipline_done held fun _ _ _ goes => nomatch goes
  · have only := (answerToolCall_only messages call answer).weaken AnswerEffect.readOnly
    refine Discipline.Safe.bind (safe_readOnly only held) fun pushed w held _ => ?_
    exact discipline_done held fun _ _ => unlocks_continueWith fun locked => nomatch locked

theorem treatCall_safe {mode : Bool} (usage : Usage) (messages : List Msg) (idx : Nat) (call : ToolCallRequest)
    (held : Held w) (unlocked : mode = false → PlanApproved w) :
    planMode.Safe Unlocks
      (treatCall P tools run mode usage messages call (liveTreatment tools mode idx call)) w := by
  cases mode with
  | false =>
    exact (safe_of_approved _ (unlocked rfl)).weaken fun _ _ approved _ _ => approved
  | true =>
    cases branch : liveTreatment tools true idx call with
    | skipped => exact pushContinue_safe held
    | plan => exact treatPlan_safe usage messages call held
    | planDenied => exact pushContinue_safe held
    | dispatched =>
      have read : tools.toolRiskClass call.name = some .read := by
        unfold liveTreatment at branch
        split_ifs at branch with _ _ gated
        exact not_not.mp fun other => gated ⟨rfl, other⟩
      exact treatDispatched_safe messages read held

theorem fanOut_safe (usage : Usage) (calls : List (ToolCallRequest × Nat)) {mode : Bool} (messages : List Msg)
    (held : Held w) (unlocked : mode = false → PlanApproved w) :
    planMode.Safe Unlocks (fanOut P tools run usage mode messages calls) w := by
  induction calls generalizing w mode messages with
  | nil =>
    refine discipline_done held fun w' others messages goes => ?_
    obtain ⟨rfl, -⟩ := Prod.mk.inj (Option.some.inj goes)
    exact (unlocked rfl).keeps others.evolves.toKeeps
  | cons call rest ih =>
    obtain ⟨call, idx⟩ := call
    refine discipline_ask held fun w' others _ proposal => ?_
    have held : Held w' := planMode.stable others held
    have unlocked : mode = false → PlanApproved w' := fun full =>
      (unlocked full).keeps others.evolves.toKeeps
    cases proposal with
    | true => exact finish_safe finishCancelled_only held
    | false =>
      refine Discipline.Safe.bind (treatCall_safe usage messages idx call held unlocked)
        fun continuation w held unlocks => ?_
      match continuation, unlocks with
      | none, _ => exact discipline_done held fun _ _ _ goes => nomatch goes
      | some (mode, messages), unlocks =>
        exact ih messages held fun full => unlocks messages (by rw [full])

theorem runLoop_safe (iterations : Nat) {mode : Bool} (usage : Usage) (messages : List Msg) (held : Held w)
    (unlocked : mode = false → PlanApproved w) :
    planMode.Safe (fun _ => Held) (runLoop P tools run iterations mode usage messages) w := by
  induction iterations generalizing w mode usage messages with
  | zero => exact safe_readOnly ((finishFailed_only ..).weaken AnswerEffect.readOnly) held
  | succ iterations ih =>
    have finish {p : Task Unit} {w : World} (only : p.Only AnswerEffect) (held : Held w) :
        planMode.Safe (fun _ => Held) p w := safe_readOnly (only.weaken AnswerEffect.readOnly) held
    cases mode with
    | false => exact (safe_of_approved _ (unlocked rfl)).weaken fun _ _ => .inr
    | true =>
      refine safe_ask trivial held fun allowed w held => ?_
      cases allowed with
      | false => exact finish (finishFailed_only ..) held
      | true =>
        refine safe_ask trivial held fun same w held => ?_
        cases same with
        | false => exact finish (finishFailed_only ..) held
        | true =>
          refine safe_ask trivial held fun outcome w held => ?_
          rcases outcome with err | ⟨answer, used⟩
          · exact finish (finishModelError_only err) held
          dsimp only
          split
          · exact finish (finishFailed_only ..) held
          split
          · exact finish (finishAnswer_only ..) held
          have pushes := (pushForNextSend_only messages answer).weaken AnswerEffect.readOnly
          refine Discipline.Safe.bind (safe_readOnly pushes held) fun pushed w held _ => ?_
          cases pushed with
          | none => exact discipline_done held fun _ others => planMode.stable others held
          | some messages =>
            refine Discipline.Safe.bind
              (fanOut_safe (addUsage usage used) answer.toolCalls.zipIdx messages held
                fun full => nomatch full)
              fun continuation w held unlocks => ?_
            match continuation, unlocks with
            | none, _ => exact discipline_done held fun _ others => planMode.stable others held
            | some (mode, messages), unlocks =>
              exact ih _ messages held fun full => unlocks messages (by rw [full])

theorem execute_safe (plan : run.mode = .plan) (held : Held w) :
    planMode.Safe (fun _ => Held) (execute P tools run) w := by
  have finish {p : Task Unit} {w : World} (only : p.Only AnswerEffect) (held : Held w) :
      planMode.Safe (fun _ => Held) p w := safe_readOnly (only.weaken AnswerEffect.readOnly) held
  refine safe_ask trivial held fun cancelled w held => ?_
  cases cancelled with
  | true => exact finish finishCancelled_only held
  | false =>
    refine safe_ask trivial held fun started w held => ?_
    cases started with
    | false => exact discipline_done held fun _ others => planMode.stable others held
    | true =>
      refine safe_ask trivial held fun preparation w held => ?_
      cases preparation with
      | cancelled => exact finish finishCancelled_only held
      | failed code message => exact finish (finishFailed_only ..) held
      | ready snapshot =>
        refine runLoop_safe _ _ snapshot held fun full => ?_
        rw [plan] at full
        cases full

end Turn

section Resume
variable {P : Platform} {tools : ToolRegistry} {w : World}

variable {thread : List RunMessage} {approval : Approval} {rest : List ToolCallRequest}

theorem restored_first {approved : ApprovedCall} {createdAt cutoff toolCallId tool : String}
    {status : RunStatus} {toolExists : String → Bool} (written : Written thread)
    (named : approved.tool = some tool)
    (restored : assessRestore P approved createdAt status thread toolExists cutoff = .restore toolCallId) :
    ∃ call rest, unansweredCallsOfLastTurn (threadToMessages thread) = some (call :: rest) ∧
      call.id = toolCallId ∧ call.name = tool := by
  obtain ⟨seq, name, arguments, parked, found, -, own, -, -⟩ := assessRestore_eq_restore P restored
  obtain ⟨call, rest, unanswered, same, requested⟩ := planResume_parked written parked
  obtain ⟨rfl, rfl⟩ := Prod.mk.inj (Option.some.inj (found.symm.trans requested))
  unfold ApprovedCall.isOf at own
  rw [named] at own
  exact ⟨call, rest, unanswered, same, (beq_iff_eq.mp own).symm⟩

theorem resumeCalls_safe {run : Run} {call : ToolCallRequest} (messages : List Msg)
    (refused : approval.status ≠ .approved) (named : call.name = proposePlan) (held : Held w) :
    planMode.Safe (fun continuation _ => continuation = none)
      (resumeCalls P tools run approval call.id false messages (call :: rest)) w := by
  have settles : resumeStep call.id false call = .settlePlan := by
    unfold resumeStep
    rw [if_pos ⟨rfl, rfl⟩, named]
    rfl
  refine safe_ask trivial held fun cancelled w held => ?_
  cases cancelled with
  | true =>
    have only := finishCancelled_only.weaken AnswerEffect.readOnly
    refine Discipline.Safe.bind (safe_readOnly only held) fun _ w held _ => ?_
    exact discipline_done held fun _ _ => rfl
  | false =>
    have ends : planMode.Safe (fun continuation _ => continuation = none)
        (resumeCall P tools run approval messages call (resumeStep call.id false call)) w := by
      rw [settles]
      unfold resumeCall settlePlanCall
      rw [if_neg refused]
      refine safe_ask trivial held fun _ w held => ?_
      have only := (finishCompleted_only "Plan rejected." run.usage).weaken AnswerEffect.readOnly
      refine Discipline.Safe.bind (safe_readOnly only held) fun _ w held _ => ?_
      exact discipline_done held fun _ _ => rfl
    refine Discipline.Safe.bind ends fun continuation w held ended => ?_
    subst ended
    exact discipline_done held fun _ _ => rfl

theorem continueResumed_safe {run : Run} {call : ToolCallRequest} (refused : approval.status ≠ .approved)
    (unanswered : unansweredCallsOfLastTurn (threadToMessages thread) = some (call :: rest))
    (named : call.name = proposePlan) (held : Held w) :
    planMode.Safe (fun _ => Held) (continueResumed P tools run thread approval call.id) w := by
  refine safe_ask trivial held fun started w held => ?_
  cases started with
  | false => exact discipline_done held fun _ others => planMode.stable others held
  | true =>
    rw [unanswered]
    refine Discipline.Safe.bind (resumeCalls_safe _ refused named held) fun continuation w held ended => ?_
    subst ended
    exact discipline_done held fun _ others => planMode.stable others held

theorem refuseResume_only : refuseResume.Only AnswerEffect := by
  refine .ask trivial fun started => ?_
  cases started with
  | false => exact .done ()
  | true => exact finishFailed_only ..

theorem resumeRestored_safe {run : Run} {call : ToolCallRequest} (refused : approval.status ≠ .approved)
    (unanswered : unansweredCallsOfLastTurn (threadToMessages thread) = some (call :: rest))
    (named : call.name = proposePlan) (held : Held w) :
    planMode.Safe (fun _ => Held) (resumeRestored P tools run thread approval call.id) w := by
  have stop {w : World} (held : Held w) : planMode.Safe (fun _ => Held) refuseResume w :=
    safe_readOnly (refuseResume_only.weaken AnswerEffect.readOnly) held
  have proven {w : World} (held : Held w) :
      planMode.Safe (fun _ => Held) (resumeProven P tools run thread approval call.id) w := by
    refine safe_ask trivial held fun allowed w held => ?_
    cases allowed with
    | false => exact stop held
    | true =>
      refine safe_ask trivial held fun tagged w held => ?_
      cases tagged with
      | false => exact stop held
      | true => exact continueResumed_safe refused unanswered named held
  unfold resumeRestored
  split
  · refine safe_ask trivial held fun failed w held => ?_
    cases failed with
    | none => exact proven held
    | some err =>
      refine safe_ask trivial held fun _ w held => ?_
      exact discipline_done held fun _ others => planMode.stable others held
  · exact proven held

theorem driveResume_safe {run : Run} (cutoff : String) (member : approval ∈ w.approvals)
    (own : approval.runId = w.run.id) (held : Held w) :
    planMode.Safe (fun _ => Held) (driveResume P tools run cutoff w.thread approval) w := by
  refine safe_of_confined held (fun _ _ => .inr) fun confined => ?_
  have named := confined.plans approval member own
  have finish {p : Task Unit} {w : World} (only : p.Only AnswerEffect) (held : Held w) :
      planMode.Safe (fun _ => Held) p w := safe_readOnly (only.weaken AnswerEffect.readOnly) held
  by_cases granted : approval.status = .approved
  · have approved : PlanApproved w := ⟨approval, member, own, granted, named⟩
    exact (safe_of_approved _ approved).weaken fun _ _ => .inr
  refine discipline_ask held fun w' others _ proposal => ?_
  have held : Held w' := planMode.stable others held
  cases proposal with
  | none => exact finish finishCancelled_only held
  | some claimed =>
    -- the tool read from the row is the one it was stored with
    have read : w'.approvedTool approval = some proposePlan :=
      others.evolves.calledTool _ _ _ named
    simp only [respond, Option.map_some, read]
    cases assessed : assessRestore P (approval.approvedCall (some proposePlan)) approval.createdAt run.status
        w.thread (toolExists tools) cutoff with
    | abort reason => exact finish finishCancelled_only held
    | restore toolCallId =>
      obtain ⟨call, rest, unanswered, rfl, plan⟩ := restored_first confined.written rfl assessed
      exact resumeRestored_safe granted unanswered plan held

end Resume

section Life
variable {P : Platform} {w : World}

structure Upheld (d : Daemon) : Prop where
  plan : d.world.run.mode = .plan
  held : Held d.world
  task : ∀ p, d.task = some p → planMode.Safe (fun _ => Held) p d.world

theorem Fresh.confined (fresh : Fresh w) : Confined w where
  reads tool risk executed := by simp [fresh.trace] at executed
  plans a member own := absurd own (fresh.approvals a member)
  decided a member own := absurd own (fresh.approvals a member)
  written row member := by simp [fresh.thread] at member

theorem Settled.mode {effect : Effect} {w' : World} (settled : Settled effect w w') :
    w'.run.mode = w.run.mode := by
  cases settled with
  | prepared snapshot =>
    obtain ⟨thread, whole⟩ := prepared_eq snapshot w
    rw [whole]
  | _ => rfl

theorem Upheld.idle (plan : w.run.mode = .plan) (held : Held w) : Upheld ⟨w, none⟩ :=
  ⟨plan, held, fun _ live => nomatch live⟩

theorem Upheld.step {d : Daemon} (upheld : Upheld d) (op : Op) : Upheld (step P d op) := by
  obtain ⟨plan, held, safe⟩ := upheld
  have moved := step_moves P d op
  generalize Agent.step P d op = d' at moved ⊢
  cases moved with
  | unmoved => exact ⟨plan, held, safe⟩
  | started queued =>
    refine ⟨plan, held, fun p live => ?_⟩
    obtain rfl := Option.some.inj live
    exact execute_safe plan held
  | resumed idle approval member parked own =>
    -- the trace only notes the resume
    have noted : Held { d.world with trace := d.world.trace ++ [.resumed] } := by
      refine held.imp (fun confined => ?_) fun approved => approved
      refine confined.evolves (World.evolves_of_approvals rfl) (fun tool risk executed => ?_)
        confined.written
      exact .inl (by simpa using executed)
    refine ⟨plan, noted, fun p live => ?_⟩
    obtain rfl := Option.some.inj live
    exact driveResume_safe (w := { d.world with trace := d.world.trace ++ [.resumed] }) _ member own noted
  | dropped => exact .idle plan held
  | @asked answers effect next live =>
    have settled := respond_settled effect (answers effect) d.world
    have after := (safe _ live).2 d.world (.refl _) trivial (answers effect)
    refine ⟨settled.mode.trans plan, after.holds, fun p live => ?_⟩
    obtain rfl := Option.some.inj live
    exact after
  | panicked =>
    refine ⟨plan, held, fun p live => ?_⟩
    obtain rfl := Option.some.inj live
    exact safe_readOnly ((finishFailed_only ..).weaken AnswerEffect.readOnly) held
  | interfered =>
    obtain ⟨approvals, rows⟩ := interfere_rows d.world _
    refine ⟨?_, held.interfere _, fun p live => (safe p live).interfered (Interferes.one d.world _)⟩
    rw [rows]
    exact plan
  | cancelled idle sweeps =>
    have settled : Settled (.transition .cancelled {}) d.world (cancelRow d.world) :=
      respond_settled (.transition .cancelled {}) true d.world
    exact .idle (settled.mode.trans plan) (held.settled settled trivial)
  | restored =>
    obtain ⟨evolves, run, thread, trace⟩ := restored_rows (P := P) d.world _ _ _
    refine .idle ((congrArg Run.mode run).trans plan) (held.imp
      (fun confined => confined.evolves evolves (fun tool risk executed => ?_) ?_)
      fun approved => approved.keeps evolves.toKeeps)
    · exact .inl (trace ▸ executed)
    · exact thread ▸ confined.written

theorem live_upheld (P : Platform) (fresh : Fresh w) (plan : w.run.mode = .plan) (ops : List Op) :
    Upheld (live P w ops) :=
  run_invariant (step P) (fun _ => True) Upheld (fun _ op _ upheld => upheld.step op)
    (fun _ _ => trivial) (.idle plan (.inl fresh.confined))

theorem step_executed {d : Daemon} {op : Op} {tool : String} {risk : RiskClass}
    (executed : .executed tool risk ∈ (step P d op).world.trace) :
    .executed tool risk ∈ d.world.trace ∨ ∃ trace, (step P d op).world = { d.world with trace := trace } := by
  have moved := step_moves P d op
  generalize step P d op = d' at moved executed ⊢
  cases moved with
  | unmoved => exact .inl executed
  | started queued => exact .inl executed
  | resumed => exact .inr ⟨_, rfl⟩
  | dropped => exact .inl executed
  | @asked answers effect next live =>
    have settled := respond_settled effect (answers effect) d.world
    rcases settled.executed_mem executed with before | ⟨input, rfl⟩
    · exact .inl before
    refine .inr ?_
    generalize (respond (.execute tool risk input) (answers _) d.world).2 = w' at settled ⊢
    cases settled with
    | unchanged => exact ⟨d.world.trace, rfl⟩
    | executed => exact ⟨_, rfl⟩
  | panicked => exact .inl executed
  | interfered =>
    obtain ⟨approvals, rows⟩ := interfere_rows d.world _
    rw [rows] at executed
    exact .inl executed
  | cancelled idle sweeps =>
    have settled : Settled (.transition .cancelled {}) d.world (cancelRow d.world) :=
      respond_settled (.transition .cancelled {}) true d.world
    exact .inl ((settled.executed_mem executed).elim (fun before => before) fun ⟨_, other⟩ => nomatch other)
  | restored =>
    obtain ⟨-, -, -, trace⟩ := restored_rows (P := P) d.world _ _ _
    exact .inl (trace ▸ executed)

/-- Whatever the models, tools, clients and crashes: what a step of a plan-mode run executes beyond
reads comes after an approved plan of the run. -/
theorem plan_mode_confined (P : Platform) (fresh : Fresh w) (plan : w.run.mode = .plan) (ops : List Op)
    (op : Op) {tool : String} {risk : RiskClass}
    (executed : .executed tool risk ∈ (live P w (ops ++ [op])).world.trace) (effectful : risk ≠ .read) :
    PlanApproved (live P w ops).world := by
  have before := live_upheld P fresh plan ops
  rw [live_append] at executed
  rcases step_executed executed with earlier | ⟨trace, same⟩
  · exact before.held.resolve_left fun confined => effectful (confined.reads tool risk earlier)
  have after := (before.step (P := P) op).held
  rw [same] at after executed
  exact after.resolve_left fun confined => effectful (confined.reads tool risk executed)

def planThenShell : (effect : Effect) → effect.Reply :=
  surroundings fun planMode => .ok ⟨.assistant none
    [⟨"call_1", if planMode then "propose_plan" else "shell_exec", ""⟩], ⟨10, 2, 12⟩⟩

def approvedPlanOps : List Op :=
  .start shellRegistry :: List.replicate 11 (.advance planThenShell) ++
    .interfere (.decide "apr_1" ⟨"approve", none⟩ "2026-01-01T12:00:00Z") ::
      List.replicate 14 (.advance planThenShell)

theorem plan_mode_confined_shell :
    PlanApproved (live (.ofDigests []) (queuedIn .plan) approvedPlanOps).world := by
  have fresh : Fresh (queuedIn .plan) := by decide
  have executed : .executed "shell_exec" .exec ∈ (live (.ofDigests []) (queuedIn .plan)
      (approvedPlanOps ++ [.advance planThenShell])).world.trace := by decide +kernel
  exact plan_mode_confined (.ofDigests []) fresh rfl approvedPlanOps (.advance planThenShell) executed
    (by decide)

end Life

end Agent24.Agent
