import Agent24.Agent.Loop

/-! What one effect, or one act of another party, can do to a run's rows. -/

set_option autoImplicit false
namespace Agent24.Agent
open Library

inductive Settled : Effect → World → World → Prop where
  | unchanged {effect : Effect} {w : World} : Settled effect w w
  | completed {planMode : Bool} {messages : List Msg} {w : World} (usage : Usage) :
      Settled (.complete planMode messages) w { w with trace := w.trace ++ [.completion usage] }
  | prepared {w : World} (snapshot : List Msg) : Settled .prepare w (snapshot.foldl World.append w)
  | appended {msg : Msg} {w : World} : Settled (.appendMessage msg) w (w.append msg)
  | transitioned {target : RunStatus} {patch : RunPatch} {w : World}
      (allowed : runTransitionAllowed w.run.status target = true) :
      Settled (.transition target patch) w { w with run := w.run.patched target patch }
  | recovered {w : World} (allowed : runTransitionAllowed w.run.status .cancelled = true) :
      Settled .recoverWorkspaceRun w { w with run := w.run.patched .cancelled ⟨none, none, none⟩ }
  | inserted {tool : String} {w : World} (id : String) (fresh : ∀ call ∈ w.toolCalls, call.id ≠ id) :
      Settled (.insertToolCall tool) w
        { w with toolCalls := w.toolCalls ++ [⟨id, w.run.id, tool, .running⟩] }
  | finished {id : String} {status : ToolCallStatus} {w : World} :
      Settled (.finishToolCall id status) w (w.finishToolCall id status)
  | requested {toolCallId : String} {payload : Json} {plan : Bool} {w : World} (offer : Offer)
      (fresh : ∀ approval ∈ w.approvals, approval.id ≠ offer.id) :
      Settled (.requestApproval toolCallId payload plan) w { w with
        approvals := w.approvals ++ [⟨offer.id, w.run.id, toolCallId, payload, offer.availableDecisions,
          .pending, none, offer.expiresAt, offer.createdAt⟩] }
  | resolved {id : String} {w : World} (status : ApprovalStatus)
      (closed : status = .timedOut ∨ status = .aborted) :
      Settled (.awaitResolution id) w (w.resolveApproval id status none)
  | executed {tool : String} {risk : RiskClass} {input : Json} {w : World} :
      Settled (.execute tool risk input) w { w with trace := w.trace ++ [.executed tool risk] }

namespace World
variable {w w' : World}

theorem transition_false (target : RunStatus) (patch : RunPatch)
    (illegal : runTransitionAllowed w.run.status target = false) :
    w.transition target patch = (false, w) := by
  simp [transition, illegal]

theorem transition_true (target : RunStatus) (patch : RunPatch)
    (allowed : runTransitionAllowed w.run.status target = true) :
    w.transition target patch = (true, { w with run := w.run.patched target patch }) := by
  simp [transition, allowed]

theorem insertToolCall_eq_some {id tool : String} (inserted : w.insertToolCall id tool = some w') :
    (∀ call ∈ w.toolCalls, call.id ≠ id) ∧
      w' = { w with toolCalls := w.toolCalls ++ [⟨id, w.run.id, tool, .running⟩] } := by
  unfold insertToolCall at inserted
  split at inserted
  · cases inserted
  next unstored =>
  refine ⟨?_, (Option.some.inj inserted).symm⟩
  simpa using unstored

theorem insertApproval_eq_some {approval : Approval} (inserted : w.insertApproval approval = some w') :
    (∀ a ∈ w.approvals, a.id ≠ approval.id) ∧
      w' = { w with approvals := w.approvals ++ [approval] } := by
  unfold insertApproval at inserted
  split at inserted
  · cases inserted
  next unstored =>
  refine ⟨?_, (Option.some.inj inserted).symm⟩
  simpa using unstored

theorem decide_eq_some {id now : String} {decision : Decision}
    (decided : w.decide id decision now = some w') :
    ∃ status, decision.status = some status ∧ w' = w.resolveApproval id status (some decision) := by
  unfold decide at decided
  split at decided
  · next approval status found known =>
    split at decided
    · cases decided
    · exact ⟨status, known, (Option.some.inj decided).symm⟩
  · cases decided

end World

theorem respond_settled (effect : Effect) (proposal : effect.Reply) (w : World) :
    Settled effect w (respond effect proposal w).2 := by
  cases effect with
  | complete planMode messages =>
    cases proposal with
    | ok completion => exact .completed completion.usage
    | error err => exact .unchanged
  | prepare =>
    cases proposal with
    | ready snapshot => exact .prepared snapshot
    | cancelled => exact .unchanged
    | failed code message => exact .unchanged
  | appendMessage msg =>
    cases proposal with
    | none => exact .appended
    | some err => exact .unchanged
  | transition target patch =>
    cases proposal with
    | false => exact .unchanged
    | true =>
      cases legal : runTransitionAllowed w.run.status target with
      | false =>
        simp only [respond, World.transition_false target patch legal, if_true]
        exact .unchanged
      | true =>
        simp only [respond, World.transition_true target patch legal, if_true]
        exact .transitioned legal
  | recoverWorkspaceRun =>
    cases proposal with
    | false => exact .unchanged
    | true =>
      cases legal : runTransitionAllowed w.run.status .cancelled with
      | false =>
        simp only [respond, World.transition_false .cancelled _ legal, if_true]
        exact .unchanged
      | true =>
        simp only [respond, World.transition_true .cancelled _ legal, if_true]
        exact .recovered legal
  | insertToolCall tool =>
    cases proposal with
    | none => exact .unchanged
    | some id =>
      simp only [respond]
      split
      · next w' inserted =>
        obtain ⟨fresh, rfl⟩ := World.insertToolCall_eq_some inserted
        exact .inserted id fresh
      · exact .unchanged
  | finishToolCall id status => exact .finished
  | requestApproval toolCallId payload plan =>
    cases proposal with
    | none => exact .unchanged
    | some offer =>
      simp only [respond]
      split
      · next w' inserted =>
        obtain ⟨fresh, rfl⟩ := World.insertApproval_eq_some inserted
        exact .requested (if plan then { offer with availableDecisions := ["approve", "deny"] } else offer)
          fresh
      · exact .unchanged
  | awaitResolution id =>
    simp only [respond]
    split
    · exact .unchanged
    cases proposal with
    | timedOut | lost =>
      dsimp only
      split
      · exact .resolved .timedOut (.inl rfl)
      · exact .unchanged
    | cancelled => exact .resolved .aborted (.inr rfl)
    | decided | channelDropped | storeError => exact .unchanged
  | execute =>
    rcases proposal with err | output
    · cases err with
      | approvalStale => exact .unchanged
      | _ => exact .executed
    · exact .executed
  | _ => exact .unchanged


section Approvals

theorem Decision.status_ne_pending {decision : Decision} : decision.status ≠ some .pending := by
  unfold Decision.status
  split_ifs <;> simp

def Approval.Decided (a : Approval) : Prop :=
  ∀ decision, a.decision = some decision → decision.status = some a.status

theorem Approval.Decided.undecided {a : Approval} (decided : a.Decided) (pending : a.status = .pending) :
    a.decision = none := by
  cases given : a.decision with
  | none => rfl
  | some decision => exact absurd (pending ▸ decided decision given) Decision.status_ne_pending

structure Resolves (a a' : Approval) : Prop where
  id : a'.id = a.id
  runId : a'.runId = a.runId
  toolCallId : a'.toolCallId = a.toolCallId
  approved : a.status = .approved → a'.status = .approved
  decided : a.Decided → a'.Decided

namespace Resolves

theorem refl (a : Approval) : Resolves a a := ⟨rfl, rfl, rfl, fun held => held, fun held => held⟩

theorem trans {a b c : Approval} (first : Resolves a b) (second : Resolves b c) : Resolves a c where
  id := second.id.trans first.id
  runId := second.runId.trans first.runId
  toolCallId := second.toolCallId.trans first.toolCallId
  approved held := second.approved (first.approved held)
  decided held := second.decided (first.decided held)

theorem resolved {a : Approval} {status : ApprovalStatus} {decision : Option Decision}
    (pending : a.status = .pending) (consistent : ∀ d, decision = some d → d.status = some status) :
    Resolves a { a with
      status := status
      decision := decision } where
  id := rfl
  runId := rfl
  toolCallId := rfl
  approved held := absurd (pending.symm.trans held) (by decide)
  decided _ := consistent

theorem timedOut {a : Approval} (pending : a.status = .pending) :
    Resolves a { a with status := .timedOut } where
  id := rfl
  runId := rfl
  toolCallId := rfl
  approved held := absurd (pending.symm.trans held) (by decide)
  decided held decision given := by
    rw [held.undecided pending] at given
    cases given

end Resolves
end Approvals

structure Keeps (w w' : World) : Prop where
  runId : w'.run.id = w.run.id
  calledTool : ∀ runId id tool, w.calledTool runId id = some tool → w'.calledTool runId id = some tool
  kept : ∀ a ∈ w.approvals, ∃ a' ∈ w'.approvals, Resolves a a'
  found : ∀ id a, w.approval? id = some a → ∃ a', w'.approval? id = some a' ∧ Resolves a a'

structure Evolves (w w' : World) : Prop extends Keeps w w' where
  origin : ∀ a' ∈ w'.approvals, ∃ a ∈ w.approvals, Resolves a a'

theorem Keeps.refl (w : World) : Keeps w w where
  runId := rfl
  calledTool _ _ _ called := called
  kept a member := ⟨a, member, .refl a⟩
  found _ a found := ⟨a, found, .refl a⟩

theorem Evolves.refl (w : World) : Evolves w w where
  toKeeps := Keeps.refl w
  origin a member := ⟨a, member, .refl a⟩

theorem Evolves.trans {a b c : World} (first : Evolves a b) (second : Evolves b c) : Evolves a c where
  runId := second.runId.trans first.runId
  calledTool runId id tool called := second.calledTool _ _ _ (first.calledTool _ _ _ called)
  kept x member := by
    obtain ⟨y, there, before⟩ := first.kept x member
    obtain ⟨z, now, after⟩ := second.kept y there
    exact ⟨z, now, before.trans after⟩
  found id x found := by
    obtain ⟨y, there, before⟩ := first.found id x found
    obtain ⟨z, now, after⟩ := second.found id y there
    exact ⟨z, now, before.trans after⟩
  origin z member := by
    obtain ⟨y, there, after⟩ := second.origin z member
    obtain ⟨x, first, before⟩ := first.origin y there
    exact ⟨x, first, before.trans after⟩

namespace World
variable {w w' : World}

theorem calledTool_append (rows : List ToolCallRow) {runId id tool : String}
    (called : w.calledTool runId id = some tool) :
    { w with toolCalls := w.toolCalls ++ rows }.calledTool runId id = some tool := by
  simp only [calledTool, Option.map_eq_some_iff] at called ⊢
  obtain ⟨call, found, named⟩ := called
  refine ⟨call, ?_, named⟩
  rw [List.filter_append, List.find?_append, found, Option.some_or]

theorem calledTool_new {runId id tool : String} {status : ToolCallStatus}
    (fresh : ∀ call ∈ w.toolCalls, call.id ≠ id) :
    { w with toolCalls := w.toolCalls ++ [ToolCallRow.mk id runId tool status] }.calledTool runId id
      = some tool := by
  have absent : (w.toolCalls.filter fun call => call.runId == runId).find? (fun call => call.id == id)
      = none := by
    rw [List.find?_eq_none]
    intro call member
    simpa using fresh call (List.mem_filter.mp member).1
  simp [calledTool, List.filter_append, List.find?_append, absent]

theorem calledTool_finishToolCall (id : String) (status : ToolCallStatus) (runId callId : String) :
    (w.finishToolCall id status).calledTool runId callId = w.calledTool runId callId := by
  -- finishing changes no column that the lookup reads
  have sameRun (call : ToolCallRow) : (if call.id = id ∧ call.status = .running then
      { call with status := status } else call).runId = call.runId := by split <;> rfl
  have sameId (call : ToolCallRow) : (if call.id = id ∧ call.status = .running then
      { call with status := status } else call).id = call.id := by split <;> rfl
  have sameTool (call : ToolCallRow) : (if call.id = id ∧ call.status = .running then
      { call with status := status } else call).tool = call.tool := by split <;> rfl
  simp only [calledTool, finishToolCall, List.filter_map, List.find?_map, Option.map_map]
  simp only [Function.comp_def, sameRun, sameId, sameTool]

/-- The rows a lookup of approvals reads are those of `w`. -/
theorem evolves_of_approvals {run : Run} {thread : List RunMessage} {trace : List TraceEvent}
    (same : run.id = w.run.id) :
    Evolves w { w with
      run := run
      thread := thread
      trace := trace } where
  runId := same
  calledTool _ _ _ called := called
  kept a member := ⟨a, member, .refl a⟩
  found _ a found := ⟨a, found, .refl a⟩
  origin a member := ⟨a, member, .refl a⟩

theorem evolves_of_toolCalls {rows : List ToolCallRow}
    (called : ∀ runId id tool, w.calledTool runId id = some tool →
      { w with toolCalls := rows }.calledTool runId id = some tool) :
    Evolves w { w with toolCalls := rows } where
  runId := rfl
  calledTool := called
  kept a member := ⟨a, member, .refl a⟩
  found _ a found := ⟨a, found, .refl a⟩
  origin a member := ⟨a, member, .refl a⟩

theorem evolves_of_map {resolve : Approval → Approval} (each : ∀ a, Resolves a (resolve a)) :
    Evolves w { w with approvals := w.approvals.map resolve } where
  runId := rfl
  calledTool _ _ _ called := called
  kept a member := ⟨resolve a, List.mem_map_of_mem member, each a⟩
  found id a found := by
    have sameId : (fun a => a.id == id) ∘ resolve = fun a => a.id == id := by
      funext a
      simp only [Function.comp_apply, (each a).id]
    refine ⟨resolve a, ?_, each a⟩
    unfold approval? at found ⊢
    rw [List.find?_map, sameId, found, Option.map_some]
  origin a' member := by
    obtain ⟨a, there, rfl⟩ := List.mem_map.mp member
    exact ⟨a, there, each a⟩

theorem evolves_resolveApproval {id : String} {status : ApprovalStatus} {decision : Option Decision}
    (consistent : ∀ d, decision = some d → d.status = some status) :
    Evolves w (w.resolveApproval id status decision) := by
  refine evolves_of_map fun a => ?_
  split
  · next chosen => exact .resolved chosen.2 consistent
  · exact .refl a

theorem evolves_timeoutExpired (now : String) : Evolves w (w.timeoutExpired now) := by
  refine evolves_of_map fun a => ?_
  split
  · next expired => exact .timedOut expired.1
  · exact .refl a

theorem keeps_requested {approval : Approval} (fresh : ∀ a ∈ w.approvals, a.id ≠ approval.id) :
    Keeps w { w with approvals := w.approvals ++ [approval] } ∧
      { w with approvals := w.approvals ++ [approval] }.approval? approval.id = some approval := by
  have absent : w.approvals.find? (fun a => a.id == approval.id) = none := by
    rw [List.find?_eq_none]
    intro a member
    simpa using fresh a member
  refine ⟨⟨rfl, fun _ _ _ called => called, fun a member => ⟨a, List.mem_append_left _ member, .refl a⟩,
    fun id a found => ⟨a, ?_, .refl a⟩⟩, ?_⟩
  · unfold approval? at found ⊢
    rw [List.find?_append, found, Option.some_or]
  · simp [approval?, List.find?_append, absent]

end World

theorem prepared_eq (snapshot : List Msg) (w : World) :
    ∃ thread, snapshot.foldl World.append w = { w with thread := thread } := by
  induction snapshot generalizing w with
  | nil => exact ⟨w.thread, rfl⟩
  | cons msg rest ih =>
    obtain ⟨thread, whole⟩ := ih (w.append msg)
    exact ⟨thread, whole⟩

namespace Settled
open World
variable {effect : Effect} {w w' : World}

theorem evolves (settled : Settled effect w w')
    (other : ∀ toolCallId payload plan, effect ≠ .requestApproval toolCallId payload plan) :
    Evolves w w' := by
  cases settled with
  | unchanged => exact .refl w
  | completed usage => exact evolves_of_approvals rfl
  | prepared snapshot =>
    obtain ⟨thread, whole⟩ := prepared_eq snapshot w
    rw [whole]
    exact evolves_of_approvals rfl
  | appended => exact evolves_of_approvals rfl
  | transitioned allowed => exact evolves_of_approvals rfl
  | recovered allowed => exact evolves_of_approvals rfl
  | inserted id fresh => exact evolves_of_toolCalls fun _ _ _ called => calledTool_append _ called
  | finished => exact evolves_of_toolCalls fun _ _ _ called => (calledTool_finishToolCall ..).trans called
  | requested offer fresh => exact absurd rfl (other _ _ _)
  | resolved status closed => exact evolves_resolveApproval fun _ given => nomatch given
  | executed => exact evolves_of_approvals rfl

theorem keeps (settled : Settled effect w w') : Keeps w w' := by
  cases effect with
  | requestApproval =>
    cases settled with
    | unchanged => exact .refl w
    | requested offer fresh => exact (keeps_requested fresh).1
  | _ => exact (settled.evolves (by rintro _ _ _ ⟨⟩)).toKeeps

end Settled

section Replies
variable {w : World}

theorem respond_insertToolCall (tool : String) (proposal : Option String) (w : World) :
    respond (.insertToolCall tool) proposal w = (none, w) ∨
      ∃ id, (∀ call ∈ w.toolCalls, call.id ≠ id) ∧
        respond (.insertToolCall tool) proposal w =
          (some id, { w with toolCalls := w.toolCalls ++ [ToolCallRow.mk id w.run.id tool .running] }) := by
  cases proposal with
  | none => exact .inl rfl
  | some id =>
    simp only [respond]
    split
    · next w' inserted =>
      obtain ⟨fresh, rfl⟩ := World.insertToolCall_eq_some inserted
      exact .inr ⟨id, fresh, rfl⟩
    · exact .inl rfl

theorem respond_requestApproval (toolCallId : String) (payload : Json) (plan : Bool)
    (proposal : Option Offer) (w : World) :
    respond (.requestApproval toolCallId payload plan) proposal w = (none, w) ∨
      ∃ offer w' a, respond (.requestApproval toolCallId payload plan) proposal w = (some offer, w') ∧
        w'.approval? offer.id = some a ∧ a.runId = w'.run.id := by
  cases proposal with
  | none => exact .inl rfl
  | some proposed =>
    simp only [respond]
    split
    · next w' inserted =>
      obtain ⟨fresh, rfl⟩ := World.insertApproval_eq_some inserted
      exact .inr ⟨_, _, _, rfl, (World.keeps_requested fresh).2, rfl⟩
    · exact .inl rfl

theorem Decision.status_of_allow {decision : Decision} (allows : decision.verdict = .allow) :
    decision.status = some .approved := by
  unfold Decision.verdict at allows
  unfold Decision.status
  split at allows
  · next approving => rw [if_pos approving]
  split at allows
  · cases allows
  · split at allows <;> cases allows

theorem respond_awaitResolution {id : String} {a : Approval} (found : w.approval? id = some a)
    (decided : a.Decided) (proposal : Resolution)
    (allows : (respond (.awaitResolution id) proposal w).1.verdict = .allow) :
    a.status = .approved ∧ (respond (.awaitResolution id) proposal w).2 = w := by
  cases proposal with
  | decided claimed =>
    simp only [respond, found] at allows ⊢
    cases given : a.decision with
    | none => simp [given, Resolution.verdict] at allows
    | some decision =>
      simp only [given, Option.elim_some, Resolution.verdict] at allows
      have granted := (decided decision given).symm.trans (Decision.status_of_allow allows)
      exact ⟨Option.some.inj granted, trivial⟩
  | timedOut | lost =>
    simp only [respond, found] at allows ⊢
    split at allows
    · cases allows
    next resolved =>
    rw [if_neg resolved]
    refine ⟨?_, rfl⟩
    simp only [Resolution.verdict] at allows
    cases status : a.status with
    | approved => rfl
    | _ => simp [status, verdictFromRow] at allows
  | cancelled => simp [respond, found, Resolution.verdict] at allows
  | channelDropped => simp [respond, found, Resolution.verdict] at allows
  | storeError => simp [respond, found, Resolution.verdict] at allows

end Replies

def Interferes (w w' : World) : Prop := ∃ others, w' = run interfere others w

namespace Interferes

theorem refl (w : World) : Interferes w w := ⟨[], rfl⟩

theorem trans {a b c : World} (first : Interferes a b) (second : Interferes b c) : Interferes a c := by
  obtain ⟨early, rfl⟩ := first
  obtain ⟨late, rfl⟩ := second
  exact ⟨early ++ late, (run_append interfere early late a).symm⟩

theorem one (w : World) (other : Interference) : Interferes w (interfere w other) := ⟨[other], rfl⟩

end Interferes

theorem interfere_evolves (w : World) (other : Interference) : Evolves w (interfere w other) := by
  cases other with
  | decide id decision now =>
    simp only [interfere]
    cases decided : w.decide id decision now with
    | none => exact .refl w
    | some w' =>
      obtain ⟨status, known, rfl⟩ := World.decide_eq_some decided
      exact World.evolves_resolveApproval fun _ given => Option.some.inj given ▸ known
  | timeoutExpired now => exact World.evolves_timeoutExpired now
  | watchdog id => exact World.evolves_resolveApproval fun _ given => nomatch given

theorem interfere_rows (w : World) (other : Interference) :
    ∃ approvals, interfere w other = { w with approvals := approvals } := by
  cases other with
  | decide id decision now =>
    simp only [interfere]
    cases decided : w.decide id decision now with
    | none => exact ⟨w.approvals, rfl⟩
    | some w' =>
      obtain ⟨status, known, rfl⟩ := World.decide_eq_some decided
      exact ⟨_, rfl⟩
  | timeoutExpired now => exact ⟨_, rfl⟩
  | watchdog id => exact ⟨_, rfl⟩

namespace Interferes
variable {w w' : World}

theorem induct (kept : World → Prop) (each : ∀ w other, kept w → kept (interfere w other))
    (others : Interferes w w') (holds : kept w) : kept w' := by
  obtain ⟨acts, rfl⟩ := others
  exact run_invariant interfere (fun _ => True) kept (fun w other _ held => each w other held)
    (fun _ _ => trivial) holds

theorem evolves (others : Interferes w w') : Evolves w w' :=
  others.induct (Evolves w) (fun after other before => before.trans (interfere_evolves after other))
    (.refl w)

theorem rows (others : Interferes w w') : ∃ approvals, w' = { w with approvals := approvals } := by
  refine others.induct (fun after => ∃ approvals, after = { w with approvals := approvals })
    (fun after other before => ?_) ⟨w.approvals, rfl⟩
  obtain ⟨_, rfl⟩ := before
  obtain ⟨approvals, whole⟩ := interfere_rows _ other
  exact ⟨approvals, whole⟩

end Interferes

def discipline (condition : World → Effect → Prop) (invariant : World → Prop)
    (stable : ∀ w other, invariant w → invariant (interfere w other)) :
    Discipline Effect Effect.Reply World where
  respond := respond
  condition := condition
  rely := Interferes
  invariant := invariant
  refl := .refl
  trans := .trans
  stable others holds := others.induct invariant stable holds

section Rules
variable {condition : World → Effect → Prop} {invariant : World → Prop}
  {stable : ∀ w other, invariant w → invariant (interfere w other)}
  {α : Type} {result : α → World → Prop} {w : World}

theorem discipline_done {value : α} (holds : invariant w)
    (ends : ∀ w', Interferes w w' → result value w') :
    (discipline condition invariant stable).Safe result (pure value) w := ⟨holds, ends⟩

theorem discipline_ask {effect : Effect} {f : effect.Reply → Task α} (holds : invariant w)
    (rest : ∀ w', Interferes w w' → condition w' effect → ∀ proposal,
      (discipline condition invariant stable).Safe result (f (respond effect proposal w').1)
        (respond effect proposal w').2) :
    (discipline condition invariant stable).Safe result (perform effect >>= f) w := ⟨holds, rest⟩

end Rules

end Agent24.Agent
