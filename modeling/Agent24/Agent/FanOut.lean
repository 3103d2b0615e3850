import Agent24.Agent.Resume

/-! A parked fan-out turn: what a resume does with its calls, against what the live loop does. -/

set_option autoImplicit false
namespace Agent24.Agent
open Library List

section Treatments
variable (tools : ToolRegistry)

def liveTreatments : Bool → List (ToolCallRequest × Nat) → List Treatment
  | _, [] => []
  | planMode, (call, idx) :: rest =>
    let treatment := liveTreatment tools planMode idx call
    -- an approved plan leaves plan mode for the calls after it
    treatment :: liveTreatments (planMode && treatment != .plan) rest

def ResumeStep.treatment : ResumeStep → Treatment
  | .settlePlan => .plan
  | .settleCall | .runCall => .dispatched

def resumeTreatments (toolCallId : String) : Bool → List ToolCallRequest → List Treatment
  | _, [] => []
  | settled, call :: rest =>
    (resumeStep toolCallId settled call).treatment ::
      resumeTreatments toolCallId (settled || call.id == toolCallId) rest

def dispatchedCalls (calls : List ToolCallRequest) (treatments : List Treatment) : List ToolCallRequest :=
  ((calls.zip treatments).filter fun (_, treatment) => treatment == .dispatched).map Prod.fst

theorem liveTreatments_drop (n : Nat) (planMode : Bool) (calls : List (ToolCallRequest × Nat)) :
    ∃ later, (liveTreatments tools planMode calls).drop n = liveTreatments tools later (calls.drop n) := by
  induction n generalizing planMode calls with
  | zero => exact ⟨planMode, rfl⟩
  | succ n ih =>
    cases calls with
    | nil => exact ⟨planMode, rfl⟩
    | cons call rest => exact ih _ rest

theorem liveTreatments_unlocked (calls : List (ToolCallRequest × Nat)) :
    liveTreatments tools false calls = calls.map fun (call, idx) => liveTreatment tools false idx call := by
  induction calls with
  | nil => rfl
  | cons call rest ih => rw [liveTreatments, Bool.false_and, ih, map_cons]

theorem liveTreatment_dispatched_iff (idx : Nat) (call : ToolCallRequest) :
    liveTreatment tools false idx call = .dispatched ↔
      idx < maxToolCallsPerTurn ∧ trim call.name ≠ proposePlan := by
  unfold liveTreatment
  split_ifs with beyond plan <;> simp_all

theorem resumeTreatments_settled (toolCallId : String) (calls : List ToolCallRequest) :
    resumeTreatments toolCallId true calls = calls.map fun _ => .dispatched := by
  induction calls with
  | nil => rfl
  | cons call rest ih =>
    rw [resumeTreatments, Bool.true_or, ih, map_cons]
    simp [resumeStep, ResumeStep.treatment]

end Treatments

section Agreement
variable {tools : ToolRegistry}

def AllDispatched (start : Nat) (calls : List ToolCallRequest) : Prop :=
  ∀ i call, calls[i]? = some call → start + i < maxToolCallsPerTurn ∧ trim call.name ≠ proposePlan

theorem allDispatched_cons {start : Nat} {call : ToolCallRequest} {rest : List ToolCallRequest} :
    AllDispatched start (call :: rest) ↔
      (start < maxToolCallsPerTurn ∧ trim call.name ≠ proposePlan) ∧ AllDispatched (start + 1) rest := by
  constructor
  · intro all
    refine ⟨all 0 call rfl, fun i later found => ?_⟩
    have next := all (i + 1) later found
    rwa [Nat.add_assoc, Nat.add_comm 1 i]
  · rintro ⟨first, later⟩ i found at_
    cases i with
    | zero =>
      obtain rfl := Option.some.inj at_
      exact first
    | succ i =>
      have next := later i found at_
      rwa [Nat.add_assoc, Nat.add_comm 1 i] at next

theorem treatments_agree_iff (calls : List ToolCallRequest) (start : Nat) :
    (calls.map fun _ => Treatment.dispatched) =
        ((calls.zipIdx start).map fun (call, idx) => liveTreatment tools false idx call) ↔
      AllDispatched start calls := by
  induction calls generalizing start with
  | nil => simp [AllDispatched]
  | cons call rest ih =>
    rw [allDispatched_cons, ← ih, ← liveTreatment_dispatched_iff tools]
    simp only [map_cons, zipIdx_cons, List.cons.injEq]
    exact and_congr_left' eq_comm

theorem dispatched_length (calls : List ToolCallRequest) (start : Nat) :
    let live := (calls.zipIdx start).map fun (call, idx) => liveTreatment tools false idx call
    (dispatchedCalls calls live).length ≤ calls.length ∧
      ((dispatchedCalls calls live).length = calls.length → AllDispatched start calls) := by
  induction calls generalizing start with
  | nil => simp [dispatchedCalls, AllDispatched]
  | cons call rest ih =>
    obtain ⟨bounded, whole⟩ := ih (start + 1)
    rw [allDispatched_cons, ← liveTreatment_dispatched_iff tools]
    simp only [dispatchedCalls, length_map] at bounded whole
    simp only [dispatchedCalls, zipIdx_cons, map_cons, zip_cons_cons, length_map,
      length_cons, filter_cons]
    split
    · next dispatched =>
      rw [length_cons]
      exact ⟨by omega, fun full => ⟨beq_iff_eq.mp dispatched, whole (by omega)⟩⟩
    · exact ⟨by omega, fun full => by omega⟩

theorem dispatchedCalls_all (calls : List ToolCallRequest) :
    dispatchedCalls calls (calls.map fun _ => .dispatched) = calls := by
  unfold dispatchedCalls
  induction calls with
  | nil => rfl
  | cons call rest ih =>
    rw [map_cons, zip_cons_cons, filter_cons_of_pos rfl, map_cons, ih]

theorem dispatchedCalls_cons (call : ToolCallRequest) (treatment : Treatment)
    (calls : List ToolCallRequest) (treatments : List Treatment) :
    dispatchedCalls (call :: calls) (treatment :: treatments) =
      (if treatment = .dispatched then [call] else []) ++ dispatchedCalls calls treatments := by
  unfold dispatchedCalls
  cases treatment <;> rfl

end Agreement

section Parked
variable {P : Platform} {tools : ToolRegistry} {planMode : Bool} {calls : List ToolCallRequest} {p : Nat}
  {thread : List RunMessage} {toolCallId : String}

def waits (P : Platform) (tools : ToolRegistry) (call : ToolCallRequest) : Treatment → Bool
  | .plan => true
  | .dispatched => tools.interactiveGate && tools.toolRequiresApproval call.name &&
      (parseArguments P call.arguments).2.isNone
  | .skipped | .planDenied => false

def AnswerOf (answer : Msg) (call : ToolCallRequest) : Prop :=
  answer.role = "tool" ∧ answer.toolCallId = some call.id

structure ParkedTurn (P : Platform) (tools : ToolRegistry) (planMode : Bool)
    (calls : List ToolCallRequest) (p : Nat) (thread : List RunMessage) (toolCallId : String) : Prop where
  written : Written thread
  -- the turn is stored, and the calls before the parked one are answered
  shape : ∃ prior content answers, threadToMessages thread = prior ++ .assistant content calls :: answers ∧
    List.Forall₂ AnswerOf answers (calls.take p)
  waiting : ∃ call treatment, calls[p]? = some call ∧
    (liveTreatments tools planMode calls.zipIdx)[p]? = some treatment ∧ waits P tools call treatment = true
  -- a resume finds it
  resumable : ∃ seq, planResume .awaitingApproval thread = .awaitingToolApproval seq toolCallId

theorem answeredIds_answers {answers : List Msg} {calls : List ToolCallRequest}
    (answered : List.Forall₂ AnswerOf answers calls) :
    answeredIds answers = calls.map ToolCallRequest.id := by
  induction answered with
  | nil => rfl
  | cons first rest ih =>
    unfold answeredIds at ih ⊢
    rw [filter_cons_of_pos (by simp [first.1]), filterMap_cons, first.2, ih, map_cons]

theorem not_requests_answers {answers : List Msg} {calls : List ToolCallRequest}
    (answered : List.Forall₂ AnswerOf answers calls) :
    ∀ m ∈ answers, m.requestsCalls = false := by
  induction answered with
  | nil => simp
  | cons first rest ih =>
    rw [forall_mem_cons]
    refine ⟨?_, ih⟩
    unfold Msg.requestsCalls
    rw [first.1]
    rfl

theorem filter_unanswered (calls : List ToolCallRequest) (p : Nat)
    (distinct : (calls.map ToolCallRequest.id).Nodup) :
    calls.filter (fun call => !((calls.take p).map ToolCallRequest.id).contains call.id) = calls.drop p := by
  conv_lhs => arg 2; rw [← take_append_drop p calls]
  rw [filter_append]
  have answered : (calls.take p).filter
      (fun call => !((calls.take p).map ToolCallRequest.id).contains call.id) = [] := by
    rw [filter_eq_nil_iff]
    intro call member
    simp only [Bool.not_eq_true', Bool.not_eq_false, contains_iff_mem]
    exact mem_map_of_mem member
  have others : (calls.drop p).filter
      (fun call => !((calls.take p).map ToolCallRequest.id).contains call.id) = calls.drop p := by
    rw [filter_eq_self]
    intro call member
    simp only [Bool.not_eq_true', contains_eq_mem, decide_eq_false_iff_not]
    rw [← take_append_drop p calls, map_append, nodup_append] at distinct
    intro before
    exact distinct.2.2 _ before _ (mem_map_of_mem member) rfl
  rw [answered, others, nil_append]

theorem drop_zipIdx {α : Type} (items : List α) (start n : Nat) :
    (items.zipIdx start).drop n = (items.drop n).zipIdx (start + n) := by
  induction n generalizing items start with
  | zero => rfl
  | succ n ih =>
    cases items with
    | nil => rfl
    | cons item rest =>
      rw [zipIdx_cons, drop_succ_cons, drop_succ_cons, ih, Nat.add_right_comm, Nat.add_assoc]

theorem ParkedTurn.unanswered (parked : ParkedTurn P tools planMode calls p thread toolCallId) :
    unansweredCallsOfLastTurn (threadToMessages thread) = some (calls.drop p) := by
  obtain ⟨prior, content, answers, shape, answered⟩ := parked.shape
  obtain ⟨call, -, present, -, -⟩ := parked.waiting
  have requests : (Msg.assistant content calls).requestsCalls = true := by
    cases calls with
    | nil => simp at present
    | cons first rest => rfl
  have last := lastWhere_append requests (not_requests_answers answered) prior
  obtain ⟨seq, resumable⟩ := parked.resumable
  obtain ⟨-, stored, turn, after, suspended⟩ := planResume_suspended resumable
  have same := suspended.lastMessage
  rw [shape, last] at same
  obtain ⟨message, -⟩ := Prod.mk.inj (Option.some.inj same)
  have requested : calls = stored := by
    rw [← message_toolCalls suspended.read, ← message]
    rfl
  have distinct := suspended.ids_nodup
  rw [← requested] at distinct
  unfold Msg.requestsCalls at last
  unfold unansweredCallsOfLastTurn
  rw [shape, last]
  simp only [Option.map_some, answeredIds_answers answered]
  exact congrArg some (filter_unanswered calls p distinct)

theorem waits_unlocks {idx : Nat} {call : ToolCallRequest}
    (waiting : waits P tools call (liveTreatment tools planMode idx call) = true) :
    (planMode && liveTreatment tools planMode idx call != .plan) = false := by
  cases planMode with
  | false => rfl
  | true =>
    cases branch : liveTreatment tools true idx call with
    | skipped => simp [branch, waits] at waiting
    | planDenied => simp [branch, waits] at waiting
    | plan => rfl
    | dispatched =>
      -- plan mode dispatches reads only, and a read waits for nobody
      have read : tools.toolRiskClass call.name = some .read := by
        unfold liveTreatment at branch
        split_ifs at branch with _ _ gated
        exact not_not.mp fun other => gated ⟨rfl, other⟩
      simp [branch, waits, ToolRegistry.toolRequiresApproval, read, RiskClass.requiresApproval] at waiting

theorem settled_treatment {idx : Nat} {call : ToolCallRequest}
    (waiting : waits P tools call (liveTreatment tools planMode idx call) = true) :
    (resumeStep call.id false call).treatment = liveTreatment tools planMode idx call := by
  unfold resumeStep
  rw [if_pos ⟨rfl, rfl⟩]
  unfold liveTreatment at waiting ⊢
  -- what is skipped or denied waits for nobody
  split_ifs at waiting ⊢
  all_goals first | rfl | simp [waits] at waiting

theorem ParkedTurn.treatments (parked : ParkedTurn P tools planMode calls p thread toolCallId) :
    ∃ call rest first, calls.drop p = call :: rest ∧
      resumeTreatments toolCallId false (calls.drop p) = first :: rest.map (fun _ => .dispatched) ∧
      (liveTreatments tools planMode calls.zipIdx).drop p =
        first :: (rest.zipIdx (p + 1)).map fun (call, idx) => liveTreatment tools false idx call := by
  obtain ⟨call, treatment, present, treated, waiting⟩ := parked.waiting
  obtain ⟨seq, resumable⟩ := parked.resumable
  obtain ⟨suspended, others, remaining, same, -⟩ := planResume_parked parked.written resumable
  have whole : calls.drop p = call :: calls.drop (p + 1) := by
    obtain ⟨bound, rfl⟩ := List.getElem?_eq_some_iff.mp present
    exact drop_eq_getElem_cons bound
  have head : call :: calls.drop (p + 1) = suspended :: others := by
    rw [← whole]
    exact Option.some.inj (parked.unanswered.symm.trans remaining)
  obtain ⟨rfl, -⟩ := List.cons.inj head
  obtain ⟨later, dropped⟩ := liveTreatments_drop tools p planMode calls.zipIdx
  have positions : calls.zipIdx.drop p = (call, p) :: (calls.drop (p + 1)).zipIdx (p + 1) := by
    rw [drop_zipIdx, whole, zipIdx_cons, Nat.zero_add]
  rw [positions, liveTreatments] at dropped
  have now : treatment = liveTreatment tools later p call := by
    rw [← List.head?_drop, dropped, List.head?_cons] at treated
    exact (Option.some.inj treated).symm
  rw [now] at waiting
  refine ⟨call, calls.drop (p + 1), liveTreatment tools later p call, whole, ?_, ?_⟩
  · rw [whole, resumeTreatments, ← same, settled_treatment waiting, Bool.false_or, beq_self_eq_true,
      resumeTreatments_settled]
  · rw [dropped]
    rw [waits_unlocks waiting, liveTreatments_unlocked]

/-- Every call after the parked one is one that the live loop dispatches. -/
def WithinTurn (p : Nat) (calls : List ToolCallRequest) : Prop :=
  ∀ j call, p < j → calls[j]? = some call → j < maxToolCallsPerTurn ∧ trim call.name ≠ proposePlan

theorem withinTurn_iff {call : ToolCallRequest} {rest : List ToolCallRequest}
    (whole : calls.drop p = call :: rest) : WithinTurn p calls ↔ AllDispatched (p + 1) rest := by
  have later (i : Nat) : rest[i]? = calls[p + 1 + i]? := by
    rw [← List.getElem?_drop, ← drop_drop, whole]
    rfl
  constructor
  · intro within i call found
    rw [later] at found
    exact within (p + 1 + i) call (by omega) found
  · intro all j call after found
    have here := all (j - (p + 1)) call (by rw [later, show p + 1 + (j - (p + 1)) = j by omega]; exact found)
    rwa [show p + 1 + (j - (p + 1)) = j by omega] at here

def resumedDispatches (thread : List RunMessage) (toolCallId : String) : List ToolCallRequest :=
  ((unansweredCallsOfLastTurn (threadToMessages thread)).map fun unanswered =>
    dispatchedCalls unanswered (resumeTreatments toolCallId false unanswered)).getD []

def parkedThread (calls : List ToolCallRequest) : List RunMessage :=
  [Msg.persisted 0 ⟨"user", some "tidy up", [], none⟩, Msg.persisted 1 (.assistant none calls)]

theorem parkedTurn_shells : ParkedTurn (.ofDigests []) shellRegistry false
    [shellCall "call_1", shellCall "call_2"] 0 (parkedThread [shellCall "call_1", shellCall "call_2"])
    "call_1" where
  written row member := by
    rcases mem_cons.mp member with rfl | last
    · exact ⟨[], rfl⟩
    · rw [mem_singleton.mp last]
      exact ⟨_, rfl⟩
  shape := ⟨[⟨"user", some "tidy up", [], none⟩], none, [], by decide, .nil⟩
  waiting := ⟨shellCall "call_1", .dispatched, rfl, by decide +kernel, by decide +kernel⟩
  resumable := ⟨1, by decide +kernel⟩

def planTurn : List ToolCallRequest := [shellCall "call_0", ⟨"call_1", "propose_plan", ""⟩]

def wideTurn : List ToolCallRequest := (List.range 17).map fun i => shellCall ("call_" ++ toString i)

end Parked

end Agent24.Agent
