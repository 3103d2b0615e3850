import Agent24.Platform
import Mathlib.Data.List.Dedup

/-! The persisted conversation of a run, and where a parked run was suspended. -/

set_option autoImplicit false
namespace Agent24.Agent
open Library List

def trim (text : String) : String := Text.trim isWhitespace text

inductive RunStatus where
  | queued | running | awaitingApproval | completed | failed | cancelled
  deriving DecidableEq, Repr

def RunStatus.debug : RunStatus → String
  | .queued => "Queued"
  | .running => "Running"
  | .awaitingApproval => "AwaitingApproval"
  | .completed => "Completed"
  | .failed => "Failed"
  | .cancelled => "Cancelled"

structure ToolCallRequest where
  id : String
  name : String
  arguments : String
  deriving DecidableEq, Repr

namespace ToolCallRequest

def toJson (call : ToolCallRequest) : Json :=
  .obj [("arguments", .str call.arguments), ("id", .str call.id), ("name", .str call.name)]

/-- An object with the three texts, or their values in a list. -/
def ofJson : Json → Option ToolCallRequest
  | .obj fields => do
    pure ⟨← ((Json.obj fields).get? "id").bind Json.asStr?,
      ← ((Json.obj fields).get? "name").bind Json.asStr?,
      ← ((Json.obj fields).get? "arguments").bind Json.asStr?⟩
  | .arr [.str id, .str name, .str arguments] => some ⟨id, name, arguments⟩
  | _ => none

theorem ofJson_toJson (call : ToolCallRequest) : ofJson call.toJson = some call := rfl

end ToolCallRequest

def callsToJson (calls : List ToolCallRequest) : Json := .arr (calls.map ToolCallRequest.toJson)

/-- `serde_json::from_value::<Vec<ToolCallRequest>>`. -/
def callsOfJson : Json → Option (List ToolCallRequest)
  | .arr items => items.mapM ToolCallRequest.ofJson
  | _ => none

theorem callsOfJson_callsToJson (calls : List ToolCallRequest) :
    callsOfJson (callsToJson calls) = some calls := by
  simp only [callsToJson, callsOfJson]
  induction calls with
  | nil => rfl
  | cons call rest ih =>
    simp [mapM_cons, ToolCallRequest.ofJson_toJson, ih]

structure Msg where
  role : String
  content : Option String
  toolCalls : List ToolCallRequest
  toolCallId : Option String
  deriving DecidableEq, Repr

namespace Msg

def user (content : String) : Msg := ⟨"user", some content, [], none⟩

def assistant (content : Option String) (toolCalls : List ToolCallRequest) : Msg :=
  ⟨"assistant", content, toolCalls, none⟩

def toolResult (toolCallId content : String) : Msg := ⟨"tool", some content, [], some toolCallId⟩

/-- An optional text as a field value, and back from a field that may be absent. -/
def textToJson (text : Option String) : Json := text.elim .null .str

def textOfJson : Option Json → Option (Option String)
  | none | some .null => some none
  | some (.str text) => some (some text)
  | some _ => none

theorem textOfJson_textToJson (text : Option String) : textOfJson (some (textToJson text)) = some text := by
  cases text <;> rfl

def toJson (msg : Msg) : Json :=
  .obj [("content", textToJson msg.content), ("role", .str msg.role),
    ("tool_call_id", textToJson msg.toolCallId), ("tool_calls", callsToJson msg.toolCalls)]

/-- An object with the four fields, or their values in a list. -/
def ofJson : Json → Option Msg
  | .obj fields => do
    pure ⟨← ((Json.obj fields).get? "role").bind Json.asStr?,
      ← textOfJson ((Json.obj fields).get? "content"),
      ← ((Json.obj fields).get? "tool_calls").bind callsOfJson,
      ← textOfJson ((Json.obj fields).get? "tool_call_id")⟩
  | .arr [.str role, content, calls, callId] => do
    pure ⟨role, ← textOfJson (some content), ← callsOfJson calls, ← textOfJson (some callId)⟩
  | _ => none

theorem ofJson_toJson (msg : Msg) : ofJson msg.toJson = some msg := by
  simp [toJson, ofJson, Json.get?, Json.asStr?, textOfJson_textToJson, callsOfJson_callsToJson]

end Msg

/-- A row of `run_messages`. -/
structure RunMessage where
  seq : Int
  role : String
  content : Option String
  toolCalls : Json
  toolCallId : Option String
  deriving DecidableEq

def Msg.persisted (seq : Int) (msg : Msg) : RunMessage :=
  ⟨seq, msg.role, msg.content, callsToJson msg.toolCalls, msg.toolCallId⟩

/-- One row of `thread_to_messages`; unreadable calls are no calls. -/
def RunMessage.message (row : RunMessage) : Msg :=
  ⟨row.role, row.content, (callsOfJson row.toolCalls).getD [], row.toolCallId⟩

def threadToMessages (thread : List RunMessage) : List Msg := thread.map RunMessage.message

@[simp] theorem message_persisted (seq : Int) (msg : Msg) : (msg.persisted seq).message = msg := by
  simp [RunMessage.message, Msg.persisted, callsOfJson_callsToJson]

section
variable {α β : Type}

def lastWhere (select : α → Bool) : List α → Option (α × List α)
  | [] => none
  | a :: rest =>
    match lastWhere select rest with
    | some found => some found
    | none => if select a then some (a, rest) else none

theorem lastWhere_eq_none {select : α → Bool} {items : List α} :
    lastWhere select items = none ↔ ∀ a ∈ items, select a = false := by
  induction items with
  | nil => simp [lastWhere]
  | cons a rest ih =>
    simp only [lastWhere, forall_mem_cons, ← ih]
    cases lastWhere select rest with
    | some last => simp
    | none => cases select a <;> simp

theorem lastWhere_append {select : α → Bool} {a : α} (chosen : select a = true) {back : List α}
    (after : ∀ b ∈ back, select b = false) (front : List α) :
    lastWhere select (front ++ a :: back) = some (a, back) := by
  induction front with
  | nil => simp [lastWhere, lastWhere_eq_none.mpr after, chosen]
  | cons b front ih => simp [lastWhere, ih]

theorem lastWhere_eq_some {select : α → Bool} {items : List α} {a : α} {back : List α}
    (found : lastWhere select items = some (a, back)) :
    ∃ front, items = front ++ a :: back ∧ select a = true ∧ ∀ b ∈ back, select b = false := by
  induction items with
  | nil => cases found
  | cons b rest ih =>
    simp only [lastWhere] at found
    cases later : lastWhere select rest with
    | some last =>
      simp only [later, Option.some.injEq] at found
      subst found
      obtain ⟨front, whole, others⟩ := ih later
      exact ⟨b :: front, by rw [whole, cons_append], others⟩
    | none =>
      simp only [later] at found
      split at found
      · next chosen =>
        obtain ⟨rfl, rfl⟩ := Prod.mk.inj (Option.some.inj found)
        exact ⟨[], rfl, chosen, lastWhere_eq_none.mp later⟩
      · cases found

end

/-- The ids answered by `tool` messages. -/
def answeredIds (messages : List Msg) : List String :=
  (messages.filter fun m => m.role == "tool").filterMap Msg.toolCallId

def unansweredCallsOfLastTurn (messages : List Msg) : Option (List ToolCallRequest) :=
  (lastWhere (fun m => m.role == "assistant" && !m.toolCalls.isEmpty) messages).map fun (turn, after) =>
    turn.toolCalls.filter fun call => !(answeredIds after).contains call.id

/-- Anything in `tool_calls` but an empty array or null. -/
def requestsToolCalls (row : RunMessage) : Bool :=
  row.role == "assistant" && row.toolCalls != .null &&
    match row.toolCalls.asArray? with
    | some items => !items.isEmpty
    | none => true

inductive ResumePlan where
  | notResumable (reason : String)
  | awaitingToolApproval (assistantSeq : Int) (toolCallId : String)
  deriving DecidableEq, Repr

/-- The ids answered by `tool` rows. -/
def answeredRows (thread : List RunMessage) : List String :=
  (thread.filter fun m => m.role == "tool").filterMap RunMessage.toolCallId

def planResume (status : RunStatus) (thread : List RunMessage) : ResumePlan :=
  if status ≠ .awaitingApproval then
    .notResumable ("run status is " ++ status.debug ++
      ", not awaiting_approval — nothing was parked on a human")
  else match lastWhere requestsToolCalls thread with
    | none => .notResumable
        "awaiting_approval but no tool-calling assistant turn on disk (inconsistent thread)"
    | some (assistant, after) =>
      match callsOfJson assistant.toolCalls with
      | none => .notResumable "the parked turn's tool calls cannot be read"
      | some calls =>
        let requested := calls.map ToolCallRequest.id
        if (requested.filter (· ≠ "")).dedup.length ≠ calls.length then
          .notResumable "the parked turn does not give each tool call an id of its own"
        else match requested.find? fun id => !(answeredRows after).contains id with
          | some unanswered => .awaitingToolApproval assistant.seq unanswered
          | none => .notResumable
              "awaiting_approval but every tool_call in the last turn is already answered (thread/status disagree)"

/-- The name and arguments an item gives the id, read without `ToolCallRequest`. -/
def requestedItem (toolCallId : String) (item : Json) : Option (String × String) :=
  if (item.get? "id").bind Json.asStr? = some toolCallId then
    some (((item.get? "name").bind Json.asStr?).getD "",
      ((item.get? "arguments").bind Json.asStr?).getD "")
  else none

/-- `find_requested_call`, over the rows from the last one back. -/
def findRequestedCall (thread : List RunMessage) (toolCallId : String) : Option (String × String) :=
  thread.reverse.findSome? fun row =>
    if row.role ≠ "assistant" then none
    else match row.toolCalls.asArray? with
      | none => none
      | some items => items.findSome? (requestedItem toolCallId)

section Parked

/-- Every row's calls were written by `persist_message`. -/
def Written (thread : List RunMessage) : Prop :=
  ∀ row ∈ thread, ∃ calls, row.toolCalls = callsToJson calls

def RunMessage.NamesCall (row : RunMessage) (toolCallId : String) : Prop :=
  ∃ items, row.toolCalls = .arr items ∧ ∃ item ∈ items, (item.get? "id").bind Json.asStr? = some toolCallId

def Msg.requestsCalls (m : Msg) : Bool := m.role == "assistant" && !m.toolCalls.isEmpty

theorem message_toolCalls {row : RunMessage} {calls : List ToolCallRequest}
    (read : callsOfJson row.toolCalls = some calls) : row.message.toolCalls = calls := by
  rw [RunMessage.message, read, Option.getD_some]

theorem quiet_row {row : RunMessage} (quiet : requestsToolCalls row = false) (toolCallId : String) :
    row.message.requestsCalls = false ∧
      (if row.role ≠ "assistant" then none
        else match row.toolCalls.asArray? with
          | none => none
          | some items => items.findSome? (requestedItem toolCallId)) = none := by
  unfold requestsToolCalls at quiet
  by_cases assistant : row.role = "assistant"
  · rw [if_neg (not_not.mpr assistant)]
    cases stored : row.toolCalls with
    | null => exact ⟨by simp [Msg.requestsCalls, RunMessage.message, stored, callsOfJson], rfl⟩
    | arr items =>
      cases items with
      | nil => exact ⟨by simp [Msg.requestsCalls, RunMessage.message, stored, callsOfJson], rfl⟩
      | cons item items => simp [assistant, stored, Json.asArray?] at quiet
    | _ => simp [assistant, stored, Json.asArray?] at quiet
  · rw [if_pos assistant]
    refine ⟨?_, rfl⟩
    rw [Msg.requestsCalls, RunMessage.message, beq_false_of_ne assistant, Bool.false_and]

theorem answeredIds_threadToMessages (thread : List RunMessage) :
    answeredIds (threadToMessages thread) = answeredRows thread := by
  unfold answeredIds answeredRows threadToMessages
  rw [filter_map, filterMap_map]
  rfl

theorem ofJson_obj {fields : List (String × Json)} {call : ToolCallRequest}
    (read : ToolCallRequest.ofJson (.obj fields) = some call) :
    ((Json.obj fields).get? "id").bind Json.asStr? = some call.id ∧
      ((Json.obj fields).get? "name").bind Json.asStr? = some call.name ∧
      ((Json.obj fields).get? "arguments").bind Json.asStr? = some call.arguments := by
  obtain ⟨id, named, rest⟩ := Option.bind_eq_some_iff.mp read
  obtain ⟨name, called, rest⟩ := Option.bind_eq_some_iff.mp rest
  obtain ⟨arguments, given, made⟩ := Option.bind_eq_some_iff.mp rest
  obtain rfl := Option.some.inj made
  exact ⟨named, called, given⟩

theorem findSome_items {items : List Json} {calls : List ToolCallRequest} {toolCallId : String}
    (read : items.mapM ToolCallRequest.ofJson = some calls)
    (object : ∃ item ∈ items, (item.get? "id").bind Json.asStr? = some toolCallId) :
    ∃ call ∈ calls, call.id = toolCallId ∧
      items.findSome? (requestedItem toolCallId) = some (call.name, call.arguments) := by
  induction items generalizing calls with
  | nil =>
    obtain ⟨item, member, -⟩ := object
    cases member
  | cons item items ih =>
    rw [mapM_cons] at read
    obtain ⟨first, readFirst, rest⟩ := Option.bind_eq_some_iff.mp read
    obtain ⟨others, readOthers, made⟩ := Option.bind_eq_some_iff.mp rest
    obtain rfl := Option.some.inj made
    rw [List.findSome?_cons, requestedItem]
    by_cases named : (item.get? "id").bind Json.asStr? = some toolCallId
    · cases item with
      | obj fields =>
        obtain ⟨id, name, arguments⟩ := ofJson_obj readFirst
        rw [if_pos named, name, arguments]
        exact ⟨first, .head _, Option.some.inj (id.symm.trans named), rfl⟩
      | _ => cases named
    · rw [if_neg named]
      obtain ⟨found, member, itsName⟩ := object
      have later : found ∈ items := (mem_cons.mp member).resolve_left fun same => named (same ▸ itsName)
      obtain ⟨call, held, same, first⟩ := ih readOthers ⟨found, later, itsName⟩
      exact ⟨call, .tail _ held, same, first⟩

structure SuspendedIn (thread : List RunMessage) (toolCallId : String) (calls : List ToolCallRequest)
    (turn : RunMessage) (after : List RunMessage) : Prop where
  last : lastWhere requestsToolCalls thread = some (turn, after)
  read : callsOfJson turn.toolCalls = some calls
  ids : ((calls.map ToolCallRequest.id).filter (· ≠ "")).dedup.length = calls.length
  first : (calls.map ToolCallRequest.id).find? (fun id => !(answeredRows after).contains id)
    = some toolCallId

theorem planResume_suspended {status : RunStatus} {thread : List RunMessage} {seq : Int}
    {toolCallId : String} (parked : planResume status thread = .awaitingToolApproval seq toolCallId) :
    status = .awaitingApproval ∧ ∃ calls turn after, SuspendedIn thread toolCallId calls turn after := by
  unfold planResume at parked
  split at parked
  · cases parked
  next waiting =>
  split at parked
  · cases parked
  next turn after last =>
  split at parked
  · cases parked
  next calls read =>
  dsimp only at parked
  split at parked
  · cases parked
  next ids =>
  split at parked
  case h_2 => cases parked
  next id first =>
  obtain ⟨rfl, rfl⟩ := ResumePlan.awaitingToolApproval.inj parked
  exact ⟨not_not.mp waiting, calls, turn, after, last, read, not_not.mp ids, first⟩

namespace SuspendedIn
variable {thread : List RunMessage} {toolCallId : String} {calls : List ToolCallRequest}
  {turn : RunMessage} {after : List RunMessage}

section
variable (suspended : SuspendedIn thread toolCallId calls turn after)
include suspended

theorem ids_nodup :
    (calls.map ToolCallRequest.id).Nodup := by
  have ids := suspended.ids
  have kept := List.length_filter_le (fun id : String => decide (id ≠ "")) (calls.map ToolCallRequest.id)
  have single := (List.dedup_sublist ((calls.map ToolCallRequest.id).filter (· ≠ ""))).length_le
  rw [length_map] at kept
  have all : (calls.map ToolCallRequest.id).filter (· ≠ "") = calls.map ToolCallRequest.id :=
    filter_sublist.eq_of_length (by rw [length_map]; omega)
  rw [all] at ids
  rw [← dedup_eq_self]
  exact (dedup_sublist _).eq_of_length (by rw [length_map]; exact ids)

theorem parts :
    ∃ earlier call later, calls = earlier ++ call :: later ∧ call.id = toolCallId ∧
      (∀ c ∈ earlier ++ later, c.id ≠ toolCallId) ∧ toolCallId ∉ answeredRows after ∧
      ∀ c ∈ earlier, c.id ∈ answeredRows after := by
  have first := suspended.first
  rw [List.find?_map, Option.map_eq_some_iff] at first
  obtain ⟨call, found, rfl⟩ := first
  obtain ⟨open_, earlier, later, rfl, closed⟩ := List.find?_eq_some_iff_append.mp found
  have distinct := suspended.ids_nodup
  rw [map_append, map_cons, nodup_middle, ← map_append, nodup_cons] at distinct
  exact ⟨earlier, call, later, rfl, rfl, fun c member same => distinct.1 (mem_map.mpr ⟨c, member, same⟩),
    by simpa using open_, fun c member => by simpa using closed c member⟩

theorem nonempty : calls ≠ [] := by
  rintro rfl
  cases suspended.first

theorem lastMessage :
    lastWhere Msg.requestsCalls (threadToMessages thread) =
      some (turn.message, threadToMessages after) := by
  obtain ⟨front, whole, requests, others⟩ := lastWhere_eq_some suspended.last
  have assistant : (turn.role == "assistant") = true := by
    unfold requestsToolCalls at requests
    simp only [Bool.and_eq_true] at requests
    exact requests.1.1
  have chosen : turn.message.requestsCalls = true := by
    rw [Msg.requestsCalls, message_toolCalls suspended.read, Bool.and_eq_true]
    exact ⟨assistant, by simpa using suspended.nonempty⟩
  rw [whole, threadToMessages, map_append, map_cons]
  refine lastWhere_append chosen (fun message member => ?_) _
  obtain ⟨row, held, rfl⟩ := mem_map.mp member
  exact (quiet_row (others row held) toolCallId).1

theorem unanswered :
    unansweredCallsOfLastTurn (threadToMessages thread) =
      some (calls.filter fun call => !(answeredRows after).contains call.id) := by
  have located := suspended.lastMessage
  unfold Msg.requestsCalls at located
  unfold unansweredCallsOfLastTurn
  rw [located]
  simp only [Option.map_some, message_toolCalls suspended.read, answeredIds_threadToMessages]

theorem requested (object : turn.NamesCall toolCallId) :
    ∃ call ∈ calls, call.id = toolCallId ∧
      findRequestedCall thread toolCallId = some (call.name, call.arguments) := by
  obtain ⟨front, whole, requests, others⟩ := lastWhere_eq_some suspended.last
  have assistant : turn.role = "assistant" := by
    unfold requestsToolCalls at requests
    simp only [Bool.and_eq_true, beq_iff_eq] at requests
    exact requests.1.1
  obtain ⟨items, stored, object⟩ := object
  have read := suspended.read
  rw [stored] at read
  obtain ⟨call, held, same, found⟩ := findSome_items read object
  refine ⟨call, held, same, ?_⟩
  unfold findRequestedCall
  rw [whole, reverse_append, reverse_cons, append_assoc, List.findSome?_append,
    List.findSome?_eq_none_iff.mpr fun row member => (quiet_row (others row (mem_reverse.mp member)) _).2,
    Option.none_or, singleton_append, List.findSome?_cons, if_neg (not_not.mpr assistant), stored]
  dsimp only [Json.asArray?]
  rw [found]

end

end SuspendedIn

/-- Where a run is parked on a call, that call is the first unanswered one of the last turn, as a resume compares
it. -/
theorem planResume_unanswered {status : RunStatus} {thread : List RunMessage} {seq : Int}
    {toolCallId : String} (parked : planResume status thread = .awaitingToolApproval seq toolCallId) :
    ∃ call rest, unansweredCallsOfLastTurn (threadToMessages thread) = some (call :: rest) ∧
      call.id = toolCallId ∧ ∀ turn after, lastWhere requestsToolCalls thread = some (turn, after) →
        turn.NamesCall toolCallId → findRequestedCall thread toolCallId = some (call.name, call.arguments) := by
  obtain ⟨-, calls, turn, after, suspended⟩ := planResume_suspended parked
  obtain ⟨earlier, call, later, rfl, rfl, others, open_, closed⟩ := suspended.parts
  have head : (earlier ++ call :: later).filter (fun c => !(answeredRows after).contains c.id) =
      call :: later.filter fun c => !(answeredRows after).contains c.id := by
    rw [filter_append, filter_eq_nil_iff.mpr fun c member => by simpa using closed c member,
      nil_append, filter_cons_of_pos (by simpa using open_)]
  refine ⟨call, _, suspended.unanswered.trans (congrArg some head), rfl, fun turn' after' last object => ?_⟩
  obtain ⟨rfl, rfl⟩ := Prod.mk.inj (Option.some.inj (suspended.last.symm.trans last))
  obtain ⟨found, held, same, requested⟩ := suspended.requested object
  rw [requested]
  rcases mem_append.mp held with early | late
  · exact absurd same (others found (mem_append_left _ early))
  rcases mem_cons.mp late with rfl | late
  · rfl
  · exact absurd same (others found (mem_append_right _ late))

theorem namesCall_written {row : RunMessage} {calls : List ToolCallRequest} {call : ToolCallRequest}
    (written : row.toolCalls = callsToJson calls) (held : call ∈ calls) : row.NamesCall call.id :=
  ⟨_, written, call.toJson, mem_map_of_mem held, rfl⟩

theorem planResume_parked {status : RunStatus} {thread : List RunMessage} {seq : Int}
    {toolCallId : String} (written : Written thread)
    (parked : planResume status thread = .awaitingToolApproval seq toolCallId) :
    ∃ call rest, unansweredCallsOfLastTurn (threadToMessages thread) = some (call :: rest) ∧
      call.id = toolCallId ∧ findRequestedCall thread toolCallId = some (call.name, call.arguments) := by
  obtain ⟨call, rest, unanswered, same, requested⟩ := planResume_unanswered parked
  obtain ⟨-, calls, turn, after, suspended⟩ := planResume_suspended parked
  obtain ⟨front, whole, -, -⟩ := lastWhere_eq_some suspended.last
  obtain ⟨stored, kept⟩ := written turn (by simp [whole])
  obtain ⟨earlier, named, later, made, rfl, -⟩ := suspended.parts
  have read := suspended.read
  rw [kept, callsOfJson_callsToJson] at read
  obtain rfl := Option.some.inj read
  exact ⟨call, rest, unanswered, same, requested turn after suspended.last (namesCall_written kept (by simp [made]))⟩

end Parked

/-- What a parked approval says about the call it was asked for. -/
structure ApprovedCall where
  payload : Json
  toolCallId : String
  tool : Option String

def ApprovedCall.isOf (approved : ApprovedCall) (toolCallId name : String) : Bool :=
  match approved.tool with
  | some tool => tool == name
  | none => approved.toolCallId == toolCallId

inductive RestoreDecision where
  | restore (toolCallId : String)
  | abort (reason : String)
  deriving DecidableEq, Repr

section
variable (P : Platform)

def debugOption : Option String → String
  | none => "None"
  | some text => "Some(" ++ P.debugStr text ++ ")"

/-- The input rebuilt from raw arguments; `none` where they are no object. -/
def rebuiltInput (arguments : String) : Option Json :=
  if isBlank arguments then some (.obj [])
  else match P.parseJson arguments with
    | some (.obj fields) => some (.obj fields)
    | _ => none

def assessRestore (approved : ApprovedCall) (createdAt : String) (status : RunStatus)
    (thread : List RunMessage) (toolExists : String → Bool) (ttlCutoff : String) : RestoreDecision :=
  match planResume status thread with
  | .notResumable reason => .abort reason
  | .awaitingToolApproval _ toolCallId =>
    match findRequestedCall thread toolCallId with
    | none => .abort ("tool_call " ++ toolCallId ++ " not found in the persisted thread")
    | some (name, arguments) =>
      if !toolExists name then
        .abort ("tool " ++ "`" ++ name ++ "`" ++ " is no longer registered — cannot resume its call")
      else if !approved.isOf toolCallId name then
        .abort ("tool_call " ++ toolCallId ++ " is a " ++ "`" ++ name ++ "`" ++
          " call, but the approval was asked for " ++ debugOption P approved.tool)
      else match rebuiltInput P arguments with
        | none => .abort ("tool_call " ++ toolCallId ++ " arguments no longer parse as an object")
        | some rebuilt =>
          if rebuilt ≠ approved.payload then
            .abort ("tool_call " ++ toolCallId ++
              " input changed since it was approved (refusing to run B for an approval of A)")
          else if createdAt < ttlCutoff then
            .abort ("approval queued at " ++ createdAt ++ " is older than the resume TTL (cutoff " ++
              ttlCutoff ++ ")")
          else .restore toolCallId

theorem assessRestore_eq_restore {approved : ApprovedCall} {createdAt cutoff toolCallId : String}
    {status : RunStatus} {thread : List RunMessage} {toolExists : String → Bool}
    (restored : assessRestore P approved createdAt status thread toolExists cutoff = .restore toolCallId) :
    ∃ seq name arguments, planResume status thread = .awaitingToolApproval seq toolCallId ∧
      findRequestedCall thread toolCallId = some (name, arguments) ∧ toolExists name = true ∧
      approved.isOf toolCallId name = true ∧ rebuiltInput P arguments = some approved.payload ∧
      ¬ createdAt < cutoff := by
  unfold assessRestore at restored
  split at restored
  · cases restored
  next seq parkedId parked =>
  split at restored
  · cases restored
  next name arguments found =>
  split at restored
  · cases restored
  next exists_ =>
  split at restored
  · cases restored
  next own =>
  split at restored
  · cases restored
  next rebuilt read =>
  split at restored
  · cases restored
  next same =>
  split at restored
  · cases restored
  next inTime =>
  obtain rfl := RestoreDecision.restore.inj restored
  refine ⟨seq, name, arguments, parked, found, by simpa using exists_, by simpa using own, ?_, inTime⟩
  rw [read, not_not.mp same]

/-- A restored approval is the one asked for the call that the thread is parked on. -/
theorem restore_sound :
    (∀ (approved : ApprovedCall) (createdAt cutoff toolCallId : String) (status : RunStatus)
        (thread : List RunMessage) (toolExists : String → Bool),
      assessRestore P approved createdAt status thread toolExists cutoff = .restore toolCallId →
      status = .awaitingApproval ∧ ¬ createdAt < cutoff ∧
      ∃ turn after earlier call later, lastWhere requestsToolCalls thread = some (turn, after) ∧
        callsOfJson turn.toolCalls = some (earlier ++ call :: later) ∧ call.id = toolCallId ∧
        (∀ c ∈ earlier ++ later, c.id ≠ toolCallId) ∧ toolCallId ∉ answeredRows after ∧
        (∀ c ∈ earlier, c.id ∈ answeredRows after) ∧
        (turn.NamesCall toolCallId →
          toolExists call.name = true ∧
          (approved.tool = some call.name ∨ approved.tool = none ∧ approved.toolCallId = toolCallId) ∧
          (isBlank call.arguments = true ∧ approved.payload = .obj [] ∨
            ∃ fields, P.parseJson call.arguments = some (.obj fields) ∧ approved.payload = .obj fields))) ∧
    ∀ (status : RunStatus) (thread : List RunMessage) (seq : Int) (toolCallId : String),
      planResume status thread = .awaitingToolApproval seq toolCallId →
      ∃ call rest, unansweredCallsOfLastTurn (threadToMessages thread) = some (call :: rest) ∧
        call.id = toolCallId ∧ ∀ turn after, lastWhere requestsToolCalls thread = some (turn, after) →
          turn.NamesCall toolCallId → findRequestedCall thread toolCallId = some (call.name, call.arguments) := by
  refine ⟨fun approved createdAt cutoff toolCallId status thread toolExists restored => ?_,
    fun status thread seq toolCallId parked => planResume_unanswered parked⟩
  obtain ⟨seq, name, arguments, parked, found, exists_, own, rebuilt, inTime⟩ := assessRestore_eq_restore P restored
  obtain ⟨waiting, calls, turn, after, suspended⟩ := planResume_suspended parked
  obtain ⟨earlier, call, later, rfl, rfl, others, open_, closed⟩ := suspended.parts
  refine ⟨waiting, inTime, turn, after, earlier, call, later, suspended.last, suspended.read, rfl, others, open_,
    closed, fun object => ?_⟩
  obtain ⟨given, held, same, requested⟩ := suspended.requested object
  obtain rfl : given = call := by
    rw [mem_append, mem_cons] at held
    rcases held with early | rfl | late
    · exact absurd same (others given (mem_append_left _ early))
    · rfl
    · exact absurd same (others given (mem_append_right _ late))
  obtain ⟨rfl, rfl⟩ := Prod.mk.inj (Option.some.inj (found.symm.trans requested))
  refine ⟨exists_, ?_, ?_⟩
  · unfold ApprovedCall.isOf at own
    cases asked : approved.tool with
    | some tool =>
      rw [asked] at own
      exact .inl (congrArg some (beq_iff_eq.mp own))
    | none =>
      rw [asked] at own
      exact .inr ⟨rfl, beq_iff_eq.mp own⟩
  · unfold rebuiltInput at rebuilt
    split at rebuilt
    · next blank => exact .inl ⟨blank, (Option.some.inj rebuilt).symm⟩
    split at rebuilt
    · next fields parsed => exact .inr ⟨fields, parsed, (Option.some.inj rebuilt).symm⟩
    · cases rebuilt

def blankTurn : List RunMessage :=
  [⟨0, "assistant", none, callsToJson [⟨"c1", "ls", ""⟩], none⟩]

def listedTurn : List RunMessage :=
  [⟨0, "assistant", none, .arr [.arr [.str "c1", .str "ls", .str "\x7b\x7d"]], none⟩]

/-- Blank arguments stand for the empty object though they are no JSON, and the search passes over a listed call. -/
theorem blank_and_listed :
    (¬ ∀ (approved : ApprovedCall) (createdAt cutoff toolCallId : String) (status : RunStatus)
        (thread : List RunMessage) (toolExists : String → Bool),
      assessRestore (.ofDigests []) approved createdAt status thread toolExists cutoff = .restore toolCallId →
      ∃ name arguments fields, findRequestedCall thread toolCallId = some (name, arguments) ∧
        (Platform.ofDigests []).parseJson arguments = some (.obj fields) ∧ approved.payload = .obj fields) ∧
    ¬ ∀ (status : RunStatus) (thread : List RunMessage) (seq : Int) (toolCallId : String),
      planResume status thread = .awaitingToolApproval seq toolCallId →
      ∃ call rest, unansweredCallsOfLastTurn (threadToMessages thread) = some (call :: rest) ∧
        call.id = toolCallId ∧ findRequestedCall thread toolCallId = some (call.name, call.arguments) := by
  constructor
  · intro parses
    obtain ⟨name, arguments, fields, -, parsed, -⟩ := parses ⟨.obj [], "c1", some "ls"⟩ "t" "t" "c1"
      .awaitingApproval blankTurn (fun _ => true) (by decide +kernel)
    cases parsed
  · intro finds
    obtain ⟨call, rest, -, -, found⟩ := finds .awaitingApproval listedTurn 0 "c1" (by decide +kernel)
    have missed : findRequestedCall listedTurn "c1" = none := by decide +kernel
    cases found

end
end Agent24.Agent
