import Agent24.Documents.Confinement
import Agent24.Library.Runs

/-! The keys of extract jobs: whatever claims them, each is the key of its own document's job. -/

set_option autoImplicit false
namespace Agent24.Documents
open Library

def KeyOf (document key : String) : Prop := isId .document document = true ∧ ∃ rest, key = document ++ "/" ++ rest

def Keyed (store : Store) : Prop :=
  ∀ k ∈ store.keys.rows, k.kind = "extract" → ∃ document job, KeyOf document k.key ∧
    store.jobs.find k.targetRef = some job ∧ job.kind = "extract" ∧ job.documentId = some document

theorem KeyOf.unique {document document' key : String} (of_ : KeyOf document key) (of' : KeyOf document' key) :
    document = document' := by
  obtain ⟨id, rest, rfl⟩ := of_
  obtain ⟨id', rest', same⟩ := of'
  have chars := congrArg String.toList same
  simp only [String.toList_append, List.append_assoc] at chars
  have lengths : document.toList.length = document'.toList.length := by rw [(isId_plain id).1, (isId_plain id').1]
  exact String.toList_inj.mp (List.append_inj_left chars lengths)

theorem extractKey_keyOf {document schema : String} {revision : Int} (rerun : Option String)
    (id : isId .document document = true) : KeyOf document (extractKey document revision schema rerun) := by
  refine ⟨id, ?_⟩
  cases rerun with
  | none => exact ⟨toString revision ++ "/" ++ schema ++ "/" ++ EXTRACTOR_VERSION, by
      simp only [extractKey, String.append_assoc]⟩
  | some key => exact ⟨"rerun/" ++ key, by
      rw [extractKey, String.append_assoc, String.append_assoc]
      rfl⟩

theorem prepare_keyOf {m : Module} {store : Store} {document : String} {revision : Int} {fields : List Field}
    {body : Json} {rerun : Option (Except ApiError String)} {prepared : Prepared}
    (ok : prepare m store document revision fields body rerun = .ok prepared) :
    prepared.input.documentId = document ∧ KeyOf document prepared.key := by
  unfold prepare at ok
  split at ok
  · cases ok
  rename_i good
  rw [Bool.or_eq_true, not_or, Bool.not_eq_true', Bool.not_eq_false] at good
  split at ok
  · cases ok
  obtain ⟨rerun, -, ok⟩ := bind_eq_ok.mp ok
  obtain ⟨request, -, ok⟩ := bind_eq_ok.mp ok
  obtain ⟨schema, -, ok⟩ := bind_eq_ok.mp ok
  split at ok
  · cases ok
  split at ok
  · cases ok
  split at ok
  · cases ok
  split at ok
  · cases ok
  · cases ok
    exact ⟨rfl, extractKey_keyOf rerun good.1⟩

inductive Claimed (store : Store) (document key : String) (job : Job) : Store → Prop
  | replayed {after} (jobs : after.jobs = store.jobs) (keys : after.keys = store.keys)
      (hit : ∃ k ∈ store.keys.rows, k.kind = "extract" ∧ k.key = key ∧ k.targetRef = job.jobId) :
      Claimed store document key job after
  | requeued {after row now} (found : store.jobs.find job.jobId = some row)
      (jobs : after.jobs = store.jobs.set (requeued now row)) (keys : after.keys = store.keys)
      (hit : ∃ k ∈ store.keys.rows, k.kind = "extract" ∧ k.key = key ∧ k.targetRef = job.jobId) :
      Claimed store document key job after
  | made {after row request} (fresh : store.jobs.find job.jobId = none) (id : row.id = job.jobId)
      (kind : row.kind = "extract") (owner : row.documentId = some document)
      (jobs : after.jobs = store.jobs.put row) (keys : after.keys = store.keys.put ⟨"extract", key, request,
          job.jobId⟩) :
      Claimed store document key job after

section
variable {m : Module} {store after : Store} {prepared : Prepared} {origin : Origin} {accepted : Option Accepted}
  {draw : Draw} {job : Job} {started : Bool}

theorem JobRow.checked_id {json : String → Option Json} {row : JobRow} (ok : row.checked json = some job) :
    job.jobId = row.id := by
  unfold JobRow.checked at ok
  split at ok
  · cases ok
  split at ok
  · cases ok
  obtain ⟨progress, -, ok⟩ := Option.bind_eq_some_iff.mp ok
  obtain ⟨error, -, ok⟩ := Option.bind_eq_some_iff.mp ok
  split at ok
  · cases ok
  dsimp only at ok
  split at ok
  · cases ok
  split at ok
  · cases ok
  obtain ⟨result, -, ok⟩ := Option.bind_eq_some_iff.mp ok
  cases ok
  rfl

theorem finishClaim_ok {input : Input} {jobId : String} {begun : Bool}
    (ok : finishClaim m store input origin accepted jobId begun = .ok (job, started, after)) :
    job.jobId = jobId ∧ after.jobs = store.jobs ∧ after.keys = store.keys := by
  unfold finishClaim at ok
  dsimp only at ok
  split at ok
  · cases ok
  rename_i row found
  split at ok
  · cases ok
  rename_i answered checked
  have id := JobRow.checked_id checked
  rw [Table.find_key found] at id
  obtain ⟨rfl, -, rfl⟩ := ok
  refine ⟨id, ?_⟩
  cases origin with
  | page => exact ⟨rfl, rfl⟩
  | run run =>
    cases accepted with
    | none => exact ⟨rfl, rfl⟩
    | some accepted =>
      dsimp only
      split
      · exact ⟨rfl, rfl⟩
      · exact ⟨rfl, rfl⟩

theorem claimed_ok (ok : claimed m store prepared origin accepted draw = .ok (job, started, after)) :
    Claimed store prepared.input.documentId prepared.key job after := by
  unfold claimed at ok
  split at ok
  · rename_i hit found
    obtain ⟨listed, slot⟩ := Table.find_eq_some.mp found
    obtain ⟨kind, key⟩ := Prod.mk.inj slot
    split at ok
    · cases ok
    split at ok
    · rename_i row stopped
      obtain ⟨id, jobs, keys⟩ := finishClaim_ok ok
      have found := (Option.filter_eq_some_iff.mp stopped).1
      exact .requeued (id ▸ found) jobs keys ⟨hit, listed, kind, key, id.symm⟩
    · obtain ⟨id, jobs, keys⟩ := finishClaim_ok ok
      exact .replayed jobs keys ⟨hit, listed, kind, key, id.symm⟩
  · split at ok
    · cases ok
    split at ok
    · cases ok
    rename_i fresh
    rw [Option.not_isSome_iff_eq_none] at fresh
    obtain ⟨id, jobs, keys⟩ := finishClaim_ok ok
    subst id
    exact .made fresh rfl rfl rfl jobs keys

end

structure Confined (store after : Store) (document jobId : String) : Prop where
  row : ∃ job, after.jobs.find jobId = some job ∧ job.kind = "extract" ∧ job.documentId = some document
  others : ∀ id ≠ jobId, after.jobs.find id = store.jobs.find id
  owner : ∀ job, store.jobs.find jobId = some job → job.documentId = some document

section
variable {store after : Store} {document key : String} {job : Job}

theorem Keyed.hit {jobId : String} (keyed : Keyed store) (of_ : KeyOf document key)
    (hit : ∃ k ∈ store.keys.rows, k.kind = "extract" ∧ k.key = key ∧ k.targetRef = jobId) :
    ∃ row, store.jobs.find jobId = some row ∧ row.kind = "extract" ∧ row.documentId = some document := by
  obtain ⟨k, listed, kind, rfl, rfl⟩ := hit
  obtain ⟨document', row, of', found, isExtract, owner⟩ := keyed k listed kind
  exact ⟨row, found, isExtract, of_.unique of' ▸ owner⟩

theorem Claimed.confined (keyed : Keyed store) (of_ : KeyOf document key)
    (claimed : Claimed store document key job after) : Confined store after document job.jobId := by
  cases claimed with
  | replayed jobs keys hit =>
    obtain ⟨row, found, kind, owner⟩ := keyed.hit of_ hit
    refine ⟨⟨row, by rw [jobs]; exact found, kind, owner⟩, fun id _ => by rw [jobs], fun other here => ?_⟩
    rw [found, Option.some.injEq] at here
    exact here ▸ owner
  | @requeued row now found jobs keys hit =>
    obtain ⟨row', found', kind, owner⟩ := keyed.hit of_ hit
    rw [found, Option.some.injEq] at found'
    subst found'
    have name : row.id = job.jobId := Table.find_key found
    have id : (Documents.requeued now row).id = job.jobId := name
    refine ⟨⟨Documents.requeued now row, ?_, kind, owner⟩, fun other apart => ?_, fun other here => ?_⟩
    · rw [jobs, Table.find_set, if_pos id.symm, found]
      rfl
    · rw [jobs, Table.find_set, if_neg (fun same => apart (same.trans id))]
    · rw [found, Option.some.injEq] at here
      exact here ▸ owner
  | made fresh id kind owner jobs keys =>
    refine ⟨⟨_, by rw [jobs, ← id]; exact Table.find_put_self, kind, owner⟩, fun other apart => ?_,
        fun other here => ?_⟩
    · rw [jobs, Table.find_put_of_ne fun same => apart (same.trans id)]
    · rw [fresh] at here
      cases here

theorem Claimed.keyed (keyed : Keyed store) (of_ : KeyOf document key)
    (claimed : Claimed store document key job after) : Keyed after := by
  have confined := claimed.confined keyed of_
  -- a target keeps its row's kind and document
  have kept (k : KeyRow) (listed : k ∈ store.keys.rows) (kind : k.kind = "extract") : ∃ document job',
      KeyOf document k.key ∧ after.jobs.find k.targetRef = some job' ∧ job'.kind = "extract" ∧
        job'.documentId = some document := by
    obtain ⟨document', row, of', found, isExtract, owner⟩ := keyed k listed kind
    by_cases here : k.targetRef = job.jobId
    · obtain ⟨row', found', isExtract', owner'⟩ := confined.row
      rw [here] at found ⊢
      have same := confined.owner row found
      rw [owner, Option.some.injEq] at same
      exact ⟨document', row', of', found', isExtract', same ▸ owner'⟩
    · exact ⟨document', row, of', (confined.others _ here).trans found, isExtract, owner⟩
  intro k listed kind
  cases claimed with
  | replayed jobs keys hit => exact kept k (keys ▸ listed) kind
  | requeued found jobs keys hit => exact kept k (keys ▸ listed) kind
  | made fresh id isExtract owner jobs keys =>
    rw [keys, Table.mem_put] at listed
    rcases listed with rfl | ⟨listed, -⟩
    · obtain ⟨row, found, isExtract, owner⟩ := confined.row
      exact ⟨document, row, of_, found, isExtract, owner⟩
    · exact kept k listed kind

end

structure PageRequest where
  document : String
  revision : Int
  fields : List Field
  body : Json
  rerun : Option (Except ApiError String)

def pageExtract (m : Module) (store : Store) (request : PageRequest) (draw : Draw) : Store :=
  match prepare m store request.document request.revision request.fields request.body request.rerun with
  | .ok prepared => (claim m store prepared .page none draw).2
  | .error _ => store

structure Quiet (store after : Store) : Prop where
  keys : ∀ k : KeyRow, k.kind = "extract" → (k ∈ after.keys.rows ↔ k ∈ store.keys.rows)
  jobs : ∀ id row, store.jobs.find id = some row → row.kind = "extract" →
    ∃ row', after.jobs.find id = some row' ∧ row'.kind = "extract" ∧ row'.documentId = row.documentId

inductive Reachable (m : Module) : Store → Prop
  | start {store} (unclaimed : ∀ k ∈ store.keys.rows, k.kind ≠ "extract") : Reachable m store
  | tool {store} (reached : Reachable m store) (op : String) (call : ToolCall) (course : Course) :
      Reachable m (dispatch m store op call course).2
  | page {store} (reached : Reachable m store) (request : PageRequest) (draw : Draw) :
      Reachable m (pageExtract m store request draw)
  | rest {store after} (reached : Reachable m store) (quiet : Quiet store after) : Reachable m after

section
variable {m : Module} {store : Store}

variable (m store) in
theorem claim_cases (prepared : Prepared) (origin : Origin) (accepted : Option Accepted) (draw : Draw) :
    (∃ e, claim m store prepared origin accepted draw = (.error e, store)) ∨ ∃ job started after,
      claim m store prepared origin accepted draw = (.ok (job, started), after) ∧
        Claimed store prepared.input.documentId prepared.key job after := by
  unfold claim
  cases made : claimed m store prepared origin accepted draw with
  | error e => exact .inl ⟨e, rfl⟩
  | ok answer =>
    obtain ⟨job, started, after⟩ := answer
    exact .inr ⟨job, started, after, rfl, claimed_ok made⟩

theorem prepareOp_ok {run : OplogRun} {arguments : Arguments} {prepared : Prepared}
    (ok : prepareOp m store run arguments = .ok prepared) :
    required arguments Json.asStr? "document_id" = .ok prepared.input.documentId ∧
      KeyOf prepared.input.documentId prepared.key := by
  unfold prepareOp at ok
  split at ok
  · cases ok
  obtain ⟨-, -, ok⟩ := bind_eq_ok.mp ok
  obtain ⟨id, named, ok⟩ := bind_eq_ok.mp ok
  obtain ⟨revision, -, ok⟩ := bind_eq_ok.mp ok
  obtain ⟨schema, -, ok⟩ := bind_eq_ok.mp ok
  obtain ⟨fields, -, ok⟩ := bind_eq_ok.mp ok
  dsimp only at ok
  cases made : prepare m store id revision fields (.obj [("revision", .int revision), ("schema", schema)]) none with
  | error e =>
    rw [made] at ok
    cases ok
  | ok prepared' =>
    rw [made] at ok
    cases ok
    obtain ⟨same, of_⟩ := prepare_keyOf made
    exact ⟨same ▸ named, same ▸ of_⟩

def Refuses {α : Type} (checks : Except Envelope α) : Prop :=
  Ensures (fun _ => True) (fun refusal => ∃ code retryable, refusal = .error code retryable) checks

theorem prepareOp_refuses (run : OplogRun) (arguments : Arguments) : Refuses (prepareOp m store run arguments) := by
  have missing {α : Type} (read : Json → Option α) (key : String) : Refuses (required arguments read key) := by
    unfold required
    cases (argument arguments key).bind read with
    | none => exact ⟨_, _, rfl⟩
    | some value => exact trivial
  have unknown (fields : List String) : Refuses (known arguments fields) := by
    unfold known
    split
    · exact trivial
    · exact ⟨_, _, rfl⟩
  unfold prepareOp
  split
  · exact ⟨_, _, rfl⟩
  refine Ensures.bind (unknown _) fun _ _ => Ensures.bind (missing _ _) fun id _ => Ensures.bind (missing _ _)
    fun revision _ => Ensures.bind (missing _ _) fun schema _ => Ensures.bind (missing _ _) fun fields _ => ?_
  dsimp only
  cases prepare m store id revision fields (.obj [("revision", .int revision), ("schema", schema)]) none with
  | error e => exact ⟨_, _, rfl⟩
  | ok prepared => exact trivial

variable (m store) in
theorem extractOp_cases (run : OplogRun) (accepted : Accepted) (draw : Draw) (arguments : Arguments) :
    (extractOp m store run accepted draw arguments).2 = store ∧
        (∀ payload replayed, (extractOp m store run accepted draw arguments).1 ≠ .completed payload replayed) ∨
      ∃ document key job started after, required arguments Json.asStr? "document_id" = .ok document ∧
        KeyOf document key ∧ Claimed store document key job after ∧
        extractOp m store run accepted draw arguments =
          (.completed (.obj [("job_id", .str job.jobId), ("status", .str job.status.asStr)]) (!started), after) := by
  unfold extractOp
  cases checked : prepareOp m store run arguments with
  | error refusal =>
    refine .inl ⟨rfl, fun payload replayed same => ?_⟩
    have refuses : Refuses (prepareOp m store run arguments) := prepareOp_refuses run arguments
    rw [checked] at refuses
    obtain ⟨code, retryable, rfl⟩ := refuses
    cases same
  | ok prepared =>
    obtain ⟨named, of_⟩ := prepareOp_ok checked
    rcases claim_cases m store prepared (.run run) (some accepted) draw with ⟨e, failed⟩ | ⟨job, started, after,
        made, claimed⟩
    · refine .inl ⟨by simp only [failed], fun payload replayed same => ?_⟩
      simp only [failed] at same
      cases same
    · exact .inr ⟨_, _, job, started, after, named, of_, claimed, by simp only [made]⟩

theorem admit_refuses {scope : Scope} (op : String) (arguments : Arguments) :
    Refuses (checkScope store scope op arguments) := by
  have unnamed (key : String) : Refuses (named arguments key) := by
    unfold named
    split
    · exact trivial
    · exact ⟨_, _, rfl⟩
  have outside (kind : IdKind) (id : String) (owner : Option String) (absent : String) :
      Refuses (if !isId kind id then
          (.ok () : Except Envelope Unit) else if owner.any scope.allowsDocument then .ok ()
        else .error (refused (.notFound absent))) := by
    split
    · exact trivial
    split
    · exact trivial
    · exact ⟨_, _, rfl⟩
  unfold checkScope
  cases resource op with
  | none => exact ⟨_, _, rfl⟩
  | some kind =>
    cases kind with
    | document => exact Ensures.bind (unnamed _) fun id _ => outside ..
    | job => exact Ensures.bind (unnamed _) fun id _ => outside ..
    | extraction => exact Ensures.bind (unnamed _) fun id _ => outside ..
    | listing => exact trivial

inductive Dispatched (m : Module) (store : Store) (op : String) (call : ToolCall) (answer : Envelope)
    (after : Store) : Prop
  | nothing (same : after = store) (unanswered : op = "extract" → ∀ payload replayed,
      answer ≠ .completed payload replayed)
  | claims {scope document key job} (extracts : op = "extract")
      (parsed : Scope.parse call.context.authorizedResources = some scope) (inside : document ∈ scope.documents)
      (of_ : KeyOf document key) (claimed : Claimed store document key job after)
      (answers : ∀ payload replayed, answer = .completed payload replayed →
        payload = .obj [("job_id", .str job.jobId), ("status", .str job.status.asStr)])

variable (m store) in
theorem work_dispatched {scope : Scope} (op : String) (call : ToolCall) (course : Course)
    (parsed : Scope.parse call.context.authorizedResources = some scope) :
    Dispatched m store op call (work m store scope op call course).1 (work m store scope op call course).2 := by
  have gate (refusal : Envelope) (no : checkScope store scope op call.arguments = .error refusal) :
      ∀ payload replayed, refusal ≠ .completed payload replayed := by
    have refuses : Refuses (checkScope store scope op call.arguments) := admit_refuses op call.arguments
    rw [no] at refuses
    obtain ⟨code, retryable, rfl⟩ := refuses
    exact fun payload replayed same => by cases same
  unfold work
  cases passed : checkScope store scope op call.arguments with
  | error refusal => exact .nothing rfl fun _ => gate refusal passed
  | ok _ =>
    dsimp only
    by_cases extracts : op = "extract"
    · rw [if_pos extracts]
      rcases extractOp_cases m store ⟨call.context.runId, call.context.toolCallId⟩
        ⟨op, call.context.authorizationRef⟩ course.draw call.arguments with
        ⟨same, unanswered⟩ | ⟨document, key, job, started, after, names, of_, claimed, made⟩
      · exact .nothing same fun _ => unanswered
      rw [made]
      obtain ⟨kind, touches, passed⟩ := admitted passed
      rw [extracts] at touches
      obtain rfl : Resource.document = kind := Option.some.inj touches
      cases passed with
      | document given inside =>
        rw [required_named given, Except.ok.injEq] at names
        subst names
        refine .claims extracts parsed (inside of_.1) of_ claimed fun payload replayed same => ?_
        cases same
        rfl
    · rw [if_neg extracts]
      split
      · exact .nothing rfl fun same => absurd same extracts
      · exact .nothing rfl fun same => absurd same extracts

theorem dispatch_dispatched (op : String) (call : ToolCall) (course : Course) :
    Dispatched m store op call (dispatch m store op call course).1 (dispatch m store op call course).2 := by
  have refusal (code : String) (retryable : Bool) (payload : Json) (replayed : Bool) :
      Envelope.error code retryable ≠ .completed payload replayed := fun same => by cases same
  unfold dispatch
  split
  · exact .nothing rfl fun _ => refusal _ _
  split
  · exact .nothing rfl fun _ => refusal _ _
  split
  · exact .nothing rfl fun _ => refusal _ _
  rename_i scope parsed
  have worked := work_dispatched m store op call course parsed
  generalize work m store scope op call course = outcome at worked ⊢
  obtain ⟨envelope, after⟩ := outcome
  dsimp only at worked ⊢
  have unanswered {answer : Envelope} (no : ∀ payload replayed, answer ≠ .completed payload replayed) {after' : Store}
      (left : after' = after ∨ after' = store) : Dispatched m store op call answer after' := by
    rcases left with rfl | rfl
    · cases worked with
      | nothing same _ => exact .nothing same fun _ => no
      | claims extracts parsed inside of_ claimed _ =>
        exact .claims extracts parsed inside of_ claimed fun payload replayed same => absurd same
            (no payload replayed)
    · exact .nothing rfl fun _ => no
  have left : (if (course.late && !course.claimsLate) = true then store else after) = after ∨
      (if (course.late && !course.claimsLate) = true then store else after) = store := by
    split
    · exact .inr rfl
    · exact .inl rfl
  split
  · exact unanswered (refusal _ _) left
  cases late : course.late with
  | true =>
    rw [late] at left
    exact unanswered (refusal _ _) left
  | false => exact worked

theorem Reachable.keyed (reached : Reachable m store) : Keyed store := by
  induction reached with
  | start unclaimed => exact fun k listed kind => absurd kind (unclaimed k listed)
  | tool _ op call course ih =>
    rcases dispatch_dispatched (m := m) op call course with same | ⟨-, -, -, of_, claimed, -⟩
    · rw [same]
      exact ih
    · exact claimed.keyed ih of_
  | page _ request draw ih =>
    unfold pageExtract
    split
    · rename_i prepared checked
      obtain ⟨same, of_⟩ := prepare_keyOf checked
      rcases claim_cases m _ prepared .page none draw with ⟨e, failed⟩ | ⟨job, started, after, made, claimed⟩
      · rw [failed]
        exact ih
      · rw [made]
        exact claimed.keyed ih (same ▸ of_)
    · exact ih
  | rest _ quiet ih =>
    intro k listed kind
    obtain ⟨document, job, of_, found, isExtract, owner⟩ := ih k ((quiet.keys k kind).mp listed) kind
    obtain ⟨job', found', isExtract', owner'⟩ := quiet.jobs _ job found isExtract
    exact ⟨document, job', of_, found', isExtract', owner'.trans owner⟩

end

end Agent24.Documents
