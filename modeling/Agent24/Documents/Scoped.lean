import Agent24.Documents.Keys

/-! The documents tools stay within their scope: reads, extract jobs, and lists followed page by page. -/

set_option autoImplicit false
namespace Agent24.Documents
open Library List

def listArguments (cursor : Option String) (limit : Option Int) : Arguments :=
  (cursor.map fun c => ("cursor", Json.str c)).toList ++ (limit.map fun l => ("limit", Json.int l)).toList

/-- A call of `list` under a resource list that answers a page. -/
structure Shows (m : Module) (resources : Option Json) (store : Store) (cursor : Option String) (limit : Option Int)
    (page : DocumentList) : Prop where
  answered : ∃ call course, call.context.authorizedResources = resources ∧
      call.arguments = listArguments cursor limit ∧
    (dispatch m store "list" call course).1 = .completed page.json false

/-- The scope's documents stay, with their ids and creation times. -/
def Grown (ids : List String) (store store' : Store) : Prop :=
  ∀ d ∈ store.documents.rows, d.id ∈ ids →
    ∃ d' ∈ store'.documents.rows, d'.id = d.id ∧ d'.createdAt = d.createdAt

inductive Followed (m : Module) (resources : Option Json) (ids : List String) :
    Option String → Store → List (Option Int × DocumentList) → Prop
  | last {cursor store limit page} (shows_ : Shows m resources store cursor limit page)
      (ends : page.nextCursor = none) : Followed m resources ids cursor store [(limit, page)]
  | more {cursor store store' limit page c pages} (shows_ : Shows m resources store cursor limit page)
      (next : page.nextCursor = some c) (grown : Grown ids store store')
      (rest : Followed m resources ids (some c) store' pages) :
      Followed m resources ids cursor store ((limit, page) :: pages)

def listed (pages : List (Option Int × DocumentList)) : List DocumentRow := pages.flatMap fun p => p.2.documents

theorem documentJson_injective : Function.Injective documentJson := by
  intro a b same
  obtain ⟨id', title', mediaType', headRevision', createdAt', updatedAt'⟩ := b
  obtain ⟨rfl, rfl, rfl, rfl, rfl, rfl⟩ := same
  rfl

theorem DocumentList.json_injective {page page' : DocumentList} (same : page.json = page'.json) : page = page' := by
  obtain ⟨documents, next⟩ := page
  obtain ⟨documents', next'⟩ := page'
  simp only [json, Json.obj.injEq, List.cons.injEq, Prod.mk.injEq, Json.arr.injEq, true_and, and_true] at same
  obtain ⟨rows, cursor⟩ := same
  have rows := map_injective_iff.mpr documentJson_injective rows
  have cursor : next = next' := by
    cases next <;> cases next' <;> simp_all
  rw [rows, cursor]

section
variable {m : Module} {resources : Option Json} {scope : Scope} {store : Store} {cursor : Option String}
  {limit : Option Int} {page : DocumentList}

theorem completed_ok {answer : Except ApiError Json} {payload : Json} {replayed : Bool}
    (ok : completed answer = .ok (.completed payload replayed)) : answer = .ok payload := by
  unfold completed at ok
  split at ok
  · cases ok
  split at ok
  · cases ok
  · cases ok
    rfl

theorem dispatch_completed {op : String} {call : ToolCall} {course : Course} {payload : Json} {replayed : Bool}
    (ok : (dispatch m store op call course).1 = .completed payload replayed) :
    ∃ scope, Scope.parse call.context.authorizedResources = some scope ∧
      (work m store scope op call course).1 = .completed payload replayed := by
  unfold dispatch at ok
  split at ok
  · cases ok
  split at ok
  · cases ok
  split at ok
  · cases ok
  rename_i scope parsed
  refine ⟨scope, parsed, ?_⟩
  generalize work m store scope op call course = outcome at ok ⊢
  dsimp only at ok ⊢
  split at ok
  · cases ok
  dsimp only at ok
  split at ok
  · cases ok
  · exact ok

/-- A call of `list` is its operation alone. -/
theorem work_list (call : ToolCall) (course : Course) :
    (work m store scope "list" call course).1 = match listOp store scope call.arguments with
      | .ok envelope => envelope
      | .error refusal => refusal := by
  have gate : checkScope store scope "list" call.arguments = .ok () := rfl
  have other : ¬ ("list" : String) = "extract" := by decide
  unfold work
  rw [gate]
  show (match listOp store scope call.arguments with
    | .ok envelope => (envelope, store)
    | .error refusal => (refusal, store)).1 = _
  cases listOp store scope call.arguments <;> rfl

theorem listOp_refuses (arguments : Arguments) : Refuses (listOp store scope arguments) := by
  have unknown : Refuses (known arguments ["cursor", "limit"]) := by
    unfold known
    split
    · exact trivial
    · exact ⟨_, _, rfl⟩
  have mistyped {α : Type} (read : Json → Option α) (key : String) : Refuses (present arguments read key) := by
    unfold present
    cases argument arguments key with
    | none => exact trivial
    | some value =>
      dsimp only
      cases read value with
      | none => exact ⟨_, _, rfl⟩
      | some a => exact trivial
  have outside (limit : Option Int) : Refuses (bounded limit) := by
    unfold bounded
    split
    · exact ⟨_, _, rfl⟩
    · exact trivial
  have large (answer : Except ApiError Json) : Refuses (completed answer) := by
    unfold completed
    split
    · exact ⟨_, _, rfl⟩
    split
    · exact ⟨_, _, rfl⟩
    · exact trivial
  exact Ensures.bind unknown fun _ _ => Ensures.bind (mistyped _ _) fun _ _ => Ensures.bind (mistyped _ _) fun _ _ =>
    Ensures.bind (outside _) fun _ _ => large _

theorem present_cursor {cursor' : Option String}
    (ok : present (listArguments cursor limit) Json.asStr? "cursor" = .ok cursor') : cursor' = cursor := by
  cases cursor with
  | none =>
    cases limit with
    | none =>
      cases ok
      rfl
    | some l =>
      cases ok
      rfl
  | some c =>
    cases ok
    rfl

theorem present_limit {limit' : Option Int}
    (ok : present (listArguments cursor limit) asInteger? "limit" = .ok limit') : limit' = limit := by
  have found : argument (listArguments cursor limit) "limit" = limit.map Json.int := by
    cases cursor <;> cases limit <;> rfl
  unfold present at ok
  rw [found] at ok
  cases limit with
  | none =>
    cases ok
    rfl
  | some l =>
    simp only [Option.map_some, asInteger?] at ok
    split at ok
    · cases ok
      rfl
    · cases ok

theorem Shows.given (parsed : Scope.parse resources = some scope)
    (shows_ : Shows m resources store cursor limit page) :
    ∃ after, Given store scope.documents cursor (limit.getD DEFAULT_LIMIT) PAYLOAD_BYTES page after := by
  obtain ⟨call, course, rfl, arguments, ok⟩ := shows_.answered
  obtain ⟨scope', parsed', ok⟩ := dispatch_completed ok
  rw [parsed, Option.some.injEq] at parsed'
  subst parsed'
  rw [work_list] at ok
  have refuses : Refuses (listOp store scope call.arguments) := listOp_refuses call.arguments
  cases answered : listOp store scope call.arguments with
  | error refusal =>
    rw [answered] at ok refuses
    obtain ⟨code, retryable, rfl⟩ := refuses
    cases ok
  | ok envelope =>
    rw [answered] at ok
    subst ok
    rw [listOp, arguments] at answered
    obtain ⟨-, -, known_⟩ := bind_eq_ok.mp answered
    obtain ⟨cursor', read, after⟩ := bind_eq_ok.mp known_
    obtain ⟨limit', read', after'⟩ := bind_eq_ok.mp after
    obtain ⟨limit'', inRange, ends⟩ := bind_eq_ok.mp after'
    obtain rfl := present_cursor read
    obtain rfl := present_limit read'
    have kept : limit'' = limit' := by
      unfold bounded at inRange
      split at inRange
      · cases inRange
      · cases inRange
        rfl
    subst kept
    have listed_ := completed_ok ends
    cases rows : listDocuments store (some scope.documents) cursor' (limit''.getD DEFAULT_LIMIT) PAYLOAD_BYTES with
    | error e =>
      rw [rows] at listed_
      cases listed_
    | ok page' =>
      rw [rows] at listed_
      have same : page'.json = page.json := Except.ok.inj listed_
      rw [← DocumentList.json_injective same]
      exact listDocuments_given (by rw [envelopeBytes_eq]; decide) rows

end

section
variable {m : Module} {resources : Option Json} {scope : Scope} {store : Store} {cursor : Option String}
  {pages : List (Option Int × DocumentList)} (parsed : Scope.parse resources = some scope)
include parsed

theorem Followed.walk (followed : Followed m resources scope.documents cursor store pages) :
    ∃ after, cursor.map decodeCursor = after.map some ∧
      Keyset.Walk listKey after (inScope store scope.documents) (listed pages) := by
  induction followed with
  | last shows_ ends =>
    obtain ⟨after, given⟩ := shows_.given parsed
    have paged := given.paged
    rw [ends] at paged
    exact ⟨after, given.read, by simpa [listed] using Keyset.Walk.last paged⟩
  | more shows_ next grown rest ih =>
    obtain ⟨after, given⟩ := shows_.given parsed
    obtain ⟨after', read, walk⟩ := ih
    have paged := given.paged
    rw [next, Option.bind_some] at paged
    obtain ⟨key, decodes⟩ := Option.isSome_iff_exists.mp (given.cursors _ next)
    rw [Option.map_some, decodes] at read
    obtain rfl : after' = some key := by
      cases after' with
      | none => cases read
      | some other => exact congrArg some (Option.some.inj (Option.some.inj read)).symm
    rw [decodes] at paged
    refine ⟨after, given.read, ?_⟩
    refine Keyset.Walk.more paged (fun d member => ?_) walk
    obtain ⟨held, inside⟩ := mem_filter.mp member
    obtain ⟨d', held', id, created⟩ := grown d held (contains_iff_mem.mp inside)
    refine mem_map.mpr ⟨d', mem_filter.mpr ⟨held', by rw [id]; exact inside⟩, ?_⟩
    rw [listKey, listKey, id, created]

theorem Followed.placed (followed : Followed m resources scope.documents cursor store pages) :
    ∀ row ∈ listed pages, ∀ d ∈ store.documents.rows, d.id ∈ scope.documents → row.id = d.id →
      listKey row = listKey d := by
  have held {store : Store} {cursor : Option String} {limit : Option Int} {page : DocumentList}
      (shows_ : Shows m resources store cursor limit page) : ∀ row ∈ page.documents, ∀ d ∈ store.documents.rows,
        row.id = d.id → listKey row = listKey d := by
    intro row member d listed_ same
    obtain ⟨after, given⟩ := shows_.given parsed
    have here := (mem_filter.mp (Keyset.mem_after.mp (given.paged.front.subset member)).1).1
    rw [inj_on_of_nodup_map store.documents.distinct here listed_ same]
  induction followed with
  | last shows_ ends =>
    intro row member d listed_ inside same
    exact held shows_ row (by simpa [listed] using member) d listed_ same
  | more shows_ next grown rest ih =>
    intro row member d listed_ inside same
    rw [listed, flatMap_cons, mem_append] at member
    rcases member with here | later
    · exact held shows_ row here d listed_ same
    obtain ⟨d', listed', id, created⟩ := grown d listed_ inside
    have placed := ih row later d' listed' (id ▸ inside) (same.trans id.symm)
    rw [placed, listKey, listKey, id, created]

theorem Followed.each (followed : Followed m resources scope.documents cursor store pages) :
    ∀ p ∈ pages, (∀ d ∈ p.2.documents, d.id ∈ scope.documents) ∧
      (p.2.documents.length : Int) ≤ p.1.getD DEFAULT_LIMIT ∧ p.2.json.size ≤ PAYLOAD_BYTES := by
  have one {store : Store} {cursor : Option String} {limit : Option Int} {page : DocumentList}
      (shows_ : Shows m resources store cursor limit page) : (∀ d ∈ page.documents, d.id ∈ scope.documents) ∧
        (page.documents.length : Int) ≤ limit.getD DEFAULT_LIMIT ∧ page.json.size ≤ PAYLOAD_BYTES := by
    obtain ⟨after, given⟩ := shows_.given parsed
    refine ⟨fun d shown => ?_, given.short, given.fits⟩
    exact contains_iff_mem.mp (mem_filter.mp (Keyset.mem_after.mp (given.paged.front.subset shown)).1).2
  induction followed with
  | last shows_ ends =>
    intro p page
    rw [mem_singleton.mp page]
    exact one shows_
  | more shows_ next grown rest ih =>
    intro p page
    rcases mem_cons.mp page with rfl | later
    · exact one shows_
    · exact ih p later

theorem Followed.nodup (followed : Followed m resources scope.documents cursor store pages) :
    ((listed pages).map DocumentRow.id).Nodup := by
  have once {store : Store} {cursor : Option String} {limit : Option Int} {page : DocumentList}
      (shows_ : Shows m resources store cursor limit page) : (page.documents.map DocumentRow.id).Nodup := by
    obtain ⟨after, given⟩ := shows_.given parsed
    have rows : ((Keyset.after listKey after (inScope store scope.documents)).map DocumentRow.id).Nodup := by
      refine ((Keyset.descending_perm _).map DocumentRow.id).nodup_iff.mpr ?_
      exact store.documents.distinct.sublist ((filter_sublist.trans filter_sublist).map DocumentRow.id)
    exact rows.sublist (given.paged.front.sublist.map DocumentRow.id)
  induction followed with
  | last shows_ ends => simpa [listed] using once shows_
  | more shows_ next grown rest ih =>
    rw [listed, flatMap_cons, map_append, nodup_append]
    refine ⟨once shows_, ih, fun id inPage id' inRest same => ?_⟩
    obtain ⟨p, here, rfl⟩ := mem_map.mp inPage
    obtain ⟨r, later, rfl⟩ := mem_map.mp inRest
    obtain ⟨after, given⟩ := shows_.given parsed
    obtain ⟨after', read, walk⟩ := rest.walk parsed
    obtain ⟨key, decodes⟩ := Option.isSome_iff_exists.mp (given.cursors _ next)
    have paged := given.paged
    rw [next, Option.bind_some, decodes] at paged
    obtain rfl : after' = some key := by
      rw [Option.map_some, decodes] at read
      cases after' with
      | none => cases read
      | some other => exact congrArg some (Option.some.inj (Option.some.inj read)).symm
    -- the page's documents are above its cursor, the rest below it
    have above := paged.cut.1 p here
    have below := walk.complete.2.1 r later key rfl
    obtain ⟨held, inside⟩ := mem_filter.mp (Keyset.mem_after.mp (paged.front.subset here)).1
    have inside := contains_iff_mem.mp inside
    obtain ⟨p', held', id, created⟩ := grown p held inside
    have placed := rest.placed parsed r later p' held' (id ▸ inside) (same.symm.trans id.symm)
    rw [placed, listKey, id, created] at below
    exact absurd below above.not_gt

end

/-- Over rows as the module writes them, a list is answered: from the start, or from any cursor that is read. -/
theorem list_answers {m : Module} {resources : Option Json} {scope : Scope} {store : Store} {cursor : Option String}
    {limit : Option Int} (parsed : Scope.parse resources = some scope) (good : ∀ c ∈ cursor, (decodeCursor c).isSome)
    (range : ∀ l ∈ limit, 1 ≤ l ∧ l ≤ MAX_LIMIT) (written : ∀ d ∈ inScope store scope.documents, d.written) :
    ∃ page, Shows m resources store cursor limit page := by
  have within : 1 ≤ limit.getD DEFAULT_LIMIT ∧ limit.getD DEFAULT_LIMIT ≤ MAX_LIMIT := by
    cases limit with
    | none => decide
    | some l => exact range l rfl
  have large : 5000 ≤ PAYLOAD_BYTES := by decide
  obtain ⟨page, rows⟩ := listDocuments_answers within large good written
  obtain ⟨after, given⟩ := listDocuments_given (by rw [envelopeBytes_eq]; decide) rows
  let call : ToolCall := ⟨⟨"", "", "list", resources, none⟩, listArguments cursor limit⟩
  let course : Course := ⟨false, false, false, false, ⟨none, ""⟩⟩
  have read : present (listArguments cursor limit) Json.asStr? "cursor" = .ok cursor := by
    cases cursor <;> cases limit <;> rfl
  have read' : present (listArguments cursor limit) asInteger? "limit" = .ok limit := by
    have found : argument (listArguments cursor limit) "limit" = limit.map Json.int := by
      cases cursor <;> cases limit <;> rfl
    unfold present
    rw [found]
    cases limit with
    | none => rfl
    | some l =>
      have inRange := range l rfl
      have column : -(2 ^ 63) ≤ l ∧ l < 2 ^ 63 := by
        rw [MAX_LIMIT] at inRange
        omega
      simp only [Option.map_some, asInteger?, if_pos column]
      rfl
  have named : known (listArguments cursor limit) ["cursor", "limit"] = .ok () := by
    cases cursor <;> cases limit <;> rfl
  have inRange : bounded limit = .ok limit := by
    unfold bounded
    cases limit with
    | none => rfl
    | some l => rw [if_neg (by simpa using range l rfl)]
  have answered : listOp store scope (listArguments cursor limit) = .ok (.completed page.json false) := by
    unfold listOp
    simp only [named, read, read', inRange, ok_bind, rows]
    show completed (.ok page.json) = _
    rw [completed, if_neg (Nat.not_lt.mpr given.fits)]
  refine ⟨page, ⟨call, course, rfl, rfl, ?_⟩⟩
  have worked : (work m store scope "list" call course).1 = .completed page.json false := by
    rw [work_list, answered]
  unfold dispatch
  have here : Scope.parse call.context.authorizedResources = some scope := parsed
  simp only [here]
  exact worked

/-- A call names a well-formed id of nothing in the scope: another document, or a job or an extraction that is not
there or belongs to another. -/
def Outside (scope : Scope) (store : Store) (op : String) (arguments : Arguments) : Prop :=
  match resource op with
  | some .document => ∃ id, argument arguments "document_id" = some (.str id) ∧ isId .document id = true ∧
      id ∉ scope.documents
  | some .job => ∃ id, argument arguments "job_id" = some (.str id) ∧ isId .job id = true ∧
      ∀ document ∈ jobDocument store id, document ∉ scope.documents
  | some .extraction => ∃ id, argument arguments "extraction_id" = some (.str id) ∧ isId .extraction id = true ∧
      ∀ document ∈ extractionDocument store id, document ∉ scope.documents
  | _ => False

/-- What a call answers for an outcome, by what happens around it. -/
def Course.leaves (course : Course) (outcome : Envelope) : Envelope :=
  if course.endedMeanwhile then permissionDenied else if course.late then .error "internal" true else outcome

structure Listed (scope : Scope) (store : Store) (pages : List (Option Int × DocumentList)) : Prop where
  ordered : (listed pages).Pairwise fun a b => listKey b < listKey a
  /-- Each document there was at the first page is shown once. -/
  once : ∀ d ∈ store.documents.rows, d.id ∈ scope.documents → ((listed pages).map DocumentRow.id).count d.id = 1
  inside : ∀ d ∈ listed pages, d.id ∈ scope.documents
  limits : ∀ p ∈ pages, (p.2.documents.length : Int) ≤ p.1.getD DEFAULT_LIMIT ∧ p.2.json.size ≤ PAYLOAD_BYTES

section
variable {m : Module} {store : Store} {op : String} {call : ToolCall} {course : Course}

theorem admit_outside {scope : Scope} {arguments : Arguments} (outside : Outside scope store op arguments) :
    ∃ absent, checkScope store scope op arguments = .error (refused (.notFound absent)) := by
  have named_ {key id : String} (given : argument arguments key = some (.str id)) :
      named arguments key = .ok id := by
    rw [named, given]
  have shut {owner : Option String} (none_ : ∀ document ∈ owner, document ∉ scope.documents) :
      ¬ owner.any scope.allowsDocument = true := by
    intro owned
    obtain ⟨document, owner, allowed⟩ := (Option.any_eq_true _ _).mp owned
    exact none_ document owner (Scope.allows_iff.mp allowed)
  unfold Outside at outside
  unfold checkScope
  cases touches : resource op with
  | none =>
    rw [touches] at outside
    exact outside.elim
  | some kind =>
    rw [touches] at outside
    cases kind with
    | document =>
      obtain ⟨id, given, minted, out⟩ := outside
      refine ⟨"no such document", ?_⟩
      simp only [named_ given, ok_bind, minted]
      exact if_neg (shut fun document same => by cases same; exact out)
    | job =>
      obtain ⟨id, given, minted, out⟩ := outside
      refine ⟨"no such job", ?_⟩
      simp only [named_ given, ok_bind, minted]
      exact if_neg (shut out)
    | extraction =>
      obtain ⟨id, given, minted, out⟩ := outside
      refine ⟨"no such extraction", ?_⟩
      simp only [named_ given, ok_bind, minted]
      exact if_neg (shut out)
    | listing => exact outside.elim

theorem dispatch_worked {scope : Scope} (named : op = call.context.operation) (stands : course.endedBefore = false)
    (parsed : Scope.parse call.context.authorizedResources = some scope) :
    (dispatch m store op call course).1 = course.leaves (work m store scope op call course).1 := by
  unfold dispatch
  rw [if_neg (not_not.mpr named), if_neg (by simp [stands]), parsed]
  dsimp only
  rw [Course.leaves]
  split
  · rfl
  · rfl

end

structure Confinement (m : Module) : Prop where
  /-- Two stores that agree on the scope's rows answer every read alike, and no read writes. -/
  reads : ∀ store store' op call course, op ≠ "extract" →
    (∀ scope, Scope.parse call.context.authorizedResources = some scope →
      Agree m scope store store' ∧ NoBuild m scope store) →
    (dispatch m store op call course).1 = (dispatch m store' op call course).1 ∧
      (dispatch m store op call course).2 = store
  /-- What is outside the scope is answered as absent, whatever is stored of it. -/
  outside : ∀ store op call course scope, op = call.context.operation → course.endedBefore = false →
    Scope.parse call.context.authorizedResources = some scope → Outside scope store op call.arguments →
    (dispatch m store op call course).1 = course.leaves (.error "not_found" false) ∧
      (dispatch m store op call course).2 = store
  malformed : ∀ store op call course, Scope.parse call.context.authorizedResources = none →
    dispatch m store op call course =
      (if op ≠ call.context.operation then invalidInput else permissionDenied, store)
  /-- An operation without a row in the resource table never runs. -/
  unlisted : ∀ store op call course, resource op = none →
    (dispatch m store op call course).2 = store ∧
      ∀ payload replayed, (dispatch m store op call course).1 ≠ .completed payload replayed
  /-- An extract call makes, replays or queues again only a job of a document in its scope. -/
  extracts : ∀ store, Reachable m store → ∀ op call course,
    (dispatch m store op call course).2 = store ∧
        (op = "extract" → ∀ payload replayed, (dispatch m store op call course).1 ≠ .completed payload replayed) ∨
      ∃ scope document, ∃ job : Job, Scope.parse call.context.authorizedResources = some scope ∧
        document ∈ scope.documents ∧ Confined store (dispatch m store op call course).2 document job.jobId ∧
        ∀ payload replayed, (dispatch m store op call course).1 = .completed payload replayed →
          payload = .obj [("job_id", .str job.jobId), ("status", .str job.status.asStr)]
  /-- A list followed to its end shows every document of the scope once, newest first. -/
  pages : ∀ resources scope store pages, Scope.parse resources = some scope →
    Followed m resources scope.documents none store pages → Listed scope store pages
  /-- A list is answered from the start and from every cursor it gave, over rows as the module writes them. -/
  answered : ∀ resources scope store cursor limit, Scope.parse resources = some scope →
    (cursor = none ∨ ∃ store₀ cursor₀ limit₀ page, Shows m resources store₀ cursor₀ limit₀ page ∧
      page.nextCursor = cursor) →
    (∀ l ∈ limit, 1 ≤ l ∧ l ≤ MAX_LIMIT) → (∀ d ∈ inScope store scope.documents, d.written) →
    ∃ page, Shows m resources store cursor limit page

section
variable {m : Module} {store store' : Store} {op : String} {call : ToolCall} {course : Course}

theorem work_reads {scope : Scope} (agree : Agree m scope store store') (noBuild : NoBuild m scope store)
    (other : op ≠ "extract") :
    (work m store scope op call course).1 = (work m store' scope op call course).1 := by
  unfold work
  rw [← agree.checkScope]
  cases passed : checkScope store scope op call.arguments with
  | error refusal => rfl
  | ok _ =>
    rw [if_neg other, if_neg other, agree.readOp noBuild passed]
    cases readOp m store' scope op call.arguments <;> rfl

theorem dispatch_reads (other : op ≠ "extract")
    (same : ∀ scope, Scope.parse call.context.authorizedResources = some scope →
      Agree m scope store store' ∧ NoBuild m scope store) :
    (dispatch m store op call course).1 = (dispatch m store' op call course).1 := by
  by_cases named : op = call.context.operation
  · cases stands : course.endedBefore with
    | true => simp [dispatch, named, stands]
    | false =>
      cases parsed : Scope.parse call.context.authorizedResources with
      | none => simp [dispatch, named, stands, parsed]
      | some scope =>
        obtain ⟨agree, noBuild⟩ := same scope parsed
        rw [dispatch_worked named stands parsed, dispatch_worked named stands parsed,
          work_reads agree noBuild other]
  · simp [dispatch, named]

theorem dispatch_unwritten (other : op ≠ "extract") : (dispatch m store op call course).2 = store := by
  rcases dispatch_dispatched (m := m) op call course with same | extracts
  · exact same
  · exact absurd extracts other

theorem dispatch_outside {scope : Scope} (named : op = call.context.operation) (stands : course.endedBefore = false)
    (parsed : Scope.parse call.context.authorizedResources = some scope)
    (outside : Outside scope store op call.arguments) :
    (dispatch m store op call course).1 = course.leaves (.error "not_found" false) ∧
      (dispatch m store op call course).2 = store := by
  obtain ⟨absent, shut⟩ := admit_outside outside
  have worked : work m store scope op call course = (.error "not_found" false, store) := by
    unfold work
    rw [shut]
    rfl
  refine ⟨by rw [dispatch_worked named stands parsed, worked], ?_⟩
  unfold dispatch
  rw [if_neg (not_not.mpr named), if_neg (by simp [stands]), parsed]
  dsimp only
  rw [worked]
  rw [ite_self]
  split <;> rfl

theorem dispatch_unlisted (unlisted : resource op = none) :
    (dispatch m store op call course).2 = store ∧
      ∀ payload replayed, (dispatch m store op call course).1 ≠ .completed payload replayed := by
  have other : op ≠ "extract" := by
    rintro rfl
    cases unlisted
  refine ⟨dispatch_unwritten other, fun payload replayed same => ?_⟩
  obtain ⟨scope, -, worked⟩ := dispatch_completed same
  have shut : checkScope store scope op call.arguments = .error operationUnavailable := by
    unfold checkScope
    rw [unlisted]
  unfold work at worked
  rw [shut] at worked
  cases worked

end

theorem followed_listed {m : Module} {resources : Option Json} {scope : Scope} {store : Store}
    {pages : List (Option Int × DocumentList)} (parsed : Scope.parse resources = some scope)
    (followed : Followed m resources scope.documents none store pages) : Listed scope store pages := by
  obtain ⟨after, read, walk⟩ := followed.walk parsed
  obtain rfl : after = none := by
    cases after with
    | none => rfl
    | some key => cases read
  obtain ⟨ordered, -, whole⟩ := walk.complete
  refine ⟨ordered, fun d held inside => ?_, ?_, ?_⟩
  · obtain ⟨row, shown, same⟩ := mem_map.mp
      (whole d (mem_filter.mpr ⟨held, contains_iff_mem.mpr inside⟩) fun _ none_ => by cases none_)
    have id : row.id = d.id := congrArg (fun key => (ofLex key).2) same
    exact count_eq_one_of_mem (followed.nodup parsed) (id ▸ mem_map_of_mem shown)
  · intro d shown
    obtain ⟨p, page, shown⟩ := mem_flatMap.mp shown
    exact (followed.each parsed p page).1 d shown
  · exact fun p page => (followed.each parsed p page).2

end Agent24.Documents
