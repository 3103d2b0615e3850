import Agent24.Agent.Thread
import Agent24.Library.Folding
import Agent24.Memory.Effects

/-! Append-only sessions: turns, the import of a legacy session, summaries, and the view of them. -/

set_option autoImplicit false
namespace Agent24.Memory
open Library List
open Agent24.Agent (Msg)

inductive SessionError where
  | memory (error : MemoryError)
  | serde
  | io (message : String)
  | importIncomplete (cause : SessionError)
  deriving DecidableEq, Repr

/-- The fields `Scope` writes, absent ones left out. -/
def Scope.toJson (scope : Scope) : Json :=
  .obj ([("owner", .str scope.owner)] ++ scope.agent.toList.map (fun agent => ("agent", .str agent)) ++
    scope.session.toList.map (fun session => ("session", .str session)) ++
    scope.run.toList.map fun run => ("run", .str run))

def Scope.withSession (session : String) (scope : Scope) : Scope := { scope with session := some session }

structure SessionView where
  summary : Option String
  coveredThroughSeq : Int
  tail : List (Int × Msg)

structure CanonicalSession where
  sessionId : String
  summary : Option String
  recent : List Msg

inductive ImportOutcome where
  | imported (events : Nat)
  | alreadyImported
  | nothingToImport
  deriving DecidableEq, Repr

structure TurnIds where
  user : String
  assistant : String
  deriving DecidableEq, Repr

def summaryBody (summary : String) (coveredThroughSeq : Int) : Json :=
  .obj [("covered_through_seq", .int coveredThroughSeq), ("summary", .str summary)]

def importTrust (role : String) : Trust :=
  if role = "user" then .userSaid
  else if role = "assistant" then .model
  else if role = "tool" then .toolOutput
  else .system

def CanonicalSession.pending (legacy : CanonicalSession) : List (String × Json × Trust) :=
  legacy.summary.toList.map (fun summary => ("session.summary", summaryBody summary 0, .system)) ++
    legacy.recent.map (fun msg => ("message", msg.toJson, importTrust msg.role)) ++
    [("session.imported", .obj [("from", .str "kv"), ("had_summary", .bool legacy.summary.isSome),
      ("messages", .int legacy.recent.length)], .system)]

/-- An `i64` and an optional text, from an object or the list of their values. -/
def SessionView.ofJson (body : Json) : Option SessionView := do
  let (summary, covered) ← match body with
    | .obj fields => some ((Json.obj fields).get? "summary", (Json.obj fields).get? "covered_through_seq")
    | .arr [summary, covered] => some (some summary, some covered)
    | _ => none
  match covered with
  | some (.int covered) => pure ⟨← Msg.textOfJson summary, covered, []⟩
  | _ => none

/-- `WHERE scope_owner=? AND scope_session=?`. -/
def inSession (owner session : String) (row : EventRow) : Bool :=
  row.scopeOwner == owner && row.scopeSession == some session

/-- The rows of one kind in a session, `ORDER BY seq`. -/
def kindRows (owner session kind : String) (log : EventTables) : List EventRow :=
  (log.events.filter fun row => inSession owner session row && row.kind == kind).insertionSort
    fun a b => a.seq ≤ b.seq

section
variable (P : Platform)

def writeAll (log : EventTables) : List MemEvent → Except MemoryError EventTables
  | [] => .ok log
  | e :: rest => do writeAll (← appendTx P e log) rest

def EventRow.message (row : EventRow) : Option Msg := (row.payload.value P).bind Msg.ofJson

def turnId (owner session : String) (turnNo : Nat) (part : String) : String :=
  P.checksum (Json.arr [.str owner, .str session, .int turnNo, .str part]).render

/-- `row_origin`: an unknown trust text does not read. -/
def EventRow.origin (row : EventRow) : Option Origin :=
  if (Trust.parse row.originTrust).asStr = row.originTrust then
    some ⟨row.originSource, Trust.parse row.originTrust⟩
  else none

def checkStored (scope : Scope) (stored : List EventRow) (key : String) (message : Msg) (origin : Origin) :
    Except SessionError Unit :=
  match stored.find? fun row => row.id == key with
  | none => .error (.memory (.conflict ("session event " ++ key ++ " is missing")))
  | some row =>
    match row.payload.value P, row.origin with
    | some body, some stored =>
      if row.kind != "message" || row.scope != scope || body != message.toJson || stored != origin then
        .error (.memory (.conflict ("session event " ++ key ++ " differs")))
      else .ok ()
    | _, _ => .error .serde

/-- `SessionLog::append_turn`; the clock is read once for each event. -/
def appendTurn (disk : Option DiskSample) (clock : Nat → String) (owner session : String) (turnNo : Nat)
    (user : Msg) (userOrigin : Origin) (assistant : Msg) (assistantOrigin : Origin) (log : EventTables) :
    Except SessionError (TurnIds × EventTables) :=
  if diskRefuses .content disk then .error (.memory .diskLow)
  else
    let scope := (Scope.ofOwner owner).withSession session
    let ids : TurnIds := ⟨turnId P owner session turnNo "user", turnId P owner session turnNo "assistant"⟩
    let stored := log.events.filter fun row => row.id == ids.user || row.id == ids.assistant
    match stored.length with
    | 0 =>
      match writeAll P log
          [.new (clock 0) ids.user scope "message" user.toJson userOrigin,
            .new (clock 1) ids.assistant scope "message" assistant.toJson assistantOrigin] with
      | .ok log' => .ok (ids, log')
      | .error error => .error (.memory error)
    | 2 => do
      checkStored P scope stored ids.user user userOrigin
      checkStored P scope stored ids.assistant assistant assistantOrigin
      pure (ids, log)
    | _ => .error (.memory (.conflict
        ("session turn " ++ toString turnNo ++ " has an incomplete or unexpected event pair")))

def importEvents (clock : Nat → String) (scope : Scope) (pending : List (String × Json × Trust)) :
    List MemEvent :=
  pending.zipIdx.map fun ((kind, body, trust), index) =>
    .new (clock index) (P.checksum (Json.arr [.str "import", scope.toJson, .int index]).render) scope kind
      body ⟨"migration", trust⟩

def importLegacy (disk : Option DiskSample) (clock : Nat → String) (owner : String)
    (legacy : CanonicalSession) (log : EventTables) : Except MemoryError (ImportOutcome × EventTables) :=
  if diskRefuses .content disk then .error .diskLow
  else if log.events.any (inSession owner legacy.sessionId) then .ok (.alreadyImported, log)
  else if legacy.summary.isNone && legacy.recent.isEmpty then .ok (.nothingToImport, log)
  else do
    let scope := (Scope.ofOwner owner).withSession legacy.sessionId
    let log' ← writeAll P log (importEvents P clock scope legacy.pending)
    pure (.imported legacy.pending.length, log')

/-- `SessionLog::append_summary`; it returns the new `seq`. -/
def appendSummary (disk : Option DiskSample) (now owner session summary : String) (coveredThroughSeq : Int)
    (log : EventTables) : Except MemoryError (Int × EventTables) :=
  if diskRefuses .content disk then .error .diskLow
  else do
    let scope := (Scope.ofOwner owner).withSession session
    let nonce := (log.events.map fun row => row.seq).max?.getD 0
    let log' ← writeAll P log
      [.new now (P.checksum (Json.arr [.str "summary", scope.toJson, .int nonce]).render) scope
        "session.summary" (summaryBody summary coveredThroughSeq) ⟨"session_log", .system⟩]
    pure (log'.lastSeq, log')

section
variable (owner session : String)

section
variable (log : EventTables)

/-- `SessionLog::load_view`: the newest summary, and the messages after what it covers. -/
def loadView : Except SessionError SessionView := do
  let view ← match (kindRows owner session "session.summary" log).getLast? with
    | some row => match (row.payload.value P).bind SessionView.ofJson with
      | some view => .ok view
      | none => .error .serde
    | none => .ok ⟨none, 0, []⟩
  let tail ← ((kindRows owner session "message" log).filter fun row => view.coveredThroughSeq < row.seq).mapM
    fun row => match row.message P with
      | some msg => .ok (row.seq, msg)
      | none => .error .serde
  pure { view with tail := tail }

/-- The messages of a session that read, with their `seq`. -/
def messages : List (Int × Msg) :=
  (kindRows owner session "message" log).filterMap fun row => (row.message P).map fun msg => (row.seq, msg)

def newestSummary : Option SessionView :=
  (kindRows owner session "session.summary" log).getLast?.bind fun row =>
    (row.payload.value P).bind SessionView.ofJson

def covered : Int :=
  ((newestSummary P owner session log).map SessionView.coveredThroughSeq).getD 0

end

end

end

section
variable {P : Platform} {owner session : String} {log log' : EventTables} {e : MemEvent}

theorem Sequenced.kindRows (sequenced : Sequenced log) (kind : String) :
    kindRows owner session kind log =
      log.events.filter fun row => inSession owner session row && row.kind == kind :=
  List.Pairwise.insertionSort_eq ((sequenced.ascending.sublist filter_sublist).imp fun less => less.le)

theorem kindRows_append (sequenced : Sequenced log) (appended : Appended P e log log') (kind : String) :
    kindRows owner session kind log' = kindRows owner session kind log ++
      if e.scope.owner = owner ∧ e.scope.session = some session ∧ e.kind = kind then
        [EventRow.mk e.columns (log.lastSeq + 1)] else [] := by
  rw [sequenced.kindRows, (sequenced.append appended).kindRows, appended.events, filter_append]
  congr 1
  by_cases here : e.scope.owner = owner ∧ e.scope.session = some session ∧ e.kind = kind
  · simp [here, inSession, MemEvent.columns]
  rw [if_neg here, filter_eq_nil_iff]
  intro row single
  rw [mem_singleton.mp single]
  simpa [inSession, MemEvent.columns, and_assoc] using here

inductive Enters (owner session : String) (e : MemEvent) : Option (Msg ⊕ (String × Int)) → Prop where
  | message (msg : Msg) (owned : e.scope.owner = owner) (inside : e.scope.session = some session)
      (kind : e.kind = "message") (body : e.body = msg.toJson) : Enters owner session e (some (.inl msg))
  | summary (summary : String) (through : Int) (owned : e.scope.owner = owner)
      (inside : e.scope.session = some session) (kind : e.kind = "session.summary")
      (body : e.body = summaryBody summary through) : Enters owner session e (some (.inr (summary, through)))
  | other (elsewhere : e.scope.owner = owner → e.scope.session = some session →
      e.kind ≠ "message" ∧ e.kind ≠ "session.summary") : Enters owner session e none

theorem message_body (msg : Msg) (row : EventRow) (body : row.payload = .body msg.toJson) :
    row.message P = some msg := by
  simp [EventRow.message, body, Payload.value, Msg.ofJson_toJson]

section
variable {added : Option (Msg ⊕ (String × Int))}

theorem messages_append (sequenced : Sequenced log) (appended : Appended P e log log')
    (adds : Enters owner session e added) :
    messages P owner session log' = messages P owner session log ++
      match added with
      | some (.inl msg) => [(log.lastSeq + 1, msg)]
      | _ => [] := by
  unfold messages
  rw [kindRows_append sequenced appended, filterMap_append]
  congr 1
  cases adds with
  | message msg owned inside kind body =>
    rw [if_pos ⟨owned, inside, kind⟩, filterMap_cons,
      message_body msg _ (show Payload.body e.body = _ by rw [body])]
    rfl
  | summary summary through owned inside kind body => rw [kind, if_neg (by simp)]; rfl
  | other elsewhere => rw [if_neg fun here => (elsewhere here.1 here.2.1).1 here.2.2]; rfl

theorem newestSummary_append (sequenced : Sequenced log) (appended : Appended P e log log')
    (adds : Enters owner session e added) :
    newestSummary P owner session log' =
      match added with
      | some (.inr (summary, through)) => some ⟨some summary, through, []⟩
      | _ => newestSummary P owner session log := by
  unfold newestSummary
  rw [kindRows_append sequenced appended]
  cases adds with
  | message msg owned inside kind body => rw [kind, if_neg (by simp), append_nil]
  | summary summary through owned inside kind body =>
    rw [if_pos ⟨owned, inside, kind⟩, List.getLast?_concat]
    have reads : ((Payload.body e.body).value P).bind SessionView.ofJson =
        some ⟨some summary, through, []⟩ := by
      rw [body]; rfl
    exact reads
  | other elsewhere =>
    rw [if_neg fun here => (elsewhere here.1 here.2.1).2 here.2.2, append_nil]

theorem covered_append (sequenced : Sequenced log) (appended : Appended P e log log')
    (adds : Enters owner session e added) :
    covered P owner session log' =
      match added with
      | some (.inr (_, through)) => through
      | _ => covered P owner session log := by
  unfold covered
  rw [newestSummary_append sequenced appended adds]
  cases adds <;> rfl

structure Readable (P : Platform) (owner session : String) (log : EventTables) : Prop where
  messages : ∀ row ∈ kindRows owner session "message" log, (row.message P).isSome
  summaries : ∀ row ∈ kindRows owner session "session.summary" log,
    ∃ summary through, row.payload = .body (summaryBody summary through)

theorem Readable.append (readable : Readable P owner session log) (sequenced : Sequenced log)
    (appended : Appended P e log log') (adds : Enters owner session e added) : Readable P owner session log' where
  messages := by
    intro row member
    rw [kindRows_append sequenced appended] at member
    rcases mem_append.mp member with old | new
    · exact readable.messages row old
    cases adds with
    | message msg owned inside kind body =>
      rw [if_pos ⟨owned, inside, kind⟩, mem_singleton] at new
      rw [message_body msg row (by rw [new]; show Payload.body e.body = _; rw [body])]
      rfl
    | summary summary through owned inside kind body => rw [kind, if_neg (by simp)] at new; cases new
    | other elsewhere => rw [if_neg fun here => (elsewhere here.1 here.2.1).1 here.2.2] at new; cases new
  summaries := by
    intro row member
    rw [kindRows_append sequenced appended] at member
    rcases mem_append.mp member with old | new
    · exact readable.summaries row old
    cases adds with
    | message msg owned inside kind body => rw [kind, if_neg (by simp)] at new; cases new
    | summary summary through owned inside kind body =>
      rw [if_pos ⟨owned, inside, kind⟩, mem_singleton] at new
      exact ⟨summary, through, by rw [new]; show Payload.body e.body = _; rw [body]⟩
    | other elsewhere => rw [if_neg fun here => (elsewhere here.1 here.2.1).2 here.2.2] at new; cases new

end

theorem tail_eq {rows : List EventRow} (reads : ∀ row ∈ rows, (row.message P).isSome) (through : Int) :
    ((rows.filter fun row => through < row.seq).mapM fun row =>
      match row.message P with
      | some msg => (.ok (row.seq, msg) : Except SessionError (Int × Msg))
      | none => .error .serde) =
      .ok (Folding.remaining Prod.fst through
        (rows.filterMap fun row => (row.message P).map fun msg => (row.seq, msg))) := by
  induction rows with
  | nil => rfl
  | cons row rest ih =>
    have later := ih fun row member => reads row (mem_cons_of_mem _ member)
    obtain ⟨msg, reading⟩ := Option.isSome_iff_exists.mp (reads row (mem_cons_self ..))
    simp only [filterMap_cons, reading, Option.map_some, Folding.remaining, filter_cons]
    by_cases beyond : through < row.seq
    · simp only [beyond, decide_true, if_true, mapM_cons, reading]
      rw [later]
      rfl
    · simp only [beyond, decide_false, Bool.false_eq_true, if_false]
      exact later

theorem remaining_rows {rows : List EventRow} (reads : ∀ row ∈ rows, (row.message P).isSome) (through : Int) :
    (Folding.remaining Prod.fst through
      (rows.filterMap fun row => (row.message P).map fun msg => (row.seq, msg))).map
        (fun item => (item.1, some item.2)) =
      (rows.filter fun row => through < row.seq).map fun row => (row.seq, row.message P) := by
  induction rows with
  | nil => rfl
  | cons row rest ih =>
    have later := ih fun row member => reads row (mem_cons_of_mem _ member)
    obtain ⟨msg, reading⟩ := Option.isSome_iff_exists.mp (reads row (mem_cons_self ..))
    simp only [filterMap_cons, reading, Option.map_some, Folding.remaining, filter_cons] at later ⊢
    by_cases beyond : through < row.seq
    · simp only [beyond, decide_true, if_true, map_cons, reading, later]
    · simp only [beyond, decide_false, Bool.false_eq_true, if_false, later]

theorem loadView_eq (readable : Readable P owner session log) :
    loadView P owner session log =
      .ok ⟨(newestSummary P owner session log).bind SessionView.summary, covered P owner session log,
        Folding.remaining Prod.fst (covered P owner session log) (messages P owner session log)⟩ := by
  unfold loadView covered newestSummary messages
  cases newest : (kindRows owner session "session.summary" log).getLast? with
  | none =>
    show ((List.mapM _ _ : Except SessionError _) >>= _) = _
    rw [tail_eq readable.messages]
    rfl
  | some row =>
    obtain ⟨summary, through, body⟩ := readable.summaries row (mem_of_getLast? newest)
    have reads : (row.payload.value P).bind SessionView.ofJson = some ⟨some summary, through, []⟩ := by
      rw [body]; rfl
    simp only [Option.bind_some, reads, Option.map_some, Option.getD_some]
    show ((List.mapM _ _ : Except SessionError _) >>= _) = _
    rw [tail_eq readable.messages]
    rfl

structure Recorded (P : Platform) (owner session : String) (log : EventTables)
    (batches : List (List (Int × Msg))) : Prop where
  sequenced : Sequenced log
  readable : Readable P owner session log
  folded : Folding.Folded Prod.fst (messages P owner session log) (covered P owner session log) batches
  issued : covered P owner session log ≤ log.lastSeq
  begun : batches ≠ [] → messages P owner session log ≠ []
  headed : batches ≠ [] → ∀ item ∈ (Folding.remaining Prod.fst (covered P owner session log)
    (messages P owner session log)).head?, item.2.role ≠ "tool"

structure Extends (P : Platform) (owner session : String) (log log' : EventTables) : Prop where
  rows : kindRows owner session "message" log <+: kindRows owner session "message" log'
  covered : covered P owner session log ≤ covered P owner session log'

theorem Extends.refl (P : Platform) (owner session : String) (log : EventTables) :
    Extends P owner session log log := ⟨prefix_rfl, le_refl _⟩

theorem Extends.trans {log'' : EventTables} (first : Extends P owner session log log')
    (second : Extends P owner session log' log'') : Extends P owner session log log'' :=
  ⟨first.rows.trans second.rows, first.covered.trans second.covered⟩

theorem Appended.rows (sequenced : Sequenced log) (appended : Appended P e log log') :
    kindRows owner session "message" log <+: kindRows owner session "message" log' := by
  rw [kindRows_append sequenced appended]
  exact prefix_append _ _

theorem messages_issued (sequenced : Sequenced log) {item : Int × Msg}
    (member : item ∈ messages P owner session log) : item.1 ≤ log.lastSeq := by
  obtain ⟨row, listed, reads⟩ := mem_filterMap.mp member
  obtain ⟨msg, -, rfl⟩ := Option.map_eq_some_iff.mp reads
  rw [sequenced.kindRows] at listed
  exact sequenced.issued row (mem_of_mem_filter listed)

section
variable {batches : List (List (Int × Msg))}

section
variable (recorded : Recorded P owner session log batches)
include recorded

theorem Recorded.addMessage (appended : Appended P e log log') {msg : Msg}
    (adds : Enters owner session e (some (.inl msg)))
    (answered : msg.role = "tool" → batches = [] ∨ Folding.remaining Prod.fst (covered P owner session log) (messages P owner session log) ≠ []) :
    Recorded P owner session log' batches ∧ Extends P owner session log log' ∧
      messages P owner session log' = messages P owner session log ++ [(log.lastSeq + 1, msg)] ∧
      covered P owner session log' = covered P owner session log := by
  have added : messages P owner session log' =
      messages P owner session log ++ [(log.lastSeq + 1, msg)] :=
    messages_append recorded.sequenced appended adds
  have same : covered P owner session log' = covered P owner session log :=
    covered_append recorded.sequenced appended adds
  have issued := recorded.issued
  have fresh : covered P owner session log < log.lastSeq + 1 := by omega
  refine ⟨⟨recorded.sequenced.append appended,
    recorded.readable.append recorded.sequenced appended adds, ?_, ?_, ?_, ?_⟩,
    ⟨appended.rows recorded.sequenced, same.ge⟩, added, same⟩
  · rw [added, same]
    refine recorded.folded.add fresh fun item member => ?_
    have before := messages_issued recorded.sequenced member
    show item.1 < log.lastSeq + 1
    omega
  · rw [same, appended.lastSeq]
    omega
  · intro _
    rw [added]
    simp
  · intro some_batch item head
    rw [added, same, Folding.remaining_add (show _ < (log.lastSeq + 1, msg).1 from fresh)] at head
    cases left : Folding.remaining Prod.fst (covered P owner session log)
        (messages P owner session log) with
    | nil =>
      rw [left] at head
      obtain rfl : (log.lastSeq + 1, msg) = item := by simpa using head
      intro tool
      rcases answered tool with none_batch | more
      · exact some_batch none_batch
      · exact more left
    | cons first rest =>
      rw [left] at head
      exact recorded.headed some_batch item (by rw [left]; simpa using head)

theorem Recorded.addOther (appended : Appended P e log log') (adds : Enters owner session e none) :
    Recorded P owner session log' batches ∧ messages P owner session log' = messages P owner session log ∧
      newestSummary P owner session log' = newestSummary P owner session log := by
  have kept : messages P owner session log' = messages P owner session log := by
    simpa using messages_append recorded.sequenced appended adds
  have same : covered P owner session log' = covered P owner session log :=
    covered_append recorded.sequenced appended adds
  have issued := recorded.issued
  refine ⟨⟨recorded.sequenced.append appended,
    recorded.readable.append recorded.sequenced appended adds, ?_, ?_, ?_, ?_⟩, kept,
    newestSummary_append recorded.sequenced appended adds⟩
  · rw [kept, same]; exact recorded.folded
  · rw [same, appended.lastSeq]; omega
  · rw [kept]; exact recorded.begun
  · rw [kept, same]; exact recorded.headed

theorem Recorded.addSummary (appended : Appended P e log log') {summary : String} {through : Int}
    (adds : Enters owner session e (some (.inr (summary, through)))) {batches' : List (List (Int × Msg))}
    (folded : Folding.Folded Prod.fst (messages P owner session log) through batches')
    (reached : covered P owner session log ≤ through) (issued : through ≤ log.lastSeq)
    (begun : batches' ≠ [] → messages P owner session log ≠ [])
    (headed : batches' ≠ [] → ∀ item ∈ (Folding.remaining Prod.fst through (messages P owner session log)).head?, item.2.role ≠ "tool") :
    Recorded P owner session log' batches' ∧ Extends P owner session log log' ∧
      messages P owner session log' = messages P owner session log ∧
      covered P owner session log' = through := by
  have kept : messages P owner session log' = messages P owner session log := by
    simpa using messages_append recorded.sequenced appended adds
  have same : covered P owner session log' = through :=
    covered_append recorded.sequenced appended adds
  refine ⟨⟨recorded.sequenced.append appended,
    recorded.readable.append recorded.sequenced appended adds, ?_, ?_, ?_, ?_⟩,
    ⟨appended.rows recorded.sequenced, same ▸ reached⟩, kept, same⟩
  · rw [kept, same]; exact folded
  · rw [same, appended.lastSeq]; omega
  · rw [kept]; exact begun
  · rw [kept, same]; exact headed

end

end

theorem writeAll_cons {rest : List MemEvent} (done : writeAll P log (e :: rest) = .ok log') :
    ∃ between, Appended P e log between ∧ writeAll P between rest = .ok log' := by
  obtain ⟨between, first, done⟩ := bind_ok done
  exact ⟨between, appendTx_ok first, done⟩

theorem writeAll_nil (done : writeAll P log [] = .ok log') : log' = log := (Except.ok.inj done).symm

theorem appendTurn_ok {disk : Option DiskSample} {clock : Nat → String} {turnNo : Nat} {user assistant : Msg}
    {userOrigin assistantOrigin : Origin} {ids : TurnIds}
    (done : appendTurn P disk clock owner session turnNo user userOrigin assistant assistantOrigin log =
      .ok (ids, log')) :
    log' = log ∨ ∃ e e' between, Appended P e log between ∧ Appended P e' between log' ∧
      Enters owner session e (some (.inl user)) ∧ Enters owner session e' (some (.inl assistant)) := by
  unfold appendTurn at done
  split at done
  · cases done
  simp only at done
  split at done
  · split at done
    · next stored =>
      obtain ⟨-, rfl⟩ := Prod.mk.inj (Except.ok.inj done)
      obtain ⟨between, first, stored⟩ := writeAll_cons stored
      obtain ⟨final, second, stored⟩ := writeAll_cons stored
      rw [writeAll_nil stored]
      exact .inr ⟨_, _, between, first, second, .message user rfl rfl rfl rfl,
        .message assistant rfl rfl rfl rfl⟩
    · cases done
  · obtain ⟨_, -, done⟩ := bind_ok done
    obtain ⟨_, -, done⟩ := bind_ok done
    exact .inl (Prod.mk.inj (Except.ok.inj done)).2.symm
  · cases done

theorem appendSummary_ok {disk : Option DiskSample} {now summary : String} {through seq : Int}
    (done : appendSummary P disk now owner session summary through log = .ok (seq, log')) :
    ∃ e, Appended P e log log' ∧ Enters owner session e (some (.inr (summary, through))) := by
  unfold appendSummary at done
  split at done
  · cases done
  obtain ⟨final, stored, done⟩ := bind_ok done
  obtain ⟨-, rfl⟩ := Prod.mk.inj (Except.ok.inj done)
  obtain ⟨between, first, stored⟩ := writeAll_cons stored
  rw [writeAll_nil stored]
  exact ⟨_, first, .summary summary through rfl rfl rfl rfl⟩

theorem importEvents_enter (clock : Nat → String) {legacy : CanonicalSession}
    (same : legacy.sessionId = session) {e : MemEvent}
    (listed : e ∈ importEvents P clock ((Scope.ofOwner owner).withSession legacy.sessionId) legacy.pending) :
    (∃ msg, Enters owner session e (some (.inl msg))) ∨
      (∃ summary, Enters owner session e (some (.inr (summary, 0)))) ∨ Enters owner session e none := by
  obtain ⟨⟨⟨kind, body, trust⟩, index⟩, entry, rfl⟩ := mem_map.mp listed
  have pending := mem_zipIdx' entry
  have inside : (kind, body, trust) ∈ legacy.pending := pending.2 ▸ getElem_mem _
  simp only [CanonicalSession.pending, mem_append, mem_map, mem_singleton] at inside
  rcases inside with (⟨summary, -, written⟩ | ⟨msg, -, written⟩) | written
  · obtain ⟨rfl, rfl, rfl⟩ : "session.summary" = kind ∧ summaryBody summary 0 = body ∧ Trust.system = trust := by
      simpa using written
    exact .inr (.inl ⟨summary, .summary summary 0 rfl (congrArg some same) rfl rfl⟩)
  · obtain ⟨rfl, rfl, rfl⟩ : "message" = kind ∧ msg.toJson = body ∧ importTrust msg.role = trust := by
      simpa using written
    exact .inl ⟨msg, .message msg rfl (congrArg some same) rfl rfl⟩
  · obtain ⟨rfl, rfl, rfl⟩ := by simpa using written
    exact .inr (.inr (.other fun _ _ => ⟨by simp [MemEvent.new], by simp [MemEvent.new]⟩))

theorem Recorded.writeAll {events : List MemEvent}
    (adds : ∀ e ∈ events, (∃ msg, Enters owner session e (some (.inl msg))) ∨
      (∃ summary, Enters owner session e (some (.inr (summary, 0)))) ∨ Enters owner session e none)
    (recorded : Recorded P owner session log []) (uncovered : covered P owner session log = 0)
    (done : writeAll P log events = .ok log') :
    Recorded P owner session log' [] ∧ Extends P owner session log log' := by
  induction events generalizing log with
  | nil =>
    rw [writeAll_nil done]
    exact ⟨recorded, .refl P owner session log⟩
  | cons e rest ih =>
    obtain ⟨between, appended, done⟩ := writeAll_cons done
    have others := fun e member => adds e (mem_cons_of_mem _ member)
    rcases adds e (mem_cons_self ..) with ⟨msg, message⟩ | ⟨summary, written⟩ | other
    · obtain ⟨kept, extended, -, same⟩ := recorded.addMessage appended message fun _ => .inl rfl
      obtain ⟨final, further⟩ := ih others kept (same.trans uncovered) done
      exact ⟨final, extended.trans further⟩
    · obtain ⟨kept, extended, -, same⟩ := recorded.addSummary appended written
        (uncovered ▸ recorded.folded) uncovered.le recorded.sequenced.nonneg (fun some_batch => absurd rfl some_batch)
        (fun some_batch => absurd rfl some_batch)
      obtain ⟨final, further⟩ := ih others kept same done
      exact ⟨final, extended.trans further⟩
    · obtain ⟨kept, -, newest⟩ := recorded.addOther appended other
      have same : covered P owner session between = covered P owner session log := by
        unfold covered; rw [newest]
      obtain ⟨final, further⟩ := ih others kept (same.trans uncovered) done
      exact ⟨final, Extends.trans ⟨appended.rows recorded.sequenced, same.ge⟩ further⟩

end
end Agent24.Memory
