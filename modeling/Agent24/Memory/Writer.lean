import Agent24.Memory.Assertion
import Agent24.Memory.SourcePolicy

/-! The governance write gate: policy, audits, and the transaction that commits a candidate. -/

set_option autoImplicit false
namespace Agent24.Memory
open Library

structure Candidate where
  id : String
  scope : Scope
  subject : String
  predicate : String
  object : Json
  evidence : List String
  sourceRef : Option Json
  origin : Origin
  explicitRemember : Bool
  deriving DecidableEq

inductive WriteDecision where
  | committed (id : String)
  | held (id : String)
  | rejected (candidateId reason : String)
  | skippedPaused (id : String)
  deriving DecidableEq, Repr

inductive PolicyOutcome where
  | commit
  | hold
  | reject (reason : String)
  deriving DecidableEq, Repr

inductive CommitStatus where
  | committed | skippedPaused
  deriving DecidableEq, Repr

/-- What one call reads from outside: the free-space sample and three readings of the clock. -/
structure Reads where
  disk : Option DiskSample
  /-- The stamp of `Assertion::new`. -/
  created : String
  audited : String
  now : String
  deriving DecidableEq

namespace WriteGate

def trustOutcome (c : Candidate) : PolicyOutcome :=
  match c.origin.trust with
  | .system => .commit
  | .userSaid => if c.explicitRemember then .commit else .hold
  | .model | .toolOutput => .hold
  | .webFetch => .reject "web_fetch not auto-persisted"
  | .unknown => .reject "unknown trust not auto-persisted"

def policy (c : Candidate) : PolicyOutcome :=
  if isBlank c.scope.owner then .reject "empty owner"
  else if isBlank c.subject || isBlank c.predicate then .reject "empty subject/predicate"
  else if trustOutcome c = .commit ∧ c.evidence = [] then .hold
  else trustOutcome c

def toAssertion (created : String) (c : Candidate) (qualified : Bool) : Assertion :=
  { Assertion.new created c.id c.scope c.subject c.predicate c.object c.evidence with
    qualified := qualified
    sourceRef := c.sourceRef
    writerVersion := "md4"
    modality := match c.origin.trust with
      | .toolOutput => .observed
      | .model => .derived
      | _ => .said }

def hexLower (c : Char) : Bool := c.isDigit || ('a' ≤ c && c ≤ 'f')

/-- `hex16`: sixteen bytes, all of them hexadecimal digits. -/
def hex16 (s : String) : Bool := s.utf8ByteSize == 16 && s.toList.all fun c => hexLower c.toLower

def positiveSuffix (rest : String) : Bool :=
  match rest.toList with
  | '-' :: first :: more => first.isDigit && first != '0' && more.all Char.isDigit
  | _ => false

/-- The items of a list of texts; `none` when one of them is not text. -/
def textItems (items : List Json) : Option (List String) :=
  let values := items.filterMap Json.asStr?
  if values.length = items.length then some values else none

section
variable (P : Platform)

def canonical (c : Candidate) (verdict : String) : String :=
  verdict ++ "|" ++ c.id ++ "|" ++ c.subject ++ "|" ++ c.predicate ++ "|" ++ c.object.render ++ "|" ++
    P.debugStrs c.evidence

def auditId (c : Candidate) (verdict : String) : String :=
  "audit-" ++ c.id ++ "-" ++ P.checksum16 (canonical P c verdict)

def auditBody (c : Candidate) (verdict : String) (reason : Option String) (trust : String)
    (remember : Bool) : Json :=
  .obj [("candidate_id", .str c.id), ("evidence", Json.strs c.evidence),
    ("explicit_remember", .bool remember), ("object", c.object), ("predicate", .str c.predicate),
    ("reason", match reason with | some text => .str text | none => .null),
    ("subject", .str c.subject), ("trust", .str trust), ("verdict", .str verdict)]

def auditEvent (now : String) (c : Candidate) (verdict : String) (reason : Option String) : MemEvent :=
  .new now (auditId P c verdict) c.scope "mem.write_decision"
    (auditBody c verdict reason c.origin.trust.debug c.explicitRemember) ⟨"write_gate", .system⟩

/-- `matches_commit_audit`: the stored event is the expected one under some authorising trust. -/
def matchesCommitAudit (row : EventRow) (expectedScope : Scope) (expected : MemEvent) : Bool :=
  match row.payload.value P with
  | none => false
  | some body =>
    let authorized := [("UserSaid", true), ("System", false), ("System", true)].any fun allowed =>
      body == (expected.body.set "trust" (.str allowed.1)).set "explicit_remember" (.bool allowed.2)
    row.scopeOwner == expected.scope.owner && row.scope == expectedScope &&
      row.kind == "mem.write_decision" && row.originSource == "write_gate" &&
      row.originTrust == "system" && authorized

/-- `ORDER BY seq LIMIT 65`. -/
def firstBySeq (rows : List EventRow) : List EventRow :=
  (rows.insertionSort fun a b => a.seq ≤ b.seq).take 65

section
variable (log : EventTables)

/-- `commit_shaped_audits`: an audit prefix followed by sixteen hexadecimal digits. -/
def commitShapedAudits (owner lead : String) : List EventRow :=
  let hi := Text.take (lead.length - 1) lead ++ "."
  firstBySeq (log.events.filter fun row =>
    row.scopeOwner == owner && row.kind == "mem.write_decision" &&
      decide (lead ≤ row.id) && decide (row.id < hi) && row.id.length == lead.length + 16 &&
      Text.startsWith lead row.id && (row.id.toList.drop lead.length).all fun c => hexLower c.toLower)

def idRange (owner lo hi : String) : List EventRow :=
  firstBySeq (log.events.filter fun row =>
    row.scopeOwner == owner && decide (lo ≤ row.id) && decide (row.id < hi))

/-- `trim_start_matches`: remove a prefix as often as it occurs. -/
def trimStart (lead : List Char) : Nat → List Char → List Char
  | 0, text => text
  | fuel + 1, text =>
    if lead ≠ [] ∧ lead.isPrefixOf text then trimStart lead fuel (text.drop lead.length) else text

def reassertShaped (lead : String) (row : EventRow) : Bool :=
  let rest := String.ofList (trimStart lead.toList row.id.length row.id.toList)
  let (hex, suffix) := (Text.splitOnce '-' rest).getD (rest, "")
  hex16 hex && (suffix == "" || positiveSuffix ("-" ++ suffix))

def numberedFrom (base id : String) : Bool :=
  id == base || (Text.strip base id).any positiveSuffix

def bodyEvidence (body : Json) : Option (List String) :=
  match (body.get? "evidence").bind Json.asArray? with
  | some items => textItems items
  | none => none

/-- `serde_json::from_str(payload).unwrap_or(Null)`. -/
def payloadOrNull (row : EventRow) : Json := (row.payload.value P).getD .null

def findAnchor (c : Candidate) (expectedScope : Scope) : List EventRow → Option EventRow
  | [] => none
  | row :: rest =>
    match bodyEvidence (payloadOrNull P row) with
    | none | some [] => none
    | some values =>
      let expected := auditEvent P "" { c with evidence := values } "commit" none
      if row.id == expected.id && matchesCommitAudit P row expectedScope expected then some row
      else findAnchor c expectedScope rest

def retractLink (c : Candidate) (row : EventRow) : Bool :=
  row.kind == "assertion.retracted" && row.originSource == "memory.forget" &&
    row.originTrust == "user_said" && row.scope == Scope.ofOwner c.scope.owner &&
    payloadOrNull P row == .obj [("assertion_id", .str c.id)]

def reassertLink (c : Candidate) (expectedScope : Scope) (row : EventRow) : Bool :=
  match bodyEvidence (payloadOrNull P row) with
  | none | some [] => false
  | some values =>
    row.kind == "assertion.reasserted" && row.originSource == "write_gate" &&
      row.originTrust == "system" && row.scope == expectedScope &&
      payloadOrNull P row ==
        .obj [("assertion_id", .str c.id), ("evidence", Json.strs values)] &&
      numberedFrom ("reassert-" ++ c.id ++ "-" ++
        P.checksum16 (row.recordedAt ++ "|" ++ P.debugStrs values)) row.id

def linksAlternate (c : Candidate) (expectedScope : Scope) : Bool → List EventRow → Bool
  | _, [] => true
  | true, row :: rest => retractLink P c row && linksAlternate c expectedScope false rest
  | false, row :: rest => reassertLink P c expectedScope row && linksAlternate c expectedScope true rest

/-- `legacy_reassert_chain`: a commit audit followed by complete retract and reassert pairs, the last
of which carries the current evidence. -/
def legacyReassertChain (c : Candidate) (expectedScope : Scope) (currentEvidence : List String) : Bool :=
  let owner := c.scope.owner
  let audits := commitShapedAudits log owner ("audit-" ++ c.id ++ "-")
  let reasserts := idRange log owner ("reassert-" ++ c.id ++ "-") ("reassert-" ++ c.id ++ ".")
  let base := MemoryDb.retractBase P owner c.id
  let retracts := idRange log owner (base ++ "-") (base ++ ".") ++
    ((log.byId base).filter fun row => row.scopeOwner == owner).toList
  if audits.length > 64 || reasserts.length > 64 || retracts.length > 64 then false
  else
    let reasserts := reasserts.filter (reassertShaped ("reassert-" ++ c.id ++ "-"))
    let retracts := retracts.filter fun row => numberedFrom base row.id
    match findAnchor P c expectedScope audits with
    | none => false
    | some anchor =>
      let links := (retracts ++ reasserts).insertionSort fun a b => a.seq ≤ b.seq
      if links.length < 2 || links.length % 2 != 0 || links.any fun row => row.seq ≤ anchor.seq then
        false
      else linksAlternate P c expectedScope true links &&
        match links.getLast? with
        | none => false
        | some last => (payloadOrNull P last).get? "evidence" == some (Json.strs currentEvidence)

/-- The switch in a stored `MemorySettings`: its field, or its only value in a list. -/
def settingsEnabled : Json → Option Bool
  | .arr [value] => value.asBool?
  | value => (value.get? "enabled").bind Json.asBool?

def memoryEnabled (db : MemoryDb) (owner : String) : Bool :=
  match db.settings owner with
  | none => true
  | some stored => ((stored.value P).bind settingsEnabled).getD true

def withSourceRef (sourceRef : Option Json) (row : AssertionRow) : AssertionRow :=
  { row with sourceRef := sourceRef }

/-- `tighten_source_ref`: a re-assert replaces a laxer stored provenance. -/
def tightenSourceRef (c : Candidate) (row : AssertionRow) (db : MemoryDb) : MemoryDb :=
  let storedClass := AssertionSourceRef.classificationOf row.sourceRef
  let tightens := c.sourceRef.any fun proposed =>
    strictestClassification [storedClass, AssertionSourceRef.classificationOf (some proposed)]
      != storedClass
  if tightens then
    { db with assertions := rewriteKey AssertionRow.key c.id (withSourceRef c.sourceRef) db.assertions }
  else db

def contentMatches (c : Candidate) (row : AssertionRow) : Bool :=
  row.scopeOwner == c.scope.owner && row.scope == c.scope && row.subject == c.subject &&
    row.predicate == c.predicate && row.object == c.object

def matching (now : String) (c : Candidate) (row : AssertionRow) : Bool :=
  contentMatches c row && row.qualified && decide (row.validFrom ≤ now) &&
    (row.validTo.all fun stop => decide (now < stop)) && decide (row.recordedFrom ≤ now) &&
    row.recordedTo == none

def auditedCurrent (c : Candidate) (row : AssertionRow) : Bool :=
  row.evidence != [] &&
    let expected := auditEvent P "" { c with evidence := row.evidence } "commit" none
    match log.byId expected.id with
    | some audit => matchesCommitAudit P audit c.scope expected
    | none => legacyReassertChain P log c c.scope row.evidence

end

def reassertBase (now : String) (c : Candidate) : String :=
  "reassert-" ++ c.id ++ "-" ++ P.checksum16 (now ++ "|" ++ P.debugStrs c.evidence)

/-- The `assertion.reasserted` event under the first unused id. -/
def reassertEvent (now : String) (c : Candidate) (log : EventTables) : MemEvent :=
  .new now (Text.fresh (log.events.map fun row => row.id) (Text.suffixed (reassertBase P now c)))
    c.scope "assertion.reasserted"
    (.obj [("assertion_id", .str c.id), ("evidence", Json.strs c.evidence)]) ⟨"write_gate", .system⟩

def reopen (c : Candidate) (row : AssertionRow) : AssertionRow :=
  { row with recordedTo := none, evidence := c.evidence, sourceRef := c.sourceRef, qualified := true }

def ensureAudit (audit : MemEvent) (c : Candidate) (log : EventTables) :
    Except MemoryError EventTables :=
  match log.byId audit.id with
  | some existing =>
    if matchesCommitAudit P existing c.scope audit then .ok log
    else .error (.conflict "invalid reassert commit audit")
  | none => appendTx P audit log

section
variable (reads : Reads)

section
variable (c : Candidate)

def reactivate (audit : MemEvent) (db : MemoryDb) :
    Except MemoryError (CommitStatus × MemoryDb) := do
  let audited ← ensureAudit P audit c db.log
  let log ← appendTx P (reassertEvent P reads.now c audited) audited
  pure (.committed, { db with
    log := log
    assertions := rewriteKey AssertionRow.key c.id (reopen c) db.assertions })

def recommit (audit : MemEvent) (row : AssertionRow) (db : MemoryDb) :
    Except MemoryError (CommitStatus × MemoryDb) :=
  if matching reads.now c row && auditedCurrent P db.log c row then
    .ok (.committed, tightenSourceRef c row db)
  else if contentMatches c row && row.recordedTo != none then reactivate P reads c audit db
  else .error (.conflict ("assertion id " ++ P.debugStr c.id ++
    " already exists without matching current content, evidence, or commit audit"))

def insertAudited (assertion : Assertion) (audit : MemEvent) (db : MemoryDb) :
    Except MemoryError (CommitStatus × MemoryDb) := do
  let inserted ← db.insertTx P assertion
  let log ← appendTx P audit inserted.log
  pure (.committed, { inserted with log := log })

def isRemember (verdict : String) : Bool :=
  verdict == "commit" && c.origin.trust == .userSaid && c.explicitRemember

/-- `commit_with_audit_using_clock`. -/
def commitWithAudit (qualified : Bool) (verdict : String) (db : MemoryDb) : Except MemoryError (CommitStatus × MemoryDb) :=
  if diskRefuses .content reads.disk then .error .diskLow
  else
    let assertion := toAssertion reads.created c qualified
    let audit := auditEvent P reads.audited c verdict none
    if isRemember c verdict then
      if !memoryEnabled P db c.scope.owner then .ok (.skippedPaused, db)
      else match db.find c.id with
        | some row => recommit P reads c audit row db
        | none => insertAudited P assertion audit db
    else insertAudited P assertion audit db

def auditReject (reason : String) (db : MemoryDb) :
    Except MemoryError MemoryDb :=
  if isBlank c.scope.owner then .ok db
  else if diskRefuses .content reads.disk then .error .diskLow
  else match appendTx P (auditEvent P reads.audited c "reject" (some reason)) db.log with
    | .error error => .error error
    | .ok log => .ok { db with log := log }

/-- One candidate of `propose`, in its own transaction. -/
def proposeOne (db : MemoryDb) :
    Except MemoryError (WriteDecision × MemoryDb) :=
  match policy c with
  | .commit => (commitWithAudit P reads c true "commit" db).map fun (status, db') =>
    (match status with
      | .committed => .committed c.id
      | .skippedPaused => .skippedPaused c.id, db')
  | .hold => (commitWithAudit P reads c false "hold" db).map fun (_, db') => (.held c.id, db')
  | .reject reason => (auditReject P reads c reason db).map fun db' => (.rejected c.id reason, db')

end

end

/-- `propose`: the candidates in order, up to the first error. What earlier candidates wrote stays. -/
def propose : List (Reads × Candidate) → MemoryDb → MemoryDb × Except MemoryError (List WriteDecision)
  | [], db => (db, .ok [])
  | (reads, c) :: rest, db =>
    match proposeOne P reads c db with
    | .error error => (db, .error error)
    | .ok (decision, db') =>
      let (final, decisions) := propose rest db'
      (final, decisions.map (decision :: ·))

def dryRun (candidates : List Candidate) : List WriteDecision :=
  candidates.map fun c => match policy c with
    | .commit => .committed c.id
    | .hold => .held c.id
    | .reject reason => .rejected c.id reason

end
end WriteGate

inductive RetainOutcome where
  | saved | skippedPaused | notApplicable
  deriving DecidableEq, Repr

/-- The candidate of `retain::persist`. -/
def rememberCandidate (P : Platform) (owner object evidence : String) (origin : Origin)
    (sourceRef : AssertionSourceRef) : Candidate where
  id := P.checksum (owner ++ object)
  scope := Scope.ofOwner owner
  subject := "user"
  predicate := "said_to_remember"
  object := .str object
  evidence := [evidence]
  sourceRef := some sourceRef.toValue
  origin := origin
  explicitRemember := true

/-- `retain::persist`: remember a statement of the user through the write gate. -/
def persist (P : Platform) (reads : Reads) (owner object evidence : String) (origin : Origin)
    (sourceRef : AssertionSourceRef) (db : MemoryDb) : MemoryDb × Except MemoryError RetainOutcome :=
  if origin.trust ≠ .userSaid then (db, .ok .notApplicable)
  else
    let (db', decisions) :=
      WriteGate.propose P [(reads, rememberCandidate P owner object evidence origin sourceRef)] db
    (db', decisions.map fun decided => match decided.head? with
      | some (.committed _) => .saved
      | some (.skippedPaused _) => .skippedPaused
      | _ => .notApplicable)

end Agent24.Memory
