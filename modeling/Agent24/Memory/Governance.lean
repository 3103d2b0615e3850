import Agent24.Memory.Ledger

/-! Every fact the gate wrote has its audit, and a refused candidate leaves no trace in the ledger. -/

set_option autoImplicit false
namespace Agent24.Memory
open Library MemoryDb WriteGate

/-- The candidate a row states, as far as audits tell candidates apart. -/
def AssertionRow.statement (row : AssertionRow) : Candidate where
  id := row.id
  scope := row.scope
  subject := row.subject
  predicate := row.predicate
  object := row.object
  evidence := row.evidence
  sourceRef := row.sourceRef
  origin := ⟨"write_gate", .system⟩
  explicitRemember := false

section
variable (P : Platform)

def Audited (log : EventTables) (row : AssertionRow) (verdict : String)
    (allowed : String → Bool → Prop) : Prop :=
  ∃ event ∈ log.events, event.id = auditId P row.statement verdict ∧
    event.scopeOwner = row.scopeOwner ∧ event.scope = row.scope ∧
    event.kind = "mem.write_decision" ∧ event.originSource = "write_gate" ∧
    event.originTrust = "system" ∧ ∃ trust remember, allowed trust remember ∧
      event.payload.value P = some (auditBody row.statement verdict none trust remember)

def Authorises (trust : String) (remember : Bool) : Prop :=
  trust = "System" ∨ trust = "UserSaid" ∧ remember = true

def Governed (log : EventTables) (row : AssertionRow) : Prop :=
  if row.qualified then row.evidence ≠ [] ∧ Audited P log row "commit" Authorises
  else Audited P log row "hold" fun _ _ => True

variable {P}

variable {log : EventTables} {row : AssertionRow} {c : Candidate} {db db' : MemoryDb} {decision : WriteDecision}

theorem Audited.mono {log' : EventTables} {verdict : String} {allowed : String → Bool → Prop}
    (audited : Audited P log row verdict allowed) (grows : ∀ event ∈ log.events, event ∈ log'.events) :
    Audited P log' row verdict allowed := by
  obtain ⟨event, member, rest⟩ := audited
  exact ⟨event, grows event member, rest⟩

theorem Governed.mono {log' : EventTables} (governed : Governed P log row)
    (grows : ∀ event ∈ log.events, event ∈ log'.events) : Governed P log' row := by
  unfold Governed at governed ⊢
  split
  · next qualified =>
    rw [if_pos qualified] at governed
    exact ⟨governed.1, governed.2.mono grows⟩
  · next held =>
    rw [if_neg held] at governed
    exact governed.mono grows

theorem Governed.of_fields {later : AssertionRow} (governed : Governed P log row) (sourceRef : Option Json)
    (recordedTo : Option String) (same : later = { row with sourceRef := sourceRef, recordedTo := recordedTo }) :
    Governed P log later := by
  subst same
  exact governed

theorem policy_commit (decided : policy c = .commit) :
    c.evidence ≠ [] ∧ Authorises c.origin.trust.debug c.explicitRemember := by
  unfold policy at decided
  split at decided
  · cases decided
  split at decided
  · cases decided
  split at decided
  · cases decided
  next enough =>
  refine ⟨fun empty => enough ⟨decided, empty⟩, ?_⟩
  unfold trustOutcome at decided
  cases trust : c.origin.trust with
  | system => exact .inl rfl
  | userSaid =>
    simp only [trust] at decided
    split at decided
    · next remember => exact .inr ⟨rfl, remember⟩
    · cases decided
  | toolOutput | webFetch | model | unknown => simp [trust] at decided

/-- The stored row says what the candidate says, so their audits have one id and body. -/
structure Agrees (row : AssertionRow) (c : Candidate) : Prop where
  id : row.id = c.id
  owner : row.scopeOwner = c.scope.owner
  scope : row.scope = c.scope
  subject : row.subject = c.subject
  predicate : row.predicate = c.predicate
  object : row.object = c.object
  evidence : row.evidence = c.evidence

theorem Agrees.auditId (agrees : Agrees row c) (verdict : String) :
    auditId P row.statement verdict = WriteGate.auditId P c verdict := by
  simp only [WriteGate.auditId, canonical, AssertionRow.statement, agrees.id, agrees.subject,
    agrees.predicate, agrees.object, agrees.evidence]

theorem Agrees.auditBody (agrees : Agrees row c) (verdict trust : String) (reason : Option String)
    (remember : Bool) :
    auditBody row.statement verdict reason trust remember =
      WriteGate.auditBody c verdict reason trust remember := by
  simp only [WriteGate.auditBody, AssertionRow.statement, agrees.id, agrees.subject,
    agrees.predicate, agrees.object, agrees.evidence]

theorem Appended.audited {now verdict : String} {log' : EventTables}
    (appended : Appended P (auditEvent P now c verdict none) log log') (agrees : Agrees row c)
    {allowed : String → Bool → Prop} (authorised : allowed c.origin.trust.debug c.explicitRemember) :
    Audited P log' row verdict allowed :=
  ⟨_, appended.present, (agrees.auditId verdict).symm, agrees.owner.symm, agrees.scope.symm, rfl, rfl,
    rfl, _, _, authorised, congrArg some (agrees.auditBody verdict _ none _).symm⟩

theorem audited_of_matches {now : String} {event : EventRow} (member : event ∈ log.events)
    (named : event.id = (auditEvent P now c "commit" none).id)
    (authorised : matchesCommitAudit P event c.scope (auditEvent P now c "commit" none) = true)
    (agrees : Agrees row c) : Audited P log row "commit" Authorises := by
  unfold matchesCommitAudit at authorised
  cases body : event.payload.value P with
  | none => simp [body] at authorised
  | some value =>
    simp only [body, Bool.and_eq_true, beq_iff_eq, List.any_eq_true] at authorised
    obtain ⟨⟨⟨⟨⟨owner, scope⟩, kind⟩, source⟩, trust⟩, allowed, listed, same⟩ := authorised
    have written : value = WriteGate.auditBody c "commit" none allowed.1 allowed.2 := by
      rw [same]
      exact auditBody_set c "commit" none _ _ _ _
    refine ⟨event, member, named.trans (agrees.auditId "commit").symm, owner.trans agrees.owner.symm,
      scope.trans agrees.scope.symm, kind, source, trust, allowed.1, allowed.2, ?_, ?_⟩
    · simp only [List.mem_cons, List.not_mem_nil, or_false] at listed
      rcases listed with rfl | rfl | rfl
      · exact .inr ⟨rfl, rfl⟩
      · exact .inl rfl
      · exact .inl rfl
    · rw [body, agrees.auditBody, written]

/-- What a transaction writes about: rows kept but for their provenance, and the candidate's own row
with its audit. -/
theorem Accepted.rows {reads : Reads} (accepted : Accepted P reads c db decision db') (distinct : db.Distinct) :
    ∀ row ∈ db'.assertions,
      (∃ old ∈ db.assertions, row = withSourceRef row.sourceRef old) ∨
      (row.id = c.id ∧ Governed P db'.log row ∧
        decision = if row.qualified then .committed c.id else .held c.id) := by
  intro row member
  have kept : ∀ old ∈ db.assertions, ∃ old' ∈ db.assertions, old = withSourceRef old.sourceRef old' :=
    fun old present => ⟨old, present, rfl⟩
  cases accepted with
  | rejectedUnowned => exact .inl (kept row member)
  | rejected => exact .inl (kept row member)
  | paused => exact .inl (kept row member)
  | inserted qualified decided unused log appended =>
    rcases List.mem_append.mp member with old | new
    · exact .inl (kept row old)
    obtain rfl := List.mem_singleton.mp new
    have agrees : Agrees ⟨toAssertion reads.created c qualified, c.scope.owner⟩ c :=
      ⟨rfl, rfl, rfl, rfl, rfl, rfl, rfl⟩
    refine .inr ⟨rfl, ?_, rfl⟩
    cases qualified with
    | true => exact ⟨(policy_commit decided).1, appended.audited agrees (policy_commit decided).2⟩
    | false => exact appended.audited agrees trivial
  | reused => exact .inl (tightenSourceRef_mem member)
  | reactivated decided remember room enabled found? found same closed audited log audit appended =>
    obtain ⟨old, present, rfl⟩ := List.mem_map.mp member
    by_cases hit : old.key = c.id
    · obtain ⟨inside, named⟩ := find_some found
      have only : old = found? := List.inj_on_of_nodup_map distinct present inside
        (hit.trans named.symm)
      subst only
      simp only [contentMatches, Bool.and_eq_true, beq_iff_eq] at same
      obtain ⟨⟨⟨⟨owner, scope⟩, subject⟩, predicate⟩, object⟩ := same
      have agrees : Agrees (reopen c old) c := ⟨hit, owner, scope, subject, predicate, object, rfl⟩
      rw [if_pos hit]
      refine .inr ⟨hit, ⟨(policy_commit decided).1, ?_⟩, rfl⟩
      have first : Audited P audited (reopen c old) "commit" Authorises := by
        rcases ensureAudit_cases audit with ⟨rfl, event, stored, sameId, authorised⟩ | new
        · exact audited_of_matches stored sameId authorised agrees
        · exact new.audited agrees (policy_commit decided).2
      exact first.mono appended.subset
    · rw [if_neg hit]
      exact .inl (kept old present)

theorem Accepted.grows {reads : Reads} (accepted : Accepted P reads c db decision db') :
    ∀ event ∈ db.log.events, event ∈ db'.log.events := by
  intro event member
  cases accepted with
  | rejectedUnowned => exact member
  | paused => exact member
  | rejected reason decided log appended => exact appended.subset event member
  | inserted qualified decided unused log appended => exact appended.subset event member
  | reused => simpa using member
  | reactivated decided remember room enabled row found same closed audited log audit appended =>
    refine appended.subset event ?_
    rcases ensureAudit_cases audit with ⟨rfl, -⟩ | new
    · exact member
    · exact new.subset event member

structure AllGoverned (P : Platform) (db : MemoryDb) : Prop where
  distinct : db.Distinct
  rows : ∀ row ∈ db.assertions, Governed P db.log row

theorem AllGoverned.accepted {reads : Reads} (all : AllGoverned P db)
    (accepted : Accepted P reads c db decision db') : AllGoverned P db' := by
  refine ⟨accepted.distinct all.distinct, fun row member => ?_⟩
  rcases Accepted.rows accepted all.distinct row member with ⟨old, present, same⟩ | ⟨-, governed, -⟩
  · exact ((all.rows old present).of_fields row.sourceRef old.recordedTo same).mono
      (Accepted.grows accepted)
  · exact governed

theorem AllGoverned.apply (all : AllGoverned P db) {op : LedgerOp} (gated : op.isGated) :
    AllGoverned P (op.apply P db) := by
  cases op with
  | forget disk owner id recordedAt =>
    simp only [LedgerOp.apply]
    cases done : db.forget P disk owner id recordedAt with
    | error error => exact all
    | ok result =>
      obtain ⟨outcome, db'⟩ := result
      cases forget_cases done with
      | already => exact all
      | notFound => exact all
      | forgotten log current appended =>
        refine ⟨all.distinct.closeOpen id owner recordedAt, fun row member => ?_⟩
        obtain ⟨old, present, rfl⟩ := List.mem_map.mp member
        have governed := (all.rows old present).mono appended.subset
        change Governed P log (if isOpenRow id owner old then close recordedAt old else old)
        split
        · exact governed.of_fields old.sourceRef (some recordedAt) rfl
        · exact governed
  | propose batch => exact propose_invariant (fun _ _ _ _ _ _ holds step => holds.accepted step) all
  | configure => exact ⟨all.distinct, all.rows⟩
  | assertFact | retract => exact absurd gated (fun h => h)

/-- A failing batch stops at its first failing candidate and keeps what the ones before it committed. -/
theorem propose_error {batch : List (Reads × Candidate)} {error : MemoryError}
    (failed : propose P batch db = (db', .error error)) :
    ∃ before reads c rest decisions, batch = before ++ (reads, c) :: rest ∧
      propose P before db = (db', .ok decisions) ∧ proposeOne P reads c db' = .error error := by
  induction batch generalizing db with
  | nil => cases failed
  | cons item rest ih =>
    obtain ⟨reads, c⟩ := item
    simp only [propose] at failed
    cases done : proposeOne P reads c db with
    | error here =>
      simp only [done, Prod.mk.injEq, Except.error.injEq] at failed
      obtain ⟨rfl, rfl⟩ := failed
      exact ⟨[], reads, c, rest, [], rfl, rfl, done⟩
    | ok accepted =>
      obtain ⟨decision, next⟩ := accepted
      simp only [done] at failed
      cases later : propose P rest next with
      | mk final outcome =>
        simp only [later, Prod.mk.injEq] at failed
        obtain ⟨rfl, refused⟩ := failed
        cases outcome with
        | ok decisions => cases refused
        | error there =>
          obtain rfl := Except.error.inj refused
          obtain ⟨before, reads', c', rest', decisions, whole, first, last⟩ := ih later
          refine ⟨(reads, c) :: before, reads', c', rest', decision :: decisions, ?_, ?_, last⟩
          · rw [whole, List.cons_append]
          · simp only [propose, done, first, Except.map]

end

/-- A held candidate becomes a row without evidence and without a commit audit. -/
def heldDb : MemoryDb :=
  (MemoryDb.fresh (fun _ => none) fun _ => none).after samplePlatform
    [.propose [(readsAt "2026-01-01T00:00:00Z", teaCandidate)]]

/-- The user says where they live, and in the same batch says otherwise. -/
def contradictoryBatch : List (Reads × Candidate) :=
  [(readsAt "2026-01-01T00:00:00Z", parisCandidate "e1"),
    (readsAt "2026-01-01T00:00:00Z", { parisCandidate "e1" with object := .str "Rome" })]

end Agent24.Memory
