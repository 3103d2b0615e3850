import Agent24.Memory.Writer

/-! What a successful ledger operation can have done to the database, one case for each branch. -/

set_option autoImplicit false
namespace Agent24.Memory
open Library

section
variable {P : Platform}

theorem bind_ok {ε α β : Type} {x : Except ε α} {f : α → Except ε β} {b : β}
    (done : (x >>= f) = .ok b) : ∃ a, x = .ok a ∧ f a = .ok b := by
  cases x with
  | ok a => exact ⟨a, rfl, done⟩
  | error error => cases done

theorem map_ok {ε α β : Type} {x : Except ε α} {f : α → β} {b : β}
    (done : x.map f = .ok b) : ∃ a, x = .ok a ∧ f a = b := by
  cases x with
  | ok a => exact ⟨a, rfl, by simpa [Except.map] using done⟩
  | error error => cases done

theorem bind_error {ε α β : Type} {x : Except ε α} {f : α → Except ε β} {error : ε}
    (refused : (x >>= f) = .error error) :
    x = .error error ∨ ∃ a, x = .ok a ∧ f a = .error error := by
  cases x with
  | ok a => exact .inr ⟨a, rfl, refused⟩
  | error first => exact .inl (congrArg Except.error (Except.error.inj refused))

theorem map_error {ε α β : Type} {x : Except ε α} {f : α → β} {error : ε}
    (refused : x.map f = .error error) : x = .error error := by
  cases x with
  | ok a => cases refused
  | error first => exact congrArg Except.error (Except.error.inj refused)

namespace EventTables

theorem byId_some {t : EventTables} {id : String} {row : EventRow} (found : t.byId id = some row) :
    row ∈ t.events ∧ row.id = id :=
  ⟨List.mem_of_find?_eq_some found, by simpa using List.find?_some found⟩

theorem byId_none {t : EventTables} {id : String} (missing : t.byId id = none) :
    t.hasId id = false := by
  simpa [byId, hasId] using missing

theorem byId_isSome {t : EventTables} {id : String} (stored : t.hasId id = true) :
    ∃ row, t.byId id = some row := by
  cases found : t.byId id with
  | some row => exact ⟨row, rfl⟩
  | none => rw [byId_none found] at stored; cases stored

end EventTables

/-- `log'` is `log` with the event stored last, under an unused id. -/
structure Appended (P : Platform) (e : MemEvent) (log log' : EventTables) : Prop where
  admitted : log.quotaGate P e.columns = none
  unused : log.hasId e.id = false
  unusedSeq : log.hasSeq (log.lastSeq + 1) = false
  stored : log' = log.store P (log.lastSeq + 1) e.columns

theorem appendTx_ok {e : MemEvent} {log log' : EventTables} (done : appendTx P e log = .ok log') :
    Appended P e log log' := by
  simp only [appendTx, EventTables.insert] at done
  cases gate : log.quotaGate P e.columns with
  | some error => simp [gate] at done
  | none =>
    by_cases present : log.hasId e.columns.id || log.hasSeq (-1)
    · simp [gate, present] at done
    have absent := present
    simp only [Bool.or_eq_true, not_or, Bool.not_eq_true] at absent
    cases owned : ownerCheck e.columns.scopeOwner with
    | false => simp [gate, absent, owned] at done
    | true =>
      simp only [gate, absent, owned, Option.getD_none, Bool.or_self, Bool.not_true,
        Bool.false_eq_true, if_false, EventTables.resolve, Bool.false_or] at done
      cases taken : log.hasSeq (log.lastSeq + 1) with
      | true => simp [taken] at done
      | false =>
        simp only [taken, Bool.false_eq_true, if_false, Except.ok.injEq] at done
        exact ⟨gate, absent.1, taken, done.symm⟩

structure Appendable (P : Platform) (e : MemEvent) (log : EventTables) : Prop where
  admitted : log.quotaGate P e.columns = none
  unused : log.hasId e.id = false
  owned : ownerCheck e.scope.owner = true
  seqs : ∀ row ∈ log.events, 0 ≤ row.seq ∧ row.seq ≤ log.lastSeq

theorem appendTx_of_appendable {e : MemEvent} {log : EventTables} (ready : Appendable P e log) :
    appendTx P e log = .ok (log.store P (log.lastSeq + 1) e.columns) := by
  have noPlaceholder : log.hasSeq (-1) = false := by
    rw [Bool.eq_false_iff, ne_eq, EventTables.hasSeq, List.any_eq_true]
    rintro ⟨row, member, same⟩
    have low := (ready.seqs row member).1
    simp only [beq_iff_eq] at same
    omega
  have free : log.hasSeq (log.lastSeq + 1) = false := by
    rw [Bool.eq_false_iff, ne_eq, EventTables.hasSeq, List.any_eq_true]
    rintro ⟨row, member, same⟩
    have high := (ready.seqs row member).2
    simp only [beq_iff_eq] at same
    omega
  have owned : ownerCheck e.columns.scopeOwner = true := ready.owned
  have unused : log.hasId e.columns.id = false := ready.unused
  simp [appendTx, EventTables.insert, ready.admitted, unused, noPlaceholder, owned,
    EventTables.resolve, free]

namespace Appended
variable {e : MemEvent} {log log' : EventTables}

section
variable (appended : Appended P e log log')
include appended

theorem events :
    log'.events = log.events ++ [EventRow.mk e.columns (log.lastSeq + 1)] := by
  rw [appended.stored]; rfl

theorem subset : ∀ row ∈ log.events, row ∈ log'.events := by
  intro row member
  rw [appended.events]
  exact List.mem_append_left _ member

theorem present :
    EventRow.mk e.columns (log.lastSeq + 1) ∈ log'.events := by
  rw [appended.events]
  exact List.mem_append_right _ (List.mem_singleton_self _)

theorem lastSeq : log'.lastSeq = log.lastSeq + 1 := by
  rw [appended.stored]
  show max log.lastSeq (log.lastSeq + 1) = log.lastSeq + 1
  omega

end

end Appended

/-- Rows stand in the order of their `seq`, all of them given out already. -/
structure Sequenced (log : EventTables) : Prop where
  ascending : log.events.Pairwise fun a b => a.seq < b.seq
  issued : ∀ row ∈ log.events, row.seq ≤ log.lastSeq
  nonneg : 0 ≤ log.lastSeq

theorem Sequenced.append {e : MemEvent} {log log' : EventTables} (sequenced : Sequenced log) (appended : Appended P e log log') :
    Sequenced log' where
  ascending := by
    rw [appended.events, List.pairwise_append]
    refine ⟨sequenced.ascending, List.pairwise_singleton _ _, fun old member new single => ?_⟩
    have issued := sequenced.issued old member
    rw [List.mem_singleton.mp single]
    show old.seq < log.lastSeq + 1
    omega
  issued := by
    intro row member
    rw [appended.events, List.mem_append, List.mem_singleton] at member
    rw [appended.lastSeq]
    rcases member with old | rfl
    · have issued := sequenced.issued row old
      omega
    · exact le_refl _
  nonneg := by
    have nonneg := sequenced.nonneg
    rw [appended.lastSeq]
    omega

namespace MemoryDb

theorem insertTx_ok {a : Assertion} {db db' : MemoryDb} (done : db.insertTx P a = .ok db') :
    (∀ row ∈ db.assertions, row.id ≠ a.id) ∧
      db' = { db with
        assertions := db.assertions ++ [⟨a, a.scope.owner⟩]
        fts := db.fts ++ [ftsRow P a.id a.scope.owner a.subject a.predicate a.object.render] } := by
  simp only [insertTx] at done
  split at done
  · cases done
  split at done
  · cases done
  · next free =>
    exact ⟨by simpa using free, (Except.ok.inj done).symm⟩

theorem find_some {db : MemoryDb} {id : String} {row : AssertionRow} (found : db.find id = some row) :
    row ∈ db.assertions ∧ row.id = id :=
  ⟨List.mem_of_find?_eq_some found, by simpa using List.find?_some found⟩

theorem find_none {db : MemoryDb} {id : String} (missing : db.find id = none) :
    ∀ row ∈ db.assertions, row.id ≠ id := by
  simpa [find] using missing

/-- What a successful `forget` did: nothing, or one belief closed and one retraction appended. -/
inductive Forgot (P : Platform) (owner id recordedAt : String) (db : MemoryDb) :
    Forget → MemoryDb → Prop where
  | already (closed : db.assertions.any (isOpenRow id owner) = false)
      (stored : (db.assertions.any fun row => row.id == id && row.scopeOwner == owner) = true) :
      Forgot P owner id recordedAt db .alreadyForgotten db
  | notFound (closed : db.assertions.any (isOpenRow id owner) = false)
      (missing : (db.assertions.any fun row => row.id == id && row.scopeOwner == owner) = false) :
      Forgot P owner id recordedAt db .notFound db
  | forgotten (log : EventTables) (current : db.assertions.any (isOpenRow id owner) = true)
      (appended : Appended P (retractEvent owner id recordedAt
        (Text.fresh (retractIds db.log (retractBase P owner id))
          (Text.suffixed (retractBase P owner id)))) db.log log) :
      Forgot P owner id recordedAt db .forgotten { db.closeOpen id owner recordedAt with log := log }

theorem forget_cases {disk : Option DiskSample} {owner id recordedAt : String} {db db' : MemoryDb}
    {outcome : Forget} (done : db.forget P disk owner id recordedAt = .ok (outcome, db')) :
    Forgot P owner id recordedAt db outcome db' := by
  simp only [forget] at done
  split at done
  · cases done
  cases current : db.assertions.any (isOpenRow id owner) with
  | false =>
    simp only [current, Bool.not_false, if_true] at done
    split at done
    · next stored =>
      obtain ⟨rfl, rfl⟩ := Prod.mk.inj (Except.ok.inj done)
      exact .already current stored
    · next missing =>
      obtain ⟨rfl, rfl⟩ := Prod.mk.inj (Except.ok.inj done)
      exact .notFound current (by simpa using missing)
  | true =>
    simp only [current, Bool.not_true, Bool.false_eq_true, if_false] at done
    split at done
    · split at done <;> cases done
    · cases done
    next log appended =>
    obtain ⟨rfl, rfl⟩ := Prod.mk.inj (Except.ok.inj done)
    exact .forgotten log current (appendTx_ok appended)

end MemoryDb

namespace WriteGate

inductive Accepted (P : Platform) (reads : Reads) (c : Candidate) (db : MemoryDb) :
    WriteDecision → MemoryDb → Prop where
  | rejectedUnowned (reason : String) (decided : policy c = .reject reason)
      (blank : isBlank c.scope.owner = true) : Accepted P reads c db (.rejected c.id reason) db
  | rejected (reason : String) (decided : policy c = .reject reason) (log : EventTables)
      (appended : Appended P (auditEvent P reads.audited c "reject" (some reason)) db.log log) :
      Accepted P reads c db (.rejected c.id reason) { db with log := log }
  | paused (decided : policy c = .commit) (off : memoryEnabled P db c.scope.owner = false) :
      Accepted P reads c db (.skippedPaused c.id) db
  | inserted (qualified : Bool) (decided : policy c = if qualified then .commit else .hold)
      (unused : ∀ row ∈ db.assertions, row.id ≠ c.id) (log : EventTables)
      (appended : Appended P
        (auditEvent P reads.audited c (if qualified then "commit" else "hold") none) db.log log) :
      Accepted P reads c db (if qualified then .committed c.id else .held c.id)
        { db with
          log := log
          assertions := db.assertions ++ [⟨toAssertion reads.created c qualified, c.scope.owner⟩]
          fts := db.fts ++
            [ftsRow P c.id c.scope.owner c.subject c.predicate c.object.render] }
  | reused (decided : policy c = .commit) (remember : isRemember c "commit" = true)
      (row : AssertionRow) (found : db.find c.id = some row)
      (current : matching reads.now c row = true) (audited : auditedCurrent P db.log c row = true) :
      Accepted P reads c db (.committed c.id) (tightenSourceRef c row db)
  | reactivated (decided : policy c = .commit) (remember : isRemember c "commit" = true)
      (room : diskRefuses .content reads.disk = false)
      (enabled : memoryEnabled P db c.scope.owner = true)
      (row : AssertionRow) (found : db.find c.id = some row)
      (same : contentMatches c row = true) (closed : row.recordedTo ≠ none)
      (audited log : EventTables)
      (audit : ensureAudit P (auditEvent P reads.audited c "commit" none) c db.log = .ok audited)
      (appended : Appended P (reassertEvent P reads.now c audited) audited log) :
      Accepted P reads c db (.committed c.id)
        { db with
          log := log
          assertions := rewriteKey AssertionRow.key c.id (reopen c) db.assertions }

theorem insertAudited_ok {assertion : Assertion} {audit : MemEvent} {db db' : MemoryDb}
    {status : CommitStatus} (done : insertAudited P assertion audit db = .ok (status, db')) :
    status = .committed ∧ (∀ row ∈ db.assertions, row.id ≠ assertion.id) ∧
      ∃ log, Appended P audit db.log log ∧ db' = { db with
        log := log
        assertions := db.assertions ++ [⟨assertion, assertion.scope.owner⟩]
        fts := db.fts ++ [ftsRow P assertion.id assertion.scope.owner assertion.subject
          assertion.predicate assertion.object.render] } := by
  obtain ⟨inserted, first, done⟩ := bind_ok done
  obtain ⟨log, second, done⟩ := bind_ok done
  obtain ⟨rfl, rfl⟩ := Prod.mk.inj (Except.ok.inj done)
  obtain ⟨unused, rfl⟩ := MemoryDb.insertTx_ok first
  exact ⟨rfl, unused, log, appendTx_ok second, rfl⟩

theorem proposeOne_cases {reads : Reads} {c : Candidate} {db db' : MemoryDb}
    {decision : WriteDecision} (done : proposeOne P reads c db = .ok (decision, db')) :
    Accepted P reads c db decision db' := by
  unfold proposeOne at done
  cases decided : policy c with
  | reject reason =>
    simp only [decided] at done
    obtain ⟨final, audit, same⟩ := map_ok done
    obtain ⟨rfl, rfl⟩ := Prod.mk.inj same
    simp only [auditReject] at audit
    split at audit
    · next blank =>
      obtain rfl := Except.ok.inj audit
      exact .rejectedUnowned reason decided blank
    · split at audit
      · cases audit
      split at audit
      · cases audit
      next log appended =>
      obtain rfl := Except.ok.inj audit
      exact .rejected reason decided log (appendTx_ok appended)
  | hold =>
    simp only [decided] at done
    obtain ⟨⟨status, final⟩, commit, same⟩ := map_ok done
    obtain ⟨rfl, rfl⟩ := Prod.mk.inj same
    simp only [commitWithAudit] at commit
    split at commit
    · cases commit
    have ordinary : isRemember c "hold" = false := by simp [isRemember]
    obtain ⟨-, unused, log, appended, rfl⟩ := insertAudited_ok commit
    exact .inserted false decided unused log appended
  | commit =>
    simp only [decided] at done
    obtain ⟨⟨status, final⟩, commit, same⟩ := map_ok done
    obtain ⟨rfl, rfl⟩ := Prod.mk.inj same
    simp only [commitWithAudit] at commit
    split at commit
    · cases commit
    rename_i room
    cases remember : isRemember c "commit" with
    | false =>
      simp only [remember, Bool.false_eq_true, if_false] at commit
      obtain ⟨rfl, unused, log, appended, rfl⟩ := insertAudited_ok commit
      exact .inserted true decided unused log appended
    | true =>
      simp only [remember, if_true] at commit
      split at commit
      · next off =>
        obtain ⟨rfl, rfl⟩ := Prod.mk.inj (Except.ok.inj commit)
        exact .paused decided (by simpa using off)
      next enabled =>
        split at commit
        · next row found =>
          simp only [recommit] at commit
          split at commit
          · next both =>
            obtain ⟨rfl, rfl⟩ := Prod.mk.inj (Except.ok.inj commit)
            rw [Bool.and_eq_true] at both
            exact .reused decided remember row found both.1 both.2
          · split at commit
            · next both =>
              rw [Bool.and_eq_true, bne_iff_ne] at both
              obtain ⟨audited, audit, commit⟩ := bind_ok commit
              obtain ⟨log, appended, commit⟩ := bind_ok commit
              obtain ⟨rfl, rfl⟩ := Prod.mk.inj (Except.ok.inj commit)
              exact .reactivated decided remember (by simpa using room) (by simpa using enabled) row
                found both.1 both.2 audited log audit (appendTx_ok appended)
            · cases commit
        · obtain ⟨rfl, unused, log, appended, rfl⟩ := insertAudited_ok commit
          exact .inserted true decided unused log appended

theorem auditBody_set (c : Candidate) (verdict : String) (reason : Option String)
    (trust trust' : String) (remember remember' : Bool) :
    ((auditBody c verdict reason trust remember).set "trust" (.str trust')).set "explicit_remember"
      (.bool remember') = auditBody c verdict reason trust' remember' := rfl

theorem ensureAudit_cases {audit : MemEvent} {c : Candidate} {log log' : EventTables}
    (done : ensureAudit P audit c log = .ok log') :
    (log' = log ∧ ∃ stored ∈ log.events, stored.id = audit.id ∧
        matchesCommitAudit P stored c.scope audit = true) ∨ Appended P audit log log' := by
  simp only [ensureAudit] at done
  split at done
  · next stored found =>
    split at done
    · next authorised =>
      obtain ⟨member, named⟩ := EventTables.byId_some found
      exact .inl ⟨(Except.ok.inj done).symm, stored, member, named, authorised⟩
    · cases done
  · exact .inr (appendTx_ok done)

end WriteGate
end
end Agent24.Memory
