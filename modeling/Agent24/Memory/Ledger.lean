import Agent24.Memory.Effects
import Agent24.Memory.Usage

/-! Runs of ledger operations, and the rules that carry an invariant through them. -/

set_option autoImplicit false
namespace Agent24.Memory
open Library

inductive LedgerOp where
  | assertFact (disk : Option DiskSample) (a : Assertion)
  | retract (disk : Option DiskSample) (id owner recordedAt : String)
  | forget (disk : Option DiskSample) (owner id recordedAt : String)
  | propose (batch : List (Reads × Candidate))
  /-- The host sets the switch, the quotas and the partition catalog. -/
  | configure (settings : String → Option Payload) (quota : String → Option QuotaRow)
      (partitions : String → Option SpaceKind)

namespace LedgerOp
variable (P : Platform)

/-- The database after an operation; a failed transaction leaves it as it was. -/
def apply (db : MemoryDb) : LedgerOp → MemoryDb
  | .assertFact disk a =>
    match db.assertFact P disk a with
    | .ok (_, db') => db'
    | .error _ => db
  | .retract disk id owner recordedAt =>
    match db.retract disk id owner recordedAt with
    | .ok (_, db') => db'
    | .error _ => db
  | .forget disk owner id recordedAt =>
    match db.forget P disk owner id recordedAt with
    | .ok (_, db') => db'
    | .error _ => db
  | .propose batch => (WriteGate.propose P batch db).1
  | .configure settings quota partitions =>
    { db with settings := settings, log := { db.log with quota := quota, partitions := partitions } }

/-- The operations of the gate: what `propose`, `forget` and the host's configuration do. -/
def isGated : LedgerOp → Prop
  | .forget .. | .propose _ | .configure .. => True
  | .assertFact .. | .retract .. => False

end LedgerOp

namespace MemoryDb

def fresh (partitions : String → Option SpaceKind) (settings : String → Option Payload) : MemoryDb where
  log := (History.empty partitions).migrated
  assertions := []
  fts := []
  settings := settings

def after (P : Platform) (db : MemoryDb) (ops : List LedgerOp) : MemoryDb := run (LedgerOp.apply P) ops db

/-- The primary key of `mem_assertions`. -/
def Distinct (db : MemoryDb) : Prop := (db.assertions.map AssertionRow.key).Nodup

@[simp] theorem closeOpen_log (id owner recordedAt : String) (db : MemoryDb) :
    (db.closeOpen id owner recordedAt).log = db.log := rfl

theorem closeOpen_keys (id owner recordedAt : String) (db : MemoryDb) :
    (db.closeOpen id owner recordedAt).assertions.map AssertionRow.key =
      db.assertions.map AssertionRow.key := by
  simp only [closeOpen, List.map_map]
  refine List.map_congr_left fun row _ => ?_
  simp only [Function.comp]
  split <;> rfl

theorem Distinct.closeOpen {db : MemoryDb} (distinct : db.Distinct) (id owner recordedAt : String) :
    (db.closeOpen id owner recordedAt).Distinct := by
  rw [Distinct, closeOpen_keys]
  exact distinct

theorem Distinct.insert {db db' : MemoryDb} (distinct : db.Distinct) {row : AssertionRow}
    (rows : db'.assertions = db.assertions ++ [row]) (unused : ∀ old ∈ db.assertions, old.id ≠ row.id) :
    db'.Distinct := by
  simp only [Distinct, rows, List.map_append, List.map_cons, List.map_nil, List.nodup_append,
    List.nodup_singleton, true_and, List.mem_map, List.mem_singleton]
  refine ⟨distinct, ?_⟩
  rintro _ ⟨old, member, rfl⟩ _ rfl
  exact unused old member

theorem Distinct.rewrite {db db' : MemoryDb} (distinct : db.Distinct) {id : String}
    (edit : AssertionRow → AssertionRow) (keeps : ∀ row, (edit row).key = row.key)
    (rows : db'.assertions = rewriteKey AssertionRow.key id edit db.assertions) : db'.Distinct := by
  rw [Distinct, rows, rewriteKey_map edit keeps]
  exact distinct

theorem Distinct.find_of_mem {db : MemoryDb} (distinct : db.Distinct) {row : AssertionRow}
    (member : row ∈ db.assertions) : db.find row.id = some row := by
  cases found : db.find row.id with
  | none => exact absurd rfl (find_none found row member)
  | some other =>
    obtain ⟨inside, same⟩ := find_some found
    rw [List.inj_on_of_nodup_map distinct inside member same]

end MemoryDb

namespace WriteGate
variable {P : Platform}

theorem propose_invariant {batch : List (Reads × Candidate)} {invariant : MemoryDb → Prop}
    (keeps : ∀ reads c, (reads, c) ∈ batch → ∀ db decision db', invariant db →
      Accepted P reads c db decision db' → invariant db')
    {db : MemoryDb} (holds : invariant db) : invariant (propose P batch db).1 := by
  induction batch generalizing db with
  | nil => exact holds
  | cons item rest ih =>
    obtain ⟨reads, c⟩ := item
    simp only [propose]
    cases done : proposeOne P reads c db with
    | error error => exact holds
    | ok accepted =>
      obtain ⟨decision, db'⟩ := accepted
      exact ih (fun reads c member => keeps reads c (List.mem_cons_of_mem _ member))
        (keeps reads c (List.mem_cons_self ..) db decision db' holds (proposeOne_cases done))

theorem tightenSourceRef_rows (c : Candidate) (row : AssertionRow) (db : MemoryDb) :
    (tightenSourceRef c row db).assertions = db.assertions ∨
      (tightenSourceRef c row db).assertions =
        rewriteKey AssertionRow.key c.id (withSourceRef c.sourceRef) db.assertions := by
  unfold tightenSourceRef
  dsimp only
  split
  · exact .inr rfl
  · exact .inl rfl

@[simp] theorem tightenSourceRef_log (c : Candidate) (row : AssertionRow) (db : MemoryDb) :
    (tightenSourceRef c row db).log = db.log := by
  unfold tightenSourceRef
  dsimp only
  split <;> rfl

@[simp] theorem tightenSourceRef_settings (c : Candidate) (row : AssertionRow) (db : MemoryDb) :
    (tightenSourceRef c row db).settings = db.settings := by
  unfold tightenSourceRef
  dsimp only
  split <;> rfl

theorem tightenSourceRef_mem {c : Candidate} {found row : AssertionRow} {db : MemoryDb}
    (member : row ∈ (tightenSourceRef c found db).assertions) :
    ∃ old ∈ db.assertions, row = withSourceRef row.sourceRef old := by
  rcases tightenSourceRef_rows c found db with same | rows
  · exact ⟨row, same ▸ member, rfl⟩
  rw [rows] at member
  obtain ⟨old, present, rfl⟩ := List.mem_map.mp member
  refine ⟨old, present, ?_⟩
  split <;> rfl

theorem mem_tightenSourceRef {c : Candidate} {found old : AssertionRow} {db : MemoryDb}
    (member : old ∈ db.assertions) :
    ∃ sourceRef, withSourceRef sourceRef old ∈ (tightenSourceRef c found db).assertions := by
  rcases tightenSourceRef_rows c found db with same | rows
  · exact ⟨old.sourceRef, by rw [same]; exact member⟩
  rw [rows]
  by_cases hit : old.key = c.id
  · exact ⟨c.sourceRef, List.mem_map.mpr ⟨old, member, if_pos hit⟩⟩
  · exact ⟨old.sourceRef, List.mem_map.mpr ⟨old, member, if_neg hit⟩⟩

theorem tightenSourceRef_distinct {c : Candidate} {row : AssertionRow} {db : MemoryDb}
    (distinct : db.Distinct) : (tightenSourceRef c row db).Distinct := by
  rcases tightenSourceRef_rows c row db with same | rows
  · rw [MemoryDb.Distinct, same]
    exact distinct
  · exact distinct.rewrite (withSourceRef c.sourceRef) (fun _ => rfl) rows

theorem Accepted.distinct {reads : Reads} {c : Candidate} {db db' : MemoryDb}
    {decision : WriteDecision} (accepted : Accepted P reads c db decision db')
    (distinct : db.Distinct) : db'.Distinct := by
  cases accepted with
  | rejectedUnowned => exact distinct
  | rejected => exact distinct
  | paused => exact distinct
  | inserted qualified decided unused =>
    refine distinct.insert rfl ?_
    exact unused
  | reused => exact tightenSourceRef_distinct distinct
  | reactivated =>
    exact distinct.rewrite (reopen c) (fun _ => rfl) rfl

end WriteGate

namespace LedgerOp
variable {P : Platform}
open MemoryDb WriteGate

theorem assertFact_ok {disk : Option DiskSample} {a : Assertion} {db db' : MemoryDb} {id : String}
    (done : db.assertFact P disk a = .ok (id, db')) :
    ∃ before, (before = db ∨ ∃ old, before = db.closeOpen old a.scope.owner a.recordedFrom) ∧
      (∀ row ∈ before.assertions, row.id ≠ a.id) ∧
      db'.assertions = before.assertions ++ [⟨a, a.scope.owner⟩] ∧ db'.log = db.log := by
  simp only [MemoryDb.assertFact] at done
  split at done
  · cases done
  split at done
  · cases done
  next inserted stored =>
  obtain ⟨-, rfl⟩ := Prod.mk.inj (Except.ok.inj done)
  obtain ⟨unused, rfl⟩ := insertTx_ok stored
  refine ⟨_, ?_, unused, rfl, ?_⟩
  · cases a.supersedes with
    | none => exact .inl rfl
    | some old => exact .inr ⟨old, rfl⟩
  · cases a.supersedes <;> rfl

theorem apply_distinct {db : MemoryDb} (distinct : db.Distinct) (op : LedgerOp) :
    (op.apply P db).Distinct := by
  cases op with
  | assertFact disk a =>
    simp only [apply]
    cases done : db.assertFact P disk a with
    | error error => exact distinct
    | ok result =>
      obtain ⟨before, source, unused, rows, -⟩ := assertFact_ok done
      have kept : before.Distinct := by
        rcases source with rfl | ⟨old, rfl⟩
        · exact distinct
        · exact distinct.closeOpen ..
      exact kept.insert rows unused
  | retract =>
    simp only [apply, MemoryDb.retract]
    split
    · next done =>
      split at done
      · cases done
      · obtain ⟨-, rfl⟩ := Prod.mk.inj (Except.ok.inj done)
        exact distinct.closeOpen ..
    · exact distinct
  | forget disk owner id recordedAt =>
    simp only [apply]
    cases done : db.forget P disk owner id recordedAt with
    | error error => exact distinct
    | ok result =>
      obtain ⟨outcome, db'⟩ := result
      cases forget_cases done with
      | already => exact distinct
      | notFound => exact distinct
      | forgotten => exact distinct.closeOpen id owner recordedAt
  | propose batch =>
    exact propose_invariant (fun _ _ _ _ _ _ holds accepted => accepted.distinct holds) distinct
  | configure => exact distinct

end LedgerOp

/-! A statement of one user, with the digests its events take. -/

def sampleDigests : List (String × BitVec 256) :=
  [("commit|a1|user|lives_in|\"Paris\"|[\"e1\"]",
      0x1dc8767dcc6125183c6ca2e19d92a6423a651e2a7eb9d4dcdf5a515f464f4f50#256),
    ("commit|a1|user|lives_in|\"Paris\"|[\"e2\"]",
      0x0427aa3c30e89cbd60a6a66f7479fa128ccb01731f78252b375fd011f0e867fb#256),
    ("[\"retract\",\"alice\",\"a1\"]",
      0x67363b15ca55a345a998c452fd10aa5fd86e08d516a23f7d36410db5011fbfe0#256),
    ("2026-03-01T00:00:00Z|[\"e2\"]",
      0x181cc1a7c38e5197be802f4641d76c5c7ebdcbaefdab96490172cb504592213b#256),
    ("hold|m1|user|prefers|\"tea\"|[]",
      0x9af2f9bc06389b937f95cccbcc9b805812c70c5f83b7fca048ccb8d09c9b245a#256),
    ("commit|m1|user|prefers|\"tea\"|[]",
      0x6b6d3ca1194dbf83b0d07ce655a3cc68f7229e9ebba22b6ab238aadb3edc94ca#256)]

def samplePlatform : Platform := .ofDigests sampleDigests

def parisCandidate (evidence : String) : Candidate where
  id := "a1"
  scope := Scope.ofOwner "alice"
  subject := "user"
  predicate := "lives_in"
  object := .str "Paris"
  evidence := [evidence]
  sourceRef := none
  origin := ⟨"chat", .userSaid⟩
  explicitRemember := true

def teaCandidate : Candidate where
  id := "m1"
  scope := Scope.ofOwner "alice"
  subject := "user"
  predicate := "prefers"
  object := .str "tea"
  evidence := []
  sourceRef := none
  origin := ⟨"chat", .model⟩
  explicitRemember := false

/-- A call whose clock readings agree, on a volume without a gate. -/
def readsAt (time : String) : Reads := ⟨none, time, time, time⟩

def rememberedDb : MemoryDb :=
  (MemoryDb.fresh (fun _ => none) fun _ => none).after samplePlatform
    [.propose [(readsAt "2026-01-01T00:00:00Z", parisCandidate "e1")]]

def withdrawnDb : MemoryDb :=
  rememberedDb.after samplePlatform [.forget none "alice" "a1" "2026-02-01T00:00:00Z"]

end Agent24.Memory
