import Agent24.Memory.Ledger
import Mathlib.Algebra.Order.Field.Rat

/-! Full-text search over the ledger, and how its gate compares with the belief query. -/

set_option autoImplicit false
namespace Agent24.Memory
open Library

/-- The full-text engine: which index rows a match expression selects, and their ranks. -/
structure FtsEngine where
  isMatch : String → FtsRow → Bool
  bm25 : List FtsRow → String → FtsRow → ℚ

structure SearchHit where
  assertion : Assertion
  score : ℚ
  deriving DecidableEq

structure SearchRow where
  row : AssertionRow
  score : ℚ

/-- The `WHERE` clause on the ledger side of the join. -/
def searchGate (owner : String) (row : AssertionRow) : Bool :=
  row.scopeOwner == owner && row.recordedTo == none && row.qualified

/-- `ORDER BY score DESC, a.id ASC`. -/
def searchOrder (a b : SearchRow) : Prop :=
  b.score < a.score ∨ a.score = b.score ∧ a.row.id ≤ b.row.id

instance : DecidableRel searchOrder := fun a b => by unfold searchOrder; infer_instance

section
variable (P : Platform) (engine : FtsEngine)

def searchRows (expression owner : String) (db : MemoryDb) : List SearchRow :=
  (db.fts.filter (engine.isMatch expression)).flatMap fun index =>
    (db.assertions.filter fun row => row.id == index.id && searchGate owner row).map fun row =>
      ⟨row, -(engine.bm25 db.fts expression index)⟩

def searchMode (query owner : String) (limit : Nat) (joiner : String) (db : MemoryDb) :
    List SearchHit :=
  match toMatchQueryWith P query joiner with
  | none => []
  | some expression =>
    (((searchRows engine expression owner db).insertionSort searchOrder).take limit).map fun found =>
      ⟨found.row.toAssertion, found.score⟩

/-- `Retriever::search`: every term must match. -/
def search (query owner : String) (limit : Nat) (db : MemoryDb) : List SearchHit :=
  searchMode P engine query owner limit " " db

def searchAny (query owner : String) (limit : Nat) (db : MemoryDb) : List SearchHit :=
  searchMode P engine query owner limit " OR " db

/-- `BeliefQuery::owner`. -/
def BeliefQuery.ofOwner (owner : String) : BeliefQuery := ⟨owner, none, none, none, false⟩

variable {P engine}

theorem mem_searchMode {query owner joiner : String} {limit : Nat} {db : MemoryDb} {hit : SearchHit}
    (found : hit ∈ searchMode P engine query owner limit joiner db) :
    ∃ row ∈ db.assertions, row.toAssertion = hit.assertion ∧ searchGate owner row = true := by
  unfold searchMode at found
  split at found
  · cases found
  obtain ⟨joined, listed, rfl⟩ := List.mem_map.mp found
  have kept := (List.mem_insertionSort _).mp (List.mem_of_mem_take listed)
  obtain ⟨index, -, inside⟩ := List.mem_flatMap.mp kept
  obtain ⟨row, member, rfl⟩ := List.mem_map.mp inside
  have gated := (List.mem_filter.mp member).2
  rw [Bool.and_eq_true] at gated
  exact ⟨row, List.mem_of_mem_filter member, rfl, gated.2⟩

/-- The belief query at one moment asks of a gated row its valid interval and its first recording. -/
theorem holds_iff_of_gate {owner now : String} {row : AssertionRow}
    (gated : searchGate owner row = true) :
    (BeliefQuery.ofOwner owner).holds now now row = true ↔
      row.validFrom ≤ now ∧ (∀ stop, row.validTo = some stop → now < stop) ∧ row.recordedFrom ≤ now := by
  simp only [searchGate, Bool.and_eq_true, beq_iff_eq] at gated
  obtain ⟨⟨owned, current⟩, qualified⟩ := gated
  simp [BeliefQuery.holds, BeliefQuery.ofOwner, owned, current, qualified, Option.all_eq_true,
    and_assoc]

/-- Both searches surface current, qualified assertions of the owner; such a hit is a belief of a moment exactly in
its valid interval. -/
theorem search_hits_gated (P : Platform) (engine : FtsEngine) (query owner now : String) (limit : Nat)
    (joiner : String) (db : MemoryDb) :
    ∀ hit ∈ searchMode P engine query owner limit joiner db,
      (∃ row ∈ db.assertions, row.toAssertion = hit.assertion ∧ row.scopeOwner = owner) ∧
      hit.assertion.recordedTo = none ∧ hit.assertion.qualified = true ∧
      (hit.assertion ∈ db.beliefsAsOf now (.ofOwner owner) ↔
        hit.assertion.validFrom ≤ now ∧ (∀ stop, hit.assertion.validTo = some stop → now < stop) ∧
          hit.assertion.recordedFrom ≤ now) := by
  intro hit found
  obtain ⟨row, member, same, gated⟩ := mem_searchMode found
  have parts := gated
  simp only [searchGate, Bool.and_eq_true, beq_iff_eq] at parts
  obtain ⟨⟨owned, current⟩, qualified⟩ := parts
  refine ⟨⟨row, member, same, owned⟩, same ▸ current, same ▸ qualified, ?_⟩
  rw [mem_beliefsAsOf, ← same]
  constructor
  · rintro ⟨other, -, equal, holds⟩
    have otherGated : searchGate owner other = true := by
      have otherOwned : other.scopeOwner = owner := by
        simp only [BeliefQuery.holds, BeliefQuery.ofOwner, Bool.and_eq_true, beq_iff_eq] at holds
        exact holds.1.1.1.1
      simp only [searchGate, Bool.and_eq_true, beq_iff_eq]
      exact ⟨⟨otherOwned, equal ▸ current⟩, equal ▸ qualified⟩
    have asked := (holds_iff_of_gate otherGated).mp holds
    rwa [equal] at asked
  · intro asked
    exact ⟨row, member, rfl, (holds_iff_of_gate gated).mpr asked⟩

end

def sampleEngine : FtsEngine where
  isMatch expression index := expression == "\"paris\"" && index.object == "\"Paris\""
  bm25 _ _ _ := -1 / 1000000

def plannedMove : Assertion :=
  { Assertion.new "2026-06-01T00:00:00Z" "m1" (Scope.ofOwner "alice") "user" "lives_in" (.str "Paris")
      ["e1"] with validFrom := "2027-01-01T00:00:00Z" }

def plannedLedger : MemoryDb :=
  (MemoryDb.fresh (fun _ => none) fun _ => none).after samplePlatform [.assertFact none plannedMove]

theorem search_hits_gated_planned :
    let hit : SearchHit := ⟨plannedMove, 1 / 1000000⟩
    hit ∈ searchMode samplePlatform sampleEngine "paris" "alice" 10 " " plannedLedger ∧
      hit.assertion.recordedTo = none ∧ hit.assertion.qualified = true := by
  intro hit
  have surfaced : hit ∈ searchMode samplePlatform sampleEngine "paris" "alice" 10 " " plannedLedger := by
    decide +kernel
  have gated := search_hits_gated samplePlatform sampleEngine "paris" "alice" "2026-06-01T00:00:00Z" 10
    " " plannedLedger hit surfaced
  exact ⟨surfaced, gated.2.1, gated.2.2.1⟩

/-- The search surfaces the planned fact today, and the belief query does not. -/
theorem search_surfaces_planned :
    ¬ ∀ hit ∈ search samplePlatform sampleEngine "paris" "alice" 10
        ((MemoryDb.fresh (fun _ => none) fun _ => none).after samplePlatform
          [.assertFact none plannedMove]),
      hit.assertion ∈ ((MemoryDb.fresh (fun _ => none) fun _ => none).after samplePlatform
          [.assertFact none plannedMove]).beliefsAsOf "2026-06-01T00:00:00Z" (.ofOwner "alice") := by
  intro agree
  have surfaced : (⟨plannedMove, 1 / 1000000⟩ : SearchHit) ∈
      search samplePlatform sampleEngine "paris" "alice" 10
        ((MemoryDb.fresh (fun _ => none) fun _ => none).after samplePlatform
          [.assertFact none plannedMove]) := by decide +kernel
  have unknown : ((MemoryDb.fresh (fun _ => none) fun _ => none).after samplePlatform
      [.assertFact none plannedMove]).beliefsAsOf "2026-06-01T00:00:00Z" (.ofOwner "alice") = [] := by
    decide +kernel
  have believed := agree _ surfaced
  exact nomatch believed

section
open MemoryDb WriteGate
variable {P : Platform} {db db' : MemoryDb}

def AssertionRow.index (P : Platform) (row : AssertionRow) : FtsRow :=
  ftsRow P row.id row.scopeOwner row.subject row.predicate row.object.render

/-- `FtsRetriever::rebuild`: the index is cleared and written again from the ledger. -/
def rebuild (P : Platform) (db : MemoryDb) : MemoryDb :=
  { db with fts := (db.assertions.insertionSort fun a b => a.id ≤ b.id).map (AssertionRow.index P) }

/-- The index rows are those of the ledger's rows, one for each. -/
def Indexed (P : Platform) (db : MemoryDb) : Prop := db.fts.Perm (db.assertions.map (AssertionRow.index P))

theorem Indexed.edited (indexed : Indexed P db) (edit : AssertionRow → AssertionRow)
    (keeps : ∀ row, (edit row).index P = row.index P) (rows : db'.assertions = db.assertions.map edit)
    (same : db'.fts = db.fts) : Indexed P db' := by
  rw [Indexed, rows, same, List.map_map]
  exact indexed.trans (.of_eq (List.map_congr_left fun row _ => keeps row).symm)

theorem Indexed.closeOpen (indexed : Indexed P db) (id owner recordedAt : String) :
    Indexed P (db.closeOpen id owner recordedAt) :=
  indexed.edited _ (fun row => by split <;> rfl) rfl rfl

theorem Indexed.insert (indexed : Indexed P db) (row : AssertionRow) (rows : db'.assertions = db.assertions ++ [row])
    (index : db'.fts = db.fts ++ [row.index P]) : Indexed P db' := by
  rw [Indexed, rows, index, List.map_append, List.map_singleton]
  exact indexed.append_right _

theorem Indexed.rebuild (db : MemoryDb) : Indexed P (rebuild P db) := (List.perm_insertionSort _ _).map _

theorem Indexed.accepted (indexed : Indexed P db) {reads : Reads} {c : Candidate} {decision : WriteDecision}
    (accepted : Accepted P reads c db decision db') : Indexed P db' := by
  cases accepted with
  | rejectedUnowned | rejected | paused => exact indexed
  | inserted qualified => exact indexed.insert ⟨toAssertion reads.created c qualified, c.scope.owner⟩ rfl rfl
  | reused =>
    unfold tightenSourceRef
    dsimp only
    split
    · exact indexed.edited _ (fun row => by split <;> rfl) rfl rfl
    · exact indexed
  | reactivated => exact indexed.edited _ (fun row => by split <;> rfl) rfl rfl

theorem Indexed.apply (indexed : Indexed P db) (op : LedgerOp) : Indexed P (op.apply P db) := by
  cases op with
  | assertFact disk a =>
    simp only [LedgerOp.apply, assertFact]
    split
    · next done =>
      split at done
      · cases done
      split at done
      · cases done
      next stored =>
      obtain ⟨-, rfl⟩ := Prod.mk.inj (Except.ok.inj done)
      obtain ⟨-, rfl⟩ := insertTx_ok stored
      cases a.supersedes with
      | none => exact indexed.insert ⟨a, a.scope.owner⟩ rfl rfl
      | some old => exact (indexed.closeOpen ..).insert ⟨a, a.scope.owner⟩ rfl rfl
    · exact indexed
  | retract =>
    simp only [LedgerOp.apply, retract]
    split
    · next done =>
      split at done
      · cases done
      · obtain ⟨-, rfl⟩ := Prod.mk.inj (Except.ok.inj done)
        exact indexed.closeOpen ..
    · exact indexed
  | forget disk owner id recordedAt =>
    simp only [LedgerOp.apply]
    split
    · next done =>
      cases forget_cases done with
      | already | notFound => exact indexed
      | forgotten => exact indexed.closeOpen id owner recordedAt
    · exact indexed
  | propose batch => exact propose_invariant (fun _ _ _ _ _ _ holds => holds.accepted) indexed
  | configure => exact indexed

variable {engine : FtsEngine} {expression owner : String}

/-- The ledger's current, qualified rows of the owner whose index row matches, with their ranks. -/
def matchingRows (P : Platform) (engine : FtsEngine) (expression owner : String) (db : MemoryDb) : List SearchRow :=
  (db.assertions.filter fun row => engine.isMatch expression (row.index P) && searchGate owner row).map fun row =>
    ⟨row, -(engine.bm25 db.fts expression (row.index P))⟩

/-- An index row's id joins it to the one row it was made of. -/
theorem join_index (distinct : db.Distinct) {row : AssertionRow} (member : row ∈ db.assertions) (owner : String) :
    db.assertions.filter (fun other => other.id == row.id && searchGate owner other) =
      if searchGate owner row then [row] else [] := by
  obtain ⟨front, back, whole⟩ := List.append_of_mem member
  simp only [Distinct, whole, List.map_append, List.map_cons, List.nodup_middle, List.nodup_cons, List.mem_append,
    List.mem_map, AssertionRow.key, not_or] at distinct
  have others (rows : List AssertionRow) (apart : ¬ ∃ other ∈ rows, other.id = row.id) :
      rows.filter (fun other => other.id == row.id && searchGate owner other) = [] :=
    List.filter_eq_nil_iff.mpr fun other inside => by
      simp [show other.id ≠ row.id from fun same => apart ⟨other, inside, same⟩]
  rw [whole, List.filter_append, others front distinct.1.1, List.filter_cons, others back distinct.1.2]
  simp

theorem Indexed.searchRows (indexed : Indexed P db) (distinct : db.Distinct) :
    (searchRows engine expression owner db).Perm (matchingRows P engine expression owner db) := by
  refine ((indexed.filter _).flatMap_right _).trans (.of_eq ?_)
  rw [List.filter_map, List.flatMap_map]
  suffices part : ∀ rows, rows ⊆ db.assertions →
      (rows.filter (engine.isMatch expression ∘ AssertionRow.index P)).flatMap (fun row =>
        (db.assertions.filter fun other => other.id == row.id && searchGate owner other).map fun other =>
          SearchRow.mk other (-(engine.bm25 db.fts expression (row.index P)))) =
      (rows.filter fun row => engine.isMatch expression (row.index P) && searchGate owner row).map fun row =>
        ⟨row, -(engine.bm25 db.fts expression (row.index P))⟩ from part _ (List.Subset.refl _)
  intro rows inside
  induction rows with
  | nil => rfl
  | cons row rest ih =>
    have joined := join_index distinct (inside (List.mem_cons_self ..)) owner
    have later := ih (List.subset_of_cons_subset inside)
    by_cases meets : engine.isMatch expression (row.index P) = true <;>
      by_cases gated : searchGate owner row = true <;>
      simp [meets, gated, joined, later]

/-- Rows of one score are in the order of their ids, so the order they were found in does not count. -/
theorem Indexed.sorted (indexed : Indexed P db) (distinct : db.Distinct) :
    (Memory.searchRows engine expression owner db).insertionSort searchOrder =
      (matchingRows P engine expression owner db).insertionSort searchOrder := by
  have perm : (Memory.searchRows engine expression owner db).Perm (matchingRows P engine expression owner db) :=
    indexed.searchRows distinct
  have total : Std.Total searchOrder := ⟨fun a b => by unfold searchOrder; grind⟩
  have trans : IsTrans _ searchOrder := ⟨fun a b c => by unfold searchOrder; grind⟩
  have listed (found : SearchRow) (member : found ∈ Memory.searchRows engine expression owner db) :
      found.row ∈ db.assertions ∧ found.score = -(engine.bm25 db.fts expression (found.row.index P)) := by
    obtain ⟨row, kept, rfl⟩ := List.mem_map.mp (perm.mem_iff.mp member)
    exact ⟨List.mem_of_mem_filter kept, rfl⟩
  refine List.Perm.eq_of_pairwise (fun a b first second less more => ?_) (List.pairwise_insertionSort _ _)
    (List.pairwise_insertionSort _ _) ((List.perm_insertionSort ..).trans
        (perm.trans (List.perm_insertionSort ..).symm))
  obtain ⟨here, scored⟩ := listed a ((List.mem_insertionSort _).mp first)
  obtain ⟨here', scored'⟩ := listed b (perm.mem_iff.mpr ((List.mem_insertionSort _).mp second))
  have ids : a.row.id = b.row.id := by unfold searchOrder at less more; grind
  have rows : a.row = b.row := List.inj_on_of_nodup_map distinct here here' ids
  rcases a with ⟨row, score⟩
  rcases b with ⟨row', score'⟩
  obtain rfl : row = row' := rows
  rw [show score = score' from scored.trans scored'.symm]

/-- What a search should give: the first of the ledger's matching rows. -/
def ledgerSearch (P : Platform) (engine : FtsEngine) (query owner : String) (limit : Nat) (joiner : String)
    (db : MemoryDb) : List SearchHit :=
  (toMatchQueryWith P query joiner).elim [] fun expression =>
    (((matchingRows P engine expression owner db).insertionSort searchOrder).take limit).map fun found =>
      ⟨found.row.toAssertion, found.score⟩

theorem Indexed.searchMode (indexed : Indexed P db) (distinct : db.Distinct) (query joiner : String) (limit : Nat) :
    searchMode P engine query owner limit joiner db = ledgerSearch P engine query owner limit joiner db := by
  unfold Memory.searchMode ledgerSearch
  cases toMatchQueryWith P query joiner with
  | none => rfl
  | some expression => simp only [indexed.sorted distinct, Option.elim_some]

inductive SearchOp where
  | ledger (op : LedgerOp)
  | rebuild

def SearchOp.apply (P : Platform) (db : MemoryDb) : SearchOp → MemoryDb
  | .ledger op => op.apply P db
  | .rebuild => Memory.rebuild P db

theorem SearchOp.apply_indexed (indexed : Indexed P db) (distinct : db.Distinct) (op : SearchOp) :
    Indexed P (op.apply P db) ∧ (op.apply P db).Distinct := by
  cases op with
  | ledger op => exact ⟨indexed.apply op, LedgerOp.apply_distinct distinct op⟩
  | rebuild => exact ⟨Indexed.rebuild db, distinct⟩

/-- After any operations and rebuilds a search answers as from the ledger alone, so the index may be built again at any
time where ranks do not depend on the order of its rows. -/
theorem search_by_ledger (P : Platform) (engine : FtsEngine) (query owner joiner : String) (limit : Nat)
    (partitions : String → Option SpaceKind) (settings : String → Option Payload) (ops : List SearchOp) :
    let db := run (SearchOp.apply P) ops (MemoryDb.fresh partitions settings)
    searchMode P engine query owner limit joiner db = ledgerSearch P engine query owner limit joiner db ∧
    ((∀ index other, index.Perm other → engine.bm25 index = engine.bm25 other) →
      searchMode P engine query owner limit joiner (rebuild P db) =
        searchMode P engine query owner limit joiner db) := by
  intro db
  have start : Indexed P (MemoryDb.fresh partitions settings) ∧ (MemoryDb.fresh partitions settings).Distinct :=
    ⟨List.Perm.nil, List.nodup_nil⟩
  have reached : Indexed P db ∧ db.Distinct :=
    run_invariant (SearchOp.apply P) (fun _ => True) (fun db => Indexed P db ∧ db.Distinct)
      (fun _ op _ holds => SearchOp.apply_indexed holds.1 holds.2 op) (fun _ _ => trivial) start
  refine ⟨reached.1.searchMode reached.2 .., fun steady => ?_⟩
  have ranks : engine.bm25 (rebuild P db).fts = engine.bm25 db.fts :=
    steady _ _ ((Indexed.rebuild db).trans reached.1.symm)
  rw [reached.1.searchMode reached.2, (Indexed.rebuild db).searchMode reached.2]
  simp only [ledgerSearch, matchingRows, ranks]
  rfl

end
end Agent24.Memory
