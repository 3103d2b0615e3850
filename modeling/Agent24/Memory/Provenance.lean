import Agent24.Memory.Ledger

/-! The classification stored with an assertion, over runs of the gate. -/

set_option autoImplicit false
namespace Agent24.Memory
open Library MemoryDb WriteGate AssertionSourceRef List

def AssertionRow.strictness (row : AssertionRow) : Nat := (classificationOf row.sourceRef).rank

section
variable (P : Platform) (id : String)

def acceptedClass (c : Candidate) : WriteDecision → List SourceClassification
  | .committed _ | .held _ => if c.id = id then [classificationOf c.sourceRef] else []
  | _ => []

def batchAccepted : List (Reads × Candidate) → MemoryDb → List SourceClassification
  | [], _ => []
  | (reads, c) :: rest, db =>
    match proposeOne P reads c db with
    | .error _ => []
    | .ok (decision, db') => acceptedClass id c decision ++ batchAccepted rest db'

def runAccepted : List LedgerOp → MemoryDb → List SourceClassification
  | [], _ => []
  | op :: rest, db =>
    (match op with
      | .propose batch => batchAccepted P id batch db
      | _ => []) ++ runAccepted rest (op.apply P db)

/-- The remember of a stored statement does not loosen it: a withdrawn row is met with a provenance at least as
strict, a current one with any. -/
structure KeepsStrictness (reads : Reads) (c : Candidate) (db : MemoryDb) : Prop where
  withdrawn : ∀ row, db.find c.id = some row → policy c = .commit → isRemember c "commit" = true →
    contentMatches c row = true → row.recordedTo ≠ none →
    row.strictness ≤ (classificationOf c.sourceRef).rank
  current : ∀ row, db.find c.id = some row → policy c = .commit → isRemember c "commit" = true →
    matching reads.now c row = true → auditedCurrent P db.log c row = true → c.sourceRef = none →
    classificationOf row.sourceRef ≠ .ordinary

def BatchKeepsStrictness : List (Reads × Candidate) → MemoryDb → Prop
  | [], _ => True
  | (reads, c) :: rest, db => KeepsStrictness P reads c db ∧
    ∀ decision db', proposeOne P reads c db = .ok (decision, db') → BatchKeepsStrictness rest db'

/-- A run of the gate whose remembers of stored statements do not loosen them. -/
def RunKeepsStrictness : List LedgerOp → MemoryDb → Prop
  | [], _ => True
  | op :: rest, db => op.isGated ∧
    (match op with
      | .propose batch => BatchKeepsStrictness P batch db
      | _ => True) ∧ RunKeepsStrictness rest (op.apply P db)

variable {P id}

structure AtLeast (id : String) (seen : List Nat) (db : MemoryDb) : Prop where
  distinct : db.Distinct
  strict : ∀ row ∈ db.assertions, row.id = id → ∀ rank ∈ seen, rank ≤ row.strictness
  stored : seen ≠ [] → ∃ row ∈ db.assertions, row.id = id

section
variable {seen : List Nat}

theorem AtLeast.of_rows {db db' : MemoryDb} (bound : AtLeast id seen db) (distinct : db'.Distinct)
    (back : ∀ row ∈ db'.assertions, ∃ old ∈ db.assertions, row.id = old.id ∧ row.sourceRef = old.sourceRef)
    (forth : ∀ old ∈ db.assertions, ∃ row ∈ db'.assertions, row.id = old.id) :
    AtLeast id seen db' := by
  refine ⟨distinct, fun row member named rank listed => ?_, fun any => ?_⟩
  · obtain ⟨old, present, same, kept⟩ := back row member
    rw [AssertionRow.strictness, kept]
    exact bound.strict old present (same.symm.trans named) rank listed
  · obtain ⟨old, present, named⟩ := bound.stored any
    obtain ⟨row, member, same⟩ := forth old present
    exact ⟨row, member, same.trans named⟩

theorem mem_rewriteKey {id : String} {edit : AssertionRow → AssertionRow}
    {rows : List AssertionRow} {later : AssertionRow}
    (member : later ∈ rewriteKey AssertionRow.key id edit rows) :
    (later ∈ rows ∧ later.id ≠ id) ∨ ∃ old ∈ rows, old.id = id ∧ later = edit old := by
  obtain ⟨old, present, rfl⟩ := mem_map.mp member
  by_cases hit : old.key = id
  · rw [if_pos hit]
    exact .inr ⟨old, present, hit, rfl⟩
  · rw [if_neg hit]
    exact .inl ⟨present, hit⟩

theorem AtLeast.rewrite {db db' : MemoryDb} {c : Candidate} {row : AssertionRow} (bound : AtLeast id seen db)
    (found : db.find c.id = some row) (edit : AssertionRow → AssertionRow)
    (keeps : ∀ old, (edit old).key = old.key)
    (rows : db'.assertions = rewriteKey AssertionRow.key c.id edit db.assertions) (more : List Nat)
    (elsewhere : c.id ≠ id → more = [])
    (stricter : c.id = id → row.strictness ≤ (edit row).strictness ∧ ∀ rank ∈ more, rank ≤ (edit row).strictness) :
    AtLeast id (seen ++ more) db' := by
  obtain ⟨member, named⟩ := find_some found
  refine ⟨bound.distinct.rewrite edit keeps rows, fun later inside sameId rank listed => ?_, fun any => ?_⟩
  · rw [rows] at inside
    rcases mem_rewriteKey inside with ⟨old, other⟩ | ⟨old, present, hit, rfl⟩
    · rw [elsewhere fun same => other (sameId.trans same.symm), append_nil] at listed
      exact bound.strict later old sameId rank listed
    have only : old = row := inj_on_of_nodup_map bound.distinct present member
      (hit.trans named.symm)
    subst only
    have here : c.id = id := hit.symm.trans ((keeps old).symm.trans sameId)
    obtain ⟨grown, covered⟩ := stricter here
    rcases mem_append.mp listed with early | late
    · exact (bound.strict old present (hit.trans here) rank early).trans grown
    · exact covered rank late
  · by_cases here : c.id = id
    · refine ⟨edit row, ?_, (keeps row).trans (named.trans here)⟩
      rw [rows]
      exact mem_map.mpr ⟨row, member, if_pos named⟩
    · have earlier : seen ≠ [] := by
        rintro rfl
        exact any (by rw [nil_append, elsewhere here])
      obtain ⟨old, present, sameId⟩ := bound.stored earlier
      refine ⟨old, ?_, sameId⟩
      rw [rows]
      exact mem_map.mpr ⟨old, present, if_neg fun hit => here (hit.symm.trans sameId)⟩

def acceptedRanks (id : String) (c : Candidate) (decision : WriteDecision) : List Nat :=
  (acceptedClass id c decision).map SourceClassification.rank

theorem acceptedRanks_committed (c : Candidate) (given : String) :
    acceptedRanks id c (.committed given) =
      if c.id = id then [(classificationOf c.sourceRef).rank] else [] := by
  simp only [acceptedRanks, acceptedClass]
  split <;> rfl

theorem tightenSourceRef_cases (c : Candidate) (row : AssertionRow) (db : MemoryDb) :
    (tightenSourceRef c row db = db ∧
        (c.sourceRef ≠ none → (classificationOf c.sourceRef).rank ≤ row.strictness)) ∨
      ((tightenSourceRef c row db).assertions =
          rewriteKey AssertionRow.key c.id (withSourceRef c.sourceRef) db.assertions ∧
        row.strictness ≤ (classificationOf c.sourceRef).rank) := by
  unfold tightenSourceRef
  cases proposed : c.sourceRef with
  | none => exact .inl ⟨by simp, fun absent => absurd rfl absent⟩
  | some value =>
    simp only [Option.any_some, bne_iff_ne, ne_eq, ite_not]
    have pair := strictest_pair_rank (classificationOf row.sourceRef) (classificationOf (some value))
    split
    · next keeps =>
      rw [keeps] at pair
      exact .inl ⟨rfl, fun _ => by simp only [AssertionRow.strictness]; omega⟩
    · next raises =>
      have moved : (strictestClassification
          [classificationOf row.sourceRef, classificationOf (some value)]).rank ≠
          (classificationOf row.sourceRef).rank :=
        fun same => raises (SourceClassification.rank_injective same)
      exact .inr ⟨rfl, by simp only [AssertionRow.strictness]; omega⟩

theorem Accepted.atLeast {reads : Reads} {c : Candidate} {db db' : MemoryDb} {decision : WriteDecision}
    (accepted : Accepted P reads c db decision db') (keeps : KeepsStrictness P reads c db)
    (bound : AtLeast id seen db) :
    AtLeast id (seen ++ acceptedRanks id c decision) db' := by
  have idle : ∀ other : MemoryDb, other.assertions = db.assertions → AtLeast id (seen ++ []) other := by
    intro other rows
    rw [append_nil]
    refine bound.of_rows (by rw [MemoryDb.Distinct, rows]; exact bound.distinct)
      (fun row member => ⟨row, rows ▸ member, rfl, rfl⟩) fun row member => ⟨row, rows ▸ member, rfl⟩
  cases accepted with
  | rejectedUnowned => exact idle _ rfl
  | rejected => exact idle _ rfl
  | paused => exact idle _ rfl
  | inserted qualified decided unused log appended =>
    have ranks : acceptedRanks id c (if qualified then .committed c.id else .held c.id) =
        if c.id = id then [(classificationOf c.sourceRef).rank] else [] := by
      cases qualified <;> simp only [acceptedRanks, acceptedClass, if_true, if_false,
        Bool.false_eq_true] <;> split <;> rfl
    rw [ranks]
    refine ⟨Accepted.distinct (.inserted qualified decided unused log appended) bound.distinct,
      fun row member named rank listed => ?_, fun any => ?_⟩
    · rcases mem_append.mp member with old | new
      · have other : c.id ≠ id := fun same => unused row old (named.trans same.symm)
        rw [if_neg other, append_nil] at listed
        exact bound.strict row old named rank listed
      · obtain rfl := mem_singleton.mp new
        have here : c.id = id := named
        -- nothing was accepted for the id before its first row
        have first : seen = [] := by
          by_contra earlier
          obtain ⟨old, present, same⟩ := bound.stored earlier
          exact unused old present (same.trans here.symm)
        rw [first, if_pos here, nil_append, mem_singleton] at listed
        exact le_of_eq listed
    · by_cases here : c.id = id
      · exact ⟨_, mem_append_right _ (mem_singleton_self _), here⟩
      rw [if_neg here, append_nil] at any
      obtain ⟨old, present, same⟩ := bound.stored any
      exact ⟨old, mem_append_left _ present, same⟩
  | reused decided remember row found current audited =>
    rw [acceptedRanks_committed]
    have stored : ∀ rank ∈ (if c.id = id then [(classificationOf c.sourceRef).rank] else []),
        rank = (classificationOf c.sourceRef).rank := by
      intro rank listed
      split at listed
      · exact mem_singleton.mp listed
      · cases listed
    rcases tightenSourceRef_cases c row db with ⟨same, laxer⟩ | ⟨rows, stricter⟩
    · rw [same]
      -- the row stays: it is as strict as the candidate, by its own or for want of a proposal
      have covers : (classificationOf c.sourceRef).rank ≤ row.strictness := by
        by_cases proposed : c.sourceRef = none
        · have strict := keeps.current row found decided remember current audited proposed
          rw [proposed, classificationOf_none, AssertionRow.strictness]
          cases kept : classificationOf row.sourceRef with
          | ordinary => exact absurd kept strict
          | restricted => decide
          | unknown => decide
        · exact laxer proposed
      have whole : rewriteKey AssertionRow.key c.id (fun old => old) db.assertions = db.assertions := by
        simp [rewriteKey]
      exact bound.rewrite found (fun old => old) (fun _ => rfl) whole.symm _ (fun other => if_neg other)
        fun _ => ⟨le_refl _, fun rank listed => (stored rank listed).le.trans covers⟩
    · exact bound.rewrite found (withSourceRef c.sourceRef) (fun _ => rfl) rows _
        (fun other => if_neg other)
        fun _ => ⟨stricter, fun rank listed => (stored rank listed).le⟩
  | reactivated decided remember room enabled row found same closed =>
    rw [acceptedRanks_committed]
    have stricter := keeps.withdrawn row found decided remember same closed
    refine bound.rewrite found (reopen c) (fun _ => rfl) rfl _ (fun other => if_neg other)
      fun here => ⟨stricter, fun rank listed => ?_⟩
    rw [if_pos here, mem_singleton] at listed
    exact listed.le

theorem propose_atLeast {batch : List (Reads × Candidate)} {db : MemoryDb} (bound : AtLeast id seen db)
    (keeps : BatchKeepsStrictness P batch db) :
    AtLeast id (seen ++ (batchAccepted P id batch db).map SourceClassification.rank)
      (propose P batch db).1 := by
  induction batch generalizing db seen with
  | nil => simpa [batchAccepted, propose] using bound
  | cons item rest ih =>
    obtain ⟨reads, c⟩ := item
    obtain ⟨here, later⟩ := keeps
    simp only [propose, batchAccepted]
    cases done : proposeOne P reads c db with
    | error error => simpa using bound
    | ok accepted =>
      obtain ⟨decision, db'⟩ := accepted
      have step := Accepted.atLeast (proposeOne_cases done) here bound
      have next := ih step (later decision db' done)
      rw [map_append, ← append_assoc]
      exact next

theorem run_atLeast {ops : List LedgerOp} {db : MemoryDb} (bound : AtLeast id seen db)
    (keeps : RunKeepsStrictness P ops db) :
    AtLeast id (seen ++ (runAccepted P id ops db).map SourceClassification.rank) (db.after P ops) := by
  induction ops generalizing db seen with
  | nil => simpa [runAccepted, MemoryDb.after] using bound
  | cons op rest ih =>
    obtain ⟨gated, here, later⟩ := keeps
    have step : AtLeast id (seen ++ (match op with
        | .propose batch => batchAccepted P id batch db
        | _ => []).map SourceClassification.rank) (op.apply P db) := by
      cases op with
      | propose batch => exact propose_atLeast bound here
      | forget disk owner given recordedAt =>
        rw [map_nil, append_nil]
        have distinct := LedgerOp.apply_distinct (P := P) bound.distinct
          (.forget disk owner given recordedAt)
        simp only [LedgerOp.apply] at distinct ⊢
        cases done : db.forget P disk owner given recordedAt with
        | error error => exact bound
        | ok result =>
          obtain ⟨outcome, db'⟩ := result
          simp only [done] at distinct ⊢
          cases forget_cases done with
          | already => exact bound
          | notFound => exact bound
          | forgotten =>
            refine bound.of_rows distinct (fun row member => ?_) fun old member => ?_
            · obtain ⟨old, present, rfl⟩ := mem_map.mp member
              refine ⟨old, present, ?_⟩
              split <;> exact ⟨rfl, rfl⟩
            · refine ⟨_, mem_map_of_mem member, ?_⟩
              split <;> rfl
      | configure =>
        rw [map_nil, append_nil]
        exact bound.of_rows bound.distinct (fun row member => ⟨row, member, rfl, rfl⟩)
          fun row member => ⟨row, member, rfl⟩
      | assertFact | retract => exact absurd gated (fun h => h)
    have whole := ih step later
    simp only [runAccepted, map_append, ← append_assoc] at whole ⊢
    exact whole

end

end

def parisFrom (classification : SourceClassification) (evidence : String) : Candidate :=
  { parisCandidate evidence with
    sourceRef := some (fromSources [("user_input:r1", classification)]).toValue }

def restrictedThen (classification : SourceClassification) : List LedgerOp :=
  [.propose [(readsAt "2026-01-01T00:00:00Z", parisFrom .restricted "e1")],
    .forget none "alice" "a1" "2026-02-01T00:00:00Z",
    .propose [(readsAt "2026-03-01T00:00:00Z", parisFrom classification "e2")]]

end Agent24.Memory
