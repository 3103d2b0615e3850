import Mathlib.Algebra.Ring.Nat
import Agent24.Platform
import Agent24.Library.First
import Agent24.Library.Runs
import Mathlib.Algebra.BigOperators.Group.List.Basic

/-! The audit of refused writes, limited in rate and in rows. -/

set_option autoImplicit false
namespace Agent24.Memory
open Library List

inductive OwnerKind where
  | personal | module
  deriving DecidableEq, Repr

inductive MemoryErrorCode where
  | quotaRows | quotaBytes | diskLow | diskFull | reservedKind | retractIdTooLong | internal
  deriving DecidableEq, Repr

def MemoryErrorCode.dimension : MemoryErrorCode → Option String
  | .quotaRows => some "rows"
  | .quotaBytes => some "bytes"
  | _ => none

structure Rejection where
  ownerKind : OwnerKind
  ownerKey : String
  code : MemoryErrorCode
  rejectedKind : Option String
  countAt : Option Int

structure RejectionRow where
  ownerKind : OwnerKind
  ownerId : String
  code : MemoryErrorCode
  dimension : Option String
  rejectedKind : Option String
  countAt : Option Int
  atEpoch : Int
  suppressedCount : Nat
  deriving DecidableEq

def MAX_REJECTION_ROWS : Nat := 1000
def RATE_LIMIT_SECS : Int := 60

structure RejectionRing where
  rows : List RejectionRow
  trimmed : List RejectionRow

def ownedBy (owner : String) (row : RejectionRow) : Bool := row.ownerId == owner

/-- The rows without those of an owner behind its newest `room`. -/
def trimOwner (owner : String) : Nat → List RejectionRow → List RejectionRow
  | _, [] => []
  | room, row :: rest =>
    if ownedBy owner row then
      match room with
      | 0 => trimOwner owner 0 rest
      | room + 1 => row :: trimOwner owner room rest
    else row :: trimOwner owner room rest

section
variable (P : Platform)

def Rejection.owner (r : Rejection) : String := P.checksum16 r.ownerKey

def Rejection.row (now : Int) (r : Rejection) : RejectionRow :=
  ⟨r.ownerKind, r.owner P, r.code, r.code.dimension, r.rejectedKind, r.countAt, now, 0⟩

def Rejection.repeats (now : Int) (r : Rejection) (row : RejectionRow) : Bool :=
  row.ownerId == r.owner P && row.code == r.code && decide (now - RATE_LIMIT_SECS < row.atEpoch)

def RejectionRow.suppress (row : RejectionRow) : RejectionRow :=
  { row with suppressedCount := row.suppressedCount + 1 }

/-- `Rejections::record_using_clock`. -/
def recordRejection (ring : RejectionRing) (record : Rejection × Int) : RejectionRing :=
  let (r, now) := record
  if ring.rows.any (r.repeats P now) then
    { ring with rows := onFirst (r.repeats P now) RejectionRow.suppress ring.rows }
  else
    let rows := r.row P now :: ring.rows
    ⟨trimOwner (r.owner P) MAX_REJECTION_ROWS rows,
      ring.trimmed ++ (rows.filter (ownedBy (r.owner P))).drop MAX_REJECTION_ROWS⟩

end

def carried (rows : List RejectionRow) : Nat := (rows.map fun row => 1 + row.suppressedCount).sum

theorem trimOwner_own (owner : String) (room : Nat) (rows : List RejectionRow) :
    (trimOwner owner room rows).filter (ownedBy owner) = (rows.filter (ownedBy owner)).take room := by
  induction rows generalizing room with
  | nil => simp [trimOwner]
  | cons row rest ih =>
    by_cases owned : ownedBy owner row = true
    · cases room <;> simp [trimOwner, owned, ih]
    · simp [trimOwner, owned, ih]

theorem trimOwner_other {owner owner' : String} (apart : owner' ≠ owner) (room : Nat) (rows : List RejectionRow) :
    (trimOwner owner room rows).filter (ownedBy owner') = rows.filter (ownedBy owner') := by
  induction rows generalizing room with
  | nil => rfl
  | cons row rest ih =>
    by_cases owned : ownedBy owner row = true
    · have other : ownedBy owner' row = false := by
        have same : row.ownerId = owner := by simpa [ownedBy] using owned
        simpa [ownedBy, same] using apart.symm
      cases room <;> simp [trimOwner, owned, other, ih]
    · simp [trimOwner, owned, ih, filter_cons]

def RejectionRing.view (owner : String) (ring : RejectionRing) : RejectionRing :=
  ⟨ring.rows.filter (ownedBy owner), ring.trimmed.filter (ownedBy owner)⟩

section
variable (P : Platform)

def recordOwn (ring : RejectionRing) (record : Rejection × Int) : RejectionRing :=
  let (r, now) := record
  if ring.rows.any (r.repeats P now) then
    { ring with rows := onFirst (r.repeats P now) RejectionRow.suppress ring.rows }
  else
    ⟨(r.row P now :: ring.rows).take MAX_REJECTION_ROWS,
      ring.trimmed ++ (r.row P now :: ring.rows).drop MAX_REJECTION_ROWS⟩

variable {P}

theorem repeats_owned {r : Rejection} {now : Int} {row : RejectionRow} (same : r.repeats P now row = true) :
    row.ownerId = r.owner P := by
  simp only [Rejection.repeats, Bool.and_eq_true, beq_iff_eq] at same
  exact same.1.1

/-- An owner's records act on its own rows alone, and others' records not at all. -/
theorem recordRejection_view (owner : String) (ring : RejectionRing) (record : Rejection × Int) :
    (recordRejection P ring record).view owner =
      if record.1.owner P = owner then recordOwn P (ring.view owner) record else ring.view owner := by
  obtain ⟨r, now⟩ := record
  have keeps (row : RejectionRow) : ownedBy owner row.suppress = ownedBy owner row := rfl
  dsimp only
  split
  · next own =>
    subst own
    have inside (row : RejectionRow) (same : r.repeats P now row = true) : ownedBy (r.owner P) row = true := by
      rw [ownedBy, beq_iff_eq, repeats_owned same]
    have asked : (ring.view (r.owner P)).rows.any (r.repeats P now) = ring.rows.any (r.repeats P now) := by
      rw [Bool.eq_iff_iff, any_eq_true, any_eq_true]
      simp only [RejectionRing.view, mem_filter]
      constructor
      · rintro ⟨row, ⟨member, -⟩, same⟩
        exact ⟨row, member, same⟩
      · rintro ⟨row, member, same⟩
        exact ⟨row, ⟨member, inside row same⟩, same⟩
    have new : ownedBy (r.owner P) (r.row P now) = true := beq_self_eq_true _
    simp only [recordRejection, recordOwn, asked]
    split
    · simp only [RejectionRing.view, filter_onFirst inside keeps]
    · have dropped : (((r.row P now :: ring.rows).filter (ownedBy (r.owner P))).drop MAX_REJECTION_ROWS).filter
          (ownedBy (r.owner P)) = ((r.row P now :: ring.rows).filter (ownedBy (r.owner P))).drop MAX_REJECTION_ROWS :=
        filter_eq_self.mpr fun row member => (mem_filter.mp (mem_of_mem_drop member)).2
      rw [filter_cons_of_pos new] at dropped
      simp only [RejectionRing.view, trimOwner_own, filter_append, dropped, filter_cons_of_pos new]
  · next other =>
    have outside (row : RejectionRow) (owned : row.ownerId = r.owner P) : ownedBy owner row = false := by
      rw [ownedBy, owned, beq_eq_false_iff_ne]
      exact other
    simp only [recordRejection]
    split
    · simp only [RejectionRing.view, filter_onFirst_of_not (fun row same => outside row (repeats_owned same)) keeps]
    · have gone : (((r.row P now :: ring.rows).filter (ownedBy (r.owner P))).drop MAX_REJECTION_ROWS).filter
          (ownedBy owner) = [] := by
        refine filter_eq_nil_iff.mpr fun row member owned => ?_
        have its := (mem_filter.mp (mem_of_mem_drop member)).2
        rw [outside row (beq_iff_eq.mp its)] at owned
        cases owned
      have new : ¬ ownedBy owner (r.row P now) = true := by rw [outside _ rfl]; exact Bool.false_ne_true
      simp only [RejectionRing.view, trimOwner_other (Ne.symm other), filter_append, gone, append_nil,
        filter_cons_of_neg new]

theorem run_view (owner : String) (records : List (Rejection × Int)) (ring : RejectionRing) :
    (run (recordRejection P) records ring).view owner =
      run (recordOwn P) (records.filter fun record => record.1.owner P == owner) (ring.view owner) := by
  induction records generalizing ring with
  | nil => rfl
  | cons record rest ih =>
    rw [run_cons, ih, recordRejection_view]
    by_cases own : record.1.owner P = owner <;> simp [own]

/-- One owner's rows: at most so many, apart by the rate limit where they share a code, and every one of
`count` records in a row that is there or was overwritten. -/
structure Conserves (owner : String) (count : Nat) (ring : RejectionRing) : Prop where
  owned : ∀ row ∈ ring.rows, row.ownerId = owner
  capped : ring.rows.length ≤ MAX_REJECTION_ROWS
  spaced : ring.rows.Pairwise fun newer older =>
    newer.code = older.code → older.atEpoch + RATE_LIMIT_SECS ≤ newer.atEpoch
  counted : carried ring.rows + carried ring.trimmed = count

theorem carried_append (front back : List RejectionRow) : carried (front ++ back) = carried front + carried back := by
  simp [carried]

theorem Conserves.record {owner : String} {count : Nat} {ring : RejectionRing}
    (conserves : Conserves owner count ring)
    (record : Rejection × Int) (own : record.1.owner P = owner) :
    Conserves owner (count + 1) (recordOwn P ring record) := by
  obtain ⟨r, now⟩ := record
  have counted := conserves.counted
  simp only [recordOwn]
  split
  · next repeated =>
    obtain ⟨front, row, back, whole, -, -, edited⟩ := onFirst_split (f := RejectionRow.suppress) repeated
    have owned := conserves.owned
    have capped := conserves.capped
    have spaced := conserves.spaced
    rw [whole] at owned capped spaced counted
    rw [edited]
    refine ⟨by simpa [RejectionRow.suppress, or_imp, forall_and] using owned, by simpa using capped, ?_, ?_⟩
    · simpa [pairwise_append, RejectionRow.suppress] using spaced
    · simp only [carried, map_append, map_cons, sum_append, sum_cons,
        RejectionRow.suppress] at counted ⊢
      omega
  · next fresh =>
    have apart (row : RejectionRow) (member : row ∈ ring.rows) (code : row.code = r.code) :
        row.atEpoch + RATE_LIMIT_SECS ≤ now := by
      by_contra late
      refine fresh (any_eq_true.mpr ⟨row, member, ?_⟩)
      simp only [Rejection.repeats, Bool.and_eq_true, beq_iff_eq, decide_eq_true_eq]
      exact ⟨⟨(conserves.owned row member).trans own.symm, code⟩, by omega⟩
    refine ⟨?_, length_take_le _ _, ?_, ?_⟩
    · intro row member
      rcases mem_cons.mp (mem_of_mem_take member) with rfl | old
      · exact own
      · exact conserves.owned row old
    · refine List.Pairwise.sublist (take_sublist _ _) (pairwise_cons.mpr ⟨?_, conserves.spaced⟩)
      exact fun row member code => apart row member code.symm
    · have split := congrArg carried (take_append_drop MAX_REJECTION_ROWS (r.row P now :: ring.rows))
      have more : carried (r.row P now :: ring.rows) = 1 + carried ring.rows := rfl
      rw [carried_append, more] at split
      simp only [carried_append]
      omega

theorem Conserves.run {owner : String} {count : Nat} {ring : RejectionRing} (conserves : Conserves owner count ring)
    {records : List (Rejection × Int)} (own : ∀ record ∈ records, record.1.owner P = owner) :
    Conserves owner (count + records.length) (run (recordOwn P) records ring) := by
  induction records generalizing ring count with
  | nil => exact conserves
  | cons record rest ih =>
    rw [forall_mem_cons] at own
    rw [run_cons, length_cons, Nat.add_comm rest.length, ← Nat.add_assoc]
    exact ih (conserves.record record own.1) own.2

/-- However records arrive, an owner keeps at most so many rows, two of one code are apart by the rate limit, and no
record is uncounted. -/
theorem rejections_conserved (P : Platform) (records : List (Rejection × Int)) (owner : String) :
    let own := records.filter fun record => record.1.owner P == owner
    let ring := (run (recordRejection P) records ⟨[], []⟩).view owner
    Conserves owner own.length ring ∧ ring = (run (recordRejection P) own ⟨[], []⟩).view owner := by
  intro own ring
  have alone : ring = run (recordOwn P) own ⟨[], []⟩ := run_view owner records _
  have empty : Conserves owner 0 ⟨[], []⟩ :=
    ⟨forall_mem_nil _, Nat.zero_le _, List.Pairwise.nil, rfl⟩
  constructor
  · rw [alone, ← Nat.zero_add own.length]
    refine empty.run fun record member => ?_
    exact beq_iff_eq.mp (mem_filter.mp member).2
  · rw [alone, run_view]
    simp only [own, filter_filter, Bool.and_self]
    rfl

end
end Agent24.Memory
