import Agent24.Consent.Store

/-! A lookup against the history of the store: a grant authorises while nothing has ended it. -/

set_option autoImplicit false
namespace Agent24.Consent
open Library List

namespace ConsentEvent

def decides (module op : String) : ConsentEvent → Bool
  | .decided record _ _ => record.module == module && record.op == op
  | _ => false

def revokesAt (module op : String) : ConsentEvent → Option Nat
  | .revoked m o generation => if m = module ∧ o = op then some generation else none
  | _ => none

def advancesTo (module : String) : ConsentEvent → Option Nat
  | .advanced m generation => if m = module then some generation else none
  | _ => none

def generation : ConsentEvent → Option Nat
  | .decided record _ _ => some record.generation
  | .revoked _ _ generation => some generation
  | .advanced _ generation => some generation
  | .expiryAnswered .. => none

/-- A later decision on the tool, a revocation of it or of its module, an advance of the epoch. -/
def ends (module op : String) (event : ConsentEvent) : Bool :=
  event.decides module op || (event.revokesAt module op).isSome || (event.revokesAt module "*").isSome ||
    (event.advancesTo module).isSome

theorem generation_of_revokesAt {event : ConsentEvent} {module op : String} {g : Nat}
    (revokes : event.revokesAt module op = some g) : event.generation = some g := by
  cases event <;> simp_all [revokesAt, generation]

theorem generation_of_advancesTo {event : ConsentEvent} {module : String} {g : Nat}
    (advances : event.advancesTo module = some g) : event.generation = some g := by
  cases event <;> simp_all [advancesTo, generation]

end ConsentEvent

section History

section
variable (history : List ConsentEvent)

def epochIn (module : String) : Nat :=
  (history.findSome? (ConsentEvent.advancesTo module)).getD 0

def revokedIn (module op : String) : Option Nat :=
  history.findSome? (ConsentEvent.revokesAt module op)

def generations : List Nat := history.filterMap ConsentEvent.generation

def Stands (record : ConsentRecord) (decidedAt expiresAt : String) : Prop :=
  ∃ newer older, history = newer ++ .decided record decidedAt expiresAt :: older ∧
    ∀ event ∈ newer, event.ends record.module record.op = false

end

/-- In a history of falling generations, the newest mark of a kind is newer than a decision exactly if
it is not below the decision's generation. -/
theorem findSome_newer {newer older : List ConsentEvent} {event : ConsentEvent} {g : Nat}
    {f : ConsentEvent → Option Nat} (marks : ∀ e n, f e = some n → e.generation = some n)
    (here : event.generation = some g) (other : f event = none)
    (falling : (generations (newer ++ event :: older)).Pairwise (· > ·)) :
    (∃ n, (newer ++ event :: older).findSome? f = some n ∧ g ≤ n) ↔ ∃ e ∈ newer, (f e).isSome := by
  simp only [generations, filterMap_append, filterMap_cons, here] at falling
  obtain ⟨-, fallingRest, above⟩ := pairwise_append.mp falling
  have below := (pairwise_cons.mp fallingRest).1
  rw [List.findSome?_append, List.findSome?_cons, other]
  cases found : newer.findSome? f with
  | some n =>
    obtain ⟨e, member, mark⟩ := exists_of_findSome?_eq_some found
    refine iff_of_true ⟨n, by simp, ?_⟩ ⟨e, member, by simp [mark]⟩
    exact Nat.le_of_lt (above n (mem_filterMap.mpr ⟨e, member, marks e n mark⟩) g (by simp))
  | none =>
    have none_newer := List.findSome?_eq_none_iff.mp found
    refine iff_of_false ?_ ?_
    · rintro ⟨n, foundOld, notBelow⟩
      obtain ⟨e, member, mark⟩ := exists_of_findSome?_eq_some foundOld
      have lower := below n (mem_filterMap.mpr ⟨e, member, marks e n mark⟩)
      omega
    · rintro ⟨e, member, mark⟩
      rw [none_newer e member] at mark
      cases mark

theorem epochIn_moved {newer older : List ConsentEvent} {event : ConsentEvent} {g : Nat} (module : String)
    (here : event.generation = some g) (other : event.advancesTo module = none)
    (falling : (generations (newer ++ event :: older)).Pairwise (· > ·)) :
    epochIn older module ≠ epochIn (newer ++ event :: older) module ↔
      ∃ e ∈ newer, (e.advancesTo module).isSome := by
  have marks : ∀ e n, ConsentEvent.advancesTo module e = some n → e.generation = some n :=
    fun e n => ConsentEvent.generation_of_advancesTo
  rw [← findSome_newer marks here other falling]
  simp only [epochIn, List.findSome?_append, List.findSome?_cons, other]
  simp only [generations, filterMap_append, filterMap_cons, here] at falling
  have below := (pairwise_cons.mp (pairwise_append.mp falling).2.1).1
  have older_below : ∀ n, older.findSome? (ConsentEvent.advancesTo module) = some n → n < g := by
    intro n found
    obtain ⟨e, member, mark⟩ := exists_of_findSome?_eq_some found
    exact below n (mem_filterMap.mpr ⟨e, member, marks e n mark⟩)
  cases found : newer.findSome? (ConsentEvent.advancesTo module) with
  | some n =>
    obtain ⟨e, member, mark⟩ := exists_of_findSome?_eq_some found
    have higher := (pairwise_append.mp falling).2.2 n
      (mem_filterMap.mpr ⟨e, member, marks e n mark⟩) g (by simp)
    refine iff_of_true ?_ ⟨n, by simp, Nat.le_of_lt higher⟩
    cases old : older.findSome? (ConsentEvent.advancesTo module) with
    | none => simp; omega
    | some n' =>
      have lower := older_below n' old
      simp
      omega
  | none =>
    refine iff_of_false (by simp) ?_
    rintro ⟨n, foundOld, notBelow⟩
    have lower := older_below n (by simpa using foundOld)
    omega

end History

section Agreement
variable {H : Host}

/-- The stored texts are the canonical forms of the given ones. -/
structure Written (H : Host) (record : ConsentRecord) (decidedAt expiresAt : String) : Prop where
  decided : ∃ t, H.parse decidedAt = some t ∧ record.decidedAt = H.canonical t
  expires : ∃ t, H.parse expiresAt = some t ∧ record.expiresAt = H.canonical t

def LastDecision (H : Host) (history : List ConsentEvent) (row : ConsentRow) : Prop :=
  ∃ decidedAt expiresAt newer older,
    history = newer ++ .decided row.toConsentRecord decidedAt expiresAt :: older ∧
      (∀ event ∈ newer, event.decides row.module row.op = false) ∧
      row.enableEpoch = epochIn older row.module ∧ Written H row.toConsentRecord decidedAt expiresAt

structure Agrees (H : Host) (s : Recorded) : Prop where
  falling : (generations s.history).Pairwise (· > ·)
  bounded : ∀ g ∈ generations s.history, g ≤ s.db.lastGeneration
  room : s.db.lastGeneration ≤ keyMax
  decided : ∀ key row, s.db.consents.find key = some row → LastDecision H s.history row
  undecided : ∀ module op, s.db.consents.find (module, op) = none →
    ∀ event ∈ s.history, event.decides module op = false
  revoked : ∀ module op,
    (s.db.revocations.find (module, op)).map RevocationRow.generation = revokedIn s.history module op
  epochs : ∀ module, s.db.currentEnableEpoch module = epochIn s.history module

theorem Agrees.empty : Agrees H .empty where
  falling := .nil
  bounded := forall_mem_nil _
  room := Nat.zero_le _
  decided := fun key row found => by cases found
  undecided := fun _ _ _ => forall_mem_nil _
  revoked := fun _ _ => rfl
  epochs := fun _ => rfl

section
variable {history : List ConsentEvent}

theorem falling_cons (event : ConsentEvent) {last : Nat} (falling : (generations history).Pairwise (· > ·))
    (bounded : ∀ g ∈ generations history, g ≤ last) (fresh : event.generation = some (last + 1)) :
    (generations (event :: history)).Pairwise (· > ·) ∧ ∀ g ∈ generations (event :: history), g ≤ last + 1 := by
  simp only [generations, filterMap_cons, fresh]
  constructor
  · exact pairwise_cons.mpr ⟨fun g member => Nat.lt_succ_of_le (bounded g member), falling⟩
  · exact forall_mem_cons.mpr ⟨Nat.le_refl _, fun g member => Nat.le_succ_of_le (bounded g member)⟩

theorem LastDecision.cons {row : ConsentRow} {event : ConsentEvent} (last : LastDecision H history row)
    (other : event.decides row.module row.op = false) :
    LastDecision H (event :: history) row := by
  obtain ⟨decidedAt, expiresAt, newer, older, split, later, epoch, written⟩ := last
  refine ⟨decidedAt, expiresAt, event :: newer, older, by rw [split]; rfl, ?_, epoch, written⟩
  exact forall_mem_cons.mpr ⟨other, later⟩

theorem revokedIn_cons_of_none {event : ConsentEvent} {module op : String}
    (other : event.revokesAt module op = none) :
    revokedIn (event :: history) module op = revokedIn history module op := by
  rw [revokedIn, List.findSome?_cons, other]
  rfl

theorem epochIn_cons_of_none {event : ConsentEvent} {module : String} (other : event.advancesTo module = none) :
    epochIn (event :: history) module = epochIn history module := by
  rw [epochIn, List.findSome?_cons, other]
  rfl

end

theorem Agrees.step {s : Recorded} (agrees : Agrees H s) (call : ConsentStep) :
    Agrees H (Consent.step H s call) := by
  unfold Consent.step
  split
  · rename_i db event done
    cases exec_effect done with
    | decided record decidedAt expiresAt room fresh decidedText expiresText generation consents revocations
        epochs =>
      obtain ⟨falling, bounded⟩ := falling_cons (.decided record decidedAt expiresAt)
        agrees.falling agrees.bounded (congrArg some fresh)
      have sameEpoch (m : String) : db.currentEnableEpoch m = s.db.currentEnableEpoch m := by
        rw [ConsentDb.currentEnableEpoch, epochs]
        rfl
      refine ⟨falling, by rw [generation]; exact bounded, by rw [generation]; exact room, ?_, ?_, ?_, ?_⟩
      · intro key row found
        rw [consents, Table.find_put] at found
        split at found
        · cases found
          refine ⟨decidedAt, expiresAt, [], s.history, rfl, forall_mem_nil _, ?_, ⟨decidedText, expiresText⟩⟩
          exact agrees.epochs record.module
        · rename_i apart
          refine (agrees.decided key row found).cons ?_
          have here : ConsentRow.key row = key := Table.find_key found
          simp only [ConsentEvent.decides, Bool.and_eq_false_iff, beq_eq_false_iff_ne]
          rw [← not_and_or]
          rintro ⟨sameModule, sameOp⟩
          exact apart (here.symm.trans (Prod.ext sameModule.symm sameOp.symm))
      · intro m o found
        rw [consents, Table.find_put] at found
        split at found
        · cases found
        rename_i apart
        refine forall_mem_cons.mpr ⟨?_, agrees.undecided m o found⟩
        simp only [ConsentEvent.decides, Bool.and_eq_false_iff, beq_eq_false_iff_ne]
        rw [← not_and_or]
        rintro ⟨rfl, rfl⟩
        exact apart rfl
      · intro m o
        rw [revocations, agrees.revoked]
        exact (revokedIn_cons_of_none rfl).symm
      · intro m
        rw [sameEpoch, agrees.epochs]
        exact (epochIn_cons_of_none rfl).symm
    | revoked module op revokedAt routed room generation consents revocations epochs =>
      obtain ⟨falling, bounded⟩ := falling_cons
        (.revoked module (op.getD "*") (s.db.lastGeneration + 1))
        agrees.falling agrees.bounded rfl
      have sameEpoch (m : String) : db.currentEnableEpoch m = s.db.currentEnableEpoch m := by
        rw [ConsentDb.currentEnableEpoch, epochs]
        rfl
      refine ⟨falling, by rw [generation]; exact bounded, by rw [generation]; exact room, ?_, ?_, ?_, ?_⟩
      · intro key row found
        rw [consents] at found
        exact (agrees.decided key row found).cons rfl
      · intro m o found
        rw [consents] at found
        exact forall_mem_cons.mpr ⟨rfl, agrees.undecided m o found⟩
      · intro m o
        rw [revocations, Table.find_put]
        split
        · rename_i same
          cases same
          simp [revokedIn, ConsentEvent.revokesAt]
        · rename_i apart
          rw [agrees.revoked]
          have other : (ConsentEvent.revoked module (op.getD "*") (s.db.lastGeneration + 1)).revokesAt m o =
              none := by
            refine if_neg ?_
            rintro ⟨rfl, rfl⟩
            exact apart rfl
          exact (revokedIn_cons_of_none other).symm
      · intro m
        rw [sameEpoch, agrees.epochs]
        exact (epochIn_cons_of_none rfl).symm
    | advanced module room generation consents revocations epochs =>
      obtain ⟨falling, bounded⟩ := falling_cons (.advanced module (s.db.lastGeneration + 1))
        agrees.falling agrees.bounded rfl
      refine ⟨falling, by rw [generation]; exact bounded, by rw [generation]; exact room, ?_, ?_, ?_, ?_⟩
      · intro key row found
        rw [consents] at found
        exact (agrees.decided key row found).cons rfl
      · intro m o found
        rw [consents] at found
        exact forall_mem_cons.mpr ⟨rfl, agrees.undecided m o found⟩
      · intro m o
        rw [revocations, agrees.revoked]
        exact (revokedIn_cons_of_none rfl).symm
      · intro m
        rw [epochs]
        split
        · rename_i same
          subst same
          simp [epochIn, ConsentEvent.advancesTo]
        · rename_i apart
          rw [agrees.epochs]
          have other : (ConsentEvent.advanced module (s.db.lastGeneration + 1)).advancesTo m = none :=
            if_neg fun same => apart same.symm
          exact (epochIn_cons_of_none other).symm
    | expiryAnswered module op generation stopState same =>
      subst same
      refine ⟨agrees.falling, agrees.bounded, agrees.room, ?_, ?_, ?_, ?_⟩
      · intro key row found
        rw [find_recordExpiryStop, Option.map_eq_some_iff] at found
        obtain ⟨old, here, rfl⟩ := found
        have last := (agrees.decided key old here).cons
          (show ConsentEvent.decides _ _ (.expiryAnswered module op generation stopState) = false from rfl)
        split
        · exact last
        · exact last
      · intro m o found
        rw [find_recordExpiryStop, Option.map_eq_none_iff] at found
        exact forall_mem_cons.mpr ⟨rfl, agrees.undecided m o found⟩
      · intro m o
        exact (agrees.revoked m o).trans (revokedIn_cons_of_none rfl).symm
      · intro m
        exact (agrees.epochs m).trans (epochIn_cons_of_none rfl).symm
    | observed module enabled entry same =>
      subst same
      refine ⟨agrees.falling, agrees.bounded, agrees.room, agrees.decided, agrees.undecided,
        agrees.revoked, ?_⟩
      intro m
      rw [currentEnableEpoch_recordEnablement]
      exact agrees.epochs m
    | revocationAnswered module op generation stopState same =>
      subst same
      refine ⟨agrees.falling, agrees.bounded, agrees.room, agrees.decided, agrees.undecided, ?_,
        agrees.epochs⟩
      intro m o
      rw [find_recordRevocationStop, Option.map_map]
      refine Eq.trans (congrArg (fun f => (s.db.revocations.find (m, o)).map f) ?_) (agrees.revoked m o)
      funext row
      simp only [Function.comp]
      split <;> rfl
    | endAnswered id stop same =>
      subst same
      obtain ⟨notices, frame⟩ := recordGrantEndStop_frame s.db id stop
      rw [frame]
      exact ⟨agrees.falling, agrees.bounded, agrees.room, agrees.decided, agrees.undecided,
        agrees.revoked, agrees.epochs⟩
  · exact agrees

theorem agrees_run (calls : List ConsentStep) : Agrees H (run (Consent.step H) calls .empty) :=
  run_invariant (Consent.step H) (fun _ => True) (Agrees H) (fun _ call _ agrees => agrees.step call)
    (fun _ _ => trivial) .empty

def Dated (H : Host) (text : String) : Prop := ∃ t, H.parse text = some t ∧ t.Writable

/-- `now` is not past the expiry, in milliseconds. -/
def NotPast (H : Host) (now expiresAt : String) : Prop :=
  ∃ t expiry, H.parse now = some t ∧ H.parse expiresAt = some expiry ∧ millis t ≤ millis expiry

structure Authorises (H : Host) (history : List ConsentEvent) (module op version fingerprint now : String)
    (record : ConsentRecord) (decidedAt expiresAt : String) : Prop where
  stands : Stands history record decidedAt expiresAt
  tool : record.module = module ∧ record.op = op
  granted : record.decision = .granted
  version : record.moduleVersion = version
  fingerprint : record.scopeFingerprint = fingerprint
  inTime : NotPast H now expiresAt

theorem parse_stored {text stored : String} (kept : ∃ t, H.parse text = some t ∧ stored = H.canonical t) :
    (Dated H text ∧ ∃ t read, H.parse text = some t ∧ H.parse stored = some read ∧ millis read = millis t) ∨
      (¬ Dated H text ∧ H.parse stored = none) := by
  obtain ⟨t, read, rfl⟩ := kept
  by_cases near : t.Writable
  · obtain ⟨back, parsed, same⟩ := H.parse_canonical t near
    exact .inl ⟨⟨t, read, near⟩, t, back, read, parsed, same⟩
  refine .inr ⟨?_, H.parse_canonical_far t near⟩
  rintro ⟨t', read', near'⟩
  rw [read] at read'
  cases read'
  exact near near'

theorem isExpired_eq_false (now : String) {text stored : String}
    (kept : ∃ t, H.parse text = some t ∧ stored = H.canonical t) :
    isExpired H now stored = false ↔ NotPast H now text ∧ Dated H text := by
  unfold isExpired
  rcases parse_stored kept with ⟨dated, t, back, read, parsed, same⟩ | ⟨undated, gone⟩
  · rw [parsed]
    cases readNow : H.parse now with
    | none =>
      refine iff_of_false (fun same => by cases same) ?_
      rintro ⟨⟨n, x, readNow', -⟩, -⟩
      rw [readNow] at readNow'
      cases readNow'
    | some n =>
      simp only [decide_eq_false_iff_not, not_lt]
      constructor
      · intro early
        exact ⟨⟨n, t, readNow, read, by omega⟩, dated⟩
      · rintro ⟨⟨n', t', readNow', read', early⟩, -⟩
        rw [readNow] at readNow'
        rw [read] at read'
        cases readNow'
        cases read'
        omega
  · rw [gone]
    refine iff_of_false ?_ fun both => undated both.2
    cases H.parse now <;> exact fun same => by cases same

variable {s : Recorded} {module op : String}

theorem any_revocation_iff (agrees : Agrees H s) (module op : String) (g : Nat) :
    ((s.db.revocations.rows.filter fun r => r.module == module && (r.op == op || r.op == "*")).any
        fun r => decide (g ≤ r.generation)) = true ↔
      ∃ key, (key = op ∨ key = "*") ∧ ∃ n, revokedIn s.history module key = some n ∧ g ≤ n := by
  simp only [any_eq_true, mem_filter, Bool.and_eq_true, Bool.or_eq_true, beq_iff_eq,
    decide_eq_true_eq]
  constructor
  · rintro ⟨r, ⟨member, rfl, key⟩, notBelow⟩
    refine ⟨r.op, key, r.generation, ?_, notBelow⟩
    rw [← agrees.revoked, show s.db.revocations.find (r.module, r.op) = some r from Table.mem_rows_iff.mp member]
    rfl
  · rintro ⟨key, which, n, marked, notBelow⟩
    rw [← agrees.revoked, Option.map_eq_some_iff] at marked
    obtain ⟨r, found, rfl⟩ := marked
    obtain ⟨member, same⟩ := Table.find_eq_some.mp found
    obtain ⟨rfl, rfl⟩ := Prod.mk.inj same
    exact ⟨r, ⟨member, rfl, which⟩, notBelow⟩

/-- The last decision on a tool stands exactly if no revocation reaches it and its epoch is current. -/
theorem stands_iff (agrees : Agrees H s) {row : ConsentRow} {decidedAt expiresAt : String}
    {newer older : List ConsentEvent}
    (split : s.history = newer ++ .decided row.toConsentRecord decidedAt expiresAt :: older)
    (later : ∀ event ∈ newer, event.decides row.module row.op = false)
    (epoch : row.enableEpoch = epochIn older row.module) :
    (∀ event ∈ newer, event.ends row.module row.op = false) ↔
      (¬ ∃ key, (key = row.op ∨ key = "*") ∧ ∃ n, revokedIn s.history row.module key = some n ∧
        row.generation ≤ n) ∧ row.enableEpoch = s.db.currentEnableEpoch row.module := by
  have falling := agrees.falling
  rw [split] at falling
  have reached (key : String) := findSome_newer (f := ConsentEvent.revokesAt row.module key)
    (fun e n => ConsentEvent.generation_of_revokesAt) rfl rfl falling
  have moved := epochIn_moved row.module rfl rfl falling
  rw [epoch, agrees.epochs, split]
  simp only [revokedIn, reached]
  constructor
  · intro none
    constructor
    · rintro ⟨key, which, event, member, revokes⟩
      have quiet := none event member
      rcases which with rfl | rfl <;> simp [ConsentEvent.ends, revokes] at quiet
    · by_contra differs
      obtain ⟨event, member, advances⟩ := moved.mp differs
      have quiet := none event member
      simp [ConsentEvent.ends, advances] at quiet
  · rintro ⟨unreached, same⟩ event member
    have notRevoked (key : String) (which : key = row.op ∨ key = "*") :
        (event.revokesAt row.module key).isSome = false := by
      by_contra revokes
      exact unreached ⟨key, which, event, member, eq_true_of_ne_false revokes⟩
    have notAdvanced : (event.advancesTo row.module).isSome = false := by
      by_contra advances
      exact moved.mpr ⟨event, member, eq_true_of_ne_false advances⟩ same
    simp [ConsentEvent.ends, later event member, notRevoked row.op (.inl rfl), notRevoked "*" (.inr rfl),
      notAdvanced]

/-- A lookup answers `Granted` for a grant that authorises, if its instants were kept readable. -/
theorem lookup_granted_iff (agrees : Agrees H s) (version fingerprint now : String) (record : ConsentRecord) :
    lookupModuleConsent H s.db module op version fingerprint now = .granted record ↔
      ∃ decidedAt expiresAt,
        Authorises H s.history module op version fingerprint now record decidedAt expiresAt ∧
          Dated H decidedAt ∧ Dated H expiresAt := by
  unfold lookupModuleConsent
  cases found : s.db.consents.find (module, op) with
  | none =>
    have undecided := agrees.undecided module op found
    dsimp only
    refine iff_of_false ?_ ?_
    · intro answer
      split at answer <;> cases answer
    · rintro ⟨decidedAt, expiresAt, authorises, -, -⟩
      obtain ⟨newer, older, split, -⟩ := authorises.stands
      have decided := undecided (.decided record decidedAt expiresAt) (by rw [split]; simp)
      simp [ConsentEvent.decides, authorises.tool] at decided
  | some row =>
    have key : ConsentRow.key row = (module, op) := Table.find_key found
    obtain ⟨rfl, rfl⟩ := Prod.mk.inj key
    obtain ⟨decidedAt, expiresAt, newer, older, split, later, epoch, written⟩ :=
      agrees.decided _ row found
    have standing := stands_iff agrees split later epoch
    have reached := any_revocation_iff agrees row.module row.op row.generation
    -- an authorising record is the row, since both are the last decision on the tool
    have only {r : ConsentRecord} {d e : String}
        (authorises : Authorises H s.history row.module row.op version fingerprint now r d e) :
        r = row.toConsentRecord ∧ d = decidedAt ∧ e = expiresAt ∧
          ∀ event ∈ newer, event.ends row.module row.op = false := by
      obtain ⟨newer', older', split', quiet⟩ := authorises.stands
      rw [authorises.tool.1, authorises.tool.2] at quiet
      have later' : ∀ event ∈ newer', event.decides row.module row.op = false := by
        intro event member
        have none := quiet event member
        simp only [ConsentEvent.ends, Bool.or_eq_false_iff] at none
        exact none.1.1.1
      obtain ⟨rfl, same, rfl⟩ := first_split_unique (split.symm.trans split') later later'
        (by simp [ConsentEvent.decides]) (by simp [ConsentEvent.decides, authorises.tool])
      cases same
      exact ⟨rfl, rfl, rfl, quiet⟩
    dsimp only
    rcases parse_stored written.decided with ⟨dated, t, read, -, parsed, -⟩ | ⟨undated, gone⟩
    swap
    · rw [gone]
      refine iff_of_false (by simp) ?_
      rintro ⟨d, e, authorises, dated, -⟩
      obtain ⟨rfl, rfl, rfl, -⟩ := only authorises
      exact undated dated
    rw [parsed]
    simp only [Option.isNone_some, Bool.false_eq_true, ↓reduceIte]
    split
    · rename_i covered
      refine iff_of_false (by simp) ?_
      rintro ⟨d, e, authorises, -, -⟩
      obtain ⟨rfl, rfl, rfl, quiet⟩ := only authorises
      exact (standing.mp quiet).1 (reached.mp covered)
    · rename_i uncovered
      split
      · rename_i differs
        refine iff_of_false (by simp) ?_
        rintro ⟨d, e, authorises, -, -⟩
        obtain ⟨rfl, rfl, rfl, quiet⟩ := only authorises
        rcases differs with version | fingerprint | epoch
        · exact version authorises.version
        · exact fingerprint authorises.fingerprint
        · exact epoch (standing.mp quiet).2
      · rename_i same
        simp only [not_or, not_not] at same
        obtain ⟨sameVersion, sameFingerprint, sameEpoch⟩ := same
        have quiet := standing.mpr ⟨mt reached.mpr uncovered, sameEpoch⟩
        have stands : Stands s.history row.toConsentRecord decidedAt expiresAt :=
          ⟨newer, older, split, quiet⟩
        have timely := isExpired_eq_false now written.expires
        split
        · rename_i expired
          refine iff_of_false (by simp) ?_
          rintro ⟨d, e, authorises, -, datedExpiry⟩
          obtain ⟨rfl, rfl, rfl, -⟩ := only authorises
          rw [timely.mpr ⟨authorises.inTime, datedExpiry⟩] at expired
          cases expired
        · rename_i current
          have inTime := timely.mp (eq_false_of_ne_true current)
          cases decision : row.decision with
          | denied =>
            refine iff_of_false (by simp) ?_
            rintro ⟨d, e, authorises, -, -⟩
            obtain ⟨rfl, rfl, rfl, -⟩ := only authorises
            rw [authorises.granted] at decision
            cases decision
          | granted =>
            simp only [ConsentLookup.granted.injEq]
            constructor
            · rintro rfl
              exact ⟨decidedAt, expiresAt, ⟨stands, ⟨rfl, rfl⟩, decision, sameVersion, sameFingerprint,
                inTime.1⟩, dated, inTime.2⟩
            · rintro ⟨d, e, authorises, -, -⟩
              exact (only authorises).1.symm

def ConsentEvent.record : ConsentEvent → Option ConsentRecord
  | .decided record _ _ => some record
  | _ => none

def CollisionFree (H : Host) (records : List ConsentRecord) : Prop :=
  ∀ r ∈ records, ∀ r' ∈ records, H.sha256 (r.encoding H) = H.sha256 (r'.encoding H) →
    r.encoding H = r'.encoding H

theorem refs_distinct (agrees : Agrees H s)
    (collisionFree : CollisionFree H (s.history.filterMap ConsentEvent.record)) :
    ((s.history.filterMap ConsentEvent.record).map (ConsentRecord.authorizationRef H)).Nodup := by
  have numbered : ∀ (history : List ConsentEvent),
      ((history.filterMap ConsentEvent.record).map ConsentRecord.generation).Sublist (generations history) := by
    intro history
    induction history with
    | nil => exact .slnil
    | cons event rest ih =>
      cases event with
      | decided => exact ih.cons_cons _
      | revoked => exact ih.cons _
      | advanced module generation => exact ih.cons _
      | expiryAnswered => exact ih
  have falling := pairwise_map.mp (agrees.falling.sublist (numbered s.history))
  have small : ∀ r ∈ s.history.filterMap ConsentEvent.record, r.generation ≤ keyMax := by
    intro r member
    have listed := (numbered s.history).subset (mem_map_of_mem member)
    exact Nat.le_trans (agrees.bounded _ listed) agrees.room
  refine pairwise_map.mpr (falling.imp_of_mem fun {r r'} member member' later same => ?_)
  have digits : H.digestHex (r.encoding H) = H.digestHex (r'.encoding H) :=
    Text.append_right_injective same
  have encoded := collisionFree r member r' member' (digestHex_injective digits)
  have generation := generation_of_encoding (small r member) (small r' member') encoded
  omega

end Agreement

/-- A lookup answers `Granted` only for the last decision on its tool, not revoked and not past its expiry. No two
decisions share a reference. -/
theorem grants_stand (H : Host) (calls : List ConsentStep) :
    (∀ module op version fingerprint now record,
      lookupModuleConsent H (run (step H) calls .empty).db module op version fingerprint now = .granted record →
      ∃ decidedAt expiresAt, Authorises H (run (step H) calls .empty).history module op version fingerprint now
        record decidedAt expiresAt) ∧
    (∀ module op version fingerprint now record decidedAt expiresAt,
      Authorises H (run (step H) calls .empty).history module op version fingerprint now record decidedAt
        expiresAt → Dated H decidedAt → Dated H expiresAt →
      lookupModuleConsent H (run (step H) calls .empty).db module op version fingerprint now =
        .granted record) ∧
    (CollisionFree H ((run (step H) calls .empty).history.filterMap ConsentEvent.record) →
      (((run (step H) calls .empty).history.filterMap ConsentEvent.record).map
        (ConsentRecord.authorizationRef H)).Nodup) := by
  have agrees := agrees_run (H := H) calls
  refine ⟨?_, ?_, refs_distinct agrees⟩
  · intro module op version fingerprint now record granted
    obtain ⟨decidedAt, expiresAt, authorises, -, -⟩ :=
      (lookup_granted_iff agrees version fingerprint now record).mp granted
    exact ⟨decidedAt, expiresAt, authorises⟩
  · intro module op version fingerprint now record decidedAt expiresAt authorises dated datedExpiry
    exact (lookup_granted_iff agrees version fingerprint now record).mpr
      ⟨decidedAt, expiresAt, authorises, dated, datedExpiry⟩

section Noon

def ofMillis (m : Int) : Scheduler.Instant := ⟨m / 1000, (m % 1000).toNat * 1_000_000, by omega⟩

theorem millis_ofMillis (m : Int) : millis (ofMillis m) = m := by
  simp only [millis, ofMillis]
  omega

def unaryMillis (t : Scheduler.Instant) : String :=
  String.ofList ((if 0 ≤ millis t then 'p' else 'n') :: List.replicate (millis t).natAbs 'x')

def readUnaryMillis : List Char → Option Scheduler.Instant
  | 'p' :: digits => some (ofMillis digits.length)
  | 'n' :: digits => some (ofMillis (-digits.length))
  | _ => none

theorem readUnaryMillis_unaryMillis (t : Scheduler.Instant) :
    readUnaryMillis (unaryMillis t).toList = some (ofMillis (millis t)) := by
  simp only [unaryMillis, String.toList_ofList]
  split
  · rename_i positive
    have same : ((millis t).natAbs : Int) = millis t := by omega
    show some (ofMillis ((List.replicate (millis t).natAbs 'x').length : Int)) = _
    rw [length_replicate, same]
  · rename_i negative
    have same : -((millis t).natAbs : Int) = millis t := by omega
    show some (ofMillis (-((List.replicate (millis t).natAbs 'x').length : Int))) = _
    rw [length_replicate, same]

def noon : Scheduler.Instant := ⟨1_784_894_400, 0, .inl (by decide)⟩

def afterNoon : Scheduler.Instant := ⟨1_784_894_400, 500_000, .inl (by decide)⟩

def farEnd : Scheduler.Instant := ⟨253_402_304_399, 0, .inl (by decide)⟩

/-- A host that knows a few instants of the wire, and writes the others in unary. -/
def sampleHost : Host where
  sha256 bytes :=
    if bytes = Bytes.ofText ("\x7b\"source\":\"first_party\",\"risk\":\"low\",\"readable\":\"docs\"," ++
        "\"writable\":null,\"external\":null,\"reversible_draft\":false\x7d") then
      0xc5f17b89d8c688822774c4f5a3d0346fa67f75a1ad0ec7f64c3bce50b3294503
    else 0
  parse text :=
    if text = "2026-07-24T12:00:00Z" ∨ text = "2026-07-24T12:00:00.000Z" then some noon
    else if text = "2026-07-24T12:00:00.0005Z" then some afterNoon
    else if text = "9999-12-31T23:59:59-01:00" then some farEnd
    else readUnaryMillis text.toList
  canonical t :=
    if t = noon then "2026-07-24T12:00:00.000Z" else if t.Writable then unaryMillis t else "+10000-01-01T00:59:59.000Z"
  parse_canonical t near := by
    by_cases here : t = noon
    · exact ⟨noon, by rw [if_pos here]; decide +kernel, by rw [here]⟩
    refine ⟨ofMillis (millis t), ?_, millis_ofMillis _⟩
    have head : ∀ text : String, text.toList.head? = some '2' ∨ text.toList.head? = some '9' →
        unaryMillis t ≠ text := by
      rintro text starts rfl
      simp only [unaryMillis, String.toList_ofList, List.head?_cons, Option.some.injEq] at starts
      split at starts <;> revert starts <;> decide
    rw [if_neg here, if_pos near, if_neg (not_or.mpr ⟨head _ (.inl rfl), head _ (.inl rfl)⟩),
      if_neg (head _ (.inl rfl)), if_neg (head _ (.inr rfl)), readUnaryMillis_unaryMillis]
  parse_canonical_far t far := by
    have apart : t ≠ noon := by
      rintro rfl
      exact far (by decide)
    rw [if_neg apart, if_neg far]
    decide +kernel

def sampleSummary : ToolPermissionSummary :=
  .new "docs" "read_doc" "1.0.0" .firstParty (some "docs") none none .low

def sampleRecord (expiresAt : String) : ConsentRecord where
  module := "docs"
  op := "read_doc"
  moduleVersion := "1.0.0"
  scopeFingerprint := "sha256:c5f17b89d8c688822774c4f5a3d0346fa67f75a1ad0ec7f64c3bce50b3294503"
  source := .firstParty
  risk := .low
  readable := some "docs"
  writable := none
  external := none
  reversibleDraft := false
  decision := .granted
  decidedAt := "2026-07-24T12:00:00.000Z"
  expiresAt := expiresAt
  resources := []
  artifact := none
  generation := 1

def grantUntil (expiresAt : String) : List ConsentStep :=
  [.grant sampleSummary .default "2026-07-24T12:00:00Z" expiresAt]

/-- A grant still answers within the millisecond after its expiry, and one whose expiry falls in the year
10000 never does. -/
theorem lookup_not_exact :
    ¬ (∀ calls module op version fingerprint now record,
      lookupModuleConsent sampleHost (run (step sampleHost) calls .empty).db module op version fingerprint now =
        .granted record →
      ∃ decidedAt expiresAt, Stands (run (step sampleHost) calls .empty).history record decidedAt expiresAt ∧
        ∃ t expiry, sampleHost.parse now = some t ∧ sampleHost.parse expiresAt = some expiry ∧ t ≤ expiry) ∧
    ¬ (∀ calls module op version fingerprint now record decidedAt expiresAt,
      Authorises sampleHost (run (step sampleHost) calls .empty).history module op version fingerprint now
        record decidedAt expiresAt →
      lookupModuleConsent sampleHost (run (step sampleHost) calls .empty).db module op version fingerprint now =
        .granted record) := by
  constructor
  · intro exact_
    have answer : lookupModuleConsent sampleHost
        (run (step sampleHost) (grantUntil "2026-07-24T12:00:00Z") .empty).db "docs" "read_doc" "1.0.0"
        (sampleSummary.scopeFingerprint sampleHost) "2026-07-24T12:00:00.0005Z" =
        .granted (sampleRecord "2026-07-24T12:00:00.000Z") := by decide +kernel
    obtain ⟨decidedAt, expiresAt, ⟨newer, older, split, -⟩, t, expiry, readNow, readExpiry, inTime⟩ :=
      exact_ _ _ _ _ _ _ _ answer
    have history : (run (step sampleHost) (grantUntil "2026-07-24T12:00:00Z") .empty).history =
        [.decided (sampleRecord "2026-07-24T12:00:00.000Z") "2026-07-24T12:00:00Z" "2026-07-24T12:00:00Z"] := by
      decide +kernel
    have listed : ConsentEvent.decided (sampleRecord "2026-07-24T12:00:00.000Z") decidedAt expiresAt ∈
        (run (step sampleHost) (grantUntil "2026-07-24T12:00:00Z") .empty).history := by
      rw [split]
      exact mem_append_right newer (mem_cons_self ..)
    rw [history, mem_singleton] at listed
    cases listed
    have atNow : sampleHost.parse "2026-07-24T12:00:00.0005Z" = some afterNoon := by decide +kernel
    have atNoon : sampleHost.parse "2026-07-24T12:00:00Z" = some noon := by decide +kernel
    obtain rfl := Option.some.inj readNow
    obtain rfl := Option.some.inj readExpiry
    exact absurd inTime (by decide)
  · intro exact_
    have answer := exact_ (grantUntil "9999-12-31T23:59:59-01:00") "docs" "read_doc" "1.0.0"
      (sampleSummary.scopeFingerprint sampleHost) "2026-07-24T12:00:00Z" (sampleRecord "+10000-01-01T00:59:59.000Z")
      "2026-07-24T12:00:00Z" "9999-12-31T23:59:59-01:00"
      { stands := ⟨[], [], by decide +kernel, forall_mem_nil _⟩
        tool := ⟨rfl, rfl⟩
        granted := rfl
        version := rfl
        fingerprint := by decide +kernel
        inTime := ⟨noon, farEnd, by decide +kernel, by decide +kernel, by decide⟩ }
    exact absurd answer (by decide +kernel)

end Noon

end Agent24.Consent
