import Agent24.Consent.Lookup

/-! Notices of ended grants: none goes untold, and a confirmed revocation settles what it carried. -/

set_option autoImplicit false
namespace Agent24.Consent
open Library List

section Notices

/-- The notices a revocation's answer speaks for: of its module, all of them or its own tool's. -/
def InScope (revocation row : NoticeRow) : Prop :=
  row.module = revocation.module ∧ (revocation.op = "*" ∨ row.op = revocation.op)

structure Settles (by_ row : NoticeRow) : Prop where
  revoked : by_.reason = .revoked
  confirmed : by_.stopState = some .confirmed
  scope : InScope by_ row
  earlier : row.id < by_.id
  carried : row.authorizationRefs ⊆ by_.authorizationRefs

structure NoticesSound (db : ConsentDb) : Prop where
  numbered : ∀ row ∈ db.notices.rows, row.id ≤ db.lastNotice
  /-- What is still open was open when the revocation was written, and so it was carried. -/
  carried : ∀ r ∈ db.notices.rows, r.reason = .revoked → ∀ row ∈ db.notices.rows, row.id < r.id →
    InScope r row → row.open_ = true → row.authorizationRefs ⊆ r.authorizationRefs
  settled : ∀ row ∈ db.notices.rows, ∀ id, row.settledBy = some id →
    ∃ by_ ∈ db.notices.rows, by_.id = id ∧ Settles by_ row
  closed : ∀ r ∈ db.notices.rows, r.reason = .revoked → r.stopState = some .confirmed →
    ∀ row ∈ db.notices.rows, row.id < r.id → InScope r row → row.open_ = false

theorem NoticesSound.empty : NoticesSound .empty where
  numbered _ member := absurd member not_mem_nil
  carried _ member := absurd member not_mem_nil
  settled _ member := absurd member not_mem_nil
  closed _ member := absurd member not_mem_nil

variable {db : ConsentDb} {row : NoticeRow}

theorem NoticesSound.of_notices {db' : ConsentDb} (sound : NoticesSound db) (notices : db'.notices = db.notices)
    (last : db'.lastNotice = db.lastNotice) : NoticesSound db' where
  numbered := by
    rw [notices, last]
    exact sound.numbered
  carried := by
    rw [notices]
    exact sound.carried
  settled := by
    rw [notices]
    exact sound.settled
  closed := by
    rw [notices]
    exact sound.closed

theorem mem_put_fresh (sound : NoticesSound db) {fresh : NoticeRow} (id : fresh.id = db.lastNotice + 1) :
    row ∈ (db.notices.put fresh).rows ↔ row = fresh ∨ row ∈ db.notices.rows := by
  rw [Table.mem_put]
  constructor
  · rintro (same | ⟨member, -⟩)
    · exact .inl same
    · exact .inr member
  · rintro (same | member)
    · exact .inl same
    · refine .inr ⟨member, fun same => ?_⟩
      have bound := sound.numbered row member
      omega

theorem NoticesSound.write {db' : ConsentDb} (sound : NoticesSound db) {fresh : NoticeRow}
    (id : fresh.id = db.lastNotice + 1) (unanswered : fresh.stopState = none)
    (unsettled : fresh.settledBy = none)
    (carries : fresh.reason = .revoked → ∀ row ∈ db.notices.rows, InScope fresh row → row.open_ = true → row.authorizationRefs ⊆ fresh.authorizationRefs)
    (notices : db'.notices = db.notices.put fresh) (last : db'.lastNotice = db.lastNotice + 1) :
    NoticesSound db' where
  numbered := by
    intro row member
    rw [notices, mem_put_fresh sound id] at member
    rcases member with rfl | member
    · omega
    · have bound := sound.numbered row member
      omega
  carried := by
    intro r memberR revoked row member earlier scope still
    rw [notices, mem_put_fresh sound id] at memberR member
    rcases memberR with rfl | memberR
    · rcases member with rfl | member
      · omega
      · exact carries revoked row member scope still
    · rcases member with rfl | member
      · have bound := sound.numbered r memberR
        omega
      · exact sound.carried r memberR revoked row member earlier scope still
  settled := by
    intro row member id' settledBy
    rw [notices, mem_put_fresh sound id] at member
    rcases member with rfl | member
    · rw [unsettled] at settledBy
      cases settledBy
    obtain ⟨by_, memberBy, same, settles⟩ := sound.settled row member id' settledBy
    refine ⟨by_, ?_, same, settles⟩
    rw [notices, mem_put_fresh sound id]
    exact .inr memberBy
  closed := by
    intro r memberR revoked confirmed row member earlier scope
    rw [notices, mem_put_fresh sound id] at memberR member
    rcases memberR with rfl | memberR
    · rw [unanswered] at confirmed
      cases confirmed
    rcases member with rfl | member
    · have bound := sound.numbered r memberR
      omega
    · exact sound.closed r memberR revoked confirmed row member earlier scope

/-- A notice after the answer to notice `recorded.id`, which is the row `recorded` now. -/
def afterAnswer (recorded : NoticeRow) (settling : Bool) (row : NoticeRow) : NoticeRow :=
  let answered := if row.id = recorded.id then recorded else row
  if settling && ConsentDb.settles recorded answered then { answered with settledBy := some recorded.id }
  else answered

theorem mem_recordGrantEndStop (db : ConsentDb) (id : Nat) (stop : GrantEndStop) :
    (db.recordGrantEndStop id stop = db) ∨ ∃ row ∈ db.notices.rows, row.id = id ∧ row.stopState = none ∧
      ∀ other, other ∈ (db.recordGrantEndStop id stop).notices.rows ↔ ∃ before ∈ db.notices.rows,
        afterAnswer { row with stopState := some stop } (decide (stop = .confirmed ∧ row.reason = .revoked))
          before = other := by
  unfold ConsentDb.recordGrantEndStop
  cases found : db.notices.find id with
  | none => exact .inl rfl
  | some row =>
    obtain ⟨member, same⟩ := Table.find_eq_some.mp found
    dsimp only
    cases answered : row.stopState with
    | some state => exact .inl rfl
    | none =>
      refine .inr ⟨row, member, same, answered, fun other => ?_⟩
      subst same
      simp only [Option.isSome_none, Bool.false_eq_true, ↓reduceIte]
      split
      · rename_i settling
        rw [decide_eq_true settling]
        simp [Table.set, Table.update, afterAnswer]
      · rename_i quiet
        rw [decide_eq_false quiet]
        simp [Table.set, afterAnswer]

/-- What an answer leaves of a notice: all but its answer and its settlement; and it opens none. -/
structure Follows (before after : NoticeRow) : Prop where
  id : after.id = before.id
  module : after.module = before.module
  op : after.op = before.op
  refs : after.authorizationRefs = before.authorizationRefs
  reason : after.reason = before.reason
  opens : after.open_ = true → before.open_ = true
  stop : ∀ state, before.stopState = some state → after.stopState = some state

theorem afterAnswer_follows {before : NoticeRow} (stop : GrantEndStop) (settling : Bool)
    (unanswered : row.stopState = none) (only : before.id = row.id → before = row) :
    Follows before (afterAnswer { row with stopState := some stop } settling before) := by
  unfold afterAnswer
  dsimp only
  by_cases here : before.id = row.id
  · obtain rfl := only here
    have settlesNot : ConsentDb.settles { before with stopState := some stop }
        { before with stopState := some stop } = false := by
      simp [ConsentDb.settles]
    rw [if_pos rfl, settlesNot, Bool.and_false, if_neg Bool.false_ne_true]
    refine ⟨rfl, rfl, rfl, rfl, rfl, ?_, ?_⟩
    · simp only [NoticeRow.open_, unanswered]
      intro still
      simp only [Bool.and_eq_true] at still ⊢
      exact ⟨rfl, still.2⟩
    · intro state some
      rw [unanswered] at some
      cases some
  · rw [if_neg here]
    split
    · refine ⟨rfl, rfl, rfl, rfl, rfl, ?_, fun _ some => some⟩
      simp [NoticeRow.open_]
    · exact ⟨rfl, rfl, rfl, rfl, rfl, id, fun _ some => some⟩

theorem afterAnswer_self (row : NoticeRow) (stop : GrantEndStop) (settling : Bool) :
    afterAnswer { row with stopState := some stop } settling row = { row with stopState := some stop } := by
  simp [afterAnswer, ConsentDb.settles]

theorem afterAnswer_other {before : NoticeRow} (stop : GrantEndStop) (settling : Bool)
    (other : before.id ≠ row.id) :
    afterAnswer { row with stopState := some stop } settling before =
      if settling && ConsentDb.settles { row with stopState := some stop } before then
        { before with settledBy := some row.id }
      else before := by
  simp [afterAnswer, other]

theorem settles_iff {recorded : NoticeRow} :
    ConsentDb.settles recorded row = true ↔ InScope recorded row ∧ row.id < recorded.id ∧ row.open_ = true := by
  simp [ConsentDb.settles, InScope, and_assoc]

theorem Follows.scope {r r' row' : NoticeRow} (one : Follows r r') (other : Follows row row') :
    InScope r' row' ↔ InScope r row := by
  simp [InScope, one.module, one.op, other.module, other.op]

theorem Settles.follow {by_ by' row' : NoticeRow} (settles : Settles by_ row) (one : Follows by_ by')
    (other : Follows row row') : Settles by' row' where
  revoked := one.reason.trans settles.revoked
  confirmed := one.stop _ settles.confirmed
  scope := (one.scope other).mpr settles.scope
  earlier := by
    rw [one.id, other.id]
    exact settles.earlier
  carried := by
    rw [one.refs, other.refs]
    exact settles.carried

theorem NoticesSound.answer (sound : NoticesSound db) (id : Nat) (stop : GrantEndStop) :
    NoticesSound (db.recordGrantEndStop id stop) := by
  rcases mem_recordGrantEndStop db id stop with same | ⟨row, member, rfl, unanswered, rows⟩
  · rw [same]
    exact sound
  obtain ⟨notices, frame⟩ := recordGrantEndStop_frame db row.id stop
  have last : (db.recordGrantEndStop row.id stop).lastNotice = db.lastNotice := by rw [frame]
  have follows {before : NoticeRow} (here : before ∈ db.notices.rows) :=
    afterAnswer_follows stop (decide (stop = .confirmed ∧ row.reason = .revoked))
      unanswered fun same => inj_on_of_nodup_map db.notices.distinct here member same
  have only {before : NoticeRow} (here : before ∈ db.notices.rows) (same : before.id = row.id) : before = row :=
    inj_on_of_nodup_map db.notices.distinct here member same
  refine ⟨?_, ?_, ?_, ?_⟩
  · intro other listed
    obtain ⟨before, here, rfl⟩ := (rows other).mp listed
    rw [last, (follows here).id]
    exact sound.numbered before here
  · intro r listedR revoked other listed earlier scope still
    obtain ⟨beforeR, hereR, rfl⟩ := (rows r).mp listedR
    obtain ⟨before, here, rfl⟩ := (rows other).mp listed
    have fR := follows hereR
    have f := follows here
    rw [fR.refs, f.refs]
    rw [fR.reason] at revoked
    rw [f.id, fR.id] at earlier
    exact sound.carried beforeR hereR revoked before here earlier ((fR.scope f).mp scope) (f.opens still)
  · intro other listed id settledBy
    obtain ⟨before, here, rfl⟩ := (rows other).mp listed
    have settledBefore (earlier : before.settledBy = some id) :
        ∃ by_ ∈ (db.recordGrantEndStop row.id stop).notices.rows, by_.id = id ∧ Settles by_
          (afterAnswer { row with stopState := some stop }
            (decide (stop = .confirmed ∧ row.reason = .revoked)) before) := by
      obtain ⟨by_, listedBy, same, settles⟩ := sound.settled before here id earlier
      exact ⟨_, (rows _).mpr ⟨by_, listedBy, rfl⟩, (follows listedBy).id.trans same,
        settles.follow (follows listedBy) (follows here)⟩
    by_cases same : before.id = row.id
    · obtain rfl := only here same
      rw [afterAnswer_self] at settledBy
      exact settledBefore settledBy
    · rw [afterAnswer_other stop _ same] at settledBy
      split at settledBy
      · rename_i settling
        rw [Bool.and_eq_true, decide_eq_true_eq] at settling
        obtain ⟨⟨confirmed, revoked⟩, settles⟩ := settling
        obtain ⟨scope, earlier, still⟩ := settles_iff.mp settles
        cases settledBy
        refine ⟨{ row with stopState := some stop }, (rows _).mpr ⟨row, member, afterAnswer_self row stop _⟩,
          rfl, ?_⟩
        have f := follows here
        refine ⟨revoked, congrArg some confirmed, ⟨f.module.trans scope.1, ?_⟩, ?_, ?_⟩
        · rw [f.op]
          exact scope.2
        · rw [f.id]
          exact earlier
        · rw [f.refs]
          exact sound.carried row member revoked before here earlier scope still
      · exact settledBefore settledBy
  · intro r listedR revoked confirmed other listed earlier scope
    obtain ⟨beforeR, hereR, rfl⟩ := (rows r).mp listedR
    obtain ⟨before, here, rfl⟩ := (rows other).mp listed
    have fR := follows hereR
    have f := follows here
    rw [fR.reason] at revoked
    rw [f.id, fR.id] at earlier
    have reach := (fR.scope f).mp scope
    by_cases same : beforeR.id = row.id
    -- the revocation that is being answered
    · obtain rfl := only hereR same
      rw [afterAnswer_self] at confirmed
      have confirmed : stop = .confirmed := Option.some.inj confirmed
      rw [afterAnswer_other stop _ (Nat.ne_of_lt earlier), decide_eq_true ⟨confirmed, revoked⟩, Bool.true_and]
      split
      · simp [NoticeRow.open_]
      rename_i unsettled
      by_contra still
      exact unsettled (settles_iff.mpr ⟨reach, earlier, eq_true_of_ne_false still⟩)
    · have before_confirmed : beforeR.stopState = some .confirmed := by
        rw [afterAnswer_other stop _ same] at confirmed
        split at confirmed
        · exact confirmed
        · exact confirmed
      have shut := sound.closed beforeR hereR revoked before_confirmed before here earlier reach
      by_contra still
      rw [f.opens (eq_true_of_ne_false still)] at shut
      cases shut

theorem NoticesSound.notified {H : Host} {db' : ConsentDb} (sound : NoticesSound db) {module op : String}
    {ended : List ConsentRow} {reason : GrantEndReason} {generation : Nat}
    (notified : Notified H db module op ended [] reason generation db') (other : reason ≠ .revoked) :
    NoticesSound db' := by
  cases notified with
  | silent nothing notices last => exact sound.of_notices notices last
  | told endedAt routed notices last => exact sound.write rfl rfl rfl (fun revoked => absurd revoked other) notices last

theorem NoticesSound.step {H : Host} {s : Recorded} (sound : NoticesSound s.db) (call : ConsentStep) :
    NoticesSound (Consent.step H s call).db := by
  unfold Consent.step
  split
  · rename_i db event done
    cases exec_effect done with
    | decided record decidedAt expiresAt room fresh decidedText expiresText generation consents revocations
        epochs notified => exact sound.notified notified (fun same => by cases same)
    | revoked module op revokedAt routed room generation consents revocations epochs notices last =>
      refine sound.write rfl rfl rfl ?_ notices last
      intro _ row member scope still ref listed
      simp only [noticeRow, mem_distinctSorted, mem_append]
      refine .inr (mem_flatMap.mpr ⟨row, mem_filter.mpr ⟨member, ?_⟩, listed⟩)
      have sameModule : row.module = module := scope.1
      rw [sameModule, still, beq_self_eq_true, Bool.true_and, Bool.and_true]
      cases op with
      | none => rfl
      | some tool =>
        by_cases all : tool = "*"
        · simp [all, Option.filter]
        · have own : row.op = tool := scope.2.resolve_left all
          simp [all, own, Option.filter]
    | advanced module room generation consents revocations epochs notified =>
      exact sound.notified notified (fun same => by cases same)
    | expiryAnswered module op generation stopState same => exact sound.of_notices (by rw [same]; rfl) (by rw [same]; rfl)
    | observed module enabled entry same => exact sound.of_notices (by rw [same]; rfl) (by rw [same]; rfl)
    | revocationAnswered module op generation stopState same =>
      exact sound.of_notices (by rw [same]; rfl) (by rw [same]; rfl)
    | endAnswered id stop same =>
      rw [same]
      exact sound.answer id stop
  · exact sound

theorem refs_kept {H : Host} {s : Recorded} (sound : NoticesSound s.db) (call : ConsentStep)
    (member : row ∈ s.db.notices.rows) : ∃ after ∈ (Consent.step H s call).db.notices.rows,
      after.authorizationRefs = row.authorizationRefs := by
  unfold Consent.step
  split
  · rename_i db event done
    have kept {fresh : NoticeRow} (id : fresh.id = s.db.lastNotice + 1)
        (notices : db.notices = s.db.notices.put fresh) :
        ∃ after ∈ db.notices.rows, after.authorizationRefs = row.authorizationRefs := by
      refine ⟨row, ?_, rfl⟩
      rw [notices, mem_put_fresh sound id]
      exact .inr member
    have same (notices : db.notices = s.db.notices) :
        ∃ after ∈ db.notices.rows, after.authorizationRefs = row.authorizationRefs :=
      ⟨row, notices ▸ member, rfl⟩
    cases exec_effect done with
    | decided record decidedAt expiresAt room fresh decidedText expiresText generation consents revocations
        epochs notified =>
      cases notified with
      | silent nothing notices last => exact same notices
      | told endedAt routed notices last => exact kept rfl notices
    | revoked module op revokedAt routed room generation consents revocations epochs notices last =>
      exact kept rfl notices
    | advanced module room generation consents revocations epochs notified =>
      cases notified with
      | silent nothing notices last => exact same notices
      | told endedAt routed notices last => exact kept rfl notices
    | expiryAnswered module op generation stopState eq => exact same (by rw [eq]; rfl)
    | observed module enabled entry eq => exact same (by rw [eq]; rfl)
    | revocationAnswered module op generation stopState eq => exact same (by rw [eq]; rfl)
    | endAnswered id stop eq =>
      rcases mem_recordGrantEndStop s.db id stop with unchanged |
        ⟨answered, listed, -, unanswered, rows⟩
      · exact same (by rw [eq, unchanged])
      rw [eq]
      refine ⟨_, (rows _).mpr ⟨row, member, rfl⟩, ?_⟩
      exact (afterAnswer_follows _ _ unanswered
        fun same => inj_on_of_nodup_map s.db.notices.distinct member listed same).refs
  · exact ⟨row, member, rfl⟩

end Notices

section Told
variable {H : Host}

/-- The module's answer that the work of an expired grant has stopped. -/
def ConsentEvent.stopsExpiry (record : ConsentRecord) : ConsentEvent → Bool
  | .expiryAnswered module op generation stopState =>
    module == record.module && op == record.op && generation == record.generation && stopState != "unconfirmed"
  | _ => false

def Told (H : Host) (db : ConsentDb) (record : ConsentRecord) : Prop :=
  ∃ row ∈ db.notices.rows, record.authorizationRef H ∈ row.authorizationRefs

def AnswersSeen (s : Recorded) : Prop :=
  ∀ key row, s.db.consents.find key = some row → ∀ decidedAt expiresAt newer older,
    s.history = newer ++ .decided row.toConsentRecord decidedAt expiresAt :: older →
    (∀ event ∈ newer, event.stopsExpiry row.toConsentRecord = false) → row.mayRun = true

def EndsTold (H : Host) (s : Recorded) : Prop :=
  ∀ record decidedAt expiresAt newer ender between older,
    s.history = newer ++ ender :: (between ++ .decided record decidedAt expiresAt :: older) →
    record.decision = .granted → ender.ends record.module record.op = true →
    (∀ event ∈ between, event.stopsExpiry record = false) → Told H s.db record

theorem AnswersSeen.empty : AnswersSeen .empty := by
  intro key row found decidedAt expiresAt newer older split
  simp [Recorded.empty] at split

variable {s : Recorded} {db : ConsentDb}

theorem AnswersSeen.cons (seen : AnswersSeen s) {event : ConsentEvent}
    (found : ∀ key row, db.consents.find key = some row → row.mayRun = true ∨ event.stopsExpiry row.toConsentRecord = true ∨ s.db.consents.find key = some row ∧ event.decides row.module row.op = false) :
    AnswersSeen ⟨db, event :: s.history⟩ := by
  intro key row here decidedAt expiresAt newer older split quiet
  rcases found key row here with runs | stops | ⟨before, other⟩
  · exact runs
  · rcases cons_eq_append_iff.mp split with ⟨rfl, same⟩ | ⟨rest, rfl, -⟩
    · obtain ⟨rfl, -⟩ := List.cons.inj same
      cases stops
    · rw [quiet event (mem_cons_self ..)] at stops
      cases stops
  · rcases cons_eq_append_iff.mp split with ⟨rfl, same⟩ | ⟨rest, rfl, earlier⟩
    · obtain ⟨rfl, -⟩ := List.cons.inj same
      simp [ConsentEvent.decides] at other
    · exact seen key row before decidedAt expiresAt rest older earlier
        fun e member => quiet e (mem_cons_of_mem _ member)

theorem AnswersSeen.step (seen : AnswersSeen s) (call : ConsentStep) :
    AnswersSeen (Consent.step H s call) := by
  unfold Consent.step
  split
  · rename_i db event done
    cases exec_effect done with
    | decided record decidedAt expiresAt room fresh decidedText expiresText generation consents =>
      refine seen.cons fun key row found => ?_
      rw [consents, Table.find_put] at found
      split at found
      · cases found
        exact .inl rfl
      rename_i apart
      refine .inr (.inr ⟨found, ?_⟩)
      have here : ConsentRow.key row = key := Table.find_key found
      simp only [ConsentEvent.decides, Bool.and_eq_false_iff, beq_eq_false_iff_ne]
      rw [← not_and_or]
      rintro ⟨sameModule, sameOp⟩
      exact apart (here.symm.trans (Prod.ext sameModule.symm sameOp.symm))
    | revoked module op revokedAt routed room generation consents =>
      exact seen.cons fun key row found => .inr (.inr ⟨consents ▸ found, rfl⟩)
    | advanced module room generation consents =>
      exact seen.cons fun key row found => .inr (.inr ⟨consents ▸ found, rfl⟩)
    | expiryAnswered module op generation stopState same =>
      refine seen.cons fun key row found => ?_
      rw [same, find_recordExpiryStop, Option.map_eq_some_iff] at found
      obtain ⟨old, before, rfl⟩ := found
      split
      · rename_i answers
        by_cases unsure : stopState = "unconfirmed"
        · subst unsure
          exact .inl rfl
        refine .inr (.inl ?_)
        simp only [ConsentDb.expiryAnswers, Bool.and_eq_true, beq_iff_eq] at answers
        obtain ⟨⟨rfl, rfl⟩, rfl⟩ := answers
        simp [ConsentEvent.stopsExpiry, ConsentRow.answer, unsure]
      · exact .inr (.inr ⟨before, rfl⟩)
    | observed module enabled entry same =>
      rw [same]
      exact seen
    | revocationAnswered module op generation stopState same =>
      rw [same]
      exact seen
    | endAnswered id stop same =>
      obtain ⟨notices, frame⟩ := recordGrantEndStop_frame s.db id stop
      rw [same, frame]
      exact seen
  · exact seen

theorem Told.step (sound : NoticesSound s.db) {record : ConsentRecord} (told : Told H s.db record)
    (call : ConsentStep) : Told H (Consent.step H s call).db record := by
  obtain ⟨row, member, listed⟩ := told
  obtain ⟨after, kept, same⟩ := refs_kept (H := H) sound call member
  exact ⟨after, kept, same ▸ listed⟩

theorem row_of_standing (agrees : Agrees H s) (seen : AnswersSeen s) {record : ConsentRecord}
    {decidedAt expiresAt : String} {newer older : List ConsentEvent}
    (split : s.history = newer ++ .decided record decidedAt expiresAt :: older)
    (quiet : ∀ event ∈ newer, event.ends record.module record.op = false)
    (runs : ∀ event ∈ newer, event.stopsExpiry record = false) :
    ∃ row ∈ s.db.consents.rows, row.toConsentRecord = record ∧ row.mayRun = true ∧
      s.db.covered row = false ∧ row.enableEpoch = s.db.currentEnableEpoch record.module := by
  have later : ∀ event ∈ newer, event.decides record.module record.op = false := by
    intro event member
    have none := quiet event member
    simp only [ConsentEvent.ends, Bool.or_eq_false_iff] at none
    exact none.1.1.1
  cases found : s.db.consents.find (record.module, record.op) with
  | none =>
    have undecided := agrees.undecided record.module record.op found (.decided record decidedAt expiresAt)
      (by rw [split]; simp)
    simp [ConsentEvent.decides] at undecided
  | some row =>
    have key : ConsentRow.key row = (record.module, record.op) := Table.find_key found
    obtain ⟨sameModule, sameOp⟩ := Prod.mk.inj key
    obtain ⟨d, e, newer', older', split', later', epoch, -⟩ := agrees.decided _ row found
    rw [sameModule, sameOp] at later'
    obtain ⟨rfl, same, rfl⟩ := first_split_unique (split'.symm.trans split) later' later
      (by simp [ConsentEvent.decides, sameModule, sameOp]) (by simp [ConsentEvent.decides])
    cases same
    obtain ⟨unreached, current⟩ := (stands_iff agrees split later epoch).mp quiet
    refine ⟨row, Table.mem_rows_iff.mpr (key ▸ found), rfl, ?_, ?_, current⟩
    · exact seen _ row found decidedAt expiresAt newer' older' split runs
    · have free := mt (any_revocation_iff agrees _ _ row.generation).mp unreached
      rw [any_filter] at free
      exact eq_false_of_ne_true free

theorem Notified.carries {db' : ConsentDb} {module op : String} {ended : List ConsentRow} {also : List String}
    {reason : GrantEndReason} {generation : Nat}
    (notified : Notified H db module op ended also reason generation db') {row : ConsentRow}
    (listed : row ∈ ended) : Told H db' row.toConsentRecord := by
  cases notified with
  | silent nothing =>
    rw [nothing] at listed
    cases listed
  | told endedAt routed notices =>
    refine ⟨noticeRow H db module op ended also reason endedAt generation routed, ?_, ?_⟩
    · rw [notices, Table.mem_put]
      exact .inl rfl
    · rw [noticeRow, mem_distinctSorted]
      exact mem_append_left _ (mem_map_of_mem listed)

theorem told_of_ended {event : ConsentEvent} {row : ConsentRow} (effect : Effect H s.db db (some event))
    (member : row ∈ s.db.consents.rows) (granted : row.decision = .granted) (runs : row.mayRun = true)
    (uncovered : s.db.covered row = false) (epoch : row.enableEpoch = s.db.currentEnableEpoch row.module)
    (ends : event.ends row.module row.op = true) : Told H db row.toConsentRecord := by
  have listed {op : Option String} {epoch : Option Nat} (own : ∀ o, op = some o → row.op = o)
      (now : ∀ e, epoch = some e → row.enableEpoch = e) : row ∈ s.db.untold row.module op epoch := by
    refine mem_filter.mpr ⟨member, ?_⟩
    simp only [beq_self_eq_true, Bool.true_and, granted, runs, uncovered, Bool.not_false, Bool.and_true,
      Bool.and_eq_true]
    constructor
    · cases op with
      | none => rfl
      | some o => exact beq_iff_eq.mpr (own o rfl)
    · cases epoch with
      | none => rfl
      | some e => exact beq_iff_eq.mpr (now e rfl)
  generalize recorded : some event = committed at effect
  cases effect with
  | decided record decidedAt expiresAt room fresh decidedText expiresText generation consents revocations
      epochs notified =>
    cases recorded
    have same : record.module = row.module ∧ record.op = row.op := by
      simpa [ConsentEvent.ends, ConsentEvent.decides, ConsentEvent.revokesAt, ConsentEvent.advancesTo]
        using ends
    rw [same.1, same.2] at notified
    exact notified.carries (listed (fun o here => Option.some.inj here) (fun _ same => by cases same))
  | revoked module op revokedAt routed room generation consents revocations epochs notices last =>
    cases recorded
    have reaches : module = row.module ∧ (op.getD "*" = row.op ∨ op.getD "*" = "*") := by
      simp only [ConsentEvent.ends, ConsentEvent.decides, ConsentEvent.revokesAt, ConsentEvent.advancesTo,
        Bool.false_or, Option.isSome_none, Bool.or_false, Bool.or_eq_true] at ends
      rcases ends with own | all
      · split at own
        · rename_i both
          exact ⟨both.1, .inl both.2⟩
        · cases own
      · split at all
        · rename_i both
          exact ⟨both.1, .inr both.2⟩
        · cases all
    obtain ⟨rfl, covers⟩ := reaches
    refine (Notified.told revokedAt routed notices last).carries (listed ?_ (fun _ same => by cases same))
    intro tool kept
    obtain ⟨rfl, named⟩ := Option.filter_eq_some_iff.mp kept
    simp only [bne_iff_ne, ne_eq, Option.getD_some] at named covers
    exact (covers.resolve_right named).symm
  | advanced module room generation consents revocations epochs notified =>
    cases recorded
    have same : module = row.module := by
      simp only [ConsentEvent.ends, ConsentEvent.decides, ConsentEvent.revokesAt, ConsentEvent.advancesTo,
        Bool.false_or, Option.isSome_none] at ends
      by_contra other
      simp [other] at ends
    subst same
    exact notified.carries (listed (fun _ same => by cases same) fun e here => epoch.trans (Option.some.inj here))
  | expiryAnswered =>
    cases recorded
    cases ends
  | observed => cases recorded
  | revocationAnswered => cases recorded
  | endAnswered => cases recorded

theorem EndsTold.step (agrees : Agrees H s) (sound : NoticesSound s.db) (seen : AnswersSeen s)
    (told : EndsTold H s) (call : ConsentStep) : EndsTold H (Consent.step H s call) := by
  intro record decidedAt expiresAt newer ender between older split granted ends quiet
  -- what was told before the call stays told
  have before (earlier : Told H s.db record) : Told H (Consent.step H s call).db record :=
    earlier.step sound call
  unfold Consent.step at split before ⊢
  cases done : exec H s.db call with
  | error e =>
    rw [done] at split
    exact told record decidedAt expiresAt newer ender between older split granted ends quiet
  | ok committed =>
    obtain ⟨db, event⟩ := committed
    rw [done] at split before
    cases event with
    | none => exact before (told record decidedAt expiresAt newer ender between older split granted ends quiet)
    | some event =>
      rcases cons_eq_append_iff.mp split with ⟨rfl, same⟩ | ⟨rest, rfl, earlier⟩
      swap
      · exact before (told record decidedAt expiresAt rest ender between older earlier granted ends quiet)
      have history : s.history = between ++ .decided record decidedAt expiresAt :: older :=
        (List.cons.inj same).2.symm
      obtain rfl := (List.cons.inj same).1
      -- the call is the end of a grant: of one ended before, or of one that stood
      by_cases standing : ∀ e ∈ between, e.ends record.module record.op = false
      · obtain ⟨row, member, rfl, runs, uncovered, epoch⟩ :=
          row_of_standing agrees seen history standing quiet
        exact told_of_ended (exec_effect done) member granted runs uncovered epoch ends
      · push Not at standing
        obtain ⟨e, member, ended⟩ := standing
        obtain ⟨later, rest, rfl⟩ := append_of_mem member
        refine before (told record decidedAt expiresAt later e rest older ?_ granted
          (eq_true_of_ne_false ended) ?_)
        · rw [history, append_assoc]
          rfl
        · exact fun e member => quiet e (mem_append_right _ (mem_cons_of_mem _ member))

/-- A notice that nobody has answered and nothing has settled is handed out at any instant; a routed one
only from its instant on, and the reader is told when. -/
def Pending (H : Host) (db : ConsentDb) (row : NoticeRow) : Prop :=
  ∀ now t, H.parse now = some t → ∃ due next, db.pendingGrantEndNotices H now = .ok (due, next) ∧
    (row ∈ due ∨ row.routed = true ∧ ∃ first ended, next = some first ∧ H.parse row.endedAt = some ended ∧
      millis t < first ∧ first ≤ millis ended + 30_000)

theorem pending_of_open {row : NoticeRow} (member : row ∈ db.notices.rows) (unanswered : row.stopState = none)
    (unsettled : row.settledBy = none) : Pending H db row := by
  intro now t read
  have listed : row ∈ db.notices.rows.filter fun row => row.stopState == none && row.settledBy == none :=
    mem_filter.mpr ⟨member, by rw [unanswered, unsettled]; rfl⟩
  simp only [ConsentDb.pendingGrantEndNotices, parseInstant_eq_ok.mpr read, bind, Except.bind, pure, Except.pure]
  refine ⟨_, _, rfl, ?_⟩
  cases held : row.routed && decide (millis t <
      ((H.parse row.endedAt).map fun t => millis t + 30_000).getD (millis t)) with
  | false =>
    refine .inl (mem_filter.mpr ⟨listed, ?_⟩)
    rw [held]
    rfl
  | true =>
    simp only [Bool.and_eq_true, decide_eq_true_eq] at held
    obtain ⟨routed, early⟩ := held
    refine .inr ⟨routed, ?_⟩
    cases ended : H.parse row.endedAt with
    | none =>
      rw [ended] at early
      exact absurd early (lt_irrefl _)
    | some e =>
      rw [ended] at early
      have due : millis e + 30_000 ∈ ((db.notices.rows.filter fun row =>
          row.stopState == none && row.settledBy == none).filter fun row =>
            row.routed && decide (millis t <
              ((H.parse row.endedAt).map fun t => millis t + 30_000).getD (millis t))).map
          fun row => ((H.parse row.endedAt).map fun t => millis t + 30_000).getD (millis t) := by
        refine mem_map.mpr ⟨row, mem_filter.mpr ⟨listed, ?_⟩, by rw [ended]; rfl⟩
        rw [routed, ended, Bool.true_and]
        exact decide_eq_true early
      obtain ⟨first, least⟩ := Option.isSome_iff_exists.mp (isSome_min?_of_mem due)
      obtain ⟨among, below⟩ := List.min?_eq_some_iff.mp least
      obtain ⟨other, kept, rfl⟩ := mem_map.mp among
      have later := (mem_filter.mp kept).2
      simp only [Bool.and_eq_true, decide_eq_true_eq] at later
      exact ⟨_, e, least, rfl, later.2, below _ due⟩

theorem told_run (calls : List ConsentStep) :
    let s := run (Consent.step H) calls .empty
    Agrees H s ∧ NoticesSound s.db ∧ AnswersSeen s ∧ EndsTold H s := by
  refine run_invariant (Consent.step H) (fun _ => True)
    (fun s => Agrees H s ∧ NoticesSound s.db ∧ AnswersSeen s ∧ EndsTold H s) ?_ (fun _ _ => trivial)
    ⟨.empty, .empty, .empty, ?_⟩
  · rintro s call - ⟨agrees, sound, seen, told⟩
    exact ⟨agrees.step call, sound.step call, seen.step call, told.step agrees sound seen call⟩
  · intro record decidedAt expiresAt newer ender between older split
    simp [Recorded.empty] at split

/-- No ended grant goes untold, and a revocation settles the notices of its scope that it carries, once
it is confirmed. -/
theorem ended_grants_told (H : Host) (calls : List ConsentStep) :
    (∀ record decidedAt expiresAt newer ender between older,
      (run (step H) calls .empty).history =
        newer ++ ender :: (between ++ .decided record decidedAt expiresAt :: older) →
      record.decision = .granted → ender.ends record.module record.op = true →
      (∀ event ∈ between, event.stopsExpiry record = false) →
      ∃ row ∈ (run (step H) calls .empty).db.notices.rows, record.authorizationRef H ∈ row.authorizationRefs ∧
        (Pending H (run (step H) calls .empty).db row ∨ row.stopState.isSome ∨ row.settledBy.isSome)) ∧
    (∀ row ∈ (run (step H) calls .empty).db.notices.rows, ∀ id, row.settledBy = some id →
      ∃ by_ ∈ (run (step H) calls .empty).db.notices.rows, by_.id = id ∧ by_.reason = .revoked ∧
        by_.stopState = some .confirmed ∧ row.authorizationRefs ⊆ by_.authorizationRefs ∧
        row.module = by_.module ∧ (by_.op ≠ "*" → row.op = by_.op)) ∧
    (∀ r ∈ (run (step H) calls .empty).db.notices.rows, r.reason = .revoked → r.stopState = some .confirmed →
      ∀ row ∈ (run (step H) calls .empty).db.notices.rows, row.id < r.id → row.module = r.module →
        (r.op = "*" ∨ row.op = r.op) →
        (row.stopState ≠ none ∧ row.stopState ≠ some .unconfirmed) ∨ row.settledBy.isSome) := by
  obtain ⟨-, sound, -, told⟩ := told_run (H := H) calls
  refine ⟨?_, ?_, ?_⟩
  · intro record decidedAt expiresAt newer ender between older split granted ends quiet
    obtain ⟨row, member, listed⟩ :=
      told record decidedAt expiresAt newer ender between older split granted ends quiet
    refine ⟨row, member, listed, ?_⟩
    by_cases unanswered : row.stopState = none
    · by_cases unsettled : row.settledBy = none
      · exact .inl (pending_of_open member unanswered unsettled)
      · exact .inr (.inr (Option.isSome_iff_ne_none.mpr unsettled))
    · exact .inr (.inl (Option.isSome_iff_ne_none.mpr unanswered))
  · intro row member id settledBy
    obtain ⟨by_, listed, same, settles⟩ := sound.settled row member id settledBy
    exact ⟨by_, listed, same, settles.revoked, settles.confirmed, settles.carried, settles.scope.1,
      settles.scope.2.resolve_left⟩
  · intro r listed revoked confirmed row member earlier sameModule scope
    have shut := sound.closed r listed revoked confirmed row member earlier ⟨sameModule, scope⟩
    simp only [NoticeRow.open_, Bool.and_eq_false_iff, Bool.or_eq_false_iff, beq_eq_false_iff_ne] at shut
    rcases shut with answered | settled
    · exact .inl answered
    refine .inr (Option.isSome_iff_ne_none.mpr fun none => ?_)
    rw [none] at settled
    cases settled

end Told

end Agent24.Consent
