import Agent24.Consent.Grant
import Agent24.Library.Runs
import Agent24.Library.Table

/-! The consent tables and their transactions: decisions, revocations, enable epochs, and the notices
of ended grants. Each transaction holds the write lock before it reads, so it is one step. -/

set_option autoImplicit false
namespace Agent24.Consent
open Library

structure ConsentRow extends ConsentRecord where
  enableEpoch : Nat
  expiryStopState : Option String
  deriving DecidableEq

def ConsentRow.key (row : ConsentRow) : String × String := (row.module, row.op)

def ConsentRow.answer (stopState : String) (row : ConsentRow) : ConsentRow :=
  { row with expiryStopState := some stopState }

/-- `op = "*"` covers every tool of the module. -/
structure RevocationRow where
  module : String
  op : String
  revokedAt : String
  generation : Nat
  stopState : Option String
  deriving DecidableEq

def RevocationRow.key (row : RevocationRow) : String × String := (row.module, row.op)

def RevocationRow.answer (stopState : String) (row : RevocationRow) : RevocationRow :=
  { row with stopState := some stopState }

structure EpochRow where
  module : String
  epoch : Nat
  observedEnabled : Bool
  observedEntry : Option String
  deriving DecidableEq

inductive GrantEndReason where
  | revoked | replaced | epoch
  deriving DecidableEq

inductive GrantEndStop where
  | confirmed | unconfirmed | notRunning
  deriving DecidableEq

structure NoticeRow where
  id : Nat
  module : String
  op : String
  authorizationRefs : List String
  reason : GrantEndReason
  endedAt : String
  generation : Nat
  routed : Bool
  stopState : Option GrantEndStop
  settledBy : Option Nat
  deriving DecidableEq

structure ConsentDb where
  consents : Table ConsentRow.key
  revocations : Table RevocationRow.key
  epochs : Table EpochRow.module
  notices : Table NoticeRow.id
  /-- The last key of `module_consent_generations`. -/
  lastGeneration : Nat
  /-- The last key of `module_grant_end_notices`. -/
  lastNotice : Nat

def ConsentDb.empty : ConsentDb := ⟨.empty, .empty, .empty, .empty, 0, 0⟩

def nextKey (last : Nat) : Except StoreError Nat := if last < keyMax then .ok (last + 1) else .error .full

def ConsentRow.mayRun (row : ConsentRow) : Bool := row.expiryStopState.all (· == "unconfirmed")

namespace NoticeRow

/-- Not answered, or answered `unconfirmed`, and settled by no revocation. -/
def open_ (row : NoticeRow) : Bool :=
  (row.stopState == none || row.stopState == some .unconfirmed) && row.settledBy.isNone

end NoticeRow

namespace ConsentDb

section
variable (db : ConsentDb)

def currentEnableEpoch (module : String) : Nat :=
  ((db.epochs.find module).map EpochRow.epoch).getD 0

def covered (row : ConsentRow) : Bool :=
  db.revocations.rows.any fun r =>
    r.module == row.module && (r.op == row.op || r.op == "*") && decide (row.generation ≤ r.generation)

def untold (module : String) (op : Option String) (epoch : Option Nat) : List ConsentRow :=
  db.consents.rows.filter fun row =>
    row.module == module && op.all (row.op == ·) && epoch.all (row.enableEpoch == ·) &&
      row.decision == .granted && row.mayRun && !db.covered row

def unconfirmed (module : String) (op : Option String) : List String :=
  (db.notices.rows.filter fun row =>
    row.module == module && op.all (fun op => row.op == op || row.op == "*") && row.open_).flatMap
      NoticeRow.authorizationRefs

def recordEnablement (module : String) (enabled : Bool) (entry : String) : ConsentDb :=
  { db with epochs := db.epochs.put ⟨module, db.currentEnableEpoch module, enabled, some entry⟩ }

def setEpoch (module : String) (epoch : Nat) : ConsentDb :=
  { db with epochs := db.epochs.put (match db.epochs.find module with
      | some row => { row with epoch := epoch }
      | none => ⟨module, epoch, false, none⟩) }

end

variable (H : Host)

section
variable (db : ConsentDb)

/-- `grant_end_notices::write`. -/
def writeNotice (module op : String) (ended : List ConsentRow) (also : List String) (reason : GrantEndReason)
    (endedAt : String) (generation : Nat) (routed : Bool) :
    Except StoreError ConsentDb := do
  let id ← nextKey db.lastNotice
  let refs := distinctSorted (ended.map (fun row => row.toConsentRecord.authorizationRef H) ++ also)
  pure { db with
    notices := db.notices.put ⟨id, module, op, refs, reason, endedAt, generation, routed, none, none⟩
    lastNotice := id }

def advanceEnableEpoch (module now : String) : Except StoreError (ConsentDb × Nat) := do
  let epoch ← nextKey db.lastGeneration
  let ended := db.untold module none (some (db.currentEnableEpoch module))
  let db := { db.setEpoch module epoch with lastGeneration := epoch }
  if ended.isEmpty then pure (db, epoch)
  else do
    let db ← db.writeNotice H module "*" ended [] .epoch now epoch false
    pure (db, epoch)

def parseInstant (text : String) : Except StoreError Scheduler.Instant :=
  match H.parse text with
  | some t => .ok t
  | none => .error (.conflict ("invalid timestamp: " ++ text))

def revoke (module : String) (op : Option String) (now : String) (routed : Bool) :
    Except StoreError (ConsentDb × Nat) := do
  let at_ ← parseInstant H now
  let revokedAt := H.canonical at_
  let key := op.getD "*"
  let generation ← nextKey db.lastGeneration
  -- `*` named as a tool is the whole module
  let tool := op.filter fun op => op != "*"
  let ended := db.untold module tool none
  let also := db.unconfirmed module tool
  let db := { db with
    lastGeneration := generation
    revocations := db.revocations.put ⟨module, key, revokedAt, generation, none⟩ }
  let db ← db.writeNotice H module key ended also .revoked revokedAt generation routed
  pure (db, generation)

def upsertModuleConsent (summary : ToolPermissionSummary) (scope : GrantScope) (decision : ConsentDecision)
    (decidedAt expiresAt : String) :
    Except StoreError (ConsentDb × ConsentRecord) := do
  let decided ← parseInstant H decidedAt
  let expires ← parseInstant H expiresAt
  let resources ← canonicalResources scope.resources
  let generation ← nextKey db.lastGeneration
  let record : ConsentRecord := {
    module := summary.module
    op := summary.op
    moduleVersion := summary.moduleVersion
    scopeFingerprint := summary.scopeFingerprint H
    source := summary.source
    risk := summary.risk
    readable := summary.readable
    writable := summary.writable
    external := summary.external
    reversibleDraft := summary.reversibleDraft
    decision := decision
    decidedAt := H.canonical decided
    expiresAt := H.canonical expires
    resources := resources
    artifact := scope.artifact
    generation := generation }
  let replaced := db.untold summary.module (some summary.op) none
  let db := { db with
    lastGeneration := generation
    consents := db.consents.put ⟨record, db.currentEnableEpoch summary.module, none⟩ }
  if replaced.isEmpty then pure (db, record)
  else do
    let db ← db.writeNotice H summary.module summary.op replaced [] .replaced record.decidedAt generation false
    pure (db, record)

/-- `observe_module_enablement`: the epoch it advanced to, if it did. -/
def observeModuleEnablement (module : String) (enabled : Bool) (entry now : String) :
    Except StoreError (ConsentDb × Option Nat) := do
  let unchanged := (db.epochs.find module).any fun row =>
    row.observedEnabled && row.observedEntry == some entry
  if enabled && !unchanged then do
    let (db, epoch) ← db.advanceEnableEpoch H module now
    pure (db.recordEnablement module enabled entry, some epoch)
  else pure (db.recordEnablement module enabled entry, none)

/-- The rows that `record_revocation_stop` answers. -/
def revocationAnswers (module : String) (op : Option String) (generation : Nat) (row : RevocationRow) : Bool :=
  row.module == module && row.op == op.getD "*" && row.generation == generation

def recordRevocationStop (module : String) (op : Option String) (generation : Nat) (stopState : String) : ConsentDb :=
  { db with
    revocations := db.revocations.update (revocationAnswers module op generation)
      (RevocationRow.answer stopState) fun _ => rfl }

/-- The rows that `record_expiry_stop` answers. -/
def expiryAnswers (module op : String) (generation : Nat) (row : ConsentRow) : Bool :=
  row.module == module && row.op == op && row.generation == generation

def recordExpiryStop (module op : String) (generation : Nat) (stopState : String) :
    ConsentDb :=
  { db with
    consents := db.consents.update (expiryAnswers module op generation) (ConsentRow.answer stopState)
      fun _ => rfl }

def settles (recorded row : NoticeRow) : Bool :=
  row.module == recorded.module && (recorded.op == "*" || row.op == recorded.op) &&
    decide (row.id < recorded.id) && row.open_

/-- `record_grant_end_stop`: the first answer stands. -/
def recordGrantEndStop (id : Nat) (stop : GrantEndStop) : ConsentDb :=
  match db.notices.find id with
  | none => db
  | some row =>
    if row.stopState.isSome then db
    else
      let recorded := { row with stopState := some stop }
      let answered := db.notices.set recorded
      if stop = .confirmed ∧ row.reason = .revoked then
        { db with
          notices := answered.update (settles recorded)
            (fun other => { other with settledBy := some id }) fun _ => rfl }
      else { db with notices := answered }

/-- `pending_grant_end_notices`, in table order: the notices due now, and the earliest instant a
routed one held back is due. -/
def pendingGrantEndNotices (now : String) :
    Except StoreError (List NoticeRow × Option Int) := do
  let now ← parseInstant H now
  let rows := db.notices.rows.filter fun row => row.stopState == none && row.settledBy == none
  let due (row : NoticeRow) : Int := ((H.parse row.endedAt).map fun t => millis t + 30_000).getD (millis now)
  let held (row : NoticeRow) : Bool := row.routed && decide (millis now < due row)
  pure (rows.filter fun row => !held row, ((rows.filter held).map due).min?)

end

end ConsentDb

inductive ConsentLookup where
  | notGranted
  | denied (record : ConsentRecord)
  | revoked (record : Option ConsentRecord)
  | stale (record : ConsentRecord)
  | expired (record : ConsentRecord)
  | granted (record : ConsentRecord)
  deriving DecidableEq

def ConsentLookup.isAuthorized : ConsentLookup → Bool
  | .granted _ => true
  | _ => false

def isExpired (H : Host) (now expiresAt : String) : Bool :=
  match H.parse now, H.parse expiresAt with
  | some now, some expiry => decide (millis expiry < millis now)
  | _, _ => true

def lookupModuleConsent (H : Host) (db : ConsentDb) (module op moduleVersion scopeFingerprint now : String) :
    ConsentLookup :=
  let revocations := db.revocations.rows.filter fun r => r.module == module && (r.op == op || r.op == "*")
  match db.consents.find (module, op) with
  | none => if revocations.isEmpty then .notGranted else .revoked none
  | some row =>
    let record := row.toConsentRecord
    if (H.parse record.decidedAt).isNone then .revoked (some record)
    else if revocations.any fun r => decide (record.generation ≤ r.generation) then .revoked (some record)
    else if record.moduleVersion ≠ moduleVersion ∨ record.scopeFingerprint ≠ scopeFingerprint ∨
        row.enableEpoch ≠ db.currentEnableEpoch module then .stale record
    else if isExpired H now record.expiresAt then .expired record
    else match record.decision with
      | .granted => .granted record
      | .denied => .denied record

/-- A call on the store; `at_` is a reading of the host's clock. -/
inductive ConsentStep where
  | grant (summary : ToolPermissionSummary) (scope : GrantScope) (decidedAt expiresAt : String)
  | deny (summary : ToolPermissionSummary) (decidedAt expiresAt : String)
  | revoke (module : String) (op : Option String) (now : String) (routed : Bool)
  | advanceEpoch (module at_ : String)
  | observe (module : String) (enabled : Bool) (entry at_ : String)
  | recordEnablement (module : String) (enabled : Bool) (entry : String)
  | answerRevocation (module : String) (op : Option String) (generation : Nat) (stopState : String)
  | answerExpiry (module op : String) (generation : Nat) (stopState : String)
  | answerEnd (id : Nat) (stop : GrantEndStop)

/-- What a committed call did to the decisions: the history that a lookup is judged by. A decision
comes with the texts it was given. -/
inductive ConsentEvent where
  | decided (record : ConsentRecord) (decidedAt expiresAt : String)
  | revoked (module op : String) (generation : Nat)
  | advanced (module : String) (generation : Nat)
  | expiryAnswered (module op : String) (generation : Nat) (stopState : String)
  deriving DecidableEq

def exec (H : Host) (db : ConsentDb) : ConsentStep → Except StoreError (ConsentDb × Option ConsentEvent)
  | .grant summary scope decidedAt expiresAt => do
    let (db, record) ← db.upsertModuleConsent H summary scope .granted decidedAt expiresAt
    pure (db, some (.decided record decidedAt expiresAt))
  | .deny summary decidedAt expiresAt => do
    let (db, record) ← db.upsertModuleConsent H summary .default .denied decidedAt expiresAt
    pure (db, some (.decided record decidedAt expiresAt))
  | .revoke module op now routed => do
    let (db, generation) ← db.revoke H module op now routed
    pure (db, some (.revoked module (op.getD "*") generation))
  | .advanceEpoch module at_ => do
    let (db, epoch) ← db.advanceEnableEpoch H module at_
    pure (db, some (.advanced module epoch))
  | .observe module enabled entry at_ => do
    let (db, epoch) ← db.observeModuleEnablement H module enabled entry at_
    pure (db, epoch.map (.advanced module))
  | .recordEnablement module enabled entry => pure (db.recordEnablement module enabled entry, none)
  | .answerRevocation module op generation stopState =>
    pure (db.recordRevocationStop module op generation stopState, none)
  | .answerExpiry module op generation stopState =>
    pure (db.recordExpiryStop module op generation stopState,
      some (.expiryAnswered module op generation stopState))
  | .answerEnd id stop => pure (db.recordGrantEndStop id stop, none)

section Effects
variable {H : Host}

theorem nextKey_eq_ok {last key : Nat} : nextKey last = .ok key ↔ key = last + 1 ∧ last < keyMax := by
  unfold nextKey
  split
  · rename_i room
    simp [room, eq_comm]
  · rename_i none
    simp [none]

theorem parseInstant_eq_ok {text : String} {t : Scheduler.Instant} :
    ConsentDb.parseInstant H text = .ok t ↔ H.parse text = some t := by
  unfold ConsentDb.parseInstant
  cases H.parse text with
  | none => exact ⟨nofun, nofun⟩
  | some read => simp

def noticeRow (H : Host) (db : ConsentDb) (module op : String) (ended : List ConsentRow)
    (also : List String) (reason : GrantEndReason) (endedAt : String) (generation : Nat) (routed : Bool) :
    NoticeRow :=
  ⟨db.lastNotice + 1, module, op,
    distinctSorted (ended.map (fun row => row.toConsentRecord.authorizationRef H) ++ also), reason, endedAt,
    generation, routed, none, none⟩

variable {db db' : ConsentDb} {module : String}

theorem writeNotice_eq_ok {op : String} {ended : List ConsentRow} {also : List String} {reason : GrantEndReason}
    {endedAt : String} {generation : Nat} {routed : Bool} :
    db.writeNotice H module op ended also reason endedAt generation routed = .ok db' ↔
      db.lastNotice < keyMax ∧ db' = { db with
        notices := db.notices.put
          (noticeRow H db module op ended also reason endedAt generation routed)
        lastNotice := db.lastNotice + 1 } := by
  unfold ConsentDb.writeNotice nextKey
  split
  · rename_i room
    constructor
    · intro same
      exact ⟨room, (Except.ok.inj same).symm⟩
    · rintro ⟨-, rfl⟩
      rfl
  · rename_i full
    constructor
    · intro same
      cases same
    · rintro ⟨room, -⟩
      exact absurd room full

inductive Notified (H : Host) (db : ConsentDb) (module op : String) (ended : List ConsentRow)
    (also : List String) (reason : GrantEndReason) (generation : Nat) (db' : ConsentDb) : Prop where
  | silent (nothing : ended = []) (notices : db'.notices = db.notices) (last : db'.lastNotice = db.lastNotice)
  | told (endedAt : String) (routed : Bool)
      (notices : db'.notices = db.notices.put
        (noticeRow H db module op ended also reason endedAt generation routed))
      (last : db'.lastNotice = db.lastNotice + 1)

inductive Effect (H : Host) (db db' : ConsentDb) : Option ConsentEvent → Prop where
  | decided (record : ConsentRecord) (decidedAt expiresAt : String)
      (room : db.lastGeneration < keyMax) (fresh : record.generation = db.lastGeneration + 1)
      (decidedText : ∃ t, H.parse decidedAt = some t ∧ record.decidedAt = H.canonical t)
      (expiresText : ∃ t, H.parse expiresAt = some t ∧ record.expiresAt = H.canonical t)
      (generation : db'.lastGeneration = db.lastGeneration + 1)
      (consents : db'.consents = db.consents.put ⟨record, db.currentEnableEpoch record.module, none⟩)
      (revocations : db'.revocations = db.revocations) (epochs : db'.epochs = db.epochs)
      (notified : Notified H db record.module record.op (db.untold record.module (some record.op) none) []
        .replaced record.generation db') :
      Effect H db db' (some (.decided record decidedAt expiresAt))
  | revoked (module : String) (op : Option String) (revokedAt : String) (routed : Bool)
      (room : db.lastGeneration < keyMax)
      (generation : db'.lastGeneration = db.lastGeneration + 1) (consents : db'.consents = db.consents)
      (revocations : db'.revocations =
        db.revocations.put ⟨module, op.getD "*", revokedAt, db.lastGeneration + 1, none⟩)
      (epochs : db'.epochs = db.epochs)
      (notices : db'.notices = db.notices.put (noticeRow H db module (op.getD "*")
        (db.untold module (op.filter fun op => op != "*") none)
        (db.unconfirmed module (op.filter fun op => op != "*")) .revoked revokedAt
        (db.lastGeneration + 1) routed))
      (last : db'.lastNotice = db.lastNotice + 1) :
      Effect H db db' (some (.revoked module (op.getD "*") (db.lastGeneration + 1)))
  | advanced (module : String) (room : db.lastGeneration < keyMax)
      (generation : db'.lastGeneration = db.lastGeneration + 1) (consents : db'.consents = db.consents)
      (revocations : db'.revocations = db.revocations)
      (epochs : ∀ m, db'.currentEnableEpoch m =
        if m = module then db.lastGeneration + 1 else db.currentEnableEpoch m)
      (notified : Notified H db module "*" (db.untold module none (some (db.currentEnableEpoch module))) []
        .epoch (db.lastGeneration + 1) db') :
      Effect H db db' (some (.advanced module (db.lastGeneration + 1)))
  | expiryAnswered (module op : String) (generation : Nat) (stopState : String)
      (same : db' = db.recordExpiryStop module op generation stopState) :
      Effect H db db' (some (.expiryAnswered module op generation stopState))
  | observed (module : String) (enabled : Bool) (entry : String)
      (same : db' = db.recordEnablement module enabled entry) : Effect H db db' none
  | revocationAnswered (module : String) (op : Option String) (generation : Nat) (stopState : String)
      (same : db' = db.recordRevocationStop module op generation stopState) : Effect H db db' none
  | endAnswered (id : Nat) (stop : GrantEndStop) (same : db' = db.recordGrantEndStop id stop) :
      Effect H db db' none

theorem currentEnableEpoch_put {row : EpochRow} (epochs : db'.epochs = db.epochs.put row) (module : String) :
    db'.currentEnableEpoch module =
      if module = row.module then row.epoch else db.currentEnableEpoch module := by
  rw [ConsentDb.currentEnableEpoch, epochs, Table.find_put]
  split
  · rfl
  · rfl

section
variable (db : ConsentDb)

theorem currentEnableEpoch_setEpoch (module m : String) (epoch : Nat) :
    (db.setEpoch module epoch).currentEnableEpoch m =
      if m = module then epoch else db.currentEnableEpoch m := by
  rw [currentEnableEpoch_put rfl]
  cases found : db.epochs.find module with
  | none => rfl
  | some row =>
    have key := Table.find_key found
    simp only [key]

theorem currentEnableEpoch_recordEnablement (module m : String) (enabled : Bool) (entry : String) :
    (db.recordEnablement module enabled entry).currentEnableEpoch m = db.currentEnableEpoch m := by
  rw [currentEnableEpoch_put rfl]
  split
  · rename_i same
    rw [same]
  · rfl

theorem find_recordExpiryStop (module op : String) (generation : Nat) (stopState : String) (key : String × String) :
    (db.recordExpiryStop module op generation stopState).consents.find key =
      (db.consents.find key).map fun row =>
        if ConsentDb.expiryAnswers module op generation row then row.answer stopState else row :=
  @Table.find_update _ _ _ _ _ _ _ (ConsentRow.answer stopState) fun _ => rfl

theorem find_recordRevocationStop (module : String) (op : Option String) (generation : Nat) (stopState : String)
    (key : String × String) :
    (db.recordRevocationStop module op generation stopState).revocations.find key =
      (db.revocations.find key).map fun row =>
        if ConsentDb.revocationAnswers module op generation row then row.answer stopState else row :=
  @Table.find_update _ _ _ _ _ _ _ (RevocationRow.answer stopState) fun _ => rfl

theorem recordGrantEndStop_frame (id : Nat) (stop : GrantEndStop) :
    ∃ notices, db.recordGrantEndStop id stop = { db with notices := notices } := by
  unfold ConsentDb.recordGrantEndStop
  split
  · exact ⟨db.notices, rfl⟩
  split
  · exact ⟨db.notices, rfl⟩
  · dsimp only
    split <;> exact ⟨_, rfl⟩

end

theorem advanceEnableEpoch_effect {now : String} {epoch : Nat}
    (done : db.advanceEnableEpoch H module now = .ok (db', epoch)) :
    epoch = db.lastGeneration + 1 ∧ Effect H db db' (some (.advanced module (db.lastGeneration + 1))) := by
  simp only [ConsentDb.advanceEnableEpoch, bind, Except.bind] at done
  split at done
  · cases done
  rename_i key allocated
  obtain ⟨rfl, room⟩ := nextKey_eq_ok.mp allocated
  split at done
  · rename_i nothing
    cases done
    refine ⟨rfl, .advanced module room rfl rfl rfl (fun m => ?_) (.silent ?_ rfl rfl)⟩
    · exact currentEnableEpoch_setEpoch db module m _
    · exact List.isEmpty_iff.mp nothing
  · split at done
    · cases done
    rename_i told written
    obtain ⟨-, rfl⟩ := writeNotice_eq_ok.mp written
    cases done
    refine ⟨rfl, .advanced module room rfl rfl rfl (fun m => ?_) (.told now false rfl rfl)⟩
    exact currentEnableEpoch_setEpoch db module m _

theorem upsertModuleConsent_effect {summary : ToolPermissionSummary} {scope : GrantScope}
    {decision : ConsentDecision} {decidedAt expiresAt : String} {record : ConsentRecord}
    (done : db.upsertModuleConsent H summary scope decision decidedAt expiresAt = .ok (db', record)) :
    Effect H db db' (some (.decided record decidedAt expiresAt)) := by
  simp only [ConsentDb.upsertModuleConsent, bind, Except.bind] at done
  split at done
  · cases done
  rename_i decided readDecided
  split at done
  · cases done
  rename_i expires readExpires
  split at done
  · cases done
  split at done
  · cases done
  rename_i key allocated
  obtain ⟨rfl, room⟩ := nextKey_eq_ok.mp allocated
  have decidedText := parseInstant_eq_ok.mp readDecided
  have expiresText := parseInstant_eq_ok.mp readExpires
  split at done
  · rename_i nothing
    cases done
    exact .decided _ _ _ room rfl ⟨decided, decidedText, rfl⟩ ⟨expires, expiresText, rfl⟩ rfl rfl rfl rfl
      (.silent (List.isEmpty_iff.mp nothing) rfl rfl)
  · split at done
    · cases done
    rename_i told written
    obtain ⟨-, rfl⟩ := writeNotice_eq_ok.mp written
    cases done
    exact .decided _ _ _ room rfl ⟨decided, decidedText, rfl⟩ ⟨expires, expiresText, rfl⟩ rfl rfl rfl rfl
      (.told _ false rfl rfl)

theorem revoke_effect {op : Option String} {now : String} {routed : Bool} {generation : Nat}
    (done : db.revoke H module op now routed = .ok (db', generation)) :
    generation = db.lastGeneration + 1 ∧
      Effect H db db' (some (.revoked module (op.getD "*") (db.lastGeneration + 1))) := by
  simp only [ConsentDb.revoke, bind, Except.bind] at done
  split at done
  · cases done
  split at done
  · cases done
  rename_i key allocated
  obtain ⟨rfl, room⟩ := nextKey_eq_ok.mp allocated
  split at done
  · cases done
  rename_i told written
  obtain ⟨-, rfl⟩ := writeNotice_eq_ok.mp written
  cases done
  exact ⟨rfl, .revoked module op _ routed room rfl rfl rfl rfl rfl rfl⟩

theorem observeModuleEnablement_effect {enabled : Bool} {entry now : String} {epoch : Option Nat}
    (done : db.observeModuleEnablement H module enabled entry now = .ok (db', epoch)) :
    Effect H db db' (epoch.map (.advanced module)) := by
  simp only [ConsentDb.observeModuleEnablement, bind, Except.bind] at done
  split at done
  · split at done
    · cases done
    rename_i advanced made
    obtain ⟨between, key⟩ := advanced
    obtain ⟨rfl, moved⟩ := advanceEnableEpoch_effect made
    cases done
    cases moved with
    | advanced _ room generation consents revocations epochs notified =>
      refine .advanced module room generation consents revocations (fun m => ?_) ?_
      · rw [currentEnableEpoch_recordEnablement, epochs]
      · cases notified with
        | silent nothing notices last => exact .silent nothing notices last
        | told endedAt routed notices last => exact .told endedAt routed notices last
  · cases done
    exact .observed module enabled entry rfl

theorem exec_effect {call : ConsentStep} {event : Option ConsentEvent}
    (done : exec H db call = .ok (db', event)) : Effect H db db' event := by
  cases call with
  | grant =>
    simp only [exec, bind, Except.bind] at done
    split at done
    · cases done
    rename_i pair made
    cases done
    exact upsertModuleConsent_effect made
  | deny =>
    simp only [exec, bind, Except.bind] at done
    split at done
    · cases done
    rename_i pair made
    cases done
    exact upsertModuleConsent_effect made
  | revoke =>
    simp only [exec, bind, Except.bind] at done
    split at done
    · cases done
    rename_i pair made
    cases done
    obtain ⟨fresh, effect⟩ := revoke_effect made
    rw [fresh]
    exact effect
  | advanceEpoch module at_ =>
    simp only [exec, bind, Except.bind] at done
    split at done
    · cases done
    rename_i pair made
    cases done
    obtain ⟨fresh, effect⟩ := advanceEnableEpoch_effect made
    rw [fresh]
    exact effect
  | observe =>
    simp only [exec, bind, Except.bind] at done
    split at done
    · cases done
    rename_i pair made
    cases done
    exact observeModuleEnablement_effect made
  | recordEnablement module enabled entry =>
    cases done
    exact .observed module enabled entry rfl
  | answerRevocation module op generation stopState =>
    cases done
    exact .revocationAnswered module op generation stopState rfl
  | answerExpiry module op generation stopState =>
    cases done
    exact .expiryAnswered module op generation stopState rfl
  | answerEnd id stop =>
    cases done
    exact .endAnswered id stop rfl

end Effects

/-- The store with the history of its commits, the newest first. -/
structure Recorded where
  db : ConsentDb
  history : List ConsentEvent

def Recorded.empty : Recorded := ⟨.empty, []⟩

def step (H : Host) (s : Recorded) (call : ConsentStep) : Recorded :=
  match exec H s.db call with
  | .ok (db, event) => ⟨db, event.toList ++ s.history⟩
  | .error _ => s

end Agent24.Consent
