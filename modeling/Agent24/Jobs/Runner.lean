import Agent24.Documents.Claim
import Agent24.Library.Runs

/-! Jobs: every transaction on a job's row, the workers of its attempts, and the events that tell its ends. -/

set_option autoImplicit false
namespace Agent24.Jobs
open Library Documents

inductive Code where
  | invalidRequest
  | notFound
  | storageUnavailable
  | uploadChecksumMismatch
  | unsupportedFormat
  | engineUnavailable
  | parseFailed
  deriving DecidableEq

def Code.asStr : Code → String
  | .invalidRequest => "invalid_request"
  | .notFound => "not_found"
  | .storageUnavailable => "storage_unavailable"
  | .uploadChecksumMismatch => "upload_checksum_mismatch"
  | .unsupportedFormat => "unsupported_format"
  | .engineUnavailable => "engine_unavailable"
  | .parseFailed => "parse_failed"

theorem Code.closed (c : Code) : CODES.contains c.asStr = true := by cases c <;> decide +kernel

def ENDED : String := "cancelled: its authorization ended"

def RECOVERED_SHOWN : Nat := 256

/-- `json_object('code', …, 'message', …)`. -/
def errorJson (code message : String) : Json := .obj [("code", .str code), ("message", .str message)]

def errorText (code message : String) : String := (errorJson code message).render

/-- `job.finished`, as it is offered to the event queue. -/
structure Finished where
  jobId : String
  kind : String
  status : JobStatus
  attempt : Nat
  errorCode : Option String
  document : Option (String × Int)

def finished (job : Job) : Option Finished :=
  if job.status.working then none
  else some
    { jobId := job.jobId, kind := job.kind, status := job.status, attempt := job.attempt,
      errorCode := (job.error.bind fun e => e.get? "code").bind Json.asStr?
      document := job.documentId.bind fun d => job.revision.map fun r => (d, r) }

structure Change where
  jobId : String
  before : JobStatus × Nat
  after : JobStatus × Nat
  worker : Option Nat
  /-- Whether the job can be read as the change left it, and whether its end was told. -/
  readable : Bool
  told : Bool

inductive Phase where
  | claiming
  | working
  /-- The supervisor settles what is left, until the database answers. -/
  | settling (why : String)
  | gone

structure Worker where
  jobId : String
  attempt : Nat
  claimed : Bool
  phase : Phase

inductive Outcome where
  | ok
  | failed
  /-- It was committed, and its caller was told it failed. -/
  | lost
  deriving DecidableEq

structure World where
  jobs : Table JobRow.id
  acceptances : List AcceptanceRow
  /-- `job_revocations`: running attempts that an authorization's end asked to stop. -/
  revocations : List (String × Nat)
  /-- The result rows, by the job and the attempt whose transaction wrote them. -/
  results : List (String × Nat)
  ready : Bool
  workers : List Worker
  events : List Finished
  log : List Change
  now : String

def start (now : String) : World := ⟨.empty, [], [], [], false, [], [], [], now⟩

def stateOf (row : JobRow) : JobStatus × Nat := (row.status, row.attempt)

def World.spawn (w : World) (jobId : String) (attempt : Nat) : World :=
  { w with workers := w.workers ++ [⟨jobId, attempt, false, .claiming⟩] }

section
variable (json : String → Option Json)

/-- The job as the transaction leaves it, for an event; none where it cannot be read. -/
def snapshot (row : JobRow) : Option Finished := (row.checked json).bind finished

def World.turn (w : World) (worker : Option Nat) (row row' : JobRow) (event : Option Finished) : World :=
  { w with
    jobs := w.jobs.set row'
    events := event.toList ++ w.events
    log := ⟨row.id, stateOf row, stateOf row', worker, (row'.checked json).isSome, event.isSome⟩ :: w.log }

/-- A transaction that may change the status of one job: its event is sent once it is committed. -/
def transact (w : World) (worker : Option Nat) (id : String) (change : JobRow → Option JobRow)
    (o : Outcome) : World :=
  match (w.jobs.find id).bind fun row => (change row).map fun row' => (row, row') with
  | none => w
  | some (row, row') =>
    match o with
    | .failed => w
    | .ok => w.turn json worker row row' (snapshot json row')
    | .lost => w.turn json worker row row' none

/-! ## The worker and its supervisor -/

def claimed (now : String) (attempt : Nat) (row : JobRow) : Option JobRow :=
  if row.attempt = attempt ∧ row.status = .queued then some { row with status := .running, updatedAt :=
      now } else none

/-- Which rows of its attempt a worker may settle: the still queued job, or its own claim. -/
def settles (mine : Bool) (status : JobStatus) : Bool :=
  if mine then status == .running || status == .cancelling else status == .queued

def settled (revocations : List (String × Nat)) (now : String) (attempt : Nat) (mine : Bool) (code : Option Code)
    (message : String) (row : JobRow) : Option JobRow :=
  if row.attempt = attempt ∧ settles mine row.status then
    if row.status = .cancelling then
      let revoked := revocations.any fun r => r == (row.id, row.attempt)
      some { row with
        status := .cancelled, updatedAt := now
        error := some (errorText "cancelled" (if revoked then ENDED else "cancelled by the user")) }
    else
      match code with
      | none => some { row with status := .interrupted, updatedAt := now, error := none }
      | some code =>
        some { row with status := .failed, updatedAt := now, error := some (errorText code.asStr message) }
  else none

structure Success where
  documentId : Option String
  revision : Option Int
  progress : Option Json
  resultRef : Option String

def succeeded (now : String) (attempt : Nat) (s : Success) (row : JobRow) : Option JobRow :=
  if row.attempt = attempt ∧ row.status = .running then
    some { row with
      status := .succeeded, documentId := s.documentId, revision := s.revision
      progress := s.progress.map Json.render, resultRef := s.resultRef, updatedAt := now }
  else none

def progress (w : World) (jobId : String) (attempt : Nat) (p : Json) : Outcome → World
  | .failed => w
  | _ =>
    match (w.jobs.find jobId).filter fun row => row.attempt == attempt && row.status == .running with
    | none => w
    | some row => { w with jobs := w.jobs.set { row with progress := some p.render, updatedAt := w.now } }

/-- `begin_commit`, the kind's result rows, and `succeed_with`, under one write lock. -/
def commit (w : World) (worker : Option Nat) (jobId : String) (attempt : Nat) (s : Success) (o : Outcome) : World :=
  match (w.jobs.find jobId).filter fun row => row.attempt == attempt && row.status == .running with
  | none => w
  | some row =>
    -- never commit result rows without the success that owns them
    if (succeeded w.now attempt s row).isNone || o == .failed then w
    else transact json { w with results := (jobId, attempt) :: w.results } worker jobId (succeeded w.now attempt s) o

inductive End where
  | returned
  | database
  | panicked

def End.why : End → String
  | .returned => "the job ended without a result"
  | .database => "the database failed"
  | .panicked => "the job stopped unexpectedly"

inductive Act where
  | claim (o : Outcome)
  | progress (p : Json) (o : Outcome)
  | settle (code : Code) (message : String) (o : Outcome)
  | interrupt (message : String) (o : Outcome)
  | commit (s : Success) (o : Outcome)
  | end_ (how : End)
  | supervise (o : Outcome)

def World.phase (w : World) (i : Nat) (a : Worker) (phase : Phase) : World :=
  { w with workers := w.workers.set i { a with phase } }

/-- `claim`; a failed one leaves the attempt to the supervisor, also where it was committed. -/
def claim (w : World) (i : Nat) (a : Worker) (o : Outcome) : World :=
  let found := (w.jobs.find a.jobId).bind (claimed w.now a.attempt)
  let after := transact json w (some i) a.jobId (claimed w.now a.attempt) o
  match o, found with
  | .failed, _ | .lost, some _ => after.phase i a (.settling (End.why .database))
  | _, none => after.phase i a .gone
  | .ok, some _ => { after with workers := after.workers.set i { a with claimed := true, phase := .working } }

def settle (w : World) (i : Nat) (a : Worker) (code : Option Code) (message : String) (o : Outcome) : World :=
  transact json w (some i) a.jobId (settled w.revocations w.now a.attempt a.claimed code message) o

def act (w : World) (i : Nat) (a : Worker) : Act → World
  | .claim o =>
    match a.phase with
    | .claiming => claim json w i a o
    | _ => w
  | .progress p o =>
    match a.phase with
    | .working => progress w a.jobId a.attempt p o
    | _ => w
  | .settle code message o =>
    match a.phase with
    | .working => settle json w i a (some code) message o
    | _ => w
  | .interrupt message o =>
    match a.phase with
    | .working => settle json w i a none message o
    | _ => w
  | .commit s o =>
    match a.phase with
    | .working => commit json w (some i) a.jobId a.attempt s o
    | _ => w
  | .end_ how =>
    match a.phase, how with
    | .working, _ | .claiming, .panicked => w.phase i a (.settling how.why)
    | _, _ => w
  | .supervise o =>
    match a.phase with
    | .settling why =>
      let after := settle json w i a (some .storageUnavailable) why o
      if o = .ok then after.phase i a .gone else after
    | _ => w

/-! ## Requests -/

/-- `UPDATE … SET status = …` of a user's cancel. -/
def cancelled (now : String) (row : JobRow) : Option JobRow :=
  match row.status with
  | .queued | .failed | .interrupted =>
    some { row with
      status := .cancelled, updatedAt := now, error := some (errorText "cancelled" "cancelled by the user") }
  | .running => some { row with status := .cancelling, updatedAt := now }
  | _ => none

/-- A transition reads the job before and after; a row that cannot be read is not changed. -/
def readable (change : JobRow → Option JobRow) (row : JobRow) : Option JobRow :=
  if (row.checked json).isSome then (change row).filter fun row' => (row'.checked json).isSome else none

section
variable (w : World)

section
variable (id : String)

def cancel (o : Outcome) : World := transact json w none id (readable json
    (cancelled w.now)) o

/-- A job queued again: its attempt's worker starts once it is committed. -/
def requeue (change : JobRow → Option JobRow) (o : Outcome) : World :=
  match (w.jobs.find id).bind change with
  | none => w
  | some row' =>
    let after := transact json w none id change o
    if o = .ok ∧ ["import", "extract"].contains row'.kind then after.spawn id row'.attempt else after

def retried (now : String) (row : JobRow) : Option JobRow :=
  match row.status with
  | .failed | .interrupted | .cancelled => some (requeued now row)
  | _ => none

def retry (o : Outcome) : World := requeue json w id (readable json (retried w.now)) o

def revived (now : String) (row : JobRow) : Option JobRow :=
  match row.status with
  | .failed | .interrupted => some (requeued now row)
  | _ => none

def World.accept (accepted : Option (Accepted × OplogRun)) : World :=
  match accepted, w.jobs.find id with
  | some (accepted, run), some row =>
    if row.status.working then { w with acceptances := w.acceptances ++ [⟨id, row.attempt, accepted, run⟩] } else w
  | _, _ => w

def hit (accepted : Option (Accepted × OplogRun)) (o : Outcome) : World :=
  -- the answer is the job as the transaction leaves it: it must be readable
  let change := fun row => (revived w.now row).filter fun row' => (row'.checked json).isSome
  let revives := (w.jobs.find id).any fun row => (revived w.now row).isSome
  let readable := (w.jobs.find id).any fun row => (((revived w.now row).getD row).checked json).isSome
  if o = .failed ∨ readable = false then w
  else if revives then (requeue json w id change o).accept id accepted
  else w.accept id accepted

end

structure NewJob where
  id : String
  kind : String
  documentId : Option String
  revision : Option Int
  origin : Origin
  input : Json

def NewJob.row (now : String) (j : NewJob) : JobRow :=
  { id := j.id, kind := j.kind, documentId := j.documentId, revision := j.revision, status := .queued, attempt := 1,
    progress := none, error := none, resultRef := none, origin := j.origin, input := some j.input, createdAt := now,
    updatedAt := now }

def submit (j : NewJob) (accepted : Option (Accepted × OplogRun)) (o : Outcome) : World :=
  let row := j.row w.now
  if o = .failed ∨ (w.jobs.find j.id).isSome ∨ (row.checked json).isNone then w
  else
    let after := { w with jobs := w.jobs.put row }.accept j.id accepted
    if o = .ok then after.spawn j.id 1 else after

end

/-! ## Ends of authorizations, and restarts -/

/-- An end of authorization: an operation's (`*` the whole module's), and the grants it names. -/
structure Ended where
  operation : String
  refs : Option (List String)

def Ended.covers (ended : Ended) (accepted : Accepted) : Bool :=
  match ended.refs, accepted.authorizationRef with
  | some refs, some ref => refs.contains ref
  | _, _ => ended.operation == "*" || accepted.operation == ended.operation

def revoked (now : String) (row : JobRow) : Option JobRow :=
  match row.status with
  | .queued => some { row with status := .cancelled, updatedAt := now, error := some (errorText "cancelled" ENDED) }
  | .running => some { row with status := .cancelling, updatedAt := now }
  | _ => none

def turns (w : World) (tell : JobRow → Option Finished) : List (JobRow × JobRow) → World
  | [] => w
  | (row, row') :: rest => turns (w.turn json none row row' (tell row')) tell rest

/-- The current attempts, still queued or running, that calls under the ended grants were accepted for. -/
def covered (w : World) (ended : Ended) : List (JobRow × JobRow) :=
  w.jobs.rows.filterMap fun row =>
    if w.acceptances.any fun a => a.jobId == row.id && a.attempt == row.attempt && ended.covers a.accepted then
      (revoked w.now row).map fun row' => (row, row')
    else none

def cancelJobs (w : World) (ended : Ended) (o : Outcome) : World :=
  let pairs := covered w ended
  if o = .failed ∨ ¬ pairs.all (fun pair => (pair.2.checked json).isSome) then w
  else
    let after := turns json w (fun row' => if o = .ok then snapshot json row' else none) pairs
    { after with
      revocations := w.revocations ++ (pairs.filter fun pair => pair.2.status == .cancelling).map fun pair =>
        (pair.2.id, pair.2.attempt) }

def stopped (revocations : List (String × Nat)) (now : String) (row : JobRow) : Option JobRow :=
  match row.status with
  | .cancelling =>
    let revoked := revocations.any fun r => r == (row.id, row.attempt)
    some { row with
      status := .cancelled, updatedAt := now
      error := some (errorText "cancelled" (if revoked then ENDED else "cancelled before a restart")) }
  | .queued | .running => some { row with status := .interrupted, updatedAt := now }
  | _ => none

def unfinished (w : World) : List (JobRow × JobRow) :=
  (w.jobs.rows.mergeSort fun a b => decide (a.id ≤ b.id)).filterMap fun row =>
    (stopped w.revocations w.now row).map fun row' => (row, row')

/-- A restart's event: from the columns, without the job being read. -/
def recovered (row' : JobRow) : Finished :=
  { jobId := row'.id, kind := row'.kind, status := row'.status, attempt := row'.attempt,
    errorCode := if row'.status = .cancelled then some "cancelled" else none
    document := none }

def recover (w : World) (o : Outcome) : World :=
  if w.ready || o == .failed then w
  else
    let pairs := unfinished w
    if o = .ok then
      let shown := turns json w (fun row' => some (recovered row')) (pairs.take RECOVERED_SHOWN)
      { turns json shown (fun _ => none) (pairs.drop RECOVERED_SHOWN) with ready := true }
    else turns json w (fun _ => none) pairs

/-! ## Runs -/

inductive Move where
  | submit (j : NewJob) (accepted : Option (Accepted × OplogRun)) (o : Outcome)
  | hit (id : String) (accepted : Option (Accepted × OplogRun)) (o : Outcome)
  | retry (id : String) (o : Outcome)
  | cancel (id : String) (o : Outcome)
  | revoke (ended : Ended) (o : Outcome)
  /-- A second worker of an attempt, or one of an attempt that is over or not yet. -/
  | duplicate (id : String) (attempt : Nat)
  | worker (i : Nat) (act : Act)
  | tick (now : String)
  | crash
  | recover (o : Outcome)

def step (w : World) : Move → World
  | .submit j accepted o => if w.ready then submit json w j accepted o else w
  | .hit id accepted o => if w.ready then hit json w id accepted o else w
  | .retry id o => if w.ready then retry json w id o else w
  | .cancel id o => if w.ready then cancel json w id o else w
  | .revoke ended o => if w.ready then cancelJobs json w ended o else w
  | .duplicate id attempt => if w.ready then w.spawn id attempt else w
  | .worker i a => (w.workers[i]?).elim w fun worker => act json w i worker a
  | .tick now => { w with now }
  | .crash => { w with ready := false, workers := w.workers.map fun a => { a with phase := .gone } }
  | .recover o => recover json w o

end
end Agent24.Jobs
