import Agent24.Jobs.Runner

/-! An attempt of a job is claimed once and settled once, whatever its workers, its users and restarts do. -/

set_option autoImplicit false
namespace Agent24.Jobs
open Library Documents List

/-! ## Turns of a status -/

def turnsTo : JobStatus → JobStatus → Bool
  | .queued, .running | .queued, .failed | .queued, .cancelled | .queued, .interrupted => true
  | .running, .succeeded | .running, .failed | .running, .interrupted | .running, .cancelling => true
  | .cancelling, .cancelled | .failed, .cancelled | .interrupted, .cancelled => true
  | _, _ => false

def restarts : JobStatus → Bool
  | .failed | .interrupted | .cancelled => true
  | _ => false

/-- A change of status: within the attempt, or to the next one. -/
def Turn (before after : JobStatus × Nat) : Prop :=
  (turnsTo before.1 after.1 = true ∧ after.2 = before.2) ∨
    (restarts before.1 = true ∧ after.1 = .queued ∧ after.2 = before.2 + 1)

def rank : JobStatus → Nat
  | .queued => 0
  | .running => 1
  | .cancelling => 2
  | .failed | .interrupted => 3
  | .cancelled => 4
  | .succeeded => 5

def place (s : JobStatus × Nat) : Nat := 6 * s.2 + rank s.1

theorem rank_lt (s : JobStatus) : rank s < 6 := by cases s <;> decide

variable {before : JobStatus × Nat} {w' : World} {accepted : Option (Accepted × OplogRun)}
  {tell : JobRow → Option Finished} {pairs : List (JobRow × JobRow)}

theorem Turn.climbs {after : JobStatus × Nat} (turn : Turn before after) : place before < place after := by
  obtain ⟨s, n⟩ := before
  obtain ⟨s', n'⟩ := after
  unfold place
  rcases turn with ⟨within, rfl⟩ | ⟨-, rfl, rfl⟩
  · have climbs : turnsTo s s' = true → rank s < rank s' := by cases s <;> cases s' <;> decide
    have := climbs within
    simp only
    omega
  · have := rank_lt s
    have : rank JobStatus.queued = 0 := rfl
    simp only at *
    omega

theorem Turn.not_succeeded {after : JobStatus × Nat} (turn : Turn before after) : before.1 ≠ .succeeded := by
  intro over_
  rcases turn with ⟨within, -⟩ | ⟨again, -⟩
  · rw [over_] at within
    cases within
  · rw [over_] at again
    cases again

theorem Turn.to_succeeded {after : JobStatus × Nat} (turn : Turn before after) (success : after.1 = .succeeded) :
    before = (.running, after.2) := by
  obtain ⟨s, n⟩ := before
  rcases turn with ⟨within, same⟩ | ⟨-, queued, -⟩
  · rw [success] at within
    cases s <;> first | exact Prod.ext rfl same.symm | cases within
  · rw [queued] at success
    cases success

def Fits (row : JobRow) : Prop :=
  ∃ error : Option Json, row.error = error.map Json.render ∧ error.map errorCode ≠ some none ∧
    statusFits row.status (error.map errorCode).join = true

theorem errorCode_errorJson (code message : String) : errorCode (errorJson code message) = some code := by
  simp [errorCode, errorJson, Json.get?, Json.asStr?]

theorem Fits.none_ {row : JobRow} (error : row.error = none) (status : row.status ≠ .failed) : Fits row := by
  refine ⟨none, error, by simp, ?_⟩
  cases at_ : row.status with
  | failed => exact absurd at_ status
  | _ => rfl

theorem Fits.some_ {row : JobRow} {code message : String} (error : row.error = some (errorText code message))
    (fits : statusFits row.status (some code) = true) : Fits row := by
  refine ⟨some (errorJson code message), error, ?_, ?_⟩
  · simp [errorCode_errorJson]
  · rw [Option.map_some, errorCode_errorJson]
    exact fits

theorem Fits.error_none {row : JobRow} (fits : Fits row) (status : row.status = .queued ∨ row.status = .running ∨
    row.status = .cancelling) : row.error = none := by
  obtain ⟨error, same, coded, fits⟩ := fits
  cases error with
  | none => exact same
  | some e =>
    cases code : errorCode e with
    | none => simp [code] at coded
    | some c =>
      rw [Option.map_some, code] at fits
      rcases status with at_ | at_ | at_ <;> rw [at_] at fits <;> cases fits

structure Allowed (row row' : JobRow) : Prop where
  id : row'.id = row.id
  turn : Turn (stateOf row) (stateOf row')
  fits : Fits row → Fits row'

/-! ## The transactions' changes -/

section
variable {now message : String} {attempt : Nat} {row row' : JobRow} {revocations : List (String × Nat)}

theorem claimed_allowed (made : claimed now attempt row = some row') :
    Allowed row row' ∧ row.attempt = attempt ∧ row.status = .queued ∧ stateOf row' = (.running, attempt) := by
  unfold claimed at made
  split at made
  · rename_i guard
    obtain ⟨rfl, queued⟩ := guard
    obtain rfl := Option.some.inj made
    refine ⟨⟨rfl, .inl ⟨?_, rfl⟩, fun fits => ?_⟩, rfl, queued, rfl⟩
    · rw [stateOf, queued]
      rfl
    · exact .none_ (fits.error_none (.inl queued)) (by simp)
  · cases made

theorem succeeded_allowed {s : Success} (made : succeeded now attempt s row = some row') :
    Allowed row row' ∧ row.attempt = attempt ∧ row.status = .running ∧ row'.status = .succeeded := by
  unfold succeeded at made
  split at made
  · rename_i guard
    obtain ⟨rfl, running⟩ := guard
    obtain rfl := Option.some.inj made
    refine ⟨⟨rfl, .inl ⟨?_, rfl⟩, fun fits => ?_⟩, rfl, running, rfl⟩
    · rw [stateOf, running]
      rfl
    · exact .none_ (fits.error_none (.inr (.inl running))) (by simp)
  · cases made

theorem settles_failed {mine : Bool} {status : JobStatus} (mine_ : settles mine status = true)
    (going : status ≠ .cancelling) : turnsTo status .failed = true := by
  cases mine <;> cases status <;> first | rfl | exact absurd rfl going | cases mine_

theorem settles_interrupted {status : JobStatus} (mine_ : settles true status = true) (going : status ≠ .cancelling) :
    turnsTo status .interrupted = true := by
  cases status <;> first | rfl | exact absurd rfl going | cases mine_

theorem settled_allowed {mine : Bool} {code : Option Code} (coded : mine = false → code ≠ none)
    (made : settled revocations now attempt mine code message row = some row') :
    Allowed row row' ∧ row.attempt = attempt ∧ settles mine row.status = true ∧ row'.status ≠ .succeeded := by
  unfold settled at made
  split at made
  · rename_i guard
    obtain ⟨rfl, mine_⟩ := guard
    split at made
    · rename_i cancelling
      obtain rfl := Option.some.inj made
      refine ⟨⟨rfl, .inl ⟨?_, rfl⟩, fun _ => .some_ rfl rfl⟩, rfl, mine_, by simp⟩
      rw [stateOf, cancelling]
      rfl
    · rename_i going
      cases code with
      | none =>
        obtain rfl := Option.some.inj made
        have claim : mine = true := by
          cases mine with
          | true => rfl
          | false => exact absurd rfl (coded rfl)
        have turns := settles_interrupted (claim ▸ mine_) going
        exact ⟨⟨rfl, .inl ⟨turns, rfl⟩, fun _ => .none_ rfl (by simp)⟩, rfl, mine_, by simp⟩
      | some code =>
        obtain rfl := Option.some.inj made
        have turns := settles_failed mine_ going
        exact ⟨⟨rfl, .inl ⟨turns, rfl⟩, fun _ => .some_ rfl code.closed⟩, rfl, mine_, by simp⟩
  · cases made

theorem requeued_allowed (again : restarts row.status = true) : Allowed row (requeued now row) :=
  ⟨rfl, .inr ⟨again, rfl, rfl⟩, fun _ => .none_ rfl (by simp [requeued])⟩

theorem retried_allowed (made : retried now row = some row') : Allowed row row' ∧ row'.status ≠ .succeeded := by
  unfold retried at made
  split at made
  all_goals
    first
    | cases made
      refine ⟨requeued_allowed ?_, by simp [requeued]⟩
      rename_i status
      rw [status]
      rfl
    | cases made

theorem revived_allowed (made : revived now row = some row') : Allowed row row' ∧ row'.status ≠ .succeeded := by
  unfold revived at made
  split at made
  all_goals
    first
    | cases made
      refine ⟨requeued_allowed ?_, by simp [requeued]⟩
      rename_i status
      rw [status]
      rfl
    | cases made

theorem stopping_allowed {error : String} (status : JobStatus) (turns : turnsTo row.status status = true)
    (fits : statusFits status (some error) = true) :
    Allowed row { row with status, updatedAt := now, error := some (errorText error message) } :=
  ⟨rfl, .inl ⟨turns, rfl⟩, fun _ => .some_ rfl fits⟩

theorem asking_allowed (running : row.status = .running) :
    Allowed row { row with status := .cancelling, updatedAt := now } := by
  refine ⟨rfl, .inl ⟨?_, rfl⟩, fun fits => .none_ (fits.error_none (.inr (.inl running))) (by simp)⟩
  rw [stateOf, running]
  rfl

theorem cancelled_allowed (made : cancelled now row = some row') : Allowed row row' ∧ row'.status ≠ .succeeded := by
  unfold cancelled at made
  cases status : row.status with rw [status] at made
  | queued | failed | interrupted =>
    obtain rfl := Option.some.inj made
    exact ⟨stopping_allowed .cancelled (by rw [status]; rfl) rfl, by simp⟩
  | running =>
    obtain rfl := Option.some.inj made
    exact ⟨asking_allowed status, by simp⟩
  | cancelling | succeeded | cancelled => cases made

theorem revoked_allowed (made : revoked now row = some row') : Allowed row row' ∧ row'.status ≠ .succeeded := by
  unfold revoked at made
  cases status : row.status with rw [status] at made
  | queued =>
    obtain rfl := Option.some.inj made
    exact ⟨stopping_allowed .cancelled (by rw [status]; rfl) rfl, by simp⟩
  | running =>
    obtain rfl := Option.some.inj made
    exact ⟨asking_allowed status, by simp⟩
  | cancelling | succeeded | cancelled | failed | interrupted => cases made

theorem stopped_allowed (made : stopped revocations now row = some row') :
    Allowed row row' ∧ row'.status.working = false ∧ row'.status ≠ .succeeded := by
  unfold stopped at made
  cases status : row.status with rw [status] at made
  | cancelling =>
    obtain rfl := Option.some.inj made
    exact ⟨stopping_allowed .cancelled (by rw [status]; rfl) rfl, rfl, by simp⟩
  | queued | running =>
    obtain rfl := Option.some.inj made
    refine ⟨⟨rfl, .inl ⟨by rw [stateOf, status]; rfl, rfl⟩, fun fits => ?_⟩, rfl, by simp⟩
    exact .none_ (fits.error_none (by simp [status])) (by simp)
  | succeeded | cancelled | failed | interrupted => cases made

theorem readable_made {json : String → Option Json} {change : JobRow → Option JobRow}
    (made : readable json change row = some row') : change row = some row' := by
  unfold readable at made
  split at made
  · exact (Option.filter_eq_some_iff.mp made).1
  · cases made

end

/-! ## What a move does to the rows -/

/-- The rows, what was written with them, and what was told of them. -/
structure Core where
  jobs : Table JobRow.id
  results : List (String × Nat)
  events : List Finished
  log : List Change

def World.core (w : World) : Core := ⟨w.jobs, w.results, w.events, w.log⟩

def Finished.key (e : Finished) : String × JobStatus × Nat := (e.jobId, e.status, e.attempt)

def Change.key (c : Change) : String × JobStatus × Nat := (c.jobId, c.after)

def Change.attempt (c : Change) : String × Nat := (c.jobId, c.after.2)

def Change.ends (c : Change) : Bool := !c.after.1.working

structure Tells (json : String → Option Json) (sure : Bool) (row' : JobRow) (event : Option Finished) : Prop where
  key : ∀ e, event = some e → e.key = (row'.id, stateOf row') ∧ row'.status.working = false
  sure : sure = true → row'.status.working = false → (row'.checked json).isSome = true → event.isSome = true

/-- What one transaction does to the rows; `may` says which rows it may change. -/
inductive Effect (json : String → Option Json) (sure : Bool) (worker : Option Nat) (may : JobRow → Prop) (k : Core) :
    Core → Prop
  | turn {row row' : JobRow} {event : Option Finished} (found : k.jobs.find row.id = some row) (may_ : may row)
    (allowed : Allowed row row') (tells : Tells json sure row' event) :
    Effect json sure worker may k
      { jobs := k.jobs.set row'
        results := if row'.status = .succeeded then (row.id, row.attempt) :: k.results else k.results
        events := event.toList ++ k.events
        log := ⟨row.id, stateOf row, stateOf row', worker, (row'.checked json).isSome, event.isSome⟩ :: k.log }
  | progress {row row' : JobRow} (found : k.jobs.find row.id = some row) (may_ : may row)
    (running : row.status = .running) (id : row'.id = row.id) (state : stateOf row' = stateOf row)
    (error : row'.error = row.error) : Effect json sure worker may k { k with jobs := k.jobs.set row' }
  | create {row : JobRow} (new : k.jobs.find row.id = none) (queued : row.status = .queued)
      (error : row.error = none) :
    Effect json sure worker may k { k with jobs := k.jobs.put row }

variable {json : String → Option Json} {sure : Bool} {worker : Option Nat} {may : JobRow → Prop} {k k' : Core}

/-- What a move does is made of transactions, one after another. -/
abbrev Effects (json : String → Option Json) (sure : Bool) (worker : Option Nat) (may : JobRow → Prop) :
    Core → Core → Prop :=
  Relation.ReflTransGen (Effect json sure worker may)

structure Kept (k : Core) : Prop where
  fits : ∀ row ∈ k.jobs.rows, Fits row
  turns : ∀ c ∈ k.log, Turn c.before c.after
  ordered : k.log.Pairwise fun later earlier => earlier.jobId = later.jobId → place earlier.after ≤ place later.before
  current : ∀ c ∈ k.log, ∃ row, k.jobs.find c.jobId = some row ∧ place c.after ≤ place (stateOf row)
  results : k.results = (k.log.filter fun c => c.after.1 == .succeeded).map Change.attempt
  told : k.events.map Finished.key = (k.log.filter Change.told).map Change.key
  ends : ∀ c ∈ k.log, c.told = true → c.ends = true

theorem kept_start (now : String) : Kept (start now).core where
  fits _ member := absurd member not_mem_nil
  turns _ member := absurd member not_mem_nil
  ordered := .nil
  current _ member := absurd member not_mem_nil
  results := rfl
  told := rfl
  ends _ member := absurd member not_mem_nil

theorem mem_of_find {t : Table JobRow.id} {row : JobRow} {id : String} (found : t.find id = some row) :
    row ∈ t.rows ∧ row.id = id := Table.find_eq_some.mp found

theorem Kept.current_set (kept : Kept k) {row row' : JobRow} (found : k.jobs.find row.id = some row)
    (id : row'.id = row.id) (climbs : place (stateOf row) ≤ place (stateOf row')) :
    ∀ c ∈ k.log, ∃ r, (k.jobs.set row').find c.jobId = some r ∧ place c.after ≤ place (stateOf r) := by
  intro c member
  obtain ⟨r, here, below⟩ := kept.current c member
  rw [Table.find_set]
  by_cases same : c.jobId = row'.id
  · rw [if_pos same, here]
    rw [same, id, found] at here
    obtain rfl := Option.some.inj here
    exact ⟨row', rfl, below.trans climbs⟩
  · rw [if_neg same]
    exact ⟨r, here, below⟩

theorem Kept.fits_set (kept : Kept k) {row' : JobRow} (fits : Fits row') : ∀ r ∈ (k.jobs.set row').rows, Fits r := by
  intro r member
  rcases Table.mem_set.mp member with ⟨rfl, -⟩ | ⟨member, -⟩
  · exact fits
  · exact kept.fits r member

theorem Effect.kept (effect : Effect json sure worker may k k') (kept : Kept k) : Kept k' := by
  cases effect with
  | @turn row row' event found may_ allowed tells =>
    have member := (mem_of_find found).1
    have climbs := allowed.turn.climbs
    constructor
    · exact kept.fits_set (allowed.fits (kept.fits row member))
    · exact forall_mem_cons.mpr ⟨allowed.turn, kept.turns⟩
    · refine pairwise_cons.mpr ⟨fun c earlier same => ?_, kept.ordered⟩
      obtain ⟨r, here, below⟩ := kept.current c earlier
      rw [same, found] at here
      obtain rfl := Option.some.inj here
      exact below
    · refine forall_mem_cons.mpr ⟨⟨row', ?_, le_rfl⟩, kept.current_set found allowed.id climbs.le⟩
      show (k.jobs.set row').find row.id = some row'
      rw [Table.find_set, if_pos allowed.id.symm, found]
      rfl
    · by_cases success : row'.status = .succeeded
      · have within : row'.attempt = row.attempt := congrArg Prod.snd (allowed.turn.to_succeeded success).symm
        show (if row'.status = .succeeded then _ else _) = _
        rw [if_pos success, filter_cons_of_pos (by simp [stateOf, success]), map_cons, ← kept.results]
        show (row.id, row.attempt) :: k.results = (row.id, row'.attempt) :: k.results
        rw [within]
      · show (if row'.status = .succeeded then _ else _) = _
        rw [if_neg success, filter_cons_of_neg (by simp [stateOf, success])]
        exact kept.results
    · cases event with
      | none => exact kept.told
      | some e =>
        show e.key :: k.events.map Finished.key = _
        rw [filter_cons_of_pos rfl, map_cons, ← kept.told, (tells.key e rfl).1, Change.key, allowed.id]
    · refine forall_mem_cons.mpr ⟨fun told => ?_, kept.ends⟩
      obtain ⟨e, same⟩ := Option.isSome_iff_exists.mp told
      rw [Change.ends]
      simp only [stateOf, (tells.key e same).2, Bool.not_false]
  | @progress row row' found may_ running id state error =>
    have member := (mem_of_find found).1
    have status : row'.status = row.status := congrArg Prod.fst state
    have fits : Fits row' := by
      obtain ⟨e, same, coded, fits⟩ := kept.fits row member
      exact ⟨e, error.trans same, coded, status.symm ▸ fits⟩
    exact ⟨kept.fits_set fits, kept.turns, kept.ordered, kept.current_set found id (by rw [state]), kept.results,
      kept.told, kept.ends⟩
  | @create row new queued error =>
    refine ⟨fun r member => ?_, kept.turns, kept.ordered, fun c member => ?_, kept.results, kept.told, kept.ends⟩
    · rcases Table.mem_put.mp member with rfl | ⟨member, -⟩
      · exact .none_ error (by rw [queued]; decide)
      · exact kept.fits r member
    · obtain ⟨r, here, below⟩ := kept.current c member
      refine ⟨r, ?_, below⟩
      show (k.jobs.put row).find c.jobId = some r
      rw [Table.find_put_of_ne, here]
      intro same
      rw [same, new] at here
      cases here

theorem Effects.kept (effects : Effects json sure worker may k k') (kept : Kept k) : Kept k' := by
  induction effects with
  | refl => exact kept
  | tail _ effect ih => exact effect.kept ih

/-! ## The moves, as effects -/

theorem checked_fields {row : JobRow} {job : Job} (ok : row.checked json = some job) :
    job.jobId = row.id ∧ job.status = row.status ∧ job.attempt = row.attempt := by
  unfold JobRow.checked at ok
  split at ok
  · cases ok
  split at ok
  · cases ok
  obtain ⟨progress, -, ok⟩ := Option.bind_eq_some_iff.mp ok
  obtain ⟨error, -, ok⟩ := Option.bind_eq_some_iff.mp ok
  split at ok
  · cases ok
  dsimp only at ok
  split at ok
  · cases ok
  split at ok
  · cases ok
  obtain ⟨result, -, ok⟩ := Option.bind_eq_some_iff.mp ok
  cases ok
  exact ⟨rfl, rfl, rfl⟩

theorem snapshot_tells (row' : JobRow) : Tells json sure row' (snapshot json row') := by
  constructor
  · intro e told
    obtain ⟨job, read, told⟩ := Option.bind_eq_some_iff.mp told
    obtain ⟨id, status, attempt⟩ := checked_fields read
    unfold finished at told
    split at told
    · cases told
    rename_i over_
    cases told
    rw [status] at over_
    rw [Finished.key, id, status, attempt]
    exact ⟨rfl, Bool.eq_false_iff.mpr over_⟩
  · intro _ over_ read
    obtain ⟨job, read⟩ := Option.isSome_iff_exists.mp read
    rw [snapshot, read, Option.bind_some, finished, (checked_fields read).2.1, over_]
    rfl

theorem silent_tells {row' : JobRow} : Tells json false row' none := ⟨fun _ told => (by cases told),
    fun other => by cases other⟩

variable {w : World} {id : String} {change : JobRow → Option JobRow} {o : Outcome}

theorem turn_effect {row row' : JobRow} {event : Option Finished} (found : w.jobs.find row.id = some row)
    (may_ : may row)
    (allowed : Allowed row row') (other : row'.status ≠ .succeeded) (tells : Tells json sure row' event) :
    Effect json sure worker may w.core (w.turn json worker row row' event).core := by
  have effect : Effect json sure worker may w.core _ := .turn found may_ allowed tells
  rw [if_neg other] at effect
  exact effect

theorem success_effect {row row' : JobRow} {event : Option Finished} (found : w.jobs.find row.id = some row)
    (may_ : may row) (allowed : Allowed row row') (success : row'.status = .succeeded)
    (tells : Tells json sure row' event) :
    Effect json sure worker may w.core
      (World.turn json { w with results := (row.id, row.attempt) :: w.results } worker row row' event).core := by
  have effect : Effect json sure worker may w.core _ := .turn found may_ allowed tells
  rw [if_pos success] at effect
  exact effect

def Lawful (may : JobRow → Prop) (change : JobRow → Option JobRow) : Prop :=
  ∀ row row', change row = some row' → Allowed row row' ∧ row'.status ≠ .succeeded ∧ may row

theorem transact_effect (lawful : Lawful (fun row => row.id = id → may row) change) :
    (transact json w worker id change o).core = w.core ∨
      Effect json (o == .ok) worker may w.core (transact json w worker id change o).core := by
  unfold transact
  split
  · exact .inl rfl
  rename_i row row' found
  obtain ⟨r, here, made⟩ := Option.bind_eq_some_iff.mp found
  obtain ⟨r', made', same⟩ := Option.map_eq_some_iff.mp made
  obtain ⟨rfl, rfl⟩ := Prod.mk.inj same
  obtain ⟨allowed, other, may_⟩ := lawful r r' made'
  obtain rfl := (mem_of_find here).2
  cases o with
  | failed => exact .inl rfl
  | ok => exact .inr (turn_effect here (may_ rfl) allowed other (snapshot_tells r'))
  | lost => exact .inr (turn_effect here (may_ rfl) allowed other silent_tells)

def Mine (a : Worker) (row : JobRow) : Prop :=
  row.id = a.jobId ∧ row.attempt = a.attempt ∧ settles a.claimed row.status = true

theorem progress_effect {jobId : String} {attempt : Nat} {p : Json}
    (may_ : ∀ row : JobRow, row.id = jobId → row.attempt = attempt → row.status = .running → may row) :
    (progress w jobId attempt p o).core = w.core ∨ Effect json sure worker may w.core
        (progress w jobId attempt p o).core := by
  unfold progress
  split
  · exact .inl rfl
  split
  · exact .inl rfl
  rename_i row found
  obtain ⟨here, running⟩ := Option.filter_eq_some_iff.mp found
  rw [Bool.and_eq_true, beq_iff_eq, beq_iff_eq] at running
  obtain rfl := (mem_of_find here).2
  exact .inr (.progress here (may_ row rfl running.1 running.2) running.2 rfl rfl rfl)

theorem commit_effect {jobId : String} {attempt : Nat} {s : Success}
    (may_ : ∀ row : JobRow, row.id = jobId → row.attempt = attempt → row.status = .running → may row) :
    (commit json w worker jobId attempt s o).core = w.core ∨
      Effect json (o == .ok) worker may w.core (commit json w worker jobId attempt s o).core := by
  unfold commit
  split
  · exact .inl rfl
  rename_i row found
  obtain ⟨here, running⟩ := Option.filter_eq_some_iff.mp found
  rw [Bool.and_eq_true, beq_iff_eq, beq_iff_eq] at running
  obtain ⟨rfl, running⟩ := running
  obtain rfl := (mem_of_find here).2
  cases made : succeeded w.now row.attempt s row with
  | none => exact .inl rfl
  | some row' =>
    obtain ⟨allowed, -, -, success⟩ := succeeded_allowed made
    have may_ := may_ row rfl rfl running
    cases o with
    | failed => exact .inl rfl
    | ok =>
      refine .inr ?_
      simp only [transact, here, Option.bind_some, made, Option.map_some]
      exact success_effect here may_ allowed success (snapshot_tells row')
    | lost =>
      refine .inr ?_
      simp only [transact, here, Option.bind_some, made, Option.map_some]
      exact success_effect here may_ allowed success silent_tells

def Worker.Ok (a : Worker) : Prop :=
  match a.phase with
  | .claiming => a.claimed = false
  | .working => a.claimed = true
  | _ => True

/-- Whether a worker's transaction is committed, and known to be. -/
def Act.known : Act → Bool
  | .claim o | .progress _ o | .settle _ _ o | .interrupt _ o | .commit _ o | .supervise o => o == .ok
  | .end_ _ => true

section
variable {i : Nat} {a : Worker}

theorem claim_core : (claim json w i a o).core = (transact json w (some i) a.jobId
    (claimed w.now a.attempt) o).core := by
  unfold claim
  simp only
  split <;> rfl

theorem claims_lawful (unclaimed : a.claimed = false) (same : id = a.jobId) :
    Lawful (fun row => row.id = id → Mine a row) (claimed w.now a.attempt) := by
  intro row row' made
  obtain ⟨allowed, attempt, queued, state⟩ := claimed_allowed made
  have running : row'.status = .running := congrArg Prod.fst state
  refine ⟨allowed, by simp [running], fun here => ⟨here.trans same, attempt, ?_⟩⟩
  rw [unclaimed, queued]
  rfl

theorem settles_lawful {revocations : List (String × Nat)} {code : Option Code} {message : String}
    (coded : a.claimed = false → code ≠ none) (same : id = a.jobId) :
    Lawful (fun row => row.id = id → Mine a row) (settled revocations w.now a.attempt a.claimed code message) := by
  intro row row' made
  obtain ⟨allowed, attempt, mine, other⟩ := settled_allowed coded made
  exact ⟨allowed, other, fun here => ⟨here.trans same, attempt, mine⟩⟩

theorem act_effect (ok : a.Ok) (next : Act) :
    (act json w i a next).core = w.core ∨ Effect json next.known (some i) (Mine a) w.core
        (act json w i a next).core := by
  have running (claimed : a.claimed = true) (row : JobRow) (id : row.id = a.jobId) (attempt : row.attempt = a.attempt)
      (running : row.status = .running) : Mine a row := ⟨id, attempt, by rw [claimed, running]; rfl⟩
  cases phase : a.phase with
  | claiming =>
    have unclaimed : a.claimed = false := by
      rw [Worker.Ok, phase] at ok
      exact ok
    cases next with
    | claim o =>
      simp only [act, phase]
      rw [claim_core]
      exact transact_effect (claims_lawful unclaimed rfl)
    | end_ how =>
      simp only [act, phase]
      cases how <;> exact .inl rfl
    | progress | settle | interrupt | commit | supervise =>
      simp only [act, phase]
      exact .inl trivial
  | working =>
    have claimed : a.claimed = true := by
      rw [Worker.Ok, phase] at ok
      exact ok
    cases next with
    | progress p o =>
      simp only [act, phase]
      exact progress_effect (running claimed)
    | settle =>
      simp only [act, phase]
      exact transact_effect (settles_lawful (fun _ other => by cases other) rfl)
    | interrupt message o =>
      simp only [act, phase]
      exact transact_effect (settles_lawful (fun other => by rw [claimed] at other; cases other) rfl)
    | commit success o =>
      simp only [act, phase]
      exact commit_effect (running claimed)
    | end_ how =>
      simp only [act, phase]
      exact .inl rfl
    | claim | supervise =>
      simp only [act, phase]
      exact .inl trivial
  | settling why =>
    cases next with
    | supervise o =>
      have effect : (settle json w i a (some .storageUnavailable) why o).core = w.core ∨
          Effect json (o == .ok) (some i) (Mine a) w.core (settle json w i a (some .storageUnavailable) why o).core :=
        transact_effect (settles_lawful (fun _ other => by cases other) rfl)
      simp only [act, phase]
      split <;> exact effect
    | claim | progress | settle | interrupt | commit | end_ =>
      simp only [act, phase]
      exact .inl trivial
  | gone =>
    cases next <;> simp only [act, phase] <;> exact .inl trivial

end

abbrev Others (json : String → Option Json) (sure : Bool) (w w' : World) : Prop :=
  Effects json sure none (fun _ => True) w.core w'.core

theorem Others.of_or (did : w'.core = w.core ∨ Effect json sure none (fun _ => True) w.core w'.core) :
    Others json sure w w' := by
  rcases did with same | effect
  · rw [Others, same]
  · exact .single effect

theorem cancel_others : Others json (o == .ok) w (cancel json w id o) :=
  .of_or (transact_effect fun _ _ made => by
    obtain ⟨allowed, other⟩ := cancelled_allowed (readable_made made)
    exact ⟨allowed, other, fun _ => trivial⟩)

theorem requeue_core : (requeue json w id change o).core = w.core ∨
    (requeue json w id change o).core = (transact json w none id change o).core := by
  unfold requeue
  split
  · exact .inl rfl
  · simp only
    split <;> exact .inr rfl

theorem requeue_others (lawful : Lawful (fun _ => True) change) : Others json (o == .ok) w
    (requeue json w id change o) := by
  rcases requeue_core with same | same
  · exact .of_or (.inl same)
  rw [Others, same]
  exact Others.of_or (transact_effect fun row row' made =>
    ⟨(lawful row row' made).1, (lawful row row' made).2.1, fun _ => trivial⟩)

theorem retry_others : Others json (o == .ok) w (retry json w id o) :=
  requeue_others fun _ _ made => by
    obtain ⟨allowed, other⟩ := retried_allowed (readable_made made)
    exact ⟨allowed, other, trivial⟩

theorem accept_core : (w.accept id accepted).core = w.core := by
  unfold World.accept
  split
  · split <;> rfl
  · rfl

theorem hit_others : Others json (o == .ok) w
    (hit json w id accepted o) := by
  unfold hit
  simp only
  split
  · exact .refl
  split
  · rw [Others, accept_core]
    refine requeue_others fun row row' made => ?_
    obtain ⟨allowed, other⟩ := revived_allowed (Option.filter_eq_some_iff.mp made).1
    exact ⟨allowed, other, trivial⟩
  · rw [Others, accept_core]

theorem submit_others {j : NewJob} :
    Others json (o == .ok) w (submit json w j accepted o) := by
  unfold submit
  simp only
  split
  · exact .refl
  rename_i guard
  obtain ⟨-, new, -⟩ : o ≠ .failed ∧ ¬ (w.jobs.find j.id).isSome = true ∧
      ¬ ((j.row w.now).checked json).isNone = true := by
    simpa only [not_or] using guard
  have new : w.core.jobs.find (j.row w.now).id = none := Option.not_isSome_iff_eq_none.mp new
  have effect : Effect json (o == .ok) none (fun _ => True) w.core _ := .create new rfl rfl
  have core : ({ w with jobs := w.jobs.put (j.row w.now) }.accept j.id accepted).core =
      { w.core with jobs := w.jobs.put (j.row w.now) } := accept_core
  have after : Others json (o == .ok) w ({ w with jobs := w.jobs.put (j.row w.now) }.accept j.id accepted) := by
    rw [Others, core]
    exact .single effect
  split
  · exact after
  · exact after

theorem turns_effects (apart : pairs.Pairwise fun p q => p.1.id ≠ q.1.id)
    (each : ∀ p ∈ pairs, w.jobs.find p.1.id = some p.1 ∧ Allowed p.1 p.2 ∧ p.2.status ≠ .succeeded ∧ Tells json sure p.2 (tell p.2)) :
    Others json sure w (turns json w tell pairs) := by
  induction pairs generalizing w with
  | nil => exact .refl
  | cons pair rest ih =>
    obtain ⟨row, row'⟩ := pair
    obtain ⟨⟨found, allowed, other, tells⟩, later⟩ := forall_mem_cons.mp each
    obtain ⟨apart_, rest_⟩ := pairwise_cons.mp apart
    have effect : Effect json sure none (fun _ => True) w.core (w.turn json none row row' (tell row')).core :=
      turn_effect found trivial allowed other tells
    refine Relation.ReflTransGen.head effect (ih rest_ fun p member => ?_)
    obtain ⟨found', rest'⟩ := later p member
    refine ⟨?_, rest'⟩
    show (w.jobs.set row').find p.1.id = some p.1
    rw [Table.find_set, if_neg, found']
    rw [allowed.id]
    exact (apart_ p member).symm

theorem turns_find (ids : ∀ p ∈ pairs, p.2.id = p.1.id ∧ p.1.id ≠ id) :
    (turns json w tell pairs).jobs.find id = w.jobs.find id := by
  induction pairs generalizing w with
  | nil => rfl
  | cons pair rest ih =>
    obtain ⟨row, row'⟩ := pair
    obtain ⟨⟨same, apart⟩, later⟩ := forall_mem_cons.mp ids
    refine (ih later).trans ?_
    show (w.jobs.set row').find id = _
    rw [Table.find_set, if_neg]
    rw [same]
    exact apart.symm

theorem rows_apart (w : World) : w.jobs.rows.Pairwise fun a b => a.id ≠ b.id := pairwise_map.mp w.jobs.distinct

theorem pairs_apart {rows : List JobRow} (apart : rows.Pairwise fun a b => a.id ≠ b.id)
    (change : JobRow → Option JobRow) :
    (rows.filterMap fun row => (change row).map fun row' => (row, row')).Pairwise fun p q => p.1.id ≠ q.1.id := by
  refine List.Pairwise.filterMap _ (fun a b other p made q made' => ?_) apart
  obtain ⟨a', -, rfl⟩ := Option.map_eq_some_iff.mp made
  obtain ⟨b', -, rfl⟩ := Option.map_eq_some_iff.mp made'
  exact other

theorem mem_pairs {rows : List JobRow} {change : JobRow → Option JobRow} {p : JobRow × JobRow}
    (member : p ∈ rows.filterMap fun row => (change row).map fun row' => (row, row')) :
    p.1 ∈ rows ∧ change p.1 = some p.2 := by
  obtain ⟨row, listed, made⟩ := mem_filterMap.mp member
  obtain ⟨row', made', rfl⟩ := Option.map_eq_some_iff.mp made
  exact ⟨listed, made'⟩

theorem find_of_mem {row : JobRow} (member : row ∈ w.jobs.rows) : w.jobs.find row.id = some row :=
  Table.find_eq_some.mpr ⟨member, rfl⟩

def revokes (w : World) (ended : Ended) (row : JobRow) : Option JobRow :=
  if w.acceptances.any fun a => a.jobId == row.id && a.attempt == row.attempt && ended.covers a.accepted then
    revoked w.now row
  else none

theorem covered_eq (w : World) (ended : Ended) :
    covered w ended = w.jobs.rows.filterMap fun row => (revokes w ended row).map fun row' => (row, row') := by
  unfold covered
  congr 1
  funext row
  unfold revokes
  split <;> rfl

theorem revoke_others {ended : Ended} : Others json (o == .ok) w (cancelJobs json w ended o) := by
  unfold cancelJobs
  simp only
  split
  · exact .refl
  have each : ∀ p ∈ covered w ended, w.jobs.find p.1.id = some p.1 ∧ Allowed p.1 p.2 ∧ p.2.status ≠ .succeeded := by
    rw [covered_eq]
    intro p member
    obtain ⟨listed, made⟩ := mem_pairs member
    unfold revokes at made
    split at made
    · exact ⟨find_of_mem listed, revoked_allowed made⟩
    · cases made
  have apart : (covered w ended).Pairwise fun p q => p.1.id ≠ q.1.id := by
    rw [covered_eq]
    exact pairs_apart (rows_apart w) _
  refine turns_effects apart fun p member => ⟨(each p member).1, (each p member).2.1, (each p member).2.2, ?_⟩
  cases o with
  | ok => exact snapshot_tells p.2
  | failed | lost => exact silent_tells

/-- Whether a restart's event is offered for every job it ended. -/
def Shown (w : World) (o : Outcome) : Bool := o == .ok && decide ((unfinished w).length ≤ RECOVERED_SHOWN)

theorem recovered_tells {row' : JobRow} (over_ : row'.status.working = false) :
    Tells json sure row' (some (recovered row')) :=
  ⟨fun _ told => by cases told; exact ⟨rfl, over_⟩, fun _ _ _ => rfl⟩

theorem recover_others : Others json (Shown w o) w (recover json w o) := by
  have sorted := (rows_apart w).perm (mergeSort_perm w.jobs.rows fun a b => decide (a.id ≤ b.id)).symm
    fun other => Ne.symm other
  have apart : (unfinished w).Pairwise fun p q => p.1.id ≠ q.1.id := pairs_apart sorted _
  have each : ∀ p ∈ unfinished w, w.jobs.find p.1.id = some p.1 ∧ Allowed p.1 p.2 ∧ p.2.status.working = false ∧
      p.2.status ≠ .succeeded := by
    intro p member
    obtain ⟨listed, made⟩ := mem_pairs member
    exact ⟨find_of_mem (mem_mergeSort.mp listed), stopped_allowed made⟩
  unfold recover
  split
  · exact .refl
  simp only
  split
  · rename_i ok
    have shown : Others json (Shown w o) w
        (turns json w (fun row' => some (recovered row')) ((unfinished w).take RECOVERED_SHOWN)) := by
      refine turns_effects (apart.sublist (take_sublist ..)) fun p member => ?_
      obtain ⟨found, allowed, over_, other⟩ := each p (mem_of_mem_take member)
      exact ⟨found, allowed, other, recovered_tells over_⟩
    refine shown.trans (turns_effects (apart.sublist (drop_sublist ..)) fun p member => ?_)
    obtain ⟨found, allowed, over_, other⟩ := each p (mem_of_mem_drop member)
    refine ⟨?_, allowed, other, fun _ told => (by cases told), fun all => ?_⟩
    · rw [turns_find, found]
      intro q earlier
      refine ⟨(each q (mem_of_mem_take earlier)).2.1.id, ?_⟩
      rw [← take_append_drop RECOVERED_SHOWN (unfinished w), pairwise_append] at apart
      exact apart.2.2 q earlier p member
    · -- where all are shown, none is left
      rw [Shown, Bool.and_eq_true, decide_eq_true_eq] at all
      rw [drop_eq_nil_of_le all.2] at member
      cases member
  · rename_i lost
    refine turns_effects apart fun p member => ?_
    obtain ⟨found, allowed, over_, other⟩ := each p member
    have unsure : Shown w o = false := by
      rw [Shown, beq_eq_false_iff_ne.mpr lost]
      rfl
    rw [unsure]
    exact ⟨found, allowed, other, silent_tells⟩

/-! ## Every move -/

/-- Whether a move's transaction is committed, and known to be; a restart's also shows every job it ends. -/
def Move.known (w : World) : Move → Bool
  | .submit _ _ o | .hit _ _ o | .retry _ o | .cancel _ o | .revoke _ o => o == .ok
  | .worker _ next => next.known
  | .recover o => Shown w o
  | .duplicate .. | .tick _ | .crash => true

def Move.by_ : Move → Option Nat
  | .worker i _ => some i
  | _ => none

theorem Effect.any (effect : Effect json sure worker may k k') : Effect json sure worker (fun _ => True) k k' := by
  cases effect with
  | turn found may_ allowed tells => exact .turn found trivial allowed tells
  | progress found may_ running id state error => exact .progress found trivial running id state error
  | create new queued error => exact .create new queued error

def Claimed (log : List Change) (i : Nat) (a : Worker) : Prop :=
  ∃ c ∈ log, c.jobId = a.jobId ∧ c.after = (.running, a.attempt) ∧ c.worker = some i

def Flagged (w : World) : Prop :=
  ∀ (i : Nat) (a : Worker), w.workers[i]? = some a → a.Ok ∧ (a.claimed = true → Claimed w.log i a)

theorem step_effects (flagged : Flagged w) (move : Move) :
    Effects json (move.known w) move.by_ (fun _ => True) w.core (step json w move).core := by
  cases move with
  | submit =>
    simp only [step]
    split
    · exact submit_others
    · exact .refl
  | hit =>
    simp only [step]
    split
    · exact hit_others
    · exact .refl
  | retry id o =>
    simp only [step]
    split
    · exact retry_others
    · exact .refl
  | cancel id o =>
    simp only [step]
    split
    · exact cancel_others
    · exact .refl
  | revoke ended o =>
    simp only [step]
    split
    · exact revoke_others
    · exact .refl
  | duplicate id attempt =>
    simp only [step]
    split <;> exact .refl
  | worker i next =>
    simp only [step]
    cases held : w.workers[i]? with
    | none => exact .refl
    | some a =>
      rcases act_effect (flagged i a held).1 next with same | effect
      · rw [Option.elim_some, same]
      · exact .single effect.any
  | tick now => exact .refl
  | crash => exact .refl
  | recover o => exact recover_others

theorem Effects.grow (effects : Effects json sure worker may k k') : ∃ new, k'.log = new ++ k.log ∧
    ∀ c ∈ new, c.worker = worker ∧ (sure = true → c.ends = true → c.readable = true → c.told = true) := by
  induction effects with
  | refl => exact ⟨[], rfl, fun c member => absurd member not_mem_nil⟩
  | tail _ effect ih =>
    obtain ⟨new, log, each⟩ := ih
    cases effect with
    | @turn row row' event found may_ allowed tells =>
      refine ⟨_ :: new, congrArg (List.cons _) log, forall_mem_cons.mpr ⟨⟨rfl, fun sure ends read => ?_⟩, each⟩⟩
      rw [Change.ends, Bool.not_eq_true'] at ends
      exact tells.sure sure ends read
    | progress => exact ⟨new, log, each⟩
    | create => exact ⟨new, log, each⟩

inductive Follows (w w' : World) (i : Nat) (a : Worker) : Prop
  | same (held : w.workers[i]? = some a)
  | spawned (unclaimed : a.claimed = false) (phase : a.phase = .claiming)
  | moved {b : Worker} (held : w.workers[i]? = some b) (id : a.jobId = b.jobId) (attempt : a.attempt = b.attempt)
    (claimed : a.claimed = b.claimed) (over_ : a.phase = .gone ∨ ∃ why, a.phase = .settling why)
  | claims (phase : a.phase = .working) (claimed : a.claimed = true) (claim : Claimed w'.log i a)

theorem Flagged.follows (flagged : Flagged w) (grows : ∃ new, w'.log = new ++ w.log)
    (follows : ∀ i a, w'.workers[i]? = some a → Follows w w' i a) : Flagged w' := by
  obtain ⟨new, log⟩ := grows
  have later {i : Nat} {a : Worker} (claimed : Claimed w.log i a) : Claimed w'.log i a := by
    obtain ⟨c, member, rest⟩ := claimed
    exact ⟨c, by rw [log]; exact mem_append_right new member, rest⟩
  intro i a held
  cases follows i a held with
  | same held => exact ⟨(flagged i a held).1, fun claimed => later ((flagged i a held).2 claimed)⟩
  | spawned unclaimed phase =>
    refine ⟨?_, fun claimed => ?_⟩
    · rw [Worker.Ok, phase]
      exact unclaimed
    · rw [unclaimed] at claimed
      cases claimed
  | @moved b held id attempt claimed over_ =>
    refine ⟨?_, fun flag => ?_⟩
    · rw [Worker.Ok]
      rcases over_ with phase | ⟨why, phase⟩ <;> rw [phase] <;> trivial
    · obtain ⟨c, member, id', after, by_⟩ := later ((flagged i b held).2 (claimed ▸ flag))
      exact ⟨c, member, id'.trans id.symm, attempt ▸ after, by_⟩
  | claims phase claimed claim =>
    refine ⟨?_, fun _ => claim⟩
    rw [Worker.Ok, phase]
    exact claimed

theorem transact_workers : (transact json w worker id change o).workers = w.workers := by
  unfold transact
  split
  · rfl
  · cases o <;> rfl

theorem turns_workers :
    (turns json w tell pairs).workers = w.workers := by
  induction pairs generalizing w with
  | nil => rfl
  | cons pair rest ih => exact ih

theorem cancelJobs_workers {ended : Ended} : (cancelJobs json w ended o).workers = w.workers := by
  unfold cancelJobs
  simp only
  split
  · rfl
  · exact turns_workers

theorem recover_workers : (recover json w o).workers = w.workers := by
  unfold recover
  split
  · rfl
  simp only
  split
  · exact turns_workers.trans turns_workers
  · exact turns_workers

theorem accept_workers : (w.accept id accepted).workers = w.workers := by
  unfold World.accept
  split
  · split <;> rfl
  · rfl

theorem accept_log : (w.accept id accepted).log = w.log :=
  congrArg Core.log accept_core

theorem Follows.logged {w'' : World} {i : Nat} {a : Worker} (follows : Follows w w' i a)
    (same : w''.log = w'.log) :
    Follows w w'' i a := by
  cases follows with
  | same held => exact .same held
  | spawned unclaimed phase => exact .spawned unclaimed phase
  | moved held id attempt claimed over_ => exact .moved held id attempt claimed over_
  | claims phase claimed claim => exact .claims phase claimed (same ▸ claim)

theorem follows_of_eq (same : w'.workers = w.workers) (i : Nat) (a : Worker) (held : w'.workers[i]? = some a) :
    Follows w w' i a := by
  rw [same] at held
  exact .same held

theorem follows_spawn {jobId : String} {attempt : Nat}
    (same : w'.workers = w.workers ++ [⟨jobId, attempt, false, .claiming⟩]) (i : Nat) (a : Worker)
    (held : w'.workers[i]? = some a) : Follows w w' i a := by
  rw [same, List.getElem?_append] at held
  split at held
  · exact .same held
  · obtain rfl := mem_singleton.mp (mem_of_getElem? held)
    exact .spawned rfl rfl

theorem requeue_follows (i : Nat) (a : Worker) (held : (requeue json w id change o).workers[i]? = some a) :
    Follows w (requeue json w id change o) i a := by
  revert held
  unfold requeue
  split
  · exact .same
  simp only
  split
  · rename_i row' made ok
    have spawned : ((transact json w none id change o).spawn id row'.attempt).workers =
        w.workers ++ [⟨id, row'.attempt, false, .claiming⟩] := by rw [World.spawn, transact_workers]
    exact follows_spawn spawned i a
  · exact follows_of_eq transact_workers i a

theorem follows_set {i : Nat} {a' : Worker} (same : w'.workers = w.workers.set i a')
    (follows : Follows w w' i a') (j : Nat) (b : Worker) (held : w'.workers[j]? = some b) :
    Follows w w' j b := by
  rw [same, List.getElem?_set] at held
  split at held
  · rename_i here
    subst here
    split at held
    · obtain rfl := Option.some.inj held
      exact follows
    · cases held
  · exact .same held

section
variable {i : Nat} {a : Worker}

theorem follows_phase {after : World} {phase : Phase} (same : after.workers = w.workers)
    (held : w.workers[i]? = some a)
    (over_ : phase = .gone ∨ ∃ why, phase = .settling why) (j : Nat) (b : Worker)
    (held' : (after.phase i a phase).workers[j]? = some b) : Follows w (after.phase i a phase) j b := by
  have workers : (after.phase i a phase).workers = w.workers.set i { a with phase } := by rw [World.phase, same]
  exact follows_set workers (.moved held rfl rfl rfl over_) j b held'

theorem progress_workers {jobId : String} {attempt : Nat} {p : Json} :
    (progress w jobId attempt p o).workers = w.workers := by
  unfold progress
  split
  · rfl
  · split <;> rfl

theorem commit_workers {jobId : String} {attempt : Nat} {s : Success} :
    (commit json w worker jobId attempt s o).workers = w.workers := by
  unfold commit
  split
  · rfl
  split
  · rfl
  · exact transact_workers

theorem claim_logged {row row' : JobRow} (found : w.jobs.find a.jobId = some row)
    (made : claimed w.now a.attempt row = some row') :
    Claimed (transact json w (some i) a.jobId (claimed w.now a.attempt) .ok).log i a := by
  have state := (claimed_allowed made).2.2.2
  have turned : transact json w (some i) a.jobId (claimed w.now a.attempt) .ok =
      w.turn json (some i) row row' (snapshot json row') := by
    simp only [transact, found, Option.bind_some, made, Option.map_some]
  rw [turned]
  exact ⟨_, mem_cons_self .., (mem_of_find found).2, state, rfl⟩

theorem claim_follows (held : w.workers[i]? = some a) (j : Nat) (b : Worker)
    (held' : (claim json w i a o).workers[j]? = some b) : Follows w (claim json w i a o) j b := by
  revert held'
  unfold claim
  simp only
  split
  · exact follows_phase transact_workers held (.inr ⟨_, rfl⟩) j b
  · exact follows_phase transact_workers held (.inr ⟨_, rfl⟩) j b
  · exact follows_phase transact_workers held (.inl rfl) j b
  rename_i row' found
  obtain ⟨row, here, made⟩ := Option.bind_eq_some_iff.mp found
  have logged : Claimed (transact json w (some i) a.jobId (claimed w.now a.attempt) .ok).log i a :=
    claim_logged here made
  generalize claims : transact json w (some i) a.jobId (claimed w.now a.attempt) .ok = after at logged
  have workers : after.workers = w.workers := by rw [← claims, transact_workers]
  have set_ : ({ after with
      workers := after.workers.set i { a with claimed := true, phase := .working } } : World).workers =
      w.workers.set i { a with claimed := true, phase := .working } := by rw [workers]
  exact follows_set set_ (.claims rfl rfl logged) j b

theorem act_follows (held : w.workers[i]? = some a) (next : Act) (j : Nat) (b : Worker)
    (held' : (act json w i a next).workers[j]? = some b) : Follows w (act json w i a next) j b := by
  revert held'
  cases next with
  | claim o =>
    simp only [act]
    split
    · exact claim_follows held j b
    · exact .same
  | progress p o =>
    simp only [act]
    split
    · exact follows_of_eq progress_workers j b
    · exact .same
  | settle =>
    simp only [act]
    split
    · exact follows_of_eq transact_workers j b
    · exact .same
  | interrupt message o =>
    simp only [act]
    split
    · exact follows_of_eq transact_workers j b
    · exact .same
  | commit s o =>
    simp only [act]
    split
    · exact follows_of_eq commit_workers j b
    · exact .same
  | end_ how =>
    simp only [act]
    split
    · exact follows_phase rfl held (.inr ⟨_, rfl⟩) j b
    · exact follows_phase rfl held (.inr ⟨_, rfl⟩) j b
    · exact .same
  | supervise o =>
    simp only [act]
    split
    · split
      · exact follows_phase transact_workers held (.inl rfl) j b
      · exact follows_of_eq transact_workers j b
    · exact .same

end

theorem step_follows (move : Move) (i : Nat) (a : Worker) (held : (step json w move).workers[i]? = some a) :
    Follows w (step json w move) i a := by
  revert held
  cases move with
  | submit j accepted o =>
    simp only [step]
    split
    · unfold submit
      simp only
      split
      · exact .same
      have same : ({ w with jobs := w.jobs.put (j.row w.now) }.accept j.id accepted).workers = w.workers :=
        accept_workers
      split
      · exact follows_spawn (by rw [World.spawn, same]) i a
      · exact follows_of_eq same i a
    · exact .same
  | hit =>
    simp only [step]
    split
    · unfold hit
      simp only
      split
      · exact .same
      split
      · intro held
        rw [accept_workers] at held
        exact (requeue_follows i a held).logged accept_log
      · exact follows_of_eq accept_workers i a
    · exact .same
  | retry id o =>
    simp only [step]
    split
    · exact requeue_follows i a
    · exact .same
  | cancel id o =>
    simp only [step]
    split
    · exact follows_of_eq transact_workers i a
    · exact .same
  | revoke ended o =>
    simp only [step]
    split
    · exact follows_of_eq cancelJobs_workers i a
    · exact .same
  | duplicate id attempt =>
    simp only [step]
    split
    · exact follows_spawn rfl i a
    · exact .same
  | worker j next =>
    simp only [step]
    cases held : w.workers[j]? with
    | none => exact .same
    | some b => exact act_follows held next i a
  | tick now => exact fun held => .same held
  | crash =>
    intro held
    change (w.workers.map _)[i]? = some a at held
    rw [List.getElem?_map] at held
    obtain ⟨b, held', rfl⟩ := Option.map_eq_some_iff.mp held
    exact .moved held' rfl rfl rfl (.inl rfl)
  | recover o =>
    exact follows_of_eq recover_workers i a

/-! ## Every run -/

structure Law (w : World) : Prop where
  kept : Kept w.core
  flagged : Flagged w

theorem Law.step (law : Law w) (move : Move) : Law (step json w move) := by
  have effects : Effects json (move.known w) move.by_ (fun _ => True) w.core (Jobs.step json w move).core :=
    step_effects law.flagged move
  obtain ⟨new, grows, -⟩ := effects.grow
  exact ⟨effects.kept law.kept, law.flagged.follows ⟨new, grows⟩ (step_follows move)⟩

theorem law_run (json : String → Option Json) (now : String) (moves : List Move) : Law (run (step json) moves
    (start now)) :=
  run_invariant (step json) (fun _ => True) Law (fun _ move _ law => law.step move) (fun _ _ => trivial)
    ⟨kept_start now, fun i a held => by cases held⟩

theorem Kept.either (kept : Kept k) {c c' : Change} (member : c ∈ k.log) (member' : c' ∈ k.log) (other : c ≠ c')
    (same : c.jobId = c'.jobId) : place c.after ≤ place c'.before ∨ place c'.after ≤ place c.before := by
  let follows (a b : Change) : Prop :=
    a ≠ b → a.jobId = b.jobId → place a.after ≤ place b.before ∨ place b.after ≤ place a.before
  have later : k.log.Pairwise follows := kept.ordered.imp fun below _ same => .inr (below same.symm)
  have earlier : k.log.Pairwise (flip follows) := kept.ordered.imp fun below _ same => .inl (below same)
  exact List.Pairwise.forall_of_forall_of_flip
      (fun _ _ other => absurd rfl other) later earlier member member' other same

theorem Kept.unique (kept : Kept k) {c c' : Change} (member : c ∈ k.log) (member' : c' ∈ k.log)
    (same : c.key = c'.key) :
    c = c' := by
  by_contra other
  obtain ⟨id, after⟩ := Prod.mk.inj same
  have up := (kept.turns c member).climbs
  have up' := (kept.turns c' member').climbs
  rcases kept.either member member' other id with below | below
  · rw [after] at below
    omega
  · rw [← after] at below
    omega

theorem Kept.nodup (kept : Kept k) : (k.log.map Change.key).Nodup := by
  refine pairwise_map.mpr (kept.ordered.imp_of_mem fun {later earlier} member member' below same => ?_)
  obtain ⟨id, after⟩ := Prod.mk.inj same
  have up := (kept.turns later member).climbs
  have := below id.symm
  rw [← after] at this
  omega

theorem Kept.result (kept : Kept k) {r : String × Nat} :
    r ∈ k.results ↔ ∃ c ∈ k.log, c.jobId = r.1 ∧ c.before = (.running, r.2) ∧ c.after = (.succeeded, r.2) := by
  rw [kept.results, mem_map]
  constructor
  · rintro ⟨c, member, rfl⟩
    obtain ⟨member, success⟩ := mem_filter.mp member
    rw [beq_iff_eq] at success
    exact ⟨c, member, rfl, (kept.turns c member).to_succeeded success, Prod.ext success rfl⟩
  · rintro ⟨c, member, id, -, after⟩
    exact ⟨c, mem_filter.mpr ⟨member, by rw [after]; rfl⟩, by rw [Change.attempt, id, after]⟩

theorem Kept.no_result (kept : Kept k) {c : Change} (member : c ∈ k.log) (asked : c.after.1 = .cancelling) :
    c.attempt ∉ k.results := by
  intro result
  obtain ⟨s, member', id, before, after⟩ := kept.result.mp result
  have other : s ≠ c := by
    rintro rfl
    rw [after] at asked
    cases asked
  have up := (kept.turns c member).climbs
  have at_ : place c.after = 6 * c.after.2 + 2 := by rw [place, asked]; rfl
  have success : place s.after = 6 * c.after.2 + 5 := by rw [after]; rfl
  have running : place s.before = 6 * c.after.2 + 1 := by rw [before]; rfl
  rcases kept.either member' member other id with below | below <;> omega

theorem Effect.frame (effect : Effect json sure worker may k k') {row : JobRow} (found : k.jobs.find id = some row) :
    k'.jobs.find id = some row ∨
      (may row ∧ row.status ≠ .succeeded ∧
        ∃ row', k'.jobs.find id = some row' ∧ (Turn (stateOf row) (stateOf row') ∨ stateOf row' = stateOf row)) := by
  obtain rfl := (mem_of_find found).2
  cases effect with
  | @turn r r' event found' may_ allowed tells =>
    by_cases same : row.id = r'.id
    · rw [same.trans allowed.id, found'] at found
      obtain rfl := Option.some.inj found
      refine .inr ⟨may_, allowed.turn.not_succeeded, r', ?_, .inl allowed.turn⟩
      show (k.jobs.set r').find r.id = some r'
      rw [Table.find_set, if_pos same, found']
      rfl
    · refine .inl ?_
      show (k.jobs.set r').find row.id = some row
      rw [Table.find_set, if_neg same, found]
  | @progress r r' found' may_ running id state error =>
    by_cases same : row.id = r'.id
    · rw [same.trans id, found'] at found
      obtain rfl := Option.some.inj found
      refine .inr ⟨may_, by rw [running]; decide, r', ?_, .inr state⟩
      show (k.jobs.set r').find r.id = some r'
      rw [Table.find_set, if_pos same, found']
      rfl
    · refine .inl ?_
      show (k.jobs.set r').find row.id = some row
      rw [Table.find_set, if_neg same, found]
  | @create r new queued error =>
    refine .inl ?_
    show (k.jobs.put r).find row.id = some row
    rw [Table.find_put_of_ne, found]
    intro same
    rw [same, new] at found
    cases found

theorem Effects.frozen (effects : Effects json sure worker may k k') {row : JobRow}
    (found : k.jobs.find id = some row)
    (success : row.status = .succeeded) : k'.jobs.find id = some row := by
  induction effects with
  | refl => exact found
  | tail _ effect ih =>
    rcases effect.frame ih with same | ⟨-, other, -⟩
    · exact same
    · exact absurd success other

/-- A worker changes its own attempt's row only: the queued one, or once it claimed the job, that claim. -/
theorem Law.fence (law : Law w) {i : Nat} {a : Worker} (held : w.workers[i]? = some a) (next : Act) {row : JobRow}
    (found : w.jobs.find id = some row) :
    (Jobs.step json w (.worker i next)).jobs.find id = some row ∨ (Mine a row ∧
      ∃ row', (Jobs.step json w (.worker i next)).jobs.find id = some row' ∧ row'.attempt = row.attempt) := by
  have act_ : Jobs.step json w (.worker i next) = act json w i a next := by rw [Jobs.step, held]; rfl
  rw [act_]
  rcases act_effect (law.flagged i a held).1 next with same | effect
  · refine .inl ?_
    show (act json w i a next).core.jobs.find id = some row
    rw [same]
    exact found
  · rcases effect.frame found with same | ⟨mine, -, row', found', turn⟩
    · exact .inl same
    refine .inr ⟨mine, row', found', ?_⟩
    rcases turn with (⟨-, attempt⟩ | ⟨again, -⟩) | same
    · exact attempt
    · -- a worker restarts nothing
      obtain ⟨-, -, settles_⟩ := mine
      have none_ : restarts row.status = true → settles a.claimed row.status = false := by
        cases row.status <;> cases a.claimed <;> first | (intro other; cases other; done) | exact fun _ => rfl
      rw [none_ again] at settles_
      cases settles_
    · exact congrArg Prod.snd same

theorem Law.claims_once (law : Law w) {i j : Nat} {a b : Worker} (held : w.workers[i]? = some a)
    (held' : w.workers[j]? = some b) (claimed : a.claimed = true) (claimed' : b.claimed = true)
    (id : a.jobId = b.jobId) (attempt : a.attempt = b.attempt) : i = j := by
  obtain ⟨c, member, id_, after, by_⟩ := (law.flagged i a held).2 claimed
  obtain ⟨c', member', id_', after', by_'⟩ := (law.flagged j b held').2 claimed'
  have same : c = c' := law.kept.unique member member' (by
    rw [Change.key, Change.key, id_, id_', after, after', id, attempt])
  subst same
  exact Option.some.inj (by_.symm.trans by_')

theorem Law.apart (law : Law w) {i j : Nat} {a b : Worker} (other : i ≠ j) (held : w.workers[i]? = some a)
    (held' : w.workers[j]? = some b) (claimed : b.claimed = true) (next : Act) {row : JobRow}
    (found : w.jobs.find b.jobId = some row) (attempt : row.attempt = b.attempt) :
    (Jobs.step json w (.worker i next)).jobs.find b.jobId = some row := by
  rcases law.fence held next found with same | ⟨⟨id, mine, settles_⟩, -⟩
  · exact same
  exfalso
  have named : b.jobId = a.jobId := (mem_of_find found).2.symm.trans id
  cases flag : a.claimed with
  | true => exact other (law.claims_once held held' flag claimed named.symm (mine.symm.trans attempt))
  | false =>
    rw [flag] at settles_
    have queued : row.status = .queued := beq_iff_eq.mp settles_
    obtain ⟨c, member, id_, after, -⟩ := (law.flagged j b held').2 claimed
    obtain ⟨r, here, below⟩ := law.kept.current c member
    rw [id_] at here
    obtain rfl := Option.some.inj (found.symm.trans here)
    have low : place (stateOf row) = 6 * b.attempt + 0 := by rw [place, stateOf, queued, attempt]; rfl
    have high : place c.after = 6 * b.attempt + 1 := by rw [after]; rfl
    omega

theorem Kept.results_nodup (kept : Kept k) : k.results.Nodup := by
  have keys : ((k.log.filter fun c => c.after.1 == .succeeded).map Change.key).Nodup :=
    kept.nodup.sublist (filter_sublist.map _)
  rw [kept.results]
  refine pairwise_map.mpr ((pairwise_map.mp keys).imp_of_mem fun {c c'} member member' other same => other ?_)
  obtain ⟨id, attempt⟩ := Prod.mk.inj same
  have success := beq_iff_eq.mp (mem_filter.mp member).2
  have success' := beq_iff_eq.mp (mem_filter.mp member').2
  exact Prod.ext id (Prod.ext (success.trans success'.symm) attempt)

structure Once (json : String → Option Json) (w : World) : Prop where
  /-- No job comes to one status of one attempt twice. -/
  once : (w.log.map Change.key).Nodup
  claims : ∀ (i j : Nat) (a b : Worker), w.workers[i]? = some a → w.workers[j]? = some b → a.claimed = true →
      b.claimed = true →
    a.jobId = b.jobId → a.attempt = b.attempt → i = j
  /-- Result rows are there for exactly the running attempts that succeeded, once for each. -/
  results : w.results.Nodup ∧ ∀ r, r ∈ w.results ↔
    ∃ c ∈ w.log, c.jobId = r.1 ∧ c.before = (.running, r.2) ∧ c.after = (.succeeded, r.2)
  cancelling : ∀ c ∈ w.log, c.after.1 = .cancelling → c.attempt ∉ w.results
  fence : ∀ (i : Nat) (a : Worker) next id row, w.workers[i]? = some a → w.jobs.find id = some row →
    (step json w (.worker i next)).jobs.find id = some row ∨ (Mine a row ∧
      ∃ row', (step json w (.worker i next)).jobs.find id = some row' ∧ row'.attempt = row.attempt)
  apart : ∀ (i j : Nat) (a b : Worker) next (row : JobRow), i ≠ j → w.workers[i]? = some a →
      w.workers[j]? = some b → b.claimed = true →
    w.jobs.find b.jobId = some row → row.attempt = b.attempt →
      (step json w (.worker i next)).jobs.find b.jobId = some row
  frozen : ∀ move id (row : JobRow), w.jobs.find id = some row → row.status = .succeeded →
    (step json w move).jobs.find id = some row
  turns : ∀ c ∈ w.log, Turn c.before c.after
  fits : ∀ row ∈ w.jobs.rows, Fits row
  /-- The events are those of the ends told, one for each. -/
  told : w.events.map Finished.key = (w.log.filter Change.told).map Change.key ∧ ∀ c ∈ w.log, c.told = true →
      c.ends = true
  /-- An end is told where its transaction is known to be committed and the job can be read. -/
  known : ∀ move, ∃ new, (step json w move).log = new ++ w.log ∧
    (move.known w = true → ∀ c ∈ new, c.ends = true → c.readable = true → c.told = true)

def aJob : NewJob := ⟨"job_00000000000000000000000000", "import", none, none, .page, .obj []⟩

def anInstant : String := "2026-01-01T00:00:00.000Z"

def Worker.isGone (a : Worker) : Bool :=
  match a.phase with
  | .gone => true
  | _ => false

def unheard : World :=
  run (step fun _ => some (errorJson "storage_unavailable" "the database failed"))
    [.recover .ok, .submit aJob none .ok, .worker 0 (.claim .ok), .worker 0 (.end_ .database),
      .worker 0 (.supervise .lost), .worker 0 (.supervise .ok)] (start anInstant)

end Agent24.Jobs
