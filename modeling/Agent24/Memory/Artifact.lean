import Agent24.Library.Transaction
import Agent24.Memory.Assertion

/-! The versioned artifact store: compare-and-swap writes under the write lock, and their history. -/

set_option autoImplicit false
namespace Agent24.Memory
open Library List

structure Artifact where
  path : String
  body : String
  version : Nat
  dbChecksum : String
  fileChecksum : String
  scope : Scope
  updatedBy : String
  reason : String
  recordedAt : String
  deriving DecidableEq

def Artifact.draft (P : Platform) (now path body : String) (scope : Scope)
    (updatedBy reason : String) : Artifact :=
  ⟨path, body, 0, P.checksum body, P.checksum body, scope, updatedBy, reason, now⟩

def Artifact.isAt (owner path : String) (a : Artifact) : Bool := a.scope.owner == owner && a.path == path

structure ArtifactTables where
  /-- `mem_artifacts`, one row for each owner and path. -/
  artifacts : List Artifact
  /-- `mem_artifact_versions`. -/
  versions : List Artifact

namespace ArtifactTables

def empty : ArtifactTables := ⟨[], []⟩

def read (path owner : String) (t : ArtifactTables) : Option Artifact :=
  t.artifacts.find? (Artifact.isAt owner path)

def history (path owner : String) (t : ArtifactTables) : List Artifact :=
  (t.versions.filter (Artifact.isAt owner path)).insertionSort fun a b => a.version ≤ b.version

end ArtifactTables

/-- One call of `cas_write`. -/
structure CasRequest where
  artifact : Artifact
  expectVersion : Nat
  disk : Option DiskSample
  now : String

/-- The locals of `cas_write`: its arguments, and the artifact it is to commit. -/
structure CasWrite where
  artifact : Artifact
  expectVersion : Nat
  now : String
  committed : Artifact

section
variable (P : Platform)

def compareVersion (t : ArtifactTables) (w : CasWrite) :
    Except MemoryError (ArtifactTables × CasWrite) :=
  let current := ((t.read w.artifact.path w.artifact.scope.owner).map Artifact.version).getD 0
  if w.expectVersion ≠ current then
    .error (.conflict ("artifact " ++ w.artifact.path ++ " is at version " ++ toString current ++
      ", write expected " ++ toString w.expectVersion))
  else
    let bodySum := P.checksum w.artifact.body
    .ok (t, { w with committed := { w.artifact with
      version := current + 1, dbChecksum := bodySum, fileChecksum := bodySum, recordedAt := w.now } })

/-- The `CHECK`s on owner and path. -/
def artifactCheck (a : Artifact) : Bool := !sqliteBlank [' '] a.scope.owner && !sqliteBlank [' '] a.path

def insertVersion (t : ArtifactTables) (w : CasWrite) :
    Except MemoryError (ArtifactTables × CasWrite) :=
  let a := w.committed
  if !artifactCheck a then .error (.sqlx .checkFailed)
  else if t.versions.any fun row => row.isAt a.scope.owner a.path && row.version == a.version then
    .error (.conflict ("artifact " ++ a.path ++ " version " ++ toString a.version ++
      " was committed concurrently"))
  else .ok ({ t with versions := t.versions ++ [a] }, w)

def movePointer (t : ArtifactTables) (w : CasWrite) :
    Except MemoryError (ArtifactTables × CasWrite) :=
  let a := w.committed
  if !artifactCheck a then .error (.sqlx .checkFailed)
  else
    let others := t.artifacts.filter fun row => !row.isAt a.scope.owner a.path
    .ok ({ t with artifacts := others ++ [a] }, w)

/-- `ArtifactStore::cas_write`: the disk check, then `BEGIN IMMEDIATE` and three statements. -/
def casWrite : Transaction.Protocol ArtifactTables CasWrite MemoryError CasRequest where
  admits request :=
    if diskRefuses .content request.disk then .error .diskLow
    else .ok ⟨request.artifact, request.expectVersion, request.now, request.artifact⟩
  body _ := [compareVersion P, insertVersion, movePointer]

end

def published (finished : CasRequest × Transaction.Outcome CasWrite MemoryError) : Option Artifact :=
  finished.2.locals.map CasWrite.committed

/-- The successful writes of one artifact, in the order of their commits. -/
def committedAt (owner path : String)
    (finished : List (CasRequest × Transaction.Outcome CasWrite MemoryError)) : List Artifact :=
  (finished.filterMap published).filter (Artifact.isAt owner path)

section
variable {P : Platform}

/-- A successful write of a whole request: it expected the current version, and stores the next one. -/
theorem casWrite_ok {request : CasRequest} {t t' : ArtifactTables} {w : CasWrite}
    (done : (casWrite P).whole request t = .ok (t', w)) :
    ((t.read request.artifact.path request.artifact.scope.owner).map Artifact.version).getD 0 =
        request.expectVersion ∧
      w.committed = { request.artifact with
        version := request.expectVersion + 1
        dbChecksum := P.checksum request.artifact.body
        fileChecksum := P.checksum request.artifact.body
        recordedAt := request.now } ∧
      t'.versions = t.versions ++ [w.committed] ∧
      t'.artifacts = t.artifacts.filter (fun row =>
        !row.isAt request.artifact.scope.owner request.artifact.path) ++ [w.committed] := by
  simp only [Transaction.Protocol.whole, casWrite] at done
  split at done
  · next l admitted =>
    split at admitted
    · cases admitted
    obtain rfl := Except.ok.inj admitted
    simp only [Transaction.script, compareVersion] at done
    split at done
    · next l' compared =>
      split at compared
      · cases compared
      next current =>
      simp only [ne_eq, Decidable.not_not] at current
      obtain ⟨rfl, rfl⟩ := Prod.mk.inj (Except.ok.inj compared)
      simp only [insertVersion, movePointer] at done
      split at done
      · next inserted =>
        split at inserted
        · cases inserted
        next checked =>
        split at inserted
        · cases inserted
        obtain ⟨rfl, rfl⟩ := Prod.mk.inj (Except.ok.inj inserted)
        simp only [checked] at done
        obtain ⟨rfl, rfl⟩ := Prod.mk.inj (Except.ok.inj done)
        exact ⟨current.symm, by rw [current], rfl, rfl⟩
      · cases done
    · cases done
  · cases done

end

def Rival (x y : CasRequest × Transaction.Outcome CasWrite MemoryError) : Prop :=
  ∃ a b, published x = some a ∧ published y = some b ∧ b.isAt a.scope.owner a.path = true

/-- A write that succeeded after the `earlier` ones: it expected the version they left. -/
def SawExpected (earlier : List (CasRequest × Transaction.Outcome CasWrite MemoryError))
    (P : Platform) (request : CasRequest) (written : Artifact) : Prop :=
  let owner := request.artifact.scope.owner
  request.expectVersion = (committedAt owner request.artifact.path earlier).length ∧
    written = { request.artifact with
      version := request.expectVersion + 1
      dbChecksum := P.checksum request.artifact.body
      fileChecksum := P.checksum request.artifact.body
      recordedAt := request.now }

/-- The tables hold what the successful writes made of them, one after the other. -/
structure Archived (P : Platform) (t : ArtifactTables)
    (finished : List (CasRequest × Transaction.Outcome CasWrite MemoryError)) : Prop where
  versions : t.versions = finished.filterMap published
  numbered : ∀ owner path, (committedAt owner path finished).map Artifact.version =
    List.range' 1 (committedAt owner path finished).length
  current : ∀ owner path, t.read path owner = (committedAt owner path finished).getLast?
  serial : ∀ earlier request w later, finished = earlier ++ (request, .committed w) :: later →
    SawExpected earlier P request w.committed

section
variable {P : Platform} {t : ArtifactTables}
  {finished : List (CasRequest × Transaction.Outcome CasWrite MemoryError)}

theorem committedAt_append (owner path : String)
    (more : List (CasRequest × Transaction.Outcome CasWrite MemoryError)) :
    committedAt owner path (finished ++ more) =
      committedAt owner path finished ++ committedAt owner path more := by
  rw [committedAt, filterMap_append, filter_append]
  rfl

theorem committedAt_one (owner path : String)
    (x : CasRequest × Transaction.Outcome CasWrite MemoryError) :
    committedAt owner path [x] = (published x).toList.filter (Artifact.isAt owner path) := by
  cases shown : published x <;> simp [committedAt, shown]

theorem Archived.unpublished (sound : Archived P t finished) {request : CasRequest}
    {outcome : Transaction.Outcome CasWrite MemoryError} (none_ : outcome.locals = none) :
    Archived P t (finished ++ [(request, outcome)]) := by
  have silent : published (request, outcome) = none := by rw [published, none_]; rfl
  have same : ∀ owner path, committedAt owner path (finished ++ [(request, outcome)]) =
      committedAt owner path finished := by
    intro owner path
    rw [committedAt_append, committedAt_one, silent, Option.toList_none, filter_nil, append_nil]
  constructor
  · rw [sound.versions, filterMap_append, filterMap_cons, silent, filterMap_nil,
      append_nil]
  · intro owner path
    rw [same]
    exact sound.numbered owner path
  · intro owner path
    rw [same]
    exact sound.current owner path
  · intro earlier other w later split
    rcases append_singleton_split split with ⟨-, -, last⟩ | ⟨rest, -, inside⟩
    · obtain ⟨-, rfl⟩ := Prod.mk.inj last
      cases none_
    · exact sound.serial earlier other w rest inside

theorem current_length (sound : Archived P t finished) (owner path : String) :
    ((t.read path owner).map Artifact.version).getD 0 = (committedAt owner path finished).length := by
  have numbered := sound.numbered owner path
  rw [sound.current, ← List.getLast?_map, numbered]
  cases length : (committedAt owner path finished).length with
  | zero => rfl
  | succ n => rw [List.range'_1_concat, List.getLast?_concat]; simp [Nat.add_comm]

theorem Archived.published (sound : Archived P t finished) {request : CasRequest} {t' : ArtifactTables}
    {w : CasWrite} (done : (casWrite P).whole request t = .ok (t', w)) :
    Archived P t' (finished ++ [(request, .committed w)]) := by
  obtain ⟨expected, written, versions, artifacts⟩ := casWrite_ok done
  rw [current_length sound] at expected
  have shown : Memory.published (request, .committed w) = some w.committed := rfl
  have located : ∀ owner path, w.committed.isAt owner path = request.artifact.isAt owner path := by
    intro owner path
    rw [written]
    rfl
  have appended : ∀ owner path, committedAt owner path (finished ++ [(request, .committed w)]) =
      committedAt owner path finished ++
        if request.artifact.isAt owner path then [w.committed] else [] := by
    intro owner path
    rw [committedAt_append, committedAt_one, shown, Option.toList_some, filter_singleton, located, cond_eq_ite]
  constructor
  · rw [versions, sound.versions, filterMap_append]
    rfl
  · intro owner path
    rw [appended, map_append, length_append, sound.numbered]
    by_cases here : request.artifact.isAt owner path = true
    · obtain ⟨rfl, rfl⟩ : request.artifact.scope.owner = owner ∧ request.artifact.path = path := by
        simpa [Artifact.isAt] using here
      rw [if_pos here, map_singleton, length_singleton, List.range'_1_concat, written]
      simp only [expected, Nat.add_comm]
    · rw [if_neg here]
      simp
  · intro owner path
    rw [appended, ArtifactTables.read, artifacts, List.find?_append]
    by_cases here : request.artifact.isAt owner path = true
    · obtain ⟨rfl, rfl⟩ : request.artifact.scope.owner = owner ∧ request.artifact.path = path := by
        simpa [Artifact.isAt] using here
      rw [if_pos here, List.getLast?_concat]
      have gone : (t.artifacts.filter fun row =>
          !row.isAt request.artifact.scope.owner request.artifact.path).find?
            (Artifact.isAt request.artifact.scope.owner request.artifact.path) = none := by
        simp
      rw [gone, Option.none_or, List.find?_singleton, located, if_pos here]
    · rw [if_neg here, append_nil, ← sound.current owner path, List.find?_singleton, located,
        if_neg here, Option.or_none, List.find?_filter]
      congr 1
      funext row
      -- a row of this artifact is not one of the artifact just written
      cases at_ : row.isAt owner path with
      | false => simp
      | true =>
        have elsewhere : row.isAt request.artifact.scope.owner request.artifact.path = false := by
          simp only [Artifact.isAt, Bool.and_eq_true, beq_iff_eq] at at_ here
          obtain ⟨rfl, rfl⟩ := at_
          by_contra both
          simp only [Artifact.isAt, Bool.not_eq_false, Bool.and_eq_true, beq_iff_eq] at both
          exact here ⟨both.1.symm, both.2.symm⟩
        rw [elsewhere]
        rfl
  · intro earlier other w' later split
    rcases append_singleton_split split with ⟨-, rfl, last⟩ | ⟨rest, -, inside⟩
    · obtain ⟨rfl, same⟩ := Prod.mk.inj last
      obtain rfl := Transaction.Outcome.committed.inj same
      exact ⟨expected.symm, written⟩
    · exact sound.serial earlier other w' rest inside

theorem archived (events : List (Transaction.Event MemoryError CasRequest)) :
    let m := run (Transaction.Machine.step (casWrite P)) events (Transaction.initial .empty)
    Archived P m.store m.finished :=
  Transaction.run_keeps (casWrite P) (Archived P)
    (fun _ _ _ _ _ sound done => sound.published done)
    (fun _ _ _ _ sound unpublished => sound.unpublished unpublished)
    ⟨rfl, fun _ _ => rfl, fun _ _ => rfl, fun _ _ _ _ split => by simp at split⟩ events

theorem published_eq_some {x : CasRequest × Transaction.Outcome CasWrite MemoryError} {a : Artifact}
    (shown : published x = some a) : ∃ request w, x = (request, .committed w) ∧ w.committed = a := by
  obtain ⟨request, outcome⟩ := x
  cases outcome with
  | committed w => exact ⟨request, w, rfl, Option.some.inj shown⟩
  | refused error => cases shown
  | abandoned => cases shown

theorem Archived.rivals (sound : Archived P t finished) :
    finished.Pairwise fun x y => Rival x y → x.1.expectVersion < y.1.expectVersion := by
  rw [pairwise_iff_forall_sublist]
  rintro x y chosen ⟨a, b, first, second, same⟩
  obtain ⟨front, back, rfl, inFront, inBack⟩ := cons_sublist_iff.mp chosen
  obtain ⟨early, between, rfl⟩ := append_of_mem inFront
  obtain ⟨until_, later, rfl⟩ := append_of_mem (singleton_sublist.mp inBack)
  obtain ⟨request, w, rfl, rfl⟩ := published_eq_some first
  obtain ⟨other, w', rfl, rfl⟩ := published_eq_some second
  obtain ⟨expected, written⟩ := sound.serial early request w (between ++ until_ ++ (other, .committed w') :: later)
    (by simp)
  obtain ⟨expected', written'⟩ := sound.serial (early ++ (request, .committed w) :: between ++ until_) other w'
    later (by simp)
  -- both name the artifact of the first write
  have path : other.artifact.scope.owner = request.artifact.scope.owner ∧
      other.artifact.path = request.artifact.path := by
    rw [written, written'] at same
    simpa [Artifact.isAt] using same
  have once : committedAt request.artifact.scope.owner request.artifact.path
      [(request, .committed w)] = [w.committed] := by
    rw [committedAt_one, first, Option.toList_some, filter_singleton, written]
    simp [Artifact.isAt]
  rw [path.1, path.2, append_assoc, cons_append, append_cons, committedAt_append,
    committedAt_append, once] at expected'
  simp only [length_append, length_singleton] at expected'
  show request.expectVersion < other.expectVersion
  omega

theorem history_eq (sound : Archived P t finished) (owner path : String) :
    t.history path owner = committedAt owner path finished := by
  have whole : t.versions.filter (Artifact.isAt owner path) = committedAt owner path finished := by
    rw [sound.versions]
    rfl
  rw [ArtifactTables.history, whole]
  apply List.Pairwise.insertionSort_eq
  have ascending := pairwise_le_range' (s := 1) (n := (committedAt owner path finished).length) 1
  rwa [← sound.numbered owner path, pairwise_map] at ascending

end

def ArtifactTables.currentVersion (path owner : String) (t : ArtifactTables) : Nat :=
  ((t.read path owner).map Artifact.version).getD 0

/-- For any writers, interleaved: the history of a path is the successful writes in commit order, numbered from one,
each expecting exactly the version it found, no two the same. -/
theorem cas_linearizable (P : Platform) (events : List (Transaction.Event MemoryError CasRequest)) :
    let m := run (Transaction.Machine.step (casWrite P)) events (Transaction.initial .empty)
    (∀ owner path, let history := m.store.history path owner
      history = committedAt owner path m.finished ∧
        history.map Artifact.version = List.range' 1 history.length ∧
        m.store.read path owner = history.getLast? ∧
        m.store.currentVersion path owner = history.length) ∧
    (∀ earlier request w later, m.finished = earlier ++ (request, .committed w) :: later →
      SawExpected earlier P request w.committed) ∧
    (m.finished.Pairwise fun x y => Rival x y → x.1.expectVersion < y.1.expectVersion) ∧
    ∀ event, let m' := m.step (casWrite P) event
      (m'.store = m.store ∧ ∀ x ∈ m'.finished, published x ≠ none → x ∈ m.finished) ∨
      ∃ request w, m'.finished = m.finished ++ [(request, .committed w)] ∧
        m.store.currentVersion request.artifact.path request.artifact.scope.owner =
          request.expectVersion := by
  intro m
  have sound : Archived P m.store m.finished := archived events
  refine ⟨fun owner path => ?_, sound.serial, sound.rivals, fun event => ?_⟩
  · intro history
    have whole : history = committedAt owner path m.finished := history_eq sound owner path
    rw [whole]
    exact ⟨rfl, sound.numbered owner path, sound.current owner path, current_length sound owner path⟩
  · have track := Transaction.run_onTrack (casWrite P) events .empty
    cases Transaction.Machine.step_moves track event with
    | quiet store finished => exact .inl ⟨store, fun x listed _ => finished ▸ listed⟩
    | publishes request w whole finished =>
      exact .inr ⟨request, w, finished, (casWrite_ok whole).1⟩
    | ends request outcome unpublished store finished =>
      refine .inl ⟨store, fun x listed shown => ?_⟩
      rw [finished, mem_append, mem_singleton] at listed
      rcases listed with before | rfl
      · exact before
      · exact absurd (by rw [published, unpublished]; rfl) shown

end Agent24.Memory
