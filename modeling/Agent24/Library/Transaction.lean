import Agent24.Library.Runs

/-! Transactions under an exclusive write lock: statements on a working copy, published by a commit. -/

set_option autoImplicit false
namespace Library.Transaction

section
variable {S L E R : Type}

/-- A statement reads and rewrites the store it is shown, and the locals of its caller. -/
abbrev Statement (S L E : Type) := S → L → Except E (S × L)

def script : List (Statement S L E) → S → L → Except E (S × L)
  | [], s, l => .ok (s, l)
  | statement :: rest, s, l =>
    match statement s l with
    | .ok (s', l') => script rest s' l'
    | .error e => .error e

theorem script_append (first second : List (Statement S L E)) (s : S) (l : L) :
    script (first ++ second) s l =
      match script first s l with
      | .ok (s', l') => script second s' l'
      | .error e => .error e := by
  induction first generalizing s l with
  | nil => rfl
  | cons statement rest ih =>
    simp only [List.cons_append, script]
    cases statement s l with
    | ok next => exact ih next.1 next.2
    | error e => rfl

/-- What a request does: the checks made before the lock is taken, then its statements. -/
structure Protocol (S L E R : Type) where
  admits : R → Except E L
  body : R → List (Statement S L E)

def Protocol.whole (p : Protocol S L E R) (request : R) (s : S) : Except E (S × L) :=
  match p.admits request with
  | .ok l => script (p.body request) s l
  | .error e => .error e

inductive Outcome (L E : Type) where
  | committed (locals : L)
  | refused (error : E)
  | abandoned

namespace Outcome

def locals : Outcome L E → Option L
  | .committed l => some l
  | .refused _ | .abandoned => none

end Outcome

structure Writer (S L E R : Type) where
  request : R
  working : S
  locals : L
  rest : List (Statement S L E)

structure Machine (S L E R : Type) where
  store : S
  writer : Option (Writer S L E R)
  finished : List (R × Outcome L E)

def initial (s : S) : Machine S L E R := ⟨s, none, []⟩

inductive Event (E R : Type) where
  | start (request : R)
  /-- The next statement, or the commit after the last one. -/
  | advance
  /-- The database refuses the next statement or the commit. -/
  | fault (error : E)
  | abandon

namespace Machine

def rollBack (m : Machine S L E R) (request : R) (outcome : Outcome L E) : Machine S L E R :=
  ⟨m.store, none, m.finished ++ [(request, outcome)]⟩

def step (p : Protocol S L E R) (m : Machine S L E R) : Event E R → Machine S L E R
  | .start request =>
    match m.writer with
    -- the lock is taken: the caller waits, and may ask again
    | some _ => m
    | none =>
      match p.admits request with
      | .ok l => { m with writer := some ⟨request, m.store, l, p.body request⟩ }
      | .error e => m.rollBack request (.refused e)
  | .advance =>
    match m.writer with
    | none => m
    | some w =>
      match w.rest with
      | [] => ⟨w.working, none, m.finished ++ [(w.request, .committed w.locals)]⟩
      | statement :: rest =>
        match statement w.working w.locals with
        | .ok (s, l) => { m with writer := some ⟨w.request, s, l, rest⟩ }
        | .error e => m.rollBack w.request (.refused e)
  | .fault e =>
    match m.writer with
    | none => m
    | some w => m.rollBack w.request (.refused e)
  | .abandon =>
    match m.writer with
    | none => m
    | some w => m.rollBack w.request .abandoned

def OnTrack (p : Protocol S L E R) (m : Machine S L E R) : Prop :=
  ∀ w, m.writer = some w → script w.rest w.working w.locals = p.whole w.request m.store

inductive Move (p : Protocol S L E R) (m m' : Machine S L E R) : Prop where
  | quiet (store : m'.store = m.store) (finished : m'.finished = m.finished)
  | publishes (request : R) (locals : L) (whole : p.whole request m.store = .ok (m'.store, locals))
      (finished : m'.finished = m.finished ++ [(request, .committed locals)])
  | ends (request : R) (outcome : Outcome L E) (unpublished : outcome.locals = none)
      (store : m'.store = m.store) (finished : m'.finished = m.finished ++ [(request, outcome)])

variable {p : Protocol S L E R} {m : Machine S L E R}

theorem OnTrack.idle (idle : m.writer = none) : m.OnTrack p := by
  intro w opened
  rw [idle] at opened
  cases opened

theorem OnTrack.rollBack (request : R) (outcome : Outcome L E) :
    (m.rollBack request outcome).OnTrack p := .idle rfl

theorem OnTrack.step (track : m.OnTrack p) (event : Event E R) : (m.step p event).OnTrack p := by
  cases writer : m.writer with
  | none =>
    cases event with
    | start request =>
      cases admitted : p.admits request with
      | error e =>
        simp only [Machine.step, writer, admitted]
        exact .rollBack request _
      | ok l =>
        simp only [Machine.step, writer, admitted]
        rintro w ⟨⟩
        simp only [Protocol.whole, admitted]
    | advance | fault e | abandon =>
      simp only [Machine.step, writer]
      exact track
  | some w =>
    cases event with
    | start request =>
      simp only [Machine.step, writer]
      exact track
    | advance =>
      have whole := track w writer
      cases rest : w.rest with
      | nil =>
        simp only [Machine.step, writer, rest]
        exact .idle rfl
      | cons statement rest' =>
        rw [rest, script] at whole
        cases done : statement w.working w.locals with
        | error e =>
          simp only [Machine.step, writer, rest, done]
          exact .rollBack w.request _
        | ok next =>
          simp only [Machine.step, writer, rest, done] at whole ⊢
          rintro w' ⟨⟩
          exact whole
    | fault e | abandon =>
      simp only [Machine.step, writer]
      exact .rollBack w.request _

theorem step_moves (track : m.OnTrack p) (event : Event E R) : Move p m (m.step p event) := by
  cases writer : m.writer with
  | none =>
    cases event with
    | start request =>
      cases admitted : p.admits request with
      | error e =>
        simp only [step, writer, admitted]
        exact .ends request (.refused e) rfl rfl rfl
      | ok l =>
        simp only [step, writer, admitted]
        exact .quiet rfl rfl
    | advance | fault e | abandon =>
      simp only [step, writer]
      exact .quiet rfl rfl
  | some w =>
    cases event with
    | start request =>
      simp only [step, writer]
      exact .quiet rfl rfl
    | advance =>
      have whole := track w writer
      cases rest : w.rest with
      | nil =>
        rw [rest, script] at whole
        simp only [step, writer, rest]
        exact .publishes w.request w.locals whole.symm rfl
      | cons statement rest' =>
        cases done : statement w.working w.locals with
        | error e =>
          simp only [step, writer, rest, done]
          exact .ends w.request (.refused e) rfl rfl rfl
        | ok next =>
          simp only [step, writer, rest, done]
          exact .quiet rfl rfl
    | fault e =>
      simp only [step, writer]
      exact .ends w.request (.refused e) rfl rfl rfl
    | abandon =>
      simp only [step, writer]
      exact .ends w.request .abandoned rfl rfl rfl

end Machine

theorem run_onTrack (p : Protocol S L E R) (events : List (Event E R)) (s : S) :
    (run (Machine.step p) events (initial s)).OnTrack p :=
  run_invariant _ (fun _ => True) (Machine.OnTrack p) (fun _ event _ track => track.step event)
    (fun _ _ => trivial) (.idle rfl)

/-- An invariant of the published store and the finished requests need only survive whole requests,
one at a time. -/
theorem run_keeps (p : Protocol S L E R) (invariant : S → List (R × Outcome L E) → Prop)
    (publishes : ∀ s finished request s' l, invariant s finished → p.whole request s = .ok (s', l) →
      invariant s' (finished ++ [(request, .committed l)]))
    (ends : ∀ s finished request (outcome : Outcome L E), invariant s finished →
      outcome.locals = none → invariant s (finished ++ [(request, outcome)]))
    {s : S} (start : invariant s []) (events : List (Event E R)) :
    let m := run (Machine.step p) events (initial s)
    invariant m.store m.finished := by
  refine (run_invariant _ (fun _ => True)
    (fun m : Machine S L E R => m.OnTrack p ∧ invariant m.store m.finished)
    (fun m event _ ⟨track, holds⟩ => ⟨track.step event, ?_⟩) (fun _ _ => trivial)
    ⟨.idle rfl, start⟩).2
  cases Machine.step_moves track event with
  | quiet store finished => rwa [store, finished]
  | publishes request locals whole finished =>
    rw [finished]
    exact publishes _ _ _ _ _ holds whole
  | ends request outcome unpublished store finished =>
    rw [store, finished]
    exact ends _ _ _ _ holds unpublished

def Continues (event : Event E R) : Prop := ∀ request, event ≠ .start request

inductive Standing (p : Protocol S L E R) (request : R) (s : S) (m : Machine S L E R) : Prop where
  | underWay (w : Writer S L E R) (writer : m.writer = some w) (same : w.request = request)
      (store : m.store = s) (finished : m.finished = [])
  | failed (outcome : Outcome L E) (writer : m.writer = none) (unpublished : outcome.locals = none)
      (store : m.store = s) (finished : m.finished = [(request, outcome)])
  | succeeded (locals : L) (writer : m.writer = none) (whole : p.whole request s = .ok (m.store, locals))
      (finished : m.finished = [(request, .committed locals)])

theorem Standing.started (p : Protocol S L E R) (request : R) (s : S) :
    Standing p request s ((initial s).step p (.start request)) := by
  cases admitted : p.admits request with
  | error e =>
    simp only [Machine.step, initial, admitted]
    exact .failed (.refused e) rfl rfl rfl rfl
  | ok l =>
    simp only [Machine.step, initial, admitted]
    exact .underWay _ rfl rfl rfl rfl

theorem Standing.step {p : Protocol S L E R} {request : R} {s : S} {m : Machine S L E R}
    (stands : Standing p request s m) (track : m.OnTrack p) (event : Event E R)
    (continues : Continues event) : Standing p request s (m.step p event) := by
  cases stands with
  | underWay w writer same store finished =>
    cases event with
    | start other => exact absurd rfl (continues other)
    | advance =>
      have whole := track w writer
      cases rest : w.rest with
      | nil =>
        rw [rest, script, same, store] at whole
        simp only [Machine.step, writer, rest]
        exact .succeeded w.locals rfl whole.symm (by rw [finished, same]; rfl)
      | cons statement rest' =>
        cases done : statement w.working w.locals with
        | error e =>
          simp only [Machine.step, writer, rest, done]
          exact .failed (.refused e) rfl rfl store (by rw [Machine.rollBack, finished, same]; rfl)
        | ok next =>
          simp only [Machine.step, writer, rest, done]
          exact .underWay _ rfl same store finished
    | fault e =>
      simp only [Machine.step, writer]
      exact .failed (.refused e) rfl rfl store (by rw [Machine.rollBack, finished, same]; rfl)
    | abandon =>
      simp only [Machine.step, writer]
      exact .failed .abandoned rfl rfl store (by rw [Machine.rollBack, finished, same]; rfl)
  | failed outcome writer unpublished store finished =>
    have idle : m.step p event = m := by
      cases event with
      | start other => exact absurd rfl (continues other)
      | advance | fault e | abandon => simp only [Machine.step, writer]
    rw [idle]
    exact .failed outcome writer unpublished store finished
  | succeeded locals writer whole finished =>
    have idle : m.step p event = m := by
      cases event with
      | start other => exact absurd rfl (continues other)
      | advance | fault e | abandon => simp only [Machine.step, writer]
    rw [idle]
    exact .succeeded locals writer whole finished

theorem call_standing (p : Protocol S L E R) (request : R) (s : S) {events : List (Event E R)}
    (continues : ∀ event ∈ events, Continues event) :
    Standing p request s (run (Machine.step p) events ((initial s).step p (.start request))) :=
  (run_invariant _ Continues (fun m : Machine S L E R => m.OnTrack p ∧ Standing p request s m)
    (fun _ event continues holds =>
      ⟨holds.1.step event, holds.2.step holds.1 event continues⟩)
    continues ⟨(Machine.OnTrack.idle rfl).step _, .started p request s⟩).2

theorem run_script (p : Protocol S L E R) (s : S) (finished : List (R × Outcome L E))
    {w : Writer S L E R} {s' : S} {l : L} (done : script w.rest w.working w.locals = .ok (s', l)) :
    run (Machine.step p) (List.replicate (w.rest.length + 1) .advance) ⟨s, some w, finished⟩ =
      ⟨s', none, finished ++ [(w.request, .committed l)]⟩ := by
  obtain ⟨request, working, locals, rest⟩ := w
  induction rest generalizing working locals with
  | nil =>
    obtain ⟨rfl, rfl⟩ := Prod.mk.inj (Except.ok.inj done)
    rfl
  | cons statement rest ih =>
    simp only [script] at done
    cases first : statement working locals with
    | error e => simp only [first] at done; cases done
    | ok next =>
      simp only [first] at done
      rw [List.length_cons, List.replicate_succ, run_cons]
      simp only [Machine.step, first]
      exact ih next.1 next.2 done

theorem call_completes (p : Protocol S L E R) {request : R} {s s' : S} {l : L}
    (done : p.whole request s = .ok (s', l)) :
    ∃ events : List (Event E R), (∀ event ∈ events, Continues event) ∧
      let m := run (Machine.step p) events ((initial s).step p (.start request))
      m.store = s' ∧ m.finished = [(request, .committed l)] := by
  cases admitted : p.admits request with
  | error e => simp [Protocol.whole, admitted] at done
  | ok first =>
    simp only [Protocol.whole, admitted] at done
    refine ⟨List.replicate ((p.body request).length + 1) .advance, ?_, ?_⟩
    · intro event listed request
      rw [List.eq_of_mem_replicate listed]
      exact fun same => nomatch same
    · simp only [Machine.step, initial, admitted]
      rw [run_script p s [] (w := ⟨request, s, first, p.body request⟩) done]
      exact ⟨rfl, rfl⟩

end
end Library.Transaction
