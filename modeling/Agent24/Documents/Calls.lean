import Agent24.Documents.Extraction

/-! What one call of an extraction does to it: what is heard, whether it goes on, and which model answered. -/

set_option autoImplicit false
namespace Agent24.Documents

def ErrorKind.interrupts : ErrorKind → Bool
  | .cancelled | .draining | .notReady | .connectionLost => true
  | _ => false

def Reply.interrupts : Reply → Bool
  | .done _ => false
  | .failed kind _ => kind.interrupts

def Failure.stops : Failure → Bool
  | .interrupted | .cancelled => true
  | .engine _ | .unanswered _ => false

structure Unstopped (run : Run) : Prop where
  asked : ∀ answer ∈ run.asked, answer = true
  heard : ∀ entry ∈ run.heard, entry.2.interrupts = false

def Served (run : Run) : Prop :=
  ∀ entry ∈ run.heard, ∀ done, entry.2 = .done done →
    done.tier = .local_ ∧ ∃ id, done.modelId = some id ∧ run.modelId = some id

structure Steady (run : Run) : Prop where
  unstopped : Unstopped run
  served : Served run

theorem steady_start : Steady .start :=
  ⟨⟨fun _ member => absurd member List.not_mem_nil, fun _ member => absurd member List.not_mem_nil⟩,
    fun _ member => absurd member List.not_mem_nil⟩

structure Ends (calls : Nat) (failed : Option Failure) (run run' : Run) : Prop where
  few : run'.heard.length ≤ run.heard.length + calls
  grows : run.heard <:+ run'.heard
  steady : failed = none → Steady run → Steady run'
  stopped : ∀ failure, failed = some failure → failure.stops = false → Steady run → Unstopped run'

section
variable {calls more : Nat} {failed : Option Failure} {run mid run' : Run}

theorem Ends.refl (run : Run) : Ends 0 none run run where
  few := Nat.le_refl _
  grows := List.suffix_refl _
  steady := fun _ steady => steady
  stopped := fun _ none => (by cases none)

theorem Ends.trans (first : Ends calls none run mid) (second : Ends more failed mid run') :
    Ends (calls + more) failed run run' where
  few := by have := first.few; have := second.few; omega
  grows := first.grows.trans second.grows
  steady := fun done steady => second.steady done (first.steady rfl steady)
  stopped := fun failure fails free steady => second.stopped failure fails free (first.steady rfl steady)

theorem Ends.mono (ends : Ends calls failed run run') (fits : calls ≤ more) : Ends more failed run run' :=
  { ends with few := ends.few.trans (Nat.add_le_add_left fits _) }

theorem Ends.fail (ends : Ends calls none run run') (failure : Failure) : Ends calls (some failure) run run' :=
  { ends with
    steady := fun none => (by cases none)
    stopped := fun _ _ _ steady => (ends.steady rfl steady).unstopped }

variable {world : World} {pace : Pace}

theorem ends_goOn (asked : goOn world run = (true, run')) : Ends 0 none run run' := by
  obtain ⟨yes, rfl⟩ := Prod.mk.inj asked
  refine ⟨Nat.le_refl _, List.suffix_refl _, fun _ steady => ⟨⟨?_, steady.unstopped.heard⟩, steady.served⟩,
    fun _ none => (by cases none)⟩
  intro answer member
  rcases List.mem_cons.mp member with rfl | earlier
  · exact yes
  · exact steady.unstopped.asked answer earlier

theorem ends_refused (asked : goOn world run = (false, run')) : Ends 0 (some .cancelled) run run' := by
  obtain ⟨-, rfl⟩ := Prod.mk.inj asked
  refine ⟨Nat.le_refl _, List.suffix_refl _, fun none => (by cases none), fun failure same free => ?_⟩
  cases same
  cases free

theorem ends_wait {left : Nat} {on : Bool} (waited : wait pace world left run = (on, run')) :
    Ends 0 (if on then none else some .cancelled) run run' := by
  induction left, run using wait.induct pace world with
  | case1 run =>
    rw [wait, if_pos rfl] at waited
    cases waited
    exact .refl _
  | case2 left run some_ next asked =>
    rw [wait, if_neg some_, asked] at waited
    cases waited
    exact ends_refused asked
  | case3 left run some_ next asked ih =>
    rw [wait, if_neg some_, asked] at waited
    exact (ends_goOn asked).trans (ih waited)

variable {request : CompleteRequest} {out : Except Refused (String × Nat)}

theorem complete_heard {reply : Reply} (completed : complete world request run = (reply, run')) :
    run' = { run with heard := (request, reply) :: run.heard } := by
  obtain ⟨rfl, rfl⟩ := Prod.mk.inj completed
  rfl

theorem unstopped_heard {reply : Reply} (unstopped : Unstopped run) (quiet : reply.interrupts = false) :
    Unstopped { run with heard := (request, reply) :: run.heard } := by
  refine ⟨unstopped.asked, fun entry member => ?_⟩
  rcases List.mem_cons.mp member with rfl | earlier
  · exact quiet
  · exact unstopped.heard entry earlier

theorem ends_complete {kind : ErrorKind} {text : String}
    (completed : complete world request run = (.failed kind text, run')) (quiet : kind.interrupts = false) :
    Ends 1 none run run' := by
  rw [complete_heard completed]
  refine ⟨Nat.le_refl _, List.suffix_cons .., fun _ steady => ⟨unstopped_heard steady.unstopped quiet, ?_⟩,
    fun _ none => (by cases none)⟩
  intro entry member done same
  rcases List.mem_cons.mp member with rfl | earlier
  · cases same
  · exact steady.served entry earlier done same

theorem ends_stopped {reply : Reply} {failure : Failure}
    (completed : complete world request run = (reply, run')) (stops : failure.stops = true) :
    Ends 1 (some failure) run run' := by
  rw [complete_heard completed]
  refine ⟨Nat.le_refl _, List.suffix_cons .., fun none => (by cases none), fun other same free => ?_⟩
  cases same
  rw [stops] at free
  cases free

theorem retry_cases (pace : Pace) (kind : ErrorKind) (text : String) (waits : Waits) :
    (retry pace kind text waits = .giveUp (.failed .interrupted)) ∨
      kind.interrupts = false := by
  cases kind with
  | cancelled | draining | notReady | connectionLost => exact .inl rfl
  | busy | rateLimited | timeout | noProvider | requestRejected | other => exact .inr rfl

/-- The failure of a call, if it is one that ends the extraction. -/
def failureOf {α : Type} : Except Refused α → Option Failure
  | .error (.failed failure) => some failure
  | _ => none

theorem ends_giveUp {kind : ErrorKind} {text : String} {waits : Waits} {refused : Refused}
    (completed : complete world request run = (.failed kind text, run'))
    (verdict : retry pace kind text waits = .giveUp refused) :
    Ends 1 (failureOf (.error refused : Except Refused (String × Nat))) run run' := by
  rcases retry_cases pace kind text waits with stops | quiet
  · rw [stops] at verdict
    cases verdict
    exact ends_stopped completed rfl
  · cases refused with
    | tooLong => exact ends_complete completed quiet
    | failed failure => exact (ends_complete completed quiet).fail failure

theorem ends_retried {kind : ErrorKind} {text : String} {waits : Waits} {next : Retry pace waits}
    (completed : complete world request run = (.failed kind text, run'))
    (verdict : retry pace kind text waits = next) (on : next ≠ .giveUp (.failed .interrupted)) :
    Ends 1 none run run' := by
  rcases retry_cases pace kind text waits with stops | quiet
  · exact absurd (verdict.symm.trans stops) on
  · exact ends_complete completed quiet

structure Heard (request : CompleteRequest) (text : String) (tokens : Nat) (run : Run) : Prop where
  done : ∃ done, (request, .done done) ∈ run.heard ∧ done.text = text ∧ done.completionTokens = tokens

theorem answered_cases {done : CompleteResult} (answer : answered done run = (out, run')) :
    (∃ why, out = .error (.failed (.engine why)) ∧ run' = run) ∨
      ∃ id, out = .ok (done.text, done.completionTokens) ∧ run' = { run with modelId := some id } ∧
        done.tier = .local_ ∧ done.modelId = some id ∧ ∀ known, run.modelId = some known → known = id := by
  unfold answered at answer
  split at answer
  · cases answer
    exact .inl ⟨_, rfl, rfl⟩
  rename_i near
  split at answer
  · cases answer
    exact .inl ⟨_, rfl, rfl⟩
  rename_i id says_
  split at answer
  · cases answer
    exact .inl ⟨_, rfl, rfl⟩
  split at answer
  · cases answer
    exact .inl ⟨_, rfl, rfl⟩
  split at answer
  · rename_i known
    cases answer
    refine .inr ⟨id, rfl, rfl, not_not.mp near, says_, fun other same => ?_⟩
    simpa [same] using known
  · cases answer
    exact .inl ⟨_, rfl, rfl⟩

theorem ends_answered {done : CompleteResult} (completed : complete world request run = (.done done, mid))
    (answer : answered done mid = (out, run')) :
    Ends 1 (failureOf out) run run' ∧ ∀ text tokens, out = .ok (text, tokens) → Heard request text tokens run' := by
  have heard := complete_heard completed
  rcases answered_cases answer with ⟨why, rfl, rfl⟩ | ⟨id, rfl, rfl, near, mine, one⟩
  · rw [heard]
    refine ⟨⟨Nat.le_refl _, List.suffix_cons .., fun none => (by cases none), fun _ _ _ steady => ?_⟩,
      fun _ _ same => (by cases same)⟩
    exact unstopped_heard steady.unstopped rfl
  · subst heard
    refine ⟨⟨Nat.le_refl _, List.suffix_cons .., fun _ steady => ⟨?_, ?_⟩, fun _ none => (by cases none)⟩, ?_⟩
    · have named : Unstopped { run with modelId := some id } := ⟨steady.unstopped.asked, steady.unstopped.heard⟩
      exact unstopped_heard named rfl
    · intro entry member other same
      rcases List.mem_cons.mp member with rfl | earlier
      · cases same
        exact ⟨near, id, mine, rfl⟩
      · obtain ⟨far, known, theirs, before⟩ := steady.served entry earlier other same
        exact ⟨far, id, by rw [theirs, one known before], rfl⟩
    · intro text tokens same
      cases same
      exact ⟨done, List.mem_cons_self .., rfl, rfl⟩

theorem call_ends {waits : Waits} (called : call pace world request waits run = (out, run')) :
    Ends (waits.left pace + 1) (failureOf out) run run' ∧
      ∀ text tokens, out = .ok (text, tokens) → Heard request text tokens run' := by
  induction waits, run using call.induct pace world request with
  | case1 waits run next asked =>
    rw [call, asked] at called
    cases called
    exact ⟨(ends_refused asked).mono (Nat.zero_le _), fun _ _ same => (by cases same)⟩
  | case2 waits run next asked done after completed =>
    rw [call, asked] at called
    dsimp only at called
    rw [completed] at called
    obtain ⟨ends, heard⟩ := ends_answered completed called
    exact ⟨((ends_goOn asked).trans ends).mono (by omega), heard⟩
  | case3 waits run next asked kind text after completed refused verdict =>
    unfold call at called
    simp only [asked, completed, verdict] at called
    cases called
    exact ⟨((ends_goOn asked).trans (ends_giveUp completed verdict)).mono (by omega), fun _ _ same => (by cases same)⟩
  | case4 waits run next asked kind text after completed later fewer verdict last stopped =>
    unfold call at called
    simp only [asked, completed, verdict, stopped] at called
    cases called
    have heard := (ends_goOn asked).trans (ends_retried completed verdict fun same => (by cases same))
    exact ⟨(heard.trans (ends_refused stopped)).mono (by omega), fun _ _ same => (by cases same)⟩
  | case5 waits run next asked kind text after completed later fewer verdict last on ih =>
    unfold call at called
    simp only [asked, completed, verdict, on] at called
    obtain ⟨rest, told⟩ := ih called
    have heard := (ends_goOn asked).trans (ends_retried completed verdict fun same => (by cases same))
    exact ⟨((heard.trans (ends_goOn on)).trans rest).mono (by omega), told⟩
  | case6 waits run next asked kind text after completed later fewer verdict ih =>
    unfold call at called
    simp only [asked, completed, verdict] at called
    obtain ⟨rest, told⟩ := ih called
    have heard := (ends_goOn asked).trans (ends_retried completed verdict fun same => (by cases same))
    exact ⟨(heard.trans rest).mono (by omega), told⟩
  | case7 waits run next asked kind text after completed left later fewer verdict last stopped =>
    unfold call at called
    simp only [asked, completed, verdict, stopped] at called
    cases called
    have heard := (ends_goOn asked).trans (ends_retried completed verdict fun same => (by cases same))
    exact ⟨(heard.trans (ends_wait stopped)).mono (by omega), fun _ _ same => (by cases same)⟩
  | case8 waits run next asked kind text after completed left later fewer verdict last on ih =>
    unfold call at called
    simp only [asked, completed, verdict, on] at called
    obtain ⟨rest, told⟩ := ih called
    have heard := (ends_goOn asked).trans (ends_retried completed verdict fun same => (by cases same))
    exact ⟨((heard.trans (ends_wait on)).trans rest).mono (by omega), told⟩

end
end Agent24.Documents
