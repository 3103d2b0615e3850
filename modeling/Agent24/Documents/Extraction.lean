import Agent24.Documents.Answer
import Agent24.Documents.Window

/-! One extraction, call by call: every window with every batch of fields, split where the model fails. -/

set_option autoImplicit false
namespace Agent24.Documents
open Library

def MAX_TOKENS : Nat := 4096

def MAX_MODEL_ID : Nat := 256

/-- How a busy kernel is waited out, and how long to wait after no local model answered. -/
structure Pace where
  first : Nat
  longest : Nat
  maxWait : Nat
  noProvider : Nat
  noProviderMax : Nat
  first_pos : 0 < first
  longest_pos : 0 < longest
  noProvider_pos : 0 < noProvider

def PACE : Pace where
  first := 1000
  longest := 30000
  maxWait := 120000
  noProvider := 60000
  noProviderMax := 60000 * 3
  first_pos := by decide
  longest_pos := by decide
  noProvider_pos := by decide

inductive Failure where
  | engine (why : String)
  | unanswered (why : String)
  | interrupted
  | cancelled
  deriving DecidableEq

inductive Fell where
  | truncated
  | malformed
  | rejected
  deriving DecidableEq

inductive ServedTier where
  | local_
  | remote
  deriving DecidableEq

structure CompleteResult where
  text : String
  modelId : Option String
  tier : ServedTier
  completionTokens : Nat

/-- The client's errors, as far as a call tells them apart. -/
inductive ErrorKind where
  | busy
  | rateLimited
  | timeout
  | noProvider
  | requestRejected
  | cancelled
  | draining
  | notReady
  | connectionLost
  | other
  deriving DecidableEq

inductive Reply where
  | done (result : CompleteResult)
  | failed (kind : ErrorKind) (text : String)

structure CompleteRequest where
  fields : List Field
  window : Window
  pass : Pass

/-- The job and the model, as the extraction meets them: by how often each was asked before. -/
structure World where
  goOn : Nat → Bool
  complete : Nat → CompleteRequest → Reply

/-- The extraction under way: what the job and the model said so far, the newest first. -/
structure Run where
  modelId : Option String
  asked : List Bool
  heard : List (CompleteRequest × Reply)
  progress : List (Nat × Nat)

def Run.start : Run := ⟨none, [], [], []⟩

inductive Refused where
  /-- The model rejected the request: most likely too long for it. -/
  | tooLong
  | failed (failure : Failure)

structure Waits where
  waited : Nat
  pause : Nat
  retried : Bool
  noProvider : Nat
  pause_pos : 0 < pause

def Waits.start (pace : Pace) : Waits := ⟨0, pace.first, false, 0, pace.first_pos⟩

def Waits.left (pace : Pace) (waits : Waits) : Nat :=
  (pace.maxWait - waits.waited) + (if waits.retried then 0 else 1) + (pace.noProviderMax - waits.noProvider)

/-- What a call does about an error: what it goes on to wait for is less than before. -/
inductive Retry (pace : Pace) (waits : Waits) where
  | giveUp (refused : Refused)
  | pause (next : Waits) (less : next.left pace < waits.left pace)
  | again (next : Waits) (less : next.left pace < waits.left pace)
  | cooldown (wait : Nat) (next : Waits) (less : next.left pace < waits.left pace)

def engineError (text : String) : Refused := .failed (.engine ("the local model: " ++ text))

section
variable (pace : Pace)

/-- A busy kernel is waited out, a timeout is retried once, no local model is asked again later. -/
def retry (kind : ErrorKind) (text : String) (waits : Waits) : Retry pace waits :=
  match kind with
  | .busy | .rateLimited =>
    if room : waits.waited < pace.maxWait then
      -- Never past the budget: the last pause is what is left.
      let wait := min waits.pause (pace.maxWait - waits.waited)
      .pause
        { waits with
          waited := waits.waited + wait
          pause := min (waits.pause * 2) pace.longest
          pause_pos := by have := waits.pause_pos; have := pace.longest_pos; omega }
        (by have := waits.pause_pos; simp only [Waits.left]; omega)
    else .giveUp (engineError text)
  | .timeout =>
    if fresh : waits.retried = false then
      .again { waits with retried := true } (by simp [Waits.left, fresh])
    else .giveUp (engineError text)
  | .noProvider =>
    if room : waits.noProvider < pace.noProviderMax then
      let wait := min pace.noProvider (pace.noProviderMax - waits.noProvider)
      .cooldown wait { waits with noProvider := waits.noProvider + wait }
        (by have := pace.noProvider_pos; simp only [Waits.left]; omega)
    else .giveUp (engineError text)
  | .requestRejected => .giveUp .tooLong
  | .cancelled | .draining | .notReady | .connectionLost => .giveUp (.failed .interrupted)
  | .other => .giveUp (engineError text)

variable (world : World)

def goOn (run : Run) : Bool × Run :=
  let answer := world.goOn run.asked.length
  (answer, { run with asked := answer :: run.asked })

def complete (request : CompleteRequest) (run : Run) : Reply × Run :=
  let reply := world.complete run.heard.length request
  (reply, { run with heard := (request, reply) :: run.heard })

/-- Waits, asking every `first` whether the job goes on. -/
def wait (left : Nat) (run : Run) : Bool × Run :=
  if left = 0 then (true, run)
  else
    match goOn world run with
    | (false, run) => (false, run)
    | (true, run) => wait (left - min left pace.first) run
termination_by left
decreasing_by have := pace.first_pos; omega

def answered (done : CompleteResult) (run : Run) : Except Refused (String × Nat) × Run :=
  let engine := fun why => (.error (.failed (.engine why)), run)
  if done.tier ≠ .local_ then engine "a model that is not local answered"
  else
    match done.modelId with
    | none => engine "the model did not say which it is"
    | some id =>
      if id = "" then engine "the model did not say which it is"
      else if MAX_MODEL_ID < id.utf8ByteSize ∨ '\x00' ∈ id.toList then engine "the model's id cannot be kept"
      else if run.modelId.all (· = id) then
        (.ok (done.text, done.completionTokens), { run with modelId := some id })
      else engine "the local model changed during the extraction"

/-- One call, waiting out a busy kernel and retrying a timeout once. -/
def call (request : CompleteRequest) (waits : Waits) (run : Run) : Except Refused (String × Nat) × Run :=
  match goOn world run with
  | (false, run) => (.error (.failed .cancelled), run)
  | (true, run) =>
    match complete world request run with
    | (.done done, run) => answered done run
    | (.failed kind text, run) =>
      match retry pace kind text waits with
      | .giveUp refused => (.error refused, run)
      | .pause next _ =>
        match goOn world run with
        | (false, run) => (.error (.failed .cancelled), run)
        | (true, run) => call request next run
      | .again next _ => call request next run
      | .cooldown left next _ =>
        match wait pace world left run with
        | (false, run) => (.error (.failed .cancelled), run)
        | (true, run) => call request next run
termination_by waits.left pace
decreasing_by all_goals assumption

def ask (window : Window) (batch : List Field) (pass : Pass) (run : Run) : Except Refused (String × Nat) × Run :=
  call pace world ⟨batch, window, pass⟩ (.start pace) run

variable (P : Platform) (json : JsonReader)

/-- The answers in what a call wrote; all tokens used is cut off. -/
def read (batch : List Field) (pass : Pass) (text : String) (tokens : Nat) : Except Unanswered (List AnswerValue) :=
  if MAX_TOKENS ≤ tokens then .error .truncated
  else
    match unwrapped P json text pass with
    | .error why => .error why
    | .ok written =>
      if written = "" ∧ 0 < tokens then .error (.malformed "nothing written") else parse json batch written

abbrev Piece := Window × List AnswerValue

inductive First where
  | values (values : List AnswerValue)
  | fell (why : Fell)

def firstPass (window : Window) (batch : List Field) (fell : Option Fell) (run : Run) : Except Failure First × Run :=
  match fell with
  | some why => (.ok (.fell why), run)
  | none =>
    match ask pace world window batch .free run with
    | (.error (.failed failure), run) => (.error failure, run)
    | (.error .tooLong, run) => (.ok (.fell .rejected), run)
    | (.ok (text, tokens), run) =>
      match read P json batch .free text tokens with
      | .ok values => (.ok (.values values), run)
      | .error .truncated => (.ok (.fell .truncated), run)
      | .error (.malformed _) => (.ok (.fell .malformed), run)

inductive Second where
  | values (values : List AnswerValue)
  | tooLong
  | truncated

def secondPass (window : Window) (batch : List Field) (taken : Bool) (malformed : String) :
    Nat → Run → Except Failure Second × Run
  | 0, run => (.error (.unanswered malformed), run)
  | rounds + 1, run =>
    match ask pace world window batch .held run with
    | (.error (.failed failure), run) => (.error failure, run)
    | (.error .tooLong, run) =>
      -- A call for this batch here was taken: not too long.
      if taken then (.error (.engine "the local model rejected the second pass"), run) else (.ok .tooLong, run)
    | (.ok (text, tokens), run) =>
      match read P json batch .held text tokens with
      | .ok values => (.ok (.values values), run)
      | .error .truncated => (.ok .truncated, run)
      | .error (.malformed why) => secondPass window batch true why rounds run

def both (first second : Run → Except Failure (List Piece) × Run) (run : Run) : Except Failure (List Piece) × Run :=
  match first run with
  | (.error failure, run) => (.error failure, run)
  | (.ok out, run) =>
    match second run with
    | (.error failure, run) => (.error failure, run)
    | (.ok more, run) => (.ok (out ++ more), run)

def answer (window : Window) (batch : List Field) (fell : Option Fell) (taken : Bool) (run : Run) :
    Except Failure (List Piece) × Run :=
  match firstPass pace world P json window batch fell run with
  | (.error failure, run) => (.error failure, run)
  | (.ok (.values values), run) => (.ok [(window, values)], run)
  | (.ok (.fell fell), run) =>
    match secondPass pace world P json window batch (taken || fell != .rejected) "" 2 run with
    | (.error failure, run) => (.error failure, run)
    | (.ok (.values values), run) => (.ok [(window, values)], run)
    | (.ok .tooLong, run) =>
      match cut : halves window with
      | none => (.error (.engine "the local model rejects even one block"), run)
      | some (a, b) => both (answer a batch none false) (answer b batch none false) run
    | (.ok .truncated, run) =>
      if many : 1 < batch.length then
        -- Fewer fields may answer well where many were malformed; thinking too long, or rejected, would not.
        let next := if fell = .malformed then none else some fell
        both (answer window (batch.take (batch.length / 2)) next true)
          (answer window (batch.drop (batch.length / 2)) next true) run
      else (.error (.unanswered "cut off even for one field"), run)
termination_by (window.length, batch.length)
decreasing_by
  · have := halves_length cut
    exact Prod.Lex.left _ _ (by omega)
  · have := halves_length cut
    exact Prod.Lex.left _ _ (by omega)
  · exact Prod.Lex.right _ (by rw [List.length_take]; omega)
  · exact Prod.Lex.right _ (by rw [List.length_drop]; omega)

section
variable {Said Merged : Type} (said : Window → AnswerValue → Said) (merge : String → List Said → Except String Merged)

def note (fields : List Field) (saidOf : List (List Said)) (window : Window) (a : AnswerValue) : List (List Said) :=
  match fields.findIdx? fun f => f.key == a.key with
  | some i => saidOf.modify i (· ++ [said window a])
  | none => saidOf

def notePieces (fields : List Field) (saidOf : List (List Said)) (pieces : List Piece) : List (List Said) :=
  pieces.foldl (fun saidOf piece => piece.2.foldl (fun saidOf a => note said fields saidOf piece.1 a) saidOf) saidOf

def askEach (fields : List Field) (total : Nat) :
    List (Window × List Field) → Nat → List (List Said) → Run → Except Failure (List (List Said)) × Run
  | [], _, saidOf, run => (.ok saidOf, run)
  | (window, batch) :: rest, done, saidOf, run =>
    match answer pace world P json window batch none false run with
    | (.error failure, run) => (.error failure, run)
    | (.ok pieces, run) =>
      askEach fields total rest (done + 1) (notePieces said fields saidOf pieces)
        { run with progress := (done + 1, total) :: run.progress }

/-- A finished extraction: the model that made it, and each field's value. -/
structure Extracted (Merged : Type) where
  modelId : String
  values : List Merged

def mergeEach : List (Field × List Said) → Except Failure (List Merged)
  | [] => .ok []
  | (f, saids) :: rest =>
    match merge f.key saids with
    | .error why => .error (.unanswered why)
    | .ok value =>
      match mergeEach rest with
      | .error failure => .error failure
      | .ok values => .ok (value :: values)

def paced (windows : List Window) (fields : List Field) (run : Run) : Except Failure (Extracted Merged) × Run :=
  let batches := batches fields BATCH
  let each := windows.flatMap fun window => batches.map fun batch => (window, batch)
  match askEach pace world P json said fields each.length each 0 (fields.map fun _ => []) run with
  | (.error failure, run) => (.error failure, run)
  | (.ok saidOf, run) =>
    match run.modelId with
    | none => (.error (.engine "no field was asked"), run)
    | some modelId =>
      match mergeEach merge (fields.zip saidOf) with
      | .error failure => (.error failure, run)
      | .ok values => (.ok ⟨modelId, values⟩, run)

end
end

def extract {Said Merged : Type} (world : World) (P : Platform) (json : JsonReader)
    (said : Window → AnswerValue → Said) (merge : String → List Said → Except String Merged)
    (layer : List Block) (fields : List Field) : Except Failure (Extracted Merged) × Run :=
  paced PACE world P json said merge (windows layer BUDGET) fields .start

end Agent24.Documents
