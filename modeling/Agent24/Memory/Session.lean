import Agent24.Agent.SessionMemory

/-! The rolling session: recent messages kept as they are, older ones folded into a summary. -/

set_option autoImplicit false
namespace Agent24.Memory
open Agent24.Agent (Msg CompactionPolicy normalizedPolicy capSummary)

/-- `session::CanonicalSession`, with the count an import does not read. -/
structure RollingSession extends CanonicalSession where
  compactedCount : Nat

/-- `Summarizer::summarize`, of the prior summary and the older messages. -/
abbrev Summarizer := Option String → List Msg → Except String String

namespace RollingSession

def new (sessionId : String) : RollingSession := ⟨⟨sessionId, none, []⟩, 0⟩

/-- Where the kept tail starts: an answer to a tool call is folded with the call. -/
def foldPoint (keepRecent : Nat) (recent : List Msg) : Nat :=
  let overflow := recent.length - keepRecent
  overflow + ((recent.drop overflow).takeWhile fun msg => msg.role == "tool").length

/-- `CanonicalSession::append`. -/
def append (msg : Msg) (policy : CompactionPolicy) (summarizer : Summarizer) (session : RollingSession) :
    Except String Unit × RollingSession :=
  let recent := session.recent ++ [msg]
  let pushed := { session with recent := recent }
  let policy := normalizedPolicy policy
  if recent.length ≤ policy.maxRecent then (.ok (), pushed)
  else
    let overflow := foldPoint policy.keepRecent recent
    match summarizer session.summary (recent.take overflow) with
    | .error error => (.error error, pushed)
    | .ok newSummary => (.ok (),
        { pushed with
          recent := recent.drop overflow
          summary := some (capSummary newSummary policy.maxSummaryChars)
          compactedCount := session.compactedCount + overflow })

structure Call where
  msg : Msg
  policy : CompactionPolicy
  summarizer : Summarizer

def Call.apply (session : RollingSession) (call : Call) : RollingSession :=
  (session.append call.msg call.policy call.summarizer).2

def run (session : RollingSession) (calls : List Call) : RollingSession := calls.foldl Call.apply session

variable {session session' : RollingSession} {msg : Msg} {policy : CompactionPolicy} {summarizer : Summarizer}

/-- What one call does: it keeps everything, folds, or fails to summarize. -/
inductive Appends (msg : Msg) (policy : CompactionPolicy) (summarizer : Summarizer) (session : RollingSession) :
    Except String Unit → RollingSession → Prop where
  | kept (fits : session.recent.length < max policy.maxRecent 1) :
      Appends msg policy summarizer session (.ok ()) { session with recent := session.recent ++ [msg] }
  | folded (count : Nat) (tail : List Msg) (summary : String)
      (counted : count + tail.length = session.recent.length + 1)
      (short : tail.length < max policy.maxRecent 1) (headed : ∀ first ∈ tail.head?, first.role ≠ "tool") :
      Appends msg policy summarizer session (.ok ())
        { session with recent := tail, summary := some summary, compactedCount := session.compactedCount + count }
  | failed (error : String) : Appends msg policy summarizer session (.error error)
      { session with recent := session.recent ++ [msg] }

theorem drop_takeWhile {α : Type} (p : α → Bool) (l : List α) :
    l.drop (l.takeWhile p).length = l.dropWhile p := by
  conv_lhs => enter [2]; rw [← List.takeWhile_append_dropWhile (p := p) (l := l)]
  exact List.drop_left

theorem foldPoint_le (keepRecent : Nat) (recent : List Msg) :
    recent.length - keepRecent ≤ foldPoint keepRecent recent ∧ foldPoint keepRecent recent ≤ recent.length := by
  have tools := List.Sublist.length_le (List.takeWhile_sublist (fun msg : Msg => msg.role == "tool")
    (l := recent.drop (recent.length - keepRecent)))
  rw [List.length_drop] at tools
  dsimp only [foldPoint]
  omega

theorem foldPoint_headed (keepRecent : Nat) (recent : List Msg) :
    ∀ first ∈ (recent.drop (foldPoint keepRecent recent)).head?, first.role ≠ "tool" := by
  intro first found tool
  dsimp only [foldPoint] at found
  rw [← List.drop_drop] at found
  generalize recent.drop (recent.length - keepRecent) = kept at found
  have stopped := List.head?_dropWhile_not (fun msg : Msg => msg.role == "tool") kept
  rw [← drop_takeWhile, Option.mem_def.mp found] at stopped
  simp [tool] at stopped

theorem append_cases {result : Except String Unit}
    (done : session.append msg policy summarizer = (result, session')) :
    Appends msg policy summarizer session result session' := by
  have long : (session.recent ++ [msg]).length = session.recent.length + 1 := by simp
  unfold append at done
  simp only [normalizedPolicy, long] at done
  split at done
  · cases done
    exact .kept (by omega)
  next exceeds =>
  split at done
  · cases done
    exact .failed _
  · cases done
    have within := foldPoint_le (min policy.keepRecent (max policy.maxRecent 1 - 1)) (session.recent ++ [msg])
    rw [long] at within
    have left := List.length_drop
      (i := foldPoint (min policy.keepRecent (max policy.maxRecent 1 - 1)) (session.recent ++ [msg]))
      (l := session.recent ++ [msg])
    exact .folded _ _ _ (by omega) (by omega) (foldPoint_headed _ _)

theorem append_counts (session : RollingSession) (call : Call) :
    (call.apply session).compactedCount + (call.apply session).recent.length =
      session.compactedCount + session.recent.length + 1 := by
  unfold Call.apply
  rcases done : session.append call.msg call.policy call.summarizer with ⟨result, after⟩
  cases append_cases done with
  | kept fits => simp [Nat.add_assoc]
  | folded count tail summary counted => simp only; omega
  | failed error => simp [Nat.add_assoc]

theorem run_counts (session : RollingSession) (calls : List Call) :
    (session.run calls).compactedCount + (session.run calls).recent.length =
      session.compactedCount + session.recent.length + calls.length := by
  induction calls generalizing session with
  | nil => rfl
  | cons call rest ih =>
    rw [show session.run (call :: rest) = (call.apply session).run rest from rfl, ih, append_counts,
      List.length_cons]
    omega

/-- Over every sequence of calls no message is lost or counted twice, and a failed summary leaves the old state with
the message added. -/
theorem rolling_window (sessionId : String) (calls : List Call) (call : Call) :
    let before := (new sessionId).run calls
    let outcome := before.append call.msg call.policy call.summarizer
    before.compactedCount + before.recent.length = calls.length ∧
    (outcome.1 = .ok () → outcome.2.recent.length ≤ max call.policy.maxRecent 1) ∧
    (outcome.2.compactedCount ≠ before.compactedCount → ∀ first ∈ outcome.2.recent.head?, first.role ≠ "tool") ∧
    (outcome.1 ≠ .ok () → outcome.2 = { before with recent := before.recent ++ [call.msg] }) := by
  intro before outcome
  refine ⟨(run_counts (new sessionId) calls).trans (Nat.zero_add _), ?_⟩
  rcases done : outcome with ⟨result, after⟩
  cases append_cases done with
  | kept fits =>
    refine ⟨fun _ => ?_, fun same => absurd rfl same, fun failed => absurd rfl failed⟩
    rw [List.length_append]
    exact fits
  | folded count tail summary counted short headed =>
    exact ⟨fun _ => short.le, fun _ => headed, fun failed => absurd rfl failed⟩
  | failed error => simp

/-- A bound of zero is read as one. -/
theorem zero_bound_keeps_one :
    let outcome := (new "s").append (.user "hi") ⟨0, 0, 0⟩ fun _ _ => .ok ""
    outcome.1 = .ok () ∧ 0 < outcome.2.recent.length := by
  decide

/-- The older messages a call gives its summarizer, where that makes a summary of them. -/
def Call.batch (session : RollingSession) (call : Call) : List Msg :=
  let recent := session.recent ++ [call.msg]
  let policy := normalizedPolicy call.policy
  let older := recent.take (foldPoint policy.keepRecent recent)
  if recent.length ≤ policy.maxRecent then []
  else match call.summarizer session.summary older with
    | .error _ => []
    | .ok _ => older

def summarized (session : RollingSession) : List Call → List Msg
  | [] => []
  | call :: rest => call.batch session ++ summarized (call.apply session) rest

theorem batch_recent (session : RollingSession) (call : Call) :
    call.batch session ++ (call.apply session).recent = session.recent ++ [call.msg] ∧
      (call.apply session).compactedCount = session.compactedCount + (call.batch session).length := by
  have within := (foldPoint_le (normalizedPolicy call.policy).keepRecent (session.recent ++ [call.msg])).2
  unfold Call.batch Call.apply append
  dsimp only
  split
  · exact ⟨rfl, rfl⟩
  cases call.summarizer session.summary _ with
  | error error => exact ⟨rfl, rfl⟩
  | ok summary => exact ⟨List.take_append_drop .., by rw [List.length_take, Nat.min_eq_left within]⟩

/-- Every message is summarized once or still there, in the order of the calls. -/
theorem messages_conserved (sessionId : String) (calls : List Call) :
    summarized (new sessionId) calls ++ ((new sessionId).run calls).recent = calls.map Call.msg ∧
      ((new sessionId).run calls).compactedCount = (summarized (new sessionId) calls).length := by
  suffices from_ : ∀ session : RollingSession,
      summarized session calls ++ (session.run calls).recent = session.recent ++ calls.map Call.msg ∧
      (session.run calls).compactedCount = session.compactedCount + (summarized session calls).length by
    simpa [new] using from_ (new sessionId)
  induction calls with
  | nil => exact fun session => ⟨by simp [summarized, run], rfl⟩
  | cons call rest ih =>
    intro session
    obtain ⟨whole, counted⟩ := batch_recent session call
    obtain ⟨later, counted'⟩ := ih (call.apply session)
    rw [summarized, List.append_assoc, List.map_cons, List.length_append, ← Nat.add_assoc, ← counted]
    refine ⟨?_, counted'⟩
    rw [show session.run (call :: rest) = (call.apply session).run rest from rfl, later, ← List.append_assoc, whole,
      List.append_assoc, List.singleton_append]

end RollingSession
end Agent24.Memory
