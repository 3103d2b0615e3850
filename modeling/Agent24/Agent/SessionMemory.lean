import Agent24.Library.Runs
import Agent24.Memory.SessionLog

/-! Session memory: one lock for each session, its turns, and their compaction into a running summary. -/

set_option autoImplicit false
namespace Agent24.Agent
open Library Agent24.Memory

structure CompactionPolicy where
  maxRecent : Nat
  keepRecent : Nat
  maxSummaryChars : Nat

def normalizedPolicy (policy : CompactionPolicy) : CompactionPolicy :=
  let maxRecent := max policy.maxRecent 1
  ⟨maxRecent, min policy.keepRecent (maxRecent - 1), max policy.maxSummaryChars 1⟩

def capSummary (summary : String) (limit : Nat) : String :=
  if summary.length ≤ limit then summary else Text.take (limit - 1) summary ++ "…"

def foldCount (policy : CompactionPolicy) (tail : List (Int × Msg)) : Option Nat :=
  let policy := normalizedPolicy policy
  if tail.length ≤ policy.maxRecent then none
  else
    let start := tail.length - policy.keepRecent
    -- an answer to a tool call goes with the call
    let fold := start + ((tail.drop start).takeWhile fun item => item.2.role == "tool").length
    if fold = 0 then none else some fold

theorem foldCount_split {policy : CompactionPolicy} {tail : List (Int × Msg)} {count : Nat}
    (folds : foldCount policy tail = some count) :
    ∃ front last back, tail = front ++ last :: back ∧ count = front.length + 1 ∧
      ∀ item ∈ back.head?, item.2.role ≠ "tool" := by
  simp only [foldCount] at folds
  split at folds
  · cases folds
  split at folds
  · cases folds
  rename_i positive
  obtain rfl := Option.some.inj folds
  generalize starts : tail.length - (normalizedPolicy policy).keepRecent = start at positive ⊢
  let answers := fun item : Int × Msg => item.2.role == "tool"
  let tools := (tail.drop start).takeWhile answers
  let back := (tail.drop start).dropWhile answers
  have within : start ≤ tail.length := by omega
  have split : tail = tail.take start ++ tools ++ back := by
    rw [List.append_assoc, List.takeWhile_append_dropWhile, List.take_append_drop]
  have count : (tail.take start ++ tools).length = start + tools.length := by
    rw [List.length_append, List.length_take, Nat.min_eq_left within]
  have some_front : tail.take start ++ tools ≠ [] := by
    intro empty
    rw [empty] at count
    exact positive count.symm
  refine ⟨(tail.take start ++ tools).dropLast, (tail.take start ++ tools).getLast some_front, back, ?_, ?_, ?_⟩
  · rw [List.append_cons, List.dropLast_append_getLast]
    exact split
  · show start + tools.length = _
    have nonempty := List.length_pos_of_ne_nil some_front
    rw [List.length_dropLast, ← count]
    omega
  · intro item first tool
    have stopped := List.head?_dropWhile_not answers (tail.drop start)
    rw [Option.mem_def.mp first] at stopped
    simp [answers, tool] at stopped

inductive Commit where
  | confirmed
  | failed
  /-- The caller is gone while the commit is under way; a turn's caller only goes with the process. -/
  | unconfirmed
  deriving DecidableEq, Repr

inductive Phase where
  | free
  | locked
  | imported
  | counted (turnNo : Nat)
  | recorded
  | viewed (view : SessionView)
  | summarized (view : SessionView) (count : Nat) (summary : String)

namespace Phase

/-- The turn is appended, and the lock has not been given back since. -/
def afterTurn : Phase → Bool
  | .recorded | .viewed _ | .summarized .. => true
  | _ => false

def view? : Phase → Option SessionView
  | .viewed view | .summarized view .. => some view
  | _ => none

theorem early_blind {phase : Phase} (early : phase.afterTurn = false) : phase.view? = none := by
  cases phase with
  | viewed view | summarized view count summary => cases early
  | free | locked | imported | counted turnNo | recorded => rfl

end Phase

/-- One session: the log, a commit under way without its caller, the lock, and the batches that stored
summaries were made of. -/
structure SessionState where
  log : EventTables
  orphan : Option (EventTables × List (List (Int × Msg)))
  phase : Phase
  batches : List (List (Int × Msg))

inductive SessionStep where
  | lock
  | prepare (disk : Option DiskSample) (clock : Nat → String) (legacy : Option CanonicalSession)
      (commit : Commit)
  | count
  | append (disk : Option DiskSample) (clock : Nat → String) (prompt answer : String)
      (promptOrigin : Origin) (commit : Commit)
  | view
  | summarize (policy : CompactionPolicy) (answer : Except String String)
  | store (disk : Option DiskSample) (now : String) (commit : Commit)
  /-- The call returns, fails, runs out of time or is dropped. -/
  | release
  /-- The commit without a caller goes through, or is rolled back. -/
  | settle (committed : Bool)
  | restart (committed : Bool)
  | other (e : MemEvent)

section
variable (P : Platform) (owner sid : String)

/-- `SessionMemory::ensure_imported`, after the legacy blob is read. -/
def ensureImported (disk : Option DiskSample) (clock : Nat → String) (legacy : Option CanonicalSession)
    (log : EventTables) : Except SessionError EventTables :=
  if log.events.any (inSession owner sid) then .ok log
  else
    match legacy with
    | none => .ok log
    | some legacy =>
      if legacy.sessionId ≠ sid then
        .error (.importIncomplete (.io ("legacy session id " ++ legacy.sessionId ++
          " does not match requested session " ++ sid)))
      else
        match importLegacy P disk clock owner legacy log with
        | .ok (_, log') => .ok log'
        | .error error => .error (.importIncomplete (.memory error))

/-- `SessionMemory::count_user_messages`, its pages read one after another under the lock. -/
def countUserMessages (log : EventTables) : Except SessionError Nat :=
  ((log.events.filter (inSession owner sid)).insertionSort fun a b => a.seq ≤ b.seq).foldlM
    (fun count row =>
      match row.payload.value P with
      | none => .error .serde
      | some body =>
        if row.kind = "message" then
          match Msg.ofJson body with
          | none => .error .serde
          | some message => .ok (if message.role = "user" then count + 1 else count)
        else .ok count) 0

def isOwn (e : MemEvent) : Bool :=
  e.scope.owner == owner && e.scope.session == some sid && (e.kind == "message" || e.kind == "session.summary")

namespace SessionState

/-- A write of the lock's holder. It waits for a commit that is still under way. -/
def write (s : SessionState) (next : Phase) (batches : List (List (Int × Msg))) (commit : Commit)
    (result : Except SessionError EventTables) : SessionState :=
  match s.orphan, result, commit with
  | some _, _, _ => s
  | none, .error _, _ | none, .ok _, .failed => { s with phase := .free }
  | none, .ok log, .confirmed => { s with log := log, batches := batches, phase := next }
  | none, .ok log, .unconfirmed => { s with orphan := some (log, batches), phase := .free }

def settle (s : SessionState) (committed : Bool) : SessionState :=
  match s.orphan with
  | none => s
  | some (log, batches) =>
    if committed then { s with log := log, batches := batches, orphan := none } else { s with orphan := none }

def step (s : SessionState) (event : SessionStep) : SessionState :=
  match event, s.phase with
  | .lock, .free => { s with phase := .locked }
  | .prepare disk clock legacy commit, .locked =>
    -- nothing to write: the session has begun, or there is nothing to import
    if s.log.events.any (inSession owner sid) || legacy.isNone then { s with phase := .imported }
    else s.write .imported s.batches commit (ensureImported P owner sid disk clock legacy s.log)
  | .count, .imported =>
    match countUserMessages P owner sid s.log with
    | .ok turnNo => { s with phase := .counted turnNo }
    | .error _ => { s with phase := .free }
  | .append disk clock prompt answer promptOrigin commit, .counted turnNo =>
    s.write .recorded s.batches commit ((appendTurn P disk clock owner sid turnNo (.user prompt) promptOrigin
      (.assistant (some answer) []) ⟨"agent_loop", .model⟩ s.log).map Prod.snd)
  | .view, .recorded =>
    match loadView P owner sid s.log with
    | .ok view => { s with phase := .viewed view }
    | .error _ => { s with phase := .free }
  | .summarize policy answer, .viewed view =>
    match foldCount policy view.tail, answer with
    | none, _ | some _, .error _ => { s with phase := .free }
    | some count, .ok summary =>
      { s with phase := .summarized view count (capSummary summary (normalizedPolicy policy).maxSummaryChars) }
  | .store disk now commit, .summarized view count summary =>
    match view.tail[count - 1]? with
    | none => { s with phase := .free }
    | some last =>
      s.write .free (s.batches ++ [view.tail.take count]) commit
        (match appendSummary P disk now owner sid summary last.1 s.log with
        | .ok (_, log) => .ok log
        | .error error => .error (.memory error))
  | .release, _ => { s with phase := .free }
  | .settle committed, _ => s.settle committed
  | .restart committed, _ => { s.settle committed with phase := .free }
  | .other e, _ =>
    if isOwn owner sid e || s.orphan.isSome then s
    else
      match appendTx P e s.log with
      | .ok log => { s with log := log }
      | .error _ => s
  | _, _ => s

end SessionState

structure Sound (s : SessionState) : Prop where
  recorded : Recorded P owner sid s.log s.batches
  orphan : ∀ log batches, s.orphan = some (log, batches) →
    Recorded P owner sid log batches ∧ Extends P owner sid s.log log
  alone : s.phase.afterTurn = true → s.orphan = none
  current : ∀ view, s.phase.view? = some view → loadView P owner sid s.log = .ok view
  foldable : ∀ view count summary, s.phase = .summarized view count summary →
    ∃ front last back, view.tail = front ++ last :: back ∧ count = front.length + 1 ∧
      ∀ item ∈ back.head?, item.2.role ≠ "tool"

variable {P owner sid}

namespace Sound
variable {s : SessionState}

theorem enter (sound : Sound P owner sid s) {phase : Phase} (blind : phase.view? = none)
    (alone : phase.afterTurn = true → s.orphan = none) : Sound P owner sid { s with phase := phase } where
  recorded := sound.recorded
  orphan := sound.orphan
  alone := alone
  current view viewed := by
    rw [show phase.view? = some view from viewed] at blind
    cases blind
  foldable view count summary same := by
    rw [show phase = .summarized view count summary from same] at blind
    cases blind

theorem early (sound : Sound P owner sid s) {phase : Phase} (early : phase.afterTurn = false) :
    Sound P owner sid { s with phase := phase } :=
  sound.enter (Phase.early_blind early) fun late => by rw [early] at late; cases late

theorem fresh {log : EventTables} {orphan : Option (EventTables × List (List (Int × Msg)))}
    {batches : List (List (Int × Msg))} (recorded : Recorded P owner sid log batches)
    (pending : ∀ log' batches', orphan = some (log', batches') →
      Recorded P owner sid log' batches' ∧ Extends P owner sid log log') :
    Sound P owner sid ⟨log, orphan, .free, batches⟩ where
  recorded := recorded
  orphan := pending
  alone late := nomatch late
  current _ viewed := nomatch viewed
  foldable _ _ _ same := nomatch same

theorem write (sound : Sound P owner sid s) {next : Phase} {batches : List (List (Int × Msg))}
    {commit : Commit} {result : Except SessionError EventTables} (blind : next.view? = none)
    (written : ∀ log, s.orphan = none → result = .ok log →
      Recorded P owner sid log batches ∧ Extends P owner sid s.log log) :
    Sound P owner sid (s.write next batches commit result) ∧
      Extends P owner sid s.log (s.write next batches commit result).log := by
  have given_up : Sound P owner sid { s with phase := .free } := sound.early rfl
  unfold SessionState.write
  split
  · exact ⟨sound, .refl ..⟩
  · exact ⟨given_up, .refl ..⟩
  · exact ⟨given_up, .refl ..⟩
  · next log pending =>
    obtain ⟨recorded, extended⟩ := written log pending rfl
    have stored : Sound P owner sid ⟨log, s.orphan, .free, batches⟩ :=
      .fresh recorded fun log' batches' another => by rw [pending] at another; cases another
    exact ⟨stored.enter blind fun _ => pending, extended⟩
  · next log pending =>
    obtain ⟨recorded, extended⟩ := written log pending rfl
    refine ⟨.fresh sound.recorded ?_, .refl ..⟩
    rintro _ _ ⟨⟩
    exact ⟨recorded, extended⟩

theorem settle (sound : Sound P owner sid s) (committed : Bool) :
    Sound P owner sid (s.settle committed) ∧ Extends P owner sid s.log (s.settle committed).log := by
  unfold SessionState.settle
  split
  · exact ⟨sound, .refl ..⟩
  next log batches pending =>
  obtain ⟨recorded, extended⟩ := sound.orphan log batches pending
  have early : s.phase.afterTurn = false := by
    cases late : s.phase.afterTurn with
    | false => rfl
    | true => rw [sound.alone late] at pending; cases pending
  have blind := Phase.early_blind early
  split
  · have settled : Sound P owner sid ⟨log, none, .free, batches⟩ := .fresh recorded fun _ _ => nofun
    exact ⟨settled.enter blind fun _ => rfl, extended⟩
  have settled : Sound P owner sid ⟨s.log, none, .free, s.batches⟩ :=
    .fresh sound.recorded fun _ _ => nofun
  exact ⟨settled.enter blind fun _ => rfl, .refl ..⟩

theorem other (sound : Sound P owner sid s) {e : MemEvent} {log : EventTables}
    (foreign : isOwn owner sid e = false) (alone : s.orphan = none) (appended : Appended P e s.log log) :
    Sound P owner sid { s with log := log } ∧ Extends P owner sid s.log log := by
  have enters : Enters owner sid e none := by
    refine .other fun owned inside => ?_
    simpa [isOwn, owned, inside] using foreign
  obtain ⟨recorded, kept, newest⟩ := sound.recorded.addOther appended enters
  have same : covered P owner sid log = covered P owner sid s.log := by unfold covered; rw [newest]
  refine ⟨⟨recorded, fun log' batches pending => ?_, sound.alone, fun view viewed => ?_, sound.foldable⟩,
    appended.rows sound.recorded.sequenced, same.ge⟩
  · rw [show s.orphan = some (log', batches) from pending] at alone
    cases alone
  · rw [← sound.current view viewed, loadView_eq recorded.readable, loadView_eq sound.recorded.readable,
      kept, newest, same]

end Sound

variable {log log' : EventTables} {batches : List (List (Int × Msg))} {disk : Option DiskSample}

section
variable (recorded : Recorded P owner sid log batches)
include recorded

theorem untouched (empty : log.events.any (inSession owner sid) = false) :
    covered P owner sid log = 0 ∧ batches = [] := by
  have none_of : ∀ kind, kindRows owner sid kind log = [] := by
    intro kind
    rw [recorded.sequenced.kindRows, List.filter_eq_nil_iff]
    intro row member
    simp [List.any_eq_false.mp empty row member]
  refine ⟨?_, ?_⟩
  · simp only [covered, newestSummary, none_of]
    rfl
  · by_contra some_batch
    apply recorded.begun some_batch
    simp only [messages, none_of]
    rfl

theorem importLegacy_ok {clock : Nat → String} {legacy : CanonicalSession} {outcome : ImportOutcome}
    (same : legacy.sessionId = sid) (done : importLegacy P disk clock owner legacy log = .ok (outcome, log')) :
    Recorded P owner sid log' batches ∧ Extends P owner sid log log' := by
  unfold importLegacy at done
  split at done
  · cases done
  split at done
  · obtain ⟨-, rfl⟩ := Prod.mk.inj (Except.ok.inj done)
    exact ⟨recorded, .refl ..⟩
  rename_i empty
  split at done
  · obtain ⟨-, rfl⟩ := Prod.mk.inj (Except.ok.inj done)
    exact ⟨recorded, .refl ..⟩
  obtain ⟨final, stored, done⟩ := bind_ok done
  obtain ⟨-, rfl⟩ := Prod.mk.inj (Except.ok.inj done)
  rw [same] at empty
  obtain ⟨uncovered, rfl⟩ := untouched recorded (by simpa using empty)
  exact recorded.writeAll (fun e listed => importEvents_enter clock same listed) uncovered stored

theorem ensureImported_ok {clock : Nat → String} {legacy : Option CanonicalSession}
    (done : ensureImported P owner sid disk clock legacy log = .ok log') :
    Recorded P owner sid log' batches ∧ Extends P owner sid log log' := by
  unfold ensureImported at done
  split at done
  · rw [← Except.ok.inj done]
    exact ⟨recorded, .refl ..⟩
  split at done
  · rw [← Except.ok.inj done]
    exact ⟨recorded, .refl ..⟩
  split at done
  · cases done
  rename_i same
  split at done
  · next outcome stored imported =>
    rw [← Except.ok.inj done]
    exact importLegacy_ok recorded (by simpa using same) imported
  · cases done

theorem appendTurn_recorded {clock : Nat → String} {turnNo : Nat} {prompt answer : String}
    {promptOrigin answerOrigin : Origin} {ids : TurnIds}
    (done : appendTurn P disk clock owner sid turnNo (.user prompt) promptOrigin (.assistant (some answer) []) answerOrigin log = .ok (ids, log')) :
    Recorded P owner sid log' batches ∧ Extends P owner sid log log' := by
  rcases appendTurn_ok done with rfl | ⟨e, e', between, first, second, user, assistant⟩
  · exact ⟨recorded, .refl ..⟩
  obtain ⟨kept, extended, -, -⟩ :=
    recorded.addMessage first user fun tool => by simp [Msg.user] at tool
  obtain ⟨final, further, -, -⟩ :=
    kept.addMessage second assistant fun tool => by simp [Msg.assistant] at tool
  exact ⟨final, extended.trans further⟩

theorem appendSummary_recorded {now summary : String} {seq : Int} {view : SessionView} {last : Int × Msg}
    {front back : List (Int × Msg)} (current : loadView P owner sid log = .ok view)
    (split : view.tail = front ++ last :: back) (headed : ∀ item ∈ back.head?, item.2.role ≠ "tool")
    (done : appendSummary P disk now owner sid summary last.1 log = .ok (seq, log')) :
    Recorded P owner sid log' (batches ++ [front ++ [last]]) ∧ Extends P owner sid log log' := by
  rw [loadView_eq recorded.readable] at current
  obtain rfl := Except.ok.inj current
  obtain ⟨folded, left, beyond⟩ := recorded.folded.advance split
  have listed : last ∈ messages P owner sid log :=
    (Folding.mem_remaining.mp (split ▸ List.mem_append_right front (List.mem_cons_self ..))).1
  obtain ⟨e, appended, enters⟩ := appendSummary_ok done
  obtain ⟨kept, extended, -, -⟩ := recorded.addSummary appended enters folded beyond.le
    (messages_issued recorded.sequenced listed) (fun _ => List.ne_nil_of_mem listed)
    (fun _ => by rw [left]; exact headed)
  exact ⟨kept, extended⟩

end

theorem Sound.step {s : SessionState} (sound : Sound P owner sid s) (event : SessionStep) :
    Sound P owner sid (s.step P owner sid event) ∧
      Extends P owner sid s.log (s.step P owner sid event).log := by
  have given_up : Sound P owner sid { s with phase := .free } := sound.early rfl
  unfold SessionState.step
  split
  · exact ⟨sound.early rfl, .refl ..⟩
  · split
    · exact ⟨sound.early rfl, .refl ..⟩
    · exact sound.write rfl fun log _ done => ensureImported_ok sound.recorded done
  · split
    · exact ⟨sound.early rfl, .refl ..⟩
    · exact ⟨given_up, .refl ..⟩
  · refine sound.write rfl fun log _ done => ?_
    obtain ⟨⟨ids, final⟩, appended, same⟩ := map_ok done
    obtain rfl : final = log := same
    exact appendTurn_recorded sound.recorded appended
  · next phase =>
    have alone := sound.alone (by rw [phase]; rfl)
    split
    · next view loaded =>
      refine ⟨⟨sound.recorded, sound.orphan, fun _ => alone, fun view' viewed => ?_, nofun⟩, .refl ..⟩
      obtain rfl : view = view' := Option.some.inj viewed
      exact loaded
    · exact ⟨given_up, .refl ..⟩
  · next policy answer view phase =>
    have alone := sound.alone (by rw [phase]; rfl)
    have current := sound.current view (by rw [phase]; rfl)
    split
    · exact ⟨given_up, .refl ..⟩
    · exact ⟨given_up, .refl ..⟩
    next count summary folds =>
    refine ⟨⟨sound.recorded, sound.orphan, fun _ => alone, fun view' viewed => ?_, ?_⟩, .refl ..⟩
    · obtain rfl : view = view' := Option.some.inj viewed
      exact current
    · rintro _ _ _ ⟨⟩
      exact foldCount_split folds
  · next disk now commit view count summary phase =>
    split
    · exact ⟨given_up, .refl ..⟩
    next last at_last =>
    have current := sound.current view (by rw [phase]; rfl)
    obtain ⟨front, final, back, split, rfl, headed⟩ := sound.foldable view count summary phase
    have same : final = last := by
      rw [split] at at_last
      simpa using at_last
    have batch : view.tail.take (front.length + 1) = front ++ [last] := by
      rw [split, same, List.append_cons, List.take_left' (by simp)]
    refine sound.write rfl fun log _ done => ?_
    split at done
    · next seq stored appended =>
      rw [← Except.ok.inj done, batch]
      exact appendSummary_recorded sound.recorded current (same ▸ split) headed appended
    · cases done
  · exact ⟨given_up, .refl ..⟩
  · exact sound.settle _
  · obtain ⟨settled, extended⟩ := sound.settle _
    exact ⟨settled.early rfl, extended⟩
  · split
    · exact ⟨sound, .refl ..⟩
    rename_i quiet
    simp only [Bool.or_eq_true, not_or, Bool.not_eq_true, Option.isSome_eq_false_iff,
      Option.isNone_iff_eq_none] at quiet
    split
    · next log appended => exact sound.other quiet.1 quiet.2 (appendTx_ok appended)
    · exact ⟨sound, .refl ..⟩
  · exact ⟨sound, .refl ..⟩

end

namespace SessionStep

def compacts : SessionStep → Bool
  | .view | .summarize .. | .store .. | .release => true
  | _ => false

end SessionStep

section
variable {P : Platform} {owner sid : String}

theorem write_shows {s : SessionState} (next : Phase) {batches : List (List (Int × Msg))} (commit : Commit)
    (result : Except SessionError EventTables) (grows : batches ≠ s.batches) :
    (s.write next batches commit result).log = s.log ∨
      (s.write next batches commit result).batches ≠ s.batches := by
  unfold SessionState.write
  split
  · exact .inl rfl
  · exact .inl rfl
  · exact .inl rfl
  · exact .inr grows
  · exact .inl rfl

theorem compaction_shows (s : SessionState) {event : SessionStep} (compacts : event.compacts = true) :
    (s.step P owner sid event).log = s.log ∨ (s.step P owner sid event).batches ≠ s.batches := by
  cases event with
  | view | summarize policy answer =>
    left
    cases phase : s.phase <;> simp only [SessionState.step, phase] <;> split <;> rfl
  | store =>
    cases phase : s.phase with
    | summarized =>
      simp only [SessionState.step, phase]
      split
      · exact .inl rfl
      · exact write_shows _ _ _ (by simp)
    | free | locked | imported | counted turnNo | recorded | viewed view =>
      left
      simp only [SessionState.step, phase]
  | release => exact .inl rfl
  | lock | prepare | count | append | settle | restart | other => cases compacts

end

structure SessionStart (owner sid : String) where
  log : EventTables
  sequenced : Sequenced log
  unwritten : ∀ row ∈ log.events, inSession owner sid row = true →
    row.kind ≠ "message" ∧ row.kind ≠ "session.summary"

namespace SessionStart
variable {owner sid : String}

instance : Inhabited (SessionStart owner sid) :=
  ⟨⟨⟨[], 0, fun _ => none, fun _ => false, fun _ => none, fun _ => none⟩,
    ⟨List.Pairwise.nil, fun _ member => absurd member List.not_mem_nil, le_refl 0⟩,
    fun _ member => absurd member List.not_mem_nil⟩⟩

def state (start : SessionStart owner sid) : SessionState := ⟨start.log, none, .free, []⟩

theorem sound (P : Platform) (start : SessionStart owner sid) : Sound P owner sid start.state := by
  have none_of : ∀ kind, kind = "message" ∨ kind = "session.summary" →
      kindRows owner sid kind start.log = [] := by
    intro kind own
    rw [start.sequenced.kindRows, List.filter_eq_nil_iff]
    intro row member both
    rw [Bool.and_eq_true, beq_iff_eq] at both
    obtain ⟨not_message, not_summary⟩ := start.unwritten row member both.1
    rcases own with rfl | rfl
    · exact not_message both.2
    · exact not_summary both.2
  have no_message := none_of "message" (.inl rfl)
  have no_summary := none_of "session.summary" (.inr rfl)
  have empty : messages P owner sid start.log = [] := by simp [messages, no_message]
  have uncovered : covered P owner sid start.log = 0 := by simp [covered, newestSummary, no_summary]
  refine .fresh ⟨start.sequenced, ⟨?_, ?_⟩, ?_, ?_, ?_, ?_⟩ fun _ _ pending => by cases pending
  · rw [no_message]
    exact fun _ member => absurd member List.not_mem_nil
  · rw [no_summary]
    exact fun _ member => absurd member List.not_mem_nil
  · rw [empty, uncovered]; exact .empty 0
  · rw [uncovered]; exact start.sequenced.nonneg
  · exact fun some_batch => absurd rfl some_batch
  · exact fun some_batch => absurd rfl some_batch

end SessionStart

/-- In every run of a session's turns, imports and compactions: the view's tail is what the newest summary leaves,
every message is in it or in the batch of exactly one summary, and a compaction that stores nothing changes nothing.
-/
theorem compaction_keeps_messages (P : Platform) (owner sid : String) (start : SessionStart owner sid)
    (events : List SessionStep) :
    let reached := fun events => run (SessionState.step P owner sid) events start.state
    let s := reached events
    ∃ view, loadView P owner sid s.log = .ok view ∧
      (view.tail.map fun item => (item.1, some item.2)) =
        (((kindRows owner sid "message" s.log).filter fun row => view.coveredThroughSeq < row.seq).map
          fun row => (row.seq, row.message P)) ∧
      (∀ row ∈ kindRows owner sid "message" s.log, ∃ msg, row.message P = some msg ∧
        Folding.InOnePlace view.tail s.batches (row.seq, msg)) ∧
      (s.batches ≠ [] → ∀ item ∈ view.tail.head?, item.2.role ≠ "tool") ∧
      (∀ earlier later, events = earlier ++ later →
        kindRows owner sid "message" (reached earlier).log <+: kindRows owner sid "message" s.log ∧
        ∃ before, loadView P owner sid (reached earlier).log = .ok before ∧
          before.coveredThroughSeq ≤ view.coveredThroughSeq) ∧
      ∀ event, event.compacts = true → (s.step P owner sid event).batches = s.batches →
        (s.step P owner sid event).log = s.log := by
  intro reached s
  have both : ∀ events, Sound P owner sid (reached events) := fun events =>
    run_invariant _ (fun _ => True) (Sound P owner sid) (fun _ event _ sound => (sound.step event).1)
      (fun _ _ => trivial) (start.sound P)
  have sound : Sound P owner sid s := both events
  refine ⟨_, loadView_eq sound.recorded.readable, ?_, ?_, sound.recorded.headed, ?_, ?_⟩
  · exact remaining_rows sound.recorded.readable.messages _
  · intro row listed
    obtain ⟨msg, reads⟩ := Option.isSome_iff_exists.mp (sound.recorded.readable.messages row listed)
    refine ⟨msg, reads, sound.recorded.folded.inOnePlace ?_⟩
    exact List.mem_filterMap.mpr ⟨row, listed, by rw [reads]; rfl⟩
  · intro earlier later split
    have extended : Extends P owner sid (reached earlier).log s.log := by
      show Extends P owner sid (reached earlier).log (reached events).log
      rw [split, show reached (earlier ++ later) = run _ later (reached earlier) from run_append ..]
      exact run_relates _ (fun _ => True) (Sound P owner sid)
        (fun before after => Extends P owner sid before.log after.log) (fun _ => .refl ..)
        (fun _ _ _ first second => first.trans second) (fun _ event _ sound => (sound.step event).1)
        (fun _ event _ sound => (sound.step event).2) (fun _ _ => trivial) (both earlier)
    exact ⟨extended.rows, _, loadView_eq (both earlier).recorded.readable, extended.covered⟩
  · intro event compacts unsummarized
    exact (compaction_shows s compacts).resolve_right fun differs => differs unsummarized

end Agent24.Agent
