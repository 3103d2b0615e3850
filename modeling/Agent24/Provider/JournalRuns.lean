import Agent24.Library.Runs
import Agent24.Provider.Journal

/-! A journal over its physical log: whatever lands and whatever is reported, the log replays to the
changes pushed, in order, once each. -/

set_option autoImplicit false
namespace Agent24.Provider
open Library List

section
variable {I : Ids}

def settleList (out : Replayed I) (changes : List (Change I)) : Except Damaged (Replayed I) :=
  changes.foldlM apply { out with shutDown := false }

theorem settle_write {out : Replayed I} {seq : Word} {changes : List (Change I)} :
    settle out ⟨seq, some changes, false⟩ = settleList out changes := rfl

def Replayed.withNext (out : Replayed I) (next : Word) : Replayed I := { out with next := next }

theorem apply_withNext (out : Replayed I) (change : Change I) (next : Word) :
    apply (out.withNext next) change = (apply out change).map (·.withNext next) := by
  cases change
  case confirm p principal awaited =>
    by_cases answers : (out.profile p).awaiting = some awaited
    · have answersNext : ((out.withNext next).profile p).awaiting = some awaited := answers
      by_cases principals : awaited = .principalChanged
      · simp only [apply, answers, answersNext, principals, if_true]
        rfl
      · simp only [apply, answers, answersNext, principals, if_true, if_false]
        rfl
    · have answersNext : ¬ ((out.withNext next).profile p).awaiting = some awaited := answers
      simp only [apply, answers, answersNext, if_false]
      rfl
  case bind of identity generation confirmed =>
    have same : (out.withNext next).bindings = out.bindings := rfl
    simp only [apply, same]
    split <;> rfl
  case placed of rule =>
    have same : (out.withNext next).bound of = out.bound of := rfl
    simp only [apply, same]
    cases out.bound of with
    | none => rfl
    | some b =>
      dsimp only
      split <;> rfl
  case runBackfilled run of =>
    simp only [apply, Replayed.setRun]
    have same : (out.withNext next).runs = out.runs := rfl
    rw [same]
    split
    · split <;> rfl
    · rfl
  case runBound run bindings candidates =>
    simp only [apply, Replayed.setRun]
    have same : (out.withNext next).runs = out.runs := rfl
    rw [same]
    split <;> rfl
  case runUnbound run profiles =>
    simp only [apply, Replayed.setRun]
    have same : (out.withNext next).runs = out.runs := rfl
    rw [same]
    split <;> rfl
  all_goals rfl

theorem foldlM_apply_withNext (changes : List (Change I)) (out : Replayed I) (next : Word) :
    changes.foldlM apply (out.withNext next) = (changes.foldlM apply out).map (·.withNext next) := by
  induction changes generalizing out with
  | nil => rfl
  | cons change rest ih =>
    rw [foldlM_cons, foldlM_cons, apply_withNext]
    cases apply out change with
    | error damage => rfl
    | ok settled => exact ih settled

/-- A log as the disk holds it: the first `n` lists in order, each under its number once or more. -/
inductive Physical (start : Word) (lists : List (List (Change I))) : Nat → List (Record I) → Prop
  | empty : Physical start lists 0 []
  | next {n : Nat} {disk : List (Record I)} {seq : Word} {changes : List (Change I)} :
      Physical start lists n disk → lists[n]? = some changes → seq.val = start.val + n →
      Physical start lists (n + 1) (disk ++ [⟨seq, .changes changes⟩])
  | again {n : Nat} {disk : List (Record I)} {seq : Word} {changes : List (Change I)} :
      Physical start lists (n + 1) disk → lists[n]? = some changes → seq.val = start.val + n →
      Physical start lists (n + 1) (disk ++ [⟨seq, .changes changes⟩])

/-- The reader after a log of `n` numbers: the last one's write is kept back. -/
def readBack (start : Word) (lists : List (List (Change I))) :
    Nat → Except Damaged (Option (LogSlot I) × Replayed I) → Prop
  | 0, read => read = .ok (none, .fresh start)
  | n + 1, read => ∃ (seq : Word) (changes : List (Change I)), seq.val = start.val + n ∧
      lists[n]? = some changes ∧
      read = ((lists.take n).foldlM settleList (.fresh start)).map fun out => (some ⟨seq, some changes, false⟩, out)

theorem checkedNext_of_val {seq next : Word} (following : next.val = seq.val + 1) :
    seq.checkedNext = some next := by
  have bound : seq.val + 1 < 2 ^ 64 := following ▸ next.isLt
  rw [Word.checkedNext, dif_pos bound]
  exact congrArg some (Fin.ext following.symm)

theorem Physical.read {start : Word} {lists : List (List (Change I))} {n : Nat} {disk : List (Record I)}
    (physical : Physical start lists n disk) :
    readBack start lists n (disk.foldlM (readRecord start) (none, .fresh start)) := by
  induction physical with
  | empty => rfl
  | @next n disk seq changes _ here numbered ih =>
    rw [foldlM_append]
    cases n with
    | zero =>
      rw [readBack] at ih
      refine ⟨seq, changes, numbered, here, ?_⟩
      have first : seq = start := Fin.ext numbered
      simp [ih, readRecord, first, Bind.bind, Except.bind, pure, Except.pure, Except.map]
    | succ m =>
      obtain ⟨last, before, lastNumbered, there, read⟩ := ih
      refine ⟨seq, changes, numbered, here, ?_⟩
      have apart : last ≠ seq := by
        rintro rfl
        omega
      have following : last.checkedNext = some seq := checkedNext_of_val (by omega)
      rw [read, take_add_one, there, Option.toList_some, foldlM_append]
      cases (lists.take m).foldlM settleList (.fresh start) with
      | error damage => rfl
      | ok out =>
        simp only [Except.map, Bind.bind, Except.bind, foldlM_cons, foldlM_nil, readRecord, apart,
          following, settle_write, if_false, if_true]
        cases settleList out before <;> rfl
  | @again n disk seq changes _ here numbered ih =>
    rw [foldlM_append]
    obtain ⟨last, before, lastNumbered, there, read⟩ := ih
    refine ⟨last, before, lastNumbered, there, ?_⟩
    have same : last = seq := Fin.ext (by omega)
    obtain rfl : before = changes := Option.some.inj (there.symm.trans here)
    rw [read]
    cases (lists.take n).foldlM settleList (.fresh start) with
    | error damage => rfl
    | ok out => simp [Except.map, Bind.bind, Except.bind, readRecord, same, pure, Except.pure]

theorem Physical.replay {start : Word} {lists : List (List (Change I))} {n : Nat} {disk : List (Record I)}
    (physical : Physical start lists n disk) (room : start.val + n < 2 ^ 64) :
    replay start disk =
      ((lists.take n).foldlM settleList (.fresh start)).map (·.withNext ⟨start.val + n, room⟩) := by
  have read := physical.read
  unfold Provider.replay
  cases n with
  | zero =>
    rw [read]
    rfl
  | succ m =>
    obtain ⟨seq, changes, numbered, here, read⟩ := read
    have following : seq.checkedNext = some ⟨start.val + (m + 1), room⟩ :=
      checkedNext_of_val (by show start.val + (m + 1) = seq.val + 1; omega)
    rw [read, take_add_one, here, Option.toList_some, foldlM_append]
    cases (lists.take m).foldlM settleList (.fresh start) with
    | error damage => rfl
    | ok out =>
      simp only [Except.map, Bind.bind, Except.bind, following, foldlM_cons, foldlM_nil]
      have settled : settle (out.withNext ⟨start.val + (m + 1), room⟩) ⟨seq, some changes, false⟩ =
          (settleList out changes).map (·.withNext ⟨start.val + (m + 1), room⟩) :=
        foldlM_apply_withNext changes { out with shutDown := false } _
      refine settled.trans ?_
      cases settleList out changes <;> rfl

theorem Physical.extend {start : Word} {lists more : List (List (Change I))} {n : Nat} {disk : List (Record I)}
    (physical : Physical start lists n disk) : Physical start (lists ++ more) n disk := by
  have there : ∀ {i : Nat} {changes : List (Change I)}, lists[i]? = some changes →
      (lists ++ more)[i]? = some changes := by
    intro i changes here
    have bound : i < lists.length := (List.getElem?_eq_some_iff.mp here).1
    rw [List.getElem?_append_left bound, here]
  induction physical with
  | empty => exact .empty
  | next _ here numbered ih => exact ih.next (there here) numbered
  | again _ here numbered ih => exact ih.again (there here) numbered

end

structure RecordFlight (I : Ids) where
  attempt : Attempt
  record : Record I
  landed : Bool

structure JournalWorld (I : Ids) (T : Type) where
  journal : Journal I T
  disk : List (Record I)
  flight : Option (RecordFlight I)
  pushed : List (List (Change I) × T)
  taken : List (Attempt × Record I)
  reported : List T

inductive JournalMove (I : Ids) (T : Type) where
  | push (changes : List (Change I)) (goal : T)
  | take
  | land
  | written (attempt : Attempt) (outcome : Written)

namespace JournalWorld
variable {I : Ids} {T : Type}

def start (seq : Word) : JournalWorld I T := ⟨.new seq, [], none, [], [], []⟩

/-- A write is reported durable only once it landed; a report of any other attempt is late or repeated. -/
def truthful (w : JournalWorld I T) (attempt : Attempt) (outcome : Written) : Bool :=
  w.flight.all fun f => f.attempt ≠ attempt ∨ outcome = .failed ∨ f.landed

def step (w : JournalWorld I T) : JournalMove I T → JournalWorld I T
  | .push changes goal =>
    match w.journal.push changes goal with
    -- the number overflows: nothing is queued
    | none => w
    | some journal => { w with journal := journal, pushed := w.pushed ++ [(changes, goal)] }
  | .take =>
    match w.journal.take with
    | (_, none) => w
    | (journal, some (attempt, record)) =>
      { w with
        journal := journal
        flight := some ⟨attempt, record, false⟩
        taken := (attempt, record) :: w.taken }
  | .land =>
    match w.flight with
    | none => w
    | some f =>
      if f.landed then w
      else { w with disk := w.disk ++ [f.record], flight := some { f with landed := true } }
  | .written attempt outcome =>
    if w.truthful attempt outcome then
      let out := w.journal.written attempt outcome
      { w with
        journal := out.1
        flight := w.flight.filter fun f => decide (f.attempt ≠ attempt)
        reported := match out.2 with
          | .durable goal => w.reported ++ [goal]
          | .ignored | .failed _ => w.reported }
    else w

-- Its equations, made once for all the proofs below.
section
attribute [local simp] step
end

def Awaits (past n : Nat) (w : JournalWorld I T) : Prop :=
  match w.flight with
  | none => w.journal.inFlight = none
  | some f => w.journal.inFlight = some f.attempt ∧ (f.landed = true → n = past + 1) ∧
      ∃ head rest, w.journal.queue = head :: rest ∧ f.record = ⟨head.seq, .changes head.changes⟩

/-- What a journal's run keeps: `past` is what was reported durable, and `n` numbers are on disk, those
of the past and at most the one at the head of the queue. -/
structure Sound (first : Word) (past : List (List (Change I) × T)) (n : Nat) (w : JournalWorld I T) : Prop where
  queued : w.pushed = past ++ w.journal.queue.map fun q => (q.changes, q.goal)
  reported : w.reported = past.map (·.2)
  numbered : ∀ i q, w.journal.queue[i]? = some q → q.seq.val = first.val + (past.length + i)
  next : w.journal.nextSeq.val = first.val + w.pushed.length
  physical : Physical first (w.pushed.map (·.1)) n w.disk
  landed : n = past.length ∨ n = past.length + 1 ∧ w.journal.queue ≠ []
  awaits : Awaits past.length n w
  taken : ∀ a r, (a, r) ∈ w.taken → ∃ i changes, r.entry = .changes changes ∧ r.seq.val = first.val + i ∧
    (w.pushed.map (·.1))[i]? = some changes

section
variable {first : Word} {past : List (List (Change I) × T)} {n : Nat} {w : JournalWorld I T}

theorem Sound.start (first : Word) : Sound (T := T) first [] 0 (start (I := I) first) where
  queued := rfl
  reported := rfl
  numbered i q here := by simp [JournalWorld.start, Journal.new] at here
  next := rfl
  physical := .empty
  landed := .inl rfl
  awaits := rfl
  taken a r member := absurd member not_mem_nil

theorem Sound.head (sound : Sound first past n w) {head : Queued I T} {rest : List (Queued I T)}
    (queue : w.journal.queue = head :: rest) :
    (w.pushed.map (·.1))[past.length]? = some head.changes ∧ head.seq.val = first.val + past.length := by
  constructor
  · rw [sound.queued, queue, map_append, List.getElem?_append_right (by simp)]
    simp
  · simpa using sound.numbered 0 head (by simp [queue])

section
variable (sound : Sound first past n w)
include sound

theorem Sound.push (changes : List (Change I)) (goal : T) :
    Sound first past n (w.step (.push changes goal)) := by
  simp only [step, Journal.push]
  cases following : w.journal.nextSeq.checkedNext with
  | none => exact sound
  | some next =>
    have value := Word.val_of_checkedNext following
    have before := sound.next
    have count : w.pushed.length = past.length + w.journal.queue.length := by
      simp [sound.queued]
    constructor
    · simp [sound.queued]
    · exact sound.reported
    · intro i q here
      simp only [Option.map_some] at here
      by_cases old : i < w.journal.queue.length
      · rw [List.getElem?_append_left old] at here
        exact sound.numbered i q here
      rw [List.getElem?_append_right (by omega)] at here
      obtain ⟨bound, rfl⟩ := List.getElem?_eq_some_iff.mp here
      simp only [length_singleton] at bound
      simp only [getElem_singleton]
      omega
    · simp only [Option.map_some, length_append, length_singleton]
      omega
    · simp only [Option.map_some, map_append]
      exact sound.physical.extend
    · rcases sound.landed with same | ⟨one, -⟩
      · exact .inl same
      · exact .inr ⟨one, by simp⟩
    · have awaits := sound.awaits
      unfold Awaits at awaits ⊢
      simp only [Option.map_some]
      cases flying : w.flight with
      | none => simpa [flying] using awaits
      | some f =>
        rw [flying] at awaits
        obtain ⟨same, counts, head, rest, queue, record⟩ := awaits
        exact ⟨same, counts, head, rest ++ [_], by rw [queue, cons_append], record⟩
    · intro a r member
      obtain ⟨i, list, entry, seq, here⟩ := sound.taken a r member
      refine ⟨i, list, entry, seq, ?_⟩
      simp only [Option.map_some, map_append]
      rw [List.getElem?_append_left (List.getElem?_eq_some_iff.mp here).1, here]

theorem Sound.take : Sound first past n (w.step .take) := by
  cases flying : w.journal.inFlight with
  | some attempt =>
    have kept : w.step .take = w := by simp [step, Journal.take, flying]
    rw [kept]
    exact sound
  | none =>
    cases queue : w.journal.queue with
    | nil =>
      have kept : w.step .take = w := by simp [step, Journal.take, flying, queue]
      rw [kept]
      exact sound
    | cons head rest =>
      obtain ⟨here, seq⟩ := sound.head queue
      let attempt : Attempt := ⟨w.journal.attempts + 1⟩
      let record : Record I := ⟨head.seq, .changes head.changes⟩
      have taken : w.step .take =
          { w with
            journal := { w.journal with inFlight := some attempt, attempts := w.journal.attempts + 1 }
            flight := some ⟨attempt, record, false⟩
            taken := (attempt, record) :: w.taken } := by
        simp [step, Journal.take, flying, queue, attempt, record]
      rw [taken]
      refine { sound with awaits := ?_, taken := ?_ }
      · exact ⟨rfl, nofun, head, rest, queue, rfl⟩
      · intro a r member
        rcases mem_cons.mp member with same | old
        · cases same
          exact ⟨past.length, head.changes, rfl, seq, here⟩
        · exact sound.taken a r old

theorem Sound.land : ∃ n, Sound first past n (w.step .land) := by
  simp only [step]
  cases flying : w.flight with
  | none => exact ⟨n, sound⟩
  | some f =>
    by_cases already : f.landed = true
    · simpa [already] using ⟨n, sound⟩
    simp only [already, if_false, Bool.false_eq_true]
    have awaits := sound.awaits
    unfold Awaits at awaits
    rw [flying] at awaits
    obtain ⟨same, -, head, rest, queue, record⟩ := awaits
    obtain ⟨here, seq⟩ := sound.head queue
    refine ⟨past.length + 1, ?_⟩
    refine { sound with physical := ?_, landed := .inr ⟨rfl, by simp [queue]⟩, awaits := ?_ }
    · rw [record]
      -- its first landing, or one after a landing that was reported failed
      rcases sound.landed with rfl | ⟨rfl, -⟩
      · exact sound.physical.next here seq
      · exact sound.physical.again here seq
    · exact ⟨same, fun _ => rfl, head, rest, queue, record⟩

theorem Sound.written (attempt : Attempt) (outcome : Written) :
    ∃ past, Sound first past n (w.step (.written attempt outcome)) := by
  simp only [step]
  split
  case isFalse => exact ⟨past, sound⟩
  case isTrue right =>
    have awaits := sound.awaits
    unfold Awaits at awaits
    by_cases current : w.journal.inFlight = some attempt
    · cases flying : w.flight with
      | none =>
        rw [flying] at awaits
        cases awaits.symm.trans current
      | some f =>
        rw [flying] at awaits
        obtain ⟨same, counts, head, rest, queue, record⟩ := awaits
        obtain rfl : f.attempt = attempt := Option.some.inj (same.symm.trans current)
        have cleared : (some f).filter (fun g => decide (g.attempt ≠ f.attempt)) = none := by simp
        cases outcome with
        | failed =>
          refine ⟨past, ?_⟩
          simp only [Journal.written, if_pos current, queue]
          exact { sound with
            queued := by rw [sound.queued, queue]
            numbered := fun i q here => sound.numbered i q (by rw [queue]; exact here)
            landed := by simpa [queue] using sound.landed
            awaits := by
              unfold Awaits
              simp only [cleared] }
        | durable =>
          have landed : f.landed = true := by simpa [truthful, flying] using right
          have onDisk := counts landed
          refine ⟨past ++ [(head.changes, head.goal)], ?_⟩
          simp only [Journal.written, if_pos current, queue]
          exact { sound with
            queued := by rw [sound.queued, queue]; simp
            reported := by simp [sound.reported]
            numbered := fun i q here => by
              have there := sound.numbered (i + 1) q (by rw [queue]; simpa using here)
              simp only [length_append, length_singleton]
              omega
            landed := .inl (by simp [onDisk])
            awaits := by
              unfold Awaits
              simp only [cleared] }
    · refine ⟨past, ?_⟩
      have ignored : w.journal.written attempt outcome = (w.journal, .ignored) := by
        simp [Journal.written, current]
      have kept : w.flight.filter (fun f => decide (f.attempt ≠ attempt)) = w.flight := by
        cases flying : w.flight with
        | none => rfl
        | some f =>
          rw [flying] at awaits
          have other : f.attempt ≠ attempt := fun same => current (same ▸ awaits.1)
          simp [other]
      rw [ignored, kept]
      exact sound

theorem Sound.step (move : JournalMove I T) :
    ∃ past n, Sound first past n (w.step move) := by
  cases move with
  | push changes goal => exact ⟨past, n, sound.push changes goal⟩
  | take => exact ⟨past, n, sound.take⟩
  | land =>
    obtain ⟨n, landed⟩ := sound.land
    exact ⟨past, n, landed⟩
  | written attempt outcome =>
    obtain ⟨past, kept⟩ := sound.written attempt outcome
    exact ⟨past, n, kept⟩

end

theorem sound_run (first : Word) (moves : List (JournalMove I T)) :
    ∃ past n, Sound first past n (run JournalWorld.step moves (start first)) :=
  run_invariant JournalWorld.step (fun _ => True) (fun w => ∃ past n, Sound first past n w)
    (fun _ move _ kept => kept.elim fun _ rest => rest.elim fun _ sound => sound.step move)
    (fun _ _ => trivial) ⟨[], 0, .start first⟩

end

/-- In every run of a journal, whatever the outcomes: one record is out at a time, each list is reported durable at
most once and in order, and the log replays to the landed lists, once each. -/
theorem journal_replays (first : Word) (moves : List (JournalMove I T)) :
    let w := run JournalWorld.step moves (start first)
    (w.flight ≠ none → (w.journal.take).2 = none) ∧
    (∀ a r b s, (a, r) ∈ w.taken → (b, s) ∈ w.taken → r.seq = s.seq → r = s) ∧
    w.pushed.map (·.2) = w.reported ++ w.journal.queue.map (·.goal) ∧
    ∃ n next, w.reported.length ≤ n ∧ n ≤ w.reported.length + 1 ∧ n ≤ w.pushed.length ∧
      next.val = first.val + n ∧
      replay first w.disk =
        (((w.pushed.take n).map (·.1)).foldlM settleList (.fresh first)).map (·.withNext next) := by
  intro w
  obtain ⟨past, n, sound⟩ : ∃ past n, Sound first past n w := sound_run first moves
  have length : w.reported.length = past.length := by simp [sound.reported]
  have count : w.pushed.length = past.length + w.journal.queue.length := by simp [sound.queued]
  refine ⟨fun flies => ?_, fun a r b s there here same => ?_, ?_, n, ?_⟩
  · have awaits := sound.awaits
    unfold Awaits at awaits
    cases flying : w.flight with
    | none => exact absurd flying flies
    | some f =>
      rw [flying] at awaits
      simp [Journal.take, awaits.1]
  · obtain ⟨i, changes, entry, seq, at_⟩ := sound.taken a r there
    obtain ⟨j, others, entry', seq', at'⟩ := sound.taken b s here
    obtain rfl : i = j := by
      have numbers := congrArg Fin.val same
      omega
    cases r
    cases s
    simp_all
  · rw [sound.queued, sound.reported, map_append, map_map]
    rfl
  · have within : n ≤ w.pushed.length ∧ past.length ≤ n ∧ n ≤ past.length + 1 := by
      rcases sound.landed with rfl | ⟨rfl, some_⟩
      · omega
      · have := length_pos_of_ne_nil some_
        omega
    have room : first.val + n < 2 ^ 64 := by
      have bound := w.journal.nextSeq.isLt
      rw [sound.next] at bound
      omega
    refine ⟨⟨first.val + n, room⟩, by omega, by omega, within.1, rfl, ?_⟩
    rw [map_take]
    exact sound.physical.replay room

/-- A list the reader refuses, pushed like any other: the journal does not read what it writes. -/
theorem journal_damaged :
    ¬ ∀ moves : List (JournalMove .numbers Nat),
      replay 1 (run JournalWorld.step moves (start 1)).disk ≠ .error .damaged := by
  intro never
  let unnumbered : Change .numbers := .bind ⟨0, 0⟩ 0 0 none
  refine never [.push [unnumbered] 0, .take, .land, .written ⟨1⟩ .durable] ?_
  rfl

end JournalWorld
end Agent24.Provider
