import Agent24.Os.MuxRuns

/-! The law of the multiplexer: what was queued, what was answered and what each caller is told, over all
interleavings. -/

set_option autoImplicit false
namespace Agent24.Os
open Library List

def WholeLine (bytes : List UInt8) : Prop := ∃ front, bytes = front ++ [Json.newline] ∧ Json.newline ∉ front

theorem wholeLine_line {value : Json} (plain : value.Plain) : WholeLine value.line :=
  ⟨_, rfl, Json.newline_not_mem_render plain⟩

theorem wholeLine_callLine (id method : String) {params : Json} (plain : params.Plain) :
    WholeLine (callLine id method params) := wholeLine_line ⟨trivial, trivial, trivial, plain, trivial⟩

theorem wholeLine_cancelLine (id : String) : WholeLine (cancelLine id) :=
  wholeLine_line ⟨trivial, trivial, ⟨trivial, trivial⟩, trivial⟩

/-- A line of the nested connection, which may have ended inside its last one. -/
def RelayLine (suOpen : Bool) (bytes : List UInt8) : Prop :=
  WholeLine bytes ∨ suOpen = false ∧ Json.newline ∉ bytes

def OutLine.Whole (suOpen : Bool) : OutLine → Prop
  | .call _ bytes => WholeLine bytes
  | .cancel bytes => WholeLine bytes
  | .relayed bytes => RelayLine suOpen bytes
  | .raw _ => True

structure OutKept (s : Mux) : Prop where
  flow : s.wire ++ s.writing ++ s.queue.flatMap OutLine.bytes = s.put.flatMap OutLine.bytes
  calls : ∀ call c, s.calls call = some c → WholeLine c.line
  queued : ∀ call, (∃ bytes, .call call bytes ∈ s.put) ↔ .queued call ∈ s.log
  whole : ∀ line ∈ s.put, line.Whole s.suOpen
  relayLine : Json.newline ∉ s.relayLine
  ready : ∀ bytes, s.relayReady = some bytes → RelayLine s.suOpen bytes

section Out
variable {s s' : Mux}

theorem OutKept.start : OutKept .start where
  flow := rfl
  calls _ _ := nofun
  queued _ := iff_of_false (by rintro ⟨bytes, member⟩; cases member) not_mem_nil
  whole := forall_mem_nil _
  relayLine := not_mem_nil
  ready _ := nofun

theorem OutKept.keep (kept : OutKept s) (same : s'.wire = s.wire ∧ s'.writing = s.writing ∧ s'.queue = s.queue ∧
      s'.put = s.put ∧ s'.relayLine = s.relayLine ∧ s'.relayReady = s.relayReady ∧ s'.suOpen = s.suOpen)
    (calls : ∀ call c, s'.calls call = some c → WholeLine c.line)
    (log : ∀ call, .queued call ∈ s'.log ↔ .queued call ∈ s.log) : OutKept s' := by
  obtain ⟨wire, writing, queue, put, relayLine, ready, open_⟩ := same
  refine ⟨?_, calls, fun call => ?_, ?_, ?_, ?_⟩
  · rw [wire, writing, queue, put]
    exact kept.flow
  · rw [put, log]
    exact kept.queued call
  · rw [put, open_]
    exact kept.whole
  · exact relayLine ▸ kept.relayLine
  · rw [ready, open_]
    exact kept.ready

theorem OutKept.callLines (kept : OutKept s) {call : Nat} {c : KernelCall} (whole : WholeLine c.line) :
    ∀ other d, Function.update s.calls call (some c) other = some d → WholeLine d.line := by
  intro other d found
  by_cases same : other = call
  · subst same
    rw [Function.update_self] at found
    exact Option.some.inj found ▸ whole
  · rw [Function.update_of_ne same] at found
    exact kept.calls other d found

theorem OutKept.push (kept : OutKept s) {line : OutLine} (notCall : ∀ call bytes, line ≠ .call call bytes)
    (whole : line.Whole s.suOpen) : OutKept (s.push line) where
  flow := by
    show s.wire ++ s.writing ++ (s.queue ++ [line]).flatMap OutLine.bytes = (s.put ++ [line]).flatMap OutLine.bytes
    rw [flatMap_append, flatMap_append, ← append_assoc, kept.flow]
  calls := kept.calls
  queued call := by
    refine Iff.trans ⟨fun ⟨bytes, member⟩ => ⟨bytes, ?_⟩,
      fun ⟨bytes, member⟩ => ⟨bytes, mem_append_left _ member⟩⟩ (kept.queued call)
    exact (mem_append.mp member).resolve_right fun new => notCall call bytes (mem_singleton.mp new).symm
  whole other member := by
    rcases mem_append.mp member with old | new
    · exact kept.whole other old
    · rw [mem_singleton.mp new]
      exact whole
  relayLine := kept.relayLine
  ready := kept.ready

theorem RelayLine.ended {open_ : Bool} {bytes : List UInt8} (relayed : RelayLine open_ bytes) :
    RelayLine false bytes := relayed.imp_right fun part => ⟨rfl, part.2⟩

section
variable (kept : OutKept s)
include kept

theorem OutKept.suEnd : OutKept { s with suOpen := false } where
  flow := kept.flow
  calls := kept.calls
  queued := kept.queued
  whole line member := by
    have before := kept.whole line member
    cases line with
    | relayed bytes => exact RelayLine.ended before
    | call _ _ => exact before
    | cancel _ => exact before
    | raw _ => exact before
  relayLine := kept.relayLine
  ready bytes ready := (kept.ready bytes ready).ended

section
variable (R : JsonReader)
include R

theorem OutKept.relayRead (count : Nat) :
    OutKept (muxStep R s (.relayRead count)) := by
  simp only [muxStep]
  split
  · split
    · exact { kept with }
    split
    · split
      · rename_i ended
        refine { kept with relayLine := not_mem_nil, ready := fun bytes ready => ?_ }
        split at ready
        · cases ready
        · obtain rfl := Option.some.inj ready
          exact .inr ⟨ended.2, kept.relayLine⟩
      · exact kept
    · -- a window with a whole line, with none, or past the limit
      have cases_ := Lines.take_cases Json.newline maxFrameBytes s.relayLine (s.suOut.take count)
      rcases cases_ with ⟨-, made⟩ | ⟨front, rest, -, -, clean, made⟩ | ⟨seen, rest, -, clean, -, -, made⟩
      · rw [made]
        exact { kept with }
      · rw [made]
        refine { kept with relayLine := not_mem_nil, ready := fun bytes ready => .inl ⟨s.relayLine ++ front, ?_, ?_⟩ }
        · exact (Option.some.inj ready).symm
        · exact fun member => (mem_append.mp member).elim kept.relayLine clean
      · rw [made]
        exact { kept with relayLine := fun member => (mem_append.mp member).elim kept.relayLine clean }
  · exact kept

theorem OutKept.relaySend : OutKept (muxStep R s .relaySend) := by
  simp only [muxStep]
  split
  · rename_i line ready
    split
    · exact OutKept.push (s := { s with relayReady := none }) { kept with ready := fun _ same => by cases same }
        (fun _ _ same => by cases same) (kept.ready line ready)
    split
    · exact kept
    · exact { kept with ready := fun _ same => by cases same }
  · exact kept

theorem OutKept.enqueue (call : Nat) (permit : Bool) :
    OutKept (muxStep R s (.enqueue call permit)) := by
  simp only [muxStep]
  split
  · rename_i id line slot found
    have whole : WholeLine line := kept.calls call _ found
    have refused : OutKept (Mux.note (.returned call (.error .notSent)) (s.setCall call ⟨id, line, .finished, slot⟩)) :=
      kept.keep ⟨rfl, rfl, rfl, rfl, rfl, rfl, rfl⟩ (kept.callLines whole)
        fun other => ⟨fun member => (mem_cons.mp member).resolve_left (fun same => by cases same), mem_cons_of_mem _⟩
    split
    · exact refused
    split
    · refine ⟨?_, kept.callLines whole, fun other => ?_, fun out member => ?_, kept.relayLine, kept.ready⟩
      · show s.wire ++ s.writing ++ (s.queue ++ [OutLine.call call line]).flatMap OutLine.bytes =
          (s.put ++ [OutLine.call call line]).flatMap OutLine.bytes
        rw [flatMap_append, flatMap_append, ← append_assoc, kept.flow]
      · show (∃ bytes, OutLine.call other bytes ∈ s.put ++ [.call call line]) ↔ .queued other ∈ .queued call :: s.log
        constructor
        · rintro ⟨bytes, member⟩
          rcases mem_append.mp member with old | new
          · exact mem_cons_of_mem _ ((kept.queued other).mp ⟨bytes, old⟩)
          · obtain ⟨rfl, -⟩ := OutLine.call.inj (mem_singleton.mp new)
            exact mem_cons_self
        · intro member
          rcases mem_cons.mp member with new | old
          · obtain rfl := MuxEvent.queued.inj new
            exact ⟨line, mem_append_right _ (mem_singleton.mpr rfl)⟩
          · obtain ⟨bytes, listed⟩ := (kept.queued other).mpr old
            exact ⟨bytes, mem_append_left _ listed⟩
      · rcases mem_append.mp member with old | new
        · exact kept.whole out old
        · rw [mem_singleton.mp new]
          exact whole
    · exact refused
  · exact kept

theorem OutKept.takeLine : OutKept (muxStep R s .takeLine) := by
  simp only [muxStep]
  split
  · rename_i line rest idle queue
    split
    · refine { kept with flow := ?_ }
      have flow := kept.flow
      rw [idle, queue, append_nil, flatMap_cons, ← append_assoc] at flow
      exact flow
    · exact kept
  · exact kept

theorem OutKept.write (count : Nat) : OutKept (muxStep R s (.write count)) := by
  simp only [muxStep]
  split
  · refine { kept with flow := ?_ }
    show s.wire ++ s.writing.take count ++ s.writing.drop count ++ _ = _
    rw [append_assoc s.wire, take_append_drop]
    exact kept.flow
  · exact kept

theorem OutKept.step (move : MuxMove) : OutKept (muxStep R s move) := by
  -- a move of one call, or of the loop, leaves the queue and the relay alone
  have edited : ∀ {s' : Mux} {call : Nat} {c d : KernelCall}, s.calls call = some c →
      s'.calls = Function.update s.calls call (some d) → d.line = c.line →
      s'.wire = s.wire ∧ s'.writing = s.writing ∧ s'.queue = s.queue ∧ s'.put = s.put ∧
        s'.relayLine = s.relayLine ∧ s'.relayReady = s.relayReady ∧ s'.suOpen = s.suOpen →
      (s'.log = s.log ∨ ∃ event, s'.log = event :: s.log ∧ ∀ other, event ≠ .queued other) → OutKept s' := by
    intro s' call c d found calls line same log
    refine kept.keep same (calls ▸ kept.callLines (line ▸ kept.calls call c found)) fun other => ?_
    rcases log with same | ⟨event, same, plain⟩
    · rw [same]
    · rw [same]
      exact ⟨fun member => (mem_cons.mp member).resolve_left (plain other).symm, mem_cons_of_mem _⟩
  have noted : ∀ {s' : Mux}, s'.calls = s.calls →
      s'.wire = s.wire ∧ s'.writing = s.writing ∧ s'.queue = s.queue ∧ s'.put = s.put ∧
        s'.relayLine = s.relayLine ∧ s'.relayReady = s.relayReady ∧ s'.suOpen = s.suOpen →
      (s'.log = s.log ∨ ∃ event, s'.log = event :: s.log ∧ ∀ other, event ≠ .queued other) → OutKept s' := by
    intro s' calls same log
    refine kept.keep same (calls ▸ kept.calls) fun other => ?_
    rcases log with same | ⟨event, same, plain⟩
    · rw [same]
    · rw [same]
      exact ⟨fun member => (mem_cons.mp member).resolve_left (plain other).symm, mem_cons_of_mem _⟩
  cases move with
  | call method params plain =>
    refine kept.keep ⟨rfl, rfl, rfl, rfl, rfl, rfl, rfl⟩
      (kept.callLines (wholeLine_callLine _ method plain)) fun other => ?_
    exact ⟨fun member => (mem_cons.mp member).resolve_left (fun same => by cases same), mem_cons_of_mem _⟩
  | enqueue call permit => exact kept.enqueue R call permit
  | wake call =>
    simp only [muxStep]
    split
    · rename_i found
      exact edited found rfl rfl ⟨rfl, rfl, rfl, rfl, rfl, rfl, rfl⟩ (.inl rfl)
    · rename_i found
      split
      · exact edited found rfl rfl ⟨rfl, rfl, rfl, rfl, rfl, rfl, rfl⟩ (.inl rfl)
      · exact kept
    · exact kept
  | elapse call =>
    simp only [muxStep]
    split
    · rename_i found
      exact edited found rfl rfl ⟨rfl, rfl, rfl, rfl, rfl, rfl, rfl⟩ (.inl rfl)
    · exact kept
  | cancel call permit =>
    simp only [muxStep]
    split
    · rename_i id line slot found
      have moved : OutKept (s.setCall call ⟨id, line, .leaving (some (.error .timeout)), slot⟩) :=
        edited found rfl rfl ⟨rfl, rfl, rfl, rfl, rfl, rfl, rfl⟩ (.inl rfl)
      split
      · exact moved
      split
      · exact moved.push (fun _ _ same => by cases same) (wholeLine_cancelLine id)
      · exact { moved with }
    · exact kept
  | drop call =>
    simp only [muxStep]
    split
    · rename_i found
      exact edited found rfl rfl ⟨rfl, rfl, rfl, rfl, rfl, rfl, rfl⟩ (.inl rfl)
    · exact kept
  | dropGuard call =>
    simp only [muxStep]
    split
    · rename_i found
      split
      · exact edited found rfl rfl ⟨rfl, rfl, rfl, rfl, rfl, rfl, rfl⟩ (.inr ⟨_, rfl, fun _ same => by cases same⟩)
      · exact edited found rfl rfl ⟨rfl, rfl, rfl, rfl, rfl, rfl, rfl⟩ (.inr ⟨_, rfl, fun _ same => by cases same⟩)
    · exact kept
  | close => exact noted rfl ⟨rfl, rfl, rfl, rfl, rfl, rfl, rfl⟩ (.inr ⟨_, rfl, fun _ same => by cases same⟩)
  | enqueueRaw bytes permit =>
    simp only [muxStep]
    split
    · exact kept.push (fun _ _ same => by cases same) trivial
    · exact kept
  | arrive frame => exact { kept with }
  | route =>
    simp only [muxStep, Mux.routeResponse]
    repeat' split
    all_goals first
      | exact { kept with }
      | exact noted rfl ⟨rfl, rfl, rfl, rfl, rfl, rfl, rfl⟩ (.inr ⟨_, rfl, fun _ same => by cases same⟩)
  | hand =>
    simp only [muxStep]
    split
    · split
      · rename_i found
        exact edited found rfl rfl ⟨rfl, rfl, rfl, rfl, rfl, rfl, rfl⟩ (.inr ⟨_, rfl, fun _ same => by cases same⟩)
      · exact noted rfl ⟨rfl, rfl, rfl, rfl, rfl, rfl, rfl⟩ (.inr ⟨_, rfl, fun _ same => by cases same⟩)
    · exact kept
  | pipe count =>
    simp only [muxStep]
    split
    · exact { kept with }
    · exact kept
  | endLoop =>
    simp only [muxStep]
    split
    · exact kept
    · exact { kept with }
  | suWrite bytes =>
    simp only [muxStep]
    split
    · exact { kept with }
    · exact kept
  | suEnd => exact kept.suEnd
  | relayRead count => exact kept.relayRead R count
  | relaySend => exact kept.relaySend R
  | takeLine => exact kept.takeLine R
  | write count => exact kept.write R count
  | stopWriter => exact { kept with }

end

end

end Out

def ReadsAs : List (List UInt8) → List Frame → Prop
  | pieces, [] => pieces.flatten = []
  | pieces, frame :: rest => ∃ pieces', readFrame pieces = .ok (frame, pieces') ∧ ReadsAs pieces' rest

theorem readFrame_line {pieces rest : List (List UInt8)} {frame : Frame}
    (read : Lines.scan Json.newline maxFrameBytes [] pieces = .line frame.bytes rest) :
    readFrame pieces = .ok (frame, rest) := by
  unfold readFrame
  split
  · rename_i found
    rw [read] at found
    obtain ⟨rfl, rfl⟩ := Lines.Scan.line.inj found
    rfl
  · rename_i found
    cases read.symm.trans found
  · rename_i found
    cases read.symm.trans found

theorem readsAs_of_flatten (frames : List Frame) {pieces : List (List UInt8)}
    (stream : pieces.flatten = frames.flatMap fun frame => frame.bytes ++ [Json.newline]) : ReadsAs pieces frames := by
  induction frames generalizing pieces with
  | nil => exact stream
  | cons frame rest ih =>
    rw [flatMap_cons, append_assoc, singleton_append] at stream
    obtain ⟨pieces', read, behind⟩ := Lines.scan_line frame.oneLine frame.short not_mem_nil
      (show [] ++ pieces.flatten = _ from stream)
    exact ⟨pieces', readFrame_line read, ih behind⟩

structure Multiplexed (R : JsonReader) (s : Mux) : Prop where
  forwarded : ∀ n frame, s.arrived[n]? = some frame →
    (.forwarded n ∈ s.log ↔ n < s.routed ∧ frame.forwardable R = true)
  consumed : ∀ n frame, s.arrived[n]? = some frame → n < s.routed → frame.forwardable R = false →
    (∀ call fields, s.phase ≠ .handing n call fields) →
    (∃ call fields, .took n call fields ∈ s.log) ∨ .stray n ∈ s.log ∨ ∃ call, .missed n call ∈ s.log
  once : ∀ later event earlier, s.log = later ++ event :: earlier → FrameRight earlier event
  /-- The nested connection is written exactly the forwarded frames, in the order they came. -/
  inOrder : s.piped <+: pipeOf R (s.arrived.take s.routed)
  read : s.phase.Left [] → s.phase ≠ .ended → ∀ pieces : List (List UInt8), pieces.flatten = s.piped →
    ReadsAs pieces ((s.arrived.take s.routed).filter fun frame => frame.forwardable R)
  answers : ∀ n call fields, .took n call fields ∈ s.log → Answers R s n call fields
  calls : ∀ later event earlier, s.log = later ++ event :: earlier → CallRight earlier event
  queued : ∀ call, (∃ bytes, .call call bytes ∈ s.put) ↔ .queued call ∈ s.log
  entries : ∀ entry ∈ s.pending.rows, (∀ result, .returned entry.call result ∉ s.log) ∧ .dropped entry.call ∉ s.log
  counted : s.strayResponses = s.log.countP MuxEvent.isStray % 2 ^ 64
  /-- The module reads the lines of the queue one after the other. -/
  wire : s.wire <+: s.put.flatMap OutLine.bytes
  whole : ∀ line ∈ s.put, line.Whole s.suOpen

section Law
variable {R : JsonReader} {s : Mux}

theorem forwarded_iff (routes : RouteKept R s) {n : Nat} {frame : Frame} (found : s.arrived[n]? = some frame) :
    .forwarded n ∈ s.log ↔ n < s.routed ∧ frame.forwardable R = true := by
  constructor
  · intro member
    obtain ⟨other, found', kind⟩ := routes.kinds _ member n rfl
    obtain rfl := Option.some.inj (found.symm.trans found')
    exact ⟨((routes.settled n).mp ⟨_, member, rfl⟩).1, kind.mp rfl⟩
  · rintro ⟨small, forward⟩
    have handless : ∀ call fields, s.phase ≠ .handing n call fields := by
      intro call fields hand
      obtain ⟨-, other, members, id, found', response, -⟩ := routes.handing n call fields hand
      obtain rfl := Option.some.inj (found.symm.trans found')
      simp [Frame.forwardable, response] at forward
    obtain ⟨event, member, of⟩ := (routes.settled n).mpr ⟨small, handless⟩
    obtain ⟨other, found', kind⟩ := routes.kinds event member n of
    obtain rfl := Option.some.inj (found.symm.trans found')
    exact kind.mpr forward ▸ member

theorem consumed_cases (routes : RouteKept R s) {n : Nat} {frame : Frame} (found : s.arrived[n]? = some frame)
    (small : n < s.routed) (response : frame.forwardable R = false)
    (handless : ∀ call fields, s.phase ≠ .handing n call fields) :
    (∃ call fields, .took n call fields ∈ s.log) ∨ .stray n ∈ s.log ∨ ∃ call, .missed n call ∈ s.log := by
  obtain ⟨event, member, of⟩ := (routes.settled n).mpr ⟨small, handless⟩
  cases event with
  | took m call fields =>
    obtain rfl := Option.some.inj of
    exact .inl ⟨call, fields, member⟩
  | stray m =>
    obtain rfl := Option.some.inj of
    exact .inr (.inl member)
  | missed m call =>
    obtain rfl := Option.some.inj of
    exact .inr (.inr ⟨call, member⟩)
  | forwarded m =>
    obtain rfl := Option.some.inj of
    rw [((forwarded_iff routes found).mp member).2] at response
    cases response
  | begun _ _ => cases of
  | queued _ => cases of
  | closed => cases of
  | returned _ _ => cases of
  | dropped _ => cases of

theorem settled_once {log : List MuxEvent} (once : Justified FrameRight log) {one other : MuxEvent} {n : Nat}
    (member : one ∈ log) (of : one.frame? = some n) (member' : other ∈ log) (of' : other.frame? = some n) :
    one = other := by
  induction log with
  | nil => cases member
  | cons event earlier ih =>
    rcases mem_cons.mp member with rfl | before
    · rcases mem_cons.mp member' with rfl | before'
      · rfl
      · exact absurd of' (once.1 n of other before')
    · rcases mem_cons.mp member' with rfl | before'
      · exact absurd of (once.1 n of' one before)
      · exact ih once.2 before before'

theorem multiplexed (calls : CallsKept s) (routes : RouteKept R s) (out : OutKept s) : Multiplexed R s where
  forwarded n frame found := forwarded_iff routes found
  consumed n frame found small response handless := consumed_cases routes found small response handless
  once later event earlier split := (split ▸ routes.justified).right
  inOrder := by
    obtain ⟨left_, whole, -⟩ := routes.piped
    exact ⟨left_, whole⟩
  read done going pieces stream := by
    obtain ⟨left_, whole, phase⟩ := routes.piped
    have written : left_ = [] := by
      cases at_ : s.phase with
      | taking =>
        rw [at_] at phase
        exact phase
      | handing =>
        rw [at_] at phase
        exact phase
      | piping rest =>
        rw [at_] at phase done
        exact phase.trans done.symm
      | ended => exact absurd at_ going
    rw [written, append_nil] at whole
    exact readsAs_of_flatten _ (stream.trans whole)
  answers := routes.took
  calls later event earlier split := (split ▸ calls.justified).right
  queued := out.queued
  entries entry member := by
    obtain ⟨c, found, -, -, finished, -⟩ := calls.pending entry member
    exact (calls.ok _ c found).going finished
  counted := routes.stray
  wire := ⟨s.writing ++ s.queue.flatMap OutLine.bytes, by rw [← append_assoc]; exact out.flow⟩
  whole := out.whole

def Met (s : Mux) : MuxMove → Prop
  | .hand => ∀ n call fields, s.phase = .handing n call fields → ∃ c, s.calls call = some c ∧ c.phase = .waiting
  | _ => True

theorem log_step (R : JsonReader) (s : Mux) (move : MuxMove) :
    ((muxStep R s move).log = s.log ∧ Met s move) ∨
      ∃ event, (muxStep R s move).log = event :: s.log ∧ ((∃ n call, event = .missed n call) ↔ ¬ Met s move) := by
  have plain : ∀ {event : MuxEvent}, (∀ n call, event ≠ .missed n call) →
      ((∃ n call, event = .missed n call) ↔ ¬ True) := by
    intro event other
    refine iff_of_false ?_ (not_not_intro trivial)
    rintro ⟨n, call, same⟩
    exact other n call same
  cases move with
  | hand =>
    simp only [muxStep]
    split
    · rename_i n call fields phase
      split
      · rename_i found
        refine .inr ⟨_, rfl, iff_of_false (by rintro ⟨n, call, same⟩; cases same) (not_not_intro ?_)⟩
        intro m other g same
        obtain ⟨-, rfl, -⟩ := MuxPhase.handing.inj (phase.symm.trans same)
        exact ⟨_, found, rfl⟩
      · rename_i gone
        refine .inr ⟨_, rfl, iff_of_true ⟨n, call, rfl⟩ fun met => ?_⟩
        obtain ⟨⟨id, line, at_, slot⟩, found, rfl⟩ := met n call fields phase
        exact gone id line slot found
    · rename_i other
      exact .inl ⟨rfl, fun n call fields same => absurd same (other n call fields)⟩
  | _ =>
    simp only [muxStep, Mux.routeResponse]
    repeat' split
    all_goals first
      | exact .inl ⟨rfl, trivial⟩
      | exact .inl ⟨trivial, trivial⟩
      | exact .inr ⟨_, rfl, plain fun _ _ same => by cases same⟩

theorem missed_step (R : JsonReader) (s : Mux) (move : MuxMove) :
    (∃ n call, .missed n call ∈ (muxStep R s move).log) ↔ (∃ n call, .missed n call ∈ s.log) ∨ ¬ Met s move := by
  rcases log_step R s move with ⟨same, met⟩ | ⟨event, same, missed⟩
  · rw [same]
    exact ⟨.inl, fun either => either.resolve_right (not_not_intro met)⟩
  rw [same, ← missed]
  constructor
  · rintro ⟨n, call, member⟩
    rcases mem_cons.mp member with here | earlier
    · exact .inr ⟨n, call, here.symm⟩
    · exact .inl ⟨n, call, earlier⟩
  · rintro (⟨n, call, earlier⟩ | ⟨n, call, rfl⟩)
    · exact ⟨n, call, mem_cons_of_mem _ earlier⟩
    · exact ⟨n, call, mem_cons_self⟩

theorem settled_counted_iff (routes : RouteKept R s) :
    (∀ n frame, s.arrived[n]? = some frame → n < s.routed → frame.forwardable R = false →
      (∀ call fields, s.phase ≠ .handing n call fields) →
        (∃ call fields, .took n call fields ∈ s.log) ∨ .stray n ∈ s.log) ↔
      ¬ ∃ n call, .missed n call ∈ s.log := by
  constructor
  · rintro counted ⟨n, call, member⟩
    obtain ⟨frame, found, kind⟩ := routes.kinds _ member n rfl
    obtain ⟨small, handless⟩ := (routes.settled n).mp ⟨_, member, rfl⟩
    have response : frame.forwardable R = false := eq_false_of_ne_true fun forward => nomatch kind.mpr forward
    rcases counted n frame found small response handless with ⟨other, fields, took⟩ | stray
    · exact nomatch settled_once routes.justified member rfl took rfl
    · exact nomatch settled_once routes.justified member rfl stray rfl
  · intro none n frame found small response handless
    rcases consumed_cases routes found small response handless with took | stray | ⟨call, missed⟩
    · exact .inl took
    · exact .inr stray
    · exact absurd ⟨n, call, missed⟩ none

end Law

theorem mux_kept_run (R : JsonReader) (moves : List MuxMove) :
    let s := run (muxStep R) moves .start
    CallsKept s ∧ RouteKept R s ∧ OutKept s :=
  run_invariant (muxStep R) (fun _ => True) (fun s => CallsKept s ∧ RouteKept R s ∧ OutKept s)
    (fun _ move _ kept => ⟨kept.1.step R move, kept.2.1.step kept.1 move, kept.2.2.step R move⟩)
    (fun _ _ => trivial) ⟨.start, .start, .start⟩

def answerBytes : List UInt8 := Bytes.ofText "\x7b\"id\":\"k0\",\"result\":\x7b\x7d\x7d"

def answerFrame : Frame := ⟨answerBytes, by decide +kernel, by decide +kernel⟩

def answerReader : JsonReader where
  parse bytes :=
    if bytes = answerBytes then .ok (.obj [("id", .str "k0"), ("result", .obj [])])
    else .error "expected value at line 1 column 1"
  repeats _ := .obj [("id", .str "k0"), ("result", .obj [])]

/-- The answer comes when the call's time is up and its entry is still pending. -/
def lateMoves : List MuxMove :=
  [.call "_a24/command/invoke" (.obj []) trivial, .enqueue 0 true, .elapse 0, .arrive answerFrame, .route, .hand]

def MuxEvent.placed : MuxEvent → Bool
  | .took _ _ _ | .stray _ => true
  | _ => false

def MuxPhase.isHanding : MuxPhase → Bool
  | .handing _ _ _ => true
  | _ => false

end Agent24.Os
