import Agent24.Uploads.Chunks
import Agent24.Library.Outcome

/-! Chunked uploads keep what they count, over every order of appends, failures and crashes. -/

set_option autoImplicit false
namespace Agent24.Uploads
open Library Documents

/-- Chunk rows that lie end to end from one offset to another. -/
inductive Tiled : Nat → List Chunk → Nat → Prop
  | done (offset : Nat) : Tiled offset [] offset
  | chunk {c : Chunk} {rest : List Chunk} {stop : Nat} (some_ : 1 ≤ c.size)
      (on : Tiled (c.offset + c.size) rest stop) :
    Tiled c.offset (c :: rest) stop

section
variable {start stop : Nat} {chunks : List Chunk}

theorem Tiled.le (tiled : Tiled start chunks stop) : start ≤ stop := by
  induction tiled with
  | done => exact le_rfl
  | chunk _ _ ih => exact (Nat.le_add_right ..).trans ih

theorem Tiled.concat {c : Chunk} (tiled : Tiled start chunks c.offset) (some_ : 1 ≤ c.size) :
    Tiled start (chunks ++ [c]) (c.offset + c.size) := by
  generalize ends : c.offset = stop at tiled
  induction tiled with
  | done offset =>
    subst ends
    exact .chunk some_ (.done _)
  | chunk whole _ ih => exact .chunk whole (ih ends)

theorem Tiled.endOf_eq (tiled : Tiled start chunks stop) :
    chunks.foldl (fun n c => max n (c.offset + c.size)) start = stop := by
  induction tiled with
  | done => rfl
  | @chunk c rest stop _ _ ih =>
    rw [List.foldl_cons, max_eq_right (Nat.le_add_right ..)]
    exact ih

theorem Tiled.within (tiled : Tiled start chunks stop) : ∀ c ∈ chunks, start ≤ c.offset ∧ c.offset < stop := by
  induction tiled with
  | done => exact fun c member => absurd member List.not_mem_nil
  | chunk some_ on ih =>
    intro c' member
    rcases List.mem_cons.mp member with rfl | later
    · exact ⟨le_rfl, by have := on.le; omega⟩
    · obtain ⟨from_, upTo⟩ := ih c' later
      exact ⟨by omega, upTo⟩

theorem Tiled.find {c : Chunk} (tiled : Tiled start chunks stop) (member : c ∈ chunks) :
    (chunks.find? fun c' => c'.offset == c.offset) = some c := by
  induction tiled with
  | done => cases member
  | @chunk first rest stop some_ on ih =>
    rcases List.mem_cons.mp member with rfl | later
    · exact List.find?_cons_of_pos (beq_self_eq_true _)
    have apart := (on.within c later).1
    have other : ¬ (first.offset == c.offset) = true := by
      rw [beq_iff_eq]
      omega
    exact (List.find?_cons_of_neg (p := fun c' : Chunk => c'.offset == c.offset) other).trans (ih later)

end

structure Sound (address : List UInt8 → String) (e : Entry) : Prop where
  tiles : Tiled 0 e.chunks e.received
  /-- Each row is of one body: its size and its hash. -/
  records : List.Forall₂ (fun c body => c.size = body.length ∧ c.sha256 = address body) e.chunks e.bodies
  size : e.bodies.flatten.length = e.received
  /-- The file begins with the bodies, also after a crash. -/
  bytes : e.file.Holds e.bodies.flatten
  bound : ∀ r, e.row = some r → 1 ≤ r.totalSize ∧ r.received ≤ r.totalSize
  complete : ∀ r, e.row = some r → r.status ≠ .expired →
    ((r.status = .complete ∨ r.status = .imported) ↔ r.received = r.totalSize)

variable {address : List UInt8 → String} {now : Nat} {e e' : Entry} {a : Attempt} {r : Row}

theorem received_of (row : e.row = some r) : e.received = r.received := by rw [Entry.received, row]; rfl

theorem Sound.counted_eq (sound : Sound address e) : e.counted = e.bodies.flatten := by
  rw [Entry.counted, ← sound.size]
  exact sound.bytes.take_eq

/-! ## What may change -/

def Entry.append (e : Entry) (r : Row) (now : Nat) (body : List UInt8) (claimed : String) : Entry :=
  { e with
    row := some { r with
      received := r.received + body.length
      lastChunkAt := some now
      status := if r.received + body.length = r.totalSize then .complete else r.status }
    chunks := e.chunks ++ [⟨r.received, body.length, claimed⟩]
    bodies := e.bodies ++ [body] }

inductive Change (address : List UInt8 → String) (now : Nat) (e : Entry) : Entry → Prop
  /-- The rows stay, and the file goes on holding what it held of the bytes they count. -/
  | kept (file : DurableFile UInt8)
    (holds : ∀ kept, kept.length ≤ e.received → e.file.Holds kept →
        file.Holds kept) : Change address now e { e with file }
  | created {totalSize : Nat} {sha256 : String} (new : e.row = none) (some_ : 1 ≤ totalSize) :
    Change address now e { e with row := some ⟨totalSize, sha256, 0, .receiving, now, none⟩ }
  | expired {r : Row} (row : e.row = some r) (live : r.live = true) (stale : r.stale now = true) :
    Change address now e { e with row := some { r with status := .expired } }
  | imported {r : Row} (row : e.row = some r) (complete : r.status = .complete) (fresh : r.stale now = false) :
    Change address now e { e with row := some { r with status := .imported } }
  /-- The transaction that counts a chunk at the bytes received so far, of a body that is on the disk. -/
  | appended {r : Row} {body : List UInt8} {claimed : String} (row : e.row = some r)
      (receiving : r.status = .receiving)
    (some_ : 1 ≤ body.length) (fits : r.received + body.length ≤ r.totalSize) (hash : address body = claimed)
    (written : e.file.Holds (e.bodies.flatten ++ body)) : Change address now e (e.append r now body claimed)

theorem Change.refl (e : Entry) : Change address now e e := .kept e.file fun _ _ holds => holds

theorem Sound.kept (sound : Sound address e) {file : DurableFile UInt8} (holds : file.Holds e.bodies.flatten) :
    Sound address { e with file } :=
  ⟨sound.tiles, sound.records, sound.size, holds, sound.bound, sound.complete⟩

/-- A change of the row that keeps its size and what it received keeps the entry right if its status is. -/
theorem Sound.restatus (sound : Sound address e) {r' : Row} (received : r'.received = e.received)
    (bound : 1 ≤ r'.totalSize ∧ r'.received ≤ r'.totalSize)
    (complete : r'.status ≠ .expired → ((r'.status = .complete ∨ r'.status = .imported) ↔
        r'.received = r'.totalSize)) :
    Sound address { e with row := some r' } where
  tiles := by
    rw [received_of (e := { e with row := some r' }) rfl, received]
    exact sound.tiles
  records := sound.records
  size := by
    rw [received_of (e := { e with row := some r' }) rfl, received]
    exact sound.size
  bytes := sound.bytes
  bound r row := by
    obtain rfl := Option.some.inj row
    exact bound
  complete r row := by
    obtain rfl := Option.some.inj row
    exact complete

theorem Change.sound (change : Change address now e e') (sound : Sound address e) : Sound address e' := by
  cases change with
  | kept file holds => exact sound.kept (holds _ sound.size.le sound.bytes)
  | @created totalSize sha256 new some_ =>
    have none_ : e.received = 0 := by rw [Entry.received, new]; rfl
    refine sound.restatus none_.symm ⟨some_, Nat.zero_le _⟩ fun _ => ?_
    constructor
    · rintro (other | other) <;> cases other
    · intro zero
      have : 0 = totalSize := zero
      omega
  | @expired r row live stale =>
    exact sound.restatus (received_of row).symm (sound.bound r row) fun other => absurd rfl other
  | @imported r row complete fresh =>
    have whole := (sound.complete r row (by rw [complete]; decide)).mp (.inl complete)
    exact sound.restatus (received_of row).symm (sound.bound r row) fun _ => ⟨fun _ => whole, fun _ => .inr rfl⟩
  | @appended r body claimed row receiving some_ fits hash written =>
    have at_ := received_of row
    have size : (e.bodies ++ [body]).flatten = e.bodies.flatten ++ body := by
      rw [List.flatten_append, List.flatten_singleton]
    constructor
    · have tiles := sound.tiles
      rw [at_] at tiles
      exact Tiled.concat (c := ⟨r.received, body.length, claimed⟩) tiles some_
    · exact List.rel_append sound.records (.cons ⟨rfl, hash.symm⟩ .nil)
    · show (e.bodies ++ [body]).flatten.length = r.received + body.length
      rw [size, List.length_append, sound.size, at_]
    · show e.file.Holds (e.bodies ++ [body]).flatten
      rw [size]
      exact written
    · intro r' row'
      obtain rfl := Option.some.inj row'
      exact ⟨(sound.bound r row).1, fits⟩
    · intro r' row' _
      obtain rfl := Option.some.inj row'
      by_cases last : r.received + body.length = r.totalSize
      · exact ⟨fun _ => last, fun _ => .inl (if_pos last)⟩
      refine ⟨fun over_ => ?_, fun whole => absurd whole last⟩
      simp only [if_neg last, receiving] at over_
      rcases over_ with other | other <;> cases other

/-! ## The turn's attempt -/

def Row.facts (r : Row) : Nat × String × Nat × Nat × Option Nat :=
  (r.totalSize, r.sha256, r.received, r.createdAt, r.lastChunkAt)

/-- Between two moments, nothing was counted; the status may have moved. -/
structure Same (e e' : Entry) : Prop where
  chunks : e'.chunks = e.chunks
  bodies : e'.bodies = e.bodies
  received : e'.received = e.received
  row : ∀ r, e.row = some r → ∃ r', e'.row = some r' ∧ r'.facts = r.facts

theorem Same.refl (e : Entry) : Same e e := ⟨rfl, rfl, rfl, fun r row => ⟨r, row, rfl⟩⟩

theorem Same.trans {e'' : Entry} (first : Same e e') (second : Same e' e'') : Same e e'' where
  chunks := second.chunks.trans first.chunks
  bodies := second.bodies.trans first.bodies
  received := second.received.trans first.received
  row r row := by
    obtain ⟨r', row', facts⟩ := first.row r row
    obtain ⟨r'', row'', facts'⟩ := second.row r' row'
    exact ⟨r'', row'', facts'.trans facts⟩

theorem Same.file (e : Entry) (file : DurableFile UInt8) : Same e { e with file } :=
  ⟨rfl, rfl, rfl, fun r row => ⟨r, row, rfl⟩⟩

theorem Same.restatus (row : e.row = some r) (status : Status) : Same e { e with row := some { r with status } } where
  chunks := rfl
  bodies := rfl
  received := (received_of row).symm
  row r' row' := by
    obtain rfl := Option.some.inj (row.symm.trans row')
    exact ⟨_, rfl, rfl⟩

structure Added (address : List UInt8 → String) (a : Attempt) (left : Entry) : Prop where
  start : a.found.received = a.offset
  received : left.received = a.offset + a.body.length
  chunks : left.chunks = a.found.chunks ++ [⟨a.offset, a.body.length, a.claimed⟩]
  bodies : left.bodies = a.found.bodies ++ [a.body]
  hash : address a.body = a.claimed

theorem Added.same (added : Added address a e) (same : Same e e') : Added address a e' :=
  ⟨added.start, same.received.trans added.received, same.chunks.trans added.chunks,
    same.bodies.trans added.bodies, added.hash⟩

section
variable (address : List UInt8 → String)

structure Ready (offset : Nat) (body : List UInt8) (claimed : String) (e : Entry) (r : Row) : Prop where
  row : e.row = some r
  receiving : r.status = .receiving
  next : r.received = offset
  fits : offset + body.length ≤ r.totalSize
  hash : address body = claimed

def Stage.Ok (now : Nat) (a : Attempt) (e : Entry) : Stage → Prop
  | .selecting => True
  | .expiring => ∃ r, e.row = some r ∧ r.live = true ∧ r.stale now = true
  | .replaying received => received = e.received ∧ a.offset < e.received
  | .refetching => a.offset < e.received ∧ ∃ c ∈ e.chunks, c.offset = a.offset ∧ c.sha256 = a.claimed
  | .opening | .measuring => ∃ r, Ready address a.offset a.body a.claimed e r
  | .cutting => (∃ r, Ready address a.offset a.body a.claimed e r) ∧ a.offset ≤ e.file.data.length
  | .pouring => (∃ r, Ready address a.offset a.body a.claimed e r) ∧ e.file.data.length = a.offset
  | .syncing => (∃ r, Ready address a.offset a.body a.claimed e r) ∧ e.file.data = e.bodies.flatten ++ a.body
  | .linking _ =>
    (∃ r, Ready address a.offset a.body a.claimed e r) ∧ e.file.data = e.bodies.flatten ++ a.body ∧
        e.file.synced = e.file.data.length
  | .committing => (∃ r, Ready address a.offset a.body a.claimed e r) ∧ e.file.Holds (e.bodies.flatten ++ a.body)
  | .fetching => True

def Stage.reads : Stage → Bool
  | .selecting | .expiring | .replaying _ | .refetching => true
  | _ => false

structure Attempt.Ok (now : Nat) (a : Attempt) (e : Entry) : Prop where
  body : 1 ≤ a.body.length ∧ a.body.length ≤ MAX_CHUNK
  claimed : isSha256Address a.claimed = true
  found : Sound address a.found
  since : if a.stage = .fetching then Added address a e else Same a.found e
  file : a.stage.reads = true → e.file = a.found.file
  stage : a.stage.Ok address now a e

end

inductive Settled (address : List UInt8 → String) : Done → Prop
  /-- An error, with nothing counted and the counted bytes as they were. -/
  | refused {a : Attempt} {left : Entry} {e : ApiError} (same : Same a.found left)
      (counted : left.counted = a.found.counted)
    (early : a.offset < a.found.received → left.file = a.found.file) : Settled address ⟨a, left, .error e⟩
  /-- The upload as it is, for a chunk stored before: nothing is written. -/
  | replayed {a : Attempt} {left : Entry} {r : Row} {c : Chunk} (early : a.offset < a.found.received)
    (stored : c ∈ a.found.chunks) (at_ : c.offset = a.offset) (hash : c.sha256 = a.claimed) (same : Same a.found left)
    (file : left.file = a.found.file) (row : left.row = some r) : Settled address ⟨a, left, .ok (r.upload a.uploadId)⟩
  | appended {a : Attempt} {left : Entry} {r : Row} (added : Added address a left) (row : left.row = some r) :
    Settled address ⟨a, left, .ok (r.upload a.uploadId)⟩
  /-- The chunk was counted, and its sender was told of an error. -/
  | lost {a : Attempt} {left : Entry} {e : ApiError} (added : Added address a left) :
    Settled address ⟨a, left, .error e⟩

/-! ## One operation -/

theorem count_ready (ready : Ready address a.offset a.body a.claimed e r) (sound : Sound address e)
    (body : 1 ≤ a.body.length ∧ a.body.length ≤ MAX_CHUNK) (claimed : isSha256Address a.claimed = true) :
    count now a e = some (e.append r now a.body a.claimed) := by
  have at_ : e.received = a.offset := (received_of ready.row).trans ready.next
  have tiles := sound.tiles
  rw [at_] at tiles
  have fresh : e.chunks.all (fun c' => c'.offset != a.offset) = true := by
    rw [List.all_eq_true]
    intro c member
    exact bne_iff_ne.mpr (tiles.within c member).2.ne
  have inserted : insertChunk e ⟨a.offset, a.body.length, a.claimed⟩ a.body =
      some { e with chunks := e.chunks ++ [⟨a.offset, a.body.length, a.claimed⟩], bodies :=
          e.bodies ++ [a.body] } := by
    rw [insertChunk, if_pos]
    simp only [Bool.and_eq_true, decide_eq_true_eq]
    refine ⟨⟨⟨?_, body⟩, claimed⟩, fresh⟩
    rw [ready.row, Option.any_some]
    simp only [Bool.and_eq_true, beq_iff_eq, decide_eq_true_eq]
    exact ⟨⟨ready.receiving, ready.next⟩, ready.fits⟩
  have ends : endOf (e.chunks ++ [⟨a.offset, a.body.length, a.claimed⟩]) = a.offset + a.body.length :=
    (Tiled.concat (c := ⟨a.offset, a.body.length, a.claimed⟩) tiles body.1).endOf_eq
  rw [count, inserted, Option.bind_eq_bind, Option.bind_some, ready.row, Option.bind_eq_bind, Option.bind_some,
    updateRow]
  simp only [Option.bind_some]
  rw [if_pos, Entry.append, ready.next]
  simp only [Bool.and_eq_true, Bool.or_eq_true, decide_eq_true_eq, beq_iff_eq, Bool.not_eq_true', ends]
  refine ⟨⟨⟨?_, ready.fits⟩, ?_⟩, .inr ⟨ready.receiving, trivial⟩⟩
  · rw [ready.receiving]
    split <;> rfl
  · by_cases last : a.offset + a.body.length = r.totalSize
    · exact .inr last
    refine .inl ?_
    rw [if_neg last, ready.receiving]
    rfl

/-- An operation's outcome keeps the upload right, and the attempt or its answer. -/
structure Performed (address : List UInt8 → String) (now : Nat) (a : Attempt) (e left : Entry)
    (next : Next) : Prop where
  change : Change address now e left
  goes : ∀ stage, next = .goes stage → Attempt.Ok address now { a with stage } left
  answers : ∀ answer, next = .answers answer → Settled address ⟨a, left, answer⟩

variable {left : Entry} {stage : Stage} {offset : Nat} {claimed : String} {request : Request}

theorem Performed.of_goes (change : Change address now e left)
    (ok : Attempt.Ok address now { a with stage } left) : Performed address now a e left (.goes stage) where
  change := change
  goes _ same := by
    cases same
    exact ok
  answers _ other := by cases other

theorem Performed.of_answers {answer : Answer} (change : Change address now e left)
    (settled : Settled address ⟨a, left, answer⟩) : Performed address now a e left (.answers answer) where
  change := change
  goes _ other := by cases other
  answers _ same := by
    cases same
    exact settled

section
variable (ok : a.Ok address now e)
include ok

theorem Attempt.Ok.ready (decided : a.stage.reads = false) (open_ : a.stage ≠ .fetching) :
    ∃ r, Ready address a.offset a.body a.claimed e r := by
  have stage := ok.stage
  cases at_ : a.stage with rw [at_] at stage decided open_
  | selecting | expiring | replaying | refetching => cases decided
  | opening | measuring => exact stage
  | cutting | pouring | syncing | linking | committing => exact stage.1
  | fetching => exact absurd rfl open_

theorem Attempt.Ok.same (open_ : a.stage ≠ .fetching) : Same a.found e := by
  have since := ok.since
  rwa [if_neg open_] at since

theorem Attempt.Ok.added (counted : a.stage = .fetching) : Added address a e := by
  have since := ok.since
  rwa [if_pos counted] at since

theorem Attempt.Ok.refused {err : ApiError} (open_ : a.stage ≠ .fetching) (same : Same e left)
    (sound : Sound address left) (file : a.stage.reads = true → left.file = e.file) :
    Settled address ⟨a, left, .error err⟩ := by
  have since := (ok.same open_).trans same
  refine .refused since ?_ fun early => ?_
  · rw [sound.counted_eq, ok.found.counted_eq, since.bodies]
  · by_cases reads : a.stage.reads = true
    · exact (file reads).trans (ok.file reads)
    obtain ⟨r, ready⟩ := ok.ready (Bool.eq_false_iff.mpr reads) open_
    have at_ : e.received = a.offset := (received_of ready.row).trans ready.next
    have := (ok.same open_).received
    omega

theorem Attempt.Ok.on (open_ : a.stage ≠ .fetching) (next : stage ≠ .fetching)
    (reads : stage.reads = true → a.stage.reads = true) (holds : stage.Ok address now a e) :
    Attempt.Ok address now { a with stage } e where
  body := ok.body
  claimed := ok.claimed
  found := ok.found
  since := by
    rw [if_neg next]
    exact ok.same open_
  file early := ok.file (reads early)
  stage := by cases stage <;> exact holds

end

theorem Attempt.Ok.onFile (file : DurableFile UInt8) (ok : a.Ok address now e) (open_ : a.stage ≠ .fetching)
    (next : stage ≠ .fetching) (writes : stage.reads = false) (holds : stage.Ok address now a { e with file }) :
    Attempt.Ok address now { a with stage } { e with file } where
  body := ok.body
  claimed := ok.claimed
  found := ok.found
  since := by
    rw [if_neg next]
    exact (ok.same open_).trans (.file e file)
  file early := by
    rw [writes] at early
    cases early
  stage := by cases stage <;> exact holds

theorem Ready.file (ready : Ready address a.offset a.body a.claimed e r)
    (file : DurableFile UInt8) : Ready address a.offset a.body a.claimed { e with file } r :=
  ⟨ready.row, ready.receiving, ready.next, ready.fits, ready.hash⟩

inductive Decided (address : List UInt8 → String) (now : Nat) (a : Attempt) (e : Entry) : Next → Prop
  | refuses (err : ApiError) : Decided address now a e (.answers (.error err))
  | goes {stage : Stage} (next : stage ≠ .fetching) (file : stage = .opening ∨ stage.reads = true)
    (holds : stage.Ok address now a e) : Decided address now a e (.goes stage)

theorem decision_decided (a : Attempt) (e : Entry) : Decided address now a e (decision address now a e.row) := by
  unfold decision
  split
  · exact .refuses _
  rename_i r row
  have at_ := received_of row
  split_ifs with over_ live early beyond past hash
  · refine .goes (by simp) (.inr rfl) ⟨r, row, live, ?_⟩
    -- a live upload is not marked expired
    rcases over_ with expired | stale
    · rw [Row.live, expired] at live
      cases live
    · exact (Bool.and_eq_true_iff.mp stale).2
  · exact .refuses _
  · exact .goes (by simp) (.inr rfl) ⟨at_.symm, at_.symm ▸ early⟩
  · exact .refuses _
  · exact .refuses _
  · exact .refuses _
  · refine .goes (by simp) (.inl rfl) ⟨r, row, ?_, by omega, by omega, not_not.mp hash⟩
    by_contra other
    exact beyond (.inr other)

theorem setStatus_expired (row : e.row = some r) (live : r.live = true) (sound : Sound address e) :
    setStatus e .expired = some { e with row := some { r with status := .expired } } := by
  have forward_ : forward r.status .expired = true := by
    rw [Row.live, Bool.or_eq_true, beq_iff_eq, beq_iff_eq] at live
    rcases live with same | same <;> rw [same] <;> rfl
  rw [setStatus, row, Option.bind_some, updateRow, row, Option.bind_some, if_pos]
  simp [forward_, (sound.bound r row).2]

theorem setStatus_imported (row : e.row = some r) (complete : r.status = .complete) (sound : Sound address e) :
    setStatus e .imported = some { e with row := some { r with status := .imported } } := by
  have whole := (sound.complete r row (by rw [complete]; decide)).mp (.inl complete)
  rw [setStatus, row, Option.bind_some, updateRow, row, Option.bind_some, if_pos]
  simp [forward, complete, whole]

theorem kept_of_past {file : DurableFile UInt8} (at_ : e.received = offset)
    (holds : ∀ kept, kept.length ≤ offset → e.file.Holds kept → file.Holds kept) :
    Change address now e { e with file } :=
  .kept file fun kept within => holds kept (at_ ▸ within)

theorem Attempt.Ok.counts (ok : a.Ok address now e) (ready : Ready address a.offset a.body a.claimed e r)
    (written : e.file.Holds (e.bodies.flatten ++ a.body)) :
    Change address now e (e.append r now a.body a.claimed) :=
  .appended ready.row ready.receiving ok.body.1 (ready.next.symm ▸ ready.fits) ready.hash written

theorem Attempt.Ok.counted (ok : a.Ok address now e) (open_ : a.stage ≠ .fetching)
    (ready : Ready address a.offset a.body a.claimed e r) :
    Attempt.Ok address now { a with stage := .fetching } (e.append r now a.body a.claimed) where
  body := ok.body
  claimed := ok.claimed
  found := ok.found
  since := by
    have since := ok.same open_
    have next : e.received = a.offset := (received_of ready.row).trans ready.next
    rw [if_pos rfl]
    refine ⟨since.received.symm.trans next, ?_, ?_, ?_, ready.hash⟩
    · show r.received + a.body.length = a.offset + a.body.length
      rw [ready.next]
    · show e.chunks ++ [_] = a.found.chunks ++ [_]
      rw [since.chunks, ready.next]
    · show e.bodies ++ [_] = a.found.bodies ++ [_]
      rw [since.bodies]
  file early := by cases early
  stage := trivial

theorem Attempt.Ok.succeed (ok : a.Ok address now e) (sound : Sound address e) :
    Performed address now a e (succeed address now a e).1 (succeed address now a e).2 := by
  have holds := ok.stage
  unfold Uploads.succeed
  cases at_ : a.stage with rw [at_] at holds
  | selecting =>
    have open_ : a.stage ≠ .fetching := by simp [at_]
    have decided : Decided address now a e (decision address now a e.row) := decision_decided a e
    simp only
    generalize decision address now a e.row = next at decided
    cases decided with
    | refuses err => exact .of_answers (.refl e) (ok.refused open_ (.refl e) sound fun _ => rfl)
    | goes next file holds => exact .of_goes (.refl e) (ok.on open_ next (fun _ => by rw [at_]; rfl) holds)
  | expiring =>
    have open_ : a.stage ≠ .fetching := by simp [at_]
    obtain ⟨r, row, live, stale⟩ := holds
    have change : Change address now e _ := .expired row live stale
    rw [setStatus_expired row live sound]
    exact .of_answers change (ok.refused open_ (.restatus row .expired) (change.sound sound) fun _ => rfl)
  | replaying received =>
    have open_ : a.stage ≠ .fetching := by simp [at_]
    obtain ⟨same, early⟩ := holds
    simp only
    split
    · rename_i found
      refine .of_goes (.refl e) (ok.on open_ (by simp) (fun _ => by rw [at_]; rfl) ⟨early, ?_⟩)
      obtain ⟨c, found, hash⟩ := (Option.any_eq_true ..).mp found
      have offset : (c.offset == a.offset) = true := List.find?_some (p :=
          fun c' : Chunk => c'.offset == a.offset) found
      exact ⟨c, List.mem_of_find?_eq_some found, beq_iff_eq.mp offset, beq_iff_eq.mp hash⟩
    · exact .of_answers (.refl e) (ok.refused open_ (.refl e) sound fun _ => rfl)
  | refetching =>
    have open_ : a.stage ≠ .fetching := by simp [at_]
    obtain ⟨early, c, stored, offset, hash⟩ := holds
    have since := ok.same open_
    refine .of_answers (.refl e) ?_
    show Settled address ⟨a, e, fetch a.uploadId e⟩
    rw [since.received] at early
    rw [since.chunks] at stored
    cases row : e.row with
    | some r =>
      rw [fetch, row]
      exact .replayed early stored offset hash since (ok.file (by rw [at_]; rfl)) row
    | none =>
      rw [fetch, row]
      exact ok.refused open_ (.refl e) sound fun _ => rfl
  | opening =>
    have open_ : a.stage ≠ .fetching := by simp [at_]
    exact .of_goes (.refl e) (ok.on open_ (by simp) (fun other => by cases other) holds)
  | measuring =>
    have open_ : a.stage ≠ .fetching := by simp [at_]
    simp only
    split
    · exact .of_answers (.refl e) (ok.refused open_ (.refl e) sound fun _ => rfl)
    · exact .of_goes (.refl e) (ok.on open_ (by simp) (fun other => by cases other) ⟨holds, by omega⟩)
  | cutting =>
    have open_ : a.stage ≠ .fetching := by simp [at_]
    obtain ⟨⟨r, ready⟩, reaches⟩ := holds
    have next : e.received = a.offset := (received_of ready.row).trans ready.next
    refine .of_goes (kept_of_past next fun kept within holds => holds.cut within) ?_
    exact ok.onFile _ open_ (by simp) rfl ⟨⟨r, ready.file _⟩, DurableFile.length_cut reaches⟩
  | pouring =>
    have open_ : a.stage ≠ .fetching := by simp [at_]
    obtain ⟨⟨r, ready⟩, ends⟩ := holds
    have next : e.received = a.offset := (received_of ready.row).trans ready.next
    refine .of_goes (kept_of_past next fun kept within holds => holds.write within) ?_
    refine ok.onFile _ open_ (by simp) rfl ⟨⟨r, ready.file _⟩, ?_⟩
    have all : e.file.data = e.bodies.flatten :=
      (sound.bytes.begins.eq_of_length (by rw [sound.size, next, ends])).symm
    exact (DurableFile.data_write_end ends).trans (by rw [all])
  | syncing =>
    have open_ : a.stage ≠ .fetching := by simp [at_]
    obtain ⟨⟨r, ready⟩, all⟩ := holds
    refine .of_goes (.kept _ fun kept _ holds => holds.sync) ?_
    exact ok.onFile _ open_ (by simp) rfl ⟨⟨r, ready.file _⟩, all, rfl⟩
  | linking left =>
    have open_ : a.stage ≠ .fetching := by simp [at_]
    cases left with
    | succ left => exact .of_goes (.refl e) (ok.on open_ (by simp) (fun other => by cases other) holds)
    | zero =>
      obtain ⟨⟨r, ready⟩, all, synced⟩ := holds
      refine .of_goes (.kept _ fun kept _ holds => holds.link) ?_
      refine ok.onFile _ open_ (by simp) rfl ⟨⟨r, ready.file _⟩, ?_⟩
      have holds : e.file.link.Holds e.file.link.data := .of_synced synced rfl
      rw [DurableFile.link] at holds
      rw [← all]
      exact holds
  | committing =>
    have open_ : a.stage ≠ .fetching := by simp [at_]
    obtain ⟨⟨r, ready⟩, written⟩ := holds
    simp only [count_ready ready sound ok.body ok.claimed]
    exact .of_goes (ok.counts ready written) (ok.counted open_ ready)
  | fetching =>
    have added := ok.added at_
    refine .of_answers (.refl e) ?_
    show Settled address ⟨a, e, fetch a.uploadId e⟩
    cases row : e.row with
    | some r =>
      rw [fetch, row]
      exact .appended added row
    | none =>
      rw [fetch, row]
      exact .lost added

theorem Attempt.Ok.disturbed (ok : a.Ok address now e) (past : List UInt8) :
    Change address now e (disturbed a e past) ∧ Same e (disturbed a e past) ∧
      (a.stage.reads = true ∨ a.stage = .fetching → disturbed a e past = e) := by
  by_cases writes : a.stage = .cutting ∨ a.stage = .pouring ∨ a.stage = .syncing
  · have same : Uploads.disturbed a e past = { e with file := e.file.disturb a.offset past } := by
      rw [Uploads.disturbed]
      rcases writes with at_ | at_ | at_ <;> rw [at_]
    obtain ⟨r, ready⟩ := ok.ready (by rcases writes with at_ | at_ | at_ <;> rw [at_] <;> rfl)
      (by rcases writes with at_ | at_ | at_ <;> simp [at_])
    have next : e.received = a.offset := (received_of ready.row).trans ready.next
    rw [same]
    refine ⟨kept_of_past next fun kept within holds => holds.disturb within, .file e _, ?_⟩
    rintro (other | other) <;> rcases writes with at_ | at_ | at_ <;> rw [at_] at other <;> cases other
  · have same : Uploads.disturbed a e past = e := by
      rw [Uploads.disturbed]
      split
      · rename_i at_
        exact absurd (.inl at_) writes
      · rename_i at_
        exact absurd (.inr (.inl at_)) writes
      · rename_i at_
        exact absurd (.inr (.inr at_)) writes
      · rfl
    rw [same]
    exact ⟨.refl e, .refl e, fun _ => rfl⟩

theorem Attempt.Ok.perform (ok : a.Ok address now e) (sound : Sound address e) (o : Outcome) :
    Performed address now a e (perform address now a e o).1 (perform address now a e o).2 := by
  cases o with
  | ok => exact ok.succeed sound
  | failed err past =>
    obtain ⟨change, same, alone⟩ := ok.disturbed past
    refine .of_answers change ?_
    show Settled address ⟨a, Uploads.disturbed a e past, .error err⟩
    by_cases open_ : a.stage = .fetching
    · rw [alone (.inr open_)]
      exact .lost (ok.added open_)
    · exact ok.refused open_ same (change.sound sound) fun reads => by rw [alone (.inl reads)]
  | lost err =>
    by_cases at_ : a.stage = .committing
    · have open_ : a.stage ≠ .fetching := by simp [at_]
      have holds := ok.stage
      rw [at_] at holds
      obtain ⟨⟨r, ready⟩, written⟩ := holds
      have change := ok.counts ready written
      simp only [Uploads.perform, if_pos at_, count_ready ready sound ok.body ok.claimed, Option.getD_some]
      have added := (ok.counted open_ ready).added rfl
      exact .of_answers change (.lost ⟨added.start, added.received, added.chunks, added.bodies, added.hash⟩)
    · simp only [Uploads.perform, if_neg at_]
      refine .of_answers (.refl e) ?_
      by_cases open_ : a.stage = .fetching
      · exact .lost (ok.added open_)
      · exact ok.refused open_ (.refl e) sound fun _ => rfl

/-! ## Every step -/

/-- What holds in every state: the uploads, the attempts that have their turns, and those answered. -/
structure Law (address : List UInt8 → String) (w : World) : Prop where
  sound : ∀ id, Sound address (w.entries id)
  turns : ∀ s a, w.turns s = some a → stripe a.uploadId = s ∧ a.Ok address w.now (w.entries a.uploadId)
  done : ∀ d ∈ w.done, Settled address d

theorem law_start (address : List UInt8 → String) (now : Nat) : Law address (start now) where
  sound id := ⟨.done 0, .nil, rfl, .nil _, fun r row => (by cases row), fun r row => by cases row⟩
  turns s a held := by cases held
  done d member := absurd member List.not_mem_nil

variable {w : World}

/-- What others do to an upload while an attempt has its turn. -/
inductive Meanwhile (now : Nat) (e : Entry) : Entry → Prop
  | nothing : Meanwhile now e e
  | created {r : Row} (new : e.row = none) (empty : r.received = 0) : Meanwhile now e { e with row := some r }
  | imported {r : Row} (row : e.row = some r) (complete : r.status = .complete) (fresh : r.stale now = false) :
    Meanwhile now e { e with row := some { r with status := .imported } }

theorem Meanwhile.same (meanwhile : Meanwhile now e e') : Same e e' := by
  cases meanwhile with
  | nothing => exact .refl e
  | created new empty =>
    refine ⟨rfl, rfl, ?_, fun r row => by rw [new] at row; cases row⟩
    rw [received_of (e := { e with row := some _ }) rfl, empty, Entry.received, new]
    rfl
  | imported row => exact .restatus row .imported

theorem Meanwhile.file (meanwhile : Meanwhile now e e') : e'.file = e.file := by cases meanwhile <;> rfl

theorem Ready.meanwhile {body : List UInt8} (ready : Ready address offset body claimed e r)
    (meanwhile : Meanwhile now e e') : e' = e := by
  cases meanwhile with
  | nothing => rfl
  | created new empty =>
    rw [ready.row] at new
    cases new
  | imported row complete fresh =>
    obtain rfl := Option.some.inj (ready.row.symm.trans row)
    rw [ready.receiving] at complete
    cases complete

theorem Attempt.Ok.meanwhile (ok : a.Ok address now e) (meanwhile : Meanwhile now e e') : a.Ok address now e' := by
  by_cases same : e' = e
  · rw [same]
    exact ok
  refine ⟨ok.body, ok.claimed, ok.found, ?_, fun reads => meanwhile.file.trans (ok.file reads), ?_⟩
  · split
    · rename_i counted
      exact (ok.added counted).same meanwhile.same
    · rename_i open_
      exact (ok.same open_).trans meanwhile.same
  · by_cases early : a.stage.reads = true ∨ a.stage = .fetching
    · have holds := ok.stage
      have received := meanwhile.same.received
      have chunks := meanwhile.same.chunks
      cases at_ : a.stage with rw [at_] at holds early
      | selecting | fetching => trivial
      | expiring =>
        obtain ⟨r, row, live, stale⟩ := holds
        cases meanwhile with
        | nothing => exact absurd rfl same
        | created new empty =>
          rw [row] at new
          cases new
        | imported row' complete fresh =>
          obtain rfl := Option.some.inj (row.symm.trans row')
          rw [stale] at fresh
          cases fresh
      | replaying n => exact ⟨holds.1.trans received.symm, received ▸ holds.2⟩
      | refetching => exact ⟨received ▸ holds.1, chunks ▸ holds.2⟩
      | opening | measuring | cutting | pouring | syncing | linking | committing =>
        rcases early with other | other <;> cases other
    · obtain ⟨reads, open_⟩ := not_or.mp early
      obtain ⟨r, ready⟩ := ok.ready (Bool.eq_false_iff.mpr reads) open_
      exact absurd (ready.meanwhile meanwhile) same

theorem Attempt.Ok.later (ok : a.Ok address now e) (elapsed : Nat) : a.Ok address (now + elapsed) e := by
  refine ⟨ok.body, ok.claimed, ok.found, ok.since, ok.file, ?_⟩
  have holds := ok.stage
  cases at_ : a.stage with rw [at_] at holds
  | expiring =>
    obtain ⟨r, row, live, stale⟩ := holds
    refine ⟨r, row, live, ?_⟩
    rw [Row.stale, decide_eq_true_eq] at stale ⊢
    omega
  | _ => exact holds

/-- A request that passes its checks has a chunk of a size that can be stored, under a hash that can. -/
theorem checked_ok (ok : checked request = .ok (offset, claimed)) :
    (1 ≤ request.body.length ∧ request.body.length ≤ MAX_CHUNK) ∧ isSha256Address claimed = true := by
  unfold checked at ok
  split at ok
  · cases ok
  obtain ⟨n, -, ok⟩ := bind_eq_ok.mp ok
  obtain ⟨s, -, ok⟩ := bind_eq_ok.mp ok
  split_ifs at ok with sha large empty
  cases ok
  rw [List.isEmpty_iff_length_eq_zero] at empty
  exact ⟨⟨by omega, by omega⟩, Bool.not_eq_false _ ▸ sha⟩

@[simp] theorem put_entries (id id' : String) (e : Entry) :
    (w.put id e).entries id' = if id' = id then e else w.entries id' :=
  Function.update_apply ..

theorem Law.put (law : Law address w) {id : String} (change : Change address w.now (w.entries id) e)
    (meanwhile : Meanwhile w.now (w.entries id) e) : Law address (w.put id e) where
  sound id' := by
    rw [put_entries]
    split
    · exact change.sound (law.sound id)
    · exact law.sound id'
  turns s a held := by
    obtain ⟨there, ok⟩ := law.turns s a held
    refine ⟨there, ?_⟩
    rw [put_entries]
    split
    · rename_i same
      rw [same] at ok
      exact ok.meanwhile meanwhile
    · exact ok
  done := law.done

def Changes (address : List UInt8 → String) (w w' : World) : Prop :=
  ∀ id, Change address w.now (w.entries id) (w'.entries id)

theorem changes_put {id : String} (change : Change address w.now (w.entries id) e) : Changes address w
    (w.put id e) := by
  intro id'
  rw [put_entries]
  split
  · rename_i same
    rw [same]
    exact change
  · exact .refl _

theorem Law.create (law : Law address w) (id : String) (totalSize : Nat) (sha256 : String) :
    Changes address w (create w id totalSize sha256) ∧ Law address (create w id totalSize sha256) := by
  unfold Uploads.create
  simp only
  split
  · rename_i checks
    simp only [Bool.and_eq_true, decide_eq_true_eq, Option.isNone_iff_eq_none] at checks
    have change : Change address w.now (w.entries id)
        { w.entries id with row := some ⟨totalSize, sha256, 0, .receiving, w.now, none⟩ } :=
      .created checks.2 checks.1.1.2.1
    exact ⟨changes_put change, law.put change (.created checks.2 rfl)⟩
  · exact ⟨fun _ => .refl _, law⟩

theorem Law.importUpload (law : Law address w) (id : String) :
    Changes address w (importUpload w id) ∧ Law address (importUpload w id) := by
  unfold Uploads.importUpload
  simp only
  split
  · rename_i checks
    obtain ⟨r, row, live⟩ := (Option.any_eq_true ..).mp checks
    rw [Bool.and_eq_true, beq_iff_eq, Bool.not_eq_true'] at live
    rw [setStatus_imported row live.1 (law.sound id), Option.getD_some]
    have change : Change address w.now (w.entries id) _ := .imported row live.1 live.2
    exact ⟨changes_put change, law.put change (.imported row live.1 live.2)⟩
  · exact ⟨fun _ => .refl _, law⟩

theorem Law.takeTurn (law : Law address w) (request : Request) :
    Changes address w (takeTurn w request) ∧ Law address (takeTurn w request) := by
  unfold Uploads.takeTurn
  split
  · exact ⟨fun _ => .refl _, law⟩
  rename_i offset claimed ok
  split
  · exact ⟨fun _ => .refl _, law⟩
  refine ⟨fun _ => .refl _, law.sound, fun s a held => ?_, law.done⟩
  obtain ⟨body, sha⟩ := checked_ok ok
  change Function.update w.turns _ _ s = some a at held
  rw [Function.update_apply] at held
  split at held
  · rename_i same
    obtain rfl := Option.some.inj held
    exact ⟨same.symm, body, sha, law.sound _, .refl _, fun _ => rfl, trivial⟩
  · exact law.turns s a held

theorem Law.go (law : Law address w) (s : Nat) (o : Outcome) :
    Changes address w (go address w s o) ∧ Law address (go address w s o) := by
  unfold Uploads.go
  split
  · exact ⟨fun _ => .refl _, law⟩
  rename_i a held
  obtain ⟨there, ok⟩ := law.turns s a held
  have performed := ok.perform (law.sound _) o
  generalize perform address w.now a (w.entries a.uploadId) o = result at performed
  obtain ⟨left, next⟩ := result
  have changes := changes_put performed.change
  have sound : ∀ id, Sound address ((w.put a.uploadId left).entries id) := fun id => (changes id).sound
      (law.sound id)
  -- the other turns are of other uploads
  have others : ∀ s' a', s' ≠ s → w.turns s' = some a' →
      stripe a'.uploadId = s' ∧ a'.Ok address w.now ((w.put a.uploadId left).entries a'.uploadId) := by
    intro s' a' other held'
    obtain ⟨there', ok'⟩ := law.turns s' a' held'
    have apart : a'.uploadId ≠ a.uploadId := by
      intro same
      rw [same] at there'
      exact other (there'.symm.trans there)
    rw [put_entries, if_neg apart]
    exact ⟨there', ok'⟩
  cases next with
  | goes stage =>
    refine ⟨changes, sound, fun s' a' held' => ?_, law.done⟩
    change Function.update w.turns s _ s' = some a' at held'
    rw [Function.update_apply] at held'
    split at held'
    · rename_i same
      obtain rfl := Option.some.inj held'
      refine ⟨there.trans same.symm, ?_⟩
      show Attempt.Ok address w.now _ ((w.put a.uploadId left).entries a.uploadId)
      rw [put_entries, if_pos rfl]
      exact performed.goes stage rfl
    · rename_i other
      exact others s' a' other held'
  | answers answer =>
    refine ⟨changes, sound, fun s' a' held' => ?_, ?_⟩
    · change Function.update w.turns s none s' = some a' at held'
      rw [Function.update_apply] at held'
      split at held'
      · cases held'
      · rename_i other
        exact others s' a' other held'
    · exact List.forall_mem_cons.mpr ⟨performed.answers answer rfl, law.done⟩

theorem Law.step (law : Law address w) (move : Move) :
    Changes address w (step address w move) ∧ Law address (step address w move) := by
  cases move with
  | create id totalSize sha256 => exact law.create id totalSize sha256
  | take r => exact law.takeTurn r
  | go s o => exact law.go s o
  | importUpload id => exact law.importUpload id
  | tick elapsed =>
    exact ⟨fun _ => .refl _, law.sound, fun s a held => ⟨(law.turns s a held).1,
        (law.turns s a held).2.later elapsed⟩,
      law.done⟩
  | crash past =>
    have changes : Changes address w (Uploads.step address w (.crash past)) :=
      fun id => .kept _ fun kept _ holds => holds.survive
    exact ⟨changes, fun id => (changes id).sound (law.sound id), fun s a held => (by cases held), law.done⟩

theorem law_run (address : List UInt8 → String) (now : Nat) (moves : List Move) :
    Law address (run (step address) moves (start now)) :=
  run_invariant (step address) (fun _ => True) (Law address) (fun _ move _ law => (law.step move).2)
    (fun _ _ => trivial) (law_start address now)

/-! ## Attempts whose operations all go as they should -/

/-- The answer of an attempt that gets through its operations, in exactly so many. -/
def finish (address : List UInt8 → String) (now : Nat) : Nat → Attempt → Entry → Option Done
  | 0, _, _ => none
  | n + 1, a, e =>
    match succeed address now a e with
    | (e', .goes stage) => finish address now n { a with stage } e'
    | (e', .answers answer) => if n = 0 then some ⟨a, e', answer⟩ else none

theorem finish_goes {n : Nat} (goes : succeed address now a e = (e', .goes stage)) :
    finish address now (n + 1) a e = finish address now n { a with stage } e' := by
  rw [finish, goes]

theorem finish_answers {answer : Answer} (answers : succeed address now a e = (e', .answers answer)) :
    finish address now 1 a e = some ⟨a, e', answer⟩ := by
  rw [finish, answers]
  rfl

def World.held (w : World) (s : Nat) (a : Attempt) (e : Entry) : World :=
  { w.put a.uploadId e with turns := Function.update w.turns s (some a) }

theorem held_go (w : World) (s : Nat) (a : Attempt) (e : Entry) :
    go address (w.held s a e) s .ok = follow ((w.held s a e).put a.uploadId (succeed address w.now a e).1) s a
      (succeed address w.now a e).1 (succeed address w.now a e).2 := by
  have turn : (w.held s a e).turns s = some a := Function.update_self ..
  have entry : (w.held s a e).entries a.uploadId = e := Function.update_self ..
  rw [go, turn]
  simp only
  rw [entry]
  rfl

theorem held_goes {s : Nat} (goes : succeed address w.now a e = (e', .goes stage)) :
    go address (w.held s a e) s .ok = w.held s { a with stage } e' := by
  rw [held_go, goes]
  simp only [follow, World.put, World.held, Function.update_idem]

theorem held_answers {s : Nat} {answer : Answer} (free : w.turns s = none)
    (answers : succeed address w.now a e = (e', .answers answer)) :
    go address (w.held s a e) s .ok = { w.put a.uploadId e' with done := ⟨a, e', answer⟩ :: w.done } := by
  rw [held_go, answers]
  simp only [follow, World.put, World.held, Function.update_idem]
  rw [← free, Function.update_eq_self]

theorem run_finish {s n : Nat} {d : Done} (free : w.turns s = none) (ends : finish address w.now n a e = some d) :
    run (step address) (List.replicate n (.go s .ok)) (w.held s a e) =
      { w.put d.request.uploadId d.left with done := d :: w.done } := by
  induction n generalizing a e with
  | zero => cases ends
  | succ n ih =>
    rw [List.replicate_succ, run_cons]
    show run _ _ (go address (w.held s a e) s .ok) = _
    rw [finish] at ends
    cases result : succeed address w.now a e with
    | mk e' next =>
      rw [result] at ends
      cases next with
      | goes stage =>
        rw [held_goes result]
        exact ih ends
      | answers answer =>
        simp only at ends
        split at ends
        · rename_i last
          obtain rfl := Option.some.inj ends
          rw [held_answers free result, last]
          rfl
        · cases ends

def Answers (address : List UInt8 → String) (w : World) (r : Request) (operations : Nat) (left : Entry) (u : Upload) :
    Prop :=
  ∃ a, run (step address) (.take r :: List.replicate operations (.go (stripe r.uploadId) .ok)) w =
    { w.put r.uploadId left with done := ⟨a, left, .ok u⟩ :: w.done }

theorem answers_of_finish {n : Nat} {u : Upload} (ok : checked request = .ok (offset, claimed))
    (free : w.turns (stripe request.uploadId) = none)
    (ends : ∃ stage, finish address w.now n ⟨request.uploadId, offset, claimed, request.body, .selecting, w.entries request.uploadId⟩ (w.entries request.uploadId) = some ⟨⟨request.uploadId, offset, claimed, request.body, stage, w.entries request.uploadId⟩, left, .ok u⟩) :
    Answers address w request n left u := by
  obtain ⟨stage, ends⟩ := ends
  refine ⟨⟨request.uploadId, offset, claimed, request.body, stage, w.entries request.uploadId⟩, ?_⟩
  have taken : takeTurn w request = w.held (stripe request.uploadId)
      ⟨request.uploadId, offset, claimed, request.body, .selecting, w.entries request.uploadId⟩
        (w.entries request.uploadId) := by
    rw [takeTurn, ok]
    simp only [free, Option.isSome_none, World.held, World.put, Function.update_eq_self]
    rfl
  rw [run_cons]
  show run _ _ (takeTurn w request) = _
  rw [taken]
  exact run_finish free ends

theorem Law.replays (law : Law address w) {c : Chunk} (ok : checked request = .ok (offset, claimed))
    (free : w.turns (stripe request.uploadId) = none) (row : (w.entries request.uploadId).row = some r)
    (open_ : r.status ≠ .expired) (fresh : (r.live && r.stale w.now) = false)
    (stored : c ∈ (w.entries request.uploadId).chunks) (at_ : c.offset = offset) (hash : c.sha256 = claimed) :
    Answers address w request 3 (w.entries request.uploadId) (r.upload request.uploadId) := by
  refine answers_of_finish ok free ⟨.refetching, ?_⟩
  have tiles := (law.sound request.uploadId).tiles
  have early : offset < r.received := by
    rw [← received_of row, ← at_]
    exact (tiles.within c stored).2
  have decided : decision address w.now
      ⟨request.uploadId, offset, claimed, request.body, .selecting, w.entries request.uploadId⟩
        (w.entries request.uploadId).row = .goes (.replaying r.received) := by
    rw [row, decision]
    simp only
    rw [if_neg (by simp [open_, fresh]), if_pos early]
  have found : ((w.entries request.uploadId).chunks.find? fun c' => c'.offset == offset) = some c := by
    rw [← at_]
    exact tiles.find stored
  rw [finish_goes (by rw [succeed, decided])]
  rw [finish_goes (by simp only [succeed, found, Option.any_some, hash, beq_self_eq_true, if_true]; rfl)]
  exact finish_answers (by rw [succeed, fetch, row])

theorem Law.appends (law : Law address w) (ok : checked request = .ok (offset, claimed))
    (free : w.turns (stripe request.uploadId) = none)
    (ready : Ready address offset request.body claimed (w.entries request.uploadId) r)
    (fresh : r.stale w.now = false) :
    ∃ left r', Answers address w request 11 left (r'.upload request.uploadId) ∧ left.row = some r' ∧
      r'.received = offset + request.body.length ∧
      left.chunks = (w.entries request.uploadId).chunks ++ [⟨offset, request.body.length, claimed⟩] ∧
      left.counted = (w.entries request.uploadId).counted ++ request.body := by
  have sound := law.sound request.uploadId
  have next : (w.entries request.uploadId).received = offset := (received_of ready.row).trans ready.next
  obtain ⟨body, sha⟩ := checked_ok ok
  have decided : decision address w.now
      ⟨request.uploadId, offset, claimed, request.body, .selecting, w.entries request.uploadId⟩
        (w.entries request.uploadId).row = .goes .opening := by
    rw [ready.row, decision]
    simp only
    rw [if_neg (by simp [ready.receiving, fresh]), if_neg (by rw [ready.next]; omega),
      if_neg (by simp [ready.next, ready.receiving]), if_neg (by have := ready.fits; omega), if_neg
          (by simp [ready.hash])]
  have reaches : ¬ (w.entries request.uploadId).file.data.length < offset := by
    have := sound.bytes.length_le
    rw [sound.size, next] at this
    omega
  -- the file as it is written, synced and linked
  let file := (((w.entries request.uploadId).file.cut offset).write offset request.body).sync.link
  have sound' : Sound address { w.entries request.uploadId with file } := by
    have within : (w.entries request.uploadId).bodies.flatten.length ≤ offset := by rw [sound.size, next]
    exact sound.kept (((sound.bytes.cut within).write within).sync.link)
  have counted : count w.now
      ⟨request.uploadId, offset, claimed, request.body, .committing, w.entries request.uploadId⟩
        { w.entries request.uploadId with file } =
      some ({ w.entries request.uploadId with file }.append r w.now request.body claimed) :=
    count_ready (ready.file file) sound' body sha
  refine ⟨{ w.entries request.uploadId with file }.append r w.now request.body claimed, _,
    answers_of_finish ok free ⟨.fetching, ?_⟩, rfl, ?_, ?_, ?_⟩
  · rw [finish_goes (by rw [succeed, decided]), finish_goes rfl, finish_goes (by rw [succeed, if_neg reaches]),
      finish_goes rfl, finish_goes rfl, finish_goes rfl, finish_goes rfl, finish_goes rfl, finish_goes rfl,
      finish_goes (by simp only [succeed]; rw [counted])]
    exact finish_answers rfl
  · show r.received + _ = _
    rw [ready.next]
  · show _ ++ [_] = _
    rw [ready.next]
  · have ends := DurableFile.length_cut (not_lt.mp reaches)
    have data : file.data = (w.entries request.uploadId).file.data.take offset ++ request.body :=
      DurableFile.data_write_end ends
    show file.data.take (r.received + request.body.length) = (w.entries request.uploadId).counted ++ request.body
    have length : ((w.entries request.uploadId).file.data.take offset).length = offset := ends
    rw [data, Entry.counted, next, ready.next, List.take_of_length_le (by rw [List.length_append, length])]

structure Intact (address : List UInt8 → String) (w : World) : Prop where
  sound : ∀ id, Sound address (w.entries id)
  /-- The first `received` bytes of the file are the chunks' bodies. -/
  counted : ∀ id, (w.entries id).counted = (w.entries id).bodies.flatten
  /-- Only the transaction that counts a chunk touches rows and counted bytes, but for the status. -/
  changes : ∀ move, Changes address w (step address w move)
  settled : ∀ d ∈ w.done, Settled address d
  replays : ∀ (request : Request) offset claimed r c, checked request = .ok (offset, claimed) →
    w.turns (stripe request.uploadId) = none → (w.entries request.uploadId).row = some r → r.status ≠ .expired →
    (r.live && r.stale w.now) = false → c ∈ (w.entries request.uploadId).chunks → c.offset = offset →
    c.sha256 = claimed → Answers address w request 3 (w.entries request.uploadId) (r.upload request.uploadId)
  appends : ∀ (request : Request) offset claimed r, checked request = .ok (offset, claimed) →
    w.turns (stripe request.uploadId) = none →
    Ready address offset request.body claimed (w.entries request.uploadId) r → r.stale w.now = false →
    ∃ left r', Answers address w request 11 left (r'.upload request.uploadId) ∧ left.row = some r' ∧
      r'.received = offset + request.body.length ∧
      left.chunks = (w.entries request.uploadId).chunks ++ [⟨offset, request.body.length, claimed⟩] ∧
      left.counted = (w.entries request.uploadId).counted ++ request.body

theorem uploads_intact (address : List UInt8 → String) (now : Nat) (moves : List Move) :
    Intact address (run (step address) moves (start now)) := by
  have law := law_run address now moves
  exact
    { sound := law.sound
      counted := fun id => (law.sound id).counted_eq
      changes := fun move => (law.step move).1
      settled := law.done
      replays := fun _ _ _ _ _ ok free row open_ fresh stored at_ hash =>
        law.replays ok free row open_ fresh stored at_ hash
      appends := fun _ _ _ _ ok free ready fresh => law.appends ok free ready fresh }

/-! An upload of two chunks, the first of them sent again at the end, and once more a day later. -/

def anUpload : String := "upl_00000000000000000000000000"

def anAddress : String := "sha256:0000000000000000000000000000000000000000000000000000000000000000"

def sent (offset : String) : Request := ⟨anUpload, some offset, some anAddress, [0]⟩

def oks (n : Nat) : List Move := List.replicate n (.go (stripe anUpload) .ok)

def resent : World :=
  run (step fun _ => anAddress) ([.create anUpload 2 anAddress, .take (sent "0")] ++ oks 11 ++ [.take (sent "1")] ++
    oks 11 ++ [.take (sent "0")] ++ oks 3 ++ [.tick (LIFETIME + 1), .take (sent "0")] ++ oks 2) (start 0)

/-- The chunk sent again is answered otherwise than at first, and a refused one marks the whole upload expired. -/
theorem resent_answers :
    (resent.done.map fun d => (d.request.offset, d.answer.toOption.map fun u => (u.received, u.status))) =
      [(0, none), (0, some (2, .complete)), (1, some (2, .complete)), (0, some (1, .receiving))] ∧
    ((resent.entries anUpload).row.map fun r => (r.received, r.totalSize, r.status)) = some (2, 2, .expired) := by
  decide +kernel

end Agent24.Uploads
