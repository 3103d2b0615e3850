import Agent24.Json
import Agent24.Library.Cut
import Agent24.Library.Outcome
import Mathlib.Data.List.DropRight

/-! Reading a chat completion as it is written: events of a body that comes in chunks. -/

set_option autoImplicit false
namespace Agent24.Models
open Library List

def MAX_CHAT_RESPONSE_BYTES : Nat := 8 * 1024 * 1024

inductive ModelError where
  | unavailable (message : String)
  | provider (message : String)
  deriving DecidableEq

structure OaUsage where
  promptTokens : Nat
  completionTokens : Nat
  totalTokens : Nat
  deriving DecidableEq

/-- What a stream said: the text of its deltas, the model the first event named, and the usage the last
event reported. -/
structure Streamed where
  content : String
  model : Option String
  usage : Option OaUsage
  deriving DecidableEq

structure Delta where
  content : Option String
  deriving DecidableEq

structure ChunkChoice where
  delta : Option Delta
  finishReason : Option String
  deriving DecidableEq

structure Chunk where
  model : Option String
  choices : List ChunkChoice
  usage : Option OaUsage
  error : Option Json

def lineFeed : UInt8 := 10

/-- What a byte that begins a character asks for: how many bytes more, and the range of the first of them. -/
def leads (b : UInt8) : Option (Nat × UInt8 × UInt8) :=
  if 0xC2 ≤ b ∧ b ≤ 0xDF then some (1, 0x80, 0xBF)
  else if b = 0xE0 then some (2, 0xA0, 0xBF)
  else if b = 0xED then some (2, 0x80, 0x9F)
  else if 0xE1 ≤ b ∧ b ≤ 0xEF then some (2, 0x80, 0xBF)
  else if b = 0xF0 then some (3, 0x90, 0xBF)
  else if 0xF1 ≤ b ∧ b ≤ 0xF3 then some (3, 0x80, 0xBF)
  else if b = 0xF4 then some (3, 0x80, 0x8F)
  else none

def follows : Nat → UInt8 → UInt8 → List UInt8 → List UInt8
  | 0, _, _, _ => []
  | _ + 1, _, _, [] => []
  | n + 1, low, high, b :: rest => if low ≤ b ∧ b ≤ high then b :: follows n 0x80 0xBF rest else []

def charOf (b : UInt8) (more : List UInt8) : Char :=
  Char.ofNat (more.foldl (fun value c => value * 64 + c.toNat % 64) (b.toNat % 2 ^ (6 - more.length)))

/-- Bytes that are no UTF-8 become U+FFFD, one for each longest beginning of a character. -/
def lossy : List UInt8 → List Char
  | [] => []
  | b :: rest =>
    if b < 0x80 then Char.ofNat b.toNat :: lossy rest
    else
      match leads b with
      | none => '\uFFFD' :: lossy rest
      | some (n, low, high) =>
        let more := follows n low high rest
        (if more.length = n then charOf b more else '\uFFFD') :: lossy (rest.drop more.length)
termination_by bytes => bytes.length
decreasing_by all_goals simp only [length_cons, length_drop]; omega

def fromUtf8Lossy (bytes : List UInt8) : String := String.ofList (lossy bytes)

def isBreak (c : Char) : Bool := c == '\n' || c == '\r'

/-- `trim_end_matches(['\n', '\r'])`. -/
def trimEnd (text : String) : String := String.ofList (text.toList.rdropWhile isBreak)

abbrev Turn (σ : Type) := Except (Except ModelError Streamed) σ

/-- What the lines so far said: the answer, the data of the event being read, and whether an event finished it. -/
structure Speech where
  out : Streamed
  data : Option String
  finished : Bool

def Speech.start : Speech := ⟨⟨"", none, none⟩, none, false⟩

section
variable (name : String) (parse : String → Except String Chunk)

/-- Adds one event to `out`; whether it finished the answer. `parse` is `serde_json::from_str`. -/
def take (out : Streamed) (event : String) : Except ModelError (Bool × Streamed) :=
  match parse event with
  | .error e => .error (.provider (name ++ " returned an event that is not JSON: " ++ e))
  | .ok chunk =>
    if chunk.error.isSome then .error (.unavailable (name ++ ": the backend failed while it wrote"))
    else
      let model := match out.model with
        | none => chunk.model.filter fun m => m != ""
        | some m => some m
      let usage := match chunk.usage with
        | some usage => some usage
        | none => out.usage
      let said := chunk.choices.filterMap fun c => c.delta.bind Delta.content
      .ok (chunk.choices.any fun c => c.finishReason.isSome, ⟨said.foldl (· ++ ·) out.content, model, usage⟩)

def readText (s : Speech) (line : String) : Turn Speech :=
  if line = "" then
    -- A blank line ends an event: only one with data counts.
    match s.data.filter fun e => e != "" with
    | none => .ok { s with data := none }
    | some event =>
      if event = "[DONE]" then .error (.ok s.out)
      else
        match take name parse s.out event with
        | .error e => .error (.error e)
        | .ok (finished, out) => .ok ⟨out, none, s.finished || finished⟩
  else
    match Text.strip "data:" line with
    | some v =>
      let v := (Text.strip " " v).getD v
      let data := match s.data with
        | some d => d ++ "\n" ++ v
        | none => v
      .ok { s with data := some data }
    -- A comment, `event:`, `id:` or `retry:` line says nothing of the answer.
    | none => .ok s

/-- One line, with its line feed. It is decoded whole, so a character split across chunks is not broken. -/
def readLine (s : Speech) (raw : List UInt8) : Turn Speech :=
  readText name parse s (trimEnd (fromUtf8Lossy raw))

end

def nextBreak (pending : List UInt8) (scanned : Nat) : Option Nat :=
  ((pending.drop scanned).idxOf? lineFeed).map fun i => scanned + i + 1

theorem nextBreak_bounds {pending : List UInt8} {scanned stop : Nat} (found : nextBreak pending scanned = some stop) :
    scanned < stop ∧ stop ≤ pending.length := by
  obtain ⟨i, here, rfl⟩ := Option.map_eq_some_iff.mp found
  obtain ⟨front, rest, whole, -, rfl⟩ := Lines.idxOf?_eq_some here
  have length := congrArg List.length whole
  simp only [length_drop, length_append, length_cons] at length
  omega

section
variable (name : String) (parse : String → Except String Chunk)

/-- The lines that `pending` holds, and where the next one starts. No line feed is in `scanned` bytes of it
but those before `start`. -/
def readPending (pending : List UInt8) (s : Speech) (start scanned : Nat) : Turn (Speech × Nat) :=
  match _ : nextBreak pending scanned with
  | none => .ok (s, start)
  | some stop =>
    (readLine name parse s ((pending.take stop).drop start)).bind fun s => readPending pending s stop stop
termination_by pending.length - scanned
decreasing_by
  have := nextBreak_bounds ‹_›
  omega

structure Reader where
  speech : Speech
  pending : List UInt8
  total : Nat
  /-- How much of `pending` is known to hold no line feed. -/
  scanned : Nat

def Reader.start : Reader := ⟨.start, [], 0, 0⟩

def readChunk (r : Reader) (bytes : List UInt8) : Turn Reader :=
  let total := r.total + bytes.length
  if MAX_CHAT_RESPONSE_BYTES < total then
    .error (.error (.provider (name ++ " response exceeds " ++ toString MAX_CHAT_RESPONSE_BYTES ++ " bytes")))
  else
    let pending := r.pending ++ bytes
    match readPending name parse pending r.speech 0 r.scanned with
    | .error ended => .error ended
    | .ok (speech, start) => .ok ⟨speech, pending.drop start, total, (pending.drop start).length⟩

/-- The body's end: without `[DONE]` or a finish reason, the backend broke off. -/
def ends (s : Speech) : Except ModelError Streamed :=
  if s.finished then .ok s.out else .error (.unavailable (name ++ ": the stream ended before the answer did"))

def read (chunks : List (List UInt8)) : Except ModelError Streamed :=
  match chunks.foldlM (readChunk name parse) .start with
  | .error ended => ended
  | .ok r => ends name r.speech

end

def lineText (line : List UInt8) : String := trimEnd (fromUtf8Lossy line)

def dataOf (line : String) : Option String :=
  (Text.strip "data:" line).map fun v => (Text.strip " " v).getD v

def joined : List String → Option String
  | [] => none
  | data :: more => some (more.foldl (fun sofar v => sofar ++ "\n" ++ v) data)

def eventOf (lines : List String) : String := (joined (lines.filterMap dataOf)).getD ""

/-- The events of a body's lines: each ends at an empty line, and one without data is none. -/
def eventsOf (lines : List String) : List String :=
  ((Cut.cut "" lines).1.map eventOf).filter fun event => event ≠ ""

def events (body : List UInt8) : List String := eventsOf ((Cut.cut lineFeed body).1.map lineText)

section
variable (name : String) (parse : String → Except String Chunk)

def absorb (out : Streamed) (event : String) : Except ModelError Streamed := (take name parse out event).map Prod.snd

def finishes (event : String) : Bool :=
  match parse event with
  | .ok chunk => chunk.choices.any fun c => c.finishReason.isSome
  | .error _ => false

/-- What events say: those up to `[DONE]`, and an answer where it came or a finish reason did. -/
def conclude (out : Streamed) (finished : Bool) (events : List String) : Except ModelError Streamed :=
  match (events.takeWhile (· ≠ "[DONE]")).foldlM (absorb name parse) out with
  | .error e => .error e
  | .ok out =>
    if "[DONE]" ∈ events ∨ finished ∨ events.any (finishes parse) then .ok out
    else .error (.unavailable (name ++ ": the stream ended before the answer did"))

def answer (body : List UInt8) : Except ModelError Streamed :=
  conclude name parse ⟨"", none, none⟩ false (events body)

end

theorem follows_length (n : Nat) (low high : UInt8) (bytes : List UInt8) :
    (follows n low high bytes).length ≤ bytes.length := by
  induction n generalizing low high bytes with
  | zero => exact Nat.zero_le _
  | succ n ih =>
    cases bytes with
    | nil => exact le_rfl
    | cons b rest =>
      rw [follows]
      split
      · exact Nat.succ_le_succ (ih ..)
      · exact Nat.zero_le _

theorem follows_lineFeed (n : Nat) {low : UInt8} (high : UInt8) (above : 0x80 ≤ low) (bytes : List UInt8) :
    follows n low high (bytes ++ [lineFeed]) = follows n low high bytes := by
  induction n generalizing low high bytes with
  | zero => rfl
  | succ n ih =>
    cases bytes with
    | nil =>
      have low_ : ¬ low ≤ lineFeed := fun below => absurd (UInt8.le_trans above below) (by decide)
      simp [follows, low_]
    | cons b rest =>
      rw [cons_append, follows, follows, ih _ (by decide)]

theorem leads_above {b : UInt8} {n : Nat} {low high : UInt8} (found : leads b = some (n, low,
    high)) : 0x80 ≤ low := by
  unfold leads at found
  repeat' split at found
  all_goals cases found
  all_goals decide

theorem lossy_lineFeed (bytes : List UInt8) : lossy (bytes ++ [lineFeed]) = lossy bytes ++ ['\n'] := by
  induction bytes using lossy.induct with
  | case1 => simp [lossy, lineFeed]
  | case2 b rest small ih => rw [cons_append, lossy, if_pos small, ih, lossy, if_pos small, cons_append]
  | case3 b rest small none_ ih =>
    rw [cons_append, lossy, if_neg small, none_, lossy, if_neg small, none_]
    exact congrArg _ ih
  | case4 b rest small n low high found more ih =>
    rw [cons_append, lossy, if_neg small, found, lossy, if_neg small, found]
    have same := follows_lineFeed n high (leads_above found) rest
    have short : more.length ≤ rest.length := follows_length ..
    simp only [same]
    rw [drop_append_of_le_length short, ih, cons_append]

theorem trimEnd_lineFeed (line : List UInt8) : trimEnd (fromUtf8Lossy (line ++ [lineFeed])) = lineText line := by
  have last : List.rdropWhile isBreak (lossy line ++ ['\n']) = List.rdropWhile isBreak (lossy line) :=
    rdropWhile_concat_pos _ _ _ (by decide)
  rw [lineText, trimEnd, trimEnd, fromUtf8Lossy, fromUtf8Lossy, String.toList_ofList, String.toList_ofList,
    lossy_lineFeed, last]

theorem nextBreak_none {done rest : List UInt8} (clean : lineFeed ∉ rest) (k : Nat) :
    nextBreak (done ++ rest) (done.length + k) = none := by
  have dropped : lineFeed ∉ rest.drop k := fun member => clean (mem_of_mem_drop member)
  rw [nextBreak, drop_append, drop_eq_nil_of_le (by omega), nil_append, Nat.add_sub_cancel_left,
    List.idxOf?_eq_none_iff.mpr dropped, Option.map_none]

theorem idxOf?_piece {piece : List UInt8} (clean : lineFeed ∉ piece) (rest : List UInt8) :
    (piece ++ lineFeed :: rest).idxOf? lineFeed = some piece.length := by
  induction piece with
  | nil => simp [List.idxOf?_cons]
  | cons b piece ih =>
    have apart : (b == lineFeed) = false := beq_eq_false_iff_ne.mpr fun same => clean (same ▸ mem_cons_self)
    rw [cons_append, List.idxOf?_cons, apart, ih fun member => clean (mem_cons_of_mem b member)]
    simp

theorem nextBreak_piece {done piece : List UInt8} (clean : lineFeed ∉ piece) (rest : List UInt8) {k : Nat}
    (scanned : k ≤ piece.length) :
    nextBreak (done ++ (piece ++ lineFeed :: rest)) (done.length + k) = some (done.length + piece.length + 1) := by
  have dropped : lineFeed ∉ piece.drop k := fun member => clean (mem_of_mem_drop member)
  rw [nextBreak, drop_append, drop_eq_nil_of_le (by omega), nil_append, Nat.add_sub_cancel_left,
    drop_append_of_le_length scanned, idxOf?_piece dropped, Option.map_some, length_drop]
  congr 1
  omega

section
variable (name : String) (parse : String → Except String Chunk)

def speak (s : Speech) (lines : List (List UInt8)) : Turn Speech :=
  lines.foldlM (fun s line => readText name parse s (lineText line)) s

theorem readPending_eq (done rest : List UInt8) (s : Speech) {k : Nat} (clean : lineFeed ∉ rest.take k) :
    readPending name parse (done ++ rest) s done.length (done.length + k) =
      (speak name parse s (Cut.cut lineFeed rest).1).map fun s =>
        (s, (done ++ rest).length - (Cut.cut lineFeed rest).2.length) := by
  rcases Cut.clean_or_piece lineFeed rest with none_ | ⟨piece, more, rfl, none_⟩
  · rw [readPending]
    split
    · rw [Cut.cut_rest none_]
      simp [speak, Except.map, pure, Except.pure]
    rename_i stop found
    rw [nextBreak_none none_] at found
    cases found
  · have within : k ≤ piece.length := by
      by_contra past
      apply clean
      rw [take_append, mem_append]
      right
      obtain ⟨j, some_⟩ : ∃ j, k - piece.length = j + 1 := ⟨k - piece.length - 1, by omega⟩
      rw [some_, take_succ_cons]
      exact mem_cons_self
    rw [readPending]
    split
    · rename_i found
      rw [nextBreak_piece none_ more within] at found
      cases found
    · rename_i stop found
      rw [nextBreak_piece none_ more within, Option.some.injEq] at found
      subst found
      have split_ : done ++ (piece ++ lineFeed :: more) = (done ++ (piece ++ [lineFeed])) ++ more := by simp
      have length : done.length + piece.length + 1 = (done ++ (piece ++ [lineFeed])).length := by
        simp [Nat.add_assoc]
      have raw : ((done ++ (piece ++ lineFeed :: more)).take (done.length + piece.length + 1)).drop done.length =
          piece ++ [lineFeed] := by
        rw [split_, length, take_left, drop_left]
      have later (s : Speech) := readPending_eq (done ++ (piece ++ [lineFeed])) more s (k := 0) not_mem_nil
      rw [raw, readLine, trimEnd_lineFeed, Cut.cut_piece none_, speak, foldlM_cons]
      rw [split_, length]
      cases readText name parse s (lineText piece) with
      | error ended => rfl
      | ok s => exact later s
termination_by rest.length
decreasing_by
  subst_vars
  simp only [length_append, length_cons]
  omega

theorem speak_append (s : Speech) (first second : List (List UInt8)) :
    speak name parse s (first ++ second) = (speak name parse s first).bind fun s => speak name parse s second :=
  foldlM_append

def outcome : Turn Speech → Except ModelError Streamed
  | .error ended => ended
  | .ok s => ends name s

/-- Where `readChunk` stands: what it holds back has no line feed and is scanned. -/
structure Reader.Sound (r : Reader) : Prop where
  clean : lineFeed ∉ r.pending
  scanned : r.scanned = r.pending.length

theorem readChunk_eq {r : Reader} (sound : r.Sound) {bytes : List UInt8}
    (room : r.total + bytes.length ≤ MAX_CHAT_RESPONSE_BYTES) :
    readChunk name parse r bytes = (speak name parse r.speech (Cut.cut lineFeed (r.pending ++ bytes)).1).map fun s =>
      ⟨s, (Cut.cut lineFeed (r.pending ++ bytes)).2, r.total + bytes.length,
        (Cut.cut lineFeed (r.pending ++ bytes)).2.length⟩ := by
  have lines := readPending_eq name parse [] (r.pending ++ bytes) r.speech (k := r.scanned)
    (by rw [sound.scanned, take_left]; exact sound.clean)
  have rest := suffix_iff_eq_drop.mp (Cut.cut_suffix lineFeed (r.pending ++ bytes))
  rw [nil_append, length_nil, Nat.zero_add] at lines
  simp only [readChunk, if_neg (Nat.not_lt.mpr room), lines]
  cases speak name parse r.speech (Cut.cut lineFeed (r.pending ++ bytes)).1 with
  | error ended => rfl
  | ok s => simp only [Except.map, ← rest]

theorem read_from (chunks : List (List UInt8)) {r : Reader} (sound : r.Sound)
    (room : r.total + chunks.flatten.length ≤ MAX_CHAT_RESPONSE_BYTES) :
    outcome name ((chunks.foldlM (readChunk name parse) r).map Reader.speech) =
      outcome name (speak name parse r.speech (Cut.cut lineFeed (r.pending ++ chunks.flatten)).1) := by
  induction chunks generalizing r with
  | nil =>
    rw [flatten_nil, append_nil, Cut.cut_rest sound.clean]
    rfl
  | cons bytes chunks ih =>
    rw [flatten_cons, length_append] at room
    rw [flatten_cons, ← append_assoc, Cut.cut_append, speak_append, foldlM_cons,
      readChunk_eq name parse sound (by omega)]
    cases speak name parse r.speech (Cut.cut lineFeed (r.pending ++ bytes)).1 with
    | error ended => rfl
    | ok s => exact ih ⟨Cut.cut_rest_clean lineFeed _, rfl⟩ (by rwa [Nat.add_assoc])

theorem joined_concat (datas : List String) (v : String) :
    joined (datas ++ [v]) = some (match joined datas with
      | some d => d ++ "\n" ++ v
      | none => v) := by
  cases datas with
  | nil => rfl
  | cons d more => simp [joined, foldl_append]

theorem take_finishes {out out' : Streamed} {event : String} {finished : Bool}
    (taken : take name parse out event = .ok (finished, out')) : finishes parse event = finished := by
  unfold take at taken
  unfold finishes
  cases parsed : parse event with
  | error e =>
    rw [parsed] at taken
    cases taken
  | ok chunk =>
    rw [parsed] at taken
    simp only at taken
    split at taken
    · cases taken
    · simp only [Except.ok.injEq, Prod.mk.injEq] at taken
      exact taken.1

/-- Events heard one by one: nothing after `[DONE]` or after one that fails. -/
theorem conclude_cons (out : Streamed) (finished : Bool) (event : String) (later : List String) :
    conclude name parse out finished (event :: later) =
      if event = "[DONE]" then .ok out
      else match take name parse out event with
        | .error e => .error e
        | .ok (more, out) => conclude name parse out (finished || more) later := by
  split
  · rename_i done
    rw [conclude, done, takeWhile_cons_of_neg (by decide)]
    exact if_pos (.inl mem_cons_self)
  · rename_i other
    rw [conclude, takeWhile_cons_of_pos (by simpa using other), foldlM_cons, absorb]
    cases taken : take name parse out event with
    | error e => rfl
    | ok more =>
      have finish := take_finishes name parse taken
      have done : "[DONE]" ∈ event :: later ↔ "[DONE]" ∈ later := by simp [Ne.symm other]
      simp only [done, any_cons, finish, Bool.or_eq_true, ← or_assoc]
      simp only [conclude, Bool.or_eq_true, ← or_assoc]
      rfl

theorem speak_events (out : Streamed) (finished : Bool) (group texts : List String) (unfinished : "" ∉ group) :
    outcome name (texts.foldlM (readText name parse) ⟨out, joined (group.filterMap dataOf), finished⟩) =
      conclude name parse out finished (eventsOf (group ++ texts)) := by
  induction texts generalizing out finished group with
  | nil =>
    rw [append_nil, eventsOf, Cut.cut_rest unfinished]
    show ends name _ = _
    simp [ends, conclude, pure, Except.pure]
  | cons text texts ih =>
    rw [foldlM_cons]
    by_cases blank : text = ""
    · have cut_ : eventsOf (group ++ text :: texts) = ([eventOf group].filter fun e => e ≠ "") ++ eventsOf texts := by
        rw [eventsOf, blank, Cut.cut_piece unfinished, map_cons, ← singleton_append, filter_append]
        rfl
      have next (out : Streamed) (finished : Bool) := ih out finished [] not_mem_nil
      rw [cut_, readText, if_pos blank]
      cases said : joined (group.filterMap dataOf) with
      | none =>
        have silent : eventOf group = "" := by rw [eventOf, said, Option.getD_none]
        simp only [Option.filter_none, silent]
        exact next out finished
      | some event =>
        have spoken : eventOf group = event := by rw [eventOf, said, Option.getD_some]
        by_cases empty : event = ""
        · simp only [spoken, empty]
          exact next out finished
        have kept : (some event).filter (fun e => e != "") = some event := by simp [empty]
        have kept' : ([event].filter fun e => e ≠ "") = [event] := by simp [empty]
        rw [spoken, kept', singleton_append, conclude_cons]
        simp only [kept]
        split
        · rfl
        cases take name parse out event with
        | error e => rfl
        | ok more => exact next more.2 (finished || more.1)
    · have unfinished' : "" ∉ group ++ [text] := by
        rw [mem_append, mem_singleton]
        rintro (earlier | same)
        · exact unfinished earlier
        · exact blank same.symm
      have next := ih out finished (group ++ [text]) unfinished'
      rw [append_assoc, singleton_append, filterMap_append] at next
      rw [readText, if_neg blank, ← next]
      cases data : Text.strip "data:" text with
      | none =>
        have silent : [text].filterMap dataOf = [] := by simp [dataOf, data]
        rw [silent, append_nil]
        rfl
      | some v =>
        have said : [text].filterMap dataOf = [(Text.strip " " v).getD v] := by simp [dataOf, data]
        rw [said, joined_concat]
        rfl

/-- However a body comes, it is read as a whole by the rules of event streams. -/
theorem chunking_unobservable (chunks : List (List UInt8)) (small : chunks.flatten.length ≤ MAX_CHAT_RESPONSE_BYTES) :
    read name parse chunks = answer name parse chunks.flatten := by
  have whole := read_from name parse chunks (r := .start) ⟨not_mem_nil, rfl⟩ (by rwa [Reader.start,
      Nat.zero_add])
  have heard := speak_events name parse ⟨"", none, none⟩ false [] ((Cut.cut lineFeed chunks.flatten).1.map lineText)
    not_mem_nil
  calc read name parse chunks
      = outcome name ((chunks.foldlM (readChunk name parse) .start).map Reader.speech) := by
        rw [read]
        cases chunks.foldlM (readChunk name parse) Reader.start <;> rfl
    _ = outcome name (speak name parse .start (Cut.cut lineFeed chunks.flatten).1) := whole
    _ = answer name parse chunks.flatten := by
        rw [answer, events, ← nil_append (List.map lineText _), ← heard, speak, foldlM_map]
        rfl

end

/-- An event with no choices, cut in the middle of a line and of its end. -/
def splitEvent : List (List UInt8) := [[100, 97, 116], [97, 58, 32, 123, 125, 10], [], [10]]

theorem chunking_unobservable_split :
    splitEvent.flatten.length ≤ MAX_CHAT_RESPONSE_BYTES ∧
      read "local" (fun _ => .ok ⟨none, [], none, none⟩) splitEvent =
        answer "local" (fun _ => .ok ⟨none, [], none, none⟩) splitEvent.flatten :=
  ⟨by decide, chunking_unobservable "local" _ splitEvent (by decide)⟩

end Agent24.Models
