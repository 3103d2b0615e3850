import Agent24.Os.Rpc

/-! `read_frame` over a blocking stream, whose buffer fills in pieces of any size. -/

set_option autoImplicit false
namespace Agent24.Os.Blocking
open Library Json List

/-- What the fill of an empty buffer meets. -/
inductive Filling where
  | bytes (first : UInt8) (more : List UInt8)
  | interrupted
  | failed (error : String)

def Filling.content : Filling → List UInt8
  | .bytes first more => first :: more
  | .interrupted | .failed _ => []

/-- A `BufRead`: what its buffer holds, and what the fills to come meet. -/
structure Source where
  buffer : List UInt8
  fillings : List Filling

inductive Filled where
  | ready (available : List UInt8)
  | interrupted
  | failed (error : String)

namespace Source

/-- All that is not read yet. -/
def content (src : Source) : List UInt8 := src.buffer ++ src.fillings.flatMap Filling.content

/-- A buffer that is not used up is shown again. -/
def fillBuf (src : Source) : Filled × Source :=
  match src.buffer with
  | [] =>
    match src.fillings with
    | [] => (.ready [], src)
    | .bytes first more :: rest => (.ready (first :: more), ⟨first :: more, rest⟩)
    | .interrupted :: rest => (.interrupted, ⟨[], rest⟩)
    | .failed error :: rest => (.failed error, ⟨[], rest⟩)
  | byte :: buffer => (.ready (byte :: buffer), src)

def consume (src : Source) (taken : Nat) : Source := { src with buffer := src.buffer.drop taken }

variable {src src' : Source}

theorem interrupted_cases (filled : src.fillBuf = (.interrupted, src')) :
    src'.content = src.content ∧ src'.fillings.length < src.fillings.length ∧ src'.fillings ⊆ src.fillings := by
  unfold fillBuf at filled
  split at filled
  next empty =>
    split at filled <;> cases filled
    next rest meets =>
      rw [content, content, empty, meets]
      exact ⟨rfl, Nat.lt_succ_self _, subset_cons_self ..⟩
  next => cases filled

theorem failed_cases {error : String} (filled : src.fillBuf = (.failed error, src')) :
    .failed error ∈ src.fillings := by
  unfold fillBuf at filled
  split at filled
  · split at filled <;> cases filled
    next rest meets => exact meets ▸ .head _
  · cases filled

theorem ready_cases {available : List UInt8} (filled : src.fillBuf = (.ready available, src')) :
    src'.buffer = available ∧ src'.content = src.content ∧ src'.fillings.length ≤ src.fillings.length ∧
      src'.fillings ⊆ src.fillings ∧ (available = [] → src.content = []) := by
  unfold fillBuf at filled
  split at filled
  next empty =>
    split at filled <;> cases filled
    next none_ =>
      refine ⟨empty, rfl, Nat.le_refl _, List.Subset.refl _, fun _ => ?_⟩
      rw [content, empty, none_]
      rfl
    next first more rest meets =>
      refine ⟨rfl, ?_, meets ▸ Nat.le_succ _, meets ▸ subset_cons_self .., fun empty => by cases empty⟩
      rw [content, content, empty, meets]
      rfl
  next byte buffer shown =>
    cases filled
    exact ⟨shown, rfl, Nat.le_refl _, List.Subset.refl _, fun empty => by cases empty⟩

theorem consume_content {taken : Nat} (within : taken ≤ src.buffer.length) :
    (src.consume taken).content = src.content.drop taken := by
  rw [content, content, drop_append_of_le_length within]
  rfl

end Source

/-- The loop of `read_frame`, with what it has read so far. -/
def readFrame (src : Source) (out : List UInt8) : Except FrameError (List UInt8) × Source :=
  let room := maxFrameBytes + 1 - out.length
  if room = 0 then (.error .tooLong, src)
  else match _filled : src.fillBuf with
  | (.interrupted, src') => readFrame src' out
  | (.failed error, src') => (.error (.io error), src')
  | (.ready available, src') =>
    if available = [] then (.error .eof, src')
    else
      let window := available.take room
      match window.idxOf? newline with
      | some i => (.ok (out ++ window.take i), src'.consume (i + 1))
      | none => readFrame (src'.consume window.length) (out ++ window)
termination_by src.fillings.length + src.content.length
decreasing_by
  · obtain ⟨same, fewer, -⟩ := Source.interrupted_cases _filled
    rw [same]
    omega
  · obtain ⟨rfl, same, fewer, -⟩ := Source.ready_cases _filled
    have some_ : 0 < src'.buffer.length := length_pos_iff.mpr ‹_›
    have whole : src'.buffer.length ≤ src'.content.length := by
      rw [Source.content, length_append]
      exact Nat.le_add_right ..
    rw [Source.consume_content (length_take_le' ..), length_drop, length_take, ← same]
    change src'.fillings.length + _ < _
    omega

def frameOf (stream : List UInt8) : Except FrameError (List UInt8) × List UInt8 :=
  let line := stream.takeWhile (· != newline)
  if maxFrameBytes < line.length then (.error .tooLong, stream.drop (maxFrameBytes + 1))
  else if line.length < stream.length then (.ok line, stream.drop (line.length + 1))
  else (.error .eof, [])

theorem takeWhile_clean {out : List UInt8} (clean : newline ∉ out) (rest : List UInt8) :
    (out ++ rest).takeWhile (· != newline) = out ++ rest.takeWhile (· != newline) :=
  takeWhile_append_of_pos fun _ member => bne_iff_ne.mpr fun same => clean (same ▸ member)

theorem frameOf_line {line rest : List UInt8} (clean : newline ∉ line) (short : line.length ≤ maxFrameBytes) :
    frameOf (line ++ newline :: rest) = (.ok line, rest) := by
  have whole : (line ++ newline :: rest).takeWhile (· != newline) = line := by
    rw [takeWhile_clean clean, takeWhile_cons_of_neg (by simp), append_nil]
  have longer : line.length < (line ++ newline :: rest).length := by
    rw [length_append, length_cons]
    omega
  rw [frameOf, whole, if_neg (Nat.not_lt.mpr short), if_pos longer, append_cons]
  exact congrArg _ (drop_left' (by simp))

theorem readFrame_frameOf (src : Source) (out : List UInt8) (clean : newline ∉ out)
    (short : out.length ≤ maxFrameBytes + 1) (sound : ∀ error, .failed error ∉ src.fillings) :
    (readFrame src out).1 = (frameOf (out ++ src.content)).1 ∧
      (readFrame src out).2.content = (frameOf (out ++ src.content)).2 := by
  fun_induction readFrame src out with
  | case1 src out room full =>
    have long : maxFrameBytes < ((out ++ src.content).takeWhile (· != newline)).length := by
      rw [takeWhile_clean clean, length_append]
      omega
    rw [frameOf, if_pos long]
    exact ⟨rfl, (drop_left' (by omega)).symm⟩
  | case2 src out room full src' filled ih =>
    obtain ⟨same, -, fewer⟩ := Source.interrupted_cases filled
    rw [← same]
    exact ih clean short fun error member => sound error (fewer member)
  | case3 src out room full error src' filled => exact absurd (Source.failed_cases filled) (sound error)
  | case4 src out room full src' filled =>
    obtain ⟨-, same, -, -, ended⟩ := Source.ready_cases filled
    have line : out.takeWhile (· != newline) = out := by simpa using takeWhile_clean clean []
    rw [same, ended rfl, append_nil, frameOf, line, if_neg (by omega), if_neg (Nat.lt_irrefl _)]
    exact ⟨rfl, rfl⟩
  | case5 src out room full available src' filled empty window i found =>
    obtain ⟨rfl, same, -⟩ := Source.ready_cases filled
    obtain ⟨front, rest, whole, apart, rfl⟩ := Lines.idxOf?_eq_some found
    have room_ : front.length < room := by
      have inside := congrArg List.length whole
      rw [length_append, length_cons] at inside
      have cut : window.length ≤ room := length_take_le ..
      omega
    have buffer : src'.buffer = front ++ newline :: (rest ++ src'.buffer.drop room) := by
      conv_lhs => rw [← take_append_drop room src'.buffer, show src'.buffer.take room = _ from whole]
      rw [append_assoc, cons_append]
    have within : front.length + 1 ≤ src'.buffer.length := by
      rw [buffer, length_append, length_cons]
      omega
    have stream : src'.content = front ++ newline :: (rest ++ src'.buffer.drop room ++
        src'.fillings.flatMap Filling.content) := by
      conv_lhs => rw [Source.content, buffer]
      rw [append_assoc, cons_append]
    rw [← same, stream, ← append_assoc, frameOf_line (by simp [clean, apart])
        (by rw [length_append]; omega),
      whole, take_left, Source.consume_content within, stream, append_cons]
    exact ⟨rfl, drop_left' (by simp)⟩
  | case6 src out room full available src' filled empty window none_ ih =>
    obtain ⟨rfl, same, -, fewer, -⟩ := Source.ready_cases filled
    have cut : window.length ≤ room := length_take_le ..
    have shown : src'.content = window ++ (src'.consume window.length).content := by
      rw [Source.consume_content (length_take_le' ..)]
      have front : src'.content.take window.length = window := by
        rw [Source.content, take_append_of_le_length (length_take_le' ..), length_take]
        exact (take_eq_take_min ..).symm
      conv_lhs => rw [← take_append_drop window.length src'.content, front]
    have apart : newline ∉ window := List.idxOf?_eq_none_iff.mp none_
    have read := ih (by simp [clean, apart]) ?_ fun error member => sound error (fewer member)
    · rwa [append_assoc, ← shown, same] at read
    · rw [length_append]
      omega

/-- However the stream comes in pieces, the frame is the one of the stream, and no more than the limit and one byte
are taken. -/
theorem readFrame_chunked {src : Source} (sound : ∀ error, .failed error ∉ src.fillings) :
    (readFrame src []).1 = (frameOf src.content).1 ∧ (readFrame src []).2.content = (frameOf src.content).2 ∧
    (∃ taken, taken ≤ maxFrameBytes + 1 ∧ (readFrame src []).2.content = src.content.drop taken ∧
      ((readFrame src []).1 = .error .tooLong → taken = maxFrameBytes + 1 ∧ taken ≤ src.content.length)) := by
  have read := readFrame_frameOf src [] not_mem_nil (Nat.zero_le _) sound
  rw [nil_append] at read
  refine ⟨read.1, read.2, ?_⟩
  rw [read.1, read.2, frameOf]
  have line : (src.content.takeWhile (· != newline)).length ≤ src.content.length :=
    (List.takeWhile_prefix _).length_le
  split_ifs with long ended
  · exact ⟨maxFrameBytes + 1, Nat.le_refl _, rfl, fun _ => ⟨rfl, Nat.le_trans long line⟩⟩
  · exact ⟨_, Nat.succ_le_succ (Nat.not_lt.mp long), rfl, fun refused => by cases refused⟩
  · exact ⟨src.content.length, by omega, drop_length.symm, fun refused => by cases refused⟩

/-- `a`, a newline and `b`, in two fills after an interruption. -/
def twoFills : Source := ⟨[], [.interrupted, .bytes 97 [], .bytes 10 [98]]⟩

theorem twoFills_read : (readFrame twoFills []).1 = (frameOf twoFills.content).1 ∧
    (readFrame twoFills []).2.content = (frameOf twoFills.content).2 := by
  have read := @readFrame_chunked twoFills fun error member => by simp [twoFills] at member
  exact ⟨read.1, read.2.1⟩

theorem readFrame_sound (src : Source) (out : List UInt8) (sound : ∀ error, .failed error ∉ src.fillings) :
    ∀ error, .failed error ∉ (readFrame src out).2.fillings := by
  fun_induction readFrame src out with
  | case1 src out room full => exact sound
  | case2 src out room full src' filled ih =>
    exact ih fun error member => sound error ((Source.interrupted_cases filled).2.2 member)
  | case3 src out room full error src' filled => exact absurd (Source.failed_cases filled) (sound error)
  | case4 src out room full src' filled =>
    exact fun error member => sound error ((Source.ready_cases filled).2.2.2.1 member)
  | case5 src out room full available src' filled =>
    exact fun error member => sound error ((Source.ready_cases filled).2.2.2.1 member)
  | case6 src out room full available src' filled empty window none_ ih =>
    exact ih fun error member => sound error ((Source.ready_cases filled).2.2.2.1 member)

/-- So many frames, one call after another. -/
def readFrames : Nat → Source → List (Except FrameError (List UInt8)) × Source
  | 0, src => ([], src)
  | n + 1, src =>
    let (frame, behind) := readFrame src []
    let (frames, last) := readFrames n behind
    (frame :: frames, last)

/-- `null` and its newline, in two fills after an interruption. -/
def nullLine : Source := ⟨[], [.interrupted, .bytes 110 [117], .bytes 108 [108, 10]]⟩

end Agent24.Os.Blocking
