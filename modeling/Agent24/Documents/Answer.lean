import Agent24.Platform

/-! The shape of a model's answer: what is cut away around it, and one answer for each field asked. -/

set_option autoImplicit false
namespace Agent24.Documents
open Library

structure Field where
  key : String
  description : String
  kind : Option String

def MAX_QUOTE_CHARS : Nat := 500

def MAX_VALUE_CHARS : Nat := 1000

def MAX_EVIDENCE : Nat := 16
def MAX_CANDIDATES : Nat := 8

structure Evidence where
  blockId : String
  quote : String

structure AnswerCandidate where
  value : String
  normalized : String
  evidence : List Evidence

inductive AnswerStatus where
  | present
  | missing
  | conflict
  deriving DecidableEq

/-- The model's answer for one field, with the parts of the other statuses empty. -/
structure AnswerValue where
  key : String
  status : AnswerStatus
  value : String
  normalized : String
  evidence : List Evidence
  missingReason : String
  candidates : List AnswerCandidate

/-- One field's answer as written: an object of one property, its status. -/
inductive Written where
  | present (claim : AnswerCandidate)
  | missing (reason : String)
  | conflict (claims : List AnswerCandidate)

def Written.value (key : String) : Written → AnswerValue
  | .present claim => ⟨key, .present, claim.value, claim.normalized, claim.evidence, "", []⟩
  | .missing reason => ⟨key, .missing, "", "", [], reason, []⟩
  | .conflict claims => ⟨key, .conflict, "", "", [], "", claims⟩

@[simp] theorem Written.value_key (key : String) (written : Written) : (written.value key).key = key := by
  cases written <;> rfl

def MISSING_REASONS : List String :=
  ["blank_in_template", "not_in_document", "referenced_but_absent", "outside_page_scope"]

def coherent (v : AnswerValue) : Bool :=
  let asserts := v.value != "" || v.normalized != "" || !v.evidence.isEmpty
  match v.status with
  | .present => v.value != "" && v.missingReason == "" && v.candidates.isEmpty
  | .missing => MISSING_REASONS.contains v.missingReason && v.candidates.isEmpty && !asserts
  | .conflict =>
    v.missingReason == "" && !asserts && 2 ≤ v.candidates.length && v.candidates.all fun c => c.value != ""

inductive Unanswered where
  /-- Not a whole JSON document: most likely cut off at the token limit. -/
  | truncated
  /-- Whole, but not the schema's shape, or not one answer per field. -/
  | malformed (why : String)

inductive Syntax where
  | whole
  | eof
  | bad (error : String)

structure JsonReader where
  /-- `from_str::<IgnoredAny>`. -/
  check : String → Syntax
  /-- `from_str::<Obj<Answer>>`: the entries of `values`, every one kept. -/
  entries : String → Except String (List (String × Written))
  /-- The characters of the first JSON value of a text, where it begins with one. -/
  first : String → Option Nat

/-- Which of a call's two passes: the model answering as it will, or held to the answer's schema. -/
inductive Pass where
  | free
  | held
  deriving DecidableEq

def cutFirst (mark : List Char) : List Char → Option (List Char × List Char)
  | [] => if mark.isEmpty then some ([], []) else none
  | c :: rest =>
    if mark.isPrefixOf (c :: rest) then some ([], (c :: rest).drop mark.length)
    else (cutFirst mark rest).map fun sides => (c :: sides.1, sides.2)

def afterLast (mark : List Char) (text : List Char) : Option (List Char) :=
  (cutFirst mark.reverse text.reverse).map fun sides => sides.1.reverse

section
variable (P : Platform) (json : JsonReader)

/-- The text without a code fence, and without what follows the answer in it. -/
def unfenced (text : String) : String :=
  match Text.strip "```" text with
  | none => text
  | some rest =>
    let body := String.ofList ((rest.toList.dropWhile P.isAlphanumeric).dropWhile isWhitespace)
    match json.first body with
    | some count => Text.take count body
    | none => body

/-- The answer in what the model wrote in a pass: thinking at its start, in the free pass all up to the
last end of thinking, and a code fence, cut off. -/
def unwrapped (text : String) (pass : Pass) : Except Unanswered String :=
  let text := Text.trim isWhitespace text
  let opened : Except Unanswered String :=
    match Text.strip "<think>" text with
    | none => .ok text
    | some rest =>
      match cutFirst "</think>".toList rest.toList with
      | none => .error .truncated
      | some (_, after) => .ok (Text.trim isWhitespace (String.ofList after))
  match opened with
  | .error why => .error why
  | .ok text =>
    -- Only in the pass that thinks, and only in what is no answer as it stands.
    let text :=
      match pass, json.check text with
      | .held, _ | .free, .whole => text
      | .free, _ =>
        match afterLast "</think>".toList text.toList with
        | none => text
        | some after => Text.trim isWhitespace (String.ofList after)
    .ok (unfenced P json text)

def overLimit (v : AnswerValue) : Bool :=
  let quotes := v.evidence ++ v.candidates.flatMap AnswerCandidate.evidence
  let texts := (v.value, v.normalized) :: v.candidates.map fun c => (c.value, c.normalized)
  MAX_EVIDENCE < v.evidence.length || MAX_CANDIDATES < v.candidates.length ||
    (v.candidates.any fun c => MAX_EVIDENCE < c.evidence.length) ||
    (quotes.any fun e => MAX_QUOTE_CHARS < e.quote.length) ||
    texts.any fun t => MAX_VALUE_CHARS < t.1.length || MAX_VALUE_CHARS < t.2.length

def answers (key : String) (entry : Option AnswerValue) : Bool := entry.any fun v => v.key == key

def takeEach (given : List (Option AnswerValue)) :
    List Field → Except Unanswered (List AnswerValue × List (Option AnswerValue))
  | [] => .ok ([], given)
  | f :: rest =>
    match given.filter (answers f.key) with
    | [some v] =>
      match takeEach (given.map fun entry => if answers f.key entry then none else entry) rest with
      | .ok (out, left) => .ok (v :: out, left)
      | .error why => .error why
    | _ => .error (.malformed (f.key ++ " is not answered once"))

def parse (fields : List Field) (text : String) : Except Unanswered (List AnswerValue) :=
  match json.check text with
  | .eof => .error .truncated
  | .bad error => .error (.malformed error)
  | .whole =>
    match json.entries text with
    | .error error => .error (.malformed error)
    | .ok entries =>
      match takeEach (entries.map fun entry => some (entry.2.value entry.1)) fields with
      | .error why => .error why
      | .ok (out, left) =>
        if left.any Option.isSome then .error (.malformed "an answer for a field not asked")
        else
          match out.find? fun v => overLimit v || !coherent v with
          | some v => .error (.malformed (v.key ++ " is over a limit or does not fit its status"))
          | none => .ok out

end

variable {given left : List (Option AnswerValue)} {fields : List Field}

theorem takeEach_keys {out : List AnswerValue} (taken : takeEach given fields = .ok (out, left)) :
    out.map AnswerValue.key = fields.map Field.key := by
  induction fields generalizing given out with
  | nil =>
    cases taken
    rfl
  | cons f rest ih =>
    rw [takeEach] at taken
    split at taken
    · rename_i v only
      split at taken
      · rename_i more left' later
        cases taken
        have mine : answers f.key (some v) = true :=
          (List.mem_filter.mp (only ▸ List.mem_singleton_self (some v))).2
        have key : v.key = f.key := by simpa [answers] using mine
        rw [List.map_cons, List.map_cons, key, ih later]
      · cases taken
    · cases taken

theorem takeEach_absent {out : List AnswerValue} {key : String}
    (taken : takeEach given fields = .ok (out, left)) (absent : ∀ entry ∈ given, answers key entry = false) :
    ∀ f ∈ fields, f.key ≠ key := by
  induction fields generalizing given out with
  | nil => exact fun f member => absurd member List.not_mem_nil
  | cons f rest ih =>
    rw [takeEach] at taken
    split at taken
    · rename_i v only
      split at taken
      · rename_i more left' later
        cases taken
        intro g member
        rcases List.mem_cons.mp member with rfl | other
        · rintro rfl
          have found := List.mem_filter.mp (only ▸ List.mem_singleton_self (some v))
          rw [absent _ found.1] at found
          cases found.2
        · refine ih later (fun entry inside => ?_) g other
          obtain ⟨before, member, rfl⟩ := List.mem_map.mp inside
          split
          · rfl
          · exact absent before member
      · cases taken
    · cases taken

theorem takeEach_distinct {out : List AnswerValue} (taken : takeEach given fields = .ok (out, left)) :
    (fields.map Field.key).Nodup := by
  induction fields generalizing given out with
  | nil => exact List.nodup_nil
  | cons f rest ih =>
    rw [takeEach] at taken
    split at taken
    · split at taken
      · rename_i more left' later
        cases taken
        rw [List.map_cons, List.nodup_cons]
        refine ⟨fun member => ?_, ih later⟩
        obtain ⟨g, inside, same⟩ := List.mem_map.mp member
        refine takeEach_absent later (fun entry here => ?_) g inside same
        obtain ⟨before, -, rfl⟩ := List.mem_map.mp here
        split
        · rfl
        · rename_i other
          exact Bool.eq_false_iff.mpr other
      · cases taken
    · cases taken

structure OneEach (fields : List Field) (values : List AnswerValue) : Prop where
  keys : values.map AnswerValue.key = fields.map Field.key
  distinct : (fields.map Field.key).Nodup
  fits : ∀ v ∈ values, overLimit v = false ∧ coherent v = true

theorem parse_oneEach {json : JsonReader} {text : String} {values : List AnswerValue}
    (parsed : parse json fields text = .ok values) : OneEach fields values := by
  unfold parse at parsed
  split at parsed
  · cases parsed
  · cases parsed
  split at parsed
  · cases parsed
  split at parsed
  · cases parsed
  rename_i entries _ out left taken
  split at parsed
  · cases parsed
  split at parsed
  · cases parsed
  rename_i fine
  cases parsed
  refine ⟨takeEach_keys taken, takeEach_distinct taken, fun v member => ?_⟩
  have good := List.find?_eq_none.mp fine v member
  simpa using good

end Agent24.Documents
