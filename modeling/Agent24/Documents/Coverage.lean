import Agent24.Documents.Calls

/-! An extraction covers the document: the pieces of a window are its blocks, in order, for every field. -/

set_option autoImplicit false
namespace Agent24.Documents
open List

section
variable (P : Platform) (json : JsonReader)

structure Told (heard : List (CompleteRequest × Reply)) (window : Window) (batch : List Field)
    (values : List AnswerValue) : Prop where
  reply : ∃ pass done, (⟨batch, window, pass⟩, .done done) ∈ heard ∧
    read P json batch pass done.text done.completionTokens = .ok values

inductive Split (heard : List (CompleteRequest × Reply)) : Window → List Field → List Piece → Prop where
  | whole {window batch values} (told : Told P json heard window batch values) :
      Split heard window batch [(window, values)]
  | halved {a b batch left right} (some_ : a ≠ [] ∧ b ≠ []) (first : Split heard a batch left)
    (second : Split heard b batch right) : Split heard (a ++ b) batch (left ++ right)
  | parted {window front back left right} (first : Split heard window front left)
    (second : Split heard window back right) : Split heard window (front ++ back) (left ++ right)

end

section
variable {P : Platform} {json : JsonReader} {pace : Pace} {world : World} {run mid run' : Run}
variable {window : Window} {batch : List Field} {heard heard' : List (CompleteRequest × Reply)}

variable {values : List AnswerValue}

theorem Told.mono (told : Told P json heard window batch values) (grows : heard <:+ heard') :
    Told P json heard' window batch values := by
  obtain ⟨pass, done, member, reads⟩ := told.reply
  exact ⟨pass, done, grows.mem member, reads⟩

theorem Split.mono {pieces : List Piece} (split : Split P json heard window batch pieces) (grows : heard <:+ heard') :
    Split P json heard' window batch pieces := by
  induction split with
  | whole told => exact .whole (told.mono grows)
  | halved some_ _ _ first second => exact .halved some_ first second
  | parted _ _ first second => exact .parted first second

def Pace.calls (pace : Pace) : Nat := (Waits.start pace).left pace + 1

def failed {α : Type} : Except Failure α → Option Failure
  | .error failure => some failure
  | .ok _ => none

theorem ask_ends {pass : Pass} {out : Except Refused (String × Nat)}
    (asked : ask pace world window batch pass run = (out, run')) :
    Ends pace.calls (failureOf out) run run' ∧
      ∀ text tokens, out = .ok (text, tokens) → Heard ⟨batch, window, pass⟩ text tokens run' :=
  call_ends asked

theorem Heard.told {pass : Pass} {text : String} {tokens : Nat}
    (heard : Heard ⟨batch, window, pass⟩ text tokens run)
    (reads : read P json batch pass text tokens = .ok values) :
    Told P json run.heard window batch values := by
  obtain ⟨done, member, rfl, rfl⟩ := heard.done
  exact ⟨pass, done, member, reads⟩

theorem firstPass_ends {fell : Option Fell} {out : Except Failure First}
    (passed : firstPass pace world P json window batch fell run = (out, run')) :
    Ends pace.calls (failed out) run run' ∧
      ∀ values, out = .ok (.values values) → Told P json run'.heard window batch values := by
  unfold firstPass at passed
  split at passed
  · cases passed
    exact ⟨(Ends.refl _).mono (Nat.zero_le _), fun _ same => (by cases same)⟩
  split at passed
  · rename_i failure after asked
    cases passed
    exact ⟨(ask_ends asked).1, fun _ same => (by cases same)⟩
  · rename_i after asked
    cases passed
    exact ⟨(ask_ends asked).1, fun _ same => (by cases same)⟩
  · rename_i text tokens after asked
    obtain ⟨ends, heard⟩ := ask_ends asked
    split at passed
    · rename_i values reads
      cases passed
      refine ⟨ends, fun _ same => ?_⟩
      cases same
      exact (heard text tokens rfl).told reads
    · cases passed
      exact ⟨ends, fun _ same => (by cases same)⟩
    · cases passed
      exact ⟨ends, fun _ same => (by cases same)⟩

theorem secondPass_ends {taken : Bool} {malformed : String} {rounds : Nat} {out : Except Failure Second}
    (passed : secondPass pace world P json window batch taken malformed rounds run = (out, run')) :
    Ends (rounds * pace.calls) (failed out) run run' ∧
      ∀ values, out = .ok (.values values) → Told P json run'.heard window batch values := by
  induction rounds generalizing taken malformed run with
  | zero =>
    cases passed
    exact ⟨((Ends.refl _).fail _).mono (Nat.zero_le _), fun _ same => (by cases same)⟩
  | succ rounds ih =>
    have one : pace.calls ≤ (rounds + 1) * pace.calls := Nat.le_mul_of_pos_left _ (Nat.succ_pos rounds)
    rw [secondPass] at passed
    split at passed
    · rename_i failure after asked
      cases passed
      exact ⟨(ask_ends asked).1.mono one, fun _ same => (by cases same)⟩
    · rename_i after asked
      split at passed
      · cases passed
        exact ⟨((ask_ends asked).1.fail _).mono one, fun _ same => (by cases same)⟩
      · cases passed
        exact ⟨(ask_ends asked).1.mono one, fun _ same => (by cases same)⟩
    · rename_i text tokens after asked
      obtain ⟨ends, heard⟩ := ask_ends asked
      split at passed
      · rename_i values reads
        cases passed
        refine ⟨ends.mono one, fun _ same => ?_⟩
        cases same
        exact (heard text tokens rfl).told reads
      · cases passed
        exact ⟨ends.mono one, fun _ same => (by cases same)⟩
      · obtain ⟨rest, told⟩ := ih passed
        exact ⟨(ends.trans rest).mono (by rw [Nat.add_mul, Nat.one_mul, Nat.add_comm]), told⟩

/-- The nodes of a tree of splits, at most: a window of one block and a batch of one field are not split. -/
def nodes (blocks fields : Nat) : Nat := (2 * max blocks 1 - 1) * (2 * max fields 1 - 1)

theorem nodes_halved {a b k : Nat} (some_ : 0 < a) (some' : 0 < b) : nodes a k + nodes b k + 1 ≤ nodes (a + b) k := by
  have wide : 2 * max (a + b) 1 - 1 = (2 * max a 1 - 1) + (2 * max b 1 - 1) + 1 := by omega
  simp only [nodes, wide, Nat.add_mul, Nat.one_mul]
  omega

theorem nodes_parted {n a b : Nat} (some_ : 0 < a) (some' : 0 < b) : nodes n a + nodes n b + 1 ≤ nodes n (a + b) := by
  simp only [nodes, Nat.mul_comm (2 * max n 1 - 1)]
  exact nodes_halved some_ some'

theorem nodes_pos (n k : Nat) : 1 ≤ nodes n k := Nat.mul_pos (by omega) (by omega)

structure Answers (P : Platform) (json : JsonReader) (calls : Nat) (window : Window) (batch : List Field) (run : Run)
    (out : Except Failure (List Piece) × Run) : Prop where
  ends : Ends calls (failed out.1) run out.2
  split : ∀ pieces, out.1 = .ok pieces → Split P json out.2.heard window batch pieces

theorem both_answers {first second : Run → Except Failure (List Piece) × Run} {calls more : Nat}
    {window' : Window} {batch' : List Field} (here : ∀ run, Answers P json calls window batch run (first run))
    (there : ∀ run, Answers P json more window' batch' run (second run)) (run : Run) :
    Ends (calls + more) (failed (both first second run).1) run (both first second run).2 ∧
      ∀ pieces, (both first second run).1 = .ok pieces → ∃ left right, pieces = left ++ right ∧
        Split P json (both first second run).2.heard window batch left ∧
        Split P json (both first second run).2.heard window' batch' right := by
  have one := here run
  unfold both
  split
  · rename_i failure after same
    rw [same] at one
    exact ⟨one.ends.mono (Nat.le_add_right ..), fun _ other => (by cases other)⟩
  · rename_i out after same
    rw [same] at one
    have two := there after
    split
    · rename_i failure last same'
      rw [same'] at two
      exact ⟨one.ends.trans two.ends, fun _ other => (by cases other)⟩
    · rename_i rest last same'
      rw [same'] at two
      refine ⟨one.ends.trans two.ends, fun pieces other => ?_⟩
      cases other
      exact ⟨out, rest, rfl, (one.split out rfl).mono two.ends.grows, two.split rest rfl⟩

variable (pace world P json) in
theorem answer_answers (window : Window) (batch : List Field) (fell : Option Fell) (taken : Bool) (run : Run) :
    Answers P json (3 * pace.calls * nodes window.length batch.length) window batch run
      (answer pace world P json window batch fell taken run) := by
  have one (n k : Nat) : pace.calls ≤ 3 * pace.calls * nodes n k := by
    have := Nat.le_mul_of_pos_right (3 * pace.calls) (nodes_pos n k)
    omega
  have three (n k : Nat) : pace.calls + 2 * pace.calls ≤ 3 * pace.calls * nodes n k := by
    have := Nat.le_mul_of_pos_right (3 * pace.calls) (nodes_pos n k)
    omega
  induction window, batch, fell, taken, run using answer.induct pace world P json with
  | case1 window batch fell taken run failure after passed =>
    unfold answer
    simp only [passed]
    exact ⟨(firstPass_ends passed).1.mono (one ..), fun _ same => (by cases same)⟩
  | case2 window batch fell taken run values after passed =>
    unfold answer
    simp only [passed]
    refine ⟨(firstPass_ends passed).1.mono (one ..), fun _ same => ?_⟩
    cases same
    exact .whole ((firstPass_ends passed).2 values rfl)
  | case3 window batch fell taken run why after passed failure last passed' =>
    unfold answer
    simp only [passed, passed']
    exact ⟨((firstPass_ends passed).1.trans (secondPass_ends passed').1).mono (three ..), fun _ same =>
        (by cases same)⟩
  | case4 window batch fell taken run why after passed values last passed' =>
    unfold answer
    simp only [passed, passed']
    refine ⟨((firstPass_ends passed).1.trans (secondPass_ends passed').1).mono (three ..), fun _ same => ?_⟩
    cases same
    exact .whole ((secondPass_ends passed').2 values rfl)
  | case5 window batch fell taken run why after passed last passed' cut =>
    have ends := ((firstPass_ends passed).1.trans (secondPass_ends passed').1).mono (three window.length batch.length)
    unfold answer
    simp only [passed, passed']
    split
    · exact ⟨ends.fail _, fun _ same => (by cases same)⟩
    · rename_i a b cut'
      cases cut.symm.trans cut'
  | case6 window batch fell taken run why after passed last passed' a b cut left right =>
    have ends := (firstPass_ends passed).1.trans (secondPass_ends passed').1
    unfold answer
    simp only [passed, passed']
    split
    · rename_i cut'
      cases cut'.symm.trans cut
    rename_i a' b' cut'
    obtain ⟨rfl, rfl⟩ := Prod.mk.inj (Option.some.inj (cut'.symm.trans cut))
    obtain ⟨rest, pieces⟩ := both_answers left right last
    obtain ⟨whole, some_, some'⟩ := halves_spec cut
    have room := nodes_halved (k := batch.length) (length_pos_iff.mpr some_) (length_pos_iff.mpr some')
    subst whole
    refine ⟨(ends.trans rest).mono ?_, fun out same => ?_⟩
    · rw [length_append]
      have := Nat.mul_le_mul_left (3 * pace.calls) room
      simp only [Nat.mul_add, Nat.mul_one] at this
      omega
    · obtain ⟨first, second, rfl, splits, splits'⟩ := pieces out same
      exact .halved ⟨some_, some'⟩ splits splits'
  | case7 window batch fell taken run why after passed last passed' many next left right =>
    have ends := (firstPass_ends passed).1.trans (secondPass_ends passed').1
    unfold answer
    simp only [passed, passed', many, dif_pos]
    obtain ⟨rest, pieces⟩ := both_answers left right last
    have cut := take_append_drop (batch.length / 2) batch
    have short : (batch.take (batch.length / 2)).length + (batch.drop (batch.length / 2)).length = batch.length := by
      rw [← length_append, cut]
    have some_ : 0 < (batch.take (batch.length / 2)).length := by rw [length_take]; omega
    have some' : 0 < (batch.drop (batch.length / 2)).length := by rw [length_drop]; omega
    have room := nodes_parted (n := window.length) some_ some'
    rw [short] at room
    refine ⟨(ends.trans rest).mono ?_, fun out same => ?_⟩
    · have := Nat.mul_le_mul_left (3 * pace.calls) room
      simp only [Nat.mul_add, Nat.mul_one] at this
      omega
    · obtain ⟨first, second, rfl, splits, splits'⟩ := pieces out same
      have whole := Split.parted splits splits'
      rw [cut] at whole
      exact whole
  | case8 window batch fell taken run why after passed last passed' few =>
    have ends := ((firstPass_ends passed).1.trans (secondPass_ends passed').1).mono (three window.length batch.length)
    unfold answer
    simp only [passed, passed', few, dif_neg, not_false_eq_true]
    exact ⟨ends.fail _, fun _ same => (by cases same)⟩

def fieldPieces (key : String) (pieces : List Piece) : List (Window × AnswerValue) :=
  pieces.flatMap fun piece => (piece.2.filter fun a => a.key == key).map fun a => (piece.1, a)

theorem fieldPieces_append (key : String) (pieces more : List Piece) :
    fieldPieces key (pieces ++ more) = fieldPieces key pieces ++ fieldPieces key more := flatMap_append

structure Covers (P : Platform) (json : JsonReader) (heard : List (CompleteRequest × Reply)) (key : String)
    (window : Window) (pieces : List (Window × AnswerValue)) : Prop where
  whole : (pieces.map Prod.fst).flatten = window
  some_ : window ≠ [] → ∀ piece ∈ pieces, piece.1 ≠ []
  answered : ∀ piece ∈ pieces, piece.2.key = key ∧ ∃ batch values, key ∈ batch.map Field.key ∧
    Told P json heard piece.1 batch values ∧ OneEach batch values ∧ piece.2 ∈ values

theorem Told.oneEach (told : Told P json heard window batch values) :
    OneEach batch values := by
  obtain ⟨pass, done, -, reads⟩ := told.reply
  unfold read at reads
  split at reads
  · cases reads
  split at reads
  · cases reads
  split at reads
  · cases reads
  · exact parse_oneEach reads

theorem filter_key {key : String} (distinct : (values.map AnswerValue.key).Nodup)
    (here : key ∈ values.map AnswerValue.key) :
    ∃ a ∈ values, values.filter (fun a => a.key == key) = [a] ∧ a.key = key := by
  induction values with
  | nil => cases here
  | cons a rest ih =>
    rw [map_cons, nodup_cons] at distinct
    by_cases mine : a.key = key
    · have others : rest.filter (fun b => b.key == key) = [] := by
        rw [filter_eq_nil_iff]
        intro b member same
        rw [beq_iff_eq] at same
        exact distinct.1 (mem_map.mpr ⟨b, member, same.trans mine.symm⟩)
      exact ⟨a, mem_cons_self .., by rw [filter_cons_of_pos (by simpa using mine), others], mine⟩
    · obtain ⟨b, member, only, same⟩ := ih distinct.2 ((mem_cons.mp here).resolve_left (Ne.symm mine))
      exact ⟨b, mem_cons_of_mem _ member, by rw [filter_cons_of_neg (by simpa using mine), only], same⟩

theorem Split.absent {pieces : List Piece} {key : String} (split : Split P json heard window batch pieces)
    (absent : key ∉ batch.map Field.key) : fieldPieces key pieces = [] := by
  induction split with
  | @whole window batch values told =>
    have none : values.filter (fun a => a.key == key) = [] := by
      rw [filter_eq_nil_iff]
      intro a member same
      rw [beq_iff_eq] at same
      rw [← told.oneEach.keys] at absent
      exact absent (mem_map.mpr ⟨a, member, same⟩)
    simp [fieldPieces, none]
  | halved _ _ _ first second => rw [fieldPieces_append, first absent, second absent, nil_append]
  | parted _ _ first second =>
    rw [map_append, mem_append, not_or] at absent
    rw [fieldPieces_append, first absent.1, second absent.2, nil_append]

theorem Split.covers {pieces : List Piece} {key : String} (split : Split P json heard window batch pieces)
    (distinct : (batch.map Field.key).Nodup) (here : key ∈ batch.map Field.key) :
    Covers P json heard key window (fieldPieces key pieces) := by
  induction split with
  | @whole window batch values told =>
    have each := told.oneEach
    obtain ⟨a, member, only, mine⟩ := filter_key (each.keys ▸ distinct) (each.keys ▸ here)
    have one : fieldPieces key [(window, values)] = [(window, a)] := by simp [fieldPieces, only]
    rw [one]
    refine ⟨by simp, fun some_ piece inside => ?_, fun piece inside => ?_⟩
    · rw [mem_singleton.mp inside]
      exact some_
    · rw [mem_singleton.mp inside]
      exact ⟨mine, batch, values, here, told, each, member⟩
  | @halved a b batch left right some_ _ _ first second =>
    have one := first distinct here
    have two := second distinct here
    rw [fieldPieces_append]
    refine ⟨by rw [map_append, flatten_append, one.whole, two.whole], fun _ piece inside => ?_,
      fun piece inside => ?_⟩
    · exact (mem_append.mp inside).elim (one.some_ some_.1 piece) (two.some_ some_.2 piece)
    · exact (mem_append.mp inside).elim (one.answered piece) (two.answered piece)
  | @parted window front back left right before after first second =>
    rw [map_append, nodup_append] at distinct
    rw [map_append, mem_append] at here
    rw [fieldPieces_append]
    rcases here with mine | mine
    · rw [after.absent fun other => distinct.2.2 key mine key other rfl, append_nil]
      exact first distinct.1 mine
    · rw [before.absent fun other => distinct.2.2 key other key mine rfl, nil_append]
      exact second distinct.2.1 mine

/-- The fields of an extraction: the handler refuses a key given twice. -/
structure Fields where
  list : List Field
  distinct : (list.map Field.key).Nodup

theorem batches_cover {batches : List (List Field)} {pieces : List (List Piece)} {key : String}
    (splits : List.Forall₂ (fun batch => Split P json heard window batch) batches pieces)
    (distinct : (batches.flatten.map Field.key).Nodup) (here : key ∈ batches.flatten.map Field.key) :
    Covers P json heard key window (fieldPieces key pieces.flatten) := by
  have absent {batches : List (List Field)} {pieces : List (List Piece)}
      (splits : List.Forall₂ (fun batch => Split P json heard window batch) batches pieces)
      (absent : key ∉ batches.flatten.map Field.key) : fieldPieces key pieces.flatten = [] := by
    induction splits with
    | nil => rfl
    | cons first _ ih =>
      rw [flatten_cons, map_append, mem_append, not_or] at absent
      rw [flatten_cons, fieldPieces_append, first.absent absent.1, ih absent.2, nil_append]
  induction splits with
  | nil => cases here
  | cons first rest ih =>
    rw [flatten_cons, map_append, nodup_append] at distinct
    rw [flatten_cons, map_append, mem_append] at here
    rw [flatten_cons, fieldPieces_append]
    rcases here with mine | mine
    · rw [absent rest fun other => distinct.2.2 key mine key other rfl, append_nil]
      exact first.covers distinct.1 mine
    · rw [first.absent fun other => distinct.2.2 key other key mine rfl, nil_append]
      exact ih distinct.2.1 mine

/-- Every window with every batch: the pieces come window by window, and cover each for every field. -/
theorem windows_cover {batches : List (List Field)} (distinct : (batches.flatten.map Field.key).Nodup)
    {windows : List Window} {pieces : List (List Piece)}
    (splits : List.Forall₂ (fun each : Window × List Field => Split P json heard each.1 each.2)
      (windows.flatMap fun window => batches.map fun batch => (window, batch)) pieces) :
    ∃ grouped : List (List Piece), pieces.flatten = grouped.flatten ∧ List.Forall₂ (fun window pieces =>
      ∀ f ∈ batches.flatten, Covers P json heard f.key window (fieldPieces f.key pieces)) windows grouped := by
  induction windows generalizing pieces with
  | nil =>
    cases splits
    exact ⟨[], rfl, .nil⟩
  | cons window rest ih =>
    rw [flatMap_cons] at splits
    have here := List.forall₂_take batches.length splits
    have later := List.forall₂_drop batches.length splits
    rw [take_left' (length_map _), List.forall₂_map_left_iff] at here
    rw [drop_left' (length_map _)] at later
    obtain ⟨grouped, same, covers⟩ := ih later
    refine ⟨(pieces.take batches.length).flatten :: grouped, ?_, .cons (fun f member => ?_) covers⟩
    · rw [flatten_cons, ← same, ← flatten_append, take_append_drop]
    · exact batches_cover here distinct (mem_map_of_mem member)

section
variable {Said Merged : Type} {said : Window → AnswerValue → Said} {merge : String → List Said → Except String Merged}

variable {fields : List Field}

theorem note_distinct (distinct : (fields.map Field.key).Nodup) (sofar : String → List Said) (window : Window)
    (a : AnswerValue) : note said fields (fields.map fun f => sofar f.key) window a =
      fields.map fun f => if a.key = f.key then sofar f.key ++ [said window a] else sofar f.key := by
  unfold note
  induction fields with
  | nil => rfl
  | cons f rest ih =>
    rw [map_cons, nodup_cons] at distinct
    rw [List.findIdx?_cons]
    by_cases mine : f.key = a.key
    · have others : (rest.map fun g => if a.key = g.key then sofar g.key ++ [said window a] else sofar g.key) =
          rest.map fun g => sofar g.key := by
        apply map_congr_left
        intro g member
        rw [if_neg]
        rintro same
        exact distinct.1 (mem_map.mpr ⟨g, member, same.symm.trans mine.symm⟩)
      rw [if_pos (by simpa using mine), map_cons, map_cons, others, if_pos mine.symm]
      rfl
    · have later := ih distinct.2
      rw [if_neg (by simpa using mine), map_cons, map_cons, if_neg (Ne.symm mine), ← later]
      cases rest.findIdx? fun g => g.key == a.key with
      | none => rfl
      | some i => rfl

variable (said) in
theorem notePiece_distinct (distinct : (fields.map Field.key).Nodup) (sofar : String → List Said)
    (window : Window) (values : List AnswerValue) :
    values.foldl (fun saidOf a => note said fields saidOf window a) (fields.map fun f => sofar f.key) =
      fields.map fun f => sofar f.key ++ (values.filter fun a => a.key == f.key).map (said window) := by
  induction values generalizing sofar with
  | nil => simp
  | cons a rest ih =>
    rw [foldl_cons, note_distinct distinct,
      ih fun key => if a.key = key then sofar key ++ [said window a] else sofar key]
    apply map_congr_left
    intro f _
    by_cases mine : a.key = f.key
    · rw [if_pos mine, filter_cons_of_pos (by simpa using mine), map_cons, append_assoc,
        singleton_append]
    · rw [if_neg mine, filter_cons_of_neg (by simpa using mine)]

theorem notePieces_distinct (distinct : (fields.map Field.key).Nodup) (sofar : String → List Said)
    (pieces : List Piece) :
    notePieces said fields (fields.map fun f => sofar f.key) pieces =
      fields.map fun f => sofar f.key ++ (fieldPieces f.key pieces).map fun piece => said piece.1 piece.2 := by
  induction pieces generalizing sofar with
  | nil => simp [notePieces, fieldPieces]
  | cons piece rest ih =>
    have first := notePiece_distinct said distinct sofar piece.1 piece.2
    rw [notePieces, foldl_cons, first]
    refine (ih fun key => sofar key ++ (piece.2.filter fun a => a.key == key).map (said piece.1)).trans ?_
    apply map_congr_left
    intro f _
    rw [append_assoc, fieldPieces, fieldPieces, flatMap_cons, map_append, map_map]
    rfl

def callsFor (pace : Pace) (each : List (Window × List Field)) : Nat :=
  (each.map fun e => 3 * pace.calls * nodes e.1.length e.2.length).sum

variable (pace world P json said) in
theorem askEach_ends (distinct : (fields.map Field.key).Nodup) (total : Nat) (each : List (Window × List Field))
    (done : Nat) (sofar : String → List Said) (run : Run) :
    let out := askEach pace world P json said fields total each done (fields.map fun f => sofar f.key) run
    Ends (callsFor pace each) (failed out.1) run out.2 ∧ ∀ saidOf, out.1 = .ok saidOf → ∃ pieces,
      List.Forall₂ (fun e : Window × List Field => Split P json out.2.heard e.1 e.2) each pieces ∧
        saidOf = fields.map fun f => sofar f.key ++ (fieldPieces f.key pieces.flatten).map fun p => said p.1 p.2 := by
  induction each generalizing done sofar run with
  | nil =>
    refine ⟨Ends.refl run, fun saidOf same => ⟨[], .nil, ?_⟩⟩
    cases same
    simp [fieldPieces]
  | cons e rest ih =>
    obtain ⟨window, batch⟩ := e
    have one := answer_answers P json pace world window batch none false run
    simp only [askEach]
    split
    · rename_i failure after asked
      rw [asked] at one
      exact ⟨one.ends.mono (Nat.le_add_right ..), fun _ same => (by cases same)⟩
    · rename_i pieces after asked
      rw [asked] at one
      have reported : Ends 0 none after { after with progress := (done + 1, total) :: after.progress } :=
        ⟨Nat.le_refl _, suffix_refl _, fun _ steady => ⟨⟨steady.unstopped.asked, steady.unstopped.heard⟩,
            steady.served⟩,
          fun _ none => (by cases none)⟩
      rw [notePieces_distinct distinct]
      obtain ⟨ends, splits⟩ := ih (done + 1)
        (fun key => sofar key ++ (fieldPieces key pieces).map fun p => said p.1 p.2)
        { after with progress := (done + 1, total) :: after.progress }
      refine ⟨(one.ends.trans (reported.trans ends)).mono ?_, fun saidOf same => ?_⟩
      · simp only [callsFor, map_cons, sum_cons]
        omega
      · obtain ⟨others, covers, noted⟩ := splits saidOf same
        refine ⟨pieces :: others, .cons ((one.split pieces rfl).mono ends.grows) covers, ?_⟩
        rw [noted]
        apply map_congr_left
        intro f _
        rw [flatten_cons, fieldPieces_append, map_append, append_assoc]

structure Faithful (pace : Pace) (world : World) (P : Platform) (json : JsonReader)
    (said : Window → AnswerValue → Said) (merge : String → List Said → Except String Merged)
    (windows : List Window) (fields : Fields) : Prop where
  ends : (paced pace world P json said merge windows fields.list .start).2.heard.length ≤
    callsFor pace (windows.flatMap fun window => (batches fields.list BATCH).map fun batch => (window, batch))
  /-- Its fields are answered piece by piece, the pieces of each window its blocks in order. -/
  covers : ∀ out, (paced pace world P json said merge windows fields.list .start).1 = .ok out →
    ∃ pieces : List (List Piece),
      List.Forall₂ (fun window pieces => ∀ f ∈ fields.list,
        Covers P json (paced pace world P json said merge windows fields.list .start).2.heard f.key window
          (fieldPieces f.key pieces)) windows pieces ∧
      mergeEach merge (fields.list.map fun f =>
        (f, (fieldPieces f.key pieces.flatten).map fun piece => said piece.1 piece.2)) = .ok out.values
  oneModel : ∀ out, (paced pace world P json said merge windows fields.list .start).1 = .ok out →
    ∀ entry ∈ (paced pace world P json said merge windows fields.list .start).2.heard, ∀ done, entry.2 = .done done →
      done.tier = .local_ ∧ done.modelId = some out.modelId
  /-- Told to stop, by the job or by the kernel, it has no result. -/
  stops : ¬ Unstopped (paced pace world P json said merge windows fields.list .start).2 →
    (paced pace world P json said merge windows fields.list .start).1 = .error .cancelled ∨
      (paced pace world P json said merge windows fields.list .start).1 = .error .interrupted

variable (pace world P json said merge) in
theorem paced_cases (windows : List Window) (fields : Fields) :
    let each := windows.flatMap fun window => (batches fields.list BATCH).map fun batch => (window, batch)
    let out := paced pace world P json said merge windows fields.list .start
    Ends (callsFor pace each) (failed out.1) .start out.2 ∧ ∀ extracted, out.1 = .ok extracted →
      out.2.modelId = some extracted.modelId ∧ ∃ pieces,
        List.Forall₂ (fun e : Window × List Field => Split P json out.2.heard e.1 e.2) each pieces ∧
        mergeEach merge (fields.list.map fun f =>
          (f, (fieldPieces f.key pieces.flatten).map fun piece => said piece.1 piece.2)) = .ok extracted.values := by
  intro each out
  have asked := askEach_ends P json pace world said fields.distinct
    each.length each 0 (fun _ => []) .start
  dsimp only at asked
  show Ends _ (failed (paced pace world P json said merge windows fields.list .start).1) _ _ ∧ _
  unfold out paced
  dsimp only
  split
  · rename_i failure after same
    rw [same] at asked
    exact ⟨asked.1, fun _ other => (by cases other)⟩
  · rename_i saidOf after same
    rw [same] at asked
    obtain ⟨ends, splits⟩ := asked
    split
    · exact ⟨ends.fail _, fun _ other => (by cases other)⟩
    rename_i modelId served
    split
    · exact ⟨ends.fail _, fun _ other => (by cases other)⟩
    rename_i values merged
    refine ⟨ends, fun extracted other => ?_⟩
    cases other
    obtain ⟨pieces, covers, noted⟩ := splits saidOf rfl
    have zipped {β : Type} (g : Field → β) :
        fields.list.zip (fields.list.map g) = fields.list.map fun f => (f, g f) := by
      simpa using zip_map' (f := id) (g := g) (l := fields.list)
    rw [noted, zipped] at merged
    exact ⟨served, pieces, covers, merged⟩

theorem paced_faithful (windows : List Window) (fields : Fields) :
    Faithful pace world P json said merge windows fields := by
  obtain ⟨ends, result⟩ := paced_cases P json pace world said merge windows fields
  constructor
  case ends => simpa [Run.start] using ends.few
  case covers =>
    intro out same
    obtain ⟨-, pieces, splits, merged⟩ := result out same
    have whole := flatten_batches fields.list BATCH
    obtain ⟨grouped, same, covers⟩ := windows_cover (by rw [whole]; exact fields.distinct) splits
    rw [whole] at covers
    exact ⟨grouped, covers, same ▸ merged⟩
  case oneModel =>
    intro out same entry member done reply
    obtain ⟨known, -⟩ := result out same
    have steady := ends.steady (by rw [same]; rfl) steady_start
    obtain ⟨near, id, mine, one⟩ := steady.served entry member done reply
    exact ⟨near, mine.trans (one.symm.trans known)⟩
  case stops =>
    intro told
    cases same : (paced pace world P json said merge windows fields.list .start).1 with
    | ok out => exact absurd (ends.steady (by rw [same]; rfl) steady_start).unstopped told
    | error failure =>
      cases failure with
      | cancelled => exact .inl rfl
      | interrupted => exact .inr rfl
      | engine why => exact absurd (ends.stopped _ (by rw [same]; rfl) rfl steady_start) told
      | unanswered why => exact absurd (ends.stopped _ (by rw [same]; rfl) rfl steady_start) told

end

structure PlanCovers (layer : List Block) (budget : Nat) (cuts : List (List Nat × List Nat)) : Prop where
  windows : windows layer budget = cuts.map fun cut => cut.1 ++ cut.2
  fresh : (cuts.map Prod.snd).flatten = List.range layer.length
  carried : ∀ carried start rest, (carried, start :: rest) ∈ cuts →
    EndsAt (fun i => (layer.map Block.page).getD i 0) start carried

theorem windows_planCovers (layer : List Block) (budget : Nat) : ∃ cuts, PlanCovers layer budget cuts :=
  ⟨plan (fun i => (layer.map Block.page).getD i 0) (fun i => (layer.map cost).getD i 0) budget layer.length, rfl,
    plan_fresh _, fun _ _ _ member => plan_carried member⟩

/-- An extraction covers the document. -/
theorem extraction_covers (pace : Pace) (world : World) (P : Platform) (json : JsonReader) {Said Merged : Type}
    (said : Window → AnswerValue → Said) (merge : String → List Said → Except String Merged) (fields : Fields) :
    (∀ windows : List Window, Faithful pace world P json said merge windows fields) ∧
      ∀ layer budget, ∃ cuts, PlanCovers layer budget cuts :=
  ⟨fun windows => paced_faithful windows fields, windows_planCovers⟩

end
end Agent24.Documents
