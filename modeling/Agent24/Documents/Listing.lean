import Agent24.JsonSize
import Agent24.Library.Keyset
import Agent24.Documents.Store
import Mathlib.Data.Prod.Lex

/-! The list of documents, newest first, page by page. -/

set_option autoImplicit false
namespace Agent24.Documents
open Library List

def DEFAULT_LIMIT : Int := 50

def MAX_LIMIT : Int := 200

def MAX_TITLE_CHARS : Nat := 500

def DocumentRow.checked (d : DocumentRow) : Bool :=
  isId .document d.id && d.title.toList.length ≤ MAX_TITLE_CHARS && isMediaType d.mediaType &&
    1 ≤ d.headRevision && isTimestamp d.createdAt && isTimestamp d.updatedAt

def documentJson (d : DocumentRow) : Json :=
  .obj [("created_at", .str d.createdAt), ("document_id", .str d.id), ("head_revision", .int d.headRevision),
    ("media_type", .str d.mediaType), ("title", .str d.title), ("updated_at", .str d.updatedAt)]

structure DocumentList where
  documents : List DocumentRow
  nextCursor : Option String

def DocumentList.json (page : DocumentList) : Json :=
  .obj [("documents", .arr (page.documents.map documentJson)),
    ("next_cursor", page.nextCursor.elim .null .str)]

/-- Rows are ordered by their creation and then by id, as texts. -/
abbrev ListKey := Lex (String × String)

def listKey (d : DocumentRow) : ListKey := toLex (d.createdAt, d.id)

/-- The last document's `created_at` and id, hex-encoded. -/
def encodeCursor (d : DocumentRow) : String := hexText (d.createdAt ++ " " ++ d.id)

def decodeCursor (cursor : String) : Option ListKey :=
  if cursor.utf8ByteSize ≠ CURSOR_LEN then none
  else do
    let (createdAt, id) ← Text.splitOnce ' ' (← unhexText cursor)
    if isTimestamp createdAt && isId .document id then some (toLex (createdAt, id)) else none

/-- The rows that fit after `used` bytes, a comma for each. -/
def fitRows (budget : Nat) : Nat → List DocumentRow → List DocumentRow
  | _, [] => []
  | used, d :: rest =>
    let size := (documentJson d).size + 1
    if budget < used + size then [] else d :: fitRows budget (used + size) rest

/-- The page: at most `limit` rows and at most `budget` bytes; none if not even one row fits. -/
def fitPage (rows : List DocumentRow) (limit budget : Nat) : Option DocumentList :=
  -- the envelope with a full-length cursor
  let used := (DocumentList.json ⟨[], some (String.ofList (List.replicate CURSOR_LEN '0'))⟩).size
  let documents := fitRows budget used (rows.take limit)
  if documents.isEmpty && 0 < rows.length then none
  else
    let more := documents.length < rows.length
    some ⟨documents, if more then documents.getLast?.map encodeCursor else none⟩

def listRows (store : Store) (only : Option (List String)) (after : Option ListKey)
    (limit : Nat) : List DocumentRow :=
  let among := store.documents.rows.filter fun d => only.all fun ids => ids.contains d.id
  (Keyset.after listKey after among).take (limit + 1)

/-- The page after `cursor`: at most `limit` documents and `budget` bytes of JSON, newest first; `only`
the documents whose ids it holds, where it is given. -/
def listDocuments (store : Store) (only : Option (List String)) (cursor : Option String) (limit : Int)
    (budget : Nat) : Except ApiError DocumentList :=
  if ¬ (1 ≤ limit ∧ limit ≤ MAX_LIMIT) then .error (.invalidRequest "limit must be 1 to 200")
  else
    match cursor.map decodeCursor with
    | some none => .error (.invalidRequest "bad cursor")
    | after =>
      -- no query for a scope that grants nothing
      if only.any List.isEmpty then .ok ⟨[], none⟩
      else
        let rows := listRows store only after.join limit.toNat
        if rows.all DocumentRow.checked then
          match fitPage rows limit.toNat budget with
          | some page => .ok page
          | none => .error (.overBudget budget)
        else .error .databaseFailed

theorem DocumentRow.checked_iff (d : DocumentRow) : d.checked = true ↔
    isId .document d.id = true ∧ d.title.toList.length ≤ MAX_TITLE_CHARS ∧ isMediaType d.mediaType = true ∧
      1 ≤ d.headRevision ∧ isTimestamp d.createdAt = true ∧ isTimestamp d.updatedAt = true := by
  simp only [checked, Bool.and_eq_true, decide_eq_true_eq]
  tauto

theorem encodeCursor_bytes {d : DocumentRow} (sound : d.checked = true) :
    (encodeCursor d).utf8ByteSize = CURSOR_LEN := by
  obtain ⟨id, -, -, -, created, -⟩ := d.checked_iff.mp sound
  obtain ⟨createdLength, createdPlain⟩ := isTimestamp_plain created
  obtain ⟨idLength, idPlain⟩ := isId_plain id
  rw [encodeCursor, bytes_hexText, String.utf8ByteSize_append, String.utf8ByteSize_append, createdPlain.bytes,
    idPlain.bytes, createdLength, idLength]
  rfl

theorem decode_encodeCursor {d : DocumentRow} (sound : d.checked = true) :
    decodeCursor (encodeCursor d) = some (listKey d) := by
  obtain ⟨id, -, -, -, created, -⟩ := d.checked_iff.mp sound
  have splits : Text.splitOnce ' ' (d.createdAt ++ " " ++ d.id) = some (d.createdAt, d.id) := by
    refine (Text.splitOnce_eq_some ..).mpr ⟨by rw [String.append_assoc]; rfl, fun member => ?_⟩
    exact ((isTimestamp_plain created).2 ' ' member).2 rfl
  rw [decodeCursor, if_neg (not_not.mpr (encodeCursor_bytes sound)), encodeCursor, unhexText_hexText]
  simp only [Option.bind_eq_bind, Option.bind_some, splits, created, id, Bool.and_self, if_true]
  rfl

theorem fitRows_prefix (budget used : Nat) (rows : List DocumentRow) : fitRows budget used rows <+: rows := by
  induction rows generalizing used with
  | nil => exact nil_prefix
  | cons d rest ih =>
    unfold fitRows
    dsimp only
    split
    · exact nil_prefix
    · exact (cons_prefix_cons.mpr ⟨rfl, ih _⟩)

def rowBytes (rows : List DocumentRow) : Nat := (rows.map fun d => (documentJson d).size + 1).sum

theorem rowBytes_nil : rowBytes [] = 0 := rfl

theorem fitRows_fits {budget used : Nat} (room : used ≤ budget) (rows : List DocumentRow) :
    used + rowBytes (fitRows budget used rows) ≤ budget := by
  induction rows generalizing used with
  | nil => exact room
  | cons d rest ih =>
    unfold fitRows
    dsimp only
    split
    · exact room
    have behind := @ih (used + ((documentJson d).size + 1)) (by omega)
    simp only [rowBytes, map_cons, sum_cons] at behind ⊢
    omega

def envelopeBytes : Nat := (DocumentList.json ⟨[], some (String.ofList (List.replicate CURSOR_LEN '0'))⟩).size

theorem envelopeBytes_eq : envelopeBytes = 143 := by
  have rows : (Json.arr ([].map documentJson)).size = 2 := by decide +kernel
  have cursor : (Json.str (String.ofList (List.replicate CURSOR_LEN '0'))).size = 112 := by
    rw [Json.size_eq, Json.renderChars, Json.renderStr, String.toList_ofList]
    decide +kernel
  have documents : Json.bytes (Json.renderStr "documents") = 11 := by decide +kernel
  have next : Json.bytes (Json.renderStr "next_cursor") = 13 := by decide +kernel
  unfold envelopeBytes DocumentList.json
  dsimp only [Option.elim_some]
  rw [Json.size_obj_two, documents, next, rows, cursor]

theorem DocumentList.json_size {page : DocumentList} (cursor : ∀ c ∈ page.nextCursor, (Json.str c).size ≤ 112) :
    page.json.size ≤ envelopeBytes + rowBytes page.documents := by
  have rows : (Json.arr (page.documents.map documentJson)).size ≤ 2 + rowBytes page.documents := by
    have items := Json.size_arr (page.documents.map documentJson)
    rwa [map_map] at items
  have next : (page.nextCursor.elim Json.null Json.str).size ≤ 112 := by
    cases given : page.nextCursor with
    | none => decide +kernel
    | some c => exact cursor c given
  have names : Json.bytes (Json.renderStr "documents") = 11 ∧ Json.bytes (Json.renderStr "next_cursor") = 13 := by
    decide +kernel
  rw [envelopeBytes_eq, json, Json.size_obj_two, names.1, names.2]
  omega

theorem encodeCursor_size {d : DocumentRow} (sound : d.checked = true) : (Json.str (encodeCursor d)).size ≤ 112 := by
  have known : ∀ c ∈ ['0', '1', '2', '3', '4', '5', '6', '7', '8', '9', 'a', 'b', 'c', 'd', 'e', 'f'],
      Json.escapeChar c = [c] := all_iff_forall_prop.mp (by decide)
  have plain : (encodeCursor d).toList.flatMap Json.escapeChar = (encodeCursor d).toList := by
    rw [encodeCursor, hexText, String.toList_ofList, flatMap_assoc]
    refine flatMap_congr fun b _ => ?_
    simp [hexByte, known _ (hexDigitOf_mem _)]
  have size := encodeCursor_bytes sound
  rw [Json.utf8ByteSize_eq] at size
  have quote : '"'.utf8Size = 1 := by decide
  rw [Json.size_eq, Json.renderChars, Json.renderStr, plain]
  simp only [cons_append, Json.bytes_cons, Json.bytes_append, quote, Json.bytes_nil, size]
  decide

section
variable {rows : List DocumentRow} {limit budget : Nat} {page : DocumentList}

structure Fitted (rows : List DocumentRow) (limit budget : Nat) (page : DocumentList) : Prop where
  front : page.documents <+: rows.take limit
  room : rowBytes page.documents + envelopeBytes ≤ budget ∨ page.documents = []
  none_ : page.nextCursor = none → page.documents = rows
  next : ∀ c ∈ page.nextCursor, ∃ d, page.documents.getLast? = some d ∧ encodeCursor d = c

theorem fitPage_fitted (fits : fitPage rows limit budget = some page) : Fitted rows limit budget page := by
  unfold fitPage at fits
  dsimp only at fits
  rw [← envelopeBytes] at fits
  have front := fitRows_prefix budget envelopeBytes (rows.take limit)
  have whole := front.trans (List.take_prefix limit rows)
  have room : rowBytes (fitRows budget envelopeBytes (rows.take limit)) + envelopeBytes ≤ budget ∨
      fitRows budget envelopeBytes (rows.take limit) = [] := by
    by_cases space : envelopeBytes ≤ budget
    · have fit := fitRows_fits space (rows.take limit)
      exact .inl (by omega)
    refine .inr ?_
    cases rows.take limit with
    | nil => rfl
    | cons d rest => rw [fitRows, if_pos (by omega)]
  generalize fitRows budget envelopeBytes (rows.take limit) = documents at fits front whole room
  split at fits
  · cases fits
  rename_i some_
  rw [Option.some.injEq] at fits
  subst fits
  have short := whole.length_le
  refine ⟨front, room, fun ends => ?_, fun c more => ?_⟩
  · by_cases less : documents.length < rows.length
    · rw [if_pos less, Option.map_eq_none_iff, List.getLast?_eq_none_iff] at ends
      rw [ends] at some_ less
      exact absurd less (by simpa using some_)
    · exact whole.eq_of_length (by omega)
  · split at more
    · obtain ⟨d, last, rfl⟩ := Option.map_eq_some_iff.mp more
      exact ⟨d, last, rfl⟩
    · cases more

theorem fitPage_some (each : ∀ d ∈ rows, envelopeBytes + (documentJson d).size + 1 ≤ budget) (some_ : 0 < limit) :
    ∃ page, fitPage rows limit budget = some page := by
  unfold fitPage
  dsimp only
  rw [← envelopeBytes]
  cases rows with
  | nil => exact ⟨⟨[], none⟩, by simp [fitRows]⟩
  | cons d rest =>
    obtain ⟨more, rfl⟩ : ∃ more, limit = more + 1 := ⟨limit - 1, by omega⟩
    have fits := each d (.head _)
    have room : ¬ budget < envelopeBytes + ((documentJson d).size + 1) := by omega
    simp only [take_succ_cons, fitRows, if_neg room, isEmpty_cons, Bool.false_and, Bool.false_eq_true,
      if_false]
    exact ⟨_, rfl⟩

end

def inScope (store : Store) (ids : List String) : List DocumentRow :=
  store.documents.rows.filter fun d => ids.contains d.id

theorem inScope_distinct (store : Store) (ids : List String) : ((inScope store ids).map listKey).Nodup := by
  have ids_ : ((inScope store ids).map DocumentRow.id).Nodup :=
    store.documents.distinct.sublist (filter_sublist.map DocumentRow.id)
  have same : (inScope store ids).map DocumentRow.id = ((inScope store ids).map listKey).map fun key =>
      (ofLex key).2 := by
    rw [map_map]
    rfl
  rw [same] at ids_
  exact ids_.of_map

section
variable {store : Store} {ids : List String} {cursor : Option String} {limit : Int} {budget : Nat} {page : DocumentList}

structure Given (store : Store) (ids : List String) (cursor : Option String) (limit : Int) (budget : Nat)
    (page : DocumentList) (after : Option ListKey) : Prop where
  read : cursor.map decodeCursor = after.map some
  paged : Keyset.Page listKey after (inScope store ids) page.documents (page.nextCursor.bind decodeCursor)
  cursors : ∀ c ∈ page.nextCursor, (decodeCursor c).isSome
  short : (page.documents.length : Int) ≤ limit
  fits : page.json.size ≤ budget

theorem listDocuments_given (room : envelopeBytes ≤ budget)
    (ok : listDocuments store (some ids) cursor limit budget = .ok page) :
    ∃ after, Given store ids cursor limit budget page after := by
  unfold listDocuments at ok
  split at ok
  · cases ok
  rename_i range
  rw [not_not] at range
  dsimp only at ok
  split at ok
  · cases ok
  rename_i decoded good
  obtain ⟨after, read⟩ : ∃ after : Option ListKey, cursor.map decodeCursor = after.map some := by
    cases cursor with
    | none => exact ⟨none, rfl⟩
    | some c =>
      cases here : decodeCursor c with
      | none => exact absurd (by rw [Option.map_some, here]) (good · )
      | some key => exact ⟨some key, by rw [Option.map_some, here]; rfl⟩
  have joined : (cursor.map decodeCursor).join = after := by
    rw [read]
    cases after <;> rfl
  rw [joined] at ok
  have distinct := inScope_distinct store ids
  refine ⟨after, ?_⟩
  split at ok
  · rename_i empty
    have none_ : ids = [] := by simpa using empty
    cases ok
    have nothing : inScope store ids = [] := by simp [inScope, none_]
    refine ⟨read, ⟨distinct, nil_prefix, fun _ => ?_, fun _ more => ?_⟩, fun _ more => ?_, ?_, ?_⟩
    · rw [nothing]
      rfl
    · cases more
    · cases more
    · exact le_trans (by decide) range.1
    · refine le_trans (DocumentList.json_size fun _ more => by cases more) ?_
      rw [rowBytes_nil, Nat.add_zero]
      exact room
  · split at ok
    · rename_i sound
      split at ok
      · rename_i shown fitted
        cases ok
        have holds := fitPage_fitted fitted
        have rows : listRows store (some ids) after limit.toNat =
            (Keyset.after listKey after (inScope store ids)).take (limit.toNat + 1) := rfl
        generalize listRows store (some ids) after limit.toNat = found at holds sound rows
        have checked (d : DocumentRow) (member : d ∈ page.documents) : d.checked = true :=
          all_eq_true.mp sound d ((take_subset _ _) (holds.front.subset member))
        have cursors (c : String) (more : c ∈ page.nextCursor) :
            ∃ d, page.documents.getLast? = some d ∧ decodeCursor c = some (listKey d) := by
          obtain ⟨d, last, rfl⟩ := holds.next c more
          exact ⟨d, last, decode_encodeCursor (checked d (mem_of_getLast? last))⟩
        have front := holds.front.length_le
        rw [length_take] at front
        refine ⟨read, ⟨distinct, ?_, fun ends => ?_, fun key more => ?_⟩, fun c more => ?_, by omega, ?_⟩
        · refine (holds.front.trans (List.take_prefix ..)).trans ?_
          rw [rows]
          exact take_prefix ..
        · have last : page.nextCursor = none := by
            cases given : page.nextCursor with
            | none => rfl
            | some c =>
              obtain ⟨d, -, decodes⟩ := cursors c given
              rw [given, Option.bind_some, decodes] at ends
              cases ends
          have all := holds.none_ last
          rw [all] at front ⊢
          rw [rows] at front ⊢
          rw [length_take] at front
          exact take_of_length_le (by omega)
        · obtain ⟨c, given, decoded⟩ := Option.bind_eq_some_iff.mp more
          obtain ⟨d, ends, decodes⟩ := cursors c given
          rw [decodes, Option.some.injEq] at decoded
          exact ⟨d, ends, decoded⟩
        · obtain ⟨d, -, decodes⟩ := cursors c more
          rw [decodes]
          rfl
        · have size : page.json.size ≤ envelopeBytes + rowBytes page.documents := by
            refine DocumentList.json_size fun c more => ?_
            obtain ⟨d, last, rfl⟩ := holds.next c more
            exact encodeCursor_size (checked d (mem_of_getLast? last))
          rcases holds.room with within | empty
          · omega
          · rw [empty, rowBytes_nil, Nat.add_zero] at size
            exact le_trans size room
      · cases ok
    · cases ok

/-- A row as the module writes it: checked, of a format it imports, numbered within a column's range. -/
def DocumentRow.written (d : DocumentRow) : Prop :=
  d.checked = true ∧ d.mediaType ∈ FORMATS ∧ d.headRevision < 2 ^ 63

theorem DocumentRow.written_small {d : DocumentRow} (written : d.written) : (documentJson d).size ≤ 4000 := by
  obtain ⟨sound, format, column⟩ := written
  obtain ⟨id, title, -, head, created, updated⟩ := d.checked_iff.mp sound
  have id := (isId_plain id).1
  have created := (isTimestamp_plain created).1
  have updated := (isTimestamp_plain updated).1
  have media : d.mediaType.toList.length ≤ 15 := by
    have all : ∀ format ∈ FORMATS, format.toList.length ≤ 15 := by decide
    exact all _ format
  have opens : '\x7b'.utf8Size = 1 := by decide
  have closes : '\x7d'.utf8Size = 1 := by decide
  have colon : ':'.utf8Size = 1 := by decide
  have comma : ','.utf8Size = 1 := by decide
  have names : (["created_at", "document_id", "head_revision", "media_type", "title", "updated_at"].map fun key =>
      Json.bytes (Json.renderStr key)) = [12, 13, 15, 12, 7, 12] := by decide +kernel
  simp only [map_cons, map_nil, List.cons.injEq, and_true] at names
  obtain ⟨name₁, name₂, name₃, name₄, name₅, name₆⟩ := names
  have size₁ := Json.size_str d.createdAt
  have size₂ := Json.size_str d.id
  have size₃ := Json.size_int (k := 19) (n := d.headRevision) (by omega) (by decide) (by omega)
  have size₄ := Json.size_str d.mediaType
  have size₅ := Json.size_str d.title
  have size₆ := Json.size_str d.updatedAt
  rw [Json.size_eq] at size₁ size₂ size₃ size₄ size₅ size₆
  rw [MAX_TITLE_CHARS] at title
  rw [Json.size_eq, documentJson, Json.renderChars]
  simp only [Json.renderFields, cons_append, Json.bytes_cons, Json.bytes_append, opens, closes, colon, comma,
    Json.bytes_nil, name₁, name₂, name₃, name₄, name₅, name₆]
  omega

theorem listDocuments_answers (range : 1 ≤ limit ∧ limit ≤ MAX_LIMIT) (room : 5000 ≤ budget)
    (good : ∀ c ∈ cursor, (decodeCursor c).isSome) (written : ∀ d ∈ inScope store ids, d.written) :
    ∃ page, listDocuments store (some ids) cursor limit budget = .ok page := by
  obtain ⟨after, read⟩ : ∃ after : Option ListKey, cursor.map decodeCursor = after.map some := by
    cases cursor with
    | none => exact ⟨none, rfl⟩
    | some c =>
      obtain ⟨key, decodes⟩ := Option.isSome_iff_exists.mp (good c rfl)
      exact ⟨some key, by rw [Option.map_some, decodes]; rfl⟩
  have rows (d : DocumentRow) (member : d ∈ listRows store (some ids) after limit.toNat) : d.written :=
    written d (Keyset.mem_after.mp (take_subset _ _ member)).1
  have sound : (listRows store (some ids) after limit.toNat).all DocumentRow.checked = true :=
    all_eq_true.mpr fun d member => (rows d member).1
  have space : envelopeBytes + 4000 + 1 ≤ budget := by
    rw [envelopeBytes_eq]
    omega
  obtain ⟨page, fits⟩ : ∃ page, fitPage (listRows store
      (some ids) after limit.toNat) limit.toNat budget = some page := by
    refine fitPage_some (fun d member => ?_) (by omega)
    have small := DocumentRow.written_small (rows d member)
    omega
  unfold listDocuments
  rw [if_neg (not_not.mpr range), read]
  cases after with
  | none =>
    simp only [Option.map_none]
    split
    · exact ⟨_, rfl⟩
    · rw [Option.join_none, if_pos sound, fits]
      exact ⟨_, rfl⟩
  | some key =>
    simp only [Option.map_some]
    split
    · exact ⟨_, rfl⟩
    · rw [Option.join_some, if_pos sound, fits]
      exact ⟨_, rfl⟩

theorem listDocuments_congr {store' : Store}
    (same : ∀ d : DocumentRow, d.id ∈ ids → (d ∈ store.documents.rows ↔ d ∈ store'.documents.rows)) :
    listDocuments store (some ids) cursor limit budget = listDocuments store' (some ids) cursor limit budget := by
  have rows (after : Option ListKey) :
      listRows store (some ids) after limit.toNat = listRows store' (some ids) after limit.toNat := by
    have member (store₀ : Store) (d : DocumentRow) : d ∈ (inScope store₀ ids).filter (fun row =>
        after.all fun at_ => decide (listKey row < at_)) ↔
          (d ∈ store₀.documents.rows ∧ d.id ∈ ids) ∧ after.all (fun at_ => decide (listKey d < at_)) = true := by
      rw [mem_filter, inScope, mem_filter, contains_iff_mem]
    have distinct (store₀ : Store) := (inScope_distinct store₀ ids).sublist
      ((filter_sublist (p := fun row => after.all fun at_ => decide (listKey row < at_))).map listKey)
    refine congrArg (List.take _) (Keyset.descending_congr (distinct store) (distinct store') fun d => ?_)
    refine (member store d).trans (Iff.trans ?_ (member store' d).symm)
    exact and_congr_left fun _ => and_congr_left fun inside => same d inside
  unfold listDocuments
  simp only [rows]

end

end Agent24.Documents
