import Agent24.Library.Base64
import Agent24.Memory.Consolidator
import Mathlib.Algebra.Ring.Nat

/-! Pages of a partition for a module: the scan of one page, its cursor, and following the cursors. -/

set_option autoImplicit false
namespace Agent24.Memory
open Library List

def memoryResponseEnvelopeBytes : Nat := 128

/-- `MEMORY_SQLITE_ROW_BUFFER_SIZE + 1`. -/
def rowBufferMargin : Nat := 8 + 1

def u32Max : Nat := 2 ^ 32 - 1

inductive MemoryRpcError where
  | invalid (message : String)
  | store (message : String)
  | quota (code dimension message : String)
  | diskFull
  | diskLow
  deriving DecidableEq, Repr

inductive ScanError where
  | memory (error : MemoryError)
  /-- A database error by its code or message for a full disk. -/
  | sqliteFull
  | serde
  deriving DecidableEq, Repr

def mapMemoryError : ScanError → MemoryRpcError
  | .memory (.quotaExceeded _ dimension) =>
    .quota (if dimension = "rows" then "memory_quota_rows" else "memory_quota_bytes") dimension
      ("memory " ++ dimension ++ " quota exceeded for this module")
  | .memory .diskLow => .diskLow
  | .sqliteFull => .diskFull
  | _ => .store "an internal memory storage error occurred"

structure Recollection where
  id : String
  kind : String
  body : List (String × Json)
  at_ : String

def toRecollection (row : StoredEvent) : Recollection where
  id := row.event.id
  kind := row.event.kind
  body := match row.event.body with
    | .obj fields => fields
    | _ => []
  at_ := row.event.recordedAt

def Recollection.wire (item : Recollection) : Json :=
  .obj [("id", .str item.id), ("kind", .str item.kind), ("body", .obj item.body), ("at", .str item.at_)]

/-- `estimate_item_bytes`: the record and one separator. -/
def estimateItemBytes (item : Recollection) : Nat := item.wire.render.utf8ByteSize + 1

structure Needle where
  text : String
  deriving DecidableEq, Repr

def Needle.normalize (P : Platform) (query : String) : Needle :=
  ⟨P.toLowercase (Text.trim isWhitespace query)⟩

def Needle.noneForRecent : Needle := ⟨""⟩

inductive PageMode where
  | recall (needle : Needle)
  | recent
  deriving DecidableEq, Repr

def contains (text part : String) : Bool := text.toList.tails.any part.toList.isPrefixOf

def itemMatchesSubstring (P : Platform) (item : Recollection) (needle : String) : Bool :=
  needle == "" || contains (P.toLowercase item.kind) needle ||
    contains (P.toLowercase (Json.obj item.body).render) needle

namespace PageMode

def methodTag : PageMode → UInt8
  | .recall _ => 1
  | .recent => 2

def needle : PageMode → Needle
  | .recall needle => needle
  | .recent => .noneForRecent

def accepts (P : Platform) (item : Recollection) : PageMode → Bool
  | .recall needle => itemMatchesSubstring P item needle.text
  | .recent => true

end PageMode

/-- `cursor_fingerprint`: FNV-1a over the method tag and the needle's bytes. -/
def cursorFingerprint (methodTag : UInt8) (needle : Needle) : UInt64 :=
  (methodTag :: needle.text.toByteArray.data.toList).foldl
    (fun hash byte => (hash ^^^ byte.toUInt64) * 0x00000100000001B3) 0xcbf29ce484222325

def cursorText (seq : Int) (fingerprint : UInt64) : String :=
  "v2:" ++ (toString seq ++ ":" ++ String.ofList (Numeral.hexDigits 16 fingerprint.toNat))

def encodeCursor (seq : Int) (methodTag : UInt8) (needle : Needle) : String :=
  Base64.encode (cursorText seq (cursorFingerprint methodTag needle))

def i64Min : Int := -(2 ^ 63)
def i64Max : Int := 2 ^ 63 - 1

section
variable (token : String)

/-- The position and the fingerprint that a token spells, before either is checked. -/
def readCursor : Option (Int × Nat) := do
  let decoded ← Base64.decode token
  let rest ← Text.strip "v2:" decoded
  let (seqPart, fpPart) ← Text.splitOnce ':' rest
  let seq ← Numeral.parseSigned i64Min i64Max seqPart
  let fp ← Numeral.parseHex (2 ^ 64 - 1) fpPart
  pure (seq, fp)

def decodeCursor (methodTag : UInt8) (needle : Needle) : Except MemoryRpcError Int :=
  match readCursor token with
  | none => .error (.invalid "cursor is not a recognizable token")
  | some (seq, fp) =>
    if seq < 1 then .error (.invalid "cursor does not refer to a valid position")
    else if fp ≠ (cursorFingerprint methodTag needle).toNat then
      .error (.invalid "cursor was issued for a different method or query")
    else .ok seq

def SpellsCursor (seq : Int) (fingerprint : Nat) : Prop :=
  ∃ seqPart fpPart : String, token = Base64.encode ("v2:" ++ (seqPart ++ (String.singleton ':' ++ fpPart))) ∧
    Numeral.parseSigned i64Min i64Max seqPart = some seq ∧
    Numeral.parseHex (2 ^ 64 - 1) fpPart = some fingerprint

theorem readCursor_eq_some (seq : Int) (fingerprint : Nat) :
    readCursor token = some (seq, fingerprint) ↔ SpellsCursor token seq fingerprint := by
  simp only [readCursor, Option.bind_eq_bind, Option.bind_eq_some_iff, Base64.decode_eq_some,
    Text.strip_eq_some, Option.pure_def, Option.some.injEq, Prod.mk.injEq, Prod.exists,
    Text.splitOnce_eq_some]
  constructor
  · rintro ⟨_, rfl, rest, rfl, seqPart, fpPart, ⟨rfl, -⟩, seq, readSeq, fp, readFp, rfl, rfl⟩
    exact ⟨seqPart, fpPart, rfl, readSeq, readFp⟩
  · rintro ⟨seqPart, fpPart, rfl, readSeq, readFp⟩
    have clean : ':' ∉ seqPart.toList := Numeral.not_mem_of_parseSigned (by decide) readSeq
    exact ⟨_, rfl, _, rfl, seqPart, fpPart, ⟨rfl, clean⟩, seq, readSeq, fingerprint, readFp, rfl, rfl⟩

theorem encodeCursor_spells {seq : Int} (low : i64Min ≤ seq) (high : seq ≤ i64Max) (methodTag : UInt8)
    (needle : Needle) :
    SpellsCursor (encodeCursor seq methodTag needle) seq (cursorFingerprint methodTag needle).toNat := by
  refine ⟨toString seq, String.ofList (Numeral.hexDigits 16 (cursorFingerprint methodTag needle).toNat),
    ?_, Numeral.parseSigned_toString low high, ?_⟩
  · rw [encodeCursor, cursorText, String.append_assoc]
    rfl
  · have bound := (cursorFingerprint methodTag needle).toNat_lt
    exact Numeral.parseHex_hexDigits (by omega) (by omega)

theorem decodeCursor_eq_ok (methodTag : UInt8) (needle : Needle) (seq : Int) :
    decodeCursor token methodTag needle = .ok seq ↔
      1 ≤ seq ∧ SpellsCursor token seq (cursorFingerprint methodTag needle).toNat := by
  rw [← readCursor_eq_some, decodeCursor]
  cases readCursor token with
  | none => simp
  | some pair =>
    obtain ⟨position, fp⟩ := pair
    dsimp only
    split
    · simp only [reduceCtorEq, Option.some.injEq, Prod.mk.injEq, false_iff, not_and]
      omega
    split
    · rename_i other
      simp only [reduceCtorEq, Option.some.injEq, Prod.mk.injEq, false_iff, not_and]
      exact fun _ _ => other
    · rename_i position_ok same
      simp only [Except.ok.injEq, Option.some.injEq, Prod.mk.injEq, not_not] at same ⊢
      constructor
      · rintro rfl
        exact ⟨by omega, rfl, same⟩
      · exact fun ⟨_, same, _⟩ => same

end

theorem decodeCursor_encodeCursor {seq : Int} (low : i64Min ≤ seq) (high : seq ≤ i64Max)
    (methodTag methodTag' : UInt8) (needle needle' : Needle) (read : Int) :
    decodeCursor (encodeCursor seq methodTag' needle') methodTag needle = .ok read ↔
      read = seq ∧ 1 ≤ seq ∧ cursorFingerprint methodTag' needle' = cursorFingerprint methodTag needle := by
  have spelled := (readCursor_eq_some _ _ _).mpr (encodeCursor_spells low high methodTag' needle')
  rw [decodeCursor_eq_ok, ← readCursor_eq_some, spelled, Option.some.injEq, Prod.mk.injEq,
    UInt64.toNat_inj]
  constructor
  · rintro ⟨positive, rfl, same⟩
    exact ⟨rfl, positive, same⟩
  · rintro ⟨rfl, positive, same⟩
    exact ⟨positive, rfl, same⟩

structure Reservation where
  reserved : Nat
  touched : Bool
  scanned : Nat
  exhausted : Bool
  deriving DecidableEq, Repr

namespace Reservation

def reserve (cost : Nat) : Reservation := ⟨cost, false, 0, false⟩

def markTouched (r : Reservation) : Reservation := { r with touched := true }
def recordScanned (scanned : Nat) (r : Reservation) : Reservation := { r with scanned := min scanned u32Max }
def markExhausted (r : Reservation) : Reservation := { r with exhausted := true }

/-- What the call is charged; the rest of the reservation is refunded. -/
def settleAmount (r : Reservation) : Nat :=
  if !r.touched then 0
  else if r.exhausted then min r.scanned r.reserved
  else min (min (r.scanned + rowBufferMargin) u32Max) r.reserved

end Reservation

structure RecallPage where
  items : List Recollection
  cursor : Option String

structure PageScan where
  hits : List Recollection
  scanned : Nat
  responseBytes : Nat
  resolvedSeq : Option Int
  reservation : Reservation

namespace PageScan

def pulled (s : PageScan) : PageScan :=
  { s with scanned := s.scanned + 1, reservation := s.reservation.recordScanned (s.scanned + 1) }

def admitHit (seq : Int) (item : Recollection) (s : PageScan) : PageScan :=
  { s with hits := s.hits ++ [item], responseBytes := s.responseBytes + estimateItemBytes item,
           resolvedSeq := some seq }

def pass (seq : Int) (s : PageScan) : PageScan := { s with resolvedSeq := some seq }

/-- `must_be_resolved`, and the page that ends there. -/
def finish (mode : PageMode) (s : PageScan) : Except MemoryRpcError RecallPage :=
  match s.resolvedSeq with
  | some seq => .ok ⟨s.hits, some (encodeCursor seq mode.methodTag mode.needle)⟩
  | none => .error (.store ("internal invariant violated: page_from_stream tried to encode a cursor " ++
      "before resolving any row (kernel bug, not a caller error)"))

end PageScan

structure PageBounds where
  pageSize : Nat
  rowBudget : Nat
  responseBudgetBytes : Nat

section
variable (P : Platform) (mode : PageMode) (bounds : PageBounds)

/-- The loop of `page_from_stream`, with the reservation as it leaves it. -/
def scanRows : List (Except ScanError StoredEvent) → PageScan →
    Except MemoryRpcError RecallPage × Reservation
  | [], s =>
    if s.scanned < bounds.rowBudget then (.ok ⟨s.hits, none⟩, s.reservation.markExhausted)
    else (s.finish mode, s.reservation)
  | row :: stream, s =>
    if s.scanned < bounds.rowBudget then
      match row with
      | .error error => (.error (mapMemoryError error), s.pulled.reservation)
      | .ok row =>
        let item := toRecollection row
        if mode.accepts P item then
          if s.responseBytes + estimateItemBytes item ≤ bounds.responseBudgetBytes then
            let admitted := s.pulled.admitHit row.seq item
            if admitted.hits.length = bounds.pageSize then (admitted.finish mode, admitted.reservation)
            else scanRows stream admitted
          -- this row is unresolved: the cursor stops before it
          else if s.hits.isEmpty then
            (.error (.store ("a single record's wire size exceeds MEMORY_PAGE_RESPONSE_BUDGET_BYTES; " ++
              "the budget is misconfigured relative to MAX_BODY_BYTES")), s.pulled.reservation)
          else (s.pulled.finish mode, s.pulled.reservation)
        else scanRows stream (s.pulled.pass row.seq)
    else (s.finish mode, s.reservation)

def pageFromStream (stream : List (Except ScanError StoredEvent)) (resolvedSeq : Option Int)
    (reservation : Reservation) : Except MemoryRpcError RecallPage × Reservation :=
  scanRows P mode bounds stream
    ⟨[], 0, memoryResponseEnvelopeBytes, resolvedSeq, reservation.markTouched⟩

end

section
variable {P : Platform} {mode : PageMode} {bounds : PageBounds}

def itemBytes (items : List Recollection) : Nat := (items.map estimateItemBytes).sum

def accepted (P : Platform) (mode : PageMode) (rows : List StoredEvent) : List Recollection :=
  (rows.map toRecollection).filter fun item => mode.accepts P item

def AdmitsEach (P : Platform) (mode : PageMode) (bounds : PageBounds) (rows : List StoredEvent) : Prop :=
  ∀ item ∈ accepted P mode rows,
    memoryResponseEnvelopeBytes + estimateItemBytes item ≤ bounds.responseBudgetBytes

def FitsBudget (bounds : PageBounds) (items : List Recollection) : Prop :=
  items ≠ [] → memoryResponseEnvelopeBytes + itemBytes items ≤ bounds.responseBudgetBytes

structure PageScan.Sound (bounds : PageBounds) (s : PageScan) : Prop where
  room : s.hits.length < bounds.pageSize
  counted : s.responseBytes = memoryResponseEnvelopeBytes + itemBytes s.hits
  fits : FitsBudget bounds s.hits
  untouched : s.scanned = 0 → s.hits = []
  resolved : s.scanned ≠ 0 → s.resolvedSeq ≠ none

/-- A page made of the rows of `taken` stops right before `rest`. -/
structure PageEnd (mode : PageMode) (bounds : PageBounds) (s : PageScan) (taken rest : List StoredEvent)
    (cursor : Option String) : Prop where
  /-- Without a cursor the stream has ended before the row budget. -/
  last : cursor = none → rest = [] ∧ s.scanned + taken.length < bounds.rowBudget
  names : ∀ token, cursor = some token → ∃ seq,
    token = encodeCursor seq mode.methodTag mode.needle ∧
      ((taken.getLast?.map StoredEvent.seq).or s.resolvedSeq = some seq) ∧ (s.scanned = 0 → taken ≠ [])

theorem PageScan.finish_page {s : PageScan} (mode : PageMode) (resolved : s.resolvedSeq ≠ none) :
    ∃ seq, s.resolvedSeq = some seq ∧
      s.finish mode = .ok ⟨s.hits, some (encodeCursor seq mode.methodTag mode.needle)⟩ := by
  obtain ⟨seq, at_⟩ := Option.ne_none_iff_exists'.mp resolved
  exact ⟨seq, at_, by rw [finish, at_]⟩

theorem PageScan.Sound.passed {s : PageScan} (sound : s.Sound bounds) (seq : Int) :
    (s.pulled.pass seq).Sound bounds where
  room := sound.room
  counted := sound.counted
  fits := sound.fits
  untouched := fun zero => absurd zero (Nat.succ_ne_zero s.scanned)
  resolved := fun _ => Option.some_ne_none seq

theorem PageScan.Sound.admitted {s : PageScan} (sound : s.Sound bounds) {seq : Int} {item : Recollection}
    (room : s.hits.length + 1 < bounds.pageSize)
    (fits : s.responseBytes + estimateItemBytes item ≤ bounds.responseBudgetBytes) :
    (s.pulled.admitHit seq item).Sound bounds where
  room := by simpa [admitHit, pulled] using room
  counted := by simp [admitHit, pulled, sound.counted, itemBytes, Nat.add_assoc]
  fits := by
    intro _
    simpa [admitHit, pulled, itemBytes, sound.counted, Nat.add_assoc] using fits
  untouched := fun zero => absurd zero (Nat.succ_ne_zero s.scanned)
  resolved := fun _ => Option.some_ne_none seq

private theorem PageEnd.cons {s after : PageScan} {row : StoredEvent} {taken rest : List StoredEvent}
    {cursor : Option String} (ends : PageEnd mode bounds after taken rest cursor)
    (counted : after.scanned = s.scanned + 1) (resolved : after.resolvedSeq = some row.seq) :
    PageEnd mode bounds s (row :: taken) rest cursor where
  last := by
    intro none
    obtain ⟨nothing, short⟩ := ends.last none
    exact ⟨nothing, by simp only [length_cons]; omega⟩
  names := by
    intro token some
    obtain ⟨seq, encoded, names, -⟩ := ends.names token some
    refine ⟨seq, encoded, ?_, fun _ => cons_ne_nil row taken⟩
    rw [resolved] at names
    cases taken with
    | nil => simpa using names
    | cons next more =>
      have nonempty : (next :: more).getLast? ≠ none := by simp
      obtain ⟨last, at_⟩ := Option.ne_none_iff_exists'.mp nonempty
      rw [at_] at names
      rw [List.getLast?_cons_cons, at_]
      exact names

private theorem PageScan.Sound.stops {s : PageScan} (sound : s.Sound bounds) (touched : s.scanned ≠ 0)
    (left : List StoredEvent) :
    ∃ page taken rest, s.finish mode = .ok page ∧ left = taken ++ rest ∧
      page.items = s.hits ++ accepted P mode taken ∧ FitsBudget bounds page.items ∧
      PageEnd mode bounds s taken rest page.cursor := by
  obtain ⟨seq, resolved, page⟩ := s.finish_page mode (sound.resolved touched)
  refine ⟨_, [], left, page, rfl, by simp [accepted], sound.fits, ⟨nofun, ?_⟩⟩
  intro token same
  cases same
  exact ⟨seq, rfl, by simpa using resolved, fun zero => absurd zero touched⟩

theorem scanRows_page (rows : List StoredEvent) (s : PageScan) (sound : s.Sound bounds)
    (budget : 1 ≤ bounds.rowBudget) (admits : AdmitsEach P mode bounds rows) :
    ∃ page taken rest, (scanRows P mode bounds (rows.map .ok) s).1 = .ok page ∧ rows = taken ++ rest ∧
      page.items = s.hits ++ accepted P mode taken ∧ FitsBudget bounds page.items ∧
      PageEnd mode bounds s taken rest page.cursor := by
  induction rows generalizing s with
  | nil =>
    simp only [map_nil, scanRows]
    split
    · rename_i more
      exact ⟨_, [], [], rfl, rfl, by simp [accepted], sound.fits, ⟨fun _ => ⟨rfl, more⟩, fun _ same => by cases same⟩⟩
    · exact sound.stops (by omega) []
  | cons row rows ih =>
    have admitsRest : AdmitsEach P mode bounds rows := by
      intro item member
      refine admits item ?_
      simp only [accepted, map_cons, mem_filter, mem_cons] at member ⊢
      exact ⟨.inr member.1, member.2⟩
    simp only [map_cons, scanRows]
    split
    · split
      · rename_i accepts
        have alone := admits (toRecollection row) (by simp [accepted, accepts])
        have taken_items (taken : List StoredEvent) : accepted P mode (row :: taken) =
            toRecollection row :: accepted P mode taken := by
          simp [accepted, accepts]
        split
        · rename_i fits
          have length : (s.pulled.admitHit row.seq (toRecollection row)).hits.length = s.hits.length + 1 := by
            simp [PageScan.admitHit, PageScan.pulled]
          have room := sound.room
          split
          -- enough hits
          · refine ⟨_, [row], rows, rfl, rfl, by rw [taken_items]; rfl, ?_, ⟨(fun same => by cases same), ?_⟩⟩
            · intro _
              simpa [PageScan.admitHit, PageScan.pulled, itemBytes, sound.counted, Nat.add_assoc] using fits
            · intro token same
              cases same
              exact ⟨row.seq, rfl, rfl, fun _ => cons_ne_nil row []⟩
          · rename_i notFull
            obtain ⟨page, taken, rest, made, split, items, fitsPage, ends⟩ :=
              ih _ (sound.admitted (by omega) fits) admitsRest
            refine ⟨page, row :: taken, rest, made, by rw [split]; rfl, ?_, fitsPage, ends.cons rfl rfl⟩
            rw [items, taken_items]
            simp [PageScan.admitHit, PageScan.pulled]
        -- the byte budget turned the row away; alone it would have fitted
        · rename_i exceeds
          have some : s.hits ≠ [] := by
            intro none
            rw [sound.counted, none] at exceeds
            exact exceeds alone
          rw [if_neg (by simpa using some)]
          have touched : s.scanned ≠ 0 := fun zero => some (sound.untouched zero)
          exact sound.stops touched (row :: rows)
      · rename_i rejects
        obtain ⟨page, taken, rest, made, split, items, fitsPage, ends⟩ :=
          ih _ (sound.passed row.seq) admitsRest
        refine ⟨page, row :: taken, rest, made, by rw [split]; rfl, ?_, fitsPage, ends.cons rfl rfl⟩
        rw [items]
        simp [accepted, rejects, PageScan.pass, PageScan.pulled]
    · exact sound.stops (by omega) (row :: rows)

end

/-- The rows of one partition, as `AUTOINCREMENT` numbers them. -/
structure PartitionLog where
  rows : List StoredEvent
  ascending : rows.Pairwise fun a b => a.seq < b.seq
  numbered : ∀ row ∈ rows, 1 ≤ row.seq ∧ row.seq ≤ i64Max

namespace PartitionLog

def below (log : PartitionLog) : Option Int → List StoredEvent
  | some cursor => log.rows.reverse.filter fun row => row.seq < cursor
  | none => log.rows.reverse

theorem below_descending (log : PartitionLog) (before : Option Int) :
    (log.below before).Pairwise fun a b => b.seq < a.seq := by
  have whole : log.rows.reverse.Pairwise fun a b => b.seq < a.seq := pairwise_reverse.mpr log.ascending
  cases before with
  | none => exact whole
  | some cursor => exact whole.filter _

theorem mem_of_mem_below {log : PartitionLog} {before : Option Int} {row : StoredEvent}
    (member : row ∈ log.below before) : row ∈ log.rows ∧ ∀ cursor, before = some cursor → row.seq < cursor := by
  cases before with
  | none => exact ⟨mem_reverse.mp member, nofun⟩
  | some cursor =>
    obtain ⟨stored, lower⟩ := mem_filter.mp member
    refine ⟨mem_reverse.mp stored, ?_⟩
    rintro _ ⟨⟩
    exact of_decide_eq_true lower

theorem below_lower {log : PartitionLog} {before : Option Int} {position : Int}
    (lower : ∀ cursor, before = some cursor → position ≤ cursor) :
    (log.below before).filter (fun row => row.seq < position) = log.below (some position) := by
  cases before with
  | none => rfl
  | some cursor =>
    have bound := lower cursor rfl
    simp only [below, filter_filter]
    refine filter_congr fun row _ => ?_
    simp only [Bool.and_eq_left_iff_imp, decide_eq_true_eq]
    omega

theorem below_of_grown {log later : PartitionLog} (grown : log.rows <+: later.rows) {row : StoredEvent}
    (member : row ∈ log.rows) : later.below (some row.seq) = log.below (some row.seq) := by
  obtain ⟨more, whole⟩ := grown
  have above : more.reverse.filter (fun other => other.seq < row.seq) = [] := by
    refine filter_eq_nil_iff.mpr fun other appended => ?_
    have order := later.ascending
    rw [← whole] at order
    have higher := (pairwise_append.mp order).2.2 row member other (mem_reverse.mp appended)
    simp only [decide_eq_true_eq]
    omega
  simp only [below, ← whole, reverse_append, filter_append, above, nil_append]

/-- `scan_stream` of the partition. -/
def scanStream (log : PartitionLog) (before : Option Int) (limit : Nat) :
    List (Except ScanError StoredEvent) :=
  ((log.below before).take limit).map .ok

end PartitionLog

section
variable (P : Platform) (mode : PageMode) (bounds : PageBounds)

/-- The part that `recall_page` and `recent_page` share: decode the cursor, scan, build the page. -/
def readPage (log : PartitionLog) (cursor : Option String) : Except MemoryRpcError RecallPage := do
  let resolvedSeq ← cursor.mapM fun token => decodeCursor token mode.methodTag mode.needle
  (pageFromStream P mode bounds (log.scanStream resolvedSeq bounds.rowBudget) resolvedSeq
    (.reserve bounds.rowBudget)).1

/-- The pages of a caller who follows the cursors; `log k` is the partition when page `k` is read.
`fuel` bounds the number of pages. -/
def followPages (log : Nat → PartitionLog) :
    Nat → Nat → Option String → Except MemoryRpcError (Option (List RecallPage))
  | 0, _, _ => .ok none
  | fuel + 1, k, cursor => do
    let page ← readPage P mode bounds (log k) cursor
    match page.cursor with
    | none => pure (some [page])
    | some token => do
      let rest ← followPages log fuel (k + 1) (some token)
      pure (rest.map fun pages => page :: pages)

variable {P mode bounds}

private theorem filter_below_last {front back : List StoredEvent} {last : StoredEvent}
    (descending : (front ++ back).Pairwise fun a b => b.seq < a.seq) (ends : front.getLast? = some last) :
    (front ++ back).filter (fun row => row.seq < last.seq) = back := by
  obtain ⟨before, rfl⟩ := List.getLast?_eq_some_iff.mp ends
  obtain ⟨inFront, inBack, across⟩ := pairwise_append.mp descending
  have dropped : (before ++ [last]).filter (fun row => row.seq < last.seq) = [] := by
    refine filter_eq_nil_iff.mpr fun row member => ?_
    rw [decide_eq_true_eq]
    rcases mem_append.mp member with earlier | same
    · have higher := (pairwise_append.mp inFront).2.2 row earlier last (mem_singleton.mpr rfl)
      omega
    · rw [mem_singleton.mp same]
      omega
  have kept : back.filter (fun row => row.seq < last.seq) = back := by
    refine filter_eq_self.mpr fun row member => ?_
    exact decide_eq_true (across last (by simp) row member)
  rw [filter_append, dropped, kept, nil_append]

theorem AdmitsEach.sub {rows part : List StoredEvent} (admits : AdmitsEach P mode bounds rows)
    (sub : part ⊆ rows) : AdmitsEach P mode bounds part := by
  intro item member
  obtain ⟨mapped, fits⟩ := mem_filter.mp member
  exact admits item (mem_filter.mpr ⟨map_subset toRecollection sub mapped, fits⟩)

theorem readPage_page (log : PartitionLog) {cursor : Option String} {before : Option Int}
    (read : (cursor.mapM fun token => decodeCursor token mode.methodTag mode.needle) = .ok before)
    (one : 1 ≤ bounds.pageSize) (budget : 1 ≤ bounds.rowBudget)
    (admits : AdmitsEach P mode bounds (log.below before)) :
    ∃ page taken rest, readPage P mode bounds log cursor = .ok page ∧ log.below before = taken ++ rest ∧
      page.items = accepted P mode taken ∧ FitsBudget bounds page.items ∧
      (page.cursor = none → rest = []) ∧
      ∀ token, page.cursor = some token → ∃ last, taken.getLast? = some last ∧
        token = encodeCursor last.seq mode.methodTag mode.needle := by
  let s : PageScan := ⟨[], 0, memoryResponseEnvelopeBytes, before,
    (Reservation.reserve bounds.rowBudget).markTouched⟩
  have sound : s.Sound bounds :=
    ⟨one, rfl, fun some => absurd rfl some, fun _ => rfl, fun touched => absurd rfl touched⟩
  obtain ⟨page, taken, rest, made, split, items, fits, ends⟩ :=
    scanRows_page ((log.below before).take bounds.rowBudget) s sound budget
      (admits.sub (take_subset _ _))
  have whole : log.below before = taken ++ (rest ++ (log.below before).drop bounds.rowBudget) := by
    rw [← append_assoc, ← split, take_append_drop]
  refine ⟨page, taken, _, ?_, whole, by rw [items]; rfl, fits, ?_, ?_⟩
  · rw [readPage, read]
    exact made
  · intro none
    obtain ⟨nothing, short⟩ := ends.last none
    have length := congrArg List.length split
    simp only [length_take, length_append, nothing, length_nil] at length
    rw [nothing, nil_append]
    exact drop_eq_nil_of_le (by omega)
  · intro token some
    obtain ⟨seq, encoded, names, nonempty⟩ := ends.names token some
    obtain ⟨last, at_⟩ := Option.ne_none_iff_exists'.mp
      (mt List.getLast?_eq_none_iff.mp (nonempty rfl))
    rw [at_] at names
    cases names
    exact ⟨last, at_, encoded⟩

structure Covers (P : Platform) (mode : PageMode) (bounds : PageBounds) (pages : List RecallPage)
    (positions : List Int) (rows : List StoredEvent) : Prop where
  items : pages.flatMap RecallPage.items = accepted P mode rows
  fits : ∀ page ∈ pages, FitsBudget bounds page.items
  cursors : pages.map RecallPage.cursor =
    positions.map (fun seq => some (encodeCursor seq mode.methodTag mode.needle)) ++ [none]
  falling : positions.Pairwise (· > ·)
  named : ∀ seq ∈ positions, ∃ row ∈ rows, row.seq = seq

private theorem Covers.cons {pages : List RecallPage} {positions : List Int}
    {taken rest : List StoredEvent} (covers : Covers P mode bounds pages positions rest)
    {page : RecallPage} {row : StoredEvent} (items : page.items = accepted P mode taken)
    (fits : FitsBudget bounds page.items)
    (cursor : page.cursor = some (encodeCursor row.seq mode.methodTag mode.needle)) (member : row ∈ taken)
    (lower : ∀ other ∈ rest, other.seq < row.seq) :
    Covers P mode bounds (page :: pages) (row.seq :: positions) (taken ++ rest) where
  items := by
    rw [flatMap_cons, covers.items, items]
    simp [accepted]
  fits := forall_mem_cons.mpr ⟨fits, covers.fits⟩
  cursors := by simp [cursor, covers.cursors]
  falling := by
    refine pairwise_cons.mpr ⟨fun seq position => ?_, covers.falling⟩
    obtain ⟨other, later, rfl⟩ := covers.named seq position
    exact lower other later
  named := by
    intro seq position
    rcases mem_cons.mp position with rfl | later
    · exact ⟨row, mem_append_left rest member, rfl⟩
    · obtain ⟨other, at_, same⟩ := covers.named seq later
      exact ⟨other, mem_append_right taken at_, same⟩

private theorem mapM_given {α β ε : Type} (f : α → Except ε β) (a : α) : (some a).mapM f = (f a).map some := rfl

theorem followPages_covers (log : Nat → PartitionLog) (grows : ∀ k, (log k).rows <+: (log (k + 1)).rows)
    (one : 1 ≤ bounds.pageSize) (budget : 1 ≤ bounds.rowBudget) (fuel k : Nat) (cursor : Option String)
    (before : Option Int)
    (read : (cursor.mapM fun token => decodeCursor token mode.methodTag mode.needle) = .ok before)
    (enough : ((log k).below before).length < fuel)
    (admits : AdmitsEach P mode bounds ((log k).below before)) :
    ∃ pages positions, followPages P mode bounds log fuel k cursor = .ok (some pages) ∧
      Covers P mode bounds pages positions ((log k).below before) := by
  induction fuel generalizing k cursor before with
  | zero => exact absurd enough (Nat.not_lt_zero _)
  | succ fuel ih =>
    obtain ⟨page, taken, rest, made, whole, items, fits, last, names⟩ :=
      readPage_page (log k) read one budget admits
    cases stop : page.cursor with
    | none =>
      rw [last stop, append_nil] at whole
      refine ⟨[page], [], ?_, ?_⟩
      · simp only [followPages, made, bind, Except.bind, stop]
        rfl
      · rw [whole]
        exact ⟨by simpa using items, by simpa using fits, by simp [stop], .nil, fun _ => by simp⟩
    | some token =>
      obtain ⟨row, ends, encoded⟩ := names token stop
      have member : row ∈ taken := mem_of_getLast? ends
      have inside : row ∈ (log k).below before := whole ▸ mem_append_left rest member
      obtain ⟨stored, lower⟩ := PartitionLog.mem_of_mem_below inside
      obtain ⟨low, high⟩ := (log k).numbered row stored
      have left : (log (k + 1)).below (some row.seq) = rest := by
        rw [PartitionLog.below_of_grown (grows k) stored,
          ← PartitionLog.below_lower fun cursor at_ => Int.le_of_lt (lower cursor at_), whole]
        exact filter_below_last (whole ▸ (log k).below_descending before) ends
      have decoded := (decodeCursor_encodeCursor (by unfold i64Min; omega) high mode.methodTag
        mode.methodTag mode.needle mode.needle row.seq).mpr ⟨rfl, low, rfl⟩
      have readNext : ((some token).mapM fun token => decodeCursor token mode.methodTag mode.needle) =
          .ok (some row.seq) := by
        rw [encoded, mapM_given, decoded]
        rfl
      have length := congrArg List.length whole
      have nonempty : 0 < taken.length := length_pos_of_mem member
      rw [length_append] at length
      obtain ⟨pages, positions, followed, covers⟩ :=
        ih (k + 1) (some token) (some row.seq) readNext (by rw [left]; omega)
          (by rw [left]; exact admits.sub (whole ▸ subset_append_right taken rest))
      refine ⟨page :: pages, row.seq :: positions, ?_, ?_⟩
      · simp only [followPages, made, bind, Except.bind, stop, followed]
        rfl
      · rw [left] at covers
        rw [whole]
        refine covers.cons items fits (by rw [stop, encoded]) member fun other later => ?_
        rw [← left] at later
        exact (PartitionLog.mem_of_mem_below later).2 _ rfl

end

/-- Following the cursors reads every accepted record of the first page's moment once, newest first, and a token is
accepted exactly when it fits the query. -/
theorem pages_complete (P : Platform) (mode : PageMode) (bounds : PageBounds) (log : Nat → PartitionLog)
    (one : 1 ≤ bounds.pageSize) (budget : 1 ≤ bounds.rowBudget)
    (grows : ∀ k, (log k).rows <+: (log (k + 1)).rows)
    (admits : AdmitsEach P mode bounds (log 0).rows) :
    (∃ pages positions,
      followPages P mode bounds log ((log 0).rows.length + 1) 0 none = .ok (some pages) ∧
      Covers P mode bounds pages positions (log 0).rows.reverse) ∧
    (∀ token methodTag needle seq, decodeCursor token methodTag needle = .ok seq ↔
      1 ≤ seq ∧ SpellsCursor token seq (cursorFingerprint methodTag needle).toNat) ∧
    ∀ methodTag methodTag' needle needle' seq read, i64Min ≤ seq → seq ≤ i64Max →
      (decodeCursor (encodeCursor seq methodTag' needle') methodTag needle = .ok read ↔
        read = seq ∧ 1 ≤ seq ∧
          cursorFingerprint methodTag' needle' = cursorFingerprint methodTag needle) := by
  refine ⟨?_, decodeCursor_eq_ok, ?_⟩
  · refine followPages_covers log grows one budget _ 0 none none rfl ?_ ?_
    · simp [PartitionLog.below]
    · exact admits.sub fun row member => mem_reverse.mp member
  · intro methodTag methodTag' needle needle' seq read low high
    exact decodeCursor_encodeCursor low high methodTag methodTag' needle needle' read

def sampleRows : List StoredEvent :=
  [⟨3, .new "2026-01-01T00:00:00Z" "osmem:a" (.ofOwner "org") "note" (.obj []) ⟨"module", .toolOutput⟩⟩,
   ⟨5, .new "2026-01-02T00:00:00Z" "osmem:b" (.ofOwner "org") "note" (.obj [("n", .int 1)])
     ⟨"module", .toolOutput⟩⟩]

def sampleLog : PartitionLog where
  rows := sampleRows
  ascending := by
    simp [sampleRows]
  numbered := by
    simp [sampleRows, i64Max]

theorem pages_complete_sample : ∃ pages positions,
    followPages (.ofDigests []) .recent ⟨1, 1, 250⟩ (fun _ => sampleLog) 3 0 none = .ok (some pages) ∧
      Covers (.ofDigests []) .recent ⟨1, 1, 250⟩ pages positions sampleRows.reverse :=
  (pages_complete (.ofDigests []) .recent ⟨1, 1, 250⟩ (fun _ => sampleLog) (by decide) (by decide)
    (fun _ => prefix_refl _) (by unfold AdmitsEach; decide +kernel)).1

/-- A position written with a sign is read too, though no cursor was ever encoded so. -/
theorem signed_cursor_accepted : ¬ ∀ token methodTag needle seq,
    decodeCursor token methodTag needle = .ok seq ↔ ∃ methodTag' needle',
      token = encodeCursor seq methodTag' needle' ∧
        cursorFingerprint methodTag' needle' = cursorFingerprint methodTag needle := by
  intro exact_
  have accepted : decodeCursor (Base64.encode "v2:+1:af63bf4c8601bb45") 2 ⟨""⟩ = .ok 1 := by decide +kernel
  obtain ⟨methodTag, needle, token, same⟩ := (exact_ _ _ _ _).mp accepted
  rw [encodeCursor, same] at token
  have text := congrArg Base64.decode token
  exact absurd text (by decide +kernel)

end Agent24.Memory
