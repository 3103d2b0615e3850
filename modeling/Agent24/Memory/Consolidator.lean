import Agent24.Library.Folding
import Agent24.Library.Runs
import Agent24.Library.Table
import Agent24.Memory.Effects
import Mathlib.Data.List.Dedup

/-! The consolidation loop: a paged scan of an owner's events, and the rows rebuilt from it. -/

set_option autoImplicit false
namespace Agent24.Memory
open Library List

structure StoredEvent where
  seq : Int
  event : MemEvent

def EventRow.withBody (row : EventRow) (body : Json) : StoredEvent :=
  ⟨row.seq, row.id, row.scope, row.kind, body, ⟨row.originSource, Trust.parse row.originTrust⟩, row.causal,
    row.recordedAt⟩

/-- `row_to_stored`; a payload that is no JSON does not read. -/
def EventRow.stored (P : Platform) (row : EventRow) : Option StoredEvent :=
  (row.payload.value P).map row.withBody

structure Consolidation (F : Type) where
  id : String
  owner : String
  key : String
  insight : String
  importance : F
  sourceEvents : List String
  recordedAt : String
  deriving DecidableEq, Repr

/-- The primary key of `mem_consolidations`. -/
def Consolidation.primary {F : Type} (row : Consolidation F) : String × String := (row.owner, row.key)

abbrev ConsolidationTable (F : Type) := Table (@Consolidation.primary F)

/-- `InsightSynth::synth`, by its contract a pure function. -/
abbrev InsightSynth (F : Type) := String → List StoredEvent → String × F

def countSynth : InsightSynth Nat := fun key events =>
  (toString events.length ++ " events of kind '" ++ key ++ "'", events.length)

def consolidatePage : Nat := 10000

section
variable (P : Platform)

/-- `EventStore::scan` of an owner's events after a cursor. -/
def scanAfter (owner : String) (cursor : Int) (limit : Nat) (log : EventTables) : Option (List StoredEvent) :=
  (((log.events.filter fun row => row.scopeOwner == owner && decide (cursor < row.seq)).insertionSort
    fun a b => a.seq ≤ b.seq).take limit).mapM (EventRow.stored P)

def scanTurn (owner : String) (page : Nat) (log : EventTables) (cursor : Int) (out : List StoredEvent) :
    Option (Int × List StoredEvent × Bool) := do
  let batch ← scanAfter P owner cursor page log
  match batch.getLast? with
  | none => pure (cursor, out, true)
  | some last => pure (last.seq, out ++ batch, decide (batch.length < page))

def scanTurns (owner : String) (page : Nat) (log : EventTables) :
    Nat → Int → List StoredEvent → Option (List StoredEvent)
  | 0, _, _ => none
  | turns + 1, cursor, out => do
    let (cursor, out, ends) ← scanTurn P owner page log cursor out
    if ends then pure out else scanTurns owner page log turns cursor out

/-- `scan_all_paged` on a log that nobody appends to: every turn but the last reads a row. -/
def scanAllPaged (owner : String) (page : Nat) (log : EventTables) : Option (List StoredEvent) :=
  scanTurns P owner page log (log.events.length + 1) 0 []

variable {F : Type} (synth : InsightSynth F)

def kindGroups (all : List StoredEvent) : List (String × List StoredEvent) :=
  ((all.map fun e => e.event.kind).dedup.insertionSort fun a b => a ≤ b).map fun key =>
    (key, all.filter fun e => e.event.kind == key)

def consolidate (owner key : String) (events : List StoredEvent) : Consolidation F where
  id := "consol-" ++ P.checksum16 (owner ++ "\u0000" ++ key)
  owner := owner
  key := key
  insight := (synth key events).1
  importance := (synth key events).2
  sourceEvents := (events.map fun e => e.event.id).insertionSort fun a b => a ≤ b
  recordedAt := (events.map fun e => e.event.recordedAt).foldl (fun latest now => if latest < now then now else latest) ""

def writeRows (owner : String) (all : List StoredEvent) (rows : ConsolidationTable F) :
    Except MemoryError (Nat × ConsolidationTable F) :=
  let groups := kindGroups all
  let cleared := rows.deleteWhere fun row => row.owner == owner && !groups.any fun group => group.1 == row.key
  -- `CHECK (trim(scope_owner) <> '')` of the first insert
  if !groups.isEmpty && sqliteBlank [' '] owner then .error (.sqlx .checkFailed)
  else .ok (groups.length, groups.foldl (fun t group => t.put (consolidate P synth owner group.1 group.2)) cleared)

/-- `run_once` on a log that nobody appends to; `none` where an event does not read. -/
def runOnce (disk : Option DiskSample) (owner : String) (log : EventTables) (rows : ConsolidationTable F) :
    Option (Except MemoryError (Nat × ConsolidationTable F)) :=
  if diskRefuses .content disk then some (.error .diskLow)
  else (scanAllPaged P owner consolidatePage log).map fun all => writeRows P synth owner all rows

end

def rebuiltRow (P : Platform) {F : Type} (synth : InsightSynth F) (owner : String) (all : List StoredEvent)
    (key : String) : Option (Consolidation F) :=
  if all.any fun e => e.event.kind == key then
    some (consolidate P synth owner key (all.filter fun e => e.event.kind == key))
  else none

def ownerEvents (P : Platform) (owner : String) (log : EventTables) : List StoredEvent :=
  (log.events.filter fun row => row.scopeOwner == owner).filterMap (EventRow.stored P)

structure Scannable (log : EventTables) : Prop where
  sequenced : Sequenced log
  positive : ∀ row ∈ log.events, 0 < row.seq
  written : ∀ row ∈ log.events, ∃ body, row.payload = .body body
  owned : ∀ row ∈ log.events, sqliteBlank [' '] row.scopeOwner = false

section
variable {P : Platform} {F : Type} {synth : InsightSynth F} {owner : String}

theorem mem_kinds {all : List StoredEvent} {key : String} :
    key ∈ (all.map fun e => e.event.kind).dedup.insertionSort (fun a b => a ≤ b) ↔
      all.any (fun e => e.event.kind == key) = true := by
  rw [mem_insertionSort, mem_dedup, mem_map, any_eq_true]
  simp only [beq_iff_eq]

theorem put_groups_find (row : String → Consolidation F) (primary : ∀ key, (row key).primary = (owner, key))
    (keys : List String) (t : ConsolidationTable F) (key : String × String) :
    (keys.foldl (fun t key => t.put (row key)) t).find key =
      if key.1 = owner ∧ key.2 ∈ keys then some (row key.2) else t.find key := by
  induction keys generalizing t with
  | nil => simp
  | cons first rest ih =>
    rw [foldl_cons, ih, Table.find_put, primary]
    by_cases later : key.1 = owner ∧ key.2 ∈ rest
    · rw [if_pos later, if_pos ⟨later.1, mem_cons_of_mem _ later.2⟩]
    rw [if_neg later]
    by_cases now : key = (owner, first)
    · rw [if_pos now, if_pos ⟨by rw [now], by rw [now]; exact mem_cons_self ..⟩, now]
    rw [if_neg now, if_neg]
    rintro ⟨mine, listed⟩
    rcases mem_cons.mp listed with same | tail
    · exact now (Prod.ext mine same)
    · exact later ⟨mine, tail⟩

theorem writeRows_find {all : List StoredEvent} {rows rows' : ConsolidationTable F} {count : Nat}
    (done : writeRows P synth owner all rows = .ok (count, rows')) (key : String × String) :
    rows'.find key = if key.1 = owner then rebuiltRow P synth owner all key.2 else rows.find key := by
  simp only [writeRows] at done
  split at done
  · cases done
  obtain ⟨-, rfl⟩ := Prod.mk.inj (Except.ok.inj done)
  simp only [kindGroups, foldl_map]
  rw [put_groups_find (fun key => consolidate P synth owner key (all.filter fun e => e.event.kind == key))
    (fun _ => rfl), Table.find_deleteWhere]
  simp only [mem_kinds, rebuiltRow]
  by_cases mine : key.1 = owner
  · by_cases live : all.any (fun e => e.event.kind == key.2) = true
    · rw [if_pos ⟨mine, live⟩, if_pos mine, if_pos live]
    rw [if_neg fun both => live both.2, if_pos mine, if_neg live, Option.filter_eq_none_iff]
    intro row found
    have keyed := Table.find_key found
    have owned : row.owner = owner := (congrArg Prod.fst keyed).trans mine
    have dead : row.key ∉ (all.map fun e => e.event.kind).dedup.insertionSort (fun a b => a ≤ b) := by
      rw [mem_kinds, show row.key = key.2 from congrArg Prod.snd keyed]
      exact live
    simpa [any_map, Function.comp_def, owned, mem_insertionSort] using dead
  · rw [if_neg fun both => mine both.1, if_neg mine]
    cases found : rows.find key with
    | none => rfl
    | some row =>
      have owned : row.owner ≠ owner := fun same =>
        mine ((congrArg Prod.fst (Table.find_key found)).symm.trans same)
      simp [Option.filter, owned]

variable {log : EventTables}

theorem appendTx_owned {e : MemEvent} {log' : EventTables} (done : appendTx P e log = .ok log') :
    ownerCheck e.scope.owner = true := by
  by_contra refused
  have blank : ownerCheck e.columns.scopeOwner = false := Bool.eq_false_iff.mpr refused
  simp only [appendTx, EventTables.insert] at done
  split at done
  · cases done
  · cases done
  next inserted =>
  split at inserted
  · cases inserted
  split at inserted
  · cases inserted
  · simp [blank] at inserted

theorem not_blank_of_ownerCheck (checked : ownerCheck owner = true) : sqliteBlank [' '] owner = false := by
  by_contra empty
  simp only [sqliteBlank, Bool.not_eq_false, beq_iff_eq, Text.trim_eq_empty] at empty
  have wider : ∀ c, decide (c ∈ [' ']) = true → decide (c ∈ [' ', '\t', '\n', '\r']) = true := by
    intro c single
    simp_all
  have blank := Text.blank_of_imp wider empty
  simp only [ownerCheck, sqliteBlank, (Text.trim_eq_empty _ owner).mpr blank] at checked
  exact absurd checked (by decide)

theorem Scannable.append {e : MemEvent} {log' : EventTables} (scannable : Scannable log)
    (done : appendTx P e log = .ok log') : Scannable log' := by
  have appended := appendTx_ok done
  have nonneg := scannable.sequenced.nonneg
  refine ⟨scannable.sequenced.append appended, ?_, ?_, ?_⟩ <;> intro row member <;>
    rw [appended.events, mem_append, mem_singleton] at member
  · rcases member with old | rfl
    · exact scannable.positive row old
    · show 0 < log.lastSeq + 1
      omega
  · rcases member with old | rfl
    · exact scannable.written row old
    · exact ⟨e.body, rfl⟩
  · rcases member with old | rfl
    · exact scannable.owned row old
    · exact not_blank_of_ownerCheck (appendTx_owned done)

theorem ownerEvents_append {e : MemEvent} {log' : EventTables} (appended : Appended P e log log') :
    ownerEvents P owner log' = ownerEvents P owner log ++
      if e.scope.owner = owner then [(EventRow.mk e.columns (log.lastSeq + 1)).withBody e.body] else [] := by
  unfold ownerEvents
  rw [appended.events, filter_append, filterMap_append]
  congr 1
  by_cases mine : e.scope.owner = owner
  · simp only [mine, if_true]
    rw [filter_cons_of_pos (by simpa [MemEvent.columns] using mine)]
    rfl
  · rw [if_neg mine, filter_cons_of_neg (by simpa [MemEvent.columns] using mine)]
    rfl

theorem stored_body {row : EventRow} {body : Json} (written : row.payload = .body body) :
    row.stored P = some (row.withBody body) := by
  simp [EventRow.stored, written, Payload.value]

theorem scanAfter_eq (scannable : Scannable log) (cursor : Int) (limit : Nat) :
    scanAfter P owner cursor limit log =
      some ((Folding.remaining StoredEvent.seq cursor (ownerEvents P owner log)).take limit) := by
  unfold scanAfter ownerEvents
  have sorted : (log.events.filter fun row => row.scopeOwner == owner && decide (cursor < row.seq)).Pairwise
      fun a b => a.seq ≤ b.seq :=
    (scannable.sequenced.ascending.sublist filter_sublist).imp fun less => less.le
  rw [sorted.insertionSort_eq]
  have written := scannable.written
  generalize log.events = rows at written
  induction rows generalizing limit with
  | nil => simp [Folding.remaining]
  | cons row rest ih =>
    have later := fun limit => @ih limit fun row member => written row (mem_cons_of_mem _ member)
    obtain ⟨body, reads⟩ := written row (mem_cons_self ..)
    have here := stored_body (P := P) reads
    by_cases mine : row.scopeOwner = owner
    · by_cases ahead : cursor < row.seq
      · rw [filter_cons_of_pos (by simp [mine, ahead]), filter_cons_of_pos (by simp [mine]),
          filterMap_cons_some here, Folding.remaining, filter_cons, if_pos (decide_eq_true (show cursor < (row.withBody body).seq from ahead))]
        cases limit with
        | zero => rfl
        | succ limit =>
          have tail := later limit
          simp only [take_succ_cons, mapM_cons, here, tail]
          rfl
      · rw [filter_cons_of_neg (by simp [ahead]), filter_cons_of_pos (by simp [mine]),
          filterMap_cons_some here, Folding.remaining, filter_cons, if_neg fun beyond : decide (cursor < (row.withBody body).seq) = true =>
            ahead (of_decide_eq_true beyond)]
        exact later limit
    · rw [filter_cons_of_neg (by simp [mine]), filter_cons_of_neg (by simp [mine])]
      exact later limit

/-- The cursor stands between what has been read and what is left. -/
structure ScanAt (P : Platform) (owner : String) (log : EventTables) (cursor : Int)
    (out rest : List StoredEvent) : Prop where
  split : ownerEvents P owner log = out ++ rest
  read : ∀ e ∈ out, e.seq ≤ cursor
  ahead : ∀ e ∈ rest, cursor < e.seq
  issued : cursor ≤ log.lastSeq

theorem ownerEvents_rows {e : StoredEvent} (member : e ∈ ownerEvents P owner log) :
    ∃ row ∈ log.events, e.seq = row.seq := by
  obtain ⟨row, listed, reads⟩ := mem_filterMap.mp member
  obtain ⟨body, -, rfl⟩ := Option.map_eq_some_iff.mp reads
  exact ⟨row, mem_of_mem_filter listed, rfl⟩

section
variable (scannable : Scannable log)
include scannable

theorem ownerEvents_ascending :
    (ownerEvents P owner log).Pairwise fun a b => a.seq < b.seq := by
  unfold ownerEvents
  rw [pairwise_filterMap]
  refine (scannable.sequenced.ascending.sublist filter_sublist).imp fun less a reads b reads' => ?_
  obtain ⟨_, -, rfl⟩ := Option.map_eq_some_iff.mp reads
  obtain ⟨_, -, rfl⟩ := Option.map_eq_some_iff.mp reads'
  exact less

theorem ScanAt.begin :
    ScanAt P owner log 0 [] (ownerEvents P owner log) where
  split := rfl
  read _ member := absurd member not_mem_nil
  ahead e member := by
    obtain ⟨row, listed, same⟩ := ownerEvents_rows member
    rw [same]
    exact scannable.positive row listed
  issued := scannable.sequenced.nonneg

theorem scanTurn_eq {page : Nat} (positive : 0 < page) {cursor : Int} {out rest : List StoredEvent}
    (scan : ScanAt P owner log cursor out rest) :
    ∃ cursor' out' rest' ends, scanTurn P owner page log cursor out = some (cursor', out', ends) ∧
      ScanAt P owner log cursor' out' rest' ∧ (ends = true → rest' = []) ∧
      (ends = false → rest'.length < rest.length) := by
  have left : Folding.remaining StoredEvent.seq cursor (ownerEvents P owner log) = rest := by
    rw [scan.split, Folding.remaining, filter_append]
    have none_read : out.filter (fun e => decide (cursor < e.seq)) = [] := by
      rw [filter_eq_nil_iff]
      intro e member
      have read := scan.read e member
      simpa using read
    have all_ahead : rest.filter (fun e => decide (cursor < e.seq)) = rest := by
      rw [filter_eq_self]
      intro e member
      exact decide_eq_true (scan.ahead e member)
    rw [none_read, all_ahead, nil_append]
  simp only [scanTurn, scanAfter_eq scannable, left]
  cases batch : (rest.take page).getLast? with
  | none =>
    have empty : rest = [] := by
      rw [List.getLast?_eq_none_iff, take_eq_nil_iff] at batch
      rcases batch with zero | empty
      · omega
      · exact empty
    refine ⟨cursor, out, rest, true, ?_, scan, fun _ => empty, (fun same => by cases same)⟩
    rw [Option.bind_eq_bind, Option.bind_some, batch]
    rfl
  | some last =>
    have listed : last ∈ rest.take page := mem_of_getLast? batch
    have inside : last ∈ ownerEvents P owner log := by
      rw [scan.split]
      exact mem_append_right _ (mem_of_mem_take listed)
    have ascending : (ownerEvents P owner log).Pairwise fun a b => a.seq < b.seq := ownerEvents_ascending scannable
    rw [scan.split, pairwise_append] at ascending
    obtain ⟨front, ends_last⟩ : ∃ front, rest.take page = front ++ [last] :=
      List.getLast?_eq_some_iff.mp batch
    have whole : rest = front ++ [last] ++ rest.drop page := by rw [← ends_last, take_append_drop]
    have ordered := ascending.2.1
    rw [whole, pairwise_append, pairwise_append] at ordered
    refine ⟨last.seq, out ++ rest.take page, rest.drop page, decide ((rest.take page).length < page), ?_,
      ⟨?_, ?_, ?_, ?_⟩, ?_, ?_⟩
    · rw [Option.bind_eq_bind, Option.bind_some, batch]
      rfl
    · rw [append_assoc, take_append_drop, scan.split]
    · intro e member
      rcases mem_append.mp member with old | new
      · have read := scan.read e old
        have ahead := scan.ahead last (mem_of_mem_take listed)
        omega
      · rw [ends_last] at new
        rcases mem_append.mp new with earlier | final
        · exact (ordered.1.2.2 e earlier last (mem_singleton_self _)).le
        · rw [mem_singleton.mp final]
    · intro e member
      exact ordered.2.2 last (mem_append_right _ (mem_singleton_self _)) e member
    · obtain ⟨row, member, same⟩ := ownerEvents_rows inside
      rw [same]
      exact scannable.sequenced.issued row member
    · intro short
      have fewer := of_decide_eq_true short
      rw [length_take] at fewer
      rw [drop_eq_nil_iff]
      omega
    · intro _
      have some_left := length_pos_of_mem (mem_of_mem_take listed)
      rw [length_drop]
      omega

theorem scanTurns_eq {page : Nat} (positive : 0 < page) (turns : Nat) {cursor : Int}
    {out rest : List StoredEvent} (scan : ScanAt P owner log cursor out rest) (enough : rest.length < turns) :
    scanTurns P owner page log turns cursor out = some (ownerEvents P owner log) := by
  induction turns generalizing cursor out rest with
  | zero => omega
  | succ turns ih =>
    obtain ⟨cursor', out', rest', ends, turn, scan', finished, fewer⟩ := scanTurn_eq scannable positive scan
    simp only [scanTurns, turn]
    cases ends with
    | true =>
      show some out' = _
      rw [scan'.split, finished rfl, append_nil]
    | false =>
      have less := fewer rfl
      exact ih scan' (by omega)

theorem scanAllPaged_eq {page : Nat} (positive : 0 < page) :
    scanAllPaged P owner page log = some (ownerEvents P owner log) := by
  refine scanTurns_eq scannable positive _ (.begin scannable) ?_
  have few := length_filterMap_le (EventRow.stored P) (log.events.filter fun row => row.scopeOwner == owner)
  have fewer := length_filter_le (fun row : EventRow => row.scopeOwner == owner) log.events
  unfold ownerEvents
  omega

end

theorem writeRows_ok {all : List StoredEvent} (rows : ConsolidationTable F)
    (named : all = [] ∨ sqliteBlank [' '] owner = false) :
    ∃ rows', writeRows P synth owner all rows = .ok ((kindGroups all).length, rows') := by
  have passes : (!(kindGroups all).isEmpty && sqliteBlank [' '] owner) = false := by
    rcases named with rfl | visible
    · rfl
    · rw [visible, Bool.and_false]
  simp only [writeRows, passes, Bool.false_eq_true, if_false]
  exact ⟨_, rfl⟩

theorem owner_named (scannable : Scannable log) :
    ownerEvents P owner log = [] ∨ sqliteBlank [' '] owner = false := by
  cases all : ownerEvents P owner log with
  | nil => exact .inl rfl
  | cons e rest =>
    have member : e ∈ ownerEvents P owner log := all ▸ mem_cons_self ..
    obtain ⟨row, listed, -⟩ := mem_filterMap.mp member
    have mine : row.scopeOwner = owner := by simpa using (mem_filter.mp listed).2
    exact .inr (mine ▸ scannable.owned row (mem_of_mem_filter listed))

theorem runOnce_eq (scannable : Scannable log) {disk : Option DiskSample}
    (room : diskRefuses .content disk = false) (rows : ConsolidationTable F) :
    ∃ count rows', runOnce P synth disk owner log rows = some (.ok (count, rows')) ∧
      ∀ key, rows'.find key =
        if key.1 = owner then rebuiltRow P synth owner (ownerEvents P owner log) key.2 else rows.find key := by
  have named : ownerEvents P owner log = [] ∨ sqliteBlank [' '] owner = false := owner_named scannable
  obtain ⟨rows', done⟩ : ∃ rows', writeRows P synth owner (ownerEvents P owner log) rows =
      .ok ((kindGroups (ownerEvents P owner log)).length, rows') := writeRows_ok rows named
  refine ⟨(kindGroups (ownerEvents P owner log)).length, rows', ?_, writeRows_find done⟩
  simp only [runOnce, room, Bool.false_eq_true, if_false, scanAllPaged_eq scannable (by decide : 0 < consolidatePage),
    Option.map_some, done]

theorem rebuiltRow_sources (all : List StoredEvent) (key : String) :
    (rebuiltRow P synth owner all key).map (fun row => row.sourceEvents.length) =
      if all.any fun e => e.event.kind == key then some (all.filter fun e => e.event.kind == key).length else none := by
  unfold rebuiltRow
  split
  · simp [consolidate, length_insertionSort]
  · rfl

theorem rebuilt_same_iff (all rest : List StoredEvent) :
    (∀ key, rebuiltRow P synth owner all key = rebuiltRow P synth owner (all ++ rest) key) ↔ rest = [] := by
  constructor
  · intro same
    cases rest with
    | nil => rfl
    | cons e later =>
      have sources := congrArg (Option.map fun row => row.sourceEvents.length) (same e.event.kind)
      rw [rebuiltRow_sources, rebuiltRow_sources] at sources
      have shows : (all ++ e :: later).any (fun x => x.event.kind == e.event.kind) = true := by simp
      split at sources
      · simp at sources
      · cases sources
  · rintro rfl key
    rw [append_nil]

end

inductive ScanStage where
  | scanning (cursor : Int)
  /-- The last page is read; whether nothing has been appended for the owner since. -/
  | scanned (fresh : Bool)
  deriving DecidableEq, Repr

/-- A call of `run_once` under way. -/
structure ConsolidationRun where
  owner : String
  out : List StoredEvent
  stage : ScanStage
  /-- Nothing has been appended for the owner since the call. -/
  recent : Bool

def ConsolidationRun.overtaken (owner : String) (run : ConsolidationRun) : ConsolidationRun :=
  if run.owner = owner then
    { run with
      recent := false
      stage := match run.stage with
        | .scanning cursor => .scanning cursor
        | .scanned _ => .scanned false }
  else run

structure Consolidating (F : Type) where
  log : EventTables
  rows : ConsolidationTable F
  runs : Nat → Option ConsolidationRun
  /-- A run called after the owner's last append has written its rows. -/
  caughtUp : String → Bool
  /-- For an owner with a written run: whether the one that wrote last read its last page after the owner's
  last append. -/
  lastFresh : String → Option Bool

inductive ConsolidationEvent where
  | append (e : MemEvent)
  | start (run : Nat) (owner : String) (disk : Option DiskSample)
  | page (run : Nat)
  | write (run : Nat)
  | fail (run : Nat)

section
variable (P : Platform) {F : Type} (synth : InsightSynth F)

namespace Consolidating

def initial (quota : String → Option QuotaRow) (partitions : String → Option SpaceKind) : Consolidating F where
  log := ⟨[], 0, fun _ => none, fun _ => false, quota, partitions⟩
  rows := .empty
  runs _ := none
  caughtUp _ := false
  lastFresh _ := none

def step (s : Consolidating F) : ConsolidationEvent → Consolidating F
  | .append e =>
    match appendTx P e s.log with
    | .error _ => s
    | .ok log =>
      { s with
        log := log
        runs := fun run => (s.runs run).map (.overtaken e.scope.owner)
        caughtUp := Function.update s.caughtUp e.scope.owner false
        lastFresh := Function.update s.lastFresh e.scope.owner ((s.lastFresh e.scope.owner).map fun _ => false) }
  | .start run owner disk =>
    if (s.runs run).isSome || diskRefuses .content disk then s
    else { s with runs := Function.update s.runs run (some ⟨owner, [], .scanning 0, true⟩) }
  | .page run =>
    match s.runs run with
    | some ⟨owner, out, .scanning cursor, recent⟩ =>
      { s with
        runs := Function.update s.runs run <|
          (scanTurn P owner consolidatePage s.log cursor out).map fun (cursor, out, ends) =>
            ⟨owner, out, if ends then .scanned true else .scanning cursor, recent⟩ }
    | _ => s
  | .write run =>
    match s.runs run with
    | some ⟨owner, out, .scanned fresh, recent⟩ =>
      let ended := Function.update s.runs run none
      match writeRows P synth owner out s.rows with
      | .error _ => { s with runs := ended }
      | .ok (_, rows) =>
        { s with
          rows := rows
          runs := ended
          caughtUp := Function.update s.caughtUp owner (recent || s.caughtUp owner)
          lastFresh := Function.update s.lastFresh owner (some fresh) }
    | _ => s
  | .fail run => { s with runs := Function.update s.runs run none }

variable {P} {synth}

/-- What a run has read, and whether it is still all there is to read. -/
def RunAt (P : Platform) (log : EventTables) (run : ConsolidationRun) : Prop :=
  match run.stage with
  | .scanning cursor => ∃ rest, ScanAt P run.owner log cursor run.out rest
  | .scanned fresh => ∃ rest, ownerEvents P run.owner log = run.out ++ rest ∧ (fresh = true ↔ rest = [])

theorem RunAt.append {e : MemEvent} {log log' : EventTables} (appended : Appended P e log log')
    {run : ConsolidationRun} (reading : RunAt P log run) : RunAt P log' (run.overtaken e.scope.owner) := by
  obtain ⟨owner, out, stage, recent⟩ := run
  have grown : ownerEvents P owner _ = ownerEvents P owner _ ++ _ := ownerEvents_append appended
  by_cases mine : owner = e.scope.owner
  · subst mine
    rw [if_pos rfl] at grown
    cases stage with
    | scanning cursor =>
      obtain ⟨rest, scan⟩ := reading
      have issued := scan.issued
      simp only [RunAt, ConsolidationRun.overtaken, if_true]
      refine ⟨rest ++ [_], by rw [grown, scan.split, append_assoc], scan.read, fun new member => ?_, ?_⟩
      · rcases mem_append.mp member with old | single
        · exact scan.ahead new old
        rw [mem_singleton.mp single]
        show cursor < log.lastSeq + 1
        omega
      · rw [appended.lastSeq]
        omega
    | scanned fresh =>
      obtain ⟨rest, split, -⟩ := reading
      simp only [RunAt, ConsolidationRun.overtaken, if_true]
      exact ⟨rest ++ [_], by rw [grown, split, append_assoc], by simp⟩
  · have same : ownerEvents P owner log' = ownerEvents P owner log := by
      rw [grown, if_neg fun equal => mine equal.symm, append_nil]
    rw [show ConsolidationRun.overtaken e.scope.owner ⟨owner, out, stage, recent⟩ = ⟨owner, out, stage, recent⟩ from
      if_neg mine]
    cases stage with
    | scanning cursor =>
      obtain ⟨rest, scan⟩ := reading
      have issued := scan.issued
      exact ⟨rest, by rw [same]; exact scan.split, scan.read, scan.ahead, by rw [appended.lastSeq]; omega⟩
    | scanned fresh =>
      obtain ⟨rest, split, iff⟩ := reading
      exact ⟨rest, by rw [same]; exact split, iff⟩

def RowsAt (P : Platform) (synth : InsightSynth F) (log : EventTables) (rows : ConsolidationTable F)
    (owner : String) (fresh : Bool) : Prop :=
  ∃ all rest, ownerEvents P owner log = all ++ rest ∧ (fresh = true ↔ rest = []) ∧
    ∀ key, rows.find (owner, key) = rebuiltRow P synth owner all key

structure Consistent (P : Platform) (synth : InsightSynth F) (s : Consolidating F) : Prop where
  scannable : Scannable s.log
  runs : ∀ n run, s.runs n = some run → RunAt P s.log run
  rows : ∀ owner fresh, s.lastFresh owner = some fresh → RowsAt P synth s.log s.rows owner fresh
  caught : ∀ owner, s.caughtUp owner = true → (s.lastFresh owner).isSome

variable {s : Consolidating F}

theorem Consistent.initial (quota : String → Option QuotaRow) (partitions : String → Option SpaceKind) :
    Consistent P synth (initial quota partitions) where
  scannable := by
    refine ⟨⟨List.Pairwise.nil, ?_, le_refl 0⟩, ?_, ?_, ?_⟩
    all_goals
      intro row member
      exact absurd member not_mem_nil
  runs _ _ found := by cases found
  rows _ _ found := by cases found
  caught _ found := by cases found

section
variable (consistent : Consistent P synth s)
include consistent

theorem Consistent.append (e : MemEvent) :
    Consistent P synth (s.step P synth (.append e)) := by
  cases done : appendTx P e s.log with
  | error error => simp only [step, done]; exact consistent
  | ok log =>
    simp only [step, done]
    have appended := appendTx_ok done
    refine ⟨consistent.scannable.append done, ?_, ?_, ?_⟩
    · intro n run found
      obtain ⟨before, stored, rfl⟩ := Option.map_eq_some_iff.mp found
      exact (consistent.runs n before stored).append appended
    · intro owner fresh last
      dsimp only at last
      have grown : ownerEvents P owner _ = ownerEvents P owner _ ++ _ := ownerEvents_append appended
      by_cases mine : owner = e.scope.owner
      · subst mine
        rw [Function.update_self] at last
        obtain ⟨before, stored, rfl⟩ := Option.map_eq_some_iff.mp last
        obtain ⟨all, rest, split, -, found⟩ := consistent.rows _ before stored
        rw [if_pos rfl] at grown
        exact ⟨all, rest ++ [_], by rw [grown, split, append_assoc], by simp, found⟩
      · rw [Function.update_of_ne mine] at last
        obtain ⟨all, rest, split, iff, found⟩ := consistent.rows owner fresh last
        rw [if_neg fun equal => mine equal.symm, append_nil] at grown
        exact ⟨all, rest, by rw [grown]; exact split, iff, found⟩
    · intro owner caught
      dsimp only at caught ⊢
      by_cases mine : owner = e.scope.owner
      · rw [mine, Function.update_self] at caught
        cases caught
      · rw [Function.update_of_ne mine] at caught ⊢
        exact consistent.caught owner caught

theorem Consistent.withRun (n : Nat) {run : Option ConsolidationRun} (reading : ∀ r, run = some r → RunAt P s.log r) :
    Consistent P synth { s with runs := Function.update s.runs n run } where
  scannable := consistent.scannable
  rows := consistent.rows
  caught := consistent.caught
  runs := by
    intro m r found
    dsimp only at found
    by_cases same : m = n
    · subst same
      rw [Function.update_self] at found
      exact reading r found
    · rw [Function.update_of_ne same] at found
      exact consistent.runs m r found

theorem Consistent.page (n : Nat) :
    Consistent P synth (s.step P synth (.page n)) := by
  simp only [step]
  split
  · next owner out cursor recent found =>
    obtain ⟨rest, scan⟩ := consistent.runs n _ found
    obtain ⟨cursor', out', rest', ends, turn, scan', finished, -⟩ :=
      scanTurn_eq consistent.scannable (by decide : 0 < consolidatePage) scan
    rw [turn]
    refine consistent.withRun n ?_
    rintro _ ⟨⟩
    cases ends with
    | true =>
      have nothing := finished rfl
      exact ⟨rest', scan'.split, by simp [nothing]⟩
    | false => exact ⟨rest', scan'⟩
  · exact consistent

theorem Consistent.write (n : Nat) :
    Consistent P synth (s.step P synth (.write n)) := by
  simp only [step]
  split
  · next owner out fresh recent found =>
    obtain ⟨rest, split, iff⟩ := consistent.runs n _ found
    have ended := consistent.withRun n (show ∀ r, none = some r → RunAt P s.log r from nofun)
    split
    · exact ended
    next count rows done =>
    have stored := writeRows_find done
    refine ⟨ended.scannable, ended.runs, ?_, ?_⟩
    · intro owner' fresh' last
      dsimp only at last
      by_cases mine : owner' = owner
      · subst mine
        rw [Function.update_self] at last
        obtain rfl := Option.some.inj last
        exact ⟨out, rest, split, iff, fun key => by rw [stored, if_pos rfl]⟩
      · rw [Function.update_of_ne mine] at last
        obtain ⟨all, rest', split', iff', before⟩ := consistent.rows owner' fresh' last
        exact ⟨all, rest', split', iff', fun key => by rw [stored, if_neg mine]; exact before key⟩
    · intro owner' caught
      dsimp only at caught ⊢
      by_cases mine : owner' = owner
      · subst mine
        rw [Function.update_self]
        rfl
      · rw [Function.update_of_ne mine] at caught ⊢
        exact consistent.caught owner' caught
  · exact consistent

theorem Consistent.step (event : ConsolidationEvent) :
    Consistent P synth (s.step P synth event) := by
  cases event with
  | append e => exact consistent.append e
  | start n =>
    simp only [Consolidating.step]
    split
    · exact consistent
    refine consistent.withRun n ?_
    rintro _ ⟨⟩
    exact ⟨_, .begin consistent.scannable⟩
  | page n => exact consistent.page n
  | write n => exact consistent.write n
  | fail n => exact consistent.withRun n nofun

end

def Rebuilt (P : Platform) (synth : InsightSynth F) (s : Consolidating F) (owner : String) : Prop :=
  ∃ count rows, runOnce P synth none owner s.log .empty = some (.ok (count, rows)) ∧
    ∀ key, s.rows.find (owner, key) = rows.find (owner, key)

theorem Consistent.rebuilt_iff (consistent : Consistent P synth s) {owner : String} {fresh : Bool}
    (last : s.lastFresh owner = some fresh) : Rebuilt P synth s owner ↔ fresh = true := by
  obtain ⟨all, rest, split, iff, stored⟩ := consistent.rows owner fresh last
  obtain ⟨count, rows, done, found⟩ :=
    @runOnce_eq P _ synth owner _ consistent.scannable none rfl .empty
  rw [iff, ← @rebuilt_same_iff P _ synth owner all rest, ← split]
  constructor
  · rintro ⟨count', rows', done', same⟩ key
    obtain ⟨-, rfl⟩ := Prod.mk.inj (Except.ok.inj (Option.some.inj (done.symm.trans done')))
    rw [← stored, same, found, if_pos rfl]
  · intro same
    refine ⟨count, rows, done, fun key => ?_⟩
    rw [stored, found, if_pos rfl, same]

/-- Every run is over, and one that was called after the owner's last append has written. -/
def Settled (s : Consolidating F) (owner : String) : Prop := (∀ n, s.runs n = none) ∧ s.caughtUp owner = true

end Consolidating

variable {P synth}

theorem writeRows_anywhere {owner : String} {all : List StoredEvent} {rows rows' : ConsolidationTable F} {count : Nat}
    (done : writeRows P synth owner all rows = .ok (count, rows')) (other : ConsolidationTable F) :
    ∃ other', writeRows P synth owner all other = .ok (count, other') := by
  simp only [writeRows] at done ⊢
  split at done
  · cases done
  next passes =>
  obtain ⟨rfl, -⟩ := Prod.mk.inj (Except.ok.inj done)
  rw [if_neg passes]
  exact ⟨_, rfl⟩

theorem runOnce_again {disk : Option DiskSample} {owner : String} {log : EventTables}
    {rows rows' : ConsolidationTable F} {count : Nat}
    (done : runOnce P synth disk owner log rows = some (.ok (count, rows'))) :
    ∃ rows'', runOnce P synth disk owner log rows' = some (.ok (count, rows'')) ∧
      ∀ key, rows''.find key = rows'.find key := by
  unfold runOnce at done ⊢
  split at done
  · cases done
  next room =>
  obtain ⟨all, scanned, written⟩ := Option.map_eq_some_iff.mp done
  obtain ⟨rows'', again⟩ := writeRows_anywhere written rows'
  refine ⟨rows'', by rw [if_neg room, scanned, Option.map_some, again], fun key => ?_⟩
  rw [writeRows_find again]
  split
  · next mine => rw [writeRows_find written, if_pos mine]
  · rfl

end

/-- For any appends and overlapping runs: a repeated run changes nothing, and the rows end as a full rebuild's
exactly if the run that wrote last had read its last page after the last append. -/
theorem consolidation_settles_iff (P : Platform) {F : Type} (synth : InsightSynth F)
    (quota : String → Option QuotaRow) (partitions : String → Option SpaceKind)
    (events : List ConsolidationEvent) (owner : String) :
    let s := run (Consolidating.step P synth) events (.initial quota partitions)
    (∀ disk rows count rows', runOnce P synth disk owner s.log rows = some (.ok (count, rows')) →
      ∃ rows'', runOnce P synth disk owner s.log rows' = some (.ok (count, rows'')) ∧
        ∀ key, rows''.find key = rows'.find key) ∧
    ((s.Settled owner → Consolidating.Rebuilt P synth s owner) ↔
      (s.Settled owner → s.lastFresh owner = some true)) := by
  intro s
  have consistent : Consolidating.Consistent P synth s :=
    run_invariant _ (fun _ => True) _ (fun _ event _ holds => holds.step event) (fun _ _ => trivial)
      (.initial quota partitions)
  refine ⟨fun disk rows count rows' => runOnce_again, ?_⟩
  constructor
  · intro rebuilds settled
    obtain ⟨fresh, last⟩ := Option.isSome_iff_exists.mp (consistent.caught owner settled.2)
    rw [last, (consistent.rebuilt_iff last).mp (rebuilds settled)]
  · intro fresh settled
    exact (consistent.rebuilt_iff (fresh settled)).mpr rfl

def note (id : String) : MemEvent :=
  .new "2026-01-01T00:00:00Z" id (.ofOwner "u1") "note" (.obj []) ⟨"user", .userSaid⟩

def overlappingRuns : List ConsolidationEvent :=
  [.append (note "e1"), .start 1 "u1" none, .page 1, .append (note "e2"), .start 2 "u1" none, .page 2, .write 2,
    .write 1]

def notePlatform : Platform :=
  .ofDigests [("u1\u0000note", 0xf3391f863458400bbcbfd600c877514b277f432e6b138d9db305755857fa2728#256)]

def overlapped : Consolidating Nat :=
  run (Consolidating.step notePlatform countSynth) overlappingRuns (.initial (fun _ => none) fun _ => none)

/-- The row of the first note alone stays. -/
theorem overlapping_run_stale : overlapped.Settled "u1" ∧ ¬overlapped.Rebuilt notePlatform countSynth "u1" := by
  refine ⟨⟨fun n => ?_, by decide +kernel⟩, ?_⟩
  · match n with
    | 0 | 1 | 2 => decide +kernel
    | n + 3 => rfl
  · rintro ⟨count, rows, done, same⟩
    have full : ((runOnce notePlatform countSynth none "u1" overlapped.log .empty).map fun result =>
        result.toOption.map fun stored => (stored.2.find ("u1", "note")).map Consolidation.sourceEvents) =
          some (some (some ["e1", "e2"])) := by decide +kernel
    have stale : (overlapped.rows.find ("u1", "note")).map Consolidation.sourceEvents = some ["e1"] := by
      decide +kernel
    rw [done] at full
    have agrees : (rows.find ("u1", "note")).map Consolidation.sourceEvents = some ["e1", "e2"] :=
      Option.some.inj (Option.some.inj full)
    rw [← same, stale] at agrees
    exact absurd agrees (by decide)

end Agent24.Memory
