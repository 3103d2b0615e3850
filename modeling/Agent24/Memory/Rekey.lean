import Agent24.Library.Transaction
import Agent24.Memory.Assertion
import Agent24.Memory.Usage

/-! Moving a partition to a new owner key: events, bookmarks and the catalogue row in one transaction. -/

set_option autoImplicit false
namespace Agent24.Memory
open Library List

/-- A row of `mem_checkpoints`. -/
structure CheckpointRow where
  scopeOwner : String
  name : String
  upToSeq : Int
  recordedAt : String
  deriving DecidableEq

/-- A row of `mem_os_partitions`. -/
structure OsPartitionRow where
  ownerKey : String
  keyVersion : String
  orgId : String
  spaceId : String
  logicalUser : String
  moduleName : String
  firstSeenAt : String
  lastSeenAt : Option String
  spaceKind : SpaceKind
  deriving DecidableEq

structure PartitionTables where
  log : EventTables
  checkpoints : List CheckpointRow
  catalogue : List OsPartitionRow
  /-- The number of rows a further table holds under an owner. -/
  holdings : String → String → Nat

def otherOwnerScopedTables : List String :=
  ["mem_artifacts", "mem_artifact_versions", "mem_assertions", "mem_consolidations", "mem_embeddings",
    "mem_instructions", "mem_trace_refs", "mem_trace_nodes"]

/-- One call of `rekey_os_partition`. -/
structure RekeyRequest where
  oldKey : String
  newKey : String
  newKeyVersion : String

/-- The arguments, and the number of events moved so far. -/
structure Rekey extends RekeyRequest where
  moved : Nat

namespace PartitionTables

def ownedEvents (owner : String) (t : PartitionTables) : List EventRow :=
  t.log.events.filter fun row => row.scopeOwner = owner

def ownedCheckpoints (owner : String) (t : PartitionTables) : List CheckpointRow :=
  t.checkpoints.filter fun row => row.scopeOwner = owner

def recorded (owner : String) (t : PartitionTables) : Bool :=
  t.catalogue.any fun row => row.ownerKey = owner

end PartitionTables

section
variable (P : Platform)

/-- `SELECT COUNT(*)` of one table that is not moved. -/
def refuseHeld (table : String) (t : PartitionTables) (r : Rekey) :
    Except MemoryError (PartitionTables × Rekey) :=
  let n := t.holdings table r.oldKey
  if n > 0 then
    .error (.conflict ("cannot re-key " ++ P.debugStr r.oldKey ++ ": " ++ table ++ " holds " ++
      toString n ++ " row(s) under it, and this function moves only events and checkpoints. " ++
      "Moving a partition while leaving those behind would orphan them silently — teach this " ++
      "function to move " ++ table ++ " before allowing it"))
  else .ok (t, r)

section
variable (t : PartitionTables)

def refuseTaken (r : Rekey) : Except MemoryError (PartitionTables × Rekey) :=
  if t.recorded r.newKey then
    .error (.conflict ("cannot re-key " ++ P.debugStr r.oldKey ++ ": " ++ P.debugStr r.newKey ++
      " is already a recorded partition, and merging two partitions is exactly the " ++
      "cross-partition leak this catalog exists to prevent"))
  else .ok (t, r)

/-- `UPDATE mem_events`, each row with its owner-move trigger. -/
def moveEvents (r : Rekey) : Except MemoryError (PartitionTables × Rekey) :=
  match (Statement.moveOwner r.newKey fun row => row.scopeOwner = r.oldKey).exec P t.log with
  | .ok log => .ok ({ t with log := log }, { r with moved := (t.ownedEvents r.oldKey).length })
  | .error e => .error (.sqlx e)

def renameCheckpoint (r : RekeyRequest) (row : CheckpointRow) : CheckpointRow :=
  if row.scopeOwner = r.oldKey then { row with scopeOwner := r.newKey } else row

/-- `UPDATE mem_checkpoints`: its `CHECK` on the owner, then the key of owner and name. -/
def moveCheckpoints (r : Rekey) :
    Except MemoryError (PartitionTables × Rekey) :=
  let moving := t.ownedCheckpoints r.oldKey
  if sqliteBlank [' '] r.newKey && !moving.isEmpty then .error (.sqlx .checkFailed)
  else if moving.any fun row => (t.ownedCheckpoints r.newKey).any fun other => other.name == row.name then
    .error (.sqlx .uniqueFailed)
  else .ok ({ t with checkpoints := t.checkpoints.map (renameCheckpoint r.toRekeyRequest) }, r)

def renamePartition (r : RekeyRequest) (row : OsPartitionRow) : OsPartitionRow :=
  if row.ownerKey = r.oldKey then { row with ownerKey := r.newKey, keyVersion := r.newKeyVersion } else row

/-- `UPDATE mem_os_partitions`, which must find exactly one row. -/
def moveCatalogue (r : Rekey) : Except MemoryError (PartitionTables × Rekey) :=
  let updated := (t.catalogue.filter fun row => row.ownerKey = r.oldKey).length
  if updated > 0 && !ownerCheck r.newKeyVersion then .error (.sqlx .checkFailed)
  else if updated > 0 && t.recorded r.newKey then .error (.sqlx .uniqueFailed)
  else if updated ≠ 1 then
    .error (.conflict ("re-key of " ++ P.debugStr r.oldKey ++ " updated " ++ toString updated ++
      " catalog rows, expected exactly 1"))
  else
    let catalogue := t.catalogue.map (renamePartition r.toRekeyRequest)
    .ok ({ t with
      catalogue := catalogue
      log := { t.log with
        partitions := fun owner =>
          (catalogue.find? fun row => row.ownerKey = owner).map OsPartitionRow.spaceKind } }, r)

end

def rekeyOsPartition : Transaction.Protocol PartitionTables Rekey MemoryError RekeyRequest where
  admits r :=
    if r.oldKey = r.newKey then
      .error (.conflict ("re-key of " ++ P.debugStr r.oldKey ++ " to itself"))
    else .ok ⟨r, 0⟩
  body _ := otherOwnerScopedTables.map (refuseHeld P) ++
    [refuseTaken P, moveEvents P, moveCheckpoints, moveCatalogue P]

end

namespace EventTables

/-- The columns of a log that a move of events between two owners leaves alone. -/
structure MovedBetween (old new : String) (t t' : EventTables) : Prop where
  sound : t'.Sound
  exempt : t'.exempt = t.exempt
  lastSeq : t'.lastSeq = t.lastSeq
  quota : t'.quota = t.quota
  partitions : t'.partitions = t.partitions
  usage : ∀ owner, owner ≠ old → owner ≠ new → t'.usage owner = t.usage owner

theorem MovedBetween.trans {old new : String} {a b c : EventTables} (first : MovedBetween old new a b)
    (second : MovedBetween old new b c) : MovedBetween old new a c where
  sound := second.sound
  exempt := second.exempt.trans first.exempt
  lastSeq := second.lastSeq.trans first.lastSeq
  quota := second.quota.trans first.quota
  partitions := second.partitions.trans first.partitions
  usage owner here there := (second.usage owner here there).trans (first.usage owner here there)

theorem moveRow_ok {t : EventTables} (sound : t.Sound) {row : EventRow} (member : row ∈ t.events)
    {new : String} (owned : ownerCheck new = true) (differ : row.scopeOwner ≠ new) :
    ∃ t', t.moveRow new row = .ok t' ∧ MovedBetween row.scopeOwner new t t' ∧
      t'.events = rewriteKey EventRow.seq row.seq (.setOwner new) t.events := by
  have kept := moveRow_ensures sound member new
  cases done : t.moveRow new row with
  | error e =>
    rw [done] at kept
    simp only [moveRow, owned, differ, Bool.not_true, Bool.false_eq_true, if_false, release] at done
    split at done
    · cases done
    · obtain rfl := Except.error.inj done
      exact absurd rfl kept
  | ok t' =>
    rw [done] at kept
    obtain ⟨sound', exempt, events⟩ := kept
    refine ⟨t', rfl, ?_, events⟩
    simp only [moveRow, owned, differ, Bool.not_true, Bool.false_eq_true, if_false, release] at done
    split at done
    · obtain rfl := Except.ok.inj done
      refine ⟨sound', exempt, rfl, rfl, rfl, fun owner here there => ?_⟩
      simp only [addUsage]
      rw [Function.update_of_ne there, Function.update_of_ne here]
    · cases done

end EventTables

open EventTables

def moveOwned (old new : String) (row : EventRow) : EventRow :=
  if row.scopeOwner = old then row.setOwner new else row

section
variable {P : Platform} {old new : String}

/-- Every event of the old owner moves, with its charge, unless the new owner fails its `CHECK`. -/
theorem moveOwner_ok {t : EventTables} (sound : t.Sound) (differ : old ≠ new)
    (owned : ownerCheck new = true) :
    ∃ t', (Statement.moveOwner new fun row => row.scopeOwner = old).exec P t = .ok t' ∧
      MovedBetween old new t t' ∧ t'.events = t.events.map (moveOwned old new) := by
  -- the events of `rest` are still to be moved, the others of the old owner are
  have loop : ∀ (rest : List EventRow) (now : EventTables), now.Sound →
      (rest.map EventRow.seq).Nodup → (∀ row ∈ rest, row ∈ now.events ∧ row.scopeOwner = old) →
      ∃ t', rest.foldlM (EventTables.moveRow new) now = .ok t' ∧ MovedBetween old new now t' ∧
        t'.events = now.events.map fun row => if row ∈ rest then row.setOwner new else row := by
    intro rest
    induction rest with
    | nil =>
      intro now sound _ _
      refine ⟨now, rfl, ⟨sound, rfl, rfl, rfl, rfl, fun _ _ _ => rfl⟩, ?_⟩
      simp
    | cons row rest ih =>
      intro now sound distinct pending
      obtain ⟨member, here⟩ := pending row (mem_cons_self ..)
      obtain ⟨next, moved, between, events⟩ := moveRow_ok sound member owned (here ▸ differ)
      rw [map_cons, nodup_cons] at distinct
      have left : ∀ other ∈ rest, other ∈ next.events ∧ other.scopeOwner = old := by
        intro other inside
        obtain ⟨stored, there⟩ := pending other (mem_cons_of_mem _ inside)
        refine ⟨?_, there⟩
        rw [events]
        refine mem_map.mpr ⟨other, stored, if_neg fun equal => ?_⟩
        exact distinct.1 (equal ▸ mem_map_of_mem inside)
      obtain ⟨last, done, after, final⟩ := ih next between.sound distinct.2 left
      refine ⟨last, ?_, (here ▸ between).trans after, ?_⟩
      · rw [foldlM_cons, moved]
        exact done
      · rw [final, events, rewriteKey, map_map]
        apply map_congr_left
        intro other stored
        by_cases same : other.seq = row.seq
        · obtain rfl := inj_on_of_nodup_map sound.seqs stored member same
          have absent : other.setOwner new ∉ rest := by
            intro inside
            have listed := mem_map_of_mem (f := EventRow.seq) inside
            exact distinct.1 listed
          simp [absent]
        · have apart : other ≠ row := fun equal => same (equal ▸ rfl)
          simp [same, apart]
  obtain ⟨t', done, between, events⟩ := loop (t.events.filter fun row => row.scopeOwner = old) t sound
    (sound.seqs.sublist (filter_sublist.map _)) (by simp)
  refine ⟨t', done, between, ?_⟩
  rw [events]
  apply map_congr_left
  intro row stored
  simp [moveOwned, stored]

/-- An owner that fails its `CHECK` can be given no event. -/
theorem moveOwner_refused {t : EventTables} {row : EventRow} (member : row ∈ t.events)
    (here : row.scopeOwner = old) (unowned : ownerCheck new = false) :
    (Statement.moveOwner new fun row => row.scopeOwner = old).exec P t = .error .checkFailed := by
  simp only [Statement.exec]
  cases moving : t.events.filter fun row => row.scopeOwner = old with
  | nil =>
    have absent := filter_eq_nil_iff.mp moving row member
    simp [here] at absent
  | cons first rest =>
    rw [foldlM_cons]
    simp only [moveRow, unowned]
    rfl

theorem moveOwner_absent {t : EventTables} (absent : ∀ row ∈ t.events, row.scopeOwner ≠ old) :
    (Statement.moveOwner new fun row => row.scopeOwner = old).exec P t = .ok t := by
  have none_ : (t.events.filter fun row => row.scopeOwner = old) = [] := by
    simpa using absent
  simp only [Statement.exec, none_]
  rfl

end

namespace PartitionTables

structure Valid (t : PartitionTables) : Prop where
  log : t.log.Sound
  bookmarks : (t.checkpoints.map fun row => (row.scopeOwner, row.name)).Nodup
  keys : (t.catalogue.map OsPartitionRow.ownerKey).Nodup
  kinds : ∀ owner, t.log.partitions owner =
    (t.catalogue.find? fun row => row.ownerKey = owner).map OsPartitionRow.spaceKind

end PartitionTables

structure Movable (r : RekeyRequest) (t : PartitionTables) : Prop where
  differ : r.oldKey ≠ r.newKey
  unheld : ∀ table ∈ otherOwnerScopedTables, t.holdings table r.oldKey = 0
  free : t.recorded r.newKey = false
  ownable : t.ownedEvents r.oldKey = [] ∨ ownerCheck r.newKey = true
  nameable : t.ownedCheckpoints r.oldKey = [] ∨ sqliteBlank [' '] r.newKey = false
  apart : ∀ row ∈ t.ownedCheckpoints r.oldKey, ∀ other ∈ t.ownedCheckpoints r.newKey, other.name ≠ row.name
  known : t.recorded r.oldKey = true
  versioned : ownerCheck r.newKeyVersion = true

structure MovedTables (r : RekeyRequest) (t t' : PartitionTables) : Prop where
  log : EventTables.MovedBetween r.oldKey r.newKey { t.log with partitions := t'.log.partitions } t'.log
  events : t'.log.events = t.log.events.map (moveOwned r.oldKey r.newKey)
  checkpoints : t'.checkpoints = t.checkpoints.map (renameCheckpoint r)
  catalogue : t'.catalogue = t.catalogue.map (renamePartition r)
  kinds : ∀ owner, t'.log.partitions owner =
    (t'.catalogue.find? fun row => row.ownerKey = owner).map OsPartitionRow.spaceKind
  holdings : t'.holdings = t.holdings

section
variable {P : Platform} {r : RekeyRequest} {t t' : PartitionTables}

theorem script_refuseHeld (tables : List String) (call : Rekey) :
    (Transaction.script (tables.map (refuseHeld P)) t call = .ok (t, call) ∧
        ∀ table ∈ tables, t.holdings table call.oldKey = 0) ∨
      ((∃ e, Transaction.script (tables.map (refuseHeld P)) t call = .error e) ∧
        ∃ table ∈ tables, t.holdings table call.oldKey ≠ 0) := by
  induction tables with
  | nil => exact .inl ⟨rfl, fun _ absent => nomatch absent⟩
  | cons table rest ih =>
    by_cases held : t.holdings table call.oldKey > 0
    · refine .inr ⟨?_, table, mem_cons_self .., by omega⟩
      simp only [map_cons, Transaction.script, refuseHeld, held, if_true]
      exact ⟨_, rfl⟩
    · have zero : t.holdings table call.oldKey = 0 := by omega
      simp only [map_cons, Transaction.script, refuseHeld, held, if_false]
      rcases ih with ⟨passed, unheld⟩ | ⟨refused, other, listed, some_⟩
      · exact .inl ⟨passed, forall_mem_cons.mpr ⟨zero, unheld⟩⟩
      · exact .inr ⟨refused, other, mem_cons_of_mem _ listed, some_⟩

theorem ownedEvents_nil {owner : String} :
    t.ownedEvents owner = [] ↔ ∀ row ∈ t.log.events, row.scopeOwner ≠ owner := by
  simp [PartitionTables.ownedEvents]

theorem moveEvents_cases (sound : t.log.Sound) (call : Rekey) (differ : call.oldKey ≠ call.newKey) :
    (∃ log moved, moveEvents P t call = .ok ({ t with log := log }, { call with moved := moved }) ∧
        EventTables.MovedBetween call.oldKey call.newKey t.log log ∧
        log.events = t.log.events.map (moveOwned call.oldKey call.newKey)) ∧
        (t.ownedEvents call.oldKey = [] ∨ ownerCheck call.newKey = true) ∨
      (∃ e, moveEvents P t call = .error e) ∧
        ¬ (t.ownedEvents call.oldKey = [] ∨ ownerCheck call.newKey = true) := by
  unfold moveEvents
  cases owned : ownerCheck call.newKey with
  | true =>
    obtain ⟨log, done, between, events⟩ := moveOwner_ok (P := P) sound differ owned
    rw [done]
    exact .inl ⟨⟨log, _, rfl, between, events⟩, .inr rfl⟩
  | false =>
    cases moving : t.ownedEvents call.oldKey with
    | nil =>
      have absent := ownedEvents_nil.mp moving
      rw [moveOwner_absent absent]
      refine .inl ⟨⟨t.log, _, rfl, ⟨sound, rfl, rfl, rfl, rfl, fun _ _ _ => rfl⟩, ?_⟩, .inl rfl⟩
      symm
      calc t.log.events.map (moveOwned call.oldKey call.newKey)
          _ = t.log.events.map id := map_congr_left fun row stored => if_neg (absent row stored)
          _ = t.log.events := map_id _
    | cons row rest =>
      have inside : row ∈ t.ownedEvents call.oldKey := moving ▸ mem_cons_self ..
      obtain ⟨stored, here⟩ := mem_filter.mp inside
      rw [moveOwner_refused stored (beq_iff_eq.mp here) owned]
      exact .inr ⟨⟨_, rfl⟩, by simp⟩

theorem moveCheckpoints_cases (t : PartitionTables) (call : Rekey) :
    (moveCheckpoints t call =
        .ok ({ t with checkpoints := t.checkpoints.map (renameCheckpoint call.toRekeyRequest) }, call) ∧
        (t.ownedCheckpoints call.oldKey = [] ∨ sqliteBlank [' '] call.newKey = false) ∧
        ∀ row ∈ t.ownedCheckpoints call.oldKey, ∀ other ∈ t.ownedCheckpoints call.newKey,
          other.name ≠ row.name) ∨
      (∃ e, moveCheckpoints t call = .error e) ∧
        ¬ ((t.ownedCheckpoints call.oldKey = [] ∨ sqliteBlank [' '] call.newKey = false) ∧
          ∀ row ∈ t.ownedCheckpoints call.oldKey, ∀ other ∈ t.ownedCheckpoints call.newKey,
            other.name ≠ row.name) := by
  by_cases blank : (sqliteBlank [' '] call.newKey && !(t.ownedCheckpoints call.oldKey).isEmpty) = true
  · refine .inr ⟨⟨.sqlx .checkFailed, by simp only [moveCheckpoints, blank, if_true]⟩, fun fine => ?_⟩
    rcases fine.1 with none_ | visible
    · simp [none_] at blank
    · simp [visible] at blank
  by_cases clash : ((t.ownedCheckpoints call.oldKey).any fun row =>
      (t.ownedCheckpoints call.newKey).any fun other => other.name == row.name) = true
  · refine .inr ⟨⟨.sqlx .uniqueFailed, by simp only [moveCheckpoints, blank, clash]; rfl⟩,
      fun fine => ?_⟩
    obtain ⟨row, inside, taken⟩ := any_eq_true.mp clash
    obtain ⟨other, there, same⟩ := any_eq_true.mp taken
    exact fine.2 row inside other there (beq_iff_eq.mp same)
  · refine .inl ⟨by simp only [moveCheckpoints, blank, clash]; rfl, ?_,
      fun row inside other there same => clash ?_⟩
    · cases visible : sqliteBlank [' '] call.newKey with
      | false => exact .inr rfl
      | true => exact .inl (by simpa [visible] using blank)
    · exact any_eq_true.mpr ⟨row, inside, any_eq_true.mpr ⟨other, there, beq_iff_eq.mpr same⟩⟩

theorem recorded_once (keys : (t.catalogue.map OsPartitionRow.ownerKey).Nodup) (owner : String) :
    (t.catalogue.filter fun row => row.ownerKey = owner).length = if t.recorded owner then 1 else 0 := by
  have counted : (t.catalogue.filter fun row => row.ownerKey = owner).length =
      (t.catalogue.map OsPartitionRow.ownerKey).count owner := by
    rw [← countP_eq_length_filter, List.count, countP_map]
    rfl
  have listed : t.recorded owner = true ↔ owner ∈ t.catalogue.map OsPartitionRow.ownerKey := by
    simp [PartitionTables.recorded]
  rw [counted]
  split
  · next known => exact count_eq_one_of_mem keys (listed.mp known)
  · next unknown => exact count_eq_zero_of_not_mem fun inside => unknown (listed.mpr inside)

theorem moveCatalogue_cases (keys : (t.catalogue.map OsPartitionRow.ownerKey).Nodup) (call : Rekey)
    (free : t.recorded call.newKey = false) :
    (∃ t', moveCatalogue P t call = .ok (t', call) ∧
        t' = { t with
          catalogue := t.catalogue.map (renamePartition call.toRekeyRequest)
          log := { t.log with partitions := t'.log.partitions } } ∧
        ∀ owner, t'.log.partitions owner =
          (t'.catalogue.find? fun row => row.ownerKey = owner).map OsPartitionRow.spaceKind) ∧
        t.recorded call.oldKey = true ∧ ownerCheck call.newKeyVersion = true ∨
      (∃ e, moveCatalogue P t call = .error e) ∧
        ¬ (t.recorded call.oldKey = true ∧ ownerCheck call.newKeyVersion = true) := by
  have once := recorded_once keys call.oldKey
  unfold moveCatalogue
  cases known : t.recorded call.oldKey with
  | false =>
    rw [known] at once
    simp only [once, Bool.false_eq_true, if_false]
    exact .inr ⟨⟨_, rfl⟩, by simp⟩
  | true =>
    rw [known] at once
    cases versioned : ownerCheck call.newKeyVersion with
    | false =>
      simp only [once]
      exact .inr ⟨⟨_, rfl⟩, by simp⟩
    | true =>
      simp only [once, free]
      exact .inl ⟨⟨_, rfl, rfl, fun _ => rfl⟩, trivial, trivial⟩

/-- The move succeeds exactly where no check refuses it, and then moves everything it is to move. -/
theorem rekey_cases (valid : t.Valid) :
    (Movable r t ∧ ∃ t' call, (rekeyOsPartition P).whole r t = .ok (t', call) ∧ MovedTables r t t') ∨
      (¬ Movable r t ∧ ∃ e, (rekeyOsPartition P).whole r t = .error e) := by
  by_cases same : r.oldKey = r.newKey
  · refine .inr ⟨fun movable => movable.differ same, ?_⟩
    simp only [Transaction.Protocol.whole, rekeyOsPartition, same, if_true]
    exact ⟨_, rfl⟩
  simp only [Transaction.Protocol.whole, rekeyOsPartition, same, if_false, Transaction.script_append]
  rcases script_refuseHeld (P := P) (t := t) otherOwnerScopedTables ⟨r, 0⟩ with
    ⟨passed, unheld⟩ | ⟨⟨e, refused⟩, table, listed, held⟩
  · simp only [passed, Transaction.script]
    cases taken : t.recorded r.newKey with
    | true =>
      refine .inr ⟨fun movable => ?_, ?_⟩
      · have free := movable.free
        rw [taken] at free
        cases free
      · simp only [refuseTaken, taken, if_true]
        exact ⟨_, rfl⟩
    | false =>
      simp only [refuseTaken, taken, Bool.false_eq_true, if_false]
      rcases moveEvents_cases (P := P) valid.log ⟨r, 0⟩ same with
        ⟨⟨log, moved, done, between, events⟩, ownable⟩ | ⟨⟨e, refused⟩, unownable⟩
      · simp only [done]
        rcases moveCheckpoints_cases { t with log := log } ⟨r, moved⟩ with
          ⟨done, nameable, apart⟩ | ⟨⟨e, refused⟩, clash⟩
        · simp only [done]
          rcases moveCatalogue_cases (P := P) (t := { t with
              log := log
              checkpoints := t.checkpoints.map (renameCheckpoint r) }) valid.keys ⟨r, moved⟩ taken with
            ⟨⟨t', done, rebuilt, kinds⟩, known, versioned⟩ | ⟨⟨e, refused⟩, unknown⟩
          · simp only [done]
            refine .inl ⟨⟨same, unheld, taken, ownable, nameable, apart, known, versioned⟩, t', _, rfl, ?_⟩
            rw [rebuilt] at kinds ⊢
            refine ⟨⟨?_, between.exempt, between.lastSeq, between.quota, rfl, between.usage⟩, events, rfl,
              rfl, kinds, rfl⟩
            exact between.sound.of_log rfl rfl rfl rfl
          · simp only [refused]
            exact .inr ⟨fun movable => unknown ⟨movable.known, movable.versioned⟩, ⟨_, rfl⟩⟩
        · simp only [refused]
          exact .inr ⟨fun movable => clash ⟨movable.nameable, movable.apart⟩, ⟨_, rfl⟩⟩
      · simp only [refused]
        exact .inr ⟨fun movable => unownable movable.ownable, ⟨_, rfl⟩⟩
  · simp only [refused]
    exact .inr ⟨fun movable => held (movable.unheld table listed), ⟨_, rfl⟩⟩

end

structure Untouched (owner : String) (t t' : PartitionTables) : Prop where
  events : t'.ownedEvents owner = t.ownedEvents owner
  checkpoints : t'.ownedCheckpoints owner = t.ownedCheckpoints owner
  usage : t'.log.usage owner = t.log.usage owner
  catalogue : (t'.catalogue.filter fun row => row.ownerKey = owner) =
    t.catalogue.filter fun row => row.ownerKey = owner
  holdings : ∀ table, t'.holdings table owner = t.holdings table owner

structure Relocated (r : RekeyRequest) (t t' : PartitionTables) : Prop where
  events : t'.ownedEvents r.newKey = (t.ownedEvents r.oldKey).map (.setOwner r.newKey)
  checkpoints : t'.ownedCheckpoints r.newKey =
    (t.ownedCheckpoints r.oldKey).map fun row => { row with scopeOwner := r.newKey }
  emptied : t'.ownedEvents r.oldKey = [] ∧ t'.ownedCheckpoints r.oldKey = []
  named : (t'.catalogue.filter fun row => row.ownerKey = r.newKey) =
      (t.catalogue.filter fun row => row.ownerKey = r.oldKey).map fun row =>
        { row with ownerKey := r.newKey, keyVersion := r.newKeyVersion }
  unnamed : t'.recorded r.oldKey = false
  usage : t'.log.used r.newKey = t.log.used r.oldKey
  others : ∀ owner, owner ≠ r.oldKey → owner ≠ r.newKey → Untouched owner t t'

def Clear (owner : String) (t : PartitionTables) : Prop :=
  t.ownedEvents owner = [] ∧ t.ownedCheckpoints owner = []

section
variable {P : Platform} {r : RekeyRequest} {t t' : PartitionTables}

def eventOwner : Label EventRow String := ⟨fun row => row.scopeOwner, .setOwner, fun _ _ => rfl⟩

def checkpointOwner : Label CheckpointRow String :=
  ⟨CheckpointRow.scopeOwner, fun owner row => { row with scopeOwner := owner }, fun _ _ => rfl⟩

def partitionKey (version : String) : Label OsPartitionRow String :=
  ⟨OsPartitionRow.ownerKey, fun owner row => { row with ownerKey := owner, keyVersion := version },
    fun _ _ => rfl⟩

theorem tallied_moved {exempt : String → Bool} {events : List EventRow} {old new : String}
    (unused : ∀ row ∈ events, row.scopeOwner ≠ new) :
    tallied exempt (events.map (moveOwned old new)) new = tallied exempt events old := by
  have moves : ∀ class_, ∀ row ∈ events,
      billed exempt new class_ (moveOwned old new row) = billed exempt old class_ row := by
    intro class_ row stored
    by_cases here : row.scopeOwner = old
    · simp [billed, moveOwned, here, EventRow.setOwner]
    · simp only [billed, moveOwned, here, if_false]
      rw [beq_false_of_ne here, beq_false_of_ne (unused row stored)]
  have bytes : ∀ row, payloadBytes (moveOwned old new row) = payloadBytes row := by
    intro row
    unfold moveOwned
    split <;> rfl
  have totals : ∀ class_ (weight : EventRow → Int), (∀ row, weight (moveOwned old new row) = weight row) →
      tally weight (billed exempt new class_) (events.map (moveOwned old new)) =
        tally weight (billed exempt old class_) events := by
    intro class_ weight same
    rw [tally_map, funext same]
    exact tally_congr _ _ _ (moves class_)
  simp only [tallied, totals _ _ bytes, totals _ (fun _ => 1) fun _ => rfl]

theorem MovedTables.relocated (moved : MovedTables r t t') (valid : t.Valid) (movable : Movable r t)
    (clear : Clear r.newKey t) : Relocated r t t' := by
  have differ := movable.differ
  have unused : ∀ row ∈ t.log.events, row.scopeOwner ≠ r.newKey := by
    simpa [PartitionTables.ownedEvents] using clear.1
  have unmarked : ∀ row ∈ t.checkpoints, row.scopeOwner ≠ r.newKey := by
    simpa [PartitionTables.ownedCheckpoints] using clear.2
  have unrecorded : ∀ row ∈ t.catalogue, row.ownerKey ≠ r.newKey := by
    simpa [PartitionTables.recorded] using movable.free
  refine ⟨?_, ?_, ⟨?_, ?_⟩, ?_, ?_, ?_, fun owner here there => ⟨?_, ?_, ?_, ?_, ?_⟩⟩
  · rw [PartitionTables.ownedEvents, moved.events]
    exact eventOwner.filter_relabel_new unused
  · rw [PartitionTables.ownedCheckpoints, moved.checkpoints]
    exact checkpointOwner.filter_relabel_new unmarked
  · rw [PartitionTables.ownedEvents, moved.events]
    exact eventOwner.filter_relabel_old differ _
  · rw [PartitionTables.ownedCheckpoints, moved.checkpoints]
    exact checkpointOwner.filter_relabel_old differ _
  · rw [moved.catalogue]
    exact (partitionKey r.newKeyVersion).filter_relabel_new unrecorded
  · have gone := (partitionKey r.newKeyVersion).filter_relabel_old differ t.catalogue
    rw [PartitionTables.recorded, moved.catalogue, any_eq_false]
    exact filter_eq_nil_iff.mp gone
  · rw [moved.log.sound.counted, valid.log.counted, moved.log.exempt, moved.events]
    exact tallied_moved unused
  · rw [PartitionTables.ownedEvents, moved.events]
    exact eventOwner.filter_relabel_other here there _
  · rw [PartitionTables.ownedCheckpoints, moved.checkpoints]
    exact checkpointOwner.filter_relabel_other here there _
  · exact moved.log.usage owner here there
  · rw [moved.catalogue]
    exact (partitionKey r.newKeyVersion).filter_relabel_other here there _
  · intro table
    rw [moved.holdings]

theorem MovedTables.clear (moved : MovedTables r t t') (differ : r.oldKey ≠ r.newKey)
    (relocated : Relocated r t t') : Clear r.newKey t := by
  have events : (t'.ownedEvents r.newKey).length =
      (t.ownedEvents r.oldKey).length + (t.ownedEvents r.newKey).length := by
    rw [PartitionTables.ownedEvents, moved.events]
    exact eventOwner.length_filter_relabel differ _
  have checkpoints : (t'.ownedCheckpoints r.newKey).length =
      (t.ownedCheckpoints r.oldKey).length + (t.ownedCheckpoints r.newKey).length := by
    rw [PartitionTables.ownedCheckpoints, moved.checkpoints]
    exact checkpointOwner.length_filter_relabel differ _
  rw [relocated.events, length_map] at events
  rw [relocated.checkpoints, length_map] at checkpoints
  exact ⟨eq_nil_of_length_eq_zero (by omega), eq_nil_of_length_eq_zero (by omega)⟩

theorem MovedTables.valid (moved : MovedTables r t t') (valid : t.Valid) (movable : Movable r t) :
    t'.Valid := by
  refine ⟨moved.log.sound, ?_, ?_, moved.kinds⟩
  · rw [moved.checkpoints, map_map]
    refine nodup_of_finer valid.bookmarks fun row inside other there same => ?_
    have apart := movable.apart
    simp only [PartitionTables.ownedCheckpoints, mem_filter, decide_eq_true_eq, and_imp] at apart
    simp only [Function.comp, renameCheckpoint] at same
    by_cases left : row.scopeOwner = r.oldKey <;> by_cases right : other.scopeOwner = r.oldKey
    · simp only [left, right, if_true, Prod.mk.injEq] at same ⊢
      exact ⟨trivial, same.2⟩
    · simp only [left, right, if_true, if_false, Prod.mk.injEq] at same
      exact absurd same.2.symm (apart row inside left other there same.1.symm)
    · simp only [left, right, if_true, if_false, Prod.mk.injEq] at same
      exact absurd same.2 (apart other there right row inside same.1)
    · simpa only [left, right, if_false] using same
  · rw [moved.catalogue, map_map]
    refine nodup_of_finer valid.keys fun row inside other there same => ?_
    have unrecorded : ∀ row ∈ t.catalogue, row.ownerKey ≠ r.newKey := by
      simpa [PartitionTables.recorded] using movable.free
    simp only [Function.comp, renamePartition] at same
    by_cases left : row.ownerKey = r.oldKey <;> by_cases right : other.ownerKey = r.oldKey
    · rw [left, right]
    · simp only [left, right, if_true, if_false] at same
      exact absurd same.symm (unrecorded other there)
    · simp only [left, right, if_true, if_false] at same
      exact absurd same (unrecorded row inside)
    · simpa only [left, right, if_false] using same

end

structure PartitionDb extends PartitionTables where
  valid : toPartitionTables.Valid

def Settles (P : Platform) (r : RekeyRequest) (t : PartitionTables) : Prop :=
  ∀ events : List (Transaction.Event MemoryError RekeyRequest),
    (∀ event ∈ events, Transaction.Continues event) →
    let m := run (Transaction.Machine.step (rekeyOsPartition P)) events
      ((Transaction.initial t).step (rekeyOsPartition P) (.start r))
    (m.store = t ∧ ∀ x ∈ m.finished, x.2.locals = none) ∨
      (Relocated r t m.store ∧ m.store.Valid ∧ ∃ call, m.finished = [(r, .committed call)])

section
variable {P : Platform} {r : RekeyRequest}

theorem settles_of_clear {t : PartitionTables} (valid : t.Valid)
    (clear : Movable r t → Clear r.newKey t) : Settles P r t := by
  intro events continues m
  cases Transaction.call_standing (rekeyOsPartition P) r t continues with
  | underWay w writer same store finished =>
    refine .inl ⟨store, fun x listed => ?_⟩
    rw [finished] at listed
    cases listed
  | failed outcome writer unpublished store finished =>
    refine .inl ⟨store, fun x listed => ?_⟩
    rw [finished, mem_singleton] at listed
    rw [listed]
    exact unpublished
  | succeeded call writer whole finished =>
    rcases rekey_cases (P := P) valid with ⟨movable, t', call', done, moved⟩ | ⟨-, e, refused⟩
    · obtain ⟨rfl, -⟩ := Prod.mk.inj (Except.ok.inj (done.symm.trans whole))
      exact .inr ⟨moved.relocated valid movable (clear movable), moved.valid valid movable, call, finished⟩
    · exact nomatch refused.symm.trans whole

theorem clear_of_settles {t : PartitionTables} (valid : t.Valid) (settles : Settles P r t)
    (movable : Movable r t) : Clear r.newKey t := by
  rcases rekey_cases (P := P) valid with ⟨-, t', call, done, moved⟩ | ⟨stuck, -⟩
  · obtain ⟨events, continues, store, finished⟩ := Transaction.call_completes (rekeyOsPartition P) done
    rcases settles events continues with ⟨-, quiet⟩ | ⟨relocated, -⟩
    · have published := quiet (r, .committed call) (finished ▸ mem_singleton_self _)
      cases published
    · rw [store] at relocated
      exact moved.clear movable.differ relocated
  · exact absurd movable stuck

/-- A move is all or nothing and exact, but for what the new key had already. -/
theorem rekey_settles_iff (P : Platform) (r : RekeyRequest) (db : PartitionDb) :
    Settles P r db.toPartitionTables ↔
      (Movable r db.toPartitionTables → Clear r.newKey db.toPartitionTables) :=
  ⟨clear_of_settles db.valid, settles_of_clear db.valid⟩

end

def noteUnder (owner id : String) : EventColumns :=
  (MemEvent.new "2026-01-01T00:00:00Z" id (Scope.ofOwner owner) "note" (.obj [])
    ⟨"test", .toolOutput⟩).columns

def leftoverHistory : History where
  events := [⟨noteUnder "old" "e1", 1⟩, ⟨noteUnder "new" "e2", 2⟩]
  lastSeq := 2
  partitions owner := if owner = "old" then some .module else none
  ids := by decide
  seqs := by decide
  bounded := by decide

def leftoverDb : PartitionDb where
  log := leftoverHistory.migrated
  checkpoints := []
  catalogue := [⟨"old", "v1", "org_1", "os:sin90", "alice", "sin90", "2026-01-01T00:00:00Z", none, .module⟩]
  holdings _ _ := 0
  valid := by
    refine ⟨leftoverHistory.migrated_sound, nodup_nil, by decide, fun owner => ?_⟩
    by_cases here : owner = "old"
    · simp [History.migrated, leftoverHistory, here]
    · simp [History.migrated, leftoverHistory, here, Ne.symm here]

/-- The note under the new key ends up in the partition that moves there. -/
theorem rekey_merges_leftovers :
    ¬ Settles (.ofDigests []) ⟨"old", "new", "v2"⟩ leftoverDb.toPartitionTables := by
  intro settles
  have movable : Movable ⟨"old", "new", "v2"⟩ leftoverDb.toPartitionTables :=
    ⟨by decide, fun _ _ => rfl, by decide, .inr (by decide), .inr (by decide), by decide, by decide, by decide⟩
  have clear := clear_of_settles leftoverDb.valid settles movable
  exact absurd clear.1 (by decide)

end Agent24.Memory
