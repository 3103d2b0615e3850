import Agent24.Platform
import Agent24.Library.HashChain
import Agent24.Library.Runs
import Agent24.Library.Table
import Mathlib.Data.List.Sort

/-! The hash-chained audit log: appends, the check of the chain, and what the check detects. -/

set_option autoImplicit false
namespace Agent24.Audit
open Library List

structure AuditRow where
  seq : Nat
  ts : String
  actor : String
  action : String
  detail : String
  prevHash : String
  hash : String
  deriving DecidableEq

structure AuditDb where
  auditLog : Table AuditRow.seq
  /-- The row of `sqlite_sequence` for the table, once it has one. -/
  highWater : Option Nat

def AuditDb.empty : AuditDb := ⟨.empty, none⟩

inductive StoreError where
  | conflict (message : String)
  /-- The `AUTOINCREMENT` key has run out. -/
  | full
  deriving DecidableEq

structure CorruptRow where
  table : String
  field : String
  deriving DecidableEq

def CorruptRow.text (error : CorruptRow) : String :=
  "corrupt " ++ error.table ++ " row: invalid " ++ error.field

def corrupt (field : String) : CorruptRow := ⟨"audit_log", field⟩

def genesis : String := "genesis"

def seqMax : Nat := 2 ^ 63 - 1

def joined (ts actor action detail : String) : String :=
  ts ++ "|" ++ actor ++ "|" ++ action ++ "|" ++ detail

def hashed (prevHash body : String) : String := prevHash ++ "|" ++ body

def entryHash (P : Platform) (prevHash ts actor action detail : String) : String :=
  P.checksum (hashed prevHash (joined ts actor action detail))

namespace AuditDb

/-- `ORDER BY seq ASC`. -/
def ordered (db : AuditDb) : List AuditRow := db.auditLog.rows.insertionSort fun a b => a.seq ≤ b.seq

/-- `ORDER BY seq DESC LIMIT 1`. -/
def newest (db : AuditDb) : Option AuditRow := db.ordered.getLast?

end AuditDb

variable (P : Platform)

/-- The loop of `strict_audit_chain_tx`. -/
def checkRows : Nat → String → List AuditRow → Except CorruptRow Unit
  | _, _, [] => .ok ()
  | expected, previous, row :: rest =>
    if row.seq ≠ expected ∨ row.prevHash ≠ previous ∨
        entryHash P row.prevHash row.ts row.actor row.action row.detail ≠ row.hash then
      .error (corrupt "chain")
    else checkRows (expected + 1) row.hash rest

section
variable (db : AuditDb)

def strictAuditChain : Except CorruptRow Unit := checkRows P 1 genesis db.ordered

/-- `tail_tx`. -/
def strictAuditTail : Except CorruptRow (Option AuditRow × Option Nat) := do
  strictAuditChain P db
  let tuple := db.newest
  if tuple.map AuditRow.seq ≠ db.highWater then .error (corrupt "tail")
  else .ok (tuple, db.highWater)

def verifyAuditChain : Except StoreError Unit :=
  match strictAuditTail P db with
  | .ok _ => .ok ()
  | .error error => .error (.conflict ("audit chain rejected: " ++ error.text))

def appendAudit (ts actor action : String) (detail : Json) : Except StoreError (AuditDb × AuditRow) :=
  let detail := detail.render
  let prevHash := (db.newest.map AuditRow.hash).getD genesis
  let hash := entryHash P prevHash ts actor action detail
  let last := max (db.highWater.getD 0) ((db.newest.map AuditRow.seq).getD 0)
  if last < seqMax then
    let row : AuditRow := ⟨last + 1, ts, actor, action, detail, prevHash, hash⟩
    .ok ({ auditLog := db.auditLog.put row, highWater := some row.seq }, row)
  else .error .full

structure Append where
  ts : String
  actor : String
  action : String
  detail : Json

def step (call : Append) : AuditDb :=
  match appendAudit P db call.ts call.actor call.action call.detail with
  | .ok (db, _) => db
  | .error _ => db

end

section Chains
open HashChain
variable {P}

def AuditRow.link (row : AuditRow) : Link String String :=
  ⟨row.prevHash, joined row.ts row.actor row.action row.detail, row.hash⟩

def digest (P : Platform) (prevHash body : String) : String := P.checksum (hashed prevHash body)

def Numbered : Nat → List AuditRow → Prop
  | _, [] => True
  | expected, row :: rest => row.seq = expected ∧ Numbered (expected + 1) rest

variable {expected : Nat} {rows : List AuditRow} {db : AuditDb}

theorem checkRows_eq_ok {previous : String} :
    checkRows P expected previous rows = .ok () ↔
      Numbered expected rows ∧ Chained (digest P) previous (rows.map AuditRow.link) := by
  induction rows generalizing expected previous with
  | nil => simp [checkRows, Numbered, Chained]
  | cons row rest ih =>
    simp only [checkRows, Numbered, map_cons, Chained]
    split
    · rename_i differs
      refine iff_of_false (fun same => by cases same) ?_
      rintro ⟨⟨number, -⟩, linked, same, -⟩
      rcases differs with other | other | other
      · exact other number
      · exact other linked
      · exact other same
    · rename_i agrees
      simp only [not_or, not_not] at agrees
      obtain ⟨number, linked, same⟩ := agrees
      rw [ih]
      constructor
      · rintro ⟨numbered, chained⟩
        exact ⟨⟨number, numbered⟩, linked, same, chained⟩
      · rintro ⟨⟨-, numbered⟩, -, -, chained⟩
        exact ⟨numbered, chained⟩

theorem Numbered.append_singleton {row : AuditRow} (numbered : Numbered expected rows)
    (next : row.seq = expected + rows.length) :
    Numbered expected (rows ++ [row]) := by
  induction rows generalizing expected with
  | nil => exact ⟨next, trivial⟩
  | cons first rest ih =>
    refine ⟨numbered.1, ih numbered.2 ?_⟩
    rw [length_cons] at next
    omega

theorem Numbered.bounds (numbered : Numbered expected rows) :
    ∀ row ∈ rows, expected ≤ row.seq ∧ row.seq < expected + rows.length := by
  induction rows generalizing expected with
  | nil => exact forall_mem_nil _
  | cons first rest ih =>
    obtain ⟨first, numbered⟩ := numbered
    refine forall_mem_cons.mpr ⟨?_, fun row member => ?_⟩
    · rw [length_cons]
      omega
    · have bounds := ih numbered row member
      rw [length_cons]
      omega

theorem Numbered.last (numbered : Numbered expected rows) :
    ∀ row, rows.getLast? = some row → row.seq + 1 = expected + rows.length := by
  induction rows generalizing expected with
  | nil => nofun
  | cons first rest ih =>
    intro row here
    obtain ⟨number, numbered⟩ := numbered
    cases rest with
    | nil =>
      cases here
      simp [number]
    | cons next rest =>
      have last := ih numbered row here
      simp only [length_cons] at last ⊢
      omega

theorem Numbered.ascending (numbered : Numbered expected rows) :
    rows.Pairwise fun a b => a.seq ≤ b.seq := by
  induction rows generalizing expected with
  | nil => exact .nil
  | cons first rest ih =>
    obtain ⟨number, numbered⟩ := numbered
    refine pairwise_cons.mpr ⟨fun row member => ?_, ih numbered⟩
    have bounds := numbered.bounds row member
    omega

theorem verify_eq_ok :
    verifyAuditChain P db = .ok () ↔
      Numbered 1 db.ordered ∧ Chained (digest P) genesis (db.ordered.map AuditRow.link) ∧
        db.newest.map AuditRow.seq = db.highWater := by
  unfold verifyAuditChain strictAuditTail
  rw [← and_assoc, ← checkRows_eq_ok, ← strictAuditChain]
  cases strictAuditChain P db with
  | error e => exact iff_of_false nofun fun both => nomatch both.1
  | ok checked =>
    simp only [bind, Except.bind]
    split
    · rename_i result made
      split at made
      · cases made
      · rename_i same
        exact iff_of_true rfl ⟨trivial, not_not.mp same⟩
    · rename_i error made
      split at made
      · rename_i differs
        exact iff_of_false nofun fun both => differs both.2
      · cases made

theorem tip_link (rows : List AuditRow) :
    tip genesis (rows.map AuditRow.link) = (rows.getLast?.map AuditRow.hash).getD genesis := by
  rw [tip, List.getLast?_map, Option.map_map]
  rfl

structure Sound (P : Platform) (db : AuditDb) : Prop where
  numbered : Numbered 1 db.auditLog.rows
  chained : Chained (digest P) genesis (db.auditLog.rows.map AuditRow.link)
  marked : db.auditLog.rows.getLast?.map AuditRow.seq = db.highWater

theorem Sound.ordered (sound : Sound P db) : db.ordered = db.auditLog.rows :=
  sound.numbered.ascending.insertionSort_eq

theorem Sound.newest (sound : Sound P db) : db.newest = db.auditLog.rows.getLast? :=
  congrArg List.getLast? sound.ordered

theorem Sound.verify (sound : Sound P db) : verifyAuditChain P db = .ok () := by
  rw [verify_eq_ok, sound.ordered, sound.newest]
  exact ⟨sound.numbered, sound.chained, sound.marked⟩

theorem Sound.last (sound : Sound P db) :
    max (db.highWater.getD 0) ((db.newest.map AuditRow.seq).getD 0) = db.auditLog.rows.length := by
  rw [← sound.marked, sound.newest, max_self]
  cases last : db.auditLog.rows.getLast? with
  | none => simp [List.getLast?_eq_none_iff.mp last]
  | some row =>
    have number := sound.numbered.last row last
    simp
    omega

theorem Sound.append (sound : Sound P db) (call : Append) : Sound P (step P db call) := by
  unfold step appendAudit
  dsimp only
  rw [sound.last, sound.newest]
  split
  · rename_i db' row made
    split at made
    swap
    · cases made
    cases made
    have fresh : db.auditLog.rows.filter (fun b => decide (b.seq ≠ db.auditLog.rows.length + 1)) =
        db.auditLog.rows := by
      refine filter_eq_self.mpr fun b member => decide_eq_true ?_
      have bounds := sound.numbered.bounds b member
      omega
    refine ⟨?_, ?_, ?_⟩
    · simp only [Table.put, fresh]
      exact sound.numbered.append_singleton (Nat.add_comm ..)
    · simp only [Table.put, fresh, map_append, map_cons, map_nil]
      rw [chained_append_singleton, tip_link]
      exact ⟨sound.chained, rfl, rfl⟩
    · simp [Table.put]
  · exact sound

theorem sound_run (calls : List Append) : Sound P (run (step P) calls .empty) :=
  run_invariant (step P) (fun _ => True) (Sound P) (fun _ call _ sound => sound.append call)
    (fun _ _ => trivial) ⟨trivial, trivial, rfl⟩

end Chains

section Tampering
open HashChain
variable {P}

/-- A table made from another one by whoever cannot set the hash of its newest row: some rows are gone,
the others have any texts and any numbers. -/
structure Tampered (db db' : AuditDb) : Prop where
  highWater : db'.highWater = db.highWater
  rows : ∃ kept : List (AuditRow × AuditRow), (kept.map Prod.fst).Sublist db.ordered ∧
    (kept.map Prod.snd).Perm db'.auditLog.rows ∧
      ∀ pair ∈ kept, db.newest = some pair.1 → pair.2.hash = pair.1.hash

def digested (db : AuditDb) : List String :=
  db.auditLog.rows.map fun row => hashed row.prevHash (joined row.ts row.actor row.action row.detail)

def CollisionFree (P : Platform) (texts : List String) : Prop :=
  ∀ a ∈ texts, ∀ b ∈ texts, P.sha256 a = P.sha256 b → a = b

/-- The number, the hashes and the joined texts of a row: all of it but where each text ends. -/
def AuditRow.outline (row : AuditRow) : Nat × Link String String := (row.seq, row.link)

def Clean (text : String) : Prop := '|' ∉ text.toList

theorem clean_genesis : Clean genesis := by
  unfold Clean genesis
  decide

theorem clean_digest (p b : String) : Clean (digest P p b) := P.not_mem_checksum (by decide) _

theorem digest_ne_genesis (p b : String) : digest P p b ≠ genesis := by
  intro same
  have long := P.checksum_length (hashed p b)
  rw [show P.checksum (hashed p b) = genesis from same] at long
  exact absurd long (by decide)

theorem hashed_injective {p p' b b' : String} (clean : Clean p) (clean' : Clean p')
    (same : hashed p b = hashed p' b') : p = p' ∧ b = b' := by
  have chars : p.toList ++ '|' :: b.toList = p'.toList ++ '|' :: b'.toList := by
    simpa [hashed] using congrArg String.toList same
  obtain ⟨front, rest⟩ := Text.append_cons_inj_first clean clean' chars
  exact ⟨String.toList_inj.mp front, String.toList_inj.mp rest⟩

theorem mem_digested_of_ordered {db : AuditDb} {link : Link String String}
    (member : link ∈ db.ordered.map AuditRow.link) : hashed link.prev link.body ∈ digested db := by
  obtain ⟨row, listed, rfl⟩ := mem_map.mp member
  exact mem_map.mpr ⟨row, (mem_insertionSort _).mp listed, rfl⟩

theorem digest_injective {db db' : AuditDb}
    (chained : Chained (digest P) genesis (db.ordered.map AuditRow.link))
    (chained' : Chained (digest P) genesis (db'.ordered.map AuditRow.link))
    (free : CollisionFree P (digested db ++ digested db')) :
    ∀ a ∈ db.ordered.map AuditRow.link, ∀ b ∈ db'.ordered.map AuditRow.link,
      digest P a.prev a.body = digest P b.prev b.body → a.prev = b.prev ∧ a.body = b.body := by
  intro a member b member' same
  have clean := prev_of_chained (digest P) chained clean_genesis clean_digest a member
  have clean' := prev_of_chained (digest P) chained' clean_genesis clean_digest b member'
  exact hashed_injective clean clean' (free _ (mem_append_left _ (mem_digested_of_ordered member)) _
    (mem_append_right _ (mem_digested_of_ordered member')) (P.checksum_injective same))

theorem outline_of_link {expected : Nat} {rows rows' : List AuditRow} (numbered : Numbered expected rows)
    (numbered' : Numbered expected rows') (same : rows'.map AuditRow.link = rows.map AuditRow.link) :
    rows'.map AuditRow.outline = rows.map AuditRow.outline := by
  induction rows generalizing expected rows' with
  | nil =>
    rw [map_nil, map_eq_nil_iff] at same
    rw [same]
  | cons row rest ih =>
    cases rows' with
    | nil => cases same
    | cons row' rest' =>
      obtain ⟨first, others⟩ := List.cons.inj same
      rw [map_cons, map_cons, ih numbered.2 numbered'.2 others, AuditRow.outline, AuditRow.outline,
        first, numbered.1, numbered'.1]

theorem Numbered.of_seq {expected : Nat} {rows rows' : List AuditRow} (numbered : Numbered expected rows)
    (same : rows'.map AuditRow.seq = rows.map AuditRow.seq) : Numbered expected rows' := by
  induction rows generalizing expected rows' with
  | nil =>
    rw [map_nil, map_eq_nil_iff] at same
    rw [same]
    trivial
  | cons row rest ih =>
    cases rows' with
    | nil => cases same
    | cons row' rest' =>
      obtain ⟨first, others⟩ := List.cons.inj same
      exact ⟨first.trans numbered.1, ih numbered.2 others⟩

theorem Tampered.newest_kept {db db' : AuditDb} (tampered : Tampered db db')
    (all : db.ordered.length = db'.ordered.length) {row : AuditRow} (newest : db.newest = some row) :
    ∃ row' ∈ db'.ordered, row'.hash = row.hash := by
  obtain ⟨kept, some_, listed, hashes⟩ := tampered.rows
  have whole : kept.map Prod.fst = db.ordered := by
    refine some_.eq_of_length ?_
    rw [all, AuditDb.ordered, length_insertionSort, ← listed.length_eq, length_map, length_map]
  have member : row ∈ kept.map Prod.fst := whole ▸ mem_of_getLast? newest
  obtain ⟨⟨old, row'⟩, pair, rfl⟩ := mem_map.mp member
  refine ⟨row', (mem_insertionSort _).mpr (listed.mem_iff.mp ?_), hashes _ pair newest⟩
  exact mem_map_of_mem pair

theorem verify_tampered {db db' : AuditDb} (sound : Sound P db) (tampered : Tampered db db')
    (free : CollisionFree P (digested db ++ digested db')) :
    verifyAuditChain P db' = .ok () ↔ db'.ordered.map AuditRow.outline = db.ordered.map AuditRow.outline := by
  obtain ⟨numbered, chained, marked⟩ := verify_eq_ok.mp sound.verify
  rw [verify_eq_ok]
  constructor
  · rintro ⟨numbered', chained', marked'⟩
    rw [tampered.highWater, ← marked] at marked'
    refine outline_of_link numbered numbered' ?_
    cases newest : db.newest with
    | none =>
      rw [newest] at marked'
      have none' : db'.newest = none := Option.map_eq_none_iff.mp marked'
      rw [List.getLast?_eq_none_iff.mp newest, List.getLast?_eq_none_iff.mp none']
    | some row =>
      rw [newest] at marked'
      obtain ⟨row', newest', sameSeq⟩ := Option.map_eq_some_iff.mp marked'
      have count := numbered.last row newest
      have count' := numbered'.last row' newest'
      obtain ⟨copy, member, sameHash⟩ := tampered.newest_kept (by omega) newest
      obtain ⟨front, back, split⟩ := append_of_mem member
      have upTo : db'.ordered = (front ++ [copy]) ++ back := by
        rw [split, append_assoc]
        rfl
      have injective := digest_injective chained' chained fun a listed b listed' => free a
        (mem_append.mpr (mem_append.mp listed).symm) b
        (mem_append.mpr (mem_append.mp listed').symm)
      rw [upTo, map_append] at chained' injective
      -- the chain up to the row that holds the newest hash is the whole chain
      have links : (front ++ [copy]).map AuditRow.link = db.ordered.map AuditRow.link := by
        refine chain_determined (digest P) chained'.of_append chained digest_ne_genesis
          (fun a member => injective a (mem_append_left _ member)) ?_
        rw [tip_link, tip_link, List.getLast?_append, show db.ordered.getLast? = some row from newest]
        exact sameHash
      have sizes := congrArg List.length links
      have whole := congrArg List.length upTo
      rw [length_map, length_map] at sizes
      rw [length_append] at whole
      have nothing : back = [] := length_eq_zero_iff.mp (by omega)
      rw [upTo, nothing, append_nil, links]
  · intro same
    have seqs : db'.ordered.map AuditRow.seq = db.ordered.map AuditRow.seq := by
      have firsts := congrArg (List.map Prod.fst) same
      rw [map_map, map_map] at firsts
      exact firsts
    have links : db'.ordered.map AuditRow.link = db.ordered.map AuditRow.link := by
      have seconds := congrArg (List.map Prod.snd) same
      rw [map_map, map_map] at seconds
      exact seconds
    refine ⟨numbered.of_seq seqs, links ▸ chained, ?_⟩
    rw [tampered.highWater, ← marked, AuditDb.newest, AuditDb.newest, ← List.getLast?_map, seqs,
      List.getLast?_map]

/-- Every table that appends make is accepted; one made from it by deleting, reordering or editing rows is rejected
exactly if some outline differs. -/
theorem tamper_evident_outlines (P : Platform) (calls : List Append) :
    verifyAuditChain P (run (step P) calls .empty) = .ok () ∧
    ∀ db', Tampered (run (step P) calls .empty) db' →
      CollisionFree P (digested (run (step P) calls .empty) ++ digested db') →
      ((∃ error, verifyAuditChain P db' = .error error) ↔
        db'.ordered.map AuditRow.outline ≠ (run (step P) calls .empty).ordered.map AuditRow.outline) := by
  have sound := sound_run (P := P) calls
  refine ⟨sound.verify, fun db' tampered free => ?_⟩
  rw [ne_eq, ← verify_tampered sound tampered free]
  cases verifyAuditChain P db' with
  | ok checked => simp
  | error e => simp

def sampleRow : AuditRow where
  seq := 1
  ts := "2026-07-24T12:00:00.000Z"
  actor := "module:docs"
  action := "read|write"
  detail := "null"
  prevHash := genesis
  hash := "828e9d9e57b5bbfcb46f2d0da7a4042802e70cae2ca81873170812c1a2a5db91"

def movedRow : AuditRow := { sampleRow with actor := "module:docs|read", action := "write" }

def tableOf (row : AuditRow) : AuditDb := ⟨⟨[row], nodup_singleton _⟩, some row.seq⟩

def samplePlatform : Platform := .ofDigests
  [("genesis|2026-07-24T12:00:00.000Z|module:docs|read|write|null",
    0x828e9d9e57b5bbfcb46f2d0da7a4042802e70cae2ca81873170812c1a2a5db91)]

def sampleAppend : Append := ⟨"2026-07-24T12:00:00.000Z", "module:docs", "read|write", .null⟩

theorem run_sampleAppend : run (step samplePlatform) [sampleAppend] .empty = tableOf sampleRow := by
  have rows : (run (step samplePlatform) [sampleAppend] .empty).auditLog.rows = [sampleRow] := by decide +kernel
  have mark : (run (step samplePlatform) [sampleAppend] .empty).highWater = some 1 := by decide +kernel
  generalize run (step samplePlatform) [sampleAppend] .empty = db at rows mark ⊢
  obtain ⟨⟨listed, distinct⟩, highWater⟩ := db
  cases rows
  cases mark
  rfl

/-- A separator moves from one text to the next, and the check accepts. -/
theorem moved_separator_accepted :
    ¬ ∀ (P : Platform) (calls : List Append) (db' : AuditDb), Tampered (run (step P) calls .empty) db' →
      db'.ordered ≠ (run (step P) calls .empty).ordered →
      CollisionFree P (digested (run (step P) calls .empty) ++ digested db') →
      ∃ error, verifyAuditChain P db' = .error error := by
  intro detects
  have rejected := detects samplePlatform [sampleAppend] (tableOf movedRow)
  rw [run_sampleAppend] at rejected
  have texts : digested (tableOf sampleRow) ++ digested (tableOf movedRow) =
      List.replicate 2 "genesis|2026-07-24T12:00:00.000Z|module:docs|read|write|null" := by decide +kernel
  obtain ⟨error, rejects⟩ := rejected
    ⟨rfl, [(sampleRow, movedRow)], .refl _, .refl _, by simp [movedRow]⟩ (by decide +kernel) (by
      intro a member b member' _
      rw [texts] at member member'
      rw [eq_of_mem_replicate member, eq_of_mem_replicate member'])
  have accepts : verifyAuditChain samplePlatform (tableOf movedRow) = .ok () := by decide +kernel
  cases rejects

end Tampering

end Agent24.Audit
