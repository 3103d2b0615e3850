import Agent24.Documents.Tools
import Agent24.Library.Outcome

/-! What a read answers depends on the documents of its scope alone. -/

set_option autoImplicit false
namespace Agent24.Documents
open Library

def LayerOf (m : Module) (store : Store) (r : RevisionRow) (address : String) : Prop :=
  (∃ l ∈ store.layers.rows, l.contentSha256 = r.contentSha256 ∧ l.textLayerSha256 = address) ∨
    ∃ kind cursor query at_,
      m.reader.cursor kind ⟨r.documentId, r.revision, r.contentSha256, r.mediaType⟩ cursor query = some (address, at_)

structure Agree (m : Module) (scope : Scope) (store store' : Store) : Prop where
  documents : ∀ d : DocumentRow, d.id ∈ scope.documents → (d ∈ store.documents.rows ↔ d ∈ store'.documents.rows)
  revisions : ∀ r : RevisionRow, r.documentId ∈ scope.documents →
    (r ∈ store.revisions.rows ↔ r ∈ store'.revisions.rows)
  jobs : ∀ (j : JobRow) (id : String), j.documentId = some id → id ∈ scope.documents →
    (j ∈ store.jobs.rows ↔ j ∈ store'.jobs.rows)
  extractions : ∀ e : ExtractionRow, e.documentId ∈ scope.documents →
    (e ∈ store.extractions.rows ↔ e ∈ store'.extractions.rows)
  values : ∀ e ∈ store.extractions.rows, e.documentId ∈ scope.documents → ∀ v : ValueRow, v.extractionId = e.id →
    (v ∈ store.values.rows ↔ v ∈ store'.values.rows)
  layers : ∀ r ∈ store.revisions.rows, r.documentId ∈ scope.documents → ∀ l : LayerRow,
    l.contentSha256 = r.contentSha256 → (l ∈ store.layers.rows ↔ l ∈ store'.layers.rows)
  blobs : ∀ r ∈ store.revisions.rows, r.documentId ∈ scope.documents → ∀ address, LayerOf m store r address →
    store.blob address = store'.blob address

def NoBuild (m : Module) (scope : Scope) (store : Store) : Prop :=
  ∀ r ∈ store.revisions.rows, r.documentId ∈ scope.documents → r.mediaType ∈ FORMATS → ∀ e ∈ m.engine,
    (store.layers.find (r.contentSha256, e.id, e.version, e.configSha256)).isSome

theorem valuesFrom_distinct (store : Store) (id : String) (place : Nat) :
    ((store.values.rows.filter fun v => v.extractionId == id && decide (place ≤ v.ord)).map ValueRow.ord).Nodup := by
  have slots := store.values.distinct.sublist
    ((List.filter_sublist (p := fun v => v.extractionId == id && decide (place ≤ v.ord))).map ValueRow.slot)
  have same : (store.values.rows.filter fun v => v.extractionId == id && decide (place ≤ v.ord)).map ValueRow.slot =
      ((store.values.rows.filter fun v => v.extractionId == id && decide (place ≤ v.ord)).map ValueRow.ord).map
        fun ord => (id, ord) := by
    rw [List.map_map]
    refine List.map_congr_left fun v member => ?_
    have chosen := (List.mem_filter.mp member).2
    rw [Bool.and_eq_true, beq_iff_eq] at chosen
    rw [Function.comp, ValueRow.slot, chosen.1]
  rw [same] at slots
  exact slots.of_map

section
variable {m : Module} {scope : Scope} {store store' : Store} (agree : Agree m scope store store')

theorem Scope.allows_iff {id : String} : scope.allowsDocument id = true ↔ id ∈ scope.documents :=
    List.contains_iff_mem

include agree

theorem Agree.symm : Agree m scope store' store where
  documents d inside := (agree.documents d inside).symm
  revisions r inside := (agree.revisions r inside).symm
  jobs j id owner inside := (agree.jobs j id owner inside).symm
  extractions e inside := (agree.extractions e inside).symm
  values e listed inside v of_ := (agree.values e ((agree.extractions e inside).mpr listed) inside v of_).symm
  layers r listed inside l of_ := (agree.layers r ((agree.revisions r inside).mpr listed) inside l of_).symm
  blobs r listed inside address layer := by
    have listed := (agree.revisions r inside).mpr listed
    refine (agree.blobs r listed inside address ?_).symm
    rcases layer with ⟨l, pinned, content, at_⟩ | named
    · exact .inl ⟨l, (agree.layers r listed inside l content).mpr pinned, content, at_⟩
    · exact .inr named

theorem Agree.findDocument {id : String} (inside : id ∈ scope.documents) :
    store.documents.find id = store'.documents.find id :=
  Table.find_congr fun d same => agree.documents d (same ▸ inside)

theorem Agree.findRevision {id : String} {rev : Int} (inside : id ∈ scope.documents) :
    store.revisions.find (id, rev) = store'.revisions.find (id, rev) :=
  Table.find_congr fun r same => by
    have owner : r.documentId = id := congrArg Prod.fst same
    exact agree.revisions r (owner ▸ inside)

theorem Agree.findJob {jobId id : String} {row : JobRow} (inside : id ∈ scope.documents)
    (owner : row.documentId = some id) :
    store.jobs.find jobId = some row ↔ store'.jobs.find jobId = some row := by
  rw [Table.find_eq_some, Table.find_eq_some, agree.jobs row id owner inside]

theorem Agree.findExtraction {extId : String} {row : ExtractionRow} (inside : row.documentId ∈ scope.documents) :
    store.extractions.find extId = some row ↔ store'.extractions.find extId = some row := by
  rw [Table.find_eq_some, Table.find_eq_some, agree.extractions row inside]

theorem Agree.getDocument {id : String} (inside : isId .document id = true → id ∈ scope.documents) :
    getDocument store id = getDocument store' id := by
  unfold Documents.getDocument
  cases minted : isId .document id with
  | false => rfl
  | true =>
    rw [agree.findDocument (inside minted)]
    cases found : store'.documents.find id with
    | none => rfl
    | some d =>
      dsimp only
      rw [agree.findRevision (Table.find_key found ▸ inside minted)]

theorem Agree.revisionOf {id : String} {rev : Int} (inside : isId .document id = true → id ∈ scope.documents) :
    revisionOf store id rev = revisionOf store' id rev := by
  unfold Documents.revisionOf
  cases minted : isId .document id with
  | false => rfl
  | true => rw [agree.findRevision (inside minted)]

omit agree in
theorem revisionOf_ok {id : String} {rev : Int} {r : Revision} (ok : revisionOf store id rev = .ok r) :
    isId .document id = true ∧ ∃ row ∈ store.revisions.rows, row.documentId = id ∧
      r = ⟨row.documentId, row.revision, row.contentSha256, row.mediaType⟩ := by
  unfold revisionOf at ok
  split at ok
  · cases ok
  rename_i good
  rw [Bool.or_eq_true, not_or, Bool.not_eq_true', Bool.not_eq_false] at good
  split at ok
  · rename_i row found
    cases ok
    obtain ⟨member, key⟩ := Table.find_eq_some.mp found
    obtain ⟨rfl, rfl⟩ := Prod.mk.inj key
    exact ⟨good.1, row, member, rfl, rfl⟩
  · cases ok

section
variable {r : Revision} {row : RevisionRow} (member : row ∈ store.revisions.rows)
  (inside : row.documentId ∈ scope.documents)
  (same : r = ⟨row.documentId, row.revision, row.contentSha256, row.mediaType⟩)
include member inside

theorem Agree.loadLayer {address : String} (layer : LayerOf m store row address) :
    loadLayer m.reader store address = loadLayer m.reader store' address := by
  unfold Documents.loadLayer
  rw [agree.blobs row member inside address layer]

include same

theorem Agree.cursorLayer {kind cursor query address : String} {at_ : Position}
    (names : m.reader.cursor kind r cursor query = some (address, at_)) :
    cursorLayer m.reader store r address = cursorLayer m.reader store' r address := by
  unfold Documents.cursorLayer
  rw [agree.loadLayer member inside (.inr ⟨kind, cursor, query, at_, same ▸ names⟩)]

theorem Agree.currentLayer (noBuild : NoBuild m scope store) :
    currentLayer m.reader m.engine store r = currentLayer m.reader m.engine store' r := by
  unfold Documents.currentLayer
  cases format : FORMATS.contains r.mediaType with
  | false => rfl
  | true =>
    cases engine : m.engine with
    | none => rfl
    | some e =>
      have readable : row.mediaType ∈ FORMATS := by
        rw [same] at format
        exact List.contains_iff_mem.mp format
      obtain ⟨l, pinned⟩ := Option.isSome_iff_exists.mp (noBuild row member inside readable e engine)
      obtain ⟨listed, key⟩ := Table.find_eq_some.mp pinned
      have content : l.contentSha256 = row.contentSha256 := congrArg Prod.fst key
      have pinned' : store'.layers.find (row.contentSha256, e.id, e.version, e.configSha256) = some l :=
        Table.find_eq_some.mpr ⟨(agree.layers row member inside l content).mp listed, key⟩
      have address (store₀ : Store) (found : store₀.layers.find (row.contentSha256, e.id, e.version,
          e.configSha256) = some l) :
          layerAddress (some e) store₀ r = .ok l.textLayerSha256 := by
        unfold layerAddress
        dsimp only
        rw [same, found]
      have loaded : Documents.loadLayer m.reader store l.textLayerSha256 =
          Documents.loadLayer m.reader store' l.textLayerSha256 :=
        agree.loadLayer member inside (.inl ⟨l, listed, content, rfl⟩)
      rw [address store pinned, address store' pinned', ok_bind, ok_bind, loaded]

end

theorem Agree.readRange (noBuild : NoBuild m scope store) {id : String} {rev : Int} {p : TextParams} {budget : Nat}
    (inside : isId .document id = true → id ∈ scope.documents) :
    readRange m.reader m.engine store id rev p budget = readRange m.reader m.engine store' id rev p budget := by
  unfold Documents.readRange
  rw [← agree.revisionOf inside]
  cases read : Documents.revisionOf store id rev with
  | error e => rfl
  | ok r =>
    obtain ⟨minted, row, member, rfl, same⟩ := revisionOf_ok read
    have current := agree.currentLayer member (inside minted) same noBuild
    cases given : p.cursor with
    | none => simp only [ok_bind, current]
    | some c =>
      cases names : m.reader.cursor "t" r c "" with
      | none => simp only [ok_bind, names]
      | some place =>
        obtain ⟨address, at_⟩ := place
        have layer := agree.cursorLayer member (inside minted) same names
        simp only [ok_bind, names, layer]

theorem Agree.search (noBuild : NoBuild m scope store) {id : String} {req : FindRequest} {budget : Nat}
    (inside : isId .document id = true → id ∈ scope.documents) :
    search m.reader m.engine store id req budget = search m.reader m.engine store' id req budget := by
  unfold Documents.search
  rw [← agree.revisionOf inside]
  cases read : Documents.revisionOf store id req.revision with
  | error e => rfl
  | ok r =>
    obtain ⟨minted, row, member, rfl, same⟩ := revisionOf_ok read
    have current := agree.currentLayer member (inside minted) same noBuild
    cases given : req.cursor with
    | none => simp only [ok_bind, current]
    | some c =>
      cases names : m.reader.cursor "f" r c (m.reader.sha256Address req.query) with
      | none => simp only [ok_bind, names]
      | some place =>
        obtain ⟨address, at_⟩ := place
        have layer := agree.cursorLayer member (inside minted) same names
        simp only [ok_bind, names, layer]

theorem Agree.jobOwner (jobId : String) :
    (jobDocument store jobId).any scope.allowsDocument = (jobDocument store' jobId).any scope.allowsDocument := by
  have forth {s s' : Store} (agree : Agree m scope s s')
      (owned : (jobDocument s jobId).any scope.allowsDocument = true) :
      (jobDocument s' jobId).any scope.allowsDocument = true := by
    obtain ⟨id, owner, allowed⟩ := (Option.any_eq_true _ _).mp owned
    obtain ⟨row, found, owner⟩ := Option.bind_eq_some_iff.mp owner
    have found' := (agree.findJob (Scope.allows_iff.mp allowed) owner).mp found
    rw [jobDocument, found', Option.bind_some, owner]
    exact allowed
  exact Bool.eq_iff_iff.mpr ⟨forth agree, forth agree.symm⟩

theorem Agree.extractionOwner (extId : String) :
    (extractionDocument store extId).any scope.allowsDocument =
      (extractionDocument store' extId).any scope.allowsDocument := by
  have forth {s s' : Store} (agree : Agree m scope s s')
      (owned : (extractionDocument s extId).any scope.allowsDocument = true) :
      (extractionDocument s' extId).any scope.allowsDocument = true := by
    obtain ⟨id, owner, allowed⟩ := (Option.any_eq_true _ _).mp owned
    obtain ⟨row, found, rfl⟩ := Option.map_eq_some_iff.mp owner
    have found' := (agree.findExtraction (Scope.allows_iff.mp allowed)).mp found
    rw [extractionDocument, found', Option.map_some]
    exact allowed
  exact Bool.eq_iff_iff.mpr ⟨forth agree, forth agree.symm⟩

theorem Agree.getJob {id : String}
    (inside : isId .job id = true → (jobDocument store id).any scope.allowsDocument = true) :
    getJob m.reader store id = getJob m.reader store' id := by
  unfold Documents.getJob
  cases minted : isId .job id with
  | false => rfl
  | true =>
    obtain ⟨doc, owner, allowed⟩ := (Option.any_eq_true _ _).mp (inside minted)
    obtain ⟨row, found, owner⟩ := Option.bind_eq_some_iff.mp owner
    rw [found, (agree.findJob (Scope.allows_iff.mp allowed) owner).mp found]

theorem Agree.getExtraction {id : String} {cursor : Option String} {limit budget : Nat}
    (inside : isId .extraction id = true → (extractionDocument store id).any scope.allowsDocument = true) :
    Extractions.get m.reader store id cursor limit budget = Extractions.get m.reader store' id cursor limit budget := by
  unfold Extractions.get
  cases minted : isId .extraction id with
  | false => simp only [Bool.not_false, Bool.or_true, if_true]
  | true =>
    obtain ⟨doc, owner, allowed⟩ := (Option.any_eq_true _ _).mp (inside minted)
    obtain ⟨row, found, rfl⟩ := Option.map_eq_some_iff.mp owner
    have allowed := Scope.allows_iff.mp allowed
    have values (place : Nat) : Extractions.valuesFrom store id place = Extractions.valuesFrom store' id place := by
      obtain ⟨listed, named⟩ := Table.find_eq_some.mp found
      refine congrArg List.reverse (Keyset.descending_congr (valuesFrom_distinct store id place)
        (valuesFrom_distinct store' id place) fun v => ?_)
      rw [List.mem_filter, List.mem_filter]
      refine and_congr_left fun chosen => ?_
      rw [Bool.and_eq_true, beq_iff_eq] at chosen
      exact agree.values row listed allowed v (chosen.1.trans named.symm)
    simp only [found, (agree.findExtraction allowed).mp found, Option.bind_some, agree.findRevision allowed, values]

theorem Agree.checkScope (op : String) (arguments : Arguments) :
    checkScope store scope op arguments = checkScope store' scope op arguments := by
  unfold Documents.checkScope
  cases resource op with
  | none => rfl
  | some kind =>
    cases kind with
    | document => rfl
    | job => simp only [agree.jobOwner]
    | extraction => simp only [agree.extractionOwner]
    | listing => rfl

omit agree

theorem named_ok {arguments : Arguments} {key id : String} (ok : named arguments key = .ok id) :
    argument arguments key = some (.str id) := by
  unfold named at ok
  split at ok
  · rename_i given
    cases ok
    exact given
  · cases ok

theorem required_named {arguments : Arguments} {key id : String} (ok : named arguments key = .ok id) :
    required arguments Json.asStr? key = .ok id := by
  rw [required, named_ok ok]
  rfl

/-- What the gate lets through: an id that is nobody's, or one whose document is in the scope. -/
inductive Admitted (scope : Scope) (store : Store) (arguments : Arguments) : Resource → Prop
  | document {id} (named : named arguments "document_id" = .ok id)
      (inside : isId .document id = true → id ∈ scope.documents) : Admitted scope store arguments .document
  | job {id} (named : named arguments "job_id" = .ok id)
      (inside : isId .job id = true → (jobDocument store id).any scope.allowsDocument = true) :
      Admitted scope store arguments .job
  | extraction {id} (named : named arguments "extraction_id" = .ok id)
      (inside : isId .extraction id = true → (extractionDocument store id).any scope.allowsDocument = true) :
      Admitted scope store arguments .extraction
  | listing : Admitted scope store arguments .listing

theorem admitted {op : String} {arguments : Arguments} (ok : checkScope store scope op arguments = .ok ()) :
    ∃ kind, resource op = some kind ∧ Admitted scope store arguments kind := by
  have inner {kind : IdKind} {id absent : String} {owner : Option String}
      (ok : (if !isId kind id then (.ok () : Except Envelope Unit) else if owner.any scope.allowsDocument then .ok ()
        else .error (refused (.notFound absent))) = .ok ()) (minted : isId kind id = true) :
      owner.any scope.allowsDocument = true := by
    rw [minted, Bool.not_true, if_neg Bool.false_ne_true] at ok
    split at ok
    · assumption
    · cases ok
  unfold checkScope at ok
  cases touches : resource op with
  | none =>
    rw [touches] at ok
    cases ok
  | some kind =>
    rw [touches] at ok
    refine ⟨kind, rfl, ?_⟩
    cases kind with
    | document =>
      obtain ⟨id, given, ok⟩ := bind_eq_ok.mp ok
      refine .document given fun minted => ?_
      exact Scope.allows_iff.mp ((Option.any_some ..).symm.trans (inner ok minted))
    | job =>
      obtain ⟨id, given, ok⟩ := bind_eq_ok.mp ok
      exact .job given (inner ok)
    | extraction =>
      obtain ⟨id, given, ok⟩ := bind_eq_ok.mp ok
      exact .extraction given (inner ok)
    | listing => exact .listing

include agree

theorem Agree.readOp (noBuild : NoBuild m scope store) {op : String} {arguments : Arguments}
    (ok : Documents.checkScope store scope op arguments = .ok ()) :
    readOp m store scope op arguments = readOp m store' scope op arguments := by
  obtain ⟨kind, touches, passed⟩ := admitted ok
  unfold Documents.readOp
  split
  · have same (cursor : Option String) (limit : Int) :
        listDocuments store (some scope.documents) cursor limit PAYLOAD_BYTES =
          listDocuments store' (some scope.documents) cursor limit PAYLOAD_BYTES :=
      listDocuments_congr agree.documents
    simp only [listOp, same]
  · obtain rfl : Resource.document = kind := Option.some.inj touches
    cases passed with
    | document given inside => simp only [getOp, required_named given, ok_bind, agree.getDocument inside]
  · obtain rfl : Resource.job = kind := Option.some.inj touches
    cases passed with
    | job given inside => simp only [jobGetOp, required_named given, ok_bind, agree.getJob inside]
  · obtain rfl : Resource.document = kind := Option.some.inj touches
    cases passed with
    | document given inside => simp only [readRangeOp, required_named given, ok_bind, agree.readRange noBuild inside]
  · obtain rfl : Resource.document = kind := Option.some.inj touches
    cases passed with
    | document given inside => simp only [findOp, required_named given, ok_bind, agree.search noBuild inside]
  · obtain rfl : Resource.extraction = kind := Option.some.inj touches
    cases passed with
    | extraction given inside =>
      simp only [extractionGetOp, required_named given, ok_bind, agree.getExtraction inside]
  · rfl

end

end Agent24.Documents
