import Agent24.Documents.Paged

/-! Reading a stored layer page by page: following the cursors from the start gives every block, and every match of a
query, once and in document order, as far as no response is refused. -/

set_option autoImplicit false
namespace Agent24.Documents
open Library List

section
variable {κ : Type} [LinearOrder κ] [Zero κ]

def placeNamed (signer : Signer) (kind : String) (r : Revision) (address query : String) : Option String →
    Option Position
  | none => some ⟨1, 0, 0⟩
  | some c => (decodeReadCursor signer kind r c query).bind fun named => if named.1 = address then some named.2 else none

section
variable (m : Process κ) (r : Revision) (address : String) (layer : Agent24.TextLayer.Pinned κ)
  (world : Nat → Option Engine × Store) (limit : Option Nat) (requireComplete : Bool) (budget : Nat)

/-- `GET text`, and `documents.read_range`. -/
def textRead : PagedRead where
  layer := viewOf m.number layer.toLayer
  book := bookOf m.number layer fun b => [textBlockJson m.signer b]
  name := "blocks"
  budget := budget
  place := placeNamed m.signer "t" r address ""
  page p := m.reader.textPage r address (viewOf m.number layer.toLayer) p (limit.getD 50) budget
  call k c := readRange m.reader (world k).1 (world k).2 r.documentId r.revision ⟨none, c, limit,
      requireComplete⟩ budget

/-- `find`, and `documents.find`. -/
def findRead (query : String) : PagedRead where
  layer := viewOf m.number layer.toLayer
  book := bookOf m.number layer fun b =>
    (findRanges query b.text).map (matchAnchor m.signer r address (viewOf m.number layer.toLayer) b)
  name := "matches"
  budget := budget
  place := placeNamed m.signer "f" r address (m.signer.sha256Address query)
  page p := m.reader.findPage r address (viewOf m.number layer.toLayer) query p (limit.getD 50) budget
  call k c := search m.reader (world k).1 (world k).2 r.documentId ⟨r.revision, query, c, limit,
      requireComplete⟩ budget

structure Readable : Prop where
  first : currentLayer m.reader (world 0).1 (world 0).2 r = .ok (address, viewOf m.number layer.toLayer)
  stored : ∀ k, revisionOf (world k).2 r.documentId r.revision = .ok r
  loaded : ∀ k, loadLayer m.reader (world k).2 address = .ok (viewOf m.number layer.toLayer)
  own : layer.contentSha256 = r.contentSha256
  address : isSha256Address address = true
  column : r.revision < 2 ^ 63
  keyed : m.signer.key.isSome = true
  pages : layer.pages < U32_MAX
  blocks : layer.blocks.length ≤ USIZE_MAX

end

variable {m : Process κ} {r : Revision} {address : String} {layer : Agent24.TextLayer.Pinned κ}
  {world : Nat → Option Engine × Store} {limit : Option Nat} {requireComplete : Bool} {budget : Nat}

theorem Readable.issued (source : Readable m r address layer world) {kind query : String}
    (kind_ : PlainWord kind ∧ kind.toList.length = 1)
        (query_ : query.utf8ByteSize ≤ 71) : Issued kind r address query := by
  have stored := source.stored 0
  unfold revisionOf at stored
  split at stored
  · cases stored
  rename_i formed
  rw [Bool.or_eq_true, not_or, Bool.not_eq_true', Bool.not_eq_false, decide_eq_true_eq] at formed
  exact ⟨kind_, formed.1, by omega, source.column, source.address, query_⟩

theorem Readable.placed (source : Readable m r address layer world) {kind query : String} {entries : LayerBlock →
    List Json}
    (issued : Issued kind r address query) (hits : ∀ b ∈ (viewOf m.number layer.toLayer).blocks,
      (entries b).length ≤ USIZE_MAX) {q : Position} (accepts : (bookOf m.number layer entries).Accepts q) :
    placeNamed m.signer kind r address query (some (encodeReadCursor m.signer kind r address q query)) = some q := by
  rw [placeNamed, decode_encodeReadCursor issued
      (accepts_encodable accepts source.pages source.blocks hits) source.keyed,
    Option.bind_some, if_pos rfl]

theorem Readable.cursorLayer (source : Readable m r address layer world) (k : Nat) :
    cursorLayer m.reader (world k).2 r address = .ok (viewOf m.number layer.toLayer) := by
  rw [Documents.cursorLayer, source.loaded]
  exact if_neg (not_not.mpr source.own)

theorem placeNamed_eq_some {signer : Signer} {kind query c : String} {p : Position}
    (placed : placeNamed signer kind r address query (some c) = some p) :
    decodeReadCursor signer kind r c query = some (address, p) := by
  obtain ⟨⟨named, q⟩, decoded, same⟩ := Option.bind_eq_some_iff.mp placed
  by_cases here : named = address
  · rw [if_pos here] at same
    cases same
    rw [decoded, here]
  · rw [if_neg here] at same
    cases same

theorem regions_bounds (number : κ → String) (layer : Agent24.TextLayer.Pinned κ) :
    ∀ region ∈ (viewOf number layer.toLayer).unparsedRegions, 1 ≤ region.1 ∧ region.1 ≤ layer.pages := by
  intro region member
  obtain ⟨stored, listed, rfl⟩ := mem_map.mp member
  exact Agent24.TextLayer.checkRegions_bounds layer.wellFormed.regions stored listed

theorem whole_enough (readable : requireComplete = false ∨ layer.parseStatus = .complete) :
    (requireComplete && (viewOf m.number layer.toLayer).partialParse) = false := by
  rcases readable with none_ | complete
  · rw [none_, Bool.false_and]
  · rw [viewOf, complete, Bool.and_eq_false_iff]
    exact .inr rfl

/-- The calls of `GET text` from accepted places. -/
theorem Readable.readRange (source : Readable m r address layer world)
    (limited : 1 ≤ limit.getD 50 ∧ limit.getD 50 ≤ 200)
    (readable : requireComplete = false ∨ layer.parseStatus = .complete) (k : Nat) (c : Option String) (p : Position)
    (asks : (textRead m r address layer world limit requireComplete budget).Asks k c p) :
    (textRead m r address layer world limit requireComplete budget).call k c =
      within ((textRead m r address layer world limit requireComplete budget).page p) budget := by
  have whole := whole_enough (m := m) readable
  show Documents.readRange m.reader (world k).1 (world k).2 r.documentId r.revision ⟨none, c, limit,
      requireComplete⟩ budget = _
  unfold Documents.readRange
  simp only [Option.isSome_none, Bool.false_and, Bool.or_false, limited, and_self, not_true_eq_false, decide_false]
  rw [source.stored]
  cases c with
  | none =>
    have first := asks.first rfl
    subst first
    have start : p = ⟨1, 0, 0⟩ := (Option.some.inj asks.placed).symm
    subst start
    simp [source.first, whole, textRead, bind, Except.bind]
  | some c =>
    have decoded := placeNamed_eq_some asks.placed
    have cursor : m.reader.cursor "t" r c "" = some (address, p) := decoded
    have accepts := asks.accepts
    have hit : p.hit = 0 := accepts.hit.elim id single_hit
    have onPage : ((viewOf m.number layer.toLayer).blocks.filter fun b => b.page == p.page).length =
        ((bookOf m.number layer fun b => [textBlockJson m.signer b]).onPage p.page).length := by
      rw [bookOf, length_map]
    have inside : ¬ ((viewOf m.number layer.toLayer).pages < p.page ∨
        ((viewOf m.number layer.toLayer).blocks.filter fun b => b.page == p.page).length < p.block ∨ p.hit ≠ 0) := by
      have last : p.page ≤ layer.pages := accepts.last
      have block : p.block ≤ ((bookOf m.number layer fun b => [textBlockJson m.signer b]).onPage p.page).length :=
        accepts.block
      have pages : (viewOf m.number layer.toLayer).pages = layer.pages := rfl
      omega
    simp [cursor, source.cursorLayer k, inside, whole, textRead, bind, Except.bind]

structure Asked (query : String) : Prop where
  chars : 1 ≤ query.toList.length ∧ query.toList.length ≤ MAX_QUERY_CHARS
  compiles : (Query.new query).isSome = true

section
variable (source : Readable m r address layer world)
include source

/-- The calls of `find` from accepted places. -/
theorem Readable.search {query : String} (asked : Asked query)
    (limited : 1 ≤ limit.getD 50 ∧ limit.getD 50 ≤ 200)
    (readable : requireComplete = false ∨ layer.parseStatus = .complete) (k : Nat) (c : Option String)
    (p : Position) (asks : (findRead m r address layer world limit requireComplete budget query).Asks k c p) :
    (findRead m r address layer world limit requireComplete budget query).call k c =
      within ((findRead m r address layer world limit requireComplete budget query).page p) budget := by
  have whole := whole_enough (m := m) readable
  obtain ⟨q, compiled⟩ := Option.isSome_iff_exists.mp asked.compiles
  have ranges (text : String) : findRanges query text = q.find query text := by rw [findRanges, compiled]
  have reads : m.reader.query query = some fun text => (q.find query text).length := by
    show (Query.new query).map _ = _
    rw [compiled]
    rfl
  show Documents.search m.reader (world k).1 (world k).2 r.documentId ⟨r.revision, query, c, limit,
      requireComplete⟩ budget = _
  unfold Documents.search
  simp only [limited, asked.chars, and_self, not_true_eq_false, decide_false, Bool.or_false, Bool.false_eq_true,
      if_false,
    reads]
  rw [source.stored]
  cases c with
  | none =>
    have first := asks.first rfl
    subst first
    have start : p = ⟨1, 0, 0⟩ := (Option.some.inj asks.placed).symm
    subst start
    simp [source.first, whole, findRead, bind, Except.bind]
  | some c =>
    have decoded := placeNamed_eq_some asks.placed
    have cursor : m.reader.cursor "f" r c (m.reader.sha256Address query) = some (address, p) := decoded
    have accepts := asks.accepts
    generalize onPage_ : ((viewOf m.number layer.toLayer).blocks.filter fun b => b.page == p.page) = onPage
    have inside : ¬ ((viewOf m.number layer.toLayer).pages < p.page ∨ onPage.length < p.block ∨
        (0 < p.hit ∧ ((onPage[p.block]?).elim 0 fun b => (q.find query b.text).length) ≤ p.hit)) := by
      have last : p.page ≤ layer.pages := accepts.last
      have block := accepts.block
      rw [findRead, bookOf, length_map, onPage_] at block
      have pages : (viewOf m.number layer.toLayer).pages = layer.pages := rfl
      rcases accepts.hit with zero | there
      · omega
      obtain ⟨b, -, inHits, found⟩ := bookOf_entry there
      rw [onPage_] at found
      rw [length_map, ranges] at inHits
      rw [found, Option.elim_some]
      omega
    simp [cursor, source.cursorLayer k, onPage_, inside, whole, findRead, bind, Except.bind]

theorem Readable.text_sound (budget : Nat) (limited : 1 ≤ limit.getD 50 ∧ limit.getD 50 ≤ 200)
    (readable : requireComplete = false ∨ layer.parseStatus = .complete) :
    (textRead m r address layer world limit requireComplete budget).Sound
      (textPageJson r address (viewOf m.number layer.toLayer))
      (fun q => encodeReadCursor m.signer "t" r address q "") (limit.getD 50) := by
  have issued : Issued "t" r address "" :=
    source.issued ⟨all_iff_forall_prop.mp (by decide), rfl⟩ (by decide)
  have hits : ∀ b ∈ (viewOf m.number layer.toLayer).blocks, [textBlockJson m.signer b].length ≤ USIZE_MAX :=
    fun b _ => by rw [length_singleton]; decide
  refine ⟨layer.pages_pos, regions_bounds m.number layer, rfl, fun q accepts => source.placed issued hits accepts,
    textPageJson_fields r address _, fun p accepts => ⟨_, rfl, ?_⟩, source.readRange limited readable⟩
  refine textSheet_given ⟨rfl, Sheet.json_size _ _, fun q accepts' => ?_⟩ limited.1 accepts
  obtain ⟨-, page, block, -⟩ := accepts_encodable accepts' source.pages source.blocks hits
  exact cursor_small page block (Nat.le_of_eq (accepts'.hit.elim id single_hit))

theorem Readable.find_sound (budget : Nat) {query : String} (asked : Asked query)
    (limited : 1 ≤ limit.getD 50 ∧ limit.getD 50 ≤ 200)
    (readable : requireComplete = false ∨ layer.parseStatus = .complete) :
    (findRead m r address layer world limit requireComplete budget query).Sound findPageJson
      (fun q => encodeReadCursor m.signer "f" r address q (m.signer.sha256Address query)) (limit.getD 50) := by
  have bound := isSha256Address_word (sha256Address_address m.signer query)
  have issued : Issued "f" r address (m.signer.sha256Address query) :=
    source.issued ⟨all_iff_forall_prop.mp (by decide), rfl⟩ (Nat.le_of_eq (bound.2.size.trans bound.1))
  have hits : ∀ b ∈ (viewOf m.number layer.toLayer).blocks,
      ((findRanges query b.text).map (matchAnchor m.signer r address (viewOf m.number layer.toLayer) b)).length ≤
        USIZE_MAX := by
    intro b member
    rw [length_map]
    exact ranges_short query b member
  refine ⟨layer.pages_pos, regions_bounds m.number layer, rfl, fun q accepts => source.placed issued hits accepts,
    findPageJson_fields, fun p accepts => ⟨_, rfl, ?_⟩, source.search asked limited readable⟩
  refine findSheet_given ⟨rfl, Sheet.json_size _ _, fun q accepts' => ?_⟩ limited.1 accepts
  obtain ⟨-, page, block, hit⟩ := accepts_encodable accepts' source.pages source.blocks hits
  exact cursor_small page block hit

end

/-- Reading page by page gives every block, and every match of a query, once and in document order. -/
theorem paged_reading (source : Readable m r address layer world)
    (limited : 1 ≤ limit.getD 50 ∧ limit.getD 50 ≤ 200)
    (readable : requireComplete = false ∨ layer.parseStatus = .complete) (budget : Nat) :
    Complete (textRead m r address layer world limit requireComplete budget)
      ((viewOf m.number layer.toLayer).blocks.map (textBlockJson m.signer)) ∧
    ∀ query, Asked query → Complete (findRead m r address layer world limit requireComplete budget query)
      ((viewOf m.number layer.toLayer).blocks.flatMap fun b => (findRanges query b.text).map
        (matchAnchor m.signer r address (viewOf m.number layer.toLayer) b)) := by
  constructor
  · have complete := (source.text_sound budget limited readable).complete
    have all := bookOf_start m.number layer fun b => [textBlockJson m.signer b]
    rw [← map_eq_flatMap] at all
    rw [← all]
    exact complete
  · intro query asked
    have complete := (source.find_sound budget asked limited readable).complete
    rw [← bookOf_start]
    exact complete

end

theorem size_le_get {key : String} {page value : Json}
    (found : page.get? key = some value) : value.size ≤ page.size := by
  unfold Json.get? at found
  split at found
  · obtain ⟨field, here, rfl⟩ := Option.map_eq_some_iff.mp found
    exact Json.size_le_obj field (mem_of_find?_eq_some here)
  · cases found

theorem size_le_page {name : String} {page e : Json} (member : e ∈ listOf name page) : e.size ≤ page.size := by
  unfold listOf at member
  cases found : page.get? name with
  | none =>
    rw [found] at member
    cases member
  | some value =>
    rw [found, Option.bind_some] at member
    unfold Json.asArray? at member
    split at member
    · exact (Json.size_le_arr member).trans (size_le_get found)
    · cases member

theorem Complete.fits {read : PagedRead} {all : List Json} (complete : Complete read all) {n : Nat}
    (enough : read.book.pages + all.length < n) {e : Json}
    (member : e ∈ (Follow.follow nextCursor read.call n 0 none).1.flatMap
        (listOf read.name)) : e.size ≤ read.budget := by
  obtain ⟨page, given, inside⟩ := mem_flatMap.mp member
  exact (size_le_page inside).trans ((complete.walk n enough).1 page given)

/-! A block that escaping makes larger than a tool's page: it is refused, and never read. -/

def beeps (n : Nat) : String := String.ofList (List.replicate n '\x07')

theorem beeps_size (n : Nat) : (Json.str (beeps n)).size = 2 + 6 * n := by
  have each : Json.bytes (Json.escapeChar '\x07') = 6 := by decide +kernel
  have inner : Json.bytes ((List.replicate n '\x07').flatMap Json.escapeChar) = 6 * n := by
    induction n with
    | zero => rfl
    | succ n ih =>
      rw [replicate_succ, flatMap_cons, Json.bytes_append, ih, each]
      omega
  have quote : '"'.utf8Size = 1 := by decide
  rw [Json.size_eq, Json.renderChars, Json.renderStr, beeps, String.toList_ofList]
  simp only [cons_append, Json.bytes_cons, Json.bytes_append, quote, Json.bytes_nil, inner]
  omega

def anAddress : String := "sha256:" ++ String.ofList (List.replicate 64 '0')

def beepsBlock (n : Nat) : Agent24.TextLayer.Block Nat where
  blockId := "p1/b1"
  page := 1
  text := beeps n
  lines := [⟨0, n, ⟨0, 0, 0, 0⟩⟩]

theorem beepsBlock_ok {n : Nat} (some_ : 1 ≤ n) (fits : n ≤ Agent24.TextLayer.MAX_BLOCK_BYTES) :
    Agent24.TextLayer.BlockOk (beepsBlock n) := by
  have chars : (beeps n).toList = List.replicate n '\x07' := String.toList_ofList
  have size : Offsets.size (List.replicate n '\x07') = n := by
    have one : '\x07'.utf8Size = 1 := by decide
    rw [Offsets.size, map_replicate, one, sum_replicate, Nat.nsmul_eq_mul, Nat.mul_one]
  have other : '\n' ∉ List.replicate n '\x07' := fun member => by
    have same := eq_of_mem_replicate member
    exact absurd same (by decide)
  have filled : List.replicate n '\x07' ≠ [] := by
    intro none_
    rw [replicate_eq_nil_iff] at none_
    omega
  refine ⟨?_, ?_, (by decide : 1 ≤ Agent24.TextLayer.MAX_LINES), ?_⟩
  · show (beeps n).toList ≠ []
    rw [chars]
    exact filled
  · show Offsets.size (beeps n).toList ≤ _
    rw [chars, size]
    exact fits
  · show Agent24.TextLayer.Tiles 0 [⟨0, n, ⟨0, 0, 0, 0⟩⟩] (beeps n).toList
    have whole : '\n' ∉ Agent24.TextLayer.withoutBreak (List.replicate n '\x07') := by
      rw [Agent24.TextLayer.withoutBreak]
      split
      · exact fun member => other (mem_of_mem_dropLast member)
      · exact other
    have tiles : Agent24.TextLayer.Tiles 0 [⟨0, 0 + Offsets.size (List.replicate n '\x07'), (⟨0, 0, 0, 0⟩ :
        Agent24.TextLayer.Rect Nat)⟩] (List.replicate n '\x07' ++ []) := .line filled whole (by decide) (.done _)
    rw [size, append_nil, Nat.zero_add] at tiles
    rw [chars]
    exact tiles

def beepsLayer (n : Nat) : Agent24.TextLayer.Layer Nat where
  v := 1
  contentSha256 := anAddress
  engine := ⟨"pdfkit", "1"⟩
  config := .obj []
  pages := 1
  parseStatus := .complete
  unparsedRegions := []
  blocks := [beepsBlock n]

theorem beepsLayer_check {n : Nat} (some_ : 1 ≤ n) (fits : n ≤ Agent24.TextLayer.MAX_BLOCK_BYTES) :
    (beepsLayer n).check = .ok () := by
  have named : "p1/b1" = Agent24.TextLayer.blockIdOf 1 (Agent24.TextLayer.numberOn 0 0 1) := by decide +kernel
  have blocks : Agent24.TextLayer.checkBlocks 1 0 0 [beepsBlock n] = .ok () :=
    (Agent24.TextLayer.checkBlocks_iff ..).mpr
      (.block (Nat.zero_le 1) Nat.one_pos (Nat.le_refl 1) named (beepsBlock_ok some_ fits) (.done _ _))
  have names : ¬ ((beepsLayer n).v ≠ 1 ∨ (decide (1 ≤ Offsets.size (beepsLayer n).engine.id.toList) &&
      decide (Offsets.size (beepsLayer n).engine.id.toList ≤ 64)) = false ∨
      (decide (1 ≤ Offsets.size (beepsLayer n).engine.version.toList) &&
        decide (Offsets.size (beepsLayer n).engine.version.toList ≤ 64)) = false) :=
    (by decide +kernel : ¬ (1 ≠ 1 ∨ (decide (1 ≤ Offsets.size "pdfkit".toList) &&
      decide (Offsets.size "pdfkit".toList ≤ 64)) = false ∨
      (decide (1 ≤ Offsets.size "1".toList) && decide (Offsets.size "1".toList ≤ 64)) = false))
  have config : ¬ Agent24.TextLayer.configOk (beepsLayer n).config = false :=
    (by decide : ¬ Agent24.TextLayer.configOk (.obj []) = false)
  have source : ¬ (isSha256Address (beepsLayer n).contentSha256 = false ∨ (beepsLayer n).pages = 0) :=
    (by decide +kernel : ¬ (isSha256Address anAddress = false ∨ 1 = 0))
  have status : ¬ decide ((beepsLayer n).parseStatus = .partial_) = (beepsLayer n).unparsedRegions.isEmpty :=
    (by decide : ¬ decide (Agent24.TextLayer.ParseStatus.complete = .partial_) = true)
  unfold Agent24.TextLayer.Layer.check
  simp only
  rw [if_neg names, if_neg config, if_neg source, if_neg status]
  exact blocks

def loudLayer : Agent24.TextLayer.Pinned Nat := ⟨beepsLayer 16384, beepsLayer_check (by decide) (by decide)⟩

def loudRevision : Revision := ⟨"doc_00000000000000000000000000", 1, anAddress, "application/pdf"⟩

def loudBytes : List UInt8 := Bytes.ofText (Json.render (.obj [("blocks", .arr [.obj [("block_id", .str "p1/b1"),
  ("lines", .arr [.obj [("end", .int 16384), ("rect", .arr [.int 0, .int 0, .int 0, .int 0]), ("start", .int 0)]]),
  ("page", .int 1), ("text", .str (beeps 16384))]]), ("config", .obj []), ("content_sha256", .str anAddress),
  ("engine", .obj [("id", .str "pdfkit"), ("version", .str "1")]), ("pages", .int 1), ("parse_status",
      .str "complete"),
  ("unparsed_regions", .arr []), ("v", .int 1)]))

section
variable (bytes : List UInt8)

def loudProcess : Process Nat where
  json := fun _ => none
  value := fun _ => false
  signer := ⟨fun _ => Vector.replicate 32 0, some (Vector.replicate 64 0)⟩
  parse := fun given => if given = bytes then some loudLayer else none
  number := fun n => toString n

def loudStore : Store where
  documents := .empty
  revisions := Table.empty.put ⟨"doc_00000000000000000000000000", 1, anAddress, 1, "application/pdf"⟩
  layers := Table.empty.put ⟨anAddress, "pdfkit", "1", anAddress, anAddress⟩
  jobs := .empty
  keys := .empty
  extractions := .empty
  values := .empty
  oplog := []
  acceptances := []
  blob := fun _ => .ok bytes
  build := fun _ => .error (.engineUnavailable "the read engine is busy")

def loudWorld : Nat → Option Engine × Store :=
  fun _ => (some ⟨"pdfkit", "1", anAddress⟩, loudStore bytes)

theorem loudSource :
    Readable (loudProcess bytes) loudRevision anAddress loudLayer (loudWorld bytes) := by
  have loads : loadLayer (loudProcess bytes).reader (loudStore bytes) anAddress =
      .ok (viewOf (loudProcess bytes).number loudLayer.toLayer) := by
    show ((if bytes = bytes then some loudLayer else none).map
      fun layer => viewOf (loudProcess bytes).number layer.toLayer).elim _ _ = _
    rw [if_pos rfl]
    rfl
  have current : layerAddress (some ⟨"pdfkit", "1", anAddress⟩) (loudStore bytes) loudRevision = .ok anAddress := by
    rfl
  have stored : revisionOf (loudStore bytes) loudRevision.documentId loudRevision.revision = .ok loudRevision := by
    rfl
  refine ⟨?_, fun _ => stored, fun _ => loads, rfl, by decide +kernel, by decide, rfl, by decide, by decide⟩
  show currentLayer (loudProcess bytes).reader (some ⟨"pdfkit", "1", anAddress⟩) (loudStore bytes) loudRevision = _
  unfold currentLayer
  rw [if_neg (by decide), current]
  show (loadLayer (loudProcess bytes).reader (loudStore bytes) anAddress >>= fun layer => pure (anAddress, layer)) = _
  rw [loads]
  rfl

end

/-- With a tool's budget. -/
theorem paged_reading_loud : (1 ≤ (none : Option Nat).getD 50 ∧ (none : Option Nat).getD 50 ≤ 200) ∧
    Complete (textRead (loudProcess loudBytes) loudRevision anAddress loudLayer (loudWorld loudBytes) none false
        (60 * 1024))
      ((viewOf (loudProcess loudBytes).number loudLayer.toLayer).blocks.map (textBlockJson
          (loudProcess loudBytes).signer)) :=
  ⟨by decide, (paged_reading (loudSource loudBytes) (by decide) (.inl rfl) (60 * 1024)).1⟩

/-- The block is larger than a page of a tool: the call is refused, and the block is never read. -/
theorem loud_block_unread : loudLayer.blocks.length = 1 ∧
    (Follow.follow nextCursor (textRead (loudProcess loudBytes) loudRevision anAddress loudLayer
        (loudWorld loudBytes) none
      false (60 * 1024)).call 3 0 none).1.flatMap (listOf "blocks") = [] ∧
    (Follow.follow nextCursor (textRead (loudProcess loudBytes) loudRevision anAddress loudLayer
        (loudWorld loudBytes) none
      false (60 * 1024)).call 3 0 none).2 = .refused (.overBudget (60 * 1024)) := by
  have limited : 1 ≤ (none : Option Nat).getD 50 ∧ (none : Option Nat).getD 50 ≤ 200 := by decide
  have readable : false = false ∨ loudLayer.parseStatus = .complete := .inl rfl
  have complete := ((loudSource loudBytes).text_sound (60 * 1024) limited readable).complete
  generalize block : textBlockJson (loudProcess loudBytes).signer ⟨"p1/b1", 1, beeps 16384,
    .arr [lineJson (loudProcess loudBytes).number ⟨0, 16384, ⟨0, 0, 0, 0⟩⟩]⟩ = e
  have large : 60 * 1024 < e.size := by
    have text : (Json.str (beeps 16384)).size ≤ e.size := by
      rw [← block]
      exact Json.size_le_obj ("text", .str (beeps 16384)) (by simp)
    rw [beeps_size] at text
    omega
  have all : (textRead (loudProcess loudBytes) loudRevision anAddress loudLayer (loudWorld loudBytes) none false
      (60 * 1024)).book.rest ⟨1, 0, 0⟩ = [e] := by
    rw [← block]
    exact bookOf_start (loudProcess loudBytes).number loudLayer fun b => [textBlockJson
        (loudProcess loudBytes).signer b]
  rw [all] at complete
  have enough : (1 : Nat) + [e].length < 3 := by
    rw [length_singleton]
    decide
  have walk := (complete.walk 3 enough).2
  have none_ : (Follow.follow nextCursor (textRead (loudProcess loudBytes) loudRevision anAddress loudLayer
      (loudWorld loudBytes) none false (60 * 1024)).call 3 0 none).1.flatMap (listOf "blocks") = [] := by
    refine eq_nil_iff_forall_not_mem.mpr fun e' member => ?_
    have fits : e'.size ≤ 60 * 1024 := complete.fits enough member
    have listed : e' ∈ [e] := by
      rcases walk with ⟨-, same, -⟩ | ⟨p, -, -, -, same, -⟩
      · rw [← same]
        exact member
      · rw [same]
        exact mem_append_left _ member
    rw [mem_singleton.mp listed] at fits
    omega
  refine ⟨rfl, none_, ?_⟩
  rcases walk with ⟨-, same, -⟩ | ⟨p, refused, -⟩
  · have read := none_.symm.trans same
    cases read
  · exact refused

/-- A cursor is read by the process that signed it, for the read, the revision and the query it was signed for, and
for no other. -/
theorem cursor_bound {signer : Signer} {kind address query : String} {r : Revision} {at_ : Position}
    (issued : Issued kind r address query) (fits : at_.Encodable) (keyed : signer.key.isSome = true) (kind' : String)
    (r' : Revision) (query' : String) :
    decodeReadCursor signer kind' r' (encodeReadCursor signer kind r address at_ query) query' =
      if kind = kind' ∧ r.documentId = r'.documentId ∧ r.revision = r'.revision ∧ query = query' then
        some (address, at_)
      else none := by
  have told : toString r.revision = toString r'.revision ↔ r.revision = r'.revision := by
    refine ⟨fun same => ?_, fun same => by rw [same]⟩
    have one := Numeral.parseSigned_toString (min_le_left r.revision r'.revision) (le_max_left r.revision r'.revision)
    have other := Numeral.parseSigned_toString (min_le_right r.revision r'.revision)
      (le_max_right r.revision r'.revision)
    rw [same] at one
    exact Option.some.inj (one.symm.trans other)
  simp only [decode_issued issued fits keyed, told]

/-- A cursor of a reading is none of a search. -/
theorem loud_cursor_bound : decodeReadCursor (loudProcess []).signer "f" loudRevision
    (encodeReadCursor (loudProcess []).signer "t" loudRevision anAddress ⟨1, 0, 0⟩ "") "" = none :=
  (cursor_bound ((loudSource []).issued ⟨all_iff_forall_prop.mp (by decide), rfl⟩ (by decide))
    ⟨Nat.le_refl _, by decide, Nat.zero_le _, Nat.zero_le _⟩ rfl "f"
    loudRevision "").trans (if_neg fun same => absurd same.1 (by decide))

end Agent24.Documents
