import Agent24.Documents.Reading
import Agent24.Library.Numeral

/-! Read cursors: a place in a layer, signed by the process and bound to the read, its revision and its query. -/

set_option autoImplicit false
namespace Agent24.Documents
open Library Library.Numeral

/-- What a process signs cursors with: the hash, and its key once it has drawn one. -/
structure Signer where
  sha256 : List UInt8 → Vector UInt8 32
  key : Option (Vector UInt8 64)

namespace Signer
variable (signer : Signer)

def pad (key : Vector UInt8 64) (b : UInt8) : List UInt8 := key.toList.map fun k => k ^^^ b

/-- HMAC-SHA-256 of `payload` under the cursor key, if there is one. -/
def mac (payload : List UInt8) : Option (Vector UInt8 32) :=
  signer.key.map fun key => signer.sha256 (pad key 0x5c ++ (signer.sha256 (pad key 0x36 ++ payload)).toList)

/-- The half of it that a cursor carries; without a key, one that never verifies. -/
def tag (payload : List UInt8) : List UInt8 := ((signer.mac payload).getD (Vector.replicate 32 0)).toList.take 16

def sha256Address (text : String) : String :=
  "sha256:" ++ String.ofList ((signer.sha256 (Bytes.ofText text)).toList.flatMap hexByte)

end Signer

def U32_MAX : Nat := 2 ^ 32 - 1

def USIZE_MAX : Nat := 2 ^ 64 - 1

def spaced (word rest : String) : String := word ++ (" " ++ rest)

/-- `kind doc rev layer page block hit query`. -/
def cursorText (kind : String) (r : Revision) (layer : String) (at_ : Position) (query : String) : String :=
  spaced kind <| spaced r.documentId <| spaced (toString r.revision) <| spaced layer <| spaced (toString at_.page) <|
    spaced (toString at_.block) <| spaced (toString at_.hit) query

section
variable (signer : Signer) (kind : String) (r : Revision)

def encodeReadCursor (layer : String) (at_ : Position) (query : String) : String :=
  let text := cursorText kind r layer at_ query
  hexText text ++ String.ofList ((signer.tag (Bytes.ofText text)).flatMap hexByte)

def readPlace (text query : String) : Option (String × Position) := do
  let (k, text) ← Text.splitOnce ' ' text
  let (doc, text) ← Text.splitOnce ' ' text
  let (rev, text) ← Text.splitOnce ' ' text
  let (layer, text) ← Text.splitOnce ' ' text
  let (page, text) ← Text.splitOnce ' ' text
  let (block, text) ← Text.splitOnce ' ' text
  let (hit, q) ← Text.splitOnce ' ' text
  let page ← parseUnsigned U32_MAX page
  let block ← parseUnsigned USIZE_MAX block
  let hit ← parseUnsigned USIZE_MAX hit
  let ours := k == kind && doc == r.documentId && rev == toString r.revision && q == query
  if ours && isSha256Address layer && 1 ≤ page then some (layer, ⟨page, block, hit⟩) else none

/-- The layer and position a cursor names, if this process signed it for `kind`, this revision and `query`. -/
def decodeReadCursor (cursor query : String) : Option (String × Position) :=
  let size := cursor.utf8ByteSize
  if 2048 < size ∨ size < 32 ∨ cursor.toList.any (fun c => decide (128 ≤ c.toNat)) = true ∨ size % 2 ≠ 0 then none
  else do
    let bytes ← unhex cursor.toList
    let payload := bytes.take (bytes.length - 16)
    let mac ← signer.mac payload
    if mac.toList.take 16 ≠ bytes.drop (bytes.length - 16) then none
    else readPlace kind r (← String.fromUTF8? ⟨payload.toArray⟩) query

end

def PlainWord (text : String) : Prop := PlainText text.toList

theorem PlainWord.clean {text : String} (word : PlainWord text) : ' ' ∉ text.toList :=
    fun member => (word ' ' member).2 rfl

theorem splitOnce_spaced {word : String} (clean : ' ' ∉ word.toList) (rest : String) :
    Text.splitOnce ' ' (spaced word rest) = some (word, rest) :=
  (Text.splitOnce_eq_some ..).mpr ⟨rfl, clean⟩

theorem toString_word (n : Nat) : PlainWord (toString n) := by
  intro c member
  rw [Nat.toString_eq_repr, Nat.toList_repr] at member
  have digit := Nat.isDigit_of_mem_toDigits (by decide) (by decide) member
  rw [Char.isDigit, Bool.and_eq_true, decide_eq_true_eq, decide_eq_true_eq] at digit
  refine ⟨UInt32.le_trans digit.2 (by decide), ?_⟩
  rintro rfl
  exact absurd digit.1 (by decide)

theorem toString_revision {n : Int} (positive : 1 ≤ n) : toString n = toString n.toNat := by
  obtain ⟨m, rfl⟩ := Int.eq_ofNat_of_zero_le (by omega : 0 ≤ n)
  rfl

theorem isSha256Address_word {s : String} (address : isSha256Address s = true) :
    s.toList.length = 71 ∧ PlainWord s := by
  rw [isSha256Address, Option.any_eq_true] at address
  obtain ⟨hex, leads, formed⟩ := address
  rw [Bool.and_eq_true, beq_iff_eq, List.all_eq_true] at formed
  rw [(Text.strip_eq_some _ _ _).mp leads]
  have lead : ("sha256:" : String).toList.length = 7 ∧ ∀ c ∈ ("sha256:" : String).toList, c.val ≤ 127 ∧ c ≠ ' ' :=
    ⟨rfl, List.all_iff_forall_prop.mp (by decide)⟩
  refine ⟨by rw [String.toList_append, List.length_append, formed.1, lead.1], fun c member => ?_⟩
  rw [String.toList_append, List.mem_append] at member
  rcases member with member | member
  · exact lead.2 c member
  have letter := formed.2 c member
  rw [Bool.or_eq_true] at letter
  rcases letter with digit | letter
  · exact isAsciiDigit_plain digit
  rw [Bool.and_eq_true, decide_eq_true_eq, decide_eq_true_eq] at letter
  refine ⟨UInt32.le_trans letter.2 (by decide), ?_⟩
  rintro rfl
  exact absurd letter.1 (by decide)

theorem sha256Address_address (signer : Signer) (text : String) :
    isSha256Address (signer.sha256Address text) = true := by
  have known : ∀ c ∈ ['0', '1', '2', '3', '4', '5', '6', '7', '8', '9', 'a', 'b', 'c', 'd', 'e', 'f'],
      (isAsciiDigit c || ('a'.val ≤ c.val && c.val ≤ 'f'.val)) = true := List.all_iff_forall_prop.mp (by decide)
  rw [isSha256Address, Signer.sha256Address, (Text.strip_eq_some _ _ _).mpr rfl, Option.any_some, Bool.and_eq_true,
    beq_iff_eq, String.toList_ofList, length_hex, Vector.length_toList, List.all_eq_true]
  refine ⟨rfl, fun c member => ?_⟩
  obtain ⟨b, -, here⟩ := List.mem_flatMap.mp member
  rw [hexByte, List.mem_cons, List.mem_singleton] at here
  rcases here with rfl | rfl
  · exact known _ (hexDigitOf_mem _)
  · exact known _ (hexDigitOf_mem _)

theorem fromUtf8_ofText (text : String) : String.fromUTF8? ⟨(Bytes.ofText text).toArray⟩ = some text := by
  have valid : (⟨(Bytes.ofText text).toArray⟩ : ByteArray) = text.toByteArray := by
    rw [Bytes.ofText, Array.toArray_toList]
  rw [valid, String.fromUTF8?, dif_pos text.isValidUTF8]
  rfl

section
variable {signer : Signer} {kind : String} {r : Revision} {layer query : String} {at_ : Position}

theorem length_tag (signer : Signer) (payload : List UInt8) : (signer.tag payload).length = 16 := by
  rw [Signer.tag, List.length_take, Vector.length_toList]
  rfl

theorem encodeReadCursor_toList (signer : Signer) (kind : String) (r : Revision) (layer : String) (at_ : Position)
    (query : String) : (encodeReadCursor signer kind r layer at_ query).toList =
      (Bytes.ofText (cursorText kind r layer at_ query) ++
        signer.tag (Bytes.ofText (cursorText kind r layer at_ query))).flatMap hexByte := by
  rw [encodeReadCursor, String.toList_append, hexText, String.toList_ofList, String.toList_ofList,
      List.flatMap_append]

theorem hex_plain {bytes : List UInt8} : PlainText (bytes.flatMap hexByte) := by
  intro c member
  obtain ⟨b, -, here⟩ := List.mem_flatMap.mp member
  have known : ∀ d ∈ ['0', '1', '2', '3', '4', '5', '6', '7', '8', '9', 'a', 'b', 'c', 'd', 'e', 'f'],
      d.val ≤ 127 ∧ d ≠ ' ' := List.all_iff_forall_prop.mp (by decide)
  rw [hexByte, List.mem_cons, List.mem_singleton] at here
  rcases here with rfl | rfl
  · exact known _ (hexDigitOf_mem _)
  · exact known _ (hexDigitOf_mem _)

theorem encodeReadCursor_plain (signer : Signer) (kind : String) (r : Revision) (layer : String) (at_ : Position)
    (query : String) : PlainText (encodeReadCursor signer kind r layer at_ query).toList := by
  rw [encodeReadCursor_toList]
  exact hex_plain

theorem encodeReadCursor_length : (encodeReadCursor signer kind r layer at_ query).toList.length =
    2 * ((cursorText kind r layer at_ query).utf8ByteSize + 16) := by
  rw [encodeReadCursor_toList, length_hex, List.length_append, length_tag, Bytes.length_ofText]

theorem spaced_size (word rest : String) : (spaced word rest).utf8ByteSize =
    word.utf8ByteSize + (1 + rest.utf8ByteSize) := by
  rw [spaced, String.utf8ByteSize_append, String.utf8ByteSize_append]
  rfl

theorem PlainWord.size {text : String} (word : PlainWord text) : text.utf8ByteSize = text.toList.length :=
    PlainText.bytes word

theorem toString_size_mono {m n : Nat} (below : m ≤ n) : (toString m).utf8ByteSize ≤ (toString n).utf8ByteSize := by
  rw [(toString_word m).size, (toString_word n).size, String.length_toList, String.length_toList]
  exact length_toString_mono below

def Position.Encodable (at_ : Position) : Prop :=
  1 ≤ at_.page ∧ at_.page ≤ U32_MAX ∧ at_.block ≤ USIZE_MAX ∧ at_.hit ≤ USIZE_MAX

theorem encodeReadCursor_mono (signer : Signer) (kind : String) (r : Revision) (layer query : String)
    {at_' : Position} (page : at_.page ≤ at_'.page) (block : at_.block ≤ at_'.block)
    (hit : at_.hit ≤ at_'.hit) : (encodeReadCursor signer kind r layer at_ query).toList.length ≤
      (encodeReadCursor signer kind r layer at_' query).toList.length := by
  have page_ := toString_size_mono page
  have block_ := toString_size_mono block
  have hit_ := toString_size_mono hit
  rw [encodeReadCursor_length, encodeReadCursor_length]
  simp only [cursorText, spaced_size]
  omega

structure Issued (kind : String) (r : Revision) (layer query : String) : Prop where
  kind : PlainWord kind ∧ kind.toList.length = 1
  document : isId .document r.documentId = true
  positive : 1 ≤ r.revision
  column : r.revision < 2 ^ 63
  layer : isSha256Address layer = true
  query : query.utf8ByteSize ≤ 71

section
variable (issued : Issued kind r layer query)
include issued

theorem readPlace_cursorText (fits : at_.Encodable) (kind' : String) (r' : Revision) (query' : String) :
    readPlace kind' r' (cursorText kind r layer at_ query) query' =
      if kind = kind' ∧ r.documentId = r'.documentId ∧ toString r.revision = toString r'.revision ∧
          query = query' then
        some (layer, at_)
      else none := by
  have revision := toString_word r.revision.toNat
  rw [← toString_revision issued.positive] at revision
  have document : PlainWord r.documentId := (isId_plain issued.document).2
  obtain ⟨first, page, block, hit⟩ := fits
  rw [readPlace, cursorText, splitOnce_spaced issued.kind.1.clean]
  simp only [Option.bind_eq_bind, Option.bind_some]
  rw [splitOnce_spaced document.clean]
  simp only [Option.bind_some]
  rw [splitOnce_spaced revision.clean]
  simp only [Option.bind_some]
  rw [splitOnce_spaced (isSha256Address_word issued.layer).2.clean]
  simp only [Option.bind_some]
  rw [splitOnce_spaced (toString_word _).clean]
  simp only [Option.bind_some]
  rw [splitOnce_spaced (toString_word _).clean]
  simp only [Option.bind_some]
  rw [splitOnce_spaced (toString_word _).clean]
  simp only [Option.bind_some, parseUnsigned_toString page, parseUnsigned_toString block, parseUnsigned_toString hit,
    issued.layer, first, decide_true, Bool.and_eq_true, beq_iff_eq, and_true, and_assoc]

theorem cursorText_size (fits : at_.Encodable) :
    (cursorText kind r layer at_ query).utf8ByteSize ≤ 249 := by
  have revision : (toString r.revision).utf8ByteSize ≤ 19 := by
    rw [toString_revision issued.positive]
    have below : r.revision.toNat ≤ 2 ^ 63 - 1 := by
      have := issued.column
      omega
    exact (toString_size_mono below).trans (by decide +kernel)
  obtain ⟨-, page, block, hit⟩ := fits
  have page := (toString_size_mono page).trans (by decide +kernel : (toString U32_MAX).utf8ByteSize ≤ 10)
  have block := (toString_size_mono block).trans (by decide +kernel : (toString USIZE_MAX).utf8ByteSize ≤ 20)
  have hit := (toString_size_mono hit).trans (by decide +kernel : (toString USIZE_MAX).utf8ByteSize ≤ 20)
  have kind_ := issued.kind.1.size
  have document := isId_plain issued.document
  have document_ : r.documentId.utf8ByteSize = 30 := (PlainText.bytes document.2).trans document.1
  have layer_ := isSha256Address_word issued.layer
  have address : layer.utf8ByteSize = 71 := layer_.2.size.trans layer_.1
  have query_ := issued.query
  simp only [cursorText, spaced_size, kind_, issued.kind.2, document_, address]
  omega

theorem decode_issued (fits : at_.Encodable) (keyed : signer.key.isSome = true) (kind' : String) (r' : Revision)
    (query' : String) : decodeReadCursor signer kind' r' (encodeReadCursor signer kind r layer at_ query) query' =
      if kind = kind' ∧ r.documentId = r'.documentId ∧ toString r.revision = toString r'.revision ∧
          query = query' then
        some (layer, at_)
      else none := by
  have short := cursorText_size issued fits
  have size := (encodeReadCursor_plain signer kind r layer at_ query).bytes
  rw [encodeReadCursor_length] at size
  have ascii : (encodeReadCursor signer kind r layer at_ query).toList.any (fun c => decide
      (128 ≤ c.toNat)) = false := by
    rw [List.any_eq_false]
    intro c member
    have low := UInt32.le_iff_toNat_le.mp (encodeReadCursor_plain signer kind r layer at_ query c member).1
    have value : (127 : UInt32).toNat = 127 := rfl
    simp only [decide_eq_true_eq, Nat.not_le, Char.toNat]
    omega
  rw [decodeReadCursor, size, if_neg (by rw [ascii]; simp only [Bool.false_eq_true, false_or]; omega),
    encodeReadCursor_toList, unhex_hex]
  generalize whole : Bytes.ofText (cursorText kind r layer at_ query) = payload
  obtain ⟨key, held⟩ := Option.isSome_iff_exists.mp keyed
  have tagged : (payload ++ signer.tag payload).length - 16 = payload.length := by
    rw [List.length_append, length_tag]
    omega
  have mac : signer.mac payload = some ((signer.mac payload).getD (Vector.replicate 32 0)) := by
    rw [Signer.mac, held]
    rfl
  simp only [Option.bind_eq_bind, Option.bind_some, tagged, List.take_left, List.drop_left]
  rw [mac, Option.bind_some, if_neg (by rw [Signer.tag, not_not]), ← whole, fromUtf8_ofText, Option.bind_some]
  exact readPlace_cursorText issued fits kind' r' query'

theorem decode_encodeReadCursor (fits : at_.Encodable) (keyed : signer.key.isSome = true) :
    decodeReadCursor signer kind r (encodeReadCursor signer kind r layer at_ query) query = some (layer, at_) := by
  rw [decode_issued issued fits keyed, if_pos ⟨rfl, rfl, rfl, rfl⟩]

end

end

end Agent24.Documents
