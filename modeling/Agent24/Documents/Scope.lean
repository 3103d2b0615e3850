import Agent24.Documents.Store

/-! The resources a module tool call may touch, read once a call. -/

set_option autoImplicit false
namespace Agent24.Documents
open Library

def MAX_ENTRIES : Nat := 256

def DOC_KIND : String := "doc"

structure Scope where
  documents : List String
  deriving DecidableEq

def isAsciiLower (c : Char) : Bool := 'a'.val ≤ c.val && c.val ≤ 'z'.val

def isAsciiAlphanumeric (c : Char) : Bool :=
  isAsciiDigit c || isAsciiLower c || ('A'.val ≤ c.val && c.val ≤ 'Z'.val)

/-- `[a-z][a-z0-9_]{0,31}`. -/
def isEntryKind (kind : String) : Bool :=
  match kind.toList with
  | [] => false
  | c :: rest =>
    rest.length < 32 && isAsciiLower c && rest.all fun c => isAsciiLower c || isAsciiDigit c || c == '_'

/-- `[A-Za-z0-9_-]{1,128}`, so a further colon does not match. -/
def isEntryId (id : String) : Bool :=
  1 ≤ id.toList.length && id.toList.length ≤ 128 &&
    id.toList.all fun c => isAsciiAlphanumeric c || c == '_' || c == '-'

def Scope.entry : Json → Option String
  | .str entry => do
    let (kind, id) ← Text.splitOnce ':' entry
    if !isEntryKind kind || kind != DOC_KIND || !isEntryId id then none else some id
  | _ => none

/-- `authorized_resources` as the kernel sent it; none where it is not a list this module can read. -/
def Scope.parse : Option Json → Option Scope
  | none => some ⟨[]⟩
  | some (.arr entries) =>
    if MAX_ENTRIES < entries.length then none else (entries.mapM Scope.entry).map fun ids => ⟨ids.dedup⟩
  | some _ => none

def Scope.allowsDocument (scope : Scope) (id : String) : Bool := scope.documents.contains id

def jobDocument (store : Store) (jobId : String) : Option String := (store.jobs.find jobId).bind JobRow.documentId

def extractionDocument (store : Store) (extractionId : String) : Option String :=
  (store.extractions.find extractionId).map ExtractionRow.documentId

example : Scope.parse (some (.arr [.str "doc:d1", .str "doc:d1"])) = some ⟨["d1"]⟩ ∧
    Scope.parse (some .null) = none ∧ Scope.parse (some (.arr [.str "doc:*"])) = none := by decide +kernel

end Agent24.Documents
