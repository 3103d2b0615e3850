import Agent24.Library.Bytes
import Agent24.Scheduler.NextFire
import Mathlib.Data.List.Dedup
import Mathlib.Data.List.Sort

/-! A consent: what a tool may do, the resources it covers, and the reference a grant is known by. -/

set_option autoImplicit false
namespace Agent24.Consent
open Library
open Scheduler (Instant)

/-- `timestamp_millis`. -/
def millis (t : Instant) : Int := t.secs * 1000 + (t.nanos / 1_000_000 : Nat)

/-- SHA-256 over bytes, and `chrono`'s RFC 3339 texts. -/
structure Host where
  sha256 : List UInt8 → BitVec 256
  /-- `DateTime::parse_from_rfc3339`, in UTC. -/
  parse : String → Option Instant
  /-- `to_rfc3339_opts(Millis, true)`. -/
  canonical : Instant → String
  /-- A canonical text reads back, to the millisecond, where the year has four digits. -/
  parse_canonical : ∀ t, t.Writable → ∃ read, parse (canonical t) = some read ∧ millis read = millis t
  parse_canonical_far : ∀ t, ¬ t.Writable → parse (canonical t) = none

inductive StoreError where
  | conflict (message : String)
  /-- An `AUTOINCREMENT` key has run out. -/
  | full
  deriving DecidableEq

inductive ConsentSource where
  | firstParty | manualInstall
  deriving DecidableEq

def ConsentSource.word : ConsentSource → String
  | .firstParty => "first_party"
  | .manualInstall => "manual_install"

inductive HostRiskLevel where
  | low | medium | high
  deriving DecidableEq

def HostRiskLevel.rank : HostRiskLevel → Nat
  | .low => 0
  | .medium => 1
  | .high => 2

def HostRiskLevel.word : HostRiskLevel → String
  | .low => "low"
  | .medium => "medium"
  | .high => "high"

inductive ConsentDecision where
  | granted | denied
  deriving DecidableEq

structure ToolPermissionSummary where
  module : String
  op : String
  moduleVersion : String
  source : ConsentSource
  readable : Option String
  writable : Option String
  external : Option String
  reversibleDraft : Bool
  risk : HostRiskLevel

/-- `ToolPermissionSummary::new`: a manual install is never below high risk. -/
def ToolPermissionSummary.new (module op moduleVersion : String) (source : ConsentSource)
    (readable writable external : Option String) (hostRisk : HostRiskLevel) : ToolPermissionSummary where
  module := module
  op := op
  moduleVersion := moduleVersion
  source := source
  readable := readable
  writable := writable
  external := external
  reversibleDraft := false
  risk := match source with
    | .firstParty => hostRisk
    | .manualInstall => if hostRisk.rank < HostRiskLevel.high.rank then .high else hostRisk

variable (H : Host)

/-- `hex_encode` of a digest: 64 digits. -/
def Host.digestHex (bytes : List UInt8) : String :=
  String.ofList (Numeral.hexDigits 64 (H.sha256 bytes).toNat)

def jsonText : Option String → Json
  | some text => .str text
  | none => .null

def ToolPermissionSummary.scopeFingerprint (summary : ToolPermissionSummary) : String :=
  "sha256:" ++ H.digestHex (Bytes.ofText (Json.render (.obj
    [("source", .str summary.source.word), ("risk", .str summary.risk.word),
     ("readable", jsonText summary.readable), ("writable", jsonText summary.writable),
     ("external", jsonText summary.external), ("reversible_draft", .bool summary.reversibleDraft)])))

structure ConsentRecord where
  module : String
  op : String
  moduleVersion : String
  scopeFingerprint : String
  source : ConsentSource
  risk : HostRiskLevel
  readable : Option String
  writable : Option String
  external : Option String
  reversibleDraft : Bool
  decision : ConsentDecision
  decidedAt : String
  expiresAt : String
  resources : List String
  artifact : Option String
  generation : Nat
  deriving DecidableEq

def maxGrantResources : Nat := 256

structure GrantScope where
  resources : List String
  artifact : Option String

def GrantScope.default : GrantScope := ⟨[], none⟩

def asciiLower (c : Char) : Bool := 'a' ≤ c && c ≤ 'z'
def asciiUpper (c : Char) : Bool := 'A' ≤ c && c ≤ 'Z'

/-- `is_resource_element`: `<kind>:<id>`. -/
def isResourceElement (element : String) : Bool :=
  match Text.splitOnce ':' element with
  | none => false
  | some (kind, id) =>
    let kindOk := match kind.toList with
      | [] => false
      | first :: rest =>
        decide (kind.length ≤ 32) && asciiLower first &&
          rest.all fun c => asciiLower c || c.isDigit || c == '_'
    kindOk && !id.toList.isEmpty && decide (id.length ≤ 128) &&
      id.toList.all fun c => asciiLower c || asciiUpper c || c.isDigit || c == '_' || c == '-'

/-- `sort` and `dedup`. -/
def distinctSorted (texts : List String) : List String := (texts.insertionSort (· ≤ ·)).dedup

theorem mem_distinctSorted {text : String} {texts : List String} :
    text ∈ distinctSorted texts ↔ text ∈ texts := by
  simp [distinctSorted]

/-- `canonical_resources`; the cap counts what was submitted. -/
def canonicalResources (resources : List String) : Except StoreError (List String) :=
  if resources.any fun element => !isResourceElement element then
    .error (.conflict "a grant's resource is not a resource")
  else if resources.length > maxGrantResources then
    .error (.conflict ("a grant carries at most " ++ toString maxGrantResources ++ " resources"))
  else .ok (distinctSorted resources)

def resourceSetDigest (resources : List String) : String :=
  H.digestHex ((distinctSorted resources).flatMap fun element => Bytes.framed (Bytes.ofText element))

/-- The bytes that `authorization_ref` digests. -/
def ConsentRecord.encoding (r : ConsentRecord) : List UInt8 :=
  Bytes.framed (Bytes.ofText "ga1") ++ (Bytes.framed (Bytes.bigEndian 8 r.generation) ++
    (Bytes.framed (Bytes.ofText r.scopeFingerprint) ++
    (Bytes.framed (Bytes.ofText (resourceSetDigest H r.resources)) ++
    (Bytes.framed (match r.artifact with
      | none => [0]
      | some artifact => 1 :: Bytes.ofText artifact) ++
    (Bytes.framed (Bytes.ofText r.decidedAt) ++ Bytes.framed (Bytes.ofText r.expiresAt))))))

def ConsentRecord.authorizationRef (r : ConsentRecord) : String := "ga1:" ++ H.digestHex (r.encoding H)

def keyMax : Nat := 2 ^ 63 - 1

variable {H}

theorem digestHex_injective {a b : List UInt8} (same : H.digestHex a = H.digestHex b) :
    H.sha256 a = H.sha256 b := by
  have size : (2 : Nat) ^ 256 = 16 ^ 64 := Nat.pow_mul 2 4 64
  have digits : Numeral.hexDigits 64 (H.sha256 a).toNat = Numeral.hexDigits 64 (H.sha256 b).toNat :=
    String.ofList_injective same
  exact BitVec.eq_of_toNat_eq (Numeral.hexDigits_injective (size ▸ (H.sha256 a).isLt)
    (size ▸ (H.sha256 b).isLt) digits)

theorem generation_of_encoding {r s : ConsentRecord} (small : r.generation ≤ keyMax)
    (small' : s.generation ≤ keyMax) (same : r.encoding H = s.encoding H) : r.generation = s.generation := by
  obtain ⟨-, rest⟩ := Bytes.framed_append_inj (by decide) (by decide) same
  obtain ⟨bytes, -⟩ := Bytes.framed_append_inj (by simp) (by simp) rest
  unfold keyMax at small small'
  exact Bytes.bigEndian_injective (by omega) (by omega) bytes

end Agent24.Consent
