import Agent24.Library.Table
import Agent24.Platform

/-! `attached.json`: the attached modules that are registered, what the revoked ones were allowed, and the
three calls that change it. -/

set_option autoImplicit false
namespace Agent24.Attach
open Library

inductive ModelAccess where
  | localOnly | remoteAllowed
  deriving DecidableEq

namespace ModelAccess

def all : List ModelAccess := [localOnly, remoteAllowed]

def asStr : ModelAccess → String
  | localOnly => "local_only"
  | remoteAllowed => "remote_allowed"

def parse (P : Platform) (s : String) : Except String ModelAccess :=
  match all.find? fun a => a.asStr == s with
  | some a => .ok a
  | none => .error ("model_access: " ++ P.debugStr s ++ " is not one of " ++ ", ".intercalate (all.map asStr))

theorem parse_asStr (P : Platform) (a : ModelAccess) : parse P a.asStr = .ok a := by
  cases a <;> rfl

end ModelAccess

inductive Capability where
  | events | models | scheduler | policy | memory | approval
  deriving DecidableEq

namespace Capability

/-- `ALL_CAPABILITIES`. -/
def all : List Capability := [events, models, scheduler, policy, memory, approval]

def asStr : Capability → String
  | events => "events"
  | models => "models"
  | scheduler => "scheduler"
  | policy => "policy"
  | memory => "memory"
  | approval => "approval"

/-- The error is `UnknownCapability`'s text. -/
def parse (P : Platform) (s : String) : Except String Capability :=
  match all.find? fun c => c.asStr == s with
  | some c => .ok c
  | none => .error ("unknown_capability: " ++ P.debugStr s ++ " is not one of " ++ ", ".intercalate (all.map asStr))

theorem parse_asStr (P : Platform) (c : Capability) : parse P c.asStr = .ok c := by
  cases c <;> rfl

end Capability

inductive ImplKind where
  | inProcessCrate | outOfProcessProvider | attachedProcess
  deriving DecidableEq

def ImplKind.debug : ImplKind → String
  | .inProcessCrate => "InProcessCrate"
  | .outOfProcessProvider => "OutOfProcessProvider"
  | .attachedProcess => "AttachedProcess"

/-- The fields an attached module is judged and served by. -/
structure DomainOsManifest where
  name : String
  version : String
  kernelCapabilities : List Capability
  modelAccess : ModelAccess
  implKind : ImplKind
  hostCommands : List String
  deriving DecidableEq

/-- What `is_relax` compares. -/
structure Facts where
  modelAccess : ModelAccess
  capabilities : List Capability
  deriving DecidableEq

def Facts.of (manifest : DomainOsManifest) : Facts := ⟨manifest.modelAccess, manifest.kernelCapabilities⟩

def reservedKernelSegments : List String :=
  ["idoris", "attached", "approvals", "capabilities", "chat", "comm", "components", "decide", "events", "health",
    "host", "memory", "module-approvals", "module-consents", "models", "os", "peer", "presence", "runs", "schedules",
    "sessions", "shutdown", "standing-grants", "timings", "tool-overrides", "tools", "usage"]

def builtinComponentIds : List String := ["idoris", "hyphae", "documents", "knowledge", "open-design"]

def isRelax (previous : Option Facts) (new : Facts) : Bool :=
  match previous with
  | none => new.modelAccess == .remoteAllowed
  | some prev =>
    (prev.modelAccess == .localOnly && new.modelAccess == .remoteAllowed) ||
      new.capabilities.any fun c => !prev.capabilities.contains c

structure AttachedRecord where
  name : String
  manifestYaml : String
  manifestDigest : String
  tokenSha256 : String
  tokenId : String
  disabled : Bool

structure RevokedFacts where
  name : String
  modelAccess : String
  capabilities : List String

namespace RevokedFacts

def capture (name : String) (facts : Facts) : RevokedFacts :=
  ⟨name, facts.modelAccess.asStr, facts.capabilities.map Capability.asStr⟩

def intoFacts (P : Platform) (tombstone : RevokedFacts) : Except String Facts := do
  let modelAccess ← ModelAccess.parse P tombstone.modelAccess
  let capabilities ← tombstone.capabilities.mapM (Capability.parse P)
  return ⟨modelAccess, capabilities⟩

theorem intoFacts_capture (P : Platform) (name : String) (facts : Facts) :
    (capture name facts).intoFacts P = .ok facts := by
  have capabilities : (facts.capabilities.map Capability.asStr).mapM (Capability.parse P) = .ok facts.capabilities := by
    induction facts.capabilities with
    | nil => rfl
    | cons c rest ih =>
      rw [List.map_cons, List.mapM_cons, Capability.parse_asStr, ih]
      rfl
  simp only [intoFacts, capture, ModelAccess.parse_asStr, capabilities]
  rfl

end RevokedFacts

structure AttachedStore where
  version : Nat
  modules : Table AttachedRecord.name
  revoked : Table RevokedFacts.name

def AttachedStore.empty : AttachedStore := ⟨1, .empty, .empty⟩

/-- What is committed, handed out while the file lock is still held. -/
inductive Change where
  | registered (name : String) (rotated : Bool) (manifest : DomainOsManifest)
      (manifestDigest tokenSha256Hex tokenId : String) (disabled : Bool)
  | revoked (name : String)
  | disabled (name : String) (disabled : Bool)

structure AttachedAddResponse where
  name : String
  manifestDigest : String
  token : String
  socketPath : String
  tokenId : String

inductive RegisterOutcome where
  | created (response : AttachedAddResponse)
  | rotated (response : AttachedAddResponse) (digestChanged : Bool)

inductive RegisterError where
  | invalidManifest (message : String)
  | nameTaken (name : String)
  | relaxRequiresConfirmation
  | io (message : String)
  deriving DecidableEq

/-- What the machine answers one call. -/
structure Answers where
  opened : Except String Unit
  minted : Except String (String × String)
  written : Except String Unit
  socketPath : Except String String

def Answers.fine (token tokenId : String) : Answers :=
  ⟨.ok (), .ok (token, tokenId), .ok (), .ok "/home/user/.agent24/attach/agent24d.sock"⟩

/-- What a call leaves on disk, what it hands to `on_commit`, and its answer. -/
structure Called (α : Type) where
  store : AttachedStore
  change : Option Change
  answer : α

section
variable (P : Platform) (fromYaml : String → Except String DomainOsManifest)

def hex256 (digest : BitVec 256) : String := String.ofList (Numeral.hexDigits 64 digest.toNat)

def manifestDigest (bytes : String) : String := "sha256:" ++ hex256 (P.sha256 bytes)

def hashTokenHex (token : String) : String := hex256 (P.sha256 token)

def parseManifest (yaml : String) : Except String DomainOsManifest := do
  let manifest ← fromYaml yaml
  if manifest.implKind ≠ .attachedProcess then
    throw ("impl_kind must be attached_process for an attached-module registration, got " ++ manifest.implKind.debug)
  if reservedKernelSegments.contains manifest.name then
    throw ("module name " ++ P.debugStr manifest.name ++ " is reserved for the kernel's own routes")
  return manifest

section
variable (store : AttachedStore)

def previousFacts (name : String) : Except RegisterError (Option Facts) :=
  match store.modules.find name with
  | some record =>
    match parseManifest P fromYaml record.manifestYaml with
    | .ok manifest => .ok (some (.of manifest))
    | .error e => .error (.io ("the stored manifest for " ++ P.debugStr name ++ " no longer parses: " ++ e))
  | none =>
    match store.revoked.find name with
    | some tombstone =>
      match tombstone.intoFacts P with
      | .ok facts => .ok (some facts)
      | .error e =>
        .error (.io ("the revoked-record tombstone for " ++ P.debugStr name ++ " no longer parses: " ++ e))
    | none => .ok none

/-- What `register` checks before it mints: the manifest it accepts. -/
def admitted (manifestYaml : String) (allowRelax : Bool) (nameTaken : String → Bool)
    (opened : Except String Unit) : Except RegisterError DomainOsManifest := do
  let manifest ← (parseManifest P fromYaml manifestYaml).mapError .invalidManifest
  if builtinComponentIds.contains manifest.name then
    throw (.invalidManifest ("module name " ++ P.debugStr manifest.name ++ " is the id of a built-in component"))
  opened.mapError .io
  let previous ← previousFacts P fromYaml store manifest.name
  if (store.modules.find manifest.name).isNone && nameTaken manifest.name then throw (.nameTaken manifest.name)
  if isRelax previous (.of manifest) && !allowRelax then throw .relaxRequiresConfirmation
  return manifest

def register (manifestYaml : String) (allowRelax : Bool) (nameTaken : String → Bool) (answers : Answers) : Called (Except RegisterError RegisterOutcome) :=
  match admitted P fromYaml store manifestYaml allowRelax nameTaken answers.opened with
  | .error e => ⟨store, none, .error e⟩
  | .ok manifest =>
    match answers.minted with
    | .error e => ⟨store, none, .error (.io e)⟩
    | .ok (token, tokenId) =>
      let name := manifest.name
      let digest := manifestDigest P manifestYaml
      let previousRecord := store.modules.find name
      let previousDisabled := previousRecord.any (·.disabled)
      match answers.written with
      | .error e => ⟨store, none, .error (.io e)⟩
      | .ok () =>
        { store := { store with
            modules := store.modules.put ⟨name, manifestYaml, digest, hashTokenHex P token, tokenId, previousDisabled⟩
            revoked := store.revoked.remove name }
          change := some (.registered name previousRecord.isSome manifest digest (hashTokenHex P token) tokenId
            previousDisabled)
          -- a home directory that is not known fails the answer after the commit
          answer := (answers.socketPath.mapError .io).map fun socketPath =>
            let response := ⟨name, digest, token, socketPath, tokenId⟩
            match previousRecord with
            | none => .created response
            | some previous => .rotated response (previous.manifestDigest != digest) }

def revoke (name : String) (answers : Answers) : Called (Except String Bool) :=
  match answers.opened with
  | .error e => ⟨store, none, .error e⟩
  | .ok () =>
    match store.modules.find name with
    | none => ⟨store, none, .ok false⟩
    | some record =>
      match parseManifest P fromYaml record.manifestYaml with
      | .error e => ⟨store, none, .error ("the stored manifest for " ++ P.debugStr name ++ " no longer parses: " ++ e)⟩
      | .ok manifest =>
        match answers.written with
        | .error e => ⟨store, none, .error e⟩
        | .ok () =>
          { store := { store with
              modules := store.modules.remove name
              revoked := store.revoked.put (.capture name (.of manifest)) }
            change := some (.revoked name)
            answer := .ok true }

end

end

def setDisabled (store : AttachedStore) (name : String) (disabled : Bool) (answers : Answers) :
    Called (Except String Bool) :=
  match answers.opened with
  | .error e => ⟨store, none, .error e⟩
  | .ok () =>
    match store.modules.find name with
    | none => ⟨store, none, .ok false⟩
    | some record =>
      match answers.written with
      | .error e => ⟨store, none, .error e⟩
      | .ok () =>
        { store := { store with modules := store.modules.put { record with disabled } }
          change := some (.disabled name disabled)
          answer := .ok true }

inductive Call where
  | register (manifestYaml : String) (allowRelax : Bool) (nameTaken : String → Bool) (answers : Answers)
  | revoke (name : String) (answers : Answers)
  | setDisabled (name : String) (disabled : Bool) (answers : Answers)

def writeFile (P : Platform) (fromYaml : String → Except String DomainOsManifest) (store : AttachedStore) :
    Call → AttachedStore × Option Change
  | .register yaml allowRelax nameTaken answers =>
    let called := register P fromYaml store yaml allowRelax nameTaken answers
    (called.store, called.change)
  | .revoke name answers =>
    let called := revoke P fromYaml store name answers
    (called.store, called.change)
  | .setDisabled name disabled answers =>
    let called := setDisabled store name disabled answers
    (called.store, called.change)

end Agent24.Attach
