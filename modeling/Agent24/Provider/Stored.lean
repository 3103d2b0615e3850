import Agent24.JsonCodec
import Agent24.Os.Rpc
import Agent24.Provider.Replay
import Mathlib.Data.Finset.Sort

/-! How the records are stored: the JSON text of one write's changes, and what of a text reads as changes. -/

set_option autoImplicit false
namespace Agent24.Provider

/-- `serde_json` over texts. A text is read as a tree that keeps the order and the repetitions of its keys. -/
structure SerdeJson where
  print : Json → String
  parse : String → Option Json

mutual
/-- The `Value` of a tree: each key once, with its last entry, in key order. -/
def valueOf : Json → Json
  | .arr items => .arr (valueOfItems items)
  | .obj fields => .obj (valueOfFields [] fields)
  | .null => .null
  | .bool b => .bool b
  | .int n => .int n
  | .float text => .float text
  | .str text => .str text

def valueOfItems : List Json → List Json
  | [] => []
  | item :: rest => valueOf item :: valueOfItems rest

def valueOfFields (sofar : List (String × Json)) : List (String × Json) → List (String × Json)
  | [] => sofar
  | (key, value) :: rest => valueOfFields (Os.insertField key (valueOf value) sofar) rest
end

/-- The host's values, each stored as it serializes, and the order in which a set is written. -/
structure StoredIds (I : Ids) where
  profile : Codec I.Profile
  binding : Codec I.Binding
  run : Codec I.Run
  principal : Codec I.Principal
  identity : Codec I.Identity
  kb : Codec I.Kb
  sorted : Finset I.Kb → List I.Kb

/-- Each value is a string, an integer or a struct of them, and reads back to itself. -/
structure StoredIds.Faithful {I : Ids} (C : StoredIds I) : Prop where
  profile : ∀ p, C.profile.Back p
  binding : ∀ b, C.binding.Back b
  run : ∀ r, C.run.Back r
  principal : ∀ p, C.principal.Back p ∧ C.principal.Solid p
  identity : ∀ i, C.identity.Back i
  kb : ∀ k, C.kb.Back k
  sorted : ∀ kbs, (C.sorted kbs).toFinset = kbs

def VERSION : Nat := 1

def u64 : Codec Nat := .natBelow (2 ^ 64)

def u8 : Codec Octet := .fin (2 ^ 8)

/-! ## The stored shapes -/

def Confirmation.stored : Confirmation → String
  | .principalChanged => "principal_changed"
  | .unsavedSettings => "unsaved_settings"

def confirmationDef : Codec Confirmation :=
  .names [("principal_changed", .principalChanged), ("unsaved_settings", .unsavedSettings)] Confirmation.stored

def PlaceholderFailure.stored : PlaceholderFailure → String
  | .dependency => "dependency"
  | .credentialRejected => "credential_rejected"
  | .instanceUnidentified => "instance_unidentified"

def placeholderFailureDef : Codec PlaceholderFailure :=
  .names [("dependency", .dependency), ("credential_rejected", .credentialRejected),
    ("instance_unidentified", .instanceUnidentified)] PlaceholderFailure.stored

def StuckCause.stored : StuckCause → String
  | .incompatible => "incompatible"
  | .instanceUnidentified => "instance_unidentified"
  | .credentialRejected => "credential_rejected"
  | .accessRevoked => "access_revoked"

def stuckCauseDef : Codec StuckCause :=
  .names [("incompatible", .incompatible), ("instance_unidentified", .instanceUnidentified),
    ("credential_rejected", .credentialRejected), ("access_revoked", .accessRevoked)] StuckCause.stored

def kbsDef {K : Type} (kb : Codec K) : Codec (Kbs K) where
  write
    | .all => .str "all"
    | .one k => .tagged "one" (kb.write k)
  read := Variant.readEnum [("all", .unit .all), ("one", .data kb .one)]

def ruleDef {K : Type} (kb : Codec K) : Codec (Rule K) :=
  ((Fields.one "epoch" u64).and (.one "kbs" (kbsDef kb))).object.mirror (fun parts => ⟨parts.1, parts.2⟩)
    fun rule => (rule.epoch, rule.kbs)

section
variable {I : Ids} (C : StoredIds I)

def ofDef : Codec (Of I) :=
  ((Fields.one "profile" C.profile).and (.one "binding" C.binding)).object.mirror (fun parts => ⟨parts.1, parts.2⟩)
    fun of => (of.profile, of.binding)

/-! The fields of the struct variants. -/

def awaitFields : Fields (I.Profile × Confirmation) := (Fields.one "profile" C.profile).and
    (.one "awaited" confirmationDef)

def confirmFields : Fields (I.Profile × I.Principal × Confirmation) :=
  (Fields.one "profile" C.profile).and ((Fields.one "principal" C.principal).and (.one "awaited" confirmationDef))

def failureFields : Fields (I.Profile × PlaceholderFailure) :=
  (Fields.one "profile" C.profile).and (.one "failure" placeholderFailureDef)

def ofFields {α : Type} (name : String) (c : Codec α) : Fields (Of I × α) := (Fields.one "of" (ofDef C)).and
    (.one name c)

def bindFields : Fields (Of I × I.Identity × Generation × Option I.Principal) :=
  (Fields.one "of" (ofDef C)).and ((Fields.one "identity" C.identity).and
    ((Fields.one "generation" (.fin (2 ^ 64))).and (.opt "confirmed" C.principal)))

def runUnboundFields : Fields (I.Run × List I.Profile) :=
  (Fields.one "run" C.run).and (.one "profiles" C.profile.list)

def runBoundFields : Fields (I.Run × List (Of I) × List (I.Profile × I.Identity)) :=
  (Fields.one "run" C.run).and ((Fields.one "bindings" (ofDef C).list).and
    (.one "candidates" (C.profile.pair C.identity).list))

def runBackfilledFields : Fields (I.Run × Of I) := (Fields.one "run" C.run).and (.one "of" (ofDef C))

def questionedFields : Fields (Of I × Finset I.Kb × Nat × Option Octet) :=
  (Fields.one "of" (ofDef C)).and ((Fields.one "kbs" (C.kb.set C.sorted)).and
    ((Fields.one "version" u64).and (.opt "timeouts" u8)))

def releasedFields : Fields (Of I × Finset I.Kb × Nat) :=
  (Fields.one "of" (ofDef C)).and ((Fields.one "kbs" (C.kb.set C.sorted)).and (.one "version" u64))

/-- `ChangeDef`'s `Serialize`. -/
def changeTree : Change I → Json
  | .off => .str "off"
  | .on => .str "on"
  | .prompt => .str "prompt"
  | .promptConfirmed => .str "prompt_confirmed"
  | .disable p => .tagged "disable" (C.profile.write p)
  | .enable p => .tagged "enable" (C.profile.write p)
  | .unselect p => .tagged "unselect" (C.profile.write p)
  | .select p => .tagged "select" (C.profile.write p)
  | .await p awaited => .tagged "await" ((awaitFields C).object.write (p, awaited))
  | .confirm p principal awaited => .tagged "confirm" ((confirmFields C).object.write (p, principal, awaited))
  | .placeholderFailed p failure => .tagged "placeholder_failed" ((failureFields C).object.write (p, failure))
  | .placeholderCleared p failure => .tagged "placeholder_cleared" ((failureFields C).object.write (p, failure))
  | .remove p => .tagged "remove" (C.profile.write p)
  | .retire of => .tagged "retire" ((ofDef C).write of)
  | .bind of identity generation confirmed =>
    .tagged "bind" ((bindFields C).object.write (of, identity, generation, confirmed))
  | .generation of value => .tagged "generation" ((ofFields C "value" (.fin (2 ^ 64))).object.write (of, value))
  | .servable of => .tagged "servable" ((ofDef C).write of)
  | .logout of => .tagged "logout" ((ofDef C).write of)
  | .relogin of => .tagged "relogin" ((ofDef C).write of)
  | .revoked of => .tagged "revoked" ((ofDef C).write of)
  | .stuck of cause => .tagged "stuck" ((ofFields C "cause" stuckCauseDef).object.write (of, cause))
  | .unstuck of cause => .tagged "unstuck" ((ofFields C "cause" stuckCauseDef).object.write (of, cause))
  | .runUnbound run profiles => .tagged "run_unbound" ((runUnboundFields C).object.write (run, profiles))
  | .runBound run bindings candidates =>
    .tagged "run_bound" ((runBoundFields C).object.write (run, bindings, candidates))
  | .runBackfilled run of => .tagged "run_backfilled" ((runBackfilledFields C).object.write (run, of))
  | .placed of rule => .tagged "placed" ((ofFields C "rule" (ruleDef C.kb)).object.write (of, rule))
  | .questioned of kbs version timeouts =>
    .tagged "questioned" ((questionedFields C).object.write (of, kbs, version, timeouts))
  | .released of kbs version => .tagged "released" ((releasedFields C).object.write (of, kbs, version))
  | .timedOut of count => .tagged "timed_out" ((ofFields C "count" u8).object.write (of, count))
  | .timeoutsCleared of earlier => .tagged "timeouts_cleared" ((ofFields C "from" u8).object.write (of, earlier))
  | .timeoutsRestored of count => .tagged "timeouts_restored" ((ofFields C "count" u8).object.write (of, count))
  | .tombstone of kb => .tagged "tombstone" ((ofFields C "kb" C.kb).object.write (of, kb))
  | .tombstoneWithdrawn of kb => .tagged "tombstone_withdrawn" ((ofFields C "kb" C.kb).object.write (of, kb))
  | .seen of kbs => .tagged "seen" ((ofFields C "kbs" (C.kb.set C.sorted)).object.write (of, kbs))
  | .unseen of kbs => .tagged "unseen" ((ofFields C "kbs" (C.kb.set C.sorted)).object.write (of, kbs))
  | .started => .str "started"
  | .shutdown => .str "shutdown"

/-- `ChangeDef`'s `Deserialize`, variant by variant. -/
def changeVariants : List (String × Variant (Change I)) :=
  [("off", .unit .off),
    ("on", .unit .on),
    ("prompt", .unit .prompt),
    ("prompt_confirmed", .unit .promptConfirmed),
    ("disable", .data C.profile .disable),
    ("enable", .data C.profile .enable),
    ("unselect", .data C.profile .unselect),
    ("select", .data C.profile .select),
    ("await", .data (awaitFields C).object fun a => .await a.1 a.2),
    ("confirm", .data (confirmFields C).object fun a => .confirm a.1 a.2.1 a.2.2),
    ("placeholder_failed", .data (failureFields C).object fun a => .placeholderFailed a.1 a.2),
    ("placeholder_cleared", .data (failureFields C).object fun a => .placeholderCleared a.1 a.2),
    ("remove", .data C.profile .remove),
    ("retire", .data (ofDef C) .retire),
    ("bind", .data (bindFields C).object fun a => .bind a.1 a.2.1 a.2.2.1 a.2.2.2),
    ("generation", .data (ofFields C "value" (.fin (2 ^ 64))).object fun a => .generation a.1 a.2),
    ("servable", .data (ofDef C) .servable),
    ("logout", .data (ofDef C) .logout),
    ("relogin", .data (ofDef C) .relogin),
    ("revoked", .data (ofDef C) .revoked),
    ("stuck", .data (ofFields C "cause" stuckCauseDef).object fun a => .stuck a.1 a.2),
    ("unstuck", .data (ofFields C "cause" stuckCauseDef).object fun a => .unstuck a.1 a.2),
    ("run_unbound", .data (runUnboundFields C).object fun a => .runUnbound a.1 a.2),
    ("run_bound", .data (runBoundFields C).object fun a => .runBound a.1 a.2.1 a.2.2),
    ("run_backfilled", .data (runBackfilledFields C).object fun a => .runBackfilled a.1 a.2),
    ("placed", .data (ofFields C "rule" (ruleDef C.kb)).object fun a => .placed a.1 a.2),
    ("questioned", .data (questionedFields C).object fun a => .questioned a.1 a.2.1 a.2.2.1 a.2.2.2),
    ("released", .data (releasedFields C).object fun a => .released a.1 a.2.1 a.2.2),
    ("timed_out", .data (ofFields C "count" u8).object fun a => .timedOut a.1 a.2),
    ("timeouts_cleared", .data (ofFields C "from" u8).object fun a => .timeoutsCleared a.1 a.2),
    ("timeouts_restored", .data (ofFields C "count" u8).object fun a => .timeoutsRestored a.1 a.2),
    ("tombstone", .data (ofFields C "kb" C.kb).object fun a => .tombstone a.1 a.2),
    ("tombstone_withdrawn", .data (ofFields C "kb" C.kb).object fun a => .tombstoneWithdrawn a.1 a.2),
    ("seen", .data (ofFields C "kbs" (C.kb.set C.sorted)).object fun a => .seen a.1 a.2),
    ("unseen", .data (ofFields C "kbs" (C.kb.set C.sorted)).object fun a => .unseen a.1 a.2),
    ("started", .unit .started),
    ("shutdown", .unit .shutdown)]

def changeDef : Codec (Change I) where
  write := changeTree C
  read := Variant.readEnum (changeVariants C)

/-- `Body`. -/
def bodyFields : Fields (Nat × List (Change I)) :=
  (Fields.one "version" (.natBelow (2 ^ 32))).and (.one "changes" (changeDef C).list)

def bodyTree (changes : List (Change I)) : Json := (bodyFields C).object.write (VERSION, changes)

variable (S : SerdeJson)

def encode (changes : List (Change I)) : String := S.print (bodyTree C changes)

def decode (text : String) : Except Damaged (List (Change I)) :=
  let read := do
    let tree ← S.parse text
    let body ← (bodyFields C).object.read tree
    let again ← S.parse (encode C S body.2)
    if valueOf again = valueOf tree then some body.2 else none
  match read with
  | some changes => .ok changes
  | none => .error .damaged

end

/-! ## What reads back -/

def Change.Fits {I : Ids} : Change I → Prop
  | .placed _ rule => rule.epoch < 2 ^ 64
  | .questioned _ _ version _ | .released _ _ version => version < 2 ^ 64
  | _ => True

def changeNames : List String :=
  ["off", "on", "prompt", "prompt_confirmed", "disable", "enable", "unselect", "select", "await", "confirm",
    "placeholder_failed", "placeholder_cleared", "remove", "retire", "bind", "generation", "servable", "logout",
        "relogin",
    "revoked", "stuck", "unstuck", "run_unbound", "run_bound", "run_backfilled", "placed", "questioned", "released",
    "timed_out", "timeouts_cleared", "timeouts_restored", "tombstone", "tombstone_withdrawn", "seen", "unseen",
        "started",
    "shutdown"]

theorem changeNames_nodup : changeNames.Nodup := by decide +kernel

theorem confirmationDef_back (awaited : Confirmation) : confirmationDef.Back awaited := by
  cases awaited <;> exact Codec.names_back (by decide) (by decide)

theorem placeholderFailureDef_back (failure : PlaceholderFailure) : placeholderFailureDef.Back failure := by
  cases failure <;> exact Codec.names_back (by decide) (by decide)

theorem stuckCauseDef_back (cause : StuckCause) : stuckCauseDef.Back cause := by
  cases cause <;> exact Codec.names_back (by decide) (by decide)

theorem kbsDef_back {K : Type} {kb : Codec K} (back : ∀ k, kb.Back k) (kbs : Kbs K) : (kbsDef kb).Back kbs := by
  have distinct : ["all", "one"].Nodup := by decide
  cases kbs with
  | all => exact Variant.readEnum_unit distinct (List.mem_of_getElem? (i := 0) rfl)
  | one k => exact Variant.readEnum_data distinct (List.mem_of_getElem? (i := 1) rfl) (back k)

theorem ruleDef_back {K : Type} {kb : Codec K} (back : ∀ k, kb.Back k) {rule : Rule K} (fits : rule.epoch < 2 ^ 64) :
    (ruleDef kb).Back rule := by
  have distinct : ["epoch", "kbs"].Nodup := by decide
  exact Codec.mirror_back rfl (Fields.object_back distinct
    (Fields.and_back (Fields.one_back (Codec.natBelow_back fits)) (Fields.one_back (kbsDef_back back rule.kbs))))

section
variable {I : Ids} {C : StoredIds I} (faithful : C.Faithful)

include faithful

theorem ofDef_back (of : Of I) : (ofDef C).Back of := by
  have distinct : ["profile", "binding"].Nodup := by decide
  exact Codec.mirror_back rfl (Fields.object_back distinct
    (Fields.and_back (Fields.one_back (faithful.profile of.profile)) (Fields.one_back (faithful.binding of.binding))))

theorem ofFields_back {α : Type} {name : String} {c : Codec α} {of : Of I} {a : α} (other : "of" ≠ name)
    (back : c.Back a) : (ofFields C name c).object.Back (of, a) := by
  have distinct : ["of", name].Nodup := by simp [other]
  exact Fields.object_back distinct (Fields.and_back (Fields.one_back (ofDef_back faithful of))
      (Fields.one_back back))

theorem kbSet_back (kbs : Finset I.Kb) : (C.kb.set C.sorted).Back kbs :=
  Codec.set_back (faithful.sorted kbs) fun k _ => faithful.kb k

theorem changeDef_back {change : Change I} (fits : change.Fits) : (changeDef C).Back change := by
  have distinct : ((changeVariants C).map Prod.fst).Nodup := changeNames_nodup
  have of_ := ofDef_back faithful
  have profile := faithful.profile
  have sets := kbSet_back faithful
  have unit (i : Nat) {name : String} {change : Change I}
      (listed : (changeVariants C)[i]? = some (name, .unit change)) :=
    Variant.readEnum_unit distinct (List.mem_of_getElem? listed)
  have data (i : Nat) {name : String} {α : Type} {codec : Codec α} {make : α → Change I} {a : α}
      (listed : (changeVariants C)[i]? = some (name, .data codec make)) (back : codec.Back a) :=
    Variant.readEnum_data distinct (List.mem_of_getElem? listed) back
  cases change with
  | off => exact unit 0 rfl
  | on => exact unit 1 rfl
  | prompt => exact unit 2 rfl
  | promptConfirmed => exact unit 3 rfl
  | disable p => exact data 4 rfl (profile p)
  | enable p => exact data 5 rfl (profile p)
  | unselect p => exact data 6 rfl (profile p)
  | select p => exact data 7 rfl (profile p)
  | await p awaited =>
    have names : ["profile", "awaited"].Nodup := by decide
    have back : (awaitFields C).Back (p, awaited) :=
      Fields.and_back (Fields.one_back (profile p)) (Fields.one_back (confirmationDef_back awaited))
    exact data 8 rfl (Fields.object_back names back)
  | confirm p principal awaited =>
    have names : ["profile", "principal", "awaited"].Nodup := by decide
    have back : (confirmFields C).Back (p, principal, awaited) :=
      Fields.and_back (Fields.one_back (profile p))
          (Fields.and_back (Fields.one_back (faithful.principal principal).1)
        (Fields.one_back (confirmationDef_back awaited)))
    exact data 9 rfl (Fields.object_back names back)
  | placeholderFailed p failure =>
    have names : ["profile", "failure"].Nodup := by decide
    have back : (failureFields C).Back (p, failure) :=
      Fields.and_back (Fields.one_back (profile p)) (Fields.one_back (placeholderFailureDef_back failure))
    exact data 10 rfl (Fields.object_back names back)
  | placeholderCleared p failure =>
    have names : ["profile", "failure"].Nodup := by decide
    have back : (failureFields C).Back (p, failure) :=
      Fields.and_back (Fields.one_back (profile p)) (Fields.one_back (placeholderFailureDef_back failure))
    exact data 11 rfl (Fields.object_back names back)
  | remove p => exact data 12 rfl (profile p)
  | retire of => exact data 13 rfl (of_ of)
  | bind of identity generation confirmed =>
    have names : ["of", "identity", "generation", "confirmed"].Nodup := by decide
    have back : (bindFields C).Back (of, identity, generation, confirmed) :=
      Fields.and_back (Fields.one_back (of_ of)) (Fields.and_back (Fields.one_back (faithful.identity identity))
        (Fields.and_back (Fields.one_back (Codec.fin_back generation))
          (Fields.opt_back fun p _ => faithful.principal p)))
    exact data 14 rfl (Fields.object_back names back)
  | generation of value => exact data 15 rfl (ofFields_back faithful (by decide) (Codec.fin_back value))
  | servable of => exact data 16 rfl (of_ of)
  | logout of => exact data 17 rfl (of_ of)
  | relogin of => exact data 18 rfl (of_ of)
  | revoked of => exact data 19 rfl (of_ of)
  | stuck of cause => exact data 20 rfl (ofFields_back faithful (by decide) (stuckCauseDef_back cause))
  | unstuck of cause => exact data 21 rfl (ofFields_back faithful (by decide) (stuckCauseDef_back cause))
  | runUnbound run profiles =>
    have names : ["run", "profiles"].Nodup := by decide
    have back : (runUnboundFields C).Back (run, profiles) :=
      Fields.and_back (Fields.one_back (faithful.run run)) (Fields.one_back (Codec.list_back fun p _ => profile p))
    exact data 22 rfl (Fields.object_back names back)
  | runBound run bindings candidates =>
    have names : ["run", "bindings", "candidates"].Nodup := by decide
    have back : (runBoundFields C).Back (run, bindings, candidates) :=
      Fields.and_back (Fields.one_back (faithful.run run)) (Fields.and_back
        (Fields.one_back (Codec.list_back fun of _ => of_ of))
        (Fields.one_back (Codec.list_back fun both _ => Codec.pair_back (profile both.1) (faithful.identity both.2))))
    exact data 23 rfl (Fields.object_back names back)
  | runBackfilled run of =>
    have names : ["run", "of"].Nodup := by decide
    have back : (runBackfilledFields C).Back (run, of) :=
      Fields.and_back (Fields.one_back (faithful.run run)) (Fields.one_back (of_ of))
    exact data 24 rfl (Fields.object_back names back)
  | placed of rule => exact data 25 rfl (ofFields_back faithful (by decide) (ruleDef_back faithful.kb fits))
  | questioned of kbs version timeouts =>
    have names : ["of", "kbs", "version", "timeouts"].Nodup := by decide
    have counts : ∀ n : Octet, u8.Back n ∧ u8.Solid n := fun n => ⟨Codec.fin_back n, fun same => by cases same⟩
    have back : (questionedFields C).Back (of, kbs, version, timeouts) :=
      Fields.and_back (Fields.one_back (of_ of)) (Fields.and_back (Fields.one_back (sets kbs))
        (Fields.and_back (Fields.one_back (Codec.natBelow_back fits)) (Fields.opt_back fun n _ => counts n)))
    exact data 26 rfl (Fields.object_back names back)
  | released of kbs version =>
    have names : ["of", "kbs", "version"].Nodup := by decide
    have back : (releasedFields C).Back (of, kbs, version) :=
      Fields.and_back (Fields.one_back (of_ of)) (Fields.and_back (Fields.one_back (sets kbs))
        (Fields.one_back (Codec.natBelow_back fits)))
    exact data 27 rfl (Fields.object_back names back)
  | timedOut of count => exact data 28 rfl (ofFields_back faithful (by decide) (Codec.fin_back count))
  | timeoutsCleared of earlier => exact data 29 rfl (ofFields_back faithful (by decide) (Codec.fin_back earlier))
  | timeoutsRestored of count => exact data 30 rfl (ofFields_back faithful (by decide) (Codec.fin_back count))
  | tombstone of kb => exact data 31 rfl (ofFields_back faithful (by decide) (faithful.kb kb))
  | tombstoneWithdrawn of kb => exact data 32 rfl (ofFields_back faithful (by decide) (faithful.kb kb))
  | seen of kbs => exact data 33 rfl (ofFields_back faithful (by decide) (sets kbs))
  | unseen of kbs => exact data 34 rfl (ofFields_back faithful (by decide) (sets kbs))
  | started => exact unit 35 rfl
  | shutdown => exact unit 36 rfl

theorem bodyTree_back {changes : List (Change I)} (fits : ∀ change ∈ changes, change.Fits) :
    (bodyFields C).object.Back (VERSION, changes) := by
  have names : ["version", "changes"].Nodup := by decide
  exact Fields.object_back names (Fields.and_back (Fields.one_back (Codec.natBelow_back (by decide)))
    (Fields.one_back (Codec.list_back fun change member => changeDef_back faithful (fits change member))))

end

section
variable {I : Ids} {C : StoredIds I} {S : SerdeJson} {changes : List (Change I)} {text : String}

theorem decode_ok (accepted : decode C S text = .ok changes) :
    ∃ tree again, S.parse text = some tree ∧ S.parse (encode C S changes) = some again ∧
        valueOf tree = valueOf again := by
  unfold decode at accepted
  dsimp only at accepted
  split at accepted
  next found read =>
    cases accepted
    obtain ⟨tree, parsed, read⟩ := Option.bind_eq_some_iff.mp read
    obtain ⟨body, -, read⟩ := Option.bind_eq_some_iff.mp read
    obtain ⟨again, printed, read⟩ := Option.bind_eq_some_iff.mp read
    split at read
    next same =>
      cases read
      exact ⟨tree, again, parsed, printed, same.symm⟩
    · cases read
  · cases accepted

end

/-- What was written reads back as it was, whatever its kinds; and no other JSON value reads at all, however a text
spells it. -/
theorem stored_exact {I : Ids} (C : StoredIds I) (S : SerdeJson) (faithful : C.Faithful) :
    (∀ changes : List (Change I), (∀ change ∈ changes, change.Fits) →
      S.parse (encode C S changes) = some (bodyTree C changes) → decode C S (encode C S changes) = .ok changes) ∧
    ∀ text (changes : List (Change I)), decode C S text = .ok changes →
      ∃ tree again, S.parse text = some tree ∧ S.parse (encode C S changes) = some again ∧
        valueOf tree = valueOf again := by
  constructor
  · intro changes fits reads
    have back : (bodyFields C).object.read (bodyTree C changes) = some (VERSION, changes) :=
        bodyTree_back faithful fits
    simp [decode, reads, back]
  · intro text changes accepted
    exact decode_ok accepted

def numberCodec : Codec Nat where
  write n := .int n
  read
    | .int n => if 0 ≤ n then some n.toNat else none
    | _ => none

theorem numberCodec_back (n : Nat) : numberCodec.Back n ∧ numberCodec.Solid n := by
  refine ⟨?_, fun same => by cases same⟩
  change (if 0 ≤ (n : Int) then some (n : Int).toNat else none) = some n
  rw [if_pos (Int.natCast_nonneg n), Int.toNat_natCast]

def numberIds : StoredIds Ids.numbers :=
  ⟨numberCodec, numberCodec, numberCodec, numberCodec, numberCodec, numberCodec, fun kbs => kbs.sort (· ≤ ·)⟩

theorem numberIds_faithful : numberIds.Faithful where
  profile p := (numberCodec_back p).1
  binding b := (numberCodec_back b).1
  run r := (numberCodec_back r).1
  principal := numberCodec_back
  identity i := (numberCodec_back i).1
  kb k := (numberCodec_back k).1
  sorted kbs := Finset.sort_toFinset kbs (· ≤ ·)

def sampleChanges : List (Change Ids.numbers) :=
  [.bind ⟨1, 2⟩ 3 4 (some 5), .questioned ⟨1, 2⟩ {8, 7} 9 none, .runBound 6 [⟨1, 2⟩] [(1, 3)]]

def sampleSerde : SerdeJson where
  print := Json.render
  parse text := if text = Json.render (bodyTree numberIds sampleChanges) then some
      (bodyTree numberIds sampleChanges) else none

theorem sampleChanges_stored :
    decode numberIds sampleSerde (encode numberIds sampleSerde sampleChanges) = .ok sampleChanges := by
  refine (stored_exact numberIds sampleSerde numberIds_faithful).1 sampleChanges ?_ (if_pos rfl)
  intro change member
  simp only [sampleChanges, List.mem_cons, List.not_mem_nil, or_false] at member
  rcases member with rfl | rfl | rfl
  · exact trivial
  · exact show 9 < 2 ^ 64 by decide
  · exact trivial

end Agent24.Provider
