import Agent24.Capability.BearerRuns
import Agent24.Json

/-! Elevation grants: what the user was shown, and what a grant is used for, across every interleaving. -/

set_option autoImplicit false
namespace Agent24.Capability
open Library

/-! The summaries of rejected requests, one per token. -/

/-- What `remember_attached_request` reads of a request body. -/
structure AttachedRequest where
  name : String
  allowRelax : Bool
  modelAccess : String
  kernelCapabilities : List String
  hostCommands : List String

/-- What `remember_idoris_request` reads of a connect request. -/
structure ConnectRequest where
  endpoint : String
  dailyModel : String
  deepModel : Option String
  sharesKey : Bool
  saveKey : Bool
  replace : Bool
  coreReservedBytes : Option Nat

abbrev Body := List UInt8

/-- What the daemon takes from outside its own sources to read a body. -/
structure BodyReader where
  /-- `body_digest`: SHA-256 in lowercase hexadecimal. -/
  digest : Body → String
  /-- The request's JSON and its manifest, where both can be read. -/
  attached : Body → Option AttachedRequest
  install : Body → Option Bool
  connect : Body → Option ConnectRequest
  /-- A control, format or separator character, or whitespace that is no plain space. -/
  hidden : Char → Bool

def shownMaxChars : Nat := 120

def fillers : List Nat := [0x3164, 0x2800, 0x115F, 0x1160, 0xFFA0]

section
variable (reader : BodyReader)

/-- A request-supplied string as a summary shows it, where it can be shown faithfully. -/
def shown (value : String) : Option String :=
  let hides := fun c : Char => reader.hidden c || fillers.contains c.toNat || (0xFE00 ≤ c.toNat && c.toNat ≤ 0xFE0F)
  if shownMaxChars < value.length ∨ value.toList.any hides then none else some (Json.render (.str value))

def boolText (value : Bool) : String := if value then "true" else "false"

def attachedSummary (body : AttachedRequest) (registered : List String) : String :=
  "register attached module '" ++ body.name ++ "'; " ++
    (if registered.contains body.name then "replace existing registration" else "new registration") ++
    "; allow_relax: " ++ boolText body.allowRelax ++ "; model_access: " ++ body.modelAccess ++
    "; kernel_capabilities: [" ++ ", ".intercalate body.kernelCapabilities ++ "]; host_commands: [" ++
    ", ".intercalate body.hostCommands ++ "]"

def installSummary (consent : Bool) : String :=
  "install the locked iDoris release (downloads and runs software after integrity and signature checks); consent: " ++
    boolText consent

def connectSummary (body : ConnectRequest) : Option String := do
  let endpoint ← shown reader body.endpoint
  let daily ← shown reader body.dailyModel
  let deep ← body.deepModel.elim (some "none") (shown reader)
  pure ("connect iDoris to oMLX at " ++ endpoint ++ "; daily model: " ++ daily ++ "; deep model: " ++ deep ++
    "; share the local oMLX credential with iDoris: " ++ boolText body.sharesKey ++
    "; save oMLX credential: " ++ boolText body.saveKey ++ "; replace existing connection: " ++ boolText body.replace ++
    "; core reserved bytes: " ++ body.coreReservedBytes.elim "daemon allocation" toString)

def bodySummary (template : String) (body : Body) (registered : List String) : Option String :=
  if template = "/api/v1/attached" then (reader.attached body).map (attachedSummary · registered)
  else if template = "/api/v1/idoris/install" then (reader.install body).map installSummary
  else if template = "/api/v1/idoris/connect" then (reader.connect body).bind (connectSummary reader)
  else none

/-- A presence summary derived from a rejected request, kept until the matching `elevate` arrives. -/
structure RequestSummary where
  tokenId : String
  target : Target
  summary : String
  expiresAt : Nat

abbrev Summaries := Table RequestSummary.tokenId

def soonest : List RequestSummary → Option RequestSummary
  | [] => none
  | s :: rest =>
    match soonest rest with
    | none => some s
    | some other => some (if other.expiresAt < s.expiresAt then other else s)

/-- `remember`: one summary per token, and never more than 128 of them. -/
def remember (summaries : Summaries) (tokenId : String) (target : Target) (summary : String)
    (now : Nat) : Summaries :=
  if summaryMaxUtf16 < utf16Length summary then summaries
  else
    let current := summaries.deleteWhere fun s => decide (s.expiresAt ≤ now)
    let room := if 128 ≤ current.rows.length then
        (soonest current.rows).elim current fun s => current.remove s.tokenId
      else current
    room.put ⟨tokenId, target, summary, now + seconds grantTtl⟩

def requestTarget (template : String) (body : Body) : Target where
  operation := if template = "/api/v1/attached" then .moduleAdmin else .idorisLifecycle
  method := "POST"
  template := template
  path := template
  bodySha256 := reader.digest body

/-- `remember_attached_request` and `remember_idoris_request`. -/
def rememberRequest (summaries : Summaries) (tokenId template : String) (body : Body) (registered : List String)
    (now : Nat) : Summaries :=
  match bodySummary reader template body registered with
  | none => summaries
  | some summary => remember summaries tokenId (requestTarget reader template body) summary now

structure ModuleSurface where
  name : String
  version : String
  namespace_ : String
  routesSha256 : String

/-- The routes whose summary comes from a rejected request's body. -/
def fromBody (template : String) : Bool :=
  template == "/api/v1/attached" || template == "/api/v1/idoris/install" || template == "/api/v1/idoris/connect"

def stripSuffix (tail text : String) : Option String :=
  if tail.toList.isSuffixOf text.toList then some (String.ofList (text.toList.take
      (text.length - tail.length))) else none

def isHexDigit (c : Char) : Bool := c.isDigit || ('a' ≤ c && c ≤ 'f') || ('A' ≤ c && c ≤ 'F')

def delegationSummary (surfaces : List ModuleSurface) (path : String) : Option String := do
  let name ← (Text.strip "/api/v1/os/" path).bind (stripSuffix "/delegation")
  let surface ← surfaces.find? fun s => s.name == name
  if surface.routesSha256.utf8ByteSize ≠ 64 || !surface.routesSha256.toList.all isHexDigit then none
  else pure ("delegate module '" ++ surface.name ++ "'; version: " ++ surface.version ++ "; namespace: " ++
    surface.namespace_ ++ "; routes_sha256: " ++ Text.take 12 surface.routesSha256)

def targetSummary (summaries : Summaries) (surfaces : List ModuleSurface) (tokenId : String) (target : Target)
    (now : Nat) :
    Option String :=
  if fromBody target.template then
    ((summaries.find tokenId).filter fun s => decide (now < s.expiresAt) && decide (s.target = target)).map
      RequestSummary.summary
  else if target.bodySha256 ≠ reader.digest [] then none
  else if target.template = "/api/v1/idoris/start" then some "start managed iDoris"
  else if target.template = "/api/v1/idoris/stop" then some "stop managed iDoris"
  else if target.template = "/api/v1/idoris/omlx/candidates" then
    some "list local oMLX endpoints, their identity, authentication and model IDs"
  else if target.template = "/api/v1/idoris/operations/\x7bid\x7d/cancel" then
    (((Text.strip "/api/v1/idoris/operations/" target.path).bind (stripSuffix "/cancel")).bind (shown reader)).map
      ("cancel iDoris operation " ++ ·)
  else delegationSummary surfaces target.path

end

/-! Runs, with a log of what was received, shown, allowed, granted and used. -/

def wantsTo (peer : EnrolledPeer) (details : String) : String :=
  peer.identity.identifier ++ " (pid " ++ toString peer.pid ++ ") wants to: " ++ details

inductive Entry where
  | received (tokenId : String) (target : Target) (summary : String) (body : Body) (at_ : Nat)
  | challenged (task : Nat) (peer : EnrolledPeer) (tokenId : String) (target : Target) (details : String) (at_ : Nat)
  | allowed (task : Nat) (at_ : Nat)
  | granted (task : Nat) (secret : Token) (tokenId : String) (target : Target) (at_ : Nat)
  | consumed (secret : Token) (tokenId : String) (target : Target) (at_ : Nat)

def Entry.challenges (task : Nat) : Entry → Bool
  | .challenged other .. => other == task
  | _ => false

def Entry.spends (digest : Token → Digest) (secret : Digest) : Entry → Bool
  | .consumed token .. => digest token == secret
  | _ => false

structure Authority where
  world : World
  summaries : Summaries
  surfaces : List ModuleSurface
  log : List Entry

def Authority.start (clock : Clock) : Authority := ⟨.start clock, .empty, [], []⟩

inductive Call where
  | bearer (move : Move)
  | surfaces (surfaces : List ModuleSurface)
  | rejected (tokenId template : String) (body : Body) (registered : List String)
  | elevate (task : Nat) (peer : EnrolledPeer) (tokenId : String) (request : ElevateRequest) (challengeId : String)
      (alive : Liveness)

section
variable (digest : Token → Digest) (daemon : String) (docked : Bool) (reader : BodyReader)

def entries (w : World) (move : Move) : List Entry :=
  let now := w.clock.instant
  match move, reply digest daemon docked w move with
  | .answered task _ _, .cleared => [.allowed task now]
  | .granted task secret, .granted tokenId target => [.granted task secret tokenId target now]
  | .consume secret tokenId target _, .consumed =>
    (parseBearer secret).elim [] fun token => [.consumed token tokenId target now]
  | _, _ => []

def Move.elevates : Move → Bool
  | .elevate .. => true
  | _ => false

def authorityStep (a : Authority) : Call → Authority
  | .bearer move =>
    if move.elevates then a
    else { a with
      world := step digest daemon docked a.world move
      log := entries digest daemon docked a.world move ++ a.log }
  | .surfaces surfaces => { a with surfaces := surfaces }
  | .rejected tokenId template body registered =>
    let now := a.world.clock.instant
    { a with
      summaries := rememberRequest reader a.summaries tokenId template body registered now
      log := match bodySummary reader template body registered with
        | none => a.log
        | some summary => .received tokenId (requestTarget reader template body) summary body now :: a.log }
  | .elevate task peer tokenId request challengeId alive =>
    let now := a.world.clock.instant
    let details := fun target => targetSummary reader a.summaries a.surfaces tokenId target now
    let move := .elevate task peer tokenId request details challengeId alive
    let world := step digest daemon docked a.world move
    { a with
      world := world
      log := match reply digest daemon docked a.world move, world.elevations.find task with
        | .challenged, some e =>
          (details e.target).elim a.log fun text => .challenged task peer tokenId e.target text now :: a.log
        | _, _ => a.log }

section
variable (log : List Entry)

structure Challenged (task : Nat) (tokenId : String) (target : Target) (at_ : Nat) : Prop where
  split : ∃ newest older peer details, log = newest ++ .challenged task peer tokenId target details at_ :: older ∧
    ∀ entry ∈ newest, entry.challenges task = false

/-- The log has the user's permission of an elevation, within its time. -/
structure Allowed (task : Nat) (tokenId : String) (target : Target) : Prop where
  split : ∃ newest older allowedAt challengedAt, log = newest ++ .allowed task allowedAt :: older ∧
    (∀ entry ∈ newest, entry.challenges task = false) ∧ Challenged older task tokenId target challengedAt ∧
    allowedAt < challengedAt + seconds grantTtl

structure Granted (secret : Digest) (tokenId : String) (target : Target) (at_ : Nat) : Prop where
  split : ∃ newest older task token, log = newest ++ .granted task token tokenId target at_ :: older ∧
    digest token = secret ∧ ∀ entry ∈ newest, entry.spends digest secret = false

structure Received (tokenId : String) (target : Target) (summary : String) (at_ : Nat) : Prop where
  split : ∃ newest older body, log = newest ++ .received tokenId target summary body at_ :: older

end

/-- What every entry of the log rests on among those before it. -/
def Right (earlier : List Entry) : Entry → Prop
  | .received _ target summary body _ =>
    target.bodySha256 = reader.digest body ∧ ∃ registered,
        bodySummary reader target.template body registered = some summary
  | .challenged _ peer tokenId target details at_ =>
    utf16Length (wantsTo peer details) ≤ summaryMaxUtf16 ∧ (fromBody target.template = true →
      ∃ receivedAt, Received earlier tokenId target details receivedAt ∧ at_ < receivedAt + seconds grantTtl)
  | .allowed task at_ =>
    ∃ tokenId target challengedAt, Challenged earlier task tokenId target challengedAt ∧
      at_ < challengedAt + seconds grantTtl
  | .granted task _ tokenId target _ => Allowed earlier task tokenId target
  | .consumed token tokenId target at_ =>
    ∃ grantedAt, Granted digest earlier (digest token) tokenId target grantedAt ∧ at_ < grantedAt + seconds grantTtl

def Pending (log : List Entry) (e : Elevation) : Prop :=
  if e.cleared then Allowed log e.task e.tokenId e.target
  else ∃ challengedAt, Challenged log e.task e.tokenId e.target challengedAt ∧
    e.deadline = challengedAt + seconds grantTtl

structure Traced (a : Authority) : Prop where
  justified : Justified (Right digest reader) a.log
  summaries : ∀ tokenId s, a.summaries.find tokenId = some s →
    ∃ receivedAt, Received a.log tokenId s.target s.summary receivedAt ∧ s.expiresAt = receivedAt + seconds grantTtl
  elevations : ∀ task e, a.world.elevations.find task = some e → Pending a.log e
  grants : ∀ d g, a.world.grants.find d = some g →
    ∃ grantedAt, Granted digest a.log d g.tokenId g.target grantedAt ∧ g.expiresAt = grantedAt + seconds grantTtl

end

section
variable {digest : Token → Digest} {daemon : String} {docked : Bool} {reader : BodyReader}
variable {log : List Entry} {entry : Entry} {task : Nat} {tokenId : String} {target : Target} {at_ : Nat}

theorem Challenged.cons (challenged : Challenged log task tokenId target at_)
    (other : entry.challenges task = false) :
    Challenged (entry :: log) task tokenId target at_ := by
  obtain ⟨newest, older, peer, details, rfl, none_⟩ := challenged.split
  exact ⟨entry :: newest, older, peer, details, rfl, List.forall_mem_cons.mpr ⟨other, none_⟩⟩

theorem Allowed.cons (allowed : Allowed log task tokenId target) (other : entry.challenges task = false) :
    Allowed (entry :: log) task tokenId target := by
  obtain ⟨newest, older, allowedAt, challengedAt, rfl, none_, challenged, within⟩ := allowed.split
  exact ⟨entry :: newest, older, allowedAt, challengedAt, rfl, List.forall_mem_cons.mpr ⟨other, none_⟩, challenged,
      within⟩

theorem Granted.cons {d : Digest} (granted : Granted digest log d tokenId target at_)
    (other : entry.spends digest d = false) : Granted digest (entry :: log) d tokenId target at_ := by
  obtain ⟨newest, older, task, token, rfl, same, none_⟩ := granted.split
  exact ⟨entry :: newest, older, task, token, rfl, same, List.forall_mem_cons.mpr ⟨other, none_⟩⟩

theorem Received.cons {summary : String} (received : Received log tokenId target summary at_) (entry : Entry) :
    Received (entry :: log) tokenId target summary at_ := by
  obtain ⟨newest, older, body, rfl⟩ := received.split
  exact ⟨entry :: newest, older, body, rfl⟩

theorem Pending.cons {e : Elevation} (pending : Pending log e) (other : entry.challenges e.task = false) :
    Pending (entry :: log) e := by
  unfold Pending at pending ⊢
  split
  next cleared =>
    rw [if_pos cleared] at pending
    exact pending.cons other
  next waiting =>
    rw [if_neg waiting] at pending
    obtain ⟨challengedAt, challenged, deadline⟩ := pending
    exact ⟨challengedAt, challenged.cons other, deadline⟩

theorem Traced.cons {a : Authority} (traced : Traced digest reader a) (entry : Entry)
    (quiet : ∀ task e, a.world.elevations.find task = some e → entry.challenges e.task = false)
    (unspent : ∀ d g, a.world.grants.find d = some g → entry.spends digest d = false)
    (right : Right digest reader a.log entry) : Traced digest reader { a with log := entry :: a.log } where
  justified := ⟨right, traced.justified⟩
  summaries := fun id s found => by
    obtain ⟨at_, received, expires⟩ := traced.summaries id s found
    exact ⟨at_, received.cons entry, expires⟩
  elevations := fun task e found => (traced.elevations task e found).cons (quiet task e found)
  grants := fun d g found => by
    obtain ⟨at_, granted, expires⟩ := traced.grants d g found
    exact ⟨at_, granted.cons (unspent d g found), expires⟩

theorem Traced.change {a : Authority} (traced : Traced digest reader a) (world : World)
    (elevations : ∀ task e, world.elevations.find task = some e → Pending a.log e)
    (grants : ∀ d g, world.grants.find d = some g → a.world.grants.find d = some g) :
    Traced digest reader { a with world := world } :=
  ⟨traced.justified, traced.summaries, elevations, fun d g found => traced.grants d g (grants d g found)⟩

/-! What the calls of an elevation do. -/

theorem elevate_ok {s after : State} {peer : EnrolledPeer} {id : String} {request : ElevateRequest}
    {details : Target → Option String} {challengeId : String} {clock : Clock} {alive : Liveness} {e : Elevation}
    (ok : elevate daemon s task peer id request details challengeId clock alive = (.ok e, after)) :
    ∃ target text, details target = some text ∧ utf16Length (wantsTo peer text) ≤ summaryMaxUtf16 ∧
      e = ⟨task, peer, id, target, challengeId, clock.instant + seconds grantTtl, false⟩ := by
  unfold elevate at ok
  split at ok
  · cases ok
  split at ok
  · cases ok
  split at ok
  · cases ok
  rename_i target _ _ text shows
  split at ok
  · cases ok
  rename_i fits
  cases ok
  exact ⟨_, text, shows, Nat.le_of_not_lt fits, rfl⟩

theorem elevateAnswered_ok {s after : State} {e : Elevation} {outcome : Option PresenceOutcome} {clock : Clock}
    {alive : Liveness} (ok : elevateAnswered daemon s e outcome clock alive = (.ok (), after)) :
    outcome = some .allowed ∧ clock.instant < e.deadline := by
  unfold elevateAnswered at ok
  split at ok
  next => cases ok
  next => cases ok
  next => cases ok
  next => cases ok
  split at ok
  · cases ok
  next early => exact ⟨rfl, Nat.lt_of_not_le early⟩

def Move.aside : Move → Bool
  | .elevate .. | .answered .. | .granted .. | .consume .. => false
  | _ => true

variable (digest daemon docked) in
theorem aside_keeps (w : World) {move : Move} (aside : move.aside = true) :
    (step digest daemon docked w move).elevations = w.elevations ∧
      (step digest daemon docked w move).grants = w.grants := by
  unfold step
  cases move with
  | elevate | answered | granted | consume => cases aside
  | _ =>
    simp only [act, World.mint]
    repeat' split
    all_goals first
      | exact ⟨rfl, rfl⟩
      | exact ⟨trivial, trivial⟩

variable (digest daemon docked) in
theorem aside_entries (w : World) {move : Move}
    (aside : move.aside = true) : entries digest daemon docked w move = [] := by
  cases move with
  | elevate | answered | granted | consume => cases aside
  | _ => rfl

section
variable {a : Authority}

section
variable (traced : Traced digest reader a)
include traced

theorem traced_answered (task : Nat) (outcome : Option PresenceOutcome) (alive : Liveness) :
    Traced digest reader (authorityStep digest daemon docked reader a (.bearer (.answered task outcome alive))) := by
  show Traced digest reader { a with
    world := step digest daemon docked a.world (.answered task outcome alive)
    log := entries digest daemon docked a.world (.answered task outcome alive) ++ a.log }
  unfold step entries reply
  cases found : a.world.elevations.find task with
  | none =>
    simp only [act, found, List.nil_append]
    exact traced
  | some e =>
    have mine := Table.find_key found
    subst mine
    cases cleared : e.cleared with
    | true =>
      simp only [act, found, cleared, if_true, List.nil_append]
      exact traced
    | false =>
      have pending := traced.elevations e.task e found
      rw [Pending, if_neg (by rw [cleared]; exact Bool.false_ne_true)] at pending
      obtain ⟨challengedAt, challenged, deadline⟩ := pending
      cases answer : elevateAnswered daemon a.world.state e outcome a.world.clock alive with
      | mk result after =>
        cases result with
        | error code =>
          simp only [act, found, cleared, answer, Bool.false_eq_true, if_false, List.nil_append]
          refine traced.change _ (fun task other left => ?_) fun _ _ found => found
          rw [Table.find_remove] at left
          split at left
          · cases left
          · exact traced.elevations task other left
        | ok u =>
          obtain ⟨rfl, early⟩ := elevateAnswered_ok answer
          rw [deadline] at early
          simp only [act, found, cleared, answer, Bool.false_eq_true, if_false]
          have logged := traced.cons (.allowed e.task a.world.clock.instant) (fun _ _ _ => rfl) (fun _ _ _ => rfl)
            ⟨e.tokenId, e.target, challengedAt, challenged, early⟩
          refine logged.change _ (fun task other left => ?_) fun _ _ found => found
          rw [Table.find_put] at left
          split at left
          · cases left
            exact ⟨[], a.log, _, challengedAt, rfl, fun _ none => absurd none List.not_mem_nil, challenged, early⟩
          · exact logged.elevations task other left

theorem traced_granted (task : Nat) (secret : Token) :
    Traced digest reader (authorityStep digest daemon docked reader a (.bearer (.granted task secret))) := by
  show Traced digest reader { a with
    world := step digest daemon docked a.world (.granted task secret)
    log := entries digest daemon docked a.world (.granted task secret) ++ a.log }
  unfold step entries reply
  cases found : a.world.elevations.find task with
  | none =>
    simp only [act, found, List.nil_append]
    exact traced
  | some e =>
    have mine := Table.find_key found
    subst mine
    cases ready : e.cleared && a.world.freshSecret digest secret with
    | false =>
      simp only [act, found, ready, Bool.false_eq_true, if_false, List.nil_append]
      exact traced
    | true =>
      have pending := traced.elevations e.task e found
      rw [Pending, if_pos (Bool.and_eq_true_iff.mp ready).1] at pending
      simp only [act, found, ready, if_true]
      have logged := traced.cons (.granted e.task secret e.tokenId e.target a.world.clock.instant)
        (fun _ _ _ => rfl) (fun _ _ _ => rfl) pending
      refine ⟨logged.justified, logged.summaries, fun task other left => ?_, fun d g held => ?_⟩
      · dsimp only at left
        rw [Table.find_remove] at left
        split at left
        · cases left
        · exact logged.elevations task other left
      · dsimp only at held
        rw [elevateGranted, Table.find_put] at held
        split at held
        next same =>
          cases held
          exact ⟨_, ⟨[], a.log, e.task, secret, rfl, same.symm, fun _ none => absurd none List.not_mem_nil⟩, rfl⟩
        next =>
          rw [Table.find_deleteWhere, Option.filter_eq_some_iff] at held
          exact logged.grants d g held.1

theorem traced_consume (secret tokenId : String) (target : Target) (alive : Liveness) :
    Traced digest reader (authorityStep digest daemon docked reader a
        (.bearer (.consume secret tokenId target alive))) := by
  show Traced digest reader { a with
    world := step digest daemon docked a.world (.consume secret tokenId target alive)
    log := entries digest daemon docked a.world (.consume secret tokenId target alive) ++ a.log }
  unfold step entries reply
  have fewer : ∀ d g, (a.world.grants.deleteWhere fun g => decide
      (g.expiresAt ≤ a.world.clock.instant)).find d = some g →
      a.world.grants.find d = some g := by
    intro d g found
    rw [Table.find_deleteWhere, Option.filter_eq_some_iff] at found
    exact found.1
  rcases consume_cases digest daemon a.world.state a.world.grants secret tokenId target a.world.clock alive with
    ⟨token, key, r, g, parsed, -, -, -, -, held, current, mine, same, used⟩ | ⟨after, left, refused, -, kept⟩
  · simp only [act, used, if_true, parsed, Option.elim_some]
    obtain ⟨grantedAt, granted, expires⟩ := traced.grants _ g held
    rw [mine, same] at granted
    have spent := traced.change { a.world with
        grants := (a.world.grants.deleteWhere fun g => decide (g.expiresAt ≤ a.world.clock.instant)).remove
            (digest token) }
      traced.elevations fun d other found => by
        rw [Table.find_remove] at found
        split at found
        · cases found
        · exact fewer d other found
    refine spent.cons (.consumed token tokenId target a.world.clock.instant) (fun _ _ _ => rfl)
      (fun d other found => ?_) ⟨grantedAt, granted, expires ▸ current⟩
    rw [Table.find_remove] at found
    split at found
    next => cases found
    next apart => exact beq_eq_false_iff_ne.mpr (Ne.symm apart)
  · simp only [act, refused, Bool.false_eq_true, if_false, List.nil_append]
    refine traced.change _ traced.elevations fun d g found => ?_
    rcases kept with rfl | rfl
    · exact found
    · exact fewer d g found

theorem traced_elevate (task : Nat) (peer : EnrolledPeer) (tokenId : String) (request : ElevateRequest)
    (challengeId : String) (alive : Liveness) :
    Traced digest reader (authorityStep digest daemon docked reader a
        (.elevate task peer tokenId request challengeId alive)) := by
  unfold authorityStep step reply
  cases busy : (a.world.elevations.find task).isSome with
  | true =>
    simp only [act, busy, if_true]
    exact traced
  | false =>
    have idle : a.world.elevations.find task = none := by simpa using busy
    cases asked : elevate daemon a.world.state task peer tokenId request
        (fun target => targetSummary reader a.summaries a.surfaces tokenId target a.world.clock.instant) challengeId
        a.world.clock alive with
    | mk result after =>
      cases result with
      | error code =>
        simp only [act, idle, Option.isSome_none, Bool.false_eq_true, if_false, asked]
        exact traced.change _ traced.elevations fun _ _ found => found
      | ok e =>
        obtain ⟨target, text, details, fits, rfl⟩ := elevate_ok asked
        simp only [act, idle, Option.isSome_none, Bool.false_eq_true, if_false, asked]
        rw [Table.find_put, if_pos rfl]
        dsimp only
        rw [details, Option.elim_some]
        have apart : ∀ other e, a.world.elevations.find other = some e → other ≠ task := by
          rintro other e found rfl
          rw [idle] at found
          cases found
        have logged := traced.cons (.challenged task peer tokenId target text a.world.clock.instant)
          (fun other e found => by
            rw [Table.find_key found]
            exact beq_eq_false_iff_ne.mpr (Ne.symm (apart other e found)))
          (fun _ _ _ => rfl) ⟨fits, fun body => by
            rw [targetSummary, if_pos body, Option.map_eq_some_iff] at details
            obtain ⟨s, found, rfl⟩ := details
            rw [Option.filter_eq_some_iff, Bool.and_eq_true, decide_eq_true_eq, decide_eq_true_eq] at found
            obtain ⟨kept, early, rfl⟩ := found
            obtain ⟨receivedAt, received, expires⟩ := traced.summaries tokenId s kept
            exact ⟨receivedAt, received, expires ▸ early⟩⟩
        refine logged.change _ (fun other e found => ?_) fun _ _ found => found
        rw [Table.find_put] at found
        split at found
        · cases found
          exact ⟨a.world.clock.instant, ⟨[], a.log, peer, text, rfl, fun _ none => absurd none List.not_mem_nil⟩, rfl⟩
        · exact logged.elevations other e found

end

theorem remember_find {summaries : Summaries} {summary : String} {now : Nat} {id : String} {s : RequestSummary}
    (found : (remember summaries tokenId target summary now).find id = some s) :
    summaries.find id = some s ∨ id = tokenId ∧ s = ⟨tokenId, target, summary, now + seconds grantTtl⟩ := by
  unfold remember at found
  split at found
  · exact .inl found
  have fewer : ∀ {id s}, (summaries.deleteWhere fun s => decide (s.expiresAt ≤ now)).find id = some s →
      summaries.find id = some s := by
    intro id s kept
    rw [Table.find_deleteWhere, Option.filter_eq_some_iff] at kept
    exact kept.1
  rw [Table.find_put] at found
  split at found
  next here =>
    cases found
    exact .inr ⟨here, rfl⟩
  next =>
    split at found
    · cases oldest : soonest (summaries.deleteWhere fun s => decide (s.expiresAt ≤ now)).rows with
      | none =>
        rw [oldest] at found
        exact .inl (fewer found)
      | some evicted =>
        rw [oldest, Option.elim_some, Table.find_remove] at found
        split at found
        · cases found
        · exact .inl (fewer found)
    · exact .inl (fewer found)

theorem traced_rejected (traced : Traced digest reader a) (tokenId template : String) (body : Body)
    (registered : List String) :
    Traced digest reader (authorityStep digest daemon docked reader a
        (.rejected tokenId template body registered)) := by
  unfold authorityStep rememberRequest
  dsimp only
  cases derived : bodySummary reader template body registered with
  | none => exact traced
  | some summary =>
    have logged := traced.cons
      (.received tokenId (requestTarget reader template body) summary body a.world.clock.instant)
      (fun _ _ _ => rfl) (fun _ _ _ => rfl) ⟨rfl, registered, derived⟩
    refine ⟨logged.justified, fun id s found => ?_, logged.elevations, logged.grants⟩
    rcases remember_find found with kept | ⟨rfl, rfl⟩
    · exact logged.summaries id s kept
    · exact ⟨_, ⟨[], a.log, body, rfl⟩, rfl⟩

theorem traced_step (traced : Traced digest reader a) (call : Call) :
    Traced digest reader (authorityStep digest daemon docked reader a call) := by
  cases call with
  | surfaces surfaces => exact ⟨traced.justified, traced.summaries, traced.elevations, traced.grants⟩
  | rejected tokenId template body registered => exact traced_rejected traced tokenId template body registered
  | elevate task peer tokenId request challengeId alive =>
    exact traced_elevate traced task peer tokenId request challengeId alive
  | bearer move =>
    cases aside : move.aside with
    | true =>
      obtain ⟨elevations, grants⟩ := aside_keeps digest daemon docked a.world aside
      simp only [authorityStep]
      split
      · exact traced
      rw [aside_entries digest daemon docked a.world aside, List.nil_append]
      exact traced.change _ (fun task e found => traced.elevations task e (elevations ▸ found))
        fun d g found => grants ▸ found
    | false =>
      cases move with
      | elevate => exact traced
      | answered task outcome alive => exact traced_answered traced task outcome alive
      | granted task secret => exact traced_granted traced task secret
      | consume secret tokenId target alive => exact traced_consume traced secret tokenId target alive
      | _ => cases aside

end

theorem traced_run (clock : Clock) (calls : List Call) :
    Traced digest reader (run (authorityStep digest daemon docked reader) calls (.start clock)) :=
  run_invariant (authorityStep digest daemon docked reader) (fun _ => True) (Traced digest reader)
    (fun _ call _ traced => traced_step traced call) (fun _ _ => trivial)
    ⟨trivial, fun _ _ found => (by cases found), fun _ _ found => (by cases found), fun _ _ found => (by cases found)⟩

theorem consume_live {s : State} {grants : Grants} {secret : String} {clock : Clock} {alive : Liveness} {key : Digest}
    {r : Record} (used : (consume digest daemon s grants secret tokenId target clock alive).1 = true)
    (known : s.idOf tokenId = some key) (found : s.records.find key = some r) : r.processLive alive = true := by
  unfold consume at used
  rw [known] at used
  dsimp only at used
  rw [found] at used
  split at used
  · cases used
  dsimp only at used
  split at used
  next live => exact live
  next => cases used

end

section
variable (digest : Token → Digest) (daemon : String) (docked : Bool) (reader : BodyReader)

/-- The story of a usable grant: its secret went to a token whose user was shown the target and allowed it in time,
and has not been used since. -/
def Elevated (log : List Entry) (token : Token) (tokenId : String) (target : Target) (now : Nat) : Prop :=
  ∃ newest task issued grantedAt granted, log = newest ++ .granted task issued tokenId target grantedAt :: granted ∧
    digest issued = digest token ∧ (∀ entry ∈ newest, entry.spends digest (digest token) = false) ∧
    now < grantedAt + seconds grantTtl ∧
  ∃ since allowedAt allowed, granted = since ++ .allowed task allowedAt :: allowed ∧
    (∀ entry ∈ since, entry.challenges task = false) ∧
  ∃ between peer details challengedAt challenged,
    allowed = between ++ .challenged task peer tokenId target details challengedAt :: challenged ∧
    (∀ entry ∈ between, entry.challenges task = false) ∧ allowedAt < challengedAt + seconds grantTtl ∧
    utf16Length (wantsTo peer details) ≤ summaryMaxUtf16 ∧
  (fromBody target.template = true → ∃ before_ body receivedAt received,
    challenged = before_ ++ .received tokenId target details body receivedAt :: received ∧
    challengedAt < receivedAt + seconds grantTtl ∧ target.bodySha256 = reader.digest body ∧
    ∃ registered, bodySummary reader target.template body registered = some details)

structure Used (a : Authority) (secret tokenId : String) (target : Target) (alive : Liveness) : Prop where
  live : ∃ key r, a.world.state.idOf tokenId = some key ∧ a.world.state.records.find key = some r ∧
    r.processLive alive = true ∧ Validated daemon r target.operation .global a.world.clock
  story : ∃ token, parseBearer secret = some token ∧
    Elevated digest reader a.log token tokenId target a.world.clock.instant ∧
    (authorityStep digest daemon docked reader a (.bearer (.consume secret tokenId target alive))).log =
      .consumed token tokenId target a.world.clock.instant :: a.log

end

section
variable {digest : Token → Digest} {daemon : String} {docked : Bool} {reader : BodyReader}

theorem elevated_of_granted {log : List Entry} {token : Token} {tokenId : String} {target : Target}
    {grantedAt now : Nat} (justified : Justified (Right digest reader) log)
    (granted : Granted digest log (digest token) tokenId target grantedAt)
        (early : now < grantedAt + seconds grantTtl) :
    Elevated digest reader log token tokenId target now := by
  obtain ⟨newest, older, task, issued, rfl, same, unspent⟩ := granted.split
  obtain ⟨since, allowed, allowedAt, challengedAt, rfl, none_, challenged, within⟩ := justified.right.split
  obtain ⟨between, before_, peer, details, rfl, none_'⟩ := challenged.split
  have shown : Right digest reader before_ (.challenged task peer tokenId target details challengedAt) :=
    justified.older.2.older.2.right
  refine ⟨newest, task, issued, grantedAt, _, rfl, same, unspent, early, since, allowedAt, _, rfl, none_, between,
      peer,
    details, challengedAt, before_, rfl, none_', within, shown.1, fun body => ?_⟩
  obtain ⟨receivedAt, received, recent⟩ := shown.2 body
  obtain ⟨newest', older', bytes, rfl⟩ := received.split
  have derived : Right digest reader older' (.received tokenId target details bytes receivedAt) :=
    justified.older.2.older.2.older.2.right
  exact ⟨newest', bytes, receivedAt, older', rfl, recent, derived.1, derived.2⟩

end
end Agent24.Capability
