import Agent24.Capability.Bearer

/-! What a call leaves of the two maps: nothing new, or one new token and perhaps one old one less. -/

set_option autoImplicit false
namespace Agent24.Capability
open Library

namespace State
variable {s : State} {d key : Digest} {id other : String}

@[simp] theorem records_changed : s.changed.records = s.records := rfl
@[simp] theorem idOf_changed : s.changed.idOf id = s.idOf id := rfl
@[simp] theorem idOf_mark {select : Record → Bool} : (s.mark select).idOf id = s.idOf id := rfl

def insert (s : State) (d : Digest) (claims : CapabilityClaims) : State :=
  { s with ids := s.ids.put ⟨claims.capabilityId, d⟩, records := s.records.put ⟨d, claims, false⟩ }

theorem idOf_forget : (s.forget key id).idOf other = if other = id then none else s.idOf other := by
  unfold idOf forget
  rw [Table.find_remove]
  split <;> rfl

theorem find_forget : (s.forget key id).records.find d = if d = key then none else s.records.find d :=
  Table.find_remove

theorem find_mark {select : Record → Bool} : (s.mark select).records.find d =
    (s.records.find d).map fun r => if select r then { r with revoked := true } else r := by
  unfold mark
  rw [Table.find_update]

variable {claims : CapabilityClaims}

theorem idOf_insert :
    (s.insert d claims).idOf id = if id = claims.capabilityId then some d else s.idOf id := by
  unfold idOf insert
  rw [Table.find_put]
  split <;> rfl

theorem find_insert :
    (s.insert key claims).records.find d = if d = key then some ⟨key, claims, false⟩ else s.records.find d :=
  Table.find_put

theorem forgetId_of_some (known : s.idOf id = some key) : s.forgetId id = (s.forget key id).changed := by
  unfold forgetId
  rw [known]

end State

structure Paired (s : State) : Prop where
  named : ∀ id d, s.idOf id = some d → ∃ r, s.records.find d = some r ∧ r.claims.capabilityId = id
  carried : ∀ d r, s.records.find d = some r → s.idOf r.claims.capabilityId = some d

namespace Paired
variable {s : State}

theorem empty : Paired .empty := ⟨fun _ _ named => (by cases named), fun _ _ found => (by cases found)⟩

section
variable (paired : Paired s)
include paired

theorem of_maps {s' : State} (ids : s'.ids = s.ids) (records : s'.records = s.records) :
    Paired s' := by
  constructor
  · intro id d named
    unfold State.idOf at named
    rw [ids] at named
    rw [records]
    exact paired.named id d named
  · intro d r found
    unfold State.idOf
    rw [ids]
    rw [records] at found
    exact paired.carried d r found

theorem changed : Paired s.changed := paired.of_maps rfl rfl

theorem forget {id : String} {key : Digest} (known : s.idOf id = some key) :
    Paired (s.forget key id) := by
  obtain ⟨mine, found, carries⟩ := paired.named id key known
  constructor
  · intro other d named
    rw [State.idOf_forget] at named
    split at named
    next => cases named
    rename_i apart
    obtain ⟨r, foundD, carriesD⟩ := paired.named other d named
    have away : d ≠ key := by
      rintro rfl
      obtain rfl := Option.some.inj (found.symm.trans foundD)
      exact apart (carriesD.symm.trans carries)
    exact ⟨r, by rw [State.find_forget, if_neg away]; exact foundD, carriesD⟩
  · intro d r foundD
    rw [State.find_forget] at foundD
    split at foundD
    next => cases foundD
    rename_i away
    have named := paired.carried d r foundD
    have apart : r.claims.capabilityId ≠ id := by
      intro same
      rw [same] at named
      exact away (Option.some.inj (named.symm.trans known))
    rw [State.idOf_forget, if_neg apart]
    exact named

theorem mark (select : Record → Bool) : Paired (s.mark select) := by
  have claims : ∀ r : Record, (if select r then { r with revoked := true } else r).claims = r.claims := by
    intro r
    split <;> rfl
  constructor
  · intro id d named
    obtain ⟨r, found, carries⟩ := paired.named id d named
    exact ⟨_, by rw [State.find_mark, found]; rfl, (congrArg CapabilityClaims.capabilityId (claims r)).trans carries⟩
  · intro d r found
    rw [State.find_mark, Option.map_eq_some_iff] at found
    obtain ⟨before, foundBefore, rfl⟩ := found
    rw [claims, State.idOf_mark]
    exact paired.carried d before foundBefore

theorem insert {d : Digest} {claims : CapabilityClaims} (newId : s.idOf claims.capabilityId = none)
    (newDigest : s.records.find d = none) :
    Paired (s.insert d claims) := by
  constructor
  · intro id key named
    rw [State.idOf_insert] at named
    split at named
    next here =>
      obtain rfl := Option.some.inj named
      exact ⟨⟨d, claims, false⟩, by rw [State.find_insert, if_pos rfl], here.symm⟩
    next =>
      obtain ⟨r, found, carries⟩ := paired.named id key named
      have away : key ≠ d := by
        rintro rfl
        rw [newDigest] at found
        cases found
      exact ⟨r, by rw [State.find_insert, if_neg away]; exact found, carries⟩
  · intro key r found
    rw [State.find_insert] at found
    split at found
    next here =>
      obtain rfl := Option.some.inj found
      rw [State.idOf_insert, if_pos rfl, here]
    next =>
      have named := paired.carried key r found
      have apart : r.claims.capabilityId ≠ claims.capabilityId := by
        intro same
        rw [same, newId] at named
        cases named
      rw [State.idOf_insert, if_neg apart]
      exact named

end

end Paired

/-- A call without a new token: nothing, one token gone, or some flagged. -/
inductive Leaves (s : State) : State → Prop
  | same : Leaves s s
  | forgot {id : String} {key : Digest} (known : s.idOf id = some key) : Leaves s (s.forget key id).changed
  | marked (select : Record → Bool) : Leaves s (s.mark select)
  | markedAll (select : Record → Bool) : Leaves s (s.mark select).changed

/-- A call with a new token; a renewal drops the one it replaces. -/
inductive Mints (s : State) (d : Digest) (claims : CapabilityClaims) : State → Prop
  | first (new : s.idOf claims.capabilityId = none) : Mints s d claims (s.insert d claims)
  | renewed {old : String} {key : Digest} (new : s.idOf claims.capabilityId = none) (known : s.idOf old = some key) :
      Mints s d claims ((s.insert d claims).forget key old).changed

def Traces (s s' : State) (d : Digest) : Prop :=
  ∀ r', s'.records.find d = some r' →
    ∃ r, s.records.find d = some r ∧ r'.claims = r.claims ∧ (r.revoked = true → r'.revoked = true)

theorem Leaves.traces {s s' : State} (leaves : Leaves s s') (d : Digest) : Traces s s' d := by
  intro r' found
  have marked : ∀ select : Record → Bool, (s.mark select).records.find d = some r' →
      ∃ r, s.records.find d = some r ∧ r'.claims = r.claims ∧ (r.revoked = true → r'.revoked = true) := by
    intro select found
    rw [State.find_mark, Option.map_eq_some_iff] at found
    obtain ⟨r, before, rfl⟩ := found
    refine ⟨r, before, by split <;> rfl, ?_⟩
    intro revoked
    split
    next => rfl
    next => exact revoked
  cases leaves with
  | same => exact ⟨r', found, rfl, id⟩
  | forgot known =>
    rw [State.records_changed, State.find_forget] at found
    split at found
    next => cases found
    next => exact ⟨r', found, rfl, id⟩
  | marked select => exact marked select found
  | markedAll select => exact marked select found

theorem Mints.traces {s s' : State} {d other : Digest} {claims : CapabilityClaims} (mints : Mints s d claims s')
    (apart : other ≠ d) : Traces s s' other := by
  intro r' found
  cases mints with
  | first new =>
    rw [State.find_insert, if_neg apart] at found
    exact ⟨r', found, rfl, id⟩
  | renewed new known =>
    rw [State.records_changed, State.find_forget] at found
    split at found
    next => cases found
    rw [State.find_insert, if_neg apart] at found
    exact ⟨r', found, rfl, id⟩

theorem Mints.at_new {s s' : State} {d : Digest} {claims : CapabilityClaims} (mints : Mints s d claims s')
    {r : Record} (found : s'.records.find d = some r) : r.claims = claims := by
  cases mints with
  | first new =>
    rw [State.find_insert, if_pos rfl] at found
    obtain rfl := Option.some.inj found
    rfl
  | renewed new known =>
    rw [State.records_changed, State.find_forget] at found
    split at found
    next => cases found
    rw [State.find_insert, if_pos rfl] at found
    obtain rfl := Option.some.inj found
    rfl

theorem Paired.leaves {s s' : State} (paired : Paired s) (leaves : Leaves s s') : Paired s' := by
  cases leaves with
  | same => exact paired
  | forgot known => exact (paired.forget known).changed
  | marked select => exact paired.mark select
  | markedAll select => exact (paired.mark select).changed

theorem Paired.mints {s s' : State} {d : Digest} {claims : CapabilityClaims} (paired : Paired s)
    (newDigest : s.records.find d = none) (mints : Mints s d claims s') : Paired s' := by
  cases mints with
  | first new => exact paired.insert new newDigest
  | renewed new known =>
    rename_i old key
    have apart : old ≠ claims.capabilityId := by
      rintro rfl
      rw [new] at known
      cases known
    have known' : (s.insert d claims).idOf old = some key := by rw [State.idOf_insert, if_neg apart]; exact known
    exact ((paired.insert new newDigest).forget known').changed

/-! The calls one by one. -/

section
variable (digest : Token → Digest) (daemon : String) (docked : Bool) {s s' : State}

theorem insertLocked_cases (s : State) (draw : Draw) (claims : CapabilityClaims) :
    insertLocked digest s draw claims = (.error .unauthorized, s) ∨
      s.idOf claims.capabilityId = none ∧
        insertLocked digest s draw claims = (.ok claims, s.insert (digest draw.token) claims) := by
  unfold insertLocked
  split
  next => exact .inl rfl
  next new => exact .inr ⟨by simpa using new, rfl⟩

structure Validated (daemon : String) (r : Record) (operation : Operation) (resource : Resource) (clock : Clock) :
    Prop where
  unrevoked : r.revoked = false
  generation : r.claims.daemonGeneration = daemon
  unexpired : r.expired clock = false
  allowed : r.claims.audience = .productHost ∨
    operation ∈ r.claims.allowedOperations ∧ resource.exact operation r.claims = true

variable {daemon} in
theorem validateRecord_ok {r : Record} {operation : Operation} {resource : Resource} {clock : Clock} {u : Unit}
    (ok : validateRecord daemon r operation resource clock = .ok u) :
    Validated daemon r operation resource clock := by
  unfold validateRecord at ok
  split at ok
  · cases ok
  rename_i unrevoked
  split at ok
  · cases ok
  rename_i generation
  split at ok
  · cases ok
  rename_i unexpired
  split at ok
  · cases ok
  rename_i permitted
  split at ok
  · cases ok
  rename_i exact_
  refine ⟨by simpa using unrevoked, not_not.mp generation, by simpa using unexpired, ?_⟩
  by_cases host : r.claims.audience = .productHost
  · exact .inl host
  · exact .inr ⟨not_not.mp fun absent => permitted ⟨host, absent⟩,
      eq_true_of_ne_false fun differs => exact_ ⟨host, differs⟩⟩

theorem validate_cases (paired : Paired s) (token : Token) (operation : Operation) (resource : Resource)
    (clock : Clock) (alive : Liveness) :
    (∃ r, s.records.find (digest token) = some r ∧ r.processLive alive = true ∧
        Validated daemon r operation resource clock ∧
        validate digest daemon s token operation resource clock alive = (.ok ⟨r.claims, s.epoch⟩, s)) ∨
      ∃ e after, validate digest daemon s token operation resource clock alive = (.error e, after) ∧ Leaves s after := by
  unfold validate
  split
  next => exact .inr ⟨_, _, rfl, .same⟩
  rename_i r found
  split
  next live =>
    split
    next => exact .inr ⟨_, _, rfl, .same⟩
    next ok => exact .inl ⟨r, found, live, validateRecord_ok ok, rfl⟩
  next => exact .inr ⟨_, _, rfl, .forgot (paired.carried _ r found)⟩

theorem requireLiveBearer_cases (paired : Paired s) (bearer : String) (clock : Clock) (alive : Liveness) :
    (∃ token r, parseBearer bearer = some token ∧ s.records.find (digest token) = some r ∧
        r.revoked = false ∧ r.expired clock = false ∧
        requireLiveBearer digest daemon s bearer clock alive = (.ok (), s)) ∨
      ∃ e after, requireLiveBearer digest daemon s bearer clock alive = (.error e, after) ∧ Leaves s after := by
  unfold requireLiveBearer
  split
  next => exact .inr ⟨_, _, rfl, .same⟩
  rename_i token parsed
  split
  next => exact .inr ⟨_, _, rfl, .same⟩
  rename_i r found
  split
  next =>
    split
    next => exact .inr ⟨_, _, rfl, .same⟩
    rename_i unrevoked
    split
    next => exact .inr ⟨_, _, rfl, .same⟩
    split
    next => exact .inr ⟨_, _, rfl, .same⟩
    next unexpired =>
      exact .inl ⟨token, r, parsed, found, by simpa using unrevoked, by simpa using unexpired, rfl⟩
  next => exact .inr ⟨_, _, rfl, .forgot (paired.carried _ r found)⟩

/-- The host whose authority a creative token is minted under, as it is in the store. -/
structure HostOf (daemon : String) (s : State) (hostId : String) (createdAt : Nat) (hostDigest : Digest) (host : Record) :
    Prop where
  named : s.idOf hostId = some hostDigest
  known : s.records.find hostDigest = some host
  unrevoked : host.revoked = false
  audience : host.claims.audience = .productHost
  generation : host.claims.daemonGeneration = daemon
  unexpired : createdAt < host.claims.expiresAt

section
variable (s : State)

theorem mintCreativeAuthorized_cases (draw : Draw) (authorization : Authorization) (request : CreativeMintRequest) :
    (∃ hostDigest host, HostOf daemon s authorization.claims.capabilityId request.createdAt hostDigest host ∧
        host.claims = authorization.claims ∧ request.ttl.exceeds maxCreativeTtl = false ∧
        s.idOf draw.id = none ∧
        mintCreativeAuthorized digest daemon s draw authorization request =
          (.ok (creativeClaims daemon draw host.claims request),
            s.insert (digest draw.token) (creativeClaims daemon draw host.claims request))) ∨
      ∃ e, mintCreativeAuthorized digest daemon s draw authorization request = (.error e, s) := by
  unfold mintCreativeAuthorized
  split
  next => exact .inr ⟨_, rfl⟩
  rename_i within
  split
  next => exact .inr ⟨_, rfl⟩
  rename_i fits
  split
  next => exact .inr ⟨_, rfl⟩
  rename_i hostDigest named
  split
  next => exact .inr ⟨_, rfl⟩
  rename_i host known
  split
  next => exact .inr ⟨_, rfl⟩
  rename_i agrees
  rw [not_or] at agrees
  rw [not_or, not_or, not_not, not_not, Nat.not_le] at fits
  have same : host.claims = authorization.claims := not_not.mp agrees.2
  rcases insertLocked_cases digest s draw (creativeClaims daemon draw host.claims request) with
    taken | ⟨new, inserted⟩
  · exact .inr ⟨_, taken⟩
  refine .inl ⟨hostDigest, host, ?_, same, ?_, new, inserted⟩
  · exact ⟨named, known, by simpa using agrees.1, same ▸ fits.1, same ▸ fits.2.1, same ▸ fits.2.2⟩
  · rw [Bool.or_eq_true, not_or] at within
    exact eq_false_of_ne_true within.2

theorem revoke_leaves (token : Token) : Leaves s (revoke digest s token).2 := by
  unfold revoke
  split
  next => exact .same
  split
  next => exact .same
  next => exact .markedAll _

theorem revokeById_leaves (id : String) : Leaves s (revokeById s id).2 := by
  unfold revokeById
  split
  next => exact .same
  split
  next => exact .same
  split
  next => exact .same
  next => exact .markedAll _

theorem revokeByGeneration_leaves (which : Generation) (generation : String) :
    Leaves s (revokeByGeneration s which generation).2 := by
  unfold revokeByGeneration revokeWhere
  dsimp only
  split
  next => exact .marked _
  next => exact .markedAll _

theorem release_leaves (peer : EnrolledPeer) (id : String) : Leaves s (FirstParty.revoke s peer id) := by
  unfold FirstParty.revoke
  split
  next => exact .same
  rename_i key known
  split
  next => exact .same
  split
  next => exact .forgot known
  next => exact .same

theorem livePeer_cases (peer : EnrolledPeer) (id : String) (clock : Clock) (alive : Liveness) :
    (∃ key r, s.idOf id = some key ∧ s.records.find key = some r ∧ r.revoked = false ∧ r.expired clock = false ∧
        r.claims.firstParty.map FirstPartyClaims.peer = some peer ∧ alive peer = true ∧
        livePeer daemon s peer id clock alive = (.ok (), s)) ∨
      ∃ e after, livePeer daemon s peer id clock alive = (.error e, after) ∧ Leaves s after := by
  unfold livePeer
  split
  next => exact .inr ⟨_, _, rfl, .same⟩
  rename_i key known
  split
  next => exact .inr ⟨_, _, rfl, .same⟩
  rename_i r found
  split
  next => exact .inr ⟨_, _, rfl, .same⟩
  rename_i mine
  split
  next => exact .inr ⟨_, _, rfl, .forgot known⟩
  rename_i lives
  simp only [not_or, Bool.not_eq_true, Bool.not_eq_false] at lives
  exact .inl ⟨key, r, known, found, lives.1, lives.2.1, not_not.mp mine, lives.2.2.2, rfl⟩

end

theorem renewable_eq_true {peer : EnrolledPeer} {clock : Clock} {id : String} (ok : renewable s peer clock id = true) :
    ∃ key r, s.idOf id = some key ∧ s.records.find key = some r ∧ r.revoked = false ∧ r.expired clock = false ∧
      r.claims.firstParty.map FirstPartyClaims.peer = some peer := by
  unfold renewable at ok
  split at ok
  next => cases ok
  rename_i key known
  split at ok
  next => cases ok
  rename_i r found
  simp only [Bool.and_eq_true, Bool.not_eq_true', beq_iff_eq] at ok
  exact ⟨key, r, known, found, ok.1.1, ok.1.2, ok.2⟩

/-- A first-party token: for a live peer of this daemon, with the old one gone; or the state as it was, unless a
renewal met a dead peer. -/
theorem firstParty_mint_cases (s : State) (draw : Draw) (peer : EnrolledPeer) (old : Option String) (clock : Clock)
    (alive : Liveness) :
    (∃ after, peer.generation = daemon ∧ (∀ id, old = some id → renewable s peer clock id = true) ∧
        alive peer = true ∧ s.idOf draw.id = none ∧
        after = old.elim (s.insert (digest draw.token) (firstPartyToken docked draw peer clock))
          (s.insert (digest draw.token) (firstPartyToken docked draw peer clock)).forgetId ∧
        Mints s (digest draw.token) (firstPartyToken docked draw peer clock) after ∧
        FirstParty.mint digest daemon docked s draw peer old clock alive =
          (.ok (firstPartyToken docked draw peer clock), after)) ∨
      (∃ e, FirstParty.mint digest daemon docked s draw peer old clock alive = (.error e, s)) ∨
      ∃ e id key, old = some id ∧ renewable s peer clock id = true ∧ s.idOf id = some key ∧ alive peer = false ∧
        FirstParty.mint digest daemon docked s draw peer old clock alive = (.error e, (s.forget key id).changed) := by
  unfold FirstParty.mint
  split
  next => exact .inr (.inl ⟨_, rfl⟩)
  rename_i generation
  split
  next => exact .inr (.inl ⟨_, rfl⟩)
  rename_i ready
  have may : ∀ id, old = some id → renewable s peer clock id = true := by
    rintro id rfl
    simpa using ready
  split
  next dead =>
    cases old with
    | none => exact .inr (.inl ⟨_, rfl⟩)
    | some id =>
      obtain ⟨key, r, known, -⟩ := renewable_eq_true (may id rfl)
      exact .inr (.inr ⟨_, id, key, rfl, may id rfl, known, dead, by
        rw [Option.elim_some, State.forgetId_of_some known]⟩)
  next lives =>
    rcases insertLocked_cases digest s draw (firstPartyToken docked draw peer clock) with
      taken | ⟨new, inserted⟩
    · rw [taken]
      exact .inr (.inl ⟨_, rfl⟩)
    rw [inserted]
    refine .inl ⟨_, not_not.mp generation, may, by simpa using lives, new, rfl, ?_, rfl⟩
    cases old with
    | none => exact .first new
    | some id =>
      obtain ⟨key, r, known, -⟩ := renewable_eq_true (may id rfl)
      have apart : id ≠ (firstPartyToken docked draw peer clock).capabilityId := by
        rintro rfl
        rw [new] at known
        cases known
      rw [Option.elim_some, State.forgetId_of_some]
      · exact .renewed new known
      · rw [State.idOf_insert, if_neg apart]
        exact known

theorem elevate_cases (s : State) (task : Nat) (peer : EnrolledPeer) (id : String) (request : ElevateRequest)
    (details : Target → Option String) (challengeId : String) (clock : Clock) (alive : Liveness) :
    (∃ e key r, s.idOf id = some key ∧ s.records.find key = some r ∧ r.revoked = false ∧ r.expired clock = false ∧
        elevate daemon s task peer id request details challengeId clock alive = (.ok e, s)) ∨
      ∃ e after, elevate daemon s task peer id request details challengeId clock alive = (.error e, after) ∧
        Leaves s after := by
  unfold elevate
  rcases livePeer_cases daemon s peer id clock alive with
    ⟨key, r, known, found, unrevoked, unexpired, -, -, same⟩ | ⟨e, after, same, leaves⟩
  · rw [same]
    dsimp only
    split
    next => exact .inr ⟨_, _, rfl, .same⟩
    split
    next => exact .inr ⟨_, _, rfl, .same⟩
    split
    next => exact .inr ⟨_, _, rfl, .same⟩
    next => exact .inl ⟨_, key, r, known, found, unrevoked, unexpired, rfl⟩
  · rw [same]
    exact .inr ⟨_, _, rfl, leaves⟩

theorem elevateAnswered_cases (s : State) (e : Elevation) (outcome : Option PresenceOutcome) (clock : Clock)
    (alive : Liveness) :
    (∃ key r, s.idOf e.tokenId = some key ∧ s.records.find key = some r ∧ r.revoked = false ∧
        r.expired clock = false ∧ elevateAnswered daemon s e outcome clock alive = (.ok (), s)) ∨
      ∃ code after, elevateAnswered daemon s e outcome clock alive = (.error code, after) ∧ Leaves s after := by
  unfold elevateAnswered
  split
  next => exact .inr ⟨_, _, rfl, .same⟩
  next => exact .inr ⟨_, _, rfl, .same⟩
  next => exact .inr ⟨_, _, rfl, .same⟩
  next => exact .inr ⟨_, _, rfl, .same⟩
  split
  next => exact .inr ⟨_, _, rfl, .same⟩
  rcases livePeer_cases daemon s e.peer e.tokenId clock alive with
    ⟨key, r, known, found, unrevoked, unexpired, -, -, same⟩ | ⟨code, after, same, leaves⟩
  · exact .inl ⟨key, r, known, found, unrevoked, unexpired, same⟩
  · exact .inr ⟨code, after, same, leaves⟩

/-- A grant is used by a first-party token that may do the target's operation, for the token and the target the
grant was made for. -/
theorem consume_cases (s : State) (grants : Grants) (secret tokenId : String) (target : Target) (clock : Clock)
    (alive : Liveness) :
    (∃ token key r g, parseBearer secret = some token ∧ s.idOf tokenId = some key ∧
        s.records.find key = some r ∧ r.claims.audience = .firstPartyShell ∧
        Validated daemon r target.operation Resource.global clock ∧ grants.find (digest token) = some g ∧
        clock.instant < g.expiresAt ∧ g.tokenId = tokenId ∧ g.target = target ∧
        consume digest daemon s grants secret tokenId target clock alive =
          (true, s, (grants.deleteWhere fun g => decide (g.expiresAt ≤ clock.instant)).remove (digest token))) ∨
      ∃ after left, consume digest daemon s grants secret tokenId target clock alive = (false, after, left) ∧
        Leaves s after ∧ (left = grants ∨ left = grants.deleteWhere fun g => decide (g.expiresAt ≤ clock.instant)) := by
  unfold consume
  split
  next => exact .inr ⟨_, _, rfl, .same, .inl rfl⟩
  rename_i token parsed
  split
  next => exact .inr ⟨_, _, rfl, .same, .inl rfl⟩
  rename_i key known
  split
  next => exact .inr ⟨_, _, rfl, .same, .inl rfl⟩
  rename_i r found
  split
  next =>
    split
    next may =>
      dsimp only
      split
      next => exact .inr ⟨_, _, rfl, .same, .inr rfl⟩
      rename_i g held
      split
      next mine =>
        unfold consumable at may
        simp only [Bool.and_eq_true, beq_iff_eq] at may
        have valid : Validated daemon r target.operation Resource.global clock := by
          cases checked : validateRecord daemon r target.operation Resource.global clock with
          | error e =>
            rw [checked] at may
            exact absurd may.2 Bool.false_ne_true
          | ok u => exact validateRecord_ok checked
        rw [Table.find_deleteWhere, Option.filter_eq_some_iff] at held
        have current : clock.instant < g.expiresAt := by simpa using held.2
        exact .inl ⟨token, key, r, g, parsed, known, found, may.1.1, valid, held.1, current, mine.1, mine.2, rfl⟩
      next => exact .inr ⟨_, _, rfl, .same, .inr rfl⟩
    next => exact .inr ⟨_, _, rfl, .same, .inl rfl⟩
  next => exact .inr ⟨_, _, rfl, .forgot known, .inl rfl⟩

end

end Agent24.Capability
