import Agent24.Capability.Effect

/-! Runs of the bearer store: ids and records stay paired, a token that has ended stays ended, and whatever a token
authorises it was minted for. -/

set_option autoImplicit false
namespace Agent24.Capability
open Library

section
variable (digest : Token → Digest) (daemon : String) (docked : Bool)

structure Formed (claims : CapabilityClaims) : Prop where
  generation : claims.daemonGeneration = daemon
  host : claims.audience = .productHost → claims.firstParty = none
  creative : claims.audience = .creativeRuntime → claims.firstParty = none
  shell : claims.audience = .firstPartyShell →
    claims.firstParty.isSome = true ∧ claims.allowedOperations = firstPartyOperations docked
  peer : ∀ c, claims.firstParty = some c → c.peer.generation = daemon

inductive Happens (w w' : World) (answer : Reply) : Prop
  | quiet (leaves : Leaves w.state w'.state) (drawn : w'.drawn = w.drawn ∨ ∃ draw : Draw,
      w.fresh digest draw = true ∧ w'.drawn = (digest draw.token, draw.id) :: w.drawn)
      (unminted : ∀ d claims, answer ≠ .minted d claims)
  | mint (draw : Draw) (claims : CapabilityClaims) (fresh : w.fresh digest draw = true)
      (mints : Mints w.state (digest draw.token) claims w'.state) (id : claims.capabilityId = draw.id)
      (formed : Formed daemon docked claims)
      (drawn : w'.drawn = (digest draw.token, draw.id) :: w.drawn)
      (minted : answer = .minted (digest draw.token) claims)

structure Sound (w : World) : Prop where
  paired : Paired w.state
  /-- A record stands under the digest and the id of one draw. -/
  recorded : ∀ d r, w.state.records.find d = some r → (d, r.claims.capabilityId) ∈ w.drawn
  distinct : ∀ t ∈ w.drawn, ∀ t' ∈ w.drawn, t.1 = t'.1 ↔ t.2 = t'.2
  formed : ∀ d r, w.state.records.find d = some r → Formed daemon docked r.claims
  held : ∀ d g, w.grants.find d = some g → d ∈ w.secrets

end

namespace World
variable {digest : Token → Digest}

theorem of_fresh {w : World} {draw : Draw} (fresh : w.fresh digest draw = true) :
    (∀ t ∈ w.drawn, t.1 ≠ digest draw.token ∧ t.2 ≠ draw.id) ∧ digest draw.token ∉ w.secrets := by
  unfold World.fresh at fresh
  simpa using fresh

theorem of_freshSecret {w : World} {secret : Token} (fresh : w.freshSecret digest secret = true) :
    (∀ t ∈ w.drawn, t.1 ≠ digest secret) ∧ digest secret ∉ w.secrets := by
  unfold World.freshSecret at fresh
  simpa using fresh

def ended (w : World) (t : Digest × String) : Bool :=
  match w.state.records.find t.1 with
  | none => true
  | some r => r.revoked || r.expired w.clock

theorem ended_eq_false {w : World} {t : Digest × String} :
    w.ended t = false ↔ ∃ r, w.state.records.find t.1 = some r ∧ r.revoked = false ∧ r.expired w.clock = false := by
  unfold ended
  split
  next none_ => simp [none_]
  next r found => simp [found]

end World

theorem firstPartyOperations_presence {docked : Bool} {operation : Operation}
    (allowed : operation ∈ firstPartyOperations docked) : operation.isPresenceChannel = false := by
  unfold firstPartyOperations at allowed
  split at allowed
  next =>
    simp only [Finset.mem_insert, Finset.mem_singleton] at allowed
    rcases allowed with rfl | rfl <;> rfl
  next =>
    rw [List.mem_toFinset, List.mem_append, List.mem_filter, List.mem_singleton] at allowed
    rcases allowed with ⟨-, other⟩ | rfl
    · simpa using other
    · rfl

theorem firstPartyOperations_docked {operation : Operation} (allowed : operation ∈ firstPartyOperations true) :
    operation = .healthRead ∨ operation = .diagnosticRead := by
  simpa [firstPartyOperations] using allowed

theorem Record.expired_mono {r : Record} {now later : Clock} (wall : now.wall ≤ later.wall)
    (instant : now.instant ≤ later.instant) (expired : r.expired now = true) : r.expired later = true := by
  unfold Record.expired at expired ⊢
  split at expired
  · exact decide_eq_true ((of_decide_eq_true expired).trans wall)
  · exact decide_eq_true ((of_decide_eq_true expired).trans instant)

section
variable {digest : Token → Digest} {daemon : String} {docked : Bool} {w : World}

namespace Happens
variable {w' : World} {answer : Reply}

theorem mem_drawn (happens : Happens digest daemon docked w w' answer) {t : Digest × String} (drawn : t ∈ w.drawn) :
    t ∈ w'.drawn := by
  cases happens with
  | quiet leaves more =>
    rcases more with same | ⟨draw, -, same⟩
    · rw [same]
      exact drawn
    · rw [same]
      exact List.mem_cons_of_mem _ drawn
  | mint draw claims fresh mints id formed same =>
    rw [same]
    exact List.mem_cons_of_mem _ drawn

theorem traces (happens : Happens digest daemon docked w w' answer) {t : Digest × String} (drawn : t ∈ w.drawn) :
    Traces w.state w'.state t.1 := by
  cases happens with
  | quiet leaves => exact leaves.traces t.1
  | mint draw claims fresh mints => exact mints.traces ((World.of_fresh fresh).1 t drawn).1

theorem distinct (happens : Happens digest daemon docked w w' answer)
    (distinct : ∀ t ∈ w.drawn, ∀ t' ∈ w.drawn, t.1 = t'.1 ↔ t.2 = t'.2) :
    ∀ t ∈ w'.drawn, ∀ t' ∈ w'.drawn, t.1 = t'.1 ↔ t.2 = t'.2 := by
  have grown : ∀ draw : Draw, w.fresh digest draw = true → w'.drawn = (digest draw.token, draw.id) :: w.drawn →
      ∀ t ∈ w'.drawn, ∀ t' ∈ w'.drawn, t.1 = t'.1 ↔ t.2 = t'.2 := by
    intro draw fresh same t member t' member'
    have apart := (World.of_fresh fresh).1
    rw [same, List.mem_cons] at member member'
    rcases member with rfl | old <;> rcases member' with rfl | old'
    · exact ⟨fun _ => rfl, fun _ => rfl⟩
    · exact ⟨fun same => absurd same.symm (apart t' old').1, fun same => absurd same.symm (apart t' old').2⟩
    · exact ⟨fun same => absurd same (apart t old).1, fun same => absurd same (apart t old).2⟩
    · exact distinct t old t' old'
  cases happens with
  | quiet leaves more =>
    rcases more with same | ⟨draw, fresh, same⟩
    · rw [same]
      exact distinct
    · exact grown draw fresh same
  | mint draw claims fresh mints id formed same => exact grown draw fresh same

end Happens

variable {draw : Draw} {t : Digest × String}

theorem Sound.unused (sound : Sound daemon docked w) (fresh : w.fresh digest draw = true) :
    w.state.records.find (digest draw.token) = none := by
  cases found : w.state.records.find (digest draw.token) with
  | none => rfl
  | some r => exact absurd rfl ((World.of_fresh fresh).1 _ (sound.recorded _ r found)).1

/-! What one move does. -/

theorem mint_quiet {ε : Type} {e : ε} {after : State} (fresh : w.fresh digest draw = true)
    (leaves : Leaves w.state after) :
    Happens digest daemon docked w (w.mint digest draw ((.error e : Except ε CapabilityClaims), after)).2
      (w.mint digest draw ((.error e : Except ε CapabilityClaims), after)).1 :=
  .quiet leaves (.inr ⟨draw, fresh, rfl⟩) fun _ _ same => (by cases same)

theorem mint_minted {ε : Type} {claims : CapabilityClaims} {after : State} (fresh : w.fresh digest draw = true)
    (id : claims.capabilityId = draw.id) (formed : Formed daemon docked claims)
    (mints : Mints w.state (digest draw.token) claims after) :
    Happens digest daemon docked w (w.mint digest draw ((.ok claims : Except ε CapabilityClaims), after)).2
      (w.mint digest draw ((.ok claims : Except ε CapabilityClaims), after)).1 :=
  .mint draw claims fresh mints id formed rfl rfl

theorem creativeClaims_formed (draw : Draw) (host : CapabilityClaims) (request : CreativeMintRequest) :
    Formed daemon docked (creativeClaims daemon draw host request) :=
  ⟨rfl, fun _ => rfl, fun _ => rfl, fun same => (by cases same), fun _ same => (by cases same)⟩

theorem firstPartyToken_formed (draw : Draw) (peer : EnrolledPeer) (clock : Clock) (mine : peer.generation = daemon) :
    Formed daemon docked (firstPartyToken docked draw peer clock) := by
  refine ⟨mine, fun same => (by cases same), fun same => (by cases same), fun _ => ⟨rfl, rfl⟩, ?_⟩
  intro c same
  obtain rfl := Option.some.inj same
  exact mine

theorem mintProductHost_happens (fresh : w.fresh digest draw = true) (hostGeneration : String) (ttl : Duration)
    (createdAt : Nat) :
    let result := w.mint digest draw (mintProductHost digest daemon w.state draw hostGeneration ttl createdAt)
    Happens digest daemon docked w result.2 result.1 := by
  unfold mintProductHost
  rcases insertLocked_cases digest w.state draw _ with taken | ⟨new, inserted⟩
  · rw [taken]
    exact mint_quiet fresh .same
  rw [inserted]
  refine mint_minted fresh rfl ⟨rfl, fun _ => rfl, ?_, ?_, ?_⟩ (.first new)
  · exact fun same => (by cases same)
  · exact fun same => (by cases same)
  · exact fun _ same => (by cases same)

theorem mintCreativeAuthorized_happens (fresh : w.fresh digest draw = true) (authorization : Authorization)
    (request : CreativeMintRequest) :
    let result := w.mint digest draw (mintCreativeAuthorized digest daemon w.state draw authorization request)
    Happens digest daemon docked w result.2 result.1 := by
  rcases mintCreativeAuthorized_cases digest daemon w.state draw authorization request with
    ⟨_, host, -, -, -, new, same⟩ | ⟨e, same⟩
  · rw [same]
    exact mint_minted fresh rfl (creativeClaims_formed draw host.claims request) (.first new)
  · rw [same]
    exact mint_quiet fresh .same

variable (digest daemon) in
/-- `mint_creative` is the authorised mint under what the host's bearer validates as, or refused. -/
theorem mintCreative_cases (paired : Paired w.state) (draw : Draw) (host : Token) (request : CreativeMintRequest)
    (instant : Nat) (alive : Liveness) :
    (∃ r, w.state.records.find (digest host) = some r ∧ r.revoked = false ∧
        r.expired ⟨request.createdAt, instant⟩ = false ∧
        mintCreative digest daemon w.state draw host request instant alive =
          mintCreativeAuthorized digest daemon w.state draw ⟨r.claims, w.state.epoch⟩ request) ∨
      ∃ e after, mintCreative digest daemon w.state draw host request instant alive = (.error e, after) ∧
        Leaves w.state after := by
  unfold mintCreative
  rcases validate_cases digest daemon paired host .modelsRead .global
    ⟨request.createdAt, instant⟩ alive with ⟨r, found, -, valid, same⟩ | ⟨e, after, same, leaves⟩
  · rw [same]
    exact .inl ⟨r, found, valid.unrevoked, valid.unexpired, rfl⟩
  · rw [same]
    exact .inr ⟨e, after, rfl, leaves⟩

theorem mintCreative_happens (paired : Paired w.state) (fresh : w.fresh digest draw = true) (host : Token)
    (request : CreativeMintRequest) (alive : Liveness) :
    let result := w.mint digest draw (mintCreative digest daemon w.state draw host request w.clock.instant alive)
    Happens digest daemon docked w result.2 result.1 := by
  dsimp only
  rcases mintCreative_cases digest daemon paired draw host request w.clock.instant alive with
    ⟨r, -, -, -, same⟩ | ⟨e, after, same, leaves⟩
  · rw [same]
    exact mintCreativeAuthorized_happens fresh _ request
  · rw [same]
    exact mint_quiet fresh leaves

theorem firstParty_mint_happens (fresh : w.fresh digest draw = true) (peer : EnrolledPeer) (old : Option String)
    (alive : Liveness) :
    let result := w.mint digest draw (FirstParty.mint digest daemon docked w.state draw peer old w.clock alive)
    Happens digest daemon docked w result.2 result.1 := by
  rcases firstParty_mint_cases digest daemon docked w.state draw peer old w.clock
    alive with ⟨after, mine, -, -, -, -, mints, same⟩ | ⟨e, same⟩ | ⟨e, id, key, -, -, known, -, same⟩
  · rw [same]
    exact mint_minted fresh rfl (firstPartyToken_formed draw peer w.clock mine) mints
  · rw [same]
    exact mint_quiet fresh .same
  · rw [same]
    exact mint_quiet fresh (.forgot known)

variable (digest daemon docked) in
theorem act_happens (paired : Paired w.state) (move : Move) :
    Happens digest daemon docked w (step digest daemon docked w move) (reply digest daemon docked w move) := by
  have idle : Happens digest daemon docked w w .idle := .quiet .same (.inl rfl) fun _ _ same => (by cases same)
  unfold step reply
  cases move with
  | pass wall instant => exact .quiet .same (.inl rfl) fun _ _ same => (by cases same)
  | validate token operation resource alive =>
    simp only [act]
    rcases validate_cases digest daemon paired token operation resource w.clock alive with
      ⟨r, -, -, -, same⟩ | ⟨e, after, same, leaves⟩
    · rw [same]
      exact .quiet .same (.inl rfl) fun _ _ same => (by cases same)
    · rw [same]
      exact .quiet leaves (.inl rfl) fun _ _ same => (by cases same)
  | requireLive bearer alive =>
    simp only [act]
    rcases requireLiveBearer_cases digest daemon paired bearer w.clock alive with
      ⟨token, r, -, -, -, -, same⟩ | ⟨e, after, same, leaves⟩
    · rw [same]
      exact .quiet .same (.inl rfl) fun _ _ same => (by cases same)
    · rw [same]
      exact .quiet leaves (.inl rfl) fun _ _ same => (by cases same)
  | mintProductHost draw hostGeneration ttl createdAt =>
    simp only [act]
    split
    next fresh => exact mintProductHost_happens fresh hostGeneration ttl createdAt
    next => exact idle
  | mintCreative draw host request alive =>
    simp only [act]
    split
    next fresh => exact mintCreative_happens paired fresh host request alive
    next => exact idle
  | mintCreativeAuthorized draw authorization request =>
    simp only [act]
    split
    next fresh => exact mintCreativeAuthorized_happens fresh authorization request
    next => exact idle
  | issue draw peer alive =>
    simp only [act]
    split
    next fresh => exact firstParty_mint_happens fresh peer none alive
    next => exact idle
  | renew draw peer id alive =>
    simp only [act]
    split
    next fresh => exact firstParty_mint_happens fresh peer (some id) alive
    next => exact idle
  | release peer id => exact .quiet (release_leaves w.state peer id) (.inl rfl) fun _ _ same => (by cases same)
  | revoke token => exact .quiet (revoke_leaves digest w.state token) (.inl rfl) fun _ _ same => (by cases same)
  | revokeById id => exact .quiet (revokeById_leaves w.state id) (.inl rfl) fun _ _ same => (by cases same)
  | revokeByGeneration which generation =>
    exact .quiet (revokeByGeneration_leaves w.state which generation) (.inl rfl) fun _ _ same => (by cases same)
  | elevate task peer id request details challengeId alive =>
    simp only [act]
    split
    next => exact idle
    rcases elevate_cases daemon w.state task peer id request details challengeId w.clock alive with
      ⟨e, key, r, -, -, -, -, same⟩ | ⟨e, after, same, leaves⟩
    · rw [same]
      exact .quiet .same (.inl rfl) fun _ _ same => (by cases same)
    · rw [same]
      exact .quiet leaves (.inl rfl) fun _ _ same => (by cases same)
  | answered task outcome alive =>
    simp only [act]
    split
    next => exact idle
    rename_i e found
    split
    next => exact idle
    rcases elevateAnswered_cases daemon w.state e outcome w.clock alive with
      ⟨key, r, -, -, -, -, same⟩ | ⟨code, after, same, leaves⟩
    · rw [same]
      exact .quiet .same (.inl rfl) fun _ _ same => (by cases same)
    · rw [same]
      exact .quiet leaves (.inl rfl) fun _ _ same => (by cases same)
  | granted task secret =>
    simp only [act]
    split
    next => exact idle
    rename_i e found
    split
    next => exact .quiet .same (.inl rfl) fun _ _ same => (by cases same)
    next => exact idle
  | consume secret tokenId target alive =>
    simp only [act]
    rcases consume_cases digest daemon w.state w.grants secret tokenId target w.clock alive with
      ⟨token, key, r, g, -, -, -, -, -, -, -, -, -, same⟩ | ⟨after, left, same, leaves, -⟩
    · rw [same]
      exact .quiet .same (.inl rfl) fun _ _ same => (by cases same)
    · rw [same]
      exact .quiet leaves (.inl rfl) fun _ _ same => (by cases same)

variable (digest daemon docked) in
theorem act_grants (w : World) (move : Move) :
    let w' := step digest daemon docked w move
    (w'.secrets = w.secrets ∧ ∀ d g, w'.grants.find d = some g → w.grants.find d = some g) ∨
      ∃ secret e, w.freshSecret digest secret = true ∧ w'.secrets = digest secret :: w.secrets ∧
        w'.grants = elevateGranted w.grants e (digest secret) w.clock := by
  unfold step
  cases move with
  | granted task secret =>
    simp only [act]
    split
    next => exact .inl ⟨rfl, fun _ _ found => found⟩
    rename_i e found
    split
    next ready => exact .inr ⟨secret, e, (Bool.and_eq_true _ _ ▸ ready).2, rfl, rfl⟩
    next => exact .inl ⟨rfl, fun _ _ found => found⟩
  | consume secret tokenId target alive =>
    have fewer : ∀ d g, (w.grants.deleteWhere fun g => decide (g.expiresAt ≤ w.clock.instant)).find d = some g →
        w.grants.find d = some g := by
      intro d g found
      rw [Table.find_deleteWhere, Option.filter_eq_some_iff] at found
      exact found.1
    simp only [act]
    rcases consume_cases digest daemon w.state w.grants secret tokenId target w.clock alive with
      ⟨token, key, r, g, -, -, -, -, -, -, -, -, -, same⟩ | ⟨after, left, same, leaves, kept⟩
    · rw [same]
      refine .inl ⟨trivial, ?_⟩
      intro d g' found
      rw [Table.find_remove] at found
      split at found
      next => cases found
      next => exact fewer d g' found
    · rw [same]
      refine .inl ⟨trivial, ?_⟩
      rcases kept with rfl | rfl
      · exact fun _ _ found => found
      · exact fewer
  | _ =>
    refine .inl ?_
    simp only [act, World.mint]
    repeat' split
    all_goals first
      | exact ⟨rfl, fun _ _ found => found⟩
      | exact ⟨trivial, fun _ _ found => found⟩

theorem held_step (sound : Sound daemon docked w) (move : Move) (d : Digest) (g : Grant)
    (found : (step digest daemon docked w move).grants.find d = some g) :
    d ∈ (step digest daemon docked w move).secrets := by
  rcases act_grants digest daemon docked w move with
    ⟨secrets, fewer⟩ | ⟨secret, e, fresh, secrets, grants⟩
  · rw [secrets]
    exact sound.held d g (fewer d g found)
  rw [secrets]
  rw [grants, elevateGranted, Table.find_put] at found
  split at found
  next here => exact List.mem_cons.mpr (.inl here)
  rw [Table.find_deleteWhere, Option.filter_eq_some_iff] at found
  exact List.mem_cons_of_mem _ (sound.held d g found.1)

theorem sound_step (sound : Sound daemon docked w) (move : Move) :
    Sound daemon docked (step digest daemon docked w move) := by
  have happens := act_happens digest daemon docked sound.paired move
  have older : ∀ d r', Traces w.state (step digest daemon docked w move).state d →
      (step digest daemon docked w move).state.records.find d = some r' →
      (d, r'.claims.capabilityId) ∈ (step digest daemon docked w move).drawn ∧ Formed daemon docked r'.claims := by
    intro d r' traces found
    obtain ⟨r, before, same, -⟩ := traces r' found
    rw [same]
    exact ⟨happens.mem_drawn (sound.recorded d r before), sound.formed d r before⟩
  have each : ∀ d r', (step digest daemon docked w move).state.records.find d = some r' →
      (d, r'.claims.capabilityId) ∈ (step digest daemon docked w move).drawn ∧ Formed daemon docked r'.claims := by
    intro d r' found
    cases happens with
    | quiet leaves => exact older d r' (leaves.traces d) found
    | mint draw claims fresh mints id formed same =>
      by_cases here : d = digest draw.token
      · subst here
        rw [mints.at_new found, id, same]
        exact ⟨List.mem_cons_self, formed⟩
      · exact older d r' (mints.traces here) found
  refine ⟨?_, fun d r found => (each d r found).1, happens.distinct sound.distinct,
    fun d r found => (each d r found).2, held_step sound move⟩
  cases happens with
  | quiet leaves => exact sound.paired.leaves leaves
  | mint draw claims fresh mints => exact sound.paired.mints (sound.unused fresh) mints

theorem Sound.start (clock : Clock) : Sound daemon docked (.start clock) :=
  ⟨.empty, fun _ _ found => (by cases found), fun _ member => absurd member List.not_mem_nil,
    fun _ _ found => (by cases found), fun _ _ found => (by cases found)⟩

theorem sound_run (sound : Sound daemon docked w) (moves : List Move) :
    Sound daemon docked (run (step digest daemon docked) moves w) :=
  run_invariant (step digest daemon docked) (fun _ => True) (Sound daemon docked)
    (fun _ move _ sound => sound_step sound move) (fun _ _ => trivial) sound

theorem clock_step (w : World) (move : Move) :
    w.clock.wall ≤ (step digest daemon docked w move).clock.wall ∧
      w.clock.instant ≤ (step digest daemon docked w move).clock.instant := by
  unfold step
  cases move with
  | pass wall instant => exact ⟨Nat.le_add_right .., Nat.le_add_right ..⟩
  | _ =>
    simp only [act, World.mint]
    repeat' split
    all_goals exact ⟨Nat.le_refl _, Nat.le_refl _⟩

/-! A token that has ended. -/

theorem ended_of_traces {w' : World} (traces : Traces w.state w'.state t.1)
    (wall : w.clock.wall ≤ w'.clock.wall) (instant : w.clock.instant ≤ w'.clock.instant)
    (ended : w.ended t = true) :
    w'.ended t = true := by
  cases still : w'.ended t with
  | true => rfl
  | false =>
    obtain ⟨r', found, unrevoked, unexpired⟩ := World.ended_eq_false.mp still
    obtain ⟨r, before, same, flagged⟩ := traces r' found
    have running : w.ended t = false := by
      refine World.ended_eq_false.mpr ⟨r, before, ?_, ?_⟩
      · exact eq_false_of_ne_true fun revoked => by
          rw [flagged revoked] at unrevoked
          cases unrevoked
      · refine eq_false_of_ne_true fun expired => ?_
        have later : r'.expired w'.clock = true := by
          have mono := r.expired_mono wall instant expired
          unfold Record.expired at mono ⊢
          rw [same]
          exact mono
        rw [later] at unexpired
        cases unexpired
    rw [ended] at running
    cases running

section
variable (sound : Sound daemon docked w)
include sound

theorem ended_step (move : Move) (drawn : t ∈ w.drawn) (ended : w.ended t = true) : (step digest daemon docked w move).ended t = true :=
  ended_of_traces ((act_happens digest daemon docked sound.paired move).traces drawn) (clock_step w move).1 (clock_step w move).2 ended

theorem ended_run (moves : List Move) (drawn : t ∈ w.drawn) (ended : w.ended t = true) :
    t ∈ (run (step digest daemon docked) moves w).drawn ∧
      (run (step digest daemon docked) moves w).ended t = true := by
  induction moves generalizing w with
  | nil => exact ⟨drawn, ended⟩
  | cons move rest ih =>
    exact ih (sound_step sound move) ((act_happens digest daemon docked sound.paired move).mem_drawn drawn) (ended_step sound move drawn ended)

theorem Sound.digest_of_id (drawn : t ∈ w.drawn) {key : Digest} (named : w.state.idOf t.2 = some key) : key = t.1 := by
  obtain ⟨r, found, carries⟩ := sound.paired.named t.2 key named
  exact (sound.distinct _ (sound.recorded key r found) t drawn).mpr carries

theorem Sound.id_of_digest (drawn : t ∈ w.drawn) {r : Record} (found : w.state.records.find t.1 = some r) : r.claims.capabilityId = t.2 :=
  (sound.distinct _ (sound.recorded t.1 r found) t drawn).mp rfl

end

variable (digest) in
def World.presents (w : World) (t : Digest × String) : Move → Prop
  | .validate token _ _ _ => digest token = t.1
  | .requireLive bearer _ => (parseBearer bearer).map digest = some t.1
  | .mintCreative _ host _ _ => digest host = t.1
  | .mintCreativeAuthorized _ authorization _ => authorization.claims.capabilityId = t.2
  | .renew _ _ id _ => id = t.2
  | .elevate _ _ id _ _ _ _ => id = t.2
  | .answered task _ _ => ∃ e, w.elevations.find task = some e ∧ e.tokenId = t.2
  | .consume _ tokenId _ _ => tokenId = t.2
  | _ => False

def World.timely (w : World) : Move → Prop
  | .mintCreative _ _ request _ => w.clock.wall ≤ request.createdAt
  | .mintCreativeAuthorized _ _ request => w.clock.wall ≤ request.createdAt
  | _ => True

theorem running {r : Record} (found : w.state.records.find t.1 = some r) (unrevoked : r.revoked = false)
    (unexpired : r.expired w.clock = false) : w.ended t = false :=
  World.ended_eq_false.mpr ⟨r, found, unrevoked, unexpired⟩

theorem host_running (sound : Sound daemon docked w) (drawn : t ∈ w.drawn) {createdAt : Nat} {key : Digest}
    {host : Record} (timely : w.clock.wall ≤ createdAt) (of : HostOf daemon w.state t.2 createdAt key host) :
    w.ended t = false := by
  obtain rfl := sound.digest_of_id drawn of.named
  refine running of.known of.unrevoked ?_
  unfold Record.expired
  rw [(sound.formed _ host of.known).host of.audience]
  exact decide_eq_false (Nat.not_le.mpr (Nat.lt_of_le_of_lt timely of.unexpired))

theorem accepted_running (sound : Sound daemon docked w) (drawn : t ∈ w.drawn) {move : Move}
    (presents : w.presents digest t move) (timely : w.timely move)
    (accepted : (reply digest daemon docked w move).accepted = true) : w.ended t = false := by
  unfold reply at accepted
  cases move with
  | validate token operation resource alive =>
    simp only [act] at accepted
    rcases validate_cases digest daemon sound.paired token operation resource w.clock alive with
      ⟨r, found, -, valid, same⟩ | ⟨e, after, same, -⟩
    · rw [show digest token = t.1 from presents] at found
      exact running found valid.unrevoked valid.unexpired
    · rw [same] at accepted
      cases accepted
  | requireLive bearer alive =>
    simp only [act] at accepted
    rcases requireLiveBearer_cases digest daemon sound.paired bearer w.clock alive with
      ⟨token, r, parsed, found, unrevoked, unexpired, same⟩ | ⟨e, after, same, -⟩
    · have here : digest token = t.1 := by
        have mine : (parseBearer bearer).map digest = some t.1 := presents
        rw [parsed] at mine
        exact Option.some.inj mine
      rw [here] at found
      exact running found unrevoked unexpired
    · rw [same] at accepted
      cases accepted
  | mintCreative draw host request alive =>
    simp only [act] at accepted
    split at accepted
    next fresh =>
      rcases mintCreative_cases digest daemon sound.paired draw host request w.clock.instant
        alive with ⟨r, found, unrevoked, unexpired, same⟩ | ⟨e, after, same, -⟩
      · rw [show digest host = t.1 from presents] at found
        refine running found unrevoked (eq_false_of_ne_true fun expired => ?_)
        have later : r.expired ⟨request.createdAt, w.clock.instant⟩ = true :=
          r.expired_mono timely (Nat.le_refl _) expired
        rw [later] at unexpired
        cases unexpired
      · rw [same] at accepted
        cases accepted
    next => cases accepted
  | mintCreativeAuthorized draw authorization request =>
    simp only [act] at accepted
    split at accepted
    next fresh =>
      rcases mintCreativeAuthorized_cases digest daemon w.state draw authorization request with
        ⟨key, host, of, -, -, -, -⟩ | ⟨e, same⟩
      · rw [show authorization.claims.capabilityId = t.2 from presents] at of
        exact host_running sound drawn timely of
      · rw [same] at accepted
        cases accepted
    next => cases accepted
  | renew draw peer id alive =>
    obtain rfl : id = t.2 := presents
    simp only [act] at accepted
    split at accepted
    next fresh =>
      rcases firstParty_mint_cases digest daemon docked w.state draw peer (some t.2)
        w.clock alive with ⟨after, -, may, -, -, -, -, -⟩ | ⟨e, same⟩ | ⟨e, id, key, -, -, -, -, same⟩
      · obtain ⟨key, r, named, found, unrevoked, unexpired, -⟩ := renewable_eq_true (may t.2 rfl)
        obtain rfl := sound.digest_of_id drawn named
        exact running found unrevoked unexpired
      · rw [same] at accepted
        cases accepted
      · rw [same] at accepted
        cases accepted
    next => cases accepted
  | elevate task peer id request details challengeId alive =>
    obtain rfl : id = t.2 := presents
    simp only [act] at accepted
    split at accepted
    next => cases accepted
    rcases elevate_cases daemon w.state task peer t.2 request details challengeId w.clock alive with
      ⟨e, key, r, named, found, unrevoked, unexpired, same⟩ | ⟨e, after, same, -⟩
    · obtain rfl := sound.digest_of_id drawn named
      exact running found unrevoked unexpired
    · rw [same] at accepted
      cases accepted
  | answered task outcome alive =>
    obtain ⟨e, listed, mine⟩ := presents
    simp only [act, listed] at accepted
    split at accepted
    next => cases accepted
    rcases elevateAnswered_cases daemon w.state e outcome w.clock alive with
      ⟨key, r, named, found, unrevoked, unexpired, same⟩ | ⟨code, after, same, -⟩
    · rw [mine] at named
      obtain rfl := sound.digest_of_id drawn named
      exact running found unrevoked unexpired
    · rw [same] at accepted
      cases accepted
  | consume secret tokenId target alive =>
    obtain rfl : tokenId = t.2 := presents
    simp only [act] at accepted
    rcases consume_cases digest daemon w.state w.grants secret t.2 target w.clock alive with
      ⟨token, key, r, g, -, named, found, -, valid, -⟩ | ⟨after, left, same, -⟩
    · obtain rfl := sound.digest_of_id drawn named
      exact running found valid.unrevoked valid.unexpired
    · rw [same] at accepted
      cases accepted
  | _ => exact absurd presents not_false

end

end Agent24.Capability
