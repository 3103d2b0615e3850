import Agent24.Capability.BearerRuns

/-! What ends a token, how a creative token came to be, and what holds of bearers in every reached state. -/

set_option autoImplicit false
namespace Agent24.Capability
open Library

section
variable (digest : Token → Digest) (daemon : String) (docked : Bool)

def World.revokes (w : World) (t : Digest × String) : Move → Prop
  | .revoke token => digest token = t.1
  | .revokeById id => id = t.2
  | .revokeByGeneration which generation =>
    ∃ r, w.state.records.find t.1 = some r ∧ which.names generation r.claims = true
  | .release peer id => id = t.2 ∧ ∃ r c, w.state.records.find t.1 = some r ∧ r.claims.firstParty = some c ∧ c.peer = peer
  | .renew draw peer id alive => id = t.2 ∧ (reply digest daemon docked w (.renew draw peer id alive)).accepted = true
  | _ => False

def World.findsDead (w : World) (t : Digest × String) (c : FirstPartyClaims) : Move → Prop
  | .validate token _ _ alive => digest token = t.1 ∧ alive c.peer = false
  | .requireLive bearer alive => (parseBearer bearer).map digest = some t.1 ∧ alive c.peer = false
  | .mintCreative draw host _ alive => w.fresh digest draw = true ∧ digest host = t.1 ∧ alive c.peer = false
  | .renew draw peer id alive => w.fresh digest draw = true ∧ id = t.2 ∧ peer = c.peer ∧ alive c.peer = false
  | .elevate task peer id _ _ _ alive =>
    w.elevations.find task = none ∧ id = t.2 ∧ peer = c.peer ∧ alive c.peer = false
  | .answered task outcome alive => ∃ e, w.elevations.find task = some e ∧ e.cleared = false ∧ e.tokenId = t.2 ∧
      e.peer = c.peer ∧ outcome = some .allowed ∧ w.clock.instant < e.deadline ∧ alive c.peer = false
  | .consume secret tokenId _ alive => (parseBearer secret).isSome = true ∧ tokenId = t.2 ∧ alive c.peer = false
  | _ => False

def Move.creative : Move → Option (Draw × CreativeMintRequest)
  | .mintCreative draw _ request _ => some (draw, request)
  | .mintCreativeAuthorized draw _ request => some (draw, request)
  | _ => none

/-- The call for a creative token is made under the authority of the record. -/
def World.hostedBy (w : World) (key : Digest) : Move → Prop
  | .mintCreative _ host _ _ => digest host = key
  | .mintCreativeAuthorized _ authorization _ => w.state.idOf authorization.claims.capabilityId = some key
  | _ => False

structure Creative (w : World) (move : Move) (request : CreativeMintRequest) (claims : CapabilityClaims) : Prop where
  asked : ∃ draw, move.creative = some (draw, request) ∧
    ∃ key host, w.hostedBy digest key move ∧ HostOf daemon w.state host.claims.capabilityId request.createdAt key host ∧
      claims = creativeClaims daemon draw host.claims request
  within : request.ttl.exceeds maxCreativeTtl = false

structure BearerRight (clock : Clock) (moves : List Move) (w : World) : Prop where
  paired : Paired w.state
  over_ : ∀ t ∈ w.drawn, w.ended t = true → ∀ later move,
    let w' := run (step digest daemon docked) later w
    w'.presents digest t move → w'.timely move → (reply digest daemon docked w' move).accepted = false
  revoked : ∀ t ∈ w.drawn, ∀ move, w.revokes digest daemon docked t move →
    (step digest daemon docked w move).ended t = true
  dead : ∀ t ∈ w.drawn, ∀ move r c, w.state.records.find t.1 = some r → r.claims.firstParty = some c →
    w.findsDead digest t c move → (step digest daemon docked w move).ended t = true
  renewal : ∀ draw peer id alive, reply digest daemon docked w (.renew draw peer id alive) = .refused →
    (step digest daemon docked w (.renew draw peer id alive)).state = w.state ∨
      ∃ key r, w.state.idOf id = some key ∧ w.state.records.find key = some r ∧
        r.claims.firstParty.map FirstPartyClaims.peer = some peer ∧ alive peer = false
  creative : ∀ token operation resource alive claims,
    reply digest daemon docked w (.validate token operation resource alive) = .authorized claims →
    claims.audience = .creativeRuntime →
    ∃ before move after request, moves = before ++ move :: after ∧
      Creative digest daemon (run (step digest daemon docked) before (.start clock)) move request claims ∧
      operation ∈ Operation.creativeAllowlist ∧ operation ∈ request.allowedOperations ∧
      w.clock.wall < request.createdAt + maxCreativeTtl ∧
      (operation.scope = .principal → resource.workspaceId = some request.workspaceId ∧
        resource.attachmentId = some request.attachmentId ∧ resource.principalId = some request.principalId) ∧
      (operation.scope = .global → resource = .global)
  shell : ∀ token operation resource alive claims,
    reply digest daemon docked w (.validate token operation resource alive) = .authorized claims →
    claims.firstParty.isSome = true → operation.isPresenceChannel = false ∧
      (docked = true → operation = .healthRead ∨ operation = .diagnosticRead)
  elevated : ∀ secret tokenId target alive,
    reply digest daemon docked w (.consume secret tokenId target alive) = .consumed →
    target.operation.isPresenceChannel = false ∧
      (docked = true → target.operation = .healthRead ∨ target.operation = .diagnosticRead) ∧
      ∃ token g, parseBearer secret = some token ∧ w.grants.find (digest token) = some g ∧ g.tokenId = tokenId ∧
        g.target = target ∧ w.clock.instant < g.expiresAt
  once : ∀ secret tokenId target alive,
    reply digest daemon docked w (.consume secret tokenId target alive) = .consumed → ∀ later tokenId' target' alive',
      reply digest daemon docked (run (step digest daemon docked) later
        (step digest daemon docked w (.consume secret tokenId target alive)))
        (.consume secret tokenId' target' alive') = .refused

end

section
variable {digest : Token → Digest} {daemon : String} {docked : Bool} {w : World} {t : Digest × String}

/-! What ends a token. -/

theorem ended_of_gone {w' : World} (gone : w'.state.records.find t.1 = none) : w'.ended t = true := by
  unfold World.ended
  rw [gone]

theorem ended_of_flagged {w' : World} (flagged : ∀ r, w'.state.records.find t.1 = some r → r.revoked = true) :
    w'.ended t = true := by
  unfold World.ended
  split
  next => rfl
  next r found => rw [flagged r found, Bool.true_or]

variable {s : State} {d : Digest} {r : Record} {alive : Liveness} {operation : Operation}

theorem find_forget_self {key : Digest} {id : String} :
    (s.forget key id).changed.records.find key = none := by
  rw [State.records_changed, State.find_forget, if_pos rfl]

theorem mark_flags {select : Record → Bool} (found : s.records.find d = some r)
    (chosen : r.revoked = true ∨ select r = true) :
    ∀ r', (s.mark select).records.find d = some r' → r'.revoked = true := by
  intro r' found'
  rw [State.find_mark, found] at found'
  obtain rfl := Option.some.inj found'
  dsimp only
  split
  next => rfl
  next other => exact chosen.resolve_right other

theorem revoke_flags {token : Token} :
    ∀ r, (revoke digest s token).2.records.find (digest token) = some r → r.revoked = true := by
  intro r found
  unfold revoke at found
  split at found
  next absent =>
    rw [absent] at found
    cases found
  next r₀ known =>
    split at found
    next already =>
      obtain rfl := Option.some.inj (known.symm.trans found)
      exact already
    next =>
      have here : r₀.digest = digest token := Table.find_key known
      exact mark_flags known (.inr (by simp [here])) r found

theorem revokeById_flags {id : String} (named : s.idOf id = some d) :
    ∀ r, (revokeById s id).2.records.find d = some r → r.revoked = true := by
  intro r found
  unfold revokeById at found
  rw [named] at found
  dsimp only at found
  split at found
  next absent =>
    rw [absent] at found
    cases found
  next r₀ known =>
    split at found
    next already =>
      obtain rfl := Option.some.inj (known.symm.trans found)
      exact already
    next =>
      have here : r₀.digest = d := Table.find_key known
      exact mark_flags known (.inr (by simp [here])) r found

theorem revokeByGeneration_flags {which : Generation} {generation : String} (known : s.records.find d = some r)
    (names : which.names generation r.claims = true) :
    ∀ r', (revokeByGeneration s which generation).2.records.find d = some r' → r'.revoked = true := by
  intro r' found
  have chosen : r.revoked = true ∨ (!r.revoked && which.names generation r.claims) = true := by
    cases r.revoked with
    | true => exact .inl rfl
    | false => exact .inr (by simpa using names)
  unfold revokeByGeneration revokeWhere at found
  dsimp only at found
  split at found
  · exact mark_flags known chosen r' found
  · exact mark_flags known chosen r' found

theorem named_of_found (sound : Sound daemon docked w) (drawn : t ∈ w.drawn)
    (found : w.state.records.find t.1 = some r) : w.state.idOf t.2 = some t.1 :=
  sound.id_of_digest drawn found ▸ sound.paired.carried t.1 r found

theorem ended_of_revokes (sound : Sound daemon docked w) (drawn : t ∈ w.drawn) {move : Move}
    (revokes : w.revokes digest daemon docked t move) : (step digest daemon docked w move).ended t = true := by
  cases known : w.state.records.find t.1 with
  | none =>
    refine ended_step sound move drawn (ended_of_gone known)
  | some r =>
    have named := named_of_found sound drawn known
    cases move with
    | revoke token =>
      have here : digest token = t.1 := revokes
      refine ended_of_flagged fun r' found => ?_
      rw [← here] at found
      exact revoke_flags r' found
    | revokeById id =>
      obtain rfl : id = t.2 := revokes
      exact ended_of_flagged fun r' found => revokeById_flags named r' found
    | revokeByGeneration which generation =>
      obtain ⟨r₀, found₀, names⟩ := revokes
      exact ended_of_flagged fun r' found => revokeByGeneration_flags found₀ names r' found
    | release peer id =>
      obtain ⟨rfl, r₀, c, found₀, first, mine⟩ := revokes
      refine ended_of_gone ?_
      unfold step
      simp only [act, FirstParty.revoke, named, found₀, Option.bind_some, first, if_pos mine]
      exact find_forget_self
    | renew draw peer id alive =>
      obtain ⟨rfl, accepted⟩ := revokes
      refine ended_of_gone ?_
      unfold reply at accepted
      unfold step
      simp only [act] at accepted ⊢
      split at accepted
      next fresh =>
        rw [if_pos fresh]
        rcases firstParty_mint_cases digest daemon docked w.state draw peer (some t.2) w.clock alive with
          ⟨after, -, -, -, new, made, -, same⟩ | ⟨e, same⟩ | ⟨e, id, key, -, -, -, -, same⟩
        · rw [same]
          have apart : t.2 ≠ (firstPartyToken docked draw peer w.clock).capabilityId :=
            ((World.of_fresh fresh).1 t drawn).2
          have named' : (w.state.insert (digest draw.token) (firstPartyToken docked draw peer w.clock)).idOf t.2 =
              some t.1 := by
            rw [State.idOf_insert, if_neg apart]
            exact named
          rw [made]
          dsimp only [Option.elim_some, World.mint]
          rw [State.forgetId_of_some named']
          exact find_forget_self
        · rw [same] at accepted
          cases accepted
        · rw [same] at accepted
          cases accepted
      next => cases accepted
    | _ => exact absurd revokes not_false

theorem processLive_eq_false {c : FirstPartyClaims} (first : r.claims.firstParty = some c)
    (dead : alive c.peer = false) : r.processLive alive = false := by
  unfold Record.processLive
  rw [first]
  exact dead

theorem validate_dead {token : Token} {resource : Resource} {clock : Clock}
    (found : s.records.find (digest token) = some r) (dead : r.processLive alive = false) :
    validate digest daemon s token operation resource clock alive =
      (.error .unauthorized, (s.forget (digest token) r.claims.capabilityId).changed) := by
  unfold validate
  rw [found]
  dsimp only
  rw [if_neg (by rw [dead]; exact Bool.false_ne_true)]

theorem livePeer_dead {peer : EnrolledPeer} {id : String} {key : Digest} {clock : Clock}
    (named : s.idOf id = some key) (found : s.records.find key = some r)
    (mine : r.claims.firstParty.map FirstPartyClaims.peer = some peer) (dead : alive peer = false) :
    livePeer daemon s peer id clock alive = (.error .notEnrolled, (s.forget key id).changed) := by
  unfold livePeer
  rw [named]
  dsimp only
  rw [found]
  dsimp only
  rw [if_neg (not_not.mpr mine), if_pos (.inr (.inr (.inr dead)))]

theorem ended_of_findsDead (sound : Sound daemon docked w) (drawn : t ∈ w.drawn) {move : Move}
    {c : FirstPartyClaims} (found : w.state.records.find t.1 = some r) (first : r.claims.firstParty = some c)
    (finds : w.findsDead digest t c move) : (step digest daemon docked w move).ended t = true := by
  have named := named_of_found sound drawn found
  have mine : r.claims.firstParty.map FirstPartyClaims.peer = some c.peer := by rw [first]; rfl
  cases move with
  | validate =>
    obtain ⟨here, dead⟩ := finds
    refine ended_of_gone ?_
    unfold step
    simp only [act]
    rw [validate_dead (by rw [here]; exact found) (processLive_eq_false first dead), here]
    exact find_forget_self
  | requireLive bearer alive =>
    obtain ⟨parses, dead⟩ := finds
    obtain ⟨token, parsed, here⟩ := Option.map_eq_some_iff.mp parses
    refine ended_of_gone ?_
    unfold step
    simp only [act, requireLiveBearer, parsed, here, found, processLive_eq_false first dead]
    exact find_forget_self
  | mintCreative =>
    obtain ⟨fresh, here, dead⟩ := finds
    refine ended_of_gone ?_
    unfold step
    simp only [act]
    rw [if_pos fresh]
    unfold mintCreative
    rw [validate_dead (by rw [here]; exact found) (processLive_eq_false first dead), here]
    exact find_forget_self
  | renew draw peer =>
    obtain ⟨fresh, rfl, rfl, dead⟩ := finds
    by_cases over_ : w.ended t = true
    · exact ended_step sound _ drawn over_
    obtain ⟨r', found', unrevoked, unexpired⟩ := World.ended_eq_false.mp (eq_false_of_ne_true over_)
    obtain rfl := Option.some.inj (found.symm.trans found')
    have formed := sound.formed t.1 r found
    have ready : renewable w.state c.peer w.clock t.2 = true := by
      unfold renewable
      rw [named]
      dsimp only
      rw [found]
      dsimp only
      rw [unrevoked, unexpired, mine]
      simp
    refine ended_of_gone ?_
    unfold step
    simp only [act]
    rw [if_pos fresh]
    unfold FirstParty.mint
    rw [if_neg (not_not.mpr (formed.peer c first)), if_neg (by rw [Option.all_some, ready]; exact Bool.noConfusion),
      if_pos dead, Option.elim_some, State.forgetId_of_some named]
    exact find_forget_self
  | elevate =>
    obtain ⟨free, rfl, rfl, dead⟩ := finds
    refine ended_of_gone ?_
    unfold step
    simp only [act]
    rw [if_neg (by rw [free]; exact Bool.false_ne_true)]
    unfold elevate
    rw [livePeer_dead named found mine dead]
    exact find_forget_self
  | answered =>
    obtain ⟨e, listed, waiting, mineId, minePeer, rfl, early, dead⟩ := finds
    refine ended_of_gone ?_
    unfold step
    simp only [act, listed]
    rw [if_neg (by rw [waiting]; exact Bool.false_ne_true)]
    unfold elevateAnswered
    rw [if_neg (Nat.not_le.mpr early), minePeer, mineId, livePeer_dead named found mine dead]
    exact find_forget_self
  | consume =>
    obtain ⟨parses, rfl, dead⟩ := finds
    obtain ⟨token, parsed⟩ := Option.isSome_iff_exists.mp parses
    refine ended_of_gone ?_
    unfold step
    simp only [act, consume, parsed, named, found, processLive_eq_false first dead]
    exact find_forget_self
  | _ => exact absurd finds not_false

theorem renewal_refused {draw : Draw} {peer : EnrolledPeer} {id : String}
    (refused : reply digest daemon docked w (.renew draw peer id alive) = .refused) :
    (step digest daemon docked w (.renew draw peer id alive)).state = w.state ∨
      ∃ key r, w.state.idOf id = some key ∧ w.state.records.find key = some r ∧
        r.claims.firstParty.map FirstPartyClaims.peer = some peer ∧ alive peer = false := by
  unfold reply at refused
  unfold step
  simp only [act] at refused ⊢
  split at refused
  next fresh =>
    rw [if_pos fresh]
    rcases firstParty_mint_cases digest daemon docked w.state draw peer (some id) w.clock alive with
      ⟨after, -, -, -, -, -, -, same⟩ | ⟨e, same⟩ | ⟨e, id', key, old, ready, named, dead, same⟩
    · rw [same] at refused
      cases refused
    · rw [same]
      exact .inl rfl
    obtain rfl := Option.some.inj old
    obtain ⟨key', r, named', found, -, -, mine⟩ := renewable_eq_true ready
    exact .inr ⟨key', r, named', found, mine, dead⟩
  next => cases refused

/-! Where tokens come from. -/

theorem reply_minted_creative (sound : Sound daemon docked w) {move : Move} {claims : CapabilityClaims}
    (minted : reply digest daemon docked w move = .minted d claims)
    (audience : claims.audience = .creativeRuntime) :
    ∃ request, Creative digest daemon w move request claims := by
  have authorized : ∀ (draw : Draw) (authorization : Authorization) (request : CreativeMintRequest),
      (w.mint digest draw (mintCreativeAuthorized digest daemon w.state draw authorization request)).1 =
        .minted d claims → ∃ key host, w.state.idOf authorization.claims.capabilityId = some key ∧
          HostOf daemon w.state host.claims.capabilityId request.createdAt key host ∧
          claims = creativeClaims daemon draw host.claims request ∧ request.ttl.exceeds maxCreativeTtl = false := by
    intro draw authorization request minted
    rcases mintCreativeAuthorized_cases digest daemon w.state draw authorization request with
      ⟨key, host, of, agrees, within, -, same⟩ | ⟨e, same⟩
    · rw [same] at minted
      cases minted
      exact ⟨key, host, of.named, agrees ▸ of, rfl, within⟩
    · rw [same] at minted
      cases minted
  have shell : ∀ (draw : Draw) (peer : EnrolledPeer) (old : Option String) (alive : Liveness),
      (w.mint digest draw (FirstParty.mint digest daemon docked w.state draw peer old w.clock alive)).1 ≠
        .minted d claims := by
    intro draw peer old alive minted
    rcases firstParty_mint_cases digest daemon docked w.state draw peer old w.clock alive with
      ⟨after, -, -, -, -, -, -, same⟩ | ⟨e, same⟩ | ⟨e, id, key, -, -, -, -, same⟩
    · rw [same] at minted
      cases minted
      cases audience
    · rw [same] at minted
      cases minted
    · rw [same] at minted
      cases minted
  cases act_happens digest daemon docked sound.paired move with
  | quiet leaves drawn unminted => exact absurd minted (unminted d claims)
  | mint draw₀ claims₀ =>
    unfold reply at minted
    cases move with
    | mintProductHost draw =>
      simp only [act] at minted
      split at minted
      next fresh =>
        unfold mintProductHost at minted
        rcases insertLocked_cases digest w.state draw _ with taken | ⟨new, inserted⟩
        · rw [taken] at minted
          cases minted
        rw [inserted] at minted
        cases minted
        cases audience
      next => cases minted
    | mintCreative draw host request alive =>
      simp only [act] at minted
      split at minted
      next fresh =>
        rcases mintCreative_cases digest daemon sound.paired draw host request w.clock.instant alive with
          ⟨r, found, -, -, same⟩ | ⟨e, after, same, -⟩
        · rw [same] at minted
          obtain ⟨key, host', named, of, made, within⟩ := authorized draw _ request minted
          have here : digest host = key :=
            Option.some.inj ((sound.paired.carried _ r found).symm.trans named)
          exact ⟨request, ⟨⟨draw, rfl, key, host', here, of, made⟩, within⟩⟩
        · rw [same] at minted
          cases minted
      next => cases minted
    | mintCreativeAuthorized draw authorization request =>
      simp only [act] at minted
      split at minted
      next fresh =>
        obtain ⟨key, host, named, of, made, within⟩ := authorized draw authorization request minted
        exact ⟨request, ⟨⟨draw, rfl, key, host, named, of, made⟩, within⟩⟩
      next => cases minted
    | issue draw peer alive =>
      simp only [act] at minted
      split at minted
      next => exact absurd minted (shell draw peer none alive)
      next => cases minted
    | renew draw peer id alive =>
      simp only [act] at minted
      split at minted
      next => exact absurd minted (shell draw peer (some id) alive)
      next => cases minted
    | validate =>
      simp only [act] at minted
      split at minted <;> cases minted
    | requireLive bearer alive =>
      simp only [act] at minted
      split at minted <;> cases minted
    | elevate =>
      simp only [act] at minted
      repeat' split at minted
      all_goals cases minted
    | answered =>
      simp only [act] at minted
      repeat' split at minted
      all_goals cases minted
    | granted task secret =>
      simp only [act] at minted
      repeat' split at minted
      all_goals cases minted
    | consume =>
      simp only [act] at minted
      split at minted <;> cases minted
    | _ => cases minted

theorem record_minted (clock : Clock) (moves : List Move) (d : Digest) (r : Record)
    (found : (run (step digest daemon docked) moves (.start clock)).state.records.find d = some r) :
    ∃ before move after, moves = before ++ move :: after ∧
      reply digest daemon docked (run (step digest daemon docked) before (.start clock)) move = .minted d r.claims := by
  induction moves using List.reverseRecOn generalizing r with
  | nil => cases found
  | append_singleton earlier last ih =>
    rw [run_append, run_cons, run_nil] at found
    have sound : Sound daemon docked (run (step digest daemon docked) earlier (.start clock)) :=
      sound_run (Sound.start clock) earlier
    have older : Traces (run (step digest daemon docked) earlier (.start clock)).state
        (step digest daemon docked (run (step digest daemon docked) earlier (.start clock)) last).state d →
        ∃ before move after, earlier ++ [last] = before ++ move :: after ∧
          reply digest daemon docked (run (step digest daemon docked) before (.start clock)) move =
            .minted d r.claims := by
      intro traces
      obtain ⟨r₀, found₀, same, -⟩ := traces r found
      obtain ⟨before, move, after, split_, minted⟩ := ih r₀ found₀
      refine ⟨before, move, after ++ [last], ?_, same ▸ minted⟩
      rw [split_, List.append_assoc, List.cons_append]
    cases act_happens digest daemon docked sound.paired last with
    | quiet leaves => exact older (leaves.traces d)
    | mint draw claims fresh mints id formed drawn minted =>
      by_cases here : d = digest draw.token
      · subst here
        exact ⟨earlier, last, [], rfl, by rw [minted, mints.at_new found]⟩
      · exact older (mints.traces here)

theorem reply_authorized (sound : Sound daemon docked w) {token : Token} {resource : Resource}
    {claims : CapabilityClaims}
    (authorized : reply digest daemon docked w (.validate token operation resource alive) = .authorized claims) :
    ∃ r, w.state.records.find (digest token) = some r ∧ r.claims = claims ∧
      Validated daemon r operation resource w.clock := by
  unfold reply at authorized
  simp only [act] at authorized
  rcases validate_cases digest daemon sound.paired token operation resource w.clock alive with
    ⟨r, found, -, valid, same⟩ | ⟨e, after, same, -⟩
  · rw [same] at authorized
    cases authorized
    exact ⟨r, found, rfl, valid⟩
  · rw [same] at authorized
    cases authorized

theorem spent_run (moves : List Move) (listed : d ∈ w.secrets) (spent : w.grants.find d = none) :
    (run (step digest daemon docked) moves w).grants.find d = none := by
  induction moves generalizing w with
  | nil => exact spent
  | cons move rest ih =>
    have next_ : d ∈ (step digest daemon docked w move).secrets ∧
        (step digest daemon docked w move).grants.find d = none := by
      rcases act_grants digest daemon docked w move with ⟨secrets, fewer⟩ | ⟨secret, e, fresh, secrets, grants⟩
      · refine ⟨secrets ▸ listed, ?_⟩
        cases found : (step digest daemon docked w move).grants.find d with
        | none => rfl
        | some g =>
          have before := fewer d g found
          rw [spent] at before
          cases before
      · refine ⟨secrets ▸ List.mem_cons_of_mem _ listed, ?_⟩
        have apart : d ≠ digest secret := by
          rintro rfl
          exact (World.of_freshSecret fresh).2 listed
        rw [grants, elevateGranted, Table.find_put_of_ne (by exact apart), Table.find_deleteWhere, spent]
        rfl
    exact ih next_.1 next_.2

theorem shell_operation (sound : Sound daemon docked w) {key : Digest} {resource : Resource}
    (found : w.state.records.find key = some r) (shell : r.claims.audience = .firstPartyShell)
    (valid : Validated daemon r operation resource w.clock) :
    operation.isPresenceChannel = false ∧ (docked = true → operation = .healthRead ∨ operation = .diagnosticRead) := by
  have allowed : operation ∈ firstPartyOperations docked := by
    rcases valid.allowed with host | ⟨allowed, -⟩
    · rw [shell] at host
      cases host
    · rw [((sound.formed key r found).shell shell).2] at allowed
      exact allowed
  refine ⟨firstPartyOperations_presence allowed, ?_⟩
  rintro rfl
  exact firstPartyOperations_docked allowed

theorem consumed_once (sound : Sound daemon docked w) {secret tokenId tokenId' : String}
    {target target' : Target} {alive' : Liveness}
    (consumed : reply digest daemon docked w (.consume secret tokenId target alive) = .consumed)
    (later : List Move) : reply digest daemon docked (run (step digest daemon docked) later
      (step digest daemon docked w (.consume secret tokenId target alive)))
      (.consume secret tokenId' target' alive') = .refused := by
  unfold reply at consumed
  simp only [act] at consumed
  rcases consume_cases digest daemon w.state w.grants secret tokenId target w.clock alive with
    ⟨token, key, r, g, parsed, -, -, -, -, held, -, -, -, same⟩ | ⟨after, left, same, -⟩
  · have listed : digest token ∈ (step digest daemon docked w (.consume secret tokenId target alive)).secrets :=
      sound.held _ g held
    have used : (step digest daemon docked w (.consume secret tokenId target alive)).grants.find (digest token) =
        none := by
      unfold step
      simp only [act]
      rw [same]
      exact Table.find_remove_self
    have spent : (run (step digest daemon docked) later _).grants.find (digest token) = none :=
      spent_run later listed used
    generalize run (step digest daemon docked) later _ = after at spent ⊢
    unfold reply
    simp only [act]
    rcases consume_cases digest daemon after.state after.grants secret tokenId' target' after.clock alive' with
      ⟨token', key', r', g', parsed', -, -, -, -, held', -⟩ | ⟨_, _, same', -⟩
    · obtain rfl := Option.some.inj (parsed.symm.trans parsed')
      rw [spent] at held'
      cases held'
    · rw [same']
      rfl
  · rw [same] at consumed
    cases consumed

end

variable (digest : Token → Digest) (daemon : String) (docked : Bool)

/-- In every state that calls lead to, a token that has ended stays ended, and one that authorises was minted for it. -/
theorem bearer_right (clock : Clock) (moves : List Move) :
    BearerRight digest daemon docked clock moves (run (step digest daemon docked) moves (.start clock)) := by
  have sound : Sound daemon docked (run (step digest daemon docked) moves (.start clock)) :=
    sound_run (Sound.start clock) moves
  constructor
  · exact sound.paired
  · intro t drawn ended later move w' presents timely
    have drawn' : t ∈ w'.drawn := (ended_run sound later drawn ended).1
    have ended' : w'.ended t = true := (ended_run sound later drawn ended).2
    refine eq_false_of_ne_true fun accepted => ?_
    rw [accepted_running (sound_run sound later) drawn' presents timely accepted] at ended'
    cases ended'
  · exact fun t drawn move revokes => ended_of_revokes sound drawn revokes
  · exact fun t drawn move r c found first finds => ended_of_findsDead sound drawn found first finds
  · exact fun draw peer id alive refused => renewal_refused refused
  · intro token operation resource alive claims authorized audience
    obtain ⟨r, found, rfl, valid⟩ := reply_authorized sound authorized
    obtain ⟨before, move, after, split_, minted⟩ := record_minted clock moves (digest token) r found
    have soundBefore : Sound daemon docked (run (step digest daemon docked) before (.start clock)) :=
      sound_run (Sound.start clock) before
    obtain ⟨request, made⟩ := reply_minted_creative soundBefore minted audience
    obtain ⟨draw, asked, key, host, hosted, of, same⟩ := made.asked
    have allowed : operation ∈ r.claims.allowedOperations ∧ resource.exact operation r.claims = true := by
      rcases valid.allowed with isHost | allowed
      · rw [audience] at isHost
        cases isHost
      · exact allowed
    have unexpired := valid.unexpired
    unfold Record.expired at unexpired
    rw [same] at allowed unexpired
    have listed := Finset.mem_inter.mp allowed.1
    have exact_ := allowed.2
    unfold Resource.exact at exact_
    refine ⟨before, move, after, request, split_, made, listed.2, listed.1, ?_, ?_, ?_⟩
    · have early := Nat.not_le.mp (of_decide_eq_false unexpired)
      have within := made.within
      unfold Duration.exceeds at within
      rw [Bool.or_eq_false_iff, decide_eq_false_iff_not, Nat.not_lt] at within
      exact Nat.lt_of_lt_of_le early ((Nat.min_le_left ..).trans (Nat.add_le_add_left within.1 _))
    · intro principal
      rw [principal] at exact_
      simp only [Bool.and_eq_true, beq_iff_eq] at exact_
      exact ⟨exact_.1.1, exact_.1.2, exact_.2⟩
    · intro global
      rw [global] at exact_
      exact beq_iff_eq.mp exact_
  · intro token operation resource alive claims authorized first
    obtain ⟨r, found, rfl, valid⟩ := reply_authorized sound authorized
    have shell : r.claims.audience = .firstPartyShell := by
      have formed := sound.formed (digest token) r found
      cases audience : r.claims.audience with
      | firstPartyShell => rfl
      | productHost =>
        rw [formed.host audience] at first
        cases first
      | creativeRuntime =>
        rw [formed.creative audience] at first
        cases first
    exact shell_operation sound found shell valid
  · intro secret tokenId target alive consumed
    unfold reply at consumed
    simp only [act] at consumed
    rcases consume_cases digest daemon _ _ secret tokenId target _ alive with
      ⟨token, key, r, g, parsed, named, found, shell, valid, held, current, mine, same, -⟩ | ⟨after, left, same, -⟩
    · obtain ⟨channel, only⟩ := shell_operation sound found shell valid
      exact ⟨channel, only, token, g, parsed, held, mine, same, current⟩
    · rw [same] at consumed
      cases consumed
  · intro secret tokenId target alive consumed later tokenId' target' alive'
    exact consumed_once sound consumed later

/-- An elevation that has passed its last check hands out its grant even if the token is revoked meanwhile. -/
theorem granted_after_revocation :
    let peer : EnrolledPeer := ⟨"c", 501, 7, ⟨1, 2⟩, ⟨"agent24", "team", "/usr/local/bin/agent24", none⟩, "g"⟩
    let alive : Liveness := fun _ => true
    let w := run (step id "g" false)
      [.issue ⟨5, "t"⟩ peer alive,
        .elevate 0 peer "t" ⟨"POST", "/api/v1/attached", "00"⟩ (fun _ => some "register") "c0" alive,
        .answered 0 (some .allowed) alive, .revokeById "t"] (.start ⟨0, 0⟩)
    (5, "t") ∈ w.drawn ∧ w.ended (5, "t") = true ∧
      reply id "g" false w (.granted 0 9) =
        .granted "t" ⟨.moduleAdmin, "POST", "/api/v1/attached", "/api/v1/attached", "00"⟩ := by
  decide +kernel

end Agent24.Capability
