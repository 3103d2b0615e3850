import Agent24.Os.Generation

/-! A generation against its history: what it admitted, what the revocation listed, what requests learn. -/

set_option autoImplicit false
namespace Agent24.Os
open Library List

def DrainEvent.request : DrainEvent → Option InFlight
  | .admitted request _ => some request
  | .accepted request _ => some request
  | .revoked _ => none
  | .dispatched request => some request
  | .finished request _ => some request
  | .dropped request => some request

structure Live (history : List DrainEvent) (request : InFlight) : Prop where
  admitted : ∃ tokenHash, .admitted request tokenHash ∈ history
  unfinished : ∀ result, .finished request result ∉ history
  kept : .dropped request ∉ history

def Unrevoked (history : List DrainEvent) : Prop := ∀ revocation, .revoked revocation ∉ history

def Right (P : Platform) (earlier : List DrainEvent) : DrainEvent → Prop
  | .admitted request _ => Unrevoked earlier ∧ ∀ other, Live earlier other → other.id ≠ request.id
  | .accepted request token => Unrevoked earlier ∧ Live earlier request ∧
      .admitted request (P.sha256 token) ∈ earlier ∧ ∀ token', .accepted request token' ∉ earlier
  | .revoked revocation => Unrevoked earlier ∧ (revocation.abandoned ++ revocation.neverSent).Nodup ∧
      (∀ id, id ∈ revocation.abandoned ↔
        ∃ request, Live earlier request ∧ request.id = id ∧ .dispatched request ∈ earlier) ∧
      ∀ id, id ∈ revocation.neverSent ↔
        ∃ request, Live earlier request ∧ request.id = id ∧ .dispatched request ∉ earlier
  | .dispatched request => Unrevoked earlier ∧ Live earlier request
  | .finished request result => Live earlier request ∧
      (result = .error ⟨true⟩ ↔ ∃ revocation, .revoked revocation ∈ earlier ∧ request.id ∈ revocation.abandoned) ∧
      (result = .error ⟨false⟩ ↔ ∃ revocation, .revoked revocation ∈ earlier ∧ request.id ∈ revocation.neverSent)
  | .dropped request => Live earlier request

def InFlightEntry.request (entry : InFlightEntry) : InFlight := ⟨entry.id, entry.ended⟩

structure Agreed (P : Platform) (s : Drained) : Prop where
  held : ∀ request, request ∈ s.held ↔ Live s.history request
  distinct : (s.held.map InFlight.id).Nodup
  entries : ∀ request, request ∈ s.held ↔
    ∃ entry ∈ s.generation.inFlight.rows, entry.request = request
  tokens : ∀ entry ∈ s.generation.inFlight.rows, .admitted entry.request entry.token.hash ∈ s.history ∧
    (entry.token.used = false → ∀ token, .accepted entry.request token ∉ s.history)
  dispatched : ∀ id, id ∈ s.generation.dispatched ↔
    ∃ request ∈ s.held, request.id = id ∧ .dispatched request ∈ s.history
  revoked : s.generation.state = .revoked ↔ ∃ revocation, .revoked revocation ∈ s.history
  listed : ∀ revocation, .revoked revocation ∈ s.history → ∀ request ∈ s.held,
    (request.id ∈ revocation.abandoned ↔ request.id ∈ s.generation.dispatched) ∧
      (request.id ∈ revocation.neverSent ↔ request.id ∉ s.generation.dispatched)
  fresh : ∀ event ∈ s.history, ∀ request, event.request = some request → request.ended < s.generation.channels
  placeholder : s.generation.upstream = .placeholder →
    s.generation.state = .starting ∨ s.generation.state = .revoked
  justified : Justified (Right P) s.history

section Events
variable {history : List DrainEvent} {request other : InFlight}

theorem live_admitted {tokenHash : BitVec 256}
    (unseen : ∀ event ∈ history, event.request ≠ some request) :
    Live (.admitted request tokenHash :: history) other ↔ other = request ∨ Live history other := by
  constructor
  · rintro ⟨⟨hash, admitted⟩, unfinished, kept⟩
    rcases mem_cons.mp admitted with same | earlier
    · cases same
      exact .inl rfl
    · exact .inr ⟨⟨hash, earlier⟩, fun result member => unfinished result (mem_cons_of_mem _ member),
        fun member => kept (mem_cons_of_mem _ member)⟩
  · rintro (rfl | ⟨⟨hash, admitted⟩, unfinished, kept⟩)
    · refine ⟨⟨tokenHash, mem_cons_self ..⟩, fun result member => ?_, fun member => ?_⟩
      · rcases mem_cons.mp member with same | earlier
        · cases same
        · exact unseen _ earlier rfl
      · rcases mem_cons.mp member with same | earlier
        · cases same
        · exact unseen _ earlier rfl
    · refine ⟨⟨hash, mem_cons_of_mem _ admitted⟩, fun result member => ?_, fun member => ?_⟩
      · rcases mem_cons.mp member with same | earlier
        · cases same
        · exact unfinished result earlier
      · rcases mem_cons.mp member with same | earlier
        · cases same
        · exact kept earlier

def DrainEvent.ended : DrainEvent → Option InFlight
  | .finished request _ => some request
  | .dropped request => some request
  | _ => none

theorem live_ended {event : DrainEvent} (ends : event.ended = some request) :
    Live (event :: history) other ↔ Live history other ∧ other ≠ request := by
  have plain : ∀ r hash, event ≠ .admitted r hash := by
    rintro r hash rfl
    cases ends
  constructor
  · rintro ⟨⟨hash, admitted⟩, unfinished, kept⟩
    refine ⟨⟨⟨hash, (mem_cons.mp admitted).resolve_left fun same => plain _ _ same.symm⟩,
      fun result member => unfinished result (mem_cons_of_mem _ member),
      fun member => kept (mem_cons_of_mem _ member)⟩, ?_⟩
    rintro rfl
    cases event <;> cases ends
    · exact unfinished _ (mem_cons_self ..)
    · exact kept (mem_cons_self ..)
  · rintro ⟨⟨⟨hash, admitted⟩, unfinished, kept⟩, apart⟩
    refine ⟨⟨hash, mem_cons_of_mem _ admitted⟩, fun result member => ?_, fun member => ?_⟩
    · rcases mem_cons.mp member with rfl | earlier
      · cases ends
        exact apart rfl
      · exact unfinished result earlier
    · rcases mem_cons.mp member with rfl | earlier
      · cases ends
        exact apart rfl
      · exact kept earlier

theorem live_other {event : DrainEvent} (plain : ∀ r hash, event ≠ .admitted r hash)
    (open_ : event.ended = none) : Live (event :: history) other ↔ Live history other := by
  constructor
  · rintro ⟨⟨hash, admitted⟩, unfinished, kept⟩
    exact ⟨⟨hash, (mem_cons.mp admitted).resolve_left fun same => plain _ _ same.symm⟩,
      fun result member => unfinished result (mem_cons_of_mem _ member),
      fun member => kept (mem_cons_of_mem _ member)⟩
  · rintro ⟨⟨hash, admitted⟩, unfinished, kept⟩
    refine ⟨⟨hash, mem_cons_of_mem _ admitted⟩, fun result member => ?_, fun member => ?_⟩
    · rcases mem_cons.mp member with rfl | earlier
      · cases open_
      · exact unfinished result earlier
    · rcases mem_cons.mp member with rfl | earlier
      · cases open_
      · exact kept earlier

end Events

section Steps
variable {P : Platform} {s : Drained}

theorem Agreed.start (upstream : Upstream) : Agreed P (.start upstream) where
  held request := iff_of_false not_mem_nil fun live => by
    obtain ⟨hash, member⟩ := live.admitted
    cases member
  distinct := .nil
  entries request := iff_of_false not_mem_nil fun listed => by
    obtain ⟨entry, member, -⟩ := listed
    cases member
  tokens := forall_mem_nil _
  dispatched id := iff_of_false (Finset.notMem_empty _) fun listed => by
    obtain ⟨request, member, -⟩ := listed
    cases member
  revoked := iff_of_false nofun fun listed => by
    obtain ⟨revocation, member⟩ := listed
    cases member
  listed revocation member := by cases member
  fresh := forall_mem_nil _
  placeholder _ := .inl rfl
  justified := trivial

section
variable (agreed : Agreed P s)
include agreed

theorem Agreed.held_eq {one other : InFlight} (held : one ∈ s.held) (held' : other ∈ s.held)
    (same : one.id = other.id) : one = other :=
  inj_on_of_nodup_map agreed.distinct held held' same

theorem Agreed.unrevoked (live : s.generation.state ≠ .revoked) : Unrevoked s.history :=
  fun revocation member => live (agreed.revoked.mpr ⟨revocation, member⟩)

theorem Agreed.find_held {request : InFlight} (held : request ∈ s.held) :
    ∃ entry, s.generation.inFlight.find request.id = some entry ∧ entry.request = request := by
  obtain ⟨entry, member, rfl⟩ := (agreed.entries request).mp held
  exact ⟨entry, Table.find_eq_some.mpr ⟨member, rfl⟩, rfl⟩

theorem Agreed.id_in_flight (id : String) :
    (s.generation.inFlight.find id).isSome ↔ ∃ request, Live s.history request ∧ request.id = id := by
  constructor
  · intro found
    obtain ⟨entry, found⟩ := Option.isSome_iff_exists.mp found
    obtain ⟨member, rfl⟩ := Table.find_eq_some.mp found
    exact ⟨entry.request, (agreed.held _).mp ((agreed.entries _).mpr ⟨entry, member, rfl⟩), rfl⟩
  · rintro ⟨request, live, rfl⟩
    obtain ⟨entry, found, -⟩ := agreed.find_held ((agreed.held request).mpr live)
    rw [found]
    rfl

theorem Agreed.channel {request : InFlight} (held : request ∈ s.held) :
    request.ended < s.generation.channels := by
  obtain ⟨hash, member⟩ := ((agreed.held request).mp held).admitted
  exact agreed.fresh _ member request rfl

theorem Agreed.moved {state : DrainState} (deadline : Option Nat) (up : s.generation.state.rank ≤ state.rank)
    (live : state ≠ .revoked) (real : s.generation.upstream ≠ .placeholder ∨ s.generation.state = .running) :
    Agreed P { s with generation := { s.generation with state := state, drainDeadline := deadline } } where
  held := agreed.held
  distinct := agreed.distinct
  entries := agreed.entries
  tokens := agreed.tokens
  dispatched := agreed.dispatched
  revoked := by
    refine iff_of_false live fun revoked => ?_
    rw [agreed.revoked.mpr revoked] at up
    cases state
    all_goals first | exact live rfl | exact absurd up (by decide)
  listed := agreed.listed
  fresh := agreed.fresh
  placeholder placeholder := by
    rcases real with real | running
    · exact absurd placeholder real
    rcases agreed.placeholder placeholder with starting | revoked
    · rw [running] at starting
      cases starting
    · rw [running] at revoked
      cases revoked
  justified := agreed.justified

theorem Agreed.admission {id : String} (tokenHash : BitVec 256) (deadline : Nat)
    (running : s.generation.state = .running) (absent : s.generation.inFlight.find id = none) :
    Agreed P ⟨{ s.generation with
        inFlight := s.generation.inFlight.put ⟨id, s.generation.channels, ⟨tokenHash, false⟩, deadline⟩
        channels := s.generation.channels + 1 },
      ⟨id, s.generation.channels⟩ :: s.held, .admitted ⟨id, s.generation.channels⟩ tokenHash :: s.history⟩ := by
  have live : s.generation.state ≠ .revoked := by
    rw [running]
    exact fun same => by cases same
  have unrevoked := agreed.unrevoked live
  have unseen : ∀ event ∈ s.history, event.request ≠ some ⟨id, s.generation.channels⟩ := by
    intro event member same
    exact absurd (agreed.fresh event member _ same) (Nat.lt_irrefl _)
  have apart : ∀ request ∈ s.held, request.id ≠ id := by
    rintro request held rfl
    obtain ⟨entry, found, -⟩ := agreed.find_held held
    rw [absent] at found
    cases found
  have rows : ∀ entry, entry ∈ (s.generation.inFlight.put
      ⟨id, s.generation.channels, ⟨tokenHash, false⟩, deadline⟩).rows ↔
        entry = ⟨id, s.generation.channels, ⟨tokenHash, false⟩, deadline⟩ ∨ entry ∈ s.generation.inFlight.rows := by
    intro entry
    rw [Table.mem_put]
    refine or_congr_right (and_iff_left_of_imp fun member same => ?_)
    exact apart entry.request ((agreed.entries _).mpr ⟨entry, member, rfl⟩) same
  constructor
  · intro request
    rw [mem_cons, live_admitted unseen, agreed.held]
  · refine nodup_cons.mpr ⟨fun listed => ?_, agreed.distinct⟩
    obtain ⟨request, held, same⟩ := mem_map.mp listed
    exact apart request held same
  · intro request
    simp only [mem_cons, rows, agreed.entries request]
    constructor
    · rintro (rfl | ⟨entry, member, rfl⟩)
      · exact ⟨_, .inl rfl, rfl⟩
      · exact ⟨entry, .inr member, rfl⟩
    · rintro ⟨entry, rfl | member, rfl⟩
      · exact .inl rfl
      · exact .inr ⟨entry, member, rfl⟩
  · intro entry listed
    rcases (rows entry).mp listed with rfl | member
    · refine ⟨mem_cons_self .., fun _ token accepted => ?_⟩
      rcases mem_cons.mp accepted with same | earlier
      · cases same
      · exact unseen _ earlier rfl
    · obtain ⟨admitted, unused⟩ := agreed.tokens entry member
      refine ⟨mem_cons_of_mem _ admitted, fun free token accepted => ?_⟩
      exact unused free token ((mem_cons.mp accepted).resolve_left (fun same => by cases same))
  · intro name
    rw [agreed.dispatched]
    constructor
    · rintro ⟨request, held, rfl, sent⟩
      exact ⟨request, mem_cons_of_mem _ held, rfl, mem_cons_of_mem _ sent⟩
    · rintro ⟨request, held, rfl, sent⟩
      have earlier := (mem_cons.mp sent).resolve_left (fun same => by cases same)
      rcases mem_cons.mp held with rfl | held
      · exact absurd rfl (unseen _ earlier)
      · exact ⟨request, held, rfl, earlier⟩
  · refine iff_of_false live ?_
    rintro ⟨revocation, member⟩
    exact unrevoked revocation ((mem_cons.mp member).resolve_left (fun same => by cases same))
  · intro revocation member
    exact absurd ((mem_cons.mp member).resolve_left (fun same => by cases same)) (unrevoked revocation)
  · refine forall_mem_cons.mpr ⟨?_, fun event member request here => ?_⟩
    · rintro request ⟨⟩
      exact Nat.lt_succ_self _
    · exact Nat.lt_succ_of_lt (agreed.fresh event member request here)
  · intro placeholder
    exact agreed.placeholder placeholder
  · refine ⟨⟨unrevoked, fun other live' => ?_⟩, agreed.justified⟩
    exact apart other ((agreed.held other).mpr live')

theorem Agreed.accept {entry : InFlightEntry} {token : String} (live : s.generation.state ≠ .revoked)
    (found : s.generation.inFlight.find entry.id = some entry) (unused : entry.token.used = false)
    (matching : entry.token.hash = P.sha256 token) :
    Agreed P ⟨{ s.generation with
        inFlight := s.generation.inFlight.set { entry with token := { entry.token with used := true } } },
      s.held, .accepted ⟨entry.id, entry.ended⟩ token :: s.history⟩ := by
  obtain ⟨member, -⟩ := Table.find_eq_some.mp found
  have held : entry.request ∈ s.held := (agreed.entries _).mpr ⟨entry, member, rfl⟩
  have unrevoked := agreed.unrevoked live
  obtain ⟨admitted, unspent⟩ := agreed.tokens entry member
  have same_live (other : InFlight) : Live (.accepted entry.request token :: s.history) other ↔ Live s.history other :=
    live_other nofun rfl
  -- each row is the one before, but for the token of the accepted one
  have rows : ∀ after, after ∈ (s.generation.inFlight.set
      { entry with token := { entry.token with used := true } }).rows ↔
        ∃ before ∈ s.generation.inFlight.rows,
          (if before.id = entry.id then { entry with token := { entry.token with used := true } } else before) =
            after := fun after => mem_map
  have only : ∀ before ∈ s.generation.inFlight.rows, before.id = entry.id → before = entry := fun before here same =>
    inj_on_of_nodup_map s.generation.inFlight.distinct here member same
  constructor
  · intro request
    rw [agreed.held]
    exact (same_live request).symm
  · exact agreed.distinct
  · intro request
    rw [agreed.entries]
    constructor
    · rintro ⟨before, here, rfl⟩
      refine ⟨_, (rows _).mpr ⟨before, here, rfl⟩, ?_⟩
      split
      · rename_i same
        rw [only before here same]
        rfl
      · rfl
    · rintro ⟨after, listed, rfl⟩
      obtain ⟨before, here, rfl⟩ := (rows after).mp listed
      refine ⟨before, here, ?_⟩
      split
      · rename_i same
        rw [only before here same]
        rfl
      · rfl
  · intro after listed
    obtain ⟨before, here, rfl⟩ := (rows after).mp listed
    split
    · exact ⟨mem_cons_of_mem _ admitted, nofun⟩
    rename_i apart
    obtain ⟨admitted', unspent'⟩ := agreed.tokens before here
    refine ⟨mem_cons_of_mem _ admitted', fun free token' accepted => ?_⟩
    rcases mem_cons.mp accepted with same | earlier
    · injection same with request
      exact apart (congrArg InFlight.id request)
    · exact unspent' free token' earlier
  · intro name
    rw [agreed.dispatched]
    refine exists_congr fun request => and_congr_right fun _ => and_congr_right fun _ => ?_
    exact ⟨mem_cons_of_mem _, fun sent => (mem_cons.mp sent).resolve_left nofun⟩
  · refine iff_of_false live ?_
    rintro ⟨revocation, revoked⟩
    exact unrevoked revocation ((mem_cons.mp revoked).resolve_left nofun)
  · intro revocation revoked
    exact absurd ((mem_cons.mp revoked).resolve_left nofun) (unrevoked revocation)
  · refine forall_mem_cons.mpr ⟨?_, agreed.fresh⟩
    rintro request ⟨⟩
    exact agreed.channel held
  · exact agreed.placeholder
  · exact ⟨⟨unrevoked, (agreed.held _).mp held, matching ▸ admitted, unspent unused⟩, agreed.justified⟩

theorem Agreed.revoke {revocation : Revocation} (live : s.generation.state ≠ .revoked)
    (sent : revocation.abandoned.Perm ((s.generation.inFlight.rows.map InFlightEntry.id).filter fun id => decide (id ∈ s.generation.dispatched)))
    (unsent : revocation.neverSent.Perm ((s.generation.inFlight.rows.map InFlightEntry.id).filter fun id => decide (id ∉ s.generation.dispatched))) :
    Agreed P ⟨{ s.generation with state := .revoked, revokedSignal := true }, s.held,
      .revoked revocation :: s.history⟩ := by
  have unrevoked := agreed.unrevoked live
  have keys (id : String) : id ∈ s.generation.inFlight.rows.map InFlightEntry.id ↔
      ∃ request, Live s.history request ∧ request.id = id := by
    rw [← agreed.id_in_flight, Option.isSome_iff_exists]
    simp only [mem_map, Table.find_eq_some]
  have abandoned (id : String) : id ∈ revocation.abandoned ↔
      (∃ request, Live s.history request ∧ request.id = id) ∧ id ∈ s.generation.dispatched := by
    rw [sent.mem_iff, mem_filter, keys, decide_eq_true_eq]
  have neverSent (id : String) : id ∈ revocation.neverSent ↔
      (∃ request, Live s.history request ∧ request.id = id) ∧ id ∉ s.generation.dispatched := by
    rw [unsent.mem_iff, mem_filter, keys, decide_eq_true_eq]
  have marked {request : InFlight} (live : Live s.history request) :
      request.id ∈ s.generation.dispatched ↔ .dispatched request ∈ s.history := by
    have held := (agreed.held request).mpr live
    rw [agreed.dispatched]
    constructor
    · rintro ⟨other, held', same, dispatched⟩
      rwa [agreed.held_eq held' held same] at dispatched
    · exact fun dispatched => ⟨request, held, rfl, dispatched⟩
  constructor
  · intro request
    rw [agreed.held]
    exact (live_other (fun _ _ same => by cases same) rfl).symm
  · exact agreed.distinct
  · exact agreed.entries
  · intro entry member
    obtain ⟨admitted, unused⟩ := agreed.tokens entry member
    exact ⟨mem_cons_of_mem _ admitted,
      fun free token accepted => unused free token ((mem_cons.mp accepted).resolve_left (fun same => by cases same))⟩
  · intro name
    rw [agreed.dispatched]
    refine exists_congr fun request => and_congr_right fun _ => and_congr_right fun _ => ?_
    exact ⟨mem_cons_of_mem _, fun sent => (mem_cons.mp sent).resolve_left (fun same => by cases same)⟩
  · exact iff_of_true rfl ⟨revocation, mem_cons_self ..⟩
  · intro revocation' revoked request held
    rcases mem_cons.mp revoked with same | earlier
    swap
    · exact absurd earlier (unrevoked revocation')
    cases same
    have inFlight : ∃ other, Live s.history other ∧ other.id = request.id :=
      ⟨request, (agreed.held request).mp held, rfl⟩
    exact ⟨(abandoned _).trans (and_iff_right inFlight), (neverSent _).trans (and_iff_right inFlight)⟩
  · exact forall_mem_cons.mpr ⟨(fun _ same => by cases same), agreed.fresh⟩
  · exact fun _ => .inr rfl
  · refine ⟨⟨unrevoked, ?_, fun id => ?_, fun id => ?_⟩, agreed.justified⟩
    · refine ((sent.append unsent).nodup_iff).mpr ?_
      have distinct := s.generation.inFlight.distinct
      refine nodup_append.mpr ⟨distinct.filter _, distinct.filter _, ?_⟩
      rintro id one other both rfl
      exact of_decide_eq_true (mem_filter.mp both).2 (of_decide_eq_true (mem_filter.mp one).2)
    · rw [abandoned]
      constructor
      · rintro ⟨⟨request, live, rfl⟩, member⟩
        exact ⟨request, live, rfl, (marked live).mp member⟩
      · rintro ⟨request, live, rfl, dispatched⟩
        exact ⟨⟨request, live, rfl⟩, (marked live).mpr dispatched⟩
    · rw [neverSent]
      constructor
      · rintro ⟨⟨request, live, rfl⟩, absent⟩
        exact ⟨request, live, rfl, mt (marked live).mpr absent⟩
      · rintro ⟨request, live, rfl, undispatched⟩
        exact ⟨⟨request, live, rfl⟩, mt (marked live).mp undispatched⟩

theorem Agreed.dispatch {request : InFlight} (held : request ∈ s.held) (live : s.generation.state ≠ .revoked) :
    Agreed P ⟨{ s.generation with dispatched := insert request.id s.generation.dispatched }, s.held,
      .dispatched request :: s.history⟩ := by
  have unrevoked := agreed.unrevoked live
  constructor
  · intro other
    rw [agreed.held]
    exact (live_other (fun _ _ same => by cases same) rfl).symm
  · exact agreed.distinct
  · exact agreed.entries
  · intro entry member
    obtain ⟨admitted, unused⟩ := agreed.tokens entry member
    exact ⟨mem_cons_of_mem _ admitted,
      fun free token accepted => unused free token ((mem_cons.mp accepted).resolve_left nofun)⟩
  · intro name
    rw [Finset.mem_insert, agreed.dispatched]
    constructor
    · rintro (rfl | ⟨other, held', rfl, sent⟩)
      · exact ⟨request, held, rfl, mem_cons_self ..⟩
      · exact ⟨other, held', rfl, mem_cons_of_mem _ sent⟩
    · rintro ⟨other, held', rfl, sent⟩
      rcases mem_cons.mp sent with same | earlier
      · cases same
        exact .inl rfl
      · exact .inr ⟨other, held', rfl, earlier⟩
  · refine iff_of_false live ?_
    rintro ⟨revocation, revoked⟩
    exact unrevoked revocation ((mem_cons.mp revoked).resolve_left nofun)
  · intro revocation revoked
    exact absurd ((mem_cons.mp revoked).resolve_left nofun) (unrevoked revocation)
  · refine forall_mem_cons.mpr ⟨?_, agreed.fresh⟩
    rintro other ⟨⟩
    exact agreed.channel held
  · exact agreed.placeholder
  · exact ⟨⟨unrevoked, (agreed.held _).mp held⟩, agreed.justified⟩

theorem Agreed.leave {request : InFlight} (held : request ∈ s.held) {event : DrainEvent}
    (ends : event.ended = some request) (right : Right P s.history event) :
    Agreed P ⟨s.generation.leave request, s.held.erase request, event :: s.history⟩ := by
  have distinctHeld := agreed.distinct.of_map
  have rest (other : InFlight) : other ∈ s.held.erase request ↔ other ≠ request ∧ other ∈ s.held :=
    distinctHeld.mem_erase_iff
  have apart {other : InFlight} (held' : other ∈ s.held) : other ≠ request ↔ other.id ≠ request.id :=
    not_congr ⟨fun same => same ▸ rfl, agreed.held_eq held' held⟩
  have about : event.request = some request ∧ (∀ r token, event ≠ .accepted r token) ∧
      (∀ r hash, event ≠ .admitted r hash) ∧ (∀ r, event ≠ .dispatched r) ∧ ∀ r, event ≠ .revoked r := by
    cases event <;> cases ends <;> exact ⟨rfl, nofun, nofun, nofun, nofun⟩
  obtain ⟨subject, notAccepted, notAdmitted, notDispatched, notRevoked⟩ := about
  have rows (entry : InFlightEntry) : entry ∈ (s.generation.leave request).inFlight.rows ↔
      entry ∈ s.generation.inFlight.rows ∧ entry.id ≠ request.id := by
    simp [Generation.leave, Table.mem_deleteWhere]
  constructor
  · intro other
    rw [rest, agreed.held, live_ended ends, and_comm]
  · exact agreed.distinct.sublist ((erase_sublist ..).map _)
  · intro other
    rw [rest, agreed.entries]
    constructor
    · rintro ⟨differs, entry, member, rfl⟩
      have held' := (agreed.entries entry.request).mpr ⟨entry, member, rfl⟩
      exact ⟨entry, (rows entry).mpr ⟨member, (apart held').mp differs⟩, rfl⟩
    · rintro ⟨entry, listed, rfl⟩
      obtain ⟨member, differs⟩ := (rows entry).mp listed
      have held' := (agreed.entries entry.request).mpr ⟨entry, member, rfl⟩
      exact ⟨(apart held').mpr differs, entry, member, rfl⟩
  · intro entry listed
    obtain ⟨admitted, unused⟩ := agreed.tokens entry ((rows entry).mp listed).1
    exact ⟨mem_cons_of_mem _ admitted, fun free token accepted => unused free token
      ((mem_cons.mp accepted).resolve_left fun same => notAccepted _ _ same.symm)⟩
  · intro name
    rw [show (s.generation.leave request).dispatched = s.generation.dispatched.erase request.id from rfl,
      Finset.mem_erase, agreed.dispatched]
    constructor
    · rintro ⟨differs, other, held', rfl, sent⟩
      exact ⟨other, (rest other).mpr ⟨(apart held').mpr differs, held'⟩, rfl, mem_cons_of_mem _ sent⟩
    · rintro ⟨other, kept, rfl, sent⟩
      obtain ⟨differs, held'⟩ := (rest other).mp kept
      exact ⟨(apart held').mp differs, other, held', rfl,
        (mem_cons.mp sent).resolve_left fun same => notDispatched _ same.symm⟩
  · refine agreed.revoked.trans (exists_congr fun revocation => ?_)
    exact ⟨mem_cons_of_mem _,
      fun revoked => (mem_cons.mp revoked).resolve_left fun same => notRevoked _ same.symm⟩
  · intro revocation revoked other kept
    obtain ⟨differs, held'⟩ := (rest other).mp kept
    have earlier := (mem_cons.mp revoked).resolve_left fun same => notRevoked _ same.symm
    have listed := agreed.listed revocation earlier other held'
    have still : other.id ∈ s.generation.dispatched.erase request.id ↔ other.id ∈ s.generation.dispatched := by
      rw [Finset.mem_erase]
      exact and_iff_right ((apart held').mp differs)
    exact ⟨listed.1.trans still.symm, listed.2.trans (not_congr still.symm)⟩
  · refine forall_mem_cons.mpr ⟨fun other here => ?_, agreed.fresh⟩
    rw [subject] at here
    cases here
    exact agreed.channel held
  · exact agreed.placeholder
  · exact ⟨right, agreed.justified⟩

theorem Agreed.finish_right {request : InFlight} (held : request ∈ s.held) {result : Except Abandoned Unit}
    (answer : result = if s.generation.state = .revoked then .error ⟨decide (request.id ∈ s.generation.dispatched)⟩ else .ok ()) :
    Right P s.history (.finished request result) := by
  refine ⟨(agreed.held request).mp held, ?_⟩
  subst answer
  split
  · rename_i revoked
    obtain ⟨revocation, member⟩ := agreed.revoked.mp revoked
    constructor
    · rw [Except.error.injEq, Abandoned.mk.injEq, decide_eq_true_eq]
      constructor
      · exact fun sent => ⟨revocation, member, ((agreed.listed revocation member request held).1).mpr sent⟩
      · rintro ⟨listing, among, listed⟩
        exact ((agreed.listed listing among request held).1).mp listed
    · rw [Except.error.injEq, Abandoned.mk.injEq, decide_eq_false_iff_not]
      constructor
      · exact fun unsent => ⟨revocation, member, ((agreed.listed revocation member request held).2).mpr unsent⟩
      · rintro ⟨listing, among, listed⟩
        exact ((agreed.listed listing among request held).2).mp listed
  · rename_i live
    have unrevoked := agreed.unrevoked live
    constructor
    · exact iff_of_false nofun fun ⟨revocation, member, _⟩ => unrevoked revocation member
    · exact iff_of_false nofun fun ⟨revocation, member, _⟩ => unrevoked revocation member

theorem Agreed.step (call : DrainCall) : Agreed P (drainStep P s call) := by
  have effect := drainStep_effect P s call
  generalize drainStep P s call = after at effect ⊢
  cases effect with
  | none => exact agreed
  | moved state deadline up live real => exact agreed.moved deadline up live real
  | admitted id tokenHash deadline running absent => exact agreed.admission tokenHash deadline running absent
  | accepted entry token live found unused matching => exact agreed.accept live found unused matching
  | revoked revocation live sent unsent => exact agreed.revoke live sent unsent
  | dispatched request held live => exact agreed.dispatch held live
  | finished request held result answer => exact agreed.leave held rfl (agreed.finish_right held answer)
  | dropped request held => exact agreed.leave held rfl ((agreed.held request).mp held)

end

theorem agreed_run (P : Platform) (upstream : Upstream) (calls : List DrainCall) :
    Agreed P (run (drainStep P) calls (.start upstream)) :=
  run_invariant (drainStep P) (fun _ => True) (Agreed P) (fun _ call _ agreed => agreed.step call)
    (fun _ _ => trivial) (.start upstream)

theorem Agreed.callback_draining (agreed : Agreed P s) (draining : s.generation.state = .draining)
    (requestId : Option String) : (∃ lifecycle, s.generation.admitCallbackBound requestId = .ok lifecycle) ↔
      ∃ request, Live s.history request ∧ requestId = some request.id := by
  unfold Generation.admitCallbackBound
  rw [draining]
  cases requestId with
  | none =>
    refine iff_of_false ?_ ?_
    · rintro ⟨lifecycle, admitted⟩
      cases admitted
    · rintro ⟨request, -, same⟩
      cases same
  | some id =>
    have known := agreed.id_in_flight id
    dsimp only
    cases found : s.generation.requestLifecycle id with
    | none =>
      have absent := Option.map_eq_none_iff.mp found
      refine iff_of_false ?_ ?_
      · rintro ⟨lifecycle, admitted⟩
        cases admitted
      · rintro ⟨request, live, same⟩
        have there := known.mpr ⟨request, live, (Option.some.inj same).symm⟩
        rw [absent] at there
        cases there
    | some lifecycle =>
      obtain ⟨entry, here, -⟩ := Option.map_eq_some_iff.mp found
      refine iff_of_true ⟨some lifecycle, rfl⟩ ?_
      obtain ⟨request, live, same⟩ := known.mp (Option.isSome_iff_exists.mpr ⟨entry, here⟩)
      exact ⟨request, live, congrArg some same.symm⟩

theorem rank_step (P : Platform) (s : Drained) (call : DrainCall) :
    s.generation.state.rank ≤ (drainStep P s call).generation.state.rank := by
  have effect := drainStep_effect P s call
  generalize drainStep P s call = after at effect ⊢
  cases effect with
  | moved state deadline up => exact up
  | revoked => exact DrainState.rank_le_revoked _
  | _ => exact Nat.le_refl _

theorem upstream_run (P : Platform) (upstream : Upstream) (calls : List DrainCall) :
    (run (drainStep P) calls (.start upstream)).generation.upstream = upstream := by
  refine run_invariant (drainStep P) (fun _ => True) (fun s => s.generation.upstream = upstream) ?_
    (fun _ _ => trivial) rfl
  intro s call _ same
  have effect := drainStep_effect P s call
  generalize drainStep P s call = after at effect ⊢
  cases effect <;> exact same

end Steps

/-- Under every order of calls: the state only rises, nothing is admitted outside its states, the permit is yielded
once, and a token is accepted once. -/
theorem drain_protocol (P : Platform) (upstream : Upstream) (calls : List DrainCall) :
    let s := run (drainStep P) calls (.start upstream)
    (∀ call, s.generation.state.rank ≤ (drainStep P s call).generation.state.rank) ∧
    (upstream = .placeholder → s.generation.state = .starting ∨ s.generation.state = .revoked) ∧
    (∀ id tokenHash now budget admitted, s.generation.admitRequest id tokenHash now budget = .ok admitted →
      s.generation.state = .running) ∧
    (s.generation.state = .revoked → (∀ requestId, s.generation.admitCallbackBound requestId = .error .revoked) ∧
      ∀ requestId token, s.generation.admitApprovalCallback P requestId token = .error .revoked) ∧
    (s.generation.state = .draining → ∀ requestId,
      (∃ lifecycle, s.generation.admitCallbackBound requestId = .ok lifecycle) ↔
        ∃ request, Live s.history request ∧ requestId = some request.id) ∧
    (s.generation.state = .revoked ↔ ∃ revocation, .revoked revocation ∈ s.history) ∧
    (s.generation.state = .revoked → s.generation.revoke = none) ∧
    ∀ later event earlier, s.history = later ++ event :: earlier → Right P earlier event := by
  intro s
  have agreed := agreed_run P upstream calls
  refine ⟨rank_step P s, ?_, ?_, ?_, ?_, agreed.revoked, fun revoked => if_pos revoked, ?_⟩
  · intro placeholder
    exact agreed.placeholder ((upstream_run P upstream calls).trans placeholder)
  · intro id tokenHash now budget admitted made
    unfold Generation.admitRequest at made
    split at made
    · cases made
    split at made
    · cases made
    · cases made
    · cases made
    · assumption
  · intro revoked
    constructor
    · intro requestId
      unfold Generation.admitCallbackBound
      rw [revoked]
    · intro requestId token
      unfold Generation.admitApprovalCallback
      rw [revoked]
  · exact fun draining => agreed.callback_draining draining
  · intro later event earlier split
    exact Justified.right (split ▸ agreed.justified)

end Agent24.Os
