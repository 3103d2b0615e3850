import Agent24.Os.Leases

/-! Whole runs of a slot: its supervisors come one after the other, and each leaves it with nothing that runs
and nothing that admits. -/

set_option autoImplicit false
namespace Agent24.Os
open Library

namespace Generation

structure AdmitsNothing (g : Generation) : Prop where
  request : ∀ id tokenHash now budget, ∃ refused, g.admitRequest id tokenHash now budget = .error refused
  callback : ∀ requestId, g.admitCallback requestId = .error .revoked
  approval : ∀ P requestId token, g.admitApprovalCallback P requestId token = .error .revoked
  ready : g.ready.1 = false

theorem admitsNothing_of_revoked {g : Generation} (revoked : g.state = .revoked) : g.AdmitsNothing where
  request id tokenHash now budget := by
    simp only [admitRequest, revoked]
    split
    · exact ⟨_, rfl⟩
    · exact ⟨_, rfl⟩
  callback requestId := by simp only [admitCallback, admitCallbackBound, revoked, Except.map]
  approval P requestId token := by simp only [admitApprovalCallback, revoked]
  ready := by
    simp only [ready, revoked]
    cases g.upstream <;> rfl

end Generation

theorem Phase.Ok.imp {phase : Phase} {live : Option Nat} {released : Bool} {log : List LoopEvent}
    {retired retired' : Prop} (keeps : retired → retired') (ok : phase.Ok live released log retired) :
    phase.Ok live released log retired' := by
  cases phase
  case ended => exact ⟨ok.1, keeps ok.2⟩
  all_goals exact ok

theorem Kept.stable {sh sh' : Shared} {s : Supervisor} (kept : Kept sh s) (next : sh.next ≤ sh'.next)
    (rank : ∀ g < sh.next, (sh.generations g).generation.state.rank ≤ (sh'.generations g).generation.state.rank) :
    Kept sh' s := by
  obtain ⟨live, core, ok⟩ := kept
  exact ⟨live, core.shared (l := ⟨sh, s⟩) next,
    ok.imp fun retired => revoked_of_rank (rank s.mine core.mine) retired⟩

theorem Kept.requestStop {sh : Shared} {s : Supervisor} (kept : Kept sh s) (drain : Nat) :
    Kept sh { s with log := .stopRequested drain :: s.log, stop := some drain } := by
  obtain ⟨live, core, ok⟩ := kept
  refine ⟨live, core.requestStop (l := ⟨sh, s⟩) drain, ?_⟩
  show s.phase.Ok live s.released (.stopRequested drain :: s.log) (Retired sh s)
  cases phase : s.phase
  all_goals
    rw [phase] at ok
    exact ok

structure SlotRight (w : Slots) : Prop where
  kept : ∀ i own, w.supervisors i = some own → Kept w.shared own
  fresh : ∀ i own, w.supervisors i = some own → i < w.claims
  holder : ∀ i own, w.supervisors i = some own → own.released = false → i + 1 = w.claims ∧ w.shared.held = true
  held : w.shared.held = true → ∃ i own, w.supervisors i = some own ∧ own.released = false
  last : ∀ i own, w.supervisors i = some own → i + 1 = w.claims → w.shared.current = own.mine

theorem SlotRight.start (upstream : Upstream) : SlotRight (.start upstream) where
  kept _ _ := nofun
  fresh _ _ := nofun
  holder _ _ := nofun
  held := nofun
  last _ _ := nofun

section Steps
variable {P : Platform} {w : Slots}

theorem update_self_inj {s s' : Supervisor} {i : Nat}
    (found : Function.update w.supervisors i (some s) i = some s') : s = s' := by
  rw [Function.update_self] at found
  exact Option.some.inj found

theorem SlotRight.supervise (right : SlotRight w) {base : Nat} {w' : Slots} (claimed : w.supervise base = some w') :
    SlotRight w' := by
  unfold Slots.supervise at claimed
  split at claimed
  · cases claimed
  rename_i free
  obtain rfl := Option.some.inj claimed
  -- the slot was free, so every earlier lease was given back
  have released : ∀ i own, w.supervisors i = some own → own.released = true := by
    intro i own found
    by_contra unreleased
    exact free (right.holder i own found (eq_false_of_ne_true unreleased)).2
  have before : ∀ i, i ≠ w.claims → ∀ s : Supervisor,
      Function.update w.supervisors w.claims (some s) i = w.supervisors i :=
    fun i other s => Function.update_of_ne other _ _
  refine ⟨?_, ?_, ?_, ?_, ?_⟩
  · intro i own found
    by_cases new : i = w.claims
    · subst new
      obtain rfl := update_self_inj found
      refine ⟨none, ⟨nofun, rfl, ⟨nofun, nofun⟩, fun _ _ => nofun, rfl, rfl, Nat.lt_succ_self _, trivial⟩,
        rfl, rfl, Nat.succ_pos 4⟩
    · exact (right.kept i own ((before i new _).symm.trans found)).stable (Nat.le_succ _)
        fun _ small => rank_newGeneration w.shared .placeholder small
  · intro i own found
    by_cases new : i = w.claims
    · exact new ▸ Nat.lt_succ_self _
    · exact Nat.lt_succ_of_lt (right.fresh i own ((before i new _).symm.trans found))
  · intro i own found unreleased
    by_cases new : i = w.claims
    · exact ⟨new ▸ rfl, rfl⟩
    have given := released i own ((before i new _).symm.trans found)
    rw [unreleased] at given
    cases given
  · exact fun _ => ⟨w.claims, _, Function.update_self .., rfl⟩
  · intro i own found last
    obtain rfl : i = w.claims := Nat.succ_inj.mp last
    obtain rfl := update_self_inj found
    rfl

theorem SlotRight.change (right : SlotRight w) (i : Nat) {edit : Loop → Loop}
    (steps : ∀ own, w.supervisors i = some own → Steps ⟨w.shared, own⟩ (edit ⟨w.shared, own⟩)) :
    SlotRight (w.change i edit) := by
  unfold Slots.change
  split
  · exact right
  rename_i own found
  obtain ⟨frame, kept⟩ := steps own found
  generalize edit ⟨w.shared, own⟩ = l at frame kept ⊢
  have others : ∀ j, j ≠ i → Function.update w.supervisors i (some l.own) j = w.supervisors j :=
    fun j other => Function.update_of_ne other _ _
  -- whoever writes the slot is the last claimant
  have alone : own.released = false → ∀ j own', w.supervisors j = some own' → j + 1 = w.claims → j = i :=
    fun unreleased j _ _ last => Nat.succ_inj.mp (last.trans (right.holder i own found unreleased).1.symm)
  refine ⟨?_, ?_, ?_, ?_, ?_⟩
  · intro j other found'
    by_cases same : j = i
    · subst same
      exact update_self_inj found' ▸ kept
    · exact (right.kept j other ((others j same).symm.trans found')).stable frame.next frame.rank
  · intro j other found'
    by_cases same : j = i
    · exact same ▸ right.fresh i own found
    · exact right.fresh j other ((others j same).symm.trans found')
  · intro j other found' unreleased
    by_cases same : j = i
    · subst same
      obtain rfl := update_self_inj found'
      rcases frame.held with ⟨heldSame, leaseSame⟩ | ⟨-, -, given⟩
      · exact heldSame ▸ right.holder j own found (leaseSame ▸ unreleased)
      · rw [unreleased] at given
        cases given
    · have holds := right.holder j other ((others j same).symm.trans found') unreleased
      rcases frame.held with ⟨heldSame, -⟩ | ⟨-, holding, -⟩
      · exact heldSame ▸ holds
      · exact absurd (alone holding j other ((others j same).symm.trans found') holds.1) same
  · intro stillHeld
    rcases frame.held with ⟨heldSame, leaseSame⟩ | ⟨freed, -, -⟩
    · obtain ⟨j, other, found', unreleased⟩ := right.held (heldSame ▸ stillHeld)
      by_cases same : j = i
      · subst same
        obtain rfl := Option.some.inj (found.symm.trans found')
        exact ⟨j, l.own, Function.update_self .., leaseSame.trans unreleased⟩
      · exact ⟨j, other, (others j same).trans found', unreleased⟩
    · rw [freed] at stillHeld
      cases stillHeld
  · intro j other found' last
    by_cases same : j = i
    · subst same
      obtain rfl := update_self_inj found'
      rcases frame.current with ⟨currentSame, mineSame⟩ | ⟨installed, -⟩
      · exact currentSame.trans ((right.last j own found last).trans mineSame.symm)
      · exact installed
    · have found' := (others j same).symm.trans found'
      rcases frame.current with ⟨currentSame, -⟩ | ⟨-, holding⟩
      · exact currentSame.trans (right.last j other found' last)
      · exact absurd (alone holding j other found' last) same

theorem SlotRight.step (right : SlotRight w) (move : Move) : SlotRight (slotStep P w move) := by
  cases move with
  | supervise base =>
    show SlotRight ((w.supervise base).getD w)
    cases claimed : w.supervise base with
    | none => exact right
    | some w' => exact right.supervise claimed
  | requestStop i drain =>
    unfold slotStep
    refine right.change i fun own found => ?_
    exact ⟨.own (l := ⟨w.shared, own⟩) rfl rfl, (right.kept i own found).requestStop drain⟩
  | go i now input => exact right.change i fun own found => steps_loopStep (right.kept i own found) now input
  | abort i => exact right.change i fun own found => steps_cut (right.kept i own found) false
  | panic i => exact right.change i fun own found => steps_cut (right.kept i own found) true
  | traffic generation call =>
    show SlotRight (if call.isTraffic then { w with shared := w.shared.drain P generation call } else w)
    split
    · exact { right with
        kept := fun i own found => (right.kept i own found).stable (Nat.le_refl _)
          fun g _ => rank_drain w.shared generation call g }
    · exact right

end Steps

theorem slotRight_run (P : Platform) (upstream : Upstream) (moves : List Move) :
    SlotRight (run (slotStep P) moves (.start upstream)) :=
  run_invariant (slotStep P) (fun _ => True) SlotRight (fun _ move _ right => right.step move)
    (fun _ _ => trivial) (.start upstream)

/-- One supervised process for a slot. -/
theorem one_supervisor (P : Platform) (upstream : Upstream) (moves : List Move) :
    let w := run (slotStep P) moves (.start upstream)
    (∀ i own j own', w.supervisors i = some own → w.supervisors j = some own' → own.released = false →
        own'.released = false → i = j) ∧
      (w.shared.held = true ↔ ∃ i own, w.supervisors i = some own ∧ own.released = false) ∧
      (∀ base w', w.supervise base = some w' → ∀ i own, w.supervisors i = some own → AllGone own.log) ∧
      (∀ i own, w.supervisors i = some own → ∀ later event earlier, own.log = later ++ event :: earlier →
        LoopRight own.base earlier event) ∧
      ∀ i own, w.supervisors i = some own → own.phase = .ended →
        (w.shared.generations own.mine).generation.AdmitsNothing ∧ (i + 1 = w.claims → w.shared.current = own.mine) := by
  intro w
  have right : SlotRight w := slotRight_run P upstream moves
  refine ⟨?_, ⟨right.held, ?_⟩, ?_, ?_, ?_⟩
  · intro i own j own' found found' unreleased unreleased'
    exact Nat.succ_inj.mp ((right.holder i own found unreleased).1.trans (right.holder j own' found' unreleased').1.symm)
  · rintro ⟨i, own, found, unreleased⟩
    exact (right.holder i own found unreleased).2
  · intro base w' claimed i own found
    have free : w.shared.held = false := by
      unfold Slots.supervise at claimed
      split at claimed
      · cases claimed
      · exact eq_false_of_ne_true ‹_›
    obtain ⟨live, core, ok⟩ := right.kept i own found
    have released : own.released = true := by
      by_contra unreleased
      rw [(right.holder i own found (eq_false_of_ne_true unreleased)).2] at free
      cases free
    obtain rfl := ok.released_gone released
    exact core.allGone (l := ⟨w.shared, own⟩)
  · intro i own found later event earlier split
    obtain ⟨live, core, -⟩ := right.kept i own found
    exact (split ▸ core.justified).right
  · intro i own found ended
    obtain ⟨live, core, ok⟩ := right.kept i own found
    rw [ended] at ok
    exact ⟨Generation.admitsNothing_of_revoked ok.2, fun last => right.last i own found last⟩

/-- The longest delay is not doubled. -/
theorem longest_delay_not_doubled :
    ¬ ∀ (P : Platform) (upstream : Upstream) (moves : List Move) (i : Nat) (own : Supervisor),
      (run (slotStep P) moves (.start upstream)).supervisors i = some own →
        ∀ later delay earlier, own.log = later ++ .backedOff delay :: earlier →
          delay = own.base * 2 ^ (failures earlier - 1) := by
  intro doubled
  let moves : List Move := [.supervise durationMax, .go 0 0 (.opened (some ⟨.setup, ""⟩)), .go 0 0 .slept,
    .go 0 0 (.checked none), .go 0 0 (.opened (some ⟨.setup, ""⟩))]
  have logged : ((run (slotStep (.ofDigests [])) moves (.start .placeholder)).supervisors 0).map
      (fun own => (own.base, own.log.head?, failures own.log)) =
        some (durationMax, some (.backedOff durationMax), 2) := by decide +kernel
  obtain ⟨own, found, same⟩ := Option.map_eq_some_iff.mp logged
  obtain ⟨base, head, count⟩ : own.base = durationMax ∧ own.log.head? = some (.backedOff durationMax) ∧
      failures own.log = 2 := by simpa using same
  obtain ⟨earlier, log⟩ := List.head?_eq_some_iff.mp head
  have twice := doubled _ _ moves 0 own found [] durationMax earlier log
  rw [log] at count
  rw [base, show failures earlier = 2 from count] at twice
  exact absurd twice (by decide)

end Agent24.Os
