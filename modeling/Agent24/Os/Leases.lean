import Agent24.Os.Supervisor

/-! Supervisors of one slot: one at a time, over processes that are gone, and none serving after its stop. -/

set_option autoImplicit false
namespace Agent24.Os
open Library List

def failures : List LoopEvent → Nat
  | [] => 0
  | .failed lasted :: earlier => if lasted.any (healthyRun ≤ ·) then 1 else failures earlier + 1
  | _ :: earlier => failures earlier

def AllGone (log : List LoopEvent) : Prop := ∀ process, .spawned process ∈ log → .gone process ∈ log

def LoopEvent.isStopRequest : LoopEvent → Bool
  | .stopRequested _ => true
  | _ => false

def lastDone (log : List LoopEvent) : Option LoopEvent := log.find? fun event => !event.isStopRequest

def LoopRight (base : Nat) (earlier : List LoopEvent) : LoopEvent → Prop
  | .ready => ∀ drain, .stopRequested drain ∉ earlier
  | .published .running => lastDone earlier = some .ready
  | .published .stopped => .released ∈ earlier
  | .released => .released ∉ earlier ∧ AllGone earlier
  | .started => failures earlier < breakerThreshold
  | .backedOff delay => 0 < failures earlier ∧ failures earlier < breakerThreshold ∧
      delay = min (base * 2 ^ (failures earlier - 1)) durationMax
  | _ => True

/-- What holds of a supervisor wherever its loop is; `live` is its process that is not confirmed gone. -/
structure Core (sh : Shared) (s : Supervisor) (live : Option Nat) : Prop where
  processes : ∀ process, .spawned process ∈ s.log → .gone process ∈ s.log ∨ live = some process
  unconfirmed : s.unconfirmed = live.isSome
  released : s.released = true ↔ .released ∈ s.log
  stop : s.stop = none → ∀ drain, .stopRequested drain ∉ s.log
  failures : s.policy.consecutive = Os.failures s.log
  base : s.policy.base = s.base
  mine : s.mine < sh.next
  justified : Justified (LoopRight s.base) s.log

def Phase.Ok (live : Option Nat) (released : Bool) (log : List LoopEvent) (retired : Prop) : Phase → Prop
  | .handshaking process => live = some process.id ∧ released = false ∧ failures log < breakerThreshold
  | .readied process _ => live = some process.id ∧ released = false ∧ failures log < breakerThreshold ∧
      lastDone log = some .ready
  | .serving process _ => live = some process.id ∧ released = false ∧ failures log < breakerThreshold
  | .draining process => live = some process.id ∧ released = false ∧ failures log < breakerThreshold
  | .finishing process _ => live = some process.id ∧ released = false ∧ failures log < breakerThreshold
  | .waiting => live = none ∧ released = false
  | .stopFailed => live.isSome ∧ released = false
  | .leaving => live = none ∧ released = true
  | .returned => live = none ∧ released = true
  | .ended => (live = none ↔ released = true) ∧ retired
  | _ => live = none ∧ released = false ∧ failures log < breakerThreshold

def Retired (sh : Shared) (s : Supervisor) : Prop := (sh.generations s.mine).generation.state = .revoked

def Kept (sh : Shared) (s : Supervisor) : Prop :=
  ∃ live, Core sh s live ∧ s.phase.Ok live s.released s.log (Retired sh s)

/-- What a loop does to the slot: it writes it only while it holds it, and revoked stays revoked. -/
structure SlotFrame (l l' : Loop) : Prop where
  next : l.shared.next ≤ l'.shared.next
  rank : ∀ g < l.shared.next, (l.shared.generations g).generation.state.rank ≤
    (l'.shared.generations g).generation.state.rank
  current : (l'.shared.current = l.shared.current ∧ l'.own.mine = l.own.mine) ∨
    (l'.shared.current = l'.own.mine ∧ l.own.released = false)
  held : (l'.shared.held = l.shared.held ∧ l'.own.released = l.own.released) ∨
    (l'.shared.held = false ∧ l.own.released = false ∧ l'.own.released = true)

section Frames
variable {P : Platform}

theorem SlotFrame.refl (l : Loop) : SlotFrame l l := ⟨Nat.le_refl _, fun _ _ => Nat.le_refl _, .inl ⟨rfl, rfl⟩, .inl ⟨rfl, rfl⟩⟩

theorem SlotFrame.trans {a b c : Loop} (first : SlotFrame a b) (second : SlotFrame b c) : SlotFrame a c where
  next := Nat.le_trans first.next second.next
  rank g small := Nat.le_trans (first.rank g small) (second.rank g (Nat.lt_of_lt_of_le small first.next))
  current := by
    have held_before : b.own.released = false → a.own.released = false := by
      rcases first.held with ⟨-, same⟩ | ⟨-, -, released⟩
      · exact fun unreleased => same ▸ unreleased
      intro unreleased
      rw [unreleased] at released
      cases released
    rcases second.current with ⟨same, sameMine⟩ | ⟨installed, unreleased⟩
    · rcases first.current with ⟨same', sameMine'⟩ | ⟨installed, unreleased⟩
      · exact .inl ⟨same.trans same', sameMine.trans sameMine'⟩
      · exact .inr ⟨same.trans (installed.trans sameMine.symm), unreleased⟩
    · exact .inr ⟨installed, held_before unreleased⟩
  held := by
    rcases second.held with ⟨same, sameReleased⟩ | ⟨free, unreleased, released⟩
    · rcases first.held with ⟨same', sameReleased'⟩ | ⟨free, unreleased, released⟩
      · exact .inl ⟨same.trans same', sameReleased.trans sameReleased'⟩
      · exact .inr ⟨same.trans free, unreleased, sameReleased.trans released⟩
    · rcases first.held with ⟨-, same⟩ | ⟨-, -, other⟩
      · exact .inr ⟨free, same ▸ unreleased, released⟩
      · rw [unreleased] at other
        cases other

theorem SlotFrame.own {l : Loop} {own : Supervisor} (mine : own.mine = l.own.mine) (released : own.released = l.own.released) :
    SlotFrame l ⟨l.shared, own⟩ := ⟨Nat.le_refl _, fun _ _ => Nat.le_refl _, .inl ⟨rfl, mine⟩, .inl ⟨rfl, released⟩⟩

theorem rank_drain (sh : Shared) (generation : Nat) (call : DrainCall) (g : Nat) :
    (sh.generations g).generation.state.rank ≤ ((sh.drain P generation call).generations g).generation.state.rank := by
  simp only [Shared.drain, Function.update_apply]
  split
  · rename_i same
    rw [same]
    exact rank_step P _ call
  · exact Nat.le_refl _

theorem SlotFrame.drain (l : Loop) (generation : Nat) (call : DrainCall) :
    SlotFrame l { l with shared := l.shared.drain P generation call } :=
  ⟨Nat.le_refl _, fun g _ => rank_drain l.shared generation call g, .inl ⟨rfl, rfl⟩, .inl ⟨rfl, rfl⟩⟩

theorem rank_newGeneration (sh : Shared) (upstream : Upstream) {g : Nat} (small : g < sh.next) :
    (sh.generations g).generation.state.rank ≤
      ((sh.newGeneration upstream).generations g).generation.state.rank := by
  simp only [Shared.newGeneration, Function.update_of_ne (Nat.ne_of_lt small)]
  exact Nat.le_refl _

theorem SlotFrame.newGeneration (l : Loop) (upstream : Upstream) :
    SlotFrame l { l with shared := l.shared.newGeneration upstream } :=
  ⟨Nat.le_succ _, fun _ small => rank_newGeneration l.shared upstream small, .inl ⟨rfl, rfl⟩, .inl ⟨rfl, rfl⟩⟩

theorem SlotFrame.installNew {l : Loop} (upstream : Upstream) (unreleased : l.own.released = false) :
    SlotFrame l (l.installNew upstream) :=
  ⟨Nat.le_succ _, fun _ small => rank_newGeneration l.shared upstream small, .inr ⟨rfl, unreleased⟩, .inl ⟨rfl, rfl⟩⟩

theorem SlotFrame.release (l : Loop) : SlotFrame l l.release := by
  unfold Loop.release
  split
  · exact .refl l
  rename_i unreleased
  exact ⟨Nat.le_refl _, fun _ _ => Nat.le_refl _, .inl ⟨rfl, rfl⟩,
    .inr ⟨rfl, eq_false_of_ne_true unreleased, rfl⟩⟩

theorem state_drain_revoke (sh : Shared) (generation : Nat) :
    ((sh.drain P generation .revoke).generations generation).generation.state = .revoked := by
  simp only [Shared.drain, Function.update_self, drainStep, Generation.revoke]
  split
  · rename_i revocation after made
    split at made
    · cases made
    · cases made
      rfl
  · rename_i made
    split at made
    · assumption
    · cases made

theorem revoked_of_rank {before after : DrainState} (up : before.rank ≤ after.rank) (revoked : before = .revoked) :
    after = .revoked := by
  subst revoked
  cases after
  all_goals first | rfl | exact absurd up (by decide)

end Frames

theorem policy_counts (policy : RestartPolicy) (readyAt : Option Nat) (endedAt : Nat) {log : List LoopEvent}
    (same : policy.consecutive = failures log) :
    let after := match readyAt with
      | some started => policy.ran started endedAt
      | none => policy
    (after.failed endedAt).2.consecutive =
        failures (.failed (readyAt.map fun started => endedAt - started) :: log) ∧
      (after.failed endedAt).2.base = policy.base := by
  cases readyAt with
  | none => exact ⟨by simp [RestartPolicy.failed, failures, same, apply_ite], by simp [RestartPolicy.failed, apply_ite]⟩
  | some started =>
    by_cases healthy : healthyRun ≤ endedAt - started
    · simp [RestartPolicy.ran, RestartPolicy.failed, failures, healthy, apply_ite]
    · simp [RestartPolicy.ran, RestartPolicy.failed, failures, healthy, same, apply_ite]

theorem failed_restarts {policy after : RestartPolicy} {endedAt delay : Nat}
    (decided : policy.failed endedAt = (.restartAfter delay, after)) :
    0 < after.consecutive ∧ after.consecutive < breakerThreshold ∧
      delay = min (after.base * 2 ^ (after.consecutive - 1)) durationMax := by
  simp only [RestartPolicy.failed] at decided
  split at decided
  · cases decided
  rename_i few
  have few := Nat.lt_of_not_le few
  have small : min policy.consecutive 16 = policy.consecutive := by
    simp only [breakerThreshold] at few
    omega
  obtain ⟨same, rfl⟩ := Prod.mk.inj decided
  refine ⟨Nat.succ_pos _, few, ?_⟩
  rw [← Decision.restartAfter.inj same]
  simp only [Nat.add_sub_cancel, small]

section Cores
variable {P : Platform} {l : Loop} {live : Option Nat}

def LoopEvent.plain : LoopEvent → Bool
  | .started => true
  | .ready => true
  | .published _ => true
  | .backedOff _ => true
  | _ => false

theorem failures_plain {event : LoopEvent} (plain : event.plain = true) (log : List LoopEvent) :
    failures (event :: log) = failures log := by
  cases event <;> first | rfl | cases plain

section
variable (core : Core l.shared l.own live)
include core

theorem Core.note {event : LoopEvent} (plain : event.plain = true)
    (right : LoopRight l.own.base l.own.log event) : Core (l.note event).shared (l.note event).own live where
  processes process spawned := by
    have earlier := (mem_cons.mp spawned).resolve_left (by rintro rfl; cases plain)
    exact (core.processes process earlier).imp_left (mem_cons_of_mem _)
  unconfirmed := core.unconfirmed
  released := core.released.trans ⟨mem_cons_of_mem _,
    fun released => (mem_cons.mp released).resolve_left (by rintro rfl; cases plain)⟩
  stop none drain asked :=
    core.stop none drain ((mem_cons.mp asked).resolve_left (by rintro rfl; cases plain))
  failures := core.failures.trans (failures_plain plain _).symm
  base := core.base
  mine := core.mine
  justified := ⟨right, core.justified⟩

theorem Core.goto (phase : Phase) :
    Core (l.goto phase).shared (l.goto phase).own live := { core with }

theorem Core.publish (status : Status) (right : LoopRight l.own.base l.own.log (.published status)) :
    Core (l.publish status).shared (l.publish status).own live :=
  Core.note (l := { l with own := { l.own with status := status } }) { core with } rfl right

theorem Core.shared {sh : Shared} (next : l.shared.next ≤ sh.next) :
    Core sh l.own live := { core with mine := Nat.lt_of_lt_of_le core.mine next }

theorem Core.installNew (upstream : Upstream) :
    Core (l.installNew upstream).shared (l.installNew upstream).own live :=
  { core with mine := Nat.lt_succ_self _ }

theorem Core.failed {lasted : Option Nat} {policy : RestartPolicy}
    (counts : policy.consecutive = Os.failures (.failed lasted :: l.own.log))
    (base : policy.base = l.own.policy.base) :
    Core l.shared { l.own with log := .failed lasted :: l.own.log, policy := policy } live where
  processes process spawned := by
    have earlier := (mem_cons.mp spawned).resolve_left nofun
    exact (core.processes process earlier).imp_left (mem_cons_of_mem _)
  unconfirmed := core.unconfirmed
  released := core.released.trans ⟨mem_cons_of_mem _,
    fun released => (mem_cons.mp released).resolve_left nofun⟩
  stop none drain asked := core.stop none drain ((mem_cons.mp asked).resolve_left nofun)
  failures := counts
  base := base.trans core.base
  mine := core.mine
  justified := ⟨trivial, core.justified⟩

end

theorem Core.spawned (core : Core l.shared l.own none) (process : Nat) :
    Core l.shared { l.own with log := .spawned process :: l.own.log, unconfirmed := true } (some process) where
  processes other spawned := by
    rcases mem_cons.mp spawned with same | earlier
    · cases same
      exact .inr rfl
    · exact .inl (mem_cons_of_mem _ ((core.processes other earlier).resolve_right nofun))
  unconfirmed := rfl
  released := core.released.trans ⟨mem_cons_of_mem _,
    fun released => (mem_cons.mp released).resolve_left nofun⟩
  stop none drain asked := core.stop none drain ((mem_cons.mp asked).resolve_left nofun)
  failures := core.failures
  base := core.base
  mine := core.mine
  justified := ⟨trivial, core.justified⟩

theorem Core.gone {process : Nat} (core : Core l.shared l.own (some process)) :
    Core l.shared { l.own with log := .gone process :: l.own.log, unconfirmed := false } none where
  processes other spawned := by
    have earlier := (mem_cons.mp spawned).resolve_left nofun
    rcases core.processes other earlier with gone | same
    · exact .inl (mem_cons_of_mem _ gone)
    · rw [Option.some.inj same]
      exact .inl (mem_cons_self ..)
  unconfirmed := rfl
  released := core.released.trans ⟨mem_cons_of_mem _,
    fun released => (mem_cons.mp released).resolve_left nofun⟩
  stop none drain asked := core.stop none drain ((mem_cons.mp asked).resolve_left nofun)
  failures := core.failures
  base := core.base
  mine := core.mine
  justified := ⟨trivial, core.justified⟩

theorem Core.requestStop (core : Core l.shared l.own live) (drain : Nat) :
    Core l.shared { l.own with log := .stopRequested drain :: l.own.log, stop := some drain } live where
  processes process spawned := by
    have earlier := (mem_cons.mp spawned).resolve_left nofun
    exact (core.processes process earlier).imp_left (mem_cons_of_mem _)
  unconfirmed := core.unconfirmed
  released := core.released.trans ⟨mem_cons_of_mem _,
    fun released => (mem_cons.mp released).resolve_left nofun⟩
  stop none := by cases none
  failures := core.failures
  base := core.base
  mine := core.mine
  justified := ⟨trivial, core.justified⟩

theorem Core.allGone (core : Core l.shared l.own none) : AllGone l.own.log :=
  fun process spawned => (core.processes process spawned).resolve_right nofun

theorem Core.release (core : Core l.shared l.own none) :
    Core l.release.shared l.release.own none ∧ l.release.own.released = true := by
  unfold Loop.release
  split
  · rename_i released
    exact ⟨core, released⟩
  rename_i unreleased
  have notYet : .released ∉ l.own.log := mt core.released.mpr unreleased
  refine ⟨⟨?_, core.unconfirmed, ?_, ?_, core.failures, core.base, core.mine, ⟨notYet, core.allGone⟩,
    core.justified⟩, rfl⟩
  · intro process spawned
    have earlier := (mem_cons.mp spawned).resolve_left nofun
    exact (core.processes process earlier).imp_left (mem_cons_of_mem _)
  · exact iff_of_true rfl (mem_cons_self ..)
  · exact fun none drain asked => core.stop none drain ((mem_cons.mp asked).resolve_left nofun)

end Cores

def Steps (l l' : Loop) : Prop := SlotFrame l l' ∧ Kept l'.shared l'.own

section Transitions
variable {P : Platform} {l : Loop} {live : Option Nat}

theorem steps_leave (core : Core l.shared l.own none) : Steps l (l.leave P) := by
  have retired : Core (l.retire P).shared (l.retire P).own none := core.shared (Nat.le_refl _)
  obtain ⟨core', released⟩ := retired.release
  refine ⟨(SlotFrame.drain l _ _).trans ((SlotFrame.release _).trans (.own rfl rfl)), none, core'.goto .leaving, ?_⟩
  exact ⟨rfl, released⟩

theorem steps_beginFinish {process : ModuleProcess} (core : Core l.shared l.own (some process.id))
    (unreleased : l.own.released = false) (few : failures l.own.log < breakerThreshold) (ending : Ending) :
    Steps l (l.beginFinish P process ending) := by
  have revoked : Core (l.shared.drain P process.generation .revoke) l.own (some process.id) :=
    core.shared (Nat.le_refl _)
  have published : Core (Loop.publish .stopping ⟨l.shared.drain P process.generation .revoke, l.own⟩).shared
      (Loop.publish .stopping ⟨l.shared.drain P process.generation .revoke, l.own⟩).own (some process.id) :=
    Core.publish (l := ⟨l.shared.drain P process.generation .revoke, l.own⟩) revoked _ trivial
  exact ⟨(SlotFrame.drain l process.generation .revoke).trans ((SlotFrame.own rfl rfl).trans (.own rfl rfl)),
    some process.id, published.goto _, rfl, unreleased, few⟩

theorem steps_afterRun (core : Core l.shared l.own none) (unreleased : l.own.released = false)
    (failure : RunFailure) (readyAt : Option Nat) (endedAt : Nat) :
    Steps l (l.afterRun P failure readyAt endedAt) := by
  unfold Loop.afterRun
  extract_lets noted before
  have counts : (before.failed endedAt).2.consecutive = failures noted.own.log ∧
      (before.failed endedAt).2.base = l.own.policy.base :=
    policy_counts l.own.policy readyAt endedAt core.failures
  rcases decided : before.failed endedAt with ⟨decision, policy⟩
  rw [decided] at counts
  let counted : Loop := { l with own := { l.own with
    log := .failed (readyAt.map fun started => endedAt - started) :: l.own.log
    policy := policy } }
  have failed : Core counted.shared counted.own none := core.failed counts.1 counts.2
  cases decision with
  | giveUp after within =>
    have retired : Core (counted.retire P).shared (counted.retire P).own none := failed.shared (Nat.le_refl _)
    have published := Core.publish retired (.gaveUp after within failure) trivial
    exact ⟨(SlotFrame.drain l l.own.mine .revoke).trans (.own rfl rfl), none, published.goto _, rfl, unreleased⟩
  | restartAfter delay =>
    obtain ⟨some_, few, schedule⟩ := failed_restarts decided
    have placed := failed.installNew .placeholder
    have published := Core.publish placed (.backoff policy.consecutive delay failure) trivial
    let told : Loop := { (counted.installNew .placeholder).publish (.backoff policy.consecutive delay failure) with
      own := { ((counted.installNew .placeholder).publish (.backoff policy.consecutive delay failure)).own with
        after := some failure } }
    have told_core : Core told.shared told.own none := { published with }
    have count : policy.consecutive = failures told.own.log := told_core.failures
    have right : LoopRight told.own.base told.own.log (.backedOff delay) := by
      refine ⟨count ▸ some_, count ▸ few, ?_⟩
      rw [← count, ← told_core.base]
      exact schedule
    have to_counted : SlotFrame l counted := .own rfl rfl
    have to_placed : SlotFrame counted (counted.installNew .placeholder) := .installNew .placeholder unreleased
    exact ⟨to_counted.trans (to_placed.trans (.own rfl rfl)), none, (told_core.note rfl right).goto _, rfl,
      unreleased, count ▸ few⟩

theorem steps_exit (core : Core l.shared l.own live) (released : l.own.released = true → live = none)
    (panicking : Bool) : Steps l (l.exit P panicking) := by
  unfold Loop.exit
  extract_lets retired told left_
  have retired_core : Core retired.shared retired.own live := core.shared (Nat.le_refl _)
  -- whatever the status says now, the slot and the lease are as they were
  have told_core : Core told.shared told.own live ∧ told.shared = retired.shared ∧
      told.own.mine = l.own.mine ∧ told.own.released = l.own.released := by
    simp only [told]
    split
    · exact ⟨Core.publish retired_core _ trivial, rfl, rfl, rfl⟩
    split
    · exact ⟨retired_core, rfl, rfl, rfl⟩
    · exact ⟨retired_core, rfl, rfl, rfl⟩
    · exact ⟨Core.publish retired_core _ trivial, rfl, rfl, rfl⟩
  obtain ⟨told_core, same, mine, lease⟩ := told_core
  have revoked : (told.shared.generations l.own.mine).generation.state = .revoked :=
    same ▸ state_drain_revoke l.shared l.own.mine
  have to_told : SlotFrame l told :=
    (SlotFrame.drain l l.own.mine .revoke).trans (same ▸ @SlotFrame.own retired told.own mine lease)
  by_cases unconfirmed : told.own.unconfirmed = true
  · have kept : left_ = told := if_pos unconfirmed
    rw [kept]
    have process : live ≠ none := by
      rintro rfl
      rw [told_core.unconfirmed] at unconfirmed
      cases unconfirmed
    refine ⟨to_told.trans (.own rfl rfl), live, told_core.goto _, iff_of_false process ?_, ?_⟩
    · exact fun free => process (released (lease ▸ free))
    · show (told.shared.generations told.own.mine).generation.state = .revoked
      exact mine.symm ▸ revoked
  · have freed : left_ = told.release := if_neg unconfirmed
    rw [freed]
    obtain rfl : live = none := by
      cases live with
      | none => rfl
      | some process => exact absurd told_core.unconfirmed unconfirmed
    obtain ⟨released_core, free⟩ := told_core.release
    refine ⟨to_told.trans ((SlotFrame.release told).trans (.own rfl rfl)), none, released_core.goto _,
      iff_of_true rfl free, ?_⟩
    have same_mine : told.release.own.mine = told.own.mine := by
      unfold Loop.release
      split <;> rfl
    have same_generations : told.release.shared.generations = told.shared.generations := by
      unfold Loop.release
      split <;> rfl
    show (told.release.shared.generations told.release.own.mine).generation.state = .revoked
    rw [same_mine, same_generations, mine]
    exact revoked

theorem Phase.Ok.released_gone {phase : Phase} {released : Bool} {log : List LoopEvent} {retired : Prop}
    (ok : phase.Ok live released log retired) (free : released = true) : live = none := by
  subst free
  cases phase
  case ended => exact ok.1.mpr rfl
  case leaving | returned => exact ok.1
  all_goals first | exact ok.1 | exact absurd ok.2.1 nofun | exact absurd ok.2 nofun

theorem steps_cut (kept : Kept l.shared l.own) (panicking : Bool) : Steps l (cut P panicking l) := by
  obtain ⟨live, core, ok⟩ := kept
  unfold cut
  split
  · exact ⟨.refl l, live, core, ok⟩
  have dropped : Core (l.dropProcess P).shared (l.dropProcess P).own live ∧ SlotFrame l (l.dropProcess P) ∧
      (l.dropProcess P).own = l.own := by
    unfold Loop.dropProcess
    split
    all_goals first
      | exact ⟨core, .refl l, rfl⟩
      | exact ⟨core.shared (Nat.le_refl _), .drain l _ _, rfl⟩
  obtain ⟨dropped, frame, same⟩ := dropped
  obtain ⟨exits, left_⟩ := steps_exit (P := P) dropped
    (fun free => ok.released_gone (same ▸ free)) panicking
  exact ⟨frame.trans exits, left_⟩

theorem steps_spawned (core : Core l.shared l.own none) (unreleased : l.own.released = false)
    (few : failures l.own.log < breakerThreshold) (phase : l.own.phase = .spawning) (now : Nat) (path : String) :
    Steps l (loopStep P now (.spawned path) l) := by
  let process : ModuleProcess := ⟨l.shared.processes, l.shared.next, false⟩
  let begun : Loop := ⟨{ l.shared with processes := l.shared.processes + 1 },
    { l.own with log := .spawned process.id :: l.own.log, unconfirmed := true }⟩
  have begun_core : Core begun.shared begun.own (some process.id) :=
    Core.shared (l := ⟨l.shared, begun.own⟩) (core.spawned process.id) (Nat.le_refl _)
  have to_begun : SlotFrame l begun := ⟨Nat.le_refl _, fun _ _ => Nat.le_refl _, .inl ⟨rfl, rfl⟩, .inl ⟨rfl, rfl⟩⟩
  have made : loopStep P now (.spawned path) l = if begun.own.stop.isSome then
      Loop.beginFinish P process .stopRequested { begun with shared := begun.shared.newGeneration (.process path) }
      else (begun.installNew (.process path)).goto (.handshaking process) := by
    simp only [loopStep, phase]
    rfl
  rw [made]
  split
  · have fresh_core : Core (begun.shared.newGeneration (.process path)) begun.own (some process.id) :=
      begun_core.shared (Nat.le_succ _)
    obtain ⟨finishes, kept⟩ := steps_beginFinish (P := P)
      (l := { begun with shared := begun.shared.newGeneration (.process path) }) fresh_core unreleased few .stopRequested
    exact ⟨to_begun.trans ((SlotFrame.newGeneration begun _).trans finishes), kept⟩
  · have installs : SlotFrame begun (begun.installNew (.process path)) := .installNew _ unreleased
    exact ⟨to_begun.trans (installs.trans (.own rfl rfl)), some process.id,
      (begun_core.installNew (.process path)).goto _, rfl, unreleased, few⟩

theorem steps_handshaken {process : ModuleProcess} (core : Core l.shared l.own (some process.id))
    (unreleased : l.own.released = false) (few : failures l.own.log < breakerThreshold)
    (phase : l.own.phase = .handshaking process) (now : Nat) : Steps l (loopStep P now .handshaken l) := by
  simp only [loopStep, phase]
  split
  · exact steps_beginFinish core unreleased few _
  rename_i unstopped
  have none_asked := core.stop (Option.not_isSome_iff_eq_none.mp unstopped)
  split
  · have drained : Core (l.shared.drain P process.generation .ready) l.own (some process.id) :=
      core.shared (Nat.le_refl _)
    have noted := Core.note (l := ⟨l.shared.drain P process.generation .ready, l.own⟩) drained
      (show LoopEvent.plain .ready = true from rfl) none_asked
    exact ⟨(SlotFrame.drain l process.generation .ready).trans (.own rfl rfl), some process.id, noted.goto _, rfl,
      unreleased, few, rfl⟩
  · exact steps_beginFinish core unreleased few _

theorem steps_opened (core : Core l.shared l.own none) (unreleased : l.own.released = false)
    (few : failures l.own.log < breakerThreshold) (phase : l.own.phase = .head) (now : Nat)
    (failure : Option RunFailure) : Steps l (loopStep P now (.opened failure) l) := by
  let attempt := (l.own.attempt + 1) % 2 ^ 32
  let begun : Loop := Loop.publish (.starting attempt l.own.after)
    (Loop.note .started ⟨l.shared, { l.own with attempt := attempt }⟩)
  have counted : Core l.shared { l.own with attempt := attempt } none := { core with }
  have started := Core.note (l := ⟨l.shared, { l.own with attempt := attempt }⟩) counted
    (show LoopEvent.plain .started = true from rfl) few
  have begun_core : Core begun.shared begun.own none := Core.publish started _ trivial
  have to_begun : SlotFrame l begun := .own rfl rfl
  cases failure with
  | none =>
    simp only [loopStep, phase]
    exact ⟨to_begun.trans (.own rfl rfl), none, begun_core.goto _, rfl, unreleased, few⟩
  | some failure =>
    simp only [loopStep, phase]
    obtain ⟨frame, kept⟩ := steps_afterRun (P := P) begun_core unreleased failure none now
    exact ⟨to_begun.trans frame, kept⟩

theorem steps_gone {process : ModuleProcess} {ending : Ending} (core : Core l.shared l.own (some process.id))
    (unreleased : l.own.released = false) (few : failures l.own.log < breakerThreshold)
    (phase : l.own.phase = .finishing process ending) (now : Nat) (exit : Option String) :
    Steps l (loopStep P now (.gone exit) l) := by
  let confirmed : Loop := ⟨l.shared, { l.own with log := .gone process.id :: l.own.log, unconfirmed := false }⟩
  have confirmed_core : Core confirmed.shared confirmed.own none := core.gone
  have made : loopStep P now (.gone exit) l = if process.permit then
      confirmed.goto (.flushing (ending.settle exit) l.own.stop.isSome) else l := by
    simp only [loopStep, phase]
    rfl
  rw [made]
  split
  · exact ⟨.own rfl rfl, none, confirmed_core.goto _, rfl, unreleased, few⟩
  · exact ⟨.refl l, some process.id, core, phase ▸ ⟨rfl, unreleased, few⟩⟩

theorem steps_stopFailed {process : ModuleProcess} {ending : Ending} (core : Core l.shared l.own (some process.id))
    (unreleased : l.own.released = false) (phase : l.own.phase = .finishing process ending) (now : Nat)
    (error : String) : Steps l (loopStep P now (.stopFailed error) l) := by
  simp only [loopStep, phase]
  have retired : Core (l.retire P).shared (l.retire P).own (some process.id) := core.shared (Nat.le_refl _)
  exact ⟨(SlotFrame.drain l l.own.mine .revoke).trans (.own rfl rfl), some process.id,
    (Core.publish (l := l.retire P) retired (.stopFailed _) trivial).goto _, rfl, unreleased⟩

theorem steps_checked (core : Core l.shared l.own none) (unreleased : l.own.released = false)
    (few : failures l.own.log < breakerThreshold) (phase : l.own.phase = .checking) (now : Nat)
    (reason : Option String) : Steps l (loopStep P now (.checked reason) l) := by
  cases reason with
  | none =>
    simp only [loopStep, phase]
    exact ⟨.own rfl rfl, none, core.goto _, rfl, unreleased, few⟩
  | some reason =>
    simp only [loopStep, phase]
    have retired : Core (l.retire P).shared (l.retire P).own none := core.shared (Nat.le_refl _)
    exact ⟨(SlotFrame.drain l l.own.mine .revoke).trans (.own rfl rfl), none,
      (Core.publish (l := l.retire P) retired (.packageChanged reason) trivial).goto _, rfl, unreleased⟩

theorem steps_loopStep (kept : Kept l.shared l.own) (now : Nat) (input : LoopInput) :
    Steps l (loopStep P now input l) := by
  have stays : Steps l l := ⟨.refl l, kept⟩
  obtain ⟨live, core, ok⟩ := kept
  cases phase : l.own.phase
  all_goals rw [phase] at ok
  case head =>
    obtain ⟨rfl, unreleased, few⟩ := ok
    cases input
    case opened failure => exact steps_opened core unreleased few phase now failure
    all_goals
      simp only [loopStep, phase]
      exact stays
  case spawning =>
    obtain ⟨rfl, unreleased, few⟩ := ok
    cases input
    case spawned path => exact steps_spawned core unreleased few phase now path
    case seesStop =>
      simp only [loopStep, phase]
      split
      · exact steps_leave core
      · exact stays
    case spawnFailed failure =>
      simp only [loopStep, phase]
      exact steps_afterRun core unreleased failure none now
    all_goals
      simp only [loopStep, phase]
      exact stays
  case handshaking process =>
    obtain ⟨rfl, unreleased, few⟩ := ok
    cases input
    case handshaken => exact steps_handshaken core unreleased few phase now
    case seesStop =>
      simp only [loopStep, phase]
      split
      · exact steps_beginFinish core unreleased few _
      · exact stays
    case runFailed failure =>
      simp only [loopStep, phase]
      exact steps_beginFinish core unreleased few _
    all_goals
      simp only [loopStep, phase]
      exact stays
  case readied process readyAt =>
    obtain ⟨rfl, unreleased, few, ready⟩ := ok
    cases input
    case published =>
      simp only [loopStep, phase]
      exact ⟨.own rfl rfl, some process.id, (core.publish .running ready).goto _, rfl, unreleased, few⟩
    all_goals
      simp only [loopStep, phase]
      exact stays
  case serving process readyAt =>
    obtain ⟨rfl, unreleased, few⟩ := ok
    cases input
    case seesStop =>
      simp only [loopStep, phase]
      split
      · exact stays
      rename_i drain asked
      split
      · exact steps_beginFinish core unreleased few _
      split
      · have drained : Core (l.shared.drain P process.generation (.beginDrain now drain)) l.own (some process.id) :=
          core.shared (Nat.le_refl _)
        exact ⟨(SlotFrame.drain l process.generation _).trans (.own rfl rfl), some process.id,
          Core.goto (l := ⟨_, l.own⟩) drained _, rfl, unreleased, few⟩
      · exact steps_beginFinish core unreleased few _
    case runFailed failure =>
      simp only [loopStep, phase]
      exact steps_beginFinish core unreleased few _
    all_goals
      simp only [loopStep, phase]
      exact stays
  case draining process =>
    obtain ⟨rfl, unreleased, few⟩ := ok
    cases input
    case drained =>
      simp only [loopStep, phase]
      exact steps_beginFinish core unreleased few _
    all_goals
      simp only [loopStep, phase]
      exact stays
  case finishing process ending =>
    obtain ⟨rfl, unreleased, few⟩ := ok
    cases input
    case gone exit => exact steps_gone core unreleased few phase now exit
    case stopFailed error => exact steps_stopFailed core unreleased phase now error
    all_goals
      simp only [loopStep, phase]
      exact stays
  case flushing ending stopSeen =>
    obtain ⟨rfl, unreleased, few⟩ := ok
    cases input
    case flushed =>
      cases ending <;> cases stopSeen
      case failed.false failure readyAt endedAt =>
        simp only [loopStep, phase]
        exact steps_afterRun core unreleased failure readyAt endedAt
      all_goals
        simp only [loopStep, phase]
        exact steps_leave core
    all_goals
      simp only [loopStep, phase]
      exact stays
  case backoff =>
    obtain ⟨rfl, unreleased, few⟩ := ok
    cases input
    case seesStop =>
      simp only [loopStep, phase]
      split
      · exact steps_leave core
      · exact stays
    case slept =>
      simp only [loopStep, phase]
      exact ⟨.own rfl rfl, none, core.goto _, rfl, unreleased, few⟩
    all_goals
      simp only [loopStep, phase]
      exact stays
  case checking =>
    obtain ⟨rfl, unreleased, few⟩ := ok
    cases input
    case checked reason => exact steps_checked core unreleased few phase now reason
    all_goals
      simp only [loopStep, phase]
      exact stays
  case waiting =>
    obtain ⟨rfl, unreleased⟩ := ok
    cases input
    case seesStop =>
      simp only [loopStep, phase]
      split
      · exact steps_leave core
      · exact stays
    all_goals
      simp only [loopStep, phase]
      exact stays
  case stopFailed =>
    obtain ⟨process, unreleased⟩ := ok
    cases input
    case seesStop =>
      simp only [loopStep, phase]
      split
      · exact steps_exit core (fun free => absurd (unreleased.symm.trans free) Bool.false_ne_true) false
      · exact stays
    all_goals
      simp only [loopStep, phase]
      exact stays
  case leaving =>
    obtain ⟨rfl, free⟩ := ok
    cases input
    case published =>
      simp only [loopStep, phase]
      exact ⟨.own rfl rfl, none, (core.publish .stopped (core.released.mp free)).goto _, rfl, free⟩
    all_goals
      simp only [loopStep, phase]
      exact stays
  case returned =>
    obtain ⟨rfl, free⟩ := ok
    cases input
    case returns =>
      simp only [loopStep, phase]
      exact steps_exit core (fun _ => rfl) false
    all_goals
      simp only [loopStep, phase]
      exact stays
  case ended =>
    simp only [loopStep, phase]
    exact stays

end Transitions

end Agent24.Os
