import Agent24.Library.Outcome
import Agent24.Provider.Replay

/-! The restart decision: which case holds, and the tightenings it persists. -/

set_option autoImplicit false
namespace Agent24.Provider
open Library List

inductive FoundSeal where
  /-- `next` is the number the log's next record took when the seal was rebuilt. -/
  | present (next : Word)
  | missing
  deriving DecidableEq

inductive Found where
  | gone | same | otherPrincipal
  deriving DecidableEq

inductive Recovery (I : Ids) where
  | firstInstall
  | normal (state : Replayed I) (retire : List (Change I))
  | tightened (state : Replayed I) (writes : List (Change I))
  | damaged (writes : List (Change I))

section
variable {I : Ids}

def global : List (Change I) := [.off, .prompt]

def unsaved (profile : I.Profile) : Change I := .await profile .unsavedSettings

section
variable (state : Replayed I)

def Replayed.named (profiles : List I.Profile) : List I.Profile :=
  (state.bindings.map (·.of.profile) ++ state.profiles.rows.map (·.1)).foldl
    (fun all p => if all.any (· == p) then all else all ++ [p]) profiles

def Replayed.live : List (Bound I) := state.bindings.filter fun b => !b.retired

def retires (found : Bound I → Found) (b : Bound I) : Bool :=
  let at_ := (state.profiles.find b.of.profile).map (·.2)
  at_.any (·.removed) ||
    match found b with
    | .gone => true
    -- the principal is checked at the confirmation instead
    | .otherPrincipal => at_.bind (·.awaiting) ≠ some .principalChanged
    | .same => false

def retired (found : Bound I → Found) : List (Change I) :=
  (state.live.filter (retires state found)).map fun b => .retire b.of

end

def recover (log : Option (Except Damaged (Replayed I))) (found : FoundSeal) (firstInstall : Bool)
    (profiles : List I.Profile) (identity : Bound I → Found) : Recovery I :=
  let lost : Recovery I :=
    .damaged (global ++ profiles.flatMap fun p => [.unselect p, .disable p, unsaved p])
  match log with
  | none => if firstInstall ∧ profiles = [] ∧ found = .missing then .firstInstall else lost
  | some (.error _) => lost
  | some (.ok state) =>
    let tightened : Recovery I :=
      .tightened state
        (global ++ state.live.map (fun b => .retire b.of) ++ (state.named profiles).map unsaved)
    match found with
    -- a seal past the log's end: records it had seen are gone
    | .present next => if next ≤ state.next then .normal state (retired state identity) else tightened
    | .missing => tightened

variable {p : I.Profile} {state state' : Replayed I}

theorem mem_foldl_distinct (more all : List I.Profile) :
    p ∈ more.foldl (fun all p => if all.any (· == p) then all else all ++ [p]) all ↔ p ∈ all ∨ p ∈ more := by
  induction more generalizing all with
  | nil => simp
  | cons q rest ih =>
    rw [foldl_cons, ih, mem_cons]
    have found : all.any (· == q) = true ↔ q ∈ all := by simp
    by_cases listed : q ∈ all
    · rw [if_pos (found.mpr listed)]
      constructor
      · exact fun either => either.imp_right .inr
      · rintro (old | rfl | new)
        · exact .inl old
        · exact .inl listed
        · exact .inr new
    · rw [if_neg (mt found.mp listed), mem_append, mem_singleton, or_assoc]

def Replayed.Holds (state : Replayed I) (p : I.Profile) : Prop :=
  (∃ b ∈ state.bindings, b.of.profile = p) ∨ (state.profiles.find p).isSome

theorem mem_named {profiles : List I.Profile} :
    p ∈ state.named profiles ↔ p ∈ profiles ∨ state.Holds p := by
  have settings : p ∈ state.profiles.rows.map (·.1) ↔ (state.profiles.find p).isSome := by
    rw [mem_map, Option.isSome_iff_exists]
    exact exists_congr fun row => Table.find_eq_some.symm
  rw [Replayed.named, mem_foldl_distinct, mem_append, settings, mem_map, Replayed.Holds]

theorem mem_live {b : Bound I} : b ∈ state.live ↔ b ∈ state.bindings ∧ b.retired = false := by
  simp [Replayed.live]

/-! ## What every replayed state satisfies -/

structure Sound (state : Replayed I) : Prop where
  distinct : (state.bindings.map (·.of)).Nodup
  confirmed : ∀ p, (state.confirmed p).isSome → state.Holds p

theorem sound_fresh (start : Word) : Sound (Replayed.fresh start : Replayed I) where
  distinct := nodup_nil
  confirmed p some_ := by cases some_

theorem find_editProfile {q : I.Profile} {edit : ProfileState → ProfileState} :
    (state.editProfile p edit).profiles.find q =
      if q = p then some (p, edit (state.profile p)) else state.profiles.find q :=
  Table.find_put

theorem Replayed.Holds.editProfile {q : I.Profile} {edit : ProfileState → ProfileState} (holds : state.Holds q) :
    (state.editProfile p edit).Holds q := by
  rcases holds with bound | set
  · exact .inl bound
  right
  rw [find_editProfile]
  split
  · rfl
  · exact set

theorem holds_editProfile (state : Replayed I) (p : I.Profile) (edit : ProfileState → ProfileState) :
    (state.editProfile p edit).Holds p := by
  right
  rw [find_editProfile, if_pos rfl]
  rfl

section
variable (sound : Sound state)
include sound

theorem Sound.editProfile (p : I.Profile) (edit : ProfileState → ProfileState) :
    Sound (state.editProfile p edit) where
  distinct := sound.distinct
  confirmed q some_ := (sound.confirmed q some_).editProfile

theorem Sound.confirm (held : state.Holds p) (principal : I.Principal) :
    Sound { state with confirmed := Function.update state.confirmed p (some principal) } where
  distinct := sound.distinct
  confirmed q some_ := by
    by_cases here : q = p
    · exact here ▸ held
    · have old : (state.confirmed q).isSome := by simpa [Function.update_of_ne here] using some_
      exact sound.confirmed q old

theorem Sound.edited (ofs : state'.bindings.map (·.of) = state.bindings.map (·.of))
    (profiles : state'.profiles = state.profiles) (confirmed : state'.confirmed = state.confirmed) :
    Sound state' where
  distinct := ofs ▸ sound.distinct
  confirmed q some_ := by
    rcases sound.confirmed q (confirmed ▸ some_) with ⟨b, member, same⟩ | set
    · left
      have listed : b.of ∈ state'.bindings.map (·.of) := ofs ▸ mem_map_of_mem member
      obtain ⟨b', present, of⟩ := mem_map.mp listed
      exact ⟨b', present, by rw [of, same]⟩
    · exact .inr (profiles ▸ set)

theorem Sound.on (of : Of I) {edit : Bound I → Bound I} (keeps : ∀ b, (edit b).of = b.of) :
    Sound (state.on of edit) :=
  sound.edited (map_onFirst keeps _) rfl rfl

theorem Sound.setRun (run : I.Run) (set : RunSet I) :
    Sound (state.setRun run set) := by
  unfold Replayed.setRun
  split
  · exact sound.edited rfl rfl rfl
  · exact sound.edited rfl rfl rfl

theorem Sound.apply {change : Change I} (applied : apply state change = .ok state') :
    Sound state' := by
  have same {s : Replayed I} (bindings : s.bindings = state.bindings) (profiles : s.profiles = state.profiles)
      (confirmed : s.confirmed = state.confirmed) : Sound s :=
    sound.edited (by rw [bindings]) profiles confirmed
  cases change with
  | off | on | prompt | promptConfirmed | started | shutdown =>
    cases applied
    exact same rfl rfl rfl
  | disable p | enable p | unselect p | select p | remove p | await p awaited | placeholderFailed p failure
  | placeholderCleared p failure =>
    cases applied
    exact sound.editProfile _ _
  | confirm p principal awaited =>
    dsimp only [Provider.apply] at applied
    split at applied
    · split at applied
      · cases applied
        exact (sound.editProfile p _).confirm (holds_editProfile state p _) principal
      · cases applied
        exact sound.editProfile _ _
    · cases applied
      exact sound.editProfile _ _
  | bind of identity generation confirmed =>
    dsimp only [Provider.apply] at applied
    split at applied
    · cases applied
    next allowed =>
    cases applied
    have fresh : ∀ b ∈ state.bindings, b.of ≠ of := fun b member same =>
      allowed (.inr (any_eq_true.mpr ⟨b, member, by simp [same]⟩))
    refine ⟨?_, fun q some_ => ?_⟩
    · rw [map_append, map_singleton, nodup_append]
      refine ⟨sound.distinct, nodup_singleton _, fun o listed o' last => ?_⟩
      obtain ⟨b, member, rfl⟩ := mem_map.mp listed
      rw [mem_singleton.mp last]
      exact fresh b member
    · have old : (state.confirmed q).isSome → (∃ b ∈ state.bindings ++ [⟨of, identity, generation, false, false,
          false, false, none, .fresh, none⟩], b.of.profile = q) ∨ (state.profiles.find q).isSome := fun some_ =>
        (sound.confirmed q some_).imp_left fun ⟨b, member, same⟩ => ⟨b, mem_append_left _ member, same⟩
      cases confirmed with
      | none => exact old some_
      | some principal =>
        by_cases here : q = of.profile
        · exact .inl ⟨_, mem_append_right _ (mem_singleton_self _), here.symm⟩
        · exact old (by simpa [Function.update_of_ne here] using some_)
  | generation of value =>
    cases applied
    have raised : Sound { state with highest := max state.highest value } := same rfl rfl rfl
    exact raised.on of fun _ => rfl
  | retire of | servable of | logout of | relogin of | revoked of =>
    cases applied
    exact sound.on of fun _ => rfl
  | stuck of cause =>
    cases applied
    exact sound.on of fun _ => rfl
  | unstuck of cause =>
    cases applied
    refine sound.on of fun b => ?_
    split <;> rfl
  | placed of rule =>
    dsimp only [Provider.apply] at applied
    split at applied
    · cases applied
      exact sound
    split at applied
    · cases applied
    · cases applied
      exact sound.on of fun _ => rfl
  | questioned of =>
    cases applied
    exact sound.on of fun _ => rfl
  | released of kbs version =>
    cases applied
    exact sound.on of fun b => b.release_of version
  | timedOut of count | timeoutsRestored of count | timeoutsCleared of count =>
    cases applied
    exact sound.on of fun b => b.counted_of _
  | tombstone of kbs | tombstoneWithdrawn of kbs | seen of kbs | unseen of kbs =>
    cases applied
    exact sound.on of fun _ => rfl
  | runBound run bindings candidates | runUnbound run profiles =>
    cases applied
    exact sound.setRun run _
  | runBackfilled run of =>
    dsimp only [Provider.apply] at applied
    split at applied
    · cases applied
      exact sound.setRun run _
    · cases applied
      exact sound

theorem Sound.settleChange {void : Bool} {change : Change I}
    (settled : settleChange void state change = .ok state') : Sound state' := by
  unfold Provider.settleChange at settled
  split at settled
  · exact sound.apply settled
  split at settled
  · cases settled
    exact sound.edited rfl rfl rfl
  · cases settled
    exact sound

theorem Sound.settle {held : LogSlot I} (settled : settle state held = .ok state') :
    Sound state' := by
  have start : Sound { state with shutDown := false } := sound.edited rfl rfl rfl
  exact foldlM_keeps Sound (fun change s s' sound => sound.settleChange) start settled

end

theorem Sound.readRecord {start : Word} {pair pair' : Option (LogSlot I) × Replayed I} {record : Record I}
    (sound : Sound pair.2) (read : readRecord start pair record = .ok pair') : Sound pair'.2 := by
  unfold Provider.readRecord at read
  dsimp only at read
  split at read
  · split at read
    · cases read
      exact sound
    · cases read
  · split at read
    · split at read
      · cases read
        exact sound
      · cases read
        exact sound
      split at read
      · cases read
        exact sound
      · cases read
    · split at read
      · cases read
      split at read
      · obtain ⟨after, settled, rfl⟩ := map_eq_ok.mp read
        exact Sound.settle sound settled
      · cases read

theorem sound_replay {start : Word} {records : List (Record I)} (read : replay start records = .ok state) :
    Sound state := by
  obtain ⟨⟨slot, out⟩, folded, rest⟩ := bind_eq_ok.mp read
  have sound : Sound out :=
    foldlM_keeps (fun pair => Sound pair.2) (fun record s s' sound => sound.readRecord)
      (sound_fresh start) folded
  dsimp only at rest
  split at rest
  · cases rest
    exact sound
  split at rest
  · cases rest
  next next_ following =>
  have moved : Sound { out with next := next_ } := sound.edited rfl rfl rfl
  exact moved.settle rest

/-! ## The global tightening -/

theorem apply_global (state : Replayed I) :
    global.foldlM apply state = .ok { state with off := true, prompt := true } := rfl

theorem retired_on {bindings : List (Bound I)} (distinct : (bindings.map (·.of)).Nodup) (of : Of I) :
    onFirst (fun b => decide (b.of = of)) (fun b => { b with retired := true }) bindings =
      bindings.map fun b => if b.of = of then { b with retired := true } else b :=
  onFirst_eq_map distinct

theorem foldlM_retire (ofs : List (Of I)) (state : Replayed I) (distinct : (state.bindings.map (·.of)).Nodup) :
    ∃ after, (ofs.map Change.retire).foldlM apply state = .ok after ∧
      after = { state with bindings := after.bindings } ∧
      after.bindings.map (·.of) = state.bindings.map (·.of) ∧
      ∀ b ∈ after.bindings, b.retired = true ∨ (b ∈ state.bindings ∧ b.of ∉ ofs) := by
  induction ofs generalizing state with
  | nil => exact ⟨state, rfl, rfl, rfl, fun b member => .inr ⟨member, not_mem_nil⟩⟩
  | cons of rest ih =>
    have keeps (b : Bound I) : ({ b with retired := true } : Bound I).of = b.of := rfl
    have ofs : (state.on of fun b => { b with retired := true }).bindings.map (·.of) =
        state.bindings.map (·.of) := map_onFirst keeps _
    obtain ⟨after, done, frame, same, all⟩ := ih (state.on of fun b => { b with retired := true })
      (ofs ▸ distinct)
    refine ⟨after, by rw [map_cons, foldlM_cons]; exact done, frame, same.trans ofs, fun b member => ?_⟩
    rcases all b member with done | ⟨earlier, unlisted⟩
    · exact .inl done
    dsimp only [Replayed.on] at earlier
    rw [retired_on distinct, mem_map] at earlier
    obtain ⟨b', present, rfl⟩ := earlier
    by_cases hit : b'.of = of
    · exact .inl (by rw [if_pos hit])
    rw [if_neg hit] at unlisted ⊢
    refine .inr ⟨present, fun listed => ?_⟩
    rcases mem_cons.mp listed with here | later
    · exact hit here
    · exact unlisted later

theorem profile_editProfile (state : Replayed I) (p q : I.Profile) (edit : ProfileState → ProfileState) :
    (state.editProfile p edit).profile q = if q = p then edit (state.profile p) else state.profile q := by
  rw [Replayed.profile, find_editProfile]
  by_cases same : q = p
  · rw [if_pos same, if_pos same]
    rfl
  · rw [if_neg same, if_neg same]
    rfl

/-- Awaiting is sticky: every profile of the list ends up awaiting the user, and only profiles change. -/
theorem foldlM_unsaved (profiles : List I.Profile) (state : Replayed I) :
    ∃ after, (profiles.map unsaved).foldlM apply state = .ok after ∧
      after = { state with profiles := after.profiles } ∧
      ∀ p, p ∈ profiles ∨ (state.profile p).awaiting = some .unsavedSettings →
        (after.profile p).awaiting = some .unsavedSettings := by
  induction profiles generalizing state with
  | nil => exact ⟨state, rfl, rfl, fun p listed => listed.resolve_left not_mem_nil⟩
  | cons q rest ih =>
    let awaited (s : ProfileState) : ProfileState :=
      if s.awaiting ≠ some .unsavedSettings then { s with awaiting := some .unsavedSettings } else s
    have sticky (s : ProfileState) : (awaited s).awaiting = some .unsavedSettings := by
      dsimp only [awaited]
      split
      · rfl
      · next already => exact not_not.mp already
    obtain ⟨after, done, frame, all⟩ := ih (state.editProfile q awaited)
    refine ⟨after, by rw [map_cons, foldlM_cons]; exact done, frame, fun p listed => all p ?_⟩
    rw [profile_editProfile]
    by_cases same : p = q
    · rw [if_pos same]
      exact .inr (sticky _)
    · rw [if_neg same]
      exact listed.imp_left fun member => (mem_cons.mp member).resolve_left same

structure Tightened (state : Replayed I) (profiles : List I.Profile) (after : Replayed I) : Prop where
  off : after.off = true
  prompt : after.prompt = true
  retired : ∀ b ∈ after.bindings, b.retired = true
  awaited : ∀ p, p ∈ profiles ∨ state.Holds p ∨ (state.confirmed p).isSome →
    (after.profile p).awaiting = some .unsavedSettings

theorem foldlM_tightened (sound : Sound state) (profiles : List I.Profile) :
    ∃ after, (global ++ state.live.map (fun b : Bound I => Change.retire b.of) ++
      (state.named profiles).map unsaved).foldlM apply state = .ok after ∧ Tightened state profiles after := by
  obtain ⟨middle, retire, frame, -, all⟩ := foldlM_retire (state.live.map (·.of))
    { state with off := true, prompt := true } sound.distinct
  obtain ⟨after, await, kept, awaited⟩ := foldlM_unsaved (state.named profiles) middle
  refine ⟨after, ?_, ?_⟩
  · rw [foldlM_append, foldlM_append, apply_global, ok_bind, bind_eq_ok]
    refine ⟨middle, ?_, await⟩
    rw [map_map] at retire
    exact retire
  · refine ⟨by rw [kept, frame], by rw [kept, frame], fun b member => ?_, fun p listed => awaited p (.inl ?_)⟩
    · rw [kept] at member
      rcases all b member with done | ⟨earlier, unlisted⟩
      · exact done
      by_contra live
      have alive : b ∈ state.live := mem_live.mpr ⟨earlier, by simpa using live⟩
      exact unlisted (mem_map_of_mem alive)
    · rw [mem_named]
      rcases listed with configured | holds | confirmed
      · exact .inl configured
      · exact .inr holds
      · exact .inr (sound.confirmed p confirmed)

def Lost (state : Replayed I) (identity : Bound I → Found) (b : Bound I) : Prop :=
  (∃ settings, state.profiles.find b.of.profile = some (b.of.profile, settings) ∧ settings.removed = true) ∨
    identity b = .gone ∨
    (identity b = .otherPrincipal ∧ (state.profile b.of.profile).awaiting ≠ some .principalChanged)

theorem retires_iff {identity : Bound I → Found} {b : Bound I} :
    retires state identity b = true ↔ Lost state identity b := by
  have removed : ((state.profiles.find b.of.profile).map (·.2)).any (·.removed) = true ↔
      ∃ settings, state.profiles.find b.of.profile = some (b.of.profile, settings) ∧ settings.removed = true := by
    cases held : state.profiles.find b.of.profile with
    | none => simp
    | some row =>
      obtain ⟨p, settings⟩ := row
      have key : p = b.of.profile := Table.find_key held
      simp [← key]
  have awaiting : ((state.profiles.find b.of.profile).map (·.2)).bind (·.awaiting) =
      (state.profile b.of.profile).awaiting := by
    rw [Replayed.profile]
    cases state.profiles.find b.of.profile <;> rfl
  rw [retires, Bool.or_eq_true, removed, Lost]
  refine or_congr_right ?_
  cases identity b <;> simp [awaiting]

/-- The restart decision, for every log, seal, mark, configuration and identity. -/
theorem recover_sound (start : Word) (log : Option (List (Record I))) (found : FoundSeal) (firstInstall : Bool)
    (profiles : List I.Profile) (identity : Bound I → Found) :
    (∀ state retire, recover (log.map (replay start)) found firstInstall profiles identity = .normal state retire →
      log.map (replay start) = some (.ok state) ∧ (∃ next, found = .present next ∧ next ≤ state.next) ∧
        ∀ change, change ∈ retire ↔
          ∃ b ∈ state.bindings, b.retired = false ∧ Lost state identity b ∧ change = .retire b.of) ∧
    (∀ state, log.map (replay start) = some (.ok state) →
      (∀ retire, recover (log.map (replay start)) found firstInstall profiles identity ≠ .normal state retire) →
        ∃ writes, recover (log.map (replay start)) found firstInstall profiles identity = .tightened state writes ∧
          ∃ after, writes.foldlM apply state = .ok after ∧ Tightened state profiles after) ∧
    (recover (log.map (replay start)) found firstInstall profiles identity = .firstInstall →
      log = none ∧ profiles = [] ∧ found = .missing ∧ firstInstall = true) := by
  refine ⟨fun state retire answer => ?_, fun state read other => ?_, fun answer => ?_⟩
  · unfold recover at answer
    split at answer
    · split at answer <;> cases answer
    · cases answer
    next read =>
    split at answer
    · next next_ =>
      split at answer
      · next reached =>
        cases answer
        refine ⟨read, ⟨next_, rfl, reached⟩, fun change => ?_⟩
        simp only [retired, mem_map, mem_filter, mem_live, retires_iff, and_assoc]
        simp only [eq_comm]
      · cases answer
    · cases answer
  · have sound : Sound state := by
      cases log with
      | none => cases read
      | some records => exact sound_replay (Option.some.inj read)
    have tightened : recover (log.map (replay start)) found firstInstall profiles identity = .tightened state
        (global ++ state.live.map (fun b => .retire b.of) ++ (state.named profiles).map unsaved) := by
      rw [read] at other ⊢
      cases found with
      | missing => rfl
      | present next =>
        by_cases reached : next ≤ state.next
        · exact absurd (if_pos reached) (other (retired state identity))
        · exact if_neg reached
    exact ⟨_, tightened, foldlM_tightened sound profiles⟩
  · unfold recover at answer
    split at answer
    · next none_ =>
      split at answer
      · next first =>
        refine ⟨?_, first.2.1, first.2.2, first.1⟩
        cases log with
        | none => rfl
        | some records => cases none_
      · cases answer
    · cases answer
    · split at answer
      · split at answer <;> cases answer
      · cases answer

end

def runOnly : List (Record .numbers) := [⟨1, .changes [.runBound 0 [⟨7, 3⟩] []]⟩]

/-- A profile that only a run's set names is not awaited. -/
theorem run_profile_not_awaited : ∃ state writes after,
    replay 1 runOnly = .ok state ∧ state.runs = [(0, some ([⟨7, 3⟩], []))] ∧
      recover (some (replay 1 runOnly)) .missing false [] (fun _ => .same) = .tightened state writes ∧
      writes.foldlM apply state = .ok after ∧ (after.profile 7).awaiting = none :=
  ⟨{ Replayed.fresh 1 with runs := [(0, some ([⟨7, 3⟩], []))], next := 2 }, [.off, .prompt], _, rfl, rfl, rfl, rfl,
      rfl⟩

end Agent24.Provider
