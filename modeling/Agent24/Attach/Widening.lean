import Agent24.Attach.Store
import Agent24.Library.Runs

/-! What a registration may widen: the record in force and the tombstone both stand for the last registration
of a name, so a revocation changes nothing about what needs a confirmation. -/

set_option autoImplicit false
namespace Agent24.Attach
open Library

/-! What the calls of the past say of a name, the newest first. -/

def lastRegistration : List Change → String → Option Facts
  | [], _ => none
  | .registered registered _ manifest _ _ _ _ :: earlier, name =>
    if registered = name then some (.of manifest) else lastRegistration earlier name
  | .revoked _ :: earlier, name => lastRegistration earlier name
  | .disabled _ _ :: earlier, name => lastRegistration earlier name

def inForce : List Change → String → Bool
  | [], _ => false
  | .registered registered _ _ _ _ _ _ :: earlier, name => if registered = name then true else inForce earlier name
  | .revoked revoked :: earlier, name => if revoked = name then false else inForce earlier name
  | .disabled _ _ :: earlier, name => inForce earlier name

def switchedOff : List Change → String → Bool
  | [], _ => false
  | .registered _ _ _ _ _ _ _ :: earlier, name => switchedOff earlier name
  | .revoked revoked :: earlier, name => if revoked = name then false else switchedOff earlier name
  | .disabled switched off :: earlier, name => if switched = name then off else switchedOff earlier name

structure Filed where
  store : AttachedStore
  changes : List Change

section
variable (P : Platform) (fromYaml : String → Except String DomainOsManifest)

def Filed.step (f : Filed) (call : Call) : Filed :=
  let (store, change) := writeFile P fromYaml f.store call
  ⟨store, change.toList ++ f.changes⟩

inductive Commits (store : AttachedStore) : Change → AttachedStore → Prop where
  | registered {yaml : String} {manifest : DomainOsManifest} (token tokenId : String)
      (parsed : parseManifest P fromYaml yaml = .ok manifest) :
      Commits store
        (.registered manifest.name (store.modules.find manifest.name).isSome manifest (manifestDigest P yaml)
          (hashTokenHex P token) tokenId ((store.modules.find manifest.name).any (·.disabled)))
        { store with
          modules := store.modules.put ⟨manifest.name, yaml, manifestDigest P yaml, hashTokenHex P token, tokenId,
            (store.modules.find manifest.name).any (·.disabled)⟩
          revoked := store.revoked.remove manifest.name }
  | revoked {name : String} {record : AttachedRecord} {manifest : DomainOsManifest}
      (found : store.modules.find name = some record) (parsed : parseManifest P fromYaml record.manifestYaml = .ok manifest) :
      Commits store (.revoked name)
        { store with
          modules := store.modules.remove name
          revoked := store.revoked.put (.capture name (.of manifest)) }
  | disabled {name : String} {record : AttachedRecord} (off : Bool) (found : store.modules.find name = some record) :
      Commits store (.disabled name off)
        { store with modules := store.modules.put { record with disabled := off } }

inductive Writes (store : AttachedStore) : AttachedStore → Option Change → Prop where
  | nothing : Writes store store none
  | commits {change : Change} {store' : AttachedStore} (made : Commits P fromYaml store change store') :
      Writes store store' (some change)

variable {P fromYaml} {store : AttachedStore} {answers : Answers}

variable {yaml name : String} {allowRelax : Bool} {nameTaken : String → Bool} {manifest : DomainOsManifest}

theorem admitted_ok {opened : Except String Unit}
    (ok : admitted P fromYaml store yaml allowRelax nameTaken opened = .ok manifest) :
    parseManifest P fromYaml yaml = .ok manifest ∧ builtinComponentIds.contains manifest.name = false ∧
      opened = .ok () ∧ (∃ previous, previousFacts P fromYaml store manifest.name = .ok previous ∧
        (isRelax previous (.of manifest) = true → allowRelax = true)) ∧
      (store.modules.find manifest.name = none → nameTaken manifest.name = false) := by
  unfold admitted at ok
  cases parsed : parseManifest P fromYaml yaml with
  | error e =>
    rw [parsed] at ok
    cases ok
  | ok m =>
    cases builtin : builtinComponentIds.contains m.name with
    | true =>
      simp only [parsed, builtin, Except.mapError, bind, Except.bind, if_true] at ok
      cases ok
    | false =>
      cases opened with
      | error e =>
        simp only [parsed, builtin, Except.mapError, bind, Except.bind, Bool.false_eq_true, if_false] at ok
        cases ok
      | ok u =>
        cases before : previousFacts P fromYaml store m.name with
        | error e =>
          simp only [parsed, builtin, Except.mapError, bind, Except.bind, Bool.false_eq_true, if_false, before] at ok
          cases ok
        | ok previous =>
          simp only [parsed, builtin, Except.mapError, bind, Except.bind, Bool.false_eq_true, if_false, pure,
            Except.pure, before] at ok
          split at ok
          next => cases ok
          rename_i free
          split at ok
          next => cases ok
          rename_i tight
          cases ok
          simp only [Bool.and_eq_true, Bool.not_eq_true', not_and, Bool.not_eq_false] at tight
          refine ⟨rfl, builtin, rfl, ⟨previous, before, tight⟩, fun none => ?_⟩
          simpa only [none, Option.isNone_none, Bool.true_and, Bool.not_eq_true] using free

theorem admitted_of {previous : Option Facts} (parsed : parseManifest P fromYaml yaml = .ok manifest)
    (builtin : builtinComponentIds.contains manifest.name = false)
    (before : previousFacts P fromYaml store manifest.name = .ok previous)
    (tight : isRelax previous (.of manifest) = true → allowRelax = true)
    (free : store.modules.find manifest.name = none → nameTaken manifest.name = false) :
    admitted P fromYaml store yaml allowRelax nameTaken (.ok ()) = .ok manifest := by
  have taken : ((store.modules.find manifest.name).isNone && nameTaken manifest.name) = false := by
    cases found : store.modules.find manifest.name with
    | none => simp [free found]
    | some record => rfl
  have widens : (isRelax previous (.of manifest) && !allowRelax) = false := by
    cases relax : isRelax previous (.of manifest) with
    | false => rfl
    | true => simp [tight relax]
  simp only [admitted, parsed, builtin, Except.mapError, bind, Except.bind, Bool.false_eq_true, if_false, pure,
    Except.pure, before, taken, widens]

theorem register_writes :
    let called := register P fromYaml store yaml allowRelax nameTaken answers
    Writes P fromYaml store called.store called.change := by
  intro called
  simp only [called, register]
  split
  next => exact .nothing
  rename_i manifest ok
  split
  next => exact .nothing
  rename_i token tokenId minted
  cases answers.written with
  | error e => exact .nothing
  | ok u => exact .commits (.registered _ _ (admitted_ok ok).1)

theorem revoke_writes :
    let called := revoke P fromYaml store name answers
    Writes P fromYaml store called.store called.change := by
  intro called
  simp only [called, revoke]
  split
  next => exact .nothing
  split
  next => exact .nothing
  rename_i record found
  split
  next => exact .nothing
  rename_i manifest parsed
  split
  next => exact .nothing
  next => exact .commits (.revoked found parsed)

theorem setDisabled_writes {disabled : Bool} :
    let called := setDisabled store name disabled answers
    Writes P fromYaml store called.store called.change := by
  intro called
  simp only [called, setDisabled]
  split
  next => exact .nothing
  split
  next => exact .nothing
  rename_i record found
  split
  next => exact .nothing
  next => exact .commits (.disabled disabled found)

theorem writeFile_writes (P : Platform) (fromYaml : String → Except String DomainOsManifest) (store : AttachedStore)
    (call : Call) : Writes P fromYaml store (writeFile P fromYaml store call).1 (writeFile P fromYaml store call).2 := by
  cases call with
  | register => exact register_writes
  | revoke => exact revoke_writes
  | setDisabled => exact setDisabled_writes

variable (P fromYaml)

/-- The file tells of a name what the calls of the past say of it. -/
structure KeptName (store : AttachedStore) (changes : List Change) (name : String) : Prop where
  inForce : (store.modules.find name).isSome = inForce changes name
  record : ∀ record, store.modules.find name = some record → record.disabled = switchedOff changes name ∧
    ∃ manifest, parseManifest P fromYaml record.manifestYaml = .ok manifest ∧
      lastRegistration changes name = some (.of manifest)
  tombstone : store.modules.find name = none → store.revoked.find name = (lastRegistration changes name).map (.capture name)
  on : store.modules.find name = none → switchedOff changes name = false

def Kept (f : Filed) : Prop := ∀ name, KeptName P fromYaml f.store f.changes name

variable {P fromYaml} {f : Filed}

theorem KeptName.previousFacts {changes : List Change} (kept : KeptName P fromYaml store changes name) :
    previousFacts P fromYaml store name = .ok (lastRegistration changes name) := by
  unfold Attach.previousFacts
  cases found : store.modules.find name with
  | some record =>
    obtain ⟨-, manifest, parsed, last⟩ := kept.record record found
    simp only [parsed, last]
  | none =>
    simp only [kept.tombstone found]
    cases lastRegistration changes name with
    | none => rfl
    | some facts => simp only [Option.map_some, RevokedFacts.intoFacts_capture]

theorem KeptName.of_same {store' : AttachedStore} {changes changes' : List Change}
    (kept : KeptName P fromYaml store changes name)
    (modules : store'.modules.find name = store.modules.find name)
    (revoked : store'.revoked.find name = store.revoked.find name)
    (force : Attach.inForce changes' name = Attach.inForce changes name)
    (last : lastRegistration changes' name = lastRegistration changes name)
    (off : switchedOff changes' name = switchedOff changes name) :
    KeptName P fromYaml store' changes' name := by
  obtain ⟨inForce, record, tombstone, on⟩ := kept
  constructor
  · rw [modules, force, inForce]
  · rw [modules, off, last]
    exact record
  · rw [modules, revoked, last]
    exact tombstone
  · rw [modules, off]
    exact on

theorem Kept.commits {change : Change} {store' : AttachedStore} (kept : Kept P fromYaml f)
    (made : Commits P fromYaml f.store change store') : Kept P fromYaml ⟨store', change :: f.changes⟩ := by
  intro name
  have known := kept name
  cases made with
  | @registered yaml manifest token tokenId parsed =>
    by_cases here : name = manifest.name
    · subst here
      have off : (f.store.modules.find manifest.name).any (·.disabled) = switchedOff f.changes manifest.name := by
        cases found : f.store.modules.find manifest.name with
        | none => exact (known.on found).symm
        | some record => exact (known.record record found).1
      have found := Table.find_put_self (t := f.store.modules) (a := ⟨manifest.name, yaml, manifestDigest P yaml,
        hashTokenHex P token, tokenId, (f.store.modules.find manifest.name).any (·.disabled)⟩)
      constructor
      · rw [found]
        exact (if_pos rfl).symm
      · intro record found'
        rw [found] at found'
        cases found'
        exact ⟨off, manifest, parsed, if_pos rfl⟩
      · intro none
        rw [found] at none
        cases none
      · intro none
        rw [found] at none
        cases none
    · have apart : manifest.name ≠ name := fun same => here same.symm
      exact known.of_same (Table.find_put_of_ne here) (Table.find_remove_of_ne here) (if_neg apart) (if_neg apart) rfl
  | @revoked revoked record manifest found parsed =>
    by_cases here : name = revoked
    · subst here
      obtain ⟨-, manifest', parsed', last⟩ := known.record record found
      rw [parsed] at parsed'
      cases parsed'
      constructor
      · rw [Table.find_remove_self]
        exact (if_pos rfl).symm
      · intro record found
        rw [Table.find_remove_self] at found
        cases found
      · intro _
        rw [lastRegistration, last, Option.map_some]
        exact Table.find_put_self
      · intro _
        exact if_pos rfl
    · have apart : revoked ≠ name := fun same => here same.symm
      exact known.of_same (Table.find_remove_of_ne here) (Table.find_put_of_ne here) (if_neg apart) rfl (if_neg apart)
  | @disabled switched record off found =>
    have keyed := Table.find_key found
    by_cases here : name = switched
    · subst here
      obtain ⟨-, manifest, parsed, last⟩ := known.record record found
      have force := known.inForce
      rw [found] at force
      have found' : (f.store.modules.put { record with disabled := off }).find name =
          some { record with disabled := off } := keyed ▸ Table.find_put_self
      constructor
      · rw [found']
        exact force
      · intro record' found''
        rw [found'] at found''
        cases found''
        exact ⟨(if_pos rfl).symm, manifest, parsed, last⟩
      · intro none
        rw [found'] at none
        cases none
      · intro none
        rw [found'] at none
        cases none
    · have apart : switched ≠ name := fun same => here same.symm
      exact known.of_same (Table.find_put_of_ne fun same => here (same.trans keyed)) rfl rfl rfl (if_neg apart)

theorem Kept.step (kept : Kept P fromYaml f) (call : Call) : Kept P fromYaml (f.step P fromYaml call) := by
  have writes := writeFile_writes P fromYaml f.store call
  unfold Filed.step
  generalize writeFile P fromYaml f.store call = written at writes ⊢
  obtain ⟨store', change⟩ := written
  cases writes with
  | nothing => exact kept
  | commits made => exact kept.commits made

theorem Kept.start : Kept P fromYaml ⟨.empty, []⟩ := fun _ => {
  inForce := rfl
  record _ found := by cases found
  tombstone _ := rfl
  on _ := rfl }

def reached (P : Platform) (fromYaml : String → Except String DomainOsManifest) (calls : List Call) : Filed :=
  run (Filed.step P fromYaml) calls ⟨.empty, []⟩

theorem Kept.reached (calls : List Call) : Kept P fromYaml (reached P fromYaml calls) :=
  run_invariant (Filed.step P fromYaml) (fun _ => True) (Kept P fromYaml) (fun _ call _ kept => kept.step call)
    (fun _ _ => trivial) Kept.start

theorem isRelax_eq_false {previous : Option Facts} {new : Facts} (tight : isRelax previous new = false) :
    (∀ last, previous = some last → ∀ c ∈ new.capabilities, c ∈ last.capabilities) ∧
      (new.modelAccess = .remoteAllowed → ∃ last, previous = some last ∧ last.modelAccess = .remoteAllowed) := by
  cases previous with
  | none =>
    refine ⟨fun _ none => (by cases none), fun remote => ?_⟩
    simp [isRelax, remote] at tight
  | some last =>
    simp only [isRelax, Bool.or_eq_false_iff, Bool.and_eq_false_imp, List.any_eq_false, Bool.not_eq_true',
      Bool.not_eq_false, beq_iff_eq, List.contains_eq_mem, decide_eq_true_eq] at tight
    obtain ⟨access, capabilities⟩ := tight
    refine ⟨fun last' same c member => ?_, fun remote => ⟨last, rfl, ?_⟩⟩
    · cases same
      exact capabilities c member
    · cases was : last.modelAccess with
      | remoteAllowed => rfl
      | localOnly =>
        have new := access was
        simp [remote] at new

theorem admitted_of_commits
    (committed : (register P fromYaml store yaml allowRelax nameTaken answers).change.isSome = true) :
    ∃ manifest, admitted P fromYaml store yaml allowRelax nameTaken answers.opened = .ok manifest := by
  unfold register at committed
  cases ok : admitted P fromYaml store yaml allowRelax nameTaken answers.opened with
  | error e =>
    rw [ok] at committed
    cases committed
  | ok manifest => exact ⟨manifest, rfl⟩

theorem register_answered {outcome : RegisterOutcome}
    (answered : (register P fromYaml store yaml allowRelax nameTaken answers).answer = .ok outcome) :
    (register P fromYaml store yaml allowRelax nameTaken answers).change.isSome = true := by
  unfold register at answered ⊢
  split
  next e refused =>
    rw [refused] at answered
    cases answered
  next manifest ok =>
    rw [ok] at answered
    cases minted : answers.minted with
    | error e =>
      simp only [minted] at answered
      cases answered
    | ok fresh =>
      cases written : answers.written with
      | error e =>
        simp only [minted, written] at answered
        cases answered
      | ok u => rfl

/-- What is admitted where the file knows the name as revoked, or as little as elsewhere, is admitted where it
is in force. -/
theorem admitted_in_force {first second : Filed} {opened : Except String Unit} (kept : Kept P fromYaml first)
    (kept' : Kept P fromYaml second)
    (ok : admitted P fromYaml first.store yaml allowRelax nameTaken opened = .ok manifest)
    (same : lastRegistration first.changes manifest.name = lastRegistration second.changes manifest.name)
    (force : inForce second.changes manifest.name = true) :
    admitted P fromYaml second.store yaml allowRelax nameTaken opened = .ok manifest := by
  obtain ⟨parsed, builtin, rfl, ⟨previous, before, tight⟩, -⟩ := admitted_ok ok
  rw [(kept manifest.name).previousFacts] at before
  cases before
  rw [same] at tight
  refine admitted_of parsed builtin (kept' manifest.name).previousFacts tight fun none => ?_
  have held := (kept' manifest.name).inForce
  rw [none, force] at held
  cases held

/-- Without a confirmation a registration takes no capability beyond the last registration of its name. What the
user switched off stays off. -/
theorem register_widens_nothing (P : Platform) (fromYaml : String → Except String DomainOsManifest) (calls : List Call) :
    (∀ yaml nameTaken answers outcome,
      (register P fromYaml (reached P fromYaml calls).store yaml false nameTaken answers).answer = .ok outcome →
      (register P fromYaml (reached P fromYaml calls).store yaml false nameTaken answers).change.isSome = true) ∧
    (∀ yaml nameTaken answers,
      (register P fromYaml (reached P fromYaml calls).store yaml false nameTaken answers).change.isSome = true →
      ∃ manifest, parseManifest P fromYaml yaml = .ok manifest ∧
        (∀ last, lastRegistration (reached P fromYaml calls).changes manifest.name = some last →
          ∀ c ∈ manifest.kernelCapabilities, c ∈ last.capabilities) ∧
        (manifest.modelAccess = .remoteAllowed →
          ∃ last, lastRegistration (reached P fromYaml calls).changes manifest.name = some last ∧
            last.modelAccess = .remoteAllowed) ∧
        ∀ others, lastRegistration (reached P fromYaml others).changes manifest.name =
              lastRegistration (reached P fromYaml calls).changes manifest.name →
            inForce (reached P fromYaml others).changes manifest.name = true →
          (register P fromYaml (reached P fromYaml others).store yaml false nameTaken answers).change.isSome = true) ∧
    (∀ name record, (reached P fromYaml calls).store.modules.find name = some record →
      record.disabled = switchedOff (reached P fromYaml calls).changes name) ∧
    ∀ name, switchedOff (reached P fromYaml calls).changes name = true →
      ∃ record, (reached P fromYaml calls).store.modules.find name = some record ∧ record.disabled = true := by
  have kept : Kept P fromYaml (reached P fromYaml calls) := Kept.reached calls
  refine ⟨fun _ _ _ _ answered => register_answered answered, ?_, ?_, ?_⟩
  · intro yaml nameTaken answers committed
    obtain ⟨manifest, ok⟩ := admitted_of_commits committed
    obtain ⟨parsed, -, -, ⟨previous, before, tight⟩, -⟩ := admitted_ok ok
    rw [(kept manifest.name).previousFacts] at before
    cases before
    obtain ⟨capabilities, remote⟩ := isRelax_eq_false (Bool.eq_false_iff.mpr fun relax => Bool.noConfusion (tight relax))
    refine ⟨manifest, parsed, capabilities, remote, fun others same force => ?_⟩
    have admits := admitted_in_force kept (Kept.reached others) ok same.symm force
    unfold register at committed ⊢
    simp only [ok, admits] at committed ⊢
    cases minted : answers.minted with
    | error e => simp [minted] at committed
    | ok fresh =>
      cases written : answers.written with
      | error e => simp [minted, written] at committed
      | ok u => rfl
  · exact fun name record found => ((kept name).record record found).1
  · intro name off
    cases found : (reached P fromYaml calls).store.modules.find name with
    | none =>
      rw [(kept name).on found] at off
      cases off
    | some record => exact ⟨record, rfl, ((kept name).record record found).1.trans off⟩

end

def listening : DomainOsManifest := ⟨"ear", "1.0.0", [.events], .remoteAllowed, .attachedProcess, []⟩

/-- A name once confirmed for remote models, and revoked since, gets them again without a confirmation. -/
theorem revoked_remote_returns :
    let P := Platform.ofDigests []
    let read : String → Except String DomainOsManifest := fun _ => .ok listening
    let fine := Answers.fine "00" "tok_0"
    let revoked := reached P read [.register "" true (fun _ => false) fine, .revoke "ear" fine]
    inForce revoked.changes "ear" = false ∧
      (register P read revoked.store "" false (fun _ => false) fine).change.isSome = true ∧
      (register P read AttachedStore.empty "" false (fun _ => false) fine).change.isSome = false ∧
      ¬ ∀ calls yaml nameTaken answers manifest, parseManifest P read yaml = .ok manifest →
        (register P read (reached P read calls).store yaml false nameTaken answers).change.isSome = true →
        manifest.modelAccess = .remoteAllowed → inForce (reached P read calls).changes manifest.name = true := by
  intro P read fine revoked
  have here : inForce revoked.changes "ear" = false := by decide +kernel
  have passes : (register P read revoked.store "" false (fun _ => false) fine).change.isSome = true := by
    decide +kernel
  refine ⟨here, passes, by decide +kernel, fun always => ?_⟩
  have force := always [.register "" true (fun _ => false) fine, .revoke "ear" fine] "" (fun _ => false) fine listening
    rfl passes rfl
  exact Bool.noConfusion (here.symm.trans force)

end Agent24.Attach
