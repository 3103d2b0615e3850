import Agent24.Attach.RegistryRuns

/-! What the registry serves is what the file says, and what a connection that has ended still puts. -/

set_option autoImplicit false
namespace Agent24.Attach
open Library Os

/-! A hash that the store has written is always read back. -/

theorem mapM_exists {α β : Type} {f : α → Option β} {items : List α} (each : ∀ a ∈ items, ∃ b, f a = some b) :
    ∃ all, items.mapM f = some all := by
  induction items with
  | nil => exact ⟨[], rfl⟩
  | cons a rest ih =>
    obtain ⟨b, first⟩ := each a List.mem_cons_self
    obtain ⟨others, later⟩ := ih fun c member => each c (List.mem_cons_of_mem _ member)
    exact ⟨b :: others, by rw [List.mapM_cons, first, later]; rfl⟩

theorem decodeHex32_hex256 (digest : BitVec 256) : ∃ bytes, decodeHex32 (hex256 digest) = some bytes := by
  have chars : (hex256 digest).toList = Numeral.hexDigits 64 digest.toNat := String.toList_ofList
  have length := Numeral.length_hexDigits 64 digest.toNat
  have pairs : ∀ v < 16, ∀ w < 16, (Numeral.parseHex 255 (String.ofList [Nat.digitChar v, Nat.digitChar w])).isSome = true := by
    decide +kernel
  have ascii : ((hex256 digest).toList.all fun c => c.toNat < 128) = true := by
    rw [chars, List.all_eq_true]
    intro c member
    obtain ⟨v, small, rfl⟩ := Numeral.exists_of_mem_hexDigits member
    have table : ∀ v < 16, decide ((Nat.digitChar v).toNat < 128) = true := by decide +kernel
    exact table v small
  have reads : ∀ i ∈ List.range 32, ∃ byte, (Numeral.parseHex 255
      (String.ofList (((hex256 digest).toList.drop (i * 2)).take 2))).map UInt8.ofNat = some byte := by
    intro i member
    have small := List.mem_range.mp member
    rw [chars, List.drop_eq_getElem_cons (by omega), List.drop_eq_getElem_cons (by omega), List.take_succ_cons,
      List.take_succ_cons, List.take_zero]
    obtain ⟨v, smallV, same⟩ := Numeral.exists_of_mem_hexDigits (List.getElem_mem (l := Numeral.hexDigits 64 digest.toNat)
      (n := i * 2) (by omega))
    obtain ⟨w, smallW, same'⟩ := Numeral.exists_of_mem_hexDigits (List.getElem_mem (l := Numeral.hexDigits 64 digest.toNat)
      (n := i * 2 + 1) (by omega))
    obtain ⟨byte, parsed⟩ := Option.isSome_iff_exists.mp (pairs v smallV w smallW)
    rw [← same, ← same', parsed]
    exact ⟨_, rfl⟩
  obtain ⟨bytes, all⟩ := mapM_exists reads
  refine ⟨bytes, ?_⟩
  unfold decodeHex32
  rw [ascii, chars, length, ← chars]
  exact all

section
variable (P : Platform) (fromYaml : String → Except String DomainOsManifest)

structure Mirrors (record : AttachedRecord) (e : Entry) : Prop where
  manifest : ∃ manifest, parseManifest P fromYaml record.manifestYaml = .ok manifest ∧
    e.hostCommands = manifest.hostCommands ∧ e.version = manifest.version
  digest : e.manifestDigest = record.manifestDigest
  token : decodeHex32 record.tokenSha256 = some e.tokenSha256
  tokenId : e.tokenId = record.tokenId
  disabled : e.disabled = record.disabled

def Mirrored (store : AttachedStore) (registry : AttachRegistry) : Prop :=
  ∀ name, Option.Rel (Mirrors P fromYaml) (store.modules.find name) (registry.entries.find name)

def Attached.ToldFile (s : Attached) (store : AttachedStore) : Prop :=
  match s.telling with
  | none => store = s.store
  | some change => Commits P fromYaml store change s.store

structure Told (s : Attached) : Prop where
  open_ : s.registry.closed = false → ∃ store, s.ToldFile P fromYaml store ∧ Mirrored P fromYaml store s.registry
  closed : s.registry.closed = true → ∀ name, s.registry.entries.find name = none

end

section Told
variable {P : Platform} {fromYaml : String → Except String DomainOsManifest} {s s' : Attached} {e e' : Entry}

def Entry.facts (e : Entry) : String × List UInt8 × String × Bool × List String × String :=
  (e.manifestDigest, e.tokenSha256, e.tokenId, e.disabled, e.hostCommands, e.version)

theorem Mirrors.of_facts {record : AttachedRecord} (mirrors : Mirrors P fromYaml record e) (same : e'.facts = e.facts) :
    Mirrors P fromYaml record e' := by
  simp only [Entry.facts, Prod.mk.injEq] at same
  obtain ⟨digest, token, tokenId, disabled, commands, version⟩ := same
  obtain ⟨⟨manifest, parsed, commands', version'⟩, digest', token', tokenId', disabled'⟩ := mirrors
  exact ⟨⟨manifest, parsed, commands.trans commands', version.trans version'⟩, digest.trans digest', token ▸ token',
    tokenId.trans tokenId', disabled.trans disabled'⟩

structure Serves (s s' : Attached) : Prop where
  store : s'.store = s.store
  telling : s'.telling = s.telling
  closed : s'.registry.closed = s.registry.closed
  facts : ∀ name, (s'.registry.entries.find name).map Entry.facts = (s.registry.entries.find name).map Entry.facts

theorem Told.keep (told : Told P fromYaml s) (serves : Serves s s') : Told P fromYaml s' where
  open_ open_ := by
    obtain ⟨store, file, mirrored⟩ := told.open_ (serves.closed ▸ open_)
    refine ⟨store, ?_, fun name => ?_⟩
    · unfold Attached.ToldFile
      rw [serves.telling, serves.store]
      exact file
    · have same := serves.facts name
      have here := mirrored name
      cases listed' : s'.registry.entries.find name with
      | none =>
        rw [listed', Option.map_none, eq_comm, Option.map_eq_none_iff] at same
        rwa [same] at here
      | some e' =>
        rw [listed', Option.map_some, eq_comm, Option.map_eq_some_iff] at same
        obtain ⟨e, listed, facts⟩ := same
        rw [listed] at here
        generalize store.modules.find name = record at here ⊢
        cases here with
        | some mirrors => exact .some (mirrors.of_facts facts.symm)
  closed closed name := by
    have none := told.closed (serves.closed ▸ closed) name
    have same := serves.facts name
    rwa [none, Option.map_none, Option.map_eq_none_iff] at same

theorem Serves.refl (s : Attached) : Serves s s := ⟨rfl, rfl, rfl, fun _ => rfl⟩

theorem Serves.trans {s₁ s₂ s₃ : Attached} (first : Serves s₁ s₂) (second : Serves s₂ s₃) : Serves s₁ s₃ :=
  ⟨second.store.trans first.store, second.telling.trans first.telling, second.closed.trans first.closed,
    fun name => (second.facts name).trans (first.facts name)⟩

theorem Serves.of_registry (store : s'.store = s.store) (telling : s'.telling = s.telling)
    (registry : s'.registry = s.registry) : Serves s s' :=
  ⟨store, telling, by rw [registry], fun name => by rw [registry]⟩

theorem Serves.setEntry (serves : Serves s s') (found : s'.registry.entries.find e'.name = some e)
    (same : e'.facts = e.facts) : Serves s (s'.setEntry e') :=
  serves.trans ⟨rfl, rfl, rfl, fun name => by
    rw [find_setEntry]
    split
    next here => rw [here, found, Option.map_some, Option.map_some, same]
    next => rfl⟩

section
variable (s : Attached)

theorem commit_serves (claim : AttachedAccepted) : Serves s (s.commit claim).2 := by
  unfold Attached.commit
  split
  · exact .refl s
  split
  next => exact .refl s
  rename_i e found
  rw [← Table.find_key found] at found
  split
  · exact .refl s
  split
  · exact (Serves.refl s).setEntry found rfl
  split
  · exact .refl s
  refine Serves.setEntry (e := e) (?_ : Serves s _) ?_ rfl
  · exact .of_registry rfl rfl rfl
  · exact found

theorem release_serves (name : String) (c : Nat) : Serves s (s.release name c) := by
  unfold Attached.release
  split
  next => exact .refl s
  rename_i e found
  have keyed := Table.find_key found
  generalize own : (e.lastGeneration.any fun last => last.2 == c) = owns
  generalize live : (e.liveCalls.any fun live => live.generation == c) = lives
  refine Serves.setEntry (e := e) (Serves.of_registry ?_ ?_ ?_) ?_ rfl
  · cases lives <;> cases owns <;> cases e.slot.current <;> rfl
  · cases lives <;> cases owns <;> cases e.slot.current <;> rfl
  · cases lives <;> cases owns <;> cases e.slot.current <;> rfl
  · refine Eq.trans ?_ (keyed ▸ found)
    cases lives <;> cases owns <;> cases e.slot.current <;> rfl

theorem attach_serves (name : String) (c : Nat) (line : List UInt8) (permit : Bool) :
    Serves s (s.attachKernelCalls name c line permit).2 := by
  unfold Attached.attachKernelCalls
  split
  next => exact .refl s
  dsimp only
  split
  next =>
    split
    next e found =>
      have keyed := Table.find_key found
      split
      next =>
        refine Serves.setEntry (e := e) (?_ : Serves s _) ?_ rfl
        · exact .of_registry rfl rfl rfl
        · exact keyed ▸ found
      next => exact .of_registry rfl rfl rfl
    next => exact .of_registry rfl rfl rfl
  next => exact .of_registry rfl rfl rfl

theorem note_serves (name tokenId expected actual : String) :
    Serves s (s.noteContractMismatch name tokenId expected actual) := by
  unfold Attached.noteContractMismatch
  split
  · exact .refl s
  split
  next => exact .refl s
  rename_i e found
  have keyed := Table.find_key found
  split
  · exact .refl s
  split
  · exact .refl s
  · exact (Serves.refl s).setEntry (e := e) (keyed ▸ found) rfl

theorem reserve_serves (name command : String) : Serves s (s.reserveReady name command).2 := by
  rcases reserveReady_cases s name command with ⟨refused, same⟩ | ⟨c, e, connection, -, same⟩
  · rw [same]
    exact .refl s
  · rw [same]
    exact .of_registry rfl rfl rfl

end

theorem Mirrored.onChange {store store' : AttachedStore} {change : Change} (open_ : s.registry.closed = false)
    (mirrored : Mirrored P fromYaml store s.registry) (made : Commits P fromYaml store change store') :
    Mirrored P fromYaml store' (s.onChange change).registry ∧ (s.onChange change).registry.closed = false := by
  unfold Attached.onChange
  rw [open_]
  cases made with
  | @registered yaml manifest token tokenId parsed =>
    obtain ⟨bytes, decoded⟩ := decodeHex32_hex256 (P.sha256 token)
    have read : decodeHex32 (hashTokenHex P token) = some bytes := decoded
    simp only [Bool.false_eq_true, if_false, read]
    have step : ∀ (s' : Attached) (e' : Entry), s'.registry = s.registry → e'.name = manifest.name →
        Mirrors P fromYaml ⟨manifest.name, yaml, manifestDigest P yaml, hashTokenHex P token, tokenId,
          (store.modules.find manifest.name).any (·.disabled)⟩ e' →
        Mirrored P fromYaml { store with
          modules := store.modules.put ⟨manifest.name, yaml, manifestDigest P yaml, hashTokenHex P token, tokenId,
            (store.modules.find manifest.name).any (·.disabled)⟩
          revoked := store.revoked.remove manifest.name } (s'.setEntry e').registry ∧
        (s'.setEntry e').registry.closed = false := by
      intro s' e' same named mirrors
      refine ⟨fun name => ?_, (congrArg AttachRegistry.closed same).trans open_⟩
      rw [find_setEntry, same, named]
      by_cases here : name = manifest.name
      · subst here
        rw [if_pos rfl, Table.find_put_self]
        exact .some mirrors
      · dsimp only
        rw [if_neg here, Table.find_put, if_neg here]
        exact mirrored name
    split
    next e found =>
      have keyed := Table.find_key found
      exact step _ _ (cut_registry s e) keyed ⟨⟨manifest, parsed, rfl, rfl⟩, rfl, read, rfl, rfl⟩
    next => exact step _ _ rfl rfl ⟨⟨manifest, parsed, rfl, rfl⟩, rfl, read, rfl, rfl⟩
  | @revoked name record manifest found parsed =>
    simp only [Bool.false_eq_true, if_false]
    have here := mirrored name
    rw [found] at here
    generalize listed : s.registry.entries.find name = entry at here
    cases here with
    | some mirrors =>
      refine ⟨fun other => ?_, ?_⟩
      · dsimp only
        rw [cut_registry, Table.find_remove, Table.find_remove]
        split
        · exact .none
        · exact mirrored other
      · dsimp only
        rw [cut_registry]
        exact open_
  | @disabled name record off found =>
    simp only [Bool.false_eq_true, if_false]
    have keyed := Table.find_key found
    have here := mirrored name
    rw [found] at here
    generalize listed : s.registry.entries.find name = entry at here
    cases here with
    | @some _ e mirrors =>
      have step : ∀ (s' : Attached) (e' : Entry), s'.registry = s.registry → e'.name = e.name →
          Mirrors P fromYaml { record with disabled := off } e' →
          Mirrored P fromYaml { store with modules := store.modules.put { record with disabled := off } }
            (s'.setEntry e').registry ∧ (s'.setEntry e').registry.closed = false := by
        intro s' e' same named mirrors
        refine ⟨fun other => ?_, (congrArg AttachRegistry.closed same).trans open_⟩
        rw [find_setEntry, same, named, Table.find_key listed]
        dsimp only
        rw [Table.find_put]
        by_cases here : other = name
        · rw [if_pos here, if_pos (here.trans keyed.symm)]
          exact .some mirrors
        · rw [if_neg here, if_neg fun same => here (same.trans keyed)]
          exact mirrored other
      dsimp only
      cases off with
      | true =>
        exact step _ _ (cut_registry s e) rfl ⟨mirrors.manifest, mirrors.digest, mirrors.token, mirrors.tokenId, rfl⟩
      | false => exact step _ _ rfl rfl ⟨mirrors.manifest, mirrors.digest, mirrors.token, mirrors.tokenId, rfl⟩

variable (P fromYaml) (R : JsonReader)

theorem onChange_closed (closed : s.registry.closed = true) (change : Change) : s.onChange change = s := by
  unfold Attached.onChange
  rw [closed]
  rfl

theorem onChange_store (s : Attached) (change : Change) : (s.onChange change).store = s.store := by
  have cut : ∀ e : Entry, (s.cut e).store = s.store := fun e => (cut_ends s e).store
  unfold Attached.onChange
  split
  · rfl
  cases change with
  | registered =>
    dsimp only
    split
    · rfl
    split
    · exact cut _
    · rfl
  | revoked =>
    dsimp only
    split
    · exact cut _
    · rfl
  | disabled =>
    dsimp only
    split
    · split
      · exact cut _
      · rfl
    · rfl

theorem Told.step (told : Told P fromYaml s) (move : AttachMove) : Told P fromYaml (attachStep P fromYaml R s move) := by
  cases move with
  | write call =>
    unfold attachStep
    dsimp only
    split
    next => exact told
    rename_i idle
    refine ⟨fun open_ => ?_, told.closed⟩
    obtain ⟨store, file, mirrored⟩ := told.open_ open_
    refine ⟨s.store, ?_, ?_⟩
    · have writes := writeFile_writes P fromYaml s.store call
      unfold Attached.ToldFile
      generalize writeFile P fromYaml s.store call = written at writes ⊢
      obtain ⟨store', change⟩ := written
      cases writes with
      | nothing => rfl
      | commits made => exact made
    · unfold Attached.ToldFile at file
      rw [idle] at file
      exact file ▸ mirrored
  | tell =>
    unfold attachStep
    dsimp only
    split
    next change telling =>
      cases closed : s.registry.closed with
      | true =>
        rw [onChange_closed closed]
        refine ⟨fun open_ => ?_, told.closed⟩
        exact absurd (closed.symm.trans open_) (by decide)
      | false =>
        obtain ⟨store, file, mirrored⟩ := told.open_ closed
        unfold Attached.ToldFile at file
        rw [telling] at file
        obtain ⟨mirrored', open_⟩ := mirrored.onChange closed file
        exact ⟨fun _ => ⟨s.store, (onChange_store s change).symm, mirrored'⟩, fun closed' => absurd (open_.symm.trans closed') (by decide)⟩
    next => exact told
  | commit claim => exact told.keep (commit_serves s claim)
  | attach =>
    unfold attachStep
    dsimp only
    split
    next =>
      split
      next => exact told
      next => exact told.keep (attach_serves ..)
    next => exact told
  | release c =>
    unfold attachStep
    dsimp only
    split
    next => exact told.keep (release_serves ..)
    next => exact told
  | reserve name command => exact told.keep (reserve_serves s name command)
  | call =>
    unfold attachStep
    dsimp only
    split
    next => exact told.keep (.of_registry rfl rfl rfl)
    next => exact told
  | dropSlot c =>
    show Told P fromYaml (s.dropSlot c)
    unfold Attached.dropSlot
    split
    next => exact told.keep (.of_registry rfl rfl rfl)
    next => exact told
  | note => exact told.keep (note_serves ..)
  | revokeAll => exact ⟨fun open_ => (by cases open_), fun _ _ => rfl⟩
  | wire c move =>
    unfold attachStep
    dsimp only
    split
    next => exact told.keep (.of_registry rfl rfl rfl)
    next => exact told

def Stored (store : AttachedStore) : Prop := ∀ record ∈ store.modules.rows,
  (∃ manifest, parseManifest P fromYaml record.manifestYaml = .ok manifest) ∧
    ∃ token, record.tokenSha256 = hashTokenHex P token

theorem Stored.commits {store store' : AttachedStore} {change : Change} (stored : Stored P fromYaml store)
    (made : Commits P fromYaml store change store') : Stored P fromYaml store' := by
  intro record member
  cases made with
  | registered token tokenId parsed =>
    rcases Table.mem_put.mp member with rfl | ⟨old, -⟩
    · exact ⟨⟨_, parsed⟩, token, rfl⟩
    · exact stored record old
  | revoked => exact stored record (Table.mem_deleteWhere.mp member).1
  | disabled off found =>
    have before := stored _ (Table.find_eq_some.mp found).1
    rcases Table.mem_put.mp member with rfl | ⟨old, -⟩
    · exact before
    · exact stored record old

theorem Stored.reached (calls : List Call) : Stored P fromYaml (reached P fromYaml calls).store := by
  refine run_invariant (Filed.step P fromYaml) (fun _ => True) (fun f => Stored P fromYaml f.store) ?_
    (fun _ _ => trivial) ?_
  · intro f call _ stored
    have writes := writeFile_writes P fromYaml f.store call
    unfold Filed.step
    generalize writeFile P fromYaml f.store call = written at writes ⊢
    obtain ⟨store', change⟩ := written
    cases writes with
    | nothing => exact stored
    | commits made => exact stored.commits P fromYaml made
  · exact fun _ member => absurd member List.not_mem_nil

theorem Told.start (calls : List Call) :
    Told P fromYaml (.start P fromYaml (reached P fromYaml calls).store) where
  open_ _ := by
    refine ⟨_, rfl, fun name => ?_⟩
    dsimp only [Attached.start]
    rw [find_hydrate]
    cases found : (reached P fromYaml calls).store.modules.find name with
    | none => exact .none
    | some record =>
      obtain ⟨⟨manifest, parsed⟩, token, hashed⟩ :=
        Stored.reached P fromYaml calls record (Table.find_eq_some.mp found).1
      obtain ⟨bytes, decoded⟩ := decodeHex32_hex256 (P.sha256 token)
      have read : decodeHex32 record.tokenSha256 = some bytes := hashed ▸ decoded
      rw [Option.bind_some, hydrated, parsed, read]
      exact .some ⟨⟨manifest, parsed, rfl, rfl⟩, rfl, read, rfl, rfl⟩
  closed closed := by cases closed

end Told

/-! What becomes of a connection whose generation no longer runs. -/

structure Passes (k k' : Connection) : Prop where
  name : k'.name = k.name
  still : k.generation.state ≠ .running → k'.generation.state ≠ .running
  quiet : k.generation.state ≠ .running → commandLines k'.calls = commandLines k.calls

theorem Passes.refl (k : Connection) : Passes k k := ⟨rfl, id, fun _ => rfl⟩

theorem Passes.trans {k k' k'' : Connection} (first : Passes k k') (second : Passes k' k'') : Passes k k'' :=
  ⟨second.name.trans first.name, fun ended => second.still (first.still ended),
    fun ended => (second.quiet (first.still ended)).trans (first.quiet ended)⟩

theorem Ended.passes {gone shut : Bool} {k k' : Connection} (ended : Ended gone shut k k') : Passes k k' where
  name := ended.name
  still over_ running := over_ (ended.running running).2
  quiet _ := congrArg (List.filter isCommand) ended.put

def Carries (s s' : Attached) : Prop :=
  ∀ c k, s.connections c = some k → ∃ k', s'.connections c = some k' ∧ Passes k k'

namespace Carries
variable {s s' s₁ s₂ s₃ : Attached}

theorem of_connections (same : s'.connections = s.connections) : Carries s s' :=
  fun _ k found => ⟨k, same ▸ found, .refl k⟩

theorem trans (first : Carries s₁ s₂) (second : Carries s₂ s₃) : Carries s₁ s₃ := by
  intro c k found
  obtain ⟨k', found', passes⟩ := first c k found
  obtain ⟨k'', found'', passes'⟩ := second c k' found'
  exact ⟨k'', found'', passes.trans passes'⟩

theorem ends {gone shut : Nat → Bool} (ends : Ends gone shut s s') : Carries s s' := by
  intro c k found
  obtain ⟨k', found', ended⟩ := ends.present c k found
  exact ⟨k', found', ended.passes⟩

theorem edit {c : Nat} {change : Connection → Connection}
    (passes : ∀ k, s.connections c = some k → Passes k (change k)) : Carries s (s.edit c change) := by
  intro d k found
  rw [edit_connections]
  by_cases here : d = c
  · subst here
    rw [if_pos rfl, found]
    exact ⟨_, rfl, passes k found⟩
  · rw [if_neg here]
    exact ⟨k, found, .refl k⟩

end Carries

section Passing
variable {P : Platform} {fromYaml : String → Except String DomainOsManifest} {s : Attached}

theorem onChange_carries (s : Attached) (change : Change) : Carries s (s.onChange change) := by
  have cut : ∀ e : Entry, Carries s (s.cut e) := fun e => .ends (cut_ends s e)
  unfold Attached.onChange
  split
  · exact .of_connections rfl
  cases change with
  | registered =>
    dsimp only
    split
    · exact .of_connections rfl
    split
    · exact (cut _).trans (.of_connections rfl)
    · exact .of_connections rfl
  | revoked =>
    dsimp only
    split
    · exact (cut _).trans (.of_connections rfl)
    · exact .of_connections rfl
  | disabled =>
    dsimp only
    split
    · split
      · exact (cut _).trans (.of_connections rfl)
      · exact .of_connections rfl
    · exact .of_connections rfl

theorem release_carries (s : Attached) (name : String) (c : Nat) : Carries s (s.release name c) := by
  unfold Attached.release
  split
  next => exact .of_connections rfl
  rename_i e found
  have first := (revokeCurrent_ends s e.slot.current).when (e.lastGeneration.any fun last => last.2 == c)
  have second := first.trans ((closeCalls_ends _ c).when (e.liveCalls.any fun live => live.generation == c))
  exact (Carries.ends (second.trans (revokeGeneration_ends _ c))).trans (.of_connections rfl)

theorem attach_carries (s : Attached) (name : String) (c : Nat) (line : List UInt8) (permit : Bool) :
    Carries s (s.attachKernelCalls name c line permit).2 := by
  have handed : Carries s (s.edit c fun k => { k with handed := true }) := .edit fun k _ => ⟨rfl, id, fun _ => rfl⟩
  have framed : ∀ s : Attached, Carries s (s.edit c fun k => { k with calls := k.calls.push (.raw line) }) :=
    fun s => .edit fun k _ => ⟨rfl, id, fun _ => (List.filter_append ..).trans (List.append_nil _)⟩
  have counted : ∀ s : Attached, Carries s (s.edit c fun k => { k with inFlight := 0 }) :=
    fun s => .edit fun k _ => ⟨rfl, id, fun _ => rfl⟩
  unfold Attached.attachKernelCalls
  split
  next => exact .of_connections rfl
  dsimp only
  split
  next =>
    split
    next =>
      split
      next => exact ((handed.trans (framed _)).trans (counted _)).trans (.of_connections rfl)
      next => exact handed.trans (framed _)
    next => exact handed.trans (framed _)
  next => exact handed

theorem commit_carries (kept : AttachKept s) (claim : AttachedAccepted) : Carries s (s.commit claim).2 := by
  unfold Attached.commit
  split
  · exact .of_connections rfl
  split
  · exact .of_connections rfl
  split
  · exact .of_connections rfl
  split
  · exact .of_connections rfl
  split
  · exact .of_connections rfl
  intro c k found
  have old : c ≠ s.made := by
    rintro rfl
    rw [kept.fresh s.made le_rfl] at found
    cases found
  exact ⟨k, (if_neg old).trans found, .refl k⟩

variable (P fromYaml) (R : JsonReader)

theorem step_carries (kept : AttachKept s) (move : AttachMove) : Carries s (attachStep P fromYaml R s move) := by
  cases move with
  | write call =>
    unfold attachStep
    dsimp only
    split
    · exact .of_connections rfl
    · exact .of_connections rfl
  | tell =>
    unfold attachStep
    dsimp only
    split
    · exact (onChange_carries s _).trans (.of_connections rfl)
    · exact .of_connections rfl
  | commit claim => exact commit_carries kept claim
  | attach c line permit =>
    unfold attachStep
    dsimp only
    split
    · split
      · exact .of_connections rfl
      · exact attach_carries s _ c line permit
    · exact .of_connections rfl
  | release c =>
    unfold attachStep
    dsimp only
    split
    · exact release_carries s _ c
    · exact .of_connections rfl
  | reserve name command =>
    show Carries s (s.reserveReady name command).2
    rcases reserveReady_cases s name command with ⟨refused, same⟩ | ⟨c, e, connection, -, same⟩
    · rw [same]
      exact .of_connections rfl
    have counted : Carries s (s.edit c fun k => { k with inFlight := k.inFlight + 1 }) :=
      .edit fun k _ => ⟨rfl, id, fun _ => rfl⟩
    rw [same]
    exact counted.trans (.of_connections rfl)
  | call c =>
    unfold attachStep
    dsimp only
    split
    next held =>
      refine .edit fun k found => ⟨rfl, id, fun over_ => ?_⟩
      rcases kept.used c k found (.inl held) with closed | ⟨running, -⟩
      · exact commandLines_closed R closed
      · exact absurd running over_
    next => exact .of_connections rfl
  | dropSlot c =>
    show Carries s (s.dropSlot c)
    have counted : Carries s (s.edit c fun k => { k with inFlight := k.inFlight - 1 }) :=
      .edit fun k _ => ⟨rfl, id, fun _ => rfl⟩
    unfold Attached.dropSlot
    split
    · exact counted.trans (.of_connections rfl)
    · exact .of_connections rfl
  | note name tokenId expected actual =>
    refine .of_connections ?_
    show (s.noteContractMismatch name tokenId expected actual).connections = s.connections
    unfold Attached.noteContractMismatch
    split
    · rfl
    split
    · rfl
    split
    · rfl
    split <;> rfl
  | revokeAll => exact (Carries.ends (cuts_ends s.registry.entries.rows s)).trans (.of_connections rfl)
  | wire c move =>
    unfold attachStep
    dsimp only
    split
    next wire =>
      refine .edit fun k found => ⟨rfl, id, fun over_ => ?_⟩
      by_cases idle : k.calls.issued = 0
      · exact commandLines_idle R (kept.each c k found).calls idle
      rcases kept.used c k found (.inr idle) with closed | ⟨running, -⟩
      · exact commandLines_closed R closed
      · exact absurd running over_
    next => exact .of_connections rfl

theorem run_carries (kept : AttachKept s) (moves : List AttachMove) :
    Carries s (run (attachStep P fromYaml R) moves s) :=
  run_relates (attachStep P fromYaml R) (fun _ => True) AttachKept Carries (fun _ => .of_connections rfl)
    (fun _ _ _ => Carries.trans) (fun _ move _ kept => kept.step P fromYaml R move)
    (fun _ move _ kept => step_carries P fromYaml R kept move) (fun _ _ => trivial) kept

end Passing

def Severs (s : Attached) (name : String) (c : Nat) : AttachMove → Prop
  | .release d => d = c
  | .revokeAll => True
  | .tell => match s.telling with
    | some (.registered changed _ _ _ _ _ _) => changed = name
    | some (.revoked changed) => changed = name
    | some (.disabled changed off) => changed = name ∧ off = true
    | none => False
  | _ => False

section Ending
variable {P : Platform} {fromYaml : String → Except String DomainOsManifest} {s : Attached}

theorem onChange_current {change : Change} {name : String} {e' : Entry} (open_ : s.registry.closed = false)
    (decodes : ∀ changed rotated manifest digest hex tokenId disabled,
      change = .registered changed rotated manifest digest hex tokenId disabled → ∃ bytes, decodeHex32 hex = some bytes)
    (severs : match change with
      | .registered changed _ _ _ _ _ _ => changed = name
      | .revoked changed => changed = name
      | .disabled changed off => changed = name ∧ off = true)
    (listed : (s.onChange change).registry.entries.find name = some e') : e'.slot.current = none := by
  unfold Attached.onChange at listed
  rw [open_] at listed
  cases change with
  | registered changed =>
    obtain rfl : changed = name := severs
    obtain ⟨bytes, read⟩ := decodes _ _ _ _ _ _ _ rfl
    simp only [Bool.false_eq_true, if_false, read] at listed
    split at listed
    next e found =>
      obtain rfl := Table.find_key found
      cases (find_setEntry_self (s.cut e) _).symm.trans listed
      rfl
    next =>
      cases (find_setEntry_self s _).symm.trans listed
      rfl
  | revoked changed =>
    obtain rfl : changed = name := severs
    simp only [Bool.false_eq_true, if_false] at listed
    split at listed
    next e found =>
      rw [Table.find_remove_self] at listed
      cases listed
    next absent =>
      rw [absent] at listed
      cases listed
  | disabled changed off =>
    obtain ⟨rfl, rfl⟩ := severs
    simp only [Bool.false_eq_true, if_false, if_true] at listed
    split at listed
    next e found =>
      obtain rfl := Table.find_key found
      cases (find_setEntry_self (s.cut e) _).symm.trans listed
      rfl
    next absent =>
      rw [absent] at listed
      cases listed

theorem release_entry (s : Attached) {name : String} (c : Nat) {e : Entry}
    (found : s.registry.entries.find name = some e) :
    ∃ (s' : Attached) (e' : Entry), s.release name c = s'.setEntry e' ∧ s'.registry = s.registry ∧ e'.name = name ∧
      e'.slot.current ≠ some c ∧ ((e.lastGeneration.any fun last => last.2 == c) = false →
        e.slot.current ≠ some c → e'.slot.current = e.slot.current) := by
  have keyed := Table.find_key found
  unfold Attached.release
  rw [found]
  dsimp only
  generalize (e.lastGeneration.any fun last => last.2 == c) = owns
  generalize (e.liveCalls.any fun live => live.generation == c) = lives
  refine ⟨_, _, rfl, ?_, keyed, ?_, fun foreign other => ?_⟩
  · cases lives <;> cases owns <;> cases e.slot.current <;> rfl
  · dsimp only
    generalize (if owns then none else e.slot.current) = current
    split
    next => exact fun now => by cases now
    next other => exact other
  · subst foreign
    exact if_neg other

theorem release_current {name : String} {c : Nat} {e' : Entry}
    (listed : (s.release name c).registry.entries.find name = some e') : e'.slot.current ≠ some c := by
  cases found : s.registry.entries.find name with
  | none =>
    unfold Attached.release at listed
    simp only [found] at listed
    cases listed
  | some e =>
    obtain ⟨s', after, same, -, named, current, -⟩ := release_entry s c found
    rw [same, find_setEntry, if_pos named.symm] at listed
    cases listed
    exact current

theorem release_connections (kept : AttachKept s) {name : String} {c d : Nat} (other : d ≠ c) :
    (s.release name c).connections d = s.connections d := by
  unfold Attached.release
  split
  next => rfl
  rename_i e found
  have away : ∀ (s : Attached) (change : Connection → Connection), (s.edit c change).connections d = s.connections d :=
    fun s change => (edit_connections s c change d).trans (if_neg other)
  refine (away _ _).trans ?_
  have first : ∀ s₁ : Attached, s₁.connections d = s.connections d →
      (if e.liveCalls.any fun live => live.generation == c then s₁.closeCalls c else s₁).connections d =
        s.connections d := by
    intro s₁ same
    split
    · exact (away _ _).trans same
    · exact same
  refine first _ ?_
  split
  next last =>
    cases now : e.slot.current with
    | none => rfl
    | some c' =>
      obtain ⟨⟨n, past⟩, -⟩ := kept.current name e c' found now
      rw [past] at last
      obtain rfl : c' = c := beq_iff_eq.mp last
      exact away _ _
  next => rfl

theorem release_keeps (kept : AttachKept s) {name other : String} {c d : Nat} {e : Entry} (apart : d ≠ c)
    (listed : s.registry.entries.find other = some e) (now : e.slot.current = some d) :
    ∃ e', (s.release name c).registry.entries.find other = some e' ∧ e'.slot.current = some d := by
  obtain ⟨⟨n, past⟩, -⟩ := kept.current other e d listed now
  cases found : s.registry.entries.find name with
  | none =>
    unfold Attached.release
    rw [found]
    exact ⟨e, listed, now⟩
  | some e₀ =>
    obtain ⟨s', after, same, registry, named, -, keeps⟩ := release_entry s c found
    rw [same, find_setEntry, registry, named]
    split
    next here =>
      subst here
      obtain rfl := Option.some.inj (found.symm.trans listed)
      rw [past, now] at keeps
      exact ⟨after, rfl, keeps (beq_false_of_ne apart) fun same => apart (Option.some.inj same)⟩
    next => exact ⟨e, listed, now⟩

theorem commit_ok {claim : AttachedAccepted} {number c : Nat} (ok : (s.commit claim).1 = .ok (number, c)) :
    s.registry.closed = false ∧ ∃ e, s.registry.entries.find claim.module = some e ∧ e.tokenId = claim.tokenId ∧
      e.disabled = false := by
  unfold Attached.commit at ok
  split at ok
  · cases ok
  rename_i open_
  split at ok
  next => cases ok
  rename_i e found
  split at ok
  · cases ok
  rename_i same
  split at ok
  · cases ok
  rename_i on
  exact ⟨eq_false_of_ne_true open_, e, found, not_not.mp same, eq_false_of_ne_true on⟩

theorem severed (kept : AttachKept s) (told : Told P fromYaml s) (R : JsonReader) {c : Nat} {k : Connection}
    (found : s.connections c = some k) {move : AttachMove} (severs : Severs s k.name c move) :
    ∃ k', (attachStep P fromYaml R s move).connections c = some k' ∧ k'.generation.state ≠ .running := by
  obtain ⟨k', found', passes⟩ := step_carries P fromYaml R kept move c k found
  refine ⟨k', found', fun running => ?_⟩
  -- what still runs is what its entry has
  obtain ⟨e', listed, now⟩ := (kept.step P fromYaml R move).runs c k' found' running
  rw [passes.name] at listed
  cases move with
  | release d =>
    obtain rfl : d = c := severs
    unfold attachStep at listed
    simp only [found] at listed
    exact release_current listed now
  | revokeAll => cases listed
  | tell =>
    unfold Severs at severs
    unfold attachStep at listed
    cases telling : s.telling with
    | none => simp only [telling] at severs
    | some change =>
      simp only [telling] at severs listed
      cases closed : s.registry.closed with
      | true =>
        rw [onChange_closed closed, told.closed closed] at listed
        cases listed
      | false =>
        obtain ⟨store, file, -⟩ := told.open_ closed
        unfold Attached.ToldFile at file
        rw [telling] at file
        have idle : e'.slot.current = none := by
          refine onChange_current closed ?_ ?_ listed
          · rintro changed rotated manifest digest hex tokenId disabled rfl
            generalize s.store = written at file
            cases file with
            | registered token => exact decodeHex32_hex256 (P.sha256 token)
          · cases change <;> exact severs
        rw [idle] at now
        cases now
  | _ => exact severs

end Ending

structure RegistryRight (P : Platform) (fromYaml : String → Except String DomainOsManifest) (R : JsonReader)
    (s : Attached) : Prop where
  single : ∀ c d k l, s.connections c = some k → s.connections d = some l → k.name = l.name →
    k.generation.state = .running → l.generation.state = .running → c = d
  /-- A handshake commits on the registration in force only. -/
  commit : ∀ claim number c, (s.commit claim).1 = .ok (number, c) → s.registry.closed = false ∧
    ∃ store record, s.ToldFile P fromYaml store ∧ store.modules.find claim.module = some record ∧
      record.tokenId = claim.tokenId ∧ record.disabled = false
  /-- The end of a connection leaves every other where it is. -/
  release : ∀ c d, d ≠ c → (attachStep P fromYaml R s (.release c)).connections d = s.connections d ∧
    ∀ name e, s.registry.entries.find name = some e → e.slot.current = some d →
      ∃ e', (attachStep P fromYaml R s (.release c)).registry.entries.find name = some e' ∧ e'.slot.current = some d
  /-- A rotation, a disabling, a revocation, a shutdown and a release end the connection. -/
  ends : ∀ c k, s.connections c = some k → ∀ move, Severs s k.name c move →
    ∃ k', (attachStep P fromYaml R s move).connections c = some k' ∧ k'.generation.state ≠ .running
  /-- Once it has ended, no slot puts a frame on its queue, whatever happens. -/
  quiet : ∀ c k, s.connections c = some k → k.generation.state ≠ .running → ∀ more,
    ∃ k', (run (attachStep P fromYaml R) more s).connections c = some k' ∧ k'.generation.state ≠ .running ∧
      commandLines k'.calls = commandLines k.calls
  /-- A slot is for a declared command, on the connection that runs, behind its success frame. -/
  reserve : ∀ name command c, (s.reserveReady name command).1 = .ok c →
    ∃ store record manifest k, s.ToldFile P fromYaml store ∧ store.modules.find name = some record ∧
      parseManifest P fromYaml record.manifestYaml = .ok manifest ∧ manifest.hostCommands.contains command = true ∧
      s.connections c = some k ∧ k.name = name ∧ k.generation.state = .running ∧ ∃ line, .raw line ∈ k.calls.put
  bounded : ∀ c, s.slots.count c ≤ maxKernelCallsInFlight
  /-- When no change is under way, the registry says what the file says. -/
  mirrored : s.telling = none → s.registry.closed = false → Mirrored P fromYaml s.store s.registry
  closed : s.registry.closed = true → ∀ name, s.registry.entries.find name = none

theorem registry_right_of_kept {P : Platform} {fromYaml : String → Except String DomainOsManifest} (R : JsonReader)
    {s : Attached} (kept : AttachKept s) (told : Told P fromYaml s) : RegistryRight P fromYaml R s := by
  -- entries are served only while the registry is open
  have open_of : ∀ {name : String} {e : Entry}, s.registry.entries.find name = some e → s.registry.closed = false := by
    intro name e listed
    refine eq_false_of_ne_true fun closed => ?_
    rw [told.closed closed] at listed
    cases listed
  have mirror : ∀ {name : String} {e : Entry}, s.registry.entries.find name = some e →
      ∃ store record, s.ToldFile P fromYaml store ∧ store.modules.find name = some record ∧
        Mirrors P fromYaml record e := by
    intro name e listed
    obtain ⟨store, file, mirrored⟩ := told.open_ (open_of listed)
    have here := mirrored name
    rw [listed] at here
    generalize found : store.modules.find name = record at here
    cases here with
    | some mirrors => exact ⟨store, _, file, found, mirrors⟩
  constructor
  · intro c d k l foundC foundD same runsC runsD
    obtain ⟨e, listed, now⟩ := kept.runs c k foundC runsC
    obtain ⟨e', listed', now'⟩ := kept.runs d l foundD runsD
    rw [same, listed'] at listed
    obtain rfl := Option.some.inj listed
    exact Option.some.inj (now.symm.trans now')
  · intro claim number c ok
    obtain ⟨open_, e, listed, same, on⟩ := commit_ok ok
    obtain ⟨store, record, file, found, mirrors⟩ := mirror listed
    exact ⟨open_, store, record, file, found, mirrors.tokenId.symm.trans same, mirrors.disabled.symm.trans on⟩
  · intro c d other
    unfold attachStep
    dsimp only
    split
    next k found =>
      exact ⟨release_connections kept other, fun name e listed now => release_keeps kept other listed now⟩
    next => exact ⟨rfl, fun _ e listed now => ⟨e, listed, now⟩⟩
  · exact fun c k found move severs => severed kept told R found severs
  · intro c k found over_ more
    obtain ⟨k', found', passes⟩ := run_carries P fromYaml R kept more c k found
    exact ⟨k', found', passes.still over_, passes.quiet over_⟩
  · intro name command c ok
    rcases reserveReady_cases s name command with ⟨refused, same⟩ | ⟨c', e, k, reserves, same⟩
    · rw [same] at ok
      cases ok
    rw [same] at ok
    cases ok
    obtain ⟨store, record, file, found, mirrors⟩ := mirror reserves.listed
    obtain ⟨manifest, parsed, commands, -⟩ := mirrors.manifest
    obtain ⟨k', foundK, named, -, framed⟩ := kept.live name e c reserves.listed reserves.live
    obtain rfl := Option.some.inj (reserves.found.symm.trans foundK)
    exact ⟨store, record, manifest, k, file, found, parsed, commands ▸ reserves.declared, reserves.found, named,
      reserves.running, framed⟩
  · intro c
    cases found : s.connections c with
    | none => exact (kept.unheld found).trans_le (Nat.zero_le _)
    | some k => exact (kept.each c k found).bounded
  · intro idle open_
    obtain ⟨store, file, mirrored⟩ := told.open_ open_
    unfold Attached.ToldFile at file
    rw [idle] at file
    exact file ▸ mirrored
  · exact told.closed

theorem registry_kept_run (P : Platform) (fromYaml : String → Except String DomainOsManifest) (R : JsonReader)
    (calls : List Call) (moves : List AttachMove) :
    let s := run (attachStep P fromYaml R) moves (.start P fromYaml (reached P fromYaml calls).store)
    AttachKept s ∧ Told P fromYaml s :=
  run_invariant (attachStep P fromYaml R) (fun _ => True) (fun s => AttachKept s ∧ Told P fromYaml s)
    (fun _ move _ kept => ⟨kept.1.step P fromYaml R move, kept.2.step P fromYaml R move⟩)
    (fun _ _ => trivial) ⟨.start P fromYaml _, .start P fromYaml calls⟩

/-- The registry keeps its promises in every state that any moves reach, from any file. -/
theorem registry_right (P : Platform) (fromYaml : String → Except String DomainOsManifest) (R : JsonReader)
    (calls : List Call) (moves : List AttachMove) :
    RegistryRight P fromYaml R
      (run (attachStep P fromYaml R) moves (.start P fromYaml (reached P fromYaml calls).store)) := by
  obtain ⟨kept, told⟩ := registry_kept_run P fromYaml R calls moves
  exact registry_right_of_kept R kept told

end Agent24.Attach
