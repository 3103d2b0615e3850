import Agent24.Library.Runs
import Agent24.Provider.Replay

/-! A binding's evidence beside its records: every operation writes what it did, a loosening before it is
applied, and the records read back are compared with the live state. -/

set_option autoImplicit false
namespace Agent24.Provider
open Library List

section
variable {I : Ids}

def Bound.read (b : Bound I) : Change I → Except Damaged (Bound I)
  | .placed _ rule =>
    if rule.epoch ≤ b.evidence.epoch then .error .damaged else .ok { b with evidence := b.evidence.place rule }
  | .questioned _ kbs version timeouts => .ok (b.question kbs version timeouts)
  | .released _ _ version => .ok (b.release version)
  | .timedOut _ count => .ok (b.counted fun _ => count)
  | .timeoutsCleared _ _ => .ok (b.counted fun _ => 0)
  | .tombstone _ kb =>
    .ok { b with evidence := { b.evidence with
      visible := b.evidence.visible.erase kb
      tombstones := insert kb b.evidence.tombstones } }
  | .tombstoneWithdrawn _ kb =>
    .ok { b with evidence := { b.evidence with tombstones := b.evidence.tombstones.erase kb } }
  | .seen _ kbs => .ok { b with evidence := { b.evidence with visible := b.evidence.visible ∪ kbs } }
  | .unseen _ kbs => .ok { b with evidence := { b.evidence with visible := b.evidence.visible \ kbs } }
  | _ => .ok b

/-- The evidence changes of one binding that its operations write. -/
inductive EvidenceChange (of : Of I) : Change I → Prop
  | placed (rule : Rule I.Kb) : EvidenceChange of (.placed of rule)
  | questioned (kbs : Finset I.Kb) (version : Nat) (timeouts : Option Octet) :
      EvidenceChange of (.questioned of kbs version timeouts)
  | released (kbs : Finset I.Kb) (version : Nat) : EvidenceChange of (.released of kbs version)
  | timedOut (count : Octet) : EvidenceChange of (.timedOut of count)
  | timeoutsCleared (earlier : Octet) : EvidenceChange of (.timeoutsCleared of earlier)
  | tombstone (kb : I.Kb) : EvidenceChange of (.tombstone of kb)
  | tombstoneWithdrawn (kb : I.Kb) : EvidenceChange of (.tombstoneWithdrawn of kb)
  | seen (kbs : Finset I.Kb) : EvidenceChange of (.seen of kbs)
  | unseen (kbs : Finset I.Kb) : EvidenceChange of (.unseen of kbs)

theorem bound_on {out : Replayed I} {of : Of I} {b : Bound I} {f : Bound I → Bound I}
    (here : out.bound of = some b) (keeps : ∀ b, (f b).of = b.of) : (out.on of f).bound of = some (f b) := by
  refine find_onFirst here fun c found => ?_
  have same : c.of = of := of_decide_eq_true found
  simp [keeps, same]

theorem apply_evidence {out : Replayed I} {of : Of I} {b b' : Bound I} {change : Change I}
    (evidence : EvidenceChange of change) (here : out.bound of = some b) (read : b.read change = .ok b') :
    ∃ out', apply out change = .ok out' ∧ out'.bound of = some b' := by
  have on : ∀ {edit : Bound I → Bound I}, apply out change = .ok (out.on of edit) → b.read change = .ok (edit b) →
      (∀ b, (edit b).of = b.of) → ∃ out', apply out change = .ok out' ∧ out'.bound of = some b' := by
    intro edit applied edited keeps
    obtain rfl : edit b = b' := Except.ok.inj (edited.symm.trans read)
    exact ⟨_, applied, bound_on here keeps⟩
  cases evidence with
  | placed rule =>
    simp only [Bound.read] at read
    split at read
    · cases read
    rename_i later
    cases read
    refine ⟨_, ?_, bound_on here (f := fun b => { b with evidence := b.evidence.place rule }) fun _ => rfl⟩
    simp only [apply, here, if_neg later]
    rfl
  | questioned => exact on rfl rfl fun _ => rfl
  | released kbs version => exact on rfl rfl fun b => b.release_of version
  | timedOut count => exact on rfl rfl fun b => b.counted_of _
  | timeoutsCleared earlier => exact on rfl rfl fun b => b.counted_of _
  | tombstone kb => exact on rfl rfl fun _ => rfl
  | tombstoneWithdrawn kb => exact on rfl rfl fun _ => rfl
  | seen kbs => exact on rfl rfl fun _ => rfl
  | unseen kbs => exact on rfl rfl fun _ => rfl

theorem foldlM_evidence {of : Of I} {changes : List (Change I)} (evidence : ∀ c ∈ changes, EvidenceChange of c)
    {out : Replayed I} {b b' : Bound I} (here : out.bound of = some b)
    (read : changes.foldlM Bound.read b = .ok b') :
    ∃ out', changes.foldlM apply out = .ok out' ∧ out'.bound of = some b' := by
  induction changes generalizing out b with
  | nil =>
    cases read
    exact ⟨out, rfl, here⟩
  | cons change rest ih =>
    rw [foldlM_cons] at read
    cases first : b.read change with
    | error damage =>
      rw [first] at read
      cases read
    | ok next =>
      rw [first] at read
      obtain ⟨out', applied, there⟩ := apply_evidence (evidence change (mem_cons_self ..)) here first
      obtain ⟨final, rest, end_⟩ := ih (fun c member => evidence c (mem_cons_of_mem _ member)) there read
      refine ⟨final, ?_, end_⟩
      rw [foldlM_cons, applied]
      exact rest

end

inductive Withdrawal where
  | kept
  | found
  deriving DecidableEq

def Withdrawal.apply {K : Type} [DecidableEq K] (e : Evidence K) (kb : K) : Withdrawal → Evidence K
  | .kept => (e.kept kb).1
  | .found => e.found kb

/-- A binding's evidence, its records in order, and the loosenings written and not yet confirmed. -/
structure EvidenceWorld (I : Ids) where
  live : Evidence I.Kb
  log : List (Change I)
  releases : List (Finset I.Kb × Nat)
  retries : Nat
  withdrawals : List (I.Kb × Withdrawal)
  /-- What a recheck covered that came back revoked: the log holds it pending until a release. -/
  stale : Option (Finset I.Kb)

inductive EvidenceOp (I : Ids) where
  | place (kbs : Kbs I.Kb)
  | register (kbs : Finset I.Kb)
  | timedOut
  | tombstone (kb : I.Kb)
  | deleted (kb : I.Kb)
  | observe (asked : Finset I.Kb) (scope : Visibility I.Kb) (admitted : Nat) (current : Bool)
  | revoked
  | deliver (kbs : Finset I.Kb) (epoch : Nat)
  | release
  | retry
  | withdraw (kb : I.Kb) (why : Withdrawal)
  | releaseConfirmed (i : Nat)
  | retryConfirmed
  | withdrawalConfirmed (i : Nat)

def Pending.asked {K : Type} (pending : Option (Pending K)) : Finset K := pending.elim ∅ (·.kbs)

namespace EvidenceWorld
variable {I : Ids}

def start (b : Bound I) : EvidenceWorld I := ⟨.restore b.evidence, [], [], 0, [], none⟩

def writes (w : EvidenceWorld I) (live : Evidence I.Kb) (changes : List (Change I)) : EvidenceWorld I :=
  { w with live := live, log := w.log ++ changes }

def step (of : Of I) (w : EvidenceWorld I) : EvidenceOp I → EvidenceWorld I
  | .place kbs => w.writes (w.live.place kbs).1 [.placed of (w.live.place kbs).2]
  | .register kbs =>
    let registered := w.live.register kbs
    if registered.2 then
      { w.writes registered.1
          [.questioned of kbs registered.1.version (registered.1.pending.map (·.timeouts))] with
        -- a registration while a release is out drops what the release ended
        stale := if w.releases = [] then w.stale else none }
    else w
  | .timedOut =>
    w.writes w.live.timedOut (w.live.timedOut.pending.map fun p => .timedOut of p.timeouts).toList
  | .tombstone kb => w.writes (w.live.tombstone kb) [.tombstone of kb]
  | .deleted kb => w.writes (w.live.deleted kb).1 [.placed of (w.live.deleted kb).2]
  | .observe asked scope admitted current =>
    let observed := w.live.observe asked scope admitted current
    w.writes observed.1 [.seen of observed.2.added, .unseen of observed.2.removed]
  | .revoked =>
    { w.writes w.live.revoked.1 [.placed of w.live.revoked.2] with
      stale := match w.live.pending with
        | none => w.stale
        | some p => some (w.stale.getD ∅ ∪ p.kbs) }
  | .deliver kbs epoch => { w with live := w.live.deliver kbs epoch }
  | .release =>
    match w.live.pending with
    | none => w
    | some p =>
      { w.writes w.live [.released of p.kbs w.live.version] with
        releases := w.releases ++ [(p.kbs, w.live.version)] }
  | .retry =>
    match w.live.pending with
    | none => w
    | some p => { w.writes w.live [.timeoutsCleared of p.timeouts] with retries := w.retries + 1 }
  | .withdraw kb why =>
    if why = .found ∨ w.live.tombstoneOf kb = some .pending then
      { w.writes w.live [.tombstoneWithdrawn of kb] with withdrawals := w.withdrawals ++ [(kb, why)] }
    else w
  | .releaseConfirmed i =>
    match w.releases[i]? with
    | none => w
    | some (kbs, version) =>
      let released := w.live.release version
      let rest := { w with releases := w.releases.eraseIdx i }
      if released.2 then { rest with live := released.1, stale := none }
      -- no longer current: its offset
      else rest.writes w.live (Change.released of kbs version).offset.toList
  | .retryConfirmed =>
    if w.retries = 0 then w else { w with live := w.live.retry, retries := w.retries - 1 }
  | .withdrawalConfirmed i =>
    match w.withdrawals[i]? with
    | none => w
    | some (kb, why) =>
      { w with live := why.apply w.live kb, withdrawals := w.withdrawals.eraseIdx i }

-- Its equations, made once for all the proofs below.
section
attribute [local simp] step
end

def Settled (w : EvidenceWorld I) : Prop := w.releases = [] ∧ w.retries = 0 ∧ w.withdrawals = []

/-- No operation comes between a loosening's record and its confirmation that both of them touch. -/
def Apart (w : EvidenceWorld I) : EvidenceOp I → Prop
  | .place (.one kb) => kb ∉ w.live.tombstones.kbs
  | .timedOut => w.retries = 0
  | .tombstone kb => kb ∉ w.withdrawals.map (·.1)
  | .revoked => w.releases = []
  | .release => w.releases = [] ∧ w.retries = 0
  | .retry => w.releases = []
  | _ => True

def RuleApart (w : EvidenceWorld I) : EvidenceOp I → Prop
  | .place (.one kb) => kb ∉ w.live.tombstones.kbs
  | _ => True

/-- The records so far read back to `b`, which agrees with the live state on what no loosening touches. -/
structure Reads (of : Of I) (b₀ : Bound I) (w : EvidenceWorld I) (b : Bound I) : Prop where
  read : w.log.foldlM Bound.read b₀ = .ok b
  changes : ∀ c ∈ w.log, EvidenceChange of c
  epoch : b.evidence.epoch = w.live.epoch
  rules : b.evidence.rules = w.live.rules
  visible : b.evidence.visible = w.live.visible
  resolved : ∀ kb, (kb, Withdrawal.kept) ∈ w.withdrawals → kb ∉ w.live.tombstones.unresolved

def countRead (b : Bound I) : Option (Pending I.Kb) := b.evidence.pending.or b.released

structure Stricter (w : EvidenceWorld I) (b : Bound I) : Prop where
  asked : ∀ kb ∈ Pending.asked w.live.pending, kb ∈ Pending.asked b.evidence.pending ∨ ∃ r ∈ w.releases, kb ∈ r.1
  held : w.live.pending.isSome = true →
    b.evidence.pending.isSome = true ∨ b.released.isSome = true ∧ w.releases ≠ []
  count : ∀ p, w.live.pending = some p → w.retries = 0 → ∃ q, countRead b = some q ∧ p.timeouts ≤ q.timeouts

/-- No tombstone is lost on disk but by a withdrawal on its way. -/
def Buried (w : EvidenceWorld I) (b : Bound I) : Prop :=
  ∀ kb ∈ w.live.tombstones.kbs, kb ∈ b.evidence.tombstones ∨ kb ∈ w.withdrawals.map (·.1)

def Matches (retries : Nat) (stale : Option (Finset I.Kb)) (live read : Option (Pending I.Kb)) : Prop :=
  match stale with
  | none => read = if retries = 0 then live else live.map fun p => { p with timeouts := 0 }
  | some s => ∃ q, read = some q ∧ q.kbs = Pending.asked live ∪ s

/-- What is pending, with the release of `kbs` at `version` on its way: still current, or overtaken. -/
def Overtaken (kbs : Finset I.Kb) (version : Nat) (w : EvidenceWorld I) (b : Bound I) : Prop :=
  ∃ p, w.live.pending = some p ∧
    ((version = w.live.version ∧ kbs = p.kbs ∧ b.evidence.pending = none) ∨
      (version < w.live.version ∧ w.stale = none ∧
        ∃ q, b.evidence.pending = some q ∧ q.kbs ∪ kbs = p.kbs ∧ q.timeouts = p.timeouts))

def Settles (w : EvidenceWorld I) (b : Bound I) : Prop :=
  match w.releases with
  | [] => Matches w.retries w.stale w.live.pending b.evidence.pending
  | [(kbs, version)] => w.retries = 0 ∧ Overtaken kbs version w b
  | _ => False

/-- The records read back to the live state, but for the loosenings on their way. -/
structure Exact (w : EvidenceWorld I) (b : Bound I) : Prop where
  version : b.evidence.version = w.live.version
  tombstones : ∀ kb, kb ∈ b.evidence.tombstones ↔ kb ∈ w.live.tombstones.kbs ∧ kb ∉ w.withdrawals.map (·.1)
  pending : Settles w b

/-- What one operation keeps, given what was read back before it and after it. -/
structure After (of : Of I) (b₀ : Bound I) (w : EvidenceWorld I) (b : Bound I) (op : EvidenceOp I)
    (b' : Bound I) : Prop where
  reads : Reads of b₀ (w.step of op) b'
  stricter : Stricter w b → Stricter (w.step of op) b'
  buried : Buried w b → w.RuleApart op → Buried (w.step of op) b'
  exactly : Exact w b → w.Apart op → Exact (w.step of op) b'

section
variable {of : Of I} {b₀ b b' : Bound I} {w w' : EvidenceWorld I}

theorem Reads.writes (reads : Reads of b₀ w b) {live : Evidence I.Kb} {changes : List (Change I)}
    (evidence : ∀ c ∈ changes, EvidenceChange of c) (read : changes.foldlM Bound.read b = .ok b')
    (epoch : b'.evidence.epoch = live.epoch) (rules : b'.evidence.rules = live.rules)
    (visible : b'.evidence.visible = live.visible)
    (unresolved : live.tombstones.unresolved ⊆ w.live.tombstones.unresolved) :
    Reads of b₀ (w.writes live changes) b' where
  read := by
    show (w.log ++ changes).foldlM Bound.read b₀ = .ok b'
    rw [foldlM_append, reads.read]
    exact read
  changes c member := (mem_append.mp member).elim (reads.changes c) (evidence c)
  epoch := epoch
  rules := rules
  visible := visible
  resolved kb going := fun there => reads.resolved kb going (unresolved there)

theorem Reads.of_same (reads : Reads of b₀ w b) (log : w'.log = w.log) (epoch : w'.live.epoch = w.live.epoch)
    (rules : w'.live.rules = w.live.rules) (visible : w'.live.visible = w.live.visible)
    (withdrawals : w'.withdrawals ⊆ w.withdrawals)
    (unresolved : w'.live.tombstones.unresolved ⊆ w.live.tombstones.unresolved) : Reads of b₀ w' b where
  read := log ▸ reads.read
  changes := log ▸ reads.changes
  epoch := reads.epoch.trans epoch.symm
  rules := reads.rules.trans rules.symm
  visible := reads.visible.trans visible.symm
  resolved kb going := fun there => reads.resolved kb (withdrawals going) (unresolved there)

structure Untouched (w w' : EvidenceWorld I) (b b' : Bound I) : Prop where
  live : w'.live.pending = w.live.pending
  version : w'.live.version = w.live.version
  read : b'.evidence.pending = b.evidence.pending
  versionRead : b'.evidence.version = b.evidence.version
  released : b'.released = b.released
  releases : w'.releases = w.releases
  retries : w'.retries = w.retries
  stale : w'.stale = w.stale

theorem Stricter.untouched (stricter : Stricter w b) (same : Untouched w w' b b') : Stricter w' b' where
  asked := by
    rw [same.live, same.read, same.releases]
    exact stricter.asked
  held := by
    rw [same.live, same.read, same.released, same.releases]
    exact stricter.held
  count p here settled := by
    rw [same.live] at here
    rw [same.retries] at settled
    unfold countRead
    rw [same.read, same.released]
    exact stricter.count p here settled

theorem settles_nil (none_ : w.releases = []) :
    Settles w b ↔ Matches w.retries w.stale w.live.pending b.evidence.pending := by
  unfold Settles
  rw [none_]

theorem settles_one {kbs : Finset I.Kb} {version : Nat} (one : w.releases = [(kbs, version)]) :
    Settles w b ↔ w.retries = 0 ∧ Overtaken kbs version w b := by
  unfold Settles
  rw [one]

theorem Settles.cases (settles : Settles w b) :
    (w.releases = [] ∧ Matches w.retries w.stale w.live.pending b.evidence.pending) ∨
    ∃ kbs version, w.releases = [(kbs, version)] ∧ w.retries = 0 ∧ Overtaken kbs version w b := by
  unfold Settles at settles
  split at settles
  · rename_i none_
    exact .inl ⟨none_, settles⟩
  · rename_i kbs version one
    exact .inr ⟨kbs, version, one, settles⟩
  · exact settles.elim

theorem Exact.untouched (exactly : Exact w b) (same : Untouched w w' b b')
    (tombstones : ∀ kb, kb ∈ b'.evidence.tombstones ↔
      kb ∈ w'.live.tombstones.kbs ∧ kb ∉ w'.withdrawals.map (·.1)) : Exact w' b' where
  version := same.versionRead.trans (exactly.version.trans same.version.symm)
  tombstones := tombstones
  pending := by
    have pending := exactly.pending
    unfold Settles Overtaken at pending ⊢
    rw [same.releases, same.retries, same.stale, same.live, same.read, same.version]
    exact pending

structure Unburied (w w' : EvidenceWorld I) (b b' : Bound I) : Prop where
  live : w'.live.tombstones = w.live.tombstones
  read : b'.evidence.tombstones = b.evidence.tombstones
  withdrawals : w'.withdrawals = w.withdrawals

theorem Buried.unburied (buried : Buried w b) (same : Unburied w w' b b') : Buried w' b' := by
  unfold Buried
  rw [same.live, same.read, same.withdrawals]
  exact buried

theorem Exact.graves (exactly : Exact w b) (same : Unburied w w' b b') (kb : I.Kb) :
    kb ∈ b'.evidence.tombstones ↔ kb ∈ w'.live.tombstones.kbs ∧ kb ∉ w'.withdrawals.map (·.1) := by
  rw [same.live, same.read, same.withdrawals]
  exact exactly.tombstones kb

theorem After.untouched {op : EvidenceOp I} (reads : Reads of b₀ (w.step of op) b')
    (pending : Untouched w (w.step of op) b b') (tombstones : Unburied w (w.step of op) b b') :
    After of b₀ w b op b' where
  reads := reads
  stricter before := before.untouched pending
  buried before _ := before.unburied tombstones
  exactly before _ := before.untouched pending (before.graves tombstones)

theorem read_one {c : Change I} (read : b.read c = .ok b') : [c].foldlM Bound.read b = .ok b' := by
  rw [foldlM_cons, read]
  rfl

theorem changes_one {c : Change I} (evidence : EvidenceChange of c) : ∀ d ∈ [c], EvidenceChange of d := by
  intro d member
  rw [mem_singleton.mp member]
  exact evidence

section
variable (reads : Reads of b₀ w b)
include reads

theorem placed_read (kbs : Kbs I.Kb) :
    b.read (.placed of ⟨w.live.epoch + 1, kbs⟩) =
      .ok { b with evidence := b.evidence.place ⟨w.live.epoch + 1, kbs⟩ } := by
  have later : ¬w.live.epoch + 1 ≤ b.evidence.epoch := by
    rw [reads.epoch]
    exact Nat.not_succ_le_self _
  exact if_neg later

theorem place_after (kbs : Kbs I.Kb) : ∃ b', After of b₀ w b (.place kbs) b' := by
  refine ⟨{ b with evidence := b.evidence.place ⟨w.live.epoch + 1, kbs⟩ }, ?_⟩
  have pending : Untouched w (w.step of (.place kbs)) b
      { b with evidence := b.evidence.place ⟨w.live.epoch + 1, kbs⟩ } :=
    ⟨rfl, rfl, rfl, rfl, rfl, rfl, rfl, rfl⟩
  -- a rule over one KB ends its tombstone on disk
  have graves : ∀ kb, w.RuleApart (.place kbs) → kb ∈ w.live.tombstones.kbs →
      (kb ∈ (b.evidence.place ⟨w.live.epoch + 1, kbs⟩).tombstones ↔ kb ∈ b.evidence.tombstones) := by
    intro kb apart there
    cases kbs with
    | all => exact Iff.rfl
    | one other =>
      have different : kb ≠ other := fun same => apart (same ▸ there)
      simp [Saved.place, different]
  refine
    { reads := reads.writes (changes_one (.placed _)) (read_one (placed_read reads kbs)) rfl ?_ reads.visible
        (Finset.Subset.refl _)
      stricter := fun before => before.untouched pending
      buried := fun before apart kb there => ?_
      exactly := fun before apart => before.untouched pending fun kb => ?_ }
  · show b.evidence.rules ++ [_] = w.live.rules ++ [_]
    rw [reads.rules]
  · rcases before kb there with kept | going
    · exact .inl ((graves kb apart there).mpr kept)
    · exact .inr going
  · show kb ∈ (b.evidence.place ⟨w.live.epoch + 1, kbs⟩).tombstones ↔ _
    constructor
    · intro here
      have before' : kb ∈ b.evidence.tombstones := by
        cases kbs with
        | all => exact here
        | one other => exact Finset.mem_of_mem_erase here
      exact (before.tombstones kb).mp before'
    · intro there
      exact (graves kb (by cases kbs <;> exact apart) there.1).mpr ((before.tombstones kb).mpr there)

theorem deleted_after (kb : I.Kb) : ∃ b', After of b₀ w b (.deleted kb) b' := by
  refine ⟨{ b with evidence := b.evidence.place ⟨w.live.epoch + 1, .one kb⟩ }, ?_⟩
  have pending : Untouched w (w.step of (.deleted kb)) b
      { b with evidence := b.evidence.place ⟨w.live.epoch + 1, .one kb⟩ } :=
    ⟨rfl, rfl, rfl, rfl, rfl, rfl, rfl, rfl⟩
  refine
    { reads := reads.writes (changes_one (.placed _)) (read_one (placed_read reads (.one kb))) rfl ?_ reads.visible
        (Finset.erase_subset _ _)
      stricter := fun before => before.untouched pending
      buried := fun before _ other there => ?_
      exactly := fun before _ => before.untouched pending fun other => ?_ }
  · show b.evidence.rules ++ [_] = w.live.rules ++ [_]
    rw [reads.rules]
  · obtain ⟨different, there⟩ := Finset.mem_erase.mp there
    exact (before other there).imp (fun kept => Finset.mem_erase.mpr ⟨different, kept⟩) id
  · show other ∈ b.evidence.tombstones.erase kb ↔ other ∈ w.live.tombstones.kbs.erase kb ∧ _
    rw [Finset.mem_erase, Finset.mem_erase, before.tombstones other, and_assoc]
    rfl

theorem tombstone_after (kb : I.Kb) : ∃ b', After of b₀ w b (.tombstone kb) b' := by
  refine ⟨{ b with evidence := { b.evidence with
    visible := b.evidence.visible.erase kb
    tombstones := insert kb b.evidence.tombstones } }, ?_⟩
  have pending : Untouched w (w.step of (.tombstone kb)) b { b with evidence := { b.evidence with
      visible := b.evidence.visible.erase kb
      tombstones := insert kb b.evidence.tombstones } } :=
    ⟨rfl, rfl, rfl, rfl, rfl, rfl, rfl, rfl⟩
  refine
    { reads := reads.writes (changes_one (.tombstone kb)) (read_one rfl) reads.epoch reads.rules ?_
        (Finset.Subset.refl _)
      stricter := fun before => before.untouched pending
      buried := fun before _ other there => ?_
      exactly := fun before apart => before.untouched pending fun other => ?_ }
  · show b.evidence.visible.erase kb = w.live.visible.erase kb
    rw [reads.visible]
  · rcases Finset.mem_insert.mp there with rfl | old
    · exact .inl (Finset.mem_insert_self _ _)
    · exact (before other old).imp Finset.mem_insert_of_mem id
  · show other ∈ insert kb b.evidence.tombstones ↔ other ∈ insert kb w.live.tombstones.kbs ∧ _
    rw [Finset.mem_insert, Finset.mem_insert, before.tombstones other]
    constructor
    · rintro (rfl | ⟨there, free⟩)
      · exact ⟨.inl rfl, apart⟩
      · exact ⟨.inr there, free⟩
    · rintro ⟨rfl | there, free⟩
      · exact .inl rfl
      · exact .inr ⟨there, free⟩

theorem observe_after (asked : Finset I.Kb) (scope : Visibility I.Kb) (admitted : Nat) (current : Bool) : ∃ b', After of b₀ w b (.observe asked scope admitted current) b' := by
  let observed := w.live.observe asked scope admitted current
  let seen : Bound I := { b with evidence := { b.evidence with
    visible := (b.evidence.visible ∪ observed.2.added) \ observed.2.removed } }
  refine ⟨seen, .untouched ?_ ⟨rfl, rfl, rfl, rfl, rfl, rfl, rfl, rfl⟩ ⟨rfl, rfl, rfl⟩⟩
  refine reads.writes ?_ rfl reads.epoch reads.rules ?_ (Finset.Subset.refl _)
  · intro c member
    rcases mem_cons.mp member with rfl | last
    · exact .seen _
    · rw [mem_singleton.mp last]
      exact .unseen _
  · have apart : Disjoint observed.2.added observed.2.removed := by
      rw [Finset.disjoint_left]
      intro kb added removed
      exact (Finset.mem_filter.mp removed).2.2.1 (Finset.mem_filter.mp added).1
    show (b.evidence.visible ∪ observed.2.added) \ observed.2.removed =
      (w.live.visible \ observed.2.removed) ∪ observed.2.added
    rw [reads.visible, Finset.union_sdiff_distrib, Finset.sdiff_eq_self_of_disjoint apart]

theorem revoked_after : ∃ b', After of b₀ w b .revoked b' := by
  refine ⟨{ b with evidence := b.evidence.place ⟨w.live.epoch + 1, .all⟩ }, ?_⟩
  have tombstones : Unburied w (w.step of .revoked) b
      { b with evidence := b.evidence.place ⟨w.live.epoch + 1, .all⟩ } := ⟨rfl, rfl, rfl⟩
  refine
    { reads := ?_
      stricter := fun before => ⟨fun kb member => absurd member (Finset.notMem_empty kb), nofun, nofun⟩
      buried := fun before _ => before.unburied tombstones
      exactly := fun before apart => ⟨before.version, before.graves tombstones, ?_⟩ }
  · refine Reads.of_same (w := w.writes w.live.revoked.1 _) (reads.writes (changes_one (.placed _))
      (read_one (placed_read reads .all)) rfl ?_ reads.visible (Finset.Subset.refl _)) rfl rfl rfl rfl
      (List.Subset.refl _) (Finset.Subset.refl _)
    show b.evidence.rules ++ [_] = w.live.rules ++ [_]
    rw [reads.rules]
  · have none_ : w.releases = [] := apart
    have pending := (settles_nil none_).mp before.pending
    refine (settles_nil (w := w.step of .revoked) none_).mpr ?_
    show Matches w.retries (match w.live.pending with | none => w.stale | some p => some (w.stale.getD ∅ ∪ p.kbs))
      none b.evidence.pending
    unfold Matches at pending ⊢
    cases live : w.live.pending with
    | none =>
      cases stale : w.stale with
      | none => simpa [live, stale] using pending
      | some s => simpa [live, stale, Pending.asked] using pending
    | some p =>
      cases stale : w.stale with
      | none =>
        simp only [live, stale] at pending
        split at pending
        · exact ⟨p, pending, by simp [Pending.asked]⟩
        · exact ⟨_, pending, by simp [Pending.asked]⟩
      | some s =>
        simp only [live, stale] at pending
        obtain ⟨q, here, kbs⟩ := pending
        refine ⟨q, here, ?_⟩
        rw [kbs]
        simp [Pending.asked, Finset.union_comm]

theorem After.idle {op : EvidenceOp I} (same : w.step of op = w) : After of b₀ w b op b :=
  ⟨by rw [same]; exact reads, fun before => by rw [same]; exact before, fun before _ => by rw [same]; exact before,
    fun before _ => by rw [same]; exact before⟩

end

theorem deliver_cases {K : Type} [DecidableEq K] (e : Evidence K) (kbs : Finset K) (epoch : Nat) :
    ∃ delivered, e.deliver kbs epoch = { e with delivered := delivered } := by
  unfold Evidence.deliver
  split
  · exact ⟨e.delivered, rfl⟩
  · exact ⟨_, rfl⟩

theorem deliver_after (reads : Reads of b₀ w b) (kbs : Finset I.Kb) (epoch : Nat) :
    ∃ b', After of b₀ w b (.deliver kbs epoch) b' := by
  obtain ⟨delivered, same⟩ := deliver_cases w.live kbs epoch
  have step : w.step of (.deliver kbs epoch) = { w with live := { w.live with delivered := delivered } } := by
    rw [← same]
    rfl
  refine ⟨b, .untouched ?_ ?_ ?_⟩
  · rw [step]
    exact reads.of_same rfl rfl rfl rfl (List.Subset.refl _) (Finset.Subset.refl _)
  · rw [step]
    exact ⟨rfl, rfl, rfl, rfl, rfl, rfl, rfl, rfl⟩
  · rw [step]
    exact ⟨rfl, rfl, rfl⟩

/-- What a count's edit leaves: everything but the count, of what is pending or else of what a release ended. -/
theorem counted_evidence (b : Bound I) (edit : Octet → Octet) :
    (b.counted edit).evidence =
      { b.evidence with pending := b.evidence.pending.map fun p => { p with timeouts := edit p.timeouts } } := by
  unfold Bound.counted
  cases pending : b.evidence.pending with
  | none =>
    show b.evidence = _
    rw [Option.map_none, ← pending]
  | some p => rfl

theorem counted_released (b : Bound I) (edit : Octet → Octet) :
    (b.counted edit).released.isSome = b.released.isSome := by
  unfold Bound.counted
  cases b.evidence.pending <;> simp

theorem countRead_counted (b : Bound I) (edit : Octet → Octet) :
    countRead (b.counted edit) = (countRead b).map fun p => { p with timeouts := edit p.timeouts } := by
  unfold countRead Bound.counted
  cases pending : b.evidence.pending <;> simp [pending]

theorem asked_counted (b : Bound I) (edit : Octet → Octet) :
    Pending.asked (b.counted edit).evidence.pending = Pending.asked b.evidence.pending := by
  rw [counted_evidence]
  cases b.evidence.pending <;> rfl

theorem Reads.counted (reads : Reads of b₀ w b) {change : Change I} (evidence : EvidenceChange of change)
    {edit : Octet → Octet} (read : b.read change = .ok (b.counted edit)) {live : Evidence I.Kb}
    (epoch : live.epoch = w.live.epoch) (rules : live.rules = w.live.rules)
    (visible : live.visible = w.live.visible) (tombstones : live.tombstones = w.live.tombstones) :
    Reads of b₀ (w.writes live [change]) (b.counted edit) := by
  refine reads.writes (changes_one evidence) (read_one read) ?_ ?_ ?_ (by rw [tombstones])
  all_goals rw [counted_evidence]
  · exact reads.epoch.trans epoch.symm
  · exact reads.rules.trans rules.symm
  · exact reads.visible.trans visible.symm

theorem Stricter.counts (stricter : Stricter w b) {p : Pending I.Kb} (here : w.live.pending = some p) :
    ∃ q, countRead b = some q := by
  have held := stricter.held (by simp [here])
  unfold countRead
  cases pending : b.evidence.pending with
  | some q => exact ⟨q, rfl⟩
  | none =>
    cases released : b.released with
    | some q => exact ⟨q, rfl⟩
    | none => simp [pending, released] at held

section
variable (reads : Reads of b₀ w b)
include reads

theorem timedOut_after : ∃ b', After of b₀ w b .timedOut b' := by
  cases live : w.live.pending with
  | none =>
    refine ⟨b, .untouched ?_ ⟨?_, rfl, rfl, rfl, rfl, rfl, rfl, rfl⟩ ⟨rfl, rfl, rfl⟩⟩
    · have none_ : w.live.timedOut.pending = none := by simp [Evidence.timedOut, live]
      have same : w.step of .timedOut = w.writes w.live.timedOut [] := by simp [step, none_]
      rw [same]
      exact reads.writes (by simp) rfl reads.epoch reads.rules reads.visible (Finset.Subset.refl _)
    · show w.live.pending.map _ = w.live.pending
      rw [live]
      rfl
  | some p =>
    let count : Octet := p.timeouts.saturatingNext
    have step : w.step of .timedOut =
        w.writes { w.live with pending := some { p with timeouts := count } } [.timedOut of count] := by
      simp [EvidenceWorld.step, Evidence.timedOut, live, count]
    refine ⟨b.counted fun _ => count, ?_, fun before => ?_, fun before _ => ?_, fun before apart => ?_⟩
    · rw [step]
      exact reads.counted (.timedOut count) rfl rfl rfl rfl rfl
    · rw [step]
      refine ⟨fun kb member => ?_, fun _ => ?_, fun p' here _ => ?_⟩
      · rw [asked_counted]
        exact before.asked kb (by rw [live]; exact member)
      · rw [counted_released, counted_evidence, Option.isSome_map]
        exact before.held (by simp [live])
      · obtain ⟨q, counts⟩ := before.counts live
        cases here
        exact ⟨{ q with timeouts := count }, by rw [countRead_counted, counts]; rfl, le_refl _⟩
    · rw [step]
      exact before.unburied ⟨rfl, by rw [counted_evidence], rfl⟩
    · have idle : w.retries = 0 := apart
      rw [step]
      refine ⟨by rw [counted_evidence]; exact before.version, before.graves ⟨rfl, by rw [counted_evidence], rfl⟩, ?_⟩
      rcases before.pending.cases with ⟨none_, pending⟩ | ⟨kbs, version, one, -, p', here, held⟩
      · refine (settles_nil (w := w.writes _ _) none_).mpr ?_
        rw [counted_evidence]
        show Matches w.retries w.stale (some { p with timeouts := count }) _
        unfold Matches at pending ⊢
        rw [idle] at pending ⊢
        cases stale : w.stale with
        | none =>
          simp only [stale, if_true] at pending
          simp [pending, live]
        | some s =>
          simp only [stale] at pending
          obtain ⟨q, there, same⟩ := pending
          refine ⟨{ q with timeouts := count }, by simp [there], ?_⟩
          rw [live] at same
          exact same
      · refine (settles_one (w := w.writes _ _) one).mpr ⟨idle, { p with timeouts := count }, rfl, ?_⟩
        obtain rfl : p = p' := Option.some.inj (live.symm.trans here)
        rw [counted_evidence]
        rcases held with ⟨current, kbs, none_⟩ | ⟨overtaken, stale, q, there, kbs, -⟩
        · exact .inl ⟨current, kbs, by simp [none_]⟩
        · exact .inr ⟨overtaken, stale, { q with timeouts := count }, by simp [there], kbs, rfl⟩

theorem retry_after : ∃ b', After of b₀ w b .retry b' := by
  cases live : w.live.pending with
  | none => exact ⟨b, .idle reads (by simp [step, live])⟩
  | some p =>
    have step : w.step of .retry =
        { w.writes w.live [.timeoutsCleared of p.timeouts] with retries := w.retries + 1 } := by
      simp [EvidenceWorld.step, live]
    refine ⟨b.counted fun _ => 0, ?_, fun before => ?_, fun before _ => ?_, fun before apart => ?_⟩
    · rw [step]
      refine Reads.of_same (reads.counted (.timeoutsCleared p.timeouts) rfl rfl rfl rfl rfl) rfl rfl rfl rfl
        (List.Subset.refl _) (Finset.Subset.refl _)
    · rw [step]
      refine ⟨fun kb member => ?_, fun held => ?_, fun _ _ idle => absurd idle (Nat.succ_ne_zero _)⟩
      · rw [asked_counted]
        exact before.asked kb member
      · rw [counted_released, counted_evidence, Option.isSome_map]
        exact before.held held
    · rw [step]
      exact before.unburied ⟨rfl, by rw [counted_evidence], rfl⟩
    · have none_ : w.releases = [] := apart
      rw [step]
      refine ⟨by rw [counted_evidence]; exact before.version, before.graves ⟨rfl, by rw [counted_evidence], rfl⟩, ?_⟩
      have pending := (settles_nil none_).mp before.pending
      refine (settles_nil (w := { w.writes w.live _ with retries := w.retries + 1 }) none_).mpr ?_
      rw [counted_evidence]
      show Matches (w.retries + 1) w.stale w.live.pending _
      unfold Matches at pending ⊢
      cases stale : w.stale with
      | none =>
        simp only [stale] at pending
        split at pending <;> simp [pending, live]
      | some s =>
        simp only [stale] at pending
        obtain ⟨q, there, same⟩ := pending
        exact ⟨{ q with timeouts := 0 }, by simp [there], same⟩

theorem retryConfirmed_after : ∃ b', After of b₀ w b .retryConfirmed b' := by
  by_cases idle : w.retries = 0
  · exact ⟨b, .idle reads (by simp [step, idle])⟩
  have step : w.step of .retryConfirmed = { w with live := w.live.retry, retries := w.retries - 1 } := by
    simp [EvidenceWorld.step, idle]
  have asked : Pending.asked w.live.retry.pending = Pending.asked w.live.pending := by
    show Pending.asked (w.live.pending.map _) = _
    cases w.live.pending <;> rfl
  refine ⟨b, ?_, fun before => ?_, fun before _ => ?_, fun before _ => ?_⟩
  · rw [step]
    exact reads.of_same rfl rfl rfl rfl (List.Subset.refl _) (Finset.Subset.refl _)
  · rw [step]
    refine ⟨fun kb member => before.asked kb (asked ▸ member), fun held => ?_, fun p here _ => ?_⟩
    · exact before.held (by simpa [Evidence.retry] using held)
    · obtain ⟨p', there, rfl⟩ := Option.map_eq_some_iff.mp here
      obtain ⟨q, counts⟩ := before.counts there
      exact ⟨q, counts, Fin.zero_le _⟩
  · rw [step]
    exact before.unburied ⟨rfl, rfl, rfl⟩
  · rw [step]
    refine ⟨before.version, before.graves ⟨rfl, rfl, rfl⟩, ?_⟩
    rcases before.pending.cases with ⟨none_, pending⟩ | ⟨_, _, _, none_, -⟩
    · refine (settles_nil (w := { w with live := w.live.retry, retries := w.retries - 1 }) none_).mpr ?_
      show Matches (w.retries - 1) w.stale (w.live.pending.map _) _
      unfold Matches at pending ⊢
      cases stale : w.stale with
      | none =>
        simp only [stale, if_neg idle] at pending
        simp only [pending, Option.map_map]
        split <;> rfl
      | some s =>
        simp only [stale] at pending
        obtain ⟨q, there, same⟩ := pending
        refine ⟨q, there, ?_⟩
        rw [same]
        exact congrArg (· ∪ s) asked.symm
    · exact absurd none_ idle

theorem register_after (kbs : Finset I.Kb) :
    ∃ b', After of b₀ w b (.register kbs) b' := by
  by_cases none_ : kbs = ∅
  · exact ⟨b, .idle reads (by simp [step, Evidence.register, none_])⟩
  let was : Pending I.Kb := w.live.pending.getD ⟨∅, 0⟩
  let live : Evidence I.Kb :=
    { w.live with version := w.live.version + 1, pending := some { was with kbs := was.kbs ∪ kbs } }
  let written : EvidenceWorld I := w.writes live [.questioned of kbs (w.live.version + 1) (some was.timeouts)]
  have step : w.step of (.register kbs) =
      { written with stale := if w.releases = [] then w.stale else none } := by
    simp [EvidenceWorld.step, Evidence.register, none_, written, live, was]
  let old : Pending I.Kb := b.evidence.pending.getD ⟨∅, was.timeouts⟩
  have pending' : (b.question kbs (w.live.version + 1) (some was.timeouts)).evidence.pending =
      some { old with kbs := old.kbs ∪ kbs } := by
    simp [Bound.question, old]
  have askedOld : old.kbs = Pending.asked b.evidence.pending := by
    cases here : b.evidence.pending <;> simp [old, here, Pending.asked]
  have askedWas : was.kbs = Pending.asked w.live.pending := by
    cases here : w.live.pending <;> simp [was, here, Pending.asked]
  refine ⟨b.question kbs (w.live.version + 1) (some was.timeouts), ?_, fun before => ?_, fun before _ => ?_,
    fun before _ => ?_⟩
  · rw [step]
    exact Reads.of_same (reads.writes (changes_one (.questioned kbs _ _)) (read_one rfl) reads.epoch reads.rules
      reads.visible (Finset.Subset.refl _)) rfl rfl rfl rfl (List.Subset.refl _) (Finset.Subset.refl _)
  · rw [step]
    refine ⟨fun kb member => ?_, fun _ => .inl (by rw [pending']; rfl), fun p here idle => ?_⟩
    · rw [pending']
      rcases Finset.mem_union.mp (show kb ∈ was.kbs ∪ kbs from member) with earlier | now
      · rw [askedWas] at earlier
        refine (before.asked kb earlier).imp (fun there => ?_) id
        exact Finset.mem_union_left _ (askedOld ▸ there)
      · exact .inl (Finset.mem_union_right _ now)
    · cases here
      refine ⟨{ old with kbs := old.kbs ∪ kbs }, by rw [countRead, pending']; rfl, ?_⟩
      show was.timeouts ≤ old.timeouts
      cases read : b.evidence.pending with
      | none => simp [old, read]
      | some q =>
        cases here : w.live.pending with
        | none => simp [was, here]
        | some p =>
          obtain ⟨q', counts, below⟩ := before.count p here idle
          simp only [countRead, read, Option.some_or, Option.some.injEq] at counts
          subst counts
          simpa [was, old, here, read] using below
  · rw [step]
    exact before.unburied ⟨rfl, rfl, rfl⟩
  · rw [step]
    refine ⟨?_, before.graves ⟨rfl, rfl, rfl⟩, ?_⟩
    · show max b.evidence.version (w.live.version + 1) = w.live.version + 1
      rw [before.version]
      omega
    · rcases before.pending.cases with ⟨free, pending⟩ | ⟨out, version, one, idle, p, here, held⟩
      · refine (settles_nil (w := { written with stale := _ }) free).mpr ?_
        rw [pending']
        show Matches w.retries (if w.releases = [] then w.stale else none)
          (some { was with kbs := was.kbs ∪ kbs }) _
        rw [if_pos free]
        unfold Matches at pending ⊢
        cases stale : w.stale with
        | none =>
          simp only [stale] at pending
          cases here : w.live.pending with
          | none =>
            have unread : b.evidence.pending = none := by simpa [here] using pending
            simp [old, was, unread, here]
          | some p =>
            by_cases idle : w.retries = 0
            · rw [if_pos idle, here] at pending
              simp [old, was, pending, here, idle]
            · rw [if_neg idle, here] at pending
              simp [old, was, pending, here, idle]
        | some s =>
          simp only [stale] at pending
          obtain ⟨q, there, same⟩ := pending
          refine ⟨_, rfl, ?_⟩
          show old.kbs ∪ kbs = was.kbs ∪ kbs ∪ s
          rw [askedOld, there, askedWas]
          show q.kbs ∪ kbs = _
          rw [same, Finset.union_right_comm]
      · refine (settles_one (w := { written with stale := _ }) one).mpr
          ⟨idle, { was with kbs := was.kbs ∪ kbs }, rfl, .inr ⟨?_, ?_, ?_⟩⟩
        · show version < w.live.version + 1
          rcases held with ⟨rfl, -⟩ | ⟨overtaken, -⟩ <;> omega
        · show (if w.releases = [] then w.stale else none) = none
          rw [if_neg (by simp [one])]
        · refine ⟨_, pending', ?_⟩
          have same : was = p := by simp [was, here]
          show old.kbs ∪ kbs ∪ out = was.kbs ∪ kbs ∧ old.timeouts = was.timeouts
          rw [same]
          rcases held with ⟨-, rfl, unread⟩ | ⟨-, -, q, there, merged, count⟩
          · constructor
            · simp [old, unread, Finset.union_comm]
            · simp [old, unread, same]
          · constructor
            · rw [Finset.union_right_comm, ← merged]
              simp [old, there]
            · simpa [old, there] using count

end

theorem release_cases (b : Bound I) (version : Nat) :
    b.release version = b ∨ b.evidence.version = version ∧ b.evidence.pending.isSome = true ∧
      b.release version = { b with released := b.evidence.pending, evidence := { b.evidence with pending := none } } := by
  unfold Bound.release
  split
  · rename_i current
    exact .inr ⟨current.1, current.2, rfl⟩
  · exact .inl rfl

theorem release_after (reads : Reads of b₀ w b) : ∃ b', After of b₀ w b .release b' := by
  cases live : w.live.pending with
  | none => exact ⟨b, .idle reads (by simp [step, live])⟩
  | some p =>
    have step : w.step of .release =
        { w.writes w.live [.released of p.kbs w.live.version] with
          releases := w.releases ++ [(p.kbs, w.live.version)] } := by
      simp [EvidenceWorld.step, live]
    have evidence : (b.release w.live.version).evidence.epoch = b.evidence.epoch ∧
        (b.release w.live.version).evidence.rules = b.evidence.rules ∧
        (b.release w.live.version).evidence.visible = b.evidence.visible ∧
        (b.release w.live.version).evidence.version = b.evidence.version ∧
        (b.release w.live.version).evidence.tombstones = b.evidence.tombstones := by
      rcases release_cases b w.live.version with same | ⟨-, -, same⟩ <;> rw [same] <;> exact ⟨rfl, rfl, rfl, rfl, rfl⟩
    obtain ⟨epoch, rules, visible, version, tombstones⟩ := evidence
    refine ⟨b.release w.live.version, ?_, fun before => ?_, fun before _ => ?_, fun before apart => ?_⟩
    · rw [step]
      exact Reads.of_same (reads.writes (changes_one (.released p.kbs _)) (read_one rfl) (epoch.trans reads.epoch)
        (rules.trans reads.rules) (visible.trans reads.visible) (Finset.Subset.refl _)) rfl rfl rfl rfl
        (List.Subset.refl _) (Finset.Subset.refl _)
    · rw [step]
      refine ⟨fun kb member => .inr ⟨(p.kbs, w.live.version), mem_append_right _ (mem_singleton_self _), ?_⟩,
        fun held => ?_, fun q here idle => ?_⟩
      · have there : kb ∈ Pending.asked w.live.pending := member
        rw [live] at there
        exact there
      · rcases release_cases b w.live.version with same | ⟨-, some_, same⟩
        · rw [same]
          exact (before.held held).imp id fun released => ⟨released.1, by simp⟩
        · rw [same]
          exact .inr ⟨some_, by simp⟩
      · obtain ⟨q', counts, below⟩ := before.count q here idle
        refine ⟨q', ?_, below⟩
        rcases release_cases b w.live.version with same | ⟨-, some_, same⟩
        · rw [same]
          exact counts
        rw [same]
        obtain ⟨r, there⟩ := Option.isSome_iff_exists.mp some_
        simpa [countRead, there] using counts
    · rw [step]
      exact before.unburied ⟨rfl, tombstones, rfl⟩
    · obtain ⟨free, idle⟩ := apart
      rw [step]
      refine ⟨version.trans before.version, before.graves ⟨rfl, tombstones, rfl⟩, ?_⟩
      have pending := (settles_nil free).mp before.pending
      have one : { w.writes w.live [.released of p.kbs w.live.version] with releases := w.releases ++ [(p.kbs, w.live.version)] }.releases =
          [(p.kbs, w.live.version)] := by rw [free]; rfl
      refine (settles_one one).mpr ⟨idle, p, live, .inl ⟨rfl, rfl, ?_⟩⟩
      have some_ : b.evidence.pending.isSome = true := by
        unfold Matches at pending
        cases stale : w.stale with
        | none => simp only [stale, idle, if_true] at pending; simp [pending, live]
        | some s =>
          simp only [stale] at pending
          obtain ⟨q, there, -⟩ := pending
          simp [there]
      rw [Bound.release, if_pos ⟨before.version, some_⟩]

theorem releaseConfirmed_after (reads : Reads of b₀ w b) (i : Nat) :
    ∃ b', After of b₀ w b (.releaseConfirmed i) b' := by
  cases out : w.releases[i]? with
  | none => exact ⟨b, .idle reads (by simp [step, out])⟩
  | some r =>
    obtain ⟨kbs, version⟩ := r
    -- one release on its way is the only one
    have only : ∀ {kbs' : Finset I.Kb} {version' : Nat}, w.releases = [(kbs', version')] →
        kbs' = kbs ∧ version' = version ∧ w.releases.eraseIdx i = [] := by
      intro kbs' version' one
      rw [one] at out ⊢
      cases i with
      | zero =>
        cases out
        exact ⟨rfl, rfl, rfl⟩
      | succ i => cases out
    by_cases current : w.live.pending.isSome = true ∧ version = w.live.version
    · have step : w.step of (.releaseConfirmed i) =
          { w with releases := w.releases.eraseIdx i, live := { w.live with pending := none }, stale := none } := by
        simp [EvidenceWorld.step, out, Evidence.release, current]
      refine ⟨b, ?_, fun before => ?_, fun before _ => ?_, fun before _ => ?_⟩
      · rw [step]
        exact reads.of_same rfl rfl rfl rfl (List.Subset.refl _) (Finset.Subset.refl _)
      · rw [step]
        exact ⟨fun kb member => absurd member (Finset.notMem_empty kb), nofun, nofun⟩
      · rw [step]
        exact before.unburied ⟨rfl, rfl, rfl⟩
      · rw [step]
        refine ⟨before.version, before.graves ⟨rfl, rfl, rfl⟩, ?_⟩
        rcases before.pending.cases with ⟨free, -⟩ | ⟨kbs', version', one, idle, p, here, held⟩
        · simp [free] at out
        obtain ⟨rfl, rfl, erased⟩ := only one
        refine (settles_nil (w := { w with releases := _, live := _, stale := none }) erased).mpr ?_
        rcases held with ⟨-, -, unread⟩ | ⟨overtaken, -⟩
        · show b.evidence.pending = if w.retries = 0 then none else _
          rw [if_pos idle]
          exact unread
        · omega
    · have step : w.step of (.releaseConfirmed i) =
          { w with releases := w.releases.eraseIdx i }.writes w.live [.questioned of kbs (version + 1) none] := by
        simp [EvidenceWorld.step, out, Evidence.release, current, Change.offset]
      let old : Pending I.Kb := b.evidence.pending.getD ⟨∅, (b.released.map (·.timeouts)).getD 0⟩
      have pending' : (b.question kbs (version + 1) none).evidence.pending =
          some { old with kbs := old.kbs ∪ kbs } := by
        simp [Bound.question, old]
      have askedOld : old.kbs = Pending.asked b.evidence.pending := by
        cases here : b.evidence.pending <;> simp [old, here, Pending.asked]
      refine ⟨b.question kbs (version + 1) none, ?_, fun before => ?_, fun before _ => ?_, fun before _ => ?_⟩
      · rw [step]
        have erased : Reads of b₀ { w with releases := w.releases.eraseIdx i } b :=
          reads.of_same rfl rfl rfl rfl (List.Subset.refl _) (Finset.Subset.refl _)
        exact erased.writes (changes_one (.questioned kbs _ _)) (read_one rfl) reads.epoch reads.rules reads.visible
          (Finset.Subset.refl _)
      · rw [step]
        refine ⟨fun kb member => ?_, fun _ => .inl (by rw [pending']; rfl), fun p here idle => ?_⟩
        · rw [pending']
          rcases before.asked kb member with there | ⟨r, inside, there⟩
          · exact .inl (Finset.mem_union_left _ (askedOld ▸ there))
          obtain ⟨j, at_⟩ := mem_iff_getElem?.mp inside
          by_cases same : j = i
          · subst same
            rw [out] at at_
            cases at_
            exact .inl (Finset.mem_union_right _ there)
          · exact .inr ⟨r, mem_eraseIdx_iff_getElem?.mpr ⟨j, same, at_⟩, there⟩
        · obtain ⟨q, counts, below⟩ := before.count p here idle
          refine ⟨{ old with kbs := old.kbs ∪ kbs }, by rw [countRead, pending']; rfl, ?_⟩
          show p.timeouts ≤ old.timeouts
          cases read : b.evidence.pending with
          | none =>
            simp only [countRead, read, Option.none_or] at counts
            simpa [old, read, counts] using below
          | some q' =>
            simp only [countRead, read, Option.some_or, Option.some.injEq] at counts
            subst counts
            simpa [old, read] using below
      · rw [step]
        exact before.unburied ⟨rfl, rfl, rfl⟩
      · rw [step]
        rcases before.pending.cases with ⟨free, -⟩ | ⟨kbs', version', one, idle, p, here, held⟩
        · simp [free] at out
        obtain ⟨rfl, rfl, erased⟩ := only one
        rcases held with ⟨rfl, -⟩ | ⟨overtaken, stale, q, there, merged, count⟩
        · exact absurd ⟨by simp [here], rfl⟩ current
        refine ⟨?_, before.graves ⟨rfl, rfl, rfl⟩, ?_⟩
        · show max b.evidence.version (version' + 1) = w.live.version
          rw [before.version]
          omega
        · refine (settles_nil (w := { w with releases := _ }.writes w.live _) erased).mpr ?_
          show Matches w.retries w.stale w.live.pending _
          unfold Matches
          rw [stale, pending', idle, here]
          show some _ = some p
          simp only [old, there, Option.getD_some, merged, count]

theorem kept_tombstones {K : Type} [DecidableEq K] {e : Evidence K} {kb : K} (resolved : kb ∉ e.tombstones.unresolved) :
    (e.kept kb).1.tombstones.kbs = e.tombstones.kbs.erase kb := by
  unfold Evidence.kept
  split
  · rfl
  rename_i absent
  have gone : kb ∉ e.tombstones.kbs := by
    intro there
    exact absent (by simp [Tombstones.get, resolved, there])
  exact (Finset.erase_eq_of_notMem gone).symm

theorem withdraw_after (reads : Reads of b₀ w b) (kb : I.Kb) (why : Withdrawal) :
    ∃ b', After of b₀ w b (.withdraw kb why) b' := by
  by_cases allowed : why = .found ∨ w.live.tombstoneOf kb = some .pending
  · have step : w.step of (.withdraw kb why) =
        { w.writes w.live [.tombstoneWithdrawn of kb] with withdrawals := w.withdrawals ++ [(kb, why)] } := by
      simp only [EvidenceWorld.step, if_pos allowed]
    let b' : Bound I :=
      { b with evidence := { b.evidence with tombstones := b.evidence.tombstones.erase kb } }
    have written : Reads of b₀ (w.writes w.live [.tombstoneWithdrawn of kb]) b' :=
      reads.writes (changes_one (.tombstoneWithdrawn kb)) (read_one rfl) reads.epoch reads.rules reads.visible
        (Finset.Subset.refl _)
    have pending : Untouched w (w.step of (.withdraw kb why)) b b' := by
      rw [step]
      exact ⟨rfl, rfl, rfl, rfl, rfl, rfl, rfl, rfl⟩
    refine ⟨b', ?_, fun before => before.untouched pending, fun before _ => ?_,
      fun before _ => before.untouched pending ?_⟩
    · rw [step]
      refine { written with resolved := fun other going => ?_ }
      rcases mem_append.mp going with old | new
      · exact reads.resolved other old
      cases mem_singleton.mp new
      rcases allowed with found | pending
      · cases found
      · intro unresolved
        simp [Evidence.tombstoneOf, Tombstones.get, show kb ∈ w.live.tombstones.unresolved from unresolved] at pending
    · rw [step]
      intro other there
      by_cases same : other = kb
      · exact .inr (by simp [same])
      refine (before other there).imp (fun kept => Finset.mem_erase.mpr ⟨same, kept⟩) fun going => ?_
      rw [map_append]
      exact mem_append_left _ going
    · rw [step]
      intro other
      show other ∈ b.evidence.tombstones.erase kb ↔
        other ∈ w.live.tombstones.kbs ∧ other ∉ (w.withdrawals ++ [(kb, why)]).map (·.1)
      rw [Finset.mem_erase, before.tombstones other, map_append, mem_append]
      simp only [map_cons, map_nil, mem_singleton]
      tauto
  · exact ⟨b, .idle reads (by simp only [step, if_neg allowed])⟩

theorem withdrawalConfirmed_after (reads : Reads of b₀ w b) (i : Nat) :
    ∃ b', After of b₀ w b (.withdrawalConfirmed i) b' := by
  cases out : w.withdrawals[i]? with
  | none => exact ⟨b, .idle reads (by simp [step, out])⟩
  | some r =>
    obtain ⟨kb, why⟩ := r
    let live : Evidence I.Kb := why.apply w.live kb
    have step : w.step of (.withdrawalConfirmed i) =
        { w with live := live, withdrawals := w.withdrawals.eraseIdx i } := by
      simp only [EvidenceWorld.step, out, live]
    have same : live.pending = w.live.pending ∧ live.version = w.live.version ∧ live.epoch = w.live.epoch ∧
        live.rules = w.live.rules ∧ live.visible = w.live.visible ∧
        live.tombstones.unresolved ⊆ w.live.tombstones.unresolved := by
      cases why with
      | found => exact ⟨rfl, rfl, rfl, rfl, rfl, Finset.erase_subset _ _⟩
      | kept =>
        show (w.live.kept kb).1.pending = _ ∧ _
        unfold live Withdrawal.apply Evidence.kept
        dsimp only
        split
        · exact ⟨rfl, rfl, rfl, rfl, rfl, Finset.erase_subset _ _⟩
        · exact ⟨rfl, rfl, rfl, rfl, rfl, Finset.Subset.refl _⟩
    have tombstones : live.tombstones.kbs = w.live.tombstones.kbs.erase kb := by
      cases why with
      | found => rfl
      | kept => exact kept_tombstones (reads.resolved kb (mem_of_getElem? out))
    obtain ⟨pending, version, epoch, rules, visible, unresolved⟩ := same
    have others : ∀ other, other ≠ kb →
        (other ∈ w.withdrawals.map (·.1) ↔ other ∈ (w.withdrawals.eraseIdx i).map (·.1)) := by
      intro other different
      constructor
      · intro going
        obtain ⟨r, inside, rfl⟩ := mem_map.mp going
        obtain ⟨j, at_⟩ := mem_iff_getElem?.mp inside
        have apart : j ≠ i := by
          rintro rfl
          rw [out] at at_
          cases at_
          exact different rfl
        exact mem_map.mpr ⟨r, mem_eraseIdx_iff_getElem?.mpr ⟨j, apart, at_⟩, rfl⟩
      · intro going
        obtain ⟨r, inside, rfl⟩ := mem_map.mp going
        exact mem_map.mpr ⟨r, eraseIdx_subset inside, rfl⟩
    have untouched : Untouched w (w.step of (.withdrawalConfirmed i)) b b := by
      rw [step]
      exact ⟨pending, version, rfl, rfl, rfl, rfl, rfl, rfl⟩
    refine ⟨b, ?_, fun before => before.untouched untouched, fun before _ => ?_,
      fun before _ => before.untouched untouched fun other => ?_⟩
    · rw [step]
      exact reads.of_same rfl epoch rules visible eraseIdx_subset unresolved
    · rw [step]
      intro other there
      have here : other ∈ w.live.tombstones.kbs.erase kb := tombstones ▸ there
      obtain ⟨different, earlier⟩ := Finset.mem_erase.mp here
      exact (before other earlier).imp id (others other different).mp
    · rw [step]
      show _ ↔ other ∈ live.tombstones.kbs ∧ other ∉ (w.withdrawals.eraseIdx i).map (·.1)
      rw [before.tombstones other, tombstones, Finset.mem_erase]
      have going : kb ∈ w.withdrawals.map (·.1) := mem_map.mpr ⟨(kb, why), mem_of_getElem? out, rfl⟩
      by_cases same : other = kb
      · subst same
        simp [going]
      · rw [others other same]
        simp [same]

theorem step_after (reads : Reads of b₀ w b) (op : EvidenceOp I) : ∃ b', After of b₀ w b op b' := by
  cases op with
  | place kbs => exact place_after reads kbs
  | register kbs => exact register_after reads kbs
  | timedOut => exact timedOut_after reads
  | tombstone kb => exact tombstone_after reads kb
  | deleted kb => exact deleted_after reads kb
  | observe asked scope admitted current => exact observe_after reads asked scope admitted current
  | revoked => exact revoked_after reads
  | deliver kbs epoch => exact deliver_after reads kbs epoch
  | release => exact release_after reads
  | retry => exact retry_after reads
  | withdraw kb why => exact withdraw_after reads kb why
  | releaseConfirmed i => exact releaseConfirmed_after reads i
  | retryConfirmed => exact retryConfirmed_after reads
  | withdrawalConfirmed i => exact withdrawalConfirmed_after reads i

theorem reads_start (b : Bound I) : Reads of b (start b) b :=
  ⟨rfl, by simp [start], rfl, rfl, rfl, by simp [start]⟩

theorem stricter_start (b : Bound I) : Stricter (start b) b where
  asked _ member := .inl member
  held := .inl
  count p here _ := by
    have same : b.evidence.pending = some p := here
    exact ⟨p, by simp [countRead, same], le_refl _⟩

theorem exact_start (b : Bound I) : Exact (start b) b where
  version := rfl
  tombstones kb := by simp [start, Evidence.restore, Tombstones.restored]
  pending := rfl

theorem run_after {w : EvidenceWorld I} {b : Bound I} (reads : Reads of b₀ w b) (ops : List (EvidenceOp I)) :
    ∃ b', Reads of b₀ (run (step of) ops w) b' ∧ (Stricter w b → Stricter (run (step of) ops w) b') ∧
      (Buried w b → Along (step of) RuleApart ops w → Buried (run (step of) ops w) b') ∧
      (Exact w b → Along (step of) Apart ops w → Exact (run (step of) ops w) b') := by
  induction ops generalizing w b with
  | nil => exact ⟨b, reads, id, fun before _ => before, fun before _ => before⟩
  | cons op rest ih =>
    obtain ⟨next, after⟩ := step_after reads op
    obtain ⟨last, reads, stricter, buried, exactly⟩ := ih after.reads
    exact ⟨last, reads, stricter ∘ after.stricter, fun before along => buried (after.buried before along.1) along.2,
      fun before along => exactly (after.exactly before along.1) along.2⟩

theorem stale_run (ops : List (EvidenceOp I)) (quiet : EvidenceOp.revoked ∉ ops) {w : EvidenceWorld I}
    (fresh : w.stale = none) : (run (step of) ops w).stale = none := by
  refine run_invariant (step of) (· ≠ .revoked) (fun w => w.stale = none) ?_ (fun op member => ?_) fresh
  · intro w op different fresh
    cases op with
    | revoked => exact absurd rfl different
    | register kbs =>
      simp only [step]
      split
      · simp [fresh]
      · exact fresh
    | release | retry =>
      simp only [step]
      split <;> exact fresh
    | withdraw kb why =>
      simp only [step]
      split <;> exact fresh
    | retryConfirmed =>
      simp only [step]
      split <;> exact fresh
    | releaseConfirmed i =>
      simp only [step]
      split
      · exact fresh
      split
      · rfl
      · exact fresh
    | withdrawalConfirmed i =>
      simp only [step]
      split <;> exact fresh
    | _ => exact fresh
  · rintro rfl
    exact quiet member

/-- The records read back to the live evidence where nothing came between a loosening's record and its confirmation;
to at least what it buries, once every loosening is confirmed. -/
theorem replayed_evidence {before : Replayed I} {b : Bound I} (bound : before.bound of = some b)
    (ops : List (EvidenceOp I)) :
    let w := run (step of) ops (start b)
    ∃ after b', w.log.foldlM apply before = .ok after ∧ after.bound of = some b' ∧
      b'.evidence.epoch = w.live.epoch ∧ b'.evidence.rules = w.live.rules ∧
      b'.evidence.visible = w.live.visible ∧
      (w.Settled → ∀ p, w.live.pending = some p →
        ∃ q, b'.evidence.pending = some q ∧ p.kbs ⊆ q.kbs ∧ p.timeouts ≤ q.timeouts) ∧
      (w.Settled → Along (step of) RuleApart ops (start b) → w.live.tombstones.kbs ⊆ b'.evidence.tombstones) ∧
      (Along (step of) Apart ops (start b) →
        b'.evidence.version = w.live.version ∧
        (w.Settled → b'.evidence.tombstones = w.live.tombstones.kbs ∧
          (w.stale = none → b'.evidence.pending = w.live.pending) ∧
          (∀ s, w.stale = some s → ∃ q, b'.evidence.pending = some q ∧ q.kbs = Pending.asked w.live.pending ∪ s) ∧
          (.revoked ∉ ops → w.stale = none))) := by
  intro w
  obtain ⟨b', reads, stricter, buried, exactly⟩ := run_after (reads_start b) ops
  have stricter := stricter (stricter_start b)
  have buried := buried fun kb there => .inl there
  have exactly := exactly (exact_start b)
  obtain ⟨after, applied, there⟩ := foldlM_evidence reads.changes bound reads.read
  refine ⟨after, b', applied, there, reads.epoch, reads.rules, reads.visible, ?_, ?_, ?_⟩
  · rintro ⟨released, retried, -⟩ p here
    obtain ⟨q, read⟩ : ∃ q, b'.evidence.pending = some q := by
      rcases stricter.held (Option.isSome_of_eq_some here) with some_ | ⟨-, out⟩
      · exact Option.isSome_iff_exists.mp some_
      · exact absurd released out
    refine ⟨q, read, fun kb member => ?_, ?_⟩
    · rcases stricter.asked kb (by rw [here]; exact member) with inside | ⟨r, out, -⟩
      · rw [read] at inside
        exact inside
      · rw [released] at out
        exact absurd out not_mem_nil
    · obtain ⟨q', counts, below⟩ := stricter.count p here retried
      simp only [countRead, read, Option.some_or, Option.some.injEq] at counts
      exact counts ▸ below
  · rintro ⟨-, -, withdrawn⟩ along kb there
    rcases buried along kb there with kept | going
    · exact kept
    · rw [withdrawn] at going
      exact absurd going not_mem_nil
  · intro along
    have exactly := exactly along
    refine ⟨exactly.version, ?_⟩
    rintro ⟨released, retried, withdrawn⟩
    have pending := (settles_nil released).mp exactly.pending
    refine ⟨?_, fun fresh => ?_, fun s stale => ?_, fun quiet => stale_run ops quiet rfl⟩
    · ext kb
      rw [exactly.tombstones kb, withdrawn]
      exact and_iff_left not_mem_nil
    · unfold Matches at pending
      rw [fresh, retried] at pending
      exact pending
    · unfold Matches at pending
      rw [stale] at pending
      exact pending

end

def bound : Bound .numbers := ⟨⟨0, 0⟩, 0, 1, false, false, false, false, none, .fresh, none⟩

def numbersOf : Of .numbers := ⟨0, 0⟩

def boundOnly : Replayed .numbers := { Replayed.fresh 1 with bindings := [bound] }

theorem replayed_evidence_bound :
    boundOnly.bound numbersOf = some bound ∧
    let w := run (step numbersOf) [.register {1}, .timedOut] (start bound)
    ∃ after b', w.log.foldlM apply boundOnly = .ok after ∧ after.bound numbersOf = some b' ∧
      b'.evidence.epoch = w.live.epoch := by
  refine ⟨rfl, ?_⟩
  obtain ⟨after, b', applied, there, epoch, -⟩ :=
    replayed_evidence (rfl : boundOnly.bound numbersOf = some bound) [.register {1}, .timedOut]
  exact ⟨after, b', applied, there, epoch⟩

/-- A timeout counted while a clearing was on its way stays counted on disk, and not live. -/
theorem timeout_outlives_clearing :
    ¬ ∀ ops : List (EvidenceOp .numbers), .revoked ∉ ops →
      let w := run (step numbersOf) ops (start bound)
      w.Settled → ∀ after b', w.log.foldlM apply boundOnly = .ok after → after.bound numbersOf = some b' →
        b'.evidence.pending.map (·.timeouts) = w.live.pending.map (·.timeouts) := by
  intro same
  have counts := same [.register {1}, .retry, .timedOut, .retryConfirmed] (by simp) ⟨rfl, rfl, rfl⟩ _ _ rfl rfl
  exact absurd counts (by decide +kernel)

end EvidenceWorld
end Agent24.Provider
