import Agent24.Library.Runs
import Agent24.Provider.Ledger

/-! A ledger over a disk: whatever order its operations and the disk's writes come in, a committed
tightening is recorded or the seal is gone, and no abandoned loosening is applied. -/

set_option autoImplicit false
namespace Agent24.Provider
open Library List

namespace Ledger
section
variable {P : Type} {l : Ledger P} {scope : Scope P} {ticket t : Ticket} {op : SealOp}

theorem unsealing_eq : l.unsealing = (match l.sealState with
    | .present => ({ l with next := l.next + 1, sealState := .deleting ⟨l.next + 1⟩ }, some ⟨l.next + 1⟩)
    | .rebuilding _ => ({ l with redelete := true }, none)
    | .deleting _ | .absent => (l, none)) := rfl

@[simp] theorem unsealing_tight : l.unsealing.1.tight = l.tight := by
  rw [unsealing_eq]
  split <;> rfl

@[simp] theorem unsealing_loose : l.unsealing.1.loose = l.loose := by
  rw [unsealing_eq]
  split <;> rfl

@[simp] theorem unsealing_applied : l.unsealing.1.applied = l.applied := by
  rw [unsealing_eq]
  split <;> rfl

theorem le_unsealing_next : l.next ≤ l.unsealing.1.next := by
  rw [unsealing_eq]
  split
  · exact Nat.le_succ _
  all_goals exact Nat.le_refl _

theorem lt_tighten_next : l.next < (l.tighten scope).1.next :=
  Nat.lt_of_lt_of_le (Nat.lt_succ_self _) (@le_unsealing_next _ { l with next := l.next + 1 })

@[simp] theorem tighten_ticket : (l.tighten scope).2.ticket = ⟨l.next + 1⟩ := rfl

@[simp] theorem tighten_loose : (l.tighten scope).1.loose = l.loose := by
  simp [tighten]

@[simp] theorem tighten_applied : (l.tighten scope).1.applied = l.applied := by
  simp [tighten]

theorem tighten_find : (l.tighten scope).1.tight.find t =
    if t = ⟨l.next + 1⟩ then some ⟨⟨l.next + 1⟩, scope, decide ((l.tighten scope).1.sealState = .absent), false⟩
    else l.tight.find t := by
  simp [tighten, Table.find_put]

theorem mem_tighten {row : Tight P} : row ∈ (l.tighten scope).1.tight.rows ↔
    row = ⟨⟨l.next + 1⟩, scope, decide ((l.tighten scope).1.sealState = .absent), false⟩ ∨
      row ∈ l.tight.rows ∧ row.ticket ≠ ⟨l.next + 1⟩ := by
  simp [tighten, Table.mem_put]

theorem tighten_seal :
    (l.sealState = .present ∧ (l.tighten scope).1.sealState = .deleting ⟨l.next + 2⟩ ∧
      (l.tighten scope).2.unsealOp = some ⟨l.next + 2⟩) ∨
    (l.sealState ≠ .present ∧ (l.tighten scope).1.sealState = l.sealState ∧ (l.tighten scope).2.unsealOp = none) := by
  unfold tighten
  rw [unsealing_eq]
  cases sealed : l.sealState with
  | present => exact .inl ⟨rfl, rfl, rfl⟩
  | deleting op => exact .inr ⟨by simp, by simp, rfl⟩
  | absent => exact .inr ⟨by simp, by simp, rfl⟩
  | rebuilding op => exact .inr ⟨by simp, by simp, rfl⟩

structure Keeps (l l' : Ledger P) : Prop where
  next : l.next ≤ l'.next
  loose : l'.loose = l.loose
  applied : l'.applied = l.applied
  tickets : ∀ t, (∃ row ∈ l'.tight.rows, row.ticket = t) ↔ ∃ row ∈ l.tight.rows, row.ticket = t

theorem Keeps.refl : Keeps l l := ⟨Nat.le_refl _, rfl, rfl, fun _ => Iff.rfl⟩

theorem keeps_update {select : Tight P → Bool} {edit : Tight P → Tight P}
    {keeps : ∀ row, (edit row).ticket = row.ticket} {state : Seal} :
    Keeps l { l with sealState := state, tight := l.tight.update select edit keeps } where
  next := Nat.le_refl _
  loose := rfl
  applied := rfl
  tickets t := by
    constructor
    · rintro ⟨row, member, rfl⟩
      obtain ⟨old, inside, rfl⟩ := mem_map.mp member
      refine ⟨old, inside, ?_⟩
      split
      · exact (keeps old).symm
      · rfl
    · rintro ⟨old, inside, rfl⟩
      refine ⟨_, mem_map_of_mem inside, ?_⟩
      split
      · exact keeps old
      · rfl

theorem keeps_sealDeleted : Keeps l (l.sealDeleted op) := by
  unfold sealDeleted
  split
  · exact keeps_update
  · exact .refl

theorem keeps_sealDeleteFailed : Keeps l (l.sealDeleteFailed op).1 := by
  unfold sealDeleteFailed
  split
  · split
    · exact ⟨Nat.le_succ _, rfl, rfl, fun _ => Iff.rfl⟩
    · exact ⟨Nat.le_refl _, rfl, rfl, fun _ => Iff.rfl⟩
  · exact .refl

theorem keeps_reseal : Keeps l l.reseal.1 := by
  unfold reseal
  split
  · exact ⟨Nat.le_succ _, rfl, rfl, fun _ => Iff.rfl⟩
  · exact .refl

theorem keeps_resealed : Keeps l (l.resealed op).1 := by
  unfold resealed
  split
  · split
    · exact ⟨Nat.le_succ _, rfl, rfl, fun _ => Iff.rfl⟩
    · exact ⟨Nat.le_refl _, rfl, rfl, fun _ => Iff.rfl⟩
  · exact .refl

theorem committed_tighten (old : t.number ≤ l.next) :
    (l.tighten scope).1.committed t = l.committed t := by
  have apart : t ≠ ⟨l.next + 1⟩ := by
    rintro rfl
    exact absurd old (Nat.not_succ_le_self _)
  simp [committed, tighten_find, apart]

theorem committed_recordDurable (committed : l.committed t = true) :
    (l.recordDurable ticket).committed t = true := by
  simp only [Ledger.committed, recordDurable, Table.find_deleteWhere] at committed ⊢
  cases found : l.tight.find t with
  | none => rfl
  | some row =>
    cases dropped : decide (row.ticket = ticket) <;> simp_all

theorem committed_update {edit : Tight P → Tight P} {select : Tight P → Bool}
    {keeps : ∀ row, (edit row).ticket = row.ticket} {state : Seal}
    (stays : ∀ row, row.committed = true → (edit row).committed = true) (committed : l.committed t = true) :
    ({ l with sealState := state, tight := l.tight.update select edit keeps }).committed t = true := by
  simp only [Ledger.committed, Table.find_update] at committed ⊢
  cases found : l.tight.find t with
  | none => rfl
  | some row =>
    rw [found] at committed
    simp only [Option.map_some, Option.all_some]
    split
    · exact stays row committed
    · exact committed

theorem committed_sealDeleted (committed : l.committed t = true) : (l.sealDeleted op).committed t = true := by
  unfold sealDeleted
  split
  · exact committed_update (fun _ _ => rfl) committed
  · exact committed

theorem committed_of_tight {l' : Ledger P} (same : l'.tight = l.tight) : l'.committed t = l.committed t := by
  simp [committed, same]

theorem sealDeleteFailed_tight : (l.sealDeleteFailed op).1.tight = l.tight := by
  unfold sealDeleteFailed
  split
  · split <;> rfl
  · rfl

theorem reseal_tight : l.reseal.1.tight = l.tight := by
  unfold reseal
  split <;> rfl

theorem resealed_tight : (l.resealed op).1.tight = l.tight := by
  unfold resealed
  split
  · split <;> rfl
  · rfl

theorem loosen_tight [DecidableEq P] {after : Option Loosening} {off : Bool} :
    (l.loosen scope after off).1.tight = l.tight := by
  unfold loosen
  dsimp only
  split <;> rfl

theorem looseningDurable_tight {gone : Loosening} : (l.looseningDurable gone).1.tight = l.tight := by
  unfold looseningDurable
  split <;> rfl

end
end Ledger

structure Flight where
  write : SealWrite
  landed : Bool

structure SealWorld (P : Type) where
  ledger : Ledger P
  standing : Bool
  flight : Option Flight
  /-- Every ticket handed out, those on disk, and those reported durable. -/
  issued : List Ticket
  recorded : List Ticket
  confirmed : List Ticket
  abandoned : List Loosening

inductive SealMove (P : Type) where
  | tighten (scope : Scope P)
  | recordLands (ticket : Ticket)
  | recordDurable (ticket : Ticket)
  | recordFailed (ticket : Ticket)
  | sealLands
  | sealDeleted (op : SealOp)
  | sealDeleteFailed (op : SealOp)
  | reseal
  | resealed (op : SealOp)
  | loosen (scope : Scope P) (after : Option Loosening) (off : Bool)
  | looseningDurable (ticket : Loosening)
  | abandon (ticket : Loosening)

namespace SealWorld
variable {P : Type}

def start (sealPresent : Bool) : SealWorld P where
  ledger := .new sealPresent
  standing := sealPresent
  flight := none
  issued := []
  recorded := []
  confirmed := []
  abandoned := []

def starts (asked : Option SealWrite) (flight : Option Flight) : Option Flight :=
  match asked with
  | none => flight
  | some write => some ⟨write, false⟩

def truthful (w : SealWorld P) (op : SealOp) (holds : Flight → Bool) : Bool :=
  w.flight.all fun f => if f.write.op = op then holds f else true

def answered (w : SealWorld P) (op : SealOp) : Option Flight :=
  w.flight.filter fun f => decide (f.write.op ≠ op)

def issue (w : SealWorld P) (out : Ledger P × Tightening) : SealWorld P :=
  { w with
    ledger := out.1
    issued := out.2.ticket :: w.issued
    flight := starts (out.2.unsealOp.map .delete) w.flight }

def step [DecidableEq P] (w : SealWorld P) : SealMove P → SealWorld P
  | .tighten scope => w.issue (w.ledger.tighten scope)
  | .recordLands ticket =>
    if ticket ∈ w.issued then { w with recorded := ticket :: w.recorded } else w
  | .recordDurable ticket =>
    if ticket ∈ w.recorded then
      { w with ledger := w.ledger.recordDurable ticket, confirmed := ticket :: w.confirmed }
    else w
  | .recordFailed ticket => { w with ledger := w.ledger.recordFailed ticket }
  | .sealLands =>
    match w.flight with
    | none => w
    | some f =>
      { w with standing := f.write matches .rebuild _, flight := some { f with landed := true } }
  | .sealDeleted op =>
    -- reported durable only once it landed
    if w.truthful op fun f => decide (f.write = .delete op) && f.landed then
      { w with ledger := w.ledger.sealDeleted op, flight := w.answered op }
    else w
  | .sealDeleteFailed op =>
    if w.truthful op fun f => decide (f.write = .delete op) then
      let out := w.ledger.sealDeleteFailed op
      { w with ledger := out.1, flight := starts (out.2.map .delete) (w.answered op) }
    else w
  | .reseal =>
    let out := w.ledger.reseal
    { w with ledger := out.1, flight := starts (out.2.map .rebuild) w.flight }
  | .resealed op =>
    if w.truthful op fun f => decide (f.write = .rebuild op) then
      let out := w.ledger.resealed op
      { w with ledger := out.1, flight := starts (out.2.map .delete) (w.answered op) }
    else w
  | .loosen scope after off => { w with ledger := (w.ledger.loosen scope after off).1 }
  | .looseningDurable ticket => { w with ledger := (w.ledger.looseningDurable ticket).1 }
  | .abandon ticket =>
    match w.ledger.abandon ticket with
    | (_, none) => w
    | (l, some tightening) => { w.issue (l, tightening) with abandoned := ticket :: w.abandoned }

-- Its equations, made once for all the proofs below.
section
attribute [local simp] step
end

/-- What the disk and the write in flight are in each state of the ledger's seal. -/
def Flies (standing : Bool) (flight : Option Flight) : Seal → Prop
  | .present => flight = none
  | .deleting op => ∃ landed, flight = some ⟨.delete op, landed⟩ ∧ (landed = true → standing = false)
  | .absent => flight = none ∧ standing = false
  | .rebuilding op => ∃ landed, flight = some ⟨.rebuild op, landed⟩

structure Numbered (w : SealWorld P) : Prop where
  tight : ∀ row ∈ w.ledger.tight.rows, row.ticket.number ≤ w.ledger.next
  loose : ∀ row ∈ w.ledger.loose.rows, row.ticket.number ≤ w.ledger.next
  applied : ∀ t ∈ w.ledger.applied, t.number ≤ w.ledger.next
  issued : ∀ t ∈ w.issued, t.number ≤ w.ledger.next
  abandoned : ∀ t ∈ w.abandoned, t.number ≤ w.ledger.next

structure Held (w : SealWorld P) : Prop where
  issued : ∀ t ∈ w.issued, (∃ row ∈ w.ledger.tight.rows, row.ticket = t) ∨ t ∈ w.confirmed
  confirmed : ∀ t ∈ w.confirmed, t ∈ w.recorded

structure Sound (w : SealWorld P) : Prop where
  numbered : Numbered w
  held : Held w
  flies : Flies w.standing w.flight w.ledger.sealState
  -- entries commit only where the seal is gone, and a rebuild starts with none
  uncommitted : w.ledger.sealState ≠ .absent → ∀ row ∈ w.ledger.tight.rows, row.committed = false
  pending : ∀ row ∈ w.ledger.loose.rows, row.ticket ∉ w.ledger.applied
  gone : ∀ t ∈ w.abandoned, t ∉ w.ledger.applied ∧ ∀ row ∈ w.ledger.loose.rows, row.ticket ≠ t

variable {w : SealWorld P}

theorem Sound.start (sealPresent : Bool) : Sound (P := P) (start sealPresent) where
  numbered := by constructor <;> exact forall_mem_nil _
  held := by constructor <;> exact forall_mem_nil _
  flies := by cases sealPresent <;> simp [Flies, SealWorld.start, Ledger.new]
  uncommitted _ := forall_mem_nil _
  pending := forall_mem_nil _
  gone := forall_mem_nil _

theorem Numbered.tighten (numbered : Numbered w) (scope : Scope P) :
    Numbered (w.issue (w.ledger.tighten scope)) := by
  have later := @Ledger.lt_tighten_next _ w.ledger scope
  have old : ∀ {n : Nat}, n ≤ w.ledger.next → n ≤ (w.ledger.tighten scope).1.next := fun le => by omega
  constructor
  · intro row member
    rcases Ledger.mem_tighten.mp member with rfl | ⟨kept, -⟩
    · exact later
    · exact old (numbered.tight row kept)
  · intro row member
    apply old
    apply numbered.loose row
    simpa [issue] using member
  · intro t member
    apply old
    apply numbered.applied t
    simpa [issue] using member
  · intro t member
    rcases mem_cons.mp member with rfl | kept
    · exact later
    · exact old (numbered.issued t kept)
  · exact fun t member => old (numbered.abandoned t member)

theorem Held.tighten (held : Held w) (numbered : Numbered w) (scope : Scope P) :
    Held (w.issue (w.ledger.tighten scope)) where
  issued t member := by
    rcases mem_cons.mp member with rfl | kept
    · exact .inl ⟨_, Ledger.mem_tighten.mpr (.inl rfl), rfl⟩
    rcases held.issued t kept with ⟨row, inside, rfl⟩ | confirmed
    · left
      refine ⟨row, Ledger.mem_tighten.mpr (.inr ⟨inside, ?_⟩), rfl⟩
      -- the new ticket's number was never handed out
      intro same
      have bound := numbered.tight row inside
      rw [same] at bound
      exact absurd bound (Nat.not_succ_le_self _)
    · exact .inr confirmed
  confirmed := held.confirmed

theorem Sound.tighten (sound : Sound w) (scope : Scope P) : Sound (w.issue (w.ledger.tighten scope)) where
  numbered := sound.numbered.tighten scope
  held := sound.held.tighten sound.numbered scope
  flies := by
    have flies := sound.flies
    rcases @Ledger.tighten_seal _ w.ledger scope with ⟨present, deleting, asked⟩ | ⟨-, same, asked⟩
    · simp only [issue, deleting, asked, Flies]
      exact ⟨false, rfl, nofun⟩
    · simpa [issue, same, asked, starts] using flies
  uncommitted standing row member := by
    rcases Ledger.mem_tighten.mp member with rfl | ⟨kept, -⟩
    · exact decide_eq_false standing
    apply sound.uncommitted _ row kept
    rcases @Ledger.tighten_seal _ w.ledger scope with ⟨present, -⟩ | ⟨-, same, -⟩
    · simp [present]
    · exact same ▸ standing
  pending row member := by
    have kept : row ∈ w.ledger.loose.rows := by simpa [issue] using member
    simpa [issue] using sound.pending row kept
  gone t member := by simpa [issue] using sound.gone t member

theorem Sound.keep (sound : Sound w) {l : Ledger P} (keeps : Ledger.Keeps w.ledger l) {standing : Bool}
    {flight : Option Flight} (flies : Flies standing flight l.sealState)
    (uncommitted : l.sealState ≠ .absent → ∀ row ∈ l.tight.rows, row.committed = false) :
    Sound { w with ledger := l, standing := standing, flight := flight } where
  numbered := by
    have numbered := sound.numbered
    have later := keeps.next
    constructor
    · intro row member
      obtain ⟨old, inside, same⟩ := (keeps.tickets row.ticket).mp ⟨row, member, rfl⟩
      have bound := numbered.tight old inside
      rw [same] at bound
      exact Nat.le_trans bound later
    · intro row member
      exact Nat.le_trans (numbered.loose row (keeps.loose ▸ member)) later
    · intro t member
      exact Nat.le_trans (numbered.applied t (keeps.applied ▸ member)) later
    · exact fun t member => Nat.le_trans (numbered.issued t member) later
    · exact fun t member => Nat.le_trans (numbered.abandoned t member) later
  held :=
    { issued := fun t member => (sound.held.issued t member).imp (keeps.tickets t).mpr id
      confirmed := sound.held.confirmed }
  flies := flies
  uncommitted := uncommitted
  pending row member := by
    rw [keeps.applied]
    exact sound.pending row (keeps.loose ▸ member)
  gone t member := by
    rw [keeps.applied, keeps.loose]
    exact sound.gone t member

theorem answered_self {landed : Bool} {write : SealWrite} (flying : w.flight = some ⟨write, landed⟩) :
    w.answered write.op = none := by
  simp [answered, flying]

theorem answered_other {op : SealOp} (other : ∀ f ∈ w.flight, f.write.op ≠ op) : w.answered op = w.flight := by
  unfold answered
  cases flying : w.flight with
  | none => rfl
  | some f => simp [other f flying]

theorem ne_op_of_truthful {op : SealOp} {holds : Flight → Bool} (right : w.truthful op holds = true)
    {f : Flight} (flying : w.flight = some f) (not : holds f = false) : f.write.op ≠ op := by
  intro same
  simp [truthful, flying, same, not] at right

def awaiting : SealWrite → Seal
  | .delete op => .deleting op
  | .rebuild op => .rebuilding op

theorem Flies.awaited {standing : Bool} {flight : Option Flight} {state : Seal}
    (flies : Flies standing flight state) {f : Flight} (flying : flight = some f) :
    state = awaiting f.write := by
  cases state with
  | present => cases flies.symm.trans flying
  | absent => cases flies.1.symm.trans flying
  | deleting op =>
    obtain ⟨landed, flown, -⟩ := flies
    cases flown.symm.trans flying
    rfl
  | rebuilding op =>
    obtain ⟨landed, flown⟩ := flies
    cases flown.symm.trans flying
    rfl

section
variable (sound : Sound w)
include sound

theorem Sound.unawaited (write : SealWrite) {holds : Flight → Bool} (right : w.truthful write.op holds = true)
    (about : ∀ f, holds f = true → f.write = write) (not : w.ledger.sealState ≠ awaiting write) : w.answered write.op = w.flight := by
  apply answered_other
  intro f flying
  apply ne_op_of_truthful right flying
  by_contra held
  rw [Bool.not_eq_false] at held
  exact not (about f held ▸ sound.flies.awaited flying)

theorem Sound.sealDeleted {op : SealOp}
    (right : (w.truthful op fun f => decide (f.write = .delete op) && f.landed) = true) :
    Sound { w with ledger := w.ledger.sealDeleted op, flight := w.answered op } := by
  have flies := sound.flies
  apply sound.keep Ledger.keeps_sealDeleted
  · unfold Ledger.sealDeleted
    split
    · rename_i deleting
      rw [deleting] at flies
      obtain ⟨landed, flying, gone⟩ := flies
      have told : landed = true := by simpa [truthful, flying, SealWrite.op] using right
      exact ⟨answered_self flying, gone told⟩
    · rename_i not
      have same : w.answered op = w.flight := sound.unawaited (.delete op) right (by simp_all) not
      rw [same]
      exact flies
  · intro there row member
    unfold Ledger.sealDeleted at there member
    split at there
    · exact absurd rfl there
    · exact sound.uncommitted there row (by simpa [*] using member)

theorem Sound.sealDeleteFailed {op : SealOp} (right : (w.truthful op fun f => decide (f.write = .delete op)) = true) :
    Sound { w with
      ledger := (w.ledger.sealDeleteFailed op).1
      flight := starts ((w.ledger.sealDeleteFailed op).2.map .delete) (w.answered op) } := by
  have flies := sound.flies
  apply sound.keep Ledger.keeps_sealDeleteFailed
  · unfold Ledger.sealDeleteFailed
    split
    · rename_i deleting
      rw [deleting] at flies
      obtain ⟨landed, flying, -⟩ := flies
      split
      · exact ⟨false, rfl, nofun⟩
      · exact answered_self flying
    · rename_i not
      have same : w.answered op = w.flight := sound.unawaited (.delete op) right (by simp) not
      rw [same]
      exact flies
  · intro there row member
    unfold Ledger.sealDeleteFailed at there member
    -- the deletion is tried again, or given up with nothing waiting on it
    split at there
    · rename_i deleting
      apply sound.uncommitted (by simp [deleting]) row
      rw [if_pos deleting] at member
      split at member <;> exact member
    · rename_i not
      rw [if_neg not] at member
      exact sound.uncommitted there row member

theorem Sound.reseal : Sound { w with
    ledger := w.ledger.reseal.1
    flight := starts (w.ledger.reseal.2.map .rebuild) w.flight } := by
  apply sound.keep Ledger.keeps_reseal
  · unfold Ledger.reseal
    split
    · exact ⟨false, rfl⟩
    · exact sound.flies
  · intro there row member
    unfold Ledger.reseal at there member
    split at member
    · rename_i gone
      simp [gone.2] at member
    rename_i not
    rw [if_neg not] at there
    exact sound.uncommitted there row member

theorem Sound.resealed {op : SealOp} (right : (w.truthful op fun f => decide (f.write = .rebuild op)) = true) :
    Sound { w with
      ledger := (w.ledger.resealed op).1
      flight := starts ((w.ledger.resealed op).2.map .delete) (w.answered op) } := by
  have flies := sound.flies
  apply sound.keep Ledger.keeps_resealed
  · unfold Ledger.resealed
    split
    · rename_i rebuilding
      rw [rebuilding] at flies
      obtain ⟨landed, flying⟩ := flies
      split
      · exact ⟨false, rfl, nofun⟩
      · exact answered_self flying
    · rename_i not
      have same : w.answered op = w.flight := sound.unawaited (.rebuild op) right (by simp) not
      rw [same]
      exact flies
  · intro there row member
    unfold Ledger.resealed at there member
    split at there
    · rename_i rebuilding
      apply sound.uncommitted (by simp [rebuilding]) row
      rw [if_pos rebuilding] at member
      split at member <;> exact member
    · rename_i not
      rw [if_neg not] at member
      exact sound.uncommitted there row member

theorem Sound.sealLands {f : Flight} (flying : w.flight = some f) :
    Sound { w with standing := f.write matches .rebuild _, flight := some { f with landed := true } } := by
  apply sound.keep .refl
  · have flies := sound.flies
    rw [flies.awaited flying]
    cases write : f.write with
    | delete op => exact ⟨true, rfl, fun _ => rfl⟩
    | rebuild op => exact ⟨true, rfl⟩
  · exact sound.uncommitted

theorem Sound.recordDurable {ticket : Ticket} (recorded : ticket ∈ w.recorded) :
    Sound { w with ledger := w.ledger.recordDurable ticket, confirmed := ticket :: w.confirmed } where
  numbered := { sound.numbered with
    tight := fun row member => sound.numbered.tight row (Table.mem_deleteWhere.mp member).1 }
  held :=
    { issued := fun t member => by
        by_cases same : t = ticket
        · exact .inr (same ▸ mem_cons_self ..)
        refine (sound.held.issued t member).imp ?_ (mem_cons_of_mem _)
        rintro ⟨row, inside, rfl⟩
        exact ⟨row, Table.mem_deleteWhere.mpr ⟨inside, decide_eq_false same⟩, rfl⟩
      confirmed := fun t member => by
        rcases mem_cons.mp member with rfl | kept
        · exact recorded
        · exact sound.held.confirmed t kept }
  flies := sound.flies
  uncommitted there row member := sound.uncommitted there row (Table.mem_deleteWhere.mp member).1
  pending := sound.pending
  gone := sound.gone

theorem Sound.recordFailed (ticket : Ticket) :
    Sound { w with ledger := w.ledger.recordFailed ticket } := by
  apply sound.keep Ledger.keeps_update sound.flies
  intro there row member
  obtain ⟨old, inside, rfl⟩ := mem_map.mp member
  split
  · exact sound.uncommitted there old inside
  · exact sound.uncommitted there old inside

theorem Sound.recordLands (ticket : Ticket) :
    Sound { w with recorded := ticket :: w.recorded } :=
  { sound with
    numbered := { sound.numbered with }
    held := { sound.held with confirmed := fun t member => mem_cons_of_mem _ (sound.held.confirmed t member) } }

theorem Sound.loosen [DecidableEq P] (scope : Scope P) (after : Option Loosening) (off : Bool) :
    Sound { w with ledger := (w.ledger.loosen scope after off).1 } := by
  unfold Ledger.loosen
  dsimp only
  split
  · exact sound
  have numbered := sound.numbered
  have old : ∀ {n : Nat}, n ≤ w.ledger.next → n ≤ w.ledger.next + 1 := Nat.le_succ_of_le
  -- the loosening's number was never handed out
  have fresh : ∀ {n : Nat}, n ≤ w.ledger.next → n ≠ w.ledger.next + 1 := fun bound => by omega
  constructor
  · constructor
    · exact fun row member => old (numbered.tight row member)
    · intro row member
      rcases Table.mem_put.mp member with rfl | ⟨kept, -⟩
      · exact Nat.le_refl _
      · exact old (numbered.loose row kept)
    · exact fun t member => old (numbered.applied t member)
    · exact fun t member => old (numbered.issued t member)
    · exact fun t member => old (numbered.abandoned t member)
  · exact { sound.held with }
  · exact sound.flies
  · exact sound.uncommitted
  · intro row member
    rcases Table.mem_put.mp member with rfl | ⟨kept, -⟩
    · intro applied
      exact fresh (numbered.applied _ applied) rfl
    · exact sound.pending row kept
  · intro t member
    refine ⟨(sound.gone t member).1, fun row inside same => ?_⟩
    rcases Table.mem_put.mp inside with rfl | ⟨kept, -⟩
    · exact fresh (numbered.abandoned t member) (congrArg Loosening.number same).symm
    · exact (sound.gone t member).2 row kept same

theorem Sound.looseningDurable (ticket : Loosening) :
    Sound { w with ledger := (w.ledger.looseningDurable ticket).1 } := by
  unfold Ledger.looseningDurable
  split
  · exact sound
  rename_i row found
  obtain ⟨inside, rfl⟩ := Table.find_eq_some.mp found
  have numbered := sound.numbered
  constructor
  · refine { numbered with loose := fun other member => ?_, applied := fun t member => ?_ }
    · exact numbered.loose other (Table.mem_deleteWhere.mp member).1
    · rcases mem_cons.mp member with rfl | kept
      · exact numbered.loose row inside
      · exact numbered.applied t kept
  · exact { sound.held with }
  · exact sound.flies
  · exact sound.uncommitted
  · intro other member applied
    obtain ⟨kept, apart⟩ := Table.mem_deleteWhere.mp member
    rcases mem_cons.mp applied with same | before
    · exact of_decide_eq_false apart same
    · exact sound.pending other kept before
  · intro t member
    obtain ⟨unapplied, absent⟩ := sound.gone t member
    refine ⟨fun applied => ?_, fun other kept => absent other (Table.mem_deleteWhere.mp kept).1⟩
    rcases mem_cons.mp applied with same | before
    · exact absent row inside same.symm
    · exact unapplied before

theorem Sound.withdraw {row : Loose P} (inside : row ∈ w.ledger.loose.rows) :
    Sound { w with ledger := w.ledger.withdraw row.ticket, abandoned := row.ticket :: w.abandoned } where
  numbered := { sound.numbered with
    loose := fun other member => sound.numbered.loose other (Table.mem_deleteWhere.mp member).1
    abandoned := fun t member => by
      rcases mem_cons.mp member with rfl | kept
      · exact sound.numbered.loose row inside
      · exact sound.numbered.abandoned t kept }
  held := { sound.held with }
  flies := sound.flies
  uncommitted := sound.uncommitted
  pending other member := sound.pending other (Table.mem_deleteWhere.mp member).1
  gone t member := by
    rcases mem_cons.mp member with rfl | kept
    · exact ⟨sound.pending row inside, fun other left => of_decide_eq_false (Table.mem_deleteWhere.mp left).2⟩
    · obtain ⟨unapplied, absent⟩ := sound.gone t kept
      exact ⟨unapplied, fun other left => absent other (Table.mem_deleteWhere.mp left).1⟩

end

theorem Sound.committed (sound : Sound w) {t : Ticket} (issued : t ∈ w.issued)
    (committed : w.ledger.committed t = true) : t ∈ w.recorded ∨ w.standing = false := by
  rcases sound.held.issued t issued with ⟨row, inside, rfl⟩ | confirmed
  · right
    have found : w.ledger.tight.find row.ticket = some row := Table.mem_rows_iff.mp inside
    have settled : row.committed = true := by simpa [Ledger.committed, found] using committed
    have flies := sound.flies
    cases state : w.ledger.sealState with
    | absent => exact (state ▸ flies).2
    | present | deleting | rebuilding =>
      rw [sound.uncommitted (by simp [state]) row inside] at settled
      cases settled
  · exact .inl (sound.held.confirmed t confirmed)

variable [DecidableEq P]

theorem Sound.step (sound : Sound w) (move : SealMove P) : Sound (step w move) := by
  cases move with
  | tighten scope => exact sound.tighten scope
  | recordLands ticket =>
    simp only [SealWorld.step]
    split
    · exact sound.recordLands ticket
    · exact sound
  | recordDurable ticket =>
    simp only [SealWorld.step]
    split
    · rename_i recorded
      exact sound.recordDurable recorded
    · exact sound
  | recordFailed ticket => exact sound.recordFailed ticket
  | sealLands =>
    simp only [SealWorld.step]
    split
    · exact sound
    · rename_i f flying
      exact sound.sealLands flying
  | sealDeleted op =>
    simp only [SealWorld.step]
    split
    · rename_i right
      exact sound.sealDeleted right
    · exact sound
  | sealDeleteFailed op =>
    simp only [SealWorld.step]
    split
    · rename_i right
      exact sound.sealDeleteFailed right
    · exact sound
  | reseal => exact sound.reseal
  | resealed op =>
    simp only [SealWorld.step]
    split
    · rename_i right
      exact sound.resealed right
    · exact sound
  | loosen scope after off => exact sound.loosen scope after off
  | looseningDurable ticket => exact sound.looseningDurable ticket
  | abandon ticket =>
    simp only [SealWorld.step, Ledger.abandon]
    split
    · exact sound
    rename_i l tightening abandoned
    cases found : w.ledger.loose.find ticket with
    | none => simp [found] at abandoned
    | some row =>
      obtain ⟨inside, rfl⟩ := Table.find_eq_some.mp found
      simp only [found] at abandoned
      cases abandoned
      exact (sound.withdraw inside).tighten row.scope

theorem sound_run (sealPresent : Bool) (moves : List (SealMove P)) :
    Sound (run SealWorld.step moves (start sealPresent)) :=
  run_invariant SealWorld.step (fun _ => True) Sound (fun _ move _ sound => sound.step move)
    (fun _ _ => trivial) (.start sealPresent)

theorem Sound.committed_step (sound : Sound w) {t : Ticket} (issued : t ∈ w.issued)
    (committed : w.ledger.committed t = true) (move : SealMove P) :
    t ∈ (SealWorld.step w move).issued ∧ (SealWorld.step w move).ledger.committed t = true := by
  have old := sound.numbered.issued t issued
  cases move with
  | tighten scope => exact ⟨mem_cons_of_mem _ issued, (Ledger.committed_tighten old).trans committed⟩
  | recordLands ticket =>
    simp only [SealWorld.step]
    split <;> exact ⟨issued, committed⟩
  | recordDurable ticket =>
    simp only [SealWorld.step]
    split
    · exact ⟨issued, Ledger.committed_recordDurable committed⟩
    · exact ⟨issued, committed⟩
  | recordFailed ticket => exact ⟨issued, Ledger.committed_update (fun _ settled => settled) committed⟩
  | sealLands =>
    simp only [SealWorld.step]
    split <;> exact ⟨issued, committed⟩
  | sealDeleted op =>
    simp only [SealWorld.step]
    split
    · exact ⟨issued, Ledger.committed_sealDeleted committed⟩
    · exact ⟨issued, committed⟩
  | sealDeleteFailed op =>
    simp only [SealWorld.step]
    split
    · exact ⟨issued, (Ledger.committed_of_tight Ledger.sealDeleteFailed_tight).trans committed⟩
    · exact ⟨issued, committed⟩
  | reseal => exact ⟨issued, (Ledger.committed_of_tight Ledger.reseal_tight).trans committed⟩
  | resealed op =>
    simp only [SealWorld.step]
    split
    · exact ⟨issued, (Ledger.committed_of_tight Ledger.resealed_tight).trans committed⟩
    · exact ⟨issued, committed⟩
  | loosen => exact ⟨issued, (Ledger.committed_of_tight Ledger.loosen_tight).trans committed⟩
  | looseningDurable ticket =>
    exact ⟨issued, (Ledger.committed_of_tight Ledger.looseningDurable_tight).trans committed⟩
  | abandon ticket =>
    simp only [SealWorld.step, Ledger.abandon]
    cases w.ledger.loose.find ticket with
    | none => exact ⟨issued, committed⟩
    | some row =>
      have still := @Ledger.committed_tighten _ (w.ledger.withdraw ticket) row.scope t old
      exact ⟨mem_cons_of_mem _ issued, still.trans committed⟩

theorem Sound.committed_run (sound : Sound w) {t : Ticket} (issued : t ∈ w.issued)
    (committed : w.ledger.committed t = true) (moves : List (SealMove P)) :
    t ∈ (run SealWorld.step moves w).issued ∧ (run SealWorld.step moves w).ledger.committed t = true := by
  induction moves generalizing w with
  | nil => exact ⟨issued, committed⟩
  | cons move rest ih =>
    obtain ⟨there, still⟩ := sound.committed_step issued committed move
    exact ih (sound.step move) there still

theorem Sound.abandoned_step {t : Loosening} (abandoned : t ∈ w.abandoned) (move : SealMove P) :
    t ∈ (SealWorld.step w move).abandoned := by
  cases move
  case abandon ticket =>
    simp only [SealWorld.step]
    split
    · exact abandoned
    · exact mem_cons_of_mem _ abandoned
  all_goals
    simp only [SealWorld.step]
    repeat' split
    all_goals exact abandoned

/-- A rebuild that is in flight after a move was in flight before it, or everything issued is confirmed. -/
theorem Sound.rebuild_starts (sound : Sound w) {op : SealOp} {landed : Bool} (move : SealMove P)
    (flying : (SealWorld.step w move).flight = some ⟨.rebuild op, landed⟩) :
    (∃ before, w.flight = some ⟨.rebuild op, before⟩) ∨ ∀ t ∈ w.issued, t ∈ w.confirmed := by
  -- no move but a reseal asks for a rebuild
  have deletes : ∀ {asked : Option SealOp} {flight : Option Flight},
      starts (asked.map .delete) flight = some ⟨.rebuild op, landed⟩ → flight = some ⟨.rebuild op, landed⟩ := by
    intro asked flight started
    cases asked with
    | none => exact started
    | some other => cases started
  have stays : ∀ {other : SealOp}, w.answered other = some ⟨.rebuild op, landed⟩ →
      w.flight = some ⟨.rebuild op, landed⟩ := fun kept => (Option.filter_eq_some_iff.mp kept).1
  cases move with
  | tighten scope => exact .inl ⟨_, deletes flying⟩
  | recordLands ticket =>
    simp only [SealWorld.step] at flying
    split at flying <;> exact .inl ⟨_, flying⟩
  | recordDurable ticket =>
    simp only [SealWorld.step] at flying
    split at flying <;> exact .inl ⟨_, flying⟩
  | recordFailed ticket => exact .inl ⟨_, flying⟩
  | sealLands =>
    simp only [SealWorld.step] at flying
    split at flying
    · exact .inl ⟨_, flying⟩
    rename_i f flown
    obtain ⟨same, -⟩ := Flight.mk.inj (Option.some.inj flying)
    exact .inl ⟨f.landed, by rw [flown, ← same]⟩
  | sealDeleted op =>
    simp only [SealWorld.step] at flying
    split at flying
    · exact .inl ⟨_, stays flying⟩
    · exact .inl ⟨_, flying⟩
  | sealDeleteFailed op =>
    simp only [SealWorld.step] at flying
    split at flying
    · exact .inl ⟨_, stays (deletes flying)⟩
    · exact .inl ⟨_, flying⟩
  | reseal =>
    simp only [SealWorld.step, Ledger.reseal] at flying
    split at flying
    · rename_i gone
      right
      intro t issued
      rcases sound.held.issued t issued with ⟨row, inside, -⟩ | confirmed
      · rw [gone.2] at inside
        cases inside
      · exact confirmed
    · exact .inl ⟨_, flying⟩
  | resealed op =>
    simp only [SealWorld.step] at flying
    split at flying
    · exact .inl ⟨_, stays (deletes flying)⟩
    · exact .inl ⟨_, flying⟩
  | loosen => exact .inl ⟨_, flying⟩
  | looseningDurable ticket => exact .inl ⟨_, flying⟩
  | abandon ticket =>
    simp only [SealWorld.step, Ledger.abandon] at flying
    cases found : w.ledger.loose.find ticket with
    | none =>
      simp only [found] at flying
      exact .inl ⟨_, flying⟩
    | some row =>
      simp only [found] at flying
      exact .inl ⟨_, deletes flying⟩

/-- Over every run a tightening that reads committed is recorded or the seal is gone for good, and an abandoned
loosening is never applied. -/
theorem committed_tightenings_survive (sealPresent : Bool) (moves : List (SealMove P)) :
    let w := run SealWorld.step moves (start sealPresent)
    (∀ t ∈ w.issued, w.ledger.committed t = true → ∀ later,
      let w' := run SealWorld.step later w
      w'.ledger.committed t = true ∧ (t ∈ w'.recorded ∨ w'.standing = false)) ∧
    (∀ move op landed, (SealWorld.step w move).flight = some ⟨.rebuild op, landed⟩ →
      (∀ before, w.flight ≠ some ⟨.rebuild op, before⟩) → ∀ t ∈ w.issued, t ∈ w.confirmed) ∧
    ∀ t ∈ w.abandoned, ∀ later,
      let w' := run SealWorld.step later w
      t ∉ w'.ledger.applied ∧ (w'.ledger.looseningDurable t).2 = .ignored := by
  have sound : Sound (run SealWorld.step moves (start sealPresent)) := sound_run sealPresent moves
  have soundLater : ∀ later, Sound (run SealWorld.step later (run SealWorld.step moves (start sealPresent))) := by
    intro later
    rw [← run_append]
    exact sound_run sealPresent _
  refine ⟨fun t issued committed later => ?_, fun move op landed flying fresh => ?_, fun t abandoned later => ?_⟩
  · obtain ⟨there, still⟩ := sound.committed_run issued committed later
    exact ⟨still, (soundLater later).committed there still⟩
  · rcases sound.rebuild_starts move flying with ⟨before, flown⟩ | confirmed
    · exact absurd flown (fresh before)
    · exact confirmed
  · have there : t ∈ (run SealWorld.step later (run SealWorld.step moves (start sealPresent))).abandoned :=
      run_invariant SealWorld.step (fun _ => True) (fun w => t ∈ w.abandoned)
        (fun _ move _ kept => Sound.abandoned_step kept move) (fun _ _ => trivial) abandoned
    obtain ⟨unapplied, absent⟩ := (soundLater later).gone t there
    refine ⟨unapplied, ?_⟩
    have none : (run SealWorld.step later (run SealWorld.step moves (start sealPresent))).ledger.loose.find t
        = none := Table.find_eq_none.mpr absent
    simp [Ledger.looseningDurable, none]

end SealWorld
end Agent24.Provider
