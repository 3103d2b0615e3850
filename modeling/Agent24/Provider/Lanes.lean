import Agent24.Library.Runs
import Mathlib.Algebra.Ring.Nat
import Mathlib.Data.List.Nodup

/-! The two lanes a binding's calls wait in: so many run at once, and a slot given back goes to the oldest waiter. -/

set_option autoImplicit false
namespace Agent24.Provider.Budget
open Library List

def MAIN_SLOTS : Nat := 4

def BRIDGE_SLOTS : Nat := 2

/-- How long a bridge read may wait for a slot, in nanoseconds. -/
def BRIDGE_WAIT : Nat := 10 * 1000 * 1000 * 1000

inductive Lane where
  | main
  | bridge
  deriving DecidableEq

structure Ticket where
  number : Nat
  deriving DecidableEq

structure Slot where
  lane : Lane
  ticket : Ticket
  deriving DecidableEq

inductive Entry where
  | run (slot : Slot)
  | wait (ticket : Ticket)
  deriving DecidableEq

structure Queue where
  limit : Nat
  running : Nat
  waiting : List (Ticket × Nat)

def Queue.new (limit : Nat) : Queue := ⟨limit, 0, []⟩

structure Lanes where
  main : Queue
  bridge : Queue
  next : Nat

namespace Lanes

def new (main bridge : Nat) : Lanes := ⟨.new main, .new bridge, 0⟩

def default : Lanes := new MAIN_SLOTS BRIDGE_SLOTS

section
variable (l : Lanes)

def queue : Lane → Queue
  | .main => l.main
  | .bridge => l.bridge

def put (lane : Lane) (queue : Queue) : Lanes :=
  match lane with
  | .main => { l with main := queue }
  | .bridge => { l with bridge := queue }

def enter (lane : Lane) (now : Nat) : Lanes × Entry :=
  let ticket : Ticket := ⟨l.next + 1⟩
  let l := { l with next := l.next + 1 }
  let queue := l.queue lane
  if queue.running < queue.limit then
    (l.put lane { queue with running := queue.running + 1 }, .run ⟨lane, ticket⟩)
  else (l.put lane { queue with waiting := queue.waiting ++ [(ticket, now)] }, .wait ticket)

/-- A call gives its slot back, to the oldest waiter of its lane if any; none where the count would underflow. -/
def leave (slot : Slot) : Option (Lanes × Option Slot) :=
  let queue := l.queue slot.lane
  match queue.waiting with
  | (ticket, _) :: rest => some (l.put slot.lane { queue with waiting := rest }, some ⟨slot.lane, ticket⟩)
  | [] =>
    if queue.running = 0 then none
    else some (l.put slot.lane { queue with running := queue.running - 1 }, none)

def withdraw (lane : Lane) (ticket : Ticket) : Lanes × Bool :=
  let queue := l.queue lane
  let waiting := queue.waiting.filter fun entry => entry.1 ≠ ticket
  (l.put lane { queue with waiting := waiting }, waiting.length ≠ queue.waiting.length)

/-- Whether a bridge read has waited too long by `now`. -/
def overdue (now : Nat) (entry : Ticket × Nat) : Bool := BRIDGE_WAIT < now - entry.2

/-- The bridge reads that have waited too long, the oldest first, taken out of the queue. -/
def expire (now : Nat) : Lanes × List Ticket :=
  let waiting := l.bridge.waiting
  (l.put .bridge { l.bridge with waiting := waiting.dropWhile (overdue now) },
    (waiting.takeWhile (overdue now)).map Prod.fst)

end

end Lanes

/-- What one lane's callers saw: the tickets entered, started and taken out, in order, and those whose slots are
out. -/
structure History where
  entered : List Ticket
  started : List Ticket
  gone : List Ticket
  held : List Ticket

def History.empty : History := ⟨[], [], [], []⟩

inductive Move where
  | enter (lane : Lane) (now : Nat)
  | leave (slot : Slot)
  | withdraw (lane : Lane) (ticket : Ticket)
  | expire (now : Nat)

def Move.lane : Move → Lane
  | .enter lane _ | .withdraw lane _ => lane
  | .leave slot => slot.lane
  | .expire _ => .bridge

structure World where
  lanes : Lanes
  history : Lane → History

namespace World

def start (main bridge : Nat) : World := ⟨.new main bridge, fun _ => .empty⟩

def note (w : World) (lanes : Lanes) (lane : Lane) (edit : History → History) : World :=
  ⟨lanes, Function.update w.history lane (edit (w.history lane))⟩

/-- One call. A slot is only ever one that the lanes gave out and that was not given back. -/
def step (w : World) : Move → World
  | .enter lane now =>
    match w.lanes.enter lane now with
    | (lanes, .run slot) => w.note lanes lane fun h =>
        { h with entered := h.entered ++ [slot.ticket], started := h.started ++ [slot.ticket],
                 held := h.held ++ [slot.ticket] }
    | (lanes, .wait ticket) => w.note lanes lane fun h => { h with entered := h.entered ++ [ticket] }
  | .leave slot =>
    if slot.ticket ∈ (w.history slot.lane).held then
      match w.lanes.leave slot with
      | none => w
      | some (lanes, next) => w.note lanes slot.lane fun h =>
          { h with started := h.started ++ (next.map (·.ticket)).toList,
                   held := h.held.erase slot.ticket ++ (next.map (·.ticket)).toList }
    else w
  | .withdraw lane ticket =>
    let (lanes, found) := w.lanes.withdraw lane ticket
    w.note lanes lane fun h => if found then { h with gone := h.gone ++ [ticket] } else h
  | .expire now =>
    let (lanes, expired) := w.lanes.expire now
    w.note lanes .bridge fun h => { h with gone := h.gone ++ expired }

end World

def Queue.tickets (q : Queue) : List Ticket := q.waiting.map Prod.fst

/-- How a lane stands to what its callers saw: no slot is idle while a call waits, and calls start as they entered. -/
structure Fair (limit : Nat) (q : Queue) (h : History) : Prop where
  bounded : q.limit = limit
  counted : q.running = h.held.length
  within : q.running ≤ limit
  busy : q.waiting ≠ [] → q.running = limit
  inOrder : (h.started ++ q.tickets).Sublist h.entered
  distinct : h.entered.Nodup
  known : ∀ t ∈ h.gone, t ∈ h.entered
  apart : ∀ t ∈ h.gone, t ∉ h.started ++ q.tickets

namespace Fair
variable {limit : Nat} {q : Queue} {h : History} {t slot : Ticket}

theorem fresh : Fair limit (.new limit) .empty where
  bounded := rfl
  counted := rfl
  within := Nat.zero_le _
  busy some_ := absurd rfl some_
  inOrder := List.Sublist.refl []
  distinct := nodup_nil
  known _ member := by cases member
  apart _ member := by cases member

theorem none_waits (fair : Fair limit q h) (free : q.running < q.limit) : q.waiting = [] := by
  by_contra some_
  have full := fair.busy some_
  rw [fair.bounded] at free
  omega

theorem later {entered : List Ticket} (distinct : entered.Nodup) (new : t ∉ entered) : (entered ++ [t]).Nodup := by
  refine nodup_append.mpr ⟨distinct, nodup_singleton t, fun a member b last same => ?_⟩
  rw [mem_singleton.mp last] at same
  exact new (same ▸ member)

section
variable (fair : Fair limit q h)
include fair

theorem run (free : q.running < q.limit) (new : t ∉ h.entered) :
    Fair limit { q with running := q.running + 1 }
      { h with entered := h.entered ++ [t], started := h.started ++ [t], held := h.held ++ [t] } := by
  have empty := fair.none_waits free
  have whole := fair.inOrder
  simp only [Queue.tickets, empty, map_nil, append_nil] at whole
  refine
    { bounded := fair.bounded
      counted := ?_
      within := ?_
      busy := fun some_ => absurd empty some_
      inOrder := ?_
      distinct := later fair.distinct new
      known := fun a member => mem_append_left _ (fair.known a member)
      apart := fun a member => ?_ }
  · simp [fair.counted]
  · have bound := fair.bounded
    dsimp only
    omega
  · simp only [Queue.tickets, empty, map_nil, append_nil]
    exact List.Sublist.append whole (List.Sublist.refl [t])
  · have outside := fair.apart a member
    have known := fair.known a member
    simp only [Queue.tickets, empty, map_nil, append_nil, mem_append, mem_singleton, not_or]
      at outside ⊢
    exact ⟨outside, fun same => new (same ▸ known)⟩

theorem wait (full : ¬ q.running < q.limit) (new : t ∉ h.entered) (now : Nat) :
    Fair limit { q with waiting := q.waiting ++ [(t, now)] } { h with entered := h.entered ++ [t] } := by
  have bound := fair.bounded
  have within := fair.within
  refine
    { fair with
      busy := fun _ => by dsimp only; omega
      inOrder := ?_
      distinct := later fair.distinct new
      known := fun a member => mem_append_left _ (fair.known a member)
      apart := fun a member => ?_ }
  · simp only [Queue.tickets, map_append, map_cons, map_nil, ← append_assoc]
    exact List.Sublist.append fair.inOrder (List.Sublist.refl [t])
  · have outside := fair.apart a member
    have known := fair.known a member
    simp only [Queue.tickets, map_append, map_cons, map_nil, ← append_assoc]
    intro inside
    rcases mem_append.mp inside with there | last
    · exact outside there
    · exact new (mem_singleton.mp last ▸ known)

theorem pass {since : Nat} {rest : List (Ticket × Nat)} (oldest : q.waiting = (t, since) :: rest)
    (held : slot ∈ h.held) :
    Fair limit { q with waiting := rest } { h with started := h.started ++ [t], held := h.held.erase slot ++ [t] } := by
  have tickets : q.tickets = t :: rest.map Prod.fst := by rw [Queue.tickets, oldest, map_cons]
  have moved : h.started ++ [t] ++ rest.map Prod.fst = h.started ++ q.tickets := by simp [tickets]
  refine
    { bounded := fair.bounded
      counted := ?_
      within := fair.within
      busy := fun _ => fair.busy (by simp [oldest])
      inOrder := ?_
      distinct := fair.distinct
      known := fair.known
      apart := fun a member => ?_ }
  · have some_ : 0 < h.held.length := length_pos_of_mem held
    rw [length_append, length_erase_of_mem held, length_singleton, ← fair.counted]
    have counted := fair.counted
    dsimp only
    omega
  · exact moved ▸ fair.inOrder
  · exact moved ▸ fair.apart a member

theorem release (empty : q.waiting = []) (held : slot ∈ h.held) :
    Fair limit { q with running := q.running - 1 } { h with held := h.held.erase slot } where
  bounded := fair.bounded
  counted := by simp [length_erase_of_mem held, fair.counted]
  within := Nat.le_trans (Nat.sub_le ..) fair.within
  busy some_ := absurd empty some_
  inOrder := fair.inOrder
  distinct := fair.distinct
  known := fair.known
  apart := fair.apart

theorem remove {waiting : List (Ticket × Nat)} {removed : List Ticket} (less : waiting.Sublist q.waiting)
    (waited : ∀ t ∈ removed, t ∈ q.tickets) (out : ∀ t ∈ removed, t ∉ waiting.map Prod.fst) :
    Fair limit { q with waiting := waiting } { h with gone := h.gone ++ removed } := by
  have fewer : (waiting.map Prod.fst).Sublist q.tickets := less.map Prod.fst
  have order := fair.distinct.sublist fair.inOrder
  refine
    { fair with
      busy := fun some_ => fair.busy fun none_ => some_ (sublist_nil.mp (none_ ▸ less))
      inOrder := (List.Sublist.append (List.Sublist.refl h.started) fewer).trans fair.inOrder
      known := fun a member => ?_
      apart := fun a member inside => ?_ }
  · rcases mem_append.mp member with before | now
    · exact fair.known a before
    · exact fair.inOrder.subset (mem_append_right _ (waited a now))
  · rcases mem_append.mp member with before | now
    · rcases mem_append.mp inside with started | waits
      · exact fair.apart a before (mem_append_left _ started)
      · exact fair.apart a before (mem_append_right _ (fewer.subset waits))
    · rcases mem_append.mp inside with started | waits
      · exact disjoint_of_nodup_append order started (waited a now)
      · exact out a now waits

theorem running_pos (held : slot ∈ h.held) : q.running ≠ 0 := by
  have some_ := length_pos_of_mem held
  rw [fair.counted]
  omega

end

end Fair

namespace Lanes
variable {l : Lanes} {lane other : Lane} {q : Queue}

@[simp] theorem queue_put : (l.put lane q).queue lane = q := by cases lane <;> rfl

theorem queue_put_of_ne (apart : other ≠ lane) : (l.put lane q).queue other = l.queue other := by
  cases lane <;> cases other <;> first | rfl | exact absurd rfl apart

@[simp] theorem next_put : (l.put lane q).next = l.next := by cases lane <;> rfl

theorem filter_of_absent {waiting : List (Ticket × Nat)} {t : Ticket}
    (same : (waiting.filter fun entry => entry.1 ≠ t).length = waiting.length) :
    waiting.filter (fun entry => entry.1 ≠ t) = waiting :=
  filter_sublist.eq_of_length same

theorem mem_of_found {waiting : List (Ticket × Nat)} {t : Ticket}
    (found : (waiting.filter fun entry => entry.1 ≠ t).length ≠ waiting.length) : t ∈ waiting.map Prod.fst := by
  by_contra absent
  refine found (congrArg List.length (filter_eq_self.mpr fun entry member => ?_))
  exact decide_eq_true fun same => absent (mem_map.mpr ⟨entry, member, same⟩)

end Lanes

/-- What one call can do to its lane, where `next` tickets were given out. -/
inductive Turn (next : Nat) (q : Queue) (h : History) : Nat → Queue → History → Prop where
  | idle : Turn next q h next q h
  | run (free : q.running < q.limit) :
      Turn next q h (next + 1) { q with running := q.running + 1 }
        { h with entered := h.entered ++ [⟨next + 1⟩], started := h.started ++ [⟨next + 1⟩],
                 held := h.held ++ [⟨next + 1⟩] }
  | wait (full : ¬ q.running < q.limit) (now : Nat) :
      Turn next q h (next + 1) { q with waiting := q.waiting ++ [(⟨next + 1⟩, now)] }
        { h with entered := h.entered ++ [⟨next + 1⟩] }
  | pass {slot t : Ticket} {since : Nat} {rest : List (Ticket × Nat)} (oldest : q.waiting = (t, since) :: rest)
      (held : slot ∈ h.held) :
      Turn next q h next { q with waiting := rest }
        { h with started := h.started ++ [t], held := h.held.erase slot ++ [t] }
  | release {slot : Ticket} (empty : q.waiting = []) (held : slot ∈ h.held) :
      Turn next q h next { q with running := q.running - 1 } { h with held := h.held.erase slot }
  | remove {waiting : List (Ticket × Nat)} {removed : List Ticket} (less : waiting.Sublist q.waiting)
      (waited : ∀ t ∈ removed, t ∈ q.tickets)
      (out : q.tickets.Nodup → ∀ t ∈ removed, t ∉ waiting.map Prod.fst) :
      Turn next q h next { q with waiting := waiting } { h with gone := h.gone ++ removed }

theorem Fair.turn {limit next next' : Nat} {q q' : Queue} {h h' : History} (fair : Fair limit q h)
    (turn : Turn next q h next' q' h') (issued : ∀ t ∈ h.entered, t.number ≤ next) : Fair limit q' h' := by
  have new : (⟨next + 1⟩ : Ticket) ∉ h.entered := fun member => Nat.not_succ_le_self next (issued _ member)
  cases turn with
  | idle => exact fair
  | run free => exact fair.run free new
  | wait full now => exact fair.wait full new now
  | pass oldest held => exact fair.pass oldest held
  | release empty held => exact fair.release empty held
  | remove less waited out =>
    exact fair.remove less waited (out (List.Nodup.of_append_right (fair.distinct.sublist fair.inOrder)))

theorem Turn.entered {next next' : Nat} {q q' : Queue} {h h' : History} (turn : Turn next q h next' q' h') :
    next ≤ next' ∧ ∀ t ∈ h'.entered, t ∈ h.entered ∨ t.number = next + 1 ∧ next' = next + 1 := by
  cases turn with
  | run _ | wait _ _ =>
    refine ⟨Nat.le_succ next, fun t member => ?_⟩
    rcases mem_append.mp member with before | last
    · exact .inl before
    · exact .inr ⟨congrArg Ticket.number (mem_singleton.mp last), rfl⟩
  | idle => exact ⟨Nat.le_refl next, fun t member => .inl member⟩
  | pass _ _ => exact ⟨Nat.le_refl next, fun t member => .inl member⟩
  | release _ _ => exact ⟨Nat.le_refl next, fun t member => .inl member⟩
  | remove => exact ⟨Nat.le_refl next, fun t member => .inl member⟩

namespace World
variable {w : World} {lane other : Lane} {limits : Lane → Nat}

@[simp] theorem history_note {lanes : Lanes} {edit : History → History} :
    (w.note lanes lane edit).history lane = edit (w.history lane) := Function.update_self ..

theorem history_note_of_ne {lanes : Lanes} {edit : History → History} (apart : other ≠ lane) :
    (w.note lanes lane edit).history other = w.history other := Function.update_of_ne apart ..

/-- What holds of the lanes in every state their callers can bring them to. -/
structure Sound (limits : Lane → Nat) (w : World) : Prop where
  fair (lane : Lane) : Fair (limits lane) (w.lanes.queue lane) (w.history lane)
  issued (lane : Lane) : ∀ t ∈ (w.history lane).entered, t.number ≤ w.lanes.next
  separate : ∀ t ∈ (w.history .main).entered, t ∉ (w.history .bridge).entered

theorem step_frame (w : World) (move : Move) (apart : other ≠ move.lane) :
    (w.step move).lanes.queue other = w.lanes.queue other ∧ (w.step move).history other = w.history other := by
  cases move with
  | enter lane now =>
    simp only [step, Lanes.enter]
    split
    all_goals
      rename_i same
      split at same
      all_goals cases same
      all_goals exact ⟨Lanes.queue_put_of_ne apart, history_note_of_ne apart⟩
  | leave slot =>
    simp only [step]
    split
    · simp only [Lanes.leave]
      split
      · exact ⟨rfl, rfl⟩
      rename_i same
      split at same
      · cases same
        exact ⟨Lanes.queue_put_of_ne apart, history_note_of_ne apart⟩
      split at same
      · cases same
      · cases same
        exact ⟨Lanes.queue_put_of_ne apart, history_note_of_ne apart⟩
    · exact ⟨rfl, rfl⟩
  | withdraw lane ticket => exact ⟨Lanes.queue_put_of_ne apart, history_note_of_ne apart⟩
  | expire now =>
    simp only [step, Lanes.expire]
    exact ⟨Lanes.queue_put_of_ne apart, history_note_of_ne apart⟩

theorem step_turn (w : World) (move : Move) :
    Turn w.lanes.next (w.lanes.queue move.lane) (w.history move.lane) (w.step move).lanes.next
      ((w.step move).lanes.queue move.lane) ((w.step move).history move.lane) := by
  have same : Turn w.lanes.next (w.lanes.queue move.lane) (w.history move.lane) w.lanes.next
      (w.lanes.queue move.lane) (w.history move.lane) := .idle
  cases move with
  | enter lane now =>
    have queue : ({ w.lanes with next := w.lanes.next + 1 } : Lanes).queue lane = w.lanes.queue lane := by
      cases lane <;> rfl
    by_cases free : (w.lanes.queue lane).running < (w.lanes.queue lane).limit
    · simp only [step, Lanes.enter, queue, if_pos free, Move.lane, history_note]
      simp only [note, Lanes.queue_put, Lanes.next_put]
      exact .run free
    · simp only [step, Lanes.enter, queue, if_neg free, Move.lane, history_note]
      simp only [note, Lanes.queue_put, Lanes.next_put]
      exact .wait free now
  | leave slot =>
    simp only [step, Move.lane] at same ⊢
    by_cases held : slot.ticket ∈ (w.history slot.lane).held
    · rw [if_pos held]
      cases waits : (w.lanes.queue slot.lane).waiting with
      | cons oldest rest =>
        simp only [Lanes.leave, waits, history_note]
        simp only [note, Lanes.queue_put, Lanes.next_put]
        exact .pass waits held
      | nil =>
        by_cases zero : (w.lanes.queue slot.lane).running = 0
        · simpa only [Lanes.leave, waits, if_pos zero] using same
        simp only [Lanes.leave, waits, if_neg zero, history_note]
        simp only [note, Lanes.queue_put, Lanes.next_put, Option.map_none, Option.toList_none, append_nil]
        have freed : Turn w.lanes.next _ _ _ _ _ := .release waits held
        rwa [waits] at freed
    · rwa [if_neg held]
  | withdraw lane ticket =>
    simp only [step, Lanes.withdraw, Move.lane, history_note]
    simp only [note, Lanes.queue_put, Lanes.next_put, decide_eq_true_eq]
    split
    · rename_i found
      refine .remove filter_sublist (fun t member => ?_) (fun _ t member => ?_)
      · rw [mem_singleton.mp member]
        exact Lanes.mem_of_found found
      · rw [mem_singleton.mp member]
        simp
    · rename_i absent
      rw [Lanes.filter_of_absent (Decidable.not_not.mp absent)]
      exact same
  | expire now =>
    simp only [step, Lanes.expire, Move.lane, history_note]
    have whole := takeWhile_append_dropWhile (p := Lanes.overdue now) (l := w.lanes.bridge.waiting)
    refine .remove (dropWhile_sublist _) (fun t member => ?_) (fun distinct t member => ?_)
    · exact ((takeWhile_sublist _).map Prod.fst).subset member
    · rw [Queue.tickets, Lanes.queue, ← whole, map_append] at distinct
      exact disjoint_of_nodup_append distinct member

theorem Sound.step (sound : Sound limits w) (move : Move) : Sound limits (w.step move) := by
  have turn := step_turn w move
  obtain ⟨grows, entered⟩ := turn.entered
  have frame (lane : Lane) (apart : lane ≠ move.lane) := step_frame w move apart
  have issued (lane : Lane) : ∀ t ∈ ((w.step move).history lane).entered,
      t ∈ (w.history lane).entered ∨ t.number = w.lanes.next + 1 ∧ (w.step move).lanes.next = w.lanes.next + 1 := by
    by_cases same : lane = move.lane
    · rw [same]
      exact entered
    · rw [(frame lane same).2]
      exact fun t member => .inl member
  refine ⟨fun lane => ?_, fun lane t member => ?_, fun t main bridge => ?_⟩
  · by_cases same : lane = move.lane
    · rw [same]
      exact (sound.fair move.lane).turn turn (sound.issued move.lane)
    · rw [(frame lane same).1, (frame lane same).2]
      exact sound.fair lane
  · rcases issued lane t member with before | ⟨last, next⟩
    · exact Nat.le_trans (sound.issued lane t before) grows
    · omega
  · -- only one lane can have got a new ticket
    have once (lane other : Lane) (apart : lane ≠ other) (here : t ∈ ((w.step move).history lane).entered)
        (there : t ∈ ((w.step move).history other).entered) :
        t ∈ (w.history lane).entered ∧ t ∈ (w.history other).entered := by
      by_cases same : lane = move.lane
      · have before : t ∈ (w.history other).entered := by
          rwa [(frame other fun equal => apart (same.trans equal.symm)).2] at there
        rcases issued lane t here with old | ⟨new, -⟩
        · exact ⟨old, before⟩
        · have bound := sound.issued other t before
          omega
      · have before : t ∈ (w.history lane).entered := by rwa [(frame lane same).2] at here
        rcases issued other t there with old | ⟨new, -⟩
        · exact ⟨before, old⟩
        · have bound := sound.issued lane t before
          omega
    obtain ⟨old, old'⟩ := once .main .bridge (by decide) main bridge
    exact sound.separate t old old'

def limitOf (main bridge : Nat) : Lane → Nat
  | .main => main
  | .bridge => bridge

theorem start_sound (main bridge : Nat) : Sound (limitOf main bridge) (start main bridge) where
  fair lane := by cases lane <;> exact .fresh
  issued _ _ member := by cases member
  separate _ member := by cases member

theorem run_sound (sound : Sound limits w) (moves : List Move) : Sound limits (run step moves w) :=
  run_invariant step (fun _ => True) (Sound limits) (fun _ move _ sound => sound.step move) (fun _ _ => trivial) sound

end World

/-- After any calls: a lane runs at most its limit, and all of it where a call waits; its calls started in the order
they entered, once each; and the other lane is unmoved. -/
theorem lanes_fair (main bridge : Nat) (moves : List Move) (lane other : Lane) :
    let w := run World.step moves (World.start main bridge)
    Fair (World.limitOf main bridge lane) (w.lanes.queue lane) (w.history lane) ∧
      (lane ≠ other → ∀ t ∈ (w.history lane).entered, t ∉ (w.history other).entered) ∧
      (∀ t ∈ (w.history lane).held, (w.lanes.leave ⟨lane, t⟩).isSome) ∧
      ∀ move : Move, lane ≠ move.lane →
        (w.step move).lanes.queue lane = w.lanes.queue lane ∧ (w.step move).history lane = w.history lane := by
  intro w
  have sound := World.run_sound (World.start_sound main bridge) moves
  have fair := sound.fair lane
  refine ⟨fair, fun apart t here there => ?_, fun t held => ?_, fun move apart => World.step_frame w move apart⟩
  · cases lane with
    | main =>
      cases other with
      | main => exact apart rfl
      | bridge => exact sound.separate t here there
    | bridge =>
      cases other with
      | main => exact sound.separate t there here
      | bridge => exact apart rfl
  · have running := fair.running_pos held
    cases waits : (w.lanes.queue lane).waiting with
    | cons oldest rest => simp [Lanes.leave, waits]
    | nil => simpa only [Lanes.leave, waits] using by rw [if_neg running]; rfl

end Agent24.Provider.Budget
