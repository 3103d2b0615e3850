import Agent24.Library.Runs
import Agent24.Library.Table
import Agent24.Memory.Assertion

/-! The symbolic task trace: bodies by their content, and a node for each step of a run. -/

set_option autoImplicit false
namespace Agent24.Memory
open Library

structure TraceNode where
  nodeId : String
  owner : String
  runId : String
  seq : Int
  kind : String
  symbol : String
  refId : String
  deriving DecidableEq

structure TraceRef where
  scopeOwner : String
  refId : String
  body : String

def TraceNode.key (node : TraceNode) : String × String × Int := (node.owner, node.runId, node.seq)
def TraceRef.key (ref : TraceRef) : String × String := (ref.scopeOwner, ref.refId)

structure TraceTables where
  refs : Table TraceRef.key
  nodes : Table TraceNode.key

/-- The arguments of a `record`, and what its disk check sees. -/
structure TraceCall where
  owner : String
  runId : String
  seq : Int
  kind : String
  symbol : String
  body : String
  disk : Option DiskSample

section
variable (P : Platform)

def traceRef (body : String) : String := "ref-" ++ Text.take 32 (P.checksum body)

def TraceCall.node (call : TraceCall) : TraceNode where
  nodeId := "node-" ++ Text.take 32 (P.checksum (call.owner ++ "\x00" ++ call.runId)) ++ "-" ++ toString call.seq
  owner := call.owner
  runId := call.runId
  seq := call.seq
  kind := call.kind
  symbol := call.symbol
  refId := traceRef P call.body

/-- `SymbolicTrace::record`. -/
def recordTrace (call : TraceCall) (t : TraceTables) : Except MemoryError (TraceNode × TraceTables) :=
  let node := call.node P
  if diskRefuses .content call.disk then .error .diskLow
  else if sqliteBlank [' '] call.owner || sqliteBlank [' '] call.runId || decide (call.seq < 0) then
    .error (.sqlx .checkFailed)
  -- the unique index on node handles
  else if t.nodes.rows.any fun other =>
      other.owner == node.owner && other.nodeId == node.nodeId && decide (other.key ≠ node.key) then
    .error (.sqlx .uniqueFailed)
  else
    let refs := match t.refs.find (call.owner, node.refId) with
      | some _ => t.refs
      | none => t.refs.put ⟨call.owner, node.refId, call.body⟩
    .ok (node, ⟨refs, t.nodes.put node⟩)

def TraceTables.symbols (owner runId : String) (t : TraceTables) : List TraceNode :=
  (t.nodes.rows.filter fun node => node.owner == owner && node.runId == runId).insertionSort
    fun a b => a.seq ≤ b.seq

/-- `SymbolicTrace::expand_run`: a join with the refs. -/
def TraceTables.expandRun (owner runId : String) (t : TraceTables) : List String :=
  (t.symbols owner runId).filterMap fun node => (t.refs.find (node.owner, node.refId)).map TraceRef.body

def traceStep (s : TraceTables × List TraceCall) (call : TraceCall) : TraceTables × List TraceCall :=
  match recordTrace P call s.1 with
  | .ok (_, t) => (t, s.2 ++ [call])
  | .error _ => s

def lastCall (calls : List TraceCall) (key : String × String × Int) : Option TraceCall :=
  calls.reverse.find? fun call => decide ((call.owner, call.runId, call.seq) = key)

structure Traced (s : TraceTables × List TraceCall) : Prop where
  nodes : ∀ key, s.1.nodes.find key = (lastCall s.2 key).map (TraceCall.node P)
  refs : ∀ key, s.1.refs.find key =
    (s.2.find? fun call => decide ((call.owner, traceRef P call.body) = key)).map fun call =>
      ⟨call.owner, traceRef P call.body, call.body⟩

variable {P} {s : TraceTables × List TraceCall}

theorem lastCall_append (calls : List TraceCall) (call : TraceCall) (key : String × String × Int) :
    lastCall (calls ++ [call]) key =
      if key = (call.owner, call.runId, call.seq) then some call else lastCall calls key := by
  by_cases here : key = (call.owner, call.runId, call.seq)
  · simp [lastCall, here]
  · simp [lastCall, here, Ne.symm here]

theorem traceStep_cases (call : TraceCall) : traceStep P s call = s ∨
    ∃ refs : Table TraceRef.key, traceStep P s call = (⟨refs, s.1.nodes.put (call.node P)⟩, s.2 ++ [call]) ∧
      (s.1.refs.find (call.owner, traceRef P call.body) = none ∧
          refs = s.1.refs.put ⟨call.owner, traceRef P call.body, call.body⟩ ∨
        (s.1.refs.find (call.owner, traceRef P call.body)).isSome ∧ refs = s.1.refs) := by
  unfold traceStep
  split
  case h_2 => exact .inl rfl
  rename_i node t done
  unfold recordTrace at done
  dsimp only at done
  split at done
  · cases done
  split at done
  · cases done
  split at done
  · cases done
  cases done
  refine .inr ⟨_, rfl, ?_⟩
  cases stored : s.1.refs.find (call.owner, (call.node P).refId) with
  | none => exact .inl ⟨stored, rfl⟩
  | some row => exact .inr ⟨Option.isSome_iff_exists.mpr ⟨row, stored⟩, rfl⟩

theorem Traced.step (traced : Traced P s) (call : TraceCall) : Traced P (traceStep P s call) := by
  rcases traceStep_cases (s := s) call with same | ⟨refs, done, put⟩
  · rw [same]
    exact traced
  rw [done]
  refine ⟨fun key => ?_, fun key => ?_⟩
  · rw [Table.find_put, lastCall_append, traced.nodes]
    exact (apply_ite (Option.map (TraceCall.node P)) _ (some call) _).symm
  · have before := traced.refs key
    rw [List.find?_append, List.find?_singleton]
    rcases put with ⟨absent, rfl⟩ | ⟨present, rfl⟩
    · rw [Table.find_put]
      by_cases here : key = (call.owner, traceRef P call.body)
      · subst here
        rw [absent] at before
        rw [Option.map_eq_none_iff.mp before.symm]
        simp [TraceRef.key]
      · simp [TraceRef.key, here, Ne.symm here, before]
    · by_cases here : key = (call.owner, traceRef P call.body)
      · subst here
        rw [before, Option.isSome_map] at present
        obtain ⟨first, found⟩ := Option.isSome_iff_exists.mp present
        rw [before, found]
        rfl
      · rw [before]
        simp [Ne.symm here]

theorem traced_run (calls : List TraceCall) (s : TraceTables × List TraceCall) (traced : Traced P s) :
    Traced P (run (traceStep P) calls s) ∧ ∀ call ∈ (run (traceStep P) calls s).2, call ∈ s.2 ∨ call ∈ calls := by
  induction calls generalizing s with
  | nil => exact ⟨traced, fun _ => .inl⟩
  | cons call rest ih =>
    obtain ⟨final, listed⟩ := ih _ (traced.step call)
    refine ⟨final, fun other member => ?_⟩
    rcases listed other member with recorded | later
    · rcases traceStep_cases (P := P) (s := s) call with same | ⟨refs, done, -⟩
      · exact .inl (same ▸ recorded)
      · rw [done, List.mem_append, List.mem_singleton] at recorded
        rcases recorded with old | rfl
        · exact .inl old
        · exact .inr (List.mem_cons_self ..)
    · exact .inr (List.mem_cons_of_mem _ later)

theorem map_some_filterMap {α β : Type} {f : α → Option β} {l : List α} (all : ∀ a ∈ l, (f a).isSome) :
    (l.filterMap f).map some = l.map f := by
  induction l with
  | nil => rfl
  | cons a rest ih =>
    obtain ⟨b, here⟩ := Option.isSome_iff_exists.mp (all a (List.mem_cons_self ..))
    rw [List.filterMap_cons_some here, List.map_cons, List.map_cons, here, ih fun a member => all a (.tail _ member)]

theorem lastCall_mem {calls : List TraceCall} {key : String × String × Int} {call : TraceCall}
    (found : lastCall calls key = some call) : call ∈ calls ∧ (call.owner, call.runId, call.seq) = key := by
  unfold lastCall at found
  have same := List.find?_some found
  exact ⟨List.mem_reverse.mp (List.mem_of_find?_eq_some found), of_decide_eq_true same⟩

theorem lastCall_of_mem {calls : List TraceCall} {call : TraceCall} (member : call ∈ calls) :
    ∃ last, lastCall calls (call.owner, call.runId, call.seq) = some last := by
  rw [← Option.isSome_iff_exists, lastCall, List.find?_isSome]
  exact ⟨call, List.mem_reverse.mpr member, decide_eq_true rfl⟩

/-- A run expands to one body for each of its recorded steps, in their order, the one recorded last, and to nothing
of another run. -/
theorem expandRun_exact (P : Platform) (calls : List TraceCall) (owner runId : String)
    (collisionFree : ∀ a ∈ calls, ∀ b ∈ calls, traceRef P a.body = traceRef P b.body → a.body = b.body) :
    let s := run (traceStep P) calls (⟨.empty, .empty⟩, [])
    ∃ seqs : List Int, seqs.Pairwise (· < ·) ∧
      (∀ seq, seq ∈ seqs ↔ ∃ call ∈ s.2, call.owner = owner ∧ call.runId = runId ∧ call.seq = seq) ∧
      (s.1.expandRun owner runId).map some =
        seqs.map fun seq => (lastCall s.2 (owner, runId, seq)).map TraceCall.body := by
  obtain ⟨traced, listed⟩ := traced_run (P := P) calls (⟨.empty, .empty⟩, []) ⟨fun _ => rfl, fun _ => rfl⟩
  intro s
  change Traced P s at traced
  have called : ∀ call ∈ s.2, call ∈ calls := fun call member => (listed call member).resolve_left List.not_mem_nil
  have inside (node : TraceNode) : node ∈ s.1.symbols owner runId ↔
      ∃ call, lastCall s.2 (owner, runId, node.seq) = some call ∧ call.node P = node := by
    rw [← Option.map_eq_some_iff, ← traced.nodes, Table.find_eq_some]
    simp [TraceTables.symbols, TraceNode.key, and_comm]
  refine ⟨(s.1.symbols owner runId).map TraceNode.seq, ?_, fun seq => ?_, ?_⟩
  · have sorted := List.pairwise_insertionSort (fun a b : TraceNode => a.seq ≤ b.seq)
      (s.1.nodes.rows.filter fun node => node.owner == owner && node.runId == runId)
    have distinct : ((s.1.symbols owner runId).map TraceNode.seq).Nodup := by
      refine List.Nodup.map_on ?_ ((List.perm_insertionSort _ _).nodup_iff.mpr (s.1.nodes.distinct.of_map.filter _))
      intro a listedA b listedB same
      obtain ⟨call, found, rfl⟩ := (inside a).mp listedA
      obtain ⟨other, found', rfl⟩ := (inside b).mp listedB
      rw [← same, found] at found'
      cases found'
      rfl
    exact ((List.pairwise_map.mpr sorted).and distinct).imp fun both => lt_of_le_of_ne both.1 both.2
  · rw [List.mem_map]
    constructor
    · rintro ⟨node, member, rfl⟩
      obtain ⟨call, found, rfl⟩ := (inside node).mp member
      obtain ⟨recorded, same⟩ := lastCall_mem found
      simp only [Prod.mk.injEq] at same
      exact ⟨call, recorded, same⟩
    · rintro ⟨call, recorded, rfl, rfl, rfl⟩
      obtain ⟨last, found⟩ := lastCall_of_mem recorded
      have same : last.seq = call.seq := congrArg (·.2.2) (lastCall_mem found).2
      rw [← same] at found
      exact ⟨last.node P, (inside _).mpr ⟨last, found, rfl⟩, same⟩
  · have bodies : ∀ node ∈ s.1.symbols owner runId, (s.1.refs.find (node.owner, node.refId)).map TraceRef.body =
        (lastCall s.2 (owner, runId, node.seq)).map TraceCall.body := by
      intro node member
      obtain ⟨call, found, rfl⟩ := (inside node).mp member
      have recorded := (lastCall_mem found).1
      rw [traced.refs, found]
      cases first : s.2.find? fun other => decide ((other.owner, traceRef P other.body) =
          ((call.node P).owner, (call.node P).refId)) with
      | none => exact absurd (decide_eq_true rfl) (List.find?_eq_none.mp first call recorded)
      | some other =>
        have same := List.find?_some first
        rw [decide_eq_true_eq] at same
        have first := called _ (List.mem_of_find?_eq_some first)
        exact congrArg some (collisionFree _ first _ (called _ recorded) (Prod.mk.inj same).2)
    rw [TraceTables.expandRun, map_some_filterMap, List.map_map]
    · exact List.map_congr_left bodies
    · intro node member
      obtain ⟨call, found, -⟩ := (inside node).mp member
      rw [bodies node member, found]
      rfl

/-- A step recorded twice. -/
theorem step_rerecorded :
    let P := Platform.ofDigests [("a", -1)]
    let s := run (traceStep P) [⟨"o", "r", 0, "tool", "", "a", none⟩, ⟨"o", "r", 0, "tool", "", "b", none⟩]
      (⟨.empty, .empty⟩, [])
    ∃ seqs : List Int, seqs.Pairwise (· < ·) ∧
      (∀ seq, seq ∈ seqs ↔ ∃ call ∈ s.2, call.owner = "o" ∧ call.runId = "r" ∧ call.seq = seq) ∧
      (s.1.expandRun "o" "r").map some =
        seqs.map fun seq => (lastCall s.2 ("o", "r", seq)).map TraceCall.body :=
  expandRun_exact _ _ "o" "r" (by decide +kernel)

end
end Agent24.Memory
