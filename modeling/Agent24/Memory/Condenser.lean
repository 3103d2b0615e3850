import Agent24.Memory.Session

/-! Condensers: bounded views of an unbounded history, none of whose messages is lost. -/

set_option autoImplicit false
namespace Agent24.Memory
open List
open Agent24.Agent (Msg)

structure ContextFragment where
  msg : Msg
  source : List Nat
  reason : String

structure ContextProjection where
  fragments : List ContextFragment
  folded : List Nat
  tokensEstimated : Nat

def ContextProjection.covers (view : ContextProjection) (n : Nat) : Bool :=
  let all := (view.fragments.flatMap ContextFragment.source ++ view.folded).insertionSort (· ≤ ·)
  all == List.range n

def isTool (msg : Msg) : Bool := msg.role == "tool"

section
variable (est : List Msg → Nat) (budget : Nat) (history : List Msg)

/-- The tail grows by one older message at a time while it fits, and holds the newest in any case. -/
def grow : Nat → Nat
  | 0 => 0
  | cand + 1 =>
    if cand + 1 < history.length ∧ budget < est (history.drop cand) then cand + 1 else grow cand

/-- Back past answers to tool calls, to the message they answer. -/
def retreat : Nat → Nat
  | 0 => 0
  | start + 1 => if history[start + 1]?.any isTool then retreat start else start + 1

def tailStart : Nat :=
  let start := grow est budget history history.length
  let adv := start + ((history.drop start).takeWhile isTool).length
  if adv < history.length then adv else retreat history start

def recentFragments (start : Nat) : List ContextFragment :=
  ((history.drop start).zipIdx start).map fun item => ⟨item.1, [item.2], "recent"⟩

/-- `RecentWindowCondenser::condense`. -/
def recentWindow : Except String ContextProjection :=
  let start := tailStart est budget history
  .ok ⟨recentFragments history start, List.range start, est (history.drop start)⟩

/-- `LlmSummaryCondenser::condense`. -/
def llmSummary (summarizer : Summarizer) : Except String ContextProjection := do
  let reserve := budget / 4
  let start := tailStart est (budget - reserve) history
  let head ← if 0 < start then do
      let summary ← summarizer none (history.take start)
      pure [ContextFragment.mk ⟨"system", some ("Summary of earlier conversation:\n" ++ summary), [], none⟩
        (List.range start) "summary"]
    else pure []
  let fragments := head ++ recentFragments history start
  pure ⟨fragments, [], est (fragments.map ContextFragment.msg)⟩

def ContextProjection.tail (view : ContextProjection) : List Msg :=
  (view.fragments.filter fun fragment => fragment.reason == "recent").map ContextFragment.msg

def Indivisible (tail : List Msg) : Prop :=
  ∃ first answers, tail = first :: answers ∧ ∀ msg ∈ answers, isTool msg = true

structure Valid (view : ContextProjection) : Prop where
  covers : view.covers history.length = true
  newest : view.tail.getLast? = history.getLast?
  headed : ∀ first ∈ view.tail.head?, isTool first = false
  bounded : est view.tail ≤ budget ∨ Indivisible view.tail

variable {est budget history}

theorem grow_le (start : Nat) : grow est budget history start ≤ start := by
  induction start with
  | zero => rfl
  | succ cand ih =>
    unfold grow
    split
    · rfl
    · omega

/-- Each shorter tail was tried before, down to the newest message. -/
theorem grow_fits {start k : Nat} (from_start : grow est budget history start ≤ k) (below : k < start)
    (more : k + 1 < history.length) : est (history.drop k) ≤ budget := by
  induction start with
  | zero => omega
  | succ cand ih =>
    unfold grow at from_start
    split at from_start
    · omega
    next fits =>
    rcases Nat.lt_succ_iff_lt_or_eq.mp below with lower | rfl
    · exact ih from_start lower
    · exact Nat.le_of_not_lt fun large => fits ⟨more, large⟩

theorem grow_lt (some_msg : history ≠ []) : grow est budget history history.length < history.length := by
  have positive := length_pos_iff.mpr some_msg
  obtain ⟨cand, length⟩ := Nat.exists_eq_succ_of_ne_zero positive.ne'
  rw [length]
  unfold grow
  rw [if_neg (by omega)]
  exact Nat.lt_succ_of_le (grow_le cand)

theorem retreat_le (start : Nat) : retreat history start ≤ start := by
  induction start with
  | zero => rfl
  | succ start ih =>
    unfold retreat
    split
    · omega
    · rfl

theorem retreat_tools {start k : Nat} (above : retreat history start < k) (upto : k ≤ start) :
    history[k]?.any isTool = true := by
  induction start with
  | zero => omega
  | succ start ih =>
    unfold retreat at above
    split at above
    · next tool =>
      rcases Nat.le_succ_iff.mp upto with lower | rfl
      · exact ih above lower
      · exact tool
    · omega

theorem retreat_stops (start : Nat) : retreat history start = 0 ∨
    history[retreat history start]?.any isTool = false := by
  induction start with
  | zero => exact .inl rfl
  | succ start ih =>
    unfold retreat
    split
    · exact ih
    · next stops => exact .inr (by simpa using stops)

/-- The kept tail starts with a message that is no answer, and is within the budget or cannot be split. -/
theorem tailStart_spec (some_msg : history ≠ []) (begins : ∀ first ∈ history.head?, isTool first = false) :
    ∃ first answers, history.drop (tailStart est budget history) = first :: answers ∧ isTool first = false ∧
      (est (first :: answers) ≤ budget ∨ ∀ msg ∈ answers, isTool msg = true) := by
  have tools := RollingSession.drop_takeWhile isTool (history.drop (grow est budget history history.length))
  have begun : grow est budget history history.length < _ := grow_lt some_msg
  unfold tailStart
  generalize starts : grow est budget history history.length = start at tools begun ⊢
  rw [drop_drop] at tools
  dsimp only
  split
  · next within =>
    refine ⟨_, _, drop_eq_getElem_cons within, ?_, ?_⟩
    · have stopped := List.head?_dropWhile_not isTool (history.drop start)
      rw [← tools, drop_eq_getElem_cons within] at stopped
      exact stopped
    · rw [← drop_eq_getElem_cons within]
      by_cases more : start + ((history.drop start).takeWhile isTool).length + 1 < history.length
      · exact .inl (grow_fits (by omega) within more)
      · rw [drop_eq_nil_of_le (Nat.le_of_not_lt more)]
        exact .inr (forall_mem_nil _)
  next whole =>
  have all_tools : ∀ k, start ≤ k → ∀ msg ∈ history[k]?, isTool msg = true := by
    intro k above msg found
    rw [drop_eq_nil_of_le (by omega)] at tools
    have member : msg ∈ history.drop start := by
      refine mem_iff_getElem?.mpr ⟨k - start, ?_⟩
      rw [List.getElem?_drop, Nat.add_sub_cancel' above]
      exact found
    exact dropWhile_eq_nil_iff.mp tools.symm msg member
  have within : retreat history start < history.length := lt_of_le_of_lt (retreat_le start) begun
  refine ⟨_, _, drop_eq_getElem_cons within, ?_, .inr ?_⟩
  · rcases (retreat_stops start : retreat history start = 0 ∨ _) with zero | stops
    · apply begins
      simp only [zero, List.head?_eq_getElem?]
      exact List.getElem?_eq_getElem _
    · simpa [List.getElem?_eq_getElem within] using stops
  · intro msg member
    obtain ⟨i, found⟩ := mem_iff_getElem?.mp member
    rw [List.getElem?_drop] at found
    rcases Nat.le_total start (retreat history start + 1 + i) with above | below
    · exact all_tools _ above msg found
    · have tool : history[retreat history start + 1 + i]?.any isTool = true := retreat_tools (by omega) below
      rw [found] at tool
      simpa using tool

theorem covers_of_perm {view : ContextProjection} {n : Nat}
    (exact : (view.fragments.flatMap ContextFragment.source ++ view.folded).Perm (List.range n)) :
    view.covers n = true := by
  rw [ContextProjection.covers, beq_iff_eq]
  exact ((perm_insertionSort _ _).trans exact).eq_of_pairwise' (pairwise_insertionSort _ _)
    pairwise_le_range

/-- A view of the tail behind a head that stands for, or hides, everything before it. -/
theorem valid_of_tail {budget' : Nat} (some_msg : history ≠ [])
    (begins : ∀ first ∈ history.head?, isTool first = false) (less : budget' ≤ budget)
    {head : List ContextFragment} {folded : List Nat} {tokens : Nat}
    (summarized : ∀ fragment ∈ head, fragment.reason ≠ "recent")
    (stands : head.flatMap ContextFragment.source ++ folded = List.range (tailStart est budget' history)) :
    Valid est budget history ⟨head ++ recentFragments history (tailStart est budget' history), folded, tokens⟩ := by
  obtain ⟨first, answers, kept, begun, fits⟩ : ∃ first answers, history.drop (tailStart est budget' history) = _ ∧
      _ :=
    tailStart_spec some_msg begins
  generalize tailStart est budget' history = start at stands kept ⊢
  have within : start ≤ history.length := by
    by_contra beyond
    rw [drop_eq_nil_of_le (by omega)] at kept
    cases kept
  have tail : ContextProjection.tail ⟨head ++ recentFragments history start, folded, tokens⟩ = first :: answers := by
    have hidden : head.filter (fun fragment => fragment.reason == "recent") = [] := by
      simpa [filter_eq_nil_iff] using summarized
    have shown : (recentFragments history start).filter (fun fragment => fragment.reason == "recent") =
        recentFragments history start := by
      simp [recentFragments, filter_map, Function.comp_def]
    rw [ContextProjection.tail, filter_append, hidden, shown, nil_append, recentFragments, map_map,
        ← kept]
    exact zipIdx_map_fst start _
  have sources : (recentFragments history start).flatMap ContextFragment.source =
      List.range' start (history.length - start) := by
    rw [recentFragments, flatMap_map, ← length_drop, ← zipIdx_map_snd, map_eq_flatMap]
  refine ⟨covers_of_perm ?_, ?_, ?_, ?_⟩
  · rw [flatMap_append, sources, append_assoc]
    refine (perm_append_comm.append_left _).trans ?_
    have whole := List.range'_append_1 (s := 0) (m := start) (n := history.length - start)
    rw [Nat.zero_add, Nat.add_sub_cancel' within, ← range_eq_range', ← range_eq_range'] at whole
    rw [← append_assoc, stands, whole]
  · rw [tail, ← kept, List.getLast?_drop, if_neg]
    intro short
    rw [drop_eq_nil_of_le short] at kept
    cases kept
  · rw [tail]
    rintro _ ⟨⟩
    exact begun
  · rw [tail]
    exact fits.imp (fun fit => fit.trans less) fun answered => ⟨first, answers, rfl, answered⟩

/-- Each condenser answers every history with a valid view, whatever the estimator and the budget. -/
theorem condensers_valid (est : List Msg → Nat) (budget : Nat) (summarizer : Summarizer) (history : List Msg)
    (some_msg : history ≠ []) (begins : ∀ first ∈ history.head?, isTool first = false) :
    (∃ view, recentWindow est budget history = .ok view ∧ Valid est budget history view) ∧
    ((∃ view, llmSummary est budget history summarizer = .ok view ∧ Valid est budget history view) ∨
      ∃ start error, summarizer none (history.take start) = .error error ∧
        llmSummary est budget history summarizer = .error error) := by
  refine ⟨⟨_, rfl, ?_⟩, ?_⟩
  · exact @valid_of_tail _ _ _ _ some_msg begins (le_refl budget) [] _ _ (forall_mem_nil _) rfl
  dsimp only [llmSummary]
  have less := Nat.sub_le budget (budget / 4)
  split
  · cases asked : summarizer none (history.take (tailStart est (budget - budget / 4) history)) with
    | error error => exact .inr ⟨_, error, asked, rfl⟩
    | ok summary =>
      refine .inl ⟨_, rfl, valid_of_tail some_msg begins less ?_ (by simp)⟩
      simp
  · next none_before =>
    refine .inl ⟨_, rfl, @valid_of_tail _ _ _ _ some_msg begins less [] _ _ (forall_mem_nil _) ?_⟩
    rw [Nat.eq_zero_of_not_pos none_before]
    rfl

/-- No budget at all: the newest answer stays with its call. -/
theorem answered_call_kept :
    let history := [Msg.user "hi", .assistant none [], .toolResult "call" "done"]
    ∃ view, recentWindow List.length 0 history = .ok view ∧ Valid List.length 0 history view :=
  (condensers_valid List.length 0 (fun _ _ => .ok "") _ (List.cons_ne_nil _ _)
    (by rintro _ ⟨⟩; decide)).1

end
end Agent24.Memory
