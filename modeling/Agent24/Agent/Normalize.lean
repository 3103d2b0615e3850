import Agent24.Agent.Thread
import Mathlib.Data.List.Chain

/-! The conversation as a provider is sent it: one system message in front, and no two user messages in a row. -/

set_option autoImplicit false
namespace Agent24.Agent
open List

namespace Msg

def system (content : String) : Msg := ⟨"system", some content, [], none⟩

def isSystem (m : Msg) : Bool := m.role == "system"

def isUser (m : Msg) : Bool := m.role == "user"

end Msg

def joined (texts : List String) : String := "\n\n".intercalate texts

def mergedContent : Option String → Option String → String
  | some a, some b => a ++ "\n\n" ++ b
  | some a, none => a
  | none, some b => b
  | none, none => ""

def Msg.merge (last msg : Msg) : Msg := { last with content := some (mergedContent last.content msg.content) }

def pushNormalized (normalized : List Msg) (msg : Msg) : List Msg :=
  match normalized.getLast? with
  | none => normalized ++ [msg]
  | some last =>
    if msg.isUser && last.isUser then normalized.dropLast ++ [last.merge msg] else normalized ++ [msg]

def systemMessage (systemParts : List String) : List Msg :=
  if systemParts.isEmpty then [] else [Msg.system (joined systemParts)]

def normalizeForProvider (messages : List Msg) : List Msg :=
  let systemParts := (messages.filter Msg.isSystem).filterMap Msg.content
  let rest := messages.filter fun m => !m.isSystem
  rest.foldl pushNormalized (systemMessage systemParts)

def turns : List Msg → List (List Msg)
  | [] => []
  | m :: rest =>
    match turns rest with
    | (next :: run) :: others =>
      if m.isUser && next.isUser then (m :: next :: run) :: others else [m] :: (next :: run) :: others
    | _ => [[m]]

def Merged (run : List Msg) (m : Msg) : Prop :=
  run = [m] ∨ 1 < run.length ∧ (∀ other ∈ run, other.isUser = true) ∧ m.isUser = true ∧
    m.content = some (joined (run.filterMap Msg.content))

structure Normalized (messages out : List Msg) : Prop where
  /-- At most one system message, and only in front. -/
  front : ∀ m ∈ out.tail, m.isSystem = false
  apart : out.IsChain fun a b => ¬ (a.isUser = true ∧ b.isUser = true)
  kept : out.filter (fun m => !m.isSystem && !m.isUser) = messages.filter fun m => !m.isSystem && !m.isUser
  system : out.filter Msg.isSystem = systemMessage ((messages.filter Msg.isSystem).filterMap Msg.content)
  users : List.Forall₂ Merged (turns (messages.filter fun m => !m.isSystem)) (out.filter fun m => !m.isSystem)
  again : normalizeForProvider out = out

/-- A run that opens with two messages without a text and has a text later. -/
def opensTextless : List Msg → Bool
  | first :: second :: rest =>
    first.content.isNone && second.content.isNone && rest.any fun m => m.content.isSome
  | _ => false

/-! ## The loop over runs -/

def settle (last : Msg) : List Msg → List Msg
  | [] => [last]
  | m :: rest => if m.isUser && last.isUser then settle (last.merge m) rest else last :: settle m rest

theorem foldl_push (front : List Msg) (last : Msg) (rest : List Msg) :
    rest.foldl pushNormalized (front ++ [last]) = front ++ settle last rest := by
  induction rest generalizing front last with
  | nil => rfl
  | cons m rest ih =>
    rw [foldl_cons, settle]
    cases both : m.isUser && last.isUser with
    | true =>
      have pushed : pushNormalized (front ++ [last]) m = front ++ [last.merge m] := by
        simp [pushNormalized, both]
      rw [pushed, ih, if_pos rfl]
    | false =>
      have pushed : pushNormalized (front ++ [last]) m = (front ++ [last]) ++ [m] := by
        simp [pushNormalized, both]
      rw [pushed, ih, if_neg Bool.false_ne_true, append_assoc, singleton_append]

theorem turns_cons (m : Msg) (rest : List Msg) : ∃ run others, turns (m :: rest) = (m :: run) :: others := by
  rw [turns]
  split
  · split
    · exact ⟨_, _, rfl⟩
    · exact ⟨_, _, rfl⟩
  · exact ⟨_, _, rfl⟩

theorem turns_head {m n : Msg} {rest run : List Msg} {others : List (List Msg)} (same : m.isUser = n.isUser)
    (starts : turns (m :: rest) = (m :: run) :: others) : turns (n :: rest) = (n :: run) :: others := by
  rw [turns] at starts ⊢
  rw [← same]
  split at starts
  · split at starts
    · next both =>
      obtain ⟨head, rfl⟩ := List.cons.inj starts
      obtain ⟨-, rfl⟩ := List.cons.inj head
      rw [if_pos both]
    · next both =>
      obtain ⟨head, rfl⟩ := List.cons.inj starts
      obtain ⟨-, rfl⟩ := List.cons.inj head
      rw [if_neg both]
  · obtain ⟨head, rfl⟩ := List.cons.inj starts
    obtain ⟨-, rfl⟩ := List.cons.inj head
    rfl

def collapse : List Msg → Msg
  | [] => .user ""
  | m :: run => run.foldl Msg.merge m

theorem settle_turns (m : Msg) (rest : List Msg) : settle m rest = (turns (m :: rest)).map collapse := by
  induction rest generalizing m with
  | nil => rfl
  | cons n rest ih =>
    obtain ⟨run, others, runs⟩ := turns_cons n rest
    rw [settle, turns, runs]
    dsimp only
    cases both : m.isUser && n.isUser with
    | true =>
      rw [Bool.and_comm, both, if_pos rfl, if_pos rfl, ih]
      rw [Bool.and_eq_true] at both
      rw [turns_head (n := m.merge n) (both.2.trans both.1.symm) runs]
      rfl
    | false =>
      rw [Bool.and_comm, both, if_neg Bool.false_ne_true, if_neg Bool.false_ne_true, ih, runs]
      rfl

/-! ## The texts of a run -/

theorem joined_cons (text : String) (texts : List String) :
    joined (text :: texts) = if texts.isEmpty then text else text ++ "\n\n" ++ joined texts := by
  cases texts with
  | nil => exact String.intercalate_singleton
  | cons next rest => exact String.intercalate_cons_cons

theorem joined_append (a b : String) (texts : List String) :
    joined ((a ++ "\n\n" ++ b) :: texts) = joined (a :: b :: texts) := by
  rw [joined_cons, joined_cons a, joined_cons b]
  cases texts with
  | nil => rfl
  | cons next rest => simp [String.append_assoc]

theorem foldl_merge_isUser (m : Msg) (run : List Msg) : (run.foldl Msg.merge m).isUser = m.isUser := by
  induction run generalizing m with
  | nil => rfl
  | cons n run ih => rw [foldl_cons, ih]; rfl

theorem foldl_merge_isSystem (m : Msg) (run : List Msg) : (run.foldl Msg.merge m).isSystem = m.isSystem := by
  induction run generalizing m with
  | nil => rfl
  | cons n run ih => rw [foldl_cons, ih]; rfl

theorem foldl_merge_text {m : Msg} {text : String} (has : m.content = some text) (run : List Msg) :
    (run.foldl Msg.merge m).content = some (joined (text :: run.filterMap Msg.content)) := by
  induction run generalizing m text with
  | nil => exact has.trans (congrArg some (joined_cons text []).symm)
  | cons n run ih =>
    rw [foldl_cons]
    cases next : n.content with
    | none =>
      have merged : (m.merge n).content = some text := by simp [Msg.merge, has, next, mergedContent]
      rw [ih merged, filterMap_cons_none next]
    | some b =>
      have merged : (m.merge n).content = some (text ++ "\n\n" ++ b) := by
        simp [Msg.merge, has, next, mergedContent]
      rw [ih merged, filterMap_cons_some next, joined_append]

theorem joined_empty_iff (texts : List String) : joined ("" :: texts) = joined texts ↔ texts = [] := by
  refine ⟨fun same => ?_, ?_⟩
  · cases texts with
    | nil => rfl
    | cons text rest =>
      rw [joined_cons, isEmpty_cons, if_neg Bool.false_ne_true] at same
      have sizes := congrArg String.length same
      rw [String.length_append, String.length_append] at sizes
      have two : "\n\n".length = 2 := by decide
      omega
  · rintro rfl
    exact String.intercalate_singleton.trans String.intercalate_nil.symm

/-- The text of a run of two or more is the join of its texts exactly if it does not open textless. -/
theorem collapse_text (first second : Msg) (run : List Msg) :
    ((second :: run).foldl Msg.merge first).content =
      some (joined ((first :: second :: run).filterMap Msg.content)) ↔
    opensTextless (first :: second :: run) = false := by
  rw [foldl_cons]
  cases one : first.content with
  | some text =>
    have whole := foldl_merge_text one (second :: run)
    rw [foldl_cons] at whole
    rw [whole, filterMap_cons_some one]
    simp [opensTextless, one]
  | none =>
    cases two : second.content with
    | some text =>
      have merged : (first.merge second).content = some text := by simp [Msg.merge, one, two, mergedContent]
      rw [foldl_merge_text merged, filterMap_cons_none one, filterMap_cons_some two]
      simp [opensTextless, two]
    | none =>
      have merged : (first.merge second).content = some "" := by simp [Msg.merge, one, two, mergedContent]
      rw [foldl_merge_text merged, filterMap_cons_none one, filterMap_cons_none two,
        Option.some.injEq, joined_empty_iff]
      simp [opensTextless, one, two, filterMap_eq_nil_iff]

/-! ## What is sent -/

theorem normalize_eq (messages : List Msg) :
    normalizeForProvider messages = systemMessage ((messages.filter Msg.isSystem).filterMap Msg.content) ++
      (turns (messages.filter fun m => !m.isSystem)).map collapse := by
  unfold normalizeForProvider systemMessage
  dsimp only
  have plain : ∀ m ∈ messages.filter (fun m => !m.isSystem), m.isSystem = false := by
    intro m member
    simpa using (mem_filter.mp member).2
  generalize messages.filter (fun m => !m.isSystem) = rest at plain
  generalize (messages.filter Msg.isSystem).filterMap Msg.content = texts
  split
  · cases rest with
    | nil => rfl
    | cons m rest =>
      have first : pushNormalized [] m = [] ++ [m] := rfl
      rw [foldl_cons, first, foldl_push, settle_turns]
  · have pushed := foldl_push [] (Msg.system (joined texts)) rest
    rw [nil_append, nil_append] at pushed
    rw [pushed]
    cases rest with
    | nil => rfl
    | cons m rest =>
      have no_user : (Msg.system (joined texts)).isUser = false := by rfl
      rw [settle, no_user, Bool.and_false, if_neg Bool.false_ne_true, settle_turns, singleton_append]

/-- The runs stand apart, and hold the messages in their order. -/
structure Cut (rest : List Msg) (runs : List (List Msg)) : Prop where
  whole : runs.flatten = rest
  some_ : ∀ run ∈ runs, run ≠ []
  users : ∀ run ∈ runs, 1 < run.length → ∀ m ∈ run, m.isUser = true
  apart : runs.IsChain fun a b => ¬ ((∀ m ∈ a.head?, m.isUser = true) ∧ ∀ m ∈ b.head?, m.isUser = true)

theorem turns_cut (rest : List Msg) : Cut rest (turns rest) := by
  induction rest with
  | nil => exact ⟨rfl, fun _ member => absurd member not_mem_nil, fun _ member => absurd member not_mem_nil,
      List.IsChain.nil⟩
  | cons m rest ih =>
    cases rest with
    | nil =>
      refine ⟨rfl, ?_, ?_, List.IsChain.singleton _⟩
      · rintro run member rfl
        simp [turns] at member
      · intro run member long
        obtain rfl := mem_singleton.mp member
        exact absurd long (Nat.lt_irrefl 1)
    | cons n rest =>
      obtain ⟨run, others, runs⟩ := turns_cons n rest
      rw [runs] at ih
      rw [turns, runs]
      dsimp only
      have whole := ih.whole
      rw [flatten_cons] at whole
      split
      · next both =>
        rw [Bool.and_eq_true] at both
        refine ⟨?_, ?_, ?_, ?_⟩
        · rw [flatten_cons, cons_append, whole]
        · intro other member
          rcases mem_cons.mp member with rfl | later
          · exact cons_ne_nil _ _
          · exact ih.some_ other (mem_cons_of_mem _ later)
        · intro other member long
          rcases mem_cons.mp member with rfl | later
          · rw [forall_mem_cons]
            refine ⟨both.1, ?_⟩
            cases run with
            | nil => simpa using both.2
            | cons k run => exact ih.users _ (.head _) (by simp)
          · exact ih.users other (mem_cons_of_mem _ later) long
        · have apart := ih.apart
          cases others with
          | nil => exact List.IsChain.singleton _
          | cons other others =>
            rw [isChain_cons_cons] at apart ⊢
            refine ⟨fun ends => apart.1 ⟨?_, ends.2⟩, apart.2⟩
            simpa using both.2
      · next one =>
        refine ⟨?_, ?_, ?_, ?_⟩
        · rw [flatten_cons, flatten_cons, whole, singleton_append]
        · intro other member
          rcases mem_cons.mp member with rfl | later
          · exact cons_ne_nil _ _
          · exact ih.some_ other later
        · intro other member long
          rcases mem_cons.mp member with rfl | later
          · exact absurd long (Nat.lt_irrefl 1)
          · exact ih.users other later long
        · rw [isChain_cons_cons]
          refine ⟨fun ends => one ?_, ih.apart⟩
          simpa using ends

namespace Cut
variable {rest : List Msg} {runs : List (List Msg)}

section
variable (cut : Cut rest runs)
include cut

theorem starts {run : List Msg} (member : run ∈ runs) :
    ∃ m others, run = m :: others ∧ m ∈ rest ∧ (collapse run).isUser = m.isUser ∧
      (collapse run).isSystem = m.isSystem := by
  cases run with
  | nil => exact absurd rfl (cut.some_ [] member)
  | cons m others =>
    refine ⟨m, others, rfl, ?_, foldl_merge_isUser m others, foldl_merge_isSystem m others⟩
    rw [← cut.whole]
    exact mem_flatten_of_mem member (.head _)

theorem collapsed_apart :
    (runs.map collapse).IsChain fun a b => ¬ (a.isUser = true ∧ b.isUser = true) := by
  rw [isChain_map]
  refine cut.apart.imp_of_mem_imp fun {a b} first second ends both => ends ⟨?_, ?_⟩
  · obtain ⟨m, others, rfl, -, same, -⟩ := cut.starts first
    simpa [← same] using both.1
  · obtain ⟨m, others, rfl, -, same, -⟩ := cut.starts second
    simpa [← same] using both.2

theorem collapsed_plain (plain : ∀ m ∈ rest, m.isSystem = false) :
    ∀ m ∈ runs.map collapse, m.isSystem = false := by
  intro m member
  obtain ⟨run, held, rfl⟩ := mem_map.mp member
  obtain ⟨first, others, -, listed, -, same⟩ := cut.starts held
  rw [same]
  exact plain first listed

theorem collapsed_others :
    (runs.map collapse).filter (fun m => !m.isUser) = rest.filter fun m => !m.isUser := by
  rw [← cut.whole, filter_flatten]
  have some_ := cut.some_
  have users := cut.users
  clear cut
  induction runs with
  | nil => rfl
  | cons run runs ih =>
    rw [forall_mem_cons] at some_ users
    have later := ih some_.2 users.2
    have first : [collapse run].filter (fun m => !m.isUser) = run.filter fun m => !m.isUser := by
      have first := some_.1
      have all := users.1
      cases run with
      | nil => exact absurd rfl first
      | cons m others =>
      cases others with
      | nil => rfl
      | cons n others =>
        have all := all (by simp)
        have none_left : (m :: n :: others).filter (fun m => !m.isUser) = [] := by
          rw [filter_eq_nil_iff]
          intro other member
          simp [all other member]
        have collapsed : (collapse (m :: n :: others)).isUser = true :=
          (foldl_merge_isUser m (n :: others)).trans (all m (.head _))
        rw [none_left, filter_eq_nil_iff]
        intro other member
        rw [mem_singleton.mp member, collapsed]
        decide
    rw [map_cons, ← singleton_append, filter_append, first, later, map_cons, flatten_cons]

theorem merged_iff {run : List Msg} (member : run ∈ runs) :
    Merged run (collapse run) ↔ opensTextless run = false := by
  have users := cut.users run member
  have some_ := cut.some_ run member
  cases run with
  | nil => exact absurd rfl some_
  | cons first others =>
  cases others with
  | nil => exact iff_of_true (.inl rfl) rfl
  | cons second others =>
    have all := users (by simp)
    have user : (collapse (first :: second :: others)).isUser = true :=
      (foldl_merge_isUser first (second :: others)).trans (all first (.head _))
    rw [← collapse_text]
    refine ⟨fun merged => ?_, fun text => .inr ⟨by simp, all, user, text⟩⟩
    obtain single | ⟨-, -, -, text⟩ := merged
    · have sizes := congrArg List.length single
      simp at sizes
    · exact text

end

end Cut

theorem turns_apart {messages : List Msg}
    (apart : messages.IsChain fun a b => ¬ (a.isUser = true ∧ b.isUser = true)) :
    turns messages = messages.map fun m => [m] := by
  induction messages with
  | nil => rfl
  | cons m rest ih =>
    cases rest with
    | nil => rfl
    | cons n rest =>
      rw [isChain_cons_cons] at apart
      have later := ih apart.2
      rw [turns, later, map_cons]
      dsimp only
      rw [if_neg]
      · rfl
      · rw [Bool.and_eq_true]
        exact apart.1

theorem collapse_singles (messages : List Msg) : (messages.map fun m => [m]).map collapse = messages := by
  rw [map_map]
  exact map_id messages

theorem systemMessage_plain (texts : List String) :
    ((systemMessage texts).filter fun m => !m.isSystem) = [] ∧
      (systemMessage texts).filter Msg.isSystem = systemMessage texts ∧
      ((systemMessage texts).filter fun m => !m.isSystem && !m.isUser) = [] := by
  unfold systemMessage
  split
  · exact ⟨rfl, rfl, rfl⟩
  · exact ⟨rfl, rfl, rfl⟩

theorem systemMessage_again (texts : List String) :
    systemMessage ((systemMessage texts).filterMap Msg.content) = systemMessage texts := by
  unfold systemMessage
  cases texts.isEmpty with
  | true => rfl
  | false =>
    have once : joined [joined texts] = joined texts := String.intercalate_singleton
    have read : [Msg.system (joined texts)].filterMap Msg.content = [joined texts] := rfl
    rw [if_neg Bool.false_ne_true, read, isEmpty_cons, if_neg Bool.false_ne_true, once]

section
variable {texts : List String} {body : List Msg}

section
variable (plain : ∀ m ∈ body, m.isSystem = false)
include plain

theorem filter_sent :
    (systemMessage texts ++ body).filter Msg.isSystem = systemMessage texts ∧
      ((systemMessage texts ++ body).filter fun m => !m.isSystem) = body := by
  have none_in : body.filter Msg.isSystem = [] := by
    rw [filter_eq_nil_iff]
    intro m member
    rw [plain m member]
    exact Bool.false_ne_true
  have all_in : body.filter (fun m => !m.isSystem) = body := by
    rw [filter_eq_self]
    intro m member
    rw [plain m member]
    rfl
  obtain ⟨others, own, -⟩ := systemMessage_plain texts
  rw [filter_append, filter_append, none_in, all_in, others, own, append_nil, nil_append]
  exact ⟨rfl, rfl⟩

theorem normalize_settled (apart : body.IsChain fun a b => ¬ (a.isUser = true ∧ b.isUser = true)) :
    normalizeForProvider (systemMessage texts ++ body) = systemMessage texts ++ body := by
  obtain ⟨own, others⟩ := @filter_sent texts body plain
  rw [normalize_eq, own, others, systemMessage_again, turns_apart apart, collapse_singles]

theorem sent_apart (apart : body.IsChain fun a b => ¬ (a.isUser = true ∧ b.isUser = true)) :
    (systemMessage texts ++ body).IsChain (fun a b => ¬ (a.isUser = true ∧ b.isUser = true)) ∧
      ∀ m ∈ (systemMessage texts ++ body).tail, m.isSystem = false := by
  unfold systemMessage
  split
  · exact ⟨apart, fun m later => plain m (mem_of_mem_tail later)⟩
  refine ⟨?_, plain⟩
  cases body with
  | nil => exact List.IsChain.singleton _
  | cons m body =>
    refine isChain_cons_cons.mpr ⟨fun both => ?_, apart⟩
    have no_user : (Msg.system (joined texts)).isUser = false := rfl
    exact Bool.false_ne_true both.1

end

end

def textlessTurn : List Msg := [⟨"user", none, [], none⟩, ⟨"user", none, [], none⟩, .user "b"]

end Agent24.Agent
