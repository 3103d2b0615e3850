import Agent24.Os.Rpc
import Mathlib.Data.List.Duplicate

/-! Repeated keys of a frame: what the scan answers, and what `dispatch` then refuses. -/

set_option autoImplicit false
namespace Agent24.Os
open List

def keys (fields : List (String × Json)) : List String := fields.map Prod.fst

/-- An object of a text, with the keys that lead to it. Array positions are not among them. -/
inductive ObjectAt : Json → List String → List (String × Json) → Prop where
  | here {fields : List (String × Json)} : ObjectAt (.obj fields) [] fields
  | item {items : List Json} {item : Json} {path : List String} {fields : List (String × Json)}
      (listed : item ∈ items) (inner : ObjectAt item path fields) : ObjectAt (.arr items) path fields
  | member {members : List (String × Json)} {key : String} {value : Json} {path : List String}
      {fields : List (String × Json)} (listed : (key, value) ∈ members) (inner : ObjectAt value path fields) :
      ObjectAt (.obj members) (key :: path) fields

mutual
def repetitions (path : List String) : Json → List (List String)
  | .arr items => repetitionsItems path items
  | .obj fields => repetitionsFields path [] fields
  | _ => []

def repetitionsItems (path : List String) : List Json → List (List String)
  | [] => []
  | item :: rest => repetitions path item ++ repetitionsItems path rest

def repetitionsFields (path seen : List String) : List (String × Json) → List (List String)
  | [] => []
  | (key, value) :: rest =>
    (if key ∈ seen then [path ++ [key]] else []) ++ repetitions (path ++ [key]) value ++
      repetitionsFields path (key :: seen) rest
end

def Found.keep (found : Found) (path : List String) : Found :=
  if path.length = 1 ∧ found.envelope = none then { found with envelope := some path }
  else if found.first = none then { found with first := some path }
  else found

theorem keep_eq (found : Found) (path : List String) (key : String) :
    found.keep (path ++ [key]) =
      if path = [] ∧ found.envelope = none then { found with envelope := some [key] }
      else if found.first = none then { found with first := some (path ++ [key]) }
      else found := by
  cases path with
  | nil => simp [Found.keep]
  | cons first rest => simp [Found.keep]

mutual
theorem noDup_eq (path : List String) (found : Found) (text : Json) :
    noDup path found text = (repetitions path text).foldl .keep found := by
  cases text with
  | arr items => exact noDupItems_eq path found items
  | obj fields => exact noDupFields_eq path [] found fields
  | _ => rfl

theorem noDupItems_eq (path : List String) (found : Found) (items : List Json) :
    noDupItems path found items = (repetitionsItems path items).foldl .keep found := by
  cases items with
  | nil => rfl
  | cons item rest => rw [noDupItems, noDupItems_eq, noDup_eq, repetitionsItems, foldl_append]

theorem noDupFields_eq (path seen : List String) (found : Found) (fields : List (String × Json)) :
    noDupFields path seen found fields = (repetitionsFields path seen fields).foldl .keep found := by
  cases fields with
  | nil => rfl
  | cons field rest =>
    obtain ⟨key, value⟩ := field
    rw [noDupFields, noDupFields_eq, noDup_eq, repetitionsFields, foldl_append, foldl_append]
    by_cases met : key ∈ seen
    · rw [if_pos met, if_pos met, foldl_cons, foldl_nil, keep_eq]
    · rw [if_neg met, if_neg met, foldl_nil]
end

section
variable {paths : List (List String)} {found : Found}

theorem envelope_foldl :
    (paths.foldl .keep found).envelope = found.envelope.or (paths.find? fun path => path.length == 1) := by
  induction paths generalizing found with
  | nil => simp
  | cons path rest ih =>
    rw [foldl_cons, ih, List.find?_cons]
    by_cases single : path.length = 1
    · cases envelope : found.envelope with
      | none => simp [Found.keep, single, envelope]
      | some kept =>
        simp only [Found.keep, single, envelope, reduceCtorEq, and_false, if_false, Option.some_or]
        split <;> simp [envelope]
    · simp only [Found.keep, single, false_and, if_false]
      have longer : (path.length == 1) = false := by simpa using single
      rw [longer]
      split <;> rfl

theorem first_foldl (deeper : ∀ path ∈ paths, path.length ≠ 1) :
    (paths.foldl .keep found).first = found.first.or paths.head? := by
  induction paths generalizing found with
  | nil => simp
  | cons path rest ih =>
    rw [foldl_cons, ih fun path member => deeper path (mem_cons_of_mem _ member), List.head?_cons]
    simp only [Found.keep, deeper path (mem_cons_self ..), false_and, if_false]
    cases first : found.first <;> simp [first]

end

mutual
theorem mem_repetitions {base found : List String} (text : Json) :
    found ∈ repetitions base text ↔ ∃ path fields key,
      ObjectAt text path fields ∧ List.Duplicate key (keys fields) ∧ found = base ++ path ++ [key] := by
  cases text with
  | arr items =>
    rw [repetitions, mem_repetitionsItems]
    constructor
    · rintro ⟨item, listed, path, fields, key, inner, twice, same⟩
      exact ⟨path, fields, key, .item listed inner, twice, same⟩
    · rintro ⟨path, fields, key, inner, twice, same⟩
      cases inner with
      | item listed inner => exact ⟨_, listed, path, fields, key, inner, twice, same⟩
  | obj members =>
    rw [repetitions, mem_repetitionsFields]
    constructor
    · rintro (⟨key, here | twice, same⟩ | ⟨key, value, listed, path, fields, last, inner, twice, same⟩)
      · cases here.1
      · exact ⟨[], members, key, .here, twice, by rw [same, append_nil]⟩
      · exact ⟨key :: path, fields, last, .member listed inner, twice, by rw [same]; simp⟩
    · rintro ⟨path, fields, key, inner, twice, same⟩
      cases inner with
      | here => exact .inl ⟨key, .inr twice, by rw [same, append_nil]⟩
      | member listed inner => exact .inr ⟨_, _, listed, _, fields, key, inner, twice, by rw [same]; simp⟩
  | null | bool value | int value | float value | str value =>
    refine ⟨fun member => absurd member not_mem_nil, ?_⟩
    rintro ⟨path, fields, key, inner, -⟩
    cases inner

theorem mem_repetitionsItems {base found : List String} (items : List Json) :
    found ∈ repetitionsItems base items ↔ ∃ item ∈ items, ∃ path fields key,
      ObjectAt item path fields ∧ List.Duplicate key (keys fields) ∧ found = base ++ path ++ [key] := by
  cases items with
  | nil => simp [repetitionsItems]
  | cons item rest =>
    rw [repetitionsItems, mem_append, mem_repetitions, mem_repetitionsItems, exists_mem_cons_iff]

theorem mem_repetitionsFields {base seen found : List String} (members : List (String × Json)) :
    found ∈ repetitionsFields base seen members ↔
      (∃ key, ((key ∈ seen ∧ key ∈ keys members) ∨ List.Duplicate key (keys members)) ∧ found = base ++ [key]) ∨
      ∃ key value, (key, value) ∈ members ∧ ∃ path fields last,
        ObjectAt value path fields ∧ List.Duplicate last (keys fields) ∧ found = base ++ [key] ++ path ++ [last] := by
  cases members with
  | nil => simp [repetitionsFields, keys]
  | cons member rest =>
    obtain ⟨name, value⟩ := member
    have head : found ∈ (if name ∈ seen then [base ++ [name]] else []) ↔ name ∈ seen ∧ found = base ++ [name] := by
      by_cases met : name ∈ seen <;> simp [met]
    have listed : keys ((name, value) :: rest) = name :: keys rest := rfl
    rw [repetitionsFields, mem_append, mem_append, head, mem_repetitions, mem_repetitionsFields]
    constructor
    · rintro ((⟨met, same⟩ | ⟨path, fields, key, inner, twice, same⟩) | ⟨key, later, same⟩ | ⟨key, other, there,
        deeper⟩)
      · exact .inl ⟨name, .inl ⟨met, listed ▸ mem_cons_self ..⟩, same⟩
      · exact .inr ⟨name, value, mem_cons_self .., path, fields, key, inner, twice, same⟩
      · refine .inl ⟨key, ?_, same⟩
        rw [listed, duplicate_cons_iff, mem_cons]
        rcases later with ⟨met, again⟩ | twice
        · rcases mem_cons.mp met with rfl | met
          · exact .inr (.inl ⟨rfl, again⟩)
          · exact .inl ⟨met, .inr again⟩
        · exact .inr (.inr twice)
      · exact .inr ⟨key, other, mem_cons_of_mem _ there, deeper⟩
    · rintro (⟨key, met, same⟩ | ⟨key, other, there, path, fields, last, inner, twice, same⟩)
      · rw [listed, duplicate_cons_iff, mem_cons] at met
        rcases met with ⟨met, here | again⟩ | ⟨here, again⟩ | twice
        · exact .inl (.inl (here ▸ ⟨met, same⟩))
        · exact .inr (.inl ⟨key, .inl ⟨mem_cons_of_mem _ met, again⟩, same⟩)
        · exact .inr (.inl ⟨key, .inl ⟨here ▸ mem_cons_self .., here ▸ again⟩, same⟩)
        · exact .inr (.inl ⟨key, .inr twice, same⟩)
      · rcases mem_cons.mp there with here | later
        · cases here
          exact .inl (.inr ⟨path, fields, last, inner, twice, same⟩)
        · exact .inr (.inr ⟨key, other, later, path, fields, last, inner, twice, same⟩)
end

def Unambiguous (text : Json) : Prop := ∀ path fields, ObjectAt text path fields → (keys fields).Nodup

def TopRepeats (text : Json) : Prop := ∃ fields, ObjectAt text [] fields ∧ ¬ (keys fields).Nodup

theorem repetitions_nil_iff (text : Json) : repetitions [] text = [] ↔ Unambiguous text := by
  rw [eq_nil_iff_forall_not_mem]
  constructor
  · intro none_ path fields inner
    by_contra twice
    obtain ⟨key, twice⟩ := exists_duplicate_iff_not_nodup.mpr twice
    exact none_ _ ((mem_repetitions text).mpr ⟨path, fields, key, inner, twice, rfl⟩)
  · intro once found member
    obtain ⟨path, fields, key, inner, twice, -⟩ := (mem_repetitions text).mp member
    exact exists_duplicate_iff_not_nodup.mp ⟨key, twice⟩ (once path fields inner)

theorem single_repetition_iff (text : Json) :
    (∃ path ∈ repetitions [] text, path.length = 1) ↔ TopRepeats text := by
  constructor
  · rintro ⟨found, member, single⟩
    obtain ⟨path, fields, key, inner, twice, same⟩ := (mem_repetitions text).mp member
    have top : path = [] := by
      rw [same] at single
      simpa using single
    exact ⟨fields, top ▸ inner, exists_duplicate_iff_not_nodup.mp ⟨key, twice⟩⟩
  · rintro ⟨fields, inner, twice⟩
    obtain ⟨key, twice⟩ := exists_duplicate_iff_not_nodup.mpr twice
    exact ⟨[key], (mem_repetitions text).mpr ⟨[], fields, key, inner, twice, rfl⟩, rfl⟩

section
variable {R : JsonReader} {frame : List UInt8}

theorem findDuplicateKey_eq :
    findDuplicateKey R frame =
      ((repetitions [] (R.repeats frame)).find? fun path => path.length == 1).or
        (repetitions [] (R.repeats frame)).head? := by
  rw [findDuplicateKey, noDup_eq, envelope_foldl, Option.none_or]
  cases single : (repetitions [] (R.repeats frame)).find? fun path => path.length == 1 with
  | some path => rfl
  | none =>
    have deeper : ∀ path ∈ repetitions [] (R.repeats frame), path.length ≠ 1 := fun path member => by
      simpa using List.find?_eq_none.mp single path member
    rw [Option.none_or, Option.none_or, first_foldl deeper, Option.none_or]

theorem mem_of_findDuplicateKey {path : List String} (found : findDuplicateKey R frame = some path) :
    path ∈ repetitions [] (R.repeats frame) := by
  rw [findDuplicateKey_eq, Option.or_eq_some_iff] at found
  rcases found with single | ⟨-, first⟩
  · exact mem_of_find?_eq_some single
  · exact mem_of_head? first

theorem findDuplicateKey_none_iff : findDuplicateKey R frame = none ↔ Unambiguous (R.repeats frame) := by
  rw [findDuplicateKey_eq, Option.or_eq_none_iff, List.head?_eq_none_iff, repetitions_nil_iff]
  constructor
  · exact fun both => both.2
  · intro once
    rw [(repetitions_nil_iff _).mpr once]
    exact ⟨rfl, once⟩

theorem findDuplicateKey_single_iff :
    (∃ key, findDuplicateKey R frame = some [key]) ↔ TopRepeats (R.repeats frame) := by
  rw [← single_repetition_iff]
  constructor
  · rintro ⟨key, found⟩
    exact ⟨[key], mem_of_findDuplicateKey found, rfl⟩
  · rintro ⟨path, member, single⟩
    have some_ : ((repetitions [] (R.repeats frame)).find? fun path => path.length == 1).isSome := by
      rw [List.find?_isSome]
      exact ⟨path, member, by simpa using single⟩
    obtain ⟨first, found⟩ := Option.isSome_iff_exists.mp some_
    have one : first.length = 1 := by simpa using List.find?_some found
    obtain ⟨key, rfl⟩ := length_eq_one_iff.mp one
    exact ⟨key, by rw [findDuplicateKey_eq, found, Option.some_or]⟩

theorem findDuplicateKey_first (once : ¬ TopRepeats (R.repeats frame)) :
    findDuplicateKey R frame = (repetitions [] (R.repeats frame)).head? := by
  have none_ : ((repetitions [] (R.repeats frame)).find? fun path => path.length == 1) = none := by
    rw [List.find?_eq_none]
    intro path member single
    exact once ((single_repetition_iff _).mp ⟨path, member, by simpa using single⟩)
  rw [findDuplicateKey_eq, none_, Option.none_or]

end

mutual
/-- The text as a map keeps it: of a repeated key the last value. -/
def collapse : Json → Json
  | .arr items => .arr (collapseItems items)
  | .obj fields => .obj (collapseFields [] fields)
  | other => other

def collapseItems : List Json → List Json
  | [] => []
  | item :: rest => collapse item :: collapseItems rest

def collapseFields (kept : List (String × Json)) : List (String × Json) → List (String × Json)
  | [] => kept
  | (key, value) :: rest => collapseFields (insertField key (collapse value) kept) rest
end

/-- The two readings of one text agree: the map holds what the scan goes through. -/
def JsonReader.OneText (R : JsonReader) : Prop := ∀ bytes value, R.parse bytes = .ok value → value = collapse
    (R.repeats bytes)

theorem find_insertField (key wanted : String) (value : Json) (fields : List (String × Json)) :
    ((insertField key value fields).find? fun field => field.1 == wanted) =
      if key = wanted then some (key, value) else fields.find? fun field => field.1 == wanted := by
  induction fields with
  | nil => by_cases same : key = wanted <;> simp [insertField, same]
  | cons field rest ih =>
    obtain ⟨k, v⟩ := field
    rw [insertField]
    split
    · by_cases same : key = wanted <;> simp [same]
    split
    · next here =>
      subst here
      by_cases same : key = wanted <;> simp [same]
    · next apart =>
      rw [List.find?_cons, ih, List.find?_cons]
      by_cases same : key = wanted
      · subst same
        have other : (k == key) = false := by simpa using fun h : k = key => apart h.symm
        simp [other]
      · simp [same]

theorem find_collapseFields_absent {key : String} {fields kept : List (String × Json)} (absent : key ∉ keys fields) :
    ((collapseFields kept fields).find? fun field => field.1 == key) = kept.find? fun field => field.1 == key := by
  induction fields generalizing kept with
  | nil => rfl
  | cons field rest ih =>
    obtain ⟨k, v⟩ := field
    have apart : key ≠ k ∧ key ∉ keys rest := not_or.mp fun either => absent (mem_cons.mpr either)
    rw [collapseFields, ih apart.2, find_insertField, if_neg fun same => apart.1 same.symm]

theorem find_collapseFields {key : String} {value : Json} {fields kept : List (String × Json)}
    (once : (keys fields).Nodup) (listed : (key, value) ∈ fields) :
    ((collapseFields kept fields).find? fun field => field.1 == key) = some (key, collapse value) := by
  induction fields generalizing kept with
  | nil => cases listed
  | cons field rest ih =>
    obtain ⟨k, v⟩ := field
    have apart : k ∉ keys rest ∧ (keys rest).Nodup := nodup_cons.mp once
    rw [collapseFields]
    rcases mem_cons.mp listed with here | later
    · cases here
      rw [find_collapseFields_absent apart.1, find_insertField, if_pos rfl]
    · exact ih apart.2 later

theorem get_collapse {key : String} {value : Json} {fields : List (String × Json)}
    (once : (keys fields).Nodup) (listed : (key, value) ∈ fields) :
    (Json.obj (collapseFields [] fields)).get? key = some (collapse value) := by
  rw [Json.get?, find_collapseFields once listed, Option.map_some]

theorem collapse_ne_str {value : Json} {path : List String} {fields : List (String × Json)}
    (inner : ObjectAt value path fields) (text : String) : collapse value ≠ .str text := by
  cases inner <;> simp [collapse]

def Dispatch.acts : Dispatch → Bool
  | .call .. => true
  | .cancel _ => true
  | _ => false

theorem failRequest_idle (id : Option String) (e : RpcError) : (failRequest id e).acts = false := by
  cases id <;> rfl

theorem asStr_eq_some {value : Option Json} {text : String} (read : value.bind Json.asStr? = some text) :
    value = some (.str text) := by
  cases value with
  | none => cases read
  | some value =>
    cases value with
    | str inner =>
      have same : inner = text := Option.some.inj read
      rw [same]
    | _ => cases read

/-- What a frame whose request runs, or that cancels one, has passed. -/
structure Passed (dup : Option String) (fields : List (String × Json)) : Prop where
  clean : dup = none
  known : ∀ field ∈ fields, field.1 ∈ ["jsonrpc", "id", "method", "params"]
  version : (Json.obj fields).get? "jsonrpc" = some (.str "2.0")
  method : ∃ text, (Json.obj fields).get? "method" = some (.str text)

theorem dispatchMembers_acts {methods : Methods} {dup id : Option String} {fields : List (String × Json)}
    (acted : (dispatchMembers methods dup fields id).acts = true) : Passed dup fields := by
  unfold dispatchMembers at acted
  cases extra : fields.find? fun field => decide (field.1 ∉ ["jsonrpc", "id", "method", "params"]) with
  | some extra_ =>
    simp only [extra, failRequest_idle, Bool.false_eq_true] at acted
  | none =>
    simp only [extra] at acted
    split at acted
    · rw [failRequest_idle] at acted
      cases acted
    next version =>
    split at acted
    · rw [failRequest_idle] at acted
      cases acted
    next method read =>
    have known : ∀ field ∈ fields, field.1 ∈ ["jsonrpc", "id", "method", "params"] := fun field member => by
      simpa only [decide_not, Bool.not_eq_true', decide_eq_false_iff_not, not_not] using
        List.find?_eq_none.mp extra field member
    refine ⟨?_, known, asStr_eq_some (not_not.mp version), method, asStr_eq_some read⟩
    split at acted
    · rw [failRequest_idle] at acted
      cases acted
    split at acted
    · split at acted
      · next both => exact both.2
      · cases acted
    · split at acted
      · cases acted
      split at acted
      · cases acted
      split at acted
      · cases acted
      split at acted
      · cases acted
      · rfl

section
variable {R : JsonReader} {frame : List UInt8} {methods : Methods} {inFlight : String → Bool}

theorem dispatch_acts (acted : (dispatch R frame methods inFlight).acts = true) :
    ∃ fields, R.parse frame = .ok (.obj fields) ∧ (∀ key, findDuplicateKey R frame ≠ some [key]) ∧
      (∀ next rest, findDuplicateKey R frame ≠ some ("params" :: next :: rest)) ∧ Passed none fields ∧
      ∀ value, (Json.obj fields).get? "id" = some value → ∃ text, value = .str text := by
  unfold dispatch at acted
  split at acted
  · cases acted
  · next fields parsed =>
    dsimp only at acted
    split at acted
    · split at acted <;> cases acted
    next single =>
    refine ⟨fields, parsed, single, ?_⟩
    split at acted
    · next absent =>
      have passed := dispatchMembers_acts acted
      refine ⟨fun next rest found => ?_, { passed with clean := rfl }, fun value present => ?_⟩
      · have clean := passed.clean
        rw [found] at clean
        cases clean
      · rw [absent] at present
        cases present
    · next id given =>
      split at acted
      · cases acted
      split at acted
      · cases acted
      have passed := dispatchMembers_acts acted
      refine ⟨fun next rest found => ?_, { passed with clean := rfl }, fun value present => ?_⟩
      · have clean := passed.clean
        rw [found] at clean
        cases clean
      · rw [given] at present
        exact ⟨id, (Option.some.inj present).symm⟩
    · cases acted
  · cases acted
  · cases acted

theorem topRepeats_obj (members : List (String × Json)) : TopRepeats (.obj members) ↔ ¬ (keys members).Nodup := by
  constructor
  · rintro ⟨fields, inner, twice⟩
    cases inner
    exact twice
  · exact fun twice => ⟨members, .here, twice⟩

theorem unambiguous_of_acts (oneText : R.OneText) (acted : (dispatch R frame methods inFlight).acts = true) :
    Unambiguous (R.repeats frame) := by
  obtain ⟨fields, parsed, single, inParams, passed, idText⟩ := dispatch_acts acted
  cases found : findDuplicateKey R frame with
  | none => exact findDuplicateKey_none_iff.mp found
  | some path =>
    exfalso
    have same := oneText frame _ parsed
    cases text : R.repeats frame with
    | obj members =>
      rw [text, collapse, Json.obj.injEq] at same
      subst same
      have once : (keys members).Nodup := by
        by_contra twice
        obtain ⟨key, one⟩ := findDuplicateKey_single_iff.mpr (text ▸ (topRepeats_obj members).mpr twice)
        exact single key one
      obtain ⟨above, inner, key, there, twice, shape⟩ := (mem_repetitions _).mp (mem_of_findDuplicateKey found)
      rw [text] at there
      rw [nil_append] at shape
      cases there with
      | here => exact exists_duplicate_iff_not_nodup.mp ⟨key, twice⟩ once
      | member listed there =>
        rename_i head value rest
        have held := get_collapse once listed
        have known := passed.known _ (mem_of_find?_eq_some (find_collapseFields once listed))
        have text_ := collapse_ne_str there
        rcases mem_cons.mp known with rfl | known
        · exact text_ _ (Option.some.inj (held.symm.trans passed.version))
        rcases mem_cons.mp known with rfl | known
        · obtain ⟨id, same⟩ := idText _ held
          exact text_ id same
        rcases mem_cons.mp known with rfl | known
        · obtain ⟨method, given⟩ := passed.method
          exact text_ method (Option.some.inj (held.symm.trans given))
        have params : head = "params" := List.mem_singleton.mp known
        subst params
        cases below : rest ++ [key] with
        | nil => exact absurd below (by simp)
        | cons next deeper =>
          rw [shape, cons_append, below] at found
          exact inParams next deeper found
    | _ =>
      rw [text] at same
      simp [collapse] at same

/-- Two values of one envelope member: the request is refused with no id, and a notification is dropped. -/
theorem dispatch_topRepeats {members : List (String × Json)} {value : Json} (oneText : R.OneText)
    (parsed : R.parse frame = .ok value) (text : R.repeats frame = .obj members) (twice : ¬ (keys members).Nodup) :
    dispatch R frame methods inFlight = .ignore ∨ ∃ key, dispatch R frame methods inFlight =
      .respond (.error none (.invalidRequest ("duplicate key \x60" ++ clip key ++ "\x60 in the request"))) := by
  have same := oneText frame value parsed
  rw [text, collapse] at same
  obtain ⟨key, found⟩ := findDuplicateKey_single_iff.mpr (text ▸ (topRepeats_obj members).mpr twice)
  rw [same] at parsed
  simp only [dispatch, parsed, found]
  split
  · exact .inl rfl
  · exact .inr ⟨key, rfl⟩

end

/-- Repeated keys are found at every depth, and a frame that has one neither runs a handler nor cancels a call. -/
theorem repeated_keys_refused (R : JsonReader) (oneText : R.OneText) (frame : List UInt8) (value : Json)
    (parsed : R.parse frame = .ok value) (methods : Methods) (inFlight : String → Bool) :
    (findDuplicateKey R frame = none ↔ Unambiguous (R.repeats frame)) ∧
    ((∃ key, findDuplicateKey R frame = some [key]) ↔ TopRepeats (R.repeats frame)) ∧
    (¬ TopRepeats (R.repeats frame) → findDuplicateKey R frame = (repetitions [] (R.repeats frame)).head?) ∧
    (¬ Unambiguous (R.repeats frame) →
      (∀ id params handler, dispatch R frame methods inFlight ≠ .call id params handler) ∧
      ∀ id, dispatch R frame methods inFlight ≠ .cancel id) ∧
    (∀ members, R.repeats frame = .obj members → ¬ (keys members).Nodup →
      dispatch R frame methods inFlight = .ignore ∨ ∃ key, dispatch R frame methods inFlight =
        .respond (.error none (.invalidRequest ("duplicate key \x60" ++ clip key ++ "\x60 in the request")))) := by
  refine ⟨findDuplicateKey_none_iff, findDuplicateKey_single_iff, findDuplicateKey_first, ?_, ?_⟩
  · intro twice
    constructor
    · intro id params handler called
      exact twice (unambiguous_of_acts oneText (by rw [called]; rfl))
    · intro id cancelled
      exact twice (unambiguous_of_acts oneText (by rw [cancelled]; rfl))
  · intro members text twice
    exact dispatch_topRepeats oneText parsed text twice

section
variable (bytes : List UInt8)

def readerOf (text : Json) : JsonReader where
  parse given := if given = bytes then .ok (collapse text) else .error "expected value at line 1 column 1"
  repeats given := if given = bytes then text else .null

@[simp] theorem readerOf_parse (text : Json) :
    (readerOf bytes text).parse bytes = .ok (collapse text) := by
  simp [readerOf]

@[simp] theorem readerOf_repeats (text : Json) : (readerOf bytes text).repeats bytes = text := by
  simp [readerOf]

theorem readerOf_oneText (text : Json) : (readerOf bytes text).OneText := by
  intro given value parsed
  by_cases known : given = bytes
  · subst known
    rw [readerOf_parse] at parsed
    rw [readerOf_repeats]
    exact (Except.ok.inj parsed).symm
  · simp [readerOf, known] at parsed

end

/-- `{"id":"1","id":"2"}`. -/
def twoIds : List UInt8 :=
  [123, 34, 105, 100, 34, 58, 34, 49, 34, 44, 34, 105, 100, 34, 58, 34, 50, 34, 125]

theorem two_ids_refused :
    let R := readerOf twoIds (.obj [("id", .str "1"), ("id", .str "2")])
    (∃ key, findDuplicateKey R twoIds = some [key]) ∧
      (dispatch R twoIds (fun _ => none) (fun _ => false) = .ignore ∨
        ∃ key, dispatch R twoIds (fun _ => none) (fun _ => false) =
          .respond (.error none (.invalidRequest ("duplicate key \x60" ++ clip key ++ "\x60 in the request")))) := by
  intro R
  have parsed : R.parse twoIds = .ok (collapse (.obj [("id", .str "1"), ("id", .str "2")])) := readerOf_parse ..
  have text : R.repeats twoIds = .obj [("id", .str "1"), ("id", .str "2")] := readerOf_repeats ..
  have law := repeated_keys_refused R (readerOf_oneText _ _) twoIds _ parsed (fun _ => none) (fun _ => false)
  have twice : ¬ (keys [("id", Json.str "1"), ("id", .str "2")]).Nodup := by decide
  exact ⟨law.2.1.mpr (text ▸ (topRepeats_obj _).mpr twice), law.2.2.2.2 _ text twice⟩

/-- `[{"a":1,"a":1}]`. -/
def batchOfOne : List UInt8 := [91, 123, 34, 97, 34, 58, 49, 44, 34, 97, 34, 58, 49, 125, 93]

/-- A path of one key does not mean an object at the top. -/
theorem array_member_reported_as_top :
    let R := readerOf batchOfOne (.arr [.obj [("a", .int 1), ("a", .int 1)]])
    R.parse batchOfOne = .ok (.arr [.obj [("a", .int 1)]]) ∧ findDuplicateKey R batchOfOne = some ["a"] ∧
      ¬ ∃ members, R.repeats batchOfOne = .obj members := by
  intro R
  have text : R.repeats batchOfOne = .arr [.obj [("a", .int 1), ("a", .int 1)]] := readerOf_repeats ..
  refine ⟨readerOf_parse .., ?_, ?_⟩
  · rw [findDuplicateKey, text]
    rfl
  · rintro ⟨members, top⟩
    cases top

end Agent24.Os
